import Hephaestus.Lib.Run
import Hephaestus.Proofs.JournalProtocol
import Hephaestus.Proofs.WaveVerify
import Hephaestus.Proofs.BreakerSlots
import Hephaestus.Pipeline.System
import Hephaestus.Proofs.WaveAccounting
import Hephaestus.Proofs.OverlapProgress
import Hephaestus.Pipeline.LearningStage
import Hephaestus.Proofs.Handoff
import Hephaestus.Proofs.LearningDetour
import Hephaestus.Proofs.IssueKeys
import Hephaestus.Proofs.RouteTable
import Hephaestus.Proofs.Journeys
import Hephaestus.Proofs.DrainPass
import Hephaestus.Proofs.ExitStatus
import Hephaestus.Proofs.ThrottleBound
import Hephaestus.Proofs.ReplyRenderers
import Hephaestus.Lib.Regex
import Hephaestus.Lib.JsonCodec
import Hephaestus.Lib.CanonicalJson
import Hephaestus.Automation.ReplyRecovery
import Hephaestus.Automation.ReplyDelivery
import Hephaestus.Automation.ReplyJournal
import Hephaestus.Proofs.DuplicateFindings
import Hephaestus.Proofs.MergeRequestGate
import Hephaestus.Proofs.ReplyProgress
import Hephaestus.Proofs.MergeGate
import Hephaestus.Proofs.AuditReceipts
import Hephaestus.Proofs.WaveReplay
import Hephaestus.Proofs.WaveDocuments
import Hephaestus.Proofs.ReplyRecovery
import Hephaestus.Proofs.ReplyDelivery
import Hephaestus.Proofs.ReplyJournal
import Hephaestus.Automation.RequirementsRecovery
import Hephaestus.Pipeline.LeaseObjects
import Hephaestus.Proofs.LeaseObjects
import Hephaestus.Lib.Pattern
import Hephaestus.Pipeline.Admission
import Hephaestus.Proofs.PlanScope
import Hephaestus.Proofs.OverlapFrame
import Hephaestus.Lib.Contest
import Hephaestus.Proofs.OverlapRound
import Hephaestus.Proofs.OverlapSafety
import Hephaestus.Automation.RemediationChecks
import Hephaestus.Automation.SourceReceipt
import Hephaestus.Automation.PretestCandidate
import Hephaestus.Proofs.RemediationFields
import Hephaestus.Proofs.PretestRecords
import Hephaestus.Proofs.PretestLineage
import Hephaestus.Automation.PlanReviewSession
import Hephaestus.Proofs.PlanReviewCycles
import Hephaestus.Lib.JsonReader
import Hephaestus.Nats.Subscriber
import Hephaestus.Proofs.SubscriberLifecycle
import Hephaestus.Proofs.MessageDelivery
import Hephaestus.Automation.ReviewReceipts
import Hephaestus.Proofs.ReviewReceipts
import Hephaestus.Pipeline.LearningRestart
import Hephaestus.Proofs.LearningRestart
import Hephaestus.Config.Merge
import Hephaestus.Proofs.ConfigMerge
import Hephaestus.Automation.WriterHandoff
import Hephaestus.Proofs.WriterHandoff
import Hephaestus.Automation.PlanReviewTranscript
import Hephaestus.Proofs.PlanReviewTranscript
import Hephaestus.Github.WorktreeInventory
import Hephaestus.Automation.ContentIdentity
import Hephaestus.Proofs.WorktreeInventory
import Hephaestus.Proofs.ContentIdentity
import Hephaestus.Lib.Double
import Hephaestus.Lib.Exposition
import Hephaestus.Observability.Metrics
import Hephaestus.Proofs.MetricsText
import Hephaestus.Lib.FirstSeen
import Hephaestus.Proofs.MetricsRuns
import Hephaestus.Automation.DependencyResolver
import Hephaestus.Lib.Precedence
import Hephaestus.Proofs.DependencyCycles
import Hephaestus.Proofs.DependencyOrder
import Hephaestus.Lib.HeadMerge
import Hephaestus.Pipeline.ImplementationOrder
import Hephaestus.Proofs.ImplementationOrder
import Hephaestus.Proofs.TerminalRetention
import Hephaestus.Pipeline.DirectSource
import Hephaestus.Automation.ReviewPositions
import Hephaestus.Proofs.DirectSource
import Hephaestus.Proofs.ReviewPositions
import Hephaestus.Automation.ReviewerReconciliation
import Hephaestus.Proofs.ReviewerReconciliation
