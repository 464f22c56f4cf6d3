import Hephaestus.Pipeline.ExitStatus
import Hephaestus.Pipeline.ImplementationOrder

/-!
# The source of explicit issues

`_drain_direct_issue_source` of `coordinator_sources.py`. An issue is taken off the front,
classified and pushed; one whose plan touches reserved files goes to the back, and one the
queue refuses goes to the front again. What classification comes to is an answer of GitHub.
-/

namespace Hephaestus.Pipeline

open Hephaestus.Lib

/-- `_DirectIssueSource`, of what the drain reads. -/
structure DirectIssueSource where
  repo : String
  issues : List Int
  overlapBlockedClaims : Option (Finset FileClaim) := none

/-- What `_prepare_direct_issue_item` comes to. -/
inductive Prepared
  /-- The entry has no stage. -/
  | excluded
  | item (new : NewItem)
  /-- One of `_PERMANENT_ROW_CLASSIFICATION_ERRORS`. -/
  | failed (error message : String)
  /-- A `CommentJournalReadError` among others. -/
  | raised (e : PyError)

/-- What GitHub answers in the course of a drain. -/
structure DirectAnswers (ω : Type) where
  prepare : Int → Prepared
  plans : ItemId → Except PlanReadError (List String)
  /-- The redacted diagnostic of an error. -/
  detail : String → String
  world : World ω

/-- What became of an issue. -/
inductive IssueFate
  | pushed (i : ItemId)
  | failed (i : ItemId)
  | excluded
  /-- The drain raised while the issue was classified. -/
  | raised
  deriving DecidableEq

/-- The coordinator and the source. `fates` is the history of the issues that left it,
which nothing here reads. -/
structure DirectState where
  coordinator : Coordinator
  source : Option DirectIssueSource
  fates : List (Int × IssueFate) := []

/-- A command over both. -/
abbrev DirectOp (α : Type) := Command DirectState PyError α

/-- A command over the coordinator. -/
def onCoordinator {α : Type} (x : Op α) : DirectOp α := do
  let s ← get
  let r := x.exec s.coordinator
  set { s with coordinator := r.2 }
  Command.attempt r.1

def noteFate (issue : Int) (fate : IssueFate) : DirectOp Unit :=
  modify fun s => { s with fates := s.fates ++ [(issue, fate)] }

def editSource (f : DirectIssueSource → DirectIssueSource) : DirectOp Unit :=
  modify fun s => { s with source := s.source.map f }

/-- `source.issues`. -/
def DirectState.issues (s : DirectState) : List Int := (s.source.map DirectIssueSource.issues).getD []

/-- `_DIRECT_ISSUE_ENTRY_STAGES`. -/
def directIssueEntryStages : List StageName :=
  [.planning, .planReview, .implementation, .prReview, .mergeWait, .finished]

variable {ω : Type} (host : Host ω)

/-- `_direct_issue_queues_can_accept`. -/
def Coordinator.directIssueQueuesCanAccept (s : Coordinator) : Bool :=
  decide (s.liveWorkCount < host.config.workWindow) &&
    directIssueEntryStages.all fun stage => (s.queues stage).canOffer

/-- `_record_issue_classification_failure`. -/
def recordIssueClassificationFailure (detail : String → String) (repo : String) (issue : Int)
    (error message : String) : DirectOp Unit := do
  let reason := "classification failed (" ++ error ++ "): " ++ orElse (detail message) "no diagnostic"
    ++ "; manual recovery required"
  let s ← get
  set { s with
    coordinator :=
      s.coordinator.recordFailedSource host.config (failedSource repo (some issue) reason) }
  noteFate issue (.failed s.coordinator.allocated)

/-- `_read_direct_issue_candidate`: the item, and the error its plan could not be read for. -/
def readDirectIssueCandidate (answers : DirectAnswers ω) (repo : String) (issue : Int) :
    DirectOp (Option (ItemId × Option String)) :=
  match answers.prepare issue with
  | .excluded => do
      noteFate issue .excluded
      pure none
  | .failed error message => do
      recordIssueClassificationFailure host answers.detail repo issue error message
      pure none
  | .raised e => do
      noteFate issue .raised
      throw e
  | .item new => do
      let s ← get
      let i := s.coordinator.allocated
      set { s with coordinator := s.coordinator.alloc new.item }
      if overlapSerializationEnabled host ∧ new.item.stage = .implementation then do
        let read ← tryCatch (onCoordinator (readImplementationFileClaims host answers.plans i))
          fun e => do
            noteFate issue .raised
            throw e
        match read with
        | .ok _ => pure (some (i, none))
        | .error (.journalRead message) => pure (some (i, some message))
        | .error (.aliasConflict message) => do
            recordIssueClassificationFailure host answers.detail repo issue
              "CommentAliasConflictError" message
            pure none
        | .error (.other e) => do
            noteFate issue .raised
            throw e
      else pure (some (i, none))

/-- `pushed`, `scanned` and `blocked_by_overlap`. -/
structure DirectPass where
  pushed : Nat := 0
  scanned : Nat := 0
  blockedByOverlap : Bool := false

/-- A pushed item whose plan could not be read is to be read again. -/
def deferPushed (w : World ω) (i : ItemId) : Option String → DirectOp Unit
  | none => pure ()
  | some message => do
      if ← onCoordinator (claimSelectedImplementationItem i) then
        onCoordinator (deferImplementationPlanRead host w i message)
      else throw (runtimeError "plan admission retry lost its queue item")

/-- The loop, for as many issues as there were. -/
def directLoop (answers : DirectAnswers ω) (repo : String) (active : Finset FileClaim) :
    Nat → DirectPass → DirectOp DirectPass
  | 0, pass => pure pass
  | left + 1, pass => do
      let s ← get
      match s.issues with
      | [] => pure pass
      | issue :: _ =>
          if !s.coordinator.directIssueQueuesCanAccept host then pure pass
          else do
            editSource fun source => { source with issues := source.issues.tail }
            let pass := { pass with scanned := pass.scanned + 1 }
            match ← readDirectIssueCandidate host answers repo issue with
            | none => directLoop answers repo active left pass
            | some (i, error) => do
                let s ← get
                let claims := (s.coordinator.workItem i).fileClaims?.getD ∅
                if overlapSerializationEnabled host ∧ claims ∩ active ≠ ∅ then do
                  editSource fun source => { source with issues := source.issues ++ [issue] }
                  directLoop answers repo active left { pass with blockedByOverlap := true }
                else if ← onCoordinator
                    (pushItem host.config i (s.coordinator.stageOf i) true true) then do
                  noteFate issue (.pushed i)
                  deferPushed host answers.world i error
                  let pass := { pass with pushed := pass.pushed + 1 }
                  let s ← get
                  if overlapSerializationEnabled host ∧ s.coordinator.stageOf i = .implementation then
                    pure pass
                  else directLoop answers repo active left pass
                else do
                  editSource fun source => { source with issues := issue :: source.issues }
                  pure pass

/-- `_drain_direct_issue_source`. -/
def drainDirectIssueSource (answers : DirectAnswers ω) : DirectOp Nat := do
  let s ← get
  match s.source with
  | none => pure 0
  | some source => do
      let active ← onCoordinator (activeImplementationFileClaims host ∅)
      if overlapSerializationEnabled host ∧ source.overlapBlockedClaims = some active then pure 0
      else do
        editSource fun source => { source with overlapBlockedClaims := none }
        let pass ← directLoop host answers source.repo active source.issues.length {}
        let s ← get
        if s.issues = [] then set { s with source := none }
        else if pass.pushed = 0 ∧ pass.blockedByOverlap ∧ pass.scanned = source.issues.length then
          editSource fun source => { source with overlapBlockedClaims := some active }
        else pure ()
        pure pass.pushed

/-- What happens while there is a source. -/
inductive DirectEvent (ω : Type)
  | drain (answers : DirectAnswers ω)
  | coordinator (e : CoordinatorEvent ω)

/-- One step, whether the drain returns or raises. -/
def DirectState.step (s : DirectState) : DirectEvent ω → Option DirectState
  | .drain answers => some ((drainDirectIssueSource host answers).exec s).2
  | .coordinator e => (s.coordinator.step host e).map fun t => { s with coordinator := t }

/-- `_begin_direct_issue_source`: each issue once. -/
def DirectState.begin (s : Coordinator) (repo : String) (openIssues : List Int) : DirectState where
  coordinator := s
  source := some { repo, issues := openIssues.eraseDups }

end Hephaestus.Pipeline
