import Hephaestus.Lib.Keyed
import Hephaestus.Pipeline.System

/-!
# The exit status of a run

`_exit_code` and what it reads: the constant-space aggregate of
`summary.py`, the window of detailed items the coordinator keeps, and the
ledger. The aggregate is started afresh by `_seed_pass`. In the model the
coordinator keeps the list of the items it has recorded, and the aggregate of
a pass is the one over those that were recorded since the pass began: nothing
writes to an item after it is recorded.

A run of the coordinator with its seed passes is a step system over the one
of `System.lean`, with two more things that can happen to it: a source that
fails and leaves a result of its own, and an exception out of the event
loop.
-/

namespace Hephaestus.Pipeline

open Hephaestus.Lib

/-! ## Summaries -/

/-- `_logical_item_key`. An item with neither number is only itself. -/
inductive LogicalKey
  | repo (repo : String)
  | issue (repo : String) (number : Int)
  | pr (repo : String) (number : Int)
  | object (repo : String) (kind : ItemKind) (id : ItemId)
  deriving DecidableEq

def logicalItemKey (i : ItemId) (item : WorkItem) : LogicalKey :=
  if item.kind = .repo then .repo item.repo
  else
    match item.issue, item.pr with
    | some number, _ => .issue item.repo number
    | none, some number => .pr item.repo number
    | none, none => .object item.repo item.kind i

/-- `_disposition`. -/
inductive DispositionCell
  | pending
  | resumable (stage : StageName)
  | pass
  | skip
  | blocked
  | fail (reason : String)

/-- `text.startswith(start)`. -/
def startsWith (text start : String) : Bool := start.toList.isPrefixOf text.toList

def disposition (item : WorkItem) : DispositionCell :=
  match item.result with
  | none => .pending
  | some result =>
      if startsWith result.reason "resumable" then .resumable result.finalStage
      else if result.passed then .pass
      else if startsWith result.reason "skip" then .skip
      else if startsWith result.reason "blocked" then .blocked
      else .fail result.reason

/-- `_disposition_bucket`. -/
def dispositionBucket (item : WorkItem) : String :=
  match disposition item with
  | .pending => "pending"
  | .resumable _ => "resumable"
  | .pass => "pass"
  | .skip => "skip"
  | .blocked => "blocked"
  | .fail _ => "fail"

/-- `TerminalSummary`: the fields `_exit_code` reads. -/
structure TerminalSummary where
  total : Nat := 0
  dispositions : Dict String Nat := []

/-- `TerminalSummary.record`. -/
def TerminalSummary.record (summary : TerminalSummary) (item : WorkItem) : TerminalSummary where
  total := summary.total + 1
  dispositions := summary.dispositions.set (dispositionBucket item)
    ((summary.dispositions.get? (dispositionBucket item)).getD 0 + 1)

/-! ## Runs with seed passes -/

/-- The coordinator, how many items had been recorded when the current pass
began, and whether the event loop raised. -/
structure RunState where
  coordinator : Coordinator
  passStart : Nat := 0
  fatal : Bool := false

/-- `_all_idle`, of what the model has of it: the cursors of a direct scope
hold no items. A run that is neither interrupted nor fatal ends here. -/
def Coordinator.allIdle (s : Coordinator) : Bool :=
  pipelineOrder.all (fun st => (s.queues st).items.isEmpty) && s.timers.isEmpty &&
    s.inFlight.isEmpty && s.auxiliaryInFlight.isEmpty && s.leases.isEmpty &&
    s.pendingHandoffs.isEmpty && s.repoIssueSources.isEmpty

namespace RunState

variable (s : RunState)

/-- The items recorded in the run, and those of the current pass. -/
def recorded : List ItemId := s.coordinator.terminalSummary

def recordedThisPass : List ItemId := s.recorded.drop s.passStart

/-- `_terminal_summary`. -/
def terminalSummary : TerminalSummary :=
  s.recordedThisPass.foldl (fun summary i => summary.record (s.coordinator.workItem i)) {}

def keyOf (i : ItemId) : LogicalKey := logicalItemKey i (s.coordinator.workItem i)

/-- `_effective_items`: `latest_logical_items(self.items)`. -/
def effectiveItems : List ItemId := latestBy s.keyOf s.coordinator.items

/-- `_exit_code`. -/
def exitCode : Nat :=
  if s.coordinator.shutdown then 130
  else if s.fatal then 1
  else if s.terminalSummary.total ≠ 0 then
    let passing := (s.terminalSummary.dispositions.get? "pass").getD 0
    if passing < s.terminalSummary.total then 1 else 0
  else
    let effectiveResults := s.effectiveItems.filterMap fun i => (s.coordinator.workItem i).result
    let results := if effectiveResults ≠ [] then effectiveResults else s.coordinator.ledger
    if results.any fun result => !result.passed then 1 else 0

end RunState

/-- The item of `_record_repo_source_failure`, or of the failure to classify
an issue. -/
def failedSource (repo : String) (issue : Option Int) (reason : String) : WorkItem :=
  { repo
    kind := if issue.isSome then .issue else .repo
    issue
    stage := .finished
    result := some { passed := false, reason, finalStage := .repo } }

/-- `self.items.append(item); self._record_terminal_result(item)`. -/
def Coordinator.recordFailedSource (config : PipelineConfig) (s : Coordinator) (item : WorkItem) :
    Coordinator :=
  Coordinator.recordTerminalResult config
    { s.alloc item with items := s.items ++ [s.allocated] } s.allocated

/-- What happens in a run. -/
inductive RunEvent (ω : Type)
  | coordinator (e : CoordinatorEvent ω)
  /-- `_seed_pass`; what it pushes are events of the coordinator. -/
  | seedPass
  | sourceFailed (repo : String) (issue : Option Int) (reason : String)
  /-- The event loop raises. -/
  | raises

/-- One step of a run. -/
def RunState.step {ω : Type} (host : Host ω) (s : RunState) : RunEvent ω → Option RunState
  | .coordinator e => (s.coordinator.step host e).map fun t => { s with coordinator := t }
  | .seedPass => some { s with passStart := s.coordinator.terminalSummary.length }
  | .sourceFailed repo issue reason =>
      some { s with
        coordinator :=
          s.coordinator.recordFailedSource host.config (failedSource repo issue reason) }
  | .raises => some { s with fatal := true }

def RunState.initial {ω : Type} (host : Host ω) : RunState :=
  { coordinator := .initial host.config }

end Hephaestus.Pipeline
