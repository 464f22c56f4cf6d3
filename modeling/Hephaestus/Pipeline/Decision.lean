import Hephaestus.Pipeline.Runtime

/-!
# What `_route` decides

`_route` writes into the item's record and then does one thing with the
item: hands it on, puts it back in its queue, parks it on the timer heap or
lets it go. Which, depends on the record and the outcome alone, and on
whether the journal or the set-up of a direct scope raises. `decide` is that
choice as a function, row by row; where the item ends up, and when, is then
a matter of capacities.
-/

namespace Hephaestus.Pipeline

open Hephaestus.Lib Hephaestus.Automation

/-- The one thing `_route` does with the item. -/
inductive Fate
  /-- `_handoff_item(item, target, enter=True, result=result)`. -/
  | handoff (target : StageName) (result : Option ItemResult)
  /-- The lease is restored. -/
  | restore
  /-- `_timer_park`. -/
  | park (seconds : ℚ)
  /-- The item leaves the pipeline. -/
  | leave
  | raise (e : PyError)
  deriving DecidableEq

/-- The record `_route` leaves, and what becomes of the item. -/
structure Decision where
  item : WorkItem
  fate : Fate
  deriving DecidableEq

variable {ω : Type} (host : Host ω)

/-- `_finish`, outside the sink. -/
def decideFinish (item : WorkItem) (passed : Bool) (reason : String) : Decision :=
  ⟨item, .handoff .finished (some ⟨passed, reason, item.stage⟩)⟩

/-- The `RETRY` row. -/
def decideRetry (item : WorkItem) (outcome : StageOutcome) : Decision :=
  let popped := item.popPayload retryDelayKey
  match item.payload.get? retryDelayKey with
  | none => ⟨popped, .restore⟩
  | some value =>
      if host.config.dryRun then
        decideFinish popped false ("[dry-run] would wait " ++ value.text ++ "s: " ++ outcome.note)
      else ⟨popped, .park value.seconds⟩

/-- The `FAIL_BACK` row. -/
def decideFailBack (item : WorkItem) (outcome : StageOutcome) (route : Route) : Decision :=
  if host.config.dryRun then
    decideFinish item false ("[dry-run] would fail_back: " ++ outcome.note)
  else
    let failBacks := item.failBacks + 1
    let counted := item.setPayload failBacksKey (.int failBacks)
    if (failBackCap : Int) < failBacks then
      decideFinish counted false ("fail_back safety cap (" ++ toString failBackCap ++
        ") exceeded: " ++ outcome.note)
    else
      match route.failTarget outcome.note with
      | .finished => decideFinish counted false (orElse outcome.note "fail_back")
      | target => ⟨counted, .handoff target none⟩

/-- The item that sets up a direct scope. -/
def decideBootstrap (w : World ω) (item : WorkItem) (outcome : StageOutcome) : Decision :=
  if outcome.disposition = .retry then decideRetry host item outcome
  else if outcome.disposition ≠ .finishPass then
    decideFinish item false (orElse outcome.note "direct scope checkout preparation failed")
  else if !item.directScopePinned ∧ !host.config.dryRun then
    decideFinish item false "direct scope checkout returned an invalid default-branch SHA"
  else
    match w.bootstrap with
    | .error e => decideFinish item false ("direct scope initialization failed: " ++ e.message)
    | .ok () => ⟨item, .leave⟩

/-- The `FINISH_PASS` row for `MERGE_WAIT` with learning intents. -/
def decideMerged (w : World ω) (item : WorkItem) (outcome : StageOutcome) : Decision :=
  let reason := orElse outcome.note "merged"
  let result : ItemResult := { passed := true, reason, finalStage := .mergeWait }
  let compacted := (item.setPayload learningPrimaryReasonKey (.str reason)).compactForPostProcessing
    host.sha256 result
  match w.persist with
  | .ok () => ⟨compacted, .handoff .learning (some result)⟩
  | .error e =>
      if e.persistFailure then
        ⟨{ compacted with
            payload := compacted.payload.addFailure "post_merge" (clip1000 e.message)
            learningIntents := [] }, .handoff .finished (some result)⟩
      else ⟨compacted, .raise e⟩

/-- The `ADVANCE` row. -/
def decideAdvance (w : World ω) (item : WorkItem) (outcome : StageOutcome) (route : Route) :
    Decision :=
  if item.stage = .planReview ∧ item.learningIntents ≠ [] then
    let diverted := { item with learningResumeStage := some route.next }
    match w.persist with
    | .ok () => ⟨diverted, .handoff .learning none⟩
    | .error e => ⟨diverted, .raise e⟩
  else if route.next = .finished then
    let reason := match item.payload.get? learningPrimaryReasonKey with
      | some (.str text) => text
      | _ => ""
    let popped := item.popPayload learningPrimaryReasonKey
    match item.postProcessing with
    | some record => ⟨popped, .handoff .finished (some record.result)⟩
    | none => decideFinish popped true (orElse reason (orElse outcome.note "advance"))
  else ⟨item, .handoff route.next none⟩

/-- The rows of `_route`. -/
def decideRow (w : World ω) (item : WorkItem) (outcome : StageOutcome) (route : Route) :
    Decision :=
  match outcome.disposition with
  | .advance => decideAdvance w item outcome route
  | .retry => decideRetry host item outcome
  | .failBack => decideFailBack host item outcome route
  | .skip => decideFinish item false ("skip: " ++ outcome.note)
  | .eject =>
      ⟨{ item with
          result := some
            { passed := true, reason := "ejected: " ++ outcome.note, finalStage := item.stage } },
        .leave⟩
  | .blocked => decideFinish item false ("blocked: " ++ outcome.note)
  | .finishPass =>
      if item.stage = .mergeWait ∧ item.learningIntents ≠ [] then decideMerged host w item outcome
      else decideFinish item true (orElse outcome.note "pass")
  | .finishFail => decideFinish item false (orElse outcome.note "fail")

/-- The choice `_route` makes for an item outside the sink. -/
def decideRoute (w : World ω) (item : WorkItem) (outcome : StageOutcome) : Decision :=
  if item.stage = .repo ∧ item.payload.flag directScopeBootstrapKey then
    decideBootstrap host w item outcome
  else
    match runRoutes host.config.scope item.stage with
    | none => decideFinish item false (orElse outcome.note ("unroutable:" ++ item.stage.value))
    | some route => decideRow host w item outcome route

/-! ## What a stage decides

`_run_item` calls the stage until it asks for a job or gives an outcome.
`drive` is what that comes to, for an item outside the sink: the record the
stage leaves, and how it ended. -/

/-- How a stage ended its turn with an item. -/
inductive Ending
  | outcome (o : StageOutcome)
  | job (request : JobRequest)
  /-- The item has finished setting up its issue source. -/
  | sourceReady
  | raised (e : PyError)

structure Drive where
  item : WorkItem
  ending : Ending

/-- The end of a turn that asks for a job: a dry run goes on without. -/
def Ending.ofJob (request : JobRequest) : Ending :=
  if host.config.dryRun then
    .outcome
      ⟨.advance, "[dry-run] would " ++ orElse request.job.descr request.job.kind.typeName⟩
  else .job request

/-- The step loop. -/
def driveLoop (stage : StageName) (w : World ω) : Nat → Nat → WorkItem → Drive
  | 0, _, item => ⟨item, .raised (runtimeError ("stage " ++ stage.value ++ " exceeded " ++
      toString maxStepsPerTick ++ " steps in one tick"))⟩
  | fuel + 1, k, item =>
      let c := (host.stages stage).step.call (w.answers k) item
      match c.reply with
      | .error e => ⟨c.item, .raised e⟩
      | .ok (.goOn next) =>
          let item := { c.item with state := next }
          if item.sourceReady then ⟨item, .sourceReady⟩
          else driveLoop stage w fuel (k + 1) item
      | .ok (.job request) => ⟨c.item, .ofJob host request⟩
      | .ok (.outcome o) => ⟨c.item, .outcome o⟩

/-- `on_enter` if it is due, and the step loop. -/
def drive (w : World ω) (item : WorkItem) : Drive :=
  let entered := item.popPayload enterPendingKey
  if item.payload.flag enterPendingKey then
    let c := (host.stages item.stage).onEnter.call (w.answers 0) entered
    match c.reply with
    | .error e => ⟨c.item, .raised e⟩
    | .ok (some o) => ⟨c.item, .outcome o⟩
    | .ok none => driveLoop host item.stage w maxStepsPerTick 1 c.item
  else driveLoop host item.stage w maxStepsPerTick 1 entered

/-- The decision leaves the item in the queue it came from. -/
def Decision.comesBack (d : Decision) : Bool :=
  match d.fate with
  | .restore => true
  | .handoff target _ => decide (target = d.item.stage)
  | _ => false

/-- Driving the item leaves it in the queue it came from: its stage said
`RETRY` without a delay, or failed back to itself. The sink keeps nothing. -/
def comesBack (w : World ω) (item : WorkItem) : Bool :=
  match (drive host w item).ending with
  | .outcome o =>
      decide (item.stage ≠ .finished) &&
        (decideRoute host w (drive host w item).item o).comesBack
  | _ => false

end Hephaestus.Pipeline
