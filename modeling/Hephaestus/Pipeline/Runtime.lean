import Hephaestus.Pipeline.Stages

/-!
# The coordinator: driving an item

`coordinator_runtime.py` and `coordinator_execution.py`: what happens to an
item while the coordinator has it in hand. `_run_item` calls the stage until
it asks for a job or gives an outcome; `_route` applies the outcome;
`_submit` sends a job to one of the two lanes, and `_handle_completion`
takes its result back. Every stage call, and everything in `_route` that
talks to the outside, may raise, and `_run_item` turns what it catches into
a failed result.

`World` is the outside during one entry point: the clocks, what each stage
call sees, and whether the journal, the worker pool and the set-up of a
direct scope raise.
-/

namespace Hephaestus.Pipeline

open Hephaestus.Lib Hephaestus.Automation

/-- The outside during one call of an entry point. -/
structure World (ω : Type) where
  answers : Nat → ω
  monotonic : ℚ := 0
  wallTime : ℚ := 0
  /-- `_persist_learning_intents`. -/
  persist : Except PyError Unit := .ok ()
  /-- `pool.submit`. -/
  submit : Except PyError Unit := .ok ()
  /-- The body of the `try` of `_route_direct_scope_bootstrap`. -/
  bootstrap : Except PyError Unit := .ok ()
  /-- `store_agent_session_result`. -/
  sessionError : Option String := none

/-- `a or b` of two strings. -/
def orElse (a b : String) : String := if a ≠ "" then a else b

/-- `_MAX_STEPS_PER_TICK`. -/
def maxStepsPerTick : Nat := 100

/-- `_SOURCE_REGISTRY_RETRY_DELAY_S`. -/
def sourceRegistryRetryDelay : ℚ := 1 / 20

variable {ω : Type} (host : Host ω)

/-- The two lines every exit from the pipeline ends with. -/
def letGo (i : ItemId) : Op Unit := do
  let _ ← releaseSourceLease i
  modify fun s => s.releaseWorkPermit i

/-- `_finish`. -/
def finish (i : ItemId) (passed : Bool) (reason : String) : Op Unit := do
  modify fun s =>
    if s.stageOf i = .repo ∧ (s.workItem i).payload.flag directScopeBootstrapKey then
      { s with directScopeBootstrapPending := false }
    else s
  let s ← get
  let result : ItemResult := { passed, reason, finalStage := s.stageOf i }
  if s.stageOf i = .finished then do
    -- Poisoned inside the sink: recorded directly, never queued again.
    editItem i fun item => { item with result := some result }
    modify fun s =>
      if (s.workItem i).payload.flag recordedKey then s
      else
        { s.setItem i ((s.workItem i).setPayload recordedKey (.bool true)) with
          ledger := s.ledger ++ [result]
          sinkLog := s.sinkLog ++ [.ledger i result] }
    modify fun s => s.recordTerminalResult host.config i
    letGo i
  else do
    let _ ← handoffItem host.config i .finished true (some result)

/-- The seconds in `retry_delay_s`, as an f-string prints them. -/
def PayloadValue.text : PayloadValue → String
  | .int n => toString n
  | .number q => toString q
  | .str text => text
  | _ => ""

/-- `float(delay)`. -/
def PayloadValue.seconds : PayloadValue → ℚ
  | .int n => n
  | .number q => q
  | _ => 0

/-- `_route_retry`. -/
def routeRetry (w : World ω) (i : ItemId) (outcome : StageOutcome) : Op Unit := do
  let s ← get
  let delay := (s.workItem i).payload.get? retryDelayKey
  editItem i fun item => item.popPayload retryDelayKey
  match delay with
  | none => do
      if ← restoreSourceLease i then pure ()
      else throw (runtimeError "retry requires an owned source lease")
  | some value =>
      if host.config.dryRun then
        finish host i false
          ("[dry-run] would wait " ++ value.text ++ "s: " ++ outcome.note)
      else timerPark w.monotonic i value.seconds

/-- `int(payload.get("_fail_backs", 0))`. -/
def WorkItem.failBacks (item : WorkItem) : Int :=
  match item.payload.get? failBacksKey with
  | some (.int n) => n
  | _ => 0

/-- `_route_fail_back`. -/
def routeFailBack (i : ItemId) (outcome : StageOutcome) (route : Route) : Op Unit := do
  if host.config.dryRun then
    finish host i false ("[dry-run] would fail_back: " ++ outcome.note)
  else do
    let s ← get
    let failBacks := (s.workItem i).failBacks + 1
    editItem i fun item => item.setPayload failBacksKey (.int failBacks)
    if (failBackCap : Int) < failBacks then
      finish host i false ("fail_back safety cap (" ++ toString failBackCap ++
        ") exceeded: " ++ outcome.note)
    else
      match route.failTarget outcome.note with
      | .finished => finish host i false (orElse outcome.note "fail_back")
      | target => do
          let _ ← handoffItem host.config i target true none

/-- Whether the checkout reported the default branch's commit. -/
def WorkItem.directScopePinned (item : WorkItem) : Bool :=
  match item.payload.get? directScopeBaseShaKey with
  | some (.str sha) => isFullCommitSha sha
  | _ => false

/-- `_route_direct_scope_bootstrap`: the setup item of a direct scope. -/
def routeDirectScopeBootstrap (w : World ω) (i : ItemId) (outcome : StageOutcome) :
    Op Unit := do
  if outcome.disposition = .retry then routeRetry host w i outcome
  else if outcome.disposition ≠ .finishPass then do
    modify fun s => { s with directScopeBootstrapPending := false }
    finish host i false (orElse outcome.note "direct scope checkout preparation failed")
  else do
    let s ← get
    if !(s.workItem i).directScopePinned ∧ !host.config.dryRun then do
      modify fun s => { s with directScopeBootstrapPending := false }
      finish host i false "direct scope checkout returned an invalid default-branch SHA"
    else
      match w.bootstrap with
      | .error e => do
          modify fun s => { s with directScopeBootstrapPending := false }
          finish host i false ("direct scope initialization failed: " ++ e.message)
      | .ok () => do
          -- Coordinator plumbing, not a result: the item just disappears.
          letGo i
          modify fun s =>
            { s with
              directScopeBootstrapPending := false
              seenItemIds := s.seenItemIds.erase i
              items := s.items.erase i }

/-- The classes `_route` catches around the post-merge journal write. -/
def PyError.persistFailure (e : PyError) : Bool :=
  match e.kind with
  | .osError => true
  | .runtimeError => true
  | .typeError => true
  | .valueError => true
  | _ => false

/-- `str(exc)[:1000]`. -/
def clip1000 (text : String) : String := String.ofList (text.toList.take 1000)

/-- The `FINISH_PASS` row for `MERGE_WAIT` with learning intents: the
payload is compacted, the intents are written, and the item takes the
detour through `LEARNING`. -/
def routeMerged (w : World ω) (i : ItemId) (outcome : StageOutcome) : Op Unit := do
  let primaryReason := orElse outcome.note "merged"
  let terminalResult : ItemResult :=
    { passed := true, reason := primaryReason, finalStage := .mergeWait }
  editItem i fun item =>
    (item.setPayload learningPrimaryReasonKey (.str primaryReason)).compactForPostProcessing
      host.sha256 terminalResult
  match w.persist with
  | .ok () => do
      let _ ← handoffItem host.config i .learning true (some terminalResult)
  | .error e =>
      if e.persistFailure then do
        editItem i fun item =>
          { item with
            payload := item.payload.addFailure "post_merge" (clip1000 e.message)
            learningIntents := [] }
        let _ ← handoffItem host.config i .finished true (some terminalResult)
      else throw e

/-- The `ADVANCE` row. -/
def routeAdvance (w : World ω) (i : ItemId) (outcome : StageOutcome) (route : Route) :
    Op Unit := do
  let s ← get
  let detour := s.stageOf i = .planReview ∧ (s.workItem i).learningIntents ≠ []
  if detour then do
    editItem i fun item => { item with learningResumeStage := some route.next }
    Command.attempt w.persist
    let _ ← handoffItem host.config i .learning true none
  else if route.next = .finished then do
    let reason := match (s.workItem i).payload.get? learningPrimaryReasonKey with
      | some (.str text) => text
      | _ => ""
    editItem i fun item => item.popPayload learningPrimaryReasonKey
    match (s.workItem i).postProcessing with
    | some record => do
        let _ ← handoffItem host.config i .finished true (some record.result)
    | none => finish host i true (orElse reason (orElse outcome.note "advance"))
  else do
    let _ ← handoffItem host.config i route.next true none

/-- Leaving through a recorded result: `EJECT`, and every outcome of the
sink. -/
def retire (i : ItemId) : Op Unit := do
  modify fun s => s.recordTerminalResult host.config i
  letGo i

/-- The rows of `_route` for an item whose stage has a route and is not the
sink. -/
def routeRow (w : World ω) (i : ItemId) (outcome : StageOutcome) (route : Route) : Op Unit :=
  match outcome.disposition with
  | .advance => routeAdvance host w i outcome route
  | .retry => routeRetry host w i outcome
  | .failBack => routeFailBack host i outcome route
  | .skip => finish host i false ("skip: " ++ outcome.note)
  | .eject => do
      editItem i fun item =>
        { item with
          result := some
            { passed := true
              reason := "ejected: " ++ outcome.note
              finalStage := item.stage } }
      retire host i
  | .blocked => finish host i false ("blocked: " ++ outcome.note)
  | .finishPass => do
      let s ← get
      if s.stageOf i = .mergeWait ∧ (s.workItem i).learningIntents ≠ [] then
        routeMerged host w i outcome
      else finish host i true (orElse outcome.note "pass")
  | .finishFail => finish host i false (orElse outcome.note "fail")

/-- `_route`. -/
def route (w : World ω) (i : ItemId) (outcome : StageOutcome) : Op Unit := do
  let s ← get
  set (s.logRoute i outcome)
  if s.stageOf i = .repo ∧ (s.workItem i).payload.flag directScopeBootstrapKey then
    routeDirectScopeBootstrap host w i outcome
  else
    match runRoutes host.config.scope (s.stageOf i) with
    | none =>
        finish host i false (orElse outcome.note ("unroutable:" ++ (s.stageOf i).value))
    | some r =>
        if s.stageOf i = .finished then retire host i
        else routeRow host w i outcome r

/-! ## Jobs -/

/-- `_submit_ready_job`: the job goes to the lane of the item's stage. -/
def submitReadyJob (w : World ω) (i : ItemId) (request : JobRequest) : Op Unit := do
  if host.config.dryRun then throw ⟨.assertionError, "dry-run must never submit jobs"⟩
  else do
    Command.attempt w.submit
    modify fun s =>
      let handle : JobHandle := ⟨s.nextSerial, request.job, request.onDoneState⟩
      if (s.stageOf i).isAuxiliary then
        { s with
          nextSerial := s.nextSerial + 1
          auxiliaryInFlight := s.auxiliaryInFlight.set handle i }
      else
        let repo := (s.workItem i).repo
        { s with
          nextSerial := s.nextSerial + 1
          inFlight := s.inFlight.set handle i
          inflightPerRepo :=
            s.inflightPerRepo.set repo ((s.inflightPerRepo.get? repo).getD 0 + 1) }

/-- `_submit`: an agent job waits for a quota read first. -/
def submit (w : World ω) (i : ItemId) (request : JobRequest) : Op Unit := do
  if request.job.kind = .agent ∧ host.config.rateGuardEnabled then do
    editItem i fun item => item.setPayload pendingAgentRequestKey (.request request)
    submitReadyJob host w i ⟨⟨.readRateBudget, "read_rate_budget"⟩, "RATE_BUDGET"⟩
  else submitReadyJob host w i request

/-- `_complete_rate_budget`. -/
def completeRateBudget (w : World ω) (i : ItemId) (result : JobResult) : Op Unit := do
  let s ← get
  let request := (s.workItem i).payload.get? pendingAgentRequestKey
  editItem i fun item => item.popPayload pendingAgentRequestKey
  if result.interrupted ∨ s.shutdown then parkResumable host.config i
  else
    match request, result.ok, result.rateBudget with
    | some (.request r), true, some facts =>
        if r.job.kind ≠ .agent then
          finish host i false "quota read returned an invalid result"
        else
          match facts.remaining with
          | none => submitReadyJob host w i r
          | some remaining =>
              if remaining < host.config.rateGuardThreshold then
                match facts.resetEpoch with
                | none => throw ⟨.assertionError, ""⟩
                | some reset => timerPark w.monotonic i (max 0 (reset - w.wallTime + 5))
              else submitReadyJob host w i r
    | _, _, _ => finish host i false "quota read returned an invalid result"

/-! ## Driving -/

/-- The registry fallback of `_run_item`: the cursor is enrolled, or a timer
takes the item until a slot is free. -/
def leaveRepoStage (w : World ω) (i : ItemId) : Op Unit := do
  if ← externalizeRepoIssueSource host.config i then pure ()
  else timerPark w.monotonic i sourceRegistryRetryDelay

/-- Whether an item has finished setting up its issue source. -/
def WorkItem.sourceReady (item : WorkItem) : Bool :=
  decide (item.kind = .repo) && decide (item.state = "SOURCE") &&
    match item.payload.get? repoIssueSourceKey with
    | some (.source _) => true
    | _ => false

/-- The step loop of `_run_item`. -/
def stepLoop (stage : StageName) (w : World ω) (i : ItemId) : Nat → Nat → Op Unit
  | 0, _ => throw (runtimeError ("stage " ++ stage.value ++ " exceeded " ++
      toString maxStepsPerTick ++ " steps in one tick"))
  | fuel + 1, k => do
      match ← host.step stage (w.answers k) i with
      | .goOn next => do
          editItem i fun item => { item with state := next }
          let s ← get
          if (s.workItem i).sourceReady then leaveRepoStage host w i
          else stepLoop stage w i fuel (k + 1)
      | .job request =>
          if host.config.dryRun then
            route host w i
              ⟨.advance, "[dry-run] would " ++ orElse request.job.descr request.job.kind.typeName⟩
          else submit host w i request
      | .outcome o => route host w i o

/-- The body of the `try` of `_run_item`. -/
def runItemBody (stage : StageName) (w : World ω) (i : ItemId) : Op Unit := do
  let s ← get
  let enterPending := (s.workItem i).payload.flag enterPendingKey
  editItem i fun item => item.popPayload enterPendingKey
  if enterPending then
    match ← host.onEnter stage (w.answers 0) i with
    | some o => route host w i o
    | none => stepLoop host stage w i maxStepsPerTick 1
  else stepLoop host stage w i maxStepsPerTick 1

/-- `_run_item`. -/
def runItem (w : World ω) (i : ItemId) : Op Unit := do
  let s ← get
  tryCatch (runItemBody host (s.stageOf i) w i)
    fun e => finish host i false ("poisoned: " ++ e.message)

/-- `on_job_done`, with what `_handle_completion` does when it raises. `true`
means that it returned. -/
def jobDone (w : World ω) (i : ItemId) (result : JobResult) : Op Bool := do
  let s ← get
  tryCatch
    (do callMethod (host.jobDone (s.stageOf i) result) (w.answers 0) i
        pure true)
    fun _ => do
      if s.stageOf i = .learning then do
        editItem i fun item =>
          { item with payload := item.payload.addFailure "journal" "journal_completion_failed" }
        parkResumable host.config i
      else finish host i false "poisoned: on_job_done raised"
      pure false

/-- The end of `_handle_completion`, for a job that is not a quota read. -/
def completeJob (w : World ω) (i : ItemId) (handle : JobHandle) (result : JobResult) :
    Op Unit := do
  let s ← get
  if result.interrupted then do
    if s.stageOf i = .learning ∧ result.error = some "interrupted_before_start" then
      callMethod (host.stages .learning).onCancelledBeforeStart (w.answers 0) i
    else pure ()
    parkResumable host.config i
  else
    match (if handle.job.kind = .agent then w.sessionError else none) with
    | some sessionError => finish host i false sessionError
    | none => do
        if ← jobDone host w i result then do
          editItem i fun item => { item with state := handle.onDoneState }
          if s.shutdown then parkResumable host.config i
          else runItem host { w with answers := fun k => w.answers (k + 1) } i
        else pure ()

/-- Take a completed job out of its registry. -/
def Coordinator.popFlight (s : Coordinator) (handle : JobHandle) (auxiliary : Bool)
    (repo : String) : Coordinator :=
  if auxiliary then { s with auxiliaryInFlight := s.auxiliaryInFlight.erase handle }
  else
    let count := (s.inflightPerRepo.get? repo).getD 0 - 1
    { s with
      inFlight := s.inFlight.erase handle
      inflightPerRepo := if count = 0 then s.inflightPerRepo.erase repo
        else s.inflightPerRepo.set repo count }

/-- `_handle_completion`. -/
def handleCompletion (w : World ω) (handle : JobHandle) (result : JobResult)
    (auxiliary : Bool) : Op Unit := do
  let s ← get
  match (if auxiliary then s.auxiliaryInFlight else s.inFlight).get? handle with
  | none => pure ()
  | some i => do
      set (s.popFlight handle auxiliary (s.workItem i).repo)
      if handle.job.kind = .readRateBudget then completeRateBudget host w i result
      else completeJob host w i handle result

/-! ## Draining -/

/-- `_admit`. -/
def Coordinator.admits (s : Coordinator) (config : PipelineConfig) (i : ItemId) : Bool :=
  if (s.stageOf i).isAuxiliary then
    decide (s.auxiliaryInFlight.length < config.learningWorkers)
  else
    decide (s.inFlight.length < config.workWindow) &&
      decide ((((s.inflightPerRepo.get? (s.workItem i).repo).getD 0 : Nat) : Int) <
        max 1 config.maxWorkers)

/-- One turn of the loop of `_drain_queues`: claim, ask for admission, put
back or run. -/
def drainOne (w : World ω) (stage : StageName) (index : Nat) : Op Unit := do
  match ← claimItem stage index with
  | none => pure ()
  | some i => do
      let s ← get
      if s.admits host.config i then runItem host w i
      else do
        let _ ← restoreSourceLease i

/-- A turn of a drain pass: the outside during it, and whether a shutdown
signal came in before it. -/
structure Turn (ω : Type) where
  w : World ω
  signal : Bool := false

/-- The loop of `_drain_queues` over the queue of one stage, with a turn for
each slot that was ready at its start: the items `_admit` was asked about. -/
def drainStage (stage : StageName) : List (Turn ω) → Op (List ItemId)
  | [] => pure []
  | turn :: turns => do
      modify fun s => { s with shutdown := s.shutdown || turn.signal }
      let s ← get
      if s.shutdown then pure []
      else
        match (s.queues stage).snapshot with
        | [] => pure []
        | i :: _ => do
            drainOne host turn.w stage 0
            let rest ← drainStage stage turns
            pure (i :: rest)

/-- `_claim_selected_implementation_item`. -/
def claimSelectedImplementationItem (i : ItemId) : Op Bool := do
  let s ← get
  let snapshot := (s.queues .implementation).snapshot
  if snapshot.contains i then do
    let claimed ← claimItem .implementation (snapshot.idxOf i)
    if claimed ≠ some i then
      throw (runtimeError "implementation queue selected a different item")
    else pure true
  else pure false

/-- One turn of the dispatch loop of `_drain_implementation`. -/
def dispatchOne (w : World ω) (i : ItemId) : Op Unit := do
  let s ← get
  if s.shutdown ∨ !s.admits host.config i then pure ()
  else do
    if ← claimSelectedImplementationItem i then do
      editItem i fun item =>
        (item.popPayload fileOverlapDeferralsKey).popPayload fileOverlapBlockedClaimsKey
      runItem host w i
    else pure ()

/-- A queued implementation item that is dropped before it runs: a
duplicate, or one whose plan cannot be read. -/
def finishSelected (i : ItemId) (passed : Bool) (reason : String) : Op Unit := do
  if ← claimSelectedImplementationItem i then finish host i passed reason else pure ()

/-- `_defer_implementation_plan_read`. -/
def deferImplementationPlanRead (w : World ω) (i : ItemId) (message : String) : Op Unit := do
  let s ← get
  if s.shutdown then parkResumable host.config i
  else do
    let attempt := ((s.workItem i).attempts.get? "plan_admission").getD 0 + 1
    editItem i fun item => { item with attempts := item.attempts.set "plan_admission" attempt }
    if host.config.implementBudget ≤ attempt then
      finish host i false ("plan admission read exhausted after " ++ toString attempt ++
        " attempts: " ++ message)
    else do
      editItem i fun item =>
        item.setPayload retryDelayKey (.number ((2 : ℚ) ^ (attempt - 1)))
      routeRetry host w i ⟨.retry, "plan admission read failed"⟩

/-- A queued implementation item whose plan could not be read this time. -/
def deferSelected (w : World ω) (i : ItemId) (message : String) : Op Unit := do
  if ← claimSelectedImplementationItem i then deferImplementationPlanRead host w i message
  else pure ()

end Hephaestus.Pipeline
