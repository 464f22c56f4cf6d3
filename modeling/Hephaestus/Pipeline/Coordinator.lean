import Mathlib.Algebra.Order.Ring.Rat
import Hephaestus.Pipeline.Queues
import Hephaestus.Pipeline.WorkItem

/-!
# The coordinator: who holds an item

The single-threaded coordinator of `hephaestus/automation/pipeline`, from
the queues up to the handoff: `coordinator.py` and `coordinator_types.py`
for the state, `coordinator_execution.py` for permits,
`coordinator_runtime.py` and `coordinator_handoffs.py` for leases, timers
and handoffs, `coordinator_sources.py` for the one way in.

Work items are shared mutable objects, so an item is a number here and the
record it stands for is in `workItem`; `id(item)` is that number. The code
raises in the middle of things and carries on, so everything that can raise
is a `Command` over the coordinator, and what cannot is a function of it.

A set of item ids is a `Finset`, and the timer heap is a list in heap
order, the entry due first at its head.

Left out: the event log, metrics, the progress flag, the writer-worktree
registry and the lists of preserved worktrees, none of which decides where
an item goes; and the cursors of the sources, which hold no items.
-/

namespace Hephaestus.Pipeline

open Hephaestus.Lib Hephaestus.Automation

/-! ## Configuration -/

/-- `PipelineConfig`: the fields the coordinator's logic reads, with the
checks of its constructor. -/
structure PipelineConfig where
  org : String := ""
  parallelRepos : Int := 1
  maxWorkers : Int := 1
  learningWorkers : Nat := 1
  learningQueueCapacity : Nat := 1
  terminalDetailCapacity : Nat := 128
  dryRun : Bool := false
  rateGuardEnabled : Bool := true
  rateGuardThreshold : Int := 200
  serializeFileOverlap : Bool := true
  enableLearn : Bool := true
  scope : Option PipelineScope := none
  /-- `ctx.budget("implement")`, with the configured overrides. -/
  implementBudget : Nat := 2
  learningWorkers_pos : 0 < learningWorkers := by decide
  learningQueueCapacity_pos : 0 < learningQueueCapacity := by decide
  terminalDetailCapacity_pos : 0 < terminalDetailCapacity := by decide

/-- `PipelineConfig()`. -/
def defaultConfig : PipelineConfig :=
  { learningWorkers_pos := Nat.one_pos
    learningQueueCapacity_pos := Nat.one_pos }

/-- `_work_window`. -/
def PipelineConfig.workWindow (config : PipelineConfig) : Nat :=
  (max 1 (config.parallelRepos * config.maxWorkers)).toNat

theorem PipelineConfig.workWindow_pos (config : PipelineConfig) : 0 < config.workWindow := by
  unfold workWindow
  omega

/-! ## State -/

/-- `_PendingHandoff`. -/
structure PendingHandoff where
  item : ItemId
  target : StageName
  enter : Bool
  result : Option ItemResult := none
  deriving DecidableEq, Repr

/-- An entry of the timer heap. -/
structure TimerEntry where
  wake : ℚ
  seq : Nat
  item : ItemId
  deriving DecidableEq

/-- Heap order. -/
def TimerEntry.before (a b : TimerEntry) : Bool :=
  decide (a.wake < b.wake ∨ (a.wake = b.wake ∧ a.seq < b.seq))

/-- `heapq.heappush`. -/
def heappush (timers : List TimerEntry) (e : TimerEntry) : List TimerEntry :=
  timers.takeWhile (·.before e) ++ e :: timers.dropWhile (·.before e)

/-- What leaves the pipeline through the sink, in the order it leaves. -/
inductive SinkEffect
  /-- A call of `record_terminal_outcome`; `stored` says whether it
  returned. -/
  | waveOutcome (lease : Checked WaveLease.postInit) (issue : Int) (passed : Bool)
      (reason : String) (pr : Option Int) (nonCode stored : Bool)
  /-- `ledger.append`. -/
  | ledger (item : ItemId) (result : ItemResult)
  deriving DecidableEq

/-- One call of `_route`: the item, where it was, what its stage answered,
and whether it carried learning intents. -/
structure RouteEntry where
  item : ItemId
  stage : StageName
  disposition : Disposition
  learning : Bool
  deriving DecidableEq, Repr

/-- The coordinator. `allocated` is the next unused item number; `routed` is
the history of `_route`, which nothing here reads. -/
structure Coordinator where
  allocated : ItemId := 0
  workItem : ItemId → WorkItem
  queues : StageName → StageQueue
  timers : List TimerEntry := []
  seq : Nat := 0
  inFlight : Dict JobHandle ItemId := []
  auxiliaryInFlight : Dict JobHandle ItemId := []
  inflightPerRepo : Dict String Nat := []
  nextSerial : Nat := 0
  leases : Dict ItemId (StageQueueLease StageName) := []
  pendingHandoffs : Dict ItemId PendingHandoff := []
  liveWorkPermitIds : Finset ItemId := ∅
  learningWorkPermitIds : Finset ItemId := ∅
  seenItemIds : Finset ItemId := ∅
  items : List ItemId := []
  /-- The items `_terminal_summary` has counted. -/
  terminalSummary : List ItemId := []
  ledger : List ItemResult := []
  sinkLog : List SinkEffect := []
  routed : List RouteEntry := []
  repoIssueSources : List String := []
  directScopeBootstrapPending : Bool := false
  /-- `shutdown.is_set() or _pool_shut_down`. -/
  shutdown : Bool := false

/-- An empty queue of the constructor: `learning_queue_capacity` for
`LEARNING`, the work window for every other stage. -/
def PipelineConfig.emptyQueue (config : PipelineConfig) : StageName → StageQueue
  | .learning => { capacity := config.learningQueueCapacity
                   capacity_pos := config.learningQueueCapacity_pos }
  | _ => { capacity := config.workWindow, capacity_pos := config.workWindow_pos }

/-- `Coordinator.__init__`. -/
def Coordinator.initial (config : PipelineConfig) : Coordinator :=
  { workItem := fun _ => { repo := "", kind := .repo }
    queues := config.emptyQueue }

/-- A command over the coordinator. -/
abbrev Op (α : Type) := Command Coordinator PyError α

namespace Coordinator

/-- Write one item's record. -/
def setItem (s : Coordinator) (i : ItemId) (item : WorkItem) : Coordinator :=
  { s with workItem := Function.update s.workItem i item }

/-- `item.stage`. -/
def stageOf (s : Coordinator) (i : ItemId) : StageName := (s.workItem i).stage

/-- Note a call of `_route`. -/
def logRoute (s : Coordinator) (i : ItemId) (outcome : StageOutcome) : Coordinator :=
  { s with
    routed := s.routed ++
      [⟨i, s.stageOf i, outcome.disposition, !(s.workItem i).learningIntents.isEmpty⟩] }

end Coordinator

/-- Change one item's record. -/
def editItem (i : ItemId) (f : WorkItem → WorkItem) : Op Unit :=
  modify fun s => s.setItem i (f (s.workItem i))

@[simp] theorem wp_editItem {s : Coordinator} {i : ItemId} {f : WorkItem → WorkItem}
    {Q : Unit → Coordinator → Prop} {E : PyError → Coordinator → Prop} :
    (editItem i f).wp Q E s ↔ Q () (s.setItem i (f (s.workItem i))) := Iff.rfl

@[simp] theorem setItem_workItem_self {s : Coordinator} {i : ItemId} (item : WorkItem) :
    (s.setItem i item).workItem i = item :=
  Function.update_self _ _ _

theorem setItem_workItem_ne {s : Coordinator} {i j : ItemId} (item : WorkItem) (h : j ≠ i) :
    (s.setItem i item).workItem j = s.workItem j :=
  Function.update_of_ne h _ _

@[simp] theorem setItem_setItem {s : Coordinator} {i : ItemId} (item item' : WorkItem) :
    (s.setItem i item).setItem i item' = s.setItem i item' := by
  simp [Coordinator.setItem]

@[simp] theorem setItem_workItem {s : Coordinator} {i : ItemId} :
    s.setItem i (s.workItem i) = s := by
  simp [Coordinator.setItem]

/-- A lease method, run on the coordinator's queues. -/
def onQueues {α : Type} (c : QueueCommand StageName α) : Op α := do
  let s ← get
  let r := c.exec s.queues
  set { s with queues := r.2 }
  Command.attempt r.1

/-- `d[key]` of a dictionary that should have the key. -/
def lookup {κ ν : Type} [DecidableEq κ] (d : Dict κ ν) (k : κ) : Op ν :=
  match d.get? k with
  | some v => pure v
  | none => throw ⟨.keyError, ""⟩

/-! ## Permits -/

namespace Coordinator

variable (config : PipelineConfig)

/-- `live_work_count`. -/
def liveWorkCount (s : Coordinator) : Nat := s.liveWorkPermitIds.card

/-- `learning_work_count`. -/
def learningWorkCount (s : Coordinator) : Nat := s.learningWorkPermitIds.card

/-- `_try_acquire_work_permit`. -/
def tryAcquireWorkPermit (s : Coordinator) (i : ItemId) (target : StageName) :
    Bool × Coordinator :=
  if target.isAuxiliary then
    if i ∈ s.learningWorkPermitIds then (true, s)
    else if config.learningQueueCapacity ≤ s.learningWorkCount then (false, s)
    else (true, { s with learningWorkPermitIds := insert i s.learningWorkPermitIds })
  else if i ∈ s.liveWorkPermitIds then (true, s)
  else if config.workWindow ≤ s.liveWorkCount then (false, s)
  else (true, { s with liveWorkPermitIds := insert i s.liveWorkPermitIds })

/-- `_release_work_permit`. -/
def releaseWorkPermit (s : Coordinator) (i : ItemId) : Coordinator :=
  { s with
    liveWorkPermitIds := s.liveWorkPermitIds.erase i
    learningWorkPermitIds := s.learningWorkPermitIds.erase i }

/-- `_lane_handoff_capacity`. The sink never refuses. -/
def laneHandoffCapacity (s : Coordinator) (i : ItemId) (target : StageName) : Bool :=
  if target = .finished then true
  else
    match (s.stageOf i).isAuxiliary, target.isAuxiliary with
    | false, true => decide (s.learningWorkCount < config.learningQueueCapacity)
    | true, false => decide (s.liveWorkCount < config.workWindow)
    | _, _ => true

end Coordinator

/-! ## Terminal results -/

/-- `summary_recorded` of an item. -/
def WorkItem.summaryRecorded (item : WorkItem) : Bool := item.payload.flag summaryRecordedKey

/-- `l[-n:]`. -/
def lastN {α : Type} (n : Nat) (l : List α) : List α := l.drop (l.length - n)

namespace Coordinator

/-- The retention part of `_record_terminal_result`: a tracked item moves to
the end, and of the older recorded ones only the newest stay. -/
def retain (config : PipelineConfig) (s : Coordinator) (i : ItemId) : List ItemId :=
  let tracked := s.items.contains i
  let keepOlder := config.terminalDetailCapacity - (if tracked then 1 else 0)
  let others := s.items.erase i
  let recorded := others.filter fun j => (s.workItem j).summaryRecorded
  let dropped := recorded.take (recorded.length - keepOlder)
  others.filter (fun j => !dropped.contains j) ++ (if tracked then [i] else [])

/-- `_record_terminal_result`. -/
def recordTerminalResult (config : PipelineConfig) (s : Coordinator) (i : ItemId) :
    Coordinator :=
  let item := s.workItem i
  if item.result.isNone || item.summaryRecorded then s
  else
    let s := s.setItem i (item.setPayload summaryRecordedKey (.bool true))
    { s with
      terminalSummary := s.terminalSummary ++ [i]
      seenItemIds := s.seenItemIds.erase i
      items := s.retain config i
      ledger := lastN config.terminalDetailCapacity s.ledger }

end Coordinator

/-! ## Leases -/

/-- `_claim_item`. -/
def claimItem (stage : StageName) (index : Nat) : Op (Option ItemId) := do
  let s ← get
  match (s.queues stage).claimAt index with
  | none => pure none
  | some (q, i, ticket) => do
      let lease : StageQueueLease StageName := ⟨stage, i, ticket⟩
      set { s with queues := Function.update s.queues stage q }
      if (s.leases.get? i).isSome then do
        onQueues lease.restore
        throw (runtimeError ("duplicate active lease for " ++ (s.workItem i).itemKey))
      else do
        modify fun s => { s with leases := s.leases.set i lease }
        pure (some i)

/-- The first lines of `_restore_source_lease` and `_release_source_lease`:
the item's lease, taken out of the registries. -/
def takeLease (i : ItemId) : Op (Option (StageQueueLease StageName)) := do
  let s ← get
  set { s with
    pendingHandoffs := s.pendingHandoffs.erase i
    leases := s.leases.erase i }
  pure (s.leases.get? i)

/-- `_restore_source_lease`. -/
def restoreSourceLease (i : ItemId) : Op Bool := do
  match ← takeLease i with
  | none => pure false
  | some lease => do
      onQueues lease.restore
      pure true

/-- `_release_source_lease`. -/
def releaseSourceLease (i : ItemId) : Op Bool := do
  match ← takeLease i with
  | none => pure false
  | some lease => do
      onQueues lease.release
      pure true

/-! ## File claims and entering a stage -/

/-- `_FILE_CLAIM_STAGES`. -/
def StageName.ownsFileClaims : StageName → Bool
  | .implementation => true
  | .prReview => true
  | .mergeWait => true
  | _ => false

/-- `_REALIZED_DIFF_CLAIM_STAGES`. -/
def StageName.realizesDiff : StageName → Bool
  | .prReview => true
  | .mergeWait => true
  | _ => false

/-- `_clear_implementation_file_claims_on_exit`. -/
def WorkItem.clearFileClaimsOnExit (item : WorkItem) (target : StageName) : WorkItem :=
  if item.stage.ownsFileClaims && !target.ownsFileClaims then
    item.popPayload implementationFileClaimsPayload
  else item

/-- The item in its new stage; with `enter`, `on_enter` is due. -/
def WorkItem.moveTo (item : WorkItem) (target : StageName) (enter : Bool) : WorkItem :=
  let item := { item.clearFileClaimsOnExit target with stage := target }
  if enter then { item with state := "ENTER" }.setPayload enterPendingKey (.bool true) else item

/-! ## Handoffs -/

namespace Coordinator

/-- The permit part of `_activate_handoff`. -/
def transferPermit (s : Coordinator) (i : ItemId) (source target : StageName) : Coordinator :=
  match source.isAuxiliary, target.isAuxiliary with
  | false, true =>
      { s with
        liveWorkPermitIds := s.liveWorkPermitIds.erase i
        learningWorkPermitIds := insert i s.learningWorkPermitIds }
  | true, false =>
      { s with
        liveWorkPermitIds := insert i s.liveWorkPermitIds
        learningWorkPermitIds := s.learningWorkPermitIds.erase i }
  | _, _ => s

/-- `_activate_handoff`. -/
def activateHandoff (s : Coordinator) (i : ItemId) (target : StageName) (enter : Bool)
    (result : Option ItemResult) : Coordinator :=
  let item := (s.workItem i).moveTo target enter
  (s.transferPermit i (s.stageOf i) target).setItem i
    { item with result := result.orElse fun _ => item.result }

/-- What every accepted handoff ends with: the lease and the retained route
are gone, and the route is published. -/
def publishHandoff (s : Coordinator) (i : ItemId) (target : StageName) (enter : Bool)
    (result : Option ItemResult) : Coordinator :=
  { s with
    leases := s.leases.erase i
    pendingHandoffs := s.pendingHandoffs.erase i }.activateHandoff i target enter result

end Coordinator

/-- `_handoff_item`. -/
def handoffItem (config : PipelineConfig) (i : ItemId) (target : StageName) (enter : Bool)
    (result : Option ItemResult) : Op Bool := do
  let s ← get
  let lease ← lookup s.leases i
  if target = s.stageOf i then
    if result.isSome then
      throw (runtimeError "terminal result cannot route to the source stage")
    else restoreSourceLease i
  else do
    let accepted ←
      if s.laneHandoffCapacity config i target then onQueues (lease.handoff target)
      else pure false
    if accepted then do
      modify fun s => s.publishHandoff i target enter result
      pure true
    else do
      let pending : PendingHandoff := { item := i, target, enter, result }
      match s.pendingHandoffs.get? i with
      | none => do
          modify fun s => { s with pendingHandoffs := s.pendingHandoffs.set i pending }
          pure false
      | some existing =>
          if existing ≠ pending then
            throw (runtimeError ("conflicting pending handoff for " ++ (s.workItem i).itemKey))
          else pure false

/-- `a.handoff(..) and b.handoff(..)`. -/
def handoffBoth (a : StageQueueLease StageName) (aTarget : StageName)
    (b : StageQueueLease StageName) (bTarget : StageName) : Op Bool := do
  let first ← onQueues (a.handoff aTarget)
  if first then onQueues (b.handoff bTarget) else pure false

/-- The three ways `_complete_pending_handoff_pair` has to move the items;
`none` where none of them applies. -/
def movePair (first second : PendingHandoff) : Op (Option Bool) := do
  let s ← get
  let firstLease ← lookup s.leases first.item
  let secondLease ← lookup s.leases second.item
  let source1 := s.stageOf first.item
  let source2 := s.stageOf second.item
  if first.target = source2 ∧ second.target = source1 then
    some <$> onQueues (firstLease.exchange first.target secondLease second.target)
  else if (s.queues first.target).canOffer ∧
      (second.target = source1 ∨ (s.queues second.target).canOffer) then
    some <$> handoffBoth firstLease first.target secondLease second.target
  else if (s.queues second.target).canOffer ∧
      (first.target = source2 ∨ (s.queues first.target).canOffer) then
    some <$> handoffBoth secondLease second.target firstLease first.target
  else pure none

/-- `_complete_pending_handoff_pair`. -/
def completePendingHandoffPair (first second : PendingHandoff) : Op Bool := do
  match ← movePair first second with
  | none => pure false
  | some false => throw (runtimeError "handoff exchange lost capacity")
  | some true => do
      modify fun s => s.publishHandoff first.item first.target first.enter first.result
      modify fun s => s.publishHandoff second.item second.target second.enter second.result
      pure true

/-- The inner loop of `_drain_complementary_handoff_pairs`, over the entries
after `first`; it stops at the first pair that moves. -/
def pairWith (first : PendingHandoff) (sourceAux targetAux : Bool) :
    List (ItemId × PendingHandoff) → Op Unit
  | [] => pure ()
  | (secondId, second) :: rest => do
      let s ← get
      if (s.pendingHandoffs.get? secondId).isNone then pairWith first sourceAux targetAux rest
      else if (s.stageOf second.item).isAuxiliary = targetAux ∧
          second.target.isAuxiliary = sourceAux then do
        if ← completePendingHandoffPair first second then pure ()
        else pairWith first sourceAux targetAux rest
      else pairWith first sourceAux targetAux rest

/-- The outer loop of `_drain_complementary_handoff_pairs`. -/
def drainPairs : List (ItemId × PendingHandoff) → Op Unit
  | [] => pure ()
  | (firstId, first) :: rest => do
      let s ← get
      let sourceAux := (s.stageOf first.item).isAuxiliary
      let targetAux := first.target.isAuxiliary
      if (s.pendingHandoffs.get? firstId).isSome ∧ sourceAux ≠ targetAux then
        pairWith first sourceAux targetAux rest
      else pure ()
      drainPairs rest

/-- `_drain_complementary_handoff_pairs`. -/
def drainComplementaryHandoffPairs : Op Unit := do
  let s ← get
  drainPairs s.pendingHandoffs

/-- One turn of the loop of `_drain_pending_handoffs`. -/
def retryHandoff (config : PipelineConfig) (entry : ItemId × PendingHandoff) : Op Unit := do
  let s ← get
  let lease ← lookup s.leases entry.1
  let pending := entry.2
  if s.laneHandoffCapacity config pending.item pending.target then do
    if ← onQueues (lease.handoff pending.target) then
      modify fun s =>
        s.publishHandoff entry.1 pending.target pending.enter pending.result
    else pure ()
  else pure ()

/-- `_drain_pending_handoffs`. -/
def drainPendingHandoffs (config : PipelineConfig) : Op Unit := do
  drainComplementaryHandoffPairs
  let s ← get
  s.pendingHandoffs.forM (retryHandoff config)

/-! ## Timers -/

/-- `_timer_park`. -/
def timerPark (now : ℚ) (i : ItemId) (delay : ℚ) : Op Unit := do
  let _ ← releaseSourceLease i
  modify fun s =>
    { s with
      timers := heappush s.timers ⟨now + max 0 delay, s.seq, i⟩
      seq := s.seq + 1 }

/-! ## Pushing -/

/-- The `(repo, issue)` of an `ISSUE` item. -/
def WorkItem.issueKey (item : WorkItem) : Option (String × Int) :=
  if item.kind = .issue then item.issue.map fun n => (item.repo, n) else none

/-- `_live_issue_keys`: queued, in flight or leased. -/
def Coordinator.liveIssueKeys (s : Coordinator) : List (String × Int) :=
  let ids := pipelineOrder.flatMap (fun st => (s.queues st).snapshot) ++
    s.inFlight.map Prod.snd ++ s.auxiliaryInFlight.map Prod.snd ++
    s.leases.map fun kv => kv.2.item
  ids.filterMap fun j => (s.workItem j).issueKey

/-- The last part of `_push_item`, once the queue has the item. -/
def Coordinator.admitPushed (s : Coordinator) (i : ItemId) (stage : StageName)
    (enter isNew : Bool) : Coordinator :=
  let item := (s.workItem i).moveTo stage enter
  if isNew then
    let item := if (item.payload.get? "entry_stage").isSome then item
      else item.setPayload "entry_stage" (.str stage.value)
    { s.setItem i item with
      seenItemIds := insert i s.seenItemIds
      items := s.items ++ [i] }
  else s.setItem i item

/-- `_push_item`. -/
def pushItem (config : PipelineConfig) (i : ItemId) (stage : StageName)
    (enter deferIfFull : Bool) : Op Bool := do
  let s ← get
  let isNew := decide (i ∉ s.seenItemIds)
  if isNew ∧ (s.workItem i).issueKey.any (fun key => s.liveIssueKeys.contains key) then
    pure false
  else do
    let permit := if isNew then s.tryAcquireWorkPermit config i stage else (true, s)
    set permit.2
    if !permit.1 then pure false
    else
      match (permit.2.queues stage).offer i with
      | none => do
          if isNew then modify fun s => s.releaseWorkPermit i
          else pure ()
          if deferIfFull then pure false
          else throw ⟨.overflowError, "StageQueue is full"⟩
      | some q => do
          modify fun s =>
            { s with queues := Function.update s.queues stage q }.admitPushed i stage enter isNew
          pure true

/-- The loop of `_wake_timers`: an entry leaves the heap only after its
stage has taken the item. -/
def wakeLoop (config : PipelineConfig) (now : ℚ) : Nat → Op Unit
  | 0 => pure ()
  | fuel + 1 => do
      let s ← get
      match s.timers with
      | [] => pure ()
      | entry :: _ =>
          if entry.wake ≤ now then do
            if ← pushItem config entry.item (s.stageOf entry.item) false true then do
              modify fun s => { s with timers := s.timers.tail }
              wakeLoop config now fuel
            else pure ()
          else pure ()

/-- `_wake_timers`. Every turn takes one entry off the heap. -/
def wakeTimers (config : PipelineConfig) (now : ℚ) : Op Unit := do
  let s ← get
  wakeLoop config now s.timers.length

/-! ## Leaving the pipeline -/

/-- `_park_resumable`. -/
def parkResumable (config : PipelineConfig) (i : ItemId) : Op Unit := do
  let _ ← releaseSourceLease i
  editItem i fun item =>
    { item with
      result := some
        { passed := false
          reason := "resumable at " ++ item.stage.value
          finalStage := item.stage } }
  modify fun s => (s.recordTerminalResult config i).releaseWorkPermit i

/-- `_externalize_repo_issue_source`: the cursor is enrolled, and the item
that set it up is gone. -/
def externalizeRepoIssueSource (config : PipelineConfig) (i : ItemId) : Op Bool := do
  let s ← get
  if config.workWindow ≤ s.repoIssueSources.length then pure false
  else do
    editItem i fun item => item.popPayload repoIssueSourceKey
    modify fun s =>
      { s with repoIssueSources := s.repoIssueSources ++ [(s.workItem i).repo] }
    let _ ← releaseSourceLease i
    modify fun s =>
      { s.releaseWorkPermit i with
        seenItemIds := s.seenItemIds.erase i
        items := s.items.erase i }
    pure true

end Hephaestus.Pipeline
