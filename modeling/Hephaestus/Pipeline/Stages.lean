import Hephaestus.Pipeline.Coordinator

/-!
# Stages, as the coordinator sees them

The `Stage` protocol of `stages/base.py`, and the sink,
`stages/finished.py`. A stage method gets an item, writes into it and
answers; whether it raises or not, what it wrote stays. What a stage
consults besides the item (GitHub, the checkout, its own budget) is an
input `ω`, one for each call.

What no stage does is part of the type: an item keeps its identity and its
stage, a result once set stays set, the keys only the coordinator and the
sink write are left alone, and a wave lease is replaced by another one only
at `REPO`, where waves are sealed, and never taken out. The sink is the
exception for two of those keys, so it is here as it stands, with only its
worktree cleanup left to an input.
-/

namespace Hephaestus.Pipeline

open Hephaestus.Lib Hephaestus.Automation

/-- The payload keys only the coordinator and the sink write. -/
def coordinatorKeys : List String :=
  [summaryRecordedKey, recordedKey, waveOutcomeRecordedKey, directScopeBootstrapKey]

/-- What every ordinary write to an item leaves alone. -/
structure Preserves (before after : WorkItem) : Prop where
  repo : after.repo = before.repo
  kind : after.kind = before.kind
  issue : after.issue = before.issue
  stage : after.stage = before.stage
  result : before.result.isSome → after.result.isSome
  keys : ∀ key ∈ coordinatorKeys, after.payload.get? key = before.payload.get? key
  lease : before.stage ≠ .repo → ∀ v, before.payload.get? waveLeasePayload = some v →
    after.payload.get? waveLeasePayload = some v

/-- What a stage leaves alone: the coordinator's regression count too. -/
structure Keeps (before after : WorkItem) : Prop extends Preserves before after where
  failBacks : after.payload.get? failBacksKey = before.payload.get? failBacksKey

theorem Preserves.refl (item : WorkItem) : Preserves item item :=
  ⟨rfl, rfl, rfl, rfl, id, fun _ _ => rfl, fun _ _ h => h⟩

theorem Preserves.trans {a b c : WorkItem} (hab : Preserves a b) (hbc : Preserves b c) :
    Preserves a c where
  repo := hbc.repo.trans hab.repo
  kind := hbc.kind.trans hab.kind
  issue := hbc.issue.trans hab.issue
  stage := hbc.stage.trans hab.stage
  result := fun h => hbc.result (hab.result h)
  keys := fun key hk => (hbc.keys key hk).trans (hab.keys key hk)
  lease := fun hs v h => hbc.lease (hab.stage.symm ▸ hs) v (hab.lease hs v h)

/-- A stage call: the item it left, and its answer or what it raised. -/
structure StageCall (α : Type) where
  item : WorkItem
  reply : Except PyError α

/-- A stage method: its calls keep what `Keeps` says. -/
structure StageMethod (ω α : Type) where
  call : ω → WorkItem → StageCall α
  keeps : ∀ w item, Keeps item (call w item).item

/-- `Stage`. -/
structure Stage (ω : Type) where
  onEnter : StageMethod ω (Option StageOutcome)
  step : StageMethod ω StepResult
  onJobDone : JobResult → StageMethod ω Unit
  onCancelledBeforeStart : StageMethod ω Unit

/-- How `record_terminal_outcome` came back. -/
inductive StoreReply
  | stored
  | issueWaveError (message : String)
  | raised (e : PyError)
  deriving DecidableEq

/-- The parts of `FinishedStage` that clean up: `_cleanup`,
`_record_cleanup_terminal` and `on_job_done`. `resolveSourceTerminal` is the
result and the worktree `_resolve_source_terminal` stores, and `store` the
wave store's answer to the first and to the second call. -/
structure Sink (ω : Type) where
  cleanup : StageMethod ω StepResult
  recordCleanupTerminal : StageMethod ω Unit
  onJobDone : JobResult → StageMethod ω Unit
  resolveSourceTerminal : ω → WorkItem → ItemResult × String
  store : ω → Bool → StoreReply

/-- Everything around the coordinator: its configuration, its stages, and
the digest function of the learning keys. -/
structure Host (ω : Type) where
  config : PipelineConfig
  sha256 : String → String
  stages : StageName → Stage ω
  sink : Sink ω

/-! ## The sink -/

/-- What a sink step did: the item, the effects in order, the answer. -/
structure SinkCall where
  item : WorkItem
  effects : List SinkEffect
  reply : Except PyError StepResult

variable {ω : Type}

/-- The start of RECORD: an item whose source workspace is preserved gets
its terminal evidence resolved, and a missing result is an internal
failure. -/
def recordResult (sink : Sink ω) (w : ω) (item : WorkItem) : WorkItem :=
  let item :=
    if item.payload.get? "source_workspace_preserve" = some (.bool true) &&
        !item.payload.flag recordedKey then
      let r := sink.resolveSourceTerminal w item
      { item with result := some r.1, worktree := r.2 }
    else item
  match item.result with
  | some _ => item
  | none =>
      { item with
        result := some
          { passed := false, reason := "internal: no result recorded", finalStage := item.stage } }

/-- One call of `record_terminal_outcome`. -/
def waveEffect (lease : Checked WaveLease.postInit) (issue : Int) (result : ItemResult)
    (pr : Option Int) (nonCode : Bool) (reply : StoreReply) : SinkEffect :=
  .waveOutcome lease issue result.passed result.reason pr nonCode (reply = .stored)

/-- The wave part of RECORD: the calls made, the result after them, and the
exception that got away, if any. A failed write turns the result into a
failure and is tried once more as one. -/
def recordWave (sink : Sink ω) (w : ω) (item : WorkItem) (lease : Checked WaveLease.postInit)
    (issue : Int) (result : ItemResult) : List SinkEffect × ItemResult × Option PyError :=
  let nonCode := item.payload.flag waveNonCodePayload
  let first := waveEffect lease issue result (if nonCode then none else item.pr) nonCode
    (sink.store w true)
  match sink.store w true with
  | .stored => ([first], result, none)
  | .raised e => ([first], result, some e)
  | .issueWaveError message =>
      let failed : ItemResult :=
        { passed := false
          reason := "wave checkpoint write failed: " ++ message
          finalStage := item.stage }
      let second := waveEffect lease issue failed item.pr false (sink.store w false)
      match sink.store w false with
      | .raised e => ([first, second], failed, some e)
      | _ => ([first, second], failed, none)

/-- The end of RECORD: the ledger gets the result once. -/
def recordLedger (i : ItemId) (item : WorkItem) (effects : List SinkEffect)
    (result : ItemResult) : SinkCall :=
  if item.payload.flag recordedKey then ⟨item, effects, .ok (.goOn "CLEANUP")⟩
  else ⟨item.setPayload recordedKey (.bool true), effects ++ [.ledger i result],
    .ok (.goOn "CLEANUP")⟩

/-- The state RECORD of `FinishedStage.step`. -/
def recordStep (sink : Sink ω) (w : ω) (i : ItemId) (item : WorkItem) : SinkCall :=
  let item := recordResult sink w item
  match item.result with
  | none => ⟨item, [], .ok (.goOn "CLEANUP")⟩
  | some result =>
      match item.payload.get? waveLeasePayload, item.issue,
          item.payload.flag waveOutcomeRecordedKey with
      | some (.lease lease), some issue, false =>
          match recordWave sink w item lease issue result with
          | (effects, result, some e) =>
              ⟨{ item with result := some result }, effects, .error e⟩
          | (effects, result, none) =>
              let item := { item with result := some result }.setPayload waveOutcomeRecordedKey
                (.bool true)
              recordLedger i item effects result
      | _, _, _ => recordLedger i item [] result

/-- `FinishedStage.step`. -/
def finishedStep (sink : Sink ω) (w : ω) (i : ItemId) (item : WorkItem) : SinkCall :=
  if item.state = "" ∨ item.state = "ENTER" then ⟨item, [], .ok (.goOn "RECORD")⟩
  else if item.state = "RECORD" then recordStep sink w i item
  else if item.state = "CLEANUP" then
    let c := sink.cleanup.call w item
    ⟨c.item, [], c.reply⟩
  else if item.state = "DONE" then
    let c := sink.recordCleanupTerminal.call w item
    ⟨c.item, [], c.reply.map fun _ => .outcome ⟨.finishPass, "done"⟩⟩
  else ⟨item, [], .ok (.outcome ⟨.finishFail, "unknown state: " ++ item.state⟩)⟩

/-! ## Calling a stage -/

/-- A stage method run on an item. -/
def callMethod {α : Type} (m : StageMethod ω α) (w : ω) (i : ItemId) : Op α := do
  let s ← get
  let c := m.call w (s.workItem i)
  set (s.setItem i c.item)
  Command.attempt c.reply

/-- The ledger entries among the sink's effects. -/
def ledgerEntries (effects : List SinkEffect) : List ItemResult :=
  effects.filterMap fun
    | .ledger _ r => some r
    | .waveOutcome .. => none

/-- What a sink step leaves. -/
def Coordinator.sunk (s : Coordinator) (i : ItemId) (c : SinkCall) : Coordinator :=
  { s.setItem i c.item with
    sinkLog := s.sinkLog ++ c.effects
    ledger := s.ledger ++ ledgerEntries c.effects }

namespace Host

variable (host : Host ω)

/-- `stage.on_enter(item, ctx)`; the sink's does nothing. -/
def onEnter (stage : StageName) (w : ω) (i : ItemId) : Op (Option StageOutcome) :=
  if stage = .finished then pure none
  else callMethod (host.stages stage).onEnter w i

/-- `stage.step(item, ctx)`. -/
def step (stage : StageName) (w : ω) (i : ItemId) : Op StepResult :=
  if stage = .finished then do
    let s ← get
    let c := finishedStep host.sink w i (s.workItem i)
    set (s.sunk i c)
    Command.attempt c.reply
  else callMethod (host.stages stage).step w i

/-- The stage's `on_job_done` for one result. -/
def jobDone (stage : StageName) (result : JobResult) : StageMethod ω Unit :=
  if stage = .finished then host.sink.onJobDone result
  else (host.stages stage).onJobDone result

end Host

/-! ### A host for short runs -/

/-- A stage method that answers without touching the item. -/
def StageMethod.answer {ω α : Type} (a : α) : StageMethod ω α where
  call := fun _ item => ⟨item, .ok a⟩
  keeps := fun _ item => ⟨Preserves.refl item, rfl⟩

/-- Stages that have nothing to do, and a wave store that stores. -/
def stillHost : Host Unit where
  config := defaultConfig
  sha256 := id
  stages := fun _ =>
    { onEnter := .answer none
      step := .answer (.outcome ⟨.finishPass, ""⟩)
      onJobDone := fun _ => .answer ()
      onCancelledBeforeStart := .answer () }
  sink :=
    { cleanup := .answer (.goOn "DONE")
      recordCleanupTerminal := .answer ()
      onJobDone := fun _ => .answer ()
      resolveSourceTerminal := fun _ item => (⟨false, "", item.stage⟩, item.worktree)
      store := fun _ _ => .stored }

end Hephaestus.Pipeline
