import Mathlib.Logic.Relation
import Hephaestus.Pipeline.System
import Hephaestus.Proofs.LeaseOps

/-!
# The moves of the coordinator

Everything the coordinator does to an item is one of a few moves: a claim, a
restore, a handoff, a timer park, a job going out or coming back, a write to
the item's record, an exit. `Move` lists them, each with what the code has
made sure of when it makes it and the state it leaves. An invariant is
proved once for each move; that the operations of the code are nothing but
sequences of moves is proved once, elsewhere.

`View` is what the coordinator's structures say about one item. The
ownership invariant says that every view is one of four: not here, ready in
the queue of its stage, leased from the queue of its stage, or on the timer
heap.
-/

namespace Hephaestus.Pipeline

open Hephaestus.Lib StageQueueLease

/-! ## Views -/

/-- What the coordinator's structures say about one item. -/
structure View where
  stage : StageName
  settled : Bool
  recorded : Bool
  ready : StageName → Nat
  leased : StageName → Option Nat
  lease : Option (StageQueueLease StageName)
  timers : Nat
  flights : Nat
  pending : Option PendingHandoff
  seen : Prop

/-- How often an item is on the timer heap. -/
def timerCount (timers : List TimerEntry) (i : ItemId) : Nat :=
  (timers.map TimerEntry.item).count i

def Coordinator.view (s : Coordinator) (i : ItemId) : View where
  stage := s.stageOf i
  settled := (s.workItem i).result.isSome
  recorded := (s.workItem i).summaryRecorded
  ready := fun st => (s.queues st).readyCount i
  leased := fun st => (s.queues st).leased.get? i
  lease := s.leases.get? i
  timers := timerCount s.timers i
  flights := s.flights i
  pending := s.pendingHandoffs.get? i
  seen := i ∈ s.seenItemIds

/-- Where an item can be; a leased one remembers its ticket. -/
inductive Holder
  | nowhere
  | ready
  | leased (ticket : Nat)
  | timer
  deriving DecidableEq

/-- The ticket of a leased item. -/
def Holder.ticket? : Holder → Option Nat
  | .leased t => some t
  | _ => none

/-- A route that may be retained for an item at `stage`. -/
structure Retains (i : ItemId) (stage : StageName) (p : PendingHandoff) : Prop where
  item : p.item = i
  target : p.target ≠ stage
  source : stage ≠ .finished
  notRepo : p.target ≠ .repo
  enter : p.target = .finished → p.enter = true
  result : p.target = .finished → p.result.isSome = true

/-- The view of an item that `h` holds, and nothing else does. -/
structure Held (i : ItemId) (h : Holder) (v : View) : Prop where
  ready : ∀ st, v.ready st = if h = .ready ∧ st = v.stage then 1 else 0
  leased : ∀ st, v.leased st = if st = v.stage then h.ticket? else none
  lease : v.lease = h.ticket?.map fun t => ⟨v.stage, i, t⟩
  timers : v.timers = if h = .timer then 1 else 0
  flights : v.flights ≤ if h.ticket?.isSome then 1 else 0
  pending : ∀ p, v.pending = some p →
    h.ticket?.isSome = true ∧ v.flights = 0 ∧ Retains i v.stage p
  seen : v.seen ↔ h ≠ .nowhere
  fresh : v.seen → v.recorded = false ∧ (v.stage = .finished → v.settled = true)

/-- The ownership invariant. -/
structure Owned (s : Coordinator) : Prop where
  held : ∀ i, ∃ h, Held i h (s.view i)
  fits : ∀ st, (s.queues st).Fits
  unborn : ∀ i, s.allocated ≤ i → i ∉ s.seenItemIds

/-! ## The moves -/

variable {ω : Type}

/-- The state after an item's lease ended and the queues became `queues`. -/
def Coordinator.unlease (s : Coordinator) (i : ItemId) (queues : StageName → StageQueue) :
    Coordinator :=
  { s with
    queues
    leases := s.leases.erase i
    pendingHandoffs := s.pendingHandoffs.erase i }

/-- A lease on the books for an item that can be routed: in hand, or with
exactly this route retained. -/
structure Routable (s : Coordinator) (i : ItemId) (l : StageQueueLease StageName)
    (target : StageName) (enter : Bool) (result : Option ItemResult) : Prop where
  lease : s.leases.get? i = some l
  flights : s.flights i = 0
  retains : Retains i (s.stageOf i) ⟨i, target, enter, result⟩

/-- The ways two retained routes can be carried out together: the items
change places, or one goes before the other. -/
inductive PairQueues (queues : StageName → StageQueue) (l m : StageQueueLease StageName)
    (target target' : StageName) : (StageName → StageQueue) → Prop
  | exchange : target = m.source → target' = l.source →
      PairQueues queues l m target target' (exchanged queues l m)
  | inOrder : (queues target).canOffer = true →
      (handedOff queues l target target').canOffer = true →
      PairQueues queues l m target target' (handedOff (handedOff queues l target) m target')
  | reversed : (queues target').canOffer = true →
      (handedOff queues m target' target).canOffer = true →
      PairQueues queues l m target target' (handedOff (handedOff queues m target') l target)

/-- The item only set up a source: a direct scope's bootstrap, or a
repository whose issue cursor is ready. -/
def WorkItem.SetupDone (item : WorkItem) : Prop :=
  (item.stage = .repo ∧ item.payload.flag directScopeBootstrapKey = true) ∨
    (item.kind = .repo ∧ item.state = "SOURCE")

/-- In the sink, `RECORD` comes first: until the ledger has an item's result,
the item's state can only become `RECORD`. -/
def SinkOrder (before after : WorkItem) : Prop :=
  before.stage = .finished → before.payload.flag recordedKey = false →
    after.state = before.state ∨ after.state = "RECORD"

/-- The item is not in the sink, or the ledger has its result. -/
def Quiet (s : Coordinator) (i : ItemId) : Prop :=
  s.stageOf i = .finished → (s.workItem i).payload.flag recordedKey = true

/-- If the item carries a wave lease, its outcome has been offered to the
wave store. -/
def WaveTried (s : Coordinator) (i : ItemId) : Prop :=
  ∀ lease issue, (s.workItem i).payload.get? waveLeasePayload = some (.lease lease) →
    (s.workItem i).issue = some issue →
    ∃ passed reason pr nonCode stored,
      SinkEffect.waveOutcome lease issue passed reason pr nonCode stored ∈ s.sinkLog

/-- The coordinator after an exit through a recorded result. -/
def Coordinator.retired (config : PipelineConfig) (s : Coordinator) (i : ItemId)
    (l : StageQueueLease StageName) : Coordinator :=
  ((s.recordTerminalResult config i).unlease i (released s.queues l)).releaseWorkPermit i

/-- The moves. -/
inductive Move (host : Host ω) : Coordinator → Coordinator → Prop
  | alloc {s : Coordinator} (new : NewItem) : Move host s (s.alloc new.item)
  /-- Fields that say nothing about an item. -/
  | idle {s : Coordinator} (pending shutdown : Bool) (sources : List String) :
      Move host s { s with
        directScopeBootstrapPending := pending, shutdown, repoIssueSources := sources }
  | logRoute {s : Coordinator} (i : ItemId) (outcome : StageOutcome) :
      Move host s (s.logRoute i outcome)
  | admitNew {s t : Coordinator} {i : ItemId} :
      i < s.allocated → i ∉ s.seenItemIds →
      (s.workItem i).summaryRecorded = false →
      (s.stageOf i = .finished → (s.workItem i).result.isSome = true) →
      s.tryAcquireWorkPermit host.config i (s.stageOf i) = (true, t) →
      (t.queues (s.stageOf i)).canOffer = true →
      Move host s ({ t with
        queues := Function.update t.queues (s.stageOf i)
          ((t.queues (s.stageOf i)).append i) }.admitPushed i (s.stageOf i) true true)
  | claim {s : Coordinator} {stage : StageName} {index : Nat} {slot : Nat × ItemId} :
      (s.queues stage).items[index]? = some slot →
      Move host s { s with
        queues := Function.update s.queues stage ((s.queues stage).lease index slot)
        leases := s.leases.set slot.2 ⟨stage, slot.2, slot.1⟩ }
  | restore {s : Coordinator} {i : ItemId} {l : StageQueueLease StageName} :
      s.InHand i → s.leases.get? i = some l →
      Move host s (s.unlease i (reinserted s.queues l l.item))
  | pend {s : Coordinator} {i : ItemId} {l : StageQueueLease StageName} {target : StageName}
      {enter : Bool} {result : Option ItemResult} :
      Routable s i l target enter result →
      Move host s { s with
        pendingHandoffs := s.pendingHandoffs.set i ⟨i, target, enter, result⟩ }
  | handoff {s : Coordinator} {i : ItemId} {l : StageQueueLease StageName}
      {target : StageName} {enter : Bool} {result : Option ItemResult} :
      Routable s i l target enter result →
      s.laneHandoffCapacity host.config i target = true →
      (s.queues target).canOffer = true →
      Move host s ({ s with queues := handedOff s.queues l target }.publishHandoff i target
        enter result)
  /-- Two retained routes, one into the auxiliary lane and one out of it. -/
  | pair {s : Coordinator} {i j : ItemId} {l m : StageQueueLease StageName}
      {target target' : StageName} {enter enter' : Bool} {result result' : Option ItemResult}
      {queues : StageName → StageQueue} :
      i ≠ j → Routable s i l target enter result → Routable s j m target' enter' result' →
      (s.stageOf i).isAuxiliary ≠ target.isAuxiliary →
      (s.stageOf j).isAuxiliary = target.isAuxiliary →
      target'.isAuxiliary = (s.stageOf i).isAuxiliary →
      PairQueues s.queues l m target target' queues →
      Move host s (({ s with queues }.publishHandoff i target enter result).publishHandoff j
        target' enter' result')
  | park {s : Coordinator} {i : ItemId} {l : StageQueueLease StageName} (wake : ℚ) :
      s.InHand i → s.leases.get? i = some l →
      Move host s { s.unlease i (released s.queues l) with
        timers := heappush s.timers ⟨wake, s.seq, i⟩, seq := s.seq + 1 }
  | wake {s : Coordinator} {entry : TimerEntry} {rest : List TimerEntry} :
      s.timers = entry :: rest →
      (s.queues (s.stageOf entry.item)).canOffer = true →
      Move host s { { s with
        queues := Function.update s.queues (s.stageOf entry.item)
          ((s.queues (s.stageOf entry.item)).append entry.item) }.admitPushed entry.item
            (s.stageOf entry.item) false false with timers := rest }
  | submit {s : Coordinator} {i : ItemId} (handle : JobHandle) (perRepo : Dict String Nat) :
      s.InHand i → Quiet s i →
      Move host s { s with
        nextSerial := s.nextSerial + 1
        inFlight := s.inFlight.set handle i
        inflightPerRepo := perRepo }
  | submitAuxiliary {s : Coordinator} {i : ItemId} (handle : JobHandle) :
      s.InHand i → Quiet s i →
      Move host s { s with
        nextSerial := s.nextSerial + 1
        auxiliaryInFlight := s.auxiliaryInFlight.set handle i }
  | complete {s : Coordinator} (handle : JobHandle) (auxiliary : Bool) (repo : String) :
      Move host s (s.popFlight handle auxiliary repo)
  | edit {s : Coordinator} {i : ItemId} {item : WorkItem} :
      s.InHand i → Preserves (s.workItem i) item → SinkOrder (s.workItem i) item →
      Move host s (s.setItem i item)
  /-- The `MERGE_WAIT` detour. -/
  | compact {s : Coordinator} {i : ItemId} (reason : String) (result : ItemResult) :
      s.InHand i → s.stageOf i = .mergeWait → (s.workItem i).learningIntents ≠ [] →
      ⟨i, .mergeWait, .finishPass, true⟩ ∈ s.routed →
      Move host s (s.setItem i
        (((s.workItem i).setPayload learningPrimaryReasonKey
          (.str reason)).compactForPostProcessing host.sha256 result))
  | sink {s : Coordinator} {i : ItemId} (w : ω) :
      s.InHand i → s.stageOf i = .finished →
      Move host s (s.sunk i (finishedStep host.sink w i (s.workItem i)))
  /-- A result that goes to the ledger from outside `RECORD`. -/
  | poison {s : Coordinator} {i : ItemId} (result : ItemResult) :
      s.InHand i → s.stageOf i = .finished →
      (s.workItem i).payload.flag recordedKey = false → WaveTried s i →
      Move host s { s.setItem i
          ({ s.workItem i with result := some result }.setPayload recordedKey (.bool true)) with
        ledger := s.ledger ++ [result]
        sinkLog := s.sinkLog ++ [.ledger i result] }
  | retire {s : Coordinator} {i : ItemId} {l : StageQueueLease StageName} :
      s.InHand i → s.leases.get? i = some l → (s.workItem i).result.isSome = true →
      Move host s (s.retired host.config i l)
  /-- The set-up items of a source: their work goes on as a cursor. -/
  | vanish {s : Coordinator} {i : ItemId} {l : StageQueueLease StageName} :
      s.InHand i → s.leases.get? i = some l → (s.workItem i).SetupDone →
      Move host s { (s.unlease i (released s.queues l)).releaseWorkPermit i with
        seenItemIds := s.seenItemIds.erase i
        items := s.items.erase i }

/-- Any number of moves. -/
abbrev Moves (host : Host ω) := Relation.ReflTransGen (Move host)

end Hephaestus.Pipeline
