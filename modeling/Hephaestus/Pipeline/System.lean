import Hephaestus.Lib.Run
import Hephaestus.Pipeline.Runtime

/-!
# The coordinator as a step system

One event is one call the event loop makes, or one operation of the calls
it is made of, with everything the outside decides as its arguments: which
item a source pushes, what the stages answer, which job completes and how,
what time it is. Loops over queues, completions and sources are sequences of
events, in any order, so a run of this system is any interleaving the event
loop can produce and many it cannot.

The operations that act on an item the coordinator is driving (`_route`,
`_submit`, `_timer_park`, ..) are only called for an item it has in hand:
one it holds by a lease, with no job out and no route retained. That is the
guard of their events. A tracked item is pushed by `_wake_timers` alone. An
event whose code raises still takes place: what was written before the
exception stays.
-/

namespace Hephaestus.Pipeline

open Hephaestus.Lib

/-- An item as a source makes it: never recorded before, and with its result
if it goes straight to the sink. -/
structure NewItem where
  item : WorkItem
  unrecorded : ∀ key ∈ [summaryRecordedKey, recordedKey, waveOutcomeRecordedKey],
    item.payload.flag key = false
  settled : item.stage = .finished → item.result.isSome = true

namespace Coordinator

/-- How many jobs of an item are out. -/
def flights (s : Coordinator) (i : ItemId) : Nat :=
  s.inFlight.values.count i + s.auxiliaryInFlight.values.count i

/-- The item is being driven: leased, with no job out and no route
retained. -/
def InHand (s : Coordinator) (i : ItemId) : Prop :=
  (s.leases.get? i).isSome = true ∧ s.pendingHandoffs.get? i = none ∧ s.flights i = 0

instance (s : Coordinator) (i : ItemId) : Decidable (s.InHand i) :=
  inferInstanceAs (Decidable (_ ∧ _ ∧ _))

/-- A new work item object. -/
def alloc (s : Coordinator) (item : WorkItem) : Coordinator :=
  { s.setItem s.allocated item with allocated := s.allocated + 1 }

end Coordinator

/-- What the event loop can do next. -/
inductive CoordinatorEvent (ω : Type)
  /-- `_push_item` of a new item, into the stage it was classified to. -/
  | push (new : NewItem) (deferIfFull : Bool)
  | claim (stage : StageName) (index : Nat)
  | restore (i : ItemId)
  | route (w : World ω) (i : ItemId) (outcome : StageOutcome)
  | runItem (w : World ω) (i : ItemId)
  | submit (w : World ω) (i : ItemId) (request : JobRequest)
  | completion (w : World ω) (handle : JobHandle) (result : JobResult) (auxiliary : Bool)
  | timerPark (now : ℚ) (i : ItemId) (delay : ℚ)
  | wakeTimers (now : ℚ)
  | handoff (i : ItemId) (target : StageName) (enter : Bool) (result : Option ItemResult)
  | drainPendingHandoffs
  | parkResumable (i : ItemId)
  /-- A turn of the drain of a queue, of the dispatch of implementation
  items, or of one of the two ways to drop one of those. -/
  | drain (w : World ω) (stage : StageName) (index : Nat)
  | dispatch (w : World ω) (i : ItemId)
  | finishSelected (i : ItemId) (passed : Bool) (reason : String)
  | deferSelected (w : World ω) (i : ItemId) (message : String)
  /-- The oldest repository cursor is done. -/
  | retireSource
  /-- A shutdown signal. -/
  | signal

/-- `_handoff_item` is called for items on their way through the pipeline:
never from the sink or back to `REPO`, and into the sink only to enter it with
a result. -/
def HandoffAllowed (s : Coordinator) (i : ItemId) (target : StageName) (enter : Bool)
    (result : Option ItemResult) : Prop :=
  s.InHand i ∧ s.stageOf i ≠ .finished ∧ target ≠ .repo ∧
    (target = .finished → enter = true ∧ result.isSome = true)

instance (s : Coordinator) (i : ItemId) (target : StageName) (enter : Bool)
    (result : Option ItemResult) : Decidable (HandoffAllowed s i target enter result) :=
  inferInstanceAs (Decidable (_ ∧ _ ∧ _ ∧ (_ → _)))

/-- `_submit` is called for an item in the sink only from its cleanup, which
comes after `RECORD`. -/
def SubmitAllowed (s : Coordinator) (i : ItemId) : Prop :=
  s.InHand i ∧ (s.stageOf i = .finished → (s.workItem i).payload.flag recordedKey = true)

instance (s : Coordinator) (i : ItemId) : Decidable (SubmitAllowed s i) :=
  inferInstanceAs (Decidable (_ ∧ (_ → _)))

variable {ω : Type} (host : Host ω)

/-- The state an operation leaves, whether it returned or raised. -/
def Coordinator.after {α : Type} (s : Coordinator) (x : Op α) : Coordinator := (x.exec s).2

/-- One step. `none` where the event cannot happen. -/
def Coordinator.step (s : Coordinator) : CoordinatorEvent ω → Option Coordinator
  | .push new deferIfFull =>
      some ((s.alloc new.item).after
        (pushItem host.config s.allocated new.item.stage true deferIfFull))
  | .claim stage index => some (s.after (claimItem stage index))
  | .restore i => if s.InHand i then some (s.after (restoreSourceLease i)) else none
  | .route w i outcome => if s.InHand i then some (s.after (route host w i outcome)) else none
  | .runItem w i => if s.InHand i then some (s.after (runItem host w i)) else none
  | .submit w i request =>
      if SubmitAllowed s i then some (s.after (submit host w i request)) else none
  | .completion w handle result auxiliary =>
      some (s.after (handleCompletion host w handle result auxiliary))
  | .timerPark now i delay =>
      if s.InHand i then some (s.after (timerPark now i delay)) else none
  | .wakeTimers now => some (s.after (wakeTimers host.config now))
  | .handoff i target enter result =>
      if HandoffAllowed s i target enter result then
        some (s.after (handoffItem host.config i target enter result))
      else none
  | .drainPendingHandoffs => some (s.after (drainPendingHandoffs host.config))
  | .parkResumable i =>
      if s.InHand i then some (s.after (parkResumable host.config i)) else none
  | .drain w stage index => some (s.after (drainOne host w stage index))
  | .dispatch w i => some (s.after (dispatchOne host w i))
  | .finishSelected i passed reason => some (s.after (finishSelected host i passed reason))
  | .deferSelected w i message => some (s.after (deferSelected host w i message))
  | .retireSource => some { s with repoIssueSources := s.repoIssueSources.tail }
  | .signal => some { s with shutdown := true }

end Hephaestus.Pipeline
