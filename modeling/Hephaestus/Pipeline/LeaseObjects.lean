import Hephaestus.Lib.Run
import Hephaestus.Pipeline.Queues

/-!
# Lease objects

The coordinator never keeps a lease past the call that ends it, so for it a
lease is a source, an item and a ticket (`Pipeline.Queues`). The class
promises more: whoever still has the object may call it again, and a lease
that has been restored, released, handed off or exchanged answers without
touching a queue. Here the objects are kept with their `_active` flag, all
that were ever made, in the order they were made: an object is its position,
and `self is peer` compares positions.

The queues and the objects change by calls, in any order, and the system's
events are these calls. `pop` is left out: nothing but tests calls it.
-/

namespace Hephaestus.Pipeline

open Hephaestus.Lib

/-- A `StageQueueLease` object. -/
structure LeaseObject (Q : Type) where
  lease : StageQueueLease Q
  active : Bool := true
  deriving DecidableEq, Repr

/-- The queues and the lease objects. -/
structure LeaseTable (Q : Type) where
  queues : Q → StageQueue
  objects : List (LeaseObject Q) := []

/-- A command over both. -/
abbrev TableCommand (Q α : Type) := Command (LeaseTable Q) PyError α

/-- The text of the internal error. -/
def ticketMismatch : PyError := runtimeError "StageQueue lease ticket mismatch"

/-- The error of a full queue. -/
def queueIsFull : PyError := ⟨.overflowError, "StageQueue is full"⟩

namespace LeaseTable

variable {Q : Type}

/-- `StageQueue(capacity)`, for every name, and no leases. -/
def initial (capacity : Q → { n : Nat // 0 < n }) : LeaseTable Q :=
  { queues := fun st => { capacity := capacity st, capacity_pos := (capacity st).property } }

/-- `self._active = False`. -/
def switchOff (t : LeaseTable Q) (k : Nat) : LeaseTable Q :=
  { t with objects := t.objects.modify k fun o => { o with active := false } }

variable [DecidableEq Q]

/-- A new object for a slot that was claimed, which left its queue as `q`. -/
def withLease (t : LeaseTable Q) (l : StageQueueLease Q) (q : StageQueue) : LeaseTable Q :=
  { queues := Function.update t.queues l.source q
    objects := t.objects ++ [⟨l, true⟩] }

/-- A method of the queues. -/
def onQueues {α : Type} (c : QueueCommand Q α) : TableCommand Q α := do
  let t ← get
  let r := c.exec t.queues
  set { t with queues := r.2 }
  Command.attempt r.1

/-- `offer`. -/
def offer (st : Q) (item : ItemId) : TableCommand Q Bool := do
  let t ← get
  match (t.queues st).offer item with
  | none => pure false
  | some q => do
      set { t with queues := Function.update t.queues st q }
      pure true

/-- `push`. -/
def push (st : Q) (item : ItemId) : TableCommand Q Unit := do
  if ← offer st item then pure () else throw queueIsFull

/-- `claim_at`: the new object, or `None`. -/
def claimAt (st : Q) (index : Int) : TableCommand Q (Option Nat) := do
  let t ← get
  if index < 0 then pure none
  else
    match (t.queues st).claimAt index.toNat with
    | none => pure none
    | some (q, item, ticket) => do
        set (t.withLease ⟨st, item, ticket⟩ q)
        pure (some t.objects.length)

/-- `StageQueueLease.restore`, called on the object `k`. -/
def restore (k : Nat) (self : LeaseObject Q) : TableCommand Q Unit :=
  if !self.active then pure ()
  else do
    onQueues self.lease.restore
    modify fun t => t.switchOff k

/-- `StageQueueLease.release`. -/
def release (k : Nat) (self : LeaseObject Q) : TableCommand Q Unit :=
  if !self.active then pure ()
  else do
    onQueues self.lease.release
    modify fun t => t.switchOff k

/-- `StageQueueLease.handoff`. -/
def handoff (k : Nat) (self : LeaseObject Q) (destination : Q) : TableCommand Q Bool :=
  if !self.active then pure false
  else do
    if ← onQueues (self.lease.handoff destination) then do
      modify fun t => t.switchOff k
      pure true
    else pure false

/-- `StageQueueLease.exchange`. -/
def exchange (k : Nat) (self : LeaseObject Q) (destination : Q) (k' : Nat)
    (peer : LeaseObject Q) (peerDestination : Q) : TableCommand Q Bool := do
  let t ← get
  if k = k' ∨ !self.active ∨ !peer.active ∨ destination ≠ peer.lease.source ∨
      peerDestination ≠ self.lease.source ∨
      !(t.queues self.lease.source).ownsLease self.lease.item self.lease.ticket ∨
      !(t.queues peer.lease.source).ownsLease peer.lease.item peer.lease.ticket then
    pure false
  else do
    onQueues (self.lease.replaceLease peer.lease.item)
    onQueues (peer.lease.replaceLease self.lease.item)
    modify fun t => t.switchOff k
    modify fun t => t.switchOff k'
    pure true

end LeaseTable

/-! ## The step system -/

/-- A call on a queue, or on a lease object. -/
inductive LeaseCall (Q : Type)
  | offer (st : Q) (item : ItemId)
  | push (st : Q) (item : ItemId)
  | claimAt (st : Q) (index : Int)
  | restore (k : Nat)
  | release (k : Nat)
  | handoff (k : Nat) (destination : Q)
  | exchange (k : Nat) (destination : Q) (peer : Nat) (peerDestination : Q)

/-- What a call returns. -/
inductive LeaseAnswer
  | nothing
  | bool (b : Bool)
  | object (k : Option Nat)
  deriving DecidableEq, Repr

namespace LeaseTable

variable {Q : Type} [DecidableEq Q] (t : LeaseTable Q)

/-- The command a call runs; `none` for an object that does not exist. -/
def command : LeaseCall Q → Option (TableCommand Q LeaseAnswer)
  | .offer st item => some (.bool <$> offer st item)
  | .push st item => some ((fun _ => .nothing) <$> push st item)
  | .claimAt st index => some (.object <$> claimAt st index)
  | .restore k => t.objects[k]?.map fun o => (fun _ => .nothing) <$> restore k o
  | .release k => t.objects[k]?.map fun o => (fun _ => .nothing) <$> release k o
  | .handoff k destination => t.objects[k]?.map fun o => .bool <$> handoff k o destination
  | .exchange k destination k' peerDestination =>
      t.objects[k]?.bind fun o => t.objects[k']?.map fun peer =>
        .bool <$> exchange k o destination k' peer peerDestination

/-- What a call ends with. -/
def answer (c : LeaseCall Q) : Option (Except PyError LeaseAnswer) :=
  (t.command c).map fun x => (x.exec t).1

/-- One call. What it wrote before it raised stays. -/
def step (c : LeaseCall Q) : Option (LeaseTable Q) :=
  (t.command c).map fun x => (x.exec t).2

end LeaseTable

end Hephaestus.Pipeline
