import Mathlib.Logic.Function.Basic
import Hephaestus.Lib.Command
import Hephaestus.Lib.Dict

/-!
# Stage queues and leases

`hephaestus/automation/pipeline/queues.py`. A queue has ready slots, in the
order of their tickets, and leased ones; both count against its capacity. A
claim turns a ready slot into a lease that remembers the ticket, so that
whoever holds it can put the item back exactly where it was, hand it to
another queue, swap it with the holder of a complementary lease, or drop it.

The queues are a family over an arbitrary type of names, and a lease method
is a command over the whole family, since a handoff touches two of them. A
lease object switches itself off when it is restored, handed off, exchanged
or released, and no caller keeps one past that point: the active leases are
the ones somebody still holds, and the flag itself is not modelled.
-/

namespace Hephaestus.Pipeline

open Hephaestus.Lib

/-- The identity of a work item: `id(item)`. -/
abbrev ItemId := Nat

/-- The exception classes some handler tells apart. -/
inductive PyErrorKind
  | osError
  | runtimeError
  | typeError
  | valueError
  | keyError
  | overflowError
  | assertionError
  | other
  deriving DecidableEq, Repr

/-- An exception: its class and `str(exc)`. -/
structure PyError where
  kind : PyErrorKind
  message : String
  deriving DecidableEq, Repr

def runtimeError (message : String) : PyError := ⟨.runtimeError, message⟩

/-- `StageQueue`: `items` are the ready slots with their tickets. The
constructor rejects a capacity that is not positive. -/
structure StageQueue where
  capacity : Nat
  capacity_pos : 0 < capacity
  items : List (Nat × ItemId) := []
  leased : Dict ItemId Nat := []
  nextTicket : Nat := 0

namespace StageQueue

def occupancy (q : StageQueue) : Nat := q.items.length + q.leased.length

/-- `snapshot`. -/
def snapshot (q : StageQueue) : List ItemId := q.items.map Prod.snd

/-- `can_offer`. -/
def canOffer (q : StageQueue) : Bool := decide (q.occupancy < q.capacity)

/-- `offer`, when there is room. -/
def append (q : StageQueue) (item : ItemId) : StageQueue :=
  { q with items := q.items ++ [(q.nextTicket, item)], nextTicket := q.nextTicket + 1 }

/-- `offer`: `none` where it returns `False`. -/
def offer (q : StageQueue) (item : ItemId) : Option StageQueue :=
  if q.canOffer then some (q.append item) else none

/-- The queue `claim_at` leaves when `slot` is the ready slot at `index`. -/
def lease (q : StageQueue) (index : Nat) (slot : Nat × ItemId) : StageQueue :=
  { q with items := q.items.eraseIdx index, leased := q.leased.set slot.2 slot.1 }

/-- `claim_at`: the queue, and the item and ticket of the lease. -/
def claimAt (q : StageQueue) (index : Nat) : Option (StageQueue × ItemId × Nat) :=
  (q.items[index]?).map fun slot => (q.lease index slot, slot.2, slot.1)

/-- `_insert_at_ticket`: before the first ready slot with a larger ticket. -/
def insertAtTicket (q : StageQueue) (ticket : Nat) (item : ItemId) : StageQueue :=
  let older := fun slot : Nat × ItemId => decide (¬ ticket < slot.1)
  { q with items := q.items.takeWhile older ++ (ticket, item) :: q.items.dropWhile older }

/-- `_leased.pop(id(item), None)`, the queue it leaves. -/
def dropLease (q : StageQueue) (item : ItemId) : StageQueue :=
  { q with leased := q.leased.erase item }

/-- `_owns_lease`. -/
def ownsLease (q : StageQueue) (item : ItemId) (ticket : Nat) : Bool :=
  decide (q.leased.get? item = some ticket)

end StageQueue

/-- `StageQueueLease`. -/
structure StageQueueLease (Q : Type) where
  source : Q
  item : ItemId
  ticket : Nat
  deriving DecidableEq, Repr

/-- A command over the family of queues. -/
abbrev QueueCommand (Q α : Type) := Command (Q → StageQueue) PyError α

namespace StageQueueLease

variable {Q : Type} [DecidableEq Q]

/-- The common start of `_restore_lease`, `_replace_lease` and
`_release_lease`: the slot is gone from the leased ones before the ticket is
compared. -/
def popLease (l : StageQueueLease Q) : QueueCommand Q Unit := do
  let queues ← get
  let q := queues l.source
  set (Function.update queues l.source (q.dropLease l.item))
  Command.attempt (raiseIf (q.leased.get? l.item ≠ some l.ticket)
    (runtimeError "StageQueue lease ticket mismatch"))

/-- `_replace_lease`: `item` gets the ready slot at the lease's ticket. -/
def replaceLease (l : StageQueueLease Q) (item : ItemId) : QueueCommand Q Unit := do
  l.popLease
  modify fun queues =>
    Function.update queues l.source ((queues l.source).insertAtTicket l.ticket item)

/-- `StageQueueLease.restore`: `_restore_lease` puts back the item itself. -/
def restore (l : StageQueueLease Q) : QueueCommand Q Unit := l.replaceLease l.item

/-- `StageQueueLease.handoff`: the destination admits the item before the
source lets go of it. -/
def handoff (l : StageQueueLease Q) (destination : Q) : QueueCommand Q Bool := do
  let queues ← get
  match (queues destination).offer l.item with
  | none => pure false
  | some q => do
      set (Function.update queues destination q)
      l.popLease
      pure true

/-- `StageQueueLease.exchange`. -/
def exchange (l : StageQueueLease Q) (destination : Q) (peer : StageQueueLease Q)
    (peerDestination : Q) : QueueCommand Q Bool := do
  let queues ← get
  if l.item = peer.item ∨ destination ≠ peer.source ∨ peerDestination ≠ l.source ∨
      ¬ (queues l.source).ownsLease l.item l.ticket ∨
      ¬ (queues peer.source).ownsLease peer.item peer.ticket then
    pure false
  else do
    l.replaceLease peer.item
    peer.replaceLease l.item
    pure true

/-- `StageQueueLease.release`. -/
def release (l : StageQueueLease Q) : QueueCommand Q Unit := l.popLease

end StageQueueLease

end Hephaestus.Pipeline
