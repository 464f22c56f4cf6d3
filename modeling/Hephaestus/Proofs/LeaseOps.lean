import Mathlib.Data.List.Perm.Basic
import Hephaestus.Pipeline.Queues

/-!
# What the queue operations do

A proof about the coordinator never looks inside a queue. It asks four
questions of it: how often an item is ready, which ticket an item is leased
under, how many slots are taken, and how many there are. This module answers
them for every queue operation, and says what each lease method comes to
when the queue does own the lease, which is the only case that arises.
-/

namespace Hephaestus.Pipeline

open Hephaestus.Lib

namespace StageQueue

variable {q : StageQueue} {i j : ItemId}

/-! ## Ready slots -/

/-- How often an item is ready in a queue. -/
def readyCount (q : StageQueue) (i : ItemId) : Nat := q.snapshot.count i

@[simp] theorem readyCount_append :
    (q.append i).readyCount j = q.readyCount j + if i = j then 1 else 0 := by
  simp [readyCount, snapshot, append, List.count_singleton]

@[simp] theorem readyCount_dropLease : (q.dropLease i).readyCount j = q.readyCount j := rfl

@[simp] theorem readyCount_insertAtTicket {ticket : Nat} :
    (q.insertAtTicket ticket i).readyCount j = q.readyCount j + if i = j then 1 else 0 := by
  have hsplit := List.takeWhile_append_dropWhile
    (p := fun slot : Nat × ItemId => decide (¬ ticket < slot.1)) (l := q.items)
  simp only [readyCount, snapshot]
  conv_rhs => rw [← hsplit]
  simp only [insertAtTicket, List.map_append, List.map_cons, List.count_append,
    List.count_cons, beq_iff_eq]
  omega

theorem readyCount_lease {index : Nat} {slot : Nat × ItemId}
    (h : q.items[index]? = some slot) :
    (q.lease index slot).readyCount j + (if slot.2 = j then 1 else 0) = q.readyCount j := by
  obtain ⟨hlt, rfl⟩ := List.getElem?_eq_some_iff.mp h
  have hperm := List.getElem_cons_eraseIdx_perm hlt
  have hcount := (hperm.map Prod.snd).count_eq j
  simp only [List.map_cons, List.count_cons, beq_iff_eq] at hcount
  exact hcount

/-! ## Leased slots -/

@[simp] theorem leased_append : (q.append i).leased = q.leased := rfl

@[simp] theorem leased_insertAtTicket {ticket : Nat} :
    (q.insertAtTicket ticket i).leased = q.leased := rfl

@[simp] theorem leased_dropLease :
    (q.dropLease i).leased.get? j = if j = i then none else q.leased.get? j :=
  Dict.get?_erase _ _ _

@[simp] theorem leased_lease {index : Nat} {slot : Nat × ItemId} :
    (q.lease index slot).leased.get? j =
      if slot.2 = j then some slot.1 else q.leased.get? j :=
  Dict.get?_set _ _ _ _

/-! ## Room -/

/-- No queue holds more than it may. -/
def Fits (q : StageQueue) : Prop := q.occupancy ≤ q.capacity

theorem Fits.append (h : q.canOffer = true) : (q.append i).Fits := by
  have h := of_decide_eq_true h
  simp only [Fits, occupancy, StageQueue.append, List.length_append, List.length_singleton] at *
  omega

theorem Fits.dropLease (h : q.Fits) : (q.dropLease i).Fits := by
  have hle := List.length_filter_le (fun item : ItemId × Nat => decide (item.1 ≠ i)) q.leased
  simp only [Fits, occupancy, StageQueue.dropLease, Dict.erase] at *
  omega

/-- A lease that is given up makes room for one item. -/
theorem canOffer_dropLease {ticket : Nat} (h : q.Fits)
    (hl : q.leased.get? i = some ticket) : (q.dropLease i).canOffer = true := by
  have hlt := Dict.length_erase_lt hl
  refine decide_eq_true ?_
  simp only [Fits, occupancy, StageQueue.dropLease] at *
  omega

theorem Fits.insertAtTicket {ticket : Nat} (h : q.canOffer = true) :
    (q.insertAtTicket ticket i).Fits := by
  have h := of_decide_eq_true h
  have hsplit := congrArg List.length (List.takeWhile_append_dropWhile
    (p := fun slot : Nat × ItemId => decide (¬ ticket < slot.1)) (l := q.items))
  simp only [List.length_append] at hsplit
  simp only [Fits, occupancy, StageQueue.insertAtTicket, List.length_append,
    List.length_cons] at *
  omega

theorem Fits.lease {index : Nat} {slot : Nat × ItemId} (h : q.Fits)
    (hs : q.items[index]? = some slot) : (q.lease index slot).Fits := by
  obtain ⟨hlt, _⟩ := List.getElem?_eq_some_iff.mp hs
  have hset := Dict.length_set_le q.leased slot.2 slot.1
  simp only [Fits, occupancy, StageQueue.lease, List.length_eraseIdx, hlt, if_true] at *
  omega

/-- The room in a queue does not depend on the leases of others, only on how
many there are: offering elsewhere leaves it alone. -/
theorem offer_eq_some {r : StageQueue} (h : q.offer i = some r) :
    q.canOffer = true ∧ r = q.append i := by
  unfold offer at h
  split at h
  · next hc => exact ⟨hc, (Option.some.inj h).symm⟩
  · cases h

end StageQueue

/-! ## Lease methods -/

namespace StageQueueLease

open StageQueue Command

variable {Q : Type} [DecidableEq Q] {queues : Q → StageQueue} {l peer : StageQueueLease Q}

/-- The source queue has the lease on its books. -/
def Owned (queues : Q → StageQueue) (l : StageQueueLease Q) : Prop :=
  (queues l.source).leased.get? l.item = some l.ticket

/-- The queues after a lease is given up. -/
def released (queues : Q → StageQueue) (l : StageQueueLease Q) : Q → StageQueue :=
  Function.update queues l.source ((queues l.source).dropLease l.item)

/-- The queues after `item` took the slot a lease was holding. -/
def reinserted (queues : Q → StageQueue) (l : StageQueueLease Q) (item : ItemId) :
    Q → StageQueue :=
  Function.update queues l.source
    (((queues l.source).dropLease l.item).insertAtTicket l.ticket item)

/-- The queues after a leased item went to `destination`. -/
def handedOff (queues : Q → StageQueue) (l : StageQueueLease Q) (destination : Q) :
    Q → StageQueue :=
  released (Function.update queues destination ((queues destination).append l.item)) l

theorem exec_popLease (h : Owned queues l) :
    l.popLease.exec queues = (.ok (), released queues l) := by
  have hc : ¬ (queues l.source).leased.get? l.item ≠ some l.ticket := fun hne => hne h
  simp only [popLease, exec_bind, exec_get, exec_set, exec_attempt, raiseIf, if_neg hc, released]

theorem exec_release (h : Owned queues l) :
    l.release.exec queues = (.ok (), released queues l) := exec_popLease h

theorem exec_replaceLease (h : Owned queues l) (item : ItemId) :
    (l.replaceLease item).exec queues = (.ok (), reinserted queues l item) := by
  unfold replaceLease
  rw [exec_bind, exec_popLease h]
  simp only [exec_modify, released, reinserted, Function.update_self, Function.update_idem]

theorem exec_restore (h : Owned queues l) :
    l.restore.exec queues = (.ok (), reinserted queues l l.item) :=
  exec_replaceLease h l.item

/-! ### What the queues say afterwards -/

variable {st d : Q} {j item : ItemId}

theorem readyCount_released : (released queues l st).readyCount j = (queues st).readyCount j := by
  unfold released
  by_cases h : st = l.source
  · subst h
    simp
  · rw [Function.update_of_ne h]

theorem leased_released :
    (released queues l st).leased.get? j =
      if j = l.item ∧ st = l.source then none else (queues st).leased.get? j := by
  unfold released
  by_cases h : st = l.source
  · subst h
    simp
  · rw [Function.update_of_ne h, if_neg fun hc => h hc.2]

theorem readyCount_reinserted :
    (reinserted queues l item st).readyCount j =
      (queues st).readyCount j + if item = j ∧ st = l.source then 1 else 0 := by
  unfold reinserted
  by_cases h : st = l.source
  · subst h
    simp
  · rw [Function.update_of_ne h, if_neg fun hc => h hc.2, Nat.add_zero]

theorem leased_reinserted :
    (reinserted queues l item st).leased.get? j =
      if j = l.item ∧ st = l.source then none else (queues st).leased.get? j := by
  unfold reinserted
  by_cases h : st = l.source
  · subst h
    simp
  · rw [Function.update_of_ne h, if_neg fun hc => h hc.2]

theorem readyCount_offered :
    (Function.update queues d ((queues d).append item) st).readyCount j =
      (queues st).readyCount j + if item = j ∧ st = d then 1 else 0 := by
  by_cases h : st = d
  · subst h
    simp
  · rw [Function.update_of_ne h, if_neg fun hc => h hc.2, Nat.add_zero]

theorem leased_offered :
    (Function.update queues d ((queues d).append item) st).leased = (queues st).leased := by
  by_cases h : st = d
  · subst h
    simp
  · rw [Function.update_of_ne h]

theorem readyCount_handedOff :
    (handedOff queues l d st).readyCount j =
      (queues st).readyCount j + if l.item = j ∧ st = d then 1 else 0 := by
  rw [handedOff, readyCount_released, readyCount_offered]

theorem leased_handedOff :
    (handedOff queues l d st).leased.get? j =
      if j = l.item ∧ st = l.source then none else (queues st).leased.get? j := by
  rw [handedOff, leased_released, leased_offered]

theorem readyCount_claimed {index : Nat} {slot : Nat × ItemId}
    (h : (queues d).items[index]? = some slot) :
    (Function.update queues d ((queues d).lease index slot) st).readyCount j +
      (if slot.2 = j ∧ st = d then 1 else 0) = (queues st).readyCount j := by
  by_cases hst : st = d
  · subst hst
    simpa using readyCount_lease h
  · rw [Function.update_of_ne hst, if_neg fun hc => hst hc.2, Nat.add_zero]

theorem leased_claimed {index : Nat} {slot : Nat × ItemId} :
    (Function.update queues d ((queues d).lease index slot) st).leased.get? j =
      if slot.2 = j ∧ st = d then some slot.1 else (queues st).leased.get? j := by
  by_cases hst : st = d
  · subst hst
    simp
  · rw [Function.update_of_ne hst, if_neg fun hc => hst hc.2]

/-! ### Nothing overflows -/

theorem released_fits (h : ∀ st, (queues st).Fits) : (released queues l st).Fits := by
  unfold released
  by_cases hs : st = l.source
  · subst hs
    simpa using (h l.source).dropLease
  · simpa [Function.update_of_ne hs] using h st

theorem reinserted_fits (h : ∀ st, (queues st).Fits) (ho : Owned queues l) :
    (reinserted queues l item st).Fits := by
  unfold reinserted
  by_cases hs : st = l.source
  · subst hs
    simpa using Fits.insertAtTicket (canOffer_dropLease (h l.source) ho)
  · simpa [Function.update_of_ne hs] using h st

theorem offered_fits (h : ∀ st, (queues st).Fits) (hc : (queues d).canOffer = true) :
    (Function.update queues d ((queues d).append item) st).Fits := by
  by_cases hs : st = d
  · subst hs
    simpa using Fits.append hc
  · simpa [Function.update_of_ne hs] using h st

theorem handedOff_fits (h : ∀ st, (queues st).Fits) (hc : (queues d).canOffer = true) :
    (handedOff queues l d st).Fits :=
  released_fits fun _ => offered_fits h hc

/-! ### Methods that can refuse -/

/-- A lease is not affected by what is offered to a queue. -/
theorem Owned.offered {destination : Q} (h : Owned queues l) (item : ItemId) :
    Owned (Function.update queues destination ((queues destination).append item)) l := by
  unfold Owned at *
  by_cases hs : l.source = destination
  · subst hs
    simpa using h
  · simpa [Function.update_of_ne hs] using h

theorem exec_handoff (h : Owned queues l) (destination : Q) :
    (l.handoff destination).exec queues =
      if (queues destination).canOffer then (.ok true, handedOff queues l destination)
      else (.ok false, queues) := by
  unfold handoff
  rw [exec_bind, exec_get]
  by_cases hc : (queues destination).canOffer = true
  · have ho : (queues destination).offer l.item = some ((queues destination).append l.item) := by
      rw [offer, if_pos hc]
    simp only [ho, exec_bind, exec_set, exec_popLease (h.offered l.item), exec_pure, if_pos hc]
    rfl
  · have ho : (queues destination).offer l.item = none := by rw [offer, if_neg hc]
    simp only [ho, exec_pure, if_neg hc]

/-- The queues after two complementary leases changed places. -/
def exchanged (queues : Q → StageQueue) (l peer : StageQueueLease Q) : Q → StageQueue :=
  reinserted (reinserted queues l peer.item) peer l.item

/-- Another item's lease survives when a slot changes hands. -/
theorem Owned.reinserted (h : Owned queues peer) (hne : peer.item ≠ l.item) (item : ItemId) :
    Owned (reinserted queues l item) peer := by
  unfold Owned StageQueueLease.reinserted at *
  by_cases hs : peer.source = l.source
  · rw [hs] at h
    simp [hs, hne, h]
  · simpa [Function.update_of_ne hs] using h

theorem exec_exchange (hl : Owned queues l) (hp : Owned queues peer)
    (hne : l.item ≠ peer.item) :
    (l.exchange peer.source peer l.source).exec queues =
      (.ok true, exchanged queues l peer) := by
  have hguard : ¬ (l.item = peer.item ∨ peer.source ≠ peer.source ∨ l.source ≠ l.source ∨
      ¬ (queues l.source).ownsLease l.item l.ticket = true ∨
      ¬ (queues peer.source).ownsLease peer.item peer.ticket = true) := by
    unfold Owned at hl hp
    simp [hne, ownsLease, hl, hp]
  have hpeer := hp.reinserted hne.symm peer.item (l := l)
  unfold exchange
  rw [exec_bind, exec_get]
  simp only [if_neg hguard]
  rw [exec_bind, exec_replaceLease hl]
  simp only [exec_bind, exec_replaceLease hpeer, exec_pure]
  rfl

end StageQueueLease

end Hephaestus.Pipeline
