import Hephaestus.Pipeline.LeaseObjects
import Hephaestus.Proofs.QueueOrder

/-!
# Queues and leases under any calls

Any number of queues, any number of lease objects, and any calls on them in
any order, on objects that have long been used up too. Nothing goes wrong as
long as nobody offers an item that a queue or a lease still has:
`queue_leases_represent` collects what holds in every state reached and of
every call made.

Each call either changes nothing or does one of seven things (`Effect`). In
terms of where the items are, these seven are alike: some places are vacated,
and whoever was there may stand in a new one (`once_of_moved`). The internal
error of the queue would need an active lease object whose slot is not on its
queue's books, and there is none.
-/

namespace Hephaestus.Pipeline

open Hephaestus.Lib Command

variable {Q : Type}

/-! ## Places -/

/-- Where an item can be: a ready slot of a queue, named by its ticket, or a
lease object. -/
inductive Place (Q : Type)
  | ready (st : Q) (ticket : Nat)
  | lease (k : Nat)

namespace LeaseTable

/-- The object `k` is an active lease. -/
def Active (t : LeaseTable Q) (k : Nat) (l : StageQueueLease Q) : Prop :=
  t.objects[k]? = some ⟨l, true⟩

/-- The item is at that place. -/
def At (t : LeaseTable Q) (i : ItemId) : Place Q → Prop
  | .ready st ticket => (ticket, i) ∈ (t.queues st).items
  | .lease k => ∃ l, t.Active k l ∧ l.item = i

/-- How many active leases a queue has. -/
def activeLeases [DecidableEq Q] (t : LeaseTable Q) (st : Q) : Nat :=
  t.objects.countP fun o => o.active && decide (o.lease.source = st)

end LeaseTable

/-- No item is in two places. -/
def Once (places : ItemId → Place Q → Prop) : Prop :=
  ∀ i p p', places i p → places i p' → p = p'

/-- Places are vacated and items put into new ones. An item that gets a new
place had none that is kept. -/
theorem once_of_moved {places places' : ItemId → Place Q → Prop} (gone : Place Q → Prop)
    (new : ItemId → Place Q → Prop) (h : Once places)
    (hmoved : ∀ i p, places' i p → places i p ∧ ¬ gone p ∨ new i p)
    (hnew : Once new) (hgone : ∀ i p, new i p → ∀ p', places i p' → gone p') : Once places' := by
  intro i p p' hp hp'
  rcases hmoved i p hp with ⟨hold, hkeep⟩ | hfresh
  · rcases hmoved i p' hp' with ⟨hold', _⟩ | hfresh'
    · exact h i p p' hold hold'
    · exact absurd (hgone i p' hfresh' p hold) hkeep
  · rcases hmoved i p' hp' with ⟨hold', hkeep'⟩ | hfresh'
    · exact absurd (hgone i p hfresh p' hold') hkeep'
    · exact hnew i p p' hfresh hfresh'

/-! ## The seven effects -/

namespace LeaseTable

variable [DecidableEq Q]

/-- An item is appended to a queue. -/
def offered (t : LeaseTable Q) (st : Q) (item : ItemId) : LeaseTable Q :=
  { t with queues := Function.update t.queues st ((t.queues st).append item) }

/-- `item` gets the ready slot a lease was holding. -/
def reslotted (t : LeaseTable Q) (l : StageQueueLease Q) (item : ItemId) : LeaseTable Q :=
  { t with queues := StageQueueLease.reinserted t.queues l item }

/-- The slot of a lease is given up. -/
def dropped (t : LeaseTable Q) (l : StageQueueLease Q) : LeaseTable Q :=
  { t with queues := StageQueueLease.released t.queues l }

def restored (t : LeaseTable Q) (k : Nat) (l : StageQueueLease Q) : LeaseTable Q :=
  (t.reslotted l l.item).switchOff k

def released (t : LeaseTable Q) (k : Nat) (l : StageQueueLease Q) : LeaseTable Q :=
  (t.dropped l).switchOff k

def handedOff (t : LeaseTable Q) (k : Nat) (l : StageQueueLease Q) (destination : Q) :
    LeaseTable Q :=
  ((t.offered destination l.item).dropped l).switchOff k

def exchanged (t : LeaseTable Q) (k : Nat) (l : StageQueueLease Q) (k' : Nat)
    (peer : StageQueueLease Q) : LeaseTable Q :=
  (((t.reslotted l peer.item).reslotted peer l.item).switchOff k).switchOff k'

end LeaseTable

/-- What a call can do, and what it answers then. -/
inductive Effect [DecidableEq Q] (t : LeaseTable Q) :
    LeaseCall Q → Except PyError LeaseAnswer → LeaseTable Q → Prop
  /-- A full queue. -/
  | refused (st : Q) (item : ItemId) : Effect t (.offer st item) (.ok (.bool false)) t
  | overflow (st : Q) (item : ItemId) : Effect t (.push st item) (.error queueIsFull) t
  | empty (st : Q) (index : Int) : Effect t (.claimAt st index) (.ok (.object none)) t
  /-- The lease was used up before. -/
  | restoredBefore (k : Nat) (h : ∀ l, ¬ t.Active k l) : Effect t (.restore k) (.ok .nothing) t
  | releasedBefore (k : Nat) (h : ∀ l, ¬ t.Active k l) : Effect t (.release k) (.ok .nothing) t
  /-- A destination without room, or a lease that was used up before. -/
  | keptBack (k : Nat) (destination : Q) :
      Effect t (.handoff k destination) (.ok (.bool false)) t
  /-- Leases that do not fit together. -/
  | unmatched (k : Nat) (destination : Q) (k' : Nat) (peerDestination : Q) :
      Effect t (.exchange k destination k' peerDestination) (.ok (.bool false)) t
  | offered {st : Q} {item : ItemId} (room : (t.queues st).canOffer = true) :
      Effect t (.offer st item) (.ok (.bool true)) (t.offered st item)
  | pushed {st : Q} {item : ItemId} (room : (t.queues st).canOffer = true) :
      Effect t (.push st item) (.ok .nothing) (t.offered st item)
  | claimed {st : Q} {index : Int} {slot : Nat × ItemId}
      (hslot : (t.queues st).items[index.toNat]? = some slot) :
      Effect t (.claimAt st index) (.ok (.object (some t.objects.length)))
        (t.withLease ⟨st, slot.2, slot.1⟩ ((t.queues st).lease index.toNat slot))
  | restored {k : Nat} {l : StageQueueLease Q} (h : t.Active k l) :
      Effect t (.restore k) (.ok .nothing) (t.restored k l)
  | released {k : Nat} {l : StageQueueLease Q} (h : t.Active k l) :
      Effect t (.release k) (.ok .nothing) (t.released k l)
  | handedOff {k : Nat} {l : StageQueueLease Q} {destination : Q} (h : t.Active k l)
      (room : (t.queues destination).canOffer = true) :
      Effect t (.handoff k destination) (.ok (.bool true)) (t.handedOff k l destination)
  | exchanged {k k' : Nat} {l peer : StageQueueLease Q} (h : t.Active k l)
      (h' : t.Active k' peer) (hne : k ≠ k') :
      Effect t (.exchange k peer.source k' l.source) (.ok (.bool true))
        (t.exchanged k l k' peer)

/-! ## The books

What a queue knows of its leases is a dictionary from items to tickets. The
lease objects and these dictionaries say the same. -/

/-- The leased slots of every queue. -/
def LeaseTable.leased (t : LeaseTable Q) (st : Q) : Dict ItemId Nat := (t.queues st).leased

structure Booked [DecidableEq Q] (leased : Q → Dict ItemId Nat) (t : LeaseTable Q) : Prop where
  keys : ∀ st, ((leased st).map Prod.fst).Nodup
  owned : ∀ {k l}, t.Active k l → (leased l.source).get? l.item = some l.ticket
  backed : ∀ {st i ticket}, (leased st).get? i = some ticket → ∃ k, t.Active k ⟨st, i, ticket⟩
  counted : ∀ st, (leased st).length = t.activeLeases st
  single : ∀ {j k l m}, t.Active j l → t.Active k m → l.item = m.item → j = k

section Books

variable {t : LeaseTable Q} {k j : Nat} {l m : StageQueueLease Q}

theorem active_switchOff : (t.switchOff k).Active j m ↔ j ≠ k ∧ t.Active j m := by
  unfold LeaseTable.Active LeaseTable.switchOff
  rw [List.getElem?_modify]
  by_cases hj : k = j
  · subst hj
    simp only [if_true, ne_eq, not_true_eq_false, false_and, iff_false]
    intro h
    obtain ⟨o, _, ho⟩ := Option.map_eq_some_iff.mp h
    exact Bool.noConfusion (congrArg LeaseObject.active ho)
  · simp [hj, Ne.symm hj]

theorem used_up (hk : t.objects[k]? = some ⟨l, false⟩) (m : StageQueueLease Q) :
    ¬ t.Active k m := by
  rw [LeaseTable.Active, hk]
  exact nofun

/-- The places left after a lease was switched off. -/
theorem at_switchOff {i : ItemId} {p : Place Q} :
    (t.switchOff k).At i p ↔ t.At i p ∧ p ≠ .lease k := by
  cases p with
  | ready st ticket => exact (and_iff_left nofun).symm
  | lease j =>
      simp only [LeaseTable.At, active_switchOff, ne_eq, Place.lease.injEq]
      constructor
      · rintro ⟨m, ⟨hne, hm⟩, hitem⟩
        exact ⟨⟨m, hm, hitem⟩, hne⟩
      · rintro ⟨⟨m, hm, hitem⟩, hne⟩
        exact ⟨m, ⟨hne, hm⟩, hitem⟩

/-- One object is changed: the count changes by what it counted before and
counts now. -/
theorem countP_modify {α : Type} {p : α → Bool} {f : α → α} {objects : List α} {k : Nat} {o : α}
    (h : objects[k]? = some o) :
    (objects.modify k f).countP p + (p o).toNat = objects.countP p + (p (f o)).toNat := by
  induction objects generalizing k with
  | nil => cases h
  | cons first rest ih =>
      cases k with
      | zero =>
          obtain rfl := Option.some.inj h
          rw [List.modify_zero_cons, List.countP_cons, List.countP_cons]
          cases p first <;> cases p (f first) <;> simp
      | succ k =>
          have hrest := ih (k := k) h
          rw [List.modify_succ_cons, List.countP_cons, List.countP_cons]
          omega

theorem exec_onQueues {α : Type} (c : QueueCommand Q α) :
    (LeaseTable.onQueues c).exec t =
      ((c.exec t.queues).1, { t with queues := (c.exec t.queues).2 }) := rfl

variable [DecidableEq Q] {leased : Q → Dict ItemId Nat}

/-- A lease that is switched off is one active lease of its source less. -/
theorem activeLeases_switchOff (h : t.Active k l) (st : Q) :
    (t.switchOff k).activeLeases st + (if st = l.source then 1 else 0) = t.activeLeases st := by
  have hcount := countP_modify (p := fun o => o.active && decide (o.lease.source = st))
    (f := fun o : LeaseObject Q => { o with active := false }) h
  unfold LeaseTable.activeLeases LeaseTable.switchOff
  by_cases hst : st = l.source
  · simpa [hst] using hcount
  · simpa [hst, Ne.symm hst] using hcount

/-- A lease ends: its slot goes and its object is switched off. -/
theorem Booked.drop (h : Booked leased t) (hl : t.Active k l) :
    Booked (Function.update leased l.source ((leased l.source).erase l.item)) (t.switchOff k) where
  keys := by
    intro st
    by_cases hst : st = l.source
    · subst hst
      rw [Function.update_self]
      exact Dict.nodup_erase (h.keys _) _
    · rw [Function.update_of_ne hst]
      exact h.keys st
  owned := by
    intro j m hm
    obtain ⟨hne, hm⟩ := active_switchOff.mp hm
    have hitem : m.item ≠ l.item := fun heq => hne (h.single hm hl heq)
    by_cases hst : m.source = l.source
    · rw [hst, Function.update_self, Dict.get?_erase, if_neg hitem, ← hst]
      exact h.owned hm
    · rw [Function.update_of_ne hst]
      exact h.owned hm
  backed := by
    intro st i ticket hget
    have hold : (leased st).get? i = some ticket ∧ ¬ (st = l.source ∧ i = l.item) := by
      by_cases hst : st = l.source
      · subst hst
        rw [Function.update_self, Dict.get?_erase] at hget
        split at hget
        · cases hget
        · next hi => exact ⟨hget, fun hc => hi hc.2⟩
      · rw [Function.update_of_ne hst] at hget
        exact ⟨hget, fun hc => hst hc.1⟩
    obtain ⟨j, hj⟩ := h.backed hold.1
    refine ⟨j, active_switchOff.mpr ⟨fun hjk => hold.2 ?_, hj⟩⟩
    subst hjk
    unfold LeaseTable.Active at hj hl
    rw [hj] at hl
    cases hl
    exact ⟨rfl, rfl⟩
  counted := by
    intro st
    have hoff := activeLeases_switchOff hl st
    have hcount := h.counted st
    by_cases hst : st = l.source
    · subst hst
      have herase := Dict.length_erase (h.keys _) (h.owned hl)
      rw [Function.update_self]
      rw [if_pos rfl] at hoff
      omega
    · rw [Function.update_of_ne hst, hcount, ← hoff, if_neg hst]
      rfl
  single := by
    intro j j' m m' hj hj' hitem
    exact h.single (active_switchOff.mp hj).2 (active_switchOff.mp hj').2 hitem

/-- A new object comes last. -/
theorem active_withLease {q : StageQueue} :
    (t.withLease l q).Active j m ↔ t.Active j m ∨ j = t.objects.length ∧ m = l := by
  unfold LeaseTable.Active LeaseTable.withLease
  rw [List.getElem?_append]
  split
  · next hlt => simp [hlt.ne]
  · next hge =>
      have hnone : t.objects[j]? = none := List.getElem?_eq_none (Nat.not_lt.mp hge)
      rw [hnone]
      by_cases hj : j = t.objects.length
      · subst hj
        simp [eq_comm]
      · have hout : [(⟨l, true⟩ : LeaseObject Q)][j - t.objects.length]? = none :=
          List.getElem?_eq_none (by simp only [List.length_singleton]; omega)
        simp [hout, hj]

/-- A lease begins, on an item that was under none. -/
theorem Booked.take {q : StageQueue} (h : Booked leased t)
    (hfree : ∀ j m, t.Active j m → m.item ≠ l.item) :
    Booked (Function.update leased l.source ((leased l.source).set l.item l.ticket))
      (t.withLease l q) where
  keys := by
    intro st
    by_cases hst : st = l.source
    · subst hst
      rw [Function.update_self]
      exact Dict.nodup_set (h.keys _) _ _
    · rw [Function.update_of_ne hst]
      exact h.keys st
  owned := by
    intro j m hm
    rcases active_withLease.mp hm with hm | ⟨_, rfl⟩
    · by_cases hst : m.source = l.source
      · rw [hst, Function.update_self, Dict.get?_set_ne _ _ (hfree j m hm).symm, ← hst]
        exact h.owned hm
      · rw [Function.update_of_ne hst]
        exact h.owned hm
    · rw [Function.update_self, Dict.get?_set_self]
  backed := by
    intro st i ticket hget
    by_cases hst : st = l.source
    · subst hst
      rw [Function.update_self, Dict.get?_set] at hget
      split at hget
      · next hi =>
          obtain rfl := Option.some.inj hget
          exact ⟨_, active_withLease.mpr (.inr ⟨rfl, by rw [← hi]⟩)⟩
      · obtain ⟨j, hj⟩ := h.backed hget
        exact ⟨j, active_withLease.mpr (.inl hj)⟩
    · rw [Function.update_of_ne hst] at hget
      obtain ⟨j, hj⟩ := h.backed hget
      exact ⟨j, active_withLease.mpr (.inl hj)⟩
  counted := by
    intro st
    have hnew : (t.withLease l q).activeLeases st =
        t.activeLeases st + if st = l.source then 1 else 0 := by
      unfold LeaseTable.activeLeases LeaseTable.withLease
      rw [List.countP_append, List.countP_singleton]
      simp [eq_comm]
    rw [hnew, ← h.counted st]
    by_cases hst : st = l.source
    · subst hst
      have hfresh : l.item ∉ (leased l.source).map Prod.fst := by
        intro hmem
        obtain ⟨⟨i, ticket⟩, hitem, rfl⟩ := List.mem_map.mp hmem
        obtain ⟨j, hj⟩ := h.backed (Dict.get?_of_mem (h.keys _) hitem)
        exact hfree j _ hj rfl
      rw [Function.update_self, Dict.set_of_new _ _ hfresh, if_pos rfl, List.length_append]
      rfl
    · rw [Function.update_of_ne hst, if_neg hst]
      rfl
  single := by
    intro j j' m m' hj hj' hitem
    rcases active_withLease.mp hj with hm | ⟨rfl, rfl⟩
    · rcases active_withLease.mp hj' with hm' | ⟨_, rfl⟩
      · exact h.single hm hm' hitem
      · exact absurd hitem (hfree j m hm)
    · rcases active_withLease.mp hj' with hm' | ⟨rfl, _⟩
      · exact absurd hitem.symm (hfree j' m' hm')
      · rfl

end Books

/-! ## The invariant -/

/-- What holds of the queues and the objects between two calls. -/
structure LeaseTable.Kept [DecidableEq Q] (t : LeaseTable Q) : Prop where
  ordered : ∀ st, (t.queues st).Ordered
  fits : ∀ st, (t.queues st).Fits
  booked : Booked t.leased t
  once : Once t.At

section Effects

variable [DecidableEq Q] {t t' : LeaseTable Q} {k k' : Nat} {l peer : StageQueueLease Q}
  {queues : Q → StageQueue}

theorem LeaseTable.Kept.owned (h : t.Kept) (hl : t.Active k l) : l.Owned t.queues :=
  h.booked.owned hl

theorem ordered_update {q : StageQueue} {d : Q} (h : ∀ st, (queues st).Ordered)
    (hq : q.Ordered) (st : Q) : (Function.update queues d q st).Ordered := by
  by_cases hst : st = d
  · subst hst
    rwa [Function.update_self]
  · rw [Function.update_of_ne hst]
    exact h st

theorem fits_update {q : StageQueue} {d : Q} (h : ∀ st, (queues st).Fits)
    (hq : q.Fits) (st : Q) : (Function.update queues d q st).Fits := by
  by_cases hst : st = d
  · subst hst
    rwa [Function.update_self]
  · rw [Function.update_of_ne hst]
    exact h st

/-- The leased slots after one queue was written. -/
theorem leased_update {q : StageQueue} {d : Q} :
    (fun st => (Function.update queues d q st).leased) =
      Function.update (fun st => (queues st).leased) d q.leased := by
  funext st
  by_cases hst : st = d
  · subst hst
    rw [Function.update_self, Function.update_self]
  · rw [Function.update_of_ne hst, Function.update_of_ne hst]

/-- Nothing is leased or given up where an item is appended. -/
theorem leased_update_append {item : ItemId} {d : Q} :
    (fun st => (Function.update queues d ((queues d).append item) st).leased) =
      fun st => (queues st).leased := by
  rw [leased_update]
  exact Function.update_eq_self d fun st => (queues st).leased

theorem mem_update {q : StageQueue} {d st : Q} {slot : Nat × ItemId} :
    slot ∈ (Function.update queues d q st).items ↔
      if st = d then slot ∈ q.items else slot ∈ (queues st).items := by
  by_cases hst : st = d
  · subst hst
    rw [Function.update_self, if_pos rfl]
  · rw [Function.update_of_ne hst, if_neg hst]

theorem mem_append_items {q : StageQueue} {item : ItemId} {slot : Nat × ItemId} :
    slot ∈ (q.append item).items ↔ slot ∈ q.items ∨ slot = (q.nextTicket, item) := by
  simp [StageQueue.append]

theorem mem_insertAtTicket {q : StageQueue} {ticket : Nat} {item : ItemId} {slot : Nat × ItemId} :
    slot ∈ (q.insertAtTicket ticket item).items ↔ slot ∈ q.items ∨ slot = (ticket, item) := by
  have hsplit := List.takeWhile_append_dropWhile
    (p := fun slot : Nat × ItemId => decide (¬ ticket < slot.1)) (l := q.items)
  conv_rhs => rw [← hsplit]
  simp only [StageQueue.insertAtTicket, List.mem_append, List.mem_cons]
  tauto

theorem mem_lease_items {q : StageQueue} {index : Nat} {slot other : Nat × ItemId} (h : q.Ordered)
    (hslot : q.items[index]? = some slot) :
    other ∈ (q.lease index slot).items ↔ other ∈ q.items ∧ other.1 ≠ slot.1 := by
  obtain ⟨hlt, rfl⟩ := List.getElem?_eq_some_iff.mp hslot
  have hperm := List.getElem_cons_eraseIdx_perm hlt
  have hnodup : (q.items.map Prod.fst).Nodup :=
    List.Pairwise.map _ (fun a b hab => Nat.ne_of_lt hab) h.sorted
  -- tickets do not repeat, so the claimed slot is not among the others
  have hcons := (hperm.map Prod.fst).nodup_iff.mpr hnodup
  have hfresh := (List.nodup_cons.mp hcons).1
  constructor
  · intro hmem
    exact ⟨List.mem_of_mem_eraseIdx hmem, fun heq => hfresh (List.mem_map.mpr ⟨other, hmem, heq⟩)⟩
  · rintro ⟨hmem, hne⟩
    rcases List.mem_cons.mp (hperm.mem_iff.mpr hmem) with rfl | hrest
    · exact absurd rfl hne
    · exact hrest

/-! ### Where the items are afterwards -/

variable {i item : ItemId} {p : Place Q}

theorem at_offered {st : Q} : (t.offered st item).At i p ↔
    t.At i p ∨ i = item ∧ p = .ready st (t.queues st).nextTicket := by
  cases p with
  | lease j => simp [LeaseTable.At, LeaseTable.offered, LeaseTable.Active]
  | ready d ticket =>
      refine mem_update.trans ?_
      split
      · next hd =>
          subst hd
          rw [mem_append_items, Prod.mk.injEq, Place.ready.injEq]
          exact or_congr_right ⟨fun h => ⟨h.2, rfl, h.1⟩, fun h => ⟨h.2.2, h.1⟩⟩
      · next hd =>
          refine (or_iff_left ?_).symm
          rintro ⟨_, heq⟩
          exact hd (Place.ready.inj heq).1

theorem at_reslotted : (t.reslotted l item).At i p ↔
    t.At i p ∨ i = item ∧ p = .ready l.source l.ticket := by
  cases p with
  | lease j => simp [LeaseTable.At, LeaseTable.reslotted, LeaseTable.Active]
  | ready d ticket =>
      refine mem_update.trans ?_
      split
      · next hd =>
          subst hd
          rw [mem_insertAtTicket, Prod.mk.injEq, Place.ready.injEq]
          exact or_congr_right ⟨fun h => ⟨h.2, rfl, h.1⟩, fun h => ⟨h.2.2, h.1⟩⟩
      · next hd =>
          refine (or_iff_left ?_).symm
          rintro ⟨_, heq⟩
          exact hd (Place.ready.inj heq).1

/-- Nothing that is ready goes with a lease. -/
theorem at_dropped : (t.dropped l).At i p ↔ t.At i p := by
  cases p with
  | lease j => rfl
  | ready d ticket =>
      refine mem_update.trans ?_
      split
      · next hd =>
          subst hd
          rfl
      · rfl

theorem at_claimed {st : Q} {index : Nat} {slot : Nat × ItemId} (h : (t.queues st).Ordered)
    (hslot : (t.queues st).items[index]? = some slot) :
    (t.withLease ⟨st, slot.2, slot.1⟩ ((t.queues st).lease index slot)).At i p ↔
      t.At i p ∧ p ≠ .ready st slot.1 ∨ i = slot.2 ∧ p = .lease t.objects.length := by
  cases p with
  | lease j =>
      simp only [LeaseTable.At, active_withLease, ne_eq, reduceCtorEq, not_false_eq_true, and_true,
        Place.lease.injEq]
      constructor
      · rintro ⟨m, hm | ⟨rfl, rfl⟩, hitem⟩
        · exact .inl ⟨m, hm, hitem⟩
        · exact .inr ⟨hitem.symm, rfl⟩
      · rintro (⟨m, hm, hitem⟩ | ⟨rfl, rfl⟩)
        · exact ⟨m, .inl hm, hitem⟩
        · exact ⟨_, .inr ⟨rfl, rfl⟩, rfl⟩
  | ready d ticket =>
      refine mem_update.trans ?_
      split
      · next hd =>
          subst hd
          rw [mem_lease_items h hslot]
          simp [LeaseTable.At]
      · next hd => simp [LeaseTable.At, hd]

theorem at_released : (t.released k l).At i p ↔ t.At i p ∧ p ≠ .lease k := by
  rw [LeaseTable.released, at_switchOff, at_dropped]

theorem at_restored : (t.restored k l).At i p ↔
    t.At i p ∧ p ≠ .lease k ∨ i = l.item ∧ p = .ready l.source l.ticket := by
  rw [LeaseTable.restored, at_switchOff, at_reslotted, or_and_right]
  refine or_congr_right (and_iff_left_of_imp ?_)
  rintro ⟨_, rfl⟩
  exact nofun

theorem at_handedOff {d : Q} : (t.handedOff k l d).At i p ↔
    t.At i p ∧ p ≠ .lease k ∨ i = l.item ∧ p = .ready d (t.queues d).nextTicket := by
  rw [LeaseTable.handedOff, at_switchOff, at_dropped, at_offered, or_and_right]
  refine or_congr_right (and_iff_left_of_imp ?_)
  rintro ⟨_, rfl⟩
  exact nofun

theorem at_exchanged : (t.exchanged k l k' peer).At i p ↔
    t.At i p ∧ ¬ (p = .lease k ∨ p = .lease k') ∨
      (i = peer.item ∧ p = .ready l.source l.ticket ∨
        i = l.item ∧ p = .ready peer.source peer.ticket) := by
  rw [LeaseTable.exchanged, at_switchOff, at_switchOff, at_reslotted, at_reslotted]
  constructor
  · rintro ⟨⟨(hold | hnew) | hnew, hne⟩, hne'⟩
    · exact .inl ⟨hold, fun hgone => hgone.elim hne hne'⟩
    · exact .inr (.inl hnew)
    · exact .inr (.inr hnew)
  · rintro (⟨hold, hne⟩ | ⟨rfl, rfl⟩ | ⟨rfl, rfl⟩)
    · exact ⟨⟨.inl (.inl hold), fun h => hne (.inl h)⟩, fun h => hne (.inr h)⟩
    · exact ⟨⟨.inl (.inr ⟨rfl, rfl⟩), nofun⟩, nofun⟩
    · exact ⟨⟨.inr ⟨rfl, rfl⟩, nofun⟩, nofun⟩

/-! ### The invariant is kept -/

/-- The books do not depend on what is ready. -/
theorem Booked.requeue {leased : Q → Dict ItemId Nat} (h : Booked leased t)
    (queues : Q → StageQueue) : Booked leased { t with queues } :=
  ⟨h.keys, h.owned, h.backed, h.counted, h.single⟩

/-- The places of an item that is under an active lease. -/
theorem LeaseTable.Kept.at_leased (h : t.Kept) (hl : t.Active k l) {p : Place Q}
    (hp : t.At l.item p) : p = .lease k :=
  h.once _ _ _ hp ⟨l, hl, rfl⟩

theorem LeaseTable.Kept.offered (h : t.Kept) {st : Q} (room : (t.queues st).canOffer = true)
    (hfree : ∀ p, ¬ t.At item p) : (t.offered st item).Kept where
  ordered := ordered_update h.ordered ((h.ordered st).append item)
  fits := fun _ => StageQueueLease.offered_fits h.fits room
  booked := by
    have hbooks : (t.offered st item).leased = t.leased := leased_update_append
    rw [hbooks]
    exact h.booked.requeue _
  once := by
    refine once_of_moved (fun _ => False) _ h.once
      (fun i p hp => (at_offered.mp hp).imp_left fun hold => ⟨hold, not_false⟩) ?_ ?_
    · rintro i p p' ⟨_, rfl⟩ ⟨_, rfl⟩
      rfl
    · rintro i p ⟨rfl, _⟩ p' hp'
      exact hfree p' hp'

theorem LeaseTable.Kept.claimed (h : t.Kept) {st : Q} {index : Nat} {slot : Nat × ItemId}
    (hslot : (t.queues st).items[index]? = some slot) :
    (t.withLease ⟨st, slot.2, slot.1⟩ ((t.queues st).lease index slot)).Kept := by
  have hready : t.At slot.2 (.ready st slot.1) := List.mem_of_getElem? hslot
  have hfree : ∀ j m, t.Active j m → m.item ≠ slot.2 := by
    intro j m hm hitem
    have heq := h.once _ _ (.lease j) hready ⟨m, hm, hitem⟩
    cases heq
  refine ⟨ordered_update h.ordered ((h.ordered st).lease hslot),
    fits_update h.fits ((h.fits st).lease hslot), ?_, ?_⟩
  · have hbooks : (t.withLease ⟨st, slot.2, slot.1⟩ ((t.queues st).lease index slot)).leased =
        Function.update t.leased st ((t.leased st).set slot.2 slot.1) := leased_update
    rw [hbooks]
    exact h.booked.take (l := ⟨st, slot.2, slot.1⟩) hfree
  · refine once_of_moved (fun p => p = .ready st slot.1) _ h.once
      (fun i p => (at_claimed (h.ordered st) hslot).mp) ?_ ?_
    · rintro i p p' ⟨_, rfl⟩ ⟨_, rfl⟩
      rfl
    · rintro i p ⟨rfl, _⟩ p' hp'
      exact h.once _ _ _ hp' hready

/-- The slot of a lease that ends is gone from the books. -/
theorem LeaseTable.Kept.ended (h : t.Kept) (hl : t.Active k l) (hitems : t'.objects = t.objects)
    (hleased : t'.leased = Function.update t.leased l.source ((t.leased l.source).erase l.item)) :
    Booked (t'.switchOff k).leased (t'.switchOff k) := by
  have hbooked := (h.booked.drop hl).requeue t'.queues
  have hobjects : t'.switchOff k = { t.switchOff k with queues := t'.queues } := by
    rw [LeaseTable.switchOff, hitems]
    rfl
  show Booked t'.leased (t'.switchOff k)
  rw [hleased, hobjects]
  exact hbooked

theorem LeaseTable.Kept.released (h : t.Kept) (hl : t.Active k l) : (t.released k l).Kept where
  ordered := ordered_update h.ordered (h.ordered l.source).dropLease
  fits := fun _ => StageQueueLease.released_fits h.fits
  booked := h.ended hl rfl leased_update
  once := by
    refine once_of_moved (fun p => p = .lease k) (fun _ _ => False) h.once
      (fun i p hp => .inl (at_released.mp hp)) ?_ ?_
    · exact fun _ _ _ hf => hf.elim
    · exact fun _ _ hf => hf.elim

theorem LeaseTable.Kept.restored (h : t.Kept) (hl : t.Active k l) : (t.restored k l).Kept where
  ordered := ordered_update h.ordered ((h.ordered l.source).reinsert (h.owned hl) l.item)
  fits := fun _ => StageQueueLease.reinserted_fits h.fits (h.owned hl)
  booked := h.ended hl rfl leased_update
  once := by
    refine once_of_moved (fun p => p = .lease k) _ h.once (fun i p => at_restored.mp) ?_ ?_
    · rintro i p p' ⟨_, rfl⟩ ⟨_, rfl⟩
      rfl
    · rintro i p ⟨rfl, _⟩ p' hp'
      exact h.at_leased hl hp'

theorem LeaseTable.Kept.handedOff (h : t.Kept) (hl : t.Active k l) {d : Q}
    (room : (t.queues d).canOffer = true) : (t.handedOff k l d).Kept where
  ordered := by
    have hoffered := ordered_update (d := d) h.ordered ((h.ordered d).append l.item)
    exact ordered_update hoffered (hoffered l.source).dropLease
  fits := fun _ => StageQueueLease.handedOff_fits h.fits room
  booked := by
    refine h.ended hl rfl ?_
    have hoffered : (t.offered d l.item).leased = t.leased := leased_update_append
    rw [← hoffered]
    exact leased_update
  once := by
    refine once_of_moved (fun p => p = .lease k) _ h.once (fun i p => at_handedOff.mp) ?_ ?_
    · rintro i p p' ⟨_, rfl⟩ ⟨_, rfl⟩
      rfl
    · rintro i p ⟨rfl, _⟩ p' hp'
      exact h.at_leased hl hp'

theorem LeaseTable.Kept.exchanged (h : t.Kept) (hl : t.Active k l) (hp : t.Active k' peer)
    (hne : k ≠ k') : (t.exchanged k l k' peer).Kept := by
  have hitems : peer.item ≠ l.item := fun heq => hne (h.booked.single hl hp heq.symm)
  have hpeer := (h.owned hp).reinserted hitems peer.item
  have hpeerOn : (t.switchOff k).Active k' peer := active_switchOff.mpr ⟨hne.symm, hp⟩
  refine ⟨?_, ?_, ?_, ?_⟩
  · have hfirst := ordered_update (d := l.source) h.ordered
      ((h.ordered l.source).reinsert (h.owned hl) peer.item)
    exact ordered_update hfirst ((hfirst peer.source).reinsert hpeer l.item)
  · exact fun _ => StageQueueLease.reinserted_fits
      (fun _ => StageQueueLease.reinserted_fits h.fits (h.owned hl)) hpeer
  · have hfirst : (t.reslotted l peer.item).leased =
        Function.update t.leased l.source ((t.leased l.source).erase l.item) := leased_update
    have hboth : ((t.reslotted l peer.item).reslotted peer l.item).leased =
        Function.update (t.reslotted l peer.item).leased peer.source
          (((t.reslotted l peer.item).leased peer.source).erase peer.item) := leased_update
    rw [hfirst] at hboth
    show Booked ((t.reslotted l peer.item).reslotted peer l.item).leased _
    rw [hboth]
    exact ((h.booked.drop hl).drop hpeerOn).requeue _
  · refine once_of_moved (fun p => p = .lease k ∨ p = .lease k') _ h.once
      (fun i p => at_exchanged.mp) ?_ ?_
    · rintro i p p' (⟨hi, rfl⟩ | ⟨hi, rfl⟩) (⟨hi', rfl⟩ | ⟨hi', rfl⟩)
      · rfl
      · exact absurd (hi.symm.trans hi') hitems
      · exact absurd (hi'.symm.trans hi) hitems
      · rfl
    · rintro i p (⟨rfl, _⟩ | ⟨rfl, _⟩) p' hp'
      · exact .inr (h.at_leased hp hp')
      · exact .inl (h.at_leased hl hp')

/-! ## What a call does -/

theorem exec_offer (st : Q) (item : ItemId) :
    (LeaseTable.offer st item).exec t =
      if (t.queues st).canOffer then (.ok true, t.offered st item) else (.ok false, t) := by
  unfold LeaseTable.offer StageQueue.offer
  rw [exec_bind, exec_get]
  by_cases room : (t.queues st).canOffer = true
  · simp only [if_pos room]
    rfl
  · simp only [if_neg room]
    rfl

/-- Every call has one of the effects. -/
theorem LeaseTable.Kept.effect (h : t.Kept) {c : LeaseCall Q} {x : TableCommand Q LeaseAnswer}
    (hc : t.command c = some x) : Effect t c (x.exec t).1 (x.exec t).2 := by
  cases c with
  | offer st item =>
      obtain rfl := Option.some.inj hc
      rw [exec_map, exec_offer]
      split
      · next room => exact .offered room
      · exact .refused st item
  | push st item =>
      obtain rfl := Option.some.inj hc
      rw [exec_map, LeaseTable.push, exec_bind, exec_offer]
      by_cases room : (t.queues st).canOffer = true
      · rw [if_pos room]
        exact .pushed room
      · rw [if_neg room]
        exact .overflow st item
  | claimAt st index =>
      obtain rfl := Option.some.inj hc
      rw [exec_map, LeaseTable.claimAt, exec_bind, exec_get]
      dsimp only
      split
      · exact .empty st index
      · rw [StageQueue.claimAt]
        cases hslot : (t.queues st).items[index.toNat]? with
        | none => exact .empty st index
        | some slot => exact .claimed hslot
  | restore k =>
      obtain ⟨⟨l, active⟩, hk, rfl⟩ := Option.map_eq_some_iff.mp hc
      cases active with
      | false => exact .restoredBefore k (used_up hk)
      | true =>
          rw [exec_map, LeaseTable.restore, if_neg (by simp), exec_bind, exec_onQueues,
            StageQueueLease.exec_restore (h.owned hk)]
          exact .restored hk
  | release k =>
      obtain ⟨⟨l, active⟩, hk, rfl⟩ := Option.map_eq_some_iff.mp hc
      cases active with
      | false => exact .releasedBefore k (used_up hk)
      | true =>
          rw [exec_map, LeaseTable.release, if_neg (by simp), exec_bind, exec_onQueues,
            StageQueueLease.exec_release (h.owned hk)]
          exact .released hk
  | handoff k destination =>
      obtain ⟨⟨l, active⟩, hk, rfl⟩ := Option.map_eq_some_iff.mp hc
      cases active with
      | false => exact .keptBack k destination
      | true =>
          rw [exec_map, LeaseTable.handoff, if_neg (by simp), exec_bind, exec_onQueues,
            StageQueueLease.exec_handoff (h.owned hk)]
          by_cases room : (t.queues destination).canOffer = true
          · rw [if_pos room]
            exact .handedOff hk room
          · rw [if_neg room]
            exact .keptBack k destination
  | exchange k destination k' peerDestination =>
      obtain ⟨⟨l, active⟩, hk, hc⟩ := Option.bind_eq_some_iff.mp hc
      obtain ⟨⟨peer, active'⟩, hk', rfl⟩ := Option.map_eq_some_iff.mp hc
      rw [exec_map, LeaseTable.exchange, exec_bind, exec_get]
      dsimp only
      split
      · exact .unmatched k destination k' peerDestination
      · next hguard =>
          simp only [not_or, Bool.not_eq_true', Bool.not_eq_false, ne_eq, not_not] at hguard
          obtain ⟨hne, rfl, rfl, rfl, rfl, _, _⟩ := hguard
          have hitems : peer.item ≠ l.item := fun heq => hne (h.booked.single hk hk' heq.symm)
          have hpeer := (h.owned hk').reinserted hitems peer.item
          rw [exec_bind, exec_onQueues, StageQueueLease.exec_replaceLease (h.owned hk)]
          dsimp only
          rw [exec_bind, exec_onQueues, StageQueueLease.exec_replaceLease hpeer]
          exact .exchanged hk hk' hne

end Effects

/-! ## Runs -/

/-- The item a call offers to a queue. -/
def LeaseCall.offers? : LeaseCall Q → Option ItemId
  | .offer _ item => some item
  | .push _ item => some item
  | _ => none

/-- What a call offers is not already held by a queue or a lease. -/
def OffersNew (t : LeaseTable Q) (c : LeaseCall Q) : Prop :=
  ∀ item, c.offers? = some item → ∀ p, ¬ t.At item p

/-- An item is inside just where it has a place. -/
def Whereabouts (inside : Finset ItemId) (t : LeaseTable Q) : Prop :=
  ∀ i, i ∈ inside ↔ ∃ p, t.At i p

section Runs

variable {t t' : LeaseTable Q} {c : LeaseCall Q} {ans : Except PyError LeaseAnswer}

/-- Items change places only, and nobody comes or goes. -/
theorem Whereabouts.of_moved {inside : Finset ItemId} (h : Whereabouts inside t) (gone : Place Q → Prop)
    (new : ItemId → Place Q → Prop)
    (hmoved : ∀ i p, t'.At i p ↔ t.At i p ∧ ¬ gone p ∨ new i p)
    (hgone : ∀ i p, t.At i p → gone p → ∃ p', new i p')
    (hnew : ∀ i p, new i p → ∃ p', t.At i p') : Whereabouts inside t' := by
  intro i
  rw [h i]
  constructor
  · rintro ⟨p, hp⟩
    by_cases hg : gone p
    · obtain ⟨p', hp'⟩ := hgone i p hp hg
      exact ⟨p', (hmoved i p').mpr (.inr hp')⟩
    · exact ⟨p, (hmoved i p).mpr (.inl ⟨hp, hg⟩)⟩
  · rintro ⟨p, hp⟩
    rcases (hmoved i p).mp hp with ⟨hold, _⟩ | hfresh
    · exact ⟨p, hold⟩
    · exact hnew i p hfresh

/-- Whoever is at the place of an active lease is the leased item. -/
theorem item_of_lease {i : ItemId} {k : Nat} {l : StageQueueLease Q} (hl : t.Active k l)
    (h : t.At i (.lease k)) : i = l.item := by
  obtain ⟨m, hm, rfl⟩ := h
  rw [LeaseTable.Active, hl] at hm
  cases hm
  rfl

variable [DecidableEq Q]

theorem Effect.kept (he : Effect t c ans t') (h : t.Kept) (hnew : OffersNew t c) : t'.Kept := by
  cases he with
  | offered room => exact h.offered room (hnew _ rfl)
  | pushed room => exact h.offered room (hnew _ rfl)
  | claimed hslot => exact h.claimed hslot
  | restored hl => exact h.restored hl
  | released hl => exact h.released hl
  | handedOff hl room => exact h.handedOff hl room
  | exchanged hl hp hne => exact h.exchanged hl hp hne
  | _ => exact h

theorem LeaseTable.Kept.initial (capacity : Q → { n : Nat // 0 < n }) :
    (LeaseTable.initial capacity).Kept where
  ordered := fun _ => .empty ⟨rfl, rfl⟩
  fits := fun _ => Nat.zero_le _
  booked :=
    { keys := fun _ => List.nodup_nil
      owned := fun hk => by cases hk
      backed := fun hget => by cases hget
      counted := fun _ => rfl
      single := fun hk => by cases hk }
  once := by
    rintro i (⟨st, ticket⟩ | k) p' hp
    · cases hp
    · obtain ⟨l, hl, _⟩ := hp
      cases hl

/-! ### Who is inside -/

/-- The items inside after one more call: an accepted offer brings its item in,
and releasing an active lease lets its item out. -/
def enter (inside : Finset ItemId) (x : Transition (LeaseTable Q) (LeaseCall Q)) :
    Finset ItemId :=
  match x.event with
  | .offer _ item =>
      match x.pre.answer x.event with
      | some (.ok (.bool true)) => insert item inside
      | _ => inside
  | .push _ item =>
      match x.pre.answer x.event with
      | some (.ok _) => insert item inside
      | _ => inside
  | .release k =>
      match x.pre.objects[k]? with
      | some ⟨l, true⟩ => inside.erase l.item
      | _ => inside
  | _ => inside

/-- The items that were let in by a history of calls, and not out again. -/
def insideAfter (calls : List (Transition (LeaseTable Q) (LeaseCall Q))) : Finset ItemId :=
  calls.foldl enter ∅

theorem Whereabouts.offered {inside : Finset ItemId} (h : Whereabouts inside t) {st : Q} {item : ItemId} :
    Whereabouts (insert item inside) (t.offered st item) := by
  intro i
  rw [Finset.mem_insert, h i]
  constructor
  · rintro (rfl | ⟨p, hp⟩)
    · exact ⟨_, at_offered.mpr (.inr ⟨rfl, rfl⟩)⟩
    · exact ⟨p, at_offered.mpr (.inl hp)⟩
  · rintro ⟨p, hp⟩
    rcases at_offered.mp hp with hold | ⟨rfl, _⟩
    · exact .inr ⟨p, hold⟩
    · exact .inl rfl

theorem Effect.whereabouts {inside : Finset ItemId} (he : Effect t c ans t')
    (hans : t.answer c = some ans) (h : t.Kept) (hplaces : Whereabouts inside t) :
    Whereabouts (enter inside ⟨t, c, t'⟩) t' := by
  have hat : ∀ {k l}, t.Active k l → ∃ p, t.At l.item p := fun hl => ⟨.lease _, _, hl, rfl⟩
  unfold enter
  dsimp only
  cases he with
  | offered room =>
      rw [hans]
      exact hplaces.offered
  | pushed room =>
      rw [hans]
      exact hplaces.offered
  | refused st item =>
      rw [hans]
      exact hplaces
  | overflow st item =>
      rw [hans]
      exact hplaces
  | claimed hslot =>
      refine hplaces.of_moved _ _ (fun i p => at_claimed (h.ordered _) hslot) ?_ ?_
      · rintro i p hp rfl
        have hready : t.At _ (.ready _ _) := List.mem_of_getElem? hslot
        have hsame : (_, i) = (_, _) := List.inj_on_of_nodup_map
          (List.Pairwise.map _ (fun a b hab => Nat.ne_of_lt hab) (h.ordered _).sorted)
          hp hready rfl
        exact ⟨_, (Prod.mk.inj hsame).2, rfl⟩
      · rintro i p ⟨rfl, _⟩
        exact ⟨.ready _ _, List.mem_of_getElem? hslot⟩
  | restored hl =>
      refine hplaces.of_moved _ _ (fun i p => at_restored) ?_ ?_
      · rintro i p hp rfl
        exact ⟨_, item_of_lease hl hp, rfl⟩
      · rintro i p ⟨rfl, _⟩
        exact hat hl
  | released hl =>
      have hk : t.objects[_]? = _ := hl
      dsimp only
      rw [hk]
      intro i
      rw [Finset.mem_erase, hplaces i]
      constructor
      · rintro ⟨hne, p, hp⟩
        refine ⟨p, at_released.mpr ⟨hp, ?_⟩⟩
        rintro rfl
        exact hne (item_of_lease hl hp)
      · rintro ⟨p, hp⟩
        obtain ⟨hp, hne⟩ := at_released.mp hp
        refine ⟨?_, p, hp⟩
        rintro rfl
        exact hne (h.at_leased hl hp)
  | handedOff hl room =>
      refine hplaces.of_moved _ _ (fun i p => at_handedOff) ?_ ?_
      · rintro i p hp rfl
        exact ⟨_, item_of_lease hl hp, rfl⟩
      · rintro i p ⟨rfl, _⟩
        exact hat hl
  | exchanged hl hp hne =>
      refine hplaces.of_moved _ _ (fun i p => at_exchanged) ?_ ?_
      · rintro i p hat (rfl | rfl)
        · exact ⟨_, .inr ⟨item_of_lease hl hat, rfl⟩⟩
        · exact ⟨_, .inl ⟨item_of_lease hp hat, rfl⟩⟩
      · rintro i p (⟨rfl, _⟩ | ⟨rfl, _⟩)
        · exact hat hp
        · exact hat hl
  | releasedBefore k hidle =>
      dsimp only
      split
      · next l hk => exact absurd hk (hidle l)
      · exact hplaces
  | _ => exact hplaces

/-! ### The laws of a call -/

/-- What every call keeps to. -/
structure Lawful (x : Transition (LeaseTable Q) (LeaseCall Q)) : Prop where
  /-- The internal error does not come up. -/
  noMismatch : x.pre.answer x.event ≠ some (.error ticketMismatch)
  /-- A refusal, by an answer or by an exception, changes nothing. -/
  refusal : x.pre.answer x.event = some (.ok (.bool false)) ∨
    (∃ e, x.pre.answer x.event = some (.error e)) → x.post = x.pre
  /-- A restored item stands where its ticket belongs among the items that are
  still ready, which keep their order. -/
  restored : ∀ k l, x.event = .restore k → x.pre.Active k l →
    ∃ before after, (x.pre.queues l.source).items = before ++ after ∧
      (x.post.queues l.source).items = before ++ (l.ticket, l.item) :: after ∧
      (∀ slot ∈ before, slot.1 < l.ticket) ∧ ∀ slot ∈ after, l.ticket < slot.1

theorem Effect.lawful (he : Effect t c ans t') (hans : t.answer c = some ans) (h : t.Kept) :
    Lawful ⟨t, c, t'⟩ where
  noMismatch := by
    dsimp only
    rw [hans]
    cases he with
    | overflow st item => decide
    | _ => exact nofun
  refusal := by
    dsimp only
    rw [hans]
    rintro (hno | ⟨e, herr⟩)
    · cases he with
      | refused st item => rfl
      | keptBack k destination => rfl
      | unmatched k destination k' peerDestination => rfl
      | _ => cases hno
    · cases he with
      | overflow st item => rfl
      | _ => cases herr
  restored := by
    rintro k l rfl hl
    have hsplit := StageQueue.Ordered.split_at (h.ordered l.source).sorted
      ((h.ordered l.source).apart (h.owned hl))
    cases he with
    | restoredBefore _ hidle => exact absurd hl (hidle l)
    | restored hl' =>
        have hsame : some _ = some _ := hl'.symm.trans hl
        cases hsame
        refine ⟨_, _, (List.takeWhile_append_dropWhile).symm, ?_, hsplit.1, hsplit.2⟩
        have hqueue : (t.restored k l).queues l.source =
            ((t.queues l.source).dropLease l.item).insertAtTicket l.ticket l.item :=
          Function.update_self _ _ _
        dsimp only
        rw [hqueue]
        rfl

/-! ### Every run -/

/-- All tickets of a queue, of its ready and of its leased slots. -/
def StageQueue.tickets (q : StageQueue) : List Nat := q.items.map Prod.fst ++ q.leased.values

/-- What the queues represent. -/
structure Represents (t : LeaseTable Q) : Prop where
  inOrder : ∀ st, ((t.queues st).items.map Prod.fst).Pairwise (· < ·)
  distinct : ∀ st, (t.queues st).tickets.Nodup
  issued : ∀ st, ∀ ticket ∈ (t.queues st).tickets, ticket < (t.queues st).nextTicket
  occupied : ∀ st, (t.queues st).occupancy = (t.queues st).items.length + t.activeLeases st
  bounded : ∀ st, (t.queues st).occupancy ≤ (t.queues st).capacity

theorem LeaseTable.Kept.represents (h : t.Kept) : Represents t where
  inOrder := fun st => List.Pairwise.map _ (fun _ _ hlt => hlt) (h.ordered st).sorted
  distinct := by
    intro st
    have hget : ∀ ticket ∈ (t.queues st).leased.values,
        ∃ i, (t.queues st).leased.get? i = some ticket := by
      intro ticket hmem
      obtain ⟨⟨i, _⟩, hitem, rfl⟩ := List.mem_map.mp hmem
      exact ⟨i, Dict.get?_of_mem (h.booked.keys st) hitem⟩
    refine List.Nodup.append ?_ ?_ ?_
    · exact List.Pairwise.map _ (fun a b hab => Nat.ne_of_lt hab) (h.ordered st).sorted
    · refine List.Nodup.map_on ?_ (List.Nodup.of_map _ (h.booked.keys st))
      rintro ⟨i, ticket⟩ hi ⟨j, _⟩ hj rfl
      have hsame := (h.ordered st).distinct (Dict.get?_of_mem (h.booked.keys st) hi)
        (Dict.get?_of_mem (h.booked.keys st) hj)
      rw [hsame]
    · intro ticket hready hleased
      obtain ⟨slot, hslot, rfl⟩ := List.mem_map.mp hready
      obtain ⟨i, hi⟩ := hget _ hleased
      exact (h.ordered st).apart hi slot hslot rfl
  issued := by
    intro st ticket hmem
    rcases List.mem_append.mp hmem with hready | hleased
    · obtain ⟨slot, hslot, rfl⟩ := List.mem_map.mp hready
      exact (h.ordered st).issued slot hslot
    · obtain ⟨⟨i, _⟩, hitem, rfl⟩ := List.mem_map.mp hleased
      exact (h.ordered st).leasedIssued (Dict.get?_of_mem (h.booked.keys st) hitem)
  occupied := fun st => congrArg _ (h.booked.counted st)
  bounded := h.fits

/-- In every run in which nobody offers an item that is still held: every
queue represents its ready and its leased slots, an item that was let in and
not out again has exactly one place and any other has none, and every call is
lawful. -/
theorem queue_leases_represent {capacity : Q → { n : Nat // 0 < n }}
    {calls : List (Transition (LeaseTable Q) (LeaseCall Q))}
    (hrun : Run LeaseTable.step (.initial capacity) calls t)
    (hoffers : ∀ x ∈ calls, OffersNew x.pre x.event) :
    Represents t ∧
    (∀ i ∈ insideAfter calls, ∃! p, t.At i p) ∧
    (∀ i, i ∉ insideAfter calls → ∀ p, ¬ t.At i p) ∧
    ∀ x ∈ calls, Lawful x := by
  have hinv : t.Kept ∧ Whereabouts (insideAfter calls) t ∧ ∀ x ∈ calls, Lawful x := by
    refine hrun.invariant_of
      (fun calls t => t.Kept ∧ Whereabouts (insideAfter calls) t ∧ ∀ x ∈ calls, Lawful x)
      OffersNew ?_ ?_ hoffers
    · refine ⟨.initial capacity, fun i => ?_, fun x hx => absurd hx List.not_mem_nil⟩
      refine iff_of_false (Finset.notMem_empty i) ?_
      rintro ⟨st | k, hp⟩
      · cases hp
      · obtain ⟨l, hl, _⟩ := hp
        cases hl
    · rintro calls t c t' ⟨hkept, hplaces, hlawful⟩ hnew hstep
      obtain ⟨x, hx, rfl⟩ := Option.map_eq_some_iff.mp hstep
      have hans : t.answer c = some (x.exec t).1 := by
        rw [LeaseTable.answer, hx, Option.map_some]
      have heffect := hkept.effect hx
      refine ⟨heffect.kept hkept hnew, ?_, ?_⟩
      · rw [insideAfter, List.foldl_append]
        exact heffect.whereabouts hans hkept hplaces
      · intro y hy
        rcases List.mem_append.mp hy with hold | hlast
        · exact hlawful y hold
        · obtain rfl := List.mem_singleton.mp hlast
          exact heffect.lawful hans hkept
  obtain ⟨hkept, hplaces, hlawful⟩ := hinv
  refine ⟨hkept.represents, fun i hi => ?_, fun i hi p hp => ?_, hlawful⟩
  · obtain ⟨p, hp⟩ := (hplaces i).mp hi
    exact ⟨p, hp, fun p' hp' => hkept.once i p' p hp' hp⟩
  · exact hi ((hplaces i).mpr ⟨p, hp⟩)

/-- Whether no ready slot and no active lease has the item a call offers. -/
def offersAbsent (t : LeaseTable Bool) (c : LeaseCall Bool) : Bool :=
  c.offers?.all fun item =>
    [false, true].all (fun st => (t.queues st).items.all fun slot => slot.2 != item) &&
      t.objects.all fun o => !o.active || o.lease.item != item

theorem offersNew_of_absent {t : LeaseTable Bool} {c : LeaseCall Bool}
    (h : offersAbsent t c = true) : OffersNew t c := by
  intro item hitem p hp
  rw [offersAbsent, hitem, Option.all_some, Bool.and_eq_true, List.all_eq_true,
    List.all_eq_true] at h
  obtain ⟨hready, hleased⟩ := h
  cases p with
  | ready st ticket =>
      have hslots := hready st (by cases st <;> simp)
      have hne := List.all_eq_true.mp hslots (ticket, item) hp
      simp at hne
  | lease k =>
      obtain ⟨l, hl, rfl⟩ := hp
      have hne := hleased _ (List.mem_of_getElem? hl)
      simp at hne

/-- Two items are claimed, the second goes back and the first to another
queue: both are still at one place. -/
theorem queue_leases_represent_handoff :
    ∃ calls t, Run LeaseTable.step (.initial fun _ : Bool => ⟨2, by decide⟩) calls t ∧
      Represents t ∧ (∃! p, t.At 7 p) ∧ ∃! p, t.At 8 p := by
  have hevents : (trace LeaseTable.step (.initial fun _ : Bool => ⟨2, by decide⟩)
      [.offer true 7, .push true 8, .claimAt true 1, .claimAt true 0, .restore 0,
        .handoff 1 false]).any (fun y => y.1.all (fun x => offersAbsent x.pre x.event) &&
          decide (7 ∈ insideAfter y.1) && decide (8 ∈ insideAfter y.1)) = true := by
    decide
  obtain ⟨⟨calls, t⟩, htrace, hprops⟩ := (Option.any_eq_true _ _).mp hevents
  simp only [Bool.and_eq_true, decide_eq_true_eq, List.all_eq_true] at hprops
  have hrun := trace_run htrace
  obtain ⟨hrep, honce, _⟩ := queue_leases_represent hrun
    fun x hx => offersNew_of_absent (hprops.1.1 x hx)
  exact ⟨calls, t, hrun, hrep, honce 7 hprops.1.2, honce 8 hprops.2⟩

end Runs

end Hephaestus.Pipeline
