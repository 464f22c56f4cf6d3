import Hephaestus.Proofs.Ownership

/-!
# The order of a queue

Tickets are given out in order and never twice, and a slot keeps its ticket
while it is leased. So the ready slots of a queue are always in the order of
their tickets, and whoever puts a leased item back puts it exactly where it
was: the head of the queue, claimed and put back, is its head again.

Every move of the coordinator keeps that order, since a queue changes in four
ways only: a slot is appended, leased, given up or taken again.
-/

namespace Hephaestus.Pipeline

open Hephaestus.Lib StageQueueLease

/-- Ready slots in the order of their tickets; no ticket twice; none that is
still to come. -/
structure StageQueue.Ordered (q : StageQueue) : Prop where
  sorted : q.items.Pairwise fun a b => a.1 < b.1
  issued : ∀ slot ∈ q.items, slot.1 < q.nextTicket
  leasedIssued : ∀ {i ticket}, q.leased.get? i = some ticket → ticket < q.nextTicket
  apart : ∀ {i ticket}, q.leased.get? i = some ticket → ∀ slot ∈ q.items, slot.1 ≠ ticket
  distinct : ∀ {i j ticket}, q.leased.get? i = some ticket → q.leased.get? j = some ticket → i = j

namespace StageQueue.Ordered

variable {q : StageQueue} {i : ItemId}

theorem empty (h : q.items = [] ∧ q.leased = []) : q.Ordered := by
  have hnone : ∀ {i ticket}, q.leased.get? i ≠ some ticket := by
    intro i ticket hl
    rw [h.2] at hl
    cases hl
  constructor
  · rw [h.1]
    exact List.Pairwise.nil
  · rw [h.1]
    exact fun slot hslot => absurd hslot List.not_mem_nil
  · exact fun hl => absurd hl hnone
  · exact fun hl => absurd hl hnone
  · exact fun hl => absurd hl hnone

theorem append (h : q.Ordered) (item : ItemId) : (q.append item).Ordered where
  sorted := by
    refine List.pairwise_append.mpr ⟨h.sorted, List.pairwise_singleton _ _, fun a ha b hb => ?_⟩
    obtain rfl := List.mem_singleton.mp hb
    exact h.issued a ha
  issued := by
    intro slot hslot
    show slot.1 < q.nextTicket + 1
    rcases List.mem_append.mp hslot with hold | hnew
    · have hlt := h.issued slot hold
      omega
    · obtain rfl := List.mem_singleton.mp hnew
      exact Nat.lt_succ_self _
  leasedIssued := fun hl => (h.leasedIssued hl).trans (Nat.lt_succ_self _)
  apart := by
    intro j ticket hl slot hslot
    rcases List.mem_append.mp hslot with hold | hnew
    · exact h.apart hl slot hold
    · obtain rfl := List.mem_singleton.mp hnew
      exact (h.leasedIssued hl).ne'
  distinct := h.distinct

/-- A claimed slot is gone from the ready ones, and only from those. -/
theorem lease {index : Nat} {slot : Nat × ItemId} (h : q.Ordered)
    (hslot : q.items[index]? = some slot) : (q.lease index slot).Ordered := by
  obtain ⟨hlt, rfl⟩ := List.getElem?_eq_some_iff.mp hslot
  have hperm := List.getElem_cons_eraseIdx_perm hlt
  have hgone : ∀ other ∈ q.items.eraseIdx index, other.1 ≠ q.items[index].1 := by
    have hnodup : (q.items.map Prod.fst).Nodup := by
      refine List.Pairwise.map _ (fun a b hab => ?_) h.sorted
      exact Nat.ne_of_lt hab
    have hcons := (hperm.map Prod.fst).nodup_iff.mpr hnodup
    intro other hother heq
    refine (List.nodup_cons.mp hcons).1 ?_
    exact List.mem_map.mpr ⟨other, hother, heq⟩
  have hold : ∀ {j ticket}, (q.leased.set q.items[index].2 q.items[index].1).get? j = some ticket →
      (q.items[index].2 = j ∧ q.items[index].1 = ticket) ∨ q.leased.get? j = some ticket := by
    intro j ticket hl
    rw [Dict.get?_set] at hl
    split at hl
    · next heq => exact .inl ⟨heq, Option.some.inj hl⟩
    · exact .inr hl
  have hfresh : ∀ {j}, q.leased.get? j ≠ some q.items[index].1 :=
    fun hl => h.apart hl _ (List.getElem_mem hlt) rfl
  constructor
  · exact h.sorted.sublist (List.eraseIdx_sublist _ _)
  · exact fun other hother => h.issued other (List.mem_of_mem_eraseIdx hother)
  · intro j ticket hl
    rcases hold hl with ⟨_, rfl⟩ | hl
    · exact h.issued _ (List.getElem_mem hlt)
    · exact h.leasedIssued hl
  · intro j ticket hl other hother
    rcases hold hl with ⟨_, rfl⟩ | hl
    · exact hgone other hother
    · exact h.apart hl other (List.mem_of_mem_eraseIdx hother)
  · intro j k ticket hj hk
    rcases hold hj with ⟨rfl, rfl⟩ | hj
    · rcases hold hk with ⟨rfl, _⟩ | hk
      · rfl
      · exact absurd hk hfresh
    · rcases hold hk with ⟨rfl, rfl⟩ | hk
      · exact absurd hj hfresh
      · exact h.distinct hj hk

/-- The leases left are leases that were there. -/
theorem leased_of_dropLease {j : ItemId} {ticket : Nat}
    (hl : (q.dropLease i).leased.get? j = some ticket) :
    j ≠ i ∧ q.leased.get? j = some ticket := by
  rw [leased_dropLease] at hl
  split at hl
  · cases hl
  · next hne => exact ⟨hne, hl⟩

theorem dropLease (h : q.Ordered) : (q.dropLease i).Ordered where
  sorted := h.sorted
  issued := h.issued
  leasedIssued := fun hl => h.leasedIssued (leased_of_dropLease hl).2
  apart := fun hl => h.apart (leased_of_dropLease hl).2
  distinct := fun hj hk => h.distinct (leased_of_dropLease hj).2 (leased_of_dropLease hk).2

/-- Where a ticket that is not among them splits ready slots. -/
theorem split_at {items : List (Nat × ItemId)} {ticket : Nat}
    (hsorted : items.Pairwise fun a b => a.1 < b.1) (hne : ∀ slot ∈ items, slot.1 ≠ ticket) :
    (∀ slot ∈ items.takeWhile fun slot => decide (¬ ticket < slot.1), slot.1 < ticket) ∧
    ∀ slot ∈ items.dropWhile fun slot => decide (¬ ticket < slot.1), ticket < slot.1 := by
  constructor
  · intro slot hslot
    have hle := of_decide_eq_true (List.all_eq_true.mp List.all_takeWhile slot hslot)
    have hne := hne slot ((List.takeWhile_sublist _).mem hslot)
    omega
  · induction items with
    | nil => exact fun slot hslot => absurd hslot List.not_mem_nil
    | cons first rest ih =>
        obtain ⟨hfirst, hrest⟩ := List.pairwise_cons.mp hsorted
        rw [List.dropWhile_cons]
        split
        · exact ih hrest fun slot hslot => hne slot (List.mem_cons_of_mem _ hslot)
        · next hlt =>
            have hlt : ticket < first.1 := by simpa using hlt
            intro slot hslot
            rcases List.mem_cons.mp hslot with rfl | hslot
            · exact hlt
            · exact hlt.trans (hfirst slot hslot)

/-- A leased slot that is taken again, by its item or by another. -/
theorem reinsert {ticket : Nat} (h : q.Ordered) (hl : q.leased.get? i = some ticket)
    (item : ItemId) : ((q.dropLease i).insertAtTicket ticket item).Ordered := by
  obtain ⟨hbefore, hafter⟩ := split_at h.sorted (h.apart hl)
  have hsub : ∀ slot, slot ∈ ((q.dropLease i).insertAtTicket ticket item).items →
      slot = (ticket, item) ∨ slot ∈ q.items := by
    intro slot hslot
    rcases List.mem_append.mp hslot with hslot | hslot
    · exact .inr ((List.takeWhile_sublist _).mem hslot)
    · rcases List.mem_cons.mp hslot with rfl | hslot
      · exact .inl rfl
      · exact .inr ((List.dropWhile_sublist _).mem hslot)
  constructor
  · refine List.pairwise_append.mpr ⟨h.sorted.sublist (List.takeWhile_sublist _),
      List.pairwise_cons.mpr ⟨hafter, h.sorted.sublist (List.dropWhile_sublist _)⟩, ?_⟩
    intro a ha b hb
    rcases List.mem_cons.mp hb with rfl | hb
    · exact hbefore a ha
    · exact (hbefore a ha).trans (hafter b hb)
  · intro slot hslot
    rcases hsub slot hslot with rfl | hslot
    · exact h.leasedIssued hl
    · exact h.issued slot hslot
  · exact fun hj => h.leasedIssued (leased_of_dropLease hj).2
  · intro j other hj slot hslot
    obtain ⟨hne, hj⟩ := leased_of_dropLease hj
    rcases hsub slot hslot with rfl | hslot
    · rintro rfl
      exact hne (h.distinct hj hl)
    · exact h.apart hj slot hslot
  · exact fun hj hk => h.distinct (leased_of_dropLease hj).2 (leased_of_dropLease hk).2

/-- The head of a queue, claimed and put back, is its head. -/
theorem reinsert_head {slot : Nat × ItemId} {rest : List (Nat × ItemId)}
    (h : q.Ordered) (hitems : q.items = slot :: rest) :
    (((q.lease 0 slot).dropLease slot.2).insertAtTicket slot.1 slot.2).items = q.items := by
  have hsorted := h.sorted
  rw [hitems] at hsorted
  have hdrop : rest.takeWhile (fun other => decide (¬ slot.1 < other.1)) = [] := by
    cases rest with
    | nil => rfl
    | cons second _ =>
        have hlt := (List.pairwise_cons.mp hsorted).1 second List.mem_cons_self
        rw [List.takeWhile_cons, if_neg (by simpa using hlt)]
  have hkeep := List.takeWhile_append_dropWhile
    (p := fun other : Nat × ItemId => decide (¬ slot.1 < other.1)) (l := rest)
  rw [hdrop, List.nil_append] at hkeep
  show (q.items.eraseIdx 0).takeWhile _ ++ slot :: (q.items.eraseIdx 0).dropWhile _ = q.items
  rw [hitems, List.eraseIdx_cons_zero, hdrop, hkeep]
  rfl

end StageQueue.Ordered

/-! ## Queues of the coordinator -/

/-- Every queue is in order. -/
def QueuesOrdered (queues : StageName → StageQueue) : Prop := ∀ st, (queues st).Ordered

section Queues

variable {queues : StageName → StageQueue} {l m : StageQueueLease StageName}

theorem QueuesOrdered.update {q : StageQueue} {st : StageName} (h : QueuesOrdered queues)
    (hq : q.Ordered) : QueuesOrdered (Function.update queues st q) := by
  intro st'
  by_cases heq : st' = st
  · subst heq
    rwa [Function.update_self]
  · rw [Function.update_of_ne heq]
    exact h st'

theorem QueuesOrdered.released (h : QueuesOrdered queues) : QueuesOrdered (released queues l) :=
  h.update (h l.source).dropLease

theorem QueuesOrdered.reinserted (h : QueuesOrdered queues) (hl : StageQueueLease.Owned queues l)
    (item : ItemId) : QueuesOrdered (reinserted queues l item) :=
  h.update ((h l.source).reinsert hl item)

theorem QueuesOrdered.handedOff (h : QueuesOrdered queues) (target : StageName) :
    QueuesOrdered (handedOff queues l target) :=
  QueuesOrdered.released (h.update ((h target).append l.item))

theorem PairQueues.ordered {target target' : StageName} {after : StageName → StageQueue}
    (hp : PairQueues queues l m target target' after) (h : QueuesOrdered queues)
    (hl : StageQueueLease.Owned queues l) (hm : StageQueueLease.Owned queues m)
    (hne : l.item ≠ m.item) :
    QueuesOrdered after := by
  cases hp with
  | exchange _ _ => exact (h.reinserted hl _).reinserted (hm.reinserted hne.symm _) _
  | inOrder _ _ => exact (h.handedOff _).handedOff _
  | reversed _ _ => exact (h.handedOff _).handedOff _

end Queues

variable {ω : Type} {host : Host ω} {s s' : Coordinator}
  {tr : List (Transition Coordinator (CoordinatorEvent ω))}

/-- Every move keeps the queues in order. -/
theorem Move.ordered (hm : Move host s s') (ho : Owned s) (h : QueuesOrdered s.queues) :
    QueuesOrdered s'.queues := by
  cases hm with
  | admitNew _ _ _ _ ht _ =>
      rw [admitPushed_queues, tryAcquireWorkPermit_eq ht]
      exact h.update ((h _).append _)
  | claim hslot => exact h.update ((h _).lease hslot)
  | restore _ hl => exact h.reinserted (ho.owns hl) _
  | handoff _ _ _ =>
      rw [publishHandoff_queues]
      exact h.handedOff _
  | pair hne hi hj _ _ _ hp =>
      rw [publishHandoff_queues, publishHandoff_queues]
      have hli := ho.lease_item hi.lease
      have hmj := ho.lease_item hj.lease
      exact hp.ordered h (ho.owns hi.lease) (ho.owns hj.lease) (hli ▸ hmj ▸ hne)
  | park _ _ _ => exact h.released
  | wake _ _ =>
      rw [admitPushed_queues]
      exact h.update ((h _).append _)
  | complete handle auxiliary repo => cases auxiliary <;> exact h
  | retire _ _ _ => exact h.released
  | vanish _ _ _ => exact h.released
  | _ => exact h

theorem Moves.ordered (hm : Moves host s s') (hs : Sound host s) (h : QueuesOrdered s.queues) :
    QueuesOrdered s'.queues := by
  have hboth : Sound host s' ∧ QueuesOrdered s'.queues := by
    induction hm with
    | refl => exact ⟨hs, h⟩
    | tail _ hlast ih => exact ⟨hlast.sound ih.1, hlast.ordered ih.1.owned ih.2⟩
  exact hboth.2

/-- In every state the coordinator can get to. -/
theorem run_ordered (hrun : Run (Coordinator.step host) (.initial host.config) tr s) :
    QueuesOrdered s.queues := by
  have hinv : Sound host s ∧ QueuesOrdered s.queues := by
    refine hrun.invariant (fun u => Sound host u ∧ QueuesOrdered u.queues)
      ⟨initial_sound host, fun st => .empty ?_⟩ ?_
    · show (host.config.emptyQueue st).items = [] ∧ (host.config.emptyQueue st).leased = []
      cases st <;> exact ⟨rfl, rfl⟩
    · rintro u e v ⟨hs, h⟩ hstep
      have hreached := Coordinator.step_reached hs hstep
      exact ⟨hreached.sound, hreached.moves.ordered hs h⟩
  exact hinv.2

end Hephaestus.Pipeline
