import Hephaestus.Proofs.Entry

/-!
# Waiting for a destination

An item whose route is retained waits for its destination, and nothing but
`_drain_pending_handoffs` does anything with it: every other operation is
about an item that is in hand, ready, on the timer heap or out as a job, and
an item that waits is none of these. So its record stands as it stood until
the drain that carries out its route, and that drain writes the record the
route says.
-/

namespace Hephaestus.Pipeline

open Hephaestus.Lib Command

variable {ω : Type} {host : Host ω} {s t : Coordinator} {i j : ItemId} {p : PendingHandoff}

/-- The record and the retained route of `i` are as they were. -/
structure Leaves (i : ItemId) (s t : Coordinator) : Prop where
  pending : t.pendingHandoffs.get? i = s.pendingHandoffs.get? i
  record : t.workItem i = s.workItem i

instance (i : ItemId) : IsPreorder Coordinator (Leaves i) where
  refl := fun _ => ⟨rfl, rfl⟩
  trans := fun _ _ _ h h' => ⟨h'.pending.trans h.pending, h'.record.trans h.record⟩

theorem Leaves.books (hpending : t.pendingHandoffs = s.pendingHandoffs)
    (hitems : t.workItem = s.workItem) : Leaves i s t :=
  ⟨by rw [hpending], by rw [hitems]⟩

theorem Touches.leaves (h : Touches j s t) (hne : i ≠ j) : Leaves i s t :=
  ⟨h.retained i hne, h.others i hne⟩

theorem leaves_of_touches {α : Type} {x : Op α} (h : x.Along (Touches j) s) (hne : i ≠ j) :
    x.Along (Leaves i) s :=
  h.mono fun _ ht => ht.leaves hne

/-! ## Who waits is nowhere else -/

theorem Owned.waiting_leased (ho : Owned s) (hp : s.pendingHandoffs.get? i = some p) :
    ∃ l, s.leases.get? i = some l ∧ s.flights i = 0 := by
  obtain ⟨_, l, hr⟩ := ho.retained hp
  exact ⟨l, hr.lease, hr.flights⟩

theorem Owned.waiting_notReady (ho : Owned s) (hp : s.pendingHandoffs.get? i = some p)
    {st : StageName} (hj : j ∈ (s.queues st).snapshot) : i ≠ j := by
  rintro rfl
  obtain ⟨l, hl, _⟩ := ho.waiting_leased hp
  have hzero : (s.queues st).snapshot.count i = 0 := ho.leased_ready hl st
  exact absurd hj (List.count_eq_zero.mp hzero)

theorem Owned.waiting_notParked (ho : Owned s) (hp : s.pendingHandoffs.get? i = some p)
    {entry : TimerEntry} (hentry : entry ∈ s.timers) : entry.item ≠ i := by
  rintro rfl
  obtain ⟨l, hl, _⟩ := ho.waiting_leased hp
  exact absurd (List.mem_map_of_mem hentry) (List.count_eq_zero.mp (ho.leased_timers hl))

theorem waiting_notInHand (hp : s.pendingHandoffs.get? i = some p) (hj : s.InHand j) : i ≠ j := by
  rintro rfl
  rw [hj.2.1] at hp
  cases hp

theorem Owned.waiting_notOut (ho : Owned s) (hp : s.pendingHandoffs.get? i = some p)
    {handle : JobHandle} {auxiliary : Bool}
    (hget : (if auxiliary then s.auxiliaryInFlight else s.inFlight).get? handle = some j) :
    i ≠ j := by
  rintro rfl
  obtain ⟨l, hl, hflights⟩ := ho.waiting_leased hp
  have hmem := List.mem_map_of_mem (f := Prod.snd) (Dict.mem_of_get? hget)
  have hzero : s.inFlight.values.count i + s.auxiliaryInFlight.values.count i = 0 := hflights
  cases auxiliary with
  | true =>
      have hpos : 0 < s.auxiliaryInFlight.values.count i := List.count_pos_iff.mpr hmem
      omega
  | false =>
      have hpos : 0 < s.inFlight.values.count i := List.count_pos_iff.mpr hmem
      omega

/-! ## Operations that choose their item -/

theorem leaves_onQueues {α : Type} (c : QueueCommand StageName α) :
    (onQueues c).Along (Leaves i) s :=
  .get_bind ((Along.set (.books rfl rfl)).bind fun _ _ => .attempt _)

theorem leaves_claimItem (stage : StageName) (index : Nat) :
    (claimItem stage index).Along (Leaves i) s := by
  unfold claimItem
  refine .get_bind ?_
  split
  · exact .pure _
  · refine (Along.set (.books rfl rfl)).bind fun _ t => ?_
    split
    · exact (leaves_onQueues _).bind fun _ _ => .throw _
    · exact (Along.modify (.books rfl rfl)).bind fun _ _ => .pure _

/-- A claimed item was ready. -/
theorem claimItem_ready {stage : StageName} {index : Nat}
    (h : (claimItem stage index).exec s = (.ok (some j), t)) :
    j ∈ (s.queues stage).snapshot := by
  unfold claimItem StageQueue.claimAt at h
  rw [exec_bind, exec_get] at h
  rcases hslot : (s.queues stage).items[index]? with _ | slot
  · simp [hslot] at h
  · simp only [hslot, Option.map_some] at h
    obtain ⟨_, u, _, h⟩ := bind_ok.mp h
    have hmem : slot.2 ∈ (s.queues stage).snapshot :=
      List.mem_map_of_mem (List.mem_of_getElem? hslot)
    split at h
    · obtain ⟨_, _, _, h⟩ := bind_ok.mp h
      simp at h
    · obtain ⟨_, v, _, h⟩ := bind_ok.mp h
      simp only [exec_pure, Prod.mk.injEq, Except.ok.injEq, Option.some.injEq] at h
      exact h.1 ▸ hmem

theorem leaves_claimSelected : (claimSelectedImplementationItem j).Along (Leaves i) s := by
  unfold claimSelectedImplementationItem
  refine .get_bind ?_
  dsimp only
  split
  · refine (leaves_claimItem _ _).bind fun claimed t => ?_
    split
    · exact .throw _
    · exact .pure _
  · exact .pure _

/-- A selected item was ready. -/
theorem claimSelected_ready (h : (claimSelectedImplementationItem j).exec s = (.ok true, t)) :
    j ∈ (s.queues .implementation).snapshot := by
  unfold claimSelectedImplementationItem at h
  rw [exec_bind, exec_get] at h
  dsimp only at h
  split at h
  · next hmem => simpa using hmem
  · simp at h

variable (ho : Owned s) (hp : s.pendingHandoffs.get? i = some p)

include ho hp

theorem leaves_drainOne (w : World ω) (stage : StageName) (index : Nat) :
    (drainOne host w stage index).Along (Leaves i) s := by
  refine (leaves_claimItem _ _).bind_of fun claimed t hclaim => ?_
  cases claimed with
  | none => exact .pure _
  | some j =>
      have hne := ho.waiting_notReady hp (claimItem_ready hclaim)
      refine .get_bind ?_
      split
      · exact leaves_of_touches (along_runItem w) hne
      · exact (leaves_of_touches along_restoreSourceLease hne).bind fun _ _ => .pure _

/-- What is done with a selected item is not done with one that waits. -/
theorem leaves_selected {x : Op Unit} (hx : ∀ t, x.Along (Touches j) t) :
    (do if ← claimSelectedImplementationItem j then x else pure () : Op Unit).Along
      (Leaves i) s := by
  refine leaves_claimSelected.bind_of fun claimed t hclaim => ?_
  cases claimed with
  | true => exact leaves_of_touches (hx t) (ho.waiting_notReady hp (claimSelected_ready hclaim))
  | false => exact .pure _

theorem leaves_dispatchOne (w : World ω) : (dispatchOne host w j).Along (Leaves i) s := by
  unfold dispatchOne
  refine .get_bind ?_
  split
  · exact .pure _
  · exact leaves_selected ho hp fun t =>
      Along.bind (along_editItem fun _ => rfl) fun _ _ => along_runItem w

theorem leaves_handleCompletion (w : World ω) (handle : JobHandle) (result : JobResult)
    (auxiliary : Bool) :
    (handleCompletion host w handle result auxiliary).Along (Leaves i) s := by
  unfold handleCompletion
  refine .get_bind ?_
  split
  · exact .pure _
  · next j hget =>
      have hne := ho.waiting_notOut hp hget
      refine Along.bind (.set ?_) fun _ t => ?_
      · unfold Coordinator.popFlight
        split
        · exact .books rfl rfl
        · exact .books rfl rfl
      · split
        · exact leaves_of_touches (along_completeRateBudget _ _) hne
        · exact leaves_of_touches (along_completeJob _ _ _) hne

omit ho hp

/-- The loop over the heap. -/
theorem leaves_wakeLoop (config : PipelineConfig) (now : ℚ) (fuel : Nat)
    (h : ∀ entry ∈ s.timers, entry.item ∈ s.seenItemIds ∧ entry.item ≠ i) :
    (wakeLoop config now fuel).Along (Leaves i) s := by
  induction fuel generalizing s with
  | zero => exact .pure _
  | succ fuel ih =>
      unfold wakeLoop
      refine .get_bind ?_
      split
      · exact .pure _
      · next entry rest htimers =>
          split
          · obtain ⟨hseen, hne⟩ := h entry (htimers ▸ List.mem_cons_self)
            unfold Along
            rw [exec_bind, exec_pushItem_tracked hseen]
            by_cases hc : (s.queues (s.stageOf entry.item)).canOffer = true
            · rw [if_pos hc]
              dsimp only
              rw [if_pos rfl, exec_bind, exec_modify]
              have hmoved : Leaves i s { { s with
                  queues := Function.update s.queues (s.stageOf entry.item)
                    ((s.queues (s.stageOf entry.item)).append entry.item) }.admitPushed entry.item
                      (s.stageOf entry.item) false false with timers := s.timers.tail } :=
                ⟨rfl, setItem_workItem_ne _ hne.symm⟩
              refine IsTrans.trans _ _ _ hmoved (ih fun e he => ?_)
              exact h e (List.mem_of_mem_tail he)
            · rw [if_neg hc]
              exact refl s
          · exact .pure _

theorem leaves_pushItem {config : PipelineConfig} {stage : StageName} {deferIfFull : Bool}
    (hne : i ≠ j) : (pushItem config j stage true deferIfFull).Along (Leaves i) s := by
  have hpermit : Leaves i s (if decide (j ∉ s.seenItemIds) then
      s.tryAcquireWorkPermit config j stage else (true, s)).2 := by
    split
    · rcases heq : s.tryAcquireWorkPermit config j stage with ⟨granted, t⟩
      rw [tryAcquireWorkPermit_eq heq]
      exact .books rfl rfl
    · exact refl s
  unfold pushItem
  refine .get_bind ?_
  dsimp only
  split
  · exact .pure _
  · generalize (if decide (j ∉ s.seenItemIds) then
      s.tryAcquireWorkPermit config j stage else (true, s)) = permit at hpermit ⊢
    refine (Along.set hpermit).bind fun _ t => ?_
    split
    · exact .pure _
    · have hfull : ∀ u, (if deferIfFull then pure false
          else throw ⟨.overflowError, "StageQueue is full"⟩ : Op Bool).Along (Leaves i) u := by
        intro u
        split
        · exact .pure _
        · exact .throw _
      cases (permit.2.queues stage).offer j with
      | none =>
          dsimp only
          split
          · exact (Along.modify (.books rfl rfl)).bind fun _ u => hfull u
          · exact hfull t
      | some q =>
          refine Along.bind (.modify ?_) fun _ _ => .pure _
          unfold Coordinator.admitPushed
          dsimp only
          split
          · exact ⟨rfl, setItem_workItem_ne _ hne⟩
          · exact ⟨rfl, setItem_workItem_ne _ hne⟩

/-! ## Steps -/

/-- A step leaves a waiting item as it is, or carries out its route. -/
theorem step_waiting {e : CoordinatorEvent ω} (hs : Sound host s)
    (hp : s.pendingHandoffs.get? i = some p) (hstep : s.step host e = some t) :
    Leaves i s t ∨ (t.pendingHandoffs.get? i = none ∧ t.workItem i = (s.workItem i).arrived p) := by
  have ho := hs.owned
  have hguard : ∀ {q : Prop} [Decidable q] {u : Coordinator},
      (if q then some u else none) = some t → q ∧ u = t := by
    intro q _ u h
    split at h
    · next hq => exact ⟨hq, Option.some.inj h⟩
    · cases h
  cases e with
  | push new deferIfFull =>
      obtain ⟨l, hl, _⟩ := ho.waiting_leased hp
      have hborn : i ≠ s.allocated := by
        rintro rfl
        exact ho.unborn _ le_rfl (ho.leased_fresh hl).1
      rw [← Option.some.inj hstep]
      have halloc : Leaves i s (s.alloc new.item) := ⟨rfl, setItem_workItem_ne _ hborn⟩
      exact .inl (IsTrans.trans _ _ _ halloc (leaves_pushItem hborn))
  | claim stage index => exact .inl (Option.some.inj hstep ▸ leaves_claimItem _ _)
  | restore j =>
      obtain ⟨hj, rfl⟩ := hguard hstep
      exact .inl (leaves_of_touches along_restoreSourceLease (waiting_notInHand hp hj))
  | route w j outcome =>
      obtain ⟨hj, rfl⟩ := hguard hstep
      exact .inl (leaves_of_touches (along_route _ _) (waiting_notInHand hp hj))
  | runItem w j =>
      obtain ⟨hj, rfl⟩ := hguard hstep
      exact .inl (leaves_of_touches (along_runItem _) (waiting_notInHand hp hj))
  | submit w j request =>
      obtain ⟨hj, rfl⟩ := hguard hstep
      exact .inl (leaves_of_touches (along_submit _ _) (waiting_notInHand hp hj.1))
  | completion w handle result auxiliary =>
      exact .inl (Option.some.inj hstep ▸ leaves_handleCompletion ho hp _ _ _ _)
  | timerPark now j delay =>
      obtain ⟨hj, rfl⟩ := hguard hstep
      exact .inl (leaves_of_touches (along_timerPark _ _) (waiting_notInHand hp hj))
  | wakeTimers now =>
      have hloop := leaves_wakeLoop (i := i) host.config now s.timers.length
        fun entry hentry => ⟨ho.timer_seen hentry, ho.waiting_notParked hp hentry⟩
      exact .inl (Option.some.inj hstep ▸ Along.get_bind hloop)
  | handoff j target enter result =>
      obtain ⟨hj, rfl⟩ := hguard hstep
      exact .inl (leaves_of_touches (along_handoffItem _ _ _ _) (waiting_notInHand hp hj.1))
  | drainPendingHandoffs =>
      rw [← Option.some.inj hstep]
      have hdrain := wp_state (wp_mono (Reached.refl hs).drainPendingHandoffs_carriesOut
        (fun _ _ ht => ht.2) fun _ _ hf => hf.elim)
      rcases hdrain i with ⟨hpend, hitem⟩ | ⟨p', hp', hnone, hitem⟩
      · exact .inl ⟨hpend, hitem⟩
      · rw [hp] at hp'
        obtain rfl := Option.some.inj hp'
        exact .inr ⟨hnone, hitem⟩
  | parkResumable j =>
      obtain ⟨hj, rfl⟩ := hguard hstep
      exact .inl (leaves_of_touches (along_parkResumable _) (waiting_notInHand hp hj))
  | drain w stage index => exact .inl (Option.some.inj hstep ▸ leaves_drainOne ho hp _ _ _)
  | dispatch w j => exact .inl (Option.some.inj hstep ▸ leaves_dispatchOne ho hp _)
  | finishSelected j passed reason =>
      exact .inl (Option.some.inj hstep ▸ leaves_selected ho hp fun _ => along_finish _ _)
  | deferSelected w j message =>
      exact .inl (Option.some.inj hstep ▸
        leaves_selected ho hp fun _ => along_deferImplementationPlanRead _ _)
  | retireSource => exact .inl (Option.some.inj hstep ▸ .books rfl rfl)
  | signal => exact .inl (Option.some.inj hstep ▸ .books rfl rfl)

end Hephaestus.Pipeline
