import Hephaestus.Proofs.Driving

/-!
# Every step is a sequence of moves

The operations that start without an item in hand: pushes, claims, timers,
retained routes and completions. Each one either takes an item in hand and
drives it, or moves items that nobody is driving, and so every step of the
coordinator is a sequence of moves.
-/

namespace Hephaestus.Pipeline

open Hephaestus.Lib Hephaestus.Lib.Command StageQueueLease

variable {ω : Type} {host : Host ω} {s₀ s s' : Coordinator} {i j : ItemId}
  {l : StageQueueLease StageName}

/-- An operation that leaves the coordinator in a reached state, whether it
returns or raises. -/
def Runs (host : Host ω) (s₀ : Coordinator) {α : Type} (x : Op α) (s : Coordinator) : Prop :=
  x.wp (fun _ => Reached host s₀) (fun _ => Reached host s₀) s

theorem PassesOn.runs {α : Type} {x : Op α} (h : PassesOn host s₀ i x s) :
    Runs host s₀ x s :=
  wp_mono h (fun _ _ hr => hr) fun _ _ hf => hf.toReached

theorem LetsGo.runs {α : Type} {x : Op α} (h : LetsGo host s₀ x s) : Runs host s₀ x s :=
  wp_mono h (fun _ _ hr => hr) fun _ _ hf => hf.elim

/-! ## Claims -/

/-- A claim takes a ready item of the queue in hand. -/
theorem Reached.claimItem (h : Reached host s₀ s) (stage : StageName) (index : Nat) :
    (claimItem stage index).wp
      (fun r t => match r with
        | none => t = s ∧ (s.queues stage).items[index]? = none
        | some i => Driven host s₀ i t ∧ t.stageOf i = stage ∧
            (s.queues stage).items[index]?.map Prod.snd = some i)
      (fun _ _ => False) s := by
  unfold Pipeline.claimItem
  rw [wp_bind, wp_get]
  unfold StageQueue.claimAt
  rcases hslot : (s.queues stage).items[index]? with _ | ⟨ticket, i⟩
  · exact ⟨rfl, rfl⟩
  · obtain ⟨hnone, hstage, _⟩ := h.sound.owned.claim hslot
    obtain ⟨holder, hv⟩ := h.sound.owned.held i
    have hlease : holder.ticket? = none := by
      have hl : s.leases.get? i = _ := hv.lease
      rw [hnone] at hl
      exact Option.map_eq_none_iff.mp hl.symm
    simp only [Option.map_some, wp_bind, wp_set, hnone, Option.isSome_none, Bool.false_eq_true,
      if_false, wp_modify, wp_pure]
    refine ⟨⟨h.move (.claim hslot), ?_, ?_, ?_⟩, hstage, trivial⟩
    · simp
    · rcases hp : s.pendingHandoffs.get? i with _ | p
      · rfl
      · have hsome := (hv.pending p hp).1
        rw [hlease] at hsome
        cases hsome
    · have hflights : s.flights i ≤ _ := hv.flights
      rw [hlease] at hflights
      exact Nat.le_zero.mp hflights

theorem Reached.drainOne (h : Reached host s₀ s) (w : World ω) (stage : StageName)
    (index : Nat) : LetsGo host s₀ (drainOne host w stage index) s := by
  unfold Pipeline.drainOne LetsGo
  rw [wp_bind]
  refine wp_mono (h.claimItem stage index) (fun r t ht => ?_) fun _ _ hf => hf
  cases r with
  | none =>
      obtain ⟨rfl, _⟩ := ht
      exact h
  | some i =>
      obtain ⟨hd, _⟩ := ht
      dsimp only
      rw [wp_bind, wp_get]
      split
      · exact hd.runItem w
      · exact hd.restore.discard

/-- A selected implementation item is claimed under its own name. -/
theorem Reached.claimSelected (h : Reached host s₀ s) (i : ItemId) :
    (claimSelectedImplementationItem i).wp
      (fun claimed t => if claimed then Working host s₀ i t else t = s)
      (fun _ _ => False) s := by
  unfold claimSelectedImplementationItem
  rw [wp_bind, wp_get]
  dsimp only
  split
  · next hmem =>
      have hmem' : i ∈ (s.queues .implementation).snapshot := List.contains_iff_mem.mp hmem
      have hfound : (s.queues .implementation).items[
          (s.queues .implementation).snapshot.idxOf i]?.map Prod.snd = some i := by
        rw [← List.getElem?_map]
        exact List.getElem?_idxOf hmem'
      rw [wp_bind]
      refine wp_mono (h.claimItem _ _) (fun r t ht => ?_) fun _ _ hf => hf
      cases r with
      | none =>
          rw [ht.2] at hfound
          cases hfound
      | some k =>
          obtain ⟨hd, hstage, hk⟩ := ht
          obtain rfl : i = k := Option.some.inj (hfound.symm.trans hk)
          rw [if_neg (by simp)]
          refine ⟨hd, fun hfin => ?_⟩
          cases hstage.symm.trans hfin
  · exact rfl

theorem Reached.dispatchOne (h : Reached host s₀ s) (w : World ω) (i : ItemId) :
    LetsGo host s₀ (dispatchOne host w i) s := by
  unfold Pipeline.dispatchOne LetsGo
  rw [wp_bind, wp_get]
  split
  · exact h
  · rw [wp_bind]
    refine wp_mono (h.claimSelected i) (fun claimed t ht => ?_) fun _ _ hf => hf
    cases claimed with
    | false =>
        obtain rfl : t = s := ht
        exact h
    | true =>
        have hp : Preserves (t.workItem i)
            (((t.workItem i).popPayload fileOverlapDeferralsKey).popPayload
              fileOverlapBlockedClaimsKey) :=
          (Preserves.popPayload _ _ (by decide) (by decide)).trans
            (Preserves.popPayload _ _ (by decide) (by decide))
        rw [if_pos rfl, wp_bind, wp_editItem]
        exact (Working.edit ht hp).runItem w

theorem Reached.finishSelected (h : Reached host s₀ s) (i : ItemId) (passed : Bool)
    (reason : String) : LetsGo host s₀ (finishSelected host i passed reason) s := by
  unfold Pipeline.finishSelected LetsGo
  rw [wp_bind]
  refine wp_mono (h.claimSelected i) (fun claimed t ht => ?_) fun _ _ hf => hf
  cases claimed with
  | false =>
      obtain rfl : t = s := ht
      exact h
  | true => exact Working.finish ht passed reason

theorem Working.deferImplementationPlanRead (h : Working host s₀ i s) (w : World ω)
    (message : String) : LetsGo host s₀ (deferImplementationPlanRead host w i message) s := by
  unfold Pipeline.deferImplementationPlanRead LetsGo
  rw [wp_bind, wp_get]
  split
  · exact h.parkResumable
  · dsimp only
    rw [wp_bind, wp_editItem]
    have hp : Preserves (s.workItem i) { s.workItem i with
        attempts := (s.workItem i).attempts.set "plan_admission"
          (((s.workItem i).attempts.get? "plan_admission").getD 0 + 1) } :=
      .of_eq rfl rfl rfl rfl id rfl
    have hedit := h.edit hp
    split
    · exact hedit.finish _ _
    · rw [wp_bind, wp_editItem]
      exact (hedit.edit (Preserves.setPayload _ _ _ (by decide) (by decide))).routeRetry w _

theorem Reached.deferSelected (h : Reached host s₀ s) (w : World ω) (i : ItemId)
    (message : String) : LetsGo host s₀ (deferSelected host w i message) s := by
  unfold Pipeline.deferSelected LetsGo
  rw [wp_bind]
  refine wp_mono (h.claimSelected i) (fun claimed t ht => ?_) fun _ _ hf => hf
  cases claimed with
  | false =>
      obtain rfl : t = s := ht
      exact h
  | true => exact Working.deferImplementationPlanRead ht w message

/-! ## Completions -/

/-- A completion for a job in its registry: the item comes in hand. -/
theorem Reached.completed (h : Reached host s₀ s) {handle : JobHandle} {auxiliary : Bool}
    (hget : (if auxiliary then s.auxiliaryInFlight else s.inFlight).get? handle = some i)
    (repo : String) : Working host s₀ i (s.popFlight handle auxiliary repo) := by
  have hlt : (s.popFlight handle auxiliary repo).flights i < s.flights i := by
    cases auxiliary with
    | false => exact Nat.add_lt_add_right (Dict.count_values_erase_lt hget) _
    | true => exact Nat.add_lt_add_left (Dict.count_values_erase_lt hget) _
  have hframe : (s.popFlight handle auxiliary repo).leases = s.leases ∧
      (s.popFlight handle auxiliary repo).pendingHandoffs = s.pendingHandoffs ∧
      (s.popFlight handle auxiliary repo).workItem = s.workItem := by
    cases auxiliary <;> exact ⟨rfl, rfl, rfl⟩
  obtain ⟨holder, hv⟩ := h.sound.owned.held i
  have hflights : s.flights i ≤ if holder.ticket?.isSome then 1 else 0 := hv.flights
  obtain ⟨t, ht⟩ : ∃ t, holder.ticket? = some t := by
    rw [← Option.isSome_iff_exists]
    by_contra hnone
    rw [if_neg hnone] at hflights
    omega
  have hlease : s.leases.get? i = some ⟨s.stageOf i, i, t⟩ := by
    have hl : s.leases.get? i = _ := hv.lease
    rw [hl, ht]
    rfl
  refine ⟨⟨h.move (.complete handle auxiliary repo), ?_, ?_, ?_⟩, fun hfin => ?_⟩
  · rw [hframe.1, hlease]
    rfl
  · rw [hframe.2.1]
    rcases hp : s.pendingHandoffs.get? i with _ | p
    · rfl
    · have hzero : s.flights i = 0 := (hv.pending p hp).2.1
      omega
  · rw [ht] at hflights
    simp only [Option.isSome_some, if_true] at hflights
    omega
  · -- A job out of the sink: `RECORD` is behind the item.
    rw [Coordinator.stageOf, hframe.2.2] at hfin
    rw [hframe.2.2]
    by_contra hrec
    have hseen := (h.sound.owned.leased_fresh hlease).1
    have hzero := (h.sound.sinking i hseen hfin (by simpa using hrec)).1
    omega

theorem Reached.handleCompletion (h : Reached host s₀ s) (w : World ω) (handle : JobHandle)
    (result : JobResult) (auxiliary : Bool) :
    Runs host s₀ (handleCompletion host w handle result auxiliary) s := by
  unfold Pipeline.handleCompletion Runs
  rw [wp_bind, wp_get]
  split
  · exact h
  · next i hget =>
      rw [wp_bind, wp_set]
      have hw := h.completed hget (s.workItem i).repo
      split
      · exact (hw.completeRateBudget w result).runs
      · exact (hw.completeJob w handle result).runs

/-! ## Pushes and timers -/

/-- A refused permit changes nothing. -/
theorem tryAcquireWorkPermit_refused {config : PipelineConfig} {stage : StageName}
    {t : Coordinator} (h : s.tryAcquireWorkPermit config i stage = (false, t)) : t = s := by
  unfold Coordinator.tryAcquireWorkPermit at h
  split at h <;> split at h
  · cases h
  · split at h
    · exact (Prod.mk.inj h).2.symm
    · cases h
  · cases h
  · split at h
    · exact (Prod.mk.inj h).2.symm
    · cases h

/-- Taking a permit and giving it back changes nothing, for an item that had
none. -/
theorem releaseWorkPermit_granted {stage : StageName} {t : Coordinator}
    (hp : Permitted host.config s) (hseen : i ∉ s.seenItemIds)
    (h : s.tryAcquireWorkPermit host.config i stage = (true, t)) :
    t.releaseWorkPermit i = s := by
  obtain ⟨hlive, hlearning⟩ := hp.unseen hseen
  have hgrant := tryAcquireWorkPermit_granted hlive hlearning h
  split at hgrant
  · obtain ⟨_, rfl⟩ := hgrant
    simp only [Coordinator.releaseWorkPermit, Finset.erase_eq_of_notMem hlive,
      Finset.erase_insert hlearning]
  · obtain ⟨_, rfl⟩ := hgrant
    simp only [Coordinator.releaseWorkPermit, Finset.erase_eq_of_notMem hlearning,
      Finset.erase_insert hlive]

/-- The first push of an item: it is admitted, or refused with nothing left
behind. -/
theorem Reached.pushNew (h : Reached host s₀ s) (hborn : i < s.allocated)
    (hseen : i ∉ s.seenItemIds) (hrec : (s.workItem i).summaryRecorded = false)
    (hfin : s.stageOf i = .finished → (s.workItem i).result.isSome = true)
    (deferIfFull : Bool) :
    Runs host s₀ (pushItem host.config i (s.stageOf i) true deferIfFull) s := by
  unfold pushItem Runs
  rw [wp_bind, wp_get]
  simp only [hseen, not_false_eq_true, decide_true, true_and, if_true]
  split
  · exact h
  · rcases hpermit : s.tryAcquireWorkPermit host.config i (s.stageOf i) with ⟨granted, t⟩
    rw [wp_bind, wp_set]
    cases granted with
    | false =>
        obtain rfl := tryAcquireWorkPermit_refused hpermit
        exact h
    | true =>
        simp only [Bool.not_true, Bool.false_eq_true, if_false]
        have hback := releaseWorkPermit_granted h.sound.permitted hseen hpermit
        rcases hoffer : (t.queues (s.stageOf i)).offer i with _ | q
        · dsimp only
          rw [wp_bind, wp_modify, hback]
          split
          · exact h
          · exact h
        · obtain ⟨hc, rfl⟩ := StageQueue.offer_eq_some hoffer
          exact h.move (.admitNew hborn hseen hrec hfin hpermit hc)

/-- A push event: the item object is made, then pushed. -/
theorem Sound.push (h : Sound host s) (new : NewItem) (deferIfFull : Bool) :
    Runs host (s.alloc new.item)
      (pushItem host.config s.allocated new.item.stage true deferIfFull) (s.alloc new.item) := by
  have hunseen : s.allocated ∉ s.seenItemIds := h.owned.unborn _ le_rfl
  have hitem : (s.alloc new.item).workItem s.allocated = new.item := Function.update_self _ _ _
  have hstage : (s.alloc new.item).stageOf s.allocated = new.item.stage := by
    rw [Coordinator.stageOf, hitem]
  have hpush := (Reached.refl ((Move.alloc new).sound h)).pushNew (Nat.lt_succ_self _) hunseen
    (hitem.symm ▸ new.unrecorded summaryRecordedKey (by decide))
    (by rw [hstage, hitem]; exact new.settled) deferIfFull
  rwa [hstage] at hpush

/-- A push of a tracked item: its queue has room, or nothing happens. -/
theorem exec_pushItem_tracked {config : PipelineConfig} {stage : StageName} {enter : Bool}
    (hseen : i ∈ s.seenItemIds) :
    (pushItem config i stage enter true).exec s =
      if (s.queues stage).canOffer then
        (.ok true, { s with
          queues := Function.update s.queues stage
            ((s.queues stage).append i) }.admitPushed i stage enter false)
      else (.ok false, s) := by
  unfold pushItem
  rw [exec_bind, exec_get]
  simp only [hseen, not_true_eq_false, decide_false, Bool.false_eq_true, false_and, if_false,
    exec_bind, exec_set, Bool.not_true, StageQueue.offer]
  by_cases hc : (s.queues stage).canOffer = true
  · simp only [hc, if_true]
    rfl
  · simp only [hc]
    rfl

/-- An item on the heap is live. -/
theorem Owned.timer_seen (ho : Owned s) {entry : TimerEntry} (h : entry ∈ s.timers) :
    entry.item ∈ s.seenItemIds := by
  obtain ⟨holder, hv⟩ := ho.held entry.item
  refine hv.seen.mpr ?_
  rintro rfl
  have hzero : timerCount s.timers entry.item = 0 := hv.timers
  exact absurd (List.mem_map_of_mem h) (List.count_eq_zero.mp hzero)

theorem Reached.wakeLoop (h : Reached host s₀ s) (now : ℚ) (fuel : Nat) :
    LetsGo host s₀ (wakeLoop host.config now fuel) s := by
  induction fuel generalizing s with
  | zero => exact h
  | succ fuel ih =>
      unfold Pipeline.wakeLoop LetsGo
      rw [wp_bind, wp_get]
      split
      · exact h
      · next entry rest htimers =>
          split
          · have hseen := h.sound.owned.timer_seen (htimers ▸ List.mem_cons_self)
            rw [wp_bind]
            unfold wp
            rw [exec_pushItem_tracked hseen]
            by_cases hc : (s.queues (s.stageOf entry.item)).canOffer = true
            · rw [if_pos hc]
              show Command.wp _ _ _ _
              rw [if_pos rfl, wp_bind, wp_modify]
              have hwake := h.move (.wake htimers hc)
              refine ih (cast (congrArg (Reached host s₀) ?_) hwake)
              rw [Coordinator.admitPushed, if_neg (by simp)]
              simp only [Coordinator.setItem, htimers, List.tail_cons]
            · rw [if_neg hc]
              exact h
          · exact h

/-! ## Retained routes -/

/-- A retained route is about a leased item with no job out. -/
theorem Owned.retained (ho : Owned s) {p : PendingHandoff}
    (hp : s.pendingHandoffs.get? i = some p) :
    p.item = i ∧ ∃ l, Routable s i l p.target p.enter p.result := by
  obtain ⟨holder, hv⟩ := ho.held i
  obtain ⟨hticket, hflights, hretains⟩ := hv.pending p hp
  obtain ⟨t, ht⟩ := Option.isSome_iff_exists.mp hticket
  have hlease : s.leases.get? i = _ := hv.lease
  rw [ht] at hlease
  refine ⟨hretains.item, _, hlease, hflights, ?_⟩
  obtain ⟨item, target, enter, result⟩ := p
  obtain rfl : item = i := hretains.item
  exact hretains

/-- Once a leased item has gone, its queue has room; the others have what
they had. -/
theorem canOffer_handedOff {queues : StageName → StageQueue} {d d' : StageName}
    (hf : ∀ st, (queues st).Fits) (hl : l.Owned queues) (hne : d' ≠ d)
    (h : d' = l.source ∨ (queues d').canOffer = true) :
    (handedOff queues l d d').canOffer = true := by
  unfold handedOff released
  by_cases hs : d' = l.source
  · subst hs
    rw [Function.update_self, Function.update_of_ne hne]
    exact StageQueue.canOffer_dropLease (hf _) hl
  · rw [Function.update_of_ne hs, Function.update_of_ne hne]
    exact h.resolve_left hs

/-- The other lease is still on the books. -/
theorem StageQueueLease.Owned.handedOff {queues : StageName → StageQueue}
    {m : StageQueueLease StageName} (hm : m.Owned queues) (hne : m.item ≠ l.item)
    (d : StageName) : m.Owned (StageQueueLease.handedOff queues l d) := by
  unfold StageQueueLease.Owned at *
  rw [leased_handedOff, if_neg fun hc => hne hc.1]
  exact hm

theorem wp_handoffBoth {m : StageQueueLease StageName} {d d' : StageName}
    {Q : Bool → Coordinator → Prop} {E : PyError → Coordinator → Prop} (hl : l.Owned s.queues)
    (hm : m.Owned s.queues) (hne : m.item ≠ l.item) (hc : (s.queues d).canOffer = true)
    (hc' : (handedOff s.queues l d d').canOffer = true) :
    (handoffBoth l d m d').wp Q E s ↔
      Q true { s with queues := handedOff (handedOff s.queues l d) m d' } := by
  unfold handoffBoth
  have hfirst := exec_handoff hl d
  have hsecond := exec_handoff (hm.handedOff hne d) d'
  rw [if_pos hc] at hfirst
  rw [if_pos hc'] at hsecond
  simp only [wp_bind, wp_onQueues, wp_of_exec hfirst, if_true, wp_of_exec hsecond]

/-- Two retained routes in opposite directions. -/
structure Complementary (s : Coordinator) (first second : PendingHandoff) : Prop where
  ne : first.item ≠ second.item
  retained : s.pendingHandoffs.get? first.item = some first
  retained' : s.pendingHandoffs.get? second.item = some second
  cross : (s.stageOf first.item).isAuxiliary ≠ first.target.isAuxiliary
  back : (s.stageOf second.item).isAuxiliary = first.target.isAuxiliary
  onward : second.target.isAuxiliary = (s.stageOf first.item).isAuxiliary

/-- The pair moves in one of the three ways, or not at all; capacity that was
there when it was looked for is there when it is used. -/
theorem Reached.movePair (h : Reached host s₀ s) {first second : PendingHandoff}
    (hc : Complementary s first second) {l m : StageQueueLease StageName}
    (hl : Routable s first.item l first.target first.enter first.result)
    (hm : Routable s second.item m second.target second.enter second.result) :
    (movePair first second).wp
      (fun moved t => (moved = none ∧ t = s) ∨ (moved = some true ∧ ∃ queues,
        PairQueues s.queues l m first.target second.target queues ∧ t = { s with queues }))
      (fun _ _ => False) s := by
  have ho := h.sound.owned
  have hlo := ho.owns hl.lease
  have hmo := ho.owns hm.lease
  have hls := ho.lease_source hl.lease
  have hms := ho.lease_source hm.lease
  have hne : l.item ≠ m.item := by
    rw [ho.lease_item hl.lease, ho.lease_item hm.lease]
    exact hc.ne
  -- The two targets are in different lanes, so they do not compete.
  have hlanes : first.target ≠ second.target := by
    intro heq
    exact hc.cross (hc.onward.symm.trans (congrArg StageName.isAuxiliary heq.symm))
  unfold Pipeline.movePair
  rw [wp_bind, wp_get, wp_bind, wp_lookup hl.lease, wp_bind, wp_lookup hm.lease]
  dsimp only
  split
  · next hswap =>
      rw [wp_map, wp_onQueues, hswap.1, hswap.2, ← hls, ← hms,
        wp_of_exec (exec_exchange hlo hmo hne)]
      exact .inr ⟨rfl, _, .exchange rfl rfl, rfl⟩
  · split
    · next hroom =>
        have hsecond := canOffer_handedOff ho.fits hlo hlanes.symm
          (hroom.2.imp_left fun heq => heq.trans hls.symm)
        rw [wp_map, wp_handoffBoth hlo hmo hne.symm hroom.1 hsecond]
        exact .inr ⟨rfl, _, .inOrder hroom.1 hsecond, rfl⟩
    · split
      · next hroom =>
          have hfirst := canOffer_handedOff ho.fits hmo hlanes
            (hroom.2.imp_left fun heq => heq.trans hms.symm)
          rw [wp_map, wp_handoffBoth hmo hlo hne hroom.1 hfirst]
          exact .inr ⟨rfl, _, .reversed hroom.1 hfirst, rfl⟩
      · exact .inl ⟨rfl, rfl⟩

/-- The record of an item once its retained route has been carried out. -/
def WorkItem.arrived (item : WorkItem) (p : PendingHandoff) : WorkItem :=
  { item.moveTo p.target p.enter with result := p.result.orElse fun _ => item.result }

/-- Routes are carried out as they were retained, or stay retained with the
item as it was; none is replaced. -/
def CarriesOut (s t : Coordinator) : Prop :=
  ∀ k, (t.pendingHandoffs.get? k = s.pendingHandoffs.get? k ∧ t.workItem k = s.workItem k) ∨
    ∃ p, s.pendingHandoffs.get? k = some p ∧ t.pendingHandoffs.get? k = none ∧
      t.workItem k = (s.workItem k).arrived p

theorem CarriesOut.refl (s : Coordinator) : CarriesOut s s := fun _ => .inl ⟨rfl, rfl⟩

theorem CarriesOut.trans {t u : Coordinator} (h : CarriesOut s t) (h' : CarriesOut t u) :
    CarriesOut s u := by
  intro k
  rcases h' k with ⟨hk, hitem⟩ | ⟨p, hp, hk, hitem⟩
  · rw [hk, hitem]
    exact h k
  · rcases h k with ⟨hk', hitem'⟩ | ⟨_, _, hnone, _⟩
    · exact .inr ⟨p, hk' ▸ hp, hk, by rw [hitem, hitem']⟩
    · rw [hnone] at hp
      cases hp

theorem CarriesOut.publish {queues : StageName → StageQueue} {p : PendingHandoff}
    (hp : s.pendingHandoffs.get? i = some p) :
    CarriesOut s ({ s with queues }.publishHandoff i p.target p.enter p.result) := by
  intro k
  rw [publishHandoff_pending, Dict.get?_erase]
  by_cases hk : k = i
  · subst hk
    refine .inr ⟨p, hp, if_pos rfl, ?_⟩
    rw [publishHandoff_workItem_self]
    rfl
  · rw [if_neg hk, publishHandoff_workItem_ne hk]
    exact .inl ⟨rfl, rfl⟩

theorem Reached.completePair (h : Reached host s₀ s) {first second : PendingHandoff}
    (hc : Complementary s first second) :
    (completePendingHandoffPair first second).wp
      (fun moved t => Reached host s₀ t ∧ CarriesOut s t ∧ (moved = false → t = s))
      (fun _ _ => False) s := by
  obtain ⟨_, l, hl⟩ := h.sound.owned.retained hc.retained
  obtain ⟨_, m, hm⟩ := h.sound.owned.retained hc.retained'
  unfold completePendingHandoffPair
  rw [wp_bind]
  refine wp_mono (h.movePair hc hl hm) (fun moved t ht => ?_) fun _ _ hf => hf
  rcases ht with ⟨rfl, rfl⟩ | ⟨rfl, queues, hq, rfl⟩
  · exact ⟨h, CarriesOut.refl t, fun _ => rfl⟩
  · simp only [wp_bind, wp_modify, wp_pure]
    refine ⟨h.move (.pair hc.ne hl hm hc.cross hc.back hc.onward hq), ?_, fun hf => by cases hf⟩
    refine (CarriesOut.publish hc.retained).trans (.publish ?_)
    rw [publishHandoff_pending, Dict.get?_erase, if_neg hc.ne.symm]
    exact hc.retained'

/-- The entries of a snapshot that are still retained are unchanged. -/
def Still (s : Coordinator) (entries : List (ItemId × PendingHandoff)) : Prop :=
  ∀ kv ∈ entries, s.pendingHandoffs.get? kv.1 = some kv.2 ∨ s.pendingHandoffs.get? kv.1 = none

theorem Still.carriesOut {entries : List (ItemId × PendingHandoff)} {t : Coordinator}
    (h : Still s entries) (hs : CarriesOut s t) : Still t entries := by
  intro kv hkv
  rcases hs kv.1 with ⟨hk, _⟩ | ⟨_, _, hk, _⟩
  · rw [hk]
    exact h kv hkv
  · exact .inr hk

/-- Induction over the entries after `first`, which stays retained until a
pair moves. -/
theorem Reached.pairWith (h : Reached host s₀ s) {first : PendingHandoff}
    (hfirst : s.pendingHandoffs.get? first.item = some first)
    {entries : List (ItemId × PendingHandoff)} (hstill : Still s entries)
    (hnd : first.item ∉ entries.map Prod.fst)
    (hcross : (s.stageOf first.item).isAuxiliary ≠ first.target.isAuxiliary) :
    (pairWith first (s.stageOf first.item).isAuxiliary first.target.isAuxiliary entries).wp
      (fun _ t => Reached host s₀ t ∧ CarriesOut s t) (fun _ _ => False) s := by
  induction entries with
  | nil => exact ⟨h, CarriesOut.refl s⟩
  | cons entry rest ih =>
      obtain ⟨secondId, second⟩ := entry
      rw [List.map_cons, List.mem_cons, not_or] at hnd
      have hrest := ih (fun kv hkv => hstill kv (List.mem_cons_of_mem _ hkv)) hnd.2
      unfold Pipeline.pairWith
      rw [wp_bind, wp_get]
      split
      · exact hrest
      · next hsome =>
          have hsecond : s.pendingHandoffs.get? secondId = some second := by
            rcases hstill _ List.mem_cons_self with hk | hk
            · exact hk
            · simp [hk] at hsome
          obtain ⟨rfl, _⟩ := h.sound.owned.retained hsecond
          split
          · next hpair =>
              rw [wp_bind]
              refine wp_mono (h.completePair ⟨hnd.1, hfirst, hsecond, hcross, hpair.1, hpair.2⟩)
                (fun moved t ht => ?_) fun _ _ hf => hf
              cases moved with
              | true => exact ⟨ht.1, ht.2.1⟩
              | false =>
                  obtain rfl := ht.2.2 rfl
                  exact hrest
          · exact hrest

theorem Reached.drainPairs (h : Reached host s₀ s)
    {entries : List (ItemId × PendingHandoff)} (hstill : Still s entries)
    (hnd : (entries.map Prod.fst).Nodup) :
    (drainPairs entries).wp (fun _ t => Reached host s₀ t ∧ CarriesOut s t) (fun _ _ => False)
      s := by
  induction entries generalizing s with
  | nil => exact ⟨h, CarriesOut.refl s⟩
  | cons entry rest ih =>
      obtain ⟨firstId, first⟩ := entry
      rw [List.map_cons, List.nodup_cons] at hnd
      have hrest : Still s rest := fun kv hkv => hstill kv (List.mem_cons_of_mem _ hkv)
      unfold Pipeline.drainPairs
      rw [wp_bind, wp_get]
      dsimp only
      split
      · next hpending =>
          have hfirst : s.pendingHandoffs.get? firstId = some first := by
            rcases hstill _ List.mem_cons_self with hk | hk
            · exact hk
            · simp [hk] at hpending
          obtain ⟨rfl, _⟩ := h.sound.owned.retained hfirst
          rw [wp_bind]
          refine wp_mono (h.pairWith hfirst hrest hnd.1 hpending.2) (fun _ t ht => ?_)
            fun _ _ hf => hf
          refine wp_mono (ih ht.1 (hrest.carriesOut ht.2) hnd.2) (fun _ u hu => ?_)
            fun _ _ hf => hf
          exact ⟨hu.1, ht.2.trans hu.2⟩
      · exact ih h hrest hnd.2

/-- One retry: the route is carried out, or nothing happens. -/
theorem Reached.retryHandoff (h : Reached host s₀ s) {entry : ItemId × PendingHandoff}
    (hentry : s.pendingHandoffs.get? entry.1 = some entry.2) :
    (retryHandoff host.config entry).wp
      (fun _ t => Reached host s₀ t ∧ CarriesOut s t ∧ ∀ k, k ≠ entry.1 →
        t.pendingHandoffs.get? k = s.pendingHandoffs.get? k) (fun _ _ => False) s := by
  obtain ⟨hitem, l, hr⟩ := h.sound.owned.retained hentry
  unfold Pipeline.retryHandoff
  rw [wp_bind, wp_get, wp_bind, wp_lookup hr.lease]
  dsimp only
  split
  · next hlane =>
      rw [wp_bind, wp_onQueues]
      unfold wp
      rw [exec_handoff (h.sound.owned.owns hr.lease)]
      by_cases hc : (s.queues entry.2.target).canOffer = true
      · rw [if_pos hc]
        refine ⟨h.move (.handoff hr (hitem ▸ hlane) hc), .publish hentry, fun k hk => ?_⟩
        rw [publishHandoff_pending, Dict.get?_erase, if_neg hk]
      · rw [if_neg hc]
        exact ⟨h, CarriesOut.refl s, fun _ _ => rfl⟩
  · exact ⟨h, CarriesOut.refl s, fun _ _ => rfl⟩

theorem Reached.retryAll (h : Reached host s₀ s) {entries : List (ItemId × PendingHandoff)}
    (hentries : ∀ kv ∈ entries, s.pendingHandoffs.get? kv.1 = some kv.2)
    (hnd : (entries.map Prod.fst).Nodup) :
    (entries.forM (Pipeline.retryHandoff host.config)).wp
      (fun _ t => Reached host s₀ t ∧ CarriesOut s t) (fun _ _ => False) s := by
  induction entries generalizing s with
  | nil => exact ⟨h, CarriesOut.refl s⟩
  | cons entry rest ih =>
      rw [List.map_cons, List.nodup_cons] at hnd
      show Command.wp (Pipeline.retryHandoff host.config entry >>= fun _ =>
        rest.forM (Pipeline.retryHandoff host.config)) _ _ s
      rw [wp_bind]
      refine wp_mono (h.retryHandoff (hentries entry List.mem_cons_self)) (fun _ t ht => ?_)
        fun _ _ hf => hf
      have hrest : ∀ kv ∈ rest, t.pendingHandoffs.get? kv.1 = some kv.2 := by
        intro kv hkv
        have hne : kv.1 ≠ entry.1 := fun heq => hnd.1 (heq ▸ List.mem_map_of_mem hkv)
        rw [ht.2.2 kv.1 hne]
        exact hentries kv (List.mem_cons_of_mem _ hkv)
      exact wp_mono (ih ht.1 hrest hnd.2) (fun _ u hu => ⟨hu.1, ht.2.1.trans hu.2⟩)
        fun _ _ hf => hf

/-- A drain carries out the routes it can, as they were retained. -/
theorem Reached.drainPendingHandoffs_carriesOut (h : Reached host s₀ s) :
    (drainPendingHandoffs host.config).wp (fun _ t => Reached host s₀ t ∧ CarriesOut s t)
      (fun _ _ => False) s := by
  unfold Pipeline.drainPendingHandoffs drainComplementaryHandoffPairs
  rw [wp_bind, wp_bind, wp_get]
  have hstill : Still s s.pendingHandoffs := fun kv hkv =>
    .inl (Dict.get?_of_mem h.sound.keyed hkv)
  refine wp_mono (h.drainPairs hstill h.sound.keyed) (fun _ t ht => ?_) fun _ _ hf => hf
  obtain ⟨hreached, hcarries⟩ := ht
  rw [wp_bind, wp_get]
  refine wp_mono (hreached.retryAll
    (fun kv hkv => Dict.get?_of_mem hreached.sound.keyed hkv) hreached.sound.keyed)
    (fun _ u hu => ⟨hu.1, hcarries.trans hu.2⟩) fun _ _ hf => hf

theorem Reached.drainPendingHandoffs (h : Reached host s₀ s) :
    LetsGo host s₀ (drainPendingHandoffs host.config) s :=
  wp_mono h.drainPendingHandoffs_carriesOut (fun _ _ ht => ht.1) fun _ _ hf => hf

/-! ## Steps -/

/-- Every step of a sound coordinator is a sequence of moves. -/
theorem Coordinator.step_reached {e : CoordinatorEvent ω} (h : Sound host s)
    (hstep : s.step host e = some s') : Reached host s s' := by
  have hr := Reached.refl h
  have hdriven : ∀ {i}, s.InHand i → Driven host s i s := fun hh => ⟨hr, hh⟩
  cases e with
  | push new deferIfFull =>
      obtain rfl := Option.some.inj hstep
      have hpush := wp_state (h.push new deferIfFull)
      exact ⟨hpush.moves.head (.alloc new), hpush.sound⟩
  | claim stage index =>
      obtain rfl := Option.some.inj hstep
      refine wp_state (R := Reached host s) (wp_mono (hr.claimItem stage index)
        (fun r t ht => ?_) fun _ _ hf => hf.elim)
      cases r with
      | none => exact ht.1 ▸ hr
      | some i => exact ht.1.toReached
  | restore i =>
      simp only [Coordinator.step, Option.ite_none_right_eq_some] at hstep
      obtain ⟨hh, heq⟩ := hstep
      obtain rfl := Option.some.inj heq
      exact wp_state (hdriven hh).restore.runs
  | route w i outcome =>
      simp only [Coordinator.step, Option.ite_none_right_eq_some] at hstep
      obtain ⟨hh, heq⟩ := hstep
      obtain rfl := Option.some.inj heq
      by_cases hfin : s.stageOf i = .finished
      · exact wp_state ((hdriven hh).route_finished w outcome hfin).runs
      · have hw : Working host s i s := ⟨hdriven hh, fun hf => absurd hf hfin⟩
        exact wp_state (hw.route w outcome).runs
  | runItem w i =>
      simp only [Coordinator.step, Option.ite_none_right_eq_some] at hstep
      obtain ⟨hh, heq⟩ := hstep
      obtain rfl := Option.some.inj heq
      exact wp_state ((hdriven hh).runItem w).runs
  | submit w i request =>
      simp only [Coordinator.step, Option.ite_none_right_eq_some] at hstep
      obtain ⟨hh, heq⟩ := hstep
      obtain rfl := Option.some.inj heq
      have hw : Working host s i s := ⟨hdriven hh.1, hh.2⟩
      exact wp_state (hw.submit w request).runs
  | completion w handle result auxiliary =>
      obtain rfl := Option.some.inj hstep
      exact wp_state (hr.handleCompletion w handle result auxiliary)
  | timerPark now i delay =>
      simp only [Coordinator.step, Option.ite_none_right_eq_some] at hstep
      obtain ⟨hh, heq⟩ := hstep
      obtain rfl := Option.some.inj heq
      exact wp_state ((hdriven hh).timerPark now delay).runs
  | wakeTimers now =>
      obtain rfl := Option.some.inj hstep
      refine wp_state (R := Reached host s) ?_
      unfold wakeTimers
      rw [wp_bind, wp_get]
      exact (hr.wakeLoop now s.timers.length).runs
  | handoff i target enter result =>
      simp only [Coordinator.step, Option.ite_none_right_eq_some] at hstep
      obtain ⟨⟨hh, hsource, hrepo, hfin⟩, heq⟩ := hstep
      obtain rfl := Option.some.inj heq
      refine wp_state (R := Reached host s) (wp_mono ((hdriven hh).handoffItem
        ⟨hsource, hrepo, fun hf => (hfin hf).1, fun hf => (hfin hf).2⟩) (fun _ _ ht => ht)
        fun _ t ht => ?_)
      exact ht.1 ▸ hr
  | drainPendingHandoffs =>
      obtain rfl := Option.some.inj hstep
      exact wp_state hr.drainPendingHandoffs.runs
  | parkResumable i =>
      simp only [Coordinator.step, Option.ite_none_right_eq_some] at hstep
      obtain ⟨hh, heq⟩ := hstep
      obtain rfl := Option.some.inj heq
      exact wp_state (hdriven hh).parkResumable.runs
  | drain w stage index =>
      obtain rfl := Option.some.inj hstep
      exact wp_state (hr.drainOne w stage index).runs
  | dispatch w i =>
      obtain rfl := Option.some.inj hstep
      exact wp_state (hr.dispatchOne w i).runs
  | finishSelected i passed reason =>
      obtain rfl := Option.some.inj hstep
      exact wp_state (hr.finishSelected i passed reason).runs
  | deferSelected w i message =>
      obtain rfl := Option.some.inj hstep
      exact wp_state (hr.deferSelected w i message).runs
  | retireSource =>
      obtain rfl := Option.some.inj hstep
      exact hr.idle s.directScopeBootstrapPending s.shutdown s.repoIssueSources.tail
  | signal =>
      obtain rfl := Option.some.inj hstep
      exact hr.idle s.directScopeBootstrapPending true s.repoIssueSources

end Hephaestus.Pipeline
