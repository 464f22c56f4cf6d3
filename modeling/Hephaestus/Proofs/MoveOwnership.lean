import Hephaestus.Proofs.Moves

/-!
# Every move keeps the ownership invariant

A move concerns one item, or two when leases change places. The views of all
others stay as they were, up to jobs that went out of the registries, and
the view of the item itself goes from one of the four shapes to another.
-/

namespace Hephaestus.Pipeline

open Hephaestus.Lib StageQueueLease

variable {ω : Type} {host : Host ω} {s s' : Coordinator} {i j : ItemId}
  {l : StageQueueLease StageName} {v : View} {t : Nat}

/-! ## The four shapes -/

theorem Held.flights_le {h : Holder} (hv : Held i h v) {n : Nat} (hn : n ≤ v.flights) :
    Held i h { v with flights := n } where
  ready := hv.ready
  leased := hv.leased
  lease := hv.lease
  timers := hv.timers
  flights := hn.trans hv.flights
  pending := fun p hp =>
    ⟨(hv.pending p hp).1, Nat.le_zero.mp ((hv.pending p hp).2.1 ▸ hn), (hv.pending p hp).2.2⟩
  seen := hv.seen
  fresh := hv.fresh

/-- An item on none of the coordinator's structures, wherever it is held. -/
structure Loose (v : View) : Prop where
  leased : ∀ st, v.leased st = none
  lease : v.lease = none
  flights : v.flights = 0
  pending : v.pending = none

theorem Held.mk_ready (hv : Loose v)
    (hready : ∀ st, v.ready st = if st = v.stage then 1 else 0) (htimers : v.timers = 0)
    (hseen : v.seen) (hrec : v.recorded = false)
    (hfin : v.stage = .finished → v.settled = true) : Held i .ready v where
  ready := fun st => by simpa using hready st
  leased := fun st => by simpa [Holder.ticket?] using hv.leased st
  lease := hv.lease
  timers := htimers
  flights := hv.flights.le
  pending := fun p hp => by simp [hv.pending] at hp
  seen := by simp [hseen]
  fresh := fun _ => ⟨hrec, hfin⟩

theorem Held.mk_leased (hready : ∀ st, v.ready st = 0)
    (hleased : ∀ st, v.leased st = if st = v.stage then some t else none)
    (hlease : v.lease = some ⟨v.stage, i, t⟩) (htimers : v.timers = 0) (hflights : v.flights ≤ 1)
    (hpending : ∀ p, v.pending = some p → v.flights = 0 ∧ Retains i v.stage p) (hseen : v.seen)
    (hrec : v.recorded = false) (hfin : v.stage = .finished → v.settled = true) :
    Held i (.leased t) v where
  ready := fun st => by simpa using hready st
  leased := hleased
  lease := hlease
  timers := by simpa using htimers
  flights := hflights
  pending := fun p hp => ⟨rfl, hpending p hp⟩
  seen := by simp [hseen]
  fresh := fun _ => ⟨hrec, hfin⟩

theorem Held.mk_timer (hv : Loose v) (hready : ∀ st, v.ready st = 0) (htimers : v.timers = 1)
    (hseen : v.seen) (hrec : v.recorded = false)
    (hfin : v.stage = .finished → v.settled = true) : Held i .timer v where
  ready := fun st => by simpa using hready st
  leased := fun st => by simpa [Holder.ticket?] using hv.leased st
  lease := hv.lease
  timers := htimers
  flights := hv.flights.le
  pending := fun p hp => by simp [hv.pending] at hp
  seen := by simp [hseen]
  fresh := fun _ => ⟨hrec, hfin⟩

theorem Held.mk_nowhere (hv : Loose v) (hready : ∀ st, v.ready st = 0) (htimers : v.timers = 0)
    (hseen : ¬ v.seen) : Held i .nowhere v where
  ready := fun st => by simpa using hready st
  leased := fun st => by simpa [Holder.ticket?] using hv.leased st
  lease := hv.lease
  timers := htimers
  flights := hv.flights.le
  pending := fun p hp => by simp [hv.pending] at hp
  seen := by simp [hseen]
  fresh := fun h => by simp [hseen] at h

/-- Writing to an item's record changes nothing of where it is. -/
theorem Held.rewrite {h : Holder} (hv : Held i h v) {settled recorded : Bool}
    (hset : v.settled = true → settled = true) (hrec : recorded = v.recorded) :
    Held i h { v with settled, recorded } where
  ready := hv.ready
  leased := hv.leased
  lease := hv.lease
  timers := hv.timers
  flights := hv.flights
  pending := hv.pending
  seen := hv.seen
  fresh := fun hs => ⟨hrec.trans (hv.fresh hs).1, fun hf => hset ((hv.fresh hs).2 hf)⟩

/-- What an item's lease says about where it is. -/
theorem Owned.leased (ho : Owned s) (hl : s.leases.get? i = some l) :
    ∃ t, Held i (.leased t) (s.view i) ∧ l = ⟨s.stageOf i, i, t⟩ := by
  obtain ⟨h, hv⟩ := ho.held i
  have hlease : some l = h.ticket?.map fun t => ⟨s.stageOf i, i, t⟩ := hl ▸ hv.lease
  cases h with
  | leased t => exact ⟨t, hv, Option.some.inj hlease⟩
  | nowhere => cases hlease
  | ready => cases hlease
  | timer => cases hlease

/-- The queues have every lease of the coordinator on their books. -/
theorem Owned.owns (ho : Owned s) (hl : s.leases.get? i = some l) : l.Owned s.queues := by
  obtain ⟨t, hv, rfl⟩ := ho.leased hl
  have h : (s.queues (s.stageOf i)).leased.get? i = _ := hv.leased (s.stageOf i)
  rw [if_pos (show s.stageOf i = (s.view i).stage from rfl)] at h
  exact h

/-- Where an item in hand is, and that it is live. -/
theorem Owned.inHand (ho : Owned s) (hh : s.InHand i) :
    ∃ t, Held i (.leased t) (s.view i) ∧ s.leases.get? i = some ⟨s.stageOf i, i, t⟩ := by
  obtain ⟨l, hl⟩ := Option.isSome_iff_exists.mp hh.1
  obtain ⟨t, hv, rfl⟩ := ho.leased hl
  exact ⟨t, hv, hl⟩

theorem Owned.inHand_seen (ho : Owned s) (hh : s.InHand i) : i ∈ s.seenItemIds := by
  obtain ⟨t, hv, _⟩ := ho.inHand hh
  exact hv.seen.mpr (by simp)

/-! ## Views after a change of state -/

theorem view_setItem_ne (item : WorkItem) (h : j ≠ i) : (s.setItem i item).view j = s.view j := by
  simp [Coordinator.view, Coordinator.setItem, Coordinator.stageOf, Coordinator.flights,
    Function.update_of_ne h]

theorem view_setItem_self (item : WorkItem) :
    (s.setItem i item).view i =
      { s.view i with
        stage := item.stage
        settled := item.result.isSome
        recorded := item.summaryRecorded } := by
  simp [Coordinator.view, Coordinator.setItem, Coordinator.stageOf, Coordinator.flights]

theorem view_unlease_ne {queues : StageName → StageQueue} (h : j ≠ i)
    (hready : ∀ st, (queues st).readyCount j = (s.queues st).readyCount j)
    (hleased : ∀ st, (queues st).leased.get? j = (s.queues st).leased.get? j) :
    (s.unlease i queues).view j = s.view j := by
  simp [Coordinator.view, Coordinator.unlease, Coordinator.stageOf, Coordinator.flights,
    Dict.get?_erase, h, hready, hleased]

theorem view_unlease_self {queues : StageName → StageQueue} :
    (s.unlease i queues).view i =
      { s.view i with
        ready := fun st => (queues st).readyCount i
        leased := fun st => (queues st).leased.get? i
        lease := none
        pending := none } := by
  simp [Coordinator.view, Coordinator.unlease, Coordinator.stageOf, Coordinator.flights,
    Dict.get?_erase]

/-- A write to one item's record, as far as ownership goes. -/
theorem Owned.setItem (ho : Owned s) {item : WorkItem} (hstage : item.stage = s.stageOf i)
    (hset : (s.workItem i).result.isSome = true → item.result.isSome = true)
    (hrec : item.summaryRecorded = (s.workItem i).summaryRecorded) :
    Owned (s.setItem i item) where
  held := by
    intro j
    obtain ⟨h, hv⟩ := ho.held j
    by_cases hj : j = i
    · subst hj
      refine ⟨h, ?_⟩
      rw [view_setItem_self, hstage]
      exact hv.rewrite hset hrec
    · exact ⟨h, (view_setItem_ne item hj).symm ▸ hv⟩
  fits := ho.fits
  unborn := ho.unborn

/-- Jobs may leave the registries, and fields that no view reads may
change. -/
theorem Owned.of_views (ho : Owned s) (hview : ∀ j, ∃ n ≤ s.flights j,
      s'.view j = { s.view j with flights := n })
    (hqueues : s'.queues = s.queues) (halloc : s'.allocated = s.allocated)
    (hseen : s'.seenItemIds = s.seenItemIds) : Owned s' where
  held := by
    intro j
    obtain ⟨h, hv⟩ := ho.held j
    obtain ⟨n, hn, hview⟩ := hview j
    exact ⟨h, hview ▸ hv.flights_le hn⟩
  fits := hqueues ▸ ho.fits
  unborn := by
    rw [halloc, hseen]
    exact ho.unborn

/-- Only the queues changed. -/
theorem view_queues {queues : StageName → StageQueue} :
    ({ s with queues } : Coordinator).view j =
      { s.view j with
        ready := fun st => (queues st).readyCount j
        leased := fun st => (queues st).leased.get? j } := rfl

/-! ### Entering a stage -/

@[simp] theorem moveTo_stage (item : WorkItem) (target : StageName) (enter : Bool) :
    (item.moveTo target enter).stage = target := by
  cases enter <;> rfl

@[simp] theorem clearFileClaimsOnExit_result (item : WorkItem) (target : StageName) :
    (item.clearFileClaimsOnExit target).result = item.result := by
  unfold WorkItem.clearFileClaimsOnExit
  split <;> rfl

@[simp] theorem moveTo_result (item : WorkItem) (target : StageName) (enter : Bool) :
    (item.moveTo target enter).result = item.result := by
  cases enter <;> simp [WorkItem.moveTo, WorkItem.setPayload]

@[simp] theorem moveTo_issue (item : WorkItem) (target : StageName) (enter : Bool) :
    (item.moveTo target enter).issue = item.issue := by
  have hclear : (item.clearFileClaimsOnExit target).issue = item.issue := by
    unfold WorkItem.clearFileClaimsOnExit
    split <;> rfl
  cases enter <;> exact hclear

/-- Entering a stage writes two keys, and only those. -/
theorem moveTo_get? (item : WorkItem) (target : StageName) (enter : Bool) {key : String}
    (h₁ : implementationFileClaimsPayload ≠ key) (h₂ : enterPendingKey ≠ key) :
    (item.moveTo target enter).payload.get? key = item.payload.get? key := by
  have hclear : (item.clearFileClaimsOnExit target).payload.get? key =
      item.payload.get? key := by
    unfold WorkItem.clearFileClaimsOnExit
    split
    · exact (Dict.get?_erase _ _ _).trans (if_neg h₁.symm)
    · rfl
  cases enter with
  | false => exact hclear
  | true => exact (Dict.get?_set_ne _ _ h₂).trans hclear

theorem moveTo_flag (item : WorkItem) (target : StageName) (enter : Bool) {key : String}
    (h₁ : implementationFileClaimsPayload ≠ key) (h₂ : enterPendingKey ≠ key) :
    (item.moveTo target enter).payload.flag key = item.payload.flag key := by
  rw [Payload.flag, Payload.flag, moveTo_get? item target enter h₁ h₂]

@[simp] theorem moveTo_summaryRecorded (item : WorkItem) (target : StageName) (enter : Bool) :
    (item.moveTo target enter).summaryRecorded = item.summaryRecorded :=
  moveTo_flag item target enter (by decide) (by decide)

@[simp] theorem transferPermit_view (i : ItemId) (source target : StageName) :
    (s.transferPermit i source target).view j = s.view j := by
  unfold Coordinator.transferPermit
  split <;> rfl

theorem view_publishHandoff_ne {target : StageName} {enter : Bool} {result : Option ItemResult}
    (h : j ≠ i) : (s.publishHandoff i target enter result).view j = s.view j := by
  unfold Coordinator.publishHandoff Coordinator.activateHandoff
  rw [view_setItem_ne _ h, transferPermit_view]
  exact view_unlease_ne h (fun _ => rfl) (fun _ => rfl)

theorem view_publishHandoff_self {target : StageName} {enter : Bool}
    {result : Option ItemResult} :
    (s.publishHandoff i target enter result).view i =
      { s.view i with
        stage := target
        settled := (result.orElse fun _ => (s.workItem i).result).isSome
        lease := none
        pending := none } := by
  unfold Coordinator.publishHandoff Coordinator.activateHandoff
  rw [view_setItem_self, transferPermit_view]
  have hu : (s.unlease i s.queues).view i = _ := view_unlease_self
  unfold Coordinator.unlease at hu
  rw [hu]
  simp only [moveTo_stage, moveTo_result, WorkItem.summaryRecorded]
  rw [show (((s.workItem i).moveTo target enter).payload.flag summaryRecordedKey) =
    (s.workItem i).payload.flag summaryRecordedKey from moveTo_summaryRecorded _ _ _]
  rfl

@[simp] theorem publishHandoff_queues {target : StageName} {enter : Bool}
    {result : Option ItemResult} : (s.publishHandoff i target enter result).queues = s.queues := by
  unfold Coordinator.publishHandoff Coordinator.activateHandoff Coordinator.transferPermit
  split <;> rfl

@[simp] theorem publishHandoff_seen {target : StageName} {enter : Bool}
    {result : Option ItemResult} :
    (s.publishHandoff i target enter result).seenItemIds = s.seenItemIds := by
  unfold Coordinator.publishHandoff Coordinator.activateHandoff Coordinator.transferPermit
  split <;> rfl

@[simp] theorem publishHandoff_allocated {target : StageName} {enter : Bool}
    {result : Option ItemResult} :
    (s.publishHandoff i target enter result).allocated = s.allocated := by
  unfold Coordinator.publishHandoff Coordinator.activateHandoff Coordinator.transferPermit
  split <;> rfl

@[simp] theorem publishHandoff_pending {target : StageName} {enter : Bool}
    {result : Option ItemResult} :
    (s.publishHandoff i target enter result).pendingHandoffs = s.pendingHandoffs.erase i := by
  unfold Coordinator.publishHandoff Coordinator.activateHandoff Coordinator.transferPermit
  split <;> rfl

@[simp] theorem publishHandoff_routed {target : StageName} {enter : Bool}
    {result : Option ItemResult} :
    (s.publishHandoff i target enter result).routed = s.routed := by
  unfold Coordinator.publishHandoff Coordinator.activateHandoff Coordinator.transferPermit
  split <;> rfl

theorem publishHandoff_workItem_ne {target : StageName} {enter : Bool}
    {result : Option ItemResult} (h : j ≠ i) :
    (s.publishHandoff i target enter result).workItem j = s.workItem j := by
  unfold Coordinator.publishHandoff Coordinator.activateHandoff Coordinator.transferPermit
  split <;> exact Function.update_of_ne h _ _

/-! ## Ending a lease -/

/-- The item a lease was on leaves it; `hself` is where it goes. -/
theorem Owned.unlease (ho : Owned s) {queues : StageName → StageQueue}
    (hfits : ∀ st, (queues st).Fits)
    (hready : ∀ st j, j ≠ i → (queues st).readyCount j = (s.queues st).readyCount j)
    (hleased : ∀ st j, j ≠ i → (queues st).leased.get? j = (s.queues st).leased.get? j)
    (hself : ∃ h, Held i h ((s.unlease i queues).view i)) : Owned (s.unlease i queues) where
  held := by
    intro j
    by_cases hj : j = i
    · exact hj ▸ hself
    · obtain ⟨h, hv⟩ := ho.held j
      exact ⟨h, (view_unlease_ne hj (hready · j hj) (hleased · j hj)).symm ▸ hv⟩
  fits := hfits
  unborn := ho.unborn

/-- A leased item is not ready anywhere, and not on the heap. -/
theorem Owned.leased_ready (ho : Owned s) (hl : s.leases.get? i = some l) (st : StageName) :
    (s.queues st).readyCount i = 0 := by
  obtain ⟨t, hv, _⟩ := ho.leased hl
  exact (hv.ready st).trans (by simp)

theorem Owned.leased_timers (ho : Owned s) (hl : s.leases.get? i = some l) :
    timerCount s.timers i = 0 := by
  obtain ⟨t, hv, _⟩ := ho.leased hl
  exact hv.timers.trans (by simp)

/-- Once its lease is gone, an item is leased nowhere. -/
theorem Owned.leased_gone (ho : Owned s) (hl : s.leases.get? i = some l) (st : StageName) :
    (if i = l.item ∧ st = l.source then none else (s.queues st).leased.get? i) = none := by
  obtain ⟨t, hv, rfl⟩ := ho.leased hl
  by_cases hst : st = s.stageOf i
  · simp [hst]
  · have h : (s.queues st).leased.get? i = none := (hv.leased st).trans (if_neg hst)
    simp [h]

/-- A leased item is live, with what goes with that. -/
theorem Owned.leased_fresh (ho : Owned s) (hl : s.leases.get? i = some l) :
    i ∈ s.seenItemIds ∧ (s.workItem i).summaryRecorded = false ∧
      (s.stageOf i = .finished → (s.workItem i).result.isSome = true) := by
  obtain ⟨t, hv, _⟩ := ho.leased hl
  have hseen : (s.view i).seen := hv.seen.mpr (by simp)
  exact ⟨hseen, (hv.fresh hseen).1, (hv.fresh hseen).2⟩

/-- What is left of an item's view when its lease is dropped. -/
theorem Owned.loose_released (ho : Owned s) (hh : s.InHand i) (hl : s.leases.get? i = some l) :
    Loose ((s.unlease i (released s.queues l)).view i) := by
  rw [view_unlease_self]
  refine ⟨fun st => ?_, rfl, hh.2.2, rfl⟩
  exact leased_released.trans (ho.leased_gone hl st)

theorem Owned.ready_released (ho : Owned s) (hl : s.leases.get? i = some l) (st : StageName) :
    ((s.unlease i (released s.queues l)).view i).ready st = 0 :=
  readyCount_released.trans (ho.leased_ready hl st)

/-- The other items do not notice that a lease is dropped. -/
theorem view_released_ne (hl : l.item = i) (h : j ≠ i) :
    (s.unlease i (released s.queues l)).view j = s.view j := by
  refine view_unlease_ne h (fun st => readyCount_released) (fun st => ?_)
  rw [leased_released, if_neg fun hc => h (hc.1.trans hl)]

theorem Owned.lease_item (ho : Owned s) (hl : s.leases.get? i = some l) : l.item = i := by
  obtain ⟨t, _, rfl⟩ := ho.leased hl
  rfl

theorem Owned.lease_source (ho : Owned s) (hl : s.leases.get? i = some l) :
    l.source = s.stageOf i := by
  obtain ⟨t, _, rfl⟩ := ho.leased hl
  rfl

theorem Owned.restore (ho : Owned s) (hh : s.InHand i) (hl : s.leases.get? i = some l) :
    Owned (s.unlease i (reinserted s.queues l l.item)) := by
  have hitem := ho.lease_item hl
  refine ho.unlease (fun st => reinserted_fits ho.fits (ho.owns hl)) ?_ ?_ ⟨.ready, ?_⟩
  · intro st j hj
    rw [readyCount_reinserted, if_neg fun hc => hj (hc.1.symm.trans hitem), Nat.add_zero]
  · intro st j hj
    rw [leased_reinserted, if_neg fun hc => hj (hc.1.trans hitem)]
  · obtain ⟨hseen, hrec, hfin⟩ := ho.leased_fresh hl
    rw [view_unlease_self]
    refine Held.mk_ready ⟨fun st => ?_, rfl, hh.2.2, rfl⟩ (fun st => ?_) (ho.leased_timers hl)
      hseen hrec hfin
    · exact leased_reinserted.trans (ho.leased_gone hl st)
    · refine readyCount_reinserted.trans ?_
      rw [ho.leased_ready hl st, hitem, ho.lease_source hl, Nat.zero_add]
      simp only [true_and]
      rfl

theorem timerCount_heappush (timers : List TimerEntry) (e : TimerEntry) (j : ItemId) :
    timerCount (heappush timers e) j = timerCount timers j + if e.item = j then 1 else 0 := by
  have hsplit := List.takeWhile_append_dropWhile (p := (TimerEntry.before · e)) (l := timers)
  unfold timerCount
  conv_rhs => rw [← hsplit]
  simp only [heappush, List.map_append, List.map_cons, List.count_append, List.count_cons,
    beq_iff_eq]
  omega

theorem Owned.park (ho : Owned s) (hh : s.InHand i) (hl : s.leases.get? i = some l) (wake : ℚ)
    (seq : Nat) :
    Owned { s.unlease i (released s.queues l) with
      timers := heappush s.timers ⟨wake, s.seq, i⟩, seq } where
  held := by
    intro j
    have htimers := timerCount_heappush s.timers ⟨wake, s.seq, i⟩ j
    by_cases hj : j = i
    · subst hj
      obtain ⟨hseen, hrec, hfin⟩ := ho.leased_fresh hl
      have hloose := ho.loose_released hh hl
      rw [ho.leased_timers hl, if_pos rfl] at htimers
      exact ⟨.timer, Held.mk_timer ⟨hloose.leased, hloose.lease, hloose.flights, hloose.pending⟩
        (ho.ready_released hl) htimers hseen hrec hfin⟩
    · obtain ⟨h, hv⟩ := ho.held j
      refine ⟨h, ?_⟩
      rw [← view_released_ne (ho.lease_item hl) hj] at hv
      rw [if_neg fun hc => hj hc.symm, Nat.add_zero] at htimers
      exact { hv with timers := htimers.trans hv.timers }
  fits := fun st => released_fits ho.fits
  unborn := ho.unborn

/-! ## Handing over -/

/-- The queues carried an item from the lease it was on to a ready slot in
the queue of `target`. -/
structure Carries (before after : StageName → StageQueue) (i : ItemId)
    (source target : StageName) : Prop where
  ready : ∀ st, (after st).readyCount i =
    (before st).readyCount i + if st = target then 1 else 0
  leased : ∀ st, (after st).leased.get? i =
    if st = source then none else (before st).leased.get? i

theorem Carries.handedOff {queues : StageName → StageQueue} (hl : l.item = i)
    (target : StageName) : Carries queues (handedOff queues l target) i l.source target where
  ready := fun st => by rw [readyCount_handedOff]; simp [hl]
  leased := fun st => by rw [leased_handedOff]; simp [hl]

/-- The view of an item once its destination has it. -/
theorem Owned.held_published (ho : Owned s) {queues : StageName → StageQueue}
    {target : StageName} {enter : Bool} {result : Option ItemResult}
    (hr : Routable s i l target enter result)
    (hc : Carries s.queues queues i l.source target) (hv : s'.view i =
      { s.view i with
        stage := target
        settled := (result.orElse fun _ => (s.workItem i).result).isSome
        ready := fun st => (queues st).readyCount i
        leased := fun st => (queues st).leased.get? i
        lease := none
        pending := none }) : Held i .ready (s'.view i) := by
  obtain ⟨hseen, hrec, _⟩ := ho.leased_fresh hr.lease
  rw [hv]
  refine Held.mk_ready ⟨fun st => ?_, rfl, hr.flights, rfl⟩ (fun st => ?_)
    (ho.leased_timers hr.lease) hseen hrec (fun hf => ?_)
  · have h := ho.leased_gone hr.lease st
    simp only [ho.lease_item hr.lease, true_and] at h
    exact (hc.leased st).trans h
  · exact (hc.ready st).trans (by rw [ho.leased_ready hr.lease st, Nat.zero_add])
  · obtain ⟨r, rfl⟩ : ∃ r, result = some r :=
      Option.isSome_iff_exists.mp (hr.retains.result hf)
    rfl

theorem Owned.handoff (ho : Owned s) {target : StageName} {enter : Bool}
    {result : Option ItemResult} (hr : Routable s i l target enter result)
    (hc : (s.queues target).canOffer = true) :
    Owned ({ s with queues := StageQueueLease.handedOff s.queues l target }.publishHandoff i
      target enter result) where
  held := by
    intro j
    have hitem := ho.lease_item hr.lease
    by_cases hj : j = i
    · subst hj
      refine ⟨.ready, ho.held_published hr (.handedOff hitem target) ?_⟩
      rw [view_publishHandoff_self, view_queues]
    · obtain ⟨h, hv⟩ := ho.held j
      refine ⟨h, ?_⟩
      rw [view_publishHandoff_ne hj, view_queues]
      simp only [readyCount_handedOff, leased_handedOff, hitem, hj, Ne.symm hj, false_and,
        if_false, Nat.add_zero]
      exact hv
  fits := fun st => by simpa using handedOff_fits ho.fits hc
  unborn := by simpa using ho.unborn

/-! ### Two at a time -/

variable {m : StageQueueLease StageName} {target target' : StageName}
  {queues after : StageName → StageQueue}

theorem PairQueues.ready (hp : PairQueues queues l m target target' after) (st : StageName)
    (k : ItemId) :
    (after st).readyCount k = (queues st).readyCount k +
      (if l.item = k ∧ st = target then 1 else 0) +
        if m.item = k ∧ st = target' then 1 else 0 := by
  cases hp with
  | exchange h h' =>
      rw [exchanged, readyCount_reinserted, readyCount_reinserted, h, h']
      omega
  | inOrder _ _ => rw [readyCount_handedOff, readyCount_handedOff]
  | reversed _ _ =>
      rw [readyCount_handedOff, readyCount_handedOff]
      omega

theorem PairQueues.leased (hp : PairQueues queues l m target target' after) (st : StageName)
    (k : ItemId) :
    (after st).leased.get? k =
      if (k = l.item ∧ st = l.source) ∨ (k = m.item ∧ st = m.source) then none
      else (queues st).leased.get? k := by
  cases hp with
  | exchange h h' =>
      rw [exchanged, leased_reinserted, leased_reinserted, ← ite_or]
      simp only [or_comm]
  | inOrder _ _ =>
      rw [leased_handedOff, leased_handedOff, ← ite_or]
      simp only [or_comm]
  | reversed _ _ => rw [leased_handedOff, leased_handedOff, ← ite_or]

theorem PairQueues.fits (hp : PairQueues queues l m target target' after)
    (hf : ∀ st, (queues st).Fits) (hl : l.Owned queues) (hm : m.Owned queues)
    (hne : l.item ≠ m.item) (st : StageName) : (after st).Fits := by
  cases hp with
  | exchange h h' =>
      exact reinserted_fits (fun _ => reinserted_fits hf hl) (hm.reinserted hne.symm _)
  | inOrder h h' => exact handedOff_fits (fun _ => handedOff_fits hf h) h'
  | reversed h h' => exact handedOff_fits (fun _ => handedOff_fits hf h) h'

theorem PairQueues.carries_left (hp : PairQueues queues l m target target' after)
    (hl : l.item = i) (hm : m.item ≠ i) : Carries queues after i l.source target where
  ready := fun st => by rw [hp.ready]; simp [hl, hm]
  leased := fun st => by rw [hp.leased]; simp [hl, Ne.symm hm]

theorem PairQueues.carries_right (hp : PairQueues queues l m target target' after)
    (hl : l.item ≠ j) (hm : m.item = j) : Carries queues after j m.source target' where
  ready := fun st => by rw [hp.ready]; simp [hl, hm]
  leased := fun st => by rw [hp.leased]; simp [hm, Ne.symm hl]

theorem Owned.pair (ho : Owned s) {enter enter' : Bool} {result result' : Option ItemResult}
    (hne : i ≠ j) (hi : Routable s i l target enter result)
    (hj : Routable s j m target' enter' result')
    (hp : PairQueues s.queues l m target target' after) :
    Owned (({ s with queues := after }.publishHandoff i target enter result).publishHandoff j
      target' enter' result') where
  held := by
    intro k
    have hli := ho.lease_item hi.lease
    have hmj := ho.lease_item hj.lease
    by_cases hki : k = i
    · subst hki
      refine ⟨.ready, ho.held_published hi (hp.carries_left hli (hmj ▸ hne.symm)) ?_⟩
      rw [view_publishHandoff_ne hne, view_publishHandoff_self, view_queues]
    · by_cases hkj : k = j
      · subst hkj
        refine ⟨.ready, ho.held_published hj (hp.carries_right (hli ▸ hne) hmj) ?_⟩
        rw [view_publishHandoff_self, view_publishHandoff_ne hki, view_queues,
          publishHandoff_workItem_ne hki]
      · obtain ⟨h, hv⟩ := ho.held k
        refine ⟨h, ?_⟩
        rw [view_publishHandoff_ne hkj, view_publishHandoff_ne hki, view_queues]
        simp only [hp.ready, hp.leased, hli, hmj, hki, hkj, Ne.symm hki, Ne.symm hkj, false_and,
          or_self, if_false, Nat.add_zero]
        exact hv
  fits := by
    intro st
    have hli := ho.lease_item hi.lease
    have hmj := ho.lease_item hj.lease
    rw [publishHandoff_queues, publishHandoff_queues]
    exact hp.fits ho.fits (ho.owns hi.lease) (ho.owns hj.lease) (hli ▸ hmj ▸ hne) st
  unborn := by simpa using ho.unborn

/-! ## The other moves -/

/-- An item that is not live is nowhere. -/
theorem Owned.nowhere (ho : Owned s) (h : i ∉ s.seenItemIds) : Held i .nowhere (s.view i) := by
  obtain ⟨holder, hv⟩ := ho.held i
  have hn : holder = .nowhere := by
    by_contra hne
    exact h (hv.seen.mpr hne)
  exact hn ▸ hv

theorem Held.nowhere_loose (hv : Held i .nowhere v) :
    Loose v ∧ (∀ st, v.ready st = 0) ∧ v.timers = 0 := by
  refine ⟨⟨fun st => (hv.leased st).trans (by simp [Holder.ticket?]), hv.lease,
    Nat.le_zero.mp hv.flights, ?_⟩, fun st => (hv.ready st).trans (by simp), hv.timers⟩
  rcases hp : v.pending with _ | p
  · rfl
  · exact absurd (hv.pending p hp).1 (by simp [Holder.ticket?])

theorem Owned.alloc (ho : Owned s) (item : WorkItem) : Owned (s.alloc item) where
  held := by
    intro j
    by_cases hj : j = s.allocated
    · subst hj
      have hunseen := ho.unborn s.allocated le_rfl
      obtain ⟨hloose, hready, htimers⟩ := (ho.nowhere hunseen).nowhere_loose
      exact ⟨.nowhere, Held.mk_nowhere ⟨hloose.leased, hloose.lease, hloose.flights,
        hloose.pending⟩ hready htimers hunseen⟩
    · obtain ⟨h, hv⟩ := ho.held j
      have hview : (s.alloc item).view j = (s.setItem s.allocated item).view j := rfl
      exact ⟨h, hview ▸ (view_setItem_ne item hj).symm ▸ hv⟩
  fits := ho.fits
  unborn := fun i hi => ho.unborn i (Nat.le_of_succ_le hi)

/-- An item offered to the queue of its stage by whoever held it. -/
theorem Owned.offered (ho : Owned s)
    (hs' : s'.queues = Function.update s.queues (s.stageOf i)
      ((s.queues (s.stageOf i)).append i))
    (hc : (s.queues (s.stageOf i)).canOffer = true)
    (hother : ∀ j, j ≠ i → s'.view j =
      { s.view j with
        ready := fun st => (s'.queues st).readyCount j
        leased := fun st => (s'.queues st).leased.get? j })
    (hself : Held i .ready (s'.view i))
    (hunborn : ∀ j, s'.allocated ≤ j → j ∉ s'.seenItemIds) : Owned s' where
  held := by
    intro j
    by_cases hj : j = i
    · exact ⟨.ready, hj ▸ hself⟩
    · obtain ⟨h, hv⟩ := ho.held j
      refine ⟨h, ?_⟩
      rw [hother j hj, hs']
      simp only [readyCount_offered, leased_offered, Ne.symm hj, false_and, if_false,
        Nat.add_zero]
      exact hv
  fits := fun st => hs' ▸ offered_fits ho.fits hc
  unborn := hunborn

theorem view_admitPushed_ne {stage : StageName} {enter isNew : Bool} (h : j ≠ i) :
    (s.admitPushed i stage enter isNew).view j = s.view j := by
  cases isNew with
  | false => exact view_setItem_ne _ h
  | true =>
      simp [Coordinator.admitPushed, Coordinator.view, Coordinator.setItem,
        Coordinator.stageOf, Coordinator.flights, h]

/-- A tracked item only changes its stage. -/
theorem view_readmitted_self {stage : StageName} {enter : Bool} :
    (s.admitPushed i stage enter false).view i = { s.view i with stage } := by
  refine (view_setItem_self _).trans ?_
  simp [Coordinator.view]

/-- A new item becomes live. -/
theorem view_admitted_self {stage : StageName} {enter : Bool} :
    (s.admitPushed i stage enter true).view i = { s.view i with stage, seen := True } := by
  have hitem : ∀ item : WorkItem, item.stage = stage →
      item.result = (s.workItem i).result →
      item.summaryRecorded = (s.workItem i).summaryRecorded →
      ({ s.setItem i item with
          seenItemIds := insert i s.seenItemIds
          items := s.items ++ [i] } : Coordinator).view i =
        { s.view i with stage, seen := True } := by
    intro item hstage hresult hrec
    simp [Coordinator.view, Coordinator.setItem, Coordinator.stageOf, Coordinator.flights,
      hstage, hresult, hrec]
  unfold Coordinator.admitPushed
  simp only [if_true]
  split
  · exact hitem _ (moveTo_stage _ _ _) (moveTo_result _ _ _) (moveTo_summaryRecorded _ _ _)
  · refine hitem _ (moveTo_stage _ _ _) (moveTo_result _ _ _) ?_
    exact (Payload.flag_set_ne _ (by decide)).trans (moveTo_summaryRecorded _ _ _)

/-- Taking a permit touches the permits only. -/
theorem tryAcquireWorkPermit_eq {config : PipelineConfig} {stage : StageName} {b : Bool}
    {t : Coordinator} (h : s.tryAcquireWorkPermit config i stage = (b, t)) :
    t = { s with
      liveWorkPermitIds := t.liveWorkPermitIds
      learningWorkPermitIds := t.learningWorkPermitIds } := by
  unfold Coordinator.tryAcquireWorkPermit at h
  split at h <;> split at h
  · obtain ⟨_, rfl⟩ := Prod.mk.inj h
    rfl
  · split at h <;> (obtain ⟨_, rfl⟩ := Prod.mk.inj h; rfl)
  · obtain ⟨_, rfl⟩ := Prod.mk.inj h
    rfl
  · split at h <;> (obtain ⟨_, rfl⟩ := Prod.mk.inj h; rfl)

@[simp] theorem admitPushed_queues {stage : StageName} {enter isNew : Bool} :
    (s.admitPushed i stage enter isNew).queues = s.queues := by
  cases isNew <;> rfl

/-- The first push of an item. -/
theorem Owned.admitNew {config : PipelineConfig} {t : Coordinator} {enter : Bool} (ho : Owned s)
    (halloc : i < s.allocated) (hseen : i ∉ s.seenItemIds)
    (hrec : (s.workItem i).summaryRecorded = false)
    (hfin : s.stageOf i = .finished → (s.workItem i).result.isSome = true)
    (ht : s.tryAcquireWorkPermit config i (s.stageOf i) = (true, t))
    (hc : (t.queues (s.stageOf i)).canOffer = true) :
    Owned ({ t with
      queues := Function.update t.queues (s.stageOf i)
        ((t.queues (s.stageOf i)).append i) }.admitPushed i (s.stageOf i) enter true) := by
  obtain ⟨hloose, hready, htimers⟩ := (ho.nowhere hseen).nowhere_loose
  rw [tryAcquireWorkPermit_eq ht] at hc ⊢
  refine ho.offered (admitPushed_queues.trans rfl) hc (fun j hj => ?_) ?_ ?_
  · rw [view_admitPushed_ne hj, admitPushed_queues]
    rfl
  · rw [view_admitted_self]
    refine Held.mk_ready ⟨fun st => ?_, hloose.lease, hloose.flights, hloose.pending⟩
      (fun st => ?_) htimers trivial hrec hfin
    · exact (congrArg (Dict.get? · i) leased_offered).trans (hloose.leased st)
    · refine readyCount_offered.trans ?_
      rw [show (s.queues st).readyCount i = 0 from hready st, Nat.zero_add]
      simp only [true_and]
  · intro j hj
    have hne : j ≠ i := fun h => absurd (h ▸ hj) (Nat.not_le.mpr halloc)
    simpa [Coordinator.admitPushed, hne] using ho.unborn j hj

/-- Only the heap changed. -/
theorem view_timers {timers : List TimerEntry} :
    ({ s with timers } : Coordinator).view j = { s.view j with timers := timerCount timers j } :=
  rfl

/-- A timer entry whose stage takes the item. -/
theorem Owned.wake (ho : Owned s) {entry : TimerEntry} {rest : List TimerEntry}
    (ht : s.timers = entry :: rest)
    (hc : (s.queues (s.stageOf entry.item)).canOffer = true) :
    Owned { { s with
      queues := Function.update s.queues (s.stageOf entry.item)
        ((s.queues (s.stageOf entry.item)).append entry.item) }.admitPushed entry.item
          (s.stageOf entry.item) false false with timers := rest } := by
  obtain ⟨h, hv⟩ := ho.held entry.item
  have hcount : timerCount s.timers entry.item = timerCount rest entry.item + 1 := by
    simp [timerCount, ht]
  have hone : timerCount s.timers entry.item = if h = .timer then 1 else 0 := hv.timers
  obtain rfl : h = .timer := by
    by_contra hne
    rw [if_neg hne] at hone
    omega
  have hzero : timerCount rest entry.item = 0 := by
    rw [if_pos rfl] at hone
    omega
  have hseen : (s.view entry.item).seen := hv.seen.mpr (by simp)
  refine ho.offered (i := entry.item) rfl hc (fun j hj => ?_) ?_ ho.unborn
  · have hother : timerCount rest j = timerCount s.timers j := by
      simp [timerCount, ht, Ne.symm hj]
    rw [view_timers, view_admitPushed_ne hj, view_queues, hother]
    rfl
  · rw [view_timers, view_readmitted_self, view_queues, hzero]
    refine Held.mk_ready ⟨fun st => ?_, hv.lease, Nat.le_zero.mp hv.flights, ?_⟩ (fun st => ?_)
      rfl hseen (hv.fresh hseen).1 (hv.fresh hseen).2
    · exact (congrArg (Dict.get? · entry.item) leased_offered).trans
        ((hv.leased st).trans (by simp [Holder.ticket?]))
    · rcases hp : (s.view entry.item).pending with _ | p
      · rfl
      · exact absurd (hv.pending p hp).1 (by simp [Holder.ticket?])
    · refine readyCount_offered.trans ?_
      rw [show (s.queues st).readyCount entry.item = 0 from (hv.ready st).trans (by simp),
        Nat.zero_add]
      simp only [true_and]

/-- A claim turns the ready slot of an item into its lease. -/
theorem Owned.claim (ho : Owned s) {stage : StageName} {index : Nat} {slot : Nat × ItemId}
    (hslot : (s.queues stage).items[index]? = some slot) :
    s.leases.get? slot.2 = none ∧ s.stageOf slot.2 = stage ∧
      Owned { s with
        queues := Function.update s.queues stage ((s.queues stage).lease index slot)
        leases := s.leases.set slot.2 ⟨stage, slot.2, slot.1⟩ } := by
  obtain ⟨ticket, i⟩ := slot
  obtain ⟨h, hv⟩ := ho.held i
  have hcount := StageQueue.readyCount_lease (j := i) hslot
  rw [if_pos rfl] at hcount
  have hpos : (s.queues stage).readyCount i = if h = .ready ∧ stage = s.stageOf i then 1 else 0 :=
    hv.ready stage
  obtain ⟨rfl, hstage⟩ : h = .ready ∧ stage = s.stageOf i := by
    by_contra hne
    rw [if_neg hne] at hpos
    omega
  have hseen : (s.view i).seen := hv.seen.mpr (by simp)
  have hview : ∀ j, ({ s with
        queues := Function.update s.queues stage ((s.queues stage).lease index (ticket, i))
        leases := s.leases.set i ⟨stage, i, ticket⟩ } : Coordinator).view j =
      { s.view j with
        ready := fun st => (Function.update s.queues stage
          ((s.queues stage).lease index (ticket, i)) st).readyCount j
        leased := fun st =>
          if i = j ∧ st = stage then some ticket else (s.queues st).leased.get? j
        lease := if i = j then some ⟨stage, i, ticket⟩ else s.leases.get? j } := by
    intro j
    simp only [Coordinator.view, leased_claimed, Dict.get?_set]
    rfl
  refine ⟨hv.lease, hstage.symm, ?_, ?_, ho.unborn⟩
  · intro j
    have hready : ∀ st, (Function.update s.queues stage
        ((s.queues stage).lease index (ticket, i)) st).readyCount j +
        (if i = j ∧ st = stage then 1 else 0) = (s.queues st).readyCount j :=
      fun st => readyCount_claimed hslot
    by_cases hj : j = i
    · subst hj
      refine ⟨.leased ticket, ?_⟩
      rw [hview]
      refine Held.mk_leased (fun st => ?_) (fun st => ?_) ?_ hv.timers
        (hv.flights.trans (Nat.zero_le _)) (fun p hp => ?_) hseen (hv.fresh hseen).1
        (hv.fresh hseen).2
      · have h := hready st
        rw [show (s.queues st).readyCount j = _ from hv.ready st] at h
        simp only [true_and, hstage] at h ⊢
        exact Nat.add_eq_right.mp h
      · have h : (s.queues st).leased.get? j = none :=
          (hv.leased st).trans (by simp [Holder.ticket?])
        simp only [true_and, h, hstage]
        rfl
      · simp only [if_true, hstage]
        rfl
      · exact absurd (hv.pending p hp).1 (by simp [Holder.ticket?])
    · obtain ⟨h', hv'⟩ := ho.held j
      refine ⟨h', ?_⟩
      rw [hview]
      simp only [Ne.symm hj, false_and, if_false, Nat.add_zero] at hready ⊢
      simp only [hready]
      exact hv'
  · intro st
    by_cases hst : st = stage
    · subst hst
      simpa using (ho.fits st).lease hslot
    · simpa [Function.update_of_ne hst] using ho.fits st

theorem Owned.pend (ho : Owned s) {p : PendingHandoff} (hl : s.leases.get? i = some l)
    (hf : s.flights i = 0) (hr : Retains i (s.stageOf i) p) :
    Owned { s with pendingHandoffs := s.pendingHandoffs.set i p } where
  held := by
    intro j
    obtain ⟨h, hv⟩ := ho.held j
    have hpending : (s.pendingHandoffs.set i p).get? j = _ := Dict.get?_set _ i j p
    by_cases hj : j = i
    · subst hj
      obtain ⟨t, hv, _⟩ := ho.leased hl
      rw [if_pos rfl] at hpending
      refine ⟨.leased t, { hv with pending := fun q hq => ?_ }⟩
      obtain rfl : p = q := Option.some.inj (hpending.symm.trans hq)
      exact ⟨rfl, hf, hr⟩
    · rw [if_neg (Ne.symm hj)] at hpending
      exact ⟨h, { hv with pending := fun q hq => hv.pending q (hpending.symm.trans hq) }⟩
  fits := ho.fits
  unborn := ho.unborn

/-- A job goes out for an item in hand. -/
theorem Owned.submit (ho : Owned s) (hh : s.InHand i)
    (hview : ∀ j, ∃ n ≤ s.flights j + (if i = j then 1 else 0),
      s'.view j = { s.view j with flights := n })
    (hqueues : s'.queues = s.queues) (halloc : s'.allocated = s.allocated)
    (hseen : s'.seenItemIds = s.seenItemIds) : Owned s' where
  held := by
    intro j
    obtain ⟨n, hn, hview⟩ := hview j
    rw [hview]
    by_cases hj : i = j
    · subst hj
      obtain ⟨t, hv, _⟩ := ho.inHand hh
      rw [if_pos rfl, hh.2.2] at hn
      refine ⟨.leased t, { hv with flights := hn, pending := fun p hp => ?_ }⟩
      exact absurd (hh.2.1.symm.trans hp) (by simp)
    · obtain ⟨h, hv⟩ := ho.held j
      rw [if_neg hj] at hn
      exact ⟨h, hv.flights_le hn⟩
  fits := hqueues ▸ ho.fits
  unborn := by
    rw [halloc, hseen]
    exact ho.unborn

/-- An item leaves the pipeline: its lease is dropped and it is no longer
tracked. -/
theorem Owned.leave (ho : Owned s) (hh : s.InHand i) (hl : s.leases.get? i = some l)
    (hqueues : s'.queues = released s.queues l) (halloc : s'.allocated = s.allocated)
    (hseen : s'.seenItemIds = s.seenItemIds.erase i)
    (hother : ∀ j, j ≠ i → s'.view j = (s.unlease i (released s.queues l)).view j)
    (hself : ∃ b, s'.view i =
      { (s.unlease i (released s.queues l)).view i with recorded := b, seen := False }) :
    Owned s' where
  held := by
    intro j
    by_cases hj : j = i
    · subst hj
      obtain ⟨b, hself⟩ := hself
      have hloose := ho.loose_released hh hl
      rw [hself]
      exact ⟨.nowhere, Held.mk_nowhere ⟨hloose.leased, hloose.lease, hloose.flights,
        hloose.pending⟩ (ho.ready_released hl) (ho.leased_timers hl) id⟩
    · obtain ⟨h, hv⟩ := ho.held j
      rw [hother j hj, view_released_ne (ho.lease_item hl) hj]
      exact ⟨h, hv⟩
  fits := fun st => hqueues ▸ released_fits ho.fits
  unborn := fun j hj => by
    rw [hseen]
    exact fun hmem => ho.unborn j (halloc ▸ hj) (Finset.mem_of_mem_erase hmem)

/-- What recording a terminal result comes to, for a live item. -/
theorem recordTerminalResult_eq {config : PipelineConfig}
    (hresult : (s.workItem i).result.isSome = true)
    (hrec : (s.workItem i).summaryRecorded = false) :
    s.recordTerminalResult config i =
      { s.setItem i ((s.workItem i).setPayload summaryRecordedKey (.bool true)) with
        terminalSummary := s.terminalSummary ++ [i]
        seenItemIds := s.seenItemIds.erase i
        items := (s.setItem i ((s.workItem i).setPayload summaryRecordedKey
          (.bool true))).retain config i
        ledger := lastN config.terminalDetailCapacity s.ledger } := by
  obtain ⟨r, hr⟩ := Option.isSome_iff_exists.mp hresult
  unfold Coordinator.recordTerminalResult
  rw [if_neg (by simp [hr, hrec])]
  rfl

theorem Owned.retire {config : PipelineConfig} (ho : Owned s) (hh : s.InHand i)
    (hl : s.leases.get? i = some l) (hresult : (s.workItem i).result.isSome = true) :
    Owned (s.retired config i l) := by
  obtain ⟨_, hrec, _⟩ := ho.leased_fresh hl
  unfold Coordinator.retired
  rw [recordTerminalResult_eq hresult hrec]
  refine ho.leave hh hl rfl rfl rfl (fun j hj => ?_)
    ⟨((s.workItem i).setPayload summaryRecordedKey (.bool true)).summaryRecorded, ?_⟩
  · simp [Coordinator.view, Coordinator.releaseWorkPermit, Coordinator.unlease,
      Coordinator.setItem, Coordinator.stageOf, Coordinator.flights, hj]
  · simp [Coordinator.view, Coordinator.releaseWorkPermit, Coordinator.unlease,
      Coordinator.setItem, Coordinator.stageOf, Coordinator.flights, WorkItem.setPayload]

theorem Owned.vanish (ho : Owned s) (hh : s.InHand i) (hl : s.leases.get? i = some l) :
    Owned { (s.unlease i (released s.queues l)).releaseWorkPermit i with
      seenItemIds := s.seenItemIds.erase i
      items := s.items.erase i } := by
  refine ho.leave hh hl rfl rfl rfl (fun j hj => ?_) ⟨(s.workItem i).summaryRecorded, ?_⟩
  · simp [Coordinator.view, Coordinator.releaseWorkPermit, Coordinator.unlease,
      Coordinator.stageOf, Coordinator.flights, hj]
  · simp [Coordinator.view, Coordinator.releaseWorkPermit, Coordinator.unlease,
      Coordinator.stageOf, Coordinator.flights]

/-! ### Writes to a record -/

theorem Preserves.summaryRecorded {a b : WorkItem} (h : Preserves a b) :
    b.summaryRecorded = a.summaryRecorded := by
  unfold WorkItem.summaryRecorded Payload.flag
  rw [h.keys summaryRecordedKey (by decide)]

/-- A sink step writes only the two keys of `RECORD`, and sets a result. -/
structure SinkKeeps (before after : WorkItem) : Prop where
  stage : after.stage = before.stage
  kind : after.kind = before.kind
  result : before.result.isSome = true → after.result.isSome = true
  summaryRecorded : after.summaryRecorded = before.summaryRecorded

theorem Preserves.sinkKeeps {a b : WorkItem} (h : Preserves a b) : SinkKeeps a b :=
  ⟨h.stage, h.kind, h.result, h.summaryRecorded⟩

/-- The start of `RECORD` settles the result, and touches nothing else but
the worktree. -/
theorem recordResult_eq (sink : Sink ω) (w : ω) (item : WorkItem) :
    ∃ r worktree, recordResult sink w item = { item with result := some r, worktree } := by
  unfold recordResult
  split
  · exact ⟨_, _, rfl⟩
  · rcases hr : item.result with _ | r
    · exact ⟨⟨false, "internal: no result recorded", item.stage⟩, item.worktree, by
        simp only [hr]⟩
    · refine ⟨r, item.worktree, ?_⟩
      simp only [hr]
      rw [← hr]

theorem recordLedger_keeps {item : WorkItem} {effects : List SinkEffect} {result : ItemResult} :
    SinkKeeps item (recordLedger i item effects result).item := by
  unfold recordLedger
  split
  · exact ⟨rfl, rfl, id, rfl⟩
  · exact ⟨rfl, rfl, id, Payload.flag_set_ne _ (by decide)⟩

theorem SinkKeeps.trans {a b c : WorkItem} (hab : SinkKeeps a b) (hbc : SinkKeeps b c) :
    SinkKeeps a c :=
  ⟨hbc.stage.trans hab.stage, hbc.kind.trans hab.kind, fun h => hbc.result (hab.result h),
    hbc.summaryRecorded.trans hab.summaryRecorded⟩

theorem recordStep_keeps (sink : Sink ω) (w : ω) (item : WorkItem) :
    SinkKeeps item (recordStep sink w i item).item := by
  obtain ⟨r, worktree, heq⟩ := recordResult_eq sink w item
  have hkeeps : SinkKeeps item { item with result := some r, worktree } :=
    ⟨rfl, rfl, fun _ => rfl, rfl⟩
  refine hkeeps.trans ?_
  unfold recordStep
  simp only [heq]
  split
  · split
    · exact ⟨rfl, rfl, fun _ => rfl, rfl⟩
    · refine SinkKeeps.trans ?_ recordLedger_keeps
      exact ⟨rfl, rfl, fun _ => rfl, Payload.flag_set_ne _ (by decide)⟩
  · exact recordLedger_keeps

theorem finishedStep_keeps (sink : Sink ω) (w : ω) (item : WorkItem) :
    SinkKeeps item (finishedStep sink w i item).item := by
  unfold finishedStep
  split
  · exact ⟨rfl, rfl, id, rfl⟩
  · split
    · exact recordStep_keeps sink w item
    · split
      · exact (sink.cleanup.keeps w item).sinkKeeps
      · split
        · exact (sink.recordCleanupTerminal.keeps w item).sinkKeeps
        · exact ⟨rfl, rfl, id, rfl⟩

theorem compact_summaryRecorded (sha256 : String → String) (item : WorkItem)
    (result : ItemResult) :
    (item.compactForPostProcessing sha256 result).summaryRecorded = false := by
  unfold WorkItem.summaryRecorded Payload.flag WorkItem.compactForPostProcessing
  rw [Dict.get?_restrict, if_neg (by decide)]
  rfl

/-! ## All moves -/

/-- Every move keeps the ownership invariant. -/
theorem Move.owned (hm : Move host s s') (ho : Owned s) : Owned s' := by
  cases hm with
  | alloc new => exact ho.alloc new.item
  | idle pending shutdown sources => exact ⟨ho.held, ho.fits, ho.unborn⟩
  | logRoute i outcome => exact ⟨ho.held, ho.fits, ho.unborn⟩
  | admitNew halloc hseen hrec hfin ht hc => exact ho.admitNew halloc hseen hrec hfin ht hc
  | claim hslot => exact (ho.claim hslot).2.2
  | restore hh hl => exact ho.restore hh hl
  | pend hr => exact ho.pend hr.lease hr.flights hr.retains
  | handoff hr _ hc => exact ho.handoff hr hc
  | pair hne hi hj _ _ _ hp => exact ho.pair hne hi hj hp
  | park wake hh hl => exact ho.park hh hl wake _
  | wake ht hc => exact ho.wake ht hc
  | submit handle perRepo hh hq =>
      rename_i i
      refine ho.submit hh (fun j => ⟨_, ?_, rfl⟩) rfl rfl rfl
      have hcount := Dict.count_values_set_le s.inFlight handle i j
      simp only [Coordinator.flights]
      omega
  | submitAuxiliary handle hh hq =>
      rename_i i
      refine ho.submit hh (fun j => ⟨_, ?_, rfl⟩) rfl rfl rfl
      have hcount := Dict.count_values_set_le s.auxiliaryInFlight handle i j
      simp only [Coordinator.flights]
      omega
  | complete handle auxiliary repo =>
      cases auxiliary with
      | false =>
          refine ho.of_views (fun j => ⟨_, ?_, rfl⟩) rfl rfl rfl
          exact Nat.add_le_add_right (Dict.count_values_erase_le s.inFlight handle j) _
      | true =>
          refine ho.of_views (fun j => ⟨_, ?_, rfl⟩) rfl rfl rfl
          exact Nat.add_le_add_left (Dict.count_values_erase_le s.auxiliaryInFlight handle j) _
  | edit hh hp hk => exact ho.setItem hp.stage hp.result hp.summaryRecorded
  | compact reason result hh =>
      obtain ⟨l, hl⟩ := Option.isSome_iff_exists.mp hh.1
      obtain ⟨_, hrec, _⟩ := ho.leased_fresh hl
      exact ho.setItem rfl id ((compact_summaryRecorded _ _ _).trans hrec.symm)
  | sink w hh hstage =>
      rename_i i
      have hk := finishedStep_keeps (i := i) host.sink w (s.workItem i)
      have ho' := ho.setItem hk.stage hk.result hk.summaryRecorded
      exact ⟨ho'.held, ho'.fits, ho'.unborn⟩
  | poison result hh hstage hrec htried =>
      rename_i i
      have ho' : Owned (s.setItem i ({ s.workItem i with result := some result }.setPayload
          recordedKey (.bool true))) := by
        refine ho.setItem rfl (fun _ => rfl) ?_
        exact Payload.flag_set_ne _ (by decide)
      exact ⟨ho'.held, ho'.fits, ho'.unborn⟩
  | retire hh hl hr => exact ho.retire hh hl hr
  | vanish hh hl _ => exact ho.vanish hh hl

/-- A retained route is changed in no other way than these. -/
theorem Move.pending (hm : Move host s s') :
    s'.pendingHandoffs = s.pendingHandoffs ∨
      (∃ i p, s'.pendingHandoffs = s.pendingHandoffs.set i p) ∨
      (∃ i, s'.pendingHandoffs = s.pendingHandoffs.erase i) ∨
      ∃ i j, s'.pendingHandoffs = (s.pendingHandoffs.erase i).erase j := by
  cases hm with
  | alloc => exact .inl rfl
  | idle => exact .inl rfl
  | logRoute => exact .inl rfl
  | admitNew _ _ _ _ ht _ =>
      rw [tryAcquireWorkPermit_eq ht]
      exact .inl rfl
  | claim => exact .inl rfl
  | restore => exact .inr (.inr (.inl ⟨_, rfl⟩))
  | pend => exact .inr (.inl ⟨_, _, rfl⟩)
  | handoff => exact .inr (.inr (.inl ⟨_, publishHandoff_pending⟩))
  | pair hne hi hj hcross hback hto hq =>
      rename_i i j _ _ _ _ _ _ _ _ _
      refine .inr (.inr (.inr ⟨i, j, ?_⟩))
      rw [publishHandoff_pending, publishHandoff_pending]
  | park => exact .inr (.inr (.inl ⟨_, rfl⟩))
  | wake => exact .inl rfl
  | submit => exact .inl rfl
  | submitAuxiliary => exact .inl rfl
  | complete handle auxiliary repo => cases auxiliary <;> exact .inl rfl
  | edit => exact .inl rfl
  | compact => exact .inl rfl
  | sink => exact .inl rfl
  | poison => exact .inl rfl
  | retire hh hl hr =>
      rename_i i _
      refine .inr (.inr (.inl ⟨i, ?_⟩))
      unfold Coordinator.retired Coordinator.recordTerminalResult
      dsimp only
      split <;> rfl
  | vanish => exact .inr (.inr (.inl ⟨_, rfl⟩))

/-- At most one route is retained for an item. -/
def Coordinator.Keyed (s : Coordinator) : Prop := (s.pendingHandoffs.map Prod.fst).Nodup

theorem Move.keyed (hm : Move host s s') (h : s.Keyed) : s'.Keyed := by
  unfold Coordinator.Keyed at *
  rcases hm.pending with heq | ⟨i, p, heq⟩ | ⟨i, heq⟩ | ⟨i, j, heq⟩
  · rwa [heq]
  · rw [heq]
    exact Dict.nodup_set h i p
  · rw [heq]
    exact Dict.nodup_erase h i
  · rw [heq]
    exact Dict.nodup_erase (Dict.nodup_erase h i) j

end Hephaestus.Pipeline
