import Hephaestus.Proofs.MoveOwnership

/-!
# Every move keeps the permits

The two permit sets are exactly the live items of the two lanes. Main-lane
permits are bounded by the work window. The auxiliary set is not bounded by
the learning capacity, since the sink takes everything, but the items at
`LEARNING` are: whoever enters `LEARNING` does so when the whole auxiliary
set has room, or in exchange for an item that leaves it.
-/

namespace Hephaestus.Pipeline

open Hephaestus.Lib StageQueueLease

variable {ω : Type} {host : Host ω} {s s' : Coordinator} {i j : ItemId}
  {config : PipelineConfig}

/-- The live items of the main lane. -/
def Coordinator.mainLane (s : Coordinator) : Finset ItemId :=
  s.seenItemIds.filter fun i => (s.stageOf i).isAuxiliary = false

/-- The live items of the auxiliary lane. -/
def Coordinator.auxiliaryLane (s : Coordinator) : Finset ItemId :=
  s.seenItemIds.filter fun i => (s.stageOf i).isAuxiliary = true

/-- The live items at `LEARNING`. -/
def Coordinator.learners (s : Coordinator) : Finset ItemId :=
  s.seenItemIds.filter fun i => s.stageOf i = .learning

/-- The permit invariant. -/
structure Permitted (config : PipelineConfig) (s : Coordinator) : Prop where
  live : s.liveWorkPermitIds = s.mainLane
  learning : s.learningWorkPermitIds = s.auxiliaryLane
  window : s.liveWorkPermitIds.card ≤ config.workWindow
  learners : s.learners.card ≤ config.learningQueueCapacity

theorem mem_mainLane : i ∈ s.mainLane ↔ i ∈ s.seenItemIds ∧ (s.stageOf i).isAuxiliary = false :=
  Finset.mem_filter

theorem mem_auxiliaryLane :
    i ∈ s.auxiliaryLane ↔ i ∈ s.seenItemIds ∧ (s.stageOf i).isAuxiliary = true :=
  Finset.mem_filter

theorem mem_learners : i ∈ s.learners ↔ i ∈ s.seenItemIds ∧ s.stageOf i = .learning :=
  Finset.mem_filter

/-- Items at `LEARNING` hold auxiliary permits. -/
theorem learners_subset (s : Coordinator) : s.learners ⊆ s.auxiliaryLane := by
  intro i hi
  obtain ⟨hseen, hstage⟩ := mem_learners.mp hi
  exact mem_auxiliaryLane.mpr ⟨hseen, by simp [hstage, StageName.isAuxiliary]⟩

/-- A move that leaves permits, live items and their stages alone. -/
theorem Permitted.congr (hp : Permitted config s)
    (hlive : s'.liveWorkPermitIds = s.liveWorkPermitIds)
    (hlearning : s'.learningWorkPermitIds = s.learningWorkPermitIds)
    (hseen : s'.seenItemIds = s.seenItemIds)
    (hstage : ∀ i ∈ s.seenItemIds, s'.stageOf i = s.stageOf i) : Permitted config s' := by
  have hfilter : ∀ p : StageName → Prop, [DecidablePred p] →
      s'.seenItemIds.filter (fun i => p (s'.stageOf i)) =
        s.seenItemIds.filter fun i => p (s.stageOf i) := by
    intro p _
    rw [hseen]
    exact Finset.filter_congr fun i hi => by rw [hstage i hi]
  refine ⟨?_, ?_, hlive ▸ hp.window, ?_⟩
  · exact hlive.trans (hp.live.trans (hfilter fun st => st.isAuxiliary = false).symm)
  · exact hlearning.trans (hp.learning.trans (hfilter fun st => st.isAuxiliary = true).symm)
  · have h : s'.learners = s.learners := hfilter fun st => st = .learning
    exact h ▸ hp.learners

/-! ## Leaving -/

/-- An item that is no longer live gives its permit back. -/
theorem Permitted.leave (hp : Permitted config s)
    (hlive : s'.liveWorkPermitIds = s.liveWorkPermitIds.erase i)
    (hlearning : s'.learningWorkPermitIds = s.learningWorkPermitIds.erase i)
    (hseen : s'.seenItemIds = s.seenItemIds.erase i)
    (hstage : ∀ j, j ≠ i → s'.stageOf j = s.stageOf j) : Permitted config s' := by
  have hfilter : ∀ p : StageName → Prop, [DecidablePred p] →
      s'.seenItemIds.filter (fun i => p (s'.stageOf i)) =
        (s.seenItemIds.filter fun i => p (s.stageOf i)).erase i := by
    intro p _
    ext j
    simp only [hseen, Finset.mem_filter, Finset.mem_erase]
    constructor
    · rintro ⟨⟨hj, hs⟩, hp⟩
      exact ⟨hj, hs, hstage j hj ▸ hp⟩
    · rintro ⟨hj, hs, hp⟩
      exact ⟨⟨hj, hs⟩, (hstage j hj).symm ▸ hp⟩
  refine ⟨?_, ?_, ?_, ?_⟩
  · rw [hlive, hp.live]
    exact (hfilter fun st => st.isAuxiliary = false).symm
  · rw [hlearning, hp.learning]
    exact (hfilter fun st => st.isAuxiliary = true).symm
  · rw [hlive]
    exact (Finset.card_erase_le).trans hp.window
  · have h : s'.learners = s.learners.erase i := hfilter fun st => st = .learning
    rw [h]
    exact (Finset.card_erase_le).trans hp.learners

/-! ## Changing lanes -/

/-- Both permit sets follow the stages. -/
structure Lanes (s : Coordinator) : Prop where
  live : s.liveWorkPermitIds = s.mainLane
  learning : s.learningWorkPermitIds = s.auxiliaryLane

theorem publishHandoff_stageOf {target : StageName} {enter : Bool} {result : Option ItemResult} :
    (s.publishHandoff i target enter result).stageOf j =
      if j = i then target else s.stageOf j := by
  by_cases hj : j = i
  · subst hj
    rw [if_pos rfl]
    exact congrArg View.stage view_publishHandoff_self
  · rw [if_neg hj]
    exact congrArg View.stage (view_publishHandoff_ne hj)

/-- The permits after a handoff: those of `_activate_handoff`. -/
theorem Coordinator.publishHandoff_permits (s : Coordinator) (i : ItemId) (target : StageName)
    (enter : Bool) (result : Option ItemResult) :
    (s.publishHandoff i target enter result).liveWorkPermitIds =
        (s.transferPermit i (s.stageOf i) target).liveWorkPermitIds ∧
      (s.publishHandoff i target enter result).learningWorkPermitIds =
        (s.transferPermit i (s.stageOf i) target).learningWorkPermitIds := by
  unfold publishHandoff activateHandoff transferPermit
  simp only [stageOf]
  split <;> exact ⟨rfl, rfl⟩

theorem Lanes.publish (hlanes : Lanes s) (hseen : i ∈ s.seenItemIds) (target : StageName)
    (enter : Bool) (result : Option ItemResult) :
    Lanes (s.publishHandoff i target enter result) := by
  obtain ⟨hlive, hlearning⟩ := s.publishHandoff_permits i target enter result
  refine ⟨?_, ?_⟩
  · rw [hlive]
    ext k
    rw [mem_mainLane, publishHandoff_seen, publishHandoff_stageOf]
    have hk : k ∈ s.liveWorkPermitIds ↔ _ := hlanes.live ▸ mem_mainLane
    cases hsource : (s.stageOf i).isAuxiliary <;> cases htarget : target.isAuxiliary <;>
      by_cases hki : k = i <;> simp_all [Coordinator.transferPermit]
  · rw [hlearning]
    ext k
    rw [mem_auxiliaryLane, publishHandoff_seen, publishHandoff_stageOf]
    have hk : k ∈ s.learningWorkPermitIds ↔ _ := hlanes.learning ▸ mem_auxiliaryLane
    cases hsource : (s.stageOf i).isAuxiliary <;> cases htarget : target.isAuxiliary <;>
      by_cases hki : k = i <;> simp_all [Coordinator.transferPermit]

theorem Permitted.lanes (hp : Permitted config s) : Lanes s := ⟨hp.live, hp.learning⟩

/-- The learners after a handoff: those before, less the item, plus the item
if that is where it went. -/
theorem learners_publish {target : StageName} {enter : Bool} {result : Option ItemResult} :
    (s.publishHandoff i target enter result).learners ⊆
      if target = .learning then insert i s.learners else s.learners.erase i := by
  intro k hk
  rw [mem_learners, publishHandoff_seen, publishHandoff_stageOf] at hk
  by_cases hki : k = i
  · subst hki
    rw [if_pos rfl] at hk
    simp [hk.2]
  · rw [if_neg hki] at hk
    have hmem := mem_learners.mpr hk
    split
    · exact Finset.mem_insert_of_mem hmem
    · exact Finset.mem_erase.mpr ⟨hki, hmem⟩

/-- The main lane after a handoff. -/
theorem mainLane_publish {target : StageName} {enter : Bool} {result : Option ItemResult} :
    (s.publishHandoff i target enter result).mainLane ⊆
      if target.isAuxiliary then s.mainLane.erase i else insert i s.mainLane := by
  intro k hk
  rw [mem_mainLane, publishHandoff_seen, publishHandoff_stageOf] at hk
  by_cases hki : k = i
  · subst hki
    rw [if_pos rfl] at hk
    simp [hk.2]
  · rw [if_neg hki] at hk
    have hmem := mem_mainLane.mpr hk
    split
    · exact Finset.mem_erase.mpr ⟨hki, hmem⟩
    · exact Finset.mem_insert_of_mem hmem

/-- One route, with room in the lane it leads to. -/
theorem Permitted.handoff (hp : Permitted config s) (hseen : i ∈ s.seenItemIds)
    {target : StageName} (hne : target ≠ s.stageOf i) (hsource : s.stageOf i ≠ .finished)
    (hlane : s.laneHandoffCapacity config i target = true) (enter : Bool)
    (result : Option ItemResult) :
    Permitted config (s.publishHandoff i target enter result) := by
  have hlanes := hp.lanes.publish hseen target enter result
  refine ⟨hlanes.live, hlanes.learning, ?_, ?_⟩
  · rw [hlanes.live]
    refine (Finset.card_le_card mainLane_publish).trans ?_
    have hcard : s.mainLane.card ≤ config.workWindow := hp.live ▸ hp.window
    split
    · exact Finset.card_erase_le.trans hcard
    · next ht =>
        by_cases hi : (s.stageOf i).isAuxiliary = false
        · rw [Finset.insert_eq_of_mem (mem_mainLane.mpr ⟨hseen, hi⟩)]
          exact hcard
        · -- Into the main lane from the auxiliary one: the window had room.
          have hfin : target ≠ .finished := by
            rintro rfl
            exact ht rfl
          have hroom : s.liveWorkPermitIds.card < config.workWindow := by
            simp only [Bool.not_eq_true, Bool.not_eq_false] at ht hi
            simp only [Coordinator.laneHandoffCapacity, hfin, ht, hi, if_false] at hlane
            exact of_decide_eq_true hlane
          rw [hp.live] at hroom
          exact (Finset.card_insert_le i s.mainLane).trans hroom
  · refine (Finset.card_le_card learners_publish).trans ?_
    split
    · next ht =>
        -- Into `LEARNING` from the main lane: the auxiliary set had room.
        subst ht
        have hmain : (s.stageOf i).isAuxiliary = false := by
          cases h : s.stageOf i with
          | learning => exact absurd h.symm hne
          | finished => exact absurd h hsource
          | _ => rfl
        have hroom : s.learningWorkPermitIds.card < config.learningQueueCapacity := by
          simp only [Coordinator.laneHandoffCapacity, hmain, isAuxiliary_learning,
            reduceCtorEq, if_false] at hlane
          exact of_decide_eq_true hlane
        rw [hp.learning] at hroom
        have hsub := Finset.card_le_card (learners_subset s)
        exact (Finset.card_insert_le i s.learners).trans (by omega)
    · exact Finset.card_erase_le.trans hp.learners

/-- Swapping one element of a set for another does not enlarge it. -/
theorem card_swap_le {a b : ItemId} {A B : Finset ItemId} (ha : a ∈ A)
    (h : B ⊆ insert b (A.erase a)) : B.card ≤ A.card := by
  have hb := (Finset.card_le_card h).trans (Finset.card_insert_le b (A.erase a))
  have he := Finset.card_erase_add_one ha
  omega

/-- An item of the auxiliary lane that is routed on is at `LEARNING`. -/
theorem learner_of_routed (hseen : i ∈ s.seenItemIds) (hsource : s.stageOf i ≠ .finished)
    (haux : (s.stageOf i).isAuxiliary = true) : i ∈ s.learners := by
  refine mem_learners.mpr ⟨hseen, ?_⟩
  cases h : s.stageOf i with
  | learning => rfl
  | finished => exact absurd h hsource
  | _ => simp [h, StageName.isAuxiliary] at haux

/-- Two routes in opposite directions: the lanes swap one item for another,
whatever the capacities say. -/
theorem Permitted.pair (hp : Permitted config s) (hne : i ≠ j) (hi : i ∈ s.seenItemIds)
    (hj : j ∈ s.seenItemIds) (hsi : s.stageOf i ≠ .finished) (hsj : s.stageOf j ≠ .finished)
    {target target' : StageName} (hcross : (s.stageOf i).isAuxiliary ≠ target.isAuxiliary)
    (hback : (s.stageOf j).isAuxiliary = target.isAuxiliary)
    (hto : target'.isAuxiliary = (s.stageOf i).isAuxiliary) (enter enter' : Bool)
    (result result' : Option ItemResult) :
    Permitted config ((s.publishHandoff i target enter result).publishHandoff j target' enter'
      result') := by
  have hlanes := (hp.lanes.publish hi target enter result).publish (i := j)
    (by rwa [publishHandoff_seen]) target' enter' result'
  have hstage : ∀ k, ((s.publishHandoff i target enter result).publishHandoff j target' enter'
      result').stageOf k = if k = j then target' else if k = i then target else s.stageOf k := by
    intro k
    rw [publishHandoff_stageOf, publishHandoff_stageOf]
  have hcard : s.mainLane.card ≤ config.workWindow := hp.live ▸ hp.window
  refine ⟨hlanes.live, hlanes.learning, ?_, ?_⟩
  · rw [hlanes.live]
    refine le_trans ?_ hcard
    cases hsource : (s.stageOf i).isAuxiliary with
    | false =>
        have htarget : target.isAuxiliary = true := by
          simpa [hsource] using hcross
        refine card_swap_le (a := i) (b := j) (mem_mainLane.mpr ⟨hi, hsource⟩) fun k hk => ?_
        rw [mem_mainLane, publishHandoff_seen, publishHandoff_seen, hstage] at hk
        by_cases hkj : k = j
        · simp [hkj]
        · by_cases hki : k = i
          · simp [hki, hne, htarget] at hk
          · simpa [hkj, hki, mem_mainLane] using hk
    | true =>
        have htarget : target.isAuxiliary = false := by
          simpa [hsource] using hcross
        refine card_swap_le (a := j) (b := i) (mem_mainLane.mpr ⟨hj, hback.trans htarget⟩)
          fun k hk => ?_
        rw [mem_mainLane, publishHandoff_seen, publishHandoff_seen, hstage] at hk
        by_cases hkj : k = j
        · simp [hkj, hto.trans hsource] at hk
        · by_cases hki : k = i
          · simp [hki]
          · simpa [hkj, hki, mem_mainLane] using hk
  · refine le_trans ?_ hp.learners
    cases hsource : (s.stageOf i).isAuxiliary with
    | false =>
        have htarget : target.isAuxiliary = true := by
          simpa [hsource] using hcross
        have htarget' : target' ≠ .learning := by
          rintro rfl
          simp [hsource] at hto
        refine card_swap_le (a := j) (b := i)
          (learner_of_routed hj hsj (hback.trans htarget)) fun k hk => ?_
        rw [mem_learners, publishHandoff_seen, publishHandoff_seen, hstage] at hk
        by_cases hkj : k = j
        · simp [hkj, htarget'] at hk
        · by_cases hki : k = i
          · simp [hki]
          · simpa [hkj, hki, mem_learners] using hk
    | true =>
        have htarget : target ≠ .learning := by
          rintro rfl
          simp [hsource] at hcross
        refine card_swap_le (a := i) (b := j) (learner_of_routed hi hsi hsource)
          fun k hk => ?_
        rw [mem_learners, publishHandoff_seen, publishHandoff_seen, hstage] at hk
        by_cases hkj : k = j
        · simp [hkj]
        · by_cases hki : k = i
          · simp [hki, hne, htarget] at hk
          · simpa [hkj, hki, mem_learners] using hk

/-! ## Admission -/

/-- A permit that was granted to an item without one: its lane had room, and
has the item now. -/
theorem tryAcquireWorkPermit_granted {stage : StageName} {t : Coordinator}
    (hlive : i ∉ s.liveWorkPermitIds) (hlearning : i ∉ s.learningWorkPermitIds)
    (ht : s.tryAcquireWorkPermit config i stage = (true, t)) :
    if stage.isAuxiliary then
      s.learningWorkPermitIds.card < config.learningQueueCapacity ∧
        t = { s with learningWorkPermitIds := insert i s.learningWorkPermitIds }
    else
      s.liveWorkPermitIds.card < config.workWindow ∧
        t = { s with liveWorkPermitIds := insert i s.liveWorkPermitIds } := by
  unfold Coordinator.tryAcquireWorkPermit at ht
  rw [if_neg hlive, if_neg hlearning] at ht
  split at ht
  · next hs =>
      rw [if_pos hs]
      split at ht
      · cases ht
      · next hroom => exact ⟨Nat.lt_of_not_le hroom, (Prod.mk.inj ht).2.symm⟩
  · next hs =>
      rw [if_neg hs]
      split at ht
      · cases ht
      · next hroom => exact ⟨Nat.lt_of_not_le hroom, (Prod.mk.inj ht).2.symm⟩

/-- An item that is not live has no permit. -/
theorem Permitted.unseen (hp : Permitted config s) (hseen : i ∉ s.seenItemIds) :
    i ∉ s.liveWorkPermitIds ∧ i ∉ s.learningWorkPermitIds := by
  rw [hp.live, hp.learning]
  exact ⟨fun h => hseen (mem_mainLane.mp h).1, fun h => hseen (mem_auxiliaryLane.mp h).1⟩

/-- A new item, with the permit of the stage it enters. -/
theorem Permitted.admitNew (hp : Permitted config s) (hseen : i ∉ s.seenItemIds)
    {stage : StageName} {t : Coordinator}
    (ht : s.tryAcquireWorkPermit config i stage = (true, t))
    (hlive' : s'.liveWorkPermitIds = t.liveWorkPermitIds)
    (hlearning' : s'.learningWorkPermitIds = t.learningWorkPermitIds)
    (hseen' : s'.seenItemIds = insert i s.seenItemIds)
    (hstage : ∀ j, s'.stageOf j = if j = i then stage else s.stageOf j) :
    Permitted config s' := by
  have hfilter : ∀ p : StageName → Prop, [DecidablePred p] →
      s'.seenItemIds.filter (fun j => p (s'.stageOf j)) =
        if p stage then insert i (s.seenItemIds.filter fun j => p (s.stageOf j))
        else s.seenItemIds.filter fun j => p (s.stageOf j) := by
    intro p _
    have hold : s.seenItemIds.filter (fun j => p (s'.stageOf j)) =
        s.seenItemIds.filter fun j => p (s.stageOf j) := by
      refine Finset.filter_congr fun j hj => ?_
      rw [hstage, if_neg (ne_of_mem_of_not_mem hj hseen)]
    rw [hseen', Finset.filter_insert, hold, hstage, if_pos rfl]
  have hmain : s'.mainLane = if stage.isAuxiliary = false then insert i s.mainLane
      else s.mainLane := hfilter fun st => st.isAuxiliary = false
  have haux : s'.auxiliaryLane = if stage.isAuxiliary = true then insert i s.auxiliaryLane
      else s.auxiliaryLane := hfilter fun st => st.isAuxiliary = true
  have hlearners : s'.learners = if stage = .learning then insert i s.learners
      else s.learners := hfilter fun st => st = .learning
  obtain ⟨hno, hno'⟩ := hp.unseen hseen
  have hgrant := tryAcquireWorkPermit_granted hno hno' ht
  cases hs : stage.isAuxiliary with
  | false =>
      rw [hs] at hgrant hmain haux
      obtain ⟨hroom, rfl⟩ := hgrant
      have hne : stage ≠ .learning := by
        rintro rfl
        cases hs
      refine ⟨?_, ?_, ?_, ?_⟩
      · rw [hlive', hmain, if_pos rfl, hp.live]
      · rw [hlearning', haux, if_neg (by simp), hp.learning]
      · rw [hlive']
        exact (Finset.card_insert_le _ _).trans hroom
      · rw [hlearners, if_neg hne]
        exact hp.learners
  | true =>
      rw [hs] at hgrant hmain haux
      obtain ⟨hroom, rfl⟩ := hgrant
      refine ⟨?_, ?_, ?_, ?_⟩
      · rw [hlive', hmain, if_neg (by simp), hp.live]
      · rw [hlearning', haux, if_pos rfl, hp.learning]
      · rw [hlive']
        exact hp.window
      · rw [hp.learning] at hroom
        have hsub := Finset.card_le_card (learners_subset s)
        rw [hlearners]
        split
        · exact (Finset.card_insert_le _ _).trans (by omega)
        · exact hp.learners

/-! ## All moves -/

/-- A write to a record that leaves its item's stage alone. -/
theorem Permitted.setItem (hp : Permitted config s) {item : WorkItem}
    (hitem : s'.workItem = Function.update s.workItem i item)
    (hstage : item.stage = s.stageOf i)
    (hlive : s'.liveWorkPermitIds = s.liveWorkPermitIds)
    (hlearning : s'.learningWorkPermitIds = s.learningWorkPermitIds)
    (hseen : s'.seenItemIds = s.seenItemIds) : Permitted config s' := by
  refine hp.congr hlive hlearning hseen fun j _ => ?_
  unfold Coordinator.stageOf
  rw [hitem]
  by_cases hj : j = i
  · subst hj
    simpa [Coordinator.stageOf] using hstage
  · rw [Function.update_of_ne hj]

/-- The stages after a push. -/
theorem admitPushed_stageOf {stage : StageName} {enter isNew : Bool} :
    (s.admitPushed i stage enter isNew).stageOf j = if j = i then stage else s.stageOf j := by
  by_cases hj : j = i
  · subst hj
    rw [if_pos rfl]
    cases isNew with
    | false => exact congrArg View.stage view_readmitted_self
    | true => exact congrArg View.stage view_admitted_self
  · rw [if_neg hj]
    exact congrArg View.stage (view_admitPushed_ne hj)

/-- Every move keeps the permit invariant. -/
theorem Move.permitted (hm : Move host s s') (ho : Owned s) (hp : Permitted host.config s) :
    Permitted host.config s' := by
  cases hm with
  | alloc new =>
      refine hp.congr rfl rfl rfl fun j hj => ?_
      have hne : j ≠ s.allocated := fun h => ho.unborn s.allocated le_rfl (h ▸ hj)
      simp [Coordinator.alloc, Coordinator.setItem, Coordinator.stageOf,
        Function.update_of_ne hne]
  | idle pending shutdown sources => exact hp.congr rfl rfl rfl fun _ _ => rfl
  | logRoute i outcome => exact hp.congr rfl rfl rfl fun _ _ => rfl
  | admitNew halloc hseen hrec hfin ht hc =>
      rename_i t i
      refine hp.admitNew hseen ht rfl rfl ?_ fun j => ?_
      · rw [tryAcquireWorkPermit_eq ht]
        rfl
      · rw [admitPushed_stageOf, tryAcquireWorkPermit_eq ht]
        rfl
  | claim hslot => exact hp.congr rfl rfl rfl fun _ _ => rfl
  | restore hh hl => exact hp.congr rfl rfl rfl fun _ _ => rfl
  | pend hr => exact hp.congr rfl rfl rfl fun _ _ => rfl
  | handoff hr hlane hc =>
      rename_i i l target enter result
      have hq : Permitted host.config { s with queues := handedOff s.queues l target } :=
        hp.congr rfl rfl rfl fun _ _ => rfl
      exact hq.handoff (ho.leased_fresh hr.lease).1 hr.retains.target hr.retains.source hlane
        enter result
  | pair hne hi hj hcross hback hto hq =>
      rename_i i j l m target target' enter enter' result result' queues
      have hq : Permitted host.config { s with queues } := hp.congr rfl rfl rfl fun _ _ => rfl
      exact hq.pair hne (ho.leased_fresh hi.lease).1 (ho.leased_fresh hj.lease).1
        hi.retains.source hj.retains.source hcross hback hto enter enter' result result'
  | park wake hh hl => exact hp.congr rfl rfl rfl fun _ _ => rfl
  | wake ht hc =>
      rename_i entry rest
      refine hp.congr rfl rfl rfl fun j _ => ?_
      by_cases hj : j = entry.item
      · subst hj
        simp [Coordinator.admitPushed, Coordinator.setItem, Coordinator.stageOf]
      · simp [Coordinator.admitPushed, Coordinator.setItem, Coordinator.stageOf, hj]
  | submit handle perRepo hh hq => exact hp.congr rfl rfl rfl fun _ _ => rfl
  | submitAuxiliary handle hh hq => exact hp.congr rfl rfl rfl fun _ _ => rfl
  | complete handle auxiliary repo =>
      cases auxiliary with
      | false => exact hp.congr rfl rfl rfl fun _ _ => rfl
      | true => exact hp.congr rfl rfl rfl fun _ _ => rfl
  | edit hh hk hsink => exact hp.setItem rfl hk.stage rfl rfl rfl
  | compact reason result hh => exact hp.setItem rfl rfl rfl rfl rfl
  | sink w hh hstage =>
      rename_i i
      have hk := finishedStep_keeps (i := i) host.sink w (s.workItem i)
      exact hp.setItem rfl hk.stage rfl rfl rfl
  | poison result hh hstage hrec htried => exact hp.setItem rfl rfl rfl rfl rfl
  | retire hh hl hr =>
      rename_i i _
      obtain ⟨_, hrec, _⟩ := ho.leased_fresh hl
      unfold Coordinator.retired
      rw [recordTerminalResult_eq hr hrec]
      refine hp.leave (i := i) rfl rfl rfl fun j hj => ?_
      simp [Coordinator.releaseWorkPermit, Coordinator.unlease, Coordinator.setItem,
        Coordinator.stageOf, Function.update_of_ne hj]
  | vanish hh hl hsetup =>
      rename_i i _
      exact hp.leave (i := i) rfl rfl rfl fun _ _ => rfl

end Hephaestus.Pipeline
