import Hephaestus.Proofs.MoveOwnership

/-!
# Every move keeps the order of the sink

An item enters the sink through `ENTER`, and `RECORD` is the next state it
can be in. Until the ledger has its result there is no job out for it. So
whatever goes wrong with an item in the sink goes wrong in `RECORD` or after
it, which is what makes the order of the wave store and the ledger a
question about `RECORD` alone.
-/

namespace Hephaestus.Pipeline

open Hephaestus.Lib StageQueueLease

variable {ω : Type} {host : Host ω} {s s' : Coordinator} {i j : ItemId}

/-- The states of the sink up to `RECORD`. -/
def BeforeCleanup (state : String) : Prop := state = "" ∨ state = "ENTER" ∨ state = "RECORD"

/-- An item in the sink that the ledger does not have yet: no job is out, and
`RECORD` is still to come or under way. -/
def AtSink (s : Coordinator) (i : ItemId) : Prop :=
  s.stageOf i = .finished → (s.workItem i).payload.flag recordedKey = false →
    s.flights i = 0 ∧ BeforeCleanup (s.workItem i).state

/-- The order of the sink, for every live item. -/
def Sinking (s : Coordinator) : Prop := ∀ i ∈ s.seenItemIds, AtSink s i

/-- A move that concerns one item at most. -/
theorem Sinking.update (h : Sinking s) (hseen : ∀ j ∈ s'.seenItemIds, j ≠ i → j ∈ s.seenItemIds)
    (hother : ∀ j, j ≠ i → s'.workItem j = s.workItem j)
    (hflights : ∀ j, j ≠ i → s'.flights j ≤ s.flights j)
    (hself : i ∈ s'.seenItemIds → AtSink s' i) : Sinking s' := by
  intro j hj
  by_cases hji : j = i
  · subst hji
    exact hself hj
  · intro hstage hrec
    unfold Coordinator.stageOf at hstage
    rw [hother j hji] at hstage hrec ⊢
    obtain ⟨hflight, hstate⟩ := h j (hseen j hj hji) hstage hrec
    exact ⟨Nat.le_zero.mp (hflight ▸ hflights j hji), hstate⟩

/-- A move that writes no item's record and sends no job out. -/
theorem Sinking.congr (h : Sinking s) (hseen : s'.seenItemIds = s.seenItemIds)
    (hitem : s'.workItem = s.workItem) (hflights : ∀ j, s'.flights j ≤ s.flights j) :
    Sinking s' := by
  intro j hj hstage hrec
  unfold Coordinator.stageOf at hstage
  rw [hitem] at hstage hrec ⊢
  obtain ⟨hflight, hstate⟩ := h j (hseen ▸ hj) hstage hrec
  exact ⟨Nat.le_zero.mp (hflight ▸ hflights j), hstate⟩

/-- A write to the record of an item in hand. -/
theorem Sinking.setItem (h : Sinking s) (hh : s.InHand i) {item : WorkItem}
    (hseen : s'.seenItemIds = s.seenItemIds)
    (hitem : s'.workItem = Function.update s.workItem i item)
    (hflights : s'.flights = s.flights)
    (hself : item.stage = .finished → item.payload.flag recordedKey = false →
      BeforeCleanup item.state) : Sinking s' := by
  refine h.update (i := i) (fun j hj _ => hseen ▸ hj) (fun j hj => ?_)
    (fun j _ => (congrFun hflights j).le) fun _ hstage hrec => ?_
  · rw [hitem, Function.update_of_ne hj]
  · unfold Coordinator.stageOf at hstage
    rw [hitem, Function.update_self] at hstage hrec ⊢
    exact ⟨(congrFun hflights i).trans hh.2.2, hself hstage hrec⟩

/-! ## Entering -/

/-- An item put back into the stage it was in. -/
theorem moveTo_same (item : WorkItem) : item.moveTo item.stage false = item := by
  simp [WorkItem.moveTo, WorkItem.clearFileClaimsOnExit]

theorem publishHandoff_workItem_self {target : StageName} {enter : Bool}
    {result : Option ItemResult} :
    (s.publishHandoff i target enter result).workItem i =
      { (s.workItem i).moveTo target enter with
        result := result.orElse fun _ => (s.workItem i).result } := by
  unfold Coordinator.publishHandoff Coordinator.activateHandoff Coordinator.transferPermit
  split <;> simp [Coordinator.setItem]

@[simp] theorem publishHandoff_flights {target : StageName} {enter : Bool}
    {result : Option ItemResult} :
    (s.publishHandoff i target enter result).flights j = s.flights j := by
  unfold Coordinator.publishHandoff Coordinator.activateHandoff Coordinator.transferPermit
  split <;> rfl

/-- A handoff into the sink enters it. -/
theorem Sinking.publish (h : Sinking s) {target : StageName} {enter : Bool}
    (result : Option ItemResult) (hflights : s.flights i = 0)
    (henter : target = .finished → enter = true) :
    Sinking (s.publishHandoff i target enter result) := by
  refine h.update (i := i) (fun j hj _ => by simpa using hj)
    (fun j hj => publishHandoff_workItem_ne hj) (fun j _ => publishHandoff_flights.le)
    fun _ hstage _ => ?_
  unfold Coordinator.stageOf at hstage
  rw [publishHandoff_workItem_self] at hstage ⊢
  obtain rfl := henter ((moveTo_stage _ _ _).symm.trans hstage)
  exact ⟨publishHandoff_flights.trans hflights, .inr (.inl rfl)⟩

/-! ## The sink's own steps -/

/-- A sink step that leaves the ledger without a result leaves the state
alone. -/
theorem finishedStep_state (sink : Sink ω) (w : ω) {item : WorkItem}
    (hitem : item.payload.flag recordedKey = false → BeforeCleanup item.state)
    (hrec : (finishedStep sink w i item).item.payload.flag recordedKey = false) :
    BeforeCleanup (finishedStep sink w i item).item.state := by
  have hkeep : ∀ item' : WorkItem, Keeps item item' → item'.payload.flag recordedKey = false →
      item.payload.flag recordedKey = false := by
    intro item' hk hfalse
    unfold Payload.flag at hfalse ⊢
    rwa [← hk.keys recordedKey (by decide)]
  unfold finishedStep at hrec ⊢
  split
  · next hstate => exact hstate.elim .inl fun h => .inr (.inl h)
  · next hne =>
      rw [if_neg hne] at hrec
      split
      · next hstate =>
          -- `RECORD` writes the result, the flags and nothing else.
          refine .inr (.inr ?_)
          obtain ⟨r, worktree, heq⟩ := recordResult_eq sink w item
          unfold recordStep recordLedger
          simp only [heq]
          split
          · split
            · exact hstate
            · split <;> exact hstate
          · split <;> exact hstate
      · next hne' =>
          rw [if_neg hne'] at hrec
          have hlate : ∀ item' : WorkItem, Keeps item item' →
              item'.payload.flag recordedKey = false → False := by
            intro item' hk hfalse
            rcases hitem (hkeep item' hk hfalse) with h | h | h
            · exact hne (.inl h)
            · exact hne (.inr h)
            · exact hne' h
          split
          · next hstate =>
              rw [if_pos hstate] at hrec
              exact (hlate _ (sink.cleanup.keeps w item) hrec).elim
          · next hstate =>
              rw [if_neg hstate] at hrec
              split
              · next hdone =>
                  rw [if_pos hdone] at hrec
                  exact (hlate _ (sink.recordCleanupTerminal.keeps w item) hrec).elim
              · next hdone =>
                  rw [if_neg hdone] at hrec
                  exact hitem hrec

/-! ## All moves -/

/-- Every move keeps the order of the sink. -/
theorem Move.sinking (hm : Move host s s') (ho : Owned s) (h : Sinking s) : Sinking s' := by
  cases hm with
  | alloc new =>
      have hne : ∀ j ∈ s.seenItemIds, j ≠ s.allocated :=
        fun j hj heq => ho.unborn s.allocated le_rfl (heq ▸ hj)
      refine h.update (i := s.allocated) (fun j hj _ => hj) (fun j hj => ?_) (fun _ _ => le_rfl)
        fun hseen => absurd rfl (hne _ hseen)
      simp [Coordinator.alloc, Coordinator.setItem, Function.update_of_ne hj]
  | idle pending shutdown sources => exact h.congr rfl rfl fun _ => le_rfl
  | logRoute i outcome => exact h.congr rfl rfl fun _ => le_rfl
  | admitNew halloc hseen hrec hfin ht hc =>
      rename_i t i
      rw [tryAcquireWorkPermit_eq ht]
      refine h.update (i := i) (fun j hj hne => ?_) (fun j hj => ?_) (fun _ _ => le_rfl)
        fun _ _ _ => ⟨?_, .inr (.inl ?_)⟩
      · simpa [Coordinator.admitPushed, hne] using hj
      · simp [Coordinator.admitPushed, Coordinator.setItem, Function.update_of_ne hj]
      · exact ((ho.nowhere hseen).nowhere_loose).1.flights
      · simp only [Coordinator.admitPushed, Coordinator.setItem, if_true, Function.update_self]
        split <;> rfl
  | claim hslot => exact h.congr rfl rfl fun _ => le_rfl
  | restore hh hl => exact h.congr rfl rfl fun _ => le_rfl
  | pend hr => exact h.congr rfl rfl fun _ => le_rfl
  | handoff hr hlane hc =>
      rename_i i l target enter result
      have hq : Sinking { s with queues := handedOff s.queues l target } :=
        h.congr rfl rfl fun _ => le_rfl
      exact hq.publish result hr.flights hr.retains.enter
  | pair hne hi hj hcross hback hto hq =>
      rename_i i j l m target target' enter enter' result result' queues
      have hq : Sinking { s with queues } := h.congr rfl rfl fun _ => le_rfl
      refine (hq.publish result hi.flights hi.retains.enter).publish result' ?_ hj.retains.enter
      exact publishHandoff_flights.trans hj.flights
  | park wake hh hl => exact h.congr rfl rfl fun _ => le_rfl
  | wake ht hc =>
      refine h.congr rfl ?_ fun _ => le_rfl
      simp only [Coordinator.admitPushed, Coordinator.setItem, Coordinator.stageOf,
        Bool.false_eq_true, if_false, moveTo_same, Function.update_eq_self]
  | submit handle perRepo hh hq =>
      rename_i i
      refine h.update (i := i) (fun j hj _ => hj) (fun _ _ => rfl) (fun j hj => ?_)
        fun _ hstage hrec => absurd (hq hstage) (by simpa using hrec)
      have hcount := Dict.count_values_set_le s.inFlight handle i j
      rw [if_neg (Ne.symm hj)] at hcount
      exact Nat.add_le_add_right hcount _
  | submitAuxiliary handle hh hq =>
      rename_i i
      refine h.update (i := i) (fun j hj _ => hj) (fun _ _ => rfl) (fun j hj => ?_)
        fun _ hstage hrec => absurd (hq hstage) (by simpa using hrec)
      have hcount := Dict.count_values_set_le s.auxiliaryInFlight handle i j
      rw [if_neg (Ne.symm hj)] at hcount
      exact Nat.add_le_add_left hcount _
  | complete handle auxiliary repo =>
      cases auxiliary with
      | false =>
          refine h.congr rfl rfl fun j => ?_
          exact Nat.add_le_add_right (Dict.count_values_erase_le s.inFlight handle j) _
      | true =>
          refine h.congr rfl rfl fun j => ?_
          exact Nat.add_le_add_left (Dict.count_values_erase_le s.auxiliaryInFlight handle j) _
  | edit hh hp hk =>
      rename_i i item
      refine h.setItem hh rfl rfl rfl fun hstage hrec => ?_
      have hstage' : s.stageOf i = .finished := hp.stage.symm.trans hstage
      have hrec' : (s.workItem i).payload.flag recordedKey = false := by
        unfold Payload.flag at hrec ⊢
        rwa [← hp.keys recordedKey (by decide)]
      rcases hk hstage' hrec' with hsame | hrecord
      · rw [hsame]
        exact (h i (ho.inHand_seen hh) hstage' hrec').2
      · exact .inr (.inr hrecord)
  | compact reason result hh hstage =>
      refine h.setItem hh rfl rfl rfl fun hfin => ?_
      cases hstage.symm.trans hfin
  | sink w hh hstage =>
      rename_i i
      refine h.setItem hh rfl rfl rfl fun _ hrec => ?_
      exact finishedStep_state host.sink w (fun hr => (h i (ho.inHand_seen hh) hstage hr).2) hrec
  | poison result hh hstage hrec htried =>
      refine h.setItem hh rfl rfl rfl fun _ hfalse => ?_
      simp [WorkItem.setPayload, Payload.flag, PayloadValue.truthy] at hfalse
  | retire hh hl hr =>
      rename_i i _
      obtain ⟨_, hrec, _⟩ := ho.leased_fresh hl
      unfold Coordinator.retired
      rw [recordTerminalResult_eq hr hrec]
      refine h.update (i := i) (fun j hj _ => Finset.mem_of_mem_erase hj) (fun j hj => ?_)
        (fun _ _ => le_rfl) fun hseen => absurd hseen (Finset.notMem_erase _ _)
      simp [Coordinator.releaseWorkPermit, Coordinator.unlease, Coordinator.setItem,
        Function.update_of_ne hj]
  | vanish hh hl hsetup =>
      rename_i i _
      exact h.update (i := i) (fun j hj _ => Finset.mem_of_mem_erase hj) (fun _ _ => rfl)
        (fun _ _ => le_rfl) fun hseen => absurd hseen (Finset.notMem_erase _ _)

end Hephaestus.Pipeline
