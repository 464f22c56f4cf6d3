import Hephaestus.Pipeline.ExitStatus
import Hephaestus.Proofs.Ownership

/-!
# What a run has on record

The coordinator's list of items against the list of those it has recorded.
Whatever is listed is live or recorded, and of the recorded ones exactly the
newest are listed, in the order they were recorded: `terminal_detail_capacity`
of them. Nothing is written to an item once it is on record, so the aggregate
over the items of a pass can be taken at any time after they were recorded,
and it is the one the code adds up item by item.

A source that fails leaves a recorded item behind without ever pushing it, so
the invariant, and `Sound` with it, is carried over that step too.
-/

namespace Hephaestus.Pipeline

open Hephaestus.Lib StageQueueLease

variable {ω : Type} {host : Host ω} {config : PipelineConfig} {s s' : Coordinator}
  {i j : ItemId}

/-! ## The newest of a list -/

section LastN

variable {α : Type} {l : List α} {a : α} {m n : Nat}

theorem lastN_concat : lastN (n + 1) (l ++ [a]) = lastN n l ++ [a] := by
  unfold lastN
  rw [List.length_append, List.length_singleton, Nat.add_sub_add_right,
    List.drop_append_of_le_length (Nat.sub_le _ _)]

theorem lastN_suffix : lastN n l <:+ l := List.drop_suffix _ _

theorem lastN_lastN (h : m ≤ n) : lastN m (lastN n l) = lastN m l := by
  unfold lastN
  rw [List.drop_drop, List.length_drop]
  congr 1
  omega

theorem lastN_eq_nil (hn : 0 < n) : lastN n l = [] ↔ l = [] := by
  unfold lastN
  rw [List.drop_eq_nil_iff, ← List.length_eq_zero_iff]
  omega

/-- Without repetitions, what is not among the first entries is what is left
of them. -/
theorem filter_notMem_take [DecidableEq α] (h : l.Nodup) :
    l.filter (fun b => !(l.take n).contains b) = l.drop n := by
  have hsplit : l.filter (fun b => !(l.take n).contains b) =
      (l.take n ++ l.drop n).filter (fun b => !(l.take n).contains b) := by
    rw [List.take_append_drop]
  have hdisjoint : (l.take n).Disjoint (l.drop n) := List.disjoint_take_drop h le_rfl
  rw [hsplit, List.filter_append, List.filter_eq_nil_iff.mpr, List.nil_append,
    List.filter_eq_self.mpr]
  · intro b hb
    have hout : b ∉ l.take n := fun htake => hdisjoint htake hb
    simpa using hout
  · intro b hb
    simpa using hb

end LastN

/-! ## The invariant -/

/-- The items on the list are live or recorded, and of the recorded ones the
newest are on it. -/
structure Accounted (config : PipelineConfig) (s : Coordinator) : Prop where
  nodup : s.items.Nodup
  tracked : ∀ i ∈ s.seenItemIds, i ∈ s.items
  live : ∀ i ∈ s.items, (s.workItem i).summaryRecorded = false → i ∈ s.seenItemIds
  recorded : ∀ i ∈ s.terminalSummary, Recorded s i
  born : ∀ i ∈ s.terminalSummary, i < s.allocated
  window : s.items.filter (fun i => (s.workItem i).summaryRecorded) =
    lastN config.terminalDetailCapacity s.terminalSummary

theorem Owned.seen_unrecorded (ho : Owned s) (hi : i ∈ s.seenItemIds) :
    (s.workItem i).summaryRecorded = false := by
  obtain ⟨h, hv⟩ := ho.held i
  exact (hv.fresh hi).1

theorem Owned.seen_born (ho : Owned s) (hi : i ∈ s.seenItemIds) : i < s.allocated := by
  by_contra hge
  exact ho.unborn i (Nat.not_lt.mp hge) hi

namespace Accounted

/-- Nothing on record is live. -/
theorem notMem_seen (h : Accounted config s) (ho : Owned s) (hi : i ∈ s.terminalSummary) :
    i ∉ s.seenItemIds := by
  intro hseen
  have hrec := (h.recorded i hi).2.1
  rw [ho.seen_unrecorded hseen] at hrec
  cases hrec

theorem mem_terminalSummary (h : Accounted config s) (hi : i ∈ s.items)
    (hrec : (s.workItem i).summaryRecorded = true) : i ∈ s.terminalSummary := by
  have hwindow : i ∈ lastN config.terminalDetailCapacity s.terminalSummary := by
    rw [← h.window]
    exact List.mem_filter.mpr ⟨hi, hrec⟩
  exact lastN_suffix.subset hwindow

theorem item_born (h : Accounted config s) (ho : Owned s) (hi : i ∈ s.items) :
    i < s.allocated := by
  by_cases hrec : (s.workItem i).summaryRecorded = true
  · exact h.born i (h.mem_terminalSummary hi hrec)
  · exact ho.seen_born (h.live i hi (by simpa using hrec))

/-- Once nothing is live, the list is the window. -/
theorem items_eq (h : Accounted config s) (hnone : s.seenItemIds = ∅) :
    s.items = lastN config.terminalDetailCapacity s.terminalSummary := by
  rw [← h.window, List.filter_eq_self.mpr]
  intro i hi
  by_contra hrec
  have hlive := h.live i hi (by simpa using hrec)
  rw [hnone] at hlive
  exact Finset.notMem_empty i hlive

end Accounted

/-! ## Over the moves -/

/-- The summary grows at its end, and nothing is written to what is on it. -/
structure Extends (s s' : Coordinator) : Prop where
  summary : s.terminalSummary <+: s'.terminalSummary
  frozen : ∀ i ∈ s.terminalSummary, s'.workItem i = s.workItem i

theorem Extends.refl (s : Coordinator) : Extends s s :=
  ⟨List.prefix_refl _, fun _ _ => rfl⟩

theorem Extends.trans {u : Coordinator} (h : Extends s s') (h' : Extends s' u) :
    Extends s u where
  summary := h.summary.trans h'.summary
  frozen := fun i hi => (h'.frozen i (h.summary.subset hi)).trans (h.frozen i hi)

/-- A change that lists the same items, records none, and writes to live
items only. -/
theorem Accounted.frame (h : Accounted config s) (ho : Owned s) (ho' : Owned s')
    (hitems : s'.items = s.items) (hsummary : s'.terminalSummary = s.terminalSummary)
    (hseen : s'.seenItemIds = s.seenItemIds) (halloc : s.allocated ≤ s'.allocated)
    (hitem : ∀ i, i < s.allocated → i ∉ s.seenItemIds → s'.workItem i = s.workItem i) :
    Accounted config s' ∧ Extends s s' := by
  have hrecords : ∀ i ∈ s.items,
      (s'.workItem i).summaryRecorded = (s.workItem i).summaryRecorded := by
    intro i hi
    by_cases hlive : i ∈ s.seenItemIds
    · rw [ho.seen_unrecorded hlive, ho'.seen_unrecorded (hseen ▸ hlive)]
    · rw [hitem i (h.item_born ho hi) hlive]
  have hfrozen : ∀ i ∈ s.terminalSummary, s'.workItem i = s.workItem i :=
    fun i hi => hitem i (h.born i hi) (h.notMem_seen ho hi)
  refine ⟨⟨hitems ▸ h.nodup, fun i hi => ?_, fun i hi hrec => ?_, fun i hi => ?_,
    fun i hi => ?_, ?_⟩, ⟨hsummary ▸ List.prefix_refl _, hfrozen⟩⟩
  · rw [hitems]
    exact h.tracked i (hseen ▸ hi)
  · rw [hitems] at hi
    rw [hrecords i hi] at hrec
    exact hseen ▸ h.live i hi hrec
  · rw [hsummary] at hi
    obtain ⟨hresult, hflag, _⟩ := h.recorded i hi
    refine ⟨?_, ?_, hsummary ▸ hi⟩
    · rw [hfrozen i hi]
      exact hresult
    · rw [hfrozen i hi]
      exact hflag
  · exact (h.born i (hsummary ▸ hi)).trans_le halloc
  · rw [hitems, hsummary, ← h.window]
    exact List.filter_congr hrecords

@[simp] theorem publishHandoff_items {target : StageName} {enter : Bool}
    {result : Option ItemResult} :
    (s.publishHandoff i target enter result).items = s.items := by
  unfold Coordinator.publishHandoff Coordinator.activateHandoff Coordinator.transferPermit
  split <;> rfl

/-- An item that was neither listed nor recorded comes on the list. -/
theorem Accounted.admitted (h : Accounted config s) (hfresh : i ∉ s.seenItemIds)
    (hrec : (s.workItem i).summaryRecorded = false)
    (hself : (s'.workItem i).summaryRecorded = false)
    (hitems : s'.items = s.items ++ [i]) (hsummary : s'.terminalSummary = s.terminalSummary)
    (hseen : s'.seenItemIds = insert i s.seenItemIds) (halloc : s'.allocated = s.allocated)
    (hitem : ∀ j, j ≠ i → s'.workItem j = s.workItem j) :
    Accounted config s' ∧ Extends s s' := by
  have hout : i ∉ s.items := fun hmem => hfresh (h.live i hmem hrec)
  have hunrecorded : i ∉ s.terminalSummary := by
    intro hmem
    have hflag := (h.recorded i hmem).2.1
    rw [hrec] at hflag
    cases hflag
  have hne : ∀ j ∈ s.terminalSummary, j ≠ i := fun j hj heq => hunrecorded (heq ▸ hj)
  refine ⟨⟨?_, fun j hj => ?_, fun j hj hjrec => ?_, fun j hj => ?_, fun j hj => ?_, ?_⟩,
    ⟨hsummary ▸ List.prefix_refl _, fun j hj => hitem j (hne j hj)⟩⟩
  · rw [hitems, ← List.concat_eq_append]
    exact h.nodup.concat hout
  · rw [hitems]
    rw [hseen] at hj
    rcases Finset.mem_insert.mp hj with rfl | hj
    · exact List.mem_append_right _ (List.mem_singleton_self j)
    · exact List.mem_append_left _ (h.tracked j hj)
  · rw [hitems] at hj
    rw [hseen]
    rcases List.mem_append.mp hj with hj | hj
    · have hji : j ≠ i := fun heq => hout (heq ▸ hj)
      rw [hitem j hji] at hjrec
      exact Finset.mem_insert_of_mem (h.live j hj hjrec)
    · exact Finset.mem_insert.mpr (.inl (List.mem_singleton.mp hj))
  · rw [hsummary] at hj
    obtain ⟨hresult, hflag, _⟩ := h.recorded j hj
    rw [← hitem j (hne j hj)] at hresult hflag
    exact ⟨hresult, hflag, hsummary ▸ hj⟩
  · exact halloc ▸ h.born j (hsummary ▸ hj)
  · rw [hitems, hsummary, ← h.window, List.filter_append]
    have hnil : [i].filter (fun j => (s'.workItem j).summaryRecorded) = [] := by
      rw [List.filter_cons_of_neg (by rw [hself]; exact Bool.false_ne_true), List.filter_nil]
    rw [hnil, List.append_nil]
    refine List.filter_congr fun j hj => ?_
    rw [hitem j fun heq => hout (heq ▸ hj)]

/-- What `_record_terminal_result` makes of the list: the item goes to its
end, and of the others the recorded ones that are too old drop out. -/
theorem Accounted.retain_eq (h : Accounted config s) (hi : i ∈ s.items)
    (hrec : (s.workItem i).summaryRecorded = false) (item : WorkItem) :
    ∃ kept, (s.setItem i item).retain config i = kept ++ [i] ∧
      kept.Sublist (s.items.erase i) ∧
      (∀ j ∈ s.items, j ≠ i → (s.workItem j).summaryRecorded = false → j ∈ kept) ∧
      kept.filter (fun j => ((s.setItem i item).workItem j).summaryRecorded) =
        lastN (config.terminalDetailCapacity - 1) s.terminalSummary := by
  have hothers : (s.items.erase i).filter
      (fun j => ((s.setItem i item).workItem j).summaryRecorded) =
      lastN config.terminalDetailCapacity s.terminalSummary := by
    rw [← h.window, h.nodup.erase_eq_filter, List.filter_filter]
    refine List.filter_congr fun j _ => ?_
    by_cases hji : j = i
    · subst hji
      simp [hrec]
    · simp [setItem_workItem_ne item hji, hji]
  generalize hold : lastN config.terminalDetailCapacity s.terminalSummary = old at hothers
  have hnd : old.Nodup := by
    rw [← hothers]
    exact (h.nodup.erase i).filter _
  generalize hkeep : config.terminalDetailCapacity - 1 = keep
  refine ⟨(s.items.erase i).filter fun j => !(old.take (old.length - keep)).contains j,
    ?_, List.filter_sublist, fun j hj hji hjrec => ?_, ?_⟩
  · have hcontains : (s.setItem i item).items.contains i = true := by
      simpa [Coordinator.setItem] using hi
    unfold Coordinator.retain
    simp only [hcontains, if_true]
    rw [show (s.setItem i item).items = s.items from rfl, hothers, hkeep]
  · refine List.mem_filter.mpr ⟨(List.mem_erase_of_ne hji).mpr hj, ?_⟩
    have hout : j ∉ old.take (old.length - keep) := by
      intro htake
      rw [← hothers] at htake
      have hflag := (List.mem_filter.mp (List.mem_of_mem_take htake)).2
      rw [setItem_workItem_ne item hji, hjrec] at hflag
      cases hflag
    simpa using hout
  · rw [List.filter_filter]
    simp only [Bool.and_comm (Coordinator.workItem _ _).summaryRecorded]
    rw [← List.filter_filter, hothers, filter_notMem_take hnd]
    show lastN keep old = _
    rw [← hold, lastN_lastN (by omega)]

/-- Recording a live item. -/
theorem Accounted.record (h : Accounted config s) (hi : i ∈ s.seenItemIds)
    (hfresh : ∀ j ∈ s.seenItemIds, (s.workItem j).summaryRecorded = false)
    (hresult : (s.workItem i).result.isSome = true) (hborn : i < s.allocated) :
    Accounted config (s.recordTerminalResult config i) ∧
      Extends s (s.recordTerminalResult config i) := by
  have hrec := hfresh i hi
  have hne : ∀ j ∈ s.terminalSummary, j ≠ i := by
    rintro j hj rfl
    have hflag := (h.recorded j hj).2.1
    rw [hrec] at hflag
    cases hflag
  rw [recordTerminalResult_eq hresult hrec]
  have hflag : ((s.workItem i).setPayload summaryRecordedKey (.bool true)).summaryRecorded =
      true := by
    simp [WorkItem.setPayload, WorkItem.summaryRecorded, Payload.flag, PayloadValue.truthy]
  generalize hitem : (s.workItem i).setPayload summaryRecordedKey (.bool true) = item at hflag ⊢
  have hsome : item.result.isSome = true := by
    rw [← hitem]
    exact hresult
  obtain ⟨kept, heq, hsub, hstay, hwindow⟩ := h.retain_eq (h.tracked i hi) hrec item
  have hout : i ∉ kept := fun hmem => h.nodup.not_mem_erase (hsub.subset hmem)
  refine ⟨⟨?_, fun j hj => ?_, fun j hj hjrec => ?_, fun j hj => ?_, fun j hj => ?_, ?_⟩,
    ⟨List.prefix_append _ _, fun j hj => setItem_workItem_ne item (hne j hj)⟩⟩
  · show ((s.setItem i item).retain config i).Nodup
    rw [heq, ← List.concat_eq_append]
    exact ((h.nodup.erase i).sublist hsub).concat hout
  · show j ∈ (s.setItem i item).retain config i
    obtain ⟨hji, hj⟩ := Finset.mem_erase.mp hj
    rw [heq]
    exact List.mem_append_left _ (hstay j (h.tracked j hj) hji (hfresh j hj))
  · have hj : j ∈ (s.setItem i item).retain config i := hj
    have hjrec : ((s.setItem i item).workItem j).summaryRecorded = false := hjrec
    have hji : j ≠ i := by
      rintro rfl
      rw [setItem_workItem_self, hflag] at hjrec
      cases hjrec
    rw [heq] at hj
    rw [setItem_workItem_ne item hji] at hjrec
    refine Finset.mem_erase.mpr ⟨hji, h.live j ?_ hjrec⟩
    rcases List.mem_append.mp hj with hj | hj
    · exact List.mem_of_mem_erase (hsub.subset hj)
    · exact absurd (List.mem_singleton.mp hj) hji
  · rcases List.mem_append.mp hj with hold | hnew
    · obtain ⟨hresult, hjrec, _⟩ := h.recorded j hold
      rw [← setItem_workItem_ne item (hne j hold)] at hresult hjrec
      exact ⟨hresult, hjrec, hj⟩
    · obtain rfl := List.mem_singleton.mp hnew
      refine ⟨?_, ?_, hj⟩
      · exact (congrArg (fun w => w.result.isSome) (setItem_workItem_self item)).trans hsome
      · exact (congrArg WorkItem.summaryRecorded (setItem_workItem_self item)).trans hflag
  · rcases List.mem_append.mp hj with hold | hnew
    · exact h.born j hold
    · obtain rfl := List.mem_singleton.mp hnew
      exact hborn
  · show ((s.setItem i item).retain config i).filter
        (fun j => ((s.setItem i item).workItem j).summaryRecorded) =
      lastN config.terminalDetailCapacity (s.terminalSummary ++ [i])
    have hself : [i].filter (fun j => ((s.setItem i item).workItem j).summaryRecorded) = [i] :=
      List.filter_cons_of_pos (by rw [setItem_workItem_self]; exact hflag)
    have hcap : config.terminalDetailCapacity = config.terminalDetailCapacity - 1 + 1 :=
      (Nat.sub_add_cancel config.terminalDetailCapacity_pos).symm
    rw [heq, List.filter_append, hwindow, hself, hcap, lastN_concat, Nat.add_sub_cancel]

/-- Every move keeps the account, and writes to nothing on record. -/
theorem Move.accounted (hm : Move host s s') (hs : Sound host s)
    (h : Accounted host.config s) : Accounted host.config s' ∧ Extends s s' := by
  have ho := hs.owned
  have ho' := (hm.sound hs).owned
  have hwrite : ∀ {j : ItemId} {item : WorkItem}, j ∈ s.seenItemIds → ∀ i, i < s.allocated →
      i ∉ s.seenItemIds → Function.update s.workItem j item i = s.workItem i :=
    fun hj i _ hi => Function.update_of_ne (fun heq => hi (by rw [heq]; exact hj)) _ _
  have hsame : ∀ i, i < s.allocated → i ∉ s.seenItemIds → s.workItem i = s.workItem i :=
    fun _ _ _ => rfl
  cases hm with
  | alloc new =>
      exact h.frame ho ho' rfl rfl rfl (Nat.le_succ _)
        fun i hi _ => Function.update_of_ne hi.ne _ _
  | idle pending shutdown sources => exact h.frame ho ho' rfl rfl rfl le_rfl hsame
  | logRoute j outcome => exact h.frame ho ho' rfl rfl rfl le_rfl hsame
  | admitNew halloc hseen hrec hfin ht hc =>
      rename_i t j
      rw [tryAcquireWorkPermit_eq ht] at ho' ⊢
      refine h.admitted hseen hrec (ho'.seen_unrecorded (Finset.mem_insert_self _ _)) rfl rfl rfl rfl
        fun i hij => Function.update_of_ne hij _ _
  | claim hslot => exact h.frame ho ho' rfl rfl rfl le_rfl hsame
  | restore hh hl => exact h.frame ho ho' rfl rfl rfl le_rfl hsame
  | pend hr => exact h.frame ho ho' rfl rfl rfl le_rfl hsame
  | handoff hr hlane hc =>
      rename_i j l target enter result
      refine h.frame ho ho' (by simp) (by simp) (by simp) (by simp) fun i _ hi => ?_
      have hij : i ≠ j := fun heq => hi (heq ▸ (ho.leased_fresh hr.lease).1)
      rw [publishHandoff_workItem_ne hij]
  | pair hne hj hk hcross hback hto hq =>
      rename_i j k l m target target' enter enter' result result' queues
      refine h.frame ho ho' (by simp) (by simp) (by simp) (by simp) fun i _ hi => ?_
      have hij : i ≠ j := fun heq => hi (heq ▸ (ho.leased_fresh hj.lease).1)
      have hik : i ≠ k := fun heq => hi (heq ▸ (ho.leased_fresh hk.lease).1)
      rw [publishHandoff_workItem_ne hik, publishHandoff_workItem_ne hij]
  | park wake hh hl => exact h.frame ho ho' rfl rfl rfl le_rfl hsame
  | wake ht hc =>
      refine h.frame ho ho' rfl rfl rfl le_rfl fun i _ _ => ?_
      simp only [Coordinator.admitPushed, Coordinator.setItem, Coordinator.stageOf,
        Bool.false_eq_true, if_false, moveTo_same, Function.update_eq_self]
  | submit handle perRepo hh hq => exact h.frame ho ho' rfl rfl rfl le_rfl hsame
  | submitAuxiliary handle hh hq => exact h.frame ho ho' rfl rfl rfl le_rfl hsame
  | complete handle auxiliary repo =>
      cases auxiliary <;> exact h.frame ho ho' rfl rfl rfl le_rfl hsame
  | edit hh hp hk => exact h.frame ho ho' rfl rfl rfl le_rfl (hwrite (ho.inHand_seen hh))
  | compact reason result hh =>
      exact h.frame ho ho' rfl rfl rfl le_rfl (hwrite (ho.inHand_seen hh))
  | sink w hh hstage => exact h.frame ho ho' rfl rfl rfl le_rfl (hwrite (ho.inHand_seen hh))
  | poison result hh hstage hrec htried =>
      exact h.frame ho ho' rfl rfl rfl le_rfl (hwrite (ho.inHand_seen hh))
  | retire hh hl hr =>
      have hseen := ho.inHand_seen hh
      obtain ⟨ha, hx⟩ := h.record hseen (fun j hj => ho.seen_unrecorded hj) hr (ho.seen_born hseen)
      exact ⟨⟨ha.nodup, ha.tracked, ha.live, ha.recorded, ha.born, ha.window⟩,
        ⟨hx.summary, hx.frozen⟩⟩
  | vanish hh hl hsetup =>
      rename_i j l
      have hrec := ho.seen_unrecorded (ho.inHand_seen hh)
      refine ⟨⟨h.nodup.erase j, fun i hi => ?_, fun i hi hirec => ?_, h.recorded, h.born, ?_⟩,
        ⟨List.prefix_refl _, fun _ _ => rfl⟩⟩
      · obtain ⟨hij, hi⟩ := Finset.mem_erase.mp hi
        exact (List.mem_erase_of_ne hij).mpr (h.tracked i hi)
      · obtain ⟨hij, hi⟩ := (h.nodup.mem_erase_iff).mp hi
        exact Finset.mem_erase.mpr ⟨hij, h.live i hi hirec⟩
      · refine Eq.trans ?_ h.window
        show (s.items.erase j).filter (fun i => (s.workItem i).summaryRecorded) = _
        rw [h.nodup.erase_eq_filter, List.filter_filter]
        refine List.filter_congr fun i _ => ?_
        by_cases hij : i = j
        · subst hij
          simp [hrec]
        · simp [hij]

theorem Moves.accounted (hm : Moves host s s') (hs : Sound host s)
    (h : Accounted host.config s) : Accounted host.config s' ∧ Extends s s' := by
  have hall : Sound host s' ∧ Accounted host.config s' ∧ Extends s s' := by
    induction hm with
    | refl => exact ⟨hs, h, Extends.refl s⟩
    | tail _ hm ih =>
        obtain ⟨ha, hx⟩ := hm.accounted ih.1 ih.2.1
        exact ⟨hm.sound ih.1, ha, ih.2.2.trans hx⟩
  exact hall.2

/-! ## A source that fails -/

section FailedSource

variable {item : WorkItem}

/-- Recording takes the item off the live ones and does not read them. -/
theorem recordTerminalResult_seen (config : PipelineConfig)
    (hresult : (s.workItem i).result.isSome = true)
    (hrec : (s.workItem i).summaryRecorded = false) (seen : Finset ItemId) :
    Coordinator.recordTerminalResult config { s with seenItemIds := seen } i =
      { s.recordTerminalResult config i with seenItemIds := seen.erase i } := by
  rw [recordTerminalResult_eq hresult hrec]
  exact recordTerminalResult_eq hresult hrec

/-- So it makes no difference that the item was never live. -/
theorem recordFailedSource_eq (hseen : s.allocated ∉ s.seenItemIds)
    (hresult : item.result.isSome = true) (hrec : item.summaryRecorded = false) :
    s.recordFailedSource config item =
      Coordinator.recordTerminalResult config
        { s.alloc item with
          items := s.items ++ [s.allocated]
          seenItemIds := insert s.allocated s.seenItemIds } s.allocated := by
  have hself : (s.alloc item).workItem s.allocated = item := Function.update_self _ _ _
  rw [← hself] at hresult hrec
  have hrecord := fun seen => recordTerminalResult_seen config
    (s := { s.alloc item with items := s.items ++ [s.allocated] }) hresult hrec seen
  refine (hrecord s.seenItemIds).trans (Eq.trans ?_ (hrecord (insert s.allocated _)).symm)
  rw [Finset.erase_insert hseen, Finset.erase_eq_of_notMem hseen]

/-- The item goes on record, and no other is touched. -/
theorem Accounted.failedSource (h : Accounted config s) (ho : Owned s) (item : WorkItem)
    (hresult : item.result.isSome = true) (hrec : item.summaryRecorded = false) :
    Accounted config (s.recordFailedSource config item) ∧
      Extends s (s.recordFailedSource config item) := by
  have hout := ho.unborn s.allocated le_rfl
  have hself : (s.alloc item).workItem s.allocated = item := Function.update_self _ _ _
  obtain ⟨ha, hx⟩ := h.frame ho (ho.alloc item) rfl rfl rfl (Nat.le_succ _)
    fun i hi _ => Function.update_of_ne hi.ne _ _
  have hflag : ((s.alloc item).workItem s.allocated).summaryRecorded = false := by
    rw [hself]
    exact hrec
  rw [recordFailedSource_eq hout hresult hrec]
  generalize hlisted : ({ s.alloc item with
    items := s.items ++ [s.allocated]
    seenItemIds := insert s.allocated s.seenItemIds } : Coordinator) = u
  have hadmit : Accounted config u ∧ Extends (s.alloc item) u := by
    rw [← hlisted]
    exact ha.admitted (i := s.allocated) hout hflag hflag rfl rfl rfl rfl fun _ _ => rfl
  obtain ⟨ha', hx'⟩ := hadmit
  subst hlisted
  rw [← hself] at hresult
  have hfresh : ∀ j ∈ insert s.allocated s.seenItemIds,
      ((s.alloc item).workItem j).summaryRecorded = false := by
    intro j hj
    rcases Finset.mem_insert.mp hj with rfl | hj
    · exact hflag
    · exact (ho.alloc item).seen_unrecorded hj
  obtain ⟨ha'', hx''⟩ := ha'.record (Finset.mem_insert_self _ _) hfresh hresult
    (Nat.lt_succ_self _)
  exact ⟨ha'', hx.trans (hx'.trans hx'')⟩

/-- Apart from the lists, it is one more item, already on record. -/
theorem recordFailedSource_alloc (config : PipelineConfig) (hseen : s.allocated ∉ s.seenItemIds)
    (hresult : item.result.isSome = true) (hrec : item.summaryRecorded = false) :
    ∃ items ledger, s.recordFailedSource config item =
      { s.alloc (item.setPayload summaryRecordedKey (.bool true)) with
        terminalSummary := s.terminalSummary ++ [s.allocated]
        items
        ledger } := by
  have hself : (s.alloc item).workItem s.allocated = item := Function.update_self _ _ _
  rw [← hself] at hresult hrec
  have hrecord := recordTerminalResult_seen config
    (s := { s.alloc item with items := s.items ++ [s.allocated] }) hresult hrec s.seenItemIds
  rw [Finset.erase_eq_of_notMem hseen, recordTerminalResult_eq
    (s := { s.alloc item with items := s.items ++ [s.allocated] }) hresult hrec] at hrecord
  refine ⟨(s.recordFailedSource config item).items, (s.recordFailedSource config item).ledger, ?_⟩
  rw [show s.recordFailedSource config item = _ from hrecord]
  simp only [Coordinator.alloc, Coordinator.setItem, Function.update_idem, Function.update_self]

theorem Sound.failedSource (h : Sound host s) (hresult : item.result.isSome = true)
    (hrec : item.summaryRecorded = false) :
    Sound host (s.recordFailedSource host.config item) := by
  have hout := h.owned.unborn s.allocated le_rfl
  have hne : ∀ j ∈ s.seenItemIds, j ≠ s.allocated := fun j hj heq => hout (heq ▸ hj)
  obtain ⟨items, ledger, heq⟩ := recordFailedSource_alloc host.config hout hresult hrec
  rw [heq]
  have ho := h.owned.alloc (item.setPayload summaryRecordedKey (.bool true))
  refine ⟨⟨ho.held, ho.fits, ho.unborn⟩, ?_, ?_, h.keyed⟩
  · refine h.permitted.congr rfl rfl rfl fun j hj => ?_
    exact congrArg WorkItem.stage (Function.update_of_ne (hne j hj) _ _)
  · refine h.sinking.update (i := s.allocated) (fun j hj _ => hj)
      (fun j hj => Function.update_of_ne hj _ _) (fun _ _ => le_rfl) fun hseen => ?_
    exact absurd hseen hout

end FailedSource

/-! ## Over a run -/

/-- What holds of every state a run comes to. -/
structure RunState.Accounts (host : Host ω) (s : RunState) : Prop where
  sound : Sound host s.coordinator
  accounted : Accounted host.config s.coordinator
  passStart_le : s.passStart ≤ s.recorded.length

theorem initial_accounts (host : Host ω) : (RunState.initial host).Accounts host where
  sound := initial_sound host
  accounted := ⟨List.nodup_nil, fun i hi => absurd hi (Finset.notMem_empty i),
    fun _ hi => absurd hi List.not_mem_nil, fun _ hi => absurd hi List.not_mem_nil,
    fun _ hi => absurd hi List.not_mem_nil,
    ((lastN_eq_nil host.config.terminalDetailCapacity_pos).mpr rfl).symm⟩
  passStart_le := le_rfl

theorem RunState.step_accounts {s s' : RunState} {e : RunEvent ω}
    (h : s.step host e = some s') (hs : s.Accounts host) :
    s'.Accounts host ∧ Extends s.coordinator s'.coordinator := by
  cases e with
  | coordinator e =>
      obtain ⟨t, ht, rfl⟩ := Option.map_eq_some_iff.mp h
      have hr := Coordinator.step_reached hs.sound ht
      obtain ⟨ha, hx⟩ := Moves.accounted hr.moves hs.sound hs.accounted
      exact ⟨⟨hr.sound, ha, hs.passStart_le.trans hx.summary.length_le⟩, hx⟩
  | seedPass =>
      obtain rfl := Option.some.inj h
      exact ⟨⟨hs.sound, hs.accounted, le_rfl⟩, Extends.refl _⟩
  | sourceFailed repo issue reason =>
      obtain rfl := Option.some.inj h
      obtain ⟨ha, hx⟩ := hs.accounted.failedSource hs.sound.owned
        (failedSource repo issue reason) rfl rfl
      exact ⟨⟨hs.sound.failedSource rfl rfl, ha, hs.passStart_le.trans hx.summary.length_le⟩, hx⟩
  | raises =>
      obtain rfl := Option.some.inj h
      exact ⟨⟨hs.sound, hs.accounted, hs.passStart_le⟩, Extends.refl _⟩

theorem RunState.run_accounts {tr : List (Transition RunState (RunEvent ω))} {s : RunState}
    (hrun : Run (RunState.step host) (RunState.initial host) tr s) : s.Accounts host :=
  hrun.invariant (RunState.Accounts host) (initial_accounts host) fun _ _ _ h hs =>
    (RunState.step_accounts hs h).1

/-- The aggregate is added up item by item: between two seed passes, what a
step puts on record is added to it, as it is then and stays. -/
theorem RunState.terminalSummary_extends {s s' : RunState} (hs : s.Accounts host)
    (hx : Extends s.coordinator s'.coordinator) (hpass : s'.passStart = s.passStart) :
    ∃ new, s'.recorded = s.recorded ++ new ∧ s'.terminalSummary = new.foldl
      (fun summary i => summary.record (s'.coordinator.workItem i)) s.terminalSummary := by
  obtain ⟨new, hnew⟩ := hx.summary
  have hrecorded : s'.recorded = s.recorded ++ new := hnew.symm
  refine ⟨new, hrecorded, ?_⟩
  unfold RunState.terminalSummary RunState.recordedThisPass
  rw [hrecorded, hpass, List.drop_append_of_le_length hs.passStart_le, List.foldl_append]
  congr 1
  refine List.foldl_ext _ _ _ fun summary i hi => ?_
  rw [hx.frozen i (List.mem_of_mem_drop hi)]

/-- A seed pass starts it afresh. -/
theorem RunState.terminalSummary_seedPass {s s' : RunState}
    (h : s.step host .seedPass = some s') : s'.terminalSummary = {} := by
  obtain rfl := Option.some.inj h
  unfold RunState.terminalSummary RunState.recordedThisPass
  rw [show ({ s with passStart := s.coordinator.terminalSummary.length } : RunState).recorded =
    s.coordinator.terminalSummary from rfl, List.drop_length, List.foldl_nil]

end Hephaestus.Pipeline
