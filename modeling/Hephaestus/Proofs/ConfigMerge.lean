import Mathlib.Data.Finset.Range
import Mathlib.Order.Filter.AtTopBot.Basic
import Mathlib.Order.Filter.Finite
import Hephaestus.Proofs.ConfigStore
import Hephaestus.Lib.Command

/-!
# When a merge leaves its configurations alone

Below the top the dictionaries that are merged into belong to the configurations, so a
merge leaves them alone just where it finds nothing to do there: every dictionary that
is merged into another is absorbed by it. Where that is so, the store stays as it is
but for the new dictionary, and the values follow. The other way round, a run that has
changed none of its arguments has, at every turn, assigned what was there, and the
turns put together are the same condition.
-/

namespace Hephaestus.Config

open Hephaestus.Lib

variable {K A : Type} [DecidableEq K] {dicts : Store K A} {inside : A → List Nat}
  {base override r s : Nat}

variable [DecidableEq A] {h h' : Heap K A}

/-- Assigning what is there changes nothing. -/
theorem assign_self {key : Key K} {value : Value A}
    (hget : (h.dicts base).get? key = some value) : h.assign base key value = h := by
  have hset : (h.dicts base).set key value = h.dicts base := Object.ext (Dict.set_self hget)
  unfold Heap.assign
  rw [hset, Function.update_eq_self, if_pos hget]

theorem changed_assign (key : Key K) (value : Value A) :
    h.changed ⊆ (h.assign base key value).changed := by
  unfold Heap.assign
  dsimp only
  split
  · exact List.Subset.refl _
  · exact List.subset_cons_self _ _

theorem get?_of_assign {key : Key K} {value : Value A}
    (hbase : base ∉ (h.assign base key value).changed) :
    (h.dicts base).get? key = some value := by
  unfold Heap.assign at hbase
  dsimp only at hbase
  split at hbase
  · assumption
  · exact absurd List.mem_cons_self hbase

section Turn

variable {merge : Heap K A → Nat → Nat → Except MergeError (Heap K A)} {size i : Nat} {key : Key K}
  {value : Value A}

/-- A turn over a key that is no name. -/
theorem mergeItem_skip (hsize : (h.dicts override).items.length = size)
    (hitem : (h.dicts override).items[i]? = some (key, value)) (hname : key.isName = false) :
    mergeItem merge size base override h i = .ok h := by
  unfold mergeItem
  dsimp only
  rw [if_neg (not_not.mpr hsize), hitem]
  dsimp only
  rw [if_pos hname]

/-- A turn that assigns. -/
theorem mergeItem_assign (hsize : (h.dicts override).items.length = size)
    (hitem : (h.dicts override).items[i]? = some (key, value)) (hname : key.isName = true)
    (hnot : ∀ inner r, (h.dicts base).get? key = some (.dict inner) → value ≠ .dict r) :
    mergeItem merge size base override h i = .ok (h.assign base key value) := by
  unfold mergeItem
  dsimp only
  rw [if_neg (not_not.mpr hsize), hitem]
  dsimp only
  rw [if_neg (by rw [hname]; simp)]
  split
  · next inner r hheld => exact absurd rfl (hnot inner r hheld)
  · rfl

/-- A turn that merges a dictionary into another. -/
theorem mergeItem_dict {inner : Nat} (hsize : (h.dicts override).items.length = size)
    (hitem : (h.dicts override).items[i]? = some (key, .dict r)) (hname : key.isName = true)
    (hheld : (h.dicts base).get? key = some (.dict inner)) :
    mergeItem merge size base override h i = merge h inner r := by
  unfold mergeItem
  dsimp only
  rw [if_neg (not_not.mpr hsize), hitem]
  dsimp only
  rw [if_neg (by rw [hname]; simp), hheld]

end Turn

/-! ## Runs -/

theorem mergeItem_changed {merge : Heap K A → Nat → Nat → Except MergeError (Heap K A)}
    (hmerge : ∀ h b o h', merge h b o = .ok h' → h.changed ⊆ h'.changed) {size i : Nat}
    (hrun : mergeItem merge size base override h i = .ok h') : h.changed ⊆ h'.changed := by
  unfold mergeItem at hrun
  dsimp only at hrun
  split at hrun
  · cases hrun
  · split at hrun
    · obtain rfl := Except.ok.inj hrun
      exact List.Subset.refl _
    · split at hrun
      · obtain rfl := Except.ok.inj hrun
        exact List.Subset.refl _
      · split at hrun
        · exact hmerge _ _ _ _ hrun
        · obtain rfl := Except.ok.inj hrun
          exact changed_assign _ _

/-- The call of `_deep_merge` that is not out of stack. -/
theorem deepMerge_succ {room : Nat} :
    deepMerge (room + 1) h base override = .ok h' ↔
      (List.range (h.dicts override).items.length).foldlM (mergeItem (deepMerge room)
          (h.dicts override).items.length base override) h = .ok h' ∧
        (h'.dicts override).items.length = (h.dicts override).items.length := by
  rw [deepMerge, except_bind_ok]
  constructor
  · rintro ⟨s, hloop, hend⟩
    split at hend
    · cases hend
    · next hsize =>
      obtain rfl := Except.ok.inj hend
      exact ⟨hloop, not_not.mp hsize⟩
  · rintro ⟨hloop, hsize⟩
    exact ⟨h', hloop, if_neg (not_not.mpr hsize)⟩

theorem deepMerge_changed {room : Nat} (hrun : deepMerge room h base override = .ok h') :
    h.changed ⊆ h'.changed := by
  induction room generalizing h base override h' with
  | zero => cases hrun
  | succ room ih =>
      have hloop := (deepMerge_succ.mp hrun).1
      refine (foldlM_range_inv (P := fun _ _ => True)
        (R := fun s t : Heap K A => s.changed ⊆ t.changed) (fun _ => List.Subset.refl _)
        (fun _ _ _ => List.Subset.trans) (fun s i s' => mergeItem_changed fun _ _ _ _ => ih)
        (fun _ _ _ _ _ _ _ => trivial) trivial hloop).2

/-! ## A merge that finds nothing to do -/

/-- A dictionary that is absorbed can be merged, and nothing changes. -/
theorem deepMerge_absorbed {x : Nat} (hnew : New inside dicts x) (habs : Absorbs dicts base override)
    (hbase : base ≠ x) (hoverride : override ≠ x) :
    ∀ᶠ room in Filter.atTop, ∀ h : Heap K A, Agree x h.dicts dicts →
      deepMerge room h base override = .ok h := by
  induction habs with
  | @intro base override items inner ih =>
      have hturns : ∀ i ∈ Finset.range (dicts override).items.length,
          ∀ᶠ room in Filter.atTop, ∀ h : Heap K A, Agree x h.dicts dicts →
            mergeItem (deepMerge room) (dicts override).items.length base override h i = .ok h := by
        intro i hi
        obtain ⟨⟨key, value⟩, hitem⟩ : ∃ item, (dicts override).items[i]? = some item :=
          ⟨_, List.getElem?_eq_getElem (Finset.mem_range.mp hi)⟩
        have hget := Object.mem_items.mp (List.mem_of_getElem? hitem)
        by_cases hname : key.isName = true
        · by_cases hboth : ∃ into r, (dicts base).get? key = some (.dict into) ∧ value = .dict r
          · obtain ⟨into, r, hheld, rfl⟩ := hboth
            filter_upwards [ih key into r hget hname hheld (hnew.ne hheld) (hnew.ne hget)]
              with room hroom h hagree
            have hsame := hagree override hoverride
            rw [mergeItem_dict (by rw [hsame]) (by rw [hsame]; exact hitem) hname
              (by rw [hagree base hbase]; exact hheld)]
            exact hroom h hagree
          · refine Filter.Eventually.of_forall fun room h hagree => ?_
            have hsame := hagree override hoverride
            have hnot : ∀ into r, (dicts base).get? key = some (.dict into) → value ≠ .dict r :=
              fun into r hheld hvalue => hboth ⟨into, r, hheld, hvalue⟩
            rw [mergeItem_assign (by rw [hsame]) (by rw [hsame]; exact hitem) hname
              (by rw [hagree base hbase]; exact hnot), assign_self]
            rw [hagree base hbase]
            exact items key value hget hname hnot
        · refine Filter.Eventually.of_forall fun room h hagree => ?_
          have hsame := hagree override hoverride
          exact mergeItem_skip (by rw [hsame]) (by rw [hsame]; exact hitem)
            (Bool.eq_false_of_not_eq_true hname)
      rw [← Filter.eventually_all_finset] at hturns
      obtain ⟨n, hn⟩ := Filter.eventually_atTop.mp hturns
      refine Filter.eventually_atTop.mpr ⟨n + 1, fun room hroom h hagree => ?_⟩
      obtain ⟨room, rfl⟩ := Nat.exists_eq_add_of_le' (Nat.le_trans (Nat.le_add_left 1 n) hroom)
      have hsame := hagree override hoverride
      refine deepMerge_succ.mpr ⟨?_, rfl⟩
      rw [hsame]
      have hturn : ∀ i < (dicts override).items.length, ∀ s, s = h → ∃ s',
          mergeItem (deepMerge room) (dicts override).items.length base override s i = .ok s' ∧
            s' = h := by
        rintro i hi s rfl
        exact ⟨s, hn room (by omega) i (Finset.mem_range.mpr hi) s hagree, rfl⟩
      obtain ⟨s, hrun, rfl⟩ := foldlM_range_ok (P := fun _ s => s = h) hturn rfl
      exact hrun

/-! ## A merge that has changed nothing -/

/-- What a turn over an item asks of the two dictionaries for nothing to change. -/
def AbsorbsItem (dicts : Store K A) (base : Nat) (key : Key K) (value : Value A) : Prop :=
  key.isName = true →
    ((∀ inner r, (dicts base).get? key = some (.dict inner) → value ≠ .dict r) →
      (dicts base).get? key = some value) ∧
    ∀ inner r, value = .dict r → (dicts base).get? key = some (.dict inner) →
      Absorbs dicts inner r

/-- A run that has changed nothing that `base` reaches has changed nothing, and found
everything in `base`. -/
theorem absorbs_of_deepMerge {x room : Nat} (hnew : New inside dicts x) (hbase : base ≠ x)
    (hoverride : override ≠ x) (hagree : Agree x h.dicts dicts)
    (hrun : deepMerge room h base override = .ok h')
    (hkept : ∀ r, Reach dicts inside base r → r ∉ h'.changed) :
    h' = h ∧ Absorbs dicts base override := by
  induction room generalizing base override h' with
  | zero => cases hrun
  | succ room ih =>
      obtain ⟨hloop, _⟩ := deepMerge_succ.mp hrun
      have hsame := hagree override hoverride
      have hturns : ∀ i < (h.dicts override).items.length, ∀ t t',
          (t = h ∧ ∀ j < i, ∀ key value, (dicts override).items[j]? = some (key, value) →
            AbsorbsItem dicts base key value) →
          mergeItem (deepMerge room) (h.dicts override).items.length base override t i = .ok t' →
          t'.changed ⊆ h'.changed →
          t' = h ∧ ∀ j < i + 1, ∀ key value, (dicts override).items[j]? = some (key, value) →
            AbsorbsItem dicts base key value := by
        rintro i hi t t' ⟨rfl, hdone⟩ hturn hle
        obtain ⟨⟨key, value⟩, hitem⟩ : ∃ item, (dicts override).items[i]? = some item :=
          ⟨_, List.getElem?_eq_getElem (by rw [← hsame]; exact hi)⟩
        have hget := Object.mem_items.mp (List.mem_of_getElem? hitem)
        have hthis : t' = t ∧ AbsorbsItem dicts base key value := by
          by_cases hname : key.isName = true
          · by_cases hboth : ∃ into r, (dicts base).get? key = some (.dict into) ∧ value = .dict r
            · obtain ⟨into, r, hheld, rfl⟩ := hboth
              rw [mergeItem_dict rfl (by rw [hsame]; exact hitem) hname
                (by rw [hagree base hbase]; exact hheld)] at hturn
              obtain ⟨rfl, habs⟩ := ih (hnew.ne hheld) (hnew.ne hget) hturn fun s hs hmem =>
                hkept s (Reach.trans (.dict .refl hheld) hs) (hle hmem)
              refine ⟨rfl, fun _ => ⟨fun hnot => absurd rfl (hnot into r hheld), ?_⟩⟩
              intro inner r' hr' hheld'
              rw [hheld] at hheld'
              cases hheld'
              cases hr'
              exact habs
            · have hnot : ∀ into r, (dicts base).get? key = some (.dict into) → value ≠ .dict r :=
                fun into r hheld hvalue => hboth ⟨into, r, hheld, hvalue⟩
              rw [mergeItem_assign rfl (by rw [hsame]; exact hitem) hname
                (by rw [hagree base hbase]; exact hnot)] at hturn
              obtain rfl := Except.ok.inj hturn
              have hthere := get?_of_assign fun hmem => hkept base .refl (hle hmem)
              refine ⟨assign_self hthere, fun _ => ⟨fun _ => ?_, ?_⟩⟩
              · rw [← hagree base hbase]
                exact hthere
              · intro inner r hr hheld
                exact absurd hr (hnot inner r hheld)
          · rw [mergeItem_skip rfl (by rw [hsame]; exact hitem)
              (Bool.eq_false_of_not_eq_true hname)] at hturn
            obtain rfl := Except.ok.inj hturn
            exact ⟨rfl, fun hname' => absurd hname' hname⟩
        refine ⟨hthis.1, fun j hj key' value' hitem' => ?_⟩
        rcases Nat.lt_succ_iff_lt_or_eq.mp hj with hlt | rfl
        · exact hdone j hlt key' value' hitem'
        · rw [hitem] at hitem'
          cases hitem'
          exact hthis.2
      obtain ⟨⟨hend, hitems⟩, _⟩ := foldlM_range_inv
        (R := fun s t : Heap K A => s.changed ⊆ t.changed) (fun _ => List.Subset.refl _)
        (fun _ _ _ => List.Subset.trans)
        (fun s i s' => mergeItem_changed fun _ _ _ _ => deepMerge_changed) hturns
        ⟨rfl, fun j hj => (by cases hj)⟩ hloop
      rw [hsame] at hitems
      refine ⟨hend, .intro ?_ ?_⟩
      · intro key value hget hname hnot
        exact (forall_items.mp hitems key value hget hname).1 hnot
      · intro key inner r hget hname hheld
        exact (forall_items.mp hitems key (.dict r) hget hname).2 inner r rfl hheld

/-! ## The new dictionary -/

/-- Assigning an item of a configuration to the new dictionary. -/
theorem Holds.assign {x c i : Nat} {before : List Nat} {t : Heap K A}
    (hholds : Holds dicts x (heldAfter dicts before c i) t) {key : Key K} {value : Value A}
    (hitem : (dicts c).items[i]? = some (key, value)) (hname : key.isName = true)
    (hkeep : keepHeld (heldAt dicts key before) (some value) = some value) :
    Holds dicts x (heldAfter dicts before c (i + 1)) (t.assign x key value) where
  agree r hr := by
    unfold Heap.assign
    dsimp only
    rw [Function.update_of_ne hr]
    exact hholds.agree r hr
  held key' := by
    unfold Heap.assign
    dsimp only
    rw [Function.update_self, Object.get?_set, hholds.held, heldAfter_succ hitem, hkeep]
    simp only [hname, true_and]
  changed r hr := by
    unfold Heap.assign at hr
    dsimp only at hr
    split at hr
    · exact hholds.changed r hr
    · rcases List.mem_cons.mp hr with rfl | hr
      · rfl
      · exact hholds.changed r hr

/-- A turn over an item of a configuration: it assigns to the new dictionary, or merges
one that is held. -/
theorem topTurn {x room c i : Nat} {before : List Nat} (hc : c ≠ x)
    {t : Heap K A} (hholds : Holds dicts x (heldAfter dicts before c i) t)
    {key : Key K} {value : Value A} (hitem : (dicts c).items[i]? = some (key, value)) :
    (∃ t', mergeItem (deepMerge room) (dicts c).items.length x c t i = .ok t' ∧
        Holds dicts x (heldAfter dicts before c (i + 1)) t' ∧
        ∀ inner r, key.isName = true → heldAt dicts key before = some (.dict inner) →
          value ≠ .dict r) ∨
      ∃ inner r, key.isName = true ∧ heldAt dicts key before = some (.dict inner) ∧
        value = .dict r ∧
        mergeItem (deepMerge room) (dicts c).items.length x c t i = deepMerge room t inner r ∧
        Holds dicts x (heldAfter dicts before c (i + 1)) t := by
  have hsame := hholds.agree c hc
  by_cases hname : key.isName = true
  · have hnew : (t.dicts x).get? key = heldAt dicts key before := by
      rw [hholds.held, heldAfter_new hitem hname]
    by_cases hboth : ∃ inner r, heldAt dicts key before = some (.dict inner) ∧ value = .dict r
    · obtain ⟨inner, r, hheld, rfl⟩ := hboth
      refine .inr ⟨inner, r, hname, hheld, rfl, ?_, hholds.stay hitem fun _ => ?_⟩
      · exact mergeItem_dict (by rw [hsame]) (by rw [hsame]; exact hitem) hname
          (by rw [hnew, hheld])
      · rw [hheld]
        rfl
    · have hnot : ∀ inner r, heldAt dicts key before = some (.dict inner) → value ≠ .dict r :=
        fun inner r hheld hvalue => hboth ⟨inner, r, hheld, hvalue⟩
      refine .inl ⟨_, ?_, hholds.assign hitem hname (keepHeld_some hnot), fun inner r _ => hnot inner r⟩
      exact mergeItem_assign (by rw [hsame]) (by rw [hsame]; exact hitem) hname
        (by rw [hnew]; exact hnot)
  · refine .inl ⟨t, ?_, hholds.stay hitem fun h => absurd h hname, fun _ _ h => absurd h hname⟩
    exact mergeItem_skip (by rw [hsame]) (by rw [hsame]; exact hitem)
      (Bool.eq_false_of_not_eq_true hname)

/-- A configuration whose dictionaries are absorbed is merged into the new one. -/
theorem deepMerge_top {x c : Nat} {before : List Nat} (hnew : New inside dicts x) (hc : c ≠ x)
    (hquiet : QuietAt dicts before c) :
    ∀ᶠ room in Filter.atTop, ∀ h : Heap K A, Holds dicts x (heldNames dicts before) h →
      ∃ h', deepMerge room h x c = .ok h' ∧ Holds dicts x (heldNames dicts (before ++ [c])) h' := by
  have hinner : ∀ i ∈ Finset.range (dicts c).items.length, ∀ᶠ room in Filter.atTop,
      ∀ t : Heap K A, Holds dicts x (heldAfter dicts before c i) t →
        ∃ t', mergeItem (deepMerge room) (dicts c).items.length x c t i = .ok t' ∧
          Holds dicts x (heldAfter dicts before c (i + 1)) t' := by
    intro i hi
    obtain ⟨⟨key, value⟩, hitem⟩ : ∃ item, (dicts c).items[i]? = some item :=
      ⟨_, List.getElem?_eq_getElem (Finset.mem_range.mp hi)⟩
    have hget := Object.mem_items.mp (List.mem_of_getElem? hitem)
    by_cases hboth : ∃ inner r, key.isName = true ∧
        heldAt dicts key before = some (.dict inner) ∧ value = .dict r
    · obtain ⟨inner, r, hname, hheld, rfl⟩ := hboth
      obtain ⟨c', _, hget'⟩ := heldAt_mem hheld
      filter_upwards [deepMerge_absorbed hnew (hquiet key inner r hname hheld hget)
        (hnew.ne hget') (hnew.ne hget)] with room hroom t hholds
      rcases topTurn hc hholds hitem with ⟨_, _, _, hnot⟩ | hmerge
      · exact absurd rfl (hnot inner r hname hheld)
      · obtain ⟨inner', r', _, hheld', hr', hturn, hstay⟩ := hmerge
        rw [hheld] at hheld'
        cases hheld'
        cases hr'
        exact ⟨t, hturn.trans (hroom t hholds.agree), hstay⟩
    · refine Filter.Eventually.of_forall fun room t hholds => ?_
      rcases topTurn hc hholds hitem with ⟨t', hturn, hnext, _⟩ | hmerge
      · exact ⟨t', hturn, hnext⟩
      · obtain ⟨inner, r, hname, hheld, hvalue, _⟩ := hmerge
        exact absurd ⟨inner, r, hname, hheld, hvalue⟩ hboth
  rw [← Filter.eventually_all_finset] at hinner
  obtain ⟨n, hn⟩ := Filter.eventually_atTop.mp hinner
  refine Filter.eventually_atTop.mpr ⟨n + 1, fun room hroom h hholds => ?_⟩
  obtain ⟨room, rfl⟩ := Nat.exists_eq_add_of_le' (Nat.le_trans (Nat.le_add_left 1 n) hroom)
  rw [← heldAfter_zero before c] at hholds
  obtain ⟨h', hrun, hend⟩ := foldlM_range_ok
    (fun i hi t ht => hn room (by omega) i (Finset.mem_range.mpr hi) t ht) hholds
  rw [heldAfter_length] at hend
  refine ⟨h', deepMerge_succ.mpr ⟨?_, ?_⟩, hend⟩
  · rw [hholds.agree c hc]
    exact hrun
  · rw [hholds.agree c hc, hend.agree c hc]

/-- A run that has changed no dictionary that is held absorbed what it merged. -/
theorem quietAt_of_deepMerge {x c room : Nat} {before : List Nat} (hnew : New inside dicts x)
    (hc : c ≠ x) (hholds : Holds dicts x (heldNames dicts before) h)
    (hrun : deepMerge room h x c = .ok h')
    (hkept : ∀ key inner r, heldAt dicts key before = some (.dict inner) →
      Reach dicts inside inner r → r ∉ h'.changed) :
    Holds dicts x (heldNames dicts (before ++ [c])) h' ∧ QuietAt dicts before c := by
  cases room with
  | zero => cases hrun
  | succ room =>
      obtain ⟨hloop, _⟩ := deepMerge_succ.mp hrun
      rw [hholds.agree c hc] at hloop
      have hturns : ∀ i < (dicts c).items.length, ∀ t t',
          (Holds dicts x (heldAfter dicts before c i) t ∧ ∀ j < i, ∀ key value,
            (dicts c).items[j]? = some (key, value) → ∀ inner r, key.isName = true →
              heldAt dicts key before = some (.dict inner) → value = .dict r →
                Absorbs dicts inner r) →
          mergeItem (deepMerge room) (dicts c).items.length x c t i = .ok t' →
          t'.changed ⊆ h'.changed →
          Holds dicts x (heldAfter dicts before c (i + 1)) t' ∧ ∀ j < i + 1, ∀ key value,
            (dicts c).items[j]? = some (key, value) → ∀ inner r, key.isName = true →
              heldAt dicts key before = some (.dict inner) → value = .dict r →
                Absorbs dicts inner r := by
        rintro i hi t t' ⟨ht, hdone⟩ hturn hle
        obtain ⟨⟨key, value⟩, hitem⟩ : ∃ item, (dicts c).items[i]? = some item :=
          ⟨_, List.getElem?_eq_getElem hi⟩
        have hget := Object.mem_items.mp (List.mem_of_getElem? hitem)
        have hthis : Holds dicts x (heldAfter dicts before c (i + 1)) t' ∧
            ∀ inner r, key.isName = true → heldAt dicts key before = some (.dict inner) →
              value = .dict r → Absorbs dicts inner r := by
          rcases topTurn hc ht hitem with ⟨s, hstep, hnext, hnot⟩ | hmerge
          · rw [hstep] at hturn
            obtain rfl := Except.ok.inj hturn
            exact ⟨hnext, fun inner r hname hheld hvalue =>
              absurd hvalue (hnot inner r hname hheld)⟩
          · obtain ⟨inner, r, hname, hheld, rfl, hstep, hstay⟩ := hmerge
            obtain ⟨c', _, hget'⟩ := heldAt_mem hheld
            rw [hstep] at hturn
            obtain ⟨rfl, habs⟩ := absorbs_of_deepMerge hnew (hnew.ne hget') (hnew.ne hget)
              ht.agree hturn fun s hs hmem => hkept key inner s hheld hs (hle hmem)
            refine ⟨hstay, fun inner' r' _ hheld' hvalue => ?_⟩
            rw [hheld] at hheld'
            cases hheld'
            cases hvalue
            exact habs
        refine ⟨hthis.1, fun j hj key' value' hitem' => ?_⟩
        rcases Nat.lt_succ_iff_lt_or_eq.mp hj with hlt | rfl
        · exact hdone j hlt key' value' hitem'
        · rw [hitem] at hitem'
          cases hitem'
          exact hthis.2
      rw [← heldAfter_zero before c] at hholds
      obtain ⟨⟨hend, hitems⟩, _⟩ := foldlM_range_inv
        (R := fun s t : Heap K A => s.changed ⊆ t.changed) (fun _ => List.Subset.refl _)
        (fun _ _ _ => List.Subset.trans)
        (fun s i s' => mergeItem_changed fun _ _ _ _ => deepMerge_changed) hturns
        ⟨hholds, fun j hj => (by cases hj)⟩ hloop
      rw [heldAfter_length] at hend
      refine ⟨hend, fun key inner r hname hheld hget => ?_⟩
      exact forall_items.mp hitems key (.dict r) hget inner r hname hheld rfl

/-! ## All configurations -/

theorem mergeAll_ok {x : Nat} (hnew : New inside dicts x) {configs : List (Option Nat)}
    (hx : some x ∉ configs) {before : List Nat}
    (hquiet : ∀ b c a, configs.reduceOption = b ++ c :: a → QuietAt dicts (before ++ b) c) :
    ∀ᶠ room in Filter.atTop, ∀ h : Heap K A, Holds dicts x (heldNames dicts before) h →
      ∃ h', mergeAll room x configs h = .ok h' ∧
        Holds dicts x (heldNames dicts (before ++ configs.reduceOption)) h' := by
  induction configs generalizing before with
  | nil =>
      refine Filter.Eventually.of_forall fun room h hholds => ⟨h, rfl, ?_⟩
      rw [List.reduceOption_nil, List.append_nil]
      exact hholds
  | cons config configs ih =>
      rw [List.mem_cons, not_or] at hx
      cases config with
      | none =>
          rw [List.reduceOption_cons_of_none] at hquiet ⊢
          exact ih hx.2 hquiet
      | some c =>
          have hc : c ≠ x := fun h => hx.1 (by rw [h])
          rw [List.reduceOption_cons_of_some] at hquiet ⊢
          have hfirst := hquiet [] c _ rfl
          rw [List.append_nil] at hfirst
          have hquiet' : ∀ b c' a, configs.reduceOption = b ++ c' :: a →
              QuietAt dicts (before ++ [c] ++ b) c' := by
            intro b c' a hsplit
            rw [List.append_assoc]
            exact hquiet (c :: b) c' a (by rw [hsplit, List.cons_append])
          have hrest := ih hx.2 hquiet'
          filter_upwards [deepMerge_top hnew hc hfirst, hrest] with room htop hrest h hholds
          rw [List.append_cons]
          by_cases hempty : (dicts c).items.isEmpty = true
          · obtain ⟨h', hrun, hend⟩ := hrest h (by rw [heldNames_isEmpty hempty]; exact hholds)
            refine ⟨h', ?_, hend⟩
            rw [mergeAll, mergeConfig, hholds.agree c hc, if_pos hempty]
            exact hrun
          · obtain ⟨t, hstep, ht⟩ := htop h hholds
            obtain ⟨h', hrun, hend⟩ := hrest t ht
            refine ⟨h', ?_, hend⟩
            rw [mergeAll, mergeConfig, hholds.agree c hc, if_neg hempty, hstep]
            exact hrun

theorem mergeAll_changed {x room : Nat} {configs : List (Option Nat)}
    (hrun : mergeAll room x configs h = .ok h') : h.changed ⊆ h'.changed := by
  induction configs generalizing h with
  | nil =>
      obtain rfl := Except.ok.inj hrun
      exact List.Subset.refl _
  | cons config configs ih =>
      cases config with
      | none => exact ih hrun
      | some c =>
          rw [mergeAll, except_bind_ok, mergeConfig] at hrun
          obtain ⟨t, hstep, hrest⟩ := hrun
          refine List.Subset.trans ?_ (ih hrest)
          split at hstep
          · obtain rfl := Except.ok.inj hstep
            exact List.Subset.refl _
          · exact deepMerge_changed hstep

theorem quiet_of_mergeAll {x room : Nat} (hnew : New inside dicts x)
    {configs : List (Option Nat)} (hx : some x ∉ configs) {before : List Nat}
    (hholds : Holds dicts x (heldNames dicts before) h)
    (hrun : mergeAll room x configs h = .ok h')
    (hkept : ∀ c ∈ before ++ configs.reduceOption, ∀ r, Reach dicts inside c r → r ∉ h'.changed) :
    ∀ b c a, configs.reduceOption = b ++ c :: a → QuietAt dicts (before ++ b) c := by
  induction configs generalizing before h with
  | nil =>
      intro b c a hsplit
      rw [List.reduceOption_nil] at hsplit
      simp at hsplit
  | cons config configs ih =>
      rw [List.mem_cons, not_or] at hx
      cases config with
      | none =>
          rw [List.reduceOption_cons_of_none] at hkept ⊢
          exact ih hx.2 hholds hrun hkept
      | some c =>
          have hc : c ≠ x := fun h => hx.1 (by rw [h])
          rw [List.reduceOption_cons_of_some] at hkept ⊢
          rw [mergeAll, except_bind_ok, mergeConfig, hholds.agree c hc] at hrun
          obtain ⟨t, hstep, hrest⟩ := hrun
          have hthis : Holds dicts x (heldNames dicts (before ++ [c])) t ∧
              QuietAt dicts before c := by
            split at hstep
            · next hempty =>
              obtain rfl := Except.ok.inj hstep
              rw [heldNames_isEmpty hempty]
              refine ⟨hholds, fun key inner r _ _ hget => ?_⟩
              rw [get?_of_isEmpty hempty] at hget
              cases hget
            · refine quietAt_of_deepMerge hnew hc hholds hstep fun key inner r hheld hr hmem => ?_
              obtain ⟨c', hc', hget⟩ := heldAt_mem hheld
              exact hkept c' (List.mem_append_left _ hc') r (Reach.trans (.dict .refl hget) hr)
                (mergeAll_changed hrest hmem)
          have hlater := ih hx.2 hthis.1 hrest (by rw [← List.append_cons]; exact hkept)
          intro b c' a hsplit
          cases b with
          | nil =>
              rw [List.nil_append, List.cons.injEq] at hsplit
              rw [List.append_nil, ← hsplit.1]
              exact hthis.2
          | cons first b =>
              rw [List.cons_append, List.cons.injEq] at hsplit
              rw [← hsplit.1, List.append_cons]
              exact hlater b c' a hsplit.2

/-! ## Merges after the merge -/

/-- The outcomes of two runs, of which one has another object `x` lying about. -/
inductive SameBut (x : Nat) :
    Except MergeError (Heap K A) → Except MergeError (Heap K A) → Prop
  | error (e : MergeError) : SameBut x (.error e) (.error e)
  | ok {h k : Heap K A} (agree : Agree x h.dicts k.dicts) (unread : Unread x k.dicts) :
      SameBut x (.ok h) (.ok k)

omit [DecidableEq A] in
theorem SameBut.bind {x : Nat} {r s : Except MergeError (Heap K A)}
    {f g : Heap K A → Except MergeError (Heap K A)} (hrs : SameBut x r s)
    (hfg : ∀ h k, Agree x h.dicts k.dicts → Unread x k.dicts → SameBut x (f h) (g k)) :
    SameBut x (r >>= f) (s >>= g) := by
  cases hrs with
  | error e => exact .error e
  | ok hagree hunread => exact hfg _ _ hagree hunread

omit [DecidableEq A] in
theorem SameBut.foldlM {x : Nat} {f g : Heap K A → Nat → Except MergeError (Heap K A)}
    (hfg : ∀ i h k, Agree x h.dicts k.dicts → Unread x k.dicts → SameBut x (f h i) (g k i))
    (l : List Nat) {k : Heap K A} (hagree : Agree x h.dicts k.dicts) (hunread : Unread x k.dicts) :
    SameBut x (l.foldlM f h) (l.foldlM g k) := by
  induction l generalizing h k with
  | nil => exact .ok hagree hunread
  | cons i l ih =>
      rw [List.foldlM_cons, List.foldlM_cons]
      exact (hfg i h k hagree hunread).bind fun h k hagree hunread => ih hagree hunread

theorem SameBut.assign {x : Nat} {k : Heap K A} (hagree : Agree x h.dicts k.dicts)
    (hunread : Unread x k.dicts) (hbase : base ≠ x) {key : Key K} {value : Value A}
    (hvalue : value ≠ .dict x) :
    SameBut x (.ok (h.assign base key value)) (.ok (k.assign base key value)) := by
  refine .ok (fun r hr => ?_) fun r hr key' hget => ?_
  · unfold Heap.assign
    dsimp only
    by_cases hrb : r = base
    · rw [hrb, Function.update_self, Function.update_self, hagree base hbase]
    · rw [Function.update_of_ne hrb, Function.update_of_ne hrb, hagree r hr]
  · unfold Heap.assign at hget
    dsimp only at hget
    by_cases hrb : r = base
    · rw [hrb, Function.update_self, Object.get?_set] at hget
      split at hget
      · exact hvalue (Option.some.inj hget)
      · exact hunread base hbase key' hget
    · rw [Function.update_of_ne hrb] at hget
      exact hunread r hr key' hget

/-- What a merge does depends on no object it does not read. -/
theorem deepMerge_sameBut {x room : Nat} {k : Heap K A} (hagree : Agree x h.dicts k.dicts)
    (hunread : Unread x k.dicts) (hbase : base ≠ x) (hoverride : override ≠ x) :
    SameBut x (deepMerge room h base override) (deepMerge room k base override) := by
  induction room generalizing h k base override with
  | zero => exact .error _
  | succ room ih =>
      have hturn (size i : Nat) (h k : Heap K A) (hagree : Agree x h.dicts k.dicts)
          (hunread : Unread x k.dicts) :
          SameBut x (mergeItem (deepMerge room) size base override h i)
            (mergeItem (deepMerge room) size base override k i) := by
        unfold mergeItem
        rw [hagree override hoverride, hagree base hbase]
        dsimp only
        split
        · exact .error _
        · split
          · exact .ok hagree hunread
          · next key value hitem =>
            have hget := Object.mem_items.mp (List.mem_of_getElem? hitem)
            have hvalue : value ≠ .dict x := by
              rintro rfl
              exact hunread override hoverride key hget
            split
            · exact .ok hagree hunread
            · split
              · next inner r hheld =>
                refine ih hagree hunread ?_ ?_
                · rintro rfl
                  exact hunread base hbase key hheld
                · rintro rfl
                  exact hvalue rfl
              · exact SameBut.assign hagree hunread hbase hvalue
      rw [deepMerge, deepMerge, hagree override hoverride]
      refine (SameBut.foldlM (hturn _) _ hagree hunread).bind fun h k hagree hunread => ?_
      rw [hagree override hoverride]
      split
      · exact .error _
      · exact .ok hagree hunread

theorem mergeAll_sameBut {x room result : Nat} (hresult : result ≠ x) {configs : List (Option Nat)}
    (hx : some x ∉ configs) {k : Heap K A} (hagree : Agree x h.dicts k.dicts)
    (hunread : Unread x k.dicts) :
    SameBut x (mergeAll room result configs h) (mergeAll room result configs k) := by
  induction configs generalizing h k with
  | nil => exact .ok hagree hunread
  | cons config configs ih =>
      rw [List.mem_cons, not_or] at hx
      rw [mergeAll, mergeAll]
      refine SameBut.bind ?_ fun h k hagree hunread => ih hx.2 hagree hunread
      cases config with
      | none => exact .ok hagree hunread
      | some c =>
          have hc : c ≠ x := fun h => hx.1 (by rw [h])
          unfold mergeConfig
          dsimp only
          rw [hagree c hc]
          split
          · exact .ok hagree hunread
          · exact deepMerge_sameBut hagree hunread hresult hc

/-- What `merge_configs` returns, as its caller sees it. -/
def mergedView (room result : Nat) (configs : List (Option Nat)) (dicts : Store K A) :
    Except MergeError (View K A) :=
  (mergeConfigs room result configs dicts).map fun h => view h.dicts (.dict result)

theorem mergedView_agree {x room result : Nat} (hresult : result ≠ x)
    {configs : List (Option Nat)} (hx : some x ∉ configs) {d : Store K A} (hagree : Agree x d dicts)
    (hunread : Unread x dicts) :
    mergedView room result configs d = mergedView room result configs dicts := by
  have hstart : SameBut x (mergeConfigs room result configs d)
      (mergeConfigs room result configs dicts) := by
    refine mergeAll_sameBut hresult hx (fun r hr => ?_) fun r hr key hget => ?_
    · dsimp only
      by_cases hr' : r = result
      · rw [hr', Function.update_self, Function.update_self]
      · rw [Function.update_of_ne hr', Function.update_of_ne hr', hagree r hr]
    · dsimp only at hget
      by_cases hr' : r = result
      · rw [hr', Function.update_self] at hget
        cases hget
      · rw [Function.update_of_ne hr'] at hget
        exact hunread r hr key hget
  unfold mergedView
  generalize mergeConfigs room result configs d = left at hstart
  generalize mergeConfigs room result configs dicts = right at hstart
  cases hstart with
  | error e => rfl
  | ok hagree hunread =>
      refine congrArg Except.ok ?_
      funext path
      exact view_agree hagree hunread (fun h => hresult (Value.dict.inj h)) path

/-! ## Leaving the configurations alone -/

/-- With stack enough the merge comes to the left fold, has at no moment changed an
object its arguments reach, and whatever is merged after it comes to what it would
have come to before. -/
structure LeavesAlone (inside : A → List Nat) (dicts : Store K A) (configs : List (Option Nat))
    (result : Nat) : Prop where
  merges : ∃ n, ∀ room, n ≤ room → ∃ h, mergeConfigs room result configs dicts = .ok h ∧
    (∀ c, some c ∈ configs → ∀ r, Reach dicts inside c r → r ∉ h.changed) ∧
    view h.dicts (.dict result) = foldedView dicts configs ∧
    ∀ room' result' later, result' ≠ result → some result ∉ later →
      mergedView room' result' later h.dicts = mergedView room' result' later dicts

/-- A new object that is none of the configurations. -/
structure NewResult (inside : A → List Nat) (dicts : Store K A) (configs : List (Option Nat))
    (result : Nat) : Prop where
  unread : New inside dicts result
  other : some result ∉ configs

omit [DecidableEq A] in
theorem mergeConfigs_start {x : Nat} :
    Holds dicts x (heldNames dicts []) { dicts := Function.update dicts x .empty } where
  agree r hr := Function.update_of_ne hr _ _
  held key := by
    dsimp only
    rw [Function.update_self]
    unfold heldNames heldAt
    simp [Object.empty, Object.get?]
  changed r hr := by cases hr

/-- A merge that leaves its configurations alone finds everything there already. -/
theorem LeavesAlone.quiet {configs : List (Option Nat)} {result : Nat}
    (hresult : NewResult inside dicts configs result)
    (h : LeavesAlone inside dicts configs result) : Quiet dicts configs.reduceOption := by
  obtain ⟨n, hn⟩ := h.merges
  obtain ⟨h, hrun, hkept, _⟩ := hn n le_rfl
  intro before c after hsplit
  exact quiet_of_mergeAll hresult.unread hresult.other mergeConfigs_start hrun
    (fun c hc r hr => hkept c (List.reduceOption_mem_iff.mp hc) r hr) before c after hsplit

/-- A merge leaves its configurations alone just where every dictionary that is merged
into one of an earlier configuration is absorbed by it. -/
theorem leavesAlone_iff (inside : A → List Nat) (dicts : Store K A)
    (configs : List (Option Nat)) (result : Nat) (hresult : NewResult inside dicts configs result) :
    LeavesAlone inside dicts configs result ↔ Quiet dicts configs.reduceOption := by
  refine ⟨fun h => h.quiet hresult, fun hquiet => ?_⟩
  obtain ⟨hnew, hother⟩ := hresult
  have hquiet' : ∀ b c a, configs.reduceOption = b ++ c :: a → QuietAt dicts ([] ++ b) c :=
    fun b c a hsplit => hquiet b c a hsplit
  obtain ⟨n, hn⟩ := Filter.eventually_atTop.mp (mergeAll_ok hnew hother hquiet')
  refine ⟨n, fun room hroom => ?_⟩
  obtain ⟨h, hrun, hend⟩ := hn room hroom _ mergeConfigs_start
  rw [List.nil_append] at hend
  refine ⟨h, hrun, fun c hc r hr hmem => ?_, ?_, fun room' result' later hne hlater => ?_⟩
  · have hcx : c ≠ result := by
      rintro rfl
      exact hother hc
    exact Reach.ne hnew hcx hr (hend.changed r hmem)
  · obtain ⟨hroot, hfold⟩ := folded_view hquiet
    funext path
    cases path with
    | nil => exact hroot.symm
    | cons key path =>
        unfold foldedView
        rw [hfold, view, hend.held]
        cases hheld : heldNames dicts configs.reduceOption key with
        | none => rfl
        | some value =>
            refine view_agree hend.agree hnew.unread (fun hvalue => ?_) path
            unfold heldNames at hheld
            split at hheld
            · obtain ⟨c, _, hget⟩ := heldAt_mem hheld
              exact hnew.dict c key (by rw [hget, hvalue])
            · cases hheld
  · exact mergedView_agree hne hlater hend.agree hnew.unread

/-- A default, two overrides of it, and a setting of another name. -/
def settings : Store Empty Nat
  | 0 => ⟨[(.text "db", .dict 1)], by decide⟩
  | 1 => ⟨[(.text "host", .atom 0)], by decide⟩
  | 2 => ⟨[(.text "db", .dict 3)], by decide⟩
  | 3 => ⟨[(.text "port", .atom 5433)], by decide⟩
  | 4 => ⟨[(.text "debug", .atom 1)], by decide⟩
  | _ => .empty

theorem settings_newResult {configs : List (Option Nat)} (h : some 5 ∉ configs) :
    NewResult (fun _ => []) settings configs 5 where
  unread :=
    { dict := fun r key hget => by
        have hmem := Object.mem_items.mpr hget
        match r with
        | 0 => simp [settings] at hmem
        | 1 => simp [settings] at hmem
        | 2 => simp [settings] at hmem
        | 3 => simp [settings] at hmem
        | 4 => simp [settings] at hmem
        | r + 5 => simp [settings, Object.empty] at hmem
      atom := fun _ _ _ _ h => (by cases h) }
  other := h

/-- The port of the override ends up in the default. -/
theorem settings_merged :
    NewResult (fun _ => []) settings [some 0, some 2] 5 ∧
      ¬LeavesAlone (fun _ => []) settings [some 0, some 2] 5 := by
  have hnew : NewResult (fun _ => []) settings [some 0, some 2] 5 :=
    settings_newResult (by decide)
  refine ⟨hnew, fun h => ?_⟩
  have habs := h.quiet hnew [0] 2 [] rfl (.text "db") 1 3 (by decide) (by decide) (by decide)
  cases habs with
  | intro items _ =>
      have hport := items (.text "port") (.atom 5433) (by decide) (by decide)
        (fun inner r hget => by cases hget)
      exact absurd hport (by decide)

/-- A setting of another name leaves the default alone. -/
theorem leavesAlone_settings : LeavesAlone (fun _ => []) settings [some 0, none, some 4] 5 := by
  refine (leavesAlone_iff _ settings _ 5 (settings_newResult (by decide))).mpr ?_
  intro before c after hsplit key inner r _ hheld hget
  have hc : c = 0 ∧ before = [] ∨ c = 4 := by
    have hlist : [0, 4] = before ++ c :: after := hsplit
    cases before with
    | nil => exact .inl ⟨(List.cons.inj hlist).1.symm, rfl⟩
    | cons b before =>
        have htail := (List.cons.inj hlist).2
        cases before with
        | nil => exact .inr (List.cons.inj htail).1.symm
        | cons b' before => simp at htail
  rcases hc with ⟨rfl, rfl⟩ | rfl
  · cases hheld
  · have hmem := Object.mem_items.mpr hget
    simp [settings] at hmem

end Hephaestus.Config
