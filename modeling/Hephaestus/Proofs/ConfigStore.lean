import Mathlib.Data.List.ReduceOption
import Hephaestus.Config.Merge

/-!
# The dictionaries of a merge

What a merge finds nothing to do in (`Absorbs`), what configurations hold under a key
when nothing is merged in place (`heldAt`), and the views of both: a dictionary that
absorbs another has the view of the two merged, and what is held under each name has
the view of the left fold.
-/

namespace Hephaestus.Config

open Hephaestus.Lib

variable {K A : Type}

/-! ## The merge of views -/

section Merge

variable {x y : View K A} {key : Key K} {path : List (Key K)}

theorem View.merge_skip (h : key.isName = false ∨ y [key] = none) :
    View.merge x y (key :: path) = x (key :: path) := by
  rw [View.merge, if_pos h]

theorem View.merge_dict (hname : key.isName = true) (hx : x [key] = some .dict)
    (hy : y [key] = some .dict) :
    View.merge x y (key :: path) = View.merge (fun p => x (key :: p)) (fun p => y (key :: p)) path := by
  rw [View.merge, if_neg (by rw [hname, hy]; simp), hx, hy]

theorem View.merge_set (hname : key.isName = true) (hy : y [key] ≠ none)
    (hnot : ¬(x [key] = some .dict ∧ y [key] = some .dict)) :
    View.merge x y (key :: path) = y (key :: path) := by
  rw [View.merge, if_neg (by rw [hname]; simp [hy])]
  split
  · next hx hy' => exact absurd ⟨hx, hy'⟩ hnot
  · rfl

end Merge

variable [DecidableEq K]

/-- The dictionary `base` has every item of `override` that a merge would put there. -/
inductive Absorbs (dicts : Store K A) : Nat → Nat → Prop
  | intro {base override : Nat}
      (items : ∀ key value, (dicts override).get? key = some value → key.isName = true →
        (∀ inner r, (dicts base).get? key = some (.dict inner) → value ≠ .dict r) →
          (dicts base).get? key = some value)
      (inner : ∀ key inner r, (dicts override).get? key = some (.dict r) → key.isName = true →
        (dicts base).get? key = some (.dict inner) → Absorbs dicts inner r) :
      Absorbs dicts base override

/-- A dictionary stays where a later configuration has another one under its key. -/
def keepHeld : Option (Value A) → Option (Value A) → Option (Value A)
  | held, none => held
  | some (.dict r), some (.dict _) => some (.dict r)
  | _, some value => some value

/-- What configurations leave under a key when no dictionary is merged into another. -/
def heldAt (dicts : Store K A) (key : Key K) (configs : List Nat) : Option (Value A) :=
  configs.foldl (fun held c => keepHeld held ((dicts c).get? key)) none

/-- A configuration of which every dictionary under a key that holds one already is
absorbed by that one. -/
def QuietAt (dicts : Store K A) (before : List Nat) (c : Nat) : Prop :=
  ∀ key inner r, key.isName = true → heldAt dicts key before = some (.dict inner) →
    (dicts c).get? key = some (.dict r) → Absorbs dicts inner r

/-- Every dictionary that is merged into one of an earlier configuration is absorbed
by it. -/
def Quiet (dicts : Store K A) (configs : List Nat) : Prop :=
  ∀ before c after, configs = before ++ c :: after → QuietAt dicts before c

/-- The dictionaries that can be reached; `inside` are those in a list or another atom. -/
inductive Reach (dicts : Store K A) (inside : A → List Nat) (start : Nat) : Nat → Prop
  | refl : Reach dicts inside start start
  | dict {r s : Nat} {key : Key K} (h : Reach dicts inside start r)
      (hget : (dicts r).get? key = some (.dict s)) : Reach dicts inside start s
  | atom {r s : Nat} {key : Key K} {a : A} (h : Reach dicts inside start r)
      (hget : (dicts r).get? key = some (.atom a)) (hs : s ∈ inside a) :
      Reach dicts inside start s

/-! ## Single steps -/

theorem Object.get?_set (d : Object K A) (key key' : Key K) (value : Value A) :
    (d.set key value).get? key' = if key = key' then some value else d.get? key' :=
  Dict.get?_set d.items key key' value

theorem Object.mem_items {d : Object K A} {key : Key K} {value : Value A} :
    (key, value) ∈ d.items ↔ d.get? key = some value :=
  ⟨Dict.get?_of_mem d.nodup, Dict.mem_of_get?⟩

variable {dicts : Store K A} {inside : A → List Nat} {base override r s : Nat}

/-- The stores are the same but for one object. -/
def Agree (x : Nat) (d e : Store K A) : Prop := ∀ r, r ≠ x → d r = e r

/-- No dictionary refers to the object, by itself or in an atom. -/
structure New (inside : A → List Nat) (dicts : Store K A) (x : Nat) : Prop where
  dict : ∀ r key, (dicts r).get? key ≠ some (.dict x)
  atom : ∀ r key a, (dicts r).get? key = some (.atom a) → x ∉ inside a

theorem New.ne {x : Nat} (hnew : New inside dicts x) {key : Key K}
    (hget : (dicts r).get? key = some (.dict s)) : s ≠ x := by
  rintro rfl
  exact hnew.dict r key hget

theorem Reach.ne {x : Nat} (hnew : New inside dicts x) (hstart : base ≠ x)
    (hreach : Reach dicts inside base r) : r ≠ x := by
  cases hreach with
  | refl => exact hstart
  | dict _ hget => exact hnew.ne hget
  | atom _ hget hs =>
      rintro rfl
      exact hnew.atom _ _ _ hget hs

theorem Reach.trans {t : Nat} (hst : Reach dicts inside r s) (h : Reach dicts inside s t) :
    Reach dicts inside r t := by
  induction h with
  | refl => exact hst
  | dict _ hget ih => exact .dict ih hget
  | atom _ hget hs ih => exact .atom ih hget hs

/-- The items of a dictionary, one by one. -/
theorem forall_items {d : Object K A} {P : Key K → Value A → Prop} :
    (∀ i < d.items.length, ∀ key value, d.items[i]? = some (key, value) → P key value) ↔
      ∀ key value, d.get? key = some value → P key value := by
  constructor
  · intro hitems key value hget
    obtain ⟨i, hi, hitem⟩ := List.getElem_of_mem (Object.mem_items.mpr hget)
    exact hitems i hi key value (by rw [List.getElem?_eq_getElem hi, hitem])
  · intro hget i hi key value hitem
    exact hget key value (Object.mem_items.mp (List.mem_of_getElem? hitem))

/-- The store as it was, but for the new dictionary `x` with what the configurations
so far have left in it. -/
structure Holds (dicts : Store K A) (x : Nat) (held : Key K → Option (Value A)) (h : Heap K A) :
    Prop where
  agree : Agree x h.dicts dicts
  held : ∀ key, (h.dicts x).get? key = held key
  changed : ∀ r ∈ h.changed, r = x

/-- What is held under each name. -/
def heldNames (dicts : Store K A) (before : List Nat) (key : Key K) : Option (Value A) :=
  if key.isName = true then heldAt dicts key before else none

/-- What is held after the first items of a configuration. -/
def heldAfter (dicts : Store K A) (before : List Nat) (c i : Nat) (key : Key K) :
    Option (Value A) :=
  if key.isName = true ∧ key ∈ ((dicts c).items.take i).map Prod.fst then
    keepHeld (heldAt dicts key before) ((dicts c).get? key)
  else heldNames dicts before key

theorem heldAfter_zero (before : List Nat) (c : Nat) :
    heldAfter dicts before c 0 = heldNames dicts before := by
  funext key
  simp [heldAfter]

theorem heldAfter_length (before : List Nat) (c : Nat) :
    heldAfter dicts before c (dicts c).items.length = heldNames dicts (before ++ [c]) := by
  funext key
  unfold heldAfter heldNames heldAt
  rw [List.take_length, List.foldl_append, List.foldl_cons, List.foldl_nil]
  by_cases hname : key.isName = true
  · by_cases hmem : key ∈ (dicts c).items.map Prod.fst
    · simp [hname, hmem]
    · have hnone : (dicts c).get? key = none := by
        rw [Option.eq_none_iff_forall_ne_some]
        intro value hvalue
        exact hmem (List.mem_map.mpr ⟨(key, value), Object.mem_items.mpr hvalue, rfl⟩)
      simp [hname, hmem, hnone, keepHeld]
  · simp [hname]

/-- The next item of a configuration, under its key. -/
theorem heldAfter_succ {before : List Nat} {c i : Nat} {key : Key K} {value : Value A}
    (hitem : (dicts c).items[i]? = some (key, value)) (key' : Key K) :
    heldAfter dicts before c (i + 1) key' =
      if key.isName = true ∧ key = key' then keepHeld (heldAt dicts key before) (some value)
      else heldAfter dicts before c i key' := by
  have hget := Object.mem_items.mp (List.mem_of_getElem? hitem)
  have htake : (dicts c).items.take (i + 1) = (dicts c).items.take i ++ [(key, value)] := by
    rw [List.take_add_one, hitem]
    rfl
  unfold heldAfter
  simp only [htake, List.map_append, List.mem_append, List.map_cons, List.map_nil,
    List.mem_singleton]
  by_cases hkey : key = key'
  · subst hkey
    by_cases hname : key.isName = true
    · simp [hname, hget]
    · simp [hname]
  · have hne : ¬key' = key := fun h => hkey h.symm
    simp [hkey, hne]

/-- The item of a configuration that comes next is not in the new dictionary yet. -/
theorem heldAfter_new {before : List Nat} {c i : Nat} {key : Key K} {value : Value A}
    (hitem : (dicts c).items[i]? = some (key, value)) (hname : key.isName = true) :
    heldAfter dicts before c i key = heldAt dicts key before := by
  have hnotin : key ∉ ((dicts c).items.take i).map Prod.fst := by
    have htake : (dicts c).items.take (i + 1) = (dicts c).items.take i ++ [(key, value)] := by
      rw [List.take_add_one, hitem]
      rfl
    have hnodup := (dicts c).nodup.sublist ((List.take_sublist (i + 1) _).map Prod.fst)
    rw [htake, List.map_append, List.nodup_append] at hnodup
    exact fun hmem => hnodup.2.2 key hmem key List.mem_cons_self rfl
  unfold heldAfter heldNames
  rw [if_neg fun h => hnotin h.2, if_pos hname]

/-- The new dictionary stays as it is over an item that is none of a name, or that is
merged into what is held. -/
theorem Holds.stay {x c i : Nat} {before : List Nat} {t : Heap K A}
    (hholds : Holds dicts x (heldAfter dicts before c i) t) {key : Key K} {value : Value A}
    (hitem : (dicts c).items[i]? = some (key, value))
    (hkeep : key.isName = true → keepHeld (heldAt dicts key before) (some value) =
      heldAt dicts key before) :
    Holds dicts x (heldAfter dicts before c (i + 1)) t where
  agree := hholds.agree
  held key' := by
    rw [hholds.held, heldAfter_succ hitem]
    split
    · next h =>
      obtain ⟨hname, rfl⟩ := h
      rw [hkeep hname, heldAfter_new hitem hname]
    · rfl
  changed := hholds.changed

theorem keepHeld_some {held : Option (Value A)} {value : Value A}
    (h : ∀ inner r, held = some (.dict inner) → value ≠ .dict r) :
    keepHeld held (some value) = some value := by
  unfold keepHeld
  split
  · next heq => cases heq
  · next inner r heq => exact absurd (Option.some.inj heq) (h inner r rfl)
  · next heq => rw [heq]

theorem heldAt_append (key : Key K) (before : List Nat) (c : Nat) :
    heldAt dicts key (before ++ [c]) =
      keepHeld (heldAt dicts key before) ((dicts c).get? key) := by
  unfold heldAt
  rw [List.foldl_append, List.foldl_cons, List.foldl_nil]

theorem keepHeld_cases {held item : Option (Value A)} {value : Value A}
    (h : keepHeld held item = some value) : held = some value ∨ item = some value := by
  cases item with
  | none => exact .inl h
  | some new =>
      cases held with
      | none => cases new <;> exact .inr h
      | some old =>
          cases old with
          | atom a => cases new <;> exact .inr h
          | dict r =>
              cases new with
              | atom a => exact .inr h
              | dict s => exact .inl h

/-- What is held is a value of one of the configurations. -/
theorem heldAt_mem {key : Key K} {before : List Nat} {value : Value A}
    (h : heldAt dicts key before = some value) :
    ∃ c ∈ before, (dicts c).get? key = some value := by
  induction before using List.reverseRecOn with
  | nil => cases h
  | append_singleton before c ih =>
      rw [heldAt_append] at h
      rcases keepHeld_cases h with hbefore | hc
      · obtain ⟨c', hc', hget⟩ := ih hbefore
        exact ⟨c', List.mem_append_left _ hc', hget⟩
      · exact ⟨c, List.mem_append_right _ List.mem_cons_self, hc⟩

theorem get?_of_isEmpty {d : Object K A} (h : d.items.isEmpty = true) (key : Key K) :
    d.get? key = none := by
  unfold Object.get?
  rw [List.isEmpty_iff.mp h]
  rfl

theorem heldNames_isEmpty {c : Nat} (h : (dicts c).items.isEmpty = true) (before : List Nat) :
    heldNames dicts (before ++ [c]) = heldNames dicts before := by
  funext key
  unfold heldNames
  rw [heldAt_append, get?_of_isEmpty h]
  rfl

/-! ## Views -/

/-- No dictionary but itself refers to the object. -/
def Unread (x : Nat) (d : Store K A) : Prop :=
  ∀ r, r ≠ x → ∀ key, (d r).get? key ≠ some (.dict x)

theorem New.unread {x : Nat} (hnew : New inside dicts x) : Unread x dicts :=
  fun r _ key => hnew.dict r key

theorem view_agree {x : Nat} {d e : Store K A} (hagree : Agree x d e) (hunread : Unread x e)
    {value : Value A} (hvalue : value ≠ .dict x) (path : List (Key K)) :
    view d value path = view e value path := by
  induction path generalizing value with
  | nil =>
      cases value with
      | atom a => rfl
      | dict r => rfl
  | cons key path ih =>
      cases value with
      | atom a => rfl
      | dict r =>
          have hr : r ≠ x := fun h => hvalue (by rw [h])
          rw [view, view, hagree r hr]
          cases hget : (e r).get? key with
          | none => rfl
          | some inner => exact ih fun h => hunread r hr key (by rw [hget, h])

theorem view_singleton (r : Nat) (key : Key K) :
    view dicts (.dict r) [key] = ((dicts r).get? key).map Value.leaf := by
  rw [view]
  cases (dicts r).get? key with
  | none => rfl
  | some value =>
      cases value with
      | atom a => rfl
      | dict s => rfl

theorem leaf_eq_dict {value : Value A} (h : value.leaf = .dict) : ∃ r, value = .dict r := by
  cases value with
  | atom a => cases h
  | dict r => exact ⟨r, rfl⟩

/-- The merge of a dictionary with one it absorbs. -/
theorem view_absorbs (habs : Absorbs dicts base override) (path : List (Key K)) :
    View.merge (view dicts (.dict base)) (view dicts (.dict override)) path =
      view dicts (.dict base) path := by
  induction path generalizing base override with
  | nil => rfl
  | cons key path ih =>
      obtain ⟨hitems, hinner⟩ := habs
      by_cases hskip : key.isName = false ∨ view dicts (.dict override) [key] = none
      · exact View.merge_skip hskip
      · rw [not_or, Bool.not_eq_false] at hskip
        obtain ⟨hname, hsome⟩ := hskip
        rw [view_singleton, Option.map_eq_none_iff] at hsome
        obtain ⟨value, hget⟩ := Option.ne_none_iff_exists'.mp hsome
        by_cases hboth : ∃ into r, (dicts base).get? key = some (.dict into) ∧ value = .dict r
        · obtain ⟨into, r, hheld, rfl⟩ := hboth
          rw [View.merge_dict hname (by rw [view_singleton, hheld]; rfl)
            (by rw [view_singleton, hget]; rfl)]
          simp only [view, hheld, hget, Option.bind_some]
          exact ih (hinner key into r hget hname hheld)
        · have hnot : ∀ into r, (dicts base).get? key = some (.dict into) → value ≠ .dict r :=
            fun into r hheld hvalue => hboth ⟨into, r, hheld, hvalue⟩
          have hthere := hitems key value hget hname hnot
          rw [View.merge_set hname (by rw [view_singleton, hget]; simp)]
          · rw [view, view, hget, hthere]
          · rintro ⟨hx, hy⟩
            rw [view_singleton, hthere, Option.map_some, Option.some.injEq] at hx
            obtain ⟨r, rfl⟩ := leaf_eq_dict hx
            exact hnot r r hthere rfl

/-- The left fold, under each name, is the view of what is held. -/
theorem folded_view {configs : List Nat} (hquiet : Quiet dicts configs) :
    (configs.map fun c => view dicts (.dict c)).foldl View.merge View.empty [] = some .dict ∧
      ∀ key path, (configs.map fun c => view dicts (.dict c)).foldl View.merge View.empty
        (key :: path) = (heldNames dicts configs key).bind fun value => view dicts value path := by
  induction configs using List.reverseRecOn with
  | nil =>
      refine ⟨rfl, fun key path => ?_⟩
      have hnone : heldNames dicts [] key = none := by
        unfold heldNames heldAt
        simp
      rw [hnone]
      rfl
  | append_singleton before c ih =>
      have hbefore : Quiet dicts before := fun b c' a hsplit =>
        hquiet b c' (a ++ [c]) (by rw [hsplit, List.append_assoc, List.cons_append])
      obtain ⟨_, hfold⟩ := ih hbefore
      have hat : QuietAt dicts before c := hquiet before c [] rfl
      rw [List.map_append, List.foldl_append, List.map_cons, List.map_nil, List.foldl_cons,
        List.foldl_nil]
      refine ⟨rfl, fun key path => ?_⟩
      generalize hfolded : (before.map fun c => view dicts (.dict c)).foldl View.merge View.empty =
        folded at hfold ⊢
      by_cases hname : key.isName = true
      · have hheld : heldNames dicts before key = heldAt dicts key before := if_pos hname
        have hafter : heldNames dicts (before ++ [c]) key =
            keepHeld (heldAt dicts key before) ((dicts c).get? key) := by
          rw [heldNames, if_pos hname, heldAt_append]
        rw [hafter]
        cases hget : (dicts c).get? key with
        | none =>
            rw [View.merge_skip (.inr (by rw [view_singleton, hget]; rfl)), hfold, hheld]
            rfl
        | some value =>
            by_cases hboth : ∃ inner r, heldAt dicts key before = some (.dict inner) ∧
                value = .dict r
            · obtain ⟨inner, r, hinner, rfl⟩ := hboth
              rw [View.merge_dict hname (by rw [hfold, hheld, hinner]; rfl)
                (by rw [view_singleton, hget]; rfl), hinner]
              have hviews : (fun p => folded (key :: p)) = view dicts (.dict inner) := by
                funext p
                rw [hfold, hheld, hinner, Option.bind_some]
              have hnext : (fun p => view dicts (.dict c) (key :: p)) = view dicts (.dict r) := by
                funext p
                rw [view, hget, Option.bind_some]
              rw [hviews, hnext, view_absorbs (hat key inner r hname hinner hget)]
              rfl
            · have hnot : ∀ inner r, heldAt dicts key before = some (.dict inner) →
                  value ≠ .dict r := fun inner r hheld hvalue => hboth ⟨inner, r, hheld, hvalue⟩
              rw [keepHeld_some hnot, View.merge_set hname (by rw [view_singleton, hget]; simp)]
              · rw [view, hget]
              · rintro ⟨hx, hy⟩
                rw [view_singleton, hget, Option.map_some, Option.some.injEq] at hy
                obtain ⟨r, rfl⟩ := leaf_eq_dict hy
                rw [hfold, hheld] at hx
                cases hinner : heldAt dicts key before with
                | none =>
                    rw [hinner] at hx
                    cases hx
                | some held =>
                    rw [hinner, Option.bind_some] at hx
                    cases held with
                    | atom a => cases hx
                    | dict inner => exact hnot inner r hinner rfl
      · have hskip : key.isName = false := eq_false_of_ne_true hname
        rw [View.merge_skip (.inl hskip), hfold]
        simp [heldNames, hskip]

end Hephaestus.Config
