import Hephaestus.Lib.Keyed

/-!
# Dictionaries in insertion order

A dictionary is the list of its items in the order they were first stored.
Assignment to a key that is there replaces the value in place; to one that
is not, it appends. Only the lookups matter to most proofs, so each
operation comes with the lemma that says what a lookup sees after it.
-/

namespace Hephaestus.Lib

/-- The items of a dictionary, oldest key first. -/
abbrev Dict (κ ν : Type) := List (κ × ν)

namespace Dict

variable {κ ν : Type} [DecidableEq κ]

def get? (d : Dict κ ν) (k : κ) : Option ν :=
  (d.find? fun item => item.1 = k).map Prod.snd

def contains (d : Dict κ ν) (k : κ) : Bool := (d.get? k).isSome

/-- `d[k] = v`. -/
def set : Dict κ ν → κ → ν → Dict κ ν
  | [], k, v => [(k, v)]
  | item :: d, k, v => if item.1 = k then (k, v) :: d else item :: set d k v

/-- `{k: v for k, v in pairs}`. -/
def ofPairs (pairs : List (κ × ν)) : Dict κ ν :=
  pairs.foldl (fun d item => set d item.1 item.2) []

/-- `d.pop(k, None)`, the dictionary it leaves. -/
def erase (d : Dict κ ν) (k : κ) : Dict κ ν := d.filter fun item => item.1 ≠ k

/-- `{k: v for k, v in d.items() if p(k)}`. -/
def restrict (d : Dict κ ν) (p : κ → Bool) : Dict κ ν := d.filter fun item => p item.1

@[simp] theorem get?_nil (k : κ) : Dict.get? ([] : Dict κ ν) k = none := rfl

theorem get?_cons (item : κ × ν) (d : Dict κ ν) (k : κ) :
    Dict.get? (item :: d) k = if item.1 = k then some item.2 else d.get? k := by
  simp only [get?, List.find?_cons]
  split
  · next h => simp [of_decide_eq_true h]
  · next h => simp [of_decide_eq_false h]

theorem get?_append (d e : Dict κ ν) (k : κ) :
    Dict.get? (d ++ e) k = (Dict.get? d k).or (Dict.get? e k) := by
  rw [get?, get?, get?, List.find?_append, Option.map_or]

theorem get?_set (d : Dict κ ν) (k k' : κ) (v : ν) :
    (d.set k v).get? k' = if k = k' then some v else d.get? k' := by
  induction d with
  | nil => simp [set, get?_cons]
  | cons item d ih =>
      rw [set]
      split
      · next h =>
          rw [get?_cons, get?_cons]
          by_cases hk : k = k'
          · simp [hk]
          · simp [hk, h]
      · next h =>
          rw [get?_cons, get?_cons, ih]
          by_cases hk : k = k'
          · subst hk
            simp [h]
          · simp [hk]

@[simp] theorem get?_set_self (d : Dict κ ν) (k : κ) (v : ν) : (d.set k v).get? k = some v := by
  rw [get?_set, if_pos rfl]

theorem get?_set_ne (d : Dict κ ν) {k k' : κ} (v : ν) (h : k ≠ k') :
    (d.set k v).get? k' = d.get? k' := by
  rw [get?_set, if_neg h]

theorem get?_restrict (d : Dict κ ν) (p : κ → Bool) (k : κ) :
    (d.restrict p).get? k = if p k then d.get? k else none := by
  induction d with
  | nil => exact (ite_self none).symm
  | cons item d ih =>
      rw [restrict, List.filter_cons]
      split
      · next hp =>
          rw [get?_cons, get?_cons]
          by_cases hk : item.1 = k
          · simp [hk, hk ▸ hp]
          · simp only [hk, if_false]
            exact ih
      · next hp =>
          rw [get?_cons]
          by_cases hk : item.1 = k
          · rw [show p k = false by simpa [hk] using hp]
            rw [restrict, show p k = false by simpa [hk] using hp] at ih
            simpa using ih
          · simp only [hk, if_false]
            exact ih

theorem get?_erase (d : Dict κ ν) (k k' : κ) :
    (d.erase k).get? k' = if k' = k then none else d.get? k' := by
  have h := get?_restrict d (fun x => x ≠ k) k'
  rw [restrict] at h
  rw [erase, h]
  by_cases hk : k' = k
  · simp [hk]
  · simp [hk]

/-! ### Keys -/

theorem keys_set (d : Dict κ ν) (k : κ) (v : ν) :
    (d.set k v).map Prod.fst =
      if k ∈ d.map Prod.fst then d.map Prod.fst else d.map Prod.fst ++ [k] := by
  induction d with
  | nil => simp [set]
  | cons item d ih =>
      rw [set]
      split
      · next h => simp [h]
      · next h =>
          rw [List.map_cons, ih, List.map_cons]
          by_cases hk : k ∈ d.map Prod.fst
          · rw [if_pos hk, if_pos (List.mem_cons_of_mem _ hk)]
          · rw [if_neg hk, if_neg (by simpa [Ne.symm h] using hk), List.cons_append]

theorem nodup_set {d : Dict κ ν} (h : (d.map Prod.fst).Nodup) (k : κ) (v : ν) :
    ((d.set k v).map Prod.fst).Nodup := by
  rw [keys_set]
  split
  · exact h
  · next hk => exact h.append (List.nodup_singleton k) (by simpa using hk)

theorem nodup_erase {d : Dict κ ν} (h : (d.map Prod.fst).Nodup) (k : κ) :
    ((d.erase k).map Prod.fst).Nodup :=
  h.sublist (List.filter_sublist.map Prod.fst)

/-- Storing what is there changes nothing. -/
theorem set_self {d : Dict κ ν} {k : κ} {v : ν} (h : d.get? k = some v) : d.set k v = d := by
  induction d with
  | nil => cases h
  | cons item d ih =>
      rw [get?_cons] at h
      rw [set]
      split at h
      · next hk =>
        rw [if_pos hk, ← hk, ← Option.some.inj h]
      · next hk => rw [if_neg hk, ih h]

/-- A key that is not there is appended. -/
theorem set_of_new (d : Dict κ ν) {key : κ} (value : ν)
    (h : key ∉ d.map Prod.fst) : d.set key value = d ++ [(key, value)] := by
  induction d with
  | nil => rfl
  | cons item d ih =>
      rw [List.map_cons, List.mem_cons, not_or] at h
      rw [set, if_neg (Ne.symm h.1), ih h.2, List.cons_append]

/-- Storing items whose keys are all new appends them. -/
theorem foldl_set_of_nodup (pairs d : Dict κ ν)
    (h : ((d ++ pairs).map Prod.fst).Nodup) :
    pairs.foldl (fun d pair => Dict.set d pair.1 pair.2) d = d ++ pairs := by
  induction pairs generalizing d with
  | nil => rw [List.append_nil]; rfl
  | cons pair pairs ih =>
      have hnew : pair.1 ∉ d.map Prod.fst := by
        rw [List.map_append, List.map_cons, List.nodup_append] at h
        exact fun hmem => h.2.2 _ hmem _ List.mem_cons_self rfl
      have hmoved : d ++ pair :: pairs = (d ++ [pair]) ++ pairs := by simp
      rw [List.foldl_cons, set_of_new d pair.2 hnew, hmoved, ih]
      rw [← hmoved]
      exact h

/-- Where no key repeats, every item is what its key looks up. -/
theorem get?_of_mem {d : Dict κ ν} (h : (d.map Prod.fst).Nodup) {k : κ} {v : ν}
    (hmem : (k, v) ∈ d) : d.get? k = some v := by
  unfold get?
  rw [find?_key h hmem rfl]
  rfl

/-- What a key looks up is an item. -/
theorem mem_of_get? {d : Dict κ ν} {k : κ} {v : ν} (h : d.get? k = some v) : (k, v) ∈ d := by
  obtain ⟨item, hfind, rfl⟩ := Option.map_eq_some_iff.mp h
  have hfound := List.find?_some hfind
  obtain rfl : item.1 = k := of_decide_eq_true hfound
  exact List.mem_of_find?_eq_some hfind

/-- A key is found wherever it stands. -/
theorem get?_of_perm {d e : Dict κ ν} (h : d.Perm e) (hd : (d.map Prod.fst).Nodup) (k : κ) :
    d.get? k = e.get? k := by
  have he : (e.map Prod.fst).Nodup := (h.map Prod.fst).nodup_iff.mp hd
  cases hget : d.get? k with
  | some v => exact (get?_of_mem he (h.mem_iff.mp (mem_of_get? hget))).symm
  | none =>
      cases hget' : e.get? k with
      | none => rfl
      | some v =>
          have hfound := get?_of_mem hd (h.mem_iff.mpr (mem_of_get? hget'))
          rw [hget] at hfound
          cases hfound

/-! ### Sizes -/

theorem length_set_le (d : Dict κ ν) (k : κ) (v : ν) : (d.set k v).length ≤ d.length + 1 := by
  induction d with
  | nil => simp [set]
  | cons item d ih =>
      rw [set]
      split
      · simp
      · simpa using ih

/-- A key that is there takes an item with it. -/
theorem length_erase_lt {d : Dict κ ν} {k : κ} {v : ν} (h : d.get? k = some v) :
    (d.erase k).length < d.length := by
  obtain ⟨item, hfind, _⟩ := Option.map_eq_some_iff.mp h
  have hmem := List.mem_of_find?_eq_some hfind
  have hkey : item.1 = k := by simpa using List.find?_some hfind
  refine List.length_filter_lt_length_iff_exists.mpr ⟨item, hmem, ?_⟩
  simp [hkey]

/-- Where no key repeats, it takes just that one. -/
theorem length_erase {d : Dict κ ν} (hd : (d.map Prod.fst).Nodup) {k : κ} {v : ν}
    (h : d.get? k = some v) : (d.erase k).length + 1 = d.length := by
  obtain ⟨before, after, rfl⟩ := List.append_of_mem (mem_of_get? h)
  rw [List.map_append, List.map_cons, List.nodup_append, List.nodup_cons] at hd
  obtain ⟨_, ⟨hafter, _⟩, hapart⟩ := hd
  have hkeep : ∀ part : Dict κ ν, k ∉ part.map Prod.fst → part.erase k = part := by
    intro part hk
    refine List.filter_eq_self.mpr fun item hitem => decide_eq_true fun heq => hk ?_
    exact List.mem_map.mpr ⟨item, hitem, heq⟩
  have hbefore : k ∉ before.map Prod.fst := fun hk => hapart k hk k List.mem_cons_self rfl
  have hsplit : erase (before ++ (k, v) :: after) k = before ++ after := by
    have hb := hkeep before hbefore
    have ha := hkeep after hafter
    unfold erase at hb ha ⊢
    rw [List.filter_append, List.filter_cons, hb, ha]
    simp
  rw [hsplit]
  simp only [List.length_append, List.length_cons]
  omega

/-! ### Built from pairs -/

theorem mem_set {d : Dict κ ν} {k : κ} {v : ν} {item : κ × ν} (h : item ∈ d.set k v) :
    item = (k, v) ∨ item ∈ d := by
  induction d with
  | nil => exact .inl (List.mem_singleton.mp h)
  | cons head d ih =>
      rw [set] at h
      split at h
      · exact (List.mem_cons.mp h).imp_right (List.mem_cons_of_mem _)
      · rcases List.mem_cons.mp h with rfl | h
        · exact .inr List.mem_cons_self
        · exact (ih h).imp_right (List.mem_cons_of_mem _)

theorem ofPairs_concat (pairs : List (κ × ν)) (item : κ × ν) :
    ofPairs (pairs ++ [item]) = (ofPairs pairs).set item.1 item.2 := by
  simp [ofPairs]

theorem mem_ofPairs {pairs : List (κ × ν)} {item : κ × ν} (h : item ∈ ofPairs pairs) :
    item ∈ pairs := by
  induction pairs using List.reverseRecOn with
  | nil => exact h
  | append_singleton pairs last ih =>
      rw [ofPairs_concat] at h
      rcases mem_set h with rfl | h
      · exact List.mem_append_right _ (List.mem_singleton_self _)
      · exact List.mem_append_left _ (ih h)

/-- A dictionary as long as the list it was built from is that list: no key
came twice. -/
theorem ofPairs_of_length {pairs : List (κ × ν)} (h : pairs.length ≤ (ofPairs pairs).length) :
    ofPairs pairs = pairs ∧ (pairs.map Prod.fst).Nodup := by
  induction pairs using List.reverseRecOn with
  | nil => exact ⟨rfl, List.nodup_nil⟩
  | append_singleton pairs last ih =>
      have hgrown := congrArg List.length (keys_set (ofPairs pairs) last.1 last.2)
      rw [List.length_map, ← ofPairs_concat] at hgrown
      rw [List.length_append, List.length_singleton] at h
      by_cases hk : last.1 ∈ (ofPairs pairs).map Prod.fst
      · rw [if_pos hk, List.length_map] at hgrown
        have hle : ∀ l : List (κ × ν), (ofPairs l).length ≤ l.length := by
          intro l
          induction l using List.reverseRecOn with
          | nil => exact Nat.le_refl 0
          | append_singleton l x ih =>
              have hstep := length_set_le (ofPairs l) x.1 x.2
              rw [ofPairs_concat, List.length_append, List.length_singleton]
              omega
        have := hle pairs
        omega
      · rw [if_neg hk, List.length_append, List.length_map, List.length_singleton] at hgrown
        obtain ⟨heq, hnd⟩ := ih (by omega)
        rw [heq] at hk
        refine ⟨?_, ?_⟩
        · rw [ofPairs_concat, heq, set_of_new pairs last.2 hk]
        · rw [List.map_append]
          exact hnd.append (List.nodup_singleton _) (by simpa using hk)

/-- An update by items under different keys. -/
theorem get?_foldl_set {pairs d : Dict κ ν} (h : (pairs.map Prod.fst).Nodup) (k : κ) :
    (pairs.foldl (fun d item => Dict.set d item.1 item.2) d).get? k =
      (Dict.get? pairs k).or (d.get? k) := by
  induction pairs generalizing d with
  | nil => rfl
  | cons item pairs ih =>
      obtain ⟨hnew, hnd⟩ := List.nodup_cons.mp h
      rw [List.foldl_cons, ih hnd, get?_set, get?_cons]
      by_cases hk : item.1 = k
      · subst hk
        have hnone : Dict.get? pairs item.1 = none := by
          rw [get?, Option.map_eq_none_iff, List.find?_eq_none]
          intro x hx heq
          exact hnew (List.mem_map.mpr ⟨x, hx, of_decide_eq_true heq⟩)
        simp [hnone]
      · simp [hk]

/-! ### Values -/

variable [DecidableEq ν]

/-- `d.values()`. -/
def values (d : Dict κ ν) : List ν := d.map Prod.snd

/-- An assignment adds its value at most once, and no other. -/
theorem count_values_set_le (d : Dict κ ν) (k : κ) (v u : ν) :
    (d.set k v).values.count u ≤ d.values.count u + if v = u then 1 else 0 := by
  induction d with
  | nil => simp [set, values, List.count_singleton]
  | cons item d ih =>
      rw [set]
      split
      · simp only [values, List.map_cons, List.count_cons, beq_iff_eq]
        omega
      · simp only [values, List.map_cons, List.count_cons] at ih ⊢
        omega

theorem count_values_erase_le (d : Dict κ ν) (k : κ) (u : ν) :
    (d.erase k).values.count u ≤ d.values.count u :=
  (List.filter_sublist.map Prod.snd).count_le u

/-- The value under an erased key is gone once. -/
theorem count_values_erase_lt {d : Dict κ ν} {k : κ} {v : ν} (h : d.get? k = some v) :
    (d.erase k).values.count v < d.values.count v := by
  induction d with
  | nil => cases h
  | cons item d ih =>
      rw [get?_cons] at h
      by_cases hk : item.1 = k
      · rw [if_pos hk] at h
        obtain rfl := Option.some.inj h
        have hle := count_values_erase_le d k item.2
        simp only [erase, values, ne_eq] at hle
        simp only [erase, values, List.filter_cons, hk, ne_eq, not_true_eq_false, decide_false,
          Bool.false_eq_true, if_false, List.map_cons, List.count_cons_self]
        omega
      · rw [if_neg hk] at h
        have hlt := ih h
        simp only [erase, values, ne_eq] at hlt
        simp only [erase, values, List.filter_cons, hk, ne_eq, not_false_eq_true, decide_true,
          if_true, List.map_cons, List.count_cons]
        omega

end Dict

end Hephaestus.Lib
