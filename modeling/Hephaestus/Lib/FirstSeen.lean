import Mathlib.Data.List.Induction
import Mathlib.Data.List.Infix
import Mathlib.Data.List.Nodup
import Hephaestus.Lib.Dict

/-!
# The first so many keys

A table with room for so many keys keeps the first that come. A key that came when the
table was full stays out, and one that is in stays in, so that the keys of a table can be
told from the keys that came without going through what happened in between.
-/

namespace Hephaestus.Lib

variable {κ : Type} [DecidableEq κ]

/-- The first `room` keys of a list, each once. -/
def firstSeen (room : Nat) (keys : List κ) : List κ := keys.eraseDups.take room

theorem eraseDups_concat (keys : List κ) (key : κ) :
    (keys ++ [key]).eraseDups = if key ∈ keys then keys.eraseDups else keys.eraseDups ++ [key] := by
  rw [List.eraseDups_append]
  split
  · next h =>
    have hnone : [key].removeAll keys = [] := by simp [List.removeAll, h]
    rw [hnone, List.eraseDups_nil, List.append_nil]
  · next h =>
    have hself : [key].removeAll keys = [key] := by simp [List.removeAll, h]
    have hone : [key].eraseDups = [key] := rfl
    rw [hself, hone]

theorem nodup_eraseDups (keys : List κ) : keys.eraseDups.Nodup := by
  induction keys using List.reverseRecOn with
  | nil => exact List.nodup_nil
  | append_singleton keys key ih =>
      rw [eraseDups_concat]
      split
      · exact ih
      · next h =>
        refine ih.append (List.nodup_singleton key) ?_
        rw [List.disjoint_singleton, List.mem_eraseDups]
        exact h

theorem eraseDups_of_nodup {keys : List κ} (h : keys.Nodup) : keys.eraseDups = keys := by
  induction keys using List.reverseRecOn with
  | nil => rfl
  | append_singleton keys key ih =>
      obtain ⟨hkeys, _, hdisjoint⟩ := List.nodup_append'.mp h
      rw [eraseDups_concat, if_neg (List.disjoint_singleton.mp hdisjoint), ih hkeys]

@[simp] theorem firstSeen_nil (room : Nat) : firstSeen room ([] : List κ) = [] := List.take_nil

theorem length_firstSeen_le (room : Nat) (keys : List κ) : (firstSeen room keys).length ≤ room := by
  rw [firstSeen, List.length_take]
  omega

theorem nodup_firstSeen (room : Nat) (keys : List κ) : (firstSeen room keys).Nodup :=
  (nodup_eraseDups keys).sublist (List.take_sublist room _)

theorem mem_of_mem_firstSeen {room : Nat} {keys : List κ} {key : κ} (h : key ∈ firstSeen room keys) :
    key ∈ keys :=
  List.mem_eraseDups.mp (List.mem_of_mem_take h)

/-- A key that came and is not in found the table full. -/
theorem firstSeen_full {room : Nat} {keys : List κ} {key : κ} (hmem : key ∈ keys)
    (hout : key ∉ firstSeen room keys) : (firstSeen room keys).length = room := by
  have hlong : room ≤ keys.eraseDups.length := by
    by_contra hshort
    rw [firstSeen, List.take_of_length_le (by omega)] at hout
    exact hout (List.mem_eraseDups.mpr hmem)
  rw [firstSeen, List.length_take]
  omega

/-- A key more, where it is in or the table is full. -/
theorem firstSeen_concat_same {room : Nat} {keys : List κ} {key : κ}
    (h : key ∈ firstSeen room keys ∨ room ≤ (firstSeen room keys).length) :
    firstSeen room (keys ++ [key]) = firstSeen room keys := by
  unfold firstSeen
  rw [eraseDups_concat]
  split
  · rfl
  · next hnew =>
    have hroom : room ≤ keys.eraseDups.length := by
      rcases h with hmem | hlong
      · exact absurd (mem_of_mem_firstSeen hmem) hnew
      · rw [firstSeen, List.length_take] at hlong
        omega
    exact List.take_append_of_le_length hroom

/-- A key more, where it is not in and there is room. -/
theorem firstSeen_concat_new {room : Nat} {keys : List κ} {key : κ}
    (hout : key ∉ firstSeen room keys) (hroom : (firstSeen room keys).length < room) :
    key ∉ keys ∧ firstSeen room (keys ++ [key]) = firstSeen room keys ++ [key] := by
  have hnew : key ∉ keys := by
    intro hmem
    have hfull := firstSeen_full hmem hout
    omega
  have hshort : keys.eraseDups.length < room := by
    rw [firstSeen, List.length_take] at hroom
    omega
  refine ⟨hnew, ?_⟩
  unfold firstSeen
  rw [eraseDups_concat, if_neg hnew, List.take_of_length_le (Nat.le_of_lt hshort),
    List.take_of_length_le]
  simp only [List.length_append, List.length_cons, List.length_nil]
  omega

/-- What is in stays in, in its place. -/
theorem firstSeen_append (room : Nat) (keys more : List κ) :
    firstSeen room keys <+: firstSeen room (keys ++ more) := by
  unfold firstSeen
  rw [List.eraseDups_append]
  exact List.IsPrefix.take (List.prefix_append _ _) room

/-! ## A table from its keys -/

variable {ν : Type}

/-- A table that has a value for each of its keys. -/
def tableOf (keys : List κ) (value : κ → ν) : Dict κ ν := keys.map fun key => (key, value key)

theorem get?_tableOf (keys : List κ) (value : κ → ν) (key : κ) :
    (tableOf keys value).get? key = if key ∈ keys then some (value key) else none := by
  unfold tableOf
  induction keys with
  | nil => simp
  | cons head keys ih =>
      rw [List.map_cons, Dict.get?_cons, ih]
      by_cases hhead : head = key
      · simp [hhead]
      · simp [hhead, Ne.symm hhead]

theorem contains_tableOf (keys : List κ) (value : κ → ν) (key : κ) :
    (tableOf keys value).contains key = true ↔ key ∈ keys := by
  rw [Dict.contains, get?_tableOf]
  by_cases h : key ∈ keys
  · simp [h]
  · simp [h]

omit [DecidableEq κ] in
theorem tableOf_congr {keys : List κ} {value value' : κ → ν} (h : ∀ key ∈ keys, value key = value' key) :
    tableOf keys value = tableOf keys value' := by
  refine List.map_congr_left fun key hkey => ?_
  rw [h key hkey]

/-- A key that is in gets its new value in its place. -/
theorem set_tableOf {keys : List κ} {key : κ} (hmem : key ∈ keys) (hnodup : keys.Nodup)
    (value : κ → ν) (v : ν) :
    (tableOf keys value).set key v = tableOf keys fun k => if k = key then v else value k := by
  unfold tableOf
  induction keys with
  | nil => cases hmem
  | cons head keys ih =>
      obtain ⟨hhead, hnodup⟩ := List.nodup_cons.mp hnodup
      rw [List.map_cons, Dict.set, List.map_cons]
      by_cases heq : head = key
      · subst heq
        have hrest : keys.map (fun k => (k, if k = head then v else value k))
            = keys.map fun k => (k, value k) := by
          refine List.map_congr_left fun k hk => ?_
          rw [if_neg (ne_of_mem_of_not_mem hk hhead)]
        simp only [if_pos, hrest]
      · have hkeys : key ∈ keys := (List.mem_cons.mp hmem).resolve_left (Ne.symm heq)
        rw [if_neg heq, ih hkeys hnodup]
        simp only [if_neg heq]

/-- A key that is not in is appended. -/
theorem set_tableOf_new {keys : List κ} {key : κ} (hnew : key ∉ keys) (value : κ → ν) (v : ν) :
    (tableOf keys value).set key v
      = tableOf (keys ++ [key]) fun k => if k = key then v else value k := by
  have hkeys : (tableOf keys value).map Prod.fst = keys := by
    rw [tableOf, List.map_map]
    exact List.map_id keys
  rw [Dict.set_of_new _ _ (by rwa [hkeys]), tableOf, tableOf, List.map_append]
  have hold : keys.map (fun k => (k, if k = key then v else value k))
      = keys.map fun k => (k, value k) := by
    refine List.map_congr_left fun k hk => ?_
    rw [if_neg (ne_of_mem_of_not_mem hk hnew)]
  simp only [hold, List.map_cons, List.map_nil, if_pos]

end Hephaestus.Lib
