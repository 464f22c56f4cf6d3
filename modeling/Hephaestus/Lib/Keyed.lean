import Mathlib.Data.List.Induction
import Mathlib.Data.List.Nodup

/-!
# Lists keyed by a field

Records kept in a list, at most one for each value of a field: the shape of
every small table in a document that is read and rewritten whole. The table
is searched with `find?`, an entry is replaced in place or filtered out,
and new entries go to the end.

Where the same key may come up again, the latest entry counts: `latestBy`
keeps the last entry of each key, in the order of those.
-/

namespace Hephaestus.Lib

variable {α κ : Type*} {key : α → κ} {l : List α} {a b : α}

/-- Two entries with the same key are the same entry. -/
theorem eq_of_key_eq (hnd : (l.map key).Nodup) (ha : a ∈ l) (hb : b ∈ l)
    (h : key a = key b) : a = b :=
  List.inj_on_of_nodup_map hnd ha hb h

variable [DecidableEq κ]

/-- The search for an entry's key finds the entry. -/
theorem find?_key (hnd : (l.map key).Nodup) (ha : a ∈ l) {k : κ} (hk : key a = k) :
    l.find? (fun x => key x = k) = some a := by
  obtain ⟨b, hb⟩ : ∃ b, l.find? (fun x => decide (key x = k)) = some b := by
    rw [← Option.isSome_iff_exists, List.find?_isSome]
    exact ⟨a, ha, by simpa using hk⟩
  have hkb : key b = k := by simpa using List.find?_some hb
  rw [hb, eq_of_key_eq hnd (List.mem_of_find?_eq_some hb) ha (hkb.trans hk.symm)]

/-- What a search found is an entry with that key. -/
theorem find?_key_some {k : κ} (h : l.find? (fun x => key x = k) = some a) :
    a ∈ l ∧ key a = k :=
  ⟨List.mem_of_find?_eq_some h, by simpa using List.find?_some h⟩

/-- A search that found nothing: no entry has the key. -/
theorem find?_key_none {k : κ} (h : l.find? (fun x => key x = k) = none) :
    k ∉ l.map key := by
  intro hk
  obtain ⟨b, hb, rfl⟩ := List.mem_map.mp hk
  exact List.find?_eq_none.mp h b hb (by simp)

/-- An entry put in the place of those with its key is found instead of
them. -/
theorem find?_key_replace {b : α} (h : l.find? (fun x => key x = key b) = some a) :
    (l.map fun x => if key x = key b then b else x).find? (fun x => key x = key b) = some b := by
  induction l with
  | nil => cases h
  | cons x l ih =>
      by_cases hx : key x = key b
      · simp [hx]
      · simp only [List.map_cons, hx, if_false, List.find?_cons, decide_false] at h ⊢
        exact ih h

/-- A new entry at the end is found where no entry had its key. -/
theorem find?_key_concat {b : α} (h : l.find? (fun x => key x = key b) = none) :
    (l ++ [b]).find? (fun x => key x = key b) = some b := by
  simp [List.find?_append, h]

/-! ## The latest of each key -/

/-- The last entry of each key. -/
def latestBy (key : α → κ) (l : List α) : List α :=
  l.foldl (fun latest a => latest.filter (fun b => decide (key b ≠ key a)) ++ [a]) []

/-- No later entry has the key of `a`. -/
def IsLatest (key : α → κ) (l : List α) (a : α) : Prop :=
  ∃ before later, l = before ++ a :: later ∧ ∀ b ∈ later, key b ≠ key a

omit [DecidableEq κ] in
theorem IsLatest.mem (h : IsLatest key l a) : a ∈ l := by
  obtain ⟨before, later, rfl, _⟩ := h
  exact List.mem_append_right _ List.mem_cons_self

omit [DecidableEq κ] in
/-- One more entry at the end. -/
theorem isLatest_concat : IsLatest key (l ++ [b]) a ↔
    a = b ∨ (IsLatest key l a ∧ key b ≠ key a) := by
  constructor
  · rintro ⟨before, later, heq, hlater⟩
    rcases List.eq_nil_or_concat later with rfl | ⟨later, c, rfl⟩
    · exact .inl (List.singleton_inj.mp (List.append_inj' heq rfl).2).symm
    · rw [List.concat_eq_append, ← List.cons_append, ← List.append_assoc] at heq
      obtain ⟨rfl, hlast⟩ := List.append_inj' heq rfl
      obtain rfl := List.singleton_inj.mp hlast
      rw [List.concat_eq_append] at hlater
      refine .inr ⟨⟨before, later, rfl, fun d hd => ?_⟩, ?_⟩
      · exact hlater d (List.mem_append_left _ hd)
      · exact hlater b (List.mem_append_right _ (List.mem_singleton_self b))
  · rintro (rfl | ⟨⟨before, later, rfl, hlater⟩, hne⟩)
    · exact ⟨l, [], rfl, fun _ h => by cases h⟩
    · refine ⟨before, later ++ [b], by simp, fun d hd => ?_⟩
      rcases List.mem_append.mp hd with hd | hd
      · exact hlater d hd
      · obtain rfl := List.mem_singleton.mp hd
        exact hne

theorem mem_latestBy : a ∈ latestBy key l ↔ IsLatest key l a := by
  induction l using List.reverseRecOn generalizing a with
  | nil =>
      constructor
      · intro h
        cases h
      · intro h
        cases h.mem
  | append_singleton l b ih =>
      unfold latestBy
      rw [List.foldl_append, List.foldl_cons, List.foldl_nil, isLatest_concat, List.mem_append,
        List.mem_filter, List.mem_singleton, decide_eq_true_eq]
      show (a ∈ latestBy key l ∧ _) ∨ _ ↔ _
      rw [ih]
      constructor
      · rintro (⟨hl, hne⟩ | rfl)
        · exact .inr ⟨hl, hne.symm⟩
        · exact .inl rfl
      · rintro (rfl | ⟨hl, hne⟩)
        · exact .inr rfl
        · exact .inl ⟨hl, hne.symm⟩

omit [DecidableEq κ] in
/-- What comes before an entry does not matter to it. -/
theorem isLatest_append {m : List α} (ha : a ∈ m) :
    IsLatest key (l ++ m) a ↔ IsLatest key m a := by
  constructor
  · rintro ⟨before, later, heq, hlater⟩
    rcases List.append_eq_append_iff.mp heq with ⟨rest, rfl, rfl⟩ | ⟨rest, rfl, hrest⟩
    · exact ⟨rest, later, rfl, hlater⟩
    · cases rest with
      | nil => exact ⟨[], later, hrest.symm, hlater⟩
      | cons b rest =>
          obtain ⟨rfl, rfl⟩ := List.cons_eq_cons.mp hrest
          exact absurd rfl (hlater a (List.mem_append_right _ ha))
  · rintro ⟨before, later, rfl, hlater⟩
    exact ⟨l ++ before, later, by simp, hlater⟩

end Hephaestus.Lib
