import Mathlib.Data.Finset.Union
import Mathlib.Data.Finset.Lattice.Basic
import Mathlib.Data.Finset.SDiff

/-!
# One pass over contestants

Contestants come one after another, and each is admitted where what it would
take is free: no owner reserves any of it, and nobody admitted before takes
any of it. Owners have shares. A contestant that has been examined has all it
would take as its share from then on, admitted or not. The shares of the
exempt do not count against the others, and nobody competes with itself.

Whatever the order, those admitted take pairwise disjoint sets, and each is
free of the shares the owners came with: shares only grow.
-/

namespace Hephaestus.Lib

variable {ι κ : Type*} [DecidableEq ι] [DecidableEq κ]

/-- Who owns, who is exempt, and what everybody would take. -/
structure Contest (ι κ : Type*) where
  owners : Finset ι
  exempt : Finset ι
  own : ι → Finset κ

/-- Where a pass is. -/
structure Admission (ι κ : Type*) where
  shares : ι → Finset κ
  admitted : List ι := []
  taken : Finset κ := ∅

namespace Contest

variable (c : Contest ι κ)

/-- What the others reserve. -/
def met (shares : ι → Finset κ) (i : ι) : Finset κ :=
  (c.owners \ insert i c.exempt).biUnion shares

/-- What stands in the way of a contestant. -/
def against (a : Admission ι κ) (i : ι) : Finset κ := c.met a.shares i ∪ a.taken

/-- One contestant is examined. -/
def examine (a : Admission ι κ) (i : ι) : Admission ι κ :=
  { shares := Function.update a.shares i (c.own i)
    admitted := if c.own i ∩ c.against a i = ∅ then a.admitted ++ [i] else a.admitted
    taken := if c.own i ∩ c.against a i = ∅ then a.taken ∪ c.own i else a.taken }

variable {c} {shares shares' : ι → Finset κ} {a : Admission ι κ} {i j : ι} {x : κ}

theorem examine_of_free (h : c.own i ∩ c.against a i = ∅) :
    c.examine a i =
      ⟨Function.update a.shares i (c.own i), a.admitted ++ [i], a.taken ∪ c.own i⟩ := by
  unfold examine
  rw [if_pos h, if_pos h]

theorem examine_of_meet (h : c.own i ∩ c.against a i ≠ ∅) :
    c.examine a i = { a with shares := Function.update a.shares i (c.own i) } := by
  unfold examine
  rw [if_neg h, if_neg h]

theorem mem_met : x ∈ c.met shares i ↔
    ∃ j ∈ c.owners, j ≠ i ∧ j ∉ c.exempt ∧ x ∈ shares j := by
  simp only [met, Finset.mem_biUnion, Finset.mem_sdiff, Finset.mem_insert, not_or, and_assoc]

theorem met_mono (h : ∀ j, shares j ⊆ shares' j) : c.met shares i ⊆ c.met shares' i := by
  intro x hx
  obtain ⟨j, howner, hne, hexempt, hxj⟩ := mem_met.mp hx
  exact mem_met.mpr ⟨j, howner, hne, hexempt, h j hxj⟩

/-- Reservations are met through the owners only. -/
theorem met_congr {d : Contest ι κ} (hexempt : d.exempt = c.exempt)
    (h : ∀ j x, j ∈ d.owners ∧ x ∈ shares' j ↔ j ∈ c.owners ∧ x ∈ shares j) :
    d.met shares' i = c.met shares i := by
  ext x
  rw [mem_met, mem_met, hexempt]
  constructor
  · rintro ⟨j, howner, hne, hnot, hx⟩
    obtain ⟨howner', hx'⟩ := (h j x).mp ⟨howner, hx⟩
    exact ⟨j, howner', hne, hnot, hx'⟩
  · rintro ⟨j, howner, hne, hnot, hx⟩
    obtain ⟨howner', hx'⟩ := (h j x).mpr ⟨howner, hx⟩
    exact ⟨j, howner', hne, hnot, hx'⟩

/-! ## What a pass keeps -/

/-- What holds on the way, from the shares `initial`. -/
structure Fair (c : Contest ι κ) (initial : ι → Finset κ) (a : Admission ι κ) : Prop where
  grown : ∀ j, initial j ⊆ a.shares j
  taken : ∀ i ∈ a.admitted, c.own i ⊆ a.taken
  apart : a.admitted.Pairwise fun i j => c.own i ∩ c.own j = ∅
  free : ∀ i ∈ a.admitted, c.own i ∩ c.met initial i = ∅

theorem Fair.init (initial : ι → Finset κ) : Fair c initial { shares := initial } where
  grown := fun _ => Finset.Subset.refl _
  taken := nofun
  apart := .nil
  free := nofun

theorem Fair.examine {initial : ι → Finset κ} (h : Fair c initial a)
    (hown : initial i ⊆ c.own i) : Fair c initial (c.examine a i) := by
  have hgrown : ∀ j, initial j ⊆ Function.update a.shares i (c.own i) j := by
    intro j
    by_cases hj : j = i
    · subst hj
      rw [Function.update_self]
      exact hown
    · rw [Function.update_of_ne hj]
      exact h.grown j
  by_cases hfree : c.own i ∩ c.against a i = ∅
  · rw [examine_of_free hfree]
    rw [against, Finset.inter_union_distrib_left, Finset.union_eq_empty] at hfree
    refine ⟨hgrown, ?_, ?_, ?_⟩
    · intro j hj
      rcases List.mem_append.mp hj with hj | hj
      · exact (h.taken j hj).trans Finset.subset_union_left
      · rw [List.mem_singleton.mp hj]
        exact Finset.subset_union_right
    · refine List.pairwise_append.mpr ⟨h.apart, List.pairwise_singleton _ _, ?_⟩
      intro j hj k hk
      rw [List.mem_singleton.mp hk, Finset.inter_comm, ← Finset.subset_empty, ← hfree.2]
      exact Finset.inter_subset_inter_left (h.taken j hj)
    · intro j hj
      rcases List.mem_append.mp hj with hj | hj
      · exact h.free j hj
      · rw [List.mem_singleton.mp hj, ← Finset.subset_empty, ← hfree.1]
        exact Finset.inter_subset_inter_left (met_mono h.grown)
  · rw [examine_of_meet hfree]
    exact ⟨hgrown, h.taken, h.apart, h.free⟩

/-- Who comes first is admitted where it is free of what the owners came with. -/
theorem admitted_examine_first (initial : ι → Finset κ)
    (hfree : c.own i ∩ c.met initial i = ∅) :
    (c.examine { shares := initial } i).admitted = [i] := by
  have hagainst : c.against { shares := initial } i = c.met initial i := Finset.union_empty _
  rw [examine_of_free (hagainst ▸ hfree)]
  rfl

theorem admitted_subset_examine : a.admitted ⊆ (c.examine a i).admitted := by
  by_cases hfree : c.own i ∩ c.against a i = ∅
  · rw [examine_of_free hfree]
    exact List.subset_append_left _ _
  · rw [examine_of_meet hfree]
    exact List.Subset.refl _

theorem mem_admitted_examine (h : j ∈ (c.examine a i).admitted) : j ∈ a.admitted ∨ j = i := by
  by_cases hfree : c.own i ∩ c.against a i = ∅
  · rw [examine_of_free hfree] at h
    exact (List.mem_append.mp h).imp id List.mem_singleton.mp
  · rw [examine_of_meet hfree] at h
    exact .inl h

/-- Examining somebody who has all it would take and meets another's share
changes nothing. -/
theorem examine_of_blocked (hshare : a.shares i = c.own i)
    (hmeet : c.own i ∩ c.against a i ≠ ∅) : c.examine a i = a := by
  rw [examine_of_meet hmeet, ← hshare, Function.update_eq_self]

end Contest

end Hephaestus.Lib
