import Mathlib.Data.List.Induction
import Mathlib.Data.List.Perm.Basic
import Mathlib.Order.Lattice

/-!
# Merging sequences by their heads

Sequences are merged by taking, again and again, a head with the greatest key off its
sequence. Whatever the keys, nothing is lost and each sequence keeps its order.
-/

namespace Hephaestus.Lib.HeadMerge

variable {α κ : Type} [DecidableEq α] [LinearOrder κ] (key : α → κ)

/-- The sequence with the greater head, the first of two with the same. -/
def better : List α → List α → List α
  | x :: a, y :: b => if key x < key y then y :: b else x :: a
  | [], b => b
  | a, [] => a

/-- `max(sequences, key=...)`. -/
def choose : List (List α) → Option (List α)
  | [] => none
  | sequence :: rest => some (rest.foldl (better key) sequence)

/-- `sequence.popleft()`, and no sequence that is empty. -/
def advance (sequence : List α) : List (List α) → List (List α)
  | [] => []
  | other :: rest =>
      if other = sequence then if other.tail = [] then rest else other.tail :: rest
      else other :: advance sequence rest

/-- The loop, as long as there are sequences. -/
def mergeLoop : Nat → List (List α) → List α → Option (List α)
  | 0, sequences, merged => if sequences = [] then some merged else none
  | fuel + 1, sequences, merged =>
      match choose key sequences with
      | none => some merged
      | some sequence => mergeLoop fuel (advance sequence sequences) (merged ++ sequence.take 1)

/-- The heads that come off, one after the other: each is the greatest of its time. -/
inductive Merged : List (List α) → List α → Prop
  | nil : Merged [] []
  | step {sequences : List (List α)} {head : α} {tail rest : List α}
      (hmem : head :: tail ∈ sequences)
      (hgreatest : ∀ sequence ∈ sequences, ∀ other ∈ sequence.head?, key other ≤ key head)
      (hrest : Merged (advance (head :: tail) sequences) rest) : Merged sequences (head :: rest)

/-! ## The greatest head -/

variable {key}

omit [DecidableEq α] in
theorem foldl_better (rest : List (List α)) {sequence : List α} (hne : sequence ≠ [])
    (hrest : ∀ other ∈ rest, other ≠ []) :
    rest.foldl (better key) sequence ∈ sequence :: rest
      ∧ ∀ other ∈ sequence :: rest, ∀ x ∈ other.head?,
        ∀ y ∈ (rest.foldl (better key) sequence).head?, key x ≤ key y := by
  induction rest generalizing sequence with
  | nil =>
      refine ⟨List.mem_cons_self, fun other hother x hx y hy => ?_⟩
      have hy : sequence.head? = some y := hy
      rw [List.mem_singleton.mp hother, hy] at hx
      rw [Option.some.inj hx]
  | cons next rest ih =>
      rw [List.forall_mem_cons] at hrest
      obtain ⟨x, a, rfl⟩ := List.exists_cons_of_ne_nil hne
      obtain ⟨y, b, rfl⟩ := List.exists_cons_of_ne_nil hrest.1
      by_cases hlt : key x < key y
      · have hstep : better key (x :: a) (y :: b) = y :: b := if_pos hlt
        obtain ⟨hmem, hall⟩ := ih hrest.1 hrest.2
        rw [List.foldl_cons, hstep]
        refine ⟨List.mem_cons_of_mem _ hmem, ?_⟩
        rw [List.forall_mem_cons]
        refine ⟨fun z hz w hw => ?_, hall⟩
        obtain rfl := Option.some.inj hz
        exact le_trans (le_of_lt hlt) (hall _ List.mem_cons_self y rfl w hw)
      · have hstep : better key (x :: a) (y :: b) = x :: a := if_neg hlt
        obtain ⟨hmem, hall⟩ := ih hne hrest.2
        rw [List.foldl_cons, hstep]
        rw [List.forall_mem_cons] at hall
        refine ⟨?_, ?_⟩
        · rcases List.mem_cons.mp hmem with h | h
          · rw [h]
            exact List.mem_cons_self
          · exact List.mem_cons_of_mem _ (List.mem_cons_of_mem _ h)
        · rw [List.forall_mem_cons, List.forall_mem_cons]
          refine ⟨hall.1, fun z hz w hw => ?_, hall.2⟩
          obtain rfl := Option.some.inj hz
          exact le_trans (not_lt.mp hlt) (hall.1 x rfl w hw)

omit [DecidableEq α] in
theorem choose_spec {sequences : List (List α)} (hne : ∀ sequence ∈ sequences, sequence ≠ [])
    {chosen : List α} (h : choose key sequences = some chosen) :
    chosen ∈ sequences ∧ ∀ sequence ∈ sequences, ∀ x ∈ sequence.head?, ∀ y ∈ chosen.head?,
      key x ≤ key y := by
  cases sequences with
  | nil => cases h
  | cons sequence rest =>
      obtain rfl := Option.some.inj h
      rw [List.forall_mem_cons] at hne
      exact foldl_better rest hne.1 hne.2

/-! ## Taking a head off -/

/-- The sequences before the one that is advanced, its tail and the sequences after it. -/
theorem advance_split {sequence : List α} {sequences : List (List α)} (hmem : sequence ∈ sequences) :
    ∃ before after, sequences = before ++ sequence :: after
      ∧ advance sequence sequences
        = before ++ (if sequence.tail = [] then [] else [sequence.tail]) ++ after := by
  induction sequences with
  | nil => cases hmem
  | cons other rest ih =>
      rw [advance]
      by_cases heq : other = sequence
      · subst heq
        refine ⟨[], rest, rfl, ?_⟩
        rw [if_pos rfl]
        split
        · rfl
        · rfl
      · obtain ⟨before, after, hsplit, hadvance⟩ := ih ((List.mem_cons.mp hmem).resolve_left (Ne.symm heq))
        refine ⟨other :: before, after, by rw [hsplit]; rfl, ?_⟩
        rw [if_neg heq, hadvance]
        rfl

theorem advance_ne_nil {sequence : List α} {sequences : List (List α)} (hmem : sequence ∈ sequences)
    (hne : ∀ sequence ∈ sequences, sequence ≠ []) : ∀ other ∈ advance sequence sequences, other ≠ [] := by
  obtain ⟨before, after, rfl, hadvance⟩ := advance_split hmem
  rw [hadvance]
  intro other hother
  rcases List.mem_append.mp hother with h | h
  · rcases List.mem_append.mp h with h | h
    · exact hne other (List.mem_append_left _ h)
    · split at h
      · cases h
      · next htail =>
        rw [List.mem_singleton.mp h]
        exact htail
  · exact hne other (List.mem_append_right _ (List.mem_cons_of_mem _ h))

theorem flatten_advance {head : α} {tail : List α} {sequences : List (List α)}
    (hmem : head :: tail ∈ sequences) :
    ∃ front back, sequences = front ++ (head :: tail) :: back
      ∧ sequences.flatten = front.flatten ++ head :: (tail ++ back.flatten)
      ∧ (advance (head :: tail) sequences).flatten = front.flatten ++ (tail ++ back.flatten) := by
  obtain ⟨front, back, rfl, hadvance⟩ := advance_split hmem
  refine ⟨front, back, rfl, ?_, ?_⟩
  · rw [List.flatten_append, List.flatten_cons, List.cons_append]
  · rw [hadvance, List.flatten_append, List.flatten_append, List.append_assoc]
    congr 2
    rw [List.tail_cons]
    split
    · next h => rw [h, List.flatten_nil]
    · rw [List.flatten_singleton]

/-! ## The whole merge -/

/-- On as much fuel as there are elements the loop ends, and with a merge. -/
theorem mergeLoop_spec (fuel : Nat) {sequences : List (List α)} (merged : List α)
    (hne : ∀ sequence ∈ sequences, sequence ≠ []) (hfuel : sequences.flatten.length ≤ fuel) :
    ∃ rest, mergeLoop key fuel sequences merged = some (merged ++ rest) ∧ Merged key sequences rest := by
  induction fuel generalizing sequences merged with
  | zero =>
      have hnone : sequences = [] := by
        refine List.eq_nil_iff_forall_not_mem.mpr fun sequence hmem => hne sequence hmem ?_
        have hflat := List.length_eq_zero_iff.mp (Nat.le_zero.mp hfuel)
        exact List.flatten_eq_nil_iff.mp hflat sequence hmem
      subst hnone
      exact ⟨[], by rw [mergeLoop, if_pos rfl, List.append_nil], .nil⟩
  | succ fuel ih =>
      rw [mergeLoop]
      cases hchoose : choose key sequences with
      | none =>
          cases sequences with
          | nil => exact ⟨[], by rw [List.append_nil], .nil⟩
          | cons _ _ => cases hchoose
      | some chosen =>
          obtain ⟨hmem, hgreatest⟩ := choose_spec hne hchoose
          obtain ⟨head, tail, rfl⟩ := List.exists_cons_of_ne_nil (hne chosen hmem)
          obtain ⟨_, _, _, hflat, hadvance⟩ := flatten_advance hmem
          have hless : (advance (head :: tail) sequences).flatten.length ≤ fuel := by
            rw [hflat] at hfuel
            rw [hadvance]
            simp only [List.length_append, List.length_cons] at hfuel ⊢
            omega
          obtain ⟨rest, hrest, his⟩ := ih (merged ++ [head]) (advance_ne_nil hmem hne) hless
          refine ⟨head :: rest, ?_, .step hmem (fun sequence hs x hx => hgreatest sequence hs x hx head rfl) his⟩
          show mergeLoop key fuel (advance (head :: tail) sequences) (merged ++ [head]) = _
          rw [hrest, List.append_assoc]
          rfl

theorem Merged.perm {sequences : List (List α)} {merged : List α} (h : Merged key sequences merged) :
    merged.Perm sequences.flatten := by
  induction h with
  | nil => exact .nil
  | step hmem _ _ ih =>
      obtain ⟨_, _, _, hflat, hadvance⟩ := flatten_advance hmem
      rw [hadvance] at ih
      rw [hflat]
      exact (ih.cons _).trans List.perm_middle.symm

section Groups

variable {γ : Type} [DecidableEq γ] (group : α → γ)

/-- Sequences of one group each, no two of the same. -/
structure Grouped (sequences : List (List α)) : Prop where
  same : ∀ sequence ∈ sequences, ∀ x ∈ sequence, ∀ y ∈ sequence, group x = group y
  apart : sequences.Pairwise fun a b => ∀ x ∈ a, ∀ y ∈ b, group x ≠ group y

variable {group}

omit [DecidableEq γ] in
theorem Grouped.advance {head : α} {tail : List α} {sequences : List (List α)}
    (h : Grouped group sequences) (hmem : head :: tail ∈ sequences) :
    Grouped group (advance (head :: tail) sequences) := by
  obtain ⟨front, back, rfl, hadvance⟩ := advance_split hmem
  obtain ⟨hsame, happart⟩ := h
  rw [List.pairwise_append, List.pairwise_cons] at happart
  obtain ⟨hfront, ⟨hhead, hback⟩, hacross⟩ := happart
  rw [hadvance, List.append_assoc, List.tail_cons]
  have htail : ∀ a ∈ (if tail = [] then [] else [tail]), a = tail := by
    intro a ha
    split at ha
    · cases ha
    · exact List.mem_singleton.mp ha
  refine ⟨fun a ha => ?_, ?_⟩
  · rcases List.mem_append.mp ha with ha | ha
    · exact hsame a (List.mem_append_left _ ha)
    · rcases List.mem_append.mp ha with ha | ha
      · rw [htail a ha]
        intro x hx y hy
        exact hsame (head :: tail) hmem x (List.mem_cons_of_mem _ hx) y (List.mem_cons_of_mem _ hy)
      · exact hsame a (List.mem_append_right _ (List.mem_cons_of_mem _ ha))
  · rw [List.pairwise_append, List.pairwise_append]
    refine ⟨hfront, ⟨?_, hback, fun a ha b hb x hx => ?_⟩, fun a ha b hb x hx y hy => ?_⟩
    · split
      · exact List.Pairwise.nil
      · exact List.pairwise_singleton _ _
    · rw [htail a ha] at hx
      exact hhead b hb x (List.mem_cons_of_mem _ hx)
    · rcases List.mem_append.mp hb with hb | hb
      · rw [htail b hb] at hy
        exact hacross a ha _ List.mem_cons_self x hx y (List.mem_cons_of_mem _ hy)
      · exact hacross a ha b (List.mem_cons_of_mem _ hb) x hx y hy

omit [DecidableEq α] in
/-- The elements of a group are those of its sequence. -/
theorem Grouped.filter_flatten {sequence : List α} {sequences : List (List α)}
    (h : Grouped group sequences) (hmem : sequence ∈ sequences) {x : α} (hx : x ∈ sequence) :
    sequences.flatten.filter (fun y => group y = group x) = sequence := by
  obtain ⟨front, back, rfl⟩ := List.append_of_mem hmem
  have happart := h.apart
  rw [List.pairwise_append, List.pairwise_cons] at happart
  obtain ⟨_, ⟨hhead, _⟩, hacross⟩ := happart
  have hfront : front.flatten.filter (fun y => group y = group x) = [] := by
    rw [List.filter_eq_nil_iff]
    intro y hy heq
    obtain ⟨a, ha, hya⟩ := List.mem_flatten.mp hy
    exact hacross a ha _ List.mem_cons_self y hya x hx (of_decide_eq_true heq)
  have hback : back.flatten.filter (fun y => group y = group x) = [] := by
    rw [List.filter_eq_nil_iff]
    intro y hy heq
    obtain ⟨b, hb, hyb⟩ := List.mem_flatten.mp hy
    exact hhead b hb x hx y hyb (of_decide_eq_true heq).symm
  have hself : sequence.filter (fun y => group y = group x) = sequence :=
    List.filter_eq_self.mpr fun y hy => decide_eq_true (h.same _ hmem y hy x hx)
  rw [List.flatten_append, List.flatten_cons, List.filter_append, List.filter_append, hfront, hback,
    hself, List.nil_append, List.append_nil]

/-- Each group comes out in its order. -/
theorem Merged.filter_group {sequences : List (List α)} {merged : List α}
    (h : Merged key sequences merged) (hgroups : Grouped group sequences) (c : γ) :
    merged.filter (fun x => group x = c) = sequences.flatten.filter fun x => group x = c := by
  induction h with
  | nil => rfl
  | @step sequences head tail rest hmem _ _ ih =>
      obtain ⟨front, back, hsplit, hflat, hadvance⟩ := flatten_advance hmem
      have hlater : rest.filter (fun x => group x = c) = front.flatten.filter (fun x => group x = c)
          ++ (tail ++ back.flatten).filter fun x => group x = c := by
        rw [ih (hgroups.advance hmem), hadvance, List.filter_append]
      have hall : sequences.flatten.filter (fun x => group x = c)
          = front.flatten.filter (fun x => group x = c)
            ++ (head :: (tail ++ back.flatten)).filter fun x => group x = c := by
        rw [hflat, List.filter_append]
      rw [hall, List.filter_cons, List.filter_cons, hlater]
      split
      · next hc =>
        -- Nothing of the group stands in the sequences before.
        have hbefore : front.flatten.filter (fun x => group x = c) = [] := by
          have happart := hgroups.apart
          rw [hsplit, List.pairwise_append] at happart
          rw [List.filter_eq_nil_iff]
          intro y hy heq
          obtain ⟨a, ha, hya⟩ := List.mem_flatten.mp hy
          refine happart.2.2 a ha _ List.mem_cons_self y hya head List.mem_cons_self ?_
          rw [of_decide_eq_true heq, of_decide_eq_true hc]
        rw [hbefore]
        rfl
      · rfl

/-- Whatever comes out was no smaller than the first of any group that was still in. -/
theorem Merged.greatest {sequences : List (List α)} {merged : List α}
    (h : Merged key sequences merged) (hgroups : Grouped group sequences) {before after : List α}
    {x : α} (hsplit : merged = before ++ x :: after) {c : γ} {y : α}
    (hy : ((x :: after).filter fun z => group z = c).head? = some y) : key y ≤ key x := by
  induction h generalizing before with
  | nil => exact absurd hsplit (by simp)
  | @step sequences head tail rest hmem hgreatest hrest ih =>
      cases before with
      | cons first before => exact ih (hgroups.advance hmem) (List.cons.inj hsplit).2
      | nil =>
          obtain ⟨rfl, rfl⟩ := List.cons.inj hsplit
          have hmerged : Merged key sequences (head :: rest) := .step hmem hgreatest hrest
          rw [hmerged.filter_group hgroups] at hy
          obtain ⟨hyin, hyc⟩ := List.mem_filter.mp (List.mem_of_head? hy)
          obtain ⟨sequence, hsequence, hyseq⟩ := List.mem_flatten.mp hyin
          have hwhole := hgroups.filter_flatten hsequence hyseq
          rw [of_decide_eq_true hyc] at hwhole
          rw [hwhole] at hy
          exact hgreatest sequence hsequence y hy

end Groups

end Hephaestus.Lib.HeadMerge
