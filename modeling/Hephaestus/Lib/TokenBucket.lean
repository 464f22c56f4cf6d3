import Mathlib.Algebra.Order.Field.Basic
import Mathlib.Tactic.Linarith
import Mathlib.Tactic.Ring
import Hephaestus.Lib.Run

/-!
# Token buckets

A bucket that fills at a rate and holds a capacity; one token is taken out at
a time, and the times they were taken at are kept. The bound every use of one
rests on is that no interval sees more of them than a full bucket and what
flows in meanwhile: `capacity + rate * (t - s)`.

The bound for intervals that end now is not inductive by itself. What is, is
that the tokens taken since `s` and those still in the bucket come to no more:
taking a token moves it from the one to the other. Intervals that ended
earlier keep the bound they had when they ended.
-/

namespace Hephaestus.Lib

/-- What is in the bucket, the time, and when tokens were taken. -/
structure TokenBucket (K : Type*) where
  level : K
  now : K
  taken : List K

/-- Time passes, or a token is taken. -/
inductive BucketEvent (K : Type*)
  | pass (d : K)
  | take

namespace TokenBucket

variable {K : Type*} [LinearOrder K] {b b' : TokenBucket K}

/-! ## Counting -/

/-- How many tokens were taken from `s` to `t`. -/
def takenIn (b : TokenBucket K) (s t : K) : Nat :=
  b.taken.countP fun x => decide (s ≤ x ∧ x ≤ t)

/-- Nothing has been taken from later than now. -/
theorem takenIn_eq_zero (hpast : ∀ x ∈ b.taken, x ≤ b.now) {s : K} (hs : b.now < s) (t : K) :
    b.takenIn s t = 0 := by
  unfold takenIn
  rw [List.countP_eq_zero]
  intro x hx
  have hle := hpast x hx
  simp only [decide_eq_true_eq, not_and]
  intro hsx
  exact absurd (hs.trans_le hsx) (not_lt.mpr hle)

/-- An interval that goes past now might as well end now. -/
theorem takenIn_now (hpast : ∀ x ∈ b.taken, x ≤ b.now) (s : K) {t : K} (ht : b.now ≤ t) :
    b.takenIn s t = b.takenIn s b.now := by
  unfold takenIn
  refine List.countP_congr fun x hx => ?_
  have hle := hpast x hx
  simp only [decide_eq_true_eq]
  exact and_congr_right fun _ => ⟨fun _ => hle, fun _ => hle.trans ht⟩

theorem takenIn_take {level : K} (s t : K) :
    ({ b with level, taken := b.taken ++ [b.now] } : TokenBucket K).takenIn s t =
      b.takenIn s t + if s ≤ b.now ∧ b.now ≤ t then 1 else 0 := by
  unfold takenIn
  rw [List.countP_append, List.countP_singleton]
  simp only [decide_eq_true_eq]

/-! ## Running -/

variable [Field K] [IsStrictOrderedRing K] {rate capacity : K}

variable (rate capacity) in
def step (b : TokenBucket K) : BucketEvent K → Option (TokenBucket K)
  | .pass d =>
      if 0 ≤ d then
        some { b with now := b.now + d, level := min capacity (b.level + rate * d) }
      else none
  | .take =>
      if 1 ≤ b.level then some { b with level := b.level - 1, taken := b.taken ++ [b.now] }
      else none

variable (rate capacity) in
structure Bounded (b : TokenBucket K) : Prop where
  nonneg : 0 ≤ b.level
  le_capacity : b.level ≤ capacity
  past : ∀ x ∈ b.taken, x ≤ b.now
  since : ∀ s ≤ b.now, (b.takenIn s b.now : K) + b.level ≤ capacity + rate * (b.now - s)
  within : ∀ s t, s ≤ t → (b.takenIn s t : K) ≤ capacity + rate * (t - s)

theorem Bounded.pass (h : b.Bounded rate capacity) (hrate : 0 < rate) {d : K} (hd : 0 ≤ d) :
    ({ b with now := b.now + d, level := min capacity (b.level + rate * d) } :
      TokenBucket K).Bounded rate capacity where
  nonneg := by
    have hflow := mul_nonneg hrate.le hd
    have hlevel := h.nonneg
    exact le_min (hlevel.trans h.le_capacity) (by linarith)
  le_capacity := min_le_left _ _
  past := fun x hx => (h.past x hx).trans (by show b.now ≤ b.now + d; linarith)
  since := by
    intro s hs
    show (b.takenIn s (b.now + d) : K) + min capacity (b.level + rate * d) ≤
      capacity + rate * (b.now + d - s)
    rw [takenIn_now h.past s (by linarith)]
    rcases le_or_gt s b.now with hle | hgt
    · have hsince := h.since s hle
      have hmin := min_le_right capacity (b.level + rate * d)
      have hsplit : rate * (b.now + d - s) = rate * (b.now - s) + rate * d := by ring
      linarith
    · rw [takenIn_eq_zero h.past hgt]
      have hmin := min_le_left capacity (b.level + rate * d)
      have hflow : 0 ≤ rate * (b.now + d - s) :=
        mul_nonneg hrate.le (by have hs : s ≤ b.now + d := hs; linarith)
      push_cast
      linarith
  within := h.within

theorem Bounded.take (h : b.Bounded rate capacity) (hrate : 0 < rate) (hlevel : 1 ≤ b.level) :
    ({ b with level := b.level - 1, taken := b.taken ++ [b.now] } :
      TokenBucket K).Bounded rate capacity where
  nonneg := by
    show 0 ≤ b.level - 1
    linarith
  le_capacity := by
    have hle := h.le_capacity
    show b.level - 1 ≤ capacity
    linarith
  past := by
    intro x hx
    rcases List.mem_append.mp hx with hx | hx
    · exact h.past x hx
    · exact (List.mem_singleton.mp hx).le
  since := by
    intro s hs
    have hsince := h.since s hs
    rw [takenIn_take, if_pos ⟨hs, le_rfl⟩]
    push_cast
    show (b.takenIn s b.now : K) + 1 + (b.level - 1) ≤ capacity + rate * (b.now - s)
    linarith
  within := by
    intro s t hst
    rw [takenIn_take]
    split
    · next hin =>
        have hsince := h.since s hin.1
        rw [takenIn_now h.past s hin.2]
        have hflow := mul_le_mul_of_nonneg_left (sub_le_sub_right hin.2 s) hrate.le
        push_cast
        linarith
    · have hwithin := h.within s t hst
      push_cast
      linarith

/-- A bucket that nothing was taken from. -/
theorem bounded_fresh (hrate : 0 < rate) {level now : K} (hlevel : 0 ≤ level)
    (hcapacity : level ≤ capacity) : (⟨level, now, []⟩ : TokenBucket K).Bounded rate capacity where
  nonneg := hlevel
  le_capacity := hcapacity
  past := fun _ hx => absurd hx List.not_mem_nil
  since := by
    intro s hs
    have hflow := mul_nonneg hrate.le (sub_nonneg.mpr hs)
    show ((0 : Nat) : K) + level ≤ capacity + rate * (now - s)
    push_cast
    linarith
  within := by
    intro s t hst
    have hflow := mul_nonneg hrate.le (sub_nonneg.mpr hst)
    show ((0 : Nat) : K) ≤ capacity + rate * (t - s)
    push_cast
    linarith

/-- What every run of a bucket keeps to. -/
theorem reachable_bounded (hrate : 0 < rate) (h : b.Bounded rate capacity)
    (hr : Reachable (step rate capacity) b b') : b'.Bounded rate capacity := by
  refine hr.invariant (Bounded rate capacity) h fun t e u ht hstep => ?_
  cases e with
  | pass d =>
      simp only [step, Option.ite_none_right_eq_some, Option.some.injEq] at hstep
      obtain ⟨hd, rfl⟩ := hstep
      exact ht.pass hrate hd
  | take =>
      simp only [step, Option.ite_none_right_eq_some, Option.some.injEq] at hstep
      obtain ⟨hlevel, rfl⟩ := hstep
      exact ht.take hrate hlevel

end TokenBucket

end Hephaestus.Lib
