import Mathlib.Algebra.Ring.Nat
import Mathlib.Data.List.Basic
import Mathlib.Data.List.Infix

/-!
# Framing

An encoder whose results are put one after the other is read back if each result
says where it ends, given what may come after it. The encoders that do so compose: a
number of a fixed width, a text with its length in front, one thing after another, and
at last a list of such things, of which the whole is then read back.
-/

namespace Hephaestus.Lib

variable {α β γ : Type}

/-- The results of valid things are told apart, and from what comes after them, if that
is `after`. -/
def Delimits (valid : α → Prop) (after : List β → Prop) (encode : α → List β) : Prop :=
  ∀ a b r s, valid a → valid b → after r → after s → encode a ++ r = encode b ++ s → a = b ∧ r = s

namespace Delimits

variable {valid : α → Prop} {after : List β → Prop} {encode : α → List β}

/-- One thing after another. -/
theorem seq {valid' : γ → Prop} {f : γ → List β} {between : List β → Prop}
    (he : Delimits valid between encode) (hf : Delimits valid' after f)
    (hbetween : ∀ c r, after r → between (f c ++ r)) :
    Delimits (fun x => valid x.1 ∧ valid' x.2) after fun x : α × γ => encode x.1 ++ f x.2 := by
  intro x y r s hx hy hr hs h
  rw [List.append_assoc, List.append_assoc] at h
  obtain ⟨hfirst, hrest⟩ := he _ _ _ _ hx.1 hy.1 (hbetween _ _ hr) (hbetween _ _ hs) h
  obtain ⟨hsecond, hend⟩ := hf _ _ _ _ hx.2 hy.2 hr hs hrest
  exact ⟨Prod.ext hfirst hsecond, hend⟩

/-- A list of things, with nothing after it. -/
theorem flatMap_inj (h : Delimits valid after encode) (hne : ∀ a, encode a ≠ [])
    (hnil : after []) (hcons : ∀ a r, valid a → after r → after (encode a ++ r)) {l m : List α}
    (hl : ∀ a ∈ l, valid a) (hm : ∀ a ∈ m, valid a) (hlm : l.flatMap encode = m.flatMap encode) :
    l = m := by
  have hafter : ∀ l : List α, (∀ a ∈ l, valid a) → after (l.flatMap encode) := by
    intro l hl
    induction l with
    | nil => exact hnil
    | cons a l ih =>
        rw [List.forall_mem_cons] at hl
        exact hcons a _ hl.1 (ih hl.2)
  induction l generalizing m with
  | nil =>
      cases m with
      | nil => rfl
      | cons b m => exact absurd (List.append_eq_nil_iff.mp hlm.symm).1 (hne b)
  | cons a l ih =>
      cases m with
      | nil => exact absurd (List.append_eq_nil_iff.mp hlm).1 (hne a)
      | cons b m =>
          rw [List.forall_mem_cons] at hl hm
          obtain ⟨rfl, hrest⟩ := h a b _ _ hl.1 hm.1 (hafter l hl.2) (hafter m hm.2) hlm
          rw [ih hl.2 hm.2 hrest]

end Delimits

/-! ## Numbers of a fixed width -/

/-- `n.to_bytes(width, "big")`, where it is not too big. -/
@[grind =] def bigEndian : Nat → Nat → List UInt8
  | 0, _ => []
  | width + 1, n => bigEndian width (n / 256) ++ [UInt8.ofNat n]

theorem length_bigEndian (width n : Nat) : (bigEndian width n).length = width := by
  induction width generalizing n with
  | zero => rfl
  | succ width ih => rw [bigEndian, List.length_append, ih, List.length_singleton]

theorem bigEndian_inj {width m n : Nat} (hm : m < 256 ^ width) (hn : n < 256 ^ width)
    (h : bigEndian width m = bigEndian width n) : m = n := by
  induction width generalizing m n with
  | zero => omega
  | succ width ih =>
      rw [bigEndian, bigEndian] at h
      obtain ⟨hhigh, hlow⟩ := List.append_inj' h rfl
      rw [Nat.pow_succ] at hm hn
      have hquot := ih (by omega) (by omega) hhigh
      have hbyte : (UInt8.ofNat m).toNat = (UInt8.ofNat n).toNat := by
        rw [List.singleton_inj.mp hlow]
      rw [UInt8.toNat_ofNat', UInt8.toNat_ofNat'] at hbyte
      omega

/-- A number that is smaller by a byte starts with a zero. -/
theorem bigEndian_zero {width n : Nat} (h : n < 256 ^ width) :
    bigEndian (width + 1) n = 0 :: bigEndian width n := by
  induction width generalizing n with
  | zero =>
      have hn : n = 0 := by omega
      subst hn
      rfl
  | succ width ih =>
      have hquot : n / 256 < 256 ^ width := by
        rw [Nat.pow_succ] at h
        omega
      rw [bigEndian, ih hquot, List.cons_append]
      rfl

/-- A text with its length in front, up to a length. -/
theorem Delimits.framed (width : Nat) :
    Delimits (fun t => t.length < 256 ^ width) (fun _ => True)
      fun t => bigEndian width t.length ++ t := by
  intro x y r s hx hy _ _ h
  rw [List.append_assoc, List.append_assoc] at h
  obtain ⟨hlength, hrest⟩ := List.append_inj h (by rw [length_bigEndian, length_bigEndian])
  exact List.append_inj hrest (bigEndian_inj hx hy hlength)

/-! ## Ends that can be seen -/

/-- Texts of one kind of characters, with one of another kind after each. -/
theorem append_inj_of_class {p : β → Prop} {l m r s : List β} (hl : ∀ c ∈ l, p c)
    (hm : ∀ c ∈ m, p c) (hr : ∀ c ∈ r.head?, ¬ p c) (hs : ∀ c ∈ s.head?, ¬ p c)
    (h : l ++ r = m ++ s) : l = m ∧ r = s := by
  induction l generalizing m with
  | nil =>
      cases m with
      | nil => exact ⟨rfl, h⟩
      | cons c m =>
          rw [List.nil_append] at h
          exact absurd (hm c List.mem_cons_self) (hr c (by rw [h]; rfl))
  | cons a l ih =>
      cases m with
      | nil =>
          rw [List.nil_append] at h
          exact absurd (hl a List.mem_cons_self) (hs a (by rw [← h]; rfl))
      | cons c m =>
          obtain ⟨rfl, hrest⟩ := List.cons.inj h
          rw [List.forall_mem_cons] at hl hm
          obtain ⟨rfl, hend⟩ := ih hl.2 hm.2 hrest
          exact ⟨rfl, hend⟩

end Hephaestus.Lib
