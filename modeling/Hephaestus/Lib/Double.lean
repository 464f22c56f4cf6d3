import Mathlib.Algebra.Ring.Nat
import Mathlib.Data.Nat.Log
import Hephaestus.Lib.Text

/-!
# Whole numbers as doubles

Doubles that are whole numbers, and how they are written with six significant digits. A
sum is the double nearest to it, so that a large total may swallow a small summand, and
the text says the double nearest to its six digits, which need not be the one written.
-/

namespace Hephaestus.Lib

/-- A double that is a whole number or infinite. -/
inductive Double
  | finite (n : Int)
  | infinite (negative : Bool)
  deriving DecidableEq, Repr

namespace Double

def lt : Double → Double → Bool
  | .finite m, .finite n => m < n
  | .finite _, .infinite negative => !negative
  | .infinite negative, .finite _ => negative
  | .infinite negative, .infinite negative' => negative && !negative'

/-- `n / d` to the nearest whole number, from the middle to the even one. -/
def divHalfEven (n d : Nat) : Nat :=
  if 2 * (n % d) < d ∨ (2 * (n % d) = d ∧ n / d % 2 = 0) then n / d else n / d + 1

/-- A number to 53 binary digits. -/
def roundBinary (n : Nat) : Nat :=
  divHalfEven n (2 ^ (Nat.log2 n + 1 - 53)) * 2 ^ (Nat.log2 n + 1 - 53)

/-- `float(n)`, infinite where that overflows. -/
def nearest (n : Int) : Double :=
  if 1024 ≤ Nat.log2 (roundBinary n.natAbs) then .infinite (n < 0)
  else .finite (n.sign * roundBinary n.natAbs)

/-- `x + n` for a finite `n`. -/
def add : Double → Int → Double
  | .finite m, n => nearest (m + n)
  | .infinite negative, _ => .infinite negative

/-! ## Order -/

theorem divHalfEven_mul {q d : Nat} (hd : 0 < d) : divHalfEven (q * d) d = q := by
  simp [divHalfEven, Nat.mul_mod_left, Nat.mul_div_cancel _ hd, hd]

theorem divHalfEven_bounds (n d : Nat) : n / d ≤ divHalfEven n d ∧ divHalfEven n d ≤ n / d + 1 := by
  unfold divHalfEven
  split <;> omega

theorem divHalfEven_mono {n k d : Nat} (h : n ≤ k) : divHalfEven n d ≤ divHalfEven k d := by
  have hdiv : n / d ≤ k / d := Nat.div_le_div_right h
  rcases Nat.lt_or_ge (n / d) (k / d) with hlt | hge
  · have hn := (divHalfEven_bounds n d).2
    have hk := (divHalfEven_bounds k d).1
    omega
  · -- In one quotient the remainders are in order.
    have hsame : n / d = k / d := Nat.le_antisymm hdiv hge
    have hn := Nat.div_add_mod n d
    have hk := Nat.div_add_mod k d
    rw [hsame] at hn
    unfold divHalfEven
    rw [hsame]
    split
    · split <;> omega
    · next hup =>
      rw [if_neg (by omega)]

/-- A number of 53 digits with zeros after them is a double. -/
theorem roundBinary_shift {q e : Nat} (h : q ≤ 2 ^ 53) : roundBinary (q * 2 ^ e) = q * 2 ^ e := by
  have hdvd : 2 ^ (Nat.log2 (q * 2 ^ e) + 1 - 53) ∣ q * 2 ^ e := by
    by_cases hzero : q * 2 ^ e = 0
    · rw [hzero]
      exact Nat.dvd_zero _
    have hlog : 2 ^ Nat.log2 (q * 2 ^ e) ≤ q * 2 ^ e := Nat.log2_self_le hzero
    have hle : q * 2 ^ e ≤ 2 ^ (53 + e) := by
      rw [Nat.pow_add]
      exact Nat.mul_le_mul_right _ h
    have hexp : Nat.log2 (q * 2 ^ e) ≤ 53 + e :=
      (Nat.pow_le_pow_iff_right (by omega)).mp (hlog.trans hle)
    rcases Nat.lt_or_ge (Nat.log2 (q * 2 ^ e)) (53 + e) with hlt | hge
    · exact Nat.dvd_trans (Nat.pow_dvd_pow 2 (by omega)) (Nat.dvd_mul_left _ _)
    · have htop : q * 2 ^ e = 2 ^ (53 + e) := by
        refine Nat.le_antisymm hle ?_
        rw [show 53 + e = Nat.log2 (q * 2 ^ e) by omega]
        exact hlog
      rw [htop]
      refine Nat.pow_dvd_pow 2 ?_
      rw [Nat.log2_two_pow]
      omega
  unfold roundBinary
  rw [Nat.mul_comm (divHalfEven _ _)]
  obtain ⟨k, hk⟩ := hdvd
  have hpos : 0 < 2 ^ (Nat.log2 (q * 2 ^ e) + 1 - 53) := Nat.two_pow_pos _
  have hself : divHalfEven (q * 2 ^ e) (2 ^ (Nat.log2 (q * 2 ^ e) + 1 - 53)) = k := by
    generalize 2 ^ (Nat.log2 (q * 2 ^ e) + 1 - 53) = d at hk hpos
    rw [hk, Nat.mul_comm, divHalfEven_mul hpos]
  rw [hself, ← hk]

/-- What is rounded is a double. -/
theorem roundBinary_roundBinary (n : Nat) : roundBinary (roundBinary n) = roundBinary n := by
  have hq : divHalfEven n (2 ^ (Nat.log2 n + 1 - 53)) ≤ 2 ^ 53 := by
    have hlt : n < 2 ^ 53 * 2 ^ (Nat.log2 n + 1 - 53) := by
      rw [← Nat.pow_add]
      refine Nat.lt_of_lt_of_le Nat.lt_log2_self (Nat.pow_le_pow_right (by omega) (by omega))
    have hdiv := Nat.div_lt_of_lt_mul (Nat.mul_comm (2 ^ 53) _ ▸ hlt)
    have hup := (divHalfEven_bounds n (2 ^ (Nat.log2 n + 1 - 53))).2
    omega
  exact roundBinary_shift hq

/-- Rounding to multiples of `d` does not pass one of them. -/
theorem divHalfEven_le {n p d : Nat} (hd : 0 < d) (hdvd : d ∣ p) (h : n ≤ p) :
    divHalfEven n d * d ≤ p := by
  obtain ⟨q, rfl⟩ := hdvd
  have hmono := divHalfEven_mono (d := d) h
  rw [Nat.mul_comm d q, divHalfEven_mul hd] at hmono
  rw [Nat.mul_comm d q]
  exact Nat.mul_le_mul_right d hmono

theorem le_divHalfEven {n p d : Nat} (hd : 0 < d) (hdvd : d ∣ p) (h : p ≤ n) :
    p ≤ divHalfEven n d * d := by
  obtain ⟨q, rfl⟩ := hdvd
  have hmono := divHalfEven_mono (d := d) h
  rw [Nat.mul_comm d q, divHalfEven_mul hd] at hmono
  rw [Nat.mul_comm d q]
  exact Nat.mul_le_mul_right d hmono

theorem roundBinary_mono {n k : Nat} (h : n ≤ k) : roundBinary n ≤ roundBinary k := by
  by_cases hn : n = 0
  · subst hn
    exact Nat.zero_le _
  have hk : k ≠ 0 := by omega
  have hlog : Nat.log2 n ≤ Nat.log2 k := (Nat.le_log2 hk).mpr ((Nat.log2_self_le hn).trans h)
  rcases Nat.lt_or_ge (Nat.log2 n) (Nat.log2 k) with hlt | hge
  · -- There is a power of two between them.
    calc roundBinary n ≤ 2 ^ (Nat.log2 n + 1) :=
          divHalfEven_le (Nat.two_pow_pos _) (Nat.pow_dvd_pow 2 (by omega)) (Nat.le_of_lt Nat.lt_log2_self)
      _ ≤ 2 ^ Nat.log2 k := Nat.pow_le_pow_right (by omega) hlt
      _ ≤ roundBinary k :=
          le_divHalfEven (Nat.two_pow_pos _) (Nat.pow_dvd_pow 2 (by omega)) (Nat.log2_self_le hk)
  · rw [roundBinary, roundBinary, Nat.le_antisymm hlog hge]
    exact Nat.mul_le_mul_right _ (divHalfEven_mono h)

/-- A double that a sum can leave, of what is not negative. -/
def IsTotal (x : Double) : Prop :=
  x = .infinite false ∨ ∃ n : Nat, x = .finite n ∧ roundBinary n = n

theorem nearest_natCast (n : Nat) : nearest (n : Int)
    = if 1024 ≤ Nat.log2 (roundBinary n) then .infinite false else .finite (roundBinary n : Nat) := by
  have hsign : (n : Int).sign * (roundBinary n : Nat) = (roundBinary n : Nat) := by
    rcases Nat.eq_zero_or_pos n with rfl | hpos
    · rfl
    · rw [Int.sign_eq_one_of_pos (by omega), Int.one_mul]
  rw [nearest, Int.natAbs_natCast, hsign, decide_eq_false (by omega)]

/-- To add what is not negative makes a total no smaller. -/
theorem IsTotal.add {x : Double} (h : IsTotal x) {n : Int} (hn : 0 ≤ n) :
    IsTotal (x.add n) ∧ lt (x.add n) x = false := by
  rcases h with rfl | ⟨m, rfl, hm⟩
  · exact ⟨.inl rfl, rfl⟩
  · obtain ⟨k, rfl⟩ := Int.eq_ofNat_of_zero_le hn
    have hle : m ≤ roundBinary (m + k) := by
      rw [← hm]
      conv_rhs => rw [hm]
      exact roundBinary_mono (Nat.le_add_right m k)
    have hadd : (finite (m : Int)).add (k : Int) = nearest ((m + k : Nat) : Int) := rfl
    rw [hadd, nearest_natCast]
    split
    · exact ⟨.inl rfl, rfl⟩
    · refine ⟨.inr ⟨_, rfl, roundBinary_roundBinary _⟩, ?_⟩
      simpa [lt] using hle

theorem isTotal_zero : IsTotal (.finite 0) := .inr ⟨0, rfl, rfl⟩

theorem lt_self (x : Double) : lt x x = false := by
  cases x with
  | finite n => simp [lt]
  | infinite negative => cases negative <;> rfl

theorem lt_trans_false {x y z : Double} (hxy : lt y x = false) (hyz : lt z y = false) :
    lt z x = false := by
  cases x <;> cases y <;> cases z <;> simp_all [lt]
  · omega

/-! ## Six digits -/

/-- A number to six significant digits: the digits, and how many zeros follow them. -/
def sixDigits (n : Nat) : Nat × Nat :=
  if n < 10 ^ 6 then (n, 0)
  else
    let zeros := Nat.log 10 n - 5
    let digits := divHalfEven n (10 ^ zeros)
    if digits = 10 ^ 6 then (10 ^ 5, zeros + 1) else (digits, zeros)

/-- What is left of digits without the zeros at the end. -/
def stripZeros (digits : Text) : Text := (digits.reverse.dropWhile (· = '0')).reverse

/-- `e+06`. -/
def exponentText (n : Nat) : Text :=
  let digits := Nat.toDigits 10 n
  'e' :: '+' :: (if digits.length < 2 then '0' :: digits else digits)

/-- `format(n, "g")` for a natural number. -/
def formatNat (n : Nat) : Text :=
  let (m, zeros) := sixDigits n
  let digits := Nat.toDigits 10 m
  if zeros = 0 then digits
  else
    let fraction := stripZeros (digits.drop 1)
    digits.take 1 ++ (if fraction = [] then [] else '.' :: fraction) ++ exponentText (zeros + 5)

/-- `format(x, "g")`, with the sign that is given to infinity. -/
def format : Double → Text
  | .finite n => (if n < 0 then ['-'] else []) ++ formatNat n.natAbs
  | .infinite negative => (if negative then '-' else '+') :: "Inf".toList

/-! ## Reading -/

/-- An exponent, with what is after the number. -/
def readExponent : Text → Option Int
  | [] => some 0
  | c :: rest =>
      let digits := if rest.head? = some '+' ∨ rest.head? = some '-' then rest.drop 1 else rest
      let exponent : Int := Nat.ofDigitChars 10 digits 0
      if (c = 'e' ∨ c = 'E') ∧ digits ≠ [] ∧ digits.all Char.isDigit then
        some (if rest.head? = some '-' then -exponent else exponent)
      else none

/-- `digits` with the point moved, if that is a whole number. -/
def shiftPoint (digits : Nat) (places : Int) : Option Nat :=
  if 0 ≤ places then some (digits * 10 ^ places.toNat)
  else if 10 ^ (-places).toNat ∣ digits then some (digits / 10 ^ (-places).toNat)
  else none

/-- The digits after the point, if there is one. -/
def fractionOf (t : Text) : Text :=
  if t.head? = some '.' then (t.drop 1).takeWhile Char.isDigit else []

/-- A number in decimal: digits, a fraction and an exponent. One that is not whole is not
read. -/
def readDecimal (t : Text) : Option Nat := do
  let whole := t.takeWhile Char.isDigit
  let rest := t.drop whole.length
  let fraction := fractionOf rest
  let exponent ← readExponent (if rest.head? = some '.' then rest.drop (fraction.length + 1) else rest)
  if whole = [] then none
  else shiftPoint (Nat.ofDigitChars 10 (whole ++ fraction) 0) (exponent - fraction.length)

/-- A number with its sign, to the nearest double. -/
def read (t : Text) : Option Double :=
  if t = "+Inf".toList then some (.infinite false)
  else if t = "-Inf".toList then some (.infinite true)
  else if t.head? = some '-' then (readDecimal (t.drop 1)).map fun n : Nat => nearest (-n)
  else (readDecimal t).map fun n : Nat => nearest n

/-- What is read of a double that was written. -/
def written : Double → Double
  | .finite n => nearest (n.sign * ((sixDigits n.natAbs).1 * 10 ^ (sixDigits n.natAbs).2 : Nat))
  | .infinite negative => .infinite negative

/-- The six digits say which double it is. -/
def IsShort (x : Double) : Prop := written x = x

/-! ### What is written is read -/

theorem sixDigits_spec (n : Nat) :
    (n < 10 ^ 6 ∧ sixDigits n = (n, 0))
      ∨ (10 ^ 5 ≤ (sixDigits n).1 ∧ (sixDigits n).1 < 10 ^ 6 ∧ 0 < (sixDigits n).2) := by
  unfold sixDigits
  split
  · next h => exact Or.inl ⟨h, rfl⟩
  · next h =>
    refine Or.inr ?_
    have hlog : 6 ≤ Nat.log 10 n := (Nat.le_log_iff_pow_le (by omega) (by omega)).mpr (by omega)
    have hlow : 10 ^ Nat.log 10 n ≤ n := Nat.pow_log_le_self 10 (by omega)
    have hhigh : n < 10 ^ (Nat.log 10 n + 1) := Nat.lt_pow_succ_log_self (by omega) n
    obtain ⟨z, hz⟩ := Nat.exists_eq_add_of_le hlog
    have hzeros : Nat.log 10 n - 5 = z + 1 := by omega
    rw [hz, Nat.add_comm 6 z, Nat.pow_add] at hlow
    rw [hz, show 6 + z + 1 = (z + 1) + 6 by omega, Nat.pow_add] at hhigh
    rw [hzeros]
    have hquot : 10 ^ 5 ≤ n / 10 ^ (z + 1) := by
      rw [Nat.le_div_iff_mul_le (Nat.pow_pos (by omega)), Nat.pow_succ]
      omega
    have hquot' : n / 10 ^ (z + 1) < 10 ^ 6 := by
      rw [Nat.div_lt_iff_lt_mul (Nat.pow_pos (by omega))]
      omega
    have hround : divHalfEven n (10 ^ (z + 1)) = n / 10 ^ (z + 1)
        ∨ divHalfEven n (10 ^ (z + 1)) = n / 10 ^ (z + 1) + 1 := by
      unfold divHalfEven
      split
      · exact Or.inl rfl
      · exact Or.inr rfl
    dsimp only
    split
    · exact ⟨Nat.le_refl _, by omega, by omega⟩
    · next hne =>
      refine ⟨?_, ?_, by omega⟩
      · show 10 ^ 5 ≤ divHalfEven n (10 ^ (z + 1))
        omega
      · show divHalfEven n (10 ^ (z + 1)) < 10 ^ 6
        omega

theorem stripZeros_append (digits : Text) :
    ∃ zeros, digits = stripZeros digits ++ List.replicate zeros '0' := by
  refine ⟨(digits.reverse.takeWhile (· = '0')).length, ?_⟩
  have hzeros : digits.reverse.takeWhile (· = '0')
      = List.replicate (digits.reverse.takeWhile (· = '0')).length '0' := by
    refine List.eq_replicate_of_mem fun c hc => ?_
    have hzero := List.mem_takeWhile_imp hc
    exact of_decide_eq_true hzero
  calc digits
      = (digits.reverse.takeWhile (· = '0') ++ digits.reverse.dropWhile (· = '0')).reverse := by
        rw [List.takeWhile_append_dropWhile, List.reverse_reverse]
    _ = stripZeros digits ++ (digits.reverse.takeWhile (· = '0')).reverse := List.reverse_append
    _ = _ := by
        rw [hzeros, List.reverse_replicate, List.length_replicate]

theorem isDigit_of_mem_stripZeros {digits : Text} (h : ∀ c ∈ digits, c.isDigit = true) :
    ∀ c ∈ stripZeros digits, c.isDigit = true := by
  obtain ⟨zeros, hzeros⟩ := stripZeros_append digits
  intro c hc
  refine h c ?_
  rw [hzeros]
  exact List.mem_append_left _ hc

/-- What follows the digits of a number that has an exponent. -/
theorem readExponent_exponentText (n : Nat) : readExponent (exponentText n) = some (n : Int) := by
  have hmem : ∀ c ∈ Nat.toDigits 10 n, c.isDigit = true :=
    fun c hc => Nat.isDigit_of_mem_toDigits (by omega) (by omega) hc
  have hread : ∀ digits, digits ≠ [] → (∀ c ∈ digits, c.isDigit = true) →
      Nat.ofDigitChars 10 digits 0 = n → readExponent ('e' :: '+' :: digits) = some (n : Int) := by
    intro digits hne hmem hvalue
    unfold readExponent
    simp only [List.head?_cons, true_or, if_true, List.drop_succ_cons, List.drop_zero, hvalue]
    rw [if_pos ⟨trivial, hne, List.all_eq_true.mpr hmem⟩]
    rfl
  unfold exponentText
  dsimp only
  split
  · refine hread _ (List.cons_ne_nil _ _) ?_ ?_
    · rw [List.forall_mem_cons]
      exact ⟨rfl, hmem⟩
    · rw [Nat.ofDigitChars_cons]
      exact Nat.ofDigitChars_ten_toDigits
  · exact hread _ Nat.toDigits_ne_nil hmem Nat.ofDigitChars_ten_toDigits

theorem takeWhile_isDigit {digits : Text} (h : ∀ c ∈ digits, c.isDigit = true) {rest : Text}
    (hrest : ∀ c ∈ rest.head?, c.isDigit = false) :
    (digits ++ rest).takeWhile Char.isDigit = digits := by
  rw [List.takeWhile_append_of_pos h]
  cases rest with
  | nil => simp
  | cons c rest => simp [hrest c rfl]

theorem readDecimal_digits (n : Nat) : readDecimal (Nat.toDigits 10 n) = some n := by
  have hmem : ∀ c ∈ Nat.toDigits 10 n, c.isDigit = true :=
    fun c hc => Nat.isDigit_of_mem_toDigits (by omega) (by omega) hc
  have hnone : ∀ c ∈ ([] : Text).head?, c.isDigit = false := by
    intro c hc
    cases hc
  have htake := takeWhile_isDigit hmem hnone
  rw [List.append_nil] at htake
  unfold readDecimal
  dsimp only
  rw [htake, List.drop_length]
  simp [fractionOf, readExponent, shiftPoint]

/-- A digit, the digits after the point without the zeros at the end, and the exponent. -/
theorem readDecimal_scientific {d : Char} {digits : Text} (hd : d.isDigit = true)
    (hdigits : ∀ c ∈ digits, c.isDigit = true) {n : Nat} (hn : digits.length ≤ n) :
    readDecimal ([d] ++ (if stripZeros digits = [] then [] else '.' :: stripZeros digits)
        ++ exponentText n)
      = some (Nat.ofDigitChars 10 (d :: digits) 0 * 10 ^ (n - digits.length)) := by
  obtain ⟨zeros, hzeros⟩ := stripZeros_append digits
  have hfraction := isDigit_of_mem_stripZeros hdigits
  have hlength : digits.length = (stripZeros digits).length + zeros := by
    conv_lhs => rw [hzeros]
    rw [List.length_append, List.length_replicate]
  have hvalue : Nat.ofDigitChars 10 (d :: digits) 0
      = 10 ^ zeros * Nat.ofDigitChars 10 ([d] ++ stripZeros digits) 0 := by
    conv_lhs => rw [hzeros]
    rw [← List.singleton_append, ← List.append_assoc, Nat.ofDigitChars_append,
      Nat.ofDigitChars_replicate_zero]
  have hshift : shiftPoint (Nat.ofDigitChars 10 ([d] ++ stripZeros digits) 0)
      ((n : Int) - (stripZeros digits).length)
      = some (Nat.ofDigitChars 10 (d :: digits) 0 * 10 ^ (n - digits.length)) := by
    have hplaces : ((n : Int) - (stripZeros digits).length).toNat = zeros + (n - digits.length) := by
      omega
    rw [shiftPoint, if_pos (by omega), hplaces, hvalue, Nat.pow_add, ← Nat.mul_assoc,
      Nat.mul_comm (10 ^ zeros)]
  generalize stripZeros digits = fraction at hfraction hshift ⊢
  have hexponent : ∀ c ∈ (exponentText n).head?, c.isDigit = false := by
    intro c hc
    rw [← Option.some.inj hc]
    rfl
  have hhead : (exponentText n).head? ≠ some '.' := by
    intro hdot
    exact absurd (Option.some.inj hdot) (by decide)
  have hsingle : ∀ c ∈ [d], c.isDigit = true := by
    intro c hc
    rw [List.mem_singleton.mp hc]
    exact hd
  unfold readDecimal
  dsimp only
  split
  · next hnil =>
    subst hnil
    rw [List.append_nil, takeWhile_isDigit hsingle hexponent, List.drop_left, if_neg hhead,
      readExponent_exponentText, fractionOf, if_neg hhead]
    exact hshift
  · rw [List.append_assoc, takeWhile_isDigit hsingle (fun c hc => by
      rw [← Option.some.inj hc]
      rfl), List.drop_left]
    have hpoint : ('.' :: fraction ++ exponentText n).head? = some '.' := rfl
    have hfractionOf : fractionOf ('.' :: fraction ++ exponentText n) = fraction := by
      rw [fractionOf, if_pos hpoint]
      exact takeWhile_isDigit hfraction hexponent
    rw [hfractionOf, if_pos hpoint]
    have hdrop : ('.' :: fraction ++ exponentText n).drop (fraction.length + 1) = exponentText n := by
      rw [List.cons_append, List.drop_succ_cons, List.drop_left]
    rw [hdrop, readExponent_exponentText]
    exact hshift

theorem readDecimal_formatNat (n : Nat) :
    readDecimal (formatNat n) = some ((sixDigits n).1 * 10 ^ (sixDigits n).2) := by
  unfold formatNat
  rcases sixDigits_spec n with ⟨_, hexact⟩ | ⟨hlow, hhigh, hzeros⟩
  · rw [hexact]
    simp [readDecimal_digits]
  · generalize sixDigits n = result at hlow hhigh hzeros
    obtain ⟨m, zeros⟩ := result
    dsimp only at hlow hhigh hzeros ⊢
    have hlength : (Nat.toDigits 10 m).length = 6 := by
      have hle : (Nat.toDigits 10 m).length ≤ 6 :=
        (Nat.length_toDigits_le_iff (by omega) (by omega)).mpr hhigh
      have hgt : ¬ (Nat.toDigits 10 m).length ≤ 5 := by
        rw [Nat.length_toDigits_le_iff (by omega) (by omega)]
        omega
      omega
    have hmem : ∀ c ∈ Nat.toDigits 10 m, c.isDigit = true :=
      fun c hc => Nat.isDigit_of_mem_toDigits (by omega) (by omega) hc
    have hvalue : Nat.ofDigitChars 10 (Nat.toDigits 10 m) 0 = m := Nat.ofDigitChars_ten_toDigits
    rw [if_neg (by omega)]
    generalize Nat.toDigits 10 m = all at hlength hmem hvalue
    cases all with
    | nil => cases hlength
    | cons d digits =>
        rw [List.forall_mem_cons] at hmem
        rw [List.length_cons] at hlength
        have hread := readDecimal_scientific hmem.1 hmem.2 (n := zeros + 5) (by omega)
        rw [hvalue, show zeros + 5 - digits.length = zeros by omega] at hread
        exact hread

/-- A number that is written starts with a digit. -/
theorem formatNat_head (n : Nat) : ∃ d rest, formatNat n = d :: rest ∧ d.isDigit = true := by
  have hmem : ∀ c ∈ Nat.toDigits 10 (sixDigits n).1, c.isDigit = true :=
    fun c hc => Nat.isDigit_of_mem_toDigits (by omega) (by omega) hc
  unfold formatNat
  dsimp only
  cases hdigits : Nat.toDigits 10 (sixDigits n).1 with
  | nil => exact absurd hdigits Nat.toDigits_ne_nil
  | cons d digits =>
      rw [hdigits, List.forall_mem_cons] at hmem
      split
      · exact ⟨d, digits, rfl, hmem.1⟩
      · exact ⟨d, _, rfl, hmem.1⟩

/-- The characters of a number. -/
theorem mem_format {x : Double} {c : Char} (h : c ∈ format x) :
    c.isDigit = true ∨ c ∈ "+-.eInf".toList := by
  have hdigits : ∀ {n : Nat} {c : Char}, c ∈ Nat.toDigits 10 n → c.isDigit = true :=
    fun hc => Nat.isDigit_of_mem_toDigits (by omega) (by omega) hc
  have hnat : ∀ (n : Nat) (c : Char), c ∈ formatNat n →
      c.isDigit = true ∨ c ∈ "+-.eInf".toList := by
    intro n c hc
    unfold formatNat at hc
    dsimp only at hc
    split at hc
    · exact Or.inl (hdigits hc)
    · rcases List.mem_append.mp hc with hc | hc
      · rcases List.mem_append.mp hc with hc | hc
        · exact Or.inl (hdigits (List.mem_of_mem_take hc))
        · split at hc
          · cases hc
          · rcases List.mem_cons.mp hc with rfl | hc
            · exact Or.inr (by decide)
            · exact Or.inl (isDigit_of_mem_stripZeros (fun d hd => hdigits (List.mem_of_mem_drop hd))
                c hc)
      · unfold exponentText at hc
        rcases List.mem_cons.mp hc with rfl | hc
        · exact Or.inr (by decide)
        · rcases List.mem_cons.mp hc with rfl | hc
          · exact Or.inr (by decide)
          · split at hc
            · rcases List.mem_cons.mp hc with rfl | hc
              · exact Or.inl rfl
              · exact Or.inl (hdigits hc)
            · exact Or.inl (hdigits hc)
  cases x with
  | finite n =>
      rcases List.mem_append.mp h with hsign | hc
      · split at hsign
        · rw [List.mem_singleton.mp hsign]
          exact Or.inr (by decide)
        · cases hsign
      · exact hnat _ c hc
  | infinite negative =>
      right
      cases negative with
      | true =>
          have hall : "-Inf".toList ⊆ "+-.eInf".toList := by decide
          exact hall h
      | false =>
          have hall : "+Inf".toList ⊆ "+-.eInf".toList := by decide
          exact hall h

theorem format_ne_nil (x : Double) : format x ≠ [] := by
  cases x with
  | infinite negative => exact List.cons_ne_nil _ _
  | finite n =>
      obtain ⟨d, rest, hformat, _⟩ := formatNat_head n.natAbs
      rw [format, hformat]
      simp

/-- What is read is the double that the six digits say. -/
theorem read_format (x : Double) : read (format x) = some (written x) := by
  cases x with
  | infinite negative =>
      cases negative with
      | true => rfl
      | false => rfl
  | finite n =>
      obtain ⟨d, rest, hformat, hd⟩ := formatNat_head n.natAbs
      have hsign : ∀ c : Char, c.isDigit = false → d ≠ c := by
        intro c hc heq
        rw [heq, hc] at hd
        cases hd
      have hread := readDecimal_formatNat n.natAbs
      rw [format, written, read]
      by_cases hneg : n < 0
      · have hdash : ('-' :: formatNat n.natAbs).head? = some '-' := rfl
        rw [if_pos hneg, List.singleton_append, if_neg, if_neg, if_pos hdash, List.drop_succ_cons,
          List.drop_zero, hread, Int.sign_eq_neg_one_of_neg hneg]
        · simp
        · rw [hformat]
          intro heq
          exact hsign 'I' rfl (List.cons.inj (List.cons.inj heq).2).1
        · intro heq
          exact absurd (List.cons.inj heq).1 (by decide)
      · rw [if_neg hneg, List.nil_append, if_neg, if_neg, if_neg, hread]
        · by_cases hzero : n = 0
          · subst hzero
            rfl
          · rw [Int.sign_eq_one_of_pos (by omega)]
            simp
        · rw [hformat]
          intro heq
          exact hsign '-' rfl (Option.some.inj heq)
        · rw [hformat]
          intro heq
          exact hsign '-' rfl (List.cons.inj heq).1
        · rw [hformat]
          intro heq
          exact hsign '+' rfl (List.cons.inj heq).1

end Double

end Hephaestus.Lib
