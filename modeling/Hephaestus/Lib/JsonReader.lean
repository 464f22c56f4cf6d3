import Hephaestus.Lib.JsonCodec

/-!
# Reading JSON within the interpreter's limits

`json.loads` on any text at all. `JsonCodec.loads` reads what a program wrote
itself; what arrives from outside can also hold a lone surrogate, which the
library keeps, or run into one of two limits of the interpreter: the C scanner
raises RecursionError where arrays and objects nest too deep, and `int` raises
ValueError on a literal of too many digits. Neither is a JSONDecodeError, so the
reader says which of the three it raised.

The limits are reached only by texts that hold enough brackets or digits:
`loads_limits` is a count, and says nothing about where they stand.
-/

namespace Hephaestus.Lib.JsonReader

open Hephaestus.Lib JsonText

/-- What `json.loads` raises. -/
inductive LoadError
  | jsonDecodeError
  | recursionError
  | valueError
  deriving DecidableEq, Repr

/-- The limits of an interpreter, and its floats. -/
structure Interpreter where
  /-- How many arrays and objects the scanner can be inside of. -/
  nesting : Nat
  /-- `sys.get_int_max_str_digits()`, `none` where it is 0. -/
  maxDigits : Option Nat
  floats : FloatText

/-- What `json.loads` returns; a string is its code points. -/
inductive Value
  | null
  | bool (b : Bool)
  | int (n : Int)
  | float (x : PyFloat)
  | str (codePoints : List Nat)
  | arr (items : List Value)
  | obj (fields : List (List Nat × Value))

/-- A value of the word list, which has no strings in it. -/
def Value.ofWord : Json → Value
  | .bool b => .bool b
  | .float x => .float x
  | _ => .null

/-- The code point after `\u`: a high surrogate takes the low one that follows
it, and stands for itself where none does. -/
def readUnicode (t : Text) : Option (Nat × Text) := do
  let (n, rest) ← readHex t
  if 0xd800 ≤ n ∧ n ≤ 0xdbff then
    match rest with
    | '\\' :: 'u' :: after =>
        match readHex after with
        | some (m, after) =>
            if 0xdc00 ≤ m ∧ m ≤ 0xdfff then
              some (0x10000 + 1024 * (n - 0xd800) + (m - 0xdc00), after)
            else some (n, rest)
        | none => some (n, rest)
    | _ => some (n, rest)
  else some (n, rest)

/-- What follows a backslash. -/
def readEscape : Text → Option (Nat × Text)
  | [] => none
  | c :: rest =>
      if c = 'u' then readUnicode rest else (unescape c).map fun d => (d.toNat, rest)

/-- `scanstring` after the opening quote. -/
def readString : Nat → Text → Except LoadError (List Nat × Text)
  | 0, _ => .error .jsonDecodeError
  | _ + 1, [] => .error .jsonDecodeError
  | n + 1, c :: rest =>
      if c = '"' then .ok ([], rest)
      else if c = '\\' then
        match readEscape rest with
        | none => .error .jsonDecodeError
        | some (d, rest) => do
            let (codePoints, rest) ← readString n rest
            .ok (d :: codePoints, rest)
      else if c.toNat < 32 then .error .jsonDecodeError
      else do
        let (codePoints, rest) ← readString n rest
        .ok (c.toNat :: codePoints, rest)

section

variable (py : Interpreter)

/-- `_match_number`: only a literal without fraction and exponent goes through
`int`, and to its limit. -/
def readNumber (t : Text) : Except LoadError (Value × Text) :=
  match readInteger t with
  | none => .error .jsonDecodeError
  | some (negative, digits) =>
      let integer : Text := (if negative then ['-'] else []) ++ digits
      let rest := t.drop integer.length
      let fraction := readFraction rest
      let exponent := readExponent (rest.drop fraction.length)
      if fraction = [] ∧ exponent = [] then
        if py.maxDigits.any fun k => k < digits.length then .error .valueError
        else
          let magnitude : Nat := Nat.ofDigitChars 10 digits 0
          .ok (.int (if negative then -(magnitude : Int) else magnitude), rest)
      else
        .ok (.float (py.floats.parse (integer ++ fraction ++ exponent)),
          (rest.drop fraction.length).drop exponent.length)

/-- `dict(pairs)`: a key keeps its place and takes its last value. -/
def keepLast (pairs : List (List Nat × Value)) : List (List Nat × Value) :=
  pairs.foldl (fun d pair => Dict.set d pair.1 pair.2) []

mutual

/-- `scan_once`, with the room there is to nest in. -/
def scan : Nat → Nat → Text → Except LoadError (Value × Text)
  | 0, _, _ => .error .jsonDecodeError
  | _ + 1, _, [] => .error .jsonDecodeError
  | n + 1, room, c :: rest =>
      if c = '"' then do
        let (codePoints, rest) ← readString n rest
        .ok (.str codePoints, rest)
      else if c = '\x7b' then
        match room with
        | 0 => .error .recursionError
        | room + 1 =>
            if Text.startsWith (skipBlanks rest) ['\x7d'] then
              .ok (.obj [], (skipBlanks rest).drop 1)
            else do
              let (pairs, rest) ← scanFields n room (skipBlanks rest)
              .ok (.obj (keepLast pairs), rest)
      else if c = '[' then
        match room with
        | 0 => .error .recursionError
        | room + 1 =>
            if Text.startsWith (skipBlanks rest) [']'] then
              .ok (.arr [], (skipBlanks rest).drop 1)
            else do
              let (items, rest) ← scanItems n room (skipBlanks rest)
              .ok (.arr items, rest)
      else
        match readWord (c :: rest) with
        | some (value, rest) => .ok (Value.ofWord value, rest)
        | none => readNumber py (c :: rest)

/-- The items of an array up to its bracket. -/
def scanItems : Nat → Nat → Text → Except LoadError (List Value × Text)
  | 0, _, _ => .error .jsonDecodeError
  | n + 1, room, t => do
      let (item, rest) ← scan n room t
      match skipBlanks rest with
      | ',' :: rest => do
          let (items, rest) ← scanItems n room (skipBlanks rest)
          .ok (item :: items, rest)
      | ']' :: rest => .ok ([item], rest)
      | _ => .error .jsonDecodeError

/-- The fields of an object up to its brace. -/
def scanFields : Nat → Nat → Text → Except LoadError (List (List Nat × Value) × Text)
  | 0, _, _ => .error .jsonDecodeError
  | n + 1, room, t =>
      match t with
      | '"' :: rest => do
          let (key, rest) ← readString n rest
          match skipBlanks rest with
          | ':' :: rest => do
              let (value, rest) ← scan n room (skipBlanks rest)
              match skipBlanks rest with
              | ',' :: rest => do
                  let (fields, rest) ← scanFields n room (skipBlanks rest)
                  .ok ((key, value) :: fields, rest)
              | '\x7d' :: rest => .ok ([(key, value)], rest)
              | _ => .error .jsonDecodeError
          | _ => .error .jsonDecodeError
      | _ => .error .jsonDecodeError

end

/-- `json.loads(t)`. A bracket takes two calls, so that the fuel lasts to the end of
any text. -/
def loads (t : Text) : Except LoadError Value := do
  let (value, rest) ← scan py (2 * t.length + 2) py.nesting (skipBlanks t)
  if skipBlanks rest = [] then .ok value else .error .jsonDecodeError

end

/-! ## What reaches a limit

Each reader leaves a suffix of what it was given, and the counts of a suffix are
no larger, so a count at the place where a limit was met bounds the one of the
whole text. -/

/-- A bracket or brace that opens. -/
def opens (c : Char) : Bool :=
  c == '[' || c == '\x7b'

/-- What a reader gives back on `t`, with `room` left to nest in. -/
def Within (py : Interpreter) (room : Nat) (t : Text) {α : Type} :
    Except LoadError (α × Text) → Prop
  | .ok (_, rest) => rest <:+ t
  | .error .recursionError => room < t.countP opens
  | .error .valueError => ∃ k ∈ py.maxDigits, k < t.countP Char.isDigit
  | .error .jsonDecodeError => True

variable {py : Interpreter} {room : Nat} {t : Text} {α β : Type}

theorem Within.of_suffix {u : Text} {r : Except LoadError (α × Text)}
    (h : Within py room u r) (hsuffix : u <:+ t) : Within py room t r := by
  match r with
  | .ok (_, rest) => exact List.IsSuffix.trans h hsuffix
  | .error .recursionError =>
      have hroom : room < u.countP opens := h
      exact Nat.lt_of_lt_of_le hroom hsuffix.sublist.countP_le
  | .error .valueError =>
      obtain ⟨k, hk, hlt⟩ := h
      exact ⟨k, hk, Nat.lt_of_lt_of_le hlt hsuffix.sublist.countP_le⟩
  | .error .jsonDecodeError => trivial

theorem Within.bind {x : Except LoadError (α × Text)} {f : α × Text → Except LoadError (β × Text)}
    (hx : Within py room t x) (hf : ∀ a rest, Within py room rest (f (a, rest))) :
    Within py room t (x >>= f) := by
  match x with
  | .ok (a, rest) => exact (hf a rest).of_suffix hx
  | .error .recursionError => exact hx
  | .error .valueError => exact hx
  | .error .jsonDecodeError => trivial

theorem skipBlanks_suffix (t : Text) : skipBlanks t <:+ t :=
  List.dropWhile_suffix isBlank

theorem readHex_suffix {n : Nat} {rest : Text} (h : readHex t = some (n, rest)) : rest <:+ t := by
  match t with
  | a :: b :: c :: d :: u =>
      simp only [readHex, Option.bind_eq_bind, Option.bind_eq_some_iff, Option.some.injEq,
        Prod.mk.injEq] at h
      obtain ⟨_, _, _, _, _, _, _, _, _, rfl⟩ := h
      exact ⟨[a, b, c, d], rfl⟩
  | [] | [_] | [_, _] | [_, _, _] => cases h

theorem readUnicode_suffix {n : Nat} {rest : Text} (h : readUnicode t = some (n, rest)) :
    rest <:+ t := by
  simp only [readUnicode, Option.bind_eq_bind, Option.bind_eq_some_iff] at h
  obtain ⟨⟨m, u⟩, hm, h⟩ := h
  have hu := readHex_suffix hm
  simp only at h
  split at h
  · split at h
    · next after =>
      split at h
      · next k after' hk =>
        split at h
        · obtain ⟨_, rfl⟩ := Prod.mk.inj (Option.some.inj h)
          exact (readHex_suffix hk).trans (List.IsSuffix.trans ⟨['\\', 'u'], rfl⟩ hu)
        · obtain ⟨_, rfl⟩ := Prod.mk.inj (Option.some.inj h)
          exact hu
      · obtain ⟨_, rfl⟩ := Prod.mk.inj (Option.some.inj h)
        exact hu
    · obtain ⟨_, rfl⟩ := Prod.mk.inj (Option.some.inj h)
      exact hu
  · obtain ⟨_, rfl⟩ := Prod.mk.inj (Option.some.inj h)
    exact hu

theorem readEscape_suffix {n : Nat} {rest : Text} (h : readEscape t = some (n, rest)) :
    rest <:+ t := by
  match t with
  | [] => cases h
  | c :: u =>
      simp only [readEscape] at h
      split at h
      · exact (readUnicode_suffix h).trans (List.suffix_cons c u)
      · obtain ⟨d, _, hd⟩ := Option.map_eq_some_iff.mp h
        obtain ⟨_, rfl⟩ := Prod.mk.inj hd
        exact List.suffix_cons c u

theorem within_readString (n : Nat) (t : Text) : Within py room t (readString n t) := by
  induction n generalizing t with
  | zero => trivial
  | succ n ih =>
      match t with
      | [] => trivial
      | c :: u =>
          have hu : u <:+ c :: u := List.suffix_cons c u
          have hmore : ∀ (d : Nat) {v : Text}, v <:+ c :: u → Within py room (c :: u)
              (do let (codePoints, rest) ← readString n v
                  .ok (d :: codePoints, rest)) := fun d v hv =>
            ((ih v).of_suffix hv).bind fun _ rest => List.suffix_refl rest
          unfold readString
          split
          · exact hu
          · split
            · split
              · trivial
              · next d v hd => exact hmore d ((readEscape_suffix hd).trans hu)
            · split
              · trivial
              · exact hmore c.toNat hu

/-- The digits of an integer stand in the text. -/
theorem digits_readInteger {negative : Bool} {digits : Text}
    (h : readInteger t = some (negative, digits)) : digits.length ≤ t.countP Char.isDigit := by
  have hsuffix : (if Text.startsWith t ['-'] = true then t.drop 1 else t) <:+ t := by
    split
    · exact List.drop_suffix 1 t
    · exact List.suffix_refl t
  unfold readInteger at h
  simp only at h
  generalize (if Text.startsWith t ['-'] = true then t.drop 1 else t) = body at h hsuffix
  refine Nat.le_trans ?_ hsuffix.sublist.countP_le
  match body with
  | [] => cases h
  | c :: rest =>
      simp only at h
      split at h
      · next hc =>
        obtain ⟨_, rfl⟩ := Prod.mk.inj (Option.some.inj h)
        subst hc
        simp
      · split at h
        · next hc =>
          obtain ⟨_, rfl⟩ := Prod.mk.inj (Option.some.inj h)
          have htake : (rest.takeWhile Char.isDigit).length ≤ rest.countP Char.isDigit := by
            rw [← List.countP_eq_length.mpr fun d hd => List.mem_takeWhile_imp hd]
            exact (List.takeWhile_prefix _).sublist.countP_le
          rw [List.countP_cons, if_pos hc]
          simpa using htake
        · cases h

theorem within_readNumber (t : Text) : Within py room t (readNumber py t) := by
  unfold readNumber
  split
  · trivial
  · next negative digits hread =>
    simp only
    generalize (if negative = true then ['-'] else []) ++ digits = integer
    split
    · split
      · next hmax =>
        obtain ⟨k, hk, hlt⟩ := (Option.any_eq_true _ _).mp hmax
        exact ⟨k, hk, Nat.lt_of_lt_of_le (of_decide_eq_true hlt) (digits_readInteger hread)⟩
      · exact List.drop_suffix _ _
    · exact ((List.drop_suffix _ _).trans (List.drop_suffix _ _)).trans (List.drop_suffix _ _)

theorem readWord_suffix {value : Json} {rest : Text} (h : readWord t = some (value, rest)) :
    rest <:+ t := by
  obtain ⟨word, _, hw⟩ := Option.map_eq_some_iff.mp h
  obtain ⟨_, rfl⟩ := Prod.mk.inj hw
  exact List.drop_suffix _ _

/-- One level further in. -/
theorem Within.nested {c : Char} {u : Text} {r : Except LoadError (α × Text)} (hc : opens c = true)
    (h : Within py room u r) : Within py (room + 1) (c :: u) r := by
  match r with
  | .ok (_, rest) => exact List.IsSuffix.trans h (List.suffix_cons c u)
  | .error .recursionError =>
      have hroom : room < u.countP opens := h
      show room + 1 < (c :: u).countP opens
      rw [List.countP_cons, if_pos hc]
      omega
  | .error .valueError =>
      obtain ⟨k, hk, hlt⟩ := h
      exact ⟨k, hk, Nat.lt_of_lt_of_le hlt (List.suffix_cons c u).sublist.countP_le⟩
  | .error .jsonDecodeError => trivial

/-- Where there is no room, the bracket itself is one too many. -/
theorem within_recursionError {c : Char} {u : Text} (hc : opens c = true) :
    Within py 0 (c :: u) (.error .recursionError : Except LoadError (α × Text)) := by
  show 0 < (c :: u).countP opens
  rw [List.countP_cons, if_pos hc]
  omega

mutual

theorem within_scan (n room : Nat) (t : Text) : Within py room t (scan py n room t) := by
  match n, t with
  | 0, _ => unfold scan; trivial
  | _ + 1, [] => unfold scan; trivial
  | n + 1, c :: rest =>
      have hrest : rest <:+ c :: rest := List.suffix_cons c rest
      unfold scan
      split
      · exact ((within_readString n rest).of_suffix hrest).bind fun _ rest => List.suffix_refl rest
      · split
        · next hc =>
          have hopen : opens c = true := by rw [hc]; rfl
          match room with
          | 0 => exact within_recursionError hopen
          | room + 1 =>
              refine Within.nested hopen ?_
              dsimp only
              split
              · exact (List.drop_suffix _ _).trans (skipBlanks_suffix rest)
              · exact ((within_scanFields n room _).of_suffix (skipBlanks_suffix rest)).bind
                  fun _ rest => List.suffix_refl rest
        · split
          · next hc =>
            have hopen : opens c = true := by rw [hc]; rfl
            match room with
            | 0 => exact within_recursionError hopen
            | room + 1 =>
                refine Within.nested hopen ?_
                dsimp only
                split
                · exact (List.drop_suffix _ _).trans (skipBlanks_suffix rest)
                · exact ((within_scanItems n room _).of_suffix (skipBlanks_suffix rest)).bind
                    fun _ rest => List.suffix_refl rest
          · split
            · next hword => exact readWord_suffix hword
            · exact within_readNumber (c :: rest)

theorem within_scanItems (n room : Nat) (t : Text) : Within py room t (scanItems py n room t) := by
  match n with
  | 0 => unfold scanItems; trivial
  | n + 1 =>
      unfold scanItems
      refine (within_scan n room t).bind fun item rest => ?_
      simp only
      split
      · next after hafter =>
        have hsuffix : after <:+ rest :=
          (List.suffix_cons ',' after).trans (hafter ▸ skipBlanks_suffix rest)
        exact ((within_scanItems n room _).of_suffix
          ((skipBlanks_suffix after).trans hsuffix)).bind fun _ rest => List.suffix_refl rest
      · next after hafter =>
        exact (List.suffix_cons ']' after).trans (hafter ▸ skipBlanks_suffix rest)
      · trivial

theorem within_scanFields (n room : Nat) (t : Text) :
    Within py room t (scanFields py n room t) := by
  match n with
  | 0 => unfold scanFields; trivial
  | n + 1 =>
      unfold scanFields
      split
      · next u =>
        refine ((within_readString n u).of_suffix (List.suffix_cons '"' u)).bind fun key rest => ?_
        simp only
        split
        · next after hafter =>
          have hsuffix : after <:+ rest :=
            (List.suffix_cons ':' after).trans (hafter ▸ skipBlanks_suffix rest)
          refine ((within_scan n room _).of_suffix
            ((skipBlanks_suffix after).trans hsuffix)).bind fun value rest => ?_
          simp only
          split
          · next more hmore =>
            have hsuffix : more <:+ rest :=
              (List.suffix_cons ',' more).trans (hmore ▸ skipBlanks_suffix rest)
            exact ((within_scanFields n room _).of_suffix
              ((skipBlanks_suffix more).trans hsuffix)).bind fun _ rest => List.suffix_refl rest
          · next more hmore =>
            exact (List.suffix_cons '\x7d' more).trans (hmore ▸ skipBlanks_suffix rest)
          · trivial
        · trivial
      · trivial

end

/-- A text that reaches a limit holds more brackets than the scanner can be
inside of, or more digits than an integer may have. -/
theorem loads_limits (py : Interpreter) (t : Text) :
    (loads py t = .error .recursionError → py.nesting < t.countP opens) ∧
      (loads py t = .error .valueError →
        ∃ k ∈ py.maxDigits, k < t.countP Char.isDigit) := by
  have hscan : Within py py.nesting t (scan py (2 * t.length + 2) py.nesting (skipBlanks t)) :=
    (within_scan _ _ _).of_suffix (skipBlanks_suffix t)
  unfold loads
  match scan py (2 * t.length + 2) py.nesting (skipBlanks t), hscan with
  | .ok (value, rest), _ =>
      constructor
      all_goals
        intro h
        simp only [Bind.bind, Except.bind] at h
        split at h <;> cases h
  | .error .recursionError, hw => exact ⟨fun _ => hw, nofun⟩
  | .error .valueError, hw => exact ⟨nofun, fun _ => hw⟩
  | .error .jsonDecodeError, _ =>
      constructor
      all_goals
        intro h
        cases h

/-- One bracket more than there is room for. -/
theorem scan_brackets (py : Interpreter) (room : Nat) {n : Nat} (hn : 2 * room + 1 ≤ n) (u : Text) :
    scan py n room (List.replicate (room + 1) '[' ++ u) = .error .recursionError := by
  induction room generalizing n with
  | zero =>
      match n with
      | n + 1 => rfl
  | succ room ih =>
      match n with
      | n + 2 =>
          have hinner := ih (n := n) (by omega)
          have hnext : List.replicate (room + 1 + 1) '[' ++ u
              = '[' :: (List.replicate (room + 1) '[' ++ u) := rfl
          have hblank : skipBlanks (List.replicate (room + 1) '[' ++ u)
              = List.replicate (room + 1) '[' ++ u := rfl
          have hopen : Text.startsWith (List.replicate (room + 1) '[' ++ u) [']'] = false := rfl
          rw [hnext]
          unfold scan
          rw [if_neg (by decide), if_neg (by decide), if_pos rfl]
          simp only [hblank, hopen, Bool.false_eq_true, if_false]
          unfold scanItems
          rw [hinner]
          rfl

/-- Every interpreter has a text that its scanner cannot nest into. -/
theorem loads_brackets (py : Interpreter) (u : Text) :
    loads py (List.replicate (py.nesting + 1) '[' ++ u) = .error .recursionError := by
  have hblank : skipBlanks (List.replicate (py.nesting + 1) '[' ++ u)
      = List.replicate (py.nesting + 1) '[' ++ u := rfl
  unfold loads
  rw [hblank, scan_brackets py py.nesting (by simp; omega) u]
  rfl

end Hephaestus.Lib.JsonReader
