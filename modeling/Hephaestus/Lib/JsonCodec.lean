import Mathlib.Algebra.Ring.Nat
import Mathlib.Data.List.Sort
import Hephaestus.Lib.Json
import Hephaestus.Lib.JsonText

/-!
# Writing and reading JSON values

`json.dumps(value, sort_keys=True, separators=(",", ":"))` and `json.loads`.
The writer sorts the fields of every object and renders what results; the
reader is the recursive descent of the library, each alternative in its order.
A value without floats whose objects have no key twice comes back from its text
as it is, so what a document holds after it was written and read is the sorted
value, whatever its strings are.

The reader is on fuel. A call consumes a character before it calls again, so the
length of the text is enough, which is what the round trip shows for the texts
the writer makes.
-/

namespace Hephaestus.Lib.JsonText

open Hephaestus.Lib

/-! ## Sorting the fields -/

/-- `sorted(fields.items())` by the keys. -/
def sortFields {α : Type} (fields : List (String × α)) : List (String × α) :=
  fields.insertionSort fun a b => Text.sortsBefore b.1.toList a.1.toList = false

mutual

/-- The value whose objects are sorted throughout. -/
def sorted : Json → Json
  | .arr items => .arr (sortedItems items)
  | .obj fields => .obj (sortFields (sortedFields fields))
  | .null => .null
  | .bool b => .bool b
  | .int n => .int n
  | .float x => .float x
  | .str text => .str text

def sortedItems : List Json → List Json
  | [] => []
  | item :: items => sorted item :: sortedItems items

def sortedFields : List (String × Json) → List (String × Json)
  | [] => []
  | (key, value) :: fields => (key, sorted value) :: sortedFields fields

end

/-! ## The writer -/

/-- `repr(x)` and `float(text)`. -/
structure FloatText where
  repr : PyFloat → Text
  parse : Text → PyFloat

/-- `str(n)`. -/
def decimalInt : Int → Text
  | .ofNat n => Nat.toDigits 10 n
  | .negSucc n => '-' :: Nat.toDigits 10 (n + 1)

mutual

/-- The text of a value, the fields in the order they are in. -/
def render (floats : FloatText) : Json → Text
  | .null => "null".toList
  | .bool b => if b then "true".toList else "false".toList
  | .int n => decimalInt n
  | .float x => floats.repr x
  | .str text => dumpsStr text.toList
  | .arr [] => "[]".toList
  | .arr (item :: items) => '[' :: (render floats item ++ renderItems floats items)
  | .obj [] => "\x7b\x7d".toList
  | .obj ((key, value) :: fields) =>
      '\x7b' :: (dumpsStr key.toList ++ ':' :: (render floats value ++ renderFields floats fields))

/-- The items after the first, and the bracket. -/
def renderItems (floats : FloatText) : List Json → Text
  | [] => [']']
  | item :: items => ',' :: (render floats item ++ renderItems floats items)

/-- The fields after the first, and the brace. -/
def renderFields (floats : FloatText) : List (String × Json) → Text
  | [] => ['\x7d']
  | (key, value) :: fields =>
      ',' :: (dumpsStr key.toList ++ ':' :: (render floats value ++ renderFields floats fields))

end

/-- `json.dumps(value, sort_keys=True, separators=(",", ":"))`. -/
def dumps (floats : FloatText) (value : Json) : Text :=
  render floats (sorted value)

/-! ## The reader -/

/-- White space between tokens. -/
def isBlank (c : Char) : Bool :=
  c == ' ' || c == '\t' || c == '\n' || c == '\r'

def skipBlanks (t : Text) : Text :=
  t.dropWhile isBlank

/-- `int(c, 16)`. -/
def hexValue (c : Char) : Option Nat :=
  let n := c.toNat
  if 48 ≤ n ∧ n ≤ 57 then some (n - 48)
  else if 97 ≤ n ∧ n ≤ 102 then some (n - 87)
  else if 65 ≤ n ∧ n ≤ 70 then some (n - 55)
  else none

/-- `_decode_uXXXX`. -/
def readHex : Text → Option (Nat × Text)
  | a :: b :: c :: d :: rest => do
      let a ← hexValue a
      let b ← hexValue b
      let c ← hexValue c
      let d ← hexValue d
      some (4096 * a + 256 * b + 16 * c + d, rest)
  | _ => none

/-- What follows `\u`. A surrogate alone is no character of a `Text`: it is
refused here, where the library keeps it. -/
def readUnicode (t : Text) : Option (Char × Text) := do
  let (n, rest) ← readHex t
  if 0xd800 ≤ n ∧ n ≤ 0xdbff then
    match rest with
    | '\\' :: 'u' :: rest => do
        let (m, rest) ← readHex rest
        if 0xdc00 ≤ m ∧ m ≤ 0xdfff then
          some (Char.ofNat (0x10000 + 1024 * (n - 0xd800) + (m - 0xdc00)), rest)
        else none
    | _ => none
  else if 0xdc00 ≤ n ∧ n ≤ 0xdfff then none
  else some (Char.ofNat n, rest)

/-- `BACKSLASH`. -/
def unescape (c : Char) : Option Char :=
  if c = '"' ∨ c = '\\' ∨ c = '/' then some c
  else if c = 'n' then some '\n'
  else if c = 'r' then some '\r'
  else if c = 't' then some '\t'
  else if c = 'b' then some (Char.ofNat 8)
  else if c = 'f' then some (Char.ofNat 12)
  else none

/-- What follows a backslash. -/
def readEscape : Text → Option (Char × Text)
  | [] => none
  | c :: rest => if c = 'u' then readUnicode rest else (unescape c).map fun d => (d, rest)

/-- `scanstring` after the opening quote. -/
def readString : Nat → Text → Option (Text × Text)
  | 0, _ => none
  | _ + 1, [] => none
  | n + 1, c :: rest =>
      if c = '"' then some ([], rest)
      else if c = '\\' then
        match readEscape rest with
        | none => none
        | some (d, rest) => (readString n rest).map fun read => (d :: read.1, read.2)
      else if c.toNat < 32 then none
      else (readString n rest).map fun read => (c :: read.1, read.2)

/-- `(\.[0-9]+)?`, what it takes. -/
def readFraction : Text → Text
  | '.' :: rest =>
      if rest.takeWhile Char.isDigit = [] then [] else '.' :: rest.takeWhile Char.isDigit
  | _ => []

/-- `([eE][-+]?[0-9]+)?`, what it takes. -/
def readExponent : Text → Text
  | e :: rest =>
      if e = 'e' ∨ e = 'E' then
        let sign := match rest with
          | s :: _ => if s = '+' ∨ s = '-' then [s] else []
          | [] => []
        let digits := (rest.drop sign.length).takeWhile Char.isDigit
        if digits = [] then [] else e :: (sign ++ digits)
      else []
  | [] => []

/-- `-?(?:0|[1-9][0-9]*)`, the sign and the digits. -/
def readInteger (t : Text) : Option (Bool × Text) :=
  let negative := Text.startsWith t ['-']
  let body := if negative then t.drop 1 else t
  match body with
  | [] => none
  | c :: rest =>
      if c = '0' then some (negative, [c])
      else if c.isDigit then some (negative, c :: rest.takeWhile Char.isDigit)
      else none

/-- `_match_number`. -/
def readNumber (floats : FloatText) (t : Text) : Option (Json × Text) := do
  let (negative, digits) ← readInteger t
  let magnitude : Nat := Nat.ofDigitChars 10 digits 0
  let integer : Text := (if negative then ['-'] else []) ++ digits
  let rest := t.drop integer.length
  let fraction := readFraction rest
  let exponent := readExponent (rest.drop fraction.length)
  if fraction = [] ∧ exponent = [] then
    some (.int (if negative then -(magnitude : Int) else magnitude), rest)
  else
    some (.float (floats.parse (integer ++ fraction ++ exponent)),
      (rest.drop fraction.length).drop exponent.length)

/-- The words of the grammar and of its extensions. -/
def words : List (Text × Json) :=
  [("null".toList, .null), ("true".toList, .bool true), ("false".toList, .bool false),
    ("NaN".toList, .float .nan), ("Infinity".toList, .float (.infinity false)),
    ("-Infinity".toList, .float (.infinity true))]

def readWord (t : Text) : Option (Json × Text) :=
  (words.find? fun word => Text.startsWith t word.1).map fun word => (word.2, t.drop word.1.length)

/-- `object_pairs_hook`: what becomes of the fields of an object; it may refuse them. -/
abbrev PairsHook := List (String × Json) → Option (List (String × Json))

/-- `dict(pairs)`. -/
def keepLast : PairsHook :=
  fun pairs => some (pairs.foldl (fun d pair => Dict.set d pair.1 pair.2) [])

/-- The hook that raises on a duplicate. -/
def rejectDuplicates : PairsHook :=
  fun pairs => if (pairs.map Prod.fst).Nodup then some pairs else none

section

variable (floats : FloatText) (hook : PairsHook)

mutual

/-- `scan_once`. -/
def scan : Nat → Text → Option (Json × Text)
  | 0, _ => none
  | _ + 1, [] => none
  | n + 1, c :: rest =>
      if c = '"' then (readString n rest).map fun read => (.str (String.ofList read.1), read.2)
      else if c = '\x7b' then
        if Text.startsWith (skipBlanks rest) ['\x7d'] then some (.obj [], (skipBlanks rest).drop 1)
        else do
          let (pairs, rest) ← scanFields n (skipBlanks rest)
          let fields ← hook pairs
          some (.obj fields, rest)
      else if c = '[' then
        if Text.startsWith (skipBlanks rest) [']'] then some (.arr [], (skipBlanks rest).drop 1)
        else do
          let (items, rest) ← scanItems n (skipBlanks rest)
          some (.arr items, rest)
      else
        match readWord (c :: rest) with
        | some read => some read
        | none => readNumber floats (c :: rest)

/-- The items of an array up to its bracket. -/
def scanItems : Nat → Text → Option (List Json × Text)
  | 0, _ => none
  | n + 1, t => do
      let (item, rest) ← scan n t
      match skipBlanks rest with
      | ',' :: rest => do
          let (items, rest) ← scanItems n (skipBlanks rest)
          some (item :: items, rest)
      | ']' :: rest => some ([item], rest)
      | _ => none

/-- The fields of an object up to its brace. -/
def scanFields : Nat → Text → Option (List (String × Json) × Text)
  | 0, _ => none
  | n + 1, t =>
      match t with
      | '"' :: rest => do
          let (key, rest) ← readString n rest
          match skipBlanks rest with
          | ':' :: rest => do
              let (value, rest) ← scan n (skipBlanks rest)
              match skipBlanks rest with
              | ',' :: rest => do
                  let (fields, rest) ← scanFields n (skipBlanks rest)
                  some ((String.ofList key, value) :: fields, rest)
              | '\x7d' :: rest => some ([(String.ofList key, value)], rest)
              | _ => none
          | _ => none
      | _ => none

end

/-- `json.loads(t, object_pairs_hook=hook)`; nothing where it raises. -/
def loads (t : Text) : Option Json := do
  let (value, rest) ← scan floats hook (t.length + 1) (skipBlanks t)
  if skipBlanks rest = [] then some value else none

end


/-! ## Strings come back -/

theorem hexValue_hexDigit {n : Nat} (h : n < 16) : hexValue (Text.hexDigit n) = some n := by
  revert n
  decide

theorem readHex_unicodeEscape {n : Nat} (h : n < 0x10000) (rest : Text) :
    readHex ((unicodeEscape n).drop 2 ++ rest) = some (n, rest) := by
  have hdigit : ∀ m, hexValue (Text.hexDigit (m % 16)) = some (m % 16) :=
    fun m => hexValue_hexDigit (Nat.mod_lt m (by omega))
  have hsum : 4096 * (n / 4096 % 16) + 256 * (n / 256 % 16) + 16 * (n / 16 % 16) + n % 16 = n := by
    omega
  simp only [unicodeEscape, List.drop_succ_cons, List.drop_zero, List.cons_append,
    List.nil_append, readHex, hdigit]
  exact congrArg some (Prod.ext hsum rfl)

/-- No character is a surrogate. -/
theorem not_surrogate (c : Char) : c.toNat < 0xd800 ∨ (0xdfff < c.toNat ∧ c.toNat < 0x110000) := by
  rcases c.valid with h | h
  · exact Or.inl h
  · exact Or.inr h

theorem readUnicode_basic {c : Char} (h : c.toNat < 0x10000) (rest : Text) :
    readUnicode ((unicodeEscape c.toNat).drop 2 ++ rest) = some (c, rest) := by
  rw [readUnicode, readHex_unicodeEscape h]
  have hc := not_surrogate c
  have hhigh : ¬ (0xd800 ≤ c.toNat ∧ c.toNat ≤ 0xdbff) := by omega
  have hlow : ¬ (0xdc00 ≤ c.toNat ∧ c.toNat ≤ 0xdfff) := by omega
  simp only [Option.bind_eq_bind, Option.bind_some, if_neg hhigh, if_neg hlow, Char.ofNat_toNat]

theorem unicodeEscape_eq (n : Nat) :
    unicodeEscape n = '\\' :: 'u' :: (unicodeEscape n).drop 2 := rfl

theorem drop_unicodeEscape_append (n : Nat) (t : Text) :
    (unicodeEscape n ++ t).drop 2 = (unicodeEscape n).drop 2 ++ t := rfl

theorem readUnicode_surrogates {high low : Nat} (hhigh : 0xd800 ≤ high ∧ high ≤ 0xdbff)
    (hlow : 0xdc00 ≤ low ∧ low ≤ 0xdfff) (rest : Text) :
    readUnicode ((unicodeEscape high ++ unicodeEscape low).drop 2 ++ rest)
      = some (Char.ofNat (0x10000 + 1024 * (high - 0xd800) + (low - 0xdc00)), rest) := by
  have hfirst := readHex_unicodeEscape (n := high) (by omega) (unicodeEscape low ++ rest)
  have hsecond := readHex_unicodeEscape (n := low) (by omega) rest
  rw [readUnicode, drop_unicodeEscape_append, List.append_assoc, hfirst, unicodeEscape_eq low]
  simp only [Option.bind_eq_bind, Option.bind_some, if_pos hhigh, List.cons_append, hsecond,
    if_pos hlow]

theorem readUnicode_pair {c : Char} (h : 0x10000 ≤ c.toNat) (rest : Text) :
    readUnicode ((unicodeEscape (0xd800 + (c.toNat - 0x10000) / 1024)
      ++ unicodeEscape (0xdc00 + (c.toNat - 0x10000) % 1024)).drop 2 ++ rest)
        = some (c, rest) := by
  have hc : c.toNat < 0x110000 := by
    rcases not_surrogate c with hc | hc
    · omega
    · exact hc.2
  have hsum : 0x10000 + 1024 * (0xd800 + (c.toNat - 0x10000) / 1024 - 0xd800)
      + (0xdc00 + (c.toNat - 0x10000) % 1024 - 0xdc00) = c.toNat := by omega
  rw [readUnicode_surrogates (by omega) (by omega), hsum, Char.ofNat_toNat]

/-- A character that is not printable or has a letter is read behind its backslash. -/
theorem readEscape_escapeChar {c : Char} {tail : Text} (h : escapeChar c = '\\' :: tail)
    (rest : Text) : readEscape (tail ++ rest) = some (c, rest) := by
  unfold escapeChar at h
  split at h
  · next letter hs =>
    have htail : tail = [letter] := (List.cons.inj h).2.symm
    rw [htail, List.singleton_append]
    have hback : unescape letter = some c ∧ letter ≠ 'u' := by
      unfold shortEscape at hs
      split at hs
      · next hc => rw [← Option.some.inj hs, hc]; exact ⟨rfl, by decide⟩
      split at hs
      · next hc => rw [← Option.some.inj hs, hc]; exact ⟨rfl, by decide⟩
      split at hs
      · next hc => rw [← Option.some.inj hs, hc]; exact ⟨rfl, by decide⟩
      split at hs
      · next hc => rw [← Option.some.inj hs, hc]; exact ⟨rfl, by decide⟩
      split at hs
      · next hc => rw [← Option.some.inj hs, hc]; exact ⟨rfl, by decide⟩
      split at hs
      · next hc =>
        rw [← Option.some.inj hs, ← Char.ofNat_toNat c, hc]
        exact ⟨rfl, by decide⟩
      split at hs
      · next hc =>
        rw [← Option.some.inj hs, ← Char.ofNat_toNat c, hc]
        exact ⟨rfl, by decide⟩
      · cases hs
    rw [readEscape, if_neg hback.2, hback.1]
    rfl
  · next hs =>
    split at h
    · next hp =>
      have hc : c = '\\' := (List.cons.inj h).1
      rw [hc] at hs
      cases hs
    split at h
    · next hb =>
      have htail : tail = 'u' :: (unicodeEscape c.toNat).drop 2 := (List.cons.inj h).2.symm
      rw [htail, List.cons_append, readEscape, if_pos rfl]
      exact readUnicode_basic hb rest
    · next hb =>
      have htail : tail = 'u' :: (unicodeEscape (0xd800 + (c.toNat - 0x10000) / 1024)
          ++ unicodeEscape (0xdc00 + (c.toNat - 0x10000) % 1024)).drop 2 :=
        (List.cons.inj h).2.symm
      rw [htail, List.cons_append, readEscape, if_pos rfl]
      exact readUnicode_pair (by omega) rest

theorem escapeChar_cases (c : Char) :
    (escapeChar c = [c] ∧ c ≠ '"' ∧ c ≠ '\\' ∧ ¬ c.toNat < 32)
      ∨ ∃ tail, escapeChar c = '\\' :: tail := by
  unfold escapeChar
  split
  · next letter hs => exact Or.inr ⟨_, rfl⟩
  · next hs =>
    split
    · next hp =>
      refine Or.inl ⟨rfl, ?_, ?_, ?_⟩
      · rintro rfl
        cases hs
      · rintro rfl
        cases hs
      · simp only [isPrintable, Bool.and_eq_true, decide_eq_true_eq] at hp
        omega
    split
    · exact Or.inr ⟨_, rfl⟩
    · exact Or.inr ⟨_, rfl⟩

theorem readString_escapeChar (n : Nat) (c : Char) (rest : Text) :
    readString (n + 1) (escapeChar c ++ rest)
      = (readString n rest).map fun read => (c :: read.1, read.2) := by
  rcases escapeChar_cases c with ⟨h, hquote, hback, hlow⟩ | ⟨tail, h⟩
  · rw [h, List.singleton_append, readString, if_neg hquote, if_neg hback, if_neg hlow]
  · rw [h, List.cons_append, readString, if_neg (by decide), if_pos rfl,
      readEscape_escapeChar h rest]

/-- A rendered string, after its opening quote, is read to its end. -/
theorem readString_escaped (t rest : Text) :
    ∀ n, t.length < n → readString n (t.flatMap escapeChar ++ '"' :: rest) = some (t, rest) := by
  induction t with
  | nil =>
      intro n hn
      obtain ⟨m, rfl⟩ := Nat.exists_eq_succ_of_ne_zero (Nat.ne_of_gt hn)
      rfl
  | cons c t ih =>
      intro n hn
      obtain ⟨m, rfl⟩ := Nat.exists_eq_succ_of_ne_zero (Nat.ne_of_gt (Nat.zero_lt_of_lt hn))
      rw [List.length_cons] at hn
      rw [List.flatMap_cons, List.append_assoc, readString_escapeChar, ih m (by omega)]
      rfl

theorem escapeChar_ne_nil (c : Char) : escapeChar c ≠ [] := by
  rcases escapeChar_cases c with ⟨h, -⟩ | ⟨tail, h⟩
  · rw [h]
    exact List.cons_ne_nil _ _
  · rw [h]
    exact List.cons_ne_nil _ _

theorem length_le_escaped (t : Text) : t.length ≤ (t.flatMap escapeChar).length := by
  induction t with
  | nil => exact Nat.le_refl 0
  | cons c t ih =>
      have hc := List.length_pos_iff.mpr (escapeChar_ne_nil c)
      rw [List.flatMap_cons, List.length_append, List.length_cons]
      omega

theorem length_dumpsStr (t : Text) : (dumpsStr t).length = (t.flatMap escapeChar).length + 2 := by
  simp [dumpsStr]

/-- A rendered string is read with its length for fuel. -/
theorem readString_dumpsStr (t rest : Text) {n : Nat} (h : (dumpsStr t).length ≤ n) :
    readString n ((dumpsStr t).drop 1 ++ rest) = some (t, rest) := by
  have hlen := length_le_escaped t
  rw [length_dumpsStr] at h
  have htext : (dumpsStr t).drop 1 ++ rest = t.flatMap escapeChar ++ '"' :: rest := by
    simp [dumpsStr]
  rw [htext]
  exact readString_escaped t rest n (by omega)

theorem dumpsStr_eq (t : Text) : dumpsStr t = '"' :: (dumpsStr t).drop 1 := rfl

/-! ## Numbers come back -/

/-- What may stand after a value of a rendered document. -/
def Ends (rest : Text) : Prop :=
  ∀ c ∈ rest.head?, c = ',' ∨ c = ']' ∨ c = '\x7d'

theorem ends_nil : Ends [] := by
  intro c hc
  cases hc

theorem Ends.head_not {rest : Text} {p : Char → Bool} (h : Ends rest)
    (hp : p ',' = false ∧ p ']' = false ∧ p '\x7d' = false) : ∀ c ∈ rest.head?, p c = false := by
  intro c hc
  rcases h c hc with rfl | rfl | rfl
  · exact hp.1
  · exact hp.2.1
  · exact hp.2.2

theorem takeWhile_append_of_head {p : Char → Bool} {taken rest : Text}
    (ht : ∀ c ∈ taken, p c = true) (hr : ∀ c ∈ rest.head?, p c = false) :
    (taken ++ rest).takeWhile p = taken := by
  induction taken with
  | nil =>
      cases rest with
      | nil => rfl
      | cons c rest => rw [List.nil_append, List.takeWhile_cons, hr c rfl]; rfl
  | cons c taken ih =>
      rw [List.cons_append, List.takeWhile_cons, ht c List.mem_cons_self]
      exact congrArg (c :: ·) (ih fun d hd => ht d (List.mem_cons_of_mem c hd))

theorem readFraction_ends {rest : Text} (h : Ends rest) : readFraction rest = [] := by
  cases rest with
  | nil => rfl
  | cons c rest =>
      rcases h c rfl with rfl | rfl | rfl
      · rfl
      · rfl
      · rfl

theorem readExponent_ends {rest : Text} (h : Ends rest) : readExponent rest = [] := by
  cases rest with
  | nil => rfl
  | cons c rest =>
      rcases h c rfl with rfl | rfl | rfl
      · rfl
      · rfl
      · rfl

theorem isDigit_of_mem_toDigits {n : Nat} {c : Char} (h : c ∈ Nat.toDigits 10 n) :
    c.isDigit = true :=
  Nat.isDigit_of_mem_toDigits (by omega) (by omega) h

theorem digitChar_eq_zero_iff {n : Nat} (h : n < 10) : n.digitChar = '0' ↔ n = 0 := by
  revert n
  decide

/-- A number above zero is written without a leading zero. -/
theorem toDigits_cons {n : Nat} (h : 0 < n) :
    ∃ c digits, Nat.toDigits 10 n = c :: digits ∧ c ≠ '0' := by
  induction n using Nat.strongRecOn with
  | ind n ih =>
    by_cases hn : n < 10
    · refine ⟨n.digitChar, [], Nat.toDigits_of_lt_base hn, ?_⟩
      rw [Ne, digitChar_eq_zero_iff hn]
      omega
    · obtain ⟨c, digits, hdigits, hc⟩ := ih (n / 10) (by omega) (by omega)
      refine ⟨c, digits ++ [(n % 10).digitChar], ?_, hc⟩
      rw [Nat.toDigits_of_base_le (by omega) (by omega), hdigits, List.cons_append]

/-- The digits of a number are taken as they are. -/
theorem readInteger_digits (n : Nat) {rest : Text} (h : Ends rest) :
    readInteger (Nat.toDigits 10 n ++ rest) = some (false, Nat.toDigits 10 n) := by
  rcases Nat.eq_zero_or_pos n with rfl | hn
  · rfl
  obtain ⟨c, digits, hdigits, hc⟩ := toDigits_cons hn
  have hmem : ∀ d ∈ c :: digits, d.isDigit = true := by
    intro d hd
    rw [← hdigits] at hd
    exact isDigit_of_mem_toDigits hd
  have hdash : Text.startsWith (c :: (digits ++ rest)) ['-'] = false := by
    have hne : c ≠ '-' := by
      rintro rfl
      exact absurd (hmem '-' List.mem_cons_self) (by decide)
    simp [Text.startsWith, List.isPrefixOf, hne.symm]
  have htake : (digits ++ rest).takeWhile Char.isDigit = digits :=
    takeWhile_append_of_head (fun d hd => hmem d (List.mem_cons_of_mem c hd))
      (h.head_not ⟨rfl, rfl, rfl⟩)
  simp only [hdigits, readInteger, List.cons_append, hdash, Bool.false_eq_true, if_false, if_neg hc,
    hmem c List.mem_cons_self, if_true, htake]

theorem readInteger_negative (n : Nat) {rest : Text} (h : Ends rest) :
    readInteger ('-' :: (Nat.toDigits 10 (n + 1) ++ rest))
      = some (true, Nat.toDigits 10 (n + 1)) := by
  obtain ⟨c, digits, hdigits, hc⟩ := toDigits_cons (Nat.succ_pos n)
  have hmem : ∀ d ∈ c :: digits, d.isDigit = true := by
    intro d hd
    rw [← hdigits] at hd
    exact isDigit_of_mem_toDigits hd
  have hdash : Text.startsWith ('-' :: c :: (digits ++ rest)) ['-'] = true := rfl
  have htake : (digits ++ rest).takeWhile Char.isDigit = digits :=
    takeWhile_append_of_head (fun d hd => hmem d (List.mem_cons_of_mem c hd))
      (h.head_not ⟨rfl, rfl, rfl⟩)
  simp only [hdigits, readInteger, List.cons_append, hdash, if_true, List.drop_succ_cons,
    List.drop_zero, if_neg hc, hmem c List.mem_cons_self, htake]

theorem readNumber_decimalInt (floats : FloatText) (n : Int) {rest : Text} (h : Ends rest) :
    readNumber floats (decimalInt n ++ rest) = some (.int n, rest) := by
  cases n with
  | ofNat n =>
      rw [decimalInt, readNumber, readInteger_digits n h]
      simp only [Option.bind_eq_bind, Option.bind_some, Bool.false_eq_true, if_false,
        List.nil_append, List.drop_left, readFraction_ends h, List.length_nil, List.drop_zero,
        readExponent_ends h, and_self, if_true, Nat.ofDigitChars_ten_toDigits]
      rfl
  | negSucc n =>
      rw [decimalInt, readNumber, List.cons_append, readInteger_negative n h]
      simp only [Option.bind_eq_bind, Option.bind_some, if_true, List.singleton_append,
        List.length_cons, List.drop_succ_cons, List.drop_left, readFraction_ends h,
        List.length_nil, List.drop_zero, readExponent_ends h, and_self,
        Nat.ofDigitChars_ten_toDigits]
      rfl

theorem decimalInt_cons (n : Int) :
    ∃ c digits, decimalInt n = c :: digits ∧
      (c.isDigit = true ∨ (c = '-' ∧ ∀ d ∈ digits, d.isDigit = true)) := by
  cases n with
  | ofNat n =>
      cases hdigits : Nat.toDigits 10 n with
      | nil => exact absurd hdigits Nat.toDigits_ne_nil
      | cons c digits =>
          refine ⟨c, digits, hdigits, Or.inl ?_⟩
          refine isDigit_of_mem_toDigits (n := n) ?_
          rw [hdigits]
          exact List.mem_cons_self
  | negSucc n => exact ⟨'-', _, rfl, Or.inr ⟨rfl, fun d hd => isDigit_of_mem_toDigits hd⟩⟩

/-- No word starts as a number does. -/
theorem readWord_decimalInt (n : Int) {rest : Text} (h : Ends rest) :
    readWord (decimalInt n ++ rest) = none := by
  have hdigit : ∀ c : Char, c.isDigit = true → c ≠ 'n' ∧ c ≠ 't' ∧ c ≠ 'f' ∧ c ≠ 'N' ∧ c ≠ 'I'
      ∧ c ≠ '-' := by
    intro c hc
    refine ⟨?_, ?_, ?_, ?_, ?_, ?_⟩
    all_goals
      rintro rfl
      exact absurd hc (by decide)
  obtain ⟨c, digits, hdigits, hc | ⟨rfl, hmem⟩⟩ := decimalInt_cons n
  · obtain ⟨hn, ht, hf, hN, hI, hdash⟩ := hdigit c hc
    simp [hdigits, readWord, words, Text.startsWith, hn.symm, ht.symm, hf.symm, hN.symm, hI.symm,
      hdash.symm]
  · have hnext : ∀ d ∈ (digits ++ rest).head?, d ≠ 'I' := by
      intro d hd
      cases digits with
      | nil =>
          rcases h d hd with rfl | rfl | rfl
          · decide
          · decide
          · decide
      | cons e digits =>
          have hde : e = d := Option.some.inj hd
          rw [← hde]
          exact (hdigit e (hmem e List.mem_cons_self)).2.2.2.2.1
    cases htail : digits ++ rest with
    | nil => simp [hdigits, htail, readWord, words, Text.startsWith]
    | cons d tail =>
        have hd := hnext d (by rw [htail]; rfl)
        simp [hdigits, htail, readWord, words, Text.startsWith, hd.symm]

/-! ## Values come back -/

mutual

/-- A value without floats whose objects hold no key twice. -/
def Plain : Json → Prop
  | .float _ => False
  | .arr items => PlainItems items
  | .obj fields => (fields.map Prod.fst).Nodup ∧ PlainFields fields
  | .null | .bool _ | .int _ | .str _ => True

def PlainItems : List Json → Prop
  | [] => True
  | item :: items => Plain item ∧ PlainItems items

def PlainFields : List (String × Json) → Prop
  | [] => True
  | (_, value) :: fields => Plain value ∧ PlainFields fields

end

/-- The text of a float starts as a number or a word does, and is read to its end. -/
structure FloatText.Reads (floats : FloatText) (x : PyFloat) : Prop where
  head : ∃ c tail, floats.repr x = c :: tail
    ∧ c ≠ '"' ∧ c ≠ '\x7b' ∧ c ≠ '[' ∧ c ≠ ']' ∧ isBlank c = false
  scanned : ∀ rest, Ends rest →
    (readWord (floats.repr x ++ rest)).or (readNumber floats (floats.repr x ++ rest))
      = some (.float x, rest)

mutual

/-- A value whose floats are read back and whose objects hold no key twice. -/
def Codable (floats : FloatText) : Json → Prop
  | .float x => floats.Reads x
  | .arr items => CodableItems floats items
  | .obj fields => (fields.map Prod.fst).Nodup ∧ CodableFields floats fields
  | .null | .bool _ | .int _ | .str _ => True

def CodableItems (floats : FloatText) : List Json → Prop
  | [] => True
  | item :: items => Codable floats item ∧ CodableItems floats items

def CodableFields (floats : FloatText) : List (String × Json) → Prop
  | [] => True
  | (_, value) :: fields => Codable floats value ∧ CodableFields floats fields

end

mutual

theorem Plain.codable (floats : FloatText) {value : Json} (h : Plain value) :
    Codable floats value := by
  match value, h with
  | .arr items, h => exact PlainItems.codable floats h
  | .obj fields, h => exact ⟨h.1, PlainFields.codable floats h.2⟩
  | .null, _ => trivial
  | .bool _, _ => trivial
  | .int _, _ => trivial
  | .str _, _ => trivial

theorem PlainItems.codable (floats : FloatText) {items : List Json} (h : PlainItems items) :
    CodableItems floats items := by
  match items, h with
  | [], _ => trivial
  | _ :: _, h => exact ⟨Plain.codable floats h.1, PlainItems.codable floats h.2⟩

theorem PlainFields.codable (floats : FloatText) {fields : List (String × Json)}
    (h : PlainFields fields) : CodableFields floats fields := by
  match fields, h with
  | [], _ => trivial
  | (_, _) :: _, h => exact ⟨Plain.codable floats h.1, PlainFields.codable floats h.2⟩

end

theorem skipBlanks_of_head {t : Text} (h : ∀ c ∈ t.head?, isBlank c = false) : skipBlanks t = t := by
  cases t with
  | nil => rfl
  | cons c t => rw [skipBlanks, List.dropWhile_cons, h c rfl]; rfl

theorem skipBlanks_cons {c : Char} (t : Text) (h : isBlank c = false) :
    skipBlanks (c :: t) = c :: t :=
  skipBlanks_of_head fun _ hd => Option.some.inj hd ▸ h

theorem decimalInt_head (n : Int) : ∀ c ∈ (decimalInt n).head?,
    c ≠ '"' ∧ c ≠ '\x7b' ∧ c ≠ '[' ∧ c ≠ ']' ∧ isBlank c = false := by
  intro c hc
  obtain ⟨d, digits, hdigits, hd⟩ := decimalInt_cons n
  rw [hdigits] at hc
  have hdc : d = c := Option.some.inj hc
  rw [hdc] at hd
  rcases hd with hd | ⟨rfl, -⟩
  · have hdiff : ∀ x : Char, x.isDigit = false → c ≠ x := by
      rintro x hx rfl
      rw [hx] at hd
      cases hd
    refine ⟨hdiff _ rfl, hdiff _ rfl, hdiff _ rfl, hdiff _ rfl, ?_⟩
    simp [isBlank, hdiff ' ' rfl, hdiff '\t' rfl, hdiff '\n' rfl, hdiff '\r' rfl]
  · decide

/-- A rendered value starts with a character that is neither blank nor a bracket
that closes. -/
theorem render_head (floats : FloatText) {value : Json} (h : Codable floats value) :
    ∃ c tail, render floats value = c :: tail ∧ isBlank c = false ∧ c ≠ ']' := by
  cases value with
  | null => exact ⟨'n', _, rfl, rfl, by decide⟩
  | bool b =>
      cases b with
      | false => exact ⟨'f', _, rfl, rfl, by decide⟩
      | true => exact ⟨'t', _, rfl, rfl, by decide⟩
  | int n =>
      obtain ⟨c, digits, hdigits, -⟩ := decimalInt_cons n
      have hc := decimalInt_head n c (by rw [hdigits]; rfl)
      exact ⟨c, digits, by rw [render, hdigits], hc.2.2.2.2, hc.2.2.2.1⟩
  | float x =>
      obtain ⟨c, tail, htext, -, -, -, hclose, hblank⟩ := h.head
      exact ⟨c, tail, by rw [render, htext], hblank, hclose⟩
  | str text => exact ⟨'"', _, rfl, rfl, by decide⟩
  | arr items =>
      cases items with
      | nil => exact ⟨'[', _, rfl, rfl, by decide⟩
      | cons item items => exact ⟨'[', _, by rw [render], rfl, by decide⟩
  | obj fields =>
      cases fields with
      | nil => exact ⟨'\x7b', _, rfl, rfl, by decide⟩
      | cons field fields => exact ⟨'\x7b', _, by rw [render], rfl, by decide⟩

theorem skipBlanks_render (floats : FloatText) {value : Json} (h : Codable floats value) (rest : Text) :
    skipBlanks (render floats value ++ rest) = render floats value ++ rest := by
  obtain ⟨c, tail, htext, hblank, -⟩ := render_head floats h
  rw [htext, List.cons_append]
  exact skipBlanks_cons _ hblank

theorem renderItems_head (floats : FloatText) (items : List Json) (rest : Text) :
    Ends (renderItems floats items ++ rest) := by
  intro c hc
  cases items with
  | nil => exact Or.inr (Or.inl (Option.some.inj hc).symm)
  | cons item items =>
      rw [renderItems] at hc
      exact Or.inl (Option.some.inj hc).symm

theorem renderFields_head (floats : FloatText) (fields : List (String × Json)) (rest : Text) :
    Ends (renderFields floats fields ++ rest) := by
  intro c hc
  cases fields with
  | nil => exact Or.inr (Or.inr (Option.some.inj hc).symm)
  | cons field fields =>
      rw [renderFields] at hc
      exact Or.inl (Option.some.inj hc).symm

/-- The scanner on a rendered string. -/
theorem scan_str {floats : FloatText} {hook : PairsHook} {n : Nat} {t rest : Text}
    (h : (dumpsStr t).length ≤ n + 1) :
    scan floats hook (n + 1) (dumpsStr t ++ rest) = some (.str (String.ofList t), rest) := by
  rw [length_dumpsStr] at h
  have hlen := length_le_escaped t
  have hread := readString_escaped t rest n
  rw [dumpsStr_eq, List.cons_append, scan, if_pos rfl]
  have htext : (dumpsStr t).drop 1 ++ rest = t.flatMap escapeChar ++ '"' :: rest := by
    simp [dumpsStr]
  rw [htext, hread (by omega)]
  rfl

section

variable {floats : FloatText} {hook : PairsHook}

/-- With fuel `n` the scanners take rendered values off the text. -/
structure ReadsBack (floats : FloatText) (hook : PairsHook) (n : Nat) : Prop where
  value : ∀ {value : Json} {rest : Text}, Codable floats value → (render floats value).length ≤ n →
    Ends rest → scan floats hook n (render floats value ++ rest) = some (value, rest)
  items : ∀ {item : Json} {items : List Json} (rest : Text), Codable floats item → CodableItems floats items →
    (render floats item ++ renderItems floats items).length ≤ n →
    scanItems floats hook n (render floats item ++ (renderItems floats items ++ rest))
      = some (item :: items, rest)
  fields : ∀ (key : String) {value : Json} {fields : List (String × Json)} (rest : Text),
    Codable floats value → CodableFields floats fields →
    (dumpsStr key.toList ++ ':' :: (render floats value ++ renderFields floats fields)).length ≤ n →
    scanFields floats hook n (dumpsStr key.toList ++ ':' :: (render floats value
        ++ (renderFields floats fields ++ rest)))
      = some ((key, value) :: fields, rest)

theorem skipBlanks_dumpsStr (t rest : Text) :
    skipBlanks (dumpsStr t ++ rest) = dumpsStr t ++ rest := rfl

theorem readsBack_zero : ReadsBack floats hook 0 where
  value h hn _ := by
    obtain ⟨c, tail, htext, -⟩ := render_head floats h
    rw [htext] at hn
    cases hn
  items _ h _ hn := by
    obtain ⟨c, tail, htext, -⟩ := render_head floats h
    rw [htext] at hn
    cases hn
  fields _ _ _ _ _ _ hn := by cases hn

theorem ReadsBack.scan_succ (hhook : ∀ pairs, (pairs.map Prod.fst).Nodup → hook pairs = some pairs)
    {n : Nat} (ih : ReadsBack floats hook n) {value : Json} {rest : Text} (hplain : Codable floats value)
    (hn : (render floats value).length ≤ n + 1) (hends : Ends rest) :
    scan floats hook (n + 1) (render floats value ++ rest) = some (value, rest) := by
  cases value with
  | null => rfl
  | bool b =>
      cases b with
      | false => rfl
      | true => rfl
  | int k =>
      obtain ⟨c, digits, hdigits, -⟩ := decimalInt_cons k
      obtain ⟨hquote, hbrace, hbracket, -, -⟩ := decimalInt_head k c (by rw [hdigits]; rfl)
      have hword := readWord_decimalInt k hends
      have hnumber := readNumber_decimalInt floats k hends
      rw [hdigits, List.cons_append] at hword hnumber
      rw [render, hdigits, List.cons_append, scan, if_neg hquote, if_neg hbrace, if_neg hbracket,
        hword]
      exact hnumber
  | float x =>
      obtain ⟨c, tail, htext, hquote, hbrace, hbracket, -, -⟩ := hplain.head
      have hscanned := hplain.scanned rest hends
      rw [htext, List.cons_append] at hscanned
      rw [render, htext, List.cons_append, scan, if_neg hquote, if_neg hbrace, if_neg hbracket]
      cases hword : readWord (c :: (tail ++ rest)) with
      | some read =>
          rw [hword] at hscanned
          exact hscanned
      | none =>
          rw [hword] at hscanned
          exact hscanned
  | str text =>
      rw [render] at hn ⊢
      rw [scan_str hn, String.ofList_toList]
  | arr items =>
      cases items with
      | nil => rfl
      | cons item items =>
          obtain ⟨hitem, hitems⟩ := hplain
          obtain ⟨d, tail, htext, hblank, hclose⟩ := render_head floats hitem
          rw [render, List.length_cons] at hn
          have hskip := skipBlanks_render floats hitem (renderItems floats items ++ rest)
          have hstart : Text.startsWith
              (render floats item ++ (renderItems floats items ++ rest)) [']'] = false := by
            simp [htext, Text.startsWith, List.isPrefixOf, hclose.symm]
          have hscan := ih.items rest hitem hitems (by omega)
          rw [render, List.cons_append, List.append_assoc, scan, if_neg (by decide),
            if_neg (by decide), if_pos rfl, hskip, hstart, if_neg (by decide), hscan]
          rfl
  | obj fields =>
      cases fields with
      | nil => rfl
      | cons field fields =>
          obtain ⟨key, value⟩ := field
          obtain ⟨hnodup, hvalue, hfields⟩ := hplain
          rw [render, List.length_cons] at hn
          have hscan := ih.fields key rest hvalue hfields (by omega)
          have hstart : Text.startsWith (dumpsStr key.toList ++ ':' :: (render floats value
              ++ (renderFields floats fields ++ rest))) ['\x7d'] = false := rfl
          rw [render, List.cons_append, List.append_assoc, List.cons_append, List.append_assoc,
            scan, if_neg (by decide), if_pos rfl, skipBlanks_dumpsStr, hstart,
            if_neg (by decide), hscan]
          simp only [Option.bind_eq_bind, Option.bind_some, hhook _ hnodup]

theorem ReadsBack.scanItems_succ {n : Nat} (ih : ReadsBack floats hook n) {item : Json}
    {items : List Json} (rest : Text) (hitem : Codable floats item) (hitems : CodableItems floats items)
    (hn : (render floats item ++ renderItems floats items).length ≤ n + 1) :
    scanItems floats hook (n + 1) (render floats item ++ (renderItems floats items ++ rest))
      = some (item :: items, rest) := by
  rw [List.length_append] at hn
  cases items with
  | nil =>
      have hscan := ih.value hitem (Nat.le_of_succ_le_succ hn) (renderItems_head floats [] rest)
      rw [scanItems, hscan]
      rfl
  | cons item' items =>
      obtain ⟨hitem', hitems⟩ := hitems
      rw [renderItems, List.length_cons, List.length_append] at hn
      have hscan := ih.value hitem (by omega) (renderItems_head floats (item' :: items) rest)
      have hmore := ih.items rest hitem' hitems (by rw [List.length_append]; omega)
      have hskip := skipBlanks_render floats hitem' (renderItems floats items ++ rest)
      have hcomma : isBlank ',' = false := rfl
      rw [scanItems, hscan, renderItems, List.cons_append, List.append_assoc]
      simp only [Option.bind_eq_bind, Option.bind_some, skipBlanks_cons _ hcomma, hskip, hmore]

theorem ReadsBack.scanFields_succ {n : Nat} (ih : ReadsBack floats hook n) (key : String)
    {value : Json} {fields : List (String × Json)} (rest : Text) (hvalue : Codable floats value)
    (hfields : CodableFields floats fields)
    (hn : (dumpsStr key.toList ++ ':' :: (render floats value
      ++ renderFields floats fields)).length ≤ n + 1) :
    scanFields floats hook (n + 1) (dumpsStr key.toList ++ ':' :: (render floats value
        ++ (renderFields floats fields ++ rest)))
      = some ((key, value) :: fields, rest) := by
  have hquotes := length_dumpsStr key.toList
  rw [List.length_append, List.length_cons, List.length_append] at hn
  have hkey := readString_dumpsStr key.toList (':' :: (render floats value
    ++ (renderFields floats fields ++ rest))) (n := n) (by omega)
  have hscan := ih.value hvalue (by omega) (renderFields_head floats fields rest)
  have hskip := skipBlanks_render floats hvalue (renderFields floats fields ++ rest)
  have hcolon : isBlank ':' = false := rfl
  rw [dumpsStr_eq, List.cons_append, scanFields]
  simp only [hkey, Option.bind_eq_bind, Option.bind_some, skipBlanks_cons _ hcolon, hskip, hscan,
    String.ofList_toList]
  cases fields with
  | nil => rfl
  | cons field fields =>
      obtain ⟨key', value'⟩ := field
      obtain ⟨hvalue', hfields⟩ := hfields
      rw [renderFields, List.length_cons] at hn
      have hmore := ih.fields key' rest hvalue' hfields (by omega)
      have hcomma : isBlank ',' = false := rfl
      rw [renderFields, List.cons_append, List.append_assoc, List.cons_append, List.append_assoc]
      simp only [skipBlanks_cons _ hcomma, skipBlanks_dumpsStr, hmore, Option.bind_some]

theorem readsBack (hhook : ∀ pairs, (pairs.map Prod.fst).Nodup → hook pairs = some pairs) :
    ∀ n, ReadsBack floats hook n
  | 0 => readsBack_zero
  | n + 1 =>
      have ih := readsBack hhook n
      { value := ih.scan_succ hhook
        items := ih.scanItems_succ
        fields := ih.scanFields_succ }

end

/-! ## Documents come back -/

theorem nodup_keepLast {pairs : List (String × Json)} (h : (pairs.map Prod.fst).Nodup) :
    keepLast pairs = some pairs :=
  congrArg some (Dict.foldl_set_of_nodup pairs [] h)

theorem nodup_rejectDuplicates {pairs : List (String × Json)} (h : (pairs.map Prod.fst).Nodup) :
    rejectDuplicates pairs = some pairs :=
  if_pos h

/-- A value is read back from its text. -/
theorem loads_render_of_codable (floats : FloatText) {hook : PairsHook}
    (hhook : ∀ pairs, (pairs.map Prod.fst).Nodup → hook pairs = some pairs)
    {value : Json} (h : Codable floats value) :
    loads floats hook (render floats value) = some value := by
  have hreads : ReadsBack floats hook ((render floats value).length + 1) := readsBack hhook _
  have hscan := hreads.value h (Nat.le_succ _) ends_nil
  have hskip := skipBlanks_render floats h []
  rw [List.append_nil] at hscan hskip
  rw [loads, hskip, hscan]
  rfl

/-- A plain value is read back from its text. -/
theorem loads_render (floats : FloatText) {hook : PairsHook}
    (hhook : ∀ pairs, (pairs.map Prod.fst).Nodup → hook pairs = some pairs)
    {value : Json} (h : Plain value) : loads floats hook (render floats value) = some value :=
  loads_render_of_codable floats hhook (h.codable floats)

theorem keys_sortedFields (fields : List (String × Json)) :
    (sortedFields fields).map Prod.fst = fields.map Prod.fst := by
  induction fields with
  | nil => rfl
  | cons field fields ih => rw [sortedFields, List.map_cons, List.map_cons, ih]

theorem sortFields_perm {α : Type} (fields : List (String × α)) :
    (sortFields fields).Perm fields :=
  List.perm_insertionSort _ fields

/-- The order fields are sorted in. -/
instance keyLe_total {α : Type} : Std.Total fun a b : String × α =>
    Text.sortsBefore b.1.toList a.1.toList = false := by
  refine ⟨fun a b => ?_⟩
  simp only [Text.not_sortsBefore_iff]
  exact le_total _ _

instance keyLe_trans {α : Type} : IsTrans (String × α) fun a b =>
    Text.sortsBefore b.1.toList a.1.toList = false := by
  refine ⟨fun a b c => ?_⟩
  simp only [Text.not_sortsBefore_iff]
  exact le_trans

/-- Sorted fields do not depend on the order they were given in. -/
theorem sortFields_eq_of_perm {α : Type} {fields fields' : List (String × α)}
    (h : fields.Perm fields') (hkeys : (fields.map Prod.fst).Nodup) :
    sortFields fields = sortFields fields' := by
  have hperm : (sortFields fields).Perm (sortFields fields') :=
    (sortFields_perm fields).trans (h.trans (sortFields_perm fields').symm)
  refine hperm.eq_of_pairwise ?_ (List.pairwise_insertionSort _ _)
    (List.pairwise_insertionSort _ _)
  intro a b ha hb hab hba
  simp only [Text.not_sortsBefore_iff] at hab hba
  have hkey : a.1 = b.1 := by
    have hmap := le_antisymm hab hba
    exact String.toList_inj.mp (List.map_injective_iff.mpr (fun _ _ => Char.toNat_inj.mp) hmap)
  have ha := (sortFields_perm fields).mem_iff.mp ha
  have hb := h.mem_iff.mpr ((sortFields_perm fields').mem_iff.mp hb)
  exact List.inj_on_of_nodup_map hkeys ha hb hkey

theorem get?_sortedFields (fields : List (String × Json)) (key : String) :
    Dict.get? (sortedFields fields) key = (Dict.get? fields key).map sorted := by
  induction fields with
  | nil => rfl
  | cons field fields ih =>
      rw [sortedFields, Dict.get?_cons, Dict.get?_cons, ih]
      split
      · rfl
      · rfl

/-- A sorted object holds the sorted values under the same keys. -/
theorem get?_sorted {fields : List (String × Json)} (h : (fields.map Prod.fst).Nodup)
    (key : String) :
    (sorted (.obj fields)).get? key = ((Json.obj fields).get? key).map sorted := by
  rw [sorted, Json.get?, Json.get?, ← get?_sortedFields]
  refine Dict.get?_of_perm (sortFields_perm _) ?_ key
  refine ((sortFields_perm _).map Prod.fst).nodup_iff.mpr ?_
  rw [keys_sortedFields]
  exact h

theorem field_sorted {fields : List (String × Json)} (h : (fields.map Prod.fst).Nodup)
    (key : String) : (sorted (.obj fields)).field key = sorted ((Json.obj fields).field key) := by
  rw [Json.field, Json.getD, get?_sorted h, Json.field, Json.getD]
  cases (Json.obj fields).get? key with
  | none => rfl
  | some value => rfl

theorem plainFields_iff {fields : List (String × Json)} :
    PlainFields fields ↔ ∀ field ∈ fields, Plain field.2 := by
  induction fields with
  | nil => simp [PlainFields]
  | cons field fields ih => simp [PlainFields, ih]

mutual

theorem Plain.sorted {value : Json} (h : Plain value) : Plain (sorted value) := by
  match value, h with
  | .arr items, h => exact PlainItems.sortedItems h
  | .obj fields, h =>
      refine ⟨?_, ?_⟩
      · refine ((sortFields_perm _).map Prod.fst).nodup_iff.mpr ?_
        rw [keys_sortedFields]
        exact h.1
      · rw [plainFields_iff]
        intro field hfield
        exact plainFields_iff.mp (PlainFields.sortedFields h.2) field
          ((sortFields_perm _).mem_iff.mp hfield)
  | .null, _ => trivial
  | .bool _, _ => trivial
  | .int _, _ => trivial
  | .str _, _ => trivial

theorem PlainItems.sortedItems {items : List Json} (h : PlainItems items) :
    PlainItems (sortedItems items) := by
  match items, h with
  | [], _ => trivial
  | _ :: _, h => exact ⟨Plain.sorted h.1, PlainItems.sortedItems h.2⟩

theorem PlainFields.sortedFields {fields : List (String × Json)} (h : PlainFields fields) :
    PlainFields (sortedFields fields) := by
  match fields, h with
  | [], _ => trivial
  | (_, _) :: _, h => exact ⟨Plain.sorted h.1, PlainFields.sortedFields h.2⟩

end

theorem codableFields_iff {floats : FloatText} {fields : List (String × Json)} :
    CodableFields floats fields ↔ ∀ field ∈ fields, Codable floats field.2 := by
  induction fields with
  | nil => simp [CodableFields]
  | cons field fields ih => simp [CodableFields, ih]

mutual

theorem Codable.sorted {floats : FloatText} {value : Json} (h : Codable floats value) :
    Codable floats (sorted value) := by
  match value, h with
  | .arr items, h => exact CodableItems.sortedItems h
  | .obj fields, h =>
      refine ⟨?_, ?_⟩
      · refine ((sortFields_perm _).map Prod.fst).nodup_iff.mpr ?_
        rw [keys_sortedFields]
        exact h.1
      · rw [codableFields_iff]
        intro field hfield
        exact codableFields_iff.mp (CodableFields.sortedFields h.2) field
          ((sortFields_perm _).mem_iff.mp hfield)
  | .float x, h => exact h
  | .null, _ => trivial
  | .bool _, _ => trivial
  | .int _, _ => trivial
  | .str _, _ => trivial

theorem CodableItems.sortedItems {floats : FloatText} {items : List Json}
    (h : CodableItems floats items) : CodableItems floats (sortedItems items) := by
  match items, h with
  | [], _ => trivial
  | _ :: _, h => exact ⟨Codable.sorted h.1, CodableItems.sortedItems h.2⟩

theorem CodableFields.sortedFields {floats : FloatText} {fields : List (String × Json)}
    (h : CodableFields floats fields) : CodableFields floats (sortedFields fields) := by
  match fields, h with
  | [], _ => trivial
  | (_, _) :: _, h => exact ⟨Codable.sorted h.1, CodableFields.sortedFields h.2⟩

end

theorem sortFields_sortFields {α : Type} (fields : List (String × α)) :
    sortFields (sortFields fields) = sortFields fields := by
  exact (List.pairwise_insertionSort _ fields).insertionSort_eq

theorem sortedFields_of_mem {fields : List (String × Json)}
    (h : ∀ field ∈ fields, sorted field.2 = field.2) : sortedFields fields = fields := by
  induction fields with
  | nil => rfl
  | cons field fields ih =>
      rw [List.forall_mem_cons] at h
      rw [sortedFields, h.1, ih h.2]

mutual

/-- Sorting a sorted value changes nothing. -/
theorem sorted_sorted (value : Json) : sorted (sorted value) = sorted value := by
  match value with
  | .arr items => rw [sorted, sorted, sortedItems_sortedItems items]
  | .obj fields =>
      have hfixed : ∀ field ∈ sortFields (sortedFields fields), sorted field.2 = field.2 :=
        fun field hfield => sorted_sortedFields fields ((sortFields_perm _).mem_iff.mp hfield)
      rw [sorted, sorted, sortedFields_of_mem hfixed, sortFields_sortFields]
  | .null => rfl
  | .bool _ => rfl
  | .int _ => rfl
  | .float _ => rfl
  | .str _ => rfl

theorem sortedItems_sortedItems (items : List Json) :
    sortedItems (sortedItems items) = sortedItems items := by
  match items with
  | [] => rfl
  | item :: items =>
      rw [sortedItems, sortedItems, sorted_sorted item, sortedItems_sortedItems items]

theorem sorted_sortedFields (fields : List (String × Json)) {field : String × Json}
    (h : field ∈ sortedFields fields) : sorted field.2 = field.2 := by
  match fields, h with
  | (key, value) :: fields, h =>
      rw [sortedFields, List.mem_cons] at h
      rcases h with rfl | h
      · exact sorted_sorted value
      · exact sorted_sortedFields fields h

end

theorem dumps_sorted (floats : FloatText) (value : Json) :
    dumps floats (sorted value) = dumps floats value := by
  rw [dumps, dumps, sorted_sorted]

/-- What was written is read as the sorted value, floats and all. -/
theorem loads_dumps_of_codable (floats : FloatText) {hook : PairsHook}
    (hhook : ∀ pairs, (pairs.map Prod.fst).Nodup → hook pairs = some pairs)
    {value : Json} (h : Codable floats value) :
    loads floats hook (dumps floats value) = some (sorted value) :=
  loads_render_of_codable floats hhook h.sorted

/-- What was written is read as the sorted value. -/
theorem loads_dumps (floats : FloatText) {hook : PairsHook}
    (hhook : ∀ pairs, (pairs.map Prod.fst).Nodup → hook pairs = some pairs)
    {value : Json} (h : Plain value) :
    loads floats hook (dumps floats value) = some (sorted value) :=
  loads_render floats hhook h.sorted

/-! ## How long a text is -/

/-- The length of an item with the comma or bracket beside it. -/
def itemLength (floats : FloatText) (item : Json) : Nat := (render floats item).length + 1

/-- The length of a field with the comma or brace beside it. -/
def fieldLength (floats : FloatText) (field : String × Json) : Nat :=
  (dumpsStr field.1.toList).length + (render floats field.2).length + 2

theorem length_renderItems (floats : FloatText) (items : List Json) :
    (renderItems floats items).length = (items.map (itemLength floats)).sum + 1 := by
  induction items with
  | nil => rfl
  | cons item items ih =>
      simp only [renderItems, List.length_cons, List.length_append, ih, List.map_cons,
        List.sum_cons, itemLength]
      omega

theorem length_renderFields (floats : FloatText) (fields : List (String × Json)) :
    (renderFields floats fields).length = (fields.map (fieldLength floats)).sum + 1 := by
  induction fields with
  | nil => rfl
  | cons field fields ih =>
      simp only [renderFields, List.length_cons, List.length_append, ih, List.map_cons,
        List.sum_cons, fieldLength]
      omega

theorem length_render_arr (floats : FloatText) (items : List Json) :
    (render floats (.arr items)).length
      = (items.map (itemLength floats)).sum + if items = [] then 2 else 1 := by
  cases items with
  | nil => rfl
  | cons item items =>
      simp only [render, List.length_cons, List.length_append, length_renderItems, List.map_cons,
        List.sum_cons, itemLength, reduceCtorEq, if_false]
      omega

theorem length_render_obj (floats : FloatText) (fields : List (String × Json)) :
    (render floats (.obj fields)).length
      = (fields.map (fieldLength floats)).sum + if fields = [] then 2 else 1 := by
  cases fields with
  | nil => rfl
  | cons field fields =>
      simp only [render, List.length_cons, List.length_append, length_renderFields, List.map_cons,
        List.sum_cons, fieldLength, reduceCtorEq, if_false]
      omega

mutual

/-- Sorting the fields does not change the length. -/
theorem length_render_sorted (floats : FloatText) (value : Json) :
    (render floats (sorted value)).length = (render floats value).length := by
  match value with
  | .arr items =>
      have hnil : sortedItems items = [] ↔ items = [] := by cases items <;> simp [sortedItems]
      rw [sorted, length_render_arr, length_render_arr, itemLengths_sortedItems]
      simp only [hnil]
  | .obj fields =>
      have hperm := sortFields_perm (sortedFields fields)
      have hnil : sortFields (sortedFields fields) = [] ↔ fields = [] := by
        rw [← List.length_eq_zero_iff, hperm.length_eq]
        cases fields <;> simp [sortedFields]
      rw [sorted, length_render_obj, length_render_obj, (hperm.map _).sum_nat,
        fieldLengths_sortedFields]
      simp only [hnil]
  | .null => rfl
  | .bool _ => rfl
  | .int _ => rfl
  | .float _ => rfl
  | .str _ => rfl

theorem itemLengths_sortedItems (floats : FloatText) (items : List Json) :
    (sortedItems items).map (itemLength floats) = items.map (itemLength floats) := by
  match items with
  | [] => rfl
  | item :: items =>
      rw [sortedItems, List.map_cons, List.map_cons, itemLengths_sortedItems floats items,
        itemLength, length_render_sorted floats item, itemLength]

theorem fieldLengths_sortedFields (floats : FloatText) (fields : List (String × Json)) :
    (sortedFields fields).map (fieldLength floats) = fields.map (fieldLength floats) := by
  match fields with
  | [] => rfl
  | (key, value) :: fields =>
      rw [sortedFields, List.map_cons, List.map_cons, fieldLengths_sortedFields floats fields,
        fieldLength, length_render_sorted floats value, fieldLength]

end

theorem length_dumps (floats : FloatText) (value : Json) :
    (dumps floats value).length = (render floats value).length :=
  length_render_sorted floats value

theorem isPrintable_toDigits {n : Nat} {c : Char} (h : c ∈ Nat.toDigits 10 n) :
    isPrintable c = true := by
  have hdigit := isDigit_of_mem_toDigits h
  simp only [Char.isDigit, Bool.and_eq_true, decide_eq_true_eq, ge_iff_le,
    UInt32.le_iff_toNat_le] at hdigit
  simp only [isPrintable, Bool.and_eq_true, decide_eq_true_eq]
  have hlow : 48 ≤ c.toNat := hdigit.1
  have hhigh : c.toNat ≤ 57 := hdigit.2
  omega

theorem isPrintable_decimalInt {n : Int} {c : Char} (h : c ∈ decimalInt n) :
    isPrintable c = true := by
  cases n with
  | ofNat n => exact isPrintable_toDigits h
  | negSucc n =>
      rcases List.mem_cons.mp h with rfl | h
      · rfl
      · exact isPrintable_toDigits h

mutual

/-- The text of a plain value is visible ASCII. -/
theorem isPrintable_render (floats : FloatText) {value : Json} (hplain : Plain value) :
    ∀ c ∈ render floats value, isPrintable c = true := by
  match value, hplain with
  | .null, _ => exact Text.forall_mem_of_all (l := "null".toList) (by decide)
  | .bool true, _ => exact Text.forall_mem_of_all (l := "true".toList) (by decide)
  | .bool false, _ => exact Text.forall_mem_of_all (l := "false".toList) (by decide)
  | .int n, _ => exact fun c hc => isPrintable_decimalInt hc
  | .str text, _ => exact fun c hc => isPrintable_of_mem_dumpsStr hc
  | .arr [], _ => exact Text.forall_mem_of_all (l := "[]".toList) (by decide)
  | .arr (item :: items), h =>
      intro c hc
      rw [render, List.mem_cons, List.mem_append] at hc
      rcases hc with rfl | hc | hc
      · rfl
      · exact isPrintable_render floats h.1 c hc
      · exact isPrintable_renderItems floats h.2 c hc
  | .obj [], _ => exact Text.forall_mem_of_all (l := "\x7b\x7d".toList) (by decide)
  | .obj ((key, value) :: fields), h =>
      intro c hc
      rw [render, List.mem_cons, List.mem_append, List.mem_cons, List.mem_append] at hc
      rcases hc with rfl | hc | rfl | hc | hc
      · rfl
      · exact isPrintable_of_mem_dumpsStr hc
      · rfl
      · exact isPrintable_render floats h.2.1 c hc
      · exact isPrintable_renderFields floats h.2.2 c hc

theorem isPrintable_renderItems (floats : FloatText) {items : List Json} (h : PlainItems items) :
    ∀ c ∈ renderItems floats items, isPrintable c = true := by
  match items, h with
  | [], _ => exact Text.forall_mem_of_all (l := [']']) (by decide)
  | item :: items, h =>
      intro c hc
      rw [renderItems, List.mem_cons, List.mem_append] at hc
      rcases hc with rfl | hc | hc
      · rfl
      · exact isPrintable_render floats h.1 c hc
      · exact isPrintable_renderItems floats h.2 c hc

theorem isPrintable_renderFields (floats : FloatText) {fields : List (String × Json)}
    (h : PlainFields fields) : ∀ c ∈ renderFields floats fields, isPrintable c = true := by
  match fields, h with
  | [], _ => exact Text.forall_mem_of_all (l := ['\x7d']) (by decide)
  | (key, value) :: fields, h =>
      intro c hc
      rw [renderFields, List.mem_cons, List.mem_append, List.mem_cons, List.mem_append] at hc
      rcases hc with rfl | hc | rfl | hc | hc
      · rfl
      · exact isPrintable_of_mem_dumpsStr hc
      · rfl
      · exact isPrintable_render floats h.1 c hc
      · exact isPrintable_renderFields floats h.2 c hc

end

end Hephaestus.Lib.JsonText
