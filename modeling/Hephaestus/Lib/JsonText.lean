import Hephaestus.Lib.Text

/-!
# JSON as text

`json.dumps` with its default `ensure_ascii`: whatever is in a string, its text
is visible ASCII and spaces, so a value written into one line of a comment stays
on that line.
-/

namespace Hephaestus.Lib.JsonText

open Hephaestus.Lib

/-- `\uXXXX`. -/
def unicodeEscape (n : Nat) : Text :=
  ['\\', 'u', Text.hexDigit (n / 4096 % 16), Text.hexDigit (n / 256 % 16),
    Text.hexDigit (n / 16 % 16), Text.hexDigit (n % 16)]

/-- The letter of a two-character escape. -/
def shortEscape (c : Char) : Option Char :=
  if c = '"' then some '"'
  else if c = '\\' then some '\\'
  else if c = '\n' then some 'n'
  else if c = '\r' then some 'r'
  else if c = '\t' then some 't'
  else if c.toNat = 8 then some 'b'
  else if c.toNat = 12 then some 'f'
  else none

/-- A character of the text of a value. -/
def isPrintable (c : Char) : Bool :=
  32 ≤ c.toNat && c.toNat ≤ 126

/-- One character of a string; above the basic plane it is a surrogate pair. -/
def escapeChar (c : Char) : Text :=
  match shortEscape c with
  | some letter => ['\\', letter]
  | none =>
      if isPrintable c then [c]
      else if c.toNat < 0x10000 then unicodeEscape c.toNat
      else
        unicodeEscape (0xd800 + (c.toNat - 0x10000) / 1024)
          ++ unicodeEscape (0xdc00 + (c.toNat - 0x10000) % 1024)

/-- `json.dumps(text)`. -/
def dumpsStr (t : Text) : Text :=
  '"' :: (t.flatMap escapeChar ++ ['"'])

/-- `json.dumps(texts)` of a list or tuple of strings. -/
def dumpsStrs (texts : List Text) : Text :=
  '[' :: (List.intercalate ", ".toList (texts.map dumpsStr) ++ [']'])

theorem isPrintable_hexDigit (n : Nat) : isPrintable (Text.hexDigit (n % 16)) = true := by
  have h : n % 16 < 16 := Nat.mod_lt _ (by omega)
  generalize n % 16 = m at h
  revert m
  decide

theorem isPrintable_of_mem_unicodeEscape {n : Nat} {c : Char} (h : c ∈ unicodeEscape n) :
    isPrintable c = true := by
  simp only [unicodeEscape, List.mem_cons, List.not_mem_nil, or_false] at h
  rcases h with rfl | rfl | rfl | rfl | rfl | rfl
  · rfl
  · rfl
  all_goals exact isPrintable_hexDigit _

theorem isPrintable_of_shortEscape {c letter : Char} (h : shortEscape c = some letter) :
    isPrintable letter = true := by
  have hmem : letter ∈ ['"', '\\', 'n', 'r', 't', 'b', 'f'] := by
    unfold shortEscape at h
    repeat' split at h
    all_goals simp only [Option.some.injEq, reduceCtorEq] at h
    all_goals simp [← h]
  have hall : ∀ d ∈ ['"', '\\', 'n', 'r', 't', 'b', 'f'], isPrintable d = true :=
    Text.forall_mem_of_all (by decide)
  exact hall letter hmem

theorem isPrintable_of_mem_escapeChar {c d : Char} (h : d ∈ escapeChar c) :
    isPrintable d = true := by
  unfold escapeChar at h
  split at h
  · next letter hs =>
    simp only [List.mem_cons, List.not_mem_nil, or_false] at h
    rcases h with rfl | rfl
    · rfl
    · exact isPrintable_of_shortEscape hs
  split at h
  · next hc =>
    rw [List.mem_singleton] at h
    rw [h]
    exact hc
  split at h
  · exact isPrintable_of_mem_unicodeEscape h
  · rcases List.mem_append.mp h with h | h
    · exact isPrintable_of_mem_unicodeEscape h
    · exact isPrintable_of_mem_unicodeEscape h

theorem isPrintable_of_mem_dumpsStr {t : Text} {d : Char} (h : d ∈ dumpsStr t) :
    isPrintable d = true := by
  simp only [dumpsStr, List.mem_cons, List.mem_append, List.mem_flatMap, List.not_mem_nil,
    or_false] at h
  rcases h with rfl | ⟨c, -, hd⟩ | rfl
  · rfl
  · exact isPrintable_of_mem_escapeChar hd
  · rfl

theorem isPrintable_of_mem_intercalate {separator : Text} {texts : List Text} {d : Char}
    (hs : ∀ c ∈ separator, isPrintable c = true)
    (ht : ∀ t ∈ texts, ∀ c ∈ t, isPrintable c = true)
    (h : d ∈ List.intercalate separator texts) : isPrintable d = true := by
  rw [List.intercalate, List.mem_flatten] at h
  obtain ⟨piece, hpiece, hd⟩ := h
  have hcases : piece = separator ∨ piece ∈ texts := by
    clear hd hs ht
    induction texts with
    | nil => simp at hpiece
    | cons t rest ih =>
        cases rest with
        | nil =>
            rw [List.intersperse_singleton, List.mem_singleton] at hpiece
            exact Or.inr (by rw [hpiece]; exact List.mem_cons_self)
        | cons t' rest =>
            rw [List.intersperse_cons_cons, List.mem_cons, List.mem_cons] at hpiece
            rcases hpiece with h | h | h
            · exact Or.inr (by rw [h]; exact List.mem_cons_self)
            · exact Or.inl h
            · rcases ih h with h | h
              · exact Or.inl h
              · exact Or.inr (List.mem_cons_of_mem t h)
  rcases hcases with rfl | hmem
  · exact hs d hd
  · exact ht piece hmem d hd

theorem isPrintable_of_mem_dumpsStrs {texts : List Text} {d : Char} (h : d ∈ dumpsStrs texts) :
    isPrintable d = true := by
  simp only [dumpsStrs, List.mem_cons, List.mem_append, List.not_mem_nil, or_false] at h
  rcases h with rfl | h | rfl
  · rfl
  · refine isPrintable_of_mem_intercalate ?_ ?_ h
    · exact Text.forall_mem_of_all (by decide)
    · intro t ht c hc
      obtain ⟨t', -, rfl⟩ := List.mem_map.mp ht
      exact isPrintable_of_mem_dumpsStr hc
  · rfl

end Hephaestus.Lib.JsonText
