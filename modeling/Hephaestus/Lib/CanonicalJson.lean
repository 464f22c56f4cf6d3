import Hephaestus.Lib.JsonCodec

/-!
# Canonical JSON

`json.dumps(value, ensure_ascii=False, separators=(",", ":"), sort_keys=True)`:
the text two parties compare, or take the digest of, when they compare values.
That is sound because the text determines the value. Every value ends where its
own text says it ends, or, a number, at the comma or bracket after it, so equal
texts are taken apart together from the front.
-/

namespace Hephaestus.Lib.JsonText

open Hephaestus.Lib

/-- One character of a string; what is not ASCII stays as it is. -/
def escapeRaw (c : Char) : Text :=
  match shortEscape c with
  | some letter => ['\\', letter]
  | none => if c.toNat < 32 then unicodeEscape c.toNat else [c]

/-- The text of a string. -/
def rawStr (t : Text) : Text :=
  '"' :: (t.flatMap escapeRaw ++ ['"'])

/-- A text without a character that only one of the two writers escapes. -/
theorem rawStr_eq_dumpsStr {t : Text}
    (h : (t.all fun c => decide (escapeRaw c = escapeChar c)) = true) : rawStr t = dumpsStr t := by
  have hescape : t.flatMap escapeRaw = t.flatMap escapeChar :=
    List.flatMap_congr fun c hc => of_decide_eq_true (List.all_eq_true.mp h c hc)
  rw [rawStr, dumpsStr, hescape]

mutual

/-- The text of a value, the fields in the order they are in. -/
def renderRaw (floats : FloatText) : Json → Text
  | .null => "null".toList
  | .bool b => if b then "true".toList else "false".toList
  | .int n => decimalInt n
  | .float x => floats.repr x
  | .str text => rawStr text.toList
  | .arr [] => "[]".toList
  | .arr (item :: items) => '[' :: (renderRaw floats item ++ renderRawItems floats items)
  | .obj [] => "\x7b\x7d".toList
  | .obj ((key, value) :: fields) =>
      '\x7b' :: (rawStr key.toList ++
        ':' :: (renderRaw floats value ++ renderRawFields floats fields))

/-- The items after the first, and the bracket. -/
def renderRawItems (floats : FloatText) : List Json → Text
  | [] => [']']
  | item :: items => ',' :: (renderRaw floats item ++ renderRawItems floats items)

/-- The fields after the first, and the brace. -/
def renderRawFields (floats : FloatText) : List (String × Json) → Text
  | [] => ['\x7d']
  | (key, value) :: fields =>
      ',' :: (rawStr key.toList ++
        ':' :: (renderRaw floats value ++ renderRawFields floats fields))

end

/-- The canonical text. -/
def canonicalJson (floats : FloatText) (value : Json) : Text :=
  renderRaw floats (sorted value)

/-! ## Strings -/

theorem escapeRaw_cases (c : Char) :
    (escapeRaw c = [c] ∧ c ≠ '"' ∧ c ≠ '\\' ∧ ¬ c.toNat < 32) ∨ escapeRaw c = escapeChar c := by
  unfold escapeRaw escapeChar
  cases hs : shortEscape c with
  | some letter => exact .inr rfl
  | none =>
      by_cases hlow : c.toNat < 32
      · have hp : isPrintable c = false := by
          simp only [isPrintable, Bool.and_eq_false_iff, decide_eq_false_iff_not]
          omega
        have hplane : c.toNat < 0x10000 := by omega
        simp only [hlow, hp, hplane, if_true, Bool.false_eq_true, if_false]
        exact .inr trivial
      · refine .inl ⟨if_neg hlow, ?_, ?_, hlow⟩
        · rintro rfl
          cases hs
        · rintro rfl
          cases hs

theorem readString_escapeRaw (n : Nat) (c : Char) (rest : Text) :
    readString (n + 1) (escapeRaw c ++ rest)
      = (readString n rest).map fun read => (c :: read.1, read.2) := by
  rcases escapeRaw_cases c with ⟨h, hquote, hback, hlow⟩ | h
  · rw [h, List.singleton_append, readString, if_neg hquote, if_neg hback, if_neg hlow]
  · rw [h, readString_escapeChar]

/-- A string, after its opening quote, is read to its end. -/
theorem readString_raw (t rest : Text) :
    ∀ n, t.length < n → readString n (t.flatMap escapeRaw ++ '"' :: rest) = some (t, rest) := by
  induction t with
  | nil =>
      intro n hn
      obtain ⟨m, rfl⟩ := Nat.exists_eq_succ_of_ne_zero (Nat.ne_of_gt hn)
      rfl
  | cons c t ih =>
      intro n hn
      obtain ⟨m, rfl⟩ := Nat.exists_eq_succ_of_ne_zero (Nat.ne_of_gt (Nat.zero_lt_of_lt hn))
      rw [List.length_cons] at hn
      rw [List.flatMap_cons, List.append_assoc, readString_escapeRaw, ih m (by omega)]
      rfl

theorem rawStr_append (t rest : Text) :
    rawStr t ++ rest = '"' :: (t.flatMap escapeRaw ++ '"' :: rest) := by
  simp [rawStr]

/-- The text of a string can be taken off the front. -/
theorem rawStr_append_inj {t u r s : Text} (h : rawStr t ++ r = rawStr u ++ s) :
    t = u ∧ r = s := by
  rw [rawStr_append, rawStr_append] at h
  have ht := readString_raw t r (t.length + u.length + 1) (by omega)
  have hu := readString_raw u s (t.length + u.length + 1) (by omega)
  rw [(List.cons.inj h).2, hu] at ht
  exact Prod.mk.inj (Option.some.inj ht).symm

/-! ## Numbers -/

/-- The text of an integer can be taken off where it ends. -/
theorem decimalInt_append_inj {m n : Int} {r s : Text} (hr : Ends r) (hs : Ends s)
    (h : decimalInt m ++ r = decimalInt n ++ s) : m = n ∧ r = s := by
  have hm := readNumber_decimalInt ⟨fun _ => [], fun _ => .nan⟩ m hr
  have hn := readNumber_decimalInt ⟨fun _ => [], fun _ => .nan⟩ n hs
  rw [h, hn] at hm
  obtain ⟨hint, hrest⟩ := Prod.mk.inj (Option.some.inj hm)
  exact ⟨(Json.int.inj hint).symm, hrest.symm⟩

/-! ## Values -/

/-- Which kind of value a character starts; six for one that starts none. -/
def startOf (c : Char) : Nat :=
  if c = 'n' then 0
  else if c = 't' ∨ c = 'f' then 1
  else if c.isDigit ∨ c = '-' then 2
  else if c = '"' then 3
  else if c = '[' then 4
  else if c = '\x7b' then 5
  else 6

/-- The kind of a value. -/
def kindOf : Json → Nat
  | .null => 0
  | .bool _ => 1
  | .int _ => 2
  | .str _ => 3
  | .arr _ => 4
  | .obj _ => 5
  | .float _ => 6

theorem startOf_decimalInt {c : Char} (h : c.isDigit = true ∨ c = '-') : startOf c = 2 := by
  have hn : c ≠ 'n' := by rintro rfl; simp [Char.isDigit] at h
  have ht : ¬ (c = 't' ∨ c = 'f') := by
    rintro (rfl | rfl)
    · simp [Char.isDigit] at h
    · simp [Char.isDigit] at h
  rw [startOf, if_neg hn, if_neg ht, if_pos h]

/-- The first character of a value says of which kind it is. -/
theorem renderRaw_cons (floats : FloatText) {value : Json} (h : Plain value) :
    ∃ c t, renderRaw floats value = c :: t ∧ startOf c = kindOf value := by
  cases value with
  | null => exact ⟨'n', _, rfl, rfl⟩
  | bool b => cases b <;> exact ⟨_, _, rfl, rfl⟩
  | int n =>
      obtain ⟨c, digits, hdigits, hc⟩ := decimalInt_cons n
      refine ⟨c, digits, by rw [renderRaw, hdigits], startOf_decimalInt ?_⟩
      rcases hc with hc | ⟨hc, _⟩
      · exact .inl hc
      · exact .inr hc
  | float x => exact absurd h (by simp [Plain])
  | str text => exact ⟨'"', _, rfl, rfl⟩
  | arr items => cases items <;> exact ⟨'[', _, rfl, rfl⟩
  | obj fields => cases fields <;> exact ⟨'\x7b', _, rfl, rfl⟩

theorem ends_renderRawItems (floats : FloatText) (items : List Json) (rest : Text) :
    Ends (renderRawItems floats items ++ rest) := by
  cases items with
  | nil => exact fun c hc => .inr (.inl (Option.some.inj hc).symm)
  | cons item items => exact fun c hc => .inl (Option.some.inj hc).symm

theorem ends_renderRawFields (floats : FloatText) (fields : List (String × Json)) (rest : Text) :
    Ends (renderRawFields floats fields ++ rest) := by
  cases fields with
  | nil => exact fun c hc => .inr (.inr (Option.some.inj hc).symm)
  | cons item items => exact fun c hc => .inl (Option.some.inj hc).symm

/-- Values whose texts start alike are of the same kind. -/
theorem kindOf_eq {floats : FloatText} {v w : Json} {r s : Text} (hv : Plain v) (hw : Plain w)
    (h : renderRaw floats v ++ r = renderRaw floats w ++ s) : kindOf v = kindOf w := by
  obtain ⟨c, t, hc, hkind⟩ := renderRaw_cons floats hv
  obtain ⟨d, u, hd, hkind'⟩ := renderRaw_cons floats hw
  rw [hc, hd] at h
  rw [← hkind, ← hkind', (List.cons.inj h).1]

/-- No value starts with a bracket that closes. -/
theorem renderRaw_append_ne {floats : FloatText} {v : Json} {c : Char} {r s : Text} (hv : Plain v)
    (hc : startOf c = 6) : renderRaw floats v ++ r ≠ c :: s := by
  intro h
  obtain ⟨d, t, hd, hkind⟩ := renderRaw_cons floats hv
  rw [hd, List.cons_append] at h
  rw [(List.cons.inj h).1, hc] at hkind
  cases v with
  | float x => exact absurd hv (by simp [Plain])
  | _ => cases hkind

mutual

/-- The text of a value can be taken off where it ends. -/
theorem renderRaw_append_inj (floats : FloatText) (v : Json) {w : Json} {r s : Text}
    (hv : Plain v) (hw : Plain w) (hr : Ends r) (hs : Ends s)
    (h : renderRaw floats v ++ r = renderRaw floats w ++ s) : v = w ∧ r = s := by
  have hkind := kindOf_eq hv hw h
  match v, w with
  | .null, .null => exact ⟨rfl, List.append_cancel_left h⟩
  | .bool a, .bool b =>
      cases a <;> cases b <;> simp_all [renderRaw]
  | .int m, .int n =>
      obtain ⟨rfl, hrest⟩ := decimalInt_append_inj hr hs h
      exact ⟨rfl, hrest⟩
  | .str a, .str b =>
      obtain ⟨htext, hrest⟩ := rawStr_append_inj h
      exact ⟨congrArg Json.str (String.toList_injective htext), hrest⟩
  | .arr [], .arr [] => exact ⟨rfl, List.append_cancel_left h⟩
  | .arr [], .arr (item :: items) =>
      rw [renderRaw, renderRaw, List.cons_append, List.append_assoc] at h
      exact absurd (List.cons.inj h).2.symm (renderRaw_append_ne hw.1 rfl)
  | .arr (item :: items), .arr [] =>
      rw [renderRaw, renderRaw, List.cons_append, List.append_assoc] at h
      exact absurd (List.cons.inj h).2 (renderRaw_append_ne hv.1 rfl)
  | .arr (item :: items), .arr (item' :: items') =>
      rw [renderRaw, renderRaw, List.cons_append, List.cons_append, List.append_assoc,
        List.append_assoc] at h
      obtain ⟨rfl, hrest⟩ := renderRaw_append_inj floats item hv.1 hw.1 (ends_renderRawItems _ _ _)
        (ends_renderRawItems _ _ _) (List.cons.inj h).2
      obtain ⟨rfl, hend⟩ := renderRawItems_append_inj floats items hv.2 hw.2 hrest
      exact ⟨rfl, hend⟩
  | .obj [], .obj [] => exact ⟨rfl, List.append_cancel_left h⟩
  | .obj [], .obj ((key, value) :: fields) => simp [renderRaw, rawStr] at h
  | .obj ((key, value) :: fields), .obj [] => simp [renderRaw, rawStr] at h
  | .obj ((key, value) :: fields), .obj ((key', value') :: fields') =>
      rw [renderRaw, renderRaw, List.cons_append, List.cons_append, List.append_assoc,
        List.append_assoc, List.cons_append, List.cons_append, List.append_assoc,
        List.append_assoc] at h
      obtain ⟨hkey, hrest⟩ := rawStr_append_inj (List.cons.inj h).2
      obtain rfl := String.toList_injective hkey
      obtain ⟨rfl, htail⟩ := renderRaw_append_inj floats value hv.2.1 hw.2.1
        (ends_renderRawFields _ _ _) (ends_renderRawFields _ _ _) (List.cons.inj hrest).2
      obtain ⟨rfl, hend⟩ := renderRawFields_append_inj floats fields hv.2.2 hw.2.2 htail
      exact ⟨rfl, hend⟩

theorem renderRawItems_append_inj (floats : FloatText) (items : List Json) {items' : List Json}
    {r s : Text} (hv : PlainItems items) (hw : PlainItems items')
    (h : renderRawItems floats items ++ r = renderRawItems floats items' ++ s) :
    items = items' ∧ r = s := by
  match items, items' with
  | [], [] => exact ⟨rfl, List.append_cancel_left h⟩
  | [], item :: items => simp [renderRawItems] at h
  | item :: items, [] => simp [renderRawItems] at h
  | item :: items, item' :: items' =>
      rw [renderRawItems, renderRawItems, List.cons_append, List.cons_append, List.append_assoc,
        List.append_assoc] at h
      obtain ⟨rfl, hrest⟩ := renderRaw_append_inj floats item hv.1 hw.1 (ends_renderRawItems _ _ _)
        (ends_renderRawItems _ _ _) (List.cons.inj h).2
      obtain ⟨rfl, hend⟩ := renderRawItems_append_inj floats items hv.2 hw.2 hrest
      exact ⟨rfl, hend⟩

theorem renderRawFields_append_inj (floats : FloatText) (fields : List (String × Json))
    {fields' : List (String × Json)} {r s : Text} (hv : PlainFields fields)
    (hw : PlainFields fields')
    (h : renderRawFields floats fields ++ r = renderRawFields floats fields' ++ s) :
    fields = fields' ∧ r = s := by
  match fields, fields' with
  | [], [] => exact ⟨rfl, List.append_cancel_left h⟩
  | [], (key, value) :: fields => simp [renderRawFields] at h
  | (key, value) :: fields, [] => simp [renderRawFields] at h
  | (key, value) :: fields, (key', value') :: fields' =>
      rw [renderRawFields, renderRawFields, List.cons_append, List.cons_append,
        List.append_assoc, List.append_assoc, List.cons_append, List.cons_append,
        List.append_assoc, List.append_assoc] at h
      obtain ⟨hkey, hrest⟩ := rawStr_append_inj (List.cons.inj h).2
      obtain rfl := String.toList_injective hkey
      obtain ⟨rfl, htail⟩ := renderRaw_append_inj floats value hv.1 hw.1
        (ends_renderRawFields _ _ _) (ends_renderRawFields _ _ _) (List.cons.inj hrest).2
      obtain ⟨rfl, hend⟩ := renderRawFields_append_inj floats fields hv.2 hw.2 htail
      exact ⟨rfl, hend⟩

end

/-- Values with the same canonical text are the same but for the order of
their fields. -/
theorem canonicalJson_inj {floats : FloatText} {v w : Json} (hv : Plain v) (hw : Plain w)
    (h : canonicalJson floats v = canonicalJson floats w) : sorted v = sorted w := by
  refine (renderRaw_append_inj floats (sorted v) hv.sorted hw.sorted ends_nil ends_nil ?_).1
  rw [List.append_nil, List.append_nil]
  exact h

end Hephaestus.Lib.JsonText
