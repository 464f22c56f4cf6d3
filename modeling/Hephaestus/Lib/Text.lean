import Mathlib.Data.List.DropRight
import Mathlib.Data.List.Infix
import Mathlib.Data.List.Lex

/-!
# Python strings

A `str` is a list of code points. The functions are the methods of `str` that
code uses to take a decoration off a text again: white space at the ends, a
prefix, the lines. What they all have in common is that the result is a piece
of the text they are given, and for the ones that only cut at the front, a
suffix of it: two ways to cut at the front agree exactly when they cut equally
much, and that is how the lemmas below compare them.
-/

namespace Hephaestus.Lib

/-- A `str`. -/
abbrev Text := List Char

namespace Text

/-- `t in texts`. -/
instance decidableMem (t : Text) (texts : List Text) : Decidable (t ∈ texts) :=
  decidable_of_iff (texts.contains t = true) List.contains_iff_mem

/-- `c.isspace()`. -/
def isSpace (c : Char) : Bool :=
  let n := c.toNat
  (9 ≤ n && n ≤ 13) || (28 ≤ n && n ≤ 32) || n == 0x85 || n == 0xa0 || n == 0x1680
    || (0x2000 ≤ n && n ≤ 0x200a) || n == 0x2028 || n == 0x2029 || n == 0x202f
    || n == 0x205f || n == 0x3000

/-- `t.lstrip()`. -/
def lstrip (t : Text) : Text :=
  t.dropWhile isSpace

/-- `t.rstrip()`. -/
def rstrip (t : Text) : Text :=
  t.rdropWhile isSpace

/-- `t.strip()`. -/
def strip (t : Text) : Text :=
  rstrip (lstrip t)

/-- `t.startswith(start)`. -/
def startsWith (t start : Text) : Bool :=
  start.isPrefixOf t

/-- `t.removeprefix(start)`. -/
def removePrefix (start t : Text) : Text :=
  if startsWith t start then t.drop start.length else t

/-- `t.lower()` of a text of ASCII characters. -/
def lower (t : Text) : Text :=
  t.map Char.toLower

/-- `needle in t`. -/
def contains (needle t : Text) : Bool :=
  t.tails.any fun rest => startsWith rest needle

/-- The characters `str.splitlines` ends a line at. -/
def isLineBreak (c : Char) : Bool :=
  let n := c.toNat
  (10 ≤ n && n ≤ 13) || (28 ≤ n && n ≤ 30) || n == 0x85 || n == 0x2028 || n == 0x2029

/-- `t.splitlines()`. -/
@[grind =]
def splitlines : Text → List Text
  | [] => []
  | '\r' :: '\n' :: rest => [] :: splitlines rest
  | c :: rest =>
      if isLineBreak c then [] :: splitlines rest
      else
        match splitlines rest with
        | [] => [[c]]
        | line :: lines => (c :: line) :: lines

/-- `"\n".join(lines)`. -/
def joinLines (lines : List Text) : Text :=
  List.intercalate ['\n'] lines

/-- `re.sub(r"\s+", " ", t)`; the flag says whether the last character read was
white space. -/
@[grind =]
def collapseFrom : Bool → Text → Text
  | _, [] => []
  | inSpace, c :: rest =>
      if isSpace c then
        if inSpace then collapseFrom true rest else ' ' :: collapseFrom true rest
      else c :: collapseFrom false rest

def collapse (t : Text) : Text :=
  collapseFrom false t

/-- One character of `[0-9a-f]`. -/
def isLowerHex (c : Char) : Bool :=
  (48 ≤ c.toNat && c.toNat ≤ 57) || (97 ≤ c.toNat && c.toNat ≤ 102)

/-- The digit of a number below 16. -/
def hexDigit (n : Nat) : Char :=
  if n < 10 then Char.ofNat (48 + n) else Char.ofNat (87 + n)

theorem isLowerHex_hexDigit {n : Nat} (h : n < 16) : isLowerHex (hexDigit n) = true := by
  revert n
  decide

/-- `re.fullmatch(r"[0-9a-f]{n}", t)`. -/
def isHexOfLength (n : Nat) (t : Text) : Bool :=
  t.length = n && t.all isLowerHex

/-- No visible ASCII character is white space. -/
theorem isSpace_of_visible {c : Char} (hl : 33 ≤ c.toNat) (hu : c.toNat ≤ 126) :
    isSpace c = false := by
  simp only [isSpace, Bool.or_eq_false_iff, Bool.and_eq_false_iff, decide_eq_false_iff_not,
    beq_eq_false_iff_ne]
  omega

theorem isSpace_toLower {c : Char} (h : isSpace c = false) : isSpace c.toLower = false := by
  unfold Char.toLower
  split
  · next hc =>
    simp only [ge_iff_le, UInt32.le_iff_toNat_le] at hc
    obtain ⟨h65, h90⟩ : 65 ≤ c.val.toNat ∧ c.val.toNat ≤ 90 := hc
    have hval : (c.val + ('a'.val - 'A'.val)).toNat = c.val.toNat + 32 := by
      rw [UInt32.toNat_add, show ('a'.val - 'A'.val).toNat = 32 from rfl]
      omega
    refine isSpace_of_visible ?_ ?_
    · rw [Char.toNat, hval]
      omega
    · rw [Char.toNat, hval]
      omega
  · exact h

theorem toLower_of_isSpace {c : Char} (h : isSpace c = true) : c.toLower = c := by
  unfold Char.toLower
  split
  · next hc =>
    simp only [ge_iff_le, UInt32.le_iff_toNat_le] at hc
    obtain ⟨h65, h90⟩ : 65 ≤ c.val.toNat ∧ c.val.toNat ≤ 90 := hc
    have hvisible : isSpace c = false := isSpace_of_visible (by rw [Char.toNat]; omega)
      (by rw [Char.toNat]; omega)
    rw [hvisible] at h
    exact absurd h Bool.false_ne_true
  · rfl

theorem isAlphanum_of_isSpace {c : Char} (h : isSpace c = true) : c.isAlphanum = false := by
  simp only [isSpace, Bool.or_eq_true, Bool.and_eq_true, decide_eq_true_eq, beq_iff_eq,
    Char.toNat] at h
  delta Char.isAlphanum Char.isAlpha Char.isUpper Char.isLower Char.isDigit
  simp only [Bool.or_eq_false_iff, Bool.and_eq_false_iff, decide_eq_false_iff_not, ge_iff_le,
    UInt32.le_iff_toNat_le, show ('A'.val).toNat = 65 from rfl,
    show ('Z'.val).toNat = 90 from rfl, show ('a'.val).toNat = 97 from rfl,
    show ('z'.val).toNat = 122 from rfl, show ('0'.val).toNat = 48 from rfl,
    show ('9'.val).toNat = 57 from rfl]
  omega

/-- What Python asks of the Unicode tables. Of these the proofs use what holds of
ASCII characters and of white space. -/
structure Unicode where
  /-- `c.isalnum()`. -/
  isAlnum : Char → Bool
  /-- `t.lower()`. -/
  lower : Text → Text
  /-- `t.upper()`. -/
  upper : Text → Text
  /-- `c.casefold()`; `str.casefold` works character by character. -/
  casefold : Char → Text
  isAlnum_ascii : ∀ c : Char, c.toNat < 128 → isAlnum c = c.isAlphanum
  isAlnum_space : ∀ c, isSpace c = true → isAlnum c = false
  lower_ascii : ∀ t : Text, (∀ c ∈ t, c.toNat < 128) → lower t = t.map Char.toLower
  upper_ascii : ∀ t : Text, (∀ c ∈ t, c.toNat < 128) → upper t = t.map Char.toUpper
  casefold_ascii : ∀ c : Char, c.toNat < 128 → casefold c = [c.toLower]
  casefold_space : ∀ c, isSpace c = true → casefold c = [c]
  isSpace_casefold : ∀ c, isSpace c = false → ∀ d ∈ casefold c, isSpace d = false

/-- `t.casefold()`. -/
def Unicode.foldText (u : Unicode) (t : Text) : Text :=
  t.flatMap u.casefold

/-- The tables cut down to ASCII: other characters are not letters and have one case. -/
def asciiTables : Unicode where
  isAlnum c := c.isAlphanum
  lower t := t.map Char.toLower
  upper t := t.map Char.toUpper
  casefold c := [c.toLower]
  isAlnum_ascii _ _ := rfl
  isAlnum_space _ h := isAlphanum_of_isSpace h
  lower_ascii _ _ := rfl
  upper_ascii _ _ := rfl
  casefold_ascii _ _ := rfl
  casefold_space c h := by rw [toLower_of_isSpace h]
  isSpace_casefold := by
    intro c hc d hd
    rw [List.mem_singleton] at hd
    rw [hd]
    exact isSpace_toLower hc

/-! ## What is cut off -/

theorem lstrip_suffix (t : Text) : lstrip t <:+ t :=
  List.dropWhile_suffix _

/-- `a < b`: by the code points. -/
@[grind =]
def sortsBefore : Text → Text → Bool
  | _, [] => false
  | [], _ :: _ => true
  | a :: as, b :: bs => decide (a.toNat < b.toNat) || (decide (a = b) && sortsBefore as bs)

theorem sortsBefore_irrefl (t : Text) : sortsBefore t t = false := by
  induction t with
  | nil => rfl
  | cons c t ih => simp [sortsBefore, ih]

theorem sortsBefore_asymm {a b : Text} (h : sortsBefore a b = true) : sortsBefore b a = false := by
  induction a generalizing b with
  | nil =>
      cases b with
      | nil => rfl
      | cons d b => rfl
  | cons c a ih =>
      cases b with
      | nil => cases h
      | cons d b =>
          simp only [sortsBefore, Bool.or_eq_true, Bool.and_eq_true, decide_eq_true_eq] at h
          rcases h with hlt | ⟨rfl, hrest⟩
          · have hne : d ≠ c := by
              intro heq
              rw [heq] at hlt
              omega
            have hge : ¬ d.toNat < c.toNat := by omega
            simp [sortsBefore, hne, hge]
          · simp [sortsBefore, ih hrest]

theorem sortsBefore_iff {a b : Text} :
    sortsBefore a b = true ↔ a.map Char.toNat < b.map Char.toNat := by
  induction a generalizing b with
  | nil =>
      cases b with
      | nil => simp [sortsBefore]
      | cons d b => simp [sortsBefore]
  | cons c a ih =>
      cases b with
      | nil => simp [sortsBefore]
      | cons d b =>
          simp only [sortsBefore, Bool.or_eq_true, Bool.and_eq_true, decide_eq_true_eq, ih,
            List.map_cons, List.cons_lt_cons_iff, Char.toNat_inj]

theorem not_sortsBefore_iff {a b : Text} :
    sortsBefore b a = false ↔ a.map Char.toNat ≤ b.map Char.toNat := by
  rw [← Bool.not_eq_true, sortsBefore_iff, not_lt]

/-- What a run over the list checks holds of its members. -/
theorem forall_mem_of_all {α : Type} {p : α → Prop} [DecidablePred p] {l : List α}
    (h : (l.all fun a => decide (p a)) = true) : ∀ a ∈ l, p a := by
  intro a ha
  exact of_decide_eq_true (List.all_eq_true.mp h a ha)

theorem rstrip_initial (t : Text) : rstrip t <+: t :=
  List.rdropWhile_prefix _ t

theorem removePrefix_suffix (start t : Text) : removePrefix start t <:+ t := by
  unfold removePrefix
  split
  · exact List.drop_suffix _ _
  · exact List.suffix_refl t

theorem removePrefix_append (start t : Text) : removePrefix start (start ++ t) = t := by
  simp [removePrefix, startsWith]

theorem removePrefix_of_not {start t : Text} (h : startsWith t start = false) :
    removePrefix start t = t := by
  simp [removePrefix, h]

/-- A prefix that is there and is not empty makes the text shorter. -/
theorem removePrefix_eq_self_iff {start t : Text} (hs : start ≠ []) :
    removePrefix start t = t ↔ startsWith t start = false := by
  constructor
  · intro h
    by_contra hp
    rw [Bool.not_eq_false] at hp
    have hle : start.length ≤ t.length := by
      have hpre : start <+: t := List.isPrefixOf_iff_prefix.mp hp
      exact hpre.length_le
    have hpos : 0 < start.length := List.length_pos_of_ne_nil hs
    have hlen : (removePrefix start t).length = t.length := by rw [h]
    simp only [removePrefix, hp, if_true, List.length_drop] at hlen
    omega
  · intro h
    exact removePrefix_of_not h

theorem length_strip_le (t : Text) : (strip t).length ≤ t.length :=
  le_trans (rstrip_initial _).length_le (lstrip_suffix t).length_le

/-! ## Ends without white space -/

/-- What is left of a text whose end is not white space ends the same way. -/
theorem rstrip_of_suffix {s t : Text} (ht : rstrip t = t) (h : s <:+ t) : rstrip s = s := by
  unfold rstrip at ht ⊢
  rw [List.rdropWhile_eq_self_iff] at ht ⊢
  intro hs
  have htn : t ≠ [] := by
    rintro rfl
    exact hs (List.suffix_nil.mp h)
  have hlast : s.getLast hs = t.getLast htn := h.getLast hs
  rw [hlast]
  exact ht htn

/-- A text that ends without white space is not all white space. -/
theorem lstrip_ne_nil {t : Text} (ht : rstrip t = t) (hne : t ≠ []) : lstrip t ≠ [] := by
  intro hnil
  unfold lstrip at hnil
  rw [List.dropWhile_eq_nil_iff] at hnil
  unfold rstrip at ht
  rw [List.rdropWhile_eq_self_iff] at ht
  exact ht hne (hnil _ (List.getLast_mem hne))

theorem rstrip_rstrip (t : Text) : rstrip (rstrip t) = rstrip t :=
  List.rdropWhile_idempotent isSpace t

theorem rstrip_strip (t : Text) : rstrip (strip t) = strip t :=
  rstrip_rstrip _

/-- The front of a text without white space there stays so when the end is cut. -/
theorem lstrip_rstrip_of_lstrip {t : Text} (h : lstrip t = t) : lstrip (rstrip t) = rstrip t := by
  unfold lstrip at h ⊢
  rw [List.dropWhile_eq_self_iff] at h ⊢
  intro hl
  have hpos : 0 < t.length := lt_of_lt_of_le hl (rstrip_initial t).length_le
  have heq : (rstrip t)[0] = t[0] := (rstrip_initial t).getElem hl
  rw [heq]
  exact h hpos

theorem lstrip_lstrip (t : Text) : lstrip (lstrip t) = lstrip t :=
  List.dropWhile_idempotent isSpace t

theorem lstrip_strip (t : Text) : lstrip (strip t) = strip t :=
  lstrip_rstrip_of_lstrip (lstrip_lstrip t)

theorem strip_strip (t : Text) : strip (strip t) = strip t := by
  rw [strip, lstrip_strip, rstrip_strip]

/-- Only the front is left to cut of a text that ends without white space. -/
theorem strip_of_rstrip {t : Text} (h : rstrip t = t) : strip t = lstrip t :=
  rstrip_of_suffix h (lstrip_suffix t)

/-- A text is what is stripped from it around what is left. -/
theorem strip_split (t : Text) :
    ∃ p q, t = p ++ (strip t ++ q) ∧ ∀ c ∈ p, isSpace c = true := by
  refine ⟨t.takeWhile isSpace, (lstrip t).rtakeWhile isSpace, ?_, fun c hc =>
    List.mem_takeWhile_imp hc⟩
  have hright : strip t ++ (lstrip t).rtakeWhile isSpace = lstrip t :=
    List.rdropWhile_append_rtakeWhile
  rw [hright]
  exact (List.takeWhile_append_dropWhile).symm

theorem strip_lstrip (t : Text) : strip (lstrip t) = strip t := by
  rw [strip, lstrip_lstrip, strip]

/-- A text that does not begin with white space. -/
theorem lstrip_cons {c : Char} {t : Text} (h : isSpace c = false) : lstrip (c :: t) = c :: t := by
  rw [lstrip, List.dropWhile_cons_of_neg]
  rw [h]
  exact Bool.false_ne_true

theorem startsWith_iff {t start : Text} : startsWith t start = true ↔ ∃ rest, t = start ++ rest := by
  rw [startsWith, List.isPrefixOf_iff_prefix]
  constructor
  · rintro ⟨rest, h⟩
    exact ⟨rest, h.symm⟩
  · rintro ⟨rest, h⟩
    exact ⟨rest, h.symm⟩

/-- Text behind a start without white space in front changes nothing there. -/
theorem lstrip_append {a : Text} (h : lstrip a = a) (hne : a ≠ []) (b : Text) :
    lstrip (a ++ b) = a ++ b := by
  cases a with
  | nil => exact absurd rfl hne
  | cons c a =>
      have hc : isSpace c = false := by
        unfold lstrip at h
        rw [List.dropWhile_eq_self_iff] at h
        simpa using h (List.length_pos_of_ne_nil hne)
      exact lstrip_cons hc

/-- A stripped text starts with `start` only if its own start goes with it. -/
theorem startsWith_strip_append {start a : Text} (h : lstrip a = a) (hne : a ≠ [])
    (h1 : startsWith a start = false) (h2 : startsWith start a = false) (b : Text) :
    startsWith (strip (a ++ b)) start = false := by
  by_contra hs
  rw [Bool.not_eq_false] at hs
  have hstart : start <+: strip (a ++ b) := List.isPrefixOf_iff_prefix.mp hs
  have hstrip : strip (a ++ b) <+: a ++ b := by
    have hr : strip (a ++ b) <+: lstrip (a ++ b) := rstrip_initial _
    rw [lstrip_append h hne] at hr
    exact hr
  rcases List.prefix_or_prefix_of_prefix (hstart.trans hstrip) (List.prefix_append a b) with hp | hp
  · rw [startsWith, List.isPrefixOf_iff_prefix.mpr hp] at h1
    cases h1
  · rw [startsWith, List.isPrefixOf_iff_prefix.mpr hp] at h2
    cases h2

theorem contains_of_split {needle t a b : Text} (h : t = a ++ (needle ++ b)) :
    contains needle t = true := by
  rw [contains, List.any_eq_true]
  refine ⟨needle ++ b, ?_, startsWith_iff.mpr ⟨b, rfl⟩⟩
  rw [List.mem_tails, h]
  exact List.suffix_append a _

theorem lstrip_of_strip {t : Text} (h : strip t = t) : lstrip t = t := by
  rw [← h]
  exact lstrip_strip t

theorem rstrip_of_strip {t : Text} (h : strip t = t) : rstrip t = t := by
  rw [← h]
  exact rstrip_strip t

/-- Two cuts in a row leave the whole text only when neither cuts. -/
theorem cut_cut_eq_self {s r t : Text} (hsr : s <:+ r) (hrt : r <:+ t) (h : s = t) :
    s = r ∧ r = t := by
  have h1 : s.length ≤ r.length := hsr.length_le
  have h2 : r.length ≤ t.length := hrt.length_le
  have h3 : s.length = t.length := by rw [h]
  exact ⟨hsr.eq_of_length (by omega), hrt.eq_of_length (by omega)⟩

/-! ## Lines -/

/-- A piece of one line. -/
def NoBreak (line : Text) : Prop :=
  ∀ c ∈ line, isLineBreak c = false

theorem NoBreak.cons {c : Char} {line : Text} (hc : isLineBreak c = false) (h : NoBreak line) :
    NoBreak (c :: line) := by
  intro d hd
  rcases List.mem_cons.mp hd with rfl | hd
  · exact hc
  · exact h d hd

theorem NoBreak.append {a b : Text} (ha : NoBreak a) (hb : NoBreak b) : NoBreak (a ++ b) := by
  intro c hc
  rcases List.mem_append.mp hc with hc | hc
  · exact ha c hc
  · exact hb c hc

theorem splitlines_newline (rest : Text) : splitlines ('\n' :: rest) = [] :: splitlines rest := by
  rw [splitlines]
  · rfl
  · intro rest' h
    cases h

theorem splitlines_cons {c : Char} {rest : Text} (hc : isLineBreak c = false) :
    splitlines (c :: rest) = match splitlines rest with
      | [] => [[c]]
      | line :: lines => (c :: line) :: lines := by
  rw [splitlines]
  · rw [hc]
    rfl
  · intro rest' h
    cases h
    exact absurd hc (by decide)

theorem splitlines_append_newline {line : Text} (h : NoBreak line) (rest : Text) :
    splitlines (line ++ '\n' :: rest) = line :: splitlines rest := by
  induction line with
  | nil => exact splitlines_newline rest
  | cons c line ih =>
      have hc : isLineBreak c = false := h c List.mem_cons_self
      have hline : NoBreak line := fun d hd => h d (List.mem_cons_of_mem c hd)
      rw [List.cons_append, splitlines_cons hc, ih hline]

theorem splitlines_of_noBreak {line : Text} (h : NoBreak line) (hne : line ≠ []) :
    splitlines line = [line] := by
  induction line with
  | nil => exact absurd rfl hne
  | cons c line ih =>
      have hc : isLineBreak c = false := h c List.mem_cons_self
      have hline : NoBreak line := fun d hd => h d (List.mem_cons_of_mem c hd)
      rw [splitlines_cons hc]
      cases line with
      | nil => rfl
      | cons d line => rw [ih hline (List.cons_ne_nil d line)]

theorem splitlines_eq_nil {t : Text} (h : splitlines t = []) : t = [] := by
  induction t using splitlines.induct with
  | case1 => rfl
  | case2 rest _ => rw [splitlines] at h; cases h
  | case3 c rest hnot hc _ =>
      rw [splitlines, if_pos hc] at h
      · cases h
      · exact hnot
  | case4 c rest _ hc hnil _ =>
      rw [Bool.not_eq_true] at hc
      rw [splitlines_cons hc, hnil] at h
      cases h
  | case5 c rest _ hc line' lines' hsplit _ =>
      rw [Bool.not_eq_true] at hc
      rw [splitlines_cons hc, hsplit] at h
      cases h

/-- A line ends at a break that does not join with what follows. -/
theorem splitlines_break {c : Char} {rest : Text} (hc : isLineBreak c = true)
    (hnot : ¬ (c = '\r' ∧ rest.head? = some '\n')) :
    splitlines (c :: rest) = [] :: splitlines rest := by
  rw [splitlines, if_pos hc]
  rintro rest' hcr hrest
  exact hnot ⟨hcr, by rw [hrest]; rfl⟩

/-- Behind a line break that does not join with what follows, the lines start
anew. -/
theorem splitlines_append {a b : Text} (hjoin : ¬ (a.getLast? = some '\r' ∧ b.head? = some '\n'))
    (ha : ∀ c, a.getLast? = some c → isLineBreak c = true) :
    splitlines (a ++ b) = splitlines a ++ splitlines b := by
  have hlast : ∀ {c d : Char} {rest : Text}, rest.getLast? = some d →
      (c :: rest).getLast? = some d := by
    intro c d rest h
    rw [List.getLast?_cons, h]
    rfl
  induction a using splitlines.induct with
  | case1 => rfl
  | case2 rest ih =>
      rw [List.cons_append, List.cons_append, splitlines, splitlines, List.cons_append]
      congr 1
      refine ih ?_ ?_
      · exact fun h => hjoin ⟨hlast (hlast h.1), h.2⟩
      · exact fun c h => ha c (hlast (hlast h))
  | case3 c rest hnot hc ih =>
      have hrest := ih (fun h => hjoin ⟨hlast h.1, h.2⟩) fun d h => ha d (hlast h)
      rw [List.cons_append, splitlines_break hc, splitlines_break hc, hrest, List.cons_append]
      · rintro ⟨rfl, hhead⟩
        cases rest with
        | nil => cases hhead
        | cons d rest =>
            obtain rfl := Option.some.inj hhead
            exact hnot rest rfl rfl
      · rintro ⟨rfl, hhead⟩
        cases rest with
        | nil => exact hjoin ⟨rfl, hhead⟩
        | cons d rest =>
            obtain rfl := Option.some.inj hhead
            exact hnot rest rfl rfl
  | case4 c rest hnot hc hnil _ =>
      obtain rfl := splitlines_eq_nil hnil
      exact absurd (ha c rfl) hc
  | case5 c rest hnot hc line' lines' hsplit ih =>
      have hrest := ih (fun h => hjoin ⟨hlast h.1, h.2⟩) fun d h => ha d (hlast h)
      rw [Bool.not_eq_true] at hc
      rw [List.cons_append, splitlines_cons hc, splitlines_cons hc, hrest, hsplit]
      rfl

/-- The first line is where the text begins, every other one follows a line break. -/
theorem splitlines_split (t : Text) :
    ∀ {line : Text} {lines : List Text}, splitlines t = line :: lines →
      (NoBreak line ∧ ∃ post, t = line ++ post)
      ∧ ∀ l ∈ lines, NoBreak l
        ∧ ∃ p c post, t = p ++ c :: (l ++ post) ∧ isLineBreak c = true := by
  induction t using splitlines.induct with
  | case1 =>
      intro line lines h
      cases h
  | case2 rest ih =>
      intro line lines h
      rw [splitlines] at h
      obtain ⟨rfl, rfl⟩ := List.cons.inj h
      refine ⟨⟨fun c hc => absurd hc (List.not_mem_nil), _, rfl⟩, ?_⟩
      intro l hl
      cases hsplit : splitlines rest with
      | nil => rw [hsplit] at hl; cases hl
      | cons line' lines' =>
          rw [hsplit] at hl
          obtain ⟨⟨hnb, post, hpost⟩, htail⟩ := ih hsplit
          rcases List.mem_cons.mp hl with rfl | hl
          · exact ⟨hnb, ['\r'], '\n', post, by rw [hpost]; rfl, by decide⟩
          · obtain ⟨hnb', p, c, post', hpost', hc⟩ := htail l hl
            exact ⟨hnb', '\r' :: '\n' :: p, c, post', by rw [hpost']; rfl, hc⟩
  | case3 c rest hnot hc ih =>
      intro line lines h
      rw [splitlines, if_pos hc] at h
      · obtain ⟨rfl, rfl⟩ := List.cons.inj h
        refine ⟨⟨fun c hc => absurd hc (List.not_mem_nil), _, rfl⟩, ?_⟩
        intro l hl
        cases hsplit : splitlines rest with
        | nil => rw [hsplit] at hl; cases hl
        | cons line' lines' =>
            rw [hsplit] at hl
            obtain ⟨⟨hnb, post, hpost⟩, htail⟩ := ih hsplit
            rcases List.mem_cons.mp hl with rfl | hl
            · exact ⟨hnb, [], c, post, by rw [hpost]; rfl, hc⟩
            · obtain ⟨hnb', p, c', post', hpost', hc'⟩ := htail l hl
              exact ⟨hnb', c :: p, c', post', by rw [hpost']; rfl, hc'⟩
      · exact hnot
  | case4 c rest hnot hc hnil _ =>
      intro line lines h
      rw [Bool.not_eq_true] at hc
      rw [splitlines_cons hc, hnil] at h
      obtain ⟨rfl, rfl⟩ := List.cons.inj h
      refine ⟨⟨?_, rest, rfl⟩, ?_⟩
      · intro d hd
        rw [List.mem_singleton.mp hd]
        exact hc
      · intro l hl
        cases hl
  | case5 c rest hnot hc line' lines' hsplit ih =>
      intro line lines h
      rw [Bool.not_eq_true] at hc
      rw [splitlines_cons hc, hsplit] at h
      obtain ⟨rfl, rfl⟩ := List.cons.inj h
      obtain ⟨⟨hnb, post, hpost⟩, htail⟩ := ih hsplit
      refine ⟨⟨hnb.cons hc, post, by rw [hpost]; rfl⟩, ?_⟩
      intro l hl
      obtain ⟨hnb', p, c', post', hpost', hc'⟩ := htail l hl
      exact ⟨hnb', c :: p, c', post', by rw [hpost']; rfl, hc'⟩

theorem noBreak_of_mem_splitlines {t line : Text} (h : line ∈ splitlines t) : NoBreak line := by
  cases hsplit : splitlines t with
  | nil => rw [hsplit] at h; cases h
  | cons line' lines =>
      rw [hsplit] at h
      obtain ⟨⟨hnb, -⟩, htail⟩ := splitlines_split t hsplit
      rcases List.mem_cons.mp h with rfl | h
      · exact hnb
      · exact (htail line h).1

/-- Where a line stands: at the start of the text or after a line break. -/
theorem mem_splitlines_split {t line : Text} (h : line ∈ splitlines t) :
    ∃ pre post, t = pre ++ (line ++ post)
      ∧ (pre = [] ∨ ∃ p c, pre = p ++ [c] ∧ isLineBreak c = true) := by
  cases hsplit : splitlines t with
  | nil => rw [hsplit] at h; cases h
  | cons line' lines =>
      rw [hsplit] at h
      obtain ⟨⟨-, post, hpost⟩, htail⟩ := splitlines_split t hsplit
      rcases List.mem_cons.mp h with rfl | h
      · exact ⟨[], post, hpost, Or.inl rfl⟩
      · obtain ⟨-, p, c, post', hpost', hc⟩ := htail line h
        refine ⟨p ++ [c], post', ?_, Or.inr ⟨p, c, rfl, hc⟩⟩
        rw [hpost', List.append_assoc]
        rfl

theorem joinLines_nil : joinLines [] = [] := rfl

theorem joinLines_singleton (line : Text) : joinLines [line] = line := by
  simp [joinLines]

theorem joinLines_cons_cons (line line' : Text) (lines : List Text) :
    joinLines (line :: line' :: lines) = line ++ '\n' :: joinLines (line' :: lines) := by
  simp [joinLines, List.intercalate]

/-- Joined lines with one more below are split into the lines again. -/
theorem splitlines_joinLines_newline {lines : List Text} (hne : lines ≠ [])
    (h : ∀ l ∈ lines, NoBreak l) (rest : Text) :
    splitlines (joinLines lines ++ '\n' :: rest) = lines ++ splitlines rest := by
  induction lines with
  | nil => exact absurd rfl hne
  | cons line lines ih =>
      have hline : NoBreak line := h line List.mem_cons_self
      cases lines with
      | nil =>
          rw [joinLines_singleton, splitlines_append_newline hline]
          rfl
      | cons line' lines =>
          have htail : ∀ l ∈ line' :: lines, NoBreak l :=
            fun l hl => h l (List.mem_cons_of_mem line hl)
          rw [joinLines_cons_cons, List.append_assoc, List.cons_append,
            splitlines_append_newline hline, ih (List.cons_ne_nil _ _) htail]
          rfl

/-- Lines that are not empty come back from the text they are joined to. -/
theorem splitlines_joinLines {lines : List Text} (h : ∀ l ∈ lines, NoBreak l ∧ l ≠ []) :
    splitlines (joinLines lines) = lines := by
  induction lines with
  | nil => rfl
  | cons line lines ih =>
      obtain ⟨hline, hne⟩ := h line List.mem_cons_self
      cases lines with
      | nil => rw [joinLines_singleton, splitlines_of_noBreak hline hne]
      | cons line' lines =>
          rw [joinLines_cons_cons, splitlines_append_newline hline,
            ih fun l hl => h l (List.mem_cons_of_mem line hl)]

theorem joinLines_append_cons {lines : List Text} (hne : lines ≠ []) (line : Text)
    (more : List Text) :
    joinLines (lines ++ line :: more) = joinLines lines ++ '\n' :: joinLines (line :: more) := by
  induction lines with
  | nil => exact absurd rfl hne
  | cons l lines ih =>
      cases lines with
      | nil => rw [List.cons_append, List.nil_append, joinLines_cons_cons, joinLines_singleton]
      | cons l' lines =>
          have ih' := ih (List.cons_ne_nil l' lines)
          rw [List.cons_append, List.cons_append] at *
          rw [joinLines_cons_cons, ih', joinLines_cons_cons, List.append_assoc]
          rfl

end Text

end Hephaestus.Lib
