import Hephaestus.Lib.Text

/-!
# Regular expressions as `re` runs them

A pattern is matched at a position of a text: what is behind it matters to `\b`
and `^` only, and of that only the last character. A pattern has a list of ends
at a position, in the order in which the backtracking matcher would try them,
and the match is the first. Repetition is of one class of characters, longest
first, which is all the patterns here need.
-/

namespace Hephaestus.Lib

/-- A pattern. -/
inductive Regex
  /-- The empty pattern. -/
  | empty
  /-- One character of a class. -/
  | chars (p : Char → Bool)
  /-- `\b`. -/
  | boundary
  /-- `^` with `re.MULTILINE`. -/
  | lineStart
  | seq (a b : Regex)
  | alt (a b : Regex)
  /-- `[...]*`, greedy. -/
  | star (p : Char → Bool)

namespace Regex

open Text

/-- `\w`. -/
def isWord (u : Unicode) (c : Char) : Bool :=
  u.isAlnum c || c == '_'

/-- Whether the two sides of a position differ in being word characters. -/
def atBoundary (u : Unicode) (before : Option Char) (rest : Text) : Bool :=
  before.any (isWord u) != rest.head?.any (isWord u)

/-- The ends of a greedy repetition, longest first. -/
@[grind =]
def starEnds (p : Char → Bool) (before : Option Char) : Text → List (Option Char × Text)
  | [] => [(before, [])]
  | c :: rest =>
      if p c then starEnds p (some c) rest ++ [(before, c :: rest)] else [(before, c :: rest)]

/-- The ends of a pattern at a position, in the order of the matcher. -/
@[grind =]
def ends (u : Unicode) : Regex → Option Char → Text → List (Option Char × Text)
  | .empty, before, rest => [(before, rest)]
  | .chars p, _, rest =>
      match rest with
      | [] => []
      | c :: rest => if p c then [(some c, rest)] else []
  | .boundary, before, rest => if atBoundary u before rest then [(before, rest)] else []
  | .lineStart, before, rest => if before.all (· == '\n') then [(before, rest)] else []
  | .seq a b, before, rest => (ends u a before rest).flatMap fun e => ends u b e.1 e.2
  | .alt a b, before, rest => ends u a before rest ++ ends u b before rest
  | .star p, before, rest => starEnds p before rest

/-- `pattern.match(t)`. -/
def matchesStart (u : Unicode) (r : Regex) (t : Text) : Bool :=
  !(ends u r none t).isEmpty

/-- `pattern.search(t)`, from a position on. -/
@[grind =]
def searchFrom (u : Unicode) (r : Regex) (before : Option Char) : Text → Bool
  | [] => !(ends u r before []).isEmpty
  | c :: rest => !(ends u r before (c :: rest)).isEmpty || searchFrom u r (some c) rest

/-- `pattern.search(t) is not None`. -/
def search (u : Unicode) (r : Regex) (t : Text) : Bool :=
  searchFrom u r none t

/-- `pattern.sub("", t)` from a position on. An empty match deletes nothing and
the character after it is kept. -/
@[grind =]
def deleteFrom (u : Unicode) (r : Regex) : Nat → Option Char → Text → Text
  | 0, _, rest => rest
  | _ + 1, _, [] => []
  | fuel + 1, before, c :: rest =>
      match (ends u r before (c :: rest)).head? with
      | some (before', rest') =>
          if rest'.length < (c :: rest).length then deleteFrom u r fuel before' rest'
          else c :: deleteFrom u r fuel (some c) rest
      | none => c :: deleteFrom u r fuel (some c) rest

/-- `pattern.sub("", t)`. -/
def delete (u : Unicode) (r : Regex) (t : Text) : Text :=
  deleteFrom u r t.length none t

/-! ## Building patterns -/

/-- One letter under `re.IGNORECASE`. Besides its two cases, `i`, `s` and `k` have
a relative outside ASCII. -/
def sameLetter (letter c : Char) : Bool :=
  c.toLower == letter.toLower
    || (letter.toLower == 'i' && (c.toNat == 0x130 || c.toNat == 0x131))
    || (letter.toLower == 's' && c.toNat == 0x17f)
    || (letter.toLower == 'k' && c.toNat == 0x212a)

/-- A literal text under `re.IGNORECASE`. -/
@[grind =]
def word : Text → Regex
  | [] => .empty
  | c :: rest => .seq (.chars (sameLetter c)) (word rest)

/-- A literal text. -/
@[grind =]
def literal : Text → Regex
  | [] => .empty
  | c :: rest => .seq (.chars (· == c)) (literal rest)

/-- `[...]+`. -/
def plus (p : Char → Bool) : Regex :=
  .seq (.chars p) (.star p)

/-- `(?:...)?`. -/
def opt (r : Regex) : Regex :=
  .alt r .empty

/-- `(?:a|b|...)`. -/
def oneOf : List Regex → Regex
  | [] => .chars fun _ => false
  | [r] => r
  | r :: rest => .alt r (oneOf rest)

/-- Patterns one after the other. -/
def concat : List Regex → Regex
  | [] => .empty
  | [r] => r
  | r :: rest => .seq r (concat rest)

/-! ## Ends -/

theorem mem_ends_seq {u : Unicode} {a b : Regex} {before : Option Char} {t : Text}
    {e : Option Char × Text} :
    e ∈ ends u (.seq a b) before t ↔ ∃ m ∈ ends u a before t, e ∈ ends u b m.1 m.2 := by
  simp only [ends, List.mem_flatMap]

theorem mem_ends_alt {u : Unicode} {a b : Regex} {before : Option Char} {t : Text}
    {e : Option Char × Text} :
    e ∈ ends u (.alt a b) before t ↔ e ∈ ends u a before t ∨ e ∈ ends u b before t := by
  simp only [ends, List.mem_append]

/-- Doing nothing is always an end of a repetition. -/
theorem self_mem_starEnds (p : Char → Bool) (before : Option Char) (t : Text) :
    (before, t) ∈ starEnds p before t := by
  cases t with
  | nil => simp [starEnds]
  | cons c rest =>
      unfold starEnds
      split <;> simp

/-- The ends of a repetition: characters of the class, then the rest. -/
theorem mem_starEnds_suffix {p : Char → Bool} {t : Text} :
    ∀ {before : Option Char} {e : Option Char × Text}, e ∈ starEnds p before t →
      ∃ w : Text, t = w ++ e.2 ∧ ∀ c ∈ w, p c = true := by
  induction t with
  | nil =>
      intro before e h
      simp only [starEnds, List.mem_singleton] at h
      exact ⟨[], by simp [h], by simp⟩
  | cons c rest ih =>
      intro before e h
      unfold starEnds at h
      split at h
      · next hc =>
        rcases List.mem_append.mp h with h | h
        · obtain ⟨w, hw, hall⟩ := ih h
          exact ⟨c :: w, by rw [hw]; rfl, by simpa [hc] using hall⟩
        · rw [List.mem_singleton] at h
          exact ⟨[], by simp [h], by simp⟩
      · rw [List.mem_singleton] at h
        exact ⟨[], by simp [h], by simp⟩

/-- Every end is a suffix of the text it was matched at. -/
theorem ends_suffix {u : Unicode} {r : Regex} :
    ∀ {before : Option Char} {t : Text} {e : Option Char × Text},
      e ∈ ends u r before t → e.2 <:+ t := by
  induction r with
  | empty =>
      intro before t e h
      simp only [ends, List.mem_singleton] at h
      rw [h]
  | chars p =>
      intro before t e h
      cases t with
      | nil => simp [ends] at h
      | cons c rest =>
          simp only [ends] at h
          split at h
          · rw [List.mem_singleton] at h
            rw [h]
            exact List.suffix_cons c rest
          · simp at h
  | boundary =>
      intro before t e h
      simp only [ends] at h
      split at h
      · rw [List.mem_singleton] at h
        rw [h]
      · simp at h
  | lineStart =>
      intro before t e h
      simp only [ends] at h
      split at h
      · rw [List.mem_singleton] at h
        rw [h]
      · simp at h
  | seq a b iha ihb =>
      intro before t e h
      obtain ⟨m, hm, he⟩ := mem_ends_seq.mp h
      exact (ihb he).trans (iha hm)
  | alt a b iha ihb =>
      intro before t e h
      rcases mem_ends_alt.mp h with h | h
      · exact iha h
      · exact ihb h
  | star p =>
      intro before t e h
      obtain ⟨w, hw, -⟩ := mem_starEnds_suffix h
      exact ⟨w, hw.symm⟩

/-! ## Patterns that do not look around

Without `\b` and `^`, what can be matched depends on the text ahead only, and
more text behind the match does not take it away. -/

/-- A pattern without `\b` and `^`. -/
@[grind =]
def Plain : Regex → Prop
  | .boundary | .lineStart => False
  | .seq a b | .alt a b => Plain a ∧ Plain b
  | _ => True

theorem starEnds_extend {p : Char → Bool} {t : Text} (more : Text) :
    ∀ {before : Option Char} (before' : Option Char) {e : Option Char × Text},
      e ∈ starEnds p before t → ∃ e' ∈ starEnds p before' (t ++ more), e'.2 = e.2 ++ more := by
  induction t with
  | nil =>
      intro before before' e h
      simp only [starEnds, List.mem_singleton] at h
      exact ⟨(before', more), self_mem_starEnds p before' more, by simp [h]⟩
  | cons c rest ih =>
      intro before before' e h
      by_cases hc : p c = true
      · simp only [starEnds, hc, if_true, List.mem_append, List.mem_singleton] at h
        rcases h with h | h
        · obtain ⟨e', he', heq⟩ := ih (some c) h
          refine ⟨e', ?_, heq⟩
          simp only [List.cons_append, starEnds, hc, if_true, List.mem_append]
          exact Or.inl he'
        · refine ⟨(before', c :: rest ++ more), self_mem_starEnds p before' _, ?_⟩
          rw [h]
      · simp only [starEnds, hc, Bool.false_eq_true, if_false, List.mem_singleton] at h
        refine ⟨(before', c :: rest ++ more), self_mem_starEnds p before' _, ?_⟩
        rw [h]

theorem ends_extend {u : Unicode} {r : Regex} (hr : Plain r) (more : Text) :
    ∀ {t : Text} {before : Option Char} (before' : Option Char) {e : Option Char × Text},
      e ∈ ends u r before t → ∃ e' ∈ ends u r before' (t ++ more), e'.2 = e.2 ++ more := by
  induction r with
  | empty =>
      intro t before before' e h
      simp only [ends, List.mem_singleton] at h
      exact ⟨(before', t ++ more), by simp [ends], by rw [h]⟩
  | chars p =>
      intro t before before' e h
      cases t with
      | nil => simp [ends] at h
      | cons c rest =>
          by_cases hc : p c = true
          · simp only [ends, hc, if_true, List.mem_singleton] at h
            exact ⟨(some c, rest ++ more), by simp [ends, hc], by rw [h]⟩
          · simp [ends, hc] at h
  | boundary => exact absurd hr (by simp [Plain])
  | lineStart => exact absurd hr (by simp [Plain])
  | seq a b iha ihb =>
      intro t before before' e h
      obtain ⟨m, hm, he⟩ := mem_ends_seq.mp h
      obtain ⟨m', hm', hmeq⟩ := iha hr.1 before' hm
      obtain ⟨e', he', heq⟩ := ihb hr.2 m'.1 he
      rw [← hmeq] at he'
      exact ⟨e', mem_ends_seq.mpr ⟨m', hm', he'⟩, heq⟩
  | alt a b iha ihb =>
      intro t before before' e h
      rcases mem_ends_alt.mp h with h | h
      · obtain ⟨e', he', heq⟩ := iha hr.1 before' h
        exact ⟨e', mem_ends_alt.mpr (Or.inl he'), heq⟩
      · obtain ⟨e', he', heq⟩ := ihb hr.2 before' h
        exact ⟨e', mem_ends_alt.mpr (Or.inr he'), heq⟩
  | star p =>
      intro t before before' e h
      exact starEnds_extend more before' h

theorem plain_word (t : Text) : Plain (word t) := by
  induction t with
  | nil => trivial
  | cons c rest ih => exact ⟨trivial, ih⟩

theorem plain_literal (t : Text) : Plain (literal t) := by
  induction t with
  | nil => trivial
  | cons c rest ih => exact ⟨trivial, ih⟩

theorem mem_ends_literal (u : Unicode) (before : Option Char) (t rest : Text) :
    ∃ e ∈ ends u (literal t) before (t ++ rest), e.2 = rest := by
  induction t generalizing before with
  | nil => exact ⟨(before, rest), by simp [literal, ends], rfl⟩
  | cons c t ih =>
      obtain ⟨e, he, heq⟩ := ih (some c)
      refine ⟨e, mem_ends_seq.mpr ⟨(some c, t ++ rest), ?_, he⟩, heq⟩
      simp [ends]

/-! ## Searching -/

/-- The last character of what has been read. -/
def lastOr (before : Option Char) (read : Text) : Option Char :=
  read.foldl (fun _ c => some c) before

theorem searchFrom_iff {u : Unicode} {r : Regex} {t : Text} :
    ∀ {before : Option Char}, searchFrom u r before t = true ↔
      ∃ read rest, t = read ++ rest ∧ ends u r (lastOr before read) rest ≠ [] := by
  induction t with
  | nil =>
      intro before
      simp only [searchFrom, Bool.not_eq_true', List.isEmpty_eq_false_iff]
      constructor
      · intro h
        exact ⟨[], [], rfl, h⟩
      · rintro ⟨read, rest, hsplit, h⟩
        obtain ⟨rfl, rfl⟩ := List.append_eq_nil_iff.mp hsplit.symm
        exact h
  | cons c t ih =>
      intro before
      simp only [searchFrom, Bool.or_eq_true, Bool.not_eq_true', List.isEmpty_eq_false_iff, ih]
      constructor
      · rintro (h | ⟨read, rest, hsplit, h⟩)
        · exact ⟨[], c :: t, rfl, h⟩
        · exact ⟨c :: read, rest, by rw [hsplit]; rfl, h⟩
      · rintro ⟨read, rest, hsplit, h⟩
        cases read with
        | nil =>
            left
            rw [List.nil_append] at hsplit
            rw [hsplit]
            exact h
        | cons d read =>
            right
            simp only [List.cons_append, List.cons.injEq] at hsplit
            obtain ⟨rfl, hsplit⟩ := hsplit
            exact ⟨read, rest, hsplit, h⟩

theorem search_iff {u : Unicode} {r : Regex} {t : Text} :
    search u r t = true ↔
      ∃ read rest, t = read ++ rest ∧ ends u r (lastOr none read) rest ≠ [] :=
  searchFrom_iff

/-- A text without a match is left as it is. -/
theorem deleteFrom_of_not_search {u : Unicode} {r : Regex} {t : Text} :
    ∀ {fuel : Nat} {before : Option Char}, searchFrom u r before t = false →
      deleteFrom u r fuel before t = t := by
  induction t with
  | nil =>
      intro fuel before _
      cases fuel <;> rfl
  | cons c t ih =>
      intro fuel before h
      simp only [searchFrom, Bool.or_eq_false_iff, Bool.not_eq_false',
        List.isEmpty_iff] at h
      cases fuel with
      | zero => rfl
      | succ fuel => simp only [deleteFrom, h.1, List.head?_nil, ih h.2]

theorem delete_of_not_search {u : Unicode} {r : Regex} {t : Text} (h : search u r t = false) :
    delete u r t = t :=
  deleteFrom_of_not_search h

/-! ## What a match takes -/

/-- The characters one can see. -/
def visible (t : Text) : Text :=
  t.filter fun c => !isSpace c

@[simp] theorem visible_nil : visible [] = [] := rfl

@[simp] theorem visible_append (a b : Text) : visible (a ++ b) = visible a ++ visible b :=
  List.filter_append a b

theorem visible_cons (c : Char) (t : Text) :
    visible (c :: t) = if isSpace c then visible t else c :: visible t := by
  unfold visible
  cases h : isSpace c with
  | true => simp [h]
  | false => simp [h]

/-- Every match of the pattern takes at least `n` characters that one can see. -/
def TakesVisible (u : Unicode) (n : Nat) (r : Regex) : Prop :=
  ∀ before t, ∀ e ∈ ends u r before t, ∃ m, t = m ++ e.2 ∧ n ≤ (visible m).length

theorem takesVisible_zero (u : Unicode) (r : Regex) : TakesVisible u 0 r := by
  intro before t e he
  obtain ⟨m, hm⟩ := ends_suffix he
  exact ⟨m, hm.symm, Nat.zero_le _⟩

theorem TakesVisible.seq {u : Unicode} {a b : Regex} {n k : Nat} (ha : TakesVisible u n a)
    (hb : TakesVisible u k b) : TakesVisible u (n + k) (.seq a b) := by
  intro before t e he
  obtain ⟨mid, hmid, he⟩ := mem_ends_seq.mp he
  obtain ⟨m, hm, hn⟩ := ha before t mid hmid
  obtain ⟨m', hm', hk⟩ := hb mid.1 mid.2 e he
  refine ⟨m ++ m', by rw [hm, hm', List.append_assoc], ?_⟩
  rw [visible_append, List.length_append]
  omega

theorem TakesVisible.alt {u : Unicode} {a b : Regex} {n : Nat} (ha : TakesVisible u n a)
    (hb : TakesVisible u n b) : TakesVisible u n (.alt a b) := by
  intro before t e he
  rcases mem_ends_alt.mp he with he | he
  · exact ha before t e he
  · exact hb before t e he

theorem TakesVisible.mono {u : Unicode} {r : Regex} {n k : Nat} (h : TakesVisible u n r)
    (hk : k ≤ n) : TakesVisible u k r := by
  intro before t e he
  obtain ⟨m, hm, hn⟩ := h before t e he
  exact ⟨m, hm, hk.trans hn⟩

/-- The first character of a word is its letter. -/
theorem mem_ends_word_cons {u : Unicode} {c : Char} {w : Text} {before : Option Char} {t : Text}
    {e : Option Char × Text} (he : e ∈ ends u (word (c :: w)) before t) :
    ∃ d rest, t = d :: rest ∧ sameLetter c d = true ∧ e ∈ ends u (word w) (some d) rest := by
  obtain ⟨mid, hmid, hend⟩ := mem_ends_seq.mp he
  cases t with
  | nil => simp [ends] at hmid
  | cons d rest =>
      simp only [ends] at hmid
      split at hmid
      · next hd =>
        rw [List.mem_singleton.mp hmid] at hend
        exact ⟨d, rest, rfl, hd, hend⟩
      · simp at hmid

theorem takesVisible_word (u : Unicode) {w : Text}
    (hw : ∀ c ∈ w, ∀ d, sameLetter c d = true → isSpace d = false) :
    TakesVisible u w.length (word w) := by
  induction w with
  | nil => exact takesVisible_zero u _
  | cons c w ih =>
      intro before t e he
      obtain ⟨d, rest, rfl, hd, he⟩ := mem_ends_word_cons he
      obtain ⟨m, rfl, hm⟩ := ih (fun c' hc' => hw c' (List.mem_cons_of_mem _ hc')) _ _ e he
      refine ⟨d :: m, rfl, ?_⟩
      rw [visible_cons, hw c List.mem_cons_self d hd, if_neg Bool.false_ne_true, List.length_cons,
        List.length_cons]
      omega

/-- No match of the pattern takes the character. -/
@[grind =]
def Avoids (x : Char) : Regex → Prop
  | .chars p | .star p => p x = false
  | .seq a b | .alt a b => Avoids x a ∧ Avoids x b
  | _ => True

theorem Avoids.notMem {u : Unicode} {x : Char} {r : Regex} (h : Avoids x r) :
    ∀ {before : Option Char} {t : Text} {e : Option Char × Text}, e ∈ ends u r before t →
      ∃ m, t = m ++ e.2 ∧ x ∉ m := by
  induction r with
  | empty =>
      intro before t e he
      simp only [ends, List.mem_singleton] at he
      exact ⟨[], by rw [he]; rfl, List.not_mem_nil⟩
  | chars p =>
      intro before t e he
      cases t with
      | nil => simp [ends] at he
      | cons c rest =>
          simp only [ends] at he
          split at he
          · next hc =>
            rw [List.mem_singleton] at he
            refine ⟨[c], by rw [he]; rfl, fun hx => ?_⟩
            rw [← List.mem_singleton.mp hx] at hc
            exact absurd hc (by rw [show p x = false from h]; exact Bool.false_ne_true)
          · simp at he
  | boundary =>
      intro before t e he
      simp only [ends] at he
      split at he
      · rw [List.mem_singleton] at he
        exact ⟨[], by rw [he]; rfl, List.not_mem_nil⟩
      · simp at he
  | lineStart =>
      intro before t e he
      simp only [ends] at he
      split at he
      · rw [List.mem_singleton] at he
        exact ⟨[], by rw [he]; rfl, List.not_mem_nil⟩
      · simp at he
  | seq a b iha ihb =>
      intro before t e he
      obtain ⟨mid, hmid, he⟩ := mem_ends_seq.mp he
      obtain ⟨m, hm, hx⟩ := iha h.1 hmid
      obtain ⟨m', hm', hx'⟩ := ihb h.2 he
      refine ⟨m ++ m', by rw [hm, hm', List.append_assoc], fun hmem => ?_⟩
      rcases List.mem_append.mp hmem with hmem | hmem
      · exact hx hmem
      · exact hx' hmem
  | alt a b iha ihb =>
      intro before t e he
      rcases mem_ends_alt.mp he with he | he
      · exact iha h.1 he
      · exact ihb h.2 he
  | star p =>
      intro before t e he
      obtain ⟨m, hm, hall⟩ := mem_starEnds_suffix he
      refine ⟨m, hm, fun hx => ?_⟩
      have hpx := hall x hx
      rw [show p x = false from h] at hpx
      cases hpx

theorem avoids_word {x : Char} {w : Text} (hw : ∀ c ∈ w, sameLetter c x = false) :
    Avoids x (word w) := by
  induction w with
  | nil => trivial
  | cons c w ih =>
      exact ⟨hw c List.mem_cons_self, ih fun c' hc' => hw c' (List.mem_cons_of_mem _ hc')⟩

/-- On a text of the class `p`, the match reaches the end. -/
def ReachesEnd (u : Unicode) (p : Char → Bool) (r : Regex) : Prop :=
  ∀ before t, (∀ c ∈ t, p c = true) → ∀ e, (ends u r before t).head? = some e → e.2 = []

theorem reachesEnd_star (u : Unicode) (p : Char → Bool) : ReachesEnd u p (.star p) := by
  intro before t
  induction t generalizing before with
  | nil =>
      intro _ e he
      simp only [ends, starEnds, List.head?_cons, Option.some.injEq] at he
      rw [← he]
  | cons c t ih =>
      intro ht e he
      obtain ⟨hc, ht⟩ := List.forall_mem_cons.mp ht
      simp only [ends, starEnds, hc, if_true] at he
      have hne : starEnds p (some c) t ≠ [] :=
        List.ne_nil_of_mem (self_mem_starEnds p (some c) t)
      rw [List.head?_append_of_ne_nil _ hne] at he
      exact ih (some c) ht e he

theorem ReachesEnd.seq {u : Unicode} {p : Char → Bool} {a b : Regex} (hb : ReachesEnd u p b) :
    ReachesEnd u p (.seq a b) := by
  intro before t ht
  have hall : ∀ l : List (Option Char × Text), (∀ m ∈ l, ∀ c ∈ m.2, p c = true) →
      ∀ e, (l.flatMap fun m => ends u b m.1 m.2).head? = some e → e.2 = [] := by
    intro l
    induction l with
    | nil =>
        intro _ e he
        simp at he
    | cons m l ih =>
        intro hl e he
        obtain ⟨hm, hl⟩ := List.forall_mem_cons.mp hl
        rw [List.flatMap_cons] at he
        cases hends : ends u b m.1 m.2 with
        | nil =>
            rw [hends, List.nil_append] at he
            exact ih hl e he
        | cons first rest =>
            refine hb m.1 m.2 hm e ?_
            rw [hends] at he ⊢
            exact he
  intro e he
  refine hall _ (fun m hm c hc => ht c ?_) e he
  exact (ends_suffix hm).subset hc

theorem ReachesEnd.alt {u : Unicode} {p : Char → Bool} {a b : Regex} (ha : ReachesEnd u p a)
    (hb : ReachesEnd u p b) : ReachesEnd u p (.alt a b) := by
  intro before t ht e he
  simp only [ends] at he
  cases hends : ends u a before t with
  | nil =>
      rw [hends, List.nil_append] at he
      exact hb before t ht e he
  | cons first rest =>
      refine ha before t ht e ?_
      rw [hends] at he ⊢
      exact he

/-! ## Deletion, match by match -/

/-- How `deleteFrom` goes through a text: it keeps a character where nothing is
matched, and leaves out the first match otherwise. -/
inductive Removal (u : Unicode) (r : Regex) : Option Char → Text → Text → Prop
  | nil (before : Option Char) : Removal u r before [] []
  | keep {before : Option Char} {c : Char} {t d : Text} (h : Removal u r (some c) t d) :
      Removal u r before (c :: t) (c :: d)
  | drop {before : Option Char} {t d : Text} {e : Option Char × Text}
      (he : (ends u r before t).head? = some e) (h : Removal u r e.1 e.2 d) :
      Removal u r before t d

theorem removal_deleteFrom {u : Unicode} {r : Regex} :
    ∀ {fuel : Nat} {before : Option Char} {t : Text}, t.length ≤ fuel →
      Removal u r before t (deleteFrom u r fuel before t) := by
  intro fuel
  induction fuel with
  | zero =>
      intro before t ht
      rw [List.length_eq_zero_iff.mp (Nat.le_zero.mp ht)]
      exact .nil before
  | succ fuel ih =>
      intro before t ht
      cases t with
      | nil => exact .nil before
      | cons c t =>
          rw [List.length_cons] at ht
          unfold deleteFrom
          split
          · next before' rest' hends =>
            split
            · next hlt =>
              rw [List.length_cons] at hlt
              exact .drop hends (ih (by simp only; omega))
            · exact .keep (ih (by omega))
          · exact .keep (ih (by omega))

theorem removal_delete (u : Unicode) (r : Regex) (t : Text) :
    Removal u r none t (delete u r t) :=
  removal_deleteFrom (le_refl _)

/-- Up to the first match everything is kept. -/
theorem delete_first {u : Unicode} {r : Regex} {n : Nat} (hr : TakesVisible u (n + 1) r) :
    ∀ {t : Text} {fuel : Nat} {before : Option Char}, t.length ≤ fuel →
      searchFrom u r before t = true →
      ∃ k rest e d, t = k ++ rest ∧ (ends u r (lastOr before k) rest).head? = some e
        ∧ Removal u r e.1 e.2 d ∧ deleteFrom u r fuel before t = k ++ d := by
  intro t
  induction t with
  | nil =>
      intro fuel before _ hsearch
      simp only [searchFrom, Bool.not_eq_true', List.isEmpty_eq_false_iff] at hsearch
      obtain ⟨e, he⟩ := List.exists_mem_of_ne_nil _ hsearch
      obtain ⟨m, hm, hn⟩ := hr before [] e he
      rw [(List.append_eq_nil_iff.mp hm.symm).1] at hn
      simp at hn
  | cons c t ih =>
      intro fuel before ht hsearch
      rw [List.length_cons] at ht
      obtain ⟨fuel, rfl⟩ : ∃ f, fuel = f + 1 := ⟨fuel - 1, by omega⟩
      cases hends : (ends u r before (c :: t)).head? with
      | some e =>
          obtain ⟨m, hm, hn⟩ := hr before (c :: t) e (List.mem_of_mem_head? hends)
          have hpos : 0 < m.length := by
            have hle : (visible m).length ≤ m.length := List.length_filter_le _ m
            omega
          have hlt : e.2.length < (c :: t).length := by
            rw [hm, List.length_append]
            omega
          refine ⟨[], c :: t, e, deleteFrom u r fuel e.1 e.2, rfl, hends,
            removal_deleteFrom ?_, ?_⟩
          · rw [List.length_cons] at hlt
            omega
          · simp only [deleteFrom, hends, hlt, if_true, List.nil_append]
      | none =>
          have hnil : ends u r before (c :: t) = [] := List.head?_eq_none_iff.mp hends
          simp only [searchFrom, hnil, List.isEmpty_nil, Bool.not_true, Bool.false_or] at hsearch
          have hle : t.length ≤ fuel := by omega
          obtain ⟨k, rest, e, d, rfl, he, hremoval, hdelete⟩ := ih hle hsearch
          refine ⟨c :: k, rest, e, d, rfl, he, hremoval, ?_⟩
          simp only [deleteFrom, hends, hdelete, List.cons_append]

/-- What is kept of a text is a part of it. -/
theorem Removal.sublist {u : Unicode} {r : Regex} {before : Option Char} {t d : Text}
    (h : Removal u r before t d) : d.Sublist t := by
  induction h with
  | nil => exact List.Sublist.refl _
  | keep _ ih => exact ih.cons_cons _
  | drop he _ ih => exact ih.trans (ends_suffix (List.mem_of_mem_head? he)).sublist

/-- The characters one can see before the first `x`. -/
def seenBefore (x : Char) (t : Text) : Nat :=
  (visible (t.takeWhile fun c => c != x)).length

/-- Where a match with an `x` reaches the end, a kept `x` is no further back than
the first one of the text. -/
theorem Removal.seenBefore_le {u : Unicode} {r : Regex} {x : Char} {p : Char → Bool}
    (hr : ∀ before t, (∀ c ∈ t, p c = true) → ∀ e, (ends u r before t).head? = some e →
      e.2 = [] ∨ ∃ m, t = m ++ e.2 ∧ x ∉ m)
    {before : Option Char} {t d : Text} (h : Removal u r before t d)
    (ht : ∀ c ∈ t, p c = true) (hx : x ∈ d) : seenBefore x d ≤ seenBefore x t := by
  induction h with
  | nil => exact le_refl _
  | @keep before c t d h ih =>
      by_cases hc : c = x
      · simp [seenBefore, hc]
      · have hmem : x ∈ d := by
          rcases List.mem_cons.mp hx with heq | hmem
          · exact absurd heq.symm hc
          · exact hmem
        have hle := ih (List.forall_mem_cons.mp ht).2 hmem
        have hne : (c != x) = true := bne_iff_ne.mpr hc
        simp only [seenBefore, List.takeWhile_cons, hne, if_true, visible_cons] at hle ⊢
        split
        · exact hle
        · rw [List.length_cons, List.length_cons]
          omega
  | @drop before t d e he h ih =>
      rcases hr before t ht e he with hnil | ⟨m, hm, hnot⟩
      · rw [hnil] at h
        have hd : d = [] := List.sublist_nil.mp h.sublist
        rw [hd] at hx
        cases hx
      · have hsub : ∀ c ∈ e.2, p c = true := fun c hc => ht c (by
          rw [hm]
          exact List.mem_append_right m hc)
        have hle := ih hsub hx
        have htake : t.takeWhile (fun c => c != x) = m ++ e.2.takeWhile (fun c => c != x) := by
          rw [hm, List.takeWhile_append_of_pos]
          intro c hc
          exact bne_iff_ne.mpr fun heq => hnot (heq ▸ hc)
        rw [seenBefore, seenBefore, htake, visible_append, List.length_append]
        rw [seenBefore, seenBefore] at hle
        omega

end Regex

end Hephaestus.Lib
