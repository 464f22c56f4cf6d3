import Hephaestus.Lib.Regex

/-!
# Patterns with groups

`Lib.Regex` says whether a pattern matches. Where the code goes on with what a
group captured, the groups have to be carried along: a pattern starts at a
cursor and has a list of cursors it can end at, in the order in which the
backtracking matcher would try them. Repetition is again of one class of
characters, longest first or, lazily, shortest first.

Two facts connect a pattern with the texts it is for. What it consumes is a
text it reads, and where nothing looks around, each text it reads is one of
its ends. Which of the ends comes first is a question of the pattern at hand.
-/

namespace Hephaestus.Lib

/-- A pattern; its groups are numbered by the code that writes it. -/
inductive Pattern
  | empty
  /-- One character of a class. -/
  | chars (p : Char → Bool)
  /-- `\b`. -/
  | boundary
  /-- `$`: the end, or a line feed before it. -/
  | finish
  | seq (a b : Pattern)
  | alt (a b : Pattern)
  /-- `[...]*`. -/
  | star (p : Char → Bool)
  /-- `[...]*?`. -/
  | lazyStar (p : Char → Bool)
  /-- `(...)`. -/
  | group (k : Nat) (a : Pattern)

/-- Where a match stands: the character before it, the text ahead, and what
the groups captured, the last first. -/
structure Cursor where
  before : Option Char := none
  rest : Text
  groups : List (Nat × Text) := []
  deriving DecidableEq

/-- `m.group(k)`. -/
def Cursor.group? (c : Cursor) (k : Nat) : Option Text :=
  c.groups.lookup k

namespace Pattern

open Text

/-- The cursors a pattern can end at, in the order of the matcher. -/
@[grind =]
def ends (u : Unicode) : Pattern → Cursor → List Cursor
  | .empty, c => [c]
  | .chars p, c =>
      match c.rest with
      | [] => []
      | d :: rest => if p d then [{ c with before := some d, rest := rest }] else []
  | .boundary, c => if Regex.atBoundary u c.before c.rest then [c] else []
  | .finish, c => if c.rest = [] ∨ c.rest = ['\n'] then [c] else []
  | .seq a b, c => (ends u a c).flatMap (ends u b)
  | .alt a b, c => ends u a c ++ ends u b c
  | .star p, c =>
      (Regex.starEnds p c.before c.rest).map fun e => { c with before := e.1, rest := e.2 }
  | .lazyStar p, c =>
      (Regex.starEnds p c.before c.rest).reverse.map fun e => { c with before := e.1, rest := e.2 }
  | .group k a, c =>
      (ends u a c).map fun e =>
        { e with groups := (k, c.rest.take (c.rest.length - e.rest.length)) :: e.groups }

/-- `pattern.match(t)`. -/
def match? (u : Unicode) (r : Pattern) (t : Text) : Option Cursor :=
  (ends u r { rest := t }).head?

/-- `pattern.fullmatch(t)`. -/
def fullMatch? (u : Unicode) (r : Pattern) (t : Text) : Option Cursor :=
  (ends u r { rest := t }).find? fun e => e.rest.isEmpty

/-- `pattern.search(t)`, from a position on. -/
@[grind =]
def searchFrom (u : Unicode) (r : Pattern) (before : Option Char) : Text → Option Cursor
  | [] => (ends u r { before, rest := [] }).head?
  | c :: rest => ((ends u r { before, rest := c :: rest }).head?).or (searchFrom u r (some c) rest)

/-- `pattern.search(t)`. -/
def search? (u : Unicode) (r : Pattern) (t : Text) : Option Cursor :=
  searchFrom u r none t

/-- The matches one after the other, from a position on. None of the patterns
here matches the empty text. -/
@[grind =]
def findallFrom (u : Unicode) (r : Pattern) : Nat → Option Char → Text → List Cursor
  | 0, _, _ => []
  | _ + 1, _, [] => []
  | fuel + 1, before, c :: rest =>
      match (ends u r { before, rest := c :: rest }).head? with
      | some e => e :: findallFrom u r fuel e.before e.rest
      | none => findallFrom u r fuel (some c) rest

/-- `pattern.findall(t)`. -/
def findall (u : Unicode) (r : Pattern) (t : Text) : List Cursor :=
  findallFrom u r t.length none t

/-! ## Building patterns -/

/-- A literal text. -/
@[grind =]
def literal : Text → Pattern
  | [] => .empty
  | c :: rest => .seq (.chars (· == c)) (literal rest)

/-- A literal text under `re.IGNORECASE`. -/
@[grind =]
def word : Text → Pattern
  | [] => .empty
  | c :: rest => .seq (.chars (Regex.sameLetter c)) (word rest)

/-- `[...]+`. -/
def plus (p : Char → Bool) : Pattern :=
  .seq (.chars p) (.star p)

/-- `(?:...)?`. -/
def opt (a : Pattern) : Pattern :=
  .alt a .empty

/-- `[...]{n}`. -/
@[grind =]
def exactly (p : Char → Bool) : Nat → Pattern
  | 0 => .empty
  | n + 1 => .seq (.chars p) (exactly p n)

/-- `[...]{n,n+m}`. -/
@[grind =]
def between (p : Char → Bool) (n : Nat) : Nat → Pattern
  | 0 => exactly p n
  | m + 1 => .alt (exactly p (n + m + 1)) (between p n m)

/-- Patterns one after the other. -/
def concat : List Pattern → Pattern
  | [] => .empty
  | [a] => a
  | a :: rest => .seq a (concat rest)

/-! ## What a pattern reads -/

/-- The texts a pattern is for, whatever is around them. -/
@[grind =]
def Reads : Pattern → Text → Prop
  | .empty, w => w = []
  | .chars p, w => ∃ c, p c = true ∧ w = [c]
  | .boundary, w => w = []
  | .finish, w => w = []
  | .seq a b, w => ∃ x y, w = x ++ y ∧ Reads a x ∧ Reads b y
  | .alt a b, w => Reads a w ∨ Reads b w
  | .star p, w => ∀ c ∈ w, p c = true
  | .lazyStar p, w => ∀ c ∈ w, p c = true
  | .group _ a, w => Reads a w

/-- A pattern that does not look around. -/
@[grind =]
def Plain : Pattern → Prop
  | .boundary | .finish => False
  | .seq a b | .alt a b => Plain a ∧ Plain b
  | .group _ a => Plain a
  | _ => True

/-- A pattern all of whose characters have a property. -/
@[grind =]
def Over (q : Char → Prop) : Pattern → Prop
  | .chars p | .star p | .lazyStar p => ∀ c, p c = true → q c
  | .seq a b | .alt a b => Over q a ∧ Over q b
  | .group _ a => Over q a
  | _ => True

variable {u : Unicode} {c e : Cursor} {t w : Text}

theorem mem_ends_seq {a b : Pattern} :
    e ∈ ends u (.seq a b) c ↔ ∃ m ∈ ends u a c, e ∈ ends u b m :=
  List.mem_flatMap

theorem mem_ends_alt {a b : Pattern} :
    e ∈ ends u (.alt a b) c ↔ e ∈ ends u a c ∨ e ∈ ends u b c :=
  List.mem_append

theorem mem_ends_star {p : Char → Bool} :
    e ∈ ends u (.star p) c ↔
      ∃ x ∈ Regex.starEnds p c.before c.rest, { c with before := x.1, rest := x.2 } = e :=
  List.mem_map

theorem mem_ends_lazyStar {p : Char → Bool} : e ∈ ends u (.lazyStar p) c ↔ e ∈ ends u (.star p) c := by
  simp only [ends, List.mem_map, List.mem_reverse]

theorem mem_ends_group {k : Nat} {a : Pattern} :
    e ∈ ends u (.group k a) c ↔ ∃ m ∈ ends u a c,
      { m with groups := (k, c.rest.take (c.rest.length - m.rest.length)) :: m.groups } = e :=
  List.mem_map

/-- What one character leaves. -/
theorem mem_ends_chars {p : Char → Bool} (h : e ∈ ends u (.chars p) c) :
    ∃ d, p d = true ∧ c.rest = d :: e.rest ∧ e.groups = c.groups := by
  rw [ends] at h
  split at h
  · cases h
  · next d rest hrest =>
    split at h
    · next hd =>
      obtain rfl := List.mem_singleton.mp h
      exact ⟨d, hd, hrest, rfl⟩
    · cases h

/-- A repetition can stop after any of its characters. -/
theorem mem_starEnds {p : Char → Bool} (rest : Text) (hw : ∀ d ∈ w, p d = true) :
    ∀ before, ∃ before', (before', rest) ∈ Regex.starEnds p before (w ++ rest) := by
  induction w with
  | nil => exact fun before => ⟨before, Regex.self_mem_starEnds p before rest⟩
  | cons d w ih =>
      intro before
      obtain ⟨before', h⟩ := ih (fun x hx => hw x (List.mem_cons_of_mem d hx)) (some d)
      refine ⟨before', ?_⟩
      rw [List.cons_append, Regex.starEnds, if_pos (hw d List.mem_cons_self)]
      exact List.mem_append_left _ h

/-- What is consumed is read. -/
theorem reads_of_mem_ends {r : Pattern} :
    ∀ {c e : Cursor}, e ∈ ends u r c → ∃ w, c.rest = w ++ e.rest ∧ Reads r w := by
  induction r with
  | empty =>
      intro c e h
      rw [ends, List.mem_singleton] at h
      exact ⟨[], by rw [h]; rfl, rfl⟩
  | chars p =>
      intro c e h
      rw [ends] at h
      split at h
      · exact absurd h List.not_mem_nil
      · next d rest hrest =>
        split at h
        · next hp =>
          rw [List.mem_singleton] at h
          exact ⟨[d], by rw [hrest, h]; rfl, d, hp, rfl⟩
        · exact absurd h List.not_mem_nil
  | boundary =>
      intro c e h
      rw [ends] at h
      split at h
      · rw [List.mem_singleton] at h
        exact ⟨[], by rw [h]; rfl, rfl⟩
      · exact absurd h List.not_mem_nil
  | finish =>
      intro c e h
      rw [ends] at h
      split at h
      · rw [List.mem_singleton] at h
        exact ⟨[], by rw [h]; rfl, rfl⟩
      · exact absurd h List.not_mem_nil
  | seq a b iha ihb =>
      intro c e h
      obtain ⟨m, hm, he⟩ := mem_ends_seq.mp h
      obtain ⟨x, hx, hax⟩ := iha hm
      obtain ⟨y, hy, hby⟩ := ihb he
      exact ⟨x ++ y, by rw [hx, hy, List.append_assoc], x, y, rfl, hax, hby⟩
  | alt a b iha ihb =>
      intro c e h
      rcases mem_ends_alt.mp h with h | h
      · obtain ⟨w, hw, hr⟩ := iha h
        exact ⟨w, hw, .inl hr⟩
      · obtain ⟨w, hw, hr⟩ := ihb h
        exact ⟨w, hw, .inr hr⟩
  | star p =>
      intro c e h
      obtain ⟨x, hx, rfl⟩ := mem_ends_star.mp h
      exact Regex.mem_starEnds_suffix hx
  | lazyStar p =>
      intro c e h
      obtain ⟨x, hx, rfl⟩ := mem_ends_star.mp (mem_ends_lazyStar.mp h)
      exact Regex.mem_starEnds_suffix hx
  | group k a ih =>
      intro c e h
      obtain ⟨m, hm, rfl⟩ := mem_ends_group.mp h
      obtain ⟨w, hw, hr⟩ := ih hm
      exact ⟨w, hw, hr⟩

/-- What can be read can be consumed. -/
theorem mem_ends_of_reads {r : Pattern} (hr : Plain r) :
    ∀ {c : Cursor} {w rest : Text}, Reads r w → c.rest = w ++ rest →
      ∃ e ∈ ends u r c, e.rest = rest := by
  induction r with
  | empty =>
      rintro c w rest rfl hrest
      exact ⟨c, List.mem_singleton_self c, hrest⟩
  | chars p =>
      rintro c w rest ⟨d, hp, rfl⟩ hrest
      refine ⟨{ c with before := some d, rest := rest }, ?_, rfl⟩
      rw [ends, hrest]
      simp [hp]
  | boundary => exact hr.elim
  | finish => exact hr.elim
  | seq a b iha ihb =>
      rintro c w rest ⟨x, y, rfl, hx, hy⟩ hrest
      obtain ⟨m, hm, hmrest⟩ := iha hr.1 hx (hrest.trans (List.append_assoc x y rest))
      obtain ⟨e, he, herest⟩ := ihb hr.2 hy hmrest
      exact ⟨e, mem_ends_seq.mpr ⟨m, hm, he⟩, herest⟩
  | alt a b iha ihb =>
      rintro c w rest (h | h) hrest
      · obtain ⟨e, he, herest⟩ := iha hr.1 h hrest
        exact ⟨e, mem_ends_alt.mpr (.inl he), herest⟩
      · obtain ⟨e, he, herest⟩ := ihb hr.2 h hrest
        exact ⟨e, mem_ends_alt.mpr (.inr he), herest⟩
  | star p =>
      intro c w rest h hrest
      obtain ⟨before, hmem⟩ := mem_starEnds rest h c.before
      rw [← hrest] at hmem
      exact ⟨_, mem_ends_star.mpr ⟨_, hmem, rfl⟩, rfl⟩
  | lazyStar p =>
      intro c w rest h hrest
      obtain ⟨before, hmem⟩ := mem_starEnds rest h c.before
      rw [← hrest] at hmem
      exact ⟨_, mem_ends_lazyStar.mpr (mem_ends_star.mpr ⟨_, hmem, rfl⟩), rfl⟩
  | group k a ih =>
      intro c w rest h hrest
      obtain ⟨m, hm, hmrest⟩ := ih hr h hrest
      exact ⟨_, mem_ends_group.mpr ⟨m, hm, rfl⟩, hmrest⟩

/-- What a group captures is what its pattern consumed. -/
theorem group_of_mem_ends {k : Nat} {a : Pattern} (h : e ∈ ends u (.group k a) c) :
    ∃ w, c.rest = w ++ e.rest ∧ Reads a w ∧ e.group? k = some w := by
  obtain ⟨m, hm, rfl⟩ := mem_ends_group.mp h
  obtain ⟨w, hw, hr⟩ := reads_of_mem_ends hm
  refine ⟨w, hw, hr, ?_⟩
  rw [Cursor.group?, List.lookup_cons_self, hw, List.length_append, Nat.add_sub_cancel,
    List.take_left]

/-- What is read has the characters of the pattern. -/
theorem forall_mem_of_reads {q : Char → Prop} {r : Pattern} (hr : Over q r) :
    ∀ {w : Text}, Reads r w → ∀ c ∈ w, q c := by
  induction r with
  | empty | boundary | finish =>
      rintro w rfl c hc
      exact absurd hc List.not_mem_nil
  | chars p =>
      rintro w ⟨d, hd, rfl⟩ c hc
      rw [List.mem_singleton.mp hc]
      exact hr d hd
  | seq a b iha ihb =>
      rintro w ⟨x, y, rfl, hx, hy⟩ c hc
      rcases List.mem_append.mp hc with hc | hc
      · exact iha hr.1 hx c hc
      · exact ihb hr.2 hy c hc
  | alt a b iha ihb =>
      rintro w (h | h) c hc
      · exact iha hr.1 h c hc
      · exact ihb hr.2 h c hc
  | star p | lazyStar p => exact fun h c hc => hr c (h c hc)
  | group k a ih => exact ih hr

theorem reads_literal : Reads (literal t) w ↔ w = t := by
  induction t generalizing w with
  | nil => rfl
  | cons c t ih =>
      constructor
      · rintro ⟨_, y, rfl, ⟨d, hd, rfl⟩, hy⟩
        rw [eq_of_beq hd, ih.mp hy]
        rfl
      · rintro rfl
        exact ⟨[c], t, rfl, ⟨c, beq_self_eq_true c, rfl⟩, ih.mpr rfl⟩

theorem reads_exactly {p : Char → Bool} {n : Nat} {w : Text} :
    (exactly p n).Reads w ↔ w.length = n ∧ ∀ c ∈ w, p c = true := by
  induction n generalizing w with
  | zero =>
      constructor
      · rintro rfl
        exact ⟨rfl, fun c hc => absurd hc List.not_mem_nil⟩
      · exact fun h => List.length_eq_zero_iff.mp h.1
  | succ n ih =>
      constructor
      · rintro ⟨_, y, rfl, ⟨c, hc, rfl⟩, hy⟩
        obtain ⟨hlen, hall⟩ := ih.mp hy
        refine ⟨by simp [hlen], fun d hd => ?_⟩
        rcases List.mem_cons.mp hd with rfl | hd
        · exact hc
        · exact hall d hd
      · rintro ⟨hlen, hall⟩
        cases w with
        | nil => cases hlen
        | cons c w =>
            exact ⟨[c], w, rfl, ⟨c, hall c List.mem_cons_self, rfl⟩,
              ih.mpr ⟨Nat.succ.inj hlen, fun d hd => hall d (List.mem_cons_of_mem c hd)⟩⟩

theorem reads_between {p : Char → Bool} {n m : Nat} {w : Text} :
    (between p n m).Reads w ↔ n ≤ w.length ∧ w.length ≤ n + m ∧ ∀ c ∈ w, p c = true := by
  induction m with
  | zero =>
      rw [between, reads_exactly]
      constructor
      · exact fun h => ⟨h.1.ge, h.1.le, h.2⟩
      · exact fun h => ⟨Nat.le_antisymm h.2.1 h.1, h.2.2⟩
  | succ m ih =>
      have hor : (between p n (m + 1)).Reads w ↔
          (exactly p (n + m + 1)).Reads w ∨ (between p n m).Reads w := Iff.rfl
      rw [hor, reads_exactly, ih]
      constructor
      · rintro (h | h)
        · exact ⟨by omega, by omega, h.2⟩
        · exact ⟨h.1, by omega, h.2.2⟩
      · rintro ⟨hlow, hhigh, hall⟩
        by_cases heq : w.length = n + m + 1
        · exact .inl ⟨heq, hall⟩
        · exact .inr ⟨hlow, by omega, hall⟩

end Pattern

end Hephaestus.Lib
