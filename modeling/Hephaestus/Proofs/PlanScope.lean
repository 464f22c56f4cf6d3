import Hephaestus.Pipeline.Admission
import Hephaestus.Pipeline.Dispatch

/-!
# What a plan publishes and what it reserves

The publication parser is a list of declarations, each a path at the start of a
line of a section, and the reservation parser is a list of lines, each with the
paths it quotes. A declaration quotes its path on its own line. So the path is
reserved when it looks as `_PLAN_FILE_RE` wants it and the line stands in a
section for the reservation parser too, which divides the text into other lines
and knows other headings: this is where the two come apart. Otherwise it is
reserved by accident only, because another reserved line quotes it.
-/

namespace Hephaestus.Pipeline

open Hephaestus.Lib

variable {u : Text.Unicode}

/-! ## Declarations -/

/-- Where the publication parser stands: in a section or not, and in which
code fence. -/
structure ScopePlace where
  inSection : Bool := false
  fence : Text := []

/-- Where it stands after a line. -/
def ScopePlace.past (u : Text.Unicode) (p : ScopePlace) (line : Text) : ScopePlace :=
  if !p.fence.isEmpty then
    if closesFence p.fence (Text.strip line) then { p with fence := [] } else p
  else
    match fenceRe.match? u (Text.strip line) with
    | some e => { p with fence := (e.group? 1).getD [] }
    | none =>
        if (topHeadingRe.match? u line).isSome then
          { p with inSection := (scopeHeadingRe.fullMatch? u line).isSome }
        else p

/-- The path a text in backticks declares; nothing where the text does not end. -/
def declaredPath (u : Text.Unicode) (declaration : Text) : Option Text :=
  (tokenRe.match? u declaration).bind fun e => e.group? 1

/-- What a line declares. -/
def ScopePlace.declares? (u : Text.Unicode) (p : ScopePlace) (line : Text) : Option (Option Text) :=
  let declaration := Text.lstrip (dropMarker u (Text.strip line))
  if p.fence.isEmpty ∧ fenceRe.match? u (Text.strip line) = none ∧
      topHeadingRe.match? u line = none ∧ p.inSection = true ∧
      Text.startsWith declaration ['\x60'] = true then
    some (declaredPath u declaration)
  else none

/-- A declaration: the lines before it, its own, and the path. -/
structure Declaration where
  before : List Text
  line : Text
  path : Option Text

/-- The declarations of the lines, from a place on. -/
def declarationsFrom (u : Text.Unicode) : ScopePlace → List Text → List Text → List Declaration
  | _, _, [] => []
  | p, before, line :: lines =>
      (p.declares? u line).toList.map (⟨before, line, ·⟩) ++
        declarationsFrom u (p.past u line) (before ++ [line]) lines

/-- The declarations of a plan, whether they are accepted or not. -/
def declarations (u : Text.Unicode) (plan : Text) : List Declaration :=
  declarationsFrom u {} [] (plan.splitOn '\n')

/-- The parser goes on after it. -/
def Declaration.Accepted (d : Declaration) : Prop :=
  ∃ path, d.path = some path ∧ isSafeScopeRetractionPath path = true

/-- The place in what the loop carries. -/
def ScopeScan.place (scan : ScopeScan) : ScopePlace :=
  { inSection := scan.inSection, fence := scan.fence }

/-- A turn of the loop moves the place, and takes up the path declared. -/
theorem scopeTurn_eq (scan : ScopeScan) (line : Text) :
    scopeTurn u scan line =
      match scan.place.declares? u line with
      | none =>
          let p := scan.place.past u line
          some { scan with inSection := p.inSection, fence := p.fence }
      | some none => none
      | some (some path) =>
          if isSafeScopeRetractionPath path then
            some { scan with files := insert path scan.files }
          else none := by
  obtain ⟨files, inSection, fence⟩ := scan
  unfold scopeTurn ScopePlace.declares? ScopePlace.past ScopeScan.place declaredPath
  dsimp only
  by_cases hf : fence.isEmpty = true
  · simp only [hf, Bool.not_true, Bool.false_eq_true, if_false, true_and]
    cases hfence : fenceRe.match? u (Text.strip line) with
    | some e => simp
    | none =>
        cases htop : topHeadingRe.match? u line with
        | some e => simp
        | none =>
            cases inSection with
            | false => simp
            | true =>
                by_cases hstart : Text.startsWith
                    (Text.lstrip (dropMarker u (Text.strip line))) ['\x60'] = true
                · cases htoken : (tokenRe.match? u
                      (Text.lstrip (dropMarker u (Text.strip line)))).bind fun e => e.group? 1 with
                  | none => simp [hstart]
                  | some token => simp [hstart]
                · simp [hstart]
  · simp only [hf]
    simp
    split <;> rfl

theorem past_of_declares {p : ScopePlace} {line : Text} {d : Option Text}
    (h : p.declares? u line = some d) : p.past u line = p := by
  unfold ScopePlace.declares? at h
  dsimp only at h
  split at h
  · next hline =>
    obtain ⟨hfence, hopen, htop, -, -⟩ := hline
    rw [ScopePlace.past, hfence, hopen, htop]
    rfl
  · cases h

/-- The loop fails at the first declaration that is not accepted, and takes up
the paths of all of them otherwise. -/
theorem scan_lines (lines : List Text) :
    ∀ (scan : ScopeScan) (before : List Text),
      match lines.foldlM (scopeTurn u) scan with
      | none => ∃ d ∈ declarationsFrom u scan.place before lines, ¬ d.Accepted
      | some scan' =>
          (∀ d ∈ declarationsFrom u scan.place before lines, d.Accepted) ∧
          ∀ path, path ∈ scan'.files ↔ path ∈ scan.files ∨
            ∃ d ∈ declarationsFrom u scan.place before lines, d.path = some path := by
  induction lines with
  | nil => intro scan before; simp [declarationsFrom]
  | cons line lines ih =>
      intro scan before
      rw [List.foldlM_cons, scopeTurn_eq, declarationsFrom]
      cases hd : scan.place.declares? u line with
      | none =>
          have hrest := ih
            { scan with
              inSection := (scan.place.past u line).inSection
              fence := (scan.place.past u line).fence } (before ++ [line])
          have hplace : ScopeScan.place
              { scan with
                inSection := (scan.place.past u line).inSection
                fence := (scan.place.past u line).fence } = scan.place.past u line := rfl
          rw [hplace] at hrest
          exact hrest
      | some d =>
          rw [past_of_declares hd]
          cases d with
          | none =>
              refine ⟨⟨before, line, none⟩, by simp, ?_⟩
              rintro ⟨path, hpath, -⟩
              cases hpath
          | some path =>
              dsimp only
              by_cases hsafe : isSafeScopeRetractionPath path = true
              · rw [if_pos hsafe]
                have hrest := ih { scan with files := insert path scan.files } (before ++ [line])
                have hplace : ScopeScan.place { scan with files := insert path scan.files } =
                    scan.place := rfl
                rw [hplace] at hrest
                dsimp only [Option.bind_eq_bind, Option.bind_some] at hrest ⊢
                have hself : Declaration.Accepted ⟨before, line, some path⟩ := ⟨path, rfl, hsafe⟩
                cases hfold : lines.foldlM (scopeTurn u)
                    { scan with files := insert path scan.files } with
                | none =>
                    rw [hfold] at hrest
                    obtain ⟨d, hmem, hd⟩ := hrest
                    exact ⟨d, List.mem_append_right _ hmem, hd⟩
                | some scan' =>
                    rw [hfold] at hrest
                    obtain ⟨hall, hfiles⟩ := hrest
                    refine ⟨fun d hmem => ?_, fun path' => ?_⟩
                    · rcases List.mem_append.mp hmem with hnew | hmem
                      · obtain rfl : d = _ := List.mem_singleton.mp hnew
                        exact hself
                      · exact hall d hmem
                    · rw [hfiles path', Finset.mem_insert]
                      simp only [Option.toList_some, List.map_cons, List.map_nil,
                        List.singleton_append, List.mem_cons, exists_eq_or_imp, Option.some.injEq]
                      tauto
              · rw [if_neg hsafe]
                refine ⟨⟨before, line, some path⟩, by simp, ?_⟩
                rintro ⟨path', hpath, hsafe'⟩
                obtain rfl := Option.some.inj hpath
                exact hsafe hsafe'

/-- The publication scope: nothing once a declaration is not accepted, and all
declared paths otherwise. -/
theorem parsePublicationScopeFiles_eq (plan : Text) :
    (parsePublicationScopeFiles u plan = ∅ ∧ ∃ d ∈ declarations u plan, ¬ d.Accepted) ∨
    (∀ d ∈ declarations u plan, d.Accepted) ∧
      ∀ path, path ∈ parsePublicationScopeFiles u plan ↔
        ∃ d ∈ declarations u plan, d.path = some path := by
  have h := scan_lines (u := u) (plan.splitOn '\n') {} []
  rw [parsePublicationScopeFiles]
  cases hfold : (plan.splitOn '\n').foldlM (scopeTurn u) {} with
  | none =>
      rw [hfold] at h
      exact .inl ⟨rfl, h⟩
  | some scan =>
      rw [hfold] at h
      refine .inr ⟨h.1, fun path => (h.2 path).trans ?_⟩
      exact or_iff_right (Finset.notMem_empty path)

/-! ## Reserved lines -/

/-- What closes a section of the reservation parser, unless it opens one. -/
def closesReservation (line : Text) : Bool :=
  Text.startsWith line "## ".toList

/-- Whether the reservation parser is in a section after the lines. -/
def reservedAfter (u : Text.Unicode) : Bool → List Text → Bool
  | inSection, [] => inSection
  | inSection, line :: lines =>
      reservedAfter u (opensReservation u line || inSection && !closesReservation line) lines

/-- The lines whose quotations are reserved. -/
def reservedLines (u : Text.Unicode) : Bool → List Text → List Text
  | _, [] => []
  | inSection, line :: lines =>
      if opensReservation u line then reservedLines u true lines
      else if inSection && !closesReservation line then line :: reservedLines u true lines
      else reservedLines u false lines

theorem mem_plannedLoop {path : Text} (lines : List Text) :
    ∀ (inSection : Bool) (files : Finset Text), path ∈ plannedLoop u inSection files lines ↔
      path ∈ files ∨ ∃ line ∈ reservedLines u inSection lines, path ∈ quotedPaths u line := by
  induction lines with
  | nil => intro inSection files; simp [plannedLoop, reservedLines]
  | cons line lines ih =>
      intro inSection files
      rw [plannedLoop, reservedLines]
      split
      · exact ih true files
      · by_cases hclose : Text.startsWith line "## ".toList = true
        · simp only [closesReservation, hclose, if_true, Bool.not_true, Bool.and_false,
            Bool.false_eq_true, if_false]
          exact ih false files
        · cases inSection with
          | false =>
              simp only [hclose, Bool.false_eq_true, if_false, Bool.false_and]
              exact ih false files
          | true =>
              simp only [closesReservation, hclose, Bool.false_eq_true, if_false, if_true,
                Bool.not_false, Bool.and_self]
              rw [ih true, Finset.mem_union, List.mem_toFinset, or_assoc]
              simp only [List.mem_cons, exists_eq_or_imp]

theorem mem_parsePlannedFiles {path plan : Text} :
    path ∈ parsePlannedFiles u plan ↔
      ∃ line ∈ reservedLines u false (Text.splitlines plan), path ∈ quotedPaths u line := by
  rw [parsePlannedFiles, mem_plannedLoop]
  exact or_iff_right (Finset.notMem_empty path)

theorem reservedLines_append (lines lines' : List Text) :
    ∀ inSection, reservedLines u inSection (lines ++ lines') =
      reservedLines u inSection lines ++ reservedLines u (reservedAfter u inSection lines) lines' := by
  induction lines with
  | nil => intro inSection; rfl
  | cons line lines ih =>
      intro inSection
      rw [List.cons_append, reservedLines, reservedLines, reservedAfter]
      split
      · next hopen =>
        rw [hopen, Bool.true_or]
        exact ih true
      · next hopen =>
        rw [Bool.not_eq_true] at hopen
        rw [hopen, Bool.false_or]
        split
        · next hin =>
          rw [hin, ih true]
          rfl
        · next hin =>
          rw [Bool.not_eq_true] at hin
          rw [hin]
          exact ih false

/-- A section stays open over lines that do not close it. -/
theorem reservedAfter_of_not_closes {lines : List Text}
    (h : ∀ line ∈ lines, closesReservation line = false) : reservedAfter u true lines = true := by
  induction lines with
  | nil => rfl
  | cons line lines ih =>
      rw [reservedAfter, h line List.mem_cons_self, Bool.not_false, Bool.and_true, Bool.or_true]
      exact ih fun l hl => h l (List.mem_cons_of_mem line hl)

/-! ## What a line quotes -/

theorem isPathChar_bounds {c : Char} (h : isPathChar c = true) :
    45 ≤ c.toNat ∧ c.toNat ≤ 122 := by
  delta isPathChar isNameChar Char.isAlphanum Char.isAlpha Char.isUpper Char.isLower
    Char.isDigit at h
  simp only [Bool.or_eq_true, Bool.and_eq_true, decide_eq_true_eq, beq_iff_eq, ge_iff_le,
    UInt32.le_iff_toNat_le, Char.ext_iff, ← UInt32.toNat_inj,
    show ('A'.val).toNat = 65 from rfl, show ('Z'.val).toNat = 90 from rfl,
    show ('a'.val).toNat = 97 from rfl, show ('z'.val).toNat = 122 from rfl,
    show ('0'.val).toNat = 48 from rfl, show ('9'.val).toNat = 57 from rfl,
    show ('_'.val).toNat = 95 from rfl, show ('.'.val).toNat = 46 from rfl,
    show ('/'.val).toNat = 47 from rfl, show ('-'.val).toNat = 45 from rfl] at h
  rw [Char.toNat]
  omega

theorem isPathChar_of_isNameChar {c : Char} (h : isNameChar c = true) : isPathChar c = true := by
  simp [isPathChar, h]

/-- A path that can be reserved has path characters only. -/
theorem isPathChar_of_reads {path : Text} (h : planPath.Reads path) :
    ∀ c ∈ path, isPathChar c = true := by
  refine Pattern.forall_mem_of_reads (q := fun c => isPathChar c = true) ?_ h
  refine ⟨fun _ => isPathChar_of_isNameChar, fun _ h => h, ?_, ⟨fun _ h => h, fun _ h => h⟩, ?_,
    fun _ => isPathChar_of_isNameChar, fun _ => isPathChar_of_isNameChar⟩
  · intro c hc
    rw [eq_of_beq hc]
    rfl
  · intro c hc
    rw [eq_of_beq hc]
    rfl

theorem noBacktick_of_reads {path : Text} (h : planPath.Reads path) : '\x60' ∉ path :=
  fun hmem => absurd (isPathChar_of_reads h _ hmem) (by decide)

theorem noBreak_of_reads {path : Text} (h : planPath.Reads path) : Text.NoBreak path := by
  intro c hc
  obtain ⟨hlow, hhigh⟩ := isPathChar_bounds (isPathChar_of_reads h c hc)
  simp only [Text.isLineBreak, Bool.or_eq_false_iff, Bool.and_eq_false_iff,
    decide_eq_false_iff_not, beq_eq_false_iff_ne]
  omega

/-- Two texts up to their first backtick. -/
theorem append_backtick_inj {a b a' b' : Text} (ha : '\x60' ∉ a) (hb : '\x60' ∉ b)
    (h : a ++ '\x60' :: a' = b ++ '\x60' :: b') : a = b ∧ a' = b' := by
  induction a generalizing b with
  | nil =>
      cases b with
      | nil => exact ⟨rfl, (List.cons.inj h).2⟩
      | cons d b => exact absurd List.mem_cons_self ((List.cons.inj h).1 ▸ hb)
  | cons c a ih =>
      cases b with
      | nil => exact absurd List.mem_cons_self ((List.cons.inj h).1 ▸ ha)
      | cons d b =>
          obtain ⟨rfl, hrest⟩ := List.cons.inj h
          obtain ⟨rfl, hsame⟩ := ih (fun hm => ha (List.mem_cons_of_mem c hm))
            (fun hm => hb (List.mem_cons_of_mem c hm)) hrest
          exact ⟨rfl, hsame⟩

/-- What stands between two backticks and can be captured is what is captured. -/
theorem quoted_of_mem_ends {a : Pattern} {c e : Cursor} {path post : Text}
    (hpath : '\x60' ∉ path) (ha : ∀ w, a.Reads w → '\x60' ∉ w)
    (hc : c.rest = '\x60' :: path ++ '\x60' :: post)
    (h : e ∈ (Pattern.seq (.chars (· == '\x60'))
      (.seq (.group 1 a) (.chars (· == '\x60')))).ends u c) :
    e.group? 1 = some path ∧ e.rest = post ∧ a.Reads path := by
  obtain ⟨c1, h1, h⟩ := Pattern.mem_ends_seq.mp h
  obtain ⟨c2, h2, h3⟩ := Pattern.mem_ends_seq.mp h
  obtain ⟨d, -, hd, -⟩ := Pattern.mem_ends_chars h1
  obtain ⟨w, hw, hreads, hgroup⟩ := Pattern.group_of_mem_ends h2
  obtain ⟨d', hd', hrest, hgroups⟩ := Pattern.mem_ends_chars h3
  obtain rfl := eq_of_beq hd'
  rw [hc] at hd
  rw [hrest, ← (List.cons.inj hd).2] at hw
  obtain ⟨rfl, rfl⟩ := append_backtick_inj hpath (ha w hreads) hw
  refine ⟨?_, rfl, hreads⟩
  rw [Cursor.group?, hgroups]
  exact hgroup

/-- What a search steps over before the first backtick. -/
theorem findallFrom_skip {pre : Text} (hpre : '\x60' ∉ pre) (rest : Text) :
    ∀ (fuel : Nat) (before : Option Char), (pre ++ rest).length ≤ fuel →
      ∃ before' fuel', rest.length ≤ fuel' ∧
        planFileRe.findallFrom u fuel before (pre ++ rest) =
          planFileRe.findallFrom u fuel' before' rest := by
  induction pre with
  | nil => exact fun fuel before hfuel => ⟨before, fuel, hfuel, rfl⟩
  | cons c pre ih =>
      intro fuel before hfuel
      cases fuel with
      | zero => simp at hfuel
      | succ fuel =>
          have hne : planFileRe.ends u { before, rest := c :: (pre ++ rest) } = [] := by
            rw [List.eq_nil_iff_forall_not_mem]
            intro e he
            obtain ⟨c1, h1, -⟩ := Pattern.mem_ends_seq.mp he
            obtain ⟨d, hd, hrest, -⟩ := Pattern.mem_ends_chars h1
            rw [eq_of_beq hd] at hrest
            obtain ⟨rfl, -⟩ := List.cons.inj hrest
            exact hpre List.mem_cons_self
          rw [List.cons_append, List.length_cons] at hfuel
          obtain ⟨before', fuel', hlen, hskip⟩ :=
            ih (fun hm => hpre (List.mem_cons_of_mem c hm)) fuel (some c) (Nat.le_of_succ_le_succ hfuel)
          refine ⟨before', fuel', hlen, ?_⟩
          rw [List.cons_append, Pattern.findallFrom, hne]
          exact hskip

theorem planFileRe_reads {path : Text} (h : planPath.Reads path) :
    planFileRe.Reads ('\x60' :: path ++ ['\x60']) :=
  ⟨['\x60'], path ++ ['\x60'], rfl, ⟨_, rfl, rfl⟩, path, ['\x60'], rfl, h, _, rfl, rfl⟩

theorem planFileRe_plain : planFileRe.Plain := by
  simp [planFileRe, planPath, Pattern.concat, Pattern.plus, Pattern.Plain]

/-- The first text in backticks of a line is found if it looks like a path. -/
theorem mem_quotedPaths_first {pre path post : Text} (hpre : '\x60' ∉ pre)
    (hpath : planPath.Reads path) :
    path ∈ quotedPaths u (pre ++ '\x60' :: path ++ '\x60' :: post) := by
  rw [quotedPaths, List.mem_filterMap, Pattern.findall, List.append_assoc]
  obtain ⟨before, fuel, hlen, hskip⟩ := findallFrom_skip (u := u) hpre
    ('\x60' :: path ++ '\x60' :: post) _ none le_rfl
  rw [hskip]
  cases fuel with
  | zero => simp at hlen
  | succ fuel =>
      have hrest : '\x60' :: path ++ '\x60' :: post = ('\x60' :: path ++ ['\x60']) ++ post := by simp
      obtain ⟨e, he, -⟩ := Pattern.mem_ends_of_reads planFileRe_plain (u := u)
        (c := { before, rest := '\x60' :: path ++ '\x60' :: post }) (planFileRe_reads hpath) hrest
      cases hends : planFileRe.ends u { before, rest := '\x60' :: path ++ '\x60' :: post } with
      | nil =>
          rw [hends] at he
          cases he
      | cons first others =>
          have hfirst : first ∈ planFileRe.ends u { before, rest := '\x60' :: path ++ '\x60' :: post } := by
            rw [hends]
            exact List.mem_cons_self
          obtain ⟨hgroup, -, -⟩ := quoted_of_mem_ends (noBacktick_of_reads hpath)
            (fun w hw => noBacktick_of_reads hw) rfl hfirst
          refine ⟨first, ?_, hgroup⟩
          rw [List.cons_append] at hends ⊢
          rw [Pattern.findallFrom, hends]
          exact List.mem_cons_self

/-! ## The front of a declaration -/

/-- Number signs in one block, three of them or more, do not begin with two and
a space where another character comes before. -/
theorem getLast_of_hashes {a b p r : Text} {k : Nat} (ha : '#' ∉ a) (hb : '#' ∉ b) (hk : 3 ≤ k)
    (h : a ++ (List.replicate k '#' ++ b) = p ++ '#' :: '#' :: ' ' :: r) :
    p.getLast? = some '#' := by
  induction a generalizing p with
  | nil =>
      rw [List.nil_append] at h
      have hlen : p.length + 2 ≤ k := by
        by_contra hlt
        have hget : (List.replicate k '#' ++ b)[p.length + 1]? = some '#' := by
          rw [h, List.getElem?_append_right (Nat.le_succ _), show p.length.succ - p.length = 1 by omega]
          rfl
        rw [List.getElem?_append_right (by rw [List.length_replicate]; omega)] at hget
        exact hb (List.mem_of_getElem? hget)
      have hp : p = List.replicate p.length '#' := by
        have hpre : p <+: List.replicate k '#' ++ b := ⟨_, h.symm⟩
        have hpre' := List.prefix_of_prefix_length_le hpre (List.prefix_append _ b)
          (by rw [List.length_replicate]; omega)
        exact (List.prefix_replicate_iff.mp hpre').2
      cases hlast : p.length with
      | zero =>
          rw [List.length_eq_zero_iff.mp hlast, List.nil_append] at h
          obtain ⟨k, rfl⟩ : ∃ j, k = j + 3 := ⟨k - 3, by omega⟩
          simp [List.replicate_succ] at h
      | succ n =>
          rw [hp, hlast, List.replicate_succ', List.getLast?_concat]
  | cons c a ih =>
      cases p with
      | nil =>
          obtain ⟨rfl, -⟩ := List.cons.inj h
          exact absurd List.mem_cons_self ha
      | cons d p =>
          have hrest := ih (fun hm => ha (List.mem_cons_of_mem c hm)) (List.cons.inj h).2
          rw [List.getLast?_cons, hrest]
          rfl

/-- What can stand before the path a line declares. -/
structure Front (pre : Text) : Prop where
  noBacktick : '\x60' ∉ pre
  noLetter : ∀ c ∈ pre, Regex.sameLetter 'F' c = false
  noTitle : ∀ p r, pre = p ++ '#' :: '#' :: ' ' :: r → p.getLast? = some '#'

/-- A marker has no number sign in it, or is the marker of a sub-heading. -/
theorem marker_hashes {m : Text} (h : markerRe.Reads m) :
    '#' ∉ m ∨ ∃ k b, 3 ≤ k ∧ m = List.replicate k '#' ++ b ∧ '#' ∉ b := by
  have hblank : ∀ {b : Text}, (Pattern.plus isBlank).Reads b → '#' ∉ b := by
    intro b hb hmem
    have hsign := Pattern.forall_mem_of_reads (q := fun c => isBlank c = true)
      (r := .plus isBlank) ⟨fun _ h => h, fun _ h => h⟩ hb _ hmem
    cases hsign
  rcases h with ⟨a, b, rfl, ha, hb⟩ | ⟨_, b, rfl, ⟨c, hc, rfl⟩, hb⟩
  · rcases ha with ⟨c, hc, rfl⟩ | ⟨x, _, rfl, hx, c, hc, rfl⟩ | ha
    · left
      simp only [List.singleton_append, List.mem_cons, not_or]
      refine ⟨?_, hblank hb⟩
      rintro rfl
      cases hc
    · left
      have hdigits : '#' ∉ x := by
        intro hmem
        have hsign := Pattern.forall_mem_of_reads (q := fun c => c.isDigit = true)
          (r := .plus Char.isDigit) ⟨fun _ h => h, fun _ h => h⟩ hx _ hmem
        cases hsign
      simp only [List.append_assoc, List.mem_append, List.mem_cons, List.not_mem_nil, or_false,
        not_or]
      refine ⟨hdigits, ?_, hblank hb⟩
      rintro rfl
      cases hc
    · right
      obtain ⟨hlow, -, hall⟩ := Pattern.reads_between.mp ha
      refine ⟨a.length, b, hlow, ?_, hblank hb⟩
      rw [← List.eq_replicate_of_mem fun c hc => eq_of_beq (hall c hc)]
  · left
    simp only [List.singleton_append, List.mem_cons, not_or]
    constructor
    · rintro rfl
      cases hc
    · intro hmem
      cases hb _ hmem

/-- `c` is white space, or may stand in a marker. -/
def isFrontChar (c : Char) : Bool :=
  Text.isSpace c || c.isDigit || ['-', '*', '+', '.', ')', '#', '|'].contains c

theorem isFrontChar_of_marker {m : Text} (h : markerRe.Reads m) :
    ∀ c ∈ m, isFrontChar c = true := by
  have hblank : ∀ c, isBlank c = true → isFrontChar c = true := by
    intro c hc
    rcases Bool.or_eq_true_iff.mp hc with h | h <;> (rw [eq_of_beq h]; rfl)
  have hsign : ∀ c, (c == '#') = true → isFrontChar c = true := by
    intro c hc
    rw [eq_of_beq hc]
    rfl
  refine Pattern.forall_mem_of_reads (q := fun c => isFrontChar c = true) ?_ h
  refine ⟨⟨⟨?_, ⟨⟨?_, ?_⟩, ?_⟩, ?_⟩, hblank, hblank⟩, ?_, hblank⟩
  · intro c hc
    simp only [Bool.or_eq_true, beq_iff_eq] at hc
    rcases hc with (rfl | rfl) | rfl <;> rfl
  · intro c hc
    simp [isFrontChar, hc]
  · intro c hc
    simp [isFrontChar, hc]
  · intro c hc
    simp only [Bool.or_eq_true, beq_iff_eq] at hc
    rcases hc with rfl | rfl <;> rfl
  · simp only [Pattern.between, Pattern.exactly, Pattern.Over, and_true]
    exact ⟨⟨hsign, hsign, hsign, hsign, hsign, hsign⟩, ⟨hsign, hsign, hsign, hsign, hsign⟩,
      ⟨hsign, hsign, hsign, hsign⟩, hsign, hsign, hsign⟩
  · intro c hc
    rw [eq_of_beq hc]
    rfl

theorem sameLetter_of_isFrontChar {c : Char} (h : isFrontChar c = true) :
    Regex.sameLetter 'F' c = false := by
  have hlower : c.toLower ≠ 'f' := by
    simp only [isFrontChar, Bool.or_eq_true, List.contains_iff_mem] at h
    rcases h with (h | h) | h
    · rw [Text.toLower_of_isSpace h]
      rintro rfl
      cases h
    · intro hf
      simp only [Char.isDigit, Bool.and_eq_true, decide_eq_true_eq, ge_iff_le,
        UInt32.le_iff_toNat_le] at h
      obtain ⟨hlow, hhigh⟩ := h
      unfold Char.toLower at hf
      split at hf
      · next hupper =>
        simp only [ge_iff_le, UInt32.le_iff_toNat_le, show ('A'.val).toNat = 65 from rfl,
          show ('9'.val).toNat = 57 from rfl] at hupper hhigh
        omega
      · rw [hf] at hhigh
        revert hhigh
        decide
    · intro hf
      simp only [List.mem_cons, List.not_mem_nil, or_false] at h
      rcases h with rfl | rfl | rfl | rfl | rfl | rfl | rfl <;> cases hf
  simp only [Regex.sameLetter, Bool.or_eq_false_iff, Bool.and_eq_false_iff, beq_eq_false_iff_ne]
  exact ⟨⟨⟨hlower, .inl (by decide)⟩, .inl (by decide)⟩, .inl (by decide)⟩

/-- White space, a marker or none, white space. -/
theorem Front.of_marker {a m b : Text} (ha : ∀ c ∈ a, Text.isSpace c = true)
    (hm : m = [] ∨ markerRe.Reads m) (hb : ∀ c ∈ b, Text.isSpace c = true) :
    Front (a ++ (m ++ b)) := by
  have hchars : ∀ c ∈ a ++ (m ++ b), isFrontChar c = true := by
    intro c hc
    simp only [List.mem_append] at hc
    rcases hc with hc | hc | hc
    · simp [isFrontChar, ha c hc]
    · rcases hm with rfl | hm
      · cases hc
      · exact isFrontChar_of_marker hm c hc
    · simp [isFrontChar, hb c hc]
  have hspace : ∀ {t : Text}, (∀ c ∈ t, Text.isSpace c = true) → '#' ∉ t :=
    fun h hmem => absurd (h _ hmem) (by decide)
  refine ⟨fun hmem => absurd (hchars _ hmem) (by decide), fun c hc =>
    sameLetter_of_isFrontChar (hchars c hc), ?_⟩
  intro p r hpre
  have hmarker : '#' ∉ m ∨ ∃ k b, 3 ≤ k ∧ m = List.replicate k '#' ++ b ∧ '#' ∉ b := by
    rcases hm with rfl | hm
    · exact .inl List.not_mem_nil
    · exact marker_hashes hm
  rcases hmarker with hnone | ⟨k, b', hk, rfl, hb'⟩
  · have hmem : '#' ∈ a ++ (m ++ b) := by
      rw [hpre]
      simp
    simp only [List.mem_append] at hmem
    rcases hmem with hmem | hmem | hmem
    · exact absurd hmem (hspace ha)
    · exact absurd hmem hnone
    · exact absurd hmem (hspace hb)
  · rw [List.append_assoc] at hpre
    refine getLast_of_hashes (hspace ha) ?_ hk hpre
    rw [List.mem_append, not_or]
    exact ⟨hb', hspace hb⟩

/-! ## The line of a declaration -/

theorem mem_declarationsFrom {d : Declaration} {lines : List Text} :
    ∀ {p : ScopePlace} {before : List Text}, d ∈ declarationsFrom u p before lines →
      ∃ mid after q, lines = mid ++ d.line :: after ∧ d.before = before ++ mid ∧
        ScopePlace.declares? u q d.line = some d.path := by
  induction lines with
  | nil => exact fun h => absurd h List.not_mem_nil
  | cons line lines ih =>
      intro p before h
      rcases List.mem_append.mp h with h | h
      · obtain ⟨path, hpath, rfl⟩ := List.mem_map.mp h
        exact ⟨[], lines, p, rfl, (List.append_nil before).symm, Option.mem_toList.mp hpath⟩
      · obtain ⟨mid, after, q, rfl, hbefore, hq⟩ := ih h
        refine ⟨line :: mid, after, q, rfl, ?_, hq⟩
        rw [hbefore, List.append_assoc]
        rfl

theorem dropMarker_split (u : Text.Unicode) (t : Text) :
    ∃ m, t = m ++ dropMarker u t ∧ (m = [] ∨ markerRe.Reads m) := by
  unfold dropMarker
  split
  · next e he =>
    obtain ⟨m, hm, hreads⟩ := Pattern.reads_of_mem_ends (List.mem_of_head? he)
    exact ⟨m, hm, .inr hreads⟩
  · exact ⟨[], rfl, .inl rfl⟩

theorem lstrip_split (t : Text) :
    ∃ b, t = b ++ Text.lstrip t ∧ ∀ c ∈ b, Text.isSpace c = true :=
  ⟨t.takeWhile Text.isSpace, (List.takeWhile_append_dropWhile).symm,
    fun _ hc => List.mem_takeWhile_imp hc⟩

theorem declaredPath_split {t path : Text} (h : declaredPath u t = some path) :
    ∃ post, t = '\x60' :: path ++ '\x60' :: post := by
  obtain ⟨e, he, hpath⟩ := Option.bind_eq_some_iff.mp h
  obtain ⟨c1, h1, h23⟩ := Pattern.mem_ends_seq.mp (List.mem_of_head? he)
  obtain ⟨c2, h2, h3⟩ := Pattern.mem_ends_seq.mp h23
  obtain ⟨d, hd, hrest, -⟩ := Pattern.mem_ends_chars h1
  obtain ⟨w, hw, -, hgroup⟩ := Pattern.group_of_mem_ends h2
  obtain ⟨d', hd', hrest', hgroups⟩ := Pattern.mem_ends_chars h3
  obtain rfl := eq_of_beq hd
  obtain rfl := eq_of_beq hd'
  rw [Cursor.group?, hgroups] at hpath
  obtain rfl : w = path := Option.some.inj (hgroup.symm.trans hpath)
  refine ⟨e.rest, ?_⟩
  rw [hrest'] at hw
  exact hrest.trans (congrArg _ hw)

/-- A line that declares a path is a front, the path in backticks, and a rest. -/
theorem declares_split {p : ScopePlace} {line path : Text}
    (h : p.declares? u line = some (some path)) :
    ∃ pre post, line = pre ++ '\x60' :: path ++ '\x60' :: post ∧ Front pre := by
  unfold ScopePlace.declares? at h
  dsimp only at h
  split at h
  · obtain ⟨post, hpost⟩ := declaredPath_split (Option.some.inj h)
    obtain ⟨a, q, hline, ha⟩ := Text.strip_split line
    obtain ⟨m, hm, hreads⟩ := dropMarker_split u (Text.strip line)
    obtain ⟨b, hb, hspace⟩ := lstrip_split (dropMarker u (Text.strip line))
    refine ⟨a ++ (m ++ b), post ++ q, ?_, Front.of_marker ha hreads hspace⟩
    calc line = a ++ ((m ++ (b ++ ('\x60' :: path ++ '\x60' :: post))) ++ q) := by
          rw [← hpost, ← hb, ← hm]
          exact hline
      _ = a ++ (m ++ b) ++ '\x60' :: path ++ '\x60' :: (post ++ q) := by simp
  · cases h

theorem closes_split {line : Text} (h : closesReservation line = true) :
    ∃ r, line = '#' :: '#' :: ' ' :: r :=
  Text.startsWith_iff.mp h

/-- A line that begins like a declaration opens no section. -/
theorem not_opens_of_front {pre rest : Text}
    (hletter : ∀ c ∈ pre, Regex.sameLetter 'F' c = false) :
    opensReservation u (pre ++ '\x60' :: rest) = false := by
  rw [opensReservation, Option.isSome_eq_false_iff, Option.isNone_iff_eq_none]
  by_contra hne
  obtain ⟨e, he⟩ := Option.ne_none_iff_exists'.mp hne
  obtain ⟨w, hw, hreads⟩ := Pattern.reads_of_mem_ends (List.mem_of_head? he)
  obtain ⟨_, w1, rfl, ⟨c1, hc1, rfl⟩, hreads⟩ := hreads
  obtain ⟨signs, w2, rfl, hsigns, hreads⟩ := hreads
  obtain ⟨spaces, w3, rfl, hspaces, hreads⟩ := hreads
  obtain ⟨_, w4, rfl, ⟨_, w5, rfl, ⟨f, hf, rfl⟩, -⟩, -⟩ := hreads
  have hsign : ∀ c ∈ c1 :: signs ++ spaces, c ≠ '\x60' := by
    rintro c hc rfl
    rcases List.mem_append.mp hc with hc | hc
    · rcases List.mem_cons.mp hc with rfl | hc
      · cases hc1
      · have hin := Pattern.forall_mem_of_reads (q := fun c => (c == '#') = true)
          (r := .plus (· == '#')) ⟨fun _ h => h, fun _ h => h⟩ hsigns _ hc
        cases hin
    · have hin := Pattern.forall_mem_of_reads (q := fun c => Text.isSpace c = true)
        (r := .plus Text.isSpace) ⟨fun _ h => h, fun _ h => h⟩ hspaces _ hc
      cases hin
  have heq : pre ++ '\x60' :: rest = (c1 :: signs ++ spaces) ++ f :: (w5 ++ w4 ++ e.rest) := by
    rw [show pre ++ '\x60' :: rest = _ from hw]
    simp
  rcases List.append_eq_append_iff.mp heq with ⟨mid, hmid, hrest⟩ | ⟨mid, hmid, hrest⟩
  · cases mid with
    | nil =>
        obtain ⟨rfl, -⟩ := List.cons.inj hrest
        cases hf
    | cons c mid =>
        obtain ⟨rfl, -⟩ := List.cons.inj hrest
        refine hsign '\x60' ?_ rfl
        rw [hmid]
        simp
  · cases mid with
    | nil =>
        obtain ⟨rfl, -⟩ := List.cons.inj hrest
        cases hf
    | cons c mid =>
        obtain ⟨rfl, -⟩ := List.cons.inj hrest
        have hletterF : Regex.sameLetter 'F' f = true := hf
        rw [hletter f (by rw [hmid]; simp)] at hletterF
        cases hletterF

theorem splitlines_front {a : Text} (ha : Text.NoBreak a) (hne : a ≠ []) (b : Text) :
    ∃ l ls, Text.splitlines (a ++ b) = (a ++ l) :: ls := by
  induction a with
  | nil => exact absurd rfl hne
  | cons c a ih =>
      have hc := ha c List.mem_cons_self
      rw [List.cons_append, Text.splitlines_cons hc]
      cases a with
      | nil =>
          rw [List.nil_append]
          cases Text.splitlines b with
          | nil => exact ⟨[], [], rfl⟩
          | cons l ls => exact ⟨l, ls, rfl⟩
      | cons d a =>
          obtain ⟨l, ls, hls⟩ := ih (fun x hx => ha x (List.mem_cons_of_mem c hx)) nofun
          exact ⟨l, ls, by rw [hls]; rfl⟩

/-- A path of the reserved kind is reserved by the line that declares it, where
a section is open. -/
theorem reserved_own_line {pre path : Text} (hpre : Front pre) (hpath : planPath.Reads path)
    (rest : Text) :
    ∃ line ∈ reservedLines u true (Text.splitlines (pre ++ '\x60' :: path ++ '\x60' :: rest)),
      path ∈ quotedPaths u line := by
  let q := pre.rdropWhile fun c => !Text.isLineBreak c
  let a := pre.rtakeWhile fun c => !Text.isLineBreak c
  have hqa : pre = q ++ a := (List.rdropWhile_append_rtakeWhile).symm
  have hbreak : ∀ c, q.getLast? = some c → Text.isLineBreak c = true := by
    intro c hc
    have hne : q ≠ [] := by
      rintro hnil
      rw [hnil] at hc
      cases hc
    have hlast := List.rdropWhile_last_not (p := fun c => !Text.isLineBreak c) pre hne
    rw [List.getLast?_eq_some_getLast hne] at hc
    obtain rfl := Option.some.inj hc
    simpa using hlast
  have ha : Text.NoBreak a := by
    intro c hc
    simpa using List.mem_rtakeWhile_imp hc
  have hmem : ∀ c ∈ a, c ∈ pre := fun c hc => by rw [hqa]; exact List.mem_append_right _ hc
  have hback : '\x60' ∉ a := fun h => hpre.noBacktick (hmem _ h)
  -- no piece of the front closes the section
  have hnot : ∀ line ∈ Text.splitlines q, closesReservation line = false := by
    intro line hline
    by_contra hclose
    rw [Bool.not_eq_false] at hclose
    obtain ⟨r, rfl⟩ := closes_split hclose
    obtain ⟨p, post, hp, hstart⟩ := Text.mem_splitlines_split hline
    have htitle := hpre.noTitle p (r ++ post ++ a) (by rw [hqa, hp]; simp)
    rcases hstart with rfl | ⟨p', c, rfl, hc⟩
    · cases htitle
    · rw [List.getLast?_concat] at htitle
      obtain rfl := Option.some.inj htitle
      cases hc
  have hsplit : Text.splitlines (pre ++ '\x60' :: path ++ '\x60' :: rest) =
      Text.splitlines q ++ Text.splitlines (a ++ '\x60' :: path ++ '\x60' :: rest) := by
    rw [hqa, List.append_assoc, List.append_assoc, Text.splitlines_append ?_ hbreak,
      ← List.append_assoc]
    rintro ⟨-, hhead⟩
    cases hcase : a with
    | nil => rw [hcase] at hhead; cases hhead
    | cons c a' =>
        rw [hcase] at hhead
        obtain rfl : c = '\n' := Option.some.inj hhead
        have hno := ha '\n' (by rw [hcase]; exact List.mem_cons_self)
        cases hno
  have hfront : Text.NoBreak (a ++ '\x60' :: path ++ ['\x60']) := by
    refine (ha.append (Text.NoBreak.cons (by decide) (noBreak_of_reads hpath))).append ?_
    exact Text.NoBreak.cons (by decide) (fun c hc => absurd hc List.not_mem_nil)
  obtain ⟨l, ls, hls⟩ := splitlines_front hfront (by simp) rest
  have hline : a ++ '\x60' :: path ++ '\x60' :: rest = a ++ '\x60' :: path ++ ['\x60'] ++ rest := by
    simp
  have hshape : a ++ '\x60' :: path ++ ['\x60'] ++ l = a ++ '\x60' :: path ++ '\x60' :: l := by simp
  have hopens : opensReservation u (a ++ '\x60' :: path ++ '\x60' :: l) = false := by
    rw [List.append_assoc]
    exact not_opens_of_front fun c hc => hpre.noLetter c (hmem c hc)
  have hcloses : closesReservation (a ++ '\x60' :: path ++ '\x60' :: l) = false := by
    by_contra hclose
    rw [Bool.not_eq_false] at hclose
    obtain ⟨r, hr⟩ := closes_split hclose
    obtain ⟨r', ha'⟩ : ∃ r', a = '#' :: '#' :: ' ' :: r' := by
      match a, hr with
      | [], h => cases (List.cons.inj h).1
      | [_], h => cases (List.cons.inj (List.cons.inj h).2).1
      | [_, _], h => cases (List.cons.inj (List.cons.inj (List.cons.inj h).2).2).1
      | c :: d :: e :: r', h =>
          simp only [List.cons_append, List.cons.injEq] at h
          exact ⟨r', by rw [h.1, h.2.1, h.2.2.1]⟩
    have htitle := hpre.noTitle q r' (by rw [← ha']; exact hqa)
    have hno := hbreak _ htitle
    cases hno
  refine ⟨a ++ '\x60' :: path ++ '\x60' :: l, ?_, mem_quotedPaths_first hback hpath⟩
  rw [hsplit, reservedLines_append, reservedAfter_of_not_closes hnot, hline, hls, hshape]
  refine List.mem_append_right _ ?_
  rw [reservedLines, if_neg (by rw [hopens]; exact Bool.false_ne_true), hcloses]
  exact List.mem_cons_self

/-! ## The condition -/

/-- The plan up to the line of a declaration. -/
def Declaration.textBefore (d : Declaration) : Text :=
  (d.before.map (· ++ ['\n'])).flatten

/-- A path that is reserved: one `_PLAN_FILE_RE` can capture, declared where a
section of the reservation parser is open, or one that a line of such a section
quotes. -/
def Declaration.Reserved (u : Text.Unicode) (plan : Text) (d : Declaration) (path : Text) : Prop :=
  planPath.Reads path ∧ reservedAfter u false (Text.splitlines d.textBefore) = true ∨
    ∃ line ∈ reservedLines u false (Text.splitlines plan), path ∈ quotedPaths u line

/-- The parser gives up at some declaration, or every declared path with a
directory is reserved. -/
def ScopeReserved (u : Text.Unicode) (plan : Text) : Prop :=
  (∃ d ∈ declarations u plan, ¬ d.Accepted) ∨
    ∀ d ∈ declarations u plan, ∀ path, d.path = some path → '/' ∈ path → d.Reserved u plan path

/-- What the plan publishes in a directory is in what it reserves. -/
def PublishesReserved (u : Text.Unicode) (plan : Text) : Prop :=
  ∀ path ∈ parsePublicationScopeFiles u plan, '/' ∈ path → path ∈ parsePlannedFiles u plan

/-- The claims an item makes by its plan. -/
def planFileClaims (u : Text.Unicode) (org : String) (item : WorkItem) (plan : Text) :
    Finset FileClaim :=
  ((parsePlannedFiles u plan).image String.ofList).image (item.claimOn org)

theorem joinLines_split (before after : List Text) (line : Text) :
    ∃ tail, Text.joinLines (before ++ line :: after) =
      (before.map (· ++ ['\n'])).flatten ++ (line ++ tail) := by
  induction before with
  | nil =>
      cases after with
      | nil => exact ⟨[], by rw [List.nil_append, Text.joinLines_singleton]; simp⟩
      | cons next after =>
          exact ⟨_, Text.joinLines_cons_cons line next after⟩
  | cons first before ih =>
      obtain ⟨tail, htail⟩ := ih
      refine ⟨tail, ?_⟩
      obtain ⟨next, rest, hnext⟩ : ∃ next rest, before ++ line :: after = next :: rest := by
        cases before with
        | nil => exact ⟨line, after, rfl⟩
        | cons next before => exact ⟨next, before ++ line :: after, rfl⟩
      rw [List.cons_append, hnext, Text.joinLines_cons_cons, ← hnext, htail]
      simp

theorem getLast_textBefore {d : Declaration} {c : Char} (h : d.textBefore.getLast? = some c) :
    c = '\n' := by
  unfold Declaration.textBefore at h
  rcases List.eq_nil_or_concat d.before with hnil | ⟨before, line, hconcat⟩
  · rw [hnil] at h
    cases h
  · rw [hconcat, List.concat_eq_append, List.map_append, List.flatten_append] at h
    simp only [List.map_cons, List.map_nil, List.flatten_cons, List.flatten_nil,
      List.append_nil, ← List.append_assoc, List.getLast?_concat, Option.some.injEq] at h
    exact h.symm

/-- A declaration in an open section is reserved if its path can be captured. -/
theorem reserved_of_open {plan path : Text} {d : Declaration} (hd : d ∈ declarations u plan)
    (hpath : d.path = some path) (hreads : planPath.Reads path)
    (hopen : reservedAfter u false (Text.splitlines d.textBefore) = true) :
    path ∈ parsePlannedFiles u plan := by
  obtain ⟨mid, after, q, hlines, hbefore, hdeclares⟩ := mem_declarationsFrom hd
  obtain rfl : d.before = mid := hbefore
  rw [hpath] at hdeclares
  obtain ⟨pre, post, hline, hfront⟩ := declares_split hdeclares
  obtain ⟨tail, htail⟩ := joinLines_split d.before after d.line
  have hplan : plan = d.textBefore ++ (d.line ++ tail) := by
    have hjoined : Text.joinLines (plan.splitOn '\n') = plan := List.intercalate_splitOn '\n'
    rw [hlines] at hjoined
    exact hjoined.symm.trans htail
  have hjoin : Text.splitlines plan =
      Text.splitlines d.textBefore ++ Text.splitlines (d.line ++ tail) := by
    conv_lhs => rw [hplan]
    refine Text.splitlines_append ?_ fun c hc => ?_
    · rintro ⟨hlast, -⟩
      cases getLast_textBefore hlast
    · rw [getLast_textBefore hc]
      rfl
  obtain ⟨line, hmem, hquoted⟩ := reserved_own_line (u := u) hfront hreads (post ++ tail)
  refine mem_parsePlannedFiles.mpr ⟨line, ?_, hquoted⟩
  rw [hjoin, reservedLines_append, hopen, hline]
  refine List.mem_append_right _ ?_
  have hrest : pre ++ '\x60' :: path ++ '\x60' :: post ++ tail =
      pre ++ '\x60' :: path ++ '\x60' :: (post ++ tail) := by simp
  rw [hrest]
  exact hmem

theorem mem_parsePlannedFiles_of_reserved {plan path : Text} {d : Declaration}
    (hd : d ∈ declarations u plan) (hpath : d.path = some path) (h : d.Reserved u plan path) :
    path ∈ parsePlannedFiles u plan := by
  rcases h with ⟨hreads, hopen⟩ | hquoted
  · exact reserved_of_open hd hpath hreads hopen
  · exact mem_parsePlannedFiles.mpr hquoted

theorem publishesReserved_iff (plan : Text) : PublishesReserved u plan ↔ ScopeReserved u plan := by
  rcases parsePublicationScopeFiles_eq (u := u) plan with ⟨hempty, hbad⟩ | ⟨hall, hfiles⟩
  · refine iff_of_true (fun path hpath => ?_) (.inl hbad)
    rw [hempty] at hpath
    exact absurd hpath (Finset.notMem_empty path)
  · constructor
    · refine fun h => .inr fun d hd path hpath hdir => .inr (mem_parsePlannedFiles.mp ?_)
      exact h path ((hfiles path).mpr ⟨d, hd, hpath⟩) hdir
    · rintro (⟨d, hd, hbad⟩ | hres) path hpath hdir
      · exact absurd (hall d hd) hbad
      · obtain ⟨d, hd, hdpath⟩ := (hfiles path).mp hpath
        exact mem_parsePlannedFiles_of_reserved hd hdpath (hres d hd path hdpath hdir)

end Hephaestus.Pipeline
