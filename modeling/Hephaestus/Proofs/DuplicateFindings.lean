import Hephaestus.Automation.ReviewFindings
import Mathlib.Data.List.Dedup

/-!
# Which published findings are recognized

The publisher and the key drop the same lines of a valid finding, since what
only the publisher would drop is a reserved control and the finding has none.
What remains is to compare the texts they are left with. The key is followed
through its steps by the weight of a text, the number of characters it has in
its case-folded form without white space: the steps keep it, except for the tags
they take off. So a thread and its finding have different keys as soon as one of
them loses a tag, or has a manifest, that the other does not.
-/

namespace Hephaestus.Automation

open Hephaestus.Lib Hephaestus.Lib.Text

variable {u : Unicode}

/-! ## The weight of a text -/

/-- The characters of the case-folded text that are not white space. -/
def weight (u : Unicode) (t : Text) : Nat :=
  ((u.foldText t).filter fun c => !isSpace c).length

theorem weight_nil : weight u [] = 0 := rfl

theorem weight_append (a b : Text) : weight u (a ++ b) = weight u a + weight u b := by
  simp [weight, Unicode.foldText]

theorem weight_cons (c : Char) (t : Text) : weight u (c :: t) = weight u [c] + weight u t :=
  weight_append [c] t

theorem weight_space {c : Char} (h : isSpace c = true) : weight u [c] = 0 := by
  simp [weight, Unicode.foldText, u.casefold_space c h, h]

theorem weight_spaces {t : Text} (h : ∀ c ∈ t, isSpace c = true) : weight u t = 0 := by
  induction t with
  | nil => rfl
  | cons c t ih =>
      rw [weight_cons, weight_space (h c List.mem_cons_self),
        ih fun d hd => h d (List.mem_cons_of_mem c hd)]

/-- An ASCII text weighs as much as it has characters that are not white space. -/
theorem weight_ascii {t : Text} (h : ∀ c ∈ t, c.toNat < 128) :
    weight u t = (t.filter fun c => !isSpace c).length := by
  induction t with
  | nil => rfl
  | cons c t ih =>
      have ih := ih fun d hd => h d (List.mem_cons_of_mem c hd)
      have hc := u.casefold_ascii c (h c List.mem_cons_self)
      rw [weight_cons, ih, List.filter_cons]
      cases hspace : isSpace c with
      | true => simp [weight_space hspace]
      | false =>
          have hlower := isSpace_toLower hspace
          simp [weight, Unicode.foldText, hc, hlower]
          omega

theorem weight_lstrip (t : Text) : weight u (lstrip t) = weight u t := by
  have hsplit : t = t.takeWhile isSpace ++ lstrip t := (List.takeWhile_append_dropWhile).symm
  have hzero : weight u (t.takeWhile isSpace) = 0 :=
    weight_spaces fun c hc => List.mem_takeWhile_imp hc
  have h := congrArg (weight u) hsplit
  rw [weight_append, hzero, Nat.zero_add] at h
  exact h.symm

theorem weight_rstrip (t : Text) : weight u (rstrip t) = weight u t := by
  have hsplit : rstrip t ++ t.rtakeWhile isSpace = t := List.rdropWhile_append_rtakeWhile
  have hzero : weight u (t.rtakeWhile isSpace) = 0 :=
    weight_spaces fun c hc => List.mem_rtakeWhile_imp hc
  have h := congrArg (weight u) hsplit
  rw [weight_append, hzero, Nat.add_zero] at h
  exact h

theorem weight_strip (t : Text) : weight u (strip t) = weight u t := by
  rw [strip, weight_rstrip, weight_lstrip]

theorem weight_collapseFrom (t : Text) : ∀ inSpace, weight u (collapseFrom inSpace t) = weight u t := by
  induction t with
  | nil => intro inSpace; rfl
  | cons c t ih =>
      intro inSpace
      rw [weight_cons]
      unfold collapseFrom
      split
      · next hc =>
        rw [weight_space hc]
        split
        · rw [ih, Nat.zero_add]
        · rw [weight_cons, ih, weight_space (by decide)]
      · rw [weight_cons, ih]

theorem weight_removed {tag t : Text} (h : startsWith t tag = true) :
    weight u t = weight u tag + weight u (t.drop tag.length) := by
  obtain ⟨rest, rfl⟩ := List.isPrefixOf_iff_prefix.mp h
  rw [weight_append, List.drop_left]

theorem weight_stripTag (tag t : Text) :
    weight u (stripTag tag t) + (if startsWith t tag then weight u tag else 0) = weight u t := by
  unfold stripTag
  split
  · next h =>
    rw [weight_lstrip, weight_removed h]
    omega
  · rfl

/-- Equal keys have equal weight before they are folded. -/
theorem weight_of_keyText_eq {a b : Text} (h : keyText u a = keyText u b) :
    weight u (stripTag reopenedTag (stripTag reviewTag a))
      = weight u (stripTag reopenedTag (stripTag reviewTag b)) := by
  have hkey : ∀ t : Text,
      ((keyText u t).filter fun c => !isSpace c).length
        = weight u (stripTag reopenedTag (stripTag reviewTag t)) := by
    intro t
    rw [← weight_strip, ← weight_collapseFrom _ false]
    rfl
  rw [← hkey, ← hkey, h]

/-! ## What a valid finding cannot contain -/

theorem toNat_of_toLower_eq {c d : Char} (h : c.toLower = d) :
    c.toNat = d.toNat ∨ c.toNat + 32 = d.toNat := by
  unfold Char.toLower at h
  split at h
  · next hc =>
    right
    simp only [ge_iff_le, UInt32.le_iff_toNat_le] at hc
    obtain ⟨h65, h90⟩ : 65 ≤ c.val.toNat ∧ c.val.toNat ≤ 90 := hc
    have hval : (c.val + ('a'.val - 'A'.val)).toNat = c.val.toNat + 32 := by
      rw [UInt32.toNat_add, show ('a'.val - 'A'.val).toNat = 32 from rfl]
      omega
    rw [← h]
    exact hval.symm
  · left
    rw [h]

theorem isWord_of_sameLetter_v {c : Char} (h : Regex.sameLetter 'v' c = true) :
    Regex.isWord u c = true := by
  have hlower : c.toLower = 'v' := by
    simpa [Regex.sameLetter, show ('v' : Char).toLower = 'v' from rfl] using h
  have hcases : c = 'V' ∨ c = 'v' := by
    rcases toNat_of_toLower_eq hlower with h | h
    · right
      exact Char.toNat_inj.mp h
    · left
      have h86 : c.toNat = ('V' : Char).toNat := by
        have h118 : ('v' : Char).toNat = 118 := rfl
        have hv : ('V' : Char).toNat = 86 := rfl
        omega
      exact Char.toNat_inj.mp h86
  rcases hcases with rfl | rfl
  · rw [Regex.isWord, u.isAlnum_ascii _ (by decide)]
    rfl
  · rw [Regex.isWord, u.isAlnum_ascii _ (by decide)]
    rfl

theorem isSpace_of_isLineBreak {c : Char} (h : isLineBreak c = true) : isSpace c = true := by
  simp only [isLineBreak, Bool.or_eq_true, Bool.and_eq_true, decide_eq_true_eq, beq_iff_eq] at h
  simp only [isSpace, Bool.or_eq_true, Bool.and_eq_true, decide_eq_true_eq, beq_iff_eq]
  omega

theorem isWord_of_isSpace {c : Char} (h : isSpace c = true) : Regex.isWord u c = false := by
  have hne : c ≠ '_' := by
    rintro rfl
    exact absurd h (by decide)
  simp [Regex.isWord, u.isAlnum_space c h, hne]

theorem lastOr_append (before : Option Char) (a b : Text) :
    Regex.lastOr before (a ++ b) = Regex.lastOr (Regex.lastOr before a) b := by
  simp [Regex.lastOr]

theorem lastOr_spaces {before : Option Char} {w : Text} (hb : before.any (Regex.isWord u) = false)
    (hw : ∀ c ∈ w, isSpace c = true) : (Regex.lastOr before w).any (Regex.isWord u) = false := by
  induction w generalizing before with
  | nil => exact hb
  | cons c w ih =>
      refine ih ?_ fun d hd => hw d (List.mem_cons_of_mem c hd)
      exact isWord_of_isSpace (hw c List.mem_cons_self)

/-- A verdict line is a reserved claim wherever a line stands. -/
theorem search_of_verdictLine {body pre line post : Text} (hbody : body = pre ++ (line ++ post))
    (hpre : (Regex.lastOr none pre).any (Regex.isWord u) = false)
    (h : Regex.matchesStart u standaloneVerdictLine line = true) :
    Regex.search u reservedAuthorityClaim body = true := by
  simp only [Regex.matchesStart, Bool.not_eq_true', List.isEmpty_eq_false_iff] at h
  obtain ⟨e, he⟩ := List.exists_mem_of_ne_nil _ h
  obtain ⟨m, hm, he⟩ := Regex.mem_ends_seq.mp he
  obtain ⟨w, hw, hspaces⟩ := Regex.mem_starEnds_suffix hm
  -- The claim begins after the white space, where a word begins.
  have hbefore := lastOr_spaces hpre hspaces
  rw [← lastOr_append] at hbefore
  have hplain : Regex.Plain (.seq (.word "verdict".toList) (.seq spaces (.chars (· == ':')))) :=
    ⟨Regex.plain_word _, trivial, trivial⟩
  obtain ⟨e', he', -⟩ := Regex.ends_extend hplain post (Regex.lastOr none (pre ++ w)) he
  obtain ⟨m1, hword, hrest⟩ := Regex.mem_ends_seq.mp he'
  obtain ⟨m2, hcolonSpaces, hcolon⟩ := Regex.mem_ends_seq.mp hrest
  have hhead : ((m.2 ++ post).head?).any (Regex.isWord u) = true := by
    obtain ⟨m0, hv, -⟩ := Regex.mem_ends_seq.mp hword
    cases hm2 : m.2 ++ post with
    | nil => rw [hm2] at hv; simp [Regex.ends] at hv
    | cons c rest =>
        rw [hm2] at hv
        simp only [Regex.ends] at hv
        split at hv
        · next hc => exact isWord_of_sameLetter_v hc
        · cases hv
  rw [Regex.search_iff]
  refine ⟨pre ++ w, m.2 ++ post, ?_, ?_⟩
  · rw [hbody, hw, List.append_assoc, List.append_assoc]
  · have hboundary : Regex.atBoundary u (Regex.lastOr none (pre ++ w)) (m.2 ++ post) = true := by
      simp only [Regex.atBoundary, hbefore, hhead]
      rfl
    have hclaim : (e'.1, e'.2) ∈ Regex.ends u colonClaim (Regex.lastOr none (pre ++ w))
        (m.2 ++ post) := by
      refine Regex.mem_ends_seq.mpr ⟨(Regex.lastOr none (pre ++ w), m.2 ++ post), ?_, ?_⟩
      · simp [Regex.ends, hboundary]
      refine Regex.mem_ends_seq.mpr ⟨m1, Regex.mem_ends_alt.mpr (Or.inl hword), ?_⟩
      refine Regex.mem_ends_seq.mpr ⟨m2, hcolonSpaces, ?_⟩
      refine Regex.mem_ends_seq.mpr ⟨e', hcolon, ?_⟩
      exact Regex.mem_ends_seq.mpr ⟨e', Regex.self_mem_starEnds _ _ _,
        Regex.self_mem_starEnds _ _ _⟩
    exact List.ne_nil_of_mem (Regex.mem_ends_alt.mpr (Or.inl hclaim))

/-- What the proofs use of a valid finding. -/
structure FindingFacts (u : Unicode) (f : Finding) : Prop where
  path : strip f.path = f.path
  line : 0 < f.line
  lines : ∀ line ∈ splitlines f.body, keptForPublication u line = keptForKey line
  manifest : ∀ path ∈ f.scopeRetractionPaths, isSafeScopeRetractionPath path = true

theorem keptForPublication_eq {body : Text} {line : Text} (h : line ∈ splitlines (strip body))
    (hreserved : hasReservedFindingControl u body = false) :
    keptForPublication u line = keptForKey line := by
  simp only [hasReservedFindingControl, Bool.or_eq_false_iff] at hreserved
  obtain ⟨⟨-, hscope⟩, hclaim⟩ := hreserved
  obtain ⟨p, q, hbody, hp⟩ := strip_split body
  obtain ⟨pre, post, hline, hpre⟩ := mem_splitlines_split h
  have hsplit : body = (p ++ pre) ++ (line ++ (post ++ q)) := by
    rw [hbody, hline]
    simp only [List.append_assoc]
  have hbefore : (Regex.lastOr none (p ++ pre)).any (Regex.isWord u) = false := by
    rw [lastOr_append]
    rcases hpre with rfl | ⟨p', c, rfl, hc⟩
    · have hstart : (none : Option Char).any (Regex.isWord u) = false := rfl
      have hlast := lastOr_spaces hstart hp
      exact hlast
    · rw [lastOr_append]
      exact isWord_of_isSpace (isSpace_of_isLineBreak hc)
  have hverdict : Regex.matchesStart u standaloneVerdictLine line = false := by
    by_contra hv
    rw [Bool.not_eq_false] at hv
    rw [search_of_verdictLine hsplit hbefore hv] at hclaim
    cases hclaim
  have hmanifest : lineStarts scopeRetractionMarkerPrefix line = false := by
    by_contra hm
    rw [Bool.not_eq_false] at hm
    obtain ⟨rest, hrest⟩ := startsWith_iff.mp hm
    obtain ⟨p', q', hline', -⟩ := strip_split line
    have hcontains : contains scopeRetractionMarkerPrefix body = true := by
      refine contains_of_split (a := p ++ pre ++ p') (b := rest ++ (q' ++ (post ++ q))) ?_
      rw [hsplit]
      nth_rewrite 1 [hline']
      rw [hrest]
      simp only [List.append_assoc]
    rw [hcontains] at hscope
    cases hscope
  simp only [keptForPublication, keptForKey, hverdict, hmanifest, Bool.not_false, Bool.and_true]

theorem safe_of_normalize {value : Option Json} {paths : List Text}
    (h : normalizeScopeRetractionPaths value = some paths) :
    ∀ path ∈ paths, isSafeScopeRetractionPath path = true := by
  unfold normalizeScopeRetractionPaths at h
  split at h
  · split at h
    · cases h
    split at h
    · cases h
    · next texts _ =>
      simp only at h
      split at h
      · next hall =>
        cases h
        intro path hpath
        rw [List.mem_mergeSort, List.mem_dedup] at hpath
        exact List.all_eq_true.mp hall path hpath
      · cases h
  · cases h

theorem ValidFinding.facts {f : Finding} (h : ValidFinding u f) : FindingFacts u f := by
  obtain ⟨comment, h⟩ := h
  unfold normalizeFinding at h
  split at h
  · next path line side severity body _ _ _ _ _ =>
    simp only at h
    split at h
    · cases h
    next hchecks =>
    simp only [not_or] at hchecks
    obtain ⟨-, hline, -, -, -, hreserved⟩ := hchecks
    rw [Bool.not_eq_true] at hreserved
    have hlines : ∀ l ∈ splitlines (strip body.toList), keptForPublication u l = keptForKey l :=
      fun l hl => keptForPublication_eq hl hreserved
    split at h
    · split at h
      · cases h
      · next paths hpaths =>
        cases h
        exact ⟨strip_strip _, by simp only; omega, hlines, safe_of_normalize hpaths⟩
    · split at h
      · cases h
        exact ⟨strip_strip _, by simp only; omega, hlines, by simp⟩
      · cases h
        exact ⟨strip_strip _, by simp only; omega, hlines, by simp⟩
      · cases h
  · cases h

/-! ## The published body -/

theorem noBreak_of_printable {t : Text} (h : ∀ c ∈ t, JsonText.isPrintable c = true) :
    NoBreak t := by
  intro c hc
  have hp := h c hc
  simp only [JsonText.isPrintable, Bool.and_eq_true, decide_eq_true_eq] at hp
  simp only [isLineBreak, Bool.or_eq_false_iff, Bool.and_eq_false_iff, decide_eq_false_iff_not,
    beq_eq_false_iff_ne]
  omega

theorem noBreak_scopeRetractionMarker (paths : List Text) :
    NoBreak (scopeRetractionMarker paths) := by
  refine noBreak_of_printable fun c hc => ?_
  simp only [scopeRetractionMarker, List.mem_append, List.mem_cons] at hc
  rcases hc with hc | rfl | hc | hc
  · revert c
    exact Text.forall_mem_of_all (by decide)
  · rfl
  · exact JsonText.isPrintable_of_mem_dumpsStrs hc
  · revert c
    exact Text.forall_mem_of_all (by decide)

/-- The manifest weighs more than the tag of a reopened finding. -/
theorem weight_scopeRetractionMarker (paths : List Text) :
    weight u reopenedTag < weight u (scopeRetractionMarker paths) := by
  have htag : weight u reopenedTag = 38 := by
    rw [weight_ascii (Text.forall_mem_of_all (by decide))]
    decide
  have hlead0 : weight u scopeRetractionMarkerPrefix = 38 := by
    rw [weight_ascii (Text.forall_mem_of_all (by decide))]
    decide
  have hclose : weight u " -->".toList = 3 := by
    rw [weight_ascii (Text.forall_mem_of_all (by decide))]
    decide
  rw [scopeRetractionMarker, weight_append, weight_cons, weight_append, htag, hlead0, hclose]
  omega

theorem publishedSeverity_mem (severity : Option Json) :
    publishedSeverity u severity ∈ validSeverities := by
  unfold publishedSeverity
  split
  · simp only
    split
    · assumption
    · decide
  · decide

theorem noBreak_severityLine {severity : Text} (h : severity ∈ validSeverities) :
    NoBreak (severityLine severity) ∧ severityLine severity ≠ []
      ∧ keptForKey (severityLine severity) = false := by
  simp only [validSeverities, List.mem_cons, List.not_mem_nil, or_false] at h
  rcases h with rfl | rfl | rfl | rfl
  all_goals exact ⟨Text.forall_mem_of_all (by decide), by decide, by decide⟩

theorem keptForKey_scopeRetractionMarker (paths : List Text) :
    keptForKey (scopeRetractionMarker paths) = true := by
  have hneg : startsWith (strip (scopeRetractionMarker paths)) severityMarkerPrefix = false :=
    startsWith_strip_append (by decide) (by decide) (by decide) (by decide) _
  simp only [keptForKey, lineStarts, hneg, Bool.not_false]

/-- A text with the role of its author in front, once. -/
def tagged (body : Text) : Text :=
  if startsWith body reviewPrefix then body else reviewPrefix ++ body

theorem tagged_eq (body : Text) : reviewPrefix ++ removePrefix reviewPrefix body = tagged body := by
  unfold tagged
  split
  · next h =>
    obtain ⟨rest, rfl⟩ := startsWith_iff.mp h
    rw [removePrefix_append]
  · next h =>
    rw [removePrefix_of_not (by rw [Bool.not_eq_true] at h; exact h)]

/-- The lines of a tagged text are lines that the key keeps. -/
theorem tagged_lines {lines : List Text} (hb : ∀ l ∈ lines, NoBreak l)
    (hk : ∀ l ∈ lines, keptForKey l = true) :
    ∃ lines' : List Text, lines' ≠ [] ∧ (∀ l ∈ lines', NoBreak l)
      ∧ (∀ l ∈ lines', keptForKey l = true) ∧ joinLines lines' = tagged (joinLines lines) := by
  have htagged : ∀ l : Text, NoBreak l → NoBreak (reviewPrefix ++ l)
      ∧ keptForKey (reviewPrefix ++ l) = true := by
    intro l hl
    refine ⟨NoBreak.append (Text.forall_mem_of_all (by decide)) hl, ?_⟩
    have hneg : startsWith (strip (reviewPrefix ++ l)) severityMarkerPrefix = false :=
      startsWith_strip_append (by decide) (by decide) (by decide) (by decide) l
    simp only [keptForKey, lineStarts, hneg, Bool.not_false]
  unfold tagged
  split
  · next h =>
    refine ⟨lines, ?_, hb, hk, rfl⟩
    rintro rfl
    exact absurd h (by decide)
  · cases lines with
    | nil =>
        have hempty := htagged [] (fun c hc => absurd hc List.not_mem_nil)
        exact ⟨[reviewPrefix], List.cons_ne_nil _ _, by simpa using hempty.1,
          by simpa using hempty.2, by rw [joinLines_singleton, joinLines_nil, List.append_nil]⟩
    | cons line lines =>
        have hfirst := htagged line (hb line List.mem_cons_self)
        refine ⟨(reviewPrefix ++ line) :: lines, List.cons_ne_nil _ _, ?_, ?_, ?_⟩
        · intro l hl
          rcases List.mem_cons.mp hl with rfl | hl
          · exact hfirst.1
          · exact hb l (List.mem_cons_of_mem line hl)
        · intro l hl
          rcases List.mem_cons.mp hl with rfl | hl
          · exact hfirst.2
          · exact hk l (List.mem_cons_of_mem line hl)
        · cases lines with
          | nil => rw [joinLines_singleton, joinLines_singleton]
          | cons line' lines =>
              rw [joinLines_cons_cons, joinLines_cons_cons, List.append_assoc]

/-- Unmarking what was joined from kept lines and a severity line leaves the
kept lines and what follows them. -/
theorem unmarkedBody_join {lines : List Text} {severity : Text} {more : List Text}
    (hne : lines ≠ []) (hb : ∀ l ∈ lines, NoBreak l) (hk : ∀ l ∈ lines, keptForKey l = true)
    (hs : severity ∈ validSeverities)
    (hm : ∀ l ∈ more, NoBreak l ∧ l ≠ [] ∧ keptForKey l = true) :
    unmarkedBody (joinLines (lines ++ severityLine severity :: more))
      = joinLines (lines ++ more) := by
  obtain ⟨hsb, hsne, hsk⟩ := noBreak_severityLine hs
  have htail : splitlines (joinLines (severityLine severity :: more))
      = severityLine severity :: more := by
    refine splitlines_joinLines fun l hl => ?_
    rcases List.mem_cons.mp hl with rfl | hl
    · exact ⟨hsb, hsne⟩
    · exact ⟨(hm l hl).1, (hm l hl).2.1⟩
  rw [unmarkedBody, joinLines_append_cons hne, splitlines_joinLines_newline hne hb, htail,
    List.filter_append, List.filter_cons_of_neg (by rw [hsk]; exact Bool.false_ne_true),
    List.filter_eq_self.mpr hk, List.filter_eq_self.mpr fun l hl => (hm l hl).2.2]

/-- The line of a manifest, when the finding has one. -/
def manifestLines (paths : List Text) : List Text :=
  match normalizeScopeRetractionPaths
      (if paths.isEmpty then none else some (.arr (paths.map jsonText))) with
  | some paths => [scopeRetractionMarker paths]
  | none => []

theorem get?_asDict (f : Finding) :
    f.asDict.get? "path" = some (jsonText f.path) ∧ f.asDict.get? "line" = some (.int f.line)
      ∧ f.asDict.get? "side" = some (.str "RIGHT")
      ∧ f.asDict.get? "severity" = some (jsonText f.severity)
      ∧ f.asDict.get? "body" = some (jsonText f.body)
      ∧ f.asDict.get? "scope_retraction_paths"
        = (if f.scopeRetractionPaths.isEmpty then none
            else some (.arr (f.scopeRetractionPaths.map jsonText)))
      ∧ f.asDict.get? "prior_thread_id" = none := by
  unfold Finding.asDict
  split <;> exact ⟨rfl, rfl, rfl, rfl, rfl, rfl, rfl⟩

/-- The published body without its markers: the tagged text and the manifest. -/
theorem unmarkedBody_posted {f : Finding} (hf : FindingFacts u f) :
    ∃ lines : List Text, lines ≠ [] ∧ joinLines lines = tagged (unmarkedBody f.body)
      ∧ unmarkedBody (withSeverityMarker u f.asDict)
        = joinLines (lines ++ manifestLines f.scopeRetractionPaths) := by
  obtain ⟨-, -, -, hseverity, hbody, hpaths, -⟩ := get?_asDict f
  have hkept : (splitlines f.body).filter (keptForPublication u)
      = (splitlines f.body).filter keptForKey :=
    List.filter_congr fun l hl => hf.lines l hl
  have hlines : ∀ l ∈ (splitlines f.body).filter keptForKey, NoBreak l :=
    fun l hl => noBreak_of_mem_splitlines (List.mem_of_mem_filter hl)
  have hkeeps : ∀ l ∈ (splitlines f.body).filter keptForKey, keptForKey l = true :=
    fun l hl => (List.mem_filter.mp hl).2
  obtain ⟨lines, hne, hb, hk, hjoin⟩ := tagged_lines hlines hkeeps
  refine ⟨lines, hne, hjoin, ?_⟩
  have hposted : withSeverityMarker u f.asDict
      = joinLines (lines ++ severityLine (publishedSeverity u (some (jsonText f.severity)))
          :: manifestLines f.scopeRetractionPaths) := by
    rw [joinLines_append_cons hne, hjoin, ← joinLines_cons_cons, ← tagged_eq]
    simp only [withSeverityMarker, hbody, hseverity, hpaths, jsonText, String.toList_ofList, hkept,
      manifestLines] <;> rfl
  rw [hposted]
  refine unmarkedBody_join hne hb hk (publishedSeverity_mem _) fun l hl => ?_
  unfold manifestLines at hl
  split at hl
  · rw [List.mem_singleton.mp hl]
    exact ⟨noBreak_scopeRetractionMarker _, List.cons_ne_nil _ _,
      keptForKey_scopeRetractionMarker _⟩
  · cases hl

/-! ## Comparing the keys -/

/-- The key takes off a finding's text what it takes off the published one: the
tag is followed by a space, and white space does not hide a reopening. -/
def Recognizable (body : Text) : Prop :=
  (startsWith body reviewTag = true → startsWith body reviewPrefix = true)
    ∧ (startsWith (lstrip body) reopenedTag = true → lstrip body = body)

theorem weight_reviewTag : weight u reviewTag = 8 ∧ weight u reviewPrefix = 8 := by
  constructor
  · rw [weight_ascii (Text.forall_mem_of_all (by decide))]
    decide
  · rw [weight_ascii (Text.forall_mem_of_all (by decide))]
    decide

theorem weight_reopenedTag : weight u reopenedTag = 38 := by
  rw [weight_ascii (Text.forall_mem_of_all (by decide))]
  decide

theorem stripTag_of_startsWith {tag t : Text} (h : startsWith t tag = true) :
    stripTag tag t = lstrip (t.drop tag.length) := by
  simp [stripTag, h]

theorem stripTag_of_not {tag t : Text} (h : startsWith t tag = false) : stripTag tag t = t := by
  simp [stripTag, h]

/-- A text that starts with a tag does not start with white space. -/
theorem lstrip_of_startsWith {start t : Text} (hl : lstrip start = start) (hne : start ≠ [])
    (h : startsWith t start = true) : lstrip t = t := by
  obtain ⟨rest, rfl⟩ := startsWith_iff.mp h
  exact lstrip_append hl hne rest

theorem stripTag_reviewPrefix (body : Text) :
    stripTag reviewTag (reviewPrefix ++ body) = lstrip body := by
  have hstarts : startsWith (reviewPrefix ++ body) reviewTag = true :=
    startsWith_iff.mpr ⟨' ' :: body, rfl⟩
  rw [stripTag_of_startsWith hstarts]
  show lstrip (' ' :: body) = lstrip body
  rw [lstrip, List.dropWhile_cons_of_pos (by decide)]
  rfl

theorem startsWith_tagged (body more : Text) :
    startsWith (tagged body ++ more) reviewTag = true := by
  unfold tagged
  split
  · next h =>
    obtain ⟨rest, rfl⟩ := startsWith_iff.mp h
    exact startsWith_iff.mpr ⟨' ' :: (rest ++ more), by rfl⟩
  · exact startsWith_iff.mpr ⟨' ' :: (body ++ more), by rfl⟩

/-- With no manifest, the keys agree exactly on a recognizable text. -/
theorem keyText_tagged_iff (body : Text) :
    keyText u (tagged body) = keyText u body ↔ Recognizable body := by
  cases hlead0 : startsWith body reviewPrefix with
  | true =>
      have hlead : lstrip body = body := lstrip_of_startsWith (by decide) (by decide) hlead0
      simp only [tagged, hlead0, if_true, Recognizable, implies_true, hlead, and_self]
  | false =>
      have htagged : tagged body = reviewPrefix ++ body := by simp [tagged, hlead0]
      rw [htagged]
      cases htag : startsWith body reviewTag with
      | true =>
          -- The published text keeps the tag, the finding's own loses it.
          have hlead : lstrip body = body := lstrip_of_startsWith (by decide) (by decide) htag
          have hnot : ¬ Recognizable body := by
            intro h
            have hp := h.1 htag
            rw [hlead0] at hp
            cases hp
          refine iff_of_false (fun h => ?_) hnot
          have hw := weight_of_keyText_eq h
          rw [stripTag_reviewPrefix, hlead] at hw
          have hreopened : startsWith body reopenedTag = false := by
            obtain ⟨rest, rfl⟩ := startsWith_iff.mp htag
            rfl
          rw [stripTag_of_not hreopened] at hw
          have h1 := weight_stripTag (u := u) reviewTag body
          have h2 := weight_stripTag (u := u) reopenedTag (stripTag reviewTag body)
          rw [if_pos htag, weight_reviewTag.1] at h1
          omega
      | false =>
          have hkeep : stripTag reviewTag body = body := stripTag_of_not htag
          by_cases hlead : lstrip body = body
          · refine iff_of_true ?_ ⟨fun h => ?_, fun _ => hlead⟩
            · rw [keyText, keyText, stripTag_reviewPrefix, hlead, hkeep]
            · rw [htag] at h
              cases h
          · have hnone : startsWith body reopenedTag = false := by
              by_contra h
              rw [Bool.not_eq_false] at h
              exact hlead (lstrip_of_startsWith (by decide) (by decide) h)
            cases hreopened : startsWith (lstrip body) reopenedTag with
            | true =>
                -- Only the published text loses the reopening.
                refine iff_of_false (fun h => ?_) fun h => hlead (h.2 hreopened)
                have hw := weight_of_keyText_eq h
                rw [stripTag_reviewPrefix, hkeep, stripTag_of_not hnone] at hw
                have h1 := weight_stripTag (u := u) reopenedTag (lstrip body)
                rw [if_pos hreopened, weight_reopenedTag, weight_lstrip] at h1
                omega
            | false =>
                refine iff_of_true ?_ ⟨fun h => ?_, fun h => ?_⟩
                · rw [keyText, keyText, stripTag_reviewPrefix, hkeep, stripTag_of_not hreopened,
                    stripTag_of_not hnone, strip_lstrip]
                · rw [htag] at h
                  cases h
                · rw [hreopened] at h
                  cases h

/-- With a manifest they never agree: it outweighs everything a tag can take off. -/
theorem keyText_manifest_ne (body : Text) (paths : List Text) :
    keyText u (tagged body ++ '\n' :: scopeRetractionMarker paths) ≠ keyText u body := by
  intro h
  have hw := weight_of_keyText_eq h
  have hheavy := weight_scopeRetractionMarker (u := u) paths
  have h1 := weight_stripTag (u := u) reviewTag (tagged body ++ '\n' :: scopeRetractionMarker paths)
  have h2 := weight_stripTag (u := u) reopenedTag
    (stripTag reviewTag (tagged body ++ '\n' :: scopeRetractionMarker paths))
  have h3 := weight_stripTag (u := u) reviewTag body
  have h4 := weight_stripTag (u := u) reopenedTag (stripTag reviewTag body)
  rw [if_pos (startsWith_tagged body _), weight_append, weight_cons,
    weight_space (by decide)] at h1
  have hreview := weight_reviewTag (u := u)
  have hif : (if startsWith (stripTag reviewTag
      (tagged body ++ '\n' :: scopeRetractionMarker paths)) reopenedTag = true
      then weight u reopenedTag else 0) ≤ weight u reopenedTag := by
    split <;> omega
  cases hlead0 : startsWith body reviewPrefix with
  | true =>
      have htag : startsWith body reviewTag = true := by
        obtain ⟨rest, rfl⟩ := startsWith_iff.mp hlead0
        exact startsWith_iff.mpr ⟨' ' :: rest, rfl⟩
      have htagged : weight u (tagged body) = weight u body := by simp [tagged, hlead0]
      rw [if_pos htag] at h3
      omega
  | false =>
      have htagged : weight u (tagged body) = weight u reviewPrefix + weight u body := by
        simp only [tagged, hlead0, Bool.false_eq_true, if_false, weight_append]
      omega

/-! ## Recognition -/

/-- A live thread with the finding's place and its published body. -/
structure PostedAs (u : Unicode) (f : Finding) (thread : Json) : Prop where
  path : thread.get? "path" = some (jsonText f.path)
  line : thread.get? "line" = some (.int f.line)
  side : thread.get? "side" = some (.str "RIGHT")
  body : thread.get? "body" = some (jsonText (withSeverityMarker u f.asDict))

theorem findingKey_asDict {f : Finding} (hf : FindingFacts u f) :
    findingKey u f.asDict = some
      { path := f.path, line := f.line, side := u.upper (strip "RIGHT".toList)
        body := keyText u (unmarkedBody f.body) } := by
  obtain ⟨hpath, hline, hside, -, hbody, -, -⟩ := get?_asDict f
  have hpos : ¬ f.line ≤ 0 := by
    have := hf.line
    omega
  simp only [findingKey, hpath, hline, hside, hbody, jsonText, String.toList_ofList, hf.path, hpos,
    if_false]

theorem findingKey_posted {f : Finding} (hf : FindingFacts u f) {thread : Json}
    (ht : PostedAs u f thread) :
    findingKey u thread = some
      { path := f.path, line := f.line, side := u.upper (strip "RIGHT".toList)
        body := keyText u (unmarkedBody (withSeverityMarker u f.asDict)) } := by
  have hpos : ¬ f.line ≤ 0 := by
    have := hf.line
    omega
  simp only [findingKey, ht.path, ht.line, ht.side, ht.body, jsonText, String.toList_ofList,
    hf.path, hpos, if_false]

theorem manifestLines_nil : manifestLines [] = [] := rfl

/-- Safe paths are a manifest. -/
theorem manifestLines_cons {paths : List Text} (hne : paths ≠ [])
    (hsafe : ∀ path ∈ paths, isSafeScopeRetractionPath path = true) :
    ∃ paths', manifestLines paths = [scopeRetractionMarker paths'] := by
  have hmap : (paths.map jsonText).mapM Json.asStr? = some (paths.map String.ofList) := by
    clear hne hsafe
    induction paths with
    | nil => rfl
    | cons path paths ih =>
        rw [List.map_cons, List.mapM_cons, ih]
        rfl
  have hback : (paths.map String.ofList).map String.toList = paths := by
    rw [List.map_map]
    simp [Function.comp_def]
  have hall : paths.all isSafeScopeRetractionPath = true := List.all_eq_true.mpr hsafe
  have hempty : paths.isEmpty = false := List.isEmpty_eq_false_iff.mpr hne
  have hempty' : (paths.map jsonText).isEmpty = false := by
    rw [List.isEmpty_eq_false_iff]
    simpa using hne
  refine ⟨paths.dedup.mergeSort textLe, ?_⟩
  simp only [manifestLines, hempty, Bool.false_eq_true, if_false, normalizeScopeRetractionPaths,
    hempty', hmap, hback, hall, if_true]

/-- The keys of a valid finding and its thread. -/
theorem findingKey_posted_iff {f : Finding} (hf : FindingFacts u f) {thread : Json}
    (ht : PostedAs u f thread) :
    findingKey u thread = findingKey u f.asDict ↔
      f.scopeRetractionPaths = [] ∧ Recognizable (unmarkedBody f.body) := by
  obtain ⟨lines, hne, hjoin, hposted⟩ := unmarkedBody_posted hf
  rw [findingKey_posted hf ht, findingKey_asDict hf, hposted]
  simp only [Option.some.injEq, FindingKey.mk.injEq, true_and]
  by_cases hpaths : f.scopeRetractionPaths = []
  · rw [hpaths, manifestLines_nil, List.append_nil, hjoin, keyText_tagged_iff]
    simp
  · obtain ⟨paths, hmanifest⟩ := manifestLines_cons hpaths hf.manifest
    rw [hmanifest, joinLines_append_cons hne, hjoin, joinLines_singleton]
    exact iff_of_false (keyText_manifest_ne _ _) fun h => hpaths h.1

/-! ## What is retained -/

theorem key_of_mem_retainNew {live : Dict String Json} {findings : List Json} :
    ∀ {existing : List FindingKey} {g : Json}, g ∈ retainNew u live existing findings →
      ∀ key, findingKey u g = some key → key ∉ existing := by
  induction findings with
  | nil =>
      intro existing g h
      cases h
  | cons finding rest ih =>
      intro existing g h key hkey
      unfold retainNew at h
      split at h
      · exact ih h key hkey
      split at h
      · next key' hfinding =>
        split at h
        · exact ih h key hkey
        next hnew =>
        rcases List.mem_cons.mp h with rfl | h
        · rw [hfinding] at hkey
          cases hkey
          exact hnew
        · intro hmem
          exact ih h key hkey (List.mem_cons_of_mem key' hmem)
      · next hfinding =>
        rcases List.mem_cons.mp h with rfl | h
        · rw [hfinding] at hkey
          cases hkey
        · exact ih h key hkey

/-- A finding that answers no live thread by its identifier and whose key is new
is kept in its place. -/
theorem retainNew_keeps {live : Dict String Json} {g : Json} {key : FindingKey} {post : List Json}
    (hprior : g.get? "prior_thread_id" = none) (hkey : findingKey u g = some key) {pre : List Json} :
    ∀ {existing : List FindingKey}, key ∉ existing →
      (∀ h ∈ pre, findingKey u h ≠ some key) →
      ∃ kept, retainNew u live existing (pre ++ g :: post)
        = retainNew u live existing pre ++ g :: kept := by
  induction pre with
  | nil =>
      intro existing hnew _
      refine ⟨retainNew u live (key :: existing) post, ?_⟩
      simp [retainNew, answersLiveThread, hprior, hkey, hnew]
  | cons finding pre ih =>
      intro existing hnew hpre
      have hrest : ∀ h ∈ pre, findingKey u h ≠ some key :=
        fun h hh => hpre h (List.mem_cons_of_mem finding hh)
      have hfirst : findingKey u finding ≠ some key := hpre finding List.mem_cons_self
      rw [List.cons_append]
      unfold retainNew
      split
      · exact ih hnew hrest
      split
      · next key' hfinding =>
        split
        · exact ih hnew hrest
        · have hne : key ≠ key' := by
            rintro rfl
            exact hfirst hfinding
          have hnew' : key ∉ key' :: existing := by
            rw [List.mem_cons, not_or]
            exact ⟨hne, hnew⟩
          obtain ⟨kept, hkept⟩ := ih hnew' hrest
          exact ⟨kept, by rw [hkept]; rfl⟩
      · obtain ⟨kept, hkept⟩ := ih hnew hrest
        exact ⟨kept, by rw [hkept]; rfl⟩

theorem mem_retainNew_cons {live : Dict String Json} {existing : List FindingKey} {g : Json}
    {key : FindingKey} {rest : List Json} (hprior : g.get? "prior_thread_id" = none)
    (hkey : findingKey u g = some key) (hnew : key ∉ existing) :
    g ∈ retainNew u live existing (g :: rest) := by
  simp [retainNew, answersLiveThread, hprior, hkey, hnew]

/-- The keys the live threads have. -/
def liveKeys (u : Unicode) (live : Dict String Json) : List FindingKey :=
  live.filterMap fun thread => findingKey u thread.2

/-- The thread a finding was published as. -/
def postedThread (u : Unicode) (f : Finding) : Json :=
  .obj [("path", jsonText f.path), ("line", .int f.line), ("side", .str "RIGHT"),
    ("body", jsonText (withSeverityMarker u f.asDict))]

theorem postedThread_postedAs (f : Finding) : PostedAs u f (postedThread u f) :=
  ⟨rfl, rfl, rfl, rfl⟩

/-- A finding whose key does not come back from its thread is published again beside it. -/
theorem published_again {u : Unicode} {f : Finding} (hvalid : ValidFinding u f)
    (hcond : ¬ (f.scopeRetractionPaths = [] ∧ Recognizable (unmarkedBody f.body))) (id : String) :
    f.asDict ∈ withoutDuplicateLiveFindings u ([f].map Finding.asDict) [(id, postedThread u f)] := by
  have hf := hvalid.facts
  have hkey := findingKey_asDict hf
  have hnew : ∀ key, findingKey u f.asDict = some key →
      key ∉ liveKeys u [(id, postedThread u f)] := by
    intro key hk hmem
    obtain ⟨thread, ht, hkt⟩ := List.mem_filterMap.mp hmem
    rw [List.mem_singleton.mp ht] at hkt
    exact hcond ((findingKey_posted_iff hf (postedThread_postedAs f)).mp (hkt.trans hk.symm))
  exact mem_retainNew_cons (get?_asDict f).2.2.2.2.2.2 hkey (hnew _ hkey)

/-- A valid finding is never retained beside the thread it was published as if
and only if it carries no manifest and its text is recognizable; and a finding
with a new key is always retained. -/
theorem published_findings_recognized (u : Unicode) :
    (∀ f, ValidFinding u f →
      ((∀ (findings : List Finding) (live : Dict String Json) (id : String) (thread : Json),
          (∀ g ∈ findings, ValidFinding u g) → f ∈ findings → (id, thread) ∈ live →
          PostedAs u f thread →
          f.asDict ∉ withoutDuplicateLiveFindings u (findings.map Finding.asDict) live)
        ↔ f.scopeRetractionPaths = [] ∧ Recognizable (unmarkedBody f.body)))
    ∧ ∀ (pre : List Finding) (g : Finding) (post : List Finding) (live : Dict String Json),
        (∀ h ∈ pre ++ g :: post, ValidFinding u h) →
        (∀ thread ∈ live, findingKey u thread.2 ≠ findingKey u g.asDict) →
        (∀ h ∈ pre, findingKey u h.asDict ≠ findingKey u g.asDict) →
        ∃ kept, withoutDuplicateLiveFindings u ((pre ++ g :: post).map Finding.asDict) live
          = withoutDuplicateLiveFindings u (pre.map Finding.asDict) live ++ g.asDict :: kept := by
  constructor
  · intro f hvalid
    have hf := hvalid.facts
    have hthread := postedThread_postedAs (u := u) f
    constructor
    · intro h
      by_contra hcond
      refine h [f] [("thread", postedThread u f)] "thread" _ ?_ List.mem_cons_self
        List.mem_cons_self hthread (published_again hvalid hcond "thread")
      intro g hg
      rw [List.mem_singleton.mp hg]
      exact hvalid
    · intro hcond findings live id thread _ _ hlive ht hmem
      have hkey := (findingKey_posted_iff hf ht).mpr hcond
      rw [findingKey_asDict hf] at hkey
      refine key_of_mem_retainNew hmem _ (findingKey_asDict hf) ?_
      exact List.mem_filterMap.mpr ⟨(id, thread), hlive, hkey⟩
  · intro pre g post live hvalid hlive hpre
    have hg := (hvalid g (List.mem_append_right _ List.mem_cons_self)).facts
    have hkey := findingKey_asDict hg
    have hnew : ∀ key, findingKey u g.asDict = some key → key ∉ liveKeys u live := by
      intro key hk hmem
      obtain ⟨thread, ht, hkt⟩ := List.mem_filterMap.mp hmem
      exact hlive thread ht (hkt.trans hk.symm)
    rw [List.map_append, List.map_cons]
    refine retainNew_keeps (get?_asDict g).2.2.2.2.2.2 hkey (hnew _ hkey) fun h hh => ?_
    obtain ⟨f, hf, rfl⟩ := List.mem_map.mp hh
    rw [← hkey]
    exact hpre f hf

/-- A comment as a reviewer writes it. -/
def minorComment (body : String) : Json :=
  .obj [("path", .str "a.py"), ("line", .int 1), ("side", .str "RIGHT"),
    ("severity", .str "minor"), ("body", .str body)]

/-- The finding of such a comment. -/
def minorFinding (body : Text) : Finding :=
  { path := "a.py".toList, line := 1, severity := "minor".toList, body := body
    scopeRetractionPaths := [] }

/-- An ordinary finding is recognized. -/
theorem published_findings_recognized_plain :
    (minorFinding "Add a test.".toList).asDict ∉ withoutDuplicateLiveFindings asciiTables
      ([minorFinding "Add a test.".toList].map Finding.asDict)
      [("T1", postedThread asciiTables (minorFinding "Add a test.".toList))] := by
  have hvalid : ValidFinding asciiTables (minorFinding "Add a test.".toList) :=
    ⟨minorComment "Add a test.", by decide⟩
  refine ((published_findings_recognized asciiTables).1 _ hvalid).mpr ⟨rfl, ?_⟩
    [minorFinding "Add a test.".toList] _ "T1" _ ?_ List.mem_cons_self List.mem_cons_self
    (postedThread_postedAs _)
  · exact ⟨by decide, by decide⟩
  · intro g hg
    rw [List.mem_singleton.mp hg]
    exact hvalid

/-- A finding whose text begins with the tag and no space is published again
beside its own thread, and so is every finding with a manifest. -/
theorem published_findings_repeated :
    (∃ f, normalizeFinding asciiTables (minorComment "[Review]Add a test.") = some f
      ∧ PostedAs asciiTables f (postedThread asciiTables f)
      ∧ f.asDict ∈ withoutDuplicateLiveFindings asciiTables ([f].map Finding.asDict)
          [("T1", postedThread asciiTables f)])
    ∧ ∃ f, normalizeFinding asciiTables (.obj [("path", .str "a.py"), ("line", .int 1),
          ("side", .str "RIGHT"), ("severity", .str "minor"),
          ("body", .str "Drop the unrelated change."),
          ("scope_retraction_paths", .arr [.str "a.py"])]) = some f
      ∧ PostedAs asciiTables f (postedThread asciiTables f)
      ∧ f.asDict ∈ withoutDuplicateLiveFindings asciiTables ([f].map Finding.asDict)
          [("T1", postedThread asciiTables f)] := by
  constructor
  · have hnormal : normalizeFinding asciiTables (minorComment "[Review]Add a test.")
        = some (minorFinding "[Review]Add a test.".toList) := by
      decide
    refine ⟨_, hnormal, postedThread_postedAs _, published_again ⟨_, hnormal⟩ ?_ "T1"⟩
    rintro ⟨-, hreview, -⟩
    have hprefix := hreview (by decide)
    exact absurd hprefix (by decide)
  · have hnormal : normalizeFinding asciiTables (.obj [("path", .str "a.py"), ("line", .int 1),
          ("side", .str "RIGHT"), ("severity", .str "minor"),
          ("body", .str "Drop the unrelated change."),
          ("scope_retraction_paths", .arr [.str "a.py"])])
        = some { path := "a.py".toList, line := 1, severity := "major".toList
                 body := "Drop the unrelated change.".toList
                 scopeRetractionPaths := ["a.py".toList] } := by
      decide +kernel
    refine ⟨_, hnormal, postedThread_postedAs _, published_again ⟨_, hnormal⟩ ?_ "T1"⟩
    exact fun h => absurd h.1 (List.cons_ne_nil _ _)

end Hephaestus.Automation
