import Mathlib.Data.List.DropRight
import Hephaestus.Lib.Double

/-!
# The Prometheus text format

The text of metric families, line by line: comments that give the help text and the type
of a family, and samples with their labels. Blanks and tabs separate what is on a line and
count for nothing at its ends; a backslash escapes in a help text and in a label value. A
family is read once, its lines together, its type before its samples.
-/

namespace Hephaestus.Lib.Exposition

structure Sample where
  labels : List (Text × Text)
  value : Double
  deriving DecidableEq

structure Family where
  name : Text
  help : Option Text := none
  kind : Option Text := none
  samples : List Sample := []
  deriving DecidableEq

/-! ## Names -/

def isNameStart (c : Char) : Bool := c.isAlpha || c = '_'

def isNameChar (c : Char) : Bool := c.isAlphanum || c = '_'

/-- `[A-Za-z_][A-Za-z0-9_]*`. -/
def isLabelName (t : Text) : Bool := t.head?.any isNameStart && t.all isNameChar

/-- `[A-Za-z_:][A-Za-z0-9_:]*`. -/
def isMetricName (t : Text) : Bool :=
  t.head?.any (fun c => isNameStart c || c = ':') && t.all fun c => isNameChar c || c = ':'

/-! ## Lines -/

def isBlank (c : Char) : Bool := c = ' ' || c = '\t'

def skipBlanks (t : Text) : Text := t.dropWhile isBlank

/-- What is on a line, without what separates it from the ends. -/
def trim (t : Text) : Text := skipBlanks (t.rdropWhile isBlank)

/-- A help text that was escaped. -/
def unescapeHelp : Text → Text
  | '\x5c' :: '\x5c' :: t => '\x5c' :: unescapeHelp t
  | '\x5c' :: 'n' :: t => '\n' :: unescapeHelp t
  | c :: t => c :: unescapeHelp t
  | [] => []

/-- A label value after its opening quote, with what follows the closing one. -/
def readLabelValue : Text → Option (Text × Text)
  | [] => none
  | '"' :: rest => some ([], rest)
  | '\x5c' :: '\x5c' :: t => (readLabelValue t).map fun r => ('\x5c' :: r.1, r.2)
  | '\x5c' :: 'n' :: t => (readLabelValue t).map fun r => ('\n' :: r.1, r.2)
  | '\x5c' :: '"' :: t => (readLabelValue t).map fun r => ('"' :: r.1, r.2)
  | c :: t => if c = '\x5c' then none else (readLabelValue t).map fun r => (c :: r.1, r.2)

/-- What follows a character that has to come next. -/
def expect (c : Char) (t : Text) : Option Text :=
  if (skipBlanks t).head? = some c then some ((skipBlanks t).drop 1) else none

/-- A name and its value. -/
def readLabel (t : Text) : Option ((Text × Text) × Text) := do
  let name := (skipBlanks t).takeWhile isNameChar
  let rest ← expect '=' ((skipBlanks t).drop name.length)
  let rest ← expect '"' rest
  let (value, rest) ← readLabelValue rest
  if isLabelName name then some ((name, value), rest) else none

/-- The labels after the opening brace, at most so many. -/
@[grind =] def readLabels : Nat → Text → Option (List (Text × Text) × Text)
  | 0, t => (expect '\x7d' t).map fun rest => ([], rest)
  | bound + 1, t => do
      if (skipBlanks t).head? = some '\x7d' then some ([], (skipBlanks t).drop 1)
      else do
        let (label, rest) ← readLabel t
        if (skipBlanks rest).head? = some ',' then do
          let (labels, rest) ← readLabels bound ((skipBlanks rest).drop 1)
          some (label :: labels, rest)
        else (expect '\x7d' rest).map fun rest => ([label], rest)

/-- A timestamp. -/
def isTimestamp (t : Text) : Bool :=
  let digits := if t.head? = some '-' then t.drop 1 else t
  digits ≠ [] && digits.all Char.isDigit

/-- What a line says. -/
inductive Line
  | help (name doc : Text)
  | type (name kind : Text)
  | sample (name : Text) (sample : Sample)
  deriving DecidableEq

def Line.name : Line → Text
  | .help name _ => name
  | .type name _ => name
  | .sample name _ => name

/-- A name, with what follows it. -/
def readName (t : Text) : Option (Text × Text) :=
  let name := t.takeWhile fun c => isNameChar c || c = ':'
  if isMetricName name then some (name, t.drop name.length) else none

def readSample (t : Text) : Option Line := do
  let (name, rest) ← readName t
  let rest := skipBlanks rest
  let (labels, rest) ←
    if rest.head? = some '\x7b' then readLabels rest.length (rest.drop 1) else some ([], rest)
  let value := (skipBlanks rest).takeWhile fun c => !isBlank c
  let rest := skipBlanks ((skipBlanks rest).drop value.length)
  let number ← Double.read value
  if rest = [] ∨ isTimestamp rest = true then some (.sample name ⟨labels, number⟩) else none

/-- A comment after its hash. One that is neither a help text nor a type says nothing. -/
def readComment (t : Text) : Option (Option Line) :=
  let word := (skipBlanks t).takeWhile fun c => !isBlank c
  let rest := skipBlanks ((skipBlanks t).drop word.length)
  if word = "HELP".toList then do
    let (name, rest) ← readName rest
    if rest = [] ∨ rest.head?.any isBlank then
      some (some (.help name (unescapeHelp (skipBlanks rest))))
    else none
  else if word = "TYPE".toList then do
    let (name, rest) ← readName rest
    let kind := skipBlanks rest
    if kind ∈ ["counter", "gauge", "histogram", "summary", "untyped"].map String.toList then
      some (some (.type name kind))
    else none
  else some none

def readLine (t : Text) : Option (Option Line) :=
  if trim t = [] then some none
  else if (trim t).head? = some '#' then readComment ((trim t).drop 1)
  else (readSample (trim t)).map some

/-! ## Families -/

/-- A line of a family after the ones before it. -/
def Family.add (family : Family) : Line → Option Family
  | .help _ doc => if family.help.isSome then none else some { family with help := some doc }
  | .type _ kind =>
      if family.kind.isSome ∨ family.samples ≠ [] then none
      else some { family with kind := some kind }
  | .sample _ sample => some { family with samples := family.samples ++ [sample] }

/-- The family a line is of, with the ones before it, the latest first. -/
def familyOf (name : Text) : List Family → Option (Family × List Family)
  | [] => some ({ name := name }, [])
  | family :: families =>
      if family.name = name then some (family, families)
      else if families.any (fun other => other.name = name) then none
      else some ({ name := name }, family :: families)

/-- A line after the ones before it. -/
def addLine (families : List Family) : Option Line → Option (List Family)
  | none => some families
  | some line => do
      let (family, others) ← familyOf line.name families
      let family ← family.add line
      some (family :: others)

/-- The families of a text. The last line ends as the others do. -/
def parse (t : Text) : Option (List Family) := do
  let lines := t.splitOn '\n'
  if lines.getLast? = some [] then do
    let families ← (← lines.dropLast.mapM readLine).foldlM addLine []
    some families.reverse
  else none

/-! ## What is written is read -/

/-- A character of a label value. -/
def escapeLabelChar (c : Char) : Text :=
  if c = '\x5c' then ['\x5c', '\x5c']
  else if c = '\n' then ['\x5c', 'n']
  else if c = '"' then ['\x5c', '"']
  else [c]

/-- A character of a help text. -/
def escapeHelpChar (c : Char) : Text :=
  if c = '\x5c' then ['\x5c', '\x5c'] else if c = '\n' then ['\x5c', 'n'] else [c]

theorem readLabelValue_escape (value rest : Text) :
    readLabelValue (value.flatMap escapeLabelChar ++ '"' :: rest) = some (value, rest) := by
  induction value with
  | nil => rfl
  | cons c value ih =>
      rw [List.flatMap_cons, List.append_assoc]
      by_cases hslash : c = '\x5c'
      · subst hslash
        simp [escapeLabelChar, readLabelValue, ih]
      by_cases hline : c = '\n'
      · subst hline
        simp [escapeLabelChar, readLabelValue, ih]
      by_cases hquote : c = '"'
      · subst hquote
        simp [escapeLabelChar, readLabelValue, ih]
      simp [escapeLabelChar, readLabelValue, hslash, hline, hquote, ih]

theorem unescapeHelp_escape (doc : Text) : unescapeHelp (doc.flatMap escapeHelpChar) = doc := by
  induction doc with
  | nil => rfl
  | cons c doc ih =>
      rw [List.flatMap_cons]
      by_cases hslash : c = '\x5c'
      · subst hslash
        simp [escapeHelpChar, unescapeHelp, ih]
      by_cases hline : c = '\n'
      · subst hline
        simp [escapeHelpChar, unescapeHelp, ih]
      simp [escapeHelpChar, unescapeHelp, hslash, hline, ih]

/-! ### Blanks -/

theorem skipBlanks_of_head {t : Text} (h : ∀ c ∈ t.head?, isBlank c = false) : skipBlanks t = t := by
  cases t with
  | nil => rfl
  | cons c t =>
      rw [skipBlanks, List.dropWhile_cons_of_neg]
      rw [h c rfl]
      exact Bool.false_ne_true

theorem rdropWhile_append {α : Type} (p : α → Bool) (s t : List α) :
    (s ++ t).rdropWhile p = if t.rdropWhile p = [] then s.rdropWhile p else s ++ t.rdropWhile p := by
  induction t using List.reverseRecOn with
  | nil => simp
  | append_singleton t c ih =>
      rw [← List.append_assoc, List.rdropWhile_concat, List.rdropWhile_concat]
      cases p c with
      | true => exact ih
      | false => simp

/-- Escaping touches no blank, and makes none. -/
theorem trim_escapeHelp (doc : Text) :
    trim (doc.flatMap escapeHelpChar) = (trim doc).flatMap escapeHelpChar := by
  have hblank : ∀ c, isBlank c = true → escapeHelpChar c = [c] := by
    intro c hc
    rw [escapeHelpChar, if_neg, if_neg]
    · rintro rfl
      cases hc
    · rintro rfl
      cases hc
  have hhead : ∀ c, isBlank c = false → ∃ d rest, escapeHelpChar c = d :: rest ∧ isBlank d = false := by
    intro c hc
    unfold escapeHelpChar
    split
    · exact ⟨_, _, rfl, rfl⟩
    · split
      · exact ⟨_, _, rfl, rfl⟩
      · exact ⟨_, _, rfl, hc⟩
  have hlast : ∀ c, isBlank c = false → (escapeHelpChar c).rdropWhile isBlank = escapeHelpChar c := by
    intro c hc
    unfold escapeHelpChar
    split
    · rfl
    · split
      · rfl
      · simp [List.rdropWhile_singleton, hc]
  have hskip : ∀ doc : Text,
      skipBlanks (doc.flatMap escapeHelpChar) = (skipBlanks doc).flatMap escapeHelpChar := by
    intro doc
    induction doc with
    | nil => rfl
    | cons c doc ih =>
        rw [skipBlanks] at ih ⊢
        cases hc : isBlank c with
        | true =>
            rw [List.flatMap_cons, hblank c hc, List.singleton_append,
              List.dropWhile_cons_of_pos hc, ih, skipBlanks, skipBlanks,
              List.dropWhile_cons_of_pos hc]
        | false =>
            obtain ⟨d, rest, hescape, hd⟩ := hhead c hc
            rw [skipBlanks, List.dropWhile_cons_of_neg (by rw [hc]; exact Bool.false_ne_true),
              List.flatMap_cons, hescape, List.cons_append,
              List.dropWhile_cons_of_neg (by rw [hd]; exact Bool.false_ne_true)]
  have htrim : ∀ doc : Text,
      (doc.flatMap escapeHelpChar).rdropWhile isBlank = (doc.rdropWhile isBlank).flatMap escapeHelpChar := by
    intro doc
    induction doc using List.reverseRecOn with
    | nil => rfl
    | append_singleton doc c ih =>
        rw [List.flatMap_append, List.flatMap_singleton, rdropWhile_append, List.rdropWhile_concat]
        cases hc : isBlank c with
        | true => rw [hblank c hc, List.rdropWhile_singleton, hc, if_pos rfl, if_pos rfl, if_pos rfl, ih]
        | false =>
            obtain ⟨d, rest, hescape, _⟩ := hhead c hc
            rw [hlast c hc, if_neg (by rw [hescape]; exact List.cons_ne_nil _ _),
              if_neg Bool.false_ne_true, List.flatMap_append, List.flatMap_singleton]
  rw [trim, htrim, hskip, trim]

/-! ### Lines -/

theorem takeWhile_append {p : Char → Bool} {taken rest : Text} (htaken : ∀ c ∈ taken, p c = true)
    (hrest : ∀ c ∈ rest.head?, p c = false) : (taken ++ rest).takeWhile p = taken := by
  rw [List.takeWhile_append_of_pos htaken]
  cases rest with
  | nil => simp
  | cons c rest => simp [hrest c rfl]

theorem isBlank_of_isNameChar {c : Char} (h : isNameChar c = true) : isBlank c = false := by
  unfold isBlank
  rw [Bool.or_eq_false_iff, decide_eq_false_iff_not, decide_eq_false_iff_not]
  constructor
  · rintro rfl
    cases h
  · rintro rfl
    cases h

theorem isLabelName_cons {name : Text} (h : isLabelName name = true) :
    name ≠ [] ∧ ∀ c ∈ name, isNameChar c = true := by
  rw [isLabelName, Bool.and_eq_true, List.all_eq_true] at h
  refine ⟨fun hnil => ?_, h.2⟩
  rw [hnil] at h
  cases h.1

theorem isMetricName_cons {name : Text} (h : isMetricName name = true) :
    name ≠ [] ∧ ∀ c ∈ name, (isNameChar c || c = ':') = true := by
  rw [isMetricName, Bool.and_eq_true, List.all_eq_true] at h
  refine ⟨fun hnil => ?_, h.2⟩
  rw [hnil] at h
  cases h.1

/-- No character of a metric name is a blank, a hash or a brace. -/
theorem metricChar {c : Char} (h : (isNameChar c || c = ':') = true) :
    isBlank c = false ∧ c ≠ '#' ∧ c ≠ '\n' := by
  rw [Bool.or_eq_true, decide_eq_true_eq] at h
  rcases h with hname | rfl
  · refine ⟨isBlank_of_isNameChar hname, ?_, ?_⟩
    · rintro rfl
      cases hname
    · rintro rfl
      cases hname
  · decide

theorem expect_cons {c : Char} (h : isBlank c = false) (rest : Text) :
    expect c (c :: rest) = some rest := by
  have hskip : skipBlanks (c :: rest) = c :: rest := skipBlanks_of_head fun d hd => by
    rw [← Option.some.inj hd]
    exact h
  rw [expect, hskip]
  exact if_pos rfl

/-- A label as it is written. -/
def labelText (label : Text × Text) : Text :=
  label.1 ++ '=' :: '"' :: (label.2.flatMap escapeLabelChar ++ ['"'])

theorem readLabel_labelText {label : Text × Text} (h : isLabelName label.1 = true) (rest : Text) :
    readLabel (labelText label ++ rest) = some (label, rest) := by
  obtain ⟨name, value⟩ := label
  obtain ⟨hne, hchars⟩ := isLabelName_cons h
  have htext : labelText (name, value) ++ rest
      = name ++ '=' :: '"' :: (value.flatMap escapeLabelChar ++ '"' :: rest) := by
    simp [labelText]
  have hskip : ∀ t, skipBlanks (name ++ t) = name ++ t := by
    intro t
    refine skipBlanks_of_head fun c hc => ?_
    cases name with
    | nil => exact absurd rfl hne
    | cons d name =>
        rw [← Option.some.inj hc]
        exact isBlank_of_isNameChar (hchars d List.mem_cons_self)
  have hname : ∀ t, (name ++ '=' :: t).takeWhile isNameChar = name := by
    intro t
    refine takeWhile_append hchars fun c hc => ?_
    rw [← Option.some.inj hc]
    rfl
  unfold readLabel
  dsimp only
  rw [htext, hskip, hname, List.drop_left, expect_cons rfl]
  simp only [Option.bind_eq_bind, Option.bind_some]
  rw [expect_cons rfl]
  simp only [Option.bind_some, readLabelValue_escape]
  exact if_pos h

theorem readLabels_labels {labels : List (Text × Text)} (hne : labels ≠ [])
    (h : ∀ label ∈ labels, isLabelName label.1 = true) {bound : Nat}
    (hbound : labels.length ≤ bound) (rest : Text) :
    readLabels bound ([','].intercalate (labels.map labelText) ++ '\x7d' :: rest)
      = some (labels, rest) := by
  induction labels generalizing bound with
  | nil => exact absurd rfl hne
  | cons label labels ih =>
      rw [List.forall_mem_cons] at h
      cases bound with
      | zero => cases hbound
      | succ bound =>
          have hhead : ∀ t, (skipBlanks (labelText label ++ t)).head? ≠ some '\x7d' := by
            intro t hbrace
            obtain ⟨hname, hchars⟩ := isLabelName_cons h.1
            obtain ⟨name, value⟩ := label
            cases name with
            | nil => exact absurd rfl hname
            | cons d name =>
                have hd := hchars d List.mem_cons_self
                have hskip : skipBlanks (labelText (d :: name, value) ++ t)
                    = labelText (d :: name, value) ++ t := skipBlanks_of_head fun c hc => by
                  rw [← Option.some.inj hc]
                  exact isBlank_of_isNameChar hd
                rw [hskip] at hbrace
                rw [Option.some.inj hbrace] at hd
                cases hd
          have hread : ∀ t, readLabel (labelText label ++ t) = some (label, t) :=
            readLabel_labelText h.1
          unfold readLabels
          cases labels with
          | nil =>
              rw [List.map_singleton, List.intercalate_singleton, if_neg (hhead _), hread]
              simp only [Option.bind_eq_bind, Option.bind_some]
              rw [if_neg, expect_cons rfl]
              · rfl
              · rw [skipBlanks_of_head fun c hc => by
                  rw [← Option.some.inj hc]
                  rfl]
                exact fun hcomma => absurd (Option.some.inj hcomma) (by decide)
          | cons label' labels =>
              have hcomma : ∀ t, skipBlanks (',' :: t) = ',' :: t :=
                fun t => skipBlanks_of_head fun c hc => by
                  rw [← Option.some.inj hc]
                  rfl
              have htail := ih (List.cons_ne_nil _ _) h.2 (Nat.le_of_succ_le_succ hbound)
              rw [List.map_cons, List.map_cons, List.intercalate_cons_cons, List.append_assoc,
                List.append_assoc, if_neg (hhead _), hread]
              simp only [Option.bind_eq_bind, Option.bind_some, List.singleton_append, hcomma,
                List.head?_cons, if_true, List.drop_succ_cons, List.drop_zero]
              rw [List.map_cons] at htail
              rw [htail]
              rfl

/-- The labels of a sample as they are written. -/
def labelsText (labels : List (Text × Text)) : Text :=
  if labels = [] then [] else '\x7b' :: ([','].intercalate (labels.map labelText) ++ ['\x7d'])

theorem readName_append {name rest : Text} (h : isMetricName name = true)
    (hrest : ∀ c ∈ rest.head?, (isNameChar c || c = ':') = false) :
    readName (name ++ rest) = some (name, rest) := by
  rw [readName, takeWhile_append (isMetricName_cons h).2 hrest, if_pos h, List.drop_left]

theorem skipBlanks_name {name : Text} (h : isMetricName name = true) (rest : Text) :
    skipBlanks (name ++ rest) = name ++ rest := by
  obtain ⟨hne, hchars⟩ := isMetricName_cons h
  refine skipBlanks_of_head fun c hc => ?_
  cases name with
  | nil => exact absurd rfl hne
  | cons d name =>
      rw [← Option.some.inj hc]
      exact (metricChar (hchars d List.mem_cons_self)).1

theorem length_le_intercalate (labels : List (Text × Text)) :
    labels.length ≤ ([','].intercalate (labels.map labelText)).length := by
  induction labels with
  | nil => exact Nat.zero_le _
  | cons label labels ih =>
      have hpos : 1 ≤ (labelText label).length := by
        simp only [labelText, List.length_append, List.length_cons]
        omega
      cases labels with
      | nil =>
          rw [List.map_singleton, List.intercalate_singleton]
          exact hpos
      | cons label' labels =>
          rw [List.map_cons, List.map_cons, List.intercalate_cons_cons] at *
          rw [List.length_append, List.length_append, List.length_cons]
          omega

/-- A text of the value, which has no blank and does not start like labels. -/
structure IsValueText (text : Text) : Prop where
  ne_nil : text ≠ []
  chars : ∀ c ∈ text, isBlank c = false ∧ c ≠ '\x7b' ∧ c ≠ '\n'

theorem readSample_sample {name : Text} (hname : isMetricName name = true)
    {labels : List (Text × Text)} (hlabels : ∀ label ∈ labels, isLabelName label.1 = true)
    {text : Text} (htext : IsValueText text) {x : Double} (hx : Double.read text = some x) :
    readSample (name ++ labelsText labels ++ ' ' :: text) = some (.sample name ⟨labels, x⟩) := by
  have hskip : skipBlanks text = text := by
    refine skipBlanks_of_head fun c hc => ?_
    exact (htext.chars c (List.mem_of_mem_head? hc)).1
  have hblank : skipBlanks (' ' :: text) = text := hskip
  have htake : text.takeWhile (fun c => !isBlank c) = text := by
    rw [List.takeWhile_eq_self_iff]
    intro c hc
    rw [(htext.chars c hc).1]
    rfl
  have hend : ∀ rest, skipBlanks rest = text →
      (do
        let number ← Double.read ((skipBlanks rest).takeWhile fun c => !isBlank c)
        if skipBlanks ((skipBlanks rest).drop ((skipBlanks rest).takeWhile fun c => !isBlank c).length)
            = [] ∨ isTimestamp (skipBlanks ((skipBlanks rest).drop
              ((skipBlanks rest).takeWhile fun c => !isBlank c).length)) = true then
          some (Line.sample name ⟨labels, number⟩) else none : Option Line)
        = some (.sample name ⟨labels, x⟩) := by
    intro rest hrest
    rw [hrest, htake, hx, List.drop_length]
    simp only [Option.bind_eq_bind, Option.bind_some]
    exact if_pos (Or.inl rfl)
  unfold readSample
  rw [List.append_assoc]
  by_cases hnone : labels = []
  · subst hnone
    rw [labelsText, if_pos rfl, List.nil_append, readName_append hname (fun c hc => by
      rw [← Option.some.inj hc]
      rfl)]
    simp only [Option.bind_eq_bind, Option.bind_some, hblank]
    rw [if_neg]
    · exact hend text hskip
    · intro hbrace
      exact (htext.chars _ (List.mem_of_mem_head? hbrace)).2.1 rfl
  · have hopen : labelsText labels ++ ' ' :: text = '\x7b' :: ([','].intercalate (labels.map labelText)
        ++ '\x7d' :: ' ' :: text) := by
      rw [labelsText, if_neg hnone]
      simp
    rw [hopen, readName_append hname (fun c hc => by
      rw [← Option.some.inj hc]
      rfl)]
    have hskipOpen : ∀ t, skipBlanks ('\x7b' :: t) = '\x7b' :: t := fun t =>
      skipBlanks_of_head fun c hc => by
        rw [← Option.some.inj hc]
        rfl
    simp only [Option.bind_eq_bind, Option.bind_some, hskipOpen, List.head?_cons, if_true,
      List.drop_succ_cons, List.drop_zero]
    rw [readLabels_labels hnone hlabels]
    · exact hend (' ' :: text) hblank
    · rw [List.length_cons, List.length_append]
      have hlength := length_le_intercalate labels
      omega

/-- A line that ends in no blank and starts with none. -/
theorem trim_of_ends {line : Text}
    (hfirst : ∀ c ∈ line.head?, isBlank c = false)
    (hlast : ∀ c ∈ line.getLast?, isBlank c = false) : trim line = line := by
  have hright : line.rdropWhile isBlank = line := by
    rw [List.rdropWhile_eq_self_iff]
    intro hl
    rw [hlast _ (List.getLast?_eq_some_getLast hl)]
    exact Bool.false_ne_true
  rw [trim, hright, skipBlanks_of_head hfirst]

theorem readLine_sample {name : Text} (hname : isMetricName name = true)
    {labels : List (Text × Text)} (hlabels : ∀ label ∈ labels, isLabelName label.1 = true)
    {text : Text} (htext : IsValueText text) {x : Double} (hx : Double.read text = some x) :
    readLine (name ++ labelsText labels ++ ' ' :: text)
      = some (some (.sample name ⟨labels, x⟩)) := by
  obtain ⟨hne, hchars⟩ := isMetricName_cons hname
  cases name with
  | nil => exact absurd rfl hne
  | cons d name =>
      have hd := metricChar (hchars d List.mem_cons_self)
      have htrim : trim (d :: name ++ labelsText labels ++ ' ' :: text)
          = d :: name ++ labelsText labels ++ ' ' :: text := by
        refine trim_of_ends (fun c hc => ?_) (fun c hc => ?_)
        · rw [← Option.some.inj hc]
          exact hd.1
        · rw [List.getLast?_append, List.getLast?_cons] at hc
          have hmem : c ∈ text := by
            cases hlast : text.getLast? with
            | none => exact absurd (List.getLast?_eq_none_iff.mp hlast) htext.ne_nil
            | some c' =>
                rw [hlast] at hc
                rw [← Option.some.inj hc]
                exact List.mem_of_getLast? hlast
          exact (htext.chars c hmem).1
      rw [readLine, htrim, if_neg (by simp), if_neg, readSample_sample hname hlabels htext hx]
      · rfl
      · exact fun hhash => hd.2.1 (Option.some.inj hhash)

theorem readLine_help {name : Text} (hname : isMetricName name = true) (doc : Text) :
    readLine ("# HELP ".toList ++ name ++ ' ' :: doc.flatMap escapeHelpChar)
      = some (some (.help name (trim doc))) := by
  obtain ⟨hne, hchars⟩ := isMetricName_cons hname
  have hlastName : name.rdropWhile isBlank = name := by
    rw [List.rdropWhile_eq_self_iff]
    intro hl
    rw [(metricChar (hchars _ (List.getLast_mem hl))).1]
    exact Bool.false_ne_true
  have hspace : (name ++ [' ']).rdropWhile isBlank = name := by
    rw [List.rdropWhile_concat]
    exact hlastName
  -- the line without the blanks at its ends
  obtain ⟨tail, htail, htrim, hdoc⟩ : ∃ tail, (tail = [] ∨ tail.head? = some ' ')
      ∧ trim ("# HELP ".toList ++ name ++ ' ' :: doc.flatMap escapeHelpChar)
        = "# HELP ".toList ++ (name ++ tail)
      ∧ skipBlanks tail = (trim doc).flatMap escapeHelpChar := by
    rw [← trim_escapeHelp, trim]
    generalize doc.flatMap escapeHelpChar = escaped
    have hsplit : ("# HELP ".toList ++ name ++ ' ' :: escaped)
        = "# HELP ".toList ++ ((name ++ [' ']) ++ escaped) := by simp
    rw [hsplit, rdropWhile_append, rdropWhile_append]
    by_cases hnil : escaped.rdropWhile isBlank = []
    · refine ⟨[], Or.inl rfl, ?_, by rw [trim, hnil]⟩
      rw [if_pos hnil, hspace, if_neg hne, List.append_nil]
      rfl
    · refine ⟨' ' :: escaped.rdropWhile isBlank, Or.inr rfl, ?_, rfl⟩
      rw [if_neg hnil, if_neg (by simp)]
      simp only [List.append_assoc, List.singleton_append]
      rfl
  have htoken : ∀ t, readComment (" HELP ".toList ++ (name ++ t))
      = (do
        let (name, rest) ← readName (name ++ t)
        if rest = [] ∨ rest.head?.any isBlank = true then
          some (some (.help name (unescapeHelp (skipBlanks rest))))
        else none) := by
    intro t
    have hword : readComment (" HELP ".toList ++ (name ++ t))
        = (do
          let (name, rest) ← readName (skipBlanks (name ++ t))
          if rest = [] ∨ rest.head?.any isBlank = true then
            some (some (.help name (unescapeHelp (skipBlanks rest))))
          else none) := rfl
    rw [hword, skipBlanks_name hname]
  rw [readLine, htrim, if_neg (by simp), if_pos (by rfl)]
  show readComment (" HELP ".toList ++ (name ++ tail)) = _
  rw [htoken, readName_append hname (fun c hc => by
    rcases htail with rfl | hhead
    · cases hc
    · rw [hhead] at hc
      rw [← Option.some.inj hc]
      rfl)]
  simp only [Option.bind_eq_bind, Option.bind_some, hdoc, unescapeHelp_escape]
  refine if_pos ?_
  rcases htail with hnil | hhead
  · exact Or.inl hnil
  · rw [hhead]
    exact Or.inr rfl

/-- The types there are. -/
def isKind (kind : Text) : Prop :=
  kind ∈ ["counter", "gauge", "histogram", "summary", "untyped"].map String.toList

theorem readLine_type {name : Text} (hname : isMetricName name = true) {kind : Text}
    (hkind : isKind kind) :
    readLine ("# TYPE ".toList ++ name ++ ' ' :: kind) = some (some (.type name kind)) := by
  have hplain : kind ≠ [] ∧ ∀ c ∈ kind, isBlank c = false := by
    have hall : (["counter", "gauge", "histogram", "summary", "untyped"].map String.toList).all
        (fun kind => !kind.isEmpty && kind.all fun c => !isBlank c) = true := by decide
    simpa using List.all_eq_true.mp hall kind hkind
  have hskip : skipBlanks (' ' :: kind) = kind :=
    skipBlanks_of_head fun c hc => hplain.2 c (List.mem_of_mem_head? hc)
  have htrim : trim ("# TYPE ".toList ++ name ++ ' ' :: kind)
      = "# TYPE ".toList ++ (name ++ ' ' :: kind) := by
    rw [trim_of_ends (fun c hc => by
      rw [← Option.some.inj hc]
      rfl), List.append_assoc]
    intro c hc
    rw [List.getLast?_append, List.getLast?_cons] at hc
    cases hlast : kind.getLast? with
    | none => exact absurd (List.getLast?_eq_none_iff.mp hlast) hplain.1
    | some c' =>
        rw [hlast] at hc
        rw [← Option.some.inj hc]
        exact hplain.2 c' (List.mem_of_getLast? hlast)
  have hword : readComment (" TYPE ".toList ++ (name ++ ' ' :: kind))
      = (do
        let (name, rest) ← readName (skipBlanks (name ++ ' ' :: kind))
        if skipBlanks rest ∈ ["counter", "gauge", "histogram", "summary", "untyped"].map String.toList
          then some (some (.type name (skipBlanks rest))) else none) := rfl
  rw [readLine, htrim, if_neg (by simp), if_pos (by rfl)]
  show readComment (" TYPE ".toList ++ (name ++ ' ' :: kind)) = _
  rw [hword, skipBlanks_name hname, readName_append hname (fun c hc => by
    rw [← Option.some.inj hc]
    rfl)]
  simp only [Option.bind_eq_bind, Option.bind_some, hskip]
  exact if_pos hkind

/-! ### Families -/

/-- The lines of a family. -/
def Family.lines (family : Family) : List Line :=
  (family.help.map (Line.help family.name)).toList
    ++ (family.kind.map (Line.type family.name)).toList
    ++ family.samples.map (Line.sample family.name)

theorem familyOf_same {name : Text} {family : Family} (h : family.name = name)
    (families : List Family) : familyOf name (family :: families) = some (family, families) :=
  if_pos h

theorem familyOf_new {name : Text} {families : List Family}
    (h : ∀ family ∈ families, family.name ≠ name) :
    familyOf name families = some ({ name := name }, families) := by
  cases families with
  | nil => rfl
  | cons family families =>
      rw [List.forall_mem_cons] at h
      rw [familyOf, if_neg h.1, if_neg]
      rw [List.any_eq_true]
      rintro ⟨other, hmem, hsame⟩
      exact h.2 other hmem (of_decide_eq_true hsame)

/-- The samples of a family after its first lines. -/
theorem addLine_samples (family : Family) (families : List Family) (samples : List Sample) :
    (samples.map (fun s => some (Line.sample family.name s))).foldlM addLine (family :: families)
      = some ({ family with samples := family.samples ++ samples } :: families) := by
  induction samples generalizing family with
  | nil => simp
  | cons s samples ih =>
      rw [List.map_cons, List.foldlM_cons]
      have hfirst : addLine (family :: families) (some (.sample family.name s))
          = some ({ family with samples := family.samples ++ [s] } :: families) := by
        show ((familyOf family.name (family :: families)).bind _) = _
        rw [familyOf_same rfl]
        rfl
      rw [hfirst, Option.bind_eq_bind, Option.bind_some]
      have hrest := ih { family with samples := family.samples ++ [s] }
      simp only [List.append_assoc, List.singleton_append] at hrest
      exact hrest

/-- The lines of a typed family that is new make the family. -/
theorem addLine_family {family : Family} {kind : Text} (hkind : family.kind = some kind)
    {families : List Family} (hnew : ∀ other ∈ families, other.name ≠ family.name) :
    (family.lines.map some).foldlM addLine families = some (family :: families) := by
  obtain ⟨name, help, kind', samples⟩ := family
  dsimp only at hkind hnew
  subst hkind
  have htype : ∀ help, addLine ({ name := name, help := help } :: families) (some (.type name kind))
      = some ({ name := name, help := help, kind := some kind } :: families) := by
    intro help
    show ((familyOf name (⟨name, help, none, []⟩ :: families)).bind _) = _
    rw [show familyOf name (⟨name, help, none, []⟩ :: families)
      = some (⟨name, help, none, []⟩, families) from familyOf_same rfl families]
    rfl
  have hsamples := addLine_samples ⟨name, help, some kind, []⟩ families samples
  rw [List.nil_append] at hsamples
  cases help with
  | none =>
      have hfirst : addLine families (some (.type name kind))
          = some (⟨name, none, some kind, []⟩ :: families) := by
        show ((familyOf name families).bind _) = _
        rw [familyOf_new hnew]
        rfl
      show ((some (Line.type name kind) :: (samples.map (Line.sample name)).map some).foldlM
        addLine families) = _
      rw [List.foldlM_cons, hfirst, Option.bind_eq_bind, Option.bind_some, List.map_map]
      exact hsamples
  | some doc =>
      have hfirst : addLine families (some (.help name doc))
          = some (⟨name, some doc, none, []⟩ :: families) := by
        show ((familyOf name families).bind _) = _
        rw [familyOf_new hnew]
        rfl
      show ((some (Line.help name doc) :: some (Line.type name kind)
        :: (samples.map (Line.sample name)).map some).foldlM addLine families) = _
      rw [List.foldlM_cons, hfirst, Option.bind_eq_bind, Option.bind_some, List.foldlM_cons,
        htype, Option.bind_eq_bind, Option.bind_some, List.map_map]
      exact hsamples

/-- The lines of families of different names make the families. -/
theorem addLine_families {families : List Family} (hkind : ∀ family ∈ families, family.kind ≠ none)
    (hnames : (families.map Family.name).Nodup) {before : List Family}
    (hnew : ∀ family ∈ families, ∀ other ∈ before, other.name ≠ family.name) :
    ((families.flatMap Family.lines).map some).foldlM addLine before
      = some (families.reverse ++ before) := by
  induction families generalizing before with
  | nil => rfl
  | cons family families ih =>
      rw [List.forall_mem_cons] at hkind hnew
      rw [List.map_cons, List.nodup_cons] at hnames
      obtain ⟨kind, hsome⟩ := Option.ne_none_iff_exists'.mp hkind.1
      rw [List.flatMap_cons, List.map_append, List.foldlM_append, addLine_family hsome hnew.1,
        Option.bind_eq_bind, Option.bind_some, ih hkind.2 hnames.2]
      · simp
      · intro other hother earlier hearlier
        rcases List.mem_cons.mp hearlier with rfl | hmem
        · exact fun hsame => hnames.1 (hsame ▸ List.mem_map_of_mem hother)
        · exact hnew.2 other hother earlier hmem

/-- A text whose lines are those of families of different names, each with its type. -/
theorem parse_lines {texts : List Text} {families : List Family}
    (hread : texts.mapM readLine = some ((families.flatMap Family.lines).map some))
    (hline : ∀ t ∈ texts, '\n' ∉ t) (hkind : ∀ family ∈ families, family.kind ≠ none)
    (hnames : (families.map Family.name).Nodup) :
    parse (['\n'].intercalate texts ++ (if texts = [] then [] else ['\n'])) = some families := by
  have hsplit : (['\n'].intercalate texts ++ (if texts = [] then [] else ['\n'])).splitOn '\n'
      = texts ++ [[]] := by
    by_cases hnil : texts = []
    · subst hnil
      rfl
    · have hjoin : ['\n'].intercalate texts ++ ['\n'] = ['\n'].intercalate (texts ++ [[]]) := by
        clear hread hline
        induction texts with
        | nil => exact absurd rfl hnil
        | cons t texts ih =>
            cases texts with
            | nil => simp
            | cons t' texts =>
                rw [List.intercalate_cons_cons, List.append_assoc, List.append_assoc,
                  ih (List.cons_ne_nil _ _)]
                simp
      rw [if_neg hnil, hjoin, List.splitOn_intercalate '\n' ?_ (by simp)]
      intro t ht
      rcases List.mem_append.mp ht with hmem | hlast
      · exact hline t hmem
      · rw [List.mem_singleton.mp hlast]
        exact List.not_mem_nil
  have hnone : ∀ family ∈ families, ∀ other ∈ ([] : List Family), other.name ≠ family.name :=
    fun _ _ _ h => absurd h List.not_mem_nil
  have hfold := addLine_families hkind hnames hnone
  unfold parse
  rw [hsplit]
  simp only [List.getLast?_concat, if_true, List.dropLast_concat, hread, Option.bind_eq_bind,
    Option.bind_some, hfold, List.append_nil, List.reverse_reverse]

end Hephaestus.Lib.Exposition
