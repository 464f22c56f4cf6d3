import Hephaestus.Automation.ReviewPositions
import Hephaestus.Proofs.AuditReceipts

/-!
# What the comment filter keeps

Of a diff that git wrote, the places read are those of its lines: an added line on the right,
a removed one on the left, and a line of context on both. What it takes is that no added line
begins with `++ ` and no removed one with `-- `, which would be read as the name of a file.
-/

namespace Hephaestus.Automation

open Hephaestus.Lib

/-! ## Well-formed diffs -/

def DiffLine.WellFormed : DiffLine → Prop
  | .context text | .note text => Text.NoBreak text
  | .added text => Text.NoBreak text ∧ Text.startsWith text "++ ".toList = false
  | .removed text => Text.NoBreak text ∧ Text.startsWith text "-- ".toList = false

structure Hunk.WellFormed (hunk : Hunk) : Prop where
  heading : Text.NoBreak hunk.heading
  lines : ∀ line ∈ hunk.lines, line.WellFormed

/-- A line above the names of the files; it begins with a word. -/
def IsPreamble (line : Text) : Prop :=
  Text.NoBreak line ∧ ∀ c ∈ line.head?, c ≠ '+' ∧ c ≠ '-' ∧ c ≠ ' ' ∧ c ≠ '@'

structure FileDiff.WellFormed (file : FileDiff) : Prop where
  preamble : ∀ line ∈ file.preamble, IsPreamble line
  old : ∀ path ∈ file.old, Text.NoBreak path
  new : ∀ path ∈ file.new, Text.NoBreak path ∧ Text.rstrip path = path
  hunks : ∀ hunk ∈ file.hunks, hunk.WellFormed

/-! ## The places of a diff -/

/-- The places of the lines of a hunk that starts at these two. -/
def Marks (oldLine newLine : Nat) (lines : List DiffLine) (position : Nat × Side) : Prop :=
  ∃ before line after, lines = before ++ line :: after ∧
    (line.newLines = 1 ∧ position = (newLine + (before.map DiffLine.newLines).sum, .right)
      ∨ line.oldLines = 1 ∧ position = (oldLine + (before.map DiffLine.oldLines).sum, .left))

/-- The places of a file. -/
def FileDiff.Shows (file : FileDiff) (position : Nat × Side) : Prop :=
  ∃ hunk ∈ file.hunks, Marks hunk.oldStart hunk.newStart hunk.lines position

theorem marks_nil {oldLine newLine : Nat} {position : Nat × Side} :
    ¬ Marks oldLine newLine [] position := by
  rintro ⟨before, line, after, hsplit, _⟩
  exact List.append_ne_nil_of_right_ne_nil _ (List.cons_ne_nil _ _) hsplit.symm

theorem marks_cons {oldLine newLine : Nat} {line : DiffLine} {lines : List DiffLine}
    {position : Nat × Side} :
    Marks oldLine newLine (line :: lines) position
      ↔ (line.newLines = 1 ∧ position = (newLine, .right) ∨ line.oldLines = 1 ∧ position = (oldLine, .left))
        ∨ Marks (oldLine + line.oldLines) (newLine + line.newLines) lines position := by
  constructor
  · rintro ⟨before, first, after, hsplit, hplace⟩
    cases before with
    | nil =>
        obtain ⟨rfl, rfl⟩ := List.cons.inj hsplit
        exact .inl hplace
    | cons head before =>
        obtain ⟨rfl, rfl⟩ := List.cons.inj hsplit
        refine .inr ⟨before, first, after, rfl, ?_⟩
        simpa only [List.map_cons, List.sum_cons, ← Nat.add_assoc] using hplace
  · rintro (hplace | ⟨before, first, after, rfl, hplace⟩)
    · exact ⟨[], line, lines, rfl, hplace⟩
    · refine ⟨line :: before, first, after, rfl, ?_⟩
      simpa only [List.map_cons, List.sum_cons, ← Nat.add_assoc] using hplace

/-! ## What is read -/

/-- The place is on record for the file. -/
def DiffCursor.Has (c : DiffCursor) (path : Text) (position : Nat × Side) : Prop :=
  ∃ positions ∈ c.positions.get? path, position ∈ positions

/-- The cursor moved on, with these places on record for these files. -/
structure Adds (c d : DiffCursor) (path : Option Text) (shown : Text → Prop)
    (marks : Text → Nat × Side → Prop) : Prop where
  path : d.path = path
  known : ∀ q, (d.positions.get? q).isSome = true ↔ (c.positions.get? q).isSome = true ∨ shown q
  has : ∀ q position, d.Has q position ↔ c.Has q position ∨ marks q position

theorem Adds.trans {c d e : DiffCursor} {path path' : Option Text} {shown shown' : Text → Prop}
    {marks marks' : Text → Nat × Side → Prop} (h : Adds c d path shown marks)
    (h' : Adds d e path' shown' marks') :
    Adds c e path' (fun q => shown q ∨ shown' q) fun q position => marks q position ∨ marks' q position where
  path := h'.path
  known := fun q => by rw [h'.known, h.known, or_assoc]
  has := fun q position => by rw [h'.has, h.has, or_assoc]

theorem Adds.congr {c d : DiffCursor} {path : Option Text} {shown shown' : Text → Prop}
    {marks marks' : Text → Nat × Side → Prop} (h : Adds c d path shown marks)
    (hshown : ∀ q, shown q ↔ shown' q) (hmarks : ∀ q position, marks q position ↔ marks' q position) :
    Adds c d path shown' marks' where
  path := h.path
  known := fun q => by rw [h.known, hshown]
  has := fun q position => by rw [h.has, hmarks]

/-- Nothing is on record that was not. -/
theorem Adds.same {c d : DiffCursor} (hpositions : d.positions = c.positions) :
    Adds c d d.path (fun _ => False) fun _ _ => False where
  path := rfl
  known := fun q => by rw [hpositions, or_false]
  has := fun q position => by rw [DiffCursor.Has, hpositions, or_false, DiffCursor.Has]

theorem adds_add (c : DiffCursor) (path : Text) (position : Nat × Side) :
    Adds c (c.add path position) c.path (fun q => q = path) fun q p => q = path ∧ p = position where
  path := rfl
  known := fun q => by
    unfold DiffCursor.add
    dsimp only
    rw [Dict.get?_set]
    by_cases hq : path = q
    · simp [hq]
    · simp [hq, Ne.symm hq]
  has := fun q p => by
    unfold DiffCursor.Has DiffCursor.add
    dsimp only
    rw [Dict.get?_set]
    by_cases hq : path = q
    · subst hq
      cases hget : c.positions.get? path with
      | none => simp
      | some positions => simp [or_comm]
    · simp [hq, Ne.symm hq]

/-! ## The lines of a hunk -/

variable {digits : DigitTable}

theorem readHunkHeader_of_head {t : Text} (h : t.head? ≠ some '@') : readHunkHeader digits t = none := by
  have hno : afterLiteral "@@ -".toList t = none := by
    unfold afterLiteral
    rw [if_neg]
    intro hstart
    obtain ⟨rest, rfl⟩ := Text.startsWith_iff.mp hstart
    exact h rfl
  unfold readHunkHeader
  rw [hno]
  rfl

/-- A line that is none of the headers adds its own place. -/
theorem readLine_plain (c : DiffCursor) {raw : Text} (hnew : Text.startsWith raw "+++ ".toList = false)
    (hold : Text.startsWith raw "--- ".toList = false) (hhunk : raw.head? ≠ some '@') :
    c.readLine digits raw = c.path.elim c fun path => c.mark path raw := by
  unfold DiffCursor.readLine
  rw [hnew, hold, readHunkHeader_of_head hhunk]
  cases c.path with
  | none => rfl
  | some path => rfl

theorem startsWith_cons (c d : Char) (t start : Text) :
    Text.startsWith (c :: t) (d :: start) = (d == c && Text.startsWith t start) := rfl

theorem readLine_diffLine (c : DiffCursor) {line : DiffLine} (h : line.WellFormed) :
    c.readLine digits line.render = c.path.elim c fun path => c.mark path line.render := by
  refine readLine_plain c ?_ ?_ ?_
  · cases line with
    | added text =>
        show Text.startsWith ('+' :: text) ('+' :: "++ ".toList) = false
        rw [startsWith_cons, h.2, Bool.and_false]
    | _ => rfl
  · cases line with
    | removed text =>
        show Text.startsWith ('-' :: text) ('-' :: "-- ".toList) = false
        rw [startsWith_cons, h.2, Bool.and_false]
    | _ => rfl
  · cases line with
    | _ => simp [DiffLine.render]

theorem adds_mark (c : DiffCursor) {path : Text} (hpath : c.path = some path)
    (hknown : (c.positions.get? path).isSome = true) (line : DiffLine) :
    Adds c (c.mark path line.render) (some path) (fun _ => False) (fun q position => q = path
        ∧ (line.newLines = 1 ∧ position = (c.newLine, .right) ∨ line.oldLines = 1 ∧ position = (c.oldLine, .left)))
      ∧ (c.mark path line.render).oldLine = c.oldLine + line.oldLines
      ∧ (c.mark path line.render).newLine = c.newLine + line.newLines := by
  have hadd : ∀ position, Adds c (c.add path position) (some path) (fun _ => False)
      fun q p => q = path ∧ p = position := by
    intro position
    refine ⟨hpath, fun q => ?_, (adds_add c path position).has⟩
    rw [(adds_add c path position).known, or_false]
    refine ⟨fun hq => hq.elim id fun heq => heq ▸ hknown, .inl⟩
  cases line with
  | added text =>
      have hone := hadd (c.newLine, .right)
      refine ⟨⟨hpath, hone.known, fun q p => ?_⟩, rfl, rfl⟩
      show (c.add path (c.newLine, .right)).Has q p ↔ _
      rw [hone.has]
      simp [DiffLine.newLines, DiffLine.oldLines]
  | removed text =>
      have hone := hadd (c.oldLine, .left)
      refine ⟨⟨hpath, hone.known, fun q p => ?_⟩, rfl, rfl⟩
      show (c.add path (c.oldLine, .left)).Has q p ↔ _
      rw [hone.has]
      simp [DiffLine.newLines, DiffLine.oldLines]
  | note text =>
      refine ⟨⟨hpath, fun q => (or_iff_left id).symm, fun q p => ?_⟩, rfl, rfl⟩
      show c.Has q p ↔ _
      simp [DiffLine.newLines, DiffLine.oldLines]
  | context text =>
      have hone := hadd (c.newLine, .right)
      have hboth := hone.trans (adds_add (c.add path (c.newLine, .right)) path (c.oldLine, .left))
      refine ⟨⟨hpath, fun q => ?_, fun q p => ?_⟩, rfl, rfl⟩
      · show ((((c.add path (c.newLine, .right)).add path (c.oldLine, .left)).positions).get? q).isSome
          = true ↔ _
        rw [hboth.known, false_or, or_false]
        exact ⟨fun hq => hq.elim id fun heq => heq ▸ hknown, .inl⟩
      · show ((c.add path (c.newLine, .right)).add path (c.oldLine, .left)).Has q p ↔ _
        rw [hboth.has]
        simp [DiffLine.newLines, DiffLine.oldLines, and_or_left]

/-- The lines of a hunk of a file that is known. -/
theorem readLines_known (lines : List DiffLine) (h : ∀ line ∈ lines, line.WellFormed) {c : DiffCursor}
    {path : Text} (hpath : c.path = some path) (hknown : (c.positions.get? path).isSome = true) :
    Adds c ((lines.map DiffLine.render).foldl (DiffCursor.readLine digits) c) (some path) (fun _ => False)
      fun q position => q = path ∧ Marks c.oldLine c.newLine lines position := by
  induction lines generalizing c with
  | nil =>
      have hsame : Adds c c c.path (fun _ => False) fun _ _ => False := .same rfl
      rw [hpath] at hsame
      refine hsame.congr (fun _ => Iff.rfl) fun q position => ?_
      exact ⟨False.elim, fun hmarks => marks_nil hmarks.2⟩
  | cons line lines ih =>
      rw [List.forall_mem_cons] at h
      obtain ⟨hfirst, hold, hnew⟩ := adds_mark c hpath hknown line
      rw [List.map_cons, List.foldl_cons, readLine_diffLine c h.1, hpath, Option.elim_some]
      have hstill := (hfirst.known path).mpr (.inl hknown)
      refine (hfirst.trans (ih h.2 hfirst.path hstill)).congr (fun _ => or_self_iff) fun q position => ?_
      rw [marks_cons, hold, hnew, ← and_or_left]

/-- The lines of a hunk of a file that is gone. -/
theorem readLines_gone (lines : List DiffLine) (h : ∀ line ∈ lines, line.WellFormed) {c : DiffCursor}
    (hpath : c.path = none) : (lines.map DiffLine.render).foldl (DiffCursor.readLine digits) c = c := by
  induction lines with
  | nil => rfl
  | cons line lines ih =>
      rw [List.forall_mem_cons] at h
      rw [List.map_cons, List.foldl_cons, readLine_diffLine c h.1, hpath]
      exact ih h.2

/-! ## The header of a hunk -/

theorem takeWhile_number (n : Nat) {rest : Text} (hrest : ∀ c ∈ rest.head?, digits.isDigit c = false) :
    (Nat.toDigits 10 n ++ rest).takeWhile digits.isDigit = Nat.toDigits 10 n := by
  refine JsonText.takeWhile_append_of_head ?_ hrest
  intro c hc
  have hdigit := JsonText.isDigit_of_mem_toDigits hc
  rw [digits.isDigit_of_ascii (toNat_of_isDigit hdigit), hdigit]

theorem readRange_render (start : Nat) (count : Option Nat) {rest : Text}
    (hrest : rest.head? = some ' ') :
    readRange digits (renderRange start count ++ rest) = some (start, rest) := by
  have hstop : ∀ c ∈ rest.head?, digits.isDigit c = false := by
    intro c hc
    rw [hrest] at hc
    rw [← Option.some.inj hc, digits.isDigit_of_ascii (by decide)]
    rfl
  unfold readRange renderRange
  cases count with
  | none =>
      rw [Option.elim_none, List.append_nil]
      dsimp only
      rw [takeWhile_number start hstop, if_neg Nat.toDigits_ne_nil, List.drop_left, digits.int_toDigits,
        if_neg]
      rintro ⟨hhead, _⟩
      rw [hrest] at hhead
      cases hhead
  | some n =>
      rw [Option.elim_some, List.append_assoc, List.cons_append]
      have hcount : ∀ c ∈ (',' :: (Nat.toDigits 10 n ++ rest)).head?, digits.isDigit c = false := by
        intro c hc
        rw [← Option.some.inj hc, digits.isDigit_of_ascii (by decide)]
        rfl
      dsimp only
      rw [takeWhile_number start hcount, if_neg Nat.toDigits_ne_nil, List.drop_left, digits.int_toDigits,
        List.drop_one, List.tail_cons, takeWhile_number n hstop, if_pos ⟨rfl, Nat.toDigits_ne_nil⟩]
      rw [List.drop_succ_cons, List.drop_left]

theorem readHunkHeader_header (hunk : Hunk) :
    readHunkHeader digits hunk.header = some (hunk.oldStart, hunk.newStart) := by
  have hnew : readRange digits
      (renderRange hunk.newStart hunk.newCount ++ (" @@".toList ++ hunk.heading))
        = some (hunk.newStart, " @@".toList ++ hunk.heading) := readRange_render _ _ rfl
  have hold : readRange digits (renderRange hunk.oldStart hunk.oldCount ++ (" +".toList ++
      (renderRange hunk.newStart hunk.newCount ++ (" @@".toList ++ hunk.heading))))
        = some (hunk.oldStart, " +".toList ++
          (renderRange hunk.newStart hunk.newCount ++ (" @@".toList ++ hunk.heading))) :=
    readRange_render _ _ rfl
  unfold readHunkHeader Hunk.header
  simp only [afterLiteral_append, Option.bind_eq_bind, Option.bind_some, hold, hnew]
  rfl

/-- The header sets the two numbers. -/
theorem readLine_header (c : DiffCursor) (hunk : Hunk) : c.readLine digits hunk.header
    = { c with oldLine := hunk.oldStart, newLine := hunk.newStart } := by
  unfold DiffCursor.readLine
  rw [readHunkHeader_header]
  rfl

/-! ## Files -/

variable (digits)

theorem readHunks_known (hunks : List Hunk) (h : ∀ hunk ∈ hunks, hunk.WellFormed) {c : DiffCursor}
    {path : Text} (hpath : c.path = some path) (hknown : (c.positions.get? path).isSome = true) :
    Adds c ((hunks.flatMap Hunk.render).foldl (DiffCursor.readLine digits) c) (some path) (fun _ => False)
      fun q position => q = path
        ∧ ∃ hunk ∈ hunks, Marks hunk.oldStart hunk.newStart hunk.lines position := by
  induction hunks generalizing c with
  | nil =>
      have hsame : Adds c c c.path (fun _ => False) fun _ _ => False := .same rfl
      rw [hpath] at hsame
      refine hsame.congr (fun _ => Iff.rfl) fun q position => ?_
      simp
  | cons hunk hunks ih =>
      rw [List.forall_mem_cons] at h
      rw [List.flatMap_cons, List.foldl_append, Hunk.render, List.foldl_cons, readLine_header]
      have hlines : Adds { c with oldLine := hunk.oldStart, newLine := hunk.newStart }
          ((hunk.lines.map DiffLine.render).foldl (DiffCursor.readLine digits)
            { c with oldLine := hunk.oldStart, newLine := hunk.newStart })
          (some path) (fun _ => False)
          fun q position => q = path ∧ Marks hunk.oldStart hunk.newStart hunk.lines position :=
        readLines_known hunk.lines h.1.lines hpath hknown
      have hstill := (hlines.known path).mpr (.inl hknown)
      have hall := hlines.trans (ih h.2 hlines.path hstill)
      refine ⟨hall.path, fun q => ?_, fun q position => ?_⟩
      · rw [hall.known, or_self_iff]
      · rw [hall.has, ← and_or_left]
        simp only [List.mem_cons, exists_eq_or_imp]
        rfl

theorem readHunks_gone (hunks : List Hunk) (h : ∀ hunk ∈ hunks, hunk.WellFormed) {c : DiffCursor}
    (hpath : c.path = none) :
    Adds c ((hunks.flatMap Hunk.render).foldl (DiffCursor.readLine digits) c) none (fun _ => False)
      fun _ _ => False := by
  induction hunks generalizing c with
  | nil => exact hpath ▸ .same rfl
  | cons hunk hunks ih =>
      rw [List.forall_mem_cons] at h
      have hlines : (hunk.lines.map DiffLine.render).foldl (DiffCursor.readLine digits)
          { c with oldLine := hunk.oldStart, newLine := hunk.newStart }
            = { c with oldLine := hunk.oldStart, newLine := hunk.newStart } :=
        readLines_gone hunk.lines h.1.lines hpath
      rw [List.flatMap_cons, List.foldl_append, Hunk.render, List.foldl_cons, readLine_header, hlines]
      have hall := ih (c := { c with oldLine := hunk.oldStart, newLine := hunk.newStart }) h.2 hpath
      exact ⟨hall.path, hall.known, hall.has⟩

theorem readPreamble (lines : List Text) (h : ∀ line ∈ lines, IsPreamble line) (c : DiffCursor) :
    lines.foldl (DiffCursor.readLine digits) c = c := by
  induction lines with
  | nil => rfl
  | cons line lines ih =>
      rw [List.forall_mem_cons] at h
      have hline : c.readLine digits line = c := by
        obtain ⟨_, hhead⟩ := h.1
        cases line with
        | nil =>
            rw [readLine_plain c rfl rfl (by simp)]
            cases c.path with
            | none => rfl
            | some path => rfl
        | cons d line =>
            obtain ⟨hplus, hminus, hblank, hat⟩ := hhead d rfl
            rw [readLine_plain c]
            · cases c.path with
              | none => rfl
              | some path =>
                  rw [Option.elim_some]
                  unfold DiffCursor.mark
                  split
                  · next heq => exact absurd (List.cons.inj heq).1 hplus
                  · next heq => exact absurd (List.cons.inj heq).1 hminus
                  · next heq => exact absurd (List.cons.inj heq).1 hblank
                  · rfl
            · show Text.startsWith (d :: line) ('+' :: "++ ".toList) = false
              rw [startsWith_cons, beq_false_of_ne (Ne.symm hplus), Bool.false_and]
            · show Text.startsWith (d :: line) ('-' :: "-- ".toList) = false
              rw [startsWith_cons, beq_false_of_ne (Ne.symm hminus), Bool.false_and]
            · rw [List.head?_cons]
              exact fun heq => hat (Option.some.inj heq)
      rw [List.foldl_cons, hline]
      exact ih h.2

/-- The name of the old file is passed over. -/
theorem readLine_old (c : DiffCursor) (name : Text) : c.readLine digits ("--- ".toList ++ name) = c := by
  unfold DiffCursor.readLine
  rw [if_neg (by simp [Text.startsWith]), if_pos (by simp [Text.startsWith])]

theorem readLine_gone (c : DiffCursor) :
    c.readLine digits ("+++ ".toList ++ "/dev/null".toList) = { c with path := none } := rfl

/-- A name that ends without white space is read back. -/
theorem strip_name {path : Text} (hpath : Text.rstrip path = path) :
    Text.strip ("b/".toList ++ path) = "b/".toList ++ path := by
  have hend : Text.rstrip ("b/".toList ++ path) = "b/".toList ++ path := by
    unfold Text.rstrip at hpath ⊢
    rw [List.rdropWhile_eq_self_iff] at hpath ⊢
    intro hne
    by_cases hnil : path = []
    · subst hnil
      show ¬ Text.isSpace '/' = true
      decide
    · rw [List.getLast_append_of_ne_nil hne hnil]
      exact hpath hnil
  rw [Text.strip_of_rstrip hend]
  rfl

theorem readLine_new (c : DiffCursor) {path : Text} (hpath : Text.rstrip path = path) :
    c.readLine digits ("+++ ".toList ++ ("b/".toList ++ path)) = { c with
      path := some path
      positions := if c.positions.contains path then c.positions else c.positions.set path ∅ } := by
  have hstart : Text.startsWith ("+++ ".toList ++ ("b/".toList ++ path)) "+++ ".toList = true := by
    simp [Text.startsWith]
  have hdrop : ("+++ ".toList ++ ("b/".toList ++ path)).drop 4 = "b/".toList ++ path := rfl
  unfold DiffCursor.readLine
  rw [if_pos hstart, hdrop, strip_name hpath]
  rfl

/-- The name of the new file puts it on record, without a place yet. -/
theorem adds_new (c : DiffCursor) (path : Text) :
    Adds c { c with
      path := some path
      positions := if c.positions.contains path then c.positions else c.positions.set path ∅ }
      (some path) (fun q => q = path) fun _ _ => False where
  path := rfl
  known := fun q => by
    dsimp only
    by_cases hknown : c.positions.contains path = true
    · rw [if_pos hknown]
      refine ⟨.inl, fun hq => hq.elim id fun heq => ?_⟩
      rw [heq]
      exact hknown
    · rw [if_neg hknown, Dict.get?_set]
      by_cases hq : path = q
      · simp [hq]
      · simp [hq, Ne.symm hq]
  has := fun q position => by
    unfold DiffCursor.Has
    dsimp only
    rw [or_false]
    by_cases hknown : c.positions.contains path = true
    · rw [if_pos hknown]
    · rw [if_neg hknown, Dict.get?_set]
      by_cases hq : path = q
      · subst hq
        have hnone : c.positions.get? path = none := by
          rw [Dict.contains, Bool.not_eq_true, Option.isSome_eq_false_iff, Option.isNone_iff_eq_none]
            at hknown
          exact hknown
        simp [hnone]
      · simp [hq]

theorem readFile (file : FileDiff) (h : file.WellFormed) (c : DiffCursor) :
    Adds c (file.render.foldl (DiffCursor.readLine digits) c) file.new (fun q => file.new = some q)
      fun q position => file.new = some q ∧ file.Shows position := by
  unfold FileDiff.render
  rw [List.foldl_append, readPreamble digits file.preamble h.preamble, List.foldl_cons, readLine_old,
    List.foldl_cons]
  cases hnew : file.new with
  | none =>
      rw [Option.elim_none, readLine_gone]
      have hall := readHunks_gone digits (c := { c with path := none }) file.hunks h.hunks rfl
      refine ⟨hall.path, fun q => ?_, fun q position => ?_⟩
      · rw [hall.known]
        simp
      · rw [hall.has]
        show c.Has q position ∨ False ↔ _
        simp
  | some path =>
      obtain ⟨_, hend⟩ := h.new path hnew
      rw [Option.elim_some, readLine_new digits c hend]
      have hnamed := adds_new c path
      have hhunks := readHunks_known digits file.hunks h.hunks hnamed.path
        ((hnamed.known path).mpr (.inr rfl))
      refine (hnamed.trans hhunks).congr (fun q => ?_) fun q position => ?_
      · rw [or_false, Option.some.injEq]
        exact eq_comm
      · rw [false_or, Option.some.injEq]
        exact and_congr_left' eq_comm

/-! ## Whole diffs -/

theorem readFiles (files : List FileDiff) (h : ∀ file ∈ files, file.WellFormed) (c : DiffCursor) :
    ∃ path, Adds c ((files.flatMap FileDiff.render).foldl (DiffCursor.readLine digits) c) path
      (fun q => ∃ file ∈ files, file.new = some q)
      fun q position => ∃ file ∈ files, file.new = some q ∧ file.Shows position := by
  induction files generalizing c with
  | nil =>
      have hsame : Adds c c c.path (fun _ => False) fun _ _ => False := .same rfl
      exact ⟨c.path, hsame.congr (by simp) (by simp)⟩
  | cons file files ih =>
      rw [List.forall_mem_cons] at h
      rw [List.flatMap_cons, List.foldl_append]
      have hfile := readFile digits file h.1 c
      obtain ⟨path, hrest⟩ := ih h.2 (file.render.foldl (DiffCursor.readLine digits) c)
      exact ⟨path, (hfile.trans hrest).congr (by simp) (by simp)⟩

theorem noBreak_toList {literal : String} (h : literal.toList.any Text.isLineBreak = false) :
    Text.NoBreak literal.toList := by
  intro c hc
  have hnone := List.any_eq_false.mp h c hc
  simpa using hnone

theorem noBreak_renderRange (start : Nat) (count : Option Nat) : Text.NoBreak (renderRange start count) := by
  have hnumber : ∀ n, Text.NoBreak (Nat.toDigits 10 n) := by
    intro n c hc
    have hrange := alphanum_range (isAlphanum_of_isDigit (JsonText.isDigit_of_mem_toDigits hc))
    simp only [Text.isLineBreak, Bool.or_eq_false_iff, Bool.and_eq_false_iff, decide_eq_false_iff_not,
      beq_eq_false_iff_ne]
    omega
  unfold renderRange
  refine (hnumber start).append ?_
  cases count with
  | none => exact fun c hc => absurd hc List.not_mem_nil
  | some n => exact .cons (by decide) (hnumber n)

theorem noBreak_diffLine {line : DiffLine} (h : line.WellFormed) : Text.NoBreak line.render := by
  cases line with
  | context text => exact .cons (by decide) h
  | added text => exact .cons (by decide) h.1
  | removed text => exact .cons (by decide) h.1
  | note text => exact .cons (by decide) h

theorem noBreak_hunk {hunk : Hunk} (h : hunk.WellFormed) : ∀ line ∈ hunk.render, Text.NoBreak line := by
  unfold Hunk.render
  rw [List.forall_mem_cons]
  refine ⟨?_, fun line hline => ?_⟩
  · exact (noBreak_toList (by decide)).append ((noBreak_renderRange _ _).append
      ((noBreak_toList (by decide)).append ((noBreak_renderRange _ _).append
        ((noBreak_toList (by decide)).append h.heading))))
  · obtain ⟨line, hmem, rfl⟩ := List.mem_map.mp hline
    exact noBreak_diffLine (h.lines line hmem)

theorem noBreak_name {name : Option Text} {start : String}
    (hstart : start.toList.any Text.isLineBreak = false) (h : ∀ path ∈ name, Text.NoBreak path) :
    Text.NoBreak (name.elim "/dev/null".toList fun path => start.toList ++ path) := by
  cases name with
  | none => exact noBreak_toList (by decide)
  | some path => exact (noBreak_toList hstart).append (h path rfl)

theorem noBreak_file {file : FileDiff} (h : file.WellFormed) :
    ∀ line ∈ file.render, Text.NoBreak line := by
  unfold FileDiff.render
  rw [List.forall_mem_append, List.forall_mem_cons, List.forall_mem_cons]
  refine ⟨fun line hline => (h.preamble line hline).1, ?_, ?_, fun line hline => ?_⟩
  · exact (noBreak_toList (by decide)).append (noBreak_name (by decide) h.old)
  · exact (noBreak_toList (by decide)).append
      (noBreak_name (by decide) fun path hpath => (h.new path hpath).1)
  · obtain ⟨hunk, hmem, hin⟩ := List.mem_flatMap.mp hline
    exact noBreak_hunk (h.hunks hunk hmem) line hin

theorem splitlines_lines (lines : List Text) (h : ∀ line ∈ lines, Text.NoBreak line) :
    Text.splitlines (lines.flatMap fun line => line ++ ['\n']) = lines := by
  induction lines with
  | nil => rfl
  | cons line lines ih =>
      rw [List.forall_mem_cons] at h
      rw [List.flatMap_cons, List.append_assoc, List.singleton_append, Text.splitlines_append_newline h.1,
        ih h.2]

/-- The places read of a diff are the places its files show. -/
theorem reads_render (files : List FileDiff) (h : ∀ file ∈ files, file.WellFormed) (q : Text) :
    (((validReviewPositions digits (renderDiff files)).get? q).isSome = true
        ↔ ∃ file ∈ files, file.new = some q)
      ∧ ∀ position, (∃ positions ∈ (validReviewPositions digits (renderDiff files)).get? q,
          position ∈ positions) ↔ ∃ file ∈ files, file.new = some q ∧ file.Shows position := by
  have hlines : ∀ line ∈ files.flatMap FileDiff.render, Text.NoBreak line := by
    intro line hline
    obtain ⟨file, hmem, hin⟩ := List.mem_flatMap.mp hline
    exact noBreak_file (h file hmem) line hin
  obtain ⟨path, hall⟩ := readFiles digits files h {}
  unfold validReviewPositions renderDiff
  rw [splitlines_lines _ hlines]
  refine ⟨(hall.known q).trans (or_iff_right ?_), fun position =>
    (hall.has q position).trans (or_iff_right ?_)⟩
  · simp [Dict.get?]
  · simp [DiffCursor.Has, Dict.get?]

/-! ## The filter -/

theorem strip_ne_nil {t : Text} {c : Char} (h : c ∈ t) (hc : Text.isSpace c = false) :
    Text.strip t ≠ [] := by
  intro hnil
  unfold Text.strip Text.rstrip at hnil
  rw [List.rdropWhile_eq_nil_iff] at hnil
  have hsplit : t.takeWhile Text.isSpace ++ Text.lstrip t = t := List.takeWhile_append_dropWhile
  rw [← hsplit, List.mem_append] at h
  rcases h with h | h
  · rw [List.mem_takeWhile_imp h] at hc
    cases hc
  · rw [hnil c h] at hc
    cases hc

theorem strip_renderDiff {files : List FileDiff} (h : files ≠ []) : Text.strip (renderDiff files) ≠ [] := by
  obtain ⟨file, files, rfl⟩ := List.exists_cons_of_ne_nil h
  have hname : ("--- ".toList ++ file.old.elim "/dev/null".toList fun path => "a/".toList ++ path)
      ∈ (file :: files).flatMap FileDiff.render := by
    unfold FileDiff.render
    simp
  have hdash : '-' ∈ renderDiff (file :: files) := by
    refine List.mem_flatMap.mpr ⟨_, hname, ?_⟩
    simp
  exact strip_ne_nil hdash (by decide)

/-- A file whose fourth line was replaced. -/
def replacedLine : FileDiff where
  preamble := ["diff --git a/f.py b/f.py".toList]
  old := some "f.py".toList
  new := some "f.py".toList
  hunks := [{
    oldStart := 3, oldCount := some 2, newStart := 3, newCount := some 2, heading := []
    lines := [.context "x".toList, .removed "y".toList, .added "z".toList] }]

def commentOn (line : Int) (side : String) : ReviewComment where
  path := some "f.py".toList
  line := some line
  side := some side.toList

end Hephaestus.Automation
