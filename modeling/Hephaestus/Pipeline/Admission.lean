import Mathlib.Data.Finset.Union
import Hephaestus.Lib.Pattern

/-!
# The files of a plan

Two parsers read the same plan. `_parse_planned_files` gives what an item
reserves while it is implemented: every path in backticks, from a heading
"Files to Modify" or "Files to Create" on. `parse_publication_scope_files`
gives what the item may publish: the paths its sections declare at the start
of a line, and nothing at all once one of them is not safe. They differ in
where a line ends, in what opens and what closes a section, in code fences
and in what a path may look like.
-/

namespace Hephaestus.Pipeline

open Hephaestus.Lib

variable (u : Text.Unicode)

/-! ## What a plan reserves -/

/-- `[A-Za-z0-9_]`. -/
def isNameChar (c : Char) : Bool :=
  c.isAlphanum || c == '_'

/-- A name character, or one of `.`, `-` and the slash. -/
def isPathChar (c : Char) : Bool :=
  isNameChar c || c == '.' || c == '/' || c == '-'

/-- `[ \t]`. -/
def isBlank (c : Char) : Bool :=
  c == ' ' || c == '\t'

/-- The path in `_PLAN_FILE_RE`. -/
def planPath : Pattern :=
  .concat [.chars isNameChar, .star isPathChar, .chars (· == '/'), .plus isPathChar,
    .chars (· == '.'), .plus isNameChar]

/-- `_PLAN_FILE_RE`. -/
def planFileRe : Pattern :=
  .seq (.chars (· == '\x60')) (.seq (.group 1 planPath) (.chars (· == '\x60')))

/-- `_PLAN_FILE_SECTION_RE`. -/
def planFileSectionRe : Pattern :=
  .seq (.chars (· == '#')) (.seq (.plus (· == '#')) (.seq (.plus Text.isSpace)
    (.seq (.word "Files to ".toList)
      (.seq (.group 1 (.alt (.word "Modify".toList) (.word "Create".toList))) .boundary))))

/-- Whether a line opens a section of `_parse_planned_files`. -/
def opensReservation (line : Text) : Bool :=
  (planFileSectionRe.match? u line).isSome

/-- `_PLAN_FILE_RE.findall(line)`. -/
def quotedPaths (line : Text) : List Text :=
  (planFileRe.findall u line).filterMap fun e => e.group? 1

/-- The loop of `_parse_planned_files`. -/
def plannedLoop : Bool → Finset Text → List Text → Finset Text
  | _, files, [] => files
  | inSection, files, line :: lines =>
      if opensReservation u line then plannedLoop true files lines
      else
        let inSection := if Text.startsWith line "## ".toList then false else inSection
        if inSection then plannedLoop inSection (files ∪ (quotedPaths u line).toFinset) lines
        else plannedLoop inSection files lines

/-- `_parse_planned_files`. -/
def parsePlannedFiles (planBody : Text) : Finset Text :=
  plannedLoop u false ∅ (Text.splitlines planBody)

/-! ## What a plan may publish -/

/-- `PurePosixPath(path).parts` of a relative path. -/
def pathParts (path : Text) : List Text :=
  (path.splitOn '/').filter fun part => !part.isEmpty && part != ['.']

/-- `is_safe_scope_retraction_path`. -/
def isSafeScopeRetractionPath (path : Text) : Bool :=
  if path.isEmpty || path == ['.'] || Text.startsWith path ['/']
      || Text.startsWith path "./".toList || Text.startsWith path [':']
      || List.contains path '\x5c' || List.contains path '\x60'
      || path.any fun c => c.toNat < 32 || c.toNat == 127 then false
  else !(pathParts path).contains ['.'] && !(pathParts path).contains "..".toList

/-- What a code fence begins with: three backticks or tildes, or more. -/
def fenceRe : Pattern :=
  .group 1 (.alt (.seq (.exactly (· == '\x60') 3) (.star (· == '\x60')))
    (.seq (.exactly (· == '~') 3) (.star (· == '~'))))

/-- `t.strip(c)`. -/
def stripChar (c : Char) (t : Text) : Text :=
  (t.dropWhile (· == c)).rdropWhile (· == c)

/-- Whether a stripped line ends a fence. -/
def closesFence (fence stripped : Text) : Bool :=
  Text.startsWith stripped fence &&
    (stripChar (fence.headD ' ') (stripped.drop fence.length)).isEmpty

/-- `^#{1,2}(?:[ \t]|$)`. -/
def topHeadingRe : Pattern :=
  .seq (.between (· == '#') 1 1) (.alt (.chars isBlank) .finish)

/-- The headings of the sections that declare files. -/
def scopeHeadingRe : Pattern :=
  .seq (.exactly (· == '#') 2) (.seq (.plus isBlank)
    (.seq (.alt (.seq (.word "Files to ".toList) (.alt (.word "Modify".toList) (.word "Create".toList)))
      (.word "File Changes".toList)) (.star isBlank)))

/-- What a declaration may begin with: a list marker, a sub-heading, the bar of
a table row. -/
def markerRe : Pattern :=
  .alt
    (.seq
      (.alt (.chars fun c => c == '-' || c == '*' || c == '+')
        (.alt (.seq (.plus Char.isDigit) (.chars fun c => c == '.' || c == ')'))
          (.between (· == '#') 3 3)))
      (.plus isBlank))
    (.seq (.chars (· == '|')) (.star isBlank))

/-- `re.sub(marker, "", t)`; the pattern begins with `^`. -/
def dropMarker (t : Text) : Text :=
  match markerRe.match? u t with
  | some e => e.rest
  | none => t

/-- The text in backticks a declaration begins with. -/
def tokenRe : Pattern :=
  .seq (.chars (· == '\x60')) (.seq (.group 1 (.star (· != '\x60'))) (.chars (· == '\x60')))

/-- What the loop of `parse_publication_scope_files` carries; `fence` is empty
outside code fences. -/
structure ScopeScan where
  files : Finset Text := ∅
  inSection : Bool := false
  fence : Text := []

/-- One turn of the loop. Nothing is returned where the function returns the
empty set at once. -/
def scopeTurn (scan : ScopeScan) (line : Text) : Option ScopeScan :=
  let stripped := Text.strip line
  if !scan.fence.isEmpty then
    if closesFence scan.fence stripped then some { scan with fence := [] } else some scan
  else
    match fenceRe.match? u stripped with
    | some e => some { scan with fence := (e.group? 1).getD [] }
    | none =>
        if (topHeadingRe.match? u line).isSome then
          some { scan with inSection := (scopeHeadingRe.fullMatch? u line).isSome }
        else if !scan.inSection then some scan
        else
          let declaration := Text.lstrip (dropMarker u stripped)
          if !Text.startsWith declaration ['\x60'] then some scan
          else
            match (tokenRe.match? u declaration).bind fun e => e.group? 1 with
            | none => none
            | some token =>
                if isSafeScopeRetractionPath token then
                  some { scan with files := insert token scan.files }
                else none

/-- `parse_publication_scope_files`. -/
def parsePublicationScopeFiles (planBody : Text) : Finset Text :=
  match (planBody.splitOn '\n').foldlM (scopeTurn u) {} with
  | some scan => scan.files
  | none => ∅

end Hephaestus.Pipeline
