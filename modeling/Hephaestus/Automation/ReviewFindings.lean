import Hephaestus.Lib.Json
import Hephaestus.Lib.JsonText
import Hephaestus.Lib.Regex

/-!
# Review findings

A reviewer's finding is text about one line of a pull request. Before it is
published it is normalized: what it says must be about a place, of a known
severity and free of the controls the pipeline keeps for itself. The publisher
then decorates the text, with the role of its author in front and a severity
marker behind, and for a finding that asks to take changes back also the paths
it is about. Before a later round publishes again, each finding is compared by
a key with the threads that are open, and the key undoes the decoration.
-/

namespace Hephaestus.Automation

open Hephaestus.Lib

/-! ## Controls of the pipeline -/

/-- `[\s-]`. -/
def isSpaceOrDash (c : Char) : Bool :=
  Text.isSpace c || c == '-'

/-- `\s*`. -/
def spaces : Regex := .star Text.isSpace

/-- `[^\r\n]*`. -/
def restOfLine : Regex := .star fun c => !(c == '\r' || c == '\n')

/-- `_SCOPE_ACTION_RE`. -/
def scopeAction : Regex :=
  .concat [.boundary,
    .oneOf [.word "drop".toList, .word "remove".toList, .word "split".toList], .boundary]

/-- `_SCOPE_BOUNDARY_RE`. -/
def scopeBoundary : Regex :=
  .concat [.boundary,
    .oneOf [.word "unrelated".toList,
      .concat [.word "out".toList, .star isSpaceOrDash, .word "of".toList, .star isSpaceOrDash,
        .word "scope".toList]],
    .boundary]

/-- `_SEVERITY_MARKER_RE`. -/
def severityMarker : Regex :=
  .concat [.lineStart, .star fun c => c == ' ' || c == '\t', .literal "<!--".toList, spaces,
    .word "hephaestus-severity".toList, spaces, .chars (· == ':')]

/-- `_STANDALONE_VERDICT_LINE_RE`, for `match`. -/
def standaloneVerdictLine : Regex :=
  .seq spaces (.seq (.word "verdict".toList) (.seq spaces (.chars (· == ':'))))

/-- The first alternative of `_RESERVED_AUTHORITY_CLAIM_RE`. -/
def colonClaim : Regex :=
  .seq .boundary (.seq
    (.oneOf [.word "verdict".toList, .word "decision".toList, .word "approval".toList,
      .word "rejection".toList])
    (.seq spaces (.seq (.chars (· == ':')) (.seq spaces restOfLine))))

/-- The second alternative. -/
def approvalClaim : Regex :=
  .concat [.boundary, .word "implementation".toList,
    .plus fun c => Text.isSpace c || c == '_' || c == '-',
    .oneOf [.word "approval".toList, .word "rejection".toList], .boundary, restOfLine]

/-- The third alternative. -/
def outcomeClaim : Regex :=
  .concat [.boundary, .word "implementation".toList, .plus Text.isSpace,
    .opt (.seq (.word "is".toList) (.plus Text.isSpace)),
    .oneOf [.word "approved".toList, .word "rejected".toList, .word "go".toList,
      .concat [.word "no".toList, .opt (.chars isSpaceOrDash), .word "go".toList],
      .word "nogo".toList],
    .boundary, restOfLine]

/-- The fourth alternative, the only one that stops before the end of the line. -/
def stateClaim : Regex :=
  .concat [.boundary, .word "state".toList, spaces, .chars (· == ':'), spaces,
    .word "implementation-".toList, .opt (.word "no-".toList), .word "go".toList,
    .opt (.seq (.plus Text.isSpace) (.word "applied".toList)), .boundary]

/-- `_RESERVED_AUTHORITY_CLAIM_RE`. -/
def reservedAuthorityClaim : Regex :=
  .oneOf [colonClaim, approvalClaim, outcomeClaim, stateClaim]

/-- `SCOPE_RETRACTION_MARKER_PREFIX`. -/
def scopeRetractionMarkerPrefix : Text := "<!-- hephaestus-scope-retraction-paths:".toList

/-- `SEVERITY_MARKER_PREFIX`. -/
def severityMarkerPrefix : Text := "<!-- hephaestus-severity:".toList

/-- `has_reserved_finding_control`. -/
def hasReservedFindingControl (u : Text.Unicode) (body : Text) : Bool :=
  Regex.search u severityMarker body || Text.contains scopeRetractionMarkerPrefix body
    || Regex.search u reservedAuthorityClaim body

/-! ## Scope retraction -/

/-- `is_scope_retraction_finding`. -/
def isScopeRetractionFinding (u : Text.Unicode) (body : Text) : Bool :=
  Regex.search u scopeAction body && Regex.search u scopeBoundary body

/-- `PurePosixPath(path).parts` of a relative path. -/
def pathParts (path : Text) : List Text :=
  (path.splitOn '/').filter fun part => part ≠ [] ∧ part ≠ ['.']

/-- `is_safe_scope_retraction_path` of a string. -/
def isSafeScopeRetractionPath (path : Text) : Bool :=
  !(path = [] || path = ['.'] || Text.startsWith path ['/'] || Text.startsWith path ['.', '/']
      || Text.startsWith path [':']
      -- a backslash, a back quote (96) or a control character
      || path.any fun c => c == '\\' || c.toNat == 96 || c.toNat < 32 || c.toNat == 127)
    && !(pathParts path).contains ['.', '.']

/-- Python's order of strings. -/
def textLe (a b : Text) : Bool :=
  !Text.sortsBefore b a

/-- `normalize_scope_retraction_paths`. -/
def normalizeScopeRetractionPaths (value : Option Json) : Option (List Text) :=
  match value with
  | some (.arr items) =>
      if items.isEmpty then none
      else
        match items.mapM Json.asStr? with
        | none => none
        | some paths =>
            let paths := paths.map String.toList
            if paths.all isSafeScopeRetractionPath then some (paths.dedup.mergeSort textLe)
            else none
  | _ => none

/-- `scope_retraction_marker` of paths that are already normalized. -/
def scopeRetractionMarker (paths : List Text) : Text :=
  scopeRetractionMarkerPrefix ++ (' ' :: (JsonText.dumpsStrs paths ++ " -->".toList))

/-! ## Normalizing -/

/-- `VALID_SEVERITIES`. -/
def validSeverities : List Text :=
  ["critical".toList, "major".toList, "minor".toList, "nitpick".toList]

/-- A normalized finding. The side is always `"RIGHT"`. -/
structure Finding where
  path : Text
  line : Int
  severity : Text
  body : Text
  scopeRetractionPaths : List Text
  deriving DecidableEq

/-- A string value. -/
def jsonText (t : Text) : Json :=
  .str (String.ofList t)

/-- The dictionary of a finding. -/
def Finding.asDict (f : Finding) : Json :=
  .obj ([("path", jsonText f.path), ("line", .int f.line), ("side", .str "RIGHT"),
      ("severity", jsonText f.severity), ("body", jsonText f.body)]
    ++ if f.scopeRetractionPaths.isEmpty then []
      else [("scope_retraction_paths", .arr (f.scopeRetractionPaths.map jsonText))])

/-- `_normalize_finding`. -/
def normalizeFinding (u : Text.Unicode) (comment : Json) : Option Finding :=
  match comment.get? "path", comment.get? "line", comment.get? "side", comment.get? "severity",
      comment.get? "body" with
  | some (.str path), some (.int line), some (.str side), some (.str severity),
      some (.str body) =>
      let path := path.toList
      let severity := u.lower severity.toList
      let body := body.toList
      let paths := comment.get? "scope_retraction_paths"
      if Text.strip path = [] ∨ line < 1 ∨ side ≠ "RIGHT" ∨ severity ∉ validSeverities
          ∨ Text.strip body = [] ∨ hasReservedFindingControl u body = true then none
      else if isScopeRetractionFinding u body then
        match normalizeScopeRetractionPaths paths with
        | none => none
        | some paths =>
            some { path := Text.strip path, line := line, severity := "major".toList
                   body := Text.strip body, scopeRetractionPaths := paths }
      else
        match paths with
        | some .null | none =>
            some { path := Text.strip path, line := line, severity := severity
                   body := Text.strip body, scopeRetractionPaths := [] }
        | some _ => none
  | _, _, _, _, _ => none

/-- A result of `_normalize_finding`. -/
def ValidFinding (u : Text.Unicode) (f : Finding) : Prop :=
  ∃ comment, normalizeFinding u comment = some f

/-! ## Publishing -/

/-- `"[Review] "`. -/
def reviewPrefix : Text := "[Review] ".toList

/-- A line that starts with `start` after white space. -/
def lineStarts (start line : Text) : Bool :=
  Text.startsWith (Text.strip line) start

/-- The lines `_with_severity_marker` keeps. -/
def keptForPublication (u : Text.Unicode) (line : Text) : Bool :=
  !lineStarts severityMarkerPrefix line && !lineStarts scopeRetractionMarkerPrefix line
    && !Regex.matchesStart u standaloneVerdictLine line

/-- The severity of a comment as published: unknown ones count as `major`. -/
def publishedSeverity (u : Text.Unicode) (severity : Option Json) : Text :=
  match severity with
  | some (.str severity) =>
      let severity := u.lower (Text.strip severity.toList)
      if severity ∈ validSeverities then severity else "major".toList
  | _ => "major".toList

/-- The severity marker line. -/
def severityLine (severity : Text) : Text :=
  severityMarkerPrefix ++ (' ' :: (severity ++ " -->".toList))

/-- `_with_severity_marker` of a comment whose body is a string. -/
def withSeverityMarker (u : Text.Unicode) (comment : Json) : Text :=
  let body := match comment.get? "body" with
    | some (.str body) => body.toList
    | _ => []
  let body := Text.joinLines ((Text.splitlines body).filter (keptForPublication u))
  let body := Text.removePrefix reviewPrefix body
  let markers := severityLine (publishedSeverity u (comment.get? "severity")) ::
    match normalizeScopeRetractionPaths (comment.get? "scope_retraction_paths") with
    | some paths => [scopeRetractionMarker paths]
    | none => []
  Text.joinLines ((reviewPrefix ++ body) :: markers)

/-! ## Keys -/

/-- `"[Review]"`. -/
def reviewTag : Text := "[Review]".toList

/-- `"Reopened (prior round, still unaddressed):"`. -/
def reopenedTag : Text := "Reopened (prior round, still unaddressed):".toList

/-- `re.sub(r"^tag\s*", "", body)` of a literal tag. -/
def stripTag (tag body : Text) : Text :=
  if Text.startsWith body tag then Text.lstrip (body.drop tag.length) else body

/-- The lines `_finding_key` keeps. -/
def keptForKey (line : Text) : Bool :=
  !lineStarts severityMarkerPrefix line

/-- The body without the lines of severity markers. -/
def unmarkedBody (body : Text) : Text :=
  Text.joinLines ((Text.splitlines body).filter keptForKey)

/-- What the key keeps of an unmarked body. -/
def keyText (u : Text.Unicode) (body : Text) : Text :=
  u.foldText (Text.collapse (Text.strip (stripTag reopenedTag (stripTag reviewTag body))))

/-- A key of `_finding_key`. -/
structure FindingKey where
  path : Text
  line : Int
  side : Text
  body : Text
  deriving DecidableEq

/-- `_finding_key`. -/
def findingKey (u : Text.Unicode) (thread : Json) : Option FindingKey :=
  match thread.get? "path", thread.get? "line", thread.get? "side", thread.get? "body" with
  | some (.str path), some (.int line), some (.str side), some (.str body) =>
      if line ≤ 0 then none
      else
        some { path := Text.strip path.toList, line := line
               side := u.upper (Text.strip side.toList)
               body := keyText u (unmarkedBody body.toList) }
  | _, _, _, _ => none

/-- A finding that names a live thread as the one it is about. -/
def answersLiveThread (liveThreads : Dict String Json) (finding : Json) : Bool :=
  match finding.get? "prior_thread_id" with
  | some (.str id) => (Dict.get? liveThreads id).isSome
  | _ => false

/-- The loop of `_without_duplicate_live_findings`. -/
def retainNew (u : Text.Unicode) (liveThreads : Dict String Json) (existing : List FindingKey) :
    List Json → List Json
  | [] => []
  | finding :: rest =>
      if answersLiveThread liveThreads finding then
        retainNew u liveThreads existing rest
      else
        match findingKey u finding with
        | some key =>
            if key ∈ existing then retainNew u liveThreads existing rest
            else finding :: retainNew u liveThreads (key :: existing) rest
        | none => finding :: retainNew u liveThreads existing rest

/-- `_without_duplicate_live_findings`. -/
def withoutDuplicateLiveFindings (u : Text.Unicode) (findings : List Json)
    (liveThreads : Dict String Json) : List Json :=
  retainNew u liveThreads (liveThreads.filterMap fun thread => findingKey u thread.2) findings

end Hephaestus.Automation
