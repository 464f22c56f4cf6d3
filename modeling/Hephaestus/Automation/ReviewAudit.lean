import Hephaestus.Lib.JsonCodec
import Hephaestus.Automation.MergeWaitCycle
import Hephaestus.Automation.ReviewFindings

/-!
# Review audits

A reviewer answers in prose with one JSON object in it. The audit is what is
left of the answer after the object was checked field by field: the grade, the
verdict, the findings and two texts of the reviewer's, a summary and the prose
around the object, both bounded and free of claims of authority. The audit of a
clean `GO` is published as a comment, and its summary is sanitized once more on
the way out.

Scope expansions are checked by a module of their own. Nothing here looks into
one, so that check is a parameter.
-/

namespace Hephaestus.Automation

open Hephaestus.Lib

/-! ## The object in the response -/

/-- `[ \t]`. -/
def isMargin (c : Char) : Bool :=
  c == ' ' || c == '\t'

/-- `_JSON_BLOCK_RE` up to its content. -/
def blockOpening : Regex :=
  .concat [.lineStart, .star isMargin, .word "```json".toList, .star isMargin,
    .opt (.chars (· == '\r')), .chars (· == '\n')]

/-- `_JSON_BLOCK_RE` after its content, but for the `$`. -/
def blockClosing : Regex :=
  .concat [.opt (.chars (· == '\r')), .chars (· == '\n'), .lineStart, .star isMargin,
    .literal "```".toList, .star isMargin]

/-- `$` with `re.MULTILINE`. -/
def atLineEnd (rest : Text) : Bool :=
  rest.head?.all (· == '\n')

/-- A match of the closing part. -/
def closeBlock (u : Text.Unicode) (before : Option Char) (t : Text) : Option (Option Char × Text) :=
  (Regex.ends u blockClosing before t).find? fun e => atLineEnd e.2

/-- `(.*?)` and the closing part: the content, and where the match ends. -/
def readBlock (u : Text.Unicode) (before : Option Char) : Text → Option (Text × Option Char × Text)
  | [] => (closeBlock u before []).map fun e => ([], e)
  | c :: rest =>
      match closeBlock u before (c :: rest) with
      | some e => some ([], e)
      | none => (readBlock u (some c) rest).map fun block => (c :: block.1, block.2)

/-- A match of `_JSON_BLOCK_RE` at a position. -/
def matchBlock (u : Text.Unicode) (before : Option Char) (t : Text) :
    Option (Text × Option Char × Text) :=
  (Regex.ends u blockOpening before t).findSome? fun e => readBlock u e.1 e.2

/-- A match of `_JSON_BLOCK_RE` and the text around it. -/
structure JsonBlock where
  /-- `source[: match.start()]`. -/
  before : Text
  /-- `match.group(1)`. -/
  content : Text
  /-- The last character of the match. -/
  last : Option Char
  /-- `source[match.end() :]`. -/
  after : Text
  deriving DecidableEq

/-- `_JSON_BLOCK_RE.search`, from a position on. -/
def searchBlock (u : Text.Unicode) (before : Option Char) : Text → Option JsonBlock
  | [] => (matchBlock u before []).map fun m => ⟨[], m.1, m.2.1, m.2.2⟩
  | c :: rest =>
      match matchBlock u before (c :: rest) with
      | some m => some ⟨[], m.1, m.2.1, m.2.2⟩
      | none =>
          (searchBlock u (some c) rest).map fun block => { block with before := c :: block.before }

/-- `t.startswith("\x7b") and t.endswith("\x7d")` of the stripped text. -/
def isObjectText (t : Text) : Bool :=
  Text.startsWith (Text.strip t) ['\x7b'] && (Text.strip t).getLast? == some '\x7d'

/-- `json.loads` where only a dictionary is wanted. -/
def loadsObject (floats : JsonText.FloatText) (t : Text) : Option Json :=
  match JsonText.loads floats JsonText.keepLast t with
  | some (.obj fields) => some (.obj fields)
  | _ => none

/-- `_response_payload` of a string. -/
def textPayload (floats : JsonText.FloatText) (u : Text.Unicode) (response : Text) :
    Text × Option Json :=
  match searchBlock u none response with
  | some block =>
      if (searchBlock u block.last block.after).isSome then (response, none)
      else (response, loadsObject floats (Text.strip block.content))
  | none =>
      if isObjectText response then (response, loadsObject floats (Text.strip response))
      else (response, none)

/-- What the agent returned: its text, or a dictionary. -/
inductive AgentResponse
  | text (response : Text)
  | mapping (fields : Dict String Json)

/-- `_response_payload`. -/
def responsePayload (floats : JsonText.FloatText) (py : PyText) : AgentResponse → Text × Option Json
  | .text response => textPayload floats py.toUnicode response
  | .mapping fields =>
      if ((Dict.get? fields "is_error").map Json.truthy).getD false then
        (py.orEmpty (Dict.get? fields "result"), none)
      else
        match Dict.get? fields "result" with
        | some (.str result) => textPayload floats py.toUnicode result.toList
        | _ => ([], some (.obj fields))

/-! ## The texts of the reviewer -/

/-- `MAX_REVIEW_SUMMARY_CHARS`. -/
def maxReviewSummaryChars : Nat := 200

/-- `MAX_RAW_FEEDBACK_CHARS`. -/
def maxRawFeedbackChars : Nat := 4000

/-- `_INVALID_SUMMARY`. -/
def invalidSummary : Text := "No structured reviewer summary was provided.".toList

/-- One character of `escape(..., quote=False)`. -/
def escapeHtmlChar (c : Char) : Text :=
  if c = '&' then "&amp;".toList
  else if c = '<' then "&lt;".toList
  else if c = '>' then "&gt;".toList
  else [c]

/-- `escape(t, quote=False)`. -/
def escapeHtml (t : Text) : Text :=
  t.flatMap escapeHtmlChar

/-- The bound on an escaped summary. -/
def boundSummary (escaped : Text) : Text :=
  if escaped.length ≤ maxReviewSummaryChars then escaped
  else Text.rstrip (escaped.take (maxReviewSummaryChars - 3)) ++ "...".toList

/-- `_sanitize_summary`. -/
def sanitizeSummary (u : Text.Unicode) (summary : Text) : Text :=
  let compact := Text.collapse (Text.strip (Regex.delete u reservedAuthorityClaim summary))
  if compact = [] then invalidSummary else boundSummary (escapeHtml compact)

/-- The bound on supplemental prose. -/
def boundFeedback (feedback : Text) : Text :=
  if feedback.length ≤ maxRawFeedbackChars then feedback
  else Text.rstrip (feedback.take (maxRawFeedbackChars - 15)) ++ "... [truncated]".toList

/-- The prose around the object. -/
def surroundingProse (u : Text.Unicode) (source : Text) (hasPayload : Bool) : Text :=
  match if hasPayload then searchBlock u none source else none with
  | some block =>
      List.intercalate "\n\n".toList
        ([Text.strip block.before, Text.strip block.after].filter fun piece => piece ≠ [])
  | none => Text.strip source

/-- `_bounded_feedback`. -/
def boundedFeedback (u : Text.Unicode) (source : Text) (payload : Option Json) : Text :=
  if payload.isSome ∧ (source = [] ∨ isObjectText source = true) then []
  else if source = [] then []
  else
    boundFeedback (Text.strip (Regex.delete u reservedAuthorityClaim
      (surroundingProse u source payload.isSome)))

/-! ## The audit -/

/-- `ReviewVerdict`. -/
inductive ReviewVerdict
  | go
  | nogo
  | blocked
  deriving DecidableEq, Repr

/-- `_VALID_VERDICTS`. -/
def ReviewVerdict.ofText (t : Text) : Option ReviewVerdict :=
  if t = "GO".toList then some .go
  else if t = "NOGO".toList then some .nogo
  else if t = "BLOCKED".toList then some .blocked
  else none

/-- The text of a verdict. -/
def ReviewVerdict.text : ReviewVerdict → String
  | .go => "GO"
  | .nogo => "NOGO"
  | .blocked => "BLOCKED"

/-- `ScopeExpansion`. -/
structure ScopeExpansion where
  title : Text
  reason : Text
  sourcePath : Text
  sourceLine : Int
  requiredPaths : List Text
  acceptanceCriteria : List Text
  deriving DecidableEq

/-- `ReviewAudit`. -/
structure ReviewAudit where
  grade : Option Text
  summary : Text
  findings : List Finding
  rawFeedback : Text
  valid : Bool
  verdict : Option ReviewVerdict
  scopeExpansions : List ScopeExpansion
  deriving DecidableEq

/-- `is_clean_go_review`. -/
def isCleanGoReview (audit : ReviewAudit) : Bool :=
  audit.valid && audit.verdict == some .go && audit.findings.isEmpty
    && audit.scopeExpansions.isEmpty

/-- `_invalid_audit`. -/
def invalidAudit (rawFeedback : Text) : ReviewAudit where
  grade := none
  summary := invalidSummary
  findings := []
  rawFeedback := rawFeedback
  valid := false
  verdict := none
  scopeExpansions := []

/-- `_VALID_GRADES`. -/
def validGrades : List Text :=
  ["A".toList, "B".toList, "C".toList, "D".toList, "E".toList, "F".toList]

/-- What the checks of `parse_review_audit` run with. -/
structure AuditReader where
  floats : JsonText.FloatText
  py : PyText
  /-- `normalize_scope_expansions`. -/
  normalizeScopeExpansions : Option Json → Option (List ScopeExpansion)

/-- `isinstance(value, list)`. -/
def listItems : Json → Option (List Json)
  | .arr items => some items
  | _ => none

/-- The checks on the payload, in their order. -/
def AuditReader.auditOf (reader : AuditReader) (payload : Json) (rawFeedback : Text) :
    Option ReviewAudit := do
  let grade ← (payload.get? "grade").bind Json.asStr?
  let grade := reader.py.upper (Text.strip grade.toList)
  if grade ∉ validGrades then none
  let summary ← (payload.get? "summary").bind Json.asStr?
  let comments ← (payload.get? "comments").bind listItems
  let expansions ← reader.normalizeScopeExpansions (payload.get? "scope_expansions")
  let verdict ← (payload.get? "verdict").bind Json.asStr?
  let verdict ← ReviewVerdict.ofText (reader.py.upper (Text.strip verdict.toList))
  let findings ← comments.mapM (normalizeFinding reader.py.toUnicode)
  some { grade := some grade, verdict := some verdict
         summary := sanitizeSummary reader.py.toUnicode summary.toList
         findings := findings, scopeExpansions := expansions, rawFeedback := rawFeedback
         valid := true }

/-- `parse_review_audit`. -/
def AuditReader.parseReviewAudit (reader : AuditReader) (response : AgentResponse) : ReviewAudit :=
  let (source, payload) := responsePayload reader.floats reader.py response
  let rawFeedback := boundedFeedback reader.py.toUnicode source payload
  ((payload.bind fun payload => reader.auditOf payload rawFeedback)).getD (invalidAudit rawFeedback)

/-! ## Publishing -/

/-- `render_review_audit`. -/
def renderReviewAudit (u : Text.Unicode) (audit : ReviewAudit) : Text :=
  "## Automated PR review\n\nReviewer verdict: ".toList
    ++ ((audit.verdict.map ReviewVerdict.text).getD "invalid").toList
    ++ "\n\nTotal grade: ".toList
    ++ (match audit.grade with
      | some grade => if grade = [] then "ungraded".toList else grade
      | none => "ungraded".toList)
    ++ "\n\nReview summary: ".toList
    ++ sanitizeSummary u audit.summary
    ++ ("\n\nEligibility is represented only by the live GitHub implementation-state label; " ++
      "this audit comment is informational.").toList

/-- The marker of a published audit. -/
def implementationGoMarker (prNumber : Int) (headSha : Text) : Text :=
  "<!-- hephaestus-implementation-go-audit:pr=".toList ++ JsonText.decimalInt prNumber
    ++ ":head=".toList ++ headSha ++ " -->".toList

/-- `render_implementation_go_audit`: the marker and the body. -/
def renderImplementationGoAudit (u : Text.Unicode) (audit : ReviewAudit) (prNumber : Int)
    (headSha : Text) : Except String (Text × Text) :=
  if isCleanGoReview audit = false then
    .error "implementation-go audit must have a clean GO verdict"
  else if prNumber ≤ 0 then .error "pr_number must be positive"
  else if isFullSha headSha = false then .error "head_sha must be a full commit SHA"
  else
    .ok (implementationGoMarker prNumber headSha,
      implementationGoMarker prNumber headSha ++ "\n\n".toList ++ renderReviewAudit u audit
        ++ "\n\nReviewed head: `".toList ++ headSha ++ "`.".toList)

end Hephaestus.Automation
