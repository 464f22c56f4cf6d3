import Hephaestus.Automation.ReviewAudit

/-!
# Receipts of an audit

Three comments carry the audit of one reviewed head. The pending receipt is
written before the label and holds the audit as JSON; the published comment is
for people, and the audit is recovered from its text; the rebase record keeps
the pending receipt of the original head as one string of a larger document.
Each reader answers nothing for a comment of another kind and refuses a comment
of its own kind that does not hold what its writer puts there.
-/

namespace Hephaestus.Automation

open Hephaestus.Lib

/-! ## Identities -/

/-- What `\d` matches and `int` makes of it. -/
structure DigitTable where
  value : Char → Option Nat
  value_ascii : ∀ c : Char, c.toNat < 128 →
    value c = if c.isDigit then some (c.toNat - 48) else none

/-- `\d`. -/
def DigitTable.isDigit (digits : DigitTable) (c : Char) : Bool :=
  (digits.value c).isSome

/-- `int(t)` of a match of `\d+`. -/
def DigitTable.int (digits : DigitTable) (t : Text) : Nat :=
  t.foldl (fun n c => 10 * n + (digits.value c).getD 0) 0

/-- The rest of a text after a literal. -/
def afterLiteral (literal t : Text) : Option Text :=
  if Text.startsWith t literal then some (t.drop literal.length) else none

/-- `literal(?P<pr>\d+):head=(?P<head>[0-9a-f]{40}(?:[0-9a-f]{24})?) -->`, and the
rest of the text. -/
def readIdentity (digits : DigitTable) (literal t : Text) : Option (Nat × Text × Text) := do
  let t ← afterLiteral literal t
  let number := t.takeWhile digits.isDigit
  if number = [] then none
  let t ← afterLiteral ":head=".toList (t.drop number.length)
  let head := t.takeWhile Text.isLowerHex
  if isFullSha head = false then none
  let rest ← afterLiteral " -->".toList (t.drop head.length)
  some (digits.int number, head, rest)

/-- `t.partition("\n")`; without a separator the last part is missing. -/
def partitionLine (t : Text) : Text × Option Text :=
  let line := t.takeWhile (· != '\n')
  match t.drop line.length with
  | [] => (line, none)
  | _ :: rest => (line, some rest)

/-! ## The pending receipt -/

/-- `IMPLEMENTATION_GO_AUDIT_PENDING_PREFIX` and the name of the number. -/
def pendingLiteral : Text := "<!-- hephaestus-implementation-go-audit-pending:pr=".toList

/-- The marker of a pending receipt. -/
def pendingMarker (prNumber : Int) (headSha : Text) : Text :=
  pendingLiteral ++ JsonText.decimalInt prNumber ++ ":head=".toList ++ headSha ++ " -->".toList

/-- `_PENDING_MARKER_RE.fullmatch`. -/
def matchPendingMarker (digits : DigitTable) (marker : Text) : Option (Nat × Text) :=
  match readIdentity digits pendingLiteral marker with
  | some (prNumber, headSha, []) => some (prNumber, headSha)
  | _ => none

/-- `PendingImplementationGoAudit`. -/
structure PendingImplementationGoAudit where
  prNumber : Nat
  headSha : Text
  audit : ReviewAudit
  deriving DecidableEq

/-- What a reader of receipts raises. -/
inductive ReceiptError
  /-- What `json.loads` raises, its hook included. -/
  | decode
  /-- `ValueError`. -/
  | value (message : String)
  /-- `LegacyPendingImplementationGoAuditError`. -/
  | legacy (prNumber : Nat) (headSha : Text)
  deriving DecidableEq

/-- The JSON document of a pending receipt. -/
def pendingPayload (prNumber : Int) (headSha grade : Text) (audit : ReviewAudit) : Json :=
  .obj [("format", .int 2), ("pr_number", .int prNumber), ("head_sha", jsonText headSha),
    ("grade", jsonText grade),
    ("verdict", (audit.verdict.map fun verdict => Json.str verdict.text).getD .null),
    ("summary", jsonText audit.summary), ("raw_feedback", jsonText audit.rawFeedback)]

/-- `render_pending_implementation_go_audit`: the marker and the body. -/
def renderPendingImplementationGoAudit (floats : JsonText.FloatText) (digits : DigitTable)
    (prNumber : Int) (headSha : Text) (audit : ReviewAudit) : Except String (Text × Text) :=
  if prNumber ≤ 0 ∨ matchPendingMarker digits (pendingMarker prNumber headSha) = none then
    .error "pending implementation-go audit identity is invalid"
  else
    match isCleanGoReview audit, audit.grade with
    | true, some grade =>
        .ok (pendingMarker prNumber headSha,
          pendingMarker prNumber headSha ++ "\n<!-- ".toList
            ++ JsonText.dumps floats (pendingPayload prNumber headSha grade audit)
            ++ " -->".toList)
    | _, _ => .error "pending implementation-go audit must have a clean GO verdict"

/-- `value == expected`, also for a key that is not there. -/
def equals (value : Option Json) (expected : Json) : Bool :=
  (value.map fun value => Json.eq value expected).getD false

/-- `text.removeprefix("<!-- ").removesuffix(" -->")` of a text that has both. -/
def commentContent (t : Text) : Option Text := do
  let t ← afterLiteral "<!-- ".toList t
  let content ← afterLiteral " -->".toList.reverse t.reverse
  some content.reverse

/-- `parse_pending_implementation_go_audit`. -/
def parsePendingImplementationGoAudit (floats : JsonText.FloatText) (digits : DigitTable)
    (body : Text) : Except ReceiptError (Option PendingImplementationGoAudit) :=
  match matchPendingMarker digits (partitionLine body).1 with
  | none => .ok none
  | some (prNumber, headSha) =>
      match (partitionLine body).2.bind commentContent with
      | none => .error (.value "pending implementation-go audit journal is malformed")
      | some content =>
          match JsonText.loads floats JsonText.keepLast content with
          | none => .error (.value "pending implementation-go audit journal is malformed")
          | some payload =>
              if equals (payload.get? "format") (.int 1) then .error (.legacy prNumber headSha)
              else if equals (payload.get? "format") (.int 2) = false then
                .error (.value "pending implementation-go audit journal format is invalid")
              else
                match payload.get? "grade", payload.get? "summary", payload.get? "raw_feedback" with
                | some (.str grade), some (.str summary), some (.str rawFeedback) =>
                    if equals (payload.get? "pr_number") (.int prNumber) = false
                        ∨ equals (payload.get? "head_sha") (jsonText headSha) = false
                        ∨ grade.toList ∉ validGrades
                        ∨ equals (payload.get? "verdict") (.str ReviewVerdict.go.text) = false
                        ∨ summary.toList = []
                        ∨ maxReviewSummaryChars < summary.toList.length
                        ∨ maxRawFeedbackChars < rawFeedback.toList.length then
                      .error (.value "pending implementation-go audit journal payload is invalid")
                    else
                      .ok (some {
                        prNumber := prNumber, headSha := headSha
                        audit := {
                          grade := some grade.toList, summary := summary.toList, findings := []
                          rawFeedback := rawFeedback.toList, valid := true, verdict := some .go
                          scopeExpansions := [] } })
                | _, _, _ =>
                    .error (.value "pending implementation-go audit journal payload is invalid")

/-! ## The published comment -/

/-- `_PUBLIC_AUDIT_RE.fullmatch`: the number, the head, the grade and the summary. -/
def matchPublicAudit (digits : DigitTable) (body : Text) : Option (Nat × Text × Char × Text) := do
  let (prNumber, head, t) ← readIdentity digits
    "<!-- hephaestus-implementation-go-audit:pr=".toList body
  let t ← afterLiteral
    "\n\n## Automated PR review\n\nReviewer verdict: GO\n\nTotal grade: ".toList t
  let grade ← t.head?
  if 'A'.toNat ≤ grade.toNat ∧ grade.toNat ≤ 'F'.toNat then
    let t ← afterLiteral "\n\nReview summary: ".toList (t.drop 1)
    let summary := t.takeWhile fun c => !(c == '\r' || c == '\n')
    if summary = [] then none
    let t ← afterLiteral
      ("\n\nEligibility is represented only by the live GitHub implementation-state label; " ++
        "this audit comment is informational.\n\nReviewed head: `").toList (t.drop summary.length)
    let t ← afterLiteral head t
    if t = "`.".toList then some (prNumber, head, grade, summary) else none
  else none

/-- `parse_published_implementation_go_audit`. -/
def parsePublishedImplementationGoAudit (digits : DigitTable) (body : Text) :
    Option PendingImplementationGoAudit :=
  (matchPublicAudit digits body).map fun found => {
    prNumber := found.1, headSha := found.2.1
    audit := {
      grade := some [found.2.2.1], summary := found.2.2.2, findings := [], rawFeedback := []
      valid := true, verdict := some .go, scopeExpansions := [] } }

/-! ## The rebase record -/

/-- `REBASE_REVIEW_PREFIX`. -/
def rebaseReviewLiteral : Text := "<!-- hephaestus-review-rebase:".toList

/-- `original_audit_identity`. -/
def originalAuditIdentity (prNumber : Int) (reviewedHeadSha : Text) : Text :=
  implementationGoMarker prNumber reviewedHeadSha

/-- One character of `[A-Za-z0-9_.-]`. -/
def isRepositoryChar (c : Char) : Bool :=
  c.isAlphanum || c == '_' || c == '.' || c == '-'

/-- `re.fullmatch(r"[A-Za-z0-9_.-]+/[A-Za-z0-9_.-]+", t)`. -/
def isRepositoryName (t : Text) : Bool :=
  let owner := t.takeWhile isRepositoryChar
  match t.drop owner.length with
  | '/' :: name => !owner.isEmpty && !name.isEmpty && name.all isRepositoryChar
  | _ => false

/-- What `__post_init__` asks of a repository. -/
abbrev RepositoryName := {t : Text // isRepositoryName t = true}

/-- What `__post_init__` asks of a number. -/
abbrev PositiveInt := {n : Int // 0 < n}

/-- What `__post_init__` asks of a commit. -/
abbrev FullSha := {t : Text // isFullSha t = true}

/-- What `__post_init__` asks of an audit, by rendering its pending receipt. -/
abbrev CleanAudit :=
  {audit : ReviewAudit // isCleanGoReview audit = true ∧ audit.grade.isSome = true}

/-- `state` and `superseded_by_head_sha` of a record of one reviewed head. -/
inductive RebaseState (reviewedHeadSha : FullSha)
  | active
  | revoked
  | superseded (byHeadSha : FullSha) (other : byHeadSha ≠ reviewedHeadSha)
  deriving DecidableEq

/-- `state`. -/
def RebaseState.text {head : FullSha} : RebaseState head → String
  | .active => "active"
  | .revoked => "revoked"
  | .superseded _ _ => "superseded"

/-- `RebaseReviewRecord`. The original audit's id is determined by the rest. -/
structure RebaseReviewRecord where
  repository : RepositoryName
  issueNumber : PositiveInt
  prNumber : PositiveInt
  reviewedHeadSha : FullSha
  reviewedBaseSha : FullSha
  sourceHeadSha : FullSha
  targetBaseSha : FullSha
  resultingHeadSha : FullSha
  resultingTreeSha : FullSha
  audit : CleanAudit
  state : RebaseState reviewedHeadSha

/-- `record.original_audit_id`. -/
def RebaseReviewRecord.originalAuditId (record : RebaseReviewRecord) : Text :=
  originalAuditIdentity record.prNumber record.reviewedHeadSha

/-- The marker of a record. -/
def rebaseMarker (prNumber : Int) : Text :=
  rebaseReviewLiteral ++ "v1:pr=".toList ++ JsonText.decimalInt prNumber ++ " -->".toList

/-- The JSON document of a record. -/
def RebaseReviewRecord.payload (record : RebaseReviewRecord) (auditBody : Text) : Json :=
  .obj ([("repository", jsonText record.repository), ("issue_number", .int record.issueNumber),
      ("pr_number", .int record.prNumber),
      ("reviewed_head_sha", jsonText record.reviewedHeadSha),
      ("reviewed_base_sha", jsonText record.reviewedBaseSha),
      ("source_head_sha", jsonText record.sourceHeadSha),
      ("target_base_sha", jsonText record.targetBaseSha),
      ("resulting_head_sha", jsonText record.resultingHeadSha),
      ("resulting_tree_sha", jsonText record.resultingTreeSha),
      ("original_audit_id", jsonText record.originalAuditId),
      ("state", .str record.state.text), ("audit", jsonText auditBody)]
    ++ match record.state with
      | .superseded byHeadSha _ => [("superseded_by_head_sha", jsonText byHeadSha)]
      | .active | .revoked => [])

/-- `render_review_rebase_record`: the marker and the body. -/
def renderReviewRebaseRecord (floats : JsonText.FloatText) (digits : DigitTable)
    (record : RebaseReviewRecord) : Except String (Text × Text) := do
  let (_, auditBody) ← renderPendingImplementationGoAudit floats digits record.prNumber
    record.reviewedHeadSha record.audit
  .ok (rebaseMarker record.prNumber,
    rebaseMarker record.prNumber ++ "\n".toList
      ++ JsonText.dumps floats (record.payload auditBody))

/-- `{*_FIELDS, "audit"}`. -/
def rebaseFieldNames : List String :=
  ["repository", "issue_number", "pr_number", "reviewed_head_sha", "reviewed_base_sha",
    "source_head_sha", "target_base_sha", "resulting_head_sha", "resulting_tree_sha",
    "original_audit_id", "state", "audit"]

/-- `set(payload)` is one of the two sets of fields. -/
def hasRebaseFields (fields : Dict String Json) : Bool :=
  let names := fields.map Prod.fst
  let optional := "superseded_by_head_sha"
  rebaseFieldNames.all names.contains
    && names.all fun name => (optional :: rebaseFieldNames).contains name

/-- The value of a text field that passes a check. -/
def checkedText (payload : Json) (name : String) (check : Text → Bool) (message : String) :
    Except ReceiptError {t : Text // check t = true} :=
  match payload.get? name with
  | some (.str text) =>
      if h : check text.toList = true then .ok ⟨text.toList, h⟩ else .error (.value message)
  | _ => .error (.value message)

/-- The value of a number field. -/
def checkedNumber (payload : Json) (name : String) : Except ReceiptError PositiveInt :=
  match payload.get? name with
  | some (.int n) =>
      if h : 0 < n then .ok ⟨n, h⟩ else .error (.value "rebase record identifier is invalid")
  | _ => .error (.value "rebase record identifier is invalid")

/-- The check of `state` and `superseded_by_head_sha`. -/
def checkedState (payload : Json) (head : FullSha) (expectedAuditId : Text) :
    Except ReceiptError (RebaseState head) :=
  let identity := ReceiptError.value "rebase record audit identity is invalid"
  let unclaimed : Except ReceiptError Unit :=
    if equals (some ((payload.get? "superseded_by_head_sha").getD (.str ""))) (.str "") then .ok ()
    else .error (.value "active or revoked rebase record cannot claim supersession")
  if equals (payload.get? "original_audit_id") (jsonText expectedAuditId) = false then
    .error identity
  else
    match payload.get? "state" with
    | some (.str "active") => unclaimed.map fun _ => .active
    | some (.str "revoked") => unclaimed.map fun _ => .revoked
    | some (.str "superseded") => do
        let byHeadSha ← checkedText payload "superseded_by_head_sha" isFullSha
          "rebase supersession head is invalid"
        if h : byHeadSha ≠ head then .ok (.superseded byHeadSha h)
        else .error (.value "rebase supersession head is invalid")
    | _ => .error identity

/-- `RebaseReviewRecord(**payload, audit=audit)`, the checks in their order. -/
def RebaseReviewRecord.ofPayload (payload : Json) (audit : ReviewAudit) :
    Except ReceiptError RebaseReviewRecord := do
  let commit := fun name => checkedText payload name isFullSha "rebase record commit is invalid"
  let repository ← checkedText payload "repository" isRepositoryName
    "rebase record repository is invalid"
  let issueNumber ← checkedNumber payload "issue_number"
  let prNumber ← checkedNumber payload "pr_number"
  let reviewedHeadSha ← commit "reviewed_head_sha"
  let reviewedBaseSha ← commit "reviewed_base_sha"
  let sourceHeadSha ← commit "source_head_sha"
  let targetBaseSha ← commit "target_base_sha"
  let resultingHeadSha ← commit "resulting_head_sha"
  let resultingTreeSha ← commit "resulting_tree_sha"
  let state ← checkedState payload reviewedHeadSha (originalAuditIdentity prNumber reviewedHeadSha)
  if h : isCleanGoReview audit = true ∧ audit.grade.isSome = true then
    .ok { repository, issueNumber, prNumber, reviewedHeadSha, reviewedBaseSha, sourceHeadSha
          targetBaseSha, resultingHeadSha, resultingTreeSha, audit := ⟨audit, h⟩, state }
  else .error (.value "pending implementation-go audit must have a clean GO verdict")

/-- The bound `parse_review_rebase_record` puts on a body. -/
def maxRebaseRecordChars : Nat := 24000

/-- `parse_review_rebase_record`. -/
def parseReviewRebaseRecord (floats : JsonText.FloatText) (digits : DigitTable) (body : Text) :
    Except ReceiptError (Option RebaseReviewRecord) :=
  if Text.startsWith body rebaseReviewLiteral = false then .ok none
  else
    match (partitionLine body).2 with
    | none => .error (.value "rebase record is malformed")
    | some raw =>
        if maxRebaseRecordChars < body.length then .error (.value "rebase record is malformed")
        else
          match JsonText.loads floats JsonText.rejectDuplicates raw with
          | none => .error .decode
          | some (.obj fields) =>
              if hasRebaseFields fields = false then
                .error (.value "rebase record fields are invalid")
              else
                let payload := Json.obj fields
                match payload.get? "audit" with
                | some (.str auditBody) => do
                    let found ← parsePendingImplementationGoAudit floats digits auditBody.toList
                    match found with
                    | none => .error (.value "rebase record audit does not match")
                    | some pending =>
                        if equals (payload.get? "pr_number") (.int pending.prNumber) = false
                            ∨ equals (payload.get? "reviewed_head_sha")
                              (jsonText pending.headSha) = false then
                          .error (.value "rebase record audit does not match")
                        else
                          let record ← RebaseReviewRecord.ofPayload payload pending.audit
                          if (partitionLine body).1 = rebaseMarker record.prNumber then
                            .ok (some record)
                          else .error (.value "rebase record marker does not match")
                | _ => .error (.value "rebase record audit is invalid")
          | some _ => .error (.value "rebase record fields are invalid")

end Hephaestus.Automation
