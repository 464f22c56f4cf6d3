import Hephaestus.Lib.Json
import Hephaestus.Automation.IssueWaves

/-!
# The checkpoint document

`_checkpoint_to_json` and `_decode_checkpoint` of
`hephaestus/automation/issue_waves.py`. The decoder casts what it finds in a
document to the annotated types and leaves the checking to the constructors,
and a cast does nothing at run time. So the dataclasses appear here as the
interpreter has them, with any value in any field that is not checked, and
each `__post_init__` is followed operator by operator: an ordering, an
iteration or a hash that a value does not have is a `TypeError`, which is not
the module's own error.

`asUntyped` takes a checkpoint of the store's model into this one.
-/

namespace Hephaestus.Automation.Untyped

open Hephaestus.Lib

/-- What leaves a constructor: an `IssueWaveValidationError`, or the
`TypeError` of an operator its operand does not have. -/
inductive Failure
  | validation (message : String)
  | typeError
  deriving DecidableEq, Repr

/-! ## Operators -/

/-- `isinstance(value, bool) or value < ...`, for an ordering of numbers. -/
def boolOr (holds : PyFloat → Bool) : Json → Except Failure Bool
  | .bool _ => .ok true
  | value =>
      match value.number? with
      | some x => .ok (holds x)
      | none => .error .typeError

/-- `tuple(value)`. -/
def iterate : Json → Except Failure (List Json)
  | .arr items => .ok items
  | .str text => .ok (text.toList.map fun c => .str (String.singleton c))
  | .obj fields => .ok (fields.map fun item => .str item.1)
  | _ => .error .typeError

/-- `value in {...}`, a set of texts: the value has to have a hash. -/
def inTexts (texts : List String) : Json → Except Failure Bool
  | .arr _ => .error .typeError
  | .obj _ => .error .typeError
  | value => .ok (texts.any fun text => value.eq (.str text))

/-! ## Field checks -/

/-- `is_full_commit_sha`. -/
def isFullCommitSha (value : Json) : Bool := value.asStr?.any Automation.isFullCommitSha

/-- `isinstance(value, str) and value`. -/
def isText (value : Json) : Bool := value.asStr?.any (· ≠ "")

/-- `isinstance(value, bool) or not isinstance(value, int) or value <= 0`. -/
def notPositiveInt (value : Json) : Bool := value.asInt?.all (· ≤ 0)

/-- The loop of `_positive_issue_numbers`, with the numbers already seen. -/
def positiveIssueNumbersLoop (fieldName : String) (seen : List Int) :
    List Json → Except Failure Unit
  | [] => .ok ()
  | value :: values => do
      raiseIf (notPositiveInt value)
        (.validation (fieldName ++ " contains an invalid issue number"))
      let number := value.asInt?.getD 0
      raiseIf (number ∈ seen)
        (.validation (fieldName ++ " contains duplicate issue #" ++ toString number))
      positiveIssueNumbersLoop fieldName (number :: seen) values

/-- `_positive_issue_numbers` of a tuple. -/
def positiveIssueNumbers (values : List Json) (fieldName : String) : Except Failure Unit :=
  positiveIssueNumbersLoop fieldName [] values

/-- An optional number as the document has it. -/
def optionalInt : Option Int → Json
  | none => .null
  | some n => .int n

/-- An optional text. -/
def optionalText : Option String → Json
  | none => .null
  | some text => .str text

/-- `_limit`. -/
def checkLimit (value : Json) (fieldName : String) : Except Failure Unit := do
  raiseIf (!value.isNull && notPositiveInt value)
    (.validation (fieldName ++ " must be a positive integer or null"))
  raiseIf (!waveLimits.any fun limit => value.eq (optionalInt limit))
    (.validation (fieldName ++ " must be one of 1, 2, 4, 8, all"))

/-- `_required_text`. -/
def requiredText (value : Json) (fieldName : String) : Except Failure Unit :=
  raiseIf (!isText value) (.validation (fieldName ++ " must be a non-empty string"))

/-! ## The dataclasses -/

/-- `WaveMergeReceipt`. -/
structure WaveMergeReceipt where
  issueNumber : Json
  prNumber : Json
  reviewedHeadSha : Json
  mergeSha : Json

def WaveMergeReceipt.postInit (r : WaveMergeReceipt) : Except Failure Unit := do
  let badIssue ← boolOr (·.le 0) r.issueNumber
  raiseIf badIssue (.validation "merge receipt issue_number must be positive")
  let badPr ← boolOr (·.le 0) r.prNumber
  raiseIf badPr (.validation "merge receipt pr_number must be positive")
  raiseIf (!isFullCommitSha r.reviewedHeadSha)
    (.validation "merge receipt reviewed_head_sha is invalid")
  raiseIf (!isFullCommitSha r.mergeSha) (.validation "merge receipt merge_sha is invalid")

/-- `WaveIssueOutcome`. -/
structure WaveIssueOutcome where
  issueNumber : Json
  passed : Json
  reason : Json
  prNumber : Json
  nonCode : Json

def WaveIssueOutcome.postInit (o : WaveIssueOutcome) : Except Failure Unit := do
  let badIssue ← boolOr (·.le 0) o.issueNumber
  raiseIf badIssue (.validation "wave outcome issue_number must be positive")
  raiseIf (!o.passed.isBool) (.validation "wave outcome passed must be boolean")
  raiseIf (!isText o.reason) (.validation "wave outcome reason must be non-empty")
  raiseIf (!o.nonCode.isBool || (o.nonCode.truthy && !o.passed.truthy))
    (.validation "non-code wave outcome must be a passing boolean")
  raiseIf (o.nonCode.truthy && !o.prNumber.isNull)
    (.validation "non-code wave outcome cannot reference a PR")
  raiseIf (!o.prNumber.isNull && notPositiveInt o.prNumber)
    (.validation "wave outcome pr_number must be positive or null")

/-- `WaveNonCodeIntent`. -/
structure WaveNonCodeIntent where
  issueNumber : Json
  reason : Json
  evidenceDigest : Json
  repositoryRevision : Json
  extraLabels : List Json
  explanation : Json
  retired : Json

/-- No two of the values are equal. -/
def distinct : List Json → Bool
  | [] => true
  | value :: values => !values.any value.eq && distinct values

def WaveNonCodeIntent.postInit (i : WaveNonCodeIntent) : Except Failure Unit := do
  let badIssue ← boolOr (·.le 0) i.issueNumber
  raiseIf badIssue (.validation "non-code intent issue_number must be positive")
  raiseIf (!isText i.reason) (.validation "non-code intent reason must be non-empty")
  raiseIf (!i.evidenceDigest.asStr?.any fun d => d.length = 64 && d.toList.all isHexDigit)
    (.validation "non-code intent evidence_digest is invalid")
  raiseIf (!isFullCommitSha i.repositoryRevision)
    (.validation "non-code intent repository_revision is invalid")
  raiseIf (i.extraLabels.any fun label =>
      label.asStr?.all fun text => text == "" || text.startsWith "state:")
    (.validation "non-code intent extra labels are invalid")
  raiseIf (!distinct i.extraLabels)
    (.validation "non-code intent extra labels contain duplicates")
  raiseIf i.explanation.asStr?.isNone (.validation "non-code intent explanation must be text")
  raiseIf (!i.retired.isBool) (.validation "non-code intent retired must be boolean")

/-- `WaveRecord`. -/
structure WaveRecord where
  waveIndex : Json
  limit : Json
  issueNumbers : List Json
  baseMainSha : Json
  leaseNonce : Json
  outcomes : List (Checked WaveIssueOutcome.postInit)
  mergeReceipts : List (Checked WaveMergeReceipt.postInit)
  nonCodeIntents : List (Checked WaveNonCodeIntent.postInit)
  verifiedMainSha : Json

namespace WaveRecord

/-- One family of evidence ids against the selection. A set asks for
identity before equality, which only a NaN can tell, and a NaN is in no
selection. -/
def matchesSelection (r : WaveRecord) (ids : List Json) : Bool :=
  distinct ids && ids.all fun id => r.issueNumbers.any id.eq

/-- A non-code outcome and the intent recorded for its issue agree. The
issue numbers of the intents are distinct by now. -/
def intentMatches (r : WaveRecord) (o : WaveIssueOutcome) : Bool :=
  (r.nonCodeIntents.find? fun i => i.val.issueNumber.eq o.issueNumber).any fun i =>
    !i.val.retired.truthy && i.val.reason.eq o.reason

def postInit (r : WaveRecord) : Except Failure Unit := do
  let badIndex ← boolOr (·.lt 0) r.waveIndex
  raiseIf badIndex (.validation "wave record index must be non-negative")
  checkLimit r.limit "limit"
  positiveIssueNumbers r.issueNumbers "wave record issue_numbers"
  -- the limit is null or an integer by now
  raiseIf (r.limit.asInt?.any fun n => n < (r.issueNumbers.length : Int))
    (.validation "wave record exceeds its issue limit")
  raiseIf (!isFullCommitSha r.baseMainSha)
    (.validation "wave record base_main_sha is invalid")
  requiredText r.leaseNonce "wave record lease_nonce"
  raiseIf (!r.matchesSelection (r.outcomes.map (·.val.issueNumber)))
    (.validation "wave outcomes do not match the immutable selection")
  raiseIf (!r.matchesSelection (r.mergeReceipts.map (·.val.issueNumber)))
    (.validation "wave receipts do not match the immutable selection")
  raiseIf (!r.matchesSelection (r.nonCodeIntents.map (·.val.issueNumber)))
    (.validation "wave non-code intents do not match the selection")
  raiseIf (r.outcomes.any fun o => o.val.nonCode.truthy && !r.intentMatches o.val)
    (.validation "wave non-code outcome requires one matching active intent")
  raiseIf (!r.verifiedMainSha.isNull && !isFullCommitSha r.verifiedMainSha)
    (.validation "wave verified_main_sha is invalid")

end WaveRecord

/-- `WaveCheckpoint`. -/
structure WaveCheckpoint where
  org : Json
  repo : Json
  generation : Json
  status : Json
  waves : List (Checked WaveRecord.postInit)
  completedMainSha : Json

def WaveCheckpoint.postInit (c : WaveCheckpoint) : Except Failure Unit := do
  raiseIf (!c.org.truthy || !c.repo.truthy)
    (.validation "checkpoint must identify an organization and repository")
  let badGeneration ← boolOr (·.lt 1) c.generation
  raiseIf badGeneration (.validation "checkpoint generation must be positive")
  let known ← inTexts ["active", "completed"] c.status
  raiseIf (!known) (.validation "checkpoint status is invalid")
  raiseIf c.waves.isEmpty (.validation "checkpoint must contain at least one wave")
  raiseIf (!Json.eqItems (c.waves.map (·.val.waveIndex))
      ((List.range c.waves.length).map fun i : Nat => .int i))
    (.validation "checkpoint wave indexes are not contiguous")
  raiseIf (c.status.eq (.str "completed") && c.completedMainSha.isNull)
    (.validation "completed checkpoint requires completed_main_sha")
  raiseIf (!c.completedMainSha.isNull && !isFullCommitSha c.completedMainSha)
    (.validation "checkpoint completed_main_sha is invalid")

/-! ## Encoding -/

def schema : String := "hephaestus.issue-wave-checkpoint.v1"

/-- `_outcome_to_json`. -/
def outcomeToJson (outcome : WaveIssueOutcome) : Json :=
  .obj [("issue_number", outcome.issueNumber), ("passed", outcome.passed),
    ("reason", outcome.reason), ("pr_number", outcome.prNumber),
    ("non_code", outcome.nonCode)]

/-- `_receipt_to_json`. -/
def receiptToJson (receipt : WaveMergeReceipt) : Json :=
  .obj [("issue_number", receipt.issueNumber), ("pr_number", receipt.prNumber),
    ("reviewed_head_sha", receipt.reviewedHeadSha), ("merge_sha", receipt.mergeSha)]

/-- `_non_code_intent_to_json`. -/
def nonCodeIntentToJson (intent : WaveNonCodeIntent) : Json :=
  .obj [("issue_number", intent.issueNumber), ("reason", intent.reason),
    ("evidence_digest", intent.evidenceDigest),
    ("repository_revision", intent.repositoryRevision),
    ("extra_labels", .arr intent.extraLabels), ("explanation", intent.explanation),
    ("retired", intent.retired)]

/-- `_wave_to_json`. -/
def waveToJson (wave : WaveRecord) : Json :=
  .obj [("wave_index", wave.waveIndex), ("limit", wave.limit),
    ("issue_numbers", .arr wave.issueNumbers), ("base_main_sha", wave.baseMainSha),
    ("lease_nonce", wave.leaseNonce),
    ("outcomes", .arr (wave.outcomes.map fun item => outcomeToJson item.val)),
    ("merge_receipts", .arr (wave.mergeReceipts.map fun item => receiptToJson item.val)),
    ("non_code_intents",
      .arr (wave.nonCodeIntents.map fun item => nonCodeIntentToJson item.val)),
    ("verified_main_sha", wave.verifiedMainSha)]

/-- `_checkpoint_to_json`. -/
def checkpointToJson (checkpoint : WaveCheckpoint) : Json :=
  .obj [("schema", .str schema), ("org", checkpoint.org), ("repo", checkpoint.repo),
    ("generation", checkpoint.generation), ("status", checkpoint.status),
    ("waves", .arr (checkpoint.waves.map fun wave => waveToJson wave.val)),
    ("completed_main_sha", checkpoint.completedMainSha)]

/-! ## Decoding -/

def decodeOutcome (item : Json) : Except Failure (Checked WaveIssueOutcome.postInit) :=
  Checked.make WaveIssueOutcome.postInit
    { issueNumber := item.field "issue_number", passed := item.field "passed",
      reason := item.field "reason", prNumber := item.field "pr_number",
      nonCode := item.getD "non_code" (.bool false) }

def decodeReceipt (item : Json) : Except Failure (Checked WaveMergeReceipt.postInit) :=
  Checked.make WaveMergeReceipt.postInit
    { issueNumber := item.field "issue_number", prNumber := item.field "pr_number",
      reviewedHeadSha := item.field "reviewed_head_sha", mergeSha := item.field "merge_sha" }

/-- The labels are a list by now. -/
def decodeIntent (item : Json) : Except Failure (Checked WaveNonCodeIntent.postInit) :=
  Checked.make WaveNonCodeIntent.postInit
    { issueNumber := item.field "issue_number", reason := item.field "reason",
      evidenceDigest := item.field "evidence_digest",
      repositoryRevision := item.field "repository_revision",
      extraLabels := (item.getD "extra_labels" (.arr [])).asArr?.getD [],
      explanation := item.getD "explanation" (.str ""),
      retired := item.getD "retired" (.bool false) }

/-- A tuple built from the dictionaries of a list. -/
def decodeObjects {α : Type} (decode : Json → Except Failure α) (items : List Json) :
    Except Failure (List α) :=
  (items.filter fun item => item.asObj?.isSome).mapM decode

/-- The three lists of evidence of a wave. -/
def evidenceLists (value : Json) : Except Failure (List Json × List Json × List Json) :=
  match (value.getD "outcomes" (.arr [])).asArr?, (value.getD "merge_receipts" (.arr [])).asArr?,
      (value.getD "non_code_intents" (.arr [])).asArr? with
  | some outcomes, some receipts, some intents => .ok (outcomes, receipts, intents)
  | _, _, _ =>
      .error (.validation
        "checkpoint outcomes, receipts, and non-code intents must be lists")

/-- The loop over the intents before any is built. -/
def checkIntentShape (item : Json) : Except Failure Unit := do
  raiseIf item.asObj?.isNone (.validation "checkpoint non-code intent must be an object")
  raiseIf (item.getD "extra_labels" (.arr [])).asArr?.isNone
    (.validation "checkpoint non-code intent extra_labels must be a list")

/-- One turn of the loop over the waves. -/
def decodeWave (value : Json) : Except Failure (Checked WaveRecord.postInit) := do
  raiseIf value.asObj?.isNone (.validation "checkpoint wave must be an object")
  let (outcomesRaw, receiptsRaw, intentsRaw) ← evidenceLists value
  let outcomes ← decodeObjects decodeOutcome outcomesRaw
  raiseIf (outcomes.length ≠ outcomesRaw.length)
    (.validation "checkpoint outcome must be an object")
  let receipts ← decodeObjects decodeReceipt receiptsRaw
  raiseIf (receipts.length ≠ receiptsRaw.length)
    (.validation "checkpoint merge receipt must be an object")
  intentsRaw.forM checkIntentShape
  let intents ← decodeObjects decodeIntent intentsRaw
  let issueNumbers ← iterate (value.getD "issue_numbers" (.arr []))
  Checked.make WaveRecord.postInit
    { waveIndex := value.field "wave_index", limit := value.field "limit", issueNumbers,
      baseMainSha := value.field "base_main_sha", leaseNonce := value.field "lease_nonce",
      outcomes, mergeReceipts := receipts, nonCodeIntents := intents,
      verifiedMainSha := value.field "verified_main_sha" }

/-- `_decode_checkpoint`. -/
def decodeCheckpoint (raw : Json) : Except Failure (Checked WaveCheckpoint.postInit) := do
  raiseIf (raw.asObj?.isNone || !(raw.field "schema").eq (.str schema))
    (.validation "issue-wave checkpoint schema is missing or unsupported")
  match (raw.field "waves").asArr? with
  | none => .error (.validation "checkpoint waves must be a list")
  | some wavesRaw => do
      let waves ← wavesRaw.mapM decodeWave
      Checked.make WaveCheckpoint.postInit
        { org := raw.field "org", repo := raw.field "repo",
          generation := raw.field "generation", status := raw.field "status", waves,
          completedMainSha := raw.field "completed_main_sha" }

end Hephaestus.Automation.Untyped
