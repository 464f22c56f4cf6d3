import Hephaestus.Lib.CanonicalJson
import Hephaestus.Lib.Command
import Hephaestus.Automation.AuditReceipts
import Hephaestus.Automation.ReplyDelivery

/-!
# Recovered requirements

`hephaestus/automation/requirements_recovery.py`, the comment that carries recovered
requirements: how it is rendered, selected from a journal and read. Its first line is
a marker with the digests of what the requirements were recovered from, and the rest
is their text as it stands. Whether another line of a comment claims to be such a
marker is a question about the blocks of its Markdown; the parser that answers it is
a parameter.
-/

namespace Hephaestus.Automation.Requirements

open Hephaestus.Lib

def recoveryProvenanceVersion : Nat := 3

/-- `RECOVERY_PROVENANCE_PREFIX`. -/
def recoveryProvenancePrefix : Text := "<!-- hephaestus-recovered-requirements:".toList

/-- `re.fullmatch(_DIGEST_RE, t)`. -/
def isDigest (t : Text) : Bool := Text.isHexOfLength 64 t

/-- `RecoveryProvenance`. -/
structure RecoveryProvenance where
  version : Nat
  sourceDigest : Text
  requirementsDigest : Text
  evidenceDigest : Text
  titleDigest : Option Text
  repositoryRevision : Option Text
  successorRevision : Option Nat
  successorPlanDigest : Option Text
  deriving DecidableEq

/-! ## The lines that claim to be a marker -/

/-- The lines of a text, as `_COMMONMARK_LINE_END_RE` ends them. -/
def commonMarkLines : Text → List Text
  | [] => []
  | '\r' :: '\n' :: rest => [] :: commonMarkLines rest
  | '\r' :: rest => [] :: commonMarkLines rest
  | '\n' :: rest => [] :: commonMarkLines rest
  | c :: rest =>
      match commonMarkLines rest with
      | [] => [[c]]
      | line :: lines => (c :: line) :: lines

/-- `line.lstrip(" ").startswith(RECOVERY_PROVENANCE_PREFIX)`. -/
def claimsRecovery (line : Text) : Bool :=
  Text.startsWith (line.dropWhile (· == ' ')) recoveryProvenancePrefix

/-- `_recovery_provenance_candidate_lines`. `htmlBlocks` are the lines on which the
top-level HTML blocks of `MarkdownIt("commonmark").parse(body)` start. -/
def recoveryProvenanceCandidateLines (htmlBlocks : Text → List Nat) (body : Text) : List Text :=
  ((htmlBlocks body).filterMap fun start => (commonMarkLines body)[start]?).filter claimsRecovery

/-! ## Rendering -/

/-- `issue_title`, `repository`, and what else a recovery is bound to. -/
structure RecoveryContext where
  repository : Text
  issueNumber : Int
  issueTitle : Text
  sourceBody : Text
  repositoryRevision : Text
  deriving DecidableEq

/-- The document of `evidence_digest`. -/
def evidenceDocument (context : RecoveryContext) : Json :=
  .obj [("issue", .int context.issueNumber), ("repository", jsonText context.repository),
    ("repository_revision", jsonText context.repositoryRevision),
    ("source_body_digest", jsonText (Delivery.sha256Text context.sourceBody)),
    ("title", jsonText context.issueTitle)]

/-- `evidence_digest`. -/
def evidenceDigest (floats : JsonText.FloatText) (context : RecoveryContext) : Text :=
  Delivery.sha256Text (JsonText.canonicalJson floats (evidenceDocument context))

/-- `context_marker`. -/
def contextMarker (context : Option (Text × Text)) : Text :=
  (context.map fun c => ":title=".toList ++ c.1 ++ ":revision=".toList ++ c.2).getD []

/-- The part of the marker that names a successor. -/
def successorMarker (successor : Option (Int × Text)) : Text :=
  (successor.map fun s => ":successor_revision=".toList ++ JsonText.decimalInt s.1
    ++ ":successor_plan=".toList ++ s.2).getD []

/-- The marker. -/
def recoveryMarker (version : Nat) (source requirements evidence : Text)
    (context : Option (Text × Text)) (successor : Option (Int × Text)) : Text :=
  recoveryProvenancePrefix ++ "v=".toList ++ Nat.toDigits 10 version
    ++ ":source=".toList ++ source ++ ":requirements=".toList ++ requirements
    ++ ":evidence=".toList ++ evidence ++ contextMarker context ++ successorMarker successor
    ++ " -->".toList

/-- `source_digest or _sha256(source_body)`. -/
def boundSourceDigest (sourceBody : Text) (sourceDigest : Option Text) : Text :=
  match sourceDigest with
  | some (c :: digest) => c :: digest
  | _ => Delivery.sha256Text sourceBody

/-- Two optional arguments that are given together. -/
def together {α β : Type} (a : Option α) (b : Option β) (message : String) :
    Except String (Option (α × β)) :=
  match a, b with
  | some a, some b => .ok (some (a, b))
  | none, none => .ok none
  | _, _ => .error message

/-- `render_recovered_requirements`; the error is the text of its `ValueError`. -/
def renderRecoveredRequirements (sourceBody requirements evidenceBinding : Text)
    (sourceDigest : Option Text) (successorRevision : Option Int)
    (successorPlanDigest issueTitle repositoryRevision : Option Text) : Except String Text := do
  let normalized := Text.strip requirements
  raiseIf (normalized = []) "requirements must not be empty"
  raiseIf (isDigest evidenceBinding = false) "evidence_binding must be a lowercase SHA-256 digest"
  let source := boundSourceDigest sourceBody sourceDigest
  raiseIf (isDigest source = false) "source_digest must be a lowercase SHA-256 digest"
  let successor ← together successorRevision successorPlanDigest
    "recovery successor revision and plan digest must be supplied together"
  raiseIf (successor.any fun s => s.1 < 1) "recovery successor revision must be positive"
  raiseIf (successor.any fun s => !isDigest s.2)
    "recovery successor plan digest must be a lowercase SHA-256 digest"
  let context ← together issueTitle repositoryRevision
    "issue title and repository revision must be supplied together"
  raiseIf (context.any fun c => !Text.isHexOfLength 40 c.2)
    "repository revision must be a lowercase full SHA-1"
  let version := if context.isSome then recoveryProvenanceVersion else 2
  let marker := recoveryMarker version source (Delivery.sha256Text normalized) evidenceBinding
    (context.map fun c => (Delivery.sha256Text c.1, c.2)) successor
  return marker ++ "\n\n".toList ++ normalized

/-! ## Reading -/

/-- `[0-9a-f]{n}`, and the rest of the text. -/
def takeHex (n : Nat) (t : Text) : Option (Text × Text) :=
  if Text.isHexOfLength n (t.take n) then some (t.take n, t.drop n) else none

/-- `\d+`, and the rest of the text. -/
def takeDigits (digits : DigitTable) (t : Text) : Option (Nat × Text) :=
  let number := t.takeWhile digits.isDigit
  if number = [] then none else some (digits.int number, t.drop number.length)

/-- `:title=(?P<title>…):revision=(?P<revision>[0-9a-f]{40})`. -/
def takeContext (t : Text) : Option ((Text × Text) × Text) := do
  let t ← afterLiteral ":title=".toList t
  let (title, t) ← takeHex 64 t
  let t ← afterLiteral ":revision=".toList t
  let (revision, t) ← takeHex 40 t
  return ((title, revision), t)

/-- `:successor_revision=(?P<successor_revision>\d+):successor_plan=(?P<successor_plan>…)`. -/
def takeSuccessor (digits : DigitTable) (t : Text) : Option ((Nat × Text) × Text) := do
  let t ← afterLiteral ":successor_revision=".toList t
  let (revision, t) ← takeDigits digits t
  let t ← afterLiteral ":successor_plan=".toList t
  let (plan, t) ← takeHex 64 t
  return ((revision, plan), t)

/-- `(?:…)?`: what matched, if anything did, and the rest of the text. -/
def optionally {α : Type} (take : Text → Option (α × Text)) (t : Text) : Option α × Text :=
  match take t with
  | some (value, rest) => (some value, rest)
  | none => (none, t)

/-- `_PROVENANCE_RE.fullmatch`, the groups. -/
def matchProvenance (digits : DigitTable) (line : Text) : Option RecoveryProvenance := do
  let t ← afterLiteral (recoveryProvenancePrefix ++ "v=".toList) line
  let (version, t) ← takeDigits digits t
  let t ← afterLiteral ":source=".toList t
  let (source, t) ← takeHex 64 t
  let t ← afterLiteral ":requirements=".toList t
  let (requirements, t) ← takeHex 64 t
  let t ← afterLiteral ":evidence=".toList t
  let (evidence, t) ← takeHex 64 t
  let (context, t) := optionally takeContext t
  let (successor, t) := optionally (takeSuccessor digits) t
  guard (t = " -->".toList)
  return {
    version := version
    sourceDigest := source
    requirementsDigest := requirements
    evidenceDigest := evidence
    titleDigest := context.map Prod.fst
    repositoryRevision := context.map Prod.snd
    successorRevision := successor.map Prod.fst
    successorPlanDigest := successor.map Prod.snd }

/-- `first_line`, without a carriage return at its end. -/
def withoutReturn (line : Text) : Text :=
  if line.getLast? = some '\r' then line.dropLast else line

/-- `remainder.lstrip("\n")` of the part of a body after its first line. -/
def requirementsOf (remainder : Text) : Text := remainder.dropWhile (· == '\n')

/-- `parse_recovery_provenance`. -/
def parseRecoveryProvenance (digits : DigitTable) (body : Text) : Option RecoveryProvenance := do
  let found ← matchProvenance digits (withoutReturn (partitionLine body).1)
  let remainder ← (partitionLine body).2
  guard ((found.version = 1 ∨ found.version = 2 ∨ found.version = recoveryProvenanceVersion)
    ∧ ¬ (3 ≤ found.version ∧ (found.titleDigest = none ∨ found.repositoryRevision = none))
    ∧ ¬ (found.version < 3 ∧ (found.titleDigest ≠ none ∨ found.repositoryRevision ≠ none))
    ∧ found.successorRevision.isNone = found.successorPlanDigest.isNone
    ∧ Delivery.sha256Text (requirementsOf remainder) = found.requirementsDigest)
  return found

/-- `RecoveryCommentSelection`. -/
structure RecoveryCommentSelection (T : Type) where
  comment : T
  provenance : RecoveryProvenance

section Select

variable {T : Type} (htmlBlocks : Text → List Nat) (digits : DigitTable) (bodyOf : T → Text)
  (ownedOf : T → Bool)

/-- What one comment of the journal adds to `selections`. -/
def selectionOf (comment : T) : Except String (Option (RecoveryCommentSelection T)) :=
  let claims := recoveryProvenanceCandidateLines htmlBlocks (bodyOf comment)
  if claims.isEmpty then .ok none
  else if !Text.startsWith (bodyOf comment) recoveryProvenancePrefix then
    .error "recovery marker must start at byte zero"
  else if !ownedOf comment then
    .error "The recovered requirements marker is foreign, or GitHub cannot verify it"
  else if 1 < claims.length then
    .error "repeated recovered requirements marker in one comment"
  else
    match parseRecoveryProvenance digits (bodyOf comment) with
    | none => .error "malformed recovered requirements marker"
    | some provenance => .ok (some { comment := comment, provenance := provenance })

/-- `select_recovery_comment`; the error is the text of its
`RecoveryCommentIdentityError`. -/
def selectRecoveryComment (comments : List T) :
    Except String (Option (RecoveryCommentSelection T)) := do
  let selections ← comments.mapM (selectionOf htmlBlocks digits bodyOf ownedOf)
  match selections.filterMap fun selection => selection with
  | [] => .ok none
  | [selection] => .ok (some selection)
  | _ => .error "duplicate recovered requirements comments"

end Select

/-- `requirements.lstrip("\n") or None` of a body. -/
def payloadOf (body : Text) : Option Text :=
  let requirements := requirementsOf ((partitionLine body).2.getD [])
  if requirements = [] then none else some requirements

/-- `recovered_requirements_for_context`. -/
def recoveredRequirementsForContext (floats : JsonText.FloatText) (digits : DigitTable)
    (body : Text) (context : RecoveryContext) : Option Text := do
  let provenance ← parseRecoveryProvenance digits body
  guard (recoveryProvenanceVersion ≤ provenance.version
    ∧ provenance.sourceDigest = Delivery.sha256Text context.sourceBody
    ∧ provenance.titleDigest = some (Delivery.sha256Text context.issueTitle)
    ∧ provenance.repositoryRevision = some context.repositoryRevision
    ∧ provenance.evidenceDigest = evidenceDigest floats context)
  payloadOf body

end Hephaestus.Automation.Requirements
