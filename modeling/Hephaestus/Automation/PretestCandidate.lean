import Hephaestus.Lib.Command
import Hephaestus.Automation.SourceReceipt

/-!
# Pretest candidates

`RemediationPretestCandidate` of `hephaestus/automation/remediation_prepublication.py`
and its store. A candidate is the evidence of a successful remediation before its
test job. The store keeps one for a pull request, in a file that is replaced as a
whole, and the ones before it under their digests. A call reads the record again,
compares its digest with the one its caller saw, checks that the new candidate may
follow the old one, and only then writes.

A call holds the record lock from its first read to its last, so it is one step. The
directory is a map from names to the UTF-8 texts of its files; that a file is regular
and was not changed while it was read is left out.
-/

namespace Hephaestus.Automation.Remediation

open Hephaestus.Lib Hephaestus.Automation.Delivery

/-- `phase`. -/
inductive PretestPhase
  | ready
  | invalidated
  | consumed
  deriving DecidableEq, Repr

def PretestPhase.value : PretestPhase → Text
  | .ready => "ready".toList
  | .invalidated => "invalidated".toList
  | .consumed => "consumed".toList

/-- A text that is a phase. -/
def PretestPhase.read (t : Text) : Option PretestPhase :=
  if t = PretestPhase.ready.value then some .ready
  else if t = PretestPhase.invalidated.value then some .invalidated
  else if t = PretestPhase.consumed.value then some .consumed
  else none

/-- The fields of `RemediationPretestCandidate`. -/
structure PretestFields where
  phase : PretestPhase
  repository : Text
  issueNumber : Int
  prNumber : Int
  repoRoot : Text
  worktreePath : Text
  branch : Text
  expectedRemoteSha : Text
  sourceReceipt : SourceWorkspaceReceipt
  sourceReceiptSha256 : Text
  sourceRepositoryIdentity : Text
  sourceOwnershipKey : Text
  sourceGeneration : Int
  candidateTreeSha : Text
  addPaths : List Text
  updatePaths : List Text
  diff : Text
  diffSha256 : Text
  contentSnapshot : List (Text × Text)
  threadSnapshotJson : Text
  batchNonce : Text
  candidateSequence : Int
  successfulJobId : Text
  successfulResultSha256 : Text
  addressedReplies : List (Text × Text)
  consumedHead : Option Text := none
  deriving DecidableEq

namespace PretestFields

/-- `as_dict`. -/
def asDict (c : PretestFields) : Json :=
  .obj [("phase", jsonText c.phase.value), ("repository", jsonText c.repository),
    ("issue_number", .int c.issueNumber), ("pr_number", .int c.prNumber),
    ("repo_root", jsonText c.repoRoot), ("worktree_path", jsonText c.worktreePath),
    ("branch", jsonText c.branch), ("expected_remote_sha", jsonText c.expectedRemoteSha),
    ("source_receipt", c.sourceReceipt.toDict),
    ("source_receipt_sha256", jsonText c.sourceReceiptSha256),
    ("source_repository_identity", jsonText c.sourceRepositoryIdentity),
    ("source_ownership_key", jsonText c.sourceOwnershipKey),
    ("source_generation", .int c.sourceGeneration),
    ("candidate_tree_sha", jsonText c.candidateTreeSha),
    ("add_paths", .arr (c.addPaths.map jsonText)),
    ("update_paths", .arr (c.updatePaths.map jsonText)), ("diff", jsonText c.diff),
    ("diff_sha256", jsonText c.diffSha256),
    ("content_snapshot", .arr (c.contentSnapshot.map fun item =>
      .arr [jsonText item.1, jsonText item.2])),
    ("thread_snapshot_json", jsonText c.threadSnapshotJson),
    ("batch_nonce", jsonText c.batchNonce), ("candidate_sequence", .int c.candidateSequence),
    ("successful_job_id", jsonText c.successfulJobId),
    ("successful_result_sha256", jsonText c.successfulResultSha256),
    ("addressed_replies", .obj (textsJson c.addressedReplies)),
    ("consumed_head", optionalText c.consumedHead)]

/-- `canonical_bytes`: visible ASCII, so a byte is a character. -/
def canonicalText (floats : JsonText.FloatText) (c : PretestFields) : Text :=
  JsonText.dumps floats (.arr [.int 1, .str "pretest-candidate", c.asDict])

/-- `digest`. -/
def digest (floats : JsonText.FloatText) (c : PretestFields) : Text :=
  sha256Text (c.canonicalText floats)

/-! ## What the constructor checks -/

/-- `_validate_pretest_consumed_head`. -/
def validConsumedHead (c : PretestFields) : Bool :=
  match c.phase, c.consumedHead with
  | .consumed, some head => isFullSha head
  | .consumed, none => false
  | _, head => head.isNone

/-- The owner's part of a repository is cut off. -/
def repositoryNames (repository : Text) : List Text :=
  [repository, (repository.splitOn '/')[1]?.getD []]

/-- `_validate_pretest_source`. -/
def validSource (py : PyCasts) (floats : JsonText.FloatText) (c : PretestFields) : Bool :=
  let r := c.sourceReceipt
  isAbsoluteCanonical c.repoRoot && isAbsoluteCanonical c.worktreePath
    && isInside c.repoRoot c.worktreePath && isBranchShaped c.branch
    && ((SourceWorkspaceReceipt.fromDict py r.toDict).any fun parsed =>
      canonicalSourceReceiptJson floats parsed == canonicalSourceReceiptJson floats r)
    && !r.detached && decide (r.lane = .implementation)
    && (repositoryNames c.repository).contains (py.foldText r.repository)
    && r.dirtyClaim.isNone && r.repositoryIdentity == c.sourceRepositoryIdentity
    && r.ownershipKey == c.sourceOwnershipKey
    && r.ownershipKey == r.repositoryIdentity ++ ":".toList
      ++ JsonText.decimalInt c.issueNumber ++ ":impl".toList
    && r.itemNumber == c.issueNumber && r.generation == c.sourceGeneration
    && r.path.toText == c.worktreePath && r.branch == some c.branch
    && r.revision == c.expectedRemoteSha && sourceReceiptDigest floats r == c.sourceReceiptSha256

/-- The texts of an identity are not blank at their ends. -/
def isIdentityText (t : Text) : Bool :=
  !t.isEmpty && Text.strip t == t && !List.contains t '\x00'

/-- `_validate_pretest_identity`. -/
def validIdentity (py : PyCasts) (floats : JsonText.FloatText) (c : PretestFields) : Bool :=
  ([c.issueNumber, c.prNumber, c.sourceGeneration, c.candidateSequence].all fun n => 0 < n)
    && [c.repository, c.branch, c.sourceRepositoryIdentity, c.sourceOwnershipKey, c.successfulJobId,
      c.batchNonce].all isIdentityText
    && isRepository c.repository && isBatch c.batchNonce && c.successfulJobId.length ≤ 256
    && [c.expectedRemoteSha, c.candidateTreeSha].all isFullSha
    && [c.sourceReceiptSha256, c.diffSha256, c.successfulResultSha256].all isSha256
    && c.validConsumedHead && c.validSource py floats

/-- `_validate_pretest_content`. -/
def validContent (floats : JsonText.FloatText) (c : PretestFields) : Bool :=
  areChangedPaths (c.addPaths ++ c.updatePaths)
    && utf8Length c.diff ≤ implementationInspectionDiffMaxBytes && sha256Text c.diff == c.diffSha256
    && isContentSnapshot c.contentSnapshot
    && rereadThreadSnapshot floats c.threadSnapshotJson == some c.threadSnapshotJson
    && isReplyResult floats c.successfulResultSha256 c.addressedReplies
    && repliesMatchThreads floats c.addressedReplies c.threadSnapshotJson

/-- `__post_init__`; `false` where it raises. -/
def postInit (py : PyCasts) (floats : JsonText.FloatText) (c : PretestFields) : Bool :=
  c.validIdentity py floats && c.validContent floats
    && utf8Length (c.canonicalText floats) ≤ storeMaxBytes

end PretestFields

/-- `RemediationPretestCandidate`. -/
structure PretestCandidate (py : PyCasts) (floats : JsonText.FloatText) where
  val : PretestFields
  valid : val.postInit py floats = true

namespace PretestCandidate

variable (py : PyCasts) (floats : JsonText.FloatText)

theorem ext_val {a b : PretestCandidate py floats} (h : a.val = b.val) : a = b := by
  cases a
  cases b
  congr

instance : DecidableEq (PretestCandidate py floats) := fun a b =>
  decidable_of_iff (a.val = b.val) ⟨ext_val py floats, fun h => congrArg val h⟩

/-- The constructor. -/
def make (c : PretestFields) : Option (PretestCandidate py floats) :=
  if h : c.postInit py floats = true then some ⟨c, h⟩ else none

/-- The names of the fields. -/
def fieldNames : List String :=
  ["phase", "repository", "issue_number", "pr_number", "repo_root", "worktree_path", "branch",
    "expected_remote_sha", "source_receipt", "source_receipt_sha256", "source_repository_identity",
    "source_ownership_key", "source_generation", "candidate_tree_sha", "add_paths", "update_paths",
    "diff", "diff_sha256", "content_snapshot", "thread_snapshot_json", "batch_nonce",
    "candidate_sequence", "successful_job_id", "successful_result_sha256", "addressed_replies",
    "consumed_head"]

/-- `consumed_head`, a text or `None`. -/
def optionalTextField (value : Json) (key : String) : Option (Option Text) :=
  match value.field key with
  | .null => some none
  | .str text => some (some text.toList)
  | _ => none

/-- `from_dict`; nothing where it raises. -/
def fromDict (value : Json) : Option (PretestCandidate py floats) := do
  guard (hasKeys fieldNames value)
  let receipt := value.field "source_receipt"
  guard receipt.asObj?.isSome
  let parsed ← SourceWorkspaceReceipt.fromDict py receipt
  guard (JsonText.dumps floats parsed.toDict = JsonText.dumps floats receipt)
  let addPaths ← textList (value.field "add_paths")
  let updatePaths ← textList (value.field "update_paths")
  let contentSnapshot ← pairList (value.field "content_snapshot")
  let addressedReplies ← replyPairs (value.field "addressed_replies")
  let phase ← PretestPhase.read (← textField value "phase")
  let repository ← textField value "repository"
  let issueNumber ← (value.field "issue_number").asInt?
  let prNumber ← (value.field "pr_number").asInt?
  let repoRoot ← textField value "repo_root"
  let worktreePath ← textField value "worktree_path"
  let branch ← textField value "branch"
  let expectedRemoteSha ← textField value "expected_remote_sha"
  let sourceReceiptSha256 ← textField value "source_receipt_sha256"
  let sourceRepositoryIdentity ← textField value "source_repository_identity"
  let sourceOwnershipKey ← textField value "source_ownership_key"
  let sourceGeneration ← (value.field "source_generation").asInt?
  let candidateTreeSha ← textField value "candidate_tree_sha"
  let diff ← textField value "diff"
  let diffSha256 ← textField value "diff_sha256"
  let threadSnapshotJson ← textField value "thread_snapshot_json"
  let batchNonce ← textField value "batch_nonce"
  let candidateSequence ← (value.field "candidate_sequence").asInt?
  let successfulJobId ← textField value "successful_job_id"
  let successfulResultSha256 ← textField value "successful_result_sha256"
  let consumedHead ← optionalTextField value "consumed_head"
  make py floats {
    phase := phase, repository := repository, issueNumber := issueNumber, prNumber := prNumber
    repoRoot := repoRoot, worktreePath := worktreePath, branch := branch
    expectedRemoteSha := expectedRemoteSha, sourceReceipt := parsed
    sourceReceiptSha256 := sourceReceiptSha256
    sourceRepositoryIdentity := sourceRepositoryIdentity, sourceOwnershipKey := sourceOwnershipKey
    sourceGeneration := sourceGeneration, candidateTreeSha := candidateTreeSha
    addPaths := addPaths, updatePaths := updatePaths, diff := diff, diffSha256 := diffSha256
    contentSnapshot := contentSnapshot, threadSnapshotJson := threadSnapshotJson
    batchNonce := batchNonce, candidateSequence := candidateSequence
    successfulJobId := successfulJobId, successfulResultSha256 := successfulResultSha256
    addressedReplies := addressedReplies, consumedHead := consumedHead }

end PretestCandidate

/-! ## The store -/

/-- The files of the store directory. -/
abbrev StoreFiles := Text → Option Text

/-- What a call raises. -/
inductive StoreError
  | value (message : String)
  | fileExists
  deriving DecidableEq, Repr

/-- `_pretest_filename` without its suffix. -/
def pretestStem (prNumber : Int) : Text :=
  "pr-".toList ++ JsonText.decimalInt prNumber ++ "-pretest".toList

/-- `_pretest_filename`. -/
def pretestFilename (prNumber : Int) : Text := pretestStem prNumber ++ ".json".toList

/-- Where a candidate is archived. -/
def pretestHistory (prNumber : Int) (digest : Text) : Text :=
  pretestStem prNumber ++ "-".toList ++ digest ++ ".json".toList

/-- The name a candidate is first written under. -/
def pretestTemporary (prNumber : Int) (unique : Text) : Text :=
  pretestFilename prNumber ++ ".".toList ++ unique ++ ".next".toList

section Store

variable (py : PyCasts) (floats : JsonText.FloatText)

/-- The envelope of a record. -/
def pretestEnvelope : Json → Option Json
  | .arr [.int 1, kind, payload] => if kind.eq (.str "pretest-candidate") then some payload else none
  | _ => none

/-- The text of a record as a candidate; nothing where it raises. -/
def parsePretest (data : Text) : Option (PretestCandidate py floats) := do
  guard (utf8Length data ≤ storeMaxBytes)
  let payload ← pretestEnvelope (← JsonText.loads floats JsonText.keepLast data)
  let candidate ← PretestCandidate.fromDict py floats payload
  guard (candidate.val.canonicalText floats = data)
  return candidate

/-- `_read_pretest`. -/
def readPretest (name : Text) :
    Command StoreFiles StoreError (Option (PretestCandidate py floats)) := do
  let files ← get
  match files name with
  | none => pure none
  | some data =>
      match parsePretest py floats data with
      | some candidate => pure (some candidate)
      | none => throw (.value "remediation pretest record is invalid")

/-- `_write_pretest_bytes`. -/
def writePretestBytes (name data : Text) : Command StoreFiles StoreError Unit := do
  let files ← get
  if (files name).isSome then throw .fileExists
  else set (Function.update files name (some data))

/-- `os.replace`. -/
def replaceFile (source target : Text) : Command StoreFiles StoreError Unit :=
  modify fun files => Function.update (Function.update files target (files source)) source none

/-- The fields a replacement keeps: `stable_fields`. -/
def sameStableFields (current candidate : PretestFields) : Bool :=
  current.repository == candidate.repository && current.issueNumber == candidate.issueNumber
    && current.prNumber == candidate.prNumber && current.repoRoot == candidate.repoRoot
    && current.worktreePath == candidate.worktreePath && current.branch == candidate.branch
    && current.expectedRemoteSha == candidate.expectedRemoteSha
    && decide (current.sourceReceipt = candidate.sourceReceipt)
    && current.sourceReceiptSha256 == candidate.sourceReceiptSha256
    && current.sourceRepositoryIdentity == candidate.sourceRepositoryIdentity
    && current.sourceOwnershipKey == candidate.sourceOwnershipKey
    && current.sourceGeneration == candidate.sourceGeneration
    && current.threadSnapshotJson == candidate.threadSnapshotJson
    && current.batchNonce == candidate.batchNonce

/-- `_validate_pretest_transition`. -/
def validatePretestTransition (current : Option (PretestCandidate py floats))
    (candidate : PretestCandidate py floats) (expectedDigest previousJob : Option Text) :
    Except StoreError Unit :=
  match current with
  | none =>
      raiseIf (expectedDigest.isSome ∨ candidate.val.phase ≠ .ready
          ∨ candidate.val.candidateSequence ≠ 1)
        (.value "remediation pretest initial state is invalid")
  | some current => do
      raiseIf (some (current.val.digest floats) ≠ expectedDigest)
        (.value "remediation pretest compare-and-swap digest changed")
      if current.val.phase = .ready ∧ candidate.val.phase ≠ .ready then
        -- `replace` runs the constructor, which the candidate has passed where they are equal
        raiseIf (candidate.val ≠ { current.val with
            phase := candidate.val.phase, consumedHead := candidate.val.consumedHead })
          (.value "remediation pretest phase update changed candidate evidence")
      else if current.val.phase = .invalidated ∧ candidate.val.phase = .ready then
        raiseIf (sameStableFields current.val candidate.val = false
            ∨ candidate.val.candidateSequence ≠ current.val.candidateSequence + 1
            ∨ previousJob ≠ some current.val.successfulJobId
            ∨ candidate.val.successfulJobId = current.val.successfulJobId)
          (.value "remediation pretest replacement lineage is invalid")
      else throw (.value "remediation pretest phase transition is invalid")

/-- The arguments of `save_pretest_candidate`; `repoRoot` is resolved. -/
structure SavePretest where
  repoRoot : Text
  candidate : PretestCandidate py floats
  expectedDigest : Option Text := none
  previousSuccessfulJobId : Option Text := none

/-- The candidate that is stored goes to the archive. -/
def archivePretest (prNumber : Int) (current : PretestCandidate py floats) :
    Command StoreFiles StoreError Unit := do
  let history := pretestHistory prNumber (current.val.digest floats)
  match ← readPretest py floats history with
  | none => writePretestBytes history (current.val.canonicalText floats)
  | some archived =>
      Command.attempt (raiseIf (archived ≠ current)
        (.value "remediation pretest archived evidence changed"))

/-- The candidate replaces the record; `unique` is the `uuid4` of the temporary file. -/
def replacePretest (candidate : PretestCandidate py floats) (unique : Text) :
    Command StoreFiles StoreError Unit := do
  let name := pretestFilename candidate.val.prNumber
  let temporary := pretestTemporary candidate.val.prNumber unique
  writePretestBytes temporary (candidate.val.canonicalText floats)
  replaceFile temporary name
  let written ← readPretest py floats name
  Command.attempt (raiseIf (written ≠ some candidate)
    (.value "remediation pretest write did not retain exact evidence"))

/-- `save_pretest_candidate`. -/
def savePretestCandidate (call : SavePretest py floats) (unique : Text) :
    Command StoreFiles StoreError Text := do
  let candidate := call.candidate
  let digest := candidate.val.digest floats
  Command.attempt (raiseIf (candidate.val.repoRoot ≠ call.repoRoot)
    (.value "remediation pretest repository path changed"))
  let current ← readPretest py floats (pretestFilename candidate.val.prNumber)
  if current = some candidate then do
    Command.attempt (raiseIf (call.expectedDigest.isSome ∧ call.expectedDigest ≠ some digest)
      (.value "remediation pretest duplicate has a stale digest"))
    pure digest
  else do
    Command.attempt (validatePretestTransition py floats current candidate call.expectedDigest
      call.previousSuccessfulJobId)
    match current with
    | some current => archivePretest py floats candidate.val.prNumber current
    | none => pure ()
    replacePretest py floats candidate unique
    pure digest

end Store

end Hephaestus.Automation.Remediation
