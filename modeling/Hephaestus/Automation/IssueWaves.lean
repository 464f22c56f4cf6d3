import Mathlib.Data.List.Nodup
import Hephaestus.Lib.Command

/-!
# Issue waves

`hephaestus/automation/issue_waves.py`: the durable checkpoint of a staged
rollout. The document is a list of waves, each an immutable selection of
issues with the evidence recorded for them so far; a store method takes the
exclusive lock, reads the document, checks, and at most once writes a whole
new document back. A method is one command over the stored document here,
and the interleaving of processes is the interleaving of commands.

A dataclass with a `__post_init__` is a structure of its fields with the
check beside it, and the values that exist at run time are the checked
ones. `dataclasses.replace` runs the check again, and so does every `make`
below. Issue and pull-request numbers are `Int`: a caller may pass a number
that the check rejects.

Left out: confinement of paths, the lock's own failure and the JSON
encoding; the stored document is the checkpoint itself.
-/

namespace Hephaestus.Automation

open Hephaestus.Lib

/-- The three subclasses of `IssueWaveError` a store method raises on its
own account. -/
inductive IssueWaveErrorKind
  | validation
  | conflict
  | blocked
  deriving DecidableEq, Repr

structure IssueWaveError where
  kind : IssueWaveErrorKind
  message : String
  deriving DecidableEq, Repr

def validationError (message : String) : IssueWaveError := ⟨.validation, message⟩
def conflictError (message : String) : IssueWaveError := ⟨.conflict, message⟩
def blockedError (message : String) : IssueWaveError := ⟨.blocked, message⟩

/-- `WAVE_LIMITS`: the sizes of the successive waves, `none` for all. -/
def waveLimits : List (Option Int) := [some 1, some 2, some 4, some 8, none]

/-! ## Field checks -/

/-- `character in "0123456789abcdef"`. -/
def isHexDigit (c : Char) : Bool := "0123456789abcdef".toList.contains c

/-- `is_full_commit_sha`. -/
def isFullCommitSha (value : String) : Bool :=
  (value.length = 40 || value.length = 64) && value.toList.all isHexDigit

/-- The loop of `_positive_issue_numbers`, with the numbers already seen. -/
def positiveIssueNumbersLoop (fieldName : String) (seen : List Int) :
    List Int → Except IssueWaveError Unit
  | [] => .ok ()
  | value :: values => do
      raiseIf (value ≤ 0)
        (validationError (fieldName ++ " contains an invalid issue number"))
      raiseIf (value ∈ seen)
        (validationError (fieldName ++ " contains duplicate issue #" ++ toString value))
      positiveIssueNumbersLoop fieldName (value :: seen) values

/-- `_positive_issue_numbers`: its check; it returns its argument. -/
def positiveIssueNumbers (values : List Int) (fieldName : String) :
    Except IssueWaveError Unit :=
  positiveIssueNumbersLoop fieldName [] values

/-- `_limit`. -/
def checkLimit (value : Option Int) (fieldName : String) :
    Except IssueWaveError Unit := do
  raiseIf (value.any (· ≤ 0))
    (validationError (fieldName ++ " must be a positive integer or null"))
  raiseIf (value ∉ waveLimits)
    (validationError (fieldName ++ " must be one of 1, 2, 4, 8, all"))

/-- `_required_text`. -/
def requiredText (value fieldName : String) : Except IssueWaveError Unit :=
  raiseIf (value = "") (validationError (fieldName ++ " must be a non-empty string"))

/-! ## The documents -/

/-- `WaveLease`. -/
structure WaveLease where
  org : String
  repo : String
  waveIndex : Nat
  limit : Option Int
  issueNumbers : List Int
  baseMainSha : String
  nonce : String
  deriving DecidableEq, Repr

def WaveLease.postInit (l : WaveLease) : Except IssueWaveError Unit := do
  raiseIf (l.org = "" ∨ l.repo = "")
    (validationError "wave lease must identify an organization and repository")
  checkLimit l.limit "limit"
  positiveIssueNumbers l.issueNumbers "wave issue_numbers"
  raiseIf (¬ isFullCommitSha l.baseMainSha)
    (validationError "wave base_main_sha is not a full commit SHA")
  requiredText l.nonce "wave nonce"

/-- `WaveMergeReceipt`. -/
structure WaveMergeReceipt where
  issueNumber : Int
  prNumber : Int
  reviewedHeadSha : String
  mergeSha : String
  deriving DecidableEq, Repr

def WaveMergeReceipt.postInit (r : WaveMergeReceipt) : Except IssueWaveError Unit := do
  raiseIf (r.issueNumber ≤ 0)
    (validationError "merge receipt issue_number must be positive")
  raiseIf (r.prNumber ≤ 0) (validationError "merge receipt pr_number must be positive")
  raiseIf (¬ isFullCommitSha r.reviewedHeadSha)
    (validationError "merge receipt reviewed_head_sha is invalid")
  raiseIf (¬ isFullCommitSha r.mergeSha)
    (validationError "merge receipt merge_sha is invalid")

/-- `WaveIssueOutcome`. -/
structure WaveIssueOutcome where
  issueNumber : Int
  passed : Bool
  reason : String
  prNumber : Option Int := none
  nonCode : Bool := false
  deriving DecidableEq, Repr

def WaveIssueOutcome.postInit (o : WaveIssueOutcome) : Except IssueWaveError Unit := do
  raiseIf (o.issueNumber ≤ 0)
    (validationError "wave outcome issue_number must be positive")
  raiseIf (o.reason = "") (validationError "wave outcome reason must be non-empty")
  raiseIf (o.nonCode ∧ ¬ o.passed)
    (validationError "non-code wave outcome must be a passing boolean")
  raiseIf (o.nonCode ∧ o.prNumber ≠ none)
    (validationError "non-code wave outcome cannot reference a PR")
  raiseIf (o.prNumber.any (· ≤ 0))
    (validationError "wave outcome pr_number must be positive or null")

/-- `WaveNonCodeIntent`. -/
structure WaveNonCodeIntent where
  issueNumber : Int
  reason : String
  evidenceDigest : String
  repositoryRevision : String
  extraLabels : List String := []
  explanation : String := ""
  retired : Bool := false
  deriving DecidableEq, Repr

def WaveNonCodeIntent.postInit (i : WaveNonCodeIntent) : Except IssueWaveError Unit := do
  raiseIf (i.issueNumber ≤ 0)
    (validationError "non-code intent issue_number must be positive")
  raiseIf (i.reason = "") (validationError "non-code intent reason must be non-empty")
  raiseIf (¬ (i.evidenceDigest.length = 64 ∧ i.evidenceDigest.toList.all isHexDigit))
    (validationError "non-code intent evidence_digest is invalid")
  raiseIf (¬ isFullCommitSha i.repositoryRevision)
    (validationError "non-code intent repository_revision is invalid")
  raiseIf (i.extraLabels.any fun label => label == "" || label.startsWith "state:")
    (validationError "non-code intent extra labels are invalid")
  raiseIf (¬ i.extraLabels.Nodup)
    (validationError "non-code intent extra labels contain duplicates")

/-- The check reads no flag, so `replace(intent, retired=...)` never
raises. -/
def retiredAs (b : Bool) (i : Checked WaveNonCodeIntent.postInit) :
    Checked WaveNonCodeIntent.postInit :=
  ⟨{ i.val with retired := b }, i.property⟩

/-- `WaveRecord`. -/
structure WaveRecord where
  waveIndex : Nat
  limit : Option Int
  issueNumbers : List Int
  baseMainSha : String
  leaseNonce : String
  outcomes : List (Checked WaveIssueOutcome.postInit) := []
  mergeReceipts : List (Checked WaveMergeReceipt.postInit) := []
  nonCodeIntents : List (Checked WaveNonCodeIntent.postInit) := []
  verifiedMainSha : Option String := none
  deriving DecidableEq

namespace WaveRecord

def outcomeIds (r : WaveRecord) : List Int := r.outcomes.map (·.val.issueNumber)
def receiptIds (r : WaveRecord) : List Int := r.mergeReceipts.map (·.val.issueNumber)
def intentIds (r : WaveRecord) : List Int := r.nonCodeIntents.map (·.val.issueNumber)

/-- `next((item for item in record.outcomes if ...), None)`, and the same
for the other two kinds of evidence. -/
def outcomeFor (r : WaveRecord) (issueNumber : Int) :
    Option (Checked WaveIssueOutcome.postInit) :=
  r.outcomes.find? fun o => o.val.issueNumber = issueNumber

def receiptFor (r : WaveRecord) (issueNumber : Int) :
    Option (Checked WaveMergeReceipt.postInit) :=
  r.mergeReceipts.find? fun m => m.val.issueNumber = issueNumber

def intentFor (r : WaveRecord) (issueNumber : Int) :
    Option (Checked WaveNonCodeIntent.postInit) :=
  r.nonCodeIntents.find? fun i => i.val.issueNumber = issueNumber

/-- One family of evidence ids against the selection: no duplicates, none
from outside. -/
def MatchesSelection (r : WaveRecord) (ids : List Int) : Prop :=
  ids.Nodup ∧ ids ⊆ r.issueNumbers

instance (r : WaveRecord) (ids : List Int) : Decidable (r.MatchesSelection ids) :=
  inferInstanceAs (Decidable (_ ∧ _))

/-- A non-code outcome and the intent recorded for its issue agree. -/
def intentMatches (r : WaveRecord) (o : WaveIssueOutcome) : Bool :=
  (r.intentFor o.issueNumber).any fun i => !i.val.retired && i.val.reason == o.reason

def postInit (r : WaveRecord) : Except IssueWaveError Unit := do
  checkLimit r.limit "limit"
  positiveIssueNumbers r.issueNumbers "wave record issue_numbers"
  raiseIf (r.limit.any fun n => n < (r.issueNumbers.length : Int))
    (validationError "wave record exceeds its issue limit")
  raiseIf (¬ isFullCommitSha r.baseMainSha)
    (validationError "wave record base_main_sha is invalid")
  requiredText r.leaseNonce "wave record lease_nonce"
  raiseIf (¬ r.MatchesSelection r.outcomeIds)
    (validationError "wave outcomes do not match the immutable selection")
  raiseIf (¬ r.MatchesSelection r.receiptIds)
    (validationError "wave receipts do not match the immutable selection")
  raiseIf (¬ r.MatchesSelection r.intentIds)
    (validationError "wave non-code intents do not match the selection")
  raiseIf (r.outcomes.any fun o => o.val.nonCode && !r.intentMatches o.val)
    (validationError "wave non-code outcome requires one matching active intent")
  raiseIf (r.verifiedMainSha.any fun sha => !isFullCommitSha sha)
    (validationError "wave verified_main_sha is invalid")

/-- `WaveRecord.complete`: the outcomes cover the selection, both ways. -/
def complete (r : WaveRecord) : Bool :=
  r.outcomeIds ⊆ r.issueNumbers ∧ r.issueNumbers ⊆ r.outcomeIds

/-- `WaveRecord.passed`. -/
def passed (r : WaveRecord) : Bool := r.complete && r.outcomes.all (·.val.passed)

/-- `WaveRecord.lease`. -/
def lease (r : WaveRecord) (org repo : String) :
    Except IssueWaveError (Checked WaveLease.postInit) :=
  Checked.make WaveLease.postInit
    { org, repo, waveIndex := r.waveIndex, limit := r.limit, issueNumbers := r.issueNumbers,
      baseMainSha := r.baseMainSha, nonce := r.leaseNonce }

/-- `_ancestry_shas`. -/
def ancestryShas (r : WaveRecord) : List String :=
  r.baseMainSha :: r.mergeReceipts.map (·.val.mergeSha)

end WaveRecord

inductive WaveStatus
  | active
  | completed
  deriving DecidableEq, Repr

/-- `WaveCheckpoint`. -/
structure WaveCheckpoint where
  org : String
  repo : String
  generation : Nat
  status : WaveStatus
  waves : List (Checked WaveRecord.postInit)
  completedMainSha : Option String := none
  deriving DecidableEq

namespace WaveCheckpoint

def postInit (c : WaveCheckpoint) : Except IssueWaveError Unit := do
  raiseIf (c.org = "" ∨ c.repo = "")
    (validationError "checkpoint must identify an organization and repository")
  raiseIf (c.generation < 1) (validationError "checkpoint generation must be positive")
  raiseIf (c.waves = []) (validationError "checkpoint must contain at least one wave")
  raiseIf (c.waves.map (·.val.waveIndex) ≠ List.range c.waves.length)
    (validationError "checkpoint wave indexes are not contiguous")
  raiseIf (c.status = .completed ∧ c.completedMainSha = none)
    (validationError "completed checkpoint requires completed_main_sha")
  raiseIf (c.completedMainSha.any fun sha => !isFullCommitSha sha)
    (validationError "checkpoint completed_main_sha is invalid")

end WaveCheckpoint

/-- A checkpoint that passed its check, as the file holds it. -/
abbrev StoredCheckpoint := Checked WaveCheckpoint.postInit

/-- `current_wave`: there is one, since the check refuses an empty list. -/
def StoredCheckpoint.currentWave? (c : StoredCheckpoint) :
    Option (Checked WaveRecord.postInit) :=
  c.val.waves.getLast?

/-- The generation a writer sees: zero where there is no file. -/
def storedGeneration (current : Option StoredCheckpoint) : Nat :=
  (current.map fun c => c.val.generation).getD 0

/-- The waves a writer sees. -/
def storedWaves (current : Option StoredCheckpoint) : List (Checked WaveRecord.postInit) :=
  (current.map fun c => c.val.waves).getD []

inductive WaveAdmissionMode
  | ordinary
  | resume
  | select
  | audit
  deriving DecidableEq, Repr

/-- `WaveAdmissionPlan`. -/
structure WaveAdmissionPlan where
  mode : WaveAdmissionMode
  requestedLimit : Option Int
  currentMainSha : String
  expectedGeneration : Option Nat := none
  waveIndex : Option Nat := none
  lease : Option (Checked WaveLease.postInit) := none
  requiresAncestry : Bool := false
  ancestorShas : List String := []
  checkpoint : Option StoredCheckpoint := none
  diagnostic : String := ""
  deriving DecidableEq

/-! ## Facts from GitHub -/

/-- What the store reads of the fresh facts about an issue. `none` for a
title or a body that is not a string. -/
structure IssueFacts where
  title : Option String := none
  body : Option String := none
  labels : List String := []
  authoritySanitized : Bool := false
  prNumber : Option Int := none
  prIsMerged : Bool := false
  isEpic : Bool := false
  deriving DecidableEq, Repr

/-- `evidence_digest` of `requirements_recovery.py`: repository, issue,
revision, title, body. A digest, so a parameter. -/
abbrev EvidenceDigest := String → Int → String → String → String → String

def stateSkip : String := "state:skip"

def allStateLabels : List String :=
  ["state:needs-plan", "state:plan-no-go", "state:plan-go", "state:plan-blocked"]

def allImplementationStateLabels : List String :=
  ["state:implementation-no-go", "state:implementation-go"]

def athenaFinalizedPlanLabel : String := "athena:finalized-plan"

/-- `_non_code_intent_matches_facts`. -/
def nonCodeIntentMatchesFacts (digest : EvidenceDigest) (intent : WaveNonCodeIntent)
    (facts : Option IssueFacts) (repository : String) : Bool :=
  if intent.retired then false
  else
    match facts with
    | none => false
    | some f =>
        if f.authoritySanitized then false
        else
          match f.title, f.body with
          | some title, some body =>
              intent.evidenceDigest ==
                digest repository intent.issueNumber intent.repositoryRevision title body
          | _, _ => false

/-- `non_code_intent_skip_is_applied`. -/
def nonCodeIntentSkipIsApplied (intent : WaveNonCodeIntent) (labels : List String) : Bool :=
  labels.contains stateSkip &&
    intent.extraLabels.all (labels.contains ·) &&
    !labels.any (allStateLabels.contains ·) &&
    !labels.any (allImplementationStateLabels.contains ·) &&
    !labels.contains athenaFinalizedPlanLabel

/-- `_non_code_intent_is_applied`. -/
def nonCodeIntentIsApplied (intent : WaveNonCodeIntent) (facts : Option IssueFacts) : Bool :=
  !intent.retired &&
    nonCodeIntentSkipIsApplied intent ((facts.map IssueFacts.labels).getD [])

/-- `_require_reviewed_non_code_skip`. -/
def requireReviewedNonCodeSkip (digest : EvidenceDigest) (outcome : WaveIssueOutcome)
    (facts : Option IssueFacts) (drift : String)
    (intent : Option (Checked WaveNonCodeIntent.postInit)) (repository : String) :
    Except IssueWaveError Unit :=
  raiseIf (¬ intent.any fun i =>
      nonCodeIntentMatchesFacts digest i.val facts repository &&
        nonCodeIntentIsApplied i.val facts)
    (blockedError ("issue #" ++ toString outcome.issueNumber ++ " " ++ drift))

/-- One turn of the loop of `_validate_verified_outcome_facts`. The source
takes the receipt of a code outcome for granted; where there is none its
`next` raises, which no checkpoint the store wrote can reach. -/
def validateVerifiedOutcome (digest : EvidenceDigest) (record : WaveRecord)
    (factsByIssue : Int → Option IssueFacts) (repository : String)
    (outcome : WaveIssueOutcome) : Except IssueWaveError Unit :=
  let facts := factsByIssue outcome.issueNumber
  if outcome.nonCode then
    requireReviewedNonCodeSkip digest outcome facts "lost its reviewed non-code skip"
      (record.intentFor outcome.issueNumber) repository
  else
    let merged := (record.receiptFor outcome.issueNumber).any fun receipt =>
      facts.any fun f => f.prNumber == some receipt.val.prNumber && f.prIsMerged
    raiseIf (¬ merged)
      (blockedError ("issue #" ++ toString outcome.issueNumber ++
        " is closed/unmerged or externally changed"))

/-- `_validate_verified_outcome_facts`. -/
def validateVerifiedOutcomeFacts (digest : EvidenceDigest) (record : WaveRecord)
    (factsByIssue : Int → Option IssueFacts) (repository : String) :
    Except IssueWaveError Unit :=
  record.outcomes.forM fun o =>
    validateVerifiedOutcome digest record factsByIssue repository o.val

/-! ## The store -/

/-- `IssueWaveStore`, bound to one repository. -/
structure IssueWaveStore where
  org : String
  repo : String
  org_ne : org ≠ ""
  repo_ne : repo ≠ ""

/-- A store method: a command over the checkpoint file. -/
abbrev WaveCommand := Command (Option StoredCheckpoint) IssueWaveError

namespace IssueWaveStore

variable (store : IssueWaveStore)

/-- `_read_unlocked`. -/
def readUnlocked : WaveCommand (Option StoredCheckpoint) := do
  match ← get with
  | none => return none
  | some checkpoint =>
      Command.attempt (raiseIf
        (checkpoint.val.org ≠ store.org ∨ checkpoint.val.repo ≠ store.repo)
        (validationError
          "issue-wave checkpoint repository binding does not match the current repository"))
      return some checkpoint

/-- `_current_record`. -/
def currentRecord (checkpoint : WaveCheckpoint) (lease : WaveLease) :
    Except IssueWaveError (Checked WaveRecord.postInit) := do
  raiseIf (lease.org ≠ checkpoint.org ∨ lease.repo ≠ checkpoint.repo)
    (validationError "wave lease repository binding does not match checkpoint")
  match checkpoint.waves[lease.waveIndex]? with
  | none => .error (conflictError "wave lease is no longer present in the checkpoint")
  | some record =>
      raiseIf (record.val.leaseNonce ≠ lease.nonce ∨
          record.val.issueNumbers ≠ lease.issueNumbers)
        (conflictError "wave lease selection is stale or was externally changed")
      .ok record

/-- `_next_limit`. -/
def nextLimit (current : Option Int) : Option Int :=
  waveLimits.getD (waveLimits.idxOf current + 1) none

/-- The plan for an existing checkpoint that is still active and is asked
for the limit of its current wave. -/
def planSameLimit (currentMainSha : String) (requestedLimit : Option Int)
    (checkpoint : StoredCheckpoint) (current : WaveRecord)
    (lease : Checked WaveLease.postInit) : Except IssueWaveError WaveAdmissionPlan := do
  let mainAdvanced : Bool := currentMainSha ≠ current.baseMainSha
  let receiptResume : Bool := current.mergeReceipts ≠ [] ∧ ¬ current.complete
  raiseIf (mainAdvanced ∧ current.mergeReceipts = [] ∧ ¬ current.complete)
    (blockedError "active issue wave advanced without a recorded loop-owned merge receipt")
  let resumeRequiresAncestry := mainAdvanced || receiptResume
  if current.complete ∧ current.passed ∧ current.limit = none then
    return { mode := .audit, requestedLimit := none, currentMainSha,
             expectedGeneration := some checkpoint.val.generation,
             waveIndex := some current.waveIndex, lease := some lease,
             requiresAncestry := current.verifiedMainSha ≠ some currentMainSha,
             ancestorShas := current.ancestryShas, checkpoint := some checkpoint,
             diagnostic := "final wave is complete; verify and close the rollout" }
  return { mode := .resume, requestedLimit, currentMainSha,
           expectedGeneration := some checkpoint.val.generation,
           waveIndex := some current.waveIndex, lease := some lease,
           requiresAncestry := resumeRequiresAncestry,
           ancestorShas := if resumeRequiresAncestry then current.ancestryShas else [],
           checkpoint := some checkpoint,
           diagnostic := "resuming the immutable selected issue identifiers" }

/-- The failures named in the refusal of the next wave. -/
def failureList (current : WaveRecord) : String :=
  let failures := ", ".intercalate ((current.outcomes.filter fun o => !o.val.passed).map
    fun o => "#" ++ toString o.val.issueNumber ++ ": " ++ o.val.reason)
  if failures = "" then "selected issues have not reached terminal outcomes" else failures

/-- A selector as the refusals print it. -/
def selectorText : Option Int → String
  | none => "all eligible issues"
  | some n => "--issue-limit " ++ toString n

/-- The plan for an active checkpoint that is asked for another limit. -/
def planNextWave (currentMainSha : String) (requestedLimit : Option Int)
    (checkpoint : StoredCheckpoint) (current : WaveRecord) :
    Except IssueWaveError WaveAdmissionPlan := do
  raiseIf (¬ current.complete ∨ ¬ current.passed)
    (blockedError ("issue wave " ++ toString (current.waveIndex + 1) ++
      " is not complete; repair or recover it before requesting the next wave (" ++
      failureList current ++ ")"))
  let expected := nextLimit current.limit
  raiseIf (requestedLimit ≠ expected)
    (blockedError ("unexpected issue-wave selector " ++ selectorText requestedLimit ++
      "; after wave " ++ (current.limit.map toString).getD "all" ++
      " the next selector is " ++ selectorText expected))
  return { mode := .select, requestedLimit, currentMainSha,
           expectedGeneration := some checkpoint.val.generation,
           waveIndex := some (current.waveIndex + 1),
           requiresAncestry := current.verifiedMainSha ≠ some currentMainSha,
           ancestorShas := current.ancestryShas, checkpoint := some checkpoint,
           diagnostic := "prior issue wave verified before selecting the next wave" }

/-- The plan when no checkpoint exists. -/
def planFirstWave (currentMainSha : String) (requestedLimit : Option Int) :
    Except IssueWaveError WaveAdmissionPlan := do
  if requestedLimit = none then
    return { mode := .ordinary, requestedLimit := none, currentMainSha }
  raiseIf (some requestedLimit ≠ waveLimits.head?)
    (blockedError "no issue-wave checkpoint exists; rollout must start with --issue-limit 1")
  return { mode := .select, requestedLimit, currentMainSha,
           expectedGeneration := some 0, waveIndex := some 0 }

/-- The plan when the rollout is over. -/
def planCompleted (currentMainSha : String) (requestedLimit : Option Int)
    (checkpoint : StoredCheckpoint) (current : WaveRecord)
    (lease : Checked WaveLease.postInit) : Except IssueWaveError WaveAdmissionPlan := do
  raiseIf (requestedLimit ≠ none)
    (blockedError ("issue-wave rollout already completed; bounded selectors are " ++
      "rejected; use explicit --issues/--prs recovery if needed"))
  raiseIf (checkpoint.val.completedMainSha ≠ some currentMainSha)
    (blockedError ("completed issue-wave rollout is bound to a different " ++
      "synchronized main revision"))
  return { mode := .audit, requestedLimit := none, currentMainSha,
           expectedGeneration := some checkpoint.val.generation,
           waveIndex := some current.waveIndex, lease := some lease,
           checkpoint := some checkpoint,
           diagnostic := "issue-wave rollout is completed; audit-only run" }

/-- `_plan_locked` after the read. A checkpoint without a current wave does
not exist, so that arm is the one of an absent checkpoint. -/
def planFor (currentMainSha : String) (requestedLimit : Option Int)
    (stored : Option StoredCheckpoint) : Except IssueWaveError WaveAdmissionPlan :=
  match stored.bind fun c => c.currentWave?.map fun w => (c, w) with
  | none => planFirstWave currentMainSha requestedLimit
  | some (checkpoint, current) => do
      let lease ← current.val.lease store.org store.repo
      if checkpoint.val.status = .completed then
        planCompleted currentMainSha requestedLimit checkpoint current.val lease
      else if requestedLimit = current.val.limit then
        planSameLimit currentMainSha requestedLimit checkpoint current.val lease
      else planNextWave currentMainSha requestedLimit checkpoint current.val

/-- `plan_admission`. -/
def planAdmission (currentMainSha : String) (requestedLimit : Option Int) :
    WaveCommand WaveAdmissionPlan := do
  Command.attempt (raiseIf (¬ isFullCommitSha currentMainSha)
    (validationError "synchronized main revision is not a full commit SHA"))
  Command.attempt (checkLimit requestedLimit "issue-limit")
  let stored ← store.readUnlocked
  Command.attempt (store.planFor currentMainSha requestedLimit stored)

/-- The document `seal_selection` writes, with the nonce `uuid4` drew. -/
def sealedCheckpoint (plan : WaveAdmissionPlan) (selected : List Int) (nonce : String)
    (current : Option StoredCheckpoint) :
    Except IssueWaveError (Checked WaveRecord.postInit × StoredCheckpoint) := do
  raiseIf (some (storedGeneration current) ≠ plan.expectedGeneration)
    (conflictError "issue-wave checkpoint changed before selection sealing")
  raiseIf (current.any fun c => c.val.org != store.org)
    (validationError "issue-wave organization binding changed")
  let record ← Checked.make WaveRecord.postInit
    { waveIndex := plan.waveIndex.getD 0, limit := plan.requestedLimit,
      issueNumbers := selected, baseMainSha := plan.currentMainSha, leaseNonce := nonce }
  let checkpoint ← Checked.make WaveCheckpoint.postInit
    { org := store.org, repo := store.repo, generation := storedGeneration current + 1,
      status := .active, waves := storedWaves current ++ [record] }
  return (record, checkpoint)

/-- `seal_selection`. -/
def sealSelection (plan : WaveAdmissionPlan) (selected : List Int) (nonce : String) :
    WaveCommand (Checked WaveLease.postInit) := do
  Command.attempt (raiseIf (plan.mode ≠ .select ∧ plan.mode ≠ .resume)
    (conflictError "only a selecting or resuming wave can be sealed"))
  Command.attempt (positiveIssueNumbers selected "selected issue_numbers")
  if plan.mode = .resume then
    match plan.lease with
    | none =>
        throw (conflictError "resume selection does not match the immutable wave")
    | some lease =>
        Command.attempt (raiseIf (selected ≠ lease.val.issueNumbers)
          (conflictError "resume selection does not match the immutable wave"))
        return lease
  else
    Command.attempt (raiseIf (plan.requestedLimit.any fun n => n < (selected.length : Int))
      (validationError "selected issue count exceeds issue-limit"))
    let current ← store.readUnlocked
    let (record, checkpoint) ←
      Command.attempt (store.sealedCheckpoint plan selected nonce current)
    set (some checkpoint)
    Command.attempt (record.val.lease store.org store.repo)

/-- How every method that works on a lease begins: read the document, find
the lease's record. -/
def withRecord {α : Type} (absent : IssueWaveError) (lease : WaveLease)
    (body : StoredCheckpoint → Checked WaveRecord.postInit → WaveCommand α) :
    WaveCommand α := do
  match ← store.readUnlocked with
  | none => throw absent
  | some checkpoint => do
      let record ← Command.attempt (currentRecord checkpoint.val lease)
      body checkpoint record

/-- The document with one record replaced: `replace` on the record, then on
the checkpoint, each with its check. -/
def withUpdated (checkpoint : StoredCheckpoint) (record : WaveRecord) (updated : WaveRecord) :
    Except IssueWaveError StoredCheckpoint := do
  let updated ← Checked.make WaveRecord.postInit updated
  Checked.make WaveCheckpoint.postInit
    { checkpoint.val with
      generation := checkpoint.val.generation + 1
      waves := checkpoint.val.waves.take record.waveIndex ++
        updated :: checkpoint.val.waves.drop (record.waveIndex + 1) }

/-- The shape of the five recording methods: what the record becomes, or
`none` where there is nothing to write. -/
def updateRecord (absent : IssueWaveError) (lease : Checked WaveLease.postInit)
    (change : WaveRecord → Except IssueWaveError (Option WaveRecord)) :
    WaveCommand (Checked WaveLease.postInit) :=
  store.withRecord absent lease.val fun checkpoint record => do
    match ← Command.attempt (change record.val) with
    | none => return lease
    | some updated =>
        let next ← Command.attempt (withUpdated checkpoint record.val updated)
        set (some next)
        return lease

/-- Whether the record holds a passed outcome for an issue. -/
def hasPassed (record : WaveRecord) (issueNumber : Int) : Bool :=
  record.outcomes.any fun o => o.val.issueNumber == issueNumber && o.val.passed

/-- The intent of an issue replaced in place. -/
def replaceIntent (record : WaveRecord) (intent : Checked WaveNonCodeIntent.postInit) :
    WaveRecord :=
  { record with
    nonCodeIntents := record.nonCodeIntents.map fun item =>
      if item.val.issueNumber = intent.val.issueNumber then intent else item }

/-- What `record_non_code_intent` does to a record. -/
def addIntent (intent : Checked WaveNonCodeIntent.postInit) (record : WaveRecord) :
    Except IssueWaveError (Option WaveRecord) :=
  match record.intentFor intent.val.issueNumber with
  | some existing =>
      if existing = intent then .ok none
      else do
        raiseIf (hasPassed record intent.val.issueNumber)
          (conflictError "a completed non-code intent cannot be replaced")
        return some (replaceIntent record intent)
  | none =>
      .ok (some { record with nonCodeIntents := record.nonCodeIntents ++ [intent] })

/-- `record_non_code_intent`. -/
def recordNonCodeIntent (lease : Checked WaveLease.postInit) (issueNumber : Int)
    (reason evidenceDigest repositoryRevision : String) (extraLabels : List String)
    (explanation : String) : WaveCommand (Checked WaveLease.postInit) := do
  let intent ← Command.attempt (Checked.make WaveNonCodeIntent.postInit
    { issueNumber, reason, evidenceDigest, repositoryRevision, extraLabels, explanation })
  store.updateRecord (conflictError "cannot record an intent without a checkpoint") lease
    (addIntent intent)

/-- What `retire_non_code_intent` does to a record. -/
def retireIntent (intent : Checked WaveNonCodeIntent.postInit) (record : WaveRecord) :
    Except IssueWaveError (Option WaveRecord) :=
  let existing := record.intentFor intent.val.issueNumber
  if existing = some (retiredAs true intent) then .ok none
  else do
    raiseIf (existing ≠ some (retiredAs false intent))
      (conflictError "non-code intent changed before its retirement was recorded")
    raiseIf (hasPassed record intent.val.issueNumber)
      (conflictError "a completed non-code intent cannot be retired")
    return some (replaceIntent record (retiredAs true intent))

/-- `retire_non_code_intent`. -/
def retireNonCodeIntent (lease : Checked WaveLease.postInit)
    (intent : Checked WaveNonCodeIntent.postInit) :
    WaveCommand (Checked WaveLease.postInit) :=
  store.updateRecord (conflictError "cannot retire an intent without a checkpoint") lease
    (retireIntent intent)

/-- What `complete_non_code_intent_retirement` does to a record. -/
def dropIntent (intent : Checked WaveNonCodeIntent.postInit) (record : WaveRecord) :
    Except IssueWaveError (Option WaveRecord) :=
  match record.intentFor intent.val.issueNumber with
  | none => .ok none
  | some existing => do
      raiseIf (existing ≠ retiredAs true intent)
        (conflictError "non-code intent changed before its retirement completed")
      return some { record with
        nonCodeIntents := record.nonCodeIntents.filter fun item =>
          item.val.issueNumber ≠ intent.val.issueNumber }

/-- `complete_non_code_intent_retirement`. -/
def completeNonCodeIntentRetirement (lease : Checked WaveLease.postInit)
    (intent : Checked WaveNonCodeIntent.postInit) :
    WaveCommand (Checked WaveLease.postInit) :=
  store.updateRecord
    (conflictError "cannot complete intent retirement without a checkpoint") lease
    (dropIntent intent)

/-- What `record_merge_receipt` does to a record. -/
def addReceipt (receipt : Checked WaveMergeReceipt.postInit) (record : WaveRecord) :
    Except IssueWaveError (Option WaveRecord) :=
  match record.receiptFor receipt.val.issueNumber with
  | some existing => do
      raiseIf (existing ≠ receipt)
        (conflictError "a different merge receipt already exists for this issue")
      return none
  | none => .ok (some { record with mergeReceipts := record.mergeReceipts ++ [receipt] })

/-- `record_merge_receipt`. -/
def recordMergeReceipt (lease : Checked WaveLease.postInit) (issueNumber prNumber : Int)
    (reviewedHeadSha mergeSha : String) : WaveCommand (Checked WaveLease.postInit) := do
  let receipt ← Command.attempt (Checked.make WaveMergeReceipt.postInit
    { issueNumber, prNumber, reviewedHeadSha, mergeSha })
  store.updateRecord (conflictError "cannot record a receipt without a checkpoint") lease
    (addReceipt receipt)

/-- What `record_terminal_outcome` does to a record. -/
def addOutcome (outcome : Checked WaveIssueOutcome.postInit) (record : WaveRecord) :
    Except IssueWaveError (Option WaveRecord) := do
  let issue := outcome.val.issueNumber
  raiseIf (outcome.val.nonCode ∧ ¬ record.intentMatches outcome.val)
    (blockedError ("cannot record non-code outcome for #" ++ toString issue ++
      " without matching intent"))
  raiseIf (outcome.val.passed ∧ ¬ outcome.val.nonCode ∧ issue ∉ record.receiptIds)
    (blockedError ("cannot record passed outcome for #" ++ toString issue ++
      " without a loop-owned merge receipt"))
  let next := { record with
    outcomes := (record.outcomes.filter fun o => o.val.issueNumber ≠ issue) ++ [outcome] }
  match record.outcomeFor issue with
  | none => return some next
  | some existing =>
      if existing = outcome then return some next
      raiseIf existing.val.passed (conflictError "a passed terminal outcome is immutable")
      if ¬ outcome.val.passed ∧ existing.val.reason = outcome.val.reason ∧
          existing.val.prNumber = outcome.val.prNumber then return none
      return some next

/-- `record_terminal_outcome`. -/
def recordTerminalOutcome (lease : Checked WaveLease.postInit) (issueNumber : Int)
    (passed : Bool) (reason : String) (prNumber : Option Int) (nonCode : Bool) :
    WaveCommand (Checked WaveLease.postInit) := do
  let outcome ← Command.attempt (Checked.make WaveIssueOutcome.postInit
    { issueNumber, passed, reason, prNumber, nonCode })
  store.updateRecord (conflictError "cannot record an outcome without a checkpoint") lease
    (addOutcome outcome)

/-- What `verify_prior_wave` asks of the record before it writes. The
ancestry check may raise (`none`); without one the caller's flag counts. -/
def verifyRecord (digest : EvidenceDigest) (currentMainSha : String)
    (ancestryVerified : Bool) (ancestryCheck : Option (String → List String → Option Bool))
    (factsByIssue : Option (Int → Option IssueFacts)) (record : WaveRecord) :
    Except IssueWaveError Unit := do
  raiseIf (¬ record.complete)
    (blockedError "prior wave has not recorded every selected issue outcome")
  raiseIf (¬ record.passed) (blockedError "prior wave contains failed terminal outcomes")
  let mergeOutcomes := record.outcomes.filter fun o => !o.val.nonCode
  raiseIf (record.mergeReceipts.length ≠ mergeOutcomes.length)
    (blockedError "prior wave is missing one or more loop-owned merge receipts")
  let verified ←
    match ancestryCheck with
    | none => pure ancestryVerified
    | some check =>
        match check currentMainSha record.ancestryShas with
        | none => .error (blockedError "prior-wave ancestry verification failed")
        | some verdict => pure verdict
  match factsByIssue with
  | none => pure ()
  | some facts => validateVerifiedOutcomeFacts digest record facts store.repo
  raiseIf (¬ verified ∧ record.issueNumbers ≠ [])
    (blockedError "prior-wave merge ancestry was not verified against synchronized main")

/-- `verify_prior_wave`. -/
def verifyPriorWave (digest : EvidenceDigest) (lease : Checked WaveLease.postInit)
    (currentMainSha : String) (ancestryVerified : Bool)
    (ancestryCheck : Option (String → List String → Option Bool))
    (factsByIssue : Option (Int → Option IssueFacts)) : WaveCommand StoredCheckpoint := do
  Command.attempt (raiseIf (¬ isFullCommitSha currentMainSha)
    (validationError "prior-wave verification requires a full main SHA"))
  store.withRecord (blockedError "prior-wave checkpoint is absent") lease.val
    fun checkpoint record => do
      Command.attempt (store.verifyRecord digest currentMainSha ancestryVerified
        ancestryCheck factsByIssue record.val)
      let updated ← Command.attempt (withUpdated checkpoint record.val
        { record.val with verifiedMainSha := some currentMainSha })
      set (some updated)
      return updated

/-- The document `complete_rollout` writes. -/
def completedCheckpoint (currentMainSha : String) (checkpoint : StoredCheckpoint)
    (record : WaveRecord) : Except IssueWaveError StoredCheckpoint := do
  raiseIf (record.limit ≠ none ∨ ¬ record.complete ∨ ¬ record.passed)
    (blockedError "only a complete passing all-eligible wave can finish rollout")
  raiseIf (record.verifiedMainSha ≠ some currentMainSha)
    (blockedError "final wave is not verified against current main")
  Checked.make WaveCheckpoint.postInit
    { checkpoint.val with
      generation := checkpoint.val.generation + 1
      status := .completed
      completedMainSha := some currentMainSha }

/-- `complete_rollout`. -/
def completeRollout (lease : Checked WaveLease.postInit) (currentMainSha : String) :
    WaveCommand StoredCheckpoint := do
  Command.attempt (raiseIf (¬ isFullCommitSha currentMainSha)
    (validationError "rollout completion requires a full main SHA"))
  store.withRecord (blockedError "cannot complete an absent rollout") lease.val
    fun checkpoint record => do
      let updated ← Command.attempt
        (completedCheckpoint currentMainSha checkpoint record.val)
      set (some updated)
      return updated

end IssueWaveStore

/-! ## Any number of processes -/

/-- One call of a store method with its arguments. -/
inductive WaveCall
  | planAdmission (currentMainSha : String) (requestedLimit : Option Int)
  | sealSelection (plan : WaveAdmissionPlan) (selected : List Int) (nonce : String)
  | recordNonCodeIntent (lease : Checked WaveLease.postInit) (issueNumber : Int)
      (reason evidenceDigest repositoryRevision : String) (extraLabels : List String)
      (explanation : String)
  | retireNonCodeIntent (lease : Checked WaveLease.postInit)
      (intent : Checked WaveNonCodeIntent.postInit)
  | completeNonCodeIntentRetirement (lease : Checked WaveLease.postInit)
      (intent : Checked WaveNonCodeIntent.postInit)
  | recordMergeReceipt (lease : Checked WaveLease.postInit) (issueNumber prNumber : Int)
      (reviewedHeadSha mergeSha : String)
  | recordTerminalOutcome (lease : Checked WaveLease.postInit) (issueNumber : Int)
      (passed : Bool) (reason : String) (prNumber : Option Int) (nonCode : Bool)
  | verifyPriorWave (lease : Checked WaveLease.postInit) (currentMainSha : String)
      (ancestryVerified : Bool)
      (ancestryCheck : Option (String → List String → Option Bool))
      (factsByIssue : Option (Int → Option IssueFacts))
  | completeRollout (lease : Checked WaveLease.postInit) (currentMainSha : String)

/-- What a call returns. -/
inductive WaveReply
  | plan (p : WaveAdmissionPlan)
  | lease (l : Checked WaveLease.postInit)
  | checkpoint (c : StoredCheckpoint)

/-- The command a call runs. -/
def WaveCall.run (store : IssueWaveStore) (digest : EvidenceDigest) :
    WaveCall → WaveCommand WaveReply
  | .planAdmission sha limit => .plan <$> store.planAdmission sha limit
  | .sealSelection plan selected nonce =>
      .lease <$> store.sealSelection plan selected nonce
  | .recordNonCodeIntent lease issue reason evidence revision labels explanation =>
      .lease <$> store.recordNonCodeIntent lease issue reason evidence revision labels
        explanation
  | .retireNonCodeIntent lease intent => .lease <$> store.retireNonCodeIntent lease intent
  | .completeNonCodeIntentRetirement lease intent =>
      .lease <$> store.completeNonCodeIntentRetirement lease intent
  | .recordMergeReceipt lease issue pr head merge =>
      .lease <$> store.recordMergeReceipt lease issue pr head merge
  | .recordTerminalOutcome lease issue passed reason pr nonCode =>
      .lease <$> store.recordTerminalOutcome lease issue passed reason pr nonCode
  | .verifyPriorWave lease sha verified check facts =>
      .checkpoint <$> store.verifyPriorWave digest lease sha verified check facts
  | .completeRollout lease sha => .checkpoint <$> store.completeRollout lease sha

/-- The file, and every plan a call has returned so far. -/
structure WaveSystem where
  stored : Option StoredCheckpoint := none
  plans : List WaveAdmissionPlan := []

/-- One call by some process. A plan is something a process was given
earlier; a lease may be any lease at all. -/
def WaveSystem.step (store : IssueWaveStore) (digest : EvidenceDigest) (s : WaveSystem)
    (call : WaveCall) : Option WaveSystem :=
  match call with
  | .sealSelection plan selected nonce =>
      if plan ∈ s.plans then
        some { s with
          stored := ((WaveCall.sealSelection plan selected nonce).run store digest
            |>.exec s.stored).2 }
      else none
  | call =>
      match (call.run store digest).exec s.stored with
      | (.ok (.plan p), stored) => some { stored, plans := p :: s.plans }
      | (_, stored) => some { s with stored }

end Hephaestus.Automation
