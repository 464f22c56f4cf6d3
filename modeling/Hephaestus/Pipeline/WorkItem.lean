import Mathlib.Data.Rat.Defs
import Hephaestus.Automation.IssueWaves
import Hephaestus.Pipeline.Routing

/-!
# Work items

`hephaestus/automation/pipeline/work_item.py`, with the small result types
of `stage_results.py` and `job_results.py`. A work item is a record the
stages and the coordinator both write. Most of what they tell each other
goes through `payload`, a dictionary with no schema: the coordinator's own
flags, the wave lease, file claims, retry delays, and whatever a stage
wants to remember. `PayloadValue` has one constructor for each kind of
value that some modelled function reads, and one for all others.

Left out are the fields only reports read: history, timestamps, sessions
and the label cache.
-/

namespace Hephaestus.Pipeline

open Hephaestus.Lib Hephaestus.Automation

/-! ## Jobs -/

/-- The kinds of job the coordinator tells apart. -/
inductive JobKind
  | agent
  | compact
  | readRateBudget
  | gitHub
  | git
  | athenaSkill
  deriving DecidableEq, Repr

/-- `type(job).__name__`. -/
def JobKind.typeName : JobKind → String
  | .agent => "AgentJob"
  | .compact => "CompactJob"
  | .readRateBudget => "GitHubJob"
  | .gitHub => "GitHubJob"
  | .git => "GitJob"
  | .athenaSkill => "AthenaSkillJob"

structure Job where
  kind : JobKind
  descr : String := ""
  deriving DecidableEq, Repr

/-- `JobRequest`. -/
structure JobRequest where
  job : Job
  onDoneState : String
  deriving DecidableEq, Repr

/-- What a stage's `step` returns: `Continue`, `JobRequest` or
`StageOutcome`. -/
inductive StepResult
  | goOn (nextState : String)
  | job (request : JobRequest)
  | outcome (o : StageOutcome)
  deriving DecidableEq, Repr

/-- `RateBudgetRead`: the quota left, and when it is reset. -/
structure RateBudgetRead where
  remaining : Option Int
  resetEpoch : Option ℚ
  deriving DecidableEq

/-- `JobResult`: the fields the coordinator reads; `rateBudget` is the
value when it is a `RateBudgetRead`. -/
structure JobResult where
  ok : Bool
  error : Option String := none
  interrupted : Bool := false
  rateBudget : Option RateBudgetRead := none
  deriving DecidableEq

/-- `JobHandle`: compared by identity, which is `serial` here. -/
structure JobHandle where
  serial : Nat
  job : Job
  onDoneState : String
  deriving DecidableEq, Repr

/-! ## The payload -/

/-- `PlanFileClaim`: organization and repository, and the path. -/
abbrev FileClaim := (String × String) × String

/-- The values a payload holds. -/
inductive PayloadValue
  | bool (b : Bool)
  | int (n : Int)
  | number (q : ℚ)
  | str (text : String)
  | lease (l : Checked WaveLease.postInit)
  /-- A `RepoIssueSource`, of which only the wave lease is read. -/
  | source (waveLease : Option (Checked WaveLease.postInit))
  | request (r : JobRequest)
  /-- A set of file claims. -/
  | claims (c : Finset FileClaim)
  /-- A list in which only the strings count. -/
  | paths (l : List (Option String))
  | keys (l : List String)
  /-- Entries of the form `{"key": .., "error": ..}`. -/
  | failures (l : List (String × String))
  /-- Any other value, for a function that only tests its presence. -/
  | other (label : String)
  deriving DecidableEq

/-- `bool(value)`. -/
def PayloadValue.truthy : PayloadValue → Bool
  | .bool b => b
  | .int n => n ≠ 0
  | .number q => q ≠ 0
  | .str text => text ≠ ""
  | .claims c => c ≠ ∅
  | .paths l => !l.isEmpty
  | .keys l => !l.isEmpty
  | .failures l => !l.isEmpty
  | .lease _ => true
  | .source _ => true
  | .request _ => true
  | .other _ => true

abbrev Payload := Dict String PayloadValue

/-- `bool(payload.get(key, False))`. -/
def Payload.flag (p : Payload) (key : String) : Bool := (p.get? key).any PayloadValue.truthy

/-- `payload.setdefault("learning_failures", []).append(..)`. -/
def Payload.addFailure (p : Payload) (key error : String) : Payload :=
  let old := match p.get? "learning_failures" with
    | some (.failures l) => l
    | _ => []
  p.set "learning_failures" (.failures (old ++ [(key, error)]))

theorem Payload.flag_set_ne {p : Payload} {key key' : String} (v : PayloadValue)
    (h : key' ≠ key) : Payload.flag (p.set key' v) key = p.flag key := by
  rw [flag, flag, Dict.get?_set_ne p v h]

/-! ### The keys the coordinator and the sink write -/

def summaryRecordedKey : String := "_summary_recorded"
def enterPendingKey : String := "_enter_pending"
def recordedKey : String := "_recorded"
def waveOutcomeRecordedKey : String := "_wave_outcome_recorded"
def failBacksKey : String := "_fail_backs"
def retryDelayKey : String := "retry_delay_s"
def pendingAgentRequestKey : String := "_pending_agent_request"
def repoIssueSourceKey : String := "_repo_issue_source"
def learningPrimaryReasonKey : String := "_learning_primary_reason"
/-- `DIRECT_SCOPE_BOOTSTRAP_KEY`. -/
def directScopeBootstrapKey : String := "_direct_scope_bootstrap"
/-- `DIRECT_SCOPE_BASE_SHA_KEY`. -/
def directScopeBaseShaKey : String := "_direct_scope_base_sha"
/-- `WAVE_LEASE_PAYLOAD`. -/
def waveLeasePayload : String := "_issue_wave_lease"
/-- `WAVE_NON_CODE_PAYLOAD`. -/
def waveNonCodePayload : String := "_issue_wave_non_code"
/-- `_IMPLEMENTATION_FILE_CLAIMS_PAYLOAD`. -/
def implementationFileClaimsPayload : String := "_implementation_file_claims"
/-- `_FILE_OVERLAP_DEFERRALS_KEY`. -/
def fileOverlapDeferralsKey : String := "file_overlap_deferrals"
/-- `_FILE_OVERLAP_BLOCKED_CLAIMS_KEY`. -/
def fileOverlapBlockedClaimsKey : String := "_file_overlap_blocked_claims"

/-- `_POST_PROCESSING_PAYLOAD_KEYS`. -/
def postProcessingPayloadKeys : List String :=
  ["_direct_scope_local_branch_cleanup", "_direct_scope_base_sha", "_direct_scope_reservation",
    "_impl_source_revision", "_learning_primary_reason", "_post_remediation_review_head_sha",
    "_worktree_cleanup_head_sha", "_wave_lease", "detached_push_failure",
    "dirty_direct_preserve", "learning_failures"]

/-! ## Learning intents -/

/-- `LearningIntentKind`. -/
inductive LearningIntentKind
  | approvedPlan
  | postMerge
  deriving DecidableEq, Repr

def LearningIntentKind.value : LearningIntentKind → String
  | .approvedPlan => "approved_plan"
  | .postMerge => "post_merge"

/-- `LearningIntent`. -/
structure LearningIntent where
  kind : LearningIntentKind
  repo : String
  issue : Int
  pr : Option Int := none
  planRevision : Option Int := none
  planFingerprint : String := ""
  identityRepo : String := ""
  deriving DecidableEq, Repr

/-- Four hexadecimal digits. -/
def hex4 (n : Nat) : String :=
  let digit := fun k => Nat.digitChar (n / 16 ^ k % 16)
  String.ofList [digit 3, digit 2, digit 1, digit 0]

/-- One character as `json.dumps` writes it: ASCII only. -/
def jsonEscape (c : Char) : String :=
  let n := c.toNat
  if c = '"' then "\\\""
  else if c = '\\' then "\\\\"
  else if n = 8 then "\\b"
  else if n = 9 then "\\t"
  else if n = 10 then "\\n"
  else if n = 12 then "\\f"
  else if n = 13 then "\\r"
  else if 32 ≤ n ∧ n ≤ 126 then String.singleton c
  else if n < 65536 then "\\u" ++ hex4 n
  else
    let m := n - 65536
    "\\u" ++ hex4 (55296 + m / 1024) ++ "\\u" ++ hex4 (56320 + m % 1024)

def jsonString (text : String) : String :=
  "\"" ++ String.join (text.toList.map jsonEscape) ++ "\""

def jsonInt : Option Int → String
  | none => "null"
  | some n => toString n

/-- `json.dumps(identity, sort_keys=True)` of `LearningIntent.key`. -/
def LearningIntent.identityJson (intent : LearningIntent) : String :=
  let repo := if intent.identityRepo ≠ "" then intent.identityRepo else intent.repo
  "\x7b\"issue\": " ++ toString intent.issue ++
    ", \"kind\": " ++ jsonString intent.kind.value ++
    ", \"plan_fingerprint\": " ++ jsonString intent.planFingerprint ++
    ", \"plan_revision\": " ++ jsonInt intent.planRevision ++
    ", \"pr\": " ++ jsonInt intent.pr ++
    ", \"repo\": " ++ jsonString repo ++ "\x7d"

/-- `LearningIntent.key`, for a given `sha256` (its hexadecimal digest). -/
def LearningIntent.key (sha256 : String → String) (intent : LearningIntent) : String :=
  intent.kind.value ++ ":" ++ sha256 intent.identityJson

/-! ## Work items -/

/-- `ItemKind`. -/
inductive ItemKind
  | repo
  | issue
  | pr
  deriving DecidableEq, Repr

/-- `ItemResult`. -/
structure ItemResult where
  passed : Bool
  reason : String
  finalStage : StageName
  deriving DecidableEq, Repr

/-- `PostProcessingRecord`. -/
structure PostProcessingRecord where
  result : ItemResult
  resumeStage : StageName
  intentKeys : List String
  cleanupPayload : Payload
  deriving DecidableEq

/-- `WorkItem`. -/
structure WorkItem where
  repo : String
  kind : ItemKind
  issue : Option Int := none
  pr : Option Int := none
  stage : StageName := .repo
  state : String := ""
  attempts : Dict String Nat := []
  worktree : String := ""
  branch : String := ""
  payload : Payload := []
  learningIntents : List LearningIntent := []
  learningResumeStage : Option StageName := none
  postProcessing : Option PostProcessingRecord := none
  result : Option ItemResult := none
  deriving DecidableEq

/-- `_item_key`. -/
def WorkItem.itemKey (item : WorkItem) : String :=
  match item.kind with
  | .repo => item.repo
  | .pr => item.repo ++ "!" ++ (item.pr.map toString).getD "None"
  | .issue => item.repo ++ "#" ++ (item.issue.map toString).getD "None"

/-- `payload[key] = value`. -/
def WorkItem.setPayload (item : WorkItem) (key : String) (value : PayloadValue) : WorkItem :=
  { item with payload := item.payload.set key value }

/-- `payload.pop(key, None)`, the item it leaves. -/
def WorkItem.popPayload (item : WorkItem) (key : String) : WorkItem :=
  { item with payload := item.payload.erase key }

/-- `compact_for_post_processing`. -/
def WorkItem.compactForPostProcessing (sha256 : String → String) (item : WorkItem)
    (result : ItemResult) : WorkItem :=
  let cleanupPayload := item.payload.restrict fun key => postProcessingPayloadKeys.contains key
  { item with
    payload := cleanupPayload
    postProcessing := some
      { result, resumeStage := .finished
        intentKeys := item.learningIntents.map (LearningIntent.key sha256)
        cleanupPayload } }

end Hephaestus.Pipeline
