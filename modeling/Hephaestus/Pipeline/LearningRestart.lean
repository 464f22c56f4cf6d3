import Hephaestus.Lib.JsonCodec
import Hephaestus.Automation.RequiredChecks
import Hephaestus.Pipeline.LearningStage

/-!
# Learning across a restart

A learning intent is written down three times: with the short name of the
repository inside the pipeline, with the owner in front of it for the learning
host (`to_payload`), and in the journal (`journal_identity`). The key is a hash of
kind, repository, numbers and fingerprint, so each of the three has to lead back to
the same repository name.

With the intents of an item that is done goes what its cleanup needs. Of the payload
that is the values under some keys, whatever they are; the journal writes them as
JSON. `TerminalItem` is the part of a work item these methods read and write, with
any type of values in its payload: the coordinator's items are one instance, and
`PayloadData` has all that a Python payload can hold, as far as JSON goes.
-/

namespace Hephaestus.Pipeline

open Hephaestus.Lib Hephaestus.Automation

/-! ## The identity of an intent -/

/-- `LearningIntent.approved_plan`. -/
def LearningIntent.approvedPlan (repo : String) (issue planRevision : Int)
    (planFingerprint : String) : LearningIntent where
  kind := .approvedPlan
  repo := repo
  issue := issue
  planRevision := some planRevision
  planFingerprint := planFingerprint

/-- `LearningIntent.post_merge`. -/
def LearningIntent.postMerge (repo : String) (issue pr : Int) : LearningIntent where
  kind := .postMerge
  repo := repo
  issue := issue
  pr := some pr

/-- A number or `None`. -/
def jsonOptionalInt : Option Int → Json
  | none => .null
  | some n => .int n

/-- `identity_repo or repo`. -/
def LearningIntent.keyRepo (intent : LearningIntent) : String :=
  if intent.identityRepo ≠ "" then intent.identityRepo else intent.repo

/-- `journal_identity`. -/
def LearningIntent.journalIdentity (intent : LearningIntent) : Dict String Json :=
  [("repo", .str intent.keyRepo), ("issue", .int intent.issue), ("pr", jsonOptionalInt intent.pr),
    ("plan_revision", jsonOptionalInt intent.planRevision),
    ("plan_fingerprint", .str intent.planFingerprint)]

/-- `text.split("/")`. -/
def slashParts (text : String) : List String :=
  (text.toList.splitOn '/').map String.ofList

/-- `re.fullmatch(r"[A-Za-z0-9_.-]+/[A-Za-z0-9_.-]+", text)`. -/
def isQualified (text : String) : Bool :=
  match slashParts text with
  | [owner, name] => isComponent owner && isComponent name
  | _ => false

/-- The ValueErrors of `to_payload`. -/
def identityInvalid : PyError := ⟨.valueError, "learning repository identity is invalid"⟩

def identityForeign : PyError :=
  ⟨.valueError, "learning repository identity is foreign or invalid"⟩

/-- The repository under its owner, and the name the identity is made with. -/
def LearningIntent.qualify (intent : LearningIntent) (owner : String) :
    Except PyError (String × String) := do
  raiseIf (!isComponent owner) identityInvalid
  let parts := slashParts intent.repo
  let (repository, identityRepo) ←
    if parts.length = 1 ∧ isComponent intent.repo then
      if intent.identityRepo ≠ "" ∧ intent.identityRepo ≠ intent.repo then .error identityForeign
      else .ok (owner ++ "/" ++ intent.repo, intent.repo)
    else if parts.length ≠ 2 ∨ parts.head? ≠ some owner ∨ !parts.all isComponent then
      .error identityForeign
    else .ok (intent.repo, intent.identityRepo)
  raiseIf (identityRepo ≠ "" ∧ (!isComponent identityRepo
    ∨ (slashParts repository).getLast? ≠ some identityRepo)) identityForeign
  raiseIf (200 < repository.length) identityInvalid
  return (repository, identityRepo)

/-- `to_payload`. -/
def LearningIntent.toPayload (sha256 : String → String) (intent : LearningIntent)
    (owner : Option String) : Except PyError (Dict String Json) := do
  let (repository, identityRepo) ← match owner with
    | none => .ok (intent.repo, intent.identityRepo)
    | some owner => intent.qualify owner
  let named := if identityRepo ≠ "" then [("identity_repo", Json.str identityRepo)] else []
  let own := match intent.kind with
    | .approvedPlan => [("plan_revision", jsonOptionalInt intent.planRevision),
        ("plan_fingerprint", .str intent.planFingerprint)]
    | .postMerge => [("pr", jsonOptionalInt intent.pr)]
  return [("kind", .str intent.kind.value), ("repo", .str repository), ("issue", .int intent.issue),
    ("intent_key", .str (intent.key sha256))] ++ named ++ own

/-- The fields a payload has to have. -/
def payloadFields : LearningIntentKind → List String
  | .approvedPlan => ["kind", "repo", "issue", "intent_key", "plan_revision", "plan_fingerprint"]
  | .postMerge => ["kind", "repo", "issue", "intent_key", "pr"]

/-- `set(payload) == set(fields)`. -/
def hasFields (payload : Dict String Json) (fields : List String) : Bool :=
  payload.all (fun kv => fields.contains kv.1) && fields.all payload.contains

/-- `LearningIntentKind(kind_raw)`, of which every failure is a ValueError. -/
def payloadKind (payload : Dict String Json) : Except PyError LearningIntentKind :=
  match payload.get? "kind" with
  | some (.str text) =>
      if text = LearningIntentKind.approvedPlan.value then .ok .approvedPlan
      else if text = LearningIntentKind.postMerge.value then .ok .postMerge
      else .error ⟨.valueError, "learning intent payload has invalid kind"⟩
  | _ => .error ⟨.valueError, "learning intent payload has invalid kind"⟩

/-- The checks on `repo`, `identity_repo`, `issue` and `intent_key`. -/
def payloadIdentity (payload : Dict String Json) :
    Except PyError (String × String × Int × String) :=
  let identityRepo := (payload.get? "identity_repo").getD (.str "")
  match payload.get? "repo", identityRepo, positiveInt? (payload.get? "issue"),
      payload.get? "intent_key" with
  | some (.str repo), .str identityRepo, some issue, some (.str intentKey) =>
      if 200 < repo.length ∨ isQualified repo = false
          ∨ (identityRepo ≠ "" ∧ (!isComponent identityRepo
            ∨ (slashParts repo).getLast? ≠ some identityRepo))
          ∨ intentKey = "" then
        .error ⟨.valueError, "learning intent payload has invalid identity fields"⟩
      else .ok (repo, identityRepo, issue, intentKey)
  | _, _, _, _ => .error ⟨.valueError, "learning intent payload has invalid identity fields"⟩

/-- The fields of the kind, after which the intent is complete. -/
def payloadIntent (payload : Dict String Json) (kind : LearningIntentKind)
    (repo identityRepo : String) (issue : Int) : Except PyError LearningIntent :=
  match kind with
  | .approvedPlan =>
      match positiveInt? (payload.get? "plan_revision"), payload.get? "plan_fingerprint" with
      | some revision, some (.str fingerprint) =>
          if fingerprint = "" then
            .error ⟨.valueError, "learning intent payload has invalid approved-plan fields"⟩
          else .ok { kind, repo, issue, planRevision := some revision,
                     planFingerprint := fingerprint, identityRepo }
      | _, _ => .error ⟨.valueError, "learning intent payload has invalid approved-plan fields"⟩
  | .postMerge =>
      match positiveInt? (payload.get? "pr") with
      | some pr => .ok { kind, repo, issue, pr := some pr, identityRepo }
      | none => .error ⟨.valueError, "learning intent payload has invalid post-merge fields"⟩

/-- `from_payload`. -/
def LearningIntent.fromPayload (sha256 : String → String) (payload : Dict String Json) :
    Except PyError LearningIntent := do
  let kind ← payloadKind payload
  raiseIf (!hasFields payload (payloadFields kind)
      && !hasFields payload (payloadFields kind ++ ["identity_repo"]))
    ⟨.valueError, "learning intent payload has unsupported or missing fields"⟩
  let (repo, identityRepo, issue, intentKey) ← payloadIdentity payload
  let intent ← payloadIntent payload kind repo identityRepo issue
  raiseIf (intent.key sha256 ≠ intentKey)
    ⟨.valueError, "learning intent payload identity does not match its key"⟩
  return intent

/-- `str` and `int`: a text and a number are what they are. -/
def PyText.plain (rest : PyText) : PyText :=
  { rest with
    str := fun value => match value with
      | .str text => text
      | value => rest.str value
    int := fun value => match value with
      | .int n => .ok n
      | value => rest.int value }

/-! ## What is left of an item that is done -/

/-- `PostProcessingRecord`. -/
structure TerminalRecord (V : Type) where
  result : ItemResult
  resumeStage : StageName
  intentKeys : List String
  cleanupPayload : Dict String V

/-- The part of a `WorkItem` its last methods read and write. -/
structure TerminalItem (V : Type) where
  worktree : String := ""
  branch : String := ""
  payload : Dict String V := []
  learningIntents : List LearningIntent := []
  result : Option ItemResult := none
  postProcessing : Option (TerminalRecord V) := none

namespace TerminalItem

variable {V : Type} (sha256 : String → String)

/-- `compact_for_post_processing`. -/
def compact (item : TerminalItem V) (result : ItemResult) : TerminalItem V :=
  let cleanupPayload := item.payload.restrict fun key => postProcessingPayloadKeys.contains key
  { item with
    payload := cleanupPayload
    postProcessing := some
      { result, resumeStage := .finished
        intentKeys := item.learningIntents.map (LearningIntent.key sha256)
        cleanupPayload } }

/-- The JSON of the values of a dictionary; nothing where one cannot be written. -/
def writeValues (dump : V → Option Json) (values : Dict String V) : Option (Dict String Json) :=
  values.mapM fun kv => (dump kv.2).map fun value => (kv.1, value)

/-- The field `post_processing` of a terminal record. -/
def postProcessingJson (item : TerminalItem V) (record : TerminalRecord V)
    (cleanup : Dict String Json) : Json :=
  .obj [("worktree", .str item.worktree), ("branch", .str item.branch),
    ("resume_stage", .str record.resumeStage.value), ("cleanup_payload", .obj cleanup),
    ("result", .obj [("passed", .bool record.result.passed), ("reason", .str record.result.reason),
      ("final_stage", .str record.result.finalStage.value)])]

/-- `learning_journal_identity`, as JSON; nothing where `json.dumps` raises a TypeError. -/
def learningJournalIdentity (dump : V → Option Json) (item : TerminalItem V)
    (intent : LearningIntent) : Option (Dict String Json) :=
  match item.postProcessing with
  | none => some intent.journalIdentity
  | some record =>
      (writeValues dump record.cleanupPayload).map fun cleanup =>
        intent.journalIdentity ++ [("post_processing", item.postProcessingJson record cleanup)]

/-- `dict.update`. -/
def updateValues (load : Json → V) (payload : Dict String V) (fields : Dict String Json) :
    Dict String V :=
  fields.foldl (fun p kv => p.set kv.1 (load kv.2)) payload

/-- `restore_post_processing`; nothing where it returns `False`. -/
def restore (py : PyText) (load : Json → V) (record : Dict String Json) (item : TerminalItem V) :
    Except PyError (Option (TerminalItem V)) :=
  match record.get? "post_processing" with
  | some (.obj raw) =>
      match Dict.get? raw "cleanup_payload", Dict.get? raw "result" with
      | some (.obj cleanup), some (.obj resultRaw) =>
          if cleanup.any fun kv => !postProcessingPayloadKeys.contains kv.1 then
            .error ⟨.valueError, "post-processing journal has unsupported cleanup fields"⟩
          else
            match Dict.get? resultRaw "passed", Dict.get? resultRaw "reason",
              Dict.get? resultRaw "final_stage", Dict.get? raw "resume_stage" with
            | some (.bool passed), some (.str reason), some (.str final), some (.str resume) => do
                let finalStage ← StageName.ofValue final
                let resumeStage ← StageName.ofValue resume
                let result : ItemResult := { passed, reason, finalStage }
                .ok (some
                  { item with
                    worktree := textOr py raw "worktree"
                    branch := textOr py raw "branch"
                    payload := updateValues load item.payload cleanup
                    result := some result
                    postProcessing := some
                      { result, resumeStage
                        intentKeys := item.learningIntents.map (LearningIntent.key sha256)
                        cleanupPayload := updateValues load [] cleanup } })
            | _, _, _, _ =>
                .error ⟨.valueError, "post-processing journal has invalid result fields"⟩
      | _, _ => .error ⟨.valueError, "invalid post-processing journal state"⟩
  | _ => .ok none

end TerminalItem

/-- The terminal part of one of the coordinator's items. -/
def WorkItem.terminal (item : WorkItem) : TerminalItem PayloadValue where
  worktree := item.worktree
  branch := item.branch
  payload := item.payload
  learningIntents := item.learningIntents
  result := item.result
  postProcessing := item.postProcessing.map fun record =>
    { result := record.result, resumeStage := record.resumeStage
      intentKeys := record.intentKeys, cleanupPayload := record.cleanupPayload }

/-- A value of a payload: JSON, or something else, of which it only matters what
`json.dumps` writes for it, if it does not raise. A tuple is written as a list. -/
inductive PayloadData
  | json (value : Json)
  | foreign (written : Option Json)

/-- What `json.dumps` writes. -/
def PayloadData.dump : PayloadData → Option Json
  | .json value => some value
  | .foreign written => written

/-! ## The journal's file -/

/-- The fields of an identity as the journal writes them, without the white space
between the tokens. -/
def identityTexts (floats : JsonText.FloatText) (identity : Dict String Json) : Dict String Text :=
  identity.map fun kv => (kv.1, JsonText.dumps floats kv.2)

/-- The text of a JSON object. -/
def writesObject (t : Text) : Bool := Text.startsWith t ['\x7b']

/-- A field that is there or not. -/
def optionalField (key : String) (value : Option String) : Dict String Json :=
  (value.map fun text => (key, Json.str text)).toList

/-- What `json.loads` makes of a record's file. -/
def documentOf (floats : JsonText.FloatText) (r : LearningRecord Text) :
    Option (Dict String Json) := do
  let receipt ← r.receiptSummary.mapM (JsonText.loads floats JsonText.keepLast)
  let identity ← r.identity.mapM fun kv =>
    (JsonText.loads floats JsonText.keepLast kv.2).map fun value => (kv.1, value)
  return [("key", .str r.key), ("kind", .str r.kind), ("status", .str r.status.text),
      ("attempts", .int r.attempts), ("created_at", .str r.createdAt),
      ("updated_at", .str r.updatedAt)]
    ++ optionalField "error" r.error ++ optionalField "first_error" r.firstError
    ++ optionalField "candidate_evidence" r.candidateEvidence
    ++ (receipt.map fun value => ("receipt_summary", value)).toList
    ++ optionalField "cleanup_status" (r.cleanupStatus.map fun status => match status with
      | .pending => "pending"
      | .succeeded => "succeeded"
      | .failed => "failed")
    ++ optionalField "cleanup_error" r.cleanupError ++ identity

end Hephaestus.Pipeline
