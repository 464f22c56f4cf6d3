import Hephaestus.Lib.Command
import Hephaestus.Automation.ReplyDelivery
import Hephaestus.Automation.ReviewFindings

/-!
# The plan-review journal

`PlanReviewSessionStore` of `hephaestus/automation/plan_review_session.py`. A cycle
has one record, which every writer rewrites as a whole, and the newest cycle of an
issue is found through a pointer. `start_cycle` works under the lock of the pointer,
`bind_session` and `append_artifact` under the lock of the record, so each is one
step. `mark_recovery_required` and `complete` hold no lock: the load, the write of
the record and the removal of the pointer are steps of their own, and anything may
come between.

Files are written by replacing them, and by this module only. So a record file is
the record it was written from, a pointer is the cycle id in it, and a transcript
file is its text.
-/

namespace Hephaestus.Automation.PlanReview

open Hephaestus.Lib Hephaestus.Automation.Delivery

/-! ## Records -/

/-- `ArtifactKind`. -/
inductive ArtifactKind
  | review
  | amendment
  deriving DecidableEq, Repr

/-- `PlanReviewArtifact`. -/
structure PlanReviewArtifact where
  sequence : Int
  kind : ArtifactKind
  roundIndex : Int
  planRevision : Int
  planFingerprint : Text
  path : Text
  digest : Text
  deriving DecidableEq

/-- `PlanReviewSession.state`. -/
inductive SessionState
  | starting
  | active
  | reset
  | completed
  | recoveryRequired
  deriving DecidableEq, Repr

def SessionState.value : SessionState → String
  | .starting => "starting"
  | .active => "active"
  | .reset => "reset"
  | .completed => "completed"
  | .recoveryRequired => "recovery-required"

/-- `state in {"reset", "completed", "recovery-required"}`. -/
def SessionState.isFinal : SessionState → Bool
  | .starting | .active => false
  | .reset | .completed | .recoveryRequired => true

/-- `PlanReviewSession`. -/
structure PlanReviewSession where
  schemaVersion : Int
  repo : Text
  issue : Int
  cycleId : Text
  provider : Text
  reviewerModel : Text
  reviewerConfig : Dict String Json
  reviewerConfigFingerprint : Text
  canonicalCwd : Text
  sessionKey : Text
  sessionId : Option Text
  sessionBinding : Option Text
  roundIndex : Int
  planRevision : Int
  planFingerprint : Text
  state : SessionState
  artifacts : List PlanReviewArtifact
  createdAt : Text
  updatedAt : Text

/-- `SCHEMA_VERSION`. -/
def schemaVersion : Int := 1

/-- What the methods raise. -/
inductive SessionError
  | lost (message : String)
  | value (message : String)
  | fileNotFound
  deriving DecidableEq, Repr

/-! ## Provider bindings -/

/-- `AgentRole`. -/
inductive AgentRole
  | planner
  | planReviewer
  | implementer
  | prReviewer
  | learner
  deriving DecidableEq, Repr

def AgentRole.value : AgentRole → Text
  | .planner => "planner".toList
  | .planReviewer => "plan_reviewer".toList
  | .implementer => "implementer".toList
  | .prReviewer => "pr_reviewer".toList
  | .learner => "learner".toList

def AgentRole.all : List AgentRole := [.planner, .planReviewer, .implementer, .prReviewer, .learner]

/-- `AgentSessionBinding`. -/
structure AgentSessionBinding where
  sessionId : Text
  canonicalCwd : Text
  role : AgentRole
  modelFingerprint : Text
  stateReference : Text := []
  provider : Text := "pi".toList
  schemaVersion : Int := 1

/-- `AgentSessionBinding.to_json`. -/
def AgentSessionBinding.toJson (floats : JsonText.FloatText) (b : AgentSessionBinding) : Text :=
  JsonText.dumps floats (.obj [("schema_version", .int b.schemaVersion),
    ("provider", jsonText b.provider), ("session_id", jsonText b.sessionId),
    ("canonical_cwd", jsonText b.canonicalCwd), ("role", jsonText b.role.value),
    ("model_fingerprint", jsonText b.modelFingerprint),
    ("state_reference", jsonText b.stateReference)])

/-- `_require_text`. -/
def requireText (value : Json) : Option Text := do
  let text ← value.asStr?
  guard (text ≠ "" ∧ Text.strip text.toList = text.toList)
  return text.toList

/-- `AgentSessionBinding.from_json`; nothing for its `PiSessionBindingError`. -/
def AgentSessionBinding.fromJson (floats : JsonText.FloatText) (t : Text) :
    Option AgentSessionBinding := do
  let payload ← JsonText.loads floats JsonText.keepLast t
  let fields ← payload.asObj?
  guard (sameSet (fields.map Prod.fst) ["schema_version", "provider", "session_id",
    "canonical_cwd", "role", "model_fingerprint", "state_reference"])
  guard ((payload.field "schema_version").eq (.int 1) && (payload.field "provider").eq (.str "pi"))
  let roleText ← requireText (payload.field "role")
  let role ← AgentRole.all.find? fun role => role.value = roleText
  let stateReference ← (payload.field "state_reference").asStr?
  let sessionId ← requireText (payload.field "session_id")
  let canonicalCwd ← requireText (payload.field "canonical_cwd")
  let modelFingerprint ← requireText (payload.field "model_fingerprint")
  return { sessionId, canonicalCwd, role, modelFingerprint, stateReference := stateReference.toList }

/-! ## What `load` checks -/

/-- `AGENT_CHOICES`. -/
def agentChoices : List Text := ["claude".toList, "codex".toList, "pi".toList, "opencode".toList]

/-- `validate_durable_model_selection` with the format 1. -/
def isDurableSelection (provider model : Text) : Bool :=
  agentChoices.contains provider && Text.strip model == model
    && model.all fun c => 32 ≤ c.toNat || Text.isSpace c

/-- `f"{n:04d}"`. -/
def fourDigits (n : Int) : Text :=
  let digits := JsonText.decimalInt n
  List.replicate (4 - digits.length) '0' ++ digits

/-- `artifact_path`, from the root. -/
def artifactPath (cycleId : Text) (sequence : Int) : Text :=
  "artifacts/".toList ++ cycleId ++ "/".toList ++ fourDigits sequence ++ ".txt".toList

variable (floats : JsonText.FloatText)

/-- The digest of a configuration. -/
def configDigest (config : Dict String Json) : Text :=
  sha256Text (JsonText.dumps floats (.obj config))

/-- `_validate_identity`. -/
def validateIdentity (r : PlanReviewSession) : Except SessionError Unit := do
  raiseIf (∃ t ∈ [r.repo, r.cycleId, r.provider, r.reviewerConfigFingerprint, r.canonicalCwd,
      r.sessionKey, r.planFingerprint, r.createdAt, r.updatedAt], t = [])
    (.lost "review session record text fields are invalid")
  raiseIf (r.roundIndex < 0 ∨ r.planRevision < 1) (.lost "review session round or revision is invalid")

/-- `_validate_provider_state`. -/
def validateProviderState (r : PlanReviewSession) : Except SessionError Unit := do
  raiseIf (r.sessionId = some []) (.lost "reviewer session id is invalid")
  raiseIf (((r.reviewerConfig.get? "model_selection_format").any fun
      | .int n => decide (n = 1)
      | _ => false) = false)
    (.lost "reviewer model selection format is invalid")
  raiseIf (isDurableSelection r.provider r.reviewerModel = false)
    (.lost "reviewer provider model selection is invalid")
  raiseIf (((r.reviewerConfig.get? "reasoning_effort").any fun
      | .str effort => decide (Text.strip effort.toList = effort.toList)
      | _ => false) = false)
    (.lost "reviewer reasoning effort is invalid")
  raiseIf (configDigest floats r.reviewerConfig ≠ r.reviewerConfigFingerprint)
    (.lost "reviewer configuration digest mismatch")
  match r.sessionBinding with
  | none => .ok ()
  | some text =>
      match AgentSessionBinding.fromJson floats text with
      | none => .error (.lost "reviewer session binding is invalid")
      | some binding =>
          raiseIf (some binding.sessionId ≠ r.sessionId)
            (.lost "reviewer session binding identity mismatch")

/-- `_validate_artifacts`. -/
def validateArtifacts (r : PlanReviewSession) : Except SessionError Unit :=
  r.artifacts.forM fun artifact => do
    raiseIf (artifact.sequence < 0 ∨ artifact.roundIndex < 0 ∨ artifact.planRevision < 1
        ∨ artifact.planFingerprint = [] ∨ artifact.digest.length ≠ 64)
      (.lost "review session artifact metadata is invalid")
    raiseIf (artifact.path ≠ artifactPath r.cycleId artifact.sequence)
      (.lost "review session artifact path is invalid")

/-- The checks of `load`. -/
def checkRecord (cycleId : Text) (r : PlanReviewSession) : Except SessionError Unit := do
  raiseIf (r.schemaVersion ≠ schemaVersion) (.lost "review session record schema is invalid")
  raiseIf (r.cycleId ≠ cycleId) (.lost "review session cycle identity does not match")
  validateIdentity r
  validateProviderState floats r
  validateArtifacts r
  raiseIf (r.artifacts.map (·.sequence) ≠ (List.range r.artifacts.length).map Int.ofNat)
    (.lost "review session artifact sequence is invalid")

/-! ## The store -/

/-- The files of the journal: the pointers by the digests in their names, the records by
the cycles, the transcript files by the cycles and their numbers. -/
structure PlanReviewFiles where
  pointers : Text → Option Text
  records : Text → Option PlanReviewSession
  transcripts : Text → Nat → Option Text

/-- A method of the store. -/
abbrev Method (α : Type) := Command PlanReviewFiles SessionError α

/-- `_identity_digest`. -/
def identityDigest (repo : Text) (issue : Int) : Text :=
  sha256Text (repo ++ '\x00' :: JsonText.decimalInt issue)

/-- `load`. -/
def load (cycleId : Text) : Method PlanReviewSession := do
  let files ← get
  match files.records cycleId with
  | none => throw .fileNotFound
  | some record => do
      Command.attempt (checkRecord floats cycleId record)
      pure record

/-- `_write_record`. -/
def writeRecord (record : PlanReviewSession) : Method Unit :=
  modify fun files =>
    { files with records := Function.update files.records record.cycleId (some record) }

/-- `_update`: the changed record gets the time of the update. -/
def update (changed : PlanReviewSession) (now : Text) : Method PlanReviewSession := do
  let updated := { changed with updatedAt := now }
  writeRecord updated
  pure updated

/-- `recover_active`. -/
def recoverActive (repo : Text) (issue : Int) : Method (Option PlanReviewSession) := do
  let files ← get
  match files.pointers (identityDigest repo issue) with
  | none => pure none
  | some cycleId => do
      Command.attempt (raiseIf (cycleId = []) (.lost "active review session pointer is invalid"))
      let record ← tryCatch (load floats cycleId) fun
        | .fileNotFound => throw (.lost "active review session record is missing")
        | e => throw e
      Command.attempt (raiseIf (record.repo ≠ repo ∨ record.issue ≠ issue)
        (.lost "active review session identity does not match"))
      Command.attempt (raiseIf (record.state.isFinal = true)
        (.lost ("active review session is not resumable (" ++ record.state.value ++ ")")))
      pure (some record)

/-- The arguments of `start_cycle`; `cwd` is resolved. -/
structure StartCycle where
  repo : Text
  issue : Int
  provider : Text
  model : Text
  reviewerConfig : Dict String Json
  cwd : Text
  planRevision : Int
  planFingerprint : Text
  reset : Bool := false

/-- The record of a new cycle. -/
def StartCycle.record (args : StartCycle) (cycleId now : Text) : PlanReviewSession where
  schemaVersion := schemaVersion
  repo := args.repo
  issue := args.issue
  cycleId := cycleId
  provider := args.provider
  reviewerModel := args.model
  reviewerConfig := args.reviewerConfig
  reviewerConfigFingerprint := configDigest floats args.reviewerConfig
  canonicalCwd := args.cwd
  sessionKey := "plan-reviewer-cycle-".toList ++ cycleId
  sessionId := none
  sessionBinding := none
  roundIndex := 0
  planRevision := args.planRevision
  planFingerprint := args.planFingerprint
  state := .starting
  artifacts := []
  createdAt := now
  updatedAt := now

/-- The pointer is moved to a cycle. -/
def writePointer (repo : Text) (issue : Int) (cycleId : Text) : Method Unit :=
  modify fun files =>
    { files with
      pointers := Function.update files.pointers (identityDigest repo issue) (some cycleId) }

/-- The cycle a start finds, if it finds one. -/
def currentCycle (args : StartCycle) : Method (Option PlanReviewSession) :=
  if args.reset then
    tryCatch (recoverActive floats args.repo args.issue) fun
      | .lost _ => pure none
      | e => throw e
  else recoverActive floats args.repo args.issue

/-- The record of a new cycle is written, and the pointer after it. -/
def newCycle (args : StartCycle) (cycleId now : Text) : Method PlanReviewSession := do
  let record := args.record floats cycleId now
  writeRecord record
  writePointer args.repo args.issue cycleId
  pure record

/-- `start_cycle`; `cycleId` is the `uuid4` of the new cycle. -/
def startCycle (args : StartCycle) (cycleId now : Text) : Method PlanReviewSession := do
  match ← currentCycle floats args with
  | none => newCycle floats args cycleId now
  | some current =>
      if args.reset then do
        let _ ← update { current with state := .reset } now
        newCycle floats args cycleId now
      else do
        Command.attempt (raiseIf (current.provider ≠ args.provider
            ∨ current.reviewerModel ≠ args.model
            ∨ (Json.obj current.reviewerConfig).eq (.obj args.reviewerConfig) = false
            ∨ current.canonicalCwd ≠ args.cwd)
          (.lost "review selection changed; reset the plan-review session explicitly"))
        pure current

/-- What `bind_session` asks of the record: its session and its binding are these, or it
has none. -/
def mayBind (record : PlanReviewSession) (sessionId : Text) (binding : Option Text) :
    Except SessionError Unit := do
  raiseIf (record.sessionId ≠ none ∧ record.sessionId ≠ some sessionId)
    (.lost "provider returned a different reviewer session")
  raiseIf (record.sessionBinding ≠ none ∧ record.sessionBinding ≠ binding)
    (.lost "provider returned a different reviewer binding")

/-- `bind_session`. -/
def bindSession (cycleId sessionId : Text) (binding : Option AgentSessionBinding) (now : Text) :
    Method PlanReviewSession := do
  Command.attempt (raiseIf (sessionId = []) (.value "reviewer session id must be non-empty"))
  let record ← load floats cycleId
  let bindingJson := binding.map fun b => b.toJson floats
  Command.attempt (mayBind record sessionId bindingJson)
  update { record with
    sessionId := some sessionId
    sessionBinding := bindingJson.or record.sessionBinding
    state := .active } now

/-- The arguments of `append_artifact`. -/
structure NewArtifact where
  kind : ArtifactKind
  content : Text
  roundIndex : Int
  planRevision : Int
  planFingerprint : Text

/-- The artifact is the one that was appended last. -/
def isLatest (record : PlanReviewSession) (a : NewArtifact) : Bool :=
  record.artifacts.getLast?.any fun latest =>
    latest.kind = a.kind && latest.roundIndex = a.roundIndex
      && latest.planRevision = a.planRevision && latest.planFingerprint = a.planFingerprint
      && latest.digest = sha256Text a.content

/-- A transcript file is written. -/
def writeTranscript (cycleId : Text) (sequence : Nat) (content : Text) : Method Unit :=
  modify fun files =>
    { files with
      transcripts := Function.update files.transcripts cycleId
        (Function.update (files.transcripts cycleId) sequence (some content)) }

/-- `append_artifact`. -/
def appendArtifact (cycleId : Text) (a : NewArtifact) (now : Text) :
    Method PlanReviewSession := do
  let record ← load floats cycleId
  if isLatest record a then pure record
  else do
    let sequence := record.artifacts.length
    writeTranscript cycleId sequence a.content
    update { record with
      artifacts := record.artifacts ++ [{
        sequence := sequence, kind := a.kind, roundIndex := a.roundIndex
        planRevision := a.planRevision, planFingerprint := a.planFingerprint
        path := artifactPath cycleId sequence, digest := sha256Text a.content }]
      roundIndex := a.roundIndex
      planRevision := a.planRevision
      planFingerprint := a.planFingerprint } now

/-- The two methods without a lock. -/
inductive Unlocked
  | markRecoveryRequired
  | complete
  deriving DecidableEq, Repr

/-- The state they leave the record in. -/
def Unlocked.state : Unlocked → SessionState
  | .markRecoveryRequired => .recoveryRequired
  | .complete => .completed

/-- The second step of `mark_recovery_required` and `complete`: the record as it was
loaded, with the new state. -/
def finishRecord (call : Unlocked) (record : PlanReviewSession) (now : Text) :
    Method PlanReviewSession :=
  update { record with state := call.state } now

/-- The last step of `complete`. -/
def unlinkPointer (record : PlanReviewSession) : Method Unit :=
  modify fun files =>
    { files with
      pointers := Function.update files.pointers (identityDigest record.repo record.issue) none }

/-! ## Processes -/

/-- Where a process is in a call without a lock. -/
inductive Pending
  | loaded (call : Unlocked) (record : PlanReviewSession)
  | written (record : PlanReviewSession)

/-- The files, and what each process is in the middle of. -/
structure Journal where
  files : PlanReviewFiles
  pending : Nat → Option Pending

/-- What a process does next. -/
inductive Event
  | startCycle (args : StartCycle) (cycleId now : Text)
  | bindSession (cycleId sessionId : Text) (binding : Option AgentSessionBinding) (now : Text)
  | appendArtifact (cycleId : Text) (artifact : NewArtifact) (now : Text)
  | loads (process : Nat) (call : Unlocked) (cycleId : Text)
  | writes (process : Nat) (now : Text)
  | unlinks (process : Nat)

/-- The files after a method ran, however it ended. -/
def Journal.after {α : Type} (s : Journal) (x : Method α) : Journal :=
  { s with files := (x.exec s.files).2 }

def Journal.setPending (s : Journal) (process : Nat) (p : Option Pending) : Journal :=
  { s with pending := Function.update s.pending process p }

/-- One step. A process dies by never going on, and a new cycle has an id no record has. -/
def step (s : Journal) : Event → Option Journal
  | .startCycle args cycleId now =>
      if (s.files.records cycleId).isSome then none
      else some (s.after (startCycle floats args cycleId now))
  | .bindSession cycleId sessionId binding now =>
      some (s.after (bindSession floats cycleId sessionId binding now))
  | .appendArtifact cycleId artifact now =>
      some (s.after (appendArtifact floats cycleId artifact now))
  | .loads process call cycleId =>
      match s.pending process, ((load floats cycleId).exec s.files).1 with
      | none, .ok record => some (s.setPending process (some (.loaded call record)))
      | none, .error _ => some s
      | some _, _ => none
  | .writes process now =>
      match s.pending process with
      | some (.loaded call record) =>
          some ((s.after (finishRecord call record now)).setPending process
            (match call with
            | .markRecoveryRequired => none
            | .complete => some (.written record)))
      | _ => none
  | .unlinks process =>
      match s.pending process with
      | some (.written record) => some ((s.after (unlinkPointer record)).setPending process none)
      | _ => none

end Hephaestus.Automation.PlanReview
