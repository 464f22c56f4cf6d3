import Hephaestus.Lib.Json
import Hephaestus.Automation.LearningJournal
import Hephaestus.Pipeline.Runtime

/-!
# The learning detour

`coordinator_learning.py` and `stages/learning.py`. An issue whose learning
intents are not all delivered takes a detour when it is seeded:
`_restore_learning_intents` reads its journal records back into intents,
remembers where the item was going in `learning_resume_stage`, and puts the
item at `LEARNING`. The stage delivers one intent at a time, and when none
is left it sends the item on.

The journal is shared with other processes, so what it answers to a call is
an input, one for each call of a stage method. The stage's methods write the
item and may raise half way through, so they are commands over the item.
-/

namespace Hephaestus.Pipeline

open Hephaestus.Lib Hephaestus.Automation

/-! ## Recovery -/

/-- Python's conversions, of which only that they are functions matters. -/
structure PyText where
  /-- `str(value)`. -/
  str : Json → String
  /-- `int(value)`. -/
  int : Json → Except PyError Int
  /-- `text.strip()`. -/
  strip : String → String
  /-- A parsed value as it stands in a payload. -/
  payload : Json → PayloadValue

/-- `except (KeyError, TypeError, ValueError)`. -/
def PyError.invalidRecord (e : PyError) : Bool :=
  match e.kind with
  | .keyError => true
  | .typeError => true
  | .valueError => true
  | _ => false

/-- `LearningIntentKind(value)`. -/
def LearningIntentKind.ofValue (value : String) : Except PyError LearningIntentKind :=
  if value = LearningIntentKind.approvedPlan.value then .ok .approvedPlan
  else if value = LearningIntentKind.postMerge.value then .ok .postMerge
  else .error ⟨.valueError, value ++ " is not a valid LearningIntentKind"⟩

/-- `StageName(value)`. -/
def StageName.ofValue (value : String) : Except PyError StageName :=
  match pipelineOrder.find? fun st => st.value = value with
  | some st => .ok st
  | none => .error ⟨.valueError, value ++ " is not a valid StageName"⟩

/-- `record[key]`. -/
def field (record : Dict String Json) (key : String) : Except PyError Json :=
  match record.get? key with
  | some v => .ok v
  | none => .error ⟨.keyError, key⟩

/-- `int(record[key]) if record.get(key) is not None else None`. -/
def optionalInt (py : PyText) (record : Dict String Json) (key : String) :
    Except PyError (Option Int) :=
  match record.get? key with
  | none => .ok none
  | some .null => .ok none
  | some v => some <$> py.int v

/-- `LearningIntent.from_journal`. -/
def LearningIntent.fromJournal (py : PyText) (sha256 : String → String)
    (record : Dict String Json) : Except PyError LearningIntent := do
  let kind ← LearningIntentKind.ofValue (py.str (← field record "kind"))
  let repo := py.str (← field record "repo")
  let issue ← py.int (← field record "issue")
  let pr ← optionalInt py record "pr"
  let planRevision ← optionalInt py record "plan_revision"
  let planFingerprint := ((record.get? "plan_fingerprint").map py.str).getD ""
  let intent : LearningIntent := { kind, repo, issue, pr, planRevision, planFingerprint }
  if (record.get? "key").bind Json.asStr? = some (intent.key sha256) then .ok intent
  else .error ⟨.valueError, "learning journal identity does not match its key"⟩

/-- The loop that restores the intents: an invalid record is passed over. -/
def restoredIntents (py : PyText) (sha256 : String → String) :
    List (Dict String Json) → Except PyError (List LearningIntent)
  | [] => .ok []
  | record :: records =>
      match LearningIntent.fromJournal py sha256 record with
      | .ok intent => (intent :: ·) <$> restoredIntents py sha256 records
      | .error e =>
          if e.invalidRecord then restoredIntents py sha256 records else .error e

/-- `dict.update`. -/
def updatePayload (py : PyText) (payload : Payload) (fields : Dict String Json) : Payload :=
  fields.foldl (fun p kv => p.set kv.1 (py.payload kv.2)) payload

/-- `str(raw.get(key) or "")`. -/
def textOr (py : PyText) (raw : Dict String Json) (key : String) : String :=
  match raw.get? key with
  | none => ""
  | some v => if v.truthy then py.str v else ""

/-- `WorkItem.restore_post_processing`: everything is checked before the
first write, so it returns the new item, or nothing where it returns
`False`. -/
def WorkItem.restorePostProcessing (py : PyText) (sha256 : String → String)
    (record : Dict String Json) (item : WorkItem) : Except PyError (Option WorkItem) :=
  match record.get? "post_processing" with
  | some (.obj raw) =>
      match Dict.get? raw "cleanup_payload", Dict.get? raw "result" with
      | some (.obj cleanup), some (.obj resultRaw) =>
          if cleanup.any fun kv => !postProcessingPayloadKeys.contains kv.1 then
            .error ⟨.valueError, "post-processing journal has unsupported cleanup fields"⟩
          else
            match Dict.get? resultRaw "passed", Dict.get? resultRaw "reason",
              Dict.get? resultRaw "final_stage", Dict.get? raw "resume_stage" with
            | some (.bool passed), some (.str reason), some (.str final), some (.str resume) => do
                let finalStage ← StageName.ofValue final
                let resumeStage ← StageName.ofValue resume
                let result : ItemResult := { passed, reason, finalStage }
                .ok (some
                  { item with
                    worktree := textOr py raw "worktree"
                    branch := textOr py raw "branch"
                    payload := updatePayload py item.payload cleanup
                    result := some result
                    postProcessing := some
                      { result, resumeStage
                        intentKeys := item.learningIntents.map (LearningIntent.key sha256)
                        cleanupPayload := updatePayload py [] cleanup } })
            | _, _, _, _ =>
                .error ⟨.valueError, "post-processing journal has invalid result fields"⟩
      | _, _ => .error ⟨.valueError, "invalid post-processing journal state"⟩
  | _ => .ok none

/-- What `_restore_post_processing` makes of an item whose receipt is
invalid. -/
def WorkItem.quarantined (item : WorkItem) : WorkItem :=
  { item with
    learningIntents := []
    learningResumeStage := none
    postProcessing := none
    result := some ⟨false, "invalid durable learning recovery state", .learning⟩
    stage := .finished }

/-- `_restore_post_processing`: the item, and whether it was restored. -/
def restorePostProcessing (py : PyText) (sha256 : String → String)
    (record : Dict String Json) (item : WorkItem) : Except PyError (WorkItem × Bool) :=
  match item.restorePostProcessing py sha256 record with
  | .ok (some restored) => .ok (restored, true)
  | .ok none => .ok (item, false)
  | .error e => if e.invalidRecord then .ok (item.quarantined, false) else .error e

/-- The journal at recovery. -/
structure RecoveryJournal where
  /-- `incomplete_for_issue`. -/
  incompleteForIssue : String → Int → List (Dict String Json)
  /-- `disable`; what it returns is only logged. -/
  disable : String → Except PyError Unit

/-- `_disable_valid_records`. -/
def disableValidRecords (journal : RecoveryJournal) (records : List (Dict String Json)) :
    Except PyError Unit :=
  records.forM fun record =>
    match record.get? "key" with
    | some (.str key) => if key ≠ "" then journal.disable key else .ok ()
    | _ => .ok ()

/-- `next((record for record in records if "post_processing" in record), records[0])`. -/
def terminalRecord (first : Dict String Json) (rest : List (Dict String Json)) :
    Dict String Json :=
  ((first :: rest).find? fun record => (record.get? "post_processing").isSome).getD first

/-- The branch of `_restore_learning_intents` for a run without learning. -/
def withoutLearning (py : PyText) (sha256 : String → String) (journal : RecoveryJournal)
    (primary : StageName) (first : Dict String Json) (rest : List (Dict String Json))
    (item : WorkItem) : Except PyError WorkItem := do
  disableValidRecords journal (first :: rest)
  let record := terminalRecord first rest
  if primary = .finished ∧ (record.get? "post_processing").isSome then
    let (item, restored) ← restorePostProcessing py sha256 record item
    if restored then .ok { item with learningIntents := [] } else .ok item
  else .ok { item with learningIntents := [] }

/-- The rest of `_restore_learning_intents`: the item is diverted, unless it
has finished and failed. -/
def divert (py : PyText) (sha256 : String → String) (primary : StageName)
    (primaryReason : String) (first : Dict String Json) (rest : List (Dict String Json))
    (item : WorkItem) : Except PyError WorkItem := do
  let item := { item with learningResumeStage := some primary }
  if primary = .finished then
    let item := item.setPayload learningPrimaryReasonKey (.str primaryReason)
    let (item, restored) ← restorePostProcessing py sha256 (terminalRecord first rest) item
    match item.result with
    | none => .ok { item with stage := .learning }
    | some result =>
        if !result.passed then .ok item
        else if restored then .ok { item with stage := .learning }
        else .ok { item.compactForPostProcessing sha256 result with stage := .learning }
  else .ok { item with stage := .learning }

/-- `_restore_learning_intents`. -/
def restoreLearningIntents (config : PipelineConfig) (py : PyText) (sha256 : String → String)
    (journal : Option RecoveryJournal) (primaryStage : Option StageName)
    (primaryReason : String) (item : WorkItem) : Except PyError WorkItem :=
  match item.issue, primaryStage, journal with
  | some issue, some primary, some journal =>
      match journal.incompleteForIssue item.repo issue with
      | [] => .ok item
      | first :: rest => do
          let restored ← restoredIntents py sha256 (first :: rest)
          if restored = [] then .ok item
          else
            let item := { item with learningIntents := restored }
            if config.enableLearn then divert py sha256 primary primaryReason first rest item
            else withoutLearning py sha256 journal primary first rest item
  | _, _, _ => .ok item

/-! ## The stage -/

/-- What the journal and the checkout answer to one call of a stage
method. -/
structure LearningWorld where
  org : String
  load : String → Except PyError (Option (LearningRecord Json))
  /-- The second read of a step. -/
  reload : String → Except PyError (Option (LearningRecord Json))
  ensurePending : String → Except PyError (LearningRecord Json)
  claimIsActive : String → Except PyError Bool
  failAbandonedClaim : String → Except PyError (Option (LearningRecord Json))
  claim : String → Except PyError Bool
  finish : String → Except PyError Unit
  retry : String → Except PyError Unit
  defer : String → Except PyError Unit
  /-- `source_workspace_binding`: bound, interrupted, or refused. -/
  workspace : Option (Option String)
  /-- `ctx.budget("learn")`. -/
  learnBudget : Nat
  /-- Whether a result carries a valid receipt of a successful delivery. -/
  delivered : JobResult → Bool

/-- A stage method over the item. -/
abbrev ItemOp (α : Type) := Command WorkItem PyError α

/-- `{"succeeded", "failed", "deferred"}`. -/
def isTerminal : LearningStatus → Bool
  | .succeeded => true
  | .failed => true
  | .deferred => true
  | .pending => false
  | .claimed => false

/-- The loaded record has nothing left to deliver. -/
def recordTerminal : Option (LearningRecord Json) → Bool
  | some r => isTerminal r.status
  | none => false

/-- `_SUMMARY_ACTIONS_KEY`. -/
def summaryActionsKey : String := "_planning_summary_actions"

/-- `"_learning_claimed_intent_key"`. -/
def claimedIntentKey : String := "_learning_claimed_intent_key"

/-- `record_summary_action`. -/
def recordSummaryAction (py : PyText) (action : String) : ItemOp Unit := do
  let normalized := py.strip action
  if normalized = "" then throw ⟨.valueError, "summary action must not be empty"⟩
  else do
    let item ← get
    match item.payload.get? summaryActionsKey with
    | none => set (item.setPayload summaryActionsKey (.keys [normalized]))
    | some (.keys actions) =>
        if normalized ∈ actions then pure ()
        else set (item.setPayload summaryActionsKey (.keys (actions ++ [normalized])))
    | some _ => throw ⟨.typeError, "planning summary actions payload must be a list"⟩

/-- `payload.setdefault("learning_failures", []).append(..)`. -/
def noteFailure (key error : String) : ItemOp Unit :=
  modify fun item => { item with payload := item.payload.addFailure key error }

/-- `payload.setdefault("learning_deferred", []).append(..)`. -/
def noteDeferred (key reason : String) : ItemOp Unit :=
  modify fun item =>
    let old := match item.payload.get? "learning_deferred" with
      | some (.failures l) => l
      | _ => []
    item.setPayload "learning_deferred" (.failures (old ++ [(key, reason)]))

/-- `[A-Za-z0-9_.-]+`. -/
def isComponent (text : String) : Bool :=
  text ≠ "" && text.toList.all fun c =>
    ('A' ≤ c && c ≤ 'Z') || ('a' ≤ c && c ≤ 'z') || ('0' ≤ c && c ≤ '9') ||
      c = '_' || c = '.' || c = '-'

/-- Whether `to_payload(owner=owner)` accepts the intent's repository. -/
def LearningIntent.acceptedBy (owner : String) (intent : LearningIntent) : Bool :=
  let fits := fun (repository identity : String) =>
    (identity = "" || (isComponent identity &&
      (repository.splitOn "/").getLastD "" = identity)) && decide (repository.length ≤ 200)
  isComponent owner &&
    match intent.repo.splitOn "/" with
    | [name] =>
        isComponent name && (intent.identityRepo = "" || intent.identityRepo = name) &&
          fits (owner ++ "/" ++ name) name
    | [first, second] =>
        first = owner && isComponent first && isComponent second &&
          fits intent.repo intent.identityRepo
    | _ => false

namespace LearningStage

variable (py : PyText) (sha256 : String → String) (w : LearningWorld)

/-- The turn of `on_enter` for one intent. -/
def enterIntent (intent : LearningIntent) : ItemOp Unit := do
  let record ← Command.attempt (w.load (intent.key sha256))
  if recordTerminal record then pure ()
  else do
    let _ ← Command.attempt (w.ensurePending (intent.key sha256))

/-- `on_enter`. -/
def onEnter : ItemOp (Option StageOutcome) := do
  let item ← get
  item.learningIntents.forM (enterIntent sha256 w)
  modify fun item => if item.state = "" then { item with state := "ENTER" } else item
  pure none

/-- `payload.get("learning_external_claims", [])`. -/
def externalClaims (item : WorkItem) : List String :=
  match item.payload.get? "learning_external_claims" with
  | some (.keys l) => l
  | _ => []

/-- `_next_intent`. -/
def nextIntent (external : List String) :
    List LearningIntent → Except PyError (Option LearningIntent)
  | [] => .ok none
  | intent :: rest =>
      if intent.key sha256 ∈ external then nextIntent external rest
      else
        match w.load (intent.key sha256) with
        | .error e => .error e
        | .ok record => if recordTerminal record then nextIntent external rest else .ok (some intent)

/-- `_locally_claimed_intent`. -/
def locallyClaimedIntent : ItemOp (Option LearningIntent) := do
  let item ← get
  set (item.popPayload claimedIntentKey)
  match item.payload.get? claimedIntentKey with
  | some (.str key) => pure (item.learningIntents.find? fun intent => intent.key sha256 = key)
  | _ => pure none

/-- `on_cancelled_before_start`. -/
def onCancelledBeforeStart : ItemOp Unit := do
  match ← locallyClaimedIntent sha256 with
  | none => pure ()
  | some intent => Command.attempt (w.retry (intent.key sha256))

/-- `on_job_done`. -/
def onJobDone (result : JobResult) : ItemOp Unit := do
  match ← locallyClaimedIntent sha256 with
  | none => pure ()
  | some intent => do
      let key := intent.key sha256
      let succeeded := result.ok && w.delivered result
      let error := if succeeded then ""
        else orElse (result.error.getD "") "invalid Athena learn result"
      if !succeeded ∧ error.startsWith "learning_deferred:" then do
        Command.attempt (w.defer key)
        noteDeferred key error
        recordSummaryAction py error
      else do
        let record ← Command.attempt (w.load key)
        let attempts := (record.map LearningRecord.attempts).getD 0
        if !succeeded ∧ attempts < w.learnBudget then Command.attempt (w.retry key)
        else do
          Command.attempt (w.finish key)
          if succeeded then pure () else noteFailure key (clip1000 error)

/-- `_claim_or_skip`. -/
def claimOrSkip (intent : LearningIntent) (record : LearningRecord Json) :
    ItemOp (Option StepResult) := do
  let key := intent.key sha256
  if record.status = .claimed then do
    if ← Command.attempt (w.claimIsActive key) then
      pure (some (.outcome ⟨.eject, "learning_claim_owned_elsewhere"⟩))
    else do
      match ← Command.attempt (w.failAbandonedClaim key) with
      | none => pure (some (.outcome ⟨.eject, "learning_claim_owned_elsewhere"⟩))
      | some abandoned => do
          if abandoned.status = .failed ∧ abandoned.error = some "outcome_unknown" then
            noteFailure key "outcome_unknown"
          else pure ()
          pure (some (.goOn "CLAIM"))
  else if isTerminal record.status then pure (some (.goOn "CLAIM"))
  else if intent.kind ≠ .approvedPlan then pure none
  else do
    if ← Command.attempt (w.claim key) then Command.attempt (w.finish key) else pure ()
    noteFailure key "plan_only_learning_rejected"
    recordSummaryAction py "plan_only_learning_rejected"
    pure (some (.goOn "CLAIM"))

/-- `_prepare_host_job`. -/
def prepareHostJob (intent : LearningIntent) : ItemOp StepResult :=
  match w.workspace with
  | none => do
      onCancelledBeforeStart sha256 w
      pure (.outcome ⟨.retry, "learning preparation interrupted"⟩)
  | some (some message) => do
      onJobDone py sha256 w
        { ok := false, error := some ("learning source preparation failed: " ++ message) }
      pure (.goOn "CLAIM")
  | some none =>
      pure (.job ⟨⟨.athenaSkill, "auxiliary_learn_" ++ intent.kind.value⟩, "RESULT"⟩)

/-- Where the stage sends an item with nothing left to deliver. -/
def resumeOutcome (resume : Option StageName) : StageOutcome :=
  if resume = some .implementation then ⟨.failBack, "resume_implementation"⟩
  else if resume = some .planReview then ⟨.failBack, "resume_plan_review"⟩
  else ⟨.advance, "learning terminal"⟩

/-- The end of `step`, once an intent's claim is won. -/
def deliver (intent : LearningIntent) : ItemOp StepResult := do
  let key := intent.key sha256
  modify fun item => item.setPayload claimedIntentKey (.str key)
  if intent.acceptedBy w.org then prepareHostJob py sha256 w intent
  else do
    Command.attempt (w.finish key)
    modify fun item => item.popPayload claimedIntentKey
    noteFailure key "learning_repository_identity_rejected"
    recordSummaryAction py "learning_repository_identity_rejected"
    pure (.goOn "CLAIM")

/-- `step` for the next intent, once its record is read. -/
def stepRecord (intent : LearningIntent) (record : LearningRecord Json) :
    ItemOp StepResult := do
  match ← claimOrSkip py sha256 w intent record with
  | some skip => pure skip
  | none => do
      if ← Command.attempt (w.claim (intent.key sha256)) then deliver py sha256 w intent
      else pure (.goOn "CLAIM")

/-- `step` for the next intent. -/
def stepIntent (intent : LearningIntent) : ItemOp StepResult := do
  match ← Command.attempt (w.reload (intent.key sha256)) with
  | some record => stepRecord py sha256 w intent record
  | none => do
      let record ← Command.attempt (w.ensurePending (intent.key sha256))
      stepRecord py sha256 w intent record

/-- `step`. -/
def step : ItemOp StepResult := do
  let item ← get
  if item.state = "ENTER" ∨ item.state = "RESULT" then pure (.goOn "CLAIM")
  else if item.state ≠ "CLAIM" then
    pure (.outcome ⟨.finishFail, "unknown state: " ++ item.state⟩)
  else do
    match ← Command.attempt (nextIntent sha256 w (externalClaims item) item.learningIntents) with
    | none => pure (.outcome (resumeOutcome item.learningResumeStage))
    | some intent => stepIntent py sha256 w intent

end LearningStage

/-! ## What the stage writes

Four payload keys, and the state on entry. In particular the stage leaves
alone where the item goes next and what it finished with. -/

/-- The payload keys of the learning stage. -/
def learningKeys : List String :=
  ["learning_failures", "learning_deferred", claimedIntentKey, summaryActionsKey]

structure LearningWrites (before after : WorkItem) : Prop where
  eq : after = { before with payload := after.payload, state := after.state }
  keys : ∀ key, key ∉ learningKeys → after.payload.get? key = before.payload.get? key
  state : after.state = before.state ∨ (before.state = "" ∧ after.state = "ENTER")

namespace LearningWrites

variable {a b : WorkItem}

theorem refl (a : WorkItem) : LearningWrites a a := ⟨rfl, fun _ _ => rfl, .inl rfl⟩

theorem setPayload (h : LearningWrites a b) {key : String} (value : PayloadValue)
    (hkey : key ∈ learningKeys) : LearningWrites a (b.setPayload key value) where
  eq := by
    rw [h.eq]
    rfl
  keys := fun k hk => by
    have hne : key ≠ k := fun heq => hk (heq ▸ hkey)
    exact (Dict.get?_set_ne _ _ hne).trans (h.keys k hk)
  state := h.state

theorem popPayload (h : LearningWrites a b) {key : String} (hkey : key ∈ learningKeys) :
    LearningWrites a (b.popPayload key) where
  eq := by
    rw [h.eq]
    rfl
  keys := fun k hk => by
    have hne : ¬ k = key := fun heq => hk (heq ▸ hkey)
    exact ((Dict.get?_erase _ _ _).trans (if_neg hne)).trans (h.keys k hk)
  state := h.state

theorem enter (h : LearningWrites a b) (hb : b.state = "") :
    LearningWrites a { b with state := "ENTER" } where
  eq := by
    rw [h.eq]
  keys := h.keys
  state := by
    rcases h.state with hsame | ⟨_, hentered⟩
    · exact .inr ⟨hsame.symm.trans hb, rfl⟩
    · rw [hb] at hentered
      exact absurd hentered (by decide)

theorem keeps (h : LearningWrites a b) : Keeps a b where
  repo := by rw [h.eq]
  kind := by rw [h.eq]
  issue := by rw [h.eq]
  stage := by rw [h.eq]
  result := by
    rw [h.eq]
    exact id
  keys := by
    intro key hkey
    refine h.keys key fun hlearning => ?_
    exact absurd hlearning
      ((by decide : ∀ k ∈ coordinatorKeys, k ∉ learningKeys) key hkey)
  lease := fun _ _ hv => (h.keys _ (by decide)).trans hv
  failBacks := h.keys _ (by decide)

end LearningWrites

/-- Whatever it comes to, the command writes only what the stage may. -/
def Writes {α : Type} (x : ItemOp α) : Prop :=
  ∀ a b, LearningWrites a b →
    x.wp (fun _ => LearningWrites a) (fun _ => LearningWrites a) b

namespace Writes

variable {α β : Type}

theorem pure (v : α) : Writes (pure v : ItemOp α) := fun _ _ h => h

theorem throw (e : PyError) : Writes (throw e : ItemOp α) := fun _ _ h => h

theorem attempt (r : Except PyError α) : Writes (Command.attempt r : ItemOp α) :=
  fun _ _ h => Command.wp_attempt (fun _ _ => h) fun _ _ => h

theorem get : Writes (get : ItemOp WorkItem) := fun _ _ h => h

theorem modify {f : WorkItem → WorkItem}
    (h : ∀ a b, LearningWrites a b → LearningWrites a (f b)) :
    Writes (modify f : ItemOp Unit) := fun a b hab => h a b hab

theorem bind {x : ItemOp α} {f : α → ItemOp β} (hx : Writes x) (hf : ∀ v, Writes (f v)) :
    Writes (x >>= f) := by
  intro a b h
  rw [Command.wp_bind]
  exact Command.wp_mono (hx a b h) (fun v c hc => hf v a c hc) fun _ _ hc => hc

theorem ite {p : Prop} [Decidable p] {x y : ItemOp α} (hx : Writes x) (hy : Writes y) :
    Writes (if p then x else y) := by
  split
  · exact hx
  · exact hy

theorem forM {f : β → ItemOp PUnit} (hf : ∀ v, Writes (f v)) (l : List β) :
    Writes (l.forM f) := by
  induction l with
  | nil => exact .pure _
  | cons v l ih => exact .bind (hf v) fun _ => ih

/-- The state the command read is what it writes on. -/
theorem ofGet {f : WorkItem → ItemOp α}
    (h : ∀ a b, LearningWrites a b →
      (f b).wp (fun _ => LearningWrites a) (fun _ => LearningWrites a) b) :
    Writes (MonadState.get >>= f) := by
  intro a b hab
  rw [Command.wp_bind, Command.wp_get]
  exact h a b hab

end Writes

theorem recordSummaryAction_writes (py : PyText) (action : String) :
    Writes (recordSummaryAction py action) := by
  unfold recordSummaryAction
  refine .ite (.throw _) (.ofGet fun a b hab => ?_)
  split
  · exact hab.setPayload _ (by decide)
  · split
    · exact hab
    · exact hab.setPayload _ (by decide)
  · exact hab

theorem noteFailure_writes (key error : String) : Writes (noteFailure key error) :=
  .modify fun _ _ hab => hab.setPayload _ (by decide)

theorem noteDeferred_writes (key reason : String) : Writes (noteDeferred key reason) :=
  .modify fun _ _ hab => hab.setPayload _ (by decide)

namespace LearningStage

variable (py : PyText) (sha256 : String → String) (w : LearningWorld)

theorem onEnter_writes : Writes (onEnter sha256 w) := by
  refine .bind .get fun item => .bind (.forM (fun intent => ?_) _) fun _ =>
    .bind (.modify fun a b hab => ?_) fun _ => .pure _
  · exact .bind (.attempt _) fun _ => .ite (.pure _) (.bind (.attempt _) fun _ => .pure _)
  · split
    · next hstate => exact hab.enter hstate
    · exact hab

theorem locallyClaimedIntent_writes : Writes (locallyClaimedIntent sha256) := by
  refine .ofGet fun a b hab => ?_
  rw [Command.wp_bind, Command.wp_set]
  have hpop := hab.popPayload (show claimedIntentKey ∈ learningKeys by decide)
  split
  · exact hpop
  · exact hpop

theorem onCancelledBeforeStart_writes : Writes (onCancelledBeforeStart sha256 w) := by
  refine .bind (locallyClaimedIntent_writes sha256) fun found => ?_
  cases found with
  | none => exact .pure _
  | some intent => exact .attempt _

theorem onJobDone_writes (result : JobResult) : Writes (onJobDone py sha256 w result) := by
  refine .bind (locallyClaimedIntent_writes sha256) fun found => ?_
  cases found with
  | none => exact .pure _
  | some intent =>
      refine .ite (.bind (.attempt _) fun _ => .bind (noteDeferred_writes _ _) fun _ =>
        recordSummaryAction_writes py _) (.bind (.attempt _) fun record => ?_)
      exact .ite (.attempt _) (.bind (.attempt _) fun _ =>
        .ite (.pure _) (noteFailure_writes _ _))

theorem claimOrSkip_writes (intent : LearningIntent) (record : LearningRecord Json) :
    Writes (claimOrSkip py sha256 w intent record) := by
  have hrejected : Writes (do
      noteFailure (intent.key sha256) "plan_only_learning_rejected"
      recordSummaryAction py "plan_only_learning_rejected"
      pure (some (.goOn "CLAIM")) : ItemOp (Option StepResult)) :=
    .bind (noteFailure_writes _ _) fun _ => .bind (recordSummaryAction_writes py _) fun _ =>
      .pure _
  refine .ite (.bind (.attempt _) fun _ => .ite (.pure _) (.bind (.attempt _) fun found => ?_))
    (.ite (.pure _) (.ite (.pure _) (.bind (.attempt _) fun _ =>
      .ite (.bind (.attempt _) fun _ => hrejected) hrejected)))
  cases found with
  | none => exact .pure _
  | some abandoned =>
      exact .ite (.bind (noteFailure_writes _ _) fun _ => .pure _) (.pure _)

theorem prepareHostJob_writes (intent : LearningIntent) :
    Writes (prepareHostJob py sha256 w intent) := by
  unfold prepareHostJob
  split
  · exact .bind (onCancelledBeforeStart_writes sha256 w) fun _ => .pure _
  · exact .bind (onJobDone_writes py sha256 w _) fun _ => .pure _
  · exact .pure _

theorem deliver_writes (intent : LearningIntent) : Writes (deliver py sha256 w intent) := by
  refine .bind (.modify fun _ _ hab => hab.setPayload _ (by decide)) fun _ =>
    .ite (prepareHostJob_writes py sha256 w intent) ?_
  exact .bind (.attempt _) fun _ =>
    .bind (.modify fun _ _ hab => hab.popPayload (by decide)) fun _ =>
      .bind (noteFailure_writes _ _) fun _ =>
        .bind (recordSummaryAction_writes py _) fun _ => .pure _

theorem stepIntent_writes (intent : LearningIntent) :
    Writes (stepIntent py sha256 w intent) := by
  have hrest : ∀ record, Writes (stepRecord py sha256 w intent record) := by
    intro record
    refine .bind (claimOrSkip_writes py sha256 w intent record) fun skip => ?_
    cases skip with
    | some skip => exact .pure _
    | none => exact .bind (.attempt _) fun _ => .ite (deliver_writes py sha256 w intent) (.pure _)
  refine .bind (.attempt _) fun found => ?_
  cases found with
  | some record => exact hrest record
  | none => exact .bind (.attempt _) hrest

theorem step_writes : Writes (step py sha256 w) := by
  refine .bind .get fun item => .ite (.pure _) (.ite (.pure _) (.bind (.attempt _) fun next => ?_))
  cases next with
  | none => exact .pure _
  | some intent => exact stepIntent_writes py sha256 w intent

end LearningStage

/-- A command over the item as a stage method. -/
def StageMethod.ofOp {ω α : Type} (x : ω → ItemOp α) (h : ∀ w, Writes (x w)) :
    StageMethod ω α where
  call := fun w item => ⟨((x w).exec item).2, ((x w).exec item).1⟩
  keeps := fun w item => (Command.wp_state (h w item item (.refl item))).keeps

/-- `LearningStage`, with the part of the environment it consults. -/
def learningStage {ω : Type} (py : PyText) (sha256 : String → String)
    (view : ω → LearningWorld) : Stage ω where
  onEnter := .ofOp (fun w => LearningStage.onEnter sha256 (view w))
    fun w => LearningStage.onEnter_writes sha256 (view w)
  step := .ofOp (fun w => LearningStage.step py sha256 (view w))
    fun w => LearningStage.step_writes py sha256 (view w)
  onJobDone := fun result => .ofOp (fun w => LearningStage.onJobDone py sha256 (view w) result)
    fun w => LearningStage.onJobDone_writes py sha256 (view w) result
  onCancelledBeforeStart := .ofOp (fun w => LearningStage.onCancelledBeforeStart sha256 (view w))
    fun w => LearningStage.onCancelledBeforeStart_writes sha256 (view w)

end Hephaestus.Pipeline
