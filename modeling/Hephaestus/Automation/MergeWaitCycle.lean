import Hephaestus.Lib.Command
import Hephaestus.Lib.Json
import Hephaestus.Lib.Text

/-!
# One cycle of the merge wait

A cycle asks GitHub a number of questions and then, perhaps, requests the
merge. Whoever answers may be anyone: each answer is a function of everything
asked and answered so far, an exception is an answer, and so is the state of the
cancellation flag. The cycle writes down every question with its answer in the
order they are put. What it may do is then a statement about what is written
down at the time it does it.
-/

namespace Hephaestus.Automation

open Hephaestus.Lib

/-- Python's `str` for the values that are not strings already, beside the tables. -/
structure PyText extends Text.Unicode where
  str : Json → Text

/-- `str(value or "")`. -/
def PyText.orEmpty (py : PyText) : Option Json → Text
  | some (.str text) => text.toList
  | some value => if value.truthy then py.str value else []
  | none => []

/-- `value is None`, also for a key that is not there. -/
def isNone : Option Json → Bool
  | none | some .null => true
  | _ => false

/-- A full commit name: 40 or 64 digits of `[0-9a-f]`. -/
def isFullSha (t : Text) : Bool :=
  Text.isHexOfLength 40 t || Text.isHexOfLength 64 t

/-- `EffectiveMergePolicy`. -/
structure MergePolicy where
  baseBranch : Text
  defaultBranch : Text
  requiredChecks : List (Text × Option Int)
  conversationResolutionEnforced : Bool
  bypassableRulesetIds : List Int
  strictUpdateEnforced : Bool
  mergeQueueMethod : Option Text
  deriving DecidableEq

/-- `merge_queue_required`. -/
def MergePolicy.mergeQueueRequired (policy : MergePolicy) : Bool :=
  policy.mergeQueueMethod.isSome

/-- `ConditionalMergeResult`. -/
structure MergeResult where
  status : Option Int
  body : Option Json
  transportError : Bool
  malformed : Bool
  dryRun : Bool
  queued : Bool

/-- The rebase proof and record of a request, which come together. -/
structure RebaseEvidence (ρ : Type) where
  resultingHeadSha : Text
  full : isFullSha resultingHeadSha = true
  record : ρ

/-- `RunMergeWaitCycleRequest`; the deadline only travels through. -/
structure MergeWaitRequest (ρ : Type) where
  prNumber : Nat
  reviewedHeadSha : Text
  full : isFullSha reviewedHeadSha = true
  proofGeneration : Nat
  declinedReadinessFingerprint : Option (List Text)
  queueAdmitted : Bool
  rebase : Option (RebaseEvidence ρ)

/-- `merge_head_sha`. -/
def MergeWaitRequest.mergeHeadSha {ρ : Type} (request : MergeWaitRequest ρ) : Text :=
  match request.rebase with
  | some evidence => evidence.resultingHeadSha
  | none => request.reviewedHeadSha

/-- `MergeWaitCycleCompleted`, without the request it repeats. -/
structure MergeWaitCompleted where
  outcome : String
  attempted : Bool
  readinessFingerprint : Option (List Text)
  retryable : Bool
  mergeSha : Option Text

/-- The check of its constructor. -/
def MergeWaitCompleted.Valid (c : MergeWaitCompleted) : Prop :=
  c.outcome ≠ "" ∧ ∀ sha, c.mergeSha = some sha → isFullSha sha = true

/-- A question with its answer; an `.error` is an exception. -/
inductive MergeEvent (ρ : Type)
  /-- `gh_pr_state`. -/
  | prState (answer : Except Unit Json)
  /-- `pr_has_implementation_state_label`: GO and NO-GO. -/
  | labels (answer : Except Unit (Bool × Bool))
  /-- `read_review_rebase_record`. -/
  | rebaseRecord (answer : Except Unit (Option ρ))
  /-- `effective_merge_policy`; nothing stands for everything that is no policy. -/
  | policy (answer : Except Unit (Option MergePolicy))
  /-- `list_unresolved_review_threads`. -/
  | threads (answer : Except Unit (List Json))
  /-- `gh_pr_merge_readiness`. -/
  | readiness (answer : Except Unit Json)
  /-- `required_checks_pass_for_head`. -/
  | checks (head : Text) (policy : MergePolicy) (answer : Except Unit Json)
  /-- `cancellation.is_set()`. -/
  | cancelled (answer : Bool)
  /-- `merge_pr_if_head`. -/
  | merge (head : Text) (policy : MergePolicy) (pullRequestId : Option Json)
      (answer : Except Unit MergeResult)

/-- What was asked and answered, oldest first. -/
abbrev MergeHistory (ρ : Type) := List (MergeEvent ρ)

/-- Whoever answers, given what was asked and answered before. -/
structure MergeAdapter (ρ : Type) where
  prState : MergeHistory ρ → Except Unit Json
  labels : MergeHistory ρ → Except Unit (Bool × Bool)
  rebaseRecord : MergeHistory ρ → Except Unit (Option ρ)
  policy : MergeHistory ρ → Except Unit (Option MergePolicy)
  threads : MergeHistory ρ → Except Unit (List Json)
  readiness : MergeHistory ρ → Except Unit Json
  checks : MergeHistory ρ → Except Unit Json
  cancelled : MergeHistory ρ → Bool
  merge : MergeHistory ρ → Except Unit MergeResult

/-- A part of the cycle: it goes on with a value or completes the cycle. -/
abbrev MergeStep (ρ α : Type) := Command (MergeHistory ρ) MergeWaitCompleted α

/-- Put a question and write it down with its answer. -/
def ask {ρ α : Type} (answer : MergeHistory ρ → α) (event : α → MergeEvent ρ) : MergeStep ρ α := do
  let history ← get
  set (history ++ [event (answer history)])
  pure (answer history)

/-- `complete(outcome)`. -/
def completed (outcome : String) : MergeWaitCompleted :=
  { outcome := outcome, attempted := false, readinessFingerprint := none, retryable := false
    mergeSha := none }

section Cycle

variable {ρ : Type} [DecidableEq ρ] (py : PyText) (request : MergeWaitRequest ρ)
  (adapter : MergeAdapter ρ)

/-- `terminal`. -/
def terminal (state : Json) : Option String :=
  match state with
  | .obj _ =>
      let lifecycle := py.upper (py.orEmpty (state.get? "state"))
      if lifecycle = "MERGED".toList ∨ ((state.get? "mergedAt").getD .null).truthy = true then
        some "merged"
      else if lifecycle = "CLOSED".toList then some "closed"
      else none
  | _ => none

/-- `merge_sha_from_state`. -/
def mergeShaFromState (state : Json) : Option Text :=
  match (state.get? "mergeCommit").bind fun commit => commit.get? "oid" with
  | some (.str sha) =>
      let normalized := py.foldText sha.toList
      if isFullSha normalized then some normalized else none
  | _ => none

/-- `operation_boundary`, and the completion it leads to. -/
def operationBoundary : MergeStep ρ Unit := do
  if ← ask adapter.cancelled .cancelled then
    throw (completed "merge_cycle_cancelled")

/-- `rebase_record_outcome`, and the completion it leads to. -/
def rebaseRecordOutcome : MergeStep ρ Unit :=
  match request.rebase with
  | none => pure ()
  | some evidence => do
      match ← ask adapter.rebaseRecord .rebaseRecord with
      | .error _ => throw (completed "rebase_review_record_changed")
      | .ok live =>
          if live ≠ some evidence.record then throw (completed "rebase_review_record_changed")

/-- The checks of `admit` on a state, before it reads the labels. -/
def admitState (attempted : Bool) (state : Json) : Except MergeWaitCompleted Unit :=
  let fail (outcome : String) : Except MergeWaitCompleted Unit :=
    .error { completed outcome with attempted := attempted }
  match terminal py state with
  | some outcome =>
      .error { completed outcome with
        attempted := attempted, mergeSha := mergeShaFromState py state }
  | none =>
      match state with
      | .null => fail "pr_state_unavailable"
      | .obj _ =>
          if isNone (state.get? "autoMergeRequest") = false then fail "auto_merge_already_armed"
          else if (state.get? "state").bind Json.asStr? ≠ some "OPEN"
              ∨ (state.get? "autoMergeRequest").isNone = true then fail "pr_state_unverified"
          else if (state.get? "baseRefName").bind Json.asStr? ≠ some "main" then
            fail "non_main_base"
          else .ok ()
      | _ => fail "pr_state_unverified"

/-- `admit`, and the completion a rejection leads to. -/
def admitMerge (attempted : Bool) : MergeStep ρ Json := do
  let fail {α : Type} (outcome : String) : MergeStep ρ α :=
    throw { completed outcome with attempted := attempted }
  match ← ask adapter.prState .prState with
  | .error _ => fail "pr_state_unavailable"
  | .ok state =>
      Command.attempt (admitState py attempted state)
      match ← ask adapter.labels .labels with
      | .error _ => fail "implementation_state_unavailable"
      | .ok (hasGo, hasNoGo) =>
          if hasGo = false ∨ hasNoGo = true then fail "not_implementation_go"
          else
            let head := py.orEmpty (state.get? "headRefOid")
            if head = [] then fail "missing_pr_head"
            else if head ≠ request.mergeHeadSha then fail "reviewed_head_drift"
            else pure state

/-- `conversation_safety`, and the completion it leads to. -/
def conversationSafety (policy : MergePolicy) : MergeStep ρ Unit := do
  match ← ask adapter.threads .threads with
  | .error _ => throw (completed "review_threads_unavailable")
  | .ok threads =>
      if threads.isEmpty = false then throw (completed "unresolved_review_threads")
      else if policy.conversationResolutionEnforced = false then
        throw (completed "conversation_resolution_required")

/-- The policies `policy_safety` lets through before it asks for the threads. -/
def policySafe (policy : MergePolicy) : Except MergeWaitCompleted Unit :=
  if policy.bypassableRulesetIds.any fun id => id ≤ 0 then
    .error (completed "merge_policy_unavailable")
  else if policy.bypassableRulesetIds ≠ [] ∧ policy.mergeQueueRequired = false then
    .error (completed "merge_policy_bypassable")
  else if policy.mergeQueueRequired = false ∧ policy.strictUpdateEnforced = false then
    .error (completed "merge_policy_not_strict")
  else .ok ()

/-- `policy_safety`. -/
def policySafety (policy : MergePolicy) : MergeStep ρ Unit := do
  Command.attempt (policySafe policy)
  conversationSafety adapter policy

/-- `str(state.get(key) or "").upper()`. -/
def upperField (state : Json) (key : String) : Text :=
  py.upper (py.orEmpty (state.get? key))

/-- The fingerprint of a readiness that names a head. -/
def readinessFingerprint (state : Json) (head : Text) : List Text :=
  [head, Nat.toDigits 10 request.proofGeneration, upperField py state "mergeable",
    upperField py state "mergeStateStatus"]

/-- The last part of `readiness_outcome`: the head is the one to merge. -/
def readinessOfHead (parkIfReady mergeQueueRequired : Bool) (fingerprint : List Text)
    (status mergeable : Text) : Option String :=
  if status ∈ ["CLEAN".toList, "HAS_HOOKS".toList, "UNSTABLE".toList]
      ∧ mergeable = "MERGEABLE".toList then
    if parkIfReady = true ∨ request.declinedReadinessFingerprint = some fingerprint then
      some "readiness_wait"
    else none
  else if mergeQueueRequired = true ∧ status = "BLOCKED".toList
      ∧ mergeable = "MERGEABLE".toList then none
  else if status ∈ ["CONFLICTING".toList, "DIRTY".toList]
      ∨ mergeable = "CONFLICTING".toList then some "merge_conflicting"
  else if status = "BEHIND".toList then some "readiness_wait"
  else if status ∉ ["BEHIND".toList, "BLOCKED".toList, "UNKNOWN".toList]
      ∧ mergeable ≠ "UNKNOWN".toList then some "merge_readiness_unknown"
  else some "readiness_wait"

/-- `readiness_outcome`. -/
def readinessOutcome (state : Json) (parkIfReady mergeQueueRequired : Bool) :
    Option String × Option (List Text) :=
  match terminal py state with
  | some outcome => (some outcome, none)
  | none =>
      match state with
      | .obj _ =>
          if isNone (state.get? "autoMergeRequest") = false then
            (some "auto_merge_already_armed", none)
          else
            match (state.get? "headRefOid").bind Json.asStr? with
            | none => (some "merge_readiness_unavailable", none)
            | some head =>
                if head = "" then (some "merge_readiness_unavailable", none)
                else
                  let fingerprint := readinessFingerprint py request state head.toList
                  if head.toList ≠ request.mergeHeadSha then
                    (some "readiness_wait", some fingerprint)
                  else
                    (readinessOfHead request parkIfReady mergeQueueRequired fingerprint
                      (upperField py state "mergeStateStatus") (upperField py state "mergeable"),
                      some fingerprint)
      | _ => (some "merge_readiness_unavailable", none)

/-- `effective_merge_policy`, an exception counting as no policy. -/
def readPolicy : MergeStep ρ MergePolicy := do
  match ← ask adapter.policy .policy with
  | .ok (some policy) => pure policy
  | _ => throw (completed "merge_policy_unavailable")

/-- The first readiness read. -/
def readReadiness (policy : MergePolicy) : MergeStep ρ Unit := do
  match ← ask adapter.readiness .readiness with
  | .error _ => throw (completed "merge_readiness_unavailable")
  | .ok state =>
      match readinessOutcome py request state false policy.mergeQueueRequired with
      | (some outcome, fingerprint) =>
          throw { completed outcome with readinessFingerprint := fingerprint }
      | (none, _) => pure ()

/-- The required checks: only `True` passes. -/
def readChecks (policy : MergePolicy) : MergeStep ρ Unit := do
  match ← ask adapter.checks (.checks request.mergeHeadSha policy) with
  | .ok (.bool true) => pure ()
  | _ => throw (completed "required_checks_not_green")

/-- Complete the cycle when `p` holds. -/
def refuse (p : Prop) [Decidable p] (outcome : String) : MergeStep ρ Unit :=
  Command.attempt (raiseIf p (completed outcome))

/-- Everything before the merge request: the policy it goes out under and the
state that was admitted last. -/
def admission : MergeStep ρ (MergePolicy × Json) := do
  operationBoundary adapter
  let state ← admitMerge py request adapter false
  rebaseRecordOutcome request adapter
  refuse (request.queueAdmitted = true) "merge_queue_wait"
  refuse (((state.get? "baseRefName").bind Json.asStr?).getD "" = "") "pr_state_unverified"
  let policy ← readPolicy adapter
  policySafety adapter policy
  readReadiness py request adapter policy
  readChecks request adapter policy
  let currentPolicy ← readPolicy adapter
  refuse (currentPolicy ≠ policy) "merge_policy_unavailable"
  policySafety adapter currentPolicy
  rebaseRecordOutcome request adapter
  operationBoundary adapter
  let finalState ← admitMerge py request adapter false
  pure (currentPolicy, finalState)

/-- A completion after the request went out. -/
def attempted (outcome : String) : MergeWaitCompleted :=
  { completed outcome with attempted := true }

/-- The `sha` of a merge response, when it is a full commit name. -/
def responseSha (body : Json) : Option Text :=
  match (body.get? "sha").bind Json.asStr? with
  | some sha => if isFullSha sha.toList then some sha.toList else none
  | none => none

/-- What follows a `405`. -/
def afterNotAllowed : MergeStep ρ MergeWaitCompleted := do
  match ← ask adapter.readiness .readiness with
  | .error _ => pure (attempted "merge_readiness_unavailable")
  | .ok readiness =>
      match terminal py readiness with
      | some outcome => pure (attempted outcome)
      | none =>
          match readiness with
          | .obj fields =>
              if isNone ((Json.obj fields).get? "autoMergeRequest") = false then
                pure (attempted "auto_merge_already_armed")
              else
                let _ ← admitMerge py request adapter true
                let (status, fingerprint) := readinessOutcome py request (.obj fields) true false
                pure { attempted (status.getD "readiness_wait") with
                  readinessFingerprint := fingerprint }
          | _ => pure (attempted "merge_readiness_unavailable")

/-- What follows a `200`. -/
def afterMerged (body : Option Json) : MergeStep ρ MergeWaitCompleted := do
  match body with
  | none => pure (attempted "merge_not_merged")
  | some body =>
      match body.get? "merged" with
      | some (.bool true) =>
          match ← ask adapter.prState .prState with
          | .error _ => pure (attempted "merge_reconciliation_unavailable")
          | .ok state =>
              pure { attempted ((terminal py state).getD "merge_not_merged") with
                mergeSha := responseSha body }
      | _ => pure (attempted "merge_not_merged")

/-- Everything after the merge request. -/
def reconciliation (result : Except Unit MergeResult) : MergeStep ρ MergeWaitCompleted := do
  match result with
  | .error _ => pure { attempted "merge_request_transport_error" with retryable := true }
  | .ok result =>
      if result.dryRun then pure (attempted "conditional_merge_dry_run")
      else if result.malformed then pure (attempted "merge_result_malformed")
      else
        match result.transportError, result.status with
        | false, some status =>
            if result.queued then pure (attempted "merge_queued")
            else if status = 200 then afterMerged py adapter result.body
            else if status = 409 then
              let _ ← admitMerge py request adapter true
              pure (attempted "merge_409_without_head_drift")
            else if status = 405 then afterNotAllowed py request adapter
            else pure (attempted ("merge_http_" ++ toString status))
        | _, _ =>
            let _ ← admitMerge py request adapter true
            pure { attempted "merge_not_ready" with retryable := true }

/-- `_run_merge_wait_cycle`. -/
def mergeWaitCycle : MergeStep ρ MergeWaitCompleted := do
  let (policy, finalState) ← admission py request adapter
  let result ← ask adapter.merge
    (.merge request.mergeHeadSha policy (finalState.get? "id"))
  reconciliation py request adapter result

/-- The cycle from its start: what it reports and what it asked. -/
def runMergeWaitCycle : MergeWaitCompleted × MergeHistory ρ :=
  match (mergeWaitCycle py request adapter).exec [] with
  | (.ok report, history) => (report, history)
  | (.error report, history) => (report, history)

end Cycle

end Hephaestus.Automation
