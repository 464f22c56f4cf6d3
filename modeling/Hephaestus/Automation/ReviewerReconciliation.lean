import Hephaestus.Automation.ReplyBatch

/-!
# Reconciling the threads a reviewer has decided on

`reconcile_reviewer_validated_threads` of `pipeline_github_reviews.py`. The reviewer resolves a
thread or sends it back with feedback; every thread is read before and after it is changed.
Whoever answers may be anyone: an answer is a function of all that was asked before.
-/

namespace Hephaestus.Automation

open Hephaestus.Lib

/-- What a request raises, by the handler that catches it: the two for GraphQL, the one around
the loop, or none. -/
inductive ReconcileFailure
  | outcomeUnknown
  | response
  | caught
  | uncaught
  deriving DecidableEq

/-- A request with its answer. -/
inductive ReconcileEvent
  /-- `_review_thread_snapshot`. -/
  | read (threadId : Text) (answer : Except ReconcileFailure (Option (LiveThread threadId)))
  /-- `_add_reviewer_feedback_reply`. -/
  | feedback (threadId body : Text) (answer : Except ReconcileFailure Json)
  /-- `resolve_thread_mutation`. -/
  | resolve (threadId : Text) (answer : Except ReconcileFailure Json)

structure ReconcileAdapter where
  read : List ReconcileEvent → (t : Text) → Except ReconcileFailure (Option (LiveThread t))
  feedback : List ReconcileEvent → Except ReconcileFailure Json
  resolve : List ReconcileEvent → Except ReconcileFailure Json

/-- The arguments; a receipt is a dictionary. -/
structure ReconcileRequest where
  prNumber : Nat
  reviewedHeadSha : Text
  receipts : List (Dict String Json)
  resolvedThreadIds : List Text
  feedback : Dict Text Text
  /-- `_skip`, for a dry run. -/
  skip : Bool

/-- `ReviewerThreadReconciliationResult`. -/
structure ReconcileResult where
  resolvedThreadIds : List Text := []
  feedbackThreadIds : List Text := []
  blockedThreadIds : List Text := []

/-- The value is this text. -/
def hasText (value : Option Json) (t : Text) : Bool :=
  value.bind Json.asStr? = some (String.ofList t)

/-! ## The batch of the receipts -/

/-- `_implementation_reply_batch_nonce`. -/
def implementationReplyBatchNonce (reviewBody : Text) : Option Text :=
  (matchReplyBody reviewBody).map Prod.snd

/-- A row of `candidates`, with the id of its thread. -/
structure BatchReply where
  thread : Json
  threadId : Text
  replyId : Text
  replyBody : Text
  batchNonce : Text
  reviewId : Text

/-- The row of a thread whose reply is validated. -/
def batchReply? (thread : Json) (reply : Text × Text) : Option BatchReply := do
  let threadId ← (thread.get? "id").bind Json.asStr?
  let final ← (commentsOf? thread).bind List.getLast?
  let batchNonce ← implementationReplyBatchNonce reply.2
  let reviewId ← (final.get? "review_id").bind Json.asStr?
  guard (threadId ≠ "" ∧ reviewId ≠ "")
  pure { thread, threadId := threadId.toList, replyId := reply.1, replyBody := reply.2, batchNonce
         reviewId := reviewId.toList }

section Batch

variable (host : ReplyHost) (prNumber : Nat) (reviewedHeadSha : Text)

/-- The loop over the threads, with the rows so far; `none` where it returns. -/
def batchReplies : List Json → List BatchReply → Except String (Option (List BatchReply))
  | [], rows => .ok (some rows)
  | thread :: threads, rows =>
      match validatedImplementationReply host prNumber reviewedHeadSha thread with
      | .error e => .error e
      | .ok none => batchReplies threads rows
      | .ok (some reply) =>
          match batchReply? thread reply with
          | none => .ok none
          | some row =>
              if row.threadId ∈ rows.map BatchReply.threadId then .ok none
              else batchReplies threads (rows ++ [row])

/-- `_validated_implementation_reply_batch`. -/
def validatedImplementationReplyBatch (threads : List Json) : Except String (List BatchReply) :=
  (batchReplies host prNumber reviewedHeadSha threads []).map fun rows =>
    match rows with
    | none => []
    | some rows =>
        if (rows.map BatchReply.batchNonce).eraseDups.length ≠ 1 then []
        else if 1 < rows.length ∧ (rows.map BatchReply.reviewId).eraseDups.length ≠ 1 then []
        else rows

end Batch

/-- `_reviewer_thread_feedback_body`. -/
def reviewerThreadFeedbackBody (host : ReplyHost) (prNumber : Nat) (headSha threadId feedback : Text) :
    Text :=
  let seed := List.intercalate ":".toList [host.identity, decimal prNumber, threadId, headSha, feedback]
  "[Review] Reviewer validation found this still unresolved: ".toList ++ feedback
    ++ "\n\n<!-- hephaestus-reviewer-validation:".toList ++ replyMarker seed ++ markerClose

section Reconciliation

variable (py : PyText) (host : ReplyHost) (req : ReconcileRequest) (adapter : ReconcileAdapter)

/-! ## What is asked for -/

/-- `str(thread.get("id") or "")`. -/
def threadIdOf (thread : Json) : Text := py.orEmpty (thread.get? "id")

def expectedIds : List Text := req.receipts.map fun receipt => threadIdOf py (.obj receipt)

/-- `candidate_ids`. -/
def reconcileIds : List Text :=
  ((expectedIds py req ++ req.resolvedThreadIds ++ req.feedback.map Prod.fst).eraseDups).mergeSort
    fun a b => !Text.sortsBefore b a

/-- The first check blocks nothing: each thread has one decision, and only they have. -/
def decisionsOk : Bool :=
  !(expectedIds py req).isEmpty
    && !(expectedIds py req).contains []
    && req.resolvedThreadIds.all (fun t => !req.feedback.contains t && (expectedIds py req).contains t)
    && req.feedback.all (fun decision => (expectedIds py req).contains decision.1)
    && (expectedIds py req).all (fun t => req.resolvedThreadIds.contains t || req.feedback.contains t)
    && isFullSha req.reviewedHeadSha
    && !req.skip

/-- The check against `batch_by_id`. -/
def batchMatches (batch : List BatchReply) : Bool :=
  let batchById := Dict.ofPairs
    (batch.map fun row => (threadIdOf py row.thread, (row.replyId, row.replyBody)))
  (batchById.all fun row => (expectedIds py req).contains row.1)
    && req.receipts.all fun receipt =>
      match batchById.get? (threadIdOf py (.obj receipt)) with
      | none => false
      | some (replyId, replyBody) =>
          hasText (Dict.get? receipt "implementation_reply_id") replyId
            && hasText (Dict.get? receipt "implementation_reply_body") replyBody

/-- The reply that a receipt names, where it passes. -/
def receiptReply? (byId : Dict Text Json) (receipt : Json) : Except String (Option (Text × Text)) :=
  (validatedImplementationReply host req.prNumber req.reviewedHeadSha receipt).map fun validated => do
    let replyId ← (receipt.get? "implementation_reply_id").bind Json.asStr?
    let replyBody ← (receipt.get? "implementation_reply_body").bind Json.asStr?
    let headSha ← (receipt.get? "implementation_head_sha").bind Json.asStr?
    let snapshot ← threadCommentSnapshot receipt
    guard (threadIdOf py receipt ≠ [] ∧ byId.contains (threadIdOf py receipt) = false
      ∧ headSha.toList = req.reviewedHeadSha
      ∧ snapshot.getLast? = some (replyId.toList, replyBody.toList)
      ∧ validated = some (replyId.toList, replyBody.toList))
    pure (replyId.toList, replyBody.toList)

/-- `by_id`; `none` where a receipt does not pass. -/
def admitReceipts : List (Dict String Json) → Dict Text Json → Except String (Option (Dict Text Json))
  | [], byId => .ok (some byId)
  | receipt :: receipts, byId =>
      match receiptReply? py host req byId (.obj receipt) with
      | .error e => .error e
      | .ok none => .ok none
      | .ok (some _) => admitReceipts receipts (byId.set (threadIdOf py (.obj receipt)) (.obj receipt))

/-! ## One thread -/

inductive Verdict
  | resolved
  | replied
  | blocked
  deriving DecidableEq

/-- The history after a turn, and how the turn ends. -/
abbrev ReconcileTurn := List ReconcileEvent × Except ReconcileFailure Verdict

/-- The live thread is as the receipt has it. -/
def standsUnchanged (receipt live : Json) : Bool :=
  isUnresolved live && prIsCurrentOpenHead py (live.get? "pr_state") req.reviewedHeadSha
    && sameThreadSnapshot receipt live

/-- The reply of the receipt is still the final one. -/
def stillReplied (receipt live : Json) : Except String Bool :=
  (validatedImplementationReply host req.prNumber req.reviewedHeadSha live).map fun reply =>
    match reply with
    | none => false
    | some (replyId, replyBody) =>
        hasText (receipt.get? "implementation_reply_id") replyId
          && hasText (receipt.get? "implementation_reply_body") replyBody

/-- The reply with this body, and nothing else, was added. -/
def feedbackProven (receipt after : Json) (body : Text) (commentId : Option Json) : Bool :=
  isUnresolved after && prIsCurrentOpenHead py (after.get? "pr_state") req.reviewedHeadSha
    && (hostReplyReceipt receipt after body commentId).isSome

def feedbackTurn (receipt : Json) (t feedback : Text) (history : List ReconcileEvent) : ReconcileTurn :=
  match safeThreadReply (some feedback) with
  | none => (history, .ok .blocked)
  | some detail =>
      let body := reviewerThreadFeedbackBody host req.prNumber req.reviewedHeadSha t detail
      let sent := history ++ [.feedback t body (adapter.feedback history)]
      match adapter.feedback history with
      | .error .outcomeUnknown | .error .response => (sent, .ok .blocked)
      | .error failure => (sent, .error failure)
      | .ok (.obj fields) =>
          let seen := sent ++ [.read t (adapter.read sent t)]
          match adapter.read sent t with
          | .error failure => (seen, .error failure)
          | .ok none => (seen, .ok .blocked)
          | .ok (some after) =>
              (seen, .ok (
                if feedbackProven py req receipt after.json body (Dict.get? fields "id") then .replied
                else .blocked))
      -- what is no dictionary has no `get`
      | .ok _ => (sent, .error .caught)

/-- `resolved_thread`, as far as it proves something. -/
def resolveAccepted (t : Text) (answer : Json) : Bool :=
  ((answer.get? "clientMutationId").getD .null).truthy
    && hasText (answer.get? "id") t && isTrue (answer.get? "isResolved")

/-- `post_resolution`. -/
def resolutionSeen (receipt after : Json) : Bool :=
  isTrue (after.get? "isResolved") && sameThreadSnapshot receipt after
    && prIsCurrentOpenHead py (after.get? "pr_state") req.reviewedHeadSha

/-- A failure in the inner `try` blocks the thread, whatever it is, unless nothing catches it. -/
def blockOn : ReconcileFailure → Except ReconcileFailure Verdict
  | .uncaught => .error .uncaught
  | _ => .ok .blocked

def resolveTurn (receipt : Json) (t : Text) (history : List ReconcileEvent) : ReconcileTurn :=
  let sent := history ++ [.resolve t (adapter.resolve history)]
  match adapter.resolve history with
  | .error failure => (sent, blockOn failure)
  | .ok answer =>
      let seen := sent ++ [.read t (adapter.read sent t)]
      match adapter.read sent t with
      | .error failure => (seen, blockOn failure)
      | .ok none => (seen, .ok .blocked)
      | .ok (some after) =>
          (seen, .ok (
            if resolveAccepted t answer && resolutionSeen py req receipt after.json then .resolved
            else .blocked))

/-- The body of the loop. -/
def reconcileTurn (byId : Dict Text Json) (t : Text) (history : List ReconcileEvent) : ReconcileTurn :=
  match byId.get? t with
  | none => (history, .error .uncaught)
  | some receipt =>
      let seen := history ++ [.read t (adapter.read history t)]
      match adapter.read history t with
      | .error failure => (seen, .error failure)
      | .ok none => (seen, .ok .blocked)
      | .ok (some live) =>
          if standsUnchanged py req receipt live.json = false then (seen, .ok .blocked)
          else
            match stillReplied host req receipt live.json with
            | .error _ => (seen, .error .uncaught)
            | .ok false => (seen, .ok .blocked)
            | .ok true =>
                match req.feedback.get? t with
                | some feedback => feedbackTurn py host req adapter receipt t feedback seen
                | none => resolveTurn py req adapter receipt t seen

/-! ## All threads -/

/-- The three lists, and what was asked. -/
structure ReconcileState where
  history : List ReconcileEvent := []
  resolved : List Text := []
  replied : List Text := []
  blocked : List Text := []

def ReconcileState.note (s : ReconcileState) (t : Text) (history : List ReconcileEvent) :
    Verdict → ReconcileState
  | .resolved => { s with history, resolved := s.resolved ++ [t] }
  | .replied => { s with history, replied := s.replied ++ [t] }
  | .blocked => { s with history, blocked := s.blocked ++ [t] }

/-- The loop; what leaves it is at the end. -/
def reconcileLoop (byId : Dict Text Json) : List Text → ReconcileState →
    ReconcileState × Option ReconcileFailure
  | [], s => (s, none)
  | t :: ids, s =>
      match reconcileTurn py host req adapter byId t s.history with
      | (history, .ok verdict) => reconcileLoop byId ids (s.note t history verdict)
      | (history, .error failure) => ({ s with history }, some failure)

/-- The handler around the loop. -/
def concludeReconciliation (s : ReconcileState) :
    Option ReconcileFailure → Except ReconcileFailure ReconcileResult
  | none => .ok ⟨s.resolved, s.replied, s.blocked⟩
  | some .uncaught => .error .uncaught
  | some _ => .ok ⟨s.resolved, s.replied,
      (reconcileIds py req).filter fun t => !s.resolved.contains t && !s.replied.contains t⟩

/-- `reconcile_reviewer_validated_threads`, with what it asked. -/
def reconcileReviewerValidatedThreads :
    List ReconcileEvent × Except ReconcileFailure ReconcileResult :=
  let blocked : ReconcileResult := { blockedThreadIds := reconcileIds py req }
  if decisionsOk py req = false then ([], .ok blocked)
  else
    match validatedImplementationReplyBatch host req.prNumber req.reviewedHeadSha
        (req.receipts.map Json.obj) with
    | .error _ => ([], .error .uncaught)
    | .ok batch =>
        if batchMatches py req batch = false then ([], .ok blocked)
        else
          match admitReceipts py host req req.receipts [] with
          | .error _ => ([], .error .uncaught)
          | .ok none => ([], .ok blocked)
          | .ok (some byId) =>
              let (s, exit) := reconcileLoop py host req adapter byId (reconcileIds py req) {}
              (s.history, concludeReconciliation py req s exit)

end Reconciliation

end Hephaestus.Automation
