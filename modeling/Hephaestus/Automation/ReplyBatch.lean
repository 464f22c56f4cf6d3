import Hephaestus.Automation.MergeWaitCycle
import Hephaestus.Automation.ThreadReplies

/-!
# Posting a batch of replies

A batch of replies is posted as one review: every target thread is read, a
pending review is created, the replies are added to it one at a time with a read
after each, the review is submitted, and every thread is read once more. Each of
these may fail. A failure before anything was sent is safe to retry, and the
attempt hands the replies it has proved so far to the next one as its progress.

Whoever answers may be anyone, as in a merge wait: an answer is a function of
everything asked before, and a failure is an answer.
-/

namespace Hephaestus.Automation

open Hephaestus.Lib

/-- What the GraphQL adapter raises: the outcome of a mutation is unknown, a
retryable error from before or after the dispatch, or anything else the attempt
catches. -/
inductive GraphFailure
  | outcomeUnknown
  | retryable (preDispatch : Bool)
  | other
  deriving DecidableEq

/-- What `_review_thread_snapshot` returns for a thread: it writes the id it was
asked for. -/
structure LiveThread (threadId : Text) where
  fields : Dict String Json
  id_eq : Dict.get? fields "id" = some (.str (String.ofList threadId))

/-- The dictionary. -/
def LiveThread.json {threadId : Text} (live : LiveThread threadId) : Json :=
  .obj live.fields

/-- `ImplementationReplyProgress`. -/
structure ReplyProgress where
  phase : String
  pullRequestId : Text
  pendingReviewId : Option Text
  repliedThreadIds : List Text
  receipts : List Json
  activeThreadId : Option Text
  activeCommentId : Option Json

/-- `ImplementationThreadReplyResult`. -/
structure ReplyResult where
  repliedThreadIds : List Text := []
  receipts : List Json := []
  blockedThreadIds : List Text := []
  retryableThreadIds : List Text := []
  progress : Option ReplyProgress := none
  retryable : Bool := false
  visibilityLag : Bool := false
  outcomeUnknown : Bool := false

/-- The arguments of one attempt. The candidates are the sorted keys of `replies`,
which the handoff keeps nonempty; a head or a nonce of another form is blocked
before anything is read. -/
structure ReplyRequest where
  prNumber : Nat
  headSha : Text
  full : isFullSha headSha = true
  nonce : BatchNonce
  threads : List Json
  candidateIds : List Text
  sorted : candidateIds.Pairwise fun a b => Text.sortsBefore a b = true
  named : ∀ t ∈ candidateIds, t ≠ []
  reply : Text → Option Text
  recoverPendingReview : Bool

/-- Which read of a thread it is. -/
inductive ReadKind
  | discovery | readback | verification
  deriving DecidableEq

/-- A question or a mutation, with its answer. -/
inductive ReplyEvent
  /-- `_review_thread_snapshot`. -/
  | thread (kind : ReadKind) (threadId : Text)
      (answer : Except GraphFailure (Option (LiveThread threadId)))
  /-- `pull_request_reviews`. -/
  | reviews (answer : Except GraphFailure (List Json))
  /-- `_create_pending_implementation_review`. -/
  | createReview (answer : Except GraphFailure (Option Text))
  /-- `_add_implementation_thread_reply`. -/
  | addReply (threadId body : Text) (answer : Except GraphFailure Json)
  /-- `_submit_implementation_review`. -/
  | submit (reviewId : Text) (answer : Except GraphFailure Bool)

/-- Whoever answers, given what was asked and answered before. -/
structure ReplyAdapter where
  thread : List ReplyEvent → ReadKind → (t : Text) → Except GraphFailure (Option (LiveThread t))
  reviews : List ReplyEvent → Except GraphFailure (List Json)
  createReview : List ReplyEvent → Except GraphFailure (Option Text)
  addReply : List ReplyEvent → Except GraphFailure Json
  submit : List ReplyEvent → Except GraphFailure Bool

/-- The locals of the attempt, and what it asked so far. A set of strings is the
list of its members in the order they came. -/
structure ReplyState where
  history : List ReplyEvent
  blocked : List Text
  prepared : List (Text × Text)
  recovered : Dict Text Json
  replyBodies : Dict Text Text
  pullRequestIds : List Text
  pendingReviewIds : List Text
  commentedReviewIds : List Text
  hasCommentedRecovery : Bool
  pendingReviewId : Option Text
  activeThreadId : Option Text

/-- How the attempt leaves early: it returns, or a failure reaches its handlers. -/
inductive ReplyExit
  | result (r : ReplyResult)
  | failure (f : GraphFailure)

/-- A part of the attempt. -/
abbrev ReplyStep (α : Type) := Command ReplyState ReplyExit α

/-- Put a question and write it down with its answer. -/
def request {α : Type} (answer : List ReplyEvent → Except GraphFailure α)
    (event : Except GraphFailure α → ReplyEvent) : ReplyStep α := do
  let s ← get
  set { s with history := s.history ++ [event (answer s.history)] }
  Command.attempt ((answer s.history).mapError .failure)

/-- The value is `true`. -/
def isTrue : Option Json → Bool
  | some (.bool b) => b
  | _ => false

/-- `_same_thread_snapshot`. -/
def sameThreadSnapshot (receipt live : Json) : Bool :=
  ((receipt.get? "id").bind Json.asStr?).isSome
    && (receipt.get? "id").bind Json.asStr? = (live.get? "id").bind Json.asStr?
    && threadCommentSnapshot receipt = threadCommentSnapshot live

/-- `_same_snapshot_with_reply`. -/
def sameSnapshotWithReply (receipt live : Json) (replyBody replyCommentId : Text) : Bool :=
  match threadCommentSnapshot receipt, threadCommentSnapshot live with
  | some before, some after =>
      after.length = before.length + 1 && after.dropLast = before
        && after.getLast? = some (replyCommentId, replyBody)
        && (receipt.get? "id").bind Json.asStr? = (live.get? "id").bind Json.asStr?
  | _, _ => false

/-- `_host_reply_receipt`. -/
def hostReplyReceipt (receipt live : Json) (replyBody : Text) (expected : Option Json) :
    Option Text :=
  match threadCommentSnapshot live, commentsOf? live with
  | some after, some comments =>
      match after.getLast?, comments.getLast? with
      | some (commentId, _), some final =>
          if isTrue (final.get? "viewer_did_author") = false then none
          else if isNone expected = false
              ∧ expected.bind Json.asStr? ≠ some (String.ofList commentId) then none
          else if sameSnapshotWithReply receipt live replyBody commentId then some commentId
          else none
      | _, _ => none
  | _, _ => none

/-- `_pr_is_current_open_head`. -/
def prIsCurrentOpenHead (py : PyText) (state : Option Json) (headSha : Text) : Bool :=
  isFullSha headSha
    && (match state with
        | some (.obj fields) =>
            py.upper (py.orEmpty ((Json.obj fields).get? "state")) = "OPEN".toList
              && isNone ((Json.obj fields).get? "autoMergeRequest")
              && py.orEmpty ((Json.obj fields).get? "headRefOid") = headSha
        | _ => false)

/-- `isResolved is not False` is the other case. -/
def isUnresolved (live : Json) : Bool :=
  match live.get? "isResolved" with
  | some (.bool b) => !b
  | _ => false

/-- `implementation_review_body`. -/
def implementationReviewBody (pullRequestId headSha batchNonce : Text) : Text :=
  "<!-- hephaestus-implementation-review:pr-node=".toList ++ pullRequestId
    ++ ":head=".toList ++ headSha ++ ":batch=".toList ++ batchNonce ++ " -->".toList

/-- The reviews `recover_pending_implementation_review` matches. -/
def pendingReviewMatches (expectedBody : Text) (review : Json) : Bool :=
  (review.get? "body").bind Json.asStr? = some (String.ofList expectedBody)
    && (review.get? "state").bind Json.asStr? = some "PENDING"
    && isTrue (review.get? "viewerDidAuthor")

/-- `recover_pending_implementation_review`; the error is the `RuntimeError`. -/
def recoverPendingImplementationReview (reviews : List Json)
    (pullRequestId headSha batchNonce : Text) : Except Unit (Option Text) :=
  match reviews.filter (pendingReviewMatches
      (implementationReviewBody pullRequestId headSha batchNonce)) with
  | [] => .ok none
  | [review] =>
      match (review.get? "id").bind Json.asStr? with
      | some reviewId => if reviewId = "" then .error () else .ok (some reviewId.toList)
      | none => .error ()
  | _ => .error ()

/-- `select_pending_implementation_review`; the errors are the exceptions that
its caller catches. -/
def selectPendingImplementationReview (reviews : Option (List Json))
    (saved observed : Option Text) (pullRequestId headSha batchNonce : Text)
    (hasCommentedReply : Bool) : Except Unit (Option Text) :=
  if observed.isSome ∧ saved.isSome ∧ observed ≠ saved then .error ()
  else
    match (match reviews, observed with
      | some reviews, none =>
          recoverPendingImplementationReview reviews pullRequestId headSha batchNonce
      | _, _ => .ok none) with
    | .error e => .error e
    | .ok recovered =>
        if hasCommentedReply = true ∧ observed = none ∧ recovered = none then .ok none
        else .ok (observed <|> recovered <|> saved)

section Attempt

variable (py : PyText) (host : ReplyHost) (req : ReplyRequest) (adapter : ReplyAdapter)
  (progress : Option ReplyProgress)

/-- The source snapshot of a thread. -/
def ReplyRequest.source (threadId : Text) : Json :=
  (req.threads.find? fun thread =>
    (thread.get? "id").bind Json.asStr? = some (String.ofList threadId)).getD .null

/-- The checks on the arguments. -/
def argumentsOk : Bool :=
  !req.candidateIds.isEmpty
    && req.threads.all (fun thread =>
      ((thread.get? "id").bind Json.asStr?).isSome && (threadCommentSnapshot thread).isSome)
    && decide (req.threads.map fun thread => (thread.get? "id").bind Json.asStr?).Nodup
    && req.candidateIds.all (fun t =>
      req.threads.any fun thread => (thread.get? "id").bind Json.asStr? = some (String.ofList t))
    && (match progress with
        | none => true
        | some progress => progress.repliedThreadIds.all fun t => req.candidateIds.contains t)

/-- The result that blocks every candidate. -/
def blockedResult : ReplyResult :=
  { blockedThreadIds := req.candidateIds }

/-- The result that retries every candidate. -/
def retryResult : ReplyResult :=
  { retryableThreadIds := req.candidateIds, retryable := true }

/-- `receipt`. -/
def replyReceipt {threadId : Text} (live : LiveThread threadId) (commentId body : Text) : Json :=
  .obj (((Dict.set live.fields "implementation_reply_id" (.str (String.ofList commentId))).set
    "implementation_reply_body" (.str (String.ofList body))).set
      "implementation_head_sha" (.str (String.ofList req.headSha)))

/-- `sorted(recovered)`: its keys are candidates, which are sorted. -/
def recoveredIds (s : ReplyState) : List Text :=
  req.candidateIds.filter fun t => s.recovered.contains t

/-- The receipts in the order of the ids. -/
def recoveredReceipts (s : ReplyState) : List Json :=
  (recoveredIds req s).filterMap s.recovered.get?

/-- `safe_progress`. -/
def safeProgress (s : ReplyState) (phase : String) : ReplyProgress :=
  { phase := phase
    pullRequestId :=
      match s.pullRequestIds, progress with
      | id :: _, _ => id
      | [], some progress => progress.pullRequestId
      | [], none => []
    pendingReviewId := s.pendingReviewId
    repliedThreadIds := recoveredIds req s
    receipts := recoveredReceipts req s
    activeThreadId := s.activeThreadId
    activeCommentId := s.activeThreadId.bind fun t =>
      (s.recovered.get? t).bind fun r => r.get? "implementation_reply_id" }

/-- The candidates that are not proved yet. -/
def remainingIds (s : ReplyState) : List Text :=
  req.candidateIds.filter fun t => !s.recovered.contains t

/-- The phase of the progress after a failure that came before a dispatch. -/
def retryPhase (s : ReplyState) : String :=
  if s.pendingReviewId = none then "create_review"
  else if (remainingIds req s).isEmpty then "submit_review"
  else if s.activeThreadId.isSome then "verify_reply"
  else "post_replies"

/-- The handlers of the attempt. -/
def concludeReplies (exit : ReplyExit) (s : ReplyState) : ReplyResult :=
  match exit with
  | .result r => r
  | .failure .outcomeUnknown => { blockedResult req with outcomeUnknown := true }
  | .failure (.retryable true) =>
      { repliedThreadIds := recoveredIds req s
        receipts := recoveredReceipts req s
        retryableThreadIds := remainingIds req s
        progress :=
          if s.pullRequestIds ≠ [] ∨ s.pendingReviewId.isSome = true ∨ progress.isSome = true then
            some (safeProgress req progress s (retryPhase req s))
          else none
        retryable := true }
  | .failure _ => blockedResult req

/-- Note that a thread is blocked. -/
def blockThread (t : Text) : ReplyStep Unit :=
  modify fun s => { s with blocked := s.blocked ++ [t] }

/-- `set.add`. -/
def setAdd (l : List Text) (t : Text) : List Text :=
  if t ∈ l then l else l ++ [t]

/-- What a recovered reply says about the review it belongs to. -/
def noteReview (t : Text) (final : Json) (s : ReplyState) : ReplyState :=
  match (final.get? "review_id").bind Json.asStr? with
  | none => { s with blocked := s.blocked ++ [t] }
  | some reviewId =>
      if reviewId = "" then { s with blocked := s.blocked ++ [t] }
      else if (final.get? "review_state").bind Json.asStr? = some "PENDING" then
        { s with pendingReviewIds := setAdd s.pendingReviewIds reviewId.toList }
      else if (final.get? "review_state").bind Json.asStr? = some "COMMENTED" then
        { s with
          hasCommentedRecovery := true
          commentedReviewIds := setAdd s.commentedReviewIds reviewId.toList }
      else { s with blocked := s.blocked ++ [t] }

/-- What the discovery keeps of a thread that it read at the current head. -/
def noteDiscovery (t pullRequestId body : Text) (live : LiveThread t) (s : ReplyState) :
    ReplyState :=
  let noted := { s with
    pullRequestIds := setAdd s.pullRequestIds pullRequestId
    replyBodies := s.replyBodies.set t body }
  match hostReplyReceipt (req.source t) live.json body none with
  | some commentId =>
      noteReview t (((commentsOf? live.json).bind List.getLast?).getD .null)
        { noted with recovered := noted.recovered.set t (replyReceipt req live commentId body) }
  | none =>
      if sameThreadSnapshot (req.source t) live.json then
        { noted with prepared := noted.prepared ++ [(t, body)] }
      else { noted with blocked := noted.blocked ++ [t] }

/-- `pr_node_id`, when it is a string that is not empty. -/
def prNodeId (live : Json) : Option Text :=
  match (live.get? "pr_node_id").bind Json.asStr? with
  | some id => if id = "" then none else some id.toList
  | none => none

/-- One turn of the discovery. -/
def discoverThread (t : Text) : ReplyStep Unit := do
  match postedReplyBody host req.prNumber req.headSha t (req.reply t) req.nonce.text with
  | .error _ => throw (.failure .other)
  | .ok none => blockThread t
  | .ok (some body) =>
      match ← request (fun h => adapter.thread h .discovery t) (.thread .discovery t) with
      | none => blockThread t
      | some live =>
          if isUnresolved live.json = false then blockThread t
          else if prIsCurrentOpenHead py (live.json.get? "pr_state") req.headSha = false then
            throw (.result { retryResult req with visibilityLag := true })
          else
            match prNodeId live.json with
            | none => blockThread t
            | some pullRequestId => modify (noteDiscovery req t pullRequestId body live)

/-- What the discovery must have settled. -/
def discoverySettled (s : ReplyState) : Except ReplyExit Text :=
  if s.blocked ≠ [] then .error (.result { blockedThreadIds := s.blocked.mergeSort fun a b => !Text.sortsBefore b a })
  else
    match s.pullRequestIds with
    | [pullRequestId] =>
        if s.pendingReviewIds.length > 1 then .error (.result (retryResult req))
        else .ok pullRequestId
    | _ => .error (.result (retryResult req))

/-- The reviews of the pull request, asked for only when a pending one is to be
recovered; a failure blocks the batch. -/
def readReviews (s : ReplyState) : ReplyStep (Option (List Json)) :=
  if req.recoverPendingReview = true ∧ s.pendingReviewIds = [] then do
    let s ← get
    set { s with history := s.history ++ [ReplyEvent.reviews (adapter.reviews s.history)] }
    Command.attempt (((adapter.reviews s.history).map some).mapError fun _ =>
      .result (blockedResult req))
  else pure none

/-- Select the pending review, or none. -/
def selectReview (pullRequestId : Text) : ReplyStep Unit := do
  let s ← get
  let reviews ← readReviews req adapter s
  let selected ← Command.attempt
    ((selectPendingImplementationReview reviews s.pendingReviewId s.pendingReviewIds.head?
      pullRequestId req.headSha req.nonce.text s.hasCommentedRecovery).mapError fun _ =>
        ReplyExit.result (blockedResult req))
  modify fun s => { s with pendingReviewId := selected }

/-- What a batch with submitted replies must satisfy; it may be complete already. -/
def recoverySettled (s : ReplyState) : Except ReplyExit Unit :=
  if s.hasCommentedRecovery = true ∧ 1 < req.candidateIds.length
      ∧ s.commentedReviewIds.length ≠ 1 ∧ req.recoverPendingReview = false then
    .error (.result (blockedResult req))
  else if s.hasCommentedRecovery = true ∧ s.prepared = [] ∧ s.pendingReviewId = none then
    .error (.result
      { repliedThreadIds := req.candidateIds
        receipts := req.candidateIds.filterMap s.recovered.get? })
  else .ok ()

/-- The pending review to post into, created when there is none. -/
def createReview : ReplyStep Text := do
  let s ← get
  match s.pendingReviewId with
  | some reviewId => pure reviewId
  | none =>
      match ← request adapter.createReview .createReview with
      | none => throw (.result (blockedResult req))
      | some reviewId => do
          modify fun s => { s with pendingReviewId := some reviewId }
          pure reviewId

/-- A thread that was read back after a mutation must be open at the head. -/
def readbackOk (live : Json) : Bool :=
  isUnresolved live && prIsCurrentOpenHead py (live.get? "pr_state") req.headSha

/-- Post one prepared reply and prove it. -/
def postReply (item : Text × Text) : ReplyStep Unit := do
  modify fun s => { s with activeThreadId := some item.1 }
  let receipt ← request adapter.addReply (.addReply item.1 item.2)
  match ← request (fun h => adapter.thread h .readback item.1) (.thread .readback item.1) with
  | none => throw (.result (blockedResult req))
  | some live =>
      if readbackOk py req live.json = false then throw (.result (blockedResult req))
      else
        match hostReplyReceipt (req.source item.1) live.json item.2 (receipt.get? "id") with
        | none => throw (.result (blockedResult req))
        | some commentId =>
            modify fun s => { s with
              recovered := s.recovered.set item.1 (replyReceipt req live commentId item.2)
              activeThreadId := none }

/-- Submit the review. -/
def submitReview (reviewId : Text) : ReplyStep Unit := do
  match ← request adapter.submit (.submit reviewId) with
  | true => pure ()
  | false => throw (.result (blockedResult req))

/-- Read one thread again after the submission. -/
def verifyReply (t : Text) : ReplyStep Unit := do
  match ← request (fun h => adapter.thread h .verification t) (.thread .verification t) with
  | none => throw (.result (blockedResult req))
  | some live =>
      if readbackOk py req live.json = false then throw (.result (blockedResult req))
      else
        match validatedImplementationReply host req.prNumber req.headSha live.json with
        | .ok (some (commentId, replyBody)) => do
            let s ← get
            if s.replyBodies.get? t ≠ some replyBody then throw (.result (blockedResult req))
            else
              set { s with
                recovered := s.recovered.set t (replyReceipt req live commentId replyBody) }
        | _ => throw (.result (blockedResult req))

/-- `_post_implementation_thread_replies_locked`, between its handlers. -/
def postReplies : ReplyStep ReplyResult := do
  Command.attempt (raiseIf (argumentsOk req progress = false) (.result (blockedResult req)))
  req.candidateIds.forM (discoverThread py host req adapter)
  let discovered ← get
  let pullRequestId ← Command.attempt (discoverySettled req discovered)
  selectReview req adapter pullRequestId
  let selected ← get
  Command.attempt (recoverySettled req selected)
  let reviewId ← createReview req adapter
  selected.prepared.forM (postReply py req adapter)
  submitReview req adapter reviewId
  req.candidateIds.forM (verifyReply py host req adapter)
  let s ← get
  pure { repliedThreadIds := req.candidateIds
         receipts := req.candidateIds.filterMap s.recovered.get? }

/-- The locals at the start. -/
def initialReplyState : ReplyState :=
  { history := [], blocked := [], prepared := [], recovered := [], replyBodies := []
    pullRequestIds := [], pendingReviewIds := [], commentedReviewIds := []
    hasCommentedRecovery := false
    pendingReviewId := progress.bind ReplyProgress.pendingReviewId
    activeThreadId := progress.bind ReplyProgress.activeThreadId }

/-- The attempt: its result and what it asked. -/
def postImplementationThreadReplies : ReplyResult × List ReplyEvent :=
  match (postReplies py host req adapter progress).exec (initialReplyState progress) with
  | (.ok result, s) => (result, s.history)
  | (.error exit, s) => (concludeReplies req progress exit s, s.history)

end Attempt

/-! ## The consumer -/

/-- `str(receipt.get("id") or receipt.get("thread_id") or "")`. -/
def receiptKey (py : PyText) (receipt : Json) : Text :=
  if ((receipt.get? "id").getD .null).truthy then py.orEmpty (receipt.get? "id")
  else py.orEmpty (receipt.get? "thread_id")

/-- The receipt of a key in `{key(receipt): receipt for receipt in receipts}`. -/
def receiptOf (py : PyText) (receipts : List Json) (key : Text) : Option Json :=
  receipts.reverse.find? fun receipt => receiptKey py receipt = key

/-- `identity_fields`. -/
def identityFields : List String :=
  ["implementation_reply_id", "implementation_reply_body", "implementation_head_sha"]

/-- Two receipts agree on who they are. -/
def sameIdentity (current previous : Json) : Bool :=
  identityFields.all fun field =>
    Json.eq ((current.get? field).getD .null) ((previous.get? field).getD .null)

/-- The receipt of the record is there with its identity. -/
def keepsReceipt (current previous : Option Json) : Bool :=
  match current, previous with
  | some (.obj fields), some receipt => sameIdentity (.obj fields) receipt
  | _, _ => false

/-- `_progress_is_monotonic`. -/
def progressIsMonotonic (py : PyText) (previous current : Option ReplyProgress) : Bool :=
  match current with
  | none => false
  | some current =>
      let keys := current.receipts.map (receiptKey py)
      decide current.repliedThreadIds.Nodup
        && current.receipts.length = current.repliedThreadIds.length
        && keys.all (fun key => current.repliedThreadIds.contains key)
        && current.repliedThreadIds.all (fun id => keys.contains id)
        && !keys.contains []
        && (match previous with
            | none => true
            | some previous =>
                previous.repliedThreadIds.all (fun id => current.repliedThreadIds.contains id)
                  && (previous.receipts.map (receiptKey py)).all fun key =>
                    keepsReceipt (receiptOf py current.receipts key)
                      (receiptOf py previous.receipts key))

end Hephaestus.Automation
