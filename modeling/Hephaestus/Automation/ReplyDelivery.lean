import Hephaestus.Automation.ReplyRecovery

/-!
# Delivering a journaled batch

`retry_pending_implementation_reply_handoff` and `attempt_reply_handoff` of
`hephaestus/automation/pipeline/reply_handoff.py`, with what they call there and
the receipts of `github_jobs.py`. A handoff waits in the payload of its item,
and each attempt delivers it through the adapter, drops it, or leaves it, or a
part of it, for the next attempt.

The pending handoff is whatever the payload holds. How a review input is read
from its canonical bytes, and the compressed form of these in a journal, are
parameters: nothing here looks at what they accept.
-/

namespace Hephaestus.Automation.Delivery

open Hephaestus.Lib

/-! ## Progress in a handoff -/

/-- A text, or `None`. -/
def optionalText : Option Text → Json
  | some text => .str (String.ofList text)
  | none => .null

/-- `ImplementationReplyProgress.as_dict`. -/
def progressJson (progress : ReplyProgress) : Json :=
  .obj [("phase", .str progress.phase), ("pull_request_id", .str (String.ofList progress.pullRequestId)),
    ("pending_review_id", optionalText progress.pendingReviewId),
    ("replied_thread_ids", .arr (progress.repliedThreadIds.map fun id => .str (String.ofList id))),
    ("receipts", .arr progress.receipts), ("active_thread_id", optionalText progress.activeThreadId),
    ("active_comment_id", progress.activeCommentId.getD .null)]

/-- `value is None or isinstance(value, str)`. -/
def isOptionalText (value : Json) : Bool := value.isNull || value.asStr?.isSome

/-- `ImplementationReplyProgress.from_dict`. -/
def progressFromDict (value : Json) : Option ReplyProgress := do
  let _ ← value.asObj?
  let phase ← (value.field "phase").asStr?
  let pullRequestId ← (value.field "pull_request_id").asStr?
  let ids ← (value.getD "replied_thread_ids" (.arr [])).asArr?
  let receipts ← (value.getD "receipts" (.arr [])).asArr?
  let ids ← ids.mapM fun id => filledText? id
  guard (["create_review", "post_replies", "verify_reply", "submit_review",
      "verify_submission"].contains phase
    && pullRequestId ≠ ""
    && receipts.all (·.asObj?.isSome)
    && isOptionalText (value.field "pending_review_id")
    && isOptionalText (value.field "active_thread_id")
    && isOptionalText (value.field "active_comment_id"))
  return {
    phase := phase
    pullRequestId := pullRequestId.toList
    pendingReviewId := (value.field "pending_review_id").asStr?.map String.toList
    repliedThreadIds := ids
    receipts := receipts
    activeThreadId := (value.field "active_thread_id").asStr?.map String.toList
    activeCommentId := (value.field "active_comment_id").asStr?.map .str }

/-- `a == b` of two progresses. -/
def sameProgress (a b : ReplyProgress) : Bool :=
  a.phase = b.phase && a.pullRequestId = b.pullRequestId && a.pendingReviewId = b.pendingReviewId
    && a.repliedThreadIds = b.repliedThreadIds && Json.eqItems a.receipts b.receipts
    && a.activeThreadId = b.activeThreadId
    && (a.activeCommentId.getD .null).eq (b.activeCommentId.getD .null)

/-! ## The handoff -/

/-- The same members, as sets. -/
def sameSet {α : Type} [DecidableEq α] (l m : List α) : Bool :=
  l.all m.contains && m.all l.contains

/-- The id of a thread as `parse_addressed_replies` takes it. -/
def repliedThreadId (py : PyText) (thread : Json) : Text :=
  Text.strip (py.orEmpty (some (orField thread "thread_id" "id")))

/-- `str(snapshot.get("id") or "")`. -/
def snapshotId (py : PyText) (snapshot : Json) : Text := py.orEmpty (snapshot.get? "id")

/-- `parse_addressed_replies`. -/
def parseAddressedReplies (py : PyText) (addressResult : Json) (threads : List Json) :
    Option (Dict Text Text) := do
  let addressed ← (addressResult.field "addressed").asArr?
  let replies ← (addressResult.field "replies").asObj?
  let knownIds := threads.map (repliedThreadId py)
  let claimed ← addressed.mapM fun id => id.asStr?.map fun text => Text.strip text.toList
  guard (threads.all (·.asObj?.isSome)
    && knownIds.all (· ≠ []) && decide knownIds.Nodup
    && claimed.all (· ≠ []) && decide claimed.Nodup
    && sameSet claimed knownIds
    && sameSet (replies.map fun item => item.1.toList) knownIds)
  knownIds.mapM fun id => do
    let reply ← parseAddressedReply
      ((Dict.get? replies (String.ofList id)).bind fun reply => reply.asStr?.map String.toList)
    return (id, reply.text)

/-- The handoff of a batch. -/
structure ReplyHandoff where
  headSha : Text
  threads : List Json
  replies : Dict Text Text
  batchNonce : Text
  reconciliationOnly : Bool
  progress : Option ReplyProgress

/-- A mapping of texts as a dictionary. -/
def textsJson (texts : Dict Text Text) : Dict String Json :=
  texts.map fun item => (String.ofList item.1, .str (String.ofList item.2))

/-- The dictionary of a handoff. -/
def ReplyHandoff.fields (h : ReplyHandoff) : Dict String Json :=
  [("head_sha", .str (String.ofList h.headSha)), ("threads", .arr h.threads),
    ("replies", .obj (textsJson h.replies)), ("batch_nonce", .str (String.ofList h.batchNonce)),
    ("reconciliation_only", .bool h.reconciliationOnly)]
  ++ match h.progress with
    | some progress => [("progress", progressJson progress)]
    | none => []

/-- `implementation_reply_handoff`. -/
def implementationReplyHandoff (py : PyText) (headSha threads replies batchNonce : Json)
    (progress : Option ReplyProgress) (reconciliationOnly : Bool) : Option ReplyHandoff := do
  let headSha ← headSha.asStr?
  let threads ← threads.asArr?
  let fields ← replies.asObj?
  let batchNonce ← batchNonce.asStr?
  guard (isFullSha headSha.toList && Text.isHexOfLength 32 batchNonce.toList
    && threads.all (·.asObj?.isSome))
  let normalized ← parseAddressedReplies py
    (.obj [("addressed", .arr (fields.map fun item => .str item.1)), ("replies", replies)]) threads
  let ids := threads.map (snapshotId py)
  guard (ids.all (· ≠ []) && decide ids.Nodup && sameSet ids (normalized.map Prod.fst))
  return {
    headSha := headSha.toList
    threads := threads
    replies := normalized
    batchNonce := batchNonce.toList
    reconciliationOnly := reconciliationOnly
    progress := progress }

/-! ## The remediation handoff -/

/-- `RemediationReviewInput.from_canonical_bytes`, `encode_remediation_review_input`
and `decode_remediation_review_input`; nothing for their `ValueError`. -/
structure ReviewInputCodec where
  read : Text → Option RemediationReviewInput
  encode : Text → Option (Text × Text)
  decode : Json → Json → Option Text

/-- `sha256(text.encode("utf-8")).hexdigest()`. -/
def sha256Text (text : Text) : Text := Sha256.hexdigest (Sha256.encodeUtf8 text)

/-- `RemediationReplyResult.as_dict`. -/
def replyResultJson (result : RemediationReplyResult) : Json :=
  .obj [("review_input_sha256", .str (String.ofList result.reviewInputSha256)),
    ("replies", .obj (textsJson result.replies))]

/-- `RemediationReplyResult.digest`. -/
def replyResultDigest (floats : JsonText.FloatText) (result : RemediationReplyResult) : Text :=
  sha256Text (JsonText.canonicalJson floats (replyResultJson result))

def remediationReplyResultMaxBytes : Nat := 256 * 1024

/-- `RemediationReplyResult.from_dict`; nothing for its `ValueError`. -/
def replyResultFromDict (floats : JsonText.FloatText) (value : Json) :
    Option RemediationReplyResult := do
  let fields ← value.asObj?
  guard (sameSet (fields.map Prod.fst) ["review_input_sha256", "replies"])
  let digest ← (value.field "review_input_sha256").asStr?
  let replies ← (value.field "replies").asObj?
  let texts ← replies.mapM fun item =>
    item.2.asStr?.map fun reply => (item.1.toList, reply.toList)
  let sorted := texts.insertionSort fun a b => Text.sortsBefore b.1 a.1 = false
  guard (Text.isHexOfLength 64 digest.toList && !sorted.isEmpty
    && sorted.all fun item => item.1 ≠ [] && remediationReplyAccepted item.2)
  if h : (sorted.map Prod.fst).Nodup then
    let result := { reviewInputSha256 := digest.toList, replies := sorted, distinct := h }
    guard ((Sha256.encodeUtf8 (JsonText.canonicalJson floats (replyResultJson result))).length
      ≤ remediationReplyResultMaxBytes)
    return result
  else none

/-- What `implementation_remediation_reply_handoff` returns: the handoff of the
batch, and the fields that bind it to its review input. -/
structure RemediationHandoff where
  base : ReplyHandoff
  binding : Dict String Json

/-- The dictionary. -/
def RemediationHandoff.json (h : RemediationHandoff) : Json := .obj (h.base.fields ++ h.binding)

/-- The place of an entry in the chain of its journal. -/
def sequenceOk (sequence predecessor : Json) : Bool :=
  match sequence with
  | .int n =>
      if n < 0 then false
      else if n = 0 then predecessor.isNull
      else predecessor.asStr?.any fun text => Text.isHexOfLength 64 text.toList
  | _ => false

/-- The encoding and the data a journal keeps: those given, or new ones. -/
def ReviewInputCodec.stored (codec : ReviewInputCodec) (input : RemediationReviewInput)
    (encoding data : Json) : Option (Json × Json) :=
  if encoding.isNull && data.isNull then
    (codec.encode input.canonicalText).map fun encoded =>
      (.str (String.ofList encoded.1), .str (String.ofList encoded.2))
  else some (encoding, data)

section Remediation

variable (py : PyText) (floats : JsonText.FloatText) (codec : ReviewInputCodec)

/-- `implementation_remediation_reply_handoff`. -/
def implementationRemediationReplyHandoff (input : RemediationReviewInput)
    (result : RemediationReplyResult) (batchNonce : Json) (progress : Option ReplyProgress)
    (encoding data sequence predecessor : Json) : Option RemediationHandoff := do
  guard (result.reviewInputSha256 = sha256Text input.canonicalText
    && batchNonce.asStr?.any (fun nonce => Text.isHexOfLength 32 nonce.toList)
    && sequenceOk sequence predecessor)
  let threads ← JsonText.loads floats JsonText.keepLast input.threadSnapshotJson
  let stored ← codec.stored input encoding data
  let decoded ← codec.decode stored.1 stored.2
  guard (decoded = input.canonicalText && threads.asArr?.isSome)
  let base ← implementationReplyHandoff py (.str (String.ofList input.recoveryCommitSha)) threads
    (.obj (textsJson result.replies)) batchNonce progress false
  return {
    base := base
    binding := [("format", .int 3), ("kind", .str "remediation-recovery"),
      ("repository", .str (String.ofList input.repository)), ("issue_number", .int input.issueNumber),
      ("pr_number", .int input.prNumber), ("branch", .str (String.ofList input.branch)),
      ("review_input_bytes", .str (String.ofList input.canonicalText)),
      ("review_input_sha256", .str (String.ofList (sha256Text input.canonicalText))),
      ("review_input_encoding", stored.1), ("review_input_data", stored.2),
      ("reply_result", replyResultJson result),
      ("reply_result_sha256", .str (String.ofList (replyResultDigest floats result))),
      ("journal_sequence", sequence), ("journal_predecessor_sha256", predecessor)] }

/-- The progress of a handoff: none where it has none, nothing where it is invalid. -/
def progressOf (handoff : Json) : Option (Option ReplyProgress) :=
  match handoff.get? "progress" with
  | none => some none
  | some value => (progressFromDict value).map some

/-- The handoff that a dictionary of format 3 is to be. -/
def rebuild (handoff : Json) (progress : Option ReplyProgress) :
    Option (RemediationReviewInput × RemediationReplyResult × RemediationHandoff) := do
  let text ← (handoff.field "review_input_bytes").asStr?
  let input ← codec.read text.toList
  let result ← replyResultFromDict floats (handoff.field "reply_result")
  let rebuilt ← implementationRemediationReplyHandoff py floats codec input result
    (handoff.field "batch_nonce") progress (handoff.field "review_input_encoding")
    (handoff.field "review_input_data") (handoff.field "journal_sequence")
    (handoff.field "journal_predecessor_sha256")
  return (input, result, rebuilt)

/-- Two dictionaries agree on a list of keys. -/
def agreeOn (keys : List String) (a b : Json) : Bool :=
  keys.all fun key => (a.field key).eq (b.field key)

def remediationJournalCommentMaxBytes : Nat := 60 * 1024

/-- The text of a journal entry of format 3. -/
def remediationEntryBody (input : RemediationReviewInput) (result : RemediationReplyResult)
    (handoff : Json) (progress : Option ReplyProgress) : Text :=
  let text (key : String) : Text := ((handoff.field key).asStr?.getD "").toList
  let sequence : Text := py.text (handoff.field "journal_sequence")
  let marker := "<!-- hephaestus-implementation-remediation-reply-handoff:pr=".toList
    ++ decimal input.prNumber ++ ":head=".toList ++ input.recoveryCommitSha
    ++ ":batch=".toList ++ text "batch_nonce" ++ ":seq=".toList ++ sequence ++ " -->".toList
  let payload : Dict String Json :=
    [("format", .int 3), ("kind", .str "remediation-recovery"), ("armed", .bool true),
      ("repository", .str (String.ofList input.repository)), ("issue_number", .int input.issueNumber),
      ("pr_number", .int input.prNumber),
      ("head_sha", .str (String.ofList input.recoveryCommitSha)),
      ("branch", .str (String.ofList input.branch)), ("batch_nonce", handoff.field "batch_nonce"),
      ("review_input_encoding", handoff.field "review_input_encoding"),
      ("review_input_data", handoff.field "review_input_data"),
      ("review_input_sha256", .str (String.ofList (sha256Text input.canonicalText))),
      ("reply_result", replyResultJson result),
      ("reply_result_sha256", .str (String.ofList (replyResultDigest floats result))),
      ("journal_sequence", handoff.field "journal_sequence"),
      ("journal_predecessor_sha256", handoff.field "journal_predecessor_sha256")]
    ++ match progress with
      | some progress => [("progress", progressJson progress)]
      | none => []
  marker ++ "\n<!-- ".toList ++ JsonText.dumps floats (.obj payload) ++ " -->".toList

/-- `implementation_remediation_reply_handoff_journal_entry`, the body. -/
def remediationJournalEntry (prNumber handoff : Json) : Option Text := do
  let n ← prNumber.asInt?
  guard (0 < n && (handoff.field "format").eq (.int 3)
    && isText (handoff.field "kind") "remediation-recovery".toList
    && (handoff.field "pr_number").eq prNumber)
  let progress ← progressOf handoff
  let (input, result, normalized) ← rebuild py floats codec handoff progress
  guard (agreeOn ["repository", "issue_number", "pr_number", "branch", "head_sha", "batch_nonce",
    "review_input_sha256", "review_input_encoding", "review_input_data", "reply_result_sha256",
    "journal_sequence", "journal_predecessor_sha256"] normalized.json handoff)
  let body := remediationEntryBody py floats input result normalized.json progress
  guard ((Sha256.encodeUtf8 body).length ≤ remediationJournalCommentMaxBytes)
  return body

end Remediation

/-! ## The payload -/

def implementationReplyHandoffVisibilityRetryCap : Int := 2

/-- The keys of a payload that an attempt reads or writes. -/
structure HandoffPayload where
  handoff : Option Json
  retries : Option Json
  visibilityRetries : Option Json
  retryDelay : Option ℚ

/-- The three `payload.pop` of a handoff that is done with. -/
def HandoffPayload.drop (payload : HandoffPayload) : HandoffPayload :=
  { payload with handoff := none, retries := none, visibilityRetries := none }

/-- `_take_visibility_retry`; nothing where it returns `False`. -/
def takeVisibilityRetry (payload : HandoffPayload) : Option HandoffPayload :=
  match payload.visibilityRetries.getD (.int 0) with
  | .int n =>
      if n < 0 ∨ implementationReplyHandoffVisibilityRetryCap ≤ n then none
      else some { payload with
        visibilityRetries := some (.int (n + 1)), retryDelay := some (2 ^ n.toNat) }
  | _ => none

/-- What an attempt returns. -/
inductive HandoffStatus
  | none | completed | visibilityWait | stale | invalid | blocked | retry
  deriving DecidableEq

/-! ## The state of the pull request -/

/-- `pr_is_current_open_head`. -/
def prIsCurrentOpenHead (state : Json) (expectedHeadSha : Text) : Bool :=
  isFullSha expectedHeadSha && state.asObj?.isSome
    && isText (state.field "state") "OPEN".toList
    && (state.field "autoMergeRequest").isNull
    && isText (state.field "headRefOid") expectedHeadSha

/-- `_has_complete_pr_state`. -/
def hasCompletePrState (state : Json) : Bool :=
  state.asObj?.isSome && (state.field "state").asStr?.isSome
    && (state.get? "autoMergeRequest").isSome
    && (state.field "headRefOid").asStr?.any fun head => isFullSha head.toList

/-- The values of `_classify_handoff_pr_state`. -/
inductive PrStateOutcome
  | current | visibilityWait | stale | retry
  deriving DecidableEq

/-- `_classify_handoff_pr_state`. -/
def classifyHandoffPrState (state : Json) (headSha : Text) (payload : HandoffPayload) :
    PrStateOutcome × HandoffPayload :=
  if hasCompletePrState state = false then (.retry, payload)
  else if prIsCurrentOpenHead state headSha then (.current, payload)
  else if isText (state.field "state") "OPEN".toList && (state.field "autoMergeRequest").isNull then
    match takeVisibilityRetry payload with
    | some payload => (.visibilityWait, payload)
    | none => (.stale, payload)
  else (.stale, payload)

/-! ## The result of a post -/

section Delivery

variable (py : PyText) (floats : JsonText.FloatText) (codec : ReviewInputCodec)

/-- `deepcopy(handoff)` with `reconciliation_only` off. -/
def rearmed (handoff : Json) : Json :=
  .obj ((handoff.asObj?.getD []).set "reconciliation_only" (.bool false))

/-- `_remediation_successor_handoff`. -/
def remediationSuccessorHandoff (handoff : Json) (progress : ReplyProgress) : Option Json := do
  guard ((handoff.field "format").eq (.int 3))
  let currentEntry := remediationJournalEntry py floats codec (handoff.field "pr_number") handoff
  let text ← (handoff.field "review_input_bytes").asStr?
  let input ← codec.read text.toList
  let result ← replyResultFromDict floats (handoff.field "reply_result")
  let sequence ← handoff.get? "journal_sequence"
  let previous := (handoff.get? "progress").bind progressFromDict
  if previous.any (sameProgress · progress) then return rearmed handoff
  else
    let entry ← currentEntry
    let n ← sequence.asInt?
    guard (progressIsMonotonic py previous (some progress))
    let successor ← implementationRemediationReplyHandoff py floats codec input result
      (handoff.field "batch_nonce") (some progress) (handoff.field "review_input_encoding")
      (handoff.field "review_input_data") (.int (n + 1))
      (.str (String.ofList (sha256Text entry)))
    return .obj ((successor.base.fields ++ successor.binding).set "reconciliation_only"
      (.bool false))

/-- The threads a result leaves to retry. -/
def retryableIds (result : ReplyResult) (remaining : List Text) : List Text :=
  if result.retryableThreadIds ≠ [] ∧ result.retryableThreadIds.all remaining.contains then
    result.retryableThreadIds
  else if result.retryable = true ∧ result.retryableThreadIds = [] then remaining
  else []

/-- `source_handoff.get("format") == 3`. -/
def isRemediation (handoff : Json) : Bool :=
  handoff.asObj?.isSome && (handoff.field "format").eq (.int 3)

/-- The handoff of the threads that are left. -/
def remainingHandoff (h : ReplyHandoff) (ids : List Text) : Option ReplyHandoff :=
  implementationReplyHandoff py (.str (String.ofList h.headSha))
    (.arr (h.threads.filter fun snapshot => ids.contains (snapshotId py snapshot)))
    (.obj (textsJson (h.replies.filter fun item => ids.contains item.1)))
    (.str (String.ofList h.batchNonce)) none false

/-- `_consume_reply_post_result`. -/
def consumeReplyPostResult (payload : HandoffPayload) (result : ReplyResult) (h : ReplyHandoff)
    (source : Json) : HandoffStatus × HandoffPayload :=
  let expected := h.replies.map Prod.fst
  let replied := result.repliedThreadIds.dedup
  if result.outcomeUnknown then (.blocked, payload.drop)
  else if sameSet replied expected ∧ result.receipts.length = replied.length then
    (.completed, payload.drop)
  else if result.visibilityLag then
    if replied ≠ [] ∨ result.receipts ≠ [] then (.invalid, payload)
    else
      match takeVisibilityRetry payload with
      | some payload => (.visibilityWait, payload)
      | none => (.stale, payload.drop)
  else
    match result.retryable, result.progress with
    | true, some progress =>
        match (if isRemediation source then remediationSuccessorHandoff py floats codec source progress
            else (implementationReplyHandoff py (.str (String.ofList h.headSha)) (.arr h.threads)
              (.obj (textsJson h.replies)) (.str (String.ofList h.batchNonce)) (some progress)
              false).map fun replacement => .obj replacement.fields) with
        | none => (.invalid, { payload with handoff := none })
        | some replacement =>
            (.retry, { payload with handoff := some replacement, retries := none })
    | _, _ =>
        let ids := retryableIds result (expected.filter fun id => !replied.contains id)
        if ids = [] then (.stale, payload.drop)
        else if replied.all expected.contains = false
            ∨ result.receipts.length ≠ replied.length then (.invalid, payload)
        else if isRemediation source then
          if replied ≠ [] then (.invalid, payload)
          else (.retry, { payload with handoff := some (rearmed source) })
        else
          match remainingHandoff py h ids with
          | none => (.invalid, payload)
          | some replacement =>
              (.retry, { payload with handoff := some (.obj replacement.fields) })

/-! ## One attempt -/

/-- An exception of the adapter: its class, and whether `pre_dispatch` is `True`. -/
structure HostException where
  name : String
  moduleName : String
  preDispatch : Bool

/-- The typed error from before the dispatch. -/
def HostException.preDispatchRetry (e : HostException) : Bool :=
  e.name = "GraphQLRetryableError" && e.moduleName = "hephaestus.automation.github_api.graphql"
    && e.preDispatch

/-- The arguments of a delivery. -/
structure DeliveryArguments where
  prNumber : Nat
  handoff : ReplyHandoff
  progress : Option ReplyProgress := none
  recoverPendingReview : Bool := false

/-- What GitHub answers in one attempt. -/
structure HandoffAdapter where
  ghPrState : Nat → Except HostException Json
  reconcileImplementationThreadReplies : DeliveryArguments → Except HostException ReplyResult
  postImplementationThreadReplies : DeliveryArguments → Except HostException ReplyResult

/-- A call of the adapter, with its answer. -/
inductive HandoffCall
  | prState (answer : Except HostException Json)
  | reconcile (arguments : DeliveryArguments) (answer : Except HostException ReplyResult)
  | post (arguments : DeliveryArguments) (answer : Except HostException ReplyResult)

/-- An attempt: what it returns, the payload it leaves and the calls it made. -/
structure Attempted where
  status : HandoffStatus
  payload : HandoffPayload
  calls : List HandoffCall := []

/-- The keys in which a handoff of format 3 is its own reconstruction. -/
def exactKeys : List String :=
  ["format", "kind", "repository", "issue_number", "pr_number", "branch", "head_sha", "threads",
    "replies", "batch_nonce", "review_input_bytes", "review_input_sha256", "review_input_encoding",
    "review_input_data", "reply_result", "reply_result_sha256", "journal_sequence",
    "journal_predecessor_sha256"]

/-- The handoff that a pending one stands for; nothing where it is invalid. -/
def readHandoff (prNumber issueNumber : Option Nat) (raw : Json) : Option ReplyHandoff :=
  if isRemediation raw then do
    let progress := (raw.get? "progress").bind progressFromDict
    let (input, _, handoff) ← rebuild py floats codec raw progress
    guard (issueNumber = some input.issueNumber && prNumber = some input.prNumber
      && agreeOn exactKeys handoff.json raw
      && ((raw.get? "progress").isNone
        || (handoff.json.field "progress").eq (raw.field "progress")))
    return handoff.base
  else
    implementationReplyHandoff py (raw.field "head_sha") (raw.field "threads")
      (raw.field "replies") (raw.field "batch_nonce") none false

/-- `raw_handoff.get(key) is True`. -/
def flag (raw : Json) (key : String) : Bool :=
  match raw.field key with
  | .bool b => b
  | _ => false

/-- The handler of `Exception`. -/
def failed (payload : HandoffPayload) (e : HostException) (calls : List HandoffCall) : Attempted :=
  if e.preDispatchRetry then { status := .retry, payload := payload, calls := calls }
  else { status := .blocked, payload := payload.drop, calls := calls }

/-- The status of a reconciliation. -/
def reconciledStatus (result : ReplyResult) : HandoffStatus :=
  if result.outcomeUnknown = true ∨ result.blockedThreadIds ≠ [] then .blocked
  else if result.repliedThreadIds ≠ [] then .completed
  else .blocked

/-- The attempt on a handoff that was read. -/
def deliver (adapter : HandoffAdapter) (prNumber : Nat) (raw : Json) (h : ReplyHandoff)
    (progress : Option ReplyProgress) (payload : HandoffPayload) : Attempted :=
  match adapter.ghPrState prNumber with
  | .error e => failed payload e [.prState (.error e)]
  | .ok state =>
      let classified := classifyHandoffPrState state h.headSha payload
      let read := HandoffCall.prState (.ok state)
      match classified.1 with
      | .retry => { status := .retry, payload := classified.2, calls := [read] }
      | .visibilityWait => { status := .visibilityWait, payload := classified.2, calls := [read] }
      | .stale => { status := .stale, payload := classified.2.drop, calls := [read] }
      | .current =>
          if flag raw "reconciliation_only" then
            let arguments : DeliveryArguments := { prNumber := prNumber, handoff := h }
            let answer := adapter.reconcileImplementationThreadReplies arguments
            let calls := [read, .reconcile arguments answer]
            match answer with
            | .error e => failed classified.2 e calls
            | .ok result =>
                { status := reconciledStatus result, payload := classified.2.drop, calls := calls }
          else
            let arguments : DeliveryArguments :=
              { prNumber := prNumber, handoff := h, progress := progress
                recoverPendingReview := flag raw "recover_pending_review" }
            let answer := adapter.postImplementationThreadReplies arguments
            let calls := [read, .post arguments answer]
            match answer with
            | .error e => failed classified.2 e calls
            | .ok result =>
                let consumed := consumeReplyPostResult py floats codec classified.2 result h raw
                { status := consumed.1, payload := consumed.2, calls := calls }

/-- `retry_pending_implementation_reply_handoff`. -/
def retryPendingImplementationReplyHandoff (payload : HandoffPayload)
    (prNumber issueNumber : Option Nat) (adapter : HandoffAdapter) : Attempted :=
  match payload.handoff with
  | none => { status := .none, payload := payload }
  | some .null => { status := .none, payload := payload }
  | some raw =>
      match readHandoff py floats codec prNumber issueNumber raw, prNumber, progressOf raw with
      | some h, some prNumber, some progress =>
          deliver py floats codec adapter prNumber raw h progress payload
      | _, _, _ => { status := .invalid, payload := payload }

end Delivery

/-! ## The receipt of an attempt -/

mutual

/-- `json.dumps(value, allow_nan=False)` finds no number it rejects. -/
def isFinite : Json → Bool
  | .float (.finite _) => true
  | .float _ => false
  | .arr items => allFinite items
  | .obj fields => fieldsFinite fields
  | _ => true

def allFinite : List Json → Bool
  | [] => true
  | item :: items => isFinite item && allFinite items

def fieldsFinite : List (String × Json) → Bool
  | [] => true
  | (_, value) :: fields => isFinite value && fieldsFinite fields

end

/-- `FrozenJson`, as the value it thaws to. -/
structure FrozenJson where
  value : Json
  finite : isFinite value = true

/-- `DeliverReplyHandoffRequest`. -/
structure DeliverReplyHandoffRequest where
  issueNumber : Nat
  prNumber : Nat
  handoff : FrozenJson
  visibilityRetries : Nat
  issuePositive : 0 < issueNumber
  prPositive : 0 < prNumber
  object : handoff.value.asObj?.isSome = true

/-- What an attempt may raise: a handoff that is no JSON, a counter that is no
integer, or the checks of its receipt. -/
inductive AttemptError
  | notJson
  | notInteger
  | receipt (message : String)
  deriving DecidableEq

/-- `FrozenJson.snapshot`. -/
def FrozenJson.snapshot (value : Json) : Except AttemptError FrozenJson :=
  if h : isFinite value = true then .ok { value := value, finite := h } else .error .notJson

/-- `ReplyHandoffAttempted`. -/
structure ReplyHandoffAttempted where
  request : DeliverReplyHandoffRequest
  status : HandoffStatus
  remainingHandoff : Option FrozenJson
  visibilityRetries : Int
  retryDelay : Option ℚ

/-- `ReplyHandoffAttempted.__post_init__`. -/
def ReplyHandoffAttempted.postInit (r : ReplyHandoffAttempted) : Except AttemptError Unit := do
  raiseIf (r.status = .none) (.receipt "status must be a supported reply-handoff outcome")
  raiseIf (r.remainingHandoff.any (·.value.asObj?.isNone))
    (.receipt "remaining_handoff must contain a JSON dict")
  raiseIf ((r.status = .completed ∨ r.status = .stale ∨ r.status = .blocked)
      ∧ r.remainingHandoff.isSome)
    (.receipt "terminal handoff outcomes cannot retain mutation work")
  raiseIf (r.visibilityRetries < 0)
    (.receipt "visibility_retries must be a non-negative integer")
  raiseIf (r.retryDelay.any (· < 0))
    (.receipt "retry_delay_s must be a non-negative number or None")

/-- `int(payload.get(key, 0))`; the counter of a request is an integer. -/
def counterInt : Option Json → Except AttemptError Int
  | none => .ok 0
  | some (.int n) => .ok n
  | some _ => .error .notInteger

/-- The payload an attempt starts with. -/
def DeliverReplyHandoffRequest.payload (request : DeliverReplyHandoffRequest) : HandoffPayload where
  handoff := some request.handoff.value
  retries := none
  visibilityRetries := some (.int request.visibilityRetries)
  retryDelay := none

/-- `attempt_reply_handoff`. -/
def attemptReplyHandoff (py : PyText) (floats : JsonText.FloatText) (codec : ReviewInputCodec)
    (request : DeliverReplyHandoffRequest) (adapter : HandoffAdapter) :
    Except AttemptError (Checked ReplyHandoffAttempted.postInit) := do
  let attempted := retryPendingImplementationReplyHandoff py floats codec request.payload
    (some request.prNumber) (some request.issueNumber) adapter
  let status := if attempted.status = .none then .invalid else attempted.status
  let remaining ← match attempted.payload.handoff with
    | some remaining => (FrozenJson.snapshot remaining).map some
    | none => .ok none
  let visibilityRetries ← counterInt attempted.payload.visibilityRetries
  Checked.make ReplyHandoffAttempted.postInit
    { request := request, status := status, remainingHandoff := remaining
      visibilityRetries := visibilityRetries, retryDelay := attempted.payload.retryDelay }

end Hephaestus.Automation.Delivery
