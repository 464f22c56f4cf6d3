import Hephaestus.Lib.CanonicalJson
import Hephaestus.Automation.ReplyBatch

/-!
# Recovering replies after a crash

`_recover_live_progress` of `hephaestus/automation/pipeline/reply_handoff.py`,
with what it calls there and `canonical_thread_snapshot` of
`remediation_recovery.py`. A coordinator that finds its journal after a crash
has the threads as they were before it replied, the replies it was to post, the
progress it had proved, and the threads as they are now. Replies GitHub accepted
in between are in the live threads and in no progress: they are recognized by
their text and their author, or the recovery is refused.

Threads, comments and receipts are dictionaries of whatever GitHub answered or
the journal kept. The review input and the reply result are the validated
classes, with the fields the recovery reads.
-/

namespace Hephaestus.Automation

open Hephaestus.Lib

/-- `RemediationReviewInput`, with the canonical text it was read from. -/
structure RemediationReviewInput where
  repository : Text
  issueNumber : Nat
  prNumber : Nat
  branch : Text
  recoveryCommitSha : Text
  threadSnapshotJson : Text
  canonicalText : Text

/-- `RemediationReplyResult`. -/
structure RemediationReplyResult where
  reviewInputSha256 : Text
  replies : Dict Text Text
  distinct : (replies.map Prod.fst).Nodup

/-! ## Values -/

/-- `str(value)`. -/
def PyText.text (py : PyText) : Json → Text
  | .str text => text.toList
  | value => py.str value

/-- `value == text`. -/
def isText (value : Json) (text : Text) : Bool := value.asStr?.any (·.toList = text)

/-- `isinstance(value, str) and value`. -/
def isFilled (value : Json) : Bool := value.asStr?.any (· ≠ "")

/-- `value.get(a) or value.get(b)`. -/
def orField (value : Json) (a b : String) : Json :=
  if (value.field a).truthy then value.field a else value.field b

/-- `comments[-1]`, of a list that has one. -/
def lastComment? (thread : Json) : Option Json :=
  ((thread.field "comments").asArr?.getD []).getLast?

/-! ## The canonical snapshot -/

def remediationThreadSnapshotMaxBytes : Nat := 192 * 1024

/-- `_thread_ids`; nothing for its `ValueError`. -/
def threadIds (floats : JsonText.FloatText) (snapshot : Text) : Option (List String) := do
  let threads ← (← JsonText.loads floats JsonText.keepLast snapshot).asArr?
  guard (!threads.isEmpty && JsonText.canonicalJson floats (.arr threads) = snapshot)
  let ids ← threads.mapM fun thread => (orField thread "thread_id" "id").asStr?
  guard (ids.all (· ≠ "") && decide ids.Nodup)
  return ids

/-- One comment of the snapshot. -/
def projectComment (comment : Json) : Option Json := do
  let author := comment.field "author"
  let id ← (comment.field "id").asStr?
  let login ← (if author.asObj?.isSome then author.field "login" else author).asStr?
  let body ← (comment.field "body").asStr?
  guard (id ≠ "")
  return .obj [("id", .str id), ("author", .str login), ("body", .str body)]

/-- One thread of the snapshot. -/
def projectThread (thread : Json) : Option Json := do
  let resolved := thread.getD "isResolved" (.bool false)
  let line := thread.field "line"
  let side := if (thread.field "side").truthy then thread.field "side" else .str "RIGHT"
  let id ← (orField thread "thread_id" "id").asStr?
  let path ← (thread.getD "path" (.str "")).asStr?
  let side ← side.asStr?
  let comments ← (thread.field "comments").asArr?
  guard (id ≠ "" && resolved.isBool && (line.isNull || line.asInt?.isSome) && side ≠ ""
    && !comments.isEmpty)
  let projected ← comments.mapM projectComment
  guard (decide (projected.map fun comment => (comment.field "id").asStr?).Nodup)
  return .obj [("id", .str id), ("isResolved", resolved), ("line", line), ("path", .str path),
    ("side", .str side), ("comments", .arr projected)]

/-- `canonical_thread_snapshot`; nothing for its `ValueError`. -/
def canonicalThreadSnapshot (floats : JsonText.FloatText) (threads : List Json) :
    Option Text := do
  guard (!threads.isEmpty)
  let projected ← threads.mapM projectThread
  guard (decide (projected.map fun thread => (thread.field "id").asStr?).Nodup)
  let encoded := JsonText.canonicalJson floats (.arr projected)
  let _ ← threadIds floats encoded
  guard ((Sha256.encodeUtf8 encoded).length ≤ remediationThreadSnapshotMaxBytes)
  return encoded

/-! ## Live threads against the source and the progress -/

/-- `thread.get("id")` where it is a string; nothing also for what is no
dictionary. -/
def threadId? (thread : Json) : Option Text := (thread.field "id").asStr?.map String.toList

/-- The threads under their ids, without those that have none. -/
def threadsById (threads : List Json) : Dict Text Json :=
  Dict.ofPairs (threads.filterMap fun thread => (threadId? thread).map (·, thread))

/-- `set(d) == set(e)`. -/
def sameKeys (d e : Dict Text Json) : Bool :=
  (d.all fun item => e.contains item.1) && e.all fun item => d.contains item.1

/-- The fields in which a live comment has to be the one a receipt shows. -/
def commentFields : List String :=
  ["id", "body", "viewer_did_author", "review_id", "review_state", "review_commit_sha"]

/-- The body the batch posts under a thread. -/
def RemediationReviewInput.replyBody (input : RemediationReviewInput) (threadId reply nonce : Text) :
    Text :=
  implementationReplyBody input.repository input.prNumber input.recoveryCommitSha threadId reply
    nonce

/-- What the receipt of a thread has to show. -/
def receiptProved (input : RemediationReviewInput) (result : RemediationReplyResult)
    (nonce : Text) (live : Dict Text Json) (threadId : Text) (receipt : Json) : Bool :=
  isText (receipt.field "implementation_head_sha") input.recoveryCommitSha &&
    (match result.replies.get? threadId, lastComment? receipt,
        (live.get? threadId).bind lastComment? with
      | some reply, some proved, some found =>
          let body := input.replyBody threadId reply nonce
          isFilled (receipt.field "implementation_reply_id")
            && isText (receipt.field "implementation_reply_body") body
            && proved.asObj?.isSome
            && (proved.field "id").eq (receipt.field "implementation_reply_id")
            && isText (proved.field "body") body
            && found.asObj?.isSome
            && commentFields.all fun field => (found.field field).eq (proved.field field)
      | _, _, _ => false)

/-- The loop over the receipts; nothing where it returns `False`. -/
def receiptsById (input : RemediationReviewInput) (result : RemediationReplyResult)
    (nonce : Text) (original live : Dict Text Json) :
    Dict Text Json → List Json → Option (Dict Text Json)
  | proved, [] => some proved
  | proved, receipt :: receipts => do
      let threadId ← (orField receipt "id" "thread_id").asStr?.map String.toList
      guard (original.contains threadId && !proved.contains threadId
        && receiptProved input result nonce live threadId receipt)
      receiptsById input result nonce original live (proved.set threadId receipt) receipts

/-- The threads as the progress expects them. -/
def expectedThreads (input : RemediationReviewInput) (result : RemediationReplyResult)
    (nonce : Text) (original live : Dict Text Json) :
    Option ReplyProgress → Option (Dict Text Json)
  | none => some original
  | some progress => do
      guard (decide progress.repliedThreadIds.Nodup
        && progress.receipts.length = progress.repliedThreadIds.length)
      let proved ← receiptsById input result nonce original live [] progress.receipts
      guard ((proved.all fun item => progress.repliedThreadIds.contains item.1)
        && progress.repliedThreadIds.all proved.contains)
      return proved.foldl (fun expected item => expected.set item.1 item.2) original

/-- The threads of an index in the order of a list of ids. -/
def inOrder (threads : Dict Text Json) (ids : List Text) : Option (List Json) :=
  ids.mapM fun id => threads.get? id

/-- `_progress_matches_live_threads`. -/
def progressMatchesLiveThreads (floats : JsonText.FloatText) (input : RemediationReviewInput)
    (result : RemediationReplyResult) (nonce : Text) (progress : Option ReplyProgress)
    (liveThreads : List Json) : Bool :=
  match (JsonText.loads floats JsonText.keepLast input.threadSnapshotJson).bind Json.asArr? with
  | none => false
  | some original =>
      let originalById := threadsById original
      let liveById := threadsById liveThreads
      if originalById.length ≠ original.length ∨ liveById.length ≠ liveThreads.length
          ∨ sameKeys originalById liveById = false then false
      else
        let orderedIds := original.filterMap threadId?
        match expectedThreads input result nonce originalById liveById progress with
        | none => false
        | some expected =>
            match (inOrder expected orderedIds).bind (canonicalThreadSnapshot floats),
                (inOrder liveById orderedIds).bind (canonicalThreadSnapshot floats) with
            | some expectedJson, some liveJson => expectedJson = liveJson
            | _, _ => false

/-! ## The recovery -/

/-- What the recovery raises: its `ValueError`, the decoder's, and the errors of
a lookup in what is no dictionary, of a key that is not there and of a value
without a hash. -/
inductive RecoveryError
  | invalidSnapshot
  | decodeError
  | attributeError
  | keyError
  | typeError
  deriving DecidableEq

/-- `_canonical_comment_prefix` of one comment. -/
def canonicalComment (comment : Json) : Except RecoveryError (String × String × String) :=
  match (comment.field "id").asStr?, (comment.field "author").asStr?,
      (comment.field "body").asStr? with
  | some id, some author, some body =>
      if id = "" then .error .invalidSnapshot else .ok (id, author, body)
  | _, _, _ => .error .invalidSnapshot

/-- `_canonical_comment_prefix`. -/
def canonicalCommentPrefix (comments : List Json) :
    Except RecoveryError (List (String × String × String)) :=
  comments.mapM canonicalComment

/-- `{str(thread.get("id")): thread for thread in threads}`. -/
def indexThreads (py : PyText) (threads : List Json) : Except RecoveryError (Dict Text Json) := do
  let pairs ← threads.mapM fun thread =>
    if thread.asObj?.isSome then .ok (py.text (thread.field "id"), thread)
    else .error .attributeError
  return Dict.ofPairs pairs

/-- The locals of the loop over the threads. A set of strings is the list of its
members in the order they came. -/
structure Recovery where
  recovered : Dict Text Json
  pendingReviewIds : List Text := []
  pullRequestIds : List Text := []
  states : List Text := []

/-- The text of a value that is one. -/
def filledText? (value : Json) : Option Text :=
  if isFilled value then value.asStr?.map String.toList else none

def Recovery.notePullRequest (s : Recovery) (live : Json) : Recovery :=
  match filledText? (live.field "pr_node_id") with
  | some id => { s with pullRequestIds := setAdd s.pullRequestIds id }
  | none => s

/-- The state of a final comment, and its review if that is pending. -/
def Recovery.noteReview (s : Recovery) (final : Json) : Recovery :=
  let state := ((final.field "review_state").asStr?.getD "").toList
  let s := { s with states := setAdd s.states state }
  match filledText? (final.field "review_id") with
  | some id =>
      if state = "PENDING".toList then
        { s with pendingReviewIds := setAdd s.pendingReviewIds id }
      else s
  | none => s

/-- `final.get("review_state") in {"PENDING", "COMMENTED"}`. -/
def knownState (final : Json) : Except RecoveryError Bool :=
  match final.field "review_state" with
  | .arr _ => .error .typeError
  | .obj _ => .error .typeError
  | state => .ok (isText state "PENDING".toList || isText state "COMMENTED".toList)

/-- `{**live, ...}`. -/
def liveReceipt (live replyId body : Json) (headSha : Text) : Json :=
  .obj ((((live.asObj?.getD []).set "implementation_reply_id" replyId).set
    "implementation_reply_body" body).set "implementation_head_sha"
      (.str (String.ofList headSha)))

/-- `prior[key]`. -/
def item (prior : Json) (key : String) : Except RecoveryError Json :=
  match prior.get? key with
  | some value => .ok value
  | none => .error .keyError

/-- The comments of a thread are those of the source and one more; that one. -/
def oneMore (original : List (String × String × String)) (live : List Json) :
    Except RecoveryError Json := do
  raiseIf (live.length ≠ original.length + 1) .invalidSnapshot
  let before ← canonicalCommentPrefix live.dropLast
  raiseIf (before ≠ original) .invalidSnapshot
  return live.getLastD .null

/-- The final comment is by the viewer. -/
def byViewer (final : Json) : Bool :=
  match final.field "viewer_did_author" with
  | .bool b => b
  | _ => false

/-- A thread the progress has a receipt for. -/
def confirmReply (input : RemediationReviewInput) (original : List (String × String × String))
    (liveThread : Json) (liveComments : List Json) (prior : Json) (threadId : Text)
    (s : Recovery) : Except RecoveryError Recovery := do
  let final ← oneMore original liveComments
  raiseIf (!(final.asObj?.isSome
      && (final.field "id").eq (prior.field "implementation_reply_id")
      && (final.field "body").eq (prior.field "implementation_reply_body")
      && byViewer final
      && isText (final.field "review_commit_sha") input.recoveryCommitSha)) .invalidSnapshot
  let known ← knownState final
  raiseIf (!known) .invalidSnapshot
  let replyId ← item prior "implementation_reply_id"
  let body ← item prior "implementation_reply_body"
  return { s with
    recovered := s.recovered.set threadId
      (liveReceipt liveThread replyId body input.recoveryCommitSha) }.noteReview final

/-- A thread the batch may have replied to without a receipt. -/
def discoverReply (input : RemediationReviewInput) (original : List (String × String × String))
    (liveThread : Json) (liveComments : List Json) (reply nonce threadId : Text)
    (s : Recovery) : Except RecoveryError Recovery := do
  let body := input.replyBody threadId reply nonce
  let final ← oneMore original liveComments
  raiseIf (!(final.asObj?.isSome
      && isText (final.field "body") body
      && byViewer final
      && isFilled (final.field "id")
      && isFilled (final.field "review_id"))) .invalidSnapshot
  let known ← knownState final
  raiseIf (!known) .invalidSnapshot
  raiseIf (!isText (final.field "review_commit_sha") input.recoveryCommitSha) .invalidSnapshot
  return { s with
    recovered := s.recovered.set threadId
      (liveReceipt liveThread (final.field "id") (.str (String.ofList body))
        input.recoveryCommitSha) }.noteReview final

/-- One turn of the loop over the source threads. -/
def recoverThread (input : RemediationReviewInput) (result : RemediationReplyResult)
    (nonce : Text) (live : Dict Text Json) (s : Recovery) (thread : Text × Json) :
    Except RecoveryError Recovery :=
  let liveThread := (live.get? thread.1).getD .null
  match (thread.2.field "comments").asArr?, (liveThread.field "comments").asArr? with
  | some originalComments, some liveComments => do
      let original ← canonicalCommentPrefix originalComments
      let s := s.notePullRequest liveThread
      match s.recovered.get? thread.1, result.replies.get? thread.1 with
      | some prior, _ => confirmReply input original liveThread liveComments prior thread.1 s
      | none, none => return s
      | none, some reply =>
          if liveComments.length = originalComments.length then
            let now ← canonicalCommentPrefix liveComments
            -- as long as the source, so not one longer
            if now = original then return s else .error .invalidSnapshot
          else discoverReply input original liveThread liveComments reply nonce thread.1 s
  | _, _ => .error .invalidSnapshot

/-- The progress the recovered receipts make. -/
def Recovery.progress (s : Recovery) (result : RemediationReplyResult) : ReplyProgress :=
  let orderedIds := (s.recovered.map Prod.fst).insertionSort fun a b =>
    Text.sortsBefore b a = false
  { phase :=
      if !s.states.isEmpty && s.states.all (· = "COMMENTED".toList) then "verify_submission"
      else if result.replies.all fun reply => s.recovered.contains reply.1 then "submit_review"
      else "post_replies"
    pullRequestId := s.pullRequestIds.headD []
    pendingReviewId := s.pendingReviewIds.head?
    repliedThreadIds := orderedIds
    receipts := orderedIds.map fun id => (s.recovered.get? id).getD .null
    activeThreadId := none
    activeCommentId := none }

/-- `_recover_live_progress`. -/
def recoverLiveProgress (py : PyText) (floats : JsonText.FloatText)
    (input : RemediationReviewInput) (result : RemediationReplyResult) (nonce : Text)
    (progress : Option ReplyProgress) (liveThreads : List Json) :
    Except RecoveryError (Option ReplyProgress) :=
  if progressMatchesLiveThreads floats input result nonce progress liveThreads then .ok progress
  else
    match JsonText.loads floats JsonText.keepLast input.threadSnapshotJson with
    | none => .error .decodeError
    | some snapshot =>
        match snapshot.asArr? with
        | none => .error .invalidSnapshot
        | some original => do
            let originalById ← indexThreads py original
            let liveById ← indexThreads py liveThreads
            raiseIf (originalById.length ≠ original.length
                ∨ liveById.length ≠ liveThreads.length
                ∨ sameKeys originalById liveById = false) .invalidSnapshot
            let receipts := (progress.map ReplyProgress.receipts).getD []
            let prior := Dict.ofPairs (receipts.map fun receipt => (receiptKey py receipt, receipt))
            let s ← originalById.foldlM (recoverThread input result nonce liveById)
              { recovered := prior }
            raiseIf (s.pullRequestIds.length ≠ 1 ∨ 1 < s.pendingReviewIds.length
              ∨ s.recovered = []) .invalidSnapshot
            let inferred := s.progress result
            raiseIf (!progressIsMonotonic py progress (some inferred)
                || !progressMatchesLiveThreads floats input result nonce (some inferred)
                  liveThreads) .invalidSnapshot
            return some inferred

end Hephaestus.Automation
