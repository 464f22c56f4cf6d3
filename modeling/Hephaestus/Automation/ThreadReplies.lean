import Hephaestus.Lib.Json
import Hephaestus.Lib.Sha256

/-!
# The text of an implementation reply

An implementation agent answers every review thread it was given, and the host
posts the answer under a text that says which thread, head and batch it belongs
to. Nothing else is remembered when the process dies in between: the next
process computes the text again and looks for it under the thread. Four places
compute it, each from what it has at hand: the adapter before it posts, the
adapter when it reconciles an armed handoff, the journal's recovery, which knows
the repository only by its canonical name, and the adapter again when it reads
a posted comment back and asks whether it is one of its own.
-/

namespace Hephaestus.Automation

open Hephaestus.Lib

/-- `MAX_ADDRESS_REPLY_CHARS`, and the bound of `_safe_thread_reply`. -/
def maxAddressReplyChars : Nat := 4000

/-- `"[Response] "`. -/
def responsePrefix : Text := "[Response] ".toList

/-- The adapter's `org` and `repo`. -/
structure ReplyHost where
  org : Text
  repo : Option Text

/-- `_repo_slug`. -/
def ReplyHost.repoSlug (host : ReplyHost) : Option Text :=
  match host.repo with
  | none => none
  | some repo => if repo = [] then none else some (host.org ++ "/".toList ++ repo)

/-- `self._repo_slug or self.org`. -/
def ReplyHost.identity (host : ReplyHost) : Text :=
  host.repoSlug.getD host.org

/-- `str(n)`. -/
def decimal (n : Nat) : Text :=
  Nat.toDigits 10 n

/-! ## What a reply may be -/

/-- `_safe_thread_reply`. -/
def safeThreadReply (value : Option Text) : Option Text :=
  match value with
  | none => none
  | some value =>
      let reply := Text.strip value
      if 0 < reply.length ∧ reply.length ≤ maxAddressReplyChars then some reply else none

/-- One reply as `parse_addressed_replies` and `RemediationReplyResult` admit it. -/
structure AdmittedReply where
  text : Text
  stripped : Text.strip text = text
  nonempty : text ≠ []
  bounded : text.length ≤ maxAddressReplyChars

/-- The check of `parse_addressed_replies` on one reply. -/
def parseAddressedReply (value : Option Text) : Option AdmittedReply :=
  match value with
  | none => none
  | some value =>
      if h : 0 < (Text.strip value).length ∧ (Text.strip value).length ≤ maxAddressReplyChars then
        some { text := Text.strip value
               stripped := Text.strip_strip value
               nonempty := List.ne_nil_of_length_pos h.1
               bounded := h.2 }
      else none

/-- The check of `RemediationReplyResult.__post_init__` on one reply. -/
def remediationReplyAccepted (text : Text) : Bool :=
  0 < (Text.strip text).length && (Text.strip text).length ≤ maxAddressReplyChars
    && text = Text.strip text

/-- A batch nonce: `re.fullmatch(r"[0-9a-f]{32}", batch_nonce)`. -/
structure BatchNonce where
  text : Text
  valid : Text.isHexOfLength 32 text = true

/-! ## The four renderers -/

/-- The text the digest of a reply is taken of. -/
def replySeed (identity : Text) (prNumber : Nat) (threadId headSha response nonce : Text) :
    Text :=
  List.intercalate ":".toList [identity, decimal prNumber, threadId, headSha, response, nonce]

/-- `sha256(seed.encode("utf-8")).hexdigest()[:24]`. -/
def replyMarker (seed : Text) : Text :=
  (Sha256.hexdigest (Sha256.encodeUtf8 seed)).take 24

/-- `"\n\n<!-- hephaestus-implementation-reply:"`. -/
def replyMarkerOpen : Text := "\n\n<!-- hephaestus-implementation-reply:".toList

/-- What stands between the marker and the nonce. -/
def batchMarkerOpen : Text := " -->\n<!-- hephaestus-implementation-batch:".toList

/-- `" -->"`. -/
def markerClose : Text := " -->".toList

/-- The two marker lines. -/
def replyTrailer (marker nonce : Text) : Text :=
  replyMarkerOpen ++ (marker ++ (batchMarkerOpen ++ (nonce ++ markerClose)))

/-- The text of a response that is already free of its prefix. -/
def renderReply (identity : Text) (prNumber : Nat) (headSha threadId response nonce : Text) :
    Text :=
  responsePrefix ++ response
    ++ replyTrailer (replyMarker (replySeed identity prNumber threadId headSha response nonce))
        nonce

/-- `_implementation_thread_reply_body`; the error is the `ValueError`. -/
def implementationThreadReplyBody (host : ReplyHost) (prNumber : Nat)
    (headSha threadId reply batchNonce : Text) : Except String Text :=
  if Text.isHexOfLength 32 batchNonce = false then
    .error "implementation reply batch nonce must be 32 lowercase hexadecimal chars"
  else
    let response := Text.removePrefix responsePrefix reply
    .ok (renderReply host.identity prNumber headSha threadId response batchNonce)

/-- The body `_post_implementation_thread_replies_locked` computes for one
thread; nothing when it blocks the thread instead. -/
def postedReplyBody (host : ReplyHost) (prNumber : Nat)
    (headSha threadId : Text) (reply : Option Text) (batchNonce : Text) :
    Except String (Option Text) :=
  match safeThreadReply reply with
  | none => .ok none
  | some reply =>
      match safeThreadReply (some (Text.removePrefix responsePrefix reply)) with
      | none => .ok none
      | some reply =>
          (implementationThreadReplyBody host prNumber headSha threadId reply batchNonce).map some

/-- The body `reconcile_implementation_thread_replies` expects under one thread. -/
def reconciledReplyBody (host : ReplyHost) (prNumber : Nat)
    (headSha threadId : Text) (reply : Option Text) (batchNonce : Text) :
    Except String (Option Text) :=
  match safeThreadReply reply with
  | none => .ok none
  | some reply =>
      (implementationThreadReplyBody host prNumber headSha threadId reply batchNonce).map some

/-- `_implementation_reply_body` of the handoff. -/
def implementationReplyBody (repository : Text) (prNumber : Nat)
    (headSha threadId reply batchNonce : Text) : Text :=
  let response := Text.removePrefix responsePrefix (Text.strip reply)
  renderReply repository prNumber headSha threadId response batchNonce

/-- The canonical name the journal keeps of `org/repo`. -/
def canonicalRepository (org repo : Text) : Text :=
  Text.lower (org ++ "/".toList ++ repo)

/-! ## Reading a posted comment back -/

/-- The length of the two marker lines. -/
def replyTrailerLength : Nat :=
  replyMarkerOpen.length + (24 + (batchMarkerOpen.length + (32 + markerClose.length)))

/-- `_IMPLEMENTATION_REPLY_BODY_RE.fullmatch(body)`: its two groups. The lines
after the first group have a fixed length, so the group is what is before them. -/
def matchReplyBody (body : Text) : Option (Text × Text) :=
  let visible := body.take (body.length - replyTrailerLength)
  let tail := body.drop visible.length
  let marker := (tail.drop replyMarkerOpen.length).take 24
  let nonce := (tail.drop (replyMarkerOpen.length + 24 + batchMarkerOpen.length)).take 32
  if tail = replyTrailer marker nonce ∧ Text.isHexOfLength 24 marker = true
      ∧ Text.isHexOfLength 32 nonce = true then
    some (visible, nonce)
  else none

/-- The body `_validated_implementation_reply` computes again from a comment. -/
def recomputedReplyBody (host : ReplyHost) (prNumber : Nat)
    (headSha threadId replyBody : Text) : Except String (Option Text) :=
  match matchReplyBody replyBody with
  | none => .ok none
  | some (visible, nonce) =>
      if Text.startsWith visible responsePrefix = false then .ok none
      else
        match safeThreadReply (some (Text.removePrefix responsePrefix visible)) with
        | none => .ok none
        | some reply =>
            (implementationThreadReplyBody host prNumber headSha threadId reply nonce).map some

/-- The comments of a thread, when each is a dictionary. -/
def commentsOf? (thread : Json) : Option (List Json) :=
  match thread.get? "comments" with
  | some (.arr comments) => if comments.isEmpty then none else some comments
  | _ => none

/-- One entry of `_thread_comment_snapshot`. -/
def commentIdentity? (comment : Json) : Option (Text × Text) :=
  match comment.get? "id" >>= Json.asStr?, comment.get? "author" >>= Json.asStr?,
      comment.get? "body" >>= Json.asStr? with
  | some id, some _, some body =>
      if Text.strip id.toList = [] then none else some (id.toList, body.toList)
  | _, _, _ => none

/-- `_thread_comment_snapshot`: identifiers and bodies in order, or nothing
when a comment is malformed or an identifier comes twice. -/
def threadCommentSnapshot (thread : Json) : Option (List (Text × Text)) :=
  match commentsOf? thread with
  | none => none
  | some comments =>
      match comments.mapM commentIdentity? with
      | none => none
      | some snapshot => if (snapshot.map Prod.fst).Nodup then some snapshot else none

/-- The checks of `_validated_implementation_reply` on the final comment. -/
def finalCommentAttests (comment : Json) (reviewedHeadSha : Text) : Bool :=
  ((comment.get? "viewer_did_author").getD .null).truthy
    && (match comment.get? "review_id" >>= Json.asStr? with
        | some reviewId => reviewId ≠ ""
        | none => false)
    && (match comment.get? "review_state" >>= Json.asStr? with
        | some state => state = "COMMENTED"
        | none => false)
    && (match comment.get? "review_commit_sha" >>= Json.asStr? with
        | some sha => sha.toList = reviewedHeadSha
        | none => false)

/-- `_validated_implementation_reply`. -/
def validatedImplementationReply (host : ReplyHost) (prNumber : Nat) (reviewedHeadSha : Text)
    (thread : Json) : Except String (Option (Text × Text)) :=
  match thread.get? "id" >>= Json.asStr?, threadCommentSnapshot thread, commentsOf? thread with
  | some threadId, some snapshot, some comments =>
      match snapshot.getLast?, comments.getLast? with
      | some (replyId, replyBody), some final =>
          if threadId = "" ∨ finalCommentAttests final reviewedHeadSha = false then .ok none
          else
            (recomputedReplyBody host prNumber reviewedHeadSha threadId.toList replyBody).map
              fun expected =>
                if expected = some replyBody then some (replyId, replyBody) else none
      | _, _ => .ok none
  | _, _, _ => .ok none

end Hephaestus.Automation
