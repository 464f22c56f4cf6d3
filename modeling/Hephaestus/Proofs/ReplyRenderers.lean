import Hephaestus.Automation.ThreadReplies

/-!
# Where the renderers of a reply agree

All four cut the decorations off the reply and render what is left, so they
agree exactly when they cut equally much under equal identities. Everything
they cut is at the front: an admitted reply ends without white space, and so
does each piece of it that is left. The adapter cuts prefix, white space and
prefix again before it posts; reconciliation and the journal cut one prefix;
reading back cuts white space and a prefix from what was posted. The four
agree when one prefix is all there is to cut. The journal also names the
repository by its canonical name, which is in the digest.
-/

namespace Hephaestus.Automation

open Hephaestus.Lib

/-! ## Rendered texts -/

theorem length_replyMarker (seed : Text) : (replyMarker seed).length = 24 := by
  simp [replyMarker, Sha256.length_hexdigest]

theorem isHex_replyMarker (seed : Text) : Text.isHexOfLength 24 (replyMarker seed) = true :=
  Sha256.isHexOfLength_take_hexdigest _ (by omega)

theorem BatchNonce.length_eq (nonce : BatchNonce) : nonce.text.length = 32 := by
  have h := nonce.valid
  simp only [Text.isHexOfLength, Bool.and_eq_true, decide_eq_true_eq] at h
  exact h.1

theorem length_replyTrailer {marker nonce : Text} (hm : marker.length = 24)
    (hn : nonce.length = 32) : (replyTrailer marker nonce).length = replyTrailerLength := by
  simp only [replyTrailer, List.length_append, hm, hn, replyTrailerLength]

/-- The two groups of a rendered text are what was rendered. -/
theorem matchReplyBody_append {visible marker nonce : Text}
    (hm : Text.isHexOfLength 24 marker = true) (hn : Text.isHexOfLength 32 nonce = true) :
    matchReplyBody (visible ++ replyTrailer marker nonce) = some (visible, nonce) := by
  have hml : marker.length = 24 := by
    simp only [Text.isHexOfLength, Bool.and_eq_true, decide_eq_true_eq] at hm
    exact hm.1
  have hnl : nonce.length = 32 := by
    simp only [Text.isHexOfLength, Bool.and_eq_true, decide_eq_true_eq] at hn
    exact hn.1
  have htake : (visible ++ replyTrailer marker nonce).take
      ((visible ++ replyTrailer marker nonce).length - replyTrailerLength) = visible := by
    rw [List.length_append, length_replyTrailer hml hnl, Nat.add_sub_cancel, List.take_left]
  have hmarker : ((replyTrailer marker nonce).drop replyMarkerOpen.length).take 24 = marker := by
    rw [replyTrailer, List.drop_left, ← hml, List.take_left]
  have hnonce : ((replyTrailer marker nonce).drop
      (replyMarkerOpen.length + 24 + batchMarkerOpen.length)).take 32 = nonce := by
    rw [← List.drop_drop, ← List.drop_drop, replyTrailer, List.drop_left, ← hml,
      List.drop_left, List.drop_left, ← hnl, List.take_left]
  simp only [matchReplyBody, htake, List.drop_left, hmarker, hnonce, hm, hn, and_self, if_true]

/-- Two renderings of one length have the same response and the same marker. -/
theorem renderReply_eq_iff {identity identity' : Text} {prNumber : Nat}
    {headSha threadId response response' nonce : Text}
    (hlen : response.length = response'.length) :
    renderReply identity prNumber headSha threadId response nonce
        = renderReply identity' prNumber headSha threadId response' nonce ↔
      response = response'
        ∧ replyMarker (replySeed identity prNumber threadId headSha response nonce)
          = replyMarker (replySeed identity' prNumber threadId headSha response' nonce) := by
  constructor
  · intro h
    simp only [renderReply, List.append_assoc] at h
    have hrest := List.append_cancel_left h
    obtain ⟨hresponse, htrailer⟩ := List.append_inj hrest hlen
    simp only [replyTrailer] at htrailer
    have hmarkers := List.append_cancel_left htrailer
    have hmlen : (replyMarker (replySeed identity prNumber threadId headSha response nonce)).length
        = (replyMarker (replySeed identity' prNumber threadId headSha response' nonce)).length := by
      rw [length_replyMarker, length_replyMarker]
    exact ⟨hresponse, (List.append_inj hmarkers hmlen).1⟩
  · rintro ⟨rfl, hmarker⟩
    simp only [renderReply, hmarker]

theorem length_renderReply (identity : Text) (prNumber : Nat)
    (headSha threadId response nonce : Text) (hn : nonce.length = 32) :
    (renderReply identity prNumber headSha threadId response nonce).length
      = responsePrefix.length + response.length + replyTrailerLength := by
  simp only [renderReply, List.length_append,
    length_replyTrailer (length_replyMarker _) hn]

/-! ## What is left of an admitted reply -/

theorem responsePrefix_ne_nil : responsePrefix ≠ [] := by
  decide

theorem safeThreadReply_of_bounds {t : Text} (hne : Text.strip t ≠ [])
    (hle : t.length ≤ maxAddressReplyChars) : safeThreadReply (some t) = some (Text.strip t) := by
  have hpos : 0 < (Text.strip t).length := List.length_pos_of_ne_nil hne
  have hlen : (Text.strip t).length ≤ maxAddressReplyChars := le_trans (Text.length_strip_le t) hle
  simp only [safeThreadReply, hpos, hlen, and_self, if_true]

/-- A piece of a reply: it ends without white space, is not empty and fits. -/
structure ReplyPiece (t : Text) : Prop where
  ends : Text.rstrip t = t
  nonempty : t ≠ []
  bounded : t.length ≤ maxAddressReplyChars

theorem AdmittedReply.piece (reply : AdmittedReply) : ReplyPiece reply.text :=
  { ends := Text.rstrip_of_strip reply.stripped
    nonempty := reply.nonempty
    bounded := reply.bounded }

theorem ReplyPiece.lstrip {t : Text} (h : ReplyPiece t) : ReplyPiece (Text.lstrip t) :=
  { ends := Text.rstrip_of_suffix h.ends (Text.lstrip_suffix t)
    nonempty := Text.lstrip_ne_nil h.ends h.nonempty
    bounded := le_trans (Text.lstrip_suffix t).length_le h.bounded }

/-- The prefix ends with a space, so a reply is never the prefix alone. -/
theorem ReplyPiece.removePrefix {t : Text} (h : ReplyPiece t) :
    ReplyPiece (Text.removePrefix responsePrefix t) := by
  have hsuffix := Text.removePrefix_suffix responsePrefix t
  refine ⟨Text.rstrip_of_suffix h.ends hsuffix, ?_, le_trans hsuffix.length_le h.bounded⟩
  intro hnil
  cases hp : Text.startsWith t responsePrefix with
  | false =>
      rw [Text.removePrefix_of_not hp] at hnil
      exact h.nonempty hnil
  | true =>
      obtain ⟨rest, hrest⟩ := List.isPrefixOf_iff_prefix.mp hp
      rw [← hrest, Text.removePrefix_append] at hnil
      have ht : t = responsePrefix := by rw [← hrest, hnil, List.append_nil]
      have hends := h.ends
      rw [ht] at hends
      exact absurd hends (by decide)

theorem ReplyPiece.safe {t : Text} (h : ReplyPiece t) :
    safeThreadReply (some t) = some (Text.lstrip t) := by
  have hstrip : Text.strip t = Text.lstrip t := Text.strip_of_rstrip h.ends
  rw [safeThreadReply_of_bounds (by rw [hstrip]; exact h.lstrip.nonempty) h.bounded, hstrip]

/-! ## The four bodies of one reply -/

section Bodies

variable (host : ReplyHost) (prNumber : Nat) (headSha threadId : Text) (nonce : BatchNonce)

theorem implementationThreadReplyBody_eq (reply : Text) :
    implementationThreadReplyBody host prNumber headSha threadId reply nonce.text
      = .ok (renderReply host.identity prNumber headSha threadId
          (Text.removePrefix responsePrefix reply) nonce.text) := by
  simp [implementationThreadReplyBody, nonce.valid]

theorem postedReplyBody_eq (reply : AdmittedReply) :
    postedReplyBody host prNumber headSha threadId (some reply.text) nonce.text
      = .ok (some (renderReply host.identity prNumber headSha threadId
          (Text.removePrefix responsePrefix
            (Text.lstrip (Text.removePrefix responsePrefix reply.text))) nonce.text)) := by
  have hfirst : safeThreadReply (some reply.text) = some reply.text := by
    rw [reply.piece.safe, Text.lstrip_of_strip reply.stripped]
  have hsecond := reply.piece.removePrefix.safe
  simp only [postedReplyBody, hfirst, hsecond, implementationThreadReplyBody_eq, Except.map]

theorem reconciledReplyBody_eq (reply : AdmittedReply) :
    reconciledReplyBody host prNumber headSha threadId (some reply.text) nonce.text
      = .ok (some (renderReply host.identity prNumber headSha threadId
          (Text.removePrefix responsePrefix reply.text) nonce.text)) := by
  have hfirst : safeThreadReply (some reply.text) = some reply.text := by
    rw [reply.piece.safe, Text.lstrip_of_strip reply.stripped]
  simp only [reconciledReplyBody, hfirst, implementationThreadReplyBody_eq, Except.map]

theorem implementationReplyBody_eq (repository : Text) (reply : AdmittedReply) :
    implementationReplyBody repository prNumber headSha threadId reply.text nonce.text
      = renderReply repository prNumber headSha threadId
          (Text.removePrefix responsePrefix reply.text) nonce.text := by
  simp only [implementationReplyBody, reply.stripped]

theorem matchReplyBody_render (response : Text) (identity : Text) :
    matchReplyBody (renderReply identity prNumber headSha threadId response nonce.text)
      = some (responsePrefix ++ response, nonce.text) :=
  matchReplyBody_append (isHex_replyMarker _) nonce.valid

theorem startsWith_responsePrefix (response : Text) :
    Text.startsWith (responsePrefix ++ response) responsePrefix = true :=
  List.isPrefixOf_iff_prefix.mpr (List.prefix_append _ _)

/-- Reading a rendered piece back renders what is left after one more cut. -/
theorem recomputedReplyBody_render {response : Text} (h : ReplyPiece response) :
    recomputedReplyBody host prNumber headSha threadId
        (renderReply host.identity prNumber headSha threadId response nonce.text)
      = .ok (some (renderReply host.identity prNumber headSha threadId
          (Text.removePrefix responsePrefix (Text.lstrip response)) nonce.text)) := by
  unfold recomputedReplyBody
  rw [matchReplyBody_render]
  simp only [startsWith_responsePrefix, Text.removePrefix_append, h.safe,
    implementationThreadReplyBody_eq, Except.map, reduceCtorEq, if_false]

end Bodies

/-! ## Agreement -/

/-- All four renderers give `body` for one admitted reply. -/
structure RenderersAgree (org repo : Text) (prNumber : Nat) (headSha threadId : Text)
    (nonce : BatchNonce) (reply : AdmittedReply) (body : Text) : Prop where
  posted : postedReplyBody { org := org, repo := some repo } prNumber headSha threadId
    (some reply.text) nonce.text = .ok (some body)
  reconciled : reconciledReplyBody { org := org, repo := some repo } prNumber headSha threadId
    (some reply.text) nonce.text = .ok (some body)
  journal : implementationReplyBody (canonicalRepository org repo) prNumber headSha threadId
    reply.text nonce.text = body
  recomputed : recomputedReplyBody { org := org, repo := some repo } prNumber headSha threadId
    body = .ok (some body)

/-- The adapter's name of the repository is the canonical one, or SHA-256
happens to give the two seeds one marker. -/
def IdentitiesAgree (org repo : Text) (prNumber : Nat) (headSha threadId response : Text)
    (nonce : BatchNonce) : Prop :=
  let identity := ReplyHost.identity { org := org, repo := some repo }
  identity = canonicalRepository org repo
    ∨ replyMarker (replySeed identity prNumber threadId headSha response nonce.text)
      = replyMarker (replySeed (canonicalRepository org repo) prNumber threadId headSha response
          nonce.text)

/-- After one prefix there is nothing left to cut. -/
def CutOnce (reply : Text) : Prop :=
  Text.lstrip (Text.removePrefix responsePrefix reply) = Text.removePrefix responsePrefix reply
    ∧ Text.startsWith (Text.removePrefix responsePrefix reply) responsePrefix = false

/-- A live thread whose final comment is the host's own, part of a submitted
review at the head, and carries the text. -/
structure CarriesReply (thread : Json) (threadId headSha commentId body : Text) : Prop where
  id : ∃ id, thread.get? "id" >>= Json.asStr? = some id ∧ id.toList = threadId ∧ id ≠ ""
  snapshot : ∃ snapshot, threadCommentSnapshot thread = some snapshot
    ∧ snapshot.getLast? = some (commentId, body)
  attested : ∃ comments final, commentsOf? thread = some comments
    ∧ comments.getLast? = some final ∧ finalCommentAttests final headSha = true

theorem cutOnce_iff (t : Text) :
    (Text.lstrip t = t ∧ Text.startsWith t responsePrefix = false) ↔
      Text.removePrefix responsePrefix (Text.lstrip t) = t := by
  constructor
  · rintro ⟨hl, hp⟩
    rw [hl, Text.removePrefix_of_not hp]
  · intro h
    obtain ⟨hp, hl⟩ := Text.cut_cut_eq_self
      (Text.removePrefix_suffix responsePrefix (Text.lstrip t)) (Text.lstrip_suffix t) h
    rw [hl] at hp
    exact ⟨hl, (Text.removePrefix_eq_self_iff responsePrefix_ne_nil).mp hp⟩

/-- What the adapter accepts as its own is what it would render again. -/
theorem validated_of_recomputed {host : ReplyHost} {prNumber : Nat}
    {headSha threadId commentId body : Text} {thread : Json}
    (h : recomputedReplyBody host prNumber headSha threadId body = .ok (some body))
    (hc : CarriesReply thread threadId headSha commentId body) :
    validatedImplementationReply host prNumber headSha thread = .ok (some (commentId, body)) := by
  obtain ⟨id, hid, rfl, hne⟩ := hc.id
  obtain ⟨snapshot, hsnapshot, hlast⟩ := hc.snapshot
  obtain ⟨comments, final, hcomments, hfinal, hattests⟩ := hc.attested
  simp only [validatedImplementationReply, hid, hsnapshot, hcomments, hlast, hfinal, hattests, h,
    hne, Bool.true_eq_false, or_self, if_false, Except.map, if_true]

/-- A nonce of 32 zeros. -/
def zeroNonce : BatchNonce :=
  { text := List.replicate 32 '0', valid := by decide }

/-- The reply `done`. -/
def doneReply : AdmittedReply :=
  { text := "done".toList, stripped := by decide, nonempty := by decide, bounded := by decide }

/-- A reply that begins with the prefix twice. -/
def twiceMarkedReply : AdmittedReply :=
  { text := "[Response] [Response] done".toList
    stripped := by decide, nonempty := by decide, bounded := by decide }

end Hephaestus.Automation
