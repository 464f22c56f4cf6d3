import Mathlib.Algebra.Order.Ring.Rat
import Mathlib.Data.List.Dedup
import Hephaestus.Automation.ReplyDelivery
import Hephaestus.Proofs.ReplyRecovery

/-!
# A delivery retains what was not sent

An attempt leaves one of four things behind: no handoff, the payload it found,
the payload with one visibility retry taken, or another handoff in place of the
pending one. `Left` says so once, with what the adapter had answered by then,
and everything else is read off it: an answer that leaves the outcome open is
in none of the last three, and only the third uses up a retry.
-/

namespace Hephaestus.Automation.Delivery

open Hephaestus.Lib

variable {py : PyText} {floats : JsonText.FloatText} {codec : ReviewInputCodec}

/-! ## What is retained -/

/-- The reply of a thread in a dictionary of replies, as a handoff reads it. -/
def replyIn (replies : Json) (t : Text) : Option Text :=
  ((replies.get? (String.ofList t)).bind Json.asStr?).map fun reply => Text.strip reply.toList

/-- The reply of a thread in a handoff. -/
def replyOf (handoff : Json) (t : Text) : Option Text := replyIn (handoff.field "replies") t

/-- Of the same batch: the head, the nonce, and no reply that is not in it. -/
structure SameBatch (raw remaining : Json) : Prop where
  head : remaining.field "head_sha" = raw.field "head_sha"
  nonce : remaining.field "batch_nonce" = raw.field "batch_nonce"
  replies : ∀ t text, replyOf remaining t = some text → replyOf raw t = some text

/-- All threads and all replies of the batch, with a progress. Dictionaries and
lists are the same where Python's `==` says so. -/
structure Whole (raw remaining : Json) (progress : ReplyProgress) : Prop where
  threads : remaining.field "threads" = raw.field "threads"
    ∨ (remaining.field "threads").eq (raw.field "threads") = true
  replies : (∀ t, replyOf remaining t = replyOf raw t)
    ∨ (remaining.field "replies").eq (raw.field "replies") = true
  progress : remaining.field "progress" = progressJson progress
    ∨ ∃ same, progressFromDict (remaining.field "progress") = some same
      ∧ sameProgress same progress = true

/-- Nothing of what was reported as replied. -/
structure Unsent (py : PyText) (remaining : Json) (replied : List Text) : Prop where
  threads : ∀ thread ∈ (remaining.field "threads").asArr?.getD [],
    snapshotId py thread ∉ replied
  replies : ∀ t text, replyOf remaining t = some text → t ∉ replied

/-- The threads the adapter reported as replied. -/
def HandoffCall.replied : HandoffCall → List Text
  | .reconcile _ (.ok result) => result.repliedThreadIds
  | .post _ (.ok result) => result.repliedThreadIds
  | _ => []

/-- The answer leaves the outcome open: it says so, or is an exception that is not
the typed one from before the dispatch. -/
def HandoffCall.unsure : HandoffCall → Bool
  | .prState (.error e) => !e.preDispatchRetry
  | .reconcile _ (.error e) => !e.preDispatchRetry
  | .reconcile _ (.ok result) => result.outcomeUnknown
  | .post _ (.error e) => !e.preDispatchRetry
  | .post _ (.ok result) => result.outcomeUnknown
  | .prState (.ok _) => false

/-- A call of `post_implementation_thread_replies`. -/
def HandoffCall.isPost : HandoffCall → Bool
  | .post _ _ => true
  | _ => false

/-- The progress that a call of the adapter returned. -/
def Reports (calls : List HandoffCall) (progress : ReplyProgress) : Prop :=
  ∃ arguments result, HandoffCall.post arguments (.ok result) ∈ calls
    ∧ result.progress = some progress

/-- What may take the place of a pending handoff. -/
def Retains (py : PyText) (raw remaining : Json) (calls : List HandoffCall) : Prop :=
  SameBatch raw remaining
    ∧ ((∃ progress, Reports calls progress ∧ Whole raw remaining progress)
      ∨ Unsent py remaining (calls.flatMap HandoffCall.replied))

/-- The counter and the delay are as they were, or the counter is gone. -/
def KeepsCounters (payload payload' : HandoffPayload) : Prop :=
  (payload'.visibilityRetries = payload.visibilityRetries ∨ payload'.visibilityRetries = none)
    ∧ payload'.retryDelay = payload.retryDelay

/-- What an attempt on a pending handoff leaves. -/
inductive Left (py : PyText) (raw : Json) (payload : HandoffPayload) : Attempted → Prop
  | dropped {status payload' calls} (hhandoff : payload'.handoff = none)
      (hcounters : KeepsCounters payload payload' ∨
        ∃ taken, takeVisibilityRetry payload = some taken ∧ KeepsCounters taken payload')
      (hstatus : status = .completed ∨ status = .stale ∨ status = .blocked ∨ status = .invalid) :
      Left py raw payload ⟨status, payload', calls⟩
  | kept {status calls} (hstatus : status = .retry ∨ status = .invalid)
      (hsure : ∀ call ∈ calls, call.unsure = false)
      (hunsent : status = .retry → calls.flatMap HandoffCall.replied = []) :
      Left py raw payload ⟨status, payload, calls⟩
  | waits {payload' calls} (htaken : takeVisibilityRetry payload = some payload')
      (hsure : ∀ call ∈ calls, call.unsure = false)
      (hunsent : calls.flatMap HandoffCall.replied = []) :
      Left py raw payload ⟨.visibilityWait, payload', calls⟩
  | replaced {payload' calls remaining} (hhandoff : payload'.handoff = some remaining)
      (hobject : remaining.asObj?.isSome = true)
      (hcounters : payload'.visibilityRetries = payload.visibilityRetries
        ∧ payload'.retryDelay = payload.retryDelay)
      (hsure : ∀ call ∈ calls, call.unsure = false)
      (hposted : flag raw "reconciliation_only" = false)
      (hretains : Retains py raw remaining calls) :
      Left py raw payload ⟨.retry, payload', calls⟩

/-! ## Dictionaries of texts -/

theorem get?_textsJson (texts : Dict Text Text) (t : Text) :
    Dict.get? (textsJson texts) (String.ofList t)
      = (texts.get? t).map fun text => Json.str (String.ofList text) := by
  induction texts with
  | nil => rfl
  | cons item texts ih =>
      rw [textsJson, List.map_cons, Dict.get?_cons, Dict.get?_cons]
      simp only [String.ofList_inj]
      split
      · rfl
      · exact ih

theorem replyIn_textsJson (texts : Dict Text Text) (t : Text) :
    replyIn (.obj (textsJson texts)) t = (texts.get? t).map Text.strip := by
  rw [replyIn, Json.get?, get?_textsJson]
  cases texts.get? t with
  | none => rfl
  | some text => simp [Json.asStr?, String.toList_ofList]

/-- A dictionary equal to another has each of its texts. -/
theorem replyIn_of_eq {replies other : Json} (h : replies.eq other = true) {t text : Text}
    (hreply : replyIn replies t = some text) : replyIn other t = some text := by
  have hfields : ∀ {a b : Dict String Json} {key : String} {s : String},
      Json.eqFields a b = true → Dict.get? a key = some (.str s) →
        Dict.get? b key = some (.str s) := by
    intro a b key s heq hget
    induction a with
    | nil => cases hget
    | cons item a ih =>
        rw [Json.eqFields, Bool.and_eq_true] at heq
        rw [Dict.get?_cons] at hget
        split at hget
        · next hkey =>
            obtain rfl := hkey
            have hitem := heq.1
            rw [Option.some.inj hget] at hitem
            split at hitem
            · next value hvalue => rw [hvalue, Json.str_eq_iff.mp hitem]
            · cases hitem
        · exact ih heq.2 hget
  obtain ⟨s, hs, rfl⟩ := Option.map_eq_some_iff.mp hreply
  obtain ⟨value, hvalue, hstr⟩ := Option.bind_eq_some_iff.mp hs
  cases value with
  | str u =>
      obtain rfl := Option.some.inj hstr
      cases replies with
      | obj a =>
          cases other with
          | obj b =>
              rw [Json.eq, Bool.and_eq_true] at h
              have hget : Json.get? (.obj b) (String.ofList t) = some (.str u) :=
                hfields h.2 hvalue
              rw [replyIn, hget]
              rfl
          | _ => simp [Json.eq, Json.number?] at h
      | _ => cases hvalue
  | _ => cases hstr

/-! ## A handoff is built -/

theorem sameSet_iff {α : Type} [DecidableEq α] {l m : List α} :
    sameSet l m = true ↔ ∀ a, a ∈ l ↔ a ∈ m := by
  simp only [sameSet, Bool.and_eq_true, List.all_eq_true, List.contains_iff_mem]
  constructor
  · exact fun h a => ⟨h.1 a, h.2 a⟩
  · exact fun h => ⟨fun a => (h a).mp, fun a => (h a).mpr⟩

/-- The replies of a handoff are those it was given, stripped. -/
theorem get?_parseAddressedReplies {addressed : Json} {replies : Dict String Json}
    {threads : List Json} {normalized : Dict Text Text}
    (h : parseAddressedReplies py (.obj [("addressed", addressed), ("replies", .obj replies)])
      threads = some normalized) (t : Text) :
    normalized.get? t = replyIn (.obj replies) t := by
  obtain ⟨_, _, h⟩ := Option.bind_eq_some_iff.mp h
  obtain ⟨given, hgiven, h⟩ := Option.bind_eq_some_iff.mp h
  obtain ⟨_, _, h⟩ := Option.bind_eq_some_iff.mp h
  obtain ⟨_, hguard, h⟩ := Option.bind_eq_some_iff.mp h
  obtain rfl : replies = given := by
    simpa [Json.field, Json.getD, Json.get?, Dict.get?_cons, Json.asObj?] using hgiven
  have hguard := (Option.guard_eq_some' _).mp hguard
  simp only [Bool.and_eq_true, decide_eq_true_eq, sameSet_iff] at hguard
  obtain ⟨⟨⟨⟨⟨⟨_, _⟩, hknown⟩, _⟩, _⟩, _⟩, hkeys⟩ := hguard
  have hall := forall₂_of_mapM h
  have hfound : ∀ {ids : List Text} {found : Dict Text Text}, ids.Nodup →
      List.Forall₂ (fun id item => (parseAddressedReply
        ((Dict.get? replies (String.ofList id)).bind fun reply =>
          reply.asStr?.map String.toList)).bind (fun reply => some (id, reply.text)) = some item)
        ids found →
      ∀ t, found.get? t = if t ∈ ids then replyIn (.obj replies) t else none := by
    intro ids found hnd hall t
    induction hall with
    | nil => rfl
    | @cons id item ids found hitem _ ih =>
        obtain ⟨hnew, hnd⟩ := List.nodup_cons.mp hnd
        obtain ⟨reply, hreply, heq⟩ := Option.bind_eq_some_iff.mp hitem
        obtain rfl := Option.some.inj heq
        rw [Dict.get?_cons]
        by_cases hid : id = t
        · subst hid
          rw [if_pos rfl, if_pos List.mem_cons_self, replyIn, Json.get?]
          have hbind : ((Dict.get? replies (String.ofList id)).bind fun reply =>
              reply.asStr?.map String.toList)
                = ((Dict.get? replies (String.ofList id)).bind Json.asStr?).map String.toList := by
            cases Dict.get? replies (String.ofList id) with
            | none => rfl
            | some reply => rfl
          rw [hbind] at hreply
          cases hget : (Dict.get? replies (String.ofList id)).bind Json.asStr? with
          | none =>
              rw [hget] at hreply
              cases hreply
          | some text =>
              rw [hget, Option.map_some, parseAddressedReply] at hreply
              split at hreply
              · obtain rfl := Option.some.inj hreply
                rfl
              · cases hreply
        · rw [if_neg hid, ih hnd]
          by_cases ht : t ∈ ids
          · rw [if_pos ht, if_pos (List.mem_cons_of_mem _ ht)]
          · rw [if_neg ht, if_neg]
            exact fun hmem => (List.mem_cons.mp hmem).elim (fun heq => hid heq.symm) ht
  rw [hfound hknown hall t]
  split
  · rfl
  · next ht =>
      have hnone : Dict.get? replies (String.ofList t) = none := by
        cases hget : Dict.get? replies (String.ofList t) with
        | none => rfl
        | some value =>
            refine absurd ((hkeys t).mp (List.mem_map.mpr ⟨_, Dict.mem_of_get? hget, ?_⟩)) ht
            exact String.toList_ofList
      rw [replyIn, Json.get?, hnone]
      rfl

/-- A handoff that was built: what it was built from. -/
structure Built (py : PyText) (headSha threads replies batchNonce : Json)
    (progress : Option ReplyProgress) (h : ReplyHandoff) : Prop where
  head : headSha = .str (String.ofList h.headSha)
  threads : threads = .arr h.threads
  replies : ∃ fields, replies = .obj fields
    ∧ parseAddressedReplies py
      (.obj [("addressed", .arr (fields.map fun item => .str item.1)), ("replies", .obj fields)])
      h.threads = some h.replies
  nonce : batchNonce = .str (String.ofList h.batchNonce)
  progress : h.progress = progress

theorem asStr?_some {value : Json} {text : String} (h : value.asStr? = some text) :
    value = .str text := by
  cases value with
  | str s => exact congrArg Json.str (Option.some.inj h)
  | _ => cases h

theorem asInt?_some {value : Json} {n : Int} (h : value.asInt? = some n) : value = .int n := by
  cases value with
  | int m => exact congrArg Json.int (Option.some.inj h)
  | _ => cases h

theorem asArr?_some {value : Json} {items : List Json} (h : value.asArr? = some items) :
    value = .arr items := by
  cases value with
  | arr s => exact congrArg Json.arr (Option.some.inj h)
  | _ => cases h

theorem asObj?_some {value : Json} {fields : Dict String Json} (h : value.asObj? = some fields) :
    value = .obj fields := by
  cases value with
  | obj s => exact congrArg Json.obj (Option.some.inj h)
  | _ => cases h

theorem built {headSha threads replies batchNonce : Json} {progress : Option ReplyProgress}
    {reconciliationOnly : Bool} {h : ReplyHandoff}
    (hbuilt : implementationReplyHandoff py headSha threads replies batchNonce progress
      reconciliationOnly = some h) :
    Built py headSha threads replies batchNonce progress h := by
  obtain ⟨head, hhead, hbuilt⟩ := Option.bind_eq_some_iff.mp hbuilt
  obtain ⟨list, hlist, hbuilt⟩ := Option.bind_eq_some_iff.mp hbuilt
  obtain ⟨fields, hfields, hbuilt⟩ := Option.bind_eq_some_iff.mp hbuilt
  obtain ⟨nonce, hnonce, hbuilt⟩ := Option.bind_eq_some_iff.mp hbuilt
  obtain ⟨_, _, hbuilt⟩ := Option.bind_eq_some_iff.mp hbuilt
  obtain ⟨normalized, hparse, hbuilt⟩ := Option.bind_eq_some_iff.mp hbuilt
  obtain ⟨_, _, hbuilt⟩ := Option.bind_eq_some_iff.mp hbuilt
  obtain rfl := Option.some.inj hbuilt
  obtain rfl := asObj?_some hfields
  exact ⟨(asStr?_some hhead).trans (congrArg Json.str String.ofList_toList.symm),
    asArr?_some hlist, ⟨fields, rfl, hparse⟩,
    (asStr?_some hnonce).trans (congrArg Json.str String.ofList_toList.symm), rfl⟩

/-- The replies of a built handoff. -/
theorem Built.get? {headSha threads replies batchNonce : Json} {progress : Option ReplyProgress}
    {h : ReplyHandoff} (hbuilt : Built py headSha threads replies batchNonce progress h) (t : Text) :
    h.replies.get? t = replyIn replies t := by
  obtain ⟨fields, rfl, hparse⟩ := hbuilt.replies
  exact get?_parseAddressedReplies hparse t

/-- Replies that were stripped once are not changed again. -/
theorem map_strip_replyIn (replies : Json) (t : Text) :
    (replyIn replies t).map Text.strip = replyIn replies t := by
  rw [replyIn, Option.map_map]
  congr 1
  funext reply
  exact Text.strip_strip _

/-- Two handoffs built from the same values differ in their progress only. -/
theorem Built.same {headSha threads replies batchNonce : Json}
    {progress progress' : Option ReplyProgress} {h h' : ReplyHandoff}
    (hbuilt : Built py headSha threads replies batchNonce progress h)
    (hbuilt' : Built py headSha threads replies batchNonce progress' h') :
    h'.headSha = h.headSha ∧ h'.threads = h.threads ∧ h'.replies = h.replies
      ∧ h'.batchNonce = h.batchNonce := by
  have htext : ∀ {a b : Text}, Json.str (String.ofList a) = .str (String.ofList b) → a = b :=
    fun hab => String.ofList_injective (Json.str.inj hab)
  have hthreads : h'.threads = h.threads :=
    Json.arr.inj (hbuilt'.threads.symm.trans hbuilt.threads)
  obtain ⟨fields, hfields, hparse⟩ := hbuilt.replies
  obtain ⟨fields', hfields', hparse'⟩ := hbuilt'.replies
  obtain rfl := Json.obj.inj (hfields'.symm.trans hfields)
  rw [hthreads, hparse] at hparse'
  exact ⟨htext (hbuilt'.head.symm.trans hbuilt.head), hthreads, (Option.some.inj hparse').symm,
    htext (hbuilt'.nonce.symm.trans hbuilt.nonce)⟩

/-! ## The fields of a handoff -/

theorem field_obj {fields : Dict String Json} {key : String} {value : Json}
    (h : Dict.get? fields key = some value) : (Json.obj fields).field key = value := by
  rw [Json.field, Json.getD, Json.get?, h]
  rfl

section Fields

variable (h : ReplyHandoff)

theorem fields_head : Dict.get? h.fields "head_sha" = some (.str (String.ofList h.headSha)) := by
  simp [ReplyHandoff.fields, Dict.get?_cons]

theorem fields_threads : Dict.get? h.fields "threads" = some (.arr h.threads) := by
  simp [ReplyHandoff.fields, Dict.get?_cons]

theorem fields_replies : Dict.get? h.fields "replies" = some (.obj (textsJson h.replies)) := by
  simp [ReplyHandoff.fields, Dict.get?_cons]

theorem fields_nonce :
    Dict.get? h.fields "batch_nonce" = some (.str (String.ofList h.batchNonce)) := by
  simp [ReplyHandoff.fields, Dict.get?_cons]

theorem fields_progress {progress : ReplyProgress} (hprogress : h.progress = some progress) :
    Dict.get? h.fields "progress" = some (progressJson progress) := by
  simp [ReplyHandoff.fields, Dict.get?_cons, hprogress]

end Fields

/-- A dictionary whose flag was set is the same in every other field. -/
theorem field_rearmed {raw : Json} (hraw : raw.asObj?.isSome = true) {key : String}
    (hkey : "reconciliation_only" ≠ key) : (rearmed raw).field key = raw.field key := by
  cases raw with
  | obj fields =>
      rw [Json.field, Json.getD, Json.field, Json.getD, rearmed, Json.asObj?, Option.getD_some,
        Json.get?, Json.get?, Dict.get?_set_ne _ _ hkey]
  | _ => cases hraw

/-! ## The handoffs of a retry -/

/-- The replies of a handoff that was built from replies of another. -/
theorem replyOf_built {headSha threads batchNonce : Json} {progress : Option ReplyProgress}
    {h : ReplyHandoff} {texts : Dict Text Text}
    (hbuilt : Built py headSha threads (.obj (textsJson texts)) batchNonce progress h)
    {fields : Dict String Json} (hfields : Dict.get? fields "replies" = Dict.get? h.fields "replies")
    (t : Text) : replyOf (.obj fields) t = (texts.get? t).map Text.strip := by
  have hreplies : (Json.obj fields).field "replies" = .obj (textsJson h.replies) :=
    field_obj (hfields.trans (fields_replies h))
  rw [replyOf, hreplies, replyIn_textsJson, hbuilt.get?, map_strip_replyIn, replyIn_textsJson]

section Ordinary

variable {raw : Json} {progress : Option ReplyProgress} {h h' : ReplyHandoff}
  (hread : Built py (raw.field "head_sha") (raw.field "threads") (raw.field "replies")
    (raw.field "batch_nonce") progress h)

include hread

theorem stripped_of_read (t : Text) : (h.replies.get? t).map Text.strip = replyOf raw t := by
  rw [hread.get?, map_strip_replyIn]
  rfl

/-- The whole batch, with the progress of the adapter. -/
theorem whole_of_built {progress' : ReplyProgress}
    (hbuilt : Built py (.str (String.ofList h.headSha)) (.arr h.threads)
      (.obj (textsJson h.replies)) (.str (String.ofList h.batchNonce)) (some progress') h') :
    SameBatch raw (.obj h'.fields) ∧ Whole raw (.obj h'.fields) progress' := by
  have hreplies : ∀ t, replyOf (.obj h'.fields) t = replyOf raw t := by
    intro t
    rw [replyOf_built hbuilt rfl, stripped_of_read hread]
  refine ⟨⟨?_, ?_, ?_⟩, ⟨.inl ?_, .inl hreplies, .inl ?_⟩⟩
  · rw [field_obj (fields_head h'), hread.head, hbuilt.head]
  · rw [field_obj (fields_nonce h'), hread.nonce, hbuilt.nonce]
  · intro t text htext
    rw [← hreplies, htext]
  · rw [field_obj (fields_threads h'), hread.threads, hbuilt.threads]
  · exact field_obj (fields_progress h' hbuilt.progress)

/-- The threads that are left. -/
theorem unsent_of_remaining {ids replied : List Text} (hids : ∀ t ∈ ids, t ∉ replied)
    (hremaining : remainingHandoff py h ids = some h') :
    SameBatch raw (.obj h'.fields) ∧ Unsent py (.obj h'.fields) replied := by
  have hbuilt := built hremaining
  have hreplies : ∀ t, replyOf (.obj h'.fields) t
      = if ids.contains t then replyOf raw t else none := by
    intro t
    rw [replyOf_built hbuilt rfl]
    have hrestrict := Dict.get?_restrict h.replies (fun t => ids.contains t) t
    rw [Dict.restrict] at hrestrict
    rw [hrestrict, ← stripped_of_read hread]
    split
    · rfl
    · rfl
  have hmem : ∀ {t text}, replyOf (.obj h'.fields) t = some text →
      t ∈ ids ∧ replyOf raw t = some text := by
    intro t text htext
    rw [hreplies] at htext
    split at htext
    · next hcontains => exact ⟨List.contains_iff_mem.mp hcontains, htext⟩
    · cases htext
  refine ⟨⟨?_, ?_, fun t text htext => (hmem htext).2⟩, ?_,
    fun t text htext => hids t (hmem htext).1⟩
  · rw [field_obj (fields_head h'), hread.head, hbuilt.head]
  · rw [field_obj (fields_nonce h'), hread.nonce, hbuilt.nonce]
  · intro thread hthread
    rw [field_obj (fields_threads h'), Json.asArr?, Option.getD_some,
      ← Json.arr.inj hbuilt.threads] at hthread
    exact hids _ (List.contains_iff_mem.mp (List.mem_filter.mp hthread).2)

end Ordinary

section Remediation

variable {raw : Json} {h : ReplyHandoff}

theorem sameBatch_rearmed (hraw : raw.asObj?.isSome = true) : SameBatch raw (rearmed raw) := by
  refine ⟨field_rearmed hraw (by decide), field_rearmed hraw (by decide), ?_⟩
  intro t text htext
  rw [replyOf, field_rearmed hraw (by decide)] at htext
  exact htext

theorem implementationRemediationReplyHandoff_some {input : RemediationReviewInput}
    {result : RemediationReplyResult} {batchNonce encoding data sequence predecessor : Json}
    {progress : Option ReplyProgress} {handoff : RemediationHandoff}
    (h : implementationRemediationReplyHandoff py floats codec input result batchNonce progress
      encoding data sequence predecessor = some handoff) :
    ∃ threads, JsonText.loads floats JsonText.keepLast input.threadSnapshotJson = some threads
      ∧ Built py (.str (String.ofList input.recoveryCommitSha)) threads
        (.obj (textsJson result.replies)) batchNonce progress handoff.base := by
  obtain ⟨_, _, h⟩ := Option.bind_eq_some_iff.mp h
  obtain ⟨threads, hthreads, h⟩ := Option.bind_eq_some_iff.mp h
  obtain ⟨_, _, h⟩ := Option.bind_eq_some_iff.mp h
  obtain ⟨_, _, h⟩ := Option.bind_eq_some_iff.mp h
  obtain ⟨_, _, h⟩ := Option.bind_eq_some_iff.mp h
  obtain ⟨base, hbase, h⟩ := Option.bind_eq_some_iff.mp h
  obtain rfl := Option.some.inj h
  exact ⟨threads, hthreads, built hbase⟩

/-- What the fields of a handoff of format 3 say. -/
structure ReadRemediation (py : PyText) (floats : JsonText.FloatText) (codec : ReviewInputCodec)
    (raw : Json) (input : RemediationReviewInput) (result : RemediationReplyResult) : Prop where
  input : ((raw.field "review_input_bytes").asStr?).bind (fun text => codec.read text.toList)
    = some input
  result : replyResultFromDict floats (raw.field "reply_result") = some result

theorem rebuild_some {progress : Option ReplyProgress} {input : RemediationReviewInput}
    {result : RemediationReplyResult} {handoff : RemediationHandoff}
    (h : rebuild py floats codec raw progress = some (input, result, handoff)) :
    ReadRemediation py floats codec raw input result ∧ ∃ threads,
      JsonText.loads floats JsonText.keepLast input.threadSnapshotJson = some threads
      ∧ Built py (.str (String.ofList input.recoveryCommitSha)) threads
        (.obj (textsJson result.replies)) (raw.field "batch_nonce") progress handoff.base := by
  obtain ⟨text, htext, h⟩ := Option.bind_eq_some_iff.mp h
  obtain ⟨input', hinput, h⟩ := Option.bind_eq_some_iff.mp h
  obtain ⟨result', hresult, h⟩ := Option.bind_eq_some_iff.mp h
  obtain ⟨handoff', hhandoff, h⟩ := Option.bind_eq_some_iff.mp h
  cases h
  refine ⟨⟨?_, hresult⟩, implementationRemediationReplyHandoff_some hhandoff⟩
  rw [htext]
  exact hinput

/-- A successor is the handoff itself where its progress is known, or one that is
built anew. -/
theorem remediationSuccessorHandoff_some {progress : ReplyProgress} {successor : Json}
    (h : remediationSuccessorHandoff py floats codec raw progress = some successor) :
    (successor = rearmed raw ∧ ∃ same, (raw.get? "progress").bind progressFromDict = some same
      ∧ sameProgress same progress = true) ∨
    ∃ input result threads base binding, ReadRemediation py floats codec raw input result
      ∧ JsonText.loads floats JsonText.keepLast input.threadSnapshotJson = some threads
      ∧ Built py (.str (String.ofList input.recoveryCommitSha)) threads
        (.obj (textsJson result.replies)) (raw.field "batch_nonce") (some progress) base
      ∧ successor = .obj ((base.fields ++ binding).set "reconciliation_only" (.bool false)) := by
  obtain ⟨_, _, h⟩ := Option.bind_eq_some_iff.mp h
  obtain ⟨text, htext, h⟩ := Option.bind_eq_some_iff.mp h
  obtain ⟨input, hinput, h⟩ := Option.bind_eq_some_iff.mp h
  obtain ⟨result, hresult, h⟩ := Option.bind_eq_some_iff.mp h
  obtain ⟨sequence, _, h⟩ := Option.bind_eq_some_iff.mp h
  dsimp only at h
  split at h
  · next hsame =>
    obtain rfl := Option.some.inj h
    obtain ⟨same, hprevious, hsame⟩ := (Option.any_eq_true _ _).mp hsame
    exact .inl ⟨rfl, same, hprevious, hsame⟩
  · obtain ⟨entry, _, h⟩ := Option.bind_eq_some_iff.mp h
    obtain ⟨n, _, h⟩ := Option.bind_eq_some_iff.mp h
    obtain ⟨_, _, h⟩ := Option.bind_eq_some_iff.mp h
    obtain ⟨handoff, hhandoff, h⟩ := Option.bind_eq_some_iff.mp h
    obtain rfl := Option.some.inj h
    obtain ⟨threads, hthreads, hbuilt⟩ := implementationRemediationReplyHandoff_some hhandoff
    refine .inr ⟨input, result, threads, handoff.base, handoff.binding, ⟨?_, hresult⟩, hthreads,
      hbuilt, rfl⟩
    rw [htext]
    exact hinput

/-- A successor is the whole batch, with the progress of the adapter. -/
theorem whole_of_successor {prNumber issueNumber : Option Nat} {progress : ReplyProgress}
    {successor : Json} (hraw : isRemediation raw = true)
    (hread : readHandoff py floats codec prNumber issueNumber raw = some h)
    (hsuccessor : remediationSuccessorHandoff py floats codec raw progress = some successor) :
    SameBatch raw successor ∧ Whole raw successor progress
      ∧ successor.asObj?.isSome = true := by
  have hobj := (Bool.and_eq_true_iff.mp hraw).1
  rcases remediationSuccessorHandoff_some hsuccessor with ⟨rfl, same, hprevious, hsame⟩ |
    ⟨input, result, threads, base, binding, hfields, hthreads, hbuilt, rfl⟩
  · refine ⟨sameBatch_rearmed hobj, ⟨.inl (field_rearmed hobj (by decide)),
      .inl fun t => ?_, .inr ⟨same, ?_, hsame⟩⟩, rfl⟩
    · rw [replyOf, field_rearmed hobj (by decide)]
      rfl
    · rw [field_rearmed hobj (by decide)]
      cases hget : raw.get? "progress" with
      | none =>
          rw [hget] at hprevious
          cases hprevious
      | some value =>
          rw [hget] at hprevious
          rw [Json.field, Json.getD, hget]
          exact hprevious
  · rw [readHandoff, if_pos hraw] at hread
    obtain ⟨⟨input', result', handoff⟩, hrebuild, hread⟩ := Option.bind_eq_some_iff.mp hread
    obtain ⟨_, hguard, _⟩ := Option.bind_eq_some_iff.mp hread
    have hguard := (Option.guard_eq_some' _).mp hguard
    simp only [Bool.and_eq_true, agreeOn, List.all_eq_true] at hguard
    obtain ⟨hfields', threads', hthreads', hbuilt'⟩ := rebuild_some hrebuild
    obtain rfl := Option.some.inj (hfields.input.symm.trans hfields'.input)
    obtain rfl := Option.some.inj (hfields.result.symm.trans hfields'.result)
    obtain rfl := Option.some.inj (hthreads.symm.trans hthreads')
    obtain ⟨hhead, hsameThreads, hsameReplies, _⟩ := hbuilt'.same hbuilt
    have hget : ∀ {key : String} {value : Json}, "reconciliation_only" ≠ key →
        Dict.get? base.fields key = some value →
        (Json.obj ((base.fields ++ binding).set "reconciliation_only" (.bool false))).field key
          = value := by
      intro key value hkey hvalue
      refine field_obj ?_
      rw [Dict.get?_set_ne _ _ hkey, Dict.get?_append, hvalue]
      rfl
    have hexact : ∀ {key : String} {value : Json}, key ∈ exactKeys →
        Dict.get? handoff.base.fields key = some value → value.eq (raw.field key) = true := by
      intro key value hkey hvalue
      have hagree := hguard.1.2 key hkey
      rwa [RemediationHandoff.json, field_obj (by rw [Dict.get?_append, hvalue]; rfl)] at hagree
    have heqThreads := hexact (by decide) (fields_threads handoff.base)
    have heqReplies := hexact (by decide) (fields_replies handoff.base)
    have heqHead := hexact (by decide) (fields_head handoff.base)
    rw [← hsameThreads] at heqThreads
    rw [← hsameReplies] at heqReplies
    rw [← hhead] at heqHead
    refine ⟨⟨?_, ?_, ?_⟩, ⟨.inr ?_, .inr ?_, .inl ?_⟩, rfl⟩
    · rw [hget (by decide) (fields_head base), Json.str_eq_iff.mp heqHead]
    · rw [hget (by decide) (fields_nonce base), hbuilt.nonce]
    · intro t text htext
      rw [replyOf, hget (by decide) (fields_replies base)] at htext
      exact replyIn_of_eq heqReplies htext
    · rw [hget (by decide) (fields_threads base)]
      exact heqThreads
    · rw [hget (by decide) (fields_replies base)]
      exact heqReplies
    · exact hget (by decide) (fields_progress base hbuilt.progress)

end Remediation

/-! ## What an attempt leaves -/

theorem keepsCounters_drop (payload : HandoffPayload) : KeepsCounters payload payload.drop :=
  ⟨.inr rfl, rfl⟩

theorem mem_retryableIds {result : ReplyResult} {remaining : List Text} {t : Text}
    (h : t ∈ retryableIds result remaining) : t ∈ remaining := by
  unfold retryableIds at h
  split at h
  · next hgiven => exact List.contains_iff_mem.mp (List.all_eq_true.mp hgiven.2 t h)
  · split at h
    · exact h
    · exact absurd h List.not_mem_nil

section Attempt

variable {raw : Json} {h : ReplyHandoff} {payload : HandoffPayload}
  {prNumber issueNumber : Option Nat}

/-- A result is consumed. -/
theorem left_consume {result : ReplyResult} {calls : List HandoffCall}
    (hread : readHandoff py floats codec prNumber issueNumber raw = some h)
    (hflag : flag raw "reconciliation_only" = false)
    (hsure : result.outcomeUnknown = false → ∀ call ∈ calls, call.unsure = false)
    (hreplied : calls.flatMap HandoffCall.replied = result.repliedThreadIds)
    (hreports : ∀ progress, result.progress = some progress → Reports calls progress) :
    Left py raw payload
      ⟨(consumeReplyPostResult py floats codec payload result h raw).1,
        (consumeReplyPostResult py floats codec payload result h raw).2, calls⟩ := by
  have hbuilt : isRemediation raw = false → Built py (raw.field "head_sha") (raw.field "threads")
      (raw.field "replies") (raw.field "batch_nonce") none h := by
    intro hordinary
    rw [readHandoff, if_neg (by rw [hordinary]; exact Bool.false_ne_true)] at hread
    exact built hread
  simp only [consumeReplyPostResult]
  split
  · exact .dropped rfl (.inl (keepsCounters_drop payload)) (.inr (.inr (.inl rfl)))
  · next hunknown =>
    have hsure := hsure (Bool.eq_false_iff.mpr hunknown)
    split
    · exact .dropped rfl (.inl (keepsCounters_drop payload)) (.inl rfl)
    · split
      · split
        · exact .kept (.inr rfl) hsure nofun
        · next hnothing =>
          simp only [not_or, not_not] at hnothing
          have hunsent : calls.flatMap HandoffCall.replied = [] := by
            rw [hreplied]
            exact (List.dedup_eq_nil _).mp hnothing.1
          split
          · next htaken => exact .waits htaken hsure hunsent
          · exact .dropped rfl (.inl (keepsCounters_drop payload)) (.inr (.inl rfl))
      · split
        · next progress _ hprogress =>
          split
          · exact .dropped rfl (.inl ⟨.inl rfl, rfl⟩) (.inr (.inr (.inr rfl)))
          · next replacement hreplacement =>
            split at hreplacement
            · next hraw =>
              obtain ⟨hbatch, hwhole, hobject⟩ := whole_of_successor hraw hread hreplacement
              exact .replaced rfl hobject ⟨rfl, rfl⟩ hsure hflag
                ⟨hbatch, .inl ⟨progress, hreports progress hprogress, hwhole⟩⟩
            · next hraw =>
              obtain ⟨h', hh', rfl⟩ := Option.map_eq_some_iff.mp hreplacement
              obtain ⟨hbatch, hwhole⟩ :=
                whole_of_built (hbuilt (Bool.eq_false_iff.mpr hraw)) (built hh')
              exact .replaced rfl rfl ⟨rfl, rfl⟩ hsure hflag
                ⟨hbatch, .inl ⟨progress, hreports progress hprogress, hwhole⟩⟩
        · split
          · exact .dropped rfl (.inl (keepsCounters_drop payload)) (.inr (.inl rfl))
          · split
            · exact .kept (.inr rfl) hsure nofun
            · split
              · next hraw =>
                split
                · exact .kept (.inr rfl) hsure nofun
                · next hnothing =>
                  have hunsent : calls.flatMap HandoffCall.replied = [] := by
                    rw [hreplied]
                    exact (List.dedup_eq_nil _).mp (not_not.mp hnothing)
                  refine .replaced rfl rfl ⟨rfl, rfl⟩ hsure hflag
                    ⟨sameBatch_rearmed (Bool.and_eq_true_iff.mp hraw).1, .inr ?_⟩
                  rw [hunsent]
                  exact ⟨fun _ _ => List.not_mem_nil, fun _ _ _ => List.not_mem_nil⟩
              · next hraw =>
                split
                · exact .kept (.inr rfl) hsure nofun
                · next h' hh' =>
                  have hids : ∀ t ∈ retryableIds result ((h.replies.map Prod.fst).filter
                      fun id => !result.repliedThreadIds.dedup.contains id),
                      t ∉ calls.flatMap HandoffCall.replied := by
                    intro t ht
                    have hleft := (List.mem_filter.mp (mem_retryableIds ht)).2
                    rw [hreplied]
                    simpa using hleft
                  obtain ⟨hbatch, hunsent⟩ :=
                    unsent_of_remaining (hbuilt (Bool.eq_false_iff.mpr hraw)) hids hh'
                  exact .replaced rfl rfl ⟨rfl, rfl⟩ hsure hflag ⟨hbatch, .inr hunsent⟩

/-- An exception is handled. -/
theorem left_failed {e : HostException} {calls : List HandoffCall}
    (hsure : e.preDispatchRetry = true → ∀ call ∈ calls, call.unsure = false)
    (hunsent : calls.flatMap HandoffCall.replied = []) :
    Left py raw payload (failed payload e calls) := by
  unfold failed
  split
  · next hretry => exact .kept (.inl rfl) (hsure hretry) fun _ => hunsent
  · exact .dropped rfl (.inl (keepsCounters_drop payload)) (.inr (.inr (.inl rfl)))

theorem reconciledStatus_cases (result : ReplyResult) :
    reconciledStatus result = .completed ∨ reconciledStatus result = .stale
      ∨ reconciledStatus result = .blocked ∨ reconciledStatus result = .invalid := by
  unfold reconciledStatus
  split
  · exact .inr (.inr (.inl rfl))
  · split
    · exact .inl rfl
    · exact .inr (.inr (.inl rfl))

/-- A state is classified: nothing changes but that a retry may be taken. -/
theorem classifyHandoffPrState_cases (state : Json) (headSha : Text) (payload : HandoffPayload) :
    (classifyHandoffPrState state headSha payload).2 = payload ∧
        (classifyHandoffPrState state headSha payload).1 ≠ .visibilityWait ∨
      takeVisibilityRetry payload = some (classifyHandoffPrState state headSha payload).2 ∧
        (classifyHandoffPrState state headSha payload).1 = .visibilityWait := by
  unfold classifyHandoffPrState
  split
  · exact .inl ⟨rfl, nofun⟩
  · split
    · exact .inl ⟨rfl, nofun⟩
    · split
      · cases htaken : takeVisibilityRetry payload with
        | none => exact .inl ⟨rfl, nofun⟩
        | some taken => exact .inr ⟨rfl, rfl⟩
      · exact .inl ⟨rfl, nofun⟩

theorem left_deliver (adapter : HandoffAdapter) (n : Nat) (progress : Option ReplyProgress)
    (hread : readHandoff py floats codec prNumber issueNumber raw = some h) :
    Left py raw payload (deliver py floats codec adapter n raw h progress payload) := by
  unfold deliver
  split
  · next e hstate =>
    refine left_failed ?_ rfl
    intro hretry call hcall
    obtain rfl := List.mem_singleton.mp hcall
    simp [HandoffCall.unsure, hretry]
  · next state hstate =>
    have hcases := classifyHandoffPrState_cases state h.headSha payload
    dsimp only
    split
    · next houtcome =>
      rcases hcases with ⟨hsame, _⟩ | ⟨_, hwait⟩
      · rw [hsame]
        refine .kept (.inl rfl) ?_ fun _ => rfl
        intro call hcall
        obtain rfl := List.mem_singleton.mp hcall
        rfl
      · rw [hwait] at houtcome
        cases houtcome
    · next houtcome =>
      rcases hcases with ⟨_, hwait⟩ | ⟨htaken, _⟩
      · exact absurd houtcome hwait
      · refine .waits htaken ?_ rfl
        intro call hcall
        obtain rfl := List.mem_singleton.mp hcall
        rfl
    · next houtcome =>
      rcases hcases with ⟨hsame, _⟩ | ⟨_, hwait⟩
      · rw [hsame]
        exact .dropped rfl (.inl (keepsCounters_drop payload)) (.inr (.inl rfl))
      · rw [hwait] at houtcome
        cases houtcome
    · next houtcome =>
      have hsame : (classifyHandoffPrState state h.headSha payload).2 = payload := by
        rcases hcases with ⟨hsame, _⟩ | ⟨_, hwait⟩
        · exact hsame
        · rw [hwait] at houtcome
          cases houtcome
      rw [hsame]
      split
      · next hflag =>
        split
        · next e hanswer =>
          refine left_failed ?_ (by rw [hanswer]; rfl)
          intro hretry call hcall
          rcases List.mem_cons.mp hcall with rfl | hcall
          · rfl
          · obtain rfl := List.mem_singleton.mp hcall
            rw [hanswer]
            simp [HandoffCall.unsure, hretry]
        · next result hanswer =>
          exact .dropped rfl (.inl (keepsCounters_drop payload)) (reconciledStatus_cases result)
      · next hflag =>
        split
        · next e hanswer =>
          refine left_failed ?_ (by rw [hanswer]; rfl)
          intro hretry call hcall
          rcases List.mem_cons.mp hcall with rfl | hcall
          · rfl
          · obtain rfl := List.mem_singleton.mp hcall
            rw [hanswer]
            simp [HandoffCall.unsure, hretry]
        · next result hanswer =>
          refine left_consume hread (Bool.eq_false_iff.mpr hflag) ?_ ?_ ?_
          · intro hknown call hcall
            rcases List.mem_cons.mp hcall with rfl | hcall
            · rfl
            · obtain rfl := List.mem_singleton.mp hcall
              rw [hanswer]
              exact hknown
          · rw [hanswer]
            exact List.append_nil _
          · intro progress' hprogress
            rw [hanswer]
            exact ⟨_, result, List.mem_cons_of_mem _ List.mem_cons_self, hprogress⟩

end Attempt

/-- An attempt finds no handoff, or leaves what `Left` says of the one it found. -/
theorem left_retryPending (py : PyText) (floats : JsonText.FloatText) (codec : ReviewInputCodec)
    (payload : HandoffPayload) (prNumber issueNumber : Option Nat) (adapter : HandoffAdapter) :
    ((payload.handoff = none ∨ payload.handoff = some .null) ∧
        retryPendingImplementationReplyHandoff py floats codec payload prNumber issueNumber adapter
          = ⟨.none, payload, []⟩) ∨
      ∃ raw, payload.handoff = some raw ∧ Left py raw payload
        (retryPendingImplementationReplyHandoff py floats codec payload prNumber issueNumber
          adapter) := by
  unfold retryPendingImplementationReplyHandoff
  split
  · next hnone => exact .inl ⟨.inl hnone, rfl⟩
  · next hnull => exact .inl ⟨.inr hnull, rfl⟩
  · next raw hraw hpending =>
    refine .inr ⟨raw, hpending, ?_⟩
    split
    · next h n progress _ hread => exact left_deliver adapter n progress hread
    · exact .kept (.inr rfl) (fun call hcall => absurd hcall List.not_mem_nil) nofun

/-- A handoff that is to be reconciled is not posted. -/
theorem not_isPost_deliver {raw : Json} {h : ReplyHandoff} {payload : HandoffPayload}
    {adapter : HandoffAdapter} {n : Nat} {progress : Option ReplyProgress}
    (hflag : flag raw "reconciliation_only" = true) :
    ∀ call ∈ (deliver py floats codec adapter n raw h progress payload).calls,
      call.isPost = false := by
  have hfailed : ∀ {payload : HandoffPayload} {e : HostException} {calls : List HandoffCall},
      (failed payload e calls).calls = calls := by
    intro payload e calls
    unfold failed
    split
    · rfl
    · rfl
  unfold deliver
  split
  · rw [hfailed]
    exact List.forall_mem_singleton.mpr rfl
  · dsimp only
    split
    · exact List.forall_mem_singleton.mpr rfl
    · exact List.forall_mem_singleton.mpr rfl
    · exact List.forall_mem_singleton.mpr rfl
    · rw [if_pos hflag]
      split
      · rw [hfailed]
        exact List.forall_mem_cons.mpr ⟨rfl, List.forall_mem_singleton.mpr rfl⟩
      · exact List.forall_mem_cons.mpr ⟨rfl, List.forall_mem_singleton.mpr rfl⟩

theorem takeVisibilityRetry_some {payload taken : HandoffPayload}
    (h : takeVisibilityRetry payload = some taken) :
    ∃ n : Int, 0 ≤ n ∧ n < implementationReplyHandoffVisibilityRetryCap
      ∧ payload.visibilityRetries.getD (.int 0) = .int n
      ∧ taken = { payload with
        visibilityRetries := some (.int (n + 1)), retryDelay := some (2 ^ n.toNat) } := by
  unfold takeVisibilityRetry at h
  split at h
  · next n hn =>
    split at h
    · cases h
    · next hrange =>
      obtain ⟨hlow, hhigh⟩ := not_or.mp hrange
      exact ⟨n, not_lt.mp hlow, not_le.mp hhigh, hn, (Option.some.inj h).symm⟩
  · cases h

/-! ## Runs of attempts -/

/-- The arguments of an attempt on a payload. -/
structure Attempt where
  prNumber : Option Nat
  issueNumber : Option Nat
  adapter : HandoffAdapter

/-- Attempts one after the other. -/
def attempts (py : PyText) (floats : JsonText.FloatText) (codec : ReviewInputCodec) :
    List Attempt → HandoffPayload → List Attempted
  | [], _ => []
  | attempt :: rest, payload =>
      let attempted := retryPendingImplementationReplyHandoff py floats codec payload
        attempt.prNumber attempt.issueNumber attempt.adapter
      attempted :: attempts py floats codec rest attempted.payload

/-- The visibility retries that a payload has left. -/
def waitsLeft (payload : HandoffPayload) : Nat :=
  match payload.handoff, payload.visibilityRetries.getD (.int 0) with
  | some _, .int n =>
      if n < 0 then 0 else (implementationReplyHandoffVisibilityRetryCap - n).toNat
  | _, _ => 0

theorem waitsLeft_le (payload : HandoffPayload) : waitsLeft payload ≤ 2 := by
  unfold waitsLeft
  split
  · next n _ _ =>
    split
    · exact Nat.zero_le 2
    · unfold implementationReplyHandoffVisibilityRetryCap
      omega
  · exact Nat.zero_le 2

theorem waitsLeft_of_none {payload : HandoffPayload} (h : payload.handoff = none) :
    waitsLeft payload = 0 := by
  unfold waitsLeft
  rw [h]

/-- A retry that is taken is one less. -/
theorem waitsLeft_taken {payload taken : HandoffPayload} {raw : Json}
    (hpending : payload.handoff = some raw) (h : takeVisibilityRetry payload = some taken) :
    waitsLeft taken + 1 = waitsLeft payload := by
  obtain ⟨n, hlow, hhigh, hn, rfl⟩ := takeVisibilityRetry_some h
  simp only [waitsLeft, hpending, hn, Option.getD_some]
  rw [if_neg (by omega), if_neg (by omega)]
  unfold implementationReplyHandoffVisibilityRetryCap at hhigh ⊢
  omega

theorem Left.waitsLeft_le {raw : Json} {payload : HandoffPayload} {a : Attempted}
    (h : Left py raw payload a) (hpending : payload.handoff = some raw) :
    waitsLeft a.payload + (if a.status = .visibilityWait then 1 else 0) ≤ waitsLeft payload := by
  cases h with
  | dropped hhandoff _ hstatus =>
      rw [waitsLeft_of_none hhandoff, if_neg]
      · exact Nat.zero_le _
      · rcases hstatus with rfl | rfl | rfl | rfl
        all_goals nofun
  | kept hstatus _ _ =>
      rw [if_neg]
      · exact Nat.le_refl _
      · rcases hstatus with rfl | rfl
        all_goals nofun
  | waits htaken _ _ =>
      rw [if_pos rfl]
      exact Nat.le_of_eq (waitsLeft_taken hpending htaken)
  | replaced hhandoff _ hcounters _ _ _ =>
      rw [if_neg nofun, Nat.add_zero, waitsLeft, waitsLeft, hhandoff, hpending, hcounters.1]
      cases payload.visibilityRetries.getD (.int 0) with
      | int n => exact Nat.le_refl _
      | _ => exact Nat.le_refl _

/-- An attempt does not add a retry, and one that waits takes one. -/
theorem waitsLeft_attempt (py : PyText) (floats : JsonText.FloatText) (codec : ReviewInputCodec)
    (payload : HandoffPayload) (attempt : Attempt) :
    waitsLeft (retryPendingImplementationReplyHandoff py floats codec payload attempt.prNumber
        attempt.issueNumber attempt.adapter).payload
      + (if (retryPendingImplementationReplyHandoff py floats codec payload attempt.prNumber
          attempt.issueNumber attempt.adapter).status = .visibilityWait then 1 else 0)
      ≤ waitsLeft payload := by
  rcases left_retryPending py floats codec payload attempt.prNumber attempt.issueNumber
      attempt.adapter with ⟨_, hsame⟩ | ⟨raw, hpending, hleft⟩
  · rw [hsame]
    exact Nat.le_refl _
  · exact hleft.waitsLeft_le hpending

/-- Over any run of attempts, the retries stay within the cap. -/
theorem count_visibilityWait_le (py : PyText) (floats : JsonText.FloatText)
    (codec : ReviewInputCodec) (run : List Attempt) (payload : HandoffPayload) :
    ((attempts py floats codec run payload).map Attempted.status).count .visibilityWait
      ≤ waitsLeft payload := by
  induction run generalizing payload with
  | nil => exact Nat.zero_le _
  | cons attempt run ih =>
      have hstep := waitsLeft_attempt py floats codec payload attempt
      have hrest := ih (retryPendingImplementationReplyHandoff py floats codec payload
        attempt.prNumber attempt.issueNumber attempt.adapter).payload
      rw [attempts, List.map_cons, List.count_cons]
      simp only [beq_iff_eq]
      omega

/-- The pending handoff, where there is one, is to be reconciled. -/
def Reconciling (payload : HandoffPayload) : Prop :=
  ∀ raw, payload.handoff = some raw → flag raw "reconciliation_only" = true

theorem Left.reconciling {raw : Json} {payload : HandoffPayload} {a : Attempted}
    (h : Left py raw payload a) (hpending : payload.handoff = some raw)
    (hreconciling : Reconciling payload) : Reconciling a.payload := by
  cases h with
  | dropped hhandoff _ _ =>
      intro raw' hraw'
      rw [hhandoff] at hraw'
      cases hraw'
  | kept _ _ _ => exact hreconciling
  | waits htaken _ _ =>
      obtain ⟨n, _, _, _, rfl⟩ := takeVisibilityRetry_some htaken
      exact hreconciling
  | replaced _ _ _ _ hposted _ =>
      rw [hreconciling raw hpending] at hposted
      cases hposted

theorem not_isPost_attempts (run : List Attempt) {payload : HandoffPayload}
    (h : Reconciling payload) :
    ∀ attempted ∈ attempts py floats codec run payload, ∀ call ∈ attempted.calls,
      call.isPost = false := by
  induction run generalizing payload with
  | nil => exact fun attempted hmem => absurd hmem List.not_mem_nil
  | cons attempt run ih =>
      rw [attempts, List.forall_mem_cons]
      refine ⟨?_, ih ?_⟩
      · unfold retryPendingImplementationReplyHandoff
        split
        · exact fun call hcall => absurd hcall List.not_mem_nil
        · exact fun call hcall => absurd hcall List.not_mem_nil
        · next raw _ hpending =>
          split
          · exact not_isPost_deliver (h raw hpending)
          · exact fun call hcall => absurd hcall List.not_mem_nil
      · rcases left_retryPending py floats codec payload attempt.prNumber
            attempt.issueNumber attempt.adapter with ⟨_, hsame⟩ | ⟨raw, hpending, hleft⟩
        · rw [hsame]
          exact h
        · exact hleft.reconciling hpending h

/-! ## The receipt -/

/-- The counter is a natural number, and the delay is not negative. -/
def CountersOk (payload : HandoffPayload) : Prop :=
  (∃ n : Int, 0 ≤ n ∧ counterInt payload.visibilityRetries = .ok n)
    ∧ ∀ d, payload.retryDelay = some d → 0 ≤ d

theorem CountersOk.kept {payload payload' : HandoffPayload} (h : CountersOk payload)
    (hkept : KeepsCounters payload payload') : CountersOk payload' := by
  obtain ⟨hcounter, hdelay⟩ := hkept
  refine ⟨?_, by rw [hdelay]; exact h.2⟩
  rcases hcounter with hsame | hnone
  · rw [hsame]
    exact h.1
  · rw [hnone]
    exact ⟨0, Int.le_refl 0, rfl⟩

theorem CountersOk.taken {payload taken : HandoffPayload}
    (h : takeVisibilityRetry payload = some taken) : CountersOk taken := by
  obtain ⟨n, hlow, _, _, rfl⟩ := takeVisibilityRetry_some h
  refine ⟨⟨n + 1, by omega, rfl⟩, ?_⟩
  intro d hd
  obtain rfl := Option.some.inj hd
  exact pow_nonneg zero_le_two _

theorem Left.retains {raw : Json} {payload : HandoffPayload} {a : Attempted}
    (h : Left py raw payload a) (hpending : payload.handoff = some raw)
    (hstatus : a.status = .retry ∨ a.status = .visibilityWait) :
    ∃ remaining, a.payload.handoff = some remaining ∧ Retains py raw remaining a.calls := by
  have hsame : ∀ {calls : List HandoffCall}, calls.flatMap HandoffCall.replied = [] →
      Retains py raw raw calls := by
    intro calls hunsent
    refine ⟨⟨rfl, rfl, fun _ _ htext => htext⟩, .inr ?_⟩
    rw [hunsent]
    exact ⟨fun _ _ => List.not_mem_nil, fun _ _ _ => List.not_mem_nil⟩
  cases h with
  | dropped _ _ hend =>
      rcases hend with rfl | rfl | rfl | rfl
      all_goals
        rcases hstatus with hstatus | hstatus
        all_goals cases hstatus
  | kept hkept _ hunsent =>
      rcases hkept with rfl | rfl
      · exact ⟨raw, hpending, hsame (hunsent rfl)⟩
      · rcases hstatus with hstatus | hstatus
        all_goals cases hstatus
  | waits htaken _ hunsent =>
      obtain ⟨_, _, _, _, rfl⟩ := takeVisibilityRetry_some htaken
      exact ⟨raw, hpending, hsame hunsent⟩
  | replaced hhandoff _ _ _ _ hretains => exact ⟨_, hhandoff, hretains⟩

theorem Left.dropped_of_unsure {raw : Json} {payload : HandoffPayload} {a : Attempted}
    (h : Left py raw payload a) (hunsure : ∃ call ∈ a.calls, call.unsure = true) :
    a.payload.handoff = none := by
  obtain ⟨call, hcall, hunsure⟩ := hunsure
  have hfalse : ¬ ∀ call ∈ a.calls, call.unsure = false := by
    intro hsure
    rw [hsure call hcall] at hunsure
    cases hunsure
  cases h with
  | dropped hhandoff _ _ => exact hhandoff
  | kept _ hsure _ => exact absurd hsure hfalse
  | waits _ hsure _ => exact absurd hsure hfalse
  | replaced _ _ _ hsure _ _ => exact absurd hsure hfalse

theorem Left.dropped_of_terminal {raw : Json} {payload : HandoffPayload} {a : Attempted}
    (h : Left py raw payload a)
    (hterminal : a.status = .completed ∨ a.status = .stale ∨ a.status = .blocked) :
    a.payload.handoff = none := by
  cases h with
  | dropped hhandoff _ _ => exact hhandoff
  | kept hstatus _ _ =>
      rcases hstatus with rfl | rfl
      all_goals
        rcases hterminal with hterminal | hterminal | hterminal
        all_goals cases hterminal
  | waits _ _ _ =>
      rcases hterminal with hterminal | hterminal | hterminal
      all_goals cases hterminal
  | replaced _ _ _ _ _ _ =>
      rcases hterminal with hterminal | hterminal | hterminal
      all_goals cases hterminal

/-- What a payload is after an attempt: countable, and an object where something
is left. -/
theorem left_spec {raw : Json} {payload : HandoffPayload} {a : Attempted}
    (h : Left py raw payload a) (hpending : payload.handoff = some raw)
    (hraw : raw.asObj?.isSome = true) (hcounters : CountersOk payload) :
    CountersOk a.payload
      ∧ ∀ remaining, a.payload.handoff = some remaining → remaining.asObj?.isSome = true := by
  cases h with
  | dropped hhandoff hkept _ =>
      refine ⟨?_, ?_⟩
      · rcases hkept with hkept | ⟨taken, htaken, hkept⟩
        · exact hcounters.kept hkept
        · exact (CountersOk.taken htaken).kept hkept
      · intro remaining hremaining
        rw [hhandoff] at hremaining
        cases hremaining
  | kept _ _ _ =>
      refine ⟨hcounters, ?_⟩
      intro remaining hremaining
      rw [hpending] at hremaining
      exact Option.some.inj hremaining ▸ hraw
  | waits htaken _ _ =>
      refine ⟨CountersOk.taken htaken, ?_⟩
      obtain ⟨_, _, _, _, rfl⟩ := takeVisibilityRetry_some htaken
      intro remaining hremaining
      exact Option.some.inj (hpending.symm.trans hremaining) ▸ hraw
  | replaced hhandoff hobject hsame _ _ _ =>
      refine ⟨hcounters.kept ⟨.inl hsame.1, hsame.2⟩, ?_⟩
      intro remaining hremaining
      exact Option.some.inj (hhandoff.symm.trans hremaining) ▸ hobject

theorem receipt_ok {r : ReplyHandoffAttempted} (hstatus : r.status ≠ .none)
    (hobject : ∀ remaining, r.remainingHandoff = some remaining →
      remaining.value.asObj?.isSome = true)
    (hterminal : r.status = .completed ∨ r.status = .stale ∨ r.status = .blocked →
      r.remainingHandoff = none)
    (hretries : 0 ≤ r.visibilityRetries) (hdelay : ∀ d, r.retryDelay = some d → 0 ≤ d) :
    r.postInit = .ok () := by
  simp only [ReplyHandoffAttempted.postInit, check_bind_ok, raiseIf_ok]
  refine ⟨hstatus, ?_, ?_, not_lt.mpr hretries, ?_⟩
  · intro hany
    obtain ⟨remaining, hremaining, hnone⟩ := (Option.any_eq_true _ _).mp hany
    rw [Option.isNone_iff_eq_none] at hnone
    have hsome := hobject remaining hremaining
    rw [hnone] at hsome
    cases hsome
  · rintro ⟨hend, hsome⟩
    rw [hterminal hend] at hsome
    cases hsome
  · intro hany
    obtain ⟨d, hd, hnegative⟩ := (Option.any_eq_true _ _).mp hany
    exact absurd (hdelay d hd) (not_le.mpr (of_decide_eq_true hnegative))

/-- An attempt raises for a handoff that is no JSON only, never for its receipt. -/
theorem attemptReplyHandoff_error {request : DeliverReplyHandoffRequest} {adapter : HandoffAdapter}
    {e : AttemptError} (h : attemptReplyHandoff py floats codec request adapter = .error e) :
    e = .notJson := by
  have hcounters : CountersOk request.payload :=
    ⟨⟨request.visibilityRetries, Int.natCast_nonneg _, rfl⟩, nofun⟩
  unfold attemptReplyHandoff at h
  dsimp only at h
  have hspec := left_retryPending py floats codec request.payload (some request.prNumber)
    (some request.issueNumber) adapter
  generalize retryPendingImplementationReplyHandoff py floats codec request.payload
    (some request.prNumber) (some request.issueNumber) adapter = a at h hspec
  obtain ⟨⟨⟨n, hn, hcounter⟩, hdelay⟩, hobject, hterminal⟩ :
      CountersOk a.payload
      ∧ (∀ remaining, a.payload.handoff = some remaining → remaining.asObj?.isSome = true)
      ∧ (a.status = .completed ∨ a.status = .stale ∨ a.status = .blocked →
        a.payload.handoff = none) := by
    have hraw := request.object
    rcases hspec with ⟨hnone | hnull, _⟩ | ⟨raw, hpending, hleft⟩
    · cases hnone
    · rw [Option.some.inj hnull] at hraw
      cases hraw
    · obtain ⟨hcountable, hobject⟩ :=
        left_spec hleft hpending (Option.some.inj hpending ▸ hraw) hcounters
      exact ⟨hcountable, hobject, hleft.dropped_of_terminal⟩
  have hstatus : (if a.status = .none then HandoffStatus.invalid else a.status) ≠ .none := by
    split
    · nofun
    · assumption
  have hend : ∀ {status : HandoffStatus}, status ≠ .invalid →
      (if a.status = .none then HandoffStatus.invalid else a.status) = status →
      a.status = status := by
    intro status hne hif
    split at hif
    · exact absurd hif.symm hne
    · exact hif
  rw [hcounter] at h
  cases hhandoff : a.payload.handoff with
  | none =>
      rw [hhandoff] at h
      have hok := Checked.make_of (receipt_ok (r := ⟨request, _, none, n, a.payload.retryDelay⟩)
        hstatus nofun (fun _ => rfl) hn hdelay)
      exact absurd (hok.symm.trans h) nofun
  | some remaining =>
      rw [hhandoff] at h
      by_cases hfinite : isFinite remaining = true
      · have hsnapshot : FrozenJson.snapshot remaining = .ok ⟨remaining, hfinite⟩ :=
          dif_pos hfinite
        dsimp only at h
        rw [hsnapshot] at h
        have hok := Checked.make_of
          (receipt_ok (r := ⟨request, _, some ⟨remaining, hfinite⟩, n, a.payload.retryDelay⟩)
            hstatus ?_ ?_ hn hdelay)
        · exact absurd (hok.symm.trans h) nofun
        · intro frozen hfrozen
          obtain rfl := Option.some.inj hfrozen
          exact hobject remaining hhandoff
        · rintro (hif | hif | hif)
          · exact absurd (hhandoff.symm.trans (hterminal (.inl (hend nofun hif)))) nofun
          · exact absurd (hhandoff.symm.trans (hterminal (.inr (.inl (hend nofun hif))))) nofun
          · exact absurd (hhandoff.symm.trans (hterminal (.inr (.inr (hend nofun hif))))) nofun
      · have hsnapshot : FrozenJson.snapshot remaining = .error .notJson := dif_neg hfinite
        dsimp only at h
        rw [hsnapshot] at h
        cases h
        rfl

/-! ## The contract -/

/-- What a delivery promises to whoever attempts it again. -/
structure DeliveryContract (py : PyText) (floats : JsonText.FloatText)
    (codec : ReviewInputCodec) : Prop where
  /-- An outcome that is open leaves nothing pending. -/
  unsure : ∀ payload prNumber issueNumber adapter attempted,
    retryPendingImplementationReplyHandoff py floats codec payload prNumber issueNumber adapter
      = attempted →
    (∃ call ∈ attempted.calls, call.unsure = true) → attempted.payload.handoff = none
  /-- What is left to retry is of the batch, and whole or unsent. -/
  retained : ∀ payload prNumber issueNumber adapter attempted,
    retryPendingImplementationReplyHandoff py floats codec payload prNumber issueNumber adapter
      = attempted →
    attempted.status = .retry ∨ attempted.status = .visibilityWait →
    ∃ raw remaining, payload.handoff = some raw ∧ attempted.payload.handoff = some remaining
      ∧ Retains py raw remaining attempted.calls
  /-- A terminal status leaves nothing pending. -/
  terminal : ∀ payload prNumber issueNumber adapter attempted,
    retryPendingImplementationReplyHandoff py floats codec payload prNumber issueNumber adapter
      = attempted →
    attempted.status = .completed ∨ attempted.status = .stale ∨ attempted.status = .blocked →
    attempted.payload.handoff = none
  /-- The receipt of an attempt is always valid. -/
  receipt : ∀ request adapter e, attemptReplyHandoff py floats codec request adapter = .error e →
    e = .notJson
  /-- A handoff that is to be reconciled is never posted, in any run. -/
  reconciled : ∀ run payload, Reconciling payload →
    ∀ attempted ∈ attempts py floats codec run payload, ∀ call ∈ attempted.calls,
      call.isPost = false
  /-- No run takes more visibility retries than the cap. -/
  visibility : ∀ run payload,
    (((attempts py floats codec run payload).map Attempted.status).count .visibilityWait : Int)
      ≤ implementationReplyHandoffVisibilityRetryCap

/-- A delivery retains only what was not sent. -/
theorem deliveryContract (py : PyText) (floats : JsonText.FloatText) (codec : ReviewInputCodec) :
    DeliveryContract py floats codec where
  unsure := by
    rintro payload prNumber issueNumber adapter _ rfl hunsure
    rcases left_retryPending py floats codec payload prNumber issueNumber adapter with
      ⟨_, hsame⟩ | ⟨raw, _, hleft⟩
    · rw [hsame] at hunsure
      obtain ⟨call, hcall, _⟩ := hunsure
      exact absurd hcall List.not_mem_nil
    · exact hleft.dropped_of_unsure hunsure
  retained := by
    rintro payload prNumber issueNumber adapter _ rfl hstatus
    rcases left_retryPending py floats codec payload prNumber issueNumber adapter with
      ⟨_, hsame⟩ | ⟨raw, hpending, hleft⟩
    · rw [hsame] at hstatus
      rcases hstatus with hstatus | hstatus
      all_goals cases hstatus
    · obtain ⟨remaining, hremaining, hretains⟩ := hleft.retains hpending hstatus
      exact ⟨raw, remaining, hpending, hremaining, hretains⟩
  terminal := by
    rintro payload prNumber issueNumber adapter _ rfl hterminal
    rcases left_retryPending py floats codec payload prNumber issueNumber adapter with
      ⟨_, hsame⟩ | ⟨raw, _, hleft⟩
    · rw [hsame] at hterminal
      rcases hterminal with hterminal | hterminal | hterminal
      all_goals cases hterminal
    · exact hleft.dropped_of_terminal hterminal
  receipt _ _ _ h := attemptReplyHandoff_error h
  reconciled run _ h := not_isPost_attempts run h
  visibility run payload := by
    have hcount := count_visibilityWait_le py floats codec run payload
    have hcap := waitsLeft_le payload
    unfold implementationReplyHandoffVisibilityRetryCap
    omega

end Hephaestus.Automation.Delivery
