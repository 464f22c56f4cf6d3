import Hephaestus.Automation.ReplyJournal
import Hephaestus.Proofs.AuditReceipts
import Hephaestus.Proofs.ReplyDelivery

/-!
# A journaled batch comes back

An entry is read as the document that was written, with the fields sorted, and
what the reader does then turns on one comparison: its digest against that of the
threads it is given. Equal digests are equal conversations, as far as SHA-256 tells
them apart, and then the threads have the ids the replies are keyed by. They carry
the batch if they are also named by these ids, which the digest says nothing of:
a thread goes by its `thread_id` where it has one.
-/

namespace Hephaestus.Automation.Delivery

open Hephaestus.Lib

variable {py : PyText} {floats : JsonText.FloatText} {digits : DigitTable}

/-! ## The source conversation -/

theorem sourceId_some {value : Json} {id : String} (h : sourceId value = some id) :
    value.field "id" = .str id ∧ Text.strip id.toList ≠ [] := by
  obtain ⟨text, htext, h⟩ := Option.bind_eq_some_iff.mp h
  obtain ⟨_, hguard, h⟩ := Option.bind_eq_some_iff.mp h
  obtain rfl := Option.some.inj h
  exact ⟨asStr?_some htext, (Option.guard_eq_some' _).mp hguard⟩

theorem sourceThread_id {thread : Json} {source : SourceThread}
    (h : sourceThread thread = some source) : sourceId thread = some source.1 := by
  obtain ⟨id, hid, h⟩ := Option.bind_eq_some_iff.mp h
  obtain ⟨comments, _, h⟩ := Option.bind_eq_some_iff.mp h
  obtain ⟨bodies, _, h⟩ := Option.bind_eq_some_iff.mp h
  obtain ⟨_, _, h⟩ := Option.bind_eq_some_iff.mp h
  obtain rfl := Option.some.inj h
  exact hid

theorem ne_nil_of_strip {t : Text} (h : Text.strip t ≠ []) : t ≠ [] := by
  rintro rfl
  exact h rfl

/-- A thread that has a source id is a dictionary with that id. -/
theorem snapshotId_of_source (py : PyText) {thread : Json} {id : String}
    (h : sourceId thread = some id) :
    snapshotId py thread = id.toList ∧ thread.asObj?.isSome = true := by
  obtain ⟨hfield, _⟩ := sourceId_some h
  cases thread with
  | obj fields =>
      refine ⟨?_, rfl⟩
      rw [Json.field, Json.getD] at hfield
      rw [snapshotId]
      cases hget : Json.get? (.obj fields) "id" with
      | none =>
          rw [hget] at hfield
          cases hfield
      | some value =>
          rw [hget, Option.getD_some] at hfield
          rw [hfield]
          rfl
  | _ => cases hfield

/-- The threads of a conversation: their ids are those of the source, and distinct. -/
structure Conversation (py : PyText) (threads : List Json) (source : List SourceThread) : Prop where
  ids : threads.map (snapshotId py) = source.map fun thread => thread.1.toList
  objects : ∀ thread ∈ threads, thread.asObj?.isSome = true
  filled : ∀ thread ∈ source, thread.1.toList ≠ []
  distinct : (source.map Prod.fst).Nodup

theorem conversation (py : PyText) {threads : List Json} {source : List SourceThread}
    (h : sourceThreads (.arr threads) = some source) : Conversation py threads source := by
  have hread : ∀ {threads : List Json} {source : List SourceThread},
      List.Forall₂ (fun thread found => sourceThread thread = some found) threads source →
      threads.map (snapshotId py) = source.map (fun thread => thread.1.toList)
        ∧ (∀ thread ∈ threads, thread.asObj?.isSome = true)
        ∧ ∀ thread ∈ source, thread.1.toList ≠ [] := by
    intro threads source hall
    induction hall with
    | nil => exact ⟨rfl, fun _ hmem => absurd hmem List.not_mem_nil,
        fun _ hmem => absurd hmem List.not_mem_nil⟩
    | cons hthread _ ih =>
        have hid := sourceThread_id hthread
        obtain ⟨hsnapshot, hobject⟩ := snapshotId_of_source py hid
        refine ⟨?_, List.forall_mem_cons.mpr ⟨hobject, ih.2.1⟩,
          List.forall_mem_cons.mpr ⟨ne_nil_of_strip (sourceId_some hid).2, ih.2.2⟩⟩
        rw [List.map_cons, List.map_cons, ih.1, hsnapshot]
  obtain ⟨found, hfound, h⟩ := Option.bind_eq_some_iff.mp h
  obtain ⟨_, hguard, h⟩ := Option.bind_eq_some_iff.mp h
  obtain rfl := Option.some.inj h
  obtain ⟨hids, hobjects, hfilled⟩ := hread (forall₂_of_mapM hfound)
  exact ⟨hids, hobjects, hfilled, (Option.guard_eq_some' _).mp hguard⟩

/-- The conversation of two lists of threads is the same. -/
def SameSource (threads threads' : Json) : Prop :=
  ∃ source source', sourceThreads threads = some source ∧ sourceThreads threads' = some source'
    ∧ source.Perm source'

/-! ## The digest -/

section Text

variable (source : List SourceThread)

theorem plain_sourceJson : JsonText.Plain (sourceJson source) := by
  have hcomments : ∀ comments : List (String × String), JsonText.PlainItems
      (comments.map fun comment => .arr [.str comment.1, .str comment.2]) := by
    intro comments
    induction comments with
    | nil => trivial
    | cons comment comments ih => exact ⟨⟨trivial, trivial, trivial⟩, ih⟩
  unfold sourceJson
  induction source with
  | nil => trivial
  | cons thread source ih => exact ⟨⟨trivial, hcomments thread.2, trivial⟩, ih⟩

theorem sorted_sourceJson : JsonText.sorted (sourceJson source) = sourceJson source := by
  have hcomments : ∀ comments : List (String × String), JsonText.sortedItems
      (comments.map fun comment => .arr [.str comment.1, .str comment.2])
        = comments.map fun comment => .arr [.str comment.1, .str comment.2] := by
    intro comments
    induction comments with
    | nil => rfl
    | cons comment comments ih =>
        rw [List.map_cons, JsonText.sortedItems, ih]
        rfl
  rw [sourceJson, JsonText.sorted]
  congr 1
  induction source with
  | nil => rfl
  | cons thread source ih =>
      rw [List.map_cons, JsonText.sortedItems, ih, JsonText.sorted, JsonText.sortedItems,
        JsonText.sortedItems, JsonText.sorted, JsonText.sorted, hcomments, JsonText.sortedItems]

end Text

theorem sourceJson_injective : Function.Injective sourceJson := by
  have hcomments : Function.Injective fun comments : List (String × String) =>
      comments.map fun comment => Json.arr [.str comment.1, .str comment.2] := by
    refine List.map_injective_iff.mpr ?_
    rintro ⟨id, body⟩ ⟨id', body'⟩ h
    simpa using h
  intro source source' h
  refine List.map_injective_iff.mpr ?_ (Json.arr.inj h)
  rintro ⟨id, comments⟩ ⟨id', comments'⟩ h
  simp only [Json.arr.injEq, List.cons.injEq, Json.str.injEq, and_true] at h
  rw [h.1, hcomments h.2]

/-- What is hashed determines the conversation. -/
theorem perm_of_sourceText {source source' : List SourceThread}
    (h : sourceText floats source = sourceText floats source') : source.Perm source' := by
  have hread : ∀ source, JsonText.loads floats JsonText.keepLast (sourceText floats source)
      = some (sourceJson (JsonText.sortFields source)) := by
    intro source
    rw [sourceText, JsonText.loads_dumps floats (fun _ => JsonText.nodup_keepLast)
      (plain_sourceJson _), sorted_sourceJson]
  have hsorted : JsonText.sortFields source = JsonText.sortFields source' :=
    sourceJson_injective (Option.some.inj ((hread source).symm.trans (h ▸ hread source')))
  exact (JsonText.sortFields_perm source).symm.trans
    (hsorted ▸ JsonText.sortFields_perm source')

/-- Equal digests are those of one conversation. -/
theorem fingerprint_eq_iff {threads threads' : Json} {source : List SourceThread}
    (hsource : sourceThreads threads = some source)
    (hsha : ∀ source', sourceThreads threads' = some source' →
      sha256Text (sourceText floats source) = sha256Text (sourceText floats source') →
      sourceText floats source = sourceText floats source') :
    threadSnapshotFingerprint floats threads' = threadSnapshotFingerprint floats threads
      ↔ SameSource threads threads' := by
  rw [threadSnapshotFingerprint, threadSnapshotFingerprint, hsource, Option.map_some]
  constructor
  · intro h
    obtain ⟨source', hsource', h⟩ := Option.map_eq_some_iff.mp h
    exact ⟨source, source', hsource, hsource', perm_of_sourceText (hsha source' hsource' h.symm)⟩
  · rintro ⟨given, source', hgiven, hsource', hperm⟩
    obtain rfl := Option.some.inj (hsource.symm.trans hgiven)
    have hnd : (source.map Prod.fst).Nodup := by
      obtain ⟨_, _, h⟩ := Option.bind_eq_some_iff.mp hsource
      obtain ⟨_, _, h⟩ := Option.bind_eq_some_iff.mp h
      obtain ⟨_, hguard, h⟩ := Option.bind_eq_some_iff.mp h
      obtain rfl := Option.some.inj h
      exact (Option.guard_eq_some' _).mp hguard
    rw [hsource', Option.map_some, sourceText, sourceText,
      JsonText.sortFields_eq_of_perm hperm hnd]

/-! ## The marker -/

section Marker

variable {prNumber : Int} {head batch : Text} (hpr : 0 < prNumber) (hhead : isFullSha head = true)
  (hbatch : Text.isHexOfLength 32 batch = true)

include hpr hhead hbatch

theorem matchHandoffMarker_handoffMarker (digits : DigitTable) :
    matchHandoffMarker digits (handoffMarker prNumber head batch)
      = some (prNumber.toNat, head, batch) := by
  have hheadRead : ∀ t : Text,
      (head ++ (":batch=".toList ++ t)).takeWhile Text.isLowerHex = head := by
    intro t
    refine JsonText.takeWhile_append_of_head (isLowerHex_of_fullSha hhead) ?_
    intro c hc
    rw [← Option.some.inj hc]
    rfl
  have hbatchRead : (batch ++ " -->".toList).takeWhile Text.isLowerHex = batch := by
    refine JsonText.takeWhile_append_of_head (isLowerHex_of_length hbatch) ?_
    intro c hc
    rw [← Option.some.inj hc]
    rfl
  have hdigits : Nat.toDigits 10 prNumber.toNat ≠ [] := Nat.toDigits_ne_nil
  rw [handoffMarker, decimalInt_of_pos hpr]
  simp only [matchHandoffMarker, List.append_assoc, afterLiteral_append, Option.bind_eq_bind,
    Option.bind_some, digits.takeWhile_isDigit, hdigits, ne_eq, not_false_eq_true, guard_true, List.drop_left,
    hheadRead, hhead, hbatchRead, hbatch, decide_true, Bool.and_true, digits.int_toDigits,
    Option.pure_def]

theorem newline_notMem_handoffMarker : '\n' ∉ handoffMarker prNumber head batch := by
  refine newline_notMem_of_printable ?_
  have hliteral : ∀ t : Text, (t.all fun c => decide (JsonText.isPrintable c = true)) = true →
      ∀ c ∈ t, JsonText.isPrintable c = true := fun _ => Text.forall_mem_of_all
  intro c hc
  rw [handoffMarker] at hc
  rcases List.mem_append.mp hc with hc | hc
  · rcases List.mem_append.mp hc with hc | hc
    · rcases List.mem_append.mp hc with hc | hc
      · exact printable_identity (hliteral _ (by decide)) hpr hhead c hc
      · exact hliteral _ (by decide) c hc
    · exact printable_of_isLowerHex (isLowerHex_of_length hbatch c hc)
  · exact hliteral _ (by decide) c hc

end Marker

theorem journalContent_append (t : Text) :
    journalContent ("<!-- ".toList ++ t ++ " -->".toList) = some t := by
  have hstart : Text.startsWith ("<!-- ".toList ++ t ++ " -->".toList) "<!-- ".toList = true := by
    rw [List.append_assoc]
    exact Text.startsWith_iff.mpr ⟨_, rfl⟩
  have hend : Text.startsWith ("<!-- ".toList ++ t ++ " -->".toList).reverse
      " -->".toList.reverse = true := by
    rw [List.reverse_append]
    exact Text.startsWith_iff.mpr ⟨_, rfl⟩
  rw [journalContent, hstart, hend, commentContent_append]
  rfl

/-! ## Progress -/

/-- A progress that `from_dict` returned. -/
structure SoundProgress (p : ReplyProgress) : Prop where
  phase : ["create_review", "post_replies", "verify_reply", "submit_review",
    "verify_submission"].contains p.phase = true
  pullRequest : p.pullRequestId ≠ []
  ids : ∀ id ∈ p.repliedThreadIds, id ≠ []
  receipts : ∀ receipt ∈ p.receipts, receipt.asObj?.isSome = true
  comment : ∃ text, p.activeCommentId = Option.map (fun s => Json.str (String.ofList s)) text

theorem filledText?_some {value : Json} {text : Text} (h : filledText? value = some text) :
    text ≠ [] := by
  rw [filledText?] at h
  split at h
  · next hfilled =>
      obtain ⟨s, rfl, hne⟩ := isFilled_iff.mp hfilled
      obtain rfl := Option.some.inj h
      intro hnil
      exact hne (String.toList_eq_nil_iff.mp hnil)
  · cases h

theorem filledText?_ofList {text : Text} (h : text ≠ []) :
    filledText? (.str (String.ofList text)) = some text := by
  have hfilled : isFilled (.str (String.ofList text)) = true := by
    refine isFilled_iff.mpr ⟨_, rfl, ?_⟩
    intro hempty
    have hlist := congrArg String.toList hempty
    rw [String.toList_ofList] at hlist
    exact h hlist
  rw [filledText?, if_pos hfilled, Json.asStr?, Option.map_some, String.toList_ofList]

theorem soundProgress {value : Json} {p : ReplyProgress} (h : progressFromDict value = some p) :
    SoundProgress p := by
  obtain ⟨_, _, h⟩ := Option.bind_eq_some_iff.mp h
  obtain ⟨phase, _, h⟩ := Option.bind_eq_some_iff.mp h
  obtain ⟨pullRequest, _, h⟩ := Option.bind_eq_some_iff.mp h
  obtain ⟨_, _, h⟩ := Option.bind_eq_some_iff.mp h
  obtain ⟨receipts, _, h⟩ := Option.bind_eq_some_iff.mp h
  obtain ⟨ids, hids, h⟩ := Option.bind_eq_some_iff.mp h
  obtain ⟨_, hguard, h⟩ := Option.bind_eq_some_iff.mp h
  have hguard := (Option.guard_eq_some' _).mp hguard
  simp only [Bool.and_eq_true, decide_eq_true_eq] at hguard
  obtain rfl := Option.some.inj h
  obtain ⟨⟨⟨⟨⟨hphase, hpull⟩, hreceipts⟩, _⟩, _⟩, _⟩ := hguard
  refine ⟨hphase, ?_, ?_, List.all_eq_true.mp hreceipts, ?_⟩
  · intro hnil
    exact hpull (String.toList_eq_nil_iff.mp hnil)
  · intro id hid
    obtain ⟨item, hitem⟩ := exists_of_forall₂ (forall₂_of_mapM hids) id hid
    exact filledText?_some hitem
  · cases (value.field "active_comment_id").asStr? with
    | none => exact ⟨none, rfl⟩
    | some s => exact ⟨some s.toList, by simp⟩

/-- The progress that is read where one was written: the fields of the receipts
are sorted. -/
def storedProgress (p : ReplyProgress) : ReplyProgress :=
  { p with receipts := JsonText.sortedItems p.receipts }

theorem sortedItems_eq_map (items : List Json) :
    JsonText.sortedItems items = items.map JsonText.sorted := by
  induction items with
  | nil => rfl
  | cons item items ih => rw [JsonText.sortedItems, ih, List.map_cons]

theorem asObj?_sorted {value : Json} (h : value.asObj?.isSome = true) :
    (JsonText.sorted value).asObj?.isSome = true := by
  cases value with
  | obj fields =>
      rw [JsonText.sorted]
      rfl
  | _ => cases h

@[simp] theorem sorted_optionalText (text : Option Text) :
    JsonText.sorted (optionalText text) = optionalText text := by
  cases text with
  | none => rw [optionalText, JsonText.sorted]
  | some text => rw [optionalText, JsonText.sorted]

theorem asStr?_optionalText (text : Option Text) :
    (optionalText text).asStr? = text.map String.ofList := by
  cases text with
  | none => rfl
  | some text => rfl

theorem isOptionalText_optionalText (text : Option Text) :
    isOptionalText (optionalText text) = true := by
  cases text with
  | none => rfl
  | some text => rfl

/-- Progress is read as it was written. -/
theorem progressFromDict_sorted {p : ReplyProgress} (h : SoundProgress p) :
    progressFromDict (JsonText.sorted (progressJson p)) = some (storedProgress p) := by
  obtain ⟨text, hactive⟩ := h.comment
  have hcomment : p.activeCommentId.getD .null = optionalText text := by
    rw [hactive]
    cases text with
    | none => rfl
    | some text => rfl
  have hget : ∀ key value stored, (progressJson p).get? key = some value →
      JsonText.sorted value = stored →
      (JsonText.sorted (progressJson p)).get? key = some stored := by
    rintro key value _ hvalue rfl
    have hnd : ((["phase", "pull_request_id", "pending_review_id", "replied_thread_ids",
        "receipts", "active_thread_id", "active_comment_id"] : List String)).Nodup := by decide
    have hsorted : (JsonText.sorted (progressJson p)).get? key
        = ((progressJson p).get? key).map JsonText.sorted := by
      rw [progressJson]
      refine JsonText.get?_sorted ?_ key
      exact hnd
    rw [hsorted, hvalue, Option.map_some]
  have hids : JsonText.sorted (.arr (p.repliedThreadIds.map fun id => .str (String.ofList id)))
      = .arr (p.repliedThreadIds.map fun id => .str (String.ofList id)) := by
    rw [JsonText.sorted, sortedItems_eq_map, List.map_map]
    rfl
  have htext : ∀ text : String, JsonText.sorted (.str text) = .str text := by
    intro text
    rw [JsonText.sorted]
  have hphaseField := hget "phase" _ _ rfl (htext p.phase)
  have hpullField := hget "pull_request_id" _ _ rfl (htext (String.ofList p.pullRequestId))
  have hpendingField := hget "pending_review_id" _ _ rfl (sorted_optionalText p.pendingReviewId)
  have hidsField := hget "replied_thread_ids" _ _ rfl hids
  have hreceiptsField := hget "receipts" (.arr p.receipts) _ rfl (by rw [JsonText.sorted])
  have hthreadField := hget "active_thread_id" _ _ rfl (sorted_optionalText p.activeThreadId)
  have hcommentField := hget "active_comment_id" _ _ (congrArg some hcomment)
    (sorted_optionalText text)
  have hread : (p.repliedThreadIds.map fun id => Json.str (String.ofList id)).mapM
      (fun id => filledText? id) = some p.repliedThreadIds := by
    rw [List.mapM_map]
    exact (mapM_some (g := id) fun t ht => filledText?_ofList (h.ids t ht)).trans
      (congrArg some (List.map_id _))
  have hguard : (["create_review", "post_replies", "verify_reply", "submit_review",
        "verify_submission"].contains p.phase && decide (String.ofList p.pullRequestId ≠ "")
      && (JsonText.sortedItems p.receipts).all (·.asObj?.isSome)
      && isOptionalText (optionalText p.pendingReviewId)
      && isOptionalText (optionalText p.activeThreadId)
      && isOptionalText (optionalText text)) = true := by
    simp only [h.phase, isOptionalText_optionalText, Bool.and_true, Bool.true_and,
      Bool.and_eq_true, decide_eq_true_eq, List.all_eq_true, sortedItems_eq_map]
    refine ⟨?_, ?_⟩
    · intro hempty
      have hlist := congrArg String.toList hempty
      rw [String.toList_ofList] at hlist
      exact h.pullRequest hlist
    · intro sorted hsorted
      obtain ⟨receipt, hreceipt, rfl⟩ := List.mem_map.mp hsorted
      exact asObj?_sorted (h.receipts receipt hreceipt)
  have htexts : ∀ text : Option Text, (text.map String.ofList).map String.toList = text := by
    intro text
    cases text with
    | none => rfl
    | some text => rw [Option.map_some, Option.map_some, String.toList_ofList]
  obtain ⟨fields, hobject⟩ := Option.isSome_iff_exists.mp
    (asObj?_sorted (show (progressJson p).asObj?.isSome = true from rfl))
  simp only [progressFromDict, hobject, Option.bind_eq_bind, Option.bind_some, Json.field,
    Json.getD, hphaseField, hpullField, hpendingField, hidsField, hreceiptsField, hthreadField,
    hcommentField, Option.getD_some, asStr?_optionalText, htexts]
  simp only [Json.asStr?, Json.asArr?, Option.bind_some, hread, hguard, guard_true]
  rw [String.toList_ofList, Option.map_map, ← show p.activeCommentId = text.map (Json.str ∘ String.ofList) from hactive]
  rfl

/-! ## The handoff -/

/-- A handoff that `implementation_reply_handoff` returned. -/
structure Normal (py : PyText) (h : ReplyHandoff) : Prop where
  head : isFullSha h.headSha = true
  nonce : Text.isHexOfLength 32 h.batchNonce = true
  keys : h.replies.map Prod.fst = h.threads.map (repliedThreadId py)
  filled : ∀ t ∈ h.replies.map Prod.fst, t ≠ []
  distinct : (h.replies.map Prod.fst).Nodup
  ids : ∀ t, t ∈ h.threads.map (snapshotId py) ↔ t ∈ h.replies.map Prod.fst
  admitted : ∀ item ∈ h.replies, ∃ reply : AdmittedReply, reply.text = item.2

theorem normal {headSha threads replies batchNonce : Json} {progress : Option ReplyProgress}
    {reconciliationOnly : Bool} {h : ReplyHandoff}
    (hbuilt : implementationReplyHandoff py headSha threads replies batchNonce progress
      reconciliationOnly = some h) : Normal py h := by
  obtain ⟨head, _, hbuilt⟩ := Option.bind_eq_some_iff.mp hbuilt
  obtain ⟨list, _, hbuilt⟩ := Option.bind_eq_some_iff.mp hbuilt
  obtain ⟨fields, _, hbuilt⟩ := Option.bind_eq_some_iff.mp hbuilt
  obtain ⟨nonce, _, hbuilt⟩ := Option.bind_eq_some_iff.mp hbuilt
  obtain ⟨_, hguard, hbuilt⟩ := Option.bind_eq_some_iff.mp hbuilt
  obtain ⟨normalized, hparse, hbuilt⟩ := Option.bind_eq_some_iff.mp hbuilt
  obtain ⟨_, hsame, hbuilt⟩ := Option.bind_eq_some_iff.mp hbuilt
  obtain rfl := Option.some.inj hbuilt
  have hguard := (Option.guard_eq_some' _).mp hguard
  have hsame := (Option.guard_eq_some' _).mp hsame
  simp only [Bool.and_eq_true] at hguard
  simp only [Bool.and_eq_true, sameSet_iff] at hsame
  obtain ⟨_, _, hparse⟩ := Option.bind_eq_some_iff.mp hparse
  obtain ⟨_, _, hparse⟩ := Option.bind_eq_some_iff.mp hparse
  obtain ⟨_, hknown, hparse⟩ := Option.bind_eq_some_iff.mp hparse
  have hknown := (Option.guard_eq_some' _).mp hknown
  simp only [Bool.and_eq_true, decide_eq_true_eq, List.all_eq_true] at hknown
  have hkeys : normalized.map Prod.fst = list.map (repliedThreadId py) := by
    refine map_fst_of_mapM ?_ hparse
    intro id item hitem
    obtain ⟨reply, _, heq⟩ := Option.bind_eq_some_iff.mp hitem
    obtain rfl := Option.some.inj heq
    rfl
  refine ⟨hguard.1.1, hguard.1.2, hkeys, ?_, ?_, hsame.2, ?_⟩
  · rw [hkeys]
    exact hknown.1.1.1.1.1.2
  · rw [hkeys]
    exact hknown.1.1.1.1.2
  · intro item hitem
    obtain ⟨id, hid⟩ := exists_of_forall₂ (forall₂_of_mapM hparse) item hitem
    obtain ⟨reply, _, heq⟩ := Option.bind_eq_some_iff.mp hid
    obtain rfl := Option.some.inj heq
    exact ⟨reply, rfl⟩

/-- The threads are named by their ids: a `thread_id` is the id of a thread, and of
no other. -/
structure NamedByIds (py : PyText) (threads : List Json) : Prop where
  distinct : (threads.map (repliedThreadId py)).Nodup
  same : ∀ t, t ∈ threads.map (repliedThreadId py) ↔ t ∈ threads.map (snapshotId py)

theorem parseAddressedReply_text (reply : AdmittedReply) :
    parseAddressedReply (some reply.text) = some reply := by
  obtain ⟨text, hstripped, hnonempty, hbounded⟩ := reply
  simp only [parseAddressedReply, hstripped]
  exact dif_pos ⟨List.length_pos_of_ne_nil hnonempty, hbounded⟩

/-- The replies of a handoff as its document holds them. -/
def storedReplies (h : ReplyHandoff) : Dict String Json := JsonText.sortFields (textsJson h.replies)

theorem keys_storedReplies (n : ReplyHandoff) :
    ((storedReplies n).map Prod.fst).Perm ((n.replies.map Prod.fst).map String.ofList) := by
  have hperm := (JsonText.sortFields_perm (textsJson n.replies)).map Prod.fst
  have hkeys : (textsJson n.replies).map Prod.fst = (n.replies.map Prod.fst).map String.ofList := by
    rw [textsJson, List.map_map, List.map_map]
    rfl
  rwa [hkeys] at hperm

theorem mem_storedReplies {n : ReplyHandoff} {t : Text} :
    t ∈ (storedReplies n).map (fun item => item.1.toList) ↔ t ∈ n.replies.map Prod.fst := by
  have hperm := (keys_storedReplies n).map String.toList
  rw [List.map_map, List.map_map] at hperm
  rw [show (fun item : String × Json => item.1.toList) = String.toList ∘ Prod.fst from rfl,
    hperm.mem_iff]
  simp [Function.comp_def]

section Stored

variable {n : ReplyHandoff} (hn : Normal py n)

include hn

theorem Normal.admitted_of_get? {t text : Text} (h : n.replies.get? t = some text) :
    ∃ reply : AdmittedReply, reply.text = text :=
  hn.admitted _ (Dict.mem_of_get? h)

theorem Normal.nodup_stored : ((storedReplies n).map Prod.fst).Nodup := by
  exact (keys_storedReplies n).nodup_iff.mpr (hn.distinct.map fun _ _ => String.ofList_injective)

theorem Normal.get?_stored (t : Text) : Dict.get? (storedReplies n) (String.ofList t)
    = (n.replies.get? t).map fun text => Json.str (String.ofList text) := by
  rw [storedReplies, Dict.get?_of_perm (JsonText.sortFields_perm _) hn.nodup_stored,
    get?_textsJson]

theorem Normal.strip_key {t : Text} (h : t ∈ n.replies.map Prod.fst) : Text.strip t = t := by
  rw [hn.keys] at h
  obtain ⟨thread, _, rfl⟩ := List.mem_map.mp h
  exact Text.strip_strip _

theorem Normal.strip_stored {item : String × Json} (h : item ∈ storedReplies n) :
    Text.strip item.1.toList = item.1.toList :=
  hn.strip_key (mem_storedReplies.mp (List.mem_map.mpr ⟨item, h, rfl⟩))

/-- Threads that are named by the keys of the replies are answered by them. -/
theorem Normal.parse {threads : List Json} (hobjects : ∀ thread ∈ threads, thread.asObj?.isSome = true)
    (hdistinct : (threads.map (repliedThreadId py)).Nodup)
    (hsame : ∀ t, t ∈ threads.map (repliedThreadId py) ↔ t ∈ n.replies.map Prod.fst) :
    ∃ normalized, parseAddressedReplies py
        (.obj [("addressed", .arr ((storedReplies n).map fun item => .str item.1)),
          ("replies", .obj (storedReplies n))]) threads = some normalized
      ∧ normalized.map Prod.fst = threads.map (repliedThreadId py) := by
  have hclaimed : ((storedReplies n).map fun item => Json.str item.1).mapM
      (fun id => id.asStr?.map fun text => Text.strip text.toList)
      = some ((storedReplies n).map fun item => item.1.toList) := by
    rw [List.mapM_map]
    refine mapM_some fun item hitem => ?_
    exact congrArg some (hn.strip_stored hitem)
  have hnodup : ((storedReplies n).map fun item => item.1.toList).Nodup := by
    have hmap := hn.nodup_stored.map (f := String.toList) fun _ _ => String.toList_inj.mp
    rwa [List.map_map] at hmap
  have hguard : (threads.all (fun thread => thread.asObj?.isSome)
      && (threads.map (repliedThreadId py)).all (fun id => decide (id ≠ []))
      && decide (threads.map (repliedThreadId py)).Nodup
      && ((storedReplies n).map fun item => item.1.toList).all (fun id => decide (id ≠ []))
      && decide ((storedReplies n).map fun item => item.1.toList).Nodup
      && sameSet ((storedReplies n).map fun item => item.1.toList)
        (threads.map (repliedThreadId py))
      && sameSet ((storedReplies n).map fun item => item.1.toList)
        (threads.map (repliedThreadId py))) = true := by
    simp only [Bool.and_eq_true, List.all_eq_true, decide_eq_true_eq, sameSet_iff]
    have hsets : ∀ t, t ∈ (storedReplies n).map (fun item => item.1.toList)
        ↔ t ∈ threads.map (repliedThreadId py) := fun t => mem_storedReplies.trans (hsame t).symm
    exact ⟨⟨⟨⟨⟨⟨hobjects, fun t ht => hn.filled t ((hsame t).mp ht)⟩, hdistinct⟩,
      fun t ht => hn.filled t (mem_storedReplies.mp ht)⟩, hnodup⟩, hsets⟩, hsets⟩
  have hreplies : (threads.map (repliedThreadId py)).mapM (fun id => do
        let reply ← parseAddressedReply ((Dict.get? (storedReplies n) (String.ofList id)).bind
          fun reply => reply.asStr?.map String.toList)
        return (id, reply.text))
      = some ((threads.map (repliedThreadId py)).map fun id =>
        (id, (n.replies.get? id).getD [])) := by
    refine mapM_some fun t ht => ?_
    obtain ⟨item, hitem, rfl⟩ := List.mem_map.mp ((hsame t).mp ht)
    have hget : n.replies.get? item.1 = some item.2 := Dict.get?_of_mem hn.distinct hitem
    obtain ⟨reply, hreply⟩ := hn.admitted item hitem
    rw [hn.get?_stored, hget, ← hreply]
    simp [Json.asStr?, parseAddressedReply_text]
  refine ⟨(threads.map (repliedThreadId py)).map fun id => (id, (n.replies.get? id).getD []),
    ?_, ?_⟩
  · refine Option.bind_eq_some_iff.mpr ⟨_, hclaimed, ?_⟩
    refine Option.bind_eq_some_iff.mpr ⟨(), (Option.guard_eq_some' _).mpr hguard, ?_⟩
    exact hreplies
  · rw [List.map_map]
    exact List.map_id _

/-- The batch is built for other threads with its ids. -/
theorem Normal.rebuild {threads : List Json} {source : List SourceThread}
    (hsource : Conversation py threads source) (hnamed : NamedByIds py threads)
    (hids : ∀ t, t ∈ threads.map (snapshotId py) ↔ t ∈ n.threads.map (snapshotId py))
    (progress : Option ReplyProgress) :
    ∃ h, implementationReplyHandoff py (.str (String.ofList n.headSha)) (.arr threads)
        (.obj (storedReplies n)) (.str (String.ofList n.batchNonce)) progress true = some h
      ∧ h.headSha = n.headSha ∧ h.batchNonce = n.batchNonce ∧ h.reconciliationOnly = true
      ∧ h.progress = progress ∧ h.threads = threads ∧ ∀ t, h.replies.get? t = n.replies.get? t := by
  obtain ⟨normalized, hparse, hkeys⟩ := hn.parse hsource.objects hnamed.distinct
    fun t => (hnamed.same t).trans ((hids t).trans (hn.ids t))
  have hguard : (isFullSha (String.ofList n.headSha).toList
      && Text.isHexOfLength 32 (String.ofList n.batchNonce).toList
      && threads.all (fun thread => thread.asObj?.isSome)) = true := by
    simp only [String.toList_ofList, hn.head, hn.nonce, Bool.and_true, Bool.true_and,
      List.all_eq_true]
    exact hsource.objects
  have hsame : ((threads.map (snapshotId py)).all (fun id => decide (id ≠ []))
      && decide (threads.map (snapshotId py)).Nodup
      && sameSet (threads.map (snapshotId py)) (normalized.map Prod.fst)) = true := by
    simp only [Bool.and_eq_true, List.all_eq_true, decide_eq_true_eq, sameSet_iff, hkeys]
    refine ⟨⟨?_, ?_⟩, fun t => (hnamed.same t).symm⟩
    · intro t ht
      rw [hsource.ids] at ht
      obtain ⟨thread, hthread, rfl⟩ := List.mem_map.mp ht
      exact hsource.filled thread hthread
    · rw [hsource.ids]
      have hmap := hsource.distinct.map (f := String.toList) fun _ _ => String.toList_inj.mp
      rwa [List.map_map] at hmap
  have hbuilt : implementationReplyHandoff py (.str (String.ofList n.headSha)) (.arr threads)
      (.obj (storedReplies n)) (.str (String.ofList n.batchNonce)) progress true
      = some ⟨(String.ofList n.headSha).toList, threads, normalized,
          (String.ofList n.batchNonce).toList, true, progress⟩ := by
    refine Option.bind_eq_some_iff.mpr ⟨(), (Option.guard_eq_some' _).mpr hguard, ?_⟩
    refine Option.bind_eq_some_iff.mpr ⟨normalized, hparse, ?_⟩
    exact Option.bind_eq_some_iff.mpr ⟨(), (Option.guard_eq_some' _).mpr hsame, rfl⟩
  refine ⟨_, hbuilt, String.toList_ofList, String.toList_ofList, rfl, rfl, rfl, ?_⟩
  intro t
  have hget := (built hbuilt).get? t
  rw [replyIn, Json.get?, hn.get?_stored] at hget
  rw [hget]
  cases hreply : n.replies.get? t with
  | none => rfl
  | some text =>
      obtain ⟨reply, rfl⟩ := hn.admitted_of_get? hreply
      simp [Json.asStr?, reply.stripped]

end Stored

/-! ## Reading an entry -/

/-- The body of an entry. -/
def entryBody (floats : JsonText.FloatText) (prNumber : Int) (snapshot : Text)
    (normalized : ReplyHandoff) : Text :=
  handoffMarker prNumber normalized.headSha normalized.batchNonce ++ "\n<!-- ".toList
    ++ JsonText.dumps floats (journalPayload prNumber snapshot normalized) ++ " -->".toList

/-- What an entry was rendered from. -/
structure Rendered (py : PyText) (floats : JsonText.FloatText) (prNumber : Int)
    (source : List SourceThread) (n : ReplyHandoff) (body : Text) : Prop where
  positive : 0 < prNumber
  conversation : sourceThreads (.arr n.threads) = some source
  body : body = entryBody floats prNumber (sha256Text (sourceText floats source)) n
  normal : Normal py n
  progress : ∀ p, n.progress = some p → SoundProgress p

theorem soundProgress_of_progressOf {handoff : Json} {progress : Option ReplyProgress}
    (h : progressOf handoff = some progress) : ∀ p, progress = some p → SoundProgress p := by
  rintro p rfl
  unfold progressOf at h
  split at h
  · cases h
  · obtain ⟨q, hq, heq⟩ := Option.map_eq_some_iff.mp h
    obtain rfl := Option.some.inj heq
    exact soundProgress hq

theorem rendered {prNumber handoff : Json} {entry : Text × Text}
    (h : implementationReplyHandoffJournalEntry py floats prNumber handoff = some entry) :
    ∃ number source n, prNumber = .int number ∧ normalizedHandoff py handoff = some n
      ∧ Rendered py floats number source n entry.2 := by
  obtain ⟨number, hnumber, h⟩ := Option.bind_eq_some_iff.mp h
  obtain ⟨_, hguard, h⟩ := Option.bind_eq_some_iff.mp h
  obtain ⟨n, hn, h⟩ := Option.bind_eq_some_iff.mp h
  obtain ⟨snapshot, hsnapshot, h⟩ := Option.bind_eq_some_iff.mp h
  obtain ⟨source, hsource, rfl⟩ := Option.map_eq_some_iff.mp hsnapshot
  obtain rfl := Option.some.inj h
  obtain ⟨progress, hprogress, hbuilt⟩ := Option.bind_eq_some_iff.mp hn
  refine ⟨number, source, n, asInt?_some hnumber, hn, (Option.guard_eq_some' _).mp hguard, hsource, rfl,
    normal hbuilt, ?_⟩
  rw [(built hbuilt).progress]
  exact soundProgress_of_progressOf hprogress

section Payload

variable {number : Int} {snapshot : Text} {n : ReplyHandoff}

/-- The fields of the document, as a dictionary. -/
theorem journalPayload_eq (number : Int) (snapshot : Text) (n : ReplyHandoff) :
    ∃ fields, journalPayload number snapshot n = .obj fields ∧ (fields.map Prod.fst).Nodup := by
  have hkeys : ["format", "armed", "pr_number", "head_sha", "batch_nonce",
      "thread_snapshot_sha256", "replies"].Nodup := by decide
  have hkeys' : ["format", "armed", "pr_number", "head_sha", "batch_nonce",
      "thread_snapshot_sha256", "replies", "progress"].Nodup := by decide
  rw [journalPayload]
  refine ⟨_, rfl, ?_⟩
  cases n.progress with
  | none => exact hkeys
  | some p => exact hkeys'

/-- A field of the document is read as it was written, sorted. -/
theorem get?_document (key : String) :
    (JsonText.sorted (journalPayload number snapshot n)).get? key
      = ((journalPayload number snapshot n).get? key).map JsonText.sorted := by
  obtain ⟨fields, hfields, hnd⟩ := journalPayload_eq number snapshot n
  rw [hfields, JsonText.get?_sorted hnd]

theorem field_document (key : String) :
    (JsonText.sorted (journalPayload number snapshot n)).field key
      = JsonText.sorted ((journalPayload number snapshot n).field key) := by
  obtain ⟨fields, hfields, hnd⟩ := journalPayload_eq number snapshot n
  rw [hfields, JsonText.field_sorted hnd]

theorem sorted_str (text : String) : JsonText.sorted (.str text) = .str text := by
  rw [JsonText.sorted]

theorem field_payload_replies :
    (JsonText.sorted (journalPayload number snapshot n)).field "replies"
      = .obj (storedReplies n) := by
  have hsame : ∀ texts : Dict Text Text,
      JsonText.sortedFields (textsJson texts) = textsJson texts := by
    intro texts
    induction texts with
    | nil => rfl
    | cons item texts ih =>
        rw [textsJson, List.map_cons, JsonText.sortedFields, sorted_str, ← textsJson, ih]
  rw [field_document, show (journalPayload number snapshot n).field "replies"
    = .obj (textsJson n.replies) from rfl, JsonText.sorted, hsame, storedReplies]

theorem progressOf_document (hprogress : ∀ p, n.progress = some p → SoundProgress p) :
    progressOf (JsonText.sorted (journalPayload number snapshot n))
      = some (n.progress.map storedProgress) := by
  rw [progressOf, get?_document]
  cases hp : n.progress with
  | none => simp [journalPayload, Json.get?, Dict.get?_cons, hp]
  | some p =>
      simp [journalPayload, Json.get?, Dict.get?_cons, hp,
        progressFromDict_sorted (hprogress p hp)]

theorem codable_payload (number : Int) (snapshot : Text) (hn : Normal py n)
    (hprogress : ∀ p, n.progress = some p → SoundProgress p)
    (hreceipts : ∀ p, n.progress = some p → JsonText.CodableItems floats p.receipts) :
    JsonText.Codable floats (journalPayload number snapshot n) := by
  have hoptional : ∀ text, JsonText.Codable floats (optionalText text) := by
    intro text
    cases text with
    | none => trivial
    | some text => trivial
  have htexts : ∀ texts : Dict Text Text, JsonText.CodableFields floats (textsJson texts) := by
    intro texts
    induction texts with
    | nil => trivial
    | cons item texts ih => exact ⟨trivial, ih⟩
  have hids : ∀ ids : List Text,
      JsonText.CodableItems floats (ids.map fun id => .str (String.ofList id)) := by
    intro ids
    induction ids with
    | nil => trivial
    | cons id ids ih => exact ⟨trivial, ih⟩
  have hkeys : ((textsJson n.replies).map Prod.fst).Nodup :=
    ((JsonText.sortFields_perm _).map Prod.fst).nodup_iff.mp hn.nodup_stored
  have hreplies : JsonText.Codable floats (.obj (textsJson n.replies)) :=
    ⟨hkeys, htexts n.replies⟩
  cases hp : n.progress with
  | none => simp [journalPayload, hp, JsonText.Codable, JsonText.CodableFields, hkeys, htexts]
  | some p =>
      obtain ⟨text, htext⟩ := (hprogress p hp).comment
      have hcomment : JsonText.Codable floats (p.activeCommentId.getD .null) := by
        rw [htext]
        cases text with
        | none => trivial
        | some text => trivial
      simp [journalPayload, progressJson, hp, JsonText.Codable, JsonText.CodableFields, hkeys,
        htexts, hoptional, hids, hcomment, hreceipts p hp]

end Payload

/-- What an entry is read as, for threads of its digest and for others. -/
theorem journalHandoffFromComment_entry (digits : DigitTable) {number : Int}
    {source : List SourceThread} {n : ReplyHandoff} {comment : IssueComment}
    (h : Rendered py floats number source n comment.body)
    (hreceipts : ∀ p, n.progress = some p → JsonText.CodableItems floats p.receipts)
    (threads : List Json) :
    journalHandoffFromComment py floats digits number threads comment
      = if threadSnapshotFingerprint floats (.arr threads)
          = some (sha256Text (sourceText floats source)) then
        match implementationReplyHandoff py (.str (String.ofList n.headSha)) (.arr threads)
          (.obj (storedReplies n)) (.str (String.ofList n.batchNonce))
          (n.progress.map storedProgress) true with
        | none => .error "implementation reply handoff journal payload is invalid"
        | some handoff => .ok (some handoff)
      else .ok none := by
  obtain ⟨hpositive, _, hbody, hn, hprogress⟩ := h
  generalize sha256Text (sourceText floats source) = snapshot at hbody
  have hstrip : Text.lstrip comment.body = handoffMarker number n.headSha n.batchNonce
      ++ '\n' :: ("<!-- ".toList ++ JsonText.dumps floats (journalPayload number snapshot n)
        ++ " -->".toList) := by
    have hlstrip := Text.lstrip_append (a := handoffLiteral) (by decide) (by decide)
    rw [hbody, entryBody, handoffMarker]
    simp only [List.append_assoc, hlstrip]
    rfl
  have hloads := JsonText.loads_dumps_of_codable floats
    (fun _ => JsonText.nodup_rejectDuplicates)
    (codable_payload number snapshot hn hprogress hreceipts)
  have hnumber : ((number.toNat : Nat) : Int) = number := Int.toNat_of_nonneg hpositive.le
  have hformat : ((JsonText.sorted (journalPayload number snapshot n)).field "format")
      = .int 2 := by
    rw [field_document, show (journalPayload number snapshot n).field "format" = .int 2 from rfl,
      JsonText.sorted]
  have hnumberField : (JsonText.sorted (journalPayload number snapshot n)).field "pr_number"
      = .int number := by
    rw [field_document,
      show (journalPayload number snapshot n).field "pr_number" = .int number from rfl,
      JsonText.sorted]
  have harmed : flag (JsonText.sorted (journalPayload number snapshot n)) "armed" = true := by
    rw [flag, field_document,
      show (journalPayload number snapshot n).field "armed" = .bool true from rfl, JsonText.sorted]
  have htextField : ∀ key text, (journalPayload number snapshot n).field key = .str text →
      (JsonText.sorted (journalPayload number snapshot n)).field key = .str text := by
    intro key text hfield
    rw [field_document, hfield, sorted_str]
  have hdigest := htextField "thread_snapshot_sha256" (String.ofList snapshot) rfl
  have hhead := htextField "head_sha" (String.ofList n.headSha) rfl
  have hnonce := htextField "batch_nonce" (String.ofList n.batchNonce) rfl
  have hint : ∀ m : Int, Json.eq (.int m) (.int m) = true := by
    intro m
    simp [Json.eq, Json.number?]
  rw [journalHandoffFromComment, hstrip,
    partitionLine_append (newline_notMem_handoffMarker hpositive hn.head hn.nonce)]
  simp only [matchHandoffMarker_handoffMarker hpositive hn.head hn.nonce, hnumber, ne_eq,
    not_true_eq_false, if_false, Option.bind_some, journalContent_append, hloads, hformat,
    hnumberField, harmed, hint, Bool.true_eq_false, or_self, hdigest, field_payload_replies,
    progressOf_document hprogress, hhead, hnonce]
  have hdigestIff : Json.eq (.str (String.ofList snapshot))
      (optionalText (threadSnapshotFingerprint floats (.arr threads))) = true
      ↔ threadSnapshotFingerprint floats (.arr threads) = some snapshot := by
    rw [Json.str_eq_iff]
    cases threadSnapshotFingerprint floats (.arr threads) with
    | none => simp [optionalText]
    | some found => simp [optionalText, String.ofList_inj]
  by_cases hsame : threadSnapshotFingerprint floats (.arr threads) = some snapshot
  · rw [if_pos hsame, hdigestIff.mpr hsame, if_neg Bool.true_eq_false.mp]
    cases hbuilt : implementationReplyHandoff py (.str (String.ofList n.headSha)) (.arr threads)
        (.obj (storedReplies n)) (.str (String.ofList n.batchNonce))
        (n.progress.map storedProgress) true with
    | none => rfl
    | some handoff =>
        have hbuilt := built hbuilt
        have hhead := String.ofList_injective (Json.str.inj hbuilt.head)
        have hnonce := String.ofList_injective (Json.str.inj hbuilt.nonce)
        exact if_pos ⟨hhead.symm, hnonce.symm⟩
  · rw [if_neg hsame, if_pos (Bool.not_eq_true _ ▸ mt hdigestIff.mp hsame)]

/-! ## The journal -/

/-- A comment of a journal, with the handoff it was rendered from if it is an entry. -/
structure JournalComment where
  comment : IssueComment
  handoff : Option Json

/-- The first line of the comment is a marker of the pull request. -/
def IsMarked (digits : DigitTable) (prNumber : Json) (comment : IssueComment) : Prop :=
  ∃ number head batch, prNumber = .int (number : Nat)
    ∧ matchHandoffMarker digits (partitionLine (Text.lstrip comment.body)).1
      = some (number, head, batch)

/-- An entry is an owned comment, as it was rendered; no other owned comment is
marked for the pull request. -/
def JournalComment.Ok (py : PyText) (floats : JsonText.FloatText) (digits : DigitTable)
    (prNumber : Json) (c : JournalComment) : Prop :=
  match c.handoff with
  | some handoff => c.comment.viewerDidAuthor = true ∧ ∃ marker,
      implementationReplyHandoffJournalEntry py floats prNumber handoff
        = some (marker, c.comment.body)
  | none => c.comment.viewerDidAuthor = true → ¬ IsMarked digits prNumber c.comment

/-- The batch of an entry. -/
def JournalComment.Of (py : PyText) (c : JournalComment) (n : ReplyHandoff) : Prop :=
  ∃ handoff, c.handoff = some handoff ∧ normalizedHandoff py handoff = some n

/-- The batch, for the threads it is to be delivered to, and to be reconciled only. The
receipts of its progress are the same dictionaries. -/
structure Restores (threads : Json) (n h : ReplyHandoff) : Prop where
  head : h.headSha = n.headSha
  nonce : h.batchNonce = n.batchNonce
  replies : ∀ t, h.replies.get? t = n.replies.get? t
  progress : h.progress = n.progress.map storedProgress
  threads : threads = .arr h.threads
  reconciliationOnly : h.reconciliationOnly = true

/-- What a recovery returns: the batch of the last entry of the same conversation. -/
def Recovers (py : PyText) (threads : Json) (journal : List JournalComment) :
    Option ReplyHandoff → Prop
  | some h => ∃ before c after n, journal = before ++ c :: after ∧ c.Of py n
      ∧ SameSource (.arr n.threads) threads ∧ Restores threads n h
      ∧ ∀ c' ∈ after, ∀ n', c'.Of py n' → ¬ SameSource (.arr n'.threads) threads
  | none => ∀ c ∈ journal, ∀ n, c.Of py n → ¬ SameSource (.arr n.threads) threads

/-- No two of the conversations have one digest. -/
def NoCollision (py : PyText) (floats : JsonText.FloatText) (threads : Json)
    (journal : List JournalComment) : Prop :=
  ∀ c ∈ journal, ∀ n, c.Of py n → ∀ source source', sourceThreads (.arr n.threads) = some source →
    sourceThreads threads = some source' →
    sha256Text (sourceText floats source) = sha256Text (sourceText floats source') →
    sourceText floats source = sourceText floats source'

/-- What one owned comment contributes. -/
def Contributes (py : PyText) (threads : Json) (c : JournalComment) : Option ReplyHandoff → Prop
  | some h => ∃ n, c.Of py n ∧ SameSource (.arr n.threads) threads ∧ Restores threads n h
  | none => ∀ n, c.Of py n → ¬ SameSource (.arr n.threads) threads

theorem snapshotIds_of_sameSource (py : PyText) {threads threads' : List Json}
    (h : SameSource (.arr threads) (.arr threads')) (t : Text) :
    t ∈ threads'.map (snapshotId py) ↔ t ∈ threads.map (snapshotId py) := by
  obtain ⟨source, source', hsource, hsource', hperm⟩ := h
  rw [(conversation py hsource).ids, (conversation py hsource').ids]
  exact ((hperm.map _).mem_iff).symm

section Journal

variable {prNumber : Json} {number : Int} {threads : List Json}

theorem contributes_entry {c : JournalComment} {handoff : Json} {marker : Text}
    (hhandoff : c.handoff = some handoff)
    (hentry : implementationReplyHandoffJournalEntry py floats (.int number) handoff
      = some (marker, c.comment.body))
    (hreceipts : ∀ n, c.Of py n → ∀ p, n.progress = some p →
      JsonText.CodableItems floats p.receipts)
    (hsha : ∀ n, c.Of py n → ∀ source source', sourceThreads (.arr n.threads) = some source →
      sourceThreads (.arr threads) = some source' →
      sha256Text (sourceText floats source) = sha256Text (sourceText floats source') →
      sourceText floats source = sourceText floats source')
    (hnamed : ∀ source, sourceThreads (.arr threads) = some source → NamedByIds py threads) :
    ∃ r, journalHandoffFromComment py floats digits number threads c.comment = .ok r
      ∧ Contributes py (.arr threads) c r := by
  obtain ⟨m, source, n, hm, hn, hrendered⟩ := rendered hentry
  obtain rfl := Json.int.inj hm
  have hof : c.Of py n := ⟨handoff, hhandoff, hn⟩
  rw [journalHandoffFromComment_entry digits hrendered (hreceipts n hof) threads]
  have hiff := fingerprint_eq_iff hrendered.conversation
    (hsha n hof source · hrendered.conversation)
  rw [threadSnapshotFingerprint, threadSnapshotFingerprint, hrendered.conversation,
    Option.map_some, ← threadSnapshotFingerprint] at hiff
  by_cases hsame : SameSource (.arr n.threads) (.arr threads)
  · have hids := snapshotIds_of_sameSource py hsame
    have hsource := hsame
    obtain ⟨_, source', _, hsource', _⟩ := hsource
    obtain ⟨h, hbuilt, hhead, hnonce, honly, hprogress, hthreads, hreplies⟩ :=
      hrendered.normal.rebuild (conversation py hsource') (hnamed source' hsource') hids
        (n.progress.map storedProgress)
    rw [if_pos (hiff.mpr hsame), hbuilt]
    exact ⟨some h, rfl, n, hof, hsame, hhead, hnonce, hreplies, hprogress,
      congrArg Json.arr hthreads.symm, honly⟩
  · rw [if_neg (mt hiff.mp hsame)]
    refine ⟨none, rfl, ?_⟩
    rintro n' ⟨handoff', hhandoff', hn'⟩
    obtain rfl := Option.some.inj (hhandoff.symm.trans hhandoff')
    obtain rfl := Option.some.inj (hn.symm.trans hn')
    exact hsame

theorem contributes_other {c : JournalComment} (hhandoff : c.handoff = none)
    (hunmarked : ¬ IsMarked digits (.int number) c.comment) :
    ∃ r, journalHandoffFromComment py floats digits number threads c.comment = .ok r
      ∧ Contributes py (.arr threads) c r := by
  refine ⟨none, ?_, ?_⟩
  · rw [journalHandoffFromComment]
    dsimp only
    split
    · rfl
    · next found head batch hfound =>
        refine if_pos fun hnumber => hunmarked ⟨found, head, batch, ?_, hfound⟩
        rw [hnumber]
  · rintro n ⟨handoff, hsome, _⟩
    rw [hhandoff] at hsome
    cases hsome

/-- The loop keeps what the last comment that contributes something did. -/
theorem recoverHandoff_spec {journal : List JournalComment}
    (h : ∀ c ∈ journal, c.comment.viewerDidAuthor = true →
      ∃ r, journalHandoffFromComment py floats digits number threads c.comment = .ok r
        ∧ Contributes py (.arr threads) c r)
    (hforeign : ∀ c ∈ journal, c.comment.viewerDidAuthor = false → c.handoff = none)
    (recovered : Option ReplyHandoff) :
    ∃ r, recoverHandoff py floats digits number threads recovered (journal.map (·.comment)) = .ok r
      ∧ ((r = recovered ∧ Recovers py (.arr threads) journal none)
        ∨ (r.isSome = true ∧ Recovers py (.arr threads) journal r)) := by
  induction journal generalizing recovered with
  | nil => exact ⟨recovered, rfl, .inl ⟨rfl, fun _ hc => absurd hc List.not_mem_nil⟩⟩
  | cons c journal ih =>
      have ih := ih (fun c' hc' => h c' (List.mem_cons_of_mem c hc'))
        (fun c' hc' => hforeign c' (List.mem_cons_of_mem c hc'))
      have hlater : ∀ {r : ReplyHandoff}, Recovers py (.arr threads) journal (some r) →
          Recovers py (.arr threads) (c :: journal) (some r) := by
        rintro r ⟨before, c', after, n, rfl, hrest⟩
        exact ⟨c :: before, c', after, n, rfl, hrest⟩
      have hskip : (∀ n, c.Of py n → ¬ SameSource (.arr n.threads) (.arr threads)) →
          Recovers py (.arr threads) journal none → Recovers py (.arr threads) (c :: journal) none :=
        fun hc hrest => List.forall_mem_cons.mpr ⟨hc, hrest⟩
      rw [List.map_cons, recoverHandoff]
      cases howned : c.comment.viewerDidAuthor with
      | true =>
          obtain ⟨found, hfound, hc⟩ := h c List.mem_cons_self howned
          obtain ⟨r, hr, hcase⟩ := ih (found.or recovered)
          rw [if_pos rfl, hfound]
          refine ⟨r, hr, ?_⟩
          rcases hcase with ⟨rfl, hrest⟩ | ⟨hsome, hrest⟩
          · cases found with
            | none => exact .inl ⟨rfl, hskip hc hrest⟩
            | some x =>
                obtain ⟨n, hof, hsame, hrestores⟩ := hc
                exact .inr ⟨rfl, [], c, journal, n, rfl, hof, hsame, hrestores, hrest⟩
          · obtain ⟨x, rfl⟩ := Option.isSome_iff_exists.mp hsome
            exact .inr ⟨rfl, hlater hrest⟩
      | false =>
          obtain ⟨r, hr, hcase⟩ := ih recovered
          rw [if_neg Bool.false_ne_true]
          refine ⟨r, hr, ?_⟩
          rcases hcase with ⟨rfl, hrest⟩ | ⟨hsome, hrest⟩
          · refine .inl ⟨rfl, hskip ?_ hrest⟩
            rintro n ⟨handoff, hhandoff, _⟩
            rw [hforeign c List.mem_cons_self howned] at hhandoff
            cases hhandoff
          · obtain ⟨x, rfl⟩ := Option.isSome_iff_exists.mp hsome
            exact .inr ⟨rfl, hlater hrest⟩

theorem recoverHandoff_filter (comments : List IssueComment) (recovered : Option ReplyHandoff) :
    recoverHandoff py floats digits number threads recovered
        (comments.filter (·.viewerDidAuthor))
      = recoverHandoff py floats digits number threads recovered comments := by
  induction comments generalizing recovered with
  | nil => rfl
  | cons comment comments ih =>
      cases howned : comment.viewerDidAuthor with
      | true =>
          rw [List.filter_cons_of_pos howned, recoverHandoff, recoverHandoff]
          simp only [howned, if_true, ih]
      | false =>
          rw [List.filter_cons_of_neg (Bool.eq_false_iff.mp howned), recoverHandoff, howned,
            if_neg Bool.false_ne_true, ih]

end Journal

/-- What the recovery looks at the comments for. -/
def Recoverable (prNumber threads : Json) (number : Int) (list : List Json) : Prop :=
  prNumber = .int number ∧ threads = .arr list ∧ 0 < number
    ∧ ∀ thread ∈ list, thread.asObj?.isSome = true

theorem journaled_of_recoverable {comments : List IssueComment} {prNumber threads : Json}
    {number : Int} {list : List Json} (h : Recoverable prNumber threads number list) :
    journaledImplementationReplyHandoff py floats digits comments prNumber threads
      = recoverHandoff py floats digits number list none comments := by
  obtain ⟨rfl, rfl, hpositive, hobjects⟩ := h
  exact if_pos ⟨hpositive, List.all_eq_true.mpr hobjects⟩

theorem journaled_of_not_recoverable {comments : List IssueComment} {prNumber threads : Json}
    (h : ∀ number list, ¬ Recoverable prNumber threads number list) :
    journaledImplementationReplyHandoff py floats digits comments prNumber threads = .ok none := by
  unfold journaledImplementationReplyHandoff
  split
  · next number list hnumber hlist =>
      refine if_neg ?_
      rintro ⟨hpositive, hobjects⟩
      exact h number list ⟨asInt?_some hnumber, asArr?_some hlist, hpositive,
        List.all_eq_true.mp hobjects⟩
  · rfl

/-- An entry that is of the conversation of the threads makes them recoverable. -/
theorem recoverable_of_entry {prNumber threads handoff : Json} {entry : Text × Text}
    {n : ReplyHandoff}
    (hentry : implementationReplyHandoffJournalEntry py floats prNumber handoff = some entry)
    (hsame : SameSource (.arr n.threads) threads) :
    ∃ number list, Recoverable prNumber threads number list := by
  obtain ⟨number, _, _, hnumber, _, hrendered⟩ := rendered hentry
  obtain ⟨_, source, _, hsource, _⟩ := hsame
  obtain ⟨list, hlist, _⟩ := Option.bind_eq_some_iff.mp hsource
  obtain rfl := asArr?_some hlist
  exact ⟨number, list, hnumber, rfl, hrendered.positive, (conversation py hsource).objects⟩

/-- **The journal.** Given threads that are named by their ids, the recovery returns
the batch of the last entry of the same conversation, for these threads, or nothing
where no entry is of it; comments of others make no difference. -/
theorem journaled_entries (py : PyText) (floats : JsonText.FloatText) (digits : DigitTable)
    (prNumber threads : Json) (journal : List JournalComment)
    (hjournal : ∀ c ∈ journal, c.Ok py floats digits prNumber)
    (hreceipts : ∀ c ∈ journal, ∀ n, c.Of py n → ∀ p, n.progress = some p →
      JsonText.CodableItems floats p.receipts)
    (hsha : NoCollision py floats threads journal)
    (hnamed : ∀ list source, threads = .arr list → sourceThreads threads = some source →
      NamedByIds py list) :
    (∃ recovered, journaledImplementationReplyHandoff py floats digits (journal.map (·.comment))
        prNumber threads = .ok recovered ∧ Recovers py threads journal recovered)
      ∧ ∀ comments, journaledImplementationReplyHandoff py floats digits
          (comments.filter (·.viewerDidAuthor)) prNumber threads
        = journaledImplementationReplyHandoff py floats digits comments prNumber threads := by
  refine ⟨?_, ?_⟩
  · by_cases hrecoverable : ∃ number list, Recoverable prNumber threads number list
    · obtain ⟨number, list, hvalid⟩ := hrecoverable
      rw [journaled_of_recoverable hvalid]
      obtain ⟨rfl, rfl, _, _⟩ := hvalid
      have hcontributes : ∀ c ∈ journal, c.comment.viewerDidAuthor = true →
          ∃ r, journalHandoffFromComment py floats digits number list c.comment = .ok r
            ∧ Contributes py (.arr list) c r := by
        intro c hc howned
        have hok := hjournal c hc
        unfold JournalComment.Ok at hok
        cases hhandoff : c.handoff with
        | none =>
            rw [hhandoff] at hok
            exact contributes_other hhandoff (hok howned)
        | some handoff =>
            rw [hhandoff] at hok
            obtain ⟨_, _, hentry⟩ := hok
            exact contributes_entry hhandoff hentry (hreceipts c hc) (hsha c hc)
              fun source => hnamed list source rfl
      have hforeign : ∀ c ∈ journal, c.comment.viewerDidAuthor = false → c.handoff = none := by
        intro c hc hforeign
        have hok := hjournal c hc
        unfold JournalComment.Ok at hok
        cases hhandoff : c.handoff with
        | none => rfl
        | some handoff =>
            rw [hhandoff, hforeign] at hok
            exact absurd hok.1 Bool.false_ne_true
      obtain ⟨r, hr, hcase⟩ := recoverHandoff_spec hcontributes hforeign none
      refine ⟨r, hr, ?_⟩
      rcases hcase with ⟨rfl, hnone⟩ | ⟨_, hrecovers⟩
      · exact hnone
      · exact hrecovers
    · refine ⟨none, journaled_of_not_recoverable fun number list h =>
        hrecoverable ⟨number, list, h⟩, ?_⟩
      rintro c hc n ⟨handoff, hhandoff, _⟩ hsame
      have hok := hjournal c hc
      unfold JournalComment.Ok at hok
      rw [hhandoff] at hok
      obtain ⟨_, _, hentry⟩ := hok
      exact hrecoverable (recoverable_of_entry hentry hsame)
  · intro comments
    by_cases hrecoverable : ∃ number list, Recoverable prNumber threads number list
    · obtain ⟨number, list, hvalid⟩ := hrecoverable
      rw [journaled_of_recoverable hvalid, journaled_of_recoverable hvalid, recoverHandoff_filter]
    · have hnot : ∀ number list, ¬ Recoverable prNumber threads number list :=
        fun number list h => hrecoverable ⟨number, list, h⟩
      rw [journaled_of_not_recoverable hnot, journaled_of_not_recoverable hnot]

/-! ## One entry -/

def journalComments : Json := .arr [.obj [("id", .str "C1"), ("body", .str "Why?")]]

/-- A thread, and the same one with the name of another. -/
def journalThread : Json := .obj [("id", .str "T1"), ("comments", journalComments)]

def renamedThread : Json :=
  .obj [("id", .str "T1"), ("thread_id", .str "T2"), ("comments", journalComments)]

def journalHandoff : Json :=
  .obj [("head_sha", .str "0123456789abcdef0123456789abcdef01234567"),
    ("threads", .arr [journalThread]), ("replies", .obj [("T1", .str " Fixed. ")]),
    ("batch_nonce", .str "0123456789abcdef0123456789abcdef")]

/-- A journal of one entry and one comment of somebody else. -/
def journalOfOne : List JournalComment :=
  [{ comment := {
       body := ((implementationReplyHandoffJournalEntry asciiText noFloats (.int 7)
         journalHandoff).map Prod.snd).getD []
       viewerDidAuthor := true }
     handoff := some journalHandoff },
    { comment := { body := "LGTM".toList, viewerDidAuthor := false }, handoff := none }]

theorem journalEntry_isSome : (implementationReplyHandoffJournalEntry asciiText noFloats (.int 7)
    journalHandoff).isSome = true := by decide

theorem ok_journalOfOne : ∀ c ∈ journalOfOne, c.Ok asciiText noFloats asciiDigits (.int 7) := by
  obtain ⟨entry, hentry⟩ := Option.isSome_iff_exists.mp journalEntry_isSome
  refine List.forall_mem_cons.mpr ⟨⟨rfl, entry.1, ?_⟩, List.forall_mem_singleton.mpr ?_⟩
  · rw [hentry]
    rfl
  · exact fun howned => absurd howned Bool.false_ne_true

theorem of_journalOfOne {c : JournalComment} (hc : c ∈ journalOfOne) {n : ReplyHandoff}
    (h : c.Of asciiText n) : n.threads = [journalThread] ∧ n.progress = none := by
  obtain ⟨handoff, hhandoff, hn⟩ := h
  obtain ⟨progress, hprogress, hbuilt⟩ := Option.bind_eq_some_iff.mp hn
  have hbuilt := built hbuilt
  obtain rfl : handoff = journalHandoff := by
    rcases List.mem_cons.mp hc with rfl | hc
    · exact (Option.some.inj hhandoff).symm
    · rw [List.mem_singleton.mp hc] at hhandoff
      cases hhandoff
  refine ⟨(Json.arr.inj hbuilt.threads).symm, ?_⟩
  rw [hbuilt.progress]
  exact (Option.some.inj hprogress).symm

theorem receipts_journalOfOne : ∀ c ∈ journalOfOne, ∀ n, c.Of asciiText n →
    ∀ p, n.progress = some p → JsonText.CodableItems noFloats p.receipts := by
  intro c hc n hn p hp
  rw [(of_journalOfOne hc hn).2] at hp
  cases hp

theorem noCollision_journalOfOne {thread : Json}
    (hsource : sourceThreads (.arr [thread]) = sourceThreads (.arr [journalThread])) :
    NoCollision asciiText noFloats (.arr [thread]) journalOfOne := by
  intro c hc n hn source source' h h' _
  rw [(of_journalOfOne hc hn).1, ← hsource, h'] at h
  rw [Option.some.inj h]

theorem journaled_entries_one :
    (∃ recovered, journaledImplementationReplyHandoff asciiText noFloats asciiDigits
        (journalOfOne.map (·.comment)) (.int 7) (.arr [journalThread]) = .ok recovered
      ∧ Recovers asciiText (.arr [journalThread]) journalOfOne recovered)
      ∧ ∀ comments, journaledImplementationReplyHandoff asciiText noFloats asciiDigits
          (comments.filter (·.viewerDidAuthor)) (.int 7) (.arr [journalThread])
        = journaledImplementationReplyHandoff asciiText noFloats asciiDigits comments (.int 7)
          (.arr [journalThread]) := by
  refine journaled_entries asciiText noFloats asciiDigits (.int 7) (.arr [journalThread])
    journalOfOne ok_journalOfOne receipts_journalOfOne (noCollision_journalOfOne rfl) ?_
  rintro list source hlist _
  obtain rfl := Json.arr.inj hlist
  exact ⟨by decide, fun t => Iff.rfl⟩

/-- A thread that goes by another name is of the same conversation, and the entry is
refused. -/
theorem not_journaled_renamed : ¬ ∀ (prNumber threads : Json) (journal : List JournalComment),
    (∀ c ∈ journal, c.Ok asciiText noFloats asciiDigits prNumber) →
    (∀ c ∈ journal, ∀ n, c.Of asciiText n → ∀ p, n.progress = some p →
      JsonText.CodableItems noFloats p.receipts) →
    NoCollision asciiText noFloats threads journal →
    ∃ recovered, journaledImplementationReplyHandoff asciiText noFloats asciiDigits
        (journal.map (·.comment)) prNumber threads = .ok recovered
      ∧ Recovers asciiText threads journal recovered := by
  intro h
  have hsource : sourceThreads (.arr [renamedThread]) = sourceThreads (.arr [journalThread]) := rfl
  obtain ⟨recovered, hok, _⟩ := h (.int 7) (.arr [renamedThread]) journalOfOne ok_journalOfOne
    receipts_journalOfOne (noCollision_journalOfOne hsource)
  obtain ⟨entry, hentry⟩ := Option.isSome_iff_exists.mp journalEntry_isSome
  obtain ⟨number, source, n, hnumber, hn, hrendered⟩ := rendered hentry
  obtain rfl := Json.int.inj hnumber
  have hof : JournalComment.Of asciiText (journalOfOne.get ⟨0, by decide⟩) n :=
    ⟨journalHandoff, rfl, hn⟩
  have hthreads := (of_journalOfOne List.mem_cons_self hof).1
  have hdigest : threadSnapshotFingerprint noFloats (.arr [renamedThread])
      = some (sha256Text (sourceText noFloats source)) := by
    rw [threadSnapshotFingerprint, hsource, ← hthreads, hrendered.conversation, Option.map_some]
  have herror : journalHandoffFromComment asciiText noFloats asciiDigits 7 [renamedThread]
      ⟨entry.2, true⟩ = .error "implementation reply handoff journal payload is invalid" := by
    rw [journalHandoffFromComment_entry asciiDigits hrendered
      (receipts_journalOfOne _ List.mem_cons_self n hof) [renamedThread], if_pos hdigest]
    cases hbuilt : implementationReplyHandoff asciiText (.str (String.ofList n.headSha))
        (.arr [renamedThread]) (.obj (storedReplies n)) (.str (String.ofList n.batchNonce))
        (n.progress.map storedProgress) true with
    | none => rfl
    | some x =>
        -- its name is the key of its reply, and its id is not
        have hnormal := normal hbuilt
        have hlist : x.threads = [renamedThread] := (Json.arr.inj (built hbuilt).threads).symm
        have hid := (hnormal.ids "T1".toList).mp (by rw [hlist]; decide)
        rw [hnormal.keys, hlist] at hid
        exact absurd hid (by decide)
  have hvalid : Recoverable (.int 7) (.arr [renamedThread]) 7 [renamedThread] :=
    ⟨rfl, rfl, by decide, List.forall_mem_singleton.mpr rfl⟩
  have hfirst : journalOfOne.map (·.comment)
      = [⟨entry.2, true⟩, { body := "LGTM".toList, viewerDidAuthor := false }] := by
    rw [journalOfOne, hentry]
    rfl
  rw [journaled_of_recoverable hvalid, hfirst, recoverHandoff, if_pos rfl, herror] at hok
  cases hok

end Hephaestus.Automation.Delivery
