import Mathlib.Data.Option.Basic
import Hephaestus.Automation.ReplyRecovery
import Hephaestus.Proofs.ReplyProgress

/-!
# Recovery makes no reply up

Whatever the recovery returns, the live threads are the source threads and the
replies of the returned progress, which `_progress_matches_live_threads` checks
last. What that check leaves open, who wrote the final comment and for which
commit, the loop over the threads has settled before: one turn of it looks at
one thread and changes the receipt of no other. What neither settles is the
record: receipts under one thread id are a dictionary when the check for lost
receipts looks at them, so only the last of them is compared.
-/

namespace Hephaestus.Automation

open Hephaestus.Lib

variable {py : PyText} {floats : JsonText.FloatText} {input : RemediationReviewInput}
  {result : RemediationReplyResult} {nonce : Text} {liveThreads : List Json}

/-- The threads of the source snapshot; none where it is no list. -/
def RemediationReviewInput.sourceThreads (floats : JsonText.FloatText)
    (input : RemediationReviewInput) : List Json :=
  ((JsonText.loads floats JsonText.keepLast input.threadSnapshotJson).bind Json.asArr?).getD []

/-- Two threads with one canonical projection. -/
def SameThread (thread other : Json) : Prop :=
  ∃ projected, projectThread thread = some projected ∧ projectThread other = some projected

/-- The live threads are those of the source, each as it was there, or as the
receipt of its thread shows it. -/
structure MatchesSource (py : PyText) (floats : JsonText.FloatText)
    (input : RemediationReviewInput) (liveThreads : List Json)
    (receipts : List Json) : Prop where
  unique : (liveThreads.map threadId?).Nodup
  known : ∀ found ∈ liveThreads, ∃ t source, threadId? found = some t
    ∧ source ∈ input.sourceThreads floats ∧ threadId? source = some t
  threads : ∀ source ∈ input.sourceThreads floats, ∃ t found, threadId? source = some t
    ∧ found ∈ liveThreads ∧ threadId? found = some t
    ∧ SameThread ((receiptOf py receipts t).getD source) found

/-- The final comment of a receipt's live thread is the reply of this batch: by
the viewer, on the recovery commit, after the comments of the source. -/
def ProvedReply (py : PyText) (floats : JsonText.FloatText) (input : RemediationReviewInput)
    (result : RemediationReplyResult) (nonce : Text) (liveThreads : List Json)
    (receipt : Json) : Prop :=
  ∃ source found reply sourceComments before final canonical,
    source ∈ input.sourceThreads floats
    ∧ threadId? source = some (receiptKey py receipt)
    ∧ found ∈ liveThreads
    ∧ threadId? found = some (receiptKey py receipt)
    ∧ result.replies.get? (receiptKey py receipt) = some reply
    ∧ (source.field "comments").asArr? = some sourceComments
    ∧ (found.field "comments").asArr? = some (before ++ [final])
    ∧ canonicalCommentPrefix sourceComments = .ok canonical
    ∧ canonicalCommentPrefix before = .ok canonical
    ∧ isFilled (receipt.field "implementation_reply_id") = true
    ∧ final.field "id" = receipt.field "implementation_reply_id"
    ∧ final.field "body"
      = .str (String.ofList (input.replyBody (receiptKey py receipt) reply nonce))
    ∧ byViewer final = true
    ∧ isText (final.field "review_commit_sha") input.recoveryCommitSha = true

/-- The receipts of a progress. -/
def receiptsOf (progress : Option ReplyProgress) : List Json :=
  (progress.map ReplyProgress.receipts).getD []

/-- Every receipt identity of the record is one of the receipts. -/
def KeepsIdentities (py : PyText) (progress : Option ReplyProgress) (receipts : List Json) : Prop :=
  ∀ r ∈ receiptsOf progress, ∃ r' ∈ receipts, receiptKey py r' = receiptKey py r
    ∧ sameIdentity r' r = true

/-- The receipts of the record that name one thread have one identity. -/
def ReceiptsAgree (py : PyText) (progress : Option ReplyProgress) : Prop :=
  ∀ r ∈ receiptsOf progress, ∀ r' ∈ receiptsOf progress, receiptKey py r = receiptKey py r' →
    sameIdentity r r' = true

/-- What a recovery that returned says: the record stands, and the live threads
are the source plus it; or another progress takes its place. -/
inductive Recovered (py : PyText) (floats : JsonText.FloatText) (input : RemediationReviewInput)
    (result : RemediationReplyResult) (nonce : Text) (liveThreads : List Json)
    (progress : Option ReplyProgress) : Option ReplyProgress → Prop
  | unchanged (hmatches : MatchesSource py floats input liveThreads (receiptsOf progress)) :
      Recovered py floats input result nonce liveThreads progress progress
  | replaced (inferred : ReplyProgress)
      (hkeeps : KeepsIdentities py progress inferred.receipts)
      (hproved : ∀ r ∈ inferred.receipts,
        ProvedReply py floats input result nonce liveThreads r)
      (hothers : ∀ source ∈ input.sourceThreads floats, ∀ t, threadId? source = some t →
        (∀ r ∈ inferred.receipts, receiptKey py r ≠ t) →
        ∃ found ∈ liveThreads, threadId? found = some t ∧ SameThread source found)
      (hmatches : MatchesSource py floats input liveThreads inferred.receipts) :
      Recovered py floats input result nonce liveThreads progress (some inferred)

/-! ## Values -/

theorem isText_iff {value : Json} {text : Text} :
    isText value text = true ↔ value = .str (String.ofList text) := by
  cases value with
  | str s =>
      simp only [isText, Json.asStr?, Option.any_some, decide_eq_true_eq, Json.str.injEq]
      constructor
      · intro h
        rw [← h, String.ofList_toList]
      · rintro rfl
        exact String.toList_ofList
  | _ => simp [isText, Json.asStr?]

theorem isFilled_iff {value : Json} : isFilled value = true ↔ ∃ s, value = .str s ∧ s ≠ "" := by
  cases value with
  | str s => simp [isFilled, Json.asStr?]
  | _ => simp [isFilled, Json.asStr?]

theorem receiptKey_of_text (py : PyText) {receipt : Json} {s : String}
    (h : (orField receipt "id" "thread_id").asStr? = some s) : receiptKey py receipt = s.toList := by
  have htext : ∀ {value : Option Json}, (value.getD .null).asStr? = some s →
      py.orEmpty value = s.toList := by
    intro value hvalue
    cases value with
    | none => cases hvalue
    | some value =>
        cases value with
        | str u => exact congrArg String.toList (Option.some.inj hvalue)
        | _ => cases hvalue
  have hid : receipt.field "id" = (receipt.get? "id").getD .null := rfl
  by_cases htruthy : (receipt.field "id").truthy = true
  · rw [orField, if_pos htruthy] at h
    rw [receiptKey, ← hid, if_pos htruthy]
    exact htext h
  · rw [orField, if_neg htruthy] at h
    rw [receiptKey, ← hid, if_neg htruthy]
    exact htext h

theorem receiptOf_none {receipts : List Json} {t : Text}
    (h : receiptOf py receipts t = none) : ∀ r ∈ receipts, receiptKey py r ≠ t := by
  intro r hr hkey
  exact List.find?_eq_none.mp h r (List.mem_reverse.mpr hr) (decide_eq_true hkey)

/-- Where no key repeats, the dictionary of the receipts finds what `receiptOf` does. -/
theorem get?_receipts {receipts : List Json} (h : (receipts.map (receiptKey py)).Nodup)
    (t : Text) :
    Dict.get? (receipts.map fun r => (receiptKey py r, r)) t = receiptOf py receipts t := by
  have hnd : ((receipts.map fun r => (receiptKey py r, r)).map Prod.fst).Nodup := by
    rw [List.map_map]
    exact h
  cases hfound : receiptOf py receipts t with
  | some r =>
      obtain ⟨hkey, hmem⟩ := receiptOf_some hfound
      exact Dict.get?_of_mem hnd (List.mem_map.mpr ⟨r, hmem, by rw [hkey]⟩)
  | none =>
      cases hget : Dict.get? (receipts.map fun r => (receiptKey py r, r)) t with
      | none => rfl
      | some r =>
          obtain ⟨r', hmem, heq⟩ := List.mem_map.mp (Dict.mem_of_get? hget)
          exact absurd (Prod.mk.inj heq).1 (receiptOf_none hfound r' hmem)

/-! ## The indexes -/

theorem threadsById_spec {threads : List Json}
    (h : (threadsById threads).length = threads.length) :
    threadsById threads = threads.filterMap (fun thread => (threadId? thread).map (·, thread))
      ∧ ((threadsById threads).map Prod.fst).Nodup
      ∧ ∀ thread ∈ threads, (threadId? thread).isSome := by
  have hle : (threads.filterMap fun thread => (threadId? thread).map (·, thread)).length
      ≤ threads.length := List.length_filterMap_le _ _
  obtain ⟨heq, hnd⟩ := Dict.ofPairs_of_length (Nat.le_trans hle (Nat.le_of_eq h.symm))
  refine ⟨heq, ?_, ?_⟩
  · rw [threadsById, heq]
    exact hnd
  · rw [threadsById, heq] at h
    intro thread hthread
    simpa using List.filterMap_length_eq_length.mp h thread hthread

/-- A complete index finds a thread under its id and nothing else. -/
theorem get?_threadsById {threads : List Json}
    (h : (threadsById threads).length = threads.length) {t : Text} {thread : Json} :
    (threadsById threads).get? t = some thread ↔ thread ∈ threads ∧ threadId? thread = some t := by
  obtain ⟨heq, hnd, _⟩ := threadsById_spec h
  constructor
  · intro hget
    have hmem := Dict.mem_of_get? hget
    rw [heq] at hmem
    obtain ⟨thread', hthread, hpair⟩ := List.mem_filterMap.mp hmem
    obtain ⟨t', hid, hitem⟩ := Option.map_eq_some_iff.mp hpair
    cases hitem
    exact ⟨hthread, hid⟩
  · rintro ⟨hthread, hid⟩
    refine Dict.get?_of_mem hnd ?_
    rw [heq]
    exact List.mem_filterMap.mpr ⟨thread, hthread, by rw [hid]; rfl⟩

/-- The index the recovery builds is that one where every id is a string. -/
theorem indexThreads_eq {threads : List Json} {d : Dict Text Json}
    (h : (threadsById threads).length = threads.length) (hd : indexThreads py threads = .ok d) :
    d = threadsById threads := by
  have hids := (threadsById_spec h).2.2
  obtain ⟨pairs, hpairs, hof⟩ := except_bind_ok.mp hd
  have hpairs : pairs = threads.filterMap fun thread => (threadId? thread).map (·, thread) := by
    clear h hd hof
    induction threads generalizing pairs with
    | nil =>
        cases hpairs
        rfl
    | cons thread threads ih =>
        rw [List.mapM_cons] at hpairs
        obtain ⟨pair, hpair, hthreads⟩ := except_bind_ok.mp hpairs
        obtain ⟨rest, hrest, hcons⟩ := except_bind_ok.mp hthreads
        cases hcons
        obtain ⟨t, ht⟩ := Option.isSome_iff_exists.mp (hids thread List.mem_cons_self)
        rw [List.filterMap_cons_some (b := (t, thread)) (by rw [ht]; rfl),
          ← ih (fun th hth => hids th (List.mem_cons_of_mem _ hth)) _ hrest]
        have htext : py.text (thread.field "id") = t := by
          obtain ⟨s, hs, rfl⟩ := Option.map_eq_some_iff.mp ht
          cases hfield : thread.field "id" with
          | str u =>
              rw [hfield] at hs
              exact congrArg String.toList (Option.some.inj hs)
          | _ =>
              rw [hfield] at hs
              cases hs
        split at hpair
        · cases hpair
          rw [htext]
        · cases hpair
  cases hof
  rw [threadsById, hpairs]

/-! ## Equal canonical texts -/

theorem forall₂_of_mapM {α β : Type} {f : α → Option β} {l : List α} {bs : List β}
    (h : l.mapM f = some bs) : List.Forall₂ (fun a b => f a = some b) l bs := by
  induction l generalizing bs with
  | nil =>
      cases h
      exact .nil
  | cons a l ih =>
      rw [List.mapM_cons] at h
      obtain ⟨b, hb, hmap⟩ := Option.bind_eq_some_iff.mp h
      obtain ⟨rest, hrest, hcons⟩ := Option.bind_eq_some_iff.mp hmap
      cases hcons
      exact .cons hb (ih hrest)

theorem exists_of_forall₂ {α β : Type} {R : α → β → Prop} {l : List α} {bs : List β}
    (h : List.Forall₂ R l bs) : ∀ b ∈ bs, ∃ a, R a b := by
  induction h with
  | nil => exact fun b hb => absurd hb List.not_mem_nil
  | cons hab _ ih =>
      intro b hb
      rcases List.mem_cons.mp hb with rfl | hb
      · exact ⟨_, hab⟩
      · exact ih b hb

theorem mapM_some {α β : Type} {f : α → Option β} {g : α → β} {l : List α}
    (h : ∀ a ∈ l, f a = some (g a)) : l.mapM f = some (l.map g) := by
  induction l with
  | nil => rfl
  | cons a l ih =>
      rw [List.mapM_cons, h a List.mem_cons_self, ih fun b hb => h b (List.mem_cons_of_mem a hb)]
      rfl

theorem map_fst_of_mapM {α β : Type} {f : α → Option (α × β)}
    (hf : ∀ a b, f a = some b → b.1 = a) {l : List α} {bs : List (α × β)} (h : l.mapM f = some bs) :
    bs.map Prod.fst = l := by
  have hall := forall₂_of_mapM h
  clear h
  induction hall with
  | nil => rfl
  | cons hab _ ih => rw [List.map_cons, ih, hf _ _ hab]

theorem projectComment_some {comment value : Json} (h : projectComment comment = some value) :
    ∃ id login body, value
      = .obj [("id", .str id), ("author", .str login), ("body", .str body)] := by
  obtain ⟨id, _, h⟩ := Option.bind_eq_some_iff.mp h
  obtain ⟨login, _, h⟩ := Option.bind_eq_some_iff.mp h
  obtain ⟨body, _, h⟩ := Option.bind_eq_some_iff.mp h
  obtain ⟨_, _, h⟩ := Option.bind_eq_some_iff.mp h
  exact ⟨id, login, body, (Option.some.inj h).symm⟩

theorem projectThread_some {thread value : Json} (h : projectThread thread = some value) :
    ∃ id resolved line path side comments projected,
      value = .obj [("id", .str id), ("isResolved", resolved), ("line", line),
        ("path", .str path), ("side", .str side), ("comments", .arr projected)]
      ∧ resolved.isBool = true ∧ (line.isNull || line.asInt?.isSome) = true
      ∧ List.Forall₂ (fun a b => projectComment a = some b) comments projected := by
  obtain ⟨id, _, h⟩ := Option.bind_eq_some_iff.mp h
  obtain ⟨path, _, h⟩ := Option.bind_eq_some_iff.mp h
  obtain ⟨side, _, h⟩ := Option.bind_eq_some_iff.mp h
  obtain ⟨comments, _, h⟩ := Option.bind_eq_some_iff.mp h
  obtain ⟨_, hguard, h⟩ := Option.bind_eq_some_iff.mp h
  obtain ⟨projected, hmap, h⟩ := Option.bind_eq_some_iff.mp h
  obtain ⟨_, _, h⟩ := Option.bind_eq_some_iff.mp h
  have hguard := (Option.guard_eq_some' _).mp hguard
  simp only [Bool.and_eq_true] at hguard
  exact ⟨id, _, _, path, side, comments, projected, (Option.some.inj h).symm, hguard.1.1.1.2,
    hguard.1.1.2, forall₂_of_mapM hmap⟩

theorem plain_of_isBool {value : Json} (h : value.isBool = true) : JsonText.Plain value := by
  cases value with
  | bool b => trivial
  | _ => cases h

theorem plain_of_line {value : Json} (h : (value.isNull || value.asInt?.isSome) = true) :
    JsonText.Plain value := by
  cases value with
  | null => trivial
  | int n => trivial
  | _ => cases h

theorem sorted_of_isBool {value : Json} (h : value.isBool = true) :
    JsonText.sorted value = value := by
  cases value with
  | bool b => rfl
  | _ => cases h

theorem sorted_of_line {value : Json} (h : (value.isNull || value.asInt?.isSome) = true) :
    JsonText.sorted value = value := by
  cases value with
  | null => rfl
  | int n => rfl
  | _ => cases h

theorem sorted_comment (id login body : String) :
    JsonText.sorted (.obj [("id", .str id), ("author", .str login), ("body", .str body)])
      = .obj [("author", .str login), ("body", .str body), ("id", .str id)] := by
  simp [JsonText.sorted, JsonText.sortedFields, JsonText.sortFields, List.insertionSort,
    List.orderedInsert, Text.sortsBefore]

theorem sorted_thread (id resolved line path side : Json) (comments : List Json) :
    JsonText.sorted (.obj [("id", id), ("isResolved", resolved), ("line", line),
        ("path", path), ("side", side), ("comments", .arr comments)])
      = .obj [("comments", .arr (JsonText.sortedItems comments)), ("id", JsonText.sorted id),
        ("isResolved", JsonText.sorted resolved), ("line", JsonText.sorted line),
        ("path", JsonText.sorted path), ("side", JsonText.sorted side)] := by
  simp [JsonText.sorted, JsonText.sortedFields, JsonText.sortFields, List.insertionSort,
    List.orderedInsert, Text.sortsBefore]

/-- What a projection yields: the order of the fields is no part of it. -/
def Projection (project : Json → Option Json) : Prop :=
  (∀ {a v}, project a = some v → JsonText.Plain v)
    ∧ ∀ {a b v w}, project a = some v → project b = some w →
      JsonText.sorted v = JsonText.sorted w → v = w

/-- Lists of projections with equal sorted items are equal. -/
theorem Projection.items {project : Json → Option Json} (h : Projection project)
    {as bs vs ws : List Json} (has : List.Forall₂ (fun a v => project a = some v) as vs)
    (hbs : List.Forall₂ (fun b w => project b = some w) bs ws)
    (heq : JsonText.sortedItems vs = JsonText.sortedItems ws) : vs = ws := by
  induction has generalizing bs ws with
  | nil =>
      cases hbs with
      | nil => rfl
      | cons hb hbs => cases heq
  | cons ha has ih =>
      cases hbs with
      | nil => cases heq
      | cons hb hbs =>
          obtain ⟨hhead, htail⟩ := List.cons.inj heq
          rw [h.2 ha hb hhead, ih hbs htail]

theorem Projection.plain {project : Json → Option Json} (h : Projection project)
    {as vs : List Json} (has : List.Forall₂ (fun a v => project a = some v) as vs) :
    JsonText.PlainItems vs := by
  induction has with
  | nil => trivial
  | cons ha _ ih => exact ⟨h.1 ha, ih⟩

theorem projection_comment : Projection projectComment := by
  refine ⟨?_, ?_⟩
  · intro a v h
    obtain ⟨id, login, body, rfl⟩ := projectComment_some h
    simp [JsonText.Plain, JsonText.PlainFields]
  · intro a b v w hv hw heq
    obtain ⟨id, login, body, rfl⟩ := projectComment_some hv
    obtain ⟨id', login', body', rfl⟩ := projectComment_some hw
    rw [sorted_comment, sorted_comment] at heq
    simp only [Json.obj.injEq, List.cons.injEq, Prod.mk.injEq, true_and, and_true] at heq
    rw [heq.1, heq.2.1, heq.2.2]

theorem projection_thread : Projection projectThread := by
  refine ⟨?_, ?_⟩
  · intro a v h
    obtain ⟨id, resolved, line, path, side, comments, projected, rfl, hbool, hline, hcomments⟩ :=
      projectThread_some h
    refine ⟨by simp, trivial, plain_of_isBool hbool, plain_of_line hline, trivial, trivial, ?_,
      trivial⟩
    exact projection_comment.plain hcomments
  · intro a b v w hv hw heq
    obtain ⟨id, resolved, line, path, side, _, _, rfl, hbool, hline, hcomments⟩ :=
      projectThread_some hv
    obtain ⟨id', resolved', line', path', side', _, _, rfl, hbool', hline', hcomments'⟩ :=
      projectThread_some hw
    rw [sorted_thread, sorted_thread, sorted_of_isBool hbool, sorted_of_isBool hbool',
      sorted_of_line hline, sorted_of_line hline'] at heq
    simp only [JsonText.sorted, Json.obj.injEq, List.cons.injEq, Prod.mk.injEq, true_and,
      and_true, Json.arr.injEq] at heq
    obtain ⟨hitems, hid, hresolved, hline, hpath, hside⟩ := heq
    rw [projection_comment.items hcomments hcomments' hitems, hid, hresolved, hline, hpath, hside]

theorem canonicalThreadSnapshot_some {threads : List Json} {text : Text}
    (h : canonicalThreadSnapshot floats threads = some text) :
    ∃ projected, List.Forall₂ (fun a v => projectThread a = some v) threads projected
      ∧ text = JsonText.canonicalJson floats (.arr projected) := by
  obtain ⟨_, _, h⟩ := Option.bind_eq_some_iff.mp h
  obtain ⟨projected, hmap, h⟩ := Option.bind_eq_some_iff.mp h
  obtain ⟨_, _, h⟩ := Option.bind_eq_some_iff.mp h
  obtain ⟨_, _, h⟩ := Option.bind_eq_some_iff.mp h
  obtain ⟨_, _, h⟩ := Option.bind_eq_some_iff.mp h
  exact ⟨projected, forall₂_of_mapM hmap, (Option.some.inj h).symm⟩

/-- A canonical text has the ids of its threads. -/
theorem threadIds_some {text : Text} {threads : List Json} {ids : List String}
    (hloads : JsonText.loads floats JsonText.keepLast text = some (.arr threads)) (hne : threads ≠ [])
    (hcanonical : JsonText.canonicalJson floats (.arr threads) = text)
    (hids : threads.mapM (fun thread => (orField thread "thread_id" "id").asStr?) = some ids)
    (hok : (ids.all (· ≠ "") && decide ids.Nodup) = true) : threadIds floats text = some ids := by
  have hchecked :
      (!threads.isEmpty && decide (JsonText.canonicalJson floats (.arr threads) = text)) = true := by
    simp [hcanonical, hne]
  unfold threadIds
  simp only [hloads, hids, hok, hchecked, Json.asArr?, guard, if_true, bind, Option.bind, pure]

/-- Threads that project have a snapshot, if it is not too long. -/
theorem canonicalThreadSnapshot_of_project {threads projected : List Json} {ids : List String}
    (hne : threads ≠ []) (hmap : threads.mapM projectThread = some projected)
    (hnodup : (projected.map fun thread => (thread.field "id").asStr?).Nodup)
    (hids : threadIds floats (JsonText.canonicalJson floats (.arr projected)) = some ids)
    (hlength : (Sha256.encodeUtf8 (JsonText.canonicalJson floats (.arr projected))).length
      ≤ remediationThreadSnapshotMaxBytes) :
    canonicalThreadSnapshot floats threads = some (JsonText.canonicalJson floats (.arr projected)) := by
  have hfilled : (!threads.isEmpty) = true := by simp [hne]
  unfold canonicalThreadSnapshot
  simp only [hfilled, hmap, hids, decide_eq_true hnodup, if_pos hlength, guard, if_true, bind,
    Option.bind, pure]

/-- Lists of threads with one canonical snapshot are the same, thread for thread. -/
theorem sameThreads_of_snapshot {threads others : List Json} {text : Text}
    (h : canonicalThreadSnapshot floats threads = some text)
    (h' : canonicalThreadSnapshot floats others = some text) :
    List.Forall₂ SameThread threads others := by
  obtain ⟨projected, hthreads, htext⟩ := canonicalThreadSnapshot_some h
  obtain ⟨projected', hothers, htext'⟩ := canonicalThreadSnapshot_some h'
  have hsorted := JsonText.canonicalJson_inj
    (show JsonText.Plain (.arr projected) from projection_thread.plain hthreads)
    (show JsonText.Plain (.arr projected') from projection_thread.plain hothers)
    (htext.symm.trans htext')
  obtain rfl := projection_thread.items hthreads hothers (Json.arr.inj hsorted)
  clear h h' htext htext' hsorted
  induction hthreads generalizing others with
  | nil =>
      cases hothers
      exact .nil
  | cons ha _ ih =>
      cases hothers with
      | cons hb hothers => exact .cons ⟨_, ha, hb⟩ (ih hothers)

/-! ## The threads match -/

theorem receiptsById_some (py : PyText) {original live proved out : Dict Text Json} {receipts : List Json}
    (hnd : (proved.map Prod.fst).Nodup)
    (h : receiptsById input result nonce original live proved receipts = some out) :
    out = proved ++ receipts.map (fun r => (receiptKey py r, r))
      ∧ (out.map Prod.fst).Nodup
      ∧ ∀ r ∈ receipts, original.contains (receiptKey py r) = true
        ∧ receiptProved input result nonce live (receiptKey py r) r = true := by
  induction receipts generalizing proved with
  | nil =>
      cases h
      exact ⟨(List.append_nil _).symm, hnd, fun r hr => absurd hr List.not_mem_nil⟩
  | cons receipt receipts ih =>
      rw [receiptsById] at h
      obtain ⟨t, hid, h⟩ := Option.bind_eq_some_iff.mp h
      obtain ⟨_, hguard, h⟩ := Option.bind_eq_some_iff.mp h
      obtain ⟨s, hs, rfl⟩ := Option.map_eq_some_iff.mp hid
      have hguard := (Option.guard_eq_some' _).mp hguard
      simp only [Bool.and_eq_true, Bool.not_eq_true'] at hguard
      rw [← receiptKey_of_text py hs] at h hguard
      have hnew : receiptKey py receipt ∉ proved.map Prod.fst := by
        intro hmem
        obtain ⟨⟨_, value⟩, hitem, rfl⟩ := List.mem_map.mp hmem
        have hcontains := hguard.1.2
        rw [Dict.contains, Dict.get?_of_mem hnd hitem] at hcontains
        cases hcontains
      obtain ⟨hout, hndout, hall⟩ := ih (Dict.nodup_set hnd _ _) h
      rw [Dict.set_of_new proved receipt hnew, List.append_assoc] at hout
      refine ⟨hout, hndout, ?_⟩
      intro r hr
      rcases List.mem_cons.mp hr with rfl | hr
      · exact ⟨hguard.1.1, hguard.2⟩
      · exact hall r hr

theorem expectedThreads_some (py : PyText) {original live expected : Dict Text Json}
    {progress : Option ReplyProgress}
    (h : expectedThreads input result nonce original live progress = some expected) :
    ((receiptsOf progress).map (receiptKey py)).Nodup
      ∧ (∀ r ∈ receiptsOf progress, original.contains (receiptKey py r) = true
        ∧ receiptProved input result nonce live (receiptKey py r) r = true)
      ∧ (∀ p, progress = some p → ∀ r ∈ p.receipts, receiptKey py r ∈ p.repliedThreadIds)
      ∧ ∀ t, expected.get? t = (receiptOf py (receiptsOf progress) t).or (original.get? t) := by
  cases progress with
  | none =>
      cases h
      exact ⟨List.nodup_nil, fun r hr => absurd hr List.not_mem_nil, nofun, fun t => rfl⟩
  | some progress =>
      obtain ⟨_, _, h⟩ := Option.bind_eq_some_iff.mp h
      obtain ⟨proved, hproved, h⟩ := Option.bind_eq_some_iff.mp h
      obtain ⟨_, hguard, h⟩ := Option.bind_eq_some_iff.mp h
      cases h
      obtain ⟨rfl, hnd, hall⟩ := receiptsById_some py
        (show (([] : Dict Text Json).map Prod.fst).Nodup from List.nodup_nil) hproved
      have hguard := (Option.guard_eq_some' _).mp hguard
      simp only [Bool.and_eq_true, List.all_eq_true, List.nil_append] at hguard hnd
      have hkeys : (progress.receipts.map (receiptKey py)).Nodup := by
        rw [List.map_map] at hnd
        exact hnd
      refine ⟨hkeys, hall, ?_, ?_⟩
      · intro p hp r hr
        cases hp
        have hitem := hguard.1 _ (List.mem_map.mpr ⟨r, hr, rfl⟩)
        simpa using hitem
      · intro t
        have hget := Dict.get?_foldl_set (d := original) hnd t
        rw [get?_receipts hkeys] at hget
        exact hget

theorem sameThread_inOrder {expected live : Dict Text Json} {ids : List Text}
    {threads others : List Json} (h : inOrder expected ids = some threads)
    (h' : inOrder live ids = some others) (hsame : List.Forall₂ SameThread threads others) :
    ∀ t ∈ ids, ∃ thread other, expected.get? t = some thread ∧ live.get? t = some other
      ∧ SameThread thread other := by
  have hthreads := forall₂_of_mapM h
  have hothers := forall₂_of_mapM h'
  clear h h'
  induction hthreads generalizing others with
  | nil => exact fun t ht => absurd ht List.not_mem_nil
  | cons hthread _ ih =>
      cases hothers with
      | cons hother hothers =>
          cases hsame with
          | cons hhead hsame =>
              intro t ht
              rcases List.mem_cons.mp ht with rfl | ht
              · exact ⟨_, _, hthread, hother, hhead⟩
              · exact ih hsame hothers t ht

/-- What the check at the end has established. -/
structure Matched (py : PyText) (floats : JsonText.FloatText) (input : RemediationReviewInput)
    (result : RemediationReplyResult) (nonce : Text) (liveThreads : List Json)
    (progress : Option ReplyProgress) : Prop where
  source : (threadsById (input.sourceThreads floats)).length = (input.sourceThreads floats).length
  live : (threadsById liveThreads).length = liveThreads.length
  keys : sameKeys (threadsById (input.sourceThreads floats)) (threadsById liveThreads) = true
  distinct : ((receiptsOf progress).map (receiptKey py)).Nodup
  proved : ∀ r ∈ receiptsOf progress,
    (threadsById (input.sourceThreads floats)).contains (receiptKey py r) = true
      ∧ receiptProved input result nonce (threadsById liveThreads) (receiptKey py r) r = true
  within : ∀ p, progress = some p → ∀ r ∈ p.receipts, receiptKey py r ∈ p.repliedThreadIds
  same : ∀ source ∈ input.sourceThreads floats, ∀ t, threadId? source = some t →
    ∃ found, (threadsById liveThreads).get? t = some found
      ∧ SameThread ((receiptOf py (receiptsOf progress) t).getD source) found

theorem matched_of_matches {progress : Option ReplyProgress}
    (h : progressMatchesLiveThreads floats input result nonce progress liveThreads = true) :
    Matched py floats input result nonce liveThreads progress := by
  unfold progressMatchesLiveThreads at h
  cases hloads : (JsonText.loads floats JsonText.keepLast input.threadSnapshotJson).bind
      Json.asArr? with
  | none => simp only [hloads, Bool.false_eq_true] at h
  | some original =>
      have hsources : input.sourceThreads floats = original := by
        rw [RemediationReviewInput.sourceThreads, hloads]
        rfl
      simp only [hloads] at h
      split at h
      · cases h
      · next hindex =>
        simp only [not_or, not_not, Bool.not_eq_false] at hindex
        obtain ⟨hsource, hlive, hkeys⟩ := hindex
        cases hexpected : expectedThreads input result nonce (threadsById original)
            (threadsById liveThreads) progress with
        | none => simp only [hexpected, Bool.false_eq_true] at h
        | some expected =>
            simp only [hexpected] at h
            obtain ⟨hdistinct, hproved, hwithin, hget⟩ := expectedThreads_some py hexpected
            split at h
            · next expectedJson liveJson hexpectedJson hliveJson =>
              obtain rfl := of_decide_eq_true h
              obtain ⟨threads, hthreads, hsnapshot⟩ := Option.bind_eq_some_iff.mp hexpectedJson
              obtain ⟨others, hothers, hsnapshot'⟩ := Option.bind_eq_some_iff.mp hliveJson
              have hsame := sameThread_inOrder hthreads hothers
                (sameThreads_of_snapshot hsnapshot hsnapshot')
              rw [← hsources] at hsource hkeys hproved hget hsame
              refine ⟨hsource, hlive, hkeys, hdistinct, hproved, hwithin, ?_⟩
              intro source hmem t ht
              obtain ⟨thread, found, hthread, hfound, heq⟩ :=
                hsame t (List.mem_filterMap.mpr ⟨source, hmem, ht⟩)
              refine ⟨found, hfound, ?_⟩
              rw [hget, (get?_threadsById hsource).mpr ⟨hmem, ht⟩, Option.or_some] at hthread
              rw [Option.some.inj hthread]
              exact heq
            · cases h

theorem Matched.matchesSource {progress : Option ReplyProgress}
    (h : Matched py floats input result nonce liveThreads progress) :
    MatchesSource py floats input liveThreads (receiptsOf progress) := by
  obtain ⟨hlist, hnd, hids⟩ := threadsById_spec h.live
  refine ⟨?_, ?_, ?_⟩
  · have hkeys : (liveThreads.filterMap fun thread => (threadId? thread).map (·, thread)).map
        (fun item => some item.1) = liveThreads.map threadId? := by
      clear h hlist hnd
      induction liveThreads with
      | nil => rfl
      | cons thread threads ih =>
          obtain ⟨t, ht⟩ := Option.isSome_iff_exists.mp (hids thread List.mem_cons_self)
          rw [List.filterMap_cons_some (b := (t, thread)) (by rw [ht]; rfl), List.map_cons,
            List.map_cons, ih fun th hth => hids th (List.mem_cons_of_mem _ hth), ht]
    have hsome := hnd.map (Option.some_injective Text)
    rw [List.map_map, hlist] at hsome
    rw [← hkeys]
    exact hsome
  · intro found hfound
    obtain ⟨t, ht⟩ := Option.isSome_iff_exists.mp (hids found hfound)
    have hget := (get?_threadsById h.live).mpr ⟨hfound, ht⟩
    have hkeys := h.keys
    simp only [sameKeys, Bool.and_eq_true, List.all_eq_true] at hkeys
    have hcontains := hkeys.2 _ (Dict.mem_of_get? hget)
    obtain ⟨source, hsource⟩ := Option.isSome_iff_exists.mp hcontains
    obtain ⟨hmem, hid⟩ := (get?_threadsById h.source).mp hsource
    exact ⟨t, source, ht, hmem, hid⟩
  · intro source hsource
    obtain ⟨t, ht⟩ := Option.isSome_iff_exists.mp ((threadsById_spec h.source).2.2 source hsource)
    obtain ⟨found, hget, hsame⟩ := h.same source hsource t ht
    obtain ⟨hfound, hid⟩ := (get?_threadsById h.live).mp hget
    exact ⟨t, found, ht, hfound, hid, hsame⟩

/-! ## The loop over the threads -/

/-- The comments are those of the source and one by the viewer on the recovery
commit. -/
def OneReply (input : RemediationReviewInput) (canonical : List (String × String × String))
    (comments : List Json) : Prop :=
  ∃ before final, comments = before ++ [final]
    ∧ canonicalCommentPrefix before = .ok canonical
    ∧ byViewer final = true
    ∧ isText (final.field "review_commit_sha") input.recoveryCommitSha = true

/-- The live thread of a source thread has one reply more. -/
def Replied (input : RemediationReviewInput) (live : Dict Text Json) (thread : Text × Json) :
    Prop :=
  ∃ found sourceComments comments canonical, live.get? thread.1 = some found
    ∧ (thread.2.field "comments").asArr? = some sourceComments
    ∧ (found.field "comments").asArr? = some comments
    ∧ canonicalCommentPrefix sourceComments = .ok canonical
    ∧ OneReply input canonical comments

@[simp] theorem recovered_notePullRequest (s : Recovery) (live : Json) :
    (s.notePullRequest live).recovered = s.recovered := by
  rw [Recovery.notePullRequest]
  split
  · rfl
  · rfl

@[simp] theorem recovered_noteReview (s : Recovery) (final : Json) :
    (s.noteReview final).recovered = s.recovered := by
  simp only [Recovery.noteReview]
  split
  · split
    · rfl
    · rfl
  · rfl

theorem oneMore_ok {canonical : List (String × String × String)} {comments : List Json}
    {final : Json} (h : oneMore canonical comments = .ok final) :
    ∃ before, comments = before ++ [final] ∧ canonicalCommentPrefix before = .ok canonical := by
  obtain ⟨hlength, h⟩ := check_bind_ok.mp h
  obtain ⟨before, hbefore, h⟩ := except_bind_ok.mp h
  obtain ⟨hsame, h⟩ := check_bind_ok.mp h
  rw [raiseIf_ok, not_not] at hlength hsame
  cases h
  have hne : comments ≠ [] := by
    rintro rfl
    cases hlength
  refine ⟨comments.dropLast, ?_, hsame ▸ hbefore⟩
  rw [List.getLastD_eq_getLast?, List.getLast?_eq_some_getLast hne, Option.getD_some,
    List.dropLast_append_getLast]

section Turn

variable {canonical : List (String × String × String)} {liveThread : Json} {comments : List Json}
  {t : Text} {s s' : Recovery}

theorem confirmReply_ok {prior : Json}
    (h : confirmReply input canonical liveThread comments prior t s = .ok s') :
    OneReply input canonical comments
      ∧ ∀ t', t ≠ t' → s'.recovered.get? t' = s.recovered.get? t' := by
  obtain ⟨final, hfinal, h⟩ := except_bind_ok.mp h
  obtain ⟨hchecks, h⟩ := check_bind_ok.mp h
  obtain ⟨_, _, h⟩ := except_bind_ok.mp h
  obtain ⟨_, h⟩ := check_bind_ok.mp h
  obtain ⟨_, _, h⟩ := except_bind_ok.mp h
  obtain ⟨_, _, h⟩ := except_bind_ok.mp h
  cases h
  obtain ⟨before, hcomments, hbefore⟩ := oneMore_ok hfinal
  rw [raiseIf_ok] at hchecks
  simp only [Bool.not_eq_true', Bool.not_eq_false, Bool.and_eq_true] at hchecks
  refine ⟨⟨before, final, hcomments, hbefore, hchecks.1.2, hchecks.2⟩, ?_⟩
  intro t' ht
  rw [recovered_noteReview, Dict.get?_set_ne _ _ ht]

theorem discoverReply_ok {reply : Text}
    (h : discoverReply input canonical liveThread comments reply nonce t s = .ok s') :
    OneReply input canonical comments
      ∧ ∀ t', t ≠ t' → s'.recovered.get? t' = s.recovered.get? t' := by
  obtain ⟨final, hfinal, h⟩ := except_bind_ok.mp h
  obtain ⟨hchecks, h⟩ := check_bind_ok.mp h
  obtain ⟨_, _, h⟩ := except_bind_ok.mp h
  obtain ⟨_, h⟩ := check_bind_ok.mp h
  obtain ⟨hcommit, h⟩ := check_bind_ok.mp h
  cases h
  obtain ⟨before, hcomments, hbefore⟩ := oneMore_ok hfinal
  rw [raiseIf_ok] at hchecks hcommit
  simp only [Bool.not_eq_true', Bool.not_eq_false, Bool.and_eq_true] at hchecks hcommit
  refine ⟨⟨before, final, hcomments, hbefore, hchecks.1.1.2, hcommit⟩, ?_⟩
  intro t' ht
  rw [recovered_noteReview, Dict.get?_set_ne _ _ ht]

/-- A turn changes the receipt of its own thread only, and leaves that thread one
only where the live thread has a reply. -/
theorem recoverThread_ok {live : Dict Text Json} {thread : Text × Json}
    (h : recoverThread input result nonce live s thread = .ok s') :
    (∀ t, thread.1 ≠ t → s'.recovered.get? t = s.recovered.get? t)
      ∧ ((s'.recovered.get? thread.1).isSome → Replied input live thread) := by
  simp only [recoverThread] at h
  split at h
  · next sourceComments comments hsource hlive =>
    obtain ⟨canonical, hcanonical, h⟩ := except_bind_ok.mp h
    have hreplied : OneReply input canonical comments → Replied input live thread := by
      intro hone
      cases hget : live.get? thread.1 with
      | none =>
          rw [hget] at hlive
          cases hlive
      | some found =>
          rw [hget] at hlive
          exact ⟨found, sourceComments, comments, canonical, hget, hsource, hlive, hcanonical,
            hone⟩
    simp only [recovered_notePullRequest] at h
    split at h
    · obtain ⟨hone, hframe⟩ := confirmReply_ok h
      exact ⟨fun t ht => by rw [hframe t ht, recovered_notePullRequest],
        fun _ => hreplied hone⟩
    · next hnone _ =>
      cases h
      refine ⟨fun t _ => by rw [recovered_notePullRequest], ?_⟩
      intro hsome
      rw [recovered_notePullRequest, hnone] at hsome
      cases hsome
    · next hnone _ =>
      split at h
      · obtain ⟨now, _, h⟩ := except_bind_ok.mp h
        split at h
        · cases h
          refine ⟨fun t _ => by rw [recovered_notePullRequest], ?_⟩
          intro hsome
          rw [recovered_notePullRequest, hnone] at hsome
          cases hsome
        · cases h
      · obtain ⟨hone, hframe⟩ := discoverReply_ok h
        exact ⟨fun t ht => by rw [hframe t ht, recovered_notePullRequest],
          fun _ => hreplied hone⟩
  · cases h

end Turn

/-- After the loop every thread with a receipt has a reply. -/
theorem recoverThreads_ok {live threads : Dict Text Json} {s s' : Recovery}
    (hnd : (threads.map Prod.fst).Nodup)
    (h : threads.foldlM (recoverThread input result nonce live) s = .ok s') :
    (∀ t, t ∉ threads.map Prod.fst → s'.recovered.get? t = s.recovered.get? t)
      ∧ ∀ thread ∈ threads, (s'.recovered.get? thread.1).isSome → Replied input live thread := by
  induction threads generalizing s with
  | nil =>
      cases h
      exact ⟨fun _ _ => rfl, fun thread hmem => absurd hmem List.not_mem_nil⟩
  | cons thread threads ih =>
      rw [List.foldlM_cons] at h
      obtain ⟨middle, hturn, h⟩ := except_bind_ok.mp h
      obtain ⟨hnew, hnd⟩ := List.nodup_cons.mp hnd
      obtain ⟨hframe, hreplied⟩ := recoverThread_ok hturn
      obtain ⟨hrest, hall⟩ := ih hnd h
      refine ⟨?_, ?_⟩
      · intro t ht
        rw [List.map_cons, List.mem_cons, not_or] at ht
        rw [hrest t ht.2, hframe t fun heq => ht.1 heq.symm]
      · intro other hmem hsome
        rcases List.mem_cons.mp hmem with rfl | hmem
        · rw [hrest _ hnew] at hsome
          exact hreplied hsome
        · exact hall other hmem hsome

/-! ## Identities -/

/-- The fields of an identity are texts. -/
def TextIdentity (receipt : Json) : Prop :=
  ∀ field ∈ identityFields, ∃ s, receipt.field field = .str s

/-- Texts are equal where they are the same; what is equal to a text is one. -/
theorem sameIdentity_iff {current previous : Json} (h : TextIdentity current) :
    sameIdentity current previous = true ↔
      ∀ field ∈ identityFields, previous.field field = current.field field := by
  rw [sameIdentity, List.all_eq_true]
  refine forall_congr' fun field => forall_congr' fun hfield => ?_
  obtain ⟨s, hs⟩ := h field hfield
  have heq : Json.eq (current.field field) (previous.field field) = true ↔
      previous.field field = current.field field := by
    rw [hs, Json.str_eq_iff]
  exact heq

theorem TextIdentity.of_same {current previous : Json} (h : TextIdentity current)
    (hsame : sameIdentity current previous = true) : TextIdentity previous := by
  intro field hfield
  rw [(sameIdentity_iff h).mp hsame field hfield]
  exact h field hfield

/-- What a proved receipt shows: its reply, and the final live comment. -/
theorem receiptProved_iff {live : Dict Text Json} {t : Text} {receipt : Json}
    (h : receiptProved input result nonce live t receipt = true) :
    TextIdentity receipt ∧ isFilled (receipt.field "implementation_reply_id") = true
      ∧ ∃ reply final, result.replies.get? t = some reply
        ∧ (live.get? t).bind lastComment? = some final
        ∧ final.field "id" = receipt.field "implementation_reply_id"
        ∧ final.field "body" = .str (String.ofList (input.replyBody t reply nonce)) := by
  rw [receiptProved, Bool.and_eq_true] at h
  obtain ⟨hhead, h⟩ := h
  split at h
  · next reply proved final hreply _ hfinal =>
    simp only [Bool.and_eq_true, List.all_eq_true] at h
    obtain ⟨⟨⟨⟨⟨⟨hid, hbody⟩, _⟩, hprovedId⟩, hprovedBody⟩, _⟩, hfields⟩ := h
    obtain ⟨s, hs, _⟩ := isFilled_iff.mp hid
    rw [hs, Json.eq_str_iff] at hprovedId
    rw [isText_iff] at hhead hbody hprovedBody
    have hfinalId := hfields "id" (by decide)
    have hfinalBody := hfields "body" (by decide)
    rw [hprovedId, Json.eq_str_iff] at hfinalId
    rw [hprovedBody, Json.eq_str_iff] at hfinalBody
    refine ⟨?_, hid, reply, final, hreply, hfinal, hfinalId.trans hs.symm, hfinalBody⟩
    intro field hfield
    simp only [identityFields, List.mem_cons, List.not_mem_nil, or_false] at hfield
    rcases hfield with rfl | rfl | rfl
    · exact ⟨s, hs⟩
    · exact ⟨_, hbody⟩
    · exact ⟨_, hhead⟩
  · cases h

theorem Matched.textIdentity {progress : Option ReplyProgress}
    (h : Matched py floats input result nonce liveThreads progress) :
    ∀ r ∈ receiptsOf progress, TextIdentity r :=
  fun r hr => (receiptProved_iff (h.proved r hr).2).1

/-- Where the receipts of the record are proved, no two name one thread. -/
theorem Matched.receiptsAgree {progress : Option ReplyProgress}
    (h : Matched py floats input result nonce liveThreads progress) :
    ReceiptsAgree py progress := by
  intro r hr r' hr' hkey
  obtain rfl := eq_of_key_eq h.distinct hr hr' hkey
  exact (sameIdentity_iff (h.textIdentity r hr)).mpr fun _ _ => rfl

/-- One receipt stands for all the receipts of the record it keeps. -/
theorem receiptsAgree_of_keeps {progress : Option ReplyProgress} {inferred : ReplyProgress}
    (h : Matched py floats input result nonce liveThreads (some inferred))
    (hkeeps : KeepsIdentities py progress inferred.receipts) : ReceiptsAgree py progress := by
  intro r hr r' hr' hkey
  obtain ⟨c, hc, hckey, hsame⟩ := hkeeps r hr
  obtain ⟨c', hc', hckey', hsame'⟩ := hkeeps r' hr'
  obtain rfl := eq_of_key_eq h.distinct hc hc' ((hckey.trans hkey).trans hckey'.symm)
  have htext := h.textIdentity c hc
  refine (sameIdentity_iff (htext.of_same hsame)).mpr fun field hfield => ?_
  rw [(sameIdentity_iff htext).mp hsame field hfield,
    (sameIdentity_iff htext).mp hsame' field hfield]

/-- The check for lost receipts looks at the last receipt of a thread; the others
are kept where they agree with it. -/
theorem keepsIdentities_of_monotonic {progress : Option ReplyProgress} {inferred : ReplyProgress}
    (h : Matched py floats input result nonce liveThreads (some inferred))
    (hmono : progressIsMonotonic py progress (some inferred) = true)
    (hagree : ReceiptsAgree py progress) : KeepsIdentities py progress inferred.receipts := by
  intro r hr
  cases progress with
  | none => exact absurd hr List.not_mem_nil
  | some previous =>
      simp only [progressIsMonotonic, Bool.and_eq_true] at hmono
      have hkept := List.all_eq_true.mp hmono.2.2 _ (List.mem_map_of_mem hr)
      cases hlast : receiptOf py previous.receipts (receiptKey py r) with
      | none => exact absurd rfl (receiptOf_none hlast r hr)
      | some last =>
          rw [hlast] at hkept
          cases hcurrent : receiptOf py inferred.receipts (receiptKey py r) with
          | none =>
              rw [hcurrent] at hkept
              cases hkept
          | some current =>
              rw [hcurrent] at hkept
              have hsame : sameIdentity current last = true := by
                cases current with
                | obj fields => exact hkept
                | _ => cases hkept
              obtain ⟨hkey, hmem⟩ := receiptOf_some hcurrent
              obtain ⟨hlastKey, hlastMem⟩ := receiptOf_some hlast
              have htext := h.textIdentity current hmem
              have hlastSame := hagree last hlastMem r hr hlastKey
              refine ⟨current, hmem, hkey, (sameIdentity_iff htext).mpr fun field hfield => ?_⟩
              rw [(sameIdentity_iff (htext.of_same hsame)).mp hlastSame field hfield,
                (sameIdentity_iff htext).mp hsame field hfield]

/-! ## The recovery -/

/-- What a recovery that returned has done: nothing, since the record matches, or
the loop over the threads and the two checks after it. -/
theorem recoverLiveProgress_ok {progress out : Option ReplyProgress}
    (h : recoverLiveProgress py floats input result nonce progress liveThreads = .ok out) :
    (out = progress
      ∧ progressMatchesLiveThreads floats input result nonce progress liveThreads = true) ∨
    ∃ originalById liveById recovered s,
      indexThreads py (input.sourceThreads floats) = .ok originalById
      ∧ indexThreads py liveThreads = .ok liveById
      ∧ originalById.foldlM (recoverThread input result nonce liveById)
        { recovered := recovered } = .ok s
      ∧ out = some (s.progress result)
      ∧ progressIsMonotonic py progress (some (s.progress result)) = true
      ∧ progressMatchesLiveThreads floats input result nonce (some (s.progress result))
        liveThreads = true := by
  unfold recoverLiveProgress at h
  split at h
  · next hmatches =>
    cases h
    exact .inl ⟨rfl, hmatches⟩
  · cases hloads : JsonText.loads floats JsonText.keepLast input.threadSnapshotJson with
    | none =>
        simp only [hloads] at h
        cases h
    | some snapshot =>
        cases harr : snapshot.asArr? with
        | none =>
            simp only [hloads, harr] at h
            cases h
        | some original =>
            simp only [hloads, harr] at h
            have hsources : input.sourceThreads floats = original := by
              rw [RemediationReviewInput.sourceThreads, hloads, Option.bind_some, harr]
              rfl
            obtain ⟨originalById, horiginal, h⟩ := except_bind_ok.mp h
            obtain ⟨liveById, hlive, h⟩ := except_bind_ok.mp h
            obtain ⟨_, h⟩ := check_bind_ok.mp h
            obtain ⟨s, hloop, h⟩ := except_bind_ok.mp h
            obtain ⟨_, h⟩ := check_bind_ok.mp h
            obtain ⟨hchecks, h⟩ := check_bind_ok.mp h
            rw [raiseIf_ok] at hchecks
            simp only [Bool.or_eq_true, Bool.not_eq_true', not_or, Bool.not_eq_false] at hchecks
            cases h
            exact .inr ⟨originalById, liveById, _, s, hsources ▸ horiginal, hlive, hloop, rfl,
              hchecks.1, hchecks.2⟩

/-- The recovered progress matches, whichever way it came about. -/
theorem matched_of_recovered {progress out : Option ReplyProgress}
    (h : recoverLiveProgress py floats input result nonce progress liveThreads = .ok out) :
    Matched py floats input result nonce liveThreads out := by
  rcases recoverLiveProgress_ok h with ⟨rfl, hmatches⟩ | ⟨_, _, _, _, _, _, _, rfl, _, hmatches⟩
  · exact matched_of_matches hmatches
  · exact matched_of_matches hmatches

/-- The receipt of a thread that matches and went through the loop is proved. -/
theorem provedReply_of_matched {s : Recovery} {originalById liveById recovered : Dict Text Json}
    (h : Matched py floats input result nonce liveThreads (some (s.progress result)))
    (horiginal : indexThreads py (input.sourceThreads floats) = .ok originalById)
    (hlive : indexThreads py liveThreads = .ok liveById)
    (hloop : originalById.foldlM (recoverThread input result nonce liveById)
      { recovered := recovered } = .ok s)
    {r : Json} (hr : r ∈ (s.progress result).receipts) :
    ProvedReply py floats input result nonce liveThreads r := by
  obtain rfl := indexThreads_eq h.source horiginal
  obtain rfl := indexThreads_eq h.live hlive
  obtain ⟨hknown, hproved⟩ := h.proved r hr
  obtain ⟨source, hsource⟩ := Option.isSome_iff_exists.mp hknown
  obtain ⟨_, hfilled, reply, last, hreply, hlast, hid, hbody⟩ := receiptProved_iff hproved
  have hkept : (s.recovered.get? (receiptKey py r)).isSome := by
    have hmem := h.within _ rfl r hr
    rw [Recovery.progress, List.mem_insertionSort, List.mem_map] at hmem
    obtain ⟨⟨key, value⟩, hitem, hkey⟩ := hmem
    rw [Dict.get?, Option.isSome_map, List.find?_isSome]
    exact ⟨_, hitem, decide_eq_true hkey⟩
  obtain ⟨found, sourceComments, comments, canonical, hfound, hsourceComments, hcomments,
    hcanonical, before, final, rfl, hbefore, hviewer, hcommit⟩ :=
    (recoverThreads_ok (threadsById_spec h.source).2.1 hloop).2 _ (Dict.mem_of_get? hsource) hkept
  obtain rfl : final = last := by
    simp only [hfound, Option.bind_some, lastComment?, hcomments, Option.getD_some,
      List.getLast?_concat, Option.some.injEq] at hlast
    exact hlast
  obtain ⟨hsourceMem, hsourceId⟩ := (get?_threadsById h.source).mp hsource
  obtain ⟨hfoundMem, hfoundId⟩ := (get?_threadsById h.live).mp hfound
  exact ⟨source, found, reply, sourceComments, before, final, canonical, hsourceMem, hsourceId,
    hfoundMem, hfoundId, hreply, hsourceComments, hcomments, hcanonical, hbefore, hfilled, hid,
    hbody, hviewer, hcommit⟩

theorem Recovered.receiptsAgree {progress out : Option ReplyProgress}
    (h : Recovered py floats input result nonce liveThreads progress out)
    (hmatched : Matched py floats input result nonce liveThreads out) :
    ReceiptsAgree py progress := by
  cases h with
  | unchanged _ => exact hmatched.receiptsAgree
  | replaced inferred hkeeps _ _ _ => exact receiptsAgree_of_keeps hmatched hkeeps

/-- A recovery that returns keeps the record and makes no reply up exactly where
the receipts of the record that name one thread agree. -/
theorem recovered_iff {progress out : Option ReplyProgress}
    (h : recoverLiveProgress py floats input result nonce progress liveThreads = .ok out) :
    Recovered py floats input result nonce liveThreads progress out ↔
      ReceiptsAgree py progress := by
  have hmatched := matched_of_recovered h
  constructor
  · exact fun hrecovered => hrecovered.receiptsAgree hmatched
  · intro hagree
    rcases recoverLiveProgress_ok h with
      ⟨rfl, _⟩ | ⟨originalById, liveById, _, s, horiginal, hlive, hloop, rfl, hmono, _⟩
    · exact .unchanged hmatched.matchesSource
    · refine .replaced _ (keepsIdentities_of_monotonic hmatched hmono hagree)
        (fun r hr => provedReply_of_matched hmatched horiginal hlive hloop hr) ?_
        hmatched.matchesSource
      intro source hsource t ht hothers
      obtain ⟨found, hget, hsame⟩ := hmatched.same source hsource t ht
      obtain ⟨hfound, hid⟩ := (get?_threadsById hmatched.live).mp hget
      have hnone : receiptOf py (s.progress result).receipts t = none := by
        cases hreceipt : receiptOf py (s.progress result).receipts t with
        | none => rfl
        | some r =>
            obtain ⟨hkey, hr⟩ := receiptOf_some hreceipt
            exact absurd hkey (hothers r hr)
      have hreceipts : receiptsOf (some (s.progress result)) = (s.progress result).receipts := rfl
      rw [hreceipts, hnone] at hsame
      exact ⟨found, hfound, hid, hsame⟩

/-! ## A crash after the first reply -/

/-! ## What goes through -/

theorem discoverReply_of {reply threadId : Text} {final : Json} {s : Recovery}
    (hmore : oneMore canonical comments = .ok final)
    (hshown : (final.asObj?.isSome && isText (final.field "body") (input.replyBody threadId reply nonce)
      && byViewer final && isFilled (final.field "id") && isFilled (final.field "review_id")) = true)
    (hstate : knownState final = .ok true)
    (hcommit : isText (final.field "review_commit_sha") input.recoveryCommitSha = true) :
    discoverReply input canonical liveThread comments reply nonce threadId s
      = .ok ({ s with
          recovered := s.recovered.set threadId
            (liveReceipt liveThread (final.field "id")
              (.str (String.ofList (input.replyBody threadId reply nonce)))
              input.recoveryCommitSha) }.noteReview final) := by
  unfold discoverReply
  simp only [hmore, hshown, hstate, hcommit, raiseIf, bind, Except.bind, pure, Except.pure,
    Bool.not_true, Bool.false_eq_true, if_false]

theorem confirmReply_of {threadId : Text} {final prior replyId body : Json} {s : Recovery}
    (hmore : oneMore canonical comments = .ok final)
    (hshown : (final.asObj?.isSome && (final.field "id").eq (prior.field "implementation_reply_id")
      && (final.field "body").eq (prior.field "implementation_reply_body") && byViewer final
      && isText (final.field "review_commit_sha") input.recoveryCommitSha) = true)
    (hstate : knownState final = .ok true) (hid : item prior "implementation_reply_id" = .ok replyId)
    (hbody : item prior "implementation_reply_body" = .ok body) :
    confirmReply input canonical liveThread comments prior threadId s
      = .ok ({ s with
          recovered := s.recovered.set threadId
            (liveReceipt liveThread replyId body input.recoveryCommitSha) }.noteReview final) := by
  unfold confirmReply
  simp only [hmore, hshown, hstate, hid, hbody, raiseIf, bind, Except.bind, pure, Except.pure,
    Bool.not_true, Bool.false_eq_true, if_false]

theorem recoverThread_discover {live : Dict Text Json} {thread : Text × Json} {s : Recovery}
    {originals : List Json} {reply : Text} (hlive : (live.get? thread.1).getD .null = liveThread)
    (horiginals : (thread.2.field "comments").asArr? = some originals)
    (hcomments : (liveThread.field "comments").asArr? = some comments)
    (hcanonical : canonicalCommentPrefix originals = .ok canonical)
    (hprior : s.recovered.get? thread.1 = none) (hreply : result.replies.get? thread.1 = some reply)
    (hlength : comments.length ≠ originals.length) :
    recoverThread input result nonce live s thread
      = discoverReply input canonical liveThread comments reply nonce thread.1
        (s.notePullRequest liveThread) := by
  unfold recoverThread
  simp only [hlive, horiginals, hcomments, hcanonical, recovered_notePullRequest, hprior, hreply,
    if_neg hlength, bind, Except.bind]

theorem recoverThread_confirm {live : Dict Text Json} {thread : Text × Json} {s : Recovery}
    {originals : List Json} {prior : Json} (hlive : (live.get? thread.1).getD .null = liveThread)
    (horiginals : (thread.2.field "comments").asArr? = some originals)
    (hcomments : (liveThread.field "comments").asArr? = some comments)
    (hcanonical : canonicalCommentPrefix originals = .ok canonical)
    (hprior : s.recovered.get? thread.1 = some prior) :
    recoverThread input result nonce live s thread
      = confirmReply input canonical liveThread comments prior thread.1
        (s.notePullRequest liveThread) := by
  unfold recoverThread
  simp only [hlive, horiginals, hcomments, hcanonical, recovered_notePullRequest, hprior, bind,
    Except.bind]

/-- One receipt that is proved takes the place of its thread. -/
theorem expectedThreads_one {original live : Dict Text Json} {progress : ReplyProgress} {t : Text}
    {receipt : Json} (hreplied : progress.repliedThreadIds = [t]) (hreceipts : progress.receipts = [receipt])
    (hid : (orField receipt "id" "thread_id").asStr?.map String.toList = some t)
    (hin : original.contains t = true)
    (hproved : receiptProved input result nonce live t receipt = true) :
    expectedThreads input result nonce original live (some progress) = some (original.set t receipt) := by
  have hnew : Dict.contains ([] : Dict Text Json) t = false := rfl
  have hby : receiptsById input result nonce original live [] [receipt] = some (Dict.set [] t receipt) := by
    simp only [receiptsById, hid, hin, hproved, hnew, guard, bind, Option.bind, pure, Bool.not_false,
      Bool.and_self, if_true]
  unfold expectedThreads
  simp [hreplied, hreceipts, hby, Dict.set, Dict.contains, Dict.get?]

theorem progressMatches_of {progress : Option ReplyProgress} {liveThreads original : List Json}
    {originalById liveById expected : Dict Text Json} {ids : List Text} {text : Text}
    (hsource : (JsonText.loads floats JsonText.keepLast input.threadSnapshotJson).bind Json.asArr?
      = some original)
    (horiginal : threadsById original = originalById) (hlive : threadsById liveThreads = liveById)
    (hlength : originalById.length = original.length) (hlength' : liveById.length = liveThreads.length)
    (hkeys : sameKeys originalById liveById = true) (hids : original.filterMap threadId? = ids)
    (hexpected : expectedThreads input result nonce originalById liveById progress = some expected)
    (htext : (inOrder expected ids).bind (canonicalThreadSnapshot floats) = some text)
    (htext' : (inOrder liveById ids).bind (canonicalThreadSnapshot floats) = some text) :
    progressMatchesLiveThreads floats input result nonce progress liveThreads = true := by
  unfold progressMatchesLiveThreads
  simp [hsource, horiginal, hlive, hlength, hlength', hkeys, hids, hexpected, htext, htext']

/-- A recovery of one thread goes through when what it infers goes on from the progress and
matches. -/
theorem recoverLiveProgress_of {progress : Option ReplyProgress} {liveThreads : List Json}
    {source : Json} {t : Text} {prior : Dict Text Json} {s : Recovery}
    (hsource : JsonText.loads floats JsonText.keepLast input.threadSnapshotJson = some (.arr [source]))
    (horiginal : indexThreads py [source] = .ok [(t, source)])
    (hlive : indexThreads py liveThreads = .ok [(t, liveThread)]) (hone : liveThreads.length = 1)
    (hprior : Dict.ofPairs (((progress.map ReplyProgress.receipts).getD []).map fun receipt =>
      (receiptKey py receipt, receipt)) = prior)
    (hrecover : recoverThread input result nonce [(t, liveThread)] { recovered := prior } (t, source) = .ok s)
    (hpull : s.pullRequestIds.length = 1) (hpending : ¬ 1 < s.pendingReviewIds.length)
    (hrecovered : s.recovered ≠ [])
    (hmonotonic : progressIsMonotonic py progress (some (s.progress result)) = true)
    (hmatches : progressMatchesLiveThreads floats input result nonce (some (s.progress result)) liveThreads
      = true) :
    ∃ out, recoverLiveProgress py floats input result nonce progress liveThreads = .ok out := by
  have hkeys : sameKeys [(t, source)] [(t, liveThread)] = true := by
    simp [sameKeys, Dict.contains, Dict.get?]
  unfold recoverLiveProgress
  split
  · exact ⟨_, rfl⟩
  · simp [hsource, Json.asArr?, horiginal, hlive, hone, hkeys, hprior, hrecover, hpull,
      hpending, hrecovered, hmonotonic, hmatches, raiseIf, bind, Except.bind, pure, Except.pure]

/-- Numbers without a fraction only. -/
def integersOnly : JsonText.FloatText where
  repr _ := []
  parse _ := .nan

/-- The comment of a reviewer. -/
def reviewComment : Json :=
  .obj [("id", .str "c"), ("author", .str "reviewer"), ("body", .str "Fix.")]

/-- The review of one thread. -/
def crashedReview : RemediationReviewInput where
  repository := "o/r".toList
  issueNumber := 6
  prNumber := 7
  branch := "b".toList
  recoveryCommitSha := List.replicate 40 'b'
  threadSnapshotJson := JsonText.canonicalJson integersOnly
    (.arr [.obj [("id", .str "T"), ("isResolved", .bool false), ("line", .null),
      ("path", .str ""), ("side", .str "RIGHT"), ("comments", .arr [reviewComment])]])
  canonicalText := []

/-- Its reply. -/
def crashedReplies : RemediationReplyResult where
  reviewInputSha256 := List.replicate 64 '0'
  replies := [(['T'], "Done.".toList)]
  distinct := by decide

/-- The body of the reply. -/
def crashedBody : Json :=
  .str (String.ofList (crashedReview.replyBody ['T'] "Done.".toList (List.replicate 32 '1')))

/-- The thread after the crash. -/
def crashedThread : Json :=
  .obj [("id", .str "T"), ("isResolved", .bool false), ("line", .null), ("path", .str ""),
    ("comments", .arr [reviewComment,
      .obj [("id", .str "x"), ("author", .str "host"), ("body", crashedBody),
        ("viewer_did_author", .bool true), ("review_id", .str "R"),
        ("review_state", .str "PENDING"),
        ("review_commit_sha", .str (String.ofList (List.replicate 40 'b')))]]),
    ("pr_node_id", .str "P")]

/-- The receipt of a reply under the thread. -/
def crashedReceipt (replyId : String) : Json :=
  .obj [("id", .str "T"), ("implementation_reply_id", .str replyId),
    ("implementation_reply_body", crashedBody),
    ("implementation_head_sha", .str (String.ofList (List.replicate 40 'b')))]

/-- A record with two receipts of one thread. -/
def twoReceipts : ReplyProgress :=
  { phase := "post_replies", pullRequestId := ['P'], pendingReviewId := some ['R']
    repliedThreadIds := [['T']]
    receipts := [crashedReceipt "w", crashedReceipt "x"]
    activeThreadId := none, activeCommentId := none }

/-- The recovery of the thread from a record. -/
def crashedRecovery (progress : Option ReplyProgress) :
    Except RecoveryError (Option ReplyProgress) :=
  recoverLiveProgress asciiText integersOnly crashedReview crashedReplies (List.replicate 32 '1')
    progress [crashedThread]

/-! ## One crash -/

/-- The text of the body. -/
def crashedText : Text :=
  crashedReview.replyBody ['T'] "Done.".toList (List.replicate 32 '1')

/-- The comment of the host under the crashed thread. -/
def hostFinal : Json :=
  .obj [("id", .str "x"), ("author", .str "host"), ("body", crashedBody),
    ("viewer_did_author", .bool true), ("review_id", .str "R"), ("review_state", .str "PENDING"),
    ("review_commit_sha", .str (String.ofList (List.replicate 40 'b')))]

/-- The thread in a snapshot, and the same with its fields sorted. -/
def snapshotThread (comments : List Json) : Json :=
  .obj [("id", .str "T"), ("isResolved", .bool false), ("line", .null), ("path", .str ""),
    ("side", .str "RIGHT"), ("comments", .arr comments)]

def sortedThread (comments : List Json) : Json :=
  .obj [("comments", .arr comments), ("id", .str "T"), ("isResolved", .bool false), ("line", .null),
    ("path", .str ""), ("side", .str "RIGHT")]

def hostComment : Json :=
  .obj [("id", .str "x"), ("author", .str "host"), ("body", crashedBody)]

def sortedReview : Json :=
  .obj [("author", .str "reviewer"), ("body", .str "Fix."), ("id", .str "c")]

def sortedHost : Json :=
  .obj [("author", .str "host"), ("body", crashedBody), ("id", .str "x")]

theorem sorted_snapshot_live : JsonText.sorted (.arr [snapshotThread [reviewComment, hostComment]])
    = .arr [sortedThread [sortedReview, sortedHost]] := by
  have hreview : JsonText.sorted reviewComment = sortedReview := sorted_comment "c" "reviewer" "Fix."
  have hhost : JsonText.sorted hostComment = sortedHost :=
    sorted_comment "x" "host" (String.ofList crashedText)
  simp only [JsonText.sorted, JsonText.sortedItems, snapshotThread, sorted_thread, hreview, hhost]
  rfl

theorem loads_crashedReview :
    JsonText.loads integersOnly JsonText.keepLast crashedReview.threadSnapshotJson
      = some (.arr [sortedThread [sortedReview]]) := by
  have htext : crashedReview.threadSnapshotJson
      = JsonText.render integersOnly (.arr [sortedThread [sortedReview]]) := by
    decide
  rw [htext]
  refine JsonText.loads_render _ (fun _ => JsonText.nodup_keepLast) ?_
  simp [JsonText.Plain, JsonText.PlainItems, JsonText.PlainFields, sortedThread, sortedReview]

/-- The text of the live snapshot. The characters of the body are taken out of its string by a
rewrite: the kernel is slow to decode a long one. -/
theorem canonicalJson_live :
    JsonText.canonicalJson integersOnly (.arr [snapshotThread [reviewComment, hostComment]])
      = JsonText.render integersOnly (.arr [sortedThread [sortedReview, sortedHost]]) := by
  have hbody : crashedBody = .str (String.ofList crashedText) := rfl
  have hlong : JsonText.rawStr crashedText = JsonText.dumpsStr crashedText :=
    JsonText.rawStr_eq_dumpsStr (by decide +kernel)
  have hshort : ∀ text ∈ ["comments", "author", "reviewer", "body", "Fix.", "id", "c", "host", "x", "T",
      "isResolved", "line", "path", "side", "RIGHT", ""],
      JsonText.rawStr text.toList = JsonText.dumpsStr text.toList := by
    intro text htext
    refine JsonText.rawStr_eq_dumpsStr ?_
    revert text
    decide
  simp only [List.forall_mem_cons] at hshort
  simp only [JsonText.canonicalJson, sorted_snapshot_live, sortedThread, sortedReview, sortedHost, hbody,
    JsonText.renderRaw, JsonText.renderRawItems, JsonText.renderRawFields, JsonText.render,
    JsonText.renderItems, JsonText.renderFields, String.toList_ofList, hlong, hshort]

theorem length_live :
    (Sha256.encodeUtf8 (JsonText.render integersOnly
      (.arr [sortedThread [sortedReview, sortedHost]]))).length ≤ remediationThreadSnapshotMaxBytes := by
  have hbody : crashedBody = .str (String.ofList crashedText) := rfl
  simp only [sortedThread, sortedReview, sortedHost, hbody, JsonText.render, JsonText.renderItems,
    JsonText.renderFields, String.toList_ofList]
  decide +kernel

/-- Whatever shows the two comments has the live snapshot. -/
theorem canonicalThreadSnapshot_live {thread : Json}
    (h : projectThread thread = some (snapshotThread [reviewComment, hostComment])) :
    canonicalThreadSnapshot integersOnly [thread]
      = some (JsonText.render integersOnly (.arr [sortedThread [sortedReview, sortedHost]])) := by
  have hloads : JsonText.loads integersOnly JsonText.keepLast
      (JsonText.render integersOnly (.arr [sortedThread [sortedReview, sortedHost]]))
        = some (.arr [sortedThread [sortedReview, sortedHost]]) := by
    refine JsonText.loads_render _ (fun _ => JsonText.nodup_keepLast) ?_
    simp [JsonText.Plain, JsonText.PlainItems, JsonText.PlainFields, sortedThread, sortedReview,
      sortedHost, crashedBody]
  have hcanonical : JsonText.canonicalJson integersOnly (.arr [sortedThread [sortedReview, sortedHost]])
      = JsonText.render integersOnly (.arr [sortedThread [sortedReview, sortedHost]]) := by
    rw [← canonicalJson_live, JsonText.canonicalJson, JsonText.canonicalJson, ← sorted_snapshot_live,
      JsonText.sorted_sorted]
  have hids : threadIds integersOnly
      (JsonText.render integersOnly (.arr [sortedThread [sortedReview, sortedHost]])) = some ["T"] :=
    threadIds_some hloads (List.cons_ne_nil _ _) hcanonical rfl (by decide)
  rw [← canonicalJson_live] at hids ⊢
  refine canonicalThreadSnapshot_of_project (List.cons_ne_nil _ _) ?_ (by simp) hids ?_
  · rw [List.mapM_cons, h]
    rfl
  · rw [canonicalJson_live]
    exact length_live

/-! ### What is recovered of it -/

theorem isText_ofList (t : Text) : isText (.str (String.ofList t)) t = true := by
  simp [isText, Json.asStr?]

theorem isText_crashedBody : isText crashedBody crashedText = true :=
  isText_ofList crashedText

theorem isText_commit :
    isText (hostFinal.field "review_commit_sha") crashedReview.recoveryCommitSha = true := by
  decide

theorem eq_crashedBody : Json.eq crashedBody crashedBody = true := by
  simp [crashedBody, Json.eq]

/-- The receipt of the host's comment. -/
def crashedFound : Json :=
  liveReceipt crashedThread (.str "x") crashedBody crashedReview.recoveryCommitSha

/-- The locals after the loop, with a receipt before or without. -/
def crashedState : Recovery :=
  { recovered := [(['T'], crashedFound)], pendingReviewIds := [['R']], pullRequestIds := [['P']]
    states := ["PENDING".toList] }

def crashedProgress : ReplyProgress :=
  { phase := "submit_review", pullRequestId := ['P'], pendingReviewId := some ['R']
    repliedThreadIds := [['T']], receipts := [crashedFound], activeThreadId := none
    activeCommentId := none }

theorem progress_crashed : crashedState.progress crashedReplies = crashedProgress := by
  rfl

theorem canonical_source : canonicalCommentPrefix [sortedReview] = .ok [("c", "reviewer", "Fix.")] := by
  rfl

theorem oneMore_live :
    oneMore [("c", "reviewer", "Fix.")] [reviewComment, hostFinal] = .ok hostFinal := by
  rfl

theorem knownState_live : knownState hostFinal = .ok true := by
  rfl

theorem recoverThread_unproved :
    recoverThread crashedReview crashedReplies (List.replicate 32 '1') [(['T'], crashedThread)]
      { recovered := [] } (['T'], sortedThread [sortedReview]) = .ok crashedState := by
  have hbody : isText (hostFinal.field "body")
      (crashedReview.replyBody ['T'] "Done.".toList (List.replicate 32 '1')) = true := isText_crashedBody
  have hshown : (hostFinal.asObj?.isSome && isText (hostFinal.field "body")
        (crashedReview.replyBody ['T'] "Done.".toList (List.replicate 32 '1'))
      && byViewer hostFinal && isFilled (hostFinal.field "id") && isFilled (hostFinal.field "review_id"))
        = true := by
    rw [hbody]
    decide
  exact (recoverThread_discover rfl rfl rfl canonical_source rfl rfl (by simp)).trans
    (discoverReply_of oneMore_live hshown knownState_live isText_commit)

theorem recoverThread_proved :
    recoverThread crashedReview crashedReplies (List.replicate 32 '1') [(['T'], crashedThread)]
      { recovered := [(['T'], crashedReceipt "x")] } (['T'], sortedThread [sortedReview])
        = .ok crashedState := by
  have hshown : (hostFinal.asObj?.isSome
      && (hostFinal.field "id").eq ((crashedReceipt "x").field "implementation_reply_id")
      && Json.eq crashedBody crashedBody && byViewer hostFinal
      && isText (hostFinal.field "review_commit_sha") crashedReview.recoveryCommitSha) = true := by
    rw [eq_crashedBody]
    decide
  exact (recoverThread_confirm rfl rfl rfl canonical_source rfl).trans
    (confirmReply_of oneMore_live hshown knownState_live rfl rfl)

/-! ### What is recovered matches -/

theorem monotonic_unproved : progressIsMonotonic asciiText none (some crashedProgress) = true := by
  decide

theorem monotonic_proved :
    progressIsMonotonic asciiText (some twoReceipts) (some crashedProgress) = true := by
  have hkeeps : keepsReceipt (some crashedFound) (some (crashedReceipt "x")) = true := by
    have hsha : Json.eq (.str (String.ofList (List.replicate 40 'b')))
        (.str (String.ofList (List.replicate 40 'b'))) = true := by simp [Json.eq]
    have hid : Json.eq (.str "x") (.str "x") = true := by simp [Json.eq]
    show (Json.eq (.str "x") (.str "x") && (Json.eq crashedBody crashedBody
      && (Json.eq (.str (String.ofList (List.replicate 40 'b')))
        (.str (String.ofList (List.replicate 40 'b'))) && true))) = true
    rw [hid, eq_crashedBody, hsha]
    rfl
  have hcurrent : receiptOf asciiText crashedProgress.receipts ['T'] = some crashedFound := by rfl
  have hprevious : receiptOf asciiText twoReceipts.receipts ['T'] = some (crashedReceipt "x") := by rfl
  have hkeys : twoReceipts.receipts.map (receiptKey asciiText) = [['T'], ['T']] := by rfl
  have hkeys' : crashedProgress.receipts.map (receiptKey asciiText) = [['T']] := by rfl
  unfold progressIsMonotonic
  simp only [hkeys, hkeys', List.all_cons, List.all_nil, hcurrent, hprevious, hkeeps]
  rfl

theorem receiptProved_live :
    receiptProved crashedReview crashedReplies (List.replicate 32 '1') [(['T'], crashedThread)] ['T']
      crashedFound = true := by
  have hbody : isText crashedBody
      (crashedReview.replyBody ['T'] "Done.".toList (List.replicate 32 '1')) = true := isText_crashedBody
  have hreply : crashedReplies.replies.get? ['T'] = some "Done.".toList := rfl
  have hproved : lastComment? crashedFound = some hostFinal := rfl
  have hlive : (Dict.get? [(['T'], crashedThread)] ['T']).bind lastComment? = some hostFinal := rfl
  have hsha : isText (crashedFound.field "implementation_head_sha") crashedReview.recoveryCommitSha = true :=
    isText_commit
  have hfields :
      (commentFields.all fun field => (hostFinal.field field).eq (hostFinal.field field)) = true := by
    simp [commentFields, hostFinal, Json.field, Json.getD, Json.get?, Dict.get?, Json.eq, crashedBody,
      Json.number?]
  have hreplyBody : crashedFound.field "implementation_reply_body" = crashedBody := rfl
  have hfinalBody : hostFinal.field "body" = crashedBody := rfl
  have hfilled : isFilled (crashedFound.field "implementation_reply_id") = true := by decide
  have hid : (hostFinal.field "id").eq (crashedFound.field "implementation_reply_id") = true := by
    decide
  have hobj : hostFinal.asObj?.isSome = true := rfl
  unfold receiptProved
  simp only [hreply, hproved, hlive, hsha, hreplyBody, hfinalBody, hbody, hfilled, hid, hobj, hfields,
    Bool.and_true]

theorem matches_live :
    progressMatchesLiveThreads integersOnly crashedReview crashedReplies (List.replicate 32 '1')
      (some crashedProgress) [crashedThread] = true := by
  have hsource : (JsonText.loads integersOnly JsonText.keepLast crashedReview.threadSnapshotJson).bind
      Json.asArr? = some [sortedThread [sortedReview]] := by
    rw [loads_crashedReview]
    rfl
  have hsourceById : threadsById [sortedThread [sortedReview]] = [(['T'], sortedThread [sortedReview])] := rfl
  have hliveById : threadsById [crashedThread] = [(['T'], crashedThread)] := rfl
  have hkeys : sameKeys [(['T'], sortedThread [sortedReview])] [(['T'], crashedThread)] = true := by
    simp [sameKeys, Dict.contains, Dict.get?]
  have hexpected : expectedThreads crashedReview crashedReplies (List.replicate 32 '1')
      [(['T'], sortedThread [sortedReview])] [(['T'], crashedThread)] (some crashedProgress)
        = some [(['T'], crashedFound)] := expectedThreads_one rfl rfl rfl rfl receiptProved_live
  have hids : [sortedThread [sortedReview]].filterMap threadId? = [['T']] := rfl
  have hfound : inOrder [(['T'], crashedFound)] [['T']] = some [crashedFound] := by rfl
  have hthread : inOrder [(['T'], crashedThread)] [['T']] = some [crashedThread] := by rfl
  have htext : (inOrder [(['T'], crashedFound)] [['T']]).bind (canonicalThreadSnapshot integersOnly)
      = some (JsonText.render integersOnly (.arr [sortedThread [sortedReview, sortedHost]])) := by
    rw [hfound, Option.bind_some]
    exact canonicalThreadSnapshot_live rfl
  have htext' : (inOrder [(['T'], crashedThread)] [['T']]).bind (canonicalThreadSnapshot integersOnly)
      = some (JsonText.render integersOnly (.arr [sortedThread [sortedReview, sortedHost]])) := by
    rw [hthread, Option.bind_some]
    exact canonicalThreadSnapshot_live rfl
  exact progressMatches_of hsource hsourceById hliveById rfl rfl hkeys hids hexpected htext htext'

theorem crashedRecovery_ok {progress : Option ReplyProgress} {prior : Dict Text Json}
    (hprior : Dict.ofPairs (((progress.map ReplyProgress.receipts).getD []).map fun receipt =>
      (receiptKey asciiText receipt, receipt)) = prior)
    (hrecover : recoverThread crashedReview crashedReplies (List.replicate 32 '1') [(['T'], crashedThread)]
      { recovered := prior } (['T'], sortedThread [sortedReview]) = .ok crashedState)
    (hmonotonic : progressIsMonotonic asciiText progress (some crashedProgress) = true) :
    ∃ out, crashedRecovery progress = .ok out := by
  have hmonotonic' : progressIsMonotonic asciiText progress (some (crashedState.progress crashedReplies))
      = true := by
    rw [progress_crashed]
    exact hmonotonic
  have hmatches : progressMatchesLiveThreads integersOnly crashedReview crashedReplies
      (List.replicate 32 '1') (some (crashedState.progress crashedReplies)) [crashedThread] = true := by
    rw [progress_crashed]
    exact matches_live
  have hsource : indexThreads asciiText [sortedThread [sortedReview]]
      = .ok [(['T'], sortedThread [sortedReview])] := by rfl
  have hlive : indexThreads asciiText [crashedThread] = .ok [(['T'], crashedThread)] := by rfl
  exact recoverLiveProgress_of loads_crashedReview hsource hlive rfl hprior hrecover rfl
    (Nat.lt_irrefl 1) (List.cons_ne_nil _ _) hmonotonic' hmatches

theorem recovered_crashed :
    ∃ out, crashedRecovery none = .ok out
      ∧ Recovered asciiText integersOnly crashedReview crashedReplies (List.replicate 32 '1')
        [crashedThread] none out := by
  obtain ⟨out, h⟩ : ∃ out, crashedRecovery none = .ok out :=
    crashedRecovery_ok rfl recoverThread_unproved monotonic_unproved
  exact ⟨out, h, (recovered_iff h).mpr fun r hr => absurd hr List.not_mem_nil⟩

/-- The identity of the first of two receipts is lost. -/
theorem not_recovered_twoReceipts :
    ∃ out, crashedRecovery (some twoReceipts) = .ok out
      ∧ ¬ Recovered asciiText integersOnly crashedReview crashedReplies (List.replicate 32 '1')
        [crashedThread] (some twoReceipts) out := by
  obtain ⟨out, h⟩ : ∃ out, crashedRecovery (some twoReceipts) = .ok out :=
    crashedRecovery_ok (by rfl) recoverThread_proved monotonic_proved
  refine ⟨out, h, fun hrecovered => ?_⟩
  have hsame := hrecovered.receiptsAgree (matched_of_recovered h) (crashedReceipt "w")
    List.mem_cons_self (crashedReceipt "x") (List.mem_cons_of_mem _ List.mem_cons_self) rfl
  have hid := List.all_eq_true.mp hsame "implementation_reply_id" (by decide)
  exact absurd hid (by decide)

end Hephaestus.Automation
