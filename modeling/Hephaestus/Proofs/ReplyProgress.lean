import Hephaestus.Automation.ReplyBatch

/-!
# Progress across a safe retry

The progress that an attempt hands on is what it has seen itself: the recorded
replies of the attempt before it come back only as the discovery reads their
threads again. `Retained` says which recorded replies are back after a part of
the discovery, and nothing after the discovery takes one away. So the question
is only where a failure strikes: one that strikes before the last recorded
thread was read leaves the rest of the record out.
-/

namespace Hephaestus.Automation

open Hephaestus.Lib

variable {py : PyText} {host : ReplyHost} {req : ReplyRequest} {adapter : ReplyAdapter}
  {recorded : ReplyProgress}

/-- The answer is a retryable error from before the dispatch. -/
def ReplyEvent.preDispatch : ReplyEvent → Bool
  | .thread _ _ (.error (.retryable true)) => true
  | .reviews (.error (.retryable true)) => true
  | .createReview (.error (.retryable true)) => true
  | .addReply _ _ (.error (.retryable true)) => true
  | .submit _ (.error (.retryable true)) => true
  | _ => false

/-- The failure of an answer. -/
def ReplyEvent.failure? : ReplyEvent → Option GraphFailure
  | .thread _ _ (.error f) => some f
  | .reviews (.error f) => some f
  | .createReview (.error f) => some f
  | .addReply _ _ (.error f) => some f
  | .submit _ (.error f) => some f
  | _ => none

theorem ReplyEvent.failure_of_preDispatch {e : ReplyEvent} (h : e.preDispatch = true) :
    e.failure? = some (.retryable true) := by
  unfold ReplyEvent.preDispatch at h
  split at h
  · rfl
  · rfl
  · rfl
  · rfl
  · rfl
  · cases h

/-- Where such an error does no harm: not at the discovery of a recorded thread
or of one that sorts before it, and not at the reviews. -/
def ReplyEvent.Harmless (recorded : ReplyProgress) : ReplyEvent → Prop
  | .thread .discovery t _ => ∀ t' ∈ recorded.repliedThreadIds, Text.sortsBefore t' t = true
  | .reviews _ => False
  | _ => True

/-- Every thread and every receipt of the record, with its identity. -/
def Keeps (py : PyText) (recorded current : ReplyProgress) : Prop :=
  (∀ t ∈ recorded.repliedThreadIds, t ∈ current.repliedThreadIds)
    ∧ ∀ t r, receiptOf py recorded.receipts t = some r →
      ∃ r', receiptOf py current.receipts t = some r' ∧ sameIdentity r' r = true

/-- A result whose progress keeps the record, and is a successor of it to the consumer. -/
def KeptBy (py : PyText) (recorded : ReplyProgress) (result : ReplyResult) : Prop :=
  ∃ current, result.progress = some current ∧ Keeps py recorded current
    ∧ progressIsMonotonic py (some recorded) (some current) = true

/-- A read that shows the recorded reply of a thread under its source snapshot. -/
structure ShowsReply (py : PyText) (req : ReplyRequest) (recorded : ReplyProgress) {t : Text}
    (body : Text) (live : LiveThread t) : Prop where
  unresolved : isUnresolved live.json = true
  current : prIsCurrentOpenHead py (live.json.get? "pr_state") req.headSha = true
  pullRequest : (prNodeId live.json).isSome = true
  reply : ∃ commentId, hostReplyReceipt (req.source t) live.json body none = some commentId
    ∧ ∀ r, receiptOf py recorded.receipts t = some r →
      sameIdentity (replyReceipt req live commentId body) r = true

/-- The live threads still contain the recorded replies: each receipt belongs to a
recorded thread, and whatever read of such a thread succeeds shows its reply. -/
structure StillShows (py : PyText) (host : ReplyHost) (req : ReplyRequest)
    (adapter : ReplyAdapter) (recorded : ReplyProgress) : Prop where
  receipts : ∀ r ∈ recorded.receipts, receiptKey py r ∈ recorded.repliedThreadIds
  threads : ∀ t ∈ recorded.repliedThreadIds, ∃ body,
    postedReplyBody host req.prNumber req.headSha t (req.reply t) req.nonce.text = .ok (some body)
      ∧ ∀ history kind answer, adapter.thread history kind t = .ok answer →
        ∃ live, answer = some live ∧ ShowsReply py req recorded body live

/-! ## What is back -/

/-- A receipt of a thread. -/
def OfThread (t : Text) (r : Json) : Prop :=
  ∃ fields, r = .obj fields ∧ Dict.get? fields "id" = some (.str (String.ofList t))

theorem OfThread.key {t : Text} {r : Json} (h : OfThread t r) (hne : t ≠ []) :
    receiptKey py r = t := by
  obtain ⟨fields, rfl, hid⟩ := h
  have hget : (Json.obj fields).get? "id" = some (.str (String.ofList t)) := hid
  have htruthy : ((Option.some (Json.str (String.ofList t))).getD .null).truthy = true := by
    have hstr : String.ofList t ≠ "" := by
      intro hnil
      have hlist := congrArg String.toList hnil
      rw [String.toList_ofList] at hlist
      exact hne hlist
    simpa [Json.truthy] using hstr
  rw [receiptKey, hget, if_pos htruthy, PyText.orEmpty, String.toList_ofList]

theorem ofThread_replyReceipt {t : Text} (live : LiveThread t) (commentId body : Text) :
    OfThread t (replyReceipt req live commentId body) := by
  refine ⟨_, rfl, ?_⟩
  rw [Dict.get?_set_ne _ _ (by decide), Dict.get?_set_ne _ _ (by decide),
    Dict.get?_set_ne _ _ (by decide), live.id_eq]

/-- The recovered replies after the discovery of `done`. -/
structure Retained (py : PyText) (recorded : ReplyProgress) (done : List Text)
    (recovered : Dict Text Json) : Prop where
  within : ∀ t r, recovered.get? t = some r → t ∈ done
  keyed : ∀ t r, recovered.get? t = some r → OfThread t r
  carried : ∀ t ∈ recorded.repliedThreadIds, t ∈ done → ∃ r, recovered.get? t = some r
    ∧ ∀ p, receiptOf py recorded.receipts t = some p → sameIdentity r p = true

theorem Retained.skip {done : List Text} {recovered : Dict Text Json} {t : Text}
    (h : Retained py recorded done recovered) (ht : t ∉ recorded.repliedThreadIds) :
    Retained py recorded (done ++ [t]) recovered := by
  refine ⟨fun t' r hr => List.mem_append_left _ (h.within t' r hr), h.keyed, ?_⟩
  intro t' hrec hdone
  rcases List.mem_append.mp hdone with hdone | hdone
  · exact h.carried t' hrec hdone
  · rw [List.mem_singleton.mp hdone] at hrec
    exact absurd hrec ht

/-- A reply is noted: a recorded one with the identity of the record. -/
theorem Retained.note {done done' : List Text} {recovered : Dict Text Json} {t : Text} {r : Json}
    (h : Retained py recorded done recovered) (hdone : ∀ t', t' ∈ done' ↔ t' ∈ done ∨ t' = t)
    (hr : OfThread t r) (hsame : t ∈ recorded.repliedThreadIds →
      ∀ p, receiptOf py recorded.receipts t = some p → sameIdentity r p = true) :
    Retained py recorded done' (recovered.set t r) := by
  refine ⟨?_, ?_, ?_⟩
  · intro t' r' hget
    rw [Dict.get?_set] at hget
    rw [hdone]
    split at hget
    · next heq => exact Or.inr heq.symm
    · exact Or.inl (h.within t' r' hget)
  · intro t' r' hget
    rw [Dict.get?_set] at hget
    split at hget
    · next heq =>
      cases hget
      exact heq ▸ hr
    · exact h.keyed t' r' hget
  · intro t' hrec hmem
    rw [Dict.get?_set]
    split
    · next heq =>
      subst heq
      exact ⟨r, rfl, hsame hrec⟩
    · next hne =>
      rcases (hdone t').mp hmem with hmem | heq
      · exact h.carried t' hrec hmem
      · exact absurd heq.symm hne

theorem mem_recoveredIds {s : ReplyState} {t : Text} :
    t ∈ recoveredIds req s ↔ t ∈ req.candidateIds ∧ (s.recovered.get? t).isSome = true := by
  rw [recoveredIds, List.mem_filter, Dict.contains]

theorem nodup_candidateIds (req : ReplyRequest) : req.candidateIds.Nodup :=
  req.sorted.imp fun hlt heq => by
    rw [heq, Text.sortsBefore_irrefl] at hlt
    cases hlt

theorem receiptOf_some {receipts : List Json} {t : Text} {r : Json}
    (h : receiptOf py receipts t = some r) : receiptKey py r = t ∧ r ∈ receipts := by
  unfold receiptOf at h
  have hkey := (List.find?_eq_some_iff_append.mp h).1
  exact ⟨of_decide_eq_true hkey, List.mem_reverse.mp (List.mem_of_find?_eq_some h)⟩

/-- The receipt of a recovered thread in the progress. -/
theorem receiptOf_recovered {s : ReplyState} {done : List Text} {t : Text} {r : Json}
    (h : Retained py recorded done s.recovered) (hdone : ∀ t ∈ done, t ∈ req.candidateIds)
    (hr : s.recovered.get? t = some r) :
    receiptOf py (recoveredReceipts req s) t = some r := by
  have hkey : ∀ t' r', s.recovered.get? t' = some r' → receiptKey py r' = t' :=
    fun t' r' hget => (h.keyed t' r' hget).key (req.named t' (hdone t' (h.within t' r' hget)))
  have hmem : r ∈ recoveredReceipts req s := by
    refine List.mem_filterMap.mpr ⟨t, mem_recoveredIds.mpr ⟨hdone t (h.within t r hr), ?_⟩, hr⟩
    rw [hr]
    rfl
  cases hfind : receiptOf py (recoveredReceipts req s) t with
  | none =>
      have hnone := List.find?_eq_none.mp hfind r (List.mem_reverse.mpr hmem)
      rw [hkey t r hr] at hnone
      exact absurd (decide_eq_true rfl) hnone
  | some r' =>
      obtain ⟨heq, hmem'⟩ := receiptOf_some hfind
      obtain ⟨t', -, hget⟩ := List.mem_filterMap.mp hmem'
      rw [hkey t' r' hget] at heq
      rw [← hr, ← heq, hget]

/-- The keys of the receipts in the progress are its threads. -/
theorem keys_recoveredReceipts {s : ReplyState} {done : List Text}
    (h : Retained py recorded done s.recovered) (hdone : ∀ t ∈ done, t ∈ req.candidateIds) :
    (recoveredReceipts req s).map (receiptKey py) = recoveredIds req s := by
  have hall : ∀ l : List Text, (∀ t ∈ l, t ∈ recoveredIds req s) →
      (l.filterMap s.recovered.get?).map (receiptKey py) = l := by
    intro l hl
    induction l with
    | nil => rfl
    | cons t l ih =>
        obtain ⟨ht, hl⟩ := List.forall_mem_cons.mp hl
        obtain ⟨r, hr⟩ := Option.isSome_iff_exists.mp (mem_recoveredIds.mp ht).2
        have hkey : receiptKey py r = t :=
          (h.keyed t r hr).key (req.named t (hdone t (h.within t r hr)))
        rw [List.filterMap_cons_some hr, List.map_cons, hkey, ih hl]
  exact hall _ fun t ht => ht

theorem isMonotonic_of_retained {s : ReplyState} {done : List Text} {phase : String}
    (h : Retained py recorded done s.recovered) (hdone : ∀ t ∈ done, t ∈ req.candidateIds)
    (hids : ∀ t ∈ recorded.repliedThreadIds, t ∈ recoveredIds req s)
    (hreceipt : ∀ t p, receiptOf py recorded.receipts t = some p →
      ∃ r, receiptOf py (recoveredReceipts req s) t = some r ∧ OfThread t r
        ∧ sameIdentity r p = true) :
    progressIsMonotonic py (some recorded) (some (safeProgress req (some recorded) s phase))
      = true := by
  have hkeys := keys_recoveredReceipts h hdone
  have hlength : (recoveredReceipts req s).length = (recoveredIds req s).length := by
    rw [← hkeys, List.length_map]
  have hnodup : (recoveredIds req s).Nodup := (nodup_candidateIds req).filter _
  have hnamed : [] ∉ recoveredIds req s :=
    fun hnil => req.named [] (mem_recoveredIds.mp hnil).1 rfl
  have hidentity : ∀ key ∈ recorded.receipts.map (receiptKey py),
      keepsReceipt (receiptOf py (recoveredReceipts req s) key)
        (receiptOf py recorded.receipts key) = true := by
    intro key hkey
    cases hp : receiptOf py recorded.receipts key with
    | none =>
        obtain ⟨p, hmem, hpkey⟩ := List.mem_map.mp hkey
        have hnone := List.find?_eq_none.mp hp p (List.mem_reverse.mpr hmem)
        exact absurd (decide_eq_true hpkey) hnone
    | some p =>
        obtain ⟨r, hr, ⟨fields, rfl, -⟩, hsame⟩ := hreceipt key p hp
        rw [hr]
        exact hsame
  simp only [progressIsMonotonic, safeProgress, hkeys, hlength, hnodup, decide_true,
    Bool.true_and, Bool.and_eq_true, List.all_eq_true, List.contains_iff_mem, Bool.not_eq_true']
  refine ⟨⟨⟨fun _ hk => hk, fun _ hk => hk⟩, ?_⟩, hids, hidentity⟩
  rw [← Bool.not_eq_true, List.contains_iff_mem]
  exact hnamed

/-- What the progress of a retry keeps, it keeps of what is back. -/
theorem keptBy_iff {s : ReplyState} {done : List Text}
    (h : Retained py recorded done s.recovered) (hdone : ∀ t ∈ done, t ∈ req.candidateIds)
    (hreceipts : ∀ r ∈ recorded.receipts, receiptKey py r ∈ recorded.repliedThreadIds) :
    KeptBy py recorded (concludeReplies req (some recorded) (.failure (.retryable true)) s)
      ↔ ∀ t ∈ recorded.repliedThreadIds, t ∈ done := by
  have hprogress : (concludeReplies req (some recorded) (.failure (.retryable true)) s).progress
      = some (safeProgress req (some recorded) s (retryPhase req s)) := by
    simp [concludeReplies]
  constructor
  · rintro ⟨current, hcurrent, ⟨hids, -⟩, -⟩ t ht
    rw [hprogress] at hcurrent
    cases hcurrent
    have hmem := hids t ht
    obtain ⟨r, hr⟩ := Option.isSome_iff_exists.mp (mem_recoveredIds.mp hmem).2
    exact h.within t r hr
  · intro hall
    have hback : ∀ t ∈ recorded.repliedThreadIds, ∃ r, s.recovered.get? t = some r
        ∧ ∀ p, receiptOf py recorded.receipts t = some p → sameIdentity r p = true :=
      fun t ht => h.carried t ht (hall t ht)
    have hids : ∀ t ∈ recorded.repliedThreadIds, t ∈ recoveredIds req s := by
      intro t ht
      obtain ⟨r, hr, -⟩ := hback t ht
      refine mem_recoveredIds.mpr ⟨hdone t (hall t ht), ?_⟩
      rw [hr]
      rfl
    have hreceipt : ∀ t p, receiptOf py recorded.receipts t = some p →
        ∃ r, receiptOf py (recoveredReceipts req s) t = some r ∧ OfThread t r
          ∧ sameIdentity r p = true := by
      intro t p hp
      obtain ⟨hkey, hmem⟩ := receiptOf_some hp
      have ht : t ∈ recorded.repliedThreadIds := by
        rw [← hkey]
        exact hreceipts p hmem
      obtain ⟨r, hr, hsame⟩ := hback t ht
      exact ⟨r, receiptOf_recovered h hdone hr, h.keyed t r hr, hsame p hp⟩
    refine ⟨_, hprogress, ⟨hids, fun t p hp => ?_⟩, ?_⟩
    · obtain ⟨r, hr, -, hsame⟩ := hreceipt t p hp
      exact ⟨r, hr, hsame⟩
    · exact isMonotonic_of_retained h hdone hids hreceipt

/-! ## The parts of the attempt -/

/-- No question so far met a retryable error from before its dispatch. -/
def Calm (history : List ReplyEvent) : Prop :=
  ∀ e ∈ history, e.preDispatch = false

/-- One more question with its answer. -/
def ReplyState.asked (s : ReplyState) (e : ReplyEvent) : ReplyState :=
  { s with history := s.history ++ [e] }

/-- What holds after the discovery of `done`. -/
structure Sound (py : PyText) (host : ReplyHost) (req : ReplyRequest) (recorded : ReplyProgress)
    (done : List Text) (s : ReplyState) : Prop where
  calm : Calm s.history
  retained : Retained py recorded done s.recovered
  bodies : ∀ t body, s.replyBodies.get? t = some body →
    postedReplyBody host req.prNumber req.headSha t (req.reply t) req.nonce.text = .ok (some body)
  prepared : ∀ item ∈ s.prepared, item.1 ∈ done ∧ item.1 ∉ recorded.repliedThreadIds

/-- The way an attempt ends says what a retryable error from before a dispatch did. -/
def Concluded (py : PyText) (req : ReplyRequest) (recorded : ReplyProgress) (exit : ReplyExit)
    (s : ReplyState) : Prop :=
  ∀ e ∈ s.history, e.preDispatch = true →
    (KeptBy py recorded (concludeReplies req (some recorded) exit s) ↔ e.Harmless recorded)

section Parts

variable {s : ReplyState}

theorem Calm.asked {e : ReplyEvent} (h : Calm s.history) (he : e.preDispatch = false) :
    Calm (s.asked e).history := by
  intro e' he'
  rcases List.mem_append.mp he' with he' | he'
  · exact h e' he'
  · rw [List.mem_singleton.mp he']
    exact he

theorem Sound.asked {done : List Text} {e : ReplyEvent} (h : Sound py host req recorded done s)
    (he : e.preDispatch = false) : Sound py host req recorded done (s.asked e) :=
  ⟨h.calm.asked he, h.retained, h.bodies, h.prepared⟩

theorem Calm.concluded {exit : ReplyExit} (h : Calm s.history) :
    Concluded py req recorded exit s := by
  intro e he hpre
  rw [h e he] at hpre
  cases hpre

/-- A failure of a question: it does no harm exactly when every recorded thread was read. -/
theorem Sound.failed {done : List Text} {f : GraphFailure} {e : ReplyEvent}
    (h : Sound py host req recorded done s) (hdone : ∀ t ∈ done, t ∈ req.candidateIds)
    (hreceipts : ∀ r ∈ recorded.receipts, receiptKey py r ∈ recorded.repliedThreadIds)
    (hfailure : e.failure? = some f)
    (hharmless : e.Harmless recorded ↔ ∀ t ∈ recorded.repliedThreadIds, t ∈ done) :
    Concluded py req recorded (.failure f) (s.asked e) := by
  intro e' he' hpre'
  rcases List.mem_append.mp he' with he' | he'
  · rw [h.calm e' he'] at hpre'
    cases hpre'
  · rw [List.mem_singleton.mp he'] at hpre' ⊢
    have hretained : Retained py recorded done (s.asked e).recovered := h.retained
    have hf : f = .retryable true :=
      Option.some.inj (hfailure.symm.trans (ReplyEvent.failure_of_preDispatch hpre'))
    rw [hf, hharmless]
    exact keptBy_iff hretained hdone hreceipts

theorem wp_request {α : Type} {answer : List ReplyEvent → Except GraphFailure α}
    {event : Except GraphFailure α → ReplyEvent} {Q : α → ReplyState → Prop}
    {E : ReplyExit → ReplyState → Prop}
    (hok : ∀ a, answer s.history = .ok a → Q a (s.asked (event (.ok a))))
    (hf : ∀ f, answer s.history = .error f → E (.failure f) (s.asked (event (.error f)))) :
    (request answer event).wp Q E s := by
  unfold request
  simp only [Command.wp_bind, Command.wp_get, Command.wp_set]
  cases ha : answer s.history with
  | ok a => exact hok a ha
  | error f => exact hf f ha

/-- What the discovery of a thread that is not recorded leaves. -/
theorem Sound.skip {done : List Text} {t : Text} {s' : ReplyState}
    (h : Sound py host req recorded done s) (ht : t ∉ recorded.repliedThreadIds)
    (hcalm : Calm s'.history) (hrecovered : s'.recovered = s.recovered)
    (hbodies : s'.replyBodies = s.replyBodies) (hprepared : s'.prepared = s.prepared) :
    Sound py host req recorded (done ++ [t]) s' := by
  refine ⟨hcalm, ?_, ?_, ?_⟩
  · rw [hrecovered]
    exact h.retained.skip ht
  · rw [hbodies]
    exact h.bodies
  · rw [hprepared]
    intro item hitem
    exact ⟨List.mem_append_left _ (h.prepared item hitem).1, (h.prepared item hitem).2⟩

theorem noteReview_frame (t : Text) (final : Json) (s : ReplyState) :
    (noteReview t final s).history = s.history ∧ (noteReview t final s).recovered = s.recovered
      ∧ (noteReview t final s).replyBodies = s.replyBodies
      ∧ (noteReview t final s).prepared = s.prepared := by
  unfold noteReview
  split
  · exact ⟨rfl, rfl, rfl, rfl⟩
  split
  · exact ⟨rfl, rfl, rfl, rfl⟩
  split
  · exact ⟨rfl, rfl, rfl, rfl⟩
  split
  · exact ⟨rfl, rfl, rfl, rfl⟩
  · exact ⟨rfl, rfl, rfl, rfl⟩

/-- What the discovery of a thread keeps of a read that it admits. -/
theorem Sound.noteDiscovery {done : List Text} {t pullRequestId body : Text} {live : LiveThread t}
    (h : Sound py host req recorded done s)
    (hbody : postedReplyBody host req.prNumber req.headSha t (req.reply t) req.nonce.text
      = .ok (some body))
    (hshows : t ∈ recorded.repliedThreadIds → ShowsReply py req recorded body live) :
    Sound py host req recorded (done ++ [t]) (noteDiscovery req t pullRequestId body live s) := by
  have hbodies : ∀ t' b, (s.replyBodies.set t body).get? t' = some b →
      postedReplyBody host req.prNumber req.headSha t' (req.reply t') req.nonce.text
        = .ok (some b) := by
    intro t' b hget
    rw [Dict.get?_set] at hget
    split at hget
    · next heq =>
      cases hget
      exact heq ▸ hbody
    · exact h.bodies t' b hget
  have hprepared : ∀ item ∈ s.prepared, item.1 ∈ done ++ [t] ∧ item.1 ∉ recorded.repliedThreadIds :=
    fun item hitem => ⟨List.mem_append_left _ (h.prepared item hitem).1, (h.prepared item hitem).2⟩
  unfold Automation.noteDiscovery
  simp only
  split
  · next commentId hreply =>
    obtain ⟨hhistory, hrecovered, hreplyBodies, hitems⟩ := noteReview_frame t
      (((commentsOf? live.json).bind List.getLast?).getD .null)
      { s with
        pullRequestIds := setAdd s.pullRequestIds pullRequestId
        replyBodies := s.replyBodies.set t body
        recovered := s.recovered.set t (replyReceipt req live commentId body) }
    refine ⟨?_, ?_, ?_, ?_⟩
    · rw [hhistory]
      exact h.calm
    · rw [hrecovered]
      refine h.retained.note (fun t' => ?_) (ofThread_replyReceipt live commentId body) ?_
      · rw [List.mem_append, List.mem_singleton]
      · intro hrec p hp
        obtain ⟨commentId', hreply', hsame⟩ := (hshows hrec).reply
        rw [hreply] at hreply'
        cases hreply'
        exact hsame p hp
    · rw [hreplyBodies]
      exact hbodies
    · rw [hitems]
      exact hprepared
  · next hreply =>
    have ht : t ∉ recorded.repliedThreadIds := by
      intro hrec
      obtain ⟨commentId, hreply', -⟩ := (hshows hrec).reply
      rw [hreply] at hreply'
      cases hreply'
    split
    · refine ⟨h.calm, h.retained.skip ht, hbodies, ?_⟩
      intro item hitem
      rcases List.mem_append.mp hitem with hitem | hitem
      · exact hprepared item hitem
      · rw [List.mem_singleton.mp hitem]
        exact ⟨List.mem_append_right _ (List.mem_singleton.mpr rfl), ht⟩
    · exact ⟨h.calm, h.retained.skip ht, hbodies, hprepared⟩

/-- One turn of the discovery. -/
theorem wp_discoverThread {done rest : List Text} {t : Text}
    (hshows : StillShows py host req adapter recorded)
    (hsubset : ∀ t ∈ recorded.repliedThreadIds, t ∈ req.candidateIds)
    (hids : req.candidateIds = done ++ t :: rest)
    (h : Sound py host req recorded done s) :
    (discoverThread py host req adapter t).wp
      (fun _ => Sound py host req recorded (done ++ [t])) (Concluded py req recorded) s := by
  have hdone : ∀ t' ∈ done, t' ∈ req.candidateIds := by
    intro t' ht'
    rw [hids]
    exact List.mem_append_left _ ht'
  have hbody : t ∈ recorded.repliedThreadIds → ∃ body,
      postedReplyBody host req.prNumber req.headSha t (req.reply t) req.nonce.text
        = .ok (some body) := by
    intro hrec
    obtain ⟨body, hb, -⟩ := hshows.threads t hrec
    exact ⟨body, hb⟩
  have hbefore : (∀ t' ∈ recorded.repliedThreadIds, Text.sortsBefore t' t = true)
      ↔ ∀ t' ∈ recorded.repliedThreadIds, t' ∈ done := by
    have hsorted := req.sorted
    rw [hids, List.pairwise_append, List.pairwise_cons] at hsorted
    refine forall₂_congr fun t' hrec => ⟨fun hlt => ?_, fun hmem => ?_⟩
    · have hmem := hsubset t' hrec
      rw [hids, List.mem_append, List.mem_cons] at hmem
      rcases hmem with hmem | rfl | hmem
      · exact hmem
      · rw [Text.sortsBefore_irrefl] at hlt
        cases hlt
      · rw [Text.sortsBefore_asymm (hsorted.2.1.1 t' hmem)] at hlt
        cases hlt
    · exact hsorted.2.2 t' hmem t List.mem_cons_self
  unfold discoverThread
  split
  · exact h.calm.concluded
  · next hnone =>
    refine h.skip (fun hrec => ?_) h.calm rfl rfl rfl
    obtain ⟨body, hb⟩ := hbody hrec
    rw [hnone] at hb
    cases hb
  · next body hsome =>
    rw [Command.wp_bind]
    refine wp_request (fun answer hanswer => ?_) fun f _ => ?_
    · have hasked := h.asked (e := .thread .discovery t (.ok answer)) rfl
      have hread : t ∈ recorded.repliedThreadIds →
          ∃ live, answer = some live ∧ ShowsReply py req recorded body live := by
        intro hrec
        obtain ⟨body', hb, hreads⟩ := hshows.threads t hrec
        rw [hsome] at hb
        cases hb
        exact hreads _ _ _ hanswer
      cases answer with
      | none =>
          refine hasked.skip (fun hrec => ?_) hasked.calm rfl rfl rfl
          obtain ⟨live, hlive, -⟩ := hread hrec
          cases hlive
      | some live =>
          have hlive : t ∈ recorded.repliedThreadIds → ShowsReply py req recorded body live := by
            intro hrec
            obtain ⟨live', heq, hs⟩ := hread hrec
            cases heq
            exact hs
          simp only
          split
          · next hresolved =>
            refine hasked.skip (fun hrec => ?_) hasked.calm rfl rfl rfl
            rw [(hlive hrec).unresolved] at hresolved
            cases hresolved
          split
          · exact hasked.calm.concluded
          split
          · next hnode =>
            refine hasked.skip (fun hrec => ?_) hasked.calm rfl rfl rfl
            have hsome' := (hlive hrec).pullRequest
            rw [hnode] at hsome'
            cases hsome'
          · exact hasked.noteDiscovery hsome hlive
    · exact h.failed hdone hshows.receipts rfl hbefore

/-- A failure after the discovery, when every recorded thread was read. -/
theorem Sound.failedLater {f : GraphFailure} {e : ReplyEvent}
    (h : Sound py host req recorded req.candidateIds s)
    (hsubset : ∀ t ∈ recorded.repliedThreadIds, t ∈ req.candidateIds)
    (hreceipts : ∀ r ∈ recorded.receipts, receiptKey py r ∈ recorded.repliedThreadIds)
    (hfailure : e.failure? = some f) (hharmless : e.Harmless recorded) :
    Concluded py req recorded (.failure f) (s.asked e) :=
  h.failed (fun _ ht => ht) hreceipts hfailure ⟨fun _ => hsubset, fun _ => hharmless⟩

/-- A reply is proved after the discovery. -/
theorem Sound.record {t : Text} {r : Json} {s' : ReplyState}
    (h : Sound py host req recorded req.candidateIds s) (ht : t ∈ req.candidateIds)
    (hr : OfThread t r) (hsame : t ∈ recorded.repliedThreadIds →
      ∀ p, receiptOf py recorded.receipts t = some p → sameIdentity r p = true)
    (hhistory : s'.history = s.history) (hrecovered : s'.recovered = s.recovered.set t r)
    (hbodies : s'.replyBodies = s.replyBodies) (hprepared : s'.prepared = s.prepared) :
    Sound py host req recorded req.candidateIds s' := by
  refine ⟨?_, ?_, ?_, ?_⟩
  · rw [hhistory]
    exact h.calm
  · rw [hrecovered]
    refine h.retained.note (fun t' => ⟨Or.inl, fun hmem => ?_⟩) hr hsame
    rcases hmem with hmem | rfl
    · exact hmem
    · exact ht
  · rw [hbodies]
    exact h.bodies
  · rw [hprepared]
    exact h.prepared

theorem wp_selectReview {pullRequestId : Text}
    (h : Sound py host req recorded req.candidateIds s) :
    (selectReview req adapter pullRequestId).wp
      (fun _ => Sound py host req recorded req.candidateIds) (Concluded py req recorded) s := by
  have hreviews : (readReviews req adapter s).wp
      (fun _ => Sound py host req recorded req.candidateIds) (Concluded py req recorded) s := by
    unfold readReviews
    split
    · simp only [Command.wp_bind, Command.wp_get, Command.wp_set]
      cases ha : adapter.reviews s.history with
      | ok reviews => exact h.asked (e := .reviews (.ok reviews)) rfl
      | error f =>
          refine Command.wp_attempt (fun _ hok => by cases hok) fun exit hexit => ?_
          cases hexit
          intro e he hpre
          rcases List.mem_append.mp he with he | he
          · rw [h.calm e he] at hpre
            cases hpre
          · rw [List.mem_singleton.mp he]
            refine ⟨fun hkept => ?_, fun hharmless => hharmless.elim⟩
            obtain ⟨current, hcurrent, -⟩ := hkept
            cases hcurrent
    · exact h
  unfold selectReview
  rw [Command.wp_bind, Command.wp_get, Command.wp_bind]
  refine Command.wp_mono hreviews (fun reviews s' h' => ?_) fun _ _ hc => hc
  rw [Command.wp_bind]
  refine Command.wp_attempt (fun selected _ => ?_) fun exit hexit => ?_
  · exact ⟨h'.calm, h'.retained, h'.bodies, h'.prepared⟩
  · exact h'.calm.concluded

theorem wp_createReview (hshows : StillShows py host req adapter recorded)
    (hsubset : ∀ t ∈ recorded.repliedThreadIds, t ∈ req.candidateIds)
    (h : Sound py host req recorded req.candidateIds s) :
    (createReview req adapter).wp
      (fun _ => Sound py host req recorded req.candidateIds) (Concluded py req recorded) s := by
  unfold createReview
  simp only [Command.wp_bind, Command.wp_get]
  split
  · exact h
  · rw [Command.wp_bind]
    refine wp_request (fun answer _ => ?_) fun f _ => ?_
    · have hasked := h.asked (e := .createReview (.ok answer)) rfl
      cases answer with
      | none => exact hasked.calm.concluded
      | some reviewId => exact ⟨hasked.calm, hasked.retained, hasked.bodies, hasked.prepared⟩
    · exact h.failedLater hsubset hshows.receipts rfl trivial

theorem wp_postReply {item : Text × Text} (hshows : StillShows py host req adapter recorded)
    (hsubset : ∀ t ∈ recorded.repliedThreadIds, t ∈ req.candidateIds)
    (hitem : item.1 ∈ req.candidateIds ∧ item.1 ∉ recorded.repliedThreadIds)
    (h : Sound py host req recorded req.candidateIds s) :
    (postReply py req adapter item).wp
      (fun _ => Sound py host req recorded req.candidateIds) (Concluded py req recorded) s := by
  have hactive : Sound py host req recorded req.candidateIds
      { s with activeThreadId := some item.1 } := ⟨h.calm, h.retained, h.bodies, h.prepared⟩
  unfold postReply
  simp only [Command.wp_bind, Command.wp_modify]
  refine wp_request (fun receipt _ => ?_) fun f _ => ?_
  · have hadded := hactive.asked (e := .addReply item.1 item.2 (.ok receipt)) rfl
    rw [Command.wp_bind]
    refine wp_request (fun answer _ => ?_) fun f _ => ?_
    · have hasked := hadded.asked (e := .thread .readback item.1 (.ok answer)) rfl
      cases answer with
      | none => exact hasked.calm.concluded
      | some live =>
          simp only
          split
          · exact hasked.calm.concluded
          split
          · exact hasked.calm.concluded
          · next commentId _ =>
            exact hasked.record hitem.1 (ofThread_replyReceipt live commentId item.2)
              (fun hrec => absurd hrec hitem.2) rfl rfl rfl rfl
    · exact hadded.failedLater hsubset hshows.receipts rfl trivial
  · exact hactive.failedLater hsubset hshows.receipts rfl trivial

theorem wp_submitReview {reviewId : Text} (hshows : StillShows py host req adapter recorded)
    (hsubset : ∀ t ∈ recorded.repliedThreadIds, t ∈ req.candidateIds)
    (h : Sound py host req recorded req.candidateIds s) :
    (submitReview req adapter reviewId).wp
      (fun _ => Sound py host req recorded req.candidateIds) (Concluded py req recorded) s := by
  unfold submitReview
  rw [Command.wp_bind]
  refine wp_request (fun answer _ => ?_) fun f _ => ?_
  · have hasked := h.asked (e := .submit reviewId (.ok answer)) rfl
    cases answer with
    | true => exact hasked
    | false => exact hasked.calm.concluded
  · exact h.failedLater hsubset hshows.receipts rfl trivial

/-- The verified reply of a thread is the last comment, as the recovered one is. -/
theorem commentId_of_validated {receipt live : Json} {body commentId replyId replyBody : Text}
    (hreply : hostReplyReceipt receipt live body none = some commentId)
    (hvalid : validatedImplementationReply host req.prNumber req.headSha live
      = .ok (some (replyId, replyBody))) : replyId = commentId := by
  unfold hostReplyReceipt at hreply
  split at hreply
  · next after comments hafter hcomments =>
    split at hreply
    · next lastId lastBody final hlast hfinal =>
      have hid : lastId = commentId := by
        split at hreply
        · cases hreply
        split at hreply
        · cases hreply
        split at hreply
        · exact Option.some.inj hreply
        · cases hreply
      unfold validatedImplementationReply at hvalid
      rw [hafter, hcomments] at hvalid
      split at hvalid
      · next threadId snapshot comments' hthread hsnapshot hcomments' =>
        cases hsnapshot
        cases hcomments'
        rw [hlast, hfinal] at hvalid
        simp only at hvalid
        split at hvalid
        · cases hvalid
        · cases hexpected : recomputedReplyBody host req.prNumber req.headSha threadId.toList
            lastBody with
          | error e =>
              rw [hexpected] at hvalid
              cases hvalid
          | ok expected =>
              rw [hexpected] at hvalid
              simp only [Except.map] at hvalid
              split at hvalid
              · cases hvalid
                exact hid
              · cases hvalid
      · cases hvalid
    · cases hreply
  · cases hreply

theorem wp_verifyReply {t : Text} (hshows : StillShows py host req adapter recorded)
    (hsubset : ∀ t ∈ recorded.repliedThreadIds, t ∈ req.candidateIds) (ht : t ∈ req.candidateIds)
    (h : Sound py host req recorded req.candidateIds s) :
    (verifyReply py host req adapter t).wp
      (fun _ => Sound py host req recorded req.candidateIds) (Concluded py req recorded) s := by
  unfold verifyReply
  rw [Command.wp_bind]
  refine wp_request (fun answer hanswer => ?_) fun f _ => ?_
  · have hasked := h.asked (e := .thread .verification t (.ok answer)) rfl
    cases answer with
    | none => exact hasked.calm.concluded
    | some live =>
        simp only
        split
        · exact hasked.calm.concluded
        split
        · next commentId replyBody hvalid =>
          simp only [Command.wp_bind, Command.wp_get]
          split
          · exact hasked.calm.concluded
          · next hbody =>
            rw [not_not] at hbody
            refine hasked.record ht (ofThread_replyReceipt live commentId replyBody)
              (fun hrec p hp => ?_) rfl rfl rfl rfl
            obtain ⟨body, hposted, hreads⟩ := hshows.threads t hrec
            obtain ⟨live', heq, hs⟩ := hreads _ _ _ hanswer
            cases heq
            obtain ⟨commentId', hreply, hsame⟩ := hs.reply
            have hsameBody : replyBody = body := by
              have hnoted := hasked.bodies t replyBody hbody
              rw [hposted] at hnoted
              cases hnoted
              rfl
            rw [commentId_of_validated hreply hvalid, hsameBody]
            exact hsame p hp
        · exact hasked.calm.concluded
  · exact h.failedLater hsubset hshows.receipts rfl trivial

/-- The whole attempt, between its handlers. -/
theorem wp_postReplies (hshows : StillShows py host req adapter recorded) :
    (postReplies py host req adapter (some recorded)).wp (fun _ s => Calm s.history)
      (Concluded py req recorded) (initialReplyState (some recorded)) := by
  have hcalm : Calm (initialReplyState (some recorded)).history :=
    fun e he => absurd he List.not_mem_nil
  unfold postReplies
  rw [Command.wp_bind]
  refine Command.wp_attempt (fun _ hok => ?_) fun exit _ => hcalm.concluded
  have harguments : argumentsOk req (some recorded) = true := by
    have hnot := raiseIf_ok.mp hok
    rwa [Bool.not_eq_false] at hnot
  have hsubset : ∀ t ∈ recorded.repliedThreadIds, t ∈ req.candidateIds := by
    intro t ht
    simp only [argumentsOk, Bool.and_eq_true, List.all_eq_true] at harguments
    exact List.contains_iff_mem.mp (harguments.2 t ht)
  have hempty : Retained py recorded [] ([] : Dict Text Json) :=
    { within := fun _ _ h => (by cases h), keyed := fun _ _ h => (by cases h)
      carried := fun _ _ h => absurd h List.not_mem_nil }
  have hinit : Sound py host req recorded [] (initialReplyState (some recorded)) :=
    { calm := hcalm, retained := hempty, bodies := fun _ _ h => (by cases h)
      prepared := fun _ h => absurd h List.not_mem_nil }
  rw [Command.wp_bind]
  refine Command.wp_mono (Command.wp_forM (I := fun done s => Sound py host req recorded done s)
    (fun done t rest hids s h => wp_discoverThread hshows hsubset hids h) hinit) ?_
    fun _ _ hc => hc
  intro _ s h
  rw [Command.wp_bind, Command.wp_get, Command.wp_bind]
  refine Command.wp_attempt (fun pullRequestId _ => ?_) fun exit _ => h.calm.concluded
  rw [Command.wp_bind]
  refine Command.wp_mono (wp_selectReview h) ?_ fun _ _ hc => hc
  intro _ selected h
  rw [Command.wp_bind, Command.wp_get, Command.wp_bind]
  refine Command.wp_attempt (fun _ _ => ?_) fun exit _ => h.calm.concluded
  rw [Command.wp_bind]
  refine Command.wp_mono (wp_createReview hshows hsubset h) ?_ fun _ _ hc => hc
  intro reviewId s h'
  rw [Command.wp_bind]
  refine Command.wp_mono (Command.wp_forM
    (I := fun _ s => Sound py host req recorded req.candidateIds s)
    (fun pre item post hitems s hs => wp_postReply hshows hsubset (h.prepared item ?_) hs) h') ?_
    fun _ _ hc => hc
  · rw [hitems]
    exact List.mem_append_right _ List.mem_cons_self
  intro _ s h
  rw [Command.wp_bind]
  refine Command.wp_mono (wp_submitReview hshows hsubset h) ?_ fun _ _ hc => hc
  intro _ s h
  rw [Command.wp_bind]
  refine Command.wp_mono (Command.wp_forM
    (I := fun _ s => Sound py host req recorded req.candidateIds s)
    (fun pre t post hids s hs => wp_verifyReply hshows hsubset ?_ hs) h) ?_ fun _ _ hc => hc
  · rw [hids]
    exact List.mem_append_right _ List.mem_cons_self
  intro _ s h
  exact h.calm

end Parts

/-- While the live threads show the record, a retryable error from before a
dispatch leaves the progress with everything recorded exactly when it strikes
neither the discovery of a recorded thread, or of one before it, nor the reviews. -/
theorem reply_progress_kept_iff (py : PyText) (host : ReplyHost) (req : ReplyRequest)
    (adapter : ReplyAdapter) (recorded : ReplyProgress)
    (hshows : StillShows py host req adapter recorded) :
    ∀ e ∈ (postImplementationThreadReplies py host req adapter (some recorded)).2,
      e.preDispatch = true →
      (KeptBy py recorded (postImplementationThreadReplies py host req adapter (some recorded)).1
        ↔ e.Harmless recorded) := by
  have hrun := wp_postReplies hshows
  unfold Command.wp at hrun
  unfold postImplementationThreadReplies
  split at hrun
  · next result s hexec =>
    rw [hexec]
    intro e he hpre
    rw [hrun e he] at hpre
    cases hpre
  · next exit s hexec =>
    rw [hexec]
    exact hrun

/-! ## What shows a reply -/

/-- A receipt agrees with itself: its identity is three texts. -/
theorem sameIdentity_replyReceipt {t : Text} (live : LiveThread t) (commentId body : Text) :
    sameIdentity (replyReceipt req live commentId body) (replyReceipt req live commentId body)
      = true := by
  rw [sameIdentity, List.all_eq_true]
  intro field hfield
  have htext : ∃ text, (replyReceipt req live commentId body).get? field = some (.str text) := by
    simp only [identityFields, List.mem_cons, List.not_mem_nil, or_false] at hfield
    rcases hfield with rfl | rfl | rfl
    · exact ⟨String.ofList commentId, by simp [replyReceipt, Json.get?, Dict.get?_set]⟩
    · exact ⟨String.ofList body, by simp [replyReceipt, Json.get?, Dict.get?_set]⟩
    · exact ⟨String.ofList req.headSha, by simp [replyReceipt, Json.get?]⟩
  obtain ⟨text, htext⟩ := htext
  rw [htext]
  exact Json.str_eq_iff.mpr rfl

theorem commentIdentity?_of {comment : Json} {id author text : String} {body : Text}
    (hid : comment.get? "id" = some (.str id)) (hauthor : comment.get? "author" = some (.str author))
    (hbody : comment.get? "body" = some (.str text)) (htext : text.toList = body)
    (hfilled : Text.strip id.toList ≠ []) : commentIdentity? comment = some (id.toList, body) := by
  simp only [commentIdentity?, hid, hauthor, hbody, Option.bind_eq_bind, Option.bind_some, Json.asStr?,
    htext, if_neg hfilled]

theorem threadCommentSnapshot_of {thread : Json} {comments : List Json} {snapshot : List (Text × Text)}
    (hcomments : commentsOf? thread = some comments)
    (hmap : comments.mapM commentIdentity? = some snapshot)
    (hnodup : (snapshot.map Prod.fst).Nodup) : threadCommentSnapshot thread = some snapshot := by
  simp only [threadCommentSnapshot, hcomments, hmap, if_pos hnodup]

/-- A reply of the host after everything the source showed is its receipt. -/
theorem hostReplyReceipt_of {receipt live final : Json} {comments : List Json}
    {before : List (Text × Text)} {commentId body : Text}
    (hlive : threadCommentSnapshot live = some (before ++ [(commentId, body)]))
    (hreceipt : threadCommentSnapshot receipt = some before)
    (hcomments : commentsOf? live = some comments) (hfinal : comments.getLast? = some final)
    (hmine : isTrue (final.get? "viewer_did_author") = true)
    (hid : (receipt.get? "id").bind Json.asStr? = (live.get? "id").bind Json.asStr?) :
    hostReplyReceipt receipt live body none = some commentId := by
  have hsame : sameSnapshotWithReply receipt live body commentId = true := by
    simp [sameSnapshotWithReply, hreceipt, hlive, hid]
  simp [hostReplyReceipt, hlive, hcomments, hfinal, hmine, hsame, isNone]

/-! ## Two attempts at a batch of two -/

/-- A turn of the discovery whose read fails. -/
theorem exec_discoverThread_fails {s : ReplyState} {t body : Text} {f : GraphFailure}
    (hbody : postedReplyBody host req.prNumber req.headSha t (req.reply t) req.nonce.text
      = .ok (some body))
    (hread : adapter.thread s.history .discovery t = .error f) :
    (discoverThread py host req adapter t).exec s
      = (.error (.failure f), s.asked (.thread .discovery t (.error f))) := by
  simp only [discoverThread, hbody, request, Command.exec_bind, Command.exec_get,
    Command.exec_set, Command.exec_attempt, hread, Except.mapError, ReplyState.asked]

/-- A turn of the discovery whose read is kept. -/
theorem exec_discoverThread_notes {s : ReplyState} {t body pullRequestId : Text}
    {live : LiveThread t}
    (hbody : postedReplyBody host req.prNumber req.headSha t (req.reply t) req.nonce.text
      = .ok (some body))
    (hread : adapter.thread s.history .discovery t = .ok (some live))
    (hunresolved : isUnresolved live.json = true)
    (hcurrent : prIsCurrentOpenHead py (live.json.get? "pr_state") req.headSha = true)
    (hnode : prNodeId live.json = some pullRequestId) :
    (discoverThread py host req adapter t).exec s
      = (.ok (), noteDiscovery req t pullRequestId body live
          (s.asked (.thread .discovery t (.ok (some live))))) := by
  simp only [discoverThread, hbody, request, Command.exec_bind, Command.exec_get,
    Command.exec_set, Command.exec_attempt, hread, Except.mapError, hunresolved, hcurrent, hnode,
    Bool.true_eq_false, if_false, Command.exec_modify, ReplyState.asked]

/-- A thread of the reviewer with one comment. -/
def sourceThread (id : String) : Json :=
  .obj [("id", .str id), ("comments", .arr [.obj [("id", .str ("c" ++ id)),
    ("author", .str "reviewer"), ("body", .str "Please fix.")]])]

/-- A batch for two threads. -/
def pairBatch : ReplyRequest :=
  { prNumber := 7, headSha := List.replicate 40 'b', full := by decide
    nonce := ⟨List.replicate 32 '1', by decide⟩
    threads := [sourceThread "A", sourceThread "B"]
    candidateIds := [['A'], ['B']], sorted := by decide, named := by decide
    reply := fun _ => some "Done.".toList, recoverPendingReview := false }

/-- The adapter's repository. -/
def pairHost : ReplyHost := { org := ['o'], repo := some ['r'] }

/-- The body of a reply of the batch. -/
def pairBody (t : Text) : Text :=
  renderReply pairHost.identity 7 (List.replicate 40 'b') t "Done.".toList (List.replicate 32 '1')

/-- The first thread after its reply was posted. -/
def repliedThread : LiveThread ['A'] :=
  { fields := [("id", .str "A"), ("isResolved", .bool false),
      ("comments", .arr [
        .obj [("id", .str "cA"), ("author", .str "reviewer"), ("body", .str "Please fix.")],
        .obj [("id", .str "rA"), ("author", .str "host"),
          ("body", .str (String.ofList (pairBody ['A']))), ("viewer_did_author", .bool true),
          ("review_id", .str "R"), ("review_state", .str "PENDING")]]),
      ("pr_node_id", .str "P"),
      ("pr_state", .obj [("state", .str "OPEN"),
        ("headRefOid", .str (String.ofList (List.replicate 40 'b')))])]
    id_eq := rfl }

/-- The record of the first reply. -/
def firstReply : ReplyProgress :=
  { phase := "post_replies", pullRequestId := ['P'], pendingReviewId := some ['R']
    repliedThreadIds := [['A']]
    receipts := [replyReceipt pairBatch repliedThread "rA".toList (pairBody ['A'])]
    activeThreadId := none, activeCommentId := none }

/-- GitHub without an answer. -/
def silentAdapter : ReplyAdapter where
  thread _ _ _ := .error (.retryable true)
  reviews _ := .error (.retryable true)
  createReview _ := .error (.retryable true)
  addReply _ := .error (.retryable true)
  submit _ := .error (.retryable true)

/-- GitHub that answers for the first thread only. -/
def firstAdapter : ReplyAdapter :=
  { silentAdapter with
    thread := fun _ _ t =>
      if h : t = ['A'] then .ok (some (h ▸ repliedThread)) else .error (.retryable true) }

/-- The tables of the ASCII letters. -/
def asciiText : PyText := { Text.asciiTables with str := fun _ => [] }

theorem postedReplyBody_pair (t : Text) :
    postedReplyBody pairHost pairBatch.prNumber pairBatch.headSha t (pairBatch.reply t)
      pairBatch.nonce.text = .ok (some (pairBody t)) := rfl

theorem keys_firstReply :
    ∀ r ∈ firstReply.receipts, receiptKey asciiText r ∈ firstReply.repliedThreadIds := by
  intro r hr
  rw [List.mem_singleton.mp hr, OfThread.key (ofThread_replyReceipt repliedThread _ _) (by decide)]
  exact List.mem_singleton.mpr rfl

theorem hostReplyReceipt_first :
    hostReplyReceipt (pairBatch.source ['A']) repliedThread.json (pairBody ['A']) none
      = some "rA".toList := by
  have hsource : commentIdentity? (.obj [("id", .str "cA"), ("author", .str "reviewer"),
        ("body", .str "Please fix.")])
      = some ("cA".toList, "Please fix.".toList) :=
    commentIdentity?_of rfl rfl rfl rfl (by decide)
  have hreply : commentIdentity? (.obj [("id", .str "rA"), ("author", .str "host"),
        ("body", .str (String.ofList (pairBody ['A']))), ("viewer_did_author", .bool true),
        ("review_id", .str "R"), ("review_state", .str "PENDING")])
      = some ("rA".toList, pairBody ['A']) :=
    commentIdentity?_of rfl rfl rfl String.toList_ofList (by decide)
  have hafter : threadCommentSnapshot repliedThread.json
      = some [("cA".toList, "Please fix.".toList), ("rA".toList, pairBody ['A'])] :=
    threadCommentSnapshot_of rfl (by simp [hsource, hreply]) (by decide)
  have hbefore : threadCommentSnapshot (pairBatch.source ['A'])
      = some [("cA".toList, "Please fix.".toList)] :=
    threadCommentSnapshot_of rfl (by simp [hsource]) (by decide)
  exact hostReplyReceipt_of hafter hbefore rfl rfl rfl rfl

theorem showsReply_first :
    ShowsReply asciiText pairBatch firstReply (pairBody ['A']) repliedThread where
  unresolved := rfl
  current := by decide
  pullRequest := rfl
  reply := by
    refine ⟨"rA".toList, hostReplyReceipt_first, fun p hp => ?_⟩
    rw [List.mem_singleton.mp (receiptOf_some hp).2]
    exact sameIdentity_replyReceipt _ _ _

theorem stillShows_first : StillShows asciiText pairHost pairBatch firstAdapter firstReply where
  receipts := keys_firstReply
  threads := by
    intro t ht
    rw [List.mem_singleton.mp ht]
    refine ⟨pairBody ['A'], postedReplyBody_pair ['A'], fun _ _ answer hanswer => ?_⟩
    have hread : (Except.ok (some repliedThread) : Except GraphFailure _) = .ok answer := hanswer
    cases hread
    exact ⟨repliedThread, rfl, showsReply_first⟩

/-- The second thread cannot be read: the first reply stays in the progress. -/
theorem reply_progress_kept_first :
    KeptBy asciiText firstReply
      (postImplementationThreadReplies asciiText pairHost pairBatch firstAdapter
        (some firstReply)).1 := by
  refine (reply_progress_kept_iff asciiText pairHost pairBatch firstAdapter firstReply
    stillShows_first (.thread .discovery ['B'] (.error (.retryable true))) ?_ rfl).mpr ?_
  · have hok : argumentsOk pairBatch (some firstReply) = true := by decide
    have hnode : prNodeId repliedThread.json = some ['P'] := rfl
    simp only [postImplementationThreadReplies, postReplies, Command.exec_bind,
      Command.exec_attempt, raiseIf, hok, Bool.true_eq_false, if_false]
    rw [show pairBatch.candidateIds = [['A'], ['B']] from rfl, List.forM, Command.exec_bind,
      exec_discoverThread_notes (postedReplyBody_pair ['A']) rfl showsReply_first.unresolved
        showsReply_first.current hnode]
    simp only [List.forM, Command.exec_bind]
    rw [exec_discoverThread_fails (postedReplyBody_pair ['B']) rfl]
    exact List.mem_append_right _ (List.mem_singleton.mpr rfl)
  · intro t ht
    rw [List.mem_singleton.mp ht]
    rfl

/-- GitHub stays silent: the record is gone from the progress, though the live
thread could not have lost it. -/
theorem reply_progress_lost :
    ¬ ∀ (py : PyText) (host : ReplyHost) (req : ReplyRequest) (adapter : ReplyAdapter)
      (recorded : ReplyProgress), StillShows py host req adapter recorded →
      ∀ e ∈ (postImplementationThreadReplies py host req adapter (some recorded)).2,
        e.preDispatch = true →
        KeptBy py recorded
          (postImplementationThreadReplies py host req adapter (some recorded)).1 := by
  intro hall
  have hshows : StillShows asciiText pairHost pairBatch silentAdapter firstReply :=
    { receipts := keys_firstReply
      threads := by
        intro t _
        exact ⟨pairBody t, postedReplyBody_pair t, fun _ _ _ h => by cases h⟩ }
  have hok : argumentsOk pairBatch (some firstReply) = true := by decide
  have hrun : postImplementationThreadReplies asciiText pairHost pairBatch silentAdapter
        (some firstReply)
      = (concludeReplies pairBatch (some firstReply) (.failure (.retryable true))
          ((initialReplyState (some firstReply)).asked
            (.thread .discovery ['A'] (.error (.retryable true)))),
        [.thread .discovery ['A'] (.error (.retryable true))]) := by
    simp only [postImplementationThreadReplies, postReplies, Command.exec_bind,
      Command.exec_attempt, raiseIf, hok, Bool.true_eq_false, if_false]
    rw [show pairBatch.candidateIds = [['A'], ['B']] from rfl, List.forM, Command.exec_bind,
      exec_discoverThread_fails (postedReplyBody_pair ['A']) rfl]
    rfl
  have hkept := hall asciiText pairHost pairBatch silentAdapter firstReply hshows
    (.thread .discovery ['A'] (.error (.retryable true)))
  rw [hrun] at hkept
  obtain ⟨current, hcurrent, ⟨hids, -⟩, -⟩ := hkept (List.mem_singleton.mpr rfl) rfl
  have hprogress : (concludeReplies pairBatch (some firstReply) (.failure (.retryable true))
      ((initialReplyState (some firstReply)).asked
        (.thread .discovery ['A'] (.error (.retryable true))))).progress.map
          ReplyProgress.repliedThreadIds = some [] := rfl
  rw [hcurrent] at hprogress
  have hmem := hids ['A'] (List.mem_singleton.mpr rfl)
  rw [Option.some.inj hprogress] at hmem
  exact absurd hmem List.not_mem_nil

end Hephaestus.Automation
