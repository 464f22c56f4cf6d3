import Mathlib.Data.List.Perm.Basic
import Mathlib.Data.Option.Basic
import Hephaestus.Automation.ReviewerReconciliation
import Hephaestus.Lib.FirstSeen

/-!
# What a reconciliation does to the threads

Every thread has one turn, and a turn sends one mutation at most, right after a read that
shows the thread as the receipt has it. A run is its turns one after the other, up to one
that something leaves: what a run reports and what it sends is told from them.
-/

namespace Hephaestus.Automation

open Hephaestus.Lib

/-! ## Lists of turns -/

section Turns

variable {α β : Type}

/-- Where an element of a concatenation stands in its part. -/
theorem flatMap_split {f : α → List β} {l : List α} {before after : List β} {b : β}
    (h : l.flatMap f = before ++ b :: after) : ∃ front a back pre post, l = front ++ a :: back
      ∧ f a = pre ++ b :: post ∧ before = front.flatMap f ++ pre ∧ after = post ++ back.flatMap f := by
  induction l generalizing before with
  | nil => exact absurd h.symm (List.append_ne_nil_of_right_ne_nil _ (List.cons_ne_nil _ _))
  | cons a l ih =>
      rw [List.flatMap_cons] at h
      rcases List.append_eq_append_iff.mp h with ⟨pre, hbefore, hrest⟩ | ⟨post, hpart, hrest⟩
      · obtain ⟨front, a', back, pre', post, rfl, hpart, rfl, hafter⟩ := ih hrest
        refine ⟨a :: front, a', back, pre', post, rfl, hpart, ?_, hafter⟩
        rw [hbefore, List.flatMap_cons, List.append_assoc]
      · cases post with
        | nil =>
            rw [List.nil_append] at hrest
            rw [List.append_nil] at hpart
            obtain ⟨front, a', back, pre', post, rfl, hpart', hbefore, hafter⟩ :=
              @ih [] hrest.symm
            refine ⟨a :: front, a', back, pre', post, rfl, hpart', ?_, hafter⟩
            rw [List.flatMap_cons, List.append_assoc, ← hbefore, List.append_nil, hpart]
        | cons c post =>
            obtain ⟨rfl, rfl⟩ := List.cons.inj hrest
            exact ⟨[], a, l, before, post, rfl, hpart, rfl, rfl⟩

end Turns

/-! ## Replies of receipts -/

section Reconciliation

variable {py : PyText} {host : ReplyHost} {req : ReconcileRequest} {adapter : ReconcileAdapter}

theorem matchReplyBody_nonce {body visible nonce : Text}
    (h : matchReplyBody body = some (visible, nonce)) : Text.isHexOfLength 32 nonce = true := by
  unfold matchReplyBody at h
  dsimp only at h
  split at h
  · next hmatch =>
      obtain ⟨_, rfl⟩ := Prod.mk.inj (Option.some.inj h)
      exact hmatch.2.2
  · cases h

/-- The only error of the check is about a nonce that the check itself has matched. -/
theorem validatedImplementationReply_isOk (host : ReplyHost) (prNumber : Nat) (head : Text)
    (thread : Json) : ∃ reply, validatedImplementationReply host prNumber head thread = .ok reply := by
  have hbody : ∀ threadId body, ∃ expected,
      recomputedReplyBody host prNumber head threadId body = .ok expected := by
    intro threadId body
    unfold recomputedReplyBody
    cases hmatch : matchReplyBody body with
    | none => exact ⟨none, rfl⟩
    | some groups =>
        obtain ⟨visible, nonce⟩ := groups
        have hnonce := matchReplyBody_nonce hmatch
        dsimp only
        split
        · exact ⟨none, rfl⟩
        · split
          · exact ⟨none, rfl⟩
          · unfold implementationThreadReplyBody
            rw [if_neg (by simp [hnonce])]
            exact ⟨_, rfl⟩
  unfold validatedImplementationReply
  split
  · split
    · split
      · exact ⟨none, rfl⟩
      · obtain ⟨expected, hexpected⟩ := hbody _ _
        rw [hexpected]
        exact ⟨_, rfl⟩
    · exact ⟨none, rfl⟩
  · exact ⟨none, rfl⟩

/-! ## One turn -/

def ReconcileEvent.threadId : ReconcileEvent → Text
  | .read t _ => t
  | .feedback t _ _ => t
  | .resolve t _ => t

def ReconcileEvent.IsMutation : ReconcileEvent → Prop
  | .read _ _ => False
  | .feedback _ _ _ => True
  | .resolve _ _ => True

/-- Its answer is an exception that nothing catches. -/
def ReconcileEvent.Escapes : ReconcileEvent → Prop
  | .read _ answer => answer = .error .uncaught
  | .feedback _ _ answer => answer = .error .uncaught
  | .resolve _ answer => answer = .error .uncaught

theorem escapes_of_read (t : Text) {events : List ReconcileEvent} {failure : ReconcileFailure}
    (hmem : .read t (.error failure) ∈ events) (h : failure = .uncaught) :
    ∃ event ∈ events, event.Escapes := by
  subst h
  exact ⟨_, hmem, rfl⟩

/-- The thread is open on the reviewed head with the comments of the receipt, and the last of
them is the validated reply that the receipt names. -/
def Stands (py : PyText) (host : ReplyHost) (req : ReconcileRequest) (receipt live : Json) : Prop :=
  standsUnchanged py req receipt live = true ∧ stillReplied host req receipt live = .ok true

/-- The mutation is the one that was decided on for the thread. -/
def Decided (host : ReplyHost) (req : ReconcileRequest) (t : Text) : ReconcileEvent → Prop
  | .read _ _ => False
  | .feedback t' body _ => t' = t ∧ ∃ feedback detail, req.feedback.get? t = some feedback
      ∧ safeThreadReply (some feedback) = some detail
      ∧ body = reviewerThreadFeedbackBody host req.prNumber req.reviewedHeadSha t detail
  | .resolve t' _ => t' = t ∧ req.feedback.get? t = none

/-- A read; where the thread stands it may be followed by the mutation, and this by a read. -/
def TurnShape (py : PyText) (host : ReplyHost) (req : ReconcileRequest) (receipt : Json) (t : Text)
    (events : List ReconcileEvent) : Prop :=
  (∃ answer, events = [.read t answer]) ∨ ∃ live mutation rest,
    events = .read t (.ok (some live)) :: mutation :: rest ∧ Stands py host req receipt live.json
      ∧ Decided host req t mutation ∧ (rest = [] ∨ ∃ answer, rest = [.read t answer])

theorem TurnShape.sent {receipt : Json} {t : Text} {live : LiveThread t} {mutation : ReconcileEvent}
    (hstands : Stands py host req receipt live.json) (hdecided : Decided host req t mutation) :
    TurnShape py host req receipt t [.read t (.ok (some live)), mutation] :=
  .inr ⟨live, mutation, [], rfl, hstands, hdecided, .inl rfl⟩

theorem TurnShape.checked {receipt : Json} {t : Text} {live : LiveThread t} {mutation : ReconcileEvent}
    (hstands : Stands py host req receipt live.json) (hdecided : Decided host req t mutation)
    (answer : Except ReconcileFailure (Option (LiveThread t))) :
    TurnShape py host req receipt t [.read t (.ok (some live)), mutation, .read t answer] :=
  .inr ⟨live, mutation, _, rfl, hstands, hdecided, .inr ⟨answer, rfl⟩⟩

/-- What a turn may ask, and what its end says. -/
structure TurnOk (py : PyText) (host : ReplyHost) (req : ReconcileRequest) (receipt : Json) (t : Text)
    (events : List ReconcileEvent) (out : Except ReconcileFailure Verdict) : Prop where
  shape : TurnShape py host req receipt t events
  resolved : out = .ok .resolved → ∃ first answer after,
    events = [first, .resolve t (.ok answer), .read t (.ok (some after))]
      ∧ resolveAccepted t answer = true ∧ resolutionSeen py req receipt after.json = true
  replied : out = .ok .replied → ∃ first body fields after,
    events = [first, .feedback t body (.ok (.obj fields)), .read t (.ok (some after))]
      ∧ feedbackProven py req receipt after.json body (Dict.get? fields "id") = true
  escaped : out = .error .uncaught → ∃ event ∈ events, event.Escapes

/-- A turn that reports nothing has nothing to prove. -/
theorem TurnOk.blocked {receipt : Json} {t : Text} {events : List ReconcileEvent}
    (shape : TurnShape py host req receipt t events) :
    TurnOk py host req receipt t events (.ok .blocked) where
  shape := shape
  resolved := fun h => by cases h
  replied := fun h => by cases h
  escaped := fun h => by cases h

theorem TurnOk.failed {receipt : Json} {t : Text} {events : List ReconcileEvent}
    {failure : ReconcileFailure}
    (shape : TurnShape py host req receipt t events)
    (hescaped : failure = .uncaught → ∃ event ∈ events, event.Escapes) :
    TurnOk py host req receipt t events (.error failure) where
  shape := shape
  resolved := fun h => by cases h
  replied := fun h => by cases h
  escaped := fun h => hescaped (Except.error.inj h)

theorem feedbackTurn_ok (adapter : ReconcileAdapter) {receipt : Json} {t feedback : Text}
    (hfor : req.feedback.get? t = some feedback) {live : LiveThread t}
    (hstands : Stands py host req receipt live.json) (history : List ReconcileEvent) :
    ∃ events, (feedbackTurn py host req adapter receipt t feedback history).1 = history ++ events
      ∧ TurnOk py host req receipt t (.read t (.ok (some live)) :: events)
        (feedbackTurn py host req adapter receipt t feedback history).2 := by
  unfold feedbackTurn
  cases hsafe : safeThreadReply (some feedback) with
  | none => exact ⟨[], (List.append_nil _).symm, .blocked (.inl ⟨_, rfl⟩)⟩
  | some detail =>
      have hdecided : ∀ answer, Decided host req t (.feedback t
          (reviewerThreadFeedbackBody host req.prNumber req.reviewedHeadSha t detail) answer) :=
        fun _ => ⟨rfl, feedback, detail, hfor, hsafe, rfl⟩
      dsimp only
      cases hsent : adapter.feedback history with
      | error failure =>
          cases failure with
          | outcomeUnknown => exact ⟨_, rfl, .blocked (.sent hstands (hdecided _))⟩
          | response => exact ⟨_, rfl, .blocked (.sent hstands (hdecided _))⟩
          | caught =>
              exact ⟨_, rfl, .failed (.sent hstands (hdecided _))
                fun h => by cases h⟩
          | uncaught =>
              exact ⟨_, rfl, .failed (.sent hstands (hdecided _))
                fun _ => ⟨_, List.mem_cons_of_mem _ (List.mem_singleton_self _), rfl⟩⟩
      | ok answer =>
          cases answer with
          | obj fields =>
              dsimp only
              rw [List.append_assoc]
              cases hafter : adapter.read (history ++ [.feedback t
                  (reviewerThreadFeedbackBody host req.prNumber req.reviewedHeadSha t detail)
                  (.ok (.obj fields))]) t with
              | error failure =>
                  refine ⟨_, rfl, .failed (.checked hstands (hdecided _) _) (escapes_of_read t ?_)⟩
                  exact List.mem_cons_of_mem _ (List.mem_cons_of_mem _ List.mem_cons_self)
              | ok answer =>
                  cases answer with
                  | none =>
                      exact ⟨_, rfl, .blocked (.checked hstands (hdecided _) _)⟩
                  | some after =>
                      refine ⟨_, rfl, ⟨.checked hstands (hdecided _) _, ?_, ?_, ?_⟩⟩
                      · intro h
                        dsimp only at h
                        split at h
                        · cases h
                        · cases h
                      · intro h
                        dsimp only at h
                        split at h
                        · next hproven => exact ⟨_, _, fields, after, rfl, hproven⟩
                        · cases h
                      · intro h
                        cases h
          | _ =>
              exact ⟨_, rfl, .failed (.sent hstands (hdecided _))
                fun h => by cases h⟩

theorem TurnOk.blockOn {receipt : Json} {t : Text} {events : List ReconcileEvent}
    {failure : ReconcileFailure}
    (shape : TurnShape py host req receipt t events)
    (hescaped : failure = .uncaught → ∃ event ∈ events, event.Escapes) :
    TurnOk py host req receipt t events (Automation.blockOn failure) := by
  cases failure with
  | uncaught => exact .failed shape hescaped
  | _ => exact .blocked shape

theorem resolveTurn_ok (adapter : ReconcileAdapter) {receipt : Json} {t : Text}
    (hfor : req.feedback.get? t = none) {live : LiveThread t}
    (hstands : Stands py host req receipt live.json) (history : List ReconcileEvent) :
    ∃ events, (resolveTurn py req adapter receipt t history).1 = history ++ events
      ∧ TurnOk py host req receipt t (.read t (.ok (some live)) :: events)
        (resolveTurn py req adapter receipt t history).2 := by
  have hdecided : ∀ answer, Decided host req t (.resolve t answer) := fun _ => ⟨rfl, hfor⟩
  unfold resolveTurn
  dsimp only
  cases hsent : adapter.resolve history with
  | error failure =>
      refine ⟨_, rfl, .blockOn (.sent hstands (hdecided _)) ?_⟩
      intro h
      refine ⟨_, List.mem_cons_of_mem _ (List.mem_singleton_self _), ?_⟩
      rw [h]
      rfl
  | ok answer =>
      dsimp only
      rw [List.append_assoc]
      cases hafter : adapter.read (history ++ [.resolve t (.ok answer)]) t with
      | error failure =>
          refine ⟨_, rfl, .blockOn (.checked hstands (hdecided _) _) (escapes_of_read t ?_)⟩
          exact List.mem_cons_of_mem _ (List.mem_cons_of_mem _ List.mem_cons_self)
      | ok seen =>
          cases seen with
          | none => exact ⟨_, rfl, .blocked (.checked hstands (hdecided _) _)⟩
          | some after =>
              refine ⟨_, rfl, ⟨.checked hstands (hdecided _) _, ?_, ?_, ?_⟩⟩
              · intro h
                dsimp only at h
                split at h
                · next hproven =>
                    rw [Bool.and_eq_true] at hproven
                    exact ⟨_, answer, after, rfl, hproven.1, hproven.2⟩
                · cases h
              · intro h
                dsimp only at h
                split at h
                · cases h
                · cases h
              · intro h
                cases h

/-- Every turn of a thread with a receipt is of this kind. -/
theorem reconcileTurn_ok (host : ReplyHost) (adapter : ReconcileAdapter) {byId : Dict Text Json}
    {receipt : Json} {t : Text} (hby : byId.get? t = some receipt) (history : List ReconcileEvent) :
    ∃ events, (reconcileTurn py host req adapter byId t history).1 = history ++ events
      ∧ TurnOk py host req receipt t events (reconcileTurn py host req adapter byId t history).2 := by
  unfold reconcileTurn
  rw [hby]
  dsimp only
  cases hread : adapter.read history t with
  | error failure =>
      exact ⟨_, rfl, .failed (.inl ⟨_, rfl⟩) (escapes_of_read t (List.mem_singleton_self _))⟩
  | ok answer =>
      cases answer with
      | none => exact ⟨_, rfl, .blocked (.inl ⟨_, rfl⟩)⟩
      | some live =>
          dsimp only
          by_cases hsame : standsUnchanged py req receipt live.json = false
          · rw [if_pos hsame]
            exact ⟨_, rfl, .blocked (.inl ⟨_, rfl⟩)⟩
          · rw [if_neg hsame]
            rw [Bool.not_eq_false] at hsame
            obtain ⟨still, hstill⟩ : ∃ still, stillReplied host req receipt live.json = .ok still := by
              obtain ⟨reply, hreply⟩ := validatedImplementationReply_isOk host req.prNumber
                req.reviewedHeadSha live.json
              unfold stillReplied
              rw [hreply]
              exact ⟨_, rfl⟩
            rw [hstill]
            cases still with
            | false => exact ⟨_, rfl, .blocked (.inl ⟨_, rfl⟩)⟩
            | true =>
                have hstands : Stands py host req receipt live.json := ⟨hsame, hstill⟩
                dsimp only
                cases hfor : req.feedback.get? t with
                | some feedback =>
                    obtain ⟨events, hhistory, hturn⟩ := feedbackTurn_ok adapter hfor hstands
                      (history ++ [.read t (.ok (some live))])
                    rw [List.append_assoc] at hhistory
                    exact ⟨_, hhistory, hturn⟩
                | none =>
                    obtain ⟨events, hhistory, hturn⟩ := resolveTurn_ok adapter hfor hstands
                      (history ++ [.read t (.ok (some live))])
                    rw [List.append_assoc] at hhistory
                    exact ⟨_, hhistory, hturn⟩

/-! ## The loop -/

/-- A turn that was taken. -/
structure TakenTurn where
  threadId : Text
  events : List ReconcileEvent
  out : Except ReconcileFailure Verdict

/-- The threads with this verdict, in their order. -/
def withVerdict (turns : List TakenTurn) (verdict : Verdict) : List Text :=
  (turns.filter fun turn => turn.out.toOption = some verdict).map TakenTurn.threadId

/-- The receipt of a thread among those of the request. -/
def ReconcileRequest.Holds (py : PyText) (req : ReconcileRequest) (t : Text) (receipt : Json) : Prop :=
  (∃ fields ∈ req.receipts, receipt = .obj fields) ∧ threadIdOf py receipt = t

/-- A run of the loop as its turns. -/
structure Turns (py : PyText) (host : ReplyHost) (req : ReconcileRequest) (ids : List Text)
    (s s' : ReconcileState) (exit : Option ReconcileFailure) (turns : List TakenTurn) : Prop where
  ok : ∀ turn ∈ turns, ∃ receipt, req.Holds py turn.threadId receipt
    ∧ TurnOk py host req receipt turn.threadId turn.events turn.out
  order : turns.map TakenTurn.threadId <+: ids
  history : s'.history = s.history ++ turns.flatMap TakenTurn.events
  resolved : s'.resolved = s.resolved ++ withVerdict turns .resolved
  replied : s'.replied = s.replied ++ withVerdict turns .replied
  blocked : s'.blocked = s.blocked ++ withVerdict turns .blocked
  finished : exit = none → turns.map TakenTurn.threadId = ids ∧ ∀ turn ∈ turns, ∃ v, turn.out = .ok v
  left : ∀ failure, exit = some failure → ∃ turn ∈ turns, turn.out = .error failure

theorem withVerdict_cons_ok (t : Text) (events : List ReconcileEvent) (v verdict : Verdict)
    (turns : List TakenTurn) :
    withVerdict (⟨t, events, .ok v⟩ :: turns) verdict
      = if v = verdict then t :: withVerdict turns verdict else withVerdict turns verdict := by
  unfold withVerdict
  by_cases h : v = verdict
  · simp [Except.toOption, h]
  · simp [Except.toOption, h]

theorem reconcileLoop_turns (host : ReplyHost) (adapter : ReconcileAdapter) {byId : Dict Text Json}
    {ids : List Text} (hby : ∀ t ∈ ids, ∃ receipt, byId.get? t = some receipt ∧ req.Holds py t receipt)
    (s : ReconcileState) :
    ∃ turns, Turns py host req ids s (reconcileLoop py host req adapter byId ids s).1
      (reconcileLoop py host req adapter byId ids s).2 turns := by
  induction ids generalizing s with
  | nil =>
      refine ⟨[], ⟨by simp, List.nil_prefix, ?_, ?_, ?_, ?_, fun _ => ⟨rfl, by simp⟩, ?_⟩⟩
      · exact (List.append_nil _).symm
      · exact (List.append_nil _).symm
      · exact (List.append_nil _).symm
      · exact (List.append_nil _).symm
      · intro failure h
        cases h
  | cons t ids ih =>
      rw [List.forall_mem_cons] at hby
      obtain ⟨⟨receipt, hget, hholds⟩, hby⟩ := hby
      obtain ⟨events, hhistory, hturn⟩ : ∃ events,
          (reconcileTurn py host req adapter byId t s.history).1 = s.history ++ events
            ∧ TurnOk py host req receipt t events (reconcileTurn py host req adapter byId t s.history).2 :=
        reconcileTurn_ok host adapter hget s.history
      unfold reconcileLoop
      generalize reconcileTurn py host req adapter byId t s.history = turn at hhistory hturn ⊢
      obtain ⟨history, out⟩ := turn
      dsimp only at hhistory hturn
      subst hhistory
      cases out with
      | error failure =>
          refine ⟨[⟨t, events, .error failure⟩], ⟨?_, ?_, ?_, ?_, ?_, ?_, ?_, ?_⟩⟩
          · intro turn hmem
            rw [List.mem_singleton] at hmem
            subst hmem
            exact ⟨receipt, hholds, hturn⟩
          · exact ⟨ids, rfl⟩
          · simp
          · exact (List.append_nil _).symm
          · exact (List.append_nil _).symm
          · exact (List.append_nil _).symm
          · intro h
            cases h
          · intro failure' h
            obtain rfl := Option.some.inj h
            exact ⟨_, List.mem_singleton_self _, rfl⟩
      | ok v =>
          dsimp only
          obtain ⟨turns, h⟩ := ih hby (s.note t (s.history ++ events) v)
          refine ⟨⟨t, events, .ok v⟩ :: turns, ⟨?_, ?_, ?_, ?_, ?_, ?_, ?_, ?_⟩⟩
          · rw [List.forall_mem_cons]
            exact ⟨⟨receipt, hholds, hturn⟩, h.ok⟩
          · exact List.cons_prefix_cons.mpr ⟨rfl, h.order⟩
          · rw [h.history, List.flatMap_cons, ← List.append_assoc]
            cases v with
            | _ => rfl
          · rw [h.resolved, withVerdict_cons_ok]
            cases v with
            | _ => simp [ReconcileState.note]
          · rw [h.replied, withVerdict_cons_ok]
            cases v with
            | _ => simp [ReconcileState.note]
          · rw [h.blocked, withVerdict_cons_ok]
            cases v with
            | _ => simp [ReconcileState.note]
          · intro hexit
            obtain ⟨hids, hall⟩ := h.finished hexit
            refine ⟨by rw [List.map_cons, hids], ?_⟩
            rw [List.forall_mem_cons]
            exact ⟨⟨v, rfl⟩, hall⟩
          · intro failure hexit
            obtain ⟨turn, hmem, hout⟩ := h.left failure hexit
            exact ⟨turn, List.mem_cons_of_mem _ hmem, hout⟩

/-! ## The receipts that are admitted -/

theorem receiptReply?_new {byId : Dict Text Json} {receipt : Json} {reply : Text × Text}
    (h : receiptReply? py host req byId receipt = .ok (some reply)) :
    byId.contains (threadIdOf py receipt) = false := by
  unfold receiptReply? at h
  obtain ⟨validated, hvalidated⟩ :=
    validatedImplementationReply_isOk host req.prNumber req.reviewedHeadSha receipt
  rw [hvalidated] at h
  have hsome := Except.ok.inj h
  simp only [Option.bind_eq_bind, Option.bind_eq_some_iff, guard] at hsome
  obtain ⟨_, _, _, _, _, _, _, _, _, hguard, _⟩ := hsome
  split at hguard
  · next hchecks => exact hchecks.2.1
  · cases hguard

theorem admitReceipts_isOk (py : PyText) (host : ReplyHost) (req : ReconcileRequest)
    (receipts : List (Dict String Json)) (byId : Dict Text Json) :
    ∃ result, admitReceipts py host req receipts byId = .ok result := by
  induction receipts generalizing byId with
  | nil => exact ⟨_, rfl⟩
  | cons fields receipts ih =>
      obtain ⟨validated, hvalidated⟩ :=
        validatedImplementationReply_isOk host req.prNumber req.reviewedHeadSha (.obj fields)
      unfold admitReceipts
      cases hreply : receiptReply? py host req byId (.obj fields) with
      | error e =>
          unfold receiptReply? at hreply
          rw [hvalidated] at hreply
          cases hreply
      | ok reply =>
          cases reply with
          | none => exact ⟨none, rfl⟩
          | some reply => exact ih _

theorem admitReceipts_spec {receipts : List (Dict String Json)} {byId byId' : Dict Text Json}
    (h : admitReceipts py host req receipts byId = .ok (some byId')) :
    (∀ t receipt, byId'.get? t = some receipt → byId.get? t = some receipt
        ∨ (∃ fields ∈ receipts, receipt = .obj fields) ∧ threadIdOf py receipt = t)
      ∧ (∀ t, byId.contains t = true → byId'.contains t = true)
      ∧ (∀ fields ∈ receipts, byId'.contains (threadIdOf py (.obj fields)) = true
        ∧ byId.contains (threadIdOf py (.obj fields)) = false)
      ∧ (receipts.map fun fields => threadIdOf py (.obj fields)).Nodup := by
  induction receipts generalizing byId with
  | nil =>
      obtain rfl := Option.some.inj (Except.ok.inj h)
      exact ⟨fun _ _ hget => .inl hget, fun _ hin => hin, by simp, List.nodup_nil⟩
  | cons fields receipts ih =>
      unfold admitReceipts at h
      split at h
      · cases h
      · cases h
      · next reply hreply =>
          have hnew := receiptReply?_new hreply
          obtain ⟨hget, hkeep, hall, hnodup⟩ := ih h
          have hset : ∀ t, (byId.set (threadIdOf py (.obj fields)) (.obj fields)).contains t
              = (decide (threadIdOf py (.obj fields) = t) || byId.contains t) := by
            intro t
            unfold Dict.contains
            rw [Dict.get?_set]
            by_cases ht : threadIdOf py (.obj fields) = t
            · simp [ht]
            · simp [ht]
          refine ⟨fun t receipt hmem => ?_, fun t hin => ?_, ?_, ?_⟩
          · rcases hget t receipt hmem with hold | ⟨⟨fields', hfields', rfl⟩, hid⟩
            · rw [Dict.get?_set] at hold
              by_cases ht : threadIdOf py (.obj fields) = t
              · rw [if_pos ht] at hold
                obtain rfl := Option.some.inj hold
                exact .inr ⟨⟨fields, List.mem_cons_self, rfl⟩, ht⟩
              · rw [if_neg ht] at hold
                exact .inl hold
            · exact .inr ⟨⟨fields', List.mem_cons_of_mem _ hfields', rfl⟩, hid⟩
          · refine hkeep t ?_
            rw [hset, hin, Bool.or_true]
          · rw [List.forall_mem_cons]
            refine ⟨⟨hkeep _ ?_, hnew⟩, fun fields' hfields' => ?_⟩
            · rw [hset, decide_eq_true rfl, Bool.true_or]
            · obtain ⟨hin, hout⟩ := hall fields' hfields'
              rw [hset, Bool.or_eq_false_iff] at hout
              exact ⟨hin, hout.2⟩
          · rw [List.map_cons, List.nodup_cons]
            refine ⟨fun hmem => ?_, hnodup⟩
            obtain ⟨fields', hfields', hsame⟩ := List.mem_map.mp hmem
            obtain ⟨_, hout⟩ := hall fields' hfields'
            rw [hset, Bool.or_eq_false_iff, decide_eq_false_iff_not] at hout
            exact hout.1 hsame.symm

/-! ## One batch -/

/-- A row of the batch, as it was made of its thread. -/
def BatchReply.FromThread (row : BatchReply) : Prop :=
  implementationReplyBatchNonce row.replyBody = some row.batchNonce
    ∧ ∃ final, (commentsOf? row.thread).bind List.getLast? = some final
      ∧ (final.get? "review_id").bind Json.asStr? = some (String.ofList row.reviewId)

theorem batchReply?_fromThread {thread : Json} {reply : Text × Text} {row : BatchReply}
    (h : batchReply? thread reply = some row) : row.thread = thread ∧ row.FromThread := by
  unfold batchReply? at h
  simp only [Option.bind_eq_bind, Option.bind_eq_some_iff] at h
  obtain ⟨threadId, _, final, ⟨comments, hcomments, hlast⟩, nonce, hnonce, reviewId, ⟨value, hvalue, hid⟩, _,
    _, hrow⟩ := h
  obtain rfl := Option.some.inj hrow
  refine ⟨rfl, hnonce, final, ?_, ?_⟩
  · rw [hcomments]
    exact hlast
  · rw [hvalue, String.ofList_toList]
    exact hid

theorem batchReplies_spec (host : ReplyHost) (req : ReconcileRequest) (threads : List Json)
    (rows : List BatchReply) : ∃ result,
    batchReplies host req.prNumber req.reviewedHeadSha threads rows = .ok result
      ∧ ∀ rows', result = some rows' → ∀ row ∈ rows', row ∈ rows ∨ row.thread ∈ threads ∧ row.FromThread := by
  induction threads generalizing rows with
  | nil =>
      refine ⟨some rows, rfl, fun rows' h row hrow => ?_⟩
      obtain rfl := Option.some.inj h
      exact .inl hrow
  | cons thread threads ih =>
      have hlater : ∀ rows, ∃ result,
          batchReplies host req.prNumber req.reviewedHeadSha threads rows = .ok result
            ∧ ∀ rows', result = some rows' → ∀ row ∈ rows', row ∈ rows
              ∨ row.thread ∈ thread :: threads ∧ row.FromThread := by
        intro rows
        obtain ⟨result, hok, hall⟩ := ih rows
        refine ⟨result, hok, fun rows' h row hrow => (hall rows' h row hrow).imp id fun hnew => ?_⟩
        exact ⟨List.mem_cons_of_mem _ hnew.1, hnew.2⟩
      obtain ⟨reply, hreply⟩ :=
        validatedImplementationReply_isOk host req.prNumber req.reviewedHeadSha thread
      unfold batchReplies
      rw [hreply]
      cases reply with
      | none => exact hlater rows
      | some reply =>
          dsimp only
          cases hrow : batchReply? thread reply with
          | none => exact ⟨none, rfl, fun _ h => by cases h⟩
          | some row =>
              dsimp only
              by_cases hseen : row.threadId ∈ rows.map BatchReply.threadId
              · rw [if_pos hseen]
                exact ⟨none, rfl, fun _ h => by cases h⟩
              · rw [if_neg hseen]
                obtain ⟨result, hok, hall⟩ := hlater (rows ++ [row])
                refine ⟨result, hok, fun rows' h row' hrow' => ?_⟩
                rcases hall rows' h row' hrow' with hold | hnew
                · rcases List.mem_append.mp hold with hold | hlast
                  · exact .inl hold
                  · rw [List.mem_singleton] at hlast
                    subst hlast
                    obtain ⟨hthread, hfrom⟩ := batchReply?_fromThread hrow
                    exact .inr ⟨by rw [hthread]; exact List.mem_cons_self, hfrom⟩
                · exact .inr hnew

/-- One value makes up a list without its repetitions. -/
theorem eraseDups_length_one {α : Type} [BEq α] [LawfulBEq α] {l : List α} (h : l.eraseDups.length = 1) :
    ∃ a, ∀ b ∈ l, b = a := by
  obtain ⟨a, ha⟩ := List.length_eq_one_iff.mp h
  refine ⟨a, fun b hb => ?_⟩
  rw [← List.mem_eraseDups, ha] at hb
  exact List.mem_singleton.mp hb

/-- The rows are those of one batch, in one review. -/
theorem validatedImplementationReplyBatch_spec (host : ReplyHost) (req : ReconcileRequest)
    (threads : List Json) : ∃ batch,
    validatedImplementationReplyBatch host req.prNumber req.reviewedHeadSha threads = .ok batch
      ∧ ∃ batchNonce reviewId, ∀ row ∈ batch, row.thread ∈ threads ∧ row.FromThread
        ∧ row.batchNonce = batchNonce ∧ row.reviewId = reviewId := by
  obtain ⟨result, hok, hall⟩ := batchReplies_spec host req threads []
  unfold validatedImplementationReplyBatch
  rw [hok]
  cases result with
  | none => exact ⟨[], rfl, [], [], by simp⟩
  | some rows =>
      refine ⟨_, rfl, ?_⟩
      dsimp only
      split
      · exact ⟨[], [], by simp⟩
      · next hnonces =>
          split
          · exact ⟨[], [], by simp⟩
          · next hreviews =>
              rw [Decidable.not_not] at hnonces
              obtain ⟨nonce, hnonce⟩ := eraseDups_length_one hnonces
              have hreview : ∃ reviewId, ∀ row ∈ rows, row.reviewId = reviewId := by
                by_cases hmany : 1 < rows.length
                · have hone : (rows.map BatchReply.reviewId).eraseDups.length = 1 := by
                    by_contra hne
                    exact hreviews ⟨hmany, hne⟩
                  obtain ⟨reviewId, hid⟩ := eraseDups_length_one hone
                  exact ⟨reviewId, fun row hrow => hid _ (List.mem_map_of_mem hrow)⟩
                · cases rows with
                  | nil => exact ⟨[], by simp⟩
                  | cons row rows =>
                      have hnil : rows = [] := by
                        rw [List.length_cons] at hmany
                        exact List.eq_nil_of_length_eq_zero (by omega)
                      subst hnil
                      exact ⟨row.reviewId, by simp⟩
              obtain ⟨reviewId, hreview⟩ := hreview
              refine ⟨nonce, reviewId, fun row hrow => ?_⟩
              obtain ⟨hthread, hfrom⟩ := (hall rows rfl row hrow).resolve_left List.not_mem_nil
              exact ⟨hthread, hfrom, hnonce _ (List.mem_map_of_mem hrow), hreview row hrow⟩

/-- The receipts are of replies of one batch, and the comments are of one review. -/
def ReconcileRequest.SharesBatch (req : ReconcileRequest) : Prop :=
  ∃ batchNonce reviewId, ∀ fields ∈ req.receipts, ∃ body final,
    hasText (Dict.get? fields "implementation_reply_body") body = true
      ∧ implementationReplyBatchNonce body = some batchNonce
      ∧ (commentsOf? (.obj fields)).bind List.getLast? = some final
      ∧ (final.get? "review_id").bind Json.asStr? = some (String.ofList reviewId)

theorem sharesBatch_of_matches {batch : List BatchReply} {byId : Dict Text Json}
    (hbatch : ∃ batchNonce reviewId, ∀ row ∈ batch, row.thread ∈ req.receipts.map Json.obj ∧ row.FromThread
      ∧ row.batchNonce = batchNonce ∧ row.reviewId = reviewId)
    (hmatch : batchMatches py req batch = true)
    (hadmitted : admitReceipts py host req req.receipts [] = .ok (some byId)) : req.SharesBatch := by
  obtain ⟨nonce, reviewId, hrows⟩ := hbatch
  obtain ⟨_, _, _, hnodup⟩ := admitReceipts_spec hadmitted
  refine ⟨nonce, reviewId, fun fields hfields => ?_⟩
  unfold batchMatches at hmatch
  rw [Bool.and_eq_true, List.all_eq_true, List.all_eq_true] at hmatch
  have hone := hmatch.2 fields hfields
  split at hone
  · cases hone
  · next replyId replyBody hget =>
      rw [Bool.and_eq_true] at hone
      obtain ⟨row, hrow, heq⟩ := List.mem_map.mp (Dict.mem_ofPairs (Dict.mem_of_get? hget))
      obtain ⟨hid, hreply⟩ := Prod.mk.inj heq
      obtain ⟨hthread, ⟨hnonce, final, hfinal, hreview⟩, rfl, rfl⟩ := hrows row hrow
      obtain ⟨fields', hfields', hobj⟩ := List.mem_map.mp hthread
      have hsame : fields' = fields := by
        refine List.inj_on_of_nodup_map hnodup hfields' hfields ?_
        rw [← hid, ← hobj]
      subst hsame
      obtain ⟨_, rfl⟩ := Prod.mk.inj hreply
      rw [← hobj] at hfinal
      exact ⟨_, final, hone.2, hnonce, hfinal, hreview⟩

/-! ## Runs -/

theorem nodup_reconcileIds (py : PyText) (req : ReconcileRequest) : (reconcileIds py req).Nodup := by
  have hbeq : (List.instBEq : BEq Text) = instBEqOfDecidableEq := lawful_beq_subsingleton _ _
  unfold reconcileIds
  rw [(List.mergeSort_perm _ _).nodup_iff, hbeq]
  exact nodup_eraseDups _

theorem mem_reconcileIds {t : Text} : t ∈ reconcileIds py req
    ↔ t ∈ expectedIds py req ∨ t ∈ req.resolvedThreadIds ∨ t ∈ req.feedback.map Prod.fst := by
  unfold reconcileIds
  rw [List.mem_mergeSort, List.mem_eraseDups, List.mem_append, List.mem_append, or_assoc]

/-- Each thread has one decision. -/
structure ReconcileRequest.Decides (py : PyText) (req : ReconcileRequest) : Prop where
  expected : ∀ t ∈ reconcileIds py req, t ∈ expectedIds py req
  resolved : ∀ t ∈ reconcileIds py req, req.feedback.get? t = none → t ∈ req.resolvedThreadIds

theorem decides_of_ok (h : decisionsOk py req = true) : req.Decides py := by
  unfold decisionsOk at h
  simp only [Bool.and_eq_true, List.all_eq_true, Bool.or_eq_true, List.contains_iff_mem] at h
  obtain ⟨⟨⟨⟨⟨⟨_, _⟩, hresolved⟩, hfeedback⟩, hall⟩, _⟩, _⟩ := h
  have hexpected : ∀ t ∈ reconcileIds py req, t ∈ expectedIds py req := by
    intro t ht
    rcases mem_reconcileIds.mp ht with ht | ht | ht
    · exact ht
    · exact (hresolved t ht).2
    · obtain ⟨decision, hdecision, rfl⟩ := List.mem_map.mp ht
      exact hfeedback decision hdecision
  refine ⟨hexpected, fun t ht hnone => ?_⟩
  rcases hall t (hexpected t ht) with hmem | hmem
  · exact hmem
  · unfold Dict.contains at hmem
    rw [hnone] at hmem
    cases hmem

/-- A reconciliation blocks everything at once, or its receipts are of one batch and it is its
turns. -/
theorem reconcile_turns (py : PyText) (host : ReplyHost) (req : ReconcileRequest)
    (adapter : ReconcileAdapter) :
    reconcileReviewerValidatedThreads py host req adapter
        = ([], .ok { blockedThreadIds := reconcileIds py req })
      ∨ req.Decides py ∧ req.SharesBatch ∧ ∃ s exit turns,
        Turns py host req (reconcileIds py req) {} s exit turns
          ∧ reconcileReviewerValidatedThreads py host req adapter
            = (s.history, concludeReconciliation py req s exit) := by
  unfold reconcileReviewerValidatedThreads
  dsimp only
  by_cases hdecisions : decisionsOk py req = false
  · exact .inl (if_pos hdecisions)
  · rw [if_neg hdecisions]
    rw [Bool.not_eq_false] at hdecisions
    have hdecides := decides_of_ok hdecisions
    obtain ⟨batch, hbatch, hone⟩ :=
      validatedImplementationReplyBatch_spec host req (req.receipts.map Json.obj)
    rw [hbatch]
    dsimp only
    by_cases hmatch : batchMatches py req batch = false
    · exact .inl (if_pos hmatch)
    · rw [if_neg hmatch]
      rw [Bool.not_eq_false] at hmatch
      cases hadmitted : admitReceipts py host req req.receipts [] with
      | error e =>
          obtain ⟨result, hresult⟩ := admitReceipts_isOk py host req req.receipts []
          rw [hadmitted] at hresult
          cases hresult
      | ok result =>
          cases result with
          | none => exact .inl rfl
          | some byId =>
              obtain ⟨hget, _, hall, _⟩ := admitReceipts_spec hadmitted
              have hby : ∀ t ∈ reconcileIds py req,
                  ∃ receipt, byId.get? t = some receipt ∧ req.Holds py t receipt := by
                intro t ht
                obtain ⟨fields, hfields, rfl⟩ := List.mem_map.mp (hdecides.expected t ht)
                obtain ⟨receipt, hreceipt⟩ := Option.isSome_iff_exists.mp (hall fields hfields).1
                refine ⟨receipt, hreceipt, (hget _ _ hreceipt).resolve_left ?_⟩
                rw [Dict.get?_nil]
                exact fun h => by cases h
              obtain ⟨turns, hturns⟩ := reconcileLoop_turns host adapter hby {}
              exact .inr ⟨hdecides, sharesBatch_of_matches hone hmatch hadmitted, _, _, turns, hturns, rfl⟩

/-! ## What is reported -/

theorem mem_withVerdict {turns : List TakenTurn} {verdict : Verdict} {t : Text} :
    t ∈ withVerdict turns verdict ↔ ∃ turn ∈ turns, turn.out = .ok verdict ∧ turn.threadId = t := by
  unfold withVerdict
  rw [List.mem_map]
  constructor
  · rintro ⟨turn, hmem, rfl⟩
    obtain ⟨hin, hout⟩ := List.mem_filter.mp hmem
    refine ⟨turn, hin, ?_, rfl⟩
    rw [decide_eq_true_eq] at hout
    cases hturn : turn.out with
    | error failure =>
        rw [hturn] at hout
        cases hout
    | ok v =>
        rw [hturn] at hout
        rw [Option.some.inj hout]
  · rintro ⟨turn, hin, hout, rfl⟩
    refine ⟨turn, List.mem_filter.mpr ⟨hin, ?_⟩, rfl⟩
    rw [hout]
    exact decide_eq_true rfl

/-- Turns that all came to a verdict, told apart by it. -/
theorem withVerdict_perm {turns : List TakenTurn} (h : ∀ turn ∈ turns, ∃ v, turn.out = .ok v) :
    (withVerdict turns .resolved ++ withVerdict turns .replied ++ withVerdict turns .blocked).Perm
      (turns.map TakenTurn.threadId) := by
  induction turns with
  | nil => exact .refl _
  | cons turn turns ih =>
      rw [List.forall_mem_cons] at h
      obtain ⟨⟨v, hv⟩, h⟩ := h
      obtain ⟨t, events, out⟩ := turn
      dsimp only at hv
      subst hv
      rw [withVerdict_cons_ok, withVerdict_cons_ok, withVerdict_cons_ok, List.map_cons]
      refine .trans ?_ ((ih h).cons t)
      cases v with
      | resolved => exact .refl _
      | replied =>
          show (withVerdict turns .resolved ++ t :: withVerdict turns .replied
            ++ withVerdict turns .blocked).Perm _
          rw [List.append_assoc, List.append_assoc]
          exact List.perm_middle
      | blocked => exact List.perm_middle

theorem Turns.nodup {ids : List Text} {s s' : ReconcileState} {exit : Option ReconcileFailure}
    {turns : List TakenTurn} (h : Turns py host req ids s s' exit turns) (hids : ids.Nodup) :
    (turns.map TakenTurn.threadId).Nodup :=
  hids.sublist h.order.sublist

theorem nodup_withVerdict {turns : List TakenTurn} (h : (turns.map TakenTurn.threadId).Nodup) :
    (withVerdict turns .resolved ++ withVerdict turns .replied).Nodup := by
  rw [List.nodup_append']
  refine ⟨h.sublist (List.filter_sublist.map _), h.sublist (List.filter_sublist.map _), ?_⟩
  intro t hresolved hreplied
  obtain ⟨turn, hturn, hout, rfl⟩ := mem_withVerdict.mp hresolved
  obtain ⟨turn', hturn', hout', hsame⟩ := mem_withVerdict.mp hreplied
  obtain rfl := List.inj_on_of_nodup_map h hturn' hturn hsame
  rw [hout] at hout'
  cases hout'

/-- The threads that are not among some, put behind them. -/
theorem perm_append_filter {ids front : List Text} (hids : ids.Nodup) (hfront : front.Nodup)
    (hsub : ∀ t ∈ front, t ∈ ids) : (front ++ ids.filter fun t => !front.contains t).Perm ids := by
  refine (List.perm_ext_iff_of_nodup ?_ hids).mpr fun t => ?_
  · rw [List.nodup_append']
    refine ⟨hfront, hids.filter _, fun t hin hout => ?_⟩
    have hnot := (List.mem_filter.mp hout).2
    rw [List.contains_iff_mem.mpr hin] at hnot
    cases hnot
  · rw [List.mem_append, List.mem_filter, Bool.not_eq_true', List.contains_eq_mem,
      decide_eq_false_iff_not]
    constructor
    · rintro (hin | ⟨hin, _⟩)
      · exact hsub t hin
      · exact hin
    · intro hin
      by_cases hmem : t ∈ front
      · exact .inl hmem
      · exact .inr ⟨hin, hmem⟩

/-- What is reported is told from the turns. -/
theorem conclude_ok {s : ReconcileState} {exit : Option ReconcileFailure} {turns : List TakenTurn}
    (h : Turns py host req (reconcileIds py req) {} s exit turns) {r : ReconcileResult}
    (hr : concludeReconciliation py req s exit = .ok r) :
    r.resolvedThreadIds = withVerdict turns .resolved ∧ r.feedbackThreadIds = withVerdict turns .replied
      ∧ (r.resolvedThreadIds ++ r.feedbackThreadIds ++ r.blockedThreadIds).Perm (reconcileIds py req) := by
  have hresolved : s.resolved = withVerdict turns .resolved := h.resolved
  have hreplied : s.replied = withVerdict turns .replied := h.replied
  have hblocked : s.blocked = withVerdict turns .blocked := h.blocked
  have hids := nodup_reconcileIds py req
  have hcut : r = ⟨s.resolved, s.replied,
      (reconcileIds py req).filter fun t => !s.resolved.contains t && !s.replied.contains t⟩ →
      r.resolvedThreadIds = withVerdict turns .resolved ∧ r.feedbackThreadIds = withVerdict turns .replied
        ∧ (r.resolvedThreadIds ++ r.feedbackThreadIds ++ r.blockedThreadIds).Perm
          (reconcileIds py req) := by
    rintro rfl
    refine ⟨hresolved, hreplied, ?_⟩
    dsimp only
    rw [hresolved, hreplied]
    have hsame : ((reconcileIds py req).filter fun t =>
        !(withVerdict turns .resolved).contains t && !(withVerdict turns .replied).contains t)
          = (reconcileIds py req).filter fun t =>
            !(withVerdict turns .resolved ++ withVerdict turns .replied).contains t := by
      refine List.filter_congr fun t _ => ?_
      rw [List.contains_append, Bool.not_or]
    rw [hsame]
    refine perm_append_filter hids (nodup_withVerdict (h.nodup hids)) fun t ht => ?_
    refine h.order.subset ?_
    rcases List.mem_append.mp ht with ht | ht
    · obtain ⟨turn, hturn, _, rfl⟩ := mem_withVerdict.mp ht
      exact List.mem_map_of_mem hturn
    · obtain ⟨turn, hturn, _, rfl⟩ := mem_withVerdict.mp ht
      exact List.mem_map_of_mem hturn
  cases exit with
  | none =>
      obtain rfl := Except.ok.inj hr
      obtain ⟨hall, hverdicts⟩ := h.finished rfl
      refine ⟨hresolved, hreplied, ?_⟩
      dsimp only
      rw [hresolved, hreplied, hblocked, ← hall]
      exact withVerdict_perm hverdicts
  | some failure =>
      cases failure with
      | uncaught => cases hr
      | outcomeUnknown => exact hcut (Except.ok.inj hr).symm
      | response => exact hcut (Except.ok.inj hr).symm
      | caught => exact hcut (Except.ok.inj hr).symm

/-! ## Mutations -/

/-- A turn that reports a thread has sent its mutation. -/
theorem TurnOk.decided_resolve {receipt : Json} {t : Text} {events : List ReconcileEvent}
    {out : Except ReconcileFailure Verdict} (h : TurnOk py host req receipt t events out)
    {first : ReconcileEvent} {answer : Except ReconcileFailure Json} {rest : List ReconcileEvent}
    (hevents : events = first :: .resolve t answer :: rest) : req.feedback.get? t = none := by
  rcases h.shape with ⟨read, hread⟩ | ⟨live, mutation, rest', hshape, _, hdecided, _⟩
  · rw [hread] at hevents
    cases hevents
  · rw [hshape] at hevents
    obtain ⟨_, htail⟩ := List.cons.inj hevents
    obtain ⟨rfl, _⟩ := List.cons.inj htail
    exact hdecided.2

theorem TurnOk.decided_feedback {receipt : Json} {t body : Text} {events : List ReconcileEvent}
    {out : Except ReconcileFailure Verdict} (h : TurnOk py host req receipt t events out)
    {first : ReconcileEvent} {answer : Except ReconcileFailure Json} {rest : List ReconcileEvent}
    (hevents : events = first :: .feedback t body answer :: rest) :
    t ∈ req.feedback.map Prod.fst := by
  rcases h.shape with ⟨read, hread⟩ | ⟨live, mutation, rest', hshape, _, hdecided, _⟩
  · rw [hread] at hevents
    cases hevents
  · rw [hshape] at hevents
    obtain ⟨_, htail⟩ := List.cons.inj hevents
    obtain ⟨rfl, _⟩ := List.cons.inj htail
    obtain ⟨_, feedback, _, hget, _⟩ := hdecided
    exact List.mem_map.mpr ⟨_, Dict.mem_of_get? hget, rfl⟩

/-- The events of a turn are about its thread. -/
theorem TurnOk.threadId {receipt : Json} {t : Text} {events : List ReconcileEvent}
    {out : Except ReconcileFailure Verdict} (h : TurnOk py host req receipt t events out) :
    ∀ event ∈ events, event.threadId = t := by
  have hread : ∀ answer, (ReconcileEvent.read t answer).threadId = t := fun _ => rfl
  rcases h.shape with ⟨answer, rfl⟩ | ⟨live, mutation, rest, rfl, _, hdecided, hrest⟩
  · rw [List.forall_mem_singleton]
    exact hread answer
  · have hmutation : mutation.threadId = t := by
      cases mutation with
      | read _ _ => exact absurd hdecided not_false
      | feedback _ _ _ => exact hdecided.1
      | resolve _ _ => exact hdecided.1
    rw [List.forall_mem_cons, List.forall_mem_cons]
    refine ⟨hread _, hmutation, ?_⟩
    rcases hrest with rfl | ⟨answer, rfl⟩
    · simp
    · rw [List.forall_mem_singleton]
      exact hread answer

/-- A mutation is the second thing a turn asks, and the only mutation of the turn. -/
theorem TurnOk.mutation {receipt : Json} {t : Text} {events : List ReconcileEvent}
    {out : Except ReconcileFailure Verdict} (h : TurnOk py host req receipt t events out)
    {pre post : List ReconcileEvent} {event : ReconcileEvent} (hevents : events = pre ++ event :: post)
    (hmutation : event.IsMutation) :
    (∃ live, pre = [.read t (.ok (some live))] ∧ Stands py host req receipt live.json)
      ∧ Decided host req t event ∧ ∀ other ∈ pre ++ post, ¬ other.IsMutation := by
  have hread : ∀ t answer, ¬ (ReconcileEvent.read t answer).IsMutation := fun _ _ => not_false
  rcases h.shape with ⟨answer, rfl⟩ | ⟨live, mutation, rest, rfl, hstands, hdecided, hrest⟩
  · have hmem : event ∈ [ReconcileEvent.read t answer] := by
      rw [hevents]
      exact List.mem_append_right _ List.mem_cons_self
    rw [List.mem_singleton.mp hmem] at hmutation
    exact absurd hmutation (hread _ _)
  · cases pre with
    | nil =>
        obtain ⟨rfl, _⟩ := List.cons.inj hevents
        exact absurd hmutation (hread _ _)
    | cons first pre =>
        obtain ⟨rfl, htail⟩ := List.cons.inj hevents
        cases pre with
        | nil =>
            obtain ⟨rfl, rfl⟩ := List.cons.inj htail
            refine ⟨⟨live, rfl, hstands⟩, hdecided, fun other hother => ?_⟩
            rcases List.mem_cons.mp hother with rfl | hother
            · exact hread _ _
            · rcases hrest with rfl | ⟨answer, rfl⟩
              · exact absurd hother List.not_mem_nil
              · have hlast : other ∈ [ReconcileEvent.read t answer] := hother
                rw [List.mem_singleton.mp hlast]
                exact hread _ _
        | cons second pre =>
            obtain ⟨_, htail⟩ := List.cons.inj htail
            have hmem : event ∈ rest := by
              rw [htail]
              exact List.mem_append_right _ List.mem_cons_self
            rcases hrest with rfl | ⟨answer, rfl⟩
            · exact absurd hmem List.not_mem_nil
            · rw [List.mem_singleton.mp hmem] at hmutation
              exact absurd hmutation (hread _ _)

/-- Where a mutation stands in the run: in a turn of its own. -/
theorem Turns.mutation {ids : List Text} {s s' : ReconcileState} {exit : Option ReconcileFailure}
    {turns : List TakenTurn} (h : Turns py host req ids s s' exit turns) (hids : ids.Nodup)
    {before after : List ReconcileEvent} {event : ReconcileEvent}
    (hhistory : turns.flatMap TakenTurn.events = before ++ event :: after) (hmutation : event.IsMutation) :
    event.threadId ∈ ids
      ∧ (∃ earlier live receipt, before = earlier ++ [.read event.threadId (.ok (some live))]
        ∧ req.Holds py event.threadId receipt ∧ Stands py host req receipt live.json)
      ∧ Decided host req event.threadId event
      ∧ ∀ other ∈ before ++ after, other.IsMutation → other.threadId ≠ event.threadId := by
  obtain ⟨front, turn, back, pre, post, hturns, hevents, hbefore, hafter⟩ := flatMap_split hhistory
  have hturn : turn ∈ turns := by
    rw [hturns]
    exact List.mem_append_right _ List.mem_cons_self
  obtain ⟨receipt, hholds, hok⟩ := h.ok turn hturn
  have hthread : event.threadId = turn.threadId := by
    refine hok.threadId event ?_
    rw [hevents]
    exact List.mem_append_right _ List.mem_cons_self
  obtain ⟨⟨live, hpre, hstands⟩, hdecided, hothers⟩ := hok.mutation hevents hmutation
  have hnodup := h.nodup hids
  have haway : ∀ other ∈ front ++ back, other.threadId ≠ turn.threadId := by
    rw [hturns, List.map_append, List.map_cons, List.nodup_middle, List.nodup_cons, ← List.map_append]
      at hnodup
    intro other hother hsame
    exact hnodup.1 (hsame ▸ List.mem_map_of_mem hother)
  rw [hthread]
  refine ⟨h.order.subset (List.mem_map_of_mem hturn),
    ⟨front.flatMap TakenTurn.events, live, receipt, ?_, hholds, hstands⟩, hdecided, ?_⟩
  · rw [hbefore, hpre]
  · intro other hother hmut
    have hcases : other ∈ pre ++ post ∨ other ∈ (front ++ back).flatMap TakenTurn.events := by
      rw [hbefore, hafter] at hother
      simp only [List.mem_append, List.flatMap_append] at hother ⊢
      tauto
    rcases hcases with hin | hin
    · exact absurd hmut (hothers other hin)
    · obtain ⟨turn', hturn', hother'⟩ := List.mem_flatMap.mp hin
      have hmem : turn' ∈ turns := by
        rw [hturns]
        rcases List.mem_append.mp hturn' with hfront | hback
        · exact List.mem_append_left _ hfront
        · exact List.mem_append_right _ (List.mem_cons_of_mem _ hback)
      obtain ⟨_, _, hok'⟩ := h.ok turn' hmem
      rw [hok'.threadId other hother']
      exact haway turn' hturn'

/-- The part of the history that a turn makes. -/
theorem Turns.part {ids : List Text} {s s' : ReconcileState} {exit : Option ReconcileFailure}
    {turns : List TakenTurn} (h : Turns py host req ids s s' exit turns) {turn : TakenTurn}
    (hturn : turn ∈ turns) : ∃ before after, s'.history = before ++ (turn.events ++ after) := by
  obtain ⟨front, back, rfl⟩ := List.append_of_mem hturn
  refine ⟨s.history ++ front.flatMap TakenTurn.events, back.flatMap TakenTurn.events, ?_⟩
  rw [h.history, List.flatMap_append, List.flatMap_cons, List.append_assoc]

variable (py host req adapter)

/-- Every candidate is reported once, as resolved, as sent back or as blocked, whatever is
answered; a reconciliation raises only what an answer raised that nothing catches. -/
theorem reconcile_partition :
    (∀ r, (reconcileReviewerValidatedThreads py host req adapter).2 = .ok r →
        (r.resolvedThreadIds ++ r.feedbackThreadIds ++ r.blockedThreadIds).Perm (reconcileIds py req)
          ∧ (∀ t ∈ r.resolvedThreadIds, t ∈ req.resolvedThreadIds)
          ∧ ∀ t ∈ r.feedbackThreadIds, t ∈ req.feedback.map Prod.fst)
      ∧ (reconcileIds py req).Nodup
      ∧ (∀ t, t ∈ reconcileIds py req
        ↔ t ∈ expectedIds py req ∨ t ∈ req.resolvedThreadIds ∨ t ∈ req.feedback.map Prod.fst)
      ∧ ∀ failure, (reconcileReviewerValidatedThreads py host req adapter).2 = .error failure →
        failure = .uncaught
          ∧ ∃ event ∈ (reconcileReviewerValidatedThreads py host req adapter).1, event.Escapes := by
  refine ⟨fun r hr => ?_, nodup_reconcileIds py req, fun t => mem_reconcileIds, fun failure hfailure => ?_⟩
  · rcases reconcile_turns py host req adapter with hall | ⟨hdecides, _, s, exit, turns, hturns, hrun⟩
    · rw [hall] at hr
      obtain rfl := Except.ok.inj hr
      exact ⟨.refl _, by simp, by simp⟩
    · rw [hrun] at hr
      obtain ⟨hresolved, hfeedback, hperm⟩ := conclude_ok hturns hr
      refine ⟨hperm, fun t ht => ?_, fun t ht => ?_⟩
      · rw [hresolved] at ht
        obtain ⟨turn, hturn, hout, rfl⟩ := mem_withVerdict.mp ht
        obtain ⟨_, _, hok⟩ := hturns.ok turn hturn
        obtain ⟨_, _, _, hevents, _⟩ := hok.resolved hout
        exact hdecides.resolved _ (hturns.order.subset (List.mem_map_of_mem hturn))
          (hok.decided_resolve hevents)
      · rw [hfeedback] at ht
        obtain ⟨turn, hturn, hout, rfl⟩ := mem_withVerdict.mp ht
        obtain ⟨_, _, hok⟩ := hturns.ok turn hturn
        obtain ⟨_, _, _, _, hevents, _⟩ := hok.replied hout
        exact hok.decided_feedback hevents
  · rcases reconcile_turns py host req adapter with hall | ⟨_, _, s, exit, turns, hturns, hrun⟩
    · rw [hall] at hfailure
      cases hfailure
    · rw [hrun] at hfailure ⊢
      have hexit : exit = some .uncaught ∧ failure = .uncaught := by
        cases exit with
        | none => cases hfailure
        | some f =>
            cases f with
            | uncaught => exact ⟨rfl, (Except.error.inj hfailure).symm⟩
            | outcomeUnknown => cases hfailure
            | response => cases hfailure
            | caught => cases hfailure
      obtain ⟨turn, hturn, hout⟩ := hturns.left _ hexit.1
      obtain ⟨_, _, hok⟩ := hturns.ok turn hturn
      obtain ⟨event, hevent, hescapes⟩ := hok.escaped hout
      refine ⟨hexit.2, event, ?_, hescapes⟩
      rw [hturns.history]
      exact List.mem_append_right _ (List.mem_flatMap.mpr ⟨turn, hturn, hevent⟩)

/-- A thread is changed at most once and as it was decided, right after a read that shows it
open on the reviewed head with the receipt's comments and the receipt's validated reply last;
and nothing is asked unless the replies of all receipts are of one batch. -/
theorem reconcile_mutations :
    ((reconcileReviewerValidatedThreads py host req adapter).1 ≠ [] → req.SharesBatch)
      ∧ ∀ before mutation after,
        (reconcileReviewerValidatedThreads py host req adapter).1 = before ++ mutation :: after →
        mutation.IsMutation →
          (∃ earlier live receipt, before = earlier ++ [.read mutation.threadId (.ok (some live))]
            ∧ req.Holds py mutation.threadId receipt ∧ Stands py host req receipt live.json)
          ∧ Decided host req mutation.threadId mutation
          ∧ (req.feedback.get? mutation.threadId = none → mutation.threadId ∈ req.resolvedThreadIds)
          ∧ ∀ other ∈ before ++ after, other.IsMutation → other.threadId ≠ mutation.threadId := by
  rcases reconcile_turns py host req adapter with hall | ⟨hdecides, hshares, s, exit, turns, hturns, hrun⟩
  · rw [hall]
    refine ⟨fun hne => absurd rfl hne, fun before mutation after hsplit _ => ?_⟩
    exact absurd hsplit.symm (List.append_ne_nil_of_right_ne_nil _ (List.cons_ne_nil _ _))
  · refine ⟨fun _ => hshares, fun before mutation after hsplit hmutation => ?_⟩
    rw [hrun] at hsplit
    have hhistory : turns.flatMap TakenTurn.events = before ++ mutation :: after := by
      rw [← hsplit]
      exact (hturns.history.trans (List.nil_append _)).symm
    obtain ⟨hin, hread, hdecided, honce⟩ := hturns.mutation (nodup_reconcileIds py req) hhistory hmutation
    exact ⟨hread, hdecided, hdecides.resolved _ hin, honce⟩

/-- A thread is reported only with a proof: the resolution was accepted, or the comment was
added, and the read right after shows the thread on the reviewed head with that change and no
other. -/
theorem reconcile_reported :
    (∀ r, (reconcileReviewerValidatedThreads py host req adapter).2 = .ok r →
      ∀ t ∈ r.resolvedThreadIds, ∃ before answer seen after receipt,
        (reconcileReviewerValidatedThreads py host req adapter).1
            = before ++ .resolve t (.ok answer) :: .read t (.ok (some seen)) :: after
          ∧ req.Holds py t receipt ∧ resolveAccepted t answer = true
          ∧ resolutionSeen py req receipt seen.json = true)
      ∧ ∀ r, (reconcileReviewerValidatedThreads py host req adapter).2 = .ok r →
        ∀ t ∈ r.feedbackThreadIds, ∃ before body fields seen after receipt,
          (reconcileReviewerValidatedThreads py host req adapter).1
              = before ++ .feedback t body (.ok (.obj fields)) :: .read t (.ok (some seen)) :: after
            ∧ req.Holds py t receipt
            ∧ feedbackProven py req receipt seen.json body (Dict.get? fields "id") = true := by
  rcases reconcile_turns py host req adapter with hall | ⟨_, _, s, exit, turns, hturns, hrun⟩
  · rw [hall]
    constructor
    · intro r hr t ht
      rw [← Except.ok.inj hr] at ht
      exact absurd ht List.not_mem_nil
    · intro r hr t ht
      rw [← Except.ok.inj hr] at ht
      exact absurd ht List.not_mem_nil
  · rw [hrun]
    constructor
    · intro r hr t ht
      obtain ⟨hresolved, _, _⟩ := conclude_ok hturns hr
      rw [hresolved] at ht
      obtain ⟨turn, hturn, hout, rfl⟩ := mem_withVerdict.mp ht
      obtain ⟨receipt, hholds, hok⟩ := hturns.ok turn hturn
      obtain ⟨first, answer, seen, hevents, haccepted, hseen⟩ := hok.resolved hout
      obtain ⟨before, after, hpart⟩ := hturns.part hturn
      refine ⟨before ++ [first], answer, seen, after, receipt, ?_, hholds, haccepted, hseen⟩
      rw [hpart, hevents, List.append_assoc]
      rfl
    · intro r hr t ht
      obtain ⟨_, hfeedback, _⟩ := conclude_ok hturns hr
      rw [hfeedback] at ht
      obtain ⟨turn, hturn, hout, rfl⟩ := mem_withVerdict.mp ht
      obtain ⟨receipt, hholds, hok⟩ := hturns.ok turn hturn
      obtain ⟨first, body, fields, seen, hevents, hproven⟩ := hok.replied hout
      obtain ⟨before, after, hpart⟩ := hturns.part hturn
      refine ⟨before ++ [first], body, fields, seen, after, receipt, ?_, hholds, hproven⟩
      rw [hpart, hevents, List.append_assoc]
      rfl

end Reconciliation

end Hephaestus.Automation
