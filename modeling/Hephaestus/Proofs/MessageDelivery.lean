import Hephaestus.Proofs.SubscriberLifecycle

/-!
# Each message at most once

The loop calls the handler first and acknowledges after, and a durable consumer
delivers again what was not acknowledged. Between the two stands one await. As
long as it gets the acknowledgement to the server, a message the handler was
called with is acknowledged or still in hand, and what is acknowledged is not
delivered again; so the invariant is about where each handled message is, and it
names the consumer, since two consumers acknowledge apart.

Everything that can break this is in the condition: an acknowledgement that is
lost, a handler or an await that ends in a BaseException, two subjects that match one
message, and a payload that `json.loads` does not read without a JSONDecodeError.
-/

namespace Hephaestus.Nats

open Hephaestus.Lib JsonReader Resilience

/-- The message the thread has in hand. -/
def Position.message : Position → Option (Nat × Nat)
  | .received consumer sequence | .handling consumer sequence | .handled consumer sequence _
  | .acking consumer sequence => some (consumer, sequence)
  | _ => none

/-- The exception the thread has in hand. -/
def Position.exception : Position → Option PyException
  | .leaving (.exception e) | .draining (.exception e) | .finishing (.exception e) => some e
  | .caught e | .recording e | .recorded e | .opening e | .failing e => some e
  | _ => none

/-- The sequence numbers the handler was called with, one for each call. -/
def System.sequences (s : System) : List Nat :=
  s.calls.map NATSEvent.sequence

/-- The filter of a consumer matches a message. -/
def Selects (config : NATSConfig) (js : Jetstream) (consumer sequence : Nat) : Prop :=
  ∃ pattern, config.filters[consumer]? = some pattern ∧
    js.matchesFilter pattern (js.message sequence).subject = true

/-- The acknowledgement of a message is lost on the way. -/
def LosesAck (consumer sequence : Nat) (x : Transition System Event) : Prop :=
  x.pre.thread = .acking consumer sequence ∧ ∃ raised, x.event = .acks false raised

/-- At-most-once handling along a run that ends in `t`. -/
structure AtMostOnce (tr : List (Transition System Event)) (t : System) : Prop where
  once : t.sequences.Nodup
  /-- The thread lets go of a message when it is acknowledged, or its acknowledgement
  is lost. -/
  settled : ∀ x ∈ tr, ∀ consumer sequence, x.pre.thread.message = some (consumer, sequence) →
    x.post.thread.message = some (consumer, sequence) ∨ (consumer, sequence) ∈ x.post.acked ∨
      LosesAck consumer sequence x
  /-- Only a lost acknowledgement brings a message back. -/
  redelivered : ∀ hist x rest consumer sequence, tr = hist ++ x :: rest →
    x.event = .delivers consumer sequence →
    (∃ y ∈ hist, y.event = .delivers consumer sequence) →
    ∃ z ∈ hist, LosesAck consumer sequence z
  /-- No payload is recorded as the cause of a failure. -/
  unblamed : ∀ x ∈ tr, ∀ e, x.post.subscriber.lastError ≠ some (.payload e)

/-- The condition on a step. -/
def Delivers (config : NATSConfig) (py : Interpreter) (js : Jetstream) (s : System) :
    Event → Prop
  -- no other consumer's filter matches the message
  | .delivers consumer sequence =>
      ∀ other, Selects config js other sequence → other = consumer
  -- the payload is read, or refused as malformed
  | .proceed _ =>
      ∀ consumer sequence, s.thread = .received consumer sequence →
        ∀ e, decodeData py (js.message sequence).data = .error e → e = .jsonDecodeError
  | .handlerEnds o => o ≠ .baseException
  | .dies => ∀ consumer sequence, s.thread ≠ .acking consumer sequence
  -- the acknowledgement of a message that was handled gets to the server
  | .acks reached _ =>
      ∀ consumer sequence, s.thread = .acking consumer sequence → sequence ∈ s.sequences →
        reached = true
  | _ => True

variable {config : NATSConfig} {py : Interpreter} {js : Jetstream} {s t : System} {e : Event}
  {tr : List (Transition System Event)}

/-! ## What a step does to the messages -/

/-- A step that handles no message: none is in hand before or after it, or the
thread stands still. -/
structure Idle (s t : System) : Prop where
  calls : t.calls = s.calls
  acked : t.acked = s.acked
  thread : t.thread = s.thread ∨ s.thread.message = none ∧ t.thread.message = none

/-- A step with a message in hand that is still in hand after it. -/
structure Holds (consumer sequence : Nat) (s t : System) : Prop where
  calls : t.calls = s.calls
  acked : t.acked = s.acked
  before : s.thread.message = some (consumer, sequence)
  after : t.thread.message = some (consumer, sequence)
  past : t.thread ≠ .received consumer sequence

/-- What a step can do. -/
inductive Moves (config : NATSConfig) (py : Interpreter) (js : Jetstream) (s : System) :
    Event → System → Prop
  | idle {e : Event} {t : System} (h : Idle s t) : Moves config py js s e t
  | delivered {consumer sequence : Nat} (hat : s.thread = .polling)
      (hfree : s.deliverable config js consumer sequence = true) :
      Moves config py js s (.delivers consumer sequence) (s.goto (.received consumer sequence))
  | handed {consumer sequence : Nat} {now : ℚ} {t : System}
      (hat : s.thread = .received consumer sequence)
      (hto : t.thread = .handling consumer sequence)
      (hcalls : t.sequences = s.sequences ++ [sequence]) (hacked : t.acked = s.acked) :
      Moves config py js s (.proceed now) t
  | unread {consumer sequence : Nat} {now : ℚ} {l : LoadError}
      (hat : s.thread = .received consumer sequence)
      (hdata : decodeData py (js.message sequence).data = .error l) (hne : l ≠ .jsonDecodeError) :
      Moves config py js s (.proceed now) (s.goto (.leaving (.exception (.payload l))))
  | holds {e : Event} {t : System} {consumer sequence : Nat} (h : Holds consumer sequence s t) :
      Moves config py js s e t
  | abandoned {consumer sequence : Nat} {e : Event}
      (hat : s.thread = .handling consumer sequence ∧ e = .handlerEnds .baseException ∨
        s.thread = .acking consumer sequence ∧ e = .dies) :
      Moves config py js s e (s.goto (.leaving .baseException))
  | acknowledged {consumer sequence : Nat} {raised : Bool} {t : System}
      (hat : s.thread = .acking consumer sequence) (hcalls : t.calls = s.calls)
      (hacked : t.acked = insert (consumer, sequence) s.acked) (hto : t.thread.message = none) :
      Moves config py js s (.acks true raised) t
  | lost {consumer sequence : Nat} {raised : Bool} {t : System}
      (hat : s.thread = .acking consumer sequence) (hcalls : t.calls = s.calls)
      (hacked : t.acked = s.acked) (hto : t.thread.message = none) :
      Moves config py js s (.acks false raised) t

theorem proceed_moves {now : ℚ} (h : s.proceed config py js now = some t) :
    Moves config py js s (.proceed now) t := by
  obtain ⟨sub, thread, stops, acked, calls⟩ := s
  cases thread <;> simp only [System.proceed, Option.some.injEq, reduceCtorEq] at h
  case received consumer sequence =>
      subst h
      unfold System.receive
      split
      · exact .holds ⟨rfl, rfl, rfl, rfl, fun h => by cases h⟩
      · next l hne hdata => exact .unread rfl hdata hne
      · next data hdata => exact .handed rfl rfl (by simp [System.sequences, Msg.event]) rfl
  case handled consumer sequence raised =>
      cases raised
      all_goals
        obtain rfl := Option.some.inj h
        exact .holds ⟨rfl, rfl, rfl, rfl, fun h => by cases h⟩
  case entering =>
      split at h
      all_goals
        obtain rfl := Option.some.inj h
        exact .idle ⟨rfl, rfl, .inr ⟨rfl, rfl⟩⟩
  case loopHead | polling | caught =>
      subst h
      cases sub.stopEvent
      all_goals exact .idle ⟨rfl, rfl, .inr ⟨rfl, rfl⟩⟩
  case finishing o =>
      subst h
      cases o
      all_goals exact .idle ⟨rfl, rfl, .inr ⟨rfl, rfl⟩⟩
  case recorded e =>
      subst h
      unfold System.breakerStore
      split
      all_goals exact .idle ⟨rfl, rfl, .inr ⟨rfl, rfl⟩⟩
  all_goals
    subst h
    exact .idle ⟨rfl, rfl, .inr ⟨rfl, rfl⟩⟩

theorem step_moves (h : s.step config py js e = some t) : Moves config py js s e t := by
  cases e with
  | start =>
      simp only [System.step] at h
      split at h
      · next hp =>
        obtain rfl := Option.some.inj h
        exact .idle ⟨rfl, rfl, .inr ⟨by rw [hp]; rfl, rfl⟩⟩
      · cases h
  | proceed now => exact proceed_moves h
  | fails =>
      obtain ⟨sub, thread, stops, acked, calls⟩ := s
      cases thread <;> simp only [System.step, System.fail, Option.some.injEq, reduceCtorEq] at h
      all_goals
        subst h
        exact .idle ⟨rfl, rfl, .inr ⟨rfl, rfl⟩⟩
  | dies =>
      obtain ⟨sub, thread, stops, acked, calls⟩ := s
      cases thread <;> simp only [System.step, System.die, Option.some.injEq, reduceCtorEq] at h
      all_goals subst h
      case acking consumer sequence => exact .abandoned (.inr ⟨rfl, rfl⟩)
      all_goals exact .idle ⟨rfl, rfl, .inr ⟨rfl, rfl⟩⟩
  | importFails =>
      simp only [System.step] at h
      split at h
      · next hp =>
        obtain rfl := Option.some.inj h
        exact .idle ⟨rfl, rfl, .inr ⟨by rw [hp]; rfl, rfl⟩⟩
      · cases h
  | delivers consumer sequence =>
      simp only [System.step] at h
      split at h
      · next hp =>
        obtain rfl := Option.some.inj h
        exact .delivered hp.1 hp.2
      · cases h
  | handlerEnds o =>
      obtain ⟨sub, thread, stops, acked, calls⟩ := s
      cases thread <;>
        simp only [System.step, System.handlerEnd, Option.some.injEq, reduceCtorEq] at h
      subst h
      cases o
      · exact .holds ⟨rfl, rfl, rfl, rfl, fun h => by cases h⟩
      · exact .holds ⟨rfl, rfl, rfl, rfl, fun h => by cases h⟩
      · exact .abandoned (.inl ⟨rfl, rfl⟩)
  | acks reached raised =>
      obtain ⟨sub, thread, stops, acked, calls⟩ := s
      cases thread <;>
        simp only [System.step, System.acknowledge, Option.some.injEq, reduceCtorEq] at h
      subst h
      cases reached
      · exact .lost rfl rfl rfl (by cases raised <;> rfl)
      · exact .acknowledged rfl rfl rfl (by cases raised <;> rfl)
  | stop =>
      obtain rfl := Option.some.inj h
      exact .idle ⟨rfl, rfl, .inl rfl⟩
  | stopProceeds k =>
      simp only [System.step, Option.map_eq_some_iff] at h
      obtain ⟨next, _, rfl⟩ := h
      exact .idle ⟨rfl, rfl, .inl rfl⟩
  | joinRaises k =>
      simp only [System.step] at h
      split at h
      · obtain rfl := Option.some.inj h
        exact .idle ⟨rfl, rfl, .inl rfl⟩
      · cases h

/-! ## The invariant -/

/-- Where the handled messages are, and which message is in hand. -/
structure Settled (config : NATSConfig) (js : Jetstream) (s : System) : Prop where
  once : s.sequences.Nodup
  handled : ∀ sequence ∈ s.sequences, ∃ consumer, Selects config js consumer sequence ∧
    ((consumer, sequence) ∈ s.acked ∨ s.thread.message = some (consumer, sequence))
  alone : ∀ consumer sequence, s.thread.message = some (consumer, sequence) →
    Selects config js consumer sequence ∧
      ∀ other, Selects config js other sequence → other = consumer
  fresh : ∀ consumer sequence, s.thread = .received consumer sequence →
    sequence ∉ s.sequences

theorem settled_init : Settled config js {} where
  once := List.nodup_nil
  handled := fun _ h => absurd h List.not_mem_nil
  alone := nofun
  fresh := nofun

theorem Idle.sequences (h : Idle s t) : t.sequences = s.sequences := by
  unfold System.sequences
  rw [h.calls]

theorem selects_of_deliverable {consumer sequence : Nat}
    (h : s.deliverable config js consumer sequence = true) :
    Selects config js consumer sequence ∧ (consumer, sequence) ∉ s.acked := by
  unfold System.deliverable at h
  split at h
  · next pattern hpattern =>
    rw [Bool.and_eq_true, decide_eq_true_eq] at h
    exact ⟨⟨pattern, hpattern, h.1⟩, h.2⟩
  · cases h

/-- A step that hands nothing on keeps the invariant, where a handled message that it
lets go of is acknowledged. -/
theorem Settled.kept (h : Settled config js s) (hsequences : t.sequences = s.sequences)
    (hacked : s.acked ⊆ t.acked)
    (hgone : ∀ consumer sequence, s.thread.message = some (consumer, sequence) →
      sequence ∈ s.sequences →
      t.thread.message = some (consumer, sequence) ∨ (consumer, sequence) ∈ t.acked)
    (hback : ∀ m, t.thread.message = some m → s.thread.message = some m)
    (hreceived : ∀ consumer sequence, t.thread = .received consumer sequence →
      s.thread = .received consumer sequence) : Settled config js t where
  once := by
    rw [hsequences]
    exact h.once
  handled sequence hmem := by
    rw [hsequences] at hmem
    obtain ⟨consumer, hselects, hat⟩ := h.handled sequence hmem
    refine ⟨consumer, hselects, ?_⟩
    rcases hat with hin | hin
    · exact .inl (hacked hin)
    · exact (hgone consumer sequence hin hmem).symm
  alone consumer sequence hm := h.alone consumer sequence (hback _ hm)
  fresh consumer sequence hat := by
    rw [hsequences]
    exact h.fresh consumer sequence (hreceived consumer sequence hat)

theorem settled_step (h : Settled config js s) (hmoves : Moves config py js s e t)
    (hmeets : Delivers config py js s e) : Settled config js t := by
  cases hmoves with
  | idle hidle =>
      rcases hidle.thread with hsame | ⟨hbefore, hafter⟩
      · exact h.kept hidle.sequences hidle.acked.superset (fun _ _ hm _ => .inl (by rw [hsame, hm]))
          (fun _ hm => by rw [← hsame, hm]) (fun _ _ hat => by rw [← hsame, hat])
      · refine h.kept hidle.sequences hidle.acked.superset (fun _ _ hm => ?_) (fun _ hm => ?_)
          (fun _ _ hat => ?_)
        · rw [hbefore] at hm
          cases hm
        · rw [hafter] at hm
          cases hm
        · rw [hat] at hafter
          cases hafter
  | holds hholds =>
      refine h.kept (by rw [System.sequences, hholds.calls]; rfl) hholds.acked.superset
        (fun _ _ hm _ => .inl ?_) (fun _ hm => ?_) (fun consumer' sequence' hat => ?_)
      · rw [hholds.after, ← hholds.before, hm]
      · rw [hholds.before, ← hholds.after, hm]
      · have hafter := hholds.after
        rw [hat] at hafter
        obtain ⟨rfl, rfl⟩ := Prod.mk.inj (Option.some.inj hafter)
        exact absurd hat hholds.past
  | @delivered consumer sequence hat hfree =>
      obtain ⟨hselects, hout⟩ := selects_of_deliverable hfree
      have hnone : s.thread.message = none := by rw [hat]; rfl
      have hfresh : sequence ∉ s.sequences := by
        intro hmem
        obtain ⟨other, hother, hin⟩ := h.handled sequence hmem
        obtain rfl := hmeets other hother
        rcases hin with hin | hin
        · exact hout hin
        · rw [hnone] at hin
          cases hin
      refine ⟨h.once, fun n hn => ?_, fun c n hm => ?_, fun c n hc => ?_⟩
      · obtain ⟨other, hother, hin⟩ := h.handled n hn
        refine ⟨other, hother, ?_⟩
        rcases hin with hin | hin
        · exact .inl hin
        · rw [hnone] at hin
          cases hin
      · obtain ⟨rfl, rfl⟩ := Prod.mk.inj (Option.some.inj hm)
        exact ⟨hselects, hmeets⟩
      · obtain ⟨rfl, rfl⟩ := Position.received.inj hc
        exact hfresh
  | @handed consumer sequence _ _ hat hto hcalls hacked =>
      have hbefore : s.thread.message = some (consumer, sequence) := by rw [hat]; rfl
      have hafter : t.thread.message = some (consumer, sequence) := by rw [hto]; rfl
      have hfresh := h.fresh consumer sequence hat
      refine ⟨?_, fun n hn => ?_, fun c n hm => ?_, fun c n hc => ?_⟩
      · rw [hcalls]
        exact List.nodup_append.mpr ⟨h.once, List.nodup_singleton _, fun a ha b hb hab =>
          hfresh (List.mem_singleton.mp hb ▸ hab ▸ ha)⟩
      · rw [hcalls] at hn
        rcases List.mem_append.mp hn with hn | hn
        · obtain ⟨other, hother, hin⟩ := h.handled n hn
          exact ⟨other, hother, by rw [hacked, hafter, ← hbefore]; exact hin⟩
        · obtain rfl := List.mem_singleton.mp hn
          exact ⟨consumer, (h.alone consumer n hbefore).1, .inr hafter⟩
      · rw [hafter, ← hbefore] at hm
        exact h.alone c n hm
      · rw [hto] at hc
        cases hc
  | @unread consumer sequence _ _ hat hdata hne =>
      refine h.kept rfl (fun _ hm => hm) (fun c n hm hmem => ?_) nofun nofun
      rw [hat] at hm
      obtain ⟨rfl, rfl⟩ := Prod.mk.inj (Option.some.inj hm)
      exact absurd hmem (h.fresh _ _ hat)
  | abandoned hat =>
      rcases hat with ⟨hat, rfl⟩ | ⟨hat, rfl⟩
      · exact absurd rfl hmeets
      · exact absurd hat (hmeets _ _)
  | @acknowledged consumer sequence _ _ hat hcalls hacked hto =>
      refine h.kept (by rw [System.sequences, hcalls]; rfl) ?_ (fun c n hm _ => .inr ?_) ?_ ?_
      · rw [hacked]
        exact Finset.subset_insert _ _
      · rw [hat] at hm
        obtain ⟨rfl, rfl⟩ := Prod.mk.inj (Option.some.inj hm)
        rw [hacked]
        exact Finset.mem_insert_self _ _
      · intro m hm
        rw [hto] at hm
        cases hm
      · intro c n hc
        rw [hc] at hto
        cases hto
  | @lost consumer sequence _ _ hat hcalls hacked hto =>
      refine h.kept (by rw [System.sequences, hcalls]; rfl) hacked.superset
        (fun c n hm hmem => ?_) ?_ ?_
      · rw [hat] at hm
        obtain ⟨rfl, rfl⟩ := Prod.mk.inj (Option.some.inj hm)
        cases hmeets _ _ hat hmem
      · intro m hm
        rw [hto] at hm
        cases hm
      · intro c n hc
        rw [hc] at hto
        cases hto

/-- What becomes of the message in hand. -/
theorem settles (hmoves : Moves config py js s e t)
    (hmeets : Delivers config py js s e) {consumer sequence : Nat}
    (hm : s.thread.message = some (consumer, sequence)) :
    t.thread.message = some (consumer, sequence) ∨ (consumer, sequence) ∈ t.acked ∨
      LosesAck consumer sequence ⟨s, e, t⟩ := by
  cases hmoves with
  | idle hidle =>
      rcases hidle.thread with hsame | ⟨hbefore, _⟩
      · exact .inl (by rw [hsame, hm])
      · rw [hbefore] at hm
        cases hm
  | holds hholds => exact .inl (by rw [hholds.after, ← hholds.before, hm])
  | delivered hat _ =>
      rw [hat] at hm
      cases hm
  | handed hat hto _ _ =>
      rw [hat] at hm
      exact .inl (by rw [hto]; exact hm)
  | unread hat hdata hne => exact absurd (hmeets _ _ hat _ hdata) hne
  | abandoned hat =>
      rcases hat with ⟨hat, rfl⟩ | ⟨hat, rfl⟩
      · exact absurd rfl hmeets
      · exact absurd hat (hmeets _ _)
  | acknowledged hat _ hacked _ =>
      rw [hat] at hm
      obtain ⟨rfl, rfl⟩ := Prod.mk.inj (Option.some.inj hm)
      exact .inr (.inl (by rw [hacked]; exact Finset.mem_insert_self _ _))
  | lost hat _ _ _ =>
      rw [hat] at hm
      obtain ⟨rfl, rfl⟩ := Prod.mk.inj (Option.some.inj hm)
      exact .inr (.inr ⟨hat, _, rfl⟩)

theorem acked_mono (hmoves : Moves config py js s e t) : s.acked ⊆ t.acked := by
  cases hmoves with
  | idle hidle => exact hidle.acked.superset
  | holds hholds => exact hholds.acked.superset
  | delivered _ _ | unread _ _ _ | abandoned _ => exact fun _ hm => hm
  | handed _ _ _ hacked | lost _ _ hacked _ => exact hacked.superset
  | acknowledged _ _ hacked _ =>
      rw [hacked]
      exact Finset.subset_insert _ _

/-! ## What is blamed for a failure -/

/-- A payload gets into the thread's hand only from where it is read, and is recorded
only from there. -/
structure Blames (py : Interpreter) (js : Jetstream) (s : System) (e : Event) (t : System) :
    Prop where
  raised : ∀ l, t.thread.exception = some (.payload l) →
    s.thread.exception = some (.payload l) ∨ (∃ now, e = .proceed now) ∧
      ∃ consumer sequence, s.thread = .received consumer sequence ∧
        decodeData py (js.message sequence).data = .error l ∧ l ≠ .jsonDecodeError
  recorded : ∀ l, t.subscriber.lastError = some (.payload l) →
    s.subscriber.lastError = some (.payload l) ∨ s.thread.exception = some (.payload l)

/-- Nothing new is raised or recorded. -/
theorem Blames.same (hraised : ∀ l, t.thread.exception = some (.payload l) →
      s.thread.exception = some (.payload l))
    (hrecorded : ∀ l, t.subscriber.lastError = some (.payload l) →
      s.subscriber.lastError = some (.payload l) ∨ s.thread.exception = some (.payload l)) :
    Blames py js s e t :=
  ⟨fun l h => .inl (hraised l h), hrecorded⟩

/-- The thread has no payload in its hand after the step, and the record stands. -/
theorem Blames.quiet (hnone : ∀ l, t.thread.exception ≠ some (.payload l))
    (hrecorded : t.subscriber.lastError = s.subscriber.lastError) : Blames py js s e t :=
  .same (fun l hl => absurd hl (hnone l)) (fun _ hl => .inl (hrecorded ▸ hl))

/-- What was in the thread's hand is recorded. -/
theorem Blames.noted (hnone : ∀ l, t.thread.exception ≠ some (.payload l))
    (hrecorded : t.subscriber.lastError = s.thread.exception) : Blames py js s e t :=
  .same (fun l hl => absurd hl (hnone l)) (fun _ hl => .inr (hrecorded ▸ hl))

/-- No payload is in the thread's hand or recorded after the step. -/
theorem Blames.cleared (hnone : ∀ l, t.thread.exception ≠ some (.payload l))
    (hclear : ∀ l, t.subscriber.lastError ≠ some (.payload l)) : Blames py js s e t :=
  .same (fun l hl => absurd hl (hnone l)) (fun l hl => absurd hl (hclear l))

theorem proceed_blames {now : ℚ} (h : s.proceed config py js now = some t) :
    Blames py js s (.proceed now) t := by
  obtain ⟨sub, thread, stops, acked, calls⟩ := s
  cases thread <;> simp only [System.proceed, Option.some.injEq, reduceCtorEq] at h
  case received consumer sequence =>
      subst h
      unfold System.receive
      split
      · exact .quiet (fun _ h => by cases h) rfl
      · next l hne hdata =>
        refine ⟨fun l' hl => .inr ⟨⟨now, rfl⟩, consumer, sequence, rfl, ?_⟩, fun _ => .inl⟩
        obtain rfl : l = l' := PyException.payload.inj (Option.some.inj hl)
        exact ⟨hdata, hne⟩
      · exact .quiet (fun _ h => by cases h) rfl
  case handled consumer sequence raised =>
      cases raised
      · obtain rfl := Option.some.inj h
        exact .quiet (fun _ h => by cases h) rfl
      · obtain rfl := Option.some.inj h
        exact .cleared (fun _ h => by cases h) (fun _ h => by cases h)
  case entering =>
      split at h
      all_goals
        obtain rfl := Option.some.inj h
        exact .quiet (fun _ h => by cases h) rfl
  case loopHead | polling =>
      subst h
      cases sub.stopEvent
      all_goals exact .quiet (fun _ h => by cases h) rfl
  case caught e =>
      subst h
      cases sub.stopEvent
      · exact .same (fun _ hl => hl) fun _ => .inl
      · exact .quiet (fun _ h => by cases h) rfl
  case leaving o | draining o =>
      subst h
      cases o
      · exact .quiet (fun _ h => by cases h) rfl
      · exact .same (fun _ hl => hl) fun _ => .inl
      · exact .quiet (fun _ h => by cases h) rfl
  case finishing o =>
      subst h
      cases o
      · exact .quiet (fun _ h => by cases h) rfl
      · exact .same (fun _ hl => hl) fun _ => .inl
      · exact .quiet (fun _ h => by cases h) rfl
  case recording e =>
      subst h
      exact .same (fun _ hl => hl) fun _ => .inr
  case recorded e =>
      subst h
      unfold System.breakerStore
      split
      · exact .same (fun _ hl => hl) fun _ => .inl
      · exact .quiet (fun _ h => by cases h) rfl
  case opening e | failing e =>
      subst h
      exact .noted (fun _ h => by cases h) rfl
  case rejected =>
      subst h
      exact .cleared (fun _ h => by cases h) (fun _ h => by cases h)
  all_goals
    subst h
    exact .quiet (fun _ h => by cases h) rfl

theorem step_blames (h : s.step config py js e = some t) : Blames py js s e t := by
  cases e with
  | start | importFails | delivers consumer sequence =>
      simp only [System.step] at h
      split at h
      · obtain rfl := Option.some.inj h
        exact .quiet (fun _ h => by cases h) rfl
      · cases h
  | joinRaises k =>
      simp only [System.step] at h
      split at h
      · obtain rfl := Option.some.inj h
        exact .same (fun _ hl => hl) fun _ => .inl
      · cases h
  | proceed now => exact proceed_blames h
  | fails =>
      obtain ⟨sub, thread, stops, acked, calls⟩ := s
      cases thread <;> simp only [System.step, System.fail, Option.some.injEq, reduceCtorEq] at h
      all_goals
        subst h
        exact .quiet (fun _ h => by cases h) rfl
  | dies =>
      obtain ⟨sub, thread, stops, acked, calls⟩ := s
      cases thread <;> simp only [System.step, System.die, Option.some.injEq, reduceCtorEq] at h
      all_goals
        subst h
        exact .quiet (fun _ h => by cases h) rfl
  | handlerEnds o =>
      obtain ⟨sub, thread, stops, acked, calls⟩ := s
      cases thread <;>
        simp only [System.step, System.handlerEnd, Option.some.injEq, reduceCtorEq] at h
      subst h
      cases o
      all_goals exact .quiet (fun _ h => by cases h) rfl
  | acks reached raised =>
      obtain ⟨sub, thread, stops, acked, calls⟩ := s
      cases thread <;>
        simp only [System.step, System.acknowledge, Option.some.injEq, reduceCtorEq] at h
      subst h
      cases reached <;> cases raised
      all_goals exact .quiet (fun _ h => by cases h) rfl
  | stop =>
      obtain rfl := Option.some.inj h
      exact .same (fun _ hl => hl) fun _ => .inl
  | stopProceeds k =>
      simp only [System.step, Option.map_eq_some_iff, Option.bind_eq_some_iff] at h
      obtain ⟨⟨sub, next⟩, ⟨place, _, hstep⟩, rfl⟩ := h
      refine .same (fun _ hl => hl) fun l hl => .inl ?_
      cases place <;>
        simp only [System.stopStep, Option.some.injEq, reduceCtorEq, Prod.mk.injEq] at hstep
      case timedOut =>
          obtain ⟨rfl, rfl⟩ := hstep
          cases hl
      all_goals
        obtain ⟨rfl, rfl⟩ := hstep
        exact hl

/-! ## Whole runs -/

/-- What the trace so far says of the state it reached. -/
structure Delivered (config : NATSConfig) (js : Jetstream)
    (tr : List (Transition System Event)) (s : System) : Prop where
  settled : Settled config js s
  /-- Each message delivered so far is in hand or settled. -/
  known : ∀ consumer sequence, (∃ y ∈ tr, y.event = .delivers consumer sequence) →
    s.thread.message = some (consumer, sequence) ∨ (consumer, sequence) ∈ s.acked ∨
      ∃ z ∈ tr, LosesAck consumer sequence z
  unraised : ∀ l, s.thread.exception ≠ some (.payload l)
  unblamed : ∀ l, s.subscriber.lastError ≠ some (.payload l)

theorem delivered_step (h : Delivered config js tr s) (hs : s.step config py js e = some t)
    (hmeets : Delivers config py js s e) : Delivered config js (tr ++ [⟨s, e, t⟩]) t := by
  have hmoves := step_moves hs
  have hblames := step_blames hs
  have hlast : (⟨s, e, t⟩ : Transition System Event) ∈ tr ++ [⟨s, e, t⟩] :=
    List.mem_append_right _ (List.mem_singleton_self _)
  refine ⟨settled_step h.settled hmoves hmeets, fun consumer sequence hbefore => ?_,
    fun l hl => ?_, fun l hl => ?_⟩
  · have hnew : e = .delivers consumer sequence →
        t.thread.message = some (consumer, sequence) := by
      rintro rfl
      simp only [System.step] at hs
      split at hs
      · obtain rfl := Option.some.inj hs
        rfl
      · cases hs
    obtain ⟨y, hy, hdelivers⟩ := hbefore
    rcases List.mem_append.mp hy with hy | hy
    · rcases h.known consumer sequence ⟨y, hy, hdelivers⟩ with hm | hin | ⟨z, hz, hlost⟩
      · rcases settles hmoves hmeets hm with hm' | hin | hlost
        · exact .inl hm'
        · exact .inr (.inl hin)
        · exact .inr (.inr ⟨_, hlast, hlost⟩)
      · exact .inr (.inl (acked_mono hmoves hin))
      · exact .inr (.inr ⟨z, List.mem_append_left _ hz, hlost⟩)
    · rw [List.mem_singleton.mp hy] at hdelivers
      exact .inl (hnew hdelivers)
  · rcases hblames.raised l hl with hold | ⟨⟨now, rfl⟩, consumer, sequence, hat, hdata, hne⟩
    · exact h.unraised l hold
    · exact hne (hmeets consumer sequence hat l hdata)
  · rcases hblames.recorded l hl with hold | hold
    · exact h.unblamed l hold
    · exact h.unraised l hold

theorem delivered_run (hrun : Run (System.step config py js) {} tr t)
    (hmeets : ∀ x ∈ tr, Delivers config py js x.pre x.event) : Delivered config js tr t := by
  refine hrun.invariant_of (Delivered config js) (Delivers config py js) ?_
    (fun tr s e t h hc hs => delivered_step h hs hc) hmeets
  exact ⟨settled_init, fun _ _ ⟨_, hy, _⟩ => absurd hy List.not_mem_nil, nofun, nofun⟩

theorem fromUTF8_toByteArray (text : String) : String.fromUTF8? text.toByteArray = some text := by
  unfold String.fromUTF8?
  rw [dif_pos text.isValidUTF8]
  rfl

/-- One bracket more than an interpreter can nest. -/
def deepPayload (py : Interpreter) : List UInt8 :=
  List.replicate (py.nesting + 1) 0x5b

theorem decodeData_deepPayload (py : Interpreter) :
    decodeData py (deepPayload py) = .error .recursionError := by
  have hbrackets : ∀ k, (List.replicate k '[').flatMap String.utf8EncodeChar
      = List.replicate k 0x5b := by
    intro k
    induction k with
    | zero => rfl
    | succ k ih =>
        rw [List.replicate_succ, List.flatMap_cons, ih]
        rfl
  have hbytes : (deepPayload py).toByteArray
      = (String.ofList (List.replicate (py.nesting + 1) '[')).toByteArray := by
    rw [String.toByteArray_ofList, List.utf8Encode, hbrackets, deepPayload]
  have hloads := loads_brackets py []
  rw [List.append_nil] at hloads
  unfold decodeData
  rw [hbytes, fromUTF8_toByteArray]
  simp only [String.toList_ofList, hloads]

/-- A stream of such payloads. -/
def deepStream (py : Interpreter) : Jetstream where
  message _ := { subject := "hi.tasks.demo", data := deepPayload py }
  matchesFilter _ _ := true

/-- Whatever the interpreter, a payload drives the subscriber out of its loop with
nothing wrong at the connection: it is neither handled nor acknowledged, and its
RecursionError is recorded as the failure of a connection. -/
theorem deep_payload_blamed (py : Interpreter) :
    ∃ tr t, Run (System.step {} py (deepStream py)) {} tr t ∧
      (∀ x ∈ tr, x.event ∈ [.start, .proceed 0, .delivers 0 0]) ∧ t.calls = [] ∧ t.acked = ∅ ∧
      t.subscriber.lastErrorKind = some .connectionError ∧
      t.subscriber.lastError = some (.payload .recursionError) := by
  have hfirst : ∃ tr, trace (System.step {} py (deepStream py)) {}
      [.start, .proceed 0, .proceed 0, .proceed 0, .proceed 0, .proceed 0, .delivers 0 0] =
        some (tr, { subscriber := { state := .connected }, thread := .received 0 0 }) ∧
      ∀ x ∈ tr, x.event ∈ [.start, .proceed 0, .delivers 0 0] := ⟨_, rfl, by simp⟩
  obtain ⟨tr, htrace, hevents⟩ := hfirst
  have hread : System.step {} py (deepStream py)
      { subscriber := { state := .connected }, thread := .received 0 0 } (.proceed 0) =
        some { subscriber := { state := .connected },
               thread := .leaving (.exception (.payload .recursionError)) } := by
    simp only [System.step, System.proceed, System.receive, deepStream, decodeData_deepPayload]
    rfl
  have hlast : ∃ tr' t, trace (System.step {} py (deepStream py))
      { subscriber := { state := .connected },
        thread := .leaving (.exception (.payload .recursionError)) }
      [.proceed 0, .proceed 0, .proceed 0, .proceed 0, .proceed 0] = some (tr', t) ∧
      (∀ x ∈ tr', x.event ∈ [.start, .proceed 0, .delivers 0 0]) ∧ t.calls = [] ∧ t.acked = ∅ ∧
      t.subscriber.lastErrorKind = some .connectionError ∧
      t.subscriber.lastError = some (.payload .recursionError) :=
    ⟨_, _, rfl, by simp, rfl, rfl, rfl, rfl⟩
  obtain ⟨tr', t, htrace', hevents', hend⟩ := hlast
  refine ⟨_, t, ((trace_run htrace).snoc hread).append (trace_run htrace'), fun x hx => ?_, hend⟩
  rcases List.mem_append.mp hx with hx | hx
  · rcases List.mem_append.mp hx with hx | hx
    · exact hevents x hx
    · rw [List.mem_singleton.mp hx]
      decide
  · exact hevents' x hx

end Hephaestus.Nats
