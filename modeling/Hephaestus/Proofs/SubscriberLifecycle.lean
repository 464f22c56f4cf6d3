import Hephaestus.Nats.Subscriber

/-!
# The lifecycle of a subscriber

`SubscriberState` lists the transitions of the state, and eight places write it
without looking at what it was. What a write does is a matter of where the
thread and the calls of `stop` stand, so the condition here is one on the step:
which write it is, whether a stop has been asked for before, and whether a
terminal error has been recorded.

The two meet in an invariant, `Orderly`: as long as every write so far was a
listed one, what the state is says which of the calls and lock sections have
happened. Under it a write is listed exactly when it meets the condition, so an
interleaving keeps to the list exactly when each of its steps does.
-/

namespace Hephaestus.Nats

open Hephaestus.Lib JsonReader Resilience

/-- The transitions `SubscriberState` lists. -/
def SubscriberState.listed : SubscriberState → SubscriberState → Bool
  | .initializing, .connected => true
  | .connected, .disconnected => true
  | .disconnected, .connected => true
  | .connected, .stopping => true
  | .disconnected, .stopping => true
  | .stopping, .stopped => true
  | _, .error => true
  | _, _ => false

/-- STOPPED or ERROR. -/
def SubscriberState.isFinal : SubscriberState → Bool
  | .stopped | .error => true
  | _ => false

/-- Inside the `try` of `_subscribe_loop`, or in its `finally` before the write. -/
def Position.attached : Position → Bool
  | .polling | .received _ _ | .handling _ _ | .handled _ _ _ | .acking _ _ | .leaving _ => true
  | _ => false

/-- `run` has returned. -/
def Position.finished : Position → Bool
  | .exiting | .ended => true
  | _ => false

/-- The state the thread's next lock section writes. -/
def Position.writes : Position → Option SubscriberState
  | .connected => some .connected
  | .leaving _ | .recording _ => some .disconnected
  | .closing => some .stopped
  | .rejected | .opening _ | .failing _ => some .error
  | _ => none

/-- The state a step writes, if it writes one. -/
def System.writes (s : System) : Event → Option SubscriberState
  | .proceed _ => s.thread.writes
  | .stop => some .stopping
  | .stopProceeds k => if s.stops[k]? = some .timedOut then some .error else none
  | _ => none

/-- A call of `stop` returns True, and the thread has been started. -/
def ReturnsTrue (x : Transition System Event) : Prop :=
  ∃ k, x.event = .stopProceeds k ∧ x.post.stops[k]? = some (.returned true) ∧
    x.pre.thread ≠ .created

/-- What the lifecycle promises of a run. -/
structure Lifecycle (tr : List (Transition System Event)) : Prop where
  listed : ∀ x ∈ tr, x.pre.subscriber.state ≠ x.post.subscriber.state →
    x.pre.subscriber.state.listed x.post.subscriber.state = true
  errorKept : ∀ hist x rest, tr = hist ++ x :: rest → x.post.subscriber.state = .error →
    ∀ y ∈ rest, y.post.subscriber.state = .error
  stopped : ∀ hist x rest, tr = hist ++ x :: rest → ReturnsTrue x →
    ∀ y ∈ x :: rest, y.post.subscriber.state.isFinal = true

/-- The condition on a step. -/
def Meets (s : System) : Event → Prop
  | .proceed _ =>
      match s.thread with
      -- a connection comes up, or is left: nobody has called `stop`
      | .connected | .leaving _ => s.stops = [] ∧ s.subscriber.state ≠ .error
      -- an attempt fails: nobody has called `stop`, and there was a connection once
      | .recording _ =>
          s.stops = [] ∧ s.subscriber.state ≠ .error ∧ s.subscriber.state ≠ .initializing
      -- `run` ends because `stop` was called
      | .closing => s.stops ≠ [] ∧ s.subscriber.state ≠ .error
      | _ => True
  -- `stop` is called once a connection was up, and before the end
  | .stop => s.subscriber.state ≠ .initializing ∧ s.subscriber.state.isFinal = false
  -- a thread that has died is reported as an error
  | .stopProceeds k =>
      s.stops[k]? = some .checking ∨ s.stops[k]? = some .rechecking →
        s.thread = .died → s.subscriber.state = .error
  | _ => True

instance (s : System) (e : Event) : Decidable (Meets s e) := by
  cases e
  case proceed now =>
      unfold Meets
      dsimp only
      split <;> infer_instance
  all_goals
    unfold Meets
    infer_instance

variable {config : NATSConfig} {py : Interpreter} {js : Jetstream} {s t : System} {e : Event}

/-! ## What a step does -/

/-- The events of the thread, as against those of a call of `stop`. -/
def Event.ofThread : Event → Bool
  | .stop | .stopProceeds _ | .joinRaises _ => false
  | _ => true

/-- A step of the thread that writes `w`, or nothing. -/
structure ThreadStep (s t : System) (w : Option SubscriberState) : Prop where
  state : t.subscriber.state = w.getD s.subscriber.state
  stops : t.stops = s.stops
  attached : t.thread.attached = true → s.thread.attached = true ∨ w = some .connected
  finished : t.thread.finished = true ↔ s.thread.finished = true ∨ w = some .stopped ∨ w = some .error

/-- A step to another position with nothing written. -/
theorem ThreadStep.goto {p : Position} (hp : p.attached = true → s.thread.attached = true)
    (hfinished : p.finished = s.thread.finished) : ThreadStep s (s.goto p) none where
  state := rfl
  stops := rfl
  attached h := .inl (hp h)
  finished := by
    show p.finished = true ↔ _
    simp [hfinished]

/-- A lock section that leaves the state alone. -/
theorem ThreadStep.store {sub : Subscriber} {p : Position}
    (hstate : sub.state = s.subscriber.state)
    (hp : p.attached = true → s.thread.attached = true)
    (hfinished : p.finished = s.thread.finished) : ThreadStep s (s.store sub p) none where
  state := hstate
  stops := rfl
  attached h := .inl (hp h)
  finished := by
    show p.finished = true ↔ _
    simp [hfinished]

/-- The lock sections that end `run`. -/
theorem ThreadStep.exit {sub : Subscriber} {w : SubscriberState} (hstate : sub.state = w)
    (hw : w.isFinal = true) : ThreadStep s (s.store sub .exiting) (some w) where
  state := hstate
  stops := rfl
  attached := nofun
  finished := by
    cases w
    case stopped => simp [System.store, Position.finished]
    case error => simp [System.store, Position.finished]
    all_goals cases hw

theorem proceed_step {now : ℚ} (h : s.proceed config py js now = some t) :
    ThreadStep s t s.thread.writes := by
  obtain ⟨sub, thread, stops, acked, calls⟩ := s
  cases thread <;> simp only [System.proceed, Option.some.injEq, reduceCtorEq] at h
  case loopHead =>
      subst h
      cases sub.stopEvent
      · exact .goto nofun rfl
      · exact .goto nofun rfl
  case entering =>
      split at h
      · obtain rfl := Option.some.inj h
        exact .store rfl nofun rfl
      · obtain rfl := Option.some.inj h
        exact .store rfl nofun rfl
  case rejected => subst h; exact .exit rfl rfl
  case importing => subst h; exact .goto nofun rfl
  case connecting => subst h; exact .goto nofun rfl
  case connected =>
      subst h
      exact ⟨rfl, rfl, fun _ => .inr rfl,
        by simp [System.store, Position.finished, Position.writes]⟩
  case polling =>
      subst h
      cases sub.stopEvent
      · exact .goto id rfl
      · exact .goto (fun _ => rfl) rfl
  case received consumer sequence =>
      subst h
      unfold System.receive
      split
      · exact .goto (fun _ => rfl) rfl
      · exact .goto (fun _ => rfl) rfl
      · exact ⟨rfl, rfl, fun _ => .inl rfl, by simp [Position.finished, Position.writes]⟩
  case handled consumer sequence raised =>
      cases raised
      · obtain rfl := Option.some.inj h
        exact .store rfl (fun _ => rfl) rfl
      · obtain rfl := Option.some.inj h
        exact .store rfl (fun _ => rfl) rfl
  case leaving o =>
      subst h
      exact ⟨rfl, rfl, nofun, by simp [System.store, Position.finished, Position.writes]⟩
  case draining o => subst h; exact .goto nofun rfl
  case finishing o =>
      subst h
      cases o
      · exact .store rfl nofun rfl
      · exact .store rfl nofun rfl
      · exact .store rfl nofun rfl
  case caught e =>
      subst h
      cases sub.stopEvent
      · exact .goto nofun rfl
      · exact .goto nofun rfl
  case recording e =>
      subst h
      exact ⟨rfl, rfl, nofun, by simp [System.store, Position.finished, Position.writes]⟩
  case recorded e =>
      subst h
      unfold System.breakerStore
      split
      · exact .store rfl nofun rfl
      · exact .store rfl nofun rfl
  case opening e => subst h; exact .exit rfl rfl
  case waiting => subst h; exact .goto nofun rfl
  case failing e => subst h; exact .exit rfl rfl
  case closing => subst h; exact .exit rfl rfl
  case exiting => subst h; exact .goto nofun rfl

/-- Every event of the thread. -/
theorem thread_step (he : e.ofThread = true) (h : s.step config py js e = some t) :
    ThreadStep s t (s.writes e) := by
  cases e with
  | start =>
      simp only [System.step] at h
      split at h
      · next hp =>
        obtain rfl := Option.some.inj h
        exact .goto nofun (by rw [hp]; rfl)
      · cases h
  | proceed now => exact proceed_step h
  | fails =>
      obtain ⟨sub, thread, stops, acked, calls⟩ := s
      cases thread <;> simp only [System.step, System.fail, Option.some.injEq, reduceCtorEq] at h
      all_goals subst h
      case polling => exact .goto (fun _ => rfl) rfl
      all_goals exact .goto nofun rfl
  | dies =>
      obtain ⟨sub, thread, stops, acked, calls⟩ := s
      cases thread <;> simp only [System.step, System.die, Option.some.injEq, reduceCtorEq] at h
      all_goals subst h
      case polling => exact .goto (fun _ => rfl) rfl
      case acking => exact .goto (fun _ => rfl) rfl
      all_goals exact .goto nofun rfl
  | importFails =>
      simp only [System.step] at h
      split at h
      · next hp =>
        obtain rfl := Option.some.inj h
        exact .store rfl nofun (by rw [hp]; rfl)
      · cases h
  | delivers consumer sequence =>
      simp only [System.step] at h
      split at h
      · next hp =>
        obtain rfl := Option.some.inj h
        exact .goto (fun _ => by rw [hp.1]; rfl) (by rw [hp.1]; rfl)
      · cases h
  | handlerEnds o =>
      obtain ⟨sub, thread, stops, acked, calls⟩ := s
      cases thread <;>
        simp only [System.step, System.handlerEnd, Option.some.injEq, reduceCtorEq] at h
      subst h
      cases o
      all_goals exact .goto (fun _ => rfl) rfl
  | acks reached raised =>
      obtain ⟨sub, thread, stops, acked, calls⟩ := s
      cases thread <;>
        simp only [System.step, System.acknowledge, Option.some.injEq, reduceCtorEq] at h
      subst h
      cases reached <;> cases raised
      all_goals
        exact ⟨rfl, rfl, fun _ => .inl rfl,
          by simp [System.goto, Position.finished, System.writes]⟩
  | stop => cases he
  | stopProceeds k => cases he
  | joinRaises k => cases he

/-- A step of a call of `stop` after its first lock section. -/
structure StopStep (s t : System) (k : Nat) : Prop where
  state : t.subscriber.state = (s.writes (.stopProceeds k)).getD s.subscriber.state
  thread : t.thread = s.thread
  stops : t.stops = [] ↔ s.stops = []
  returned : t.stops[k]? = some (.returned true) →
    (s.stops[k]? = some .checking ∨ s.stops[k]? = some .rechecking) ∧ s.isAlive = false
  checked : s.stops[k]? = some .checking ∨ s.stops[k]? = some .rechecking → s.isAlive = false →
    t.stops[k]? = some (.returned true)

theorem stopProceeds_step {k : Nat} (h : s.step config py js (.stopProceeds k) = some t) :
    StopStep s t k := by
  simp only [System.step, Option.map_eq_some_iff, Option.bind_eq_some_iff] at h
  obtain ⟨⟨sub, next⟩, ⟨place, hplace, hstep⟩, rfl⟩ := h
  have hk : k < s.stops.length := (List.getElem?_eq_some_iff.mp hplace).1
  have hnext : (s.stops.set k next)[k]? = some next := List.getElem?_set_self hk
  have hstops : s.stops.set k next = [] ↔ s.stops = [] := by
    rw [← List.length_eq_zero_iff, List.length_set, List.length_eq_zero_iff]
  have hwrites : s.writes (.stopProceeds k) = if place = .timedOut then some .error else none := by
    simp only [System.writes, hplace, Option.some.injEq]
  refine ⟨?_, rfl, hstops, ?_, ?_⟩
  · rw [hwrites]
    cases place <;>
      simp only [System.stopStep, Option.some.injEq, reduceCtorEq, Prod.mk.injEq] at hstep
    all_goals
      obtain ⟨rfl, rfl⟩ := hstep
      rfl
  · rw [hnext, hplace]
    cases place <;>
      simp only [System.stopStep, Option.some.injEq, reduceCtorEq, Prod.mk.injEq] at hstep
    all_goals
      obtain ⟨rfl, rfl⟩ := hstep
      cases s.isAlive <;> simp
  · rw [hnext, hplace]
    intro hplaces halive
    rcases hplaces with hp | hp
    all_goals
      obtain rfl := Option.some.inj hp
      simp only [System.stopStep, halive, Bool.false_eq_true, if_false, Option.some.injEq,
        Prod.mk.injEq] at hstep
      rw [← hstep.2]

/-! ## The invariant -/

/-- What the state says of the system, as long as only listed transitions were
taken. -/
structure Orderly (s : System) : Prop where
  attached : s.thread.attached = true → s.subscriber.state ≠ .initializing
  running : s.stops = [] → s.subscriber.state ≠ .stopping ∧ s.subscriber.state ≠ .stopped
  asked : s.stops ≠ [] → s.subscriber.state = .stopping ∨ s.subscriber.state.isFinal = true
  finished : s.thread.finished = true → s.subscriber.state.isFinal = true
  closed : s.subscriber.state = .stopped → s.thread.finished = true

/-- Nothing is written, or what is written is what stood there, or a listed
transition is taken. -/
def Keeps (s t : System) : Prop :=
  s.subscriber.state ≠ t.subscriber.state →
    s.subscriber.state.listed t.subscriber.state = true

theorem orderly_init : Orderly {} where
  attached := nofun
  running := fun _ => ⟨nofun, nofun⟩
  asked := fun h => absurd rfl h
  finished := nofun
  closed := nofun

/-- A step that leaves the state, the thread's end and the number of calls alone. -/
theorem Orderly.kept (h : Orderly s) (hstate : t.subscriber.state = s.subscriber.state)
    (hstops : t.stops = [] ↔ s.stops = [])
    (hattached : t.thread.attached = true → s.thread.attached = true)
    (hfinished : t.thread.finished = true ↔ s.thread.finished = true) : Orderly t where
  attached ht := by
    rw [hstate]
    exact h.attached (hattached ht)
  running ht := by
    rw [hstate]
    exact h.running (hstops.mp ht)
  asked ht := by
    rw [hstate]
    exact h.asked (fun hs => ht (hstops.mpr hs))
  finished ht := by
    rw [hstate]
    exact h.finished (hfinished.mp ht)
  closed ht := by
    rw [hstate] at ht
    exact hfinished.mpr (h.closed ht)

/-- An error is orderly whatever else there is. -/
theorem orderly_error (h : t.subscriber.state = .error) : Orderly t where
  attached _ := by rw [h]; nofun
  running _ := by rw [h]; exact ⟨nofun, nofun⟩
  asked _ := .inr (by rw [h]; rfl)
  finished _ := by rw [h]; rfl
  closed ht := by rw [h] at ht; cases ht

/-- Keeping to the list, by the state that is written. -/
theorem keeps_of_writes {w : SubscriberState} (hw : t.subscriber.state = w) :
    Keeps s t ↔ s.subscriber.state = w ∨ s.subscriber.state.listed w = true := by
  unfold Keeps
  rw [hw]
  by_cases heq : s.subscriber.state = w
  · simp [heq]
  · simp [heq]

theorem keeps_of_eq (h : t.subscriber.state = s.subscriber.state) : Keeps s t :=
  fun hne => absurd h.symm hne

theorem keeps_error (h : t.subscriber.state = .error) : Keeps s t := by
  rw [keeps_of_writes h]
  cases s.subscriber.state <;> simp [SubscriberState.listed]

/-- CONNECTED and DISCONNECTED are reached from neither a stop nor an end. -/
theorem live_of_keeps {w : SubscriberState} (hw : w = .connected ∨ w = .disconnected)
    (ht : t.subscriber.state = w) (h : Keeps s t) :
    s.subscriber.state ≠ .stopping ∧ s.subscriber.state.isFinal = false := by
  rw [keeps_of_writes ht] at h
  revert h
  rcases hw with rfl | rfl
  · cases s.subscriber.state <;> decide
  · cases s.subscriber.state <;> decide

/-- Nobody has called `stop` where the state is neither a stop nor an end. -/
theorem Orderly.unasked (h : Orderly s) (hne : s.subscriber.state ≠ .stopping)
    (hlive : s.subscriber.state.isFinal = false) : s.stops = [] := by
  by_contra hasked
  rcases h.asked hasked with hstop | hfinal
  · exact hne hstop
  · rw [hfinal] at hlive
    cases hlive

theorem Orderly.thread_step (h : Orderly s) (hstep : ThreadStep s t (s.writes e))
    (hw : s.writes e ≠ some .initializing ∧ s.writes e ≠ some .stopping) (hkeeps : Keeps s t) :
    Orderly t := by
  have hfinished := hstep.finished
  have hattached := hstep.attached
  have hstate := hstep.state
  generalize s.writes e = w at hfinished hattached hstate hw
  have hlive : ∀ v, v = SubscriberState.connected ∨ v = .disconnected → t.subscriber.state = v →
      Orderly t := by
    intro v hv ht
    obtain ⟨hne, hfinal⟩ := live_of_keeps hv ht hkeeps
    have hstops : t.stops = [] := by rw [hstep.stops, h.unasked hne hfinal]
    have hw' : w ≠ some .stopped ∧ w ≠ some .error := by
      constructor
      all_goals
        rintro rfl
        rcases hv with rfl | rfl <;> rw [ht] at hstate <;> cases hstate
    refine ⟨fun _ => ?_, fun _ => ?_, fun hs => absurd hstops hs, fun hto => ?_, fun hs => ?_⟩
    · rcases hv with rfl | rfl <;> rw [ht] <;> nofun
    · rcases hv with rfl | rfl <;> rw [ht] <;> exact ⟨nofun, nofun⟩
    · rcases hfinished.mp hto with hs | hs | hs
      · rw [h.finished hs] at hfinal
        cases hfinal
      · exact absurd hs hw'.1
      · exact absurd hs hw'.2
    · rcases hv with rfl | rfl <;> rw [ht] at hs <;> cases hs
  match w with
  | none =>
      refine h.kept hstate (by rw [hstep.stops]) (fun ht => ?_) ?_
      · rcases hattached ht with hs | hs
        · exact hs
        · cases hs
      · rw [hfinished]
        simp
  | some .connected => exact hlive _ (.inl rfl) hstate
  | some .disconnected => exact hlive _ (.inr rfl) hstate
  | some .error => exact orderly_error hstate
  | some .stopped =>
      have ht : t.subscriber.state = .stopped := hstate
      have hfrom : s.subscriber.state = .stopping ∨ s.subscriber.state = .stopped := by
        rw [keeps_of_writes ht] at hkeeps
        revert hkeeps
        cases s.subscriber.state <;> decide
      refine ⟨fun _ => ?_, fun hs => ?_, fun _ => .inr ?_, fun _ => ?_, fun _ => ?_⟩
      · rw [ht]
        nofun
      · have hrunning := h.running (hstep.stops ▸ hs)
        rcases hfrom with hs | hs
        · exact absurd hs hrunning.1
        · exact absurd hs hrunning.2
      · rw [ht]
        rfl
      · rw [ht]
        rfl
      · exact hfinished.mpr (.inr (.inl rfl))
  | some .initializing => exact absurd rfl hw.1
  | some .stopping => exact absurd rfl hw.2

theorem thread_writes (he : e.ofThread = true) :
    s.writes e ≠ some .initializing ∧ s.writes e ≠ some .stopping := by
  cases e with
  | proceed now =>
      show s.thread.writes ≠ _ ∧ s.thread.writes ≠ _
      cases s.thread <;> simp [Position.writes]
  | _ => simp_all [System.writes, Event.ofThread]

theorem orderly_step (h : Orderly s) (hs : s.step config py js e = some t) (hkeeps : Keeps s t) :
    Orderly t := by
  cases e with
  | stop =>
      obtain rfl := Option.some.inj hs
      have ht : (s.subscriber.setState .stopping).state = .stopping := rfl
      have hfrom : s.subscriber.state ≠ .initializing ∧ s.subscriber.state.isFinal = false := by
        have hlisted := (keeps_of_writes ht).mp hkeeps
        revert hlisted
        cases s.subscriber.state <;> decide
      refine ⟨fun _ => nofun, fun hnil => ?_, fun _ => .inl rfl, fun ho => ?_, nofun⟩
      · exact absurd hnil (List.append_ne_nil_of_right_ne_nil _ (List.cons_ne_nil _ _))
      · rw [h.finished ho] at hfrom
        cases hfrom.2
  | stopProceeds k =>
      have hstep := stopProceeds_step hs
      have hstate := hstep.state
      simp only [System.writes] at hstate
      split at hstate
      · exact orderly_error hstate
      · exact h.kept hstate hstep.stops (by rw [hstep.thread]; exact id) (by rw [hstep.thread])
  | joinRaises k =>
      simp only [System.step] at hs
      split at hs
      · next hk =>
        obtain rfl := Option.some.inj hs
        refine h.kept rfl ?_ id Iff.rfl
        rw [← List.length_eq_zero_iff, List.length_set, List.length_eq_zero_iff]
      · cases hs
  | _ => exact h.thread_step (thread_step rfl hs) (thread_writes rfl) hkeeps

/-! ## The condition, one step at a time -/

/-- The connection comes up or is left, or the failure of an attempt is recorded. -/
theorem live_iff (h : Orderly s) :
    (s.subscriber.state ≠ .stopping ∧ s.subscriber.state.isFinal = false) ↔
      s.stops = [] ∧ s.subscriber.state ≠ .error := by
  constructor
  · rintro ⟨hne, hlive⟩
    refine ⟨h.unasked hne hlive, fun herror => ?_⟩
    rw [herror] at hlive
    cases hlive
  · rintro ⟨hstops, herror⟩
    obtain ⟨hstopping, hstopped⟩ := h.running hstops
    refine ⟨hstopping, ?_⟩
    revert hstopped herror
    cases s.subscriber.state <;> decide

theorem meets_proceed (h : Orderly s) {now : ℚ}
    (hs : s.step config py js (.proceed now) = some t) :
    Meets s (.proceed now) ↔ Keeps s t := by
  have hstep := proceed_step hs
  have hstate := hstep.state
  have hattached := h.attached
  have hlive := live_iff h
  unfold Meets
  match hp : s.thread with
  | .connected =>
      rw [hp] at hstate
      have ht : t.subscriber.state = .connected := hstate
      show s.stops = [] ∧ s.subscriber.state ≠ .error ↔ _
      rw [keeps_of_writes ht, ← hlive]
      cases s.subscriber.state <;> decide
  | .leaving o =>
      rw [hp] at hstate hattached
      have ht : t.subscriber.state = .disconnected := hstate
      have hne : s.subscriber.state ≠ .initializing := hattached rfl
      show s.stops = [] ∧ s.subscriber.state ≠ .error ↔ _
      rw [keeps_of_writes ht, ← hlive]
      revert hne
      cases s.subscriber.state <;> decide
  | .recording e =>
      rw [hp] at hstate
      have ht : t.subscriber.state = .disconnected := hstate
      show s.stops = [] ∧ s.subscriber.state ≠ .error ∧ s.subscriber.state ≠ .initializing ↔ _
      rw [keeps_of_writes ht, ← and_assoc, ← hlive]
      cases s.subscriber.state <;> decide
  | .closing =>
      rw [hp] at hstate
      have ht : t.subscriber.state = .stopped := hstate
      rw [keeps_of_writes ht]
      constructor
      · rintro ⟨hasked, herror⟩
        have hfrom := h.asked hasked
        revert hfrom herror
        cases s.subscriber.state <;> decide
      · intro hfrom
        refine ⟨fun hnil => ?_, fun herror => ?_⟩
        · obtain ⟨hstopping, hstopped⟩ := h.running hnil
          revert hfrom hstopping hstopped
          cases s.subscriber.state <;> decide
        · rw [herror] at hfrom
          revert hfrom
          decide
  | .rejected | .opening _ | .failing _ =>
      rw [hp] at hstate
      exact iff_of_true trivial (keeps_error hstate)
  | .created | .loopHead | .entering | .importing | .connecting | .polling | .received _ _
  | .handling _ _ | .handled _ _ _ | .acking _ _ | .draining _ | .finishing _ | .caught _
  | .recorded _ | .waiting | .exiting | .ended | .died =>
      rw [hp] at hstate
      exact iff_of_true trivial (keeps_of_eq hstate)

theorem thread_of_dead (h : s.isAlive = false) :
    s.thread = .created ∨ s.thread = .ended ∨ s.thread = .died := by
  unfold System.isAlive at h
  split at h
  · next hp => exact .inl hp
  · next hp => exact .inr (.inl hp)
  · next hp => exact .inr (.inr hp)
  · cases h

theorem meets_stopProceeds (h : Orderly s) {k : Nat}
    (hs : s.step config py js (.stopProceeds k) = some t) :
    Meets s (.stopProceeds k) ↔
      (ReturnsTrue ⟨s, .stopProceeds k, t⟩ → t.subscriber.state.isFinal = true) := by
  have hstep := stopProceeds_step hs
  have hsame : s.stops[k]? = some .checking ∨ s.stops[k]? = some .rechecking →
      t.subscriber.state = s.subscriber.state := by
    have hstate := hstep.state
    intro hk
    simp only [System.writes] at hstate
    rcases hk with hk | hk
    all_goals
      rw [hk] at hstate
      exact hstate
  constructor
  · rintro hmeets ⟨k', hk', hreturned, hcreated⟩
    obtain rfl := Event.stopProceeds.inj hk'
    obtain ⟨hplace, halive⟩ := hstep.returned hreturned
    rw [hsame hplace]
    rcases thread_of_dead halive with hp | hp | hp
    · exact absurd hp hcreated
    · exact h.finished (by rw [hp]; rfl)
    · rw [hmeets hplace hp]
      rfl
  · intro hfinal hplace hdied
    have halive : s.isAlive = false := by
      rw [System.isAlive, hdied]
    have ht := hfinal ⟨k, rfl, hstep.checked hplace halive, by rw [hdied]; nofun⟩
    rw [hsame hplace] at ht
    cases hstate : s.subscriber.state with
    | error => rfl
    | stopped =>
        have hfinished := h.closed hstate
        rw [hdied] at hfinished
        cases hfinished
    | _ =>
        rw [hstate] at ht
        cases ht

theorem meets_iff (h : Orderly s) (hs : s.step config py js e = some t) :
    Meets s e ↔ Keeps s t ∧ (ReturnsTrue ⟨s, e, t⟩ → t.subscriber.state.isFinal = true) := by
  have hother : (∀ k, e ≠ .stopProceeds k) → ¬ ReturnsTrue ⟨s, e, t⟩ :=
    fun hne ⟨k, hk, _⟩ => hne k hk
  cases e with
  | proceed now =>
      rw [meets_proceed h hs]
      exact ⟨fun hk => ⟨hk, fun hr => absurd hr (hother nofun)⟩, And.left⟩
  | stop =>
      have ht : t.subscriber.state = .stopping := by
        obtain rfl := Option.some.inj hs
        rfl
      have hmeets : Meets s .stop ↔ Keeps s t := by
        rw [keeps_of_writes ht]
        show s.subscriber.state ≠ .initializing ∧ s.subscriber.state.isFinal = false ↔ _
        cases s.subscriber.state <;> decide
      rw [hmeets]
      exact ⟨fun hk => ⟨hk, fun hr => absurd hr (hother nofun)⟩, And.left⟩
  | stopProceeds k =>
      have hkeeps : Keeps s t := by
        have hstate := (stopProceeds_step hs).state
        simp only [System.writes] at hstate
        split at hstate
        · exact keeps_error hstate
        · exact keeps_of_eq hstate
      rw [meets_stopProceeds h hs]
      exact ⟨fun hr => ⟨hkeeps, hr⟩, And.right⟩
  | joinRaises k =>
      have hstate : t.subscriber.state = s.subscriber.state := by
        simp only [System.step] at hs
        split at hs
        · obtain rfl := Option.some.inj hs
          rfl
        · cases hs
      exact iff_of_true trivial ⟨keeps_of_eq hstate, fun hr => absurd hr (hother nofun)⟩
  | _ =>
      have hstate := (thread_step rfl hs).state
      exact iff_of_true trivial ⟨keeps_of_eq hstate, fun hr => absurd hr (hother nofun)⟩

/-! ## Whole runs -/

variable {tr : List (Transition System Event)}

/-- A run that keeps to the list is orderly to its end. -/
theorem orderly_run (hrun : Run (System.step config py js) {} tr t)
    (hkeeps : ∀ x ∈ tr, Keeps x.pre x.post) : Orderly t := by
  induction hrun with
  | nil => exact orderly_init
  | snoc hrun hs ih =>
      have hlast := hkeeps _ (List.mem_append_right _ (List.mem_singleton_self _))
      exact orderly_step (ih fun x hx => hkeeps x (List.mem_append_left _ hx)) hs hlast

/-- No listed transition leaves an error, or leads from an end to anything but an
error. -/
theorem final_of_keeps (h : Keeps s t) :
    (s.subscriber.state = .error → t.subscriber.state = .error) ∧
      (s.subscriber.state.isFinal = true → t.subscriber.state.isFinal = true) := by
  unfold Keeps at h
  revert h
  cases s.subscriber.state <;> cases t.subscriber.state <;> decide

/-- Every interleaving is a run of the documented state machine, ends in no hidden
error and keeps what `stop` has promised exactly when each of its steps meets the
condition. -/
theorem lifecycle_iff (hrun : Run (System.step config py js) {} tr t) :
    Lifecycle tr ↔ ∀ x ∈ tr, Meets x.pre x.event := by
  constructor
  · intro h x hx
    obtain ⟨hist, rest, htr⟩ := List.append_of_mem hx
    obtain ⟨hpre, hs⟩ := hrun.cut htr
    have horderly : Orderly x.pre := orderly_run hpre fun y hy =>
      h.listed y (htr ▸ List.mem_append_left _ hy)
    exact (meets_iff horderly hs).mpr
      ⟨h.listed x hx, fun hr => h.stopped hist x rest htr hr x List.mem_cons_self⟩
  · intro h
    have hall : Orderly t ∧ ∀ x ∈ tr, Orderly x.pre ∧ Keeps x.pre x.post := by
      induction hrun with
      | nil => exact ⟨orderly_init, fun x hx => absurd hx List.not_mem_nil⟩
      | snoc hrun hs ih =>
          obtain ⟨horderly, hbefore⟩ := ih fun x hx => h x (List.mem_append_left _ hx)
          have hmeets := h _ (List.mem_append_right _ (List.mem_singleton_self _))
          have hkeeps := ((meets_iff horderly hs).mp hmeets).1
          refine ⟨orderly_step horderly hs hkeeps, fun x hx => ?_⟩
          rcases List.mem_append.mp hx with hx | hx
          · exact hbefore x hx
          · rw [List.mem_singleton.mp hx]
            exact ⟨horderly, hkeeps⟩
    have hkeeps : ∀ x ∈ tr, Keeps x.pre x.post := fun x hx => (hall.2 x hx).2
    refine ⟨hkeeps, fun hist x rest htr herror y hy => ?_, fun hist x rest htr hr => ?_⟩
    · exact hrun.stays_after htr (P := fun u => u.subscriber.state = .error)
        (fun z hz => (final_of_keeps (hkeeps z hz)).1) herror y (List.mem_cons_of_mem _ hy)
    · have hx : x ∈ tr := htr ▸ List.mem_append_right _ List.mem_cons_self
      have hfinal := ((meets_iff (hall.2 x hx).1 (hrun.cut htr).2).mp (h x hx)).2 hr
      exact hrun.stays_after htr (P := fun u => u.subscriber.state.isFinal = true)
        (fun z hz => (final_of_keeps (hkeeps z hz)).2) hfinal

/-! ## A stop while connected, and a stop in the backoff -/

/-- Numbers without a fraction only. -/
def plainInterpreter : Interpreter where
  nesting := 990
  maxDigits := some 4300
  floats := ⟨fun _ => [], fun _ => .nan⟩

/-- A stream of empty objects. -/
def quietStream : Jetstream where
  message _ := { subject := "hi.tasks.demo", data := [0x7b, 0x7d] }
  matchesFilter _ _ := true

/-- `stop` is called on a connected subscriber, and its thread leaves the
connection: STOPPING becomes DISCONNECTED, and that STOPPED. -/
theorem stop_while_connected :
    ¬ ∀ tr t, Run (System.step {} plainInterpreter quietStream) {} tr t → Lifecycle tr := by
  intro hclaim
  have hevents : (trace (System.step {} plainInterpreter quietStream) {}
      [.start, .proceed 0, .proceed 0, .proceed 0, .proceed 0, .proceed 0, .stop, .stopProceeds 0,
        .proceed 0, .proceed 0]).any
      (fun y => y.1.any fun x => decide (x.pre.subscriber.state = .stopping ∧
        x.post.subscriber.state = .disconnected)) = true := by
    decide
  obtain ⟨⟨tr, t⟩, htrace, hany⟩ := (Option.any_eq_true _ _).mp hevents
  obtain ⟨x, hx, hstates⟩ := List.any_eq_true.mp hany
  obtain ⟨hpre, hpost⟩ := of_decide_eq_true hstates
  have hlisted := (hclaim tr t (trace_run htrace)).listed x hx
  rw [hpre, hpost] at hlisted
  cases hlisted nofun

/-- A subscriber loses its connection, is stopped in the backoff, and ends. -/
theorem lifecycle_iff_backoff :
    ∃ tr t, Run (System.step {} plainInterpreter quietStream) {} tr t ∧ Lifecycle tr ∧
      t.subscriber.state = .stopped ∧ t.stops = [.returned true] := by
  have hevents : (trace (System.step {} plainInterpreter quietStream) {}
      [.start, .proceed 0, .proceed 0, .proceed 0, .proceed 0, .proceed 0, .fails, .proceed 0,
        .proceed 0, .proceed 0, .proceed 0, .proceed 0, .proceed 0, .stop, .stopProceeds 0,
        .proceed 0, .proceed 0, .proceed 0, .proceed 0, .stopProceeds 0]).any
      (fun y => (y.1.all fun x => decide (Meets x.pre x.event)) &&
        decide (y.2.subscriber.state = .stopped ∧ y.2.stops = [.returned true])) = true := by
    decide
  obtain ⟨⟨tr, t⟩, htrace, hend⟩ := (Option.any_eq_true _ _).mp hevents
  simp only [Bool.and_eq_true, List.all_eq_true, decide_eq_true_eq] at hend
  have hrun := trace_run htrace
  exact ⟨tr, t, hrun, (lifecycle_iff hrun).mpr hend.1, hend.2⟩

end Hephaestus.Nats
