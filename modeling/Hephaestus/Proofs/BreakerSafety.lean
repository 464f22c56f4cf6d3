import Hephaestus.Resilience.CircuitBreaker
import Mathlib.Tactic.NormNum

/-!
# The breaker's state machine under overlapping calls

Admission and completion are two lock sections, and the second does not
know which state the first one saw. A success therefore closes an open
breaker whatever period the call belongs to, and any completion that
arrives while the breaker is half-open is taken for a probe. Those are the
only ways the machine goes wrong: `safeRun_iff` says that a run keeps the
documented state machine at every step exactly when no call of an earlier
period completes there.

Two facts about the history carry the proof. While the breaker is open,
`lastFailureTime` is the time of the last failure the history records;
while it is half-open, `halfOpenSuccesses` counts the successes of calls
admitted in the same period. The second survives only because the
condition keeps strangers out of a half-open period.
-/

namespace Hephaestus.Resilience

open Hephaestus.Lib

variable {E : Type} {cfg : BreakerConfig} {ignore : Option (E → Option Bool)}

/-- A transition of the breaker system. -/
abbrev BreakerStep (E : Type) := Transition BreakerSystem (BreakerEvent E)

/-! ## Reading the history -/

/-- How one transition moves the time of the last recorded failure. -/
def noteFailure (ignore : Option (E → Option Bool)) (last : Option ℚ)
    (x : BreakerStep E) : Option ℚ :=
  match x.event with
  | .complete _ o => if ending ignore o = .failure then some x.pre.now else last
  | .reset => none
  | _ => last

/-- When the last failure was recorded, if none was reset away since. -/
def lastFailure (ignore : Option (E → Option Bool)) (hist : List (BreakerStep E)) :
    Option ℚ :=
  hist.foldl (noteFailure ignore) none

/-- A success, in period `p`, of a call admitted in period `p`. -/
def isProbeSuccess (ignore : Option (E → Option Bool)) (p : Nat) (x : BreakerStep E) :
    Bool :=
  match x.event with
  | .complete c o => ending ignore o = .success ∧ c.period = p ∧ x.pre.period = p
  | _ => false

def probeSuccesses (ignore : Option (E → Option Bool)) (p : Nat)
    (hist : List (BreakerStep E)) : Nat :=
  hist.countP (isProbeSuccess ignore p)

theorem lastFailure_snoc (hist : List (BreakerStep E)) (x : BreakerStep E) :
    lastFailure ignore (hist ++ [x]) = noteFailure ignore (lastFailure ignore hist) x := by
  simp [lastFailure]

theorem probeSuccesses_snoc (p : Nat) (hist : List (BreakerStep E)) (x : BreakerStep E) :
    probeSuccesses ignore p (hist ++ [x]) =
      probeSuccesses ignore p hist + if isProbeSuccess ignore p x then 1 else 0 := by
  simp [probeSuccesses, List.countP_append, List.countP_cons]

theorem noteFailure_complete (last : Option ℚ) (s t : BreakerSystem) (c : Call)
    (o : CallOutcome E) :
    noteFailure ignore last ⟨s, .complete c o, t⟩ =
      if ending ignore o = .failure then some s.now else last := rfl

theorem isProbeSuccess_period {p : Nat} {x : BreakerStep E}
    (h : isProbeSuccess ignore p x = true) : x.pre.period = p := by
  unfold isProbeSuccess at h
  split at h
  · simp only [decide_eq_true_eq] at h
    exact h.2.2
  · cases h

/-- A period the history never was in has no successes yet. -/
theorem probeSuccesses_fresh {p : Nat} {hist : List (BreakerStep E)}
    (h : ∀ x ∈ hist, x.pre.period < p) : probeSuccesses ignore p hist = 0 := by
  rw [probeSuccesses, List.countP_eq_zero]
  intro x hx hp
  exact absurd (isProbeSuccess_period hp) (Nat.ne_of_lt (h x hx))

/-! ## What the documentation promises of one step -/

/-- The state machine as documented, for one transition after a history. -/
structure StepSafe (cfg : BreakerConfig) (ignore : Option (E → Option Bool))
    (hist : List (BreakerStep E)) (x : BreakerStep E) : Prop where
  leavesOpen : x.pre.breaker.state = .opened → x.post.breaker.state ≠ .opened →
    x.event = .reset ∨ (x.post.breaker.state = .halfOpen ∧
      ∃ t, lastFailure ignore hist = some t ∧ cfg.recoveryTimeout ≤ x.pre.now - t)
  closes : x.pre.breaker.state = .halfOpen → x.post.breaker.state = .closed →
    x.event = .reset ∨
      cfg.successThreshold ≤ probeSuccesses ignore x.pre.period (hist ++ [x])
  staleNeverCloses : ∀ c o, x.event = .complete c o → x.pre.Stale c →
    x.pre.breaker.state ≠ .closed → x.post.breaker.state ≠ .closed
  staleKeepsFailures : ∀ c o, x.event = .complete c o → x.pre.Stale c →
    x.pre.breaker.state = .opened →
    x.pre.breaker.failureCount ≤ x.post.breaker.failureCount
  staleNoProbe : ∀ c o, x.event = .complete c o → x.pre.Stale c →
    x.pre.breaker.state = .halfOpen →
    x.post.breaker.state = .halfOpen ∧
      x.post.breaker.halfOpenCalls = x.pre.breaker.halfOpenCalls ∧
      x.post.breaker.halfOpenSuccesses = x.pre.breaker.halfOpenSuccesses

/-- Every step of a run is safe after the steps before it. -/
def SafeRun (cfg : BreakerConfig) (ignore : Option (E → Option Bool))
    (tr : List (BreakerStep E)) : Prop :=
  ∀ hist x rest, tr = hist ++ x :: rest → StepSafe cfg ignore hist x

/-- The completions the breaker can attribute: a call of an earlier period
does not succeed while the breaker is open, and while it is half-open it
ends without reaching the breaker (or is ignored with no slot taken). -/
def Attributable (ignore : Option (E → Option Bool)) (s : BreakerSystem)
    (e : BreakerEvent E) : Prop :=
  ∀ c o, e = .complete c o → s.Stale c →
    (s.breaker.state = .opened → ending ignore o ≠ .success) ∧
    (s.breaker.state = .halfOpen → ending ignore o = .escaped ∨
      (ending ignore o = .ignored ∧ s.breaker.halfOpenCalls = 0))

/-- A success a half-open breaker counts is one of its own. -/
theorem Attributable.own {s : BreakerSystem} {c : Call} {o : CallOutcome E}
    (hok : Attributable ignore s (.complete c o)) (hho : s.breaker.state = .halfOpen)
    (hend : ending ignore o = .success) : c.period = s.period := by
  by_contra hstale
  rcases (hok c o rfl hstale).2 hho with he | ⟨he, _⟩
  · rw [hend] at he
    cases he
  · rw [hend] at he
    cases he

/-! ## The lock sections, read once -/

namespace CircuitBreaker

theorem effectiveState_cases (cfg : BreakerConfig) (now : ℚ) (b : CircuitBreaker) :
    effectiveState cfg now b = b ∨
      (b.state = .opened ∧ cfg.recoveryTimeout ≤ now - b.lastFailureTime ∧
        effectiveState cfg now b =
          { b with state := .halfOpen, halfOpenCalls := 0, halfOpenSuccesses := 0 }) := by
  unfold effectiveState
  split
  · next h => exact .inr ⟨h.1, h.2, rfl⟩
  · exact .inl rfl

/-- An admission is the lazy move, then either a refusal that changes
nothing more, or a call let in: freely while closed, on a slot while
half-open. -/
theorem admit_cases (cfg : BreakerConfig) (now : ℚ) (b : CircuitBreaker) :
    (∃ err, admitCall cfg now b = (effectiveState cfg now b, some err)) ∨
      ((effectiveState cfg now b).state = .closed ∧
        admitCall cfg now b = (effectiveState cfg now b, none)) ∨
      ((effectiveState cfg now b).state = .halfOpen ∧
        (effectiveState cfg now b).halfOpenCalls < cfg.halfOpenMaxCalls ∧
        admitCall cfg now b = ({ effectiveState cfg now b with
          halfOpenCalls := (effectiveState cfg now b).halfOpenCalls + 1 }, none)) := by
  cases hst : (effectiveState cfg now b).state with
  | opened =>
      refine .inl ⟨⟨cfg.name, max 0 (cfg.recoveryTimeout -
        (now - (effectiveState cfg now b).lastFailureTime)), .recoveryTimeout⟩, ?_⟩
      simp only [admitCall, hst]
  | closed =>
      refine .inr (.inl ⟨rfl, ?_⟩)
      simp only [admitCall, hst]
  | halfOpen =>
      by_cases hle : cfg.halfOpenMaxCalls ≤ (effectiveState cfg now b).halfOpenCalls
      · refine .inl ⟨⟨cfg.name, 0, .halfOpenExhausted⟩, ?_⟩
        simp only [admitCall, hst, if_pos hle]
      · refine .inr (.inr ⟨rfl, Nat.lt_of_not_le hle, ?_⟩)
        simp only [admitCall, hst, if_neg hle]

/-- An open breaker admits nobody without moving to half-open first. -/
theorem admit_none_ne_opened {now : ℚ} {b b' : CircuitBreaker}
    (h : admitCall cfg now b = (b', none)) : b'.state ≠ .opened := by
  rcases admit_cases cfg now b with ⟨_, he⟩ | ⟨hst, he⟩ | ⟨hst, _, he⟩ <;>
    rw [he] at h
  · simp at h
  · obtain rfl := (Prod.mk.inj h).1
    rw [hst]
    decide
  · obtain rfl := (Prod.mk.inj h).1
    simp [hst]

theorem recordSuccess_of_ne {b : CircuitBreaker} (h : b.state ≠ .halfOpen) :
    b.recordSuccess cfg = b.close := if_neg h

theorem recordSuccess_halfOpen (cfg : BreakerConfig) {b : CircuitBreaker} (h : b.state = .halfOpen) :
    (b.halfOpenSuccesses + 1 < cfg.successThreshold ∧
      b.recordSuccess cfg = { b with
        halfOpenCalls := b.halfOpenCalls - 1
        halfOpenSuccesses := b.halfOpenSuccesses + 1 }) ∨
    (cfg.successThreshold ≤ b.halfOpenSuccesses + 1 ∧
      (b.recordSuccess cfg).state = .closed) := by
  unfold recordSuccess
  rw [if_pos h]
  dsimp only
  split
  · next hlt => exact .inl ⟨hlt, rfl⟩
  · next hge => exact .inr ⟨Nat.le_of_not_lt hge, rfl⟩

theorem recordFailure_facts (cfg : BreakerConfig) (now : ℚ) (b : CircuitBreaker) :
    (b.recordFailure cfg now).failureCount = b.failureCount + 1 ∧
      (b.recordFailure cfg now).lastFailureTime = now ∧
      (b.state ≠ .closed → (b.recordFailure cfg now).state = .opened) ∧
      (b.recordFailure cfg now).state ≠ .halfOpen := by
  unfold recordFailure
  dsimp only
  split
  · simp
  · next hne =>
      split
      · simp
      · refine ⟨rfl, rfl, ?_, hne⟩
        intro hc
        cases hst : b.state with
        | closed => exact absurd hst hc
        | opened => rfl
        | halfOpen => exact absurd hst hne

theorem releaseHalfOpenSlot_facts (b : CircuitBreaker) :
    b.releaseHalfOpenSlot.state = b.state ∧
      b.releaseHalfOpenSlot.failureCount = b.failureCount ∧
      b.releaseHalfOpenSlot.lastFailureTime = b.lastFailureTime ∧
      b.releaseHalfOpenSlot.halfOpenSuccesses = b.halfOpenSuccesses := by
  unfold releaseHalfOpenSlot
  split <;> exact ⟨rfl, rfl, rfl, rfl⟩

theorem releaseHalfOpenSlot_calls {b : CircuitBreaker} (h : b.state = .halfOpen) :
    b.releaseHalfOpenSlot.halfOpenCalls = b.halfOpenCalls - 1 := by
  unfold releaseHalfOpenSlot
  split
  · rfl
  · next hn =>
      have hz : b.halfOpenCalls = 0 := by
        by_contra hne
        exact hn ⟨h, Nat.pos_of_ne_zero hne⟩
      omega

/-- A half-open breaker closes by a success that meets the threshold, and
by nothing else a call can do. -/
theorem finishCall_closes {now : ℚ} {b : CircuitBreaker} {e : Ending}
    (hho : b.state = .halfOpen) (hcl : (b.finishCall cfg now e).state = .closed) :
    e = .success ∧ cfg.successThreshold ≤ b.halfOpenSuccesses + 1 := by
  cases e with
  | success =>
      rcases recordSuccess_halfOpen cfg hho with ⟨_, heq⟩ | ⟨hle, _⟩
      · simp [finishCall, heq, hho] at hcl
      · exact ⟨rfl, hle⟩
  | failure =>
      have hop := (recordFailure_facts cfg now b).2.2.1 (by simp [hho])
      exact absurd (hcl.symm.trans hop) (by decide)
  | ignored =>
      have hst := (releaseHalfOpenSlot_facts b).1
      exact absurd (hcl.symm.trans (hst.trans hho)) (by decide)
  | escaped => exact absurd (hcl.symm.trans hho) (by decide)

/-- Short of a success, an open breaker stays open and keeps its count. -/
theorem finishCall_opened {now : ℚ} {b : CircuitBreaker} {e : Ending}
    (hop : b.state = .opened) (he : e ≠ .success) :
    (b.finishCall cfg now e).state = .opened ∧
      b.failureCount ≤ (b.finishCall cfg now e).failureCount := by
  have hslot := releaseHalfOpenSlot_facts b
  cases e with
  | success => exact absurd rfl he
  | failure =>
      have hfail := recordFailure_facts cfg now b
      refine ⟨hfail.2.2.1 (by simp [hop]), ?_⟩
      rw [finishCall, hfail.1]
      exact Nat.le_succ _
  | ignored => exact ⟨hslot.1.trans hop, Nat.le_of_eq hslot.2.1.symm⟩
  | escaped => exact ⟨hop, Nat.le_refl _⟩

end CircuitBreaker

/-! ## The steps, read once -/

namespace BreakerSystem

@[simp] theorem store_breaker (s : BreakerSystem) (b : CircuitBreaker) :
    (s.store b).breaker = b := rfl

@[simp] theorem store_now (s : BreakerSystem) (b : CircuitBreaker) :
    (s.store b).now = s.now := rfl

@[simp] theorem store_inFlight (s : BreakerSystem) (b : CircuitBreaker) :
    (s.store b).inFlight = s.inFlight := rfl

theorem store_period_le (s : BreakerSystem) (b : CircuitBreaker) :
    s.period ≤ (s.store b).period := by
  unfold store
  dsimp only
  split <;> omega

theorem store_period_same {s : BreakerSystem} {b : CircuitBreaker}
    (h : b.state = s.breaker.state) : (s.store b).period = s.period := if_pos h

theorem store_period_changed {s : BreakerSystem} {b : CircuitBreaker}
    (h : b.state ≠ s.breaker.state) : (s.store b).period = s.period + 1 := if_neg h

@[simp] theorem begin_breaker (s : BreakerSystem) : s.begin.breaker = s.breaker := rfl
@[simp] theorem begin_period (s : BreakerSystem) : s.begin.period = s.period := rfl
@[simp] theorem begin_now (s : BreakerSystem) : s.begin.now = s.now := rfl
@[simp] theorem begin_inFlight (s : BreakerSystem) :
    s.begin.inFlight = ⟨s.nextId, s.period⟩ :: s.inFlight := rfl
@[simp] theorem retire_breaker (s : BreakerSystem) (c : Call) :
    (s.retire c).breaker = s.breaker := rfl
@[simp] theorem retire_period (s : BreakerSystem) (c : Call) :
    (s.retire c).period = s.period := rfl
@[simp] theorem retire_inFlight (s : BreakerSystem) (c : Call) :
    (s.retire c).inFlight = s.inFlight.erase c := rfl

/-- Everything one step can do. -/
theorem step_cases {s t : BreakerSystem} {e : BreakerEvent E}
    (h : s.step cfg ignore e = some t) :
    (∃ now, e = .tick now ∧ t = { s with now := now }) ∨
    (e = .observe ∧ t = s.store (s.breaker.effectiveState cfg s.now)) ∨
    (e = .admitCall ∧ ∃ b, s.breaker.admitCall cfg s.now = (b, none) ∧ t = (s.store b).begin) ∨
    (e = .admitCall ∧ ∃ err, t = s.store (s.breaker.effectiveState cfg s.now) ∧
      s.breaker.admitCall cfg s.now = (s.breaker.effectiveState cfg s.now, some err)) ∨
    (∃ c o, e = .complete c o ∧ c ∈ s.inFlight ∧
      t = (s.store (s.breaker.finishCall cfg s.now (ending ignore o))).retire c) ∨
    (e = .reset ∧ t = s.store s.breaker.reset) := by
  cases e with
  | tick now =>
      simp only [step] at h
      split at h
      · exact .inl ⟨now, rfl, (Option.some.inj h).symm⟩
      · cases h
  | observe => exact .inr (.inl ⟨rfl, (Option.some.inj h).symm⟩)
  | admitCall =>
      simp only [step] at h
      split at h
      · next b hb => exact .inr (.inr (.inl ⟨rfl, b, hb, (Option.some.inj h).symm⟩))
      · next b err hb =>
          have hbe : b = s.breaker.effectiveState cfg s.now := by
            rcases CircuitBreaker.admit_cases cfg s.now s.breaker with
              ⟨_, he⟩ | ⟨_, he⟩ | ⟨_, _, he⟩ <;> rw [he] at hb
            · exact (Prod.mk.inj hb).1.symm
            · simp at hb
            · simp at hb
          subst hbe
          exact .inr (.inr (.inr (.inl ⟨rfl, err, (Option.some.inj h).symm, hb⟩)))
  | complete c o =>
      simp only [step] at h
      split at h
      · next hc =>
          exact .inr (.inr (.inr (.inr (.inl ⟨c, o, rfl, hc, (Option.some.inj h).symm⟩))))
      · cases h
  | reset => exact .inr (.inr (.inr (.inr (.inr ⟨rfl, (Option.some.inj h).symm⟩))))

theorem step_complete {s t : BreakerSystem} {c : Call} {o : CallOutcome E}
    (h : s.step cfg ignore (.complete c o) = some t) :
    c ∈ s.inFlight ∧
      t = (s.store (s.breaker.finishCall cfg s.now (ending ignore o))).retire c := by
  simp only [step] at h
  split at h
  · next hc => exact ⟨hc, (Option.some.inj h).symm⟩
  · cases h

end BreakerSystem

/-! ## The history invariant -/

/-- What the breaker's fields mean, in terms of the history. -/
structure History (ignore : Option (E → Option Bool)) (hist : List (BreakerStep E))
    (s : BreakerSystem) : Prop where
  failed : s.breaker.state = .opened →
    lastFailure ignore hist = some s.breaker.lastFailureTime
  probed : s.breaker.state = .halfOpen →
    s.breaker.halfOpenSuccesses = probeSuccesses ignore s.period hist
  past : ∀ x ∈ hist, x.pre.period ≤ s.period
  flight : ∀ c ∈ s.inFlight, c.period ≤ s.period
  strangers : s.breaker.state = .opened → ∀ c ∈ s.inFlight, s.Stale c

theorem History.init (start : ℚ) :
    History ignore ([] : List (BreakerStep E)) { now := start } where
  failed h := by cases h
  probed h := by cases h
  past x hx := by cases hx
  flight c hc := by cases hc
  strangers h := by cases h

/-- The parts of the invariant that only ask how the period moved: a stored
record keeps every period below the new one, strictly so if the state
changed. -/
theorem History.past_store {hist : List (BreakerStep E)} {s t : BreakerSystem}
    {b : CircuitBreaker} {e : BreakerEvent E} (h : History ignore hist s) :
    ∀ x ∈ hist ++ [⟨s, e, t⟩], x.pre.period ≤ (s.store b).period := by
  have hle := BreakerSystem.store_period_le s b
  intro x hx
  rcases List.mem_append.mp hx with hx | hx
  · exact Nat.le_trans (h.past x hx) hle
  · obtain rfl := List.mem_singleton.mp hx
    exact hle

/-- Moving to half-open starts a period with no successes of its own. -/
theorem History.fresh {hist : List (BreakerStep E)} {s t : BreakerSystem}
    {e : BreakerEvent E} (h : History ignore hist s) :
    probeSuccesses ignore (s.period + 1) (hist ++ [⟨s, e, t⟩]) = 0 := by
  refine probeSuccesses_fresh fun x hx => ?_
  rcases List.mem_append.mp hx with hx | hx
  · exact Nat.lt_succ_of_le (h.past x hx)
  · obtain rfl := List.mem_singleton.mp hx
    exact Nat.lt_succ_self _

/-- The lazy move keeps the invariant, whichever event asks for it. -/
theorem History.effective {hist : List (BreakerStep E)} {s t : BreakerSystem}
    {e : BreakerEvent E} (h : History ignore hist s)
    (he : e = .observe ∨ e = .admitCall) :
    History ignore (hist ++ [⟨s, e, t⟩])
      (s.store (s.breaker.effectiveState cfg s.now)) := by
  have hfail : lastFailure ignore (hist ++ [⟨s, e, t⟩]) = lastFailure ignore hist := by
    rw [lastFailure_snoc]
    rcases he with rfl | rfl <;> rfl
  have hprobe : isProbeSuccess ignore s.period (⟨s, e, t⟩ : BreakerStep E) = false := by
    rcases he with rfl | rfl <;> rfl
  rcases CircuitBreaker.effectiveState_cases cfg s.now s.breaker with
    heq | ⟨hop, _, heq⟩
  · rw [heq]
    have hper := BreakerSystem.store_period_same (s := s) (b := s.breaker) rfl
    refine ⟨fun hst => ?_, fun hst => ?_, h.past_store, fun c hc => ?_, fun hst c hc => ?_⟩
    · rw [hfail]
      exact h.failed hst
    · rw [hper, probeSuccesses_snoc, hprobe]
      exact h.probed hst
    · rw [hper]
      exact h.flight c hc
    · rw [BreakerSystem.Stale, hper]
      exact h.strangers hst c hc
  · rw [heq]
    have hper : (s.store { s.breaker with
        state := .halfOpen, halfOpenCalls := 0, halfOpenSuccesses := 0 }).period =
        s.period + 1 := BreakerSystem.store_period_changed (by simp [hop])
    refine ⟨fun hst => by simp at hst, fun _ => ?_, h.past_store, fun c hc => ?_,
      fun hst => by simp at hst⟩
    · rw [hper, h.fresh]
      rfl
    · rw [hper]
      exact Nat.le_succ_of_le (h.flight c hc)

/-- Letting one call in changes nothing the history can see. -/
theorem History.begin {hist : List (BreakerStep E)} {s : BreakerSystem}
    {b : CircuitBreaker} (h : History ignore hist (s.store b))
    (hb : b.state ≠ .opened) : History ignore hist (s.store b).begin := by
  refine ⟨fun hst => absurd hst hb, h.probed, h.past, fun c hc => ?_,
    fun hst => absurd hst hb⟩
  rcases List.mem_cons.mp hc with rfl | hc
  · exact Nat.le_refl _
  · exact h.flight c hc

theorem History.admitted {hist : List (BreakerStep E)} {s t : BreakerSystem}
    {b : CircuitBreaker} (h : History ignore hist s)
    (hb : s.breaker.admitCall cfg s.now = (b, none)) :
    History ignore (hist ++ [⟨s, .admitCall, t⟩]) (s.store b).begin := by
  have heff : History ignore (hist ++ [⟨s, .admitCall, t⟩])
      (s.store (s.breaker.effectiveState cfg s.now)) := h.effective (.inr rfl)
  refine History.begin ?_ (CircuitBreaker.admit_none_ne_opened hb)
  rcases CircuitBreaker.admit_cases cfg s.now s.breaker with
    ⟨_, he⟩ | ⟨_, he⟩ | ⟨hst, _, he⟩ <;> rw [he] at hb
  · simp at hb
  · obtain rfl := (Prod.mk.inj hb).1
    exact heff
  · obtain rfl := (Prod.mk.inj hb).1
    refine ⟨fun h' => ?_, heff.probed, heff.past, heff.flight, fun h' => ?_⟩ <;>
      simp [hst] at h'

theorem History.flight_store {hist : List (BreakerStep E)} {s : BreakerSystem}
    (h : History ignore hist s) (b : CircuitBreaker) :
    ∀ c ∈ (s.store b).inFlight, c.period ≤ (s.store b).period :=
  fun c hc => Nat.le_trans (h.flight c hc) (BreakerSystem.store_period_le s b)

/-- Nobody in flight belongs to an open period: either it was open already,
or it opens now and everybody was admitted before. -/
theorem History.strangers_store {hist : List (BreakerStep E)} {s : BreakerSystem}
    (h : History ignore hist s) {b : CircuitBreaker} (hb : b.state = .opened) :
    ∀ c ∈ (s.store b).inFlight, (s.store b).Stale c := by
  intro c hc
  by_cases hst : s.breaker.state = .opened
  · rw [BreakerSystem.Stale, BreakerSystem.store_period_same (hb.trans hst.symm)]
    exact h.strangers hst c hc
  · have hne : b.state ≠ s.breaker.state := by
      rw [hb]
      exact fun he => hst he.symm
    rw [BreakerSystem.Stale, BreakerSystem.store_period_changed hne]
    exact Nat.ne_of_lt (Nat.lt_succ_of_le (h.flight c hc))

/-- A lock section that leaves the breaker closed has nothing to prove. -/
theorem History.closed_store {hist : List (BreakerStep E)} {s t : BreakerSystem}
    {e : BreakerEvent E} {b : CircuitBreaker} (h : History ignore hist s)
    (hb : b.state = .closed) : History ignore (hist ++ [⟨s, e, t⟩]) (s.store b) where
  failed hst := by simp [hb] at hst
  probed hst := by simp [hb] at hst
  past := h.past_store
  flight := h.flight_store b
  strangers hst := by simp [hb] at hst

/-- A completion that keeps the state, the failure time and the successes
keeps the invariant. -/
theorem History.kept_store {hist : List (BreakerStep E)} {s t : BreakerSystem}
    {c : Call} {o : CallOutcome E} {b : CircuitBreaker} (h : History ignore hist s)
    (hst : b.state = s.breaker.state)
    (hlast : b.lastFailureTime = s.breaker.lastFailureTime)
    (hsucc : b.halfOpenSuccesses = s.breaker.halfOpenSuccesses)
    (hf : ending ignore o ≠ .failure) (hs : ending ignore o ≠ .success) :
    History ignore (hist ++ [⟨s, .complete c o, t⟩]) (s.store b) := by
  have hper := BreakerSystem.store_period_same (s := s) hst
  refine ⟨fun hop => ?_, fun hho => ?_, h.past_store, h.flight_store b,
    h.strangers_store⟩
  · rw [lastFailure_snoc, noteFailure_complete, if_neg hf]
    exact (h.failed (hst.symm.trans hop)).trans (congrArg some hlast.symm)
  · have hno : isProbeSuccess ignore s.period
        (⟨s, .complete c o, t⟩ : BreakerStep E) = false := by
      simp [isProbeSuccess, hs]
    rw [hper, probeSuccesses_snoc, hno]
    exact hsucc.trans (h.probed (hst.symm.trans hho))

theorem History.finished {hist : List (BreakerStep E)} {s t : BreakerSystem}
    {c : Call} {o : CallOutcome E} (h : History ignore hist s)
    (hok : Attributable ignore s (.complete c o)) :
    History ignore (hist ++ [⟨s, .complete c o, t⟩])
      (s.store (s.breaker.finishCall cfg s.now (ending ignore o))) := by
  cases hend : ending ignore o with
  | success =>
      by_cases hho : s.breaker.state = .halfOpen
      · rcases CircuitBreaker.recordSuccess_halfOpen cfg hho with
          ⟨_, heq⟩ | ⟨_, hcl⟩
        · -- A stranger would be counted here; the condition rules it out.
          have hown := hok.own hho hend
          have hper : (s.store (s.breaker.recordSuccess cfg)).period = s.period :=
            BreakerSystem.store_period_same (by rw [heq])
          have hyes : isProbeSuccess ignore s.period
              (⟨s, .complete c o, t⟩ : BreakerStep E) = true := by
            simp [isProbeSuccess, hend, hown]
          refine ⟨fun hst => ?_, fun _ => ?_, h.past_store, h.flight_store _,
            h.strangers_store⟩
          · simp [CircuitBreaker.finishCall, heq, hho] at hst
          · show (s.breaker.recordSuccess cfg).halfOpenSuccesses = _
            rw [show (s.store (s.breaker.finishCall cfg s.now .success)).period = s.period
              from hper, probeSuccesses_snoc, hyes, if_pos rfl, heq, ← h.probed hho]
        · exact h.closed_store hcl
      · exact h.closed_store (by
          simp [CircuitBreaker.finishCall, CircuitBreaker.recordSuccess_of_ne hho,
            CircuitBreaker.close])
  | failure =>
      obtain ⟨_, hlast, _, hne⟩ :=
        CircuitBreaker.recordFailure_facts cfg s.now s.breaker
      refine ⟨fun _ => ?_, fun hst => absurd hst hne, h.past_store, h.flight_store _,
        h.strangers_store⟩
      rw [lastFailure_snoc, noteFailure_complete, if_pos hend]
      exact congrArg some hlast.symm
  | ignored =>
      obtain ⟨hst, _, hlast, hsucc⟩ :=
        CircuitBreaker.releaseHalfOpenSlot_facts s.breaker
      exact h.kept_store hst hlast hsucc (by simp [hend]) (by simp [hend])
  | escaped => exact h.kept_store rfl rfl rfl (by simp [hend]) (by simp [hend])

theorem History.retire {hist : List (BreakerStep E)} {s : BreakerSystem}
    (h : History ignore hist s) (c : Call) : History ignore hist (s.retire c) where
  failed := h.failed
  probed := h.probed
  past := h.past
  flight d hd := h.flight d (List.mem_of_mem_erase hd)
  strangers hst d hd := h.strangers hst d (List.mem_of_mem_erase hd)

theorem History.ticked {hist : List (BreakerStep E)} {s t : BreakerSystem} {now : ℚ}
    (h : History ignore hist s) :
    History ignore (hist ++ [⟨s, .tick now, t⟩]) { s with now := now } where
  failed hst := by
    rw [lastFailure_snoc]
    exact h.failed hst
  probed hst := by
    rw [probeSuccesses_snoc]
    exact h.probed hst
  past x hx := by
    rcases List.mem_append.mp hx with hx | hx
    · exact h.past x hx
    · obtain rfl := List.mem_singleton.mp hx
      exact Nat.le_refl _
  flight := h.flight
  strangers := h.strangers

theorem History.step {hist : List (BreakerStep E)} {s t : BreakerSystem}
    {e : BreakerEvent E} (h : History ignore hist s) (hok : Attributable ignore s e)
    (hs : s.step cfg ignore e = some t) : History ignore (hist ++ [⟨s, e, t⟩]) t := by
  rcases BreakerSystem.step_cases hs with ⟨now, rfl, rfl⟩ | ⟨rfl, rfl⟩ |
    ⟨rfl, b, hb, rfl⟩ | ⟨rfl, err, rfl, _⟩ | ⟨c, o, rfl, _, rfl⟩ | ⟨rfl, rfl⟩
  · exact h.ticked
  · exact h.effective (.inl rfl)
  · exact h.admitted hb
  · exact h.effective (.inr rfl)
  · exact (h.finished hok).retire c
  · exact h.closed_store rfl

/-! ## The theorem -/

/-- What is left to a stranger in a half-open period touches nothing. -/
theorem Attributable.untouched {s : BreakerSystem} {c : Call} {o : CallOutcome E}
    (hok : Attributable ignore s (.complete c o)) (hstale : s.Stale c)
    (hho : s.breaker.state = .halfOpen) :
    (s.breaker.finishCall cfg s.now (ending ignore o)).state = .halfOpen ∧
      (s.breaker.finishCall cfg s.now (ending ignore o)).halfOpenCalls =
        s.breaker.halfOpenCalls ∧
      (s.breaker.finishCall cfg s.now (ending ignore o)).halfOpenSuccesses =
        s.breaker.halfOpenSuccesses := by
  rcases (hok c o rfl hstale).2 hho with he | ⟨he, hz⟩
  · rw [he]
    exact ⟨hho, rfl, rfl⟩
  · rw [he]
    have hslot := CircuitBreaker.releaseHalfOpenSlot_facts s.breaker
    refine ⟨hslot.1.trans hho, ?_, hslot.2.2.2⟩
    rw [CircuitBreaker.finishCall, CircuitBreaker.releaseHalfOpenSlot_calls hho]
    omega

/-- A completion the breaker can attribute is a safe step. -/
theorem StepSafe.completed {hist : List (BreakerStep E)} {s : BreakerSystem}
    {c : Call} {o : CallOutcome E} (h : History ignore hist s) (hc : c ∈ s.inFlight)
    (hok : Attributable ignore s (.complete c o)) :
    StepSafe cfg ignore hist ⟨s, .complete c o,
      (s.store (s.breaker.finishCall cfg s.now (ending ignore o))).retire c⟩ := by
  have hopen : s.breaker.state = .opened →
      (s.breaker.finishCall cfg s.now (ending ignore o)).state = .opened ∧
        s.breaker.failureCount ≤
          (s.breaker.finishCall cfg s.now (ending ignore o)).failureCount :=
    fun hop => CircuitBreaker.finishCall_opened hop
      ((hok c o rfl (h.strangers hop c hc)).1 hop)
  constructor
  case leavesOpen => exact fun hop hne => absurd (hopen hop).1 hne
  case closes =>
    intro hho hcl
    obtain ⟨hend, hle⟩ := CircuitBreaker.finishCall_closes hho hcl
    have hyes : isProbeSuccess ignore s.period (⟨s, .complete c o,
        (s.store (s.breaker.finishCall cfg s.now (ending ignore o))).retire c⟩ :
          BreakerStep E) = true := by
      simp [isProbeSuccess, hend, hok.own hho hend]
    refine .inr ?_
    rw [probeSuccesses_snoc, if_pos hyes, ← h.probed hho]
    exact hle
  case staleNeverCloses =>
    intro c' o' he hstale hne hcl
    obtain ⟨rfl, rfl⟩ : c = c' ∧ o = o' := by simpa using he
    cases hst : s.breaker.state with
    | closed => exact hne hst
    | opened => exact absurd ((hopen hst).1.symm.trans hcl) (by decide)
    | halfOpen => exact absurd ((hok.untouched hstale hst).1.symm.trans hcl) (by decide)
  case staleKeepsFailures => exact fun _ _ _ _ hop => (hopen hop).2
  case staleNoProbe =>
    intro c' o' he hstale hho
    obtain ⟨rfl, rfl⟩ : c = c' ∧ o = o' := by simpa using he
    exact hok.untouched hstale hho

/-- A step that is no completion is safe if it leaves an open breaker only
by the lazy move. -/
theorem StepSafe.of_effective {hist : List (BreakerStep E)} {s t : BreakerSystem}
    {e : BreakerEvent E} (h : History ignore hist s)
    (hne : ∀ c o, e ≠ .complete c o)
    (ht : t.breaker.state = (s.breaker.effectiveState cfg s.now).state) :
    StepSafe cfg ignore hist ⟨s, e, t⟩ := by
  constructor
  case leavesOpen =>
    intro hop hout
    rcases CircuitBreaker.effectiveState_cases cfg s.now s.breaker with
      heq | ⟨_, hle, heq⟩
    · rw [heq] at ht
      exact absurd (ht.trans hop) hout
    · rw [heq] at ht
      exact .inr ⟨ht, _, h.failed hop, hle⟩
  case closes =>
    intro hho hcl
    rcases CircuitBreaker.effectiveState_cases cfg s.now s.breaker with
      heq | ⟨hop, _, _⟩
    · rw [heq] at ht
      exact absurd (hcl.symm.trans (ht.trans hho)) (by decide)
    · exact absurd (hho.symm.trans hop) (by decide)
  case staleNeverCloses => exact fun c o he => absurd he (hne c o)
  case staleKeepsFailures => exact fun c o he => absurd he (hne c o)
  case staleNoProbe => exact fun c o he => absurd he (hne c o)

theorem CircuitBreaker.admit_state {now : ℚ} {b b' : CircuitBreaker}
    {err : Option CircuitBreakerOpenError} (h : admitCall cfg now b = (b', err)) :
    b'.state = (effectiveState cfg now b).state := by
  rcases admit_cases cfg now b with ⟨_, he⟩ | ⟨_, he⟩ | ⟨_, _, he⟩ <;>
    rw [he] at h <;> obtain rfl := (Prod.mk.inj h).1 <;> rfl

theorem StepSafe.of_step {hist : List (BreakerStep E)} {s t : BreakerSystem}
    {e : BreakerEvent E} (h : History ignore hist s) (hok : Attributable ignore s e)
    (hs : s.step cfg ignore e = some t) : StepSafe cfg ignore hist ⟨s, e, t⟩ := by
  rcases BreakerSystem.step_cases hs with ⟨now, rfl, rfl⟩ | ⟨rfl, rfl⟩ |
    ⟨rfl, b, hb, rfl⟩ | ⟨rfl, err, rfl, _⟩ | ⟨c, o, rfl, hc, rfl⟩ | ⟨rfl, rfl⟩
  · -- The clock alone moves no state.
    constructor
    case leavesOpen => exact fun hop hne => absurd hop hne
    case closes => exact fun hho hcl => absurd (hho.symm.trans hcl) (by decide)
    case staleNeverCloses => exact fun c o he => by cases he
    case staleKeepsFailures => exact fun c o he => by cases he
    case staleNoProbe => exact fun c o he => by cases he
  · exact StepSafe.of_effective h (by simp) rfl
  · exact StepSafe.of_effective h (by simp) (CircuitBreaker.admit_state hb)
  · exact StepSafe.of_effective h (by simp) rfl
  · exact StepSafe.completed h hc hok
  · constructor
    case leavesOpen => exact fun _ _ => .inl rfl
    case closes => exact fun _ _ => .inl rfl
    case staleNeverCloses => exact fun c o he => by cases he
    case staleKeepsFailures => exact fun c o he => by cases he
    case staleNoProbe => exact fun c o he => by cases he

/-- The converse, one step at a time: a completion the breaker cannot
attribute is never a safe step. -/
theorem StepSafe.attributable {hist : List (BreakerStep E)} {s t : BreakerSystem}
    {e : BreakerEvent E} (hs : s.step cfg ignore e = some t)
    (hsafe : StepSafe cfg ignore hist ⟨s, e, t⟩) : Attributable ignore s e := by
  intro c o he hstale
  subst he
  obtain ⟨_, rfl⟩ := BreakerSystem.step_complete hs
  refine ⟨fun hop hend => ?_, fun hho => ?_⟩
  · refine hsafe.staleNeverCloses c o rfl hstale (by simp [hop]) ?_
    show (s.breaker.finishCall cfg s.now (ending ignore o)).state = .closed
    rw [hend, CircuitBreaker.finishCall, CircuitBreaker.recordSuccess_of_ne (by simp [hop])]
    rfl
  · obtain ⟨hst, hcalls, hsucc⟩ := hsafe.staleNoProbe c o rfl hstale hho
    simp only [BreakerSystem.retire_breaker, BreakerSystem.store_breaker] at hst hcalls hsucc
    cases hend : ending ignore o with
    | success =>
        rw [hend] at hst hsucc
        rcases CircuitBreaker.recordSuccess_halfOpen cfg hho with
          ⟨_, heq⟩ | ⟨_, hcl⟩
        · simp [CircuitBreaker.finishCall, heq] at hsucc
        · exact absurd (hcl.symm.trans hst) (by decide)
    | failure =>
        rw [hend] at hst
        exact absurd hst (CircuitBreaker.recordFailure_facts cfg _ _).2.2.2
    | ignored =>
        rw [hend, CircuitBreaker.finishCall,
          CircuitBreaker.releaseHalfOpenSlot_calls hho] at hcalls
        exact .inr ⟨rfl, by omega⟩
    | escaped => exact .inl rfl

/-- **The state machine is the documented one exactly on the runs whose
completions can be attributed.** -/
theorem safeRun_iff {E : Type} {cfg : BreakerConfig} {ignore : Option (E → Option Bool)}
    {start : ℚ} {tr : List (BreakerStep E)} {t : BreakerSystem}
    (hrun : Run (BreakerSystem.step cfg ignore) { now := start } tr t) :
    SafeRun cfg ignore tr ↔ ∀ x ∈ tr, Attributable ignore x.pre x.event := by
  constructor
  · intro hsafe x hx
    obtain ⟨hist, rest, rfl⟩ := List.append_of_mem hx
    exact (hsafe hist x rest rfl).attributable (hrun.cut rfl).2
  · intro hok hist x rest htr
    subst htr
    obtain ⟨hpre, hs⟩ := hrun.cut rfl
    have hinv : History ignore hist x.pre :=
      hpre.invariant_of (History ignore) (Attributable ignore) (History.init start)
        (fun _ _ _ _ h hc hstep => h.step hc hstep)
        (fun y hy => hok y (List.mem_append_left _ hy))
    exact StepSafe.of_step hinv (hok x (List.mem_append_right _ List.mem_cons_self)) hs

/-- A breaker that opens on one failure and closes on one success. -/
def oneShot : BreakerConfig where
  name := "api"
  failureThreshold := 1
  recoveryTimeout := 60
  halfOpenMaxCalls := 1
  successThreshold := 1
  failureThreshold_pos := Nat.one_pos
  recoveryTimeout_nonneg := by norm_num
  halfOpenMaxCalls_pos := Nat.one_pos
  successThreshold_pos := Nat.one_pos

/-- Two calls are admitted while closed; the second fails and opens the
breaker, the first returns at the same instant and closes it again. -/
theorem stale_success_closes_open :
    ∃ tr t, Run (BreakerSystem.step oneShot (none : Option (Unit → Option Bool)))
      { now := 0 } tr t ∧ ¬ SafeRun oneShot none tr := by
  refine ⟨_, _, (((Run.nil.snoc (e := .admitCall) rfl).snoc (e := .admitCall) rfl).snoc
    (e := .complete ⟨1, 0⟩ (.exception ())) rfl).snoc
    (e := .complete ⟨0, 0⟩ .returned) rfl, ?_⟩
  intro hsafe
  have hlast := (hsafe _ _ [] rfl).staleNeverCloses ⟨0, 0⟩ .returned rfl
    (by decide) (by decide)
  exact hlast rfl

/-- The same two calls with the success first: both completions belong to
the period they were admitted in, and the run is safe. -/
theorem safeRun_iff_in_order :
    ∃ tr t, Run (BreakerSystem.step oneShot (none : Option (Unit → Option Bool)))
      { now := 0 } tr t ∧ tr.length = 4 ∧ SafeRun oneShot none tr := by
  have h0 : Run (BreakerSystem.step oneShot (none : Option (Unit → Option Bool)))
      { now := 0 } [] { now := 0 } := Run.nil
  have hrun := (((h0.snoc (e := .admitCall) rfl).snoc (e := .admitCall) rfl).snoc
    (e := .complete ⟨0, 0⟩ .returned) rfl).snoc
    (e := .complete ⟨1, 0⟩ (.exception ())) rfl
  refine ⟨_, _, hrun, rfl, (safeRun_iff hrun).mpr ?_⟩
  intro x hx c o he hstale
  simp only [List.nil_append, List.cons_append, List.mem_cons, List.not_mem_nil,
    or_false] at hx
  rcases hx with rfl | rfl | rfl | rfl
  · cases he
  · cases he
  · obtain ⟨rfl, rfl⟩ : (⟨0, 0⟩ : Call) = c ∧ CallOutcome.returned = o := by simpa using he
    exact absurd rfl hstale
  · obtain ⟨rfl, rfl⟩ : (⟨1, 0⟩ : Call) = c ∧ CallOutcome.exception () = o := by
      simpa using he
    exact absurd rfl hstale

end Hephaestus.Resilience
