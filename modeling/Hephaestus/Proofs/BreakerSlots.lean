import Mathlib.Data.List.Count
import Hephaestus.Proofs.BreakerSafety

/-!
# Half-open slots

`half_open_calls` is meant to be the number of probes in flight. It is
raised at admission and lowered by whichever completion arrives while the
breaker is half-open, so it drifts in two ways: a call of an earlier period
gives back a slot it never took, and a probe that leaves through a
`BaseException`, or whose `ignore` predicate raises, keeps its slot for
good. `probesExact_iff` says that these are the only ways: the counter is
exact after every step of a run precisely when no step of the run is one of
the two.

Unlike the state machine of `BreakerSafety.lean`, the counter survives a
stranger's failure, because that ends the half-open period, and a
stranger's success that meets the threshold, for the same reason.
-/

namespace Hephaestus.Resilience

open Hephaestus.Lib

variable {E : Type} {cfg : BreakerConfig} {ignore : Option (E → Option Bool)}

/-- The counter is the number of probes in flight, within the limit; so a
half-open breaker with no probe in flight admits the next call. -/
def ProbesExact (cfg : BreakerConfig) (s : BreakerSystem) : Prop :=
  s.breaker.state = .halfOpen →
    s.breaker.halfOpenCalls = s.probes.length ∧
      s.probes.length ≤ cfg.halfOpenMaxCalls ∧
      (s.probes = [] → (s.breaker.admitCall cfg s.now).2 = none)

/-- The completions that give back exactly the slot they took: while the
breaker is half-open, a probe does not escape it, and a call of an earlier
period ends the half-open period, escapes, or finds no slot to give back. -/
def SlotSafe (cfg : BreakerConfig) (ignore : Option (E → Option Bool))
    (s : BreakerSystem) (e : BreakerEvent E) : Prop :=
  ∀ c o, e = .complete c o → s.breaker.state = .halfOpen →
    (¬ s.Stale c → ending ignore o ≠ .escaped) ∧
    (s.Stale c → ending ignore o = .failure ∨ ending ignore o = .escaped ∨
      s.breaker.halfOpenCalls = 0 ∨
      (ending ignore o = .success ∧
        cfg.successThreshold ≤ s.breaker.halfOpenSuccesses + 1))

/-! ## Counting probes -/

theorem probes_length (s : BreakerSystem) :
    s.probes.length = s.inFlight.countP fun c => c.period = s.period := by
  rw [BreakerSystem.probes, List.countP_eq_length_filter]

/-- Retiring a probe takes one off the count, retiring a stranger none. -/
theorem probes_retire {s : BreakerSystem} {c : Call} (hc : c ∈ s.inFlight) :
    (s.retire c).probes.length = s.probes.length - if s.Stale c then 0 else 1 := by
  rw [probes_length, probes_length, BreakerSystem.retire_inFlight,
    BreakerSystem.retire_period, List.countP_erase]
  by_cases hst : c.period = s.period
  · simp [hc, hst, BreakerSystem.Stale]
  · simp [hst, BreakerSystem.Stale]

theorem probes_pos {s : BreakerSystem} {c : Call} (hc : c ∈ s.inFlight)
    (hown : ¬ s.Stale c) : 0 < s.probes.length := by
  rw [probes_length, List.countP_pos_iff]
  exact ⟨c, hc, by simpa [BreakerSystem.Stale] using hown⟩

theorem probes_store_same {s : BreakerSystem} {b : CircuitBreaker}
    (h : b.state = s.breaker.state) : (s.store b).probes = s.probes := by
  rw [BreakerSystem.probes, BreakerSystem.probes, BreakerSystem.store_period_same h,
    BreakerSystem.store_inFlight]

/-- A half-open breaker whose counter is below the limit admits. -/
theorem admit_accepts {b : CircuitBreaker} {now : ℚ} (hho : b.state = .halfOpen)
    (hlt : b.halfOpenCalls < cfg.halfOpenMaxCalls) : (b.admitCall cfg now).2 = none := by
  have heff : b.effectiveState cfg now = b := by
    rcases CircuitBreaker.effectiveState_cases cfg now b with heq | ⟨hop, _, _⟩
    · exact heq
    · exact absurd (hho.symm.trans hop) (by decide)
  rw [CircuitBreaker.admitCall, heff]
  simp only [hho, if_neg (Nat.not_le_of_lt hlt)]

/-- The third clause follows from the first: it is why the counter
matters. -/
theorem ProbesExact.of_count {s : BreakerSystem}
    (h : s.breaker.state = .halfOpen →
      s.breaker.halfOpenCalls = s.probes.length ∧
        s.probes.length ≤ cfg.halfOpenMaxCalls) : ProbesExact cfg s := by
  intro hho
  obtain ⟨heq, hle⟩ := h hho
  refine ⟨heq, hle, fun hnil => admit_accepts hho ?_⟩
  rw [heq, hnil]
  exact cfg.halfOpenMaxCalls_pos

theorem ProbesExact.of_ne {s : BreakerSystem} (h : s.breaker.state ≠ .halfOpen) :
    ProbesExact cfg s := fun hho => absurd hho h

/-! ## One step -/

/-- No call in flight is from a period yet to come. -/
def NoFuture (s : BreakerSystem) : Prop := ∀ c ∈ s.inFlight, c.period ≤ s.period

theorem NoFuture.store {s : BreakerSystem} (h : NoFuture s) (b : CircuitBreaker) :
    NoFuture (s.store b) :=
  fun c hc => Nat.le_trans (h c hc) (BreakerSystem.store_period_le s b)

theorem NoFuture.step {s t : BreakerSystem} {e : BreakerEvent E} (h : NoFuture s)
    (hs : s.step cfg ignore e = some t) : NoFuture t := by
  rcases BreakerSystem.step_cases hs with ⟨now, rfl, rfl⟩ | ⟨rfl, rfl⟩ |
    ⟨rfl, b, hb, rfl⟩ | ⟨rfl, err, rfl, _⟩ | ⟨c, o, rfl, _, rfl⟩ | ⟨rfl, rfl⟩
  · exact h
  · exact h.store _
  · intro c hc
    rcases List.mem_cons.mp hc with rfl | hc
    · exact Nat.le_refl _
    · exact h.store b c hc
  · exact h.store _
  · exact fun d hd => h.store _ d (List.mem_of_mem_erase hd)
  · exact h.store _

/-- A period that has just begun has no probes. -/
theorem NoFuture.probes_new {s : BreakerSystem} (h : NoFuture s) {b : CircuitBreaker}
    (hb : b.state ≠ s.breaker.state) : (s.store b).probes = [] := by
  rw [BreakerSystem.probes, List.filter_eq_nil_iff]
  intro c hc hp
  have hlt := h c hc
  rw [BreakerSystem.store_period_changed hb] at hp
  simp only [decide_eq_true_eq] at hp
  omega

/-- The lazy move keeps the count: it either does nothing or starts a
period at zero. -/
theorem ProbesExact.effective {s : BreakerSystem} (h : ProbesExact cfg s)
    (hf : NoFuture s) : ProbesExact cfg (s.store (s.breaker.effectiveState cfg s.now)) := by
  refine ProbesExact.of_count fun hho => ?_
  rcases CircuitBreaker.effectiveState_cases cfg s.now s.breaker with heq | ⟨hop, _, heq⟩
  · rw [heq] at hho ⊢
    rw [probes_store_same rfl]
    exact ⟨(h hho).1, (h hho).2.1⟩
  · rw [heq]
    rw [hf.probes_new (by simp [hop])]
    exact ⟨rfl, Nat.zero_le _⟩

theorem ProbesExact.admitted {s : BreakerSystem} {b : CircuitBreaker}
    (h : ProbesExact cfg s) (hf : NoFuture s)
    (hb : s.breaker.admitCall cfg s.now = (b, none)) : ProbesExact cfg (s.store b).begin := by
  have heff := h.effective hf
  rcases CircuitBreaker.admit_cases cfg s.now s.breaker with
    ⟨_, he⟩ | ⟨hst, he⟩ | ⟨hst, hlt, he⟩ <;> rw [he] at hb
  · simp at hb
  · obtain rfl := (Prod.mk.inj hb).1
    exact ProbesExact.of_ne (by simp [hst])
  · obtain rfl := (Prod.mk.inj hb).1
    refine ProbesExact.of_count fun _ => ?_
    obtain ⟨heq, _, _⟩ := heff hst
    have hlen : ((s.store { s.breaker.effectiveState cfg s.now with
        halfOpenCalls := (s.breaker.effectiveState cfg s.now).halfOpenCalls + 1 }).begin).probes.length
        = (s.store (s.breaker.effectiveState cfg s.now)).probes.length + 1 := by
      rw [probes_length, probes_length]
      exact List.countP_cons_of_pos (by simp)
    rw [hlen, ← heq]
    exact ⟨rfl, hlt⟩

/-- A completion that leaves the breaker half-open found it half-open, did
not fail, and, unless it escaped, gave back one slot if there was one. -/
theorem CircuitBreaker.finishCall_stays {b : CircuitBreaker} {now : ℚ} {e : Ending}
    (h : (b.finishCall cfg now e).state = .halfOpen) :
    b.state = .halfOpen ∧ e ≠ .failure ∧
      (e = .success → b.halfOpenSuccesses + 1 < cfg.successThreshold) ∧
      (b.finishCall cfg now e).halfOpenCalls =
        b.halfOpenCalls - if e = .escaped then 0 else 1 := by
  cases e with
  | success =>
      have hho : b.state = .halfOpen := by
        by_contra hne
        rw [finishCall, recordSuccess_of_ne hne] at h
        cases h
      rcases recordSuccess_halfOpen cfg hho with ⟨hlt, heq⟩ | ⟨_, hcl⟩
      · refine ⟨hho, by decide, fun _ => hlt, ?_⟩
        rw [finishCall, heq]
        rfl
      · exact absurd (hcl.symm.trans h) (by decide)
  | failure => exact absurd h (recordFailure_facts cfg now b).2.2.2
  | ignored =>
      have hho : b.state = .halfOpen := (releaseHalfOpenSlot_facts b).1.symm.trans h
      exact ⟨hho, by decide, fun he => (by cases he), releaseHalfOpenSlot_calls hho⟩
  | escaped => exact ⟨h, by decide, fun he => (by cases he), rfl⟩

/-- The probes left by a completion that keeps the half-open period on. -/
theorem probes_completed {s : BreakerSystem} {c : Call} {b : CircuitBreaker}
    (hc : c ∈ s.inFlight) (hb : b.state = s.breaker.state) :
    ((s.store b).retire c).probes.length =
      s.probes.length - if s.Stale c then 0 else 1 := by
  have hstale : (s.store b).Stale c ↔ s.Stale c := by
    rw [BreakerSystem.Stale, BreakerSystem.Stale, BreakerSystem.store_period_same hb]
  have hcount := probes_retire (s := s.store b) hc
  rw [probes_store_same hb] at hcount
  simp only [hstale] at hcount
  exact hcount

/-- A slot-safe completion keeps the count: a probe's own slot comes back,
a stranger gives none. -/
theorem ProbesExact.completed {s : BreakerSystem} {c : Call} {o : CallOutcome E}
    (h : ProbesExact cfg s) (hc : c ∈ s.inFlight)
    (hok : SlotSafe cfg ignore s (.complete c o)) :
    ProbesExact cfg
      ((s.store (s.breaker.finishCall cfg s.now (ending ignore o))).retire c) := by
  refine ProbesExact.of_count fun hpost => ?_
  obtain ⟨hho, hnf, hthr, hcalls⟩ := CircuitBreaker.finishCall_stays hpost
  obtain ⟨heq, hle, _⟩ := h hho
  obtain ⟨hown, hstr⟩ := hok c o rfl hho
  rw [BreakerSystem.retire_breaker, BreakerSystem.store_breaker] at hpost ⊢
  have hcount := probes_completed hc (hpost.trans hho.symm)
  rw [hcount, hcalls]
  by_cases hst : s.Stale c
  · rw [if_pos hst]
    rcases hstr hst with hend | hend | hz | ⟨hend, hmet⟩
    · exact absurd hend hnf
    · rw [if_pos hend]
      exact ⟨by omega, by omega⟩
    · exact ⟨by omega, by omega⟩
    · exact absurd (hthr hend) (by omega)
  · rw [if_neg hst, if_neg (hown hst)]
    exact ⟨by omega, by omega⟩

theorem ProbesExact.step {s t : BreakerSystem} {e : BreakerEvent E}
    (h : ProbesExact cfg s) (hf : NoFuture s) (hok : SlotSafe cfg ignore s e)
    (hs : s.step cfg ignore e = some t) : ProbesExact cfg t := by
  rcases BreakerSystem.step_cases hs with ⟨now, rfl, rfl⟩ | ⟨rfl, rfl⟩ |
    ⟨rfl, b, hb, rfl⟩ | ⟨rfl, err, rfl, _⟩ | ⟨c, o, rfl, hc, rfl⟩ | ⟨rfl, rfl⟩
  · exact ProbesExact.of_count fun hho => ⟨(h hho).1, (h hho).2.1⟩
  · exact h.effective hf
  · exact h.admitted hf hb
  · exact h.effective hf
  · exact h.completed hc hok
  · exact ProbesExact.of_ne (by simp [CircuitBreaker.reset, CircuitBreaker.close])

/-- The converse: a completion that is not slot-safe leaves an exact counter
inexact. -/
theorem ProbesExact.slotSafe {s t : BreakerSystem} {e : BreakerEvent E}
    (h : ProbesExact cfg s) (hs : s.step cfg ignore e = some t)
    (hpost : ProbesExact cfg t) : SlotSafe cfg ignore s e := by
  intro c o he hho
  subst he
  obtain ⟨hc, rfl⟩ := BreakerSystem.step_complete hs
  obtain ⟨heq, _, _⟩ := h hho
  -- Both failures leave the state half-open, so the counter must be exact
  -- there, and it is off by the slot that was kept or given away.
  have hexact : (s.breaker.finishCall cfg s.now (ending ignore o)).state = .halfOpen →
      (s.breaker.halfOpenCalls - if ending ignore o = .escaped then 0 else 1) =
        s.probes.length - if s.Stale c then 0 else 1 := by
    intro hst
    have hcalls := (CircuitBreaker.finishCall_stays hst).2.2.2
    rw [← probes_completed hc (hst.trans hho.symm), ← hcalls]
    exact (hpost hst).1
  refine ⟨fun hown hend => ?_, fun hstale => ?_⟩
  · have hoff := hexact (by rw [hend]; exact hho)
    rw [if_pos hend, if_neg hown] at hoff
    have hpos := probes_pos hc hown
    omega
  · cases hend : ending ignore o with
    | failure => exact .inl rfl
    | escaped => exact .inr (.inl rfl)
    | success =>
        rcases CircuitBreaker.recordSuccess_halfOpen cfg hho with ⟨_, hr⟩ | ⟨hmet, _⟩
        · have hoff := hexact (by rw [hend, CircuitBreaker.finishCall, hr]; exact hho)
          rw [if_neg (by simp [hend]), if_pos hstale] at hoff
          exact .inr (.inr (.inl (by omega)))
        · exact .inr (.inr (.inr ⟨rfl, hmet⟩))
    | ignored =>
        have hoff := hexact (by
          rw [hend]
          exact (CircuitBreaker.releaseHalfOpenSlot_facts s.breaker).1.trans hho)
        rw [if_neg (by simp [hend]), if_pos hstale] at hoff
        exact .inr (.inr (.inl (by omega)))

/-! ## The theorem -/

/-- **The half-open counter is exact at every state of a run exactly when
every completion of the run is slot-safe.** -/
theorem probesExact_iff {E : Type} {cfg : BreakerConfig}
    {ignore : Option (E → Option Bool)} {start : ℚ} {tr : List (BreakerStep E)}
    {t : BreakerSystem}
    (hrun : Run (BreakerSystem.step cfg ignore) { now := start } tr t) :
    (∀ x ∈ tr, ProbesExact cfg x.post) ↔
      ∀ x ∈ tr, SlotSafe cfg ignore x.pre x.event := by
  have hinit : ProbesExact cfg { now := start } := ProbesExact.of_ne (by simp)
  constructor
  · intro hall x hx
    obtain ⟨hist, rest, rfl⟩ := List.append_of_mem hx
    obtain ⟨hpre, hs⟩ := hrun.cut rfl
    have hexact : ProbesExact cfg x.pre := by
      rcases hpre.last_mem with heq | ⟨y, hy, heq⟩
      · rw [heq]
        exact hinit
      · rw [← heq]
        exact hall y (List.mem_append_left _ hy)
    exact hexact.slotSafe hs (hall x hx)
  · intro hok x hx
    obtain ⟨hist, rest, rfl⟩ := List.append_of_mem hx
    obtain ⟨hpre, hs⟩ := hrun.cut rfl
    have hinv : ProbesExact cfg x.pre ∧ NoFuture x.pre :=
      hpre.invariant_of (fun _ s => ProbesExact cfg s ∧ NoFuture s)
        (SlotSafe cfg ignore) ⟨hinit, fun c hc => by cases hc⟩
        (fun _ _ _ _ h hc hstep => ⟨h.1.step h.2 hc hstep, h.2.step hstep⟩)
        (fun y hy => hok y (List.mem_append_left _ hy))
    exact hinv.1.step hinv.2 (hok x hx) hs

/-- A breaker that half-opens at once and lets one probe through at a
time. -/
def eager : BreakerConfig where
  name := "api"
  failureThreshold := 1
  recoveryTimeout := 0
  halfOpenMaxCalls := 1
  successThreshold := 1
  failureThreshold_pos := Nat.one_pos
  recoveryTimeout_nonneg := le_refl 0
  halfOpenMaxCalls_pos := Nat.one_pos
  successThreshold_pos := Nat.one_pos

/-- The eager breaker just after its only probe was admitted. -/
def probing : BreakerSystem where
  breaker := { state := .halfOpen, failureCount := 1, halfOpenCalls := 1 }
  period := 2
  nextId := 2
  inFlight := [⟨1, 2⟩]

/-- One call fails and opens the breaker, the next one half-opens it. -/
theorem eager_probing :
    ∃ tr, Run (BreakerSystem.step eager (none : Option (Unit → Option Bool)))
      { now := 0 } tr probing ∧ tr.length = 3 ∧
      ∀ x ∈ tr, SlotSafe eager (none : Option (Unit → Option Bool)) x.pre x.event := by
  have h0 : Run (BreakerSystem.step eager (none : Option (Unit → Option Bool)))
      { now := 0 } [] { now := 0 } := Run.nil
  have hrun := (h0.snoc (e := .admitCall) rfl).snoc (e := .complete ⟨0, 0⟩ (.exception ())) rfl
  refine ⟨_, hrun.snoc (e := .admitCall) (by decide +kernel), rfl, ?_⟩
  intro x hx c o he hho
  simp only [List.nil_append, List.cons_append, List.mem_cons, List.not_mem_nil,
    or_false] at hx
  rcases hx with rfl | rfl | rfl
  · cases he
  · cases hho
  · cases he

/-- The only probe is interrupted from the keyboard: the breaker stays
half-open with its one slot taken and nobody in flight. -/
theorem interrupted_probe_wedges :
    ∃ tr t, Run (BreakerSystem.step eager (none : Option (Unit → Option Bool)))
      { now := 0 } tr t ∧ t.inFlight = [] ∧ t.breaker.state = .halfOpen ∧
      (t.breaker.admitCall eager t.now).2 = some ⟨"api", 0, .halfOpenExhausted⟩ ∧
      ¬ ∀ x ∈ tr, ProbesExact eager x.post := by
  obtain ⟨tr, hrun, _, _⟩ := eager_probing
  refine ⟨_, _, hrun.snoc (e := .complete ⟨1, 2⟩ .baseException) rfl, rfl, rfl,
    by decide, ?_⟩
  intro hall
  have hlast := hall _ (List.mem_append_right _ (List.mem_singleton_self _))
  exact absurd (hlast rfl).1 (by decide)

/-- The same run with a probe that returns: every completion is slot-safe,
so the counter was exact throughout. -/
theorem probesExact_iff_returned :
    ∃ tr t, Run (BreakerSystem.step eager (none : Option (Unit → Option Bool)))
      { now := 0 } tr t ∧ tr.length = 4 ∧ ∀ x ∈ tr, ProbesExact eager x.post := by
  obtain ⟨tr, hrun, hlen, hok⟩ := eager_probing
  have hrun' := hrun.snoc (e := .complete ⟨1, 2⟩ .returned) rfl
  refine ⟨_, _, hrun', by simp [hlen], (probesExact_iff hrun').mpr ?_⟩
  intro x hx
  rcases List.mem_append.mp hx with hx | hx
  · exact hok x hx
  · obtain rfl := List.mem_singleton.mp hx
    intro c o he _
    obtain ⟨rfl, rfl⟩ : (⟨1, 2⟩ : Call) = c ∧ CallOutcome.returned = o := by simpa using he
    exact ⟨fun _ => by decide, fun hstale => absurd rfl hstale⟩

end Hephaestus.Resilience
