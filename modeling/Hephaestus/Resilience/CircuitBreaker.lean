import Mathlib.Data.Rat.Defs
import Mathlib.Algebra.Order.Ring.Rat
import Hephaestus.Lib.Run

/-!
# The circuit breaker

`hephaestus/resilience/circuit_breaker.py`. The breaker is a record of five
fields behind one lock. A call takes the lock twice: once to be admitted,
once to report how it ended, with the guarded function running outside the
lock in between. Each lock section is a function on the record here, and
`step` interleaves the sections of any number of calls with clock advances,
state reads and resets.

The record does not remember which period a call was admitted in. The
system around it does: `period` counts the changes of `state`, and an
admitted call carries the period it was admitted in. Nothing in the
breaker's own functions reads either.
-/

namespace Hephaestus.Resilience

open Hephaestus.Lib

/-- `CircuitBreakerState`. -/
inductive CircuitBreakerState
  | closed
  | opened
  | halfOpen
  deriving DecidableEq, Repr

/-- `CircuitBreakerOpenReason`. -/
inductive CircuitBreakerOpenReason
  | recoveryTimeout
  | halfOpenExhausted
  deriving DecidableEq, Repr

/-- `CircuitBreakerOpenError`: the fields a caller can read off it. -/
structure CircuitBreakerOpenError where
  name : String
  timeUntilRecovery : ℚ
  reason : CircuitBreakerOpenReason
  deriving DecidableEq

/-- The parameters of a breaker that passed the checks of `__init__`. -/
structure BreakerConfig where
  name : String
  failureThreshold : Nat
  recoveryTimeout : ℚ
  halfOpenMaxCalls : Nat
  successThreshold : Nat
  failureThreshold_pos : 0 < failureThreshold
  recoveryTimeout_nonneg : 0 ≤ recoveryTimeout
  halfOpenMaxCalls_pos : 0 < halfOpenMaxCalls
  successThreshold_pos : 0 < successThreshold

/-- The positivity check `__init__` runs over its three integer parameters. -/
def positiveInteger (parameter : String) (value : Int) :
    Except String { n : Nat // 0 < n } :=
  if h : 0 < value.toNat then .ok ⟨value.toNat, h⟩
  else .error (parameter ++ " must be a positive integer")

/-- `CircuitBreaker.__init__`: validation only. A finite float is a
rational, so the finiteness test has nothing left to reject here. -/
def BreakerConfig.init (name : String) (failureThreshold : Int) (recoveryTimeout : ℚ)
    (halfOpenMaxCalls successThreshold : Int) : Except String BreakerConfig := do
  let ft ← positiveInteger "failure_threshold" failureThreshold
  let hm ← positiveInteger "half_open_max_calls" halfOpenMaxCalls
  let st ← positiveInteger "success_threshold" successThreshold
  if hr : 0 ≤ recoveryTimeout then
    .ok ⟨name, ft.1, recoveryTimeout, hm.1, st.1, ft.2, hr, hm.2, st.2⟩
  else
    .error "recovery_timeout must be a finite non-negative number"

/-- The mutable fields of `CircuitBreaker`. -/
structure CircuitBreaker where
  state : CircuitBreakerState := .closed
  failureCount : Nat := 0
  lastFailureTime : ℚ := 0
  halfOpenCalls : Nat := 0
  halfOpenSuccesses : Nat := 0
  deriving DecidableEq

namespace CircuitBreaker

variable (cfg : BreakerConfig)

/-- `_effective_state`: the record after the lazy move to half-open; the
state it returns is the record's own. -/
def effectiveState (now : ℚ) (b : CircuitBreaker) : CircuitBreaker :=
  if b.state = .opened ∧ cfg.recoveryTimeout ≤ now - b.lastFailureTime then
    { b with state := .halfOpen, halfOpenCalls := 0, halfOpenSuccesses := 0 }
  else b

/-- The first lock section of `call`: the record it leaves, and the error
it raises when the call is not admitted. -/
def admitCall (now : ℚ) (b : CircuitBreaker) :
    CircuitBreaker × Option CircuitBreakerOpenError :=
  let b := effectiveState cfg now b
  match b.state with
  | .opened =>
      let timeUntil := cfg.recoveryTimeout - (now - b.lastFailureTime)
      (b, some ⟨cfg.name, max 0 timeUntil, .recoveryTimeout⟩)
  | .halfOpen =>
      if cfg.halfOpenMaxCalls ≤ b.halfOpenCalls then
        (b, some ⟨cfg.name, 0, .halfOpenExhausted⟩)
      else ({ b with halfOpenCalls := b.halfOpenCalls + 1 }, none)
  | .closed => (b, none)

/-- `_release_half_open_slot`. -/
def releaseHalfOpenSlot (b : CircuitBreaker) : CircuitBreaker :=
  if b.state = .halfOpen ∧ 0 < b.halfOpenCalls then
    { b with halfOpenCalls := b.halfOpenCalls - 1 }
  else b

/-- The tail of `_record_success`, shared by the state that never was
half-open and the one that just met its threshold. -/
def close (b : CircuitBreaker) : CircuitBreaker :=
  { b with state := .closed, failureCount := 0, halfOpenCalls := 0, halfOpenSuccesses := 0 }

/-- `_record_success`. -/
def recordSuccess (b : CircuitBreaker) : CircuitBreaker :=
  if b.state = .halfOpen then
    let b := { b with
      halfOpenCalls := b.halfOpenCalls - 1
      halfOpenSuccesses := b.halfOpenSuccesses + 1 }
    if b.halfOpenSuccesses < cfg.successThreshold then b else b.close
  else b.close

/-- `_record_failure`. -/
def recordFailure (now : ℚ) (b : CircuitBreaker) : CircuitBreaker :=
  let b := { b with failureCount := b.failureCount + 1, lastFailureTime := now }
  if b.state = .halfOpen then
    { b with halfOpenCalls := b.halfOpenCalls - 1, state := .opened }
  else if cfg.failureThreshold ≤ b.failureCount then { b with state := .opened }
  else b

/-- `reset`. -/
def reset (b : CircuitBreaker) : CircuitBreaker :=
  { b.close with lastFailureTime := 0 }

end CircuitBreaker

/-- How the guarded function came back: `E` is the type of the exceptions a
plain `except Exception` catches. -/
inductive CallOutcome (E : Type)
  | returned
  | exception (e : E)
  | baseException
  deriving DecidableEq

/-- What `call` does with an outcome: which lock section it runs, if any. -/
inductive Ending
  | success
  | failure
  | ignored
  | escaped
  deriving DecidableEq, Repr

/-- The `try`/`except` of `call`. The `ignore` predicate may itself raise
(`none`), and then, as for a `BaseException`, no lock section runs. -/
def ending {E : Type} (ignore : Option (E → Option Bool)) : CallOutcome E → Ending
  | .returned => .success
  | .baseException => .escaped
  | .exception e =>
      match ignore with
      | none => .failure
      | some p =>
          match p e with
          | none => .escaped
          | some true => .ignored
          | some false => .failure

/-- The second half of `call`: the lock section its ending runs. -/
def CircuitBreaker.finishCall (cfg : BreakerConfig) (now : ℚ) (e : Ending)
    (b : CircuitBreaker) : CircuitBreaker :=
  match e with
  | .success => b.recordSuccess cfg
  | .failure => b.recordFailure cfg now
  | .ignored => b.releaseHalfOpenSlot
  | .escaped => b

/-- A call between its two lock sections. -/
structure Call where
  id : Nat
  period : Nat
  deriving DecidableEq, Repr

/-- One breaker with the calls in flight through it and the clock. -/
structure BreakerSystem where
  breaker : CircuitBreaker := {}
  now : ℚ := 0
  period : Nat := 0
  nextId : Nat := 0
  inFlight : List Call := []
  deriving DecidableEq

inductive BreakerEvent (E : Type)
  | tick (now : ℚ)
  | observe
  | admitCall
  | complete (c : Call) (o : CallOutcome E)
  | reset
  deriving DecidableEq

/-- Store the record a lock section left; a period ends when `state`
changes. -/
def BreakerSystem.store (s : BreakerSystem) (b : CircuitBreaker) : BreakerSystem :=
  { s with breaker := b, period := if b.state = s.breaker.state then s.period else s.period + 1 }

/-- A call starts executing, in the period its admission left. -/
def BreakerSystem.begin (s : BreakerSystem) : BreakerSystem :=
  { s with nextId := s.nextId + 1, inFlight := ⟨s.nextId, s.period⟩ :: s.inFlight }

/-- A call is over, however it ended. -/
def BreakerSystem.retire (s : BreakerSystem) (c : Call) : BreakerSystem :=
  { s with inFlight := s.inFlight.erase c }

/-- One atomic step of the system. `none` where the event cannot happen: a
clock that runs backwards, a completion of a call that is not in flight. -/
def BreakerSystem.step {E : Type} (cfg : BreakerConfig) (ignore : Option (E → Option Bool))
    (s : BreakerSystem) : BreakerEvent E → Option BreakerSystem
  | .tick now => if s.now ≤ now then some { s with now := now } else none
  | .observe => some (s.store (s.breaker.effectiveState cfg s.now))
  | .admitCall =>
      match s.breaker.admitCall cfg s.now with
      | (b, none) => some (s.store b).begin
      | (b, some _) => some (s.store b)
  | .complete c o =>
      if c ∈ s.inFlight then
        some ((s.store (s.breaker.finishCall cfg s.now (ending ignore o))).retire c)
      else none
  | .reset => some (s.store s.breaker.reset)

/-- A call of an earlier period: the breaker has changed state since it was
admitted. -/
def BreakerSystem.Stale (s : BreakerSystem) (c : Call) : Prop := c.period ≠ s.period

instance (s : BreakerSystem) (c : Call) : Decidable (s.Stale c) :=
  inferInstanceAs (Decidable (_ ≠ _))

/-- The calls admitted in the period that is still on. -/
def BreakerSystem.probes (s : BreakerSystem) : List Call :=
  s.inFlight.filter fun c => c.period = s.period

end Hephaestus.Resilience
