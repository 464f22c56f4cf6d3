import Mathlib.Algebra.Order.Ring.Rat
import Hephaestus.Lib.Json
import Hephaestus.Lib.Run

/-!
# The cross-process throttle

`gh_global_throttle_acquire` of `hephaestus/github/rate_limit.py`: a token
bucket for all processes of the machine, kept in a small JSON file under
`fcntl.flock`. Every process goes through the same steps, one at a time and
in any order the lock allows: open the file, take the lock, read, look at the
clock and compute, truncate, `json.dump` into the buffer of the file object,
drop the lock, and only then, when the `with` block closes the file, flush
the buffer. The clock moves between any two of them.

Times and tokens are rationals. The text of a number is left to `json`, of
which the code needs that it reads back the one document it writes.

A file that does not exist is one that is empty: opening it creates it. The
acquisitions made so far are kept beside the state, each with the time the
clock showed when the token was taken and the time the call returned.
-/

namespace Hephaestus.Github

open Hephaestus.Lib

/-! ## The state file -/

/-- What the throttle writes. -/
def throttleDocument (tokens updated : ℚ) : Json :=
  .obj [("tokens", .float (.finite tokens)), ("updated", .float (.finite updated))]

/-- `json`, as far as the throttle uses it. `loads` answers nothing where the
library raises `JSONDecodeError`. -/
structure JsonText where
  dumps : Json → List Char
  loads : List Char → Option Json
  loads_dumps : ∀ tokens updated,
    loads (dumps (throttleDocument tokens updated)) = some (throttleDocument tokens updated)
  dumps_ne_nil : ∀ tokens updated, dumps (throttleDocument tokens updated) ≠ []

/-- What `configure_gh_global_throttle` accepts and does not disable. -/
structure ThrottleConfig where
  rate : ℚ
  burst : ℚ
  rate_pos : 0 < rate
  one_le_burst : 1 ≤ burst

/-- `_load_persisted_throttle_number`. -/
def loadPersistedThrottleNumber : Option Json → Option ℚ
  | some (.int n) => some n
  | some (.float (.finite q)) => some q
  | _ => none

/-- `_load_persisted_throttle_state`: the tokens and the time of the last
update. -/
def loadPersistedThrottleState (json : JsonText) (raw : List Char) (burst now : ℚ) : ℚ × ℚ :=
  if raw = [] then (burst, 0)
  else
    match json.loads raw with
    | none => (0, now)
    | some state =>
        if state.asObj?.isNone then (0, now)
        else
          match loadPersistedThrottleNumber (state.get? "tokens"),
            loadPersistedThrottleNumber (state.get? "updated") with
          | some tokens, some updated =>
              if tokens < 0 ∨ burst < tokens then (0, now)
              else if updated < 0 ∨ now < updated then (0, now)
              else (tokens, updated)
          | _, _ => (0, now)

/-- The tokens there are, before one is taken. -/
def refilled (json : JsonText) (config : ThrottleConfig) (raw : List Char) (now : ℚ) : ℚ :=
  let (tokens, updated) := loadPersistedThrottleState json raw config.burst now
  let updated := if updated ≤ 0 then now else updated
  min config.burst (tokens + (now - updated) * config.rate)

/-! ## Processes -/

/-- What a process has made of what it read: what it writes, and how long it
then waits. `ticket` is the place of its acquisition, if it took a token. -/
structure Settled where
  tokens : ℚ
  now : ℚ
  wait : ℚ
  ticket : Nat
  deriving DecidableEq

/-- Where a process is in the call. -/
inductive Phase
  | idle
  | looping
  | opened
  | locked
  | read (raw : List Char)
  | computed (settled : Settled)
  | truncated (settled : Settled)
  | dumped (settled : Settled) (buffer : List Char)
  | unlocked (settled : Settled) (buffer : List Char)
  | closed (settled : Settled)
  | pausing
  deriving DecidableEq

/-- A token taken: what the clock showed, and when the call returned. -/
structure Acquisition where
  granted : ℚ
  returned : Option ℚ := none
  deriving DecidableEq

structure ThrottleState where
  file : List Char
  now : ℚ
  lock : Option Nat := none
  phase : Nat → Phase := fun _ => .idle
  acquisitions : List Acquisition := []

namespace ThrottleState

/-- Process `p` goes on to `phase`. -/
def goto (s : ThrottleState) (p : Nat) (phase : Phase) : ThrottleState :=
  { s with phase := Function.update s.phase p phase }

/-- `tokens` and `wait` from what was read and what the clock shows; the
acquisition is noted as the token is taken. -/
def compute (json : JsonText) (config : ThrottleConfig) (s : ThrottleState) (p : Nat)
    (raw : List Char) : ThrottleState :=
  let tokens := refilled json config raw s.now
  if 1 ≤ tokens then
    { s with acquisitions := s.acquisitions ++ [Acquisition.mk s.now none] }.goto p
      (.computed ⟨tokens - 1, s.now, 0, s.acquisitions.length⟩)
  else
    s.goto p (.computed ⟨tokens, s.now, (1 - tokens) / config.rate, s.acquisitions.length⟩)

/-- The buffer goes to the start of the file, over whatever is there. -/
def flush (s : ThrottleState) (buffer : List Char) : ThrottleState :=
  { s with file := buffer ++ s.file.drop buffer.length }

/-- The call returns. -/
def returns (s : ThrottleState) (p : Nat) (ticket : Nat) : ThrottleState :=
  { s with
    acquisitions := s.acquisitions.modify ticket fun a => { a with returned := some s.now } }.goto
      p .idle

/-- The next step of process `p`; `none` where it has to wait for the lock. -/
def act (json : JsonText) (config : ThrottleConfig) (s : ThrottleState) (p : Nat) :
    Option ThrottleState :=
  match s.phase p with
  | .idle => some (s.goto p .looping)
  | .looping => some (s.goto p .opened)
  | .opened => if s.lock = none then some ({ s with lock := some p }.goto p .locked) else none
  | .locked => some (s.goto p (.read s.file))
  | .read raw => some (s.compute json config p raw)
  | .computed settled => some ({ s with file := [] }.goto p (.truncated settled))
  | .truncated settled =>
      some (s.goto p (.dumped settled
        (json.dumps (throttleDocument settled.tokens settled.now))))
  | .dumped settled buffer => some ({ s with lock := none }.goto p (.unlocked settled buffer))
  | .unlocked settled buffer => some ((s.flush buffer).goto p (.closed settled))
  | .closed settled =>
      if settled.wait ≤ 0 then some (s.returns p settled.ticket) else some (s.goto p .pausing)
  | .pausing => some (s.goto p .looping)

/-- `_throttle_remaining` raises, at one of the places that call it. -/
def raises (s : ThrottleState) (p : Nat) : Option ThrottleState :=
  match s.phase p with
  | .looping => some (s.goto p .idle)
  | .opened => some (s.goto p .idle)
  | .locked => some ({ s with lock := none }.goto p .idle)
  | .pausing => some (s.goto p .idle)
  | _ => none

end ThrottleState

/-- What can happen next. -/
inductive ThrottleEvent
  /-- The clock moves on. -/
  | tick (d : ℚ)
  | act (p : Nat)
  /-- The deadline of the call is over, or a shutdown was requested. -/
  | raises (p : Nat)

def ThrottleState.step (json : JsonText) (config : ThrottleConfig) (s : ThrottleState) :
    ThrottleEvent → Option ThrottleState
  | .tick d => if 0 ≤ d then some { s with now := s.now + d } else none
  | .act p => s.act json config p
  | .raises p => s.raises p

/-- No process is in a call. -/
def ThrottleState.initial (file : List Char) (now : ℚ) : ThrottleState := { file, now }

end Hephaestus.Github
