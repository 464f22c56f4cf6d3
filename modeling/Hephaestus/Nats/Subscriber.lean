import Mathlib.Data.Finset.Insert
import Hephaestus.Lib.JsonReader
import Hephaestus.Lib.Run
import Hephaestus.Resilience.CircuitBreaker

/-!
# The NATS subscriber

`hephaestus/nats/subscriber.py`: one subscriber thread, any number of calls of
`stop` and the JetStream server it talks to. Where the thread stands is a
`Position`, one for each lock section of `run` and `_subscribe_loop`, each await
and each place where control turns; a call of `stop` has positions of its own.
`step` takes one of them one step on, so that a run is an interleaving.

What the server does is its answers: which message an await delivers, whether
an acknowledgement reached it, at which await the connection breaks. A
durable consumer delivers what its subject filter matches and no acknowledgement
of that consumer has reached the server for, as often as it likes.

The metrics a registry is given repeat the record and are not modelled, nor is
the length of a wait.
-/

namespace Hephaestus.Nats

open Hephaestus.Lib JsonReader Resilience

/-- `SubscriberState`. -/
inductive SubscriberState
  | initializing
  | connected
  | disconnected
  | stopping
  | stopped
  | error
  deriving DecidableEq, Repr

/-- `_ErrorKind`. -/
inductive ErrorKind
  | connectionError
  | handlerError
  | circuitBreakerOpen
  | terminalError
  | shutdownTimeout
  deriving DecidableEq, Repr

/-- The exceptions a subscriber meets, by where they come from. -/
inductive PyException
  /-- Out of an await of the client: the connection is gone. -/
  | connection
  /-- Out of `json.loads`, where it is no JSONDecodeError. -/
  | payload (e : LoadError)
  /-- Out of the event loop's creation or the wait between two attempts. -/
  | runtime
  | handler
  | circuitBreakerOpen
  | joinTimeout
  deriving DecidableEq, Repr

/-- The fields of `NATSSubscriberThread` that change. -/
structure Subscriber where
  state : SubscriberState := .initializing
  lastError : Option PyException := none
  lastErrorKind : Option ErrorKind := none
  lastMessageAt : Option ℚ := none
  stopEvent : Bool := false
  circuitBreaker : CircuitBreaker := {}
  deriving DecidableEq

namespace Subscriber

variable (sub : Subscriber)

/-- `_set_state`. -/
def setState (newState : SubscriberState) : Subscriber :=
  { sub with state := newState }

/-- `_record_error`. -/
def recordError (e : PyException) : Subscriber :=
  { sub with
    lastError := some e
    lastErrorKind := some .connectionError
    state := .disconnected }

/-- `_record_terminal_error`. -/
def recordTerminalError (e : PyException) (kind : ErrorKind) : Subscriber :=
  { sub with lastError := some e, lastErrorKind := some kind, state := .error }

/-- `_record_message`. -/
def recordMessage (now : ℚ) : Subscriber :=
  { sub with lastMessageAt := some now }

/-- `_record_handler_error`. -/
def recordHandlerError (e : PyException) : Subscriber :=
  { sub with lastError := some e, lastErrorKind := some .handlerError }

end Subscriber

/-- The fields of `NATSConfig` the loop reads. -/
structure NATSConfig where
  subjects : List String := []
  maxBackoffSeconds : ℚ := 60
  maxBackoffSeconds_pos : 0 < maxBackoffSeconds := by decide

/-- `self._config.subjects or ["hi.tasks.>"]`. -/
def NATSConfig.filters (config : NATSConfig) : List String :=
  if config.subjects = [] then ["hi.tasks.>"] else config.subjects

/-- The breaker `__init__` builds. -/
def NATSConfig.breaker (config : NATSConfig) : BreakerConfig where
  name := "nats-subscriber"
  failureThreshold := 5
  recoveryTimeout := config.maxBackoffSeconds
  halfOpenMaxCalls := 1
  successThreshold := 1
  failureThreshold_pos := by decide
  recoveryTimeout_nonneg := config.maxBackoffSeconds_pos.le
  halfOpenMaxCalls_pos := by decide
  successThreshold_pos := by decide

/-- What the loop reads of a message. -/
structure Msg where
  subject : String
  data : List UInt8
  headers : Option (Dict String String) := none

/-- `NATSEvent`. -/
structure NATSEvent where
  subject : String
  data : Value
  timestamp : String
  sequence : Nat

/-- The server: the message at each place of the stream, and the matching of a
subject against the filter of a consumer. -/
structure Jetstream where
  message : Nat → Msg
  matchesFilter : String → String → Bool

/-- `json.loads(msg.data.decode())`. Bytes that are no UTF-8 raise
UnicodeDecodeError, which the loop treats as a JSONDecodeError. -/
def decodeData (py : Interpreter) (data : List UInt8) : Except LoadError Value :=
  match String.fromUTF8? data.toByteArray with
  | none => .error .jsonDecodeError
  | some text => loads py text.toList

/-- The event built from a message. -/
def Msg.event (msg : Msg) (data : Value) (sequence : Nat) : NATSEvent where
  subject := msg.subject
  data := data
  timestamp :=
    match msg.headers with
    | some headers => (headers.get? "Nats-Time-Stamp").getD ""
    | none => ""
  sequence := sequence

/-- Where the subscriber thread stands. `consumer` and `sequence` name the message
in hand. -/
inductive Position
  | created
  /-- At the `while` of `run`. -/
  | loopHead
  /-- Creating an event loop, then at the breaker. -/
  | entering
  /-- At the breaker's `except`, `_record_terminal_error` ahead. -/
  | rejected
  | importing
  /-- At the await of `connect`. -/
  | connecting
  /-- Connected, `_set_state(CONNECTED)` ahead. -/
  | connected
  /-- In the `try` of `_subscribe_loop`: at an await or the top of the `while`. -/
  | polling
  | received (consumer sequence : Nat)
  /-- In the handler. -/
  | handling (consumer sequence : Nat)
  /-- The handler is done, and its outcome to be recorded. -/
  | handled (consumer sequence : Nat) (raised : Bool)
  /-- At the await of `ack`. -/
  | acking (consumer sequence : Nat)
  /-- In the `finally`, `_set_state(DISCONNECTED)` ahead. -/
  | leaving (o : CallOutcome PyException)
  /-- At the await of `drain`. -/
  | draining (o : CallOutcome PyException)
  /-- `_subscribe_loop` is over, the breaker's second lock section ahead. -/
  | finishing (o : CallOutcome PyException)
  /-- At the inner `except Exception` of `run`. -/
  | caught (e : PyException)
  /-- `_record_error` ahead. -/
  | recording (e : PyException)
  /-- Reading the breaker's state. -/
  | recorded (e : PyException)
  /-- The breaker has opened, `_record_terminal_error` ahead. -/
  | opening (e : PyException)
  /-- In the backoff. -/
  | waiting
  /-- At the outer `except Exception`, `_record_terminal_error` ahead. -/
  | failing (e : PyException)
  /-- `_set_state(STOPPED)` ahead. -/
  | closing
  /-- `run` is over, the thread not yet. -/
  | exiting
  | ended
  /-- A BaseException has left `run`. -/
  | died
  deriving DecidableEq

/-- Where a call of `stop` stands after its first lock section. -/
inductive StopPosition
  | signalling
  /-- At the first `is_alive`. -/
  | checking
  | joining
  /-- At the second `is_alive`. -/
  | rechecking
  /-- `_record_terminal_error` ahead. -/
  | timedOut
  | returned (value : Bool)
  | raised
  deriving DecidableEq, Repr

/-- A subscriber, its thread, the calls of `stop` made so far, what the server
has acknowledged and what the handler was called with. -/
structure System where
  subscriber : Subscriber := {}
  thread : Position := .created
  stops : List StopPosition := []
  acked : Finset (Nat × Nat) := ∅
  calls : List NATSEvent := []

inductive Event
  | start
  /-- The thread goes on; an await it stands at has come back. -/
  | proceed (now : ℚ)
  /-- What the thread stands at raises an exception. -/
  | fails
  /-- It raises a BaseException. -/
  | dies
  /-- nats-py is not installed. -/
  | importFails
  | delivers (consumer sequence : Nat)
  | handlerEnds (o : CallOutcome Unit)
  /-- The await of `ack` is over: whether the server has got it, and whether the
  await raised. -/
  | acks (reached raised : Bool)
  /-- A call of `stop`, through its first lock section. -/
  | stop
  | stopProceeds (k : Nat)
  /-- `join` raises: the call is the handler's own. -/
  | joinRaises (k : Nat)
  deriving DecidableEq

namespace System

variable (config : NATSConfig) (py : Interpreter) (js : Jetstream) (s : System)

/-- `is_alive`. -/
def isAlive : Bool :=
  match s.thread with
  | .created | .ended | .died => false
  | _ => true

/-- The thread goes to another position. -/
def goto (p : Position) : System :=
  { s with thread := p }

/-- The thread ends a lock section with another record, and goes on. -/
def store (sub : Subscriber) (p : Position) : System :=
  { s with subscriber := sub, thread := p }

/-- The breaker's record after a lock section of its own. -/
def breakerStore (b : CircuitBreaker) (p : Position) : System :=
  s.store { s.subscriber with circuitBreaker := b } p

/-- A message that an await of `next_msg` can return. -/
def deliverable (consumer sequence : Nat) : Bool :=
  match config.filters[consumer]? with
  | some pattern =>
      js.matchesFilter pattern (js.message sequence).subject &&
        decide ((consumer, sequence) ∉ s.acked)
  | none => false

/-- From `next_msg` to the handler: what does not decode goes to the
acknowledgement, and what `json.loads` raises else leaves the loop. -/
def receive (consumer sequence : Nat) : System :=
  match decodeData py (js.message sequence).data with
  | .error .jsonDecodeError => s.goto (.acking consumer sequence)
  | .error e => s.goto (.leaving (.exception (.payload e)))
  | .ok data =>
      { s with
        calls := s.calls ++ [(js.message sequence).event data sequence]
        thread := .handling consumer sequence }

/-- The breaker's second lock section, and the way back into `run`. -/
def finish (now : ℚ) (o : CallOutcome PyException) : System :=
  s.breakerStore (s.subscriber.circuitBreaker.finishCall config.breaker now (ending none o))
    (match o with
      | .returned => .loopHead
      | .exception e => .caught e
      | .baseException => .died)

/-- One step of the thread that needs no answer. -/
def proceed (now : ℚ) : Option System :=
  match s.thread with
  | .created | .handling _ _ | .acking _ _ | .ended | .died => none
  | .loopHead => some (s.goto (if s.subscriber.stopEvent then .closing else .entering))
  | .entering =>
      match s.subscriber.circuitBreaker.admitCall config.breaker now with
      | (b, none) => some (s.breakerStore b .importing)
      | (b, some _) => some (s.breakerStore b .rejected)
  | .rejected =>
      some (s.store
        (s.subscriber.recordTerminalError .circuitBreakerOpen .circuitBreakerOpen) .exiting)
  | .importing => some (s.goto .connecting)
  | .connecting => some (s.goto .connected)
  | .connected => some (s.store (s.subscriber.setState .connected) .polling)
  | .polling => some (s.goto (if s.subscriber.stopEvent then .leaving .returned else .polling))
  | .received consumer sequence => some (s.receive py js consumer sequence)
  | .handled consumer sequence true =>
      some (s.store (s.subscriber.recordHandlerError .handler) (.acking consumer sequence))
  | .handled consumer sequence false =>
      some (s.store (s.subscriber.recordMessage now) (.acking consumer sequence))
  | .leaving o => some (s.store (s.subscriber.setState .disconnected) (.draining o))
  | .draining o => some (s.goto (.finishing o))
  | .finishing o => some (s.finish config now o)
  | .caught e => some (s.goto (if s.subscriber.stopEvent then .closing else .recording e))
  | .recording e => some (s.store (s.subscriber.recordError e) (.recorded e))
  | .recorded e =>
      let b := s.subscriber.circuitBreaker.effectiveState config.breaker now
      some (s.breakerStore b (if b.state = .opened then .opening e else .waiting))
  | .opening e =>
      some (s.store (s.subscriber.recordTerminalError e .connectionError) .exiting)
  | .waiting => some (s.goto .loopHead)
  | .failing e =>
      some (s.store (s.subscriber.recordTerminalError e .terminalError) .exiting)
  | .closing => some (s.store (s.subscriber.setState .stopped) .exiting)
  | .exiting => some (s.goto .ended)

/-- What the thread stands at raises. -/
def fail : Option System :=
  match s.thread with
  | .entering => some (s.goto (.caught .runtime))
  | .connecting => some (s.goto (.finishing (.exception .connection)))
  | .polling => some (s.goto (.leaving (.exception .connection)))
  | .draining _ => some (s.goto (.finishing (.exception .connection)))
  | .waiting => some (s.goto (.failing .runtime))
  | _ => none

/-- What the thread stands at raises what `except Exception` does not catch. -/
def die : Option System :=
  match s.thread with
  | .connecting => some (s.goto (.finishing .baseException))
  | .polling | .acking _ _ => some (s.goto (.leaving .baseException))
  | .draining _ => some (s.goto (.finishing .baseException))
  | .entering | .waiting => some (s.goto .died)
  | _ => none

/-- The handler comes back. -/
def handlerEnd (o : CallOutcome Unit) : Option System :=
  match s.thread with
  | .handling consumer sequence =>
      some (s.goto (match o with
        | .returned => .handled consumer sequence false
        | .exception () => .handled consumer sequence true
        | .baseException => .leaving .baseException))
  | _ => none

/-- The await of `ack` comes back. -/
def acknowledge (reached raised : Bool) : Option System :=
  match s.thread with
  | .acking consumer sequence =>
      let s := if reached then { s with acked := insert (consumer, sequence) s.acked } else s
      some (s.goto (if raised then .leaving (.exception .connection) else .polling))
  | _ => none

/-- The next step of a call of `stop`: the record and the position it leaves. -/
def stopStep : StopPosition → Option (Subscriber × StopPosition)
  | .signalling => some ({ s.subscriber with stopEvent := true }, .checking)
  | .checking => some (s.subscriber, if s.isAlive then .joining else .returned true)
  | .joining => some (s.subscriber, .rechecking)
  | .rechecking => some (s.subscriber, if s.isAlive then .timedOut else .returned true)
  | .timedOut =>
      some (s.subscriber.recordTerminalError .joinTimeout .shutdownTimeout, .returned false)
  | .returned _ | .raised => none

/-- One step of the system; `none` where the event cannot happen. -/
def step : Event → Option System
  | .start => if s.thread = .created then some (s.goto .loopHead) else none
  | .proceed now => s.proceed config py js now
  | .fails => s.fail
  | .dies => s.die
  | .importFails =>
      if s.thread = .importing then
        some (s.store { s.subscriber with stopEvent := true } (.finishing .returned))
      else none
  | .delivers consumer sequence =>
      if s.thread = .polling ∧ s.deliverable config js consumer sequence = true then
        some (s.goto (.received consumer sequence))
      else none
  | .handlerEnds o => s.handlerEnd o
  | .acks reached raised => s.acknowledge reached raised
  | .stop =>
      some { s with
        subscriber := s.subscriber.setState .stopping
        stops := s.stops ++ [.signalling] }
  | .stopProceeds k =>
      (s.stops[k]?.bind s.stopStep).map fun next =>
        { s with subscriber := next.1, stops := s.stops.set k next.2 }
  | .joinRaises k =>
      if s.stops[k]? = some .joining then some { s with stops := s.stops.set k .raised } else none

end System

end Hephaestus.Nats
