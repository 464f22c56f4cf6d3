import Hephaestus.Lib.Run

/-!
# The implementation-writer handoff

`implementation_writer.py`: the capability a writer holds while it has the lock. It is
armed with the facts of one checkout transition and with three callbacks of the
transition's journal; the transition is consumed where the checkout is replaced, and
completed once its receipt is written. The context manager issues the handoff active
and clears it when it is left.

Paths come resolved, or not at all where `resolve` raises. Whether a callback raises is
up to it. The log is no part of the source: it records what a statement about a run has
to speak of, which callback got which digest, and what was armed, consumed and
committed.
-/

namespace Hephaestus.Automation

open Hephaestus.Lib

/-- `_WriterTransitionEvidence`; `id` is which object it is. -/
structure WriterTransitionEvidence (P : Type) where
  id : Nat
  path : P
  predecessorGeneration : Int
  predecessorRevision : String
  predecessorDetached : Bool
  predecessorBranch : Option String
  branch : String
  successorRevision : String
  transition : String
  journalDigest : String
  targetRefRevision : Option String
  deriving DecidableEq

/-- What a callback is invoked for. -/
inductive CallbackUse
  | validate
  | phase (name : String)
  | commit
  deriving DecidableEq, Repr

/-- What has happened to a handoff. -/
inductive HandoffEvent (P C : Type)
  | armed (evidence : WriterTransitionEvidence P) (journalValidator phaseWriter commitWriter : C)
  | invoked (use : CallbackUse) (callback : C) (digest : String)
  | consumed (evidence : WriterTransitionEvidence P)
  | committed (evidence : WriterTransitionEvidence P)
  deriving DecidableEq

/-- `_ImplementationWriterHandoff`; `made` counts the evidence objects. -/
structure WriterHandoff (P C : Type) where
  active : Bool := false
  directTransition : Option (WriterTransitionEvidence P) := none
  consumedDirectTransition : Option (WriterTransitionEvidence P) := none
  journalValidator : Option C := none
  phaseWriter : Option C := none
  commitWriter : Option C := none
  made : Nat := 0
  log : List (HandoffEvent P C) := []
  deriving DecidableEq

/-- What a call raises: its own RuntimeError, or what `resolve` or a callback did. -/
inductive HandoffError
  | runtimeError (message : String)
  | raised
  deriving DecidableEq, Repr

def transitionUnavailable : HandoffError :=
  .runtimeError "implementation writer transition is unavailable"

def journalUnavailable : HandoffError :=
  .runtimeError "implementation writer transition journal is unavailable"

/-- The arguments of `_arm_writer_transition`. -/
structure ArmArguments (P C : Type) where
  path : Option P
  predecessorGeneration : Int
  predecessorRevision : String
  predecessorDetached : Bool
  predecessorBranch : Option String
  successorBranch : String
  successorRevision : String
  transition : String
  journalDigest : String
  targetRefRevision : Option String
  journalValidator : C
  phaseWriter : C
  commitWriter : C

/-- The arguments of `_validate_writer_transition` and `_consume_writer_transition`. -/
structure TransitionArguments (P : Type) where
  path : Option P
  predecessorRevision : String
  predecessorDetached : Bool
  predecessorBranch : Option String
  successorBranch : String
  successorRevision : String
  transition : String
  targetRefRevision : Option String

/-- The arguments of `_validate_consumed_writer_transition`; of the evidence it only
matters which object it is. -/
structure ConsumedArguments (P : Type) where
  evidence : Option Nat
  path : Option P
  predecessorGeneration : Int
  predecessorRevision : String
  predecessorDetached : Bool
  predecessorBranch : Option String
  branch : String
  successorRevision : Option String
  transition : String
  journalDigest : Option String

/-- Which callbacks raise in a call. -/
structure CallbackOutcomes where
  validator : Bool := false
  phaseWriter : Bool := false
  commitWriter : Bool := false
  deriving DecidableEq, Repr

variable {P C : Type} [DecidableEq P]

namespace WriterHandoff

def record (h : WriterHandoff P C) (event : HandoffEvent P C) : WriterHandoff P C :=
  { h with log := h.log ++ [event] }

/-- The handoff as the context manager yields it. -/
def issued : WriterHandoff P C := { active := true }

/-- The `finally` of the context manager. -/
def leave (h : WriterHandoff P C) : WriterHandoff P C :=
  { active := false, made := h.made, log := h.log }

/-- `_arm_writer_transition`. -/
def armWriterTransition (h : WriterHandoff P C) (a : ArmArguments P C) :
    Except HandoffError Unit × WriterHandoff P C :=
  if h.active = false ∨ h.directTransition.isSome then
    (.error (.runtimeError "implementation writer direct transition is unavailable"), h)
  else
    match a.path with
    | none => (.error .raised, h)
    | some path =>
        let evidence : WriterTransitionEvidence P :=
          { id := h.made, path, predecessorGeneration := a.predecessorGeneration
            predecessorRevision := a.predecessorRevision
            predecessorDetached := a.predecessorDetached
            predecessorBranch := a.predecessorBranch, branch := a.successorBranch
            successorRevision := a.successorRevision, transition := a.transition
            journalDigest := a.journalDigest, targetRefRevision := a.targetRefRevision }
        (.ok (), { h with
          directTransition := some evidence
          journalValidator := some a.journalValidator
          phaseWriter := some a.phaseWriter
          commitWriter := some a.commitWriter
          made := h.made + 1
          log := h.log ++ [.armed evidence a.journalValidator a.phaseWriter a.commitWriter] })

/-- The message of an invalid transition. -/
def invalidTransition (transition : String) : HandoffError :=
  .runtimeError (if transition = "direct" then "implementation writer direct transition is invalid"
    else "implementation writer transition is invalid")

/-- The comparisons of `_validate_writer_transition`. -/
def meets (evidence : WriterTransitionEvidence P) (path : P) (a : TransitionArguments P) : Bool :=
  evidence.path = path && evidence.predecessorRevision = a.predecessorRevision
    && evidence.predecessorDetached = a.predecessorDetached
    && evidence.predecessorBranch = a.predecessorBranch && evidence.branch = a.successorBranch
    && evidence.successorRevision = a.successorRevision && evidence.transition = a.transition
    && evidence.targetRefRevision = a.targetRefRevision

/-- `_validate_writer_transition`. -/
def validateWriterTransition (h : WriterHandoff P C) (a : TransitionArguments P)
    (outcomes : CallbackOutcomes) : Except HandoffError Unit × WriterHandoff P C :=
  match h.active, h.directTransition with
  | true, some evidence =>
      match a.path with
      | none => (.error .raised, h)
      | some path =>
          if meets evidence path a = false then (.error (invalidTransition a.transition), h)
          else
            match h.journalValidator with
            | none => (.error journalUnavailable, h)
            | some validator =>
                (if outcomes.validator then .error .raised else .ok (),
                  h.record (.invoked .validate validator evidence.journalDigest))
  | _, _ => (.error (invalidTransition a.transition), h)

/-- `_consume_writer_transition`. -/
def consumeWriterTransition (h : WriterHandoff P C) (a : TransitionArguments P)
    (outcomes : CallbackOutcomes) :
    Except HandoffError (WriterTransitionEvidence P) × WriterHandoff P C :=
  match h.validateWriterTransition a outcomes with
  | (.error e, h) => (.error e, h)
  | (.ok (), h) =>
      match h.phaseWriter, h.directTransition with
      | none, _ => (.error journalUnavailable, h)
      | _, none => (.error (.runtimeError "implementation writer transition is invalid"), h)
      | some writer, some evidence =>
          let h := h.record (.invoked (.phase "predecessor_removing") writer evidence.journalDigest)
          if outcomes.phaseWriter then (.error .raised, h)
          else (.ok evidence, { h with
            directTransition := none
            consumedDirectTransition := some evidence }.record (.consumed evidence))

/-- `_mark_transition_phase`. -/
def markTransitionPhase (h : WriterHandoff P C) (phase : String) (outcomes : CallbackOutcomes) :
    Except HandoffError Unit × WriterHandoff P C :=
  match h.active, h.directTransition.or h.consumedDirectTransition with
  | true, some evidence =>
      match h.phaseWriter with
      | none => (.error journalUnavailable, h)
      | some writer =>
          (if outcomes.phaseWriter then .error .raised else .ok (),
            h.record (.invoked (.phase phase) writer evidence.journalDigest))
  | _, _ => (.error transitionUnavailable, h)

/-- `_complete_writer_transition`. -/
def completeWriterTransition (h : WriterHandoff P C) (outcomes : CallbackOutcomes) :
    Except HandoffError Unit × WriterHandoff P C :=
  if h.active = false then (.error transitionUnavailable, h)
  else
    match h.commitWriter with
    | none => (.error journalUnavailable, h)
    | some writer =>
        match h.directTransition.or h.consumedDirectTransition with
        | none => (.error transitionUnavailable, h)
        | some evidence =>
            let h := h.record (.invoked .commit writer evidence.journalDigest)
            if outcomes.commitWriter then (.error .raised, h)
            else (.ok (), { h with
              directTransition := none
              consumedDirectTransition := none
              journalValidator := none
              phaseWriter := none
              commitWriter := none }.record (.committed evidence))

/-- The comparisons of `_validate_consumed_writer_transition`. -/
def meetsConsumed (expected : WriterTransitionEvidence P) (path : P) (a : ConsumedArguments P) :
    Bool :=
  expected.path = path && expected.predecessorGeneration = a.predecessorGeneration
    && expected.predecessorRevision = a.predecessorRevision
    && expected.predecessorDetached = a.predecessorDetached
    && expected.predecessorBranch = a.predecessorBranch && expected.branch = a.branch
    && expected.transition = a.transition && a.journalDigest.all (expected.journalDigest = ·)
    && a.successorRevision.all (expected.successorRevision = ·)

/-- The message of invalid evidence. -/
def invalidEvidence (transition : String) : HandoffError :=
  .runtimeError (if transition = "direct" then
    "implementation writer direct transition evidence is invalid"
    else "implementation writer transition evidence is invalid")

/-- `_validate_consumed_writer_transition`. -/
def validateConsumedWriterTransition (h : WriterHandoff P C) (a : ConsumedArguments P)
    (outcomes : CallbackOutcomes) : Except HandoffError Unit × WriterHandoff P C :=
  match h.active, h.consumedDirectTransition with
  | true, some expected =>
      if a.evidence ≠ some expected.id then (.error (invalidEvidence a.transition), h)
      else
        match a.path with
        | none => (.error .raised, h)
        | some path =>
            if meetsConsumed expected path a = false then
              (.error (invalidEvidence a.transition), h)
            else
              match h.journalValidator with
              | none => (.error journalUnavailable, h)
              | some validator =>
                  (if outcomes.validator then .error .raised else .ok (),
                    h.record (.invoked .validate validator expected.journalDigest))
  | _, _ => (.error (invalidEvidence a.transition), h)

end WriterHandoff

/-- A call of one of the methods, or the end of the context. -/
inductive HandoffCall (P C : Type)
  | arm (a : ArmArguments P C)
  | validate (a : TransitionArguments P) (outcomes : CallbackOutcomes)
  | consume (a : TransitionArguments P) (outcomes : CallbackOutcomes)
  | mark (phase : String) (outcomes : CallbackOutcomes)
  | complete (outcomes : CallbackOutcomes)
  | validateConsumed (a : ConsumedArguments P) (outcomes : CallbackOutcomes)
  | leave

/-- How a call ends, and the handoff it leaves. -/
def HandoffCall.exec (call : HandoffCall P C) (h : WriterHandoff P C) :
    Except HandoffError Unit × WriterHandoff P C :=
  match call with
  | .arm a => h.armWriterTransition a
  | .validate a outcomes => h.validateWriterTransition a outcomes
  | .consume a outcomes =>
      let (result, h) := h.consumeWriterTransition a outcomes
      (result.map fun _ => (), h)
  | .mark phase outcomes => h.markTransitionPhase phase outcomes
  | .complete outcomes => h.completeWriterTransition outcomes
  | .validateConsumed a outcomes => h.validateConsumedWriterTransition a outcomes
  | .leave => (.ok (), h.leave)

/-- Calls may come in any order. -/
def handoffStep (h : WriterHandoff P C) (call : HandoffCall P C) : Option (WriterHandoff P C) :=
  some (call.exec h).2

end Hephaestus.Automation
