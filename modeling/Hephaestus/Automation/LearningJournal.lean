import Mathlib.Logic.Function.Basic
import Hephaestus.Lib.Dict
import Hephaestus.Lib.Run

/-!
# The learning journal

`hephaestus/automation/learning_journal.py`: one record for each learning
intent, in a file of its own, with two lock files beside it. The record
lock is held while a record is read and rewritten. The claim lock is held
from the claim to the end of the delivery it covers, by the process whose
claim won, which also remembers it in a registry of its own; the two locks
have different lifetimes, and a crash drops both.

The model is one key. A process runs one call at a time, and every call is
cut at the points where another process could look: the unlocked read of
`_require_claimed`, the attempt on the claim lock, taking the record lock,
the load, the write, giving back the record lock, giving back (or keeping)
the claim lock. What a process does to its own registry nobody else sees,
so it goes with the step it stands next to.

`V` is the type of the JSON values a record can carry besides its own
fields, and `isDict` tells the objects among them.
-/

namespace Hephaestus.Automation

open Hephaestus.Lib

/-- `_STATUSES`. -/
inductive LearningStatus
  | pending
  | claimed
  | succeeded
  | failed
  | deferred
  deriving DecidableEq, Repr

def LearningStatus.text : LearningStatus → String
  | .pending => "pending"
  | .claimed => "claimed"
  | .succeeded => "succeeded"
  | .failed => "failed"
  | .deferred => "deferred"

/-- The values of `cleanup_status`. -/
inductive CleanupStatus
  | pending
  | succeeded
  | failed
  deriving DecidableEq, Repr

/-- A journal record: the reserved fields, and in `identity` all others. -/
structure LearningRecord (V : Type) where
  key : String
  kind : String
  status : LearningStatus
  attempts : Nat
  createdAt : String
  updatedAt : String
  error : Option String := none
  firstError : Option String := none
  candidateEvidence : Option String := none
  receiptSummary : Option V := none
  cleanupStatus : Option CleanupStatus := none
  cleanupError : Option String := none
  identity : Dict String V := []
  deriving DecidableEq

/-- `_RESERVED_FIELDS`. -/
def reservedFields : List String :=
  ["key", "kind", "status", "attempts", "created_at", "updated_at", "error", "first_error",
    "candidate_evidence", "receipt_summary", "claim_owner", "cleanup_status", "cleanup_error"]

/-- What a journal call raises. -/
inductive JournalError
  | keyError (key : String)
  | valueError (message : String)
  | journalError (message : String)
  deriving DecidableEq, Repr

/-- What a journal call returns. -/
inductive JournalReply (V : Type)
  | record (r : LearningRecord V)
  | nothing
  | won (b : Bool)
  | active (b : Bool)
  | raised (e : JournalError)
  deriving DecidableEq

/-- A call with its arguments; `now` is the clock reading it stores. -/
inductive JournalOp (V : Type)
  | ensurePending (kind : String) (identity : Dict String V) (now : String)
  | claim (now : String)
  | claimIsActive
  | finish (succeeded : Bool) (error : String) (receiptSummary : Option V) (now : String)
  | defer (error now : String)
  | retry (error now : String)
  | resumeDeferred (evidenceFingerprint now : String)
  | disable (now : String)
  | failAbandonedClaim (error now : String)
  | finishCleanup (succeeded : Bool) (error now : String)
  deriving DecidableEq

/-- `error[:1000]`. -/
def clip (error : String) : String := String.ofList (error.toList.take 1000)

section Sections

variable {V : Type} [DecidableEq V] (isDict : V → Bool) (key : String)

/-- `isinstance(record.get("post_processing"), dict)`. -/
def LearningRecord.hasPostProcessing (r : LearningRecord V) : Bool :=
  (r.identity.get? "post_processing").any isDict

/-- `load`, for a file the journal itself wrote: of its checks only the one
on `post_processing` can still fail. -/
def loadRecord (stored : Option (LearningRecord V)) :
    Except JournalError (Option (LearningRecord V)) :=
  match stored with
  | none => .ok none
  | some r =>
      if (r.identity.get? "post_processing").all isDict then .ok (some r)
      else .error (.journalError
        ("learning intent " ++ key ++ " has invalid post-processing data"))

/-- What a section under the record lock comes to: the record to write, if
any, and the reply. -/
abbrev SectionResult (V : Type) := Option (LearningRecord V) × JournalReply V

/-- The loop of `ensure_pending` over the identity fields. -/
def mergeIdentity (current : Dict String V) (changed : Bool) :
    List (String × V) → Except JournalError (Dict String V × Bool)
  | [] => .ok (current, changed)
  | (field, value) :: rest =>
      match current.get? field with
      | some old =>
          if old ≠ value then
            .error (.valueError ("learning intent identity changed field: " ++ field))
          else mergeIdentity current changed rest
      | none => mergeIdentity (current.set field value) true rest

/-- The section of `ensure_pending`. -/
def ensurePendingSection (kind : String) (identity : Dict String V) (now : String) :
    Option (LearningRecord V) → SectionResult V
  | some current =>
      if current.kind ≠ kind then
        (none, .raised (.valueError "learning intent key was reused for another kind"))
      else
        match mergeIdentity current.identity false identity with
        | .error e => (none, .raised e)
        | .ok (merged, changed) =>
            let starts : Bool :=
              (merged.get? "post_processing").any isDict && current.cleanupStatus.isNone
            let current := { current with
              identity := merged
              cleanupStatus := if starts then some .pending else current.cleanupStatus }
            if changed || starts then
              let current := { current with updatedAt := now }
              (some current, .record current)
            else (none, .record current)
  | none =>
      let record :=
        { key, kind, status := .pending, attempts := 0, createdAt := now, updatedAt := now,
          identity
          cleanupStatus := if identity.contains "post_processing" then some .pending else none }
      (some record, .record record)

/-- The section of `claim`. -/
def claimSection (now : String) : Option (LearningRecord V) → SectionResult V
  | none => (none, .raised (.keyError key))
  | some r =>
      if r.status ≠ .pending then (none, .won false)
      else
        (some { r with status := .claimed, attempts := r.attempts + 1, updatedAt := now },
          .won true)

/-- `_require_claimed`. -/
def requireClaimed : Option (LearningRecord V) → Except JournalError (LearningRecord V)
  | none => .error (.keyError key)
  | some r =>
      if r.status ≠ .claimed then
        .error (.valueError ("cannot finish learning intent from " ++ r.status.text))
      else .ok r

/-- The shape of the three sections of the owner: the record, still
claimed, goes to another status. -/
def ownerSection (change : LearningRecord V → LearningRecord V)
    (stored : Option (LearningRecord V)) : SectionResult V :=
  match requireClaimed key stored with
  | .error e => (none, .raised e)
  | .ok r => (some (change r), .record (change r))

/-- What `finish` makes of a claimed record. -/
def finishRecord (succeeded : Bool) (error : String) (receiptSummary : Option V)
    (now : String) (r : LearningRecord V) : LearningRecord V :=
  let r := { r with
    status := if succeeded then .succeeded else .failed
    updatedAt := now }
  let r :=
    if error ≠ "" then
      { r with firstError := some (r.firstError.getD (clip error)), error := some (clip error) }
    else r
  match receiptSummary with
  | some summary => { r with receiptSummary := some summary }
  | none => r

/-- What `defer` and `retry` make of a claimed record: the same but for the
status. -/
def setBack (status : LearningStatus) (error now : String) (r : LearningRecord V) :
    LearningRecord V :=
  { r with
    firstError := some (r.firstError.getD (clip error))
    status
    updatedAt := now
    error := some (clip error) }

/-- The section of `resume_deferred`. -/
def resumeDeferredSection (evidenceFingerprint now : String) :
    Option (LearningRecord V) → SectionResult V
  | none => (none, .raised (.keyError key))
  | some r =>
      if r.status ≠ .deferred ∨ r.candidateEvidence = some evidenceFingerprint then
        (none, .record r)
      else
        let r := { r with
          status := .pending
          candidateEvidence := some evidenceFingerprint
          updatedAt := now }
        (some r, .record r)

/-- The section of `disable`. -/
def disableSection (now : String) : Option (LearningRecord V) → SectionResult V
  | none => (none, .raised (.keyError key))
  | some r =>
      if r.status ≠ .pending ∧ r.status ≠ .claimed then (none, .record r)
      else
        let r := { r with status := .failed, error := some "learning_disabled", updatedAt := now }
        (some r, .record r)

/-- The section of `fail_abandoned_claim`. -/
def failAbandonedSection (error now : String) :
    Option (LearningRecord V) → SectionResult V
  | none => (none, .raised (.keyError key))
  | some r =>
      if r.status ≠ .claimed then (none, .record r)
      else
        let r := { r with status := .failed, updatedAt := now, error := some (clip error) }
        (some r, .record r)

/-- The section of `finish_cleanup`. -/
def finishCleanupSection (succeeded : Bool) (error now : String) :
    Option (LearningRecord V) → SectionResult V
  | none => (none, .raised (.keyError key))
  | some r =>
      if ¬ r.hasPostProcessing isDict then (none, .record r)
      else if r.status ≠ .succeeded ∧ r.status ≠ .failed ∧ r.status ≠ .deferred then
        (none, .raised (.valueError "learning must be terminal before cleanup"))
      else
        let r := { r with
          cleanupStatus := some (if succeeded then .succeeded else .failed)
          updatedAt := now
          cleanupError := if error ≠ "" then some (clip error) else r.cleanupError }
        (some r, .record r)

/-- The section a call runs under the record lock, after its load. -/
def JournalOp.body (op : JournalOp V) (stored : Option (LearningRecord V)) :
    SectionResult V :=
  match loadRecord isDict key stored with
  | .error e => (none, .raised e)
  | .ok r =>
      match op with
      | .ensurePending kind identity now => ensurePendingSection isDict key kind identity now r
      | .claim now => claimSection key now r
      | .claimIsActive => (none, .active false)
      | .finish succeeded error summary now =>
          ownerSection key (finishRecord succeeded error summary now) r
      | .defer error now => ownerSection key (setBack .deferred error now) r
      | .retry error now => ownerSection key (setBack .pending error now) r
      | .resumeDeferred fingerprint now => resumeDeferredSection key fingerprint now r
      | .disable now => disableSection key now r
      | .failAbandonedClaim error now => failAbandonedSection key error now r
      | .finishCleanup succeeded error now =>
          finishCleanupSection isDict key succeeded error now r

/-- `re.fullmatch(r"[0-9a-f]{64}", ...)`. -/
def isFingerprint (value : String) : Bool :=
  value.length = 64 && value.toList.all ("0123456789abcdef".toList.contains ·)

/-- The checks a call makes before it touches a lock. -/
def JournalOp.argumentError : JournalOp V → Option JournalError
  | .ensurePending kind identity _ =>
      let reserved := (identity.map Prod.fst).filter (reservedFields.contains ·)
      if key = "" ∨ kind = "" then
        some (.valueError "learning intent key and kind must be non-empty")
      else if reserved ≠ [] then
        some (.valueError ("learning intent identity uses reserved fields: " ++
          ", ".intercalate (reserved.mergeSort (· ≤ ·))))
      else none
  | .resumeDeferred fingerprint _ =>
      if isFingerprint fingerprint then none
      else some (.valueError "candidate evidence fingerprint must be SHA-256")
  | _ => none

end Sections

/-! ## Processes -/

/-- Which locks a call uses: only the record lock; the record lock of a
record it owns; both; or the claim lock for a look. -/
inductive LockUse
  | plain
  | owner
  | claiming
  | probe
  deriving DecidableEq, Repr

def JournalOp.lockUse {V : Type} : JournalOp V → LockUse
  | .ensurePending .. | .resumeDeferred .. | .finishCleanup .. => .plain
  | .finish .. | .defer .. | .retry .. => .owner
  | .claim .. | .disable .. | .failAbandonedClaim .. => .claiming
  | .claimIsActive => .probe

/-- Where a process stands in its call. -/
inductive JournalPc (V : Type)
  | idle
  /-- about to run the unlocked checks of an owner's call -/
  | checking (op : JournalOp V)
  /-- about to try the claim lock -/
  | claiming (op : JournalOp V)
  /-- holds the claim lock only to have looked -/
  | probing
  /-- about to take the record lock -/
  | locking (op : JournalOp V)
  | locked (op : JournalOp V)
  | loaded (op : JournalOp V) (stored : Option (LearningRecord V))
  | written (op : JournalOp V) (reply : JournalReply V)
  /-- the record lock is given back, the claim lock not yet -/
  | unlocked (op : JournalOp V) (reply : JournalReply V)

/-- The files, the locks and the processes of one key. -/
structure JournalSystem (P V : Type) where
  stored : Option (LearningRecord V) := none
  recordLock : Option P := none
  claimLock : Option P := none
  pc : P → JournalPc V := fun _ => .idle
  /-- `key in self._claim_locks` -/
  registered : P → Bool := fun _ => false

inductive JournalEvent (P V : Type)
  | start (p : P) (op : JournalOp V)
  | advance (p : P)
  | crash (p : P)

/-- What a call won returns: the claim lock stays. -/
def JournalReply.keepsLock {V : Type} : JournalReply V → Bool
  | .won b => b
  | _ => false

/-- A reply that is not an exception: the owner's call goes on to give up
its claim. -/
def JournalReply.returned {V : Type} : JournalReply V → Bool
  | .raised _ => false
  | _ => true

namespace JournalSystem

variable {P V : Type} [DecidableEq P] [DecidableEq V] (isDict : V → Bool) (key : String)

def goto (s : JournalSystem P V) (p : P) (c : JournalPc V) : JournalSystem P V :=
  { s with pc := Function.update s.pc p c }

def register (s : JournalSystem P V) (p : P) (b : Bool) : JournalSystem P V :=
  { s with registered := Function.update s.registered p b }

/-- A call begins: its argument checks, then its first wait. -/
def start (s : JournalSystem P V) (p : P) (op : JournalOp V) :
    JournalSystem P V × Option (JournalReply V) :=
  match op.argumentError key with
  | some e => (s, some (.raised e))
  | none =>
      match op.lockUse with
      | .plain => (s.goto p (.locking op), none)
      | .owner => (s.goto p (.checking op), none)
      | .claiming | .probe => (s.goto p (.claiming op), none)

/-- The unlocked part of an owner's call: `_require_claimed`, then
`_require_local_claim`. -/
def check (s : JournalSystem P V) (p : P) (op : JournalOp V) :
    JournalSystem P V × Option (JournalReply V) :=
  match (loadRecord isDict key s.stored).bind (requireClaimed key) with
  | .error e => (s.goto p .idle, some (.raised e))
  | .ok _ =>
      if s.registered p then (s.goto p (.locking op), none)
      else
        (s.goto p .idle,
          some (.raised (.valueError "learning intent claim is not owned by this process")))

/-- The non-blocking attempt on the claim lock. -/
def tryClaimLock (s : JournalSystem P V) (p : P) (op : JournalOp V) :
    JournalSystem P V × Option (JournalReply V) :=
  match s.claimLock with
  | none =>
      let s := { s with claimLock := some p }
      (s.goto p (if op.lockUse = .probe then .probing else .locking op), none)
  | some _ =>
      let reply := match op with
        | .claim _ => .won false
        | .claimIsActive => .active true
        | _ => .nothing
      (s.goto p .idle, some reply)

/-- The end of a call once the record lock is given back. -/
def finishCall (s : JournalSystem P V) (p : P) (op : JournalOp V) (reply : JournalReply V) :
    JournalSystem P V × Option (JournalReply V) :=
  match op.lockUse with
  | .owner =>
      if reply.returned then
        (({ s with claimLock := none }.register p false).goto p .idle, some reply)
      else (s.goto p .idle, some reply)
  | .claiming =>
      if reply.keepsLock then ((s.register p true).goto p .idle, some reply)
      else ({ s with claimLock := none }.goto p .idle, some reply)
  | _ => (s.goto p .idle, some reply)

/-- The next action of a process. `none` where it has to wait, or has
nothing to do. -/
def advance (s : JournalSystem P V) (p : P) :
    Option (JournalSystem P V × Option (JournalReply V)) :=
  match s.pc p with
  | .idle => none
  | .checking op => some (s.check isDict key p op)
  | .claiming op => some (s.tryClaimLock p op)
  | .probing => some ({ s with claimLock := none }.goto p .idle, some (.active false))
  | .locking op =>
      match s.recordLock with
      | none => some ({ s with recordLock := some p }.goto p (.locked op), none)
      | some _ => none
  | .locked op => some (s.goto p (.loaded op s.stored), none)
  | .loaded op stored =>
      let result := op.body isDict key stored
      some ({ s with stored := result.1.or s.stored }.goto p (.written op result.2), none)
  | .written op reply =>
      some ({ s with recordLock := none }.goto p (.unlocked op reply), none)
  | .unlocked op reply => some (s.finishCall p op reply)

/-- The process dies: its locks are released, its registry is gone. -/
def crash (s : JournalSystem P V) (p : P) : JournalSystem P V :=
  { (s.register p false).goto p .idle with
    recordLock := if s.recordLock = some p then none else s.recordLock
    claimLock := if s.claimLock = some p then none else s.claimLock }

/-- One event, with the reply of the call that ends by it. -/
def respond (s : JournalSystem P V) :
    JournalEvent P V → Option (JournalSystem P V × Option (JournalReply V))
  | .start p op =>
      match s.pc p with
      | .idle => some (s.start key p op)
      | _ => none
  | .advance p => s.advance isDict key p
  | .crash p => some (s.crash p, none)

def step (s : JournalSystem P V) (e : JournalEvent P V) : Option (JournalSystem P V) :=
  (s.respond isDict key e).map Prod.fst

end JournalSystem

end Hephaestus.Automation
