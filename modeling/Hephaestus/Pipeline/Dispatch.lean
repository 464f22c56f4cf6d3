import Mathlib.Data.Finset.Union
import Hephaestus.Pipeline.Runtime

/-!
# File overlap between implementation items

`_select_file_overlap_implementation_items` of `coordinator_dispatch.py` and
what it calls. Two items that would write the same file are not implemented
at the same time: an item reserves the files its plan names, and, once there
is a diff, the files the diff touches. Candidates that have not been started
compete in the order they come in; one that has been started keeps its
reservation while it waits. A deferred item remembers what it was blocked
by, and is not looked at again until that changes.

The plan of an item is read from its issue's comments, which is an input
here: `plans` gives the planned paths, or how the read failed. The texts of
the log lines are left out.
-/

namespace Hephaestus.Pipeline

open Hephaestus.Lib

/-- How reading a plan can fail. -/
inductive PlanReadError
  /-- `CommentAliasConflictError`. -/
  | aliasConflict (message : String)
  /-- `CommentJournalReadError`. -/
  | journalRead (message : String)
  | other (e : PyError)
  deriving DecidableEq

namespace WorkItem

variable (org : String) (item : WorkItem)

/-- The reservation an item has in its payload. -/
def fileClaims? : Option (Finset FileClaim) :=
  match item.payload.get? implementationFileClaimsPayload with
  | some (.claims c) => some c
  | _ => none

/-- The reservation an item was last blocked by. -/
def blockedClaims? : Option (Finset FileClaim) :=
  match item.payload.get? fileOverlapBlockedClaimsKey with
  | some (.claims c) => some c
  | _ => none

/-- A path as a claim on the item's repository. -/
def claimOn (path : String) : FileClaim := ((org, item.repo), path)

/-- `review_changed_paths`, where it is a list. -/
def changedPaths? : Option (List (Option String)) :=
  match item.payload.get? "review_changed_paths" with
  | some (.paths l) => some l
  | _ => none

/-- The non-empty strings of `review_changed_paths`, as claims. -/
def changedClaims : Finset FileClaim :=
  (((item.changedPaths?.getD []).filterMap id).filter (· ≠ "")).toFinset.image
    (item.claimOn org)

/-- A candidate that has not been started. -/
def isFresh : Bool :=
  item.pr.isNone && decide (item.worktree = "") &&
    (decide (item.state = "") || decide (item.state = "ENTER"))

/-- `payload[_FILE_OVERLAP_DEFERRALS_KEY]`. -/
def overlapDeferrals : Int :=
  match item.payload.get? fileOverlapDeferralsKey with
  | some (.int n) => n
  | _ => 0

end WorkItem

variable {ω : Type} (host : Host ω)

/-! ## Reservations -/

/-- One turn of the loop of `_active_implementation_file_claims`. An item
under review has the paths of its diff added to its reservation. -/
def addActiveClaims (exclude : Finset ItemId) (acc : Finset FileClaim × Coordinator)
    (j : ItemId) : Finset FileClaim × Coordinator :=
  let (claims, s) := acc
  let item := s.workItem j
  if j ∈ exclude ∨ item.result.isSome ∨ !item.stage.ownsFileClaims then acc
  else
    let own := item.fileClaims?.getD ∅
    if item.stage.realizesDiff ∧ item.changedPaths?.isSome then
      let own := own ∪ item.changedClaims host.config.org
      (claims ∪ own, s.setItem j (item.setPayload implementationFileClaimsPayload (.claims own)))
    else (claims ∪ own, s)

/-- `_active_implementation_file_claims`. -/
def activeImplementationFileClaims (exclude : Finset ItemId) : Op (Finset FileClaim) := do
  let s ← get
  let r := s.items.foldl (addActiveClaims host exclude) (∅, s)
  set r.2
  pure r.1

/-- `_read_implementation_file_claims`. -/
def readImplementationFileClaims (plans : ItemId → Except PlanReadError (List String))
    (i : ItemId) : Op (Except PlanReadError (Finset FileClaim)) := do
  let s ← get
  match (s.workItem i).fileClaims? with
  | some claims => pure (.ok claims)
  | none =>
      if (s.workItem i).issue.isNone then
        throw ⟨.valueError, "plan admission requires an issue number"⟩
      else
        match plans i with
        | .error e => pure (.error e)
        | .ok planned => do
            let claims := planned.toFinset.image ((s.workItem i).claimOn host.config.org)
            editItem i fun item =>
              item.setPayload implementationFileClaimsPayload (.claims claims)
            pure (.ok claims)

/-- `_record_file_overlap_deferral`. -/
def recordFileOverlapDeferral (i : ItemId) : Op Unit :=
  editItem i fun item =>
    item.setPayload fileOverlapDeferralsKey (.int (item.overlapDeferrals + 1))

/-! ## Selection -/

/-- What the loop of the selection carries: the items selected so far, and
the files they reserve. -/
structure Selection where
  dispatch : List ItemId := []
  claims : Finset FileClaim := ∅

/-- The end of a turn, once the candidate's claims are read. -/
def admitOrDefer (i : ItemId) (claimed read : Finset FileClaim) (acc : Selection) :
    Op Selection := do
  let s ← get
  let item := s.workItem i
  let claims := read ∪ item.changedClaims host.config.org
  if item.changedPaths?.isSome then
    editItem i fun item => item.setPayload implementationFileClaimsPayload (.claims claims)
  else pure ()
  if claims ∩ claimed ≠ ∅ then do
    recordFileOverlapDeferral i
    editItem i fun item => item.setPayload fileOverlapBlockedClaimsKey (.claims claimed)
    pure acc
  else do
    editItem i fun item => item.popPayload fileOverlapBlockedClaimsKey
    pure { dispatch := acc.dispatch ++ [i], claims := acc.claims ∪ claims }

/-- One turn of the loop of `_select_file_overlap_implementation_items`. -/
def selectTurn (w : World ω) (plans : ItemId → Except PlanReadError (List String))
    (fresh : Finset ItemId) (acc : Selection) (i : ItemId) : Op Selection := do
  let s ← get
  if (s.workItem i).issue.isNone then pure acc
  else do
    let active ← activeImplementationFileClaims host (insert i fresh)
    let claimed := active ∪ acc.claims
    let s ← get
    if (s.workItem i).blockedClaims? = some claimed then pure acc
    else do
      match ← readImplementationFileClaims host plans i with
      | .error (.aliasConflict message) => do
          if ← claimSelectedImplementationItem i then
            finish host i false ("plan admission failed: " ++ message)
          else pure ()
          pure acc
      | .error (.journalRead message) => do
          if ← claimSelectedImplementationItem i then
            deferImplementationPlanRead host w i message
          else pure ()
          pure acc
      | .error (.other e) => throw e
      | .ok read => admitOrDefer host i claimed read acc

/-- The loop over the candidates. -/
def selectLoop (w : World ω) (plans : ItemId → Except PlanReadError (List String))
    (fresh : Finset ItemId) : List ItemId → Selection → Op Selection
  | [], acc => pure acc
  | i :: rest, acc => do
      let acc ← selectTurn host w plans fresh acc i
      selectLoop w plans fresh rest acc

/-- `_select_file_overlap_implementation_items`. -/
def selectFileOverlapImplementationItems (w : World ω)
    (plans : ItemId → Except PlanReadError (List String)) (candidates : List ItemId) :
    Op (List ItemId) := do
  let s ← get
  let fresh := (candidates.filter fun i => (s.workItem i).isFresh).toFinset
  let selection ← selectLoop host w plans fresh candidates {}
  pure selection.dispatch

end Hephaestus.Pipeline
