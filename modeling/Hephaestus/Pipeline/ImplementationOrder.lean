import Mathlib.Data.Prod.Lex
import Hephaestus.Automation.DependencyResolver
import Hephaestus.Lib.HeadMerge
import Hephaestus.Pipeline.Dispatch

/-!
# The order of implementation items

`_select_implementation_dispatch` of `coordinator_dispatch.py`: each repository is put in
its dependency order, with what was deferred most often first, and the repositories are
merged by the ages of the items at their fronts. `dependencies` gives what is at
`payload["dependencies"]`, a list of issue numbers.
-/

namespace Hephaestus.Pipeline

open Hephaestus.Lib Hephaestus.Automation

variable {ω : Type} (host : Host ω) (dependencies : ItemId → List Int) (s : Coordinator)

/-- One turn of the loop that fills `by_repo`. -/
def byRepoTurn (byRepo : Dict String (Dict Int ItemId)) (i : ItemId) : Dict String (Dict Int ItemId) :=
  match (s.workItem i).issue with
  | none => byRepo
  | some issue =>
      byRepo.set (s.workItem i).repo (((byRepo.get? (s.workItem i).repo).getD []).set issue i)

/-- `by_repo`. -/
def byRepo (items : List ItemId) : Dict String (Dict Int ItemId) := items.foldl (byRepoTurn s) []

/-- `_file_overlap_deferral_age`. -/
def fileOverlapDeferralAge (i : ItemId) : Int := (s.workItem i).overlapDeferrals

/-- The age of the item of an issue. -/
def issueAge (issueItems : Dict Int ItemId) (number : Int) : Int :=
  ((issueItems.get? number).map (fileOverlapDeferralAge s)).getD 0

/-- `infos`, sorted by age, the oldest first. -/
def agedInfos (issueItems : Dict Int ItemId) : List IssueInfo :=
  let infos := issueItems.map fun item =>
    ({ number := item.1, dependencies := dependencies item.2 } : IssueInfo)
  infos.mergeSort fun a b => issueAge s issueItems b.number ≤ issueAge s issueItems a.number

/-- The items of a repository in the order it gives them. -/
def repoSequence (issueItems : Dict Int ItemId) : Except DependencyError (List ItemId) := do
  let order ← orderForImplementation (agedInfos dependencies s issueItems)
  pure (order.filterMap issueItems.get?)

/-- `positions`. -/
def positionOf (items : List ItemId) (i : ItemId) : Nat := ((Dict.ofPairs items.zipIdx).get? i).getD 0

/-- What the fronts of the sequences are compared by. -/
def frontKey (items : List ItemId) (i : ItemId) : Int ×ₗ Int :=
  toLex (fileOverlapDeferralAge s i, -(positionOf items i : Int))

/-- `ordered_items`. -/
def orderedItems (items : List ItemId) : Except DependencyError (List ItemId) := do
  let orders ← (byRepo s items).mapM fun repo => repoSequence dependencies s repo.2
  match HeadMerge.mergeLoop (frontKey s items) items.length (orders.filter (· ≠ [])) [] with
  | none => .error .outOfFuel
  | some ordered => pure ordered

/-- What comes out of the coordinator; cycles do not. -/
def orderingError : DependencyError → PyError
  | .notInGraph number => ⟨.valueError, "Issue #" ++ toString number ++ " not in graph"⟩
  | _ => runtimeError "Graph contains cycles"

/-- `_overlap_serialization_enabled`. -/
def overlapSerializationEnabled : Bool :=
  host.config.serializeFileOverlap && decide (1 < host.config.maxWorkers)

/-- `_select_implementation_dispatch`. -/
def selectImplementationDispatch (w : World ω) (plans : ItemId → Except PlanReadError (List String))
    (items : List ItemId) : Op (List ItemId) := do
  let s ← get
  match orderedItems dependencies s items with
  | .error e => throw (orderingError e)
  | .ok ordered =>
      if overlapSerializationEnabled host then
        selectFileOverlapImplementationItems host w plans ordered
      else pure ordered

end Hephaestus.Pipeline
