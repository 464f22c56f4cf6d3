import Mathlib.Algebra.GroupWithZero.Nat
import Mathlib.Data.Finset.Card
import Hephaestus.Lib.Command
import Hephaestus.Lib.Dict

/-!
# The stage-routing table

`hephaestus/automation/pipeline/routing.py`: the stages, what a stage can
answer, and the table that says where an item goes next. The table is pure
data, and everything that moves an item reads it: the full table, or the
copy a scoped run trims, where every target outside the scope is the sink.
-/

namespace Hephaestus.Pipeline

open Hephaestus.Lib

/-- `StageName`. -/
inductive StageName
  | repo
  | planning
  | planReview
  | implementation
  | prReview
  | mergeWait
  | learning
  | finished
  deriving DecidableEq, Repr

def StageName.value : StageName → String
  | .repo => "repo"
  | .planning => "planning"
  | .planReview => "plan_review"
  | .implementation => "implementation"
  | .prReview => "pr_review"
  | .mergeWait => "merge_wait"
  | .learning => "learning"
  | .finished => "finished"

/-- `Disposition`. -/
inductive Disposition
  | advance
  | retry
  | failBack
  | skip
  | eject
  | blocked
  | finishPass
  | finishFail
  deriving DecidableEq, Repr

/-- `StageOutcome`. -/
structure StageOutcome where
  disposition : Disposition
  note : String := ""
  deriving DecidableEq, Repr

/-- `Route`. -/
structure Route where
  next : StageName
  failRoutes : Dict String StageName := []
  budgets : Dict String Nat := []
  deriving DecidableEq, Repr

/-- `DEFAULT_MERGE_ATTEMPTS`. -/
def defaultMergeAttempts : Nat := 5

/-- `ROUTES`. -/
def routes : StageName → Route
  | .repo =>
      { next := .finished
        failRoutes := [("*", .finished)]
        budgets := [("clone", 2)] }
  | .planning =>
      { next := .planReview
        failRoutes := [("*", .finished)]
        budgets := [("plan", 2), ("source_workspace", 2)] }
  | .planReview =>
      { next := .implementation
        failRoutes := [("nogo", .planning), ("plan_missing", .planning),
          ("plan_cycles_exhausted", .finished), ("*", .planning)]
        budgets := [("plan_review_iter", 3), ("plan_cycles", 2)] }
  | .implementation =>
      { next := .prReview
        failRoutes := [("plan_not_go", .planReview),
          ("already_implementation_go_pr", .mergeWait),
          ("review_retained_after_rebase", .mergeWait),
          ("manual_rebase_complete_planning", .planning),
          ("manual_rebase_complete_plan_review", .planReview), ("*", .finished)]
        budgets := [("implement", 2), ("rebase_conflict", 2), ("test_fix", 1),
          ("remediation_reply", 1)] }
  | .prReview =>
      { next := .mergeWait
        failRoutes := [("agent_error", .implementation), ("empty_pr_diff", .implementation),
          ("implementation_remediation", .implementation),
          ("scope_retraction_before_scope_block", .implementation),
          ("exhaustion", .finished), ("*", .prReview)]
        budgets := [("pr_review_iter", 3), ("pr_review_hard", 6)] }
  | .mergeWait =>
      { next := .finished
        failRoutes := [("closed", .finished), ("not_implementation_go", .prReview),
          ("reviewed_head_missing", .prReview), ("reviewed_head_drift", .prReview),
          ("merge_conflicting", .implementation), ("*", .finished)]
        budgets := [("merge", defaultMergeAttempts)] }
  | .learning =>
      { next := .finished
        failRoutes := [("resume_implementation", .implementation),
          ("resume_plan_review", .planReview), ("*", .finished)]
        budgets := [("learn", 2)] }
  | .finished => { next := .finished }

/-- `PIPELINE_ORDER`: the order of the table, the sink last. -/
def pipelineOrder : List StageName :=
  [.repo, .planning, .planReview, .implementation, .prReview, .mergeWait, .learning, .finished]

/-- `_is_auxiliary_stage`: the stages of the auxiliary lane. -/
def StageName.isAuxiliary : StageName → Bool
  | .learning => true
  | .finished => true
  | _ => false

@[simp] theorem isAuxiliary_learning : StageName.learning.isAuxiliary = true := rfl

@[simp] theorem isAuxiliary_finished : StageName.finished.isAuxiliary = true := rfl

/-- `MAIN_PIPELINE_ORDER`. -/
def mainPipelineOrder : List StageName := pipelineOrder.filter fun st => !st.isAuxiliary

/-- `_FAIL_BACK_CAP`: the sum of every budget of the table. -/
def failBackCap : Nat :=
  (pipelineOrder.map fun st => ((routes st).budgets.map Prod.snd).sum).sum

/-- The positions of a scope's stages in the main order. -/
def scopePositions (stages : Finset StageName) : List Nat :=
  (List.range mainPipelineOrder.length).filter fun k =>
    (mainPipelineOrder[k]?).any fun st => decide (st ∈ stages)

/-- `sorted(s.value for s in stages)`, as an f-string prints it. -/
def sortedValues (stages : Finset StageName) : String :=
  let alphabetical : List StageName :=
    [.finished, .implementation, .learning, .mergeWait, .planReview, .planning, .prReview, .repo]
  let values := (alphabetical.filter fun st => decide (st ∈ stages)).map StageName.value
  "[" ++ ", ".intercalate (values.map fun v => "'" ++ v ++ "'") ++ "]"

/-- The checks of `PipelineScope.__init__`. A scope of the sink alone is
allowed. -/
def PipelineScope.check (stages : Finset StageName) : Except String Unit := do
  raiseIf (stages = ∅) "PipelineScope requires at least one stage"
  let positions := scopePositions stages
  raiseIf (positions ≠ [] ∧
      positions.getLastD 0 - positions.headD 0 + 1 ≠ positions.length)
    ("PipelineScope stages must be contiguous in pipeline order; got gaps in " ++
      sortedValues stages)

/-- `PipelineScope`: a stage set its constructor let through. -/
abbrev PipelineScope := Checked PipelineScope.check

/-- The stages a scoped run keeps: the selected ones and the two the lanes
share. -/
def PipelineScope.available (scope : PipelineScope) (st : StageName) : Bool :=
  decide (st ∈ scope.val) || st.isAuxiliary

/-- A target outside the scope is rewritten to the sink. -/
def PipelineScope.restrict (scope : PipelineScope) (st : StageName) : StageName :=
  if scope.available st then st else .finished

/-- `PipelineScope.trimmed_routes`. -/
def PipelineScope.trimmedRoutes (scope : PipelineScope) (st : StageName) : Option Route :=
  if scope.available st then
    let route := routes st
    some
      { next := scope.restrict route.next
        failRoutes := route.failRoutes.map fun kv => (kv.1, scope.restrict kv.2)
        budgets := route.budgets }
  else none

/-- The coordinator's `_routes`: the full table, or the scope's. -/
def runRoutes : Option PipelineScope → StageName → Option Route
  | none, st => some (routes st)
  | some scope, st => scope.trimmedRoutes st

/-- The target of a `FAIL_BACK`: the note's own row, the default row, the
sink. -/
def Route.failTarget (route : Route) (note : String) : StageName :=
  (route.failRoutes.get? note).getD ((route.failRoutes.get? "*").getD .finished)

/-- The sink and the learning lane have a route in every run. -/
theorem runRoutes_auxiliary {st : StageName} (scope : Option PipelineScope)
    (h : st.isAuxiliary = true) : (runRoutes scope st).isSome := by
  cases scope with
  | none => rfl
  | some scope => simp [runRoutes, PipelineScope.trimmedRoutes, PipelineScope.available, h]

end Hephaestus.Pipeline
