import Mathlib.Algebra.GroupWithZero.Nat
import Mathlib.Data.Finset.Basic
import Hephaestus.Automation.IssueWaves
import Hephaestus.Lib.Command
import Hephaestus.Lib.Dict

/-!
# The order of issues that depend on each other

`DependencyGraph` of `models.py`, the graph of `dependency_resolver.py` with its search for
cycles and its order, and `order_for_implementation` of `admission.py`. The search is on
fuel, as deep as there are issues and edges; the loop over the ready issues has a turn for
each issue. Either would say `outOfFuel`. The limit Python puts on recursion is left out,
and so are the log lines and what is read from GitHub (`load_epic`, `_load_dependencies`).
-/

namespace Hephaestus.Automation

open Hephaestus.Lib

inductive DependencyError
  /-- `ValueError`. -/
  | notInGraph (number : Int)
  /-- `CyclicDependencyError`, with the cycles that were found. -/
  | cyclic (cycles : List (List Int))
  /-- `CyclicDependencyError`, where some issue never became ready. -/
  | incomplete
  | outOfFuel
  deriving DecidableEq

inductive IssueState
  | opened
  | closed
  | merged
  deriving DecidableEq

def IssueState.isDone (state : IssueState) : Bool := state = .closed || state = .merged

structure IssueInfo where
  number : Int
  state : IssueState := .opened
  labels : List String := []
  dependencies : List Int := []
  deriving DecidableEq

def isSkipped (labels : List String) : Bool := labels.contains stateSkip

/-! ## The graph -/

/-- Only issues that are in have edges, and no edge is there twice. -/
structure DependencyGraph where
  issues : Dict Int IssueInfo
  edges : Dict Int (List Int)
  issues_nodup : (issues.map Prod.fst).Nodup
  edges_issues : ∀ n, (edges.get? n).isSome → n ∈ issues.map Prod.fst
  edges_nodup : ∀ n, ((edges.get? n).getD []).Nodup

def DependencyGraph.empty : DependencyGraph where
  issues := []
  edges := []
  issues_nodup := List.nodup_nil
  edges_issues := by simp
  edges_nodup _ := List.nodup_nil

namespace DependencyGraph

variable (g : DependencyGraph)

/-- The keys of `issues`. -/
def numbers : List Int := g.issues.map Prod.fst

def getDependencies (number : Int) : List Int := (g.edges.get? number).getD []

/-- `edges`, with a list for the issue. -/
def edgesFor (number : Int) : Dict Int (List Int) :=
  if g.edges.contains number then g.edges else g.edges.set number []

theorem get?_edgesFor (number other : Int) : ((g.edgesFor number).get? other).getD []
    = g.getDependencies other := by
  unfold edgesFor getDependencies
  split
  · rfl
  · next h =>
    rw [Dict.get?_set]
    split
    · next heq =>
      subst heq
      rw [Dict.contains, Option.not_isSome_iff_eq_none] at h
      rw [h]
      rfl
    · rfl

theorem isSome_edgesFor {number other : Int} (h : ((g.edgesFor number).get? other).isSome) :
    other = number ∨ (g.edges.get? other).isSome := by
  unfold edgesFor at h
  split at h
  · exact .inr h
  · rw [Dict.get?_set] at h
    split at h
    · next heq => exact .inl heq.symm
    · exact .inr h

def addIssue (issue : IssueInfo) : DependencyGraph where
  issues := g.issues.set issue.number issue
  edges := g.edgesFor issue.number
  issues_nodup := Dict.nodup_set g.issues_nodup _ _
  edges_issues n h := by
    have hkey := Dict.keys_set g.issues issue.number issue
    have hmem : n = issue.number ∨ n ∈ g.issues.map Prod.fst :=
      (g.isSome_edgesFor h).imp_right (g.edges_issues n)
    rw [hkey]
    split
    · next hin => exact hmem.elim (fun heq => heq ▸ hin) id
    · exact List.mem_append.mpr (hmem.symm.imp_right fun heq => List.mem_singleton.mpr heq)
  edges_nodup n := by
    rw [get?_edgesFor]
    exact g.edges_nodup n

/-- `edges`, with the edge in it. -/
def edgesWith (number dependsOn : Int) : Dict Int (List Int) :=
  if dependsOn ∈ g.getDependencies number then g.edgesFor number
  else (g.edgesFor number).set number (g.getDependencies number ++ [dependsOn])

theorem get?_edgesWith (number dependsOn other : Int) :
    ((g.edgesWith number dependsOn).get? other).getD []
      = if number = other ∧ dependsOn ∉ g.getDependencies number then
          g.getDependencies number ++ [dependsOn]
        else g.getDependencies other := by
  unfold edgesWith
  by_cases hin : dependsOn ∈ g.getDependencies number
  · rw [if_pos hin, if_neg (by simp [hin]), get?_edgesFor]
  · rw [if_neg hin, Dict.get?_set]
    by_cases heq : number = other
    · rw [if_pos heq, if_pos ⟨heq, hin⟩, Option.getD_some]
    · rw [if_neg heq, if_neg (by simp [heq]), get?_edgesFor]

theorem isSome_edgesWith {number dependsOn other : Int}
    (h : ((g.edgesWith number dependsOn).get? other).isSome) :
    other = number ∨ (g.edges.get? other).isSome := by
  unfold edgesWith at h
  split at h
  · exact g.isSome_edgesFor h
  · rw [Dict.get?_set] at h
    split at h
    · next heq => exact .inl heq.symm
    · exact g.isSome_edgesFor h

/-- `add_dependency`. -/
def addDependency (number dependsOn : Int) : Except DependencyError DependencyGraph :=
  if h : number ∈ g.issues.map Prod.fst then
    .ok { g with
      edges := g.edgesWith number dependsOn
      edges_issues := fun n hn => (g.isSome_edgesWith hn).elim (fun heq => heq ▸ h) (g.edges_issues n)
      edges_nodup := fun n => by
        rw [get?_edgesWith]
        split
        · next hnew =>
          exact (g.edges_nodup number).append (List.nodup_singleton _)
            (List.disjoint_singleton.mpr hnew.2)
        · exact g.edges_nodup n }
  else .error (.notInGraph number)

end DependencyGraph

/-! ## Cycles -/

/-- `visited` and `cycles` of `detect_cycles`. -/
structure CycleSearch where
  visited : Finset Int := ∅
  cycles : List (List Int) := []

/-- The loop of `dfs` over the dependencies of a node, at the end of `path`. -/
def scan (visit : Int → CycleSearch → Option (Bool × CycleSearch)) (recStack : Finset Int)
    (path : List Int) : List Int → CycleSearch → Option (Bool × CycleSearch)
  | [], s => some (false, s)
  | dep :: rest, s =>
      if dep ∉ s.visited then do
        let (found, s) ← visit dep s
        if found then some (true, s) else scan visit recStack path rest s
      else if dep ∈ recStack then
        some (true, { s with cycles := s.cycles ++ [path.drop (path.idxOf dep) ++ [dep]] })
      else scan visit recStack path rest s

/-- `dfs`. What it puts on the stack and the path is gone when it returns. -/
def dfs (deps : Int → List Int) : Nat → Int → Finset Int → List Int → CycleSearch →
    Option (Bool × CycleSearch)
  | 0, _, _, _, _ => none
  | fuel + 1, node, recStack, path, s =>
      scan (fun dep s => dfs deps fuel dep (insert node recStack) (path ++ [node]) s)
        (insert node recStack) (path ++ [node]) (deps node)
        { s with visited := insert node s.visited }

namespace DependencyGraph

variable (g : DependencyGraph)

/-- More than there are nodes. -/
def searchFuel : Nat := g.issues.length + (g.edges.map fun edge => edge.2.length).sum + 1

/-- The loop of `detect_cycles` over the issues. -/
def searchFrom : List Int → CycleSearch → Option CycleSearch
  | [], s => some s
  | number :: rest, s =>
      if number ∉ s.visited then do
        let (_, s) ← dfs g.getDependencies g.searchFuel number ∅ [] s
        searchFrom rest s
      else searchFrom rest s

/-- `detect_cycles`. -/
def detectCycles : Except DependencyError Unit :=
  match g.searchFrom g.numbers {} with
  | none => .error .outOfFuel
  | some s => raiseIf (s.cycles ≠ []) (.cyclic s.cycles)

/-! ## The order -/

/-- `reverse_deps` and `in_degree`. -/
structure Degrees where
  reverseDeps : Dict Int (List Int) := []
  inDegree : Dict Int Int := []

/-- An edge in the tables. -/
def Degrees.addEdge (number : Int) (t : Degrees) (dep : Int) : Degrees where
  reverseDeps := t.reverseDeps.set dep ((t.reverseDeps.get? dep).getD [] ++ [number])
  inDegree := t.inDegree.set number ((t.inDegree.get? number).getD 0 + 1)

/-- An issue in the tables, with its edges. -/
def addIssueEdges (t : Degrees) (number : Int) : Degrees :=
  let t := if t.inDegree.contains number then t
    else { t with inDegree := t.inDegree.set number 0 }
  (g.getDependencies number).foldl (Degrees.addEdge number) t

def degrees : Degrees := g.numbers.foldl g.addIssueEdges {}

/-- `priority`: the place of an issue among the issues. -/
def priority (number : Int) : Nat := g.numbers.idxOf number

/-- Entries of the heap in the order of tuples. -/
def lessEntry (a b : Nat × Int) : Bool := a.1 < b.1 || (a.1 = b.1 && a.2 < b.2)

/-- `heappop`: the least entry, and the others. -/
def heappop : List (Nat × Int) → Option ((Nat × Int) × List (Nat × Int))
  | [] => none
  | entry :: rest =>
      let least := rest.foldl (fun a b => if lessEntry b a then b else a) entry
      some (least, (entry :: rest).erase least)

/-- One turn of the loop over the dependents of a node that is done. -/
def settle (s : List (Nat × Int) × Dict Int Int) (dependent : Int) : List (Nat × Int) × Dict Int Int :=
  let inDegree := s.2.set dependent ((s.2.get? dependent).getD 0 - 1)
  if inDegree.get? dependent = some 0 then (s.1 ++ [(g.priority dependent, dependent)], inDegree)
  else (s.1, inDegree)

/-- The loop over what is ready. -/
def readyLoop (reverseDeps : Dict Int (List Int)) : Nat → List (Nat × Int) → Dict Int Int →
    List Int → Option (List Int)
  | 0, ready, _, result => if ready = [] then some result else none
  | fuel + 1, ready, inDegree, result =>
      match heappop ready with
      | none => some result
      | some (entry, ready) =>
          let (ready, inDegree) :=
            ((reverseDeps.get? entry.2).getD []).foldl g.settle (ready, inDegree)
          readyLoop reverseDeps fuel ready inDegree (result ++ [entry.2])

/-- `topological_sort`. -/
def topologicalSort : Except DependencyError (List Int) := do
  g.detectCycles
  let t := g.degrees
  let ready := (g.numbers.filter fun number => (t.inDegree.get? number).getD 0 = 0).map
    fun number => (g.priority number, number)
  match g.readyLoop t.reverseDeps g.issues.length ready t.inDegree [] with
  | none => .error .outOfFuel
  | some result =>
      if result.length ≠ g.issues.length then .error .incomplete else .ok result

end DependencyGraph

/-! ## The resolver -/

/-- `DependencyResolver`. -/
structure DependencyResolver where
  graph : DependencyGraph := .empty
  skipClosed : Bool := true
  completed : Finset Int := ∅

namespace DependencyResolver

def addDependency (r : DependencyResolver) (number dependsOn : Int) :
    Except DependencyError DependencyResolver := do
  let graph ← r.graph.addDependency number dependsOn
  pure { r with graph }

def addIssue (r : DependencyResolver) (issue : IssueInfo) :
    Except DependencyError DependencyResolver :=
  if r.skipClosed && (issue.state.isDone || isSkipped issue.labels) then
    .ok { r with completed := insert issue.number r.completed }
  else
    issue.dependencies.foldlM (fun r dep => r.addDependency issue.number dep)
      { r with graph := r.graph.addIssue issue }

end DependencyResolver

/-- The issues with the dependencies that are among them. -/
def queuedInfos (issueInfos : List IssueInfo) : List IssueInfo :=
  issueInfos.map fun info =>
    { number := info.number
      dependencies := info.dependencies.filter fun dep => dep ∈ issueInfos.map IssueInfo.number }

/-- `except CyclicDependencyError`. -/
def orElseInput (numbers : List Int) :
    Except DependencyError (List Int) → Except DependencyError (List Int)
  | .error (.cyclic _) => .ok numbers
  | .error .incomplete => .ok numbers
  | other => other

/-- `order_for_implementation`. -/
def orderForImplementation (issueInfos : List IssueInfo) : Except DependencyError (List Int) := do
  let resolver ← (queuedInfos issueInfos).foldlM DependencyResolver.addIssue { skipClosed := false }
  let resolver ← (queuedInfos issueInfos).foldlM
    (fun r info => info.dependencies.foldlM (fun r dep => r.addDependency info.number dep) r) resolver
  orElseInput (issueInfos.map IssueInfo.number) resolver.graph.topologicalSort

end Hephaestus.Automation
