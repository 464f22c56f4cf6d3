import Hephaestus.Lib.FirstSeen
import Hephaestus.Proofs.DependencyCycles

/-!
# The order of the issues

The loop over the ready issues, with its counts and its heap, takes at every turn the issue
that was added first among those that are ready. So it comes to the greedy order, in which
what an issue depends on stands before it, and which has every issue unless one of them
waits for what is not in the graph.
-/

namespace Hephaestus.Automation

open Relation Hephaestus.Lib Precedence

/-! ## The heap -/

theorem foldl_least (rest : List (Nat × Int)) (entry : Nat × Int) :
    let least := rest.foldl (fun a b => if DependencyGraph.lessEntry b a then b else a) entry
    least ∈ entry :: rest ∧ ∀ e ∈ entry :: rest, DependencyGraph.lessEntry e least = false := by
  induction rest generalizing entry with
  | nil =>
      refine ⟨List.mem_cons_self, fun e he => ?_⟩
      rw [List.mem_singleton.mp he]
      simp [DependencyGraph.lessEntry]
  | cons head rest ih =>
      intro least
      by_cases hless : DependencyGraph.lessEntry head entry = true
      · obtain ⟨hmem, hall⟩ := ih head
        have hleast : least = rest.foldl (fun a b => if DependencyGraph.lessEntry b a then b else a) head := by
          simp only [least, List.foldl_cons, hless, if_true]
        rw [← hleast] at hmem hall
        refine ⟨List.mem_cons_of_mem _ hmem, ?_⟩
        rw [List.forall_mem_cons]
        refine ⟨?_, hall⟩
        have hhead := hall head List.mem_cons_self
        simp only [DependencyGraph.lessEntry, Bool.or_eq_false_iff, Bool.and_eq_false_iff, Bool.or_eq_true,
          Bool.and_eq_true, decide_eq_true_eq, decide_eq_false_iff_not] at hless hhead ⊢
        omega
      · obtain ⟨hmem, hall⟩ := ih entry
        have hleast : least = rest.foldl (fun a b => if DependencyGraph.lessEntry b a then b else a) entry := by
          simp only [least, List.foldl_cons, hless]
          rfl
        rw [← hleast] at hmem hall
        rw [List.forall_mem_cons] at hall
        refine ⟨?_, ?_⟩
        · rcases List.mem_cons.mp hmem with h | h
          · rw [h]
            exact List.mem_cons_self
          · exact List.mem_cons_of_mem _ (List.mem_cons_of_mem _ h)
        · rw [List.forall_mem_cons, List.forall_mem_cons]
          refine ⟨hall.1, ?_, hall.2⟩
          have hentry := hall.1
          simp only [DependencyGraph.lessEntry, Bool.or_eq_false_iff, Bool.and_eq_false_iff, Bool.or_eq_true,
            Bool.and_eq_true, decide_eq_true_eq, decide_eq_false_iff_not] at hless hentry ⊢
          omega

theorem heappop_none {ready : List (Nat × Int)} (h : DependencyGraph.heappop ready = none) :
    ready = [] := by
  cases ready with
  | nil => rfl
  | cons entry rest => cases h

/-- The least entry goes out and the others stay. -/
theorem heappop_some {ready rest : List (Nat × Int)} {entry : Nat × Int}
    (h : DependencyGraph.heappop ready = some (entry, rest)) :
    entry ∈ ready ∧ rest = ready.erase entry
      ∧ ∀ e ∈ ready, DependencyGraph.lessEntry e entry = false := by
  cases ready with
  | nil => cases h
  | cons head tail =>
      obtain ⟨rfl, rfl⟩ := Prod.mk.inj (Option.some.inj h)
      obtain ⟨hmem, hall⟩ := foldl_least tail head
      exact ⟨hmem, rfl, hall⟩

namespace DependencyGraph

variable (g : DependencyGraph)

/-! ## The tables -/

/-- `in_degree[n]`. -/
def degreeIn (inDegree : Dict Int Int) (n : Int) : Int := (inDegree.get? n).getD 0

/-- `reverse_deps[n]`. -/
def dependentsIn (reverseDeps : Dict Int (List Int)) (n : Int) : List Int :=
  (reverseDeps.get? n).getD []

theorem degreeIn_set (inDegree : Dict Int Int) (n m : Int) (degree : Int) :
    degreeIn (inDegree.set n degree) m = if n = m then degree else degreeIn inDegree m := by
  unfold degreeIn
  rw [Dict.get?_set]
  split
  · rfl
  · rfl

theorem addEdges_spec (number : Int) (deps : List Int) (hnodup : deps.Nodup) (t : Degrees) :
    (∀ d, dependentsIn (deps.foldl (Degrees.addEdge number) t).reverseDeps d
        = dependentsIn t.reverseDeps d ++ if d ∈ deps then [number] else [])
      ∧ ∀ m, degreeIn (deps.foldl (Degrees.addEdge number) t).inDegree m
        = degreeIn t.inDegree m + if m = number then (deps.length : Int) else 0 := by
  induction deps generalizing t with
  | nil => exact ⟨fun d => by simp, fun m => by simp⟩
  | cons dep deps ih =>
      obtain ⟨hnew, hnodup⟩ := List.nodup_cons.mp hnodup
      obtain ⟨hrev, hdeg⟩ := ih hnodup (Degrees.addEdge number t dep)
      refine ⟨fun d => ?_, fun m => ?_⟩
      · rw [List.foldl_cons, hrev]
        have hone : dependentsIn (Degrees.addEdge number t dep).reverseDeps d
            = dependentsIn t.reverseDeps d ++ if dep = d then [number] else [] := by
          unfold dependentsIn Degrees.addEdge
          rw [Dict.get?_set]
          split
          · next heq => rw [heq, Option.getD_some]
          · rw [List.append_nil]
        rw [hone, List.append_assoc]
        congr 1
        by_cases heq : dep = d
        · subst heq
          simp [hnew]
        · simp [heq, Ne.symm heq]
      · rw [List.foldl_cons, hdeg]
        have hone : degreeIn (Degrees.addEdge number t dep).inDegree m
            = degreeIn t.inDegree m + if m = number then 1 else 0 := by
          unfold Degrees.addEdge
          rw [degreeIn_set]
          by_cases heq : number = m
          · subst heq
            simp [degreeIn]
          · rw [if_neg heq, if_neg (Ne.symm heq)]
            omega
        rw [hone, List.length_cons]
        split
        · push_cast
          omega
        · omega

theorem degrees_spec (numbers : List Int) (hnodup : numbers.Nodup) (t : Degrees) :
    (∀ d, dependentsIn (numbers.foldl g.addIssueEdges t).reverseDeps d
        = dependentsIn t.reverseDeps d ++ numbers.filter fun n => d ∈ g.getDependencies n)
      ∧ ∀ m, degreeIn (numbers.foldl g.addIssueEdges t).inDegree m
        = degreeIn t.inDegree m + if m ∈ numbers then ((g.getDependencies m).length : Int) else 0 := by
  induction numbers generalizing t with
  | nil => exact ⟨fun d => by simp, fun m => by simp⟩
  | cons number numbers ih =>
      obtain ⟨hnew, hnodup⟩ := List.nodup_cons.mp hnodup
      obtain ⟨hrev, hdeg⟩ := ih hnodup (g.addIssueEdges t number)
      have hstart : ∀ m, degreeIn (if t.inDegree.contains number then t
          else { t with inDegree := t.inDegree.set number 0 }).inDegree m = degreeIn t.inDegree m := by
        intro m
        split
        · rfl
        · next hcontains =>
          show degreeIn (t.inDegree.set number 0) m = _
          rw [degreeIn_set]
          split
          · next heq =>
            subst heq
            rw [Dict.contains, Option.not_isSome_iff_eq_none] at hcontains
            rw [degreeIn, hcontains]
            rfl
          · rfl
      have hkeep : (if t.inDegree.contains number then t
          else { t with inDegree := t.inDegree.set number 0 }).reverseDeps = t.reverseDeps := by
        split
        · rfl
        · rfl
      obtain ⟨hrev₁, hdeg₁⟩ := addEdges_spec number (g.getDependencies number) (g.edges_nodup number)
        (if t.inDegree.contains number then t else { t with inDegree := t.inDegree.set number 0 })
      refine ⟨fun d => ?_, fun m => ?_⟩
      · rw [List.foldl_cons, hrev, addIssueEdges, hrev₁, hkeep, List.append_assoc, List.filter_cons]
        congr 1
        by_cases hd : d ∈ g.getDependencies number
        · simp [hd]
        · simp [hd]
      · rw [List.foldl_cons, hdeg, addIssueEdges, hdeg₁, hstart]
        by_cases heq : m = number
        · subst heq
          simp [hnew]
        · simp [heq]

/-- The loop over the dependents of a node. -/
theorem settle_spec (dependents : List Int) (hnodup : dependents.Nodup) (ready : List (Nat × Int))
    (inDegree : Dict Int Int) :
    (dependents.foldl g.settle (ready, inDegree)).1
        = ready ++ (dependents.filter fun n => degreeIn inDegree n = 1).map (fun n => (g.priority n, n))
      ∧ ∀ m, degreeIn (dependents.foldl g.settle (ready, inDegree)).2 m
        = degreeIn inDegree m - if m ∈ dependents then 1 else 0 := by
  induction dependents generalizing ready inDegree with
  | nil => exact ⟨by simp, fun m => by simp⟩
  | cons n dependents ih =>
      obtain ⟨hnew, hnodup⟩ := List.nodup_cons.mp hnodup
      have hturn : g.settle (ready, inDegree) n
          = (ready ++ (if degreeIn inDegree n = 1 then [(g.priority n, n)] else []),
            inDegree.set n (degreeIn inDegree n - 1)) := by
        unfold settle
        simp only [Dict.get?_set_self]
        by_cases hone : degreeIn inDegree n = 1
        · rw [if_pos hone, ← degreeIn, if_pos (by rw [hone]; rfl)]
        · rw [if_neg hone, ← degreeIn, if_neg (fun h => hone (by have := Option.some.inj h; omega)),
            List.append_nil]
      have hothers : ∀ m, m ∈ dependents → degreeIn (inDegree.set n (degreeIn inDegree n - 1)) m
          = degreeIn inDegree m := by
        intro m hm
        rw [degreeIn_set, if_neg (ne_of_mem_of_not_mem hm hnew).symm]
      obtain ⟨hready, hdeg⟩ := ih hnodup (ready ++ (if degreeIn inDegree n = 1 then [(g.priority n, n)] else []))
        (inDegree.set n (degreeIn inDegree n - 1))
      refine ⟨?_, fun m => ?_⟩
      · rw [List.foldl_cons, hturn, hready, List.append_assoc, List.filter_cons]
        have hfilter : dependents.filter (fun k => degreeIn (inDegree.set n (degreeIn inDegree n - 1)) k = 1)
            = dependents.filter fun k => degreeIn inDegree k = 1 := by
          refine List.filter_congr fun k hk => ?_
          rw [hothers k hk]
        rw [hfilter]
        by_cases hone : degreeIn inDegree n = 1
        · simp [hone]
        · simp [hone]
      · rw [List.foldl_cons, hturn, hdeg, degreeIn_set]
        by_cases heq : n = m
        · subst heq
          simp [hnew]
        · simp [heq, Ne.symm heq]

/-! ## The loop -/

/-- How many dependencies of an issue are not done. -/
def waiting (done : List Int) (n : Int) : Nat := (g.getDependencies n).countP fun d => d ∉ done

theorem waiting_zero {done : List Int} {n : Int} :
    g.waiting done n = 0 ↔ ∀ d ∈ g.getDependencies n, d ∈ done := by
  simp [waiting, List.countP_eq_zero]

/-- A dependency more that is done. -/
theorem waiting_concat {done : List Int} {node : Int} (hnew : node ∉ done) (n : Int) :
    g.waiting done n = g.waiting (done ++ [node]) n + if node ∈ g.getDependencies n then 1 else 0 := by
  have hsplit : ∀ deps : List Int, deps.Nodup → deps.countP (fun d => d ∉ done)
      = deps.countP (fun d => d ∉ done ++ [node]) + if node ∈ deps then 1 else 0 := by
    intro deps hdeps
    induction deps with
    | nil => rfl
    | cons d deps ih =>
        obtain ⟨hd, hdeps⟩ := List.nodup_cons.mp hdeps
        rw [List.countP_cons, List.countP_cons, ih hdeps]
        by_cases heq : d = node
        · subst heq
          simp [hd, hnew]
        · simp [heq, Ne.symm heq]
          omega
  exact hsplit _ (g.edges_nodup n)

/-- What the loop keeps: the heap holds what is ready, and the count of an issue is the
number of its dependencies that are not done. -/
structure LoopState (done : List Int) (ready : List (Nat × Int)) (inDegree : Dict Int Int) : Prop where
  nodup : done.Nodup
  subset : done ⊆ g.numbers
  ordered : Ordered g.getDependencies done
  ready_nodup : ready.Nodup
  mem_ready : ∀ e, e ∈ ready ↔ e.1 = g.priority e.2 ∧ e.2 ∈ g.numbers
    ∧ isReady g.getDependencies done e.2 = true
  degree : ∀ n ∈ g.numbers, degreeIn inDegree n = g.waiting done n

variable {g}

/-- The entry that comes out is of the first issue that is ready. -/
theorem LoopState.find?_eq {done : List Int} {ready rest : List (Nat × Int)} {inDegree : Dict Int Int}
    (h : g.LoopState done ready inDegree) {entry : Nat × Int}
    (hpop : heappop ready = some (entry, rest)) :
    g.numbers.find? (isReady g.getDependencies done) = some entry.2 := by
  obtain ⟨hmem, _, hleast⟩ := heappop_some hpop
  obtain ⟨hpriority, hnumber, hready⟩ := (h.mem_ready entry).mp hmem
  cases hfind : g.numbers.find? (isReady g.getDependencies done) with
  | none => exact absurd hready (List.find?_eq_none.mp hfind _ hnumber)
  | some n =>
      have hn := List.mem_of_find?_eq_some hfind
      have hle := idxOf_find?_le hfind hnumber hready
      have hin : (g.priority n, n) ∈ ready :=
        (h.mem_ready _).mpr ⟨rfl, hn, List.find?_some hfind⟩
      have hge := hleast _ hin
      simp only [lessEntry, Bool.or_eq_false_iff, decide_eq_false_iff_not] at hge
      rw [hpriority] at hge
      unfold priority at hge
      have hsame : g.numbers.idxOf n = g.numbers.idxOf entry.2 := by omega
      rw [(List.idxOf_inj hn).mp hsame]

theorem LoopState.find?_none {done : List Int} {inDegree : Dict Int Int}
    (h : g.LoopState done [] inDegree) :
    g.numbers.find? (isReady g.getDependencies done) = none := by
  refine List.find?_eq_none.mpr fun n hn hready => ?_
  exact List.not_mem_nil ((h.mem_ready (g.priority n, n)).mpr ⟨rfl, hn, hready⟩)

/-- A turn of the loop. -/
theorem LoopState.turn {done : List Int} {ready rest : List (Nat × Int)} {inDegree : Dict Int Int}
    (h : g.LoopState done ready inDegree) {entry : Nat × Int}
    (hpop : heappop ready = some (entry, rest)) :
    let dependents := g.numbers.filter fun n => entry.2 ∈ g.getDependencies n
    g.LoopState (done ++ [entry.2]) (dependents.foldl g.settle (rest, inDegree)).1
      (dependents.foldl g.settle (rest, inDegree)).2 := by
  intro dependents
  obtain ⟨hmem, rfl, _⟩ := heappop_some hpop
  obtain ⟨hpriority, hnumber, hready⟩ := (h.mem_ready entry).mp hmem
  obtain ⟨hnew, hneeds⟩ := isReady_iff.mp hready
  have hdependents : ∀ n, n ∈ dependents ↔ n ∈ g.numbers ∧ entry.2 ∈ g.getDependencies n := by
    intro n
    simp [dependents]
  have hnodup : dependents.Nodup := g.issues_nodup.filter _
  obtain ⟨hpushed, hdegree⟩ := g.settle_spec dependents hnodup (ready.erase entry) inDegree
  -- What waits for the node is not done, and is not the node.
  have hwaits : ∀ n, entry.2 ∈ g.getDependencies n → n ∉ done ++ [entry.2] := by
    intro n hn hin
    rcases List.mem_append.mp hin with hin | hin
    · obtain ⟨before, after, hsplit⟩ := List.append_of_mem hin
      refine hnew ?_
      rw [hsplit]
      exact List.mem_append_left _ (h.ordered before n after hsplit _ hn)
    · rw [List.mem_singleton.mp hin] at hn
      exact hnew (hneeds _ hn)
  have hlater : ∀ n ∈ g.numbers, n ≠ entry.2 → (isReady g.getDependencies (done ++ [entry.2]) n = true
      ↔ isReady g.getDependencies done n = true ∨ n ∈ dependents ∧ degreeIn inDegree n = 1) := by
    intro n hn hne
    have hcount := g.waiting_concat hnew n
    rw [isReady_iff, isReady_iff, hdependents, h.degree n hn, ← g.waiting_zero, ← g.waiting_zero]
    by_cases hdep : entry.2 ∈ g.getDependencies n
    · have hout := hwaits n hdep
      have hout' : n ∉ done := fun hin => hout (List.mem_append_left _ hin)
      rw [if_pos hdep] at hcount
      simp only [hout, hout', hdep, not_false_eq_true, true_and, hn]
      omega
    · rw [if_neg hdep] at hcount
      simp only [List.mem_append, List.mem_singleton, hne, hdep, or_false, and_false, false_and]
      refine and_congr_right fun _ => ?_
      omega
  refine ⟨?_, ?_, h.ordered.concat hneeds, ?_, ?_, ?_⟩
  · exact h.nodup.append (List.nodup_singleton _) (List.disjoint_singleton.mpr hnew)
  · exact List.append_subset.mpr ⟨h.subset, List.cons_subset.mpr ⟨hnumber, List.nil_subset _⟩⟩
  · rw [hpushed]
    refine (h.ready_nodup.erase _).append ?_ ?_
    · exact (hnodup.filter _).map fun a b hab => (Prod.mk.inj hab).2
    · intro e he hin
      obtain ⟨n, hn, rfl⟩ := List.mem_map.mp hin
      obtain ⟨hn, hone⟩ := List.mem_filter.mp hn
      obtain ⟨hnumbers, hdep⟩ := (hdependents n).mp hn
      have hzero : g.waiting done n = 0 :=
        g.waiting_zero.mpr (isReady_iff.mp ((h.mem_ready _).mp (List.mem_of_mem_erase he)).2.2).2
      have hone := of_decide_eq_true hone
      rw [h.degree n hnumbers] at hone
      omega
  · intro e
    rw [hpushed, List.mem_append, h.ready_nodup.mem_erase_iff, h.mem_ready]
    have hentry : ∀ e : Nat × Int, e.1 = g.priority e.2 → e.2 = entry.2 → e = entry := by
      intro e hfst hsnd
      exact Prod.ext (by rw [hfst, hsnd, hpriority]) hsnd
    constructor
    · rintro (⟨hne, hfst, hnode, hnow⟩ | hin)
      · have hother : e.2 ≠ entry.2 := fun heq => hne (hentry e hfst heq)
        exact ⟨hfst, hnode, (hlater e.2 hnode hother).mpr (.inl hnow)⟩
      · obtain ⟨n, hn, rfl⟩ := List.mem_map.mp hin
        obtain ⟨hn, hone⟩ := List.mem_filter.mp hn
        obtain ⟨hnode, hdep⟩ := (hdependents n).mp hn
        have hother : n ≠ entry.2 := by
          rintro rfl
          exact hwaits _ hdep (List.mem_append_right _ (List.mem_singleton_self _))
        exact ⟨rfl, hnode, (hlater n hnode hother).mpr (.inr ⟨hn, of_decide_eq_true hone⟩)⟩
    · rintro ⟨hfst, hnode, hnow⟩
      have hother : e.2 ≠ entry.2 := by
        intro heq
        rw [heq] at hnow
        exact (isReady_iff.mp hnow).1 (List.mem_append_right _ (List.mem_singleton_self _))
      rcases (hlater e.2 hnode hother).mp hnow with hbefore | ⟨hdep, hone⟩
      · exact .inl ⟨fun heq => hother (congrArg Prod.snd heq), hfst, hnode, hbefore⟩
      · refine .inr (List.mem_map.mpr ⟨e.2, List.mem_filter.mpr ⟨hdep, decide_eq_true hone⟩, ?_⟩)
        rw [← hfst]
  · intro n hn
    have hcount := g.waiting_concat hnew n
    rw [hdegree, h.degree n hn, hcount]
    simp only [hdependents, hn, true_and]
    split
    · push_cast
      omega
    · push_cast
      omega

/-- The loop comes to the greedy order, in as many turns as there are issues left. -/
theorem readyLoop_eq {reverseDeps : Dict Int (List Int)}
    (hreverse : ∀ d, dependentsIn reverseDeps d = g.numbers.filter fun n => d ∈ g.getDependencies n)
    (k : Nat) {done : List Int} {ready : List (Nat × Int)} {inDegree : Dict Int Int}
    (h : g.LoopState done ready inDegree) (hlength : g.numbers.length ≤ done.length + k) :
    g.readyLoop reverseDeps k ready inDegree done
      = some (greedyFrom g.getDependencies g.numbers k done) := by
  induction k generalizing done ready inDegree with
  | zero =>
      have hall : done.Perm g.numbers := (h.nodup.subperm h.subset).perm_of_length_le hlength
      have hnone : ready = [] := by
        refine List.eq_nil_iff_forall_not_mem.mpr fun e he => ?_
        obtain ⟨_, hnode, hready⟩ := (h.mem_ready e).mp he
        exact (isReady_iff.mp hready).1 (hall.mem_iff.mpr hnode)
      rw [readyLoop, if_pos hnone]
      rfl
  | succ k ih =>
      rw [readyLoop, greedyFrom]
      cases hpop : heappop ready with
      | none =>
          obtain rfl := heappop_none hpop
          rw [h.find?_none]
      | some popped =>
          obtain ⟨entry, rest⟩ := popped
          rw [h.find?_eq hpop]
          have hturn := h.turn hpop
          rw [← hreverse] at hturn
          refine ih hturn ?_
          rw [List.length_append, List.length_singleton]
          omega

/-- At the start the issues without dependencies are ready. -/
theorem loopState_start : g.LoopState []
    ((g.numbers.filter fun n => degreeIn g.degrees.inDegree n = 0).map fun n => (g.priority n, n))
    g.degrees.inDegree := by
  have hdegree : ∀ n ∈ g.numbers, degreeIn g.degrees.inDegree n = g.waiting [] n := by
    intro n hn
    have h := (g.degrees_spec g.numbers g.issues_nodup {}).2 n
    rw [if_pos hn] at h
    have hall : g.waiting [] n = (g.getDependencies n).length := by
      simp [waiting]
    rw [hall]
    exact h.trans (Int.zero_add _)
  refine ⟨List.nodup_nil, List.nil_subset _, by simp [Ordered], ?_, fun e => ?_, hdegree⟩
  · exact (g.issues_nodup.filter _).map fun a b hab => (Prod.mk.inj hab).2
  · rw [isReady_iff, List.mem_map]
    constructor
    · rintro ⟨n, hn, rfl⟩
      obtain ⟨hn, hzero⟩ := List.mem_filter.mp hn
      have hzero := of_decide_eq_true hzero
      rw [hdegree n hn] at hzero
      have hnone : g.waiting [] n = 0 := by omega
      exact ⟨rfl, hn, List.not_mem_nil, g.waiting_zero.mp hnone⟩
    · rintro ⟨hfst, hn, _, hneeds⟩
      have hzero := g.waiting_zero.mpr hneeds
      refine ⟨e.2, List.mem_filter.mpr ⟨hn, decide_eq_true ?_⟩, by rw [← hfst]⟩
      rw [hdegree e.2 hn, hzero]
      rfl

theorem numbers_nodup (g : DependencyGraph) : g.numbers.Nodup := g.issues_nodup

theorem length_numbers : g.numbers.length = g.issues.length := List.length_map _

/-- The sort, where there is no cycle. -/
theorem topologicalSort_eq (hok : g.detectCycles = .ok ()) :
    g.topologicalSort = if (greedyOrder g.getDependencies g.numbers).length ≠ g.issues.length then
        .error .incomplete
      else .ok (greedyOrder g.getDependencies g.numbers) := by
  have hreverse : ∀ d, dependentsIn g.degrees.reverseDeps d
      = g.numbers.filter fun n => d ∈ g.getDependencies n :=
    fun d => ((g.degrees_spec g.numbers g.issues_nodup {}).1 d).trans (List.nil_append _)
  have hlength : g.numbers.length ≤ ([] : List Int).length + g.issues.length := by
    rw [length_numbers]
    exact Nat.le_add_left _ _
  have hloop := readyLoop_eq hreverse g.issues.length loopState_start hlength
  have hgreedy : greedyFrom g.getDependencies g.numbers g.issues.length []
      = greedyOrder g.getDependencies g.numbers := by
    rw [greedyOrder, length_numbers]
  rw [hgreedy] at hloop
  unfold degreeIn at hloop
  unfold topologicalSort
  rw [hok]
  simp only [bind, Except.bind, hloop]

/-- Where nothing needs itself and all that is needed is an issue, every issue is grounded. -/
theorem grounded_of_acyclic (hacyclic : ∀ n, ¬ TransGen (Before g.getDependencies) n n)
    (hclosed : ∀ n ∈ g.numbers, ∀ d ∈ g.getDependencies n, d ∈ g.numbers) :
    ∀ n ∈ g.numbers, Grounded g.getDependencies g.numbers n := by
  have hacc : ∀ n ∈ g.numbers, Acc (Before g.getDependencies) n := by
    rcases g.detectCycles_spec with ⟨_, hacc⟩ | ⟨cycles, _, hne, hcycles⟩
    · exact hacc
    · obtain ⟨cycle, hcycle⟩ := List.exists_mem_of_ne_nil cycles hne
      obtain ⟨n, hn⟩ := (hcycles cycle hcycle).transGen
      exact absurd hn (hacyclic n)
  intro n hn
  have hn' := hacc n hn
  induction hn' with
  | intro n _ ih => exact .intro hn fun d hd => ih d hd (hclosed n hn d hd)

/-- `topological_sort` raises with the cycles that it found. -/
theorem topologicalSort_cyclic (g : DependencyGraph) (h : ∃ n, TransGen (Before g.getDependencies) n n) :
    ∃ cycles, g.topologicalSort = .error (.cyclic cycles) ∧ cycles ≠ []
      ∧ ∀ cycle ∈ cycles, IsCycle g.getDependencies cycle := by
  obtain ⟨n, hn⟩ := h
  rcases g.detectCycles_spec with ⟨hok, _⟩ | ⟨cycles, herror, hne, hcycles⟩
  · exact absurd hn (g.detectCycles_ok.mp hok n)
  · refine ⟨cycles, ?_, hne, hcycles⟩
    unfold topologicalSort
    rw [herror]
    rfl

/-- It raises where something depends on what is not in the graph. -/
theorem topologicalSort_open (g : DependencyGraph) (hacyclic : ∀ n, ¬ TransGen (Before g.getDependencies) n n)
    (hopen : ∃ n ∈ g.numbers, ∃ d ∈ g.getDependencies n, d ∉ g.numbers) :
    g.topologicalSort = .error .incomplete := by
  obtain ⟨n, hn, d, hd, hout⟩ := hopen
  rw [topologicalSort_eq (g.detectCycles_ok.mpr hacyclic), if_pos]
  rw [← length_numbers, Ne, length_greedyOrder g.numbers_nodup]
  intro hall
  cases hall n hn with
  | intro _ hneeds => exact hout (hneeds d hd).mem

/-- Else it returns the greedy order. -/
theorem topologicalSort_closed (g : DependencyGraph)
    (hacyclic : ∀ n, ¬ TransGen (Before g.getDependencies) n n)
    (hclosed : ∀ n ∈ g.numbers, ∀ d ∈ g.getDependencies n, d ∈ g.numbers) :
    ∃ order, g.topologicalSort = .ok order ∧ order.Perm g.numbers
      ∧ ∀ before n after, order = before ++ n :: after →
        (∀ d ∈ g.getDependencies n, d ∈ before)
          ∧ ∀ m ∈ g.numbers, m ∉ before → (∀ d ∈ g.getDependencies m, d ∈ before) →
            g.numbers.idxOf n ≤ g.numbers.idxOf m := by
  have hgrounded := grounded_of_acyclic hacyclic hclosed
  refine ⟨_, ?_, greedyOrder_perm g.numbers_nodup hgrounded, fun before n after hsplit => ⟨?_, ?_⟩⟩
  · rw [topologicalSort_eq (g.detectCycles_ok.mpr hacyclic), if_neg]
    rw [← length_numbers, Ne, not_not]
    exact (length_greedyOrder g.numbers_nodup).mpr hgrounded
  · exact greedyOrder_ordered before n after hsplit
  · exact fun m hm hnew hneeds => greedyOrder_first hsplit hm hnew hneeds

/-- `topological_sort` raises with the cycles that it found where some issue needs itself,
however far around. Else it raises where an issue depends on what is not in the graph, and
returns the greedy order where none does. -/
theorem topologicalSort_spec (g : DependencyGraph) :
    ((∃ n, TransGen (Before g.getDependencies) n n) → ∃ cycles,
        g.topologicalSort = .error (.cyclic cycles) ∧ cycles ≠ []
          ∧ ∀ cycle ∈ cycles, IsCycle g.getDependencies cycle)
      ∧ ((∀ n, ¬ TransGen (Before g.getDependencies) n n) →
        (∃ n ∈ g.numbers, ∃ d ∈ g.getDependencies n, d ∉ g.numbers) →
        g.topologicalSort = .error .incomplete)
      ∧ ((∀ n, ¬ TransGen (Before g.getDependencies) n n) →
        (∀ n ∈ g.numbers, ∀ d ∈ g.getDependencies n, d ∈ g.numbers) →
        ∃ order, g.topologicalSort = .ok order ∧ order.Perm g.numbers
          ∧ ∀ before n after, order = before ++ n :: after →
            (∀ d ∈ g.getDependencies n, d ∈ before)
              ∧ ∀ m ∈ g.numbers, m ∉ before → (∀ d ∈ g.getDependencies m, d ∈ before) →
                g.numbers.idxOf n ≤ g.numbers.idxOf m) :=
  ⟨g.topologicalSort_cyclic, g.topologicalSort_open, g.topologicalSort_closed⟩

/-! ## Building the graph -/

theorem numbers_addIssue (g : DependencyGraph) (issue : IssueInfo) :
    (g.addIssue issue).numbers
      = if issue.number ∈ g.numbers then g.numbers else g.numbers ++ [issue.number] :=
  Dict.keys_set g.issues issue.number issue

theorem getDependencies_addIssue (g : DependencyGraph) (issue : IssueInfo) (n : Int) :
    (g.addIssue issue).getDependencies n = g.getDependencies n :=
  g.get?_edgesFor issue.number n

theorem addDependency_ok (g : DependencyGraph) {number : Int} (h : number ∈ g.numbers) (dep : Int) :
    ∃ g', g.addDependency number dep = .ok g' ∧ g'.numbers = g.numbers
      ∧ ∀ n d, d ∈ g'.getDependencies n ↔ d ∈ g.getDependencies n ∨ n = number ∧ d = dep := by
  refine ⟨_, dif_pos h, rfl, fun n d => ?_⟩
  show d ∈ ((g.edgesWith number dep).get? n).getD [] ↔ _
  rw [get?_edgesWith]
  by_cases heq : number = n
  · subst heq
    by_cases hin : dep ∈ g.getDependencies number
    · rw [if_neg (by simp [hin])]
      refine ⟨.inl, fun hor => hor.elim id fun h => h.2 ▸ hin⟩
    · rw [if_pos ⟨rfl, hin⟩, List.mem_append, List.mem_singleton]
      simp
  · rw [if_neg (by simp [heq])]
    exact ⟨.inl, fun hor => hor.elim id fun h => absurd h.1.symm heq⟩

end DependencyGraph

/-- The edges of an issue, one after the other. -/
theorem addDependencies_ok (r : DependencyResolver) {number : Int} (h : number ∈ r.graph.numbers)
    (deps : List Int) :
    ∃ r', deps.foldlM (fun r dep => r.addDependency number dep) r = .ok r'
      ∧ r'.skipClosed = r.skipClosed ∧ r'.graph.numbers = r.graph.numbers
      ∧ ∀ n d, d ∈ r'.graph.getDependencies n
        ↔ d ∈ r.graph.getDependencies n ∨ n = number ∧ d ∈ deps := by
  induction deps generalizing r with
  | nil => exact ⟨r, rfl, rfl, rfl, fun n d => by simp⟩
  | cons dep deps ih =>
      obtain ⟨graph, hadd, hnumbers, hedges⟩ := r.graph.addDependency_ok h dep
      obtain ⟨r', hrest, hskip, hnumbers', hedges'⟩ := ih { r with graph } (hnumbers ▸ h)
      refine ⟨r', ?_, hskip, hnumbers'.trans hnumbers, fun n d => ?_⟩
      · have hone : r.addDependency number dep = .ok { r with graph } := by
          unfold DependencyResolver.addDependency
          rw [hadd]
          rfl
        rw [List.foldlM_cons, hone]
        exact hrest
      · rw [hedges', hedges, List.mem_cons, and_or_left, or_assoc]

theorem addIssue_ok (r : DependencyResolver) (hskip : r.skipClosed = false) (issue : IssueInfo) :
    ∃ r', r.addIssue issue = .ok r' ∧ r'.skipClosed = false
      ∧ r'.graph.numbers = (if issue.number ∈ r.graph.numbers then r.graph.numbers
        else r.graph.numbers ++ [issue.number])
      ∧ ∀ n d, d ∈ r'.graph.getDependencies n
        ↔ d ∈ r.graph.getDependencies n ∨ n = issue.number ∧ d ∈ issue.dependencies := by
  have hin : issue.number ∈ (r.graph.addIssue issue).numbers := by
    rw [DependencyGraph.numbers_addIssue]
    split
    · next h => exact h
    · exact List.mem_append_right _ (List.mem_singleton_self _)
  obtain ⟨r', hadd, hskip', hnumbers, hedges⟩ :=
    addDependencies_ok { r with graph := r.graph.addIssue issue } hin issue.dependencies
  refine ⟨r', ?_, hskip'.trans hskip, ?_, fun n d => ?_⟩
  · unfold DependencyResolver.addIssue
    rw [hskip, Bool.false_and, if_neg Bool.false_ne_true]
    exact hskip ▸ hadd
  · rw [hnumbers, DependencyGraph.numbers_addIssue]
  · rw [hedges, DependencyGraph.getDependencies_addIssue]

theorem addIssues_ok (infos : List IssueInfo) (r : DependencyResolver) (hskip : r.skipClosed = false)
    {before : List Int} (hbefore : r.graph.numbers = before.eraseDups) :
    ∃ r', infos.foldlM DependencyResolver.addIssue r = .ok r' ∧ r'.skipClosed = false
      ∧ r'.graph.numbers = (before ++ infos.map IssueInfo.number).eraseDups
      ∧ ∀ n d, d ∈ r'.graph.getDependencies n ↔ d ∈ r.graph.getDependencies n
        ∨ ∃ info ∈ infos, n = info.number ∧ d ∈ info.dependencies := by
  induction infos generalizing r before with
  | nil => exact ⟨r, rfl, hskip, by rw [hbefore, List.map_nil, List.append_nil], fun n d => by simp⟩
  | cons info infos ih =>
      obtain ⟨r₁, hone, hskip₁, hnumbers₁, hedges₁⟩ := addIssue_ok r hskip info
      have hbefore₁ : r₁.graph.numbers = (before ++ [info.number]).eraseDups := by
        rw [hnumbers₁, hbefore, eraseDups_concat]
        simp only [List.mem_eraseDups]
      obtain ⟨r', hrest, hskip', hnumbers', hedges'⟩ := ih r₁ hskip₁ hbefore₁
      refine ⟨r', ?_, hskip', ?_, fun n d => ?_⟩
      · rw [List.foldlM_cons, hone]
        exact hrest
      · rw [hnumbers', List.append_assoc]
        rfl
      · rw [hedges', hedges₁, or_assoc]
        simp only [List.mem_cons, exists_eq_or_imp]

/-- The edges once more. -/
theorem addAllDependencies_ok (infos : List IssueInfo) (r : DependencyResolver)
    (hin : ∀ info ∈ infos, info.number ∈ r.graph.numbers) :
    ∃ r', infos.foldlM
        (fun r info => info.dependencies.foldlM (fun r dep => r.addDependency info.number dep) r) r = .ok r'
      ∧ r'.graph.numbers = r.graph.numbers
      ∧ ∀ n d, d ∈ r'.graph.getDependencies n ↔ d ∈ r.graph.getDependencies n
        ∨ ∃ info ∈ infos, n = info.number ∧ d ∈ info.dependencies := by
  induction infos generalizing r with
  | nil => exact ⟨r, rfl, rfl, fun n d => by simp⟩
  | cons info infos ih =>
      rw [List.forall_mem_cons] at hin
      obtain ⟨r₁, hone, _, hnumbers₁, hedges₁⟩ := addDependencies_ok r hin.1 info.dependencies
      obtain ⟨r', hrest, hnumbers', hedges'⟩ := ih r₁ (hnumbers₁ ▸ hin.2)
      refine ⟨r', ?_, hnumbers'.trans hnumbers₁, fun n d => ?_⟩
      · rw [List.foldlM_cons, hone]
        exact hrest
      · rw [hedges', hedges₁, or_assoc]
        simp only [List.mem_cons, exists_eq_or_imp]

/-- A dependency among the given issues. -/
def Needs (issueInfos : List IssueInfo) (d n : Int) : Prop :=
  ∃ info ∈ issueInfos, n = info.number ∧ d ∈ info.dependencies ∧ d ∈ issueInfos.map IssueInfo.number

/-- The graph that `order_for_implementation` sorts. -/
theorem orderForImplementation_eq (issueInfos : List IssueInfo) :
    ∃ g : DependencyGraph, g.numbers = (issueInfos.map IssueInfo.number).eraseDups
      ∧ Before g.getDependencies = Needs issueInfos
      ∧ orderForImplementation issueInfos
        = orElseInput (issueInfos.map IssueInfo.number) g.topologicalSort := by
  have hqueued : (queuedInfos issueInfos).map IssueInfo.number = issueInfos.map IssueInfo.number := by
    rw [queuedInfos, List.map_map]
    rfl
  have hneeds : ∀ n d, (∃ info ∈ queuedInfos issueInfos, n = info.number ∧ d ∈ info.dependencies)
      ↔ Needs issueInfos d n := by
    intro n d
    unfold queuedInfos Needs
    constructor
    · rintro ⟨_, hqueue, rfl, hd⟩
      obtain ⟨info, hinfo, rfl⟩ := List.mem_map.mp hqueue
      obtain ⟨hd, hin⟩ := List.mem_filter.mp hd
      exact ⟨info, hinfo, rfl, hd, of_decide_eq_true hin⟩
    · rintro ⟨info, hinfo, rfl, hd, hin⟩
      exact ⟨_, List.mem_map.mpr ⟨info, hinfo, rfl⟩, rfl, List.mem_filter.mpr ⟨hd, decide_eq_true hin⟩⟩
  obtain ⟨r₁, hissues, _, hnumbers₁, hedges₁⟩ :=
    @addIssues_ok (queuedInfos issueInfos) { skipClosed := false } rfl [] rfl
  rw [List.nil_append, hqueued] at hnumbers₁
  obtain ⟨r₂, hdeps, hnumbers₂, hedges₂⟩ := addAllDependencies_ok (queuedInfos issueInfos) r₁ (by
    intro info hinfo
    rw [hnumbers₁, List.mem_eraseDups, ← hqueued]
    exact List.mem_map.mpr ⟨info, hinfo, rfl⟩)
  refine ⟨r₂.graph, hnumbers₂.trans hnumbers₁, ?_, ?_⟩
  · funext d n
    refine propext ?_
    rw [Before, hedges₂, hedges₁, hneeds, or_assoc, or_self]
    exact ⟨fun hor => hor.elim (fun h => absurd h List.not_mem_nil) id, .inr⟩
  · unfold orderForImplementation
    simp only [hissues, hdeps, bind, Except.bind]

/-- Where some issue depends on itself, `order_for_implementation` returns the input. -/
theorem orderForImplementation_cyclic {issueInfos : List IssueInfo}
    (h : ∃ n, TransGen (Needs issueInfos) n n) :
    orderForImplementation issueInfos = .ok (issueInfos.map IssueInfo.number) := by
  obtain ⟨g, _, hbefore, heq⟩ := orderForImplementation_eq issueInfos
  rw [← hbefore] at h
  obtain ⟨cycles, herror, _⟩ := g.topologicalSort_cyclic h
  rw [heq, herror]
  rfl

/-- Else it puts what an issue depends on before it, and keeps to the input where it can. -/
theorem orderForImplementation_acyclic {issueInfos : List IssueInfo}
    (h : ∀ n, ¬ TransGen (Needs issueInfos) n n) : ∃ order,
    orderForImplementation issueInfos = .ok order
      ∧ order.Perm (issueInfos.map IssueInfo.number).eraseDups
      ∧ ∀ before n after, order = before ++ n :: after →
        (∀ d, Needs issueInfos d n → d ∈ before)
          ∧ ∀ m ∈ issueInfos.map IssueInfo.number, m ∉ before →
            (∀ d, Needs issueInfos d m → d ∈ before) →
            (issueInfos.map IssueInfo.number).eraseDups.idxOf n
              ≤ (issueInfos.map IssueInfo.number).eraseDups.idxOf m := by
  obtain ⟨g, hnumbers, hbefore, heq⟩ := orderForImplementation_eq issueInfos
  have hneeds : ∀ n d, d ∈ g.getDependencies n ↔ Needs issueInfos d n := by
    intro n d
    rw [← hbefore]
    rfl
  rw [← hbefore] at h
  obtain ⟨order, hok, hperm, hgreedy⟩ := g.topologicalSort_closed h fun n _ d hd => by
    obtain ⟨_, _, _, _, hin⟩ := (hneeds n d).mp hd
    rw [hnumbers, List.mem_eraseDups]
    exact hin
  simp only [hneeds, hnumbers, List.mem_eraseDups] at hperm hgreedy
  exact ⟨order, by rw [heq, hok]; rfl, hperm, hgreedy⟩

/-- `order_for_implementation` puts what an issue depends on before it, and else keeps the
order of the input. Where some issue depends on itself, however far around, it returns the
input. -/
theorem orderForImplementation_spec (issueInfos : List IssueInfo) :
    ((∃ n, TransGen (Needs issueInfos) n n) →
        orderForImplementation issueInfos = .ok (issueInfos.map IssueInfo.number))
      ∧ ((∀ n, ¬ TransGen (Needs issueInfos) n n) → ∃ order,
        orderForImplementation issueInfos = .ok order
          ∧ order.Perm (issueInfos.map IssueInfo.number).eraseDups
          ∧ ∀ before n after, order = before ++ n :: after →
            (∀ d, Needs issueInfos d n → d ∈ before)
              ∧ ∀ m ∈ issueInfos.map IssueInfo.number, m ∉ before →
                (∀ d, Needs issueInfos d m → d ∈ before) →
                (issueInfos.map IssueInfo.number).eraseDups.idxOf n
                  ≤ (issueInfos.map IssueInfo.number).eraseDups.idxOf m) :=
  ⟨orderForImplementation_cyclic, orderForImplementation_acyclic⟩

end Hephaestus.Automation
