import Mathlib.Data.Finset.Card
import Mathlib.Data.List.Chain
import Hephaestus.Automation.DependencyResolver
import Hephaestus.Lib.Precedence

/-!
# The search for cycles

Every node the search has visited is on the path or all it needs is done; that is what a
search that finds nothing leaves, so that nothing needs itself. What it records is a walk
along the edges that comes back to where it began. The search ends, because every call
visits a node that was not visited.
-/

namespace Hephaestus.Automation

open Relation Hephaestus.Lib Precedence

/-- A walk from a node back to it. -/
def IsCycle (deps : Int → List Int) (cycle : List Int) : Prop :=
  ∃ first rest, cycle = first :: rest ++ [first] ∧ List.IsChain (fun n d => d ∈ deps n) cycle

theorem transGen_of_chain {deps : Int → List Int} {first last : Int} {rest : List Int}
    (h : List.IsChain (fun n d => d ∈ deps n) (first :: rest ++ [last])) :
    TransGen (Before deps) last first := by
  induction rest generalizing first with
  | nil =>
      rw [List.cons_append, List.nil_append, List.isChain_cons_cons] at h
      exact .single h.1
  | cons next rest ih =>
      rw [List.cons_append, List.cons_append, List.isChain_cons_cons] at h
      exact (ih h.2).tail h.1

theorem IsCycle.transGen {deps : Int → List Int} {cycle : List Int} (h : IsCycle deps cycle) :
    ∃ n, TransGen (Before deps) n n := by
  obtain ⟨first, rest, rfl, hchain⟩ := h
  exact ⟨first, transGen_of_chain hchain⟩

/-- The end of a path, from a node that the last one needs. -/
theorem isCycle_drop {deps : Int → List Int} {path : List Int} {node dep : Int}
    (hchain : List.IsChain (fun n d => d ∈ deps n) (path ++ [node])) (hdep : dep ∈ deps node)
    (hmem : dep ∈ path ++ [node]) :
    IsCycle deps ((path ++ [node]).drop ((path ++ [node]).idxOf dep) ++ [dep]) := by
  have hlt := List.idxOf_lt_length_of_mem hmem
  have hdrop := List.drop_eq_getElem_cons hlt
  rw [List.getElem_idxOf hlt] at hdrop
  refine ⟨dep, _, by rw [hdrop], ?_⟩
  have hlast : ((path ++ [node]).drop ((path ++ [node]).idxOf dep)).getLast? = some node := by
    rw [List.getLast?_drop, if_neg (by omega), List.getLast?_concat]
  rw [List.isChain_append]
  refine ⟨hchain.drop _, List.isChain_singleton _, ?_⟩
  intro x hx y hy
  rw [hlast] at hx
  obtain rfl := Option.some.inj hx
  obtain rfl := Option.some.inj hy
  exact hdep

/-- What a search from a node leaves: nothing is unvisited, at most one cycle is recorded,
and where none is and what was visited was on the path or done, so it is now. -/
structure Searched (deps : Int → List Int) (path : List Int) (targets : List Int) (s : CycleSearch)
    (found : Bool) (s' : CycleSearch) : Prop where
  visited : s.visited ⊆ s'.visited
  missed : found = false → s'.cycles = s.cycles
  recorded : found = true → ∃ cycle, s'.cycles = s.cycles ++ [cycle] ∧ IsCycle deps cycle
  done : found = false → (∀ v ∈ s.visited, v ∈ path ∨ Acc (Before deps) v) →
    (∀ n ∈ targets, Acc (Before deps) n) ∧ ∀ v ∈ s'.visited, v ∈ path ∨ Acc (Before deps) v

variable {deps : Int → List Int}

/-- The loop over dependencies, by what a call leaves. -/
theorem scan_spec {visit : Int → CycleSearch → Option (Bool × CycleSearch)} {recStack : Finset Int}
    {path : List Int} {node : Int} (hstack : ∀ n, n ∈ recStack ↔ n ∈ path ++ [node])
    (hchain : List.IsChain (fun n d => d ∈ deps n) (path ++ [node])) {start : Finset Int}
    (hvisit : ∀ dep s, dep ∈ deps node → dep ∉ s.visited → start ⊆ s.visited →
      ∃ found s', visit dep s = some (found, s') ∧ Searched deps (path ++ [node]) [dep] s found s') :
    ∀ (rest : List Int) (s : CycleSearch), rest ⊆ deps node → start ⊆ s.visited →
      ∃ found s', scan visit recStack (path ++ [node]) rest s = some (found, s')
        ∧ Searched deps (path ++ [node]) rest s found s' := by
  intro rest
  induction rest with
  | nil =>
      intro s _ _
      exact ⟨false, s, rfl, Finset.Subset.refl _, fun _ => rfl, fun h => Bool.noConfusion h,
        fun _ h => ⟨by simp, h⟩⟩
  | cons dep rest ih =>
      intro s hsub hstart
      obtain ⟨hdep, hrest⟩ := List.cons_subset.mp hsub
      unfold scan
      by_cases hvisited : dep ∈ s.visited
      · rw [if_neg (not_not.mpr hvisited)]
        by_cases hon : dep ∈ recStack
        · rw [if_pos hon]
          refine ⟨true, _, rfl, Finset.Subset.refl _, fun h => Bool.noConfusion h, fun _ => ?_, fun h => Bool.noConfusion h⟩
          exact ⟨_, rfl, isCycle_drop hchain hdep ((hstack dep).mp hon)⟩
        · rw [if_neg hon]
          obtain ⟨found, s', hscan, hs'⟩ := ih s hrest hstart
          refine ⟨found, s', hscan, hs'.visited, hs'.missed, hs'.recorded, fun hfound hpath => ?_⟩
          obtain ⟨hdone, hleft⟩ := hs'.done hfound hpath
          refine ⟨?_, hleft⟩
          rw [List.forall_mem_cons]
          refine ⟨(hpath dep hvisited).resolve_left fun hin => hon ((hstack dep).mpr hin), hdone⟩
      · rw [if_pos hvisited]
        obtain ⟨found, s₁, hcall, hs₁⟩ := hvisit dep s hdep hvisited hstart
        rw [hcall]
        show ∃ found' s', (if found = true then some (true, s₁) else scan visit recStack (path ++ [node]) rest s₁)
          = some (found', s') ∧ _
        cases found with
        | true => exact ⟨true, s₁, rfl, hs₁.visited, fun h => Bool.noConfusion h, hs₁.recorded, fun h => Bool.noConfusion h⟩
        | false =>
            obtain ⟨found, s', hscan, hs'⟩ := ih s₁ hrest (hstart.trans hs₁.visited)
            have hsame := hs₁.missed rfl
            refine ⟨found, s', hscan, hs₁.visited.trans hs'.visited, ?_, ?_, ?_⟩
            · rw [← hsame]
              exact hs'.missed
            · rw [← hsame]
              exact hs'.recorded
            · intro hfound hpath
              obtain ⟨hone, hleft⟩ := hs₁.done rfl hpath
              obtain ⟨hdone, hleft'⟩ := hs'.done hfound hleft
              refine ⟨?_, hleft'⟩
              rw [List.forall_mem_cons]
              exact ⟨hone dep (List.mem_singleton_self _), hdone⟩

/-- A call of `dfs`, on as much fuel as there are nodes that were not visited. -/
theorem dfs_spec {nodes : Finset Int} (hclosed : ∀ n ∈ nodes, ∀ d ∈ deps n, d ∈ nodes) (fuel : Nat) :
    ∀ (node : Int) (recStack : Finset Int) (path : List Int) (s : CycleSearch),
      node ∈ nodes → node ∉ s.visited → (nodes \ s.visited).card ≤ fuel →
      (∀ n, n ∈ recStack ↔ n ∈ path) →
      List.IsChain (fun n d => d ∈ deps n) (path ++ [node]) →
      ∃ found s', dfs deps fuel node recStack path s = some (found, s')
        ∧ Searched deps path [node] s found s' := by
  induction fuel with
  | zero =>
      intro node recStack path s hnode hnew hfuel
      have hmem : node ∈ nodes \ s.visited := Finset.mem_sdiff.mpr ⟨hnode, hnew⟩
      have hpos := Finset.card_pos.mpr ⟨node, hmem⟩
      omega
  | succ fuel ih =>
      intro node recStack path s hnode hnew hfuel hstack hchain
      have hstack' : ∀ n, n ∈ insert node recStack ↔ n ∈ path ++ [node] := by
        intro n
        rw [Finset.mem_insert, hstack, List.mem_append, List.mem_singleton, or_comm]
      have hfewer : ∀ visited, insert node s.visited ⊆ visited → (nodes \ visited).card ≤ fuel := by
        intro visited hsub
        have hmem : node ∈ nodes \ s.visited := Finset.mem_sdiff.mpr ⟨hnode, hnew⟩
        have hle : nodes \ visited ⊆ (nodes \ s.visited).erase node := by
          intro n hn
          rw [Finset.mem_sdiff] at hn
          rw [Finset.mem_erase, Finset.mem_sdiff]
          refine ⟨?_, hn.1, fun h => hn.2 (hsub (Finset.mem_insert_of_mem h))⟩
          rintro rfl
          exact hn.2 (hsub (Finset.mem_insert_self _ _))
        have hcard := Finset.card_le_card hle
        rw [Finset.card_erase_of_mem hmem] at hcard
        omega
      have hvisit : ∀ (dep : Int) (s₁ : CycleSearch), dep ∈ deps node → dep ∉ s₁.visited →
          insert node s.visited ⊆ s₁.visited → ∃ found s',
            dfs deps fuel dep (insert node recStack) (path ++ [node]) s₁ = some (found, s')
              ∧ Searched deps (path ++ [node]) [dep] s₁ found s' := by
        intro dep s₁ hdep hdepnew hsub
        refine ih dep _ _ s₁ (hclosed node hnode dep hdep) hdepnew (hfewer _ hsub) hstack' ?_
        rw [List.isChain_append]
        refine ⟨hchain, List.isChain_singleton _, ?_⟩
        intro x hx y hy
        rw [List.getLast?_concat] at hx
        obtain rfl := Option.some.inj hx
        obtain rfl := Option.some.inj hy
        exact hdep
      obtain ⟨found, s', hscan, hs'⟩ := scan_spec hstack' hchain hvisit (deps node)
        { s with visited := insert node s.visited } (List.Subset.refl _) (Finset.Subset.refl _)
      refine ⟨found, s', hscan, (Finset.subset_insert _ _).trans hs'.visited, hs'.missed, hs'.recorded, ?_⟩
      intro hfound hpath
      obtain ⟨hdone, hleft⟩ := hs'.done hfound (by
        intro v hv
        rcases Finset.mem_insert.mp hv with rfl | hv
        · exact .inl (List.mem_append_right _ (List.mem_singleton_self _))
        · exact (hpath v hv).imp_left (List.mem_append_left _))
      -- All that the node needs is done, and so is the node.
      have hacc : Acc (Before deps) node := Acc.intro _ hdone
      refine ⟨fun n hn => (List.mem_singleton.mp hn) ▸ hacc, fun v hv => ?_⟩
      rcases hleft v hv with hin | hacc'
      · rcases List.mem_append.mp hin with hin | hin
        · exact .inl hin
        · exact .inr ((List.mem_singleton.mp hin) ▸ hacc)
      · exact .inr hacc'

/-! ## The search of a graph -/

namespace DependencyGraph

variable (g : DependencyGraph)

/-- The issues and what they depend on. -/
def nodes : Finset Int := (g.numbers ++ g.edges.flatMap Prod.snd).toFinset

theorem nodes_closed (n : Int) (d : Int) (hd : d ∈ g.getDependencies n) : d ∈ g.nodes := by
  unfold getDependencies at hd
  cases hget : g.edges.get? n with
  | none =>
      rw [hget] at hd
      cases hd
  | some deps =>
      rw [hget] at hd
      refine List.mem_toFinset.mpr (List.mem_append_right _ ?_)
      exact List.mem_flatMap.mpr ⟨(n, deps), Dict.mem_of_get? hget, hd⟩

theorem card_nodes_le : g.nodes.card ≤ g.searchFuel := by
  have hcard := List.toFinset_card_le (g.numbers ++ g.edges.flatMap Prod.snd)
  have hlength : (g.numbers ++ g.edges.flatMap Prod.snd).length + 1 = g.searchFuel := by
    rw [List.length_append, List.length_flatMap, numbers, List.length_map, searchFuel]
  unfold nodes
  omega

theorem searchFrom_spec : ∀ (rest : List Int) (s : CycleSearch), (∀ n ∈ rest, n ∈ g.nodes) →
    ∃ s', g.searchFrom rest s = some s' ∧ (s'.cycles = [] → s.cycles = [])
      ∧ ((∀ cycle ∈ s.cycles, IsCycle g.getDependencies cycle) →
        ∀ cycle ∈ s'.cycles, IsCycle g.getDependencies cycle)
      ∧ (s'.cycles = [] → (∀ v ∈ s.visited, Acc (Before g.getDependencies) v) →
        ∀ n ∈ rest, Acc (Before g.getDependencies) n) := by
  intro rest
  induction rest with
  | nil =>
      intro s _
      exact ⟨s, rfl, id, id, fun _ _ => by simp⟩
  | cons number rest ih =>
      intro s hrest
      rw [List.forall_mem_cons] at hrest
      unfold searchFrom
      by_cases hvisited : number ∈ s.visited
      · rw [if_neg (not_not.mpr hvisited)]
        obtain ⟨s', hrun, hnone, hcycles, hdone⟩ := ih s hrest.2
        refine ⟨s', hrun, hnone, hcycles, fun h hacc => ?_⟩
        rw [List.forall_mem_cons]
        exact ⟨hacc number hvisited, hdone h hacc⟩
      · rw [if_pos hvisited]
        have hfuel : (g.nodes \ s.visited).card ≤ g.searchFuel :=
          (Finset.card_le_card Finset.sdiff_subset).trans g.card_nodes_le
        obtain ⟨found, s₁, hcall, hs₁⟩ := dfs_spec (fun n _ d => g.nodes_closed n d) g.searchFuel
          number ∅ [] s hrest.1 hvisited hfuel (by simp) (List.isChain_singleton _)
        obtain ⟨s', hrun, hnone, hcycles, hdone⟩ := ih s₁ hrest.2
        have hfound : s₁.cycles = [] → found = false := by
          intro h
          cases found with
          | false => rfl
          | true =>
              obtain ⟨cycle, hcycle, _⟩ := hs₁.recorded rfl
              rw [h] at hcycle
              exact absurd hcycle.symm (by simp)
        refine ⟨s', ?_, fun h => ?_, fun hall => hcycles ?_, fun h hacc => ?_⟩
        · rw [hcall]
          exact hrun
        · rw [← hs₁.missed (hfound (hnone h))]
          exact hnone h
        · cases found with
          | false =>
              rw [hs₁.missed rfl]
              exact hall
          | true =>
              obtain ⟨cycle, hcycle, his⟩ := hs₁.recorded rfl
              intro c hc
              rw [hcycle] at hc
              rcases List.mem_append.mp hc with hc | hc
              · exact hall c hc
              · rw [List.mem_singleton.mp hc]
                exact his
        · obtain ⟨hone, hleft⟩ := hs₁.done (hfound (hnone h)) fun v hv => .inr (hacc v hv)
          rw [List.forall_mem_cons]
          refine ⟨hone number (List.mem_singleton_self _), hdone h fun v hv => ?_⟩
          exact (hleft v hv).resolve_left List.not_mem_nil

/-- An issue on a circle is in the graph. -/
theorem circle_mem {n : Int} (h : TransGen (Before g.getDependencies) n n) : n ∈ g.numbers := by
  obtain ⟨d, _, hd⟩ := TransGen.tail'_iff.mp h
  refine g.edges_issues n ?_
  unfold Before getDependencies at hd
  cases hget : g.edges.get? n with
  | none =>
      rw [hget] at hd
      cases hd
  | some _ => rfl

/-- The search raises where some issue needs itself, however far around, with walks that
come back to where they began. -/
theorem detectCycles_spec :
    (g.detectCycles = .ok () ∧ ∀ n ∈ g.numbers, Acc (Before g.getDependencies) n)
      ∨ ∃ cycles, g.detectCycles = .error (.cyclic cycles) ∧ cycles ≠ []
        ∧ ∀ cycle ∈ cycles, IsCycle g.getDependencies cycle := by
  obtain ⟨s, hrun, _, hcycles, hdone⟩ := g.searchFrom_spec g.numbers {} fun n hn =>
    List.mem_toFinset.mpr (List.mem_append_left _ hn)
  unfold detectCycles
  rw [hrun]
  show (raiseIf (s.cycles ≠ []) (DependencyError.cyclic s.cycles) = .ok () ∧ _) ∨ _
  by_cases hnone : s.cycles = []
  · exact .inl ⟨raiseIf_ok.mpr (not_not.mpr hnone), hdone hnone (by simp)⟩
  · exact .inr ⟨s.cycles, if_pos hnone, hnone, hcycles (by simp)⟩

theorem detectCycles_ok :
    g.detectCycles = .ok () ↔ ∀ n, ¬ TransGen (Before g.getDependencies) n n := by
  rcases g.detectCycles_spec with ⟨hok, hacc⟩ | ⟨cycles, herror, hne, hcycles⟩
  · refine ⟨fun _ n h => ?_, fun _ => hok⟩
    exact not_acc_of_circle h (hacc n (g.circle_mem h))
  · refine ⟨fun h => ?_, fun h => ?_⟩
    · rw [herror] at h
      cases h
    · obtain ⟨cycle, hcycle⟩ := List.exists_mem_of_ne_nil cycles hne
      obtain ⟨n, hn⟩ := (hcycles cycle hcycle).transGen
      exact absurd hn (h n)

end DependencyGraph

end Hephaestus.Automation
