import Hephaestus.Proofs.ExitStatus

/-!
# What the coordinator keeps of the items it recorded

Over any run: an item is recorded once, the newest `terminal_detail_capacity` of the
recorded items stay on the coordinator's list next to the live ones, and what was recorded
is never written to again.
-/

namespace Hephaestus.Pipeline

open Hephaestus.Lib StageQueueLease

variable {ω : Type} {host : Host ω} {s s' : Coordinator}

/-- A move records nothing, or an item that was live. -/
theorem Move.summary (hm : Move host s s') (hs : Sound host s) :
    s'.terminalSummary = s.terminalSummary
      ∨ ∃ i ∈ s.seenItemIds, s'.terminalSummary = s.terminalSummary ++ [i] := by
  cases hm with
  | retire hh hl hr =>
      rename_i i _
      have hseen := hs.owned.inHand_seen hh
      refine .inr ⟨i, hseen, ?_⟩
      unfold Coordinator.retired
      rw [recordTerminalResult_eq hr (hs.owned.seen_unrecorded hseen)]
      rfl
  | admitNew _ _ _ _ ht _ =>
      rw [tryAcquireWorkPermit_eq ht]
      exact .inl rfl
  | complete _ auxiliary _ =>
      cases auxiliary with
      | false => exact .inl rfl
      | true => exact .inl rfl
  | handoff => exact .inl (by simp)
  | pair => exact .inl (by simp)
  | _ => exact .inl rfl

/-- No move records an item again. -/
theorem Move.summary_nodup (hm : Move host s s') (hs : Sound host s)
    (ha : Accounted host.config s) (h : s.terminalSummary.Nodup) : s'.terminalSummary.Nodup := by
  rcases hm.summary hs with heq | ⟨i, hi, heq⟩
  · rw [heq]
    exact h
  · rw [heq, ← List.concat_eq_append]
    exact h.concat fun hmem => ha.notMem_seen hs.owned hmem hi

theorem Moves.summary_nodup (hm : Moves host s s') (hs : Sound host s)
    (ha : Accounted host.config s) (h : s.terminalSummary.Nodup) : s'.terminalSummary.Nodup := by
  have hall : Sound host s' ∧ Accounted host.config s' ∧ s'.terminalSummary.Nodup := by
    induction hm with
    | refl => exact ⟨hs, ha, h⟩
    | tail _ hm ih =>
        obtain ⟨hsound, haccounted, hnodup⟩ := ih
        exact ⟨hm.sound hsound, (hm.accounted hsound haccounted).1,
          hm.summary_nodup hsound haccounted hnodup⟩
  exact hall.2.2

/-! ## Over a run -/

theorem recordFailedSource_summary (config : PipelineConfig) {item : WorkItem}
    (hseen : s.allocated ∉ s.seenItemIds) (hresult : item.result.isSome = true)
    (hrec : item.summaryRecorded = false) :
    (s.recordFailedSource config item).terminalSummary = s.terminalSummary ++ [s.allocated] := by
  obtain ⟨_, _, heq⟩ := recordFailedSource_alloc config hseen hresult hrec
  rw [heq]

theorem RunState.step_recorded_nodup {s s' : RunState} {e : RunEvent ω}
    (h : s.step host e = some s') (hs : s.Accounts host) (hnodup : s.recorded.Nodup) :
    s'.recorded.Nodup := by
  cases e with
  | coordinator e =>
      obtain ⟨t, ht, rfl⟩ := Option.map_eq_some_iff.mp h
      have hr := Coordinator.step_reached hs.sound ht
      exact Moves.summary_nodup hr.moves hs.sound hs.accounted hnodup
  | seedPass =>
      obtain rfl := Option.some.inj h
      exact hnodup
  | sourceFailed repo issue reason =>
      obtain rfl := Option.some.inj h
      have hunborn := hs.sound.owned.unborn s.coordinator.allocated le_rfl
      have hnew : s.coordinator.allocated ∉ s.recorded := fun hmem =>
        Nat.lt_irrefl _ (hs.accounted.born _ hmem)
      show (Coordinator.recordFailedSource _ _ _).terminalSummary.Nodup
      rw [recordFailedSource_summary _ hunborn rfl rfl, ← List.concat_eq_append]
      exact hnodup.concat hnew
  | raises =>
      obtain rfl := Option.some.inj h
      exact hnodup

/-- A run only adds to the record, and writes to nothing on it. -/
theorem RunState.run_extends {tr : List (Transition RunState (RunEvent ω))} {s t : RunState}
    (hrun : Run (RunState.step host) s tr t) (hs : s.Accounts host) :
    Extends s.coordinator t.coordinator := by
  have hall : t.Accounts host ∧ Extends s.coordinator t.coordinator := by
    refine hrun.invariant (fun u => u.Accounts host ∧ Extends s.coordinator u.coordinator)
      ⟨hs, Extends.refl _⟩ fun u e v hu hstep => ?_
    obtain ⟨haccounts, hextends⟩ := RunState.step_accounts hstep hu.1
    exact ⟨haccounts, hu.2.trans hextends⟩
  exact hall.2

/-- In every state a run comes to: no item is on record twice, the recorded items on the
list are the newest `terminal_detail_capacity` of the record in its order, and the others
on it are the live ones. However the run goes on, the record keeps what it has, and no item
of it is written to again. -/
theorem recorded_of_run (host : Host ω) {tr : List (Transition RunState (RunEvent ω))} {s : RunState}
    (hrun : Run (RunState.step host) (RunState.initial host) tr s) :
    s.recorded.Nodup ∧ s.coordinator.items.Nodup
      ∧ s.coordinator.items.filter (fun i => (s.coordinator.workItem i).summaryRecorded)
        = lastN host.config.terminalDetailCapacity s.recorded
      ∧ (∀ i, i ∈ s.coordinator.seenItemIds
        ↔ i ∈ s.coordinator.items ∧ (s.coordinator.workItem i).summaryRecorded = false)
      ∧ ∀ tr' t, Run (RunState.step host) s tr' t →
        s.recorded <+: t.recorded
          ∧ ∀ i ∈ s.recorded, t.coordinator.workItem i = s.coordinator.workItem i := by
  have hboth : s.Accounts host ∧ s.recorded.Nodup := by
    refine hrun.invariant (fun u => u.Accounts host ∧ u.recorded.Nodup)
      ⟨initial_accounts host, List.nodup_nil⟩ fun u e v hu hstep => ?_
    exact ⟨(RunState.step_accounts hstep hu.1).1, RunState.step_recorded_nodup hstep hu.1 hu.2⟩
  obtain ⟨haccounts, hnodup⟩ := hboth
  have ha := haccounts.accounted
  refine ⟨hnodup, ha.nodup, ha.window, fun i => ⟨fun hi => ?_, fun hi => ha.live i hi.1 hi.2⟩, ?_⟩
  · exact ⟨ha.tracked i hi, haccounts.sound.owned.seen_unrecorded hi⟩
  · intro tr' t hrun'
    have hx := RunState.run_extends hrun' haccounts
    exact ⟨hx.summary, hx.frozen⟩

/-- Two failed issues on record, the second after a pass. -/
theorem recorded_of_two_failures : ∃ tr s,
    Run (RunState.step stillHost) (RunState.initial stillHost) tr s ∧ s.recorded = [0, 1]
      ∧ s.recorded.Nodup
      ∧ s.coordinator.items.filter (fun i => (s.coordinator.workItem i).summaryRecorded) = [0, 1] := by
  have hevents : (trace (RunState.step stillHost) (RunState.initial stillHost)
      [.sourceFailed "hephaestus" (some 5) "gone", .seedPass,
        .sourceFailed "hephaestus" (some 6) "gone"]).any (fun y =>
          decide (y.2.recorded = [0, 1])) = true := by
    decide
  obtain ⟨⟨tr, s⟩, htrace, hprops⟩ := (Option.any_eq_true _ _).mp hevents
  have hrecorded := of_decide_eq_true hprops
  have hrun := trace_run htrace
  obtain ⟨hnodup, _, hwindow, _⟩ := recorded_of_run stillHost hrun
  have hrecorded : s.recorded = [0, 1] := hrecorded
  rw [hrecorded] at hwindow
  exact ⟨tr, s, hrun, hrecorded, hnodup, hwindow⟩

end Hephaestus.Pipeline
