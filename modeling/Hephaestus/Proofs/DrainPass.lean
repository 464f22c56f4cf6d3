import Hephaestus.Proofs.Drives
import Hephaestus.Proofs.QueueOrder

/-!
# A drain pass

The loop of `_drain_queues` takes the head of the queue as often as there
were ready items when it started. A head that is refused, or that comes back
from its turn, is the head again, so the turn after it is the same item's. A
pass gets round to every item exactly when each but the last steps aside in
its turn.
-/

namespace Hephaestus.Pipeline

open Hephaestus.Lib Hephaestus.Lib.Command StageQueueLease

variable {ω : Type} {host : Host ω} {s t : Coordinator} {i : ItemId} {w : World ω}
  {stage : StageName} {slot : Nat × ItemId} {rest : List (Nat × ItemId)}
  {tr : List (Transition Coordinator (CoordinatorEvent ω))}

/-! ## One turn -/

/-- The head of the queue is admitted, and does not come back. -/
def headStepsAside (host : Host ω) (stage : StageName) (w : World ω) (s : Coordinator) : Bool :=
  match (s.queues stage).snapshot with
  | [] => true
  | i :: _ => s.admits host.config i && !comesBack host w (s.workItem i)

/-- The state after the head of a queue is claimed. -/
def Coordinator.headClaimed (s : Coordinator) (stage : StageName) (slot : Nat × ItemId) :
    Coordinator :=
  { s with
    queues := Function.update s.queues stage ((s.queues stage).lease 0 slot)
    leases := s.leases.set slot.2 ⟨stage, slot.2, slot.1⟩ }

theorem claim_head (hs : Sound host s) (hitems : (s.queues stage).items = slot :: rest) :
    (claimItem stage 0).exec s = (.ok (some slot.2), s.headClaimed stage slot) ∧
      Holds (s.headClaimed stage slot) slot.2 ∧ s.stageOf slot.2 = stage := by
  have hslot : (s.queues stage).items[0]? = some slot := by
    rw [hitems]
    rfl
  obtain ⟨hnone, hstage, _⟩ := hs.owned.claim hslot
  have hexec : (claimItem stage 0).exec s = (.ok (some slot.2), s.headClaimed stage slot) := by
    unfold claimItem StageQueue.claimAt
    rw [exec_bind, exec_get]
    simp only [hslot, Option.map_some, exec_bind, exec_set, hnone, Option.isSome_none,
      Bool.false_eq_true, if_false, exec_modify, exec_pure]
    rfl
  have hdriven := (Reached.refl hs).claimItem stage 0
  unfold wp at hdriven
  rw [hexec] at hdriven
  exact ⟨hexec, hdriven.1.holds, hstage⟩

/-- A turn takes the head out of the queue, or leaves the queue as it was. -/
theorem drainOne_ready (hs : Sound host s) (hq : QueuesOrdered s.queues)
    (hitems : (s.queues stage).items = slot :: rest) :
    ((s.after (drainOne host w stage 0)).queues stage).items =
      if headStepsAside host stage w s then rest else slot :: rest := by
  obtain ⟨hclaim, hholds, hstage⟩ := claim_head hs hitems
  have hhead : headStepsAside host stage w s =
      (s.admits host.config slot.2 && !comesBack host w (s.workItem slot.2)) := by
    unfold headStepsAside StageQueue.snapshot
    rw [hitems]
    rfl
  have hlease : (s.headClaimed stage slot).leases.get? slot.2 = some ⟨stage, slot.2, slot.1⟩ :=
    Dict.get?_set_self _ _ _
  have hqueue : (s.headClaimed stage slot).queues stage = (s.queues stage).lease 0 slot :=
    Function.update_self _ _ _
  have hrest : ((s.headClaimed stage slot).queues stage).items = rest := by
    rw [hqueue]
    show (s.queues stage).items.eraseIdx 0 = rest
    rw [hitems]
    rfl
  have hback : slotsAfter ((s.headClaimed stage slot).queues stage) ⟨stage, slot.2, slot.1⟩ true =
      slot :: rest := by
    rw [← hitems, hqueue]
    exact (hq stage).reinsert_head hitems
  rw [hhead]
  unfold Coordinator.after drainOne
  rw [exec_bind, hclaim]
  dsimp only
  rw [exec_bind, exec_get]
  dsimp only
  rw [show (s.headClaimed stage slot).admits host.config slot.2 = s.admits host.config slot.2
    from rfl]
  cases hadmit : s.admits host.config slot.2 with
  | false =>
      rw [if_neg (by simp), if_neg (by simp)]
      refine wp_state (x := do let _ ← restoreSourceLease slot.2)
        (R := fun t => (t.queues stage).items = slot :: rest) ?_
      rw [wp_bind, wp_restoreSourceLease hholds.owned hlease]
      rw [← hback]
      exact reinserted_items _ ⟨stage, slot.2, slot.1⟩
  | true =>
      rw [if_pos rfl, Bool.true_and]
      by_cases hfin : stage = .finished
      · subst hfin
        have hkeep : comesBack host w (s.workItem slot.2) = false := by
          have hsink : (s.workItem slot.2).stage = .finished := hstage
          unfold comesBack
          rw [hsink]
          cases (drive host w (s.workItem slot.2)).ending <;> rfl
        rw [hkeep, runItem_sink_ready (by exact hstage), hrest]
        rfl
      · have hrun := hholds.runItem_ready host w hlease
          (by exact fun h => hfin (hstage.symm.trans h))
        have hstage' : (s.headClaimed stage slot).stageOf slot.2 = stage := hstage
        have hlast := wp_state (wp_mono hrun (fun _ _ ht => ht) fun _ _ hf => hf.elim)
        rw [hstage'] at hlast
        rw [hlast]
        have hsame : (s.headClaimed stage slot).workItem slot.2 = s.workItem slot.2 := rfl
        rw [hsame]
        cases comesBack host w (s.workItem slot.2) with
        | false => exact hrest
        | true => exact hback

/-! ## The pass -/

/-- Nothing stops the pass, and every item but the last steps aside in its
turn. -/
def EachInTurn (host : Host ω) (stage : StageName) : List (Turn ω) → Coordinator → Prop
  | [], _ => True
  | turn :: turns, s =>
      s.shutdown = false ∧ turn.signal = false ∧
        (turns ≠ [] → headStepsAside host stage turn.w s = true) ∧
        EachInTurn host stage turns (s.after (drainOne host turn.w stage 0))

instance EachInTurn.decidable (host : Host ω) (stage : StageName) :
    ∀ (turns : List (Turn ω)) (s : Coordinator), Decidable (EachInTurn host stage turns s)
  | [], _ => isTrue trivial
  | turn :: turns, s =>
      have := EachInTurn.decidable host stage turns (s.after (drainOne host turn.w stage 0))
      inferInstanceAs (Decidable (_ ∧ _ ∧ (_ → _) ∧ _))

variable (w stage) in
/-- A turn ends, and the invariants hold after it. -/
theorem drainOne_ok (hs : Sound host s) (hq : QueuesOrdered s.queues) :
    (drainOne host w stage 0).exec s = (.ok (), s.after (drainOne host w stage 0)) ∧
      Sound host (s.after (drainOne host w stage 0)) ∧
      QueuesOrdered (s.after (drainOne host w stage 0)).queues := by
  have hdone := (Reached.refl hs).drainOne w stage 0
  unfold LetsGo wp at hdone
  unfold Coordinator.after
  generalize (drainOne host w stage 0).exec s = r at hdone ⊢
  rcases r with ⟨e | ⟨⟩, t⟩
  · exact hdone.elim
  · exact ⟨rfl, hdone.sound, hdone.moves.ordered hs hq⟩

/-- Nobody is ready twice. -/
theorem snapshot_nodup (ho : Owned s) (stage : StageName) : (s.queues stage).snapshot.Nodup := by
  refine List.nodup_iff_count_le_one.mpr fun i => ?_
  obtain ⟨h, hv⟩ := ho.held i
  have hcount : (s.queues stage).snapshot.count i = _ := hv.ready stage
  rw [hcount]
  split <;> omega

/-- Induction on the turns. What a pass asks about starts with the head of
the queue; if it asks about as many items as it has turns, and about none of
them twice, each of them stepped aside; and then it asks them in their order. -/
theorem drainStage_walk (turns : List (Turn ω)) (hs : Sound host s) (hq : QueuesOrdered s.queues)
    (hlen : turns.length ≤ (s.queues stage).items.length) :
    ∃ asked t, (drainStage host stage turns).exec s = (.ok asked, t) ∧
      asked.length ≤ turns.length ∧
      (∀ i ∈ asked.head?, (s.queues stage).snapshot.head? = some i) ∧
      (asked.length = turns.length → asked.Nodup → EachInTurn host stage turns s) ∧
      (EachInTurn host stage turns s →
        asked = (s.queues stage).snapshot.take turns.length) := by
  induction turns generalizing s with
  | nil => exact ⟨[], s, rfl, le_rfl, by simp, fun _ _ => trivial, fun _ => rfl⟩
  | cons turn turns ih =>
      rcases hitems : (s.queues stage).items with _ | ⟨slot, rest⟩
      · rw [hitems] at hlen
        simp at hlen
      have hsnapshot : (s.queues stage).snapshot = slot.2 :: rest.map Prod.snd := by
        unfold StageQueue.snapshot
        rw [hitems]
        rfl
      rw [hitems, List.length_cons, List.length_cons] at hlen
      by_cases hstop : s.shutdown = true ∨ turn.signal = true
      · -- The signal ends the pass.
        have hexec : (drainStage host stage (turn :: turns)).exec s =
            (.ok [], { s with shutdown := true }) := by
          have hflag : (s.shutdown || turn.signal) = true := by simpa using hstop
          unfold drainStage
          rw [exec_bind, exec_modify]
          dsimp only
          rw [exec_bind, exec_get]
          dsimp only
          rw [if_pos hflag, hflag]
          rfl
        refine ⟨[], _, hexec, Nat.zero_le _, by simp, fun h => by simp at h, fun h => ?_⟩
        rcases hstop with hstop | hstop
        · rw [h.1] at hstop
          cases hstop
        · rw [h.2.1] at hstop
          cases hstop
      · rw [not_or, Bool.not_eq_true, Bool.not_eq_true] at hstop
        obtain ⟨hdone, hs', hq'⟩ := drainOne_ok turn.w stage hs hq
        have hready := drainOne_ready (w := turn.w) hs hq hitems
        have hlen' : turns.length ≤
            ((s.after (drainOne host turn.w stage 0)).queues stage).items.length := by
          rw [hready]
          split
          · omega
          · rw [List.length_cons]
            omega
        obtain ⟨asked, t, hexec, hle, hhead, hwalk, horder⟩ := ih hs' hq' hlen'
        have hfull : (drainStage host stage (turn :: turns)).exec s =
            (.ok (slot.2 :: asked), t) := by
          have hsame : { s with shutdown := s.shutdown || turn.signal } = s := by
            rw [hstop.2, Bool.or_false]
          unfold drainStage
          rw [exec_bind, exec_modify]
          dsimp only
          rw [hsame, exec_bind, exec_get]
          dsimp only
          rw [if_neg (by simp [hstop.1]), hsnapshot]
          dsimp only
          rw [exec_bind, hdone]
          dsimp only
          rw [exec_bind, hexec]
          rfl
        refine ⟨slot.2 :: asked, t, hfull, ?_, ?_, ?_, ?_⟩
        · rw [List.length_cons, List.length_cons]
          omega
        · rw [hsnapshot]
          exact fun i hi => hi
        · intro hcount hnodup
          obtain ⟨hnew, hnodup⟩ := List.nodup_cons.mp hnodup
          rw [List.length_cons, List.length_cons] at hcount
          refine ⟨hstop.1, hstop.2, fun hmore => ?_, hwalk (by omega) hnodup⟩
          -- A head that stays is asked again at once.
          by_contra hstays
          rw [if_neg hstays] at hready
          rcases asked with _ | ⟨first, later⟩
          · exact hmore (List.length_eq_zero_iff.mp (by simpa using hcount.symm))
          · have hfirst := hhead first rfl
            unfold StageQueue.snapshot at hfirst
            rw [hready] at hfirst
            obtain rfl := Option.some.inj hfirst
            exact hnew List.mem_cons_self
        · rintro ⟨_, _, hsteps, hrest⟩
          rw [horder hrest, hsnapshot]
          rcases turns with _ | ⟨next, later⟩
          · rfl
          · rw [if_pos (hsteps (by simp))] at hready
            unfold StageQueue.snapshot
            rw [hready]
            rfl

/-- A pass asks about each item that was ready exactly once if and only if
each but the last steps aside in its turn. -/
theorem drain_asks_each_once_iff (host : Host ω)
    (hrun : Run (Coordinator.step host) (.initial host.config) tr s) (stage : StageName)
    (turns : List (Turn ω)) (hturns : turns.length = (s.queues stage).items.length) :
    ∃ asked t, (drainStage host stage turns).exec s = (.ok asked, t) ∧
      ((∀ i ∈ (s.queues stage).snapshot, asked.count i = 1) ↔
        EachInTurn host stage turns s) := by
  have hs := run_sound hrun
  have hnodup := snapshot_nodup hs.owned stage
  have hlength : (s.queues stage).snapshot.length = turns.length := by
    rw [hturns]
    exact List.length_map _
  obtain ⟨asked, t, hexec, hle, _, hwalk, horder⟩ :=
    drainStage_walk turns hs (run_ordered hrun) hturns.le
  refine ⟨asked, t, hexec, fun honce => ?_, fun heach i hi => ?_⟩
  · have hsub : (s.queues stage).snapshot.Subperm asked := by
      refine (List.subperm_ext_iff.mpr fun i hi => ?_)
      rw [honce i hi]
      exact List.nodup_iff_count_le_one.mp hnodup i
    have hperm := hsub.perm_of_length_le (by omega)
    exact hwalk (hperm.length_eq.symm.trans hlength) (hperm.nodup_iff.mp hnodup)
  · rw [horder heach, ← hlength, List.take_length]
    exact List.count_eq_one_of_mem hnodup hi

/-! ### Two items -/

/-- Every stage answers so; there is room for two items. -/
def answeringHost (disposition : Disposition) : Host Unit :=
  { stillHost with
    config := { defaultConfig with maxWorkers := 2 }
    stages := fun st =>
      { stillHost.stages st with step := .answer (.outcome ⟨disposition, ""⟩) } }

/-- A new item for an issue that is planned next. -/
def plannedIssue (number : Int) : NewItem where
  item := { repo := "hephaestus", kind := .issue, issue := some number, stage := .planning }
  unrecorded := fun _ _ => rfl
  settled := fun h => by cases h

def seedTwo : List (CoordinatorEvent Unit) :=
  [.push (plannedIssue 5) false, .push (plannedIssue 6) false]

def twoTurns : List (Turn Unit) := [⟨{ answers := fun _ => () }, false⟩,
  ⟨{ answers := fun _ => () }, false⟩]

/-- Where the first of two items is to be retried, a pass drives it twice and
the second item never. -/
theorem retried_head_asked_twice :
    ¬ ∀ tr s stage turns, Run (Coordinator.step (answeringHost .retry))
        (.initial (answeringHost .retry).config) tr s →
      stage ≠ .implementation → turns.length = (s.queues stage).items.length →
      ∀ asked t, (drainStage (answeringHost .retry) stage turns).exec s = (.ok asked, t) →
        ∀ i ∈ (s.queues stage).snapshot, asked.count i = 1 := by
  intro hclaim
  have hevents : (trace (Coordinator.step (answeringHost .retry))
      (.initial (answeringHost .retry).config) seedTwo).any (fun y =>
        decide ((y.2.queues .planning).snapshot = [0, 1]) &&
        decide (((drainStage (answeringHost .retry) .planning twoTurns).exec y.2).1.toOption =
          some [0, 0])) = true := by
    decide +kernel
  obtain ⟨⟨tr, s⟩, htrace, hprops⟩ := (Option.any_eq_true _ _).mp hevents
  simp only [Bool.and_eq_true, decide_eq_true_eq] at hprops
  obtain ⟨hready, hasked⟩ := hprops
  have hturns : twoTurns.length = (s.queues .planning).items.length := by
    have hlength : (s.queues .planning).snapshot.length = (s.queues .planning).items.length :=
      List.length_map _
    rw [← hlength, hready]
    rfl
  rcases hexec : (drainStage (answeringHost .retry) .planning twoTurns).exec s with ⟨e | asked, t⟩
  · rw [hexec] at hasked
    cases hasked
  · rw [hexec] at hasked
    obtain rfl := Option.some.inj hasked
    have hcount := hclaim tr s .planning twoTurns (trace_run htrace) (by decide) hturns _ _ hexec 1
      (by rw [hready]; decide)
    exact absurd hcount (by decide)

/-- Two items whose stage passes them. -/
theorem drain_asks_each_once_passing :
    ∃ tr s, Run (Coordinator.step (answeringHost .finishPass))
        (.initial (answeringHost .finishPass).config) tr s ∧
      (s.queues .planning).snapshot = [0, 1] ∧
      ∃ asked t, (drainStage (answeringHost .finishPass) .planning twoTurns).exec s =
        (.ok asked, t) ∧ ∀ i ∈ (s.queues .planning).snapshot, asked.count i = 1 := by
  have hevents : (trace (Coordinator.step (answeringHost .finishPass))
      (.initial (answeringHost .finishPass).config) seedTwo).any (fun y =>
        decide ((y.2.queues .planning).snapshot = [0, 1]) &&
        decide (twoTurns.length = (y.2.queues .planning).items.length) &&
        decide (EachInTurn (answeringHost .finishPass) .planning twoTurns y.2)) = true := by
    decide +kernel
  obtain ⟨⟨tr, s⟩, htrace, hprops⟩ := (Option.any_eq_true _ _).mp hevents
  simp only [Bool.and_eq_true, decide_eq_true_eq] at hprops
  obtain ⟨⟨hready, hturns⟩, heach⟩ := hprops
  have hrun := trace_run htrace
  obtain ⟨asked, t, hexec, hiff⟩ := drain_asks_each_once_iff (answeringHost .finishPass) hrun
    .planning twoTurns hturns
  exact ⟨tr, s, hrun, hready, asked, t, hexec, hiff.mpr heach⟩

end Hephaestus.Pipeline
