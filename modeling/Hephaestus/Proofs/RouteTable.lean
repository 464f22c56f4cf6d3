import Hephaestus.Proofs.Decisions
import Hephaestus.Proofs.Retained

/-!
# Routes and the route table

What the table says about an item and what becomes of the item, whichever
of the three ways it takes: the destination takes it at once, or it waits
with its route retained until a drain finds room or a complementary pair. The
stage it gets to is the same, and so is everything it finds there: the state
is `ENTER` and the entry of the stage is due. Until then its record stands as
it stood.

The table is not the last word in two places. A plan review that approved a
plan with something to learn from goes by way of `LEARNING`, and a dry run
sends nothing back. Neither is the item that sets up a direct scope routed
by the table. And a stage that fails back to itself does not get there by a
handoff: its item is restored with the state it had.
-/

namespace Hephaestus.Pipeline

open Hephaestus.Lib Hephaestus.Lib.Command

variable {ω : Type} {host : Host ω} {s t : Coordinator} {i : ItemId} {w : World ω}
  {item : WorkItem} {outcome : StageOutcome} {r : Route} {target : StageName}
  {tr : List (Transition Coordinator (CoordinatorEvent ω))}

/-- The detour of an approved plan. -/
def WorkItem.LearnsFirst (item : WorkItem) (outcome : StageOutcome) : Prop :=
  outcome.disposition = .advance ∧ item.stage = .planReview ∧ item.learningIntents ≠ []

instance (item : WorkItem) (outcome : StageOutcome) : Decidable (item.LearnsFirst outcome) :=
  inferInstanceAs (Decidable (_ ∧ _ ∧ _))

/-- Where the table sends an item whose stage has the row `r`. The other
dispositions do not read the row. -/
def tableTarget (config : PipelineConfig) (item : WorkItem) (r : Route) (outcome : StageOutcome) :
    Option StageName :=
  match outcome.disposition with
  | .advance => some (if item.LearnsFirst outcome then .learning else r.next)
  | .failBack =>
      some (if config.dryRun ∨ (failBackCap : Int) < item.failBacks + 1 then .finished
        else r.failTarget outcome.note)
  | _ => none

/-- Stage, state and result are as they were. -/
structure Unmoved (before item : WorkItem) : Prop where
  stage : item.stage = before.stage
  state : item.state = before.state
  result : item.result = before.result

theorem Unmoved.refl (item : WorkItem) : Unmoved item item := ⟨rfl, rfl, rfl⟩

/-- The item waits for `target` as it was. -/
structure WaitsFor (before : WorkItem) (i : ItemId) (target : StageName) (s : Coordinator) :
    Prop where
  retained : ∃ result, s.pendingHandoffs.get? i = some ⟨i, target, true, result⟩ ∧
    (result.isSome = true ↔ target = .finished)
  unmoved : Unmoved before (s.workItem i)

/-- The item is in `target`, whose entry is due. It has a result if that is
the sink, and the result it had otherwise. -/
structure EnteredAs (before : WorkItem) (i : ItemId) (target : StageName) (s : Coordinator) :
    Prop where
  published : s.pendingHandoffs.get? i = none
  stage : s.stageOf i = target
  state : (s.workItem i).state = "ENTER"
  enterPending : (s.workItem i).payload.flag enterPendingKey = true
  result : if target = .finished then (s.workItem i).result.isSome = true
    else (s.workItem i).result = before.result

/-! ## The decision is the table's -/

/-- The decision hands the item to `target`, its record otherwise as it was;
the journal may stop it on its way to `LEARNING`. -/
structure Follows (w : World ω) (item : WorkItem) (outcome : StageOutcome) (target : StageName)
    (d : Decision) : Prop where
  unmoved : Unmoved item d.item
  fate : (∃ result, d.fate = .handoff target result ∧
      (result.isSome = true ↔ target = .finished)) ∨
    ∃ e, d.fate = .raise e ∧ item.LearnsFirst outcome ∧ w.persist = .error e

theorem Follows.finish {written : WorkItem} {passed : Bool} {reason : String}
    (h : Unmoved item written) :
    Follows w item outcome .finished (decideFinish written passed reason) :=
  ⟨h, .inl ⟨_, rfl, by simp⟩⟩

theorem Follows.handoff {written : WorkItem} (h : Unmoved item written)
    (hwork : target ≠ .finished) :
    Follows w item outcome target ⟨written, .handoff target none⟩ :=
  ⟨h, .inl ⟨none, rfl, by simp [hwork]⟩⟩

theorem follows_advance (hadvance : outcome.disposition = .advance) :
    Follows w item outcome (if item.LearnsFirst outcome then .learning else r.next)
      (decideAdvance w item outcome r) := by
  unfold decideAdvance
  by_cases hlearn : item.stage = .planReview ∧ item.learningIntents ≠ []
  · rw [if_pos hlearn, if_pos ⟨hadvance, hlearn⟩]
    rcases hpersist : w.persist with e | ⟨⟩
    · exact ⟨⟨rfl, rfl, rfl⟩, .inr ⟨e, rfl, ⟨hadvance, hlearn⟩, hpersist⟩⟩
    · exact .handoff ⟨rfl, rfl, rfl⟩ (by decide)
  · rw [if_neg hlearn, if_neg fun h => hlearn h.2]
    by_cases hnext : r.next = .finished
    · rw [if_pos hnext, hnext]
      rcases item.postProcessing with _ | record
      · exact .finish ⟨rfl, rfl, rfl⟩
      · exact ⟨⟨rfl, rfl, rfl⟩, .inl ⟨_, rfl, by simp⟩⟩
    · rw [if_neg hnext]
      exact .handoff (.refl item) hnext

theorem follows_failBack :
    Follows w item outcome
      (if host.config.dryRun ∨ (failBackCap : Int) < item.failBacks + 1 then .finished
        else r.failTarget outcome.note)
      (decideFailBack host item outcome r) := by
  unfold decideFailBack
  by_cases hdry : host.config.dryRun = true
  · rw [if_pos hdry, if_pos (.inl hdry)]
    exact .finish (.refl item)
  · rw [if_neg hdry]
    dsimp only
    by_cases hcap : (failBackCap : Int) < item.failBacks + 1
    · rw [if_pos hcap, if_pos (.inr hcap)]
      exact .finish ⟨rfl, rfl, rfl⟩
    · rw [if_neg hcap, if_neg (not_or.mpr ⟨hdry, hcap⟩)]
      cases r.failTarget outcome.note with
      | finished => exact .finish ⟨rfl, rfl, rfl⟩
      | _ => exact .handoff ⟨rfl, rfl, rfl⟩ (by decide)

/-- The choice `_route` makes is the table's. -/
theorem follows_route (hboot : ¬ (item.stage = .repo ∧ item.payload.flag directScopeBootstrapKey))
    (hroute : runRoutes host.config.scope item.stage = some r)
    (htarget : tableTarget host.config item r outcome = some target) :
    Follows w item outcome target (decideRoute host w item outcome) := by
  unfold decideRoute
  rw [if_neg hboot, hroute]
  show Follows w item outcome target (decideRow host w item outcome r)
  unfold tableTarget at htarget
  unfold decideRow
  cases hdisp : outcome.disposition with
  | advance =>
      rw [hdisp] at htarget
      obtain rfl := Option.some.inj htarget
      exact follows_advance hdisp
  | failBack =>
      rw [hdisp] at htarget
      obtain rfl := Option.some.inj htarget
      exact follows_failBack
  | _ =>
      rw [hdisp] at htarget
      cases htarget

/-! ## The three ways -/

/-- A record that is carried to `target`. -/
theorem enteredAs_of_arrived {before : WorkItem} {result : Option ItemResult}
    (hpending : t.pendingHandoffs.get? i = none)
    (hunmoved : Unmoved before item) (hresult : result.isSome = true ↔ target = .finished)
    (hitem : t.workItem i = item.arrived ⟨i, target, true, result⟩) :
    EnteredAs before i target t := by
  have hstage : (t.workItem i).stage = target := by
    rw [hitem]
    exact moveTo_stage _ _ _
  refine ⟨hpending, hstage, by rw [hitem]; rfl, ?_, ?_⟩
  · have hflag : (item.moveTo target true).payload.get? enterPendingKey = some (.bool true) :=
      Dict.get?_set_self _ _ _
    rw [hitem, Payload.flag]
    show ((item.moveTo target true).payload.get? enterPendingKey).any PayloadValue.truthy = true
    rw [hflag]
    rfl
  · have hlast : (t.workItem i).result = result.orElse fun _ => item.result := by
      rw [hitem]
      rfl
    rw [hlast]
    rcases result with _ | record
    · rw [if_neg fun h => by cases hresult.mpr h]
      exact hunmoved.result
    · rw [if_pos (hresult.mp rfl)]
      rfl

/-- A waiting item waits on, or enters its destination. -/
theorem WaitsFor.step {before : WorkItem} {e : CoordinatorEvent ω} (hs : Sound host s)
    (h : WaitsFor before i target s) (hstep : s.step host e = some t) :
    WaitsFor before i target t ∨ EnteredAs before i target t := by
  obtain ⟨⟨result, hp, hresult⟩, hunmoved⟩ := h
  rcases step_waiting hs hp hstep with ⟨hpending, hrecord⟩ | ⟨hnone, hrecord⟩
  · exact .inl ⟨⟨result, hpending.trans hp, hresult⟩, hrecord ▸ hunmoved⟩
  · exact .inr (enteredAs_of_arrived hnone hunmoved hresult hrecord)

/-- For as long as the item waits, however the coordinator goes on. -/
theorem waits_or_entered {before : WorkItem} (hs : Sound host s)
    (h : WaitsFor before i target s ∨ EnteredAs before i target s)
    (hrun : Run (Coordinator.step host) s tr t)
    (hwaits : ∀ x ∈ tr, (x.pre.pendingHandoffs.get? i).isSome = true) :
    WaitsFor before i target t ∨ EnteredAs before i target t := by
  refine (hrun.invariant_of (fun _ u => Sound host u ∧
    (WaitsFor before i target u ∨ EnteredAs before i target u))
    (fun u _ => (u.pendingHandoffs.get? i).isSome = true) ⟨hs, h⟩ ?_ hwaits).2
  rintro _ u e v ⟨hu, hway⟩ hwaiting hstep
  refine ⟨(Coordinator.step_reached hu hstep).sound, ?_⟩
  rcases hway with hway | hentered
  · exact hway.step hu hstep
  · rw [hentered.published] at hwaiting
    cases hwaiting

/-- A handoff to another stage starts one of the three ways. -/
theorem Handed.ways {before : WorkItem} {result : Option ItemResult}
    (h : Handed s i target true result t) (hunmoved : Unmoved before (s.workItem i))
    (hresult : result.isSome = true ↔ target = .finished) (hother : target ≠ s.stageOf i) :
    WaitsFor before i target t ∨ EnteredAs before i target t := by
  cases h with
  | back hl htarget _ => exact absurd htarget hother
  | moved hl htarget =>
      refine .inr (enteredAs_of_arrived ?_ hunmoved hresult publishHandoff_workItem_self)
      simp only [publishHandoff_pending, Dict.get?_erase, if_true]
  | waits htarget => exact .inl ⟨⟨result, Dict.get?_set_self _ _ _, hresult⟩, hunmoved⟩

/-! ## The table -/

/-- The item ends where the table says, and is entered there however it gets
there; until then its record stands. -/
theorem route_refines_table (host : Host ω)
    (hrun : Run (Coordinator.step host) (.initial host.config) tr s) (hand : s.InHand i)
    (hsink : s.stageOf i ≠ .finished)
    (hboot : ¬ (s.stageOf i = .repo ∧ (s.workItem i).payload.flag directScopeBootstrapKey))
    (hroute : runRoutes host.config.scope (s.stageOf i) = some r)
    (htarget : tableTarget host.config (s.workItem i) r outcome = some target) :
    (route host w i outcome).wp
      (fun _ t => t.headedFor i = target ∧ (target ≠ s.stageOf i →
        ∀ later u, Run (Coordinator.step host) t later u →
          (∀ x ∈ later, (x.pre.pendingHandoffs.get? i).isSome = true) →
          WaitsFor (s.workItem i) i target u ∨ EnteredAs (s.workItem i) i target u))
      (fun e t => (s.workItem i).LearnsFirst outcome ∧ w.persist = .error e ∧
        Unmoved (s.workItem i) (t.workItem i)) s := by
  have hs := run_sound hrun
  have hholds : Holds s i := ⟨hs.owned, hand⟩
  have hafter : Sound host ((route host w i outcome).exec s).2 := by
    have hstep : s.step host (.route w i outcome) = some (s.after (route host w i outcome)) :=
      if_pos hand
    exact (Coordinator.step_reached hs hstep).sound
  obtain ⟨hunmoved, hfate⟩ := follows_route (w := w) hboot hroute htarget
  refine wp_mono (wp_and (hholds.decides_route host w outcome hsink)
    (wp_of_state hafter)) ?_ ?_
  · rintro _ t ⟨hdone, hsound⟩
    rcases hfate with ⟨result, hfate, hresult⟩ | ⟨e, hfate, _⟩
    · rw [hfate] at hdone
      obtain ⟨pending, hhanded⟩ := hdone
      refine ⟨hhanded.headedFor, fun hother later u hlater hwaits => ?_⟩
      have hbefore : Unmoved (s.workItem i) (((s.logRoute i outcome).setItem i
          (decideRoute host w (s.workItem i) outcome).item).workItem i) := by
        rw [setItem_workItem_self]
        exact hunmoved
      have hleft : target ≠ ((s.logRoute i outcome).setItem i
          (decideRoute host w (s.workItem i) outcome).item).stageOf i := by
        rw [Coordinator.stageOf, hbefore.stage]
        exact hother
      exact waits_or_entered hsound (hhanded.ways hbefore hresult hleft) hlater hwaits
    · rw [hfate] at hdone
      exact hdone.elim
  · rintro e t ⟨⟨hraise, ht, _⟩, _⟩
    rcases hfate with ⟨result, hfate, _⟩ | ⟨e', hfate, hlearn, hpersist⟩
    · rw [hfate] at hraise
      cases hraise
    · rw [hfate] at hraise
      obtain rfl := Fate.raise.inj hraise
      refine ⟨hlearn, hpersist, ?_⟩
      rw [ht, setItem_workItem_self]
      exact hunmoved

/-! ### Two items off the table, and one on it -/

/-- A method that moves the state on and answers `o` the next time. -/
def answerOnce (o : StageOutcome) : StageMethod Unit StepResult where
  call := fun _ item =>
    ⟨item, .ok (if item.state = "ENTER" then .goOn "EVAL" else .outcome o)⟩
  keeps := fun _ item => ⟨Preserves.refl item, rfl⟩

/-- Stages that evaluate, and have to be asked again. -/
def askedTwice : Host Unit :=
  { stillHost with
    stages := fun st => { stillHost.stages st with step := answerOnce ⟨.retry, "not yet"⟩ } }

/-- An issue whose plan was approved, with an intent to learn from it. -/
def approvedPlan : NewItem where
  item :=
    { repo := "hephaestus", kind := .issue, issue := some 7, stage := .planReview
      learningIntents := [{ kind := .approvedPlan, repo := "hephaestus", issue := 7 }] }
  unrecorded := fun _ _ => rfl
  settled := fun h => by cases h

def underReview : NewItem where
  item := { repo := "hephaestus", kind := .issue, issue := some 7, pr := some 12
            stage := .prReview }
  unrecorded := fun _ _ => rfl
  settled := fun h => by cases h

/-- The review is driven once, and then claimed. -/
def reviewRun : List (CoordinatorEvent Unit) :=
  [.push underReview false, .drain { answers := fun _ => () } .prReview 0, .claim .prReview 0]

/-- An approved plan does not go where the table says, and a review that
fails back to itself is not entered again. -/
theorem routes_off_the_table :
    (¬ ∀ tr s i r note, Run (Coordinator.step askedTwice) (.initial askedTwice.config) tr s →
      s.InHand i → runRoutes askedTwice.config.scope (s.stageOf i) = some r →
      ((route askedTwice { answers := fun _ => () } i ⟨.advance, note⟩).exec s).2.headedFor i =
        r.next) ∧
    ¬ ∀ tr s i r note, Run (Coordinator.step askedTwice) (.initial askedTwice.config) tr s →
      s.InHand i → runRoutes askedTwice.config.scope (s.stageOf i) = some r →
      (s.workItem i).failBacks + 1 ≤ (failBackCap : Int) → r.failTarget note ≠ .finished →
      ((((route askedTwice { answers := fun _ => () } i ⟨.failBack, note⟩).exec s).2.workItem
        i).state = "ENTER" ∧
      (((route askedTwice { answers := fun _ => () } i ⟨.failBack, note⟩).exec s).2.workItem
        i).payload.flag enterPendingKey = true) := by
  constructor
  · intro hclaim
    have hevents : (trace (Coordinator.step askedTwice) (.initial askedTwice.config)
        [.push approvedPlan false, .claim .planReview 0]).any (fun y =>
          decide (y.2.InHand 0) &&
          decide (runRoutes askedTwice.config.scope (y.2.stageOf 0) = some (routes .planReview)) &&
          decide (((route askedTwice { answers := fun _ => () } 0 ⟨.advance, ""⟩).exec
            y.2).2.headedFor 0 = .learning)) = true := by
      decide
    obtain ⟨⟨tr, s⟩, htrace, hprops⟩ := (Option.any_eq_true _ _).mp hevents
    simp only [Bool.and_eq_true, decide_eq_true_eq] at hprops
    obtain ⟨⟨hand, hroute⟩, hheaded⟩ := hprops
    have hnext := hclaim tr s 0 _ "" (trace_run htrace) hand hroute
    rw [hheaded] at hnext
    cases hnext
  · intro hclaim
    have hevents : (trace (Coordinator.step askedTwice) (.initial askedTwice.config)
        reviewRun).any (fun y =>
          decide (y.2.InHand 0) &&
          decide (runRoutes askedTwice.config.scope (y.2.stageOf 0) = some (routes .prReview)) &&
          decide ((y.2.workItem 0).failBacks + 1 ≤ (failBackCap : Int)) &&
          decide ((((route askedTwice { answers := fun _ => () } 0
            ⟨.failBack, "missing_worktree"⟩).exec y.2).2.workItem 0).state = "EVAL")) = true := by
      decide
    obtain ⟨⟨tr, s⟩, htrace, hprops⟩ := (Option.any_eq_true _ _).mp hevents
    simp only [Bool.and_eq_true, decide_eq_true_eq] at hprops
    obtain ⟨⟨⟨hand, hroute⟩, hcap⟩, hstate⟩ := hprops
    have henter := (hclaim tr s 0 _ "missing_worktree" (trace_run htrace) hand hroute hcap
      (by decide)).1
    rw [hstate] at henter
    exact absurd henter (by decide)

/-- A review that sends its item back to implementation. -/
theorem route_refines_table_agent_error :
    ∃ tr s, Run (Coordinator.step askedTwice) (.initial askedTwice.config) tr s ∧
      s.stageOf 0 = .prReview ∧
      (route askedTwice { answers := fun _ => () } 0 ⟨.failBack, "agent_error"⟩).wp
        (fun _ t => t.headedFor 0 = .implementation ∧ (StageName.implementation ≠ s.stageOf 0 →
          ∀ later u, Run (Coordinator.step askedTwice) t later u →
            (∀ x ∈ later, (x.pre.pendingHandoffs.get? 0).isSome = true) →
            WaitsFor (s.workItem 0) 0 .implementation u ∨
              EnteredAs (s.workItem 0) 0 .implementation u))
        (fun e t => (s.workItem 0).LearnsFirst ⟨.failBack, "agent_error"⟩ ∧
          (Except.ok () : Except PyError Unit) = .error e ∧
            Unmoved (s.workItem 0) (t.workItem 0)) s := by
  have hevents : (trace (Coordinator.step askedTwice) (.initial askedTwice.config)
      reviewRun).any (fun y =>
        decide (y.2.InHand 0) && decide (y.2.stageOf 0 = .prReview) &&
        decide (tableTarget askedTwice.config (y.2.workItem 0) (routes .prReview)
          ⟨.failBack, "agent_error"⟩ = some .implementation)) = true := by
    decide
  obtain ⟨⟨tr, s⟩, htrace, hprops⟩ := (Option.any_eq_true _ _).mp hevents
  simp only [Bool.and_eq_true, decide_eq_true_eq] at hprops
  obtain ⟨⟨hand, hstage⟩, htarget⟩ := hprops
  have hrun := trace_run htrace
  refine ⟨tr, s, hrun, hstage, ?_⟩
  have hroute : runRoutes askedTwice.config.scope (s.stageOf 0) = some (routes .prReview) := by
    rw [hstage]
    rfl
  exact route_refines_table askedTwice hrun hand (by rw [hstage]; decide)
    (by rw [hstage]; simp) hroute htarget

end Hephaestus.Pipeline
