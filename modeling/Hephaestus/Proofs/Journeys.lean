import Hephaestus.Proofs.Decisions
import Hephaestus.Proofs.Steps

/-!
# Journeys

What one item goes through: a stage has it, writes into it, answers, and
`_route` sends it on. Between two answers the record may change in any way
that leaves its stage, the count of its regressions and its post-processing
record alone. A journey is a run of that, with any stage answering anything
under any table.

Each `ADVANCE` takes the item down a chain that ends in the sink, and each
`FAIL_BACK` back up it; the count is what bounds how often. The potential of
an item is the regressions it has left, each worth the longest chain, and the
length of the chain below it. Every change of stage is paid for out of it, but
for the detour after the merge, which is counted on its own.

One step breaks the account: after the merge the payload is compacted, and
the count goes with it. As long as such an item is not sent back to work
that does no harm.
-/

namespace Hephaestus.Pipeline

open Hephaestus.Lib Hephaestus.Lib.Command

variable {ω : Type} {host : Host ω} {s t : Coordinator} {i : ItemId} {w : World ω}
  {item next : WorkItem} {outcome : StageOutcome} {r : Route} {target : StageName}
  {passed : Bool} {reason : String}

/-! ## Chains of the table -/

/-- The `ADVANCE` steps from `st` to the sink, at most `fuel` of them. -/
def chainFrom : Nat → StageName → Nat
  | 0, _ => 0
  | fuel + 1, st => if st = .finished then 0 else chainFrom fuel (routes st).next + 1

/-- The `ADVANCE` chain of a stage. -/
def advanceChain (st : StageName) : Nat := chainFrom pipelineOrder.length st

def longestAdvanceChain : Nat := (pipelineOrder.map advanceChain).foldr max 0

theorem advanceChain_le (st : StageName) : advanceChain st ≤ longestAdvanceChain := by
  cases st <;> decide

theorem advanceChain_pos {st : StageName} (h : st ≠ .finished) : 0 < advanceChain st := by
  cases st <;> first | decide | exact absurd rfl h

/-- The chain gets shorter at every step. -/
theorem advanceChain_next {st : StageName} (h : st ≠ .finished) :
    advanceChain (routes st).next < advanceChain st := by
  cases st <;> first | decide | exact absurd rfl h

/-- A trimmed table only cuts it short. -/
theorem advanceChain_runRoutes {scope : Option PipelineScope} {st : StageName}
    (hr : runRoutes scope st = some r) (h : st ≠ .finished) :
    advanceChain r.next < advanceChain st := by
  cases scope with
  | none =>
      obtain rfl := Option.some.inj hr
      exact advanceChain_next h
  | some scope =>
      simp only [runRoutes, PipelineScope.trimmedRoutes] at hr
      split at hr
      · obtain rfl := Option.some.inj hr
        dsimp only
        unfold PipelineScope.restrict
        split
        · exact advanceChain_next h
        · exact advanceChain_pos h
      · cases hr

/-! ## The journey of an item -/

/-- The record after a handoff: entered in another stage, or as it was. -/
def WorkItem.handedTo (item : WorkItem) (target : StageName) (result : Option ItemResult) :
    WorkItem :=
  if target = item.stage then item
  else { item.moveTo target true with result := result.orElse fun _ => item.result }

/-- The record once the fate is carried out and the destination has room.
`none` where the item leaves the pipeline. An exception poisons it. -/
def Decision.carried (d : Decision) : Option WorkItem :=
  match d.fate with
  | .handoff target result => some (d.item.handedTo target result)
  | .restore => some d.item
  | .park _ => some d.item
  | .leave => none
  | .raise e => some (d.item.handedTo .finished
      (some ⟨false, "poisoned: " ++ e.message, d.item.stage⟩))

/-- What no stage writes. -/
def SamePlace (before after : WorkItem) : Prop :=
  after.stage = before.stage ∧ after.failBacks = before.failBacks ∧
    after.postProcessing = before.postProcessing

instance (before after : WorkItem) : Decidable (SamePlace before after) :=
  inferInstanceAs (Decidable (_ ∧ _ ∧ _))

/-- The stage of an item answers: the record by then, and the answer. -/
structure Visit (ω : Type) where
  w : World ω
  record : WorkItem
  outcome : StageOutcome

/-- One stage after another. -/
def journeyStep (host : Host ω) (item : WorkItem) (v : Visit ω) : Option WorkItem :=
  if SamePlace item v.record ∧ item.stage ≠ .finished then
    (decideRoute host v.w v.record v.outcome).carried
  else none

/-- The item changed its stage. -/
def moves (x : Transition WorkItem (Visit ω)) : Bool := decide (x.pre.stage ≠ x.post.stage)

/-- The item went to learn. -/
def detours (x : Transition WorkItem (Visit ω)) : Bool :=
  decide (x.pre.stage ≠ .learning ∧ x.post.stage = .learning)

/-- An item whose payload was compacted is not sent back to work. -/
def CompactedStays (host : Host ω) (item : WorkItem) (v : Visit ω) : Prop :=
  v.outcome.disposition = .failBack → item.postProcessing.isSome = true →
    ∀ r ∈ runRoutes host.config.scope item.stage,
      r.failTarget v.outcome.note = .finished ∨ r.failTarget v.outcome.note = item.stage

instance (host : Host ω) (item : WorkItem) (v : Visit ω) :
    Decidable (CompactedStays host item v) :=
  inferInstanceAs (Decidable (_ → _ → ∀ r ∈ runRoutes host.config.scope item.stage, _))

/-! ## The potential -/

/-- The regressions an item has left, each worth the longest chain. One that
is compacted has none. -/
def WorkItem.regressionsLeft (item : WorkItem) : Nat :=
  if item.postProcessing.isSome then 0
  else (failBackCap - item.failBacks).toNat * longestAdvanceChain

def WorkItem.potential (item : WorkItem) : Nat := item.regressionsLeft + advanceChain item.stage

/-- The step is paid for. -/
def Pays (item next : WorkItem) : Prop :=
  next.potential + (decide (item.stage ≠ next.stage)).toNat ≤
    item.potential + (decide (item.stage ≠ .learning ∧ next.stage = .learning)).toNat

theorem SamePlace.regressionsLeft (h : SamePlace item next) :
    next.regressionsLeft = item.regressionsLeft := by
  unfold WorkItem.regressionsLeft
  rw [h.2.1, h.2.2]

/-- A step down the chain, or one that stays. -/
theorem Pays.down (hleft : next.regressionsLeft ≤ item.regressionsLeft)
    (hchain : advanceChain next.stage < advanceChain item.stage) : Pays item next := by
  have hmoved := Bool.toNat_le (decide (item.stage ≠ next.stage))
  unfold Pays WorkItem.potential
  omega

theorem Pays.stay (h : SamePlace item next) : Pays item next := by
  unfold Pays WorkItem.potential
  rw [h.regressionsLeft, h.1]
  simp

/-- A regression that was counted. -/
theorem Pays.back (hleft : next.regressionsLeft + longestAdvanceChain ≤ item.regressionsLeft)
    (hwork : item.stage ≠ .finished) : Pays item next := by
  have hmoved := Bool.toNat_le (decide (item.stage ≠ next.stage))
  have hnext := advanceChain_le next.stage
  have hitem := advanceChain_pos hwork
  unfold Pays WorkItem.potential
  omega

/-! ### What a handoff leaves of the record -/

theorem handedTo_stage (item : WorkItem) (target : StageName) (result : Option ItemResult) :
    (item.handedTo target result).stage = target := by
  unfold WorkItem.handedTo
  split
  · next h => exact h.symm
  · exact moveTo_stage _ _ _

theorem handedTo_regressionsLeft (item : WorkItem) (target : StageName)
    (result : Option ItemResult) :
    (item.handedTo target result).regressionsLeft = item.regressionsLeft := by
  unfold WorkItem.handedTo
  split
  · rfl
  · have hcount : (item.moveTo target true).failBacks = item.failBacks := by
      unfold WorkItem.failBacks
      rw [moveTo_get? item target true (by decide) (by decide)]
    have hpost : (item.moveTo target true).postProcessing = item.postProcessing := by
      show (item.clearFileClaimsOnExit target).postProcessing = _
      unfold WorkItem.clearFileClaimsOnExit
      split <;> rfl
    show WorkItem.regressionsLeft (item.moveTo target true) = _
    unfold WorkItem.regressionsLeft
    rw [hcount, hpost]

/-- A record that was written and then handed down the chain. -/
theorem Pays.handedTo {written : WorkItem} {result : Option ItemResult}
    (hleft : written.regressionsLeft ≤ item.regressionsLeft)
    (hchain : advanceChain target < advanceChain item.stage) :
    Pays item (written.handedTo target result) := by
  refine .down ?_ ?_
  · rw [handedTo_regressionsLeft]
    exact hleft
  · rw [handedTo_stage]
    exact hchain

theorem Pays.finish {written : WorkItem} {result : Option ItemResult}
    (hleft : written.regressionsLeft ≤ item.regressionsLeft) (hwork : item.stage ≠ .finished) :
    Pays item (written.handedTo .finished result) :=
  .handedTo hleft (advanceChain_pos hwork)

/-- Every key but one is not the count. -/
theorem samePlace_setPayload (item : WorkItem) {key : String} (value : PayloadValue)
    (h : key ≠ failBacksKey) : SamePlace item (item.setPayload key value) := by
  refine ⟨rfl, ?_, rfl⟩
  unfold WorkItem.failBacks WorkItem.setPayload
  rw [Dict.get?_set_ne _ _ h]

theorem samePlace_popPayload (item : WorkItem) (key : String) (h : failBacksKey ≠ key) :
    SamePlace item (item.popPayload key) := by
  refine ⟨rfl, ?_, rfl⟩
  unfold WorkItem.failBacks WorkItem.popPayload
  rw [Dict.get?_erase, if_neg h]

/-! ### The rows -/

/-- Wherever the decision takes the item, it is paid for. -/
def Decision.Paid (item : WorkItem) (d : Decision) : Prop := ∀ next ∈ d.carried, Pays item next

theorem Decision.Paid.handoff {written : WorkItem} {result : Option ItemResult}
    (h : Pays item (written.handedTo target result)) :
    Decision.Paid item ⟨written, .handoff target result⟩ := by
  rintro next ⟨⟩
  exact h

theorem paid_finish {written : WorkItem} (hleft : written.regressionsLeft ≤ item.regressionsLeft)
    (hwork : item.stage ≠ .finished) :
    Decision.Paid item (decideFinish written passed reason) :=
  .handoff (.finish hleft hwork)

theorem paid_retry (hwork : item.stage ≠ .finished) :
    Decision.Paid item (decideRetry host item outcome) := by
  have hpop := samePlace_popPayload item retryDelayKey (by decide)
  unfold decideRetry
  rcases item.payload.get? retryDelayKey with _ | value
  · rintro next ⟨⟩
    exact .stay hpop
  · dsimp only
    split
    · exact paid_finish hpop.regressionsLeft.le hwork
    · rintro next ⟨⟩
      exact .stay hpop

theorem paid_advance (hwork : item.stage ≠ .finished)
    (hr : runRoutes host.config.scope item.stage = some r) :
    Decision.Paid item (decideAdvance w item outcome r) := by
  have hsame : ∀ resume, SamePlace item { item with learningResumeStage := resume } :=
    fun _ => ⟨rfl, rfl, rfl⟩
  have hpop := samePlace_popPayload item learningPrimaryReasonKey (by decide)
  unfold decideAdvance
  split
  · next hlearn =>
      rcases w.persist with e | ⟨⟩
      · rintro next ⟨⟩
        exact .finish (hsame _).regressionsLeft.le hwork
      · refine .handoff (.handedTo (hsame _).regressionsLeft.le ?_)
        rw [hlearn.1]
        decide
  · split
    · rcases item.postProcessing with _ | record
      · exact paid_finish hpop.regressionsLeft.le hwork
      · exact .handoff (.finish hpop.regressionsLeft.le hwork)
    · exact .handoff (.handedTo le_rfl (advanceChain_runRoutes hr hwork))

/-- The count after one more regression. -/
theorem counted_regressionsLeft (item : WorkItem) :
    (item.setPayload failBacksKey (.int (item.failBacks + 1))).regressionsLeft ≤
      item.regressionsLeft ∧
    (item.postProcessing = none → item.failBacks + 1 ≤ (failBackCap : Int) →
      (item.setPayload failBacksKey (.int (item.failBacks + 1))).regressionsLeft +
        longestAdvanceChain = item.regressionsLeft) := by
  have hcount : (item.setPayload failBacksKey (.int (item.failBacks + 1))).failBacks =
      item.failBacks + 1 := by
    unfold WorkItem.failBacks WorkItem.setPayload
    rw [Dict.get?_set_self]
  have hpost : (item.setPayload failBacksKey (.int (item.failBacks + 1))).postProcessing =
    item.postProcessing := rfl
  unfold WorkItem.regressionsLeft
  rw [hcount, hpost]
  refine ⟨?_, fun hnone hcap => ?_⟩
  · split
    · exact le_rfl
    · exact Nat.mul_le_mul_right _ (by omega)
  · rw [hnone]
    have hone : (failBackCap - item.failBacks).toNat =
        (failBackCap - (item.failBacks + 1)).toNat + 1 := by omega
    show (failBackCap - (item.failBacks + 1)).toNat * longestAdvanceChain + longestAdvanceChain =
      (failBackCap - item.failBacks).toNat * longestAdvanceChain
    rw [hone, Nat.add_mul, Nat.one_mul]

theorem paid_failBack (hwork : item.stage ≠ .finished)
    (hstays : item.postProcessing.isSome = true →
      r.failTarget outcome.note = .finished ∨ r.failTarget outcome.note = item.stage) :
    Decision.Paid item (decideFailBack host item outcome r) := by
  obtain ⟨hle, hpaid⟩ := counted_regressionsLeft item
  unfold decideFailBack
  split
  · exact paid_finish le_rfl hwork
  · dsimp only
    split
    · exact paid_finish hle hwork
    · next hcap =>
        have hback : r.failTarget outcome.note ≠ .finished → Decision.Paid item
            ⟨item.setPayload failBacksKey (.int (item.failBacks + 1)),
              .handoff (r.failTarget outcome.note) none⟩ := by
          intro hto
          refine .handoff ?_
          rcases hpost : item.postProcessing with _ | record
          · refine .back ?_ hwork
            rw [handedTo_regressionsLeft]
            exact (hpaid hpost (by omega)).le
          · -- A compacted item stays in its stage, and its count is not read.
            have hself := (hstays (by rw [hpost]; rfl)).resolve_left hto
            unfold Pays WorkItem.potential
            rw [handedTo_regressionsLeft, handedTo_stage, hself]
            simpa using hle
        generalize r.failTarget outcome.note = target at hback ⊢
        cases target with
        | finished => exact paid_finish hle hwork
        | _ => exact hback (by decide)

theorem paid_merged (hmerged : item.stage = .mergeWait) :
    Decision.Paid item (decideMerged host w item outcome) := by
  have hnone : ∀ (record : WorkItem) (result : ItemResult),
      (record.compactForPostProcessing host.sha256 result).regressionsLeft = 0 :=
    fun _ _ => rfl
  have hwork : item.stage ≠ .finished := by
    rw [hmerged]
    decide
  unfold decideMerged
  dsimp only
  rcases w.persist with e | ⟨⟩
  · dsimp only
    split
    · exact .handoff (.finish (Nat.zero_le _) hwork)
    · rintro next ⟨⟩
      exact .finish (Nat.zero_le _) hwork
  · -- The chain of the detour is as long as the one it is taken from.
    refine .handoff ?_
    unfold Pays WorkItem.potential
    rw [handedTo_regressionsLeft, handedTo_stage, hnone, hmerged]
    have hchain : advanceChain .learning = advanceChain .mergeWait := by decide
    rw [hchain]
    simp

theorem paid_bootstrap (hwork : item.stage ≠ .finished) :
    Decision.Paid item (decideBootstrap host w item outcome) := by
  unfold decideBootstrap
  split
  · exact paid_retry hwork
  · split
    · exact paid_finish le_rfl hwork
    · split
      · exact paid_finish le_rfl hwork
      · rcases w.bootstrap with e | ⟨⟩
        · exact paid_finish le_rfl hwork
        · rintro next ⟨⟩

variable (host w) in
theorem paid_route (hwork : item.stage ≠ .finished)
    (hstays : outcome.disposition = .failBack → item.postProcessing.isSome = true →
      ∀ r ∈ runRoutes host.config.scope item.stage,
        r.failTarget outcome.note = .finished ∨ r.failTarget outcome.note = item.stage) :
    Decision.Paid item (decideRoute host w item outcome) := by
  unfold decideRoute
  split
  · exact paid_bootstrap hwork
  · rcases hr : runRoutes host.config.scope item.stage with _ | r
    · exact paid_finish le_rfl hwork
    · show Decision.Paid item (decideRow host w item outcome r)
      unfold decideRow
      cases hdisp : outcome.disposition with
      | advance => exact paid_advance hwork hr
      | retry => exact paid_retry hwork
      | failBack => exact paid_failBack hwork fun hpost => hstays hdisp hpost r hr
      | skip => exact paid_finish le_rfl hwork
      | eject => rintro next ⟨⟩
      | blocked => exact paid_finish le_rfl hwork
      | finishPass =>
          dsimp only
          split
          · next hmerged => exact paid_merged hmerged.1
          · exact paid_finish le_rfl hwork
      | finishFail => exact paid_finish le_rfl hwork

/-! ## Journeys are bounded -/

/-- The steps of a journey are paid for. -/
theorem journeyStep_pays {v : Visit ω} (hstays : CompactedStays host item v)
    (hstep : journeyStep host item v = some next) : Pays item next := by
  unfold journeyStep at hstep
  split at hstep
  · next hguard =>
      obtain ⟨hsame, hwork⟩ := hguard
      have hpaid : Pays v.record next := by
        refine paid_route host v.w (by rw [hsame.1]; exact hwork) ?_ next hstep
        rw [hsame.1, hsame.2.2]
        exact hstays
      unfold Pays WorkItem.potential at *
      rw [hsame.regressionsLeft, hsame.1] at hpaid
      exact hpaid
  · cases hstep

/-- A journey of an item that is not sent back to work after its merge
changes stage at most so often. -/
theorem journey_bounded (host : Host ω) {tr : List (Transition WorkItem (Visit ω))}
    (hnew : item.failBacks = 0) (hrun : Run (journeyStep host) item tr next)
    (hstays : ∀ x ∈ tr, CompactedStays host x.pre x.event) :
    tr.countP moves ≤ (failBackCap + 1) * longestAdvanceChain + tr.countP detours := by
  have hpaid := hrun.amortized WorkItem.potential moves detours (CompactedStays host)
    (fun _ _ _ hc hs => journeyStep_pays hc hs) hstays
  have hstart : item.potential ≤ (failBackCap + 1) * longestAdvanceChain := by
    have hchain := advanceChain_le item.stage
    unfold WorkItem.potential WorkItem.regressionsLeft
    rw [hnew, Nat.add_mul, Nat.one_mul]
    split
    · omega
    · simpa using hchain
  omega

/-! ## The coordinator takes items on journeys -/

namespace Coordinator

/-- The record of an item, once its retained route is carried out. -/
def due (s : Coordinator) (i : ItemId) : WorkItem :=
  match s.pendingHandoffs.get? i with
  | some pending => (s.workItem i).arrived pending
  | none => s.workItem i

end Coordinator

theorem Handed.due {result : Option ItemResult} (h : Handed s i target true result t) :
    t.due i = (s.workItem i).handedTo target result := by
  unfold Coordinator.due WorkItem.handedTo
  have hown : s.stageOf i = (s.workItem i).stage := rfl
  cases h with
  | back hl htarget _ =>
      rw [if_pos (htarget.trans hown)]
      simp only [Coordinator.unlease, Dict.get?_erase, if_true]
  | moved hl htarget =>
      rw [if_neg (hown ▸ htarget)]
      simp only [publishHandoff_pending, Dict.get?_erase, if_true]
      rw [publishHandoff_workItem_self]
  | waits htarget =>
      rw [if_neg (hown ▸ htarget)]
      simp only [Dict.get?_set_self]
      rfl

/-- Carrying out a fate takes the item where the journey goes. -/
theorem Enacts.due {d : Decision} (h : Enacts (s.setItem i d.item) i d.fate t) :
    match d.carried with
    | some next => t.due i = next
    | none => i ∉ t.seenItemIds := by
  obtain ⟨record, fate⟩ := d
  have hitem : (s.setItem i record).workItem i = record := setItem_workItem_self _
  cases fate with
  | handoff target result =>
      obtain ⟨pending, hhanded⟩ := h
      have hdue := hhanded.due
      rwa [show Coordinator.workItem { s.setItem i record with
        directScopeBootstrapPending := pending } i = record from hitem] at hdue
  | restore =>
      obtain ⟨l, hl, rfl⟩ := h
      simp only [Decision.carried, Coordinator.due, Coordinator.unlease, Dict.get?_erase, if_true]
      exact hitem
  | park seconds =>
      obtain ⟨l, wake, hl, rfl⟩ := h
      simp only [Decision.carried, Coordinator.due, Coordinator.unlease, Dict.get?_erase, if_true]
      exact hitem
  | leave =>
      obtain ⟨l, hl, hqueues, hseen⟩ := h
      exact hseen
  | raise e => exact h.elim

/-- `_route`, and what `_run_item` does where it raises, take an item in hand
one step on its journey. -/
theorem Holds.route_due (h : Holds s i) (hfin : s.stageOf i ≠ .finished) :
    (tryCatch (Pipeline.route host w i outcome)
      fun e => Pipeline.finish host i false ("poisoned: " ++ e.message)).wp
      (fun _ t => match (decideRoute host w (s.workItem i) outcome).carried with
        | some next => t.due i = next
        | none => i ∉ t.seenItemIds)
      (fun _ _ => False) s := by
  rw [wp_tryCatch]
  refine wp_mono (h.decides_route host w outcome hfin) (fun _ t ht => ht.due) ?_
  rintro e t ⟨hraise, ht, hholds⟩
  have hitem : t.workItem i = (decideRoute host w (s.workItem i) outcome).item := by
    rw [ht]
    exact setItem_workItem_self _
  have hstage : t.stageOf i ≠ .finished := by
    rw [Coordinator.stageOf, hitem, decideRoute_stage]
    exact hfin
  refine wp_mono (hholds.decides_finish host _ _ hstage) ?_ fun _ _ hf => by cases hf.1
  intro _ u hu
  rw [hitem] at hu
  have hdue := hu.due
  unfold Decision.carried at hdue ⊢
  rw [hraise]
  exact hdue

/-! ### A journey without end -/

/-- The visits of an item whose stages write nothing and answer so. -/
def visits (host : Host Unit) : WorkItem → List StageOutcome → List (Visit Unit)
  | _, [] => []
  | item, o :: os =>
      ⟨{ answers := fun _ => () }, item, o⟩ ::
        match (decideRoute host { answers := fun _ => () } item o).carried with
        | some next => visits host next os
        | none => []

/-- An issue whose pull request is up, with an intent to learn from it. -/
def mergeable : WorkItem :=
  { repo := "hephaestus", kind := .issue, issue := some 7, pr := some 12, stage := .mergeWait
    learningIntents := [{ kind := .postMerge, repo := "hephaestus", issue := 7, pr := some 12 }] }

/-- The same once it merged. -/
def merged : WorkItem :=
  ((decideRoute stillHost { answers := fun _ => () } mergeable ⟨.finishPass, ""⟩).carried).getD
    mergeable

/-- Back to implementation from `LEARNING`, and on to the merge. -/
def resumed : List StageOutcome :=
  [⟨.failBack, "resume_implementation"⟩, ⟨.advance, ""⟩, ⟨.advance, ""⟩, ⟨.finishPass, ""⟩]

/-- An item that is sent back from `LEARNING` after every merge goes round as
often as it likes. -/
theorem merged_goes_round :
    ¬ ∃ bound, ∀ (item last : WorkItem) (tr : List (Transition WorkItem (Visit Unit))),
      item.failBacks = 0 → Run (journeyStep stillHost) item tr last →
      tr.countP moves ≤ bound + tr.countP detours := by
  rintro ⟨bound, hclaim⟩
  have hround : (trace (journeyStep stillHost) merged (visits stillHost merged resumed)).any
      (fun y => decide (y.2 = merged) && decide (y.1.countP moves = 4) &&
        decide (y.1.countP detours = 1)) = true := by
    decide
  obtain ⟨⟨tr, last⟩, htrace, hprops⟩ := (Option.any_eq_true _ _).mp hround
  simp only [Bool.and_eq_true, decide_eq_true_eq] at hprops
  obtain ⟨⟨rfl, hmoves⟩, hdetours⟩ := hprops
  have hcount : ∀ (p : Transition WorkItem (Visit Unit) → Bool) n,
      (List.replicate n tr).flatten.countP p = n * tr.countP p := by
    intro p n
    induction n with
    | zero => simp
    | succ n ih =>
        rw [List.replicate_succ, List.flatten_cons, List.countP_append, ih, Nat.succ_mul,
          Nat.add_comm]
  have hfirst : journeyStep stillHost mergeable
      ⟨{ answers := fun _ => () }, mergeable, ⟨.finishPass, ""⟩⟩ = some merged := by
    decide
  have hlong := hclaim mergeable merged _ (by decide)
    (Run.cons hfirst ((trace_run htrace).loop (bound + 1)))
  rw [List.countP_cons, List.countP_cons, hcount, hcount, hmoves, hdetours] at hlong
  split at hlong <;> split at hlong <;> omega

/-- An item that is learned from after its merge, and is done. -/
theorem journey_bounded_merged :
    ∃ tr last, Run (journeyStep stillHost) mergeable tr last ∧ last.stage = .finished ∧
      tr.countP moves ≤ (failBackCap + 1) * longestAdvanceChain + tr.countP detours := by
  have hevents : (trace (journeyStep stillHost) mergeable
      (visits stillHost mergeable [⟨.finishPass, ""⟩, ⟨.advance, ""⟩])).any (fun y =>
        decide (y.2.stage = .finished) &&
        decide (∀ x ∈ y.1, CompactedStays stillHost x.pre x.event)) = true := by
    decide
  obtain ⟨⟨tr, last⟩, htrace, hprops⟩ := (Option.any_eq_true _ _).mp hevents
  simp only [Bool.and_eq_true, decide_eq_true_eq] at hprops
  have hrun := trace_run htrace
  exact ⟨tr, last, hrun, hprops.1, journey_bounded stillHost (by decide) hrun hprops.2⟩

end Hephaestus.Pipeline
