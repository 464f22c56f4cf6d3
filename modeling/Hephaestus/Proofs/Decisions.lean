import Hephaestus.Pipeline.Decision
import Hephaestus.Proofs.Handoff

/-!
# `_route` does what it decides

For an item in hand outside the sink, `_route` writes the record `decide`
says and then carries out its fate. A fate is carried out in one way, except
for a handoff, which ends in one of the three ways `Handed` lists. Nothing
else can raise than what the fate says.
-/

namespace Hephaestus.Pipeline

open Hephaestus.Lib Hephaestus.Lib.Command StageQueueLease

variable {ω : Type} {host : Host ω} {s t : Coordinator} {i : ItemId} {w : World ω}
  {item : WorkItem} {outcome : StageOutcome} {passed : Bool} {reason : String}

theorem decideRetry_stage : (decideRetry host item outcome).item.stage = item.stage := by
  unfold decideRetry
  rcases item.payload.get? retryDelayKey with _ | value
  · rfl
  · dsimp only
    split <;> rfl

/-- `_route` writes no stage: the handoff does. -/
theorem decideRoute_stage : (decideRoute host w item outcome).item.stage = item.stage := by
  unfold decideRoute
  split
  · unfold decideBootstrap
    split
    · exact decideRetry_stage
    · split
      · rfl
      · split
        · rfl
        · rcases w.bootstrap with _ | _ <;> rfl
  · rcases runRoutes host.config.scope item.stage with _ | r
    · rfl
    · show (decideRow host w item outcome r).item.stage = item.stage
      unfold decideRow
      cases outcome.disposition with
      | advance =>
          dsimp only
          unfold decideAdvance
          split
          · rcases w.persist with _ | _ <;> rfl
          · split
            · rcases item.postProcessing with _ | _ <;> rfl
            · rfl
      | retry => exact decideRetry_stage
      | failBack =>
          dsimp only
          unfold decideFailBack
          split
          · rfl
          · dsimp only
            split
            · rfl
            · cases r.failTarget outcome.note <;> rfl
      | finishPass =>
          dsimp only
          split
          · unfold decideMerged
            rcases w.persist with e | _
            · dsimp only
              split <;> rfl
            · rfl
          · rfl
      | _ => rfl

/-- How a fate is carried out. The bootstrap flag of the coordinator may be
cleared on the way. -/
def Enacts (s : Coordinator) (i : ItemId) : Fate → Coordinator → Prop
  | .handoff target result, t =>
      ∃ pending, Handed { s with directScopeBootstrapPending := pending } i target true result t
  | .restore, t => ∃ l, s.leases.get? i = some l ∧
      t = s.unlease i (reinserted s.queues l l.item)
  | .park _, t => ∃ l wake, s.leases.get? i = some l ∧
      t = { s.unlease i (released s.queues l) with
        timers := heappush s.timers ⟨wake, s.seq, i⟩
        seq := s.seq + 1 }
  | .leave, t => ∃ l, s.leases.get? i = some l ∧ t.queues = released s.queues l ∧
      i ∉ t.seenItemIds
  | .raise _, _ => False

/-- The command carries out the decision. Where it raises the item is still
in hand. -/
def Decides (x : Op Unit) (s : Coordinator) (i : ItemId) (d : Decision) : Prop :=
  x.wp (fun _ => Enacts (s.setItem i d.item) i d.fate)
    (fun e t => d.fate = .raise e ∧ t = s.setItem i d.item ∧ Holds t i) s

/-- A write to the record before the rest. -/
theorem Decides.edit {f : WorkItem → WorkItem} {x : Op Unit} {d : Decision}
    (h : Decides x (s.setItem i (f (s.workItem i))) i d) :
    Decides (editItem i f >>= fun _ => x) s i d := by
  unfold Decides at *
  rw [wp_bind, wp_editItem]
  simpa only [setItem_setItem] using h

theorem Decides.get {f : Coordinator → Op Unit} {d : Decision} (h : Decides (f s) s i d) :
    Decides (MonadState.get >>= f) s i d := by
  unfold Decides at *
  rw [wp_bind]
  exact h

theorem Holds.pending (h : Holds s i) (pending : Bool) :
    Holds { s with directScopeBootstrapPending := pending } i :=
  ⟨⟨h.owned.held, h.owned.fits, h.owned.unborn⟩, h.inHand⟩

/-- The flag of a direct scope changes nothing that is decided. -/
theorem Decides.pending {x : Op Unit} {d : Decision} {pending : Bool}
    (h : Decides x { s with directScopeBootstrapPending := pending } i d)
    (hfate : ∃ target result, d.fate = .handoff target result) :
    Decides (modify (fun s => { s with directScopeBootstrapPending := pending }) >>= fun _ => x)
      s i d := by
  obtain ⟨target, result, hfate⟩ := hfate
  unfold Decides at *
  rw [wp_bind, wp_modify]
  rw [hfate] at h ⊢
  refine wp_mono h (fun _ u hu => ?_) fun e u hu => ?_
  · obtain ⟨b, hb⟩ := hu
    exact ⟨b, hb⟩
  · cases hu.1

/-! ## One row at a time -/

/-- A handoff whose result, if it has one, is not for the item's own stage. -/
theorem Holds.decides_handoff (h : Holds s i) {target : StageName} {result : Option ItemResult}
    (hresult : target = s.stageOf i → result = none) :
    Decides (do let _ ← Pipeline.handoffItem host.config i target true result) s i
      ⟨s.workItem i, .handoff target result⟩ := by
  unfold Decides
  rw [wp_bind]
  refine wp_mono (h.handoffItem hresult) (fun _ t ht => ?_) fun _ _ hf => hf.elim
  rw [wp_pure, setItem_workItem]
  exact ⟨s.directScopeBootstrapPending, ht⟩

variable (host passed reason) in
theorem Holds.decides_finish (h : Holds s i) (hfin : s.stageOf i ≠ .finished) :
    Decides (Pipeline.finish host i passed reason) s i
      (decideFinish (s.workItem i) passed reason) := by
  obtain ⟨pending, heq⟩ : ∃ pending, (if s.stageOf i = .repo ∧
      (s.workItem i).payload.flag directScopeBootstrapKey then
        { s with directScopeBootstrapPending := false }
      else s) = { s with directScopeBootstrapPending := pending } := by
    split
    · exact ⟨false, rfl⟩
    · exact ⟨s.directScopeBootstrapPending, rfl⟩
  unfold Decides Pipeline.finish
  rw [wp_bind, wp_modify, heq, wp_bind, wp_get]
  dsimp only
  rw [if_neg (show Coordinator.stageOf { s with directScopeBootstrapPending := pending } i
    ≠ .finished from hfin), wp_bind]
  have hto : StageName.finished = s.stageOf i → some
      (⟨passed, reason, s.stageOf i⟩ : ItemResult) = none := fun heq => absurd heq.symm hfin
  refine wp_mono ((h.pending pending).handoffItem hto) (fun _ t ht => ?_) fun _ _ hf => hf.elim
  unfold decideFinish
  rw [setItem_workItem]
  exact ⟨pending, ht⟩

theorem Holds.decides_park (h : Holds s i) (now delay seconds : ℚ) :
    Decides (timerPark now i delay) s i ⟨s.workItem i, .park seconds⟩ := by
  obtain ⟨l, hl⟩ := Option.isSome_iff_exists.mp h.inHand.1
  unfold Decides timerPark
  rw [wp_bind, wp_releaseSourceLease (h.owned.owns hl) hl, wp_modify, setItem_workItem]
  exact ⟨l, _, hl, rfl⟩

theorem Holds.decides_retry (h : Holds s i) (hfin : s.stageOf i ≠ .finished) :
    Decides (routeRetry host w i outcome) s i (decideRetry host (s.workItem i) outcome) := by
  have hp := h.edit (Preserves.popPayload (s.workItem i) retryDelayKey (by decide) (by decide))
  have hitem : (s.setItem i ((s.workItem i).popPayload retryDelayKey)).workItem i =
    (s.workItem i).popPayload retryDelayKey := setItem_workItem_self _
  unfold routeRetry decideRetry
  refine .get (.edit ?_)
  dsimp only
  rcases hdelay : (s.workItem i).payload.get? retryDelayKey with _ | value
  · obtain ⟨l, hl⟩ := Option.isSome_iff_exists.mp hp.inHand.1
    unfold Decides
    dsimp only
    rw [wp_bind, wp_restoreSourceLease hp.owned hl, if_pos rfl, wp_pure, setItem_setItem]
    exact ⟨l, hl, rfl⟩
  · dsimp only
    split
    · have hdone := hp.decides_finish host false
        ("[dry-run] would wait " ++ value.text ++ "s: " ++ outcome.note)
        (by rw [Coordinator.stageOf, hitem]; exact hfin)
      rwa [hitem] at hdone
    · have hdone := hp.decides_park w.monotonic value.seconds value.seconds
      rwa [hitem] at hdone

/-- `_finish` of a record that was written first. -/
theorem Holds.decides_finish_as (h : Holds s i) (hfin : s.stageOf i ≠ .finished)
    {item : WorkItem} (hitem : s.workItem i = item) :
    Decides (Pipeline.finish host i passed reason) s i (decideFinish item passed reason) :=
  hitem ▸ h.decides_finish host _ _ hfin

theorem Holds.decides_handoff_as (h : Holds s i) {item : WorkItem} (hitem : s.workItem i = item)
    {target : StageName} {result : Option ItemResult}
    (hresult : target = s.stageOf i → result = none) :
    Decides (do let _ ← Pipeline.handoffItem host.config i target true result) s i
      ⟨item, .handoff target result⟩ :=
  hitem ▸ h.decides_handoff hresult

theorem Holds.decides_failBack (h : Holds s i) (hfin : s.stageOf i ≠ .finished) (route : Route) :
    Decides (routeFailBack host i outcome route) s i
      (decideFailBack host (s.workItem i) outcome route) := by
  unfold routeFailBack decideFailBack
  split
  · exact h.decides_finish host _ _ hfin
  · have hp := h.edit (Preserves.setPayload (s.workItem i) failBacksKey
      (.int ((s.workItem i).failBacks + 1)) (by decide) (by decide))
    have hitem := setItem_workItem_self (s := s) (i := i)
      ((s.workItem i).setPayload failBacksKey (.int ((s.workItem i).failBacks + 1)))
    have hstage : (s.setItem i ((s.workItem i).setPayload failBacksKey
        (.int ((s.workItem i).failBacks + 1)))).stageOf i ≠ .finished := by
      rw [Coordinator.stageOf, hitem]
      exact hfin
    refine .get (.edit ?_)
    dsimp only
    split
    · exact hp.decides_finish_as hstage hitem
    · cases route.failTarget outcome.note with
      | finished => exact hp.decides_finish_as hstage hitem
      | _ => exact hp.decides_handoff_as hitem fun _ => rfl

/-- An item that leaves without a result of its own. -/
theorem Holds.decides_letGo (h : Holds s i) :
    Decides (do
      letGo i
      modify fun s =>
        { s with
          directScopeBootstrapPending := false
          seenItemIds := s.seenItemIds.erase i
          items := s.items.erase i }) s i ⟨s.workItem i, .leave⟩ := by
  obtain ⟨l, hl⟩ := Option.isSome_iff_exists.mp h.inHand.1
  unfold Decides letGo
  rw [wp_bind, wp_bind, wp_releaseSourceLease (h.owned.owns hl) hl, wp_modify, wp_modify,
    setItem_workItem]
  exact ⟨l, hl, rfl, Finset.notMem_erase _ _⟩

theorem Holds.decides_bootstrap (h : Holds s i) (hfin : s.stageOf i ≠ .finished) :
    Decides (routeDirectScopeBootstrap host w i outcome) s i
      (decideBootstrap host w (s.workItem i) outcome) := by
  have hfail : ∀ text, Decides (do
      modify fun s => { s with directScopeBootstrapPending := false }
      Pipeline.finish host i false text) s i (decideFinish (s.workItem i) false text) :=
    fun text => .pending ((h.pending false).decides_finish host _ _ hfin) ⟨_, _, rfl⟩
  unfold routeDirectScopeBootstrap decideBootstrap
  split
  · exact h.decides_retry hfin
  · split
    · exact hfail _
    · refine .get ?_
      split
      · exact hfail _
      · rcases w.bootstrap with e | ⟨⟩
        · exact hfail _
        · exact h.decides_letGo

/-- Compaction keeps the item in hand. -/
theorem Holds.compact (h : Holds s i) (sha256 : String → String) (text : String)
    (result : ItemResult) :
    Holds (s.setItem i (((s.workItem i).setPayload learningPrimaryReasonKey
      (.str text)).compactForPostProcessing sha256 result)) i := by
  obtain ⟨l, hl⟩ := Option.isSome_iff_exists.mp h.inHand.1
  obtain ⟨_, hrec, _⟩ := h.owned.leased_fresh hl
  refine ⟨h.owned.setItem rfl id ?_, h.inHand⟩
  exact (compact_summaryRecorded _ _ _).trans hrec.symm

theorem Preserves.clearLearning (item : WorkItem) (key error : String) :
    Preserves item { item with
      payload := item.payload.addFailure key error
      learningIntents := [] } := by
  obtain ⟨failures, hadd⟩ : ∃ failures,
      item.payload.addFailure key error = item.payload.set "learning_failures" failures :=
    ⟨_, rfl⟩
  have hset := Preserves.setPayload item "learning_failures" failures (by decide) (by decide)
  rw [hadd]
  exact ⟨rfl, rfl, rfl, rfl, id, hset.keys, hset.lease⟩

theorem Holds.decides_merged (h : Holds s i) (hstage : s.stageOf i = .mergeWait) :
    Decides (routeMerged host w i outcome) s i (decideMerged host w (s.workItem i) outcome) := by
  unfold routeMerged decideMerged
  dsimp only
  refine .edit ?_
  have hc := h.compact host.sha256 (orElse outcome.note "merged")
    ⟨true, orElse outcome.note "merged", .mergeWait⟩
  have hitem := setItem_workItem_self (s := s) (i := i)
    (((s.workItem i).setPayload learningPrimaryReasonKey
      (.str (orElse outcome.note "merged"))).compactForPostProcessing host.sha256
        ⟨true, orElse outcome.note "merged", .mergeWait⟩)
  have hstage' : ∀ item : WorkItem, item.stage = (s.workItem i).stage →
      (s.setItem i item).stageOf i = .mergeWait := by
    intro item hitem
    rw [Coordinator.stageOf, setItem_workItem_self, hitem]
    exact hstage
  rcases w.persist with e | ⟨⟩
  · dsimp only
    split
    · refine .edit ?_
      have hcleared := hc.edit (Preserves.clearLearning _ "post_merge" (clip1000 e.message))
      rw [hitem] at hcleared ⊢
      refine hcleared.decides_handoff_as (setItem_workItem_self _) fun heq => ?_
      rw [setItem_setItem] at heq
      cases heq.trans (hstage' _ rfl)
    · unfold Decides
      rw [wp_throw]
      exact ⟨rfl, by rw [setItem_setItem], hc⟩
  · exact hc.decides_handoff_as hitem fun heq => by cases heq.trans (hstage' _ rfl)

theorem Preserves.setResume (item : WorkItem) (stage : StageName) :
    Preserves item { item with learningResumeStage := some stage } :=
  ⟨rfl, rfl, rfl, rfl, id, fun _ _ => rfl, fun _ _ h => h⟩

theorem Holds.decides_advance (h : Holds s i) (hfin : s.stageOf i ≠ .finished) (route : Route) :
    Decides (routeAdvance host w i outcome route) s i
      (decideAdvance w (s.workItem i) outcome route) := by
  unfold routeAdvance decideAdvance
  refine .get ?_
  have hown : s.stageOf i = (s.workItem i).stage := rfl
  dsimp only
  rw [hown]
  split
  · have hp := h.edit (Preserves.setResume (s.workItem i) route.next)
    refine .edit ?_
    rcases w.persist with e | ⟨⟩
    · exact ⟨rfl, by rw [setItem_setItem], hp⟩
    · exact hp.decides_handoff_as (setItem_workItem_self _) fun _ => rfl
  · split
    · have hp := h.edit (Preserves.popPayload (s.workItem i) learningPrimaryReasonKey (by decide)
        (by decide))
      have hitem := setItem_workItem_self (s := s) (i := i)
        ((s.workItem i).popPayload learningPrimaryReasonKey)
      have hstage : (s.setItem i ((s.workItem i).popPayload
          learningPrimaryReasonKey)).stageOf i ≠ .finished := by
        rw [Coordinator.stageOf, hitem]
        exact hfin
      refine .edit ?_
      cases (s.workItem i).postProcessing with
      | some record => exact hp.decides_handoff_as hitem fun heq => absurd heq.symm hstage
      | none => exact hp.decides_finish_as hstage hitem
    · exact h.decides_handoff fun _ => rfl

theorem Holds.decides_eject (h : Holds s i) (text : String) :
    Decides (do
      editItem i fun item =>
        { item with result := some { passed := true, reason := text, finalStage := item.stage } }
      retire host i) s i
      ⟨{ s.workItem i with
          result := some { passed := true, reason := text, finalStage := s.stageOf i } },
        .leave⟩ := by
  have hp := h.edit (Preserves.setResult (s.workItem i) ⟨true, text, (s.workItem i).stage⟩)
  obtain ⟨l, hl⟩ := Option.isSome_iff_exists.mp hp.inHand.1
  obtain ⟨_, hrec, _⟩ := hp.owned.leased_fresh hl
  obtain ⟨hqueues, hleases⟩ := recordTerminalResult_frame (s.setItem i { s.workItem i with
    result := some ⟨true, text, (s.workItem i).stage⟩ }) i host.config
  refine .edit ?_
  unfold Decides retire letGo
  rw [wp_bind, wp_modify, wp_bind,
    wp_releaseSourceLease (hqueues ▸ hp.owned.owns hl) (hleases ▸ hl), wp_modify, setItem_setItem]
  refine ⟨l, hl, ?_, ?_⟩
  · rw [hqueues]
    rfl
  · rw [recordTerminalResult_eq (by simp) hrec]
    exact Finset.notMem_erase _ _

theorem Holds.decides_row (h : Holds s i) (hfin : s.stageOf i ≠ .finished) (route : Route) :
    Decides (routeRow host w i outcome route) s i
      (decideRow host w (s.workItem i) outcome route) := by
  unfold routeRow decideRow
  cases outcome.disposition with
  | advance => exact h.decides_advance hfin route
  | retry => exact h.decides_retry hfin
  | failBack => exact h.decides_failBack hfin route
  | skip => exact h.decides_finish host _ _ hfin
  | eject => exact h.decides_eject _
  | blocked => exact h.decides_finish host _ _ hfin
  | finishPass =>
      refine .get ?_
      have hown : s.stageOf i = (s.workItem i).stage := rfl
      dsimp only
      rw [hown]
      split
      · next hmerged => exact h.decides_merged hmerged.1
      · exact h.decides_finish host _ _ hfin
  | finishFail => exact h.decides_finish host _ _ hfin

variable (host w outcome) in
/-- `_route` carries out its decision. -/
theorem Holds.decides_route (h : Holds s i) (hfin : s.stageOf i ≠ .finished) :
    (Pipeline.route host w i outcome).wp
      (fun _ => Enacts ((s.logRoute i outcome).setItem i
        (decideRoute host w (s.workItem i) outcome).item) i
        (decideRoute host w (s.workItem i) outcome).fate)
      (fun e t => (decideRoute host w (s.workItem i) outcome).fate = .raise e ∧
        t = (s.logRoute i outcome).setItem i (decideRoute host w (s.workItem i) outcome).item ∧
        Holds t i) s := by
  have hlog := h.logRoute outcome
  have hfin' : (s.logRoute i outcome).stageOf i ≠ .finished := hfin
  unfold Pipeline.route decideRoute
  rw [wp_bind, wp_get, wp_bind, wp_set]
  have hstage : s.stageOf i = (s.workItem i).stage := rfl
  rw [hstage]
  split
  · exact hlog.decides_bootstrap hfin'
  · cases runRoutes host.config.scope (s.workItem i).stage with
    | none => exact hlog.decides_finish host _ _ hfin'
    | some route =>
        dsimp only
        rw [if_neg (show ¬ (s.workItem i).stage = .finished from hfin)]
        exact hlog.decides_row hfin' route

end Hephaestus.Pipeline
