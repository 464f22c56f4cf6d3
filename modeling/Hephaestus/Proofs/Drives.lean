import Hephaestus.Proofs.Decisions
import Hephaestus.Proofs.Touches

/-!
# What `_run_item` does with the queue of the item

`_run_item` is `drive` and then one of a few things: the outcome is routed, a
job goes out, a source is enrolled, or the exception fails the item. The
ready slots of the queue the item was claimed from change in one way only,
and only where `comesBack` says so: the item's own slot is taken again.
-/

namespace Hephaestus.Pipeline

open Hephaestus.Lib Hephaestus.Lib.Command StageQueueLease

variable {ω : Type} {host : Host ω} {s t : Coordinator} {i : ItemId} {w : World ω}

/-! ## `_run_item` as a function of the record -/

/-- What follows a stage's turn. -/
def afterDrive (host : Host ω) (w : World ω) (i : ItemId) : Ending → Op Unit
  | .outcome o => route host w i o
  | .job request => submit host w i request
  | .sourceReady => leaveRepoStage host w i
  | .raised e => throw e

theorem exec_callMethod {α : Type} (m : StageMethod ω α) (x : ω) :
    (callMethod m x i).exec s =
      ((m.call x (s.workItem i)).reply, s.setItem i (m.call x (s.workItem i)).item) := rfl

theorem exec_editItem (f : WorkItem → WorkItem) :
    (editItem i f).exec s = (.ok (), s.setItem i (f (s.workItem i))) := rfl

theorem exec_stepLoop {stage : StageName} (hstage : stage ≠ .finished) (fuel k : Nat) :
    (stepLoop host stage w i fuel k).exec s =
      (afterDrive host w i (driveLoop host stage w fuel k (s.workItem i)).ending).exec
        (s.setItem i (driveLoop host stage w fuel k (s.workItem i)).item) := by
  induction fuel generalizing s k with
  | zero =>
      unfold driveLoop
      rw [setItem_workItem]
      rfl
  | succ fuel ih =>
      unfold stepLoop driveLoop Host.step
      rw [if_neg hstage, exec_bind, exec_callMethod]
      dsimp only
      rcases (host.stages stage).step.call (w.answers k) (s.workItem i) with ⟨record, reply⟩
      dsimp only
      rcases reply with e | answer
      · rfl
      · cases answer with
        | goOn next =>
            dsimp only
            rw [exec_bind, exec_editItem]
            dsimp only
            rw [exec_bind, exec_get]
            simp only [setItem_workItem_self, setItem_setItem]
            split
            · rfl
            · rw [ih, setItem_workItem_self, setItem_setItem]
        | job request =>
            dsimp only
            unfold Ending.ofJob
            split <;> rfl
        | outcome o => rfl

theorem exec_runItem (hstage : s.stageOf i ≠ .finished) :
    (runItem host w i).exec s =
      (tryCatch (afterDrive host w i (drive host w (s.workItem i)).ending)
        fun e => finish host i false ("poisoned: " ++ e.message)).exec
        (s.setItem i (drive host w (s.workItem i)).item) := by
  have hbody : (runItemBody host (s.stageOf i) w i).exec s =
      (afterDrive host w i (drive host w (s.workItem i)).ending).exec
        (s.setItem i (drive host w (s.workItem i)).item) := by
    unfold runItemBody drive Host.onEnter
    rw [exec_bind, exec_get]
    dsimp only
    rw [exec_bind, exec_editItem]
    dsimp only
    split
    · rw [exec_bind, exec_callMethod, setItem_workItem_self, setItem_setItem]
      rw [show s.stageOf i = (s.workItem i).stage from rfl] at hstage ⊢
      rcases (host.stages (s.workItem i).stage).onEnter.call (w.answers 0)
        ((s.workItem i).popPayload enterPendingKey) with ⟨record, reply⟩
      dsimp only
      rcases reply with e | ⟨⟩ | o
      · rfl
      · dsimp only
        rw [exec_stepLoop hstage, setItem_workItem_self, setItem_setItem]
      · rfl
    · rw [exec_stepLoop hstage, setItem_workItem_self, setItem_setItem]
      rfl
  unfold runItem
  rw [exec_bind, exec_get]
  dsimp only
  rw [exec_tryCatch, exec_tryCatch, hbody]

/-! ### The record a stage leaves -/

theorem preserves_driveLoop {stage : StageName} (fuel k : Nat) (item : WorkItem) :
    Preserves item (driveLoop host stage w fuel k item).item := by
  induction fuel generalizing item k with
  | zero => exact .refl item
  | succ fuel ih =>
      have hcall := ((host.stages stage).step.keeps (w.answers k) item).toPreserves
      unfold driveLoop
      generalize (host.stages stage).step.call (w.answers k) item = c at hcall ⊢
      obtain ⟨record, reply⟩ := c
      dsimp only at hcall ⊢
      rcases reply with e | answer
      · exact hcall
      · cases answer with
        | goOn next =>
            have hstate := hcall.trans (Preserves.setState record next)
            dsimp only
            split
            · exact hstate
            · exact hstate.trans (ih _ _)
        | job request => exact hcall
        | outcome o => exact hcall

variable (host w) in
theorem preserves_drive (item : WorkItem) : Preserves item (drive host w item).item := by
  have hpop := Preserves.popPayload item enterPendingKey (by decide) (by decide)
  unfold drive
  dsimp only
  split
  · have hcall := ((host.stages item.stage).onEnter.keeps (w.answers 0)
      (item.popPayload enterPendingKey)).toPreserves
    generalize (host.stages item.stage).onEnter.call (w.answers 0)
      (item.popPayload enterPendingKey) = c at hcall ⊢
    obtain ⟨record, reply⟩ := c
    dsimp only at hcall ⊢
    rcases reply with e | ⟨⟩ | o
    · exact hpop.trans hcall
    · exact (hpop.trans hcall).trans (preserves_driveLoop _ _ _)
    · exact hpop.trans hcall
  · exact hpop.trans (preserves_driveLoop _ _ _)

/-! ## The ready slots of the item's own queue -/

variable {l : StageQueueLease StageName}

/-- The ready slots of a queue after the lease was given up for good, or the
slot taken again. -/
def slotsAfter (q : StageQueue) (l : StageQueueLease StageName) (back : Bool) :
    List (Nat × ItemId) :=
  if back then ((q.dropLease l.item).insertAtTicket l.ticket l.item).items else q.items

theorem released_items (queues : StageName → StageQueue) (l : StageQueueLease StageName)
    (st : StageName) : (released queues l st).items = (queues st).items := by
  unfold released
  by_cases hst : st = l.source
  · subst hst
    rw [Function.update_self]
    rfl
  · rw [Function.update_of_ne hst]

theorem reinserted_items (queues : StageName → StageQueue) (l : StageQueueLease StageName) :
    (reinserted queues l l.item l.source).items = slotsAfter (queues l.source) l true := by
  unfold reinserted
  rw [Function.update_self]
  rfl

theorem Handed.ready {target : StageName} {enter : Bool} {result : Option ItemResult}
    (h : Handed s i target enter result t) (hl : s.leases.get? i = some l)
    (hsource : l.source = s.stageOf i) :
    (t.queues (s.stageOf i)).items =
      slotsAfter (s.queues (s.stageOf i)) l (decide (target = s.stageOf i)) := by
  cases h with
  | back hl' htarget _ =>
      obtain rfl := Option.some.inj (hl.symm.trans hl')
      rw [decide_eq_true htarget, ← hsource]
      exact reinserted_items _ _
  | moved hl' htarget =>
      obtain rfl := Option.some.inj (hl.symm.trans hl')
      rw [decide_eq_false htarget, publishHandoff_queues]
      show (handedOff s.queues l target (s.stageOf i)).items = _
      unfold handedOff
      rw [released_items, Function.update_of_ne htarget.symm]
      rfl
  | waits htarget =>
      rw [decide_eq_false htarget]
      rfl

theorem Enacts.ready {d : Decision} (h : Enacts s i d.fate t) (hl : s.leases.get? i = some l)
    (hsource : l.source = s.stageOf i) (hrecord : d.item.stage = s.stageOf i) :
    (t.queues (s.stageOf i)).items = slotsAfter (s.queues (s.stageOf i)) l d.comesBack := by
  unfold Decision.comesBack
  rcases hfate : d.fate with ⟨target, result⟩ | _ | seconds | _ | e
  · rw [hfate] at h
    obtain ⟨pending, hhanded⟩ := h
    have hready := hhanded.ready hl hsource
    rw [hrecord]
    exact hready
  · rw [hfate] at h
    obtain ⟨l', hl', rfl⟩ := h
    obtain rfl := Option.some.inj (hl.symm.trans hl')
    rw [← hsource]
    exact reinserted_items _ _
  · rw [hfate] at h
    obtain ⟨l', wake, hl', rfl⟩ := h
    exact released_items _ _ _
  · rw [hfate] at h
    obtain ⟨l', hl', hqueues, _⟩ := h
    rw [hqueues]
    exact released_items _ _ _
  · rw [hfate] at h
    exact h.elim

/-- A poisoned item goes to the sink, and not back. -/
theorem Holds.finish_ready {passed : Bool} {reason : String} (h : Holds s i)
    (hfin : s.stageOf i ≠ .finished) :
    (Pipeline.finish host i passed reason).wp
      (fun _ t => (t.queues (s.stageOf i)).items = (s.queues (s.stageOf i)).items)
      (fun _ _ => False) s := by
  obtain ⟨l, hl⟩ := Option.isSome_iff_exists.mp h.inHand.1
  refine wp_mono (h.decides_finish host _ _ hfin) (fun _ t ht => ?_)
    fun _ _ hf => by cases hf.1
  unfold decideFinish at ht
  rw [setItem_workItem] at ht
  obtain ⟨pending, hhanded⟩ := ht
  have hready : (t.queues (s.stageOf i)).items = slotsAfter (s.queues (s.stageOf i)) l
      (decide (.finished = s.stageOf i)) := hhanded.ready hl (h.owned.lease_source hl)
  rw [decide_eq_false (show ¬ StageName.finished = s.stageOf i from fun heq => hfin heq.symm)]
    at hready
  exact hready

/-- A job goes out, or the item is still in hand. -/
theorem Holds.submit_ready {request : JobRequest} (h : Holds s i) :
    (Pipeline.submit host w i request).wp (fun _ t => t.queues = s.queues)
      (fun _ t => Holds t i ∧ t.stageOf i = s.stageOf i ∧ t.queues = s.queues) s := by
  have hsend : ∀ {u} r, Holds u i → (submitReadyJob host w i r).wp
      (fun _ t => t.queues = u.queues)
      (fun _ t => Holds t i ∧ t.stageOf i = u.stageOf i ∧ t.queues = u.queues) u := by
    intro u r hu
    unfold submitReadyJob
    split
    · exact ⟨hu, rfl, rfl⟩
    · rw [wp_bind]
      refine wp_attempt (fun _ _ => ?_) fun _ _ => ⟨hu, rfl, rfl⟩
      rw [wp_modify]
      split <;> rfl
  unfold Pipeline.submit
  split
  · have hp := h.edit (Preserves.setPayload (s.workItem i) pendingAgentRequestKey
      (.request request) (by decide) (by decide))
    rw [wp_bind, wp_editItem]
    refine wp_mono (hsend _ hp) (fun _ _ ht => ht) fun _ t ht => ⟨ht.1, ?_, ht.2.2⟩
    rw [ht.2.1, Coordinator.stageOf, setItem_workItem_self]
    rfl
  · exact hsend _ h

theorem Holds.leaveRepoStage_ready (h : Holds s i) (st : StageName) :
    (Pipeline.leaveRepoStage host w i).wp (fun _ t => (t.queues st).items = (s.queues st).items)
      (fun _ _ => False) s := by
  obtain ⟨l, hl⟩ := Option.isSome_iff_exists.mp h.inHand.1
  have hq := h.owned.owns hl
  unfold Pipeline.leaveRepoStage externalizeRepoIssueSource
  rw [wp_bind, wp_bind, wp_get]
  split
  · unfold timerPark
    rw [wp_pure, if_neg (by simp), wp_bind, wp_releaseSourceLease hq hl, wp_modify]
    exact released_items _ _ _
  · rw [wp_bind, wp_editItem, wp_bind, wp_modify, wp_bind]
    refine (wp_releaseSourceLease (l := l) ?_ ?_).mpr ?_
    · exact hq
    · exact hl
    rw [wp_bind, wp_modify, wp_pure, if_pos rfl]
    exact released_items _ _ _

variable (host w) in
/-- What `_run_item` does to the ready slots, outside the sink. -/
theorem Holds.runItem_ready (h : Holds s i) (hl : s.leases.get? i = some l)
    (hfin : s.stageOf i ≠ .finished) :
    (Pipeline.runItem host w i).wp
      (fun _ t => (t.queues (s.stageOf i)).items =
        slotsAfter (s.queues (s.stageOf i)) l (comesBack host w (s.workItem i)))
      (fun _ _ => False) s := by
  have hp := preserves_drive host w (s.workItem i)
  have hh := h.edit hp
  have hstage : (s.setItem i (drive host w (s.workItem i)).item).stageOf i = s.stageOf i := by
    rw [Coordinator.stageOf, setItem_workItem_self]
    exact hp.stage
  have hsource := h.owned.lease_source hl
  have hpoison : ∀ {u : Coordinator} e, Holds u i → u.stageOf i = s.stageOf i →
      (u.queues (s.stageOf i)).items = (s.queues (s.stageOf i)).items →
      (Pipeline.finish host i false ("poisoned: " ++ PyError.message e)).wp
        (fun _ t => (t.queues (s.stageOf i)).items = slotsAfter (s.queues (s.stageOf i)) l false)
        (fun _ _ => False) u := by
    intro u e hu hsame hitems
    refine wp_mono (hu.finish_ready (by rw [hsame]; exact hfin)) (fun _ t ht => ?_) fun _ _ hf => hf
    rw [hsame, hitems] at ht
    exact ht
  unfold wp
  rw [exec_runItem hfin]
  show wp (tryCatch _ _) _ _ _
  rw [wp_tryCatch]
  unfold comesBack
  rcases hending : (drive host w (s.workItem i)).ending with o | request | _ | e
  · dsimp only
    rw [decide_eq_true (show (s.workItem i).stage ≠ .finished from hfin), Bool.true_and]
    have hroute := hh.decides_route host w o
      (by rw [hstage]; exact hfin)
    rw [setItem_workItem_self] at hroute
    generalize hd : decideRoute host w (drive host w (s.workItem i)).item o = d at hroute ⊢
    have hrecord : d.item.stage = s.stageOf i := by
      rw [← hd, decideRoute_stage]
      exact hp.stage
    have hlast : (((s.setItem i (drive host w (s.workItem i)).item).logRoute i o).setItem i
        d.item).stageOf i = s.stageOf i := by
      rw [Coordinator.stageOf, setItem_workItem_self]
      exact hrecord
    refine wp_mono hroute (fun _ t ht => ?_) fun e t ht => ?_
    · have hready := ht.ready hl (hsource.trans hlast.symm) (hrecord.trans hlast.symm)
      rw [hlast] at hready
      exact hready
    · obtain ⟨hraise, rfl, hholds⟩ := ht
      have hgone : d.comesBack = false := by
        unfold Decision.comesBack
        rw [hraise]
      rw [hgone]
      exact hpoison e hholds hlast rfl
  · refine wp_mono hh.submit_ready (fun _ t ht => ?_) fun e t ht => ?_
    · rw [ht]
      rfl
    · exact hpoison e ht.1 (ht.2.1.trans hstage) (by rw [ht.2.2]; rfl)
  · exact wp_mono (hh.leaveRepoStage_ready _) (fun _ t ht => ht) fun _ _ hf => hf.elim
  · exact hpoison e hh hstage rfl

/-! ## The ready slots of the sink

An item in the sink is recorded and cleaned up, with a job or without, and
let go; nothing puts it back. -/

/-- In the sink, the item stays there and no ready slot changes. -/
def KeepsSink (i : ItemId) (s t : Coordinator) : Prop :=
  s.stageOf i = .finished →
    t.stageOf i = .finished ∧ (t.queues .finished).items = (s.queues .finished).items

instance (i : ItemId) : IsPreorder Coordinator (KeepsSink i) where
  refl := fun _ h => ⟨h, rfl⟩
  trans := fun _ _ _ h h' hs => ⟨(h' (h hs).1).1, ((h' (h hs).1).2).trans (h hs).2⟩

theorem KeepsSink.of_eq (hitem : t.stageOf i = s.stageOf i) (hqueues : t.queues = s.queues) :
    KeepsSink i s t :=
  fun h => ⟨hitem.trans h, by rw [hqueues]⟩

/-- A write to the record that leaves the stage alone. -/
theorem KeepsSink.written {item : WorkItem} (hitems : t.workItem = (s.setItem i item).workItem)
    (hstage : item.stage = s.stageOf i) (hqueues : t.queues = s.queues) : KeepsSink i s t := by
  refine .of_eq ?_ hqueues
  rw [Coordinator.stageOf, hitems, setItem_workItem_self]
  exact hstage

/-- Where the item is not in the sink there is nothing to show. -/
theorem keepsSink_elsewhere {α : Type} {x : Op α} (h : s.stageOf i ≠ .finished) :
    x.Along (KeepsSink i) s :=
  fun hs => absurd hs h

theorem keepsSink_editItem {f : WorkItem → WorkItem} (h : ∀ item, (f item).stage = item.stage) :
    (editItem i f).Along (KeepsSink i) s :=
  KeepsSink.written rfl (h _) rfl

theorem keepsSink_releaseSourceLease : (releaseSourceLease i).Along (KeepsSink i) s := by
  unfold releaseSourceLease takeLease
  refine Along.bind (.get_bind ((Along.set (.of_eq rfl rfl)).bind fun _ _ => .pure _))
    fun lease t => ?_
  cases lease with
  | none => exact .pure _
  | some lease =>
      refine Along.bind (.get_bind (Along.bind (.set ?_) fun _ _ => .attempt _))
        fun _ _ => .pure _
      intro hs
      refine ⟨hs, ?_⟩
      show (((lease.release).exec t.queues).2 .finished).items = (t.queues .finished).items
      exact released_items t.queues lease .finished

theorem keepsSink_letGo : (letGo i).Along (KeepsSink i) s :=
  keepsSink_releaseSourceLease.bind fun _ _ => .modify (.of_eq rfl rfl)

theorem KeepsSink.recordTerminalResult (config : PipelineConfig) :
    KeepsSink i s (s.recordTerminalResult config i) := by
  unfold Coordinator.recordTerminalResult
  dsimp only
  split
  · exact refl s
  · exact .written rfl rfl rfl

theorem keepsSink_finish (passed : Bool) (reason : String) :
    (finish host i passed reason).Along (KeepsSink i) s := by
  unfold finish
  refine Along.bind (.modify ?_) fun _ t => .get_bind ?_
  · split
    · exact .of_eq rfl rfl
    · exact refl s
  · dsimp only
    split
    · refine Along.bind (keepsSink_editItem fun _ => rfl) fun _ u => ?_
      refine Along.bind (.modify ?_) fun _ v => ?_
      · split
        · exact refl u
        · exact .written rfl rfl rfl
      · exact (Along.modify (.recordTerminalResult _)).bind fun _ _ => keepsSink_letGo
    · next hout => exact keepsSink_elsewhere hout

theorem keepsSink_route (outcome : StageOutcome) :
    (route host w i outcome).Along (KeepsSink i) s := by
  by_cases hs : s.stageOf i = .finished
  · unfold route
    refine .get_bind ((Along.set (.of_eq rfl rfl)).bind fun _ t => ?_)
    rw [if_neg (by simp [hs])]
    rcases runRoutes host.config.scope (s.stageOf i) with _ | r
    · exact keepsSink_finish _ _
    · dsimp only
      rw [if_pos hs]
      exact (Along.modify (.recordTerminalResult _)).bind fun _ _ => keepsSink_letGo
  · exact keepsSink_elsewhere hs

theorem keepsSink_submit (request : JobRequest) :
    (submit host w i request).Along (KeepsSink i) s := by
  have hsend : ∀ r t, (submitReadyJob host w i r).Along (KeepsSink i) t := by
    intro r t
    unfold submitReadyJob
    split
    · exact .throw _
    · refine (Along.attempt _).bind fun _ u => .modify ?_
      split
      · exact .of_eq rfl rfl
      · exact .of_eq rfl rfl
  unfold submit
  split
  · exact Along.bind (keepsSink_editItem fun _ => rfl) fun _ t => hsend _ t
  · exact hsend _ _

theorem keepsSink_leaveRepoStage : (leaveRepoStage host w i).Along (KeepsSink i) s := by
  unfold leaveRepoStage
  refine Along.bind ?_ fun enrolled t => ?_
  · unfold externalizeRepoIssueSource
    refine .get_bind ?_
    split
    · exact .pure _
    · refine Along.bind (keepsSink_editItem fun _ => rfl) fun _ t => ?_
      refine (Along.modify (.of_eq rfl rfl)).bind fun _ u => ?_
      refine keepsSink_releaseSourceLease.bind fun _ v => ?_
      exact (Along.modify (.of_eq rfl rfl)).bind fun _ _ => .pure _
  · split
    · exact .pure _
    · exact keepsSink_releaseSourceLease.bind fun _ _ => .modify (.of_eq rfl rfl)

theorem keepsSink_stepLoop (fuel k : Nat) :
    (stepLoop host .finished w i fuel k).Along (KeepsSink i) s := by
  induction fuel generalizing s k with
  | zero => exact .throw _
  | succ fuel ih =>
      unfold stepLoop Host.step
      rw [if_pos rfl]
      refine Along.bind (.get_bind (Along.bind (.set ?_) fun _ _ => .attempt _)) fun answer t => ?_
      · refine .written rfl ?_ rfl
        exact (finishedStep_keeps (i := i) host.sink (w.answers k) (s.workItem i)).stage
      · cases answer with
        | goOn next =>
            refine Along.bind (keepsSink_editItem fun _ => rfl) fun _ u => .get_bind ?_
            split
            · exact keepsSink_leaveRepoStage
            · exact ih _
        | job request =>
            dsimp only
            split
            · exact keepsSink_route _
            · exact keepsSink_submit _
        | outcome o => exact keepsSink_route o

/-- What `_run_item` does to the ready slots of the sink. -/
theorem runItem_sink_ready (hs : s.stageOf i = .finished) :
    ((((runItem host w i).exec s).2).queues .finished).items = (s.queues .finished).items := by
  have hkeeps : (runItem host w i).Along (KeepsSink i) s := by
    refine .get_bind (Along.tryCatch ?_ fun _ _ => keepsSink_finish _ _)
    unfold runItemBody Host.onEnter
    rw [hs]
    refine .get_bind (Along.bind (keepsSink_editItem fun _ => rfl) fun _ t => ?_)
    split
    · rw [if_pos rfl]
      refine (Along.pure _).bind fun answer u => ?_
      cases answer with
      | none => exact keepsSink_stepLoop _ _
      | some o => exact keepsSink_route o
    · exact keepsSink_stepLoop _ _
  exact (hkeeps hs).2

end Hephaestus.Pipeline
