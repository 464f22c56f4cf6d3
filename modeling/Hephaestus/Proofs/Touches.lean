import Hephaestus.Proofs.Ownership

/-!
# An operation on one item

`_route`, `_run_item`, `_finish` and the rest are called for one item, and
what they write is about that item: the records and the retained routes of
all others stay, no item becomes live, no signal arrives, and the item's own
repository, kind and issue number never change. That is a frame condition,
and each operation meets it because each of its writes does.
-/

namespace Hephaestus.Pipeline

open Hephaestus.Lib Command

variable {ω : Type} {host : Host ω} {s t : Coordinator} {i j : ItemId}

/-- What happened between `s` and `t` was about `i`. -/
structure Touches (i : ItemId) (s t : Coordinator) : Prop where
  others : ∀ k, k ≠ i → t.workItem k = s.workItem k
  retained : ∀ k, k ≠ i → t.pendingHandoffs.get? k = s.pendingHandoffs.get? k
  key : (t.workItem i).issueKey = (s.workItem i).issueKey
  seen : t.seenItemIds ⊆ s.seenItemIds
  shutdown : t.shutdown = s.shutdown

instance (i : ItemId) : IsPreorder Coordinator (Touches i) where
  refl := fun _ => ⟨fun _ _ => rfl, fun _ _ => rfl, rfl, subset_rfl, rfl⟩
  trans := fun _ _ _ h h' =>
    ⟨fun k hk => (h'.others k hk).trans (h.others k hk),
      fun k hk => (h'.retained k hk).trans (h.retained k hk), h'.key.trans h.key,
      h'.seen.trans h.seen, h'.shutdown.trans h.shutdown⟩

/-- The item's record was written, and whatever else happened nobody came
in. -/
theorem Touches.of_setItem {item : WorkItem} (hitems : t.workItem = (s.setItem i item).workItem)
    (h : item.issueKey = (s.workItem i).issueKey)
    (hpending : ∀ k, k ≠ i → t.pendingHandoffs.get? k = s.pendingHandoffs.get? k)
    (hseen : t.seenItemIds ⊆ s.seenItemIds) (hshutdown : t.shutdown = s.shutdown) :
    Touches i s t where
  others := fun k hk => by rw [hitems, setItem_workItem_ne _ hk]
  retained := hpending
  key := by rw [hitems, setItem_workItem_self, h]
  seen := hseen
  shutdown := hshutdown

theorem Touches.setItem {item : WorkItem} (h : item.issueKey = (s.workItem i).issueKey) :
    Touches i s (s.setItem i item) :=
  .of_setItem rfl h (fun _ _ => rfl) subset_rfl rfl

/-- No record was written. -/
theorem Touches.of_eq (hitems : t.workItem = s.workItem)
    (hpending : ∀ k, k ≠ i → t.pendingHandoffs.get? k = s.pendingHandoffs.get? k)
    (hseen : t.seenItemIds ⊆ s.seenItemIds) (hshutdown : t.shutdown = s.shutdown) :
    Touches i s t :=
  .of_setItem (hitems.trans (congrArg Coordinator.workItem setItem_workItem.symm)) rfl hpending
    hseen hshutdown

/-- Only fields that nothing here looks at were written. -/
theorem Touches.books (hitems : t.workItem = s.workItem)
    (hpending : t.pendingHandoffs = s.pendingHandoffs) (hseen : t.seenItemIds = s.seenItemIds)
    (hshutdown : t.shutdown = s.shutdown) : Touches i s t :=
  .of_eq hitems (fun _ _ => by rw [hpending]) hseen.subset hshutdown

theorem Preserves.issueKey {a b : WorkItem} (h : Preserves a b) : b.issueKey = a.issueKey := by
  unfold WorkItem.issueKey
  rw [h.kind, h.issue, h.repo]

@[simp] theorem issueKey_moveTo (item : WorkItem) (target : StageName) (enter : Bool) :
    (item.moveTo target enter).issueKey = item.issueKey := by
  unfold WorkItem.moveTo WorkItem.clearFileClaimsOnExit
  split
  · split
    · rfl
    · rfl
  · split
    · rfl
    · rfl

/-! ## Leases and handoffs -/

theorem along_editItem {f : WorkItem → WorkItem} (h : ∀ item, (f item).issueKey = item.issueKey) :
    (editItem i f).Along (Touches i) s :=
  Along.modify (.setItem (h _))

theorem along_onQueues {α : Type} (c : QueueCommand StageName α) : (onQueues c).Along (Touches i) s :=
  .get_bind ((Along.set (.books rfl rfl rfl rfl)).bind fun _ _ => .attempt _)

theorem along_lookup {κ ν : Type} [DecidableEq κ] (d : Dict κ ν) (k : κ) :
    (lookup d k).Along (Touches i) s := by
  unfold lookup
  split
  · exact .pure _
  · exact .throw _

theorem along_takeLease : (takeLease i).Along (Touches i) s := by
  refine .get_bind ((Along.set (.of_eq rfl (fun k hk => ?_) subset_rfl rfl)).bind fun _ _ =>
    .pure _)
  rw [Dict.get?_erase, if_neg hk]

theorem along_restoreSourceLease : (restoreSourceLease i).Along (Touches i) s := by
  refine along_takeLease.bind fun lease t => ?_
  cases lease with
  | none => exact .pure _
  | some lease => exact (along_onQueues _).bind fun _ _ => .pure _

theorem along_releaseSourceLease : (releaseSourceLease i).Along (Touches i) s := by
  refine along_takeLease.bind fun lease t => ?_
  cases lease with
  | none => exact .pure _
  | some lease => exact (along_onQueues _).bind fun _ _ => .pure _

theorem Touches.publishHandoff (target : StageName) (enter : Bool) (result : Option ItemResult) :
    Touches i s (s.publishHandoff i target enter result) where
  others := fun k hk => publishHandoff_workItem_ne hk
  retained := fun k hk => by rw [publishHandoff_pending, Dict.get?_erase, if_neg hk]
  key := by
    rw [publishHandoff_workItem_self]
    exact issueKey_moveTo _ target enter
  seen := by
    unfold Coordinator.publishHandoff Coordinator.activateHandoff Coordinator.transferPermit
    split
    · exact subset_rfl
    · exact subset_rfl
    · exact subset_rfl
  shutdown := by
    unfold Coordinator.publishHandoff Coordinator.activateHandoff Coordinator.transferPermit
    split
    · rfl
    · rfl
    · rfl

theorem along_handoffItem (config : PipelineConfig) (target : StageName) (enter : Bool)
    (result : Option ItemResult) : (handoffItem config i target enter result).Along (Touches i) s := by
  refine .get_bind ((along_lookup _ _).bind fun lease t => ?_)
  split
  · split
    · exact .throw _
    · exact along_restoreSourceLease
  · extract_lets pending next
    have hnext : ∀ accepted u, (next accepted).Along (Touches i) u := by
      intro accepted u
      dsimp only [next]
      split
      · exact (Along.modify (.publishHandoff _ _ _)).bind fun _ _ => .pure _
      · split
        · refine (Along.modify (.of_eq rfl (fun k hk => ?_) subset_rfl rfl)).bind fun _ _ =>
            .pure _
          rw [Dict.get?_set_ne _ _ hk.symm]
        · split
          · exact .throw _
          · exact .pure _
    split
    · exact (along_onQueues _).bind hnext
    · exact (Along.pure _).bind hnext

/-! ## Timers and exits -/

theorem along_timerPark (now delay : ℚ) : (timerPark now i delay).Along (Touches i) s :=
  along_releaseSourceLease.bind fun _ _ => .modify (.books rfl rfl rfl rfl)

theorem Touches.releaseWorkPermit : Touches i s (s.releaseWorkPermit i) := .books rfl rfl rfl rfl

theorem Touches.recordTerminalResult (config : PipelineConfig) :
    Touches i s (s.recordTerminalResult config i) := by
  unfold Coordinator.recordTerminalResult
  dsimp only
  split
  · exact refl s
  · exact Touches.of_setItem rfl rfl (fun _ _ => rfl) (Finset.erase_subset _ _) rfl

theorem along_parkResumable (config : PipelineConfig) :
    (parkResumable config i).Along (Touches i) s := by
  unfold parkResumable
  refine along_releaseSourceLease.bind fun _ t => ?_
  refine Along.bind (along_editItem fun _ => rfl) fun _ u => ?_
  exact .modify (IsTrans.trans _ _ _ (Touches.recordTerminalResult config) Touches.releaseWorkPermit)

theorem along_externalizeRepoIssueSource (config : PipelineConfig) :
    (externalizeRepoIssueSource config i).Along (Touches i) s := by
  unfold externalizeRepoIssueSource
  refine .get_bind ?_
  split
  · exact .pure _
  · refine Along.bind (along_editItem fun _ => rfl) fun _ t => ?_
    refine (Along.modify (.books rfl rfl rfl rfl)).bind fun _ u => ?_
    refine along_releaseSourceLease.bind fun _ v => ?_
    exact (Along.modify (.of_eq rfl (fun _ _ => rfl) (Finset.erase_subset _ _) rfl)).bind fun _ _ => .pure _

theorem along_letGo : (letGo i).Along (Touches i) s :=
  along_releaseSourceLease.bind fun _ _ => .modify .releaseWorkPermit

theorem along_finish (passed : Bool) (reason : String) :
    (finish host i passed reason).Along (Touches i) s := by
  have hscope : ∀ t : Coordinator, Touches i t
      (if t.stageOf i = .repo ∧ (t.workItem i).payload.flag directScopeBootstrapKey then
        { t with directScopeBootstrapPending := false }
      else t) := by
    intro t
    split
    · exact .books rfl rfl rfl rfl
    · exact refl t
  have hledger : ∀ (t : Coordinator) (result : ItemResult), Touches i t
      (if (t.workItem i).payload.flag recordedKey then t
      else
        { t.setItem i ((t.workItem i).setPayload recordedKey (.bool true)) with
          ledger := t.ledger ++ [result]
          sinkLog := t.sinkLog ++ [.ledger i result] }) := by
    intro t result
    split
    · exact refl t
    · exact Touches.of_setItem rfl rfl (fun _ _ => rfl) subset_rfl rfl
  refine (Along.modify (hscope s)).bind fun _ t => .get_bind ?_
  dsimp only
  split
  · refine Along.bind (along_editItem fun _ => rfl) fun _ u => ?_
    refine (Along.modify (hledger u _)).bind fun _ v => ?_
    exact (Along.modify (.recordTerminalResult _)).bind fun _ _ => along_letGo
  · exact (along_handoffItem _ _ _ _).bind fun _ _ => .pure _

/-! ## Routing -/

theorem along_routeRetry (w : World ω) (outcome : StageOutcome) :
    (routeRetry host w i outcome).Along (Touches i) s := by
  unfold routeRetry
  refine .get_bind (Along.bind (along_editItem fun _ => rfl) fun _ t => ?_)
  split
  · refine along_restoreSourceLease.bind fun done u => ?_
    split
    · exact .pure _
    · exact .throw _
  · split
    · exact along_finish _ _
    · exact along_timerPark _ _

theorem along_routeFailBack (outcome : StageOutcome) (route : Route) :
    (routeFailBack host i outcome route).Along (Touches i) s := by
  unfold routeFailBack
  split
  · exact along_finish _ _
  · refine .get_bind (Along.bind (along_editItem fun _ => rfl) fun _ t => ?_)
    split
    · exact along_finish _ _
    · split
      · exact along_finish _ _
      · exact (along_handoffItem _ _ _ _).bind fun _ _ => .pure _

theorem along_bootstrapDone (pending : Bool) :
    (modify fun s => { s with directScopeBootstrapPending := pending } : Op PUnit).Along
      (Touches i) s :=
  .modify (.books rfl rfl rfl rfl)

theorem along_routeDirectScopeBootstrap (w : World ω) (outcome : StageOutcome) :
    (routeDirectScopeBootstrap host w i outcome).Along (Touches i) s := by
  unfold routeDirectScopeBootstrap
  split
  · exact along_routeRetry _ _
  · split
    · exact (along_bootstrapDone false).bind fun _ _ => along_finish _ _
    · refine .get_bind ?_
      split
      · exact (along_bootstrapDone false).bind fun _ _ => along_finish _ _
      · split
        · exact (along_bootstrapDone false).bind fun _ _ => along_finish _ _
        · exact along_letGo.bind fun _ t => .modify (.of_eq rfl (fun _ _ => rfl) (Finset.erase_subset _ _) rfl)

theorem along_routeMerged (w : World ω) (outcome : StageOutcome) :
    (routeMerged host w i outcome).Along (Touches i) s := by
  unfold routeMerged
  refine Along.bind (along_editItem fun _ => rfl) fun _ t => ?_
  split
  · exact (along_handoffItem _ _ _ _).bind fun _ _ => .pure _
  · split
    · refine Along.bind (along_editItem fun _ => rfl) fun _ u => ?_
      exact (along_handoffItem _ _ _ _).bind fun _ _ => .pure _
    · exact .throw _

theorem along_routeAdvance (w : World ω) (outcome : StageOutcome) (route : Route) :
    (routeAdvance host w i outcome route).Along (Touches i) s := by
  unfold routeAdvance
  refine .get_bind ?_
  dsimp only
  split
  · refine Along.bind (along_editItem fun _ => rfl) fun _ t => ?_
    refine (Along.attempt _).bind fun _ u => ?_
    exact (along_handoffItem _ _ _ _).bind fun _ _ => .pure _
  · split
    · refine Along.bind (along_editItem fun _ => rfl) fun _ t => ?_
      split
      · exact (along_handoffItem _ _ _ _).bind fun _ _ => .pure _
      · exact along_finish _ _
    · exact (along_handoffItem _ _ _ _).bind fun _ _ => .pure _

theorem along_retire : (retire host i).Along (Touches i) s :=
  (Along.modify (.recordTerminalResult _)).bind fun _ _ => along_letGo

theorem along_routeRow (w : World ω) (outcome : StageOutcome) (route : Route) :
    (routeRow host w i outcome route).Along (Touches i) s := by
  unfold routeRow
  split
  · exact along_routeAdvance _ _ _
  · exact along_routeRetry _ _
  · exact along_routeFailBack _ _
  · exact along_finish _ _
  · exact Along.bind (along_editItem fun _ => rfl) fun _ _ => along_retire
  · exact along_finish _ _
  · refine .get_bind ?_
    split
    · exact along_routeMerged _ _
    · exact along_finish _ _
  · exact along_finish _ _

theorem along_route (w : World ω) (outcome : StageOutcome) :
    (route host w i outcome).Along (Touches i) s := by
  unfold route
  refine .get_bind ((Along.set (.books rfl rfl rfl rfl)).bind fun _ t => ?_)
  split
  · exact along_routeDirectScopeBootstrap _ _
  · split
    · exact along_finish _ _
    · split
      · exact along_retire
      · exact along_routeRow _ _ _

/-! ## Jobs and stage calls -/

theorem along_submitReadyJob (w : World ω) (request : JobRequest) :
    (submitReadyJob host w i request).Along (Touches i) s := by
  unfold submitReadyJob
  split
  · exact .throw _
  · refine (Along.attempt _).bind fun _ t => .modify ?_
    dsimp only
    split
    · exact .books rfl rfl rfl rfl
    · exact .books rfl rfl rfl rfl

theorem along_submit (w : World ω) (request : JobRequest) :
    (submit host w i request).Along (Touches i) s := by
  unfold submit
  split
  · exact Along.bind (along_editItem fun _ => rfl) fun _ _ => along_submitReadyJob _ _
  · exact along_submitReadyJob _ _

theorem along_completeRateBudget (w : World ω) (result : JobResult) :
    (completeRateBudget host w i result).Along (Touches i) s := by
  unfold completeRateBudget
  refine .get_bind (Along.bind (along_editItem fun _ => rfl) fun _ t => ?_)
  split
  · exact along_parkResumable _
  · split
    · split
      · exact along_finish _ _
      · split
        · exact along_submitReadyJob _ _
        · split
          · split
            · exact .throw _
            · exact along_timerPark _ _
          · exact along_submitReadyJob _ _
    · exact along_finish _ _

theorem along_callMethod {α : Type} (m : StageMethod ω α) (w : ω) :
    (callMethod m w i).Along (Touches i) s :=
  .get_bind ((Along.set (.setItem (m.keeps w _).toPreserves.issueKey)).bind fun _ _ => .attempt _)

theorem along_onEnter (stage : StageName) (w : ω) : (host.onEnter stage w i).Along (Touches i) s := by
  unfold Host.onEnter
  split
  · exact .pure _
  · exact along_callMethod _ _

theorem issueKey_recordLedger {item : WorkItem} {effects : List SinkEffect}
    {result : ItemResult} : (recordLedger i item effects result).item.issueKey = item.issueKey := by
  unfold recordLedger
  split
  · rfl
  · rfl

theorem issueKey_finishedStep (sink : Sink ω) (w : ω) (item : WorkItem) :
    (finishedStep sink w i item).item.issueKey = item.issueKey := by
  unfold finishedStep
  split
  · rfl
  · split
    · obtain ⟨r, worktree, heq⟩ := recordResult_eq sink w item
      unfold recordStep
      simp only [heq]
      split
      · split
        · rfl
        · exact issueKey_recordLedger
      · exact issueKey_recordLedger
    · split
      · exact (sink.cleanup.keeps w item).toPreserves.issueKey
      · split
        · exact (sink.recordCleanupTerminal.keeps w item).toPreserves.issueKey
        · rfl

theorem along_step (stage : StageName) (w : ω) : (host.step stage w i).Along (Touches i) s := by
  unfold Host.step
  split
  · refine .get_bind ((Along.set ?_).bind fun _ _ => .attempt _)
    exact .of_setItem rfl (issueKey_finishedStep _ _ _)
      (fun _ _ => rfl) subset_rfl rfl
  · exact along_callMethod _ _

/-! ## Driving and draining -/

theorem along_stepLoop (stage : StageName) (w : World ω) (fuel k : Nat) :
    (stepLoop host stage w i fuel k).Along (Touches i) s := by
  induction fuel generalizing s k with
  | zero => exact .throw _
  | succ fuel ih =>
      unfold stepLoop
      refine (along_step _ _).bind fun answer t => ?_
      cases answer with
      | goOn next =>
          refine Along.bind (along_editItem fun _ => rfl) fun _ u => .get_bind ?_
          split
          · unfold leaveRepoStage
            refine (along_externalizeRepoIssueSource _).bind fun done v => ?_
            split
            · exact .pure _
            · exact along_timerPark _ _
          · exact ih _
      | job request =>
          dsimp only
          split
          · exact along_route _ _
          · exact along_submit _ _
      | outcome o => exact along_route _ _

theorem along_runItem (w : World ω) : (runItem host w i).Along (Touches i) s := by
  refine .get_bind (Along.tryCatch ?_ fun _ _ => along_finish _ _)
  unfold runItemBody
  refine .get_bind (Along.bind (along_editItem fun _ => rfl) fun _ t => ?_)
  split
  · refine (along_onEnter _ _).bind fun answer u => ?_
    cases answer with
    | none => exact along_stepLoop _ _ _ _
    | some o => exact along_route _ _
  · exact along_stepLoop _ _ _ _

theorem along_jobDone (w : World ω) (result : JobResult) :
    (jobDone host w i result).Along (Touches i) s := by
  refine .get_bind (Along.tryCatch ((along_callMethod _ _).bind fun _ _ => .pure _) fun _ t => ?_)
  split
  · refine Along.bind (along_editItem fun _ => rfl) fun _ u => ?_
    exact (along_parkResumable _).bind fun _ _ => .pure _
  · exact (along_finish _ _).bind fun _ _ => .pure _

theorem along_completeJob (w : World ω) (handle : JobHandle) (result : JobResult) :
    (completeJob host w i handle result).Along (Touches i) s := by
  unfold completeJob
  refine .get_bind ?_
  split
  · dsimp only
    split
    · exact (along_callMethod _ _).bind fun _ _ => along_parkResumable _
    · exact along_parkResumable _
  · split
    · exact along_finish _ _
    · refine (along_jobDone _ _).bind fun done t => ?_
      split
      · refine Along.bind (along_editItem fun _ => rfl) fun _ u => ?_
        split
        · exact along_parkResumable _
        · exact along_runItem _
      · exact .pure _

theorem along_deferImplementationPlanRead (w : World ω) (message : String) :
    (deferImplementationPlanRead host w i message).Along (Touches i) s := by
  unfold deferImplementationPlanRead
  refine .get_bind ?_
  split
  · exact along_parkResumable _
  · refine Along.bind (along_editItem fun _ => rfl) fun _ u => ?_
    split
    · exact along_finish _ _
    · exact Along.bind (along_editItem fun _ => rfl) fun _ _ => along_routeRetry _ _

end Hephaestus.Pipeline
