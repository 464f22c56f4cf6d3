import Hephaestus.Proofs.Touches

/-!
# What gets in

Items come in through `_push_item` and through nothing else: whatever else
the coordinator does, no item becomes live, and no item's repository, kind
or issue number changes. For an operation on one item that is part of what
`Touches` says; the rest of this file is about the operations that choose
their items.
-/

namespace Hephaestus.Pipeline

open Hephaestus.Lib Command

variable {ω : Type} {host : Host ω} {s t : Coordinator} {i : ItemId}

/-- Nobody came in between `s` and `t`, every item is for the issue it was
for, and no signal arrived. -/
structure Tracks (s t : Coordinator) : Prop where
  seen : t.seenItemIds ⊆ s.seenItemIds
  key : ∀ i, (t.workItem i).issueKey = (s.workItem i).issueKey
  shutdown : t.shutdown = s.shutdown

instance : IsPreorder Coordinator Tracks where
  refl := fun _ => ⟨subset_rfl, fun _ => rfl, rfl⟩
  trans := fun _ _ _ h h' => ⟨h'.seen.trans h.seen, fun i => (h'.key i).trans (h.key i),
    h'.shutdown.trans h.shutdown⟩

theorem Tracks.of_eq (hseen : t.seenItemIds = s.seenItemIds) (hitems : t.workItem = s.workItem)
    (hshutdown : t.shutdown = s.shutdown) : Tracks s t :=
  ⟨hseen.subset, fun _ => by rw [hitems], hshutdown⟩

theorem Touches.tracks (h : Touches i s t) : Tracks s t where
  seen := h.seen
  key := fun k => by
    by_cases hk : k = i
    · rw [hk, h.key]
    · rw [h.others k hk]
  shutdown := h.shutdown

theorem along_of_touches {α : Type} {x : Op α} (h : x.Along (Touches i) s) : x.Along Tracks s :=
  h.mono fun _ => Touches.tracks

theorem tracks_onQueues {α : Type} (c : QueueCommand StageName α) :
    (onQueues c).Along Tracks s :=
  along_of_touches (i := 0) (along_onQueues c)

theorem tracks_lookup {κ ν : Type} [DecidableEq κ] (d : Dict κ ν) (k : κ) :
    (lookup d k).Along Tracks s :=
  along_of_touches (i := 0) (along_lookup d k)

theorem tracks_publish (target : StageName) (enter : Bool) (result : Option ItemResult) :
    (modify fun s => s.publishHandoff i target enter result : Op PUnit).Along Tracks s :=
  .modify (Touches.publishHandoff target enter result).tracks

/-! ## Claims and retained routes -/

theorem tracks_claimItem (stage : StageName) (index : Nat) :
    (claimItem stage index).Along Tracks s := by
  refine .get_bind ?_
  split
  · exact .pure _
  · refine (Along.set (.of_eq rfl rfl rfl)).bind fun _ t => ?_
    split
    · exact (tracks_onQueues _).bind fun _ _ => .throw _
    · exact (Along.modify (.of_eq rfl rfl rfl)).bind fun _ _ => .pure _

theorem tracks_handoffBoth {l m : StageQueueLease StageName} {d d' : StageName} :
    (handoffBoth l d m d').Along Tracks s := by
  refine (tracks_onQueues _).bind fun first t => ?_
  split
  · exact tracks_onQueues _
  · exact .pure _

theorem tracks_movePair {first second : PendingHandoff} :
    (movePair first second).Along Tracks s := by
  refine .get_bind ((tracks_lookup _ _).bind fun l t => (tracks_lookup _ _).bind fun m u => ?_)
  dsimp only
  split
  · exact (tracks_onQueues _).map _
  · split
    · exact tracks_handoffBoth.map _
    · split
      · exact tracks_handoffBoth.map _
      · exact .pure _

theorem tracks_completePair {first second : PendingHandoff} :
    (completePendingHandoffPair first second).Along Tracks s := by
  refine tracks_movePair.bind fun moved t => ?_
  rcases moved with _ | _ | _
  · exact .pure _
  · exact .throw _
  · exact (tracks_publish _ _ _).bind fun _ _ =>
      (tracks_publish _ _ _).bind fun _ _ => .pure _

theorem tracks_pairWith {first : PendingHandoff} {a b : Bool}
    (entries : List (ItemId × PendingHandoff)) : (pairWith first a b entries).Along Tracks s := by
  induction entries generalizing s with
  | nil => exact .pure _
  | cons entry entries ih =>
      obtain ⟨secondId, second⟩ := entry
      refine .get_bind ?_
      split
      · exact ih
      · split
        · refine tracks_completePair.bind fun done t => ?_
          split
          · exact .pure _
          · exact ih
        · exact ih

theorem tracks_drainPairs (entries : List (ItemId × PendingHandoff)) :
    (drainPairs entries).Along Tracks s := by
  induction entries generalizing s with
  | nil => exact .pure _
  | cons entry entries ih =>
      obtain ⟨firstId, first⟩ := entry
      unfold drainPairs
      refine .get_bind ?_
      dsimp only
      split
      · exact (tracks_pairWith _).bind fun _ _ => ih
      · exact Along.bind (.pure ()) fun _ _ => ih

theorem tracks_retryHandoff (config : PipelineConfig) (entry : ItemId × PendingHandoff) :
    (retryHandoff config entry).Along Tracks s := by
  refine .get_bind ((tracks_lookup _ _).bind fun lease t => ?_)
  dsimp only
  split
  · refine (tracks_onQueues _).bind fun accepted u => ?_
    split
    · exact tracks_publish _ _ _
    · exact .pure _
  · exact .pure _

theorem tracks_drainPendingHandoffs (config : PipelineConfig) :
    (drainPendingHandoffs config).Along Tracks s := by
  have hpairs : ∀ t, drainComplementaryHandoffPairs.Along Tracks t :=
    fun t => .get_bind (tracks_drainPairs _)
  exact (hpairs s).bind fun _ t => .get_bind (.forM fun entry _ => tracks_retryHandoff config entry)

theorem tracks_handleCompletion (w : World ω) (handle : JobHandle) (result : JobResult)
    (auxiliary : Bool) : (handleCompletion host w handle result auxiliary).Along Tracks s := by
  unfold handleCompletion
  refine .get_bind ?_
  split
  · exact .pure _
  · refine Along.bind (.set ?_) fun _ t => ?_
    · unfold Coordinator.popFlight
      split
      · exact .of_eq rfl rfl rfl
      · exact .of_eq rfl rfl rfl
    · split
      · exact along_of_touches (along_completeRateBudget _ _)
      · exact along_of_touches (along_completeJob _ _ _)

theorem tracks_drainOne (w : World ω) (stage : StageName) (index : Nat) :
    (drainOne host w stage index).Along Tracks s := by
  refine (tracks_claimItem _ _).bind fun claimed t => ?_
  cases claimed with
  | none => exact .pure _
  | some j =>
      refine .get_bind ?_
      split
      · exact along_of_touches (along_runItem _)
      · exact (along_of_touches along_restoreSourceLease).bind fun _ _ => .pure _

theorem tracks_claimSelected : (claimSelectedImplementationItem i).Along Tracks s := by
  unfold claimSelectedImplementationItem
  refine .get_bind ?_
  dsimp only
  split
  · refine (tracks_claimItem _ _).bind fun claimed t => ?_
    split
    · exact .throw _
    · exact .pure _
  · exact .pure _

theorem tracks_dispatchOne (w : World ω) : (dispatchOne host w i).Along Tracks s := by
  unfold dispatchOne
  refine .get_bind ?_
  split
  · exact .pure _
  · refine tracks_claimSelected.bind fun claimed t => ?_
    split
    · exact along_of_touches
        (Along.bind (along_editItem fun _ => rfl) fun _ _ => along_runItem _)
    · exact .pure _

theorem tracks_finishSelected (passed : Bool) (reason : String) :
    (finishSelected host i passed reason).Along Tracks s := by
  refine tracks_claimSelected.bind fun claimed t => ?_
  split
  · exact along_of_touches (along_finish _ _)
  · exact .pure _

theorem tracks_deferSelected (w : World ω) (message : String) :
    (deferSelected host w i message).Along Tracks s := by
  refine tracks_claimSelected.bind fun claimed t => ?_
  split
  · exact along_of_touches (along_deferImplementationPlanRead _ _)
  · exact .pure _

/-- The loop over the heap pushes only items that are in already. -/
theorem tracks_wakeLoop (config : PipelineConfig) (now : ℚ) (fuel : Nat)
    (h : ∀ entry ∈ s.timers, entry.item ∈ s.seenItemIds) :
    (wakeLoop config now fuel).Along Tracks s := by
  induction fuel generalizing s with
  | zero => exact .pure _
  | succ fuel ih =>
      unfold wakeLoop
      refine .get_bind ?_
      split
      · exact .pure _
      · next entry rest htimers =>
          split
          · have hseen := h entry (htimers ▸ List.mem_cons_self)
            unfold Along
            rw [exec_bind, exec_pushItem_tracked hseen]
            by_cases hc : (s.queues (s.stageOf entry.item)).canOffer = true
            · rw [if_pos hc]
              dsimp only
              rw [if_pos rfl, exec_bind, exec_modify]
              have hmoved : Tracks s { { s with
                  queues := Function.update s.queues (s.stageOf entry.item)
                    ((s.queues (s.stageOf entry.item)).append entry.item) }.admitPushed entry.item
                      (s.stageOf entry.item) false false with timers := s.timers.tail } :=
                Touches.tracks (.of_setItem rfl (issueKey_moveTo _ _ _) (fun _ _ => rfl) subset_rfl rfl)
              refine IsTrans.trans _ _ _ hmoved (ih fun e he => ?_)
              exact h e (List.mem_of_mem_tail he)
            · rw [if_neg hc]
              exact refl s
          · exact .pure _

/-! ## Every event but a push -/

/-- The item an event brings in. -/
def CoordinatorEvent.pushed : CoordinatorEvent ω → Option NewItem
  | .push new _ => some new
  | _ => none

theorem step_tracks {e : CoordinatorEvent ω} (hs : Sound host s) (he : e.pushed = none)
    (hstep : s.step host e = some t) : Tracks { s with shutdown := t.shutdown } t := by
  have hsame : Tracks s t → Tracks { s with shutdown := t.shutdown } t :=
    fun h => ⟨h.seen, h.key, rfl⟩
  have hguard : ∀ {p : Prop} [Decidable p] {u : Coordinator},
      (if p then some u else none) = some t → u = t := by
    intro p _ u h
    split at h
    · exact Option.some.inj h
    · cases h
  cases e with
  | push new deferIfFull => cases he
  | claim stage index => exact hsame (Option.some.inj hstep ▸ tracks_claimItem _ _)
  | restore i => exact hsame (hguard hstep ▸ along_of_touches along_restoreSourceLease)
  | route w i outcome => exact hsame (hguard hstep ▸ along_of_touches (along_route _ _))
  | runItem w i => exact hsame (hguard hstep ▸ along_of_touches (along_runItem _))
  | submit w i request => exact hsame (hguard hstep ▸ along_of_touches (along_submit _ _))
  | completion w handle result auxiliary =>
      exact hsame (Option.some.inj hstep ▸ tracks_handleCompletion _ _ _ _)
  | timerPark now i delay => exact hsame (hguard hstep ▸ along_of_touches (along_timerPark _ _))
  | wakeTimers now =>
      have hloop := tracks_wakeLoop host.config now s.timers.length
        fun entry hentry => hs.owned.timer_seen hentry
      exact hsame (Option.some.inj hstep ▸ Along.get_bind hloop)
  | handoff i target enter result => exact hsame (hguard hstep ▸ along_of_touches (along_handoffItem _ _ _ _))
  | drainPendingHandoffs => exact hsame (Option.some.inj hstep ▸ tracks_drainPendingHandoffs _)
  | parkResumable i => exact hsame (hguard hstep ▸ along_of_touches (along_parkResumable _))
  | drain w stage index => exact hsame (Option.some.inj hstep ▸ tracks_drainOne _ _ _)
  | dispatch w i => exact hsame (Option.some.inj hstep ▸ tracks_dispatchOne _)
  | finishSelected i passed reason => exact hsame (Option.some.inj hstep ▸ tracks_finishSelected _ _)
  | deferSelected w i message => exact hsame (Option.some.inj hstep ▸ tracks_deferSelected _ _)
  | retireSource => exact hsame (Option.some.inj hstep ▸ .of_eq rfl rfl rfl)
  | signal => exact Option.some.inj hstep ▸ refl _

end Hephaestus.Pipeline
