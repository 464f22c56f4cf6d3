import Hephaestus.Proofs.Driving

/-!
# What a handoff does to the item

`Driving.lean` says that a handoff keeps the invariants. Here it is said
what becomes of the item: it is in its new stage with that stage's entry
due, or it stands as it stood with the route retained, or, where the stage
it is sent to is its own, it is back in its queue. `_finish` is a handoff to
the sink, so the rows of `_route` all come down to this.
-/

namespace Hephaestus.Pipeline

open Hephaestus.Lib Hephaestus.Lib.Command StageQueueLease

variable {ω : Type} {host : Host ω} {s t : Coordinator} {i : ItemId}
  {target : StageName} {enter : Bool} {result : Option ItemResult}

/-- The item is in hand, in a state where everything has one holder. -/
structure Holds (s : Coordinator) (i : ItemId) : Prop where
  owned : Owned s
  inHand : s.InHand i

theorem Driven.holds {s₀ : Coordinator} (h : Driven host s₀ i s) : Holds s i :=
  ⟨h.sound.owned, h.inHand⟩

theorem Holds.edit {item : WorkItem} (h : Holds s i) (hp : Preserves (s.workItem i) item) :
    Holds (s.setItem i item) i :=
  ⟨h.owned.setItem hp.stage hp.result hp.summaryRecorded, h.inHand⟩

theorem Holds.logRoute (h : Holds s i) (outcome : StageOutcome) :
    Holds (s.logRoute i outcome) i :=
  ⟨⟨h.owned.held, h.owned.fits, h.owned.unborn⟩, h.inHand⟩

/-- How a handoff of an item in hand ended. -/
inductive Handed (s : Coordinator) (i : ItemId) (target : StageName) (enter : Bool)
    (result : Option ItemResult) : Coordinator → Prop
  /-- The item is where it was going. -/
  | back {l : StageQueueLease StageName} (hl : s.leases.get? i = some l)
      (htarget : target = s.stageOf i) (hresult : result = none) :
      Handed s i target enter result (s.unlease i (reinserted s.queues l l.item))
  /-- The destination took it. -/
  | moved {l : StageQueueLease StageName} (hl : s.leases.get? i = some l)
      (htarget : target ≠ s.stageOf i) :
      Handed s i target enter result
        ({ s with queues := handedOff s.queues l target }.publishHandoff i target enter result)
  /-- The route is retained. -/
  | waits (htarget : target ≠ s.stageOf i) :
      Handed s i target enter result
        { s with pendingHandoffs := s.pendingHandoffs.set i ⟨i, target, enter, result⟩ }

theorem Holds.handoffItem {config : PipelineConfig} (h : Holds s i)
    (hresult : target = s.stageOf i → result = none) :
    (handoffItem config i target enter result).wp (fun _ => Handed s i target enter result)
      (fun _ _ => False) s := by
  obtain ⟨ho, hand⟩ := h
  obtain ⟨l, hl⟩ := Option.isSome_iff_exists.mp hand.1
  have hq : l.Owned s.queues := ho.owns hl
  unfold Pipeline.handoffItem
  rw [wp_bind, wp_get, wp_bind, wp_lookup hl]
  split
  · next htarget =>
      rw [if_neg (by simp [hresult htarget])]
      exact (wp_restoreSourceLease ho hl).mpr (.back hl htarget (hresult htarget))
  · next htarget =>
      dsimp only
      split
      · rw [wp_bind, wp_onQueues]
        unfold wp
        rw [exec_handoff hq target]
        by_cases hc : (s.queues target).canOffer = true
        · rw [if_pos hc]
          exact .moved hl htarget
        · rw [if_neg hc]
          show Command.wp (if false = true then _ else _) _ _ s
          rw [if_neg (by simp), hand.2.1]
          exact .waits htarget
      · rw [wp_bind, wp_pure, if_neg (by simp), hand.2.1]
        exact .waits htarget

/-! ## Where an item is going -/

namespace Coordinator

/-- The stage an item is in, or the one its retained route leads to. -/
def headedFor (s : Coordinator) (i : ItemId) : StageName :=
  match s.pendingHandoffs.get? i with
  | some pending => pending.target
  | none => s.stageOf i

/-- The result an item has, or gets with its retained route. -/
def dueResult (s : Coordinator) (i : ItemId) : Option ItemResult :=
  match s.pendingHandoffs.get? i with
  | some pending => pending.result.orElse fun _ => (s.workItem i).result
  | none => (s.workItem i).result

end Coordinator

theorem Handed.headedFor (h : Handed s i target enter result t) :
    t.headedFor i = target := by
  unfold Coordinator.headedFor
  cases h with
  | back hl htarget hresult =>
      simp only [Coordinator.unlease, Dict.get?_erase, if_true]
      exact htarget.symm
  | moved hl htarget =>
      simp only [publishHandoff_pending, Dict.get?_erase, if_true]
      rw [Coordinator.stageOf, publishHandoff_workItem_self]
      exact moveTo_stage _ _ _
  | waits htarget =>
      simp only [Dict.get?_set_self]

theorem Handed.dueResult {r : ItemResult} (h : Handed s i target enter (some r) t) :
    t.dueResult i = some r := by
  unfold Coordinator.dueResult
  cases h with
  | back hl htarget hresult => cases hresult
  | moved hl htarget =>
      simp only [publishHandoff_pending, Dict.get?_erase, if_true]
      rw [publishHandoff_workItem_self]
      rfl
  | waits htarget =>
      simp only [Dict.get?_set_self]
      rfl

/-! ## Finishing -/

/-- `_finish` outside the sink is a handoff to the sink. -/
theorem wp_finish {passed : Bool} {reason : String} {Q : Unit → Coordinator → Prop}
    {E : PyError → Coordinator → Prop} (hfin : s.stageOf i ≠ .finished)
    (hrepo : s.stageOf i ≠ .repo) :
    (finish host i passed reason).wp Q E s ↔
      (handoffItem host.config i .finished true (some ⟨passed, reason, s.stageOf i⟩)).wp
        (fun _ => Q ()) E s := by
  unfold finish
  rw [wp_bind, wp_modify, if_neg (fun h => hrepo h.1), wp_bind, wp_get]
  dsimp only
  rw [if_neg hfin, wp_bind]
  rfl

theorem Holds.finish {passed : Bool} {reason : String} (h : Holds s i)
    (hfin : s.stageOf i ≠ .finished) (hrepo : s.stageOf i ≠ .repo) :
    (Pipeline.finish host i passed reason).wp
      (fun _ => Handed s i .finished true (some ⟨passed, reason, s.stageOf i⟩))
      (fun _ _ => False) s := by
  rw [wp_finish hfin hrepo]
  exact h.handoffItem fun htarget => absurd htarget.symm hfin

end Hephaestus.Pipeline
