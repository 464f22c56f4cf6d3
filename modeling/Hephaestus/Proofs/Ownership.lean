import Hephaestus.Proofs.Steps

/-!
# Who holds an item, and by what permit

What the moves come to, for every run of the coordinator from its
constructor: a live item has one holder, jobs and retained routes belong to
leased items, permits follow the lanes, and an item that is no longer live
has its result on record. The set-up items of a source are the exception to
the last part: a direct scope's bootstrap and a repository whose cursor has
been enrolled leave no result behind.
-/

namespace Hephaestus.Pipeline

open Hephaestus.Lib StageQueueLease

variable {ω : Type} {host : Host ω} {s s' : Coordinator} {i j : ItemId}
  {tr : List (Transition Coordinator (CoordinatorEvent ω))}

/-! ## Reachable states are sound -/

theorem initial_sound (host : Host ω) : Sound host (Coordinator.initial host.config) where
  owned := by
    have hqueue : ∀ st, (host.config.emptyQueue st).items = [] ∧
        (host.config.emptyQueue st).leased = [] := by
      intro st
      cases st <;> exact ⟨rfl, rfl⟩
    refine ⟨fun i => ⟨.nowhere, Held.mk_nowhere ⟨fun st => ?_, rfl, rfl, rfl⟩ (fun st => ?_) rfl
      (Finset.notMem_empty i)⟩, fun st => ?_, fun i _ => Finset.notMem_empty i⟩
    · exact congrArg (Dict.get? · i) (hqueue st).2
    · show ((host.config.emptyQueue st).items.map Prod.snd).count i = 0
      rw [(hqueue st).1]
      rfl
    · show (host.config.emptyQueue st).items.length + (host.config.emptyQueue st).leased.length ≤ _
      rw [(hqueue st).1, (hqueue st).2]
      exact Nat.zero_le _
  permitted := ⟨rfl, rfl, Nat.zero_le _, Nat.zero_le _⟩
  sinking := fun i hi => absurd hi (Finset.notMem_empty i)
  keyed := List.nodup_nil

theorem run_sound (hrun : Run (Coordinator.step host) (.initial host.config) tr s) :
    Sound host s :=
  hrun.invariant (Sound host) (initial_sound host) fun _ _ _ h hs =>
    (Coordinator.step_reached h hs).sound

/-! ## Exits -/

/-- The item's terminal or resumable result has been recorded. -/
def Recorded (s : Coordinator) (i : ItemId) : Prop :=
  (s.workItem i).result.isSome = true ∧ (s.workItem i).summaryRecorded = true ∧
    i ∈ s.terminalSummary

/-- The item is live, or its exit is accounted for. -/
structure Kept (s : Coordinator) (i : ItemId) : Prop where
  allocated : i < s.allocated
  kept : i ∈ s.seenItemIds ∨ Recorded s i ∨ (s.workItem i).SetupDone

/-- Only the summary grows, and the records of items that are not live stay
as they are. -/
theorem Kept.frame (h : Kept s i) (halloc : s.allocated ≤ s'.allocated)
    (hseen : i ∈ s.seenItemIds → i ∈ s'.seenItemIds)
    (hitem : i ∉ s.seenItemIds → s'.workItem i = s.workItem i)
    (hsummary : s.terminalSummary ⊆ s'.terminalSummary) : Kept s' i := by
  refine ⟨h.allocated.trans_le halloc, ?_⟩
  by_cases hlive : i ∈ s.seenItemIds
  · exact .inl (hseen hlive)
  · rcases h.kept with hl | ⟨hresult, hrec, hmem⟩ | hsetup
    · exact absurd hl hlive
    · exact .inr (.inl ⟨hitem hlive ▸ hresult, hitem hlive ▸ hrec, hsummary hmem⟩)
    · exact .inr (.inr (hitem hlive ▸ hsetup))

/-- A move that writes to no record. -/
theorem Kept.congr (h : Kept s i) (halloc : s'.allocated = s.allocated)
    (hseen : s'.seenItemIds = s.seenItemIds) (hitem : s'.workItem = s.workItem)
    (hsummary : s'.terminalSummary = s.terminalSummary) : Kept s' i :=
  h.frame halloc.ge (fun hl => hseen ▸ hl) (fun _ => congrFun hitem i)
    fun _ hmem => hsummary.symm ▸ hmem

/-- A write to the record of a live item. -/
theorem Kept.setItem (h : Kept s i) {item : WorkItem} (hj : j ∈ s.seenItemIds)
    (hitem : s'.workItem = Function.update s.workItem j item)
    (halloc : s'.allocated = s.allocated) (hseen : s'.seenItemIds = s.seenItemIds)
    (hsummary : s'.terminalSummary = s.terminalSummary) : Kept s' i := by
  refine h.frame halloc.ge (fun hl => hseen ▸ hl) (fun hlive => ?_)
    fun _ hmem => hsummary.symm ▸ hmem
  have hne : i ≠ j := fun heq => hlive (heq ▸ hj)
  rw [hitem, Function.update_of_ne hne]

@[simp] theorem publishHandoff_summary {target : StageName} {enter : Bool}
    {result : Option ItemResult} :
    (s.publishHandoff i target enter result).terminalSummary = s.terminalSummary := by
  unfold Coordinator.publishHandoff Coordinator.activateHandoff Coordinator.transferPermit
  split <;> rfl

theorem Kept.publish (h : Kept s i) (hj : j ∈ s.seenItemIds) {target : StageName}
    {enter : Bool} {result : Option ItemResult} :
    Kept (s.publishHandoff j target enter result) i := by
  refine h.frame publishHandoff_allocated.ge (fun hl => publishHandoff_seen.symm ▸ hl)
    (fun hlive => ?_) fun _ hmem => publishHandoff_summary.symm ▸ hmem
  exact publishHandoff_workItem_ne fun heq => hlive (heq ▸ hj)

/-- No move loses an item: it stays live, or its exit is accounted for. -/
theorem Move.kept (hm : Move host s s') (ho : Owned s) (h : Kept s i) : Kept s' i := by
  cases hm with
  | alloc new =>
      refine h.frame (Nat.le_succ _) id (fun _ => ?_) (List.Subset.refl _)
      exact Function.update_of_ne h.allocated.ne _ _
  | idle pending shutdown sources => exact h.congr rfl rfl rfl rfl
  | logRoute j outcome => exact h.congr rfl rfl rfl rfl
  | admitNew halloc hseen hrec hfin ht hc =>
      rename_i t j
      rw [tryAcquireWorkPermit_eq ht]
      by_cases hij : i = j
      · subst hij
        exact ⟨h.allocated, .inl (Finset.mem_insert_self _ _)⟩
      · refine h.frame le_rfl (fun hl => Finset.mem_insert_of_mem hl) (fun _ => ?_)
          (List.Subset.refl _)
        exact Function.update_of_ne hij _ _
  | claim hslot => exact h.congr rfl rfl rfl rfl
  | restore hh hl => exact h.congr rfl rfl rfl rfl
  | pend hr => exact h.congr rfl rfl rfl rfl
  | handoff hr hlane hc =>
      rename_i j l target enter result
      have hq : Kept { s with queues := handedOff s.queues l target } i :=
        h.congr rfl rfl rfl rfl
      exact hq.publish (ho.leased_fresh hr.lease).1
  | pair hne hj hk hcross hback hto hq =>
      rename_i j k l m target target' enter enter' result result' queues
      have hq : Kept { s with queues } i := h.congr rfl rfl rfl rfl
      refine (hq.publish (ho.leased_fresh hj.lease).1).publish ?_
      rw [publishHandoff_seen]
      exact (ho.leased_fresh hk.lease).1
  | park wake hh hl => exact h.congr rfl rfl rfl rfl
  | wake ht hc =>
      refine h.congr rfl rfl ?_ rfl
      simp only [Coordinator.admitPushed, Coordinator.setItem, Coordinator.stageOf,
        Bool.false_eq_true, if_false, moveTo_same, Function.update_eq_self]
  | submit handle perRepo hh hq => exact h.congr rfl rfl rfl rfl
  | submitAuxiliary handle hh hq => exact h.congr rfl rfl rfl rfl
  | complete handle auxiliary repo => cases auxiliary <;> exact h.congr rfl rfl rfl rfl
  | edit hh hp hk => exact h.setItem (ho.inHand_seen hh) rfl rfl rfl rfl
  | compact reason result hh => exact h.setItem (ho.inHand_seen hh) rfl rfl rfl rfl
  | sink w hh hstage => exact h.setItem (ho.inHand_seen hh) rfl rfl rfl rfl
  | poison result hh hstage hrec htried =>
      exact h.setItem (ho.inHand_seen hh) rfl rfl rfl rfl
  | retire hh hl hr =>
      rename_i j l
      obtain ⟨_, hrec, _⟩ := ho.leased_fresh hl
      unfold Coordinator.retired
      rw [recordTerminalResult_eq hr hrec]
      by_cases hij : i = j
      · subst hij
        refine ⟨h.allocated, .inr (.inl ⟨?_, ?_, List.mem_append_right _
          (List.mem_singleton_self i)⟩)⟩
        · simpa [Coordinator.releaseWorkPermit, Coordinator.unlease, Coordinator.setItem,
            WorkItem.setPayload] using hr
        · simp [Coordinator.releaseWorkPermit, Coordinator.unlease, Coordinator.setItem,
            WorkItem.setPayload, WorkItem.summaryRecorded, Payload.flag, PayloadValue.truthy]
      · refine h.frame le_rfl (fun hlive => Finset.mem_erase.mpr ⟨hij, hlive⟩) (fun _ => ?_)
          (List.subset_append_left _ _)
        exact Function.update_of_ne hij _ _
  | vanish hh hl hsetup =>
      rename_i j l
      by_cases hij : i = j
      · subst hij
        exact ⟨h.allocated, .inr (.inr hsetup)⟩
      · exact h.frame le_rfl (fun hlive => Finset.mem_erase.mpr ⟨hij, hlive⟩) (fun _ => rfl)
          (List.Subset.refl _)

theorem Moves.kept (hm : Moves host s s') (hs : Sound host s) (h : Kept s i) : Kept s' i := by
  have hboth : Sound host s' ∧ Kept s' i := by
    induction hm with
    | refl => exact ⟨hs, h⟩
    | tail _ hm ih => exact ⟨hm.sound ih.1, hm.kept ih.1.owned ih.2⟩
  exact hboth.2

/-- Once live, an item stays live or its exit is accounted for. -/
theorem run_kept (hrun : Run (Coordinator.step host) (.initial host.config) tr s) :
    ∀ x ∈ tr, ∀ i ∈ x.post.seenItemIds, Kept s i := by
  have hinv := hrun.invariant_of
    (fun tr s => Sound host s ∧ ∀ x ∈ tr, ∀ i ∈ x.post.seenItemIds, Kept s i)
    (fun _ _ => True) ⟨initial_sound host, fun x hx => by cases hx⟩ ?_ fun _ _ => trivial
  · exact hinv.2
  · intro tr t e u ⟨hsound, hkept⟩ _ hstep
    have hr := Coordinator.step_reached hsound hstep
    refine ⟨hr.sound, fun x hx i hi => ?_⟩
    rcases List.mem_append.mp hx with hold | hnew
    · exact Moves.kept hr.moves hsound (hkept x hold i hi)
    · obtain rfl := List.mem_singleton.mp hnew
      refine ⟨?_, .inl hi⟩
      by_contra hge
      exact hr.sound.owned.unborn i (Nat.not_lt.mp hge) hi

/-! ## Single ownership -/

/-- The ready slots an item has, over all queues. -/
def Coordinator.readySlots (s : Coordinator) (i : ItemId) : Nat :=
  (pipelineOrder.map fun st => (s.queues st).snapshot.count i).sum

/-- The leases an item is under: one or none. -/
def Coordinator.leaseCount (s : Coordinator) (i : ItemId) : Nat :=
  if (s.leases.get? i).isSome then 1 else 0

/-- An item has exactly one holder: a ready slot of the queue of its stage, a
lease from that queue, or a timer. -/
structure HeldOnce (s : Coordinator) (i : ItemId) : Prop where
  once : s.readySlots i + s.leaseCount i + timerCount s.timers i = 1
  ready : ∀ st, i ∈ (s.queues st).snapshot → st = s.stageOf i
  lease : ∀ l, s.leases.get? i = some l → l.item = i ∧ l.source = s.stageOf i ∧
    l.Owned s.queues
  leased : ∀ st t, (s.queues st).leased.get? i = some t → s.leases.get? i = some ⟨st, i, t⟩

/-- The single-ownership invariant. -/
structure SingleOwner (s : Coordinator) : Prop where
  live : ∀ i ∈ s.seenItemIds, HeldOnce s i
  gone : ∀ i, i ∉ s.seenItemIds →
    s.readySlots i + s.leaseCount i + timerCount s.timers i = 0
  inFlight : ∀ i ∈ s.inFlight.values ++ s.auxiliaryInFlight.values,
    i ∈ s.seenItemIds ∧ (s.leases.get? i).isSome = true
  pending : ∀ kv ∈ s.pendingHandoffs, kv.2.item = kv.1 ∧ kv.1 ∈ s.seenItemIds ∧
    (s.leases.get? kv.1).isSome = true
  oneQueue : ∀ i st st', i ∈ (s.queues st).snapshot → i ∈ (s.queues st').snapshot → st = st'

/-- The ready slots of a held item are those of its own stage. -/
theorem Held.readySlots {h : Holder} (hv : Held i h (s.view i)) :
    s.readySlots i = if h = .ready then 1 else 0 := by
  have hcount : ∀ st, (s.queues st).snapshot.count i =
      if h = .ready ∧ st = s.stageOf i then 1 else 0 := hv.ready
  unfold Coordinator.readySlots
  simp only [hcount]
  by_cases hr : h = .ready
  · simp only [hr, true_and]
    cases s.stageOf i <;> rfl
  · simp only [hr, false_and]
    rfl

theorem Held.leaseCount {h : Holder} (hv : Held i h (s.view i)) :
    s.leaseCount i = if h.ticket?.isSome then 1 else 0 := by
  have hlease : s.leases.get? i = _ := hv.lease
  unfold Coordinator.leaseCount
  rw [hlease, Option.isSome_map]

/-- A ready slot is a holder. -/
theorem Held.of_mem {h : Holder} (hv : Held i h (s.view i)) {st : StageName}
    (hmem : i ∈ (s.queues st).snapshot) : h = .ready ∧ st = s.stageOf i := by
  have hcount : (s.queues st).snapshot.count i =
      if h = .ready ∧ st = s.stageOf i then 1 else 0 := hv.ready st
  have hpos := List.count_pos_iff.mpr hmem
  by_contra hne
  rw [if_neg hne] at hcount
  omega

theorem Owned.heldOnce (ho : Owned s) (hseen : i ∈ s.seenItemIds) : HeldOnce s i := by
  obtain ⟨h, hv⟩ := ho.held i
  have hne : h ≠ .nowhere := hv.seen.mp hseen
  have htimers : timerCount s.timers i = if h = .timer then 1 else 0 := hv.timers
  refine ⟨?_, fun st hmem => (hv.of_mem hmem).2, fun l hl => ?_, fun st t hst => ?_⟩
  · rw [hv.readySlots, hv.leaseCount, htimers]
    cases h with
    | nowhere => exact absurd rfl hne
    | ready => rfl
    | leased t => rfl
    | timer => rfl
  · exact ⟨ho.lease_item hl, ho.lease_source hl, ho.owns hl⟩
  · have hleased : (s.queues st).leased.get? i = _ := hv.leased st
    have hlease : s.leases.get? i = _ := hv.lease
    rw [hst] at hleased
    split at hleased
    · next heq =>
        rw [hlease, ← hleased, heq]
        rfl
    · cases hleased

theorem Owned.singleOwner (ho : Owned s) (hk : s.Keyed) : SingleOwner s where
  live := fun i hi => ho.heldOnce hi
  gone := by
    intro i hi
    have hv := ho.nowhere hi
    have htimers : timerCount s.timers i = 0 := hv.timers
    rw [hv.readySlots, hv.leaseCount, htimers]
    rfl
  inFlight := by
    intro i hi
    obtain ⟨h, hv⟩ := ho.held i
    have hpos : 0 < s.flights i := by
      unfold Coordinator.flights
      rw [← List.count_append]
      exact List.count_pos_iff.mpr hi
    have hle : s.flights i ≤ if h.ticket?.isSome then 1 else 0 := hv.flights
    cases h with
    | leased t =>
        refine ⟨hv.seen.mpr (by simp), ?_⟩
        have hlease : s.leases.get? i = _ := hv.lease
        rw [hlease]
        rfl
    | nowhere => exact absurd (hpos.trans_le hle) (lt_irrefl 0)
    | ready => exact absurd (hpos.trans_le hle) (lt_irrefl 0)
    | timer => exact absurd (hpos.trans_le hle) (lt_irrefl 0)
  pending := by
    intro kv hkv
    obtain ⟨hitem, l, hr⟩ := ho.retained (Dict.get?_of_mem hk hkv)
    exact ⟨hitem, (ho.leased_fresh hr.lease).1, by rw [hr.lease]; rfl⟩
  oneQueue := by
    intro i st st' hmem hmem'
    obtain ⟨h, hv⟩ := ho.held i
    exact (hv.of_mem hmem).2.trans (hv.of_mem hmem').2.symm

/-- The lane-permit invariant. -/
structure LanePermits (config : PipelineConfig) (s : Coordinator) : Prop where
  main : ∀ i ∈ s.seenItemIds, (s.stageOf i).isAuxiliary = false →
    i ∈ s.liveWorkPermitIds ∧ i ∉ s.learningWorkPermitIds
  auxiliary : ∀ i ∈ s.seenItemIds, (s.stageOf i).isAuxiliary = true →
    i ∈ s.learningWorkPermitIds ∧ i ∉ s.liveWorkPermitIds
  window : (s.liveWorkPermitIds.card : Int) ≤ max 1 (config.parallelRepos * config.maxWorkers)
  learners : (s.seenItemIds.filter fun i => s.stageOf i = .learning).card ≤
    config.learningQueueCapacity
  gone : ∀ i, i ∉ s.seenItemIds ∨ (s.workItem i).summaryRecorded = true →
    i ∉ s.liveWorkPermitIds ∧ i ∉ s.learningWorkPermitIds

theorem Sound.lanePermits (h : Sound host s) : LanePermits host.config s where
  main := by
    intro i hi hstage
    rw [h.permitted.live, h.permitted.learning, mem_mainLane, mem_auxiliaryLane]
    exact ⟨⟨hi, hstage⟩, fun hc => by simp [hstage] at hc⟩
  auxiliary := by
    intro i hi hstage
    rw [h.permitted.live, h.permitted.learning, mem_mainLane, mem_auxiliaryLane]
    exact ⟨⟨hi, hstage⟩, fun hc => by simp [hstage] at hc⟩
  window := by
    have hle := h.permitted.window
    unfold PipelineConfig.workWindow at hle
    omega
  learners := h.permitted.learners
  gone := by
    rintro i (hgone | hrec)
    · exact h.permitted.unseen hgone
    · refine h.permitted.unseen fun hseen => ?_
      obtain ⟨holder, hv⟩ := h.owned.held i
      have hfalse : (s.workItem i).summaryRecorded = false := (hv.fresh hseen).1
      rw [hrec] at hfalse
      cases hfalse

/-- In every run, a live item has one permit, that of its stage's lane; the
main lane keeps to the work window and `LEARNING` to its capacity; and an
item that was live and is no longer, because it has become terminal or
resumable or has been replaced by a cursor, has none. -/
theorem coordinator_lanePermits (host : Host ω)
    (hrun : Run (Coordinator.step host) (.initial host.config) tr s) :
    LanePermits host.config s ∧ ∀ x ∈ tr, ∀ i ∈ x.post.seenItemIds,
      i ∈ s.seenItemIds ∨ (i ∉ s.liveWorkPermitIds ∧ i ∉ s.learningWorkPermitIds ∧
        (Recorded s i ∨ (s.workItem i).SetupDone)) := by
  have hlanes := (run_sound hrun).lanePermits
  refine ⟨hlanes, fun x hx i hi => ?_⟩
  by_cases hlive : i ∈ s.seenItemIds
  · exact .inl hlive
  · obtain ⟨hmain, haux⟩ := hlanes.gone i (.inl hlive)
    exact .inr ⟨hmain, haux, (run_kept hrun x hx i hi).kept.resolve_left hlive⟩

/-! ### Two short runs -/

/-- The bootstrap of a direct scope, its checkout done. -/
def bootstrapItem : NewItem where
  item :=
    { repo := "hephaestus"
      kind := .repo
      payload := [(directScopeBootstrapKey, .bool true),
        (directScopeBaseShaKey, .str "0123456789abcdef0123456789abcdef01234567")] }
  unrecorded := by decide
  settled := by decide

/-- The bootstrap is pushed, claimed and passes. -/
def bootstrapRun : List (CoordinatorEvent Unit) :=
  [.push bootstrapItem false, .claim .repo 0,
    .route { answers := fun _ => () } 0 ⟨.finishPass, "ready"⟩]

/-- The same run: the item has the one permit of a window of one. -/
theorem coordinator_lanePermits_claimed :
    ∃ tr s, Run (Coordinator.step stillHost) (.initial stillHost.config) tr s ∧
      0 ∈ s.liveWorkPermitIds ∧ 0 ∉ s.learningWorkPermitIds ∧
      (s.liveWorkPermitIds.card : Int) ≤ 1 := by
  have hevents : (trace (Coordinator.step stillHost) (.initial stillHost.config)
      (bootstrapRun.take 2)).any
        (fun y => decide (0 ∈ y.2.seenItemIds) && decide (y.2.stageOf 0 = .repo)) = true := by
    decide
  obtain ⟨⟨tr, s⟩, htrace, hprops⟩ := (Option.any_eq_true _ _).mp hevents
  simp only [Bool.and_eq_true, decide_eq_true_eq] at hprops
  have hrun := trace_run htrace
  have hlanes := (coordinator_lanePermits stillHost hrun).1
  obtain ⟨hmain, haux⟩ := hlanes.main 0 hprops.1 (by rw [hprops.2]; rfl)
  exact ⟨tr, s, hrun, hmain, haux, hlanes.window⟩

end Hephaestus.Pipeline
