import Hephaestus.Proofs.Ownership

/-!
# The wave store hears of a result before the ledger does

An item of a wave carries the wave's lease in its payload, and `RECORD`
offers its outcome to the wave store before the ledger gets it. The lease
has to survive everything on the way to the sink. It does, with one
exception: a merged item with learning intents has its payload compacted,
the list of keys that survive compaction names a key that nobody writes in
place of the lease's, and `RECORD` goes straight to the ledger.

The invariant is about one item: it still carries its lease, and the log of
the sink has the store's call before the ledger's entry. Every move keeps it
but the compaction, which happens only where `_route` was asked to pass a
merged item with learning intents.
-/

namespace Hephaestus.Pipeline

open Hephaestus.Lib Hephaestus.Automation StageQueueLease

variable {ω : Type} {host : Host ω} {s s' : Coordinator} {i j : ItemId}
  {lease : Checked WaveLease.postInit} {issue : Int}
  {tr : List (Transition Coordinator (CoordinatorEvent ω))}

/-! ## The log -/

/-- The wave store has been given an outcome for the issue under the
lease. -/
def Offered (log : List SinkEffect) (lease : Checked WaveLease.postInit) (issue : Int) : Prop :=
  ∃ passed reason pr nonCode stored,
    SinkEffect.waveOutcome lease issue passed reason pr nonCode stored ∈ log

/-- Wherever the ledger gets a result of the item, the wave store was there
first. -/
def OfferedFirst (log : List SinkEffect) (i : ItemId) (lease : Checked WaveLease.postInit)
    (issue : Int) : Prop :=
  ∀ before result after, log = before ++ .ledger i result :: after → Offered before lease issue

theorem Offered.mono {log log' : List SinkEffect} (h : Offered log lease issue)
    (hsub : log ⊆ log') : Offered log' lease issue := by
  obtain ⟨passed, reason, pr, nonCode, stored, hmem⟩ := h
  exact ⟨passed, reason, pr, nonCode, stored, hsub hmem⟩

/-- The log grows at the end. -/
theorem OfferedFirst.append {log effects : List SinkEffect}
    (h : OfferedFirst log i lease issue)
    (heffects : ∀ before result after, effects = before ++ .ledger i result :: after →
      Offered (log ++ before) lease issue) :
    OfferedFirst (log ++ effects) i lease issue := by
  intro before result after heq
  rcases List.append_eq_append_iff.mp heq with ⟨mid, rfl, hmid⟩ | ⟨mid, rfl, hmid⟩
  · exact heffects mid result after hmid
  · cases mid with
    | nil =>
        have hnil := heffects [] result after (by simpa using hmid.symm)
        simpa using hnil
    | cons e mid =>
        obtain ⟨rfl, rfl⟩ := List.cons.inj hmid
        exact h before result mid rfl

/-! ## What `RECORD` logs -/

/-- The ledger entries of a sink step are the item's own, and come after the
store's call unless that was made before. -/
theorem recordLedger_effects {item : WorkItem} {effects : List SinkEffect}
    {result : ItemResult} (hno : ∀ k r, SinkEffect.ledger k r ∉ effects) {k : ItemId}
    {before after : List SinkEffect} {r : ItemResult}
    (h : (recordLedger i item effects result).effects = before ++ .ledger k r :: after) :
    k = i ∧ before = effects := by
  have hmem : ∀ l after : List SinkEffect, l = before ++ .ledger k r :: after →
      .ledger k r ∈ l :=
    fun l after hl => hl ▸ List.mem_append_right _ List.mem_cons_self
  unfold recordLedger at h
  split at h
  · exact absurd (hmem _ _ h) (hno k r)
  · rcases List.eq_nil_or_concat after with rfl | ⟨after, e, rfl⟩
    · obtain ⟨hbefore, hlast⟩ := List.append_inj' h rfl
      obtain ⟨rfl, _⟩ := SinkEffect.ledger.inj (List.cons.inj hlast).1
      exact ⟨rfl, hbefore.symm⟩
    · rw [List.concat_eq_append, ← List.cons_append, ← List.append_assoc] at h
      obtain ⟨hbefore, _⟩ := List.append_inj' h rfl
      exact absurd (hmem _ _ hbefore) (hno k r)

/-- The store's calls are no ledger entries, and there is at least one. -/
theorem recordWave_effects (sink : Sink ω) (w : ω) (item : WorkItem)
    (lease : Checked WaveLease.postInit) (issue : Int) (result : ItemResult) :
    (∀ k r, SinkEffect.ledger k r ∉ (recordWave sink w item lease issue result).1) ∧
      Offered (recordWave sink w item lease issue result).1 lease issue := by
  unfold recordWave waveEffect
  dsimp only
  split
  · exact ⟨by simp, _, _, _, _, _, List.mem_singleton_self _⟩
  · exact ⟨by simp, _, _, _, _, _, List.mem_singleton_self _⟩
  · split
    · exact ⟨by simp, _, _, _, _, _, List.mem_cons_self⟩
    · exact ⟨by simp, _, _, _, _, _, List.mem_cons_self⟩

/-- What a sink step does to an item that carries a lease. -/
structure SinkWave (i : ItemId) (lease : Checked WaveLease.postInit) (issue : Int)
    (item : WorkItem) (c : SinkCall) : Prop where
  carries : c.item.payload.get? waveLeasePayload = some (.lease lease)
  issueKept : c.item.issue = some issue
  offered : c.item.payload.flag waveOutcomeRecordedKey = true →
    item.payload.flag waveOutcomeRecordedKey = true ∨ Offered c.effects lease issue
  ledger : ∀ k before r after, c.effects = before ++ .ledger k r :: after →
    k = i ∧ (item.payload.flag waveOutcomeRecordedKey = true ∨ Offered before lease issue)

/-- A sink step that logs nothing and keeps the item's payload keys. -/
theorem SinkWave.silent {item : WorkItem} {c : SinkCall} (heffects : c.effects = [])
    (hkeeps : Preserves item c.item) (hstage : item.stage ≠ .repo)
    (hlease : item.payload.get? waveLeasePayload = some (.lease lease))
    (hissue : item.issue = some issue) : SinkWave i lease issue item c where
  carries := hkeeps.lease hstage _ hlease
  issueKept := hkeeps.issue.trans hissue
  offered := fun h => by
    unfold Payload.flag at h ⊢
    rw [hkeeps.keys waveOutcomeRecordedKey (by decide)] at h
    exact .inl h
  ledger := fun k before r after h => by simp [heffects] at h

theorem recordStep_wave (sink : Sink ω) (w : ω) {item : WorkItem}
    (hlease : item.payload.get? waveLeasePayload = some (.lease lease))
    (hissue : item.issue = some issue) :
    SinkWave i lease issue item (recordStep sink w i item) := by
  obtain ⟨r, worktree, heq⟩ := recordResult_eq sink w item
  have hledger : ∀ (item' : WorkItem) effects result,
      (recordLedger i item' effects result).item.payload.get? waveLeasePayload =
          item'.payload.get? waveLeasePayload ∧
        (recordLedger i item' effects result).item.issue = item'.issue ∧
        (recordLedger i item' effects result).item.payload.flag waveOutcomeRecordedKey =
          item'.payload.flag waveOutcomeRecordedKey ∧
        effects ⊆ (recordLedger i item' effects result).effects := by
    intro item' effects result
    unfold recordLedger
    split
    · exact ⟨rfl, rfl, rfl, List.Subset.refl _⟩
    · exact ⟨Dict.get?_set_ne _ _ (by decide), rfl, Payload.flag_set_ne _ (by decide),
        List.subset_append_left _ _⟩
  unfold recordStep
  simp only [heq]
  split
  · next lease' issue' hlease' hissue' _ =>
      obtain rfl : lease = lease' := by simpa using hlease.symm.trans hlease'
      obtain rfl : issue = issue' := by simpa using hissue.symm.trans hissue'
      obtain ⟨hno, hoffered⟩ := recordWave_effects sink w { item with result := some r, worktree }
        lease issue r
      rcases hwave : recordWave sink w { item with result := some r, worktree } lease issue r with
        ⟨effects, result, _ | e⟩
      · rw [hwave] at hno hoffered
        obtain ⟨hl, hi, _, hsub⟩ := hledger ({ item with
          result := some result, worktree }.setPayload waveOutcomeRecordedKey (.bool true))
          effects result
        refine ⟨hl.trans ((Dict.get?_set_ne _ _ (by decide)).trans hlease), hi.trans hissue,
          fun _ => .inr (hoffered.mono hsub), fun k before r' after h => ?_⟩
        obtain ⟨rfl, rfl⟩ := recordLedger_effects hno h
        exact ⟨rfl, .inr hoffered⟩
      · rw [hwave] at hno hoffered
        refine ⟨hlease, hissue, fun _ => .inr hoffered, fun k before r' after h => ?_⟩
        have hmem : SinkEffect.ledger k r' ∈ effects := by
          rw [show effects = _ from h]
          exact List.mem_append_right _ List.mem_cons_self
        exact absurd hmem (hno k r')
  · next hne =>
      -- The store has been asked before: only the ledger is left.
      have hflag : item.payload.flag waveOutcomeRecordedKey = true := by
        by_contra hfalse
        exact hne lease issue hlease hissue (by simpa using hfalse)
      obtain ⟨hl, hi, _, _⟩ := hledger { item with result := some r, worktree } [] r
      refine ⟨hl.trans hlease, hi.trans hissue, fun _ => .inl hflag,
        fun k before r' after h => ⟨?_, .inl hflag⟩⟩
      exact (recordLedger_effects (fun _ _ => List.not_mem_nil) h).1

theorem finishedStep_wave (sink : Sink ω) (w : ω) {item : WorkItem} (hstage : item.stage ≠ .repo)
    (hlease : item.payload.get? waveLeasePayload = some (.lease lease))
    (hissue : item.issue = some issue) :
    SinkWave i lease issue item (finishedStep sink w i item) := by
  unfold finishedStep
  split
  · exact .silent rfl (.refl item) hstage hlease hissue
  · split
    · exact recordStep_wave sink w hlease hissue
    · split
      · exact .silent rfl (sink.cleanup.keeps w item).toPreserves hstage hlease hissue
      · split
        · exact .silent rfl (sink.recordCleanupTerminal.keeps w item).toPreserves hstage hlease
            hissue
        · exact .silent rfl (.refl item) hstage hlease hissue

/-- A sink step writes ledger entries of its own item only. -/
theorem finishedStep_ledger (sink : Sink ω) (w : ω) (item : WorkItem) {k : ItemId}
    {r : ItemResult} (h : SinkEffect.ledger k r ∈ (finishedStep sink w i item).effects) :
    k = i := by
  have hrecord : ∀ (item' : WorkItem) effects result,
      (∀ k r, SinkEffect.ledger k r ∉ effects) →
      SinkEffect.ledger k r ∈ (recordLedger i item' effects result).effects → k = i := by
    intro item' effects result hno hmem
    obtain ⟨before, after, heq⟩ := List.append_of_mem hmem
    exact (recordLedger_effects hno heq).1
  unfold finishedStep at h
  split at h
  · cases h
  · split at h
    · obtain ⟨r', worktree, heq⟩ := recordResult_eq sink w item
      unfold recordStep at h
      simp only [heq] at h
      split at h
      · next lease issue _ _ _ =>
          have hno := (recordWave_effects sink w { item with result := some r', worktree }
            lease issue r').1
          rcases hwave : recordWave sink w { item with result := some r', worktree } lease issue
            r' with ⟨effects, result, _ | e⟩
          · rw [hwave] at h hno
            exact hrecord _ _ _ hno h
          · rw [hwave] at h hno
            exact absurd h (hno k r)
      · exact hrecord _ _ _ (fun _ _ => List.not_mem_nil) h
    · split at h
      · cases h
      · split at h <;> cases h

/-! ## The invariant -/

/-- The item carries its wave lease, and the sink's log is in order. -/
structure Carrying (s : Coordinator) (i : ItemId) (lease : Checked WaveLease.postInit)
    (issue : Int) : Prop where
  born : i < s.allocated
  carries : (s.workItem i).payload.get? waveLeasePayload = some (.lease lease)
  ofIssue : (s.workItem i).issue = some issue
  stage : s.stageOf i ≠ .repo
  offered : (s.workItem i).payload.flag waveOutcomeRecordedKey = true →
    Offered s.sinkLog lease issue
  ordered : OfferedFirst s.sinkLog i lease issue

/-- What a move may do to the item and to the log. -/
theorem Carrying.extend (h : Carrying s i lease issue) {item : WorkItem}
    {effects : List SinkEffect} (hborn : s.allocated ≤ s'.allocated)
    (hitem : s'.workItem i = item)
    (hlease : item.payload.get? waveLeasePayload = some (.lease lease))
    (hissue : item.issue = some issue) (hstage : item.stage ≠ .repo)
    (hflag : item.payload.flag waveOutcomeRecordedKey = true →
      (s.workItem i).payload.flag waveOutcomeRecordedKey = true ∨ Offered effects lease issue)
    (hlog : s'.sinkLog = s.sinkLog ++ effects)
    (heffects : ∀ before result after, effects = before ++ .ledger i result :: after →
      Offered (s.sinkLog ++ before) lease issue) : Carrying s' i lease issue where
  born := h.born.trans_le hborn
  carries := hitem ▸ hlease
  ofIssue := hitem ▸ hissue
  stage := by
    rw [Coordinator.stageOf, hitem]
    exact hstage
  offered := by
    rw [hitem, hlog]
    intro hf
    rcases hflag hf with hold | hnew
    · exact (h.offered hold).mono (List.subset_append_left _ _)
    · exact hnew.mono (List.subset_append_right _ _)
  ordered := hlog.symm ▸ h.ordered.append heffects

/-- A write to the item's record that leaves lease, issue and flag alone. -/
theorem Carrying.record (h : Carrying s i lease issue) {item : WorkItem}
    (hborn : s.allocated ≤ s'.allocated) (hitem : s'.workItem i = item)
    (hlease : item.payload.get? waveLeasePayload =
      (s.workItem i).payload.get? waveLeasePayload)
    (hissue : item.issue = (s.workItem i).issue) (hstage : item.stage ≠ .repo)
    (hflag : item.payload.flag waveOutcomeRecordedKey =
      (s.workItem i).payload.flag waveOutcomeRecordedKey)
    (hlog : s'.sinkLog = s.sinkLog) : Carrying s' i lease issue := by
  refine h.extend hborn hitem (hlease.trans h.carries) (hissue.trans h.ofIssue) hstage
    (fun hf => .inl (hflag ▸ hf)) (hlog.trans (List.append_nil _).symm) fun _ _ _ heq => ?_
  simp at heq

theorem Carrying.congr (h : Carrying s i lease issue) (hborn : s.allocated ≤ s'.allocated)
    (hitem : s'.workItem i = s.workItem i) (hlog : s'.sinkLog = s.sinkLog) :
    Carrying s' i lease issue :=
  h.record hborn hitem rfl rfl h.stage rfl hlog

/-- The log grows by effects of another item. -/
theorem Carrying.log_ne (h : Carrying s i lease issue) {effects : List SinkEffect}
    (halloc : s'.allocated = s.allocated) (hitem : s'.workItem i = s.workItem i)
    (hlog : s'.sinkLog = s.sinkLog ++ effects) (hno : ∀ r, SinkEffect.ledger i r ∉ effects) :
    Carrying s' i lease issue := by
  refine h.extend halloc.ge hitem h.carries h.ofIssue h.stage .inl hlog
    fun before result after heq => ?_
  exact absurd (heq ▸ List.mem_append_right _ List.mem_cons_self) (hno result)

theorem publishHandoff_log {target : StageName} {enter : Bool} {result : Option ItemResult} :
    (s.publishHandoff j target enter result).sinkLog = s.sinkLog := by
  unfold Coordinator.publishHandoff Coordinator.activateHandoff Coordinator.transferPermit
  split <;> rfl

theorem Carrying.publish (h : Carrying s i lease issue) {target : StageName} {enter : Bool}
    (result : Option ItemResult) (hrepo : target ≠ .repo) :
    Carrying (s.publishHandoff j target enter result) i lease issue := by
  by_cases hij : i = j
  · subst hij
    refine h.record publishHandoff_allocated.ge publishHandoff_workItem_self
      (moveTo_get? _ _ _ (by decide) (by decide)) (moveTo_issue _ _ _) ?_
      (moveTo_flag _ _ _ (by decide) (by decide)) publishHandoff_log
    exact (moveTo_stage _ _ _).symm ▸ hrepo
  · exact h.congr publishHandoff_allocated.ge (publishHandoff_workItem_ne hij)
      publishHandoff_log

/-- The route that compacts the payload. -/
def detourOf (i : ItemId) : RouteEntry := ⟨i, .mergeWait, .finishPass, true⟩

theorem Move.routed (hm : Move host s s') : s.routed ⊆ s'.routed := by
  cases hm with
  | logRoute j outcome => exact List.subset_append_left _ _
  | admitNew _ _ _ _ ht _ =>
      rw [tryAcquireWorkPermit_eq ht]
      exact List.Subset.refl _
  | handoff _ _ _ => exact publishHandoff_routed.symm ▸ List.Subset.refl _
  | pair _ _ _ _ _ _ _ =>
      rw [publishHandoff_routed, publishHandoff_routed]
      exact List.Subset.refl _
  | complete handle auxiliary repo => cases auxiliary <;> exact List.Subset.refl _
  | retire _ _ _ =>
      unfold Coordinator.retired Coordinator.recordTerminalResult
      dsimp only
      split <;> exact List.Subset.refl _
  | _ => exact List.Subset.refl _

/-- Every move but the compaction keeps the invariant. -/
theorem Move.carrying (hm : Move host s s') (ho : Owned s) (hroute : detourOf i ∉ s.routed)
    (h : Carrying s i lease issue) : Carrying s' i lease issue := by
  -- A write to another item's record.
  have hother : ∀ {j item}, i ≠ j → (s.setItem j item).workItem i = s.workItem i :=
    fun hij => Function.update_of_ne hij _ _
  cases hm with
  | alloc new =>
      exact h.congr (Nat.le_succ _) (Function.update_of_ne h.born.ne _ _) rfl
  | idle pending shutdown sources => exact h.congr le_rfl rfl rfl
  | logRoute j outcome => exact h.congr le_rfl rfl rfl
  | admitNew halloc hseen hrec hfin ht hc =>
      rename_i t j
      rw [tryAcquireWorkPermit_eq ht]
      by_cases hij : i = j
      · subst hij
        -- `_push_item` may note the entry stage; nothing else is written.
        refine h.record le_rfl (Function.update_self _ _ _) ?_ ?_ ?_ ?_ rfl
        · split
          · exact moveTo_get? _ _ _ (by decide) (by decide)
          · exact (Dict.get?_set_ne _ _ (by decide)).trans
              (moveTo_get? _ _ _ (by decide) (by decide))
        · split <;> exact moveTo_issue _ _ _
        · split <;> exact (moveTo_stage _ _ _).symm ▸ h.stage
        · split
          · exact moveTo_flag _ _ _ (by decide) (by decide)
          · exact (Payload.flag_set_ne _ (by decide)).trans
              (moveTo_flag _ _ _ (by decide) (by decide))
      · exact h.congr le_rfl (Function.update_of_ne hij _ _) rfl
  | claim hslot => exact h.congr le_rfl rfl rfl
  | restore hh hl => exact h.congr le_rfl rfl rfl
  | pend hr => exact h.congr le_rfl rfl rfl
  | handoff hr hlane hc =>
      rename_i j l target enter result
      have hq : Carrying { s with queues := handedOff s.queues l target } i lease issue :=
        h.congr le_rfl rfl rfl
      exact hq.publish result hr.retains.notRepo
  | pair hne hj hk hcross hback hto hq =>
      rename_i j k l m target target' enter enter' result result' queues
      have hq : Carrying { s with queues } i lease issue := h.congr le_rfl rfl rfl
      exact (hq.publish result hj.retains.notRepo).publish result' hk.retains.notRepo
  | park wake hh hl => exact h.congr le_rfl rfl rfl
  | wake ht hc =>
      refine h.congr le_rfl ?_ rfl
      simp only [Coordinator.admitPushed, Coordinator.setItem, Coordinator.stageOf,
        Bool.false_eq_true, if_false, moveTo_same, Function.update_eq_self]
  | submit handle perRepo hh hq => exact h.congr le_rfl rfl rfl
  | submitAuxiliary handle hh hq => exact h.congr le_rfl rfl rfl
  | complete handle auxiliary repo => cases auxiliary <;> exact h.congr le_rfl rfl rfl
  | edit hh hp hk =>
      rename_i j item
      by_cases hij : i = j
      · subst hij
        have hflag : item.payload.flag waveOutcomeRecordedKey =
            (s.workItem i).payload.flag waveOutcomeRecordedKey := by
          unfold Payload.flag
          rw [hp.keys waveOutcomeRecordedKey (by decide)]
        exact h.record le_rfl (setItem_workItem_self item)
          ((hp.lease h.stage _ h.carries).trans h.carries.symm) hp.issue
          (hp.stage.symm ▸ h.stage) hflag rfl
      · exact h.congr le_rfl (hother hij) rfl
  | compact reason result hh hstage hintents hlog =>
      rename_i j
      by_cases hij : i = j
      · subst hij
        exact absurd hlog hroute
      · exact h.congr le_rfl (hother hij) rfl
  | sink w hh hstage =>
      rename_i j
      by_cases hij : i = j
      · subst hij
        obtain ⟨hcarries, hissue, hoffered, hledger⟩ :=
          finishedStep_wave (i := i) host.sink w h.stage h.carries h.ofIssue
        refine h.extend le_rfl (Function.update_self _ _ _) hcarries hissue ?_ hoffered rfl
          fun before result after heq => ?_
        · rw [(finishedStep_keeps host.sink w (s.workItem i)).stage]
          exact h.stage
        · rcases (hledger i before result after heq).2 with hold | hnew
          · exact (h.offered hold).mono (List.subset_append_left _ _)
          · exact hnew.mono (List.subset_append_right _ _)
      · refine h.log_ne rfl (Function.update_of_ne hij _ _) rfl fun r hmem => hij ?_
        exact finishedStep_ledger host.sink w _ hmem
  | poison result hh hstage hrec htried =>
      rename_i j
      by_cases hij : i = j
      · subst hij
        have hoffered : Offered s.sinkLog lease issue := htried lease issue h.carries h.ofIssue
        refine h.extend le_rfl (setItem_workItem_self _)
          ((Dict.get?_set_ne _ _ (by decide)).trans h.carries) h.ofIssue h.stage (fun hf => ?_)
          rfl fun before _ _ _ => hoffered.mono (List.subset_append_left _ _)
        exact .inl ((Payload.flag_set_ne _ (by decide)).symm.trans hf)
      · refine h.log_ne rfl (Function.update_of_ne hij _ _) rfl fun r hmem => hij ?_
        exact (SinkEffect.ledger.inj (List.mem_singleton.mp hmem)).1
  | retire hh hl hr =>
      rename_i j l
      obtain ⟨_, hrec, _⟩ := ho.leased_fresh hl
      unfold Coordinator.retired
      rw [recordTerminalResult_eq hr hrec]
      by_cases hij : i = j
      · subst hij
        exact h.record le_rfl (setItem_workItem_self _) (Dict.get?_set_ne _ _ (by decide)) rfl
          h.stage (Payload.flag_set_ne _ (by decide)) rfl
      · exact h.congr le_rfl (Function.update_of_ne hij _ _) rfl
  | vanish hh hl hsetup => exact h.congr le_rfl rfl rfl

/-! ## Runs -/

theorem Moves.routed (hm : Moves host s s') : s.routed ⊆ s'.routed := by
  induction hm with
  | refl => exact List.Subset.refl _
  | tail _ hm ih => exact List.Subset.trans ih hm.routed

theorem Moves.carrying (hm : Moves host s s') (hs : Sound host s)
    (hroute : detourOf i ∉ s'.routed) (h : Carrying s i lease issue) :
    Carrying s' i lease issue := by
  have hboth : Sound host s' ∧ Carrying s' i lease issue := by
    induction hm with
    | refl => exact ⟨hs, h⟩
    | tail _ hm ih =>
        have hbefore := fun hmem => hroute (hm.routed hmem)
        have hih := ih hbefore
        exact ⟨hm.sound hih.1, hm.carrying hih.1.owned hbefore hih.2⟩
  exact hboth.2

/-- The ledger knows of no item that has not been made yet. -/
def LedgerBorn (s : Coordinator) : Prop :=
  ∀ i r, SinkEffect.ledger i r ∈ s.sinkLog → i < s.allocated

theorem Move.ledgerBorn (hm : Move host s s') (ho : Owned s) (h : LedgerBorn s) :
    LedgerBorn s' := by
  have hborn : ∀ {i}, s.InHand i → i < s.allocated := by
    intro i hh
    by_contra hge
    exact ho.unborn i (Nat.not_lt.mp hge) (ho.inHand_seen hh)
  cases hm with
  | alloc new => exact fun i r hmem => (h i r hmem).trans (Nat.lt_succ_self _)
  | admitNew _ _ _ _ ht _ =>
      rw [tryAcquireWorkPermit_eq ht]
      exact h
  | handoff _ _ _ =>
      intro i r hmem
      rw [publishHandoff_log] at hmem
      rw [publishHandoff_allocated]
      exact h i r hmem
  | pair _ _ _ _ _ _ _ =>
      intro i r hmem
      rw [publishHandoff_log, publishHandoff_log] at hmem
      rw [publishHandoff_allocated, publishHandoff_allocated]
      exact h i r hmem
  | complete handle auxiliary repo => cases auxiliary <;> exact h
  | sink w hh hstage =>
      intro i r hmem
      rcases List.mem_append.mp hmem with hold | hnew
      · exact h i r hold
      · rw [finishedStep_ledger host.sink w _ hnew]
        exact hborn hh
  | poison result hh hstage hrec htried =>
      intro i r hmem
      rcases List.mem_append.mp hmem with hold | hnew
      · exact h i r hold
      · rw [(SinkEffect.ledger.inj (List.mem_singleton.mp hnew)).1]
        exact hborn hh
  | retire hh hl hr =>
      obtain ⟨_, hrec, _⟩ := ho.leased_fresh hl
      unfold Coordinator.retired
      rw [recordTerminalResult_eq hr hrec]
      exact h
  | _ => exact h

theorem Moves.ledgerBorn (hm : Moves host s s') (hs : Sound host s) (h : LedgerBorn s) :
    LedgerBorn s' := by
  have hboth : Sound host s' ∧ LedgerBorn s' := by
    induction hm with
    | refl => exact ⟨hs, h⟩
    | tail _ hm ih => exact ⟨hm.sound ih.1, hm.ledgerBorn ih.1.owned ih.2⟩
  exact hboth.2

/-- A new item with a wave lease, for some issue. -/
structure WaveItem (new : NewItem) (lease : Checked WaveLease.postInit) (issue : Int) : Prop where
  carries : new.item.payload.get? waveLeasePayload = some (.lease lease)
  ofIssue : new.item.issue = some issue
  stage : new.item.stage ≠ .repo

/-- A new item carries the lease it was made with. -/
theorem WaveItem.carrying {new : NewItem} (hn : WaveItem new lease issue) (hl : LedgerBorn s) :
    Carrying (s.alloc new.item) s.allocated lease issue := by
  have hitem : (s.alloc new.item).workItem s.allocated = new.item := Function.update_self _ _ _
  refine ⟨Nat.lt_succ_self _, hitem.symm ▸ hn.carries, hitem.symm ▸ hn.ofIssue, ?_, ?_, ?_⟩
  · rw [Coordinator.stageOf, hitem]
    exact hn.stage
  · rw [hitem, new.unrecorded waveOutcomeRecordedKey (by decide)]
    exact fun hf => absurd hf (by decide)
  · intro before result after heq
    have hmem : SinkEffect.ledger s.allocated result ∈ s.sinkLog := by
      rw [show s.sinkLog = _ from heq]
      exact List.mem_append_right _ List.mem_cons_self
    exact absurd (hl _ _ hmem) (lt_irrefl _)

/-- What a push event leaves of the item it made. -/
theorem push_carrying {new : NewItem} {deferIfFull : Bool} (hs : Sound host s)
    (hl : LedgerBorn s) (hn : WaveItem new lease issue)
    (hstep : s.step host (.push new deferIfFull) = some s')
    (hroute : detourOf s.allocated ∉ s'.routed) : Carrying s' s.allocated lease issue := by
  obtain rfl := Option.some.inj hstep
  have hpush := Command.wp_state (hs.push new deferIfFull)
  exact Moves.carrying hpush.moves ((Move.alloc new).sound hs) hroute (hn.carrying hl)

/-- The wave store has heard of every result of the item before the ledger,
and if the item is in the sink, its lease is still there to be seen. -/
structure WaveAccounted (s : Coordinator) (i : ItemId) (lease : Checked WaveLease.postInit)
    (issue : Int) : Prop where
  sees : s.stageOf i = .finished →
    (s.workItem i).payload.get? waveLeasePayload = some (.lease lease) ∧
      (s.workItem i).issue = some issue
  ordered : OfferedFirst s.sinkLog i lease issue

/-- A lease on the wave of issue 7. -/
def mergedLease : Checked WaveLease.postInit :=
  ⟨{ org := "HomericIntelligence", repo := "hephaestus", waveIndex := 0, limit := some 1,
     issueNumbers := [7], baseMainSha := "0123456789abcdef0123456789abcdef01234567",
     nonce := "n0" }, by decide⟩

/-- Issue 7 waiting for its merge. -/
def mergedItem (intents : List LearningIntent) : NewItem where
  item :=
    { repo := "hephaestus"
      kind := .issue
      issue := some 7
      pr := some 70
      stage := .mergeWait
      learningIntents := intents
      payload := [(waveLeasePayload, .lease mergedLease)] }
  unrecorded := by
    show ∀ key ∈ [summaryRecordedKey, recordedKey, waveOutcomeRecordedKey],
      Payload.flag [(waveLeasePayload, .lease mergedLease)] key = false
    decide
  settled := fun hfin => by cases hfin

theorem mergedItem_wave (intents : List LearningIntent) :
    WaveItem (mergedItem intents) mergedLease 7 := ⟨rfl, rfl, fun hrepo => by cases hrepo⟩

/-- The item is pushed, claimed and passes; with intents it goes on through
`LEARNING`. Then the sink runs. -/
def mergedRun (intents : List LearningIntent) : List (CoordinatorEvent Unit) :=
  let w : World Unit := { answers := fun _ => () }
  [.push (mergedItem intents) false, .claim .mergeWait 0, .route w 0 ⟨.finishPass, "merged"⟩,
    .claim .learning 0, .route w 0 ⟨.advance, ""⟩, .drain w .finished 0]

end Hephaestus.Pipeline
