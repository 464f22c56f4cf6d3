import Hephaestus.Proofs.TerminalAccounts

/-!
# When the exit code speaks for the whole run

`_exit_code` answers 1 exactly when a result of the last pass is counted in
another bucket than `pass`. What it should say is whether some logical item of
the run still fails: whether the latest result on record for it does not pass.
The two come apart in both directions. A failure of an earlier pass whose item
is not seeded again is forgotten, because the aggregate starts afresh with
every pass; and a failure that was made good later in the same pass is held
against the run, because the aggregate counts attempts and not items.

`Agrees` says exactly when they do not come apart. It is a condition on what
is on record when the run has ended.
-/

namespace Hephaestus.Pipeline

open Hephaestus.Lib

variable {ω : Type} {host : Host ω} {s : RunState} {i : ItemId}

/-! ## The aggregate -/

theorem record_passing (summary : TerminalSummary) (item : WorkItem) :
    ((summary.record item).dispositions.get? "pass").getD 0 =
      (summary.dispositions.get? "pass").getD 0 +
        if dispositionBucket item = "pass" then 1 else 0 := by
  unfold TerminalSummary.record
  by_cases hpass : dispositionBucket item = "pass"
  · rw [if_pos hpass, hpass, Dict.get?_set_self]
    rfl
  · rw [if_neg hpass, Dict.get?_set_ne _ _ hpass]
    rfl

/-- What the aggregate over a list of items comes to. -/
theorem foldl_record (record : ItemId → WorkItem) (l : List ItemId) (summary : TerminalSummary) :
    (l.foldl (fun summary i => summary.record (record i)) summary).total =
        summary.total + l.length ∧
      ((l.foldl (fun summary i => summary.record (record i)) summary).dispositions.get?
          "pass").getD 0 =
        (summary.dispositions.get? "pass").getD 0 +
          l.countP (fun i => decide (dispositionBucket (record i) = "pass")) := by
  induction l generalizing summary with
  | nil => exact ⟨rfl, rfl⟩
  | cons i l ih =>
      obtain ⟨htotal, hpassing⟩ := ih (summary.record (record i))
      rw [List.foldl_cons]
      refine ⟨?_, ?_⟩
      · rw [htotal, List.length_cons]
        show summary.total + 1 + l.length = _
        omega
      · rw [hpassing, record_passing, List.countP_cons]
        simp only [decide_eq_true_eq]
        omega

/-- The item's result is on record and does not pass. -/
def WorkItem.Failed (item : WorkItem) : Prop :=
  ∃ result, item.result = some result ∧ result.passed = false

/-- A failed item is not counted as passing. -/
theorem WorkItem.Failed.bucket {item : WorkItem} (h : item.Failed) :
    dispositionBucket item ≠ "pass" := by
  obtain ⟨result, hresult, hpassed⟩ := h
  have hcell : disposition item ≠ .pass := by
    unfold disposition
    rw [hresult]
    simp only [hpassed, Bool.false_eq_true, if_false]
    intro heq
    split at heq
    · cases heq
    · split at heq
      · cases heq
      · split at heq <;> cases heq
  unfold dispositionBucket
  cases hd : disposition item with
  | pass => exact absurd hd hcell
  | pending => simp
  | resumable stage => simp
  | skip => simp
  | blocked => simp
  | fail reason => simp

/-! ## What the exit code should say -/

namespace RunState

/-- No later record of the item's logical key, and this one does not pass. -/
def StillFails (s : RunState) (i : ItemId) : Prop :=
  IsLatest s.keyOf s.recorded i ∧ (s.coordinator.workItem i).Failed

/-- Counted in another bucket than `pass`. -/
def HeldAgainst (s : RunState) (i : ItemId) : Prop :=
  dispositionBucket (s.coordinator.workItem i) ≠ "pass"

/-- When the exit code speaks for the whole run. -/
structure Agrees (config : PipelineConfig) (s : RunState) : Prop where
  /-- An attempt of the last pass that is held against the run, though its item
  does not fail any more, does no harm if some other item does. -/
  superseded : ∀ i ∈ s.recordedThisPass, s.HeldAgainst i → ¬ s.StillFails i →
    ∃ j, s.StillFails j
  /-- An item that failed in an earlier pass and has not come up again is made
  up for by an attempt of the last. -/
  forgotten : s.recordedThisPass ≠ [] → ∀ j, s.StillFails j → j ∉ s.recordedThisPass →
    ∃ i ∈ s.recordedThisPass, s.HeldAgainst i
  /-- Where the last pass recorded nothing, some item that fails is among the
  retained ones. -/
  trimmed : s.recordedThisPass = [] → ∀ j, s.StillFails j →
    ∃ i ∈ lastN config.terminalDetailCapacity s.recorded, s.StillFails i
  /-- Where nothing is on record at all, the ledger has only passes. -/
  unrecorded : s.recorded = [] → ∀ result ∈ s.coordinator.ledger, result.passed = true

/-! ## What it says -/

/-- A pass that recorded something: the aggregate decides. -/
theorem exitCode_counted (hshutdown : s.coordinator.shutdown = false) (hfatal : s.fatal = false)
    (hpass : s.recordedThisPass ≠ []) :
    s.exitCode = 1 ↔ ∃ i ∈ s.recordedThisPass, s.HeldAgainst i := by
  obtain ⟨htotal, hpassing⟩ := foldl_record s.coordinator.workItem s.recordedThisPass {}
  have htotal : s.terminalSummary.total = s.recordedThisPass.length :=
    htotal.trans (Nat.zero_add _)
  have hpassing : (s.terminalSummary.dispositions.get? "pass").getD 0 =
      s.recordedThisPass.countP
        (fun i => decide (dispositionBucket (s.coordinator.workItem i) = "pass")) :=
    hpassing.trans (Nat.zero_add _)
  have hne : s.terminalSummary.total ≠ 0 := by
    rw [htotal]
    exact fun h => hpass (List.length_eq_zero_iff.mp h)
  unfold exitCode
  rw [hshutdown, hfatal, if_neg Bool.false_ne_true, if_neg Bool.false_ne_true, if_pos hne]
  simp only [hpassing, htotal]
  have hlt : s.recordedThisPass.countP
        (fun i => decide (dispositionBucket (s.coordinator.workItem i) = "pass")) <
        s.recordedThisPass.length ↔ ∃ i ∈ s.recordedThisPass, s.HeldAgainst i := by
    rw [lt_iff_le_and_ne, ne_eq, List.countP_eq_length]
    simp [List.countP_le_length, HeldAgainst]
  rw [← hlt]
  split <;> simp_all

/-- A pass that recorded nothing: the effective items do, or the ledger. -/
theorem exitCode_uncounted (hshutdown : s.coordinator.shutdown = false)
    (hfatal : s.fatal = false) (hpass : s.recordedThisPass = []) :
    s.exitCode =
      if (if s.effectiveItems.filterMap (fun i => (s.coordinator.workItem i).result) ≠ [] then
          s.effectiveItems.filterMap (fun i => (s.coordinator.workItem i).result)
        else s.coordinator.ledger).any (fun result => !result.passed) then 1 else 0 := by
  have htotal : s.terminalSummary.total = 0 := by
    unfold terminalSummary
    rw [hpass]
    rfl
  unfold exitCode
  rw [hshutdown, hfatal, if_neg Bool.false_ne_true, if_neg Bool.false_ne_true,
    if_neg (not_not.mpr htotal)]

/-- Of a run that has ended, the effective items are those retained whose
record is the latest. -/
theorem mem_effectiveItems (hitems : s.coordinator.items = lastN n s.recorded) :
    i ∈ s.effectiveItems ↔ i ∈ lastN n s.recorded ∧ IsLatest s.keyOf s.recorded i := by
  obtain ⟨before, hbefore⟩ : lastN n s.recorded <:+ s.recorded := lastN_suffix
  unfold effectiveItems
  rw [mem_latestBy, hitems]
  constructor
  · intro h
    refine ⟨h.mem, ?_⟩
    rw [← hbefore]
    exact (isLatest_append h.mem).mpr h
  · rintro ⟨hmem, h⟩
    rw [← hbefore] at h
    exact (isLatest_append hmem).mp h

/-- Some record is retained, so the ledger is not read. -/
theorem exitCode_details (hshutdown : s.coordinator.shutdown = false) (hfatal : s.fatal = false)
    (hpass : s.recordedThisPass = []) (hn : 0 < n)
    (hitems : s.coordinator.items = lastN n s.recorded)
    (hresults : ∀ i ∈ s.recorded, (s.coordinator.workItem i).result.isSome = true)
    (hrecorded : s.recorded ≠ []) :
    s.exitCode = 1 ↔ ∃ i ∈ lastN n s.recorded, s.StillFails i := by
  have hread : s.effectiveItems.filterMap (fun i => (s.coordinator.workItem i).result) ≠ [] := by
    -- The newest record is retained, and no later one has its key.
    obtain ⟨before, i, hlast⟩ := (List.eq_nil_or_concat s.recorded).resolve_left hrecorded
    rw [List.concat_eq_append] at hlast
    have hlatest : IsLatest s.keyOf s.recorded i := by
      rw [hlast]
      exact isLatest_concat.mpr (.inl rfl)
    have hmem : i ∈ lastN n s.recorded := by
      obtain ⟨m, rfl⟩ : ∃ m, n = m + 1 := ⟨n - 1, by omega⟩
      rw [hlast, lastN_concat]
      exact List.mem_append_right _ (List.mem_singleton_self i)
    obtain ⟨result, hresult⟩ := Option.isSome_iff_exists.mp (hresults i hlatest.mem)
    intro hnil
    have hin : result ∈
        s.effectiveItems.filterMap (fun i => (s.coordinator.workItem i).result) :=
      List.mem_filterMap.mpr ⟨i, (mem_effectiveItems hitems).mpr ⟨hmem, hlatest⟩, hresult⟩
    rw [hnil] at hin
    cases hin
  have hany : (s.effectiveItems.filterMap (fun i => (s.coordinator.workItem i).result)).any
      (fun result => !result.passed) = true ↔ ∃ i ∈ lastN n s.recorded, s.StillFails i := by
    simp only [List.any_eq_true, List.mem_filterMap, mem_effectiveItems hitems,
      Bool.not_eq_true']
    constructor
    · rintro ⟨result, ⟨i, ⟨hmem, hlatest⟩, hresult⟩, hpassed⟩
      exact ⟨i, hmem, hlatest, result, hresult, hpassed⟩
    · rintro ⟨i, hmem, hlatest, result, hresult, hpassed⟩
      exact ⟨result, ⟨i, ⟨hmem, hlatest⟩, hresult⟩, hpassed⟩
  rw [exitCode_uncounted hshutdown hfatal hpass, if_pos hread, ← hany]
  split <;> simp_all

/-- Nothing was ever recorded. -/
theorem exitCode_ledger (hshutdown : s.coordinator.shutdown = false) (hfatal : s.fatal = false)
    (hitems : s.coordinator.items = []) (hrecorded : s.recorded = []) :
    s.exitCode = 1 ↔ ∃ result ∈ s.coordinator.ledger, result.passed = false := by
  have hpass : s.recordedThisPass = [] := by
    unfold recordedThisPass
    rw [hrecorded, List.drop_nil]
  have hread : s.effectiveItems.filterMap (fun i => (s.coordinator.workItem i).result) = [] := by
    unfold effectiveItems
    rw [hitems]
    rfl
  rw [exitCode_uncounted hshutdown hfatal hpass, if_neg (not_not.mpr hread)]
  have hany : s.coordinator.ledger.any (fun result => !result.passed) = true ↔
      ∃ result ∈ s.coordinator.ledger, result.passed = false := by
    simp only [List.any_eq_true, Bool.not_eq_true']
  rw [← hany]
  split <;> simp_all

/-- Nothing is live once everything is idle. -/
theorem allIdle_seen (ho : Owned s.coordinator) (hidle : s.coordinator.allIdle = true) :
    s.coordinator.seenItemIds = ∅ := by
  simp only [Coordinator.allIdle, Bool.and_eq_true, List.all_eq_true, List.isEmpty_iff] at hidle
  obtain ⟨⟨⟨⟨⟨⟨hqueues, htimers⟩, _⟩, _⟩, hleases⟩, _⟩, _⟩ := hidle
  refine Finset.eq_empty_of_forall_notMem fun i hi => ?_
  have honce := (ho.heldOnce hi).once
  have hready : s.coordinator.readySlots i = 0 := by
    have hnone : pipelineOrder.map (fun st => (s.coordinator.queues st).snapshot.count i) =
        pipelineOrder.map (fun _ => 0) := by
      refine List.map_congr_left fun st hst => ?_
      unfold StageQueue.snapshot
      rw [hqueues st hst]
      rfl
    unfold Coordinator.readySlots
    rw [hnone]
    rfl
  have hlease : s.coordinator.leaseCount i = 0 := by
    unfold Coordinator.leaseCount
    rw [hleases]
    rfl
  have htimer : timerCount s.coordinator.timers i = 0 := by
    rw [htimers]
    rfl
  omega

/-! ## Where the two agree -/

variable {config : PipelineConfig}

theorem agrees_of_counted (hpass : s.recordedThisPass ≠ []) :
    ((∃ i ∈ s.recordedThisPass, s.HeldAgainst i) ↔ ∃ i, s.StillFails i) ↔ s.Agrees config := by
  have hrecorded : s.recorded ≠ [] := by
    intro hnil
    refine hpass ?_
    unfold recordedThisPass
    rw [hnil, List.drop_nil]
  constructor
  · intro hagree
    exact ⟨fun i hi hheld _ => hagree.mp ⟨i, hi, hheld⟩, fun _ j hj _ => hagree.mpr ⟨j, hj⟩,
      fun h => absurd h hpass, fun h => absurd h hrecorded⟩
  · intro hagree
    constructor
    · rintro ⟨i, hi, hheld⟩
      by_cases hfails : s.StillFails i
      · exact ⟨i, hfails⟩
      · exact hagree.superseded i hi hheld hfails
    · rintro ⟨j, hj⟩
      by_cases hmem : j ∈ s.recordedThisPass
      · exact ⟨j, hmem, hj.2.bucket⟩
      · exact hagree.forgotten hpass j hj hmem

theorem agrees_of_details (hpass : s.recordedThisPass = []) (hrecorded : s.recorded ≠ []) :
    ((∃ i ∈ lastN config.terminalDetailCapacity s.recorded, s.StillFails i) ↔
      ∃ i, s.StillFails i) ↔ s.Agrees config := by
  constructor
  · intro hagree
    refine ⟨fun i hi => ?_, fun h => absurd hpass h, fun _ j hj => hagree.mpr ⟨j, hj⟩,
      fun h => absurd h hrecorded⟩
    rw [hpass] at hi
    cases hi
  · intro hagree
    constructor
    · rintro ⟨i, _, hi⟩
      exact ⟨i, hi⟩
    · rintro ⟨j, hj⟩
      exact hagree.trimmed hpass j hj

theorem agrees_of_ledger (hrecorded : s.recorded = []) :
    ((∃ result ∈ s.coordinator.ledger, result.passed = false) ↔ ∃ i, s.StillFails i) ↔
      s.Agrees config := by
  have hnone : s.recordedThisPass = [] := by
    unfold recordedThisPass
    rw [hrecorded, List.drop_nil]
  have hnobody : ∀ i, ¬ s.StillFails i := by
    intro i h
    have hmem := h.1.mem
    rw [hrecorded] at hmem
    cases hmem
  constructor
  · intro hagree
    refine ⟨fun i hi => ?_, fun h => absurd hnone h, fun _ j hj => absurd hj (hnobody j),
      fun _ result hmem => ?_⟩
    · rw [hnone] at hi
      cases hi
    · by_contra hfails
      obtain ⟨i, hi⟩ := hagree.mp ⟨result, hmem, by simpa using hfails⟩
      exact hnobody i hi
  · intro hagree
    constructor
    · rintro ⟨result, hmem, hfails⟩
      rw [hagree.unrecorded hrecorded result hmem] at hfails
      cases hfails
    · rintro ⟨i, hi⟩
      exact absurd hi (hnobody i)

end RunState

/-- An issue that comes in with its result. -/
def settledIssue (number : Int) (passed : Bool) : NewItem where
  item :=
    { repo := "hephaestus"
      kind := .issue
      issue := some number
      stage := .finished
      result := some
        { passed, reason := if passed then "merged" else "ci_red", finalStage := .mergeWait } }
  unrecorded := fun _ _ => rfl
  settled := fun _ => rfl

/-- It goes through the sink as item `i`. -/
def settles (i : ItemId) (number : Int) (passed : Bool) : List (RunEvent Unit) :=
  [.coordinator (.push (settledIssue number passed) false), .coordinator (.claim .finished 0),
    .coordinator (.runItem { answers := fun _ => () } i)]

end Hephaestus.Pipeline
