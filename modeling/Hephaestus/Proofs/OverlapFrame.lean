import Hephaestus.Proofs.OverlapProgress
import Hephaestus.Proofs.Steps
import Hephaestus.Proofs.TerminalAccounts
import Hephaestus.Proofs.Touches

/-!
# What an overlap selection leaves alone

A selection notes its findings in the payloads, under three keys, and it does
so for items nobody has in hand. None of the coordinator's invariants looks at
these keys. A candidate whose plan cannot be read is taken out of the queue on
the way and finished, parked or put on the timer heap; it had no reservation
before and has none after, and the other items stay listed with the records
they have.
-/

namespace Hephaestus.Pipeline

open Hephaestus.Lib Hephaestus.Lib.Command

variable {ω : Type} {host : Host ω} {s t u : Coordinator} {i j : ItemId}

/-! ## Notes in the payloads -/

instance : IsPreorder WorkItem Noted where
  refl := Noted.refl
  trans := fun _ _ _ => Noted.trans

section Records

variable {a b : WorkItem}

theorem Noted.stage (h : Noted a b) : b.stage = a.stage := by rw [h.eq]

theorem Noted.result (h : Noted a b) : b.result = a.result := by rw [h.eq]

theorem Noted.issue (h : Noted a b) : b.issue = a.issue := by rw [h.eq]

theorem Noted.flag (h : Noted a b) {key : String} (hkey : key ∉ overlapKeys) :
    b.payload.flag key = a.payload.flag key := by
  rw [Payload.flag, h.keys key hkey, Payload.flag]

end Records

/-! ## Consistent states -/

/-- What holds of the coordinator in every run. -/
structure Consistent (host : Host ω) (s : Coordinator) : Prop where
  sound : Sound host s
  accounted : Accounted host.config s

theorem Consistent.moves (h : Consistent host s) (hm : Moves host s t) (hs : Sound host t) :
    Consistent host t :=
  ⟨hs, (Moves.accounted hm h.sound h.accounted).1⟩

theorem Reached.consistent (hr : Reached host s t) (h : Consistent host s) : Consistent host t :=
  h.moves hr.moves hr.sound

/-- Every reachable state is consistent. -/
theorem run_consistent {tr : List (Transition Coordinator (CoordinatorEvent ω))}
    (hrun : Run (Coordinator.step host) (.initial host.config) tr s) : Consistent host s :=
  hrun.invariant (Consistent host) ⟨initial_sound host, (initial_accounts host).accounted⟩
    fun _ _ _ h hs => (Coordinator.step_reached h.sound hs).consistent h

/-- A listed item without a result is live. -/
theorem Consistent.live (h : Consistent host s) (hj : j ∈ s.items)
    (hnone : (s.workItem j).result = none) : (s.workItem j).summaryRecorded = false := by
  by_contra hrec
  rw [Bool.not_eq_false] at hrec
  have hrecorded := h.accounted.recorded j (h.accounted.mem_terminalSummary hj hrec)
  rw [Recorded, hnone] at hrecorded
  cases hrecorded.1

/-- The invariants do not look at the keys of a selection. -/
theorem Consistent.noted {f : ItemId → WorkItem} (h : Consistent host s)
    (hf : ∀ j, Noted (s.workItem j) (f j)) : Consistent host { s with workItem := f } := by
  have hstage : ∀ j, (f j).stage = (s.workItem j).stage := fun j => (hf j).stage
  have hrecorded : ∀ j, (f j).summaryRecorded = (s.workItem j).summaryRecorded :=
    fun j => (hf j).flag (by decide)
  have hview : ∀ j, ({ s with workItem := f } : Coordinator).view j = s.view j := by
    intro j
    simp only [Coordinator.view, Coordinator.stageOf, hstage, (hf j).result, hrecorded]
    rfl
  refine ⟨⟨⟨fun j => ?_, h.sound.owned.fits, h.sound.owned.unborn⟩, ?_, ?_, h.sound.keyed⟩, ?_⟩
  · rw [hview]
    exact h.sound.owned.held j
  · exact h.sound.permitted.congr rfl rfl rfl fun j _ => hstage j
  · intro j hj hfin hrec
    have hflag : (f j).payload.flag recordedKey = (s.workItem j).payload.flag recordedKey :=
      (hf j).flag (by decide)
    obtain ⟨hflights, hstate⟩ := h.sound.sinking j hj ((hstage j).symm.trans hfin)
      (hflag.symm.trans hrec)
    refine ⟨hflights, ?_⟩
    have hsame : (f j).state = (s.workItem j).state := by rw [(hf j).eq]
    dsimp only
    rw [hsame]
    exact hstate
  · refine ⟨h.accounted.nodup, h.accounted.tracked, fun j hj hrec => ?_, fun j hj => ?_,
      h.accounted.born, ?_⟩
    · exact h.accounted.live j hj ((hrecorded j).symm.trans hrec)
    · obtain ⟨hresult, hrec, hmem⟩ := h.accounted.recorded j hj
      exact ⟨by rw [(hf j).result]; exact hresult, (hrecorded j).trans hrec, hmem⟩
    · rw [← h.accounted.window]
      exact List.filter_congr fun j _ => hrecorded j

theorem Consistent.setItem (h : Consistent host s) {item : WorkItem}
    (hitem : Noted (s.workItem j) item) : Consistent host (s.setItem j item) := by
  refine h.noted (f := Function.update s.workItem j item) fun k => ?_
  by_cases hk : k = j
  · subst hk
    rw [Function.update_self]
    exact hitem
  · rw [Function.update_of_ne hk]
    exact refl _

/-! ## Letting a candidate go -/

/-- The item was let go: it has no reservation it did not have, it is under
review only if it was, and the others are where they were. -/
structure Yields (i : ItemId) (s t : Coordinator) : Prop where
  others : ∀ k, k ≠ i → t.workItem k = s.workItem k
  listed : ∀ k, k ≠ i → (s.workItem k).summaryRecorded = false → (k ∈ t.items ↔ k ∈ s.items)
  claims : (s.workItem i).fileClaims? = none → (t.workItem i).fileClaims? = none
  blocked : (s.workItem i).blockedClaims? = none → (t.workItem i).blockedClaims? = none
  realizes : (t.workItem i).stage.realizesDiff = true → (s.workItem i).stage.realizesDiff = true

instance (i : ItemId) : IsPreorder Coordinator (Yields i) where
  refl := fun _ => ⟨fun _ _ => rfl, fun _ _ _ => Iff.rfl, id, id, id⟩
  trans := fun _ _ _ h h' =>
    { others := fun k hk => (h'.others k hk).trans (h.others k hk)
      listed := fun k hk hrec => (h'.listed k hk ((h.others k hk).symm ▸ hrec)).trans
        (h.listed k hk hrec)
      claims := h'.claims ∘ h.claims
      blocked := h'.blocked ∘ h.blocked
      realizes := h.realizes ∘ h'.realizes }

/-- What a write to the record must keep. -/
structure Yielding (a b : WorkItem) : Prop where
  claims : a.fileClaims? = none → b.fileClaims? = none
  blocked : a.blockedClaims? = none → b.blockedClaims? = none
  realizes : b.stage.realizesDiff = true → a.stage.realizesDiff = true

theorem Yielding.of_eq {a b : WorkItem} (hpayload : b.payload = a.payload)
    (hstage : b.stage = a.stage) : Yielding a b where
  claims := by
    unfold WorkItem.fileClaims?
    rw [hpayload]
    exact id
  blocked := by
    unfold WorkItem.blockedClaims?
    rw [hpayload]
    exact id
  realizes := by
    rw [hstage]
    exact id

theorem Yielding.setPayload (a : WorkItem) {key : String} (value : PayloadValue)
    (hkey : key ∉ overlapKeys) : Yielding a (a.setPayload key value) where
  claims := by
    have hne : key ≠ implementationFileClaimsPayload := by
      rintro rfl
      exact hkey (by decide)
    rw [fileClaims?_set_ne a value hne]
    exact id
  blocked := by
    have hne : key ≠ fileOverlapBlockedClaimsKey := by
      rintro rfl
      exact hkey (by decide)
    unfold WorkItem.blockedClaims? WorkItem.setPayload
    rw [Dict.get?_set_ne _ _ hne]
    exact id
  realizes := id

theorem Yielding.popPayload (a : WorkItem) (key : String) : Yielding a (a.popPayload key) where
  claims := by
    intro h
    unfold WorkItem.fileClaims? WorkItem.popPayload
    rw [Dict.get?_erase]
    by_cases hkey : implementationFileClaimsPayload = key
    · rw [if_pos hkey]
    · rw [if_neg hkey]
      exact h
  blocked := by
    intro h
    unfold WorkItem.blockedClaims? WorkItem.popPayload
    rw [Dict.get?_erase]
    by_cases hkey : fileOverlapBlockedClaimsKey = key
    · rw [if_pos hkey]
    · rw [if_neg hkey]
      exact h
  realizes := id

theorem Yielding.trans {a b c : WorkItem} (h : Yielding a b) (h' : Yielding b c) : Yielding a c :=
  ⟨h'.claims ∘ h.claims, h'.blocked ∘ h.blocked, h.realizes ∘ h'.realizes⟩

theorem Yields.of_setItem {item : WorkItem} (hitems : t.workItem = (s.setItem i item).workItem)
    (h : Yielding (s.workItem i) item) (hlist : t.items = s.items) : Yields i s t where
  others := fun k hk => by rw [hitems, setItem_workItem_ne _ hk]
  listed := fun k _ _ => by rw [hlist]
  claims := by
    rw [hitems, setItem_workItem_self]
    exact h.claims
  blocked := by
    rw [hitems, setItem_workItem_self]
    exact h.blocked
  realizes := by
    rw [hitems, setItem_workItem_self]
    exact h.realizes

theorem Yields.books (hitems : t.workItem = s.workItem) (hlist : t.items = s.items) :
    Yields i s t :=
  .of_setItem (hitems.trans (congrArg Coordinator.workItem setItem_workItem.symm))
    (.of_eq rfl rfl) hlist

theorem yields_editItem {f : WorkItem → WorkItem} (h : ∀ item, Yielding item (f item)) :
    (editItem i f).Along (Yields i) s :=
  Along.modify (.of_setItem rfl (h _) rfl)

theorem yields_onQueues {α : Type} (c : QueueCommand StageName α) :
    (onQueues c).Along (Yields i) s :=
  .get_bind ((Along.set (.books rfl rfl)).bind fun _ _ => .attempt _)

theorem yields_lookup {κ ν : Type} [DecidableEq κ] (d : Dict κ ν) (k : κ) :
    (lookup d k).Along (Yields i) s := by
  unfold lookup
  split
  · exact .pure _
  · exact .throw _

theorem yields_takeLease : (takeLease i).Along (Yields i) s :=
  .get_bind ((Along.set (.books rfl rfl)).bind fun _ _ => .pure _)

theorem yields_restoreSourceLease : (restoreSourceLease i).Along (Yields i) s := by
  refine yields_takeLease.bind fun lease t => ?_
  cases lease with
  | none => exact .pure _
  | some lease => exact (yields_onQueues _).bind fun _ _ => .pure _

theorem yields_releaseSourceLease : (releaseSourceLease i).Along (Yields i) s := by
  refine yields_takeLease.bind fun lease t => ?_
  cases lease with
  | none => exact .pure _
  | some lease => exact (yields_onQueues _).bind fun _ _ => .pure _

theorem yields_claimItem (stage : StageName) (index : Nat) :
    (claimItem stage index).Along (Yields i) s := by
  unfold claimItem
  refine .get_bind ?_
  split
  · exact .pure _
  · refine (Along.set (.books rfl rfl)).bind fun _ t => ?_
    split
    · exact (yields_onQueues _).bind fun _ _ => .throw _
    · exact (Along.modify (.books rfl rfl)).bind fun _ _ => .pure _

theorem yields_claimSelected : (claimSelectedImplementationItem i).Along (Yields i) s := by
  unfold claimSelectedImplementationItem
  refine .get_bind ?_
  dsimp only
  split
  · refine (yields_claimItem _ _).bind fun claimed t => ?_
    split
    · exact .throw _
    · exact .pure _
  · exact .pure _

theorem Yielding.clearFileClaimsOnExit (a : WorkItem) (target : StageName) :
    Yielding a (a.clearFileClaimsOnExit target) := by
  unfold WorkItem.clearFileClaimsOnExit
  split
  · exact .popPayload a _
  · exact .of_eq rfl rfl

/-- In the sink nobody is under review. -/
theorem Yielding.moveTo_finished (a : WorkItem) (enter : Bool) (result : Option ItemResult) :
    Yielding a { a.moveTo .finished enter with result := result } := by
  have hclear := Yielding.clearFileClaimsOnExit a .finished
  have hexit : Yielding a { a.clearFileClaimsOnExit .finished with stage := .finished } :=
    ⟨hclear.claims, hclear.blocked, nofun⟩
  unfold WorkItem.moveTo
  dsimp only
  split
  · set entered := { a.clearFileClaimsOnExit .finished with
      stage := StageName.finished, state := "ENTER" }
    have henter : Yielding a entered := hexit.trans (.of_eq rfl rfl)
    exact (henter.trans (.setPayload entered (.bool true)
      (by decide : enterPendingKey ∉ overlapKeys))).trans (.of_eq rfl rfl)
  · exact hexit.trans (.of_eq rfl rfl)

theorem Yields.publishFinished (enter : Bool) (result : Option ItemResult) :
    Yields i s (s.publishHandoff i .finished enter result) := by
  have hitems : (s.publishHandoff i .finished enter result).workItem =
      (s.setItem i { (s.workItem i).moveTo .finished enter with
        result := result.orElse fun _ => (s.workItem i).result }).workItem := by
    funext k
    by_cases hk : k = i
    · subst hk
      rw [publishHandoff_workItem_self, setItem_workItem_self]
    · rw [publishHandoff_workItem_ne hk, setItem_workItem_ne _ hk]
  exact .of_setItem hitems (.moveTo_finished _ _ _) publishHandoff_items

theorem yields_handoffFinished (config : PipelineConfig) (enter : Bool)
    (result : Option ItemResult) :
    (handoffItem config i .finished enter result).Along (Yields i) s := by
  refine .get_bind ((yields_lookup _ _).bind fun lease t => ?_)
  split
  · split
    · exact .throw _
    · exact yields_restoreSourceLease
  · extract_lets pending next
    have hnext : ∀ accepted u, (next accepted).Along (Yields i) u := by
      intro accepted u
      dsimp only [next]
      split
      · exact (Along.modify (.publishFinished _ _)).bind fun _ _ => .pure _
      · split
        · exact (Along.modify (.books rfl rfl)).bind fun _ _ => .pure _
        · split
          · exact .throw _
          · exact .pure _
    split
    · exact (yields_onQueues _).bind hnext
    · exact (Along.pure _).bind hnext

/-- Of the others, only recorded ones are taken off the list. -/
theorem mem_retain_of_unrecorded (config : PipelineConfig) (hji : j ≠ i)
    (hrec : (s.workItem j).summaryRecorded = false) :
    j ∈ s.retain config i ↔ j ∈ s.items := by
  unfold Coordinator.retain
  dsimp only
  have hkeep : j ∉ (if s.items.contains i = true then [i] else []) := by
    split
    · simpa using hji
    · exact List.not_mem_nil
  have hkept : ∀ n, (!(((s.items.erase i).filter
      fun j => (s.workItem j).summaryRecorded).take n).contains j) = true := by
    intro n
    rw [Bool.not_eq_true', ← Bool.not_eq_true, List.contains_iff_mem]
    intro hmem
    have hrecorded := (List.mem_filter.mp (List.mem_of_mem_take hmem)).2
    rw [hrec] at hrecorded
    cases hrecorded
  rw [List.mem_append, or_iff_left hkeep, List.mem_filter, and_iff_left (hkept _)]
  exact List.mem_erase_of_ne hji

theorem Yields.recordTerminalResult (config : PipelineConfig) :
    Yields i s (s.recordTerminalResult config i) := by
  unfold Coordinator.recordTerminalResult
  dsimp only
  split
  · exact refl s
  · have hset : Yields i s (s.setItem i ((s.workItem i).setPayload summaryRecordedKey
        (.bool true))) := .of_setItem rfl (.setPayload _ _ (by decide)) rfl
    refine ⟨hset.others, fun k hk hrec => ?_, hset.claims, hset.blocked, hset.realizes⟩
    refine mem_retain_of_unrecorded config hk ?_
    rw [setItem_workItem_ne _ hk]
    exact hrec

theorem yields_timerPark (now delay : ℚ) : (timerPark now i delay).Along (Yields i) s :=
  yields_releaseSourceLease.bind fun _ _ => .modify (.books rfl rfl)

theorem yields_parkResumable (config : PipelineConfig) :
    (parkResumable config i).Along (Yields i) s := by
  unfold parkResumable
  refine yields_releaseSourceLease.bind fun _ t => ?_
  refine Along.bind (yields_editItem fun _ => .of_eq rfl rfl) fun _ u => ?_
  exact .modify (IsTrans.trans _ _ _ (Yields.recordTerminalResult config) (.books rfl rfl))

theorem yields_letGo : (letGo i).Along (Yields i) s :=
  yields_releaseSourceLease.bind fun _ _ => .modify (.books rfl rfl)

theorem yields_finish (passed : Bool) (reason : String) :
    (finish host i passed reason).Along (Yields i) s := by
  have hscope : ∀ t : Coordinator, Yields i t
      (if t.stageOf i = .repo ∧ (t.workItem i).payload.flag directScopeBootstrapKey then
        { t with directScopeBootstrapPending := false }
      else t) := by
    intro t
    split
    · exact .books rfl rfl
    · exact refl t
  have hledger : ∀ (t : Coordinator) (result : ItemResult), Yields i t
      (if (t.workItem i).payload.flag recordedKey then t
      else
        { t.setItem i ((t.workItem i).setPayload recordedKey (.bool true)) with
          ledger := t.ledger ++ [result]
          sinkLog := t.sinkLog ++ [.ledger i result] }) := by
    intro t result
    split
    · exact refl t
    · exact .of_setItem rfl (.setPayload _ _ (by decide)) rfl
  refine (Along.modify (hscope s)).bind fun _ t => .get_bind ?_
  dsimp only
  split
  · refine Along.bind (yields_editItem fun _ => .of_eq rfl rfl) fun _ u => ?_
    refine (Along.modify (hledger u _)).bind fun _ v => ?_
    exact (Along.modify (.recordTerminalResult _)).bind fun _ _ => yields_letGo
  · exact (yields_handoffFinished _ _ _).bind fun _ _ => .pure _

theorem yields_routeRetry (w : World ω) (outcome : StageOutcome) :
    (routeRetry host w i outcome).Along (Yields i) s := by
  unfold routeRetry
  refine .get_bind (Along.bind (yields_editItem fun _ => .popPayload _ _) fun _ t => ?_)
  split
  · refine yields_restoreSourceLease.bind fun done u => ?_
    split
    · exact .pure _
    · exact .throw _
  · split
    · exact yields_finish _ _
    · exact yields_timerPark _ _

theorem yields_deferImplementationPlanRead (w : World ω) (message : String) :
    (deferImplementationPlanRead host w i message).Along (Yields i) s := by
  unfold deferImplementationPlanRead
  refine .get_bind ?_
  split
  · exact yields_parkResumable _
  · dsimp only
    refine Along.bind (yields_editItem fun _ => .of_eq rfl rfl) fun _ t => ?_
    split
    · exact yields_finish _ _
    · refine Along.bind (yields_editItem fun _ => .setPayload _ _ (by decide)) fun _ u => ?_
      exact yields_routeRetry _ _

theorem yields_finishSelected (passed : Bool) (reason : String) :
    (finishSelected host i passed reason).Along (Yields i) s := by
  unfold finishSelected
  refine yields_claimSelected.bind fun claimed t => ?_
  split
  · exact yields_finish _ _
  · exact .pure _

theorem yields_deferSelected (w : World ω) (message : String) :
    (deferSelected host w i message).Along (Yields i) s := by
  unfold deferSelected
  refine yields_claimSelected.bind fun claimed t => ?_
  split
  · exact yields_deferImplementationPlanRead _ _
  · exact .pure _

end Hephaestus.Pipeline
