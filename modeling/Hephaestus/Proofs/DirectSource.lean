import Hephaestus.Pipeline.DirectSource
import Hephaestus.Proofs.DrainPass
import Hephaestus.Proofs.OverlapRound

/-!
# Where the explicit issues are

Over any run, with any answers of GitHub and whatever the coordinator does between the
drains, an issue of the source is in it still, or has met exactly one fate. What was pushed
the coordinator keeps, and what failed is on record. Only a drain that raises loses an
issue: the one it was classifying.
-/

namespace Hephaestus.Pipeline

open Hephaestus.Lib Hephaestus.Lib.Command

variable {ω : Type} {host : Host ω}

/-! ## What the coordinator keeps -/

/-- The state is consistent, and no item is lost on the way to it. -/
structure Stays (host : Host ω) (s t : Coordinator) : Prop where
  consistent : Consistent host t
  kept : ∀ i, Kept s i → Kept t i
  recorded : ∀ i, Recorded s i → Recorded t i

section Stays

variable {s t u : Coordinator}

theorem Stays.refl (h : Consistent host s) : Stays host s s := ⟨h, fun _ => id, fun _ => id⟩

theorem Stays.trans (h : Stays host s t) (h' : Stays host t u) : Stays host s u :=
  ⟨h'.consistent, fun i hi => h'.kept i (h.kept i hi), fun i hi => h'.recorded i (h.recorded i hi)⟩

theorem Extends.recorded (h : Extends s t) {i : ItemId} (hi : Recorded s i) : Recorded t i := by
  obtain ⟨hresult, hrec, hmem⟩ := hi
  unfold Recorded
  rw [h.frozen i hmem]
  exact ⟨hresult, hrec, h.summary.subset hmem⟩

theorem Reached.stays (hr : Reached host s t) (h : Consistent host s) : Stays host s t where
  consistent := hr.consistent h
  kept := fun _ hi => Moves.kept hr.moves h.sound hi
  recorded := fun _ hi => (Moves.accounted hr.moves h.sound h.accounted).2.recorded hi

theorem Consistent.stays_noted {f : ItemId → WorkItem} (h : Consistent host s)
    (hf : ∀ j, Noted (s.workItem j) (f j)) : Stays host s { s with workItem := f } := by
  have hrecorded : ∀ i, Recorded s i → Recorded { s with workItem := f } i := by
    intro i hi
    obtain ⟨hresult, hrec, hmem⟩ := hi
    refine ⟨?_, ?_, hmem⟩
    · show (f i).result.isSome = true
      rw [(hf i).result]
      exact hresult
    · exact ((hf i).flag (by decide)).trans hrec
  refine ⟨h.noted hf, fun i hi => ⟨hi.allocated, ?_⟩, hrecorded⟩
  rcases hi.kept with hseen | hrec | hsetup
  · exact .inl hseen
  · exact .inr (.inl (hrecorded i hrec))
  · refine .inr (.inr ?_)
    show (f i).SetupDone
    have heq := (hf i).eq
    have hflag : (f i).payload.flag directScopeBootstrapKey = _ := (hf i).flag (by decide)
    rcases hsetup with ⟨hstage, hset⟩ | ⟨hkind, hstate⟩
    · exact .inl ⟨(hf i).stage.trans hstage, hflag.trans hset⟩
    · refine .inr ⟨?_, ?_⟩
      · rw [heq]
        exact hkind
      · rw [heq]
        exact hstate

theorem Refreshes.stays {org : String} (h : Refreshes org s t) (hs : Consistent host s) :
    Stays host s t := by
  rw [h.books]
  exact hs.stays_noted fun j => (h.records j).noted

theorem Consistent.stays_setItem (h : Consistent host s) {i : ItemId} {item : WorkItem}
    (hitem : Noted (s.workItem i) item) : Stays host s (s.setItem i item) := by
  refine h.stays_noted (f := Function.update s.workItem i item) fun k => ?_
  by_cases hk : k = i
  · subst hk
    rw [Function.update_self]
    exact hitem
  · rw [Function.update_of_ne hk]
    exact Noted.refl _

/-- A failure to classify goes on record. -/
theorem Consistent.stays_failed (h : Consistent host s) (repo : String) (issue : Option Int)
    (reason : String) :
    Stays host s (s.recordFailedSource host.config (failedSource repo issue reason))
      ∧ Recorded (s.recordFailedSource host.config (failedSource repo issue reason)) s.allocated := by
  have hunseen := h.sound.owned.unborn s.allocated le_rfl
  obtain ⟨ha, hx⟩ := h.accounted.failedSource h.sound.owned (failedSource repo issue reason) rfl rfl
  have hfailed : (failedSource repo issue reason).result.isSome = true := rfl
  obtain ⟨items, ledger, heq⟩ := recordFailedSource_alloc host.config hunseen hfailed rfl
  have hlast : s.allocated
      ∈ (s.recordFailedSource host.config (failedSource repo issue reason)).terminalSummary := by
    rw [heq]
    exact List.mem_append_right _ (List.mem_singleton_self _)
  refine ⟨⟨⟨h.sound.failedSource rfl rfl, ha⟩, fun i hi => ?_, fun i hi => hx.recorded hi⟩,
    ha.recorded _ hlast⟩
  rw [heq]
  refine hi.frame (Nat.le_succ _) id (fun _ => ?_) (List.subset_append_left _ _)
  exact Function.update_of_ne (Nat.ne_of_lt hi.allocated) _ _

end Stays

/-! ## The commands of the drain -/

/-- Every issue is in the source, in hand, or has met its fate. -/
structure Traced (host : Host ω) (all held : List Int) (s : DirectState) : Prop where
  consistent : Consistent host s.coordinator
  issues : all.Perm (held ++ s.issues ++ s.fates.map Prod.fst)
  source : held ≠ [] → s.source.isSome = true
  pushed : ∀ issue i, (issue, .pushed i) ∈ s.fates → Kept s.coordinator i
  failed : ∀ issue i, (issue, .failed i) ∈ s.fates → Recorded s.coordinator i

section Commands

variable {all held : List Int} {s : DirectState} {c : Coordinator} {i : ItemId} {issue : Int}

theorem Traced.coordinator (h : Traced host all held s) (hc : Stays host s.coordinator c) :
    Traced host all held { s with coordinator := c } where
  consistent := hc.consistent
  issues := h.issues
  source := h.source
  pushed := fun issue i hi => hc.kept i (h.pushed issue i hi)
  failed := fun issue i hi => hc.recorded i (h.failed issue i hi)

theorem wp_onCoordinator {α : Type} {x : Op α} {Q : α → DirectState → Prop}
    {E : PyError → DirectState → Prop} :
    (onCoordinator x).wp Q E s ↔ x.wp (fun a c => Q a { s with coordinator := c })
      (fun e c => E e { s with coordinator := c }) s.coordinator := by
  unfold onCoordinator
  rw [wp_bind, wp_get, wp_bind, wp_set]
  unfold wp
  rcases x.exec s.coordinator with ⟨r | a, c⟩
  · rfl
  · rfl

/-- The fate of the issue in hand. -/
theorem Traced.note (h : Traced host all [issue] s) (fate : IssueFate)
    (hpushed : ∀ i, fate = .pushed i → Kept s.coordinator i)
    (hfailed : ∀ i, fate = .failed i → Recorded s.coordinator i) :
    Traced host all [] { s with fates := s.fates ++ [(issue, fate)] } where
  consistent := h.consistent
  issues := by
    refine h.issues.trans ?_
    show (issue :: (s.issues ++ s.fates.map Prod.fst)).Perm
      ([] ++ s.issues ++ (s.fates ++ [(issue, fate)]).map Prod.fst)
    rw [List.map_append, List.nil_append, ← List.append_assoc]
    exact (List.perm_append_singleton _ _).symm
  source := fun hne => absurd rfl hne
  pushed := fun n i hi => by
    rcases List.mem_append.mp hi with hi | hi
    · exact h.pushed n i hi
    · obtain ⟨rfl, hfate⟩ := Prod.mk.inj (List.mem_singleton.mp hi)
      exact hpushed i hfate.symm
  failed := fun n i hi => by
    rcases List.mem_append.mp hi with hi | hi
    · exact h.failed n i hi
    · obtain ⟨rfl, hfate⟩ := Prod.mk.inj (List.mem_singleton.mp hi)
      exact hfailed i hfate.symm

/-- Only the source is written to, and it holds what it held and what is in hand. -/
theorem Traced.edit (h : Traced host all held s) (held' : List Int)
    (f : DirectIssueSource → DirectIssueSource) (hsome : s.source.isSome = true)
    (hissues : ∀ source, s.source = some source →
      (held ++ source.issues).Perm (held' ++ (f source).issues)) :
    Traced host all held' { s with source := s.source.map f } where
  consistent := h.consistent
  issues := by
    obtain ⟨source, hs⟩ := Option.isSome_iff_exists.mp hsome
    refine h.issues.trans (List.Perm.append_right _ ?_)
    unfold DirectState.issues
    rw [hs]
    exact hissues source hs
  source := fun _ => by
    rw [Option.isSome_map]
    exact hsome
  pushed := h.pushed
  failed := h.failed

/-- The first issue is taken in hand. -/
theorem Traced.take (h : Traced host all [] s) {rest : List Int} (hissues : s.issues = issue :: rest) :
    Traced host all [issue] { s with
      source := s.source.map fun source => { source with issues := source.issues.tail } } := by
  unfold DirectState.issues at hissues
  cases hs : s.source with
  | none =>
      rw [hs] at hissues
      cases hissues
  | some source =>
      rw [hs] at hissues
      have hedit := h.edit [issue] (fun source => { source with issues := source.issues.tail })
        (by rw [hs]; rfl)
        fun source' hs' => by
          obtain rfl := Option.some.inj (hs.symm.trans hs')
          have hissues : source.issues = issue :: rest := hissues
          rw [hissues]
          exact .refl _
      rw [hs] at hedit
      exact hedit

theorem Traced.putLast (h : Traced host all [issue] s) : Traced host all [] { s with
    source := s.source.map fun source => { source with issues := source.issues ++ [issue] } } :=
  h.edit _ _ (h.source (List.cons_ne_nil _ _)) fun _ _ => (List.perm_append_singleton _ _).symm

theorem Traced.putFirst (h : Traced host all [issue] s) : Traced host all [] { s with
    source := s.source.map fun source => { source with issues := issue :: source.issues } } :=
  h.edit _ _ (h.source (List.cons_ne_nil _ _)) fun _ _ => .refl _

@[simp] theorem wp_noteFate {fate : IssueFate} {Q : Unit → DirectState → Prop}
    {E : PyError → DirectState → Prop} :
    (noteFate issue fate).wp Q E s ↔ Q () { s with fates := s.fates ++ [(issue, fate)] } := Iff.rfl

@[simp] theorem wp_editSource {f : DirectIssueSource → DirectIssueSource}
    {Q : Unit → DirectState → Prop} {E : PyError → DirectState → Prop} :
    (editSource f).wp Q E s ↔ Q () { s with source := s.source.map f } := Iff.rfl

/-- A new item that nothing has been done with. -/
structure Unused (s : Coordinator) (i : ItemId) : Prop where
  born : i < s.allocated
  unseen : i ∉ s.seenItemIds
  unrecorded : (s.workItem i).summaryRecorded = false
  settled : s.stageOf i = .finished → (s.workItem i).result.isSome = true

theorem Unused.setItem {c : Coordinator} (h : Unused c i) {item : WorkItem}
    (hitem : Noted (c.workItem i) item) : Unused (c.setItem i item) i where
  born := h.born
  unseen := h.unseen
  unrecorded := by
    rw [setItem_workItem_self]
    exact (hitem.flag (by decide)).trans h.unrecorded
  settled := by
    unfold Coordinator.stageOf
    rw [setItem_workItem_self, hitem.stage, hitem.result]
    exact h.settled

theorem unused_alloc (h : Consistent host c) (new : NewItem) :
    Unused (c.alloc new.item) c.allocated := by
  have hself : (c.alloc new.item).workItem c.allocated = new.item := Function.update_self _ _ _
  refine ⟨Nat.lt_succ_self _, h.sound.owned.unborn _ le_rfl, ?_, ?_⟩
  · rw [hself]
    exact new.unrecorded summaryRecordedKey (by decide)
  · unfold Coordinator.stageOf
    rw [hself]
    exact new.settled

/-- A plan that is read is noted in the item; else nothing is written. -/
theorem wp_readClaims_unused (h : Consistent host c) (hi : Unused c i)
    (plans : ItemId → Except PlanReadError (List String)) :
    (readImplementationFileClaims host plans i).wp
      (fun _ t => Stays host c t ∧ Unused t i) (fun _ t => Stays host c t) c := by
  unfold readImplementationFileClaims
  rw [wp_bind, wp_get]
  split
  · exact ⟨.refl h, hi⟩
  · split
    · exact .refl h
    · split
      · exact ⟨.refl h, hi⟩
      · dsimp only
        rw [wp_bind, wp_editItem]
        have hnoted : ∀ claims, Noted (c.workItem i)
            ((c.workItem i).setPayload implementationFileClaimsPayload (.claims claims)) :=
          fun claims => (Noted.refl _).setPayload _ (by decide)
        exact ⟨h.stays_setItem (hnoted _), hi.setItem (hnoted _)⟩

theorem wp_activeClaims (h : Consistent host c) (exclude : Finset ItemId) :
    (activeImplementationFileClaims host exclude).wp (fun _ t => Stays host c t)
      (fun _ _ => False) c := by
  unfold activeImplementationFileClaims
  rw [wp_bind, wp_get, wp_bind, wp_set, wp_pure]
  exact (foldl_addActiveClaims_refreshes host exclude c.items ∅ c).2.stays h

/-- A push that is deferred where the queue is full does not raise, and what it takes is live. -/
theorem wp_push_taken (hseen : i ∉ c.seenItemIds) (stage : StageName) :
    (pushItem host.config i stage true true).wp (fun taken t => taken = true → i ∈ t.seenItemIds)
      (fun _ _ => False) c := by
  unfold pushItem
  rw [wp_bind, wp_get]
  simp only [hseen, not_false_eq_true, decide_true, true_and, if_true]
  split
  · exact fun h => absurd h Bool.false_ne_true
  · rcases c.tryAcquireWorkPermit host.config i stage with ⟨granted, t⟩
    rw [wp_bind, wp_set]
    cases granted with
    | false => exact fun h => absurd h Bool.false_ne_true
    | true =>
        simp only [Bool.not_true, Bool.false_eq_true, if_false]
        rcases (t.queues stage).offer i with _ | q
        · exact fun h => absurd h Bool.false_ne_true
        · exact fun _ => Finset.mem_insert_self _ _

/-- An unused item is taken and kept, or left as it was. -/
theorem wp_push_unused (h : Consistent host c) (hi : Unused c i) :
    (pushItem host.config i (c.stageOf i) true true).wp
      (fun taken t => Stays host c t ∧ (taken = true → Kept t i)) (fun _ _ => False) c := by
  have hpush := (Reached.refl h.sound).pushNew hi.born hi.unseen hi.unrecorded hi.settled true
  refine wp_mono (wp_and hpush (wp_push_taken hi.unseen _)) (fun taken t ht => ?_) fun _ _ ht => ht.2
  refine ⟨ht.1.stays h, fun htaken => ⟨?_, .inl (ht.2 htaken)⟩⟩
  by_contra hout
  exact ht.1.sound.owned.unborn i (Nat.le_of_not_lt hout) (ht.2 htaken)

/-- What is classified is in hand, or its fate is noted. -/
theorem wp_readCandidate (h : Traced host all [issue] s) (answers : DirectAnswers ω) (repo : String) :
    (readDirectIssueCandidate host answers repo issue).wp
      (fun candidate t => candidate.elim (Traced host all [] t) fun item =>
        Traced host all [issue] t ∧ Unused t.coordinator item.1)
      (fun _ t => Traced host all [] t) s := by
  have hfailure : ∀ {t : DirectState} (error message : String), Traced host all [issue] t →
      (recordIssueClassificationFailure host answers.detail repo issue error message).wp
        (fun _ u => Traced host all [] u) (fun _ u => Traced host all [] u) t := by
    intro t error message ht
    unfold recordIssueClassificationFailure
    rw [wp_bind, wp_get, wp_bind, wp_set]
    obtain ⟨hstays, hrecorded⟩ := ht.consistent.stays_failed repo (some issue)
      ("classification failed (" ++ error ++ "): " ++ orElse (answers.detail message) "no diagnostic"
        ++ "; manual recovery required")
    refine (ht.coordinator hstays).note _ (fun i hi => ?_) fun i hi => ?_
    · cases hi
    · obtain rfl := IssueFate.failed.inj hi
      exact hrecorded
  have hraised : ∀ {t : DirectState}, Traced host all [issue] t →
      Traced host all [] { t with fates := t.fates ++ [(issue, .raised)] } := by
    intro t ht
    refine ht.note _ (fun i hi => ?_) fun i hi => ?_
    · cases hi
    · cases hi
  unfold readDirectIssueCandidate
  split
  · -- Excluded.
    rw [wp_bind]
    refine h.note _ (fun i hi => ?_) fun i hi => ?_
    · cases hi
    · cases hi
  · rw [wp_bind]
    exact wp_mono (hfailure _ _ h) (fun _ _ ht => ht) fun _ _ ht => ht
  · exact hraised h
  · next new _ =>
    rw [wp_bind, wp_get, wp_bind, wp_set]
    have halloc : Stays host s.coordinator (s.coordinator.alloc new.item) :=
      ((Reached.refl h.consistent.sound).move (.alloc new)).stays h.consistent
    have hunused := unused_alloc h.consistent new
    have htraced := h.coordinator halloc
    split
    · rw [wp_bind, wp_tryCatch, wp_onCoordinator]
      refine wp_mono (wp_readClaims_unused halloc.consistent hunused answers.plans)
        (fun read c hc => ?_) fun e c hc => hraised (htraced.coordinator hc)
      have hread := htraced.coordinator hc.1
      split
      · exact ⟨hread, hc.2⟩
      · exact ⟨hread, hc.2⟩
      · rw [wp_bind]
        exact wp_mono (hfailure _ _ hread) (fun _ _ ht => ht) fun _ _ ht => ht
      · exact hraised hread
    · exact ⟨htraced, hunused⟩

theorem wp_deferPushed (h : Traced host all held s) (w : World ω) (i : ItemId) (error : Option String) :
    (deferPushed host w i error).wp (fun _ t => Traced host all held t)
      (fun _ t => Traced host all held t) s := by
  cases error with
  | none => exact h
  | some message =>
      unfold deferPushed
      rw [wp_bind, wp_onCoordinator]
      have hclaim := (Reached.refl h.consistent.sound).claimSelected i
      refine wp_mono hclaim (fun claimed c hc => ?_) fun _ _ hf => hf.elim
      cases claimed with
      | false =>
          obtain rfl : c = s.coordinator := hc
          exact h
      | true =>
          rw [if_pos rfl, wp_onCoordinator]
          refine wp_mono (Working.deferImplementationPlanRead hc w message) (fun _ d hd => ?_)
            fun _ _ hf => hf.elim
          exact h.coordinator (hd.stays h.consistent)

/-- The loop keeps the account, however it ends. -/
theorem wp_directLoop (answers : DirectAnswers ω) (repo : String) (active : Finset FileClaim)
    (left : Nat) (pass : DirectPass) (h : Traced host all [] s) :
    (directLoop host answers repo active left pass).wp (fun _ t => Traced host all [] t)
      (fun _ t => Traced host all [] t) s := by
  induction left generalizing s pass with
  | zero => exact h
  | succ left ih =>
      unfold directLoop
      rw [wp_bind, wp_get]
      split
      · exact h
      · next issue rest hissues =>
        split
        · exact h
        · rw [wp_bind, wp_editSource, wp_bind]
          refine wp_mono (wp_readCandidate (h.take hissues) answers repo) (fun candidate t ht => ?_)
            fun _ _ ht => ht
          cases candidate with
          | none => exact ih _ ht
          | some item =>
              obtain ⟨i, error⟩ := item
              have hhand : Traced host all [issue] t := ht.1
              have hunused : Unused t.coordinator i := ht.2
              dsimp only
              rw [wp_bind, wp_get]
              split
              · rw [wp_bind, wp_editSource]
                exact ih _ hhand.putLast
              · rw [wp_bind, wp_onCoordinator]
                refine wp_mono (wp_push_unused hhand.consistent hunused) (fun taken c hc => ?_)
                  fun _ _ hf => hf.elim
                have hpushed := hhand.coordinator hc.1
                cases taken with
                | true =>
                    have hnoted := hpushed.note (.pushed i)
                      (fun j hj => IssueFate.pushed.inj hj ▸ hc.2 rfl) fun j hj => by cases hj
                    rw [if_pos rfl, wp_bind, wp_noteFate, wp_bind]
                    refine wp_mono (wp_deferPushed hnoted answers.world i error) (fun _ u hu => ?_)
                      fun _ _ hu => hu
                    rw [wp_bind, wp_get]
                    split
                    · exact hu
                    · exact ih _ hu
                | false =>
                    rw [if_neg Bool.false_ne_true, wp_bind, wp_editSource]
                    exact hpushed.putFirst

theorem wp_drain (answers : DirectAnswers ω) (h : Traced host all [] s) :
    (drainDirectIssueSource host answers).wp (fun _ t => Traced host all [] t)
      (fun _ t => Traced host all [] t) s := by
  have hclaims : ∀ {t : DirectState} (claims : Option (Finset FileClaim)), Traced host all [] t →
      Traced host all [] { t with
        source := t.source.map fun source => { source with overlapBlockedClaims := claims } } := by
    intro t claims ht
    cases hs : t.source with
    | none =>
        rw [Option.map_none, ← hs]
        exact ht
    | some source =>
        rw [← hs]
        exact ht.edit _ _ (by rw [hs]; rfl) fun _ _ => .refl _
  unfold drainDirectIssueSource
  rw [wp_bind, wp_get]
  split
  · exact h
  · next source hsource =>
    rw [wp_bind, wp_onCoordinator]
    refine wp_mono (wp_activeClaims h.consistent ∅) (fun active c hc => ?_) fun _ _ hf => hf.elim
    have hactive := h.coordinator hc
    split
    · exact hactive
    · rw [wp_bind, wp_editSource, wp_bind]
      refine wp_mono (wp_directLoop answers source.repo active _ {} (hclaims none hactive))
        (fun pass t ht => ?_) fun _ _ ht => ht
      rw [wp_bind, wp_get]
      split
      · next hnil =>
        rw [wp_bind, wp_set]
        refine ⟨ht.consistent, ?_, fun hne => absurd rfl hne, ht.pushed, ht.failed⟩
        have hissues := ht.issues
        rw [hnil] at hissues
        exact hissues
      · split
        · rw [wp_bind, wp_editSource]
          exact hclaims _ ht
        · exact ht

end Commands

/-! ## Runs -/

theorem DirectState.step_traced {all : List Int} {s t : DirectState} {e : DirectEvent ω}
    (h : Traced host all [] s) (hstep : s.step host e = some t) : Traced host all [] t := by
  cases e with
  | drain answers =>
      obtain rfl := Option.some.inj hstep
      exact wp_state (wp_drain answers h)
  | coordinator e =>
      obtain ⟨c, hc, rfl⟩ := Option.map_eq_some_iff.mp hstep
      exact h.coordinator ((Coordinator.step_reached h.consistent.sound hc).stays h.consistent)

/-- From any state that the coordinator reaches, over any drains and any steps of the
coordinator between them: every explicit issue is in the source, or has met its one fate.
What was pushed is live or its exit is accounted for, and what failed to be classified is
on record; the source is dropped once it holds no issue. -/
theorem direct_issues_of_run {tr : List (Transition Coordinator (CoordinatorEvent ω))}
    {c : Coordinator} (hreach : Run (Coordinator.step host) (.initial host.config) tr c)
    (repo : String) (openIssues : List Int)
    {tr' : List (Transition DirectState (DirectEvent ω))} {s : DirectState}
    (hrun : Run (DirectState.step host) (.begin c repo openIssues) tr' s) :
    openIssues.eraseDups.Perm (s.issues ++ s.fates.map Prod.fst)
      ∧ (∀ issue i, (issue, .pushed i) ∈ s.fates → Kept s.coordinator i)
      ∧ (∀ issue i, (issue, .failed i) ∈ s.fates → Recorded s.coordinator i) := by
  have hissues : openIssues.eraseDups.Perm ([] ++ openIssues.eraseDups ++ []) := by
    rw [List.append_nil, List.nil_append]
  have hbegin : Traced host openIssues.eraseDups [] (.begin c repo openIssues) :=
    ⟨run_consistent hreach, hissues, fun hne => absurd rfl hne,
      fun _ _ hmem => absurd hmem List.not_mem_nil, fun _ _ hmem => absurd hmem List.not_mem_nil⟩
  have hend := hrun.invariant (Traced host openIssues.eraseDups []) hbegin
    fun _ _ _ h hstep => DirectState.step_traced h hstep
  exact ⟨hend.issues, hend.pushed, hend.failed⟩

/-- Issue 5 is planned, issue 6 cannot be classified, and the others are excluded. -/
def someAnswers : DirectAnswers Unit where
  prepare number := if number = 5 then .item (plannedIssue 5)
    else if number = 6 then .failed "IssueClassificationError" "ambiguous" else .excluded
  plans := fun _ => .ok []
  detail := id
  world := { answers := fun _ => () }

/-- The window has room for one item, so issue 7 waits. -/
theorem direct_issues_of_one_drain : ∃ tr s,
    Run (DirectState.step stillHost) (.begin (.initial stillHost.config) "hephaestus" [6, 5, 6, 7]) tr s
      ∧ s.issues = [7] ∧ s.fates = [(6, .failed 0), (5, .pushed 1)]
      ∧ [6, 5, 6, 7].eraseDups.Perm (s.issues ++ s.fates.map Prod.fst)
      ∧ Recorded s.coordinator 0 ∧ Kept s.coordinator 1 := by
  have hevents : (trace (DirectState.step stillHost)
      (.begin (.initial stillHost.config) "hephaestus" [6, 5, 6, 7]) [.drain someAnswers]).any (fun y =>
        decide (y.2.issues = [7]) && decide (y.2.fates = [(6, .failed 0), (5, .pushed 1)])) = true := by
    decide
  obtain ⟨⟨tr, s⟩, htrace, hprops⟩ := (Option.any_eq_true _ _).mp hevents
  simp only [Bool.and_eq_true, decide_eq_true_eq] at hprops
  obtain ⟨hwaiting, hfates⟩ := hprops
  have hrun := trace_run htrace
  obtain ⟨hissues, hpushed, hfailed⟩ := direct_issues_of_run .nil "hephaestus" [6, 5, 6, 7] hrun
  have hrecorded := hfailed 6 0 (by rw [hfates]; exact List.mem_cons_self)
  have hkept := hpushed 5 1 (by rw [hfates]; exact List.mem_cons_of_mem _ List.mem_cons_self)
  exact ⟨tr, s, hrun, hwaiting, hfates, hissues, hrecorded, hkept⟩

end Hephaestus.Pipeline
