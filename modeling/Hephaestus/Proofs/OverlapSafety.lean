import Hephaestus.Proofs.OverlapRound
import Hephaestus.Proofs.Retained

/-!
# What a selection may start together

Candidates selected together are disjoint in any case. Against the others
there is a gap: the diff of an item that came back to implementation counts
only once the item has been examined itself, or a review has refreshed its
reservation. `overlap_dispatch_iff` says that this is the only gap. The
memories decide nothing, however many selections wrote them.
-/

namespace Hephaestus.Pipeline

open Hephaestus.Lib Hephaestus.Lib.Command

variable {ω : Type} {host : Host ω} {org : String} {s t : Coordinator} {i j : ItemId}
  {plans : ItemId → Except PlanReadError (List String)} {candidates : List ItemId}

/-! ## What a round admits -/

/-- The claims of the candidate are looked at. -/
def Readable (plans : ItemId → Except PlanReadError (List String)) (s : Coordinator)
    (i : ItemId) : Prop :=
  (s.workItem i).issue.isNone = false ∧ (s.workItem i).readFailure plans i = none

/-- The plan of the candidate cannot be read for a reason nobody handles. -/
def Unreadable (plans : ItemId → Except PlanReadError (List String)) (s : Coordinator)
    (i : ItemId) : Prop :=
  (s.workItem i).issue.isNone = false ∧
    ∃ e, (s.workItem i).readFailure plans i = some (.other e)

/-- A batch is safe: no two of its items write the same file, and none of them
writes one that a live item at a claim-owning stage writes, the fresh
candidates apart. -/
structure BatchSafe (org : String) (plans : ItemId → Except PlanReadError (List String))
    (s : Coordinator) (candidates batch : List ItemId) : Prop where
  apart : batch.Pairwise fun i j =>
    (s.workItem i).effectiveClaims org plans i ∩ (s.workItem j).effectiveClaims org plans j = ∅
  clear : ∀ i ∈ batch, ∀ j ∈ s.fileOwners, j ∉ freshCandidates s candidates → j ≠ i →
    (s.workItem i).effectiveClaims org plans i ∩ (s.workItem j).effectiveClaims org plans j = ∅

/-- Nothing is hidden from a candidate: where it meets none of the
reservations that show, it meets none of the claims. -/
def DiffsShown (org : String) (plans : ItemId → Except PlanReadError (List String))
    (s : Coordinator) (candidates : List ItemId) : Prop :=
  ∀ i ∈ candidates, Readable plans s i →
    (s.workItem i).effectiveClaims org plans i ∩
      (fileContest org plans s candidates).met (initialShares org s) i = ∅ →
    ∀ j ∈ s.fileOwners, j ∉ freshCandidates s candidates → j ≠ i →
      (s.workItem i).effectiveClaims org plans i ∩
        (s.workItem j).effectiveClaims org plans j = ∅

section Round

variable {a b : Admission ItemId FileClaim} {rest : List ItemId}

/-- A turn that does not raise skips the candidate or examines it. -/
theorem admissionTurn_cases (h : admissionTurn org plans s candidates a i = .ok b) :
    b = a ∨ Readable plans s i ∧ b = (fileContest org plans s candidates).examine a i := by
  unfold admissionTurn at h
  split at h
  · exact .inl (Except.ok.inj h).symm
  · next hneither =>
      rw [not_or, Bool.not_eq_true] at hneither
      split at h
      · cases h
      · exact .inl (Except.ok.inj h).symm
      · next hread => exact .inr ⟨⟨hneither.1, hread⟩, (Except.ok.inj h).symm⟩

/-- The rest of a round: it stays fair, keeps those admitted, and admits only
candidates it could read. -/
theorem admission_run (rest : List ItemId) :
    ∀ {a : Admission ItemId FileClaim},
      (fileContest org plans s candidates).Fair (initialShares org s) a →
      rest.foldlM (admissionTurn org plans s candidates) a = .ok b →
      (fileContest org plans s candidates).Fair (initialShares org s) b ∧
        a.admitted ⊆ b.admitted ∧
        ∀ j ∈ b.admitted, j ∈ a.admitted ∨ j ∈ rest ∧ Readable plans s j := by
  induction rest with
  | nil =>
      intro a hfair h
      obtain rfl := Except.ok.inj h
      exact ⟨hfair, List.Subset.refl _, fun j hj => .inl hj⟩
  | cons i rest ih =>
      intro a hfair h
      rw [List.foldlM_cons] at h
      obtain ⟨a', hturn, hrest⟩ := except_bind_ok.mp h
      rcases admissionTurn_cases hturn with rfl | ⟨hread, rfl⟩
      · obtain ⟨hfair', hkept, hfrom⟩ := ih hfair hrest
        refine ⟨hfair', hkept, fun j hj => (hfrom j hj).imp id ?_⟩
        exact fun h' => ⟨List.mem_cons_of_mem _ h'.1, h'.2⟩
      · obtain ⟨hfair', hkept, hfrom⟩ := ih (hfair.examine (shownClaims_subset _)) hrest
        refine ⟨hfair', fun j hj => hkept (Contest.admitted_subset_examine hj), fun j hj => ?_⟩
        rcases hfrom j hj with hj | ⟨hj, hread'⟩
        · rcases Contest.mem_admitted_examine hj with hj | rfl
          · exact .inl hj
          · exact .inr ⟨List.mem_cons_self, hread⟩
        · exact .inr ⟨List.mem_cons_of_mem _ hj, hread'⟩

/-- Where nothing is hidden a round admits a safe batch. -/
theorem round_safe (hshown : DiffsShown org plans s candidates)
    (h : admissionRound org plans s candidates = .ok b) :
    BatchSafe org plans s candidates b.admitted := by
  obtain ⟨hfair, _, hfrom⟩ := admission_run candidates (.init _) h
  refine ⟨hfair.apart, fun i hi j hj hexempt hne => ?_⟩
  rcases hfrom i hi with hnil | ⟨hcand, hread⟩
  · cases hnil
  · exact hshown i hcand hread (hfair.free i hi) j hj hexempt hne

/-- Where the memories are right, a round raises just where a plan cannot be
read. -/
theorem admission_raises (hmem : ∀ j, MemorySound org (s.workItem j)) (rest : List ItemId) :
    ∀ a, (∃ b, rest.foldlM (admissionTurn org plans s candidates) a = .ok b) ↔
      ∀ i ∈ rest, ¬ Unreadable plans s i := by
  induction rest with
  | nil => exact fun a => ⟨fun _ i hi => absurd hi List.not_mem_nil, fun _ => ⟨a, rfl⟩⟩
  | cons i rest ih =>
      intro a
      have hturn : (∃ a', admissionTurn org plans s candidates a i = .ok a') ↔
          ¬ Unreadable plans s i := by
        unfold admissionTurn Unreadable
        split
        · next hskip =>
            refine iff_of_true ⟨a, rfl⟩ ?_
            rintro ⟨hissue, e, hfail⟩
            rcases hskip with hnone | hblocked
            · rw [hissue] at hnone
              cases hnone
            · obtain ⟨held, hheld, _⟩ := hmem i _ hblocked
              rw [(readFailure_eq_some hfail).1] at hheld
              cases hheld
        · next hneither =>
            rw [not_or, Bool.not_eq_true] at hneither
            split
            · next e hfail =>
                refine iff_of_false ?_ fun hnot => hnot ⟨hneither.1, e, hfail⟩
                rintro ⟨_, hok⟩
                cases hok
            · next hnot hfail =>
                refine iff_of_true ⟨a, rfl⟩ ?_
                rintro ⟨_, e, hother⟩
                rw [hother] at hfail
                exact hnot e (Option.some.inj hfail).symm
            · next hfail =>
                refine iff_of_true ⟨_, rfl⟩ ?_
                rintro ⟨_, e, hother⟩
                rw [hother] at hfail
                cases hfail
      rw [List.foldlM_cons, List.forall_mem_cons, ← hturn]
      constructor
      · rintro ⟨b, hb⟩
        obtain ⟨a', ha', hrest⟩ := except_bind_ok.mp hb
        exact ⟨⟨a', ha'⟩, (ih a').mp ⟨b, hrest⟩⟩
      · rintro ⟨⟨a', ha'⟩, hrest⟩
        obtain ⟨b, hb⟩ := (ih a').mpr hrest
        exact ⟨b, except_bind_ok.mpr ⟨a', ha', hb⟩⟩

/-- A readable candidate that meets nothing is admitted when it comes first. -/
theorem mem_admitted_first (hmem : MemorySound org (s.workItem i)) (hread : Readable plans s i)
    (hfree : (s.workItem i).effectiveClaims org plans i ∩
      (fileContest org plans s candidates).met (initialShares org s) i = ∅)
    (h : (i :: rest).foldlM (admissionTurn org plans s candidates)
      { shares := initialShares org s } = .ok b) : i ∈ b.admitted := by
  rw [List.foldlM_cons] at h
  obtain ⟨a, hturn, hrest⟩ := except_bind_ok.mp h
  have hagainst : (fileContest org plans s candidates).against
      { shares := initialShares org s } i =
      (fileContest org plans s candidates).met (initialShares org s) i := Finset.union_empty _
  have hneither : ¬ ((s.workItem i).issue.isNone = true ∨ (s.workItem i).blockedClaims? =
      some ((fileContest org plans s candidates).against { shares := initialShares org s } i)) := by
    rintro (hnone | hblocked)
    · rw [hread.1] at hnone
      cases hnone
    · exact (hmem.settled hblocked).2 (hagainst ▸ hfree)
  unfold admissionTurn at hturn
  rw [if_neg hneither, hread.2] at hturn
  obtain rfl := Except.ok.inj hturn
  refine (admission_run rest ((Contest.Fair.init _).examine (shownClaims_subset _)) hrest).2.1 ?_
  rw [Contest.admitted_examine_first _ hfree]
  exact List.mem_singleton_self i

end Round

/-! ## Orders -/

theorem freshCandidates_perm {order : List ItemId} (h : order.Perm candidates) :
    freshCandidates s order = freshCandidates s candidates := by
  ext j
  simp only [freshCandidates, List.mem_toFinset, List.mem_filter, h.mem_iff]

theorem fileContest_perm {order : List ItemId} (h : order.Perm candidates) :
    fileContest org plans s order = fileContest org plans s candidates := by
  unfold fileContest
  rw [freshCandidates_perm h]

theorem Queued.perm {order : List ItemId} (hq : Queued candidates s)
    (h : order.Perm candidates) : Queued order s :=
  ⟨h.nodup_iff.mpr hq.nodup, fun i hi => hq.stage i (h.mem_iff.mp hi)⟩

theorem BatchSafe.perm {order batch : List ItemId} (h : order.Perm candidates)
    (hsafe : BatchSafe org plans s order batch) : BatchSafe org plans s candidates batch where
  apart := hsafe.apart
  clear := fun i hi j hj hexempt => hsafe.clear i hi j hj (freshCandidates_perm h ▸ hexempt)

theorem DiffsShown.perm {order : List ItemId} (h : order.Perm candidates)
    (hshown : DiffsShown org plans s candidates) : DiffsShown org plans s order := by
  intro i hi hread hfree j hj hexempt
  rw [fileContest_perm h] at hfree
  exact hshown i (h.mem_iff.mp hi) hread hfree j hj (freshCandidates_perm h ▸ hexempt)

/-- The rounds of all orders admit safe batches just where nothing is hidden,
or where no round ends. -/
theorem rounds_safe_iff (hmem : ∀ j, MemorySound org (s.workItem j)) :
    (∀ order, order.Perm candidates → ∀ b, admissionRound org plans s order = .ok b →
      BatchSafe org plans s candidates b.admitted) ↔
      (∃ i ∈ candidates, Unreadable plans s i) ∨ DiffsShown org plans s candidates := by
  constructor
  · intro hsafe
    refine or_iff_not_imp_left.mpr fun hreadable => ?_
    push Not at hreadable
    intro i hi hread hfree j hj hexempt hne
    have hperm : (i :: candidates.erase i).Perm candidates := (List.perm_cons_erase hi).symm
    obtain ⟨b, hb⟩ : ∃ b, admissionRound org plans s (i :: candidates.erase i) = .ok b :=
      (admission_raises hmem _ _).mpr fun k hk => hreadable k (hperm.mem_iff.mp hk)
    rw [← fileContest_perm hperm] at hfree
    have hfirst := mem_admitted_first (hmem i) hread hfree hb
    exact (hsafe _ hperm b hb).clear i hfirst j hj hexempt hne
  · rintro (⟨i, hi, hraises⟩ | hshown) order hperm b hb
    · have hall := (admission_raises hmem order _).mp ⟨b, hb⟩
      exact absurd hraises (hall i (hperm.mem_iff.mpr hi))
    · exact (round_safe (hshown.perm hperm) hb).perm hperm

/-! ## Memories -/

/-- `payload.pop(_FILE_OVERLAP_BLOCKED_CLAIMS_KEY, None)` in every record. -/
def Coordinator.forgetBlockedClaims (s : Coordinator) : Coordinator :=
  { s with workItem := fun j => (s.workItem j).popPayload fileOverlapBlockedClaimsKey }

theorem Consistent.forget (h : Consistent host s) : Consistent host s.forgetBlockedClaims :=
  h.noted fun j => (Noted.refl (s.workItem j)).popPayload (by decide)

theorem Queued.forget (h : Queued candidates s) : Queued candidates s.forgetBlockedClaims :=
  ⟨h.nodup, h.stage⟩

section Forget

theorem effectiveClaims_forget (item : WorkItem) :
    (item.popPayload fileOverlapBlockedClaimsKey).effectiveClaims org plans i =
      item.effectiveClaims org plans i := by
  have hnoted : Noted item (item.popPayload fileOverlapBlockedClaimsKey) :=
    (Noted.refl item).popPayload (by decide)
  have hdiff := hnoted.rekeyed.changedClaims org
  unfold WorkItem.effectiveClaims
  rw [hdiff, fileClaims?_pop_ne _ (by decide)]
  rfl

theorem shownClaims_forget (item : WorkItem) :
    (item.popPayload fileOverlapBlockedClaimsKey).shownClaims org = item.shownClaims org := by
  have hnoted : Noted item (item.popPayload fileOverlapBlockedClaimsKey) :=
    (Noted.refl item).popPayload (by decide)
  have hdiff := hnoted.rekeyed.changedClaims org
  unfold WorkItem.shownClaims WorkItem.heldClaims
  rw [hdiff, fileClaims?_pop_ne _ (by decide)]
  rfl

theorem fileContest_forget :
    fileContest org plans s.forgetBlockedClaims candidates = fileContest org plans s candidates := by
  have hown : ∀ k, (s.forgetBlockedClaims.workItem k).effectiveClaims org plans k =
      (s.workItem k).effectiveClaims org plans k := fun k => effectiveClaims_forget _
  unfold fileContest
  rw [funext hown]
  rfl

theorem initialShares_forget :
    initialShares org s.forgetBlockedClaims = initialShares org s :=
  funext fun k => shownClaims_forget (s.workItem k)

theorem readFailure_forget (item : WorkItem) :
    (item.popPayload fileOverlapBlockedClaimsKey).readFailure plans i =
      item.readFailure plans i := by
  unfold WorkItem.readFailure
  rw [fileClaims?_pop_ne _ (by decide)]

/-- A right memory decides nothing at the turn of its item. -/
theorem admissionTurn_forget {a : Admission ItemId FileClaim}
    (hmem : MemorySound org (s.workItem i)) (hstage : s.stageOf i = .implementation)
    (hshare : a.shares i = initialShares org s i) :
    admissionTurn org plans s.forgetBlockedClaims candidates a i =
      admissionTurn org plans s candidates a i := by
  have hnone : (s.forgetBlockedClaims.workItem i).blockedClaims? = none :=
    blockedClaims?_pop (s.workItem i)
  have hfail : (s.forgetBlockedClaims.workItem i).readFailure plans i =
      (s.workItem i).readFailure plans i := readFailure_forget (s.workItem i)
  have hissue : (s.forgetBlockedClaims.workItem i).issue = (s.workItem i).issue := rfl
  by_cases hblocked : (s.workItem i).blockedClaims? =
      some ((fileContest org plans s candidates).against a i)
  · obtain ⟨⟨hheld, _, _⟩, hmeet⟩ := hmem.settled hblocked
    have hturn : admissionTurn org plans s candidates a i = .ok a := if_pos (.inr hblocked)
    have hread : (s.workItem i).readFailure plans i = none := by
      unfold WorkItem.readFailure
      rw [hheld]
    have hown : a.shares i = (fileContest org plans s candidates).own i := by
      rw [hshare, initialShares, shownClaims_of_implementation hstage, WorkItem.heldClaims, hheld]
      rfl
    rw [hturn]
    unfold admissionTurn
    rw [fileContest_forget, hnone, hfail, hread]
    split
    · rfl
    · exact congrArg _ (Contest.examine_of_blocked hown hmeet)
  · unfold admissionTurn
    rw [fileContest_forget, hnone, hfail, hissue]
    exact if_congr (or_congr_right (iff_of_false (Option.some_ne_none _).symm hblocked)) rfl rfl

theorem admissionRound_forget (hmem : ∀ j, MemorySound org (s.workItem j))
    (hq : Queued candidates s) :
    admissionRound org plans s.forgetBlockedClaims candidates =
      admissionRound org plans s candidates := by
  have hloop : ∀ (rest : List ItemId) (a : Admission ItemId FileClaim), rest.Nodup →
      (∀ i ∈ rest, i ∈ candidates) → (∀ i ∈ rest, a.shares i = initialShares org s i) →
      rest.foldlM (admissionTurn org plans s.forgetBlockedClaims candidates) a =
        rest.foldlM (admissionTurn org plans s candidates) a := by
    intro rest
    induction rest with
    | nil => exact fun _ _ _ _ => rfl
    | cons i rest ih =>
        intro a hnodup hsub hshare
        rw [List.nodup_cons] at hnodup
        have hi := hsub i List.mem_cons_self
        have hturn : admissionTurn org plans s.forgetBlockedClaims candidates a i =
            admissionTurn org plans s candidates a i :=
          admissionTurn_forget (hmem i) (hq.stage i hi) (hshare i List.mem_cons_self)
        rw [List.foldlM_cons, List.foldlM_cons, hturn]
        cases hresult : admissionTurn org plans s candidates a i with
        | error e => rfl
        | ok b =>
            refine ih b hnodup.2 (fun k hk => hsub k (List.mem_cons_of_mem _ hk)) fun k hk => ?_
            have hne : k ≠ i := fun heq => hnodup.1 (heq ▸ hk)
            rw [← hshare k (List.mem_cons_of_mem _ hk)]
            rcases admissionTurn_cases hresult with rfl | ⟨_, rfl⟩
            · rfl
            · exact Function.update_of_ne hne _ _
  unfold admissionRound
  rw [initialShares_forget]
  exact hloop candidates _ hq.nodup (fun _ hi => hi) fun _ _ => rfl

end Forget

/-! ## Runs of selections -/

/-- A selection: the outside world, the plans as they read then, and the
candidates in their order. -/
structure Poll (ω : Type) where
  world : World ω
  plans : ItemId → Except PlanReadError (List String)
  candidates : List ItemId

/-- The state a selection leaves, whether it returned or raised. -/
def pollStep (host : Host ω) (s : Coordinator) (p : Poll ω) : Option Coordinator :=
  some (s.after (selectFileOverlapImplementationItems host p.world p.plans p.candidates))

/-- Through any number of selections the state stays consistent and the
memories right. -/
theorem polls_sustain {s₀ : Coordinator} {tr : List (Transition Coordinator (Poll ω))}
    (h₀ : Consistent host s₀) (hnew : ∀ j, (s₀.workItem j).blockedClaims? = none)
    (hrun : Run (pollStep host) s₀ tr s) (htr : ∀ x ∈ tr, Queued x.event.candidates x.pre) :
    Consistent host s ∧ ∀ j, MemorySound host.config.org (s.workItem j) := by
  refine hrun.invariant_of (fun _ t => Consistent host t ∧
    ∀ j, MemorySound host.config.org (t.workItem j)) (fun t p => Queued p.candidates t) ?_ ?_ htr
  · refine ⟨h₀, fun j c hc => ?_⟩
    rw [hnew j] at hc
    cases hc
  · rintro _ t p u ⟨hc, hmem⟩ hq hs
    obtain rfl := Option.some.inj hs
    have hkeep := (select_round p.world p.plans hc hq).2
    exact ⟨hkeep.consistent, hkeep.memory hmem⟩

/-- In a consistent state in which nothing is hidden every selected batch is
safe, whatever the items remember. After any number of selections that started
without memories, every order of the candidates gives a safe batch only then,
unless a plan read raises; and forgetting what the items remember changes
no selection. -/
theorem overlap_dispatch_iff {s₀ : Coordinator} {tr : List (Transition Coordinator (Poll ω))}
    (w : World ω) (plans : ItemId → Except PlanReadError (List String))
    (candidates : List ItemId) (h₀ : Consistent host s₀)
    (hnew : ∀ j, (s₀.workItem j).blockedClaims? = none)
    (hrun : Run (pollStep host) s₀ tr s) (htr : ∀ x ∈ tr, Queued x.event.candidates x.pre)
    (hq : Queued candidates s) :
    ((selectFileOverlapImplementationItems host w plans candidates).exec s).1 =
        ((selectFileOverlapImplementationItems host w plans candidates).exec
          s.forgetBlockedClaims).1 ∧
      ((∀ order, order.Perm candidates → ∀ batch,
          ((selectFileOverlapImplementationItems host w plans order).exec s).1 = .ok batch →
          BatchSafe host.config.org plans s candidates batch) ↔
        (∃ i ∈ candidates, Unreadable plans s i) ∨
          DiffsShown host.config.org plans s candidates) ∧
      ∀ u, Consistent host u → Queued candidates u →
        DiffsShown host.config.org plans u candidates → ∀ batch,
          ((selectFileOverlapImplementationItems host w plans candidates).exec u).1 = .ok batch →
          BatchSafe host.config.org plans u candidates batch := by
  obtain ⟨hc, hmem⟩ := polls_sustain h₀ hnew hrun htr
  have hbatch : ∀ {u : Coordinator} {order batch : List ItemId}, Consistent host u →
      Queued order u →
      (((selectFileOverlapImplementationItems host w plans order).exec u).1 = .ok batch ↔
        ∃ b, admissionRound host.config.org plans u order = .ok b ∧ b.admitted = batch) := by
    intro u order batch hu hqu
    rw [(select_round w plans hu hqu).1]
    cases admissionRound host.config.org plans u order with
    | error e => exact iff_of_false nofun fun ⟨_, h, _⟩ => nomatch h
    | ok b => simp [Except.map]
  refine ⟨?_, ?_, ?_⟩
  · rw [(select_round w plans hc hq).1, (select_round w plans hc.forget hq.forget).1,
      admissionRound_forget hmem hq]
  · rw [← rounds_safe_iff hmem]
    constructor
    · exact fun h order hperm b hb =>
        h order hperm b.admitted ((hbatch hc (hq.perm hperm)).mpr ⟨b, hb, rfl⟩)
    · intro h order hperm batch hexec
      obtain ⟨b, hb, rfl⟩ := (hbatch hc (hq.perm hperm)).mp hexec
      exact h order hperm b hb
  · intro u hu hqu hshown batch hexec
    obtain ⟨b, hb, rfl⟩ := (hbatch hu hqu).mp hexec
    exact round_safe hshown hb

/-! ### Two issues on one file

Issue 20 is planned on `shared.py` and has not been started. Issue 21 has come
back from review, and its diff touches `shared.py` as well. -/

/-- An issue as its source makes it, with `reserved` in its reservation. -/
def pushedSharing (issue : Int) (pr : Option Int) (reserved : Finset FileClaim)
    (paths : List (Option String)) : NewItem where
  item :=
    { sharingItem issue pr paths with
      payload := [(implementationFileClaimsPayload, .claims reserved),
        ("review_changed_paths", .paths paths)] }
  unrecorded := List.forall_mem_cons.mpr
    ⟨rfl, List.forall_mem_cons.mpr ⟨rfl, List.forall_mem_cons.mpr ⟨rfl, nofun⟩⟩⟩
  settled := nofun

/-- The state a push leaves. -/
def pushedInto (s : Coordinator) (new : NewItem) : Coordinator :=
  (s.alloc new.item).after (pushItem pairHost.config s.allocated new.item.stage true false)

/-- Both are pushed into the implementation queue; issue 21 has the files
`paths` of `hephaestus` in its reservation. -/
def returnedPair (paths : Finset String) : Coordinator :=
  pushedInto
    (pushedInto (.initial pairHost.config)
      (pushedSharing 20 none {(("org", "hephaestus"), "shared.py")} []))
    (pushedSharing 21 (some 121) (paths.image fun path => (("org", "hephaestus"), path))
      [some "shared.py"])

theorem returnedPair_consistent (paths : Finset String) :
    Consistent pairHost (returnedPair paths) := by
  have hfirst : Run (Coordinator.step pairHost) (.initial pairHost.config) _ (pushedInto _ _) :=
    Run.nil.snoc (e := .push (pushedSharing 20 none {(("org", "hephaestus"), "shared.py")} []) false)
      rfl
  exact run_consistent (hfirst.snoc (e := .push _ false) rfl)

/-- Nobody remembers anything yet. -/
theorem returnedPair_new (paths : Finset String) (j : ItemId) :
    ((returnedPair paths).workItem j).blockedClaims? = none := by
  have hpush : ∀ {s : Coordinator} {new : NewItem}, j ≠ s.allocated →
      (pushedInto s new).workItem j = s.workItem j := by
    intro s new hne
    have hleaves : Leaves j (s.alloc new.item) (pushedInto s new) := leaves_pushItem hne
    exact hleaves.record.trans (setItem_workItem_ne _ hne)
  by_cases h0 : j = 0
  · subst h0
    rfl
  · by_cases h1 : j = 1
    · subst h1
      rfl
    · unfold returnedPair
      rw [hpush h1, hpush h0]
      rfl

/-- A result that can be compared, where its error cannot. -/
theorem ok_of_toOption {ε α : Type} {x : Except ε α} {a : α} (h : x.toOption = some a) :
    x = .ok a := by
  cases x with
  | error e => cases h
  | ok b =>
      obtain rfl : b = a := Option.some.inj h
      rfl

/-- With the diff of issue 21 not in its reservation, issue 20 is selected
next to it. -/
theorem selected_beside_returned :
    ¬ ∀ (w : World Unit) (plans : ItemId → Except PlanReadError (List String))
      (candidates : List ItemId) (s : Coordinator),
      pairHost.config.serializeFileOverlap = true → Consistent pairHost s →
      (∀ j, (s.workItem j).blockedClaims? = none) → Queued candidates s → ∀ batch,
      ((selectFileOverlapImplementationItems pairHost w plans candidates).exec s).1 = .ok batch →
      BatchSafe pairHost.config.org plans s candidates batch := by
  intro hclaim
  have hexec : ((selectFileOverlapImplementationItems pairHost { answers := fun _ => () }
      (fun _ => .ok []) [0, 1]).exec (returnedPair {"notes.md"})).1 = .ok [0] :=
    ok_of_toOption (by decide)
  have hqueued : Queued [0, 1] (returnedPair {"notes.md"}) := ⟨by decide, by decide⟩
  have hsafe := hclaim { answers := fun _ => () } (fun _ => .ok []) [0, 1]
    (returnedPair {"notes.md"}) rfl (returnedPair_consistent _) (returnedPair_new _) hqueued
    [0] hexec
  have hmeet := hsafe.clear 0 List.mem_cons_self 1 (by decide) (by decide)
    (by decide)
  revert hmeet
  decide

/-- With the diff in its reservation nothing is hidden. -/
theorem returnedPair_shown : DiffsShown pairHost.config.org (fun _ => .ok [])
    (returnedPair {"notes.md", "shared.py"}) [0, 1] := by
  unfold DiffsShown Readable
  decide

theorem overlap_dispatch_reserved_diff :
    ((selectFileOverlapImplementationItems pairHost { answers := fun _ => () }
        (fun _ => .ok []) [0, 1]).exec (returnedPair {"notes.md", "shared.py"})).1 = .ok [1] ∧
      BatchSafe pairHost.config.org (fun _ => .ok []) (returnedPair {"notes.md", "shared.py"})
        [0, 1] [1] := by
  have hexec : ((selectFileOverlapImplementationItems pairHost { answers := fun _ => () }
      (fun _ => .ok []) [0, 1]).exec (returnedPair {"notes.md", "shared.py"})).1 = .ok [1] :=
    ok_of_toOption (by decide)
  have hqueued : Queued [0, 1] (returnedPair {"notes.md", "shared.py"}) :=
    ⟨by decide, by decide⟩
  have hnone : ∀ x ∈ ([] : List (Transition Coordinator (Poll Unit))),
      Queued x.event.candidates x.pre := fun x hx => absurd hx List.not_mem_nil
  have hiff := overlap_dispatch_iff { answers := fun _ => () } (fun _ => .ok []) [0, 1]
    (returnedPair_consistent {"notes.md", "shared.py"})
    (returnedPair_new {"notes.md", "shared.py"}) .nil hnone hqueued
  exact ⟨hexec, hiff.2.1.mpr (.inr returnedPair_shown) [0, 1] (List.Perm.refl _) [1] hexec⟩

end Hephaestus.Pipeline
