import Mathlib.Data.List.Perm.Subperm
import Hephaestus.Proofs.WaveInvariant

/-!
# When a passed wave can be verified

`verify_prior_wave` counts: it wants as many merge receipts as there are
code outcomes. The two are written by different methods, and nothing stops
one issue from having a receipt and a non-code outcome. Such a wave is
complete and passed, and since receipts and passed outcomes are never taken
back, it can never be verified: the rollout is stuck.

`verifiable_iff` says that this is the only way to get stuck. Called
without facts, the method succeeds for some revision of main, and an
ancestry that is the truth about some history, exactly when no issue of the
wave has both. Called with facts there is a second condition, on what was
recorded with each non-code intent: the digest has to be the digest of some
issue text, and the labels it asks for must not include the one label that
the confirmation forbids.
-/

namespace Hephaestus.Automation

open Hephaestus.Lib

/-- No issue of the wave has a merge receipt and a non-code outcome. -/
def WaveRecord.Unmixed (r : WaveRecord) : Prop :=
  ∀ o ∈ r.outcomes, o.val.nonCode = true → o.val.issueNumber ∉ r.receiptIds

/-- Some facts confirm the intent: its digest is the digest of an issue
text, and its labels can be on the issue. -/
def Confirmable (digest : EvidenceDigest) (repository : String) (i : WaveNonCodeIntent) :
    Prop :=
  athenaFinalizedPlanLabel ∉ i.extraLabels ∧
    ∃ title body, i.evidenceDigest =
      digest repository i.issueNumber i.repositoryRevision title body

/-- Every non-code outcome of the wave rests on a confirmable intent. -/
def WaveRecord.Confirmable (digest : EvidenceDigest) (repository : String)
    (r : WaveRecord) : Prop :=
  ∀ o ∈ r.outcomes, o.val.nonCode = true → ∃ i, r.intentFor o.val.issueNumber = some i ∧
    Automation.Confirmable digest repository i.val

/-- The issue numbers of the code outcomes. -/
def WaveRecord.codeIds (r : WaveRecord) : List Int :=
  (r.outcomes.filter fun o => !o.val.nonCode).map (·.val.issueNumber)

theorem WaveRecord.mem_codeIds {r : WaveRecord} {n : Int} :
    n ∈ r.codeIds ↔ ∃ o ∈ r.outcomes, o.val.nonCode = false ∧ o.val.issueNumber = n := by
  simp [WaveRecord.codeIds, and_assoc]

/-! ## Counting receipts -/

/-- In a complete wave the receipts and the code outcomes are equally many
exactly when no issue has a receipt without a code outcome. -/
theorem WaveRecord.receipts_length_iff {r : WaveRecord} (hv : r.Valid)
    (hpass : r.passed = true) (hrec : r.Receipted) :
    r.mergeReceipts.length = (r.outcomes.filter fun o => !o.val.nonCode).length ↔
      r.Unmixed := by
  have hlen : r.receiptIds.length = r.mergeReceipts.length := List.length_map _
  have hlen' : r.codeIds.length = (r.outcomes.filter fun o => !o.val.nonCode).length :=
    List.length_map _
  rw [← hlen, ← hlen']
  simp only [WaveRecord.passed, WaveRecord.complete, Bool.and_eq_true, decide_eq_true_eq,
    List.all_eq_true] at hpass
  obtain ⟨⟨_, hcover⟩, hall⟩ := hpass
  have hcode : r.codeIds ⊆ r.receiptIds := by
    intro n hn
    obtain ⟨o, ho, hnc, rfl⟩ := WaveRecord.mem_codeIds.mp hn
    exact hrec o ho (hall o ho) hnc
  have hnd : r.codeIds.Nodup :=
    hv.outcomes.1.sublist (List.Sublist.map _ List.filter_sublist)
  constructor
  · intro heq o ho hnc hmem
    have hperm := (List.subperm_of_subset hnd hcode).perm_of_length_le (Nat.le_of_eq heq)
    obtain ⟨o', ho', hcode', hid⟩ := WaveRecord.mem_codeIds.mp (hperm.mem_iff.mpr hmem)
    rw [eq_of_key_eq hv.outcomes.1 ho' ho hid, hnc] at hcode'
    cases hcode'
  · intro hun
    have hsub : r.receiptIds ⊆ r.codeIds := by
      intro n hn
      obtain ⟨o, ho, hid⟩ := List.mem_map.mp (hcover (hv.receipts.2 hn))
      cases hnc : o.val.nonCode with
      | false => exact WaveRecord.mem_codeIds.mpr ⟨o, ho, hnc, hid⟩
      | true => exact absurd (hid ▸ hn) (hun o ho hnc)
    exact Nat.le_antisymm (List.subperm_of_subset hv.receipts.1 hsub).length_le
      (List.subperm_of_subset hnd hcode).length_le

/-! ## Facts that confirm a wave -/

theorem confirmable_of_skip {digest : EvidenceDigest} {repository : String}
    {i : WaveNonCodeIntent} {facts : Option IssueFacts}
    (hm : nonCodeIntentMatchesFacts digest i facts repository = true)
    (ha : nonCodeIntentIsApplied i facts = true) : Confirmable digest repository i := by
  simp only [nonCodeIntentIsApplied, nonCodeIntentSkipIsApplied, Bool.and_eq_true,
    Bool.not_eq_true', List.all_eq_true, List.contains_iff_mem] at ha
  obtain ⟨_, ⟨⟨⟨_, hextra⟩, _⟩, _⟩, hathena⟩ := ha
  refine ⟨fun hmem => ?_, ?_⟩
  · rw [List.contains_iff_mem.mpr (hextra _ hmem)] at hathena
    cases hathena
  · unfold nonCodeIntentMatchesFacts at hm
    split at hm
    · cases hm
    · split at hm
      · cases hm
      · split at hm
        · cases hm
        · split at hm
          · next title body _ _ => exact ⟨title, body, by simpa using hm⟩
          · cases hm

/-- An extra label is no state label: the intent's own check refused those
that look like one. -/
theorem extraLabels_not_state (i : Checked WaveNonCodeIntent.postInit) {label : String}
    (h : label ∈ i.val.extraLabels) : label.startsWith "state:" = false := by
  have hv := i.property
  simp only [WaveNonCodeIntent.postInit, check_bind_ok, raiseIf_ok] at hv
  obtain ⟨_, _, _, _, hlabels, _⟩ := hv
  cases hst : label.startsWith "state:" with
  | false => rfl
  | true => exact absurd (List.any_eq_true.mpr ⟨label, h, by simp [hst]⟩) hlabels

theorem stateLabels_start {label : String}
    (h : label ∈ allStateLabels ++ allImplementationStateLabels) :
    label.startsWith "state:" = true := by
  have hall : (allStateLabels ++ allImplementationStateLabels).all
      (fun l => l.startsWith "state:") = true := by decide +kernel
  exact List.all_eq_true.mp hall label h

/-- The facts that confirm a confirmable intent: the issue text behind the
digest, and exactly the labels the transition writes. -/
theorem skip_of_confirmable {digest : EvidenceDigest} {repository : String}
    {i : Checked WaveNonCodeIntent.postInit} (hret : i.val.retired = false)
    (h : Confirmable digest repository i.val) :
    ∃ f, nonCodeIntentMatchesFacts digest i.val (some f) repository = true ∧
      nonCodeIntentIsApplied i.val (some f) = true := by
  obtain ⟨hathena, title, body, hdigest⟩ := h
  have hclean : ∀ labels, labels ⊆ allStateLabels ++ allImplementationStateLabels →
      (stateSkip :: i.val.extraLabels).any (labels.contains ·) = false := by
    intro labels hsub
    rw [List.any_eq_false]
    intro l hl hin
    have hstate := hsub (List.contains_iff_mem.mp hin)
    rcases List.mem_cons.mp hl with rfl | hl
    · exact absurd hstate (by decide)
    · exact absurd ((stateLabels_start hstate).symm.trans (extraLabels_not_state i hl))
        (by decide)
  refine ⟨{ title := some title, body := some body,
            labels := stateSkip :: i.val.extraLabels }, ?_, ?_⟩
  · simp [nonCodeIntentMatchesFacts, hret, hdigest]
  · have hskip : athenaFinalizedPlanLabel ∉ stateSkip :: i.val.extraLabels := by
      rw [List.mem_cons, not_or]
      exact ⟨by decide, hathena⟩
    simp only [nonCodeIntentIsApplied, nonCodeIntentSkipIsApplied, hret, Option.map_some,
      Option.getD_some, hclean _ (List.subset_append_left _ _),
      hclean _ (List.subset_append_right _ _), Bool.not_false, Bool.true_and,
      Bool.and_true, Bool.and_eq_true, Bool.not_eq_true', List.all_eq_true,
      List.contains_iff_mem]
    refine ⟨⟨List.mem_cons_self, fun l hl => List.mem_cons_of_mem _ hl⟩, ?_⟩
    rw [← Bool.not_eq_true, List.contains_iff_mem]
    exact hskip

/-- One turn of the loop looks at the facts of one issue only. -/
theorem validateVerifiedOutcome_congr {digest : EvidenceDigest} {r : WaveRecord}
    {facts facts' : Int → Option IssueFacts} {repository : String} {o : WaveIssueOutcome}
    (h : facts o.issueNumber = facts' o.issueNumber) :
    validateVerifiedOutcome digest r facts repository o =
      validateVerifiedOutcome digest r facts' repository o := by
  unfold validateVerifiedOutcome
  rw [h]

/-- Facts that get one outcome of the wave through. -/
theorem facts_for_outcome {digest : EvidenceDigest} {repository : String}
    {r : Checked WaveRecord.postInit} (hrec : r.val.Receipted) (hpass : r.val.passed = true)
    (hconf : r.val.Confirmable digest repository)
    {o : Checked WaveIssueOutcome.postInit} (ho : o ∈ r.val.outcomes) :
    ∃ f, validateVerifiedOutcome digest r.val (fun _ => some f) repository o.val =
      .ok () := by
  have hv := WaveRecord.valid r
  have hop : o.val.passed = true := by
    simp only [WaveRecord.passed, Bool.and_eq_true, List.all_eq_true] at hpass
    exact hpass.2 o ho
  cases hnc : o.val.nonCode with
  | true =>
      obtain ⟨i, hi, hci⟩ := hconf o ho hnc
      have hret : i.val.retired = false := by
        have hm := hv.nonCode o ho hnc
        simp only [WaveRecord.intentMatches, hi, Option.any_some, Bool.and_eq_true,
          Bool.not_eq_true'] at hm
        exact hm.1
      obtain ⟨f, hmatch, happ⟩ := skip_of_confirmable hret hci
      refine ⟨f, ?_⟩
      simp [validateVerifiedOutcome, hnc, requireReviewedNonCodeSkip, hi, hmatch, happ]
  | false =>
      obtain ⟨m, hm, hid⟩ := List.mem_map.mp (hrec o ho hop hnc)
      have hfind : r.val.receiptFor o.val.issueNumber = some m := find?_key hv.receipts.1 hm hid
      refine ⟨{ prNumber := some m.val.prNumber, prIsMerged := true }, ?_⟩
      simp [validateVerifiedOutcome, hnc, hfind]

/-- There are facts that get the whole wave through exactly when its
non-code outcomes can be confirmed. -/
theorem validateVerifiedOutcomeFacts_iff {digest : EvidenceDigest} {repository : String}
    {r : Checked WaveRecord.postInit} (hrec : r.val.Receipted)
    (hpass : r.val.passed = true) :
    (∃ facts, validateVerifiedOutcomeFacts digest r.val facts repository = .ok ()) ↔
      r.val.Confirmable digest repository := by
  constructor
  · rintro ⟨facts, h⟩ o ho hnc
    have hturn := forM_ok.mp h o ho
    simp only [validateVerifiedOutcome, hnc, if_true, requireReviewedNonCodeSkip,
      raiseIf_ok, not_not, Option.any_eq_true, Bool.and_eq_true] at hturn
    obtain ⟨i, hi, hmatch, happ⟩ := hturn
    exact ⟨i, hi, confirmable_of_skip hmatch happ⟩
  · intro hconf
    -- One fact for each outcome; ids are distinct, so they make one map.
    have hall : ∀ o, ∃ f : IssueFacts, o ∈ r.val.outcomes →
        validateVerifiedOutcome digest r.val (fun _ => some f) repository o.val =
          .ok () := by
      intro o
      by_cases ho : o ∈ r.val.outcomes
      · obtain ⟨f, hf⟩ := facts_for_outcome hrec hpass hconf ho
        exact ⟨f, fun _ => hf⟩
      · exact ⟨{}, fun h => absurd h ho⟩
    choose f hf using hall
    refine ⟨fun n => (r.val.outcomeFor n).map f, forM_ok.mpr fun o ho => ?_⟩
    have hfind : r.val.outcomeFor o.val.issueNumber = some o :=
      find?_key (WaveRecord.valid r).outcomes.1 ho rfl
    refine Eq.trans (validateVerifiedOutcome_congr ?_) (hf o ho)
    simp [hfind]

/-! ## The method -/

/-- A call of `verify_prior_wave` on the record `w` of the document `c`
that returns, for some revision of main and an ancestry answer that is the
truth about some history of commits. -/
def Verifies (store : IssueWaveStore) (digest : EvidenceDigest) (c : StoredCheckpoint)
    (w : Checked WaveRecord.postInit) (facts : Option (Int → Option IssueFacts)) : Prop :=
  ∃ (lease : Checked WaveLease.postInit) (main : String) (before : String → String → Bool),
    w.val.lease store.org store.repo = .ok lease ∧
    IsPartialOrder String (fun a b => before a b = true) ∧
    ∃ c', (store.verifyPriorWave digest lease main false
      (some fun head shas => some (shas.all (before · head))) facts).exec (some c) =
        (.ok c', some c')

/-- What the method asks of the record, with an ancestry check at hand. -/
theorem verifyRecord_iff {store : IssueWaveStore} {digest : EvidenceDigest} {main : String}
    {check : String → List String → Bool} {facts : Option (Int → Option IssueFacts)}
    {r : WaveRecord} :
    store.verifyRecord digest main false (some fun head shas => some (check head shas))
        facts r = .ok () ↔
      r.complete = true ∧ r.passed = true ∧
      r.mergeReceipts.length = (r.outcomes.filter fun o => !o.val.nonCode).length ∧
      (∀ f, facts = some f →
        validateVerifiedOutcomeFacts digest r f store.repo = .ok ()) ∧
      (check main r.ancestryShas = true ∨ r.issueNumbers = []) := by
  have hlast : (check main r.ancestryShas = false → r.issueNumbers = []) ↔
      (check main r.ancestryShas = true ∨ r.issueNumbers = []) := by
    cases check main r.ancestryShas <;> simp
  cases facts with
  | none => simp [IssueWaveStore.verifyRecord, check_bind_ok, raiseIf_ok, hlast]
  | some f => simp [IssueWaveStore.verifyRecord, check_bind_ok, raiseIf_ok, hlast]

/-- A call that returned has checked the record at the lease's position. -/
theorem verifyPriorWave_checked {store : IssueWaveStore} {digest : EvidenceDigest}
    {lease : Checked WaveLease.postInit} {main : String} {verified : Bool}
    {check : Option (String → List String → Option Bool)}
    {facts : Option (Int → Option IssueFacts)} {c a : StoredCheckpoint}
    {t : Option StoredCheckpoint}
    (h : (store.verifyPriorWave digest lease main verified check facts).exec (some c) =
      (.ok a, t)) :
    ∃ r, c.val.waves[lease.val.waveIndex]? = some r ∧
      store.verifyRecord digest main verified check facts r.val = .ok () := by
  obtain ⟨_, _, h⟩ := Command.attempt_bind_ok.mp h
  obtain ⟨c', r, hc', hr, h⟩ := IssueWaveStore.withRecord_ok h
  obtain rfl := Option.some.inj hc'
  obtain ⟨_, hv, _⟩ := Command.attempt_bind_ok.mp h
  exact ⟨r, hr, hv⟩

/-- A record replaced by one of the same index leaves a valid document. -/
theorem replaced_valid {c : StoredCheckpoint} {i : Nat} {r u : Checked WaveRecord.postInit}
    (hr : c.val.waves[i]? = some r) (hu : u.val.waveIndex = r.val.waveIndex) :
    WaveCheckpoint.postInit { c.val with
      generation := c.val.generation + 1
      waves := c.val.waves.take r.val.waveIndex ++
        u :: c.val.waves.drop (r.val.waveIndex + 1) } = .ok () := by
  have hi : i < c.val.waves.length := (List.getElem?_eq_some_iff.mp hr).1
  have hindex : r.val.waveIndex = i := c.waveIndex_eq hr
  have hset : c.val.waves.take r.val.waveIndex ++
      u :: c.val.waves.drop (r.val.waveIndex + 1) = c.val.waves.set i u := by
    rw [hindex, List.set_eq_take_append_cons_drop, if_pos hi]
  have hp := c.property
  rw [hset]
  simp only [WaveCheckpoint.postInit, check_bind_ok, raiseIf_ok, not_not, ne_eq] at hp ⊢
  obtain ⟨h1, _, h3, h4, h5, h6⟩ := hp
  refine ⟨h1, by omega, ?_, ?_, h5, h6⟩
  · intro hnil
    have hlen := congrArg List.length hnil
    rw [List.length_set] at hlen
    exact h3 (List.length_eq_zero_iff.mp hlen)
  · rw [List.length_set, ← h4, List.map_set]
    apply List.ext_getElem?
    intro j
    by_cases hij : i = j
    · subst hij
      have hget := (List.getElem?_eq_some_iff.mp hr).2
      simp [hi, hu, hget]
    · rw [List.getElem?_set_ne hij]

/-- Storing the verified revision passes both checks again. -/
theorem withUpdated_verified {c : StoredCheckpoint} {i : Nat}
    {r : Checked WaveRecord.postInit} {main : String} (hmain : isFullCommitSha main = true)
    (hr : c.val.waves[i]? = some r) :
    ∃ c', IssueWaveStore.withUpdated c r.val
      { r.val with verifiedMainSha := some main } = .ok c' := by
  have hrecord : WaveRecord.postInit { r.val with verifiedMainSha := some main } =
      .ok () := by
    have hp := r.property
    simp only [WaveRecord.postInit, check_bind_ok, raiseIf_ok] at hp ⊢
    obtain ⟨h1, h2, h3, h4, h5, h6, h7, h8, h9, _⟩ := hp
    exact ⟨h1, h2, h3, h4, h5, h6, h7, h8, h9, by simp [hmain]⟩
  obtain ⟨u, hu, hindex⟩ : ∃ u, Checked.make WaveRecord.postInit
      { r.val with verifiedMainSha := some main } = .ok u ∧
      u.val.waveIndex = r.val.waveIndex := ⟨_, Checked.make_of hrecord, rfl⟩
  exact ⟨_, except_bind_ok.mpr ⟨u, hu, Checked.make_of (replaced_valid hr hindex)⟩⟩

/-- The document belongs to the store that wrote it. -/
def BoundTo (store : IssueWaveStore) (s : WaveSystem) : Prop :=
  ∀ c, s.stored = some c → c.val.org = store.org ∧ c.val.repo = store.repo

theorem BoundTo.reachable {store : IssueWaveStore} {digest : EvidenceDigest}
    {s : WaveSystem} (h : Reachable (WaveSystem.step store digest) {} s) :
    BoundTo store s := by
  refine h.invariant (BoundTo store) (fun c hc => by cases hc) ?_
  intro t call u ht hs
  rcases WaveSystem.step_cases hs with rfl | ⟨p, sha, limit, rfl, _⟩ | ⟨_, c', hst, hw⟩
  · exact ht
  · exact ht
  · intro c hc
    obtain rfl := Option.some.inj (hst.symm.trans hc)
    generalize hold : t.stored = current at hw
    cases hw with
    | sealed _ _ _ _ hnext =>
        rw [hnext]
        exact ⟨rfl, rfl⟩
    | amended _ _ hnext =>
        rw [hnext]
        exact ht _ hold
    | completed hnext =>
        rw [hnext]
        exact ht _ hold

/-- A record that meets what the method asks for is verified. -/
theorem verifyPriorWave_returns {store : IssueWaveStore} {digest : EvidenceDigest}
    {c : StoredCheckpoint} {w : Checked WaveRecord.postInit} {i : Nat}
    {lease : Checked WaveLease.postInit} {main : String} {verified : Bool}
    {check : Option (String → List String → Option Bool)}
    {facts : Option (Int → Option IssueFacts)}
    (hbound : c.val.org = store.org ∧ c.val.repo = store.repo)
    (hw : c.val.waves[i]? = some w) (hlease : w.val.lease store.org store.repo = .ok lease)
    (hmain : isFullCommitSha main = true)
    (hv : store.verifyRecord digest main verified check facts w.val = .ok ()) :
    ∃ c', (store.verifyPriorWave digest lease main verified check facts).exec (some c) =
      (.ok c', some c') := by
  obtain ⟨c', hc'⟩ := withUpdated_verified hmain hw
  have hl := Checked.make_ok hlease
  have hread : store.readUnlocked.exec (some c) = (.ok (some c), some c) := by
    simp [IssueWaveStore.readUnlocked, Command.exec_bind, Command.exec_map, hbound, raiseIf,
      Except.map]
  have hrecord : IssueWaveStore.currentRecord c.val lease.val = .ok w := by
    simp [IssueWaveStore.currentRecord, hl, hbound, c.waveIndex_eq hw, hw, raiseIf, bind,
      Except.bind]
  refine ⟨c', Command.attempt_bind_ok.mpr ⟨(), by simp [hmain], ?_⟩⟩
  rw [IssueWaveStore.withRecord, Command.exec_bind, hread]
  refine Command.attempt_bind_ok.mpr ⟨w, hrecord, ?_⟩
  refine Command.attempt_bind_ok.mpr ⟨(), hv, ?_⟩
  exact Command.attempt_bind_ok.mpr ⟨c', hc', rfl⟩

/-- A history in which everything came before `main`. -/
def beforeMain (main : String) (a b : String) : Bool := a == b || b == main

theorem beforeMain_isPartialOrder (main : String) :
    IsPartialOrder String (fun a b => beforeMain main a b = true) where
  refl a := by simp [beforeMain]
  trans a b c hab hbc := by
    simp only [beforeMain, Bool.or_eq_true, beq_iff_eq] at *
    rcases hbc with rfl | hc
    · exact hab
    · exact .inr hc
  antisymm a b hab hba := by
    simp only [beforeMain, Bool.or_eq_true, beq_iff_eq] at *
    rcases hab with hab | hb
    · exact hab
    · rcases hba with hba | ha
      · exact hba.symm
      · rw [ha, hb]

/-- Verifying the current wave comes down to the counts and the facts. -/
theorem verifies_iff {store : IssueWaveStore} {digest : EvidenceDigest}
    {c : StoredCheckpoint} {w : Checked WaveRecord.postInit}
    (hbound : c.val.org = store.org ∧ c.val.repo = store.repo) (hok : CheckpointOk c)
    (hw : c.currentWave? = some w) (hpass : w.val.passed = true)
    (facts : Option (Int → Option IssueFacts)) :
    Verifies store digest c w facts ↔ w.val.Unmixed ∧ ∀ f, facts = some f →
      validateVerifiedOutcomeFacts digest w.val f store.repo = .ok () := by
  obtain ⟨w', hw', hlast⟩ := c.currentWave_eq
  obtain rfl := Option.some.inj (hw'.symm.trans hw)
  have hcount := WaveRecord.receipts_length_iff (WaveRecord.valid w') hpass
    (hok.receipted w' (List.mem_of_getElem? hlast))
  constructor
  · rintro ⟨lease, main, before, hlease, _, c', h⟩
    obtain ⟨r, hr, hv⟩ := verifyPriorWave_checked h
    have hindex : lease.val.waveIndex = c.val.waves.length - 1 := by
      rw [Checked.make_ok hlease]
      exact c.waveIndex_eq hlast
    rw [hindex, hlast] at hr
    obtain rfl := Option.some.inj hr
    obtain ⟨_, _, hlen, hfacts, _⟩ := verifyRecord_iff.mp hv
    exact ⟨hcount.mp hlen, hfacts⟩
  · rintro ⟨hun, hfacts⟩
    obtain ⟨lease, hlease⟩ := WaveRecord.lease_ok store w'
    have hcheck : store.verifyRecord digest pilotSha false
        (some fun head shas => some (shas.all (beforeMain pilotSha · head))) facts
        w'.val = .ok () := by
      refine verifyRecord_iff.mpr ⟨WaveRecord.complete_of_passed hpass, hpass,
        hcount.mpr hun, hfacts, .inl ?_⟩
      simp [beforeMain]
    exact ⟨lease, pilotSha, beforeMain pilotSha, hlease, beforeMain_isPartialOrder pilotSha,
      verifyPriorWave_returns hbound hlast hlease (by decide) hcheck⟩

/-- **A passed wave can be verified exactly when no issue of it has both a
receipt and a non-code outcome**, and with fresh facts at hand exactly when
the non-code intents can be confirmed as well. -/
theorem verifiable_iff {store : IssueWaveStore} {digest : EvidenceDigest} {s : WaveSystem}
    {c : StoredCheckpoint} {w : Checked WaveRecord.postInit}
    (hs : Reachable (WaveSystem.step store digest) {} s) (hc : s.stored = some c)
    (hw : c.currentWave? = some w) (hcomplete : w.val.complete = true)
    (hpass : w.val.passed = true) :
    ((∃ facts, Verifies store digest c w facts) ↔ w.val.Unmixed) ∧
    ((∃ facts, Verifies store digest c w (some facts)) ↔
      w.val.Unmixed ∧ w.val.Confirmable digest store.repo) := by
  have hok := (WaveSystem.Inv.reachable hs).checkpoint c hc
  have hbound := BoundTo.reachable hs c hc
  obtain ⟨w', hw', hlast⟩ := c.currentWave_eq
  obtain rfl := Option.some.inj (hw'.symm.trans hw)
  have hfacts : (∃ facts, validateVerifiedOutcomeFacts digest w'.val facts store.repo =
      .ok ()) ↔ w'.val.Confirmable digest store.repo :=
    validateVerifiedOutcomeFacts_iff (hok.receipted w' (List.mem_of_getElem? hlast)) hpass
  refine ⟨⟨?_, fun hun => ⟨none, ?_⟩⟩, ⟨?_, ?_⟩⟩
  · rintro ⟨facts, h⟩
    exact ((verifies_iff hbound hok hw hpass facts).mp h).1
  · exact (verifies_iff hbound hok hw hpass none).mpr ⟨hun, fun f hf => by cases hf⟩
  · rintro ⟨facts, h⟩
    obtain ⟨hun, hf⟩ := (verifies_iff hbound hok hw hpass (some facts)).mp h
    exact ⟨hun, hfacts.mp ⟨facts, hf facts rfl⟩⟩
  · rintro ⟨hun, hconf⟩
    obtain ⟨facts, hf⟩ := hfacts.mpr hconf
    refine ⟨facts, (verifies_iff hbound hok hw hpass (some facts)).mpr ⟨hun, ?_⟩⟩
    intro f hsome
    obtain rfl := Option.some.inj hsome
    exact hf

/-- Issue 7 is merged, and then also passed as needing no code. -/
def mixedCalls : List WaveCall :=
  pilotCalls ++
    [.recordMergeReceipt pilotLease 7 70 pilotSha pilotSha,
      .recordNonCodeIntent pilotLease 7 "nothing to do" pilotEvidence pilotSha [] "",
      .recordTerminalOutcome pilotLease 7 true "nothing to do" none true]

/-- Every call succeeds, the wave is complete and passed, and no facts, no
revision of main and no ancestry will ever verify it. -/
theorem receipt_then_nonCode_wedges :
    ∃ tr s c w, trace (WaveSystem.step pilotStore pilotDigest) {} mixedCalls = some (tr, s) ∧
      s.stored = some c ∧ c.currentWave? = some w ∧ w.val.complete = true ∧
      w.val.passed = true ∧ ¬ ∃ facts, Verifies pilotStore pilotDigest c w facts := by
  have hcalls : (trace (WaveSystem.step pilotStore pilotDigest) {} mixedCalls).any
      (fun y => y.2.stored.any fun c => c.currentWave?.any fun w =>
        w.val.complete && w.val.passed && w.val.outcomes.any fun o =>
          o.val.nonCode && w.val.receiptIds.contains o.val.issueNumber) = true := by
    decide
  obtain ⟨⟨tr, s⟩, hs, hst⟩ := (Option.any_eq_true _ _).mp hcalls
  obtain ⟨c, hc, hcw⟩ := (Option.any_eq_true _ _).mp hst
  obtain ⟨w, hw, hmixed⟩ := (Option.any_eq_true _ _).mp hcw
  simp only [Bool.and_eq_true, List.any_eq_true, List.contains_iff_mem] at hmixed
  obtain ⟨⟨hcomplete, hpass⟩, o, ho, hnc, hin⟩ := hmixed
  refine ⟨tr, s, c, w, hs, hc, hw, hcomplete, hpass, ?_⟩
  rintro ⟨facts, h⟩
  have hreach : Reachable (WaveSystem.step pilotStore pilotDigest) {} s := ⟨tr, trace_run hs⟩
  have hun := (verifies_iff (BoundTo.reachable hreach c hc)
    ((WaveSystem.Inv.reachable hreach).checkpoint c hc) hw hpass facts).mp h
  exact hun.1 o ho hnc hin

/-- The same wave without the receipt. -/
def nonCodeCalls : List WaveCall :=
  pilotCalls ++
    [.recordNonCodeIntent pilotLease 7 "nothing to do" pilotEvidence pilotSha [] "",
      .recordTerminalOutcome pilotLease 7 true "nothing to do" none true]

/-- A confirmed non-code outcome alone can be verified, with facts as
well. -/
theorem verifiable_iff_nonCode :
    ∃ tr s c w,
      trace (WaveSystem.step pilotStore pilotDigest) {} nonCodeCalls = some (tr, s) ∧
      s.stored = some c ∧ c.currentWave? = some w ∧
      (∃ facts, Verifies pilotStore pilotDigest c w facts) ∧
      ∃ facts, Verifies pilotStore pilotDigest c w (some facts) := by
  have hcalls : (trace (WaveSystem.step pilotStore pilotDigest) {} nonCodeCalls).any
      (fun y => y.2.stored.any fun c => c.currentWave?.any fun w =>
        w.val.complete && w.val.passed && w.val.receiptIds.isEmpty &&
          w.val.outcomes.all fun o => (w.val.intentFor o.val.issueNumber).any fun i =>
            i.val.extraLabels.isEmpty && i.val.evidenceDigest ==
              pilotDigest pilotStore.repo i.val.issueNumber i.val.repositoryRevision
                "No change needed" "Nothing is broken.") = true := by
    decide
  obtain ⟨⟨tr, s⟩, hs, hst⟩ := (Option.any_eq_true _ _).mp hcalls
  obtain ⟨c, hc, hcw⟩ := (Option.any_eq_true _ _).mp hst
  obtain ⟨w, hw, hwave⟩ := (Option.any_eq_true _ _).mp hcw
  simp only [Bool.and_eq_true, List.all_eq_true, Option.any_eq_true, List.isEmpty_iff,
    beq_iff_eq] at hwave
  obtain ⟨⟨⟨hcomplete, hpass⟩, hnone⟩, hintents⟩ := hwave
  have hun : w.val.Unmixed := by
    intro o _ _
    rw [hnone]
    exact List.not_mem_nil
  have hconf : w.val.Confirmable pilotDigest pilotStore.repo := by
    intro o ho _
    obtain ⟨i, hi, hlabels, hdigest⟩ := hintents o ho
    refine ⟨i, hi, ?_, "No change needed", "Nothing is broken.", hdigest⟩
    rw [hlabels]
    exact List.not_mem_nil
  have hiff := verifiable_iff ⟨tr, trace_run hs⟩ hc hw hcomplete hpass
  exact ⟨tr, s, c, w, hs, hc, hw, hiff.1.mpr hun, hiff.2.mpr ⟨hun, hconf⟩⟩

end Hephaestus.Automation
