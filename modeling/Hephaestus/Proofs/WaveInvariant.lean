import Hephaestus.Lib.Run
import Hephaestus.Lib.Keyed
import Hephaestus.Automation.IssueWaves

/-!
# The issue-wave checkpoint over whole runs

Nine methods write one document. What keeps the document consistent is not
in any one of them: a method that records evidence checks the record it
touches, a lease of an old wave stays usable, and the one method that adds
a wave trusts a plan computed by an earlier call. The invariant that makes
this work is about the plans in circulation: a selecting plan whose
expected generation is the current one still describes the document it was
made from (`PlanCurrent`), because every write raises the generation.

A write is one of three things: it adds a wave, it amends one record
(`Amends`), or it marks the rollout completed. `WaveSystem.step_cases` says
so once, and everything after it is read off that.
-/

namespace Hephaestus.Automation

open Hephaestus.Lib

/-! ## What the checks establish -/

theorem positiveIssueNumbersLoop_ok {fieldName : String} {seen values : List Int} :
    positiveIssueNumbersLoop fieldName seen values = .ok () ↔
      (∀ v ∈ values, 0 < v ∧ v ∉ seen) ∧ values.Nodup := by
  induction values generalizing seen with
  | nil => simp [positiveIssueNumbersLoop]
  | cons v vs ih =>
      simp only [positiveIssueNumbersLoop, check_bind_ok, raiseIf_ok, ih, List.mem_cons,
        List.nodup_cons, Int.not_le, not_or, forall_eq_or_imp]
      constructor
      · rintro ⟨hv, hseen, hvs, hnd⟩
        exact ⟨⟨⟨hv, hseen⟩, fun w hw => ⟨(hvs w hw).1, (hvs w hw).2.2⟩⟩,
          fun hmem => (hvs v hmem).2.1 rfl, hnd⟩
      · rintro ⟨⟨⟨hv, hseen⟩, hvs⟩, hnot, hnd⟩
        refine ⟨hv, hseen, fun w hw => ⟨(hvs w hw).1, ?_, (hvs w hw).2⟩, hnd⟩
        rintro rfl
        exact hnot hw

theorem positiveIssueNumbers_ok {fieldName : String} {values : List Int} :
    positiveIssueNumbers values fieldName = .ok () ↔
      (∀ v ∈ values, 0 < v) ∧ values.Nodup := by
  simp [positiveIssueNumbers, positiveIssueNumbersLoop_ok]

/-- What `WaveRecord.__post_init__` leaves true. -/
structure WaveRecord.Valid (r : WaveRecord) : Prop where
  limit : checkLimit r.limit "limit" = .ok ()
  issues : (∀ v ∈ r.issueNumbers, 0 < v) ∧ r.issueNumbers.Nodup
  base : isFullCommitSha r.baseMainSha = true
  nonce : r.leaseNonce ≠ ""
  outcomes : r.MatchesSelection r.outcomeIds
  receipts : r.MatchesSelection r.receiptIds
  intents : r.MatchesSelection r.intentIds
  nonCode : ∀ o ∈ r.outcomes, o.val.nonCode = true → r.intentMatches o.val = true

theorem WaveRecord.valid (r : Checked WaveRecord.postInit) : r.val.Valid := by
  have h := r.property
  simp only [WaveRecord.postInit, check_bind_ok, raiseIf_ok, requiredText, not_not] at h
  obtain ⟨hlimit, hissues, _, hbase, hnonce, hout, hrec, hint, hnc, _⟩ := h
  refine ⟨hlimit, positiveIssueNumbers_ok.mp hissues, hbase, hnonce, hout, hrec, hint, ?_⟩
  intro o ho hcode
  by_contra hm
  exact hnc (List.any_eq_true.mpr ⟨o, ho, by simp [hcode, hm]⟩)

/-- What `WaveCheckpoint.__post_init__` leaves true and the proofs use. -/
structure WaveCheckpoint.Valid (c : WaveCheckpoint) : Prop where
  generation : 1 ≤ c.generation
  waves : c.waves ≠ []
  indexes : c.waves.map (·.val.waveIndex) = List.range c.waves.length

theorem StoredCheckpoint.valid (c : StoredCheckpoint) : c.val.Valid := by
  have h := c.property
  simp only [WaveCheckpoint.postInit, check_bind_ok, raiseIf_ok, not_not, Nat.not_lt] at h
  exact ⟨h.2.1, h.2.2.1, h.2.2.2.1⟩

/-- The record at position `i` has index `i`. -/
theorem StoredCheckpoint.waveIndex_eq {c : StoredCheckpoint} {i : Nat}
    {r : Checked WaveRecord.postInit} (h : c.val.waves[i]? = some r) :
    r.val.waveIndex = i := by
  obtain ⟨hi, hr⟩ := List.getElem?_eq_some_iff.mp h
  have hidx := congrArg (·[i]?) c.valid.indexes
  simpa [hi, hr] using hidx

theorem StoredCheckpoint.currentWave_eq (c : StoredCheckpoint) :
    ∃ w, c.currentWave? = some w ∧ c.val.waves[c.val.waves.length - 1]? = some w := by
  have hne := c.valid.waves
  refine ⟨c.val.waves.getLast hne, ?_, ?_⟩
  · exact List.getLast?_eq_some_getLast hne
  · rw [← List.getLast?_eq_getElem?]
    exact List.getLast?_eq_some_getLast hne

/-- A lease of a record the store holds can always be made. -/
theorem WaveRecord.lease_ok (store : IssueWaveStore) (r : Checked WaveRecord.postInit) :
    ∃ l, r.val.lease store.org store.repo = .ok l := by
  have hv := WaveRecord.valid r
  refine ⟨_, Checked.make_of ?_⟩
  simp only [WaveLease.postInit, check_bind_ok, raiseIf_ok, requiredText, not_not]
  refine ⟨?_, hv.limit, positiveIssueNumbers_ok.mpr hv.issues, hv.base, hv.nonce⟩
  rintro (h | h)
  · exact store.org_ne h
  · exact store.repo_ne h

/-! ## What a method does to a record -/

/-- Every passed code outcome of the record has a merge receipt. -/
def WaveRecord.Receipted (r : WaveRecord) : Prop :=
  ∀ o ∈ r.outcomes, o.val.passed = true → o.val.nonCode = false →
    o.val.issueNumber ∈ r.receiptIds

/-- The record keeps its identity, its passed outcomes and its receipts. -/
structure Amends (r r' : WaveRecord) : Prop where
  waveIndex : r'.waveIndex = r.waveIndex
  limit : r'.limit = r.limit
  issueNumbers : r'.issueNumbers = r.issueNumbers
  baseMainSha : r'.baseMainSha = r.baseMainSha
  leaseNonce : r'.leaseNonce = r.leaseNonce
  outcomes : ∀ o ∈ r.outcomes, o.val.passed = true → o ∈ r'.outcomes
  receipts : ∀ m ∈ r.mergeReceipts, m ∈ r'.mergeReceipts
  receipted : r.Receipted → r'.Receipted

theorem Amends.refl (r : WaveRecord) : Amends r r :=
  ⟨rfl, rfl, rfl, rfl, rfl, fun _ h _ => h, fun _ h => h, id⟩

/-- Intents and the verified revision are nobody else's business. -/
theorem Amends.of_intents (r : WaveRecord)
    (intents : List (Checked WaveNonCodeIntent.postInit)) (sha : Option String) :
    Amends r { r with nonCodeIntents := intents, verifiedMainSha := sha } :=
  ⟨rfl, rfl, rfl, rfl, rfl, fun _ h _ => h, fun _ h => h, id⟩

/-- A record that was complete and passed still is: its outcomes cover the
selection already, and none of them can change. -/
theorem Amends.passed {r : WaveRecord} {r' : Checked WaveRecord.postInit}
    (h : Amends r r'.val) (hp : r.passed = true) : r'.val.passed = true := by
  have hv := WaveRecord.valid r'
  simp only [WaveRecord.passed, WaveRecord.complete, Bool.and_eq_true, decide_eq_true_eq,
    List.all_eq_true] at hp ⊢
  obtain ⟨⟨_, hcover⟩, hall⟩ := hp
  have hkept : ∀ n ∈ r.issueNumbers, ∃ o ∈ r'.val.outcomes,
      o.val.issueNumber = n ∧ o.val.passed = true := by
    intro n hn
    obtain ⟨o, ho, hid⟩ := List.mem_map.mp (hcover hn)
    exact ⟨o, h.outcomes o ho (hall o ho), hid, hall o ho⟩
  refine ⟨⟨hv.outcomes.2, ?_⟩, ?_⟩
  · intro n hn
    rw [h.issueNumbers] at hn
    obtain ⟨o, ho, hid, _⟩ := hkept n hn
    exact List.mem_map.mpr ⟨o, ho, hid⟩
  · intro o ho
    have hin := hv.outcomes.2 (List.mem_map_of_mem ho)
    rw [h.issueNumbers] at hin
    obtain ⟨o', ho', hid, hpass⟩ := hkept _ hin
    rw [eq_of_key_eq hv.outcomes.1 ho ho' hid.symm]
    exact hpass

theorem addIntent_amends {intent : Checked WaveNonCodeIntent.postInit} {r r' : WaveRecord}
    (h : IssueWaveStore.addIntent intent r = .ok (some r')) : Amends r r' := by
  unfold IssueWaveStore.addIntent at h
  split at h
  · split at h
    · cases h
    · obtain ⟨_, h⟩ := check_bind_ok.mp h
      obtain rfl := Option.some.inj (Except.ok.inj h)
      exact Amends.of_intents r _ _
  · obtain rfl := Option.some.inj (Except.ok.inj h)
    exact Amends.of_intents r _ _

theorem retireIntent_amends {intent : Checked WaveNonCodeIntent.postInit}
    {r r' : WaveRecord} (h : IssueWaveStore.retireIntent intent r = .ok (some r')) :
    Amends r r' := by
  simp only [IssueWaveStore.retireIntent] at h
  split at h
  · cases h
  · obtain ⟨_, h⟩ := check_bind_ok.mp h
    obtain ⟨_, h⟩ := check_bind_ok.mp h
    obtain rfl := Option.some.inj (Except.ok.inj h)
    exact Amends.of_intents r _ _

theorem dropIntent_amends {intent : Checked WaveNonCodeIntent.postInit}
    {r r' : WaveRecord} (h : IssueWaveStore.dropIntent intent r = .ok (some r')) :
    Amends r r' := by
  unfold IssueWaveStore.dropIntent at h
  split at h
  · cases h
  · obtain ⟨_, h⟩ := check_bind_ok.mp h
    obtain rfl := Option.some.inj (Except.ok.inj h)
    exact Amends.of_intents r _ _

/-- A receipt is only ever added, so nothing loses the one it has. -/
theorem addReceipt_amends {receipt : Checked WaveMergeReceipt.postInit}
    {r r' : WaveRecord} (h : IssueWaveStore.addReceipt receipt r = .ok (some r')) :
    Amends r r' := by
  unfold IssueWaveStore.addReceipt at h
  split at h
  · obtain ⟨_, h⟩ := check_bind_ok.mp h
    cases h
  · obtain rfl := Option.some.inj (Except.ok.inj h)
    refine ⟨rfl, rfl, rfl, rfl, rfl, fun _ ho _ => ho,
      fun _ hm => List.mem_append_left _ hm, ?_⟩
    intro hrec o ho hpass hcode
    have hid := hrec o ho hpass hcode
    simp only [WaveRecord.receiptIds, List.map_append]
    exact List.mem_append_left _ hid

/-- The outcome list with the outcome of one issue replaced. -/
theorem Amends.of_outcome {outcome : Checked WaveIssueOutcome.postInit} {r : WaveRecord}
    (hkeep : ∀ o ∈ r.outcomes, o.val.issueNumber = outcome.val.issueNumber →
      o.val.passed = true → o = outcome)
    (hrec : outcome.val.passed = true → outcome.val.nonCode = false →
      outcome.val.issueNumber ∈ r.receiptIds) :
    Amends r { r with
      outcomes := (r.outcomes.filter fun o =>
        o.val.issueNumber ≠ outcome.val.issueNumber) ++ [outcome] } := by
  refine ⟨rfl, rfl, rfl, rfl, rfl, ?_, fun _ hm => hm, ?_⟩
  · intro o ho hpass
    by_cases hid : o.val.issueNumber = outcome.val.issueNumber
    · rw [hkeep o ho hid hpass]
      exact List.mem_append_right _ (List.mem_singleton_self _)
    · exact List.mem_append_left _ (List.mem_filter.mpr ⟨ho, by simpa using hid⟩)
  · intro hall o ho hpass hcode
    rcases List.mem_append.mp ho with ho | ho
    · exact hall o (List.mem_of_mem_filter ho) hpass hcode
    · obtain rfl := List.mem_singleton.mp ho
      exact hrec hpass hcode

theorem addOutcome_amends {outcome : Checked WaveIssueOutcome.postInit} {r r' : WaveRecord}
    (hv : r.Valid) (h : IssueWaveStore.addOutcome outcome r = .ok (some r')) :
    Amends r r' := by
  obtain ⟨_, h⟩ := check_bind_ok.mp h
  obtain ⟨hreceipt, h⟩ := check_bind_ok.mp h
  have hrec : outcome.val.passed = true → outcome.val.nonCode = false →
      outcome.val.issueNumber ∈ r.receiptIds := by
    intro hp hc
    by_contra hn
    exact raiseIf_ok.mp hreceipt ⟨hp, by simp [hc], hn⟩
  split at h
  · next hnone =>
      obtain rfl := Option.some.inj (Except.ok.inj h)
      refine Amends.of_outcome ?_ hrec
      intro o ho hid _
      exact absurd (List.mem_map.mpr ⟨o, ho, hid⟩) (find?_key_none hnone)
  · next existing hfound =>
      obtain ⟨hmem, hkey⟩ := find?_key_some hfound
      have hsame : ∀ o ∈ r.outcomes, o.val.issueNumber = outcome.val.issueNumber →
          o = existing := by
        intro o ho hid
        exact eq_of_key_eq hv.outcomes.1 ho hmem (hid.trans hkey.symm)
      split at h
      · next heq =>
          obtain rfl := Option.some.inj (Except.ok.inj h)
          exact Amends.of_outcome (fun o ho hid _ => (hsame o ho hid).trans heq) hrec
      · obtain ⟨hfailed, h⟩ := check_bind_ok.mp h
        split at h
        · cases h
        · obtain rfl := Option.some.inj (Except.ok.inj h)
          refine Amends.of_outcome (fun o ho hid hpass => ?_) hrec
          rw [hsame o ho hid] at hpass
          exact absurd hpass (raiseIf_ok.mp hfailed)

/-! ## What a method does to the document -/

/-- One write. -/
inductive WaveWrite (store : IssueWaveStore) (plans : List WaveAdmissionPlan) :
    Option StoredCheckpoint → StoredCheckpoint → Prop
  | sealed {current : Option StoredCheckpoint} {c' : StoredCheckpoint}
      {plan : WaveAdmissionPlan} {selected : List Int} {nonce : String}
      {record : Checked WaveRecord.postInit} (hplan : plan ∈ plans)
      (hmode : plan.mode = .select)
      (hgen : plan.expectedGeneration = some (storedGeneration current))
      (hrecord : record.val =
        { waveIndex := plan.waveIndex.getD 0, limit := plan.requestedLimit,
          issueNumbers := selected, baseMainSha := plan.currentMainSha,
          leaseNonce := nonce })
      (hnext : c'.val =
        { org := store.org, repo := store.repo,
          generation := storedGeneration current + 1, status := .active,
          waves := storedWaves current ++ [record] }) : WaveWrite store plans current c'
  | amended {c c' : StoredCheckpoint} {i : Nat} {r r' : Checked WaveRecord.postInit}
      (hfound : c.val.waves[i]? = some r) (hamends : Amends r.val r'.val)
      (hnext : c'.val =
        { c.val with
          generation := c.val.generation + 1
          waves := c.val.waves.set i r' }) : WaveWrite store plans (some c) c'
  | completed {c c' : StoredCheckpoint} {sha : String}
      (hnext : c'.val =
        { c.val with
          generation := c.val.generation + 1
          status := .completed
          completedMainSha := some sha }) : WaveWrite store plans (some c) c'

namespace IssueWaveStore

open Command

variable {store : IssueWaveStore} {digest : EvidenceDigest}

theorem readUnlocked_readOnly (store : IssueWaveStore) : ReadOnly store.readUnlocked := by
  refine ReadOnly.bind ReadOnly.get fun c => ?_
  cases c with
  | none => exact ReadOnly.pure _
  | some c => exact ReadOnly.bind (ReadOnly.attempt _) fun _ => ReadOnly.pure _

theorem readUnlocked_ok {s t a : Option StoredCheckpoint}
    (h : store.readUnlocked.exec s = (.ok a, t)) : t = s ∧ a = s := by
  refine ⟨(readUnlocked_readOnly store).state_eq h, ?_⟩
  rw [readUnlocked, exec_bind, exec_get] at h
  cases s with
  | none => exact (Except.ok.inj (Prod.mk.inj h).1).symm
  | some c =>
      obtain ⟨_, _, h⟩ := attempt_bind_ok.mp h
      exact (Except.ok.inj (Prod.mk.inj h).1).symm

/-- A method that starts by reading goes on with the document it read. -/
theorem read_bind_ok {α : Type} {f : Option StoredCheckpoint → WaveCommand α}
    {s t : Option StoredCheckpoint} {a : α}
    (h : (store.readUnlocked >>= f).exec s = (.ok a, t)) :
    (f s).exec s = (.ok a, t) := by
  obtain ⟨c, u, hread, hf⟩ := bind_ok.mp h
  obtain ⟨hu, hc⟩ := readUnlocked_ok hread
  rw [hu, hc] at hf
  exact hf

theorem currentRecord_ok {c : WaveCheckpoint} {lease : WaveLease}
    {r : Checked WaveRecord.postInit} (h : currentRecord c lease = .ok r) :
    c.waves[lease.waveIndex]? = some r := by
  obtain ⟨_, h⟩ := check_bind_ok.mp h
  split at h
  · cases h
  · next r' hr' =>
      obtain ⟨_, h⟩ := check_bind_ok.mp h
      rw [hr', Except.ok.inj h]

theorem withRecord_allOrNothing {α : Type} {absent : IssueWaveError} {lease : WaveLease}
    {body : StoredCheckpoint → Checked WaveRecord.postInit → WaveCommand α}
    (hbody : ∀ c r, AllOrNothing (body c r)) :
    AllOrNothing (store.withRecord absent lease body) := by
  refine AllOrNothing.bind (readUnlocked_readOnly store) fun c => ?_
  cases c with
  | none => exact (ReadOnly.throw absent).allOrNothing
  | some c => exact AllOrNothing.bind (ReadOnly.attempt _) fun r => hbody c r

theorem withRecord_ok {α : Type} {absent : IssueWaveError} {lease : WaveLease}
    {body : StoredCheckpoint → Checked WaveRecord.postInit → WaveCommand α}
    {s t : Option StoredCheckpoint} {a : α}
    (h : (store.withRecord absent lease body).exec s = (.ok a, t)) :
    ∃ c r, s = some c ∧ c.val.waves[lease.waveIndex]? = some r ∧
      (body c r).exec s = (.ok a, t) := by
  replace h := read_bind_ok h
  cases s with
  | none => cases h
  | some c =>
      obtain ⟨r, hr, h⟩ := attempt_bind_ok.mp h
      exact ⟨c, r, rfl, currentRecord_ok hr, h⟩

/-- The slice assignment of the source is a `set`, since a record sits at
its own index. -/
theorem withUpdated_ok {c c' : StoredCheckpoint} {i : Nat}
    {r : Checked WaveRecord.postInit} {u : WaveRecord} (hr : c.val.waves[i]? = some r)
    (h : withUpdated c r.val u = .ok c') :
    ∃ r' : Checked WaveRecord.postInit, r'.val = u ∧
      c'.val = { c.val with
        generation := c.val.generation + 1, waves := c.val.waves.set i r' } := by
  obtain ⟨r', hr', h⟩ := except_bind_ok.mp h
  refine ⟨r', Checked.make_ok hr', ?_⟩
  have hi : i < c.val.waves.length := (List.getElem?_eq_some_iff.mp hr).1
  rw [Checked.make_ok h, c.waveIndex_eq hr, List.set_eq_take_append_cons_drop, if_pos hi]

/-- A write followed by a return. -/
theorem write_return {α : Type} (c : StoredCheckpoint) (a : α) :
    AllOrNothing (do set (some c); return a : WaveCommand α) :=
  AllOrNothing.write _ fun _ => exec_pure _ _

theorem updateRecord_allOrNothing (absent : IssueWaveError)
    (lease : Checked WaveLease.postInit)
    (change : WaveRecord → Except IssueWaveError (Option WaveRecord)) :
    AllOrNothing (store.updateRecord absent lease change) := by
  refine withRecord_allOrNothing fun c r => ?_
  refine AllOrNothing.bind (ReadOnly.attempt _) fun u => ?_
  cases u with
  | none => exact (ReadOnly.pure _).allOrNothing
  | some u => exact AllOrNothing.bind (ReadOnly.attempt _) fun c' => write_return c' lease

/-- A recording method that returned either wrote nothing or amended the
lease's record. -/
theorem updateRecord_ok {plans : List WaveAdmissionPlan} {absent : IssueWaveError}
    {lease a : Checked WaveLease.postInit}
    {change : WaveRecord → Except IssueWaveError (Option WaveRecord)}
    (hchange : ∀ r r', r.Valid → change r = .ok (some r') → Amends r r')
    {s t : Option StoredCheckpoint}
    (h : (store.updateRecord absent lease change).exec s = (.ok a, t)) :
    t = s ∨ ∃ c', t = some c' ∧ WaveWrite store plans s c' := by
  obtain ⟨c, r, rfl, hr, h⟩ := withRecord_ok h
  obtain ⟨u, hu, h⟩ := attempt_bind_ok.mp h
  cases u with
  | none => exact .inl (Prod.mk.inj h).2.symm
  | some u =>
      obtain ⟨c', hc', h⟩ := attempt_bind_ok.mp h
      obtain ⟨r', hr', hnext⟩ := withUpdated_ok hr hc'
      have hamends : Amends r.val r'.val := by
        rw [hr']
        exact hchange r.val u (WaveRecord.valid r) hu
      exact .inr ⟨c', (Prod.mk.inj h).2.symm, .amended hr hamends hnext⟩

theorem verifyPriorWave_allOrNothing (lease : Checked WaveLease.postInit) (sha : String)
    (verified : Bool) (check : Option (String → List String → Option Bool))
    (facts : Option (Int → Option IssueFacts)) :
    AllOrNothing (store.verifyPriorWave digest lease sha verified check facts) := by
  refine AllOrNothing.bind (ReadOnly.attempt _) fun _ => withRecord_allOrNothing fun c r => ?_
  refine AllOrNothing.bind (ReadOnly.attempt _) fun _ => ?_
  exact AllOrNothing.bind (ReadOnly.attempt _) fun c' => write_return c' c'

theorem verifyPriorWave_ok {plans : List WaveAdmissionPlan}
    {lease : Checked WaveLease.postInit} {sha : String} {verified : Bool}
    {check : Option (String → List String → Option Bool)}
    {facts : Option (Int → Option IssueFacts)} {s t : Option StoredCheckpoint}
    {a : StoredCheckpoint}
    (h : (store.verifyPriorWave digest lease sha verified check facts).exec s =
      (.ok a, t)) : ∃ c', t = some c' ∧ WaveWrite store plans s c' := by
  obtain ⟨_, _, h⟩ := attempt_bind_ok.mp h
  obtain ⟨c, r, rfl, hr, h⟩ := withRecord_ok h
  obtain ⟨_, _, h⟩ := attempt_bind_ok.mp h
  obtain ⟨c', hc', h⟩ := attempt_bind_ok.mp h
  obtain ⟨r', hr', hnext⟩ := withUpdated_ok hr hc'
  refine ⟨c', (Prod.mk.inj h).2.symm, .amended hr ?_ hnext⟩
  rw [hr']
  exact Amends.of_intents r.val _ _

theorem completeRollout_allOrNothing (lease : Checked WaveLease.postInit) (sha : String) :
    AllOrNothing (store.completeRollout lease sha) := by
  refine AllOrNothing.bind (ReadOnly.attempt _) fun _ => withRecord_allOrNothing fun c r => ?_
  exact AllOrNothing.bind (ReadOnly.attempt _) fun c' => write_return c' c'

theorem completeRollout_ok {plans : List WaveAdmissionPlan}
    {lease : Checked WaveLease.postInit} {sha : String} {s t : Option StoredCheckpoint}
    {a : StoredCheckpoint} (h : (store.completeRollout lease sha).exec s = (.ok a, t)) :
    ∃ c', t = some c' ∧ WaveWrite store plans s c' := by
  obtain ⟨_, _, h⟩ := attempt_bind_ok.mp h
  obtain ⟨c, r, rfl, hr, h⟩ := withRecord_ok h
  obtain ⟨c', hc', h⟩ := attempt_bind_ok.mp h
  obtain ⟨_, hc'⟩ := check_bind_ok.mp hc'
  obtain ⟨_, hc'⟩ := check_bind_ok.mp hc'
  exact ⟨c', (Prod.mk.inj h).2.symm, .completed (Checked.make_ok hc')⟩

theorem sealSelection_allOrNothing (plan : WaveAdmissionPlan) (selected : List Int)
    (nonce : String) : AllOrNothing (store.sealSelection plan selected nonce) := by
  refine AllOrNothing.bind (ReadOnly.attempt _) fun _ => ?_
  refine AllOrNothing.bind (ReadOnly.attempt _) fun _ => ?_
  split
  · cases plan.lease with
    | none => exact (ReadOnly.throw _).allOrNothing
    | some lease =>
        exact (ReadOnly.bind (ReadOnly.attempt _) fun _ => ReadOnly.pure _).allOrNothing
  · refine AllOrNothing.bind (ReadOnly.attempt _) fun _ => ?_
    refine AllOrNothing.bind (readUnlocked_readOnly store) fun _ => ?_
    refine AllOrNothing.bind (ReadOnly.attempt _) fun x => ?_
    -- The lease is made after the write; for a record that passed its own
    -- check this cannot fail.
    obtain ⟨l, hl⟩ := WaveRecord.lease_ok store x.1
    exact AllOrNothing.write _ fun s => by rw [hl, exec_attempt]

theorem sealSelection_ok {plans : List WaveAdmissionPlan} {plan : WaveAdmissionPlan}
    (hplan : plan ∈ plans) {selected : List Int} {nonce : String}
    {s t : Option StoredCheckpoint} {a : Checked WaveLease.postInit}
    (h : (store.sealSelection plan selected nonce).exec s = (.ok a, t)) :
    t = s ∨ ∃ c', t = some c' ∧ WaveWrite store plans s c' := by
  obtain ⟨_, hmode, h⟩ := attempt_bind_ok.mp h
  obtain ⟨_, _, h⟩ := attempt_bind_ok.mp h
  split at h
  · left
    split at h
    · cases h
    · obtain ⟨_, _, h⟩ := attempt_bind_ok.mp h
      exact (Prod.mk.inj h).2.symm
  · next hresume =>
      obtain ⟨_, _, h⟩ := attempt_bind_ok.mp h
      obtain ⟨x, hx, h⟩ := attempt_bind_ok.mp (read_bind_ok h)
      rw [exec_bind, exec_set] at h
      have hselect : plan.mode = .select := by
        by_contra hne
        exact raiseIf_ok.mp hmode ⟨hne, hresume⟩
      obtain ⟨hgen, hx⟩ := check_bind_ok.mp hx
      obtain ⟨_, hx⟩ := check_bind_ok.mp hx
      obtain ⟨record, hrecord, hx⟩ := except_bind_ok.mp hx
      obtain ⟨c', hc', hx⟩ := except_bind_ok.mp hx
      obtain rfl := Except.ok.inj hx
      have hgen' := not_not.mp (raiseIf_ok.mp hgen)
      exact .inr ⟨c', (Prod.mk.inj h).2.symm, .sealed hplan hselect hgen'.symm
        (Checked.make_ok hrecord) (Checked.make_ok hc')⟩

theorem planAdmission_readOnly (sha : String) (limit : Option Int) :
    ReadOnly (store.planAdmission sha limit) := by
  refine ReadOnly.bind (ReadOnly.attempt _) fun _ => ?_
  refine ReadOnly.bind (ReadOnly.attempt _) fun _ => ?_
  exact ReadOnly.bind (readUnlocked_readOnly store) fun _ => ReadOnly.attempt _

theorem planAdmission_ok {sha : String} {limit : Option Int}
    {s t : Option StoredCheckpoint} {p : WaveAdmissionPlan}
    (h : (store.planAdmission sha limit).exec s = (.ok p, t)) :
    t = s ∧ store.planFor sha limit s = .ok p := by
  refine ⟨(planAdmission_readOnly sha limit).state_eq h, ?_⟩
  obtain ⟨_, _, h⟩ := attempt_bind_ok.mp h
  obtain ⟨_, _, h⟩ := attempt_bind_ok.mp h
  exact (Prod.mk.inj (read_bind_ok h)).1

end IssueWaveStore

/-- Every call is all or nothing. -/
theorem WaveCall.run_allOrNothing (store : IssueWaveStore) (digest : EvidenceDigest)
    (call : WaveCall) : (call.run store digest).AllOrNothing := by
  open Command IssueWaveStore in
  cases call with
  | planAdmission sha limit =>
      exact (planAdmission_readOnly sha limit).allOrNothing.map _
  | sealSelection plan selected nonce =>
      exact (sealSelection_allOrNothing plan selected nonce).map _
  | recordNonCodeIntent lease issue reason evidence revision labels explanation =>
      exact (AllOrNothing.bind (ReadOnly.attempt _) fun _ =>
        updateRecord_allOrNothing _ _ _).map _
  | retireNonCodeIntent lease intent => exact (updateRecord_allOrNothing _ _ _).map _
  | completeNonCodeIntentRetirement lease intent =>
      exact (updateRecord_allOrNothing _ _ _).map _
  | recordMergeReceipt lease issue pr head merge =>
      exact (AllOrNothing.bind (ReadOnly.attempt _) fun _ =>
        updateRecord_allOrNothing _ _ _).map _
  | recordTerminalOutcome lease issue passed reason pr nonCode =>
      exact (AllOrNothing.bind (ReadOnly.attempt _) fun _ =>
        updateRecord_allOrNothing _ _ _).map _
  | verifyPriorWave lease sha verified check facts =>
      exact (verifyPriorWave_allOrNothing lease sha verified check facts).map _
  | completeRollout lease sha => exact (completeRollout_allOrNothing lease sha).map _

/-- A call that returned wrote nothing or made one write. -/
theorem WaveCall.run_ok {store : IssueWaveStore} {digest : EvidenceDigest}
    {plans : List WaveAdmissionPlan} {call : WaveCall}
    (hplan : ∀ plan selected nonce, call = .sealSelection plan selected nonce →
      plan ∈ plans) {s t : Option StoredCheckpoint} {a : WaveReply}
    (h : (call.run store digest).exec s = (.ok a, t)) :
    t = s ∨ ∃ c', t = some c' ∧ WaveWrite store plans s c' := by
  cases call with
  | planAdmission sha limit =>
      obtain ⟨p, hp⟩ := Command.map_ok h
      exact .inl (IssueWaveStore.planAdmission_ok hp).1
  | sealSelection plan selected nonce =>
      obtain ⟨l, hl⟩ := Command.map_ok h
      exact IssueWaveStore.sealSelection_ok (hplan plan selected nonce rfl) hl
  | recordNonCodeIntent lease issue reason evidence revision labels explanation =>
      obtain ⟨l, hl⟩ := Command.map_ok h
      obtain ⟨intent, _, hl⟩ := Command.attempt_bind_ok.mp hl
      exact IssueWaveStore.updateRecord_ok (fun _ _ _ => addIntent_amends) hl
  | retireNonCodeIntent lease intent =>
      obtain ⟨l, hl⟩ := Command.map_ok h
      exact IssueWaveStore.updateRecord_ok (fun _ _ _ => retireIntent_amends) hl
  | completeNonCodeIntentRetirement lease intent =>
      obtain ⟨l, hl⟩ := Command.map_ok h
      exact IssueWaveStore.updateRecord_ok (fun _ _ _ => dropIntent_amends) hl
  | recordMergeReceipt lease issue pr head merge =>
      obtain ⟨l, hl⟩ := Command.map_ok h
      obtain ⟨receipt, _, hl⟩ := Command.attempt_bind_ok.mp hl
      exact IssueWaveStore.updateRecord_ok (fun _ _ _ => addReceipt_amends) hl
  | recordTerminalOutcome lease issue passed reason pr nonCode =>
      obtain ⟨l, hl⟩ := Command.map_ok h
      obtain ⟨outcome, _, hl⟩ := Command.attempt_bind_ok.mp hl
      exact IssueWaveStore.updateRecord_ok (fun _ _ hv => addOutcome_amends hv) hl
  | verifyPriorWave lease sha verified check facts =>
      obtain ⟨c, hc⟩ := Command.map_ok h
      exact .inr (IssueWaveStore.verifyPriorWave_ok hc)
  | completeRollout lease sha =>
      obtain ⟨c, hc⟩ := Command.map_ok h
      exact .inr (IssueWaveStore.completeRollout_ok hc)

/-- A reply that is a plan is the plan for the document the call read. -/
theorem WaveCall.run_plan {store : IssueWaveStore} {digest : EvidenceDigest}
    {call : WaveCall} {s t : Option StoredCheckpoint} {p : WaveAdmissionPlan}
    (h : (call.run store digest).exec s = (.ok (.plan p), t)) :
    t = s ∧ ∃ sha limit, store.planFor sha limit s = .ok p := by
  cases call with
  | planAdmission sha limit =>
      obtain ⟨p', hp', hx⟩ := Command.map_ok_eq h
      obtain rfl := WaveReply.plan.inj hx
      obtain ⟨ht, hp⟩ := IssueWaveStore.planAdmission_ok hp'
      exact ⟨ht, sha, limit, hp⟩
  | _ =>
      obtain ⟨_, _, hx⟩ := Command.map_ok_eq h
      cases hx

/-- **What a step can do**: nothing, hand out a plan for the document as it
is, or make one write. -/
theorem WaveSystem.step_cases {store : IssueWaveStore} {digest : EvidenceDigest}
    {s t : WaveSystem} {call : WaveCall} (h : s.step store digest call = some t) :
    t = s ∨
    (∃ p sha limit, t = { s with plans := p :: s.plans } ∧
      store.planFor sha limit s.stored = .ok p) ∨
    (t.plans = s.plans ∧ ∃ c', t.stored = some c' ∧ WaveWrite store s.plans s.stored c') := by
  have hcall : ∀ t', (∀ plan selected nonce, call = .sealSelection plan selected nonce →
      plan ∈ s.plans) → ((call.run store digest).exec s.stored).2 = t' →
      t' = s.stored ∨ ∃ c', t' = some c' ∧ WaveWrite store s.plans s.stored c' := by
    intro t' hplan ht'
    rcases hx : (call.run store digest).exec s.stored with ⟨e | a, u⟩
    · rw [hx] at ht'
      exact .inl (ht'.symm.trans (call.run_allOrNothing store digest _ _ _ hx))
    · rw [hx] at ht'
      obtain rfl : u = t' := ht'
      exact WaveCall.run_ok hplan hx
  have hwrote : ∀ t', t' = s.stored ∨
      (∃ c', t' = some c' ∧ WaveWrite store s.plans s.stored c') →
      ({ s with stored := t' } : WaveSystem) = s ∨
      (s.plans = s.plans ∧ ∃ c', t' = some c' ∧ WaveWrite store s.plans s.stored c') := by
    rintro t' (rfl | hw)
    · exact .inl rfl
    · exact .inr ⟨rfl, hw⟩
  unfold WaveSystem.step at h
  split at h
  · next plan selected nonce =>
      split at h
      · next hmem =>
          obtain rfl := Option.some.inj h
          have hw := hwrote _ (hcall _ (fun p _ _ heq => by cases heq; exact hmem) rfl)
          exact hw.imp_right .inr
      · cases h
  · next hseal =>
      have hplan : ∀ plan selected nonce, call = .sealSelection plan selected nonce →
          plan ∈ s.plans := fun plan selected nonce heq => absurd heq (hseal plan selected nonce)
      split at h
      · next p stored hx =>
          obtain rfl := Option.some.inj h
          obtain ⟨hst, sha, limit, hp⟩ := WaveCall.run_plan hx
          exact .inr (.inl ⟨p, sha, limit, by rw [hst], hp⟩)
      · next r stored _ hx =>
          obtain rfl := Option.some.inj h
          have hw := hwrote stored (hcall stored hplan (by rw [hx]))
          exact hw.imp_right .inr

/-! ## The invariant -/

/-- What holds of every checkpoint a run can store. -/
structure CheckpointOk (c : StoredCheckpoint) : Prop where
  limits : ∀ (i : Nat) (r : Checked WaveRecord.postInit),
    c.val.waves[i]? = some r → waveLimits[i]? = some r.val.limit
  earlier : ∀ (i : Nat) (r : Checked WaveRecord.postInit),
    c.val.waves[i]? = some r → i + 1 < c.val.waves.length →
    r.val.complete = true ∧ r.val.passed = true
  receipted : ∀ r ∈ c.val.waves, ∀ o ∈ r.val.outcomes, o.val.passed = true →
    o.val.nonCode = false → o.val.issueNumber ∈ r.val.receiptIds
  nonCode : ∀ r ∈ c.val.waves, ∀ o ∈ r.val.outcomes, o.val.nonCode = true →
    ∃ i ∈ r.val.nonCodeIntents, i.val.issueNumber = o.val.issueNumber ∧
      i.val.retired = false ∧ i.val.reason = o.val.reason

/-- A selecting plan is out of date, or describes the document as it is:
the next wave's limit and index, a passed last wave, a rollout still on. -/
def PlanCurrent (stored : Option StoredCheckpoint) (p : WaveAdmissionPlan) : Prop :=
  p.mode = .select → ∃ g, p.expectedGeneration = some g ∧ g ≤ storedGeneration stored ∧
    (g = storedGeneration stored →
      waveLimits[(storedWaves stored).length]? = some p.requestedLimit ∧
      p.waveIndex = some (storedWaves stored).length ∧
      (∀ r, (storedWaves stored).getLast? = some r → r.val.passed = true) ∧
      ∀ c, stored = some c → c.val.status = .active)

/-- The invariant of the system. -/
structure WaveSystem.Inv (s : WaveSystem) : Prop where
  checkpoint : ∀ c, s.stored = some c → CheckpointOk c
  plans : ∀ p ∈ s.plans, PlanCurrent s.stored p

theorem WaveRecord.complete_of_passed {r : WaveRecord} (h : r.passed = true) :
    r.complete = true := by
  simp only [WaveRecord.passed, Bool.and_eq_true] at h
  exact h.1

/-- The intent a non-code outcome needs is there: the record's own check
asks for it at every write. -/
theorem WaveRecord.intent_of_nonCode (r : Checked WaveRecord.postInit)
    {o : Checked WaveIssueOutcome.postInit} (ho : o ∈ r.val.outcomes)
    (hcode : o.val.nonCode = true) :
    ∃ i ∈ r.val.nonCodeIntents, i.val.issueNumber = o.val.issueNumber ∧
      i.val.retired = false ∧ i.val.reason = o.val.reason := by
  have hm := (WaveRecord.valid r).nonCode o ho hcode
  simp only [WaveRecord.intentMatches, Option.any_eq_true, Bool.and_eq_true,
    Bool.not_eq_true', beq_iff_eq] at hm
  obtain ⟨i, hi, hret, hreason⟩ := hm
  obtain ⟨hmem, hkey⟩ := find?_key_some hi
  exact ⟨i, hmem, hkey, hret, hreason⟩

theorem nextLimit_of_index {k : Nat} {l : Option Int} (h : waveLimits[k]? = some l)
    (hne : IssueWaveStore.nextLimit l ≠ l) :
    waveLimits[k + 1]? = some (IssueWaveStore.nextLimit l) := by
  have hk : k < 5 := (List.getElem?_eq_some_iff.mp h).1
  have hcases : k = 0 ∨ k = 1 ∨ k = 2 ∨ k = 3 ∨ k = 4 := by omega
  rcases hcases with rfl | rfl | rfl | rfl | rfl <;> obtain rfl := Option.some.inj h
  · rfl
  · rfl
  · rfl
  · rfl
  · exact absurd rfl hne

/-- A plan is current when it is handed out. -/
theorem planFor_current {store : IssueWaveStore} {sha : String} {limit : Option Int}
    {stored : Option StoredCheckpoint} {p : WaveAdmissionPlan}
    (hok : ∀ c, stored = some c → CheckpointOk c)
    (h : store.planFor sha limit stored = .ok p) : PlanCurrent stored p := by
  intro hmode
  unfold IssueWaveStore.planFor at h
  cases stored with
  | none =>
      simp only [Option.bind_none, IssueWaveStore.planFirstWave] at h
      split at h
      · obtain rfl := Except.ok.inj h
        cases hmode
      · obtain ⟨hlim, h⟩ := check_bind_ok.mp h
        obtain rfl := Except.ok.inj h
        have hfirst : some limit = waveLimits.head? := not_not.mp (raiseIf_ok.mp hlim)
        refine ⟨0, rfl, Nat.le_refl _, fun _ => ⟨?_, rfl, ?_, ?_⟩⟩
        · exact hfirst.symm
        · intro r hr
          cases hr
        · intro c hc
          cases hc
  | some c =>
      obtain ⟨w, hw, hlast⟩ := c.currentWave_eq
      simp only [hw, Option.bind_some, Option.map_some] at h
      obtain ⟨lease, _, h⟩ := except_bind_ok.mp h
      split at h
      · obtain ⟨_, h⟩ := check_bind_ok.mp h
        obtain ⟨_, h⟩ := check_bind_ok.mp h
        obtain rfl := Except.ok.inj h
        cases hmode
      · next hactive =>
          split at h
          · obtain ⟨_, h⟩ := check_bind_ok.mp h
            split at h <;> obtain rfl := Except.ok.inj h <;> cases hmode
          · next hlimit =>
              obtain ⟨hpassed, h⟩ := check_bind_ok.mp h
              obtain ⟨hnext, h⟩ := check_bind_ok.mp h
              obtain rfl := Except.ok.inj h
              have hlen : c.val.waves.length ≠ 0 := by
                simpa using c.valid.waves
              have hidx := c.waveIndex_eq hlast
              have hexp : limit = IssueWaveStore.nextLimit w.val.limit :=
                not_not.mp (raiseIf_ok.mp hnext)
              have hlim := nextLimit_of_index ((hok c rfl).limits _ _ hlast)
                (fun heq => hlimit (hexp.trans heq))
              have hsucc : c.val.waves.length - 1 + 1 = c.val.waves.length := by omega
              rw [hsucc] at hlim
              refine ⟨c.val.generation, rfl, Nat.le_refl _, fun _ => ⟨?_, ?_, ?_, ?_⟩⟩
              · rw [hexp]
                exact hlim
              · show some (w.val.waveIndex + 1) = some c.val.waves.length
                rw [hidx, hsucc]
              · intro r hr
                obtain rfl : w = r := Option.some.inj (hw.symm.trans hr)
                by_contra hnp
                exact raiseIf_ok.mp hpassed (.inr hnp)
              · intro c' hc'
                obtain rfl := Option.some.inj hc'
                cases hst : c.val.status with
                | active => rfl
                | completed => exact absurd hst hactive

theorem storedGeneration_some (c : StoredCheckpoint) :
    storedGeneration (some c) = c.val.generation := rfl

/-- Every write raises the generation. -/
theorem WaveWrite.generation {store : IssueWaveStore} {plans : List WaveAdmissionPlan}
    {s : Option StoredCheckpoint} {c' : StoredCheckpoint} (h : WaveWrite store plans s c') :
    c'.val.generation = storedGeneration s + 1 := by
  cases h with
  | sealed _ _ _ _ hnext => rw [hnext]
  | amended _ _ hnext => rw [hnext, storedGeneration_some]
  | completed hnext => rw [hnext, storedGeneration_some]

/-- After a write every plan in circulation is out of date. -/
theorem PlanCurrent.write {store : IssueWaveStore} {plans : List WaveAdmissionPlan}
    {s : Option StoredCheckpoint} {c' : StoredCheckpoint} {p : WaveAdmissionPlan}
    (hp : PlanCurrent s p) (h : WaveWrite store plans s c') : PlanCurrent (some c') p := by
  intro hmode
  obtain ⟨g, hg, hle, _⟩ := hp hmode
  have hgen := h.generation
  refine ⟨g, hg, ?_, fun heq => ?_⟩
  · rw [storedGeneration_some]
    omega
  · rw [storedGeneration_some] at heq
    omega

theorem CheckpointOk.sealed {s : Option StoredCheckpoint}
    {c' : StoredCheckpoint} {record : Checked WaveRecord.postInit} {limit : Option Int}
    (hok : ∀ c, s = some c → CheckpointOk c)
    (hlimit : waveLimits[(storedWaves s).length]? = some limit)
    (hlast : ∀ r, (storedWaves s).getLast? = some r → r.val.passed = true)
    (hrec : record.val.limit = limit ∧ record.val.outcomes = [])
    (hwaves : c'.val.waves = storedWaves s ++ [record]) : CheckpointOk c' := by
  have hold : ∀ (i : Nat) (r : Checked WaveRecord.postInit),
      (storedWaves s)[i]? = some r → waveLimits[i]? = some r.val.limit := by
    cases s with
    | none => simp [storedWaves]
    | some c => exact (hok c rfl).limits
  have hprev : ∀ (i : Nat) (r : Checked WaveRecord.postInit),
      (storedWaves s)[i]? = some r → i + 1 < (storedWaves s).length →
      r.val.complete = true ∧ r.val.passed = true := by
    cases s with
    | none => simp [storedWaves]
    | some c => exact (hok c rfl).earlier
  have hreceipted : ∀ r ∈ storedWaves s, r.val.Receipted := by
    cases s with
    | none => simp [storedWaves]
    | some c => exact (hok c rfl).receipted
  refine ⟨?_, ?_, ?_, fun r _ o ho hc => WaveRecord.intent_of_nonCode r ho hc⟩
  · intro i r hi
    rw [hwaves] at hi
    rcases Nat.lt_or_ge i (storedWaves s).length with hlt | hge
    · rw [List.getElem?_append_left hlt] at hi
      exact hold i r hi
    · rw [List.getElem?_append_right hge] at hi
      obtain ⟨hz, rfl⟩ : i - (storedWaves s).length = 0 ∧ record = r := by
        rw [List.getElem?_singleton] at hi
        split at hi
        · next hz => exact ⟨hz, Option.some.inj hi⟩
        · cases hi
      obtain rfl : i = (storedWaves s).length := by omega
      rw [hlimit, hrec.1]
  · intro i r hi hlt
    rw [hwaves] at hi hlt
    simp only [List.length_append, List.length_singleton, Nat.add_lt_add_iff_right] at hlt
    rw [List.getElem?_append_left hlt] at hi
    rcases Nat.lt_or_ge (i + 1) (storedWaves s).length with hmid | hend
    · exact hprev i r hi hmid
    · have hpass : r.val.passed = true := by
        refine hlast r ?_
        rw [List.getLast?_eq_getElem?, ← hi]
        congr 1
        omega
      exact ⟨WaveRecord.complete_of_passed hpass, hpass⟩
  · intro r hr
    rw [hwaves] at hr
    rcases List.mem_append.mp hr with hr | hr
    · exact hreceipted r hr
    · obtain rfl := List.mem_singleton.mp hr
      intro o ho
      rw [hrec.2] at ho
      cases ho

theorem CheckpointOk.amended {c c' : StoredCheckpoint} {i : Nat}
    {r r' : Checked WaveRecord.postInit} (hok : CheckpointOk c)
    (hfound : c.val.waves[i]? = some r) (h : Amends r.val r'.val)
    (hwaves : c'.val.waves = c.val.waves.set i r') : CheckpointOk c' := by
  have hset : ∀ (j : Nat) (w : Checked WaveRecord.postInit), c'.val.waves[j]? = some w →
      c.val.waves[j]? = some w ∨ (j = i ∧ w = r') := by
    intro j w hj
    rw [hwaves, List.getElem?_set] at hj
    split at hj
    · next heq =>
        split at hj
        · exact .inr ⟨heq.symm, (Option.some.inj hj).symm⟩
        · cases hj
    · exact .inl hj
  refine ⟨?_, ?_, ?_, fun r _ o ho hc => WaveRecord.intent_of_nonCode r ho hc⟩
  · intro j w hj
    rcases hset j w hj with hj | ⟨rfl, rfl⟩
    · exact hok.limits j w hj
    · rw [h.limit]
      exact hok.limits j r hfound
  · intro j w hj hlt
    rw [hwaves, List.length_set] at hlt
    rcases hset j w hj with hj | ⟨rfl, rfl⟩
    · exact hok.earlier j w hj hlt
    · have hp := h.passed (hok.earlier j r hfound hlt).2
      exact ⟨WaveRecord.complete_of_passed hp, hp⟩
  · intro w hw
    obtain ⟨j, hj⟩ := List.mem_iff_getElem?.mp hw
    rcases hset j w hj with hj | ⟨rfl, rfl⟩
    · exact hok.receipted w (List.mem_of_getElem? hj)
    · exact h.receipted (hok.receipted r (List.mem_of_getElem? hfound))

theorem CheckpointOk.same_waves {c c' : StoredCheckpoint} (hok : CheckpointOk c)
    (hwaves : c'.val.waves = c.val.waves) : CheckpointOk c' := by
  refine ⟨?_, ?_, ?_, ?_⟩ <;> rw [hwaves]
  · exact hok.limits
  · exact hok.earlier
  · exact hok.receipted
  · exact hok.nonCode

/-- A write keeps the invariant of the document. -/
theorem CheckpointOk.write {store : IssueWaveStore} {plans : List WaveAdmissionPlan}
    {s : Option StoredCheckpoint} {c' : StoredCheckpoint}
    (hok : ∀ c, s = some c → CheckpointOk c) (hplans : ∀ p ∈ plans, PlanCurrent s p)
    (h : WaveWrite store plans s c') : CheckpointOk c' := by
  cases h with
  | sealed hplan hmode hgen hrecord hnext =>
      obtain ⟨g, hg, _, hcur⟩ := hplans _ hplan hmode
      obtain rfl := Option.some.inj (hg.symm.trans hgen)
      obtain ⟨hlimit, _, hlast, _⟩ := hcur rfl
      exact CheckpointOk.sealed hok hlimit hlast
        ⟨by rw [hrecord], by rw [hrecord]⟩ (by rw [hnext])
  | amended hfound hamends hnext =>
      exact (hok _ rfl).amended hfound hamends (by rw [hnext])
  | completed hnext => exact (hok _ rfl).same_waves (by rw [hnext])

theorem WaveSystem.Inv.step {store : IssueWaveStore} {digest : EvidenceDigest}
    {s t : WaveSystem} {call : WaveCall} (h : s.Inv)
    (hs : s.step store digest call = some t) : t.Inv := by
  rcases WaveSystem.step_cases hs with rfl | ⟨p, sha, limit, rfl, hp⟩ | ⟨hpl, c', hst, hw⟩
  · exact h
  · refine ⟨h.checkpoint, fun q hq => ?_⟩
    rcases List.mem_cons.mp hq with rfl | hq
    · exact planFor_current h.checkpoint hp
    · exact h.plans q hq
  · refine ⟨fun c hc => ?_, fun q hq => ?_⟩
    · obtain rfl := Option.some.inj (hst.symm.trans hc)
      exact CheckpointOk.write h.checkpoint h.plans hw
    · rw [hpl] at hq
      rw [hst]
      exact (h.plans q hq).write hw

theorem WaveSystem.Inv.reachable {store : IssueWaveStore} {digest : EvidenceDigest}
    {s : WaveSystem} (h : Reachable (WaveSystem.step store digest) {} s) : s.Inv :=
  h.invariant WaveSystem.Inv ⟨fun c hc => (by cases hc), fun p hp => (by cases hp)⟩
    fun _ _ _ ht hs => ht.step hs

/-! ## How a document evolves -/

/-- `c'` is what `c` has become: no wave lost, each with its selection, its
passed outcomes and its receipts; a completed rollout stays completed and
gets no further wave. -/
structure Evolves (c c' : StoredCheckpoint) : Prop where
  waves : ∀ (i : Nat) (r : Checked WaveRecord.postInit), c.val.waves[i]? = some r →
    ∃ r' : Checked WaveRecord.postInit, c'.val.waves[i]? = some r' ∧ Amends r.val r'.val
  completed : c.val.status = .completed →
    c'.val.status = .completed ∧ c'.val.waves.length = c.val.waves.length

theorem Amends.trans {r r' r'' : WaveRecord} (h : Amends r r') (h' : Amends r' r'') :
    Amends r r'' :=
  ⟨h'.waveIndex.trans h.waveIndex, h'.limit.trans h.limit,
    h'.issueNumbers.trans h.issueNumbers, h'.baseMainSha.trans h.baseMainSha,
    h'.leaseNonce.trans h.leaseNonce,
    fun o ho hp => h'.outcomes o (h.outcomes o ho hp) hp,
    fun m hm => h'.receipts m (h.receipts m hm), h'.receipted ∘ h.receipted⟩

theorem Evolves.refl (c : StoredCheckpoint) : Evolves c c :=
  ⟨fun _ r hr => ⟨r, hr, Amends.refl r.val⟩, fun h => ⟨h, rfl⟩⟩

theorem Evolves.trans {c c' c'' : StoredCheckpoint} (h : Evolves c c')
    (h' : Evolves c' c'') : Evolves c c'' := by
  refine ⟨fun i r hr => ?_, fun hc => ?_⟩
  · obtain ⟨r', hr', ha⟩ := h.waves i r hr
    obtain ⟨r'', hr'', ha'⟩ := h'.waves i r' hr'
    exact ⟨r'', hr'', ha.trans ha'⟩
  · obtain ⟨hc', hlen⟩ := h.completed hc
    obtain ⟨hc'', hlen'⟩ := h'.completed hc'
    exact ⟨hc'', hlen'.trans hlen⟩

theorem Evolves.write {store : IssueWaveStore} {plans : List WaveAdmissionPlan}
    {c c' : StoredCheckpoint} (hplans : ∀ p ∈ plans, PlanCurrent (some c) p)
    (h : WaveWrite store plans (some c) c') : Evolves c c' := by
  cases h with
  | sealed hplan hmode hgen hrecord hnext =>
      obtain ⟨g, hg, _, hcur⟩ := hplans _ hplan hmode
      obtain rfl := Option.some.inj (hg.symm.trans hgen)
      have hactive := (hcur rfl).2.2.2 c rfl
      refine ⟨fun i r hr => ⟨r, ?_, Amends.refl r.val⟩, fun hc => ?_⟩
      · rw [hnext]
        have hi : i < c.val.waves.length := (List.getElem?_eq_some_iff.mp hr).1
        exact (List.getElem?_append_left hi).trans hr
      · rw [hactive] at hc
        cases hc
  | @amended _ _ i r r' hfound hamends hnext =>
      refine ⟨fun j w hj => ?_, fun hc => ?_⟩
      · rw [hnext]
        by_cases hij : i = j
        · subst hij
          obtain rfl := Option.some.inj (hfound.symm.trans hj)
          exact ⟨r', by simp [(List.getElem?_eq_some_iff.mp hj).1], hamends⟩
        · exact ⟨w, (List.getElem?_set_ne hij).trans hj, Amends.refl w.val⟩
      · rw [hnext]
        exact ⟨hc, List.length_set⟩
  | completed hnext =>
      refine ⟨fun i r hr => ⟨r, ?_, Amends.refl r.val⟩, fun _ => ?_⟩
      · rw [hnext]
        exact hr
      · rw [hnext]
        exact ⟨rfl, rfl⟩

/-- One step takes the document to something it may become. -/
theorem WaveSystem.step_evolves {store : IssueWaveStore} {digest : EvidenceDigest}
    {s t : WaveSystem} {call : WaveCall} (h : s.Inv)
    (hs : s.step store digest call = some t) {c : StoredCheckpoint}
    (hc : s.stored = some c) : ∃ c', t.stored = some c' ∧ Evolves c c' := by
  rcases WaveSystem.step_cases hs with rfl | ⟨p, sha, limit, rfl, hp⟩ | ⟨_, c', hst, hw⟩
  · exact ⟨c, hc, Evolves.refl c⟩
  · exact ⟨c, hc, Evolves.refl c⟩
  · have hplans := h.plans
    rw [hc] at hw hplans
    exact ⟨c', hst, Evolves.write hplans hw⟩

/-- **The checkpoint over whole runs.** Whatever calls led to `s`, its
document is consistent; whatever calls follow, what the document has sealed
and passed stays, the generation goes up with every write, and a call that
raises changes nothing. -/
theorem checkpoint_run_invariant {store : IssueWaveStore} {digest : EvidenceDigest}
    {s t : WaveSystem} {tr : List (Transition WaveSystem WaveCall)}
    (hs : Reachable (WaveSystem.step store digest) {} s)
    (hrun : Run (WaveSystem.step store digest) s tr t) :
    (∀ c, s.stored = some c → CheckpointOk c) ∧
    (∀ c, s.stored = some c → ∃ c', t.stored = some c' ∧ Evolves c c') ∧
    (∀ x ∈ tr, x.post.stored = x.pre.stored ∨
      storedGeneration x.pre.stored < storedGeneration x.post.stored) ∧
    (∀ call e u, (WaveCall.run store digest call).exec s.stored = (.error e, u) →
      u = s.stored) := by
  have hinv := WaveSystem.Inv.reachable hs
  refine ⟨hinv.checkpoint, fun c hc => ?_, fun x hx => ?_, fun call e u h => ?_⟩
  · have hboth : t.Inv ∧ ∃ c', t.stored = some c' ∧ Evolves c c' := by
      refine hrun.invariant (fun u => u.Inv ∧ ∃ c', u.stored = some c' ∧ Evolves c c')
        ⟨hinv, c, hc, Evolves.refl c⟩ ?_
      rintro u call v ⟨hu, c', hc', hev⟩ hstep
      obtain ⟨c'', hc'', hev'⟩ := WaveSystem.step_evolves hu hstep hc'
      exact ⟨hu.step hstep, c'', hc'', hev.trans hev'⟩
    exact hboth.2
  · have hstep := (hrun.mem hx).2
    rcases WaveSystem.step_cases hstep with heq | ⟨p, sha, limit, heq, _⟩ | ⟨_, c', hst, hw⟩
    · exact .inl (congrArg WaveSystem.stored heq)
    · left
      rw [heq]
    · right
      rw [hst, storedGeneration_some, hw.generation]
      exact Nat.lt_succ_self _
  · exact call.run_allOrNothing store digest _ _ _ h

/-! ## A first wave -/

def pilotStore : IssueWaveStore := ⟨"acme", "forge", by decide, by decide⟩

def pilotSha : String := "0123456789abcdef0123456789abcdef01234567"

/-- The digest of the text of issue 7, titled "No change needed" and saying
"Nothing is broken.", at `pilotSha`. -/
def pilotEvidence : String :=
  "393a65e39e9a1fade87ffd8d69cc5f2c03c59ba3dc93e604578bbdffb71bd98d"

/-- The digest function where the pilot uses it. -/
def pilotDigest : EvidenceDigest := fun repository issue revision title body =>
  if repository = "forge" ∧ issue = 7 ∧ revision = pilotSha ∧
      title = "No change needed" ∧ body = "Nothing is broken." then pilotEvidence
  else "0000000000000000000000000000000000000000000000000000000000000000"

/-- The plan the store hands out for a first wave. -/
def pilotPlan : WaveAdmissionPlan where
  mode := .select
  requestedLimit := some 1
  currentMainSha := pilotSha
  expectedGeneration := some 0
  waveIndex := some 0

/-- The lease sealing it with issue 7 returns. -/
def pilotLease : Checked WaveLease.postInit :=
  ⟨{ org := "acme", repo := "forge", waveIndex := 0, limit := some 1, issueNumbers := [7],
     baseMainSha := pilotSha, nonce := "n0" }, rfl⟩

/-- The calls that seal the first wave, issue 7 alone. -/
def pilotCalls : List WaveCall :=
  [.planAdmission pilotSha (some 1), .sealSelection pilotPlan [7] "n0"]

/-- The calls that merge and pass it. -/
def mergedCalls : List WaveCall :=
  [.recordMergeReceipt pilotLease 7 70 pilotSha pilotSha,
    .recordTerminalOutcome pilotLease 7 true "merged" (some 70) false]

/-- A first wave is sealed, then its issue is merged and passes. -/
theorem checkpoint_run_invariant_pilot :
    ∃ tr s tr' t c c',
      trace (WaveSystem.step pilotStore pilotDigest) {} pilotCalls = some (tr, s) ∧
      trace (WaveSystem.step pilotStore pilotDigest) s mergedCalls = some (tr', t) ∧
      s.stored = some c ∧ t.stored = some c' ∧ CheckpointOk c ∧ Evolves c c' := by
  have hcalls : (trace (WaveSystem.step pilotStore pilotDigest) {} pilotCalls).any
      (fun y => y.2.stored.isSome &&
        (trace (WaveSystem.step pilotStore pilotDigest) y.2 mergedCalls).isSome) = true := by
    decide
  obtain ⟨⟨tr, s⟩, hs, hst⟩ := (Option.any_eq_true _ _).mp hcalls
  simp only [Bool.and_eq_true, Option.isSome_iff_exists] at hst
  obtain ⟨⟨c, hc⟩, ⟨tr', t⟩, ht⟩ := hst
  obtain ⟨hok, hev, _⟩ := checkpoint_run_invariant ⟨tr, trace_run hs⟩ (trace_run ht)
  obtain ⟨c', hc', he⟩ := hev c hc
  exact ⟨tr, s, tr', t, c, c', hs, ht, hc, hc', hok c hc, he⟩

end Hephaestus.Automation
