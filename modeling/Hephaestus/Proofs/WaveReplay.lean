import Hephaestus.Proofs.WaveInvariant

/-!
# Recording the same thing twice

A process that dies after its write and before its answer is restarted and
issues the call again. The replay has to find the first write and leave the
document alone: a second write raises the generation, and with it every
plan another process holds becomes stale.

Three of the four recording methods ask whether what they were given is
already there and return. The fourth, `record_terminal_outcome`, asks only
where the stored outcome differs from the given one. An equal outcome is
taken out, put back at the end and written again, and the one early return
it has is never taken: a failed outcome with the same reason and pull
request is the same outcome (`addOutcome_ne_none`).
-/

namespace Hephaestus.Automation

open Hephaestus.Lib

/-! ## What a change leaves to do -/

/-- The search for an issue's intent, after the intent was replaced. -/
theorem intentFor_replaceIntent {r : WaveRecord}
    {existing intent : Checked WaveNonCodeIntent.postInit}
    (h : r.intentFor intent.val.issueNumber = some existing) :
    (IssueWaveStore.replaceIntent r intent).intentFor intent.val.issueNumber = some intent := by
  exact find?_key_replace h

theorem addIntent_again {intent : Checked WaveNonCodeIntent.postInit} {r r' : WaveRecord}
    (h : IssueWaveStore.addIntent intent r = .ok (some r')) :
    IssueWaveStore.addIntent intent r' = .ok none := by
  have hfound : r'.intentFor intent.val.issueNumber = some intent := by
    unfold IssueWaveStore.addIntent at h
    split at h
    · next existing hexisting =>
        split at h
        · cases h
        · obtain ⟨_, h⟩ := check_bind_ok.mp h
          obtain rfl := Option.some.inj (Except.ok.inj h)
          exact intentFor_replaceIntent hexisting
    · next hnone =>
        obtain rfl := Option.some.inj (Except.ok.inj h)
        exact find?_key_concat hnone
  simp [IssueWaveStore.addIntent, hfound]

theorem retireIntent_again {intent : Checked WaveNonCodeIntent.postInit} {r r' : WaveRecord}
    (h : IssueWaveStore.retireIntent intent r = .ok (some r')) :
    IssueWaveStore.retireIntent intent r' = .ok none := by
  have hfound : r'.intentFor intent.val.issueNumber = some (retiredAs true intent) := by
    simp only [IssueWaveStore.retireIntent] at h
    split at h
    · cases h
    · obtain ⟨hactive, h⟩ := check_bind_ok.mp h
      obtain ⟨_, h⟩ := check_bind_ok.mp h
      obtain rfl := Option.some.inj (Except.ok.inj h)
      have hfound : r.intentFor (retiredAs true intent).val.issueNumber = _ :=
        not_not.mp (raiseIf_ok.mp hactive)
      exact intentFor_replaceIntent hfound
  simp [IssueWaveStore.retireIntent, hfound]

theorem addReceipt_again {receipt : Checked WaveMergeReceipt.postInit} {r r' : WaveRecord}
    (h : IssueWaveStore.addReceipt receipt r = .ok (some r')) :
    IssueWaveStore.addReceipt receipt r' = .ok none := by
  have hfound : r'.receiptFor receipt.val.issueNumber = some receipt := by
    unfold IssueWaveStore.addReceipt at h
    split at h
    · obtain ⟨_, h⟩ := check_bind_ok.mp h
      cases h
    · next hnone =>
        obtain rfl := Option.some.inj (Except.ok.inj h)
        exact find?_key_concat hnone
  simp only [IssueWaveStore.addReceipt, hfound]
  exact check_bind_ok.mpr ⟨raiseIf_ok.mpr (not_not.mpr rfl), rfl⟩

/-- Of a failed outcome the issue, the reason and the pull request are all
there is. -/
theorem WaveIssueOutcome.eq_of_failed {o o' : Checked WaveIssueOutcome.postInit}
    (ho : o.val.passed = false) (ho' : o'.val.passed = false)
    (hissue : o.val.issueNumber = o'.val.issueNumber) (hreason : o.val.reason = o'.val.reason)
    (hpr : o.val.prNumber = o'.val.prNumber) : o = o' := by
  have hcode : ∀ p : Checked WaveIssueOutcome.postInit, p.val.passed = false →
      p.val.nonCode = false := by
    intro p hp
    have h := p.property
    simp only [WaveIssueOutcome.postInit, check_bind_ok, raiseIf_ok] at h
    have hflag := h.2.2.1
    simpa [hp] using hflag
  apply Subtype.ext
  obtain ⟨⟨issue, passed, reason, pr, code⟩, hp⟩ := o
  obtain ⟨⟨issue', passed', reason', pr', code'⟩, hp'⟩ := o'
  have hc := hcode _ ho
  have hc' := hcode _ ho'
  simp only at *
  subst ho ho' hissue hreason hpr hc hc'
  rfl

/-- The early return of `record_terminal_outcome` is never taken. -/
theorem addOutcome_ne_none {outcome : Checked WaveIssueOutcome.postInit} {r : WaveRecord} :
    IssueWaveStore.addOutcome outcome r ≠ .ok none := by
  intro h
  obtain ⟨_, h⟩ := check_bind_ok.mp h
  obtain ⟨_, h⟩ := check_bind_ok.mp h
  split at h
  · cases h
  · next existing hfound =>
      split at h
      · cases h
      · next hne =>
          obtain ⟨hfailed, h⟩ := check_bind_ok.mp h
          split at h
          · next hsame =>
              have hstored : existing.val.passed = false := by
                simpa using raiseIf_ok.mp hfailed
              refine hne (WaveIssueOutcome.eq_of_failed hstored ?_ ?_ hsame.2.1 hsame.2.2)
              · simpa using hsame.1
              · exact (find?_key_some hfound).2
          · cases h

/-! ## What a method leaves to do -/

namespace IssueWaveStore

open Command

variable {store : IssueWaveStore} {digest : EvidenceDigest}

/-- The document belongs to the store's repository. -/
def Owns (store : IssueWaveStore) (c : StoredCheckpoint) : Prop :=
  c.val.org = store.org ∧ c.val.repo = store.repo

theorem readUnlocked_some {c : StoredCheckpoint} {a : Option StoredCheckpoint}
    {t : Option StoredCheckpoint} :
    store.readUnlocked.exec (some c) = (.ok a, t) ↔ store.Owns c ∧ a = some c ∧ t = some c := by
  rw [readUnlocked, bind_ok]
  simp only [exec_get, Prod.mk.injEq, Except.ok.injEq]
  constructor
  · rintro ⟨_, _, ⟨rfl, rfl⟩, h⟩
    obtain ⟨_, hbound, h⟩ := attempt_bind_ok.mp h
    obtain ⟨ha, ht⟩ := Prod.mk.inj h
    have hne := raiseIf_ok.mp hbound
    simp only [ne_eq, not_or, not_not] at hne
    exact ⟨hne, (Except.ok.inj ha).symm, ht.symm⟩
  · rintro ⟨⟨horg, hrepo⟩, rfl, rfl⟩
    refine ⟨_, _, ⟨rfl, rfl⟩, attempt_bind_ok.mpr ⟨(), raiseIf_ok.mpr ?_, rfl⟩⟩
    simp [horg, hrepo]

/-- A method on a lease found a document of its repository, and the
lease's record in it. -/
theorem withRecord_iff {α : Type} {absent : IssueWaveError} {lease : WaveLease}
    {body : StoredCheckpoint → Checked WaveRecord.postInit → WaveCommand α}
    {s t : Option StoredCheckpoint} {a : α} :
    (store.withRecord absent lease body).exec s = (.ok a, t) ↔
      ∃ c r, s = some c ∧ store.Owns c ∧ currentRecord c.val lease = .ok r ∧
        (body c r).exec s = (.ok a, t) := by
  rw [withRecord, bind_ok]
  constructor
  · rintro ⟨found, u, hread, h⟩
    obtain ⟨rfl, rfl⟩ := readUnlocked_ok hread
    cases found with
    | none => cases h
    | some c =>
        obtain ⟨r, hr, h⟩ := attempt_bind_ok.mp h
        exact ⟨c, r, rfl, (readUnlocked_some.mp hread).1, hr, h⟩
  · rintro ⟨c, r, rfl, hown, hr, h⟩
    exact ⟨some c, some c, readUnlocked_some.mpr ⟨hown, rfl, rfl⟩,
      attempt_bind_ok.mpr ⟨r, hr, h⟩⟩

/-- After the write the lease finds the record that was written. -/
theorem currentRecord_set {c c' : StoredCheckpoint} {lease : WaveLease}
    {r r' : Checked WaveRecord.postInit} (hr : currentRecord c.val lease = .ok r)
    (hamends : Amends r.val r'.val)
    (hnext : c'.val = { c.val with
      generation := c.val.generation + 1, waves := c.val.waves.set lease.waveIndex r' }) :
    currentRecord c'.val lease = .ok r' := by
  have hfound := currentRecord_ok hr
  have hi := (List.getElem?_eq_some_iff.mp hfound).1
  obtain ⟨hrepo, hr⟩ := check_bind_ok.mp hr
  rw [hfound] at hr
  obtain ⟨hlease, _⟩ := check_bind_ok.mp hr
  rw [hnext]
  refine check_bind_ok.mpr ⟨hrepo, ?_⟩
  simp only [List.getElem?_set_self hi, hamends.leaseNonce, hamends.issueNumbers]
  exact check_bind_ok.mpr ⟨hlease, rfl⟩

/-- A method whose change is settled once it was made can be replayed. -/
theorem updateRecord_replaySafe {absent : IssueWaveError} {lease : Checked WaveLease.postInit}
    {change : WaveRecord → Except IssueWaveError (Option WaveRecord)}
    (hamends : ∀ r r', change r = .ok (some r') → Amends r r')
    (hagain : ∀ r r', change r = .ok (some r') → change r' = .ok none) :
    ReplaySafe (store.updateRecord absent lease change) := by
  intro s t a h
  obtain ⟨c, r, rfl, hown, hr, hbody⟩ := withRecord_iff.mp h
  obtain ⟨u, hu, hbody⟩ := attempt_bind_ok.mp hbody
  cases u with
  | none =>
      obtain rfl : some c = t := (Prod.mk.inj hbody).2
      exact h
  | some u =>
      obtain ⟨c', hc', hbody⟩ := attempt_bind_ok.mp hbody
      obtain ⟨hlease, ht⟩ := Prod.mk.inj hbody
      obtain rfl := Except.ok.inj hlease
      obtain rfl : some c' = t := ht
      obtain ⟨r', hr', hnext⟩ := withUpdated_ok (currentRecord_ok hr) hc'
      have hown' : store.Owns c' := by
        rw [Owns, hnext]
        exact hown
      have hfound := currentRecord_set hr (by rw [hr']; exact hamends _ _ hu) hnext
      refine withRecord_iff.mpr ⟨c', r', rfl, hown', hfound, ?_⟩
      exact attempt_bind_ok.mpr ⟨none, by rw [hr']; exact hagain _ _ hu, rfl⟩

/-- A method that always has something to write raises the generation. -/
theorem updateRecord_generation {absent : IssueWaveError} {lease a : Checked WaveLease.postInit}
    {change : WaveRecord → Except IssueWaveError (Option WaveRecord)}
    (hwrites : ∀ r, change r ≠ .ok none) {s t : Option StoredCheckpoint}
    (h : (store.updateRecord absent lease change).exec s = (.ok a, t)) :
    storedGeneration t = storedGeneration s + 1 := by
  obtain ⟨c, r, rfl, _, hr, hbody⟩ := withRecord_iff.mp h
  obtain ⟨u, hu, hbody⟩ := attempt_bind_ok.mp hbody
  cases u with
  | none => exact absurd hu (hwrites _)
  | some u =>
      obtain ⟨c', hc', hbody⟩ := attempt_bind_ok.mp hbody
      obtain rfl : some c' = t := (Prod.mk.inj hbody).2
      obtain ⟨_, _, hnext⟩ := withUpdated_ok (currentRecord_ok hr) hc'
      rw [storedGeneration_some, storedGeneration_some, hnext]

end IssueWaveStore

/-! ## Replays -/

/-- The call is one of the four that record evidence for an issue. -/
def WaveCall.recordsEvidence : WaveCall → Bool
  | .recordMergeReceipt .. => true
  | .recordNonCodeIntent .. => true
  | .retireNonCodeIntent .. => true
  | .recordTerminalOutcome .. => true
  | _ => false

/-- The call is `record_terminal_outcome`. -/
def WaveCall.recordsOutcome : WaveCall → Bool
  | .recordTerminalOutcome .. => true
  | _ => false

open Command IssueWaveStore in
/-- The three methods that look first. -/
theorem WaveCall.replaySafe {store : IssueWaveStore} {digest : EvidenceDigest} {call : WaveCall}
    (hrecords : call.recordsEvidence = true) (hcall : call.recordsOutcome = false) :
    ReplaySafe (call.run store digest) := by
  cases call with
  | recordMergeReceipt lease issue pr head merge =>
      refine ReplaySafe.map (ReplaySafe.attempt_bind fun receipt _ => ?_) _
      exact updateRecord_replaySafe (fun _ _ => addReceipt_amends) fun _ _ => addReceipt_again
  | recordNonCodeIntent lease issue reason evidence revision labels explanation =>
      refine ReplaySafe.map (ReplaySafe.attempt_bind fun intent _ => ?_) _
      exact updateRecord_replaySafe (fun _ _ => addIntent_amends) fun _ _ => addIntent_again
  | retireNonCodeIntent lease intent =>
      refine ReplaySafe.map ?_ _
      exact updateRecord_replaySafe (fun _ _ => retireIntent_amends) fun _ _ => retireIntent_again
  | recordTerminalOutcome => cases hcall
  | _ => cases hrecords

open Command IssueWaveStore in
/-- The one that writes whatever it finds. -/
theorem WaveCall.outcome_generation {store : IssueWaveStore} {digest : EvidenceDigest}
    {call : WaveCall} (hcall : call.recordsOutcome = true) {reply : WaveReply}
    {s t : Option StoredCheckpoint} (h : (call.run store digest).exec s = (.ok reply, t)) :
    storedGeneration t = storedGeneration s + 1 := by
  cases call with
  | recordTerminalOutcome lease issue passed reason pr nonCode =>
      obtain ⟨_, h⟩ := map_ok h
      obtain ⟨_, _, h⟩ := attempt_bind_ok.mp h
      exact updateRecord_generation (fun _ => addOutcome_ne_none) h
  | _ => cases hcall

/-- **Replay.** Whatever the document was, a call that recorded evidence in
it, made again at once, returns and leaves the document as it is, exactly
where it is not `record_terminal_outcome`. -/
theorem record_replay_iff {store : IssueWaveStore} {digest : EvidenceDigest}
    {call : WaveCall} {reply : WaveReply} {before stored : Option StoredCheckpoint}
    (hrecords : call.recordsEvidence = true)
    (h : (call.run store digest).exec before = (.ok reply, stored)) :
    (∃ again, (call.run store digest).exec stored = (.ok again, stored)) ↔
      call.recordsOutcome = false := by
  constructor
  · rintro ⟨again, hagain⟩
    by_contra hcall
    have hgen := WaveCall.outcome_generation (Bool.not_eq_false _ ▸ hcall) hagain
    omega
  · intro hcall
    exact ⟨reply, WaveCall.replaySafe hrecords hcall h⟩

/-- The merge receipt of the pilot's issue. -/
def pilotReceipt : WaveCall := .recordMergeReceipt pilotLease 7 70 pilotSha pilotSha

/-- Its outcome. -/
def pilotOutcome : WaveCall := .recordTerminalOutcome pilotLease 7 true "merged" (some 70) false

/-- The receipt recorded in the sealed wave. -/
theorem record_replay_receipt :
    ∃ tr s reply stored,
      trace (WaveSystem.step pilotStore pilotDigest) {} pilotCalls = some (tr, s) ∧
      (pilotReceipt.run pilotStore pilotDigest).exec s.stored = (.ok reply, stored) ∧
      ∃ again, (pilotReceipt.run pilotStore pilotDigest).exec stored = (.ok again, stored) := by
  have hcalls : (trace (WaveSystem.step pilotStore pilotDigest) {} pilotCalls).any
      (fun y => ((pilotReceipt.run pilotStore pilotDigest).exec y.2.stored).1.isOk) = true := by
    decide
  obtain ⟨⟨tr, s⟩, hs, hok⟩ := (Option.any_eq_true _ _).mp hcalls
  obtain ⟨reply, stored, hrun⟩ := Command.exec_of_isOk hok
  exact ⟨tr, s, reply, stored, hs, hrun, (record_replay_iff rfl hrun).mpr rfl⟩

/-- The outcome recorded after it, and again: the second write makes
generation four out of three. -/
theorem outcome_replay_rewrites :
    ∃ tr s reply stored,
      trace (WaveSystem.step pilotStore pilotDigest) {} (pilotCalls ++ [pilotReceipt]) =
        some (tr, s) ∧
      (pilotOutcome.run pilotStore pilotDigest).exec s.stored = (.ok reply, stored) ∧
      ¬ ∃ again, (pilotOutcome.run pilotStore pilotDigest).exec stored = (.ok again, stored) := by
  have hcalls : (trace (WaveSystem.step pilotStore pilotDigest) {}
      (pilotCalls ++ [pilotReceipt])).any
      (fun y => ((pilotOutcome.run pilotStore pilotDigest).exec y.2.stored).1.isOk) = true := by
    decide
  obtain ⟨⟨tr, s⟩, hs, hok⟩ := (Option.any_eq_true _ _).mp hcalls
  obtain ⟨reply, stored, hrun⟩ := Command.exec_of_isOk hok
  refine ⟨tr, s, reply, stored, hs, hrun, ?_⟩
  rintro ⟨again, hagain⟩
  have hgen := WaveCall.outcome_generation rfl hagain
  omega

end Hephaestus.Automation
