import Hephaestus.Automation.MergeWaitCycle

/-!
# What stands before a merge request

The cycle leaves off at the first answer it does not like, so what it has
written down when the merge request goes out is known question by question:
`gateHistory` is that list, and each part of the cycle has one lemma that says
what it adds to the history when it goes on and how it completes when it does
not. The gate is then read off the list.

One thing is not on it. A readiness that GitHub has declined before is not tried
again, except when the policy has a merge queue and the readiness is `BLOCKED`:
that branch goes on without looking at what was declined.
-/

namespace Hephaestus.Automation

open Hephaestus.Lib

variable {ρ : Type} {py : PyText} {request : MergeWaitRequest ρ}
  {adapter : MergeAdapter ρ}

/-- A merge request. -/
def MergeEvent.isMerge : MergeEvent ρ → Bool
  | .merge .. => true
  | _ => false

/-- A history without a merge request. -/
def Quiet (history : MergeHistory ρ) : Prop :=
  ∀ e ∈ history, e.isMerge = false

theorem Quiet.append {h more : MergeHistory ρ} (hh : Quiet h) (hmore : Quiet more) :
    Quiet (h ++ more) := by
  intro e he
  rcases List.mem_append.mp he with he | he
  · exact hh e he
  · exact hmore e he

theorem quiet_one (event : MergeEvent ρ) (h : event.isMerge = false) : Quiet [event] := by
  intro e he
  rw [List.mem_singleton.mp he]
  exact h

/-- An answer that shows the pull request merged. -/
def ShowsMerged (py : PyText) (event : MergeEvent ρ) : Prop :=
  ∃ state, (event = .prState (.ok state) ∨ event = .readiness (.ok state))
    ∧ terminal py state = some "merged"

/-- How a part of the cycle that began at `start` may complete it: without a merge
request, and as merged only on an answer that shows it. -/
structure ClosesFrom (py : PyText) (start : MergeHistory ρ) (report : MergeWaitCompleted)
    (history : MergeHistory ρ) : Prop where
  valid : report.Valid
  quiet : ∃ more, history = start ++ more ∧ Quiet more
    ∧ (report.outcome = "merged" → ∃ e ∈ more, ShowsMerged py e)

theorem ClosesFrom.earlier {start more : MergeHistory ρ} {report : MergeWaitCompleted}
    {history : MergeHistory ρ} (h : ClosesFrom py (start ++ more) report history)
    (hmore : Quiet more) : ClosesFrom py start report history := by
  obtain ⟨rest, hrest, hquiet, hmerged⟩ := h.quiet
  refine ⟨h.valid, more ++ rest, ?_, hmore.append hquiet, ?_⟩
  · rw [hrest, List.append_assoc]
  · intro ho
    obtain ⟨e, he, hs⟩ := hmerged ho
    exact ⟨e, List.mem_append_right more he, hs⟩

/-- A completion that does not claim the merge. -/
theorem ClosesFrom.of_events {start more : MergeHistory ρ} {report : MergeWaitCompleted}
    (hne : report.outcome ≠ "merged") (hvalid : report.Valid)
    (hmore : Quiet more) : ClosesFrom py start report (start ++ more) :=
  ⟨hvalid, more, rfl, hmore, fun h => absurd h hne⟩

theorem valid_completed {outcome : String} (h : outcome ≠ "") : (completed outcome).Valid :=
  ⟨h, fun _ hs => by cases hs⟩

theorem valid_attempted {outcome : String} (h : outcome ≠ "") : (attempted outcome).Valid :=
  ⟨h, fun _ hs => by cases hs⟩

theorem terminal_cases {state : Json} {outcome : String} (h : terminal py state = some outcome) :
    outcome = "merged" ∨ outcome = "closed" := by
  unfold terminal at h
  split at h
  · simp only at h
    split at h
    · left
      exact (Option.some.inj h).symm
    split at h
    · right
      exact (Option.some.inj h).symm
    · cases h
  · cases h

theorem terminal_ne_empty {state : Json} {outcome : String} (h : terminal py state = some outcome) :
    outcome ≠ "" := by
  rcases terminal_cases h with rfl | rfl
  · decide
  · decide

theorem isFullSha_mergeShaFromState {state : Json} {sha : Text}
    (h : mergeShaFromState py state = some sha) : isFullSha sha = true := by
  unfold mergeShaFromState at h
  split at h
  · simp only at h
    split at h
    · next hfull =>
      cases h
      exact hfull
    · cases h
  · cases h

/-! ## Parts of the cycle -/

section Steps

variable {E : MergeWaitCompleted → MergeHistory ρ → Prop} {h : MergeHistory ρ}

theorem wp_ask {α : Type} {answer : MergeHistory ρ → α} {event : α → MergeEvent ρ}
    {Q : α → MergeHistory ρ → Prop} :
    (ask answer event).wp Q E h ↔ Q (answer h) (h ++ [event (answer h)]) := by
  simp only [ask, Command.wp_bind, Command.wp_get, Command.wp_set, Command.wp_pure]

/-- One more question, and then no complaint or a completion that is not a merge. -/
theorem ClosesFrom.after {event : MergeEvent ρ} {report : MergeWaitCompleted}
    (hne : report.outcome ≠ "merged") (hvalid : report.Valid) (hevent : event.isMerge = false) :
    ClosesFrom py h report (h ++ [event]) :=
  ClosesFrom.of_events hne hvalid (quiet_one _ hevent)

theorem wp_operationBoundary :
    (operationBoundary adapter).wp (fun _ h' => h' = h ++ [MergeEvent.cancelled false])
      (ClosesFrom py h) h := by
  unfold operationBoundary
  rw [Command.wp_bind, wp_ask]
  split
  · exact ClosesFrom.after (by decide) (valid_completed (by decide)) rfl
  · next hc =>
    rw [Bool.not_eq_true] at hc
    simp only [Command.wp_pure, hc]

/-- A state that shows an open, unarmed pull request into `main` at the head to merge. -/
structure AdmittedState (py : PyText) (request : MergeWaitRequest ρ) (state : Json) : Prop where
  isOpen : (state.get? "state").bind Json.asStr? = some "OPEN"
  unarmed : state.get? "autoMergeRequest" = some .null
  intoMain : (state.get? "baseRefName").bind Json.asStr? = some "main"
  head : py.orEmpty (state.get? "headRefOid") = request.mergeHeadSha

/-- What an admission adds to the history. -/
def admissionReads (state : Json) : MergeHistory ρ :=
  [.prState (.ok state), .labels (.ok (true, false))]

theorem admitState_ok {isAttempted : Bool} {state : Json}
    (hs : admitState py isAttempted state = .ok ()) :
    (state.get? "state").bind Json.asStr? = some "OPEN"
      ∧ state.get? "autoMergeRequest" = some .null
      ∧ (state.get? "baseRefName").bind Json.asStr? = some "main" := by
  unfold admitState at hs
  simp only at hs
  split at hs
  · cases hs
  split at hs
  · cases hs
  · next fields _ =>
    split at hs
    · cases hs
    next harmed =>
    split at hs
    · cases hs
    next hopen =>
    split at hs
    · cases hs
    next hmain =>
    rw [not_not] at hmain
    rw [not_or, not_not, Bool.not_eq_true] at hopen
    refine ⟨hopen.1, ?_, hmain⟩
    cases hget : (Json.obj fields).get? "autoMergeRequest" with
    | none =>
        rw [hget] at hopen
        cases hopen.2
    | some value =>
        rw [hget] at harmed
        cases value <;> first | rfl | exact absurd rfl harmed
  · cases hs

/-- A rejected state completes the cycle, as merged only where the state shows it. -/
theorem admitState_error {isAttempted : Bool} {state : Json} {report : MergeWaitCompleted}
    (hs : admitState py isAttempted state = .error report) :
    ClosesFrom py h report (h ++ [MergeEvent.prState (.ok state)]) := by
  have hquiet : Quiet ([.prState (.ok state)] : MergeHistory ρ) := quiet_one _ rfl
  have hfail : ∀ outcome, outcome ≠ "merged" → outcome ≠ "" →
      ClosesFrom py h { completed outcome with attempted := isAttempted }
        (h ++ [MergeEvent.prState (.ok state)]) :=
    fun outcome hm hne => ClosesFrom.of_events hm ⟨hne, fun _ hs => by cases hs⟩ hquiet
  unfold admitState at hs
  simp only at hs
  split at hs
  · next outcome hterminal =>
    cases hs
    refine ⟨⟨terminal_ne_empty hterminal, fun sha => isFullSha_mergeShaFromState⟩,
      [MergeEvent.prState (.ok state)], rfl, hquiet, fun hmerged => ?_⟩
    exact ⟨_, List.mem_singleton.mpr rfl, state, Or.inl rfl,
      hterminal.trans (congrArg some hmerged)⟩
  split at hs
  · cases hs
    exact hfail _ (by decide) (by decide)
  · split at hs
    · cases hs
      exact hfail _ (by decide) (by decide)
    split at hs
    · cases hs
      exact hfail _ (by decide) (by decide)
    split at hs
    · cases hs
      exact hfail _ (by decide) (by decide)
    · cases hs
  · cases hs
    exact hfail _ (by decide) (by decide)

theorem wp_admit {isAttempted : Bool} :
    (admitMerge py request adapter isAttempted).wp
      (fun state h' => h' = h ++ admissionReads state ∧ AdmittedState py request state)
      (ClosesFrom py h) h := by
  unfold admitMerge
  simp only
  rw [Command.wp_bind, wp_ask]
  split
  · exact ClosesFrom.after (by simp [completed]) ⟨by simp [completed], fun _ hs => by cases hs⟩ rfl
  · next state hstate =>
    rw [Command.wp_bind]
    refine Command.wp_attempt (fun _ hs => ?_) fun report hs => ?_
    · rw [Command.wp_bind, wp_ask]
      have hquiet : ∀ a, Quiet ([.prState (.ok state), .labels a] : MergeHistory ρ) :=
        fun a => (quiet_one (.prState (.ok state)) rfl).append (quiet_one _ rfl)
      have hfail : ∀ a outcome, outcome ≠ "merged" → outcome ≠ "" →
          ClosesFrom py h { completed outcome with attempted := isAttempted }
            (h ++ [MergeEvent.prState (.ok state)] ++ [MergeEvent.labels a]) := by
        intro a outcome hm hne
        rw [List.append_assoc]
        exact ClosesFrom.of_events hm ⟨hne, fun _ hs => by cases hs⟩ (hquiet a)
      rw [hstate]
      split
      · exact hfail _ _ (by decide) (by decide)
      · next hasGo hasNoGo hlabels =>
        split
        · exact hfail _ _ (by decide) (by decide)
        next hgo =>
        simp only [not_or, Bool.not_eq_false, Bool.not_eq_true] at hgo
        obtain ⟨rfl, rfl⟩ := hgo
        split
        · exact hfail _ _ (by decide) (by decide)
        split
        · exact hfail _ _ (by decide) (by decide)
        next hhead =>
        rw [not_not] at hhead
        obtain ⟨hopen, hunarmed, hmain⟩ := admitState_ok hs
        rw [Command.wp_pure, hlabels, List.append_assoc]
        exact ⟨rfl, hopen, hunarmed, hmain, hhead⟩
    · rw [hstate]
      exact admitState_error hs

/-- A policy that enforces conversation resolution and one route to the merge. -/
structure SafePolicy (policy : MergePolicy) : Prop where
  conversations : policy.conversationResolutionEnforced = true
  rulesets : ∀ id ∈ policy.bypassableRulesetIds, 0 < id
  bypass : policy.bypassableRulesetIds ≠ [] → policy.mergeQueueRequired = true
  route : policy.mergeQueueRequired = true ∨ policy.strictUpdateEnforced = true

theorem wp_policySafety {policy : MergePolicy} :
    (policySafety adapter policy).wp
      (fun _ h' => h' = h ++ [MergeEvent.threads (.ok [])] ∧ SafePolicy policy)
      (ClosesFrom py h) h := by
  have hfail : ∀ outcome, outcome ≠ "merged" → outcome ≠ "" →
      ClosesFrom py h (completed outcome) h := by
    intro outcome hm hne
    exact ⟨valid_completed hne, [], (List.append_nil h).symm,
      fun e he => absurd he List.not_mem_nil, fun ho => absurd ho hm⟩
  unfold policySafety
  rw [Command.wp_bind]
  refine Command.wp_attempt (fun _ hsafe => ?_) fun report hsafe => ?_
  · unfold conversationSafety
    rw [Command.wp_bind, wp_ask]
    split
    · exact ClosesFrom.after (by decide) (valid_completed (by decide)) rfl
    · next threads hthreads =>
      split
      · exact ClosesFrom.after (by decide) (valid_completed (by decide)) rfl
      next hempty =>
      rw [Bool.not_eq_false, List.isEmpty_iff] at hempty
      split
      · exact ClosesFrom.after (by decide) (valid_completed (by decide)) rfl
      next hresolution =>
      rw [Bool.not_eq_false] at hresolution
      rw [Command.wp_pure, hthreads, hempty]
      unfold policySafe at hsafe
      split at hsafe
      · cases hsafe
      next hids =>
      split at hsafe
      · cases hsafe
      next hbypass =>
      split at hsafe
      · cases hsafe
      next hroute =>
      have hpositive : ∀ id ∈ policy.bypassableRulesetIds, 0 < id := by
        intro id hid
        by_contra hneg
        exact hids (List.any_eq_true.mpr ⟨id, hid, decide_eq_true (by omega)⟩)
      simp only [not_and, Bool.not_eq_false] at hbypass hroute
      refine ⟨rfl, hresolution, hpositive, hbypass, ?_⟩
      cases hq : policy.mergeQueueRequired with
      | true => exact Or.inl rfl
      | false => exact Or.inr (hroute hq)
  · unfold policySafe at hsafe
    split at hsafe
    · cases hsafe
      exact hfail _ (by decide) (by decide)
    split at hsafe
    · cases hsafe
      exact hfail _ (by decide) (by decide)
    split at hsafe
    · cases hsafe
      exact hfail _ (by decide) (by decide)
    · cases hsafe

theorem wp_readPolicy :
    (readPolicy adapter).wp (fun policy h' => h' = h ++ [MergeEvent.policy (.ok (some policy))])
      (ClosesFrom py h) h := by
  unfold readPolicy
  rw [Command.wp_bind, wp_ask]
  split
  · next policy hpolicy => rw [Command.wp_pure, hpolicy]
  · exact ClosesFrom.after (by decide) (valid_completed (by decide)) rfl

theorem readinessOfHead_outcome {park queue : Bool} {fingerprint : List Text}
    {status mergeable : Text} {outcome : String}
    (ho : readinessOfHead request park queue fingerprint status mergeable = some outcome) :
    outcome ≠ "merged" ∧ outcome ≠ "" := by
  unfold readinessOfHead at ho
  repeat' split at ho
  all_goals first
    | (cases ho; decide)
    | cases ho

theorem readinessOutcome_some {state : Json} {park queue : Bool} {outcome : String}
    {fingerprint : Option (List Text)}
    (ho : readinessOutcome py request state park queue = (some outcome, fingerprint)) :
    terminal py state = some outcome ∨ (outcome ≠ "merged" ∧ outcome ≠ "") := by
  unfold readinessOutcome at ho
  split at ho
  · next hterminal =>
    left
    rw [hterminal, (Prod.mk.inj ho).1]
  · right
    split at ho
    · split at ho
      · cases ho
        decide
      split at ho
      · cases ho
        decide
      · split at ho
        · cases ho
          decide
        simp only at ho
        split at ho
        · cases ho
          decide
        · exact readinessOfHead_outcome (Prod.mk.inj ho).1
    · cases ho
      decide

/-- A readiness that names the head to merge and that was not declined, or that
took the branch of the queue. -/
structure ReadyState (py : PyText) (request : MergeWaitRequest ρ) (state : Json) : Prop where
  head : (state.get? "headRefOid").bind Json.asStr? = some (String.ofList request.mergeHeadSha)
  fresh : request.declinedReadinessFingerprint
      ≠ some (readinessFingerprint py request state request.mergeHeadSha)
    ∨ (upperField py state "mergeStateStatus" = "BLOCKED".toList
      ∧ upperField py state "mergeable" = "MERGEABLE".toList)

theorem readinessOutcome_none {state : Json} {queue : Bool} {fingerprint : Option (List Text)}
    (ho : readinessOutcome py request state false queue = (none, fingerprint)) :
    ReadyState py request state := by
  unfold readinessOutcome at ho
  split at ho
  · cases ho
  split at ho
  · split at ho
    · cases ho
    split at ho
    · cases ho
    · next head hhead =>
      split at ho
      · cases ho
      simp only at ho
      split at ho
      · cases ho
      next hsame =>
      rw [not_not] at hsame
      refine ⟨by rw [hhead, ← hsame, String.ofList_toList], ?_⟩
      have hpass := (Prod.mk.inj ho).1
      unfold readinessOfHead at hpass
      split at hpass
      · split at hpass
        · cases hpass
        · next hdeclined =>
          left
          rw [not_or] at hdeclined
          rw [← hsame]
          exact hdeclined.2
      split at hpass
      · next hqueue => exact Or.inr hqueue.2
      split at hpass
      · cases hpass
      split at hpass
      · cases hpass
      split at hpass
      · cases hpass
      · cases hpass
  · cases ho

theorem wp_readReadiness {policy : MergePolicy} :
    (readReadiness py request adapter policy).wp
      (fun _ h' => ∃ state, h' = h ++ [MergeEvent.readiness (.ok state)]
        ∧ ReadyState py request state)
      (ClosesFrom py h) h := by
  unfold readReadiness
  rw [Command.wp_bind, wp_ask]
  split
  · exact ClosesFrom.after (by decide) (valid_completed (by decide)) rfl
  · next state hstate =>
    rw [hstate]
    split
    · next outcome fingerprint ho =>
      refine ⟨⟨?_, fun _ hs => by cases hs⟩, [MergeEvent.readiness (.ok state)], rfl,
        quiet_one _ rfl, fun hmerged => ?_⟩
      · rcases readinessOutcome_some ho with hterminal | hother
        · exact terminal_ne_empty hterminal
        · exact hother.2
      · rcases readinessOutcome_some ho with hterminal | hother
        · exact ⟨_, List.mem_singleton.mpr rfl, state, Or.inr rfl,
            hterminal.trans (congrArg some hmerged)⟩
        · exact absurd hmerged hother.1
    · next fingerprint ho =>
      exact ⟨state, rfl, readinessOutcome_none ho⟩

theorem wp_readChecks {policy : MergePolicy} :
    (readChecks request adapter policy).wp
      (fun _ h' => h' = h ++ [MergeEvent.checks request.mergeHeadSha policy (.ok (.bool true))])
      (ClosesFrom py h) h := by
  unfold readChecks
  rw [Command.wp_bind, wp_ask]
  split
  · next hchecks => rw [Command.wp_pure, hchecks]
  · exact ClosesFrom.after (by decide) (valid_completed (by decide)) rfl

/-- The record reads of a request. -/
def recordReads (request : MergeWaitRequest ρ) : MergeHistory ρ :=
  match request.rebase with
  | none => []
  | some evidence => [.rebaseRecord (.ok (some evidence.record))]

theorem wp_rebaseRecordOutcome [DecidableEq ρ] :
    (rebaseRecordOutcome request adapter).wp (fun _ h' => h' = h ++ recordReads request)
      (ClosesFrom py h) h := by
  cases hrebase : request.rebase with
  | none => simp only [rebaseRecordOutcome, recordReads, hrebase, Command.wp_pure, List.append_nil]
  | some evidence =>
      simp only [rebaseRecordOutcome, recordReads, hrebase]
      rw [Command.wp_bind, wp_ask]
      split
      · exact ClosesFrom.after (by decide) (valid_completed (by decide)) rfl
      · next live hlive =>
        split
        · exact ClosesFrom.after (by decide) (valid_completed (by decide)) rfl
        · next hsame =>
          rw [not_not] at hsame
          simp only [Command.wp_pure, hlive, hsame]

end Steps

/-! ## The history before a merge request -/

/-- The questions and answers of a cycle whose every answer it liked. -/
def gateHistory (request : MergeWaitRequest ρ) (policy : MergePolicy)
    (first readiness last : Json) : MergeHistory ρ :=
  [MergeEvent.cancelled false] ++ admissionReads first ++ recordReads request
    ++ [MergeEvent.policy (.ok (some policy))] ++ [MergeEvent.threads (.ok [])]
    ++ [MergeEvent.readiness (.ok readiness)]
    ++ [MergeEvent.checks request.mergeHeadSha policy (.ok (.bool true))]
    ++ [MergeEvent.policy (.ok (some policy))] ++ [MergeEvent.threads (.ok [])]
    ++ recordReads request ++ [MergeEvent.cancelled false] ++ admissionReads last

theorem quiet_recordReads (request : MergeWaitRequest ρ) : Quiet (recordReads request) := by
  unfold recordReads
  split
  · intro e he
    cases he
  · exact quiet_one _ rfl

theorem quiet_admissionReads (state : Json) : Quiet (admissionReads state : MergeHistory ρ) := by
  have hstate : Quiet [(.prState (.ok state) : MergeEvent ρ)] := quiet_one _ rfl
  exact hstate.append (quiet_one _ rfl)

/-- Go on to the next part: what came before is quiet, so a completion of this
part is one from the start. -/
theorem wp_next {α β : Type} {x : MergeStep ρ α} {f : α → MergeStep ρ β}
    {R : α → MergeHistory ρ → Prop} {Q : β → MergeHistory ρ → Prop} {h : MergeHistory ρ}
    (hquiet : Quiet h) (hx : x.wp R (ClosesFrom py h) h)
    (hf : ∀ a h', R a h' → (f a).wp Q (ClosesFrom py []) h') :
    (x >>= f).wp Q (ClosesFrom py []) h := by
  rw [Command.wp_bind]
  refine Command.wp_mono hx hf fun report h' hc => ?_
  have hclose : ClosesFrom py ([] ++ h) report h' := hc
  exact hclose.earlier hquiet

theorem wp_refuse {p : Prop} [Decidable p] {outcome : String} {h : MergeHistory ρ}
    (hm : outcome ≠ "merged") (hne : outcome ≠ "") :
    (refuse p outcome : MergeStep ρ Unit).wp (fun _ h' => h' = h ∧ ¬ p) (ClosesFrom py h) h := by
  unfold refuse
  refine Command.wp_attempt (fun _ hok => ⟨rfl, raiseIf_ok.mp hok⟩) fun report herror => ?_
  unfold raiseIf at herror
  split at herror
  · cases herror
    exact ⟨valid_completed hne, [], (List.append_nil h).symm,
      fun e he => absurd he List.not_mem_nil, fun ho => absurd ho hm⟩
  · cases herror

/-- The cycle goes on to the merge request only with the history of the gate. -/
theorem wp_admission [DecidableEq ρ] :
    (admission py request adapter).wp
      (fun result h => request.queueAdmitted = false ∧ ∃ first readiness,
        h = gateHistory request result.1 first readiness result.2
        ∧ AdmittedState py request first ∧ ReadyState py request readiness
        ∧ SafePolicy result.1 ∧ AdmittedState py request result.2)
      (ClosesFrom py []) [] := by
  have q0 : Quiet ([] : MergeHistory ρ) := fun e he => absurd he List.not_mem_nil
  unfold admission
  refine wp_next q0 wp_operationBoundary ?_
  rintro - h1 rfl
  have q1 := q0.append (quiet_one (.cancelled false) rfl)
  refine wp_next q1 wp_admit ?_
  rintro first h2 ⟨rfl, hfirst⟩
  have q2 := q1.append (quiet_admissionReads first)
  refine wp_next q2 wp_rebaseRecordOutcome ?_
  rintro - h3 rfl
  have q3 := q2.append (quiet_recordReads request)
  refine wp_next q3 (wp_refuse (by decide) (by decide)) ?_
  rintro - - ⟨rfl, hqueue⟩
  rw [Bool.not_eq_true] at hqueue
  refine wp_next q3 (wp_refuse (by decide) (by decide)) ?_
  rintro - - ⟨rfl, -⟩
  refine wp_next q3 wp_readPolicy ?_
  rintro policy h4 rfl
  have q4 := q3.append (quiet_one (.policy (.ok (some policy))) rfl)
  refine wp_next q4 wp_policySafety ?_
  rintro - h5 ⟨rfl, hpolicy⟩
  have q5 := q4.append (quiet_one (.threads (.ok [])) rfl)
  refine wp_next q5 wp_readReadiness ?_
  rintro - h6 ⟨readiness, rfl, hready⟩
  have q6 := q5.append (quiet_one (.readiness (.ok readiness)) rfl)
  refine wp_next q6 wp_readChecks ?_
  rintro - h7 rfl
  have q7 := q6.append
    (quiet_one (.checks request.mergeHeadSha policy (.ok (.bool true))) rfl)
  refine wp_next q7 wp_readPolicy ?_
  rintro current h8 rfl
  have q8 := q7.append (quiet_one (.policy (.ok (some current))) rfl)
  refine wp_next q8 (wp_refuse (by decide) (by decide)) ?_
  rintro - - ⟨rfl, hsame⟩
  rw [not_not] at hsame
  subst hsame
  refine wp_next q8 wp_policySafety ?_
  rintro - h9 ⟨rfl, -⟩
  have q9 := q8.append (quiet_one (.threads (.ok [])) rfl)
  refine wp_next q9 wp_rebaseRecordOutcome ?_
  rintro - h10 rfl
  have q10 := q9.append (quiet_recordReads request)
  refine wp_next q10 wp_operationBoundary ?_
  rintro - h11 rfl
  have q11 := q10.append (quiet_one (.cancelled false) rfl)
  refine wp_next q11 wp_admit ?_
  rintro last h12 ⟨rfl, hlast⟩
  rw [Command.wp_pure]
  exact ⟨hqueue, first, readiness, rfl, hfirst, hready, hpolicy, hlast⟩

/-! ## After the merge request -/

section Reconciliation

variable {h : MergeHistory ρ}

theorem closes_now {report : MergeWaitCompleted} (hm : report.outcome ≠ "merged")
    (hvalid : report.Valid) : ClosesFrom py h report h := by
  refine ⟨hvalid, [], (List.append_nil h).symm, fun e he => absurd he List.not_mem_nil,
    fun ho => absurd ho hm⟩

/-- A second admission, and then a completion that does not claim the merge. -/
theorem wp_admit_then {f : Json → MergeStep ρ MergeWaitCompleted}
    (hf : ∀ state, ∃ report, f state = pure report ∧ report.outcome ≠ "merged" ∧ report.Valid) :
    (admitMerge py request adapter true >>= f).wp (ClosesFrom py h) (ClosesFrom py h) h := by
  rw [Command.wp_bind]
  refine Command.wp_mono wp_admit ?_ fun _ _ hc => hc
  rintro state h' ⟨rfl, -⟩
  obtain ⟨report, hreport, hm, hvalid⟩ := hf state
  rw [hreport, Command.wp_pure]
  exact ClosesFrom.of_events hm hvalid (quiet_admissionReads state)

theorem wp_afterMerged {body : Option Json} :
    (afterMerged py adapter body).wp (ClosesFrom py h) (ClosesFrom py h) h := by
  unfold afterMerged
  split
  · exact closes_now (by decide) (valid_attempted (by decide))
  · next body =>
    split
    · rw [Command.wp_bind, wp_ask]
      split
      · exact ClosesFrom.after (by decide) (valid_attempted (by decide)) rfl
      · next state hstate =>
        rw [Command.wp_pure, hstate]
        have hsha : ∀ sha, responseSha body = some sha → isFullSha sha = true := by
          intro sha hs
          unfold responseSha at hs
          split at hs
          · split at hs
            · next hfull =>
              cases hs
              exact hfull
            · cases hs
          · cases hs
        refine ⟨⟨?_, hsha⟩, [MergeEvent.prState (.ok state)], rfl, quiet_one _ rfl,
          fun hmerged => ?_⟩
        · show (terminal py state).getD "merge_not_merged" ≠ ""
          cases hterminal : terminal py state with
          | none => decide
          | some outcome => exact terminal_ne_empty hterminal
        · have hout : (terminal py state).getD "merge_not_merged" = "merged" := hmerged
          cases hterminal : terminal py state with
          | none =>
              rw [hterminal] at hout
              exact absurd hout (by decide)
          | some outcome =>
              rw [hterminal] at hout
              exact ⟨_, List.mem_singleton.mpr rfl, state, Or.inl rfl,
                hterminal.trans (congrArg some hout)⟩
    · exact closes_now (by decide) (valid_attempted (by decide))

theorem wp_afterNotAllowed :
    (afterNotAllowed py request adapter).wp (ClosesFrom py h) (ClosesFrom py h) h := by
  unfold afterNotAllowed
  rw [Command.wp_bind, wp_ask]
  split
  · exact ClosesFrom.after (by decide) (valid_attempted (by decide)) rfl
  · next readiness hreadiness =>
    rw [hreadiness]
    split
    · next outcome hterminal =>
      refine ⟨valid_attempted (terminal_ne_empty hterminal),
        [MergeEvent.readiness (.ok readiness)], rfl, quiet_one _ rfl, fun hmerged => ?_⟩
      exact ⟨_, List.mem_singleton.mpr rfl, readiness, Or.inr rfl,
        hterminal.trans (congrArg some hmerged)⟩
    · next hterminal =>
      split
      · next fields =>
        split
        · exact ClosesFrom.after (by decide) (valid_attempted (by decide)) rfl
        · have hreport : (readinessOutcome py request (.obj fields) true false).1.getD
                "readiness_wait" ≠ "merged"
              ∧ (readinessOutcome py request (.obj fields) true false).1.getD
                "readiness_wait" ≠ "" := by
            cases ho : readinessOutcome py request (.obj fields) true false with
            | mk status fingerprint =>
                cases status with
                | none =>
                    show "readiness_wait" ≠ "merged" ∧ "readiness_wait" ≠ ""
                    decide
                | some outcome =>
                    rcases readinessOutcome_some ho with hmerged | hother
                    · rw [hterminal] at hmerged
                      cases hmerged
                    · exact hother
          have hlater : (admitMerge py request adapter true >>= fun _ =>
              pure { attempted ((readinessOutcome py request (.obj fields) true
                false).1.getD "readiness_wait") with
                  readinessFingerprint :=
                    (readinessOutcome py request (.obj fields) true false).2 }).wp
              (ClosesFrom py (h ++ [MergeEvent.readiness (.ok (.obj fields))]))
              (ClosesFrom py (h ++ [MergeEvent.readiness (.ok (.obj fields))]))
              (h ++ [MergeEvent.readiness (.ok (.obj fields))]) :=
            wp_admit_then fun _ => ⟨_, rfl, hreport.1, hreport.2, fun _ hs => by cases hs⟩
          have hclose : ∀ report h',
              ClosesFrom py (h ++ [MergeEvent.readiness (.ok (.obj fields))]) report h'
              → ClosesFrom py h report h' := fun report h' hc => hc.earlier (quiet_one _ rfl)
          exact Command.wp_mono hlater hclose hclose
      · exact ClosesFrom.after (by decide) (valid_attempted (by decide)) rfl

theorem wp_reconciliation {result : Except Unit MergeResult} :
    (reconciliation py request adapter result).wp (ClosesFrom py h) (ClosesFrom py h) h := by
  unfold reconciliation
  split
  · exact closes_now (by simp [attempted, completed]) ⟨by simp [attempted, completed],
      fun _ hs => by cases hs⟩
  · next result =>
    split
    · exact closes_now (by decide) (valid_attempted (by decide))
    split
    · exact closes_now (by decide) (valid_attempted (by decide))
    split
    · next status _ _ =>
      split
      · exact closes_now (by decide) (valid_attempted (by decide))
      split
      · exact wp_afterMerged
      split
      · exact wp_admit_then fun _ => ⟨_, rfl, by decide, valid_attempted (by decide)⟩
      split
      · exact wp_afterNotAllowed
      · refine closes_now (fun ho => ?_) (valid_attempted fun ho => ?_)
        · have htext : "merge_http_" ++ toString status = "merged" := ho
          have hsixth := congrArg (fun t : String => t.toList[5]?) htext
          simp [String.toList_append] at hsixth
        · have htext : "merge_http_" ++ toString status = "" := ho
          have hfirst := congrArg (fun t : String => t.toList.head?) htext
          simp [String.toList_append] at hfirst
    · exact wp_admit_then fun _ => ⟨_, rfl, by simp [attempted, completed],
        ⟨by simp [attempted, completed], fun _ hs => by cases hs⟩⟩

end Reconciliation

/-! ## The gate -/

/-- What the history before a merge request must show. -/
structure MergeGate (py : PyText) (request : MergeWaitRequest ρ) (before : MergeHistory ρ)
    (head : Text) (policy : MergePolicy) (pullRequestId : Option Json) : Prop where
  head_eq : head = request.mergeHeadSha
  admissions : ∃ start first between last,
    before = start ++ admissionReads first ++ between ++ admissionReads last
    ∧ AdmittedState py request first ∧ AdmittedState py request last
    ∧ pullRequestId = last.get? "id"
  policies : List.Sublist [.policy (.ok (some policy)), .policy (.ok (some policy))] before
  safe : SafePolicy policy
  threads : List.Sublist [.threads (.ok []), .threads (.ok [])] before
  checks : .checks head policy (.ok (.bool true)) ∈ before
  readiness : ∃ state, .readiness (.ok state) ∈ before
    ∧ (state.get? "headRefOid").bind Json.asStr? = some (String.ofList request.mergeHeadSha)
    ∧ request.declinedReadinessFingerprint
        ≠ some (readinessFingerprint py request state request.mergeHeadSha)
  record : List.Sublist (recordReads request ++ recordReads request) before
  records : ∀ answer, .rebaseRecord answer ∈ before →
    ∀ evidence, request.rebase = some evidence → answer = .ok (some evidence.record)
  cancellation : List.Sublist [.cancelled false, .cancelled false] before
  notCancelled : .cancelled true ∉ before

/-- The guarantee of a cycle against one adapter. -/
structure GateHolds [DecidableEq ρ] (py : PyText) (request : MergeWaitRequest ρ)
    (adapter : MergeAdapter ρ) : Prop where
  once : ((runMergeWaitCycle py request adapter).2.filter MergeEvent.isMerge).length ≤ 1
  gated : ∀ before head policy pullRequestId answer later,
    (runMergeWaitCycle py request adapter).2
      = before ++ .merge head policy pullRequestId answer :: later →
    MergeGate py request before head policy pullRequestId
  merged : (runMergeWaitCycle py request adapter).1.outcome = "merged" →
    ∃ event ∈ (runMergeWaitCycle py request adapter).2, ShowsMerged py event
  valid : (runMergeWaitCycle py request adapter).1.Valid

/-- The readiness that the branch of the queue lets through although it was declined. -/
def blockedFingerprint (request : MergeWaitRequest ρ) : List Text :=
  [request.mergeHeadSha, Nat.toDigits 10 request.proofGeneration, "MERGEABLE".toList,
    "BLOCKED".toList]

theorem ReadyState.not_declined {state : Json} (h : ReadyState py request state)
    (hd : request.declinedReadinessFingerprint ≠ some (blockedFingerprint request)) :
    request.declinedReadinessFingerprint
      ≠ some (readinessFingerprint py request state request.mergeHeadSha) := by
  rcases h.fresh with hfresh | ⟨hstatus, hmergeable⟩
  · exact hfresh
  · have hsame : readinessFingerprint py request state request.mergeHeadSha
        = blockedFingerprint request := by
      rw [readinessFingerprint, hstatus, hmergeable, blockedFingerprint]
    rw [hsame]
    exact hd

theorem filter_quiet {h : MergeHistory ρ} (hq : Quiet h) : h.filter MergeEvent.isMerge = [] := by
  rw [List.filter_eq_nil_iff]
  intro e he
  rw [hq e he]
  exact Bool.false_ne_true

/-- The only merge request of a history is where the history is split. -/
theorem split_at_merge {before before' later later' : MergeHistory ρ} {e e' : MergeEvent ρ}
    (hb : Quiet before) (hl : Quiet later) (he' : e'.isMerge = true)
    (h : before ++ e :: later = before' ++ e' :: later') : before' = before ∧ e' = e := by
  rcases List.append_eq_append_iff.mp h with ⟨mid, hmid, hrest⟩ | ⟨mid, hmid, hrest⟩
  · cases mid with
    | nil =>
        rw [List.append_nil] at hmid
        exact ⟨hmid, (List.cons.inj hrest).1.symm⟩
    | cons d mid =>
        have hmem : e' ∈ later := by
          obtain ⟨-, hlater⟩ := List.cons.inj hrest
          rw [hlater]
          exact List.mem_append_right mid List.mem_cons_self
        rw [hl e' hmem] at he'
        cases he'
  · cases mid with
    | nil =>
        rw [List.append_nil] at hmid
        exact ⟨hmid.symm, (List.cons.inj hrest).1⟩
    | cons d mid =>
        have hd : d = e' := (List.cons.inj hrest).1.symm
        have hmem : e' ∈ before := by
          rw [hmid, ← hd]
          exact List.mem_append_right before' List.mem_cons_self
        rw [hb e' hmem] at he'
        cases he'

theorem gateHistory_eq (policy : MergePolicy) (first readiness last : Json) :
    gateHistory request policy first readiness last =
      MergeEvent.cancelled false :: MergeEvent.prState (.ok first)
        :: MergeEvent.labels (.ok (true, false))
        :: (recordReads request ++ MergeEvent.policy (.ok (some policy))
          :: MergeEvent.threads (.ok []) :: MergeEvent.readiness (.ok readiness)
          :: MergeEvent.checks request.mergeHeadSha policy (.ok (.bool true))
          :: MergeEvent.policy (.ok (some policy)) :: MergeEvent.threads (.ok [])
          :: (recordReads request ++ [MergeEvent.cancelled false, MergeEvent.prState (.ok last),
            MergeEvent.labels (.ok (true, false))])) := by
  simp [gateHistory, admissionReads]

/-- The record reads are reads of the request's own record. -/
theorem mem_recordReads {e : MergeEvent ρ} (h : e ∈ recordReads request) :
    ∃ evidence, request.rebase = some evidence ∧ e = .rebaseRecord (.ok (some evidence.record)) := by
  unfold recordReads at h
  split at h
  · cases h
  · next evidence hrebase => exact ⟨evidence, hrebase, List.mem_singleton.mp h⟩

theorem mergeGate_gateHistory {policy : MergePolicy} {first readiness last : Json}
    (hfirst : AdmittedState py request first) (hready : ReadyState py request readiness)
    (hpolicy : SafePolicy policy) (hlast : AdmittedState py request last)
    (hd : request.declinedReadinessFingerprint ≠ some (blockedFingerprint request)) :
    MergeGate py request (gateHistory request policy first readiness last) request.mergeHeadSha
      policy (last.get? "id") := by
  have hadmissions : gateHistory request policy first readiness last
      = [MergeEvent.cancelled false] ++ admissionReads first
        ++ (recordReads request ++ [MergeEvent.policy (.ok (some policy)),
          MergeEvent.threads (.ok []), MergeEvent.readiness (.ok readiness),
          MergeEvent.checks request.mergeHeadSha policy (.ok (.bool true)),
          MergeEvent.policy (.ok (some policy)), MergeEvent.threads (.ok [])]
          ++ recordReads request ++ [MergeEvent.cancelled false]) ++ admissionReads last := by
    simp [gateHistory]
  refine
    { head_eq := rfl
      admissions := ⟨_, first, _, last, hadmissions, hfirst, hlast, rfl⟩
      policies := ?_
      safe := hpolicy
      threads := ?_
      checks := ?_
      readiness := ⟨readiness, ?_, hready.head, hready.not_declined hd⟩
      record := ?_
      records := ?_
      cancellation := ?_
      notCancelled := ?_ }
  all_goals rw [gateHistory_eq]
  · refine .cons _ (.cons _ (.cons _ (List.sublist_append_of_sublist_right ?_)))
    exact .cons_cons _ (.cons _ (.cons _ (.cons _ (.cons_cons _ (List.nil_sublist _)))))
  · refine .cons _ (.cons _ (.cons _ (List.sublist_append_of_sublist_right ?_)))
    exact .cons _ (.cons_cons _ (.cons _ (.cons _ (.cons _ (.cons_cons _ (List.nil_sublist _))))))
  · simp
  · simp
  · refine .cons _ (.cons _ (.cons _ (List.Sublist.append (List.Sublist.refl _) ?_)))
    refine .cons _ (.cons _ (.cons _ (.cons _ (.cons _ (.cons _ ?_)))))
    exact List.sublist_append_left _ _
  · intro answer hmem evidence hevidence
    have hread : .rebaseRecord answer ∈ recordReads request := by
      simpa using hmem
    obtain ⟨evidence', hrebase, he⟩ := mem_recordReads hread
    rw [hevidence] at hrebase
    cases hrebase
    exact MergeEvent.rebaseRecord.inj he
  · refine .cons_cons _ (.cons _ (.cons _ (List.sublist_append_of_sublist_right ?_)))
    refine .cons _ (.cons _ (.cons _ (.cons _ (.cons _ (.cons _ ?_)))))
    exact List.sublist_append_of_sublist_right (.cons_cons _ (List.nil_sublist _))
  · intro hmem
    have hread : .cancelled true ∈ recordReads request := by
      simpa using hmem
    obtain ⟨_, _, he⟩ := mem_recordReads hread
    cases he

/-! ## Every cycle -/

theorem quiet_gateHistory (request : MergeWaitRequest ρ) (policy : MergePolicy) (first readiness last : Json) :
    Quiet (gateHistory request policy first readiness last) := by
  have hone : ∀ e : MergeEvent ρ, e.isMerge = false → Quiet [e] := quiet_one
  unfold gateHistory
  refine Quiet.append (Quiet.append (Quiet.append (Quiet.append (Quiet.append (Quiet.append
    (Quiet.append (Quiet.append (Quiet.append (Quiet.append (Quiet.append ?_ ?_) ?_) ?_) ?_) ?_)
      ?_) ?_) ?_) ?_) ?_) ?_
  all_goals first
    | exact hone _ rfl
    | exact quiet_admissionReads _
    | exact quiet_recordReads _

/-- How a cycle ends: without a merge request, or with one after the gate. -/
theorem runMergeWaitCycle_cases [DecidableEq ρ] (py : PyText) (request : MergeWaitRequest ρ)
    (adapter : MergeAdapter ρ) :
    ClosesFrom py [] (runMergeWaitCycle py request adapter).1
        (runMergeWaitCycle py request adapter).2
    ∨ request.queueAdmitted = false ∧ ∃ policy first readiness last answer,
        AdmittedState py request first ∧ ReadyState py request readiness
        ∧ SafePolicy policy ∧ AdmittedState py request last
        ∧ ClosesFrom py (gateHistory request policy first readiness last
            ++ [MergeEvent.merge request.mergeHeadSha policy (last.get? "id") answer])
          (runMergeWaitCycle py request adapter).1 (runMergeWaitCycle py request adapter).2 := by
  have hcycle : (mergeWaitCycle py request adapter).wp
      (fun report h => ClosesFrom py [] report h ∨ request.queueAdmitted = false
        ∧ ∃ policy first readiness last answer,
          AdmittedState py request first ∧ ReadyState py request readiness
          ∧ SafePolicy policy ∧ AdmittedState py request last
          ∧ ClosesFrom py (gateHistory request policy first readiness last
            ++ [MergeEvent.merge request.mergeHeadSha policy (last.get? "id") answer]) report h)
      (fun report h => ClosesFrom py [] report h ∨ request.queueAdmitted = false
        ∧ ∃ policy first readiness last answer,
          AdmittedState py request first ∧ ReadyState py request readiness
          ∧ SafePolicy policy ∧ AdmittedState py request last
          ∧ ClosesFrom py (gateHistory request policy first readiness last
            ++ [MergeEvent.merge request.mergeHeadSha policy (last.get? "id") answer]) report h)
      [] := by
    unfold mergeWaitCycle
    rw [Command.wp_bind]
    refine Command.wp_mono wp_admission ?_ fun _ _ hc => Or.inl hc
    rintro ⟨policy, last⟩ h ⟨hqueue, first, readiness, rfl, hfirst, hready, hpolicy, hlast⟩
    rw [Command.wp_bind, wp_ask]
    refine Command.wp_mono wp_reconciliation ?_ ?_
    · intro report h hc
      exact Or.inr ⟨hqueue, policy, first, readiness, last, _, hfirst, hready, hpolicy, hlast, hc⟩
    · intro report h hc
      exact Or.inr ⟨hqueue, policy, first, readiness, last, _, hfirst, hready, hpolicy, hlast, hc⟩
  unfold Command.wp at hcycle
  unfold runMergeWaitCycle
  split at hcycle
  · next report h hexec =>
    rw [hexec]
    exact hcycle
  · next report h hexec =>
    rw [hexec]
    exact hcycle

/-- A cycle whose request did not decline the queue's readiness passes the gate. -/
theorem gateHolds_of_not_declined [DecidableEq ρ] {request : MergeWaitRequest ρ}
    (hcond : request.queueAdmitted = true
      ∨ request.declinedReadinessFingerprint ≠ some (blockedFingerprint request))
    (adapter : MergeAdapter ρ) : GateHolds py request adapter := by
  rcases runMergeWaitCycle_cases py request adapter with hclose | ⟨hqueue, policy, first,
    readiness, last, answer, hfirst, hready, hpolicy, hlast, hclose⟩
  · obtain ⟨more, hmore, hquiet, hmerged⟩ := hclose.quiet
    rw [List.nil_append] at hmore
    rw [← hmore] at hquiet hmerged
    refine ⟨?_, ?_, hmerged, hclose.valid⟩
    · rw [filter_quiet hquiet]
      exact Nat.zero_le 1
    · intro before head policy id answer later hsplit
      have hnone := hquiet (.merge head policy id answer) (by
        rw [hsplit]
        exact List.mem_append_right before List.mem_cons_self)
      cases hnone
  · have hd : request.declinedReadinessFingerprint ≠ some (blockedFingerprint request) := by
      rcases hcond with hq | hd
      · rw [hqueue] at hq
        cases hq
      · exact hd
    have hbefore := quiet_gateHistory request policy first readiness last
    obtain ⟨more, hmore, hquiet, hmerged⟩ := hclose.quiet
    rw [List.append_assoc, List.singleton_append] at hmore
    refine ⟨?_, ?_, ?_, hclose.valid⟩
    · rw [hmore, List.filter_append, filter_quiet hbefore, List.filter_cons, filter_quiet hquiet]
      exact le_refl 1
    · intro before head policy' id answer' later hsplit
      rw [hmore] at hsplit
      obtain ⟨rfl, hevent⟩ := split_at_merge hbefore hquiet rfl hsplit
      obtain ⟨rfl, rfl, rfl, -⟩ := MergeEvent.merge.inj hevent
      exact mergeGate_gateHistory hfirst hready hpolicy hlast hd
    · intro ho
      obtain ⟨e, he, hs⟩ := hmerged ho
      refine ⟨e, ?_, hs⟩
      rw [hmore]
      exact List.mem_append_right _ (List.mem_cons_of_mem _ he)

/-! ## The branch of the queue -/

/-- A policy with a merge queue. -/
def queuePolicy : MergePolicy :=
  { baseBranch := "main".toList, defaultBranch := "main".toList, requiredChecks := []
    conversationResolutionEnforced := true, bypassableRulesetIds := []
    strictUpdateEnforced := false, mergeQueueMethod := some "SQUASH".toList }

/-- An open pull request into `main` at a head. -/
def openState (head : Text) : Json :=
  .obj [("state", .str "OPEN"), ("autoMergeRequest", .null), ("baseRefName", .str "main"),
    ("headRefOid", .str (String.ofList head))]

/-- Its readiness while it waits for the queue. -/
def blockedReadiness (head : Text) : Json :=
  .obj [("headRefOid", .str (String.ofList head)), ("mergeStateStatus", .str "BLOCKED"),
    ("mergeable", .str "MERGEABLE")]

/-- An adapter that answers as GitHub does for such a pull request. -/
def blockedAdapter (request : MergeWaitRequest ρ) : MergeAdapter ρ where
  prState _ := .ok (openState request.mergeHeadSha)
  labels _ := .ok (true, false)
  rebaseRecord _ := .ok (request.rebase.map RebaseEvidence.record)
  policy _ := .ok (some queuePolicy)
  threads _ := .ok []
  readiness _ := .ok (blockedReadiness request.mergeHeadSha)
  checks _ := .ok (.bool true)
  cancelled _ := false
  merge _ := .error ()

theorem mergeHeadSha_ne_nil (request : MergeWaitRequest ρ) : request.mergeHeadSha ≠ [] := by
  have hfull : isFullSha request.mergeHeadSha = true := by
    unfold MergeWaitRequest.mergeHeadSha
    split
    · next evidence _ => exact evidence.full
    · exact request.full
  intro hnil
  rw [hnil] at hfull
  exact absurd hfull (by decide)

theorem terminal_openState (py : PyText) (head : Text) : terminal py (openState head) = none := by
  have hupper : py.upper "OPEN".toList = "OPEN".toList := by
    rw [py.upper_ascii _ (Text.forall_mem_of_all (by decide))]
    decide
  have hstate : py.orEmpty ((openState head).get? "state") = "OPEN".toList := rfl
  have hmerged : ((openState head).get? "mergedAt").getD .null = .null := rfl
  unfold openState at hstate hmerged ⊢
  simp only [terminal, hstate, hupper, hmerged]
  decide

theorem terminal_blockedReadiness (py : PyText) (head : Text) : terminal py (blockedReadiness head) = none := by
  have hupper : py.upper [] = [] := by
    rw [py.upper_ascii _ (Text.forall_mem_of_all (by decide))]
    decide
  have hstate : py.orEmpty ((blockedReadiness head).get? "state") = [] := rfl
  have hmerged : ((blockedReadiness head).get? "mergedAt").getD .null = .null := rfl
  unfold blockedReadiness at hstate hmerged ⊢
  simp only [terminal, hstate, hupper, hmerged]
  decide

theorem upperField_blockedReadiness (py : PyText) (head : Text) :
    upperField py (blockedReadiness head) "mergeStateStatus" = "BLOCKED".toList
      ∧ upperField py (blockedReadiness head) "mergeable" = "MERGEABLE".toList := by
  constructor
  · show py.upper "BLOCKED".toList = _
    rw [py.upper_ascii _ (Text.forall_mem_of_all (by decide))]
    decide
  · show py.upper "MERGEABLE".toList = _
    rw [py.upper_ascii _ (Text.forall_mem_of_all (by decide))]
    decide

theorem readinessFingerprint_blockedReadiness (head : Text) :
    readinessFingerprint py request (blockedReadiness head) request.mergeHeadSha
      = blockedFingerprint request := by
  obtain ⟨hstatus, hmergeable⟩ := upperField_blockedReadiness py head
  rw [readinessFingerprint, hstatus, hmergeable, blockedFingerprint]

/-- The queue's branch lets the readiness through, whatever was declined. -/
theorem readinessOutcome_blockedReadiness (py : PyText) (request : MergeWaitRequest ρ) :
    (readinessOutcome py request (blockedReadiness request.mergeHeadSha) false true).1 = none := by
  obtain ⟨hstatus, hmergeable⟩ := upperField_blockedReadiness py request.mergeHeadSha
  have hhead : ((blockedReadiness request.mergeHeadSha).get? "headRefOid").bind Json.asStr?
      = some (String.ofList request.mergeHeadSha) := rfl
  have hne : String.ofList request.mergeHeadSha ≠ "" := by
    intro hnil
    have hlist := congrArg String.toList hnil
    rw [String.toList_ofList] at hlist
    exact mergeHeadSha_ne_nil request hlist
  have harmed : isNone ((blockedReadiness request.mergeHeadSha).get? "autoMergeRequest") = true :=
    rfl
  have hqueue : readinessOfHead request false true
      (readinessFingerprint py request (blockedReadiness request.mergeHeadSha)
        request.mergeHeadSha) "BLOCKED".toList "MERGEABLE".toList = none := by
    rw [readinessOfHead, if_neg (by decide), if_pos (by decide)]
  have hterminal := terminal_blockedReadiness py request.mergeHeadSha
  unfold blockedReadiness at hterminal hhead harmed hstatus hmergeable hqueue ⊢
  simp only [readinessOutcome, hterminal, harmed, hhead, hne, if_false, String.toList_ofList,
    ne_eq, not_true_eq_false, Bool.true_eq_false, hstatus, hmergeable, hqueue]

theorem exec_ask {α : Type} (answer : MergeHistory ρ → α) (event : α → MergeEvent ρ)
    (h : MergeHistory ρ) :
    (ask answer event).exec h = (.ok (answer h), h ++ [event (answer h)]) := rfl

theorem exec_operationBoundary_blocked (h : MergeHistory ρ) :
    (operationBoundary (blockedAdapter request)).exec h
      = (.ok (), h ++ [MergeEvent.cancelled false]) := rfl

theorem exec_admit_blocked (h : MergeHistory ρ) :
    (admitMerge py request (blockedAdapter request) false).exec h
      = (.ok (openState request.mergeHeadSha),
        h ++ admissionReads (openState request.mergeHeadSha)) := by
  have hok : admitState py false (openState request.mergeHeadSha) = .ok () := by
    have hterminal := terminal_openState py request.mergeHeadSha
    unfold openState at hterminal ⊢
    simp only [admitState, hterminal]
    rfl
  have hhead : py.orEmpty ((openState request.mergeHeadSha).get? "headRefOid")
      = request.mergeHeadSha := String.toList_ofList
  simp only [admitMerge, Command.exec_bind, exec_ask, blockedAdapter, Command.exec_attempt, hok, hhead,
    Bool.true_eq_false, Bool.false_eq_true, or_self, if_false, mergeHeadSha_ne_nil, ne_eq,
    not_true_eq_false, Command.exec_pure, admissionReads, List.append_assoc, List.singleton_append]

theorem exec_rebaseRecordOutcome_blocked [DecidableEq ρ] (h : MergeHistory ρ) :
    (rebaseRecordOutcome request (blockedAdapter request)).exec h
      = (.ok (), h ++ recordReads request) := by
  cases hrebase : request.rebase with
  | none =>
      simp only [rebaseRecordOutcome, recordReads, hrebase, Command.exec_pure, List.append_nil]
  | some evidence =>
      simp only [rebaseRecordOutcome, recordReads, hrebase, Command.exec_bind, exec_ask,
        blockedAdapter, Option.map_some, ne_eq, not_true_eq_false, if_false, Command.exec_pure]

theorem exec_policySafety_blocked (h : MergeHistory ρ) :
    (policySafety (blockedAdapter request) queuePolicy).exec h
      = (.ok (), h ++ [MergeEvent.threads (.ok [])]) := rfl

theorem exec_readPolicy_blocked (h : MergeHistory ρ) :
    (readPolicy (blockedAdapter request)).exec h
      = (.ok queuePolicy, h ++ [MergeEvent.policy (.ok (some queuePolicy))]) := rfl

theorem exec_readReadiness_blocked (h : MergeHistory ρ) :
    (readReadiness py request (blockedAdapter request) queuePolicy).exec h
      = (.ok (), h ++ [MergeEvent.readiness (.ok (blockedReadiness request.mergeHeadSha))]) := by
  have hnone := readinessOutcome_blockedReadiness py request
  have hqueue : queuePolicy.mergeQueueRequired = true := rfl
  simp only [readReadiness, Command.exec_bind, exec_ask, blockedAdapter, hqueue]
  split
  · next outcome fingerprint ho =>
    rw [ho] at hnone
    cases hnone
  · rfl

theorem exec_readChecks_blocked (h : MergeHistory ρ) :
    (readChecks request (blockedAdapter request) queuePolicy).exec h
      = (.ok (), h
        ++ [MergeEvent.checks request.mergeHeadSha queuePolicy (.ok (.bool true))]) := rfl

theorem exec_refuse {p : Prop} [Decidable p] {outcome : String} (hp : ¬ p) (h : MergeHistory ρ) :
    (refuse p outcome : MergeStep ρ Unit).exec h = (.ok (), h) := by
  simp only [refuse, Command.exec_attempt, raiseIf, hp, if_false]

/-- The history that such a pull request leaves before its merge request. -/
def blockedHistory (request : MergeWaitRequest ρ) : MergeHistory ρ :=
  gateHistory request queuePolicy (openState request.mergeHeadSha)
    (blockedReadiness request.mergeHeadSha) (openState request.mergeHeadSha)

/-- Nothing stops the cycle on the branch of the queue. -/
theorem exec_admission_blocked [DecidableEq ρ] (hqueue : request.queueAdmitted = false) :
    (admission py request (blockedAdapter request)).exec []
      = (.ok (queuePolicy, openState request.mergeHeadSha), blockedHistory request) := by
  have hnotAdmitted : ¬ request.queueAdmitted = true := by
    rw [hqueue]
    exact Bool.false_ne_true
  have hbase : ¬ (((openState request.mergeHeadSha).get? "baseRefName").bind
      Json.asStr?).getD "" = "" := by
    show ¬ "main" = ""
    decide
  simp only [admission, Command.exec_bind, exec_operationBoundary_blocked, exec_admit_blocked,
    exec_rebaseRecordOutcome_blocked, exec_refuse hnotAdmitted, exec_refuse hbase,
    exec_readPolicy_blocked, exec_policySafety_blocked, exec_readReadiness_blocked,
    exec_readChecks_blocked, ne_eq, exec_refuse (not_not.mpr rfl), Command.exec_pure,
    blockedHistory, gateHistory, List.nil_append]

/-- So its merge request goes out on a readiness that was declined. -/
theorem not_gateHolds_of_declined [DecidableEq ρ] (hqueue : request.queueAdmitted = false)
    (hd : request.declinedReadinessFingerprint = some (blockedFingerprint request)) :
    ¬ GateHolds py request (blockedAdapter request) := by
  intro hgate
  have hrun : (runMergeWaitCycle py request (blockedAdapter request)).2
      = blockedHistory request ++ .merge request.mergeHeadSha queuePolicy none (.error ()) :: [] := by
    simp only [runMergeWaitCycle, mergeWaitCycle, Command.exec_bind,
      exec_admission_blocked hqueue, exec_ask]
    rfl
  obtain ⟨state, hmem, -, hfresh⟩ := (hgate.gated _ _ _ _ _ _ hrun).readiness
  have hstate : state = blockedReadiness request.mergeHeadSha := by
    rw [blockedHistory, gateHistory_eq] at hmem
    have hor : state = blockedReadiness request.mergeHeadSha
        ∨ .readiness (.ok state) ∈ recordReads request := by
      simpa [or_comm] using hmem
    rcases hor with hsame | hread
    · exact hsame
    · obtain ⟨_, _, he⟩ := mem_recordReads hread
      cases he
  rw [hstate, readinessFingerprint_blockedReadiness] at hfresh
  exact hfresh hd

/-- The cycle passes its gate against every adapter exactly when its request did
not decline the readiness of the queue's branch. -/
theorem merge_request_gated_iff [DecidableEq ρ] (py : PyText) (request : MergeWaitRequest ρ) :
    (∀ adapter, GateHolds py request adapter) ↔
      (request.queueAdmitted = true
        ∨ request.declinedReadinessFingerprint ≠ some (blockedFingerprint request)) := by
  constructor
  · intro hall
    by_contra hcond
    rw [not_or, Bool.not_eq_true, not_not] at hcond
    exact not_gateHolds_of_declined hcond.1 hcond.2 (hall (blockedAdapter request))
  · intro hcond adapter
    exact gateHolds_of_not_declined hcond adapter

/-- A request that declined the queue's readiness of its head. -/
def declinedRequest : MergeWaitRequest Unit :=
  { prNumber := 7, reviewedHeadSha := List.replicate 40 'a', full := by decide
    proofGeneration := 3
    declinedReadinessFingerprint := some [List.replicate 40 'a', ['3'], "MERGEABLE".toList,
      "BLOCKED".toList]
    queueAdmitted := false, rebase := none }

theorem merge_request_not_gated :
    ¬ ∀ adapter, GateHolds { Text.asciiTables with str := fun _ => [] } declinedRequest adapter := by
  intro hall
  exact not_gateHolds_of_declined rfl (by decide) (hall (blockedAdapter declinedRequest))

end Hephaestus.Automation
