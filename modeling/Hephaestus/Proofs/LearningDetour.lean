import Hephaestus.Pipeline.LearningStage
import Hephaestus.Proofs.Handoff
import Hephaestus.Proofs.Ownership

/-!
# Where the learning detour ends

An item that takes the detour remembers in `learning_resume_stage` where it
was going. The stage leaves that alone, and so does everything the
coordinator writes while the item is at `LEARNING`, so the last turn of the
stage sees the stage the classifier had chosen. It can name only two of them
to the coordinator, `IMPLEMENTATION` and `PLAN_REVIEW`; every other item is
advanced, and `LEARNING` advances to the sink. An item that was on its way to
planning, to review or to a merge is finished as passed.

`learning_detour_iff` says which items come out where they were going.
-/

namespace Hephaestus.Pipeline

open Hephaestus.Lib Hephaestus.Lib.Command Hephaestus.Automation

variable {ω : Type} {host : Host ω} {s t : Coordinator} {i : ItemId} {primary : StageName}
  {py : PyText} {sha256 : String → String}

/-! ## Onto the detour -/

/-- What a source hands to `_restore_learning_intents`: a new item at the
stage its classifier chose. -/
structure Seeded (primary : StageName) (item : WorkItem) : Prop where
  stage : item.stage = primary
  postProcessing : item.postProcessing = none
  failBacks : item.payload.get? failBacksKey = none

/-- An item on its detour from `primary`. -/
structure OnDetour (primary : StageName) (item : WorkItem) : Prop where
  stage : item.stage = .learning
  resume : item.learningResumeStage = some primary
  postProcessing : primary ≠ .finished → item.postProcessing = none
  failBacks : primary ≠ .finished → item.payload.get? failBacksKey = none
  state : item.state = "ENTER" ∨ item.state = "CLAIM" ∨ item.state = "RESULT"

theorem WorkItem.restorePostProcessing_frame {record : Dict String Json} {item a : WorkItem}
    (h : item.restorePostProcessing py sha256 record = .ok (some a)) :
    a.learningResumeStage = item.learningResumeStage ∧ a.stage = item.stage := by
  unfold WorkItem.restorePostProcessing at h
  split at h
  · split at h
    · split at h
      · cases h
      · split at h
        · rw [except_bind_ok] at h
          obtain ⟨final, _, h⟩ := h
          rw [except_bind_ok] at h
          obtain ⟨resume, _, h⟩ := h
          obtain rfl := Option.some.inj (Except.ok.inj h)
          exact ⟨rfl, rfl⟩
        · cases h
    · cases h
  · cases h

theorem restorePostProcessing_frame {record : Dict String Json} {item a : WorkItem}
    {restored : Bool} (h : restorePostProcessing py sha256 record item = .ok (a, restored)) :
    (a.learningResumeStage = item.learningResumeStage ∧ a.stage = item.stage) ∨
      a = item.quarantined := by
  unfold restorePostProcessing at h
  split at h
  · next b hb =>
      obtain ⟨rfl, _⟩ := Prod.mk.inj (Except.ok.inj h)
      exact .inl (WorkItem.restorePostProcessing_frame hb)
  · obtain ⟨rfl, _⟩ := Prod.mk.inj (Except.ok.inj h)
    exact .inl ⟨rfl, rfl⟩
  · split at h
    · obtain ⟨rfl, _⟩ := Prod.mk.inj (Except.ok.inj h)
      exact .inr rfl
    · cases h

/-- A diverted item remembers where it was going. -/
theorem divert_resume {reason : String} {first : Dict String Json}
    {rest : List (Dict String Json)} {item b : WorkItem}
    (h : divert py sha256 primary reason first rest item = .ok b) (hb : b.stage = .learning) :
    b.learningResumeStage = some primary ∧ (primary ≠ .finished →
      b.postProcessing = item.postProcessing ∧ b.payload = item.payload) := by
  unfold divert at h
  dsimp only at h
  split at h
  · next hfin =>
      refine ⟨?_, fun hne => absurd hfin hne⟩
      rw [except_bind_ok] at h
      obtain ⟨⟨a, restored⟩, ha, h⟩ := h
      dsimp only at h
      rcases restorePostProcessing_frame ha with ⟨hresume, _⟩ | rfl
      · split at h
        · obtain rfl := Except.ok.inj h
          exact hresume
        · split at h
          · obtain rfl := Except.ok.inj h
            exact hresume
          · split at h
            · obtain rfl := Except.ok.inj h
              exact hresume
            · obtain rfl := Except.ok.inj h
              exact hresume
      · -- a quarantined item has failed, and stays where it is
        obtain rfl := Except.ok.inj h
        cases hb
  · obtain rfl := Except.ok.inj h
    exact ⟨rfl, fun _ => ⟨rfl, rfl⟩⟩

theorem withoutLearning_stage {journal : RecoveryJournal} {first : Dict String Json}
    {rest : List (Dict String Json)} {item b : WorkItem}
    (h : withoutLearning py sha256 journal primary first rest item = .ok b)
    (hb : b.stage = .learning) : item.stage = .learning := by
  unfold withoutLearning at h
  rw [check_bind_ok] at h
  obtain ⟨_, h⟩ := h
  dsimp only at h
  split at h
  · rw [except_bind_ok] at h
    obtain ⟨⟨a, restored⟩, ha, h⟩ := h
    have hstage : a.stage = .learning := by
      dsimp only at h
      split at h
      · obtain rfl := Except.ok.inj h
        exact hb
      · obtain rfl := Except.ok.inj h
        exact hb
    rcases restorePostProcessing_frame ha with ⟨_, hsame⟩ | rfl
    · exact hsame.symm.trans hstage
    · cases hstage
  · obtain rfl := Except.ok.inj h
    exact hb

/-- Recovery puts an item at `LEARNING` only by diverting it. -/
theorem restoreLearningIntents_resume {config : PipelineConfig} {journal : Option RecoveryJournal}
    {reason : String} {item b : WorkItem} (hseed : Seeded primary item)
    (hne : primary ≠ .learning)
    (h : restoreLearningIntents config py sha256 journal (some primary) reason item = .ok b)
    (hb : b.stage = .learning) :
    b.learningResumeStage = some primary ∧ (primary ≠ .finished →
      b.postProcessing = none ∧ b.payload.get? failBacksKey = none) := by
  have hitem : ¬ item.stage = .learning := fun hst => hne (hseed.stage.symm.trans hst)
  unfold restoreLearningIntents at h
  split at h
  · next hprimary =>
      obtain rfl := Option.some.inj hprimary
      split at h
      · obtain rfl := Except.ok.inj h
        exact absurd hb hitem
      · rw [except_bind_ok] at h
        obtain ⟨restored, _, h⟩ := h
        dsimp only at h
        split at h
        · obtain rfl := Except.ok.inj h
          exact absurd hb hitem
        · split at h
          · obtain ⟨hresume, hrest⟩ := divert_resume h hb
            refine ⟨hresume, fun hfin => ?_⟩
            obtain ⟨hpost, hpayload⟩ := hrest hfin
            exact ⟨hpost.trans hseed.postProcessing, hpayload ▸ hseed.failBacks⟩
          · exact absurd (withoutLearning_stage h hb) hitem
  · obtain rfl := Except.ok.inj h
    exact absurd hb hitem

/-! ## On the detour -/

/-- What is written to an item while it is at `LEARNING`: by the stage's own
methods, and by the coordinator around them. -/
inductive DetourWrite (py : PyText) (sha256 : String → String) : WorkItem → WorkItem → Prop
  | onEnter (w : LearningWorld) (item : WorkItem) :
      DetourWrite py sha256 item ((LearningStage.onEnter sha256 w).exec item).2
  | step (w : LearningWorld) (item : WorkItem) :
      DetourWrite py sha256 item ((LearningStage.step py sha256 w).exec item).2
  | onJobDone (w : LearningWorld) (result : JobResult) (item : WorkItem) :
      DetourWrite py sha256 item ((LearningStage.onJobDone py sha256 w result).exec item).2
  | onCancelledBeforeStart (w : LearningWorld) (item : WorkItem) :
      DetourWrite py sha256 item ((LearningStage.onCancelledBeforeStart sha256 w).exec item).2
  /-- `Continue`. -/
  | goOn (w : LearningWorld) (item : WorkItem) {next : String}
      (h : ((LearningStage.step py sha256 w).exec item).1 = .ok (.goOn next)) :
      DetourWrite py sha256 item { item with state := next }
  /-- The completion of a job the stage asked for. -/
  | onDoneState (w : LearningWorld) (before item : WorkItem) {request : JobRequest}
      (h : ((LearningStage.step py sha256 w).exec before).1 = .ok (.job request)) :
      DetourWrite py sha256 item { item with state := request.onDoneState }
  /-- `_run_item`. -/
  | entered (item : WorkItem) : DetourWrite py sha256 item (item.popPayload enterPendingKey)
  /-- `_route_retry`. -/
  | retried (item : WorkItem) : DetourWrite py sha256 item (item.popPayload retryDelayKey)
  /-- The source that seeds the item, around the push. -/
  | branch (item : WorkItem) (branch : String) :
      DetourWrite py sha256 item { item with branch := branch }
  | wave (item : WorkItem) {key : String} (value : PayloadValue)
      (h : key = waveLeasePayload ∨ key = waveNonCodePayload) :
      DetourWrite py sha256 item (item.setPayload key value)
  /-- `_handle_completion`, after `on_job_done` raised. -/
  | journalFailed (item : WorkItem) : DetourWrite py sha256 item
      { item with payload := item.payload.addFailure "journal" "journal_completion_failed" }

/-- Whatever the command returns satisfies `P`. -/
def Returns {α : Type} (P : α → Prop) (x : ItemOp α) : Prop :=
  ∀ item, x.wp (fun r _ => P r) (fun _ _ => True) item

namespace Returns

variable {α β : Type} {P : α → Prop}

theorem pure {v : α} (h : P v) : Returns P (pure v : ItemOp α) := fun _ => h

theorem bind {x : ItemOp β} {f : β → ItemOp α} (hf : ∀ v, Returns P (f v)) :
    Returns P (x >>= f) := by
  intro item
  rw [wp_bind]
  unfold wp
  rcases x.exec item with ⟨e | v, next⟩
  · exact trivial
  · exact hf v next

theorem ite {p : Prop} [Decidable p] {x y : ItemOp α} (hx : Returns P x) (hy : Returns P y) :
    Returns P (if p then x else y) := by
  split
  · exact hx
  · exact hy

end Returns

/-- The stage goes on to `CLAIM`, and its jobs are answered in `RESULT`. -/
def LearningAnswer : StepResult → Prop
  | .goOn next => next = "CLAIM"
  | .job request => request.onDoneState = "RESULT"
  | .outcome _ => True

theorem claimOrSkip_returns (w : LearningWorld) (intent : LearningIntent)
    (record : LearningRecord Json) :
    Returns (fun skip => ∀ r, skip = some r → LearningAnswer r)
      (LearningStage.claimOrSkip py sha256 w intent record) := by
  have hgo : ∀ r, some (StepResult.goOn "CLAIM") = some r → LearningAnswer r := by
    rintro r ⟨⟩
    rfl
  have hout : ∀ o r, some (StepResult.outcome o) = some r → LearningAnswer r := by
    rintro o r ⟨⟩
    trivial
  have hrejected : Returns (fun skip => ∀ r, skip = some r → LearningAnswer r) (do
      noteFailure (intent.key sha256) "plan_only_learning_rejected"
      recordSummaryAction py "plan_only_learning_rejected"
      pure (some (.goOn "CLAIM")) : ItemOp (Option StepResult)) :=
    .bind fun _ => .bind fun _ => .pure hgo
  refine .ite (.bind fun _ => .ite (.pure (hout _)) (.bind fun found => ?_))
    (.ite (.pure hgo) (.ite (.pure fun r h => by cases h) (.bind fun _ =>
      .ite (.bind fun _ => hrejected) hrejected)))
  cases found with
  | none => exact .pure (hout _)
  | some abandoned => exact .ite (.bind fun _ => .pure hgo) (.pure hgo)

theorem prepareHostJob_returns (w : LearningWorld) (intent : LearningIntent) :
    Returns LearningAnswer (LearningStage.prepareHostJob py sha256 w intent) := by
  unfold LearningStage.prepareHostJob
  split
  · exact .bind fun _ => .pure trivial
  · exact .bind fun _ => .pure rfl
  · exact .pure rfl

theorem stepIntent_returns (w : LearningWorld) (intent : LearningIntent) :
    Returns LearningAnswer (LearningStage.stepIntent py sha256 w intent) := by
  have hdeliver : Returns LearningAnswer (LearningStage.deliver py sha256 w intent) :=
    .bind fun _ => .ite (prepareHostJob_returns w intent)
      (.bind fun _ => .bind fun _ => .bind fun _ => .bind fun _ => .pure rfl)
  have hrest : ∀ record,
      Returns LearningAnswer (LearningStage.stepRecord py sha256 w intent record) := by
    intro record item
    unfold LearningStage.stepRecord
    rw [wp_bind]
    refine wp_mono (claimOrSkip_returns w intent record item) ?_ fun _ _ h => h
    intro skip next hskip
    cases skip with
    | some r => exact hskip r rfl
    | none =>
        have hgo : LearningAnswer (.goOn "CLAIM") := rfl
        exact Returns.bind (fun _ => .ite hdeliver (.pure hgo)) next
  refine .bind fun found => ?_
  cases found with
  | some record => exact hrest record
  | none => exact .bind hrest

theorem step_returns (py : PyText) (sha256 : String → String) (w : LearningWorld) :
    Returns LearningAnswer (LearningStage.step py sha256 w) := by
  refine .bind fun item => .ite (.pure rfl) (.ite (.pure trivial) (.bind fun next => ?_))
  cases next with
  | none => exact .pure trivial
  | some intent => exact stepIntent_returns w intent

theorem step_answer {w : LearningWorld} {item : WorkItem} {r : StepResult}
    (h : ((LearningStage.step py sha256 w).exec item).1 = .ok r) : LearningAnswer r := by
  have hret := step_returns py sha256 w item
  unfold wp at hret
  split at hret
  · next v next hexec =>
      rw [hexec] at h
      obtain rfl := Except.ok.inj h
      exact hret
  · next e next hexec =>
      rw [hexec] at h
      cases h

theorem OnDetour.ofWrites {a b : WorkItem} (h : OnDetour primary a) (hw : LearningWrites a b) :
    OnDetour primary b where
  stage := by rw [hw.eq]; exact h.stage
  resume := by rw [hw.eq]; exact h.resume
  postProcessing := by rw [hw.eq]; exact h.postProcessing
  failBacks := fun hne => (hw.keys _ (by decide)).trans (h.failBacks hne)
  state := by
    rcases hw.state with hsame | ⟨hempty, _⟩
    · rw [hsame]
      exact h.state
    · have hstate := h.state
      rw [hempty] at hstate
      exact absurd hstate (by decide)

theorem OnDetour.setState {a : WorkItem} {next : String} (h : OnDetour primary a)
    (hnext : next = "ENTER" ∨ next = "CLAIM" ∨ next = "RESULT") :
    OnDetour primary { a with state := next } :=
  ⟨h.stage, h.resume, h.postProcessing, h.failBacks, hnext⟩

theorem OnDetour.popPayload {a : WorkItem} {key : String} (h : OnDetour primary a)
    (hkey : failBacksKey ≠ key) : OnDetour primary (a.popPayload key) :=
  ⟨h.stage, h.resume, h.postProcessing,
    fun hne => ((Dict.get?_erase _ _ _).trans (if_neg hkey)).trans (h.failBacks hne), h.state⟩

theorem OnDetour.setPayload {a : WorkItem} {key : String} (h : OnDetour primary a)
    (value : PayloadValue) (hkey : key ≠ failBacksKey) :
    OnDetour primary (a.setPayload key value) :=
  ⟨h.stage, h.resume, h.postProcessing,
    fun hne => (Dict.get?_set_ne _ _ hkey).trans (h.failBacks hne), h.state⟩

theorem DetourWrite.onDetour {a b : WorkItem} (hw : DetourWrite py sha256 a b)
    (h : OnDetour primary a) : OnDetour primary b := by
  cases hw with
  | onEnter w => exact h.ofWrites (wp_state (LearningStage.onEnter_writes sha256 w a a (.refl a)))
  | step w => exact h.ofWrites (wp_state (LearningStage.step_writes py sha256 w a a (.refl a)))
  | onJobDone w result =>
      exact h.ofWrites
        (wp_state (LearningStage.onJobDone_writes py sha256 w result a a (.refl a)))
  | onCancelledBeforeStart w =>
      exact h.ofWrites
        (wp_state (LearningStage.onCancelledBeforeStart_writes sha256 w a a (.refl a)))
  | goOn w _ hstep => exact h.setState (.inr (.inl (step_answer hstep)))
  | onDoneState w before _ hstep => exact h.setState (.inr (.inr (step_answer hstep)))
  | entered => exact h.popPayload (by decide)
  | retried => exact h.popPayload (by decide)
  | branch => exact ⟨h.stage, h.resume, h.postProcessing, h.failBacks, h.state⟩
  | wave _ value hkey =>
      refine h.setPayload value ?_
      rcases hkey with rfl | rfl
      · decide
      · decide
  | journalFailed => exact h.setPayload _ (by decide)

/-- The record of an item its source has just pushed. -/
def WorkItem.pushed (item : WorkItem) (stage : StageName) : WorkItem :=
  let item := item.moveTo stage true
  if (item.payload.get? "entry_stage").isSome then item
  else item.setPayload "entry_stage" (.str stage.value)

theorem admitPushed_pushed (stage : StageName) :
    (s.admitPushed i stage true true).workItem i = (s.workItem i).pushed stage := by
  unfold Coordinator.admitPushed WorkItem.pushed
  exact Function.update_self _ _ _

theorem OnDetour.pushed {b : WorkItem} (hresume : b.learningResumeStage = some primary)
    (hrest : primary ≠ .finished → b.postProcessing = none ∧
      b.payload.get? failBacksKey = none) : OnDetour primary (b.pushed .learning) := by
  have hmoved : OnDetour primary (b.moveTo .learning true) := by
    unfold WorkItem.moveTo WorkItem.clearFileClaimsOnExit
    rw [if_pos rfl]
    refine ⟨rfl, ?_, fun hne => ?_, fun hne => ?_, .inl rfl⟩
    · dsimp only [WorkItem.setPayload]
      split
      · exact hresume
      · exact hresume
    · dsimp only [WorkItem.setPayload]
      split
      · exact (hrest hne).1
      · exact (hrest hne).1
    · refine (Dict.get?_set_ne _ _ (by decide)).trans ?_
      split
      · exact ((Dict.get?_erase _ _ _).trans (if_neg (by decide))).trans (hrest hne).2
      · exact (hrest hne).2
  unfold WorkItem.pushed
  dsimp only
  split
  · exact hmoved
  · exact hmoved.setPayload _ (by decide)

/-- Whatever is written, an item stays on its detour. -/
theorem OnDetour.run {a b : WorkItem} (h : OnDetour primary a)
    (hrun : Relation.ReflTransGen (DetourWrite py sha256) a b) : OnDetour primary b := by
  induction hrun with
  | refl => exact h
  | tail _ hw ih => exact hw.onDetour ih

/-! ## The last turn -/

/-- The journal says, whenever it is read, that there is nothing left to
deliver. -/
def AllTerminal (sha256 : String → String) (view : ω → LearningWorld) (w : World ω)
    (item : WorkItem) : Prop :=
  ∀ k, ∀ intent ∈ item.learningIntents, ∃ r,
    (view (w.answers k)).load (intent.key sha256) = .ok (some r) ∧ isTerminal r.status = true

theorem nextIntent_none {lw : LearningWorld} {external : List String}
    {intents : List LearningIntent}
    (h : ∀ intent ∈ intents, ∃ r, lw.load (intent.key sha256) = .ok (some r) ∧
      isTerminal r.status = true) :
    LearningStage.nextIntent sha256 lw external intents = .ok none := by
  induction intents with
  | nil => rfl
  | cons intent rest ih =>
      have hrest := ih fun j hj => h j (List.mem_cons_of_mem _ hj)
      rw [LearningStage.nextIntent]
      split
      · exact hrest
      · obtain ⟨r, hload, hterminal⟩ := h intent List.mem_cons_self
        rw [hload]
        dsimp only
        rw [recordTerminal, if_pos hterminal]
        exact hrest

theorem wp_callMethod_ofOp {α : Type} {x : ω → ItemOp α} (hx : ∀ w, Writes (x w)) {w : ω}
    {Q : α → Coordinator → Prop} {E : PyError → Coordinator → Prop} :
    (callMethod (.ofOp x hx) w i).wp Q E s ↔
      (x w).wp (fun a item => Q a (s.setItem i item)) (fun e item => E e (s.setItem i item))
        (s.workItem i) := by
  unfold callMethod StageMethod.ofOp
  rw [wp_bind, wp_get, wp_bind, wp_set]
  unfold wp
  rw [exec_attempt]
  dsimp only
  rcases (x w).exec (s.workItem i) with ⟨e | a, item⟩
  · rfl
  · rfl

section LastTurn

variable {view : ω → LearningWorld} {w : World ω} {item : WorkItem}
  {Q : Unit → Coordinator → Prop}

theorem wp_learning_step (hhost : host.stages .learning = learningStage py sha256 view)
    {lw : ω} {Q : StepResult → Coordinator → Prop} {E : PyError → Coordinator → Prop} :
    (host.step .learning lw i).wp Q E s ↔
      (LearningStage.step py sha256 (view lw)).wp (fun a item => Q a (s.setItem i item))
        (fun e item => E e (s.setItem i item)) (s.workItem i) := by
  unfold Host.step
  rw [if_neg (by decide), hhost]
  exact wp_callMethod_ofOp fun lw => LearningStage.step_writes py sha256 (view lw)

/-- From `CLAIM` the stage sends the item on. -/
theorem stepLoop_claim (hhost : host.stages .learning = learningStage py sha256 view)
    (hd : OnDetour primary (s.workItem i)) (hclaim : (s.workItem i).state = "CLAIM")
    (hterm : AllTerminal sha256 view w (s.workItem i)) {fuel k : Nat}
    (hQ : (route host w i (LearningStage.resumeOutcome (some primary))).wp Q
      (fun _ _ => False) s) :
    (stepLoop host .learning w i (fuel + 1) k).wp Q (fun _ _ => False) s := by
  rw [stepLoop, wp_bind, wp_learning_step hhost]
  unfold LearningStage.step
  rw [wp_bind, wp_get, if_neg (by rw [hclaim]; decide), if_neg (by rw [hclaim]; decide),
    nextIntent_none (hterm k), wp_bind]
  show Command.wp (route host w i (LearningStage.resumeOutcome _)) Q _ (s.setItem i _)
  rw [hd.resume, setItem_workItem]
  exact hQ

/-- From any of its states the stage gets to `CLAIM`. -/
theorem stepLoop_detour (hhost : host.stages .learning = learningStage py sha256 view)
    (hd : OnDetour primary (s.workItem i))
    (hterm : AllTerminal sha256 view w (s.workItem i)) {fuel k : Nat}
    (hQ : ∀ item, OnDetour primary item → Preserves (s.workItem i) item →
      (route host w i (LearningStage.resumeOutcome (some primary))).wp Q
        (fun _ _ => False) (s.setItem i item)) :
    (stepLoop host .learning w i (fuel + 2) k).wp Q (fun _ _ => False) s := by
  by_cases hclaim : (s.workItem i).state = "CLAIM"
  · refine stepLoop_claim hhost hd hclaim hterm ?_
    have hroute := hQ _ hd (.refl _)
    rwa [setItem_workItem] at hroute
  · have hother : (s.workItem i).state = "ENTER" ∨ (s.workItem i).state = "RESULT" := by
      rcases hd.state with h | h | h
      · exact .inl h
      · exact absurd h hclaim
      · exact .inr h
    have hnext : OnDetour primary { s.workItem i with state := "CLAIM" } :=
      hd.setState (.inr (.inl rfl))
    rw [stepLoop, wp_bind, wp_learning_step hhost]
    unfold LearningStage.step
    rw [wp_bind, wp_get, if_pos hother, wp_pure, setItem_workItem]
    dsimp only
    rw [wp_bind, wp_editItem, wp_bind, wp_get]
    have hsource : ¬ ((s.setItem i { s.workItem i with state := "CLAIM" }).workItem i).sourceReady
        = true := by
      rw [setItem_workItem_self]
      simp [WorkItem.sourceReady]
    rw [if_neg hsource]
    refine stepLoop_claim hhost (by rw [setItem_workItem_self]; exact hnext)
      (by rw [setItem_workItem_self]) (by rw [setItem_workItem_self]; exact hterm) ?_
    exact hQ _ hnext (.setState _ _)

/-- The stage has nothing to write on entry either. -/
theorem wp_learning_onEnter (hhost : host.stages .learning = learningStage py sha256 view)
    (hd : OnDetour primary (s.workItem i)) {k : Nat}
    (hterm : AllTerminal sha256 view w (s.workItem i))
    {Q : Option StageOutcome → Coordinator → Prop} {E : PyError → Coordinator → Prop} :
    (host.onEnter .learning (w.answers k) i).wp Q E s ↔ Q none s := by
  have hloop : ∀ intents : List LearningIntent, (∀ intent ∈ intents, intent ∈ (s.workItem i).learningIntents) →
      ∀ {Q : PUnit → WorkItem → Prop} {E : PyError → WorkItem → Prop},
      (intents.forM (LearningStage.enterIntent sha256 (view (w.answers k)))).wp Q E
        (s.workItem i) ↔ Q ⟨⟩ (s.workItem i) := by
    intro intents
    induction intents with
    | nil => exact fun _ => Iff.rfl
    | cons intent rest ih =>
        intro hmem Q E
        obtain ⟨r, hload, hterminal⟩ := hterm k intent (hmem intent List.mem_cons_self)
        rw [List.forM, wp_bind, LearningStage.enterIntent, wp_bind, hload]
        show Command.wp (if recordTerminal (some r) then _ else _) _ _ _ ↔ _
        rw [recordTerminal, if_pos hterminal, wp_pure]
        exact ih fun j hj => hmem j (List.mem_cons_of_mem _ hj)
  have hstate : ¬ (s.workItem i).state = "" := by
    intro hempty
    have hstate := hd.state
    rw [hempty] at hstate
    exact absurd hstate (by decide)
  unfold Host.onEnter
  rw [if_neg (by decide), hhost]
  refine (wp_callMethod_ofOp fun lw =>
    LearningStage.onEnter_writes sha256 (view lw)).trans ?_
  unfold LearningStage.onEnter
  rw [wp_bind, wp_get, wp_bind, hloop _ (fun _ h => h), wp_bind, wp_modify, if_neg hstate, wp_pure,
    setItem_workItem]

/-- One run of an item whose intents are all terminal sends it on. -/
theorem runItem_detour (hhost : host.stages .learning = learningStage py sha256 view)
    (hd : OnDetour primary (s.workItem i))
    (hterm : AllTerminal sha256 view w (s.workItem i))
    (hQ : ∀ item, OnDetour primary item → Preserves (s.workItem i) item →
      (route host w i (LearningStage.resumeOutcome (some primary))).wp Q
        (fun _ _ => False) (s.setItem i item)) :
    (runItem host w i).wp Q (fun _ _ => False) s := by
  have hstage : s.stageOf i = .learning := hd.stage
  unfold runItem
  rw [wp_bind, wp_get, hstage, wp_tryCatch]
  refine wp_mono (E := fun _ _ => False) ?_ (fun _ _ h => h) fun _ _ h => h.elim
  unfold runItemBody
  rw [wp_bind, wp_get, wp_bind, wp_editItem]
  set item := (s.workItem i).popPayload enterPendingKey with hitem
  have hd' : OnDetour primary ((s.setItem i item).workItem i) := by
    rw [setItem_workItem_self]
    exact hd.popPayload (by decide)
  have hterm' : AllTerminal sha256 view w ((s.setItem i item).workItem i) := by
    rw [setItem_workItem_self]
    exact hterm
  have hloop : (stepLoop host .learning w i maxStepsPerTick 1).wp Q (fun _ _ => False)
      (s.setItem i item) := by
    refine stepLoop_detour hhost hd' hterm' fun item' hd'' hp => ?_
    rw [setItem_workItem_self] at hp
    rw [setItem_setItem]
    exact hQ item' hd'' ((Preserves.popPayload _ _ (by decide) (by decide)).trans hp)
  split
  · rw [wp_bind, wp_learning_onEnter hhost hd' hterm']
    exact hloop
  · exact hloop

end LastTurn

/-! ## Off the detour -/

/-- Where a stage's items go in this run: the stage, or the sink if the run
does not have it. -/
def runTarget (scope : Option PipelineScope) (st : StageName) : StageName :=
  match scope with
  | none => st
  | some scope => scope.restrict st

/-- The route out of `LEARNING`. -/
theorem runRoutes_learning (scope : Option PipelineScope) :
    ∃ r, runRoutes scope .learning = some r ∧ r.next = .finished ∧
      r.failTarget "resume_implementation" = runTarget scope .implementation ∧
      r.failTarget "resume_plan_review" = runTarget scope .planReview := by
  cases scope with
  | none => exact ⟨_, rfl, rfl, rfl, rfl⟩
  | some scope =>
      refine ⟨_, if_pos (by simp [PipelineScope.available]), ?_, rfl, rfl⟩
      simp [PipelineScope.restrict, PipelineScope.available, routes]

/-- The item is on its way to where it was going, and it has not passed
without getting there. -/
def Transparent (scope : Option PipelineScope) (primary : StageName) (i : ItemId)
    (t : Coordinator) : Prop :=
  t.headedFor i = runTarget scope primary ∧
    ∀ r, t.headedFor i = .finished → t.dueResult i = some r → r.passed = true →
      primary = .finished

section Routing

variable {w : World ω}

theorem wp_route_learning {outcome : StageOutcome} {Q : Unit → Coordinator → Prop}
    {E : PyError → Coordinator → Prop} (hstage : s.stageOf i = .learning) {r : Route}
    (hr : runRoutes host.config.scope .learning = some r) :
    (route host w i outcome).wp Q E s ↔
      (routeRow host w i outcome r).wp Q E (s.logRoute i outcome) := by
  unfold route
  rw [wp_bind, wp_get, wp_bind, wp_set, if_neg (by rw [hstage]; simp), hstage, hr]
  dsimp only
  rw [if_neg (by decide)]

/-- An advanced item goes to the sink, with the result it had or as
passed. -/
theorem Holds.advanced (h : Holds s i) (hstage : s.stageOf i = .learning) {note : String}
    {r : Route} (hr : runRoutes host.config.scope .learning = some r)
    (hnext : r.next = .finished) :
    (route host w i ⟨.advance, note⟩).wp (fun _ t => t.headedFor i = .finished ∧
      ((s.workItem i).postProcessing = none →
        ∃ result, t.dueResult i = some result ∧ result.passed = true))
      (fun _ _ => False) s := by
  rw [wp_route_learning hstage hr]
  have hlog := h.logRoute ⟨.advance, note⟩
  show Command.wp (routeAdvance host w i ⟨.advance, note⟩ r) _ _ _
  unfold routeAdvance
  rw [wp_bind, wp_get]
  dsimp only
  have hdetour : ¬ ((s.logRoute i ⟨.advance, note⟩).stageOf i = .planReview ∧
      ((s.logRoute i ⟨.advance, note⟩).workItem i).learningIntents ≠ []) := by
    intro hboth
    have hplan : s.stageOf i = .planReview := hboth.1
    rw [hstage] at hplan
    cases hplan
  rw [if_neg hdetour, if_pos hnext, wp_bind, wp_editItem]
  have hedit := hlog.edit (Preserves.popPayload _ learningPrimaryReasonKey (by decide) (by decide))
  set t := (s.logRoute i ⟨.advance, note⟩).setItem i
    (((s.logRoute i ⟨.advance, note⟩).workItem i).popPayload learningPrimaryReasonKey)
  have hstage' : t.stageOf i = .learning := by
    show ((Coordinator.setItem _ i _).workItem i).stage = .learning
    rw [setItem_workItem_self]
    exact hstage
  split
  · next record hrecord =>
      rw [wp_bind]
      refine wp_mono (hedit.handoffItem fun htarget => ?_) ?_ fun _ _ hf => hf
      · rw [hstage'] at htarget
        cases htarget
      · intro accepted u hu
        rw [wp_pure]
        refine ⟨hu.headedFor, fun hnone => ?_⟩
        rw [show (s.logRoute i ⟨.advance, note⟩).workItem i = s.workItem i from rfl, hnone]
          at hrecord
        cases hrecord
  · refine wp_mono (hedit.finish (by rw [hstage']; decide) (by rw [hstage']; decide)) ?_
      fun _ _ hf => hf
    intro _ u hu
    exact ⟨hu.headedFor, fun _ => ⟨_, hu.dueResult, rfl⟩⟩

/-- A fail-back goes to its target, or fails the item. -/
theorem Holds.failedBack (note : String) (h : Holds s i) (hstage : s.stageOf i = .learning)
    {r : Route} (hr : runRoutes host.config.scope .learning = some r)
    (hfresh : (s.workItem i).payload.get? failBacksKey = none) :
    (route host w i ⟨.failBack, note⟩).wp (fun _ t =>
      t.headedFor i = (if host.config.dryRun then .finished else r.failTarget note) ∧
      (t.headedFor i = .finished → ∃ result, t.dueResult i = some result ∧
        result.passed = false)) (fun _ _ => False) s := by
  rw [wp_route_learning hstage hr]
  have hlog := h.logRoute ⟨.failBack, note⟩
  have hstageLog : (s.logRoute i ⟨.failBack, note⟩).stageOf i = .learning := hstage
  show Command.wp (routeFailBack host i ⟨.failBack, note⟩ r) _ _ _
  unfold routeFailBack
  split
  · next hdry =>
      refine wp_mono (hlog.finish (by rw [hstageLog]; decide) (by rw [hstageLog]; decide)) ?_
        fun _ _ hf => hf
      intro _ u hu
      exact ⟨hu.headedFor, fun _ => ⟨_, hu.dueResult, rfl⟩⟩
  · have hcount : ((s.logRoute i ⟨.failBack, note⟩).workItem i).failBacks = 0 := by
      show WorkItem.failBacks (s.workItem i) = 0
      unfold WorkItem.failBacks
      rw [hfresh]
    rw [wp_bind, wp_get]
    dsimp only
    rw [hcount, wp_bind, wp_editItem, if_neg (by decide)]
    have hedit := hlog.edit (Preserves.setPayload _ failBacksKey (.int (0 + 1)) (by decide)
      (by decide))
    set t := (s.logRoute i ⟨.failBack, note⟩).setItem i
      (((s.logRoute i ⟨.failBack, note⟩).workItem i).setPayload failBacksKey (.int (0 + 1)))
    have hstage' : t.stageOf i = .learning := by
      show ((Coordinator.setItem _ i _).workItem i).stage = .learning
      rw [setItem_workItem_self]
      exact hstage
    split
    · next hfin =>
        rw [hfin]
        refine wp_mono (hedit.finish (by rw [hstage']; decide) (by rw [hstage']; decide)) ?_
          fun _ _ hf => hf
        intro _ u hu
        exact ⟨hu.headedFor, fun _ => ⟨_, hu.dueResult, rfl⟩⟩
    · next target _ hworking =>
        rw [wp_bind]
        refine wp_mono (hedit.handoffItem fun _ => rfl) ?_ fun _ _ hf => hf
        intro accepted u hu
        rw [wp_pure]
        refine ⟨hu.headedFor, fun hfin => ?_⟩
        rw [hu.headedFor] at hfin
        exact absurd hfin hworking

/-- Where the two stages the detour can name come out. -/
theorem Holds.resumed (h : Holds s i) (hd : OnDetour primary (s.workItem i))
    (hname : primary = .planReview ∨ primary = .implementation) :
    (route host w i (LearningStage.resumeOutcome (some primary))).wp (fun _ t =>
      t.headedFor i =
        (if host.config.dryRun then .finished else runTarget host.config.scope primary) ∧
      (t.headedFor i = .finished → ∃ result, t.dueResult i = some result ∧
        result.passed = false)) (fun _ _ => False) s := by
  obtain ⟨r, hr, _, himpl, hplan⟩ := runRoutes_learning host.config.scope
  rcases hname with rfl | rfl
  · have hback := h.failedBack (w := w) "resume_plan_review" hd.stage hr
      (hd.failBacks (by decide))
    rw [hplan] at hback
    exact hback
  · have hback := h.failedBack (w := w) "resume_implementation" hd.stage hr
      (hd.failBacks (by decide))
    rw [himpl] at hback
    exact hback

end Routing

/-- A learning detour is transparent just for an item that had finished, and
for one on its way to plan review or implementation; the last two not in a
dry run, unless the run does not have their stage. -/
theorem learning_detour_iff {config : PipelineConfig} {journal : Option RecoveryJournal}
    {reason : String} {seed diverted : WorkItem} {view : ω → LearningWorld} {w : World ω}
    {tr : List (Transition Coordinator (CoordinatorEvent ω))}
    (hrun : Run (Coordinator.step host) (.initial host.config) tr s) (hand : s.InHand i)
    (hhost : host.stages .learning = learningStage py sha256 view)
    (hseed : Seeded primary seed) (hne : primary ≠ .learning)
    (hrestore : restoreLearningIntents config py sha256 journal (some primary) reason seed =
      .ok diverted) (hdiverted : diverted.stage = .learning)
    (hwrites : Relation.ReflTransGen (DetourWrite py sha256) (diverted.pushed .learning)
      (s.workItem i))
    (hterm : AllTerminal sha256 view w (s.workItem i)) :
    (runItem host w i).wp (fun _ t => Transparent host.config.scope primary i t)
        (fun _ _ => False) s ↔
      primary = .finished ∨ ((primary = .planReview ∨ primary = .implementation) ∧
        (host.config.dryRun = false ∨ runTarget host.config.scope primary = .finished)) := by
  obtain ⟨hresume, hrest⟩ := restoreLearningIntents_resume hseed hne hrestore hdiverted
  have hd : OnDetour primary (s.workItem i) := (OnDetour.pushed hresume hrest).run hwrites
  have hholds : Holds s i := ⟨(run_sound hrun).owned, hand⟩
  by_cases hname : primary = .planReview ∨ primary = .implementation
  · have hends : (runItem host w i).wp (fun _ t =>
        t.headedFor i =
          (if host.config.dryRun then .finished else runTarget host.config.scope primary) ∧
        (t.headedFor i = .finished → ∃ result, t.dueResult i = some result ∧
          result.passed = false)) (fun _ _ => False) s :=
      runItem_detour hhost hd hterm fun item hitem hp =>
        (hholds.edit hp).resumed (by rw [setItem_workItem_self]; exact hitem) hname
    have hfin : primary ≠ .finished := by
      rcases hname with rfl | rfl
      · decide
      · decide
    constructor
    · intro htrans
      refine .inr ⟨hname, ?_⟩
      by_contra hno
      rw [not_or, Bool.not_eq_false] at hno
      refine not_wp_false (wp_mono (wp_and hends htrans) ?_ fun _ _ hf => hf.1)
      rintro _ t ⟨⟨hheaded, _⟩, htarget, _⟩
      rw [if_pos hno.1] at hheaded
      exact hno.2 (htarget.symm.trans hheaded)
    · rintro (heq | ⟨_, hrunning⟩)
      · exact absurd heq hfin
      · refine wp_mono hends ?_ fun _ _ hf => hf
        rintro _ t ⟨hheaded, hfailed⟩
        refine ⟨?_, fun r hsink hr hpassed => ?_⟩
        · rw [hheaded]
          split
          · next hdry =>
              rcases hrunning with hwet | hout
              · rw [hwet] at hdry
                cases hdry
              · exact hout.symm
          · rfl
        · obtain ⟨result, hresult, hnot⟩ := hfailed hsink
          rw [hr] at hresult
          obtain rfl := Option.some.inj hresult
          rw [hpassed] at hnot
          cases hnot
  · have hadvance : LearningStage.resumeOutcome (some primary) =
        ⟨.advance, "learning terminal"⟩ := by
      unfold LearningStage.resumeOutcome
      rw [if_neg fun h => hname (.inr (Option.some.inj h)),
        if_neg fun h => hname (.inl (Option.some.inj h))]
    obtain ⟨r, hr, hnext, _, _⟩ := runRoutes_learning host.config.scope
    have hends : (runItem host w i).wp (fun _ t => t.headedFor i = .finished ∧
        (primary ≠ .finished → ∃ result, t.dueResult i = some result ∧ result.passed = true))
        (fun _ _ => False) s := by
      refine runItem_detour hhost hd hterm fun item hitem hp => ?_
      rw [hadvance]
      have hself : (s.setItem i item).workItem i = item := setItem_workItem_self item
      refine wp_mono ((hholds.edit hp).advanced (by rw [Coordinator.stageOf, hself]; exact hitem.stage)
        hr hnext) ?_ fun _ _ hf => hf
      rintro _ t ⟨hheaded, hpassed⟩
      refine ⟨hheaded, fun hfin => hpassed ?_⟩
      rw [hself]
      exact hitem.postProcessing hfin
    constructor
    · intro htrans
      by_contra hno
      have hfin : primary ≠ .finished := fun heq => hno (.inl heq)
      refine not_wp_false (wp_mono (wp_and hends htrans) ?_ fun _ _ hf => hf.1)
      rintro _ t ⟨⟨hheaded, hpassed⟩, _, honly⟩
      obtain ⟨result, hresult, hpass⟩ := hpassed hfin
      exact hfin (honly result hheaded hresult hpass)
    · rintro (rfl | ⟨hplan, _⟩)
      · refine wp_mono hends ?_ fun _ _ hf => hf
        rintro _ t ⟨hheaded, _⟩
        refine ⟨?_, fun _ _ _ _ => rfl⟩
        rw [hheaded]
        unfold runTarget
        split
        · rfl
        · simp [PipelineScope.restrict, PipelineScope.available]
      · exact absurd hplan hname

/-! ### Two detours -/

/-- The conversions of the plain values in a journal record. -/
def plainText : PyText where
  str := fun v => (v.asStr?).getD ""
  int := fun v => match v.asInt? with
    | some n => .ok n
    | none => .error ⟨.typeError, ""⟩
  strip := id
  payload := fun v => .str ((v.asStr?).getD "")

/-- A delivered intent, whatever is asked of the journal. -/
def deliveredView : LearningWorld where
  org := "org"
  load := fun key => .ok (some
    { key, kind := "post_merge", status := .succeeded, attempts := 1, createdAt := ""
      updatedAt := "" })
  reload := fun _ => .ok none
  ensurePending := fun _ => .error (runtimeError "")
  claimIsActive := fun _ => .ok false
  failAbandonedClaim := fun _ => .ok none
  claim := fun _ => .ok false
  finish := fun _ => .ok ()
  retry := fun _ => .ok ()
  defer := fun _ => .ok ()
  workspace := none
  learnBudget := 2
  delivered := fun _ => true

def learningHost : Host Unit :=
  { stillHost with
    stages := fun st =>
      if st = .learning then learningStage plainText id (fun _ => deliveredView)
      else stillHost.stages st }

def seedIntent : LearningIntent :=
  { kind := .postMerge, repo := "hephaestus", issue := 7, pr := some 12 }

/-- The journal has the intent as pending when the item is seeded. -/
def pendingJournal : RecoveryJournal where
  incompleteForIssue := fun _ _ =>
    [[("key", .str (seedIntent.key id)), ("kind", .str "post_merge"),
      ("repo", .str "hephaestus"), ("issue", .int 7), ("pr", .int 12),
      ("status", .str "pending")]]
  disable := fun _ => .ok ()

def seedItem (primary : StageName) : WorkItem :=
  { repo := "hephaestus", kind := .issue, issue := some 7, pr := some 12, stage := primary }

def divertedItem (primary : StageName) : WorkItem :=
  { seedItem primary with
    stage := .learning, learningIntents := [seedIntent], learningResumeStage := some primary }

/-- The diverted item is pushed and claimed. -/
def detourRun (primary : StageName) : List (CoordinatorEvent Unit) :=
  [.push ⟨divertedItem primary, fun key hkey => by
      rcases List.mem_cons.mp hkey with rfl | hkey
      · rfl
      · rcases List.mem_cons.mp hkey with rfl | hkey
        · rfl
        · obtain rfl := List.mem_singleton.mp hkey
          rfl, fun h => by cases h⟩ false,
    .claim .learning 0]

theorem seedItem_seeded (primary : StageName) : Seeded primary (seedItem primary) :=
  ⟨rfl, rfl, rfl⟩

theorem deliveredView_allTerminal (w : World Unit) (item : WorkItem) :
    AllTerminal id (fun _ : Unit => deliveredView) w item :=
  fun _ _ _ => ⟨_, rfl, rfl⟩

/-- An item that only had to wait for its merge is finished as passed by the
detour. -/
theorem detour_skips_merge_wait :
    ¬ ∀ (primary : StageName) (seed diverted : WorkItem) (journal : Option RecoveryJournal)
      (reason : String) (tr : List (Transition Coordinator (CoordinatorEvent Unit)))
      (s : Coordinator) (i : ItemId) (w : World Unit),
      primary ∈ [.planning, .planReview, .implementation, .prReview, .mergeWait, .finished] →
      Run (Coordinator.step learningHost) (.initial learningHost.config) tr s → s.InHand i →
      Seeded primary seed →
      restoreLearningIntents learningHost.config plainText id journal (some primary) reason seed =
        .ok diverted → diverted.stage = .learning →
      Relation.ReflTransGen (DetourWrite plainText id) (diverted.pushed .learning)
        (s.workItem i) →
      AllTerminal id (fun _ : Unit => deliveredView) w (s.workItem i) →
      (runItem learningHost w i).wp (fun _ t => Transparent learningHost.config.scope primary i t)
        (fun _ _ => False) s := by
  intro hclaim
  have hevents : (trace (Coordinator.step learningHost) (.initial learningHost.config)
      (detourRun .mergeWait)).any (fun y =>
        decide (y.2.workItem 0 = (divertedItem .mergeWait).pushed .learning) &&
        decide (y.2.InHand 0) &&
        decide (((runItem learningHost { answers := fun _ => () } 0).exec y.2).2.headedFor 0 =
          .finished) &&
        decide (((runItem learningHost { answers := fun _ => () } 0).exec y.2).2.dueResult 0 =
          some ⟨true, "learning terminal", .learning⟩)) = true := by
    decide
  obtain ⟨⟨tr, s⟩, htrace, hprops⟩ := (Option.any_eq_true _ _).mp hevents
  simp only [Bool.and_eq_true, decide_eq_true_eq] at hprops
  obtain ⟨⟨⟨hitem, hand⟩, hheaded⟩, hresult⟩ := hprops
  have htrans := hclaim .mergeWait (seedItem .mergeWait) (divertedItem .mergeWait)
    (some pendingJournal) "" tr s 0 { answers := fun _ => () } (by decide) (trace_run htrace) hand
    (seedItem_seeded _) (by decide) rfl (hitem ▸ .refl)
    (deliveredView_allTerminal _ _)
  have hlast := wp_state (wp_mono htrans (fun _ _ h => h) fun _ _ hf => hf.elim)
  cases hlast.2 _ hheaded hresult rfl

/-- An item on its way to implementation gets there. -/
theorem learning_detour_implementation :
    ∃ tr s, Run (Coordinator.step learningHost) (.initial learningHost.config) tr s ∧
      s.stageOf 0 = .learning ∧
      (runItem learningHost { answers := fun _ => () } 0).wp
        (fun _ t => Transparent learningHost.config.scope .implementation 0 t)
        (fun _ _ => False) s := by
  have hevents : (trace (Coordinator.step learningHost) (.initial learningHost.config)
      (detourRun .implementation)).any (fun y =>
        decide (y.2.workItem 0 = (divertedItem .implementation).pushed .learning) &&
        decide (y.2.InHand 0)) = true := by
    decide
  obtain ⟨⟨tr, s⟩, htrace, hprops⟩ := (Option.any_eq_true _ _).mp hevents
  simp only [Bool.and_eq_true, decide_eq_true_eq] at hprops
  obtain ⟨hitem, hand⟩ := hprops
  have hrun := trace_run htrace
  have hrestore : restoreLearningIntents learningHost.config plainText id (some pendingJournal)
      (some .implementation) "" (seedItem .implementation) =
        .ok (divertedItem .implementation) := by
    decide
  have hwrites : Relation.ReflTransGen (DetourWrite plainText id)
      ((divertedItem .implementation).pushed .learning) (s.workItem 0) := hitem ▸ .refl
  refine ⟨tr, s, hrun, ?_, ?_⟩
  · rw [Coordinator.stageOf, hitem]
    decide
  · exact (learning_detour_iff hrun hand rfl (seedItem_seeded _) (by decide) hrestore rfl hwrites
      (deliveredView_allTerminal _ _)).mpr (.inr ⟨.inr rfl, .inl rfl⟩)

end Hephaestus.Pipeline
