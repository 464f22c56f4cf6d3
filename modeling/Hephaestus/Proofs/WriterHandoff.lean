import Mathlib.Logic.Relation
import Hephaestus.Automation.WriterHandoff

/-!
# What a writer handoff keeps apart

A call is made of five kinds of moves: a callback gets the digest of the transition at
hand, a transition is armed, consumed, committed, or the context ends. Every guard of a
method is about the slot it writes, and arming looks only whether another transition is
armed. So the moves keep the transitions apart as long as none is armed while a
consumed one waits for its commit; that is the one thing a run is asked for here.
-/

namespace Hephaestus.Automation

open Hephaestus.Lib

variable {P C : Type}

namespace WriterHandoff

/-- The callback of the three that a use is for. -/
def CallbackUse.pick (use : CallbackUse) (journalValidator phaseWriter commitWriter : C) : C :=
  match use with
  | .validate => journalValidator
  | .phase _ => phaseWriter
  | .commit => commitWriter

/-- The slot of a use. -/
def slot (h : WriterHandoff P C) : CallbackUse → Option C
  | .validate => h.journalValidator
  | .phase _ => h.phaseWriter
  | .commit => h.commitWriter

/-- The transition at hand. -/
def current (h : WriterHandoff P C) : Option (WriterTransitionEvidence P) :=
  h.directTransition.or h.consumedDirectTransition

/-- What a call is made of. -/
inductive Move : WriterHandoff P C → WriterHandoff P C → Prop
  | invoke {h : WriterHandoff P C} (use : CallbackUse) (callback : C)
      (evidence : WriterTransitionEvidence P)
      (held : h.directTransition = some evidence ∨ h.consumedDirectTransition = some evidence)
      (hslot : h.slot use = some callback) :
      Move h (h.record (.invoked use callback evidence.journalDigest))
  | arm {h : WriterHandoff P C} (evidence : WriterTransitionEvidence P)
      (journalValidator phaseWriter commitWriter : C) (id : evidence.id = h.made)
      (active : h.active = true) (idle : h.directTransition = none)
      (settled : h.consumedDirectTransition = none) :
      Move h { h with
        directTransition := some evidence
        journalValidator := some journalValidator
        phaseWriter := some phaseWriter
        commitWriter := some commitWriter
        made := h.made + 1
        log := h.log ++ [.armed evidence journalValidator phaseWriter commitWriter] }
  | consume {h : WriterHandoff P C} (evidence : WriterTransitionEvidence P)
      (held : h.directTransition = some evidence) :
      Move h ({ h with
        directTransition := none
        consumedDirectTransition := some evidence }.record (.consumed evidence))
  | commit {h : WriterHandoff P C} (evidence : WriterTransitionEvidence P)
      (held : h.current = some evidence) :
      Move h ({ h with
        directTransition := none
        consumedDirectTransition := none
        journalValidator := none
        phaseWriter := none
        commitWriter := none }.record (.committed evidence))
  | leave (h : WriterHandoff P C) : Move h h.leave

/-- No transition is armed while a consumed one waits for its commit. -/
def ArmsSettled (h : WriterHandoff P C) : HandoffCall P C → Prop
  | .arm _ => h.consumedDirectTransition = none
  | _ => True

instance (h : WriterHandoff P C) (call : HandoffCall P C) : Decidable (ArmsSettled h call) :=
  match call with
  | .arm _ => inferInstanceAs (Decidable (h.consumedDirectTransition = none))
  | .validate _ _ => .isTrue trivial
  | .consume _ _ => .isTrue trivial
  | .mark _ _ => .isTrue trivial
  | .complete _ => .isTrue trivial
  | .validateConsumed _ _ => .isTrue trivial
  | .leave => .isTrue trivial

variable {h : WriterHandoff P C}

open Relation

theorem current_cases {evidence : WriterTransitionEvidence P} (hcurrent : h.current = some evidence) :
    h.directTransition = some evidence ∨ h.consumedDirectTransition = some evidence := by
  unfold current at hcurrent
  cases hdirect : h.directTransition with
  | none =>
      rw [hdirect] at hcurrent
      exact .inr hcurrent
  | some e =>
      rw [hdirect] at hcurrent
      exact .inl hcurrent

theorem arm_moves (a : ArmArguments P C) (hsettled : h.consumedDirectTransition = none) :
    ReflTransGen Move h (h.armWriterTransition a).2 := by
  unfold armWriterTransition
  split
  · exact .refl
  · next hguard =>
    rw [not_or, Bool.not_eq_false, Bool.not_eq_true, Option.isSome_eq_false_iff,
      Option.isNone_iff_eq_none] at hguard
    split
    · exact .refl
    · exact .single (.arm _ _ _ _ rfl hguard.1 hguard.2 hsettled)

theorem mark_moves (phase : String) (outcomes : CallbackOutcomes) :
    ReflTransGen Move h (h.markTransitionPhase phase outcomes).2 := by
  unfold markTransitionPhase
  split
  · next evidence _ hcurrent =>
    split
    · exact .refl
    · next writer hwriter =>
      exact .single (.invoke (.phase phase) writer evidence (current_cases hcurrent) hwriter)
  · exact .refl

theorem complete_moves (outcomes : CallbackOutcomes) :
    ReflTransGen Move h (h.completeWriterTransition outcomes).2 := by
  unfold completeWriterTransition
  split
  · exact .refl
  · split
    · exact .refl
    · next writer hwriter =>
      split
      · exact .refl
      · next evidence hcurrent =>
        have hcommit : ReflTransGen Move h (h.record (.invoked .commit writer evidence.journalDigest)) :=
          .single (.invoke .commit writer evidence (current_cases hcurrent) hwriter)
        dsimp only
        split
        · exact hcommit
        · exact hcommit.tail (.commit evidence hcurrent)

section Calls

variable [DecidableEq P]

theorem validate_moves (a : TransitionArguments P) (outcomes : CallbackOutcomes) :
    ReflTransGen Move h (h.validateWriterTransition a outcomes).2 := by
  unfold validateWriterTransition
  split
  · next evidence _ hdirect =>
    split
    · exact .refl
    · split
      · exact .refl
      · split
        · exact .refl
        · next validator hvalidator =>
          exact .single (.invoke .validate validator evidence (.inl hdirect) hvalidator)
  · exact .refl

theorem consume_moves (a : TransitionArguments P) (outcomes : CallbackOutcomes) :
    ReflTransGen Move h (h.consumeWriterTransition a outcomes).2 := by
  have hvalidate := validate_moves (h := h) a outcomes
  unfold consumeWriterTransition
  split
  · next e t ht =>
    rw [ht] at hvalidate
    exact hvalidate
  · next t ht =>
    rw [ht] at hvalidate
    split
    · exact hvalidate
    · exact hvalidate
    · next writer evidence hwriter hdirect =>
      have hphase := hvalidate.tail
        (.invoke (.phase "predecessor_removing") writer evidence (.inl hdirect) hwriter)
      split
      · exact hphase
      · exact hphase.tail (.consume evidence hdirect)

theorem validateConsumed_moves (a : ConsumedArguments P) (outcomes : CallbackOutcomes) :
    ReflTransGen Move h (h.validateConsumedWriterTransition a outcomes).2 := by
  unfold validateConsumedWriterTransition
  split
  · next expected _ hconsumed =>
    split
    · exact .refl
    · split
      · exact .refl
      · split
        · exact .refl
        · split
          · exact .refl
          · next validator hvalidator =>
            exact .single (.invoke .validate validator expected (.inr hconsumed) hvalidator)
  · exact .refl

/-- A call is made of moves. -/
theorem exec_moves (call : HandoffCall P C) (hsettled : ArmsSettled h call) :
    ReflTransGen Move h (call.exec h).2 := by
  cases call with
  | arm a => exact arm_moves a hsettled
  | validate a outcomes => exact validate_moves a outcomes
  | consume a outcomes => exact consume_moves a outcomes
  | mark phase outcomes => exact mark_moves phase outcomes
  | complete outcomes => exact complete_moves outcomes
  | validateConsumed a outcomes => exact validateConsumed_moves a outcomes
  | leave => exact .single (.leave h)

end Calls

/-! ## The log -/

/-- Which evidence object was armed. -/
def armedId : HandoffEvent P C → Option Nat
  | .armed evidence _ _ _ => some evidence.id
  | _ => none

/-- Which evidence object was consumed. -/
def consumedId : HandoffEvent P C → Option Nat
  | .consumed evidence => some evidence.id
  | _ => none

/-- Which evidence object was committed. -/
def committedId : HandoffEvent P C → Option Nat
  | .committed evidence => some evidence.id
  | _ => none

/-- The arguments that fit a consumed transition. -/
def ownArguments (evidence : WriterTransitionEvidence P) : ConsumedArguments P where
  evidence := some evidence.id
  path := some evidence.path
  predecessorGeneration := evidence.predecessorGeneration
  predecessorRevision := evidence.predecessorRevision
  predecessorDetached := evidence.predecessorDetached
  predecessorBranch := evidence.predecessorBranch
  branch := evidence.branch
  successorRevision := some evidence.successorRevision
  transition := evidence.transition
  journalDigest := some evidence.journalDigest

/-- What a handoff promises about its log. -/
structure Sound [DecidableEq P] (h : WriterHandoff P C) : Prop where
  /-- A callback gets the digest it was armed with. -/
  paired : ∀ before use callback digest after,
    h.log = before ++ .invoked use callback digest :: after →
      ∃ evidence v p w, .armed evidence v p w ∈ before ∧ evidence.journalDigest = digest ∧
        CallbackUse.pick use v p w = callback
  armedOnce : (h.log.filterMap armedId).Nodup
  wasArmed : ∀ evidence, .consumed evidence ∈ h.log ∨ .committed evidence ∈ h.log →
    ∃ v p w, .armed evidence v p w ∈ h.log
  consumedOnce : (h.log.filterMap consumedId).Nodup
  committedOnce : (h.log.filterMap committedId).Nodup
  /-- A commit concerns the transition that was consumed, if one was. -/
  commits : ∀ before committed after, h.log = before ++ .committed committed :: after →
    ∀ consumed, .consumed consumed ∈ before → .committed consumed ∉ before → consumed = committed
  /-- Consumed evidence is good until it is committed or the context ends. -/
  stays : h.active = true → ∀ evidence, .consumed evidence ∈ h.log → .committed evidence ∉ h.log →
    ∃ v p w, .armed evidence v p w ∈ h.log ∧ ∀ outcomes,
      h.validateConsumedWriterTransition (ownArguments evidence) outcomes =
        (if outcomes.validator then .error .raised else .ok (),
          h.record (.invoked .validate v evidence.journalDigest))

/-- What the moves keep. -/
structure Invariant (h : WriterHandoff P C) : Prop where
  fresh : ∀ e v p w, .armed e v p w ∈ h.log → e.id < h.made
  same : ∀ e v p w e' v' p' w', .armed e v p w ∈ h.log → .armed e' v' p' w' ∈ h.log →
    e.id = e'.id → e = e'
  armedOnce : (h.log.filterMap armedId).Nodup
  slots : ∀ e, h.directTransition = some e ∨ h.consumedDirectTransition = some e →
    ∃ v p w, .armed e v p w ∈ h.log ∧ h.journalValidator = some v ∧ h.phaseWriter = some p ∧
      h.commitWriter = some w
  apart : h.directTransition = none ∨ h.consumedDirectTransition = none
  new : ∀ e, h.directTransition = some e → .consumed e ∉ h.log ∧ .committed e ∉ h.log
  uncommitted : ∀ e, h.consumedDirectTransition = some e → .committed e ∉ h.log
  ended : h.active = false → h.directTransition = none ∧ h.consumedDirectTransition = none
  waiting : h.active = true → ∀ e, .consumed e ∈ h.log → .committed e ∉ h.log →
    h.consumedDirectTransition = some e
  wasArmed : ∀ e, .consumed e ∈ h.log ∨ .committed e ∈ h.log → ∃ v p w, .armed e v p w ∈ h.log
  paired : ∀ before use callback digest after,
    h.log = before ++ .invoked use callback digest :: after →
      ∃ evidence v p w, .armed evidence v p w ∈ before ∧ evidence.journalDigest = digest ∧
        CallbackUse.pick use v p w = callback
  consumedOnce : (h.log.filterMap consumedId).Nodup
  committedOnce : (h.log.filterMap committedId).Nodup
  commits : ∀ before committed after, h.log = before ++ .committed committed :: after →
    ∀ consumed, .consumed consumed ∈ before → .committed consumed ∉ before → consumed = committed

theorem append_split {α : Type} {log before after : List α} {last x : α}
    (h : log ++ [last] = before ++ x :: after) :
    before = log ∧ x = last ∨ ∃ after', log = before ++ x :: after' := by
  rcases List.eq_nil_or_concat after with rfl | ⟨after', y, rfl⟩
  · obtain ⟨hlog, hx⟩ := List.append_inj' h rfl
    exact .inl ⟨hlog.symm, (List.singleton_inj.mp hx).symm⟩
  · rw [List.concat_eq_append, ← List.cons_append, ← List.append_assoc] at h
    exact .inr ⟨after', (List.append_inj' h rfl).1⟩

theorem issued_invariant : Invariant (issued : WriterHandoff P C) where
  fresh e v p w h := by cases h
  same e v p w e' v' p' w' h := by cases h
  armedOnce := List.nodup_nil
  slots e h := by rcases h with h | h <;> cases h
  apart := .inl rfl
  new e h := by cases h
  uncommitted e h := by cases h
  ended h := by cases h
  waiting _ e h := by cases h
  wasArmed e h := by rcases h with h | h <;> cases h
  paired before use callback digest after h := by
    have hlength := congrArg List.length h
    simp [issued] at hlength
  consumedOnce := List.nodup_nil
  committedOnce := List.nodup_nil
  commits before committed after h := by
    have hlength := congrArg List.length h
    simp [issued] at hlength

theorem Invariant.slot_pick (hinv : Invariant h) {e : WriterTransitionEvidence P}
    (held : h.directTransition = some e ∨ h.consumedDirectTransition = some e) {use : CallbackUse}
    {callback : C} (hslot : h.slot use = some callback) :
    ∃ v p w, .armed e v p w ∈ h.log ∧ CallbackUse.pick use v p w = callback := by
  obtain ⟨v, p, w, harmed, hv, hp, hw⟩ := hinv.slots e held
  refine ⟨v, p, w, harmed, ?_⟩
  cases use with
  | validate => exact Option.some.inj (hv.symm.trans hslot)
  | phase name => exact Option.some.inj (hp.symm.trans hslot)
  | commit => exact Option.some.inj (hw.symm.trans hslot)

/-- A callback that is invoked leaves everything but the log. -/
theorem Invariant.invoke (hinv : Invariant h) {use : CallbackUse} {callback : C}
    {e : WriterTransitionEvidence P}
    (held : h.directTransition = some e ∨ h.consumedDirectTransition = some e)
    (hslot : h.slot use = some callback) :
    Invariant (h.record (.invoked use callback e.journalDigest)) where
  fresh e' v p w hmem := hinv.fresh e' v p w (by simpa [record] using hmem)
  same e v p w e' v' p' w' hmem hmem' :=
    hinv.same e v p w e' v' p' w' (by simpa [record] using hmem) (by simpa [record] using hmem')
  armedOnce := by simpa [record, List.filterMap_cons, armedId] using hinv.armedOnce
  slots e' hheld := by
    obtain ⟨v, p, w, harmed, hslots⟩ := hinv.slots e' hheld
    exact ⟨v, p, w, List.mem_append_left _ harmed, hslots⟩
  apart := hinv.apart
  new e' hdirect := by simpa [record] using hinv.new e' hdirect
  uncommitted e' hconsumed := by simpa [record] using hinv.uncommitted e' hconsumed
  ended := hinv.ended
  waiting hactive e' hmem hnot :=
    hinv.waiting hactive e' (by simpa [record] using hmem) (by simpa [record] using hnot)
  wasArmed e' hmem := by
    obtain ⟨v, p, w, harmed⟩ := hinv.wasArmed e' (by simpa [record] using hmem)
    exact ⟨v, p, w, List.mem_append_left _ harmed⟩
  paired before use' callback' digest after hsplit := by
    rcases append_split hsplit with ⟨rfl, hlast⟩ | ⟨after', hlog⟩
    · obtain ⟨v, p, w, harmed, hpick⟩ := hinv.slot_pick held hslot
      cases hlast
      exact ⟨e, v, p, w, harmed, rfl, hpick⟩
    · exact hinv.paired before use' callback' digest after' hlog
  consumedOnce := by simpa [record, List.filterMap_cons, consumedId] using hinv.consumedOnce
  committedOnce := by simpa [record, List.filterMap_cons, committedId] using hinv.committedOnce
  commits before committed after hsplit := by
    rcases append_split hsplit with ⟨_, hlast⟩ | ⟨after', hlog⟩
    · cases hlast
    · exact hinv.commits before committed after' hlog

/-- A transition that is armed is new. -/
theorem Invariant.arm (hinv : Invariant h) {e : WriterTransitionEvidence P} {v p w : C}
    (hid : e.id = h.made) (hactive : h.active = true) (hsettled : h.consumedDirectTransition = none) :
    Invariant { h with
      directTransition := some e
      journalValidator := some v
      phaseWriter := some p
      commitWriter := some w
      made := h.made + 1
      log := h.log ++ [.armed e v p w] } where
  fresh e' v' p' w' hmem := by
    rcases List.mem_append.mp hmem with hold | hlast
    · have := hinv.fresh e' v' p' w' hold
      show e'.id < h.made + 1
      omega
    · cases List.mem_singleton.mp hlast
      show e.id < h.made + 1
      omega
  same e₁ v₁ p₁ w₁ e₂ v₂ p₂ w₂ h₁ h₂ hids := by
    rcases List.mem_append.mp h₁ with hold₁ | hlast₁
    · rcases List.mem_append.mp h₂ with hold₂ | hlast₂
      · exact hinv.same e₁ v₁ p₁ w₁ e₂ v₂ p₂ w₂ hold₁ hold₂ hids
      · cases List.mem_singleton.mp hlast₂
        have := hinv.fresh e₁ v₁ p₁ w₁ hold₁
        omega
    · cases List.mem_singleton.mp hlast₁
      rcases List.mem_append.mp h₂ with hold₂ | hlast₂
      · have := hinv.fresh e₂ v₂ p₂ w₂ hold₂
        omega
      · cases List.mem_singleton.mp hlast₂
        rfl
  armedOnce := by
    simp only [List.filterMap_append, List.filterMap_cons, List.filterMap_nil, armedId]
    rw [List.nodup_append]
    refine ⟨hinv.armedOnce, by simp, ?_⟩
    rintro id hid' id' hlast rfl
    rw [List.mem_singleton] at hlast
    obtain ⟨event, hevent, harmed⟩ := List.mem_filterMap.mp hid'
    unfold armedId at harmed
    split at harmed
    · next e' v' p' w' =>
      have := hinv.fresh e' v' p' w' hevent
      have := Option.some.inj harmed
      omega
    · cases harmed
  slots e' held := by
    rcases held with hdirect | hconsumed
    · obtain rfl := Option.some.inj hdirect
      exact ⟨v, p, w, List.mem_append_right _ List.mem_cons_self, rfl, rfl, rfl⟩
    · exact absurd (hsettled.symm.trans hconsumed) (by simp)
  apart := .inr hsettled
  new e' hdirect := by
    obtain rfl := Option.some.inj hdirect
    have hnot : ∀ v p w, HandoffEvent.armed e v p w ∉ h.log := fun v p w hmem => by
      have := hinv.fresh e v p w hmem
      omega
    refine ⟨fun hmem => ?_, fun hmem => ?_⟩
    · obtain ⟨v, p, w, harmed⟩ := hinv.wasArmed e (.inl (by simpa using hmem))
      exact hnot v p w harmed
    · obtain ⟨v, p, w, harmed⟩ := hinv.wasArmed e (.inr (by simpa using hmem))
      exact hnot v p w harmed
  uncommitted e' hconsumed := by simpa using hinv.uncommitted e' hconsumed
  ended hend := absurd (hactive.symm.trans hend) (by decide)
  waiting hact e' hmem hnot := hinv.waiting hact e' (by simpa using hmem) (by simpa using hnot)
  wasArmed e' hmem := by
    obtain ⟨v, p, w, harmed⟩ := hinv.wasArmed e' (by simpa using hmem)
    exact ⟨v, p, w, List.mem_append_left _ harmed⟩
  paired before use callback digest after hsplit := by
    rcases append_split hsplit with ⟨_, hlast⟩ | ⟨after', hlog⟩
    · cases hlast
    · exact hinv.paired before use callback digest after' hlog
  consumedOnce := by simpa [List.filterMap_cons, consumedId] using hinv.consumedOnce
  committedOnce := by simpa [List.filterMap_cons, committedId] using hinv.committedOnce
  commits before committed after hsplit := by
    rcases append_split hsplit with ⟨_, hlast⟩ | ⟨after', hlog⟩
    · cases hlast
    · exact hinv.commits before committed after' hlog

/-- What was consumed and waits for its commit is the transition at hand. -/
theorem Invariant.current_waiting (hinv : Invariant h) {e e' : WriterTransitionEvidence P}
    (held : h.current = some e) (hactive : h.active = true) (hconsumed : .consumed e' ∈ h.log)
    (hnot : .committed e' ∉ h.log) : e' = e := by
  have hwaits := hinv.waiting hactive e' hconsumed hnot
  rcases hinv.apart with hdirect | hnone
  · unfold current at held
    rw [hdirect, hwaits] at held
    exact Option.some.inj held
  · rw [hwaits] at hnone
    cases hnone

/-- The id of an event of the log that names a transition. -/
theorem mem_consumedIds {id : Nat} (hid : id ∈ h.log.filterMap consumedId) :
    ∃ e, .consumed e ∈ h.log ∧ e.id = id := by
  obtain ⟨event, hevent, hsome⟩ := List.mem_filterMap.mp hid
  unfold consumedId at hsome
  split at hsome
  · next e => exact ⟨e, hevent, Option.some.inj hsome⟩
  · cases hsome

theorem mem_committedIds {id : Nat} (hid : id ∈ h.log.filterMap committedId) :
    ∃ e, .committed e ∈ h.log ∧ e.id = id := by
  obtain ⟨event, hevent, hsome⟩ := List.mem_filterMap.mp hid
  unfold committedId at hsome
  split at hsome
  · next e => exact ⟨e, hevent, Option.some.inj hsome⟩
  · cases hsome

/-- A transition that is consumed was armed and is consumed for the first time. -/
theorem Invariant.consume (hinv : Invariant h) {e : WriterTransitionEvidence P}
    (held : h.directTransition = some e) :
    Invariant ({ h with
      directTransition := none
      consumedDirectTransition := some e }.record (.consumed e)) where
  fresh e' v p w hmem := hinv.fresh e' v p w (by simpa [record] using hmem)
  same e v p w e' v' p' w' hmem hmem' :=
    hinv.same e v p w e' v' p' w' (by simpa [record] using hmem) (by simpa [record] using hmem')
  armedOnce := by simpa [record, List.filterMap_cons, armedId] using hinv.armedOnce
  slots e' hheld := by
    rcases hheld with hdirect | hconsumed
    · cases hdirect
    · obtain rfl := Option.some.inj hconsumed
      obtain ⟨v, p, w, harmed, hslots⟩ := hinv.slots e (.inl held)
      exact ⟨v, p, w, List.mem_append_left _ harmed, hslots⟩
  apart := .inl rfl
  new e' hdirect := by cases hdirect
  uncommitted e' hconsumed := by
    obtain rfl := Option.some.inj hconsumed
    simpa [record] using (hinv.new e held).2
  ended hend := by
    have hnone := (hinv.ended hend).1
    rw [held] at hnone
    cases hnone
  waiting hactive e' hmem hnot := by
    rcases List.mem_append.mp hmem with hold | hlast
    · have hwaits := hinv.waiting hactive e' hold (by simpa [record] using hnot)
      rcases hinv.apart with hdirect | hconsumed
      · rw [held] at hdirect
        cases hdirect
      · rw [hwaits] at hconsumed
        cases hconsumed
    · cases List.mem_singleton.mp hlast
      rfl
  wasArmed e' hmem := by
    have hold : ∃ v p w, .armed e' v p w ∈ h.log := by
      rcases hmem with hconsumed | hcommitted
      · rcases List.mem_append.mp hconsumed with hold | hlast
        · exact hinv.wasArmed e' (.inl hold)
        · cases List.mem_singleton.mp hlast
          obtain ⟨v, p, w, harmed, _⟩ := hinv.slots e (.inl held)
          exact ⟨v, p, w, harmed⟩
      · exact hinv.wasArmed e' (.inr (by simpa [record] using hcommitted))
    obtain ⟨v, p, w, harmed⟩ := hold
    exact ⟨v, p, w, List.mem_append_left _ harmed⟩
  paired before use callback digest after hsplit := by
    rcases append_split hsplit with ⟨_, hlast⟩ | ⟨after', hlog⟩
    · cases hlast
    · exact hinv.paired before use callback digest after' hlog
  consumedOnce := by
    simp only [record, List.filterMap_append, List.filterMap_cons, List.filterMap_nil, consumedId]
    rw [List.nodup_append]
    refine ⟨hinv.consumedOnce, by simp, ?_⟩
    rintro id hid id' hlast rfl
    rw [List.mem_singleton] at hlast
    obtain ⟨e', hconsumed, hsame⟩ := mem_consumedIds hid
    obtain ⟨v, p, w, harmed⟩ := hinv.wasArmed e' (.inl hconsumed)
    obtain ⟨v', p', w', harmed', _⟩ := hinv.slots e (.inl held)
    obtain rfl := hinv.same e' v p w e v' p' w' harmed harmed' (hsame.trans hlast)
    exact (hinv.new e' held).1 hconsumed
  committedOnce := by simpa [record, List.filterMap_cons, committedId] using hinv.committedOnce
  commits before committed after hsplit := by
    rcases append_split hsplit with ⟨_, hlast⟩ | ⟨after', hlog⟩
    · cases hlast
    · exact hinv.commits before committed after' hlog

/-- The transition that is committed is the one that was consumed, if one was. -/
theorem Invariant.commit (hinv : Invariant h) {e : WriterTransitionEvidence P}
    (held : h.current = some e) :
    Invariant ({ h with
      directTransition := none
      consumedDirectTransition := none
      journalValidator := none
      phaseWriter := none
      commitWriter := none }.record (.committed e)) where
  fresh e' v p w hmem := hinv.fresh e' v p w (by simpa [record] using hmem)
  same e v p w e' v' p' w' hmem hmem' :=
    hinv.same e v p w e' v' p' w' (by simpa [record] using hmem) (by simpa [record] using hmem')
  armedOnce := by simpa [record, List.filterMap_cons, armedId] using hinv.armedOnce
  slots e' hheld := by rcases hheld with hdirect | hconsumed <;> contradiction
  apart := .inl rfl
  new e' hdirect := by cases hdirect
  uncommitted e' hconsumed := by cases hconsumed
  ended _ := ⟨rfl, rfl⟩
  waiting hactive e' hmem hnot := by
    have hold : .consumed e' ∈ h.log := by simpa [record] using hmem
    have hnot' : .committed e' ∉ h.log ∧ e' ≠ e := by simpa [record] using hnot
    exact absurd (hinv.current_waiting held hactive hold hnot'.1) hnot'.2
  wasArmed e' hmem := by
    have hold : ∃ v p w, .armed e' v p w ∈ h.log := by
      rcases hmem with hconsumed | hcommitted
      · exact hinv.wasArmed e' (.inl (by simpa [record] using hconsumed))
      · rcases List.mem_append.mp hcommitted with hold | hlast
        · exact hinv.wasArmed e' (.inr hold)
        · cases List.mem_singleton.mp hlast
          obtain ⟨v, p, w, harmed, _⟩ := hinv.slots e (current_cases held)
          exact ⟨v, p, w, harmed⟩
    obtain ⟨v, p, w, harmed⟩ := hold
    exact ⟨v, p, w, List.mem_append_left _ harmed⟩
  paired before use callback digest after hsplit := by
    rcases append_split hsplit with ⟨_, hlast⟩ | ⟨after', hlog⟩
    · cases hlast
    · exact hinv.paired before use callback digest after' hlog
  consumedOnce := by simpa [record, List.filterMap_cons, consumedId] using hinv.consumedOnce
  committedOnce := by
    simp only [record, List.filterMap_append, List.filterMap_cons, List.filterMap_nil, committedId]
    rw [List.nodup_append]
    refine ⟨hinv.committedOnce, by simp, ?_⟩
    rintro id hid id' hlast rfl
    rw [List.mem_singleton] at hlast
    obtain ⟨e', hcommitted, hsame⟩ := mem_committedIds hid
    obtain ⟨v, p, w, harmed⟩ := hinv.wasArmed e' (.inr hcommitted)
    obtain ⟨v', p', w', harmed', _⟩ := hinv.slots e (current_cases held)
    obtain rfl := hinv.same e' v p w e v' p' w' harmed harmed' (hsame.trans hlast)
    rcases current_cases held with hdirect | hconsumed
    · exact (hinv.new e' hdirect).2 hcommitted
    · exact hinv.uncommitted e' hconsumed hcommitted
  commits before committed after hsplit consumed hmem hnot := by
    rcases append_split hsplit with ⟨rfl, hlast⟩ | ⟨after', hlog⟩
    · cases hlast
      have hactive : h.active = true := by
        by_contra hend
        obtain ⟨hdirect, hconsumed⟩ := hinv.ended (eq_false_of_ne_true hend)
        rcases current_cases held with h' | h'
        · rw [hdirect] at h'
          cases h'
        · rw [hconsumed] at h'
          cases h'
      exact hinv.current_waiting held hactive hmem hnot
    · exact hinv.commits before committed after' hlog consumed hmem hnot

/-- The end of the context leaves the log. -/
theorem Invariant.leave (hinv : Invariant h) : Invariant h.leave where
  fresh := hinv.fresh
  same := hinv.same
  armedOnce := hinv.armedOnce
  slots e' hheld := by rcases hheld with hdirect | hconsumed <;> contradiction
  apart := .inl rfl
  new e' hdirect := by cases hdirect
  uncommitted e' hconsumed := by cases hconsumed
  ended _ := ⟨rfl, rfl⟩
  waiting hactive := by cases hactive
  wasArmed := hinv.wasArmed
  paired := hinv.paired
  consumedOnce := hinv.consumedOnce
  committedOnce := hinv.committedOnce
  commits := hinv.commits

theorem Move.invariant {t : WriterHandoff P C} (hmove : Move h t) (hinv : Invariant h) :
    Invariant t := by
  cases hmove with
  | invoke use callback e held hslot => exact hinv.invoke held hslot
  | arm e v p w hid hactive _ hsettled => exact hinv.arm hid hactive hsettled
  | consume e held => exact hinv.consume held
  | commit e held => exact hinv.commit held
  | leave => exact hinv.leave

/-! ## Calls that raise -/

/-- The armed and the consumed evidence. -/
def evidences (h : WriterHandoff P C) :
    Option (WriterTransitionEvidence P) × Option (WriterTransitionEvidence P) :=
  (h.directTransition, h.consumedDirectTransition)

theorem arm_raises (a : ArmArguments P C) {e : HandoffError}
    (hraises : (h.armWriterTransition a).1 = .error e) :
    (h.armWriterTransition a).2.evidences = h.evidences := by
  unfold armWriterTransition at hraises ⊢
  split
  · rfl
  · next hguard =>
    rw [if_neg hguard] at hraises
    split
    · rfl
    · next path hpath =>
      rw [hpath] at hraises
      cases hraises

theorem complete_raises (outcomes : CallbackOutcomes) {e : HandoffError}
    (hraises : (h.completeWriterTransition outcomes).1 = .error e) :
    (h.completeWriterTransition outcomes).2.evidences = h.evidences := by
  unfold completeWriterTransition at hraises ⊢
  split
  · rfl
  · next hactive =>
    rw [if_neg hactive] at hraises
    split
    · rfl
    · next writer hwriter =>
      rw [hwriter] at hraises
      dsimp only at hraises
      split
      · rfl
      · next evidence hcurrent =>
        rw [hcurrent] at hraises
        dsimp only at hraises ⊢
        split
        · rfl
        · next hok =>
          rw [if_neg hok] at hraises
          cases hraises

theorem mark_evidences (phase : String) (outcomes : CallbackOutcomes) :
    (h.markTransitionPhase phase outcomes).2.evidences = h.evidences := by
  unfold markTransitionPhase
  split
  · split
    · rfl
    · rfl
  · rfl

/-! ## Runs -/

variable [DecidableEq P]

theorem meetsConsumed_own (e : WriterTransitionEvidence P) :
    meetsConsumed e e.path (ownArguments e) = true := by
  simp [meetsConsumed, ownArguments]

theorem Invariant.sound (hinv : Invariant h) : Sound h where
  paired := hinv.paired
  armedOnce := hinv.armedOnce
  wasArmed := hinv.wasArmed
  consumedOnce := hinv.consumedOnce
  committedOnce := hinv.committedOnce
  commits := hinv.commits
  stays hactive e hconsumed hnot := by
    have hwaits := hinv.waiting hactive e hconsumed hnot
    obtain ⟨v, p, w, harmed, hv, _⟩ := hinv.slots e (.inr hwaits)
    refine ⟨v, p, w, harmed, fun outcomes => ?_⟩
    unfold validateConsumedWriterTransition
    rw [hactive, hwaits]
    dsimp only
    rw [if_neg (by simp [ownArguments])]
    show (if meetsConsumed e e.path (ownArguments e) = false then _ else _) = _
    rw [meetsConsumed_own, if_neg (by simp), hv]

/-- Every state of a run in which no transition is armed while a consumed one waits for
its commit keeps the transitions apart. -/
theorem run_invariant {tr : List (Transition (WriterHandoff P C) (HandoffCall P C))}
    (hrun : Run handoffStep issued tr h) (hsettled : ∀ x ∈ tr, ArmsSettled x.pre x.event) :
    Invariant h := by
  refine hrun.invariant_of (fun _ t => Invariant t) ArmsSettled issued_invariant ?_ hsettled
  intro _ t call u hinv hcall hstep
  obtain rfl := Option.some.inj hstep
  have hmoves := exec_moves call hcall
  generalize (call.exec t).2 = u at hmoves
  induction hmoves with
  | refl => exact hinv
  | tail _ hmove ih => exact hmove.invariant ih

theorem validate_evidences (a : TransitionArguments P) (outcomes : CallbackOutcomes) :
    (h.validateWriterTransition a outcomes).2.evidences = h.evidences := by
  unfold validateWriterTransition
  split
  · split
    · rfl
    · split
      · rfl
      · split
        · rfl
        · rfl
  · rfl

theorem consume_raises (a : TransitionArguments P) (outcomes : CallbackOutcomes) {e : HandoffError}
    (hraises : (h.consumeWriterTransition a outcomes).1 = .error e) :
    (h.consumeWriterTransition a outcomes).2.evidences = h.evidences := by
  have hvalidate := validate_evidences (h := h) a outcomes
  unfold consumeWriterTransition at hraises ⊢
  split
  · next e' t ht =>
    rw [ht] at hvalidate
    exact hvalidate
  · next t ht =>
    rw [ht] at hvalidate hraises
    dsimp only at hraises
    split
    · exact hvalidate
    · exact hvalidate
    · next writer evidence hwriter hdirect =>
      rw [hwriter, hdirect] at hraises
      dsimp only at hraises ⊢
      split
      · exact hvalidate
      · next hok =>
        rw [if_neg hok] at hraises
        cases hraises

theorem validateConsumed_evidences (a : ConsumedArguments P) (outcomes : CallbackOutcomes) :
    (h.validateConsumedWriterTransition a outcomes).2.evidences = h.evidences := by
  unfold validateConsumedWriterTransition
  split
  · split
    · rfl
    · split
      · rfl
      · split
        · rfl
        · split
          · rfl
          · rfl
  · rfl

/-- A call that raises leaves the evidence as it was. -/
theorem raises_evidences (call : HandoffCall P C) {e : HandoffError}
    (hraises : (call.exec h).1 = .error e) : (call.exec h).2.evidences = h.evidences := by
  cases call with
  | arm a => exact arm_raises a hraises
  | validate a outcomes => exact validate_evidences a outcomes
  | consume a outcomes =>
      simp only [HandoffCall.exec] at hraises
      cases hresult : (h.consumeWriterTransition a outcomes).1 with
      | error e' => exact consume_raises a outcomes hresult
      | ok evidence =>
          rw [hresult] at hraises
          cases hraises
  | mark phase outcomes => exact mark_evidences phase outcomes
  | complete outcomes => exact complete_raises outcomes hraises
  | validateConsumed a outcomes => exact validateConsumed_evidences a outcomes
  | leave => cases hraises

/-- Once the context has ended every call of a method raises, and it stays ended. -/
theorem ended_raises (hended : h.active = false) (call : HandoffCall P C) :
    (call.exec h).2.active = false ∧ (call ≠ .leave → ∃ e, (call.exec h).1 = .error e) := by
  have hvalidate (a : TransitionArguments P) (outcomes : CallbackOutcomes) :
      h.validateWriterTransition a outcomes = (.error (invalidTransition a.transition), h) := by
    unfold validateWriterTransition
    rw [hended]
  cases call with
  | arm a =>
      have harm : h.armWriterTransition a =
          (.error (.runtimeError "implementation writer direct transition is unavailable"), h) :=
        if_pos (.inl hended)
      simp only [HandoffCall.exec, harm]
      exact ⟨hended, fun _ => ⟨_, rfl⟩⟩
  | validate a outcomes =>
      simp only [HandoffCall.exec, hvalidate]
      exact ⟨hended, fun _ => ⟨_, rfl⟩⟩
  | consume a outcomes =>
      simp only [HandoffCall.exec, consumeWriterTransition, hvalidate]
      exact ⟨hended, fun _ => ⟨_, rfl⟩⟩
  | mark phase outcomes =>
      simp only [HandoffCall.exec, markTransitionPhase, hended]
      exact ⟨trivial, fun _ => ⟨_, rfl⟩⟩
  | complete outcomes =>
      simp only [HandoffCall.exec, completeWriterTransition, hended, if_true]
      exact ⟨trivial, fun _ => ⟨_, rfl⟩⟩
  | validateConsumed a outcomes =>
      simp only [HandoffCall.exec, validateConsumedWriterTransition, hended]
      exact ⟨trivial, fun _ => ⟨_, rfl⟩⟩
  | leave => exact ⟨rfl, fun hne => absurd rfl hne⟩

/-- In a run in which no transition is armed while a consumed one waits for its commit,
every state keeps the transitions apart, a call that raises leaves the evidence as it
was, and after the end of the context every call raises. -/
theorem handoff_sound (tr : List (Transition (WriterHandoff P C) (HandoffCall P C)))
    (h : WriterHandoff P C) (hrun : Run handoffStep issued tr h)
    (hsettled : ∀ x ∈ tr, ArmsSettled x.pre x.event) :
    Sound h ∧ (∀ x ∈ tr, Sound x.post) ∧
      (∀ x ∈ tr, ∀ e, (x.event.exec x.pre).1 = .error e → x.post.evidences = x.pre.evidences) ∧
      ∀ hist x rest, tr = hist ++ x :: rest → x.event = .leave →
        ∀ y ∈ rest, y.event ≠ .leave → ∃ e, (y.event.exec y.pre).1 = .error e := by
  refine ⟨(run_invariant hrun hsettled).sound, ?_, ?_, ?_⟩
  · intro x hx
    obtain ⟨hist, rest, rfl⟩ := List.append_of_mem hx
    obtain ⟨hpre, hstep⟩ := hrun.cut rfl
    refine (run_invariant (hpre.snoc hstep) fun y hy => ?_).sound
    refine hsettled y ?_
    simp only [List.mem_append, List.mem_cons, List.not_mem_nil, or_false] at hy ⊢
    exact hy.imp_right .inl
  · intro x hx e hraises
    have hpost := Option.some.inj (hrun.mem hx).2
    rw [← hpost]
    exact raises_evidences x.event hraises
  · intro hist x rest htr hleave y hy hne
    have hx : x ∈ tr := by
      rw [htr]
      exact List.mem_append_right _ List.mem_cons_self
    have hended : x.post.active = false := by
      rw [← Option.some.inj (hrun.mem hx).2, hleave]
      rfl
    obtain ⟨first, last, rfl⟩ := List.append_of_mem hy
    have hafter := ((hrun.after htr).cut rfl).1
    have hpre : y.pre.active = false :=
      (hafter.stays (P := fun t => t.active = false) (fun z hz hpre => by
        rw [← Option.some.inj (hafter.mem hz).2]
        exact (ended_raises hpre z.event).1) hended).2
    exact (ended_raises hpre y.event).2 hne

/-! ### Two transitions -/

/-- The arguments of a transition to a branch, with callbacks of a journal. -/
def toBranch (branch digest : String) (journal : Nat) : ArmArguments String Nat where
  path := some "/build/7"
  predecessorGeneration := 1
  predecessorRevision := "a1"
  predecessorDetached := true
  predecessorBranch := none
  successorBranch := branch
  successorRevision := "a1"
  transition := "adopt"
  journalDigest := digest
  targetRefRevision := none
  journalValidator := journal
  phaseWriter := journal
  commitWriter := journal

/-- The arguments that fit an armed transition to a branch. -/
def fitting (branch : String) : TransitionArguments String where
  path := some "/build/7"
  predecessorRevision := "a1"
  predecessorDetached := true
  predecessorBranch := none
  successorBranch := branch
  successorRevision := "a1"
  transition := "adopt"
  targetRefRevision := none

/-- The evidence of the first transition. -/
def firstEvidence (branch digest : String) : WriterTransitionEvidence String where
  id := 0
  path := "/build/7"
  predecessorGeneration := 1
  predecessorRevision := "a1"
  predecessorDetached := true
  predecessorBranch := none
  branch := branch
  successorRevision := "a1"
  transition := "adopt"
  journalDigest := digest
  targetRefRevision := none

/-- Armed between a consumption and its commit, the second transition brings its
callbacks, and they get the digest of the first. -/
theorem rearmed_not_sound :
    ∃ tr h, Run handoffStep (issued : WriterHandoff String Nat) tr h ∧ ¬Sound h := by
  refine ⟨_, _, trace_run (show trace handoffStep (issued : WriterHandoff String Nat)
    [.arm (toBranch "7-one" "d1" 1), .consume (fitting "7-one") {},
      .arm (toBranch "7-two" "d2" 2),
      .validateConsumed (ownArguments (firstEvidence "7-one" "d1")) {}] = some (_, _) from rfl),
    fun hsound => ?_⟩
  obtain ⟨e, v, p, w, hmem, hdigest, hpick⟩ := hsound.paired
    [.armed (firstEvidence "7-one" "d1") 1 1 1, .invoked .validate 1 "d1",
      .invoked (.phase "predecessor_removing") 1 "d1", .consumed (firstEvidence "7-one" "d1"),
      .armed { firstEvidence "7-two" "d2" with id := 1 } 2 2 2] .validate 2 "d1" [] rfl
  simp only [List.mem_cons, List.not_mem_nil, or_false, HandoffEvent.armed.injEq, reduceCtorEq,
    false_or] at hmem
  rcases hmem with ⟨_, rfl, _⟩ | ⟨rfl, _⟩
  · cases hpick
  · exact absurd hdigest (by decide)

/-- A transition that is armed, consumed and committed before the next one. -/
theorem handoff_sound_twice : ∃ tr h, Run handoffStep (issued : WriterHandoff String Nat) tr h ∧
    tr.length = 6 ∧ Sound h := by
  have hrun := trace_run (show trace handoffStep (issued : WriterHandoff String Nat)
    [.arm (toBranch "7-one" "d1" 1), .consume (fitting "7-one") {},
      .validateConsumed (ownArguments (firstEvidence "7-one" "d1")) {}, .complete {},
      .arm (toBranch "7-two" "d2" 2), .leave] = some (_, _) from rfl)
  refine ⟨_, _, hrun, rfl, (handoff_sound _ _ hrun ?_).1⟩
  decide

end WriterHandoff

end Hephaestus.Automation
