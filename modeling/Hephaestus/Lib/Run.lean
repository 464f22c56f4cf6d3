import Mathlib.Data.List.Basic

/-!
# Runs of a labelled transition relation

Every protocol of the development is a state, an event and a partial step
function, and everything said about one is said about its runs. A run is
kept together with its trace: the list of transitions taken, each with the
state it left and the state it reached. That is what a statement about
history needs (how many probes succeeded since the breaker half-opened, who
wrote a record last), and it costs nothing where only the last state
matters.

Runs grow at the end, so an induction over one reads forwards: the prefix
has already been dealt with when the last step arrives.
-/

namespace Hephaestus.Lib

/-- One transition of a run: the state it left, the event, the state it
reached. -/
structure Transition (S E : Type*) where
  pre : S
  event : E
  post : S

/-- `Run step s tr t`: the transitions `tr`, in order, lead from `s` to
`t`. -/
inductive Run {S E : Type*} (step : S → E → Option S) (s : S) :
    List (Transition S E) → S → Prop
  | nil : Run step s [] s
  | snoc {tr : List (Transition S E)} {t u : S} {e : E} :
      Run step s tr t → step t e = some u → Run step s (tr ++ [⟨t, e, u⟩]) u

/-- A state some run reaches. -/
def Reachable {S E : Type*} (step : S → E → Option S) (s t : S) : Prop :=
  ∃ tr, Run step s tr t

variable {S E : Type*} {step : S → E → Option S} {s t : S}
  {tr : List (Transition S E)}

/-- The rule every history invariant goes through: a relation between the
trace so far and the state reached, kept by every step whose event meets
the condition `C`, holds at the end of any run all of whose steps meet it. -/
theorem Run.invariant_of (hrun : Run step s tr t)
    (Inv : List (Transition S E) → S → Prop) (C : S → E → Prop) (hinit : Inv [] s)
    (hstep : ∀ tr t e u, Inv tr t → C t e → step t e = some u →
      Inv (tr ++ [⟨t, e, u⟩]) u)
    (hC : ∀ x ∈ tr, C x.pre x.event) : Inv tr t := by
  induction hrun with
  | nil => exact hinit
  | snoc hrun hs ih =>
      have hpre := ih fun x hx => hC x (List.mem_append_left _ hx)
      have hlast := hC _ (List.mem_append_right _ (List.mem_singleton_self _))
      exact hstep _ _ _ _ hpre hlast hs

/-- The same without a condition on the events. -/
theorem Run.invariant (hrun : Run step s tr t) (Inv : S → Prop) (hinit : Inv s)
    (hstep : ∀ t e u, Inv t → step t e = some u → Inv u) : Inv t :=
  hrun.invariant_of (fun _ u => Inv u) (fun _ _ => True) hinit
    (fun _ t e u ht _ hs => hstep t e u ht hs) (fun _ _ => trivial)

/-- Amortized counting: where every step that meets `C` pays for its cost out
of a potential, with a credit now and then, the costs of a run are bounded by
the potential it started with and the credits it got. -/
theorem Run.amortized (hrun : Run step s tr t) (potential : S → Nat)
    (cost credit : Transition S E → Bool) (C : S → E → Prop)
    (hstep : ∀ t e u, C t e → step t e = some u →
      potential u + (cost ⟨t, e, u⟩).toNat ≤ potential t + (credit ⟨t, e, u⟩).toNat)
    (hC : ∀ x ∈ tr, C x.pre x.event) :
    potential t + tr.countP cost ≤ potential s + tr.countP credit := by
  have hcount : ∀ (p : Transition S E → Bool) x, [x].countP p = (p x).toNat := by
    intro p x
    cases hp : p x <;> simp [hp]
  refine hrun.invariant_of
    (fun tr t => potential t + tr.countP cost ≤ potential s + tr.countP credit) C (Nat.le_refl _) ?_ hC
  intro tr t e u hpaid hc hs
  have hpay := hstep t e u hc hs
  rw [List.countP_append, List.countP_append, hcount, hcount]
  omega

theorem Reachable.invariant (hr : Reachable step s t) (Inv : S → Prop) (hinit : Inv s)
    (hstep : ∀ t e u, Inv t → step t e = some u → Inv u) : Inv t := by
  obtain ⟨tr, hrun⟩ := hr
  exact hrun.invariant Inv hinit hstep

theorem Reachable.refl : Reachable step s s := ⟨[], Run.nil⟩

theorem Reachable.tail {u : S} {e : E} (hr : Reachable step s t)
    (hs : step t e = some u) : Reachable step s u := by
  obtain ⟨tr, hrun⟩ := hr
  exact ⟨_, hrun.snoc hs⟩

/-- Cutting a run at one of its transitions: the part before it is a run
ending where the transition starts, and the transition is a step. -/
theorem Run.cut {hist rest : List (Transition S E)} {x : Transition S E}
    (hrun : Run step s tr t) (htr : tr = hist ++ x :: rest) :
    Run step s hist x.pre ∧ step x.pre x.event = some x.post := by
  induction hrun generalizing rest with
  | nil => simp at htr
  | snoc hrun hs ih =>
      rcases List.eq_nil_or_concat rest with rfl | ⟨rest', y, rfl⟩
      · obtain ⟨rfl, hx⟩ := List.append_inj' htr rfl
        obtain rfl := List.singleton_inj.mp hx
        exact ⟨hrun, hs⟩
      · rw [List.concat_eq_append, ← List.cons_append, ← List.append_assoc] at htr
        exact ih (List.append_inj' htr rfl).1

/-- A run ends where it started or where one of its transitions did. -/
theorem Run.last_mem (hrun : Run step s tr t) : t = s ∨ ∃ x ∈ tr, x.post = t := by
  cases hrun with
  | nil => exact .inl rfl
  | snoc _ _ => exact .inr ⟨_, List.mem_append_right _ (List.mem_singleton_self _), rfl⟩

/-- Every transition of a run is a step from a state the run reached. -/
theorem Run.mem {x : Transition S E} (hrun : Run step s tr t) (hx : x ∈ tr) :
    Reachable step s x.pre ∧ step x.pre x.event = some x.post := by
  obtain ⟨hist, rest, rfl⟩ := List.append_of_mem hx
  obtain ⟨hpre, hs⟩ := hrun.cut rfl
  exact ⟨⟨hist, hpre⟩, hs⟩

/-- The state a transition of a run reached is a reachable state. -/
theorem Run.mem_post {x : Transition S E} (hrun : Run step s tr t) (hx : x ∈ tr) :
    Reachable step s x.post :=
  (hrun.mem hx).1.tail (hrun.mem hx).2

/-- Simulation: where every step that meets `C` is matched by one of another
system, or by none, the run is matched by a run of it. -/
theorem Run.refines {S' E' : Type*} {step' : S' → E' → Option S'} {s' : S'}
    (hrun : Run step s tr t) (R : S → S' → Prop) (C : S → E → Prop) (hinit : R s s')
    (hstep : ∀ t e u t', R t t' → C t e → step t e = some u →
      ∃ u', (u' = t' ∨ ∃ e', step' t' e' = some u') ∧ R u u')
    (hC : ∀ x ∈ tr, C x.pre x.event) : ∃ t', Reachable step' s' t' ∧ R t t' := by
  refine hrun.invariant_of (fun _ t => ∃ t', Reachable step' s' t' ∧ R t t') C
    ⟨s', .refl, hinit⟩ ?_ hC
  rintro _ t e u ⟨t', hreach, hrel⟩ hc hs
  obtain ⟨u', hmatch, hrel'⟩ := hstep t e u t' hrel hc hs
  rcases hmatch with rfl | ⟨e', he'⟩
  · exact ⟨u', hreach, hrel'⟩
  · exact ⟨u', hreach.tail he', hrel'⟩

/-- A step in front of a run. -/
theorem Run.cons {e : E} {u : S} (hs : step s e = some t) (hrun : Run step t tr u) :
    Run step s (⟨s, e, t⟩ :: tr) u := by
  induction hrun with
  | nil => exact Run.nil.snoc hs
  | snoc _ hlast ih => exact ih.snoc hlast

/-- One run after another. -/
theorem Run.append {tr' : List (Transition S E)} {u : S} (hrun : Run step s tr t)
    (hrest : Run step t tr' u) : Run step s (tr ++ tr') u := by
  induction hrest with
  | nil => simpa using hrun
  | snoc _ hlast ih =>
      rw [← List.append_assoc]
      exact ih.snoc hlast

/-- The part of a run after one of its transitions is a run from where that one
ended. -/
theorem Run.after {hist rest : List (Transition S E)} {x : Transition S E}
    (hrun : Run step s tr t) (htr : tr = hist ++ x :: rest) : Run step x.post rest t := by
  induction hrun generalizing rest with
  | nil => simp at htr
  | snoc hrun hs ih =>
      rcases List.eq_nil_or_concat rest with rfl | ⟨rest', y, rfl⟩
      · obtain ⟨_, hx⟩ := List.append_inj' htr rfl
        obtain rfl := List.singleton_inj.mp hx
        exact .nil
      · rw [List.concat_eq_append, ← List.cons_append, ← List.append_assoc] at htr
        obtain ⟨htr', hy⟩ := List.append_inj' htr rfl
        rw [List.concat_eq_append, ← List.singleton_inj.mp hy]
        exact (ih htr').snoc hs

/-- What holds at the start and is kept by every transition of a run holds
after each of them. -/
theorem Run.stays (hrun : Run step s tr t) {P : S → Prop}
    (hstep : ∀ y ∈ tr, P y.pre → P y.post) (hs : P s) : (∀ y ∈ tr, P y.post) ∧ P t := by
  induction hrun with
  | nil => exact ⟨fun y hy => absurd hy List.not_mem_nil, hs⟩
  | snoc _ _ ih =>
      obtain ⟨hall, hlast⟩ := ih fun y hy => hstep y (List.mem_append_left _ hy)
      have hnext := hstep _ (List.mem_append_right _ (List.mem_singleton_self _)) hlast
      refine ⟨fun y hy => ?_, hnext⟩
      rcases List.mem_append.mp hy with hy | hy
      · exact hall y hy
      · rw [List.mem_singleton.mp hy]
        exact hnext

/-- The same from one of its transitions on. -/
theorem Run.stays_after {hist rest : List (Transition S E)} {x : Transition S E}
    (hrun : Run step s tr t) (htr : tr = hist ++ x :: rest) {P : S → Prop}
    (hstep : ∀ y ∈ tr, P y.pre → P y.post) (hx : P x.post) : ∀ y ∈ x :: rest, P y.post := by
  have hrest := (hrun.after htr).stays (fun y hy => hstep y ?_) hx
  · intro y hy
    rcases List.mem_cons.mp hy with rfl | hy
    · exact hx
    · exact hrest.1 y hy
  · rw [htr]
    exact List.mem_append_right _ (List.mem_cons_of_mem _ hy)

/-- A run that comes back to where it started can be taken any number of
times. -/
theorem Run.loop (hrun : Run step s tr s) (n : Nat) :
    Run step s (List.replicate n tr).flatten s := by
  induction n with
  | zero => exact Run.nil
  | succ n ih =>
      rw [List.replicate_succ, List.flatten_cons]
      exact hrun.append ih

/-- The executable run: the transitions a list of events takes, and where
they end. -/
def trace (step : S → E → Option S) (s : S) : List E → Option (List (Transition S E) × S)
  | [] => some ([], s)
  | e :: es =>
      (step s e).bind fun t => (trace step t es).map fun y => (⟨s, e, t⟩ :: y.1, y.2)

theorem trace_run {es : List E} (h : trace step s es = some (tr, t)) : Run step s tr t := by
  induction es generalizing s tr with
  | nil =>
      obtain ⟨rfl, rfl⟩ := Prod.mk.inj (Option.some.inj h)
      exact Run.nil
  | cons e es ih =>
      obtain ⟨u, hu, hrest⟩ := Option.bind_eq_some_iff.mp h
      obtain ⟨⟨tr', t'⟩, hy, hz⟩ := Option.map_eq_some_iff.mp hrest
      obtain ⟨rfl, rfl⟩ := Prod.mk.inj hz
      exact (ih hy).cons hu

/-- The first event of an executed run is one of its transitions. -/
theorem trace_head {e : E} {es : List E} (h : trace step s (e :: es) = some (tr, t)) :
    ∃ x ∈ tr, x.pre = s ∧ x.event = e := by
  obtain ⟨u, hu, hrest⟩ := Option.bind_eq_some_iff.mp h
  obtain ⟨⟨tr', t'⟩, hy, hz⟩ := Option.map_eq_some_iff.mp hrest
  obtain ⟨rfl, rfl⟩ := Prod.mk.inj hz
  exact ⟨⟨s, e, u⟩, List.mem_cons_self, rfl, rfl⟩

end Hephaestus.Lib
