import Mathlib.Data.List.Basic
import Mathlib.Order.Defs.Unbundled

/-!
# Commands that raise

The stores of the development are Python methods over a file: they read,
check, sometimes write, and raise where a check fails. What a method wrote
before it raised stays written, so the state survives the exception, and
"a failed call changes nothing" is a property to prove and not a feature of
the monad. `Command` is that monad, with the two properties a store wants
of its methods and the rules that build them up statement by statement.

The second half is the constructor of a validated value: a record of fields
together with the check its constructor runs. A `Checked` value is one the
check let through, so nothing downstream checks it again.
-/

namespace Hephaestus.Lib

variable {σ ε α β : Type}

/-! ## Checks -/

/-- `if p: raise e`. -/
def raiseIf (p : Prop) [Decidable p] (e : ε) : Except ε Unit :=
  if p then .error e else .ok ()

@[simp] theorem raiseIf_ok {p : Prop} [Decidable p] {e : ε} {u : Unit} :
    raiseIf p e = .ok u ↔ ¬ p := by
  unfold raiseIf
  split
  · next h => simp [h]
  · next h => simp [h]

theorem except_bind_ok {x : Except ε α} {f : α → Except ε β} {b : β} :
    (x >>= f) = .ok b ↔ ∃ a, x = .ok a ∧ f a = .ok b := by
  cases x with
  | error e => simp [bind, Except.bind]
  | ok a => simp [bind, Except.bind]

/-- The same where the first part is a check: it returns nothing. -/
theorem check_bind_ok {x : Except ε Unit} {f : Unit → Except ε β} {b : β} :
    (x >>= f) = .ok b ↔ x = .ok () ∧ f () = .ok b := by
  rw [except_bind_ok]
  constructor
  · rintro ⟨u, hu, hf⟩
    exact ⟨hu, hf⟩
  · rintro ⟨hu, hf⟩
    exact ⟨(), hu, hf⟩

/-- A loop of checks passes where every turn does. -/
theorem forM_ok {l : List α} {f : α → Except ε Unit} :
    l.forM f = .ok () ↔ ∀ a ∈ l, f a = .ok () := by
  induction l with
  | nil => simp [List.forM, pure, Except.pure]
  | cons a l ih =>
      rw [List.forM, check_bind_ok, ih, List.forall_mem_cons]

/-- A loop whose turns all go on. -/
theorem foldlM_range_ok {f : σ → Nat → Except ε σ} {P : Nat → σ → Prop} {n : Nat}
    (hturn : ∀ i < n, ∀ s, P i s → ∃ s', f s i = .ok s' ∧ P (i + 1) s') {s : σ} (hs : P 0 s) :
    ∃ s', (List.range n).foldlM f s = .ok s' ∧ P n s' := by
  induction n with
  | zero => exact ⟨s, rfl, hs⟩
  | succ n ih =>
      obtain ⟨s', hrun, hP⟩ := ih fun i hi => hturn i (Nat.lt_succ_of_lt hi)
      obtain ⟨s'', hlast, hP'⟩ := hturn n (Nat.lt_succ_self n) s' hP
      refine ⟨s'', ?_, hP'⟩
      rw [List.range_succ, List.foldlM_append, hrun]
      simp [bind, Except.bind, hlast, pure, Except.pure]

/-- What every turn of a loop keeps, where it may look at how the loop ends. -/
theorem foldlM_range_inv {f : σ → Nat → Except ε σ} {P : Nat → σ → Prop}
    {R : σ → σ → Prop} (hrefl : ∀ s, R s s) (htrans : ∀ s t u, R s t → R t u → R s u)
    (hle : ∀ s i s', f s i = .ok s' → R s s') {n : Nat} {s last : σ}
    (hturn : ∀ i < n, ∀ t t', P i t → f t i = .ok t' → R t' last → P (i + 1) t')
    (hs : P 0 s) (hrun : (List.range n).foldlM f s = .ok last) : P n last ∧ R s last := by
  induction n generalizing last with
  | zero =>
      obtain rfl := Except.ok.inj hrun
      exact ⟨hs, hrefl s⟩
  | succ n ih =>
      rw [List.range_succ, List.foldlM_append, except_bind_ok] at hrun
      obtain ⟨t, hrun, hlast⟩ := hrun
      rw [List.foldlM_cons, except_bind_ok] at hlast
      obtain ⟨t', hlast, hend⟩ := hlast
      obtain rfl := Except.ok.inj hend
      have hstep := hle t n t' hlast
      obtain ⟨hP, hle'⟩ := ih
        (fun i hi u u' hu hf hu' => hturn i (Nat.lt_succ_of_lt hi) u u' hu hf (htrans _ _ _ hu' hstep))
        hrun
      exact ⟨hturn n (Nat.lt_succ_self n) t t' hP hlast (hrefl t'), htrans _ _ _ hle' hstep⟩

/-- The values a constructor's check lets through. -/
def Checked (check : α → Except ε Unit) : Type := { a : α // check a = .ok () }

instance {check : α → Except ε Unit} [DecidableEq α] : DecidableEq (Checked check) :=
  inferInstanceAs (DecidableEq { a : α // check a = .ok () })

/-- The constructor: the check, then the value. -/
def Checked.make (check : α → Except ε Unit) (a : α) : Except ε (Checked check) :=
  match h : check a with
  | .ok () => .ok ⟨a, h⟩
  | .error e => .error e

theorem Checked.make_ok {check : α → Except ε Unit} {a : α} {c : Checked check}
    (h : Checked.make check a = .ok c) : c.val = a := by
  unfold Checked.make at h
  split at h
  · obtain rfl := Except.ok.inj h
    rfl
  · cases h

theorem Checked.make_of {check : α → Except ε Unit} {a : α} (h : check a = .ok ()) :
    Checked.make check a = .ok ⟨a, h⟩ := by
  unfold Checked.make
  split
  · rfl
  · next e he =>
      rw [h] at he
      cases he

/-! ## Errors that do not come out -/

/-- The computation does not end in the error `e`. -/
def Spares (e : ε) (x : Except ε α) : Prop := x ≠ .error e

variable {e : ε}

@[simp] theorem spares_ok (a : α) : Spares e (.ok a : Except ε α) := nofun

@[simp] theorem spares_bind {x : Except ε α} {f : α → Except ε β} :
    Spares e (x >>= f) ↔ Spares e x ∧ ∀ a, x = .ok a → Spares e (f a) := by
  cases x with
  | error e' => simp [Spares, bind, Except.bind]
  | ok a => simp [Spares, bind, Except.bind]

/-- A check in front raises its own error only. -/
theorem spares_check {p : Prop} [Decidable p] {e' : ε} (h : e' ≠ e) {f : Unit → Except ε β} :
    Spares e (raiseIf p e' >>= f) ↔ (¬ p → Spares e (f ())) := by
  unfold raiseIf
  split
  · next hp => simp [Spares, bind, Except.bind, h, hp]
  · next hp => simp [bind, Except.bind, hp]

theorem spares_raiseIf {p : Prop} [Decidable p] {e' : ε} (h : e' ≠ e) :
    Spares e (raiseIf p e') := by
  unfold raiseIf
  split
  · exact fun he => h (Except.error.inj he)
  · exact spares_ok ()

theorem Checked.spares_make {check : α → Except ε Unit} {a : α} :
    Spares e (Checked.make check a) ↔ Spares e (check a) := by
  unfold Checked.make Spares
  split
  · next h => simp [h]
  · next e' h => simp [h]

/-- `p` holds of every item a loop over `f` comes to. -/
def Reached (f : α → Except ε β) (p : α → Prop) : List α → Prop
  | [] => True
  | a :: l => p a ∧ ((∃ b, f a = .ok b) → Reached f p l)

theorem spares_mapM {l : List α} {f : α → Except ε β} {p : α → Prop}
    (hp : ∀ a, Spares e (f a) ↔ p a) : Spares e (l.mapM f) ↔ Reached f p l := by
  induction l with
  | nil => simp [Reached, pure, Except.pure]
  | cons a l ih =>
      simp only [List.mapM_cons, spares_bind, Reached, hp, ih]
      refine and_congr_right fun _ => ?_
      constructor
      · rintro h ⟨b, hb⟩
        exact (h b hb).1
      · intro h b hb
        exact ⟨h ⟨b, hb⟩, fun _ _ => spares_ok _⟩

/-- Checks in a loop, none of which raises `e`. -/
theorem spares_forM_bind {l : List α} {f : α → Except ε Unit} {g : Unit → Except ε β}
    (h : ∀ a, Spares e (f a)) :
    Spares e (l.forM f >>= g) ↔ ((∀ a ∈ l, f a = .ok ()) → Spares e (g ())) := by
  have hloop : Spares e (l.forM f) := by
    induction l with
    | nil => exact spares_ok ()
    | cons a l ih =>
        rw [List.forM, spares_bind]
        exact ⟨h a, fun _ _ => ih⟩
  rw [spares_bind, and_iff_right hloop, ← forM_ok]
  exact ⟨fun hg => hg (), fun hg _ => hg⟩

/-- A loop that builds a list does so where every turn returns. -/
theorem mapM_isOk {l : List α} {f : α → Except ε β} :
    (∃ bs, l.mapM f = .ok bs) ↔ ∀ a ∈ l, ∃ b, f a = .ok b := by
  induction l with
  | nil => simp [pure, Except.pure]
  | cons a l ih =>
      simp only [List.mapM_cons, except_bind_ok, List.forall_mem_cons, ← ih]
      constructor
      · rintro ⟨_, b, hb, bs, hbs, _⟩
        exact ⟨⟨b, hb⟩, bs, hbs⟩
      · rintro ⟨⟨b, hb⟩, bs, hbs⟩
        exact ⟨_, b, hb, bs, hbs, rfl⟩

theorem length_of_mapM {l : List α} {f : α → Except ε β} {bs : List β}
    (h : l.mapM f = .ok bs) : bs.length = l.length := by
  induction l generalizing bs with
  | nil =>
      obtain rfl := Except.ok.inj h
      rfl
  | cons a l ih =>
      rw [List.mapM_cons] at h
      obtain ⟨b, _, h⟩ := except_bind_ok.mp h
      obtain ⟨bs', hbs', h⟩ := except_bind_ok.mp h
      obtain rfl := Except.ok.inj h
      rw [List.length_cons, List.length_cons, ih hbs']

/-- Items that were written one by one are read one by one. -/
theorem mapM_map_ok {l : List β} {f : α → Except ε β} {g : β → α}
    (h : ∀ b ∈ l, f (g b) = .ok b) : (l.map g).mapM f = .ok l := by
  induction l with
  | nil => rfl
  | cons b l ih =>
      rw [List.forall_mem_cons] at h
      rw [List.map_cons, List.mapM_cons, h.1, ih h.2]
      rfl

/-- A loop whose turns all return builds the list of what they return. -/
theorem mapM_ok_map {l : List α} {f : α → Except ε β} {g : α → β}
    (h : ∀ a ∈ l, f a = .ok (g a)) : l.mapM f = .ok (l.map g) := by
  induction l with
  | nil => rfl
  | cons a l ih =>
      rw [List.forall_mem_cons] at h
      rw [List.map_cons, List.mapM_cons, h.1, ih h.2]
      rfl

/-! ## Commands -/

/-- A command over a state `σ` that may raise an `ε`. -/
abbrev Command (σ ε α : Type) := ExceptT ε (StateM σ) α

namespace Command

/-- Run a command: how it ended, and the state it left. -/
def exec (x : Command σ ε α) (s : σ) : Except ε α × σ := x.run.run s

/-- A check or a constructor as a command. -/
def attempt (r : Except ε α) : Command σ ε α := ExceptT.mk (pure r)

@[simp] theorem exec_pure (a : α) (s : σ) : (pure a : Command σ ε α).exec s = (.ok a, s) :=
  rfl

@[simp] theorem exec_throw (e : ε) (s : σ) :
    (throw e : Command σ ε α).exec s = (.error e, s) := rfl

@[simp] theorem exec_get (s : σ) : (get : Command σ ε σ).exec s = (.ok s, s) := rfl

@[simp] theorem exec_set (s t : σ) : (set t : Command σ ε PUnit).exec s = (.ok ⟨⟩, t) := rfl

@[simp] theorem exec_modify (f : σ → σ) (s : σ) :
    (modify f : Command σ ε PUnit).exec s = (.ok ⟨⟩, f s) := rfl

@[simp] theorem exec_attempt (r : Except ε α) (s : σ) :
    (attempt r : Command σ ε α).exec s = (r, s) := rfl

theorem exec_bind (x : Command σ ε α) (f : α → Command σ ε β) (s : σ) :
    (x >>= f).exec s =
      match x.exec s with
      | (.ok a, t) => (f a).exec t
      | (.error e, t) => (.error e, t) := by
  show (ExceptT.bind x f).run.run s = _
  unfold ExceptT.bind ExceptT.bindCont exec
  simp only [ExceptT.run, ExceptT.mk, StateT.run, bind, StateT.bind]
  rcases h : x s with ⟨r, t⟩
  cases r <;> rfl

/-- A command that returned did so step by step. -/
theorem bind_ok {x : Command σ ε α} {f : α → Command σ ε β} {s t : σ} {b : β} :
    (x >>= f).exec s = (.ok b, t) ↔
      ∃ a u, x.exec s = (.ok a, u) ∧ (f a).exec u = (.ok b, t) := by
  rw [exec_bind]
  rcases x.exec s with ⟨r | a, u⟩
  · simp
  · constructor
    · exact fun h => ⟨a, u, rfl, h⟩
    · rintro ⟨a', u', hx, hf⟩
      obtain ⟨ha, rfl⟩ := Prod.mk.inj hx
      obtain rfl := Except.ok.inj ha
      exact hf

/-- A check or a constructor in front changes nothing but may raise. -/
theorem attempt_bind_ok {r : Except ε α} {f : α → Command σ ε β} {s t : σ} {b : β} :
    (attempt r >>= f).exec s = (.ok b, t) ↔ ∃ a, r = .ok a ∧ (f a).exec s = (.ok b, t) := by
  rw [exec_bind, exec_attempt]
  cases r with
  | error e => simp
  | ok a => simp

theorem exec_map (f : α → β) (x : Command σ ε α) (s : σ) :
    (f <$> x).exec s = ((x.exec s).1.map f, (x.exec s).2) := by
  rw [map_eq_pure_bind, exec_bind]
  rcases x.exec s with ⟨r | a, t⟩
  · rfl
  · rfl

theorem map_ok_eq {f : α → β} {x : Command σ ε α} {s t : σ} {b : β}
    (h : (f <$> x).exec s = (.ok b, t)) : ∃ a, x.exec s = (.ok a, t) ∧ f a = b := by
  rw [exec_map] at h
  rcases hx : x.exec s with ⟨r | a, u⟩
  · rw [hx] at h
    cases h
  · rw [hx] at h
    obtain ⟨ha, rfl⟩ := Prod.mk.inj h
    exact ⟨a, rfl, Except.ok.inj ha⟩

theorem map_ok {f : α → β} {x : Command σ ε α} {s t : σ} {b : β}
    (h : (f <$> x).exec s = (.ok b, t)) : ∃ a, x.exec s = (.ok a, t) := by
  obtain ⟨a, ha, _⟩ := map_ok_eq h
  exact ⟨a, ha⟩

/-- The command never writes. -/
def ReadOnly (x : Command σ ε α) : Prop := ∀ s, (x.exec s).2 = s

/-- The command either returns or leaves the state as it found it. -/
def AllOrNothing (x : Command σ ε α) : Prop :=
  ∀ s e t, x.exec s = (.error e, t) → t = s

theorem ReadOnly.pure (a : α) : ReadOnly (pure a : Command σ ε α) := fun _ => rfl

theorem ReadOnly.throw (e : ε) : ReadOnly (throw e : Command σ ε α) := fun _ => rfl

theorem ReadOnly.get : ReadOnly (get : Command σ ε σ) := fun _ => rfl

theorem ReadOnly.attempt (r : Except ε α) : ReadOnly (attempt r : Command σ ε α) :=
  fun _ => rfl

theorem ReadOnly.bind {x : Command σ ε α} {f : α → Command σ ε β} (hx : ReadOnly x)
    (hf : ∀ a, ReadOnly (f a)) : ReadOnly (x >>= f) := by
  intro s
  have hs := hx s
  rw [exec_bind]
  rcases h : x.exec s with ⟨r | a, t⟩
  · rw [h] at hs
    exact hs
  · rw [h] at hs
    obtain rfl : t = s := hs
    exact hf a t

/-- What a read-only command returned, it returned in the state it found. -/
theorem ReadOnly.state_eq {x : Command σ ε α} (hx : ReadOnly x) {s t : σ}
    {r : Except ε α} (h : x.exec s = (r, t)) : t = s := by
  have hs := hx s
  rw [h] at hs
  exact hs

theorem ReadOnly.allOrNothing {x : Command σ ε α} (hx : ReadOnly x) : AllOrNothing x :=
  fun _ _ _ h => hx.state_eq h

/-- Checks first, then the write: the order every store method keeps. -/
theorem AllOrNothing.bind {x : Command σ ε α} {f : α → Command σ ε β} (hx : ReadOnly x)
    (hf : ∀ a, AllOrNothing (f a)) : AllOrNothing (x >>= f) := by
  intro s e t h
  rw [exec_bind] at h
  rcases hr : x.exec s with ⟨r | a, u⟩
  · rw [hr] at h
    have hu := hx.state_eq hr
    rw [← (Prod.mk.inj h).2, hu]
  · rw [hr] at h
    have hu := hx.state_eq hr
    rw [hf a u e t h, hu]

theorem AllOrNothing.map {x : Command σ ε α} (hx : AllOrNothing x) (f : α → β) :
    AllOrNothing (f <$> x) := by
  intro s e t h
  rw [exec_map] at h
  rcases hr : x.exec s with ⟨r | a, u⟩
  · rw [hr] at h
    rw [← (Prod.mk.inj h).2]
    exact hx s r u hr
  · rw [hr] at h
    cases h

/-- A write can only be followed by something that does not raise. -/
theorem AllOrNothing.write (t : σ) {x : Command σ ε α} {a : α} (hx : ∀ s, x.exec s = (.ok a, s)) :
    AllOrNothing (do set t; x : Command σ ε α) := by
  intro s e u h
  rw [exec_bind, exec_set] at h
  simp only [hx] at h
  cases h

/-! ### Replays -/

/-- What the command returned once it returns again, and the second time it
writes nothing. -/
def ReplaySafe (x : Command σ ε α) : Prop :=
  ∀ {s t : σ} {a : α}, x.exec s = (.ok a, t) → x.exec t = (.ok a, t)

theorem ReplaySafe.map {x : Command σ ε α} (hx : ReplaySafe x) (f : α → β) :
    ReplaySafe (f <$> x) := by
  intro s t b h
  obtain ⟨a, ha, rfl⟩ := map_ok_eq h
  rw [exec_map, hx ha]
  rfl

theorem ReplaySafe.attempt_bind {r : Except ε α} {f : α → Command σ ε β}
    (hf : ∀ a, r = .ok a → ReplaySafe (f a)) : ReplaySafe (attempt r >>= f) := by
  intro s t b h
  obtain ⟨a, ha, h⟩ := attempt_bind_ok.mp h
  exact attempt_bind_ok.mpr ⟨a, ha, hf a ha h⟩

/-- Whether a command returns can be read off its answer. -/
theorem exec_of_isOk {x : Command σ ε α} {s : σ} (h : (x.exec s).1.isOk = true) :
    ∃ a t, x.exec s = (.ok a, t) := by
  rcases hx : x.exec s with ⟨r | a, t⟩
  · rw [hx] at h
    cases h
  · exact ⟨a, t, rfl⟩

/-! ### Weakest preconditions

`x.wp Q E s` says how `x` ends from `s`: it returns into `Q`, or raises into
`E`. The lemmas take a command apart statement by statement, so a proof about
a method reads in the order of its lines and uses one fact for each method it
calls. -/

def wp (x : Command σ ε α) (Q : α → σ → Prop) (E : ε → σ → Prop) (s : σ) : Prop :=
  match x.exec s with
  | (.ok a, t) => Q a t
  | (.error e, t) => E e t

variable {Q Q' : α → σ → Prop} {E E' : ε → σ → Prop} {s : σ}

theorem wp_mono {x : Command σ ε α} (h : x.wp Q E s) (hQ : ∀ a t, Q a t → Q' a t)
    (hE : ∀ e t, E e t → E' e t) : x.wp Q' E' s := by
  unfold wp at h ⊢
  split
  · next a t hx =>
      rw [hx] at h
      exact hQ a t h
  · next e t hx =>
      rw [hx] at h
      exact hE e t h

theorem wp_and {x : Command σ ε α} (h : x.wp Q E s) (h' : x.wp Q' E' s) :
    x.wp (fun a t => Q a t ∧ Q' a t) (fun e t => E e t ∧ E' e t) s := by
  unfold wp at *
  split
  · next hx =>
      rw [hx] at h h'
      exact ⟨h, h'⟩
  · next hx =>
      rw [hx] at h h'
      exact ⟨h, h'⟩

/-- A command ends somehow. -/
theorem not_wp_false {x : Command σ ε α} :
    ¬ x.wp (fun _ _ => False) (fun _ _ => False) s := by
  intro h
  unfold wp at h
  split at h
  · exact h
  · exact h

/-- What holds however the command ends. -/
theorem wp_state {x : Command σ ε α} {R : σ → Prop} (h : x.wp (fun _ => R) (fun _ => R) s) :
    R (x.exec s).2 := by
  unfold wp at h
  split at h
  · next hx => rwa [hx]
  · next hx => rwa [hx]

theorem wp_of_state {x : Command σ ε α} {R : σ → Prop} (h : R (x.exec s).2) :
    x.wp (fun _ => R) (fun _ => R) s := by
  unfold wp
  split
  · next hx => rwa [hx] at h
  · next hx => rwa [hx] at h

@[simp] theorem wp_pure (a : α) : (pure a : Command σ ε α).wp Q E s ↔ Q a s := Iff.rfl

@[simp] theorem wp_throw (e : ε) : (throw e : Command σ ε α).wp Q E s ↔ E e s := Iff.rfl

@[simp] theorem wp_get {Q : σ → σ → Prop} : (get : Command σ ε σ).wp Q E s ↔ Q s s := Iff.rfl

@[simp] theorem wp_set {Q : PUnit → σ → Prop} (t : σ) :
    (set t : Command σ ε PUnit).wp Q E s ↔ Q ⟨⟩ t := Iff.rfl

@[simp] theorem wp_modify {Q : PUnit → σ → Prop} (f : σ → σ) :
    (modify f : Command σ ε PUnit).wp Q E s ↔ Q ⟨⟩ (f s) := Iff.rfl

theorem wp_attempt {r : Except ε α} (hok : ∀ a, r = .ok a → Q a s)
    (herror : ∀ e, r = .error e → E e s) : (attempt r : Command σ ε α).wp Q E s := by
  cases r with
  | ok a => exact hok a rfl
  | error e => exact herror e rfl

@[simp] theorem wp_bind {x : Command σ ε α} {f : α → Command σ ε β} {Q : β → σ → Prop} :
    (x >>= f).wp Q E s ↔ x.wp (fun a => (f a).wp Q E) E s := by
  unfold wp
  rw [exec_bind]
  rcases x.exec s with ⟨r | a, t⟩
  · rfl
  · rfl

/-- A loop: each turn takes what holds after the turns before it one further. -/
theorem wp_forM {l : List α} {f : α → Command σ ε PUnit} {I : List α → σ → Prop}
    (hstep : ∀ pre a post, l = pre ++ a :: post → ∀ t, I pre t →
      (f a).wp (fun _ => I (pre ++ [a])) E t) (hs : I [] s) :
    (l.forM f).wp (fun _ => I l) E s := by
  have hloop : ∀ rest pre t, l = pre ++ rest → I pre t → (rest.forM f).wp (fun _ => I l) E t := by
    intro rest
    induction rest with
    | nil =>
        intro pre t hl hpre
        rw [List.append_nil] at hl
        rw [hl]
        exact hpre
    | cons a rest ih =>
        intro pre t hl hpre
        rw [List.forM, wp_bind]
        refine wp_mono (hstep pre a rest hl t hpre) ?_ fun _ _ h => h
        intro _ t' h'
        refine ih (pre ++ [a]) t' ?_ h'
        rw [hl, List.append_assoc]
        rfl
  exact hloop l [] s rfl hs

@[simp] theorem wp_map {x : Command σ ε α} {f : α → β} {Q : β → σ → Prop} :
    (f <$> x).wp Q E s ↔ x.wp (fun a => Q (f a)) E s := by
  unfold wp
  rw [exec_map]
  rcases x.exec s with ⟨r | a, t⟩
  · rfl
  · rfl

/-- `try: x except: handler`. What `x` wrote before it raised stays. -/
theorem exec_tryCatch (x : Command σ ε α) (handler : ε → Command σ ε α) (s : σ) :
    (tryCatch x handler).exec s =
      match x.exec s with
      | (.ok a, t) => (.ok a, t)
      | (.error e, t) => (handler e).exec t := by
  show (ExceptT.tryCatch x handler).run.run s = _
  unfold ExceptT.tryCatch exec
  simp only [ExceptT.run, ExceptT.mk, StateT.run, bind, StateT.bind]
  rcases h : x s with ⟨r, t⟩
  cases r <;> rfl

@[simp] theorem wp_tryCatch {x : Command σ ε α} {handler : ε → Command σ ε α} :
    (tryCatch x handler).wp Q E s ↔ x.wp Q (fun e => (handler e).wp Q E) s := by
  unfold wp
  rw [exec_tryCatch]
  rcases x.exec s with ⟨r | a, t⟩
  · rfl
  · rfl

/-! ### Along a relation

`x.Along R s` says that however `x` ends from `s`, the state it leaves is
related to `s`. For a reflexive and transitive `R` it is enough that every
write is along `R`, whatever the command does with its values, so a frame
condition on a large method is read off its text. -/

def Along (R : σ → σ → Prop) (x : Command σ ε α) (s : σ) : Prop := R s (x.exec s).2

section Along

variable {R : σ → σ → Prop} {x : Command σ ε α} {f : α → Command σ ε β} {s : σ}

theorem Along.mono {R' : σ → σ → Prop} (h : x.Along R s) (hR : ∀ t, R s t → R' s t) :
    x.Along R' s :=
  hR _ h

theorem Along.get_bind {f : σ → Command σ ε β} (h : (f s).Along R s) :
    (get >>= f : Command σ ε β).Along R s := by
  unfold Along
  rw [exec_bind]
  exact h

theorem Along.modify {g : σ → σ} (h : R s (g s)) :
    (modify g : Command σ ε PUnit).Along R s := h

theorem Along.set {t : σ} (h : R s t) : (set t : Command σ ε PUnit).Along R s := h

theorem Along.map (hx : x.Along R s) (g : α → β) : (g <$> x).Along R s := by
  unfold Along at *
  rw [exec_map]
  rcases hx' : x.exec s with ⟨r | a, t⟩
  · rwa [hx'] at hx
  · rwa [hx'] at hx

variable [IsPreorder σ R]

theorem Along.pure (a : α) : (pure a : Command σ ε α).Along R s := refl s

theorem Along.throw (e : ε) : (throw e : Command σ ε α).Along R s := refl s

theorem Along.attempt (r : Except ε α) : (attempt r : Command σ ε α).Along R s := refl s

/-- The second command may use that the first returned its argument. -/
theorem Along.bind_of (hx : x.Along R s)
    (hf : ∀ a t, x.exec s = (.ok a, t) → (f a).Along R t) : (x >>= f).Along R s := by
  unfold Along at *
  rw [exec_bind]
  rcases hx' : x.exec s with ⟨r | a, t⟩
  · rwa [hx'] at hx
  · rw [hx'] at hx
    exact IsTrans.trans _ _ _ hx (hf a t hx')

theorem Along.bind (hx : x.Along R s) (hf : ∀ a t, (f a).Along R t) :
    (x >>= f).Along R s :=
  hx.bind_of fun a t _ => hf a t

theorem Along.tryCatch {handler : ε → Command σ ε α} (hx : x.Along R s)
    (hh : ∀ e t, (handler e).Along R t) : (tryCatch x handler).Along R s := by
  unfold Along at *
  rw [exec_tryCatch]
  rcases hx' : x.exec s with ⟨r | a, t⟩
  · rw [hx'] at hx
    exact IsTrans.trans _ _ _ hx (hh r t)
  · rwa [hx'] at hx

theorem Along.forM {l : List β} {g : β → Command σ ε PUnit} (hg : ∀ b t, (g b).Along R t) :
    (l.forM g : Command σ ε PUnit).Along R s := by
  induction l generalizing s with
  | nil => exact Along.pure _
  | cons b l ih =>
      show (g b >>= fun _ => l.forM g).Along R s
      exact (hg b s).bind fun _ _ => ih

end Along

end Command

end Hephaestus.Lib
