import Hephaestus.Automation.LearningJournal

/-!
# The journal protocol

Everything the protocol promises rests on one relation between a process
and the shared state (`Fits`): what the process's position in its call says
it holds, it does hold. A claim lock in hand means the process is not
registered as an owner (it could not have got the lock otherwise), an
owner's call that is past its checks means it still is, and a loaded record
is the stored one. The relation is local: a step of one process changes
nothing another process relies on (`Fits.frame`), so each step is checked
at the process that takes it.

The record itself changes at one kind of step only, the write of a section,
and `section_spec` says what a write can do to it. The safety statements
combine the two: who is at a write, with which section, and what it holds.

`attempts` counts commits of `pending -> claimed`. That is not the number
of claims that returned `True`: a process can die after the write and
before the return. The count is exact once the claims in that window, and
the ones that died in it, are added.
-/

namespace Hephaestus.Automation

open Hephaestus.Lib

variable {P V : Type} {isDict : V → Bool} {key : String}

/-! ## What a section does -/

section Writes

variable [DecidableEq V]

/-- Identity fields that are stored stay as they are. -/
def KeepsIdentity (d d' : Dict String V) : Prop :=
  ∀ field value, d.get? field = some value → d'.get? field = some value

theorem mergeIdentity_keeps {d d' : Dict String V} {changed changed' : Bool}
    {fields : List (String × V)}
    (h : mergeIdentity d changed fields = .ok (d', changed')) : KeepsIdentity d d' := by
  induction fields generalizing d changed with
  | nil =>
      obtain ⟨rfl, rfl⟩ := Prod.mk.inj (Except.ok.inj h)
      exact fun _ _ hv => hv
  | cons item rest ih =>
      obtain ⟨field, value⟩ := item
      rw [mergeIdentity] at h
      split at h
      · split at h
        · cases h
        · exact ih h
      · next hnone =>
          intro f v hv
          refine ih h f v ?_
          by_cases hf : field = f
          · rw [hf, hv] at hnone
            cases hnone
          · rw [Dict.get?_set_ne d value hf, hv]

/-- How a section may change the status of a record it rewrites. -/
inductive StatusChange (op : JournalOp V) (r r' : LearningRecord V) : Prop
  | same (h : r'.status = r.status)
  | claimed (now : String) (hop : op = .claim now) (h : r.status = .pending)
      (h' : r'.status = .claimed)
  | owner (hop : op.lockUse = .owner) (h : r.status = .claimed)
  | resumed (fingerprint now : String) (hop : op = .resumeDeferred fingerprint now)
      (h : r.status = .deferred) (hne : r.candidateEvidence ≠ some fingerprint)
      (h' : r'.status = .pending)
  | failed (hop : (∃ now, op = .disable now) ∨ ∃ e now, op = .failAbandonedClaim e now)
      (h : r.status = .pending ∨ r.status = .claimed) (h' : r'.status = .failed)

/-- What a write does to a record that was there. -/
structure Rewrites (op : JournalOp V) (reply : JournalReply V)
    (r r' : LearningRecord V) : Prop where
  key : r'.key = r.key
  kind : r'.kind = r.kind
  identity : KeepsIdentity r.identity r'.identity
  attempts : r'.attempts = r.attempts + if reply.keepsLock then 1 else 0
  status : StatusChange op r r'

theorem ensurePendingSection_spec {kind now : String} {identity : Dict String V}
    {r r' : LearningRecord V} {op : JournalOp V}
    (h : (ensurePendingSection isDict key kind identity now (some r)).1 = some r') :
    Rewrites op (ensurePendingSection isDict key kind identity now (some r)).2 r r' := by
  simp only [ensurePendingSection] at h ⊢
  split at h
  · cases h
  · next hkind =>
      rw [if_neg hkind]
      split at h
      · cases h
      · next merged changed hmerge =>
          split at h
          · next hwrites =>
              obtain rfl := Option.some.inj h
              simp only [hwrites, if_true]
              exact ⟨rfl, rfl, mergeIdentity_keeps hmerge, rfl, .same rfl⟩
          · cases h

/-- A section that creates the record: only `ensure_pending` has one. -/
theorem section_create {op : JournalOp V} {r' : LearningRecord V}
    (h : (op.body isDict key none).1 = some r') :
    r'.key = key ∧ r'.status = .pending ∧ r'.attempts = 0 ∧
      (op.body isDict key none).2.keepsLock = false := by
  cases op with
  | ensurePending kind identity now =>
      obtain rfl := Option.some.inj h
      exact ⟨rfl, rfl, rfl, rfl⟩
  | _ => cases h

omit [DecidableEq V] in
theorem ownerSection_spec {op : JournalOp V} (hop : op.lockUse = .owner)
    {change : LearningRecord V → LearningRecord V} {r r' : LearningRecord V}
    (hkey : (change r).key = r.key) (hkind : (change r).kind = r.kind)
    (hid : (change r).identity = r.identity) (hatt : (change r).attempts = r.attempts)
    (h : (ownerSection key change (some r)).1 = some r') :
    Rewrites op (ownerSection key change (some r)).2 r r' := by
  simp only [ownerSection, requireClaimed] at h ⊢
  by_cases hst : r.status = .claimed
  · simp only [hst, ne_eq, not_true, if_false] at h ⊢
    obtain rfl := Option.some.inj h
    refine ⟨hkey, hkind, ?_, hatt, .owner hop hst⟩
    rw [hid]
    exact fun _ _ hv => hv
  · simp only [ne_eq, hst, not_false_iff, if_true] at h
    cases h

/-- **What a write does to a record that was there.** -/
theorem section_spec {op : JournalOp V} {r r' : LearningRecord V}
    (h : (op.body isDict key (some r)).1 = some r') :
    Rewrites op (op.body isDict key (some r)).2 r r' := by
  have hsame : KeepsIdentity r.identity r.identity := fun _ _ hv => hv
  simp only [JournalOp.body] at h ⊢
  split at h
  · cases h
  · next loaded hload =>
      obtain rfl : loaded = some r := by
        simp only [loadRecord] at hload
        split at hload
        · exact (Except.ok.inj hload).symm
        · cases hload
      cases op with
      | ensurePending kind identity now => exact ensurePendingSection_spec h
      | claim now =>
          simp only [claimSection] at h ⊢
          split at h
          · cases h
          · next hst =>
              obtain rfl := Option.some.inj h
              rw [if_neg hst]
              exact ⟨rfl, rfl, hsame, rfl, .claimed now rfl (not_not.mp hst) rfl⟩
      | claimIsActive => cases h
      | finish succeeded error summary now =>
          refine ownerSection_spec rfl ?_ ?_ ?_ ?_ h <;> simp only [finishRecord] <;>
            split <;> split <;> rfl
      | defer error now => exact ownerSection_spec rfl rfl rfl rfl rfl h
      | retry error now => exact ownerSection_spec rfl rfl rfl rfl rfl h
      | resumeDeferred fingerprint now =>
          simp only [resumeDeferredSection] at h ⊢
          split at h
          · cases h
          · next hst =>
              obtain rfl := Option.some.inj h
              rw [if_neg hst]
              rw [not_or, not_not] at hst
              exact ⟨rfl, rfl, hsame, rfl, .resumed fingerprint now rfl hst.1 hst.2 rfl⟩
      | disable now =>
          simp only [disableSection] at h ⊢
          split at h
          · cases h
          · next hst =>
              obtain rfl := Option.some.inj h
              rw [if_neg hst]
              rw [not_and_or, not_not, not_not] at hst
              exact ⟨rfl, rfl, hsame, rfl, .failed (.inl ⟨now, rfl⟩) hst rfl⟩
      | failAbandonedClaim error now =>
          simp only [failAbandonedSection] at h ⊢
          split at h
          · cases h
          · next hst =>
              obtain rfl := Option.some.inj h
              rw [if_neg hst]
              exact ⟨rfl, rfl, hsame, rfl,
                .failed (.inr ⟨error, now, rfl⟩) (.inr (not_not.mp hst)) rfl⟩
      | finishCleanup succeeded error now =>
          simp only [finishCleanupSection] at h ⊢
          split at h
          · cases h
          · next hpp =>
              rw [if_neg hpp]
              split at h
              · cases h
              · next hst =>
                  obtain rfl := Option.some.inj h
                  rw [if_neg hst]
                  exact ⟨rfl, rfl, hsame, rfl, .same rfl⟩

/-- A reply that keeps the claim lock is that of a claim that wrote. -/
theorem section_keepsLock {op : JournalOp V} {stored : Option (LearningRecord V)}
    (h : (op.body isDict key stored).2.keepsLock = true) :
    op.lockUse = .claiming ∧ ∃ r', (op.body isDict key stored).1 = some r' := by
  simp only [JournalOp.body] at h ⊢
  split at h
  · cases h
  · next loaded hload =>
      cases op with
      | claim now =>
          refine ⟨rfl, ?_⟩
          cases loaded with
          | none => cases h
          | some r =>
              simp only [claimSection] at h ⊢
              split at h
              · cases h
              · next hst => exact ⟨_, by rw [if_neg hst]⟩
      | ensurePending kind identity now =>
          cases loaded with
          | none => cases h
          | some r =>
              simp only [ensurePendingSection] at h
              split at h
              · cases h
              · split at h
                · cases h
                · split at h <;> cases h
      | finish | defer | retry =>
          simp only [ownerSection] at h
          split at h <;> cases h
      | resumeDeferred | disable | failAbandonedClaim | finishCleanup =>
          cases loaded with
          | none => cases h
          | some r =>
              simp only [resumeDeferredSection, disableSection, failAbandonedSection,
                finishCleanupSection] at h
              repeat' split at h
              all_goals cases h
      | claimIsActive => cases h

end Writes

/-! ## What a position in a call says -/

namespace JournalPc

/-- The call, from its first wait for the record lock on. -/
def inside {V : Type} : JournalPc V → Option (JournalOp V)
  | .locking op | .locked op | .loaded op _ | .written op _ | .unlocked op _ => some op
  | _ => none

/-- The call itself holds the claim lock. -/
def holdsClaim {V : Type} : JournalPc V → Bool
  | .probing => true
  | c => c.inside.any fun op => op.lockUse = .claiming

def holdsRecord {V : Type} : JournalPc V → Bool
  | .locked _ | .loaded _ _ | .written _ _ => true
  | _ => false

/-- An owner's call past its unlocked checks. -/
def ownerBusy {V : Type} (c : JournalPc V) : Bool :=
  c.inside.any fun op => op.lockUse = .owner

/-- A claim that has written and not yet returned. -/
def wonClaim {V : Type} : JournalPc V → Bool
  | .written _ reply | .unlocked _ reply => reply.keepsLock
  | _ => false

end JournalPc

/-- What a process's position says it holds, it holds. -/
structure Fits (stored : Option (LearningRecord V)) (recordLock claimLock : Option P)
    (q : P) (c : JournalPc V) (reg : Bool) : Prop where
  claim : c.holdsClaim = true → claimLock = some q ∧ reg = false
  registered : reg = true → claimLock = some q
  record : c.holdsRecord = true → recordLock = some q
  loaded : ∀ op r, c = .loaded op r → stored = r
  owner : c.ownerBusy = true → reg = true
  won : c.wonClaim = true → c.holdsClaim = true
  checking : ∀ op, c = .checking op → op.lockUse = .owner
  claiming : ∀ op, c = .claiming op → op.lockUse = .claiming ∨ op.lockUse = .probe

def JournalSystem.Coherent (s : JournalSystem P V) : Prop :=
  ∀ q, Fits s.stored s.recordLock s.claimLock q (s.pc q) (s.registered q)

/-- A step of another process keeps the locks this one holds, and the
record while it holds the record lock. -/
theorem Fits.frame {stored stored' : Option (LearningRecord V)}
    {rl rl' cl cl' : Option P} {q : P} {c : JournalPc V} {reg : Bool}
    (h : Fits stored rl cl q c reg) (hc : cl = some q → cl' = some q)
    (hr : rl = some q → rl' = some q) (hs : rl = some q → stored' = stored) :
    Fits stored' rl' cl' q c reg where
  claim hh := ⟨hc (h.claim hh).1, (h.claim hh).2⟩
  registered hh := hc (h.registered hh)
  record hh := hr (h.record hh)
  loaded op r hl := by
    rw [hs (h.record (by rw [hl]; rfl))]
    exact h.loaded op r hl
  owner := h.owner
  won := h.won
  checking := h.checking
  claiming := h.claiming

/-- Checking a step: everything at the process that took it, the frame
conditions for the rest. -/
theorem JournalSystem.Coherent.moved {s t : JournalSystem P V} (h : s.Coherent) (p : P)
    (hpc : ∀ q, q ≠ p → t.pc q = s.pc q ∧ t.registered q = s.registered q)
    (hc : ∀ q, q ≠ p → s.claimLock = some q → t.claimLock = some q)
    (hr : ∀ q, q ≠ p → s.recordLock = some q → t.recordLock = some q)
    (hs : ∀ q, q ≠ p → s.recordLock = some q → t.stored = s.stored)
    (hp : Fits t.stored t.recordLock t.claimLock p (t.pc p) (t.registered p)) :
    t.Coherent := by
  intro q
  by_cases hq : q = p
  · rw [hq]
    exact hp
  · rw [(hpc q hq).1, (hpc q hq).2]
    exact (h q).frame (hc q hq) (hr q hq) (hs q hq)

namespace JournalSystem

variable [DecidableEq P]

@[simp] theorem goto_pc_self (s : JournalSystem P V) (p : P) (c : JournalPc V) :
    (s.goto p c).pc p = c := Function.update_self _ _ _

theorem goto_pc_ne (s : JournalSystem P V) {p q : P} (c : JournalPc V) (h : q ≠ p) :
    (s.goto p c).pc q = s.pc q := Function.update_of_ne h _ _

@[simp] theorem register_self (s : JournalSystem P V) (p : P) (b : Bool) :
    (s.register p b).registered p = b := Function.update_self _ _ _

theorem register_ne (s : JournalSystem P V) {p q : P} (b : Bool) (h : q ≠ p) :
    (s.register p b).registered q = s.registered q := Function.update_of_ne h _ _

/-- A process that only moves on, holding what it held. -/
theorem Coherent.goto {s : JournalSystem P V} (h : s.Coherent) {p : P} {c : JournalPc V}
    (hp : Fits s.stored s.recordLock s.claimLock p c (s.registered p)) :
    (s.goto p c).Coherent := by
  refine h.moved p (fun q hq => ⟨goto_pc_ne s c hq, rfl⟩) (fun _ _ hh => hh)
    (fun _ _ hh => hh) (fun _ _ _ => rfl) ?_
  rw [goto_pc_self]
  exact hp

omit [DecidableEq P] in
/-- A process that is not inside a call holds nothing but its claim. -/
theorem fits_outside {s : JournalSystem P V} (h : s.Coherent) (p : P) {c : JournalPc V}
    (hin : c.inside = none) (hprobe : c ≠ .probing)
    (hchecking : ∀ op, c = .checking op → op.lockUse = .owner)
    (hclaiming : ∀ op, c = .claiming op → op.lockUse = .claiming ∨ op.lockUse = .probe) :
    Fits s.stored s.recordLock s.claimLock p c (s.registered p) := by
  cases c with
  | idle | checking op | claiming op =>
      exact ⟨fun hh => (by cases hh), (h p).registered, fun hh => (by cases hh),
        fun _ _ hh => (by cases hh), fun hh => (by cases hh), fun hh => (by cases hh),
        hchecking, hclaiming⟩
  | probing => exact absurd rfl hprobe
  | locking | locked | loaded | written | unlocked => cases hin

omit [DecidableEq P] in
theorem fits_idle {s : JournalSystem P V} (h : s.Coherent) (p : P) :
    Fits s.stored s.recordLock s.claimLock p .idle (s.registered p) :=
  fits_outside h p rfl (by simp) (by simp) (by simp)

/-- Giving up a call, with nothing held. -/
theorem Coherent.goto_idle {s : JournalSystem P V} (h : s.Coherent) (p : P) :
    (s.goto p .idle).Coherent := h.goto (fits_idle h p)

end JournalSystem

theorem JournalPc.holdsClaim_inside {c : JournalPc V} {op : JournalOp V}
    (h : c.inside = some op) : c.holdsClaim = decide (op.lockUse = .claiming) := by
  cases c with
  | idle | checking | claiming | probing => cases h
  | locking | locked | loaded | written | unlocked =>
      obtain rfl := Option.some.inj h
      rfl

theorem JournalPc.ownerBusy_inside {c : JournalPc V} {op : JournalOp V}
    (h : c.inside = some op) : c.ownerBusy = decide (op.lockUse = .owner) := by
  rw [JournalPc.ownerBusy, h]
  rfl

/-- From one position inside a call to the next: the claim lock and the
registry are as they were. -/
theorem Fits.within {stored stored' : Option (LearningRecord V)} {rl rl' cl : Option P}
    {q : P} {c c' : JournalPc V} {reg : Bool} {op : JournalOp V}
    (h : Fits stored rl cl q c reg) (hc : c.inside = some op) (hc' : c'.inside = some op)
    (hrecord : c'.holdsRecord = true → rl' = some q)
    (hloaded : ∀ op r, c' = .loaded op r → stored' = r)
    (hwon : c'.wonClaim = true → op.lockUse = .claiming) :
    Fits stored' rl' cl q c' reg where
  claim hh := h.claim (by rwa [JournalPc.holdsClaim_inside hc, ← JournalPc.holdsClaim_inside hc'])
  registered := h.registered
  record := hrecord
  loaded := hloaded
  owner hh := h.owner (by rwa [JournalPc.ownerBusy_inside hc, ← JournalPc.ownerBusy_inside hc'])
  won hh := by
    rw [JournalPc.holdsClaim_inside hc']
    exact decide_eq_true (hwon hh)
  checking op' hh := by
    rw [hh] at hc'
    cases hc'
  claiming op' hh := by
    rw [hh] at hc'
    cases hc'

namespace JournalSystem

variable [DecidableEq P]

/-! ## One step -/

theorem Coherent.start {s : JournalSystem P V} (h : s.Coherent) (p : P)
    (op : JournalOp V) : (s.start key p op).1.Coherent := by
  unfold JournalSystem.start
  split
  · exact h
  · split
    · next hplain =>
        refine h.goto ⟨?_, (h p).registered, ?_, ?_, ?_, ?_, ?_, ?_⟩
        · simp [JournalPc.holdsClaim, JournalPc.inside, hplain]
        · simp [JournalPc.holdsRecord]
        · simp
        · simp [JournalPc.ownerBusy, JournalPc.inside, hplain]
        · simp [JournalPc.wonClaim]
        · simp
        · simp
    · next howner => exact h.goto (fits_outside h p rfl (by simp) (by simpa using howner) (by simp))
    · next hclaim =>
        exact h.goto (fits_outside h p rfl (by simp) (by simp) (by simp [hclaim]))
    · next hprobe =>
        exact h.goto (fits_outside h p rfl (by simp) (by simp) (by simp [hprobe]))

theorem Coherent.check {s : JournalSystem P V} (h : s.Coherent) {p : P}
    {op : JournalOp V} (hpc : s.pc p = .checking op) :
    (s.check isDict key p op).1.Coherent := by
  have howner : op.lockUse = .owner := (h p).checking op hpc
  unfold JournalSystem.check
  split
  · exact h.goto_idle p
  · split
    · next hreg =>
        refine h.goto ⟨?_, (h p).registered, ?_, ?_, fun _ => hreg, ?_, ?_, ?_⟩
        · simp [JournalPc.holdsClaim, JournalPc.inside, howner]
        · simp [JournalPc.holdsRecord]
        · simp
        · simp [JournalPc.wonClaim]
        · simp
        · simp
    · exact h.goto_idle p

theorem Coherent.tryClaimLock {s : JournalSystem P V} (h : s.Coherent) {p : P}
    {op : JournalOp V} (hpc : s.pc p = .claiming op) :
    (s.tryClaimLock p op).1.Coherent := by
  unfold JournalSystem.tryClaimLock
  split
  · next hfree =>
      -- The lock was free, so nobody is registered, this process included.
      have hreg : s.registered p = false := by
        cases hr : s.registered p with
        | false => rfl
        | true =>
            have := (h p).registered hr
            rw [hfree] at this
            cases this
      refine h.moved p (fun q hq => ⟨goto_pc_ne _ _ hq, rfl⟩) ?_ (fun _ _ hh => hh)
        (fun _ _ _ => rfl) ?_
      · intro q _ hq
        rw [hfree] at hq
        cases hq
      · rw [goto_pc_self]
        by_cases hprobe : op.lockUse = .probe
        · rw [if_pos hprobe]
          exact ⟨fun _ => ⟨rfl, hreg⟩, fun _ => rfl, by simp [JournalPc.holdsRecord], by simp,
            by simp [JournalPc.ownerBusy, JournalPc.inside],
            by simp [JournalPc.wonClaim], by simp, by simp⟩
        · rw [if_neg hprobe]
          have hclaiming : op.lockUse = .claiming :=
            ((h p).claiming op hpc).resolve_right hprobe
          exact ⟨fun _ => ⟨rfl, hreg⟩, fun _ => rfl, by simp [JournalPc.holdsRecord], by simp,
            by simp [JournalPc.ownerBusy, JournalPc.inside, hclaiming],
            by simp [JournalPc.wonClaim], by simp, by simp⟩
  · exact h.goto_idle p

omit [DecidableEq P] in
/-- The holder of the claim lock gives it back and is idle. -/
theorem Coherent.released {s t : JournalSystem P V} (h : s.Coherent) {p : P}
    (hheld : s.claimLock = some p) (hreg : t.registered p = false) (hidle : t.pc p = .idle)
    (hpc : ∀ q, q ≠ p → t.pc q = s.pc q ∧ t.registered q = s.registered q)
    (hr : t.recordLock = s.recordLock) (hs : t.stored = s.stored) : t.Coherent := by
  refine h.moved p hpc ?_ (fun _ _ hh => hr.trans hh) (fun _ _ _ => hs) ?_
  · intro q hq hh
    exact absurd (Option.some.inj (hh.symm.trans hheld)) hq
  · rw [hidle, hreg]
    exact ⟨by simp [JournalPc.holdsClaim, JournalPc.inside], by simp,
      by simp [JournalPc.holdsRecord], by simp, by simp [JournalPc.ownerBusy, JournalPc.inside],
      by simp [JournalPc.wonClaim], by simp, by simp⟩

theorem Coherent.finishCall {s : JournalSystem P V} (h : s.Coherent) {p : P}
    {op : JournalOp V} {reply : JournalReply V} (hpc : s.pc p = .unlocked op reply) :
    (s.finishCall p op reply).1.Coherent := by
  have hin : (s.pc p).inside = some op := by rw [hpc]; rfl
  unfold JournalSystem.finishCall
  split
  · next howner =>
      split
      · have hreg : s.registered p = true :=
          (h p).owner (by rw [JournalPc.ownerBusy_inside hin]; exact decide_eq_true howner)
        refine h.released ((h p).registered hreg) (register_self _ _ _) (goto_pc_self _ _ _)
          (fun q hq => ⟨goto_pc_ne _ _ hq, register_ne _ _ hq⟩) rfl rfl
      · exact h.goto_idle p
  · next hclaiming =>
      obtain ⟨hheld, hreg⟩ := (h p).claim
        (by rw [JournalPc.holdsClaim_inside hin]; exact decide_eq_true hclaiming)
      split
      · refine h.moved p (fun q hq => ⟨goto_pc_ne _ _ hq, register_ne _ _ hq⟩)
          (fun _ _ hh => hh) (fun _ _ hh => hh) (fun _ _ _ => rfl) ?_
        rw [goto_pc_self]
        exact ⟨by simp [JournalPc.holdsClaim, JournalPc.inside], fun _ => hheld,
          by simp [JournalPc.holdsRecord], by simp,
          by simp [JournalPc.ownerBusy, JournalPc.inside], by simp [JournalPc.wonClaim],
          by simp, by simp⟩
      · exact h.released hheld hreg (goto_pc_self _ _ _)
          (fun q hq => ⟨goto_pc_ne _ _ hq, rfl⟩) rfl rfl
  · exact h.goto_idle p

theorem Coherent.crash {s : JournalSystem P V} (h : s.Coherent) (p : P) :
    (s.crash p).Coherent := by
  refine h.moved p (fun q hq => ⟨goto_pc_ne _ _ hq, register_ne _ _ hq⟩) ?_ ?_
    (fun _ _ _ => rfl) ?_
  · intro q hq hh
    simp [JournalSystem.crash, hh, hq]
  · intro q hq hh
    simp [JournalSystem.crash, hh, hq]
  · simp only [JournalSystem.crash, goto_pc_self]
    exact ⟨by simp [JournalPc.holdsClaim, JournalPc.inside],
      by simp [JournalSystem.goto, JournalSystem.register],
      by simp [JournalPc.holdsRecord], by simp, by simp [JournalPc.ownerBusy, JournalPc.inside],
      by simp [JournalPc.wonClaim], by simp, by simp⟩

section Advance

variable [DecidableEq V]

theorem Coherent.advance {s t : JournalSystem P V} {p : P}
    {reply : Option (JournalReply V)} (h : s.Coherent)
    (hs : s.advance isDict key p = some (t, reply)) : t.Coherent := by
  unfold JournalSystem.advance at hs
  split at hs
  · cases hs
  · next op hpc =>
      obtain rfl : _ = t := congrArg Prod.fst (Option.some.inj hs)
      exact h.check hpc
  · next op hpc =>
      obtain rfl : _ = t := congrArg Prod.fst (Option.some.inj hs)
      exact h.tryClaimLock hpc
  · next hpc =>
      obtain ⟨rfl, _⟩ := Prod.mk.inj (Option.some.inj hs)
      obtain ⟨hheld, hreg⟩ := (h p).claim (by rw [hpc]; rfl)
      exact h.released hheld hreg (goto_pc_self _ _ _)
        (fun q hq => ⟨goto_pc_ne _ _ hq, rfl⟩) rfl rfl
  · next op hpc =>
      split at hs
      · next hfree =>
          obtain ⟨rfl, _⟩ := Prod.mk.inj (Option.some.inj hs)
          refine h.moved p (fun q hq => ⟨goto_pc_ne _ _ hq, rfl⟩) (fun _ _ hh => hh) ?_
            (fun _ _ _ => rfl) ?_
          · intro q _ hq
            rw [hfree] at hq
            cases hq
          · rw [goto_pc_self]
            exact (h p).within (by rw [hpc]; rfl) rfl (fun _ => rfl) (by simp)
              (by simp [JournalPc.wonClaim])
      · cases hs
  · next op hpc =>
      obtain ⟨rfl, _⟩ := Prod.mk.inj (Option.some.inj hs)
      have hheld : s.recordLock = some p := (h p).record (by rw [hpc]; rfl)
      refine h.goto ((h p).within (by rw [hpc]; rfl) rfl (fun _ => hheld) ?_
        (by simp [JournalPc.wonClaim]))
      intro op' r hr
      exact (JournalPc.loaded.inj hr).2
  · next op stored hpc =>
      obtain ⟨rfl, _⟩ := Prod.mk.inj (Option.some.inj hs)
      have hheld : s.recordLock = some p := (h p).record (by rw [hpc]; rfl)
      refine h.moved p (fun q hq => ⟨goto_pc_ne _ _ hq, rfl⟩) (fun _ _ hh => hh)
        (fun _ _ hh => hh) ?_ ?_
      · intro q hq hh
        exact absurd (Option.some.inj (hh.symm.trans hheld)) hq
      · rw [goto_pc_self]
        exact (h p).within (by rw [hpc]; rfl) rfl (fun _ => hheld) (by simp)
          (fun hwon => (section_keepsLock hwon).1)
  · next op r hpc =>
      obtain ⟨rfl, _⟩ := Prod.mk.inj (Option.some.inj hs)
      have hheld : s.recordLock = some p := (h p).record (by rw [hpc]; rfl)
      refine h.moved p (fun q hq => ⟨goto_pc_ne _ _ hq, rfl⟩) (fun _ _ hh => hh) ?_
        (fun _ _ _ => rfl) ?_
      · intro q hq hh
        exact absurd (Option.some.inj (hh.symm.trans hheld)) hq
      · rw [goto_pc_self]
        have hin : (s.pc p).inside = some op := by rw [hpc]; rfl
        refine (h p).within hin rfl (by simp [JournalPc.holdsRecord]) (by simp) ?_
        intro hwon
        have hclaim := (h p).won (by rw [hpc]; exact hwon)
        rw [JournalPc.holdsClaim_inside hin] at hclaim
        exact of_decide_eq_true hclaim
  · next op r hpc =>
      obtain rfl : _ = t := congrArg Prod.fst (Option.some.inj hs)
      exact h.finishCall hpc

theorem Coherent.step {s t : JournalSystem P V} {e : JournalEvent P V} (h : s.Coherent)
    (hs : s.step isDict key e = some t) : t.Coherent := by
  obtain ⟨⟨t', reply⟩, hr, rfl⟩ := Option.map_eq_some_iff.mp hs
  cases e with
  | start p op =>
      simp only [JournalSystem.respond] at hr
      split at hr
      · obtain rfl : _ = t' := congrArg Prod.fst (Option.some.inj hr)
        exact h.start p op
      · cases hr
  | advance p => exact h.advance hr
  | crash p =>
      obtain ⟨rfl, _⟩ := Prod.mk.inj (Option.some.inj hr)
      exact h.crash p

omit [DecidableEq P] [DecidableEq V] in
theorem Coherent.init : ({} : JournalSystem P V).Coherent := fun p =>
  ⟨fun hh => (by cases hh), fun hh => (by cases hh), fun hh => (by cases hh),
    fun _ _ hh => (by cases hh), fun hh => (by cases hh), fun hh => (by cases hh),
    fun _ hh => (by cases hh), fun _ hh => (by cases hh)⟩

/-- What an action of `p` does to the record and to the count of claims in
their window. The others it leaves where they are. -/
inductive Effect (isDict : V → Bool) (key : String) (s t : JournalSystem P V) (p : P)
    (reply : Option (JournalReply V)) : Prop
  | quiet (hstored : t.stored = s.stored)
      (hwon : (t.pc p).wonClaim = (s.pc p).wonClaim) (hreply : reply ≠ some (.won true))
  | wrote (op : JournalOp V) (loaded : Option (LearningRecord V))
      (hpc : s.pc p = .loaded op loaded)
      (hstored : t.stored = (op.body isDict key loaded).1.or s.stored)
      (hwon : (t.pc p).wonClaim = (op.body isDict key loaded).2.keepsLock)
      (hreply : reply = none)
  | returned (hstored : t.stored = s.stored) (hbefore : (s.pc p).wonClaim = true)
      (hafter : (t.pc p).wonClaim = false) (hreply : reply = some (.won true))

omit [DecidableEq V] in
theorem finishCall_facts (s : JournalSystem P V) (p : P) (op : JournalOp V)
    (reply : JournalReply V) :
    (s.finishCall p op reply).2 = some reply ∧
      (s.finishCall p op reply).1.stored = s.stored ∧
      (s.finishCall p op reply).1.pc = (s.goto p .idle).pc := by
  unfold JournalSystem.finishCall
  split
  · split <;> exact ⟨rfl, rfl, rfl⟩
  · split <;> exact ⟨rfl, rfl, rfl⟩
  · exact ⟨rfl, rfl, rfl⟩

omit [DecidableEq P] [DecidableEq V] in
theorem keepsLock_iff {reply : JournalReply V} : reply.keepsLock = true ↔ reply = .won true := by
  cases reply with
  | won b => cases b <;> simp [JournalReply.keepsLock]
  | _ => simp [JournalReply.keepsLock]

theorem advance_effect {s t : JournalSystem P V} {p : P}
    {reply : Option (JournalReply V)} (hs : s.advance isDict key p = some (t, reply)) :
    (∀ q, q ≠ p → t.pc q = s.pc q) ∧ Effect isDict key s t p reply := by
  unfold JournalSystem.advance at hs
  split at hs
  · cases hs
  · next op hpc =>
      have hx := Option.some.inj hs
      unfold JournalSystem.check at hx
      split at hx
      · obtain ⟨rfl, rfl⟩ := Prod.mk.inj hx
        exact ⟨fun q hq => goto_pc_ne _ _ hq, .quiet rfl (by simp [hpc, JournalPc.wonClaim]) (by simp)⟩
      · split at hx <;> obtain ⟨rfl, rfl⟩ := Prod.mk.inj hx
        · exact ⟨fun q hq => goto_pc_ne _ _ hq, .quiet rfl (by simp [hpc, JournalPc.wonClaim]) (by simp)⟩
        · exact ⟨fun q hq => goto_pc_ne _ _ hq, .quiet rfl (by simp [hpc, JournalPc.wonClaim]) (by simp)⟩
  · next op hpc =>
      have hx := Option.some.inj hs
      unfold JournalSystem.tryClaimLock at hx
      split at hx <;> obtain ⟨rfl, rfl⟩ := Prod.mk.inj hx
      · refine ⟨fun q hq => goto_pc_ne _ _ hq, .quiet rfl ?_ (by simp)⟩
        rw [goto_pc_self, hpc]
        split <;> rfl
      · refine ⟨fun q hq => goto_pc_ne _ _ hq, .quiet rfl (by simp [hpc, JournalPc.wonClaim]) ?_⟩
        split <;> simp
  · next hpc =>
      obtain ⟨rfl, rfl⟩ := Prod.mk.inj (Option.some.inj hs)
      exact ⟨fun q hq => goto_pc_ne _ _ hq, .quiet rfl (by simp [hpc, JournalPc.wonClaim]) (by simp)⟩
  · next op hpc =>
      split at hs
      · obtain ⟨rfl, rfl⟩ := Prod.mk.inj (Option.some.inj hs)
        exact ⟨fun q hq => goto_pc_ne _ _ hq, .quiet rfl (by simp [hpc, JournalPc.wonClaim]) (by simp)⟩
      · cases hs
  · next op hpc =>
      obtain ⟨rfl, rfl⟩ := Prod.mk.inj (Option.some.inj hs)
      exact ⟨fun q hq => goto_pc_ne _ _ hq, .quiet rfl (by simp [hpc, JournalPc.wonClaim]) (by simp)⟩
  · next op loaded hpc =>
      obtain ⟨rfl, rfl⟩ := Prod.mk.inj (Option.some.inj hs)
      refine ⟨fun q hq => goto_pc_ne _ _ hq, .wrote op loaded hpc rfl ?_ rfl⟩
      rw [goto_pc_self]
      rfl
  · next op r hpc =>
      obtain ⟨rfl, rfl⟩ := Prod.mk.inj (Option.some.inj hs)
      exact ⟨fun q hq => goto_pc_ne _ _ hq, .quiet rfl (by simp [hpc, JournalPc.wonClaim]) (by simp)⟩
  · next op r hpc =>
      have ht : _ = t := congrArg Prod.fst (Option.some.inj hs)
      have hreply : _ = reply := congrArg Prod.snd (Option.some.inj hs)
      obtain ⟨hr, hst, hpcs⟩ := finishCall_facts s p op r
      rw [hr] at hreply
      rw [ht] at hst hpcs
      have hidle : t.pc p = .idle := by
        rw [hpcs]
        exact goto_pc_self _ _ _
      refine ⟨fun q hq => ?_, ?_⟩
      · rw [hpcs]
        exact goto_pc_ne _ _ hq
      · cases hk : r.keepsLock with
        | true =>
            refine .returned hst (by rw [hpc]; exact hk) (by rw [hidle]; rfl) ?_
            rw [← hreply, keepsLock_iff.mp hk]
        | false =>
            refine .quiet hst (by rw [hidle, hpc]; exact hk.symm) ?_
            rintro rfl
            rw [Option.some.inj hreply] at hk
            cases hk

end Advance

/-! ## Owners and the window of a claim -/

/-- A process whose claim won and is still on: it is registered, or about
to be. -/
def Owner (s : JournalSystem P V) (p : P) : Prop :=
  s.registered p = true ∨ (s.pc p).wonClaim = true

omit [DecidableEq P] in
theorem Owner.holdsLock {s : JournalSystem P V} {p : P} (h : s.Coherent) (ho : s.Owner p) :
    s.claimLock = some p := by
  rcases ho with hreg | hwon
  · exact (h p).registered hreg
  · exact ((h p).claim ((h p).won hwon)).1

/-- How many claims have written and not returned: one at most, and then
the one that holds the claim lock. -/
def window (s : JournalSystem P V) : Nat :=
  match s.claimLock with
  | some p => if (s.pc p).wonClaim then 1 else 0
  | none => 0

omit [DecidableEq P] in
theorem window_of_won {s : JournalSystem P V} {p : P} (h : s.Coherent)
    (hwon : (s.pc p).wonClaim = true) : s.window = 1 := by
  rw [window, Owner.holdsLock h (.inr hwon)]
  exact if_pos hwon

omit [DecidableEq P] in
theorem window_of_none {s : JournalSystem P V} (h : ∀ p, (s.pc p).wonClaim = false) :
    s.window = 0 := by
  unfold window
  split
  · next p _ => rw [h p]; rfl
  · rfl

omit [DecidableEq P] in
/-- The window opens and closes with the position of the one process that
moved. -/
theorem window_moved {s t : JournalSystem P V} {p : P} (hs : s.Coherent) (ht : t.Coherent)
    (hothers : ∀ q, q ≠ p → t.pc q = s.pc q) :
    t.window + (if (s.pc p).wonClaim then 1 else 0) =
      s.window + if (t.pc p).wonClaim then 1 else 0 := by
  by_cases hex : ∃ q, q ≠ p ∧ (s.pc q).wonClaim = true
  · obtain ⟨q, hq, hwon⟩ := hex
    have hwon' : (t.pc q).wonClaim = true := by rw [hothers q hq, hwon]
    -- Another process has the claim lock, so this one is not in its window.
    have hnot : ∀ u : JournalSystem P V, u.Coherent → (u.pc q).wonClaim = true →
        (u.pc p).wonClaim = false := by
      intro u hu hqw
      cases hpw : (u.pc p).wonClaim with
      | false => rfl
      | true =>
          have hsame := (Owner.holdsLock hu (.inr hqw)).symm.trans
            (Owner.holdsLock hu (.inr hpw))
          exact absurd (Option.some.inj hsame) hq
    rw [window_of_won hs hwon, window_of_won ht hwon', hnot s hs hwon, hnot t ht hwon']
  · have hnone : ∀ q, q ≠ p → (s.pc q).wonClaim = false := by
      intro q hq
      cases hw : (s.pc q).wonClaim with
      | false => rfl
      | true => exact absurd ⟨q, hq, hw⟩ hex
    have hcount : ∀ u : JournalSystem P V, u.Coherent →
        (∀ q, q ≠ p → (u.pc q).wonClaim = false) →
        u.window = if (u.pc p).wonClaim then 1 else 0 := by
      intro u hu hall
      cases hw : (u.pc p).wonClaim with
      | true => exact window_of_won hu hw
      | false =>
          refine window_of_none fun q => ?_
          by_cases hq : q = p
          · rw [hq, hw]
          · exact hall q hq
    rw [hcount s hs hnone, hcount t ht fun q hq => by rw [hothers q hq, hnone q hq],
      Nat.add_comm]

end JournalSystem

/-! ## The protocol -/

/-- A transition of the journal of one key. -/
abbrev JournalStep (P V : Type) := Transition (JournalSystem P V) (JournalEvent P V)

/-- The attempts on record; none where there is no record. -/
def attemptsOf (stored : Option (LearningRecord V)) : Nat :=
  (stored.map LearningRecord.attempts).getD 0

section Protocol

variable [DecidableEq P] [DecidableEq V]

/-- By this step a claim returned `True`. -/
def returnedTrue (isDict : V → Bool) (key : String) (x : JournalStep P V) : Bool :=
  (x.pre.respond isDict key x.event).any fun y => y.2 = some (.won true)

omit [DecidableEq P] [DecidableEq V] in
/-- By this step a process died between the write of its claim and the
return. -/
def diedInWindow (x : JournalStep P V) : Bool :=
  match x.event with
  | .crash p => (x.pre.pc p).wonClaim
  | _ => false

/-- What one step may do to the record. -/
def RecordStep (x : JournalStep P V) : Prop :=
  ∀ r, x.pre.stored = some r → ∃ r', x.post.stored = some r' ∧
    r'.key = r.key ∧ r'.kind = r.kind ∧ KeepsIdentity r.identity r'.identity ∧
    (r.status = .succeeded → r'.status = .succeeded) ∧
    (r.status = .failed → r'.status = .failed) ∧
    (r.status = .deferred → r'.status ≠ .deferred → ∃ p fingerprint now,
      x.event = .advance p ∧
      x.pre.pc p = .loaded (.resumeDeferred fingerprint now) (some r) ∧
      r.candidateEvidence ≠ some fingerprint) ∧
    (r.status = .claimed → r'.status ≠ .claimed → ∃ p op,
      x.event = .advance p ∧ x.pre.pc p = .loaded op (some r) ∧
      ((op.lockUse = .owner ∧ x.pre.registered p = true) ∨
        (((∃ now, op = .disable now) ∨ ∃ e now, op = .failAbandonedClaim e now) ∧
          r'.status = .failed ∧ x.pre.claimLock = some p ∧ ∀ q, ¬ x.pre.Owner q)))

omit [DecidableEq P] [DecidableEq V] in
/-- A step that leaves the record alone. -/
theorem RecordStep.of_same {x : JournalStep P V} (h : x.post.stored = x.pre.stored) :
    RecordStep x := by
  intro r hr
  exact ⟨r, h.trans hr, rfl, rfl, fun _ _ hv => hv, id, id, fun hd hn => absurd hd hn,
    fun hd hn => absurd hd hn⟩

omit [DecidableEq P] in
/-- A write by `p`: the section it ran, with what `p` holds. -/
theorem RecordStep.of_write {x : JournalStep P V} {p : P} {op : JournalOp V}
    (hc : x.pre.Coherent) (he : x.event = .advance p)
    (hpc : x.pre.pc p = .loaded op x.pre.stored)
    (hpost : x.post.stored = (op.body isDict key x.pre.stored).1.or x.pre.stored) :
    RecordStep x := by
  intro r hr
  rw [hr] at hpc hpost
  cases hw : (op.body isDict key (some r)).1 with
  | none =>
      rw [hw] at hpost
      exact RecordStep.of_same (hpost.trans hr.symm) r hr
  | some r' =>
      rw [hw] at hpost
      obtain ⟨hkey, hkind, hid, _, hstatus⟩ := section_spec hw
      refine ⟨r', hpost, hkey, hkind, hid, ?_⟩
      have hin : (x.pre.pc p).inside = some op := by rw [hpc]; rfl
      cases hstatus with
      | same h => exact ⟨(h.trans ·), (h.trans ·), fun hd hn => absurd (h.trans hd) hn,
          fun hd hn => absurd (h.trans hd) hn⟩
      | claimed now hop h h' => simp [h]
      | owner hop h =>
          refine ⟨by simp [h], by simp [h], by simp [h], fun _ _ => ⟨p, op, he, hpc, .inl ⟨hop, ?_⟩⟩⟩
          exact (hc p).owner (by rw [JournalPc.ownerBusy_inside hin]; exact decide_eq_true hop)
      | resumed fingerprint now hop h hne h' =>
          refine ⟨by simp [h], by simp [h], fun _ _ => ⟨p, fingerprint, now, he, ?_, hne⟩,
            by simp [h]⟩
          rw [hpc, hop]
      | failed hop h h' =>
          have hclaiming : op.lockUse = .claiming := by
            rcases hop with ⟨now, rfl⟩ | ⟨e, now, rfl⟩ <;> rfl
          obtain ⟨hheld, hreg⟩ := (hc p).claim
            (by rw [JournalPc.holdsClaim_inside hin]; exact decide_eq_true hclaiming)
          have hnone : ∀ q, ¬ x.pre.Owner q := by
            intro q ho
            have hq := Option.some.inj ((JournalSystem.Owner.holdsLock hc ho).symm.trans hheld)
            rw [hq] at ho
            rcases ho with ho | ho
            · rw [hreg] at ho
              cases ho
            · rw [hpc] at ho
              cases ho
          refine ⟨?_, ?_, ?_, fun _ _ => ⟨p, op, he, hpc, .inr ⟨hop, h', hheld, hnone⟩⟩⟩
          · rcases h with h | h <;> simp [h]
          · exact fun _ => h'
          · rcases h with h | h <;> simp [h]

/-- The history invariant: the positions fit, and `attempts` is accounted
for. -/
def Accounted (isDict : V → Bool) (key : String) (tr : List (JournalStep P V))
    (s : JournalSystem P V) : Prop :=
  s.Coherent ∧ attemptsOf s.stored =
    tr.countP (returnedTrue isDict key) + s.window + tr.countP diedInWindow

omit [DecidableEq P] in
/-- A section raises `attempts` exactly where its reply wins. -/
theorem attemptsOf_section (op : JournalOp V) (stored : Option (LearningRecord V)) :
    attemptsOf ((op.body isDict key stored).1.or stored) =
      attemptsOf stored + if (op.body isDict key stored).2.keepsLock then 1 else 0 := by
  cases hw : (op.body isDict key stored).1 with
  | none =>
      have hk : (op.body isDict key stored).2.keepsLock = false := by
        cases hk : (op.body isDict key stored).2.keepsLock with
        | false => rfl
        | true =>
            obtain ⟨_, r', hr'⟩ := section_keepsLock hk
            rw [hw] at hr'
            cases hr'
      simp [hk]
  | some r' =>
      cases stored with
      | none =>
          obtain ⟨_, _, hatt, hk⟩ := section_create hw
          simp [attemptsOf, hatt, hk]
      | some r => simpa [attemptsOf] using (section_spec hw).attempts

theorem Accounted.step {tr : List (JournalStep P V)} {s t : JournalSystem P V}
    {e : JournalEvent P V} (h : Accounted isDict key tr s)
    (hs : s.step isDict key e = some t) : Accounted isDict key (tr ++ [⟨s, e, t⟩]) t := by
  obtain ⟨hc, hatt⟩ := h
  have ht := hc.step hs
  refine ⟨ht, ?_⟩
  rw [List.countP_append, List.countP_append, List.countP_singleton, List.countP_singleton]
  obtain ⟨⟨t', reply⟩, hr, rfl⟩ := Option.map_eq_some_iff.mp hs
  simp only [returnedTrue, hr, Option.any_some, diedInWindow]
  cases e with
  | start p op =>
      simp only [JournalSystem.respond] at hr
      split at hr
      · next hidle =>
          have hst : t'.stored = s.stored ∧ reply ≠ some (.won true) ∧
              (∀ q, q ≠ p → t'.pc q = s.pc q) ∧ (t'.pc p).wonClaim = false := by
            have hx := Option.some.inj hr
            unfold JournalSystem.start at hx
            split at hx
            · obtain ⟨rfl, rfl⟩ := Prod.mk.inj hx
              exact ⟨rfl, by simp, fun _ _ => rfl, by rw [hidle]; rfl⟩
            · split at hx <;> obtain ⟨rfl, rfl⟩ := Prod.mk.inj hx <;>
                exact ⟨rfl, by simp, fun q hq => JournalSystem.goto_pc_ne _ _ hq,
                  by rw [JournalSystem.goto_pc_self]; rfl⟩
          obtain ⟨hstored, hreply, hothers, hwon⟩ := hst
          have hw : t'.window = s.window := by
            have hmoved := JournalSystem.window_moved hc ht hothers
            rw [hwon, show (s.pc p).wonClaim = false by rw [hidle]; rfl] at hmoved
            exact hmoved
          simp [hstored, hatt, hreply, hw]
      · cases hr
  | advance p =>
      obtain ⟨hothers, heff⟩ := JournalSystem.advance_effect hr
      have hw := JournalSystem.window_moved hc ht hothers
      cases heff with
      | quiet hstored hwon hreply =>
          rw [hwon] at hw
          simp [hstored, hatt, hreply, Nat.add_right_cancel hw]
      | wrote op loaded hpc hstored hwon hreply =>
          obtain rfl := (hc p).loaded op loaded hpc
          rw [hwon, hpc] at hw
          replace hw : t'.window = s.window +
              if (op.body isDict key s.stored).2.keepsLock then 1 else 0 := by
            simpa [JournalPc.wonClaim] using hw
          rw [hstored, attemptsOf_section, hatt, hreply, hw]
          simp only [reduceCtorEq, decide_false, Bool.false_eq_true, if_false]
          omega
      | returned hstored hbefore hafter hreply =>
          replace hw : t'.window + 1 = s.window := by simpa [hbefore, hafter] using hw
          rw [hstored, hatt, hreply, ← hw]
          simp only [decide_true, if_true, Bool.false_eq_true, if_false]
          omega
  | crash p =>
      obtain ⟨rfl, rfl⟩ := Prod.mk.inj (Option.some.inj hr)
      have hw := JournalSystem.window_moved (p := p) hc ht fun q hq =>
        JournalSystem.goto_pc_ne _ _ hq
      have hidle : ((s.crash p).pc p).wonClaim = false := by
        rw [show (s.crash p).pc p = .idle from JournalSystem.goto_pc_self _ _ _]
        rfl
      rw [show (s.crash p).stored = s.stored from rfl, hatt]
      cases hwon : (s.pc p).wonClaim with
      | false =>
          replace hw : (s.crash p).window = s.window := by simpa [hwon, hidle] using hw
          simp [hw, hwon]
      | true =>
          replace hw : (s.crash p).window + 1 = s.window := by simpa [hwon, hidle] using hw
          simp only [reduceCtorEq, decide_false, Bool.false_eq_true, if_false, hwon, if_true,
            ← hw]
          omega

/-- **The journal protocol.** In every state a run reaches, one process at
most owns the claim, and `attempts` is the number of claims that returned
`True`, plus the one that has written and not returned, plus those that
died there; and every step of the run treats the record as it should. -/
theorem journal_protocol {P V : Type} [DecidableEq P] [DecidableEq V] {isDict : V → Bool}
    {key : String} {tr : List (JournalStep P V)} {t : JournalSystem P V}
    (hrun : Run (JournalSystem.step isDict key) {} tr t) :
    (∀ p q, t.Owner p → t.Owner q → p = q) ∧
    attemptsOf t.stored =
      tr.countP (returnedTrue isDict key) + t.window + tr.countP diedInWindow ∧
    ∀ x ∈ tr, RecordStep x := by
  have hinv : Accounted isDict key tr t :=
    hrun.invariant_of (Accounted isDict key) (fun _ _ => True)
      ⟨JournalSystem.Coherent.init, rfl⟩ (fun _ _ _ _ h _ hs => h.step hs)
      (fun _ _ => trivial)
  refine ⟨fun p q hp hq => ?_, hinv.2, fun x hx => ?_⟩
  · have hsame := (JournalSystem.Owner.holdsLock hinv.1 hp).symm.trans
      (JournalSystem.Owner.holdsLock hinv.1 hq)
    exact Option.some.inj hsame
  · obtain ⟨hreach, hstep⟩ := hrun.mem hx
    have hc : x.pre.Coherent := hreach.invariant JournalSystem.Coherent
      JournalSystem.Coherent.init fun _ _ _ h hs => h.step hs
    obtain ⟨⟨t', reply⟩, hr, ht'⟩ := Option.map_eq_some_iff.mp hstep
    cases he : x.event with
    | start p op =>
        rw [he] at hr
        simp only [JournalSystem.respond] at hr
        split at hr
        · have hx := congrArg Prod.fst (Option.some.inj hr)
          refine RecordStep.of_same ?_
          rw [← ht', ← hx]
          unfold JournalSystem.start
          split
          · rfl
          · split <;> rfl
        · cases hr
    | advance p =>
        rw [he] at hr
        obtain ⟨_, heff⟩ := JournalSystem.advance_effect hr
        cases heff with
        | quiet hstored _ _ => exact RecordStep.of_same (by rw [← ht']; exact hstored)
        | wrote op loaded hpc hstored _ _ =>
            obtain rfl := (hc p).loaded op loaded hpc
            exact RecordStep.of_write hc he hpc (by rw [← ht']; exact hstored)
        | returned hstored _ _ _ => exact RecordStep.of_same (by rw [← ht']; exact hstored)
    | crash p =>
        rw [he] at hr
        obtain ⟨rfl, _⟩ := Prod.mk.inj (Option.some.inj hr)
        exact RecordStep.of_same (by rw [← ht']; rfl)

/-- Process 0 creates the record of `"k"`; process 1 claims it and stands
right after its write. -/
def claimWritten : List (JournalEvent Nat Unit) :=
  .start 0 (.ensurePending "approved_plan" [] "t0") :: List.replicate 5 (.advance 0) ++
    .start 1 (.claim "t1") :: List.replicate 4 (.advance 1)

/-- Process 1 dies there: one attempt is on record, and no claim has
returned `True`. -/
theorem lost_claim_counts :
    ∃ (tr : List (JournalStep Nat Unit)) (t : JournalSystem Nat Unit),
      Run (JournalSystem.step (fun _ => false) "k") {} tr t ∧
      attemptsOf t.stored = 1 ∧ tr.countP (returnedTrue (fun _ => false) "k") = 0 := by
  have hevents : (trace (JournalSystem.step (fun _ : Unit => false) "k") {}
      (claimWritten ++ [.crash 1])).any (fun y => attemptsOf y.2.stored == 1 &&
        y.1.countP (returnedTrue (fun _ => false) "k") == 0) = true := by decide
  obtain ⟨⟨tr, t⟩, ht, hcounts⟩ := (Option.any_eq_true _ _).mp hevents
  simp only [Bool.and_eq_true, beq_iff_eq] at hcounts
  exact ⟨tr, t, trace_run ht, hcounts⟩

/-- Process 1 lives: its claim returns `True`, and the count is one. -/
theorem journal_protocol_claimed :
    ∃ (tr : List (JournalStep Nat Unit)) (t : JournalSystem Nat Unit),
      Run (JournalSystem.step (fun _ => false) "k") {} tr t ∧
      t.Owner 1 ∧ (∀ p, t.Owner p → p = 1) ∧ attemptsOf t.stored = 1 ∧
      ∀ x ∈ tr, RecordStep x := by
  have hevents : (trace (JournalSystem.step (fun _ : Unit => false) "k") {}
      (claimWritten ++ [.advance 1, .advance 1])).any (fun y => y.2.registered 1 &&
        y.2.window == 0 && y.1.countP (returnedTrue (fun _ => false) "k") == 1 &&
        y.1.countP diedInWindow == 0) = true := by decide
  obtain ⟨⟨tr, t⟩, ht, hcounts⟩ := (Option.any_eq_true _ _).mp hevents
  simp only [Bool.and_eq_true, beq_iff_eq] at hcounts
  obtain ⟨⟨⟨hreg, hwindow⟩, htrue⟩, hdied⟩ := hcounts
  obtain ⟨hone, hatt, hsteps⟩ := journal_protocol (trace_run ht)
  rw [hwindow, htrue, hdied] at hatt
  exact ⟨tr, t, trace_run ht, .inl hreg, fun p hp => hone p 1 hp (.inl hreg), hatt, hsteps⟩

end Protocol

end Hephaestus.Automation
