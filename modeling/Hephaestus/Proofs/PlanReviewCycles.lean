import Hephaestus.Lib.Run
import Hephaestus.Automation.PlanReviewSession
import Hephaestus.Proofs.AuditReceipts

/-!
# Plan-review cycles under any interleaving

What the records and the pointers of the journal keep from one state to every later
one: artifacts are only added, a bound session and its binding stay, a finished cycle
stays finished, and a pointer leaves a cycle by a reset or by the completion of that
cycle. The methods that hold a lock keep all of this by themselves, but for one:
`bind_session` makes a cycle active whatever state it is in. The two that hold none
write back what they loaded, and `complete` removes whatever pointer is there.

So the protocol holds along a run exactly where no step does one of three things: bind
a finished cycle, write back a record that has changed since it was loaded, or remove
the pointer of another cycle. In one direction that is a case for each step. In the
other it needs what a process has in its hands: by the steps before, the record on disk
has everything that the loaded one has.
-/

namespace Hephaestus.Automation.PlanReview

open Hephaestus.Lib Hephaestus.Automation.Delivery

/-! ## What later states keep -/

/-- A record has become another. -/
structure RecordKept (r r' : PlanReviewSession) : Prop where
  artifacts : r.artifacts <+: r'.artifacts
  sessionId : ∀ i, r.sessionId = some i → r'.sessionId = some i
  sessionBinding : ∀ b, r.sessionBinding = some b → r'.sessionBinding = some b
  final : r.state.isFinal = true → r'.state.isFinal = true

/-- Files have become others. -/
structure FilesKept (f f' : PlanReviewFiles) : Prop where
  records : ∀ c r, f.records c = some r → ∃ r', f'.records c = some r' ∧ RecordKept r r'
  transcripts : ∀ c r, f.records c = some r → ∀ n < r.artifacts.length,
    f'.transcripts c n = f.transcripts c n

theorem RecordKept.refl (r : PlanReviewSession) : RecordKept r r :=
  ⟨List.prefix_refl _, fun _ h => h, fun _ h => h, fun h => h⟩

theorem RecordKept.trans {r r' r'' : PlanReviewSession} (h : RecordKept r r')
    (h' : RecordKept r' r'') : RecordKept r r'' where
  artifacts := h.artifacts.trans h'.artifacts
  sessionId i hi := h'.sessionId i (h.sessionId i hi)
  sessionBinding b hb := h'.sessionBinding b (h.sessionBinding b hb)
  final hr := h'.final (h.final hr)

theorem FilesKept.refl (f : PlanReviewFiles) : FilesKept f f where
  records _ r hr := ⟨r, hr, RecordKept.refl r⟩
  transcripts _ _ _ _ _ := rfl

theorem FilesKept.trans {f f' f'' : PlanReviewFiles} (h : FilesKept f f')
    (h' : FilesKept f' f'') : FilesKept f f'' where
  records c r hr := by
    obtain ⟨r', hr', hkept⟩ := h.records c r hr
    obtain ⟨r'', hr'', hkept'⟩ := h'.records c r' hr'
    exact ⟨r'', hr'', hkept.trans hkept'⟩
  transcripts c r hr n hn := by
    obtain ⟨r', hr', hkept⟩ := h.records c r hr
    have hn' : n < r'.artifacts.length := hn.trans_le hkept.artifacts.length_le
    rw [h'.transcripts c r' hr' n hn', h.transcripts c r hr n hn]

/-- A record is written over one that it keeps. -/
theorem FilesKept.write {f : PlanReviewFiles} {c : Text} {r' : PlanReviewSession}
    (h : ∀ r, f.records c = some r → RecordKept r r') :
    FilesKept f { f with records := Function.update f.records c (some r') } where
  records d r hr := by
    by_cases hd : d = c
    · subst hd
      exact ⟨r', Function.update_self _ _ _, h r hr⟩
    · refine ⟨r, ?_, RecordKept.refl r⟩
      show Function.update f.records c (some r') d = some r
      rw [Function.update_of_ne hd, hr]
  transcripts _ _ _ _ _ := rfl

/-- A transcript file is written after those of the record. -/
theorem FilesKept.writeTranscript {f : PlanReviewFiles} {c : Text} {n : Nat} {content : Option Text}
    (h : ∀ r, f.records c = some r → r.artifacts.length ≤ n) :
    FilesKept f { f with
      transcripts := Function.update f.transcripts c
        (Function.update (f.transcripts c) n content) } where
  records _ r hr := ⟨r, hr, RecordKept.refl r⟩
  transcripts d r hr m hm := by
    show Function.update f.transcripts c (Function.update (f.transcripts c) n content) d m
      = f.transcripts d m
    by_cases hd : d = c
    · subst hd
      have hne : m ≠ n := by
        have hle := h r hr
        omega
      rw [Function.update_self, Function.update_of_ne hne]
    · rw [Function.update_of_ne hd]

/-! ## Methods -/

variable {floats : JsonText.FloatText} {s : PlanReviewFiles}

/-- A load returns what is on disk, or raises. -/
theorem wp_load {c : Text} {Q : PlanReviewSession → PlanReviewFiles → Prop}
    {E : SessionError → PlanReviewFiles → Prop}
    (hload : ∀ r, s.records c = some r → checkRecord floats c r = .ok () → Q r s)
    (hraise : ∀ e, E e s) : (load floats c).wp Q E s := by
  unfold load
  rw [Command.wp_bind, Command.wp_get]
  split
  · exact hraise _
  · next record hrecord =>
    rw [Command.wp_bind]
    exact Command.wp_attempt (fun _ hok => hload record hrecord hok) fun e _ => hraise e

/-- A record that passes the checks is loaded. -/
theorem wp_load_of {c : Text} {r : PlanReviewSession}
    {Q : PlanReviewSession → PlanReviewFiles → Prop} {E : SessionError → PlanReviewFiles → Prop}
    (hr : s.records c = some r) (hok : checkRecord floats c r = .ok ()) (hQ : Q r s) :
    (load floats c).wp Q E s := by
  unfold load
  rw [Command.wp_bind, Command.wp_get, hr]
  show (Command.attempt (checkRecord floats c r) >>= fun _ => pure r).wp Q E s
  rw [Command.wp_bind, hok]
  exact hQ

/-- The checks compare the cycle of the record. -/
theorem cycleId_of_checkRecord {c : Text} {r : PlanReviewSession}
    (h : checkRecord floats c r = .ok ()) : r.cycleId = c := by
  unfold checkRecord at h
  obtain ⟨_, h⟩ := check_bind_ok.mp h
  obtain ⟨hcycle, _⟩ := check_bind_ok.mp h
  rw [raiseIf_ok, not_not] at hcycle
  exact hcycle

theorem wp_update {r : PlanReviewSession} {now : Text}
    {Q : PlanReviewSession → PlanReviewFiles → Prop} {E : SessionError → PlanReviewFiles → Prop}
    (hQ : Q { r with updatedAt := now } { s with
      records := Function.update s.records r.cycleId (some { r with updatedAt := now }) }) :
    (update r now).wp Q E s := by
  unfold update writeRecord
  rw [Command.wp_bind, Command.wp_modify, Command.wp_pure]
  exact hQ

/-- The fields a binding may change, and the state. -/
theorem recordKept_bind {r : PlanReviewSession} {sessionId now : Text} {binding : Option Text}
    (hok : mayBind r sessionId binding = .ok ()) (hopen : r.state.isFinal = false) :
    RecordKept r { r with
      sessionId := some sessionId
      sessionBinding := binding.or r.sessionBinding
      state := .active
      updatedAt := now } := by
  unfold mayBind at hok
  obtain ⟨hid, hbinding⟩ := check_bind_ok.mp hok
  simp only [raiseIf_ok, not_and_or, not_not] at hid hbinding
  refine ⟨List.prefix_refl _, fun i hi => ?_, fun b hb => ?_, fun hfinal => ?_⟩
  · rw [hi] at hid
    exact (hid.resolve_left (Option.some_ne_none i)).symm
  · rw [hb] at hbinding
    show binding.or r.sessionBinding = some b
    rw [← hbinding.resolve_left (Option.some_ne_none b)]
    rfl
  · rw [hopen] at hfinal
    cases hfinal

/-- A binding keeps the files where the cycle is not finished. -/
theorem bindSession_kept (now : Text) {c sessionId : Text} {binding : Option AgentSessionBinding}
    (hopen : ∀ r, s.records c = some r → checkRecord floats c r = .ok () →
      mayBind r sessionId (binding.map fun b => b.toJson floats) = .ok () → sessionId ≠ [] →
      r.state.isFinal = false) :
    (bindSession floats c sessionId binding now).wp
      (fun _ t => FilesKept s t ∧ t.pointers = s.pointers)
      (fun _ t => FilesKept s t ∧ t.pointers = s.pointers) s := by
  have hraise : ∀ e : SessionError, FilesKept s s ∧ s.pointers = s.pointers :=
    fun _ => ⟨FilesKept.refl s, rfl⟩
  unfold bindSession
  rw [Command.wp_bind]
  refine Command.wp_attempt (fun _ hid => ?_) fun e _ => hraise e
  rw [raiseIf_ok] at hid
  rw [Command.wp_bind]
  refine wp_load (fun r hr hok => ?_) hraise
  rw [Command.wp_bind]
  refine Command.wp_attempt (fun _ hmay => ?_) fun e _ => hraise e
  refine wp_update ⟨FilesKept.write fun old hold => ?_, rfl⟩
  have hcycle := cycleId_of_checkRecord hok
  obtain rfl : r = old := Option.some.inj (hr.symm.trans (hcycle ▸ hold))
  exact recordKept_bind hmay (hopen r hr hok hmay hid)

/-- A binding that is let through makes the cycle active. -/
theorem bindSession_activates (now : Text) {c sessionId : Text}
    {binding : Option AgentSessionBinding} {r : PlanReviewSession} (hr : s.records c = some r) (hok : checkRecord floats c r = .ok ())
    (hmay : mayBind r sessionId (binding.map fun b => b.toJson floats) = .ok ())
    (hid : sessionId ≠ []) :
    (bindSession floats c sessionId binding now).wp
      (fun _ t => ∃ r', t.records c = some r' ∧ r'.state = .active)
      (fun _ t => ∃ r', t.records c = some r' ∧ r'.state = .active) s := by
  unfold bindSession
  rw [Command.wp_bind, raiseIf, if_neg hid]
  refine Command.wp_attempt (fun _ _ => ?_) fun e he => by cases he
  rw [Command.wp_bind]
  refine wp_load_of hr hok ?_
  rw [Command.wp_bind]
  refine Command.wp_attempt (fun _ _ => ?_) fun e he => ?_
  · have hcycle := cycleId_of_checkRecord hok
    subst hcycle
    exact wp_update ⟨_, Function.update_self _ _ _, rfl⟩
  · rw [hmay] at he
    cases he

variable (floats s) in
theorem appendArtifact_kept (c : Text) (a : NewArtifact) (now : Text) :
    (appendArtifact floats c a now).wp
      (fun _ t => FilesKept s t ∧ t.pointers = s.pointers)
      (fun _ t => FilesKept s t ∧ t.pointers = s.pointers) s := by
  have hraise : ∀ e : SessionError, FilesKept s s ∧ s.pointers = s.pointers :=
    fun _ => ⟨FilesKept.refl s, rfl⟩
  unfold appendArtifact writeTranscript
  rw [Command.wp_bind]
  refine wp_load (fun r hr hok => ?_) hraise
  split
  · rw [Command.wp_pure]
    exact ⟨FilesKept.refl s, rfl⟩
  · rw [Command.wp_bind, Command.wp_modify]
    have hcycle := cycleId_of_checkRecord hok
    subst hcycle
    have hon : ∀ old, s.records r.cycleId = some old → r = old :=
      fun old hold => Option.some.inj (hr.symm.trans hold)
    refine wp_update ⟨?_, rfl⟩
    refine FilesKept.trans (FilesKept.writeTranscript (c := r.cycleId) fun old hold => ?_)
      (FilesKept.write fun old hold => ?_)
    · rw [← hon old hold]
    · rw [← hon old hold]
      exact ⟨List.prefix_append _ _, fun _ h => h, fun _ h => h, fun h => h⟩

/-! ### Starting a cycle -/

/-- What a start may find. -/
structure Finds (s : PlanReviewFiles) (args : StartCycle) (r : Option PlanReviewSession) : Prop where
  record : ∀ current, r = some current → s.records current.cycleId = some current
  pointer : r = none → args.reset = false → s.pointers (identityDigest args.repo args.issue) = none

/-- Recovering reads, and changes nothing. -/
theorem wp_recoverActive {repo : Text} {issue : Int}
    {Q : Option PlanReviewSession → PlanReviewFiles → Prop}
    {E : SessionError → PlanReviewFiles → Prop}
    (hnone : s.pointers (identityDigest repo issue) = none → Q none s)
    (hsome : ∀ r, s.records r.cycleId = some r → Q (some r) s) (hraise : ∀ e, E e s) :
    (recoverActive floats repo issue).wp Q E s := by
  unfold recoverActive
  rw [Command.wp_bind, Command.wp_get]
  split
  · next hpointer => exact hnone hpointer
  · next c hpointer =>
    rw [Command.wp_bind]
    refine Command.wp_attempt (fun _ _ => ?_) fun e _ => hraise e
    rw [Command.wp_bind, Command.wp_tryCatch]
    refine wp_load (fun r hr hok => ?_) fun e => ?_
    · rw [Command.wp_bind]
      refine Command.wp_attempt (fun _ _ => ?_) fun e _ => hraise e
      rw [Command.wp_bind]
      refine Command.wp_attempt (fun _ _ => ?_) fun e _ => hraise e
      rw [Command.wp_pure]
      refine hsome r ?_
      rw [cycleId_of_checkRecord hok, hr]
    · cases e with
      | lost message => exact hraise _
      | value message => exact hraise _
      | fileNotFound => exact hraise _

theorem wp_currentCycle {args : StartCycle} {Q : Option PlanReviewSession → PlanReviewFiles → Prop}
    {E : SessionError → PlanReviewFiles → Prop} (hfind : ∀ r, Finds s args r → Q r s)
    (hraise : ∀ e, E e s) : (currentCycle floats args).wp Q E s := by
  have hsome : ∀ r, s.records r.cycleId = some r → Q (some r) s := fun r hr =>
    hfind (some r) ⟨fun current hcurrent => by rwa [← Option.some.inj hcurrent], nofun⟩
  unfold currentCycle
  split
  · next hreset =>
    have hnone : Q none s := by
      refine hfind none ⟨nofun, fun _ hkeep => ?_⟩
      rw [hreset] at hkeep
      cases hkeep
    rw [Command.wp_tryCatch]
    refine wp_recoverActive (fun _ => hnone) hsome fun e => ?_
    cases e with
    | lost message => exact hnone
    | value message => exact hraise _
    | fileNotFound => exact hraise _
  · exact wp_recoverActive (fun hpointer => hfind none ⟨nofun, fun _ _ => hpointer⟩) hsome hraise

/-- A start moves its own pointer only, and only off nothing or by a reset. -/
structure Starts (s : PlanReviewFiles) (args : StartCycle) (t : PlanReviewFiles) : Prop where
  files : FilesKept s t
  pointers : ∀ key c, s.pointers key = some c → t.pointers key = some c
    ∨ (args.reset = true ∧ identityDigest args.repo args.issue = key)

theorem Starts.same (s : PlanReviewFiles) (args : StartCycle) : Starts s args s :=
  ⟨FilesKept.refl s, fun _ _ h => .inl h⟩

/-- After a new cycle was written, the pointer has moved to it. -/
theorem newCycle_starts {args : StartCycle} {cycleId now : Text} {f : PlanReviewFiles}
    (hkept : FilesKept s f) (hpointers : f.pointers = s.pointers)
    (hfresh : f.records cycleId = none)
    (hmove : args.reset = true ∨ s.pointers (identityDigest args.repo args.issue) = none) :
    (newCycle floats args cycleId now).wp (fun _ t => Starts s args t)
      (fun _ t => Starts s args t) f := by
  unfold newCycle writeRecord writePointer
  rw [Command.wp_bind, Command.wp_modify, Command.wp_bind, Command.wp_modify, Command.wp_pure]
  constructor
  · have hwrite : FilesKept f { f with
        records := Function.update f.records cycleId (some (args.record floats cycleId now)) } := by
      refine FilesKept.write fun r hr => ?_
      rw [hfresh] at hr
      cases hr
    have hall := hkept.trans hwrite
    exact ⟨hall.records, hall.transcripts⟩
  · intro key c hc
    by_cases hkey : key = identityDigest args.repo args.issue
    · rcases hmove with hreset | hnone
      · exact .inr ⟨hreset, hkey.symm⟩
      · rw [← hkey, hc] at hnone
        cases hnone
    · left
      show Function.update f.pointers (identityDigest args.repo args.issue) (some cycleId) key
        = some c
      rw [Function.update_of_ne hkey, hpointers, hc]

variable (floats) in
theorem startCycle_starts (args : StartCycle) (now : Text) {cycleId : Text}
    (hfresh : s.records cycleId = none) :
    (startCycle floats args cycleId now).wp (fun _ t => Starts s args t)
      (fun _ t => Starts s args t) s := by
  unfold startCycle
  rw [Command.wp_bind]
  refine wp_currentCycle (fun r hfind => ?_) fun _ => Starts.same s args
  cases r with
  | none =>
      refine newCycle_starts (FilesKept.refl s) rfl hfresh ?_
      cases hreset : args.reset with
      | true => exact .inl rfl
      | false => exact .inr (hfind.pointer rfl hreset)
  | some current =>
      have hon := hfind.record current rfl
      show Command.wp (if args.reset = true then _ else _) _ _ s
      split
      · next hreset =>
        rw [Command.wp_bind]
        refine wp_update (newCycle_starts (FilesKept.write fun old hold => ?_) rfl ?_ (.inl hreset))
        · obtain rfl : current = old := Option.some.inj (hon.symm.trans hold)
          exact ⟨List.prefix_refl _, fun _ h => h, fun _ h => h, fun _ => rfl⟩
        · have hne : cycleId ≠ current.cycleId := by
            rintro rfl
            rw [hfresh] at hon
            cases hon
          show Function.update s.records current.cycleId _ cycleId = none
          rw [Function.update_of_ne hne, hfresh]
      · rw [Command.wp_bind]
        exact Command.wp_attempt (fun _ _ => Starts.same s args) fun _ _ => Starts.same s args

/-! ## Steps -/

/-- The transition starts a cycle by a reset, where the pointer is the one of its issue. -/
def Resets (x : Transition Journal Event) (key : Text) : Prop :=
  ∃ args cycleId now, x.event = .startCycle args cycleId now ∧ args.reset = true
    ∧ identityDigest args.repo args.issue = key

/-- The transition ends the completion of the cycle. -/
def Completes (x : Transition Journal Event) (c : Text) : Prop :=
  ∃ p record, x.event = .unlinks p ∧ x.pre.pending p = some (.written record)
    ∧ record.cycleId = c

/-- A pointer is left alone but for a reset and the completion of its cycle. -/
def PointerKept (x : Transition Journal Event) : Prop :=
  ∀ key c, x.pre.files.pointers key = some c →
    x.post.files.pointers key = some c ∨ Resets x key ∨ Completes x c

/-- What a step has to keep. -/
def StepKeeps (x : Transition Journal Event) : Prop :=
  FilesKept x.pre.files x.post.files ∧ PointerKept x

/-- The condition on a step: a binding that is let through finds the cycle unfinished, a
record that is written back still has the artifacts, the session and the binding that were
loaded, and a pointer that is removed is the one to the completed cycle. -/
def Meets (floats : JsonText.FloatText) (s : Journal) : Event → Prop
  | .bindSession c sessionId binding _ =>
      ∀ r, s.files.records c = some r → checkRecord floats c r = .ok () →
        mayBind r sessionId (binding.map fun b => b.toJson floats) = .ok () → sessionId ≠ [] →
        r.state.isFinal = false
  | .writes p _ =>
      ∀ call record, s.pending p = some (.loaded call record) →
        ∀ r, s.files.records record.cycleId = some r →
          r.artifacts = record.artifacts ∧ r.sessionId = record.sessionId
            ∧ r.sessionBinding = record.sessionBinding
  | .unlinks p =>
      ∀ record, s.pending p = some (.written record) →
        ∀ c, s.files.pointers (identityDigest record.repo record.issue) = some c →
          c = record.cycleId
  | .startCycle _ _ _ | .appendArtifact _ _ _ | .loads _ _ _ => True

/-- What a process has loaded is kept by what is on disk. -/
def Held (s : Journal) : Prop :=
  ∀ p call record, s.pending p = some (.loaded call record) →
    ∃ r, s.files.records record.cycleId = some r ∧ RecordKept record r

theorem isFinal_state (call : Unlocked) : call.state.isFinal = true := by
  cases call with
  | markRecoveryRequired => rfl
  | complete => rfl

/-- A load that returns has what is on disk. -/
theorem load_ok {c : Text} {r : PlanReviewSession} (h : ((load floats c).exec s).1 = .ok r) :
    s.records r.cycleId = some r := by
  have hspec : (load floats c).wp (fun r _ => s.records r.cycleId = some r) (fun _ _ => True) s :=
    wp_load (fun r hr hok => by rw [cycleId_of_checkRecord hok, hr]) fun _ => trivial
  unfold Command.wp at hspec
  split at hspec
  · next record t hexec =>
    rw [hexec] at h
    obtain rfl := Except.ok.inj h
    exact hspec
  · next e t hexec =>
    rw [hexec] at h
    cases h

variable {x : Transition Journal Event}

/-- A step that does not touch the pointers keeps them. -/
theorem pointerKept_of_eq (h : x.post.files.pointers = x.pre.files.pointers) : PointerKept x :=
  fun _ _ hc => .inl (by rw [h, hc])

theorem step_keeps (hstep : step floats x.pre x.event = some x.post)
    (hmeets : Meets floats x.pre x.event) : StepKeeps x := by
  obtain ⟨pre, event, post⟩ := x
  cases event with
  | startCycle args cycleId now =>
      simp only [step] at hstep
      split at hstep
      · cases hstep
      · next hfresh =>
        rw [Option.not_isSome_iff_eq_none] at hfresh
        obtain rfl := Option.some.inj hstep
        have hstarts := Command.wp_state (startCycle_starts floats args now hfresh)
        refine ⟨hstarts.files, fun key c hc => ?_⟩
        rcases hstarts.pointers key c hc with hkept | ⟨hreset, hkey⟩
        · exact .inl hkept
        · exact .inr (.inl ⟨args, cycleId, now, rfl, hreset, hkey⟩)
  | bindSession c sessionId binding now =>
      simp only [step] at hstep
      obtain rfl := Option.some.inj hstep
      have hkept := Command.wp_state (bindSession_kept now hmeets)
      exact ⟨hkept.1, pointerKept_of_eq hkept.2⟩
  | appendArtifact c artifact now =>
      simp only [step] at hstep
      obtain rfl := Option.some.inj hstep
      have hkept := Command.wp_state (appendArtifact_kept floats pre.files c artifact now)
      exact ⟨hkept.1, pointerKept_of_eq hkept.2⟩
  | loads p call c =>
      simp only [step] at hstep
      split at hstep
      · obtain rfl := Option.some.inj hstep
        exact ⟨FilesKept.refl _, pointerKept_of_eq rfl⟩
      · obtain rfl := Option.some.inj hstep
        exact ⟨FilesKept.refl _, pointerKept_of_eq rfl⟩
      · cases hstep
  | writes p now =>
      simp only [step] at hstep
      split at hstep
      · next call record hpending =>
        obtain rfl := Option.some.inj hstep
        refine ⟨FilesKept.write fun r hr => ?_, pointerKept_of_eq rfl⟩
        obtain ⟨hartifacts, hid, hbinding⟩ := hmeets call record hpending r hr
        refine ⟨?_, fun i hi => ?_, fun b hb => ?_, fun _ => isFinal_state call⟩
        · rw [hartifacts]
        · rw [← hi, hid]
        · rw [← hb, hbinding]
      · cases hstep
  | unlinks p =>
      simp only [step] at hstep
      split at hstep
      · next record hpending =>
        obtain rfl := Option.some.inj hstep
        refine ⟨⟨fun c r hr => ⟨r, hr, RecordKept.refl r⟩, fun _ _ _ _ _ => rfl⟩, fun key c hc => ?_⟩
        by_cases hkey : key = identityDigest record.repo record.issue
        · subst hkey
          exact .inr (.inr ⟨p, record, rfl, hpending, (hmeets record hpending c hc).symm⟩)
        · left
          show Function.update pre.files.pointers (identityDigest record.repo record.issue) none key
            = some c
          rw [Function.update_of_ne hkey]
          exact hc
      · cases hstep

/-- A step that keeps everything meets the condition. -/
theorem step_meets (hstep : step floats x.pre x.event = some x.post) (hkeeps : StepKeeps x)
    (hheld : Held x.pre) : Meets floats x.pre x.event := by
  obtain ⟨pre, event, post⟩ := x
  cases event with
  | startCycle args cycleId now => trivial
  | appendArtifact c artifact now => trivial
  | loads p call c => trivial
  | bindSession c sessionId binding now =>
      intro r hr hok hmay hid
      simp only [step] at hstep
      obtain rfl := Option.some.inj hstep
      obtain ⟨r', hr', hactive⟩ :=
        Command.wp_state (bindSession_activates now hr hok hmay hid)
      obtain ⟨kept, hkept, hrecord⟩ := hkeeps.1.records c r hr
      obtain rfl : kept = r' := Option.some.inj (hkept.symm.trans hr')
      cases hfinal : r.state.isFinal with
      | false => rfl
      | true =>
          have hstill := hrecord.final hfinal
          rw [hactive] at hstill
          cases hstill
  | writes p now =>
      intro call record hpending r hr
      have hpre : pre.pending p = some (.loaded call record) := hpending
      simp only [step, hpre] at hstep
      obtain rfl := Option.some.inj hstep
      obtain ⟨kept, hkept, hrecord⟩ := hkeeps.1.records _ r hr
      obtain rfl := Option.some.inj (hkept.symm.trans (Function.update_self _ _ _))
      -- what is on disk has what was loaded, and is kept by what is written back
      obtain ⟨disk, hdisk, hloaded⟩ := hheld p call record hpending
      obtain rfl : disk = r := Option.some.inj (hdisk.symm.trans hr)
      have hartifacts : disk.artifacts <+: record.artifacts := hrecord.artifacts
      refine ⟨hartifacts.eq_of_length_le hloaded.artifacts.length_le, ?_, ?_⟩
      · cases hid : record.sessionId with
        | some i => exact hloaded.sessionId i hid
        | none =>
            cases hdid : disk.sessionId with
            | none => rfl
            | some i => exact absurd (hid.symm.trans (hrecord.sessionId i hdid)) (by simp)
      · cases hb : record.sessionBinding with
        | some b => exact hloaded.sessionBinding b hb
        | none =>
            cases hdb : disk.sessionBinding with
            | none => rfl
            | some b => exact absurd (hb.symm.trans (hrecord.sessionBinding b hdb)) (by simp)
  | unlinks p =>
      intro record hpending c hc
      have hpre : pre.pending p = some (.written record) := hpending
      simp only [step, hpre] at hstep
      obtain rfl := Option.some.inj hstep
      rcases hkeeps.2 _ c hc with hkept | hreset | hcompletes
      · have hgone : Function.update pre.files.pointers
            (identityDigest record.repo record.issue) none
            (identityDigest record.repo record.issue) = some c := hkept
        rw [Function.update_self] at hgone
        cases hgone
      · obtain ⟨_, _, _, hevent, _⟩ := hreset
        cases hevent
      · obtain ⟨p', record', hevent, hpending', hcycle⟩ := hcompletes
        cases hevent
        rw [hpending] at hpending'
        cases hpending'
        exact hcycle.symm

theorem pending_setPending {s : Journal} {p q : Nat} {v : Option Pending} {w : Pending}
    (h : (s.setPending q v).pending p = some w) : v = some w ∨ s.pending p = some w := by
  have hset : Function.update s.pending q v p = some w := h
  by_cases hq : p = q
  · rw [hq, Function.update_self] at hset
    exact .inl hset
  · rw [Function.update_of_ne hq] at hset
    exact .inr hset

/-- What was loaded stays below what is on disk, as long as the files are kept. -/
theorem held_step (hstep : step floats x.pre x.event = some x.post)
    (hkept : FilesKept x.pre.files x.post.files) (hheld : Held x.pre) : Held x.post := by
  have hsame : ∀ p call record, x.pre.pending p = some (.loaded call record) →
      ∃ r, x.post.files.records record.cycleId = some r ∧ RecordKept record r := by
    intro p call record hpending
    obtain ⟨r, hr, hloaded⟩ := hheld p call record hpending
    obtain ⟨r', hr', hrecord⟩ := hkept.records _ r hr
    exact ⟨r', hr', hloaded.trans hrecord⟩
  suffices hnew : ∀ p call record, x.post.pending p = some (.loaded call record) →
      x.pre.pending p = some (.loaded call record)
        ∨ x.post.files.records record.cycleId = some record by
    intro p call record hpending
    rcases hnew p call record hpending with hpre | hdisk
    · exact hsame p call record hpre
    · exact ⟨record, hdisk, RecordKept.refl record⟩
  obtain ⟨pre, event, post⟩ := x
  intro p call record hpending
  cases event with
  | startCycle args cycleId now =>
      simp only [step] at hstep
      split at hstep
      · cases hstep
      · obtain rfl := Option.some.inj hstep
        exact .inl hpending
  | bindSession c sessionId binding now =>
      simp only [step] at hstep
      obtain rfl := Option.some.inj hstep
      exact .inl hpending
  | appendArtifact c artifact now =>
      simp only [step] at hstep
      obtain rfl := Option.some.inj hstep
      exact .inl hpending
  | loads q call' c =>
      simp only [step] at hstep
      split at hstep
      · next loaded _ hload =>
        obtain rfl := Option.some.inj hstep
        rcases pending_setPending hpending with hnew | hold
        · cases hnew
          exact .inr (load_ok hload)
        · exact .inl hold
      · obtain rfl := Option.some.inj hstep
        exact .inl hpending
      · cases hstep
  | writes q now =>
      simp only [step] at hstep
      split at hstep
      · next call' written _ =>
        obtain rfl := Option.some.inj hstep
        rcases pending_setPending hpending with hnew | hold
        · cases call' with
          | markRecoveryRequired => cases hnew
          | complete => cases hnew
        · exact .inl hold
      · cases hstep
  | unlinks q =>
      simp only [step] at hstep
      split at hstep
      · obtain rfl := Option.some.inj hstep
        rcases pending_setPending hpending with hnew | hold
        · cases hnew
        · exact .inl hold
      · cases hstep

/-! ## Runs -/

/-- The protocol along a run: every state is kept by every later one, and pointers are
left alone but for resets and completions. -/
structure Protocol (tr : List (Transition Journal Event)) : Prop where
  kept : ∀ hist x rest, tr = hist ++ x :: rest → ∀ y ∈ x :: rest, FilesKept x.pre.files y.post.files
  pointers : ∀ x ∈ tr, PointerKept x

variable {s t : Journal} {tr : List (Transition Journal Event)}

theorem Protocol.step (h : Protocol tr) {x : Transition Journal Event} (hx : x ∈ tr) :
    StepKeeps x := by
  obtain ⟨hist, rest, htr⟩ := List.append_of_mem hx
  exact ⟨h.kept hist x rest htr x List.mem_cons_self, h.pointers x hx⟩

/-- Where every step keeps the files, the end of a run keeps all its states. -/
theorem kept_to_end (hrun : Run (step floats) s tr t)
    (hkeeps : ∀ x ∈ tr, FilesKept x.pre.files x.post.files) :
    ∀ x ∈ tr, FilesKept x.pre.files t.files := by
  induction hrun with
  | nil => exact fun x hx => absurd hx List.not_mem_nil
  | snoc hrun hs ih =>
      have hlast := hkeeps _ (List.mem_append_right _ (List.mem_singleton_self _))
      intro x hx
      rcases List.mem_append.mp hx with hx | hx
      · exact (ih (fun y hy => hkeeps y (List.mem_append_left _ hy)) x hx).trans hlast
      · rw [List.mem_singleton.mp hx]
        exact hlast

theorem protocol_of_steps (hrun : Run (step floats) s tr t) (hsteps : ∀ x ∈ tr, StepKeeps x) :
    Protocol tr := by
  refine ⟨fun hist x rest htr y hy => ?_, fun x hx => (hsteps x hx).2⟩
  obtain ⟨mid, rest', hmid⟩ := List.append_of_mem hy
  -- the run up to and with `y` ends where `y` does
  have hcut : tr = (hist ++ mid) ++ y :: rest' := by rw [htr, hmid, List.append_assoc]
  obtain ⟨hbefore, hystep⟩ := hrun.cut hcut
  refine kept_to_end (hbefore.snoc hystep) (fun z hz => (hsteps z ?_).1) x ?_
  · rw [hcut, List.append_cons]
    exact List.mem_append_left _ hz
  · have hx : x ∈ mid ++ [y] := by
      cases mid with
      | nil =>
          rw [(List.cons.inj hmid).1]
          exact List.mem_singleton_self _
      | cons z mid =>
          rw [(List.cons.inj hmid).1]
          exact List.mem_cons_self
    rw [List.append_assoc]
    exact List.mem_append_right _ hx

/-- Along a run that keeps everything, what processes have loaded is kept on disk. -/
theorem held_of_run (hidle : ∀ p, s.pending p = none) (hrun : Run (step floats) s tr t)
    (hkeeps : ∀ x ∈ tr, StepKeeps x) : Held t := by
  induction hrun with
  | nil =>
      intro p call record hpending
      rw [hidle p] at hpending
      cases hpending
  | snoc hrun hs ih =>
      have hlast := hkeeps _ (List.mem_append_right _ (List.mem_singleton_self _))
      exact held_step (x := ⟨_, _, _⟩) hs hlast.1 (ih fun y hy => hkeeps y (List.mem_append_left _ hy))

/-- From a journal that nobody is in the middle of changing, a run keeps the protocol
exactly where each of its steps meets the condition. -/
theorem protocol_iff_meets (hidle : ∀ p, s.pending p = none) (hrun : Run (step floats) s tr t) :
    Protocol tr ↔ ∀ x ∈ tr, Meets floats x.pre x.event := by
  constructor
  · intro hprotocol x hx
    obtain ⟨hist, rest, htr⟩ := List.append_of_mem hx
    obtain ⟨hbefore, hstep⟩ := hrun.cut htr
    refine step_meets hstep (hprotocol.step hx) (held_of_run hidle hbefore fun y hy => ?_)
    exact hprotocol.step (by rw [htr]; exact List.mem_append_left _ hy)
  · intro hmeets
    exact protocol_of_steps hrun fun x hx => step_keeps (hrun.mem hx).2 (hmeets x hx)

/-! ## A lost artifact -/

def noJournal : Journal where
  files := { pointers := fun _ => none, records := fun _ => none, transcripts := fun _ _ => none }
  pending := fun _ => none

def codexCycle : StartCycle where
  repo := "o/r".toList
  issue := 1
  provider := "codex".toList
  model := []
  reviewerConfig := [("model_selection_format", .int 1), ("reasoning_effort", .str "")]
  cwd := "/r".toList
  planRevision := 1
  planFingerprint := ['p']

def firstFinding : NewArtifact where
  kind := .review
  content := "No tests.".toList
  roundIndex := 0
  planRevision := 1
  planFingerprint := ['p']

/-- One process marks the cycle while another appends to it. -/
def markedWhileAppending : List Event :=
  [.startCycle codexCycle ['c'] ['t'], .loads 0 .markRecoveryRequired ['c'],
    .appendArtifact ['c'] firstFinding ['u'], .writes 0 ['v']]

/-- How many artifacts the record of a cycle has. -/
def artifactCount (s : Journal) (c : Text) : Nat :=
  ((s.files.records c).map fun r => r.artifacts.length).getD 0

theorem artifactCount_le {x : Transition Journal Event} (h : StepKeeps x) (c : Text) :
    artifactCount x.pre c ≤ artifactCount x.post c := by
  unfold artifactCount
  cases hr : x.pre.files.records c with
  | none => exact Nat.zero_le _
  | some r =>
      obtain ⟨r', hr', hkept⟩ := h.1.records c r hr
      rw [hr']
      exact hkept.artifacts.length_le

theorem markedWhileAppending_loses :
    ((trace (step noFloats) noJournal markedWhileAppending).any fun y =>
      y.1.length = 4 && y.1.any fun x => artifactCount x.post ['c'] < artifactCount x.pre ['c'])
      = true := by decide +kernel

/-- The artifact is gone when the mark is written. -/
theorem marking_loses_artifact :
    ¬ ∀ tr t, Run (step noFloats) noJournal tr t → Protocol tr := by
  intro hall
  obtain ⟨⟨tr, t⟩, htrace, hlost⟩ := (Option.any_eq_true _ _).mp markedWhileAppending_loses
  rw [Bool.and_eq_true, List.any_eq_true] at hlost
  obtain ⟨_, x, hx, hfewer⟩ := hlost
  have hkept := artifactCount_le ((hall tr t (trace_run htrace)).step hx) ['c']
  rw [decide_eq_true_eq] at hfewer
  omega

theorem protocol_iff_meets_marked :
    ∃ tr t, Run (step noFloats) noJournal tr t ∧ tr.length = 4
      ∧ (Protocol tr ↔ ∀ x ∈ tr, Meets noFloats x.pre x.event) := by
  obtain ⟨⟨tr, t⟩, htrace, hlost⟩ := (Option.any_eq_true _ _).mp markedWhileAppending_loses
  rw [Bool.and_eq_true, decide_eq_true_eq] at hlost
  have hrun := trace_run htrace
  exact ⟨tr, t, hrun, hlost.1, protocol_iff_meets (fun _ => rfl) hrun⟩

end Hephaestus.Automation.PlanReview
