import Mathlib.Data.List.Infix
import Hephaestus.Automation.PlanReviewTranscript
import Hephaestus.Proofs.PlanReviewCycles

/-!
# What a transcript gives back

One process appends to a cycle that has no artifacts. Every append goes through, the
record loads after it, the latest call can be repeated, and a call that died before its
record was written can be repeated: none of this reads a transcript file. The
transcript does, and it checks the text as it was read against the digest of the text as
it was written. So it is exact for the contents that reading leaves alone, which are
those without a carriage return, and where a call is not taken for the latest one by a
digest that two contents share.
-/

namespace Hephaestus.Automation.PlanReview

open Hephaestus.Lib Hephaestus.Automation.Delivery

/-! ## Texts -/

theorem intercalate_concat {α : Type} {sep : List α} {l : List (List α)} (hl : l ≠ [])
    (x : List α) : sep.intercalate (l ++ [x]) = sep.intercalate l ++ (sep ++ x) := by
  induction l with
  | nil => exact absurd rfl hl
  | cons a l ih =>
      cases l with
      | nil => simp [List.intercalate_cons_cons]
      | cons b l =>
          have hne : b :: l ≠ [] := List.cons_ne_nil b l
          have hne' : b :: l ++ [x] ≠ [] := List.append_ne_nil_of_left_ne_nil hne _
          rw [List.cons_append, List.intercalate_cons_of_ne_nil hne', ih hne,
            List.intercalate_cons_of_ne_nil hne]
          simp only [List.append_assoc]

theorem intercalate_concat_inj {α : Type} {sep : List α} {l : List (List α)} {x y : List α}
    (h : sep.intercalate (l ++ [x]) = sep.intercalate (l ++ [y])) : x = y := by
  by_cases hl : l = []
  · subst hl
    simpa using h
  · rw [intercalate_concat hl, intercalate_concat hl] at h
    exact List.append_cancel_left (List.append_cancel_left h)

/-- What was read as text has no carriage return. -/
theorem universalNewlines_clean (t : Text) : '\r' ∉ universalNewlines t := by
  fun_induction universalNewlines t with
  | case1 => simp
  | case2 t ih => simp [ih]
  | case3 t _ ih => simp [ih]
  | case4 c t _ hc ih =>
      have hne : c ≠ '\r' := fun h => hc h
      simp [ih, hne.symm]

theorem universalNewlines_iff (t : Text) : universalNewlines t = t ↔ '\r' ∉ t := by
  constructor
  · intro h
    rw [← h]
    exact universalNewlines_clean t
  · intro h
    fun_induction universalNewlines t with
    | case1 => rfl
    | case2 t ih => simp at h
    | case3 t _ ih => simp at h
    | case4 c t _ hc ih =>
        rw [ih fun hmem => h (List.mem_cons_of_mem c hmem)]

/-! ## One call -/

/-- The values that `append_artifact` is to be called with, and the time it takes. -/
structure NewArtifact.Valid (a : NewArtifact) (now : Text) : Prop where
  roundIndex : 0 ≤ a.roundIndex
  planRevision : 1 ≤ a.planRevision
  planFingerprint : a.planFingerprint ≠ []
  now : now ≠ []

variable {floats : JsonText.FloatText} {c : Text} {s t : PlanReviewFiles} {r : PlanReviewSession}
  {a : NewArtifact} {now : Text}

theorem load_exec (hr : s.records c = some r) (hok : checkRecord floats c r = .ok ()) :
    (load floats c).exec s = (.ok r, s) := by
  unfold load
  simp only [Command.exec_bind, Command.exec_get, hr, Command.exec_attempt, hok, Command.exec_pure]

/-- The record after an append. -/
def appended (r : PlanReviewSession) (a : NewArtifact) (now : Text) : PlanReviewSession :=
  { r with
    artifacts := r.artifacts ++ [artifactOf r.cycleId r.artifacts.length a]
    roundIndex := a.roundIndex
    planRevision := a.planRevision
    planFingerprint := a.planFingerprint
    updatedAt := now }

/-- The record passes the checks after an append as before. -/
theorem checkRecord_appended (hok : checkRecord floats c r = .ok ()) (ha : a.Valid now) :
    checkRecord floats c (appended r a now) = .ok () := by
  simp only [checkRecord, check_bind_ok, raiseIf_ok] at hok ⊢
  obtain ⟨hschema, hcycle, hidentity, hprovider, hartifacts, hsequence⟩ := hok
  refine ⟨hschema, hcycle, ?_, hprovider, ?_, ?_⟩
  · simp only [validateIdentity, check_bind_ok, raiseIf_ok] at hidentity ⊢
    obtain ⟨htexts, _⟩ := hidentity
    have hround := ha.roundIndex
    have hrevision := ha.planRevision
    constructor
    · simp only [List.mem_cons, List.not_mem_nil, or_false, exists_eq_or_imp, exists_eq_left,
        not_or] at htexts ⊢
      obtain ⟨hrepo, hc, hp, hconfig, hcwd, hkey, _, hcreated, _⟩ := htexts
      exact ⟨hrepo, hc, hp, hconfig, hcwd, hkey, ha.planFingerprint, hcreated, ha.now⟩
    · show ¬ (a.roundIndex < 0 ∨ a.planRevision < 1)
      omega
  · simp only [validateArtifacts, forM_ok, check_bind_ok, raiseIf_ok] at hartifacts ⊢
    intro artifact hmem
    rcases List.mem_append.mp hmem with hold | hnew
    · exact hartifacts artifact hold
    · obtain rfl := List.mem_singleton.mp hnew
      have hround := ha.roundIndex
      have hrevision := ha.planRevision
      have hdigest : (sha256Text a.content).length = 64 := Sha256.length_hexdigest _
      refine ⟨?_, not_not.mpr rfl⟩
      have hsequence' : ¬ (r.artifacts.length : Int) < 0 := by omega
      simp only [artifactOf, ha.planFingerprint, hdigest, hsequence', ne_eq, not_true_eq_false,
        or_false, false_or]
      omega
  · rw [not_not] at hsequence ⊢
    show (r.artifacts ++ [_]).map _ = (List.range (r.artifacts ++ [_]).length).map Int.ofNat
    rw [List.map_append, hsequence, List.length_append, List.length_singleton, List.range_succ,
      List.map_append]
    rfl

/-- The files after an append that is not the latest one repeated. -/
def afterAppend (s : PlanReviewFiles) (r : PlanReviewSession) (a : NewArtifact) (now : Text) :
    PlanReviewFiles :=
  { s with
    records := Function.update s.records r.cycleId (some (appended r a now))
    transcripts := Function.update s.transcripts r.cycleId
      (Function.update (s.transcripts r.cycleId) r.artifacts.length (some a.content)) }

theorem appendArtifact_exec (hr : s.records c = some r) (hok : checkRecord floats c r = .ok ())
    (a : NewArtifact) (now : Text) :
    (appendArtifact floats c a now).exec s =
      if isLatest r a then (.ok r, s) else (.ok (appended r a now), afterAppend s r a now) := by
  unfold appendArtifact
  rw [Command.exec_bind, load_exec hr hok]
  have hcycle := cycleId_of_checkRecord hok
  subst hcycle
  show Command.exec (if isLatest r a = true then _ else _) s = _
  split
  · rfl
  · rfl

theorem interruptedAppend_exec (hr : s.records c = some r)
    (hok : checkRecord floats c r = .ok ()) (a : NewArtifact) :
    (interruptedAppend floats c a).exec s =
      if isLatest r a then (.ok (), s)
      else (.ok (), { s with
        transcripts := Function.update s.transcripts c
          (Function.update (s.transcripts c) r.artifacts.length (some a.content)) }) := by
  unfold interruptedAppend
  rw [Command.exec_bind, load_exec hr hok]
  show Command.exec (if isLatest r a = true then _ else _) s = _
  split
  · rfl
  · rfl

/-- A call that died before its record was written is made good by the call. -/
theorem appendArtifact_recovers (hr : s.records c = some r)
    (hok : checkRecord floats c r = .ok ()) (a : NewArtifact) (now : Text) :
    ∃ u, (interruptedAppend floats c a).exec s = (.ok (), u)
      ∧ (appendArtifact floats c a now).exec u = (appendArtifact floats c a now).exec s := by
  rw [interruptedAppend_exec hr hok]
  split
  · exact ⟨s, rfl, rfl⟩
  · refine ⟨_, rfl, ?_⟩
    rw [appendArtifact_exec (by exact hr) hok, appendArtifact_exec hr hok]
    next hlatest =>
    rw [if_neg hlatest, if_neg hlatest]
    have hcycle := cycleId_of_checkRecord hok
    subst hcycle
    simp only [afterAppend, Function.update_self, Function.update_idem]

/-! ## Entries -/

/-- What `isLatest` compares of two artifacts. -/
def SameValues (a b : NewArtifact) : Prop :=
  a.kind = b.kind ∧ a.roundIndex = b.roundIndex ∧ a.planRevision = b.planRevision
    ∧ a.planFingerprint = b.planFingerprint ∧ sha256Text a.content = sha256Text b.content

instance (a b : NewArtifact) : Decidable (SameValues a b) :=
  inferInstanceAs (Decidable (_ ∧ _ ∧ _ ∧ _ ∧ _))

/-- The entries that are recorded of calls. -/
def recordedOf (calls : List NewArtifact) : List NewArtifact :=
  calls.foldl (fun entries a =>
    if ∃ b ∈ entries.getLast?, SameValues b a then entries else entries ++ [a]) []

/-- The record and the transcript files of a cycle hold entries. -/
def Holds (floats : JsonText.FloatText) (c : Text) (entries : List NewArtifact)
    (s : PlanReviewFiles) : Prop :=
  ∃ r, s.records c = some r ∧ checkRecord floats c r = .ok ()
    ∧ r.artifacts = entries.mapIdx (artifactOf c)
    ∧ ∀ i b, entries[i]? = some b → s.transcripts c i = some b.content

variable {entries : List NewArtifact}

theorem isLatest_iff (hartifacts : r.artifacts = entries.mapIdx (artifactOf c)) :
    isLatest r a = true ↔ ∃ b ∈ entries.getLast?, SameValues b a := by
  unfold isLatest SameValues
  rw [hartifacts, List.getLast?_mapIdx]
  cases entries.getLast? with
  | none => simp
  | some b => simp [artifactOf, and_assoc]

/-- One call, and the entries after it. -/
theorem Holds.append (h : Holds floats c entries s) (ha : a.Valid now) :
    ∃ r t, (appendArtifact floats c a now).exec s = (.ok r, t)
      ∧ Holds floats c
          (if ∃ b ∈ entries.getLast?, SameValues b a then entries else entries ++ [a]) t := by
  obtain ⟨r, hr, hok, hartifacts, hfiles⟩ := h
  rw [appendArtifact_exec hr hok]
  by_cases hlatest : ∃ b ∈ entries.getLast?, SameValues b a
  · rw [if_pos ((isLatest_iff hartifacts).mpr hlatest), if_pos hlatest]
    exact ⟨r, s, rfl, r, hr, hok, hartifacts, hfiles⟩
  · rw [if_neg fun h => hlatest ((isLatest_iff hartifacts).mp h), if_neg hlatest]
    refine ⟨_, _, rfl, appended r a now, ?_, checkRecord_appended hok ha, ?_, ?_⟩
    · have hcycle := cycleId_of_checkRecord hok
      subst hcycle
      exact Function.update_self _ _ _
    · have hcycle := cycleId_of_checkRecord hok
      have hlength : r.artifacts.length = entries.length := by
        rw [hartifacts, List.length_mapIdx]
      show r.artifacts ++ [artifactOf r.cycleId r.artifacts.length a] = _
      rw [List.mapIdx_concat, hcycle, hlength, hartifacts]
    · have hcycle := cycleId_of_checkRecord hok
      have hlength : r.artifacts.length = entries.length := by
        rw [hartifacts, List.length_mapIdx]
      intro i b hb
      show Function.update s.transcripts r.cycleId
        (Function.update (s.transcripts r.cycleId) r.artifacts.length (some a.content)) c i = _
      rw [hcycle, Function.update_self, hlength]
      by_cases hi : i = entries.length
      · subst hi
        rw [List.getElem?_concat_length] at hb
        rw [Function.update_self, Option.some.inj hb]
      · rw [Function.update_of_ne hi]
        refine hfiles i b ?_
        rw [List.getElem?_append_left] at hb
        · exact hb
        · have hlt := (List.getElem?_eq_some_iff.mp hb).1
          rw [List.length_append, List.length_singleton] at hlt
          omega

/-! ### The transcript of entries -/

theorem mapM_mapIdx_ok {α β γ : Type} {ε : Type} {f : β → Except ε γ} {g : Nat → α → β}
    {k : Nat → α → γ} {l : List α} (h : ∀ i a, l[i]? = some a → f (g i a) = .ok (k i a)) :
    (l.mapIdx g).mapM f = .ok (l.mapIdx k) := by
  induction l using List.reverseRecOn with
  | nil => rfl
  | append_singleton l a ih =>
      have hinit : (l.mapIdx g).mapM f = .ok (l.mapIdx k) := by
        refine ih fun i b hb => h i b ?_
        have hlt := (List.getElem?_eq_some_iff.mp hb).1
        rw [List.getElem?_append_left hlt, hb]
      have hlast := h l.length a List.getElem?_concat_length
      rw [List.mapIdx_concat, List.mapM_append, hinit, List.mapIdx_concat]
      simp [bind, Except.bind, hlast, pure, Except.pure]

theorem transcriptSection_eq {i : Nat} {b : NewArtifact}
    (hfile : s.transcripts c i = some b.content) :
    transcriptSection s c (artifactOf c i b) =
      if sha256Text (universalNewlines b.content) ≠ sha256Text b.content then
        .error (.lost "review transcript artifact digest mismatch")
      else .ok (headerLine (artifactOf c i b) ++ universalNewlines b.content) := by
  have hread : s.transcripts c (artifactOf c i b).sequence.toNat = some b.content := hfile
  unfold transcriptSection
  rw [hread]
  show (raiseIf (sha256Text (universalNewlines b.content) ≠ sha256Text b.content) _ >>= _) = _
  unfold raiseIf
  split
  · rfl
  · rfl

theorem transcript_exec (hr : s.records c = some r) (hok : checkRecord floats c r = .ok ())
    (hartifacts : r.artifacts = entries.mapIdx (artifactOf c)) :
    (transcript floats c).exec s =
      (((entries.mapIdx (artifactOf c)).mapM (transcriptSection s c)).map
        (['\n', '\n'].intercalate ·), s) := by
  unfold transcript
  rw [Command.exec_bind, load_exec hr hok, ← hartifacts]
  show Command.exec (Command.attempt (r.artifacts.mapM (transcriptSection s c))
    >>= fun sections => pure (['\n', '\n'].intercalate sections)) s = _
  rw [Command.exec_bind, Command.exec_attempt]
  cases r.artifacts.mapM (transcriptSection s c) with
  | error e => rfl
  | ok sections => rfl

theorem sections_of_clean (hfiles : ∀ i b, entries[i]? = some b → s.transcripts c i = some b.content)
    (hclean : ∀ b ∈ entries, '\r' ∉ b.content) :
    (entries.mapIdx (artifactOf c)).mapM (transcriptSection s c) =
      .ok (entries.mapIdx fun i b => headerLine (artifactOf c i b) ++ b.content) := by
  refine mapM_mapIdx_ok fun i b hb => ?_
  have hsame := (universalNewlines_iff b.content).mpr (hclean b (List.mem_of_getElem? hb))
  rw [transcriptSection_eq (hfiles i b hb), hsame]
  simp

/-- Entries without a carriage return come back as they are. -/
theorem Holds.transcript (h : Holds floats c entries s) (hclean : ∀ b ∈ entries, '\r' ∉ b.content) :
    (transcript floats c).exec s = (.ok (transcriptOf c entries), s) := by
  obtain ⟨r, hr, hok, hartifacts, hfiles⟩ := h
  rw [transcript_exec hr hok hartifacts, sections_of_clean hfiles hclean]
  rfl

/-- An entry that comes back as it is after such entries is one of them. -/
theorem Holds.clean_of_transcript (h : Holds floats c (entries ++ [a]) s)
    (hclean : ∀ b ∈ entries, '\r' ∉ b.content)
    (hexact : (PlanReview.transcript floats c).exec s
      = (.ok (transcriptOf c (entries ++ [a])), s)) : '\r' ∉ a.content := by
  obtain ⟨r, hr, hok, hartifacts, hfiles⟩ := h
  have hinit : ∀ i b, entries[i]? = some b → s.transcripts c i = some b.content := by
    intro i b hb
    have hlt := (List.getElem?_eq_some_iff.mp hb).1
    exact hfiles i b (by rw [List.getElem?_append_left hlt, hb])
  have hlast := transcriptSection_eq (hfiles entries.length a List.getElem?_concat_length)
  rw [transcript_exec hr hok hartifacts, List.mapIdx_concat, List.mapM_append,
    sections_of_clean hinit hclean] at hexact
  unfold transcriptOf at hexact
  rw [List.mapIdx_concat] at hexact
  split at hlast
  · simp [bind, Except.bind, hlast, Except.map] at hexact
  · simp only [bind, Except.bind, hlast, pure, Except.pure, Except.map, List.mapM_cons,
      List.mapM_nil, Prod.mk.injEq, Except.ok.injEq, and_true] at hexact
    have hsection := List.append_cancel_left (intercalate_concat_inj hexact)
    exact (universalNewlines_iff a.content).mp hsection

/-! ## Runs -/

/-- What is to hold of a cycle after calls: the record loads, the transcript has the
contents as they were, the latest call changes nothing, and a call that is made again
after a crash gives what it would have given. -/
structure RoundTrip (floats : JsonText.FloatText) (c : Text) (calls : List NewArtifact)
    (t : PlanReviewFiles) : Prop where
  loads : ∃ r, (load floats c).exec t = (.ok r, t)
  transcript : (transcript floats c).exec t = (.ok (transcriptOf c (entriesOf calls)), t)
  repeated : ∀ a ∈ calls.getLast?, ∀ now,
    (appendArtifact floats c a now).exec t = (load floats c).exec t
  recovers : ∀ a now, ∃ u, (interruptedAppend floats c a).exec t = (.ok (), u)
    ∧ (appendArtifact floats c a now).exec u = (appendArtifact floats c a now).exec t

/-- A call after others whose content reading leaves alone, and that is not mistaken for
the call before it. -/
def Plain (calls : List NewArtifact) (a : NewArtifact) : Prop :=
  '\r' ∉ a.content ∧ ∀ b ∈ calls.getLast?, SameValues b a → b = a

/-- Every call is such a call after those before it. -/
def AllPlain (calls : List NewArtifact) : Prop := ∀ p a, p ++ [a] <+: calls → Plain p a

variable {calls : List NewArtifact}

theorem allPlain_concat : AllPlain (calls ++ [a]) ↔ AllPlain calls ∧ Plain calls a := by
  constructor
  · intro h
    exact ⟨fun p b hp => h p b (hp.trans (List.prefix_append _ _)), h calls a (List.prefix_refl _)⟩
  · intro ⟨hinit, hlast⟩ p b hp
    rcases List.prefix_concat_iff.mp hp with heq | hp
    · obtain ⟨hcalls, hab⟩ := List.append_inj' heq rfl
      rw [hcalls, List.singleton_inj.mp hab]
      exact hlast
    · exact hinit p b hp

theorem entriesOf_concat (calls : List NewArtifact) (a : NewArtifact) : entriesOf (calls ++ [a]) =
    if (entriesOf calls).getLast? = some a then entriesOf calls else entriesOf calls ++ [a] := by
  unfold entriesOf
  rw [List.foldl_append]
  rfl

theorem recordedOf_concat (calls : List NewArtifact) (a : NewArtifact) :
    recordedOf (calls ++ [a]) =
      if ∃ b ∈ (recordedOf calls).getLast?, SameValues b a then recordedOf calls
      else recordedOf calls ++ [a] := by
  unfold recordedOf
  rw [List.foldl_append]
  rfl

/-- The latest entry is the latest call. -/
theorem getLast?_entriesOf (calls : List NewArtifact) :
    (entriesOf calls).getLast? = calls.getLast? := by
  cases calls using List.reverseRecOn with
  | nil => rfl
  | append_singleton calls a =>
      rw [entriesOf_concat, List.getLast?_concat]
      split
      · assumption
      · exact List.getLast?_concat

theorem getLast?_recordedOf (ha : a ∈ calls.getLast?) :
    ∃ b ∈ (recordedOf calls).getLast?, SameValues b a := by
  cases calls using List.reverseRecOn with
  | nil => cases ha
  | append_singleton calls b =>
      rw [List.getLast?_concat] at ha
      obtain rfl := Option.some.inj ha
      rw [recordedOf_concat]
      split
      · assumption
      · exact ⟨b, List.getLast?_concat, rfl, rfl, rfl, rfl, rfl⟩

/-- Where no call is mistaken, the entries are recorded. -/
theorem recordedOf_eq (h : AllPlain calls) : recordedOf calls = entriesOf calls := by
  induction calls using List.reverseRecOn with
  | nil => rfl
  | append_singleton calls a ih =>
      obtain ⟨hinit, _, hlast⟩ := allPlain_concat.mp h
      rw [recordedOf_concat, entriesOf_concat, ih hinit]
      refine if_congr ?_ rfl rfl
      rw [← getLast?_entriesOf] at hlast
      constructor
      · rintro ⟨b, hb, hsame⟩
        rw [← hlast b hb hsame]
        exact hb
      · exact fun hb => ⟨a, hb, rfl, rfl, rfl, rfl, rfl⟩

theorem entriesOf_clean (h : AllPlain calls) : ∀ b ∈ entriesOf calls, '\r' ∉ b.content := by
  induction calls using List.reverseRecOn with
  | nil => exact fun b hb => absurd hb List.not_mem_nil
  | append_singleton calls a ih =>
      obtain ⟨hinit, hclean, _⟩ := allPlain_concat.mp h
      rw [entriesOf_concat]
      split
      · exact ih hinit
      · intro b hb
        rcases List.mem_append.mp hb with hb | hb
        · exact ih hinit b hb
        · rw [List.mem_singleton.mp hb]
          exact hclean

theorem transcriptOf_concat_ne (hne : entries ≠ []) :
    transcriptOf c entries ≠ transcriptOf c (entries ++ [a]) := by
  unfold transcriptOf
  have hsections : entries.mapIdx (fun i b => headerLine (artifactOf c i b) ++ b.content) ≠ [] := by
    simpa using hne
  rw [List.mapIdx_concat, intercalate_concat hsections]
  simp

/-- A transcript that is exact after calls that were, and then one more. -/
theorem plain_of_transcript (h : Holds floats c (recordedOf (calls ++ [a])) s)
    (hplain : AllPlain calls)
    (hexact : (transcript floats c).exec s
      = (.ok (transcriptOf c (entriesOf (calls ++ [a]))), s)) : Plain calls a := by
  have hclean := entriesOf_clean hplain
  rw [recordedOf_concat, recordedOf_eq hplain] at h
  rw [entriesOf_concat] at hexact
  unfold Plain
  rw [← getLast?_entriesOf]
  by_cases hlatest : ∃ b ∈ (entriesOf calls).getLast?, SameValues b a
  · -- the call was taken for the latest: its entry is not there unless it is that
    rw [if_pos hlatest] at h
    obtain ⟨b, hb, _⟩ := hlatest
    have hb' : (entriesOf calls).getLast? = some b := hb
    by_cases hsame : (entriesOf calls).getLast? = some a
    · refine ⟨hclean a (List.mem_of_getLast? hsame), fun b' hb'' _ => ?_⟩
      exact Option.some.inj (hb''.symm.trans hsame)
    · rw [if_neg hsame, h.transcript hclean] at hexact
      have hne : entriesOf calls ≠ [] := by
        intro hnil
        rw [hnil] at hb'
        cases hb'
      exact absurd (Except.ok.inj (Prod.mk.inj hexact).1) (transcriptOf_concat_ne hne)
  · have hsame : (entriesOf calls).getLast? ≠ some a :=
      fun hlast => hlatest ⟨a, hlast, rfl, rfl, rfl, rfl, rfl⟩
    rw [if_neg hlatest] at h
    rw [if_neg hsame] at hexact
    exact ⟨h.clean_of_transcript hclean hexact, fun b hb hvalues => absurd ⟨b, hb, hvalues⟩ hlatest⟩

/-- What holds of the files apart from the transcript. -/
theorem Holds.roundTrip (h : Holds floats c (recordedOf calls) t)
    (hexact : (PlanReview.transcript floats c).exec t
      = (.ok (transcriptOf c (entriesOf calls)), t)) : RoundTrip floats c calls t := by
  obtain ⟨r, hr, hok, hartifacts, _⟩ := h
  refine ⟨⟨r, load_exec hr hok⟩, hexact, fun a ha now => ?_, fun a now =>
    appendArtifact_recovers hr hok a now⟩
  rw [appendArtifact_exec hr hok, if_pos ((isLatest_iff hartifacts).mpr (getLast?_recordedOf ha)),
    load_exec hr hok]

/-- All calls go through, and the files hold what is recorded of them. -/
theorem appendAll_exec {calls : List (NewArtifact × Text)} (h : Holds floats c entries s)
    (hvalid : ∀ x ∈ calls, x.1.Valid x.2) :
    ∃ t, (appendAll floats c calls).exec s = (.ok (), t)
      ∧ Holds floats c ((calls.map Prod.fst).foldl (fun entries a =>
          if ∃ b ∈ entries.getLast?, SameValues b a then entries else entries ++ [a]) entries) t := by
  induction calls generalizing entries s with
  | nil => exact ⟨s, rfl, h⟩
  | cons x calls ih =>
      rw [List.forall_mem_cons] at hvalid
      obtain ⟨r, t, happend, ht⟩ := h.append hvalid.1
      obtain ⟨u, hrest, hu⟩ := ih ht hvalid.2
      refine ⟨u, ?_, hu⟩
      unfold appendAll
      rw [Command.exec_bind, happend]
      exact hrest

/-- After every call of a run the cycle is as it is to be. -/
def RoundTrips (floats : JsonText.FloatText) (c : Text) (s : PlanReviewFiles)
    (calls : List (NewArtifact × Text)) : Prop :=
  ∀ p, p <+: calls → ∃ t, (appendAll floats c p).exec s = (.ok (), t)
    ∧ RoundTrip floats c (p.map Prod.fst) t

theorem allPlain_of_roundTrips (h : Holds floats c [] s) {calls : List (NewArtifact × Text)}
    (hvalid : ∀ x ∈ calls, x.1.Valid x.2) (htrips : RoundTrips floats c s calls) :
    AllPlain (calls.map Prod.fst) := by
  induction calls using List.reverseRecOn with
  | nil =>
      intro p a hp
      exact absurd (List.prefix_nil.mp hp) (List.append_ne_nil_of_right_ne_nil p (by simp))
  | append_singleton calls x ih =>
      rw [List.map_append, List.map_singleton, allPlain_concat]
      have hinit := ih (fun y hy => hvalid y (List.mem_append_left _ hy))
        fun p hp => htrips p (hp.trans (List.prefix_append _ _))
      obtain ⟨t, hrun, htrip⟩ := htrips (calls ++ [x]) (List.prefix_refl _)
      obtain ⟨t', hrun', hholds⟩ := appendAll_exec h hvalid
      obtain rfl := (Prod.mk.inj (hrun.symm.trans hrun')).2
      have hexact := htrip.transcript
      rw [List.map_append, List.map_singleton] at hexact hholds
      exact ⟨hinit, plain_of_transcript hholds hinit hexact⟩

theorem roundTrips_of_allPlain (h : Holds floats c [] s) {calls : List (NewArtifact × Text)}
    (hvalid : ∀ x ∈ calls, x.1.Valid x.2) (hplain : AllPlain (calls.map Prod.fst)) :
    RoundTrips floats c s calls := by
  intro p hp
  obtain ⟨t, hrun, hholds⟩ := appendAll_exec h fun x hx => hvalid x (hp.subset hx)
  have hp' : AllPlain (p.map Prod.fst) := fun q a hq => hplain q a (hq.trans (hp.map Prod.fst))
  refine ⟨t, hrun, Holds.roundTrip hholds ?_⟩
  have hentries : Holds floats c (entriesOf (p.map Prod.fst)) t := by
    rw [← recordedOf_eq hp']
    exact hholds
  exact hentries.transcript (entriesOf_clean hp')

theorem holds_nil (hr : s.records c = some r) (hok : checkRecord floats c r = .ok ())
    (hnone : r.artifacts = []) : Holds floats c [] s :=
  ⟨r, hr, hok, hnone, fun i b hb => by cases hb⟩

/-- A run of calls keeps the cycle as it is to be exactly where every content comes back
from a text file and no call is mistaken for the one before it. -/
theorem roundTrips_iff (hr : s.records c = some r) (hok : checkRecord floats c r = .ok ())
    (hnone : r.artifacts = []) {calls : List (NewArtifact × Text)}
    (hvalid : ∀ x ∈ calls, x.1.Valid x.2) :
    RoundTrips floats c s calls ↔ AllPlain (calls.map Prod.fst) := by
  have hstart := holds_nil hr hok hnone
  exact ⟨allPlain_of_roundTrips hstart hvalid, roundTrips_of_allPlain hstart hvalid⟩

/-! ## A content with a line end of two characters -/

/-- The files after a cycle was started. -/
def startedCycle : PlanReviewFiles :=
  { noJournal.files with
    records := fun cycleId =>
      if cycleId = ['c'] then some (codexCycle.record noFloats ['c'] ['t']) else none }

theorem startedCycle_checked :
    checkRecord noFloats ['c'] (codexCycle.record noFloats ['c'] ['t']) = .ok () := by
  decide +kernel

def windowsFinding : NewArtifact := { firstFinding with content := "No tests.\r\n".toList }

theorem valid_firstFinding : firstFinding.Valid ['u'] :=
  ⟨by decide, by decide, by decide, by decide⟩

/-- A finding with such a line end was appended, and its transcript raises. -/
theorem windowsFinding_lost :
    ¬ RoundTrips noFloats ['c'] startedCycle [(windowsFinding, ['u'])] := by
  intro htrips
  have hplain := allPlain_of_roundTrips (holds_nil rfl startedCycle_checked rfl)
    (fun x hx => by
      obtain rfl := List.mem_singleton.mp hx
      exact ⟨by decide, by decide, by decide, by decide⟩) htrips
  exact (hplain [] windowsFinding (List.prefix_refl _)).1 (by decide)

theorem roundTrips_iff_findings :
    RoundTrips noFloats ['c'] startedCycle [(firstFinding, ['u']), (firstFinding, ['v'])]
      ↔ AllPlain [firstFinding, firstFinding] :=
  roundTrips_iff rfl
    startedCycle_checked rfl fun x hx => by
      rcases List.mem_pair.mp hx with rfl | rfl
      · exact valid_firstFinding
      · exact ⟨by decide, by decide, by decide, by decide⟩

end Hephaestus.Automation.PlanReview
