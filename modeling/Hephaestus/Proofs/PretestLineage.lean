import Hephaestus.Lib.Run
import Hephaestus.Proofs.AuditReceipts
import Hephaestus.Proofs.PretestRecords

/-!
# The lineage of pretest candidates

What the store of a pull request holds over time, whoever calls it. The rules of
`Follows` are the abstract account: the first candidate, what may come after a ready
one, what may come after one that was invalidated. Each rule raises a rank, and that
orders every history.

A call is taken apart once. It either raises, and then it added at most an archive;
or it found its candidate stored and wrote nothing; or it wrote, and then the record
it read was the one its caller had seen, and the candidate follows it. The read after
the write cannot fail, because a record is read as the candidate it was written for.
The results about runs only add up these steps.
-/

namespace Hephaestus.Automation.Remediation

open Hephaestus.Lib Hephaestus.Lib.JsonText Hephaestus.Automation.Delivery

/-! ## Lineages -/

/-- What a replacement has in common with the candidate before it. -/
structure SameOperation (old new : PretestFields) : Prop where
  repository : new.repository = old.repository
  issueNumber : new.issueNumber = old.issueNumber
  prNumber : new.prNumber = old.prNumber
  repoRoot : new.repoRoot = old.repoRoot
  worktreePath : new.worktreePath = old.worktreePath
  branch : new.branch = old.branch
  expectedRemoteSha : new.expectedRemoteSha = old.expectedRemoteSha
  sourceReceipt : new.sourceReceipt = old.sourceReceipt
  sourceReceiptSha256 : new.sourceReceiptSha256 = old.sourceReceiptSha256
  sourceRepositoryIdentity : new.sourceRepositoryIdentity = old.sourceRepositoryIdentity
  sourceOwnershipKey : new.sourceOwnershipKey = old.sourceOwnershipKey
  sourceGeneration : new.sourceGeneration = old.sourceGeneration
  threadSnapshotJson : new.threadSnapshotJson = old.threadSnapshotJson
  batchNonce : new.batchNonce = old.batchNonce

/-- `new` may be stored where `old` is. -/
inductive Follows : Option PretestFields → PretestFields → Prop
  | first {new : PretestFields} : new.phase = .ready → new.candidateSequence = 1 →
      Follows none new
  | closed {old new : PretestFields} : old.phase = .ready →
      new.phase = .invalidated ∨ new.phase = .consumed →
      new = { old with phase := new.phase, consumedHead := new.consumedHead } →
      Follows (some old) new
  | replaced {old new : PretestFields} : old.phase = .invalidated → new.phase = .ready →
      new.candidateSequence = old.candidateSequence + 1 → SameOperation old new →
      new.successfulJobId ≠ old.successfulJobId → Follows (some old) new

/-- Each candidate follows the one before it. -/
def Lineage (old : Option PretestFields) : List PretestFields → Prop
  | [] => True
  | new :: rest => Follows old new ∧ Lineage (some new) rest

/-- How far a candidate is: two for each sequence number, one for being closed. -/
def rank (c : PretestFields) : Int :=
  2 * c.candidateSequence + if c.phase = .ready then 0 else 1

theorem Follows.rank_lt {old new : PretestFields} (h : Follows (some old) new) :
    rank old < rank new := by
  cases h with
  | closed hold hnew hsame =>
      have hopen : new.phase ≠ .ready := by
        rcases hnew with hnew | hnew
        · simp [hnew]
        · simp [hnew]
      have hsequence : new.candidateSequence = old.candidateSequence := by rw [hsame]
      rw [rank, rank, if_pos hold, if_neg hopen, hsequence]
      omega
  | replaced hold hnew hsequence _ _ =>
      have hclosed : old.phase ≠ .ready := by simp [hold]
      rw [rank, rank, if_neg hclosed, if_pos hnew, hsequence]
      omega

/-- No step leads away from a consumed candidate. -/
theorem Follows.phase_ne_consumed {old new : PretestFields} (h : Follows (some old) new) :
    old.phase ≠ .consumed := by
  cases h with
  | closed hold _ _ => simp [hold]
  | replaced hold _ _ _ _ => simp [hold]

theorem Lineage.append {old : Option PretestFields} {l : List PretestFields} {new : PretestFields}
    (h : Lineage old l) (hnew : Follows (l.getLast?.or old) new) : Lineage old (l ++ [new]) := by
  induction l generalizing old with
  | nil => exact ⟨hnew, trivial⟩
  | cons c l ih =>
      refine ⟨h.1, ih h.2 ?_⟩
      rw [List.getLast?_cons] at hnew
      cases hl : l.getLast? with
      | none =>
          rw [hl] at hnew
          exact hnew
      | some d =>
          rw [hl] at hnew
          exact hnew

/-- What comes after a candidate has a higher rank. -/
theorem Lineage.rank_lt {c : PretestFields} {l : List PretestFields} (h : Lineage (some c) l) :
    ∀ d ∈ l, rank c < rank d := by
  induction l generalizing c with
  | nil => exact fun _ hd => absurd hd List.not_mem_nil
  | cons next l ih =>
      have hstep := h.1.rank_lt
      intro d hd
      rcases List.mem_cons.mp hd with rfl | hd
      · exact hstep
      · exact hstep.trans (ih h.2 d hd)

/-- The candidates of a lineage rise in rank. -/
theorem Lineage.pairwise_rank {old : Option PretestFields} {l : List PretestFields}
    (h : Lineage old l) : l.Pairwise fun a b => rank a < rank b := by
  induction l generalizing old with
  | nil => exact List.Pairwise.nil
  | cons c l ih => exact List.Pairwise.cons h.2.rank_lt (ih h.2)

/-! ## Names -/

theorem pretestTemporary_ne (n : Int) (unique : Text) :
    pretestTemporary n unique ≠ pretestFilename n := by
  intro h
  have hlength := congrArg List.length h
  simp [pretestTemporary] at hlength

theorem pretestHistory_ne (n : Int) (digest : Text) : pretestHistory n digest ≠ pretestFilename n := by
  simp [pretestHistory, pretestFilename]

theorem pretestHistory_ne_temporary (n : Int) (digest unique : Text) :
    pretestHistory n digest ≠ pretestTemporary n unique := by
  simp [pretestHistory, pretestTemporary, pretestFilename]

/-! ## Files of candidates -/

section Store

variable {py : PyCasts} {floats : FloatText}

/-- The text of the file of a candidate, where there is one. -/
def recordText (floats : FloatText) (r : Option (PretestCandidate py floats)) : Option Text :=
  r.map fun c => c.val.canonicalText floats

theorem canonicalText_injective {a b : PretestCandidate py floats}
    (h : a.val.canonicalText floats = b.val.canonicalText floats) : a = b := by
  have ha := parsePretest_record a
  rw [h, parsePretest_record b] at ha
  exact Option.some.inj ha.symm

theorem recordText_injective {a b : Option (PretestCandidate py floats)}
    (h : recordText floats a = recordText floats b) : a = b :=
  Option.map_injective (fun _ _ => canonicalText_injective) h

/-- The candidate the store holds. -/
def storedCandidate (py : PyCasts) (floats : FloatText) (n : Int) (files : StoreFiles) :
    Option (PretestCandidate py floats) :=
  (files (pretestFilename n)).bind (parsePretest py floats)

theorem storedCandidate_of {n : Int} {files : StoreFiles} {r : Option (PretestCandidate py floats)}
    (h : files (pretestFilename n) = recordText floats r) :
    storedCandidate py floats n files = r := by
  rw [storedCandidate, h]
  cases r with
  | none => rw [recordText, Option.map_none, Option.bind_none]
  | some c => rw [recordText, Option.map_some, Option.bind_some, parsePretest_record]

variable {name : Text} {s : StoreFiles} {E : StoreError → StoreFiles → Prop}
  {Q : Option (PretestCandidate py floats) → StoreFiles → Prop}

/-- A read returns what the file was written for, or raises. -/
theorem wp_readPretest (hread : ∀ r, s name = recordText floats r → Q r s) (hraise : ∀ e, E e s) :
    (readPretest py floats name).wp Q E s := by
  unfold readPretest
  rw [Command.wp_bind, Command.wp_get]
  split
  · next hname => exact hread none hname
  · next data hname =>
    split
    · next c hparse =>
      refine hread (some c) ?_
      rw [hname, ← canonicalText_of_parsePretest hparse]
      rfl
    · exact hraise _

/-- The file of a candidate is read without an error. -/
theorem wp_readPretest_of {r : Option (PretestCandidate py floats)}
    (h : s name = recordText floats r) (hQ : Q r s) :
    (readPretest py floats name).wp Q E s := by
  unfold readPretest
  rw [Command.wp_bind, Command.wp_get, h]
  cases r with
  | none =>
      simp only [recordText, Option.map_none]
      exact hQ
  | some c =>
      simp only [recordText, Option.map_some, parsePretest_record]
      exact hQ

/-- A file that is there is not written. -/
theorem wp_writePretestBytes {data : Text} {Q : Unit → StoreFiles → Prop}
    (hwrite : s name = none → Q () (Function.update s name (some data)))
    (hraise : ∀ e, E e s) : (writePretestBytes name data).wp Q E s := by
  unfold writePretestBytes
  rw [Command.wp_bind, Command.wp_get]
  split
  · exact hraise _
  · next hname =>
    rw [Option.not_isSome_iff_eq_none] at hname
    exact hwrite hname

/-! ## One call -/

/-- No archive is written again. -/
def KeepsArchives (n : Int) (s t : StoreFiles) : Prop :=
  ∀ digest data, s (pretestHistory n digest) = some data → t (pretestHistory n digest) = some data

/-- The record a call found is the one its caller saw, and its candidate follows it. -/
def Precedes (call : SavePretest py floats) (s : StoreFiles)
    (r : Option (PretestCandidate py floats)) : Prop :=
  s (pretestFilename call.candidate.val.prNumber) = recordText floats r
    ∧ Follows (r.map PretestCandidate.val) call.candidate.val
    ∧ call.expectedDigest = r.map fun c => c.val.digest floats

/-- A call that stored its candidate. -/
structure Stores (call : SavePretest py floats) (s t : StoreFiles) : Prop where
  record : t (pretestFilename call.candidate.val.prNumber) = recordText floats (some call.candidate)
  old : ∃ r, Precedes call s r
    ∧ ∀ c ∈ r, t (pretestHistory call.candidate.val.prNumber (c.val.digest floats))
      = some (c.val.canonicalText floats)
  archives : KeepsArchives call.candidate.val.prNumber s t

/-- A call that might have stored its candidate, and raised. -/
structure Stops (call : SavePretest py floats) (s t : StoreFiles) : Prop where
  record : t (pretestFilename call.candidate.val.prNumber)
    = s (pretestFilename call.candidate.val.prNumber)
  old : ∃ r, Precedes call s r
  archives : KeepsArchives call.candidate.val.prNumber s t

theorem sameOperation_of {old new : PretestFields} (h : sameStableFields old new = true) :
    SameOperation old new := by
  simp only [sameStableFields, Bool.and_eq_true, beq_iff_eq, decide_eq_true_eq, and_assoc] at h
  obtain ⟨hrepository, hissue, hpr, hroot, hworktree, hbranch, hremote, hreceipt, hsha, hidentity,
    howner, hgeneration, hthreads, hbatch⟩ := h
  exact ⟨hrepository.symm, hissue.symm, hpr.symm, hroot.symm, hworktree.symm, hbranch.symm,
    hremote.symm, hreceipt.symm, hsha.symm, hidentity.symm, howner.symm, hgeneration.symm,
    hthreads.symm, hbatch.symm⟩

theorem closed_of_ne_ready {phase : PretestPhase} (h : phase ≠ .ready) :
    phase = .invalidated ∨ phase = .consumed := by
  cases phase with
  | ready => exact absurd rfl h
  | invalidated => exact .inl rfl
  | consumed => exact .inr rfl

/-- The checks let through what follows the record its caller saw. -/
theorem validatePretestTransition_ok {current : Option (PretestCandidate py floats)}
    {candidate : PretestCandidate py floats} {expected previous : Option Text}
    (h : validatePretestTransition py floats current candidate expected previous = .ok ()) :
    Follows (current.map PretestCandidate.val) candidate.val
      ∧ expected = current.map fun c => c.val.digest floats := by
  unfold validatePretestTransition at h
  cases current with
  | none =>
      simp only [raiseIf_ok, not_or, not_not, Option.not_isSome_iff_eq_none, ne_eq] at h
      obtain ⟨hexpected, hphase, hsequence⟩ := h
      exact ⟨.first hphase hsequence, hexpected⟩
  | some current =>
      obtain ⟨hdigest, h⟩ := check_bind_ok.mp h
      rw [raiseIf_ok, not_not] at hdigest
      refine ⟨?_, hdigest.symm⟩
      split at h
      · next hclose =>
        rw [raiseIf_ok, not_not] at h
        exact .closed hclose.1 (closed_of_ne_ready hclose.2) h
      · split at h
        · next hreplace =>
          simp only [raiseIf_ok, not_or, not_not, Bool.not_eq_false, ne_eq] at h
          obtain ⟨hsame, hsequence, _, hjob⟩ := h
          exact .replaced hreplace.1 hreplace.2 hsequence (sameOperation_of hsame) hjob
        · cases h

variable {s : StoreFiles} {E : StoreError → StoreFiles → Prop}

/-- After the archive step the candidate is archived, and nothing else has changed. -/
theorem wp_archivePretest {n : Int} {c : PretestCandidate py floats} {Q : Unit → StoreFiles → Prop}
    (hdone : ∀ t, t (pretestFilename n) = s (pretestFilename n) → KeepsArchives n s t →
      t (pretestHistory n (c.val.digest floats)) = some (c.val.canonicalText floats) → Q () t)
    (hraise : ∀ e, E e s) : (archivePretest py floats n c).wp Q E s := by
  unfold archivePretest
  rw [Command.wp_bind]
  refine wp_readPretest (fun r hr => ?_) hraise
  cases r with
  | none =>
      refine wp_writePretestBytes (fun hnone => hdone _ ?_ ?_ ?_) hraise
      · exact Function.update_of_ne (pretestHistory_ne _ _).symm _ _
      · intro digest data hdata
        rw [Function.update_of_ne _ _ _, hdata]
        intro heq
        rw [heq, hnone] at hdata
        cases hdata
      · exact Function.update_self _ _ _
  | some archived =>
      refine Command.wp_attempt (fun u hok => ?_) (fun e _ => hraise e)
      rw [raiseIf_ok, not_not] at hok
      refine hdone s rfl (fun _ _ hdata => hdata) ?_
      rw [hr, hok]
      rfl

/-- The replacement does not fail once its temporary file is written. -/
theorem wp_replacePretest {c : PretestCandidate py floats} {unique : Text}
    {Q : Unit → StoreFiles → Prop}
    (hdone : ∀ t, t (pretestFilename c.val.prNumber) = recordText floats (some c) →
      (∀ digest, t (pretestHistory c.val.prNumber digest) = s (pretestHistory c.val.prNumber digest)) →
      Q () t)
    (hraise : ∀ e, E e s) : (replacePretest py floats c unique).wp Q E s := by
  unfold replacePretest replaceFile
  rw [Command.wp_bind]
  refine wp_writePretestBytes (fun _ => ?_) hraise
  rw [Command.wp_bind, Command.wp_modify, Command.wp_bind]
  have hrecord : ∀ files : StoreFiles,
      Function.update (Function.update files (pretestFilename c.val.prNumber)
        (some (c.val.canonicalText floats))) (pretestTemporary c.val.prNumber unique) none
        (pretestFilename c.val.prNumber) = recordText floats (some c) := by
    intro files
    rw [Function.update_of_ne (pretestTemporary_ne _ _).symm, Function.update_self]
    rfl
  rw [Function.update_self]
  refine wp_readPretest_of (hrecord _) ?_
  refine Command.wp_attempt (fun u _ => hdone _ (hrecord _) fun digest => ?_) fun e he => ?_
  · rw [Function.update_of_ne (pretestHistory_ne_temporary _ _ _),
      Function.update_of_ne (pretestHistory_ne _ _),
      Function.update_of_ne (pretestHistory_ne_temporary _ _ _)]
  · simp [raiseIf] at he

/-- A call that returns found its candidate stored or stored it. One that raises changed
nothing, or it got past the checks and added an archive at most. -/
theorem savePretestCandidate_spec (call : SavePretest py floats) (unique : Text)
    (s : StoreFiles) :
    (savePretestCandidate py floats call unique).wp
      (fun _ t => (t = s ∧ s (pretestFilename call.candidate.val.prNumber)
          = recordText floats (some call.candidate)) ∨ Stores call s t)
      (fun _ t => t = s ∨ Stops call s t) s := by
  have hraise : ∀ e : StoreError, s = s ∨ Stops call s s := fun _ => .inl rfl
  unfold savePretestCandidate
  rw [Command.wp_bind]
  refine Command.wp_attempt (fun _ _ => ?_) fun e _ => hraise e
  rw [Command.wp_bind]
  refine wp_readPretest (fun current hcurrent => ?_) hraise
  split
  · next heq =>
    rw [Command.wp_bind]
    refine Command.wp_attempt (fun _ _ => ?_) fun e _ => hraise e
    rw [Command.wp_pure]
    exact .inl ⟨rfl, heq ▸ hcurrent⟩
  · rw [Command.wp_bind]
    refine Command.wp_attempt (fun _ hvalid => ?_) fun e _ => hraise e
    obtain ⟨hfollows, hexpected⟩ := validatePretestTransition_ok hvalid
    have hprecedes : Precedes call s current := ⟨hcurrent, hfollows, hexpected⟩
    cases current with
    | none =>
        rw [Command.wp_bind]
        refine wp_replacePretest (fun t hrecord hhistory => ?_) hraise
        rw [Command.wp_pure]
        refine .inr ⟨hrecord, ⟨none, hprecedes, fun c hc => ?_⟩, fun digest data hdata => ?_⟩
        · exact absurd hc (Option.not_mem_none c)
        · rw [hhistory, hdata]
    | some c =>
        rw [Command.wp_bind]
        refine wp_archivePretest (fun u hsame harchives harchived => ?_) hraise
        rw [Command.wp_bind]
        refine wp_replacePretest (fun t hrecord hhistory => ?_)
          fun _ => .inr ⟨hsame, ⟨some c, hprecedes⟩, harchives⟩
        rw [Command.wp_pure]
        refine .inr ⟨hrecord, ⟨some c, hprecedes, fun d hd => ?_⟩, fun digest data hdata => ?_⟩
        · rw [← Option.some.inj hd, hhistory, harchived]
        · rw [hhistory, harchives digest data hdata]

/-! ## Runs -/

/-- A call, and the name its temporary file gets. -/
structure PretestEvent (py : PyCasts) (floats : FloatText) where
  call : SavePretest py floats
  unique : Text

/-- One call at a time has the lock, and every call ends. -/
def pretestStep (py : PyCasts) (floats : FloatText) (files : StoreFiles)
    (e : PretestEvent py floats) : Option StoreFiles :=
  some ((savePretestCandidate py floats e.call e.unique).exec files).2

/-- The call of a transition returned. -/
def Returned (x : Transition StoreFiles (PretestEvent py floats)) : Prop :=
  ((savePretestCandidate py floats x.event.call x.event.unique).exec x.pre).1.isOk = true

/-- The call of a transition changed the record. -/
def changesRecord (n : Int) (x : Transition StoreFiles (PretestEvent py floats)) : Bool :=
  x.post (pretestFilename n) != x.pre (pretestFilename n)

/-- The candidates a run stored, in order. -/
def storedSequence (n : Int) (tr : List (Transition StoreFiles (PretestEvent py floats))) :
    List (PretestCandidate py floats) :=
  (tr.filter (changesRecord n)).filterMap fun x => storedCandidate py floats n x.post

theorem storedSequence_append (n : Int)
    (tr tr' : List (Transition StoreFiles (PretestEvent py floats))) :
    storedSequence n (tr ++ tr') = storedSequence n tr ++ storedSequence n tr' := by
  rw [storedSequence, List.filter_append, List.filterMap_append]
  rfl

variable {n : Int} {x : Transition StoreFiles (PretestEvent py floats)}
  {tr : List (Transition StoreFiles (PretestEvent py floats))}

theorem storedSequence_kept (h : x.post (pretestFilename n) = x.pre (pretestFilename n)) :
    storedSequence n [x] = [] := by
  have hkept : ¬ changesRecord n x = true := by simp [changesRecord, h]
  rw [storedSequence, List.filter_cons_of_neg hkept]
  rfl

/-- What a transition of a run of calls is. -/
theorem transition_cases (hstep : pretestStep py floats x.pre x.event = some x.post)
    (hn : x.event.call.candidate.val.prNumber = n) :
    (x.post = x.pre ∧ (Returned x → x.pre (pretestFilename n)
        = recordText floats (some x.event.call.candidate)))
      ∨ (¬ Returned x ∧ Stops x.event.call x.pre x.post)
      ∨ (Returned x ∧ Stores x.event.call x.pre x.post) := by
  have hspec := savePretestCandidate_spec x.event.call x.event.unique x.pre
  have hpost := Option.some.inj hstep
  subst hn
  unfold Command.wp at hspec
  split at hspec
  · next digest t hexec =>
    rw [hexec] at hpost
    obtain rfl : t = x.post := hpost
    have hreturned : Returned x := by
      rw [Returned, hexec]
      rfl
    rcases hspec with ⟨hsame, hrecord⟩ | hstores
    · exact .inl ⟨hsame, fun _ => hrecord⟩
    · exact .inr (.inr ⟨hreturned, hstores⟩)
  · next e t hexec =>
    rw [hexec] at hpost
    obtain rfl : t = x.post := hpost
    have hraised : ¬ Returned x := by
      rw [Returned, hexec]
      exact Bool.false_ne_true
    rcases hspec with hsame | hstops
    · exact .inl ⟨hsame, fun hreturned => absurd hreturned hraised⟩
    · exact .inr (.inl ⟨hraised, hstops⟩)

/-- The record changes where a call stores its candidate. -/
theorem storedSequence_stores (h : Stores x.event.call x.pre x.post)
    (hn : x.event.call.candidate.val.prNumber = n) :
    storedSequence n [x] = [x.event.call.candidate] := by
  subst hn
  obtain ⟨r, ⟨hpre, hfollows, _⟩, _⟩ := h.old
  have hchanged : changesRecord x.event.call.candidate.val.prNumber x = true := by
    rw [changesRecord, bne_iff_ne, h.record, hpre]
    intro heq
    -- a candidate does not follow itself
    rw [← recordText_injective heq] at hfollows
    exact absurd hfollows.rank_lt (lt_irrefl _)
  rw [storedSequence, List.filter_cons_of_pos hchanged, List.filter_nil, List.filterMap_cons,
    storedCandidate_of h.record]
  rfl

/-- What holds of the store and of the candidates stored so far. -/
structure LineageSoFar (n : Int) (tr : List (Transition StoreFiles (PretestEvent py floats)))
    (s : StoreFiles) : Prop where
  record : s (pretestFilename n) = recordText floats (storedSequence n tr).getLast?
  lineage : Lineage none ((storedSequence n tr).map PretestCandidate.val)
  archived : ∀ c ∈ (storedSequence n tr).dropLast,
    s (pretestHistory n (c.val.digest floats)) = some (c.val.canonicalText floats)

theorem LineageSoFar.kept {t : StoreFiles} (h : LineageSoFar n tr x.pre) (hpost : x.post = t)
    (hrecord : t (pretestFilename n) = x.pre (pretestFilename n))
    (harchives : KeepsArchives n x.pre t) : LineageSoFar n (tr ++ [x]) t := by
  subst hpost
  have hseq : storedSequence n (tr ++ [x]) = storedSequence n tr := by
    rw [storedSequence_append, storedSequence_kept hrecord, List.append_nil]
  constructor
  · rw [hseq, hrecord, h.record]
  · rw [hseq]
    exact h.lineage
  · rw [hseq]
    exact fun c hc => harchives _ _ (h.archived c hc)

theorem LineageSoFar.stored (h : LineageSoFar n tr x.pre)
    (hn : x.event.call.candidate.val.prNumber = n) (hstores : Stores x.event.call x.pre x.post) :
    LineageSoFar n (tr ++ [x]) x.post := by
  have hseq : storedSequence n (tr ++ [x]) = storedSequence n tr ++ [x.event.call.candidate] := by
    rw [storedSequence_append, storedSequence_stores hstores hn]
  subst hn
  obtain ⟨r, ⟨hpre, hfollows, _⟩, harchived⟩ := hstores.old
  obtain rfl := recordText_injective (hpre.symm.trans h.record)
  constructor
  · rw [hseq, List.getLast?_concat, hstores.record]
  · rw [hseq, List.map_append]
    refine h.lineage.append ?_
    rw [List.getLast?_map, Option.or_none]
    exact hfollows
  · rw [hseq, List.dropLast_concat]
    intro c hc
    rcases List.eq_nil_or_concat (storedSequence x.event.call.candidate.val.prNumber tr)
      with hnil | ⟨before, last, hlast⟩
    · rw [hnil] at hc
      exact absurd hc List.not_mem_nil
    · rw [List.concat_eq_append] at hlast
      rw [hlast, List.mem_append, List.mem_singleton] at hc
      rcases hc with hc | rfl
      · refine hstores.archives _ _ (h.archived c ?_)
        rw [hlast, List.dropLast_concat]
        exact hc
      · refine harchived c ?_
        rw [hlast, List.getLast?_concat]
        exact rfl

theorem LineageSoFar.step (h : LineageSoFar n tr x.pre)
    (hn : x.event.call.candidate.val.prNumber = n)
    (hstep : pretestStep py floats x.pre x.event = some x.post) :
    LineageSoFar n (tr ++ [x]) x.post := by
  rcases transition_cases hstep hn with ⟨hsame, _⟩ | ⟨_, hstops⟩ | ⟨_, hstores⟩
  · exact h.kept rfl (by rw [hsame]) fun _ _ hdata => by rw [hsame, hdata]
  · subst hn
    exact h.kept rfl hstops.record hstops.archives
  · exact h.stored hn hstores

/-- From a store without a candidate, every run leads along a lineage. -/
theorem run_lineage {s t : StoreFiles} (hempty : s (pretestFilename n) = none)
    (hrun : Run (pretestStep py floats) s tr t)
    (hcalls : ∀ x ∈ tr, x.event.call.candidate.val.prNumber = n) : LineageSoFar n tr t := by
  refine hrun.invariant_of (LineageSoFar n) (fun _ e => e.call.candidate.val.prNumber = n) ?_
    (fun tr t e u h hn hstep => LineageSoFar.step (x := ⟨t, e, u⟩) h hn hstep) hcalls
  exact ⟨hempty, trivial, fun c hc => absurd hc List.not_mem_nil⟩

/-- A candidate that was stored once is not let through again. -/
theorem LineageSoFar.not_precedes {s : StoreFiles} {call : SavePretest py floats}
    {r : Option (PretestCandidate py floats)} (h : LineageSoFar n tr s)
    (hn : call.candidate.val.prNumber = n) (hmem : call.candidate ∈ storedSequence n tr) :
    ¬ Precedes call s r := by
  subst hn
  rintro ⟨hrecord, hfollows, _⟩
  obtain rfl := recordText_injective (hrecord.symm.trans h.record)
  have hlast : Follows (((storedSequence call.candidate.val.prNumber tr).map
      PretestCandidate.val).getLast?.or none) call.candidate.val := by
    rw [List.getLast?_map, Option.or_none]
    exact hfollows
  have hranks := (h.lineage.append hlast).pairwise_rank
  rw [List.pairwise_append] at hranks
  have hself := hranks.2.2 call.candidate.val (List.mem_map_of_mem hmem) call.candidate.val
    (List.mem_singleton_self _)
  exact absurd hself (lt_irrefl _)

/-- A call that returned left its candidate among those that were stored. -/
theorem LineageSoFar.mem_of_returned (h : LineageSoFar n tr x.pre)
    (hn : x.event.call.candidate.val.prNumber = n)
    (hstep : pretestStep py floats x.pre x.event = some x.post) (hreturned : Returned x) :
    x.event.call.candidate ∈ storedSequence n (tr ++ [x]) := by
  rw [storedSequence_append, List.mem_append]
  rcases transition_cases hstep hn with ⟨_, hfound⟩ | ⟨hraised, _⟩ | ⟨_, hstores⟩
  · left
    exact List.mem_of_getLast? (recordText_injective (h.record.symm.trans (hfound hreturned)))
  · exact absurd hreturned hraised
  · right
    rw [storedSequence_stores hstores hn]
    exact List.mem_singleton_self _

/-- A call that returned changes nothing when it is made again, whatever came between. -/
theorem repeated_unchanged {s t : StoreFiles} (hempty : s (pretestFilename n) = none)
    (hrun : Run (pretestStep py floats) s tr t)
    (hcalls : ∀ x ∈ tr, x.event.call.candidate.val.prNumber = n)
    {hist mid rest : List (Transition StoreFiles (PretestEvent py floats))}
    {y : Transition StoreFiles (PretestEvent py floats)} (htr : tr = hist ++ x :: mid ++ y :: rest)
    (hreturned : Returned x) (hcall : y.event.call = x.event.call) : y.post = y.pre := by
  obtain ⟨hbefore, hy⟩ := hrun.cut htr
  obtain ⟨hfirst, hx⟩ := hbefore.cut rfl
  have hmem : ∀ z ∈ hist ++ x :: mid, z ∈ tr := by
    rw [htr]
    exact fun z hz => List.mem_append_left _ hz
  have hxn : x.event.call.candidate.val.prNumber = n := hcalls x (hmem x (by simp))
  have hyn : y.event.call.candidate.val.prNumber = n := by rw [hcall, hxn]
  have hhist := run_lineage hempty hfirst fun z hz => hcalls z (hmem z (by simp [hz]))
  have hnow := run_lineage hempty hbefore fun z hz => hcalls z (hmem z hz)
  have hstored : y.event.call.candidate ∈ storedSequence n (hist ++ x :: mid) := by
    have hthen := hhist.mem_of_returned hxn hx hreturned
    rw [hcall, List.append_cons, storedSequence_append]
    exact List.mem_append_left _ hthen
  rcases transition_cases hy hyn with ⟨hsame, _⟩ | ⟨_, hstops⟩ | ⟨_, hstores⟩
  · exact hsame
  · obtain ⟨r, hprecedes⟩ := hstops.old
    exact absurd hprecedes (hnow.not_precedes hyn hstored)
  · obtain ⟨r, hprecedes, _⟩ := hstores.old
    exact absurd hprecedes (hnow.not_precedes hyn hstored)

/-- Later ready candidates have larger sequence numbers. -/
theorem ready_lt_of_rank {a b : PretestFields} (h : rank a < rank b) (ha : a.phase = .ready)
    (hb : b.phase = .ready) : a.candidateSequence < b.candidateSequence := by
  rw [rank, rank, if_pos ha, if_pos hb] at h
  omega

/-- Calls for one pull request, however they interleave: what is stored is a lineage, and
the record is its end. A call changes the record only where it returns and saw the record
before it; one that is made again changes nothing; and the candidates that were replaced
stay in the archive. -/
theorem pretest_lineage {n : Int} {s t : StoreFiles}
    {tr : List (Transition StoreFiles (PretestEvent py floats))}
    (hempty : s (pretestFilename n) = none) (hrun : Run (pretestStep py floats) s tr t)
    (hcalls : ∀ x ∈ tr, x.event.call.candidate.val.prNumber = n) :
    Lineage none ((storedSequence n tr).map PretestCandidate.val)
      ∧ storedCandidate py floats n t = (storedSequence n tr).getLast?
      ∧ ((storedSequence n tr).Pairwise fun a b => a.val.phase = .ready → b.val.phase = .ready →
        a.val.candidateSequence < b.val.candidateSequence)
      ∧ (∀ x ∈ tr, x.post (pretestFilename n) ≠ x.pre (pretestFilename n) →
        Returned x ∧ storedCandidate py floats n x.post = some x.event.call.candidate
          ∧ x.event.call.expectedDigest
            = (storedCandidate py floats n x.pre).map fun c => c.val.digest floats)
      ∧ (∀ x ∈ tr, ¬ Returned x → x.post (pretestFilename n) = x.pre (pretestFilename n))
      ∧ (∀ hist x mid y rest, tr = hist ++ x :: mid ++ y :: rest → Returned x →
        y.event.call = x.event.call → y.post = y.pre)
      ∧ ∀ c ∈ (storedSequence n tr).dropLast,
        t (pretestHistory n (c.val.digest floats)) = some (c.val.canonicalText floats) := by
  have hlineage := run_lineage hempty hrun hcalls
  have hchange : ∀ x ∈ tr, x.post (pretestFilename n) ≠ x.pre (pretestFilename n) →
      Returned x ∧ Stores x.event.call x.pre x.post := by
    intro x hx hne
    rcases transition_cases (hrun.mem hx).2 (hcalls x hx) with ⟨hsame, _⟩ | ⟨_, hstops⟩ | hstores
    · exact absurd (by rw [hsame]) hne
    · rw [← hcalls x hx] at hne
      exact absurd hstops.record hne
    · exact hstores
  refine ⟨hlineage.lineage, storedCandidate_of hlineage.record, ?_, ?_, ?_, ?_, hlineage.archived⟩
  · have hranks := hlineage.lineage.pairwise_rank
    rw [List.pairwise_map] at hranks
    exact hranks.imp fun hlt ha hb => ready_lt_of_rank hlt ha hb
  · intro x hx hne
    obtain ⟨hreturned, hstores⟩ := hchange x hx hne
    have hn := hcalls x hx
    subst hn
    obtain ⟨r, ⟨hpre, _, hexpected⟩, _⟩ := hstores.old
    refine ⟨hreturned, storedCandidate_of hstores.record, ?_⟩
    rw [storedCandidate_of hpre, hexpected]
  · intro x hx hraised
    by_contra hne
    exact hraised (hchange x hx hne).1
  · intro hist x mid y rest htr hreturned hcall
    exact repeated_unchanged hempty hrun hcalls htr hreturned hcall

end Store

/-! ## Digests among the values -/

theorem isSha256_sha256Text (t : Text) : isSha256 (sha256Text t) = true := by
  have htake := Sha256.isHexOfLength_take_hexdigest (Sha256.encodeUtf8 t) (Nat.le_refl 64)
  rwa [List.take_of_length_le (Sha256.length_hexdigest _).le] at htake

theorem length_dumpsStr_sha256Text (t : Text) : (dumpsStr (sha256Text t)).length = 66 := by
  have hfull : isFullSha (sha256Text t) = true := by
    have hsha := isSha256_sha256Text t
    rw [isSha256] at hsha
    rw [isFullSha, hsha, Bool.or_true]
  rw [length_dumpsStr_of_unescaped (unescaped_fullSha hfull), sha256Text, Sha256.length_hexdigest]

/-- The values without the two digests, whose lengths are known. -/
theorem PretestFields.valuesLength_of_digests {c : PretestFields} {m n : Nat}
    (hreceipt : (dumpsStr c.sourceReceiptSha256).length = m)
    (hdiff : (dumpsStr c.diffSha256).length = n) :
    c.valuesLength = m + n
      + ([c.phase.value, c.repository, c.repoRoot, c.worktreePath, c.branch, c.expectedRemoteSha,
        c.sourceRepositoryIdentity, c.sourceOwnershipKey, c.candidateTreeSha, c.diff,
        c.threadSnapshotJson, c.batchNonce, c.successfulJobId, c.successfulResultSha256].map
          fun t => (dumpsStr t).length).sum
      + ([c.issueNumber, c.prNumber, c.sourceGeneration, c.candidateSequence].map fun n =>
        (decimalInt n).length).sum
      + textsLength c.addPaths + textsLength c.updatePaths + pairsLength c.contentSnapshot
      + repliesLength c.addressedReplies + optionalLength c.consumedHead := by
  simp only [PretestFields.valuesLength, List.map_cons, List.map_nil, List.sum_cons, List.sum_nil,
    hreceipt, hdiff]
  omega

/-! ## One candidate -/

/-- Casts over ASCII texts. -/
def asciiCasts : PyCasts where
  toUnicode := Text.asciiTables
  str := fun _ => []
  int := Json.asInt?
  int_int _ := rfl

def laneReceipt : SourceWorkspaceReceipt where
  repository := "o/r".toList
  repositoryIdentity := "i".toList
  ownershipKey := "i:1:impl".toList
  itemNumber := 1
  lane := .implementation
  path := PosixPath.parse "/r/w".toList
  revision := List.replicate 40 'a'
  generation := 1
  detached := false
  branch := some "b".toList

/-- A candidate for one thread, with an empty diff. -/
def lanePretest : PretestFields where
  phase := .ready
  repository := "o/r".toList
  issueNumber := 1
  prNumber := 2
  repoRoot := "/r".toList
  worktreePath := "/r/w".toList
  branch := "b".toList
  expectedRemoteSha := List.replicate 40 'a'
  sourceReceipt := laneReceipt
  sourceReceiptSha256 := sourceReceiptDigest noFloats laneReceipt
  sourceRepositoryIdentity := "i".toList
  sourceOwnershipKey := "i:1:impl".toList
  sourceGeneration := 1
  candidateTreeSha := List.replicate 40 'b'
  addPaths := ["a".toList]
  updatePaths := []
  diff := []
  diffSha256 := sha256Text []
  contentSnapshot := contentSnapshotKeys.map fun key => (key, List.replicate 64 'c')
  threadSnapshotJson :=
    ("[\x7b\"comments\":[\x7b\"author\":\"a\",\"body\":\"b\",\"id\":\"c\"\x7d],\"id\":\"t\","
      ++ "\"isResolved\":false,\"line\":1,\"path\":\"a\",\"side\":\"RIGHT\"\x7d]").toList
  batchNonce := List.replicate 32 'd'
  candidateSequence := 1
  successfulJobId := "j".toList
  successfulResultSha256 := List.replicate 64 'e'
  addressedReplies := [("t".toList, "Done.".toList)]

theorem lanePretest_validSource : lanePretest.validSource asciiCasts noFloats = true := by
  have hreads : SourceWorkspaceReceipt.fromDict asciiCasts lanePretest.sourceReceipt.toDict
      = some lanePretest.sourceReceipt := by
    decide
  have hdigest : sourceReceiptDigest noFloats lanePretest.sourceReceipt
      = lanePretest.sourceReceiptSha256 := by
    simp only [lanePretest]
  simp only [PretestFields.validSource, hreads, hdigest, Option.any_some, beq_self_eq_true,
    Bool.and_true]
  decide

theorem lanePretest_validIdentity : lanePretest.validIdentity asciiCasts noFloats = true := by
  have hreceipt : isSha256 lanePretest.sourceReceiptSha256 = true := isSha256_sha256Text _
  have hdiff : isSha256 lanePretest.diffSha256 = true := isSha256_sha256Text _
  simp only [PretestFields.validIdentity, lanePretest_validSource, List.all_cons, hreceipt, hdiff,
    Bool.true_and, Bool.and_true]
  decide

theorem lanePretest_rereads :
    rereadThreadSnapshot noFloats lanePretest.threadSnapshotJson
      = some lanePretest.threadSnapshotJson := by
  decide +kernel

theorem lanePretest_repliesMatch :
    repliesMatchThreads noFloats lanePretest.addressedReplies lanePretest.threadSnapshotJson
      = true := by
  decide +kernel

theorem lanePretest_validContent : lanePretest.validContent noFloats = true := by
  have hdiff : sha256Text lanePretest.diff = lanePretest.diffSha256 := by
    simp only [lanePretest]
  simp only [PretestFields.validContent, hdiff, lanePretest_rereads, lanePretest_repliesMatch,
    beq_self_eq_true, Bool.and_true]
  decide +kernel

theorem lanePretest_keys :
    (PretestCandidate.fieldNames.map fun key => (dumpsStr key.toList).length + 2).sum = 475 := by
  decide

theorem laneReceipt_length :
    (receiptKeys.map fun key => (dumpsStr key.toList).length + 2).sum + laneReceipt.valuesLength
      = 251 := by
  decide

theorem lanePretest_values : lanePretest.valuesLength = 793 := by
  have hreceipt : (dumpsStr lanePretest.sourceReceiptSha256).length = 66 :=
    length_dumpsStr_sha256Text _
  have hdiff : (dumpsStr lanePretest.diffSha256).length = 66 := length_dumpsStr_sha256Text _
  rw [PretestFields.valuesLength_of_digests hreceipt hdiff]
  decide +kernel

theorem lanePretest_bytes : utf8Length (lanePretest.canonicalText noFloats) ≤ storeMaxBytes := by
  have hsource : lanePretest.sourceReceipt = laneReceipt := rfl
  have hreceipt : (render noFloats laneReceipt.toDict).length = 252 := by
    rw [SourceWorkspaceReceipt.length_render_toDict _ rfl, laneReceipt_length]
  have hlength : (render noFloats lanePretest.envelope).length = 1545 := by
    rw [PretestFields.length_envelope, lanePretest_keys, lanePretest_values, hsource, hreceipt]
  rw [PretestFields.utf8Length_canonicalText rfl (by decide), hlength]
  decide

theorem lanePretest_valid : lanePretest.postInit asciiCasts noFloats = true := by
  rw [PretestFields.postInit, lanePretest_validIdentity, lanePretest_validContent, Bool.true_and,
    Bool.true_and, decide_eq_true_eq]
  exact lanePretest_bytes

def laneCandidate : PretestCandidate asciiCasts noFloats := ⟨lanePretest, lanePretest_valid⟩

def noRecords : StoreFiles := fun _ => none

def laneCall : SavePretest asciiCasts noFloats where
  repoRoot := "/r".toList
  candidate := laneCandidate

/-- The state after a call. -/
def afterCall (files : StoreFiles) (unique : Text) : StoreFiles :=
  ((savePretestCandidate asciiCasts noFloats laneCall unique).exec files).2

theorem pretestStep_laneCall (files : StoreFiles) (unique : Text) :
    pretestStep asciiCasts noFloats files ⟨laneCall, unique⟩ = some (afterCall files unique) := by
  rw [pretestStep, afterCall]

/-- The candidate is saved, and saved again. -/
def laneRun : List (Transition StoreFiles (PretestEvent asciiCasts noFloats)) :=
  [⟨noRecords, ⟨laneCall, ['u']⟩, afterCall noRecords ['u']⟩,
    ⟨afterCall noRecords ['u'], ⟨laneCall, ['v']⟩, afterCall (afterCall noRecords ['u']) ['v']⟩]

theorem laneRun_run : Run (pretestStep asciiCasts noFloats) noRecords laneRun
    (afterCall (afterCall noRecords ['u']) ['v']) :=
  (Run.nil.snoc (pretestStep_laneCall _ _)).snoc (pretestStep_laneCall _ _)

theorem laneRun_calls : ∀ x ∈ laneRun, x.event.call.candidate.val.prNumber = 2 := by
  intro x hx
  rcases List.mem_pair.mp hx with rfl | rfl
  · rfl
  · rfl

theorem pretest_lineage_lane :
    Lineage none ((storedSequence 2 laneRun).map PretestCandidate.val)
      ∧ storedCandidate asciiCasts noFloats 2 (afterCall (afterCall noRecords ['u']) ['v'])
        = (storedSequence 2 laneRun).getLast? := by
  have hempty : noRecords (pretestFilename 2) = none := rfl
  have hlineage :=
    @pretest_lineage asciiCasts noFloats 2 noRecords _ laneRun hempty laneRun_run laneRun_calls
  exact hlineage.imp_right And.left

end Hephaestus.Automation.Remediation
