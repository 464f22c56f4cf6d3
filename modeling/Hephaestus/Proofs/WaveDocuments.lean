import Mathlib.Algebra.Order.Ring.Rat
import Hephaestus.Automation.WaveDocuments
import Hephaestus.Proofs.WaveInvariant

/-!
# What the checkpoint document carries, and what its decoder lets out

Two things about `_checkpoint_to_json` and `_decode_checkpoint`. The encoder
writes every field of every record, each under the key the decoder reads it
from, so a checkpoint comes back from its document as it was, whichever of
its fields are in use.

The decoder reports a bad document by its constructors' own errors, as long
as a constructor gets as far as its checks. Four of the fields are compared
or iterated or hashed before anything has asked for their type:
`issue_number` and `pr_number`, `wave_index` and `generation`,
`issue_numbers`, and `status`. Which of them a document gets to, and so
whether a `TypeError` comes out, depends on what before them was accepted
(`CheckpointOperands`).
-/

namespace Hephaestus.Automation.Untyped

open Hephaestus.Lib

/-! ## The round trip -/

theorem decodeOutcome_outcomeToJson (o : Checked WaveIssueOutcome.postInit) :
    decodeOutcome (outcomeToJson o.val) = .ok o :=
  Checked.make_of o.property

theorem decodeReceipt_receiptToJson (r : Checked WaveMergeReceipt.postInit) :
    decodeReceipt (receiptToJson r.val) = .ok r :=
  Checked.make_of r.property

theorem decodeIntent_nonCodeIntentToJson (i : Checked WaveNonCodeIntent.postInit) :
    decodeIntent (nonCodeIntentToJson i.val) = .ok i :=
  Checked.make_of i.property

/-- Dictionaries that were written one by one are read one by one. -/
theorem decodeObjects_map {α : Type} {decode : Json → Except Failure α} {encode : α → Json}
    {items : List α} (hobj : ∀ a, (encode a).asObj?.isSome = true)
    (h : ∀ a, decode (encode a) = .ok a) :
    decodeObjects decode (items.map encode) = .ok items := by
  have hall : (items.map encode).filter (fun item => item.asObj?.isSome) = items.map encode := by
    refine List.filter_eq_self.mpr fun item hitem => ?_
    obtain ⟨a, _, rfl⟩ := List.mem_map.mp hitem
    exact hobj a
  rw [decodeObjects, hall]
  exact mapM_map_ok fun a _ => h a

theorem decodeWave_waveToJson (w : Checked WaveRecord.postInit) :
    decodeWave (waveToJson w.val) = .ok w := by
  refine check_bind_ok.mpr ⟨rfl, except_bind_ok.mpr ⟨_, rfl, ?_⟩⟩
  refine except_bind_ok.mpr ⟨w.val.outcomes, ?_, ?_⟩
  · exact decodeObjects_map (fun _ => rfl) decodeOutcome_outcomeToJson
  refine check_bind_ok.mpr ⟨raiseIf_ok.mpr (by simp), ?_⟩
  refine except_bind_ok.mpr ⟨w.val.mergeReceipts, ?_, ?_⟩
  · exact decodeObjects_map (fun _ => rfl) decodeReceipt_receiptToJson
  refine check_bind_ok.mpr ⟨raiseIf_ok.mpr (by simp), ?_⟩
  refine check_bind_ok.mpr ⟨forM_ok.mpr fun item hitem => ?_, ?_⟩
  · obtain ⟨i, _, rfl⟩ := List.mem_map.mp hitem
    rfl
  refine except_bind_ok.mpr ⟨w.val.nonCodeIntents, ?_, ?_⟩
  · exact decodeObjects_map (fun _ => rfl) decodeIntent_nonCodeIntentToJson
  refine except_bind_ok.mpr ⟨w.val.issueNumbers, rfl, ?_⟩
  exact Checked.make_of w.property

theorem decodeCheckpoint_checkpointToJson (c : Checked WaveCheckpoint.postInit) :
    decodeCheckpoint (checkpointToJson c.val) = .ok c := by
  have hschema : (Json.str schema).eq (.str schema) = true := by simp [Json.eq]
  refine check_bind_ok.mpr ⟨raiseIf_ok.mpr ?_, ?_⟩
  · show ¬ (false || !(Json.str schema).eq (.str schema)) = true
    simp [hschema]
  refine except_bind_ok.mpr ⟨c.val.waves, mapM_map_ok fun w _ => decodeWave_waveToJson w, ?_⟩
  exact Checked.make_of c.property

/-! ## Operands -/

/-- The value is a number, or a boolean. -/
def Ordered (value : Json) : Prop := value.number?.isSome = true

/-- The value is a list, a text or a dictionary. -/
def Iterable (value : Json) : Prop :=
  value.asArr?.isSome = true ∨ value.asStr?.isSome = true ∨ value.asObj?.isSome = true

/-- The value is no list and no dictionary. -/
def Hashable (value : Json) : Prop := value.asArr? = none ∧ value.asObj? = none

theorem spares_boolOr {holds : PyFloat → Bool} {value : Json} :
    Spares .typeError (boolOr holds value) ↔ Ordered value := by
  cases value <;> simp [boolOr, Ordered, Json.number?, Spares]

theorem spares_iterate {value : Json} :
    Spares .typeError (iterate value) ↔ Iterable value := by
  cases value <;> simp [iterate, Iterable, Spares, Json.asArr?, Json.asStr?, Json.asObj?]

theorem spares_inTexts {texts : List String} {value : Json} :
    Spares .typeError (inTexts texts value) ↔ Hashable value := by
  cases value <;> simp [inTexts, Hashable, Spares, Json.asArr?, Json.asObj?]

/-- A check of the module raises the module's own error. -/
theorem spares_validation_bind {α : Type} {p : Prop} [Decidable p] {message : String}
    {f : Unit → Except Failure α} :
    Spares .typeError (raiseIf p (.validation message) >>= f) ↔
      (¬ p → Spares .typeError (f ())) := by
  have hne : Failure.validation message ≠ .typeError := nofun
  exact spares_check hne

theorem spares_validation {p : Prop} [Decidable p] {message : String} :
    Spares .typeError (raiseIf p (Failure.validation message)) :=
  spares_raiseIf nofun

/-! ## The constructors -/

theorem WaveMergeReceipt.spares_postInit {r : WaveMergeReceipt} :
    Spares .typeError r.postInit ↔
      Ordered r.issueNumber ∧
        (boolOr (·.le 0) r.issueNumber = .ok false → Ordered r.prNumber) := by
  simp only [WaveMergeReceipt.postInit, spares_bind (x := boolOr _ _), spares_boolOr,
    spares_validation_bind, spares_validation, implies_true, and_true]
  simp

theorem WaveIssueOutcome.spares_postInit {o : WaveIssueOutcome} :
    Spares .typeError o.postInit ↔ Ordered o.issueNumber := by
  simp only [WaveIssueOutcome.postInit, spares_bind (x := boolOr _ _), spares_boolOr,
    spares_validation_bind, spares_validation, implies_true, and_true]

theorem WaveNonCodeIntent.spares_postInit {i : WaveNonCodeIntent} :
    Spares .typeError i.postInit ↔ Ordered i.issueNumber := by
  simp only [WaveNonCodeIntent.postInit, spares_bind (x := boolOr _ _), spares_boolOr,
    spares_validation_bind, spares_validation, implies_true, and_true]

theorem spares_positiveIssueNumbersLoop {fieldName : String} {seen : List Int}
    {values : List Json} :
    Spares .typeError (positiveIssueNumbersLoop fieldName seen values) := by
  induction values generalizing seen with
  | nil => exact spares_ok ()
  | cons value values ih =>
      exact spares_validation_bind.mpr fun _ => spares_validation_bind.mpr fun _ => ih

theorem WaveRecord.spares_postInit {r : WaveRecord} :
    Spares .typeError r.postInit ↔ Ordered r.waveIndex := by
  have hlimit : Spares .typeError (checkLimit r.limit "limit") :=
    spares_validation_bind.mpr fun _ => spares_validation
  have hissues : Spares .typeError
      (positiveIssueNumbers r.issueNumbers "wave record issue_numbers") :=
    spares_positiveIssueNumbersLoop
  simp only [WaveRecord.postInit, requiredText, spares_bind, spares_boolOr, hlimit, hissues, spares_validation, implies_true, and_true]

theorem WaveCheckpoint.spares_postInit {c : WaveCheckpoint} :
    Spares .typeError c.postInit ↔
      (c.org.truthy = true → c.repo.truthy = true →
        Ordered c.generation ∧
          (boolOr (·.lt 1) c.generation = .ok false → Hashable c.status)) := by
  simp only [WaveCheckpoint.postInit, spares_validation_bind, spares_bind (x := boolOr _ _),
    spares_bind (x := inTexts _ _), spares_boolOr, spares_inTexts, spares_validation,
    implies_true, and_true]
  simp

/-! ## The document -/

/-- Every item is an object its constructor accepts. -/
def AllDecode {α : Type} (decode : Json → Except Failure α) (items : List Json) : Prop :=
  ∀ item ∈ items, item.asObj?.isSome = true ∧ ∃ a, decode item = .ok a

/-- The objects of a list. -/
def objects (items : List Json) : List Json := items.filter fun item => item.asObj?.isSome

theorem decodeObjects_isOk {α : Type} {decode : Json → Except Failure α} {items : List Json} :
    (∃ as, decodeObjects decode items = .ok as ∧ ¬ as.length ≠ items.length) ↔
      AllDecode decode items := by
  constructor
  · rintro ⟨as, has, hlength⟩ item hitem
    have hall : ∀ item ∈ items, item.asObj?.isSome = true := by
      rw [← List.length_filter_eq_length_iff, ← length_of_mapM has]
      exact not_not.mp hlength
    refine ⟨hall item hitem, mapM_isOk.mp ⟨as, has⟩ item ?_⟩
    exact List.mem_filter.mpr ⟨hitem, hall item hitem⟩
  · intro h
    have hfilter : objects items = items := List.filter_eq_self.mpr fun item hi => (h item hi).1
    obtain ⟨as, has⟩ := mapM_isOk.mpr fun item hi => (h item hi).2
    refine ⟨as, ?_, not_not.mpr (length_of_mapM has)⟩
    show (objects items).mapM decode = .ok as
    rw [hfilter, has]

/-- What the constructor of an outcome, or of an intent, compares. -/
def IssueOperand (item : Json) : Prop := Ordered (item.field "issue_number")

/-- What the constructor of a receipt compares: the second number where the
first passed. -/
def ReceiptOperands (item : Json) : Prop :=
  Ordered (item.field "issue_number") ∧
    (boolOr (·.le 0) (item.field "issue_number") = .ok false →
      Ordered (item.field "pr_number"))

/-- What the loop over the waves compares and iterates in one turn. -/
def WaveOperands (value : Json) : Prop :=
  value.asObj?.isSome = true → ∀ outcomes receipts intents,
    evidenceLists value = .ok (outcomes, receipts, intents) →
      Reached decodeOutcome IssueOperand (objects outcomes) ∧
      (AllDecode decodeOutcome outcomes →
        Reached decodeReceipt ReceiptOperands (objects receipts) ∧
        (AllDecode decodeReceipt receipts → (∀ item ∈ intents, checkIntentShape item = .ok ()) →
          Reached decodeIntent IssueOperand (objects intents) ∧
          (AllDecode decodeIntent intents →
            Iterable (value.getD "issue_numbers" (.arr [])) ∧
            Ordered (value.field "wave_index"))))

/-- What the decoder compares, iterates and hashes of a document. -/
def CheckpointOperands (raw : Json) : Prop :=
  raw.asObj?.isSome = true → (raw.field "schema").eq (.str schema) = true →
    ∀ waves, (raw.field "waves").asArr? = some waves →
      Reached decodeWave WaveOperands waves ∧
      ((∀ wave ∈ waves, ∃ w, decodeWave wave = .ok w) →
        (raw.field "org").truthy = true → (raw.field "repo").truthy = true →
          Ordered (raw.field "generation") ∧
          (boolOr (·.lt 1) (raw.field "generation") = .ok false →
            Hashable (raw.field "status")))

theorem spares_decodeOutcome {item : Json} :
    Spares .typeError (decodeOutcome item) ↔ IssueOperand item :=
  Checked.spares_make.trans WaveIssueOutcome.spares_postInit

theorem spares_decodeReceipt {item : Json} :
    Spares .typeError (decodeReceipt item) ↔ ReceiptOperands item :=
  Checked.spares_make.trans WaveMergeReceipt.spares_postInit

theorem spares_decodeIntent {item : Json} :
    Spares .typeError (decodeIntent item) ↔ IssueOperand item :=
  Checked.spares_make.trans WaveNonCodeIntent.spares_postInit

/-- A tuple of objects, then the check that nothing was left out. -/
theorem spares_decodeObjects {α β : Type} {decode : Json → Except Failure α}
    {p : Json → Prop} (hp : ∀ item, Spares .typeError (decode item) ↔ p item)
    {items : List Json} {message : String} {f : List α → Except Failure β} {q : Prop}
    (hf : ∀ as, decodeObjects decode items = .ok as → (Spares .typeError (f as) ↔ q)) :
    Spares .typeError (do
        let as ← decodeObjects decode items
        raiseIf (as.length ≠ items.length) (.validation message)
        f as) ↔
      Reached decode p (objects items) ∧ (AllDecode decode items → q) := by
  rw [spares_bind, decodeObjects, spares_mapM hp]
  refine and_congr_right fun _ => ?_
  rw [← decodeObjects_isOk]
  constructor
  · rintro h ⟨as, has, hlength⟩
    exact (hf as has).mp (spares_validation_bind.mp (h as has) hlength)
  · intro h as has
    exact spares_validation_bind.mpr fun hlength => (hf as has).mpr (h ⟨as, has, hlength⟩)

/-- The same for the intents, whose shape was checked before. -/
theorem decodeIntents_isOk {intents : List Json}
    (hshape : ∀ item ∈ intents, checkIntentShape item = .ok ()) :
    (∃ is, decodeObjects decodeIntent intents = .ok is) ↔ AllDecode decodeIntent intents := by
  rw [← decodeObjects_isOk]
  refine exists_congr fun is => (and_iff_left_of_imp fun his => ?_).symm
  have hall : objects intents = intents := by
    refine List.filter_eq_self.mpr fun item hitem => ?_
    have hobj := raiseIf_ok.mp (check_bind_ok.mp (hshape item hitem)).1
    simpa [Option.isSome_iff_ne_none] using hobj
  have hlength := length_of_mapM his
  rw [← objects, hall] at hlength
  exact not_not.mpr hlength

theorem spares_checkIntentShape {item : Json} : Spares .typeError (checkIntentShape item) :=
  spares_validation_bind.mpr fun _ => spares_validation

theorem iterate_isOk {value : Json} :
    (∃ items, iterate value = .ok items) ↔ Iterable value := by
  cases value <;> simp [iterate, Iterable, Json.asArr?, Json.asStr?, Json.asObj?]

theorem spares_decodeWave {value : Json} :
    Spares .typeError (decodeWave value) ↔ WaveOperands value := by
  have hlists : Spares .typeError (evidenceLists value) := by
    unfold evidenceLists
    split
    · exact spares_ok _
    · nofun
  unfold decodeWave WaveOperands
  rw [spares_validation_bind, spares_bind, and_iff_right hlists]
  refine imp_congr (by simp [Option.isSome_iff_ne_none]) ?_
  rw [Prod.forall]
  refine forall_congr' fun outcomes => ?_
  rw [Prod.forall]
  refine forall_congr' fun receipts => forall_congr' fun intents => imp_congr_right fun _ => ?_
  refine spares_decodeObjects (fun _ => spares_decodeOutcome) fun _ _ => ?_
  refine spares_decodeObjects (fun _ => spares_decodeReceipt) fun _ _ => ?_
  rw [spares_forM_bind fun _ => spares_checkIntentShape]
  refine imp_congr_right fun hshape => ?_
  rw [spares_bind, decodeObjects, spares_mapM fun _ => spares_decodeIntent]
  refine and_congr_right fun _ => ?_
  rw [← decodeIntents_isOk hshape, forall_exists_index]
  refine forall_congr' fun _ => imp_congr_right fun _ => ?_
  rw [spares_bind, spares_iterate]
  refine and_congr_right fun hiter => ?_
  obtain ⟨items, hitems⟩ := iterate_isOk.mpr hiter
  constructor
  · intro h
    exact WaveRecord.spares_postInit.mp (Checked.spares_make.mp (h items hitems))
  · intro h _ _
    exact Checked.spares_make.mpr (WaveRecord.spares_postInit.mpr h)

theorem spares_decodeCheckpoint {raw : Json} :
    Spares .typeError (decodeCheckpoint raw) ↔ CheckpointOperands raw := by
  rw [decodeCheckpoint, CheckpointOperands, spares_validation_bind]
  simp only [Bool.or_eq_true, not_or, and_imp]
  refine imp_congr (by simp [Option.isSome_iff_ne_none]) (imp_congr (by simp) ?_)
  cases hwaves : (raw.field "waves").asArr? with
  | none => simp [Spares]
  | some waves =>
      simp only [Option.some.injEq, forall_eq']
      rw [spares_bind, spares_mapM fun _ => spares_decodeWave]
      refine and_congr_right fun _ => ?_
      rw [← mapM_isOk, forall_exists_index]
      constructor
      · intro h ws hws
        exact WaveCheckpoint.spares_postInit.mp (Checked.spares_make.mp (h ws hws))
      · intro h ws hws
        exact Checked.spares_make.mpr (WaveCheckpoint.spares_postInit.mpr (h ws hws))

/-- The decoder either returns a checkpoint its constructors accepted or
raises the module's own error. -/
def FailsClosed (raw : Json) : Prop :=
  (∃ c, decodeCheckpoint raw = .ok c) ∨
    ∃ message, decodeCheckpoint raw = .error (.validation message)

theorem failsClosed_iff_spares {raw : Json} :
    FailsClosed raw ↔ Spares .typeError (decodeCheckpoint raw) := by
  unfold FailsClosed
  rcases decodeCheckpoint raw with (message | _) | c <;> simp [Spares]

/-- **Decoding.** A document is decoded to a checkpoint whose constructors
all accepted it, or rejected with an `IssueWaveValidationError`, exactly
where every value the decoder gets to compare, iterate or hash is one that
can be. -/
theorem decodeCheckpoint_failsClosed_iff (raw : Json) :
    FailsClosed raw ↔ CheckpointOperands raw :=
  failsClosed_iff_spares.trans spares_decodeCheckpoint

/-- A document without a generation. -/
def undated : Json :=
  .obj [("schema", .str schema), ("org", .str "acme"), ("repo", .str "forge"),
    ("waves", .arr [])]

/-- `None < 1`. -/
theorem not_failsClosed_undated : ¬ FailsClosed undated := by
  rw [failsClosed_iff_spares, spares_decodeCheckpoint]
  intro h
  have hschema : (Json.str schema).eq (.str schema) = true := by simp [Json.eq]
  have hwaves : ∀ wave ∈ ([] : List Json), ∃ w, decodeWave wave = .ok w :=
    fun _ hwave => absurd hwave List.not_mem_nil
  have hgeneration := ((h rfl hschema [] rfl).2 hwaves rfl rfl).1
  cases hgeneration

/-! ## Checkpoints of the store -/

/-- The fields of a well-typed outcome. -/
def ofOutcome (o : Automation.WaveIssueOutcome) : WaveIssueOutcome where
  issueNumber := .int o.issueNumber
  passed := .bool o.passed
  reason := .str o.reason
  prNumber := optionalInt o.prNumber
  nonCode := .bool o.nonCode

def ofReceipt (r : Automation.WaveMergeReceipt) : WaveMergeReceipt where
  issueNumber := .int r.issueNumber
  prNumber := .int r.prNumber
  reviewedHeadSha := .str r.reviewedHeadSha
  mergeSha := .str r.mergeSha

def ofIntent (i : Automation.WaveNonCodeIntent) : WaveNonCodeIntent where
  issueNumber := .int i.issueNumber
  reason := .str i.reason
  evidenceDigest := .str i.evidenceDigest
  repositoryRevision := .str i.repositoryRevision
  extraLabels := i.extraLabels.map .str
  explanation := .str i.explanation
  retired := .bool i.retired

@[simp] theorem eq_int (a b : Int) : (Json.int a).eq (.int b) = decide (a = b) := by
  simp [Json.eq, Json.number?]

@[simp] theorem eq_str (a b : String) : (Json.str a).eq (.str b) = decide (a = b) := by
  simp [Json.eq]

theorem le_finite_int {n : Int} : (PyFloat.finite n).le 0 = decide (n ≤ 0) := by
  have hcast : ((n : ℚ) ≤ 0) ↔ n ≤ 0 := Rat.intCast_nonpos
  simp only [PyFloat.le, hcast]

theorem lt_finite_int {n q : Int} : (PyFloat.finite n).lt q = decide (n < q) := by
  have hcast : ((n : ℚ) < q) ↔ n < q := Rat.intCast_lt_intCast
  simp only [PyFloat.lt, hcast]

/-- An integer passes the check it passed in the typed class. -/
theorem boolOr_le_int {n : Int} (h : ¬ n ≤ 0) : boolOr (·.le 0) (.int n) = .ok false := by
  show Except.ok ((PyFloat.finite n).le 0) = .ok false
  rw [le_finite_int, decide_eq_false h]

theorem boolOr_lt_int {n q : Int} (h : ¬ n < q) : boolOr (·.lt q) (.int n) = .ok false := by
  show Except.ok ((PyFloat.finite n).lt q) = .ok false
  rw [lt_finite_int, decide_eq_false h]

theorem isText_str {text : String} : isText (.str text) = !decide (text = "") := by
  simp [isText, Json.asStr?]

theorem isFullCommitSha_str {text : String} :
    isFullCommitSha (.str text) = Automation.isFullCommitSha text := rfl

theorem optionalInt_ok {n : Option Int} (h : ¬ n.any (· ≤ 0) = true) :
    ¬ (!(optionalInt n).isNull && notPositiveInt (optionalInt n)) = true := by
  cases n with
  | none => simp [optionalInt, Json.isNull]
  | some n => simpa [optionalInt, Json.isNull, notPositiveInt, Json.asInt?] using h

theorem optionalText_ok {text : Option String}
    (h : ¬ text.any (!Automation.isFullCommitSha ·) = true) :
    ¬ (!(optionalText text).isNull && !isFullCommitSha (optionalText text)) = true := by
  cases text with
  | none => simp [optionalText, Json.isNull]
  | some text => simpa [optionalText, Json.isNull, isFullCommitSha_str] using h

theorem ofOutcome_postInit {o : Automation.WaveIssueOutcome} (h : o.postInit = .ok ()) :
    (ofOutcome o).postInit = .ok () := by
  simp only [Automation.WaveIssueOutcome.postInit, check_bind_ok, raiseIf_ok] at h
  obtain ⟨hissue, hreason, hpassing, hpr, hpositive⟩ := h
  refine except_bind_ok.mpr ⟨false, boolOr_le_int hissue, ?_⟩
  simp only [check_bind_ok, raiseIf_ok]
  refine ⟨nofun, nofun, ?_, ?_, ?_, optionalInt_ok hpositive⟩
  · simpa [ofOutcome, isText_str] using hreason
  · simpa [ofOutcome, Json.isBool, Json.truthy] using hpassing
  · intro hbad
    obtain ⟨hcode, hnull⟩ := Bool.and_eq_true_iff.mp hbad
    refine hpr ⟨hcode, fun hn => ?_⟩
    simp [ofOutcome, hn, optionalInt, Json.isNull] at hnull

theorem ofReceipt_postInit {r : Automation.WaveMergeReceipt} (h : r.postInit = .ok ()) :
    (ofReceipt r).postInit = .ok () := by
  simp only [Automation.WaveMergeReceipt.postInit, check_bind_ok, raiseIf_ok] at h
  obtain ⟨hissue, hpr, hhead, hmerge⟩ := h
  refine except_bind_ok.mpr ⟨false, boolOr_le_int hissue, ?_⟩
  refine check_bind_ok.mpr ⟨rfl, except_bind_ok.mpr ⟨false, boolOr_le_int hpr, ?_⟩⟩
  simp only [check_bind_ok, raiseIf_ok]
  refine ⟨nofun, ?_, ?_⟩
  · simpa [ofReceipt, isFullCommitSha_str] using hhead
  · simpa [ofReceipt, isFullCommitSha_str] using hmerge

/-- No two of the values, read off a list without duplicates. -/
theorem distinct_map {α : Type} [DecidableEq α] {encode : α → Json} {values : List α}
    (heq : ∀ a b, (encode a).eq (encode b) = decide (a = b)) :
    distinct (values.map encode) = decide values.Nodup := by
  induction values with
  | nil => simp [distinct]
  | cons value values ih =>
      rw [List.map_cons, distinct, ih]
      have hmem : (values.map encode).any (encode value).eq = decide (value ∈ values) := by
        rw [List.any_map, Bool.eq_iff_iff, List.any_eq_true]
        simp [heq]
      rw [hmem, ← decide_not, ← Bool.decide_and]
      exact decide_eq_decide.mpr List.nodup_cons.symm

theorem ofIntent_postInit {i : Automation.WaveNonCodeIntent} (h : i.postInit = .ok ()) :
    (ofIntent i).postInit = .ok () := by
  simp only [Automation.WaveNonCodeIntent.postInit, check_bind_ok, raiseIf_ok] at h
  obtain ⟨hissue, hreason, hdigest, hrevision, hlabels, hdup⟩ := h
  refine except_bind_ok.mpr ⟨false, boolOr_le_int hissue, ?_⟩
  simp only [check_bind_ok, raiseIf_ok]
  refine ⟨nofun, ?_, ?_, ?_, ?_, ?_, nofun, nofun⟩
  · simpa [ofIntent, isText_str] using hreason
  · simpa [ofIntent, Json.asStr?] using hdigest
  · simpa [ofIntent, isFullCommitSha_str] using hrevision
  · simpa [ofIntent, Json.asStr?] using hlabels
  · simpa [ofIntent, distinct_map eq_str] using hdup

/-- A constructor's values, taken over one by one. -/
def ofChecked {ε ε' α β : Type} {check : α → Except ε Unit} {check' : β → Except ε' Unit}
    (f : α → β) (h : ∀ {a}, check a = .ok () → check' (f a) = .ok ()) (c : Checked check) :
    Checked check' :=
  ⟨f c.val, h c.property⟩

/-- The fields of a well-typed record. -/
def ofRecord (r : Automation.WaveRecord) : WaveRecord where
  waveIndex := .int r.waveIndex
  limit := optionalInt r.limit
  issueNumbers := r.issueNumbers.map .int
  baseMainSha := .str r.baseMainSha
  leaseNonce := .str r.leaseNonce
  outcomes := r.outcomes.map (ofChecked ofOutcome ofOutcome_postInit)
  mergeReceipts := r.mergeReceipts.map (ofChecked ofReceipt ofReceipt_postInit)
  nonCodeIntents := r.nonCodeIntents.map (ofChecked ofIntent ofIntent_postInit)
  verifiedMainSha := optionalText r.verifiedMainSha

theorem ofRecord_checkLimit {limit : Option Int} {fieldName : String}
    (h : Automation.checkLimit limit fieldName = .ok ()) :
    checkLimit (optionalInt limit) fieldName = .ok () := by
  obtain ⟨hpositive, hlimit⟩ := check_bind_ok.mp h
  refine check_bind_ok.mpr ⟨raiseIf_ok.mpr (optionalInt_ok (raiseIf_ok.mp hpositive)), ?_⟩
  have hmem := not_not.mp (raiseIf_ok.mp hlimit)
  refine raiseIf_ok.mpr ?_
  rw [Bool.not_eq_true', Bool.not_eq_false, List.any_eq_true]
  refine ⟨limit, hmem, ?_⟩
  cases limit with
  | none => simp [optionalInt, Json.eq]
  | some n => simp [optionalInt]

theorem ofRecord_positiveIssueNumbersLoop {fieldName : String} {seen values : List Int}
    (h : Automation.positiveIssueNumbersLoop fieldName seen values = .ok ()) :
    positiveIssueNumbersLoop fieldName seen (values.map .int) = .ok () := by
  induction values generalizing seen with
  | nil => rfl
  | cons value values ih =>
      obtain ⟨hpositive, h⟩ := check_bind_ok.mp h
      obtain ⟨hnew, h⟩ := check_bind_ok.mp h
      refine check_bind_ok.mpr ⟨raiseIf_ok.mpr ?_, check_bind_ok.mpr ⟨?_, ih h⟩⟩
      · simpa [notPositiveInt, Json.asInt?] using raiseIf_ok.mp hpositive
      · exact raiseIf_ok.mpr (raiseIf_ok.mp hnew)

theorem ofRecord_matchesSelection {r : Automation.WaveRecord} {ids : List Int}
    (h : r.MatchesSelection ids) : (ofRecord r).matchesSelection (ids.map .int) = true := by
  simp only [WaveRecord.matchesSelection, Bool.and_eq_true, distinct_map eq_int]
  refine ⟨decide_eq_true h.1, ?_⟩
  simp only [ofRecord, List.all_map, List.all_eq_true, Function.comp_apply, List.any_eq_true]
  exact fun id hid => ⟨.int id, List.mem_map_of_mem (h.2 hid), by simp⟩

theorem ofRecord_intentMatches {r : Automation.WaveRecord} {o : Automation.WaveIssueOutcome} :
    (ofRecord r).intentMatches (ofOutcome o) = r.intentMatches o := by
  unfold WaveRecord.intentMatches Automation.WaveRecord.intentMatches
    Automation.WaveRecord.intentFor
  rw [ofRecord, List.find?_map, Option.any_map]
  have hfind : (fun i => i.val.issueNumber.eq (ofOutcome o).issueNumber) ∘
      ofChecked ofIntent ofIntent_postInit =
      fun i : Checked Automation.WaveNonCodeIntent.postInit =>
        decide (i.val.issueNumber = o.issueNumber) := by
    funext i
    simp [ofChecked, ofIntent, ofOutcome]
  rw [hfind]
  rfl

theorem ofRecord_postInit {r : Automation.WaveRecord} (h : r.postInit = .ok ()) :
    (ofRecord r).postInit = .ok () := by
  simp only [Automation.WaveRecord.postInit, check_bind_ok, raiseIf_ok,
    Automation.requiredText, not_not] at h
  obtain ⟨hlimit, hissues, hsize, hbase, hnonce, hout, hrec, hint, hcode, hverified⟩ := h
  refine except_bind_ok.mpr ⟨false, boolOr_lt_int (Int.not_lt.mpr (Int.natCast_nonneg _)), ?_⟩
  refine check_bind_ok.mpr ⟨rfl, check_bind_ok.mpr ⟨ofRecord_checkLimit hlimit, ?_⟩⟩
  refine check_bind_ok.mpr ⟨ofRecord_positiveIssueNumbersLoop hissues, ?_⟩
  simp only [check_bind_ok, raiseIf_ok, requiredText]
  have hids : (ofRecord r).outcomes.map (·.val.issueNumber) = r.outcomeIds.map .int := by
    simp [ofRecord, Automation.WaveRecord.outcomeIds, ofChecked, ofOutcome]
  have hids' : (ofRecord r).mergeReceipts.map (·.val.issueNumber) = r.receiptIds.map .int := by
    simp [ofRecord, Automation.WaveRecord.receiptIds, ofChecked, ofReceipt]
  have hids'' : (ofRecord r).nonCodeIntents.map (·.val.issueNumber) = r.intentIds.map .int := by
    simp [ofRecord, Automation.WaveRecord.intentIds, ofChecked, ofIntent]
  rw [hids, hids', hids'', ofRecord_matchesSelection hout, ofRecord_matchesSelection hrec,
    ofRecord_matchesSelection hint]
  refine ⟨?_, ?_, ?_, Bool.false_ne_true, Bool.false_ne_true, Bool.false_ne_true, ?_, ?_⟩
  · cases hl : r.limit with
    | none => simp [ofRecord, hl, optionalInt, Json.asInt?]
    | some n => simpa [ofRecord, hl, optionalInt, Json.asInt?] using hsize
  · simpa [ofRecord, isFullCommitSha_str] using hbase
  · simpa [ofRecord, isText_str] using hnonce
  · have hany : ((ofRecord r).outcomes.any fun o =>
        o.val.nonCode.truthy && !(ofRecord r).intentMatches o.val) =
        r.outcomes.any fun o => o.val.nonCode && !r.intentMatches o.val := by
      rw [ofRecord, List.any_map]
      congr 1
      funext o
      exact congrArg (o.val.nonCode && !·) ofRecord_intentMatches
    rw [hany]
    exact hcode
  · exact optionalText_ok hverified

/-- The texts of the two states. -/
def ofStatus : WaveStatus → Json
  | .active => .str "active"
  | .completed => .str "completed"

/-- The fields of a well-typed checkpoint. -/
def ofCheckpoint (c : Automation.WaveCheckpoint) : WaveCheckpoint where
  org := .str c.org
  repo := .str c.repo
  generation := .int c.generation
  status := ofStatus c.status
  waves := c.waves.map (ofChecked ofRecord ofRecord_postInit)
  completedMainSha := optionalText c.completedMainSha

theorem eqItems_int (ns : List Int) : Json.eqItems (ns.map .int) (ns.map .int) = true := by
  induction ns with
  | nil => simp [Json.eqItems]
  | cons n ns ih => simp [Json.eqItems, ih]

theorem ofCheckpoint_postInit {c : Automation.WaveCheckpoint} (h : c.postInit = .ok ()) :
    (ofCheckpoint c).postInit = .ok () := by
  simp only [Automation.WaveCheckpoint.postInit, check_bind_ok, raiseIf_ok, not_not] at h
  obtain ⟨hbound, hgeneration, hwaves, hindexes, hcompleted, hsha⟩ := h
  have hgen : ¬ (c.generation : Int) < 1 := by omega
  have hstatus : inTexts ["active", "completed"] (ofStatus c.status) = .ok true := by
    cases c.status <;> simp [inTexts, ofStatus]
  refine check_bind_ok.mpr ⟨raiseIf_ok.mpr ?_, ?_⟩
  · simpa [ofCheckpoint, Json.truthy] using hbound
  refine except_bind_ok.mpr ⟨false, boolOr_lt_int hgen, check_bind_ok.mpr ⟨rfl, ?_⟩⟩
  refine except_bind_ok.mpr ⟨true, hstatus, ?_⟩
  simp only [check_bind_ok, raiseIf_ok]
  refine ⟨Bool.false_ne_true, ?_, ?_, ?_, optionalText_ok hsha⟩
  · simpa [ofCheckpoint] using hwaves
  · have hfields : (ofCheckpoint c).waves.map (·.val.waveIndex) =
        (c.waves.map (·.val.waveIndex)).map fun i : Nat => .int i := by
      simp [ofCheckpoint, ofChecked, ofRecord]
    have hlength : (ofCheckpoint c).waves.length = c.waves.length := List.length_map _
    rw [hfields, hindexes, hlength]
    simpa [Function.comp_def] using
      eqItems_int ((List.range c.waves.length).map fun i : Nat => (i : Int))
  · intro hbad
    obtain ⟨hdone, hnull⟩ := Bool.and_eq_true_iff.mp hbad
    refine hcompleted ⟨?_, ?_⟩
    · cases hs : c.status with
      | active => simp [ofCheckpoint, hs, ofStatus] at hdone
      | completed => rfl
    · cases hm : c.completedMainSha with
      | none => rfl
      | some sha => simp [ofCheckpoint, hm, optionalText, Json.isNull] at hnull

/-- A checkpoint of the store, as the interpreter has it. -/
def ofStored : StoredCheckpoint → Checked WaveCheckpoint.postInit :=
  ofChecked ofCheckpoint ofCheckpoint_postInit

theorem optionalInt_injective : Function.Injective optionalInt := by
  intro a b h
  cases a <;> cases b <;> simp_all [optionalInt]

theorem optionalText_injective : Function.Injective optionalText := by
  intro a b h
  cases a <;> cases b <;> simp_all [optionalText]

theorem ofChecked_injective {ε ε' α β : Type} {check : α → Except ε Unit}
    {check' : β → Except ε' Unit} {f : α → β}
    {h : ∀ {a}, check a = .ok () → check' (f a) = .ok ()} (hf : Function.Injective f) :
    Function.Injective (ofChecked f h) :=
  fun _ _ heq => Subtype.ext (hf (congrArg Subtype.val heq))

theorem ofOutcome_injective : Function.Injective ofOutcome := by
  rintro ⟨⟩ ⟨⟩ h
  simp only [ofOutcome, WaveIssueOutcome.mk.injEq, Json.int.injEq, Json.bool.injEq,
    Json.str.injEq, optionalInt_injective.eq_iff] at h
  simp only [h]

theorem ofReceipt_injective : Function.Injective ofReceipt := by
  rintro ⟨⟩ ⟨⟩ h
  simp only [ofReceipt, WaveMergeReceipt.mk.injEq, Json.int.injEq, Json.str.injEq] at h
  simp only [h]

theorem ofIntent_injective : Function.Injective ofIntent := by
  have hlabels : Function.Injective (List.map Json.str) :=
    List.map_injective_iff.mpr fun _ _ h => Json.str.inj h
  rintro ⟨⟩ ⟨⟩ h
  simp only [ofIntent, WaveNonCodeIntent.mk.injEq, Json.int.injEq, Json.str.injEq,
    Json.bool.injEq, hlabels.eq_iff] at h
  simp only [h]

theorem ofRecord_injective : Function.Injective ofRecord := by
  have hissues : Function.Injective (List.map Json.int) :=
    List.map_injective_iff.mpr fun _ _ h => Json.int.inj h
  have houtcomes := List.map_injective_iff.mpr
    (ofChecked_injective ofOutcome_injective (h := ofOutcome_postInit))
  have hreceipts := List.map_injective_iff.mpr
    (ofChecked_injective ofReceipt_injective (h := ofReceipt_postInit))
  have hintents := List.map_injective_iff.mpr
    (ofChecked_injective ofIntent_injective (h := ofIntent_postInit))
  rintro ⟨⟩ ⟨⟩ h
  simp only [ofRecord, WaveRecord.mk.injEq, Json.int.injEq, Json.str.injEq, Int.natCast_inj,
    optionalInt_injective.eq_iff, optionalText_injective.eq_iff, hissues.eq_iff,
    houtcomes.eq_iff, hreceipts.eq_iff, hintents.eq_iff] at h
  simp only [h]

theorem ofStatus_injective : Function.Injective ofStatus := by
  intro a b h
  cases a <;> cases b <;> simp_all [ofStatus]

/-- A checkpoint can be read off its untyped fields. -/
theorem ofStored_injective : Function.Injective ofStored := by
  have hwaves := List.map_injective_iff.mpr
    (ofChecked_injective ofRecord_injective (h := ofRecord_postInit))
  refine ofChecked_injective ?_
  rintro ⟨⟩ ⟨⟩ h
  simp only [ofCheckpoint, WaveCheckpoint.mk.injEq, Json.int.injEq, Json.str.injEq,
    Int.natCast_inj, ofStatus_injective.eq_iff, optionalText_injective.eq_iff,
    hwaves.eq_iff] at h
  simp only [h]

/-- **The round trip.** A checkpoint of the store, and any checkpoint at all
that its constructors accepted, comes back from its document as it was; and
a document that is accepted, written again from what it was decoded to, is
decoded to the same checkpoint. -/
theorem checkpoint_document_roundTrip :
    Function.Injective ofStored ∧
    (∀ c : StoredCheckpoint,
      decodeCheckpoint (checkpointToJson (ofStored c).val) = .ok (ofStored c)) ∧
    (∀ c : Checked WaveCheckpoint.postInit,
      decodeCheckpoint (checkpointToJson c.val) = .ok c) ∧
    (∀ raw, (do
        let c ← decodeCheckpoint raw
        decodeCheckpoint (checkpointToJson c.val)) = decodeCheckpoint raw) := by
  refine ⟨ofStored_injective, fun c => decodeCheckpoint_checkpointToJson _,
    decodeCheckpoint_checkpointToJson, fun raw => ?_⟩
  cases decodeCheckpoint raw with
  | error _ => rfl
  | ok c => exact decodeCheckpoint_checkpointToJson c

end Hephaestus.Automation.Untyped
