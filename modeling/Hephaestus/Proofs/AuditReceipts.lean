import Mathlib.Algebra.GroupWithZero.Nat
import Hephaestus.Automation.AuditReceipts
import Hephaestus.Proofs.AuthorityClaims

/-!
# Receipts come back

A receipt is written from values its writer has checked, and its reader checks
them again, so what is written is read unless a reader asks for more than the
writer did. The pending receipt is such a pair. The reader of the rebase record
asks for more in one place: it bounds the body, and the body holds the audit's
texts escaped twice, once inside the receipt and once with the receipt in the
record. How long that gets is a sum over their characters, and the record comes
back exactly when the sum leaves room for the rest.
-/

namespace Hephaestus.Automation

open Hephaestus.Lib

/-! ## Identities -/

theorem afterLiteral_append (literal t : Text) : afterLiteral literal (literal ++ t) = some t := by
  rw [afterLiteral, if_pos (Text.startsWith_iff.mpr ⟨t, rfl⟩), List.drop_left]

theorem DigitTable.isDigit_of_ascii (digits : DigitTable) {c : Char} (h : c.toNat < 128) :
    digits.isDigit c = c.isDigit := by
  rw [isDigit, digits.value_ascii c h]
  split
  · next hc => rw [hc]; rfl
  · next hc => rw [Bool.not_eq_true] at hc; rw [hc]; rfl

theorem alphanum_range {c : Char} (h : c.isAlphanum = true) : 48 ≤ c.toNat ∧ c.toNat ≤ 122 := by
  delta Char.isAlphanum Char.isAlpha Char.isUpper Char.isLower Char.isDigit at h
  simp only [Bool.or_eq_true, Bool.and_eq_true, decide_eq_true_eq, ge_iff_le,
    UInt32.le_iff_toNat_le, show ('A'.val).toNat = 65 from rfl,
    show ('Z'.val).toNat = 90 from rfl, show ('a'.val).toNat = 97 from rfl,
    show ('z'.val).toNat = 122 from rfl, show ('0'.val).toNat = 48 from rfl,
    show ('9'.val).toNat = 57 from rfl] at h
  have hval : c.toNat = c.val.toNat := rfl
  omega

theorem isAlphanum_of_isDigit {c : Char} (h : c.isDigit = true) : c.isAlphanum = true := by
  delta Char.isAlphanum
  rw [h, Bool.or_true]

theorem toNat_of_isDigit {c : Char} (h : c.isDigit = true) : c.toNat < 128 := by
  have hrange := alphanum_range (isAlphanum_of_isDigit h)
  omega

/-- A number that was written in decimal is read as itself. -/
theorem DigitTable.int_toDigits (digits : DigitTable) (n : Nat) :
    digits.int (Nat.toDigits 10 n) = n := by
  have hfold : ∀ (t : Text) (k : Nat), (∀ c ∈ t, c.isDigit = true) →
      t.foldl (fun n c => 10 * n + (digits.value c).getD 0) k = Nat.ofDigitChars 10 t k := by
    intro t
    induction t with
    | nil => intro k _; rfl
    | cons c t ih =>
        intro k h
        have hc := h c List.mem_cons_self
        rw [List.foldl_cons, Nat.ofDigitChars_cons, digits.value_ascii c (toNat_of_isDigit hc),
          if_pos hc]
        exact ih _ fun d hd => h d (List.mem_cons_of_mem c hd)
  rw [int, hfold _ 0 fun c hc => JsonText.isDigit_of_mem_toDigits hc,
    Nat.ofDigitChars_ten_toDigits]

theorem isLowerHex_of_length {n : Nat} {t : Text} (h : Text.isHexOfLength n t = true) :
    ∀ c ∈ t, Text.isLowerHex c = true := by
  rw [Text.isHexOfLength, Bool.and_eq_true] at h
  exact List.all_eq_true.mp h.2

theorem isLowerHex_of_fullSha {t : Text} (h : isFullSha t = true) :
    ∀ c ∈ t, Text.isLowerHex c = true := by
  rw [isFullSha, Bool.or_eq_true] at h
  rcases h with h | h
  · exact isLowerHex_of_length h
  · exact isLowerHex_of_length h

theorem decimalInt_of_pos {n : Int} (h : 0 < n) :
    JsonText.decimalInt n = Nat.toDigits 10 n.toNat := by
  obtain ⟨k, rfl⟩ := Int.eq_ofNat_of_zero_le h.le
  rfl

theorem DigitTable.takeWhile_isDigit (digits : DigitTable) (n : Nat) (t : Text) :
    (Nat.toDigits 10 n ++ (":head=".toList ++ t)).takeWhile digits.isDigit
      = Nat.toDigits 10 n := by
  refine JsonText.takeWhile_append_of_head ?_ ?_
  · intro c hc
    have hdigit := JsonText.isDigit_of_mem_toDigits hc
    rw [digits.isDigit_of_ascii (toNat_of_isDigit hdigit), hdigit]
  · intro c hc
    rw [← Option.some.inj hc, digits.isDigit_of_ascii (by decide)]
    rfl

/-- An identity is read from the text that was made of it. -/
theorem readIdentity_append (digits : DigitTable) (literal : Text) {prNumber : Int} {head : Text}
    (hpr : 0 < prNumber) (hhead : isFullSha head = true) (rest : Text) :
    readIdentity digits literal (literal ++ JsonText.decimalInt prNumber ++ ":head=".toList ++ head
      ++ " -->".toList ++ rest) = some (prNumber.toNat, head, rest) := by
  have htake : (head ++ (" -->".toList ++ rest)).takeWhile Text.isLowerHex = head := by
    refine JsonText.takeWhile_append_of_head (isLowerHex_of_fullSha hhead) ?_
    intro c hc
    rw [← Option.some.inj hc]
    rfl
  rw [decimalInt_of_pos hpr]
  simp only [readIdentity, List.append_assoc, afterLiteral_append, Option.bind_eq_bind,
    Option.bind_some, digits.takeWhile_isDigit, if_neg Nat.toDigits_ne_nil, List.drop_left, htake, hhead,
    Bool.true_eq_false, if_false, digits.int_toDigits]

/-! ## Lines -/

theorem partitionLine_append {line : Text} (h : '\n' ∉ line) (rest : Text) :
    partitionLine (line ++ '\n' :: rest) = (line, some rest) := by
  have htake : (line ++ '\n' :: rest).takeWhile (· != '\n') = line := by
    refine JsonText.takeWhile_append_of_head ?_ ?_
    · intro c hc
      simp only [bne_iff_ne, ne_eq]
      rintro rfl
      exact h hc
    · intro c hc
      rw [← Option.some.inj hc]
      rfl
  simp only [partitionLine, htake, List.drop_left]

theorem commentContent_append (t : Text) :
    commentContent ("<!-- ".toList ++ t ++ " -->".toList) = some t := by
  rw [commentContent, List.append_assoc, afterLiteral_append]
  simp only [Option.bind_eq_bind, Option.bind_some, List.reverse_append, afterLiteral_append,
    List.reverse_reverse]

theorem newline_notMem_of_printable {t : Text} (h : ∀ c ∈ t, JsonText.isPrintable c = true) :
    '\n' ∉ t :=
  fun hmem => absurd (h _ hmem) (by decide)

theorem printable_of_isAlphanum {c : Char} (h : c.isAlphanum = true) :
    JsonText.isPrintable c = true := by
  have hrange := alphanum_range h
  simp only [JsonText.isPrintable, Bool.and_eq_true, decide_eq_true_eq]
  omega

theorem printable_of_isDigit {c : Char} (h : c.isDigit = true) : JsonText.isPrintable c = true :=
  printable_of_isAlphanum (isAlphanum_of_isDigit h)

theorem printable_of_isLowerHex {c : Char} (h : Text.isLowerHex c = true) :
    JsonText.isPrintable c = true := by
  simp only [Text.isLowerHex, Bool.or_eq_true, Bool.and_eq_true, decide_eq_true_eq] at h
  simp only [JsonText.isPrintable, Bool.and_eq_true, decide_eq_true_eq]
  omega

/-- An identity of printable pieces is printable. -/
theorem printable_identity {literal : Text} {prNumber : Int} {head : Text}
    (hliteral : ∀ c ∈ literal, JsonText.isPrintable c = true) (hpr : 0 < prNumber)
    (hhead : isFullSha head = true) :
    ∀ c ∈ literal ++ JsonText.decimalInt prNumber ++ ":head=".toList ++ head,
      JsonText.isPrintable c = true := by
  intro c hc
  rw [decimalInt_of_pos hpr] at hc
  simp only [List.mem_append] at hc
  rcases hc with ((hc | hc) | hc) | hc
  · exact hliteral c hc
  · exact printable_of_isDigit (JsonText.isDigit_of_mem_toDigits hc)
  · exact Text.forall_mem_of_all (p := fun c => JsonText.isPrintable c = true) (by decide) c hc
  · exact printable_of_isLowerHex (isLowerHex_of_fullSha hhead c hc)

/-- A marker of printable pieces is printable. -/
theorem printable_marker {literal : Text} {prNumber : Int} {head : Text}
    (hliteral : ∀ c ∈ literal, JsonText.isPrintable c = true) (hpr : 0 < prNumber)
    (hhead : isFullSha head = true) :
    ∀ c ∈ literal ++ JsonText.decimalInt prNumber ++ ":head=".toList ++ head ++ " -->".toList,
      JsonText.isPrintable c = true := by
  intro c hc
  rcases List.mem_append.mp hc with hc | hc
  · exact printable_identity hliteral hpr hhead c hc
  · exact Text.forall_mem_of_all (p := fun c => JsonText.isPrintable c = true) (by decide) c hc

/-! ## The pending receipt -/

/-- The document of a pending receipt as it is written. -/
def storedPayload (prNumber : Int) (headSha grade : Text) (audit : ReviewAudit) : Json :=
  .obj [("format", .int 2), ("grade", jsonText grade), ("head_sha", jsonText headSha),
    ("pr_number", .int prNumber), ("raw_feedback", jsonText audit.rawFeedback),
    ("summary", jsonText audit.summary), ("verdict", .str "GO")]

theorem sorted_pendingPayload (prNumber : Int) (headSha grade : Text) {audit : ReviewAudit}
    (hverdict : audit.verdict = some .go) :
    JsonText.sorted (pendingPayload prNumber headSha grade audit)
      = storedPayload prNumber headSha grade audit := by
  simp [pendingPayload, storedPayload, hverdict, JsonText.sorted, JsonText.sortedFields,
    JsonText.sortFields, List.insertionSort, List.orderedInsert, Text.sortsBefore, jsonText,
    ReviewVerdict.text]

theorem plain_pendingPayload (prNumber : Int) (headSha grade : Text) {audit : ReviewAudit}
    (hverdict : audit.verdict = some .go) :
    JsonText.Plain (pendingPayload prNumber headSha grade audit) := by
  simp [pendingPayload, hverdict, JsonText.Plain, JsonText.PlainFields, jsonText]

theorem matchPendingMarker_pendingMarker (digits : DigitTable) {prNumber : Int} {head : Text}
    (hpr : 0 < prNumber) (hhead : isFullSha head = true) :
    matchPendingMarker digits (pendingMarker prNumber head) = some (prNumber.toNat, head) := by
  have hread := readIdentity_append digits pendingLiteral hpr hhead []
  rw [List.append_nil] at hread
  rw [matchPendingMarker, pendingMarker, hread]

/-- What the pending receipt can hold: the bounds of its reader. -/
structure Receivable (audit : ReviewAudit) : Prop where
  clean : isCleanGoReview audit = true
  grade : ∃ grade ∈ validGrades, audit.grade = some grade
  summary_ne : audit.summary ≠ []
  summary_le : audit.summary.length ≤ maxReviewSummaryChars
  feedback_le : audit.rawFeedback.length ≤ maxRawFeedbackChars

/-- The body of a pending receipt. -/
def pendingBody (floats : JsonText.FloatText) (prNumber : Int) (headSha grade : Text)
    (audit : ReviewAudit) : Text :=
  pendingMarker prNumber headSha ++ "\n<!-- ".toList
    ++ JsonText.dumps floats (pendingPayload prNumber headSha grade audit) ++ " -->".toList

theorem renderPending_eq (floats : JsonText.FloatText) (digits : DigitTable) {prNumber : Int}
    {head grade : Text} {audit : ReviewAudit} (hpr : 0 < prNumber) (hhead : isFullSha head = true)
    (hclean : isCleanGoReview audit = true) (hgrade : audit.grade = some grade) :
    renderPendingImplementationGoAudit floats digits prNumber head audit
      = .ok (pendingMarker prNumber head, pendingBody floats prNumber head grade audit) := by
  have hmarker := matchPendingMarker_pendingMarker digits hpr hhead
  rw [renderPendingImplementationGoAudit, hmarker, if_neg (by simp; omega), hclean, hgrade]
  rfl

theorem cleanGo_fields {audit : ReviewAudit} (h : isCleanGoReview audit = true) :
    audit.valid = true ∧ audit.verdict = some .go ∧ audit.findings = []
      ∧ audit.scopeExpansions = [] := by
  simp only [isCleanGoReview, Bool.and_eq_true, beq_iff_eq, List.isEmpty_iff] at h
  exact ⟨h.1.1.1, h.1.1.2, h.1.2, h.2⟩

theorem equals_int (n : Int) : equals (some (.int n)) (.int n) = true := by
  simp [equals, Json.eq, Json.number?]

theorem equals_jsonText (t : Text) : equals (some (jsonText t)) (jsonText t) = true := by
  simp [equals, Json.eq, jsonText]

/-- A pending receipt is read back whole. -/
theorem parsePending_pendingBody (floats : JsonText.FloatText) (digits : DigitTable)
    {prNumber : Int} {head grade : Text} {audit : ReviewAudit} (hpr : 0 < prNumber)
    (hhead : isFullSha head = true) (h : Receivable audit) (hgrade : audit.grade = some grade) :
    parsePendingImplementationGoAudit floats digits (pendingBody floats prNumber head grade audit)
      = .ok (some ⟨prNumber.toNat, head, audit⟩) := by
  obtain ⟨hvalid, hverdict, hfindings, hexpansions⟩ := cleanGo_fields h.clean
  have hline : '\n' ∉ pendingMarker prNumber head :=
    newline_notMem_of_printable
      (printable_marker (Text.forall_mem_of_all (by decide)) hpr hhead)
  have hbody : pendingBody floats prNumber head grade audit = pendingMarker prNumber head
      ++ '\n' :: ("<!-- ".toList
        ++ JsonText.dumps floats (pendingPayload prNumber head grade audit) ++ " -->".toList) := by
    simp [pendingBody]
  have hmember : grade ∈ validGrades := by
    obtain ⟨grade', hmem, hgrade'⟩ := h.grade
    rw [hgrade] at hgrade'
    rw [Option.some.inj hgrade']
    exact hmem
  have hnat : ((prNumber.toNat : Nat) : Int) = prNumber := Int.toNat_of_nonneg hpr.le
  have hloads := JsonText.loads_dumps floats
    (fun _ => JsonText.nodup_keepLast) (plain_pendingPayload prNumber head grade hverdict)
  rw [sorted_pendingPayload prNumber head grade hverdict] at hloads
  rw [parsePendingImplementationGoAudit, hbody, partitionLine_append hline,
    matchPendingMarker_pendingMarker digits hpr hhead]
  simp only [Option.bind_some, commentContent_append, hloads]
  have hsummary := h.summary_ne
  have hsummaryLe := h.summary_le
  have hfeedback := h.feedback_le
  have hformat : (storedPayload prNumber head grade audit).get? "format" = some (.int 2) := rfl
  have hgradeField : (storedPayload prNumber head grade audit).get? "grade"
      = some (.str (String.ofList grade)) := rfl
  have hheadField : (storedPayload prNumber head grade audit).get? "head_sha"
      = some (jsonText head) := rfl
  have hnumberField : (storedPayload prNumber head grade audit).get? "pr_number"
      = some (.int prNumber) := rfl
  have hfeedbackField : (storedPayload prNumber head grade audit).get? "raw_feedback"
      = some (.str (String.ofList audit.rawFeedback)) := rfl
  have hsummaryField : (storedPayload prNumber head grade audit).get? "summary"
      = some (.str (String.ofList audit.summary)) := rfl
  have hverdictField : (storedPayload prNumber head grade audit).get? "verdict"
      = some (.str ReviewVerdict.go.text) := rfl
  have hlegacy : ¬ equals (some (.int 2)) (.int 1) = true := by decide
  have hcurrent : ¬ equals (some (.int 2)) (.int 2) = false := by decide
  have hvalidPayload : ¬ (equals (some (.int prNumber)) (.int (prNumber.toNat : Nat)) = false
      ∨ equals (some (jsonText head)) (jsonText head) = false ∨ grade ∉ validGrades
      ∨ equals (some (.str ReviewVerdict.go.text)) (.str ReviewVerdict.go.text) = false
      ∨ audit.summary = [] ∨ maxReviewSummaryChars < audit.summary.length
      ∨ maxRawFeedbackChars < audit.rawFeedback.length) := by
    rw [hnat, equals_int, equals_jsonText]
    have hgo : equals (some (.str ReviewVerdict.go.text)) (.str ReviewVerdict.go.text) = true :=
      by decide
    have hsummary := h.summary_le
    have hfeedback := h.feedback_le
    simp only [Bool.true_eq_false, hmember, not_true_eq_false, hgo, h.summary_ne, false_or]
    omega
  simp only [hformat, hgradeField, hheadField, hnumberField, hfeedbackField, hsummaryField,
    hverdictField, String.toList_ofList, if_neg hlegacy, if_neg hcurrent, if_neg hvalidPayload]
  obtain ⟨grade', summary, findings, rawFeedback, valid, verdict, scopeExpansions⟩ := audit
  subst hgrade hvalid hverdict hfindings hexpansions
  rfl

/-! ## The rebase record -/

/-- The document of a record as it is written. -/
def RebaseReviewRecord.stored (record : RebaseReviewRecord) (auditBody : Text) :
    List (String × Json) :=
  [("audit", jsonText auditBody), ("issue_number", .int record.issueNumber),
    ("original_audit_id", jsonText record.originalAuditId), ("pr_number", .int record.prNumber),
    ("repository", jsonText record.repository),
    ("resulting_head_sha", jsonText record.resultingHeadSha),
    ("resulting_tree_sha", jsonText record.resultingTreeSha),
    ("reviewed_base_sha", jsonText record.reviewedBaseSha),
    ("reviewed_head_sha", jsonText record.reviewedHeadSha),
    ("source_head_sha", jsonText record.sourceHeadSha), ("state", .str record.state.text)]
    ++ (match record.state with
      | .superseded byHeadSha _ => [("superseded_by_head_sha", jsonText byHeadSha)]
      | .active | .revoked => [])
    ++ [("target_base_sha", jsonText record.targetBaseSha)]

theorem RebaseReviewRecord.sorted_payload (record : RebaseReviewRecord) (auditBody : Text) :
    JsonText.sorted (record.payload auditBody) = .obj (record.stored auditBody) := by
  cases hstate : record.state with
  | active =>
      simp [payload, stored, hstate, JsonText.sorted, JsonText.sortedFields, JsonText.sortFields,
        List.insertionSort, List.orderedInsert, Text.sortsBefore, jsonText]
  | revoked =>
      simp [payload, stored, hstate, JsonText.sorted, JsonText.sortedFields, JsonText.sortFields,
        List.insertionSort, List.orderedInsert, Text.sortsBefore, jsonText]
  | superseded byHeadSha other =>
      simp [payload, stored, hstate, JsonText.sorted, JsonText.sortedFields, JsonText.sortFields,
        List.insertionSort, List.orderedInsert, Text.sortsBefore, jsonText]

theorem RebaseReviewRecord.plain_payload (record : RebaseReviewRecord) (auditBody : Text) :
    JsonText.Plain (record.payload auditBody) := by
  cases hstate : record.state with
  | active => simp [payload, hstate, JsonText.Plain, JsonText.PlainFields, jsonText]
  | revoked => simp [payload, hstate, JsonText.Plain, JsonText.PlainFields, jsonText]
  | superseded byHeadSha other =>
      simp [payload, hstate, JsonText.Plain, JsonText.PlainFields, jsonText]

theorem RebaseReviewRecord.hasRebaseFields_stored (record : RebaseReviewRecord)
    (auditBody : Text) : hasRebaseFields (record.stored auditBody) = true := by
  cases hstate : record.state with
  | active => simp [stored, hstate, hasRebaseFields, rebaseFieldNames]
  | revoked => simp [stored, hstate, hasRebaseFields, rebaseFieldNames]
  | superseded byHeadSha other => simp [stored, hstate, hasRebaseFields, rebaseFieldNames]

theorem checkedText_of {payload : Json} {name : String} {check : Text → Bool} (message : String)
    (t : {t : Text // check t = true}) (h : payload.get? name = some (jsonText t)) :
    checkedText payload name check message = .ok t := by
  have ht : check (String.ofList t.1).toList = true := by rw [String.toList_ofList]; exact t.2
  rw [checkedText, h]
  simp only [jsonText, dif_pos ht]
  exact congrArg Except.ok (Subtype.ext String.toList_ofList)

theorem checkedNumber_of {payload : Json} {name : String} (n : PositiveInt)
    (h : payload.get? name = some (.int n)) : checkedNumber payload name = .ok n := by
  rw [checkedNumber, h]
  exact dif_pos n.2

theorem checkedState_stored (record : RebaseReviewRecord) (auditBody : Text) :
    checkedState (.obj (record.stored auditBody)) record.reviewedHeadSha
      (originalAuditIdentity record.prNumber record.reviewedHeadSha) = .ok record.state := by
  have hidentity : equals ((Json.obj (record.stored auditBody)).get? "original_audit_id")
      (jsonText (originalAuditIdentity record.prNumber record.reviewedHeadSha)) = true :=
    equals_jsonText _
  have hunclaimed : equals (some ((none : Option Json).getD (.str ""))) (.str "") = true := by
    decide
  have hstate : (Json.obj (record.stored auditBody)).get? "state"
      = some (.str record.state.text) := rfl
  rw [checkedState, hidentity, hstate]
  cases h : record.state with
  | active =>
      have habsent : (Json.obj (record.stored auditBody)).get? "superseded_by_head_sha" = none := by
        rw [RebaseReviewRecord.stored, h]
        rfl
      rw [habsent, hunclaimed]
      rfl
  | revoked =>
      have habsent : (Json.obj (record.stored auditBody)).get? "superseded_by_head_sha" = none := by
        rw [RebaseReviewRecord.stored, h]
        rfl
      rw [habsent, hunclaimed]
      rfl
  | superseded byHeadSha other =>
      have hfield : (Json.obj (record.stored auditBody)).get? "superseded_by_head_sha"
          = some (jsonText byHeadSha) := by
        rw [RebaseReviewRecord.stored, h]
        rfl
      simp only [RebaseState.text, checkedText_of _ byHeadSha hfield]
      exact dif_pos other

/-- The record is made again of what was written of it. -/
theorem ofPayload_stored (record : RebaseReviewRecord) (auditBody : Text) :
    RebaseReviewRecord.ofPayload (.obj (record.stored auditBody)) record.audit = .ok record := by
  have htarget : (Json.obj (record.stored auditBody)).get? "target_base_sha"
      = some (jsonText record.targetBaseSha) := by
    rw [RebaseReviewRecord.stored]
    cases record.state with
    | active => rfl
    | revoked => rfl
    | superseded byHeadSha other => rfl
  have hcommit := fun (name : String) (t : FullSha)
      (h : (Json.obj (record.stored auditBody)).get? name = some (jsonText t)) =>
    checkedText_of "rebase record commit is invalid" t h
  have hnumber : checkedNumber (.obj (record.stored auditBody)) "pr_number"
      = .ok record.prNumber := checkedNumber_of record.prNumber rfl
  rw [RebaseReviewRecord.ofPayload, checkedText_of _ record.repository rfl,
    checkedNumber_of record.issueNumber rfl]
  simp only [hnumber,
    hcommit "reviewed_head_sha" record.reviewedHeadSha rfl,
    hcommit "reviewed_base_sha" record.reviewedBaseSha rfl,
    hcommit "source_head_sha" record.sourceHeadSha rfl,
    hcommit "target_base_sha" record.targetBaseSha htarget,
    hcommit "resulting_head_sha" record.resultingHeadSha rfl,
    hcommit "resulting_tree_sha" record.resultingTreeSha rfl, Except.bind, bind,
    checkedState_stored]
  exact dif_pos record.audit.2

/-- The body of the pending receipt inside a record. -/
def RebaseReviewRecord.auditBody (floats : JsonText.FloatText) (record : RebaseReviewRecord) :
    Text :=
  pendingBody floats record.prNumber record.reviewedHeadSha (record.audit.1.grade.getD [])
    record.audit

/-- The body of a record. -/
def RebaseReviewRecord.body (floats : JsonText.FloatText) (record : RebaseReviewRecord) : Text :=
  rebaseMarker record.prNumber ++ '\n' ::
    JsonText.render floats (.obj (record.stored (record.auditBody floats)))

theorem renderRebase_eq (floats : JsonText.FloatText) (digits : DigitTable)
    (record : RebaseReviewRecord) :
    renderReviewRebaseRecord floats digits record
      = .ok (rebaseMarker record.prNumber, record.body floats) := by
  have hgrade : record.audit.1.grade = some (record.audit.1.grade.getD []) := by
    obtain ⟨grade, hgrade⟩ := Option.isSome_iff_exists.mp record.audit.2.2
    rw [hgrade]
    rfl
  rw [renderReviewRebaseRecord, renderPending_eq floats digits record.prNumber.2
    record.reviewedHeadSha.2 record.audit.2.1 hgrade, RebaseReviewRecord.body]
  simp only [bind, Except.bind, JsonText.dumps, RebaseReviewRecord.sorted_payload]
  simp [RebaseReviewRecord.auditBody]

theorem rebaseMarker_line (record : RebaseReviewRecord) :
    '\n' ∉ rebaseMarker record.prNumber := by
  refine newline_notMem_of_printable ?_
  intro c hc
  rw [rebaseMarker, decimalInt_of_pos record.prNumber.2] at hc
  simp only [List.mem_append] at hc
  rcases hc with ((hc | hc) | hc) | hc
  · exact Text.forall_mem_of_all (p := fun c => JsonText.isPrintable c = true) (by decide) c hc
  · exact Text.forall_mem_of_all (p := fun c => JsonText.isPrintable c = true) (by decide) c hc
  · exact printable_of_isDigit (JsonText.isDigit_of_mem_toDigits hc)
  · exact Text.forall_mem_of_all (p := fun c => JsonText.isPrintable c = true) (by decide) c hc

/-- A record whose audit a receipt can hold comes back if its body is in bounds, and
its reader refuses it if not. -/
theorem parseRebase_body (floats : JsonText.FloatText) (digits : DigitTable)
    (record : RebaseReviewRecord) (h : Receivable record.audit) :
    parseReviewRebaseRecord floats digits (record.body floats)
      = if (record.body floats).length ≤ maxRebaseRecordChars then .ok (some record)
        else .error (.value "rebase record is malformed") := by
  have hstart : Text.startsWith (record.body floats) rebaseReviewLiteral = true := by
    rw [RebaseReviewRecord.body, rebaseMarker, List.append_assoc, List.append_assoc,
      List.append_assoc]
    exact Text.startsWith_iff.mpr ⟨_, rfl⟩
  have hline := partitionLine_append (rebaseMarker_line record)
    (JsonText.render floats (.obj (record.stored (record.auditBody floats))))
  rw [← RebaseReviewRecord.body] at hline
  rw [parseReviewRebaseRecord, hstart, if_neg (by decide), hline]
  by_cases hlength : (record.body floats).length ≤ maxRebaseRecordChars
  · obtain ⟨grade, -, hgrade⟩ := h.grade
    have hpending := parsePending_pendingBody floats digits record.prNumber.2
      record.reviewedHeadSha.2 h hgrade
    have hloads := JsonText.loads_dumps floats
      (fun _ => JsonText.nodup_rejectDuplicates) (record.plain_payload (record.auditBody floats))
    rw [JsonText.dumps, RebaseReviewRecord.sorted_payload] at hloads
    have hbody : record.auditBody floats = pendingBody floats record.prNumber
        record.reviewedHeadSha grade record.audit := by
      rw [RebaseReviewRecord.auditBody, hgrade]
      rfl
    have hauditField : (Json.obj (record.stored (record.auditBody floats))).get? "audit"
        = some (.str (String.ofList (record.auditBody floats))) := rfl
    have hnumberField : (Json.obj (record.stored (record.auditBody floats))).get? "pr_number"
        = some (.int record.prNumber) := rfl
    have hheadField : (Json.obj (record.stored (record.auditBody floats))).get? "reviewed_head_sha"
        = some (jsonText record.reviewedHeadSha) := rfl
    have hnat : ((record.prNumber.1.toNat : Nat) : Int) = record.prNumber :=
      Int.toNat_of_nonneg record.prNumber.2.le
    have hmatch : ¬ (equals (some (.int record.prNumber)) (.int (record.prNumber.1.toNat : Nat))
          = false
        ∨ equals (some (jsonText record.reviewedHeadSha)) (jsonText record.reviewedHeadSha)
          = false) := by
      rw [hnat, equals_int, equals_jsonText]
      simp
    rw [if_pos hlength]
    simp only [if_neg (Nat.not_lt.mpr hlength), hloads, record.hasRebaseFields_stored,
      Bool.true_eq_false, if_false, hauditField, String.toList_ofList, hnumberField, hheadField]
    rw [hbody, hpending]
    simp only [bind, Except.bind, if_neg hmatch, ofPayload_stored, if_true]
  · rw [if_neg hlength]
    simp only [if_pos (Nat.not_le.mp hlength)]

/-! ## What a reviewer's answer leaves -/

theorem escapeHtmlChar_ne_nil (c : Char) : escapeHtmlChar c ≠ [] := by
  unfold escapeHtmlChar
  split
  · decide
  split
  · decide
  split
  · decide
  · exact List.cons_ne_nil _ _

theorem sanitizeSummary_ne_nil (u : Text.Unicode) (summary : Text) :
    sanitizeSummary u summary ≠ [] := by
  unfold sanitizeSummary
  generalize Text.collapse (Text.strip (Regex.delete u reservedAuthorityClaim summary)) = compact
  cases compact with
  | nil => decide
  | cons c rest =>
      have hescaped : escapeHtml (c :: rest) ≠ [] := by
        rw [escapeHtml, List.flatMap_cons]
        exact List.append_ne_nil_of_left_ne_nil (escapeHtmlChar_ne_nil c) _
      simp only [reduceCtorEq, if_false, boundSummary]
      split
      · exact hescaped
      · exact List.append_ne_nil_of_right_ne_nil _ (by decide)

theorem boundSummary_length_le (t : Text) : (boundSummary t).length ≤ maxReviewSummaryChars := by
  unfold boundSummary
  split
  · assumption
  · have hcut := (Text.rstrip_initial (t.take (maxReviewSummaryChars - 3))).length_le
    have htake := List.length_take_le (maxReviewSummaryChars - 3) t
    have hdots : ("...".toList).length = 3 := by decide
    have hmax : maxReviewSummaryChars = 200 := rfl
    rw [List.length_append, hdots]
    omega

theorem sanitizeSummary_length_le (u : Text.Unicode) (summary : Text) :
    (sanitizeSummary u summary).length ≤ maxReviewSummaryChars := by
  simp only [sanitizeSummary]
  split
  · decide
  · exact boundSummary_length_le _

theorem boundFeedback_length_le (t : Text) : (boundFeedback t).length ≤ maxRawFeedbackChars := by
  unfold boundFeedback
  split
  · assumption
  · have hcut := (Text.rstrip_initial (t.take (maxRawFeedbackChars - 15))).length_le
    have htake := List.length_take_le (maxRawFeedbackChars - 15) t
    have hmark : ("... [truncated]".toList).length = 15 := by decide
    have hmax : maxRawFeedbackChars = 4000 := rfl
    rw [List.length_append, hmark]
    omega

theorem boundedFeedback_length_le (u : Text.Unicode) (source : Text) (payload : Option Json) :
    (boundedFeedback u source payload).length ≤ maxRawFeedbackChars := by
  unfold boundedFeedback
  split
  · exact Nat.zero_le _
  split
  · exact Nat.zero_le _
  · exact boundFeedback_length_le _

/-- What the checks on a payload let through. -/
theorem auditOf_some {reader : AuditReader} {payload : Json} {rawFeedback : Text}
    {audit : ReviewAudit} (h : reader.auditOf payload rawFeedback = some audit) :
    (∃ grade ∈ validGrades, audit.grade = some grade)
      ∧ (∃ summary, audit.summary = sanitizeSummary reader.py.toUnicode summary)
      ∧ audit.rawFeedback = rawFeedback := by
  simp only [AuditReader.auditOf, Option.bind_eq_bind, Option.bind_eq_some_iff] at h
  obtain ⟨grade, -, h⟩ := h
  split at h
  · cases h
  · next hgrade =>
    simp only [Option.bind_eq_some_iff] at h
    obtain ⟨summary, -, comments, -, expansions, -, verdict, -, verdict', -, findings, -, h⟩ := h
    cases h
    exact ⟨⟨_, not_not.mp hgrade, rfl⟩, ⟨summary.toList, rfl⟩, rfl⟩

/-- A clean audit that was parsed fits its receipts. -/
theorem receivable_parseReviewAudit {reader : AuditReader} {response : AgentResponse}
    (h : isCleanGoReview (reader.parseReviewAudit response) = true) :
    Receivable (reader.parseReviewAudit response) := by
  cases hparsed : (responsePayload reader.floats reader.py response).2.bind fun payload =>
      reader.auditOf payload (boundedFeedback reader.py.toUnicode
        (responsePayload reader.floats reader.py response).1
        (responsePayload reader.floats reader.py response).2) with
  | none =>
      have hinvalid : reader.parseReviewAudit response = invalidAudit
          (boundedFeedback reader.py.toUnicode
            (responsePayload reader.floats reader.py response).1
            (responsePayload reader.floats reader.py response).2) := by
        simp only [AuditReader.parseReviewAudit, hparsed]
        rfl
      rw [hinvalid] at h
      cases h
  | some audit =>
      have haudit : reader.parseReviewAudit response = audit := by
        simp only [AuditReader.parseReviewAudit, hparsed]
        rfl
      obtain ⟨payload, -, hof⟩ := Option.bind_eq_some_iff.mp hparsed
      obtain ⟨hgrade, ⟨summary, hsummary⟩, hfeedback⟩ := auditOf_some hof
      rw [haudit] at h ⊢
      refine ⟨h, hgrade, ?_, ?_, ?_⟩
      · rw [hsummary]
        exact sanitizeSummary_ne_nil _ _
      · rw [hsummary]
        exact sanitizeSummary_length_le _ _
      · rw [hfeedback]
        exact boundedFeedback_length_le _ _ _

/-! ## How long a record gets -/

/-- The length of a character of a JSON string inside another. -/
def nestedSize (c : Char) : Nat :=
  if c = '"' ∨ c = '\\' then 4
  else if c = '\n' ∨ c = '\r' ∨ c = '\t' ∨ c.toNat = 8 ∨ c.toNat = 12 then 3
  else if JsonText.isPrintable c then 1
  else if c.toNat < 0x10000 then 7
  else 14

theorem escaped_append (a b : Text) : ((a ++ b).flatMap JsonText.escapeChar).length
    = (a.flatMap JsonText.escapeChar).length + (b.flatMap JsonText.escapeChar).length := by
  rw [List.flatMap_append, List.length_append]

/-- A text of visible characters other than quotes and backslashes is its own escape. -/
def Unescaped (t : Text) : Prop :=
  ∀ c ∈ t, JsonText.escapeChar c = [c]

theorem Unescaped.flatMap {t : Text} (h : Unescaped t) : t.flatMap JsonText.escapeChar = t := by
  induction t with
  | nil => rfl
  | cons c t ih =>
      rw [List.flatMap_cons, h c List.mem_cons_self,
        ih fun d hd => h d (List.mem_cons_of_mem c hd)]
      rfl

theorem escapeChar_of_printable {c : Char} (h : JsonText.isPrintable c = true) (hq : c ≠ '"')
    (hb : c ≠ '\\') : JsonText.escapeChar c = [c] := by
  have hshort : JsonText.shortEscape c = none := by
    simp only [JsonText.isPrintable, Bool.and_eq_true, decide_eq_true_eq] at h
    have hdiff : ∀ d : Char, d.toNat < 32 → c ≠ d := by
      rintro d hd rfl
      omega
    rw [JsonText.shortEscape, if_neg hq, if_neg hb, if_neg (hdiff _ (by decide)),
      if_neg (hdiff _ (by decide)), if_neg (hdiff _ (by decide)), if_neg (by omega),
      if_neg (by omega)]
  rw [JsonText.escapeChar, hshort]
  simp only [h, if_true]

theorem escapeChar_hexDigit (n : Nat) :
    JsonText.escapeChar (Text.hexDigit (n % 16)) = [Text.hexDigit (n % 16)] := by
  have h : n % 16 < 16 := Nat.mod_lt _ (by omega)
  generalize n % 16 = m at h
  revert m
  decide

theorem nested_unicodeEscape (n : Nat) :
    ((JsonText.unicodeEscape n).flatMap JsonText.escapeChar).length = 7 := by
  have hslash : JsonText.escapeChar '\\' = ['\\', '\\'] := rfl
  have hletter : JsonText.escapeChar 'u' = ['u'] := rfl
  simp only [JsonText.unicodeEscape, List.flatMap_cons, List.flatMap_nil, hslash, hletter,
    escapeChar_hexDigit, List.length_append, List.length_cons, List.length_nil]

theorem nested_escapeChar (c : Char) :
    ((JsonText.escapeChar c).flatMap JsonText.escapeChar).length = nestedSize c := by
  have hcode : ∀ n : Nat, c.toNat = n → c = Char.ofNat n := by
    rintro n rfl
    exact (Char.ofNat_toNat c).symm
  unfold nestedSize
  split
  · next h =>
    rcases h with rfl | rfl
    · rfl
    · rfl
  next hquote =>
  split
  · next h =>
    rcases h with rfl | rfl | rfl | h | h
    · rfl
    · rfl
    · rfl
    · rw [hcode 8 h]
      rfl
    · rw [hcode 12 h]
      rfl
  next hshort =>
  rw [not_or] at hquote
  simp only [not_or] at hshort
  have hnone : JsonText.shortEscape c = none := by
    rw [JsonText.shortEscape, if_neg hquote.1, if_neg hquote.2, if_neg hshort.1,
      if_neg hshort.2.1, if_neg hshort.2.2.1, if_neg hshort.2.2.2.1, if_neg hshort.2.2.2.2]
  split
  · next h =>
    have hself := escapeChar_of_printable h hquote.1 hquote.2
    rw [hself, List.flatMap_singleton, hself]
    rfl
  next hprintable =>
  rw [JsonText.escapeChar, hnone]
  simp only [if_neg hprintable]
  split
  · exact nested_unicodeEscape _
  · rw [List.flatMap_append, List.length_append, nested_unicodeEscape, nested_unicodeEscape]

/-- The length a text takes up inside the receipt of a record. -/
def nestedLength (t : Text) : Nat :=
  (t.map nestedSize).sum

theorem nested_escaped (t : Text) :
    ((t.flatMap JsonText.escapeChar).flatMap JsonText.escapeChar).length = nestedLength t := by
  induction t with
  | nil => rfl
  | cons c t ih =>
      rw [List.flatMap_cons, List.flatMap_append, List.length_append, nested_escapeChar, ih]
      rfl

theorem nested_dumpsStr (t : Text) :
    ((JsonText.dumpsStr t).flatMap JsonText.escapeChar).length = nestedLength t + 4 := by
  have hquote : JsonText.escapeChar '"' = ['\\', '"'] := rfl
  simp only [JsonText.dumpsStr, List.flatMap_cons, List.flatMap_append, List.flatMap_nil, hquote,
    List.length_append, nested_escaped, List.length_cons, List.length_nil]
  omega

theorem nestedLength_of_unescaped {t : Text} (h : Unescaped t) : nestedLength t = t.length := by
  rw [← nested_escaped, h.flatMap, h.flatMap]

theorem length_dumpsStr_of_unescaped {t : Text} (h : Unescaped t) :
    (JsonText.dumpsStr t).length = t.length + 2 := by
  rw [JsonText.length_dumpsStr, h.flatMap]

theorem unescaped_of_isAlphanum {c : Char} (h : c.isAlphanum = true) :
    JsonText.escapeChar c = [c] := by
  have hrange := alphanum_range h
  refine escapeChar_of_printable (printable_of_isAlphanum h) ?_ ?_
  · rintro rfl
    exact absurd hrange (by decide)
  · rintro rfl
    cases h

theorem unescaped_fullSha {t : Text} (h : isFullSha t = true) : Unescaped t := by
  intro c hc
  have hhex := isLowerHex_of_fullSha h c hc
  refine escapeChar_of_printable (printable_of_isLowerHex hhex) ?_ ?_
  · rintro rfl
    cases hhex
  · rintro rfl
    cases hhex

theorem unescaped_decimalInt {n : Int} (h : 0 < n) : Unescaped (JsonText.decimalInt n) := by
  intro c hc
  rw [decimalInt_of_pos h] at hc
  exact unescaped_of_isAlphanum (isAlphanum_of_isDigit (JsonText.isDigit_of_mem_toDigits hc))

theorem Unescaped.append {a b : Text} (ha : Unescaped a) (hb : Unescaped b) :
    Unescaped (a ++ b) := by
  intro c hc
  rcases List.mem_append.mp hc with hc | hc
  · exact ha c hc
  · exact hb c hc

theorem unescaped_repository {t : Text} (h : isRepositoryName t = true) : Unescaped t := by
  have hchar : ∀ c, isRepositoryChar c = true → JsonText.escapeChar c = [c] := by
    intro c hc
    simp only [isRepositoryChar, Bool.or_eq_true, beq_iff_eq] at hc
    rcases hc with ((hc | rfl) | rfl) | rfl
    · exact unescaped_of_isAlphanum hc
    · rfl
    · rfl
    · rfl
  have hsplit : t = t.takeWhile isRepositoryChar
      ++ t.drop (t.takeWhile isRepositoryChar).length :=
    (List.prefix_iff_eq_append.mp (List.takeWhile_prefix isRepositoryChar)).symm
  rw [isRepositoryName] at h
  split at h
  · next name hname =>
    simp only [Bool.and_eq_true] at h
    rw [hsplit, hname]
    refine Unescaped.append (fun c hc => hchar c (List.mem_takeWhile_imp hc)) ?_
    intro c hc
    rcases List.mem_cons.mp hc with rfl | hc
    · rfl
    · exact hchar c (List.all_eq_true.mp h.2 c hc)
  · cases h

theorem rebaseKeys_length :
    (("superseded_by_head_sha" :: rebaseFieldNames).map fun name =>
        (JsonText.dumpsStr name.toList).length)
      = [24, 12, 14, 11, 19, 19, 17, 17, 20, 20, 19, 7, 7] := by
  decide

theorem pendingKeys_length :
    (["format", "grade", "head_sha", "pr_number", "raw_feedback", "summary", "verdict"].map
        fun name => ((JsonText.dumpsStr name.toList).flatMap JsonText.escapeChar).length)
      = [10, 9, 12, 13, 16, 11, 11] := by
  decide

theorem unescaped_marker {literal : Text} {prNumber : Int} {head : Text}
    (hliteral : Unescaped literal) (hpr : 0 < prNumber) (hhead : isFullSha head = true) :
    Unescaped (literal ++ JsonText.decimalInt prNumber ++ ":head=".toList ++ head
      ++ " -->".toList) :=
  (((hliteral.append (unescaped_decimalInt hpr)).append
    (Text.forall_mem_of_all (by decide))).append (unescaped_fullSha hhead)).append
    (Text.forall_mem_of_all (by decide))

theorem unescaped_pendingLiteral : Unescaped pendingLiteral :=
  Text.forall_mem_of_all (by decide)

/-- The length of the receipt inside a record. -/
theorem escaped_pendingBody (floats : JsonText.FloatText) {prNumber : Int} {head grade : Text}
    {audit : ReviewAudit} (hpr : 0 < prNumber) (hhead : isFullSha head = true)
    (hverdict : audit.verdict = some .go) (hgrade : grade ∈ validGrades) :
    ((pendingBody floats prNumber head grade audit).flatMap JsonText.escapeChar).length
      = 2 * (JsonText.decimalInt prNumber).length + 2 * head.length
        + nestedLength audit.rawFeedback + nestedLength audit.summary + 193 := by
  have hkeys := pendingKeys_length
  simp only [List.map_cons, List.map_nil, List.cons.injEq, and_true] at hkeys
  obtain ⟨hformat, hgradeKey, hheadKey, hnumber, hfeedback, hsummary, hverdictKey⟩ := hkeys
  have hmarker := unescaped_marker unescaped_pendingLiteral hpr hhead
  have hliteral : pendingLiteral.length = 51 := by decide
  have hname : (":head=".toList).length = 6 := by decide
  have hend : (" -->".toList).length = 4 := by decide
  have hopen : (("\n<!-- ".toList).flatMap JsonText.escapeChar).length = 7 := by decide
  have hclose : ((" -->".toList).flatMap JsonText.escapeChar).length = 4 := by decide
  have hgradeLength : nestedLength grade = 1 := by
    simp only [validGrades, List.mem_cons, List.not_mem_nil, or_false] at hgrade
    rcases hgrade with rfl | rfl | rfl | rfl | rfl | rfl
    all_goals decide
  have hgo : ((JsonText.dumpsStr "GO".toList).flatMap JsonText.escapeChar).length = 6 := by
    decide
  have hcomma : JsonText.escapeChar ',' = [','] := rfl
  have hcolon : JsonText.escapeChar ':' = [':'] := rfl
  have hleft : JsonText.escapeChar '\x7b' = ['\x7b'] := rfl
  have hright : JsonText.escapeChar '\x7d' = ['\x7d'] := rfl
  have htwo : JsonText.decimalInt 2 = ['2'] := rfl
  have hdigit : JsonText.escapeChar '2' = ['2'] := rfl
  rw [pendingBody, pendingMarker, JsonText.dumps, sorted_pendingPayload _ _ _ hverdict,
    storedPayload]
  simp only [escaped_append, hmarker.flatMap, hname, hend, hliteral, hopen, hclose,
    JsonText.render, JsonText.renderFields, jsonText, List.flatMap_cons, List.flatMap_nil,
    List.length_append, List.length_cons, List.length_nil, hcomma, hcolon, hleft, hright, hformat,
    hgradeKey, hheadKey, hnumber, hfeedback, hsummary, hverdictKey, String.toList_ofList,
    nested_dumpsStr, nestedLength_of_unescaped (unescaped_fullSha hhead), hgradeLength, hgo,
    (unescaped_decimalInt hpr).flatMap, htwo, hdigit]
  omega

/-- What `superseded_by_head_sha` takes up. -/
def RebaseState.claimLength {head : FullSha} : RebaseState head → Nat
  | .active | .revoked => 0
  | .superseded byHeadSha _ => byHeadSha.1.length + 28

/-- The length of a record without the texts of its audit. -/
def RebaseReviewRecord.fixedLength (record : RebaseReviewRecord) : Nat :=
  514 + 5 * (JsonText.decimalInt record.prNumber).length
    + (JsonText.decimalInt record.issueNumber).length + record.repository.1.length
    + 4 * record.reviewedHeadSha.1.length + record.reviewedBaseSha.1.length
    + record.sourceHeadSha.1.length + record.targetBaseSha.1.length
    + record.resultingHeadSha.1.length + record.resultingTreeSha.1.length
    + record.state.text.toList.length + record.state.claimLength

theorem unescaped_state {head : FullSha} (state : RebaseState head) :
    Unescaped state.text.toList := by
  cases state with
  | active => exact Text.forall_mem_of_all (l := "active".toList) (by decide)
  | revoked => exact Text.forall_mem_of_all (l := "revoked".toList) (by decide)
  | superseded byHeadSha other =>
      exact Text.forall_mem_of_all (l := "superseded".toList) (by decide)

/-- The literal of a published audit's marker. -/
theorem unescaped_goLiteral : Unescaped "<!-- hephaestus-implementation-go-audit:pr=".toList :=
  Text.forall_mem_of_all (by decide)

theorem length_originalAuditId (record : RebaseReviewRecord) :
    (JsonText.dumpsStr record.originalAuditId).length
      = (JsonText.decimalInt record.prNumber).length + record.reviewedHeadSha.1.length + 55 := by
  have hescaped := length_dumpsStr_of_unescaped
    (unescaped_marker unescaped_goLiteral record.prNumber.2 record.reviewedHeadSha.2)
  have hliteral : ("<!-- hephaestus-implementation-go-audit:pr=".toList).length = 43 := by
    decide
  have hname : (":head=".toList).length = 6 := by decide
  have hend : (" -->".toList).length = 4 := by decide
  simp only [List.length_append, hliteral, hname, hend] at hescaped
  refine hescaped.trans ?_
  omega

theorem length_rebaseMarker (prNumber : Int) :
    (rebaseMarker prNumber).length = (JsonText.decimalInt prNumber).length + 40 := by
  have hliteral : rebaseReviewLiteral.length = 30 := by decide
  have hname : ("v1:pr=".toList).length = 6 := by decide
  have hend : (" -->".toList).length = 4 := by decide
  simp only [rebaseMarker, List.length_append, hliteral, hname, hend]
  omega

theorem length_auditBody (floats : JsonText.FloatText) (record : RebaseReviewRecord)
    (h : Receivable record.audit) : (JsonText.dumpsStr (record.auditBody floats)).length
      = 2 * (JsonText.decimalInt record.prNumber).length + 2 * record.reviewedHeadSha.1.length
        + nestedLength record.audit.1.rawFeedback + nestedLength record.audit.1.summary + 195 := by
  obtain ⟨-, hverdict, -, -⟩ := cleanGo_fields h.clean
  obtain ⟨grade, hmember, hgrade⟩ := h.grade
  have hreceipt := escaped_pendingBody floats record.prNumber.2 record.reviewedHeadSha.2
    hverdict hmember
  have haudit : record.auditBody floats = pendingBody floats record.prNumber
      record.reviewedHeadSha grade record.audit := by
    rw [RebaseReviewRecord.auditBody, hgrade]
    rfl
  rw [JsonText.length_dumpsStr, haudit, hreceipt]

/-- The length of a record's body. -/
theorem length_body (floats : JsonText.FloatText) (record : RebaseReviewRecord)
    (h : Receivable record.audit) :
    (record.body floats).length = record.fixedLength
      + nestedLength record.audit.1.summary + nestedLength record.audit.1.rawFeedback := by
  have hkeys := rebaseKeys_length
  simp only [rebaseFieldNames, List.map_cons, List.map_nil, List.cons.injEq, and_true] at hkeys
  obtain ⟨hclaim, hrepository, hissue, hnumber, hhead, hbase, hsource, htarget, hresult, htree,
    horiginal, hstate, hauditKey⟩ := hkeys
  have hsha := fun t : FullSha => length_dumpsStr_of_unescaped (unescaped_fullSha t.2)
  have hrepositoryText := length_dumpsStr_of_unescaped (unescaped_repository record.repository.2)
  have hstateText := length_dumpsStr_of_unescaped (unescaped_state record.state)
  have hidentity := length_originalAuditId record
  have hauditText := length_auditBody floats record h
  rw [RebaseReviewRecord.body, List.length_append, List.length_cons, length_rebaseMarker,
    RebaseReviewRecord.fixedLength, RebaseReviewRecord.stored]
  cases hcase : record.state with
  | active =>
      rw [hcase] at hstateText
      simp only [List.cons_append, List.nil_append, JsonText.render, JsonText.renderFields,
        jsonText, List.length_cons, List.length_append, List.length_nil, String.toList_ofList,
        hrepository, hissue, hnumber, hhead, hbase, hsource, htarget, hresult, htree, horiginal,
        hstate, hauditKey, hsha, hrepositoryText, hstateText, hidentity, hauditText,
        RebaseState.claimLength]
      omega
  | revoked =>
      rw [hcase] at hstateText
      simp only [List.cons_append, List.nil_append, JsonText.render, JsonText.renderFields,
        jsonText, List.length_cons, List.length_append, List.length_nil, String.toList_ofList,
        hrepository, hissue, hnumber, hhead, hbase, hsource, htarget, hresult, htree, horiginal,
        hstate, hauditKey, hsha, hrepositoryText, hstateText, hidentity, hauditText,
        RebaseState.claimLength]
      omega
  | superseded byHeadSha other =>
      rw [hcase] at hstateText
      simp only [List.cons_append, List.nil_append, JsonText.render, JsonText.renderFields,
        jsonText, List.length_cons, List.length_append, List.length_nil, String.toList_ofList,
        hrepository, hissue, hnumber, hhead, hbase, hsource, htarget, hresult, htree, horiginal,
        hstate, hauditKey, hclaim, hsha, hrepositoryText, hstateText, hidentity, hauditText,
        RebaseState.claimLength]
      omega

/-! ## The round trip -/

/-- The record comes back from the body it is rendered as. -/
def RebaseReviewRecord.ReadsBack (floats : JsonText.FloatText) (digits : DigitTable)
    (record : RebaseReviewRecord) : Prop :=
  ∃ marker body, renderReviewRebaseRecord floats digits record = .ok (marker, body)
    ∧ parseReviewRebaseRecord floats digits body = .ok (some record)

/-- A record comes back exactly when the reader's bound leaves room for it. -/
theorem readsBack_iff_room (floats : JsonText.FloatText) (digits : DigitTable)
    {record : RebaseReviewRecord} (h : Receivable record.audit) :
    record.ReadsBack floats digits ↔
      record.fixedLength + nestedLength record.audit.1.summary
        + nestedLength record.audit.1.rawFeedback ≤ maxRebaseRecordChars := by
  have hparse := parseRebase_body floats digits record h
  rw [length_body floats record h] at hparse
  constructor
  · rintro ⟨marker, body, hrender, hread⟩
    rw [renderRebase_eq floats digits record] at hrender
    cases hrender
    rw [hparse] at hread
    by_contra hlong
    rw [if_neg hlong] at hread
    cases hread
  · intro hroom
    refine ⟨_, _, renderRebase_eq floats digits record, ?_⟩
    rw [hparse, if_pos hroom]

theorem receivable_record {reader : AuditReader} {response : AgentResponse}
    (record : RebaseReviewRecord) (h : reader.parseReviewAudit response = record.audit) :
    Receivable record.audit := by
  have hclean := record.audit.2.1
  rw [← h] at hclean ⊢
  exact receivable_parseReviewAudit hclean

/-! ## Prose that has no room -/

/-- `float` and `repr` where no float occurs. -/
def noFloats : JsonText.FloatText where
  repr _ := []
  parse _ := .nan

/-- A reader for responses without scope expansions, over ASCII tables. -/
def asciiReader : AuditReader where
  floats := noFloats
  py := ⟨Text.asciiTables, fun _ => []⟩
  normalizeScopeExpansions
    | none | some .null | some (.arr []) => some []
    | some _ => none

/-- The ASCII digits. -/
def asciiDigits : DigitTable where
  value c := if c.isDigit then some (c.toNat - 48) else none
  value_ascii _ _ := rfl

/-- The object of a clean review. -/
def cleanPayload : Json :=
  .obj [("comments", .arr []), ("grade", .str "A"), ("summary", .str "ok"), ("verdict", .str "GO")]

/-- Prose of accented letters, then the object in a fence. -/
def accentedResponse (n : Nat) : Text :=
  List.replicate n 'é' ++ ("\n```json\n".toList ++ JsonText.render noFloats cleanPayload
    ++ "\n```".toList)

theorem matchBlock_accent (u : Text.Unicode) (before : Option Char) (t : Text) :
    matchBlock u before ('é' :: t) = none := by
  have hword : Regex.ends u (.word "```json".toList) before ('é' :: t) = [] := rfl
  have hstar : Regex.ends u (.star isMargin) before ('é' :: t) = [(before, 'é' :: t)] := rfl
  have hends : Regex.ends u blockOpening before ('é' :: t) = [] := by
    rw [List.eq_nil_iff_forall_not_mem]
    intro e he
    obtain ⟨start, hstart, he⟩ := Regex.mem_ends_seq.mp he
    have hstart : start = (before, 'é' :: t) := by
      simp only [Regex.ends] at hstart
      split at hstart
      · exact List.mem_singleton.mp hstart
      · cases hstart
    obtain ⟨margin, hmargin, he⟩ := Regex.mem_ends_seq.mp he
    rw [hstart, hstar, List.mem_singleton] at hmargin
    obtain ⟨letter, hletter, -⟩ := Regex.mem_ends_seq.mp he
    rw [hmargin, hword] at hletter
    cases hletter
  rw [matchBlock, hends]
  rfl

/-- Accents in front of a block are in front of what the search finds. -/
theorem searchBlock_accents (u : Text.Unicode) (t : Text) (n : Nat) {block : JsonBlock}
    (h : searchBlock u (some 'é') t = some block) (before : Option Char) :
    searchBlock u before (List.replicate (n + 1) 'é' ++ t)
      = some { block with before := List.replicate (n + 1) 'é' ++ block.before } := by
  induction n generalizing before with
  | zero =>
      rw [List.replicate_one, List.singleton_append, searchBlock, matchBlock_accent]
      simp only [h]
      rfl
  | succ n ih =>
      rw [List.replicate_succ, List.cons_append, searchBlock, matchBlock_accent]
      simp only [ih]
      rfl

theorem claim_not_accents (u : Text.Unicode) (n : Nat) :
    Regex.search u reservedAuthorityClaim (List.replicate n 'é') = false := by
  have hends : ∀ (before : Option Char) (k : Nat),
      Regex.ends u reservedAuthorityClaim before (List.replicate k 'é') = [] := by
    intro before k
    rw [List.eq_nil_iff_forall_not_mem]
    intro e he
    obtain ⟨x, y, rest, htext, hstarts⟩ := claim_starts he
    have hx : x = 'é' := List.eq_of_mem_replicate (htext ▸ List.mem_cons_self)
    have hy : y = 'é' :=
      List.eq_of_mem_replicate (htext ▸ List.mem_cons_of_mem x List.mem_cons_self)
    rw [hx, hy] at hstarts
    exact absurd hstarts (by decide)
  have hfrom : ∀ (k : Nat) (before : Option Char),
      Regex.searchFrom u reservedAuthorityClaim before (List.replicate k 'é') = false := by
    intro k
    induction k with
    | zero =>
        intro before
        have hnil := hends before 0
        rw [List.replicate_zero] at hnil ⊢
        rw [Regex.searchFrom, hnil]
        rfl
    | succ k ih =>
        intro before
        have hnil := hends before (k + 1)
        rw [List.replicate_succ] at hnil ⊢
        rw [Regex.searchFrom, hnil, ih]
        rfl
  exact hfrom n none

theorem strip_accents (n : Nat) :
    Text.strip (List.replicate (n + 1) 'é') = List.replicate (n + 1) 'é' := by
  have hleft : Text.lstrip (List.replicate (n + 1) 'é') = List.replicate (n + 1) 'é' := by
    rw [List.replicate_succ, Text.lstrip_cons (by decide)]
  have hright : Text.rstrip (List.replicate (n + 1) 'é') = List.replicate (n + 1) 'é' := by
    rw [List.replicate_succ', Text.rstrip, List.rdropWhile_concat_neg _ _ _ (by decide)]
  rw [Text.strip, hleft, hright]

theorem strip_accents_newline (n : Nat) :
    Text.strip (List.replicate (n + 1) 'é' ++ ['\n']) = List.replicate (n + 1) 'é' := by
  have hstrip := strip_accents n
  have hleft : Text.lstrip (List.replicate (n + 1) 'é' ++ ['\n'])
      = List.replicate (n + 1) 'é' ++ ['\n'] := by
    rw [List.replicate_succ, List.cons_append, Text.lstrip_cons (by decide)]
  have hcut : Text.rstrip (List.replicate (n + 1) 'é' ++ ['\n'])
      = Text.rstrip (List.replicate (n + 1) 'é') := by
    rw [Text.rstrip, List.rdropWhile_concat_pos _ _ _ (by decide)]
    rfl
  have hkept : Text.rstrip (List.replicate (n + 1) 'é') = List.replicate (n + 1) 'é' := by
    rw [← hstrip, Text.rstrip_strip]
  rw [Text.strip, hleft, hcut, hkept]

theorem searchBlock_accentedResponse (n : Nat) :
    searchBlock Text.asciiTables none (accentedResponse (n + 1))
      = some ⟨List.replicate (n + 1) 'é' ++ ['\n'], JsonText.render noFloats cleanPayload,
          some (Char.ofNat 96), []⟩ := by
  have hblock : searchBlock Text.asciiTables (some 'é') ("\n```json\n".toList
      ++ JsonText.render noFloats cleanPayload ++ "\n```".toList)
        = some ⟨['\n'], JsonText.render noFloats cleanPayload, some (Char.ofNat 96), []⟩ := by
    decide
  exact searchBlock_accents Text.asciiTables _ n hblock none

/-- What is left of the accented response. -/
def accentedAudit (n : Nat) : ReviewAudit where
  grade := some "A".toList
  summary := "ok".toList
  findings := []
  rawFeedback := List.replicate n 'é'
  valid := true
  verdict := some .go
  scopeExpansions := []

theorem not_isObjectText_accentedResponse (n : Nat) :
    isObjectText (accentedResponse (n + 1)) = false := by
  have hhead : ∃ t, accentedResponse (n + 1) = 'é' :: t := ⟨_, rfl⟩
  obtain ⟨t, ht⟩ := hhead
  have hstart : Text.startsWith (Text.strip (accentedResponse (n + 1))) ['\x7b'] = false := by
    rw [ht, Text.strip, Text.lstrip_cons (by decide)]
    by_contra hstart
    rw [Bool.not_eq_false] at hstart
    obtain ⟨rest, hrest⟩ := Text.startsWith_iff.mp hstart
    obtain ⟨more, hmore⟩ := Text.rstrip_initial ('é' :: t)
    rw [hrest] at hmore
    exact absurd (List.cons.inj hmore).1 (by decide)
  rw [isObjectText, hstart, Bool.false_and]

/-- The feedback is only carried along. -/
theorem auditOf_feedback (reader : AuditReader) (payload : Json) (rawFeedback : Text) :
    reader.auditOf payload rawFeedback
      = (reader.auditOf payload []).map fun audit => { audit with rawFeedback := rawFeedback } := by
  simp only [AuditReader.auditOf, Option.bind_eq_bind, Option.map_bind, Function.comp_def]
  congr 1
  funext grade
  split
  · rfl
  · simp only [Option.map_bind, Function.comp_def, Option.map_some]
/-- The accented prose is kept whole as feedback. -/
theorem parse_accentedResponse {n : Nat} (h : n + 1 ≤ maxRawFeedbackChars) :
    asciiReader.parseReviewAudit (.text (accentedResponse (n + 1))) = accentedAudit (n + 1) := by
  have hsearch := searchBlock_accentedResponse n
  have hagain : searchBlock Text.asciiTables (some (Char.ofNat 96)) [] = none := by decide
  have hstrip : Text.strip (JsonText.render noFloats cleanPayload)
      = JsonText.render noFloats cleanPayload := by decide
  have hplain : JsonText.Plain cleanPayload := by
    simp [cleanPayload, JsonText.Plain, JsonText.PlainFields, JsonText.PlainItems]
  have hloads := JsonText.loads_render noFloats
    (fun _ => JsonText.nodup_keepLast) hplain
  have hpayload : textPayload noFloats Text.asciiTables (accentedResponse (n + 1))
      = (accentedResponse (n + 1), some cleanPayload) := by
    rw [textPayload, hsearch]
    simp only [hagain, Option.isSome_none, Bool.false_eq_true, if_false, loadsObject, hstrip,
      hloads]
    rfl
  have hne : accentedResponse (n + 1) ≠ [] := List.cons_ne_nil _ _
  have hprose : surroundingProse Text.asciiTables (accentedResponse (n + 1)) true
      = List.replicate (n + 1) 'é' := by
    rw [surroundingProse, if_pos rfl, hsearch]
    simp only [strip_accents_newline]
    have hempty : Text.strip [] = [] := rfl
    simp [hempty, List.replicate_succ, List.intercalate]
  have hfeedback : boundedFeedback Text.asciiTables (accentedResponse (n + 1)) (some cleanPayload)
      = List.replicate (n + 1) 'é' := by
    rw [boundedFeedback, not_isObjectText_accentedResponse]
    simp only [hne, Bool.false_eq_true, or_self, and_false, if_false, Option.isSome_some, hprose,
      Regex.delete_of_not_search (claim_not_accents Text.asciiTables (n + 1)), strip_accents,
      boundFeedback, List.length_replicate, if_pos h]
  have haudit : asciiReader.auditOf cleanPayload (List.replicate (n + 1) 'é')
      = some (accentedAudit (n + 1)) := by
    have hbare : asciiReader.auditOf cleanPayload [] = some (accentedAudit 0) := by decide
    rw [auditOf_feedback, hbare]
    rfl
  simp only [AuditReader.parseReviewAudit, responsePayload]
  have hfloats : asciiReader.floats = noFloats := rfl
  have htables : asciiReader.py.toUnicode = Text.asciiTables := rfl
  rw [hfloats, htables, hpayload]
  simp only [hfeedback, Option.bind_some, haudit, Option.getD_some]

/-- A commit of one digit. -/
def sameDigits : FullSha := ⟨List.replicate 40 '0', by decide⟩

/-- A record of an accented audit. -/
def accentedRecord (n : Nat) : RebaseReviewRecord where
  repository := ⟨"owner/repo".toList, by decide⟩
  issueNumber := ⟨1, by decide⟩
  prNumber := ⟨2, by decide⟩
  reviewedHeadSha := sameDigits
  reviewedBaseSha := sameDigits
  sourceHeadSha := sameDigits
  targetBaseSha := sameDigits
  resultingHeadSha := sameDigits
  resultingTreeSha := sameDigits
  audit := ⟨accentedAudit n, rfl, rfl⟩
  state := .active

theorem nestedLength_accents (n : Nat) : nestedLength (List.replicate n 'é') = 7 * n := by
  have hsize : nestedSize 'é' = 7 := by decide
  induction n with
  | zero => rfl
  | succ n ih =>
      rw [nestedLength] at ih ⊢
      rw [List.replicate_succ, List.map_cons, List.sum_cons, hsize, ih]
      omega

theorem accentedRecord_room (n : Nat) :
    (accentedRecord n).fixedLength + nestedLength (accentedRecord n).audit.1.summary
      + nestedLength (accentedRecord n).audit.1.rawFeedback = 898 + 7 * n := by
  have hfixed : (accentedRecord 0).fixedLength + nestedLength "ok".toList = 898 := by
    decide
  have hfeedback : nestedLength (accentedRecord n).audit.1.rawFeedback = 7 * n :=
    nestedLength_accents n
  rw [hfeedback]
  exact congrArg (· + 7 * n) hfixed

/-! ## When a record comes back -/

end Hephaestus.Automation
