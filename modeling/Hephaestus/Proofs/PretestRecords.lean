import Hephaestus.Automation.PretestCandidate
import Hephaestus.Proofs.RemediationFields

/-!
# A stored candidate is the candidate

The text of a candidate holds its fields sorted and its receipt spelled out. What the
constructor checked of the candidate is what the reader needs to get it back: the
receipt is of the first schema and has no claim in it, the replies are sorted and
answer each thread once, and the text stays within the limit of the store. So the
record of a candidate is read as that candidate and as no other.
-/

namespace Hephaestus.Automation.Remediation

open Hephaestus.Lib Hephaestus.Lib.JsonText Hephaestus.Automation.Delivery

variable {py : PyCasts} {floats : FloatText}

/-! ## Receipts that are read at all -/

namespace SourceWorkspaceReceipt

variable {r : SourceWorkspaceReceipt}

theorem schemaVersion_field (r : SourceWorkspaceReceipt) :
    r.toDict.field "schema_version" = .int r.schemaVersion := rfl

theorem generation_field (r : SourceWorkspaceReceipt) :
    r.toDict.field "generation" = .int r.generation := rfl

/-- A receipt of the second schema names its claim. -/
theorem dirtyClaim_field (hschema : r.schemaVersion = 2) (hclaim : r.dirtyClaim = none) :
    r.toDict.field "dirty_claim" = .null := by
  rw [toDict, if_pos hschema, hclaim]
  rfl

theorem fromDict_null : DirtyDirectClaim.fromDict .null = none := rfl

/-- A receipt without a claim can be read only in the first schema. -/
theorem schema_of_fromDict {parsed : SourceWorkspaceReceipt}
    (h : fromDict py r.toDict = some parsed) (hclaim : r.dirtyClaim = none) :
    r.schemaVersion = 1 ∧ 1 ≤ r.generation := by
  have hiff : (r.toDict.field "schema_version").eq (.int 2) = true ↔ r.schemaVersion = 2 := by
    rw [schemaVersion_field]
    simp only [Json.eq, Json.number?, decide_eq_true_eq]
    rw [PyFloat.finite.injEq, Rat.intCast_inj]
  unfold fromDict at h
  simp only [Option.bind_eq_bind, Option.bind_eq_some_iff, Option.guard_eq_some'] at h
  obtain ⟨_, _, version, hversion, _, _, _, _, generation, hgeneration, _, _, h⟩ := h
  rw [schemaVersion_field, py.int_int] at hversion
  rw [generation_field, py.int_int] at hgeneration
  cases hversion
  cases hgeneration
  split at h
  · next hsecond =>
    -- the claim of the second schema is read as well, and there is none
    rw [dirtyClaim_field (hiff.mp hsecond) hclaim, fromDict_null] at h
    cases h
  · next hfirst =>
    rw [hiff] at hfirst
    simp only [Option.bind_some, Option.bind_eq_some_iff, Option.guard_eq_some'] at h
    obtain ⟨_, ⟨hversion, hgeneration⟩, _⟩ := h
    exact ⟨hversion.resolve_right hfirst, hgeneration⟩

end SourceWorkspaceReceipt

/-! ## What the constructor checked -/

namespace PretestFields

variable {c : PretestFields}

theorem bytes_of_postInit (h : c.postInit py floats = true) :
    utf8Length (c.canonicalText floats) ≤ storeMaxBytes := by
  rw [postInit, Bool.and_eq_true, decide_eq_true_eq] at h
  exact h.2

theorem content_of_postInit (h : c.postInit py floats = true) : c.validContent floats = true := by
  rw [postInit, Bool.and_eq_true, Bool.and_eq_true] at h
  exact h.1.2

theorem identity_of_postInit (h : c.postInit py floats = true) :
    c.validIdentity py floats = true := by
  rw [postInit, Bool.and_eq_true, Bool.and_eq_true] at h
  exact h.1.1

theorem source_of_postInit (h : c.postInit py floats = true) : c.validSource py floats = true := by
  have hidentity := identity_of_postInit h
  rw [validIdentity, Bool.and_eq_true] at hidentity
  exact hidentity.2

/-- The receipt of a candidate is of the first schema and has no claim. -/
theorem receipt_of_postInit (h : c.postInit py floats = true) :
    c.sourceReceipt.schemaVersion = 1 ∧ 1 ≤ c.sourceReceipt.generation
      ∧ c.sourceReceipt.dirtyClaim = none := by
  have hsource := source_of_postInit h
  simp only [validSource, Bool.and_eq_true, Option.any_eq_true, Option.isNone_iff_eq_none,
    and_assoc] at hsource
  obtain ⟨_, _, _, _, ⟨parsed, hparsed, _⟩, _, _, _, hclaim, _⟩ := hsource
  obtain ⟨hversion, hgeneration⟩ := SourceWorkspaceReceipt.schema_of_fromDict hparsed hclaim
  exact ⟨hversion, hgeneration, hclaim⟩

/-- The replies of a candidate are sorted, and each thread is answered once. -/
theorem replies_of_postInit (h : c.postInit py floats = true) :
    sortedPairs c.addressedReplies = c.addressedReplies
      ∧ (c.addressedReplies.map Prod.fst).Nodup := by
  have hcontent := content_of_postInit h
  simp only [validContent, isReplyResult, Bool.and_eq_true, beq_iff_eq, decide_eq_true_eq]
    at hcontent
  obtain ⟨⟨_, ⟨⟨_, hsorted⟩, hnodup⟩, _⟩, _⟩ := hcontent
  exact ⟨hsorted, hnodup⟩

/-! ## The text comes back -/

theorem plain_receipt {r : SourceWorkspaceReceipt} (h : r.schemaVersion = 1) :
    Plain r.toDict := by
  rw [SourceWorkspaceReceipt.toDict_first h]
  have hnodup : receiptKeys.Nodup := by decide
  refine ⟨hnodup, ?_⟩
  simp only [PlainFields, plain_jsonText, plain_int, plain_bool, plain_optionalText, plain_texts,
    and_self]

theorem plain_asDict (hschema : c.sourceReceipt.schemaVersion = 1)
    (hthreads : (c.addressedReplies.map Prod.fst).Nodup) : Plain c.asDict := by
  have hnodup : PretestCandidate.fieldNames.Nodup := by decide
  have hreplies := plain_textsJson hthreads
  have hsnapshot : Plain (.arr (c.contentSnapshot.map fun item =>
      .arr [jsonText item.1, jsonText item.2])) := plain_pairs _
  refine ⟨hnodup, ?_⟩
  simp only [PlainFields, plain_jsonText, plain_int, plain_receipt hschema, hreplies, hsnapshot,
    plain_optionalText, plain_texts, and_self]

/-- The envelope a candidate is written in. -/
def envelope (c : PretestFields) : Json := .arr [.int 1, .str "pretest-candidate", c.asDict]

theorem plain_envelope (hschema : c.sourceReceipt.schemaVersion = 1)
    (hthreads : (c.addressedReplies.map Prod.fst).Nodup) : Plain c.envelope :=
  ⟨trivial, trivial, plain_asDict hschema hthreads, trivial⟩

/-- How many bytes the record of a candidate has. -/
theorem utf8Length_canonicalText (hschema : c.sourceReceipt.schemaVersion = 1)
    (hthreads : (c.addressedReplies.map Prod.fst).Nodup) :
    utf8Length (c.canonicalText floats) = (render floats c.envelope).length :=
  utf8Length_dumps (plain_envelope hschema hthreads)

/-- How long the values of a candidate are, the receipt aside. -/
def valuesLength (c : PretestFields) : Nat :=
  ([c.phase.value, c.repository, c.repoRoot, c.worktreePath, c.branch, c.expectedRemoteSha,
      c.sourceReceiptSha256, c.sourceRepositoryIdentity, c.sourceOwnershipKey, c.candidateTreeSha,
      c.diff, c.diffSha256, c.threadSnapshotJson, c.batchNonce, c.successfulJobId,
      c.successfulResultSha256].map fun t => (dumpsStr t).length).sum
    + ([c.issueNumber, c.prNumber, c.sourceGeneration, c.candidateSequence].map fun n =>
      (decimalInt n).length).sum
    + textsLength c.addPaths + textsLength c.updatePaths + pairsLength c.contentSnapshot
    + repliesLength c.addressedReplies + optionalLength c.consumedHead

theorem length_envelope (floats : FloatText) (c : PretestFields) :
    (render floats c.envelope).length
      = 25 + (PretestCandidate.fieldNames.map fun key => (dumpsStr key.toList).length + 2).sum
        + c.valuesLength + (render floats c.sourceReceipt.toDict).length := by
  have hadd := length_render_texts floats c.addPaths
  have hupdate := length_render_texts floats c.updatePaths
  have hsnapshot : (render floats (.arr (c.contentSnapshot.map fun item =>
      .arr [jsonText item.1, jsonText item.2]))).length = pairsLength c.contentSnapshot :=
    length_render_pairs floats c.contentSnapshot
  have hreplies := length_render_replies floats c.addressedReplies
  have hhead := length_render_optionalText floats c.consumedHead
  have hformat : (decimalInt 1).length = 1 := by decide
  have hkind : (dumpsStr "pretest-candidate".toList).length = 19 := by decide
  rw [envelope, length_render_arr]
  simp only [List.map_cons, List.map_nil, itemLength, List.sum_cons, List.sum_nil, reduceCtorEq,
    if_false]
  rw [asDict, length_render_obj]
  simp only [List.map_cons, List.map_nil, fieldLength, List.sum_cons, List.sum_nil, hadd, hupdate,
    hsnapshot, hreplies, hhead, reduceCtorEq, if_false, valuesLength, PretestCandidate.fieldNames]
  simp only [render, jsonText, String.toList_ofList, hformat, hkind]
  omega

theorem field_sorted_asDict (c : PretestFields) (key : String) :
    (sorted c.asDict).field key = sorted (c.asDict.field key) := by
  have hnodup : PretestCandidate.fieldNames.Nodup := by decide
  refine field_sorted ?_ key
  exact hnodup

theorem textField_sorted (c : PretestFields) (key : String) (t : Text)
    (h : c.asDict.field key = jsonText t) :
    textField (sorted c.asDict) key = some t := by
  rw [textField, field_sorted_asDict, h]
  exact asStr?_jsonText t

theorem intField_sorted (c : PretestFields) (key : String) (n : Int)
    (h : c.asDict.field key = .int n) :
    ((sorted c.asDict).field key).asInt? = some n := by
  rw [field_sorted_asDict, h]
  rfl

theorem textsField_sorted (c : PretestFields) (key : String) (l : List Text)
    (h : c.asDict.field key = .arr (l.map jsonText)) :
    textList ((sorted c.asDict).field key) = some l := by
  rw [field_sorted_asDict, h, sorted_texts]
  exact textList_texts l

theorem optionalTextField_sorted (c : PretestFields) (key : String) (t : Option Text)
    (h : c.asDict.field key = optionalText t) :
    PretestCandidate.optionalTextField (sorted c.asDict) key = some t := by
  rw [PretestCandidate.optionalTextField, field_sorted_asDict, h, sorted_optionalText]
  cases t with
  | none => rfl
  | some t => simp [optionalText]

theorem read_phase (phase : PretestPhase) : PretestPhase.read phase.value = some phase := by
  cases phase with
  | ready => decide
  | invalidated => decide
  | consumed => decide

/-- What is written of a candidate is read as the candidate. -/
theorem fromDict_sorted (h : c.postInit py floats = true) :
    PretestCandidate.fromDict py floats (sorted c.asDict) = some ⟨c, h⟩ := by
  obtain ⟨hschema, hgeneration, hclaim⟩ := receipt_of_postInit h
  have hkeys : hasKeys PretestCandidate.fieldNames (sorted c.asDict) = true := hasKeys_sorted rfl
  have hreceipt : (sorted c.asDict).field "source_receipt" = sorted c.sourceReceipt.toDict :=
    field_sorted_asDict c _
  have hobject : (sorted c.sourceReceipt.toDict).asObj?.isSome = true := by
    rw [SourceWorkspaceReceipt.toDict_first hschema, sorted]
    rfl
  have hsnapshot : pairList ((sorted c.asDict).field "content_snapshot")
      = some c.contentSnapshot := by
    rw [field_sorted_asDict]
    exact (congrArg pairList (sorted_pairs _)).trans (pairList_pairs _)
  have hreplies : replyPairs ((sorted c.asDict).field "addressed_replies")
      = some c.addressedReplies := by
    rw [field_sorted_asDict]
    exact replyPairs_sorted (replies_of_postInit h).1
  have hmake : PretestCandidate.make py floats c = some ⟨c, h⟩ := by
    rw [PretestCandidate.make, dif_pos h]
  unfold PretestCandidate.fromDict
  simp only [hkeys, hreceipt, hobject, hsnapshot, hreplies, dumps_sorted,
    SourceWorkspaceReceipt.fromDict_sorted py hschema hgeneration hclaim,
    textField_sorted c "phase" c.phase.value rfl,
    textField_sorted c "repository" c.repository rfl,
    textField_sorted c "repo_root" c.repoRoot rfl,
    textField_sorted c "worktree_path" c.worktreePath rfl,
    textField_sorted c "branch" c.branch rfl,
    textField_sorted c "expected_remote_sha" c.expectedRemoteSha rfl,
    textField_sorted c "source_receipt_sha256" c.sourceReceiptSha256 rfl,
    textField_sorted c "source_repository_identity" c.sourceRepositoryIdentity rfl,
    textField_sorted c "source_ownership_key" c.sourceOwnershipKey rfl,
    textField_sorted c "candidate_tree_sha" c.candidateTreeSha rfl,
    textField_sorted c "diff" c.diff rfl,
    textField_sorted c "diff_sha256" c.diffSha256 rfl,
    textField_sorted c "thread_snapshot_json" c.threadSnapshotJson rfl,
    textField_sorted c "batch_nonce" c.batchNonce rfl,
    textField_sorted c "successful_job_id" c.successfulJobId rfl,
    textField_sorted c "successful_result_sha256" c.successfulResultSha256 rfl,
    intField_sorted c "issue_number" c.issueNumber rfl,
    intField_sorted c "pr_number" c.prNumber rfl,
    intField_sorted c "source_generation" c.sourceGeneration rfl,
    intField_sorted c "candidate_sequence" c.candidateSequence rfl,
    textsField_sorted c "add_paths" c.addPaths rfl,
    textsField_sorted c "update_paths" c.updatePaths rfl,
    optionalTextField_sorted c "consumed_head" c.consumedHead rfl]
  simp only [guard_true, read_phase, Option.bind_eq_bind, Option.pure_def, Option.bind_some]
  exact hmake

/-- The record of a candidate is read as the candidate. -/
theorem parsePretest_canonicalText (h : c.postInit py floats = true) :
    parsePretest py floats (c.canonicalText floats) = some ⟨c, h⟩ := by
  have hplain : Plain c.envelope :=
    plain_envelope (receipt_of_postInit h).1 (replies_of_postInit h).2
  have hloads : loads floats keepLast (c.canonicalText floats)
      = some (.arr [.int 1, .str "pretest-candidate", sorted c.asDict]) :=
    loads_dumps floats (fun _ => nodup_keepLast) hplain
  have henvelope : pretestEnvelope (.arr [.int 1, .str "pretest-candidate", sorted c.asDict])
      = some (sorted c.asDict) := by
    simp [pretestEnvelope, Json.eq]
  unfold parsePretest
  simp only [hloads, henvelope, fromDict_sorted h, bytes_of_postInit h, guard_true,
    Option.bind_eq_bind, Option.pure_def, Option.bind_some]

end PretestFields

/-- The same of a candidate. -/
theorem parsePretest_record (c : PretestCandidate py floats) :
    parsePretest py floats (c.val.canonicalText floats) = some c := by
  obtain ⟨fields, h⟩ := c
  exact PretestFields.parsePretest_canonicalText h

/-- Nothing but the record of a candidate is read as the candidate. -/
theorem canonicalText_of_parsePretest {data : Text} {c : PretestCandidate py floats}
    (h : parsePretest py floats data = some c) : c.val.canonicalText floats = data := by
  unfold parsePretest at h
  simp only [Option.bind_eq_bind, Option.bind_eq_some_iff, Option.guard_eq_some',
    Option.pure_def, Option.some.injEq] at h
  obtain ⟨_, _, _, _, _, _, candidate, _, _, hdata, rfl⟩ := h
  exact hdata

end Hephaestus.Automation.Remediation
