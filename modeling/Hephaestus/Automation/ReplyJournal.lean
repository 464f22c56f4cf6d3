import Hephaestus.Automation.AuditReceipts
import Hephaestus.Automation.ReplyDelivery

/-!
# The journal of reply batches

`implementation_reply_handoff_journal_entry` and
`journaled_implementation_reply_handoff` of
`hephaestus/automation/pipeline/reply_handoff.py`. A batch is written to a comment
of its pull request before it is delivered: a marker with the number, the head and
the nonce, and a JSON document in an HTML comment. The document holds no threads.
It holds a digest of their ids and texts, and the batch comes back for threads of
the same digest.
-/

namespace Hephaestus.Automation.Delivery

open Hephaestus.Lib

/-- `IssueComment`, what the journal reads of it. -/
structure IssueComment where
  body : Text
  viewerDidAuthor : Bool

/-! ## The source conversation -/

/-- A non-blank text of `value.get("id")`. -/
def sourceId (value : Json) : Option String := do
  let id ← (value.field "id").asStr?
  guard (Text.strip id.toList ≠ [])
  return id

/-- The id and the body of a source comment. -/
def sourceComment (comment : Json) : Option (String × String) := do
  let id ← sourceId comment
  let body ← (comment.field "body").asStr?
  return (id, body)

/-- A thread with the ids and the bodies of its comments. -/
abbrev SourceThread := String × List (String × String)

/-- The id and the comments of a source thread. -/
def sourceThread (thread : Json) : Option SourceThread := do
  let id ← sourceId thread
  let comments ← (thread.field "comments").asArr?
  let source ← comments.mapM sourceComment
  guard (!comments.isEmpty && decide (source.map Prod.fst).Nodup)
  return (id, source)

/-- `source_threads` of `_thread_snapshot_fingerprint`, before they are sorted. -/
def sourceThreads (threads : Json) : Option (List SourceThread) := do
  let threads ← threads.asArr?
  let source ← threads.mapM sourceThread
  guard (source.map Prod.fst).Nodup
  return source

/-- The tuples of `source_threads` as `json.dumps` writes them. -/
def sourceJson (source : List SourceThread) : Json :=
  .arr (source.map fun thread => .arr [.str thread.1,
    .arr (thread.2.map fun comment => .arr [.str comment.1, .str comment.2])])

/-- What is hashed. The ids are distinct, so the tuples are sorted by them. -/
def sourceText (floats : JsonText.FloatText) (source : List SourceThread) : Text :=
  JsonText.dumps floats (sourceJson (JsonText.sortFields source))

/-- `_thread_snapshot_fingerprint`. -/
def threadSnapshotFingerprint (floats : JsonText.FloatText) (threads : Json) : Option Text :=
  (sourceThreads threads).map fun source => sha256Text (sourceText floats source)

/-! ## An entry -/

/-- The prefix of `_HANDOFF_JOURNAL_RE` up to the number. -/
def handoffLiteral : Text := "<!-- hephaestus-implementation-reply-handoff:pr=".toList

/-- The marker of an entry. -/
def handoffMarker (prNumber : Int) (headSha batchNonce : Text) : Text :=
  handoffLiteral ++ JsonText.decimalInt prNumber ++ ":head=".toList ++ headSha ++ ":batch=".toList
    ++ batchNonce ++ " -->".toList

/-- `_HANDOFF_JOURNAL_RE.fullmatch`: the number, the head and the nonce. -/
def matchHandoffMarker (digits : DigitTable) (marker : Text) : Option (Nat × Text × Text) := do
  let t ← afterLiteral handoffLiteral marker
  let number := t.takeWhile digits.isDigit
  guard (number ≠ [])
  let t ← afterLiteral ":head=".toList (t.drop number.length)
  let head := t.takeWhile Text.isLowerHex
  guard (isFullSha head)
  let t ← afterLiteral ":batch=".toList (t.drop head.length)
  let batch := t.takeWhile Text.isLowerHex
  guard (Text.isHexOfLength 32 batch && t.drop batch.length = " -->".toList)
  return (digits.int number, head, batch)

section Entry

variable (py : PyText) (floats : JsonText.FloatText)

/-- `normalized` of `implementation_reply_handoff_journal_entry`. -/
def normalizedHandoff (handoff : Json) : Option ReplyHandoff := do
  let progress ← progressOf handoff
  implementationReplyHandoff py (handoff.field "head_sha") (handoff.field "threads")
    (handoff.field "replies") (handoff.field "batch_nonce") progress
    (flag handoff "reconciliation_only")

/-- The JSON document of an entry. -/
def journalPayload (prNumber : Int) (snapshot : Text) (normalized : ReplyHandoff) : Json :=
  .obj ([("format", .int 2), ("armed", .bool true), ("pr_number", .int prNumber),
      ("head_sha", .str (String.ofList normalized.headSha)),
      ("batch_nonce", .str (String.ofList normalized.batchNonce)),
      ("thread_snapshot_sha256", .str (String.ofList snapshot)),
      ("replies", .obj (textsJson normalized.replies))]
    ++ match normalized.progress with
      | some progress => [("progress", progressJson progress)]
      | none => [])

/-- `implementation_reply_handoff_journal_entry`: the marker and the body. -/
def implementationReplyHandoffJournalEntry (prNumber handoff : Json) : Option (Text × Text) := do
  let n ← prNumber.asInt?
  guard (0 < n)
  let normalized ← normalizedHandoff py handoff
  let snapshot ← threadSnapshotFingerprint floats (.arr normalized.threads)
  let marker := handoffMarker n normalized.headSha normalized.batchNonce
  return (marker, marker ++ "\n<!-- ".toList
    ++ JsonText.dumps floats (journalPayload n snapshot normalized) ++ " -->".toList)

/-! ## Recovery -/

/-- `payload.removeprefix("<!-- ").removesuffix(" -->")` where `payload` starts and
ends so. In the shortest such text both share their blank, and the suffix stays. -/
def journalContent (payload : Text) : Option Text := do
  guard (Text.startsWith payload "<!-- ".toList
    && Text.startsWith payload.reverse " -->".toList.reverse)
  return (commentContent payload).getD (payload.drop "<!-- ".length)

/-- `_journal_handoff_from_comment`; the error is the text of its `ValueError`. -/
def journalHandoffFromComment (digits : DigitTable) (prNumber : Int) (threads : List Json)
    (comment : IssueComment) : Except String (Option ReplyHandoff) :=
  let (marker, payload) := partitionLine (Text.lstrip comment.body)
  match matchHandoffMarker digits marker with
  | none => .ok none
  | some (number, head, batch) =>
      if (number : Int) ≠ prNumber then .ok none
      else
        match payload.bind journalContent with
        | none => .error "implementation reply handoff journal is malformed"
        | some content =>
            match JsonText.loads floats JsonText.rejectDuplicates content with
            | none => .error "journal JSON is malformed or has duplicate members"
            | some raw =>
                if (raw.field "format").eq (.int 2) = false
                    ∨ (raw.field "pr_number").eq (.int prNumber) = false
                    ∨ flag raw "armed" = false then
                  .error "implementation reply handoff journal identity is invalid"
                else if (raw.field "thread_snapshot_sha256").eq
                    (optionalText (threadSnapshotFingerprint floats (.arr threads))) = false then
                  .ok none
                else
                  match progressOf raw with
                  | none => .error "implementation reply handoff progress is invalid"
                  | some progress =>
                      match implementationReplyHandoff py (raw.field "head_sha") (.arr threads)
                          (raw.field "replies") (raw.field "batch_nonce") progress true with
                      | none => .error "implementation reply handoff journal payload is invalid"
                      | some handoff =>
                          if handoff.headSha = head ∧ handoff.batchNonce = batch then
                            .ok (some handoff)
                          else .error "implementation reply handoff journal payload is invalid"

/-- The loop of `journaled_implementation_reply_handoff`. -/
def recoverHandoff (digits : DigitTable) (prNumber : Int) (threads : List Json) :
    Option ReplyHandoff → List IssueComment → Except String (Option ReplyHandoff)
  | recovered, [] => .ok recovered
  | recovered, comment :: comments =>
      if comment.viewerDidAuthor then do
        let handoff ← journalHandoffFromComment py floats digits prNumber threads comment
        recoverHandoff digits prNumber threads (handoff.or recovered) comments
      else recoverHandoff digits prNumber threads recovered comments

/-- `journaled_implementation_reply_handoff`. -/
def journaledImplementationReplyHandoff (digits : DigitTable) (comments : List IssueComment)
    (prNumber threads : Json) : Except String (Option ReplyHandoff) :=
  match prNumber.asInt?, threads.asArr? with
  | some n, some threads =>
      if 0 < n ∧ threads.all (·.asObj?.isSome) then
        recoverHandoff py floats digits n threads none comments
      else .ok none
  | _, _ => .ok none

end Entry

end Hephaestus.Automation.Delivery
