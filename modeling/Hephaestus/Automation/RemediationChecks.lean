import Mathlib.Algebra.Ring.Nat
import Hephaestus.Lib.PosixPath
import Hephaestus.Automation.ReplyDelivery
import Hephaestus.Automation.ReviewFindings

/-!
# The checks of remediation records

What the constructors of `remediation_recovery.py` and
`remediation_prepublication.py` ask of the fields they share: commit names and
digests, repositories, branches, paths, the content snapshot and the thread
snapshot. A check that raises is `false` here. Where two constructors ask for
different things, each has its own check in its own module.
-/

namespace Hephaestus.Automation.Remediation

open Hephaestus.Lib Hephaestus.Automation.Delivery

/-! ## Limits -/

/-- `_STORE_MAX_BYTES`. -/
def storeMaxBytes : Nat := 1024 * 1024

/-- `DIRTY_SNAPSHOT_CHANGED_FILE_MAX`. -/
def dirtySnapshotChangedFileMax : Nat := 512

/-- `IMPLEMENTATION_INSPECTION_STATUS_MAX_BYTES`. -/
def implementationInspectionStatusMaxBytes : Nat := 64 * 1024

/-- `IMPLEMENTATION_INSPECTION_DIFF_MAX_BYTES`. -/
def implementationInspectionDiffMaxBytes : Nat := 256 * 1024

/-- `len(t.encode("utf-8"))`. -/
def utf8Length (t : Text) : Nat := (Sha256.encodeUtf8 t).length

/-! ## Names -/

/-- `_SHA256_RE.fullmatch(t)`. -/
def isSha256 (t : Text) : Bool := Text.isHexOfLength 64 t

/-- `_BATCH_RE.fullmatch(t)`. -/
def isBatch (t : Text) : Bool := Text.isHexOfLength 32 t

/-- `[a-z0-9_.-]`. -/
def isRepositoryChar (c : Char) : Bool :=
  (97 ≤ c.toNat && c.toNat ≤ 122) || (48 ≤ c.toNat && c.toNat ≤ 57)
    || c == '_' || c == '.' || c == '-'

/-- `re.fullmatch(r"[a-z0-9_.-]+/[a-z0-9_.-]+", t)`. -/
def isRepository (t : Text) : Bool :=
  match t.splitOn '/' with
  | [owner, name] =>
      !owner.isEmpty && owner.all isRepositoryChar && !name.isEmpty && name.all isRepositoryChar
  | _ => false

/-- No `..`, no `/` or `-` in front, and no control character. -/
def isBranchShaped (t : Text) : Bool :=
  !Text.contains "..".toList t && !Text.startsWith t ['/'] && !Text.startsWith t ['-']
    && t.all fun c => 32 ≤ c.toNat

/-! ## Paths -/

/-- `_absolute_canonical_path`. -/
def isAbsoluteCanonical (t : Text) : Bool :=
  !t.isEmpty && !List.contains t '\x00' && (PosixPath.parse t).isAbsolute
    && PosixPath.normpath t == t

/-- `Path(root) in Path(path).parents`. -/
def isInside (root path : Text) : Bool := (PosixPath.parse root).isParentOf (PosixPath.parse path)

/-- A path of a changed file. -/
def isSafePath (path : Text) : Bool :=
  !path.isEmpty && !List.contains path '\x00' && !(PosixPath.parse path).isAbsolute
    && (PosixPath.parse path).toText == path
    && (PosixPath.parse path).parts.all fun part =>
      part != ['.'] && part != "..".toList && part != ".git".toList

/-- The paths of a change: bounded, distinct and safe. -/
def areChangedPaths (paths : List Text) : Bool :=
  !paths.isEmpty && paths.length ≤ dirtySnapshotChangedFileMax && paths.all isSafePath
    && decide paths.Nodup
    && (paths.map fun path => utf8Length path + 1).sum ≤ implementationInspectionStatusMaxBytes

/-! ## Snapshots -/

/-- The keys of a content snapshot. -/
def contentSnapshotKeys : List Text :=
  ["index_sha256".toList, "worktree_sha256".toList, "untracked_sha256".toList]

/-- The digests of a content snapshot, each once. -/
def isContentSnapshot (snapshot : List (Text × Text)) : Bool :=
  decide (snapshot.map Prod.fst).Nodup && sameSet (snapshot.map Prod.fst) contentSnapshotKeys
    && snapshot.all fun item => isSha256 item.2

/-- `canonical_thread_snapshot(json.loads(t))`; nothing for its `ValueError`. -/
def rereadThreadSnapshot (floats : JsonText.FloatText) (t : Text) : Option Text := do
  let threads ← (← JsonText.loads floats JsonText.keepLast t).asArr?
  canonicalThreadSnapshot floats threads

/-! ## Replies -/

/-- `a <= b` of two pairs of texts. -/
def pairLe (a b : Text × Text) : Bool :=
  Text.sortsBefore a.1 b.1 || (a.1 = b.1 && !Text.sortsBefore b.2 a.2)

/-- `tuple(sorted(pairs))`. -/
def sortedPairs (pairs : List (Text × Text)) : List (Text × Text) :=
  pairs.insertionSort fun a b => pairLe a b = true

/-- `RemediationReplyResult.__post_init__`. -/
def isReplyResult (floats : JsonText.FloatText) (digest : Text) (replies : List (Text × Text)) :
    Bool :=
  isSha256 digest && !replies.isEmpty
    && (replies.all fun item => !item.1.isEmpty && remediationReplyAccepted item.2)
    && sortedPairs replies == replies && decide (replies.map Prod.fst).Nodup
    && utf8Length (JsonText.canonicalJson floats (.obj [("replies", .obj (textsJson replies)),
      ("review_input_sha256", jsonText digest)])) ≤ remediationReplyResultMaxBytes

/-- `RemediationReplyResult.create` with the replies of a result. -/
def repliesMatchThreads (floats : JsonText.FloatText) (replies : List (Text × Text))
    (threadSnapshotJson : Text) : Bool :=
  (threadIds floats threadSnapshotJson).any fun ids =>
    sameSet (replies.map Prod.fst) (ids.map String.toList)

/-! ## Closed schemas -/

/-- `isinstance(value, dict) and set(value) == keys`. -/
def hasKeys (keys : List String) (value : Json) : Bool :=
  value.asObj?.any fun fields => sameSet (fields.map Prod.fst) keys

/-- A field that has to be a string. -/
def textField (value : Json) (key : String) : Option Text :=
  (value.field key).asStr?.map String.toList

/-- A list of strings. -/
def textList (value : Json) : Option (List Text) := do
  (← value.asArr?).mapM fun item => item.asStr?.map String.toList

/-- A list of pairs of strings. -/
def pairList (value : Json) : Option (List (Text × Text)) := do
  (← value.asArr?).mapM fun item =>
    match item with
    | .arr [.str key, .str value] => some (key.toList, value.toList)
    | _ => none

/-- A dictionary of strings, its items as `sorted(value.items())` has them. -/
def replyPairs (value : Json) : Option (List (Text × Text)) := do
  let pairs ← (← value.asObj?).mapM fun item =>
    item.2.asStr?.map fun text => (item.1.toList, text.toList)
  return sortedPairs pairs

end Hephaestus.Automation.Remediation
