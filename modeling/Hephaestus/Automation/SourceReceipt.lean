import Hephaestus.Automation.RemediationChecks

/-!
# Receipts of source workspaces

`SourceWorkspaceReceipt` of `hephaestus/automation/source_worktree.py` and the
`DirtyDirectClaim` of `hephaestus/agents/workspace.py` in it, as they are written
and read. The reader casts what it finds, so it accepts documents nobody wrote;
who needs the exact types writes the receipt again and compares.
-/

namespace Hephaestus.Automation.Remediation

open Hephaestus.Lib Hephaestus.Automation.Delivery

/-- The casts of a value that came out of a document, beside `str`: `int(value)`
is nothing where it raises. -/
structure PyCasts extends PyText where
  int : Json → Option Int
  int_int : ∀ n, int (.int n) = some n

/-- `SourceLane`. -/
inductive SourceLane
  | implementation
  | review
  deriving DecidableEq, Repr

def SourceLane.value : SourceLane → Text
  | .implementation => "impl".toList
  | .review => "review".toList

/-- `SourceLane(value)`. -/
def SourceLane.read (value : Json) : Option SourceLane := do
  let t ← value.asStr?
  if t.toList = SourceLane.implementation.value then some .implementation
  else if t.toList = SourceLane.review.value then some .review
  else none

/-! ## Claims of a dirty writer -/

/-- `DirtyDirectClaim`. -/
structure DirtyDirectClaim where
  branch : Text
  reservationBaseSha : Text
  planRevision : Int
  planFingerprint : Text
  reviewFingerprint : Text
  allowedPaths : List Text
  indexSha256 : Text
  worktreeSha256 : Text
  untrackedSha256 : Text
  nonce : Text
  state : Text
  deriving DecidableEq

/-- `DirtyDirectClaim.to_dict`. -/
def DirtyDirectClaim.toDict (c : DirtyDirectClaim) : Json :=
  .obj [("branch", jsonText c.branch), ("reservation_base_sha", jsonText c.reservationBaseSha),
    ("plan_revision", .int c.planRevision), ("plan_fingerprint", jsonText c.planFingerprint),
    ("review_fingerprint", jsonText c.reviewFingerprint),
    ("allowed_paths", .arr (c.allowedPaths.map jsonText)), ("index_sha256", jsonText c.indexSha256),
    ("worktree_sha256", jsonText c.worktreeSha256),
    ("untracked_sha256", jsonText c.untrackedSha256), ("nonce", jsonText c.nonce),
    ("state", jsonText c.state)]

/-- A path a claim may name. A drive is a letter with a colon after it. -/
def isClaimedPath (path : Text) : Bool :=
  !path.isEmpty && !List.contains path '\x5c' && !List.contains path '\x00'
    && !(PosixPath.parse path).isAbsolute && path[1]? != some ':'
    && (PosixPath.parse path).toText == path
    && (path.splitOn '/').all fun part =>
      !part.isEmpty && part != ['.'] && part != "..".toList && part != ".git".toList

/-- `re.fullmatch(r"[1-9][0-9]*-auto-impl-direct-[0-9a-f]{32}", t)`. -/
def isDirectBranch (t : Text) : Bool :=
  let number := t.takeWhile fun c => 48 ≤ c.toNat && c.toNat ≤ 57
  let rest := t.drop number.length
  !number.isEmpty && number.head? != some '0' && Text.startsWith rest "-auto-impl-direct-".toList
    && isBatch (rest.drop "-auto-impl-direct-".length)

/-- `DirtyDirectClaim.from_dict`; nothing for its `WorkspaceBindingError`. -/
def DirtyDirectClaim.fromDict (value : Json) : Option DirtyDirectClaim := do
  guard (hasKeys ["branch", "reservation_base_sha", "plan_revision", "plan_fingerprint",
    "review_fingerprint", "allowed_paths", "index_sha256", "worktree_sha256", "untracked_sha256",
    "nonce", "state"] value)
  let paths ← textList (value.field "allowed_paths")
  guard (!paths.isEmpty && paths.all isClaimedPath && decide paths.Nodup)
  let revision ← (value.field "plan_revision").asInt?
  guard (1 ≤ revision)
  let plan ← textField value "plan_fingerprint"
  let review ← textField value "review_fingerprint"
  let index ← textField value "index_sha256"
  let worktree ← textField value "worktree_sha256"
  let untracked ← textField value "untracked_sha256"
  guard ([plan, review, index, worktree, untracked].all isSha256)
  let base ← textField value "reservation_base_sha"
  let nonce ← textField value "nonce"
  let branch ← textField value "branch"
  let state ← textField value "state"
  guard (isFullSha base && isBatch nonce && isDirectBranch branch
    && (state == "armed".toList || state == "consumed".toList))
  return {
    branch := branch, reservationBaseSha := base, planRevision := revision
    planFingerprint := plan, reviewFingerprint := review, allowedPaths := paths
    indexSha256 := index, worktreeSha256 := worktree, untrackedSha256 := untracked
    nonce := nonce, state := state }

/-! ## Receipts -/

/-- `SourceWorkspaceReceipt`. -/
structure SourceWorkspaceReceipt where
  repository : Text
  repositoryIdentity : Text
  ownershipKey : Text
  itemNumber : Int
  lane : SourceLane
  path : PosixPath
  revision : Text
  generation : Int
  detached : Bool
  branch : Option Text
  obligations : List Text := []
  schemaVersion : Int := 1
  dirtyClaim : Option DirtyDirectClaim := none
  deriving DecidableEq

/-- `SourceWorkspaceReceipt.to_dict`. -/
def SourceWorkspaceReceipt.toDict (r : SourceWorkspaceReceipt) : Json :=
  .obj ([("schema_version", .int r.schemaVersion), ("repository", jsonText r.repository),
      ("repository_identity", jsonText r.repositoryIdentity),
      ("ownership_key", jsonText r.ownershipKey), ("item_number", .int r.itemNumber),
      ("lane", jsonText r.lane.value), ("path", jsonText r.path.toText),
      ("revision", jsonText r.revision), ("generation", .int r.generation),
      ("detached", .bool r.detached), ("branch", optionalText r.branch),
      ("obligations", .arr (r.obligations.map jsonText))]
    ++ if r.schemaVersion = 2 then
      [("dirty_claim", (r.dirtyClaim.map DirtyDirectClaim.toDict).getD .null)]
    else [])

/-- The keys of a receipt of the first schema. -/
def receiptKeys : List String :=
  ["schema_version", "repository", "repository_identity", "ownership_key", "item_number", "lane",
    "path", "revision", "generation", "detached", "branch", "obligations"]

/-- `tuple(str(item) for item in value)`. -/
def castTexts (py : PyCasts) : Json → Option (List Text)
  | .arr items => some (items.map py.text)
  | .str text => some (text.toList.map fun c => [c])
  | .obj fields => some (fields.map fun item => item.1.toList)
  | _ => none

/-- `SourceWorkspaceReceipt.from_dict`; nothing where it raises. -/
def SourceWorkspaceReceipt.fromDict (py : PyCasts) (payload : Json) :
    Option SourceWorkspaceReceipt := do
  let second := (payload.field "schema_version").eq (.int 2)
  guard (hasKeys (receiptKeys ++ if second then ["dirty_claim"] else []) payload)
  let schemaVersion ← py.int (payload.field "schema_version")
  let itemNumber ← py.int (payload.field "item_number")
  let lane ← SourceLane.read (payload.field "lane")
  let generation ← py.int (payload.field "generation")
  let obligations ← castTexts py (payload.field "obligations")
  let claim ← if second then (DirtyDirectClaim.fromDict (payload.field "dirty_claim")).map some
    else some none
  guard ((schemaVersion = 1 ∨ schemaVersion = 2) ∧ 1 ≤ generation)
  let branch := payload.field "branch"
  return {
    repository := py.text (payload.field "repository")
    repositoryIdentity := py.text (payload.field "repository_identity")
    ownershipKey := py.text (payload.field "ownership_key")
    itemNumber := itemNumber
    lane := lane
    path := PosixPath.parse (py.text (payload.field "path"))
    revision := py.text (payload.field "revision")
    generation := generation
    detached := (payload.field "detached").truthy
    branch := if branch.isNull then none else some (py.text branch)
    obligations := obligations
    schemaVersion := schemaVersion
    dirtyClaim := claim }

/-- `canonical_source_receipt_json`. -/
def canonicalSourceReceiptJson (floats : JsonText.FloatText) (r : SourceWorkspaceReceipt) : Text :=
  JsonText.dumps floats r.toDict

/-- `source_receipt_digest`. -/
def sourceReceiptDigest (floats : JsonText.FloatText) (r : SourceWorkspaceReceipt) : Text :=
  sha256Text (canonicalSourceReceiptJson floats r)

end Hephaestus.Automation.Remediation
