import Hephaestus.Lib.Command
import Hephaestus.Lib.PosixPath
import Hephaestus.Automation.AuditReceipts

/-!
# The worktree inventory and the cleanup of stale worktrees

`hephaestus/github/tidy.py`. Git lists the worktrees as records of fields, each field
ended by a NUL and each record by an empty field. `_parse_worktree_porcelain` reads the
attached worktrees of the list, and `_worktree_is_locked` looks into the same list again
for one of them. `_cleanup_stale_worktrees` goes through what was read, and asks the
operator before it removes anything.
-/

namespace Hephaestus.Github

open Hephaestus.Lib Hephaestus.Automation

/-- What the functions raise. -/
inductive TidyError
  | inventory (message : String)
  | value
  | git
  | endOfFile
  deriving DecidableEq, Repr

/-- The error of every malformed inventory. -/
def malformed : TidyError := .inventory "Git returned a malformed worktree inventory"

/-! ## Reading the inventory -/

/-- What `git worktree list --porcelain -z` came to. -/
inductive WorktreeListing
  | timedOut
  | failed
  | finished (returncode : Int) (stdout : Text)

/-- `_worktree_porcelain`. -/
def worktreePorcelain : WorktreeListing → Except TidyError Text
  | .timedOut =>
      .error (.inventory "Git worktree inventory timed out. No cleanup change occurred.")
  | .failed =>
      .error (.inventory "Git could not read the worktree inventory. No cleanup change occurred.")
  | .finished returncode stdout =>
      if returncode = 0 then .ok stdout
      else if returncode = 129 then
        .error (.inventory ("--cleanup-stale-worktrees requires Git 2.36 or later. "
          ++ "Upgrade Git before you run cleanup. No cleanup change occurred."))
      else
        .error (.inventory ("Git could not read the worktree inventory (exit status "
          ++ toString returncode ++ "). No cleanup change occurred."))

/-- The names in the set of attributes. -/
inductive AttributeName
  | worktree
  | branch
  | head
  | bare
  | detached
  | locked
  | prunable
  deriving DecidableEq, Repr

/-- `_inventory_path`. -/
def inventoryPath (field : Text) (current : Option PosixPath) : Except TidyError PosixPath := do
  let pathText := Text.removePrefix "worktree ".toList field
  let path := PosixPath.parse pathText
  raiseIf (current ≠ none ∨ pathText = [] ∨ path.isAbsolute = false) malformed
  .ok path

/-- `_inventory_attribute`. -/
def inventoryAttribute (field : Text) : Except TidyError (AttributeName × Option Text) :=
  if Text.startsWith field "branch refs/heads/".toList then
    .ok (.branch, some (Text.removePrefix "branch refs/heads/".toList field))
  else if Text.startsWith field "HEAD ".toList then
    .ok (.head, some (Text.removePrefix "HEAD ".toList field))
  else if field = "bare".toList then .ok (.bare, none)
  else if field = "detached".toList then .ok (.detached, none)
  else if field = "locked".toList ∨ Text.startsWith field "locked ".toList then .ok (.locked, none)
  else if field = "prunable".toList ∨ Text.startsWith field "prunable ".toList then
    .ok (.prunable, none)
  else .error malformed

/-- What the parser has of the record it is in, and what it returns. -/
structure InventoryState where
  worktrees : List (PosixPath × Text) := []
  primary : Option PosixPath := none
  path : Option PosixPath := none
  branch : Option Text := none
  attributes : List AttributeName := []
  records : Nat := 0

/-- `_add_inventory_attribute`. -/
def addInventoryAttribute (field : Text) (s : InventoryState) :
    Except TidyError InventoryState := do
  let (name, value) ← inventoryAttribute field
  raiseIf (s.path = none ∨ name ∈ s.attributes
    ∨ ((name = .head ∨ name = .branch) ∧ value.getD [] = [])) malformed
  .ok { s with
    branch := if name = .branch then value else s.branch
    attributes := name :: s.attributes }

/-- `_validate_inventory_record`. -/
def validateInventoryRecord (attributes : List AttributeName) : Except TidyError Unit := do
  raiseIf (.branch ∈ attributes ∧ (.bare ∈ attributes ∨ .detached ∈ attributes)) malformed
  raiseIf (.bare ∉ attributes ∧ .head ∉ attributes) malformed

/-- The end of a record. -/
def endRecord (root : PosixPath) (s : InventoryState) : Except TidyError InventoryState :=
  match s.path with
  | none => .ok { s with branch := none, attributes := [] }
  | some path => do
      validateInventoryRecord s.attributes
      .ok { s with
        worktrees :=
          match s.branch with
          | some branch =>
              if some path = s.primary ∨ path = root then s.worktrees
              else s.worktrees ++ [(path, branch)]
          | none => s.worktrees
        records := s.records + 1
        path := none
        branch := none
        attributes := [] }

/-- One turn of the loop of `_parse_worktree_porcelain`. -/
def parseField (root : PosixPath) (s : InventoryState) (field : Text) :
    Except TidyError InventoryState :=
  if Text.startsWith field "worktree ".toList then do
    let path ← inventoryPath field s.path
    .ok { s with
      path := some path
      primary := some (s.primary.getD path)
      branch := none
      attributes := [.worktree] }
  else if field = [] then endRecord root s
  else addInventoryAttribute field s

/-- `[*output.split("\0"), ""]`. -/
def inventoryFields (output : Text) : List Text := output.splitOn '\x00' ++ [[]]

/-- `_parse_worktree_porcelain`. -/
def parseWorktreePorcelain (output : Text) (root : PosixPath) :
    Except TidyError (List (PosixPath × Text)) := do
  let s ← (inventoryFields output).foldlM (parseField root) {}
  raiseIf (s.records = 0) malformed
  .ok s.worktrees

/-- The loop of `_worktree_is_locked`. -/
@[grind =] def scanLocked (path : PosixPath) (stanza : Bool) : List Text → Bool
  | [] => false
  | field :: fields =>
      if Text.startsWith field "worktree ".toList then
        scanLocked path (PosixPath.parse (Text.removePrefix "worktree ".toList field) = path) fields
      else if field = [] then scanLocked path false fields
      else if stanza && Text.startsWith field "locked".toList then true
      else scanLocked path stanza fields

/-- `_worktree_is_locked`. -/
def worktreeIsLocked (path : PosixPath) (porcelain : Text) : Bool :=
  scanLocked path false (inventoryFields porcelain)

/-! ## The cleanup -/

/-- What the cleanup is told while it is at one worktree: the state of an issue, whether
the branch is merged, what `git status` finds if it returns, what the operator answers to
a prompt if anything, and whether `git worktree remove` returns. -/
structure Observation where
  issueIsClosed : Nat → Bool
  branchIsMerged : Bool
  isDirty : Option Bool
  answer : Text → Option Text
  removes : Bool

/-- The digits that `int` accepts. -/
def maxStrDigits : Nat := 4300

variable (digits : DigitTable)

/-- The issue a branch is named after: `re.match(r"(\d+)", branch)`. -/
def branchIssue (branch : Text) : Except TidyError (Option Nat) :=
  let number := branch.takeWhile digits.isDigit
  if number = [] then .ok none
  else if maxStrDigits < number.length then .error .value
  else .ok (some (digits.int number))

/-- Why a worktree is stale. -/
def staleReason (closedIssue : Option Nat) (trunk : Text) : Text :=
  match closedIssue with
  | some issue => "issue #".toList ++ JsonText.decimalInt issue ++ " is closed".toList
  | none => "merged into ".toList ++ trunk

/-- The question to the operator. -/
def removePrompt (path : PosixPath) (branch reason : Text) : Text :=
  "Remove stale worktree ".toList ++ path.toText ++ " (branch ".toList ++ branch ++ "; ".toList
    ++ reason ++ ")? [y/N] ".toList

/-- The commands of the cleanup; its state is what `git worktree remove` was run for. -/
abbrev Cleanup := Command (List (PosixPath × Text)) TidyError

/-- `_remove_worktree`. -/
def removeWorktree (seen : Observation) (path : PosixPath) (branch : Text) : Cleanup Unit := do
  modify fun removed => removed ++ [(path, branch)]
  if seen.removes then pure () else throw .git

/-- One turn of the loop of `_cleanup_stale_worktrees`. -/
def cleanupCandidate (porcelain trunk : Text) (dryRun : Bool) (seen : Observation)
    (path : PosixPath) (branch : Text) : Cleanup Unit := do
  let issue ← Command.attempt (branchIssue digits branch)
  let closedIssue := issue.filter seen.issueIsClosed
  if closedIssue = none ∧ seen.branchIsMerged = false then pure ()
  else
    match seen.isDirty with
    | none => throw .git
    | some true => pure ()
    | some false =>
        if worktreeIsLocked path porcelain then pure ()
        else if dryRun then pure ()
        else
          match seen.answer (removePrompt path branch (staleReason closedIssue trunk)) with
          | none => throw .endOfFile
          | some answer =>
              if Text.lower answer = ['y'] then removeWorktree seen path branch else pure ()

/-- The loop of `_cleanup_stale_worktrees`, from a place in the list on. -/
@[grind =] def cleanupFrom (porcelain trunk : Text) (dryRun : Bool) (seen : Nat → Observation) :
    Nat → List (PosixPath × Text) → Cleanup Unit
  | _, [] => pure ()
  | i, (path, branch) :: candidates => do
      cleanupCandidate digits porcelain trunk dryRun (seen i) path branch
      cleanupFrom porcelain trunk dryRun seen (i + 1) candidates

/-- `_cleanup_stale_worktrees`. -/
def cleanupStaleWorktrees (root : PosixPath) (trunk : Text) (dryRun : Bool)
    (listing : WorktreeListing) (seen : Nat → Observation) : Cleanup Nat := do
  let porcelain ← Command.attempt (worktreePorcelain listing)
  let candidates ← Command.attempt (parseWorktreePorcelain porcelain root)
  cleanupFrom digits porcelain trunk dryRun seen 0 candidates
  pure 0

end Hephaestus.Github
