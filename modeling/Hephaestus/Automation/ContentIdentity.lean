import Mathlib.Data.List.Dedup
import Mathlib.Data.List.Lex
import Hephaestus.Lib.Command
import Hephaestus.Lib.Framing
import Hephaestus.Lib.JsonCodec
import Hephaestus.Lib.Sha256

/-!
# The identity of the content of a worktree

`_path_content_identity` of `hephaestus/automation/worktree_snapshot.py`. It walks to
each path of a list from the root of the worktree, never through a link, feeds what it
finds there to one digest, and can copy it to another directory as it goes.

Names are bytes: what Git prints is decoded and encoded with `surrogateescape`, one the
inverse of the other. The worktree does not change during the call, so what `fstat` says
before and after a read is the same, and a file has as many bytes as its size. An error
of the system and the end of the time are errors of a check of the deadline.
-/

namespace Hephaestus.Automation.Snapshot

open Hephaestus.Lib

abbrev Bytes := List UInt8

/-- What is at a place of the worktree: `st_size` and `st_rdev` of a directory go into the
digest. -/
inductive TreeEntry
  | absent
  | file (executable : Bool) (content : Bytes)
  | link (target : Bytes)
  | directory (size device : Nat)
  deriving DecidableEq

/-- The worktree, by the parts of a path from its root. -/
abbrev WorkTree := List Bytes → TreeEntry

/-- What is at a place of the copy. -/
inductive CopyEntry
  | file (executable : Bool) (content : Bytes)
  | link (target : Bytes)
  | directory
  deriving DecidableEq

/-- The directory that is copied to, by the parts of a path from it. -/
abbrev CopyTree := List Bytes → Option CopyEntry

/-- What the function raises. -/
inductive SnapshotError
  | runtime (message : String)
  | resourceLimit (message : String)
  | overflow
  | unicode
  | os (name : String)
  | interrupted
  deriving DecidableEq, Repr

def unsafePath : SnapshotError := .runtime "dirty snapshot contains an unsafe path"

def limitExceeded : SnapshotError := .resourceLimit "dirty snapshot content limit exceeded"

/-- The digest so far as the bytes it was fed, what is left of the budget if there is one,
the copy, whether anything was written that is not in it, and the checks of the deadline. -/
structure SnapshotState where
  hashed : Bytes := []
  remaining : Option Int := none
  copy : CopyTree := fun _ => none
  outside : Bool := false
  checks : Nat := 0

abbrev Snapshot := Command SnapshotState SnapshotError

/-! ## Paths -/

/-- `paths_output` as a list. -/
def relativeValues (output : Bytes) : Except SnapshotError (List Bytes) :=
  if output = [] then .ok []
  else if output.getLast? ≠ some 0 ∨ (output.tails.any fun t => [0, 0].isPrefixOf t) = true then
    .error unsafePath
  else .ok (output.dropLast.splitOn 0)

/-- `Path(relative).parts` of a path that is not absolute: `/` is 47 and `.` is 46. -/
def pathParts (relative : Bytes) : List Bytes :=
  (relative.splitOn 47).filter fun part => part ≠ [] ∧ part ≠ [46]

/-- `Path(relative).as_posix()` of such a path. -/
def asPosix (relative : Bytes) : Bytes :=
  if pathParts relative = [] then [46] else [47].intercalate (pathParts relative)

/-- The check of a path. An absolute path starts with `/`. -/
def isUnsafe (relative : Bytes) : Bool :=
  relative.head? = some 47 || relative ≠ asPosix relative || pathParts relative = []
    || (pathParts relative).any fun part => part = [] || part = [46] || part = [46, 46]

/-- The key by which a copy is ordered: deep paths first, then by bytes. -/
def copyKey (relative : Bytes) : List Int :=
  -((pathParts relative).length : Int) :: relative.map fun b => (b.toNat : Int)

/-- `sorted(set(relative_values), key=...)`. -/
def copyOrder (values : List Bytes) : List Bytes :=
  values.dedup.mergeSort fun a b => copyKey a ≤ copyKey b

/-! ## The digest and the budget -/

/-- `digest.update(bytes)`. -/
def feed (bytes : Bytes) : Snapshot Unit :=
  modify fun s => { s with hashed := s.hashed ++ bytes }

/-- `n.to_bytes(8, "big")`. -/
def eightBytes (n : Nat) : Except SnapshotError Bytes :=
  if n < 256 ^ 8 then .ok (bigEndian 8 n) else .error .overflow

/-- ASCII text as bytes. -/
def asciiBytes (t : Text) : Bytes := t.map fun c => UInt8.ofNat c.toNat

/-- `seed_digest.encode("ascii")`. -/
def encodeSeed (seed : Text) : Except SnapshotError Bytes :=
  if seed.all fun c => c.toNat < 128 then .ok (asciiBytes seed) else .error .unicode

/-- The budget is reduced, if there is one. -/
def spend (n : Nat) : Snapshot Unit := do
  modify fun s => { s with remaining := s.remaining.map fun left => left - n }
  let s ← get
  Command.attempt (raiseIf (s.remaining.any fun left => left < 0) limitExceeded)

/-- `check_deadline`. -/
def checkDeadline (clock : Nat → Bool) : Snapshot Unit := do
  let s ← get
  set { s with checks := s.checks + 1 }
  Command.attempt (raiseIf (clock s.checks = true) .interrupted)

/-! ## The copy -/

/-- `is_symlink()`. -/
def isLink : Option CopyEntry → Bool
  | some (.link _) => true
  | _ => false

/-- A part of the path before the last is a link, so that the system leaves the copy. -/
def passesLink (copy : CopyTree) (path : List Bytes) : Bool :=
  path.inits.any fun q => q ≠ path && isLink (copy q)

/-- A write to a place of the copy, where nothing may be that `allowed` refuses. -/
def writeCopy (path : List Bytes) (allowed : Option CopyEntry → Bool) (entry : CopyEntry) :
    Snapshot Unit := do
  let s ← get
  if passesLink s.copy path then set { s with outside := true }
  else do
    Command.attempt (raiseIf (path.dropLast ≠ [] ∧ s.copy path.dropLast ≠ some .directory)
      (.os "FileNotFoundError"))
    Command.attempt (raiseIf (allowed (s.copy path) = false) (.os "FileExistsError"))
    set { s with copy := Function.update s.copy path (some entry) }

/-- One turn of the loop of `destination_path`. -/
def makeParent (path : List Bytes) : Snapshot Unit := do
  let s ← get
  if passesLink s.copy path then set { s with outside := true }
  else
    match s.copy path with
    | none => writeCopy path (· = none) .directory
    | some .directory => pure ()
    | some _ => throw (.runtime "candidate snapshot has an unsafe path prefix")

/-- `destination_path`, from a directory of the copy on. -/
@[grind =] def destinationPath (parent : List Bytes) : List Bytes → Snapshot Unit
  | [] => pure ()
  | [_] => pure ()
  | component :: next :: rest => do
      makeParent (parent ++ [component])
      destinationPath (parent ++ [component]) (next :: rest)

/-- `os.symlink(target, destination_path(parts))`. -/
def copyLink (parts : List Bytes) (target : Bytes) : Snapshot Unit := do
  destinationPath [] parts
  writeCopy parts (· = none) (.link target)

/-- `copy_path.write_bytes(captured)` and `chmod`: both follow a link. -/
def copyFile (parts : List Bytes) (executable : Bool) (content : Bytes) : Snapshot Unit := do
  destinationPath [] parts
  let s ← get
  if isLink (s.copy parts) then set { s with outside := true }
  else writeCopy parts (· ≠ some .directory) (.file executable content)

/-- `destination_path(parts).mkdir(exist_ok=True)`: a link may be to a directory. -/
def copyDirectory (parts : List Bytes) : Snapshot Unit := do
  destinationPath [] parts
  let s ← get
  if s.copy parts = some .directory ∨ isLink (s.copy parts) = true then pure ()
  else writeCopy parts (· = none) .directory

/-! ## The walk -/

/-- The loop over `parts[:-1]`: whether the last part can be looked up. -/
@[grind =] def openParents (tree : WorkTree) (clock : Nat → Bool) (parent : List Bytes) :
    List Bytes → Snapshot Bool
  | [] => pure true
  | [_] => pure true
  | component :: next :: rest => do
      checkDeadline clock
      match tree (parent ++ [component]) with
      | .directory _ _ => openParents tree clock (parent ++ [component]) (next :: rest)
      | .absent | .file _ _ | .link _ => pure false

/-- How much is read at once. -/
def readLimit (remaining : Option Int) : Nat :=
  max 1 (match remaining with
    | none => 1024 * 1024
    | some left => min (1024 * 1024) (left + 1).toNat)

/-- The loop that reads a file, with what it has not read yet. It ends after at most one
turn more than there are bytes. -/
@[grind =] def readBlocks (clock : Nat → Bool) (copying : Bool) :
    Nat → Bytes → Bytes → Snapshot Bytes
  | 0, _, captured => pure captured
  | turns + 1, rest, captured => do
      checkDeadline clock
      let s ← get
      let block := rest.take (readLimit s.remaining)
      if block = [] then pure captured
      else do
        spend block.length
        feed block
        readBlocks clock copying turns (rest.drop block.length)
          (if copying then captured ++ block else captured)

/-- What is done for the entry a path leads to. -/
def visitEntry (clock : Nat → Bool) (copying : Bool) (parts : List Bytes) :
    TreeEntry → Snapshot Unit
  | .absent => feed (asciiBytes ['M'])
  | .link target => do
      feed (asciiBytes "120000\x00".toList)
      feed (asciiBytes ['L'])
      spend target.length
      let size ← Command.attempt (eightBytes target.length)
      feed size
      feed target
      if copying then copyLink parts target else pure ()
  | .file executable content => do
      feed (asciiBytes "100000\x00".toList)
      let s ← get
      Command.attempt (raiseIf (s.remaining.any fun left => left < (content.length : Int)) limitExceeded)
      feed (asciiBytes ['F'])
      feed (asciiBytes [if executable then 'X' else 'N'])
      let size ← Command.attempt (eightBytes content.length)
      feed size
      let captured ← readBlocks clock copying (content.length + 1) content []
      if copying then copyFile parts executable captured else pure ()
  | .directory size device => do
      feed (asciiBytes "40000\x00".toList)
      feed (asciiBytes ['O'])
      feed (asciiBytes (JsonText.decimalInt size ++ ':' :: JsonText.decimalInt device))
      if copying then copyDirectory parts else pure ()

/-- One turn of the loop over the paths. -/
def visit (tree : WorkTree) (clock : Nat → Bool) (copying : Bool) (relative : Bytes) :
    Snapshot Unit := do
  checkDeadline clock
  Command.attempt (raiseIf (isUnsafe relative = true) unsafePath)
  let size ← Command.attempt (eightBytes relative.length)
  feed size
  feed relative
  let parts := pathParts relative
  if ← openParents tree clock [] parts then visitEntry clock copying parts (tree parts)
  else feed (asciiBytes ['M'])

/-- `_path_content_identity`, on a system that may lack secure directory descriptors. -/
def pathContentIdentity (tree : WorkTree) (clock : Nat → Bool) (secure copying : Bool)
    (output : Bytes) (seed : Text) : Snapshot Text := do
  let values ← Command.attempt (relativeValues output)
  let values := if copying then copyOrder values else values
  feed (asciiBytes ['D'])
  feed (← Command.attempt (encodeSeed seed))
  if values = [] then pure (Sha256.hexdigest (← get).hashed)
  else do
    Command.attempt (raiseIf (secure = false)
      (.runtime "secure dirty snapshot path inspection is unavailable"))
    checkDeadline clock
    values.forM (visit tree clock copying)
    pure (Sha256.hexdigest (← get).hashed)

end Hephaestus.Automation.Snapshot
