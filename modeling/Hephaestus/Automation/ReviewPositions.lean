import Mathlib.Data.Finset.Insert
import Hephaestus.Automation.AuditReceipts
import Hephaestus.Lib.Dict

/-!
# The lines of a diff that take a comment

`github_api/diff.py`: a unified diff is read line by line into the places that GitHub takes
an inline comment at, and the comments at other places are dropped. Next to it, unified
diffs as git writes them.
-/

namespace Hephaestus.Automation

open Hephaestus.Lib

/-- `LEFT` and `RIGHT`. -/
inductive Side
  | left
  | right
  deriving DecidableEq

def Side.text : Side → Text
  | .left => "LEFT".toList
  | .right => "RIGHT".toList

/-- `(\d+)(?:,\d+)?`: the number, and the rest of the text. -/
def readRange (digits : DigitTable) (t : Text) : Option (Nat × Text) :=
  let number := t.takeWhile digits.isDigit
  if number = [] then none
  else
    let rest := t.drop number.length
    let count := (rest.drop 1).takeWhile digits.isDigit
    some (digits.int number,
      if rest.head? = some ',' ∧ count ≠ [] then rest.drop (count.length + 1) else rest)

/-- `_HUNK_HEADER_RE.match(t)`, of which the two numbers are read. -/
def readHunkHeader (digits : DigitTable) (t : Text) : Option (Nat × Nat) := do
  let t ← afterLiteral "@@ -".toList t
  let (oldLine, t) ← readRange digits t
  let t ← afterLiteral " +".toList t
  let (newLine, t) ← readRange digits t
  let _ ← afterLiteral " @@".toList t
  pure (oldLine, newLine)

/-- `positions`, `current_path`, `old_line` and `new_line`. -/
structure DiffCursor where
  positions : Dict Text (Finset (Nat × Side)) := []
  path : Option Text := none
  oldLine : Nat := 0
  newLine : Nat := 0

/-- `positions[path].add(position)`. -/
def DiffCursor.add (c : DiffCursor) (path : Text) (position : Nat × Side) : DiffCursor :=
  { c with positions := c.positions.set path (insert position ((c.positions.get? path).getD ∅)) }

/-- What a line of a hunk adds. -/
def DiffCursor.mark (c : DiffCursor) (path : Text) : Text → DiffCursor
  | '+' :: _ => { c.add path (c.newLine, .right) with newLine := c.newLine + 1 }
  | '-' :: _ => { c.add path (c.oldLine, .left) with oldLine := c.oldLine + 1 }
  | ' ' :: _ =>
      { (c.add path (c.newLine, .right)).add path (c.oldLine, .left) with
        oldLine := c.oldLine + 1
        newLine := c.newLine + 1 }
  | _ => c

/-- One turn of the loop of `_valid_review_positions`. -/
def DiffCursor.readLine (digits : DigitTable) (c : DiffCursor) (raw : Text) : DiffCursor :=
  if Text.startsWith raw "+++ ".toList then
    let target := Text.strip (raw.drop 4)
    if target = "/dev/null".toList then { c with path := none }
    else
      let path := if Text.startsWith target "b/".toList then target.drop 2 else target
      { c with
        path := some path
        positions := if c.positions.contains path then c.positions else c.positions.set path ∅ }
  else if Text.startsWith raw "--- ".toList then c
  else
    match readHunkHeader digits raw with
    | some (oldLine, newLine) => { c with oldLine, newLine }
    | none =>
        match c.path with
        | none => c
        | some path => c.mark path raw

/-- `_valid_review_positions`. -/
def validReviewPositions (digits : DigitTable) (diffText : Text) : Dict Text (Finset (Nat × Side)) :=
  ((Text.splitlines diffText).foldl (DiffCursor.readLine digits) {}).positions

/-- An inline comment, of what is read here. -/
structure ReviewComment where
  path : Option Text
  line : Option Int
  side : Option Text

/-- `path in valid and (line, side) in valid[path]`. -/
def ReviewComment.isIn (comment : ReviewComment) (valid : Dict Text (Finset (Nat × Side))) : Prop :=
  ∃ positions ∈ valid.get? (comment.path.getD []), ∃ position ∈ positions,
    comment.line = some (position.1 : Int) ∧ comment.side.getD Side.right.text = position.2.text

instance (comment : ReviewComment) (valid : Dict Text (Finset (Nat × Side))) :
    Decidable (comment.isIn valid) :=
  inferInstanceAs (Decidable (∃ positions ∈ valid.get? _, ∃ position ∈ positions, _))

/-- `_filter_comments_to_diff`. -/
def filterCommentsToDiff (digits : DigitTable) (comments : List ReviewComment) (diffText : Text) :
    List ReviewComment :=
  if Text.strip diffText = [] then comments
  else comments.filter fun comment => comment.isIn (validReviewPositions digits diffText)

/-! ## Diffs as they are written -/

inductive DiffLine
  | context (text : Text)
  | added (text : Text)
  | removed (text : Text)
  /-- `\ No newline at end of file`. -/
  | note (text : Text)

def DiffLine.render : DiffLine → Text
  | .context text => ' ' :: text
  | .added text => '+' :: text
  | .removed text => '-' :: text
  | .note text => '\x5c' :: text

/-- The lines of the old file, and of the new one, that a line of the diff stands for. -/
def DiffLine.oldLines : DiffLine → Nat
  | .context _ | .removed _ => 1
  | _ => 0

def DiffLine.newLines : DiffLine → Nat
  | .context _ | .added _ => 1
  | _ => 0

structure Hunk where
  oldStart : Nat
  oldCount : Option Nat
  newStart : Nat
  newCount : Option Nat
  heading : Text
  lines : List DiffLine

def renderRange (start : Nat) (count : Option Nat) : Text :=
  Nat.toDigits 10 start ++ (count.elim [] fun n => ',' :: Nat.toDigits 10 n)

def Hunk.header (hunk : Hunk) : Text :=
  "@@ -".toList ++ (renderRange hunk.oldStart hunk.oldCount ++ (" +".toList ++
    (renderRange hunk.newStart hunk.newCount ++ (" @@".toList ++ hunk.heading))))

def Hunk.render (hunk : Hunk) : List Text := hunk.header :: hunk.lines.map DiffLine.render

/-- The part of a diff about one file; `none` stands for `/dev/null`. -/
structure FileDiff where
  preamble : List Text
  old : Option Text
  new : Option Text
  hunks : List Hunk

def FileDiff.render (file : FileDiff) : List Text :=
  file.preamble ++ ("--- ".toList ++ file.old.elim "/dev/null".toList fun path => "a/".toList ++ path)
    :: ("+++ ".toList ++ file.new.elim "/dev/null".toList fun path => "b/".toList ++ path)
    :: file.hunks.flatMap Hunk.render

def renderDiff (files : List FileDiff) : Text :=
  (files.flatMap FileDiff.render).flatMap fun line => line ++ ['\n']

end Hephaestus.Automation
