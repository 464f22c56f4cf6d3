import Hephaestus.Lib.Json

/-!
# Receipts of a posted review

After a review is posted its threads are read back, page by page, and each
requested comment is matched with a thread that holds it and nothing else
(`_repo_review_thread_receipts_for_review`). A page goes through the validator of
its query first (`review_receipts_page_query`), so that the loop meets typed values
only; what the transport or the validator raises is a RuntimeError.

What the server answers is a sequence of answers, one for each request. Nothing
bounds it: the loop goes on as long as a page says that another one follows and
names a cursor other than the last one, so the loop here has fuel, and whether it
ends is one of the things to prove.
-/

namespace Hephaestus.Automation

open Hephaestus.Lib

/-- A connection after `_page_info`. -/
structure PageConnection where
  hasNextPage : Bool
  endCursor : Option String
  nodes : List Json

/-- An optional text of a node. -/
def asOptionalText : Json → Option (Option String)
  | .null => some none
  | .str text => some (some text)
  | _ => none

/-- `_page_info`. -/
def checkPageInfo (connection : Json) : Option PageConnection := do
  guard (connection.asObj?).isSome
  let pageInfo := connection.field "pageInfo"
  guard (pageInfo.asObj?).isSome
  let hasNextPage ← match pageInfo.field "hasNextPage" with
    | .bool b => some b
    | _ => none
  let endCursor ← asOptionalText (pageInfo.field "endCursor")
  let nodes ← (connection.field "nodes").asArr?
  guard (nodes.all fun node => (node.asObj?).isSome)
  some { hasNextPage, endCursor, nodes }

/-- A comment of a thread. -/
structure ReceiptComment where
  id : String
  body : String
  author : Option String
  reviewId : String
  deriving DecidableEq

/-- A thread of a page. -/
structure ReceiptThread where
  id : String
  isResolved : Bool
  path : String
  line : Option Int
  side : Option String
  comments : List ReceiptComment
  moreComments : Bool
  deriving DecidableEq

/-- A page. -/
structure ReceiptPage where
  threads : List ReceiptThread
  hasNextPage : Bool
  endCursor : Option String

/-- The validator's checks of a comment. -/
def checkReceiptComment (comment : Json) : Option ReceiptComment := do
  let id ← (comment.field "id").asStr?
  let body ← (comment.field "body").asStr?
  let author ← match comment.field "author" with
    | .null => some none
    | .obj fields => ((Json.obj fields).field "login").asStr?.map some
    | _ => none
  let review := comment.field "pullRequestReview"
  let reviewId ← (review.field "id").asStr?
  guard ((review.field "state").asStr?).isSome
  guard (((review.field "commit").field "oid").asStr?).isSome
  some { id, body, author, reviewId }

/-- The validator's checks of a thread. -/
def checkReceiptThread (node : Json) : Option ReceiptThread := do
  let id ← (node.field "id").asStr?
  let isResolved ← match node.field "isResolved" with
    | .bool b => some b
    | _ => none
  let path ← (node.field "path").asStr?
  let line ← match node.field "line" with
    | .null => some none
    | .int n => some (some n)
    | _ => none
  let side ← asOptionalText (node.field "side")
  let connection ← checkPageInfo (node.field "comments")
  let comments ← connection.nodes.mapM checkReceiptComment
  some { id, isResolved, path, line, side, comments, moreComments := connection.hasNextPage }

/-- The validator of `review_receipts_page_query`, with `_repo_identity`. -/
def checkReceiptPage (owner name : String) (prNumber : Int) (data : Json) : Option ReceiptPage := do
  let repository := data.field "repository"
  guard ((repository.field "name").eq (.str name))
  guard (((repository.field "owner").field "login").eq (.str owner))
  let pullRequest := repository.field "pullRequest"
  guard ((pullRequest.field "id").asStr?).isSome
  guard ((pullRequest.field "number").eq (.int prNumber))
  let connection ← checkPageInfo (pullRequest.field "reviewThreads")
  let threads ← connection.nodes.mapM checkReceiptThread
  some { threads, hasNextPage := connection.hasNextPage, endCursor := connection.endCursor }

/-- What the loop compares. -/
structure CommentKey where
  path : String
  line : Option Int
  side : String
  body : String
  deriving DecidableEq

/-- `str(text or default)`. -/
def textOr (text : Option String) (default : String) : String :=
  match text with
  | none => default
  | some text => if text = "" then default else text

/-- A requested comment. -/
structure RequestedComment where
  path : Option String
  line : Option Int
  side : Option String
  body : Option String

def RequestedComment.key (comment : RequestedComment) : CommentKey where
  path := textOr comment.path ""
  line := comment.line
  side := textOr comment.side "RIGHT"
  body := textOr comment.body ""

/-- The comment entry of a receipt. -/
structure CommentReceipt where
  id : String
  author : String
  body : String
  reviewId : String
  deriving DecidableEq

/-- A receipt. -/
structure ThreadReceipt where
  id : String
  path : String
  line : Option Int
  side : String
  body : String
  author : String
  authors : List String
  comments : List CommentReceipt
  reviewId : String
  deriving DecidableEq

/-- What a receipt says of the comment it proves. -/
def ThreadReceipt.key (r : ThreadReceipt) : CommentKey where
  path := r.path
  line := r.line
  side := r.side
  body := r.body

/-- The key of a thread by its first comment. -/
def ReceiptThread.key (thread : ReceiptThread) (comment : ReceiptComment) : CommentKey where
  path := thread.path
  line := thread.line
  side := textOr thread.side "RIGHT"
  body := comment.body

/-- The login of a comment's author, empty where there is none. -/
def ReceiptComment.login (comment : ReceiptComment) : String :=
  comment.author.getD ""

/-- The receipt of a thread. -/
def ReceiptThread.receipt (thread : ReceiptThread) (comment : ReceiptComment) (reviewId : String) :
    ThreadReceipt where
  id := thread.id
  path := thread.path
  line := thread.line
  side := textOr thread.side "RIGHT"
  body := comment.body
  author := comment.login
  authors := [comment.login]
  comments := [{ id := comment.id, author := comment.login, body := comment.body, reviewId }]
  reviewId

/-- The comments not yet matched, and the receipts so far. -/
structure Matching where
  unmatched : List CommentKey
  receipts : List ThreadReceipt := []

/-- The body of the inner loop. -/
def Matching.take (reviewId : String) (m : Matching) (thread : ReceiptThread) : Matching :=
  if thread.isResolved = true ∨ thread.moreComments = true then m
  else
    match thread.comments with
    | [comment] =>
        if comment.reviewId ≠ reviewId then m
        else if thread.id = "" ∨ comment.id = "" ∨ comment.login = "" ∨
            thread.key comment ∉ m.unmatched then m
        else
          { unmatched := m.unmatched.erase (thread.key comment)
            receipts := m.receipts ++ [thread.receipt comment reviewId] }
    | _ => m

/-- The RuntimeErrors of the read back. -/
inductive ReceiptReadError
  /-- `_graphql` raised: the transport, or the validator. -/
  | response
  /-- "could not fetch all PR review threads". -/
  | cursor
  deriving DecidableEq, Repr

section

variable (reviewId : String) (requested : List RequestedComment)
  (pages : Nat → Option ReceiptPage)

/-- The `while True` from the `k`-th request on, after a cursor. -/
def readReceipts : Nat → Nat → Option String → Matching →
    Option (Except ReceiptReadError (List ThreadReceipt))
  | 0, _, _, _ => none
  | fuel + 1, k, after, m =>
      match pages k with
      | none => some (.error .response)
      | some page =>
          let m := page.threads.foldl (Matching.take reviewId) m
          if page.hasNextPage then
            match page.endCursor with
            | none => some (.error .cursor)
            | some cursor =>
                if cursor = "" ∨ some cursor = after then some (.error .cursor)
                else readReceipts fuel (k + 1) (some cursor) m
          else if m.unmatched ≠ [] ∨ m.receipts.length ≠ requested.length then some (.ok [])
          else some (.ok m.receipts)

/-- The pages the validator lets through. -/
def receiptPages (owner name : String) (prNumber : Int) (answers : Nat → Option Json) (k : Nat) :
    Option ReceiptPage :=
  (answers k).bind (checkReceiptPage owner name prNumber)

/-- `_repo_review_thread_receipts_for_review`, with what the server answers. -/
def reviewThreadReceipts (owner name : String) (prNumber : Int) (answers : Nat → Option Json)
    (fuel : Nat) : Option (Except ReceiptReadError (List ThreadReceipt)) :=
  readReceipts reviewId requested (receiptPages owner name prNumber answers) fuel 0 none
    { unmatched := requested.map RequestedComment.key }

end

end Hephaestus.Automation
