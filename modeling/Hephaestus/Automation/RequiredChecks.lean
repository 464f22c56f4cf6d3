import Mathlib.Data.List.Sort
import Hephaestus.Automation.MergeWaitCycle

/-!
# The required checks of a head

GitHub answers page by page, and a page is untrusted: any status, any JSON. Check
Runs and commit statuses are each traversed twice and compared. The two
traversals are one loop with two page readers.
-/

namespace Hephaestus.Automation

open Hephaestus.Lib

/-- An exception: of a class that `required_checks_pass_for_head` catches around
its reads, or of another. The last one is no exception of the source: a loop of
the model ran out of turns. -/
inductive GateError
  | handled
  | unhandled
  | outOfFuel
  deriving DecidableEq

/-- What happens when a page is due. -/
inductive PageReply
  /-- The cancellation is set or the deadline has passed. -/
  | stopped
  /-- `_deadline_gh_call` raises, an exception of a class that is caught or another. -/
  | raised (isHandled : Bool)
  /-- The call returns; nothing stands for an output that is no JSON. -/
  | page (returncode : Int) (payload : Option Json)

/-- A part of the gate; it counts the pages that were due. -/
abbrev GateStep (α : Type) := Command Nat GateError α

/-- A required `(context, app_id)`. -/
abbrev RequiredCheck := Text × Option Int

/-- What `datetime.fromisoformat` makes of a text: an error, a time without a
zone, or local microseconds since the year 1 with an offset. -/
inductive ParsedTime
  | invalid
  | naive
  | aware (micros offset : Int)

/-- `datetime.max`, in microseconds since `datetime.min`. -/
def maxMicros : Int := 3652059 * 86400 * 1000000 - 1

/-- `_MAX_STATUS_AGE`. -/
def maxStatusAge : Int := 7 * 86400 * 1000000

/-- What the gate is about: the texts, the clock and the head. -/
structure GateContext where
  py : PyText
  fromisoformat : Text → ParsedTime
  nowUtc : Int
  headSha : Text
  required : List RequiredCheck

/-- `value.replace("Z", "+00:00")`. -/
def replaceZulu (value : Text) : Text :=
  value.flatMap fun c => if c = 'Z' then "+00:00".toList else [c]

/-- `isinstance(value, int) and not isinstance(value, bool) and value > 0`. -/
def positiveInt? (value : Option Json) : Option Int :=
  match value with
  | some (.int n) => if 0 < n then some n else none
  | _ => none

/-- `_check_run_app_id`; the error is the `ValueError`. -/
def checkRunAppId (run : Json) : Option Int :=
  match run.get? "app" with
  | some (.obj fields) => positiveInt? ((Json.obj fields).get? "id")
  | _ => none

section Evidence

variable (ctx : GateContext)

/-- `_current_evidence_timestamp`; the conversion to UTC overflows outside the
range of `datetime`. -/
def currentEvidenceTimestamp (value : Option Json) : Except GateError (Option Text) :=
  match value with
  | some (.str text) =>
      if text = "" then .ok none
      else
        match ctx.fromisoformat (replaceZulu text.toList) with
        | .invalid | .naive => .ok none
        | .aware micros offset =>
            let normalized := micros - offset
            if normalized < 0 ∨ maxMicros < normalized then .error .unhandled
            else if ctx.nowUtc < normalized ∨ normalized < ctx.nowUtc - maxStatusAge then .ok none
            else .ok (some text.toList)
  | _ => .ok none

/-- `_check_run_required_matches`. -/
def checkRunRequiredMatches (run : Json) : Option (List RequiredCheck) :=
  match (run.get? "name").bind Json.asStr? with
  | none => none
  | some name =>
      let named := ctx.required.filter fun r => r.1 = name.toList
      if named.all fun r => r.2 = none then some named
      else
        match checkRunAppId run with
        | none => none
        | some appId => some (named.filter fun r => r.2 = none ∨ r.2 = some appId)

/-- One row of a Check Runs snapshot. -/
structure RunRow where
  id : Int
  name : String
  appId : Int
  status : Text
  conclusion : Text
  headSha : Json
  completedAt : Text
  matched : List RequiredCheck

/-- The rows are equal. -/
def RunRow.eq (a b : RunRow) : Bool :=
  a.id = b.id && a.name = b.name && a.appId = b.appId && a.status = b.status
    && a.conclusion = b.conclusion && Json.eq a.headSha b.headSha
    && a.completedAt = b.completedAt && a.matched = b.matched

/-- `str(value or "").lower()`. -/
def lowerField (run : Json) (key : String) : Text :=
  ctx.py.lower (ctx.py.orEmpty (run.get? key))

/-- The turns of `_check_run_snapshot`. -/
def checkRunRows : List Json → List (String × Int) → Except GateError (Option (List RunRow))
  | [], _ => .ok (some [])
  | run :: rest, identities =>
      match run with
      | .obj _ =>
          match checkRunRequiredMatches ctx run with
          | none => .ok none
          | some [] => checkRunRows rest identities
          | some matched =>
              match checkRunAppId run, positiveInt? (run.get? "id"),
                  (run.get? "name").bind Json.asStr? with
              | some appId, some id, some name =>
                  if (name, appId) ∈ identities then .ok none
                  else
                    match currentEvidenceTimestamp ctx (run.get? "completed_at") with
                    | .error e => .error e
                    | .ok none => .ok none
                    | .ok (some completedAt) =>
                        (checkRunRows rest ((name, appId) :: identities)).map fun rows =>
                          rows.map fun rows =>
                            { id := id, name := name, appId := appId
                              status := lowerField ctx run "status"
                              conclusion := lowerField ctx run "conclusion"
                              headSha := (run.get? "head_sha").getD .null
                              completedAt := completedAt, matched := matched } :: rows
              | _, _, _ => .ok none
      | _ => .ok none

/-- `_check_run_snapshot`: the ids differ, so they decide the order. -/
def checkRunSnapshot (runs : List Json) : Except GateError (Option (List RunRow)) :=
  (checkRunRows ctx runs []).map fun rows =>
    rows.map fun rows => rows.insertionSort fun a b => a.id ≤ b.id

/-- `_CHECK_SUCCESS_CONCLUSIONS`. -/
def checkSuccessConclusions : List Text :=
  ["success".toList, "neutral".toList, "skipped".toList]

/-- One turn of `_passing_check_run_requirements`. -/
def passingCheckRun (run : Json) : Except GateError (Option (List RequiredCheck)) :=
  match run with
  | .obj fields =>
      match checkRunRequiredMatches ctx (.obj fields) with
      | none => .ok none
      | some [] => .ok (some [])
      | some matched =>
          if checkRunAppId (.obj fields) = none then .ok none
          else if (Json.get? (.obj fields) "head_sha").bind Json.asStr?
              ≠ some (String.ofList ctx.headSha) then .ok none
          else if lowerField ctx (.obj fields) "status" ≠ "completed".toList
              ∨ lowerField ctx (.obj fields) "conclusion" ∉ checkSuccessConclusions then .ok none
          else
            (currentEvidenceTimestamp ctx (Json.get? (.obj fields) "completed_at")).map
              fun completedAt => completedAt.map fun _ => matched
  | _ => .ok none

/-- The turns of a loop over the entries of a traversal, each of which proves
some requirements or ends the loop. -/
def provedBy (turn : Json → Except GateError (Option (List RequiredCheck))) :
    List Json → Except GateError (Option (List RequiredCheck))
  | [] => .ok (some [])
  | entry :: rest =>
      match turn entry with
      | .error e => .error e
      | .ok none => .ok none
      | .ok (some matched) => (provedBy turn rest).map fun more => more.map (matched ++ ·)

/-- `_passing_check_run_requirements`. -/
def passingCheckRunRequirements (runs : List Json) :
    Except GateError (Option (List RequiredCheck)) :=
  provedBy (passingCheckRun ctx) runs

/-- `state not in _STATUS_STATES`; a list or a dictionary cannot be looked up. -/
def statusState? (state : Option Json) : Except GateError (Option Text) :=
  match state with
  | some (.str text) =>
      if text ∈ ["error", "failure", "pending", "success"] then .ok (some text.toList) else .ok none
  | some (.arr _) | some (.obj _) => .error .handled
  | _ => .ok none

/-- What one status says: nothing, an ignored context, or a row. -/
inductive StatusTurn
  | rejected
  | ignored
  | row (id : Int) (context : Text) (state updatedAt : Text)

/-- One turn of `_status_snapshot`, before it looks at the contexts seen. -/
def statusTurn (status : Json) : Except GateError StatusTurn :=
  match status with
  | .obj fields =>
      match positiveInt? (Json.get? (.obj fields) "id"),
          (Json.get? (.obj fields) "context").bind Json.asStr? with
      | some id, some context =>
          if context = "" then .ok .rejected
          else
            match statusState? (Json.get? (.obj fields) "state") with
            | .error e => .error e
            | .ok none => .ok .rejected
            | .ok (some state) =>
                if (Json.get? (.obj fields) "sha").bind Json.asStr?
                    ≠ some (String.ofList ctx.headSha) then .ok .rejected
                else if ctx.required.any (fun r => r.1 = context.toList) = false then .ok .ignored
                else
                  (currentEvidenceTimestamp ctx (Json.get? (.obj fields) "updated_at")).map
                    fun updatedAt =>
                      match updatedAt with
                      | none => .rejected
                      | some updatedAt => .row id context.toList state updatedAt
      | _, _ => .ok .rejected
  | _ => .ok .rejected

/-- One row of a commit-status snapshot. -/
abbrev StatusRow := Int × Text × Text × Text

/-- The turns of `_status_snapshot`: the rows and the requirements they match. -/
def statusRows : List Json → List Text →
    Except GateError (Option (List StatusRow × List RequiredCheck))
  | [], _ => .ok (some ([], []))
  | status :: rest, seen =>
      match statusTurn ctx status with
      | .error e => .error e
      | .ok .rejected => .ok none
      | .ok .ignored => statusRows rest seen
      | .ok (.row id context state updatedAt) =>
          if context ∈ seen then .ok none
          else if state ≠ "success".toList then .ok none
          else
            (statusRows rest (context :: seen)).map fun more => more.map fun (rows, matched) =>
              ((id, context, state, updatedAt) :: rows,
                (ctx.required.filter fun r => r = (context, none)) ++ matched)

/-- `_status_snapshot`. -/
def statusSnapshot (statuses : List Json) :
    Except GateError (Option (List StatusRow × List RequiredCheck)) :=
  (statusRows ctx statuses []).map fun result => result.map fun (rows, matched) =>
    (rows.insertionSort fun a b => a.1 ≤ b.1, matched)

end Evidence

/-! ## Traversals -/

/-- `_check_run_page`. -/
def checkRunPage (payload : Json) : Option (Int × List Json) :=
  match payload.get? "total_count", payload.get? "check_runs" with
  | some (.int total), some (.arr runs) => if total < 0 then none else some (total, runs)
  | _, _ => none

/-- `_status_page`. -/
def statusPage (headSha : Text) (payload : Json) : Option (Int × List Json) :=
  if (payload.get? "sha").bind Json.asStr? ≠ some (String.ofList headSha) then none
  else
    match payload.get? "total_count", payload.get? "statuses" with
    | some (.int total), some (.arr statuses) =>
        if total < 0 ∨ 100 < statuses.length then none else some (total, statuses)
    | _, _ => none

/-- The largest `total_count` of a traversal. -/
def maxTotalCount : Int := 2000

/-- The ids of a page, on top of those before it: each positive and new. -/
def addIds (ids : List Int) : List Json → Option (List Int)
  | [] => some ids
  | entry :: rest =>
      match positiveInt? (entry.get? "id") with
      | none => none
      | some id => if id ∈ ids then none else addIds (ids ++ [id]) rest

/-- The `total_count` of a page, against the one of the pages before. -/
def totalAdmitted (expected : Option Int) (total : Int) : Bool :=
  match expected with
  | none => total ≤ maxTotalCount
  | some expected => total = expected

/-- The checks on a page: the ids after it, or nothing. -/
def pageAdmitted (expected : Option Int) (total : Int) (entries page : List Json)
    (ids : List Int) : Option (List Int) :=
  if totalAdmitted expected total then
    match addIds ids page with
    | none => none
    | some ids =>
        if total < (entries ++ page).length ∨ (page = [] ∧ (entries ++ page).length < total) then none
        else some ids
  else none

section Traverse

variable (replies : Nat → PageReply) (readPage : Json → Option (Int × List Json))

/-- The next page. -/
def nextPage : GateStep PageReply := do
  let n ← get
  set (n + 1)
  pure (replies n)

/-- The condition of the loop is false. -/
def complete (expected : Option Int) (entries : List Json) : Bool :=
  match expected with
  | none => false
  | some expected => expected ≤ entries.length

/-- The loop of `_check_runs_for_head` and of `_statuses_for_head`. -/
def traverse : Nat → Option Int → List Json → List Int → GateStep (Option (List Json))
  | 0, _, _, _ => throw .outOfFuel
  | fuel + 1, expected, entries, ids =>
      if complete expected entries then pure (some entries)
      else do
        match ← nextPage replies with
        | .stopped => pure none
        | .raised isHandled => throw (if isHandled then .handled else .unhandled)
        | .page returncode payload =>
            if returncode ≠ 0 then throw .handled
            else
              match payload with
              | none => throw .handled
              | some payload =>
                  match readPage payload with
                  | none => pure none
                  | some (total, page) =>
                      match pageAdmitted expected total entries page ids with
                      | none => pure none
                      | some ids => traverse fuel (some total) (entries ++ page) ids

/-- A whole traversal; it takes a page for each entry at most, and one that says
how many there are. -/
def traversal : GateStep (Option (List Json)) :=
  traverse replies readPage 2002 none [] []

/-- The handlers around a read: what they catch counts as no result. -/
def caught {α : Type} (x : GateStep (Option α)) : GateStep (Option α) :=
  tryCatch x fun e => if e = .handled then pure none else throw e

end Traverse

section Gate

variable (ctx : GateContext) (replies : Nat → PageReply)

/-- `stable_passing_commit_status_requirements`. -/
def stablePassingCommitStatusRequirements : GateStep (Option (List RequiredCheck)) := do
  match ← traversal replies (statusPage ctx.headSha) with
  | none => pure none
  | some first =>
      match ← Command.attempt (statusSnapshot ctx first) with
      | none => pure none
      | some (firstRows, _) =>
          match ← traversal replies (statusPage ctx.headSha) with
          | none => pure none
          | some second =>
              match ← Command.attempt (statusSnapshot ctx second) with
              | none => pure none
              | some (rows, matched) => if rows = firstRows then pure (some matched) else pure none

/-- `(run_requirements | status_requirements) == required_checks`. -/
def coversExactly (runs statuses : List RequiredCheck) : Bool :=
  (runs ++ statuses).all (fun r => ctx.required.contains r)
    && ctx.required.all fun r => (runs ++ statuses).contains r

/-- Two Check Runs snapshots are equal. -/
def sameRows (a b : List RunRow) : Bool :=
  a.length = b.length && (a.zip b).all fun pair => pair.1.eq pair.2

/-- `required_checks_pass_for_head`, for a host that knows its repository. -/
def requiredChecksPassForHead : GateStep Bool :=
  if Text.isHexOfLength 40 ctx.headSha = false then pure false
  else do
    match ← caught (traversal replies checkRunPage) with
    | none => pure false
    | some first =>
        if ctx.required = [] then pure false
        else
          match ← Command.attempt (checkRunSnapshot ctx first) with
          | none => pure false
          | some firstRows =>
              match ← caught (traversal replies checkRunPage) with
              | none => pure false
              | some second =>
                  match ← Command.attempt (checkRunSnapshot ctx second) with
                  | none => pure false
                  | some rows =>
                      if sameRows rows firstRows = false then pure false
                      else
                        match ← Command.attempt (passingCheckRunRequirements ctx second) with
                        | none => pure false
                        | some runs =>
                            match ← caught (stablePassingCommitStatusRequirements ctx replies) with
                            | none => pure false
                            | some statuses => pure (coversExactly ctx runs statuses)

end Gate

end Hephaestus.Automation
