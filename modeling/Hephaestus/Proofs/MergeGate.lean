import Hephaestus.Automation.RequiredChecks

/-!
# What a passed merge gate has seen

The gate answers yes only at the end of four complete traversals. Each is a
segment of the pages, and the segments follow one another: `Traversed` is what
one loop has seen when it is through, by induction on its turns, and the gate
puts four of them together. The loop takes at least one entry a turn, which is
why it ends.

A Check Run counts by its name and its application, so the gate does not look at
a run of the same name from another application.
-/

namespace Hephaestus.Automation

open Hephaestus.Lib

variable {ctx : GateContext} {replies : Nat → PageReply}
  {readPage : Json → Option (Int × List Json)}

/-! ## Traversals -/

/-- The entries of a page. -/
def entriesAt (replies : Nat → PageReply) (readPage : Json → Option (Int × List Json))
    (k : Nat) : List Json :=
  match replies k with
  | .page 0 (some payload) => ((readPage payload).map Prod.snd).getD []
  | _ => []

/-- The pages from `n` up to `m` all say how many entries there are, and have them. -/
structure Traversed (replies : Nat → PageReply) (readPage : Json → Option (Int × List Json))
    (n m : Nat) (entries : List Json) : Prop where
  nonempty : n < m
  entries_eq : entries = (List.range' n (m - n)).flatMap (entriesAt replies readPage)
  counts : ∀ k, n ≤ k → k < m → ∃ payload page,
    replies k = .page 0 (some payload) ∧ readPage payload = some ((entries.length : Int), page)
  ids : ∃ ids : List Int, entries.map (fun e => positiveInt? (e.get? "id")) = ids.map some
    ∧ ids.Nodup ∧ ∀ id ∈ ids, 0 < id

/-- What the loop has seen between two turns. -/
structure Traversing (replies : Nat → PageReply) (readPage : Json → Option (Int × List Json))
    (n k fuel : Nat) (expected : Option Int) (entries : List Json) (ids : List Int) : Prop where
  started : n ≤ k
  entries_eq : entries = (List.range' n (k - n)).flatMap (entriesAt replies readPage)
  ids_eq : entries.map (fun e => positiveInt? (e.get? "id")) = ids.map some
  distinct : ids.Nodup
  positive : ∀ id ∈ ids, 0 < id
  fresh : expected = none → k = n ∧ 2002 ≤ fuel
  counted : ∀ total, expected = some total → n < k ∧ (entries.length : Int) ≤ total
    ∧ total - entries.length < fuel
    ∧ ∀ j, n ≤ j → j < k → ∃ payload page,
      replies j = .page 0 (some payload) ∧ readPage payload = some (total, page)

theorem positiveInt?_pos {value : Option Json} {n : Int} (h : positiveInt? value = some n) :
    0 < n := by
  unfold positiveInt? at h
  split at h
  · split at h
    · next hpos =>
      cases h
      exact hpos
    · cases h
  · cases h

theorem addIds_some {page : List Json} {ids ids' : List Int} (h : addIds ids page = some ids')
    (hdistinct : ids.Nodup) (hpositive : ∀ id ∈ ids, 0 < id) :
    ids'.Nodup ∧ (∀ id ∈ ids', 0 < id) ∧ ∃ more, ids' = ids ++ more
      ∧ page.map (fun e => positiveInt? (e.get? "id")) = more.map some := by
  induction page generalizing ids with
  | nil =>
      cases h
      exact ⟨hdistinct, hpositive, [], (List.append_nil _).symm, rfl⟩
  | cons entry page ih =>
      rw [addIds] at h
      split at h
      · cases h
      next id hid =>
      split at h
      · cases h
      next hnew =>
      have hdistinct' : (ids ++ [id]).Nodup := by
        rw [List.nodup_append]
        refine ⟨hdistinct, List.nodup_singleton id, fun a ha b hb heq => ?_⟩
        rw [List.mem_singleton.mp hb] at heq
        exact hnew (heq ▸ ha)
      have hpositive' : ∀ i ∈ ids ++ [id], 0 < i := by
        intro i hi
        rcases List.mem_append.mp hi with hi | hi
        · exact hpositive i hi
        · rw [List.mem_singleton.mp hi]
          exact positiveInt?_pos hid
      obtain ⟨hd, hp, more, hmore, hmap⟩ := ih h hdistinct' hpositive'
      refine ⟨hd, hp, id :: more, ?_, ?_⟩
      · rw [hmore, List.append_assoc, List.singleton_append]
      · rw [List.map_cons, List.map_cons, hid, hmap]

theorem pageAdmitted_some {expected : Option Int} {total : Int} {entries page : List Json}
    {ids ids' : List Int} (h : pageAdmitted expected total entries page ids = some ids') :
    totalAdmitted expected total = true ∧ addIds ids page = some ids'
      ∧ ((entries ++ page).length : Int) ≤ total
      ∧ (page = [] → total ≤ ((entries ++ page).length : Int)) := by
  unfold pageAdmitted at h
  split at h
  · next htotal =>
    split at h
    · cases h
    · next ids'' hadd =>
      split at h
      · cases h
      · next hlength =>
        cases h
        rw [not_or, not_and, Int.not_lt, Int.not_lt] at hlength
        exact ⟨htotal, hadd, hlength.1, hlength.2⟩
  · cases h

/-- One page more. -/
theorem Traversing.page {n k fuel : Nat} {expected : Option Int} {entries page : List Json}
    {ids ids' : List Int} {payload : Json} {total : Int}
    (h : Traversing replies readPage n k (fuel + 1) expected entries ids)
    (hincomplete : complete expected entries = false)
    (hreply : replies k = .page 0 (some payload)) (hread : readPage payload = some (total, page))
    (hadmitted : pageAdmitted expected total entries page ids = some ids') :
    Traversing replies readPage n (k + 1) fuel (some total) (entries ++ page) ids' := by
  obtain ⟨htotal, hadd, hlength, hprogress⟩ := pageAdmitted_some hadmitted
  obtain ⟨hdistinct, hpositive, more, hmore, hmap⟩ := addIds_some hadd h.distinct h.positive
  have hentries : entriesAt replies readPage k = page := by
    simp only [entriesAt, hreply, hread, Option.map_some, Option.getD_some]
  have hrange : k + 1 - n = (k - n) + 1 := by
    have := h.started
    omega
  have hlast : n + 1 * (k - n) = k := by
    have := h.started
    omega
  refine ⟨Nat.le_succ_of_le h.started, ?_, ?_, hdistinct, hpositive,
    fun hnone => absurd hnone (Option.some_ne_none total), ?_⟩
  · rw [hrange, List.range'_concat, List.flatMap_append, ← h.entries_eq, hlast,
      List.flatMap_singleton, hentries]
  · rw [List.map_append, h.ids_eq, hmap, hmore, List.map_append]
  · intro total' htotal'
    cases htotal'
    refine ⟨Nat.lt_succ_of_le h.started, hlength, ?_, ?_⟩
    · rw [List.length_append] at hlength hprogress ⊢
      cases expected with
      | none =>
          obtain ⟨-, hfuel⟩ := h.fresh rfl
          have hmax : total ≤ maxTotalCount := of_decide_eq_true htotal
          unfold maxTotalCount at hmax
          push_cast at hlength ⊢
          omega
      | some total' =>
          have hsame : total = total' := of_decide_eq_true htotal
          obtain ⟨-, -, hfuel, -⟩ := h.counted total' rfl
          have hless : ¬ total' ≤ (entries.length : Int) := of_decide_eq_false hincomplete
          have hpage : page ≠ [] := by
            intro hnil
            have hle := hprogress hnil
            rw [hnil] at hle
            push_cast [List.length_nil] at hle
            omega
          have hpos := List.length_pos_of_ne_nil hpage
          push_cast at hlength hfuel ⊢
          omega
    · intro j hj hlt
      rcases Nat.lt_succ_iff_lt_or_eq.mp hlt with hlt | rfl
      · cases expected with
        | none =>
            obtain ⟨rfl, -⟩ := h.fresh rfl
            omega
        | some total' =>
            have hsame : total = total' := of_decide_eq_true htotal
            rw [hsame]
            exact (h.counted total' rfl).2.2.2 j hj hlt
      · exact ⟨payload, page, hreply, hread⟩

/-- How a read may raise: a loop does not run out of turns, and what nothing
catches was raised by a call. -/
def RaisedBy (replies : Nat → PageReply) (e : GateError) : Prop :=
  e ≠ .outOfFuel ∧ (e = .unhandled → ∃ k, replies k = .raised false)

theorem wp_traverse {n : Nat} {fuel : Nat} {expected : Option Int} {entries : List Json}
    {ids : List Int} {k : Nat} (h : Traversing replies readPage n k fuel expected entries ids) :
    (traverse replies readPage fuel expected entries ids).wp
      (fun result m => ∀ entries, result = some entries → Traversed replies readPage n m entries)
      (fun e _ => RaisedBy replies e) k := by
  induction fuel generalizing expected entries ids k with
  | zero =>
      cases expected with
      | none =>
          have := (h.fresh rfl).2
          omega
      | some total =>
          obtain ⟨-, hle, hlt, -⟩ := h.counted total rfl
          push_cast at hlt
          omega
  | succ fuel ih =>
      rw [traverse]
      cases hcomplete : complete expected entries with
      | true =>
          rw [if_pos rfl]
          intro entries' hentries
          cases hentries
          cases expected with
          | none => cases hcomplete
          | some total =>
              obtain ⟨hlt, hle, -, hcounts⟩ := h.counted total rfl
              have hge : total ≤ (entries.length : Int) := of_decide_eq_true hcomplete
              have htotal : total = entries.length := le_antisymm hge hle
              rw [htotal] at hcounts
              exact ⟨hlt, h.entries_eq, hcounts, ids, h.ids_eq, h.distinct, h.positive⟩
      | false =>
          rw [if_neg Bool.false_ne_true]
          simp only [nextPage, Command.wp_bind, Command.wp_get, Command.wp_set, Command.wp_pure]
          cases hreply : replies k with
          | stopped =>
              intro entries' hentries
              cases hentries
          | raised isHandled =>
              cases isHandled with
              | true => exact ⟨by decide, fun hu => by cases hu⟩
              | false => exact ⟨by decide, fun _ => ⟨k, hreply⟩⟩
          | page returncode payload =>
              simp only
              split
              · exact ⟨by decide, fun hu => by cases hu⟩
              next hcode =>
              rw [not_not] at hcode
              subst hcode
              cases payload with
              | none => exact ⟨by decide, fun hu => by cases hu⟩
              | some payload =>
                  simp only
                  split
                  · intro entries' hentries
                    cases hentries
                  · next total page hread =>
                    split
                    · intro entries' hentries
                      cases hentries
                    · next ids' hadmitted =>
                      exact ih (h.page hcomplete hreply hread hadmitted)

theorem wp_traversal {n : Nat} :
    (traversal replies readPage).wp
      (fun result m => ∀ entries, result = some entries → Traversed replies readPage n m entries)
      (fun e _ => RaisedBy replies e) n := by
  refine wp_traverse ⟨le_refl n, ?_, rfl, List.nodup_nil, fun _ h => absurd h List.not_mem_nil,
    fun _ => ⟨rfl, le_refl _⟩, fun _ h => absurd h.symm (Option.some_ne_none _)⟩
  rw [Nat.sub_self]
  rfl

/-! ## Evidence -/

/-- A Check Run counts for a requirement: it has the name, and the application
where the requirement is bound to one. -/
def Matches (r : RequiredCheck) (run : Json) : Prop :=
  (run.get? "name").bind Json.asStr? = some (String.ofList r.1)
    ∧ (r.2 = none ∨ (checkRunAppId run).isSome = true ∧ r.2 = checkRunAppId run)

/-- A time of evidence that is not after now and not older than seven days. -/
def CurrentEvidence (ctx : GateContext) (value : Option Json) : Prop :=
  ∃ text micros offset, value = some (.str text)
    ∧ ctx.fromisoformat (replaceZulu text.toList) = .aware micros offset
    ∧ micros - offset ≤ ctx.nowUtc ∧ ctx.nowUtc - maxStatusAge ≤ micros - offset

/-- A time of evidence that `datetime` cannot convert to UTC. -/
def Overflows (ctx : GateContext) (value : Option Json) : Prop :=
  ∃ text micros offset, value = some (.str text)
    ∧ ctx.fromisoformat (replaceZulu text.toList) = .aware micros offset
    ∧ (micros - offset < 0 ∨ maxMicros < micros - offset)

theorem currentEvidence_some {value : Option Json} {t : Text}
    (h : currentEvidenceTimestamp ctx value = .ok (some t)) : CurrentEvidence ctx value := by
  unfold currentEvidenceTimestamp at h
  split at h
  · next text =>
    split at h
    · cases h
    split at h
    · cases h
    · cases h
    · next micros offset hparsed =>
      simp only at h
      split at h
      · cases h
      split at h
      · cases h
      · next hcurrent =>
        rw [not_or, Int.not_lt, Int.not_lt] at hcurrent
        exact ⟨text, micros, offset, rfl, hparsed, hcurrent.1, hcurrent.2⟩
  · cases h

theorem currentEvidence_error {value : Option Json} {e : GateError}
    (h : currentEvidenceTimestamp ctx value = .error e) :
    e = .unhandled ∧ Overflows ctx value := by
  unfold currentEvidenceTimestamp at h
  split at h
  · next text =>
    split at h
    · cases h
    split at h
    · cases h
    · cases h
    · next micros offset hparsed =>
      simp only at h
      split at h
      · next hrange =>
        cases h
        exact ⟨rfl, text, micros, offset, rfl, hparsed, hrange⟩
      split at h
      · cases h
      · cases h
  · cases h

theorem mem_checkRunRequiredMatches {run : Json} {matched : List RequiredCheck}
    (h : checkRunRequiredMatches ctx run = some matched) (r : RequiredCheck) :
    r ∈ matched ↔ r ∈ ctx.required ∧ Matches r run := by
  unfold checkRunRequiredMatches at h
  split at h
  · cases h
  next name hname =>
  have hsame : some name = some (String.ofList r.1) ↔ r.1 = name.toList := by
    rw [Option.some.injEq]
    constructor
    · rintro rfl
      exact String.toList_ofList.symm
    · intro heq
      rw [heq, String.ofList_toList]
  rw [Matches, hname, hsame]
  simp only at h
  split at h
  · next hunbound =>
    cases h
    rw [List.mem_filter, decide_eq_true_eq]
    constructor
    · rintro ⟨hr, heq⟩
      have hnone := List.all_eq_true.mp hunbound r
        (List.mem_filter.mpr ⟨hr, decide_eq_true heq⟩)
      exact ⟨hr, heq, Or.inl (of_decide_eq_true hnone)⟩
    · rintro ⟨hr, heq, -⟩
      exact ⟨hr, heq⟩
  · split at h
    · cases h
    · next appId happ =>
      cases h
      simp only [List.mem_filter, decide_eq_true_eq, happ, Option.isSome_some, true_and, and_assoc]

/-- A Check Run that passes: at the head, completed, successful and current. -/
structure PassingRun (ctx : GateContext) (run : Json) : Prop where
  head : (run.get? "head_sha").bind Json.asStr? = some (String.ofList ctx.headSha)
  completed : lowerField ctx run "status" = "completed".toList
  conclusion : lowerField ctx run "conclusion" ∈ checkSuccessConclusions
  current : CurrentEvidence ctx (run.get? "completed_at")

theorem passingCheckRun_some {run : Json} {matched : List RequiredCheck}
    (h : passingCheckRun ctx run = .ok (some matched)) :
    (∀ r, r ∈ matched ↔ r ∈ ctx.required ∧ Matches r run)
      ∧ ((∃ r ∈ ctx.required, Matches r run) → PassingRun ctx run) := by
  unfold passingCheckRun at h
  split at h
  · split at h
    · cases h
    · next hmatches =>
      cases h
      have hnone := mem_checkRunRequiredMatches hmatches
      refine ⟨hnone, ?_⟩
      rintro ⟨r, hr, hm⟩
      exact absurd ((hnone r).mpr ⟨hr, hm⟩) List.not_mem_nil
    · next matched' _ hmatches =>
      split at h
      · cases h
      split at h
      · cases h
      next hhead =>
      split at h
      · cases h
      next hstatus =>
      rw [not_not] at hhead
      rw [not_or, not_not, not_not] at hstatus
      cases htime : currentEvidenceTimestamp ctx (Json.get? (.obj _) "completed_at") with
      | error e =>
          rw [htime] at h
          cases h
      | ok completedAt =>
          rw [htime] at h
          cases completedAt with
          | none => cases h
          | some completedAt =>
              cases h
              exact ⟨mem_checkRunRequiredMatches hmatches, fun _ =>
                ⟨hhead, hstatus.1, hstatus.2, currentEvidence_some htime⟩⟩
  · cases h

theorem passingCheckRun_error {run : Json} {e : GateError}
    (h : passingCheckRun ctx run = .error e) :
    e = .unhandled ∧ Overflows ctx (run.get? "completed_at") := by
  unfold passingCheckRun at h
  split at h
  · split at h
    · cases h
    · cases h
    · split at h
      · cases h
      split at h
      · cases h
      split at h
      · cases h
      cases htime : currentEvidenceTimestamp ctx (Json.get? (.obj _) "completed_at") with
      | error e' =>
          rw [htime] at h
          cases h
          exact currentEvidence_error htime
      | ok completedAt =>
          rw [htime] at h
          cases h
  · cases h

/-- What a loop over the entries proved, its turns proved. -/
theorem provedBy_some {turn : Json → Except GateError (Option (List RequiredCheck))}
    {entries : List Json} {all : List RequiredCheck} (h : provedBy turn entries = .ok (some all)) :
    (∀ e ∈ entries, ∃ matched, turn e = .ok (some matched))
      ∧ ∀ r ∈ all, ∃ e ∈ entries, ∃ matched, turn e = .ok (some matched) ∧ r ∈ matched := by
  induction entries generalizing all with
  | nil =>
      cases h
      exact ⟨fun _ he => absurd he List.not_mem_nil, fun _ hr => absurd hr List.not_mem_nil⟩
  | cons entry entries ih =>
      rw [provedBy] at h
      split at h
      · cases h
      · cases h
      · next matched hturn =>
        cases hrest : provedBy turn entries with
        | error e =>
            rw [hrest] at h
            cases h
        | ok more =>
            rw [hrest] at h
            cases more with
            | none => cases h
            | some more =>
                cases h
                obtain ⟨hturns, hproved⟩ := ih hrest
                refine ⟨List.forall_mem_cons.mpr ⟨⟨matched, hturn⟩, hturns⟩, fun r hr => ?_⟩
                rcases List.mem_append.mp hr with hr | hr
                · exact ⟨entry, List.mem_cons_self, matched, hturn, hr⟩
                · obtain ⟨e, he, found⟩ := hproved r hr
                  exact ⟨e, List.mem_cons_of_mem _ he, found⟩

theorem provedBy_error {turn : Json → Except GateError (Option (List RequiredCheck))}
    {entries : List Json} {e : GateError} (h : provedBy turn entries = .error e) :
    ∃ entry ∈ entries, turn entry = .error e := by
  induction entries with
  | nil => cases h
  | cons entry entries ih =>
      rw [provedBy] at h
      split at h
      · next e' hturn =>
        cases h
        exact ⟨entry, List.mem_cons_self, hturn⟩
      · cases h
      · cases hrest : provedBy turn entries with
        | error e' =>
            rw [hrest] at h
            cases h
            obtain ⟨entry', hmem, hturn⟩ := ih hrest
            exact ⟨entry', List.mem_cons_of_mem _ hmem, hturn⟩
        | ok more =>
            rw [hrest] at h
            cases h

theorem checkRunRows_error {runs : List Json} {identities : List (String × Int)} {e : GateError}
    (h : checkRunRows ctx runs identities = .error e) :
    e = .unhandled ∧ ∃ run ∈ runs, Overflows ctx (run.get? "completed_at") := by
  induction runs generalizing identities with
  | nil => cases h
  | cons run runs ih =>
      have hlater : (e = .unhandled ∧ ∃ run ∈ runs, Overflows ctx (run.get? "completed_at")) →
          e = .unhandled ∧ ∃ run' ∈ run :: runs, Overflows ctx (run'.get? "completed_at") := by
        rintro ⟨he, run', hmem, hover⟩
        exact ⟨he, run', List.mem_cons_of_mem _ hmem, hover⟩
      cases run with
      | obj fields =>
          simp only [checkRunRows] at h
          split at h
          · cases h
          · exact hlater (ih h)
          · split at h
            · split at h
              · cases h
              split at h
              · next e' htime =>
                cases h
                obtain ⟨he, hover⟩ := currentEvidence_error htime
                exact ⟨he, _, List.mem_cons_self, hover⟩
              · cases h
              · next appId _ name _ _ _ _ _ _ _ =>
                cases hrest : checkRunRows ctx runs ((name, appId) :: identities) with
                | error e' =>
                    rw [hrest] at h
                    cases h
                    exact hlater (ih hrest)
                | ok rows =>
                    rw [hrest] at h
                    cases h
            · cases h
      | _ => cases h

theorem checkRunSnapshot_error {runs : List Json} {e : GateError}
    (h : checkRunSnapshot ctx runs = .error e) :
    e = .unhandled ∧ ∃ run ∈ runs, Overflows ctx (run.get? "completed_at") := by
  unfold checkRunSnapshot at h
  cases hrows : checkRunRows ctx runs [] with
  | error e' =>
      rw [hrows] at h
      cases h
      exact checkRunRows_error hrows
  | ok rows =>
      rw [hrows] at h
      cases h

/-- What a row says of its Check Run. -/
structure RowOf (ctx : GateContext) (run : Json) (row : RunRow) : Prop where
  status : row.status = lowerField ctx run "status"
  conclusion : row.conclusion = lowerField ctx run "conclusion"
  headSha : row.headSha = (run.get? "head_sha").getD .null
  current : CurrentEvidence ctx (run.get? "completed_at")
  required : ∃ r ∈ ctx.required, Matches r run

/-- The rows are those of the Check Runs that count. -/
theorem checkRunRows_some {runs : List Json} {identities : List (String × Int)}
    {rows : List RunRow} (h : checkRunRows ctx runs identities = .ok (some rows)) :
    (∀ run ∈ runs, (∃ r ∈ ctx.required, Matches r run) → ∃ row ∈ rows, RowOf ctx run row)
      ∧ ∀ row ∈ rows, ∃ run ∈ runs, RowOf ctx run row := by
  induction runs generalizing identities rows with
  | nil =>
      cases h
      exact ⟨fun _ hr => absurd hr List.not_mem_nil, fun _ hr => absurd hr List.not_mem_nil⟩
  | cons run runs ih =>
      cases run with
      | obj fields =>
          simp only [checkRunRows] at h
          split at h
          · cases h
          · next hmatches =>
            obtain ⟨hrows, hruns⟩ := ih h
            refine ⟨List.forall_mem_cons.mpr ⟨?_, hrows⟩, fun row hrow => ?_⟩
            · rintro ⟨r, hr, hm⟩
              exact absurd ((mem_checkRunRequiredMatches hmatches r).mpr ⟨hr, hm⟩)
                List.not_mem_nil
            · obtain ⟨run, hrun, hof⟩ := hruns row hrow
              exact ⟨run, List.mem_cons_of_mem _ hrun, hof⟩
          · next matched hne hmatches =>
            have hrequired : ∃ r ∈ ctx.required, Matches r (.obj fields) := by
              obtain ⟨r, hr⟩ := List.exists_mem_of_ne_nil matched hne
              have hboth := (mem_checkRunRequiredMatches hmatches r).mp hr
              exact ⟨r, hboth.1, hboth.2⟩
            split at h
            · next appId id name _ _ _ =>
              split at h
              · cases h
              split at h
              · cases h
              · cases h
              · next completedAt htime =>
                cases hrest : checkRunRows ctx runs ((name, appId) :: identities) with
                | error e =>
                    rw [hrest] at h
                    cases h
                | ok more =>
                    rw [hrest] at h
                    cases more with
                    | none => cases h
                    | some more =>
                        cases h
                        obtain ⟨hrows, hruns⟩ := ih hrest
                        have hof : ∀ row : RunRow, row.status = lowerField ctx (.obj fields) "status" →
                            row.conclusion = lowerField ctx (.obj fields) "conclusion" →
                            row.headSha = ((Json.obj fields).get? "head_sha").getD .null →
                            RowOf ctx (.obj fields) row :=
                          fun row hs hc hh => ⟨hs, hc, hh, currentEvidence_some htime, hrequired⟩
                        refine ⟨List.forall_mem_cons.mpr ⟨fun _ =>
                          ⟨_, List.mem_cons_self, hof _ rfl rfl rfl⟩, fun run hrun hm => ?_⟩,
                          List.forall_mem_cons.mpr ⟨⟨_, List.mem_cons_self, hof _ rfl rfl rfl⟩,
                            fun row hrow => ?_⟩⟩
                        · obtain ⟨row, hrow, hof⟩ := hrows run hrun hm
                          exact ⟨row, List.mem_cons_of_mem _ hrow, hof⟩
                        · obtain ⟨run, hrun, hof⟩ := hruns row hrow
                          exact ⟨run, List.mem_cons_of_mem _ hrun, hof⟩
            · cases h
      | _ => cases h

theorem checkRunSnapshot_some {runs : List Json} {rows : List RunRow}
    (h : checkRunSnapshot ctx runs = .ok (some rows)) :
    (∀ run ∈ runs, (∃ r ∈ ctx.required, Matches r run) → ∃ row ∈ rows, RowOf ctx run row)
      ∧ ∀ row ∈ rows, ∃ run ∈ runs, RowOf ctx run row := by
  unfold checkRunSnapshot at h
  cases hrows : checkRunRows ctx runs [] with
  | error e =>
      rw [hrows] at h
      cases h
  | ok result =>
      rw [hrows] at h
      cases result with
      | none => cases h
      | some result =>
          cases h
          obtain ⟨hruns, hback⟩ := checkRunRows_some hrows
          have hmem : ∀ row, row ∈ result.insertionSort (fun a b => a.id ≤ b.id) ↔ row ∈ result :=
            fun row => (List.perm_insertionSort _ result).mem_iff
          refine ⟨fun run hrun hm => ?_, fun row hrow => hback row ((hmem row).mp hrow)⟩
          obtain ⟨row, hrow, hof⟩ := hruns run hrun hm
          exact ⟨row, (hmem row).mpr hrow, hof⟩

theorem sameRows_mem {a b : List RunRow} (h : sameRows a b = true) :
    ∀ y ∈ b, ∃ x ∈ a, x.eq y = true := by
  induction b generalizing a with
  | nil => exact fun _ hy => absurd hy List.not_mem_nil
  | cons y b ih =>
      cases a with
      | nil => simp [sameRows] at h
      | cons x a =>
          simp only [sameRows, List.length_cons, Nat.add_right_cancel_iff, List.zip_cons_cons,
            List.all_cons, Bool.and_eq_true, decide_eq_true_eq] at h
          refine List.forall_mem_cons.mpr ⟨⟨x, List.mem_cons_self, h.2.1⟩, fun z hz => ?_⟩
          have hrest : sameRows a b = true := by
            rw [sameRows, Bool.and_eq_true, decide_eq_true_eq]
            exact ⟨h.1, h.2.2⟩
          obtain ⟨x', hx', heq⟩ := ih hrest z hz
          exact ⟨x', List.mem_cons_of_mem _ hx', heq⟩

/-- What the second traversal proves of its Check Runs holds of those of the first. -/
theorem passingRun_of_sameRows {runs runs' : List Json} {rows rows' : List RunRow}
    (hrows : checkRunSnapshot ctx runs = .ok (some rows))
    (hrows' : checkRunSnapshot ctx runs' = .ok (some rows')) (hsame : sameRows rows' rows = true)
    (hpassing : ∀ run ∈ runs', (∃ r ∈ ctx.required, Matches r run) → PassingRun ctx run) :
    ∀ run ∈ runs, (∃ r ∈ ctx.required, Matches r run) → PassingRun ctx run := by
  intro run hrun hrequired
  obtain ⟨row, hrow, hof⟩ := (checkRunSnapshot_some hrows).1 run hrun hrequired
  obtain ⟨row', hrow', heq⟩ := sameRows_mem hsame row hrow
  obtain ⟨run', hrun', hof'⟩ := (checkRunSnapshot_some hrows').2 row' hrow'
  have hpass := hpassing run' hrun' hof'.required
  simp only [RunRow.eq, Bool.and_eq_true, decide_eq_true_eq] at heq
  obtain ⟨⟨⟨⟨-, hstatus⟩, hconclusion⟩, hhead⟩, -⟩ := heq.1
  refine ⟨?_, ?_, ?_, hof.current⟩
  · have hstr : row'.headSha = .str (String.ofList ctx.headSha) := by
      have hbind := hpass.head
      rw [hof'.headSha]
      cases hget : run'.get? "head_sha" with
      | none =>
          rw [hget] at hbind
          cases hbind
      | some value =>
          rw [hget] at hbind
          cases value with
          | str text =>
              cases hbind
              rfl
          | _ => cases hbind
    rw [hstr] at hhead
    have hvalue := Json.str_eq_iff.mp hhead
    rw [hof.headSha] at hvalue
    cases hget : run.get? "head_sha" with
    | none =>
        rw [hget] at hvalue
        cases hvalue
    | some value =>
        rw [hget] at hvalue
        rw [show value = .str (String.ofList ctx.headSha) from hvalue]
        rfl
  · rw [← hof.status, ← hstatus, hof'.status]
    exact hpass.completed
  · rw [← hof.conclusion, ← hconclusion, hof'.conclusion]
    exact hpass.conclusion

/-- A status is about the context of a requirement. -/
def HasContext (r : RequiredCheck) (status : Json) : Prop :=
  (status.get? "context").bind Json.asStr? = some (String.ofList r.1)

/-- A commit status that passes: successful and current. -/
structure PassingStatus (ctx : GateContext) (status : Json) : Prop where
  success : (status.get? "state").bind Json.asStr? = some "success"
  current : CurrentEvidence ctx (status.get? "updated_at")

theorem statusState?_some {state : Option Json} {text : Text}
    (h : statusState? state = .ok (some text)) :
    state.bind Json.asStr? = some (String.ofList text) := by
  unfold statusState? at h
  split at h
  · split at h
    · cases h
      rw [Option.bind_some, Json.asStr?, String.ofList_toList]
    · cases h
  · cases h
  · cases h
  · cases h

theorem statusTurn_row {status : Json} {id : Int} {context state updatedAt : Text}
    (h : statusTurn ctx status = .ok (.row id context state updatedAt)) :
    (status.get? "context").bind Json.asStr? = some (String.ofList context)
      ∧ (status.get? "state").bind Json.asStr? = some (String.ofList state)
      ∧ CurrentEvidence ctx (status.get? "updated_at") := by
  cases status with
  | obj fields =>
      simp only [statusTurn] at h
      split at h
      · next id' context' _ hcontext =>
        split at h
        · cases h
        split at h
        · cases h
        · cases h
        · next state' hstate =>
          split at h
          · cases h
          split at h
          · cases h
          cases htime : currentEvidenceTimestamp ctx (Json.get? (.obj fields) "updated_at") with
          | error e =>
              rw [htime] at h
              cases h
          | ok updated =>
              rw [htime] at h
              cases updated with
              | none => cases h
              | some updated =>
                  cases h
                  rw [hcontext, statusState?_some hstate, String.ofList_toList]
                  exact ⟨rfl, rfl, currentEvidence_some htime⟩
      · cases h
  | _ => cases h

theorem statusTurn_ignored {status : Json} (h : statusTurn ctx status = .ok .ignored) :
    ∀ r ∈ ctx.required, ¬ HasContext r status := by
  cases status with
  | obj fields =>
      simp only [statusTurn] at h
      split at h
      · next id context _ hcontext =>
        split at h
        · cases h
        split at h
        · cases h
        · cases h
        · split at h
          · cases h
          split at h
          · next hnone =>
            intro r hr hhas
            rw [HasContext, hcontext] at hhas
            cases hhas
            have hany := List.any_eq_false.mp hnone r hr
            rw [String.toList_ofList] at hany
            exact hany (decide_eq_true rfl)
          cases htime : currentEvidenceTimestamp ctx (Json.get? (.obj fields) "updated_at") with
          | error e =>
              rw [htime] at h
              cases h
          | ok updated =>
              rw [htime] at h
              cases updated with
              | none => cases h
              | some updated => cases h
      · cases h
  | _ => cases h

theorem statusTurn_error {status : Json} {e : GateError} (h : statusTurn ctx status = .error e) :
    e = .handled ∨ (e = .unhandled ∧ Overflows ctx (status.get? "updated_at")) := by
  cases status with
  | obj fields =>
      simp only [statusTurn] at h
      split at h
      · split at h
        · cases h
        split at h
        · next e' hstate =>
          cases h
          left
          unfold statusState? at hstate
          split at hstate
          · split at hstate
            · cases hstate
            · cases hstate
          · cases hstate
            rfl
          · cases hstate
            rfl
          · cases hstate
        · cases h
        · split at h
          · cases h
          split at h
          · cases h
          cases htime : currentEvidenceTimestamp ctx (Json.get? (.obj fields) "updated_at") with
          | error e' =>
              rw [htime] at h
              cases h
              exact Or.inr (currentEvidence_error htime)
          | ok updated =>
              rw [htime] at h
              cases h
      · cases h
  | _ => cases h

theorem statusRows_some {statuses : List Json} {seen : List Text} {rows : List StatusRow}
    {matched : List RequiredCheck} (h : statusRows ctx statuses seen = .ok (some (rows, matched))) :
    (∀ status ∈ statuses, (∃ r ∈ ctx.required, HasContext r status) → PassingStatus ctx status)
      ∧ ∀ r ∈ matched, r.2 = none ∧ ∃ status ∈ statuses, HasContext r status := by
  induction statuses generalizing seen rows matched with
  | nil =>
      cases h
      exact ⟨fun _ hs => absurd hs List.not_mem_nil, fun _ hr => absurd hr List.not_mem_nil⟩
  | cons status statuses ih =>
      rw [statusRows] at h
      split at h
      · cases h
      · cases h
      · next hturn =>
        obtain ⟨hpassing, hmatched⟩ := ih h
        refine ⟨List.forall_mem_cons.mpr ⟨?_, hpassing⟩, fun r hr => ?_⟩
        · rintro ⟨r, hr, hhas⟩
          exact absurd hhas (statusTurn_ignored hturn r hr)
        · obtain ⟨hnone, status', hmem, hhas⟩ := hmatched r hr
          exact ⟨hnone, status', List.mem_cons_of_mem _ hmem, hhas⟩
      · next id context state updatedAt hturn =>
        split at h
        · cases h
        split at h
        · cases h
        next hsuccess =>
        rw [not_not] at hsuccess
        obtain ⟨hcontext, hstate, hcurrent⟩ := statusTurn_row hturn
        rw [hsuccess] at hstate
        cases hrest : statusRows ctx statuses (context :: seen) with
        | error e =>
            rw [hrest] at h
            cases h
        | ok more =>
            rw [hrest] at h
            cases more with
            | none => cases h
            | some more =>
                cases h
                obtain ⟨hpassing, hmatched⟩ := ih hrest
                refine ⟨List.forall_mem_cons.mpr ⟨fun _ => ⟨hstate, hcurrent⟩, hpassing⟩,
                  fun r hr => ?_⟩
                rcases List.mem_append.mp hr with hr | hr
                · have heq : r = (context, none) := of_decide_eq_true (List.mem_filter.mp hr).2
                  rw [heq]
                  exact ⟨rfl, status, List.mem_cons_self, hcontext⟩
                · obtain ⟨hnone, status', hmem, hhas⟩ := hmatched r hr
                  exact ⟨hnone, status', List.mem_cons_of_mem _ hmem, hhas⟩

theorem statusRows_error {statuses : List Json} {seen : List Text} {e : GateError}
    (h : statusRows ctx statuses seen = .error e) :
    e = .handled ∨ (e = .unhandled
      ∧ ∃ status ∈ statuses, Overflows ctx (status.get? "updated_at")) := by
  induction statuses generalizing seen with
  | nil => cases h
  | cons status statuses ih =>
      have hlater : (e = .handled ∨ (e = .unhandled
            ∧ ∃ status ∈ statuses, Overflows ctx (status.get? "updated_at"))) →
          e = .handled ∨ (e = .unhandled
            ∧ ∃ status' ∈ status :: statuses, Overflows ctx (status'.get? "updated_at")) := by
        rintro (he | ⟨he, status', hmem, hover⟩)
        · exact Or.inl he
        · exact Or.inr ⟨he, status', List.mem_cons_of_mem _ hmem, hover⟩
      rw [statusRows] at h
      split at h
      · next e' hturn =>
        cases h
        rcases statusTurn_error hturn with he | ⟨he, hover⟩
        · exact Or.inl he
        · exact Or.inr ⟨he, status, List.mem_cons_self, hover⟩
      · cases h
      · exact hlater (ih h)
      · next id context state updatedAt _ =>
        split at h
        · cases h
        split at h
        · cases h
        cases hrest : statusRows ctx statuses (context :: seen) with
        | error e' =>
            rw [hrest] at h
            cases h
            exact hlater (ih hrest)
        | ok more =>
            rw [hrest] at h
            cases h

theorem statusSnapshot_some {statuses : List Json} {rows : List StatusRow}
    {matched : List RequiredCheck} (h : statusSnapshot ctx statuses = .ok (some (rows, matched))) :
    ∃ rows', statusRows ctx statuses [] = .ok (some (rows', matched)) := by
  unfold statusSnapshot at h
  cases hrows : statusRows ctx statuses [] with
  | error e =>
      rw [hrows] at h
      cases h
  | ok result =>
      rw [hrows] at h
      cases result with
      | none => cases h
      | some result =>
          cases h
          exact ⟨_, rfl⟩

theorem statusSnapshot_error {statuses : List Json} {e : GateError}
    (h : statusSnapshot ctx statuses = .error e) :
    e = .handled ∨ (e = .unhandled
      ∧ ∃ status ∈ statuses, Overflows ctx (status.get? "updated_at")) := by
  unfold statusSnapshot at h
  cases hrows : statusRows ctx statuses [] with
  | error e' =>
      rw [hrows] at h
      cases h
      exact statusRows_error hrows
  | ok result =>
      rw [hrows] at h
      cases h

/-! ## The gate -/

/-- What the four traversals of a passed gate have seen. -/
structure GateEvidence (ctx : GateContext) (replies : Nat → PageReply)
    (runs runs' statuses statuses' : List Json) : Prop where
  traversals : ∃ n₁ n₂ n₃ n₄, Traversed replies checkRunPage 0 n₁ runs
    ∧ Traversed replies checkRunPage n₁ n₂ runs'
    ∧ Traversed replies (statusPage ctx.headSha) n₂ n₃ statuses
    ∧ Traversed replies (statusPage ctx.headSha) n₃ n₄ statuses'
  sameRuns : ∃ rows rows', checkRunSnapshot ctx runs = .ok (some rows)
    ∧ checkRunSnapshot ctx runs' = .ok (some rows') ∧ sameRows rows' rows = true
  sameStatuses : ∃ rows matched matched', statusSnapshot ctx statuses = .ok (some (rows, matched))
    ∧ statusSnapshot ctx statuses' = .ok (some (rows, matched'))
  runs : ∀ run ∈ runs ++ runs', (∃ r ∈ ctx.required, Matches r run) → PassingRun ctx run
  statuses : ∀ status ∈ statuses ++ statuses',
    (∃ r ∈ ctx.required, HasContext r status) → PassingStatus ctx status
  covered : ∀ r ∈ ctx.required, (∃ run ∈ runs', Matches r run)
    ∨ (r.2 = none ∧ ∃ status ∈ statuses', HasContext r status)

/-- The gate is passed. -/
def GatePassed (ctx : GateContext) (replies : Nat → PageReply) : Prop :=
  ctx.required ≠ []
    ∧ ∃ runs runs' statuses statuses', GateEvidence ctx replies runs runs' statuses statuses'

/-- A call raised what nothing catches, or a page has a time of evidence that
`datetime` cannot convert. -/
def Unforeseen (ctx : GateContext) (replies : Nat → PageReply) : Prop :=
  (∃ k, replies k = .raised false)
    ∨ (∃ k, ∃ run ∈ entriesAt replies checkRunPage k, Overflows ctx (run.get? "completed_at"))
    ∨ ∃ k, ∃ status ∈ entriesAt replies (statusPage ctx.headSha) k,
        Overflows ctx (status.get? "updated_at")

/-- How the gate may raise. -/
def RaisesAs (ctx : GateContext) (replies : Nat → PageReply) (e : GateError) : Prop :=
  e ≠ .outOfFuel ∧ (e = .unhandled → Unforeseen ctx replies)

theorem Traversed.mem {n m : Nat} {entries : List Json} {entry : Json}
    (h : Traversed replies readPage n m entries) (hmem : entry ∈ entries) :
    ∃ k, entry ∈ entriesAt replies readPage k := by
  rw [h.entries_eq] at hmem
  obtain ⟨k, -, hk⟩ := List.mem_flatMap.mp hmem
  exact ⟨k, hk⟩

theorem RaisedBy.raises {e : GateError} (h : RaisedBy replies e) : RaisesAs ctx replies e :=
  ⟨h.1, fun he => Or.inl (h.2 he)⟩

/-- A read with its handlers: what it raises otherwise, it raises. -/
theorem wp_caught {α : Type} {x : GateStep (Option α)} {Q : Option α → Nat → Prop} {n : Nat}
    (h : x.wp Q (fun e _ => RaisesAs ctx replies e) n) (hnone : ∀ m, Q none m) :
    (caught x).wp Q (fun e _ => RaisesAs ctx replies e ∧ e ≠ .handled) n := by
  unfold caught
  rw [Command.wp_tryCatch]
  refine Command.wp_mono h (fun _ _ hq => hq) fun e m he => ?_
  split
  · exact hnone m
  · next hne => exact ⟨he, hne⟩

/-- What the two traversals of the statuses have seen. -/
theorem wp_stableStatuses {n : Nat} :
    (stablePassingCommitStatusRequirements ctx replies).wp
      (fun result m => ∀ matched', result = some matched' →
        ∃ k statuses statuses' rows matched,
          Traversed replies (statusPage ctx.headSha) n k statuses
            ∧ Traversed replies (statusPage ctx.headSha) k m statuses'
            ∧ statusSnapshot ctx statuses = .ok (some (rows, matched))
            ∧ statusSnapshot ctx statuses' = .ok (some (rows, matched')))
      (fun e _ => RaisesAs ctx replies e) n := by
  have herror : ∀ {statuses : List Json} {k m : Nat} {e : GateError},
      Traversed replies (statusPage ctx.headSha) k m statuses →
      statusSnapshot ctx statuses = .error e → RaisesAs ctx replies e := by
    intro statuses k m e htraversed he
    rcases statusSnapshot_error he with rfl | ⟨rfl, status, hmem, hover⟩
    · exact ⟨by decide, fun hu => by cases hu⟩
    · obtain ⟨j, hj⟩ := htraversed.mem hmem
      exact ⟨by decide, fun _ => Or.inr (Or.inr ⟨j, status, hj, hover⟩)⟩
  unfold stablePassingCommitStatusRequirements
  rw [Command.wp_bind]
  refine Command.wp_mono wp_traversal (fun first k hfirst => ?_) fun e _ he => he.raises
  split
  · intro matched' hm
    cases hm
  · next first =>
    have hfirst := hfirst _ rfl
    rw [Command.wp_bind]
    refine Command.wp_attempt (fun firstResult hfirstRows => ?_) fun e he => herror hfirst he
    split
    · intro matched' hm
      cases hm
    · next firstRows firstMatched =>
      rw [Command.wp_bind]
      refine Command.wp_mono wp_traversal (fun second m hsecond => ?_) fun e _ he => he.raises
      split
      · intro matched' hm
        cases hm
      · next second =>
        have hsecond := hsecond _ rfl
        rw [Command.wp_bind]
        refine Command.wp_attempt (fun result hrows => ?_) fun e he => herror hsecond he
        split
        · intro matched' hm
          cases hm
        · next rows matched =>
          split
          · next hsame =>
            intro matched' hm
            cases hm
            rw [hsame] at hrows
            exact ⟨k, first, second, firstRows, firstMatched, hfirst, hsecond, hfirstRows, hrows⟩
          · intro matched' hm
            cases hm

theorem covers_of_exactly {runs statuses : List RequiredCheck}
    (h : coversExactly ctx runs statuses = true) :
    ∀ r ∈ ctx.required, r ∈ runs ∨ r ∈ statuses := by
  intro r hr
  rw [coversExactly, Bool.and_eq_true] at h
  have hmem := List.all_eq_true.mp h.2 r hr
  rw [List.contains_iff_mem, List.mem_append] at hmem
  exact hmem

theorem wp_requiredChecksPassForHead (ctx : GateContext) (replies : Nat → PageReply) :
    (requiredChecksPassForHead ctx replies).wp (fun passed _ => passed = true → GatePassed ctx replies)
      (fun e _ => RaisesAs ctx replies e ∧ e ≠ .handled) 0 := by
  have hrunError : ∀ {runs : List Json} {n m : Nat} {e : GateError},
      Traversed replies checkRunPage n m runs →
      (e = .unhandled ∧ ∃ run ∈ runs, Overflows ctx (run.get? "completed_at")) →
      RaisesAs ctx replies e ∧ e ≠ .handled := by
    rintro runs n m e htraversed ⟨rfl, run, hmem, hover⟩
    obtain ⟨k, hk⟩ := htraversed.mem hmem
    exact ⟨⟨by decide, fun _ => Or.inr (Or.inl ⟨k, run, hk, hover⟩)⟩, by decide⟩
  have hraises : ∀ e (_ : Nat), RaisedBy replies e → RaisesAs ctx replies e :=
    fun e _ he => he.raises
  unfold requiredChecksPassForHead
  split
  · intro hfalse
    cases hfalse
  rw [Command.wp_bind]
  refine wp_caught (Command.wp_mono wp_traversal (fun first n₁ hfirst => ?_) hraises)
    fun _ hfalse => by cases hfalse
  split
  · intro hfalse
    cases hfalse
  next runs =>
  have hfirst := hfirst _ rfl
  split
  · intro hfalse
    cases hfalse
  next hrequired =>
  rw [Command.wp_bind]
  refine Command.wp_attempt (fun firstRows hrows => ?_)
    fun e he => hrunError hfirst (checkRunSnapshot_error he)
  split
  · intro hfalse
    cases hfalse
  next rows =>
  rw [Command.wp_bind]
  refine wp_caught (Command.wp_mono wp_traversal (fun second n₂ hsecond => ?_) hraises)
    fun _ hfalse => by cases hfalse
  split
  · intro hfalse
    cases hfalse
  next runs' =>
  have hsecond := hsecond _ rfl
  rw [Command.wp_bind]
  refine Command.wp_attempt (fun secondRows hrows' => ?_)
    fun e he => hrunError hsecond (checkRunSnapshot_error he)
  split
  · intro hfalse
    cases hfalse
  next rows' =>
  split
  · intro hfalse
    cases hfalse
  next hsame =>
  rw [Bool.not_eq_false] at hsame
  rw [Command.wp_bind]
  refine Command.wp_attempt (fun passing hpassing => ?_) fun e he => ?_
  · split
    · intro hfalse
      cases hfalse
    next proved =>
    obtain ⟨hturns, hproved⟩ := provedBy_some hpassing
    rw [Command.wp_bind]
    refine wp_caught (Command.wp_mono wp_stableStatuses (fun result n₄ hstatuses => ?_)
      fun _ _ he => he) fun _ hfalse => by cases hfalse
    split
    · intro hfalse
      cases hfalse
    next matched' =>
    intro hcovers
    obtain ⟨n₃, statuses, statuses', rows₂, matched, hthird, hfourth, hsnapshot, hsnapshot'⟩ :=
      hstatuses _ rfl
    obtain ⟨rowsA, hrowsA⟩ := statusSnapshot_some hsnapshot
    obtain ⟨rowsB, hrowsB⟩ := statusSnapshot_some hsnapshot'
    refine ⟨hrequired, runs, runs', statuses, statuses', ?_⟩
    refine
      { traversals := ⟨n₁, n₂, n₃, n₄, hfirst, hsecond, hthird, hfourth⟩
        sameRuns := ⟨rows, rows', hrows, hrows', hsame⟩
        sameStatuses := ⟨rows₂, matched, matched', hsnapshot, hsnapshot'⟩
        runs := ?_, statuses := ?_, covered := ?_ }
    · have hpassing : ∀ run ∈ runs', (∃ r ∈ ctx.required, Matches r run) → PassingRun ctx run := by
        intro run hrun
        obtain ⟨matchedRun, hturn⟩ := hturns run hrun
        exact (passingCheckRun_some hturn).2
      intro run hrun
      rcases List.mem_append.mp hrun with hrun | hrun
      · exact passingRun_of_sameRows hrows hrows' hsame hpassing run hrun
      · exact hpassing run hrun
    · intro status hstatus
      rcases List.mem_append.mp hstatus with hstatus | hstatus
      · exact (statusRows_some hrowsA).1 status hstatus
      · exact (statusRows_some hrowsB).1 status hstatus
    · intro r hr
      rcases covers_of_exactly hcovers r hr with hrun | hstatus
      · obtain ⟨run, hrun, matchedRun, hturn, hmem⟩ := hproved r hrun
        exact Or.inl ⟨run, hrun, (((passingCheckRun_some hturn).1 r).mp hmem).2⟩
      · exact Or.inr ((statusRows_some hrowsB).2 r hstatus)
  · obtain ⟨run, hrun, hturn⟩ := provedBy_error he
    obtain ⟨heq, hover⟩ := passingCheckRun_error hturn
    exact hrunError hsecond ⟨heq, run, hrun, hover⟩

/-- Whatever the pages are, the gate answers unless a call raises what nothing
catches or a time cannot be converted; it says yes only when it is passed; and
its loops end. -/
theorem merge_gate_sound (ctx : GateContext) (replies : Nat → PageReply) :
    ((requiredChecksPassForHead ctx replies).exec 0).1 ≠ .error .outOfFuel
      ∧ (((requiredChecksPassForHead ctx replies).exec 0).1 = .ok true → GatePassed ctx replies)
      ∧ (¬ Unforeseen ctx replies →
        ∃ passed, ((requiredChecksPassForHead ctx replies).exec 0).1 = .ok passed) := by
  have hgate := wp_requiredChecksPassForHead ctx replies
  unfold Command.wp at hgate
  split at hgate
  · next passed m hexec =>
    rw [hexec]
    refine ⟨fun hfuel => (by cases hfuel), fun htrue => ?_, fun _ => ⟨passed, rfl⟩⟩
    cases htrue
    exact hgate rfl
  · next e m hexec =>
    rw [hexec]
    obtain ⟨⟨hfuel, hunforeseen⟩, hhandled⟩ := hgate
    refine ⟨fun heq => ?_, fun htrue => (by cases htrue), fun hforeseen => ?_⟩
    · cases heq
      exact hfuel rfl
    · cases e with
      | handled => exact absurd rfl hhandled
      | unhandled => exact absurd (hunforeseen rfl) hforeseen
      | outOfFuel => exact absurd rfl hfuel

/-- A completed Check Run of the context `ci`. -/
def ciRun (id appId : Int) (conclusion : String) : Json :=
  .obj [("id", .int id), ("name", .str "ci"), ("app", .obj [("id", .int appId)]),
    ("head_sha", .str (String.ofList (List.replicate 40 'a'))), ("status", .str "completed"),
    ("conclusion", .str conclusion), ("completed_at", .str "2026-01-01T00:00:00Z")]

/-- A head that requires `ci` from one application. -/
def ciContext : GateContext :=
  { py := { Text.asciiTables with str := fun _ => [] }, fromisoformat := fun _ => .aware 0 0
    nowUtc := 0, headSha := List.replicate 40 'a', required := [("ci".toList, some 5)] }

/-- The application succeeded; another one reports a failure under the same name. -/
def ciReplies (n : Nat) : PageReply :=
  if n < 2 then
    .page 0 (some (.obj [("total_count", .int 2),
      ("check_runs", .arr [ciRun 1 5 "success", ciRun 2 7 "failure"])]))
  else
    .page 0 (some (.obj [("sha", .str (String.ofList (List.replicate 40 'a'))),
      ("total_count", .int 0), ("statuses", .arr [])]))

/-- A run that only has the name of a requirement may have failed. -/
theorem merge_gate_ignores_other_apps :
    ¬ ∀ (ctx : GateContext) (replies : Nat → PageReply),
      ((requiredChecksPassForHead ctx replies).exec 0).1 = .ok true →
      ∀ k < ((requiredChecksPassForHead ctx replies).exec 0).2,
        ∀ run ∈ entriesAt replies checkRunPage k,
          (∃ r ∈ ctx.required, (run.get? "name").bind Json.asStr? = some (String.ofList r.1)) →
          lowerField ctx run "conclusion" ∈ checkSuccessConclusions := by
  intro hall
  have hrun : (requiredChecksPassForHead ciContext ciReplies).exec 0 = (.ok true, 4) := by
    decide
  have hconclusion := hall ciContext ciReplies (by rw [hrun]) 0 (by rw [hrun]; decide)
    (ciRun 2 7 "failure") (List.mem_cons_of_mem _ List.mem_cons_self)
    ⟨("ci".toList, some 5), List.mem_singleton.mpr rfl, by decide⟩
  exact absurd hconclusion (by decide)

end Hephaestus.Automation
