import Hephaestus.Lib.Contest
import Hephaestus.Proofs.OverlapFrame

/-!
# A selection is a contest for files

The candidates of a selection are contestants: `admissionRound` decides them
from the state the selection starts in. The code decides the same
(`select_round`), although it writes reservations and memories on the way,
and lets go the candidates whose plan it cannot read. An item under review
gets its diff into its reservation whenever the reservations are collected,
so what it shows stays the same; a candidate shows what its payload holds
until it is examined.
-/

namespace Hephaestus.Pipeline

open Hephaestus.Lib Hephaestus.Lib.Command

variable {ω : Type} {host : Host ω} {org : String} {s t u : Coordinator} {i j : ItemId}
  {plans : ItemId → Except PlanReadError (List String)} {candidates : List ItemId}

/-! ## The contest -/

namespace WorkItem

variable (org : String) (plans : ItemId → Except PlanReadError (List String)) (i : ItemId)
  (item : WorkItem)

/-- What the item is known to reserve before it is examined: under review its
diff counts. -/
def shownClaims : Finset FileClaim :=
  item.heldClaims ∪ if item.stage.realizesDiff then item.changedClaims org else ∅

/-- Why the plan could not be read, where the item has no reservation yet. -/
def readFailure : Option PlanReadError :=
  match item.fileClaims?, plans i with
  | none, .error e => some e
  | _, _ => none

end WorkItem

/-- The live items at a stage that owns files. -/
def Coordinator.fileOwners (s : Coordinator) : Finset ItemId :=
  s.items.toFinset.filter fun j =>
    (s.workItem j).result = none ∧ (s.stageOf j).ownsFileClaims = true

theorem mem_fileOwners : j ∈ s.fileOwners ↔
    j ∈ s.items ∧ (s.workItem j).result = none ∧ (s.stageOf j).ownsFileClaims = true := by
  rw [Coordinator.fileOwners, Finset.mem_filter, List.mem_toFinset]

section

variable (org : String) (plans : ItemId → Except PlanReadError (List String)) (s : Coordinator)
  (candidates : List ItemId)

/-- The candidates that have not been started. -/
def freshCandidates : Finset ItemId := (candidates.filter fun i => (s.workItem i).isFresh).toFinset

/-- The files of the items, and who reserves them. -/
def fileContest : Contest ItemId FileClaim where
  owners := s.fileOwners
  exempt := freshCandidates s candidates
  own := fun i => (s.workItem i).effectiveClaims org plans i

/-- What everybody reserves before the selection. -/
def initialShares (j : ItemId) : Finset FileClaim := (s.workItem j).shownClaims org

/-- One candidate is decided. -/
def admissionTurn (a : Admission ItemId FileClaim) (i : ItemId) :
    Except PyError (Admission ItemId FileClaim) :=
  if (s.workItem i).issue.isNone ∨
      (s.workItem i).blockedClaims? = some ((fileContest org plans s candidates).against a i) then
    .ok a
  else
    match (s.workItem i).readFailure plans i with
    | some (.other e) => .error e
    | some _ => .ok a
    | none => .ok ((fileContest org plans s candidates).examine a i)

/-- The candidates are decided in their order. -/
def admissionRound : Except PyError (Admission ItemId FileClaim) :=
  candidates.foldlM (admissionTurn org plans s candidates) { shares := initialShares org s }

end

/-- Different items in the implementation queue. -/
structure Queued (candidates : List ItemId) (s : Coordinator) : Prop where
  nodup : candidates.Nodup
  stage : ∀ i ∈ candidates, s.stageOf i = .implementation

theorem shownClaims_of_implementation {item : WorkItem} (h : item.stage = .implementation) :
    item.shownClaims org = item.heldClaims := by
  rw [WorkItem.shownClaims, h]
  exact Finset.union_empty _

theorem shownClaims_subset (item : WorkItem) :
    item.shownClaims org ⊆ item.effectiveClaims org plans i := by
  unfold WorkItem.shownClaims
  refine Finset.union_subset (heldClaims_subset item) ?_
  split
  · exact Finset.subset_union_right
  · exact Finset.empty_subset _

/-! ## Collecting the reservations -/

/-- The record of an item whose reservation was refreshed. -/
structure Refreshed (org : String) (a b : WorkItem) : Prop where
  noted : Noted a b
  shown : b.shownClaims org = a.shownClaims org
  memory : MemorySound org a → MemorySound org b
  waiting : a.stage = .implementation → b = a

theorem Refreshed.refl (a : WorkItem) : Refreshed org a a :=
  ⟨.refl a, rfl, id, fun _ => rfl⟩

theorem Refreshed.trans {a b c : WorkItem} (h : Refreshed org a b) (h' : Refreshed org b c) :
    Refreshed org a c where
  noted := h.noted.trans h'.noted
  shown := h'.shown.trans h.shown
  memory := h'.memory ∘ h.memory
  waiting := by
    intro hstage
    have heq := h.waiting hstage
    exact (h'.waiting (heq ▸ hstage)).trans heq

/-- The item under review gets its diff into its reservation. -/
theorem Refreshed.realize {a : WorkItem} (hstage : a.stage.realizesDiff = true) :
    Refreshed org a (a.setPayload implementationFileClaimsPayload
      (.claims (a.shownClaims org))) := by
  have hnoted : Noted a (a.setPayload implementationFileClaimsPayload
      (.claims (a.shownClaims org))) := (Noted.refl a).setPayload _ (by decide)
  have hdiff := hnoted.rekeyed.changedClaims org
  have hsub : a.changedClaims org ⊆ a.shownClaims org := by
    unfold WorkItem.shownClaims
    rw [if_pos hstage]
    exact Finset.subset_union_right
  refine ⟨hnoted, ?_, ?_, ?_⟩
  · have hshown : (a.setPayload implementationFileClaimsPayload
        (.claims (a.shownClaims org))).shownClaims org =
        a.shownClaims org ∪ a.changedClaims org := by
      rw [WorkItem.shownClaims, WorkItem.heldClaims, fileClaims?_set, hdiff]
      exact congrArg _ (if_pos hstage)
    rw [hshown, Finset.union_eq_left]
    exact hsub
  · intro hmem c hc
    have hblocked : a.blockedClaims? = some c := by
      rw [← hc]
      unfold WorkItem.blockedClaims? WorkItem.setPayload
      rw [Dict.get?_set_ne _ _ (by decide)]
    obtain ⟨held, hheld, _, hmeet⟩ := hmem c hblocked
    refine ⟨a.shownClaims org, fileClaims?_set _ _, hdiff ▸ hsub, ?_⟩
    have hsub' : held ⊆ a.shownClaims org := by
      unfold WorkItem.shownClaims WorkItem.heldClaims
      rw [hheld]
      exact Finset.subset_union_left
    rw [← Finset.nonempty_iff_ne_empty] at hmeet ⊢
    exact hmeet.mono (Finset.inter_subset_inter_right hsub')
  · intro himpl
    rw [himpl] at hstage
    cases hstage

/-- Only records were refreshed. -/
structure Refreshes (org : String) (s t : Coordinator) : Prop where
  books : t = { s with workItem := t.workItem }
  records : ∀ j, Refreshed org (s.workItem j) (t.workItem j)

instance : IsPreorder Coordinator (Refreshes org) where
  refl := fun _ => ⟨rfl, fun _ => .refl _⟩
  trans := fun _ _ _ h h' =>
    ⟨by rw [h'.books, h.books], fun j => (h.records j).trans (h'.records j)⟩

theorem Refreshes.owners (h : Refreshes org s t) : t.fileOwners = s.fileOwners := by
  ext j
  have hitems : t.items = s.items := by rw [h.books]
  have hstage : t.stageOf j = s.stageOf j := (h.records j).noted.stage
  rw [mem_fileOwners, mem_fileOwners, hitems, (h.records j).noted.result, hstage]

/-- One turn of `_active_implementation_file_claims`. -/
theorem addActiveClaims_refreshes (host : Host ω) (exclude : Finset ItemId) (claims : Finset FileClaim)
    (s : Coordinator) (j : ItemId) :
    (addActiveClaims host exclude (claims, s) j).1 =
        claims ∪ (if Counts s exclude j then (s.workItem j).shownClaims host.config.org else ∅) ∧
      Refreshes host.config.org s (addActiveClaims host exclude (claims, s) j).2 := by
  unfold addActiveClaims
  dsimp only
  by_cases hcount : Counts s exclude j
  · have howns : (s.workItem j).stage.ownsFileClaims = true := hcount.2.2
    have hskip : ¬ (j ∈ exclude ∨ (s.workItem j).result.isSome = true ∨
        (!(s.workItem j).stage.ownsFileClaims) = true) := by
      simp [hcount.1, hcount.2.1, howns]
    rw [if_neg hskip, if_pos hcount]
    by_cases hreal : (s.workItem j).stage.realizesDiff = true
    · have hshown : (s.workItem j).fileClaims?.getD ∅ ∪ (s.workItem j).changedClaims host.config.org =
          (s.workItem j).shownClaims host.config.org := by
        rw [WorkItem.shownClaims, if_pos hreal]
        rfl
      by_cases hpaths : (s.workItem j).changedPaths?.isSome = true
      · rw [if_pos ⟨hreal, hpaths⟩, hshown]
        refine ⟨rfl, rfl, fun k => ?_⟩
        by_cases hk : k = j
        · subst hk
          rw [setItem_workItem_self]
          exact .realize hreal
        · rw [setItem_workItem_ne _ hk]
          exact .refl _
      · have hnone : (s.workItem j).changedClaims host.config.org = ∅ := by
          rw [Bool.not_eq_true, Option.isSome_eq_false_iff, Option.isNone_iff_eq_none] at hpaths
          simp [WorkItem.changedClaims, hpaths]
        rw [hnone, Finset.union_empty] at hshown
        rw [if_neg fun h => hpaths h.2, hshown]
        exact ⟨rfl, refl s⟩
    · rw [if_neg fun h => hreal h.1, WorkItem.shownClaims, if_neg hreal, Finset.union_empty]
      exact ⟨rfl, refl s⟩
  · have hskip : j ∈ exclude ∨ (s.workItem j).result.isSome = true ∨
        (!(s.workItem j).stage.ownsFileClaims) = true := by
      by_contra hno
      simp only [not_or, Bool.not_eq_true, Option.isSome_eq_false_iff, Option.isNone_iff_eq_none,
        Bool.not_eq_false'] at hno
      exact hcount ⟨hno.1, hno.2.1, hno.2.2⟩
    rw [if_pos hskip, if_neg hcount, Finset.union_empty]
    exact ⟨rfl, refl s⟩

theorem Refreshes.counts (h : Refreshes org s t) {exclude : Finset ItemId} :
    Counts t exclude j ↔ Counts s exclude j := by
  have hstage : t.stageOf j = s.stageOf j := (h.records j).noted.stage
  rw [Counts, Counts, (h.records j).noted.result, hstage]

/-- The whole loop. -/
theorem foldl_addActiveClaims_refreshes (host : Host ω) (exclude : Finset ItemId) (items : List ItemId) :
    ∀ (claims : Finset FileClaim) (s : Coordinator),
      (items.foldl (addActiveClaims host exclude) (claims, s)).1 =
          claims ∪ (items.filter (Counts s exclude)).toFinset.biUnion
            (fun j => (s.workItem j).shownClaims host.config.org) ∧
        Refreshes host.config.org s (items.foldl (addActiveClaims host exclude) (claims, s)).2 := by
  induction items with
  | nil => exact fun claims s => ⟨by simp, refl s⟩
  | cons j items ih =>
      intro claims s
      obtain ⟨hclaims, hturn⟩ := addActiveClaims_refreshes host exclude claims s j
      obtain ⟨hrest, hall⟩ := ih (addActiveClaims host exclude (claims, s) j).1
        (addActiveClaims host exclude (claims, s) j).2
      refine ⟨?_, IsTrans.trans _ _ _ hturn hall⟩
      have hcounts : ∀ k, decide (Counts (addActiveClaims host exclude (claims, s) j).2 exclude k) =
          decide (Counts s exclude k) := fun k => decide_eq_decide.mpr hturn.counts
      rw [List.foldl_cons]
      refine hrest.trans ?_
      rw [List.filter_congr fun k _ => hcounts k]
      have hshown : ∀ k, ((addActiveClaims host exclude (claims, s) j).2.workItem k).shownClaims
          host.config.org = (s.workItem k).shownClaims host.config.org :=
        fun k => (hturn.records k).shown
      rw [hclaims, Finset.biUnion_congr rfl fun k _ => hshown k, List.filter_cons]
      by_cases hcount : Counts s exclude j
      · rw [if_pos hcount, if_pos (decide_eq_true hcount), List.toFinset_cons,
          Finset.biUnion_insert, Finset.union_assoc]
      · rw [if_neg hcount, if_neg (by simpa using hcount), Finset.union_empty]

/-! ## One turn -/

/-- What a selection keeps. -/
structure Sustains (host : Host ω) (s t : Coordinator) : Prop where
  consistent : Consistent host t
  memory : (∀ j, MemorySound host.config.org (s.workItem j)) →
    ∀ j, MemorySound host.config.org (t.workItem j)

/-- Where the loop is: the candidates `passed` have been decided as `a` says,
and the shares are what the records show. -/
structure Tallied (host : Host ω) (candidates : List ItemId) (s : Coordinator)
    (passed : List ItemId) (a : Admission ItemId FileClaim) (t : Coordinator) : Prop
    extends Sustains host s t where
  pending : ∀ j ∈ candidates, j ∉ passed →
    t.workItem j = s.workItem j ∧ (j ∈ t.fileOwners ↔ j ∈ s.fileOwners)
  shares : ∀ j x, j ∈ t.fileOwners ∧ x ∈ initialShares host.config.org t j ↔
    j ∈ s.fileOwners ∧ x ∈ a.shares j

section Tally

variable {passed : List ItemId} {a : Admission ItemId FileClaim}

theorem Tallied.init (h : Consistent host s) :
    Tallied host candidates s [] { shares := initialShares host.config.org s } s where
  consistent := h
  memory := id
  pending := fun _ _ _ => ⟨rfl, Iff.rfl⟩
  shares := fun _ _ => Iff.rfl

theorem Tallied.refresh (h : Tallied host candidates s passed a t) (hq : Queued candidates s)
    (hr : Refreshes host.config.org t u) : Tallied host candidates s passed a u where
  consistent := by
    rw [hr.books]
    exact h.consistent.noted fun j => (hr.records j).noted
  memory := fun hmem j => (hr.records j).memory (h.memory hmem j)
  pending := by
    intro j hj hpassed
    obtain ⟨heq, howner⟩ := h.pending j hj hpassed
    have hstage : (t.workItem j).stage = .implementation := by
      rw [heq]
      exact hq.stage j hj
    exact ⟨((hr.records j).waiting hstage).trans heq, hr.owners ▸ howner⟩
  shares := by
    intro j x
    rw [← h.shares j x, hr.owners, initialShares, (hr.records j).shown]
    rfl

/-- A candidate is passed over. -/
theorem Tallied.pass (h : Tallied host candidates s passed a t) (i : ItemId) :
    Tallied host candidates s (passed ++ [i]) a t where
  toSustains := h.toSustains
  pending := fun j hj hpassed => h.pending j hj fun hp => hpassed (List.mem_append_left _ hp)
  shares := h.shares

/-- A candidate whose plan cannot be read is let go. -/
theorem Tallied.letGo (h : Tallied host candidates s passed a t) (hq : Queued candidates s)
    (hi : i ∈ candidates) (hpassed : i ∉ passed) (hclaims : (s.workItem i).fileClaims? = none)
    (hc : Consistent host u) (hy : Yields i t u) :
    Tallied host candidates s (passed ++ [i]) a u := by
  obtain ⟨hitem, _⟩ := h.pending i hi hpassed
  have hstage : (t.workItem i).stage = .implementation := by
    rw [hitem]
    exact hq.stage i hi
  have hnone : (t.workItem i).fileClaims? = none := by rw [hitem, hclaims]
  have howner : ∀ j, j ≠ i → (j ∈ u.fileOwners ↔ j ∈ t.fileOwners) := by
    intro j hj
    have hstageOf : u.stageOf j = t.stageOf j := by
      rw [Coordinator.stageOf, hy.others j hj]
      rfl
    rw [mem_fileOwners, mem_fileOwners, hy.others j hj, hstageOf]
    refine and_congr_left fun hlive => ?_
    constructor
    · intro hmem
      have hrec := hc.live hmem (by rw [hy.others j hj, hlive.1])
      rw [hy.others j hj] at hrec
      exact (hy.listed j hj hrec).mp hmem
    · exact fun hmem => (hy.listed j hj (h.consistent.live hmem hlive.1)).mpr hmem
  refine ⟨⟨hc, fun hmem j => ?_⟩, fun j hj hp => ?_, fun j x => ?_⟩
  · by_cases hj : j = i
    · subst hj
      have hblocked : (t.workItem j).blockedClaims? = none := by
        rcases hb : (t.workItem j).blockedClaims? with _ | c
        · rfl
        · obtain ⟨held, hheld, _⟩ := h.memory hmem j c hb
          rw [hnone] at hheld
          cases hheld
      intro c hc'
      rw [hy.blocked hblocked] at hc'
      cases hc'
    · rw [hy.others j hj]
      exact h.memory hmem j
  · rw [List.mem_append, List.mem_singleton, not_or] at hp
    obtain ⟨heq, hiff⟩ := h.pending j hj hp.1
    rw [hy.others j hp.2, howner j hp.2]
    exact ⟨heq, hiff⟩
  · by_cases hj : j = i
    · subst hj
      have hbefore : initialShares host.config.org t j = ∅ := by
        rw [initialShares, shownClaims_of_implementation hstage, WorkItem.heldClaims, hnone]
        rfl
      have hafter : initialShares host.config.org u j = ∅ := by
        have hreal : ¬ (u.workItem j).stage.realizesDiff = true := by
          intro hreal
          have hbad := hy.realizes hreal
          rw [hstage] at hbad
          cases hbad
        rw [initialShares, WorkItem.shownClaims, WorkItem.heldClaims, hy.claims hnone,
          if_neg hreal]
        rfl
      rw [← h.shares j x, hbefore, hafter]
      simp
    · rw [← h.shares j x, howner j hj, initialShares, initialShares, hy.others j hj]

/-- A candidate has been examined: its record holds all it will write. -/
theorem Tallied.examine {item : WorkItem} (h : Tallied host candidates s passed a t)
    (hq : Queued candidates s) (hi : i ∈ candidates) (hpassed : i ∉ passed)
    (hnoted : Noted (t.workItem i) item)
    (hset : Settled host.config.org ((fileContest host.config.org plans s candidates).own i)
      item) :
    Tallied host candidates s (passed ++ [i])
      ((fileContest host.config.org plans s candidates).examine a i) (t.setItem i item) := by
  obtain ⟨hitem, hstanding⟩ := h.pending i hi hpassed
  have hstage : item.stage = .implementation := by
    rw [hnoted.stage, hitem]
    exact hq.stage i hi
  have howner : ∀ j, j ∈ (t.setItem i item).fileOwners ↔ j ∈ t.fileOwners := by
    intro j
    rw [mem_fileOwners, mem_fileOwners]
    by_cases hj : j = i
    · subst hj
      rw [Coordinator.stageOf, setItem_workItem_self, hnoted.result, hnoted.stage]
      rfl
    · rw [Coordinator.stageOf, setItem_workItem_ne _ hj]
      rfl
  refine ⟨⟨h.consistent.setItem hnoted, fun hmem j => ?_⟩, fun j hj hp => ?_, fun j x => ?_⟩
  · by_cases hj : j = i
    · subst hj
      rw [setItem_workItem_self]
      exact hset.memory
    · rw [setItem_workItem_ne _ hj]
      exact h.memory hmem j
  · rw [List.mem_append, List.mem_singleton, not_or] at hp
    obtain ⟨heq, hiff⟩ := h.pending j hj hp.1
    rw [setItem_workItem_ne _ hp.2, howner]
    exact ⟨heq, hiff⟩
  · show j ∈ (t.setItem i item).fileOwners ∧ _ ↔
      j ∈ s.fileOwners ∧ x ∈ Function.update a.shares i _ j
    rw [howner, initialShares]
    by_cases hj : j = i
    · subst hj
      have hshown : item.shownClaims host.config.org =
          (fileContest host.config.org plans s candidates).own j := by
        rw [shownClaims_of_implementation hstage, WorkItem.heldClaims, hset.held]
        rfl
      rw [Function.update_self, setItem_workItem_self, hshown, hstanding]
    · rw [Function.update_of_ne hj, setItem_workItem_ne _ hj]
      exact h.shares j x

/-- The reservations that are collected for a candidate are the shares of the
other owners. -/
theorem Tallied.collected (h : Tallied host candidates s passed a t) :
    (t.items.filter (Counts t (insert i (freshCandidates s candidates)))).toFinset.biUnion
      (fun j => (t.workItem j).shownClaims host.config.org) =
        (fileContest host.config.org plans s candidates).met a.shares i := by
  ext x
  rw [Contest.mem_met]
  simp only [Finset.mem_biUnion, List.mem_toFinset, List.mem_filter, decide_eq_true_eq]
  constructor
  · rintro ⟨j, ⟨hitems, hexempt, hnone, howns⟩, hx⟩
    rw [Finset.mem_insert, not_or] at hexempt
    obtain ⟨howner, hshare⟩ := (h.shares j x).mp ⟨mem_fileOwners.mpr ⟨hitems, hnone, howns⟩, hx⟩
    exact ⟨j, howner, hexempt.1, hexempt.2, hshare⟩
  · rintro ⟨j, howner, hne, hexempt, hshare⟩
    obtain ⟨howner', hx⟩ := (h.shares j x).mpr ⟨howner, hshare⟩
    obtain ⟨hitems, hnone, howns⟩ := mem_fileOwners.mp howner'
    have hnot : j ∉ insert i (freshCandidates s candidates) := by
      rw [Finset.mem_insert, not_or]
      exact ⟨hne, hexempt⟩
    exact ⟨j, ⟨hitems, hnot, hnone, howns⟩, hx⟩

theorem Tallied.wp_active {Q : Finset FileClaim → Coordinator → Prop}
    {E : PyError → Coordinator → Prop} (plans : ItemId → Except PlanReadError (List String))
    (h : Tallied host candidates s passed a t) (hq : Queued candidates s)
    (hQ : ∀ u, Tallied host candidates s passed a u →
      Q ((fileContest host.config.org plans s candidates).met a.shares i) u) :
    (activeImplementationFileClaims host (insert i (freshCandidates s candidates))).wp Q E t := by
  obtain ⟨hclaims, hrefresh⟩ := foldl_addActiveClaims_refreshes host
    (insert i (freshCandidates s candidates)) t.items ∅ t
  unfold activeImplementationFileClaims
  rw [wp_bind, wp_get, wp_bind, wp_set, wp_pure, hclaims, Finset.empty_union, h.collected]
  exact hQ _ (h.refresh hq hrefresh)

/-- A candidate is taken out of the queue and let go, and the turn ends. -/
theorem wp_whenClaimed {x : Op Unit} {acc : Selection} {Q : Selection → Coordinator → Prop}
    {E : PyError → Coordinator → Prop} (hc : Consistent host t)
    (hgo : LetsGo host t (do
      if ← claimSelectedImplementationItem i then x else pure () : Op Unit) t)
    (hy : (do if ← claimSelectedImplementationItem i then x else pure () : Op Unit).Along
      (Yields i) t)
    (hQ : ∀ v, Consistent host v → Yields i t v → Q acc v) :
    (do
      if ← claimSelectedImplementationItem i then x else pure ()
      pure acc : Op Selection).wp Q E t := by
  have hend := wp_and hgo (wp_of_state hy)
  rw [wp_bind] at hend ⊢
  refine wp_mono hend ?_ ?_
  · intro claimed v hv
    cases claimed with
    | true =>
        rw [if_pos rfl] at hv ⊢
        rw [wp_bind]
        refine wp_mono hv ?_ ?_
        · rintro ⟨⟩ v' ⟨hr, hy'⟩
          exact hQ v' (hr.consistent hc) hy'
        · rintro e v' ⟨hfalse, _⟩
          exact hfalse.elim
    | false => exact hQ v (Reached.consistent hv.1 hc) hv.2
  · rintro e v ⟨hfalse, _⟩
    exact hfalse.elim

/-- A plan that cannot be read. -/
theorem wp_readImplementationFileClaims_failed {e : PlanReadError}
    {Q : Except PlanReadError (Finset FileClaim) → Coordinator → Prop}
    {E : PyError → Coordinator → Prop} (hissue : ¬ (t.workItem i).issue.isNone = true)
    (hclaims : (t.workItem i).fileClaims? = none) (hplan : plans i = .error e) :
    (readImplementationFileClaims host plans i).wp Q E t ↔ Q (.error e) t := by
  unfold readImplementationFileClaims
  rw [wp_bind, wp_get, hclaims]
  dsimp only
  rw [if_neg hissue, hplan]
  dsimp only
  rw [wp_pure]

theorem readFailure_eq_none {item : WorkItem} (h : item.readFailure plans i = none)
    (hclaims : item.fileClaims? = none) : ∃ l, plans i = .ok l := by
  unfold WorkItem.readFailure at h
  rw [hclaims] at h
  cases hplan : plans i with
  | ok l => exact ⟨l, rfl⟩
  | error e =>
      rw [hplan] at h
      cases h

theorem readFailure_eq_some {item : WorkItem} {e : PlanReadError}
    (h : item.readFailure plans i = some e) : item.fileClaims? = none ∧ plans i = .error e := by
  unfold WorkItem.readFailure at h
  split at h
  · next hclaims hplan => exact ⟨hclaims, hplan.trans (congrArg _ (Option.some.inj h))⟩
  · cases h

/-- How a turn or the loop ends. -/
def Decided (host : Host ω) (candidates : List ItemId) (s : Coordinator) (passed : List ItemId)
    (r : Except PyError (Admission ItemId FileClaim)) (acc : Selection) (t : Coordinator) : Prop :=
  ∃ a, r = .ok a ∧ acc = ⟨a.admitted, a.taken⟩ ∧ Tallied host candidates s passed a t

/-- One turn decides as `admissionTurn` does. -/
theorem Tallied.selectTurn (w : World ω) (h : Tallied host candidates s passed a t)
    (hq : Queued candidates s) (hi : i ∈ candidates) (hpassed : i ∉ passed) :
    (selectTurn host w plans (freshCandidates s candidates) ⟨a.admitted, a.taken⟩ i).wp
      (Decided host candidates s (passed ++ [i])
        (admissionTurn host.config.org plans s candidates a i))
      (fun e u => admissionTurn host.config.org plans s candidates a i = .error e ∧
        Sustains host s u) t := by
  obtain ⟨hitem, _⟩ := h.pending i hi hpassed
  unfold Pipeline.selectTurn
  rw [wp_bind, wp_get, hitem]
  split
  · next hissue =>
      rw [wp_pure]
      exact ⟨a, if_pos (.inl hissue), rfl, h.pass i⟩
  · next hissue =>
      rw [wp_bind]
      refine h.wp_active plans hq fun u hu => ?_
      dsimp only
      obtain ⟨hitem', _⟩ := hu.pending i hi hpassed
      rw [wp_bind, wp_get, hitem']
      change (if (s.workItem i).blockedClaims? =
        some ((fileContest host.config.org plans s candidates).against a i) then _ else _ :
          Op Selection).wp _ _ _
      split
      · next hblocked =>
          rw [wp_pure]
          exact ⟨a, if_pos (.inr hblocked), rfl, hu.pass i⟩
      · next hblocked =>
          have hneither : ¬ ((s.workItem i).issue.isNone = true ∨ (s.workItem i).blockedClaims? =
              some ((fileContest host.config.org plans s candidates).against a i)) :=
            fun hor => hor.elim hissue hblocked
          have hturn : admissionTurn host.config.org plans s candidates a i = _ :=
            if_neg hneither
          rw [wp_bind]
          cases hfail : (s.workItem i).readFailure plans i with
          | none =>
              rw [hfail] at hturn
              refine wp_readImplementationFileClaims ?_ ?_ ?_
              · rw [hitem']
                simpa [Option.isSome_iff_ne_none] using hissue
              · rw [hitem']
                exact readFailure_eq_none hfail
              · intro item hnoted hread
                rw [hitem'] at hread
                rw [hitem']
                refine wp_admitOrDefer (by rw [setItem_workItem_self, hread]) ?_
                rw [setItem_workItem_self, hnoted.rekeyed.changedClaims, hitem']
                intro item' hnoted' hset
                rw [setItem_setItem]
                refine ⟨_, hturn, ?_, hu.examine hq hi hpassed (hnoted.trans hnoted') hset⟩
                by_cases hfree : (fileContest host.config.org plans s candidates).own i ∩
                    (fileContest host.config.org plans s candidates).against a i = ∅
                · rw [Contest.examine_of_free hfree]
                  exact if_pos hfree
                · rw [Contest.examine_of_meet hfree]
                  exact if_neg hfree
          | some e =>
              obtain ⟨hclaims, hplan⟩ := readFailure_eq_some hfail
              rw [hfail] at hturn
              rw [wp_readImplementationFileClaims_failed (by rw [hitem']; exact hissue)
                (by rw [hitem', hclaims]) hplan]
              have hreached := Reached.refl hu.consistent.sound
              have hgone : ∀ v, Consistent host v → Yields i u v →
                  Tallied host candidates s (passed ++ [i]) a v :=
                fun v hv hy => hu.letGo hq hi hpassed hclaims hv hy
              cases e with
              | aliasConflict message =>
                  refine wp_whenClaimed hu.consistent
                    (hreached.finishSelected i false ("plan admission failed: " ++ message))
                    (yields_finishSelected false ("plan admission failed: " ++ message)) ?_
                  exact fun v hv hy => ⟨a, hturn, rfl, hgone v hv hy⟩
              | journalRead message =>
                  refine wp_whenClaimed hu.consistent (hreached.deferSelected w i message)
                    (yields_deferSelected w message) ?_
                  exact fun v hv hy => ⟨a, hturn, rfl, hgone v hv hy⟩
              | other e =>
                  rw [wp_throw]
                  exact ⟨hturn, hu.toSustains⟩

/-- The loop decides as the round does. -/
theorem Tallied.selectLoop (w : World ω) (plans : ItemId → Except PlanReadError (List String))
    (hq : Queued candidates s) (rest : List ItemId) :
    ∀ {passed : List ItemId} {a : Admission ItemId FileClaim} {t : Coordinator},
      Tallied host candidates s passed a t → candidates = passed ++ rest →
      (selectLoop host w plans (freshCandidates s candidates) rest ⟨a.admitted, a.taken⟩).wp
        (Decided host candidates s candidates
          (rest.foldlM (admissionTurn host.config.org plans s candidates) a))
        (fun e u => rest.foldlM (admissionTurn host.config.org plans s candidates) a = .error e ∧
          Sustains host s u) t := by
  induction rest with
  | nil =>
      intro passed a t h hsplit
      rw [List.append_nil] at hsplit
      exact ⟨a, rfl, rfl, hsplit ▸ h⟩
  | cons i rest ih =>
      intro passed a t h hsplit
      have hi : i ∈ candidates := hsplit ▸ List.mem_append_right _ List.mem_cons_self
      have hpassed : i ∉ passed := by
        have hnodup := hq.nodup
        rw [hsplit, List.nodup_append] at hnodup
        exact fun hp => hnodup.2.2 i hp i List.mem_cons_self rfl
      have hsplit' : candidates = (passed ++ [i]) ++ rest := by
        rw [List.append_assoc]
        exact hsplit
      rw [Pipeline.selectLoop, wp_bind, List.foldlM_cons]
      refine wp_mono (h.selectTurn w hq hi hpassed) ?_ ?_
      · rintro acc u ⟨a', hturn, rfl, hu⟩
        rw [hturn]
        exact ih hu hsplit'
      · rintro e u ⟨hturn, hu⟩
        rw [hturn]
        exact ⟨rfl, hu⟩

end Tally

/-- A selection decides as the round does, and keeps what it relies on. -/
theorem select_round (w : World ω) (plans : ItemId → Except PlanReadError (List String))
    (h : Consistent host s) (hq : Queued candidates s) :
    ((selectFileOverlapImplementationItems host w plans candidates).exec s).1 =
        (admissionRound host.config.org plans s candidates).map Admission.admitted ∧
      Sustains host s ((selectFileOverlapImplementationItems host w plans candidates).exec s).2 := by
  have hloop := Tallied.selectLoop w plans hq candidates (.init h) rfl
  have hsel : (selectFileOverlapImplementationItems host w plans candidates).wp
      (fun batch t => (admissionRound host.config.org plans s candidates).map
        Admission.admitted = .ok batch ∧ Sustains host s t)
      (fun e t => (admissionRound host.config.org plans s candidates).map
        Admission.admitted = .error e ∧ Sustains host s t) s := by
    unfold selectFileOverlapImplementationItems
    rw [wp_bind, wp_get]
    dsimp only
    rw [wp_bind]
    refine wp_mono hloop ?_ ?_
    · rintro acc t ⟨a, ha, rfl, ht⟩
      rw [wp_pure]
      refine ⟨?_, ht.toSustains⟩
      rw [admissionRound, ha]
      rfl
    · rintro e t ⟨he, ht⟩
      refine ⟨?_, ht⟩
      rw [admissionRound, he]
      rfl
  unfold wp at hsel
  split at hsel
  · next hexec =>
      rw [hexec]
      exact ⟨hsel.1.symm, hsel.2⟩
  · next hexec =>
      rw [hexec]
      exact ⟨hsel.1.symm, hsel.2⟩

end Hephaestus.Pipeline
