import Mathlib.Data.List.Perm.Basic
import Hephaestus.Pipeline.ImplementationOrder
import Hephaestus.Proofs.DependencyOrder

/-!
# What the implementation queue hands out

The last queued item of every issue is handed out once. The items of a repository come in
the order of its dependencies, and of the items at the fronts of the repositories the one
that was deferred most often is taken, the earlier one of two that are as old.
-/

namespace Hephaestus.Pipeline

open Hephaestus.Lib Hephaestus.Automation
open Relation (TransGen)

variable {ω : Type} (host : Host ω) (dependencies : ItemId → List Int) (s : Coordinator)

/-- The item is the last of its issue. -/
def Latest (items : List ItemId) (i : ItemId) : Prop :=
  (s.workItem i).issue.isSome ∧ items.reverse.find? (fun j =>
    (s.workItem j).repo = (s.workItem i).repo ∧ (s.workItem j).issue = (s.workItem i).issue) = some i

/-- The items of a repository by their issues. -/
def repoItems (items : List ItemId) (repo : String) : Dict Int ItemId :=
  Dict.ofPairs (items.filterMap fun i =>
    if (s.workItem i).repo = repo then (s.workItem i).issue.map fun issue => (issue, i) else none)

/-- An item that another one of its repository needs. -/
def NeededBy (items : List ItemId) (j i : ItemId) : Prop :=
  Latest s items j ∧ Latest s items i ∧ (s.workItem j).repo = (s.workItem i).repo
    ∧ ∃ number ∈ dependencies i, (s.workItem j).issue = some number

variable {dependencies s}

/-! ## The items of a repository -/

theorem repoItems_concat (items : List ItemId) (i : ItemId) (repo : String) :
    repoItems s (items ++ [i]) repo =
      if (s.workItem i).repo = repo then
        (s.workItem i).issue.elim (repoItems s items repo) fun issue => (repoItems s items repo).set issue i
      else repoItems s items repo := by
  unfold repoItems
  rw [List.filterMap_append]
  by_cases hrepo : (s.workItem i).repo = repo
  · rw [if_pos hrepo]
    cases hissue : (s.workItem i).issue with
    | none => simp [hrepo, hissue]
    | some issue =>
        have hlast : [i].filterMap (fun i =>
            if (s.workItem i).repo = repo then (s.workItem i).issue.map fun issue => (issue, i) else none)
            = [(issue, i)] := by
          simp [hrepo, hissue]
        rw [hlast, Dict.ofPairs_concat]
        rfl
  · simp [hrepo]

theorem repoItems_nodup (items : List ItemId) (repo : String) :
    ((repoItems s items repo).map Prod.fst).Nodup := by
  induction items using List.reverseRecOn with
  | nil => exact List.nodup_nil
  | append_singleton items i ih =>
      rw [repoItems_concat]
      split
      · cases (s.workItem i).issue with
        | none => exact ih
        | some issue => exact Dict.nodup_set ih _ _
      · exact ih

/-- An issue looks up the last item that it has. -/
theorem get?_repoItems (items : List ItemId) (repo : String) (issue : Int) :
    (repoItems s items repo).get? issue = items.reverse.find? fun j =>
      (s.workItem j).repo = repo ∧ (s.workItem j).issue = some issue := by
  induction items using List.reverseRecOn with
  | nil => rfl
  | append_singleton items i ih =>
      rw [repoItems_concat, List.reverse_concat, List.find?_cons]
      by_cases hrepo : (s.workItem i).repo = repo
      · rw [if_pos hrepo]
        cases hissue : (s.workItem i).issue with
        | none => simpa [hrepo, hissue] using ih
        | some number =>
            show ((repoItems s items repo).set number i).get? issue = _
            rw [Dict.get?_set]
            by_cases hn : number = issue
            · simp [hrepo, hn]
            · simp [hrepo, hn, ih]
      · rw [if_neg hrepo, ih]
        simp [hrepo]

theorem mem_repoItems {items : List ItemId} {repo : String} {issue : Int} {i : ItemId} :
    (issue, i) ∈ repoItems s items repo
      ↔ Latest s items i ∧ (s.workItem i).repo = repo ∧ (s.workItem i).issue = some issue := by
  constructor
  · intro hmem
    have hget := Dict.get?_of_mem (repoItems_nodup items repo) hmem
    rw [get?_repoItems] at hget
    have hfound := List.find?_some hget
    obtain ⟨hrepo, hissue⟩ := of_decide_eq_true hfound
    refine ⟨⟨?_, ?_⟩, hrepo, hissue⟩
    · rw [hissue]
      rfl
    · rw [hrepo, hissue]
      exact hget
  · rintro ⟨⟨_, hlast⟩, hrepo, hissue⟩
    rw [hrepo, hissue] at hlast
    rw [← get?_repoItems] at hlast
    exact Dict.mem_of_get? hlast

theorem Latest.mem {items : List ItemId} {i : ItemId} (h : Latest s items i) : i ∈ items :=
  List.mem_reverse.mp (List.mem_of_find?_eq_some h.2)

/-- `by_repo` has the items of each repository that has one. -/
theorem byRepo_spec (items : List ItemId) :
    ((byRepo s items).map Prod.fst).Nodup ∧ ∀ repo, (byRepo s items).get? repo
      = if repoItems s items repo = [] then none else some (repoItems s items repo) := by
  induction items using List.reverseRecOn with
  | nil => exact ⟨List.nodup_nil, fun _ => rfl⟩
  | append_singleton items i ih =>
      obtain ⟨hnodup, hget⟩ := ih
      have hturn : byRepo s (items ++ [i]) = byRepoTurn s (byRepo s items) i := by
        rw [byRepo, List.foldl_append]
        rfl
      rw [hturn, byRepoTurn]
      cases hissue : (s.workItem i).issue with
      | none =>
          refine ⟨hnodup, fun repo => ?_⟩
          rw [hget, repoItems_concat, hissue]
          simp
      | some issue =>
          have hgetD : ((byRepo s items).get? (s.workItem i).repo).getD []
              = repoItems s items (s.workItem i).repo := by
            rw [hget]
            split
            · next hnone => rw [hnone]; rfl
            · rfl
          refine ⟨Dict.nodup_set hnodup _ _, fun repo => ?_⟩
          show ((byRepo s items).set (s.workItem i).repo _).get? repo = _
          rw [hgetD, Dict.get?_set, repoItems_concat, hissue, Option.elim_some]
          by_cases hrepo : (s.workItem i).repo = repo
          · subst hrepo
            have hne : (repoItems s items (s.workItem i).repo).set issue i ≠ [] := by
              intro hnil
              have hself := Dict.get?_set_self (repoItems s items (s.workItem i).repo) issue i
              rw [hnil] at hself
              cases hself
            simp [hne]
          · rw [if_neg hrepo, if_neg hrepo, hget]

theorem mem_byRepo {items : List ItemId} {repo : String} {d : Dict Int ItemId} :
    (repo, d) ∈ byRepo s items ↔ d = repoItems s items repo ∧ d ≠ [] := by
  obtain ⟨hnodup, hget⟩ := byRepo_spec (s := s) items
  constructor
  · intro hmem
    have h := Dict.get?_of_mem hnodup hmem
    rw [hget] at h
    split at h
    · cases h
    · next hne => exact ⟨(Option.some.inj h).symm, Option.some.inj h ▸ hne⟩
  · rintro ⟨rfl, hne⟩
    refine Dict.mem_of_get? ?_
    rw [hget, if_neg hne]

/-! ## The sequence of a repository -/

variable (dependencies s) in
/-- The infos of a repository have its issues. -/
theorem numbers_agedInfos (d : Dict Int ItemId) :
    ((agedInfos dependencies s d).map IssueInfo.number).Perm (d.map Prod.fst) := by
  have hperm := (List.mergeSort_perm (d.map fun item =>
    ({ number := item.1, dependencies := dependencies item.2 } : IssueInfo)) fun a b =>
      issueAge s d b.number ≤ issueAge s d a.number).map IssueInfo.number
  rw [List.map_map] at hperm
  exact hperm

variable (dependencies s) in
/-- The oldest come first. -/
theorem sorted_agedInfos (d : Dict Int ItemId) :
    ((agedInfos dependencies s d).map IssueInfo.number).Pairwise fun m n =>
      issueAge s d n ≤ issueAge s d m := by
  rw [List.pairwise_map]
  refine (List.pairwise_mergeSort (fun a b c hab hbc => ?_) (fun a b => ?_) _).imp fun h => ?_
  · simp only [decide_eq_true_eq] at hab hbc ⊢
    omega
  · simp only [Bool.or_eq_true, decide_eq_true_eq]
    omega
  · exact of_decide_eq_true h

theorem needs_agedInfos {items : List ItemId} {repo : String} {m n : Int} :
    Needs (agedInfos dependencies s (repoItems s items repo)) m n
      ↔ ∃ j i, (m, j) ∈ repoItems s items repo ∧ (n, i) ∈ repoItems s items repo
        ∧ m ∈ dependencies i := by
  unfold Needs
  rw [(numbers_agedInfos dependencies s _).mem_iff, List.mem_map]
  constructor
  · rintro ⟨info, hinfo, rfl, hdep, ⟨number, j⟩, hj, rfl⟩
    obtain ⟨⟨number', i⟩, hi, rfl⟩ := List.mem_map.mp (List.mem_mergeSort.mp hinfo)
    exact ⟨j, i, hj, hi, hdep⟩
  · rintro ⟨j, i, hj, hi, hdep⟩
    exact ⟨_, List.mem_mergeSort.mpr (List.mem_map.mpr ⟨(n, i), hi, rfl⟩), rfl, hdep, (m, j), hj, rfl⟩

variable (dependencies s) in
/-- `order_for_implementation` gives every issue once, whatever depends on what. -/
theorem order_perm (d : Dict Int ItemId) (hnodup : (d.map Prod.fst).Nodup) : ∃ order,
    orderForImplementation (agedInfos dependencies s d) = .ok order ∧ order.Perm (d.map Prod.fst) := by
  have hnumbers := numbers_agedInfos dependencies s d
  by_cases hcycle : ∃ n, TransGen (Needs (agedInfos dependencies s d)) n n
  · exact ⟨_, orderForImplementation_cyclic hcycle, hnumbers⟩
  · obtain ⟨order, hok, hperm, _⟩ := orderForImplementation_acyclic fun n hn => hcycle ⟨n, hn⟩
    rw [eraseDups_of_nodup (hnumbers.nodup_iff.mpr hnodup)] at hperm
    exact ⟨order, hok, hperm.trans hnumbers⟩

variable (dependencies s) in
/-- The items of a repository in the order of their issues. -/
theorem repoSequence_ok (items : List ItemId) (repo : String) : ∃ order sequence,
    orderForImplementation (agedInfos dependencies s (repoItems s items repo)) = .ok order
      ∧ repoSequence dependencies s (repoItems s items repo) = .ok sequence
      ∧ sequence.map (fun i => (s.workItem i).issue) = order.map some
      ∧ sequence.Perm ((repoItems s items repo).map Prod.snd) := by
  have hnodup := repoItems_nodup (s := s) items repo
  obtain ⟨order, hok, hperm⟩ := order_perm dependencies s _ hnodup
  refine ⟨order, order.filterMap (repoItems s items repo).get?, hok, ?_, ?_, ?_⟩
  · unfold repoSequence
    rw [hok]
    rfl
  · have hin : ∀ n ∈ order, ∃ i, (n, i) ∈ repoItems s items repo := by
      intro n hn
      obtain ⟨⟨n', i⟩, hmem, rfl⟩ := List.mem_map.mp (hperm.mem_iff.mp hn)
      exact ⟨i, hmem⟩
    clear hok hperm
    induction order with
    | nil => rfl
    | cons n order ih =>
        obtain ⟨i, hi⟩ := hin n List.mem_cons_self
        rw [List.filterMap_cons_some (Dict.get?_of_mem hnodup hi), List.map_cons, List.map_cons,
          (mem_repoItems.mp hi).2.2, ih fun m hm => hin m (List.mem_cons_of_mem _ hm)]
  · have hself : ((repoItems s items repo).map Prod.fst).filterMap (repoItems s items repo).get?
        = (repoItems s items repo).map Prod.snd := by
      rw [List.filterMap_map]
      refine (List.filterMap_congr fun item hitem => ?_).trans
        (congrFun List.filterMap_eq_map' (repoItems s items repo))
      exact Dict.get?_of_mem hnodup hitem
    exact hself ▸ hperm.filterMap _

variable (dependencies s) in
/-- What `_select_implementation_dispatch` makes of a repository. -/
def sequenceOf (items : List ItemId) (repo : String) : List ItemId :=
  (repoSequence dependencies s (repoItems s items repo)).toOption.getD []

theorem repoSequence_eq (items : List ItemId) (repo : String) :
    repoSequence dependencies s (repoItems s items repo) = .ok (sequenceOf dependencies s items repo) := by
  obtain ⟨_, sequence, _, hok, _⟩ := repoSequence_ok dependencies s items repo
  rw [sequenceOf, hok]
  rfl

variable (dependencies s) in
/-- Its issues are in the order of the repository. -/
theorem order_sequenceOf (items : List ItemId) (repo : String) : ∃ order,
    orderForImplementation (agedInfos dependencies s (repoItems s items repo)) = .ok order
      ∧ (sequenceOf dependencies s items repo).map (fun i => (s.workItem i).issue) = order.map some := by
  obtain ⟨order, sequence, horder, hok, hissues, _⟩ := repoSequence_ok dependencies s items repo
  rw [repoSequence_eq] at hok
  exact ⟨order, horder, Except.ok.inj hok ▸ hissues⟩

theorem sequenceOf_perm (items : List ItemId) (repo : String) :
    (sequenceOf dependencies s items repo).Perm ((repoItems s items repo).map Prod.snd) := by
  obtain ⟨_, sequence, _, hok, _, hperm⟩ := repoSequence_ok dependencies s items repo
  rw [repoSequence_eq] at hok
  exact Except.ok.inj hok ▸ hperm

theorem mem_sequenceOf {items : List ItemId} {repo : String} {i : ItemId} :
    i ∈ sequenceOf dependencies s items repo ↔ Latest s items i ∧ (s.workItem i).repo = repo := by
  rw [(sequenceOf_perm items repo).mem_iff, List.mem_map]
  constructor
  · rintro ⟨⟨issue, i⟩, hmem, rfl⟩
    obtain ⟨hlatest, hrepo, _⟩ := mem_repoItems.mp hmem
    exact ⟨hlatest, hrepo⟩
  · rintro ⟨hlatest, hrepo⟩
    obtain ⟨issue, hissue⟩ := Option.isSome_iff_exists.mp hlatest.1
    exact ⟨(issue, i), mem_repoItems.mpr ⟨hlatest, hrepo, hissue⟩, rfl⟩

theorem sequenceOf_ne_nil {items : List ItemId} {repo : String} :
    sequenceOf dependencies s items repo ≠ [] ↔ repoItems s items repo ≠ [] := by
  rw [← List.length_pos_iff, ← List.length_pos_iff, (sequenceOf_perm items repo).length_eq, List.length_map]

variable (dependencies s) in
/-- No item comes twice. -/
theorem sequenceOf_nodup (items : List ItemId) (repo : String) :
    (sequenceOf dependencies s items repo).Nodup := by
  rw [(sequenceOf_perm items repo).nodup_iff]
  refine List.Nodup.of_map (fun i => (s.workItem i).issue) ?_
  have hissues : ((repoItems s items repo).map Prod.snd).map (fun i => (s.workItem i).issue)
      = ((repoItems s items repo).map Prod.fst).map some := by
    rw [List.map_map, List.map_map]
    refine List.map_congr_left fun item hitem => ?_
    exact (mem_repoItems.mp hitem).2.2
  rw [hissues]
  exact (repoItems_nodup items repo).map (Option.some_injective _)

/-! ## The merge -/

variable (dependencies s) in
/-- `sequences`, before the first item is taken. -/
def sequences (items : List ItemId) : List (List ItemId) :=
  (byRepo s items).map fun repo => sequenceOf dependencies s items repo.1

theorem mem_sequences {items : List ItemId} {sequence : List ItemId} :
    sequence ∈ sequences dependencies s items
      ↔ ∃ repo, sequence = sequenceOf dependencies s items repo ∧ sequence ≠ [] := by
  unfold sequences
  rw [List.mem_map]
  constructor
  · rintro ⟨⟨repo, d⟩, hmem, rfl⟩
    obtain ⟨rfl, hne⟩ := mem_byRepo.mp hmem
    exact ⟨repo, rfl, sequenceOf_ne_nil.mpr hne⟩
  · rintro ⟨repo, rfl, hne⟩
    exact ⟨(repo, _), mem_byRepo.mpr ⟨rfl, sequenceOf_ne_nil.mp hne⟩, rfl⟩

theorem grouped_sequences (items : List ItemId) :
    HeadMerge.Grouped (fun i => (s.workItem i).repo) (sequences dependencies s items) where
  same := by
    intro sequence hmem i hi j hj
    obtain ⟨repo, rfl, _⟩ := mem_sequences.mp hmem
    rw [(mem_sequenceOf.mp hi).2, (mem_sequenceOf.mp hj).2]
  apart := by
    have hrepos : (byRepo s items).Pairwise fun a b => a.1 ≠ b.1 :=
      List.pairwise_map.mp (byRepo_spec items).1
    refine List.pairwise_map.mpr (hrepos.imp fun hne i hi j hj => ?_)
    rw [(mem_sequenceOf.mp hi).2, (mem_sequenceOf.mp hj).2]
    exact hne

theorem mem_flatten_sequences {items : List ItemId} {i : ItemId} :
    i ∈ (sequences dependencies s items).flatten ↔ Latest s items i := by
  rw [List.mem_flatten]
  constructor
  · rintro ⟨sequence, hmem, hi⟩
    obtain ⟨repo, rfl, _⟩ := mem_sequences.mp hmem
    exact (mem_sequenceOf.mp hi).1
  · intro h
    have hi : i ∈ sequenceOf dependencies s items (s.workItem i).repo := mem_sequenceOf.mpr ⟨h, rfl⟩
    exact ⟨_, mem_sequences.mpr ⟨_, rfl, List.ne_nil_of_mem hi⟩, hi⟩

theorem nodup_flatten_sequences (items : List ItemId) :
    (sequences dependencies s items).flatten.Nodup := by
  rw [List.nodup_flatten]
  refine ⟨fun sequence hmem => ?_, (grouped_sequences items).apart.imp fun happart i hi hj => ?_⟩
  · obtain ⟨repo, rfl, _⟩ := mem_sequences.mp hmem
    exact sequenceOf_nodup dependencies s items repo
  · exact happart i hi i hj rfl

variable (dependencies s) in
/-- The items are merged; there is enough fuel for it. -/
theorem orderedItems_ok (items : List ItemId) : ∃ ordered,
    orderedItems dependencies s items = .ok ordered
      ∧ HeadMerge.Merged (frontKey s items) (sequences dependencies s items) ordered := by
  have horders : (byRepo s items).mapM (fun repo => repoSequence dependencies s repo.2)
      = .ok (sequences dependencies s items) := by
    refine mapM_ok_map fun repo hmem => ?_
    rw [(mem_byRepo.mp hmem).1]
    exact repoSequence_eq items repo.1
  have hne : ∀ sequence ∈ sequences dependencies s items, sequence ≠ [] := by
    intro sequence hmem
    obtain ⟨_, _, hne⟩ := mem_sequences.mp hmem
    exact hne
  have hall : (sequences dependencies s items).filter (· ≠ []) = sequences dependencies s items :=
    List.filter_eq_self.mpr fun sequence hmem => decide_eq_true (hne sequence hmem)
  have hfuel : (sequences dependencies s items).flatten.length ≤ items.length := by
    refine ((nodup_flatten_sequences items).subperm fun i hi => ?_).length_le
    exact (mem_flatten_sequences.mp hi).mem
  obtain ⟨ordered, hloop, hmerged⟩ : ∃ ordered, HeadMerge.mergeLoop (frontKey s items) items.length
      (sequences dependencies s items) [] = some ([] ++ ordered)
        ∧ HeadMerge.Merged (frontKey s items) (sequences dependencies s items) ordered :=
    HeadMerge.mergeLoop_spec items.length [] hne hfuel
  refine ⟨ordered, ?_, hmerged⟩
  unfold orderedItems
  simp only [horders, bind, Except.bind, hall, hloop, List.nil_append]
  rfl

/-- The items of a repository come out as its sequence. -/
theorem filter_ordered {items ordered : List ItemId}
    (h : HeadMerge.Merged (frontKey s items) (sequences dependencies s items) ordered) (repo : String) :
    ordered.filter (fun i => (s.workItem i).repo = repo) = sequenceOf dependencies s items repo := by
  rw [h.filter_group (grouped_sequences items)]
  by_cases hnil : sequenceOf dependencies s items repo = []
  · rw [hnil, List.filter_eq_nil_iff]
    intro i hi hrepo
    have hmem : i ∈ sequenceOf dependencies s items repo :=
      mem_sequenceOf.mpr ⟨mem_flatten_sequences.mp hi, of_decide_eq_true hrepo⟩
    rw [hnil] at hmem
    cases hmem
  · obtain ⟨i, hi⟩ := List.exists_mem_of_ne_nil _ hnil
    obtain rfl := (mem_sequenceOf.mp hi).2
    exact (grouped_sequences items).filter_flatten (mem_sequences.mpr ⟨_, rfl, hnil⟩) hi

/-! ## The order of a repository -/

/-- What a place in a sorted list says of the keys. -/
theorem rel_of_idxOf_le {α : Type} [DecidableEq α] {r : α → α → Prop} {l : List α}
    (h : l.Pairwise r) (hrefl : ∀ a, r a a) {a b : α} (hb : b ∈ l) (hle : l.idxOf a ≤ l.idxOf b) :
    r a b := by
  have hlast := List.idxOf_lt_length_iff.mpr hb
  have ha := List.idxOf_lt_length_iff.mp (Nat.lt_of_le_of_lt hle hlast)
  rcases Nat.lt_or_eq_of_le hle with hlt | heq
  · have hrel := List.pairwise_iff_getElem.mp h _ _ (List.idxOf_lt_length_iff.mpr ha) hlast hlt
    rwa [List.getElem_idxOf, List.getElem_idxOf] at hrel
  · rw [(List.idxOf_inj ha).mp heq]
    exact hrefl b

theorem issueAge_of_mem {items : List ItemId} {repo : String} {issue : Int} {i : ItemId}
    (h : (issue, i) ∈ repoItems s items repo) :
    issueAge s (repoItems s items repo) issue = fileOverlapDeferralAge s i := by
  rw [issueAge, Dict.get?_of_mem (repoItems_nodup items repo) h]
  rfl

/-- An issue has one latest item. -/
theorem Latest.unique {items : List ItemId} {i j : ItemId} (hi : Latest s items i)
    (hj : Latest s items j) (hrepo : (s.workItem i).repo = (s.workItem j).repo)
    (hissue : (s.workItem i).issue = (s.workItem j).issue) : i = j := by
  have hfound := hi.2
  rw [hrepo, hissue] at hfound
  exact Option.some.inj (hfound.symm.trans hj.2)

/-- What the issues of a repository need is what its items need. -/
theorem needs_iff {items : List ItemId} {repo : String} {m n : Int} :
    Needs (agedInfos dependencies s (repoItems s items repo)) m n
      ↔ ∃ j i, NeededBy dependencies s items j i ∧ (s.workItem i).repo = repo
        ∧ (s.workItem j).issue = some m ∧ (s.workItem i).issue = some n := by
  rw [needs_agedInfos]
  constructor
  · rintro ⟨j, i, hj, hi, hdep⟩
    obtain ⟨hj, hjrepo, hjissue⟩ := mem_repoItems.mp hj
    obtain ⟨hi, hirepo, hiissue⟩ := mem_repoItems.mp hi
    exact ⟨j, i, ⟨hj, hi, hjrepo.trans hirepo.symm, m, hdep, hjissue⟩, hirepo, hjissue, hiissue⟩
  · rintro ⟨j, i, ⟨hj, hi, hrepo, number, hdep, hnumber⟩, hirepo, hjissue, hiissue⟩
    obtain rfl : number = m := Option.some.inj (hnumber.symm.trans hjissue)
    exact ⟨j, i, mem_repoItems.mpr ⟨hj, hrepo.trans hirepo, hjissue⟩,
      mem_repoItems.mpr ⟨hi, hirepo, hiissue⟩, hdep⟩

/-- The issues go around where the items do. -/
theorem circle_iff {items : List ItemId} {repo : String} :
    (∃ n, TransGen (Needs (agedInfos dependencies s (repoItems s items repo))) n n)
      ↔ ∃ i, (s.workItem i).repo = repo ∧ TransGen (NeededBy dependencies s items) i i := by
  constructor
  · rintro ⟨n, hn⟩
    -- The item that an issue looks up.
    let itemOf (number : Int) : ItemId := ((repoItems s items repo).get? number).getD 0
    have hitem : ∀ {number i}, Latest s items i → (s.workItem i).repo = repo →
        (s.workItem i).issue = some number → itemOf number = i := by
      intro number i hlatest hrepo hissue
      have hmem := mem_repoItems.mpr ⟨hlatest, hrepo, hissue⟩
      show ((repoItems s items repo).get? number).getD 0 = i
      rw [Dict.get?_of_mem (repoItems_nodup items repo) hmem]
      rfl
    refine ⟨itemOf n, ?_, hn.lift itemOf fun m n hneeds => ?_⟩
    · obtain ⟨m, _, hneeds⟩ := Relation.TransGen.tail'_iff.mp hn
      obtain ⟨j, i, ⟨_, hi, _⟩, hrepo, _, hissue⟩ := needs_iff.mp hneeds
      rw [hitem hi hrepo hissue]
      exact hrepo
    · obtain ⟨j, i, hneeded, hrepo, hjissue, hissue⟩ := needs_iff.mp hneeds
      show NeededBy dependencies s items (itemOf m) (itemOf n)
      rw [hitem hneeded.2.1 hrepo hissue, hitem hneeded.1 (hneeded.2.2.1.trans hrepo) hjissue]
      exact hneeded
  · rintro ⟨i, hrepo, hcircle⟩
    have hlift : ∀ {j i}, TransGen (NeededBy dependencies s items) j i → (s.workItem i).repo = repo →
        TransGen (Needs (agedInfos dependencies s (repoItems s items repo)))
          ((s.workItem j).issue.getD 0) ((s.workItem i).issue.getD 0) := by
      have hstep : ∀ {j i}, NeededBy dependencies s items j i → (s.workItem i).repo = repo →
          Needs (agedInfos dependencies s (repoItems s items repo))
            ((s.workItem j).issue.getD 0) ((s.workItem i).issue.getD 0) := by
        intro j i hneeded hrepo
        obtain ⟨m, hm⟩ := Option.isSome_iff_exists.mp hneeded.1.1
        obtain ⟨n, hn⟩ := Option.isSome_iff_exists.mp hneeded.2.1.1
        rw [hm, hn]
        exact needs_iff.mpr ⟨j, i, hneeded, hrepo, hm, hn⟩
      intro j i h
      induction h with
      | single h => exact fun hrepo => .single (hstep h hrepo)
      | tail _ h ih => exact fun hrepo => (ih (h.2.2.1.trans hrepo)).tail (hstep h hrepo)
    exact ⟨_, hlift hcircle hrepo⟩

/-- Where the dependencies go around, the ones deferred most often come first. -/
theorem sequenceOf_cyclic {items : List ItemId} {repo : String}
    (h : ∃ i, (s.workItem i).repo = repo ∧ TransGen (NeededBy dependencies s items) i i) :
    (sequenceOf dependencies s items repo).Pairwise fun i j =>
      fileOverlapDeferralAge s j ≤ fileOverlapDeferralAge s i := by
  obtain ⟨order, horder, hissues⟩ := order_sequenceOf dependencies s items repo
  rw [orderForImplementation_cyclic (circle_iff.mpr h)] at horder
  obtain rfl := Except.ok.inj horder
  have hages : (sequenceOf dependencies s items repo).map (fileOverlapDeferralAge s)
      = ((agedInfos dependencies s (repoItems s items repo)).map IssueInfo.number).map
        (issueAge s (repoItems s items repo)) := by
    have hof := congrArg (List.map fun issue : Option Int =>
      issueAge s (repoItems s items repo) (issue.getD 0)) hissues
    rw [List.map_map, List.map_map] at hof
    refine (List.map_congr_left fun i hi => ?_).trans hof
    obtain ⟨hlatest, hrepo⟩ := mem_sequenceOf.mp hi
    obtain ⟨n, hn⟩ := Option.isSome_iff_exists.mp hlatest.1
    show _ = issueAge s _ ((s.workItem i).issue.getD 0)
    rw [hn]
    exact (issueAge_of_mem (mem_repoItems.mpr ⟨hlatest, hrepo, hn⟩)).symm
  have hsorted : (((agedInfos dependencies s (repoItems s items repo)).map IssueInfo.number).map
      (issueAge s (repoItems s items repo))).Pairwise fun m n => n ≤ m :=
    List.pairwise_map.mpr (sorted_agedInfos dependencies s _)
  rw [← hages] at hsorted
  exact List.pairwise_map.mp hsorted

/-- Where none goes around, what an item needs is before it, and of the ready ones the one
deferred most often is next. -/
theorem sequenceOf_acyclic {items : List ItemId} {repo : String}
    (h : ∀ i, (s.workItem i).repo = repo → ¬ TransGen (NeededBy dependencies s items) i i)
    {before after : List ItemId} {i : ItemId}
    (hsplit : sequenceOf dependencies s items repo = before ++ i :: after) :
    (∀ j, NeededBy dependencies s items j i → j ∈ before)
      ∧ ∀ j ∈ after, (∀ k, NeededBy dependencies s items k j → k ∈ before) →
        fileOverlapDeferralAge s j ≤ fileOverlapDeferralAge s i := by
  obtain ⟨order, horder, hissues⟩ := order_sequenceOf dependencies s items repo
  have hacyclic : ∀ n, ¬ TransGen (Needs (agedInfos dependencies s (repoItems s items repo))) n n := by
    intro n hn
    obtain ⟨j, hrepo, hj⟩ := circle_iff.mp ⟨n, hn⟩
    exact h j hrepo hj
  obtain ⟨_, hok, _, hgreedy⟩ := orderForImplementation_acyclic hacyclic
  obtain rfl := Except.ok.inj (horder.symm.trans hok)
  have hkeys := (numbers_agedInfos dependencies s (repoItems s items repo)).nodup_iff.mpr
    (repoItems_nodup items repo)
  rw [eraseDups_of_nodup hkeys] at hgreedy
  -- The issues are split where the items are.
  rw [hsplit, List.map_append, List.map_cons] at hissues
  obtain ⟨earlier, rest, rfl, hearlier, hrest⟩ := List.map_eq_append_iff.mp hissues.symm
  obtain ⟨n, later, rfl, hn, hlater⟩ := List.map_eq_cons_iff.mp hrest
  obtain ⟨hneeds, hnext⟩ := hgreedy earlier n later rfl
  have hmem : ∀ {j}, j ∈ before ++ i :: after → Latest s items j ∧ (s.workItem j).repo = repo := by
    intro j hj
    rw [← hsplit] at hj
    exact mem_sequenceOf.mp hj
  have hi := hmem (List.mem_append_right _ List.mem_cons_self)
  have hbefore : ∀ {j m}, Latest s items j → (s.workItem j).repo = repo →
      (s.workItem j).issue = some m → (m ∈ earlier ↔ j ∈ before) := by
    intro j m hj hrepo hm
    rw [← List.mem_map_of_injective (Option.some_injective Int), hearlier, List.mem_map]
    constructor
    · rintro ⟨k, hk, hkm⟩
      have hk' := hmem (List.mem_append_left _ hk)
      rw [← hk'.1.unique hj (hk'.2.trans hrepo.symm) (hkm.trans hm.symm)]
      exact hk
    · exact fun hj => ⟨j, hj, hm⟩
  refine ⟨fun j hj => ?_, fun j hj hready => ?_⟩
  · obtain ⟨m, _, hm⟩ := hj.2.2.2
    have hneed := needs_iff.mpr ⟨j, i, hj, hi.2, hm, hn.symm⟩
    exact (hbefore hj.1 (hj.2.2.1.trans hi.2) hm).mp (hneeds m hneed)
  · have hj' := hmem (List.mem_append_right _ (List.mem_cons_of_mem _ hj))
    obtain ⟨m, hm⟩ := Option.isSome_iff_exists.mp hj'.1.1
    have hjmem := mem_repoItems.mpr ⟨hj'.1, hj'.2, hm⟩
    have himem := mem_repoItems.mpr ⟨hi.1, hi.2, hn.symm⟩
    have hnew : m ∉ earlier := by
      intro hin
      have hdup := sequenceOf_nodup dependencies s items repo
      rw [hsplit, List.nodup_append] at hdup
      exact hdup.2.2 j ((hbefore hj'.1 hj'.2 hm).mp hin) j (List.mem_cons_of_mem _ hj) rfl
    have hfree : ∀ d, Needs (agedInfos dependencies s (repoItems s items repo)) d m → d ∈ earlier := by
      intro d hd
      obtain ⟨k, l, hk, hlrepo, hkd, hlm⟩ := needs_iff.mp hd
      obtain rfl := hk.2.1.unique hj'.1 (hlrepo.trans hj'.2.symm) (hlm.trans hm.symm)
      exact (hbefore hk.1 (hk.2.2.1.trans hlrepo) hkd).mpr (hready k hk)
    have hkey : m ∈ (agedInfos dependencies s (repoItems s items repo)).map IssueInfo.number :=
      (numbers_agedInfos dependencies s _).mem_iff.mpr (List.mem_map.mpr ⟨_, hjmem, rfl⟩)
    have hage := rel_of_idxOf_le (sorted_agedInfos dependencies s _) (fun _ => Int.le_refl _) hkey
      (hnext m hkey hnew hfree)
    rw [issueAge_of_mem hjmem, issueAge_of_mem himem] at hage
    exact hage

/-! ## The dispatch -/

/-- The dispatch takes the merged items, through the file overlaps where these are kept. -/
theorem selectImplementationDispatch_eq (w : World ω)
    (plans : ItemId → Except PlanReadError (List String)) (items : List ItemId) : ∃ ordered,
    orderedItems dependencies s items = .ok ordered
      ∧ (selectImplementationDispatch host dependencies w plans items).exec s
        = (if overlapSerializationEnabled host then
            selectFileOverlapImplementationItems host w plans ordered else pure ordered).exec s
      ∧ HeadMerge.Merged (frontKey s items) (sequences dependencies s items) ordered := by
  obtain ⟨ordered, hok, hmerged⟩ := orderedItems_ok dependencies s items
  refine ⟨ordered, hok, ?_, hmerged⟩
  unfold selectImplementationDispatch
  rw [Command.exec_bind, Command.exec_get]
  dsimp only
  rw [hok]

/-- The dispatch considers the last queued item of every issue, and each once. Whatever it
takes was deferred as often as the first item left of any other repository, and of two that
were deferred as often it is the one queued earlier. -/
theorem selectImplementationDispatch_fronts (w : World ω)
    (plans : ItemId → Except PlanReadError (List String)) (items : List ItemId) : ∃ ordered,
    orderedItems dependencies s items = .ok ordered
      ∧ (selectImplementationDispatch host dependencies w plans items).exec s
        = (if overlapSerializationEnabled host then
            selectFileOverlapImplementationItems host w plans ordered else pure ordered).exec s
      ∧ ordered.Nodup ∧ (∀ i, i ∈ ordered ↔ Latest s items i)
      ∧ ∀ before i after, ordered = before ++ i :: after → ∀ repo j,
        ((i :: after).filter fun k => (s.workItem k).repo = repo).head? = some j →
          fileOverlapDeferralAge s j < fileOverlapDeferralAge s i
            ∨ fileOverlapDeferralAge s j = fileOverlapDeferralAge s i
              ∧ positionOf items i ≤ positionOf items j := by
  obtain ⟨ordered, hok, hexec, hmerged⟩ := selectImplementationDispatch_eq host w plans items
  refine ⟨ordered, hok, hexec, hmerged.perm.nodup_iff.mpr (nodup_flatten_sequences items), fun i => ?_, ?_⟩
  · rw [hmerged.perm.mem_iff]
    exact mem_flatten_sequences
  · intro before i after hsplit repo j hj
    have hle := hmerged.greatest (grouped_sequences items) hsplit hj
    rcases Prod.Lex.le_iff.mp hle with hlt | ⟨heq, hle⟩
    · exact .inl hlt
    · refine .inr ⟨heq, ?_⟩
      have hle : -(positionOf items j : Int) ≤ -(positionOf items i : Int) := hle
      omega

/-- The dispatch considers an item after the queued items of its repository that it depends
on, and of those that wait for nothing the one deferred most often. In a repository where
some item waits for itself, it considers the ones deferred most often first. -/
theorem selectImplementationDispatch_dependencies (w : World ω)
    (plans : ItemId → Except PlanReadError (List String)) (items : List ItemId) : ∃ ordered,
    orderedItems dependencies s items = .ok ordered
      ∧ (selectImplementationDispatch host dependencies w plans items).exec s
        = (if overlapSerializationEnabled host then
            selectFileOverlapImplementationItems host w plans ordered else pure ordered).exec s
      ∧ ordered.Nodup ∧ (∀ i, i ∈ ordered ↔ Latest s items i)
      ∧ ∀ repo,
        ((∃ i, (s.workItem i).repo = repo ∧ TransGen (NeededBy dependencies s items) i i) →
          (ordered.filter fun i => (s.workItem i).repo = repo).Pairwise fun i j =>
            fileOverlapDeferralAge s j ≤ fileOverlapDeferralAge s i)
        ∧ ((∀ i, (s.workItem i).repo = repo → ¬ TransGen (NeededBy dependencies s items) i i) →
          ∀ before i after, ordered = before ++ i :: after → (s.workItem i).repo = repo →
            (∀ j, NeededBy dependencies s items j i → j ∈ before)
              ∧ ∀ j ∈ after, (s.workItem j).repo = repo →
                (∀ k, NeededBy dependencies s items k j → k ∈ before) →
                fileOverlapDeferralAge s j ≤ fileOverlapDeferralAge s i) := by
  obtain ⟨ordered, hok, hexec, hmerged⟩ := selectImplementationDispatch_eq host w plans items
  refine ⟨ordered, hok, hexec, hmerged.perm.nodup_iff.mpr (nodup_flatten_sequences items), fun i => ?_,
    fun repo => ⟨fun hcircle => ?_, ?_⟩⟩
  · rw [hmerged.perm.mem_iff]
    exact mem_flatten_sequences
  · rw [filter_ordered hmerged]
    exact sequenceOf_cyclic hcircle
  · rintro hacyclic before i after hsplit rfl
    have hmine := filter_ordered hmerged (s.workItem i).repo
    rw [hsplit, List.filter_append, List.filter_cons, if_pos (decide_eq_true rfl)] at hmine
    obtain ⟨hneeds, hnext⟩ := sequenceOf_acyclic hacyclic hmine.symm
    refine ⟨fun j hj => List.mem_of_mem_filter (hneeds j hj), fun j hj hrepo hready => ?_⟩
    refine hnext j (List.mem_filter.mpr ⟨hj, decide_eq_true hrepo⟩) fun k hk => ?_
    exact List.mem_filter.mpr ⟨hready k hk, decide_eq_true (hk.2.2.1.trans hrepo)⟩

end Hephaestus.Pipeline
