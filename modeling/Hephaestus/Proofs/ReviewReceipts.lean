import Mathlib.Data.Nat.Find
import Hephaestus.Automation.ReviewReceipts

/-!
# The receipts are a perfect matching

The loop takes a thread for a requested comment as long as one with its key is
left, so of the eligible threads with one key it takes the first ones, as many as
were requested. The invariant counts: what is unmatched of a key is what was
requested of it less what was seen of it. That makes the receipts a matching of
the keys on any pages. Two things it does not make them. Nothing remembers which
threads were taken, so a thread that two pages list is taken twice where two
comments with its key were requested; and only the last cursor is compared, so
a server that goes back and forth between two of them is asked for ever.
-/

namespace Hephaestus.Automation

open Hephaestus.Lib

/-! ## What is asked of the receipts -/

/-- The receipts prove the requested comments one for one. -/
structure PerfectMatching (reviewId : String) (requested : List RequestedComment)
    (threads : List ReceiptThread) (receipts : List ThreadReceipt) : Prop where
  distinct : (receipts.map ThreadReceipt.id).Nodup
  matched : (receipts.map ThreadReceipt.key).Perm (requested.map RequestedComment.key)
  proven : ∀ r ∈ receipts, ∃ thread ∈ threads, thread.isResolved = false ∧
    thread.moreComments = false ∧ ∃ comment, thread.comments = [comment] ∧
      comment.reviewId = reviewId ∧ r = thread.receipt comment reviewId

/-- The threads of the answer to the `k`-th request. -/
def pageThreads (pages : Nat → Option ReceiptPage) (k : Nat) : List ReceiptThread :=
  (pages k).elim [] ReceiptPage.threads

/-- The threads of the answers to the first requests. -/
def threadsRead (pages : Nat → Option ReceiptPage) (requests : Nat) : List ReceiptThread :=
  (List.range requests).flatMap (pageThreads pages)

/-- The loop ends with the answer to some request, and it returns nothing or a perfect
matching with the threads read by then, or raises. -/
def ReceiptsMatched (reviewId : String) (requested : List RequestedComment)
    (pages : Nat → Option ReceiptPage)
    (run : Nat → Option (Except ReceiptReadError (List ThreadReceipt))) : Prop :=
  ∃ requests result, run requests = some result ∧ (∀ n < requests, run n = none) ∧
    ∀ receipts, result = .ok receipts → receipts = [] ∨
      PerfectMatching reviewId requested (threadsRead pages requests) receipts

/-! ## Which threads are taken -/

/-- The only comment of a thread that can be taken. -/
def ReceiptThread.sole? (reviewId : String) (thread : ReceiptThread) : Option ReceiptComment :=
  if thread.isResolved = true ∨ thread.moreComments = true then none
  else
    match thread.comments with
    | [comment] =>
        if comment.reviewId = reviewId ∧ thread.id ≠ "" ∧ comment.id ≠ "" ∧ comment.login ≠ "" then
          some comment
        else none
    | _ => none

/-- The threads that can be taken, each with its comment. -/
def eligible (reviewId : String) (threads : List ReceiptThread) :
    List (ReceiptThread × ReceiptComment) :=
  threads.filterMap fun thread => (thread.sole? reviewId).map fun comment => (thread, comment)

/-- The keys of threads with their comments. -/
def keysOf (threads : List (ReceiptThread × ReceiptComment)) : List CommentKey :=
  threads.map fun x => x.1.key x.2

/-- Of the threads with one key the first ones, as many as are expected, where some
keys were seen before. -/
def takenOf (expected : List CommentKey) : List CommentKey →
    List (ReceiptThread × ReceiptComment) → List (ReceiptThread × ReceiptComment)
  | _, [] => []
  | seen, x :: rest =>
      if seen.count (x.1.key x.2) < expected.count (x.1.key x.2) then
        x :: takenOf expected (seen ++ [x.1.key x.2]) rest
      else takenOf expected (seen ++ [x.1.key x.2]) rest

/-- Fewer threads with some key than comments with it. -/
def Short (expected : List CommentKey) (threads : List (ReceiptThread × ReceiptComment)) : Prop :=
  ∃ key ∈ expected, (keysOf threads).count key < expected.count key

instance (expected : List CommentKey) (threads : List (ReceiptThread × ReceiptComment)) :
    Decidable (Short expected threads) :=
  inferInstanceAs (Decidable (∃ key ∈ expected, (keysOf threads).count key < expected.count key))

/-- The receipt of a thread with its comment. -/
def threadReceiptOf (reviewId : String) (x : ReceiptThread × ReceiptComment) : ThreadReceipt :=
  x.1.receipt x.2 reviewId

variable {reviewId : String} {requested : List RequestedComment} {expected seen : List CommentKey}
  {pages : Nat → Option ReceiptPage} {m : Matching} {thread : ReceiptThread}
  {comment : ReceiptComment} {k : Nat}

theorem sole?_eq_some (h : thread.sole? reviewId = some comment) :
    thread.isResolved = false ∧ thread.moreComments = false ∧ thread.comments = [comment] ∧
      comment.reviewId = reviewId := by
  unfold ReceiptThread.sole? at h
  split at h
  · cases h
  · next hopen =>
    rw [not_or, Bool.not_eq_true, Bool.not_eq_true] at hopen
    split at h
    · next only hcomments =>
      split at h
      · next hof =>
        obtain rfl := Option.some.inj h
        exact ⟨hopen.1, hopen.2, hcomments, hof.1⟩
      · cases h
    · cases h

theorem take_of_none (h : thread.sole? reviewId = none) : m.take reviewId thread = m := by
  unfold ReceiptThread.sole? at h
  unfold Matching.take
  split
  · rfl
  · next hopen =>
    rw [if_neg hopen] at h
    split
    · next only hcomments =>
      rw [hcomments] at h
      simp only [ite_eq_right_iff, reduceCtorEq, imp_false] at h
      split
      · rfl
      · next hof => exact if_pos (by grind)
    · rfl

theorem take_of_some (h : thread.sole? reviewId = some comment) :
    m.take reviewId thread =
      if thread.key comment ∈ m.unmatched then
        { unmatched := m.unmatched.erase (thread.key comment)
          receipts := m.receipts ++ [thread.receipt comment reviewId] }
      else m := by
  obtain ⟨hopen, hmore, hcomments, hof⟩ := sole?_eq_some h
  unfold ReceiptThread.sole? at h
  unfold Matching.take
  simp only [hopen, hmore, hcomments, hof, Bool.false_eq_true, or_self, if_false, true_and,
    Option.ite_none_right_eq_some, and_true, ne_eq, not_true_eq_false] at h ⊢
  by_cases hkey : thread.key comment ∈ m.unmatched
  · rw [if_pos hkey, if_neg (by grind)]
  · rw [if_neg hkey, if_pos (by grind)]

theorem eligible_cons (threads : List ReceiptThread) : eligible reviewId (thread :: threads) =
    ((thread.sole? reviewId).map fun comment => (thread, comment)).toList ++
      eligible reviewId threads := by
  unfold eligible
  rw [List.filterMap_cons]
  cases thread.sole? reviewId with
  | none => rfl
  | some comment => rfl

/-- What the inner loop makes of a list of threads, where `seen` came before. -/
theorem foldl_take (threads : List ReceiptThread) :
    ∀ (seen : List CommentKey) (m : Matching),
      (∀ key, m.unmatched.count key = expected.count key - seen.count key) →
      (threads.foldl (Matching.take reviewId) m).receipts = m.receipts ++
          (takenOf expected seen (eligible reviewId threads)).map (threadReceiptOf reviewId) ∧
        ∀ key, (threads.foldl (Matching.take reviewId) m).unmatched.count key =
          expected.count key - (seen ++ keysOf (eligible reviewId threads)).count key := by
  induction threads with
  | nil =>
      intro seen m hcount
      refine ⟨(List.append_nil _).symm, fun key => ?_⟩
      rw [show keysOf (eligible reviewId []) = [] from rfl, List.append_nil]
      exact hcount key
  | cons thread threads ih =>
      intro seen m hcount
      rw [List.foldl_cons, eligible_cons]
      cases hsole : thread.sole? reviewId with
      | none =>
          rw [take_of_none hsole]
          exact ih seen m hcount
      | some comment =>
          rw [take_of_some hsole]
          have hmem : thread.key comment ∈ m.unmatched ↔
              seen.count (thread.key comment) < expected.count (thread.key comment) := by
            rw [← List.count_pos_iff, hcount]
            omega
          have hkeys : seen ++ keysOf ((thread, comment) :: eligible reviewId threads) =
              (seen ++ [thread.key comment]) ++ keysOf (eligible reviewId threads) := by
            simp [keysOf]
          show _ = _ ++ List.map _ (takenOf expected seen
            ((thread, comment) :: eligible reviewId threads)) ∧ ∀ key, _ = _ - List.count key
              (seen ++ keysOf ((thread, comment) :: eligible reviewId threads))
          rw [hkeys, takenOf]
          by_cases hleft : thread.key comment ∈ m.unmatched
          · rw [if_pos hleft, if_pos (hmem.mp hleft)]
            have hnext := ih (seen ++ [thread.key comment])
              { unmatched := m.unmatched.erase (thread.key comment)
                receipts := m.receipts ++ [thread.receipt comment reviewId] } fun key => by
                  rw [List.count_erase, hcount, List.count_append, List.count_singleton]
                  omega
            refine ⟨?_, hnext.2⟩
            rw [hnext.1, List.map_cons, List.append_assoc]
            rfl
          · have hfull : ¬ seen.count (thread.key comment) < expected.count (thread.key comment) :=
              hleft ∘ hmem.mpr
            rw [if_neg hleft, if_neg hfull]
            refine ih (seen ++ [thread.key comment]) m fun key => ?_
            rw [hcount, List.count_append, List.count_singleton]
            -- a key that was seen as often as expected stays at none
            split
            · next heq =>
              obtain rfl := eq_of_beq heq
              omega
            · omega

/-- Requested and taken are the same keys, as many times, but for what is unmatched. -/
theorem foldl_take_perm (threads : List ReceiptThread) : ∀ m : Matching,
    ((threads.foldl (Matching.take reviewId) m).unmatched ++
      (threads.foldl (Matching.take reviewId) m).receipts.map ThreadReceipt.key).Perm
      (m.unmatched ++ m.receipts.map ThreadReceipt.key) := by
  induction threads with
  | nil => exact fun m => .refl _
  | cons thread threads ih =>
      intro m
      refine (ih _).trans ?_
      cases hsole : thread.sole? reviewId with
      | none => rw [take_of_none hsole]
      | some comment =>
          rw [take_of_some hsole]
          split
          · next hleft =>
            have hkey : (thread.receipt comment reviewId).key = thread.key comment := rfl
            rw [List.map_append, List.map_singleton, hkey, ← List.append_assoc]
            refine (@List.perm_append_comm _ _ [_]).trans ?_
            exact (List.perm_cons_erase hleft).symm.append_right _
          · exact .refl _

theorem unmatched_eq_nil_iff (threads : List ReceiptThread) :
    (threads.foldl (Matching.take reviewId) { unmatched := expected }).unmatched = [] ↔
      ¬ Short expected (eligible reviewId threads) := by
  have hcount := (@foldl_take reviewId expected threads [] { unmatched := expected }
    fun key => (Nat.sub_zero _).symm).2
  simp only [List.nil_append] at hcount
  constructor
  · rintro hnil ⟨key, hkey, hshort⟩
    have := hcount key
    rw [hnil, List.count_nil] at this
    omega
  · intro henough
    refine List.eq_nil_iff_forall_not_mem.mpr fun key hmem => ?_
    have hpos := List.count_pos_iff.mpr hmem
    rw [hcount] at hpos
    have hkey : key ∈ expected := List.count_pos_iff.mp (by omega)
    exact henough ⟨key, hkey, by omega⟩

/-! ## The loop -/

/-- The cursor the `k`-th request is sent with. -/
def cursorAt (pages : Nat → Option ReceiptPage) : Nat → Option String
  | 0 => none
  | k + 1 => (pages k).bind ReceiptPage.endCursor

/-- Another request follows the `k`-th: the page says so, and names a cursor that is not
the one it was asked with. -/
def Continues (pages : Nat → Option ReceiptPage) (k : Nat) : Prop :=
  ∃ page cursor, pages k = some page ∧ page.hasNextPage = true ∧
    page.endCursor = some cursor ∧ cursor ≠ "" ∧ some cursor ≠ cursorAt pages k

/-- The answer to the `k`-th request is a last page. -/
def IsLast (pages : Nat → Option ReceiptPage) (k : Nat) : Prop :=
  ∃ page, pages k = some page ∧ page.hasNextPage = false

theorem pageThreads_of {page : ReceiptPage} (h : pages k = some page) :
    pageThreads pages k = page.threads := by
  unfold pageThreads
  rw [h]
  rfl

theorem threadsRead_succ (k : Nat) :
    threadsRead pages (k + 1) = threadsRead pages k ++ pageThreads pages k := by
  unfold threadsRead
  rw [List.range_succ, List.flatMap_append, List.flatMap_singleton]

theorem readReceipts_continues (h : Continues pages k) (fuel : Nat) :
    readReceipts reviewId requested pages (fuel + 1) k (cursorAt pages k) m =
      readReceipts reviewId requested pages fuel (k + 1) (cursorAt pages (k + 1))
        ((pageThreads pages k).foldl (Matching.take reviewId) m) := by
  obtain ⟨page, cursor, hpage, hnext, hcursor, hne, hother⟩ := h
  have hafter : cursorAt pages (k + 1) = some cursor := by
    rw [cursorAt, hpage]
    exact hcursor
  rw [readReceipts, hpage, pageThreads_of hpage, hafter]
  simp only [hnext, hcursor, if_true]
  rw [if_neg (not_or.mpr ⟨hne, hother⟩)]

/-- As long as the pages go on, so does the loop. -/
theorem readReceipts_reaches {n : Nat} (h : ∀ j < n, Continues pages j) (fuel : Nat) :
    readReceipts reviewId requested pages (n + fuel) 0 none m =
      readReceipts reviewId requested pages fuel n (cursorAt pages n)
        ((threadsRead pages n).foldl (Matching.take reviewId) m) := by
  induction n generalizing fuel with
  | zero =>
      rw [Nat.zero_add]
      rfl
  | succ n ih =>
      have hn := ih (fun j hj => h j (by omega)) (fuel + 1)
      rw [readReceipts_continues (h n (Nat.lt_succ_self n))] at hn
      rw [threadsRead_succ, List.foldl_append, ← hn]
      congr 1
      omega

theorem readReceipts_last {page : ReceiptPage} (hpage : pages k = some page)
    (hlast : page.hasNextPage = false) (fuel : Nat) :
    readReceipts reviewId requested pages (fuel + 1) k (cursorAt pages k) m =
      some (.ok (if ((pageThreads pages k).foldl (Matching.take reviewId) m).unmatched ≠ [] ∨
          ((pageThreads pages k).foldl (Matching.take reviewId) m).receipts.length ≠
            requested.length then []
        else ((pageThreads pages k).foldl (Matching.take reviewId) m).receipts)) := by
  rw [readReceipts, hpage, pageThreads_of hpage]
  simp only [hlast, Bool.false_eq_true, if_false]
  split
  · rfl
  · rfl

theorem readReceipts_raises (hstop : ¬ Continues pages k) (hlast : ¬ IsLast pages k) (fuel : Nat) :
    ∃ e, readReceipts reviewId requested pages (fuel + 1) k (cursorAt pages k) m =
      some (.error e) := by
  rw [readReceipts]
  cases hpage : pages k with
  | none => exact ⟨_, rfl⟩
  | some page =>
      have hnext : page.hasNextPage = true := by
        by_contra hno
        exact hlast ⟨page, hpage, Bool.not_eq_true _ ▸ hno⟩
      simp only [hnext, if_true]
      cases hcursor : page.endCursor with
      | none => exact ⟨_, rfl⟩
      | some cursor =>
          have hbad : cursor = "" ∨ some cursor = cursorAt pages k := by
            by_contra hgood
            rw [not_or] at hgood
            exact hstop ⟨page, cursor, hpage, hnext, hcursor, hgood.1, hgood.2⟩
          exact ⟨_, if_pos hbad⟩

/-! ## The condition -/

/-- The pages end; and where the last of them has enough threads for the requested
comments, no thread is listed twice among those that are taken. -/
def Proves (reviewId : String) (requested : List RequestedComment)
    (pages : Nat → Option ReceiptPage) : Prop :=
  ∃ k, (∀ j < k, Continues pages j) ∧ ¬ Continues pages k ∧
    (IsLast pages k →
      Short (requested.map RequestedComment.key) (eligible reviewId (threadsRead pages (k + 1))) ∨
        ((takenOf (requested.map RequestedComment.key) []
          (eligible reviewId (threadsRead pages (k + 1)))).map fun x => x.1.id).Nodup)

/-- The matching the loop has after some threads. -/
def matchingOf (reviewId : String) (requested : List RequestedComment)
    (threads : List ReceiptThread) : Matching :=
  threads.foldl (Matching.take reviewId) { unmatched := requested.map RequestedComment.key }

theorem matchingOf_receipts (threads : List ReceiptThread) :
    (matchingOf reviewId requested threads).receipts =
      (takenOf (requested.map RequestedComment.key) [] (eligible reviewId threads)).map
        (threadReceiptOf reviewId) :=
  (foldl_take threads [] _ fun _ => (Nat.sub_zero _).symm).1

theorem matchingOf_unmatched (threads : List ReceiptThread) :
    (matchingOf reviewId requested threads).unmatched = [] ↔
      ¬ Short (requested.map RequestedComment.key) (eligible reviewId threads) :=
  unmatched_eq_nil_iff threads

/-- Once nothing is unmatched the keys of the receipts are those requested. -/
theorem matchingOf_perm {threads : List ReceiptThread}
    (h : (matchingOf reviewId requested threads).unmatched = []) :
    ((matchingOf reviewId requested threads).receipts.map ThreadReceipt.key).Perm
      (requested.map RequestedComment.key) := by
  have hperm := @foldl_take_perm reviewId threads
    { unmatched := requested.map RequestedComment.key }
  change ((matchingOf reviewId requested threads).unmatched ++ _).Perm _ at hperm
  rw [h, List.nil_append, List.map_nil, List.append_nil] at hperm
  exact hperm

theorem mem_takenOf {x : ReceiptThread × ReceiptComment} :
    ∀ {threads : List (ReceiptThread × ReceiptComment)} {seen : List CommentKey},
      x ∈ takenOf expected seen threads → x ∈ threads
  | y :: rest, seen, h => by
      rw [takenOf] at h
      split at h
      · rcases List.mem_cons.mp h with rfl | h
        · exact List.mem_cons_self
        · exact List.mem_cons_of_mem _ (mem_takenOf h)
      · exact List.mem_cons_of_mem _ (mem_takenOf h)

theorem mem_eligible {x : ReceiptThread × ReceiptComment} {threads : List ReceiptThread}
    (h : x ∈ eligible reviewId threads) :
    x.1 ∈ threads ∧ x.1.sole? reviewId = some x.2 := by
  obtain ⟨thread, hmem, hx⟩ := List.mem_filterMap.mp h
  obtain ⟨comment, hsole, rfl⟩ := Option.map_eq_some_iff.mp hx
  exact ⟨hmem, hsole⟩

/-- Whatever the pages are, the receipts are a perfect matching but for threads that
are listed twice. -/
theorem perfectMatching_iff {threads : List ReceiptThread}
    (h : (matchingOf reviewId requested threads).unmatched = []) :
    PerfectMatching reviewId requested threads
        (matchingOf reviewId requested threads).receipts ↔
      ((takenOf (requested.map RequestedComment.key) []
        (eligible reviewId threads)).map fun x => x.1.id).Nodup := by
  have hids : (matchingOf reviewId requested threads).receipts.map ThreadReceipt.id =
      (takenOf (requested.map RequestedComment.key) [] (eligible reviewId threads)).map
        fun x => x.1.id := by
    rw [matchingOf_receipts, List.map_map]
    rfl
  constructor
  · intro hperfect
    exact hids ▸ hperfect.distinct
  · intro hdistinct
    refine ⟨hids ▸ hdistinct, matchingOf_perm h, fun r hr => ?_⟩
    rw [matchingOf_receipts] at hr
    obtain ⟨x, hx, rfl⟩ := List.mem_map.mp hr
    obtain ⟨hmem, hsole⟩ := mem_eligible (mem_takenOf hx)
    obtain ⟨hopen, hmore, hcomments, hof⟩ := sole?_eq_some hsole
    exact ⟨x.1, hmem, hopen, hmore, x.2, hcomments, hof, rfl⟩

/-- What the loop returns after a last page is right just where the condition holds. -/
theorem last_right_iff (threads : List ReceiptThread) :
    (∀ receipts, (if (matchingOf reviewId requested threads).unmatched ≠ [] ∨
          (matchingOf reviewId requested threads).receipts.length ≠ requested.length then []
        else (matchingOf reviewId requested threads).receipts) = receipts →
      receipts = [] ∨ PerfectMatching reviewId requested threads receipts) ↔
      Short (requested.map RequestedComment.key) (eligible reviewId threads) ∨
        ((takenOf (requested.map RequestedComment.key) []
          (eligible reviewId threads)).map fun x => x.1.id).Nodup := by
  by_cases hnil : (matchingOf reviewId requested threads).unmatched = []
  · have hlength := (matchingOf_perm hnil).length_eq
    rw [List.length_map, List.length_map] at hlength
    rw [if_neg (not_or.mpr ⟨not_not.mpr hnil, not_not.mpr hlength⟩),
      or_iff_right ((matchingOf_unmatched threads).mp hnil), ← perfectMatching_iff hnil]
    constructor
    · intro h
      rcases h _ rfl with hempty | hperfect
      · -- no receipts, so no comments were requested
        rw [perfectMatching_iff hnil]
        rw [matchingOf_receipts, List.map_eq_nil_iff] at hempty
        rw [hempty]
        exact List.nodup_nil
      · exact hperfect
    · rintro hperfect receipts rfl
      exact .inr hperfect
  · rw [if_pos (.inl hnil)]
    refine iff_of_true (fun receipts hreceipts => .inl hreceipts.symm) (.inl ?_)
    by_contra henough
    exact hnil ((matchingOf_unmatched threads).mpr henough)

theorem run_none {n : Nat} (h : ∀ j < n, Continues pages j) :
    readReceipts reviewId requested pages n 0 none m = none :=
  readReceipts_reaches h 0

theorem fold_threadsRead :
    (pageThreads pages k).foldl (Matching.take reviewId)
        ((threadsRead pages k).foldl (Matching.take reviewId)
          { unmatched := requested.map RequestedComment.key }) =
      matchingOf reviewId requested (threadsRead pages (k + 1)) := by
  rw [← List.foldl_append, ← threadsRead_succ]
  rfl

/-- A page that nothing follows ends the loop. -/
theorem readReceipts_stops (hstop : ¬ Continues pages k) :
    ∃ result, readReceipts reviewId requested pages 1 k (cursorAt pages k) m = some result := by
  by_cases hlast : IsLast pages k
  · obtain ⟨page, hpage, hno⟩ := hlast
    exact ⟨_, readReceipts_last hpage hno 0⟩
  · obtain ⟨e, he⟩ := readReceipts_raises hstop hlast 0
    exact ⟨_, he⟩

/-- The loop ends with the first page that nothing follows. -/
theorem run_ends {n : Nat} {result : Except ReceiptReadError (List ThreadReceipt)}
    (hrun : readReceipts reviewId requested pages n 0 none m = some result)
    (hfirst : ∀ i < n, readReceipts reviewId requested pages i 0 none m = none) :
    ∃ k, n = k + 1 ∧ (∀ j < k, Continues pages j) ∧ ¬ Continues pages k ∧
      readReceipts reviewId requested pages 1 k (cursorAt pages k)
        ((threadsRead pages k).foldl (Matching.take reviewId) m) = some result := by
  classical
  have hstops : ∃ k, ¬ Continues pages k := by
    by_contra hall
    push Not at hall
    rw [run_none fun j _ => hall j] at hrun
    cases hrun
  obtain ⟨k, hbefore, hstop⟩ : ∃ k, (∀ j < k, Continues pages j) ∧ ¬ Continues pages k :=
    ⟨Nat.find hstops, fun j hj => not_not.mp (Nat.find_min hstops hj), Nat.find_spec hstops⟩
  have hends := @readReceipts_reaches reviewId requested pages m _ hbefore 1
  obtain ⟨last, hlast⟩ := @readReceipts_stops reviewId requested pages
    ((threadsRead pages k).foldl (Matching.take reviewId) m) k hstop
  have hn : n = k + 1 := by
    rcases Nat.lt_trichotomy n (k + 1) with hlt | heq | hgt
    · rw [run_none fun j hj => hbefore j (by omega)] at hrun
      cases hrun
    · exact heq
    · rw [hfirst (k + 1) hgt, hlast] at hends
      cases hends
  subst hn
  exact ⟨k, rfl, hbefore, hstop, hends ▸ hrun⟩

/-- The answer with a page. -/
def receiptAnswer (hasNextPage : Bool) (endCursor : Json) (nodes : List Json) : Json :=
  .obj [("repository", .obj [("owner", .obj [("login", .str "o")]), ("name", .str "r"),
    ("pullRequest", .obj [("id", .str "P"), ("number", .int 7),
      ("reviewThreads", .obj [
        ("pageInfo", .obj [("hasNextPage", .bool hasNextPage), ("endCursor", endCursor)]),
        ("nodes", .arr nodes)])])])]

/-- A server that goes back and forth between two cursors. -/
def turningAnswers (k : Nat) : Option Json :=
  some (receiptAnswer true (.str (if k % 2 = 0 then "A" else "B")) [])

/-- A thread with the one comment of the review. -/
def listedThread : Json :=
  .obj [("id", .str "T"), ("isResolved", .bool false), ("path", .str "a.py"), ("line", .int 3),
    ("side", .str "RIGHT"), ("comments", .obj [
      ("pageInfo", .obj [("hasNextPage", .bool false), ("endCursor", .null)]),
      ("nodes", .arr [.obj [("id", .str "c"), ("body", .str "Fix."),
        ("author", .obj [("login", .str "bot")]),
        ("pullRequestReview", .obj [("id", .str "R"), ("state", .str "COMMENTED"),
          ("commit", .obj [("oid", .str "b")])])]])])]

/-- A server that lists the thread on both of its pages. -/
def overlappingAnswers (k : Nat) : Option Json :=
  some (receiptAnswer (k == 0) (.str "A") [listedThread])

/-- The comment of the thread. -/
def fixComment : RequestedComment where
  path := some "a.py"
  line := some 3
  side := none
  body := some "Fix."

/-- The receipt of the thread. -/
def listedReceipt : ThreadReceipt where
  id := "T"
  path := "a.py"
  line := some 3
  side := "RIGHT"
  body := "Fix."
  author := "bot"
  authors := ["bot"]
  comments := [{ id := "c", author := "bot", body := "Fix.", reviewId := "R" }]
  reviewId := "R"

theorem turningAnswers_page (k : Nat) : receiptPages "o" "r" 7 turningAnswers k =
    some { threads := [], hasNextPage := true,
           endCursor := some (if k % 2 = 0 then "A" else "B") } := by
  rcases Nat.mod_two_eq_zero_or_one k with h | h
  · simp only [receiptPages, turningAnswers, h]
    rfl
  · simp only [receiptPages, turningAnswers, h]
    rfl

theorem turningAnswers_continue (k : Nat) :
    Continues (receiptPages "o" "r" 7 turningAnswers) k := by
  refine ⟨_, _, turningAnswers_page k, rfl, rfl, ?_, ?_⟩
  · split <;> decide
  · cases k with
    | zero => exact Option.some_ne_none _
    | succ k =>
        rw [cursorAt, turningAnswers_page]
        rcases Nat.mod_two_eq_zero_or_one k with h | h
        · have hodd : (k + 1) % 2 = 1 := by omega
          simp [h, hodd]
        · have heven : (k + 1) % 2 = 0 := by omega
          simp [h, heven]

end Hephaestus.Automation
