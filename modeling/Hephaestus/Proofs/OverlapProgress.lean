import Hephaestus.Pipeline.Dispatch

/-!
# When overlap admission makes progress

Suppose every item that owns files is waiting in the implementation queue,
so that nobody will ever give anything back. Does a selection start one of
them? Not always. A candidate that has not been started yields to the ones
that have, but two that have been started yield to each other: both have a
diff, the diffs touch the same file, both came back from review, and each is
blocked by the other's reservation for good.

`select_progress_iff` gives the exact condition, `SomeFree`: some candidate
is free of the reservations of all the others that have been started. A
candidate before it in the queue has had its plan and its diff added to its
reservation by then, unless it was skipped for what it remembers; one after
it reserves what its payload has. What an item remembers is always a real
block, and then the condition loses its memory part (`someFree_iff`).

The loop is followed with an invariant: what the candidates passed over
reserve is known, what is still to come is untouched.
-/

namespace Hephaestus.Pipeline

open Hephaestus.Lib Hephaestus.Lib.Command

variable {ω : Type} {host : Host ω} {s t t' : Coordinator} {i j : ItemId}
  {plans : ItemId → Except PlanReadError (List String)} {candidates : List ItemId}

/-! ## Claims -/

namespace WorkItem

variable (org : String) (plans : ItemId → Except PlanReadError (List String)) (i : ItemId)
  (item : WorkItem)

/-- What the item's payload reserves. -/
def heldClaims : Finset FileClaim := item.fileClaims?.getD ∅

/-- What the item's plan reserves, where it can be read. -/
def plannedClaims : Finset FileClaim :=
  match plans i with
  | .ok planned => planned.toFinset.image (item.claimOn org)
  | .error _ => ∅

/-- What the item will write: its reservation, made from the plan if there is
none yet, and its diff. -/
def effectiveClaims : Finset FileClaim :=
  item.fileClaims?.getD (item.plannedClaims org plans i) ∪ item.changedClaims org

end WorkItem

/-- Nothing but payload keys has been written, and the diff is the same. -/
structure Rekeyed (a b : WorkItem) : Prop where
  eq : b = { a with payload := b.payload }
  paths : b.payload.get? "review_changed_paths" = a.payload.get? "review_changed_paths"

theorem Rekeyed.refl (a : WorkItem) : Rekeyed a a := ⟨rfl, rfl⟩

theorem Rekeyed.setPayload {a b : WorkItem} (h : Rekeyed a b) {key : String}
    (value : PayloadValue) (hkey : key ≠ "review_changed_paths") :
    Rekeyed a (b.setPayload key value) where
  eq := by
    rw [h.eq]
    rfl
  paths := (Dict.get?_set_ne _ _ hkey).trans h.paths

theorem Rekeyed.popPayload {a b : WorkItem} (h : Rekeyed a b) {key : String}
    (hkey : key ≠ "review_changed_paths") : Rekeyed a (b.popPayload key) where
  eq := by
    rw [h.eq]
    rfl
  paths := ((Dict.get?_erase _ _ _).trans (if_neg hkey.symm)).trans h.paths

theorem Rekeyed.changedPaths {a b : WorkItem} (h : Rekeyed a b) :
    b.changedPaths? = a.changedPaths? := by
  unfold WorkItem.changedPaths?
  rw [h.paths]

theorem Rekeyed.changedClaims {a b : WorkItem} (h : Rekeyed a b) (org : String) :
    b.changedClaims org = a.changedClaims org := by
  unfold WorkItem.changedClaims
  rw [h.changedPaths]
  have hclaim : b.claimOn org = a.claimOn org := by
    rw [h.eq]
    rfl
  rw [hclaim]

/-- The keys a selection writes. -/
def overlapKeys : List String :=
  [implementationFileClaimsPayload, fileOverlapDeferralsKey, fileOverlapBlockedClaimsKey]

/-- Nothing but these keys has been written. -/
structure Noted (a b : WorkItem) : Prop where
  eq : b = { a with payload := b.payload }
  keys : ∀ key, key ∉ overlapKeys → b.payload.get? key = a.payload.get? key

theorem Noted.refl (a : WorkItem) : Noted a a := ⟨rfl, fun _ _ => rfl⟩

theorem Noted.trans {a b c : WorkItem} (h : Noted a b) (h' : Noted b c) : Noted a c where
  eq := by rw [h'.eq, h.eq]
  keys := fun key hkey => (h'.keys key hkey).trans (h.keys key hkey)

theorem Noted.setPayload {a b : WorkItem} (h : Noted a b) {key : String} (value : PayloadValue)
    (hkey : key ∈ overlapKeys) : Noted a (b.setPayload key value) where
  eq := by
    rw [h.eq]
    rfl
  keys := fun k hk =>
    (Dict.get?_set_ne _ _ fun heq : key = k => hk (heq ▸ hkey)).trans (h.keys k hk)

theorem Noted.popPayload {a b : WorkItem} (h : Noted a b) {key : String}
    (hkey : key ∈ overlapKeys) : Noted a (b.popPayload key) where
  eq := by
    rw [h.eq]
    rfl
  keys := fun k hk =>
    ((Dict.get?_erase _ _ _).trans (if_neg fun heq : k = key => hk (heq ▸ hkey))).trans
      (h.keys k hk)

theorem Noted.rekeyed {a b : WorkItem} (h : Noted a b) : Rekeyed a b :=
  ⟨h.eq, h.keys _ (by decide)⟩

/-! ### The three payload keys -/

theorem fileClaims?_set (item : WorkItem) (c : Finset FileClaim) :
    (item.setPayload implementationFileClaimsPayload (.claims c)).fileClaims? = some c := by
  unfold WorkItem.fileClaims? WorkItem.setPayload
  rw [Dict.get?_set_self]

theorem fileClaims?_set_ne (item : WorkItem) {key : String} (value : PayloadValue)
    (hkey : key ≠ implementationFileClaimsPayload) :
    (item.setPayload key value).fileClaims? = item.fileClaims? := by
  unfold WorkItem.fileClaims? WorkItem.setPayload
  rw [Dict.get?_set_ne _ _ hkey]

theorem fileClaims?_pop_ne (item : WorkItem) {key : String}
    (hkey : key ≠ implementationFileClaimsPayload) :
    (item.popPayload key).fileClaims? = item.fileClaims? := by
  unfold WorkItem.fileClaims? WorkItem.popPayload
  rw [Dict.get?_erase, if_neg hkey.symm]

theorem blockedClaims?_set (item : WorkItem) (c : Finset FileClaim) :
    (item.setPayload fileOverlapBlockedClaimsKey (.claims c)).blockedClaims? = some c := by
  unfold WorkItem.blockedClaims? WorkItem.setPayload
  rw [Dict.get?_set_self]

theorem blockedClaims?_pop (item : WorkItem) :
    (item.popPayload fileOverlapBlockedClaimsKey).blockedClaims? = none := by
  unfold WorkItem.blockedClaims? WorkItem.popPayload
  rw [Dict.get?_erase, if_pos rfl]

/-! ## The waiting queue -/

/-- Everybody who owns files is a candidate of this selection, and the plans
that have to be read can be read. -/
structure AllWaiting (plans : ItemId → Except PlanReadError (List String))
    (candidates : List ItemId) (s : Coordinator) : Prop where
  nodup : candidates.Nodup
  ready : ∀ i ∈ candidates, s.stageOf i = .implementation ∧ (s.workItem i).result = none ∧
    (s.workItem i).issue.isSome = true ∧ i ∈ s.items
  owners : ∀ j ∈ s.items, (s.workItem j).result = none → (s.stageOf j).ownsFileClaims = true →
    j ∈ candidates
  readable : ∀ i ∈ candidates, (s.workItem i).fileClaims? = none → ∃ l, plans i = .ok l

/-- What the item remembers being blocked by does block it, and its
reservation includes the diff. -/
def MemorySound (org : String) (item : WorkItem) : Prop :=
  ∀ c, item.blockedClaims? = some c → ∃ held, item.fileClaims? = some held ∧
    item.changedClaims org ⊆ held ∧ held ∩ c ≠ ∅

/-- The item has been looked at: its payload has all it will write. -/
structure Settled (org : String) (claims : Finset FileClaim) (item : WorkItem) : Prop where
  held : item.fileClaims? = some claims
  diff : item.changedClaims org ⊆ claims
  memory : MemorySound org item

/-- A right memory never decides anything: the item has been looked at, and
looking again would find it blocked. -/
theorem MemorySound.settled {org : String} {item : WorkItem} {c : Finset FileClaim}
    (h : MemorySound org item) (hc : item.blockedClaims? = some c) :
    Settled org (item.effectiveClaims org plans i) item ∧
      item.effectiveClaims org plans i ∩ c ≠ ∅ := by
  obtain ⟨held, hheld, hdiff, hmeet⟩ := h c hc
  have heff : item.effectiveClaims org plans i = held := by
    rw [WorkItem.effectiveClaims, hheld, Option.getD_some, Finset.union_eq_left]
    exact hdiff
  rw [heff]
  exact ⟨⟨hheld, hdiff, h⟩, hmeet⟩

section

variable (org : String) (plans : ItemId → Except PlanReadError (List String)) (s : Coordinator)

/-- What the started ones of some items that are still to come reserve. -/
def laterClaims (later : List ItemId) : Finset FileClaim :=
  (later.filter fun j => !(s.workItem j).isFresh).toFinset.biUnion
    fun j => (s.workItem j).heldClaims

/-- What a candidate that met the reservations `met` reserves once it has
been passed over. -/
def passedClaims (i : ItemId) (met : Finset FileClaim) : Finset FileClaim :=
  if (s.workItem i).isFresh then ∅
  else if (s.workItem i).blockedClaims? = some met then (s.workItem i).heldClaims
  else (s.workItem i).effectiveClaims org plans i

/-- Some candidate of a queue is free of the reservations of the others that
have been started; `done` are those of the ones before. It must not remember
them as the ones it was last blocked by, either. -/
def SomeFree : Finset FileClaim → List ItemId → Prop
  | _, [] => False
  | done, i :: later =>
      let met := done ∪ laterClaims s later
      ((s.workItem i).blockedClaims? ≠ some met ∧
        (s.workItem i).effectiveClaims org plans i ∩ met = ∅) ∨
      SomeFree (done ∪ passedClaims org plans s i met) later

end

/-! ## The active claims -/

/-- An item whose reservation counts for a candidate that excludes
`exclude`. -/
def Counts (t : Coordinator) (exclude : Finset ItemId) (j : ItemId) : Prop :=
  j ∉ exclude ∧ (t.workItem j).result = none ∧ (t.stageOf j).ownsFileClaims = true

instance (t : Coordinator) (exclude : Finset ItemId) : DecidablePred (Counts t exclude) :=
  fun _ => inferInstanceAs (Decidable (_ ∧ _ ∧ _))

/-- Where nobody is under review, the active claims are collected without
writing anything. -/
theorem foldl_addActiveClaims {exclude : Finset ItemId} (items : List ItemId)
    (hstage : ∀ j ∈ items, Counts t exclude j → t.stageOf j = .implementation)
    (claims : Finset FileClaim) :
    items.foldl (addActiveClaims host exclude) (claims, t) =
      (claims ∪ (items.filter (Counts t exclude)).toFinset.biUnion
        fun j => (t.workItem j).heldClaims, t) := by
  induction items generalizing claims with
  | nil => simp
  | cons j items ih =>
      have hrest := ih fun k hk => hstage k (List.mem_cons_of_mem _ hk)
      rw [List.foldl_cons, List.filter_cons]
      by_cases hcount : Counts t exclude j
      · have hskip : ¬ (j ∈ exclude ∨ (t.workItem j).result.isSome = true ∨
            (!(t.workItem j).stage.ownsFileClaims) = true) := by
          have howns : (t.workItem j).stage.ownsFileClaims = true := hcount.2.2
          simp [hcount.1, hcount.2.1, howns]
        have hreal : ¬ ((t.workItem j).stage.realizesDiff = true ∧
            (t.workItem j).changedPaths?.isSome = true) := by
          have himpl : (t.workItem j).stage = .implementation :=
            hstage j List.mem_cons_self hcount
          simp [himpl, StageName.realizesDiff]
        have hturn : addActiveClaims host exclude (claims, t) j =
            (claims ∪ (t.workItem j).heldClaims, t) := by
          simp only [addActiveClaims, if_neg hskip, if_neg hreal]
          rfl
        rw [hturn, hrest, if_pos (decide_eq_true hcount), List.toFinset_cons,
          Finset.biUnion_insert, Finset.union_assoc]
      · have hskip : j ∈ exclude ∨ (t.workItem j).result.isSome = true ∨
            (!(t.workItem j).stage.ownsFileClaims) = true := by
          by_contra hno
          simp only [not_or, Bool.not_eq_true, Option.isSome_eq_false_iff, Option.isNone_iff_eq_none,
            Bool.not_eq_false'] at hno
          exact hcount ⟨hno.1, hno.2.1, hno.2.2⟩
        have hturn : addActiveClaims host exclude (claims, t) j = (claims, t) := by
          simp only [addActiveClaims, if_pos hskip]
        rw [hturn, hrest, if_neg (by simpa using hcount)]

/-! ## One turn -/

/-- Where the loop is: the started ones of the candidates `passed` reserve
`done`, and nothing else has changed. One whose memory was right when it was
passed over has its effective claims in its payload, and its memory still
is. -/
structure Passed (org : String) (plans : ItemId → Except PlanReadError (List String))
    (s : Coordinator) (passed : List ItemId) (done : Finset FileClaim)
    (t : Coordinator) : Prop where
  items : t.items = s.items
  rekeyed : ∀ j, Rekeyed (s.workItem j) (t.workItem j)
  untouched : ∀ j, j ∉ passed → t.workItem j = s.workItem j
  held : laterClaims t passed = done
  settled : ∀ j ∈ passed, MemorySound org (s.workItem j) →
    Settled org ((s.workItem j).effectiveClaims org plans j) (t.workItem j)

theorem Rekeyed.isFresh {a b : WorkItem} (h : Rekeyed a b) : b.isFresh = a.isFresh := by
  rw [h.eq]
  rfl

theorem mem_laterClaims {later : List ItemId} {x : FileClaim} :
    x ∈ laterClaims s later ↔
      ∃ j, (j ∈ later ∧ (s.workItem j).isFresh = false) ∧ x ∈ (s.workItem j).heldClaims := by
  simp only [laterClaims, Finset.mem_biUnion, List.mem_toFinset, List.mem_filter,
    Bool.not_eq_true']

/-- The reservations that count at a turn are those of the other started
candidates. -/
theorem Passed.active {org : String} {passed later : List ItemId} {done : Finset FileClaim}
    (h : Passed org plans s passed done t) (hw : AllWaiting plans candidates s)
    (hsplit : candidates = passed ++ i :: later) :
    (t.items.filter (Counts t (insert i
      (candidates.filter fun j => (s.workItem j).isFresh).toFinset))).toFinset.biUnion
        (fun j => (t.workItem j).heldClaims) = done ∪ laterClaims s later := by
  have hstage : ∀ j, t.stageOf j = s.stageOf j := by
    intro j
    rw [Coordinator.stageOf, (h.rekeyed j).eq]
    rfl
  have hresult : ∀ j, (t.workItem j).result = (s.workItem j).result := by
    intro j
    rw [(h.rekeyed j).eq]
  have hmem : ∀ j, (j ∈ t.items ∧ Counts t (insert i
      (candidates.filter fun j => (s.workItem j).isFresh).toFinset) j) ↔
      j ∈ candidates ∧ j ≠ i ∧ (s.workItem j).isFresh = false := by
    intro j
    unfold Counts
    rw [h.items, hresult, hstage]
    simp only [Finset.mem_insert, List.mem_toFinset, List.mem_filter, not_or, not_and,
      Bool.not_eq_true]
    constructor
    · rintro ⟨hj, ⟨hne, hfresh⟩, hnone, howns⟩
      have hcand := hw.owners j hj hnone howns
      exact ⟨hcand, hne, hfresh hcand⟩
    · rintro ⟨hj, hne, hfresh⟩
      obtain ⟨himpl, hnone, _, hitems⟩ := hw.ready j hj
      exact ⟨hitems, ⟨hne, fun _ => hfresh⟩, hnone, by rw [himpl]; rfl⟩
  have hnodup := hw.nodup
  rw [hsplit, List.nodup_append, List.nodup_cons] at hnodup
  obtain ⟨_, ⟨hilater, _⟩, hdisj⟩ := hnodup
  have hlater : ∀ j ∈ later, t.workItem j = s.workItem j := fun j hj =>
    h.untouched j fun hp => hdisj j hp j (List.mem_cons_of_mem _ hj) rfl
  ext x
  rw [Finset.mem_union, ← h.held, mem_laterClaims, mem_laterClaims]
  simp only [Finset.mem_biUnion, List.mem_toFinset, List.mem_filter, decide_eq_true_eq, hmem]
  constructor
  · rintro ⟨j, ⟨hj, hne, hfresh⟩, hx⟩
    rw [hsplit, List.mem_append, List.mem_cons] at hj
    rcases hj with hj | rfl | hj
    · exact .inl ⟨j, ⟨hj, (h.rekeyed j).isFresh.trans hfresh⟩, hx⟩
    · exact absurd rfl hne
    · exact .inr ⟨j, ⟨hj, hfresh⟩, hlater j hj ▸ hx⟩
  · rintro (⟨j, ⟨hj, hfresh⟩, hx⟩ | ⟨j, ⟨hj, hfresh⟩, hx⟩)
    · refine ⟨j, ⟨?_, fun heq => ?_, (h.rekeyed j).isFresh.symm.trans hfresh⟩, hx⟩
      · exact hsplit ▸ List.mem_append_left _ hj
      · exact hdisj j hj i List.mem_cons_self heq
    · refine ⟨j, ⟨?_, fun heq => hilater (heq ▸ hj), hfresh⟩, (hlater j hj).symm ▸ hx⟩
      exact hsplit ▸ List.mem_append_right _ (List.mem_cons_of_mem _ hj)

theorem Passed.wp_active {org : String} {passed later : List ItemId} {done : Finset FileClaim}
    {Q : Finset FileClaim → Coordinator → Prop} {E : PyError → Coordinator → Prop}
    (h : Passed org plans s passed done t) (hw : AllWaiting plans candidates s)
    (hsplit : candidates = passed ++ i :: later) :
    (activeImplementationFileClaims host (insert i
      (candidates.filter fun j => (s.workItem j).isFresh).toFinset)).wp Q E t ↔
        Q (done ∪ laterClaims s later) t := by
  have hstage : ∀ j ∈ t.items, Counts t (insert i
      (candidates.filter fun j => (s.workItem j).isFresh).toFinset) j →
      t.stageOf j = .implementation := by
    intro j hj hcount
    have heq := (h.rekeyed j).eq
    have hstage : t.stageOf j = s.stageOf j := by rw [Coordinator.stageOf, heq]; rfl
    have hnone : (s.workItem j).result = none := by rw [← hcount.2.1, heq]
    rw [hstage]
    exact (hw.ready j (hw.owners j (h.items ▸ hj) hnone (hstage ▸ hcount.2.2))).1
  unfold activeImplementationFileClaims
  rw [wp_bind, wp_get, foldl_addActiveClaims t.items hstage, h.active hw hsplit,
    Finset.empty_union, wp_bind, wp_set, wp_pure]

/-- Reading a candidate's claims leaves them in its payload. -/
theorem wp_readImplementationFileClaims
    {Q : Except PlanReadError (Finset FileClaim) → Coordinator → Prop}
    {E : PyError → Coordinator → Prop} (hissue : (t.workItem i).issue.isSome = true)
    (hreadable : (t.workItem i).fileClaims? = none → ∃ l, plans i = .ok l)
    (hQ : ∀ item, Noted (t.workItem i) item →
      item.fileClaims? = some ((t.workItem i).fileClaims?.getD
        ((t.workItem i).plannedClaims host.config.org plans i)) →
      Q (.ok ((t.workItem i).fileClaims?.getD
        ((t.workItem i).plannedClaims host.config.org plans i))) (t.setItem i item)) :
    (readImplementationFileClaims host plans i).wp Q E t := by
  unfold readImplementationFileClaims
  rw [wp_bind, wp_get]
  split
  · next claims hclaims =>
      have hpost := hQ (t.workItem i) (.refl _) (by rw [hclaims, Option.getD_some])
      rw [setItem_workItem, hclaims] at hpost
      exact hpost
  · next hclaims =>
      obtain ⟨planned, hplanned⟩ := hreadable hclaims
      have hsome : ¬ (t.workItem i).issue.isNone = true := by
        simpa [Option.isSome_iff_ne_none] using hissue
      rw [if_neg hsome, hplanned, wp_bind, wp_editItem]
      have hpost := hQ ((t.workItem i).setPayload implementationFileClaimsPayload
        (.claims ((t.workItem i).plannedClaims host.config.org plans i)))
        ((Noted.refl _).setPayload _ (by decide)) (by rw [fileClaims?_set, hclaims]; rfl)
      rw [hclaims] at hpost
      simpa [WorkItem.plannedClaims, hplanned] using hpost

/-- The end of a turn: the reservation has the diff in it, and the candidate
is selected where it meets none of the reservations `claimed`. -/
theorem wp_admitOrDefer {claimed read : Finset FileClaim} {acc : Selection}
    {Q : Selection → Coordinator → Prop} {E : PyError → Coordinator → Prop}
    (hread : (t.workItem i).fileClaims? = some read)
    (hQ : ∀ item, Noted (t.workItem i) item →
      Settled host.config.org (read ∪ (t.workItem i).changedClaims host.config.org) item →
      Q (if (read ∪ (t.workItem i).changedClaims host.config.org) ∩ claimed = ∅ then
          { dispatch := acc.dispatch ++ [i]
            claims := acc.claims ∪ (read ∪ (t.workItem i).changedClaims host.config.org) }
        else acc) (t.setItem i item)) :
    (admitOrDefer host i claimed read acc).wp Q E t := by
  unfold admitOrDefer
  set claims := read ∪ (t.workItem i).changedClaims host.config.org with hclaims
  -- with or without a diff, the turn goes on with `claims` in the payload
  have hrest : ∀ item, Noted (t.workItem i) item → item.fileClaims? = some claims →
      (if claims ∩ claimed ≠ ∅ then do
          recordFileOverlapDeferral i
          editItem i fun item => item.setPayload fileOverlapBlockedClaimsKey (.claims claimed)
          pure acc
        else do
          editItem i fun item => item.popPayload fileOverlapBlockedClaimsKey
          pure { dispatch := acc.dispatch ++ [i], claims := acc.claims ∪ claims }
        : Op Selection).wp Q E (t.setItem i item) := by
    intro item hre hheld
    unfold recordFileOverlapDeferral
    split
    · next hmeet =>
        simp only [wp_bind, wp_editItem, wp_pure, setItem_workItem_self, setItem_setItem]
        set item' := (item.setPayload fileOverlapDeferralsKey
          (.int (item.overlapDeferrals + 1))).setPayload fileOverlapBlockedClaimsKey
            (.claims claimed) with hitem'
        have hre' : Noted (t.workItem i) item' :=
          (hre.setPayload _ (by decide)).setPayload _ (by decide)
        have hheld' : item'.fileClaims? = some claims := by
          rw [hitem', fileClaims?_set_ne _ _ (by decide), fileClaims?_set_ne _ _ (by decide),
            hheld]
        have hdiff' : item'.changedClaims host.config.org ⊆ claims :=
          hre'.rekeyed.changedClaims _ ▸ Finset.subset_union_right
        have hpost := hQ item' hre' ⟨hheld', hdiff', fun c hc => ?_⟩
        · rwa [if_neg hmeet] at hpost
        · rw [hitem', blockedClaims?_set, Option.some.injEq] at hc
          exact ⟨claims, hheld', hdiff', hc ▸ hmeet⟩
    · next hmeet =>
        simp only [wp_bind, wp_editItem, wp_pure, setItem_workItem_self, setItem_setItem]
        have hre' : Noted (t.workItem i) (item.popPayload fileOverlapBlockedClaimsKey) :=
          hre.popPayload (by decide)
        have hpost := hQ _ hre'
          ⟨by rw [fileClaims?_pop_ne _ (by decide), hheld],
            hre'.rekeyed.changedClaims _ ▸ Finset.subset_union_right, fun c hc => ?_⟩
        · rwa [if_pos (not_not.mp hmeet)] at hpost
        · rw [blockedClaims?_pop] at hc
          cases hc
  rw [wp_bind, wp_get]
  dsimp only
  split
  · rw [wp_bind, wp_editItem]
    exact hrest _ ((Noted.refl _).setPayload _ (by decide)) (fileClaims?_set _ _)
  · next hpaths =>
      have hnone : (t.workItem i).changedPaths? = none := by simpa using hpaths
      have hdiff : (t.workItem i).changedClaims host.config.org = ∅ := by
        simp [WorkItem.changedClaims, hnone]
      have hpost := hrest _ (.refl _) (by rw [hread, hclaims, hdiff, Finset.union_empty])
      rw [setItem_workItem] at hpost
      exact hpost

theorem Passed.init (org : String) : Passed org plans s [] ∅ s where
  items := rfl
  rekeyed := fun _ => .refl _
  untouched := fun _ _ => rfl
  held := rfl
  settled := fun _ hj => absurd hj List.not_mem_nil

/-- A candidate is passed over: its record has been rewritten, and what it
reserves now counts. -/
theorem Passed.snoc {org : String} {passed : List ItemId} {done : Finset FileClaim}
    {item : WorkItem} (h : Passed org plans s passed done t) (hi : i ∉ passed)
    (hre : Rekeyed (s.workItem i) item)
    (hset : MemorySound org (s.workItem i) →
      Settled org ((s.workItem i).effectiveClaims org plans i) item) :
    Passed org plans s (passed ++ [i])
      (done ∪ if (s.workItem i).isFresh then ∅ else item.heldClaims) (t.setItem i item) where
  items := h.items
  rekeyed := by
    intro j
    by_cases hj : j = i
    · subst hj
      rwa [setItem_workItem_self]
    · rw [setItem_workItem_ne _ hj]
      exact h.rekeyed j
  untouched := by
    intro j hj
    rw [List.mem_append, List.mem_singleton, not_or] at hj
    rw [setItem_workItem_ne _ hj.2]
    exact h.untouched j hj.1
  held := by
    have hother : ∀ j ∈ passed, (t.setItem i item).workItem j = t.workItem j := fun j hj =>
      setItem_workItem_ne _ fun heq : j = i => hi (heq ▸ hj)
    have hself := setItem_workItem_self (s := t) (i := i) item
    ext x
    rw [← h.held, Finset.mem_union, mem_laterClaims, mem_laterClaims]
    constructor
    · rintro ⟨j, ⟨hj, hfresh⟩, hx⟩
      rw [List.mem_append, List.mem_singleton] at hj
      rcases hj with hj | rfl
      · rw [hother j hj] at hfresh hx
        exact .inl ⟨j, ⟨hj, hfresh⟩, hx⟩
      · rw [hself, hre.isFresh] at hfresh
        rw [hself] at hx
        rw [if_neg (by rw [hfresh]; decide)]
        exact .inr hx
    · rintro (⟨j, ⟨hj, hfresh⟩, hx⟩ | hx)
      · rw [← hother j hj] at hfresh hx
        exact ⟨j, ⟨List.mem_append_left _ hj, hfresh⟩, hx⟩
      · split at hx
        · cases hx
        · next hfresh =>
            refine ⟨i, ⟨List.mem_append_right _ (List.mem_singleton_self i), ?_⟩, ?_⟩
            · rw [hself, hre.isFresh, Bool.eq_false_iff.mpr hfresh]
            · rwa [hself]
  settled := by
    intro j hj hmem
    by_cases hji : j = i
    · subst hji
      rw [setItem_workItem_self]
      exact hset hmem
    · rw [List.mem_append, List.mem_singleton, or_iff_left hji] at hj
      rw [setItem_workItem_ne _ hji]
      exact h.settled j hj hmem

/-- One turn. The candidate is selected where it is free of the reservations
it meets, those of the candidates selected before it included. -/
theorem Passed.selectTurn {passed later : List ItemId} {done : Finset FileClaim}
    {acc : Selection} {E : PyError → Coordinator → Prop} (w : World ω)
    (h : Passed host.config.org plans s passed done t)
    (hw : AllWaiting plans candidates s) (hsplit : candidates = passed ++ i :: later) :
    (selectTurn host w plans (candidates.filter fun j => (s.workItem j).isFresh).toFinset
      acc i).wp (fun acc' t' =>
        acc' = (if (s.workItem i).blockedClaims? ≠ some (done ∪ laterClaims s later ∪ acc.claims) ∧
            (s.workItem i).effectiveClaims host.config.org plans i ∩
              (done ∪ laterClaims s later ∪ acc.claims) = ∅ then
          { dispatch := acc.dispatch ++ [i]
            claims := acc.claims ∪ (s.workItem i).effectiveClaims host.config.org plans i }
          else acc) ∧
        Passed host.config.org plans s (passed ++ [i]) (done ∪ passedClaims host.config.org plans s i
          (done ∪ laterClaims s later ∪ acc.claims)) t') E t := by
  have hcand : i ∈ candidates := hsplit ▸ List.mem_append_right _ List.mem_cons_self
  have hi : i ∉ passed := by
    have hnodup := hw.nodup
    rw [hsplit, List.nodup_append] at hnodup
    exact fun hp => hnodup.2.2 i hp i List.mem_cons_self rfl
  have hitem : t.workItem i = s.workItem i := h.untouched i hi
  obtain ⟨_, _, hissue, _⟩ := hw.ready i hcand
  have hsome : ¬ (s.workItem i).issue.isNone = true := by
    simpa [Option.isSome_iff_ne_none] using hissue
  set claimed := done ∪ laterClaims s later ∪ acc.claims with hclaimed
  unfold Pipeline.selectTurn
  rw [wp_bind, wp_get, hitem, if_neg hsome, wp_bind, h.wp_active hw hsplit]
  dsimp only
  rw [wp_bind, wp_get, hitem]
  split
  · -- the same reservations still block it
    next hblocked =>
      have hpass := h.snoc hi (Rekeyed.refl (s.workItem i)) fun hmem =>
        (hmem.settled hblocked).1
      rw [← hitem, setItem_workItem, hitem] at hpass
      rw [wp_pure, if_neg (fun hfree => hfree.1 hblocked), passedClaims, if_pos hblocked]
      exact ⟨rfl, hpass⟩
  · next hblocked =>
      rw [wp_bind]
      refine wp_readImplementationFileClaims (hitem ▸ hissue) ?_ ?_
      · rw [hitem]
        exact hw.readable i hcand
      · intro item hre hread
        rw [hitem] at hre hread
        rw [hitem]
        refine wp_admitOrDefer (by rw [setItem_workItem_self, hread]) ?_
        rw [setItem_workItem_self, hre.rekeyed.changedClaims]
        intro item' hre' hset
        have hpass := h.snoc hi (hre.trans hre').rekeyed fun _ => hset
        rw [WorkItem.heldClaims, hset.held, Option.getD_some] at hpass
        rw [setItem_setItem, passedClaims, if_neg hblocked]
        refine ⟨?_, hpass⟩
        by_cases hfree : (s.workItem i).effectiveClaims host.config.org plans i ∩ claimed = ∅
        · exact (if_pos hfree).trans (if_pos ⟨hblocked, hfree⟩).symm
        · exact (if_neg hfree).trans (if_neg fun hboth => hfree hboth.2).symm

/-! ## The whole selection -/

/-- The loop over the rest of the candidates. While nothing has been selected
it selects something just where `SomeFree` says so. -/
theorem Passed.selectLoop (w : World ω) (hw : AllWaiting plans candidates s)
    (rest : List ItemId) :
    ∀ {passed : List ItemId} {done : Finset FileClaim} {acc : Selection} {t : Coordinator},
      Passed host.config.org plans s passed done t → candidates = passed ++ rest →
      (acc.dispatch = [] → acc.claims = ∅) →
      (selectLoop host w plans (candidates.filter fun j => (s.workItem j).isFresh).toFinset
        rest acc).wp (fun acc' t' =>
          (acc'.dispatch ≠ [] ↔
            acc.dispatch ≠ [] ∨ SomeFree host.config.org plans s done rest) ∧
          ∃ done', Passed host.config.org plans s candidates done' t') (fun _ _ => False) t := by
  induction rest with
  | nil =>
      intro passed done acc t h hsplit _
      rw [List.append_nil] at hsplit
      simp only [Pipeline.selectLoop, wp_pure, SomeFree, or_false, true_and]
      exact ⟨done, hsplit ▸ h⟩
  | cons i later ih =>
      intro passed done acc t h hsplit hacc
      rw [Pipeline.selectLoop, wp_bind]
      refine wp_mono (h.selectTurn w hw hsplit) ?_ fun _ _ hf => hf
      rintro acc' t' ⟨hacc', hpass⟩
      have hsplit' : candidates = (passed ++ [i]) ++ later := by
        rw [List.append_assoc]
        exact hsplit
      have hnext : acc'.dispatch = [] → acc'.claims = ∅ := by
        rw [hacc']
        split
        · intro hnil
          cases List.append_ne_nil_of_right_ne_nil _ (List.cons_ne_nil i []) hnil
        · exact hacc
      refine wp_mono (ih hpass hsplit' hnext) ?_ fun _ _ hf => hf
      rintro acc'' t'' ⟨hiff, hdone⟩
      refine ⟨hiff.trans ?_, hdone⟩
      rw [hacc', SomeFree]
      by_cases hempty : acc.dispatch = []
      · rw [hacc hempty, Finset.union_empty, hempty]
        split
        · next hfree => simp [hfree]
        · next hfree => simp only [hempty, ne_eq, not_true_eq_false, false_or] at hfree ⊢
                        rw [or_iff_right hfree]
      · split
        · simp [hempty]
        · simp [hempty]

/-- What a selection does where everybody is waiting. -/
theorem AllWaiting.select (host : Host ω) (w : World ω) (hw : AllWaiting plans candidates s) :
    (selectFileOverlapImplementationItems host w plans candidates).wp (fun dispatch t =>
      (dispatch ≠ [] ↔ SomeFree host.config.org plans s ∅ candidates) ∧
      ∃ done, Passed host.config.org plans s candidates done t) (fun _ _ => False) s := by
  unfold selectFileOverlapImplementationItems
  rw [wp_bind, wp_get]
  dsimp only
  rw [wp_bind]
  refine wp_mono (Passed.selectLoop w hw candidates (.init _) rfl fun _ => rfl) ?_
    fun _ _ hf => hf
  rintro acc t ⟨hiff, hdone⟩
  refine ⟨hiff.trans (or_iff_right ?_), hdone⟩
  exact fun hne => hne rfl

/-- A selection starts one of the waiting candidates just where one of them is
free of the reservations of the others that have been started. -/
theorem select_progress_iff (w : World ω) (hw : AllWaiting plans candidates s) :
    (∃ dispatch t, (selectFileOverlapImplementationItems host w plans candidates).exec s =
      (.ok dispatch, t) ∧ dispatch ≠ []) ↔ SomeFree host.config.org plans s ∅ candidates := by
  have hsel := hw.select host w
  unfold wp at hsel
  split at hsel
  · next dispatch t hexec =>
      rw [← hsel.1]
      constructor
      · rintro ⟨dispatch', t', hexec', hne⟩
        rw [hexec] at hexec'
        cases hexec'
        exact hne
      · exact fun hne => ⟨dispatch, t, hexec, hne⟩
  · exact hsel.elim

/-! ### Two queues of two

Two issues are planned on different files and implemented side by side; both
diffs turn out to touch `shared.py`, and both reviews ask for changes. -/

/-- An issue whose reservation has `shared.py` in it. -/
def sharingItem (issue : Int) (pr : Option Int) (paths : List (Option String)) : WorkItem :=
  { repo := "hephaestus"
    kind := .issue
    issue := some issue
    pr := pr
    stage := .implementation
    payload := [(implementationFileClaimsPayload, .claims {(("org", "hephaestus"), "shared.py")}),
      ("review_changed_paths", .paths paths)] }

/-- The items `0` and `1` wait in the implementation queue. -/
def waitingPair (first second : WorkItem) : Coordinator :=
  { allocated := 2
    workItem := fun i => if i = 0 then first else second
    queues := Function.update { defaultConfig with parallelRepos := 2 }.emptyQueue .implementation
      { capacity := 4
        capacity_pos := by decide
        items := [(0, 0), (1, 1)]
        nextTicket := 2 }
    seenItemIds := {0, 1}
    items := [0, 1] }

/-- Two workers, and overlap serialized. -/
def pairHost : Host Unit :=
  { stillHost with config := { defaultConfig with org := "org", parallelRepos := 2, maxWorkers := 2 } }

theorem waitingPair_allWaiting {first second : WorkItem}
    {plans : ItemId → Except PlanReadError (List String)}
    (hfirst : first.stage = .implementation ∧ first.result = none ∧ first.issue.isSome = true)
    (hsecond : second.stage = .implementation ∧ second.result = none ∧
      second.issue.isSome = true)
    (hplans : ∀ i, ∃ l, plans i = .ok l) :
    AllWaiting plans [0, 1] (waitingPair first second) where
  nodup := by decide
  ready := by
    intro i hi
    have hcases : i = 0 ∨ i = 1 := by simpa using hi
    rcases hcases with rfl | rfl
    · exact ⟨hfirst.1, hfirst.2.1, hfirst.2.2, List.mem_cons_self⟩
    · exact ⟨hsecond.1, hsecond.2.1, hsecond.2.2, by simp [waitingPair]⟩
  owners := fun _ hj _ _ => hj
  readable := fun i _ _ => hplans i

/-- Both have a pull request, and nobody is selected. -/
theorem started_pair_blocks_itself :
    ¬ ∀ (w : World Unit) (plans : ItemId → Except PlanReadError (List String))
      (candidates : List ItemId) (s : Coordinator),
      pairHost.config.serializeFileOverlap = true → 1 < pairHost.config.maxWorkers →
      (∀ i ∈ (s.queues .implementation).snapshot, i ∈ candidates) → candidates ≠ [] →
      AllWaiting plans candidates s →
      ∃ dispatch t, (selectFileOverlapImplementationItems pairHost w plans candidates).exec s =
        (.ok dispatch, t) ∧ dispatch ≠ [] := by
  intro hclaim
  obtain ⟨dispatch, t, hexec, hne⟩ := hclaim { answers := fun _ => () } (fun _ => .ok []) [0, 1]
    (waitingPair (sharingItem 20 (some 120) [some "shared.py"])
      (sharingItem 21 (some 121) [some "shared.py"]))
    rfl (by decide) (by decide) (by decide)
    (waitingPair_allWaiting ⟨rfl, rfl, rfl⟩ ⟨rfl, rfl, rfl⟩ fun _ => ⟨[], rfl⟩)
  have hnil : ((selectFileOverlapImplementationItems pairHost { answers := fun _ => () }
      (fun _ => .ok []) [0, 1]).exec (waitingPair (sharingItem 20 (some 120) [some "shared.py"])
        (sharingItem 21 (some 121) [some "shared.py"]))).1.toOption = some [] := by
    decide
  rw [hexec] at hnil
  exact hne (Option.some.inj hnil)

/-- The second has not been started, so the first is selected. -/
theorem select_progress_started_first :
    ∃ dispatch t, (selectFileOverlapImplementationItems pairHost { answers := fun _ => () }
      (fun _ => .ok []) [0, 1]).exec (waitingPair (sharingItem 20 (some 120) [some "shared.py"])
        (sharingItem 21 none [])) = (.ok dispatch, t) ∧ dispatch ≠ [] := by
  refine (select_progress_iff _ (waitingPair_allWaiting ⟨rfl, rfl, rfl⟩ ⟨rfl, rfl, rfl⟩
    fun _ => ⟨[], rfl⟩)).mpr (.inl ⟨?_, ?_⟩)
  · decide
  · decide

/-! ## Right memories -/

/-- What blocks a candidate that comes after `passed` and before `later`. -/
def reserved (org : String) (plans : ItemId → Except PlanReadError (List String))
    (s : Coordinator) (passed later : List ItemId) : Finset FileClaim :=
  (passed.filter fun j => !(s.workItem j).isFresh).toFinset.biUnion
    (fun j => (s.workItem j).effectiveClaims org plans j) ∪ laterClaims s later

theorem passedClaims_eq {org : String} {met : Finset FileClaim}
    (h : MemorySound org (s.workItem i)) :
    passedClaims org plans s i met =
      if (s.workItem i).isFresh then ∅ else (s.workItem i).effectiveClaims org plans i := by
  unfold passedClaims
  split
  · rfl
  · split
    · next hc => rw [WorkItem.heldClaims, (h.settled hc).1.held, Option.getD_some]
    · rfl

theorem reserved_cons {org : String} {passed later : List ItemId} :
    reserved org plans s (i :: passed) later =
      (if (s.workItem i).isFresh then ∅ else (s.workItem i).effectiveClaims org plans i) ∪
        reserved org plans s passed later := by
  unfold reserved
  rw [List.filter_cons]
  cases (s.workItem i).isFresh with
  | true => simp
  | false => simp [Finset.union_assoc]

/-- Where the memories are right, the condition is about claims alone. -/
theorem someFree_iff {org : String} (rest : List ItemId)
    (hmem : ∀ i ∈ rest, MemorySound org (s.workItem i)) (done : Finset FileClaim) :
    SomeFree org plans s done rest ↔ ∃ passed i later, rest = passed ++ i :: later ∧
      (s.workItem i).effectiveClaims org plans i ∩
        (done ∪ reserved org plans s passed later) = ∅ := by
  induction rest generalizing done with
  | nil => simp [SomeFree]
  | cons i rest ih =>
      have hi := hmem i List.mem_cons_self
      have hfree : ((s.workItem i).blockedClaims? ≠ some (done ∪ laterClaims s rest) ∧
          (s.workItem i).effectiveClaims org plans i ∩ (done ∪ laterClaims s rest) = ∅) ↔
          (s.workItem i).effectiveClaims org plans i ∩ (done ∪ laterClaims s rest) = ∅ :=
        and_iff_right_of_imp fun hnone hc => (hi.settled hc).2 hnone
      rw [SomeFree, hfree, passedClaims_eq hi, ih fun j hj => hmem j (List.mem_cons_of_mem _ hj)]
      constructor
      · rintro (hnone | ⟨passed, j, later, rfl, hnone⟩)
        · refine ⟨[], i, rest, rfl, ?_⟩
          simpa [reserved] using hnone
        · refine ⟨i :: passed, j, later, rfl, ?_⟩
          rwa [reserved_cons, ← Finset.union_assoc]
      · rintro ⟨passed, j, later, hsplit, hnone⟩
        cases passed with
        | nil =>
            obtain ⟨rfl, rfl⟩ := List.cons.inj hsplit
            refine .inl ?_
            simpa [reserved] using hnone
        | cons k passed =>
            obtain ⟨rfl, rfl⟩ := List.cons.inj hsplit
            refine .inr ⟨passed, j, later, rfl, ?_⟩
            rwa [reserved_cons, ← Finset.union_assoc] at hnone

/-! ## Stuck for good

`_idle_wait` polls, and after some idle ticks `_retry_stalled_queues` drains
the queues again. Nothing a selection leaves behind makes the next one go
better, in whatever order it takes the candidates: once all of them have been
looked at, each is blocked by another's reservation. -/

structure Stuck (org : String) (candidates : List ItemId) (t : Coordinator) : Prop where
  waiting : ∀ plans, AllWaiting plans candidates t
  settled : ∀ i ∈ candidates, Settled org (t.workItem i).heldClaims (t.workItem i)
  blocked : ∀ i ∈ candidates, ∃ j ∈ candidates, j ≠ i ∧ (t.workItem j).isFresh = false ∧
    (t.workItem i).heldClaims ∩ (t.workItem j).heldClaims ≠ ∅

theorem AllWaiting.rekeyed {plans' : ItemId → Except PlanReadError (List String)}
    (hw : AllWaiting plans candidates s) (hitems : t.items = s.items)
    (hre : ∀ j, Rekeyed (s.workItem j) (t.workItem j))
    (hheld : ∀ i ∈ candidates, (t.workItem i).fileClaims? ≠ none) :
    AllWaiting plans' candidates t where
  nodup := hw.nodup
  ready := by
    intro i hi
    rw [Coordinator.stageOf, (hre i).eq, hitems]
    exact hw.ready i hi
  owners := by
    intro j hj
    rw [Coordinator.stageOf, (hre j).eq]
    exact hw.owners j (hitems ▸ hj)
  readable := fun i hi hnone => absurd hnone (hheld i hi)

theorem heldClaims_subset {org : String} (item : WorkItem) :
    item.heldClaims ⊆ item.effectiveClaims org plans i := by
  unfold WorkItem.heldClaims WorkItem.effectiveClaims
  cases item.fileClaims? with
  | none => exact Finset.empty_subset _
  | some held => exact Finset.subset_union_left

/-- A selection that finds nobody free leaves everybody stuck. -/
theorem AllWaiting.stuck {org : String} {done : Finset FileClaim}
    (hw : AllWaiting plans candidates s)
    (hmem : ∀ i ∈ candidates, MemorySound org (s.workItem i))
    (hnone : ¬ SomeFree org plans s ∅ candidates)
    (hpass : Passed org plans s candidates done t) : Stuck org candidates t := by
  have hset : ∀ j ∈ candidates,
      Settled org ((s.workItem j).effectiveClaims org plans j) (t.workItem j) :=
    fun j hj => hpass.settled j hj (hmem j hj)
  have hheld : ∀ j ∈ candidates,
      (t.workItem j).heldClaims = (s.workItem j).effectiveClaims org plans j := by
    intro j hj
    rw [WorkItem.heldClaims, (hset j hj).held, Option.getD_some]
  refine ⟨fun plans' => hw.rekeyed hpass.items hpass.rekeyed ?_, ?_, ?_⟩
  · intro i hi
    rw [(hset i hi).held]
    exact Option.some_ne_none _
  · intro i hi
    rw [hheld i hi]
    exact hset i hi
  · intro i hi
    obtain ⟨passed, later, hsplit⟩ := List.append_of_mem hi
    have hnodup := hw.nodup
    rw [hsplit, List.nodup_append, List.nodup_cons] at hnodup
    obtain ⟨_, ⟨hilater, _⟩, hdisj⟩ := hnodup
    rw [someFree_iff candidates hmem] at hnone
    obtain ⟨x, hx⟩ := Finset.nonempty_iff_ne_empty.mpr
      fun hfree => hnone ⟨passed, i, later, hsplit, by rwa [Finset.empty_union]⟩
    rw [Finset.mem_inter, reserved, Finset.mem_union, mem_laterClaims] at hx
    simp only [Finset.mem_biUnion, List.mem_toFinset, List.mem_filter,
      Bool.not_eq_true'] at hx
    -- whoever blocks `i` now reserves at least what blocked it
    have hby : ∀ j ∈ candidates, j ≠ i → (s.workItem j).isFresh = false →
        x ∈ (s.workItem j).effectiveClaims org plans j → ∃ j ∈ candidates, j ≠ i ∧
          (t.workItem j).isFresh = false ∧
          (t.workItem i).heldClaims ∩ (t.workItem j).heldClaims ≠ ∅ := by
      intro j hj hne hfresh hxj
      refine ⟨j, hj, hne, (hpass.rekeyed j).isFresh.trans hfresh, ?_⟩
      rw [hheld i hi, hheld j hj]
      exact Finset.nonempty_iff_ne_empty.mp ⟨x, Finset.mem_inter.mpr ⟨hx.1, hxj⟩⟩
    rcases hx.2 with ⟨j, ⟨hj, hfresh⟩, hxj⟩ | ⟨j, ⟨hj, hfresh⟩, hxj⟩
    · refine hby j (hsplit ▸ List.mem_append_left _ hj) (fun heq => ?_) hfresh hxj
      exact hdisj j hj i List.mem_cons_self heq
    · refine hby j ?_ (fun heq => hilater (heq ▸ hj)) hfresh (heldClaims_subset _ hxj)
      exact hsplit ▸ List.mem_append_right _ (List.mem_cons_of_mem _ hj)

theorem Stuck.perm {org : String} {order : List ItemId} (h : Stuck org candidates t)
    (hperm : order.Perm candidates) : Stuck org order t where
  waiting := fun plans =>
    { nodup := hperm.nodup_iff.mpr (h.waiting plans).nodup
      ready := fun i hi => (h.waiting plans).ready i (hperm.mem_iff.mp hi)
      owners := fun j hj hnone howns =>
        hperm.mem_iff.mpr ((h.waiting plans).owners j hj hnone howns)
      readable := fun i hi => (h.waiting plans).readable i (hperm.mem_iff.mp hi) }
  settled := fun i hi => h.settled i (hperm.mem_iff.mp hi)
  blocked := by
    intro i hi
    obtain ⟨j, hj, hrest⟩ := h.blocked i (hperm.mem_iff.mp hi)
    exact ⟨j, hperm.mem_iff.mpr hj, hrest⟩

theorem Stuck.not_someFree {org : String} (h : Stuck org candidates t) :
    ¬ SomeFree org plans t ∅ candidates := by
  rw [someFree_iff candidates fun i hi => (h.settled i hi).memory]
  rintro ⟨passed, i, later, hsplit, hnone⟩
  obtain ⟨j, hj, hne, hfresh, hmeet⟩ :=
    h.blocked i (hsplit ▸ List.mem_append_right _ List.mem_cons_self)
  obtain ⟨x, hx⟩ := Finset.nonempty_iff_ne_empty.mpr hmeet
  rw [Finset.mem_inter] at hx
  refine Finset.notMem_empty x (hnone ▸ Finset.mem_inter.mpr ⟨heldClaims_subset _ hx.1, ?_⟩)
  rw [Finset.empty_union, reserved, Finset.mem_union, mem_laterClaims]
  simp only [Finset.mem_biUnion, List.mem_toFinset, List.mem_filter, Bool.not_eq_true']
  rw [hsplit, List.mem_append, List.mem_cons, or_iff_right_of_imp (fun h => absurd h hne)] at hj
  rcases hj with hj | hj
  · exact .inl ⟨j, ⟨hj, hfresh⟩, heldClaims_subset _ hx.2⟩
  · exact .inr ⟨j, ⟨hj, hfresh⟩, hx.2⟩

/-- One more poll selects nobody and leaves everybody stuck. -/
theorem Stuck.poll {order : List ItemId} (h : Stuck host.config.org candidates t)
    (hperm : order.Perm candidates) (w : World ω) :
    (selectFileOverlapImplementationItems host w plans order).wp
      (fun dispatch t' => dispatch = [] ∧ Stuck host.config.org candidates t')
      (fun _ _ => False) t := by
  have hstuck := h.perm hperm
  refine wp_mono ((hstuck.waiting plans).select host w) ?_ fun _ _ hf => hf
  rintro dispatch t' ⟨hiff, done, hpass⟩
  refine ⟨by_contra fun hne => hstuck.not_someFree (hiff.mp hne), ?_⟩
  have hagain := (hstuck.waiting plans).stuck (fun i hi => (hstuck.settled i hi).memory)
    hstuck.not_someFree hpass
  exact hagain.perm hperm.symm

/-- However often the queue is polled, and in whatever orders, nobody is
selected any more. -/
theorem Stuck.forever (w : World ω) (polls : List (List ItemId)) :
    ∀ {t : Coordinator}, Stuck host.config.org candidates t →
      (∀ order ∈ polls, order.Perm candidates) →
      (polls.mapM (selectFileOverlapImplementationItems host w plans)).wp
        (fun selected _ => ∀ dispatch ∈ selected, dispatch = []) (fun _ _ => False) t := by
  induction polls with
  | nil =>
      intro t h _
      rw [List.mapM_nil, wp_pure]
      exact fun _ hd => absurd hd List.not_mem_nil
  | cons order polls ih =>
      intro t h hperm
      rw [List.mapM_cons, wp_bind]
      refine wp_mono (h.poll (hperm order List.mem_cons_self) w) ?_ fun _ _ hf => hf
      rintro dispatch t' ⟨rfl, hagain⟩
      rw [wp_bind]
      refine wp_mono (ih hagain fun o ho => hperm o (List.mem_cons_of_mem _ ho)) ?_
        fun _ _ hf => hf
      intro selected t'' hall
      rw [wp_pure]
      exact List.forall_mem_cons.mpr ⟨rfl, hall⟩

end Hephaestus.Pipeline
