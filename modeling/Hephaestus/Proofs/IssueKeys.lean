import Hephaestus.Proofs.Entry

/-!
# One live item for an issue

`_push_item` refuses a new `ISSUE` item whose `(repo, issue)` is live
already, and `_live_issue_keys` says what live means there: in a ready
queue, out as a job, or under a lease. An item on the timer heap is in none
of these. So two items for one issue are live at once as soon as a source
yields the issue while the first item waits on the heap, and that is the only
way: in a run in which no source does so, live items are for different
issues.
-/

namespace Hephaestus.Pipeline

open Hephaestus.Lib Command

variable {ω : Type} {host : Host ω} {s t : Coordinator} {i j : ItemId}
  {tr : List (Transition Coordinator (CoordinatorEvent ω))}

/-! ## Live items -/

/-- Something holds the item: a ready queue, a lease, one of the two in-flight
maps, or the timer heap. -/
def Coordinator.Live (s : Coordinator) (i : ItemId) : Prop :=
  (∃ st, i ∈ (s.queues st).snapshot) ∨ (s.leases.get? i).isSome = true ∨
    i ∈ s.inFlight.values ∨ i ∈ s.auxiliaryInFlight.values ∨ ∃ entry ∈ s.timers, entry.item = i

/-- No two live items are for the same issue. -/
def Coordinator.IssuesApart (s : Coordinator) : Prop :=
  ∀ i j key, s.Live i → s.Live j → (s.workItem i).issueKey = some key →
    (s.workItem j).issueKey = some key → i = j

theorem Owned.live_seen (ho : Owned s) (h : s.Live i) : i ∈ s.seenItemIds := by
  obtain ⟨holder, hv⟩ := ho.held i
  refine hv.seen.mpr ?_
  rintro rfl
  obtain ⟨hloose, hready, htimers⟩ := hv.nowhere_loose
  have hflights : s.inFlight.values.count i + s.auxiliaryInFlight.values.count i = 0 :=
    hloose.flights
  rcases h with ⟨st, hst⟩ | hlease | hflight | hflight | ⟨entry, hentry, rfl⟩
  · exact absurd (List.count_pos_iff.mpr hst) (Nat.lt_irrefl 0 <| hready st ▸ ·)
  · rw [show s.leases.get? i = none from hloose.lease] at hlease
    cases hlease
  · have hpos := List.count_pos_iff.mpr hflight
    omega
  · have hpos := List.count_pos_iff.mpr hflight
    omega
  · exact absurd (List.mem_map_of_mem hentry) (List.count_eq_zero.mp htimers)

/-- A live item that is not on the heap is one the guard knows of. -/
theorem Owned.key_known (ho : Owned s) (hseen : i ∈ s.seenItemIds)
    (htimer : ∀ entry ∈ s.timers, entry.item ≠ i) {key : String × Int}
    (hkey : (s.workItem i).issueKey = some key) : key ∈ s.liveIssueKeys := by
  obtain ⟨holder, hv⟩ := ho.held i
  unfold Coordinator.liveIssueKeys
  refine List.mem_filterMap.mpr ⟨i, ?_, hkey⟩
  simp only [List.mem_append]
  cases holder with
  | nowhere => exact absurd rfl (hv.seen.mp hseen)
  | ready =>
      have hcount : (s.queues (s.stageOf i)).snapshot.count i = _ := hv.ready (s.stageOf i)
      rw [if_pos ⟨rfl, rfl⟩] at hcount
      have hmem := List.count_pos_iff.mp (hcount ▸ Nat.one_pos)
      refine .inl (.inl (.inl (List.mem_flatMap.mpr ⟨s.stageOf i, ?_, hmem⟩)))
      cases s.stageOf i <;> decide
  | leased ticket =>
      have hlease : s.leases.get? i = some ⟨s.stageOf i, i, ticket⟩ := hv.lease
      exact .inr (List.mem_map.mpr ⟨_, Dict.mem_of_get? hlease, rfl⟩)
  | timer =>
      have hcount : timerCount s.timers i = 1 := hv.timers
      obtain ⟨entry, hentry, heq⟩ := List.mem_map.mp
        (List.count_pos_iff.mp (hcount ▸ Nat.one_pos))
      exact absurd heq (htimer entry hentry)

/-! ## Pushes -/

/-- What a push can do: nothing, or let in an item whose issue the guard has
not found. -/
def Pushes (i : ItemId) (s t : Coordinator) : Prop :=
  Tracks s t ∨
    ((∀ key, (s.workItem i).issueKey = some key → key ∉ s.liveIssueKeys) ∧
      t.seenItemIds = insert i s.seenItemIds ∧
      ∀ j, (t.workItem j).issueKey = (s.workItem j).issueKey)

theorem issueKey_admitPushed {stage : StageName} {enter isNew : Bool} (j : ItemId) :
    ((s.admitPushed i stage enter isNew).workItem j).issueKey = (s.workItem j).issueKey := by
  have hmoved := issueKey_moveTo (s.workItem i) stage enter
  have hset : ∀ item : WorkItem, item.issueKey = (s.workItem i).issueKey →
      ((s.setItem i item).workItem j).issueKey = (s.workItem j).issueKey :=
    fun item h => (Touches.setItem h).tracks.key j
  unfold Coordinator.admitPushed
  dsimp only
  split
  · split
    · exact hset _ hmoved
    · exact hset (WorkItem.setPayload _ _ _) hmoved
  · exact hset _ hmoved

theorem along_pushItem {config : PipelineConfig} {stage : StageName} {enter deferIfFull : Bool}
    (hseen : i ∉ s.seenItemIds) :
    (pushItem config i stage enter deferIfFull).Along (Pushes i) s := by
  unfold pushItem
  refine .get_bind ?_
  simp only [hseen, not_false_eq_true, decide_true, true_and, if_true]
  split
  · exact .inl (refl s)
  · next hguard =>
      have hfree : ∀ key, (s.workItem i).issueKey = some key → key ∉ s.liveIssueKeys := by
        intro key hkey hmem
        exact hguard (by rw [hkey]; simpa using hmem)
      rcases hpermit : s.tryAcquireWorkPermit config i stage with ⟨granted, u⟩
      have hu := tryAcquireWorkPermit_eq hpermit
      have htracks : Tracks s u := by
        rw [hu]
        exact .of_eq rfl rfl rfl
      unfold Along
      rw [exec_bind, exec_set]
      cases granted with
      | false => exact .inl htracks
      | true =>
          simp only [Bool.not_true, Bool.false_eq_true, if_false]
          rcases hoffer : (u.queues stage).offer i with _ | q
          · dsimp only
            rw [exec_bind, exec_modify]
            have hback : Tracks s (u.releaseWorkPermit i) :=
              IsTrans.trans _ _ _ htracks (.of_eq rfl rfl rfl)
            cases deferIfFull with
            | true => exact .inl hback
            | false => exact .inl hback
          · dsimp only
            rw [exec_bind, exec_modify]
            refine .inr ⟨hfree, ?_, fun j => ?_⟩
            · rw [hu]
              rfl
            · dsimp only [exec_pure]
              rw [issueKey_admitPushed]
              exact htracks.key j

/-! ## Runs -/

/-- If the event pushes an item for an issue, no item on the heap is for that
issue. -/
def PushesClear (s : Coordinator) (e : CoordinatorEvent ω) : Prop :=
  ∀ new ∈ e.pushed, ∀ key ∈ new.item.issueKey, ∀ entry ∈ s.timers,
    (s.workItem entry.item).issueKey ≠ some key

instance (s : Coordinator) (e : CoordinatorEvent ω) : Decidable (PushesClear s e) :=
  inferInstanceAs (Decidable (∀ new ∈ e.pushed, ∀ key ∈ new.item.issueKey, _))

/-- No two items that are in are for the same issue. -/
def SeenApart (s : Coordinator) : Prop :=
  ∀ i ∈ s.seenItemIds, ∀ j ∈ s.seenItemIds, ∀ key, (s.workItem i).issueKey = some key →
    (s.workItem j).issueKey = some key → i = j

theorem SeenApart.tracks (h : SeenApart s) (hseen : t.seenItemIds ⊆ s.seenItemIds)
    (hkey : ∀ i, (t.workItem i).issueKey = (s.workItem i).issueKey) : SeenApart t := by
  intro i hi j hj key hik hjk
  rw [hkey] at hik hjk
  exact h i (hseen hi) j (hseen hj) key hik hjk

/-- A push that nothing on the heap objects to. -/
theorem SeenApart.push {new : NewItem} {deferIfFull : Bool} (hs : Sound host s)
    (h : SeenApart s) (hclear : ∀ key ∈ new.item.issueKey, ∀ entry ∈ s.timers,
      (s.workItem entry.item).issueKey ≠ some key) :
    SeenApart ((s.alloc new.item).after
      (pushItem host.config s.allocated new.item.stage true deferIfFull)) := by
  have hunseen : s.allocated ∉ s.seenItemIds := hs.owned.unborn _ le_rfl
  have hold : ∀ j ∈ s.seenItemIds, (s.alloc new.item).workItem j = s.workItem j := by
    intro j hj
    have hne : j ≠ s.allocated := fun heq => hunseen (heq ▸ hj)
    exact Function.update_of_ne hne _ _
  have hnew : (s.alloc new.item).workItem s.allocated = new.item := Function.update_self _ _ _
  have hborn : SeenApart (s.alloc new.item) := by
    intro i hi j hj key hik hjk
    rw [hold i hi] at hik
    rw [hold j hj] at hjk
    exact h i hi j hj key hik hjk
  have howned : Owned (s.alloc new.item) := hs.owned.alloc new.item
  have hpush : (pushItem host.config s.allocated new.item.stage true deferIfFull).Along
    (Pushes s.allocated) (s.alloc new.item) := along_pushItem hunseen
  rcases hpush with htracks | ⟨hfree, hin, hkeys⟩
  · exact hborn.tracks htracks.seen htracks.key
  · -- The new item's key is not one the guard knows, and the heap has none
    -- like it, so it is nobody's.
    have hnobody : ∀ j ∈ s.seenItemIds, ∀ key, new.item.issueKey = some key →
        (s.workItem j).issueKey ≠ some key := by
      intro j hj key hkey hjk
      by_cases htimer : ∃ entry ∈ s.timers, entry.item = j
      · obtain ⟨entry, hentry, rfl⟩ := htimer
        exact hclear key hkey entry hentry hjk
      · have hkey' : ((s.alloc new.item).workItem s.allocated).issueKey = some key := by
          rw [hnew, hkey]
        refine hfree key hkey' (howned.key_known hj ?_ (hold j hj ▸ hjk))
        exact fun entry hentry heq => htimer ⟨entry, hentry, heq⟩
    intro i hi j hj key hik hjk
    unfold Coordinator.after at hi hj hik hjk
    rw [hkeys] at hik hjk
    rw [hin, Finset.mem_insert] at hi hj
    rcases hi with rfl | hi
    · rw [hnew] at hik
      rcases hj with rfl | hj
      · rfl
      · exact absurd (hold j hj ▸ hjk) (hnobody j hj key hik)
    · rcases hj with rfl | hj
      · exact absurd (hold i hi ▸ hik) (hnobody i hi key (hnew ▸ hjk))
      · exact hborn i hi j hj key hik hjk

theorem SeenApart.step {e : CoordinatorEvent ω} (hs : Sound host s) (h : SeenApart s)
    (hclear : PushesClear s e) (hstep : s.step host e = some t) : SeenApart t := by
  cases e with
  | push new deferIfFull =>
      rw [← Option.some.inj hstep]
      exact h.push hs (hclear new rfl)
  | _ =>
      have htracks := step_tracks hs rfl hstep
      exact h.tracks htracks.seen htracks.key

/-- In a run in which no source yields an issue whose item is on the timer
heap, live items are for different issues. -/
theorem issues_apart (host : Host ω)
    (hrun : Run (Coordinator.step host) (.initial host.config) tr s)
    (hclear : ∀ x ∈ tr, PushesClear x.pre x.event) : s.IssuesApart := by
  have hinv : Sound host s ∧ SeenApart s := by
    refine hrun.invariant_of (fun _ u => Sound host u ∧ SeenApart u) PushesClear
      ⟨initial_sound host, fun i hi => by cases hi⟩ ?_ hclear
    rintro _ u e v ⟨hs, happart⟩ hc hstep
    exact ⟨(Coordinator.step_reached hs hstep).sound, happart.step hs hc hstep⟩
  obtain ⟨hs, happart⟩ := hinv
  intro i j key hi hj hik hjk
  exact happart i (hs.owned.live_seen hi) j (hs.owned.live_seen hj) key hik hjk

/-! ### An issue that is seeded while its item waits -/

theorem keeps_retryDelay (item : WorkItem) (delay : PayloadValue) :
    Keeps item (item.setPayload retryDelayKey delay) where
  toPreserves := .setPayload item retryDelayKey delay (by decide) (by decide)
  failBacks := Dict.get?_set_ne _ _ (by decide)

/-- Every stage waits a minute; there is room for two items. -/
def waitingHost : Host Unit where
  config := { defaultConfig with maxWorkers := 2 }
  sha256 := id
  stages := fun st =>
    { stillHost.stages st with
      step :=
        { call := fun _ item => ⟨item.setPayload retryDelayKey (.int 60),
            .ok (.outcome ⟨.retry, "waiting for the merge"⟩)⟩
          keeps := fun _ item => keeps_retryDelay item (.int 60) } }
  sink := stillHost.sink

/-- A new item for an issue whose pull request is up. -/
def mergingIssue (number : Int) : NewItem where
  item := { repo := "hephaestus", kind := .issue, issue := some number, stage := .mergeWait }
  unrecorded := fun _ _ => rfl
  settled := fun h => by cases h

/-- An item is seeded and driven, and waits; then a source yields `number`. -/
def seedWhileWaiting (number : Int) : List (CoordinatorEvent Unit) :=
  [.push (mergingIssue 5) true, .drain { answers := fun _ => () } .mergeWait 0,
    .push (mergingIssue number) true]

/-- The issue of the waiting item is seeded again, and both items are live. -/
theorem waiting_issue_admitted_twice :
    ¬ ∀ tr s, Run (Coordinator.step waitingHost) (.initial waitingHost.config) tr s →
      s.IssuesApart := by
  intro hclaim
  have hevents : (trace (Coordinator.step waitingHost) (.initial waitingHost.config)
      (seedWhileWaiting 5)).any (fun y =>
        decide ((y.2.timers.map TimerEntry.item).contains 0) &&
        decide ((y.2.queues .mergeWait).snapshot.contains 1) &&
        decide ((y.2.workItem 0).issueKey = some ("hephaestus", 5)) &&
        decide ((y.2.workItem 1).issueKey = some ("hephaestus", 5))) = true := by
    decide
  obtain ⟨⟨tr, s⟩, htrace, hprops⟩ := (Option.any_eq_true _ _).mp hevents
  simp only [Bool.and_eq_true, decide_eq_true_eq, List.contains_iff_mem, List.mem_map] at hprops
  obtain ⟨⟨⟨⟨entry, hentry, hitem⟩, hready⟩, hkey0⟩, hkey1⟩ := hprops
  have hsame : (0 : ItemId) = 1 := hclaim tr s (trace_run htrace) 0 1 _
    (.inr (.inr (.inr (.inr ⟨entry, hentry, hitem⟩)))) (.inl ⟨_, hready⟩) hkey0 hkey1
  cases hsame

/-- Another issue is seeded, and the two live items are for different
issues. -/
theorem issues_apart_waiting :
    ∃ tr s, Run (Coordinator.step waitingHost) (.initial waitingHost.config) tr s ∧
      s.seenItemIds = {0, 1} ∧ s.IssuesApart := by
  have hevents : (trace (Coordinator.step waitingHost) (.initial waitingHost.config)
      (seedWhileWaiting 6)).any (fun y =>
        decide (∀ x ∈ y.1, PushesClear x.pre x.event) &&
        decide (y.2.seenItemIds = {0, 1})) = true := by
    decide
  obtain ⟨⟨tr, s⟩, htrace, hprops⟩ := (Option.any_eq_true _ _).mp hevents
  simp only [Bool.and_eq_true, decide_eq_true_eq] at hprops
  have hrun := trace_run htrace
  exact ⟨tr, s, hrun, hprops.2, issues_apart waitingHost hrun hprops.1⟩

end Hephaestus.Pipeline
