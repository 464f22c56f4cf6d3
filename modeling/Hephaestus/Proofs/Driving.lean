import Hephaestus.Proofs.MovePermits
import Hephaestus.Proofs.MoveSink

/-!
# Everything done to an item in hand is a sequence of moves

While the coordinator drives an item it holds the item's lease, and every
operation of `coordinator_runtime.py` and `coordinator_execution.py` ends in
one of two ways: the item has been passed on, or an exception is on its way
up and the item is still in hand, so that `_run_item` can fail it. This
module proves that for each operation, in the order the source has them, and
with it that what the operation did is a sequence of moves.
-/

namespace Hephaestus.Pipeline

open Hephaestus.Lib Hephaestus.Lib.Command StageQueueLease

variable {ω : Type} {host : Host ω} {s₀ s s' : Coordinator} {i j : ItemId}
  {l : StageQueueLease StageName}

/-! ## What a proof carries along -/

/-- The invariants of the coordinator. -/
structure Sound (host : Host ω) (s : Coordinator) : Prop where
  owned : Owned s
  permitted : Permitted host.config s
  sinking : Sinking s
  keyed : s.Keyed

theorem Move.sound (hm : Move host s s') (h : Sound host s) : Sound host s' where
  owned := hm.owned h.owned
  permitted := hm.permitted h.owned h.permitted
  sinking := hm.sinking h.owned h.sinking
  keyed := hm.keyed h.keyed

/-- Moves led here from a sound state. -/
structure Reached (host : Host ω) (s₀ s : Coordinator) : Prop where
  moves : Moves host s₀ s
  sound : Sound host s

theorem Reached.move (h : Reached host s₀ s) (hm : Move host s s') : Reached host s₀ s' :=
  ⟨h.moves.tail hm, hm.sound h.sound⟩

theorem Reached.refl (h : Sound host s) : Reached host s s := ⟨.refl, h⟩

/-- The item is in hand. -/
structure Driven (host : Host ω) (s₀ : Coordinator) (i : ItemId) (s : Coordinator) : Prop
    extends Reached host s₀ s where
  inHand : s.InHand i

/-- The item is in hand, and if it is in the sink then `RECORD` is behind
it. -/
structure Working (host : Host ω) (s₀ : Coordinator) (i : ItemId) (s : Coordinator) : Prop
    extends Driven host s₀ i s where
  quiet : Quiet s i

/-- The item is in hand, and if it is in the sink and the ledger does not
have it then the wave store has been asked. -/
structure Failing (host : Host ω) (s₀ : Coordinator) (i : ItemId) (s : Coordinator) : Prop
    extends Driven host s₀ i s where
  tried : s.stageOf i = .finished → (s.workItem i).payload.flag recordedKey = false →
    WaveTried s i

theorem Working.failing (h : Working host s₀ i s) : Failing host s₀ i s :=
  ⟨h.toDriven, fun hstage hrec => by simp [h.quiet hstage] at hrec⟩

/-- An operation passes the item on, or raises with it still in hand. -/
def PassesOn (host : Host ω) (s₀ : Coordinator) (i : ItemId) {α : Type} (x : Op α)
    (s : Coordinator) : Prop :=
  x.wp (fun _ => Reached host s₀) (fun _ => Failing host s₀ i) s

/-- An operation passes the item on and does not raise. -/
def LetsGo (host : Host ω) (s₀ : Coordinator) {α : Type} (x : Op α) (s : Coordinator) : Prop :=
  x.wp (fun _ => Reached host s₀) (fun _ _ => False) s

theorem LetsGo.passesOn {α : Type} {x : Op α} (h : LetsGo host s₀ x s) :
    PassesOn host s₀ i x s :=
  wp_mono h (fun _ _ hr => hr) fun _ _ hf => hf.elim

/-- `_ = x()`. -/
theorem LetsGo.discard {α : Type} {x : Op α} (h : LetsGo host s₀ x s) :
    LetsGo host s₀ (do let _ ← x : Op Unit) s := by
  unfold LetsGo at *
  rw [wp_bind]
  exact wp_mono h (fun _ _ hr => hr) fun _ _ hf => hf

/-! ## Writes to the record -/

theorem Driven.edit (h : Driven host s₀ i s) {item : WorkItem}
    (hp : Preserves (s.workItem i) item) (hk : SinkOrder (s.workItem i) item) :
    Driven host s₀ i (s.setItem i item) :=
  ⟨h.toReached.move (.edit h.inHand hp hk), h.inHand⟩

theorem Quiet.edit (h : Quiet s i) {item : WorkItem} (hp : Preserves (s.workItem i) item) :
    Quiet (s.setItem i item) i := by
  intro hstage
  rw [Coordinator.stageOf, setItem_workItem_self] at hstage
  rw [setItem_workItem_self]
  unfold Payload.flag
  rw [hp.keys recordedKey (by decide)]
  exact h (hp.stage.symm.trans hstage)

theorem Working.edit (h : Working host s₀ i s) {item : WorkItem}
    (hp : Preserves (s.workItem i) item) : Working host s₀ i (s.setItem i item) where
  toDriven := h.toDriven.edit hp fun hstage hrec => by simp [h.quiet hstage] at hrec
  quiet := h.quiet.edit hp

/-- Where the coordinator or a stage writes to the payload. -/
theorem Preserves.setPayload (item : WorkItem) (key : String) (value : PayloadValue)
    (hkey : key ∉ coordinatorKeys) (hlease : key ≠ waveLeasePayload) :
    Preserves item (item.setPayload key value) where
  repo := rfl
  kind := rfl
  issue := rfl
  stage := rfl
  result := id
  keys := fun _ hk => Dict.get?_set_ne _ _ fun h => hkey (h ▸ hk)
  lease := fun _ _ h => (Dict.get?_set_ne _ _ hlease).trans h

theorem Preserves.popPayload (item : WorkItem) (key : String) (hkey : key ∉ coordinatorKeys)
    (hlease : key ≠ waveLeasePayload) : Preserves item (item.popPayload key) where
  repo := rfl
  kind := rfl
  issue := rfl
  stage := rfl
  result := id
  keys := fun k hk => by
    have hne : k ≠ key := fun h => hkey (h ▸ hk)
    exact (Dict.get?_erase _ _ _).trans (if_neg hne)
  lease := fun _ _ h => ((Dict.get?_erase _ _ _).trans (if_neg hlease.symm)).trans h

/-- A write to fields that nothing here reads. -/
theorem Preserves.of_eq {a b : WorkItem} (hrepo : b.repo = a.repo) (hkind : b.kind = a.kind)
    (hissue : b.issue = a.issue) (hstage : b.stage = a.stage)
    (hresult : a.result.isSome → b.result.isSome) (hpayload : b.payload = a.payload) :
    Preserves a b where
  repo := hrepo
  kind := hkind
  issue := hissue
  stage := hstage
  result := hresult
  keys := fun _ _ => by rw [hpayload]
  lease := fun _ _ h => hpayload ▸ h

theorem Preserves.setState (item : WorkItem) (state : String) :
    Preserves item { item with state } :=
  .of_eq rfl rfl rfl rfl id rfl

theorem Preserves.setResult (item : WorkItem) (result : ItemResult) :
    Preserves item { item with result := some result } :=
  .of_eq rfl rfl rfl rfl (fun _ => rfl) rfl

/-! ## Fields that say nothing about an item -/

theorem Reached.idle (h : Reached host s₀ s) (pending shutdown : Bool) (sources : List String) :
    Reached host s₀ { s with
      directScopeBootstrapPending := pending, shutdown, repoIssueSources := sources } :=
  h.move (.idle pending shutdown sources)

theorem Driven.idle (h : Driven host s₀ i s) (pending shutdown : Bool) (sources : List String) :
    Driven host s₀ i { s with
      directScopeBootstrapPending := pending, shutdown, repoIssueSources := sources } :=
  ⟨h.toReached.idle pending shutdown sources, h.inHand⟩

theorem Working.idle (h : Working host s₀ i s) (pending shutdown : Bool)
    (sources : List String) :
    Working host s₀ i { s with
      directScopeBootstrapPending := pending, shutdown, repoIssueSources := sources } :=
  ⟨h.toDriven.idle pending shutdown sources, h.quiet⟩

/-! ## Giving up a lease -/

@[simp] theorem wp_onQueues {α : Type} {c : QueueCommand StageName α}
    {Q : α → Coordinator → Prop} {E : PyError → Coordinator → Prop} :
    (onQueues c).wp Q E s ↔
      c.wp (fun a queues => Q a { s with queues }) (fun e queues => E e { s with queues })
        s.queues := by
  unfold onQueues
  simp only [wp_bind, wp_get, wp_set]
  unfold wp
  rw [exec_attempt]
  rcases c.exec s.queues with ⟨r | a, queues⟩
  · rfl
  · rfl

theorem wp_of_exec {σ ε α : Type} {x : Command σ ε α} {Q : α → σ → Prop} {E : ε → σ → Prop}
    {a : α} {t t' : σ} (h : x.exec t = (.ok a, t')) : x.wp Q E t ↔ Q a t' := by
  unfold wp
  rw [h]

theorem wp_lookup {κ ν : Type} [DecidableEq κ] {d : Dict κ ν} {k : κ} {v : ν}
    {Q : ν → Coordinator → Prop} {E : PyError → Coordinator → Prop}
    (h : d.get? k = some v) : (lookup d k).wp Q E s ↔ Q v s := by
  unfold lookup
  rw [h]
  rfl

theorem wp_restoreSourceLease {Q : Bool → Coordinator → Prop}
    {E : PyError → Coordinator → Prop} (ho : Owned s) (hl : s.leases.get? i = some l) :
    (restoreSourceLease i).wp Q E s ↔ Q true (s.unlease i (reinserted s.queues l l.item)) := by
  simp only [restoreSourceLease, takeLease, wp_bind, wp_get, wp_set, wp_pure, hl, wp_onQueues,
    wp_of_exec (exec_restore (ho.owns hl))]
  rfl

theorem wp_releaseSourceLease {Q : Bool → Coordinator → Prop}
    {E : PyError → Coordinator → Prop} (hq : l.Owned s.queues)
    (hl : s.leases.get? i = some l) :
    (releaseSourceLease i).wp Q E s ↔ Q true (s.unlease i (released s.queues l)) := by
  simp only [releaseSourceLease, takeLease, wp_bind, wp_get, wp_set, wp_pure, hl, wp_onQueues,
    wp_of_exec (exec_release hq)]
  rfl

theorem Driven.lease (h : Driven host s₀ i s) :
    ∃ l, s.leases.get? i = some l ∧ l.Owned s.queues := by
  obtain ⟨l, hl⟩ := Option.isSome_iff_exists.mp h.inHand.1
  exact ⟨l, hl, h.sound.owned.owns hl⟩

theorem Driven.restore (h : Driven host s₀ i s) : LetsGo host s₀ (restoreSourceLease i) s := by
  obtain ⟨l, hl, _⟩ := h.lease
  exact (wp_restoreSourceLease h.sound.owned hl).mpr (h.toReached.move (.restore h.inHand hl))

theorem Driven.timerPark (h : Driven host s₀ i s) (now delay : ℚ) :
    LetsGo host s₀ (timerPark now i delay) s := by
  obtain ⟨l, hl, hq⟩ := h.lease
  unfold Pipeline.timerPark LetsGo
  rw [wp_bind, wp_releaseSourceLease hq hl, wp_modify]
  exact h.toReached.move (.park (now + max 0 delay) h.inHand hl)

/-! ## Leaving through a result -/

/-- Recording a result touches neither queues nor leases. -/
theorem recordTerminalResult_frame (s : Coordinator) (i : ItemId) (config : PipelineConfig) :
    (s.recordTerminalResult config i).queues = s.queues ∧
      (s.recordTerminalResult config i).leases = s.leases := by
  unfold Coordinator.recordTerminalResult
  dsimp only
  split <;> exact ⟨rfl, rfl⟩

theorem Driven.retire (h : Driven host s₀ i s) (hresult : (s.workItem i).result.isSome = true) :
    LetsGo host s₀ (retire host i) s := by
  obtain ⟨l, hl, hq⟩ := h.lease
  obtain ⟨hqueues, hleases⟩ := recordTerminalResult_frame s i host.config
  unfold Pipeline.retire letGo LetsGo
  rw [wp_bind, wp_modify, wp_bind, wp_releaseSourceLease (hqueues ▸ hq) (hleases ▸ hl),
    wp_modify, hqueues]
  exact h.toReached.move (.retire h.inHand hl hresult)

/-- `_park_resumable` drops the lease first; the result is the same. -/
theorem Driven.parkResumable (h : Driven host s₀ i s) :
    LetsGo host s₀ (parkResumable host.config i) s := by
  obtain ⟨l, hl, hq⟩ := h.lease
  obtain ⟨_, hrec, _⟩ := h.sound.owned.leased_fresh hl
  unfold Pipeline.parkResumable LetsGo
  simp only [wp_bind, wp_releaseSourceLease hq hl, wp_editItem, wp_modify]
  have hedit := h.edit (Preserves.setResult _
    ⟨false, "resumable at " ++ (s.workItem i).stage.value, (s.workItem i).stage⟩)
    fun _ _ => .inl rfl
  have hretire := hedit.toReached.move (.retire hedit.inHand hl (by simp))
  refine cast (congrArg (Reached host s₀) ?_) hretire
  unfold Coordinator.retired
  rw [recordTerminalResult_eq (by simp) (by rw [setItem_workItem_self]; exact hrec),
    recordTerminalResult_eq (by simp) (by rw [setItem_workItem_self]; exact hrec)]
  rfl

/-! ## Handing over -/

/-- What the code makes sure of before it hands an item over. -/
structure Handable (s : Coordinator) (i : ItemId) (target : StageName) (enter : Bool)
    (result : Option ItemResult) : Prop where
  source : s.stageOf i ≠ .finished
  notRepo : target ≠ .repo
  enter : target = .finished → enter = true
  result : target = .finished → result.isSome = true

theorem Handable.retains {target : StageName} {enter : Bool} {result : Option ItemResult}
    (h : Handable s i target enter result) (hne : target ≠ s.stageOf i) :
    Retains i (s.stageOf i) ⟨i, target, enter, result⟩ :=
  ⟨rfl, hne, h.source, h.notRepo, h.enter, h.result⟩

/-- `_handoff_item` moves the item, retains the route, or puts the item back
if it is where it was going. A result with that last target is an error. -/
theorem Driven.handoffItem (h : Driven host s₀ i s) {target : StageName} {enter : Bool}
    {result : Option ItemResult} (ha : Handable s i target enter result) :
    (handoffItem host.config i target enter result).wp (fun _ => Reached host s₀)
      (fun _ t => t = s ∧ target = s.stageOf i ∧ result.isSome = true) s := by
  obtain ⟨l, hl, hq⟩ := h.lease
  unfold Pipeline.handoffItem
  rw [wp_bind, wp_get, wp_bind, wp_lookup hl]
  split
  · next htarget =>
      split
      · next hresult => exact ⟨rfl, htarget, hresult⟩
      · exact wp_mono h.restore (fun _ _ hr => hr) fun _ _ hf => hf.elim
  · next htarget =>
      have hr : Routable s i l target enter result :=
        ⟨hl, h.inHand.2.2, ha.retains htarget⟩
      have hpend := h.toReached.move (.pend hr)
      dsimp only
      split
      · next hlane =>
          rw [wp_bind, wp_onQueues]
          unfold wp
          rw [exec_handoff hq target]
          by_cases hc : (s.queues target).canOffer = true
          · rw [if_pos hc]
            exact h.toReached.move (.handoff hr hlane hc)
          · rw [if_neg hc]
            show Command.wp (if false = true then _ else _) _ _ s
            rw [if_neg (by simp), h.inHand.2.1]
            exact hpend
      · rw [wp_bind, wp_pure, if_neg (by simp), h.inHand.2.1]
        exact hpend

theorem Driven.handoff (h : Driven host s₀ i s) {target : StageName} {enter : Bool}
    {result : Option ItemResult} (ha : Handable s i target enter result)
    (hres : target = s.stageOf i → result = none) :
    LetsGo host s₀ (Pipeline.handoffItem host.config i target enter result) s := by
  refine wp_mono (h.handoffItem ha) (fun _ _ hr => hr) fun _ _ hf => ?_
  rw [hres hf.2.1] at hf
  exact absurd hf.2.2 (by simp)

/-! ## Failing -/

/-- `_finish` never raises: an item in the sink is recorded on the spot, any
other goes there. -/
theorem Failing.finish (h : Failing host s₀ i s) (passed : Bool) (reason : String) :
    LetsGo host s₀ (finish host i passed reason) s := by
  obtain ⟨s₁, hs₁, h₁, hitem, hlog⟩ : ∃ s₁, s₁ =
      (if s.stageOf i = .repo ∧ (s.workItem i).payload.flag directScopeBootstrapKey then
        { s with directScopeBootstrapPending := false } else s) ∧ Driven host s₀ i s₁ ∧
      s₁.workItem = s.workItem ∧ s₁.sinkLog = s.sinkLog := by
    refine ⟨_, rfl, ?_⟩
    split
    · exact ⟨h.toDriven.idle false s.shutdown s.repoIssueSources, rfl, rfl⟩
    · exact ⟨h.toDriven, rfl, rfl⟩
  unfold Pipeline.finish LetsGo
  rw [wp_bind, wp_modify, ← hs₁, wp_bind, wp_get]
  have hstage : s₁.stageOf i = s.stageOf i := by rw [Coordinator.stageOf, hitem]; rfl
  split
  · next hfin =>
      simp only [wp_bind, wp_editItem, wp_modify, setItem_workItem_self, setItem_setItem]
      set result : ItemResult := ⟨passed, reason, s₁.stageOf i⟩
      by_cases hrec : (s₁.workItem i).payload.flag recordedKey = true
      · rw [if_pos hrec]
        have hedit := h₁.edit (Preserves.setResult _ result) fun _ _ => .inl rfl
        have hretire := hedit.retire (by simp)
        unfold Pipeline.retire LetsGo at hretire
        rw [wp_bind, wp_modify] at hretire
        exact hretire
      · rw [if_neg hrec]
        have hrec' : (s₁.workItem i).payload.flag recordedKey = false := by simpa using hrec
        have htried : WaveTried s₁ i := by
          intro lease issue hlease hissue
          rw [hitem] at hlease hissue hrec'
          rw [hlog]
          exact h.tried (hstage ▸ hfin) hrec' lease issue hlease hissue
        have hpoison : Driven host s₀ i _ :=
          ⟨h₁.toReached.move (.poison result h₁.inHand hfin hrec' htried), h₁.inHand⟩
        have hretire := hpoison.retire (by simp [WorkItem.setPayload])
        unfold Pipeline.retire LetsGo at hretire
        rw [wp_bind, wp_modify] at hretire
        exact hretire
  · next hfin =>
      refine (h₁.handoff ⟨hfin, by decide, fun _ => rfl, fun _ => rfl⟩ fun heq => ?_).discard
      exact absurd heq.symm hfin

theorem Working.finish (h : Working host s₀ i s) (passed : Bool) (reason : String) :
    LetsGo host s₀ (Pipeline.finish host i passed reason) s :=
  h.failing.finish passed reason

/-! ## Routing -/

/-- No row of the table, trimmed or not, leads back to `REPO`. -/
theorem runRoutes_notRepo {scope : Option PipelineScope} {st : StageName} {r : Route}
    (h : runRoutes scope st = some r) :
    r.next ≠ .repo ∧ ∀ note, r.failTarget note ≠ .repo := by
  have hfull : (routes st).next ≠ .repo ∧ ∀ kv ∈ (routes st).failRoutes, kv.2 ≠ .repo := by
    cases st <;> decide
  have htarget : ∀ route : Route, (∀ kv ∈ route.failRoutes, kv.2 ≠ .repo) →
      ∀ note, route.failTarget note ≠ .repo := by
    intro route hrows note
    have hget : ∀ key st, route.failRoutes.get? key = some st → st ≠ .repo := by
      intro key st hk
      obtain ⟨kv, hfind, rfl⟩ := Option.map_eq_some_iff.mp hk
      exact hrows kv (List.mem_of_find?_eq_some hfind)
    unfold Route.failTarget
    rcases hnote : route.failRoutes.get? note with _ | st
    · rcases hstar : route.failRoutes.get? "*" with _ | st
      · decide
      · exact hget _ _ hstar
    · exact hget _ _ hnote
  cases scope with
  | none =>
      obtain rfl := Option.some.inj h
      exact ⟨hfull.1, htarget _ hfull.2⟩
  | some scope =>
      have hrestrict : ∀ st, st ≠ .repo → scope.restrict st ≠ .repo := by
        intro st hst
        unfold PipelineScope.restrict
        split
        · exact hst
        · decide
      simp only [runRoutes, PipelineScope.trimmedRoutes] at h
      split at h
      · obtain rfl := Option.some.inj h
        refine ⟨hrestrict _ hfull.1, htarget _ fun kv hkv => ?_⟩
        obtain ⟨kv', hkv', rfl⟩ := List.mem_map.mp hkv
        exact hrestrict _ (hfull.2 kv' hkv')
      · cases h

theorem Working.routeRetry (h : Working host s₀ i s) (w : World ω) (outcome : StageOutcome) :
    LetsGo host s₀ (routeRetry host w i outcome) s := by
  have hedit := h.edit (Preserves.popPayload (s.workItem i) retryDelayKey (by decide)
    (by decide))
  unfold Pipeline.routeRetry LetsGo
  simp only [wp_bind, wp_get, wp_editItem]
  split
  · obtain ⟨l, hl, _⟩ := hedit.lease
    rw [wp_bind, wp_restoreSourceLease hedit.sound.owned hl, if_pos rfl]
    exact hedit.toReached.move (.restore hedit.inHand hl)
  · split
    · exact hedit.finish _ _
    · exact hedit.timerPark _ _

theorem Working.routeFailBack (h : Working host s₀ i s) (outcome : StageOutcome) {route : Route}
    (hsource : s.stageOf i ≠ .finished) (hroute : ∀ note, route.failTarget note ≠ .repo) :
    LetsGo host s₀ (routeFailBack host i outcome route) s := by
  unfold Pipeline.routeFailBack
  split
  · exact h.finish _ _
  · have hedit := h.edit (Preserves.setPayload (s.workItem i) failBacksKey
      (.int ((s.workItem i).failBacks + 1)) (by decide) (by decide))
    have hsource' : (s.setItem i ((s.workItem i).setPayload failBacksKey
        (.int ((s.workItem i).failBacks + 1)))).stageOf i ≠ .finished := by
      rw [Coordinator.stageOf, setItem_workItem_self]
      exact hsource
    unfold LetsGo
    simp only [wp_bind, wp_get, wp_editItem]
    split
    · exact hedit.finish _ _
    · have hrepo := hroute outcome.note
      split
      · exact hedit.finish _ _
      · next target hne =>
          refine (hedit.handoff ⟨hsource', hrepo, fun hf => ?_, fun hf => ?_⟩ fun _ => rfl).discard
          · exact absurd hf hne
          · exact absurd hf hne

/-- The set-up item of a direct scope: it retries, fails, or is gone. -/
theorem Working.routeDirectScopeBootstrap (h : Working host s₀ i s) (w : World ω)
    (outcome : StageOutcome) (hstage : s.stageOf i = .repo)
    (hflag : (s.workItem i).payload.flag directScopeBootstrapKey = true) :
    LetsGo host s₀ (routeDirectScopeBootstrap host w i outcome) s := by
  have hidle := h.idle false s.shutdown s.repoIssueSources
  unfold Pipeline.routeDirectScopeBootstrap
  split
  · exact h.routeRetry w outcome
  · unfold LetsGo
    split
    · rw [wp_bind, wp_modify]
      exact hidle.finish _ _
    · rw [wp_bind, wp_get]
      split
      · rw [wp_bind, wp_modify]
        exact hidle.finish _ _
      · split
        · rw [wp_bind, wp_modify]
          exact hidle.finish _ _
        · obtain ⟨l, hl, hq⟩ := h.lease
          unfold letGo
          simp only [wp_bind, wp_releaseSourceLease hq hl, wp_modify]
          exact (h.toReached.move (.vanish h.inHand hl (.inl ⟨hstage, hflag⟩))).idle false
            s.shutdown s.repoIssueSources

/-- The detour of a merged item. -/
theorem Working.routeMerged (h : Working host s₀ i s) (w : World ω) (outcome : StageOutcome)
    (hstage : s.stageOf i = .mergeWait) (hintents : (s.workItem i).learningIntents ≠ [])
    (hlog : ⟨i, .mergeWait, .finishPass, true⟩ ∈ s.routed) :
    PassesOn host s₀ i (routeMerged host w i outcome) s := by
  unfold Pipeline.routeMerged PassesOn
  simp only [wp_bind, wp_editItem]
  set reason := orElse outcome.note "merged"
  set item := ((s.workItem i).setPayload learningPrimaryReasonKey
    (.str reason)).compactForPostProcessing host.sha256 ⟨true, reason, .mergeWait⟩
  have hstage' : (s.setItem i item).stageOf i = .mergeWait := by
    rw [Coordinator.stageOf, setItem_workItem_self]
    exact hstage
  have hcompact : Working host s₀ i (s.setItem i item) := by
    refine ⟨⟨h.toReached.move (.compact reason _ h.inHand hstage hintents hlog), h.inHand⟩, ?_⟩
    intro hfin
    cases hstage'.symm.trans hfin
  split
  · refine ((hcompact.handoff ⟨?_, by decide, fun _ => rfl, fun _ => rfl⟩
      fun heq => ?_).discard).passesOn
    · rw [hstage']
      decide
    · rw [hstage'] at heq
      cases heq
  · next e _ =>
      split
      · have hp : Preserves item { item with
            payload := item.payload.addFailure "post_merge" (clip1000 e.message)
            learningIntents := [] } :=
          (Preserves.setPayload item _ _ (by decide) (by decide)).trans
            (.of_eq rfl rfl rfl rfl id rfl)
        have hedit := hcompact.edit (by rwa [setItem_workItem_self])
        rw [setItem_setItem] at hedit
        rw [wp_bind, wp_editItem, setItem_workItem_self, setItem_setItem]
        refine ((hedit.handoff ⟨?_, by decide, fun _ => rfl, fun _ => rfl⟩
          fun heq => ?_).discard).passesOn
        · rw [Coordinator.stageOf, setItem_workItem_self]
          exact fun hfin => by cases hstage.symm.trans hfin
        · rw [Coordinator.stageOf, setItem_workItem_self] at heq
          cases heq.trans hstage
      · exact hcompact.failing

theorem Working.routeAdvance (h : Working host s₀ i s) (w : World ω) (outcome : StageOutcome)
    {route : Route} (hsource : s.stageOf i ≠ .finished) (hroute : route.next ≠ .repo) :
    PassesOn host s₀ i (routeAdvance host w i outcome route) s := by
  unfold Pipeline.routeAdvance PassesOn
  rw [wp_bind, wp_get]
  dsimp only
  split
  · next hdetour =>
      have hp : Preserves (s.workItem i)
          { s.workItem i with learningResumeStage := some route.next } :=
        .of_eq rfl rfl rfl rfl id rfl
      have hedit := h.edit hp
      have hstage : (s.setItem i { s.workItem i with
          learningResumeStage := some route.next }).stageOf i = .planReview := by
        rw [Coordinator.stageOf, setItem_workItem_self]
        exact hdetour.1
      rw [wp_bind, wp_editItem, wp_bind]
      refine wp_attempt (fun _ _ => ?_) fun _ _ => hedit.failing
      refine ((hedit.handoff ⟨?_, by decide, fun _ => rfl, fun hf => ?_⟩
        fun _ => rfl).discard).passesOn
      · rw [hstage]
        decide
      · cases hf
  · split
    · have hedit := h.edit (Preserves.popPayload (s.workItem i) learningPrimaryReasonKey
        (by decide) (by decide))
      have hsource' : (s.setItem i ((s.workItem i).popPayload
          learningPrimaryReasonKey)).stageOf i ≠ .finished := by
        rw [Coordinator.stageOf, setItem_workItem_self]
        exact hsource
      rw [wp_bind, wp_editItem]
      split
      · exact ((hedit.handoff ⟨hsource', by decide, fun _ => rfl, fun _ => rfl⟩
          fun heq => absurd heq.symm hsource').discard).passesOn
      · exact (hedit.finish _ _).passesOn
    · next hne =>
        exact ((h.handoff ⟨hsource, hroute, fun _ => rfl, fun hf => absurd hf hne⟩
          fun _ => rfl).discard).passesOn

theorem Working.routeRow (h : Working host s₀ i s) (w : World ω) (outcome : StageOutcome)
    {route : Route} (hsource : s.stageOf i ≠ .finished)
    (hroute : route.next ≠ .repo ∧ ∀ note, route.failTarget note ≠ .repo)
    (hlog : ⟨i, s.stageOf i, outcome.disposition, !(s.workItem i).learningIntents.isEmpty⟩ ∈
      s.routed) :
    PassesOn host s₀ i (routeRow host w i outcome route) s := by
  unfold Pipeline.routeRow
  split
  · exact h.routeAdvance w outcome hsource hroute.1
  · exact (h.routeRetry w outcome).passesOn
  · exact (h.routeFailBack outcome hsource hroute.2).passesOn
  · exact (h.finish _ _).passesOn
  · have hedit := h.edit (Preserves.setResult (s.workItem i)
      ⟨true, "ejected: " ++ outcome.note, (s.workItem i).stage⟩)
    unfold PassesOn
    rw [wp_bind, wp_editItem]
    exact (hedit.retire (by simp)).passesOn
  · exact (h.finish _ _).passesOn
  · next hdisp =>
      unfold PassesOn
      rw [wp_bind, wp_get]
      split
      · next hmerged =>
          have hempty : (s.workItem i).learningIntents.isEmpty = false := by
            simpa using hmerged.2
          rw [hdisp, hmerged.1, hempty] at hlog
          exact h.routeMerged w outcome hmerged.1 hmerged.2 hlog
      · exact (h.finish _ _).passesOn
  · exact (h.finish _ _).passesOn

/-- `_route`, for any outcome. -/
theorem Working.route (h : Working host s₀ i s) (w : World ω) (outcome : StageOutcome) :
    PassesOn host s₀ i (route host w i outcome) s := by
  have hlog : Working host s₀ i (s.logRoute i outcome) :=
    ⟨⟨h.toReached.move (.logRoute i outcome), h.inHand⟩, h.quiet⟩
  unfold Pipeline.route PassesOn
  rw [wp_bind, wp_get, wp_bind, wp_set]
  split
  · next hboot => exact (hlog.routeDirectScopeBootstrap w outcome hboot.1 hboot.2).passesOn
  · split
    · exact (hlog.finish _ _).passesOn
    · next r hr =>
        split
        · next hfin =>
            obtain ⟨l, hl, _⟩ := hlog.lease
            exact (hlog.retire ((hlog.sound.owned.leased_fresh hl).2.2 hfin)).passesOn
        · next hfin =>
            refine hlog.routeRow w outcome hfin (runRoutes_notRepo hr) ?_
            exact List.mem_append_right _ (List.mem_singleton_self _)

/-- `_route` does not raise for an item in the sink, recorded or not. -/
theorem Driven.route_finished (h : Driven host s₀ i s) (w : World ω) (outcome : StageOutcome)
    (hfin : s.stageOf i = .finished) : LetsGo host s₀ (Pipeline.route host w i outcome) s := by
  have hlog : Driven host s₀ i (s.logRoute i outcome) :=
    ⟨h.toReached.move (.logRoute i outcome), h.inHand⟩
  obtain ⟨r, hr⟩ := Option.isSome_iff_exists.mp
    (runRoutes_auxiliary host.config.scope isAuxiliary_finished)
  unfold Pipeline.route LetsGo
  rw [wp_bind, wp_get, wp_bind, wp_set]
  simp only [hfin, reduceCtorEq, false_and, if_false, hr, if_true]
  obtain ⟨l, hl, _⟩ := hlog.lease
  exact hlog.retire ((hlog.sound.owned.leased_fresh hl).2.2 hfin)

/-! ## Jobs -/

theorem Working.submitReadyJob (h : Working host s₀ i s) (w : World ω) (request : JobRequest) :
    PassesOn host s₀ i (submitReadyJob host w i request) s := by
  unfold Pipeline.submitReadyJob PassesOn
  split
  · exact h.failing
  · rw [wp_bind]
    refine wp_attempt (fun _ _ => ?_) fun _ _ => h.failing
    rw [wp_modify]
    dsimp only
    split
    · exact h.toReached.move (.submitAuxiliary _ h.inHand h.quiet)
    · exact h.toReached.move (.submit _ _ h.inHand h.quiet)

theorem Working.submit (h : Working host s₀ i s) (w : World ω) (request : JobRequest) :
    PassesOn host s₀ i (submit host w i request) s := by
  unfold Pipeline.submit
  split
  · unfold PassesOn
    rw [wp_bind, wp_editItem]
    exact (h.edit (Preserves.setPayload _ _ _ (by decide) (by decide))).submitReadyJob w _
  · exact h.submitReadyJob w request

theorem Working.completeRateBudget (h : Working host s₀ i s) (w : World ω)
    (result : JobResult) : PassesOn host s₀ i (completeRateBudget host w i result) s := by
  have hedit := h.edit (Preserves.popPayload (s.workItem i) pendingAgentRequestKey
    (by decide) (by decide))
  unfold Pipeline.completeRateBudget PassesOn
  simp only [wp_bind, wp_get, wp_editItem]
  split
  · exact hedit.parkResumable.passesOn
  · split
    · split
      · exact (hedit.finish _ _).passesOn
      · split
        · exact hedit.submitReadyJob w _
        · split
          · split
            · exact hedit.failing
            · exact (hedit.timerPark _ _).passesOn
          · exact hedit.submitReadyJob w _
    · exact (hedit.finish _ _).passesOn

/-! ## Driving -/

/-- A repository item whose cursor is ready is replaced by the cursor, or
waits for a slot. -/
theorem Working.leaveRepoStage (h : Working host s₀ i s) (w : World ω)
    (hready : (s.workItem i).sourceReady = true) :
    LetsGo host s₀ (leaveRepoStage host w i) s := by
  unfold Pipeline.leaveRepoStage externalizeRepoIssueSource LetsGo
  rw [wp_bind, wp_bind, wp_get]
  split
  · rw [wp_pure, if_neg (by simp)]
    exact h.timerPark _ _
  · have hedit := h.edit (Preserves.popPayload (s.workItem i) repoIssueSourceKey
      (by decide) (by decide))
    have hidle := hedit.idle s.directScopeBootstrapPending s.shutdown
      (s.repoIssueSources ++ [(s.workItem i).repo])
    have hsetup : (s.workItem i).kind = .repo ∧ (s.workItem i).state = "SOURCE" := by
      simp only [WorkItem.sourceReady, Bool.and_eq_true, decide_eq_true_eq] at hready
      exact hready.1
    obtain ⟨l, hl, hq⟩ := hidle.lease
    have hvanish := hidle.toReached.move (.vanish hidle.inHand hl (.inr (by
      simpa [WorkItem.popPayload] using hsetup)))
    simp only [wp_bind, wp_editItem, wp_modify, setItem_workItem_self]
    exact (wp_releaseSourceLease hq hl).mpr hvanish

theorem wp_callMethod {α : Type} {m : StageMethod ω α} {w : ω} {Q : α → Coordinator → Prop}
    {E : PyError → Coordinator → Prop}
    (hok : ∀ a, Q a (s.setItem i (m.call w (s.workItem i)).item))
    (herror : ∀ e, E e (s.setItem i (m.call w (s.workItem i)).item)) :
    (callMethod m w i).wp Q E s := by
  unfold callMethod
  rw [wp_bind, wp_get, wp_bind, wp_set]
  exact wp_attempt (fun a _ => hok a) fun e _ => herror e

theorem setItem_stageOf {item : WorkItem} (h : item.stage = s.stageOf i) :
    (s.setItem i item).stageOf i = s.stageOf i := by
  rw [Coordinator.stageOf, setItem_workItem_self, h]

theorem setState_stageOf (state : String) :
    (s.setItem i { s.workItem i with state }).stageOf i = s.stageOf i := by
  rw [Coordinator.stageOf, setItem_workItem_self]
  rfl

/-- A stage method, on an item in hand. -/
theorem Working.callMethod {α : Type} (h : Working host s₀ i s) (m : StageMethod ω α) (w : ω) :
    (callMethod m w i).wp (fun _ t => Working host s₀ i t ∧ t.stageOf i = s.stageOf i)
      (fun _ t => Working host s₀ i t ∧ t.stageOf i = s.stageOf i) s := by
  have hkeeps := (m.keeps w (s.workItem i)).toPreserves
  have hedit := h.edit hkeeps
  exact wp_callMethod (fun _ => ⟨hedit, setItem_stageOf hkeeps.stage⟩)
    fun _ => ⟨hedit, setItem_stageOf hkeeps.stage⟩

/-! ### The sink -/

/-- What a sink step does to an item that the ledger does not have: it
announces `RECORD`, or it records, or it raises after the wave store was
asked. -/
theorem finishedStep_unrecorded (sink : Sink ω) (w : ω) {item : WorkItem}
    (hstate : BeforeCleanup item.state) :
    (item.state ≠ "RECORD" ∧ finishedStep sink w i item = ⟨item, [], .ok (.goOn "RECORD")⟩) ∨
    (finishedStep sink w i item).item.payload.flag recordedKey = true ∨
    ((finishedStep sink w i item).item.payload = item.payload ∧
      (finishedStep sink w i item).item.issue = item.issue ∧
      ∃ e, (finishedStep sink w i item).reply = .error e ∧
        ∀ lease issue, item.payload.get? waveLeasePayload = some (.lease lease) →
          item.issue = some issue → ∃ passed reason pr nonCode stored,
            SinkEffect.waveOutcome lease issue passed reason pr nonCode stored ∈
              (finishedStep sink w i item).effects) := by
  by_cases hrecord : item.state = "RECORD"
  · right
    have hstep : finishedStep sink w i item = recordStep sink w i item := by
      unfold finishedStep
      rw [if_neg (by rw [hrecord]; decide), if_pos hrecord]
    rw [hstep]
    obtain ⟨r, worktree, heq⟩ := recordResult_eq sink w item
    have hledger : ∀ (item' : WorkItem) effects result,
        (recordLedger i item' effects result).item.payload.flag recordedKey = true := by
      intro item' effects result
      unfold recordLedger
      split
      · next hrec => exact hrec
      · simp [WorkItem.setPayload, Payload.flag, PayloadValue.truthy]
    unfold recordStep
    simp only [heq]
    split
    · next lease issue hlease hissue _ =>
        rcases hwave : recordWave sink w { item with result := some r, worktree } lease issue r
          with ⟨effects, result, _ | e⟩
        · exact .inl (hledger _ _ _)
        · -- The store raised: the call is in the log, and nothing else changed.
          refine .inr ⟨rfl, rfl, e, rfl, fun lease' issue' hlease' hissue' => ?_⟩
          obtain rfl : lease = lease' := by
            simpa using (hlease.symm.trans hlease')
          obtain rfl : issue = issue' := by
            simpa using (hissue.symm.trans hissue')
          unfold recordWave at hwave
          dsimp only at hwave
          split at hwave
          · cases hwave
          · obtain ⟨rfl, _⟩ := Prod.mk.inj hwave
            exact ⟨_, _, _, _, _, List.mem_singleton_self _⟩
          · split at hwave
            · obtain ⟨rfl, _⟩ := Prod.mk.inj hwave
              exact ⟨_, _, _, _, _, List.mem_cons_self⟩
            · cases hwave
    · exact .inl (hledger _ _ _)
  · left
    refine ⟨hrecord, ?_⟩
    have hentry : item.state = "" ∨ item.state = "ENTER" := by
      rcases hstate with h | h | h
      · exact .inl h
      · exact .inr h
      · exact absurd h hrecord
    unfold finishedStep
    rw [if_pos hentry]

/-- A sink step keeps an item the ledger has recorded. -/
theorem finishedStep_recorded (sink : Sink ω) (w : ω) {item : WorkItem}
    (hrec : item.payload.flag recordedKey = true) :
    (finishedStep sink w i item).item.payload.flag recordedKey = true := by
  have hkeep : ∀ item' : WorkItem, Keeps item item' →
      item'.payload.flag recordedKey = true := by
    intro item' hk
    unfold Payload.flag at hrec ⊢
    rwa [hk.keys recordedKey (by decide)]
  unfold finishedStep
  split
  · exact hrec
  · split
    · obtain ⟨r, worktree, heq⟩ := recordResult_eq sink w item
      have hset : ∀ key (item' : WorkItem), item'.payload = item.payload.set key (.bool true) →
          item'.payload.flag recordedKey = true := by
        intro key item' h
        by_cases hkey : key = recordedKey
        · subst hkey
          simp [h, Payload.flag, PayloadValue.truthy]
        · rw [h, Payload.flag_set_ne _ hkey]
          exact hrec
      unfold recordStep recordLedger
      simp only [heq]
      split
      · split
        · exact hrec
        · split
          · exact hset _ _ rfl
          · next hfalse => exact absurd (hset _ _ rfl) hfalse
      · rw [if_pos hrec]
        exact hrec
    · split
      · exact hkeep _ (sink.cleanup.keeps w item)
      · split
        · exact hkeep _ (sink.recordCleanupTerminal.keeps w item)
        · exact hrec

/-- A step of the sink, on an item in hand. -/
theorem Driven.sinkStep (h : Driven host s₀ i s) (hfin : s.stageOf i = .finished) (w : ω) :
    (host.step .finished w i).wp
      (fun r t => t.stageOf i = .finished ∧ (Working host s₀ i t ∨
        (r = .goOn "RECORD" ∧ Driven host s₀ i t ∧ (s.workItem i).state ≠ "RECORD" ∧
          (s.workItem i).payload.flag recordedKey = false)))
      (fun _ => Failing host s₀ i) s := by
  set c := finishedStep host.sink w i (s.workItem i) with hc
  have hdriven : Driven host s₀ i (s.sunk i c) :=
    ⟨h.toReached.move (.sink w h.inHand hfin), h.inHand⟩
  have hitem : (s.sunk i c).workItem i = c.item := Function.update_self _ _ _
  have hstage : (s.sunk i c).stageOf i = .finished := by
    rw [Coordinator.stageOf, hitem]
    exact (finishedStep_keeps host.sink w (s.workItem i)).stage.trans hfin
  have hworking (hrec : c.item.payload.flag recordedKey = true) :
      Working host s₀ i (s.sunk i c) :=
    ⟨hdriven, fun _ => hitem.symm ▸ hrec⟩
  unfold Host.step
  rw [if_pos rfl, wp_bind, wp_get, wp_bind, wp_set, ← hc]
  by_cases hrec : (s.workItem i).payload.flag recordedKey = true
  · have hw := hworking (finishedStep_recorded host.sink w hrec)
    exact wp_attempt (fun _ _ => ⟨hstage, .inl hw⟩) fun _ _ => hw.failing
  · have hrec' : (s.workItem i).payload.flag recordedKey = false := by simpa using hrec
    have hstate := (h.sound.sinking i (h.sound.owned.inHand_seen h.inHand) hfin hrec').2
    rcases finishedStep_unrecorded (i := i) host.sink w hstate with
      ⟨hne, heq⟩ | hdone | ⟨hpayload, hissue, e, he, hlog⟩
    · refine wp_attempt (fun a ha => ⟨hstage, .inr ⟨?_, hdriven, hne, hrec'⟩⟩) fun e he => ?_
      · rw [hc, heq] at ha
        exact (Except.ok.inj ha).symm
      · rw [hc, heq] at he
        cases he
    · have hw := hworking hdone
      exact wp_attempt (fun _ _ => ⟨hstage, .inl hw⟩) fun _ _ => hw.failing
    · refine wp_attempt (fun a ha => ?_) fun e' he' => ⟨hdriven, fun _ _ => ?_⟩
      · rw [he] at ha
        cases ha
      · intro lease issue hlease hissue'
        rw [hitem] at hlease hissue'
        obtain ⟨passed, reason, pr, nonCode, stored, hmem⟩ :=
          hlog lease issue (hpayload ▸ hlease) (hissue ▸ hissue')
        exact ⟨passed, reason, pr, nonCode, stored, List.mem_append_right _ hmem⟩

/-! ### The step loop -/

/-- A step of the item's own stage: the sink, or any other. -/
theorem Driven.hostStep (h : Driven host s₀ i s) (w : ω) :
    (host.step (s.stageOf i) w i).wp
      (fun r t => t.stageOf i = s.stageOf i ∧ (Working host s₀ i t ∨
        (r = .goOn "RECORD" ∧ Driven host s₀ i t ∧ (s.workItem i).state ≠ "RECORD" ∧
          s.stageOf i = .finished ∧ (s.workItem i).payload.flag recordedKey = false)))
      (fun _ => Failing host s₀ i) s := by
  by_cases hfin : s.stageOf i = .finished
  · rw [hfin]
    refine wp_mono (h.sinkStep hfin w) (fun r t ht => ⟨ht.1, ht.2.imp_right ?_⟩) fun _ _ ht => ht
    exact fun ⟨hr, hd, hne, hrec⟩ => ⟨hr, hd, hne, rfl, hrec⟩
  · have hw : Working host s₀ i s := ⟨h, fun hf => absurd hf hfin⟩
    unfold Host.step
    rw [if_neg hfin]
    exact wp_mono (hw.callMethod _ w) (fun _ _ ht => ⟨ht.2, .inl ht.1⟩) fun _ _ ht =>
      ht.1.failing

/-- The step budget of a tick covers the way to `RECORD`. -/
def Ample (fuel : Nat) (s : Coordinator) (i : ItemId) : Prop :=
  s.stageOf i = .finished → (s.workItem i).payload.flag recordedKey = false →
    1 ≤ fuel ∧ ((s.workItem i).state ≠ "RECORD" → 2 ≤ fuel)

theorem Quiet.ample (h : Quiet s i) (fuel : Nat) : Ample fuel s i := fun hstage hrec => by
  simp [h hstage] at hrec

/-- Induction on the steps left. In the sink an item is either recorded or
has enough of them to get through `RECORD`, so running out of steps never
fails an item that the wave store has not been asked about. -/
theorem Driven.stepLoop (h : Driven host s₀ i s) {stage : StageName}
    (hstage : s.stageOf i = stage) (w : World ω) (fuel k : Nat) (hample : Ample fuel s i) :
    PassesOn host s₀ i (stepLoop host stage w i fuel k) s := by
  induction fuel generalizing s k with
  | zero =>
      refine ⟨h, fun hfin hrec => ?_⟩
      have hlt := (hample hfin hrec).1
      omega
  | succ fuel ih =>
      unfold Pipeline.stepLoop PassesOn
      rw [wp_bind]
      have hstep := h.hostStep (w.answers k)
      rw [hstage] at hstep
      refine wp_mono hstep (fun r t ⟨hkeep, ht⟩ => ?_) fun _ _ hf => hf
      rcases ht with hw | ⟨rfl, hd, hne, hfin, hrec⟩
      · cases r with
        | goOn next =>
            have hedit := hw.edit (Preserves.setState _ next)
            simp only [wp_bind, wp_editItem, wp_get]
            split
            · next hready => exact (hedit.leaveRepoStage w hready).passesOn
            · exact ih hedit.toDriven ((setState_stageOf next).trans hkeep) (k + 1)
                (hedit.quiet.ample fuel)
        | job request =>
            dsimp only
            split
            · exact hw.route w _
            · exact hw.submit w request
        | outcome o => exact hw.route w o
      · -- On the way to `RECORD`: one step is used up, and two were left.
        have hedit := hd.edit (Preserves.setState _ "RECORD") fun _ _ => .inr rfl
        simp only [wp_bind, wp_editItem, wp_get]
        rw [if_neg (by simp [WorkItem.sourceReady])]
        refine ih hedit ((setState_stageOf "RECORD").trans hkeep) (k + 1) fun _ _ => ?_
        have hle := (hample (hstage.trans hfin) hrec).2 hne
        refine ⟨by omega, fun hstate => ?_⟩
        exact absurd (by simp) hstate

theorem Driven.runItemBody (h : Driven host s₀ i s) (w : World ω) :
    PassesOn host s₀ i (runItemBody host (s.stageOf i) w i) s := by
  have hedit := h.edit (Preserves.popPayload (s.workItem i) enterPendingKey (by decide)
    (by decide)) fun _ _ => .inl rfl
  have hstage : (s.setItem i ((s.workItem i).popPayload enterPendingKey)).stageOf i =
      s.stageOf i := setItem_stageOf rfl
  have hample : ∀ t, Ample maxStepsPerTick t i := fun t _ _ =>
    ⟨by decide, fun _ => by decide⟩
  unfold Pipeline.runItemBody PassesOn
  rw [wp_bind, wp_get]
  dsimp only
  rw [wp_bind, wp_editItem]
  split
  · rw [wp_bind]
    unfold Host.onEnter
    split
    · exact hedit.stepLoop hstage w _ _ (hample _)
    · next hfin =>
        have hw : Working host s₀ i (s.setItem i ((s.workItem i).popPayload enterPendingKey)) :=
          ⟨hedit, fun hf => absurd (hstage.symm.trans hf) hfin⟩
        refine wp_mono (hw.callMethod _ _) (fun o t ⟨ht, hkeep⟩ => ?_) fun _ _ ht => ht.1.failing
        cases o with
        | none => exact ht.stepLoop (hkeep.trans hstage) w _ _ (hample _)
        | some o => exact ht.route w o
  · exact hedit.stepLoop hstage w _ _ (hample _)

/-- `_run_item` never raises: whatever comes up fails the item. -/
theorem Driven.runItem (h : Driven host s₀ i s) (w : World ω) :
    LetsGo host s₀ (runItem host w i) s := by
  unfold Pipeline.runItem LetsGo
  rw [wp_bind, wp_get, wp_tryCatch]
  exact wp_mono (h.runItemBody w) (fun _ _ hr => hr) fun _ _ hf => hf.finish _ _

/-! ### Completions -/

/-- `on_job_done`: the item is still in hand, or the exception has been dealt
with. -/
theorem Working.jobDone (h : Working host s₀ i s) (w : World ω) (result : JobResult) :
    (jobDone host w i result).wp
      (fun returned t => if returned then Working host s₀ i t else Reached host s₀ t)
      (fun _ _ => False) s := by
  unfold Pipeline.jobDone
  rw [wp_bind, wp_get, wp_tryCatch, wp_bind]
  refine wp_mono (h.callMethod _ _) (fun _ t ht => ?_) fun e t ht => ?_
  · rw [wp_pure, if_pos rfl]
    exact ht.1
  · dsimp only
    split
    · have hp : Preserves (t.workItem i) { t.workItem i with
          payload := (t.workItem i).payload.addFailure "journal" "journal_completion_failed" } :=
        Preserves.setPayload _ _ _ (by decide) (by decide)
      have hedit := ht.1.edit hp
      simp only [wp_bind, wp_editItem]
      exact wp_mono hedit.parkResumable (fun _ _ hr => hr) fun _ _ hf => hf
    · rw [wp_bind]
      exact wp_mono (ht.1.finish _ _) (fun _ _ hr => hr) fun _ _ hf => hf

theorem Working.completeJob (h : Working host s₀ i s) (w : World ω) (handle : JobHandle)
    (result : JobResult) : PassesOn host s₀ i (completeJob host w i handle result) s := by
  unfold Pipeline.completeJob PassesOn
  rw [wp_bind, wp_get]
  dsimp only
  split
  · split
    · rw [wp_bind]
      exact wp_mono (h.callMethod _ _) (fun _ _ ht => ht.1.parkResumable.passesOn)
        fun _ _ ht => ht.1.failing
    · exact h.parkResumable.passesOn
  · split
    · exact (h.finish _ _).passesOn
    · rw [wp_bind]
      refine wp_mono (h.jobDone w result) (fun returned t ht => ?_) fun _ _ hf => hf.elim
      cases returned with
      | false => exact ht
      | true =>
          have hedit := Working.edit ht (Preserves.setState _ handle.onDoneState)
          simp only [if_true, wp_bind, wp_editItem]
          split
          · exact hedit.parkResumable.passesOn
          · exact (hedit.runItem _).passesOn

end Hephaestus.Pipeline
