import Hephaestus.Github.RateLimit
import Hephaestus.Lib.TokenBucket

/-!
# The throttle as a token bucket

Where no process reads the state file while the buffer of another is still to
be flushed, the processes take their tokens from one bucket: the file, or the
document that is about to replace it, says how much is in it, and a run of the
throttle is matched step by step by a run of `TokenBucket`. The bound on the
tokens taken in an interval is the bucket's. A call returns some time after
its token was taken, so for the calls that return in an interval the bound has
what flows in during that time on top; it is the bucket's where no time
passes.

The file may start with anything in it. What an old document says about now
can jump as the clock passes the time it was written at, so until the first
write the bucket is taken to be full.

Nothing in the code keeps a process from reading too early: the lock is
dropped before the buffer is flushed, and in between the file is empty, which
reads as a full bucket.
-/

namespace Hephaestus.Github

open Hephaestus.Lib

variable {json : JsonText} {config : ThrottleConfig} {s : ThrottleState} {p q : Nat}
  {raw : List Char} {now tokens updated : ℚ}

/-! ## What the file says -/

/-- The text of what a process is about to write. -/
def Settled.text (json : JsonText) (settled : Settled) : List Char :=
  json.dumps (throttleDocument settled.tokens settled.now)

theorem load_dumps (hupdated : updated ≤ now) :
    loadPersistedThrottleState json (json.dumps (throttleDocument tokens updated)) config.burst
        now = if tokens < 0 ∨ config.burst < tokens then (0, now)
      else if updated < 0 then (0, now) else (tokens, updated) := by
  unfold loadPersistedThrottleState
  rw [if_neg (json.dumps_ne_nil tokens updated), json.loads_dumps]
  simp [throttleDocument, Json.asObj?, Json.get?, Dict.get?, loadPersistedThrottleNumber,
    hupdated.not_gt]

variable (json config raw now) in
/-- What comes out of the file is not negative, and not from the future. -/
theorem load_sane : 0 ≤ (loadPersistedThrottleState json raw config.burst now).1 ∧
    ((loadPersistedThrottleState json raw config.burst now).2 ≤ 0 ∨
      (loadPersistedThrottleState json raw config.burst now).2 ≤ now) := by
  unfold loadPersistedThrottleState
  split
  · exact ⟨zero_le_one.trans config.one_le_burst, .inl le_rfl⟩
  · split
    · exact ⟨le_rfl, .inr le_rfl⟩
    · split
      · exact ⟨le_rfl, .inr le_rfl⟩
      · split
        · split
          · exact ⟨le_rfl, .inr le_rfl⟩
          · next htokens =>
              split
              · exact ⟨le_rfl, .inr le_rfl⟩
              · next hupdated =>
                  exact ⟨not_lt.mp (not_or.mp htokens).1,
                    .inr (not_lt.mp (not_or.mp hupdated).2)⟩
        · exact ⟨le_rfl, .inr le_rfl⟩

theorem refilled_le_burst : refilled json config raw now ≤ config.burst :=
  min_le_left _ _

theorem refilled_nonneg : 0 ≤ refilled json config raw now := by
  obtain ⟨htokens, hupdated⟩ := load_sane json config raw now
  unfold refilled
  generalize loadPersistedThrottleState json raw config.burst now = loaded at htokens hupdated
  obtain ⟨tokens, updated⟩ := loaded
  refine le_min (zero_le_one.trans config.one_le_burst) (add_nonneg htokens ?_)
  refine mul_nonneg (sub_nonneg.mpr ?_) config.rate_pos.le
  show (if updated ≤ 0 then now else updated) ≤ now
  split
  · exact le_rfl
  · next hpos => exact hupdated.resolve_left hpos

/-- What a document says, read at the time it was written or later. -/
theorem refilled_dumps (hupdated : updated ≤ now) :
    refilled json config (json.dumps (throttleDocument tokens updated)) now =
      if tokens < 0 ∨ config.burst < tokens ∨ updated < 0 then 0
      else if updated = 0 then tokens
      else min config.burst (tokens + (now - updated) * config.rate) := by
  have hburst := zero_le_one.trans config.one_le_burst
  unfold refilled
  rw [load_dumps hupdated]
  by_cases htokens : tokens < 0 ∨ config.burst < tokens
  · rw [if_pos htokens, if_pos (htokens.imp_right .inl)]
    simp [hburst]
  · rw [if_neg htokens]
    obtain ⟨_, hle⟩ := not_or.mp htokens
    rcases lt_trichotomy updated 0 with hneg | rfl | hpos
    · rw [if_pos hneg, if_pos (.inr (.inr hneg))]
      simp [hburst]
    · rw [if_neg (lt_irrefl _), if_neg (by simpa using htokens), if_pos rfl]
      simpa using hle
    · rw [if_neg hpos.not_gt, if_neg (by simpa [hpos.le, not_lt] using htokens),
        if_neg hpos.ne']
      simp [hpos.not_ge]

/-- A document that has just been written. -/
theorem refilled_fresh (htokens : 0 ≤ tokens) :
    refilled json config (json.dumps (throttleDocument tokens now)) now ≤ tokens := by
  rw [refilled_dumps le_rfl]
  split
  · exact htokens
  · split
    · exact le_rfl
    · rw [sub_self, zero_mul, add_zero]
      exact min_le_right _ _

/-- It gains at most what flows in. -/
theorem refilled_flow (hupdated : updated ≤ now) {d : ℚ} (hd : 0 ≤ d) :
    refilled json config (json.dumps (throttleDocument tokens updated)) (now + d) ≤
      refilled json config (json.dumps (throttleDocument tokens updated)) now +
        config.rate * d := by
  have hflow := mul_nonneg config.rate_pos.le hd
  rw [refilled_dumps hupdated, refilled_dumps (hupdated.trans (le_add_of_nonneg_right hd))]
  split
  · linarith
  · split
    · linarith
    · have hsplit : tokens + (now + d - updated) * config.rate =
          tokens + (now - updated) * config.rate + config.rate * d := by ring
      rw [hsplit, ← min_add_add_right]
      exact min_le_min_right _ (by linarith)

/-! ## Who is where -/

namespace Phase

def holdsLock : Phase → Bool
  | .locked | .read _ | .computed _ | .truncated _ | .dumped .. => true
  | _ => false

/-- What the process is going to write and has not. -/
def writing : Phase → Option Settled
  | .computed v | .truncated v | .dumped v _ | .unlocked v _ => some v
  | _ => none

/-- The file has been emptied for it. -/
def emptied : Phase → Bool
  | .truncated _ | .dumped .. | .unlocked .. => true
  | _ => false

/-- What is in the buffer of its file object. -/
def buffer? : Phase → Option (List Char)
  | .dumped _ buffer | .unlocked _ buffer => some buffer
  | _ => none

end Phase

/-- One process at a time is between its look at the file and the flush of
what it made of it. `content` is the file as it is once that is done. -/
structure Exclusive (json : JsonText) (s : ThrottleState) (content : List Char) : Prop where
  lock : ∀ p, (s.phase p).holdsLock = true → s.lock = some p
  reading : ∀ p raw, s.phase p = .read raw → raw = s.file ∧ ∀ q, (s.phase q).writing = none
  alone : ∀ p q v w, (s.phase p).writing = some v → (s.phase q).writing = some w → p = q
  emptied : ∀ p, (s.phase p).emptied = true → s.file = []
  buffered : ∀ p v buffer, (s.phase p).writing = some v → (s.phase p).buffer? = some buffer →
    buffer = v.text json
  written : ∀ p v, (s.phase p).writing = some v → content = v.text json
  stored : (∀ p, (s.phase p).writing = none) → s.file = content

section Exclusion

variable {content : List Char} {phase : Phase} {v : Settled}

theorem goto_phase : (s.goto p phase).phase q = if q = p then phase else s.phase q :=
  Function.update_apply _ _ _ _

theorem Phase.writing_of_emptied (h : phase.emptied = true) : ∃ v, phase.writing = some v := by
  cases phase <;> simp_all [Phase.emptied, Phase.writing]

/-- A process that neither was nor is at the file moves on; it may take the
lock or drop it. -/
theorem Exclusive.pass (h : Exclusive json s content) (lock : Option Nat)
    (hbefore : (s.phase p).writing = none) (hafter : phase.writing = none)
    (hread : ∀ raw, phase ≠ .read raw) (hown : phase.holdsLock = true → lock = some p)
    (hother : ∀ q, q ≠ p → (s.phase q).holdsLock = true → lock = some q) :
    Exclusive json ({ s with lock }.goto p phase) content := by
  have hsame : ∀ q, (({ s with lock }.goto p phase).phase q).writing = (s.phase q).writing := by
    intro q
    rw [goto_phase]
    split
    · next hqp => rw [hqp, hbefore, hafter]
    · rfl
  have hphase : ∀ q w, (s.phase q).writing = some w →
      ({ s with lock }.goto p phase).phase q = s.phase q := by
    intro q w hw
    rw [goto_phase, if_neg]
    rintro rfl
    rw [hbefore] at hw
    cases hw
  refine ⟨fun q hq => ?_, fun q raw hq => ?_, fun q r v w hv hw => ?_, fun q hq => ?_,
    fun q v buffer hv hbuffer => ?_, fun q v hv => ?_, fun hnone => ?_⟩
  · rw [goto_phase] at hq
    split at hq
    · next hqp => exact hqp ▸ hown hq
    · next hqp => exact hother q hqp hq
  · rw [goto_phase] at hq
    split at hq
    · exact absurd hq (hread raw)
    · obtain ⟨hraw, hnone⟩ := h.reading q raw hq
      exact ⟨hraw, fun r => (hsame r).trans (hnone r)⟩
  · exact h.alone q r v w ((hsame q).symm.trans hv) ((hsame r).symm.trans hw)
  · obtain ⟨w, hw⟩ := Phase.writing_of_emptied hq
    rw [hphase q w ((hsame q).symm.trans hw)] at hq
    exact h.emptied q hq
  · have hv' := (hsame q).symm.trans hv
    rw [hphase q v hv'] at hbuffer
    exact h.buffered q v buffer hv' hbuffer
  · exact h.written q v ((hsame q).symm.trans hv)
  · exact h.stored fun q => (hsame q).symm.trans (hnone q)

/-- It reads the file when nothing is about to be written. -/
theorem Exclusive.read (h : Exclusive json s content) (hp : s.phase p = .locked)
    (hnone : ∀ q, (s.phase q).writing = none) :
    Exclusive json (s.goto p (.read s.file)) content := by
  have hnone' : ∀ q, ((s.goto p (.read s.file)).phase q).writing = none := by
    intro q
    rw [goto_phase]
    split
    · rfl
    · exact hnone q
  have hno : ∀ {q v} {P : Prop}, ((s.goto p (.read s.file)).phase q).writing = some v → P := by
    intro q v P hv
    rw [hnone' q] at hv
    cases hv
  refine ⟨fun q hq => ?_, fun q raw hq => ?_, fun q r v w hv _ => hno hv, fun q hq => ?_,
    fun q v buffer hv _ => hno hv, fun q v hv => hno hv, fun _ => h.stored hnone⟩
  · rw [goto_phase] at hq
    split at hq
    · next hqp => exact h.lock q (by rw [hqp, hp]; rfl)
    · exact h.lock q hq
  · refine ⟨?_, hnone'⟩
    rw [goto_phase] at hq
    split at hq
    · exact (Phase.read.inj hq).symm
    · exact (h.reading q raw hq).1
  · obtain ⟨v, hv⟩ := Phase.writing_of_emptied hq
    exact hno hv

/-- Whoever has read is the next to write. -/
theorem Exclusive.compute (h : Exclusive json s content) (hp : s.phase p = .read raw)
    (acquisitions : List Acquisition) (v : Settled) :
    Exclusive json ({ s with acquisitions }.goto p (.computed v)) (v.text json) := by
  obtain ⟨hraw, hnone⟩ := h.reading p raw hp
  have hlock := h.lock p (by rw [hp]; rfl)
  have hself : ∀ q w, (({ s with acquisitions }.goto p (.computed v)).phase q).writing = some w →
      q = p ∧ w = v := by
    intro q w hw
    rw [goto_phase] at hw
    split at hw
    · next hqp => exact ⟨hqp, (Option.some.inj hw).symm⟩
    · rw [show ThrottleState.phase { s with acquisitions } q = s.phase q from rfl, hnone q] at hw
      cases hw
  refine ⟨fun q hq => ?_, fun q raw' hq => ?_, fun q r w w' hw hw' => ?_, fun q hq => ?_,
    fun q w buffer hw hbuffer => ?_, fun q w hw => ?_, fun hnone' => ?_⟩
  · rw [goto_phase] at hq
    split at hq
    · next hqp => exact hqp ▸ hlock
    · exact h.lock q hq
  · rw [goto_phase] at hq
    split at hq
    · cases hq
    · next hqp =>
        -- Only the holder of the lock can have read.
        have hlock' := h.lock q (by rw [show s.phase q = .read raw' from hq]; rfl)
        exact absurd (Option.some.inj (hlock'.symm.trans hlock)) hqp
  · exact (hself q w hw).1.trans (hself r w' hw').1.symm
  · obtain ⟨w, hw⟩ := Phase.writing_of_emptied hq
    rw [(hself q w hw).1, goto_phase, if_pos rfl] at hq
    cases hq
  · rw [(hself q w hw).1, goto_phase, if_pos rfl] at hbuffer
    cases hbuffer
  · rw [(hself q w hw).2]
  · have hpnone := hnone' p
    rw [goto_phase, if_pos rfl] at hpnone
    cases hpnone

/-- While one process is about to write, no other is, and none has read. -/
theorem Exclusive.only (h : Exclusive json s content) (hp : (s.phase p).writing = some v) :
    (∀ q, q ≠ p → (s.phase q).writing = none) ∧ ∀ q raw, s.phase q ≠ .read raw := by
  refine ⟨fun q hqp => ?_, fun q raw hq => ?_⟩
  · cases hq : (s.phase q).writing with
    | none => rfl
    | some w => exact absurd (h.alone q p w v hq hp) hqp
  · have hnone := (h.reading q raw hq).2 p
    rw [hp] at hnone
    cases hnone

/-- The writer goes on with what it has. -/
theorem Exclusive.advance (h : Exclusive json s content) (file : List Char) (lock : Option Nat)
    (hbefore : (s.phase p).writing = some v) (hafter : phase.writing = some v)
    (hfile : phase.emptied = true → file = [])
    (hbuffer : ∀ buffer, phase.buffer? = some buffer → buffer = v.text json)
    (hown : phase.holdsLock = true → lock = some p)
    (hother : ∀ q, q ≠ p → (s.phase q).holdsLock = true → lock = some q) :
    Exclusive json ({ s with file, lock }.goto p phase) content := by
  obtain ⟨hnone, hread⟩ := h.only hbefore
  have hself : ∀ q w, (({ s with file, lock }.goto p phase).phase q).writing = some w →
      q = p ∧ w = v := by
    intro q w hw
    rw [goto_phase] at hw
    split at hw
    · next hqp => exact ⟨hqp, Option.some.inj (hw.symm.trans hafter)⟩
    · next hqp =>
        have hnone' := hnone q hqp
        rw [show s.phase q = ThrottleState.phase { s with file, lock } q from rfl, hw] at hnone'
        cases hnone'
  refine ⟨fun q hq => ?_, fun q raw hq => ?_, fun q r w w' hw hw' => ?_, fun q hq => ?_,
    fun q w buffer hw hbuffer' => ?_, fun q w hw => ?_, fun hnone' => ?_⟩
  · rw [goto_phase] at hq
    split at hq
    · next hqp => exact hqp ▸ hown hq
    · next hqp => exact hother q hqp hq
  · rw [goto_phase] at hq
    split at hq
    · rw [hq] at hafter
      cases hafter
    · exact absurd hq (hread q raw)
  · exact (hself q w hw).1.trans (hself r w' hw').1.symm
  · obtain ⟨w, hw⟩ := Phase.writing_of_emptied hq
    rw [(hself q w hw).1, goto_phase, if_pos rfl] at hq
    exact hfile hq
  · obtain ⟨rfl, rfl⟩ := hself q w hw
    rw [goto_phase, if_pos rfl] at hbuffer'
    exact hbuffer buffer hbuffer'
  · rw [(hself q w hw).2]
    exact h.written p v hbefore
  · have hpnone := hnone' p
    rw [goto_phase, if_pos rfl, hafter] at hpnone
    cases hpnone

/-- The flush puts in the file what the writer had. -/
theorem Exclusive.flush (h : Exclusive json s content) {buffer : List Char}
    (hp : s.phase p = .unlocked v buffer) :
    Exclusive json ((s.flush buffer).goto p (.closed v)) content := by
  have hwriting : (s.phase p).writing = some v := by
    rw [hp]
    rfl
  obtain ⟨hnone, hread⟩ := h.only hwriting
  have hempty := h.emptied p (by rw [hp]; rfl)
  have hfile : (s.flush buffer).file = content := by
    rw [h.written p v hwriting, ← h.buffered p v buffer hwriting (by rw [hp]; rfl)]
    show buffer ++ s.file.drop buffer.length = buffer
    rw [hempty, List.drop_nil, List.append_nil]
  have hnone' : ∀ q, (((s.flush buffer).goto p (.closed v)).phase q).writing = none := by
    intro q
    rw [goto_phase]
    split
    · rfl
    · next hqp => exact hnone q hqp
  have hno : ∀ {q w} {P : Prop},
      (((s.flush buffer).goto p (.closed v)).phase q).writing = some w → P := by
    intro q w P hw
    rw [hnone' q] at hw
    cases hw
  refine ⟨fun q hq => ?_, fun q raw hq => ?_, fun q r v w hv _ => hno hv, fun q hq => ?_,
    fun q v buffer hv _ => hno hv, fun q v hv => hno hv, fun _ => hfile⟩
  · rw [goto_phase] at hq
    split at hq
    · cases hq
    · exact h.lock q hq
  · rw [goto_phase] at hq
    split at hq
    · cases hq
    · exact absurd hq (hread q raw)
  · obtain ⟨w, hw⟩ := Phase.writing_of_emptied hq
    exact hno hw

end Exclusion

/-! ## The bucket behind the file -/

/-- The level of the bucket is at least what the content says, now and from
now on. A full one needs no reason; anything less is a document that was
written. -/
def Covers (json : JsonText) (config : ThrottleConfig) (content : List Char) (now level : ℚ) :
    Prop :=
  level = config.burst ∨ ∃ tokens updated,
    content = json.dumps (throttleDocument tokens updated) ∧ updated ≤ now ∧
      refilled json config content now ≤ level

/-- A throttle state and the bucket its processes take from. -/
structure Matches (json : JsonText) (config : ThrottleConfig) (s : ThrottleState)
    (bucket : TokenBucket ℚ) : Prop where
  now : bucket.now = s.now
  taken : bucket.taken = s.acquisitions.map Acquisition.granted
  content : ∃ content, Exclusive json s content ∧ Covers json config content s.now bucket.level

/-- The lock is dropped and the buffer still to be flushed. -/
def Phase.unflushed : Phase → Bool
  | .unlocked .. => true
  | _ => false

/-- A process about to read finds the file as it was left: no other one has
still to flush. -/
def ReadsFlushed (s : ThrottleState) : ThrottleEvent → Prop
  | .act p => s.phase p = .locked → ∀ q, (s.phase q).unflushed = false
  | _ => True

theorem Exclusive.nobody_writes {content : List Char} (h : Exclusive json s content)
    (hp : s.phase p = .locked) (hflushed : ∀ q, (s.phase q).unflushed = false) (q : Nat) :
    (s.phase q).writing = none := by
  have hlock := h.lock p (by rw [hp]; rfl)
  -- The other phases of a writer are under the lock, which is `p`'s.
  have hself : (s.phase q).holdsLock = true → q = p := fun hq =>
    Option.some.inj ((h.lock q hq).symm.trans hlock)
  cases hphase : s.phase q with
  | unlocked v buffer =>
      have hq := hflushed q
      rw [hphase] at hq
      cases hq
  | computed v => cases hp.symm.trans (hself (by rw [hphase]; rfl) ▸ hphase)
  | truncated v => cases hp.symm.trans (hself (by rw [hphase]; rfl) ▸ hphase)
  | dumped v buffer => cases hp.symm.trans (hself (by rw [hphase]; rfl) ▸ hphase)
  | _ => rfl

theorem Covers.pass {content : List Char} {level d : ℚ}
    (h : Covers json config content now level) (hd : 0 ≤ d) :
    Covers json config content (now + d) (min config.burst (level + config.rate * d)) := by
  have hflow := mul_nonneg config.rate_pos.le hd
  rcases h with rfl | ⟨tokens, updated, rfl, hupdated, hle⟩
  · exact .inl (min_eq_left (by linarith))
  · refine .inr ⟨tokens, updated, rfl, by linarith, le_min refilled_le_burst ?_⟩
    exact (refilled_flow hupdated hd).trans (by linarith)

theorem Covers.refilled_le {content : List Char} {level : ℚ}
    (h : Covers json config content now level) : refilled json config content now ≤ level := by
  rcases h with rfl | ⟨tokens, updated, _, _, hle⟩
  · exact refilled_le_burst
  · exact hle

theorem covers_fresh (htokens : 0 ≤ tokens) {level : ℚ} (hle : tokens ≤ level) {wait : ℚ}
    {ticket : Nat} : Covers json config (Settled.text json ⟨tokens, now, wait, ticket⟩) now level :=
  .inr ⟨tokens, now, rfl, le_rfl, (refilled_fresh htokens).trans hle⟩

section Simulation

variable {s' : ThrottleState} {bucket : TokenBucket ℚ}

/-- The bucket follows to `s`, in one step or by standing still. -/
def Follows (json : JsonText) (config : ThrottleConfig) (bucket : TokenBucket ℚ)
    (s : ThrottleState) : Prop :=
  ∃ bucket', (bucket' = bucket ∨ ∃ e, bucket.step config.rate config.burst e = some bucket') ∧
    Matches json config s bucket'

/-- A step that leaves clock, content and tokens alone. -/
theorem Matches.stay (hm : Matches json config s bucket) (hnow : s'.now = s.now)
    (htaken : s'.acquisitions.map Acquisition.granted = s.acquisitions.map Acquisition.granted)
    (hexclusive : ∀ content, Exclusive json s content → Exclusive json s' content) :
    Follows json config bucket s' := by
  obtain ⟨content, hex, hcovers⟩ := hm.content
  exact ⟨bucket, .inl rfl, hm.now.trans hnow.symm, hm.taken.trans htaken.symm, content,
    hexclusive content hex, hnow.symm ▸ hcovers⟩

theorem Matches.tick (hm : Matches json config s bucket) {d : ℚ} (hd : 0 ≤ d) :
    Follows json config bucket { s with now := s.now + d } := by
  obtain ⟨content, hex, hcovers⟩ := hm.content
  refine ⟨_, .inr ⟨.pass d, if_pos hd⟩, ?_, hm.taken, content, ?_, ?_⟩
  · show bucket.now + d = s.now + d
    rw [hm.now]
  · exact ⟨hex.lock, hex.reading, hex.alone, hex.emptied, hex.buffered, hex.written, hex.stored⟩
  · exact hcovers.pass hd

/-- The step at which a token is taken, or not. -/
theorem Matches.compute (hm : Matches json config s bucket) (hp : s.phase p = .read raw) :
    Follows json config bucket (s.compute json config p raw) := by
  obtain ⟨content, hex, hcovers⟩ := hm.content
  have hraw : raw = content := by
    obtain ⟨hfile, hnone⟩ := hex.reading p raw hp
    exact hfile.trans (hex.stored hnone)
  subst hraw
  have hle := hcovers.refilled_le
  unfold ThrottleState.compute
  dsimp only
  split
  · next htoken =>
      refine ⟨_, .inr ⟨.take, if_pos (htoken.trans hle)⟩, hm.now, ?_, _,
        hex.compute hp _ _, covers_fresh (by linarith) (by show _ ≤ bucket.level - 1; linarith)⟩
      show bucket.taken ++ [bucket.now] =
        (s.acquisitions ++ [Acquisition.mk s.now none]).map Acquisition.granted
      rw [hm.taken, hm.now, List.map_append]
      rfl
  · exact ⟨bucket, .inl rfl, hm.now, hm.taken, _, hex.compute hp s.acquisitions _,
      covers_fresh refilled_nonneg hle⟩

/-- A process moves on without being at the file or at the lock. -/
theorem Matches.move (hm : Matches json config s bucket) {phase : Phase}
    (hbefore : (s.phase p).writing = none) (hafter : phase.writing = none)
    (hread : ∀ raw, phase ≠ .read raw) (hlock : phase.holdsLock = false) :
    Follows json config bucket (s.goto p phase) := by
  refine hm.stay rfl rfl fun content hex => ?_
  refine hex.pass s.lock hbefore hafter hread (fun h => ?_) fun q _ hq => hex.lock q hq
  rw [hlock] at h
  cases h

/-- A writer moves on. -/
theorem Matches.write (hm : Matches json config s bucket) {phase : Phase} {v : Settled}
    (file : List Char) (lock : Option Nat) (hbefore : (s.phase p).writing = some v)
    (hafter : phase.writing = some v) (hfile : phase.emptied = true → s.file = [] → file = [])
    (hemptied : phase.emptied = true → (s.phase p).emptied = true ∨ file = [])
    (hbuffer : ∀ buffer, phase.buffer? = some buffer →
      (s.phase p).buffer? = some buffer ∨ buffer = v.text json)
    (hown : phase.holdsLock = true → lock = some p)
    (hother : ∀ q, q ≠ p → (s.phase q).holdsLock = true → s.lock = some q → lock = some q) :
    Follows json config bucket ({ s with file, lock }.goto p phase) := by
  refine hm.stay rfl rfl fun content hex => ?_
  refine hex.advance file lock hbefore hafter (fun h => ?_) (fun buffer h => ?_) hown
    fun q hqp hq => hother q hqp hq (hex.lock q hq)
  · exact (hemptied h).elim (fun hp => hfile h (hex.emptied p hp)) id
  · exact (hbuffer buffer h).elim (hex.buffered p v buffer hbefore) id

/-- Returning says nothing about when the token was taken. -/
theorem granted_returns {ticket : Nat} :
    (s.returns p ticket).acquisitions.map Acquisition.granted =
      s.acquisitions.map Acquisition.granted := by
  refine List.ext_getElem? fun n => ?_
  show ((s.acquisitions.modify ticket _).map Acquisition.granted)[n]? = _
  rw [List.getElem?_map, List.getElem?_map, List.getElem?_modify]
  cases s.acquisitions[n]? with
  | none => rfl
  | some a =>
      simp only [Option.map_some]
      split <;> rfl

theorem Matches.act (hm : Matches json config s bucket) (hflushed : ReadsFlushed s (.act p))
    (hstep : s.act json config p = some s') : Follows json config bucket s' := by
  unfold ThrottleState.act at hstep
  obtain ⟨content, hex, _⟩ := hm.content
  have hlock : (s.phase p).holdsLock = true → ∀ q, q ≠ p → s.lock ≠ some q := by
    intro hp q hqp hq
    exact hqp (Option.some.inj (hq.symm.trans (hex.lock p hp)))
  cases hp : s.phase p with
  | idle =>
      rw [hp] at hstep
      obtain rfl := Option.some.inj hstep
      exact hm.move (by rw [hp]; rfl) rfl (by simp) rfl
  | looping =>
      rw [hp] at hstep
      obtain rfl := Option.some.inj hstep
      exact hm.move (by rw [hp]; rfl) rfl (by simp) rfl
  | opened =>
      rw [hp] at hstep
      simp only [Option.ite_none_right_eq_some, Option.some.injEq] at hstep
      obtain ⟨hfree, rfl⟩ := hstep
      refine hm.stay rfl rfl fun content hex => ?_
      refine hex.pass (some p) (by rw [hp]; rfl) rfl (by simp) (fun _ => rfl) fun q _ hq => ?_
      cases hfree.symm.trans (hex.lock q hq)
  | locked =>
      rw [hp] at hstep
      obtain rfl := Option.some.inj hstep
      refine hm.stay rfl rfl fun content hex => ?_
      exact hex.read hp (hex.nobody_writes hp (hflushed hp))
  | read raw =>
      rw [hp] at hstep
      obtain rfl := Option.some.inj hstep
      exact hm.compute hp
  | computed v =>
      rw [hp] at hstep
      obtain rfl := Option.some.inj hstep
      exact hm.write [] s.lock (by rw [hp]; rfl) rfl (fun _ _ => rfl) (fun _ => .inr rfl)
        (fun _ h => by cases h) (fun _ => hex.lock p (by rw [hp]; rfl)) fun _ _ _ h => h
  | truncated v =>
      rw [hp] at hstep
      obtain rfl := Option.some.inj hstep
      exact hm.write s.file s.lock (by rw [hp]; rfl) rfl (fun _ h => h)
        (fun _ => .inl (by rw [hp]; rfl)) (fun _ h => .inr (Option.some.inj h).symm)
        (fun _ => hex.lock p (by rw [hp]; rfl)) fun _ _ _ h => h
  | dumped v buffer =>
      rw [hp] at hstep
      obtain rfl := Option.some.inj hstep
      exact hm.write s.file none (by rw [hp]; rfl) rfl (fun _ h => h)
        (fun _ => .inl (by rw [hp]; rfl)) (fun _ h => .inl (by rw [hp]; exact h))
        (fun h => by cases h) fun q hqp _ h => absurd h (hlock (by rw [hp]; rfl) q hqp)
  | unlocked v buffer =>
      rw [hp] at hstep
      obtain rfl := Option.some.inj hstep
      exact hm.stay rfl rfl fun content hex => hex.flush hp
  | closed v =>
      rw [hp] at hstep
      dsimp only at hstep
      split at hstep
      · obtain rfl := Option.some.inj hstep
        refine hm.stay rfl granted_returns fun content hex => ?_
        have hidle : Exclusive json ({ s with lock := s.lock }.goto p .idle) content :=
          hex.pass s.lock (by rw [hp]; rfl) rfl (by simp) (fun h => by cases h)
            fun q _ hq => hex.lock q hq
        exact ⟨hidle.lock, hidle.reading, hidle.alone, hidle.emptied, hidle.buffered,
          hidle.written, hidle.stored⟩
      · obtain rfl := Option.some.inj hstep
        exact hm.move (by rw [hp]; rfl) rfl (by simp) rfl
  | pausing =>
      rw [hp] at hstep
      obtain rfl := Option.some.inj hstep
      exact hm.move (by rw [hp]; rfl) rfl (by simp) rfl

theorem Matches.raises (hm : Matches json config s bucket) (hstep : s.raises p = some s') :
    Follows json config bucket s' := by
  unfold ThrottleState.raises at hstep
  split at hstep
  · next hp =>
      obtain rfl := Option.some.inj hstep
      exact hm.move (by rw [hp]; rfl) rfl (by simp) rfl
  · next hp =>
      obtain rfl := Option.some.inj hstep
      exact hm.move (by rw [hp]; rfl) rfl (by simp) rfl
  · next hp =>
      obtain rfl := Option.some.inj hstep
      refine hm.stay rfl rfl fun content hex => ?_
      refine hex.pass none (by rw [hp]; rfl) rfl (by simp) (fun h => by cases h) fun q hqp hq => ?_
      have hmine := hex.lock p (by rw [hp]; rfl)
      exact absurd (Option.some.inj ((hex.lock q hq).symm.trans hmine)) hqp
  · next hp =>
      obtain rfl := Option.some.inj hstep
      exact hm.move (by rw [hp]; rfl) rfl (by simp) rfl
  · cases hstep

theorem Matches.step {e : ThrottleEvent} (hm : Matches json config s bucket)
    (hflushed : ReadsFlushed s e) (hstep : s.step json config e = some s') :
    Follows json config bucket s' := by
  cases e with
  | tick d =>
      simp only [ThrottleState.step, Option.ite_none_right_eq_some, Option.some.injEq] at hstep
      obtain ⟨hd, rfl⟩ := hstep
      exact hm.tick hd
  | act p => exact hm.act hflushed hstep
  | raises p => exact hm.raises hstep

/-- Before the first write the bucket is full, whatever the file says. -/
theorem initial_matches (json : JsonText) (config : ThrottleConfig) (file : List Char) (now : ℚ) :
    Matches json config (.initial file now) ⟨config.burst, now, []⟩ where
  now := rfl
  taken := rfl
  content := by
    refine ⟨file, ⟨fun p hp => ?_, fun p raw hp => ?_, fun p q v w hv => ?_, fun p hp => ?_,
      fun p v buffer hv => ?_, fun p v hv => ?_, fun _ => rfl⟩, .inl rfl⟩
    · cases hp
    · cases hp
    · cases hv
    · cases hp
    · cases hv
    · cases hv

end Simulation

/-! ## The bound -/

/-- The calls that took their token from `a` to `b`. -/
def ThrottleState.grantedIn (s : ThrottleState) (a b : ℚ) : Nat :=
  s.acquisitions.countP fun x => decide (a ≤ x.granted ∧ x.granted ≤ b)

/-- The calls that returned from `a` to `b`. -/
def ThrottleState.returnedIn (s : ThrottleState) (a b : ℚ) : Nat :=
  s.acquisitions.countP fun x => x.returned.any fun r => decide (a ≤ r ∧ r ≤ b)

/-- No call returned more than `lag` after it took its token. -/
def ThrottleState.Prompt (s : ThrottleState) (lag : ℚ) : Prop :=
  ∀ x ∈ s.acquisitions, ∀ r, x.returned = some r → r ≤ x.granted + lag

/-- Tokens are taken before calls return, and both in the past. -/
structure Acquisition.Past (now : ℚ) (x : Acquisition) : Prop where
  granted : x.granted ≤ now
  returned : ∀ r, x.returned = some r → x.granted ≤ r ∧ r ≤ now

/-- What a step can do to the acquisitions. -/
inductive Acquires (s s' : ThrottleState) : Prop
  | none : s'.acquisitions = s.acquisitions → Acquires s s'
  | grant : s'.acquisitions = s.acquisitions ++ [⟨s'.now, .none⟩] → Acquires s s'
  | done (ticket : Nat) : s'.acquisitions = s.acquisitions.modify ticket
      (fun a => { a with returned := some s'.now }) → Acquires s s'

/-- What a step does to the clock, the acquisitions, and the processes it is
not a step of. -/
structure Effect (s : ThrottleState) (e : ThrottleEvent) (s' : ThrottleState) : Prop where
  clock : s.now ≤ s'.now
  acquires : Acquires s s'
  others : ∀ q, e ≠ .act q → e ≠ .raises q → s'.phase q = s.phase q

theorem step_effect {s' : ThrottleState} {e : ThrottleEvent}
    (hstep : s.step json config e = some s') : Effect s e s' := by
  cases e with
  | tick d =>
      simp only [ThrottleState.step, Option.ite_none_right_eq_some, Option.some.injEq] at hstep
      obtain ⟨hd, rfl⟩ := hstep
      exact ⟨le_add_of_nonneg_right hd, .none rfl, fun _ _ _ => rfl⟩
  | raises p =>
      have hother : ∀ {q phase}, ThrottleEvent.raises p ≠ .raises q →
          Function.update s.phase p phase q = s.phase q := by
        intro q phase h
        refine Function.update_of_ne ?_ _ _
        rintro rfl
        exact h rfl
      have hraises : s.raises p = some s' := hstep
      unfold ThrottleState.raises at hraises
      split at hraises
      · obtain rfl := Option.some.inj hraises
        exact ⟨le_rfl, .none rfl, fun _ _ h => hother h⟩
      · obtain rfl := Option.some.inj hraises
        exact ⟨le_rfl, .none rfl, fun _ _ h => hother h⟩
      · obtain rfl := Option.some.inj hraises
        exact ⟨le_rfl, .none rfl, fun _ _ h => hother h⟩
      · obtain rfl := Option.some.inj hraises
        exact ⟨le_rfl, .none rfl, fun _ _ h => hother h⟩
      · cases hraises
  | act p =>
      have hother : ∀ {q phase}, ThrottleEvent.act p ≠ .act q →
          Function.update s.phase p phase q = s.phase q := by
        intro q phase h
        refine Function.update_of_ne ?_ _ _
        rintro rfl
        exact h rfl
      have hact : s.act json config p = some s' := hstep
      unfold ThrottleState.act at hact
      cases hp : s.phase p with
      | opened =>
          rw [hp] at hact
          simp only [Option.ite_none_right_eq_some, Option.some.injEq] at hact
          obtain ⟨_, rfl⟩ := hact
          exact ⟨le_rfl, .none rfl, fun _ h _ => hother h⟩
      | read raw =>
          rw [hp] at hact
          obtain rfl := Option.some.inj hact
          unfold ThrottleState.compute
          dsimp only
          split
          · exact ⟨le_rfl, .grant rfl, fun _ h _ => hother h⟩
          · exact ⟨le_rfl, .none rfl, fun _ h _ => hother h⟩
      | closed v =>
          rw [hp] at hact
          dsimp only at hact
          split at hact
          · obtain rfl := Option.some.inj hact
            exact ⟨le_rfl, .done v.ticket rfl, fun _ h _ => hother h⟩
          · obtain rfl := Option.some.inj hact
            exact ⟨le_rfl, .none rfl, fun _ h _ => hother h⟩
      | _ =>
          rw [hp] at hact
          obtain rfl := Option.some.inj hact
          exact ⟨le_rfl, .none rfl, fun _ h _ => hother h⟩

theorem step_past {s' : ThrottleState} {e : ThrottleEvent}
    (hstep : s.step json config e = some s') (h : ∀ x ∈ s.acquisitions, x.Past s.now) :
    ∀ x ∈ s'.acquisitions, x.Past s'.now := by
  obtain ⟨hnow, hchange, _⟩ := step_effect hstep
  have hlater : ∀ x ∈ s.acquisitions, x.Past s'.now := by
    intro x hx
    obtain ⟨hgranted, hreturned⟩ := h x hx
    exact ⟨hgranted.trans hnow, fun r hr => ⟨(hreturned r hr).1, (hreturned r hr).2.trans hnow⟩⟩
  intro x hx
  cases hchange with
  | none heq => exact hlater x (heq ▸ hx)
  | grant heq =>
      rw [heq] at hx
      rcases List.mem_append.mp hx with hx | hx
      · exact hlater x hx
      · obtain rfl := List.mem_singleton.mp hx
        exact ⟨le_rfl, fun r hr => by cases hr⟩
  | done ticket heq =>
      rw [heq] at hx
      obtain ⟨n, hn⟩ := List.getElem?_of_mem hx
      rw [List.getElem?_modify] at hn
      obtain ⟨y, hy, hmodified⟩ := Option.map_eq_some_iff.mp hn
      have hpast := hlater y (List.mem_of_getElem? hy)
      split at hmodified
      · obtain rfl := hmodified
        refine ⟨hpast.granted, fun r hr => ?_⟩
        obtain rfl := Option.some.inj hr
        exact ⟨hpast.granted, le_rfl⟩
      · exact hmodified ▸ hpast

/-- The calls that return in an interval took their tokens in it, or at most
`lag` before. -/
theorem returnedIn_le {lag : ℚ} (hpast : ∀ x ∈ s.acquisitions, x.Past s.now)
    (hprompt : s.Prompt lag) (a b : ℚ) : s.returnedIn a b ≤ s.grantedIn (a - lag) b := by
  refine List.countP_mono_left fun x hx h => ?_
  obtain ⟨r, hr, hin⟩ := (Option.any_eq_true _ _).mp h
  have hgranted := (hpast x hx).returned r hr
  have hlag := hprompt x hx r hr
  simp only [decide_eq_true_eq] at hin ⊢
  constructor
  · linarith
  · linarith

section Runs

variable {file : List Char} {start : ℚ} {tr : List (Transition ThrottleState ThrottleEvent)}

/-- A run of the throttle is a run of the bucket. -/
theorem run_matches (hrun : Run (ThrottleState.step json config) (.initial file start) tr s)
    (hflushed : ∀ x ∈ tr, ReadsFlushed x.pre x.event) :
    ∃ bucket, Reachable (TokenBucket.step config.rate config.burst) ⟨config.burst, start, []⟩
      bucket ∧ Matches json config s bucket :=
  hrun.refines (Matches json config) ReadsFlushed (initial_matches json config file start)
    (fun _ _ _ _ hm hc hstep => hm.step hc hstep) hflushed

theorem run_grantedIn (hrun : Run (ThrottleState.step json config) (.initial file start) tr s)
    (hflushed : ∀ x ∈ tr, ReadsFlushed x.pre x.event) {a b : ℚ} (hab : a ≤ b) :
    (s.grantedIn a b : ℚ) ≤ config.burst + config.rate * (b - a) := by
  obtain ⟨bucket, hreach, hm⟩ := run_matches hrun hflushed
  have hfresh : (⟨config.burst, start, []⟩ : TokenBucket ℚ).Bounded config.rate config.burst :=
    TokenBucket.bounded_fresh config.rate_pos (zero_le_one.trans config.one_le_burst) le_rfl
  have hbound := (TokenBucket.reachable_bounded config.rate_pos hfresh hreach).within a b hab
  have hcount : bucket.takenIn a b = s.grantedIn a b := by
    unfold TokenBucket.takenIn ThrottleState.grantedIn
    rw [hm.taken, List.countP_map]
    rfl
  rwa [hcount] at hbound

/-- In every run in which no process reads the file over a pending flush: at
most `burst + rate * (b - a)` tokens are taken from `a` to `b`; if no call
returns more than `lag` after it took its token, at most what flows in
during `lag` more of them return from `a` to `b`; and no process finds the
file emptied by another. -/
theorem throttle_bound (json : JsonText) (config : ThrottleConfig)
    (hrun : Run (ThrottleState.step json config) (.initial file start) tr s)
    (hflushed : ∀ x ∈ tr, ReadsFlushed x.pre x.event) :
    (∀ a b, a ≤ b → (s.grantedIn a b : ℚ) ≤ config.burst + config.rate * (b - a)) ∧
      (∀ lag, 0 ≤ lag → s.Prompt lag → ∀ a b, a ≤ b →
        (s.returnedIn a b : ℚ) ≤ config.burst + config.rate * (b - a + lag)) ∧
      ∀ x ∈ tr, ∀ p, x.event = .act p → x.pre.phase p = .locked →
        ∀ q, (x.pre.phase q).emptied = false := by
  refine ⟨fun a b hab => run_grantedIn hrun hflushed hab, fun lag hlag hprompt a b hab => ?_,
    fun x hx p hevent hp q => ?_⟩
  · have hpast : ∀ x ∈ s.acquisitions, x.Past s.now :=
      hrun.invariant (fun s => ∀ x ∈ s.acquisitions, x.Past s.now)
        (fun _ hx => absurd hx List.not_mem_nil) fun _ _ _ h hstep => step_past hstep h
    have hgranted := run_grantedIn hrun hflushed (show a - lag ≤ b by linarith)
    have hcount : (s.returnedIn a b : ℚ) ≤ s.grantedIn (a - lag) b :=
      Nat.cast_le.mpr (returnedIn_le hpast hprompt a b)
    rw [show b - a + lag = b - (a - lag) by ring]
    exact hcount.trans hgranted
  · -- The run up to `x` has the state `x` starts from.
    obtain ⟨hist, rest, rfl⟩ := List.append_of_mem hx
    obtain ⟨_, _, hm⟩ := run_matches (hrun.cut rfl).1
      fun y hy => hflushed y (List.mem_append_left _ hy)
    obtain ⟨content, hex, _⟩ := hm.content
    have hnobody := hex.nobody_writes hp (by
      have hcond := hflushed x hx
      rw [hevent] at hcond
      exact hcond hp) q
    by_contra hemptied
    obtain ⟨v, hv⟩ := Phase.writing_of_emptied (by simpa using hemptied)
    rw [hnobody] at hv
    cases hv

end Runs

/-! ## Two processes -/

/-- A decimal for a whole number, a fraction for any other. -/
def unsigned (q : ℚ) : List Char :=
  Nat.toDigits 10 q.num.natAbs ++
    if q.den = 1 then ['.', '0'] else '/' :: Nat.toDigits 10 q.den

def decimal (q : ℚ) : List Char := if q < 0 then '-' :: unsigned q else unsigned q

def readDigits (text : List Char) : Nat × List Char :=
  (Nat.ofDigitChars 10 (text.takeWhile Char.isDigit) 0, text.dropWhile Char.isDigit)

def readUnsigned (text : List Char) : Option (ℚ × List Char) :=
  let (n, rest) := readDigits text
  match rest with
  | '.' :: '0' :: rest => some (n, rest)
  | '/' :: rest => some (n / (readDigits rest).1, (readDigits rest).2)
  | _ => none

def readDecimal : List Char → Option (ℚ × List Char)
  | '-' :: text => (readUnsigned text).map fun (q, rest) => (-q, rest)
  | text => readUnsigned text

theorem readDigits_toDigits (n : Nat) {rest : List Char}
    (hrest : ∀ c ∈ rest.head?, c.isDigit = false) :
    readDigits (Nat.toDigits 10 n ++ rest) = (n, rest) := by
  have hdigits : ∀ c ∈ Nat.toDigits 10 n, c.isDigit = true :=
    fun c hc => Nat.isDigit_of_mem_toDigits (by decide) (by decide) hc
  have htake : rest.takeWhile Char.isDigit = [] := by
    cases rest with
    | nil => rfl
    | cons c rest => simp [hrest c rfl]
  have hdrop : rest.dropWhile Char.isDigit = rest := by
    cases rest with
    | nil => rfl
    | cons c rest => simp [hrest c rfl]
  unfold readDigits
  rw [List.takeWhile_append_of_pos hdigits, List.dropWhile_append_of_pos hdigits, htake, hdrop,
    List.append_nil, Nat.ofDigitChars_toDigits (by decide) (by decide)]

theorem readUnsigned_unsigned (q : ℚ) {rest : List Char}
    (hrest : ∀ c ∈ rest.head?, c.isDigit = false) :
    readUnsigned (unsigned q ++ rest) = some ((q.num.natAbs : ℚ) / q.den, rest) := by
  unfold readUnsigned unsigned
  rw [List.append_assoc]
  by_cases hden : q.den = 1
  · rw [if_pos hden, readDigits_toDigits _ (by simp)]
    simp [hden]
  · rw [if_neg hden, readDigits_toDigits _ (by simp)]
    simp [readDigits_toDigits _ hrest]

theorem natAbs_div_den (q : ℚ) : (q.num.natAbs : ℚ) / q.den = |q| := by
  rw [Rat.abs_def, Rat.divInt_eq_div]
  push_cast
  simp

theorem readDecimal_decimal (q : ℚ) {rest : List Char}
    (hrest : ∀ c ∈ rest.head?, c.isDigit = false) :
    readDecimal (decimal q ++ rest) = some (q, rest) := by
  have hread := readUnsigned_unsigned q hrest
  rw [natAbs_div_den] at hread
  unfold decimal
  split
  · next hneg =>
      rw [List.cons_append]
      show (readUnsigned (unsigned q ++ rest)).map _ = _
      rw [hread, abs_of_neg hneg]
      simp
  · next hneg =>
      -- What starts with a digit does not start with a sign.
      have hhead : ∀ text, unsigned q ++ rest ≠ '-' :: text := by
        intro text heq
        unfold unsigned at heq
        cases hdigits : Nat.toDigits 10 q.num.natAbs with
        | nil => exact absurd hdigits Nat.toDigits_ne_nil
        | cons c digits =>
            rw [hdigits, List.cons_append, List.cons_append, List.cons_eq_cons] at heq
            have hdigit := Nat.isDigit_of_mem_toDigits (by decide) (by decide)
              (hdigits ▸ List.mem_cons_self)
            rw [heq.1] at hdigit
            cases hdigit
      unfold readDecimal
      split
      · next heq => exact absurd heq (hhead _)
      · rw [hread, abs_of_nonneg (not_lt.mp hneg)]

/-- The text of the state file. -/
def throttleText (tokens updated : ℚ) : List Char :=
  "\x7b\"tokens\": ".toList ++ (decimal tokens ++
    (", \"updated\": ".toList ++ (decimal updated ++ "\x7d".toList)))

/-- The text after `start`. -/
def after (start text : List Char) : Option (List Char) :=
  if start.isPrefixOf text then some (text.drop start.length) else none

theorem after_append (start rest : List Char) : after start (start ++ rest) = some rest := by
  unfold after
  rw [if_pos (List.isPrefixOf_iff_prefix.mpr (List.prefix_append _ _)), List.drop_left]

def readThrottleText (text : List Char) : Option Json :=
  (after "\x7b\"tokens\": ".toList text).bind fun text =>
    (readDecimal text).bind fun tokens =>
      (after ", \"updated\": ".toList tokens.2).bind fun text =>
        (readDecimal text).bind fun updated =>
          if updated.2 = "\x7d".toList then some (throttleDocument tokens.1 updated.1) else none

theorem readThrottleText_throttleText (tokens updated : ℚ) :
    readThrottleText (throttleText tokens updated) = some (throttleDocument tokens updated) := by
  unfold readThrottleText throttleText
  rw [after_append, Option.bind_some, readDecimal_decimal tokens (by simp), Option.bind_some,
    after_append, Option.bind_some, readDecimal_decimal updated (by simp), Option.bind_some,
    if_pos rfl]

theorem throttleText_ne_nil (tokens updated : ℚ) : throttleText tokens updated ≠ [] := by
  unfold throttleText
  rw [show "\x7b\"tokens\": ".toList = '\x7b' :: "\"tokens\": ".toList from rfl]
  exact List.cons_ne_nil _ _

/-- `json.dumps` of a document of the throttle. -/
def dumpThrottle (document : Json) : List Char :=
  match loadPersistedThrottleNumber (document.get? "tokens"),
    loadPersistedThrottleNumber (document.get? "updated") with
  | some tokens, some updated => throttleText tokens updated
  | _, _ => []

theorem dumpThrottle_document (tokens updated : ℚ) :
    dumpThrottle (throttleDocument tokens updated) = throttleText tokens updated := by
  simp [dumpThrottle, throttleDocument, Json.get?, Dict.get?, loadPersistedThrottleNumber]

/-- `json` on the documents of the throttle. -/
def throttleJson : JsonText where
  dumps := dumpThrottle
  loads := readThrottleText
  loads_dumps := fun tokens updated => by
    rw [dumpThrottle_document, readThrottleText_throttleText]
  dumps_ne_nil := fun tokens updated => by
    rw [dumpThrottle_document]
    exact throttleText_ne_nil tokens updated

example : String.ofList (throttleText 0 (7 / 2)) = "\x7b\"tokens\": 0.0, \"updated\": 7/2\x7d" := by
  decide +kernel

/-- One token a second, and no more than one kept. -/
def oneASecond : ThrottleConfig :=
  { rate := 1, burst := 1, rate_pos := one_pos, one_le_burst := le_rfl }

/-- Process 0 drops the lock and is held up before the flush; process 1 goes
through; process 0 goes on. -/
def heldUp : List ThrottleEvent :=
  List.replicate 8 (.act 0) ++ List.replicate 10 (.act 1) ++ List.replicate 2 (.act 0)

/-- Both get the one token of the bucket at the same time. -/
theorem emptied_file_is_full_bucket :
    ¬ ∀ (json : JsonText) (config : ThrottleConfig) file start tr s,
      Run (ThrottleState.step json config) (.initial file start) tr s →
      ∀ a b, a ≤ b → (s.returnedIn a b : ℚ) ≤ config.burst + config.rate * (b - a) := by
  intro hclaim
  have hevents : (trace (ThrottleState.step throttleJson oneASecond) (.initial [] 1) heldUp).any
      (fun y => decide (y.2.returnedIn 1 1 = 2)) = true := by
    decide +kernel
  obtain ⟨⟨tr, s⟩, htrace, hprops⟩ := (Option.any_eq_true _ _).mp hevents
  simp only [decide_eq_true_eq] at hprops
  have hbound := hclaim throttleJson oneASecond [] 1 tr s (trace_run htrace) 1 1 le_rfl
  rw [hprops] at hbound
  norm_num [oneASecond] at hbound

/-- A process that does nothing stays outside. -/
theorem run_idle {file : List Char} {start : ℚ}
    {tr : List (Transition ThrottleState ThrottleEvent)}
    (hrun : Run (ThrottleState.step json config) (.initial file start) tr s)
    (hq : ∀ x ∈ tr, x.event ≠ .act q ∧ x.event ≠ .raises q) :
    ∀ x ∈ tr, x.pre.phase q = .idle := by
  refine (hrun.invariant_of
    (fun tr s => s.phase q = .idle ∧ ∀ x ∈ tr, x.pre.phase q = .idle)
    (fun _ e => e ≠ .act q ∧ e ≠ .raises q) ⟨rfl, fun _ hx => absurd hx List.not_mem_nil⟩ ?_
    hq).2
  rintro tr t e u ⟨hidle, hbefore⟩ ⟨hact, hraises⟩ hstep
  refine ⟨((step_effect hstep).others q hact hraises).trans hidle, fun x hx => ?_⟩
  rcases List.mem_append.mp hx with hx | hx
  · exact hbefore x hx
  · obtain rfl := List.mem_singleton.mp hx
    exact hidle

/-- The condition where only the first `n` processes take part. -/
def flushedBelow (n : Nat) (s : ThrottleState) : ThrottleEvent → Bool
  | .tick _ => true
  | .act p => decide (p < n) && (decide (s.phase p ≠ .locked) ||
      (List.range n).all fun q => !(s.phase q).unflushed)
  | .raises p => decide (p < n)

theorem readsFlushed_of_below {file : List Char} {start : ℚ} {n : Nat}
    {tr : List (Transition ThrottleState ThrottleEvent)}
    (hrun : Run (ThrottleState.step json config) (.initial file start) tr s)
    (hbelow : ∀ x ∈ tr, flushedBelow n x.pre x.event = true) :
    ∀ x ∈ tr, ReadsFlushed x.pre x.event := by
  intro x hx
  cases hevent : x.event with
  | tick d => trivial
  | raises p => trivial
  | act p =>
      intro hp q
      by_cases hq : q < n
      · have hall := hbelow x hx
        simp only [hevent, flushedBelow, hp, Bool.and_eq_true, Bool.or_eq_true,
          decide_eq_true_eq, ne_eq, not_true_eq_false, false_or, List.all_eq_true,
          List.mem_range, Bool.not_eq_true'] at hall
        exact hall.2 q hq
      · rw [run_idle hrun (fun y hy => ?_) x hx]
        · rfl
        · have hy' := hbelow y hy
          constructor
          · intro heq
            simp only [heq, flushedBelow, Bool.and_eq_true, decide_eq_true_eq] at hy'
            exact hq hy'.1
          · intro heq
            simp only [heq, flushedBelow, decide_eq_true_eq] at hy'
            exact hq hy'

/-- The same two processes, one after the other. -/
def inTurn : List ThrottleEvent := List.replicate 10 (.act 0) ++ List.replicate 10 (.act 1)

/-- The second one finds no token and waits. -/
theorem throttle_bound_in_turn :
    ∃ tr s, Run (ThrottleState.step throttleJson oneASecond) (.initial [] 1) tr s ∧
      s.acquisitions = [⟨1, some 1⟩] ∧ s.phase 1 = .pausing ∧ s.Prompt 0 ∧
      ∀ a b, a ≤ b → (s.returnedIn a b : ℚ) ≤ 1 + 1 * (b - a + 0) := by
  have hevents : (trace (ThrottleState.step throttleJson oneASecond) (.initial [] 1) inTurn).any
      (fun y => decide (y.2.acquisitions = [⟨1, some 1⟩]) && decide (y.2.phase 1 = .pausing) &&
        y.1.all fun x => flushedBelow 2 x.pre x.event) = true := by
    decide +kernel
  obtain ⟨⟨tr, s⟩, htrace, hprops⟩ := (Option.any_eq_true _ _).mp hevents
  simp only [Bool.and_eq_true, decide_eq_true_eq, List.all_eq_true] at hprops
  obtain ⟨⟨hacquired, hwaits⟩, hbelow⟩ := hprops
  have hrun := trace_run htrace
  have hprompt : s.Prompt 0 := by
    intro x hx r hr
    rw [hacquired] at hx
    obtain rfl := List.mem_singleton.mp hx
    obtain rfl := Option.some.inj hr
    norm_num
  exact ⟨tr, s, hrun, hacquired, hwaits, hprompt,
    (throttle_bound throttleJson oneASecond hrun (readsFlushed_of_below hrun hbelow)).2.1 0 le_rfl
      hprompt⟩

end Hephaestus.Github
