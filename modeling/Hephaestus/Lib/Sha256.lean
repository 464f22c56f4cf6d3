import Hephaestus.Lib.Text

/-!
# SHA-256

The digest of `hashlib.sha256` (FIPS 180-4) and its hexadecimal text. The
proofs here use only what a caller that cuts the text to a marker relies on:
64 characters, each one of `[0-9a-f]`.
-/

namespace Hephaestus.Lib.Sha256

/-- The round constants. -/
def roundConstants : List UInt32 :=
  [0x428a2f98, 0x71374491, 0xb5c0fbcf, 0xe9b5dba5, 0x3956c25b, 0x59f111f1, 0x923f82a4, 0xab1c5ed5,
   0xd807aa98, 0x12835b01, 0x243185be, 0x550c7dc3, 0x72be5d74, 0x80deb1fe, 0x9bdc06a7, 0xc19bf174,
   0xe49b69c1, 0xefbe4786, 0x0fc19dc6, 0x240ca1cc, 0x2de92c6f, 0x4a7484aa, 0x5cb0a9dc, 0x76f988da,
   0x983e5152, 0xa831c66d, 0xb00327c8, 0xbf597fc7, 0xc6e00bf3, 0xd5a79147, 0x06ca6351, 0x14292967,
   0x27b70a85, 0x2e1b2138, 0x4d2c6dfc, 0x53380d13, 0x650a7354, 0x766a0abb, 0x81c2c92e, 0x92722c85,
   0xa2bfe8a1, 0xa81a664b, 0xc24b8b70, 0xc76c51a3, 0xd192e819, 0xd6990624, 0xf40e3585, 0x106aa070,
   0x19a4c116, 0x1e376c08, 0x2748774c, 0x34b0bcb5, 0x391c0cb3, 0x4ed8aa4a, 0x5b9cca4f, 0x682e6ff3,
   0x748f82ee, 0x78a5636f, 0x84c87814, 0x8cc70208, 0x90befffa, 0xa4506ceb, 0xbef9a3f7, 0xc67178f2]

/-- The chaining state. -/
structure State where
  a : UInt32
  b : UInt32
  c : UInt32
  d : UInt32
  e : UInt32
  f : UInt32
  g : UInt32
  h : UInt32

def initial : State :=
  { a := 0x6a09e667, b := 0xbb67ae85, c := 0x3c6ef372, d := 0xa54ff53a
    e := 0x510e527f, f := 0x9b05688c, g := 0x1f83d9ab, h := 0x5be0cd19 }

def rotr (x : UInt32) (n : UInt32) : UInt32 :=
  (x >>> n) ||| (x <<< (32 - n))

/-- One round with its schedule word and constant. -/
def round (s : State) (wk : UInt32 × UInt32) : State :=
  let s1 := rotr s.e 6 ^^^ rotr s.e 11 ^^^ rotr s.e 25
  let ch := (s.e &&& s.f) ^^^ (~~~s.e &&& s.g)
  let t1 := s.h + s1 + ch + wk.2 + wk.1
  let s0 := rotr s.a 2 ^^^ rotr s.a 13 ^^^ rotr s.a 22
  let maj := (s.a &&& s.b) ^^^ (s.a &&& s.c) ^^^ (s.b &&& s.c)
  { a := t1 + (s0 + maj), b := s.a, c := s.b, d := s.c
    e := s.d + t1, f := s.e, g := s.f, h := s.g }

/-- The schedule, newest word first: each new word reads the ones 2, 7, 15 and
16 places back. -/
def extend : Nat → List UInt32 → List UInt32
  | 0, ws => ws
  | n + 1, ws =>
      let w2 := ws.getD 1 0
      let w15 := ws.getD 14 0
      let s0 := rotr w15 7 ^^^ rotr w15 18 ^^^ (w15 >>> 3)
      let s1 := rotr w2 17 ^^^ rotr w2 19 ^^^ (w2 >>> 10)
      extend n ((ws.getD 15 0 + s0 + ws.getD 6 0 + s1) :: ws)

/-- Four bytes, the first the most significant, as one word. -/
def words : List UInt8 → List UInt32
  | b0 :: b1 :: b2 :: b3 :: rest =>
      ((b0.toUInt32 <<< 24) ||| (b1.toUInt32 <<< 16) ||| (b2.toUInt32 <<< 8) ||| b3.toUInt32)
        :: words rest
  | _ => []

def compress (s : State) (block : List UInt32) : State :=
  let schedule := (extend 48 block.reverse).reverse
  let r := (schedule.zip roundConstants).foldl round s
  { a := s.a + r.a, b := s.b + r.b, c := s.c + r.c, d := s.d + r.d
    e := s.e + r.e, f := s.f + r.f, g := s.g + r.g, h := s.h + r.h }

/-- The block count is the fuel: a padded message has exactly that many. -/
def blocks : Nat → State → List UInt32 → State
  | 0, s, _ => s
  | n + 1, s, ws => blocks n (compress s (ws.take 16)) (ws.drop 16)

/-- The eight bytes of a bit length. -/
def lengthBytes (bits : Nat) : List UInt8 :=
  [56, 48, 40, 32, 24, 16, 8, 0].map fun shift : Nat => UInt8.ofNat (bits >>> shift)

/-- The message, a one bit, zeros up to a whole number of blocks, and the length. -/
def pad (message : List UInt8) : List UInt8 :=
  let zeros := (119 - message.length % 64) % 64
  message ++ [0x80] ++ List.replicate zeros 0 ++ lengthBytes (message.length * 8)

def digest (message : List UInt8) : List UInt32 :=
  let padded := pad message
  let s := blocks (padded.length / 64) initial (words padded)
  [s.a, s.b, s.c, s.d, s.e, s.f, s.g, s.h]

/-- The eight digits of a word. -/
def hexWord (w : UInt32) : Text :=
  [28, 24, 20, 16, 12, 8, 4, 0].map fun shift => Text.hexDigit ((w.toNat >>> shift) % 16)

/-- `hashlib.sha256(message).hexdigest()`. -/
def hexdigest (message : List UInt8) : Text :=
  (digest message).flatMap hexWord

/-- `text.encode("utf-8")`. -/
def encodeUtf8 (t : Text) : List UInt8 :=
  t.flatMap String.utf8EncodeChar

example : hexdigest (encodeUtf8 "abc".toList) =
    "ba7816bf8f01cfea414140de5dae2223b00361a396177a9cb410ff61f20015ad".toList := by
  decide +kernel

theorem length_encodeUtf8_of_ascii {t : Text} (h : ∀ c ∈ t, c.toNat < 128) :
    (encodeUtf8 t).length = t.length := by
  induction t with
  | nil => rfl
  | cons c t ih =>
      rw [List.forall_mem_cons] at h
      have hchar : (String.utf8EncodeChar c).length = 1 := by
        rw [String.length_utf8EncodeChar, Char.utf8Size_eq_one_iff, UInt32.le_iff_toNat_le]
        exact Nat.le_of_lt_succ h.1
      have htail := ih h.2
      rw [encodeUtf8] at htail ⊢
      rw [List.flatMap_cons, List.length_append, hchar, htail, List.length_cons, Nat.add_comm]

theorem length_hexWord (w : UInt32) : (hexWord w).length = 8 := by
  simp [hexWord]

theorem isLowerHex_of_mem_hexWord {w : UInt32} {c : Char} (h : c ∈ hexWord w) :
    Text.isLowerHex c = true := by
  rw [hexWord, List.mem_map] at h
  obtain ⟨shift, -, rfl⟩ := h
  exact Text.isLowerHex_hexDigit (Nat.mod_lt _ (by omega))

theorem length_hexdigest (message : List UInt8) : (hexdigest message).length = 64 := by
  simp [hexdigest, digest, length_hexWord]

/-- The first `n` characters of a digest are `n` hexadecimal digits. -/
theorem isHexOfLength_take_hexdigest (message : List UInt8) {n : Nat} (h : n ≤ 64) :
    Text.isHexOfLength n ((hexdigest message).take n) = true := by
  have hlen : ((hexdigest message).take n).length = n := by
    rw [List.length_take, length_hexdigest]
    omega
  have hall : ∀ c ∈ (hexdigest message).take n, Text.isLowerHex c = true := by
    intro c hc
    have hmem : c ∈ hexdigest message := List.mem_of_mem_take hc
    rw [hexdigest, List.mem_flatMap] at hmem
    obtain ⟨w, -, hw⟩ := hmem
    exact isLowerHex_of_mem_hexWord hw
  simp only [Text.isHexOfLength, hlen, decide_true, Bool.true_and, List.all_eq_true]
  exact hall

end Hephaestus.Lib.Sha256
