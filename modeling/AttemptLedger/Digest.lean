import AttemptLedger.Text.Utf8

/-!
# SHA-256

The digest of a byte string: the message is padded to whole blocks of sixty-four bytes, and each
block is mixed into a state of eight words. Main statements: a padded message is made of whole blocks,
and a digest has thirty-two bytes.
-/

namespace AttemptLedger.Digest

/-- The fractional parts of the square roots of the first eight primes, thirty-two bits each. -/
def initialState : List UInt32 :=
  [0x6a09e667, 0xbb67ae85, 0x3c6ef372, 0xa54ff53a, 0x510e527f, 0x9b05688c, 0x1f83d9ab, 0x5be0cd19]

/-- The fractional parts of the cube roots of the first sixty-four primes, thirty-two bits each. -/
def roundConstants : List UInt32 :=
  [0x428a2f98, 0x71374491, 0xb5c0fbcf, 0xe9b5dba5, 0x3956c25b, 0x59f111f1, 0x923f82a4, 0xab1c5ed5,
   0xd807aa98, 0x12835b01, 0x243185be, 0x550c7dc3, 0x72be5d74, 0x80deb1fe, 0x9bdc06a7, 0xc19bf174,
   0xe49b69c1, 0xefbe4786, 0x0fc19dc6, 0x240ca1cc, 0x2de92c6f, 0x4a7484aa, 0x5cb0a9dc, 0x76f988da,
   0x983e5152, 0xa831c66d, 0xb00327c8, 0xbf597fc7, 0xc6e00bf3, 0xd5a79147, 0x06ca6351, 0x14292967,
   0x27b70a85, 0x2e1b2138, 0x4d2c6dfc, 0x53380d13, 0x650a7354, 0x766a0abb, 0x81c2c92e, 0x92722c85,
   0xa2bfe8a1, 0xa81a664b, 0xc24b8b70, 0xc76c51a3, 0xd192e819, 0xd6990624, 0xf40e3585, 0x106aa070,
   0x19a4c116, 0x1e376c08, 0x2748774c, 0x34b0bcb5, 0x391c0cb3, 0x4ed8aa4a, 0x5b9cca4f, 0x682e6ff3,
   0x748f82ee, 0x78a5636f, 0x84c87814, 0x8cc70208, 0x90befffa, 0xa4506ceb, 0xbef9a3f7, 0xc67178f2]

def rotateRight (x : UInt32) (n : UInt32) : UInt32 := (x >>> n) ||| (x <<< (32 - n))

def bigEndian : (width : Nat) → Nat → Bytes
  | 0, _ => []
  | width + 1, n => bigEndian width (n / 256) ++ [UInt8.ofNat (n % 256)]

/-- The message, a single set bit, zeros up to the block size, and the message length in bits. -/
def padded (message : Bytes) : Bytes :=
  let zeros := (119 - message.length % 64) % 64
  message ++ 0x80 :: List.replicate zeros 0 ++ bigEndian 8 (8 * message.length)

def words : Bytes → List UInt32
  | a :: b :: c :: d :: rest =>
    ((a.toUInt32 <<< 24) ||| (b.toUInt32 <<< 16) ||| (c.toUInt32 <<< 8) ||| d.toUInt32) :: words rest
  | _ => []

/-- Extends the sixteen words of a block; the schedule is kept latest word first. -/
def extend : (count : Nat) → List UInt32 → List UInt32
  | 0, schedule => schedule
  | count + 1, schedule =>
    let w2 := schedule.getD 1 0
    let w7 := schedule.getD 6 0
    let w15 := schedule.getD 14 0
    let w16 := schedule.getD 15 0
    let s0 := rotateRight w15 7 ^^^ rotateRight w15 18 ^^^ (w15 >>> 3)
    let s1 := rotateRight w2 17 ^^^ rotateRight w2 19 ^^^ (w2 >>> 10)
    extend count ((w16 + s0 + w7 + s1) :: schedule)

def schedule (block : Bytes) : List UInt32 := (extend 48 (words block).reverse).reverse

def mixRound (state : List UInt32) (kw : UInt32 × UInt32) : List UInt32 :=
  match state with
  | [a, b, c, d, e, f, g, h] =>
    let s1 := rotateRight e 6 ^^^ rotateRight e 11 ^^^ rotateRight e 25
    let choice := (e &&& f) ^^^ ((~~~e) &&& g)
    let t1 := h + s1 + choice + kw.1 + kw.2
    let s0 := rotateRight a 2 ^^^ rotateRight a 13 ^^^ rotateRight a 22
    let majority := (a &&& b) ^^^ (a &&& c) ^^^ (b &&& c)
    [t1 + (s0 + majority), a, b, c, d + t1, e, f, g]
  | state => state

def mixBlock (state : List UInt32) (block : Bytes) : List UInt32 :=
  List.zipWith (· + ·) state ((roundConstants.zip (schedule block)).foldl mixRound state)

def mixBlocks : (count : Nat) → List UInt32 → Bytes → List UInt32
  | 0, state, _ => state
  | count + 1, state, bytes => mixBlocks count (mixBlock state (bytes.take 64)) (bytes.drop 64)

def hexByte (b : UInt8) : List Char :=
  [Nat.digitChar (b.toNat / 16), Nat.digitChar (b.toNat % 16)]

def hex (bytes : Bytes) : String := String.ofList (bytes.flatMap hexByte)

/-- The digest whose digits are kept with a saved batch (`content_digest`). -/
def sha256 (message : Bytes) : Bytes :=
  let bytes := padded message
  (mixBlocks (bytes.length / 64) initialState bytes).flatMap fun word => bigEndian 4 word.toNat

theorem length_bigEndian (width n : Nat) : (bigEndian width n).length = width := by
  induction width generalizing n with
  | zero => rfl
  | succ width ih => rw [bigEndian, List.length_append, ih, List.length_singleton]

theorem length_padded_mod (message : Bytes) : (padded message).length % 64 = 0 := by
  simp only [padded, List.length_append, List.length_cons, List.length_replicate, length_bigEndian]
  omega

theorem length_mixRound (state : List UInt32) (kw : UInt32 × UInt32) :
    (mixRound state kw).length = state.length := by
  unfold mixRound
  split <;> rfl

theorem length_foldl_mixRound (kws : List (UInt32 × UInt32)) (state : List UInt32) :
    (kws.foldl mixRound state).length = state.length := by
  induction kws generalizing state with
  | nil => rfl
  | cons kw kws ih => rw [List.foldl_cons, ih, length_mixRound]

theorem length_mixBlock (state : List UInt32) (block : Bytes) :
    (mixBlock state block).length = state.length := by
  rw [mixBlock, List.length_zipWith, length_foldl_mixRound, Nat.min_self]

theorem length_mixBlocks (count : Nat) (state : List UInt32) (bytes : Bytes) :
    (mixBlocks count state bytes).length = state.length := by
  induction count generalizing state bytes with
  | zero => rfl
  | succ count ih => rw [mixBlocks, ih, length_mixBlock]

theorem length_flatMap_bigEndian (width : Nat) (words : List UInt32) :
    (words.flatMap fun word => bigEndian width word.toNat).length = words.length * width := by
  induction words with
  | nil => rw [List.length_nil, Nat.zero_mul, List.flatMap_nil, List.length_nil]
  | cons word words ih =>
    rw [List.flatMap_cons, List.length_append, ih, length_bigEndian, List.length_cons, Nat.succ_mul,
      Nat.add_comm]

theorem length_sha256 (message : Bytes) : (sha256 message).length = 32 := by
  rw [sha256, length_flatMap_bigEndian, length_mixBlocks]
  rfl

/-- The digest of `abc`. -/
example : hex (sha256 [0x61, 0x62, 0x63])
    = "ba7816bf8f01cfea414140de5dae2223b00361a396177a9cb410ff61f20015ad" := by decide +kernel

end AttemptLedger.Digest
