/-!
# SHA-256

The hash function of FIPS 180-4 on lists of bytes: padding, the message
schedule, the compression of one block, and the digest of a message.
-/

namespace CouncilLedger.Sha256

/-! ## Words -/

/-- Rotate a word to the right by `n` bits, for `n` from 1 to 31. -/
def rotate (x : UInt32) (n : UInt32) : UInt32 := (x >>> n) ||| (x <<< (32 - n))

/-- The four bytes of a word, the highest first. -/
def wordBytes (x : UInt32) : List UInt8 :=
  [(x >>> 24).toUInt8, (x >>> 16).toUInt8, (x >>> 8).toUInt8, x.toUInt8]

/-- The words of a list of bytes, four bytes each, the highest first. -/
def words : List UInt8 → List UInt32
  | a :: b :: c :: d :: rest =>
    ((a.toUInt32 <<< 24) ||| (b.toUInt32 <<< 16) ||| (c.toUInt32 <<< 8) |||
      d.toUInt32) :: words rest
  | _ => []

/-! ## Padding -/

/-- The eight bytes of `n` modulo 2^64, the highest first. -/
def lengthBytes (n : Nat) : List UInt8 :=
  [56, 48, 40, 32, 24, 16, 8, 0].map (fun shift => UInt8.ofNat (n >>> shift))

/-- How many zero bytes follow the delimiter of a message of `n` bytes, so that
with the length the whole is a number of 64-byte blocks. -/
def zerosAfter (n : Nat) : Nat := (119 - n % 64) % 64

/-- The message, a one bit, zeros, and the length of the message in bits. -/
def pad (message : List UInt8) : List UInt8 :=
  message ++ 0x80 ::
    (List.replicate (zerosAfter message.length) 0 ++
      lengthBytes (8 * message.length))

/-! ## Compression -/

/-- The eight words carried from block to block. -/
structure State where
  a : UInt32
  b : UInt32
  c : UInt32
  d : UInt32
  e : UInt32
  f : UInt32
  g : UInt32
  h : UInt32

/-- The first 32 bits of the fractional parts of the square roots of the first
eight primes. -/
def State.initial : State :=
  ⟨0x6a09e667, 0xbb67ae85, 0x3c6ef372, 0xa54ff53a, 0x510e527f, 0x9b05688c,
    0x1f83d9ab, 0x5be0cd19⟩

/-- The first 32 bits of the fractional parts of the cube roots of the first 64
primes. -/
def roundConstants : List UInt32 :=
  [0x428a2f98, 0x71374491, 0xb5c0fbcf, 0xe9b5dba5, 0x3956c25b, 0x59f111f1,
   0x923f82a4, 0xab1c5ed5, 0xd807aa98, 0x12835b01, 0x243185be, 0x550c7dc3,
   0x72be5d74, 0x80deb1fe, 0x9bdc06a7, 0xc19bf174, 0xe49b69c1, 0xefbe4786,
   0x0fc19dc6, 0x240ca1cc, 0x2de92c6f, 0x4a7484aa, 0x5cb0a9dc, 0x76f988da,
   0x983e5152, 0xa831c66d, 0xb00327c8, 0xbf597fc7, 0xc6e00bf3, 0xd5a79147,
   0x06ca6351, 0x14292967, 0x27b70a85, 0x2e1b2138, 0x4d2c6dfc, 0x53380d13,
   0x650a7354, 0x766a0abb, 0x81c2c92e, 0x92722c85, 0xa2bfe8a1, 0xa81a664b,
   0xc24b8b70, 0xc76c51a3, 0xd192e819, 0xd6990624, 0xf40e3585, 0x106aa070,
   0x19a4c116, 0x1e376c08, 0x2748774c, 0x34b0bcb5, 0x391c0cb3, 0x4ed8aa4a,
   0x5b9cca4f, 0x682e6ff3, 0x748f82ee, 0x78a5636f, 0x84c87814, 0x8cc70208,
   0x90befffa, 0xa4506ceb, 0xbef9a3f7, 0xc67178f2]

/-- The word that follows a window of sixteen schedule words. -/
def nextWord (window : List UInt32) : UInt32 :=
  let w1 := window.getD 1 0
  let w14 := window.getD 14 0
  let s0 := rotate w1 7 ^^^ rotate w1 18 ^^^ (w1 >>> 3)
  let s1 := rotate w14 17 ^^^ rotate w14 19 ^^^ (w14 >>> 10)
  window.getD 0 0 + s0 + window.getD 9 0 + s1

/-- The first `n` schedule words from a window of sixteen on. -/
def schedule : Nat → List UInt32 → List UInt32
  | 0, _ => []
  | n + 1, window =>
    window.headD 0 :: schedule n (window.tail ++ [nextWord window])

/-- One round, with its constant `k` and schedule word `w`. -/
def State.round (s : State) (kw : UInt32 × UInt32) : State :=
  let s1 := rotate s.e 6 ^^^ rotate s.e 11 ^^^ rotate s.e 25
  let choice := (s.e &&& s.f) ^^^ ((~~~s.e) &&& s.g)
  let t1 := s.h + s1 + choice + kw.1 + kw.2
  let s0 := rotate s.a 2 ^^^ rotate s.a 13 ^^^ rotate s.a 22
  let majority := (s.a &&& s.b) ^^^ (s.a &&& s.c) ^^^ (s.b &&& s.c)
  ⟨t1 + (s0 + majority), s.a, s.b, s.c, s.d + t1, s.e, s.f, s.g⟩

/-- The state after a block of sixteen words. -/
def State.compress (s : State) (block : List UInt32) : State :=
  let r := (roundConstants.zip (schedule 64 block)).foldl State.round s
  ⟨s.a + r.a, s.b + r.b, s.c + r.c, s.d + r.d, s.e + r.e, s.f + r.f,
    s.g + r.g, s.h + r.h⟩

/-- The state after `n` blocks of sixteen words. -/
def State.absorb (s : State) : Nat → List UInt32 → State
  | 0, _ => s
  | n + 1, ws => (s.compress (ws.take 16)).absorb n (ws.drop 16)

/-- The 32 bytes of a state. -/
def State.bytes (s : State) : List UInt8 :=
  wordBytes s.a ++ wordBytes s.b ++ wordBytes s.c ++ wordBytes s.d ++
  wordBytes s.e ++ wordBytes s.f ++ wordBytes s.g ++ wordBytes s.h

/-- The 32 bytes of the hash of a message. -/
def hash (message : List UInt8) : List UInt8 :=
  let ws := words (pad message)
  (State.initial.absorb (ws.length / 16) ws).bytes

@[simp] theorem length_hash (message : List UInt8) :
    (hash message).length = 32 := rfl

end CouncilLedger.Sha256
