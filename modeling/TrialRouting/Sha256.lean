/-!
# TrialRouting.Sha256

The SHA-256 hash: a message is filled up to blocks of 64 bytes, and each block is folded into a
state of eight 32-bit words by 64 rounds. The digest is the last state, most significant byte
first.
-/

namespace TrialRouting.Sha256

/-- The round constants: the first 32 bits of the fractional parts of the cube roots of the first
64 primes. -/
def roundConstants : Array UInt32 := #[
  0x428a2f98, 0x71374491, 0xb5c0fbcf, 0xe9b5dba5, 0x3956c25b, 0x59f111f1, 0x923f82a4, 0xab1c5ed5,
  0xd807aa98, 0x12835b01, 0x243185be, 0x550c7dc3, 0x72be5d74, 0x80deb1fe, 0x9bdc06a7, 0xc19bf174,
  0xe49b69c1, 0xefbe4786, 0x0fc19dc6, 0x240ca1cc, 0x2de92c6f, 0x4a7484aa, 0x5cb0a9dc, 0x76f988da,
  0x983e5152, 0xa831c66d, 0xb00327c8, 0xbf597fc7, 0xc6e00bf3, 0xd5a79147, 0x06ca6351, 0x14292967,
  0x27b70a85, 0x2e1b2138, 0x4d2c6dfc, 0x53380d13, 0x650a7354, 0x766a0abb, 0x81c2c92e, 0x92722c85,
  0xa2bfe8a1, 0xa81a664b, 0xc24b8b70, 0xc76c51a3, 0xd192e819, 0xd6990624, 0xf40e3585, 0x106aa070,
  0x19a4c116, 0x1e376c08, 0x2748774c, 0x34b0bcb5, 0x391c0cb3, 0x4ed8aa4a, 0x5b9cca4f, 0x682e6ff3,
  0x748f82ee, 0x78a5636f, 0x84c87814, 0x8cc70208, 0x90befffa, 0xa4506ceb, 0xbef9a3f7, 0xc67178f2]

/-- Eight words of chaining state. -/
structure State where
  a : UInt32
  b : UInt32
  c : UInt32
  d : UInt32
  e : UInt32
  f : UInt32
  g : UInt32
  h : UInt32
  deriving DecidableEq, Repr, Inhabited

/-- The state before the first block: the first 32 bits of the fractional parts of the square
roots of the first eight primes. -/
def initial : State :=
  ⟨0x6a09e667, 0xbb67ae85, 0x3c6ef372, 0xa54ff53a, 0x510e527f, 0x9b05688c, 0x1f83d9ab, 0x5be0cd19⟩

def rotateRight (x n : UInt32) : UInt32 :=
  x >>> n ||| x <<< (32 - n)

/-! ## Padding -/

/-- The bytes of a number in the given width, most significant first. -/
def bigEndian : Nat → Nat → List UInt8
  | 0, _ => []
  | width + 1, n => bigEndian width (n / 256) ++ [.ofNat (n % 256)]

/-- A one bit, zeros, and the length in bits fill the message up to whole blocks. -/
def padding (length : Nat) : List UInt8 :=
  0x80 :: List.replicate ((119 - length % 64) % 64) 0 ++ bigEndian 8 (8 * length)

/-- Four bytes as a word. -/
def word (a b c d : UInt8) : UInt32 :=
  a.toUInt32 <<< 24 ||| b.toUInt32 <<< 16 ||| c.toUInt32 <<< 8 ||| d.toUInt32

/-- Bytes as words; up to three bytes at the end that make no word are left out. -/
def words : List UInt8 → List UInt32
  | a :: b :: c :: d :: rest => word a b c d :: words rest
  | _ => []

/-! ## Compression -/

/-- The next word of the message schedule, from the last sixteen. -/
def scheduled (w : Array UInt32) : UInt32 :=
  let t := w.size
  let x := w.getD (t - 15) 0
  let y := w.getD (t - 2) 0
  let s0 := rotateRight x 7 ^^^ rotateRight x 18 ^^^ x >>> 3
  let s1 := rotateRight y 17 ^^^ rotateRight y 19 ^^^ y >>> 10
  w.getD (t - 16) 0 + s0 + w.getD (t - 7) 0 + s1

/-- The message schedule, lengthened by the given number of words. -/
def schedule : Nat → Array UInt32 → Array UInt32
  | 0, w => w
  | steps + 1, w => schedule steps (w.push (scheduled w))

/-- One round with its constant and its word of the schedule. -/
def round (s : State) (constant w : UInt32) : State :=
  let s1 := rotateRight s.e 6 ^^^ rotateRight s.e 11 ^^^ rotateRight s.e 25
  let ch := (s.e &&& s.f) ^^^ ((s.e ^^^ 0xffffffff) &&& s.g)
  let t1 := s.h + s1 + ch + constant + w
  let s0 := rotateRight s.a 2 ^^^ rotateRight s.a 13 ^^^ rotateRight s.a 22
  let maj := (s.a &&& s.b) ^^^ (s.a &&& s.c) ^^^ (s.b &&& s.c)
  ⟨t1 + (s0 + maj), s.a, s.b, s.c, s.d + t1, s.e, s.f, s.g⟩

/-- Folds a block of sixteen words into the state. -/
def compress (s : State) (block : List UInt32) : State :=
  let w := schedule 48 block.toArray
  let r := (List.range 64).foldl
    (fun r t => round r (roundConstants.getD t 0) (w.getD t 0)) s
  ⟨s.a + r.a, s.b + r.b, s.c + r.c, s.d + r.d, s.e + r.e, s.f + r.f, s.g + r.g, s.h + r.h⟩

/-- Folds whole blocks into the state; the first argument is their number. -/
def compressAll : Nat → State → List UInt32 → State
  | 0, s, _ => s
  | blocks + 1, s, ws => compressAll blocks (compress s (ws.take 16)) (ws.drop 16)

/-- The state after a whole message. -/
def hash (message : List UInt8) : State :=
  let ws := words (message ++ padding message.length)
  compressAll (ws.length / 16) initial ws

/-- The first eight bytes of the digest as a number. -/
def leadingWord (message : List UInt8) : UInt64 :=
  let s := hash message
  s.a.toUInt64 <<< 32 ||| s.b.toUInt64

end TrialRouting.Sha256
