import TrialRouting.Number.Binary64

/-!
# TrialRouting.Random

Random numbers that a seed determines. They come from an endless stream of 64-bit words, of which a
generator takes one after the other; nothing but the stream and the number of words taken so far
matters, so two generators with one seed give the same numbers.

The stream of a seed is the ChaCha keystream with twelve rounds under a key that is expanded from
the seed. Each block of the keystream is computed from its number, without the blocks before it.
-/

namespace TrialRouting

/-! ## The keystream -/

namespace ChaCha

def rotateLeft (x n : UInt32) : UInt32 :=
  (x <<< n) ||| (x >>> (32 - n))

def rotateRight (x n : UInt32) : UInt32 :=
  rotateLeft x (32 - n)

/-- Sixteen words that the rounds mix. -/
abbrev Block := Vector UInt32 16

/-- Mixes four words. -/
def quarterRound (b : Block) (i j k l : Fin 16) : Block :=
  let x := b[i] + b[j]
  let w := rotateLeft (b[l] ^^^ x) 16
  let z := b[k] + w
  let y := rotateLeft (b[j] ^^^ z) 12
  let x := x + y
  let w := rotateLeft (w ^^^ x) 8
  let z := z + w
  let y := rotateLeft (y ^^^ z) 7
  (((b.set i x).set j y).set k z).set l w

/-- Mixes the four columns, then the four diagonals. -/
def doubleRound (b : Block) : Block :=
  let b := quarterRound b 0 4 8 12
  let b := quarterRound b 1 5 9 13
  let b := quarterRound b 2 6 10 14
  let b := quarterRound b 3 7 11 15
  let b := quarterRound b 0 5 10 15
  let b := quarterRound b 1 6 11 12
  let b := quarterRound b 2 7 8 13
  quarterRound b 3 4 9 14

def doubleRounds : Nat → Block → Block
  | 0, b => b
  | n + 1, b => doubleRounds n (doubleRound b)

/-- A key of eight words. -/
abbrev Key := Vector UInt32 8

/-- The constants, the key, the number of the block, and an empty nonce. -/
def initial (key : Key) (number : UInt64) : Block :=
  #v[0x61707865, 0x3320646e, 0x79622d32, 0x6b206574,
    key[0], key[1], key[2], key[3], key[4], key[5], key[6], key[7],
    number.toUInt32, (number >>> 32).toUInt32, 0, 0]

/-- A block of the keystream after twelve rounds. -/
def block (key : Key) (number : UInt64) : Block :=
  let b := initial key number
  (doubleRounds 6 b).zipWith (· + ·) b

/-- The keystream as 64-bit words, each of two words of a block, the lower one first. -/
def word (key : Key) (i : Nat) : UInt64 :=
  let b := block key (.ofNat (i / 8))
  let low := b[(⟨2 * (i % 8), by omega⟩ : Fin 16)]
  let high := b[(⟨2 * (i % 8) + 1, by omega⟩ : Fin 16)]
  low.toUInt64 ||| (high.toUInt64 <<< 32)

/-- The next state of the generator that expands seeds. -/
def nextState (state : UInt64) : UInt64 :=
  state * 6364136223846793005 + 11634580027462260723

/-- The word that a state of this generator gives. -/
def outputOf (state : UInt64) : UInt32 :=
  rotateRight (((state >>> 18) ^^^ state) >>> 27).toUInt32 (state >>> 59).toUInt32

/-- Some words that are expanded from a state. -/
def expand : Nat → UInt64 → List UInt32
  | 0, _ => []
  | n + 1, state => outputOf (nextState state) :: expand n (nextState state)

/-- The key of a seed. -/
def keyOfSeed (seed : UInt64) : Key :=
  let words := expand 8 seed
  .ofFn fun i => words.getD i 0

end ChaCha

/-! ## Random numbers -/

/-- A stream of words, and how many of them have been taken. -/
structure Random where
  stream : Nat → UInt64
  taken : Nat

namespace Random

def ofSeed (seed : UInt64) : Random :=
  let key := ChaCha.keyOfSeed seed
  ⟨ChaCha.word key, 0⟩

instance : Inhabited Random := ⟨ofSeed 0⟩

/-- Takes the next word. -/
def next (r : Random) : UInt64 × Random :=
  (r.stream r.taken, { r with taken := r.taken + 1 })

/-- True with the given probability. No word is taken for what is certain. -/
def chance (p : Binary64) (r : Random) : Bool × Random :=
  if p.isOne then (true, r)
  else
    let (w, r) := r.next
    (decide (w.toNat < p.floorTimesTwoPow64), r)

/-- The largest low half of a product that is accepted in drawing a number below `n`. -/
def zone (n : Nat) : Nat :=
  n * Nat.pow 2 (63 - n.log2) - 1

/-- Draws at most so many words, until the low half of the product of a word and `n` is in the
zone; the number is the high half of the product. -/
def draw (n : Nat) : Nat → Random → Nat × Random
  | 0, r => (0, r)
  | tries + 1, r =>
    let (w, r) := r.next
    let product := w.toNat * n
    if product % UInt64.size ≤ zone n then (product / UInt64.size, r) else draw n tries r

/-- A number below `n`. At least every second word is accepted on average, so the draw practically
never gives up. Should 4096 words in a row not be accepted, the number is 0, where a generator
without this bound would draw on. -/
def below (n : Nat) (r : Random) : Nat × Random :=
  draw n 4096 r

theorem draw_lt {n : Nat} (h : 0 < n) (tries : Nat) (r : Random) : (draw n tries r).1 < n := by
  induction tries generalizing r with
  | zero => exact h
  | succ tries ih =>
    simp only [draw]
    split
    · have hw : r.next.1.toNat < UInt64.size := r.next.1.toNat_lt_size
      exact Nat.div_lt_of_lt_mul (Nat.mul_lt_mul_of_pos_right hw h)
    · exact ih _

theorem below_lt {n : Nat} (h : 0 < n) (r : Random) : (r.below n).1 < n :=
  draw_lt h _ _

end Random

end TrialRouting
