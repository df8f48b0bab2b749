/-!
# TrialRouting.Number.Binary64

Binary floating point of double width as data. A finite number is a sign, a significand of at most
53 bits and a binary exponent, and every operation computes the exact rational first and rounds it
once, to the nearest number, of two equally near ones to the even one:

* `ofRatio` rounds a quotient of naturals;
* `mul`, `div`, `distance` are products, quotients and absolute differences through `ofRatio`;
* `bits` is the interchange format.

The significand of a number other than zero has its full 53 bits unless the exponent is the
smallest one, so a value has one form.
-/

namespace TrialRouting

/-- A double: `finite negative m e` is `± m · 2 ^ e`. -/
inductive Binary64 where
  | nan
  | infinite (negative : Bool)
  | finite (negative : Bool) (significand : Nat) (exponent : Int)
  deriving DecidableEq, Repr

namespace Binary64

/-- The exponent of the numbers nearest to zero. -/
def leastExponent : Int := -1074

/-- The exponent of the largest numbers. -/
def greatestExponent : Int := 971

def zero : Binary64 :=
  .finite false 0 leastExponent

instance : Inhabited Binary64 := ⟨zero⟩

/-! ## Rounding -/

/-- The natural number nearest to `num / den`, of two the even one. -/
def roundHalfEven (num den : Nat) : Nat :=
  let q := num / den
  let r := num % den
  if 2 * r < den then q
  else if den < 2 * r then q + 1
  else if q % 2 = 0 then q
  else q + 1

/-- `num / den` divided by `2 ^ e`, as a quotient of naturals. -/
def scaled (num den : Nat) (e : Int) : Nat × Nat :=
  if e < 0 then (num * Nat.pow 2 e.natAbs, den) else (num, den * Nat.pow 2 e.natAbs)

/-- The exponent that leaves 53 bits before the point of `num / den`, but no smaller one than
the least. -/
def exponentOf (num den : Nat) : Int :=
  let e : Int := Int.ofNat num.log2 - Int.ofNat den.log2 - 53
  let (n, d) := scaled num den e
  let e := if Nat.pow 2 53 ≤ n / d then e + 1 else e
  max e leastExponent

/-- The double nearest to `num / den`; too large a quotient is infinite. -/
def ofRatio (negative : Bool) (num den : Nat) : Binary64 :=
  if num = 0 then .finite negative 0 leastExponent
  else
    let e := exponentOf num den
    let (n, d) := scaled num den e
    let m := roundHalfEven n d
    let (m, e) := if m = Nat.pow 2 53 then (Nat.pow 2 52, e + 1) else (m, e)
    if greatestExponent < e then .infinite negative else .finite negative m e

def ofNat (n : Nat) : Binary64 :=
  ofRatio false n 1

/-- The magnitude of a finite number as a quotient of naturals. -/
def ratio (m : Nat) (e : Int) : Nat × Nat :=
  if e < 0 then (m, Nat.pow 2 e.natAbs) else (m * Nat.pow 2 e.natAbs, 1)

/-! ## Arithmetic -/

/-- The product; an infinite or undefined factor makes it undefined. -/
def mul : Binary64 → Binary64 → Binary64
  | .finite s m e, .finite s' m' e' =>
    let (n, d) := ratio m e
    let (n', d') := ratio m' e'
    ofRatio (s != s') (n * n') (d * d')
  | _, _ => .nan

/-- The quotient of finite numbers; undefined when the divisor is zero. -/
def div : Binary64 → Binary64 → Binary64
  | .finite s m e, .finite s' m' e' =>
    if m' = 0 then .nan
    else
      let (n, d) := ratio m e
      let (n', d') := ratio m' e'
      ofRatio (s != s') (n * d') (d * n')
  | _, _ => .nan

/-- The absolute difference of the magnitudes of two finite numbers. -/
def distance : Binary64 → Binary64 → Binary64
  | .finite _ m e, .finite _ m' e' =>
    let (n, d) := ratio m e
    let (n', d') := ratio m' e'
    let a := n * d'
    let b := n' * d
    ofRatio false (max a b - min a b) (d * d')
  | _, _ => .nan

/-- Comparison of the magnitudes of two finite numbers. -/
def magnitudeLe (m : Nat) (e : Int) (m' : Nat) (e' : Int) : Bool :=
  let (n, d) := ratio m e
  let (n', d') := ratio m' e'
  n * d' ≤ n' * d

/-- The larger of two numbers that are not negative. -/
def maximum : Binary64 → Binary64 → Binary64
  | .finite s m e, .finite s' m' e' =>
    if magnitudeLe m e m' e' then .finite s' m' e' else .finite s m e
  | a, .nan => a
  | .nan, b => b
  | a, _ => a

/-- A probability: zero, of either sign, to one. -/
def isUnitInterval : Binary64 → Bool
  | .finite negative m e => m == 0 || (!negative && magnitudeLe m e 1 0)
  | _ => false

/-- The number is one. -/
def isOne : Binary64 → Bool
  | .finite false m e => m != 0 && magnitudeLe m e 1 0 && magnitudeLe 1 0 m e
  | _ => false

/-- The part before the point of `x · 2 ^ 64`, for a probability less than one. -/
def floorTimesTwoPow64 : Binary64 → Nat
  | .finite _ m e =>
    let (n, d) := ratio m e
    n * UInt64.size / d
  | _ => 0

/-! ## Interchange format -/

/-- Sign, biased exponent and fraction in 64 bits. -/
def bits : Binary64 → UInt64
  | .nan => 0x7ff8000000000000
  | .infinite negative => (if negative then 0xfff0000000000000 else 0x7ff0000000000000)
  | .finite negative m e =>
    let sign : Nat := if negative then Nat.pow 2 63 else 0
    if m < Nat.pow 2 52 then .ofNat (sign + m)
    else .ofNat (sign + (e - leastExponent + 1).toNat * Nat.pow 2 52 + (m - Nat.pow 2 52))

end Binary64

end TrialRouting
