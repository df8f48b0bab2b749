import TrialRouting.Number.Binary64

/-!
# TrialRouting.Number.Decimal

Doubles as decimal text.

* `ofDecimal` is the double nearest to a decimal number; `parse?` reads one from text.
* `shortest` gives the fewest digits that read back as the number, and of those the nearest; of two
  that are equally near, the one that its `Tie` names.
* `plain` writes these digits without an exponent (a tie goes up), `fixed` a given number of places
  of the exact value (a half goes to the even neighbour), `jsonNumber` positional notation from
  `10 ^ -5` up to below `10 ^ 16` and an exponent elsewhere (a tie goes to the even digit).
-/

namespace TrialRouting.Binary64

/-! ## Reading -/

/-- The double nearest to `digits · 10 ^ exponent`. -/
def ofDecimal (negative : Bool) (digits : Nat) (exponent : Int) : Binary64 :=
  if digits = 0 then .finite negative 0 leastExponent
  else
    -- the decimal exponent of the leading digit is within one of this
    let magnitude := exponent + Int.ofNat (digits.log2 * 30103 / 100000)
    if 400 < magnitude then .infinite negative
    else if magnitude < -400 then .finite negative 0 leastExponent
    else if exponent < 0 then ofRatio negative digits (Nat.pow 10 exponent.natAbs)
    else ofRatio negative (digits * Nat.pow 10 exponent.natAbs) 1

/-- The number that a run of digits stands for. -/
def digitsValue (cs : List Char) : Nat :=
  cs.foldl (fun n c => n * 10 + (c.toNat - 48)) 0

/-- An exponent: an optional sign and at least one digit, to the end of the text. -/
def exponent? (cs : List Char) : Option Int :=
  let (negative, cs) := match cs with
    | '-' :: r => (true, r)
    | '+' :: r => (false, r)
    | r => (false, r)
  if cs.isEmpty || cs.any (fun c => !c.isDigit) then none
  else
    let n := Int.ofNat (digitsValue cs)
    some (if negative then -n else n)

/-- Digits, of which some may stand after a point, and an optional exponent. -/
def unsigned? (negative : Bool) (cs : List Char) : Option Binary64 :=
  let whole := cs.takeWhile Char.isDigit
  let rest := cs.dropWhile Char.isDigit
  let (fraction, rest) := match rest with
    | '.' :: r => (r.takeWhile Char.isDigit, r.dropWhile Char.isDigit)
    | r => ([], r)
  if whole.isEmpty && fraction.isEmpty then none
  else
    let digits := digitsValue (whole ++ fraction)
    let shift := -Int.ofNat fraction.length
    match rest with
    | [] => some (ofDecimal negative digits shift)
    | c :: r =>
      if c = 'e' || c = 'E' then
        (exponent? r).map fun x => ofDecimal negative digits (shift + x)
      else none

/-- Reads an optional sign and then a decimal number, `inf`, `infinity` or `nan`, the words in any
case. -/
def parse? (s : String) : Option Binary64 :=
  let (negative, cs) := match s.toList with
    | '-' :: r => (true, r)
    | '+' :: r => (false, r)
    | r => (false, r)
  let word := String.ofList (cs.map Char.toLower)
  if word = "nan" then some .nan
  else if word = "inf" || word = "infinity" then some (.infinite negative)
  else unsigned? negative cs

/-! ## The shortest digits -/

/-- The first `k`, in at most the given number of steps, for which `10 ^ k` lifts `num / den` to
one or more. -/
def liftingPower (num den : Nat) : Nat → Nat → Nat
  | 0, k => k
  | steps + 1, k => if den ≤ num * Nat.pow 10 k then k else liftingPower num den steps (k + 1)

/-- The decimal exponent `x` of the leading digit: `10 ^ x ≤ num / den < 10 ^ (x + 1)`. -/
def leadingExponent (num den : Nat) : Int :=
  if den ≤ num then Int.ofNat ((toString (num / den)).length - 1)
  else
    let guess := (den.log2 - num.log2) * 30103 / 100000
    Int.negOfNat (liftingPower num den 4 (guess - 1))

/-- Which of two points is taken when they are equally near. -/
inductive Tie where
  | up
  | even
  deriving DecidableEq, Repr

/-- The upper or the lower one of two points with a tie between them. -/
def Tie.pick (tie : Tie) (lower : Nat) : Nat :=
  match tie with
  | .up => lower + 1
  | .even => if lower % 2 = 0 then lower else lower + 1

/-- A digit count, a grid of decimals and a value between two of its points: the point that lies
within the rounding interval of the value, of two the nearer one. -/
def gridPoint? (tie : Tie) (m : Nat) (e : Int) (x : Int) : Option Nat :=
  -- everything in units of a quarter of the last binary place
  let (n, d) := ratio (4 * m) (e - 2)
  let half := 2
  let below := if m = Nat.pow 2 52 && leastExponent < e then 1 else half
  let (lo, d') := ratio (4 * m - below) (e - 2)
  let (hi, _) := ratio (4 * m + half) (e - 2)
  -- the grid step as a quotient
  let (sn, sd) : Nat × Nat := if x < 0 then (1, Nat.pow 10 x.natAbs) else (Nat.pow 10 x.natAbs, 1)
  let floor := n * sd / (d * sn)
  let inside (c : Nat) : Bool :=
    -- c · sn / sd against lo / d' and hi / d'
    if m % 2 = 0 then lo * sd ≤ c * sn * d' && c * sn * d' ≤ hi * sd
    else lo * sd < c * sn * d' && c * sn * d' < hi * sd
  let lower := inside floor
  let upper := inside (floor + 1)
  -- twice the distance of the value from the lower point, against one step
  let r := 2 * (n * sd - floor * sn * d)
  let step := sn * d
  if lower && upper then
    if r < step then some floor
    else if step < r then some (floor + 1)
    else some (tie.pick floor)
  else if lower then some floor
  else if upper then some (floor + 1)
  else none

/-- Decimal digits without leading zeros, and the exponent of the last one. -/
structure Digits where
  digits : List Char
  exponent : Int
  deriving Repr

/-- The digits of `c · 10 ^ x` without trailing zeros. -/
def Digits.of (c : Nat) (x : Int) : Digits :=
  let all := (toString c).toList
  let kept := (all.reverse.dropWhile (· = '0')).reverse
  ⟨kept, x + Int.ofNat (all.length - kept.length)⟩

/-- The first digit count from `17 - steps` on whose grid has a point that reads back. -/
def shortestFrom (tie : Tie) (m : Nat) (e : Int) (lead : Int) : Nat → Digits
  | 0 => Digits.of ((gridPoint? tie m e (lead - 16)).getD 0) (lead - 16)
  | steps + 1 =>
    let x := lead - Int.ofNat (16 - (steps + 1))
    match gridPoint? tie m e x with
    | some c => Digits.of c x
    | none => shortestFrom tie m e lead steps

/-- The fewest decimal digits that read back as `m · 2 ^ e`, which is not zero. -/
def shortest (tie : Tie) (m : Nat) (e : Int) : Digits :=
  let (n, d) := ratio m e
  shortestFrom tie m e (leadingExponent n d) 16

/-! ## Writing -/

def sign (negative : Bool) : String :=
  if negative then "-" else ""

def zeros (n : Nat) : List Char :=
  List.replicate n '0'

/-- Digits with a decimal point where it belongs; no point after a whole number. -/
def Digits.positional (d : Digits) : String :=
  let point := Int.ofNat d.digits.length + d.exponent
  if 0 ≤ d.exponent then String.ofList (d.digits ++ zeros d.exponent.toNat)
  else if 0 < point then
    String.ofList (d.digits.take point.toNat ++ ['.'] ++ d.digits.drop point.toNat)
  else String.ofList (['0', '.'] ++ zeros point.natAbs ++ d.digits)

/-- The shortest digits without an exponent. -/
def plain : Binary64 → String
  | .nan => "NaN"
  | .infinite negative => sign negative ++ "inf"
  | .finite negative m e =>
    sign negative ++ if m = 0 then "0" else (shortest .up m e).positional

/-- The exact value to the given number of decimal places. -/
def fixed (places : Nat) : Binary64 → String
  | .nan => "NaN"
  | .infinite negative => sign negative ++ "inf"
  | .finite negative m e =>
    let (n, d) := ratio m e
    let units := roundHalfEven (n * Nat.pow 10 places) d
    let whole := toString (units / Nat.pow 10 places)
    let part := toString (units % Nat.pow 10 places)
    let fraction := if places = 0 then ""
      else "." ++ String.ofList (zeros (places - part.length)) ++ part
    sign negative ++ whole ++ fraction

/-- A JSON number; a whole number keeps one zero after the point. -/
def jsonNumber : Binary64 → String
  | .nan => "null"
  | .infinite _ => "null"
  | .finite negative m e =>
    if m = 0 then sign negative ++ "0.0"
    else
      let d := shortest .even m e
      let point := Int.ofNat d.digits.length + d.exponent
      sign negative ++
        if 0 ≤ d.exponent && point ≤ 16 then d.positional ++ ".0"
        else if -5 < point && point ≤ 16 then d.positional
        else
          let lead := String.ofList (d.digits.take 1)
          let rest := d.digits.drop 1
          let mantissa := if rest.isEmpty then lead else lead ++ "." ++ String.ofList rest
          mantissa ++ "e" ++ toString (point - 1)

end TrialRouting.Binary64
