import TrialRouting.Document.Toml.Text

/-!
# TrialRouting.Document.Toml.Number

Numbers and points in time. An underscore may stand between two digits; an integer has to fit in 64
bits with its sign and has no leading zeros, unless it is written in hexadecimal, octal or binary
digits. A date exists in the calendar, and a minute may have 61 seconds.
-/

namespace TrialRouting.Document.Toml

/-! ## Numbers -/

/-- Digits without the underscores between them. -/
def grouped? (isDigit : Char → Bool) : List Char → Option (List Char)
  | [] => none
  | [c] => if isDigit c then some [c] else none
  | c :: '_' :: rest => if isDigit c then (grouped? isDigit rest).map (c :: ·) else none
  | c :: rest => if isDigit c then (grouped? isDigit rest).map (c :: ·) else none

/-- The sign of a number, and what follows it. -/
def signed : List Char → Bool × List Char
  | '-' :: rest => (true, rest)
  | '+' :: rest => (false, rest)
  | rest => (false, rest)

/-- Decimal digits without a leading zero. -/
def whole? (cs : List Char) : Option (List Char) := do
  let digits ← grouped? Char.isDigit cs
  if digits.head? == some '0' && digits.length != 1 then none else some digits

/-- An integer in the digits of some base. -/
def based? (base : Nat) (cs : List Char) : Option Document := do
  let value? (c : Char) : Option Nat := (Json.hexDigit? c).filter (· < base)
  let digits ← grouped? (fun c => (value? c).isSome) cs
  let n := digits.foldl (fun n c => n * base + (value? c).getD 0) 0
  if n < Nat.pow 2 63 then some (.integer n) else none

/-- An integer. -/
def integer? : List Char → Option Document
  | '0' :: 'x' :: rest => based? 16 rest
  | '0' :: 'o' :: rest => based? 8 rest
  | '0' :: 'b' :: rest => based? 2 rest
  | cs => do
    let (negative, cs) := signed cs
    let n := Binary64.digitsValue (← whole? cs)
    if negative then if n ≤ Nat.pow 2 63 then some (.integer (-Int.ofNat n)) else none
    else if n < Nat.pow 2 63 then some (.integer n) else none

/-- The places after a point, or none. -/
def places? : List Char → Option (List Char)
  | '.' :: rest => grouped? Char.isDigit rest
  | [] => some []
  | _ => none

/-- The exponent after its letter, or none. -/
def exponent? : List Char → Option Int
  | [] => some 0
  | _ :: rest => do
    let (negative, digits) := signed rest
    let n := Int.ofNat (Binary64.digitsValue (← grouped? Char.isDigit digits))
    return if negative then -n else n

/-- A number with a point or an exponent, or one of the words `inf` and `nan`. No finite number is
too large. -/
def decimal? (cs : List Char) : Option Document := do
  let (negative, cs) := signed cs
  if cs = ['i', 'n', 'f'] then return .decimal (.infinite negative)
  else if cs = ['n', 'a', 'n'] then return .decimal .nan
  else
    let isLetter (c : Char) : Bool := c = 'e' || c = 'E'
    let mantissa := cs.takeWhile (!isLetter ·)
    let power := cs.dropWhile (!isLetter ·)
    if power.isEmpty && !mantissa.contains '.' then none
    let digits ← whole? (mantissa.takeWhile (· != '.'))
    let places ← places? (mantissa.dropWhile (· != '.'))
    let shift ← exponent? power
    match Binary64.ofDecimal negative (Binary64.digitsValue (digits ++ places))
        (shift - Int.ofNat places.length) with
    | .infinite false => none
    | x => return .decimal x

/-- A number. -/
def number? (cs : List Char) : Option (Document × List Char) :=
  let isPart (c : Char) : Bool := c.isAlphanum || c = '_' || c = '.' || c = '+' || c = '-'
  let token := cs.takeWhile isPart
  ((integer? token).or (decimal? token)).map (·, cs.dropWhile isPart)

/-! ## Points in time -/

/-- A number of exactly so many digits, within bounds. -/
def field? (width low high : Nat) (cs : List Char) : Option (Nat × List Char) :=
  let digits := cs.take width
  let n := Binary64.digitsValue digits
  if digits.length = width ∧ digits.all Char.isDigit ∧ low ≤ n ∧ n ≤ high then
    some (n, cs.drop width)
  else none

/-- What follows a certain character. -/
def after? (c : Char) : List Char → Option (List Char)
  | c' :: rest => if c' = c then some rest else none
  | [] => none

def daysOfMonth (year month : Nat) : Nat :=
  if month = 2 then if year % 4 = 0 ∧ (year % 100 ≠ 0 ∨ year % 400 = 0) then 29 else 28
  else if month = 4 ∨ month = 6 ∨ month = 9 ∨ month = 11 then 30
  else 31

/-- What follows a date. -/
def skipDate? (cs : List Char) : Option (List Char) := do
  let (year, cs) ← field? 4 0 9999 cs
  let (month, cs) ← field? 2 1 12 (← after? '-' cs)
  let (_, cs) ← field? 2 1 (daysOfMonth year month) (← after? '-' cs)
  return cs

/-- What follows a time of day. -/
def skipTime? (cs : List Char) : Option (List Char) := do
  let (_, cs) ← field? 2 0 23 cs
  let (_, cs) ← field? 2 0 59 (← after? ':' cs)
  let (_, cs) ← field? 2 0 60 (← after? ':' cs)
  match cs with
  | '.' :: rest =>
    if (rest.takeWhile Char.isDigit).isEmpty then return cs else return rest.dropWhile Char.isDigit
  | _ => return cs

/-- What follows the distance from universal time, if there is one. -/
def skipOffset (cs : List Char) : List Char :=
  match cs with
  | 'Z' :: rest => rest
  | 'z' :: rest => rest
  | c :: rest =>
    if c = '+' || c = '-' then
      (do
        let (_, rest) ← field? 2 0 23 rest
        let (_, rest) ← field? 2 0 59 (← after? ':' rest)
        return rest).getD cs
    else cs
  | [] => []

/-- What follows the time after a date, if there is one. -/
def skipTimeOfDate (cs : List Char) : List Char :=
  match cs with
  | c :: rest =>
    if c = 'T' || c = 't' || c = ' ' then ((skipTime? rest).map skipOffset).getD cs else cs
  | [] => []

/-- A date, a time of day or both: a record whose only member holds its text. -/
def moment? (cs : List Char) : Option (Document × List Char) := do
  let rest ← ((skipDate? cs).map skipTimeOfDate).or (skipTime? cs)
  let text := String.ofList (cs.take (cs.length - rest.length))
  return (.record [("$moment", .text text)], rest)

end TrialRouting.Document.Toml
