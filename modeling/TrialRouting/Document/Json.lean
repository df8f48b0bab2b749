import TrialRouting.Document.Basic

/-!
# TrialRouting.Document.Json

Reads a JSON text as a document. A number without a fraction and an exponent that fits in 64 bits,
signed or unsigned, is an integer, every other number a decimal; negative zero is a decimal. A
decimal is rounded twice: its leading digits, as many as fit in 64 bits, are rounded to a double,
and then the product or quotient of that with a power of ten (`scaled?`). Escaped surrogates have
to come in pairs, and arrays and objects may be nested up to 127 deep. Of members of one name the
last one counts.

Every reader takes a list of characters and returns what is left of it.
-/

namespace TrialRouting.Document.Json

/-- The characters after leading blanks. -/
def skipBlanks (cs : List Char) : List Char :=
  cs.dropWhile fun c => c = ' ' || c = '\t' || c = '\n' || c = '\r'

/-! ## Strings -/

/-- The value of a hexadecimal digit of either case. -/
def hexDigit? (c : Char) : Option Nat :=
  if c.isDigit then some (c.toNat - 48)
  else if 'a' ≤ c ∧ c ≤ 'f' then some (c.toNat - 87)
  else if 'A' ≤ c ∧ c ≤ 'F' then some (c.toNat - 55)
  else none

/-- The number of four hexadecimal digits. -/
def hex4? : List Char → Option (Nat × List Char)
  | a :: b :: c :: d :: rest => do
    let a ← hexDigit? a
    let b ← hexDigit? b
    let c ← hexDigit? c
    let d ← hexDigit? d
    return (((a * 16 + b) * 16 + c) * 16 + d, rest)
  | _ => none

/-- What a one-letter escape stands for. -/
def simpleEscape? (c : Char) : Option Char :=
  match c with
  | '"' => some '"'
  | '\\' => some '\\'
  | '/' => some '/'
  | 'b' => some '\x08'
  | 'f' => some '\x0c'
  | 'n' => some '\n'
  | 'r' => some '\r'
  | 't' => some '\t'
  | _ => none

/-- A character by its number, after the letter `u`; a high surrogate needs its low one. -/
def numberedEscape? (cs : List Char) : Option (Char × List Char) := do
  let (n, rest) ← hex4? cs
  if 0xd800 ≤ n ∧ n < 0xdc00 then
    match rest with
    | '\\' :: 'u' :: rest =>
      let (low, rest) ← hex4? rest
      if 0xdc00 ≤ low ∧ low < 0xe000 then
        return (Char.ofNat (0x10000 + (n - 0xd800) * 0x400 + (low - 0xdc00)), rest)
      else none
    | _ => none
  else if 0xdc00 ≤ n ∧ n < 0xe000 then none
  else return (Char.ofNat n, rest)

/-- The characters of a string up to its closing quote, newest first. The first argument bounds the
number of steps. -/
def stringChars? : Nat → List Char → List Char → Option (List Char × List Char)
  | 0, _, _ => none
  | steps + 1, acc, cs =>
    match cs with
    | '"' :: rest => some (acc, rest)
    | '\\' :: 'u' :: rest => do
      let (c, rest) ← numberedEscape? rest
      stringChars? steps (c :: acc) rest
    | '\\' :: c :: rest => do
      let c ← simpleEscape? c
      stringChars? steps (c :: acc) rest
    | c :: rest => if c.toNat < 0x20 || c = '\\' then none else stringChars? steps (c :: acc) rest
    | [] => none

/-- A string after its opening quote. -/
def string? (cs : List Char) : Option (String × List Char) :=
  (stringChars? (cs.length + 1) [] cs).map fun (acc, rest) => (String.ofList acc.reverse, rest)

/-! ## Numbers -/

/-- Appends digits to a number while it fits in 64 bits: the number, and how many were appended. -/
def absorb : Nat → List Char → Nat × Nat
  | n, [] => (n, 0)
  | n, c :: cs =>
    let n' := n * 10 + (c.toNat - 48)
    if n' < UInt64.size then
      let (n, taken) := absorb n' cs
      (n, taken + 1)
    else (n, 0)

/-- A power of ten as a double. -/
def tenTo (k : Nat) : Binary64 :=
  .ofNat (Nat.pow 10 k)

/-- A double times a power of ten, rounded; it must not be too large. A quotient with a power that
is no double itself is taken in two steps, and beyond those it is zero. -/
def scaled? (negative : Bool) (n : Nat) (exponent : Int) : Option Binary64 :=
  let x := Binary64.ofRatio negative n 1
  let k := exponent.natAbs
  if n = 0 then some x
  else if 0 ≤ exponent then
    if 308 < k then none
    else
      match x.mul (tenTo k) with
      | .infinite _ => none
      | y => some y
  else if k ≤ 308 then some (x.div (tenTo k))
  else if k ≤ 616 then some ((x.div (tenTo 308)).div (tenTo (k - 308)))
  else some (.ofRatio negative 0 1)

/-- The number with the given digits before and after its point, and an exponent. -/
def decimal? (negative : Bool) (whole places : List Char) (exponent : Int) : Option Binary64 :=
  let (n, taken) := absorb 0 whole
  let (n, appended) := absorb n places
  scaled? negative n (exponent + Int.ofNat (whole.length - taken) - Int.ofNat appended)

/-- The number that some digits stand for: an integer if it fits in 64 bits. -/
def wholeNumber? (negative : Bool) (digits : List Char) : Option Document :=
  let n := Binary64.digitsValue digits
  if negative && n != 0 && n ≤ Nat.pow 2 63 then some (.integer (-Int.ofNat n))
  else if !negative && n < UInt64.size then some (.integer n)
  else (decimal? negative digits [] 0).map .decimal

/-- A fraction after its point: at least one digit. -/
def fraction? (cs : List Char) : Option (List Char × List Char) :=
  match cs with
  | '.' :: rest =>
    let digits := rest.takeWhile Char.isDigit
    if digits.isEmpty then none else some (digits, rest.dropWhile Char.isDigit)
  | rest => some ([], rest)

/-- An exponent after its letter: an optional sign and at least one digit. -/
def exponent? (cs : List Char) : Option (Option Int × List Char) :=
  match cs with
  | c :: rest =>
    if c = 'e' || c = 'E' then
      let (negative, rest) := match rest with
        | '-' :: r => (true, r)
        | '+' :: r => (false, r)
        | r => (false, r)
      let digits := rest.takeWhile Char.isDigit
      if digits.isEmpty then none
      else
        let n := Int.ofNat (Binary64.digitsValue digits)
        some (some (if negative then -n else n), rest.dropWhile Char.isDigit)
    else some (none, cs)
  | [] => some (none, [])

/-- A number: no leading zeros, digits on both sides of a point. -/
def number? (cs : List Char) : Option (Document × List Char) := do
  let (negative, cs) := match cs with
    | '-' :: r => (true, r)
    | r => (false, r)
  let digits := cs.takeWhile Char.isDigit
  let rest := cs.dropWhile Char.isDigit
  if digits.isEmpty || (digits.head? == some '0' && digits.length != 1) then none
  let (places, rest) ← fraction? rest
  let (exponent, rest) ← exponent? rest
  let number ← match places, exponent with
    | [], none => wholeNumber? negative digits
    | _, _ => (decimal? negative digits places (exponent.getD 0)).map Document.decimal
  return (number, rest)

/-! ## Values -/

/-- A word of JSON. -/
def word? (cs : List Char) : Option (Document × List Char) :=
  if "null".toList.isPrefixOf cs then some (.null, cs.drop 4)
  else if "true".toList.isPrefixOf cs then some (.bool true, cs.drop 4)
  else if "false".toList.isPrefixOf cs then some (.bool false, cs.drop 5)
  else none

/-- The items of an array after its opening bracket, newest first, with `value?` reading one.
The first argument bounds the number of steps. -/
def items? (value? : List Char → Option (Document × List Char)) :
    Nat → List Document → List Char → Option (Document × List Char)
  | 0, _, _ => none
  | steps + 1, acc, cs => do
    let (d, rest) ← value? (skipBlanks cs)
    match skipBlanks rest with
    | ',' :: rest => items? value? steps (d :: acc) rest
    | ']' :: rest => return (.list (d :: acc).reverse, rest)
    | _ => none

/-- Members of which each name occurs once, with the value that was given last. -/
def lastOfEach (members : List (String × Document)) : List (String × Document) :=
  members.foldl (fun kept m => kept.filter (·.1 != m.1) ++ [m]) []

/-- The members of an object after its opening brace, newest first. -/
def members? (value? : List Char → Option (Document × List Char)) :
    Nat → List (String × Document) → List Char → Option (Document × List Char)
  | 0, _, _ => none
  | steps + 1, acc, cs => do
    match skipBlanks cs with
    | '"' :: rest =>
      let (name, rest) ← string? rest
      match skipBlanks rest with
      | ':' :: rest =>
        let (d, rest) ← value? (skipBlanks rest)
        match skipBlanks rest with
        | ',' :: rest => members? value? steps ((name, d) :: acc) rest
        | '\x7d' :: rest => return (.record (lastOfEach ((name, d) :: acc).reverse), rest)
        | _ => none
      | _ => none
    | _ => none

/-- A value nested at most `depth` deep, without leading blanks. -/
def value? : Nat → List Char → Option (Document × List Char)
  | depth, cs =>
    match cs with
    | '[' :: rest =>
      match depth with
      | 0 => none
      | depth + 1 =>
        match skipBlanks rest with
        | ']' :: rest => some (.list [], rest)
        | _ => items? (value? depth) rest.length [] rest
    | '\x7b' :: rest =>
      match depth with
      | 0 => none
      | depth + 1 =>
        match skipBlanks rest with
        | '\x7d' :: rest => some (.record [], rest)
        | _ => members? (value? depth) rest.length [] rest
    | '"' :: rest => (string? rest).map fun (s, rest) => (.text s, rest)
    | c :: _ => if c = '-' || c.isDigit then number? cs else word? cs
    | [] => none

/-- A whole JSON text. -/
def parse? (s : String) : Option Document := do
  let (d, rest) ← value? 127 (skipBlanks s.toList)
  if (skipBlanks rest).isEmpty then return d else none

end TrialRouting.Document.Json
