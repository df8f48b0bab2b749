import TrialRouting.Document.Json

/-!
# TrialRouting.Document.Toml.Text

The characters of a TOML text: blanks, comments, strings and keys.

Strings come in four forms: with or without escapes, on one line or over several. Over several
lines a run of one or two quotes is text, the first line break is dropped, and a backslash at the
end of a line drops the break and all blanks after it. Controls other than the tab are not allowed
anywhere.

Every reader takes a list of characters and returns what is left of it.
-/

namespace TrialRouting.Document.Toml

/-! ## Blanks and comments -/

def isBlank (c : Char) : Bool :=
  c = ' ' || c = '\t'

/-- The characters after leading blanks. -/
def skipBlanks (cs : List Char) : List Char :=
  cs.dropWhile isBlank

/-- What follows a line break. -/
def newline? : List Char → Option (List Char)
  | '\n' :: rest => some rest
  | '\r' :: '\n' :: rest => some rest
  | _ => none

/-- A character that may stand for itself in a comment or a string. -/
def isPlain (c : Char) : Bool :=
  c = '\t' || (0x20 ≤ c.toNat && c.toNat != 0x7f)

/-- What follows blanks and a comment. -/
def skipComment (cs : List Char) : List Char :=
  match skipBlanks cs with
  | '#' :: rest => rest.dropWhile isPlain
  | cs => cs

/-- What follows the rest of a line that holds nothing but a comment. -/
def endLine? (cs : List Char) : Option (List Char) :=
  match skipComment cs with
  | [] => some []
  | cs => newline? cs

/-- What follows blanks, line breaks and comments; the first argument tells whether a comment is
open. -/
def skipFiller (comment : Bool) : List Char → List Char
  | '\n' :: rest => skipFiller false rest
  | '\r' :: '\n' :: rest => skipFiller false rest
  | c :: rest =>
    if comment then if isPlain c then skipFiller true rest else c :: rest
    else if isBlank c then skipFiller false rest
    else if c = '#' then skipFiller true rest
    else c :: rest
  | [] => []

/-- What follows blanks and line breaks. -/
def skipBlankLines : List Char → List Char
  | '\n' :: rest => skipBlankLines rest
  | '\r' :: '\n' :: rest => skipBlankLines rest
  | c :: rest => if isBlank c then skipBlankLines rest else c :: rest
  | [] => []

/-! ## Escapes -/

/-- The number of as many hexadecimal digits as are asked for. -/
def hexDigits? : Nat → Nat → List Char → Option (Nat × List Char)
  | 0, n, cs => some (n, cs)
  | count + 1, n, c :: cs => do hexDigits? count (n * 16 + (← Json.hexDigit? c)) cs
  | _ + 1, _, [] => none

/-- A character by its number in so many digits. -/
def numbered? (count : Nat) (cs : List Char) : Option (Char × List Char) := do
  let (n, rest) ← hexDigits? count 0 cs
  if n < 0xd800 || (0xe000 ≤ n && n < 0x110000) then return (Char.ofNat n, rest) else none

/-- The character that stands for what follows a backslash. -/
def escape? : List Char → Option (Char × List Char)
  | 'u' :: rest => numbered? 4 rest
  | 'U' :: rest => numbered? 8 rest
  | '/' :: _ => none
  | c :: rest => (Json.simpleEscape? c).map (·, rest)
  | [] => none

/-! ## Strings -/

/-- The characters of a string on one line up to its closing quote, newest first. The first
argument bounds the number of steps. -/
def lineChars? (escapes : Bool) (quote : Char) :
    Nat → List Char → List Char → Option (List Char × List Char)
  | 0, _, _ => none
  | _ + 1, _, [] => none
  | steps + 1, acc, c :: rest =>
    if c = quote then some (acc, rest)
    else if escapes && c = '\\' then do
      let (c, rest) ← escape? rest
      lineChars? escapes quote steps (c :: acc) rest
    else if isPlain c then lineChars? escapes quote steps (c :: acc) rest
    else none

/-- The characters of a string over several lines up to its closing quotes, newest first. -/
def blockChars? (escapes : Bool) (quote : Char) :
    Nat → List Char → List Char → Option (List Char × List Char)
  | 0, _, _ => none
  | _ + 1, _, [] => none
  | steps + 1, acc, c :: rest =>
    if c = quote then
      let quotes := (c :: rest).takeWhile (· = quote)
      let rest := (c :: rest).dropWhile (· = quote)
      if quotes.length < 3 then blockChars? escapes quote steps (quotes ++ acc) rest
      else if quotes.length ≤ 5 then some (quotes.drop 3 ++ acc, rest)
      else none
    else if escapes && c = '\\' then
      match newline? (skipBlanks rest) with
      | some rest => blockChars? escapes quote steps acc (skipBlankLines rest)
      | none => do
        let (c, rest) ← escape? rest
        blockChars? escapes quote steps (c :: acc) rest
    else
      match newline? (c :: rest) with
      | some rest => blockChars? escapes quote steps ('\n' :: acc) rest
      | none => if isPlain c then blockChars? escapes quote steps (c :: acc) rest else none

/-- The text of some characters, newest first. -/
def collect (read : Option (List Char × List Char)) : Option (String × List Char) :=
  read.map fun (acc, rest) => (String.ofList acc.reverse, rest)

/-- A string on one line, at its opening quote. -/
def lineString? : List Char → Option (String × List Char)
  | '"' :: rest => collect (lineChars? true '"' (rest.length + 1) [] rest)
  | '\'' :: rest => collect (lineChars? false '\'' (rest.length + 1) [] rest)
  | _ => none

/-- A string over several lines, after its opening quotes. -/
def blockString? (escapes : Bool) (quote : Char) (cs : List Char) : Option (String × List Char) :=
  let cs := (newline? cs).getD cs
  collect (blockChars? escapes quote (cs.length + 1) [] cs)

/-- A string in any form. -/
def string? (cs : List Char) : Option (String × List Char) :=
  match cs with
  | '"' :: '"' :: '"' :: rest => blockString? true '"' rest
  | '\'' :: '\'' :: '\'' :: rest => blockString? false '\'' rest
  | _ => lineString? cs

/-! ## Keys -/

/-- A character of a key without quotes. -/
def isBare (c : Char) : Bool :=
  c.isAlphanum || c = '_' || c = '-'

/-- One part of a key. -/
def keyPart? (cs : List Char) : Option (String × List Char) :=
  match cs with
  | c :: _ =>
    if c = '"' || c = '\'' then lineString? cs
    else if isBare c then some (String.ofList (cs.takeWhile isBare), cs.dropWhile isBare)
    else none
  | [] => none

/-- The parts of a key after the first, each after a point. -/
def keyParts? : Nat → List Char → Option (List String × List Char)
  | 0, _ => none
  | steps + 1, cs =>
    match skipBlanks cs with
    | '.' :: rest => do
      let (part, rest) ← keyPart? (skipBlanks rest)
      let (parts, rest) ← keyParts? steps rest
      return (part :: parts, rest)
    | cs => some ([], cs)

/-- A key with blanks around it, as its path and its last part. A key has fewer than 80 parts. -/
def key? (cs : List Char) : Option ((List String × String) × List Char) := do
  let (part, rest) ← keyPart? (skipBlanks cs)
  let (parts, rest) ← keyParts? (rest.length + 1) rest
  let all := part :: parts
  if all.length < 80 then return ((all.dropLast, all.getLastD part), rest) else none

end TrialRouting.Document.Toml
