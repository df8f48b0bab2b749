import TrialRouting.Text.Unprintable

/-!
# TrialRouting.Text.Quoted

Two ways to write a text between double quotes.

* `quoted` is for reading by people: a quote, a backslash, NUL, tab, line feed and carriage return
  get a two-character escape, every other unprintable character its number in braces.
* `jsonQuoted` is a JSON string literal: only the quote, the backslash and the controls below
  U+0020 are escaped, everything else stands for itself.
-/

namespace TrialRouting.Text

/-- Lower-case hexadecimal digits without leading zeros. -/
def hex (n : Nat) : List Char :=
  Nat.toDigits 16 n

/-- Lower-case hexadecimal digits, filled up with zeros to the given width. -/
def hexPadded (width n : Nat) : List Char :=
  List.replicate (width - (hex n).length) '0' ++ hex n

/-! ## Quoted text for people -/

/-- One character of quoted text. -/
def quotedChar (c : Char) : List Char :=
  match c with
  | '\x00' => ['\\', '0']
  | '\t' => ['\\', 't']
  | '\n' => ['\\', 'n']
  | '\r' => ['\\', 'r']
  | '"' => ['\\', '"']
  | '\\' => ['\\', '\\']
  | c => if isUnprintable c then ['\\', 'u', '\x7b'] ++ hex c.toNat ++ ['\x7d'] else [c]

/-- The text between double quotes, with every unprintable character escaped. -/
def quoted (s : String) : String :=
  String.ofList ('"' :: s.toList.flatMap quotedChar ++ ['"'])

/-! ## JSON string literals -/

/-- One character of a JSON string literal. -/
def jsonChar (c : Char) : List Char :=
  match c with
  | '"' => ['\\', '"']
  | '\\' => ['\\', '\\']
  | '\x08' => ['\\', 'b']
  | '\t' => ['\\', 't']
  | '\n' => ['\\', 'n']
  | '\x0c' => ['\\', 'f']
  | '\r' => ['\\', 'r']
  | c => if c.toNat < 0x20 then ['\\', 'u'] ++ hexPadded 4 c.toNat else [c]

/-- The text as a JSON string literal. -/
def jsonQuoted (s : String) : String :=
  String.ofList ('"' :: s.toList.flatMap jsonChar ++ ['"'])

end TrialRouting.Text
