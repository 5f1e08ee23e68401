import CanisterShell.Bytes
import CanisterShell.Text.Printable

/-!
# Texts shown in messages

Messages show a text between quotes: single ones, unless the text holds a single quote and no double
one.  Backslashes and the quote in use are escaped, line ends and tabs have letters, and a character
that does not print is written by its code point in two, four or eight hexadecimal digits.
-/

namespace CanisterShell.Text

def hexDigits : (width n : Nat) → List Char
  | 0, _ => []
  | width + 1, n => hexDigits width (n / 16) ++ [Bytes.hexDigit (n % 16)]

/-- A character inside a display quoted with `quote`. -/
def quotedChar (quote c : Char) : List Char :=
  if c = quote || c = '\\' then ['\\', c]
  else if c = '\n' then ['\\', 'n']
  else if c = '\r' then ['\\', 'r']
  else if c = '\t' then ['\\', 't']
  else if isPrintable c then [c]
  else if c.toNat < 0x100 then '\\' :: 'x' :: hexDigits 2 c.toNat
  else if c.toNat < 0x10000 then '\\' :: 'u' :: hexDigits 4 c.toNat
  else '\\' :: 'U' :: hexDigits 8 c.toNat

/-- The display of a text in a message. -/
def quoted (text : String) : String :=
  let cs := text.toList
  let quote := if cs.contains '\'' && !cs.contains '"' then '"' else '\''
  String.ofList (quote :: cs.flatMap (quotedChar quote) ++ [quote])

/-- A byte inside a display of bytes quoted with `quote`. -/
def quotedByte (quote : Char) (b : UInt8) : List Char :=
  let c := Char.ofNat b.toNat
  if c = quote || c = '\\' then ['\\', c]
  else if c = '\n' then ['\\', 'n']
  else if c = '\r' then ['\\', 'r']
  else if c = '\t' then ['\\', 't']
  else if 0x20 ≤ b && b < 0x7F then [c]
  else '\\' :: 'x' :: hexDigits 2 b.toNat

def quotedBytes (bytes : Bytes) : String :=
  let quote := if bytes.contains 39 && !bytes.contains 34 then '"' else '\''
  String.ofList ('b' :: quote :: bytes.flatMap (quotedByte quote) ++ [quote])

end CanisterShell.Text
