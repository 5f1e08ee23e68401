/-!
# Classes of characters

A set of characters is an array of ranges of code points, ends included, in ascending order.  The
blank characters and the digits are such sets.
-/

namespace CanisterShell.Text

def inRanges (ranges : Array (Nat × Nat)) (c : Char) : Bool :=
  ranges.any fun r => r.1 ≤ c.toNat && c.toNat ≤ r.2

/-!
## Blanks and lines

Blank characters are those of Unicode's white space and the four separators of ASCII.  A text is
split into lines at every character that ends one, a carriage return and the line feed behind it
counting as a single end.
-/

/-- The code points of blank characters. -/
def blankRanges : Array (Nat × Nat) := #[
  (9, 13), (28, 32), (133, 133), (160, 160), (5760, 5760), (8192, 8202), (8232, 8233),
  (8239, 8239), (8287, 8287), (12288, 12288)]

def isBlank (c : Char) : Bool := inRanges blankRanges c

/-- The characters without the blanks in front. -/
def trimLeft (cs : List Char) : List Char := cs.dropWhile isBlank

/-- The characters without the blanks at the end. -/
def trimRight (cs : List Char) : List Char := (trimLeft cs.reverse).reverse

/-- The text without the blanks at both ends. -/
def trim (text : String) : String := String.ofList (trimRight (trimLeft text.toList))

def endsLine (c : Char) : Bool :=
  c = '\n' || c = '\r' || c = '\x0b' || c = '\x0c' || c = '\x1c' || c = '\x1d' || c = '\x1e' ||
    c = '\u0085' || c = '\u2028' || c = '\u2029'

/-- The lines of a text, where `line` holds the characters of the current one, last first. -/
def splitLines (line : List Char) : List Char → List (List Char)
  | [] => if line.isEmpty then [] else [line.reverse]
  | '\r' :: '\n' :: rest => line.reverse :: splitLines [] rest
  | c :: rest =>
    if endsLine c then line.reverse :: splitLines [] rest else splitLines (c :: line) rest

/-- The lines of a text, without their ends; nothing follows the last end. -/
def lines (text : String) : List String := (splitLines [] text.toList).map String.ofList

/-- Every end of line that files hold (`\r\n` and `\r`) becomes a line feed. -/
def unifyNewlines : List Char → List Char
  | '\r' :: '\n' :: rest => '\n' :: unifyNewlines rest
  | '\r' :: rest => '\n' :: unifyNewlines rest
  | c :: rest => c :: unifyNewlines rest
  | [] => []

/-!
## Digits

The decimal digits of all scripts, each script holding ten in a row, and the characters that are
digits but have no place in a decimal number (raised, circled and the like), as Unicode 14 has them.
-/

/-- The code point of the digit zero in each script. -/
def zeroDigits : Array Nat := #[
  48, 1632, 1776, 1984, 2406, 2534, 2662, 2790, 2918, 3046, 3174, 3302, 3430, 3558, 3664, 3792,
  3872, 4160, 4240, 6112, 6160, 6470, 6608, 6784, 6800, 6992, 7088, 7232, 7248, 42528, 43216,
  43264, 43472, 43504, 43600, 44016, 65296, 66720, 68912, 69734, 69872, 69942, 70096, 70384,
  70736, 70864, 71248, 71360, 71472, 71904, 72016, 72784, 73040, 73120, 92768, 92864, 93008,
  120782, 120792, 120802, 120812, 120822, 123200, 123632, 125264, 130032]

/-- The code points of digits that form no decimal numbers. -/
def otherDigitRanges : Array (Nat × Nat) := #[
  (178, 179), (185, 185), (4969, 4977), (6618, 6618), (8304, 8304), (8308, 8313), (8320, 8329),
  (9312, 9320), (9332, 9340), (9352, 9360), (9450, 9450), (9461, 9469), (9471, 9471),
  (10102, 10110), (10112, 10120), (10122, 10130), (68160, 68163), (69216, 69224), (69714, 69722),
  (127232, 127242)]

def decimalValue? (c : Char) : Option Nat :=
  (zeroDigits.find? (fun z => z ≤ c.toNat && c.toNat < z + 10)).map (c.toNat - ·)

/-- A digit, with or without a place in decimal numbers. -/
def isDigit (c : Char) : Bool := (decimalValue? c).isSome || inRanges otherDigitRanges c

def decimalNumber? (digits : List Char) : Option Nat :=
  digits.foldlM (fun acc c => (decimalValue? c).map (10 * acc + ·)) 0

end CanisterShell.Text
