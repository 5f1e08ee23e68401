import CanisterShell.Document.Datum
import CanisterShell.Syntax.Literal

/-!
# JSON

Reading and writing plain data as JSON.  The reader also takes the names of the numbers that are not
finite, and of two entries for a key the later one holds.  The writer escapes everything beyond
printable ASCII; it sets all on one line, or indents by two spaces a level.
-/

namespace CanisterShell.Json

/-! ## Reading -/

/-- A blank between tokens. -/
def isBlank (c : Char) : Bool := c = ' ' || c = '\n' || c = '\r' || c = '\t'

def skip (cs : List Char) : List Char := cs.dropWhile isBlank

def fourDigits? : List Char → Option (Nat × List Char)
  | a :: b :: c :: d :: rest => do
    let n ← [a, b, c, d].foldlM (fun n c => (Bytes.hexValue? c).map (16 * n + ·)) 0
    return (n, rest)
  | _ => none

/-- The first and the second half of a character beyond the basic plane. -/
def isHighHalf (n : Nat) : Bool := 0xD800 ≤ n && n < 0xDC00
def isLowHalf (n : Nat) : Bool := 0xDC00 ≤ n && n < 0xE000

/-- The character of a code, a half without its partner becoming U+FFFD. -/
def charOf (n : Nat) : Char := if Literal.isScalar n then Char.ofNat n else '\uFFFD'

/-- The character of an escape by number, whose digits stand in front. -/
def numericEscape? (cs : List Char) : Option (Char × List Char) := do
  let (high, rest) ← fourDigits? cs
  match rest with
  | '\\' :: 'u' :: rest' =>
    if isHighHalf high then
      let (low, rest'') ← fourDigits? rest'
      if isLowHalf low then
        return (Char.ofNat (0x10000 + (high - 0xD800) * 0x400 + (low - 0xDC00)), rest'')
      else return (charOf high, rest)
    else return (charOf high, rest)
  | _ => return (charOf high, rest)

def letterEscape? (c : Char) : Option Char :=
  if c = '"' || c = '\\' || c = '/' then some c
  else if c = 'b' then some '\x08'
  else if c = 'f' then some '\x0c'
  else if c = 'n' then some '\n'
  else if c = 'r' then some '\r'
  else if c = 't' then some '\t'
  else none

/-- The characters of a text behind its opening quote, and what follows its closing quote. -/
def text? : (fuel : Nat) → List Char → Option (List Char × List Char)
  | 0, _ => none
  | _, [] => none
  | _ + 1, '"' :: rest => some ([], rest)
  | fuel + 1, '\\' :: 'u' :: rest => do
    let (c, rest) ← numericEscape? rest
    let (cs, rest) ← text? fuel rest
    return (c :: cs, rest)
  | fuel + 1, '\\' :: e :: rest => do
    let c ← letterEscape? e
    let (cs, rest) ← text? fuel rest
    return (c :: cs, rest)
  | fuel + 1, c :: rest =>
    if c.toNat < 0x20 || c = '\\' then none
    else do
      let (cs, rest) ← text? fuel rest
      return (c :: cs, rest)

/-- The part of a number behind the digits of its whole part. -/
def fractionLength (cs : List Char) : Nat :=
  match cs with
  | '.' :: rest =>
    let n := (rest.takeWhile Char.isDigit).length
    if n = 0 then 0 else n + 1
  | _ => 0

def exponentLength (cs : List Char) : Nat :=
  match cs with
  | e :: rest =>
    if e = 'e' || e = 'E' then
      let sign := match rest with
        | s :: _ => if s = '+' || s = '-' then 1 else 0
        | [] => 0
      let n := ((rest.drop sign).takeWhile Char.isDigit).length
      if n = 0 then 0 else 1 + sign + n
    else 0
  | [] => 0

/-- The length of the whole part of a number: zero, or digits that do not begin with it. -/
def wholeLength (cs : List Char) : Nat :=
  match cs with
  | '0' :: _ => 1
  | _ => (cs.takeWhile Char.isDigit).length

/-- A number in front; without a fraction and an exponent it is whole. -/
def number? (cs : List Char) : Option (Datum × List Char) :=
  let sign := match cs with
    | '-' :: _ => 1
    | _ => 0
  let whole := wholeLength (cs.drop sign)
  if whole = 0 then none
  else
    let fraction := fractionLength (cs.drop (sign + whole))
    let exponent := exponentLength (cs.drop (sign + whole + fraction))
    let length := sign + whole + fraction + exponent
    let token := cs.take length
    if fraction + exponent = 0 then (Literal.int? token).map fun n => (.int n, cs.drop length)
    else (Literal.double? token).map fun x => (.float x, cs.drop length)

/-- The rest behind a word in front. -/
def word? (word : String) (cs : List Char) : Option (List Char) :=
  if word.toList.isPrefixOf cs then some (cs.drop word.length) else none

/-- A value that is a word or a number. -/
def scalar? (cs : List Char) : Option (Datum × List Char) :=
  ((word? "null" cs).map (.null, ·))
  <|> ((word? "true" cs).map (.bool true, ·))
  <|> ((word? "false" cs).map (.bool false, ·))
  <|> ((word? "NaN" cs).map (.float .nanRead, ·))
  <|> ((word? "Infinity" cs).map (.float (.infinity false), ·))
  <|> ((word? "-Infinity" cs).map (.float (.infinity true), ·))
  <|> number? cs

mutual

/-- A value in front, without blanks before it. -/
def value? : (fuel : Nat) → List Char → Option (Datum × List Char)
  | 0, _ => none
  | fuel + 1, cs =>
    match cs with
    | '"' :: rest => (text? fuel rest).map fun (s, rest) => (.text (String.ofList s), rest)
    | '[' :: rest =>
      match skip rest with
      | ']' :: rest => some (.list [], rest)
      | rest => (items? fuel rest).map fun (items, rest) => (.list items, rest)
    | '\x7b' :: rest =>
      match skip rest with
      | '\x7d' :: rest => some (.map [], rest)
      | rest => (entries? fuel rest).map fun (entries, rest) => (Datum.ofEntries entries, rest)
    | cs => scalar? cs

def items? : (fuel : Nat) → List Char → Option (List Datum × List Char)
  | 0, _ => none
  | fuel + 1, cs => do
    let (v, rest) ← value? fuel cs
    match skip rest with
    | ']' :: rest => return ([v], rest)
    | ',' :: rest =>
      let (vs, rest) ← items? fuel (skip rest)
      return (v :: vs, rest)
    | _ => none

/-- The entries of a map that is not empty, up to its end. -/
def entries? : (fuel : Nat) → List Char → Option (List (Datum × Datum) × List Char)
  | 0, _ => none
  | fuel + 1, cs => do
    match cs with
    | '"' :: rest =>
      let (key, rest) ← text? fuel rest
      match skip rest with
      | ':' :: rest =>
        let (v, rest) ← value? fuel (skip rest)
        let entry := (Datum.text (String.ofList key), v)
        match skip rest with
        | '\x7d' :: rest => return ([entry], rest)
        | ',' :: rest =>
          let (entries, rest) ← entries? fuel (skip rest)
          return (entry :: entries, rest)
        | _ => none
      | _ => none
    | _ => none

end

def read? (text : String) : Option Datum := do
  let cs := text.toList
  let (v, rest) ← value? (2 * cs.length + 2) (skip cs)
  if (skip rest).isEmpty then return v else none

/-! ## Writing -/

/-- An escape by number of a code of at most 16 bits. -/
def escapeCode (n : Nat) : List Char := '\\' :: 'u' :: Text.hexDigits 4 n

/-- A character inside a text. -/
def quoteChar (c : Char) : List Char :=
  if c = '"' then ['\\', '"']
  else if c = '\\' then ['\\', '\\']
  else if c = '\n' then ['\\', 'n']
  else if c = '\r' then ['\\', 'r']
  else if c = '\t' then ['\\', 't']
  else if c = '\x08' then ['\\', 'b']
  else if c = '\x0c' then ['\\', 'f']
  else if 0x20 ≤ c.toNat && c.toNat < 0x7F then [c]
  else if c.toNat < 0x10000 then escapeCode c.toNat
  else
    let n := c.toNat - 0x10000
    escapeCode (0xD800 + n / 0x400) ++ escapeCode (0xDC00 + n % 0x400)

def quote (s : String) : String := String.ofList ('"' :: s.toList.flatMap quoteChar ++ ['"'])

/-- A number that need not be finite. -/
def floatText (x : Double) : String :=
  if x.isNaN then "NaN"
  else if x.isInfinite then x.signText ++ "Infinity"
  else x.toText

def keyText : Datum → String
  | .text s => quote s
  | .bool b => if b then "\"true\"" else "\"false\""
  | .null => "\"null\""
  | d => quote d.plain

/-- How the parts of a container are set: what stands behind the opening bracket, between two parts
and before the closing bracket, by the level of nesting. -/
structure Style where
  opening : Nat → String
  between : Nat → String
  closing : Nat → String

/-- All on one line. -/
def onOneLine : Style := ⟨fun _ => "", fun _ => ", ", fun _ => ""⟩

def newLine (level : Nat) : String := String.ofList ('\n' :: List.replicate (2 * level) ' ')

/-- A part a line. -/
def indented : Style :=
  ⟨fun level => newLine (level + 1), fun level => "," ++ newLine (level + 1), newLine⟩

/-- A container from the texts of its parts. -/
def bracketed (style : Style) (level : Nat) (left right : String) (parts : List String) : String :=
  if parts.isEmpty then left ++ right
  else left ++ style.opening level ++ (style.between level).intercalate parts
    ++ style.closing level ++ right

mutual

def write (style : Style) (level : Nat) : Datum → String
  | .null => "null"
  | .bool b => if b then "true" else "false"
  | .int n => toString n
  | .float x => floatText x
  | .text s => quote s
  | .list items => bracketed style level "[" "]" (writeItems style (level + 1) items)
  | .map entries => bracketed style level "\x7b" "\x7d" (writeEntries style (level + 1) entries)
  | .frozen d => write style level d
  | .bytes _ | .other _ => "null"

def writeItems (style : Style) (level : Nat) : List Datum → List String
  | [] => []
  | d :: rest => write style level d :: writeItems style level rest

def writeEntries (style : Style) (level : Nat) : List (Datum × Datum) → List String
  | [] => []
  | (k, v) :: rest => (keyText k ++ ": " ++ write style level v) :: writeEntries style level rest

end

end CanisterShell.Json
