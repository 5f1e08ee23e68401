import CanisterShell.Document.Datum
import CanisterShell.Syntax.Literal

/-!
# TOML

Reading plain data from TOML.  A document is a sequence of lines that set a key or open a table.
Which tables and keys have been settled is remembered, so that nothing is defined twice: a table
that has been opened is not opened again, and a value given as a whole is not added to.
-/

namespace CanisterShell.Toml

/-- A reader takes characters off the front. -/
abbrev Reader (α : Type) : Type := StateT (List Char) Option α

def takeWhile (p : Char → Bool) : Reader (List Char) := fun cs =>
  some (cs.takeWhile p, cs.dropWhile p)

/-- Skips a word in front and says whether it stood there. -/
def accept (word : String) : Reader Bool := fun cs =>
  if word.toList.isPrefixOf cs then some (true, cs.drop word.length) else some (false, cs)

/-- Skips a word that has to stand in front. -/
def expect (word : String) : Reader Unit := do if !(← accept word) then failure

def peek? : Reader (Option Char) := do return (← get).head?

/-! ## Blanks, comments and keys -/

def isBlank (c : Char) : Bool := c = ' ' || c = '\t'

/-- A control character, other than the tab. -/
def isControl (c : Char) : Bool := (c.toNat < 0x20 && c ≠ '\t') || c = '\x7f'

def blanks : Reader Unit := do let _ ← takeWhile isBlank

/-- A comment, if one stands in front. -/
def comment : Reader Unit := do
  if (← peek?) = some '#' then
    if (← takeWhile (· ≠ '\n')).any isControl then failure

/-- Blanks, comments and line ends between the items of a list. -/
def gaps : (fuel : Nat) → Reader Unit
  | 0 => return
  | fuel + 1 => do
    let _ ← takeWhile fun c => isBlank c || c = '\n'
    if (← peek?) = some '#' then
      comment
      gaps fuel

def isBareKeyChar (c : Char) : Bool := c.isAlphanum || c = '-' || c = '_'

/-! ## Texts -/

/-- The character of so many hexadecimal digits. -/
def numericEscape (width : Nat) : Reader Char := fun cs =>
  let digits := cs.take width
  if digits.length = width && digits.all fun c => (Bytes.hexValue? c).isSome then
    let n := Literal.hexNumber digits
    if Literal.isScalar n then some (Char.ofNat n, cs.drop width) else none
  else none

def letterEscape? (c : Char) : Option Char :=
  if c = '"' || c = '\\' then some c
  else if c = 'b' then some '\x08'
  else if c = 't' then some '\t'
  else if c = 'n' then some '\n'
  else if c = 'f' then some '\x0c'
  else if c = 'r' then some '\r'
  else none

/-- What an escape stands for, its backslash taken; in a text of many lines it may end a line. -/
def escape (multiline : Bool) : Reader (List Char) := do
  match ← get with
  | c :: rest =>
    if multiline && (isBlank c || c = '\n') then
      blanks
      if (← get).isEmpty && c ≠ '\n' then return []
      expect "\n"
      let _ ← takeWhile fun c => isBlank c || c = '\n'
      return []
    set rest
    if c = 'u' then return [← numericEscape 4]
    else if c = 'U' then return [← numericEscape 8]
    else
      let e ← (letterEscape? c : Option Char)
      return [e]
  | [] => failure

def escaped (multiline : Bool) : (fuel : Nat) → Reader (List Char)
  | 0 => failure
  | fuel + 1 => do
    if ← accept (if multiline then "\"\"\"" else "\"") then return []
    match ← get with
    | [] => failure
    | '\\' :: rest =>
      set rest
      let e ← escape multiline
      return e ++ (← escaped multiline fuel)
    | c :: rest =>
      if isControl c && !(multiline && c = '\n') then failure
      set rest
      return c :: (← escaped multiline fuel)

/-- The characters of a text without escapes up to its end. -/
def verbatim (multiline : Bool) : (fuel : Nat) → Reader (List Char)
  | 0 => failure
  | fuel + 1 => do
    if ← accept (if multiline then "'''" else "'") then return []
    match ← get with
    | [] => failure
    | c :: rest =>
      if isControl c && !(multiline && c = '\n') then failure
      set rest
      return c :: (← verbatim multiline fuel)

/-- A text of many lines whose end may be preceded by one or two quotes of its own. -/
def manyLines (quote : String) (body : Reader (List Char)) : Reader String := do
  let _ ← accept "\n"
  let cs ← body
  let extra ← if ← accept quote then (do
      if ← accept quote then return quote ++ quote else return quote) else pure ""
  return String.ofList cs ++ extra

def oneLineText (fuel : Nat) : Reader String := do
  if ← accept "\"" then return String.ofList (← escaped false fuel)
  expect "'"
  return String.ofList (← verbatim false fuel)

def text (fuel : Nat) : Reader String := do
  if ← accept "\"\"\"" then manyLines "\"" (escaped true fuel)
  else if ← accept "'''" then manyLines "'" (verbatim true fuel)
  else oneLineText fuel

def keyPart (fuel : Nat) : Reader String := do
  match ← peek? with
  | some c =>
    if isBareKeyChar c then return String.ofList (← takeWhile isBareKeyChar)
    else oneLineText fuel
  | none => failure

/-- The parts of a key, between dots. -/
def key : (fuel : Nat) → Reader (List String)
  | 0 => failure
  | fuel + 1 => do
    let part ← keyPart fuel
    blanks
    if ← accept "." then
      blanks
      return part :: (← key fuel)
    return [part]

/-! ## Numbers and dates -/

/-- Digits of one kind in front, with single underscores between them. -/
def digits (isDigit : Char → Bool) : (fuel : Nat) → List Char → List Char
  | fuel + 1, c :: '_' :: d :: rest =>
    if isDigit c && isDigit d then c :: '_' :: digits isDigit fuel (d :: rest)
    else if isDigit c then [c] else []
  | fuel + 1, c :: rest => if isDigit c then c :: digits isDigit fuel rest else []
  | _, _ => []

/-- All digits of one kind in front. -/
def digitRun (isDigit : Char → Bool) (cs : List Char) : List Char := digits isDigit cs.length cs

/-- The digits of a number, underscores aside. -/
def plainDigits (cs : List Char) : List Char := cs.filter (· ≠ '_')

def basedNumber? (cs : List Char) : Option (Datum × List Char) :=
  let read (base : Nat) (isDigit : Char → Bool) (rest : List Char) :=
    match digitRun isDigit rest with
    | [] => none
    | run => some (Datum.int (((plainDigits run).filterMap Bytes.hexValue?).foldl
        (fun n d => base * n + d) 0 : Nat), rest.drop run.length)
  match cs with
  | '0' :: 'x' :: rest => read 16 (fun c => (Bytes.hexValue? c).isSome) rest
  | '0' :: 'o' :: rest => read 8 (fun c => '0' ≤ c && c ≤ '7') rest
  | '0' :: 'b' :: rest => read 2 (fun c => c = '0' || c = '1') rest
  | _ => none

def fractionLength : List Char → Nat
  | '.' :: rest =>
    let n := (digitRun Char.isDigit rest).length
    if n = 0 then 0 else n + 1
  | _ => 0

def exponentLength : List Char → Nat
  | e :: rest =>
    if e = 'e' || e = 'E' then
      let sign := match rest with
        | s :: _ => if s = '+' || s = '-' then 1 else 0
        | [] => 0
      let n := (digitRun Char.isDigit (rest.drop sign)).length
      if n = 0 then 0 else 1 + sign + n
    else 0
  | [] => 0

/-- A decimal number; a fraction or an exponent makes it a floating-point number. -/
def decimal? (cs : List Char) : Option (Datum × List Char) :=
  let sign := match cs with
    | s :: _ => if s = '+' || s = '-' then 1 else 0
    | [] => 0
  let behind := cs.drop sign
  let whole := match behind with
    | '0' :: _ => 1
    | _ => (digitRun Char.isDigit behind).length
  if whole = 0 then none
  else
    let fraction := fractionLength (behind.drop whole)
    let exponent := exponentLength (behind.drop (whole + fraction))
    let length := sign + whole + fraction + exponent
    let token := plainDigits (cs.take length)
    if fraction + exponent = 0 then (Literal.int? token).map fun n => (.int n, cs.drop length)
    else (Literal.double? token).map fun x => (.float x, cs.drop length)

/-- Characters of a fixed form in front: a nine stands for any digit, all else for itself. -/
def matchesForm : (form cs : List Char) → Bool
  | [], _ => true
  | _, [] => false
  | f :: form, c :: cs => (if f = '9' then c.isDigit else f = c) && matchesForm form cs

def numberAt (start width : Nat) (cs : List Char) : Nat :=
  Literal.digitNumber ((cs.drop start).take width)

def daysIn (year month : Nat) : Nat :=
  if month = 2 then
    if year % 4 = 0 && (year % 100 ≠ 0 || year % 400 = 0) then 29 else 28
  else if month = 4 || month = 6 || month = 9 || month = 11 then 30
  else 31

def timeLength? (cs : List Char) : Option Nat :=
  if matchesForm "99:99:99".toList cs && numberAt 0 2 cs < 24 && numberAt 3 2 cs < 60
      && numberAt 6 2 cs < 60 then
    match cs.drop 8 with
    | '.' :: rest =>
      let n := (rest.takeWhile Char.isDigit).length
      some (if n = 0 then 8 else 9 + n)
    | _ => some 8
  else none

/-- The length of an offset from universal time in front. -/
def offsetLength (cs : List Char) : Nat :=
  match cs with
  | c :: rest =>
    if c = 'Z' || c = 'z' then 1
    else if (c = '+' || c = '-') && matchesForm "99:99".toList rest && numberAt 0 2 rest < 24
        && numberAt 3 2 rest < 60 then 6
    else 0
  | [] => 0

/-- A date in front, with or without a time of day, or a time of day alone.  Such data have no use
here, so only their kind is kept; `none` inside is for one that does not exist. -/
def moment? (cs : List Char) : Option (Option (Datum × List Char)) :=
  let month := numberAt 5 2 cs
  let day := numberAt 8 2 cs
  if matchesForm "9999-99-99".toList cs && 1 ≤ month && month ≤ 12 && 1 ≤ day && day ≤ 31 then
    let valid := day ≤ daysIn (numberAt 0 4 cs) month && 1 ≤ numberAt 0 4 cs
    let time? := match cs.drop 10 with
      | c :: rest => if c = 'T' || c = 't' || c = ' ' then timeLength? rest else none
      | [] => none
    match time? with
    | some n =>
      let length := 11 + n + offsetLength (cs.drop (11 + n))
      some (if valid then some (.other "datetime", cs.drop length) else none)
    | none => some (if valid then some (.other "date", cs.drop 10) else none)
  else (timeLength? cs).map fun n => some (.other "time", cs.drop n)

/-- A number that is not finite. -/
def special? (cs : List Char) : Option (Datum × List Char) :=
  let (negative, rest) := Literal.splitSign cs
  match rest with
  | 'i' :: 'n' :: 'f' :: rest => some (.float (.infinity negative), rest)
  | 'n' :: 'a' :: 'n' :: rest => some (.float .nanRead, rest)
  | _ => none

/-- A date, a time or a number. -/
def scalar : Reader Datum := fun cs =>
  match moment? cs with
  | some r => r
  | none => basedNumber? cs <|> decimal? cs <|> special? cs

/-! ## Tables -/

abbrev Entries := List (Datum × Datum)

/-- Changes the table at a path, making tables on the way; with `lists`, a list of tables stands for
its last one. -/
def alter (lists : Bool) : List String → (Entries → Option Entries) → Entries → Option Entries
  | [], f, es => f es
  | k :: ks, f, es =>
    match Datum.find? k es with
    | none => do return Datum.put (.text k) (.map (← alter lists ks f [])) es
    | some (.map sub) => do return Datum.put (.text k) (.map (← alter lists ks f sub)) es
    | some (.list items) =>
      match lists, items.getLast? with
      | true, some (.map sub) => do
        return Datum.put (.text k) (.list (items.dropLast ++ [.map (← alter lists ks f sub)])) es
      | _, _ => none
    | some _ => none

/-- Sets a key that has not been set. -/
def setNew (k : String) (v : Datum) (es : Entries) : Option Entries :=
  if (Datum.find? k es).isSome then none else some (Datum.put (.text k) v es)

def isContainer : Datum → Bool
  | .map _ | .list _ => true
  | _ => false

/-- Sets a key of an inline table in which the values of the keys in `frozen` are complete. -/
def setInline (path : List String) (v : Datum) (frozen : List (List String)) (es : Entries) :
    Option Entries :=
  if frozen.any (·.isPrefixOf path) then none
  else alter false path.dropLast (setNew (path.getLast?.getD "") v) es

mutual

def value : (fuel : Nat) → Reader Datum
  | 0 => failure
  | fuel + 1 => do
    match ← peek? with
    | some '"' | some '\'' => return .text (← text fuel)
    | some 't' =>
      expect "true"
      return .bool true
    | some 'f' =>
      expect "false"
      return .bool false
    | some '[' =>
      expect "["
      gaps fuel
      return .list (← items fuel)
    | some '\x7b' =>
      expect "\x7b"
      blanks
      if ← accept "\x7d" then return .map []
      return .map (← inline fuel [] [])
    | _ => scalar

def items : (fuel : Nat) → Reader (List Datum)
  | 0 => failure
  | fuel + 1 => do
    if ← accept "]" then return []
    let v ← value fuel
    gaps fuel
    if ← accept "]" then return [v]
    expect ","
    gaps fuel
    return v :: (← items fuel)

/-- The keys of an inline table up to its end, behind those in `es`. -/
def inline (fuel : Nat) (frozen : List (List String)) (es : Entries) : Reader Entries :=
  match fuel with
  | 0 => failure
  | fuel + 1 => do
    let path ← key fuel
    expect "="
    blanks
    let v ← value fuel
    let es ← (setInline path v frozen es : Option Entries)
    blanks
    if ← accept "\x7d" then return es
    expect ","
    blanks
    inline fuel (if isContainer v then path :: frozen else frozen) es

end

/-! ## Documents -/

/-- A document so far: its data, the path of the open table, the tables that have been opened, the
paths whose values are complete, and the tables that dotted keys have made in the open table. -/
structure Progress where
  data : Entries := []
  table : List String := []
  opened : List (List String) := []
  frozen : List (List String) := []
  dotted : List (List String) := []

/-- Whether a path is complete or lies inside one that is. -/
def Progress.isFrozen (p : Progress) (path : List String) : Bool :=
  p.frozen.any (·.isPrefixOf path)

/-- Sets a key of the open table. -/
def Progress.assign (p : Progress) (path : List String) (v : Datum) : Option Progress := do
  let between := (List.range path.length).drop 1 |>.map fun n => p.table ++ path.take n
  if between.any p.opened.contains then failure
  let parent := p.table ++ path.dropLast
  if !parent.isEmpty && p.isFrozen parent then failure
  let data ← alter true parent (setNew (path.getLast?.getD "") v) p.data
  return { p with
    data := data
    dotted := between ++ p.dotted
    frozen := if isContainer v then (p.table ++ path) :: p.frozen else p.frozen }

/-- The tables that dotted keys have made count as opened once another table is opened. -/
def Progress.settle (p : Progress) : Progress :=
  { p with opened := p.dotted ++ p.opened, dotted := [] }

def Progress.openTable (p : Progress) (path : List String) : Option Progress := do
  if p.opened.contains path || p.isFrozen path then failure
  let data ← alter true path some p.data
  return { p with data := data, table := path, opened := path :: p.opened }

/-- Adds a table to a list of tables and opens it. -/
def Progress.addTable (p : Progress) (path : List String) : Option Progress := do
  if p.isFrozen path then failure
  let last := path.getLast?.getD ""
  let data ← alter true path.dropLast (fun es =>
    match Datum.find? last es with
    | none => some (Datum.put (.text last) (.list [.map []]) es)
    | some (.list items) => some (Datum.put (.text last) (.list (items ++ [.map []])) es)
    | some _ => none) p.data
  return { p with
    data := data
    table := path
    opened := path :: p.opened.filter (!path.isPrefixOf ·)
    frozen := p.frozen.filter (!path.isPrefixOf ·) }

/-- One line, or several if its value has more, without the comment and the line end behind it. -/
def statement (fuel : Nat) (p : Progress) : Reader Progress := do
  match ← peek? with
  | some '[' =>
    let p := p.settle
    if ← accept "[[" then
      blanks
      let path ← key fuel
      let p ← (p.addTable path : Option Progress)
      expect "]]"
      return p
    expect "["
    blanks
    let path ← key fuel
    let p ← (p.openTable path : Option Progress)
    expect "]"
    return p
  | some '#' | some '\n' | none => return p
  | some _ =>
    let path ← key fuel
    expect "="
    blanks
    let v ← value fuel
    (p.assign path v : Option Progress)

/-- The lines of a document. -/
def statements : (fuel : Nat) → Progress → Reader Progress
  | 0, _ => failure
  | fuel + 1, p => do
    blanks
    let p ← statement fuel p
    blanks
    comment
    if (← get).isEmpty then return p
    expect "\n"
    statements fuel p

/-- Line ends of two characters become line feeds. -/
def unifyLineEnds : List Char → List Char
  | '\r' :: '\n' :: rest => '\n' :: unifyLineEnds rest
  | c :: rest => c :: unifyLineEnds rest
  | [] => []

def read? (source : String) : Option Datum := do
  let cs := unifyLineEnds source.toList
  let (p, _) ← (statements (2 * cs.length + 4) {}).run cs
  return .map p.data

end CanisterShell.Toml
