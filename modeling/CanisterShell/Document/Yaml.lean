import CanisterShell.Document.YamlScalar
import CanisterShell.Text.Classes

/-!
# YAML

Reading plain data from YAML: block and flow collections, scalars with and without quotes, block
scalars, comments and the marks of a single document.  A block collection holds the lines that begin
in its column.  Tags, anchors and complex keys are refused.
-/

namespace CanisterShell.Yaml

/-- What is left to read, and the column where it starts. -/
structure Cursor where
  rest : List Char
  column : Nat := 0

/-- A reader takes characters off the front. -/
abbrev Reader (α : Type) : Type := StateT Cursor Option α

def peek? : Reader (Option Char) := do
  return (← get).rest.head?

/-- Skips characters. -/
def advance : (n : Nat) → Reader Unit
  | 0 => return
  | n + 1 => do
    match (← get).rest with
    | [] => return
    | c :: rest =>
      let column := (← get).column
      set (Cursor.mk rest (if c = '\n' then 0 else column + 1))
      advance n

/-- Skips a character that has to stand in front. -/
def expect (c : Char) : Reader Unit := do
  if (← peek?) = some c then advance 1 else failure

/-- Skips characters that fit and returns them. -/
def takeWhile (p : Char → Bool) : Reader (List Char) := do
  let cs := (← get).rest.takeWhile p
  advance cs.length
  return cs

/-- A blank, a line end or the end of the text. -/
def endsToken : Option Char → Bool
  | none => true
  | some c => c = ' ' || c = '\t' || c = '\n'

/-- A mark of the start or the end of a document in front, at the beginning of a line. -/
def atMark (mark : String) (at_ : Cursor) : Bool :=
  at_.column = 0 && mark.toList.isPrefixOf at_.rest && endsToken (at_.rest.drop 3).head?

/-- Any such mark. -/
def atAnyMark (at_ : Cursor) : Bool := atMark "---" at_ || atMark "..." at_

/-- Whether a block collection can have no more to it. -/
def atEnd (at_ : Cursor) : Bool := at_.rest.isEmpty || atAnyMark at_

/-- Skips blanks, comments and line ends, and says whether there were line ends. -/
def gaps : (fuel : Nat) → (crossed : Bool) → Reader Bool
  | 0, crossed => return crossed
  | fuel + 1, crossed => do
    let _ ← takeWhile (· = ' ')
    if (← peek?) = some '#' then let _ ← takeWhile (· ≠ '\n')
    if (← peek?) = some '\n' then
      advance 1
      gaps fuel true
    else return crossed

/-! ## Scalars -/

/-- Blanks and line ends inside a scalar: a single line end counts as a blank, further ones stand
for themselves. -/
def fold (cs : List Char) : List Char :=
  match cs.count '\n' with
  | 0 => cs
  | 1 => [' ']
  | n + 1 => List.replicate n '\n'

/-- Whether a scalar without quotes ends before the characters given. -/
def endsPlain (flow : Bool) : List Char → Bool
  | [] => true
  | ':' :: rest =>
    endsToken rest.head? || (flow && rest.head?.any fun c => ",[]\x7b\x7d".toList.contains c)
  | c :: _ => c = ' ' || c = '\t' || c = '\n' || (flow && ",?[]\x7b\x7d".toList.contains c)

/-- The word of a scalar without quotes in front. -/
def plainWord (flow : Bool) : List Char → List Char
  | [] => []
  | c :: rest => if endsPlain flow (c :: rest) then [] else c :: plainWord flow rest

/-- A scalar without quotes; lines that continue it begin at least in column `indent`. -/
def plain (flow : Bool) (indent : Nat) : (fuel : Nat) → Reader (List Char)
  | 0 => failure
  | fuel + 1 => do
    let word := plainWord flow (← get).rest
    advance word.length
    let before ← get
    let space ← takeWhile fun c => c = ' ' || c = '\n'
    let after ← get
    if space.isEmpty || after.rest.isEmpty || after.rest.head? = some '#'
        || endsPlain flow after.rest || (space.contains '\n' && atAnyMark after)
        || (!flow && after.column < indent) then
      set before
      return word
    else return word ++ fold space ++ (← plain flow indent fuel)

/-- Whether a scalar without quotes can begin with the characters given. -/
def startsPlain (flow : Bool) : List Char → Bool
  | [] => false
  | c :: rest =>
    if " \t\n-?:,[]\x7b\x7d#&*!|>'\"%@\x60".toList.contains c then
      !endsToken rest.head? && (c = '-' || (!flow && (c = '?' || c = ':')))
    else true

/-- The characters of a scalar in single quotes, behind the opening one. -/
def single : (fuel : Nat) → Reader (List Char)
  | 0 => failure
  | fuel + 1 => do
    match (← get).rest with
    | '\'' :: '\'' :: _ =>
      advance 2
      return '\'' :: (← single fuel)
    | '\'' :: _ =>
      advance 1
      return []
    | c :: _ =>
      if c = ' ' || c = '\n' then
        let space ← takeWhile fun c => c = ' ' || c = '\n'
        if atAnyMark (← get) then failure
        return fold space ++ (← single fuel)
      else
        advance 1
        return c :: (← single fuel)
    | [] => failure

def letterEscape? (c : Char) : Option Char :=
  [('0', '\x00'), ('a', '\x07'), ('b', '\x08'), ('t', '\t'), ('\t', '\t'), ('n', '\n'),
    ('v', '\x0b'), ('f', '\x0c'), ('r', '\r'), ('e', '\x1b'), (' ', ' '), ('"', '"'), ('\\', '\\'),
    ('/', '/'), ('N', '\u0085'), ('_', '\u00a0'), ('L', '\u2028'), ('P', '\u2029')].lookup c

/-- The character of so many hexadecimal digits. -/
def numericEscape (width : Nat) : Reader Char := do
  let digits := (← get).rest.take width
  advance width
  let n := Literal.hexNumber digits
  if digits.length = width && digits.all (fun c => (Bytes.hexValue? c).isSome)
      && Literal.isScalar n then return Char.ofNat n
  else failure

/-- The characters of a scalar in double quotes, behind the opening one. -/
def double : (fuel : Nat) → Reader (List Char)
  | 0 => failure
  | fuel + 1 => do
    match (← get).rest with
    | '"' :: _ =>
      advance 1
      return []
    | '\\' :: '\n' :: _ =>
      advance 2
      let space ← takeWhile fun c => c = ' ' || c = '\n'
      return List.replicate (space.count '\n') '\n' ++ (← double fuel)
    | '\\' :: c :: _ =>
      advance 2
      let e ←
        if c = 'x' then numericEscape 2
        else if c = 'u' then numericEscape 4
        else if c = 'U' then numericEscape 8
        else (letterEscape? c : Option Char)
      return e :: (← double fuel)
    | c :: _ =>
      if c = ' ' || c = '\n' then
        let space ← takeWhile fun c => c = ' ' || c = '\n'
        if atAnyMark (← get) then failure
        return fold space ++ (← double fuel)
      else
        advance 1
        return c :: (← double fuel)
    | [] => failure

/-! ## Block scalars -/

/-- What becomes of the line ends behind a block scalar. -/
inductive Chomp where
  | strip | clip | keep
  deriving DecidableEq

/-- The signs behind the mark of a block scalar: an indentation and a treatment of the end. -/
def blockHeader : (fuel : Nat) → Option Nat × Chomp → Reader (Option Nat × Chomp)
  | 0, h => return h
  | fuel + 1, (indent?, chomp) => do
    match ← peek? with
    | some '+' => advance 1; blockHeader fuel (indent?, .keep)
    | some '-' => advance 1; blockHeader fuel (indent?, .strip)
    | some c =>
      if c.isDigit && c ≠ '0' then
        advance 1
        blockHeader fuel (some (c.toNat - 48), chomp)
      else return (indent?, chomp)
    | none => return (indent?, chomp)

/-- The lines of a block scalar whose text begins in column `indent`, without that indentation; a
line that holds nothing else is empty. -/
def blockLines (indent : Nat) : (fuel : Nat) → Reader (List (List Char))
  | 0 => return []
  | fuel + 1 => do
    let before ← get
    let space := (before.rest.takeWhile (· = ' ')).length
    match before.rest.drop space with
    | [] => return []
    | '\n' :: _ =>
      let _ ← takeWhile (· = ' ')
      advance 1
      return List.replicate (space - indent) ' ' :: (← blockLines indent fuel)
    | _ =>
      if space < indent || atAnyMark before then return []
      advance indent
      let line ← takeWhile (· ≠ '\n')
      advance 1
      return line :: (← blockLines indent fuel)

def firstIndent : (fuel : Nat) → List Char → Nat
  | 0, _ => 0
  | fuel + 1, cs =>
    let space := (cs.takeWhile (· = ' ')).length
    match cs.drop space with
    | '\n' :: rest => firstIndent fuel rest
    | _ => space

/-- Lines joined by line feeds. -/
def joinLiteral (lines : List (List Char)) : List Char := ['\n'].intercalate lines

/-- A line that is set off by more indentation. -/
def isSetOff (line : List Char) : Bool := line.head?.any fun c => c = ' ' || c = '\t'

/-- What stands between two lines with `empty` empty ones between them, or in front of the first. -/
def foldBetween (previous? : Option (List Char)) (empty : Nat) (line : List Char) : List Char :=
  match previous? with
  | none => List.replicate empty '\n'
  | some previous =>
    if isSetOff previous || isSetOff line then List.replicate (empty + 1) '\n'
    else if empty = 0 then [' '] else List.replicate empty '\n'

/-- Lines joined by blanks, but by line feeds next to empty lines and to lines set off. -/
def joinFolded (previous? : Option (List Char)) (empty : Nat) : List (List Char) → List Char
  | [] => []
  | [] :: rest => joinFolded previous? (empty + 1) rest
  | line :: rest => foldBetween previous? empty line ++ line ++ joinFolded (some line) 0 rest

/-- A block scalar behind its mark; the collection around it begins in column `parent`. -/
def blockScalar (folded : Bool) (parent : Int) : Reader Datum := do
  let (indent?, chomp) ← blockHeader 2 (none, .clip)
  let _ ← takeWhile (· = ' ')
  if (← peek?) = some '#' then let _ ← takeWhile (· ≠ '\n')
  if !(← get).rest.isEmpty then expect '\n'
  let least := (parent + 1).toNat
  let cs := (← get).rest
  let indent := match indent? with
    | some n => (max parent 0).toNat + n
    | none => max (max least 1) (firstIndent cs.length cs)
  let lines ← blockLines indent cs.length
  let empty := (lines.reverse.takeWhile List.isEmpty).length
  let body := lines.take (lines.length - empty)
  let text := if folded then joinFolded none 0 body else joinLiteral body
  let ending := match chomp with
    | .strip => []
    | .clip => if body.isEmpty then [] else ['\n']
    | .keep => List.replicate (if body.isEmpty then empty else empty + 1) '\n'
  return .text (String.ofList (text ++ ending))

/-! ## Flow collections -/

/-- Adds an entry to a map; a collection is no key. -/
def addEntry (key value : Datum) (entries : List (Datum × Datum)) :
    Option (List (Datum × Datum)) :=
  match key with
  | .list _ | .map _ => none
  | _ => some (Datum.put key value entries)

mutual

/-- A scalar or a flow collection; lines of a scalar begin at least in column `indent`. -/
def inline (flow : Bool) (indent : Nat) : (fuel : Nat) → Reader Datum
  | 0 => failure
  | fuel + 1 => do
    match ← peek? with
    | some '"' =>
      advance 1
      return .text (String.ofList (← double fuel))
    | some '\'' =>
      advance 1
      return .text (String.ofList (← single fuel))
    | some '[' =>
      advance 1
      return .list (← flowItems fuel)
    | some '\x7b' =>
      advance 1
      return .map (← flowEntries [] fuel)
    | _ =>
      if startsPlain flow (← get).rest then
        return scalar (String.ofList (← plain flow indent fuel))
      else failure

def flowItems : (fuel : Nat) → Reader (List Datum)
  | 0 => failure
  | fuel + 1 => do
    let _ ← gaps fuel false
    if (← peek?) = some ']' then
      advance 1
      return []
    let item ← inline true 0 fuel
    let _ ← gaps fuel false
    let item ← if (← peek?) = some ':' then (do
        advance 1
        let v ← flowValue fuel
        return .map (← (addEntry item v [] : Option (List (Datum × Datum))))) else pure item
    let _ ← gaps fuel false
    match ← peek? with
    | some ']' =>
      advance 1
      return [item]
    | some ',' =>
      advance 1
      return item :: (← flowItems fuel)
    | _ => failure

/-- The value behind a colon inside a flow collection. -/
def flowValue : (fuel : Nat) → Reader Datum
  | 0 => failure
  | fuel + 1 => do
    let _ ← gaps fuel false
    match ← peek? with
    | some ',' | some ']' | some '\x7d' => return .null
    | _ => inline true 0 fuel

/-- The entries of a flow map up to its end. -/
def flowEntries (entries : List (Datum × Datum)) : (fuel : Nat) → Reader (List (Datum × Datum))
  | 0 => failure
  | fuel + 1 => do
    let _ ← gaps fuel false
    if (← peek?) = some '\x7d' then
      advance 1
      return entries
    let key ← inline true 0 fuel
    let _ ← gaps fuel false
    let value ← if (← peek?) = some ':' then (do
        advance 1
        flowValue fuel) else pure .null
    let entries ← (addEntry key value entries : Option (List (Datum × Datum)))
    let _ ← gaps fuel false
    match ← peek? with
    | some '\x7d' =>
      advance 1
      return entries
    | some ',' =>
      advance 1
      flowEntries entries fuel
    | _ => failure

end

/-! ## Block collections -/

/-- An item mark of a block list in front. -/
def atItem (at_ : Cursor) : Bool := at_.rest.head? = some '-' && endsToken (at_.rest.drop 1).head?

/-- A colon that ends a key in front. -/
def atColon (at_ : Cursor) : Bool := at_.rest.head? = some ':' && endsToken (at_.rest.drop 1).head?

mutual

/-- Anything inside a collection that begins in column `parent`; `keyed` tells whether a map may
begin here. -/
def block (parent : Int) (keyed : Bool) : (fuel : Nat) → Reader Datum
  | 0 => failure
  | fuel + 1 => do
    let start ← get
    if atItem start then
      if keyed then return .list (← blockItems start.column fuel) else failure
    else if start.rest.head? = some '|' then
      advance 1
      blockScalar false parent
    else if start.rest.head? = some '>' then
      advance 1
      blockScalar true parent
    else
      let node ← inline false (parent + 1).toNat fuel
      let stop ← get
      let _ ← takeWhile (· = ' ')
      if atColon (← get) then
        let length := start.rest.length - stop.rest.length
        if keyed && !(start.rest.take length).contains '\n' then
          advance 1
          let v ← blockValue start.column fuel
          let entries ← (addEntry node v [] : Option (List (Datum × Datum)))
          return .map (← blockEntries start.column entries fuel)
        else failure
      else
        set stop
        return node

def blockValue (column : Nat) : (fuel : Nat) → Reader Datum
  | 0 => failure
  | fuel + 1 => do
    let crossed ← gaps fuel false
    let at_ ← get
    if atEnd at_ then return .null
    else if !crossed then block column false fuel
    else if column < at_.column then block column true fuel
    else if at_.column = column && atItem at_ then return .list (← blockItems column fuel)
    else return .null

def blockEntries (column : Nat) (entries : List (Datum × Datum)) :
    (fuel : Nat) → Reader (List (Datum × Datum))
  | 0 => failure
  | fuel + 1 => do
    let _ ← gaps fuel false
    let start ← get
    if atEnd start || start.column < column then return entries
    if column < start.column then failure
    let key ← inline false (column + 1) fuel
    let stop ← get
    let length := start.rest.length - stop.rest.length
    if (start.rest.take length).contains '\n' then failure
    let _ ← takeWhile (· = ' ')
    if !atColon (← get) then failure
    advance 1
    let v ← blockValue column fuel
    let entries ← (addEntry key v entries : Option (List (Datum × Datum)))
    blockEntries column entries fuel

/-- The items of a list that begins in column `column`. -/
def blockItems (column : Nat) : (fuel : Nat) → Reader (List Datum)
  | 0 => failure
  | fuel + 1 => do
    advance 1
    let crossed ← gaps fuel false
    let at_ ← get
    let item ←
      if atEnd at_ then pure .null
      else if !crossed || column < at_.column then block column true fuel
      else pure .null
    let _ ← gaps fuel false
    let at_ ← get
    if !atEnd at_ && at_.column = column && atItem at_ then
      return item :: (← blockItems column fuel)
    else return [item]

end

/-! ## Documents -/

/-- A character that a document may hold. -/
def isAllowed (c : Char) : Bool :=
  let n := c.toNat
  n = 9 || n = 10 || n = 13 || (0x20 ≤ n && n ≤ 0x7E) || n = 0x85 || (0xA0 ≤ n && n ≤ 0xFFFD)
    || 0x10000 ≤ n

def unifyLineEnds (cs : List Char) : List Char :=
  (Text.unifyNewlines cs).map fun c => if c = '\u0085' then '\n' else c

def document (fuel : Nat) : Reader Datum := do
  let _ ← gaps fuel false
  let marked := atMark "---" (← get)
  if marked then advance 3
  let crossed ← gaps fuel false
  let d ← if atEnd (← get) then pure .null else block (-1) (!marked || crossed) fuel
  let _ ← gaps fuel false
  if atMark "..." (← get) then
    advance 3
    let _ ← gaps fuel false
  if (← get).rest.isEmpty then return d else failure

def read? (source : String) : Option Datum :=
  let cs := source.toList
  if cs.all isAllowed then
    let cs := unifyLineEnds (match cs with
      | '\uFEFF' :: rest => rest
      | cs => cs)
    ((document (4 * cs.length + 8)).run ⟨cs, 0⟩).map (·.1)
  else none

end CanisterShell.Yaml
