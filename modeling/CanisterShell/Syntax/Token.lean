import CanisterShell.Candid.Quoted
import CanisterShell.Order
import CanisterShell.Text.Span

/-!
# Tokens

A source text is cut into tokens without regard to grammar: names, quoted texts, numbers and fixed
symbols, of which the longest that fits is taken; a name that is a keyword is a token of its own.
Blanks between tokens are dropped.  Every step consumes at least one character.
-/

namespace CanisterShell.Syntax

/-- The classes of tokens: `fixed` ones have a single spelling. -/
inductive Terminal where
  | name
  | text
  | number
  | assertOp
  | fixed (spelling : String)
  deriving DecidableEq, Repr

/-- A class of tokens as messages name it. -/
def Terminal.display : Terminal → String
  | name => "NAME"
  | text => "TEXT"
  | number => "NUMBER"
  | assertOp => "ASSERT_OP"
  | fixed spelling => Text.quoted spelling

/-- The names of classes of tokens in order, each once. -/
def displayAll (terminals : List Terminal) : List String :=
  sortBy (fun a b => decide (a ≤ b)) (terminals.map Terminal.display).eraseDups

/-- A token: its class, its characters and where they stand. -/
structure Token where
  terminal : Terminal
  lexeme : String
  span : Text.Span

/-- The fixed tokens of a grammar. -/
structure Lexicon where
  keywords : List String
  symbols : List String
  assertOps : List String

/-- What a character may begin, keywords being read as names first. -/
def Lexicon.starts (lexicon : Lexicon) : List Terminal :=
  lexicon.symbols.map .fixed ++ [.name, .number, .text]
    ++ if lexicon.assertOps.isEmpty then [] else [.assertOp]

/-! ## The characters of a token -/

/-- A blank between tokens. -/
def isSpace (c : Char) : Bool := c = ' ' || c = '\t' || c = '\x0c' || c = '\r' || c = '\n'

/-- The number of characters up to and with the closing quote; a backslash takes along any character
that does not end the line. -/
def quotedLength : List Char → Option Nat
  | [] => none
  | '"' :: _ => some 1
  | '\\' :: c :: rest => if c = '\n' then none else (quotedLength rest).map (· + 2)
  | ['\\'] => none
  | _ :: rest => (quotedLength rest).map (· + 1)

def isDigitOrUnderscore (c : Char) : Bool := c.isDigit || c = '_'

/-- The number of characters of a digit and the digits and underscores behind it. -/
def digitsLength : List Char → Nat
  | c :: rest => if c.isDigit then (rest.takeWhile isDigitOrUnderscore).length + 1 else 0
  | [] => 0

/-- The number of characters of a mark such as a point and the digits behind it, if any. -/
def partLength (isMark : Char → Bool) : List Char → Nat
  | c :: rest => if isMark c && digitsLength rest ≠ 0 then digitsLength rest + 1 else 0
  | [] => 0

def exponentLength : List Char → Nat
  | c :: '+' :: rest =>
    if (c = 'e' || c = 'E') && digitsLength rest ≠ 0 then digitsLength rest + 2 else 0
  | c :: '-' :: rest =>
    if (c = 'e' || c = 'E') && digitsLength rest ≠ 0 then digitsLength rest + 2 else 0
  | cs => partLength (fun c => c = 'e' || c = 'E') cs

def isHexDigitOrUnderscore (c : Char) : Bool := (Bytes.hexValue? c).isSome || c = '_'

def decimalLength (cs : List Char) : Nat :=
  let whole := digitsLength cs
  if whole = 0 then 0
  else
    let places := partLength (· = '.') (cs.drop whole)
    whole + places + exponentLength (cs.drop (whole + places))

def numberLength : List Char → Nat
  | '0' :: 'x' :: d :: rest =>
    if (Bytes.hexValue? d).isSome then (rest.takeWhile isHexDigitOrUnderscore).length + 3
    else decimalLength ('0' :: 'x' :: d :: rest)
  | cs => decimalLength cs

def longest? (spellings : List String) (cs : List Char) : Option String :=
  (spellings.filter fun s => s.toList.isPrefixOf cs).foldl
    (fun best s => match best with
      | none => some s
      | some b => if b.length < s.length then some s else some b) none

def front? (lexicon : Lexicon) (cs : List Char) : Option (Terminal × Nat) :=
  match cs with
  | [] => none
  | c :: rest =>
    if Candid.isNameStart c then
      let name := cs.takeWhile Candid.isNameChar
      let spelling := String.ofList name
      some (if lexicon.keywords.contains spelling then .fixed spelling else .name, name.length)
    else if c.isDigit then some (.number, numberLength cs)
    else if c = '"' then (quotedLength rest).map fun n => (.text, n + 1)
    else
      match longest? lexicon.assertOps cs, longest? lexicon.symbols cs with
      | some op, some s =>
        if op.length < s.length then some (.fixed s, s.length) else some (.assertOp, op.length)
      | some op, none => some (.assertOp, op.length)
      | none, some s => some (.fixed s, s.length)
      | none, none => none

/-! ## The tokens of a text -/

/-- A place in a text: an offset, a line and a column. -/
structure Cursor where
  offset : Nat := 0
  line : Nat := 1
  column : Nat := 1

def Cursor.step (at_ : Cursor) (c : Char) : Cursor :=
  if c = '\n' then ⟨at_.offset + 1, at_.line + 1, 1⟩ else ⟨at_.offset + 1, at_.line, at_.column + 1⟩

def Cursor.advance (at_ : Cursor) (cs : List Char) : Cursor := cs.foldl Cursor.step at_

/-- How the tokens of a text end: with the text, or at a character that begins none. -/
inductive Ending where
  | complete
  | stray (c : Char) (span : Text.Span)

/-- The tokens of a text, and how they end. -/
structure Tokens where
  tokens : List Token
  ending : Ending

def scanFrom (lexicon : Lexicon) (at_ : Cursor) (cs : List Char) : Tokens :=
  match cs with
  | [] => ⟨[], .complete⟩
  | c :: rest =>
    if isSpace c then scanFrom lexicon (at_.step c) rest
    else
      match front? lexicon cs with
      | none => ⟨[], .stray c ⟨at_.offset, at_.offset + 1, at_.line, at_.column⟩⟩
      | some (terminal, n) =>
        -- a token has at least its first character
        let lexeme := c :: rest.take (n - 1)
        let next := at_.advance lexeme
        let token : Token :=
          ⟨terminal, String.ofList lexeme, ⟨at_.offset, next.offset, at_.line, at_.column⟩⟩
        let tail := scanFrom lexicon next (rest.drop (n - 1))
        ⟨token :: tail.tokens, tail.ending⟩
termination_by cs.length
decreasing_by all_goals simp; try omega

def scan (lexicon : Lexicon) (source : List Char) : Tokens := scanFrom lexicon {} source

end CanisterShell.Syntax
