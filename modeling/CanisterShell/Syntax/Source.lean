import CanisterShell.Candid.Quoted
import CanisterShell.Error

/-!
# Source texts

What is done to a script before it is read: the line that names an interpreter and the comments are
blanked, so that every other character keeps its place, and references to environment variables are
replaced by their values.
-/

namespace CanisterShell.Source

/-! ## The first line -/

/-- Blanks a first line that names an interpreter; without a line end behind it nothing is left. -/
def blankShebang (source : List Char) : List Char :=
  match source with
  | '#' :: '!' :: _ =>
    let line := source.takeWhile (· ≠ '\n')
    if line.length = source.length then []
    else List.replicate line.length ' ' ++ source.dropWhile (· ≠ '\n')
  | _ => source

/-! ## Comments -/

/-- Where in a source text a character stands: outside of comments and texts, inside a text, inside
a comment that ends with the line, or inside block comments, of which the outermost began at an
offset. -/
inductive Region where
  | code
  | text
  | lineComment
  | blockComment (start depth : Nat)

/-- Blanks the comments of the characters from the offset `pos` on; a failure is the offset of a
block comment that is never closed. -/
def blankFrom : Region → (pos : Nat) → List Char → Except Nat (List Char)
  | .code, _, [] => .ok []
  | .code, pos, '"' :: rest => return '"' :: (← blankFrom .text (pos + 1) rest)
  | .code, pos, '/' :: '/' :: rest => return ' ' :: ' ' :: (← blankFrom .lineComment (pos + 2) rest)
  | .code, pos, '/' :: '*' :: rest =>
    return ' ' :: ' ' :: (← blankFrom (.blockComment pos 0) (pos + 2) rest)
  | .code, pos, c :: rest => return c :: (← blankFrom .code (pos + 1) rest)
  | .text, _, [] => .ok []
  | .text, _, ['\\'] => .ok ['\\']
  | .text, pos, '\\' :: c :: rest => return '\\' :: c :: (← blankFrom .text (pos + 2) rest)
  | .text, pos, '"' :: rest => return '"' :: (← blankFrom .code (pos + 1) rest)
  | .text, pos, c :: rest => return c :: (← blankFrom .text (pos + 1) rest)
  | .lineComment, _, [] => .ok []
  | .lineComment, pos, '\n' :: rest => return '\n' :: (← blankFrom .code (pos + 1) rest)
  | .lineComment, pos, _ :: rest => return ' ' :: (← blankFrom .lineComment (pos + 1) rest)
  | .blockComment start _, _, [] => .error start
  | .blockComment start depth, pos, '/' :: '*' :: rest =>
    return ' ' :: ' ' :: (← blankFrom (.blockComment start (depth + 1)) (pos + 2) rest)
  | .blockComment start depth, pos, '*' :: '/' :: rest =>
    match depth with
    | 0 => return ' ' :: ' ' :: (← blankFrom .code (pos + 2) rest)
    | depth + 1 => return ' ' :: ' ' :: (← blankFrom (.blockComment start depth) (pos + 2) rest)
  | .blockComment start depth, pos, c :: rest =>
    return (if c = '\n' then c else ' ')
      :: (← blankFrom (.blockComment start depth) (pos + 1) rest)

/-- Blanks comments, nested ones included, and leaves texts alone. -/
def blankComments (source : List Char) : Except ParseError (List Char) :=
  match blankFrom .code 0 source with
  | .ok blanked => .ok blanked
  | .error start =>
    .error ⟨.unterminatedComment, some (Text.spanOf source start start), ["*/"]⟩

/-! ## Environment variables -/

/-- The variables of a process. -/
abbrev Environ := List (String × String)

/-- The value of a variable. -/
def Environ.get? (name : String) (environ : Environ) : Option String :=
  (List.find? (fun v => v.1 = name) environ).map (·.2)

/-- A reference to a variable: the name, a default if there is one, and the number of characters
behind the dollar sign. -/
structure Reference where
  name : String
  default? : Option String
  length : Nat

/-- The identifier in front of some characters. -/
def leadingName (cs : List Char) : List Char :=
  match cs with
  | c :: _ => if Candid.isNameStart c then cs.takeWhile Candid.isNameChar else []
  | [] => []

/-- The reference whose characters, the dollar sign aside, stand in front. -/
def reference? : List Char → Option Reference
  | '\x7b' :: rest =>
    let name := leadingName rest
    if name.isEmpty then none
    else match rest.drop name.length with
      | '\x7d' :: _ => some ⟨String.ofList name, none, name.length + 2⟩
      | ':' :: '-' :: tail =>
        let default := tail.takeWhile (· ≠ '\x7d')
        if default.length = tail.length then none
        else some ⟨String.ofList name, some (String.ofList default),
          name.length + default.length + 4⟩
      | _ => none
  | cs =>
    let name := leadingName cs
    if name.isEmpty then none else some ⟨String.ofList name, none, name.length⟩

/-- The value of a reference; a default serves for a variable that is not set or empty. -/
def Reference.value? (environ : Environ) (r : Reference) : Option String :=
  match r.default?, environ.get? r.name with
  | some default, some value => some (if value = "" then default else value)
  | some default, none => some default
  | none, value => value

/-- Replaces the references of the characters from the offset `pos` on; a failure is a reference
without a value, by its name and the offsets of its ends. -/
def expandFrom (environ : Environ) (pos : Nat) (cs : List Char) :
    Except (String × Nat × Nat) (List Char) :=
  match cs with
  | [] => .ok []
  | '$' :: rest =>
    match reference? rest with
    | none => do return '$' :: (← expandFrom environ (pos + 1) rest)
    | some r =>
      match r.value? environ with
      | none => .error (r.name, pos, pos + 1 + r.length)
      | some value => do
        return value.toList ++ (← expandFrom environ (pos + 1 + r.length) (rest.drop r.length))
  | c :: rest => do return c :: (← expandFrom environ (pos + 1) rest)
termination_by cs.length
decreasing_by all_goals simp; try omega

/-- Replaces references to environment variables. -/
def expand (environ : Environ) (source : List Char) : Except ParseError (List Char) :=
  match expandFrom environ 0 source with
  | .ok expanded => .ok expanded
  | .error (name, start, stop) =>
    .error ⟨.unsetVariable name, some (Text.spanOf source start stop), []⟩

/-- All that is done to a script before it is read. -/
def prepare (environ : Environ) (source : List Char) : Except ParseError (List Char) := do
  expand environ (← blankComments (blankShebang source))

end CanisterShell.Source
