import CanisterShell.Text.Quote

/-!
# Paths

A path is a root, if it is absolute, and names.  Empty names and single dots are dropped when a path
is read; two dots stay, for only the disk can tell what they lead to.
-/

namespace CanisterShell.File

/-- A path of a file or directory; `root` is empty for a relative one. -/
structure Path where
  root : String
  parts : List String
  deriving DecidableEq, Repr, Inhabited

namespace Path

/-- Cuts characters at every slash; `name` holds those of the current name, last first. -/
def splitSlashes (name : List Char) : List Char → List String
  | [] => [String.ofList name.reverse]
  | '/' :: rest => String.ofList name.reverse :: splitSlashes [] rest
  | c :: rest => splitSlashes (c :: name) rest

/-- The root of a path text: exactly two slashes in front are a root of their own. -/
def rootOf : List Char → String
  | '/' :: '/' :: '/' :: _ => "/"
  | '/' :: '/' :: _ => "//"
  | '/' :: _ => "/"
  | _ => ""

def ofText (text : String) : Path :=
  ⟨rootOf text.toList, (splitSlashes [] text.toList).filter fun p => p ≠ "" && p ≠ "."⟩

/-- The text of a path; the empty path is a dot. -/
def toText (p : Path) : String :=
  let text := p.root ++ "/".intercalate p.parts
  if text = "" then "." else text

def isAbsolute (p : Path) : Bool := p.root ≠ ""

/-- The path `q` seen from the directory `p`. -/
def join (p q : Path) : Path := if q.isAbsolute then q else ⟨p.root, p.parts ++ q.parts⟩

/-- The directory that holds a path. -/
def parent (p : Path) : Path := ⟨p.root, p.parts.dropLast⟩

/-- The last name, or nothing. -/
def name (p : Path) : String := p.parts.getLast?.getD ""

/-- The last dot of the last name and what follows it, if there is something on both sides. -/
def suffix (p : Path) : String :=
  let back := p.name.toList.reverse
  let ext := back.takeWhile (· ≠ '.')
  let stem := (back.dropWhile (· ≠ '.')).drop 1
  if ext.isEmpty || stem.isEmpty then "" else String.ofList ('.' :: ext.reverse)

/-- Takes up a name, two dots leading to the directory above. -/
def descend (parts : List String) (name : String) : List String :=
  if name = ".." then parts.dropLast else parts ++ [name]

/-- The absolute path without double dots, seen from the directory `cwd`; two slashes in front lead to
the same place as one. -/
def absolute (cwd : List String) (p : Path) : Path :=
  ⟨"/", p.parts.foldl descend (if p.isAbsolute then [] else cwd)⟩

/-- A tilde in front stands for the home directory; `home` gives it for a user name, which is empty
for the current user. -/
def expandHome (home : String → Option String) (text : String) : String :=
  match text.toList with
  | '~' :: rest =>
    let user := rest.takeWhile (· ≠ '/')
    match home (String.ofList user) with
    | none => text
    | some dir =>
      let dir := (dir.toList.reverse.dropWhile (· = '/')).reverse
      let full := String.ofList (dir ++ rest.drop user.length)
      if full = "" then "/" else full
  | _ => text

instance : ToString Path := ⟨toText⟩

end Path

end CanisterShell.File
