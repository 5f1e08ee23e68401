import CanisterShell.File.Path
import CanisterShell.Text.Classes
import CanisterShell.Text.Utf8

/-!
# Files

A disk is what a program sees of the file system: directories and the bytes of files, by absolute
path, and the directory it works in.  Paths are followed name by name, so that each failure has its
cause.
-/

namespace CanisterShell.File

/-- Why a file cannot be read or written. -/
inductive Cause where
  | missing
  | notDirectory
  | isDirectory
  | nameTooLong
  deriving DecidableEq, Repr

namespace Cause

/-- The number that the system gives the cause. -/
def code : Cause → Nat
  | missing => 2
  | notDirectory => 20
  | isDirectory => 21
  | nameTooLong => 36

def words : Cause → String
  | missing => "No such file or directory"
  | notDirectory => "Not a directory"
  | isDirectory => "Is a directory"
  | nameTooLong => "File name too long"

end Cause

/-- A failed access, with the path as it was asked for. -/
structure Failure where
  cause : Cause
  path : String
  deriving DecidableEq, Repr

def Failure.message (f : Failure) : String :=
  "[Errno " ++ toString f.cause.code ++ "] " ++ f.cause.words ++ ": " ++ Text.quoted f.path

/-- A file or a directory. -/
inductive Node where
  | file (bytes : Bytes)
  | directory

/-- What is known of the file system; `nodes` has the latest version of a file first. -/
structure Disk where
  cwd : List String
  nodes : List (List String × Node) := []

namespace Disk

/-- The node at the names of an absolute path; the working directory and those above it exist. -/
def node? (d : Disk) (parts : List String) : Option Node :=
  if parts.isPrefixOf d.cwd then some .directory
  else (d.nodes.find? fun n => n.1 = parts).map (·.2)

/-- Follows the names of a path through directories; the last one need not exist. -/
def follow (d : Disk) (at_ : List String) : List String → Except Cause (List String)
  | [] => .ok at_
  | name :: rest =>
    match d.node? at_ with
    | none => .error .missing
    | some (.file _) => .error .notDirectory
    | some .directory =>
      if 255 < (Utf8.encode name).length then .error .nameTooLong
      else follow d (Path.descend at_ name) rest

/-- The names of the absolute path that a path leads to. -/
def locate (d : Disk) (p : Path) : Except Cause (List String) :=
  follow d (if p.isAbsolute then [] else d.cwd) p.parts

def read (d : Disk) (p : Path) : Except Failure Bytes :=
  match d.locate p with
  | .error cause => .error ⟨cause, p.toText⟩
  | .ok parts =>
    match d.node? parts with
    | none => .error ⟨.missing, p.toText⟩
    | some .directory => .error ⟨.isDirectory, p.toText⟩
    | some (.file bytes) => .ok bytes

/-- Puts a file in place, with what `change` makes of its bytes so far. -/
def update (d : Disk) (p : Path) (change : Bytes → Bytes) : Except Failure Disk :=
  match d.locate p with
  | .error cause => .error ⟨cause, p.toText⟩
  | .ok parts =>
    match d.node? parts with
    | some .directory => .error ⟨.isDirectory, p.toText⟩
    | some (.file bytes) => .ok { d with nodes := (parts, .file (change bytes)) :: d.nodes }
    | none => .ok { d with nodes := (parts, .file (change [])) :: d.nodes }

/-- Replaces a file. -/
def write (d : Disk) (p : Path) (bytes : Bytes) : Except Failure Disk := d.update p fun _ => bytes

/-- Adds to the end of a file. -/
def append (d : Disk) (p : Path) (bytes : Bytes) : Except Failure Disk :=
  d.update p fun old => old ++ bytes

/-- The text of a file's bytes, every end of line a line feed. -/
def textOf? (bytes : Bytes) : Option String :=
  (Utf8.decode? bytes).map fun s => String.ofList (Text.unifyNewlines s.toList)

end Disk

end CanisterShell.File
