import CanisterShell.CommandLine.Program
import Std.Time.DateTime.Timestamp

/-!
# The executable

The console is the terminal, and the files are those below the working directory and below the
directories of files that the command line names, as they are at the start.  What is written goes to
the disk at once.  There is no network, so that whatever is posted fails.
-/

namespace CanisterShell.Executable

open CommandLine

/-! ## The world -/

/-- What random bytes come from, and how many have been asked for. -/
structure Entropy where
  seed : Bytes
  drawn : Nat := 0

def newSecret : StateM Entropy Bytes := modifyGet fun e =>
  (sha256 (e.seed ++ Utf8.encode (toString e.drawn)), { e with drawn := e.drawn + 1 })

def noNetwork : Http.Transport Entropy where
  post _ _ := return .error "there is no network"
  timer := { clock := return .whole 0, sleep := fun _ => return }

/-! ## Files -/

/-- Larger files are left alone. -/
def mostBytes : Nat := 2 ^ 24

partial def nodesBelow (dir : String) (parts : List String) :
    IO (List (List String × File.Node)) := do
  let mut found := [(parts, File.Node.directory)]
  for entry in ← (← IO.FS.realPath dir).readDir do
    let here := parts ++ [entry.fileName]
    let path := entry.path.toString
    try
      let data ← entry.path.symlinkMetadata
      match data.type with
      | .dir => found := (← nodesBelow path here) ++ found
      | .file =>
        if data.byteSize.toNat ≤ mostBytes then
          found := (here, .file (← IO.FS.readBinFile path).toList) :: found
      | _ => pure ()
    catch _ => pure ()
  return found

def partsOf (path : String) : List String := (File.Path.ofText path).parts

def pathOf (parts : List String) : String := "/" ++ "/".intercalate parts

/-- The files around a command line. -/
def diskFor (argv : List String) : IO File.Disk := do
  let cwd := partsOf (← IO.currentDir).toString
  let named := argv.map fun word => ((File.Path.ofText word).parent.absolute cwd).parts
  let dirs := (cwd :: named.filter fun dir => !cwd.isPrefixOf dir).eraseDups
  let nodes ← dirs.mapM fun dir =>
    try nodesBelow (pathOf dir) dir catch _ => pure []
  return ⟨cwd, nodes.flatten⟩

/-- Writes the files that are new since the disk had so many. -/
def writeBack (known : IO.Ref Nat) (disk : File.Disk) : IO Unit := do
  let before ← known.get
  for (parts, node) in (disk.nodes.take (disk.nodes.length - before)).reverse do
    match node with
    | .file bytes => IO.FS.writeBinFile (pathOf parts) ⟨bytes.toArray⟩
    | .directory => IO.FS.createDirAll (pathOf parts)
  known.set disk.nodes.length

/-! ## The terminal -/

def terminal (known : IO.Ref Nat) : Console IO where
  print text := do
    let out ← IO.getStdout
    out.putStr text
    out.flush
  complain text := do (← IO.getStderr).putStr text
  ask prompt := do
    let out ← IO.getStdout
    out.putStr prompt
    out.flush
    let line ← (← IO.getStdin).getLine
    return if line.isEmpty then none else some line
  keep := writeBack known

/-- The variables that the process has been given. -/
def environ : IO Source.Environ := do
  try
    let bytes ← IO.FS.readBinFile "/proc/self/environ"
    let entries := (Utf8.decodeLossy bytes.toList).splitOn "\x00"
    return entries.filterMap fun entry => match cutAtEquals entry with
      | (name, some value) => some (name, value)
      | _ => none
  catch _ => return []

/-- What is around the process. -/
def surroundings : IO (Surroundings Entropy) := do
  let now ← Std.Time.Timestamp.now
  return {
    transport := noNetwork
    environ := ← environ
    now := now.toSecondsSinceUnixEpoch.val
    clock := return .zero
    askPin := return ""
    newSecret }

/-- A dialogue has no more turns than this. -/
def mostTurns : Nat := 2 ^ 40

end CanisterShell.Executable

open CanisterShell CanisterShell.Executable in
/-- Does what the command line asks for. -/
def main (argv : List String) : IO UInt32 := do
  let disk ← diskFor argv
  let known ← IO.mkRef disk.nodes.length
  let seed ← IO.getRandomBytes 32
  let (exit, _) ← CommandLine.run (terminal known) (← surroundings) mostTurns disk argv
    { seed := seed.toList }
  match exit with
  | .code n => return n.toUInt32
  | .failure f =>
    IO.eprintln f.describe
    return 1
