import CanisterShell.Candid.Scope
import CanisterShell.Syntax.Parse

/-!
# Interfaces of canisters

An interface gives the methods of a canister their signatures, over a scope of type names.  It is
compiled from its text; imported files add their type names, and a file is imported only once.
-/

namespace CanisterShell

open Candid File

/-- The signature of a method. -/
structure Signature where
  args : List Ty
  results : List Ty
  modes : List Mode

namespace Signature

/-- Whether a method answers queries. -/
def isQuery (s : Signature) : Bool := (Ty.func s.args s.results s.modes).isQuery

def toText (s : Signature) : String := Ty.signature s.args s.results s.modes

end Signature

/-- What is known about the methods of a canister; `functionNames?` are those of its functions, by
number, for a canister that counts its cycles. -/
structure Interface where
  scope : Scope := []
  methods : Table String Signature := []
  init? : Option (List Ty) := none
  functionNames? : Option (Table Int String) := none
  deriving Inhabited

namespace Interface

/-- The method that a canister has if it counts its cycles. -/
def cyclesMethod : String := "__get_cycles"

def signature? (info : Interface) (method : String) : Option Signature :=
  info.methods.find? method

def countsCycles (info : Interface) : Bool := (info.signature? cyclesMethod).isSome

/-- The signature that a type spells out. -/
def signatureOf (scope : Scope) (t : Ty) : Attempt Signature := do
  let (args, results, modes) ← scope.resolveFunc t
  return ⟨args, results, modes⟩

def methodsOf (scope : Scope) (service : Ty) : Attempt (Table String Signature) := do
  (← scope.resolveService service).foldlM (fun methods (name, t) => do
    return methods.put name (← signatureOf scope t)) []

def badService : Failure → Failure
  | .error e => .error (.badService e)
  | f => f

/-! ## Compilation -/

/-- What the items of an interface text have given so far, and the files imported on the way. -/
structure Progress where
  scope : Scope := []
  service? : Option Ty := none
  init? : Option (List Ty) := none
  seen : List Path

def itemsOf (source : String) : Attempt (List Syntax.Item) :=
  (Syntax.parseInterface source).mapError fun
    | .error (.parse e) => .error (.badInterface e)
    | f => f

def importedText (disk : Disk) (path : Path) : Attempt String :=
  match disk.read path with
  | .error failure => .error (.error (.unreadableImport path failure))
  | .ok bytes =>
    match Disk.textOf? bytes with
    | some text => .ok text
    | none => .error (.fault .notUtf8)

/-- The file that an import means, seen from the directory of the text that holds it. -/
def importedPath (disk : Disk) (base? : Option Path) (path : String) : Attempt Path :=
  match base? with
  | none => .error (.error (.importWithoutBase path))
  | some base => .ok ((base.join (.ofText path)).absolute disk.cwd)

/-- Compiles an interface text with files imported at most `depth` levels deep. -/
def compileWithin (disk : Disk) :
    (depth : Nat) → Option Path → List Path → String → Attempt (Interface × List Path)
  | 0, _, _, _ => .error .exhausted
  | depth + 1, base?, seen, source => do
    let progress ← (← itemsOf source).foldlM (fun (p : Progress) item => do
      match item with
      | .define name t => return { p with scope := p.scope.put name t }
      | .actor init? service => return { p with service? := some service, init? := init? }
      | .includeFile path =>
        let full ← importedPath disk base? path
        if p.seen.contains full then return p
        let text ← importedText disk full
        let (imported, seen) ←
          compileWithin disk depth (some full.parent) (full :: p.seen) text
        return { p with scope := imported.scope.merge p.scope, seen := seen })
      { seen := seen }
    let methods ← match progress.service? with
      | none => pure []
      | some service => (methodsOf progress.scope service).mapError badService
    return ({ scope := progress.scope, methods := methods, init? := progress.init? },
      progress.seen)

/-- Compiles an interface text; imports are sought from the directory `base?`.  Each level of
imports is a file of its own, so there are no more levels than files. -/
def compile (disk : Disk) (base? : Option Path) (source : String) : Attempt Interface := do
  return (← compileWithin disk (disk.nodes.length + 2) base? [] source).1

end Interface

end CanisterShell
