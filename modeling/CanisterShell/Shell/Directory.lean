import CanisterShell.Candid.Wire.Align
import CanisterShell.Canister.FunctionNames
import CanisterShell.Management
import CanisterShell.Message
import CanisterShell.Shell.Session

/-!
# The directory of canisters

What a session knows of the interfaces of canisters.  An interface is asked for once, when it is
first needed: from the canister's metadata, or else by a query.  Whatever goes wrong, the session
warns and goes on with an interface that says nothing.
-/

namespace CanisterShell

open Candid

/-- Whether an error is one of talking to a replica. -/
def Error.isNetwork : Error → Bool
  | network .. | reject .. | timeout .. | badInterface _ | badService _ | unreadableInterface ..
  | unreadableImport .. | importWithoutBase _ => true
  | _ => false

namespace Directory

/-- The directory of a new session. -/
def initial : Table Principal Interface := [(.management, Management.interface)]

def interfaceSection : String := "candid:service"

def namesSection : String := "name"

def interfaceMethod : String := "__get_candid_interface_tmp_hack"

variable {σ : Type} (S : Setting σ)

/-- Whether the failure to get metadata leaves the query to be tried. -/
def isPassable : Failure → Bool
  | .error e => e.isNetwork
  | .fault .notUtf8 => true
  | _ => false

def interfaceOfMetadata (agent : Agent σ) (canister : Principal) : Doing σ (Option String) := do
  match ← Doing.perform (agent.metadata (← get).identity canister interfaceSection) with
  | none => return none
  | some bytes =>
    match Utf8.decode? bytes with
    | some text => return some text
    | none => throw (.fault .notUtf8)

def queryOf (canister : Principal) (method : String) : Attempt Call := do
  return ⟨canister, method, ← encodeArgs [], canister⟩

/-- The fault of an answer that should be a text: one that holds a single thing is taken for it, and
then is no text, while any other has nothing to be taken. -/
def answerFault : Value → Fault
  | .text _ | .bool _ | .number _ | .int .. | .float .. | .opt _ | .variant .. => .wrongType
  | _ => .missingAttribute

/-- The text of an interface that the canister itself tells. -/
def interfaceOfQuery (agent : Agent σ) (canister : Principal) : Doing σ (Option String) := do
  let call ← queryOf canister interfaceMethod
  let asked : Doing σ (List Value) := do
    decodeAs [] (← Doing.perform (agent.query (← get).identity call)) [.text]
  match ← outcome asked with
  | .error _ => return none
  | .ok (.text text :: _) => return some text
  | .ok (v :: _) => throw (.fault (answerFault v))
  | .ok [] => throw (.fault .outOfRange)

def interfaceText (agent : Agent σ) (canister : Principal) : Doing σ (Option String) := do
  let found : Option String ← tryCatch (interfaceOfMetadata agent canister) fun f =>
    if isPassable f then return none else throw f
  match found with
  | some text => return some text
  | none => interfaceOfQuery agent canister

/-- The names of the functions of a canister; without them there are none. -/
def functionNames (agent : Agent σ) (canister : Principal) : Doing σ (Table Int String) := do
  let asked : Doing σ (Table Int String) := do
    match ← Doing.perform (agent.metadata (← get).identity canister namesSection) with
    | none => return []
    | some bytes => FunctionNames.read bytes
  match ← outcome asked with
  | .ok names => return names
  | .error _ => return []

/-- What a session goes on with when a canister's interface cannot be had. -/
def unknown (canister : Principal) (what : String) (why : String := "") : Doing σ Interface := do
  Doing.warn (what ++ " for " ++ canister.toText ++ why ++ ", values are sent untyped")
  return {}

def connected? : Option (Agent σ) := if S.offline then none else S.agent?

def fetchBy (agent : Agent σ) (canister : Principal) : Doing σ Interface := do
  match ← interfaceText agent canister with
  | none => unknown canister "cannot fetch candid interface"
  | some text =>
    match Interface.compile (← get).disk none text with
    | .error (.error e) =>
      unknown canister "cannot parse candid interface" (" (" ++ e.message ++ ")")
    | .error f => throw f
    | .ok info =>
      if info.countsCycles then
        return { info with functionNames? := some (← functionNames agent canister) }
      return info

def fetch (canister : Principal) : Doing σ Interface :=
  match connected? S with
  | some agent => fetchBy agent canister
  | none => unknown canister "no interface available"

/-- Makes an interface known. -/
def register (canister : Principal) (info : Interface) : Doing σ Unit :=
  modify fun s => { s with directory := s.directory.put canister info }

def lookup (canister : Principal) : Doing σ Interface := do
  match (← get).directory.find? canister with
  | some info => return info
  | none =>
    let info ← fetch S canister
    register canister info
    return info

/-- Makes the interface in a file known. -/
def registerFile (canister : Principal) (path : File.Path) : Doing σ Unit := do
  match ← Doing.readText path with
  | .error failure => throw (.error (.unreadableInterface path failure))
  | .ok text =>
    register canister (← Interface.compile (← get).disk (some path.parent) text)

end Directory

end CanisterShell
