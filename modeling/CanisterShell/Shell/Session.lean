import CanisterShell.Candid.Build
import CanisterShell.Interface
import CanisterShell.Offline.SignedCall
import CanisterShell.Random.Config
import CanisterShell.Replica
import CanisterShell.Request.Agent

/-!
# Sessions and environments

A session is what all scripts of a shell share: the agent's world, the files, the identities, the
known interfaces, the log of signed calls and what has been shown.  An environment is what a script
or a function call has for itself: variables, functions, the directory that paths start from, and
the settings for random values.  What runs in an environment may change it; a child is a copy in
which something is done that the environment itself is not to see.
-/

namespace CanisterShell

open Candid

/-! ## What a session is set up with -/

/-- Gives the identity of a key in a hardware token: by the library that drives it, the slot, the
key's id and the pin. -/
abbrev HardwareKeys := (library : String) → (slot : Int) → (key pin : String) → Attempt Identity

/-- The choice of a session without hardware tokens. -/
def noHardwareKeys : HardwareKeys := fun library _ _ _ => .error (.config (.noHardware library))

/-- Changes a program so that it counts its cycles, in all or in the named functions. -/
abbrev Instrumenter := (program : Bytes) → (functions? : Option (List String)) → Attempt Bytes

/-- The choice of a session that cannot change programs. -/
def noInstrumenter : Instrumenter := fun _ _ => .error (.eval .noInstrumenter)

/-- What a session is set up with, over a world `σ` that the agent, the clock and the user live in.
`homes` are the home directories of users by name, that of the current user under the empty name.
`now` is the second of the wall clock, from which the expiries of what is signed follow unless they
are given. -/
structure Setting (σ : Type) where
  agent? : Option (Agent σ) := none
  offline : Bool := false
  replicaUrl : String
  poll : PollPolicy := {}
  environ : Source.Environ := []
  homes : Table String String := []
  now : Int
  expiries : Request.Expiries := .ofSecond now
  hardwareKeys : HardwareKeys := noHardwareKeys
  instrument : Instrumenter := noInstrumenter
  clock : StateM σ Double
  askPin : StateM σ String
  newSecret : StateM σ Bytes

namespace Setting

def replicaFor (offline : Bool) (name? : Option String) : String :=
  CanisterShell.replicaUrl (if offline && name?.isNone then some "ic" else name?)

def home {σ : Type} (S : Setting σ) (user : String) : Option String :=
  if user = "" then S.environ.get? "HOME" <|> S.homes.find? "" else S.homes.find? user

end Setting

/-! ## The state of a session -/

/-- Where something that a script shows belongs. -/
inductive Topic where
  | output
  | warning
  | timing
  deriving DecidableEq

def Topic.name : Topic → String
  | output => "stdout"
  | warning => "stderr"
  | timing => "timing"

/-- Something that a script shows. -/
structure Effect where
  topic : Topic
  message : String
  deriving DecidableEq

/-- The identity that a session starts with. -/
def anonymousName : String := "anon"

/-- The state of a session; `effects` and `calls` have the latest first. -/
structure Session (σ : Type) where
  world : σ
  disk : File.Disk
  identities : Table String Identity := [(anonymousName, .anonymous)]
  current : String := anonymousName
  fileNumbers : Table String Nat := []
  calls : List Offline.SignedCall := []
  effects : List Effect := []
  directory : Table Principal Interface
  computed : Nat := 0

namespace Session

variable {σ : Type}

def identity (s : Session σ) : Identity := (s.identities.find? s.current).getD .anonymous

def use (name : String) (identity : Identity) (s : Session σ) : Session σ :=
  { s with identities := s.identities.put name identity, current := name }

/-- The session with something shown. -/
def tell (topic : Topic) (message : String) (s : Session σ) : Session σ :=
  { s with effects := ⟨topic, message⟩ :: s.effects }

/-- The next file name for a stem, numbered from one, and the session that has given it away. -/
def nextFileName (stem suffix : String) (s : Session σ) : String × Session σ :=
  let n := (s.fileNumbers.find? stem).getD 0 + 1
  (stem ++ toString n ++ suffix, { s with fileNumbers := s.fileNumbers.put stem n })

end Session

/-! ## Environments -/

/-- A function of a script. -/
structure Function where
  params : List String
  body : List Syntax.Command

/-- What a script or a function call has for itself. -/
structure Env where
  vars : Table String Value := []
  functions : Table String Function := []
  base : File.Path
  config : Random.Config := {}

namespace Env

/-- The environment with a variable bound. -/
def bind (name : String) (v : Value) (env : Env) : Env := { env with vars := env.vars.put name v }

def lookup (name : String) (env : Env) : Attempt Value :=
  match env.vars.find? name with
  | some v => .ok v
  | none => .error (.error (.undefinedVariable name))

/-- The canister that a text names: by its principal, or as a variable that holds one. -/
def canister (name : String) (env : Env) : Attempt Principal :=
  match Principal.ofText name with
  | .ok p => .ok p
  | .error _ =>
    match env.vars.find? name with
    | some (.principal p) | some (.service p) => .ok p
    | _ => .error (.eval (.notCanister name))

def path {σ : Type} (S : Setting σ) (text : String) (env : Env) : File.Path :=
  env.base.join (.ofText (File.Path.expandHome S.home text))

end Env

/-! ## Doing things -/

/-- Something done in a session, which may fail. -/
abbrev Doing (σ α : Type) := ExceptT Failure (StateM (Session σ)) α

/-- Something done in an environment of a session. -/
abbrev Running (σ α : Type) := ExceptT Failure (StateM (Env × Session σ)) α

/-- Does something, and makes the error that it may end with into a result. -/
def outcome {m : Type → Type} [Monad m] {α : Type} (act : ExceptT Failure m α) :
    ExceptT Failure m (Except Error α) :=
  ExceptT.mk do
    match ← act.run with
    | .ok a => return .ok (.ok a)
    | .error (.error e) => return .ok (.error e)
    | .error f => return .error f

namespace Doing

variable {σ α : Type}

def inWorld (act : StateM σ α) : StateM (Session σ) α := fun s =>
  let (a, world) := act.run s.world
  (a, { s with world := world })

def perform (act : Action σ α) : Doing σ α := ExceptT.mk (inWorld act.run)

/-- Shows something. -/
def display (topic : Topic) (message : String) : Doing σ Unit := modify (Session.tell topic message)

def warn (message : String) : Doing σ Unit := display .warning ("Warning: " ++ message)

/-- Numbers the parts of a value that a computation has given. -/
def fresh (v : Value) : Doing σ Value := do
  let s ← get
  let (v, computed) := v.fresh s.computed
  set { s with computed := computed }
  return v

/-- Something done in the session, whatever the environment. -/
def toRunning (act : Doing σ α) : Running σ α := ExceptT.mk fun (env, s) =>
  let (a, s) := act.run.run s
  (a, (env, s))

end Doing

namespace Running

variable {σ α : Type}

/-- The environment. -/
def env : Running σ Env := do return (← get).1

/-- Changes the environment. -/
def modifyEnv (f : Env → Env) : Running σ Unit := modify fun (env, s) => (f env, s)

/-- Does something in a child of the environment, a copy that `f` changes first; the child is
dropped, whether this failed or not. -/
def inChild (f : Env → Env) (act : Running σ α) : Running σ α := ExceptT.mk fun (env, s) =>
  let (a, _, s) := act.run.run (f env, s)
  (a, (env, s))

/-- Does something and then changes the environment, whether it failed or not. -/
def afterwards (act : Running σ α) (f : Env → Env) : Running σ α := ExceptT.mk fun state =>
  let (a, env, s) := act.run.run state
  (a, (f env, s))

end Running

/-! ## Files

Reading and writing return the failure of an access as a result, for each command words it in its own
way. -/

namespace Doing

variable {σ : Type}

/-- Refuses a path that no file can have. -/
def checkPath (path : File.Path) : Attempt Unit :=
  if path.toText.contains '\x00' then .error (.fault (.badValue "embedded null byte")) else .ok ()

def readFile (path : File.Path) : Doing σ (Except File.Failure Bytes) := do
  checkPath path
  return (← get).disk.read path

/-- The text of some bytes, with every end of line a line feed. -/
def textOf (bytes : Bytes) : Attempt String :=
  match File.Disk.textOf? bytes with
  | some text => .ok text
  | none => .error (.fault .notUtf8)

def readText (path : File.Path) : Doing σ (Except File.Failure String) := do
  match ← readFile path with
  | .error failure => return .error failure
  | .ok bytes => return .ok (← textOf bytes)

def changeDisk (path : File.Path) (change : File.Disk → Except File.Failure File.Disk) :
    Doing σ (Option File.Failure) := do
  checkPath path
  let s ← get
  match change s.disk with
  | .error failure => return some failure
  | .ok disk =>
    set { s with disk := disk }
    return none

def writeText (path : File.Path) (text : String) : Doing σ (Option File.Failure) :=
  changeDisk path fun d => d.write path (Utf8.encode text)

def appendText (path : File.Path) (text : String) : Doing σ (Option File.Failure) :=
  changeDisk path fun d => d.append path (Utf8.encode text)

end Doing

end CanisterShell
