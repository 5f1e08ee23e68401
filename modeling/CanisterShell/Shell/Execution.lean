import CanisterShell.Document.Format
import CanisterShell.Shell.Evaluation
import CanisterShell.Syntax.Parse
import CanisterShell.Timing

/-!
# Execution

One step of running a command, given how its parts are run.  The first failure ends the block that
it occurs in; what the commands before it have changed stays changed.
-/

namespace CanisterShell

open Candid Syntax

namespace Execution

variable {σ : Type} (S : Setting σ) (self : Engine σ)

/-- Shows something. -/
def display (topic : Topic) (message : String) : Running σ Unit :=
  Doing.toRunning (Doing.display topic message)

def bindVar (name : String) (v : Value) : Running σ Unit := Running.modifyEnv (Env.bind name v)

/-- The path that a text means in the environment of the commands. -/
def path (text : String) : Running σ File.Path := do return (← Running.env).path S text

/-! ## Results -/

/-- Whether an expression is a call that is sent as such. -/
def isDirectCall : Exp → Bool
  | .call _ _ .send => true
  | _ => false

/-- Takes the cost off the result of a call and binds it to a variable of its own. -/
def takeCost (name : String) (e : Exp) (v : Value) (shown : Bool) : Running σ Value := do
  if !isDirectCall e then return v
  match Cost.split v with
  | (v, none) => return v
  | (v, some cost) =>
    bindVar (Cost.variableName name) (.int .int64 cost)
    if shown then display .output ("Cost: " ++ toString cost ++ " Wasm instructions")
    return v

/-- Binds a result to a variable, and shows it if it is to be shown. -/
def bindResult (name : String) (e : Exp) (v : Value) (shown : Bool) : Running σ Value := do
  let v ← takeCost name e v shown
  if shown then display .output v.toText
  bindVar name v
  return v

/-- Evaluates an expression and shows the result and the time that it took. -/
def evaluate (e : Exp) : Running σ Value := do
  let start ← Doing.toRunning (ExceptT.lift (Doing.inWorld S.clock))
  let v ← self.eval e
  let v ← bindResult "_" e v true
  let stop ← Doing.toRunning (ExceptT.lift (Doing.inWorld S.clock))
  display .timing (elapsedText (stop.sub start))
  return v

/-! ## Assertions -/

/-- Whether a value, made a value of another's type, equals it; `none` if it has no such form. -/
def equalAs? (v w : Value) : Attempt (Option Bool) :=
  match v.cast [] w.ty with
  | .ok v => .ok (some (v.equal w))
  | .error (.error _) => .ok none
  | .error f => .error f

/-- Whether one text stands in another. -/
def contains (whole part : List Char) : Bool :=
  part.isPrefixOf whole ||
    match whole with
    | [] => false
    | _ :: rest => contains rest part

/-- Loose equality: a text holds another, or the values are equal once one has been made a value of
the other's type. -/
def resembles (v w : Value) : Attempt Bool :=
  match v, w with
  | .text s, .text t => .ok (contains s.toList t.toList)
  | v, w => do
    match ← equalAs? v w with
    | some b => return b
    | none =>
      match ← equalAs? w v with
      | some b => return b
      | none => return v.equal w

def holds (op : String) (v w : Value) : Attempt Bool :=
  if op = "==" then .ok (v.equal w)
  else if op = "!=" then .ok (!v.equal w)
  else resembles v w

def assertion (op : String) (left right : Exp) : Running σ Unit := do
  let v ← self.eval left
  let w ← self.eval right
  if !(← holds op v w) then throw (.error (.assertion v op w))

/-! ## Canisters and identities -/

/-- Gives a name to a canister, and makes the interface in a file known for it. -/
def importCanister (name canister : String) (file? : Option String) : Running σ Unit := do
  let p ← (← Running.env).canister canister
  match file? with
  | some file => Doing.toRunning (Directory.registerFile p (← path S file))
  | none => pure ()
  bindVar name (.principal p)

/-- Where the library that drives hardware tokens lies unless the process says so. -/
def defaultTokenLibrary : String := "/usr/lib/x86_64-linux-gnu/opensc-pkcs11.so"

def tokenLibrary : String := (S.environ.get? "PKCS11_LIBPATH").getD defaultTokenLibrary

/-- The pin of a hardware token: from the process, or else asked for. -/
def tokenPin : Doing σ String := do
  match S.environ.get? "DFX_HSM_PIN" with
  | some pin => if pin ≠ "" then return pin else ask
  | none => ask
where
  ask : Doing σ String := do
    let pin ← ExceptT.lift (Doing.inWorld S.askPin)
    if pin = "" then throw (.config .noPin)
    return pin

def tokenIdentity (record : Value) : Doing σ Identity := do
  match (record.field? (.named "slot_index")).bind Value.integer?,
      record.field? (.named "key_id") with
  | some slot, some (.text key) =>
    let pin ← tokenPin S
    S.hardwareKeys (tokenLibrary S) slot key pin
  | _, _ => throw (.config .hardwareRecord)

def namedIdentity (name : String) : Doing σ Identity := do
  match (← get).identities.find? name with
  | some identity => return identity
  | none => return .ofEd25519 (← ExceptT.lift (Doing.inWorld S.newSecret))

/-- The identity that a source means: the file of a key, or a key in a hardware token. -/
def identityOf (env : Env) (source : Value) : Doing σ Identity := do
  match source with
  | .text file => Identity.load (← get).disk (env.path S file)
  | .record fields => tokenIdentity S (.record fields)
  | _ => throw (.config .identitySource)

def useIdentity (name : String) (source? : Option Exp) : Running σ Unit := do
  let identity ← match source? with
    | none => Doing.toRunning (namedIdentity S name)
    | some e =>
      let source ← self.eval e
      Doing.toRunning (identityOf S (← Running.env) source)
  modify fun (env, s) => (env, s.use name identity)
  display .output ("Current identity " ++ identity.sender.toText)
  bindVar name (.principal identity.sender)

/-! ## Files -/

/-- The script that binds variables anew. -/
def exported (vars : Table String Value) : String :=
  String.join (vars.map fun (name, v) => "let " ++ name ++ " = " ++ v.toText ++ ";\n")

/-- Writes the variables to a file, as a script. -/
def saveTo (text : String) : Running σ Unit := do
  let file ← path S text
  match ← Doing.toRunning (Doing.writeText file (exported (← Running.env).vars)) with
  | some failure => throw (.eval (.cannotWrite file failure))
  | none => return

/-- Runs commands, each shown before it is run as it stands in their prepared source. -/
def echoed (prepared : List Char) (commands : List Command) : Running σ Unit :=
  commands.forM fun c => do
    display .output ("> " ++ String.ofList (c.span.cut prepared))
    let _ ← self.run c

/-- Runs the script in a file; paths in it start from its directory. -/
def loadFrom (text : String) : Running σ Unit := do
  let file ← path S text
  match ← Doing.toRunning (Doing.readText file) with
  | .error failure => throw (.eval (.cannotRead file failure))
  | .ok source =>
    let prepared ← Syntax.lift (Source.prepare S.environ (Source.blankShebang source.toList))
    let commands ← Syntax.readCommands prepared
    let base := (← Running.env).base
    Running.modifyEnv fun env => { env with base := file.parent }
    Running.afterwards (echoed self prepared commands) fun env => { env with base := base }

/-- Reads settings for random values. -/
def configure (source : String) : Running σ Unit := do
  let (env, s) ← get
  let config ← Random.Config.ofDatum (← Document.load s.disk env.base source)
  Running.modifyEnv fun env => { env with config := config }

/-! ## Commands -/

def condition (keyword : String) (cond : Exp) : Running σ Bool := do
  match ← self.eval cond with
  | .bool b => return b
  | _ => throw (.eval (.conditionNotBool keyword))

/-- Runs a command; the result is a value that it binds or shows. -/
def step (c : Command) : Running σ (Option Value) := do
  match c.action with
  | .bind name e => return some (← bindResult name e (← self.eval e) false)
  | .evaluate e => return some (← evaluate S self e)
  | .assertion op left right => assertion self op left right
  | .importCanister name canister file? => importCanister S name canister file?
  | .configure source => configure source
  | .useIdentity name source? => useIdentity S self name source?
  | .saveTo file => saveTo S file
  | .loadFrom file => loadFrom S self file
  | .define name params body =>
    Running.modifyEnv fun env => { env with functions := env.functions.put name ⟨params, body⟩ }
  | .branch cond yes no =>
    if ← condition self "if" cond then self.block yes else self.block no
  | .loop cond body =>
    if ← condition self "while" cond then
      self.block body
      return ← self.run c
  return none

end Execution

/-! ## The engine -/

mutual

/-- Evaluates an expression whose evaluation is nested less than `depth` levels deep. -/
def evalWithin {σ : Type} (S : Setting σ) : (depth : Nat) → Syntax.Exp → Running σ Value
  | 0, _ => throw .exhausted
  | depth + 1, e => Evaluation.step S ⟨evalWithin S depth, runWithin S depth⟩ e

/-- Runs a command whose steps are nested less than `depth` levels deep. -/
def runWithin {σ : Type} (S : Setting σ) : (depth : Nat) → Syntax.Command → Running σ (Option Value)
  | 0, _ => throw .exhausted
  | depth + 1, c => Execution.step S ⟨evalWithin S depth, runWithin S depth⟩ c

end

/-- No script nests deeper than this, each round of a loop being a level. -/
def mostDepth : Nat := 2 ^ 40

def evaluate {σ : Type} (S : Setting σ) (e : Syntax.Exp) : Running σ Value :=
  evalWithin S mostDepth e

def execute {σ : Type} (S : Setting σ) (c : Syntax.Command) : Running σ (Option Value) :=
  runWithin S mostDepth c

end CanisterShell
