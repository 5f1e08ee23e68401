import CanisterShell.CommandLine.Arguments
import CanisterShell.CommandLine.Console
import CanisterShell.Offline.Log
import CanisterShell.Shell.Script

/-!
# The program

What a command line asks for: running a script, talking to the user line by line, or replaying the
calls that were signed earlier.
-/

namespace CanisterShell.CommandLine

open Candid

variable {σ : Type} {m : Type → Type} [Monad m] (console : Console m) (around : Surroundings σ)

/-! ## Saying things -/

def say (line : String) : Program σ m Unit := Program.atConsole (console.print (line ++ "\n"))

def protest (line : String) : Program σ m Unit :=
  Program.atConsole (console.complain (line ++ "\n"))

/-- Whether something shown is the message of a failure, which is shown in another form. -/
def Effect.isMessageOf (outcome : Outcome) (e : Effect) : Bool :=
  match outcome with
  | .failure message _ => e.message = message
  | .success _ => false

/-- Prints what a script has shown. -/
def showEffects (outcome : Outcome) : List Effect → Program σ m Unit
  | [] => return
  | e :: rest => do
    match e.topic with
    | .warning => if !Effect.isMessageOf outcome e then protest console e.message
    | .output | .timing => say console e.message
    showEffects outcome rest

/-! ## Scripts -/

def setting (a : Arguments) : Setting σ where
  agent? := if a.offline then none else some (around.replica (replicaUrl a.replica?)).agent
  offline := a.offline
  replicaUrl := Setting.replicaFor a.offline a.replica?
  environ := around.environ
  homes := around.homes
  now := around.now
  clock := around.clock
  askPin := around.askPin
  newSecret := around.newSecret

def readNamed (disk : File.Disk) (name : String) : Program σ m String := do
  let path := File.Path.ofText name
  Program.require (Doing.checkPath path)
  match disk.read path with
  | .ok bytes => Program.require (Doing.textOf bytes)
  | .error ⟨.missing, _⟩ =>
    protest console ("Error: file not found: " ++ name)
    throw (.code 1)
  | .error failure => throw (.failure (.fault (.file failure)))

variable (S : Setting σ)

def runSource (source : String) (sh : Shell σ) : Program σ m (Outcome × Shell σ) := do
  let world ← get
  let (outcome, sh) := Shell.run S source { sh with session := { sh.session with world } }
  set sh.session.world
  Program.atConsole (console.keep sh.session.disk)
  let outcome ← Program.require outcome
  showEffects console outcome sh.effects
  return (outcome, sh)

def saveCalls (sh : Shell σ) : Program σ m Unit := do
  if sh.session.calls.isEmpty then return
  let (name, session) := sh.session.nextFileName "msg" ".json"
  let (count, sh) := Shell.writeLog S name { sh with session }
  Program.atConsole (console.keep sh.session.disk)
  let count ← Program.require count
  say console (toString count ++ " message(s) saved to " ++ name)

/-- Runs a script file, from whose directory its paths start. -/
def runFile (name : String) (sh : Shell σ) : Program σ m Unit := do
  let disk := sh.session.disk
  let source ← readNamed console disk name
  let base := (File.Path.ofText name).parent.absolute disk.cwd
  let (outcome, sh) ← runSource console S source { sh with env := { sh.env with base } }
  saveCalls console S sh
  match outcome with
  | .success _ => return
  | .failure .. =>
    protest console outcome.errorText
    throw (.code 1)

/-! ## Dialogues -/

def prompt : String := ">> "

/-- The line that ends a dialogue. -/
def farewell : String := "exit"

/-- Asks for a line and runs it; the shell to go on with, or none if the dialogue is over. -/
def turn (sh : Shell σ) : Program σ m (Option (Shell σ)) := do
  match ← Program.atConsole (console.ask prompt) with
  | none =>
    say console "\nExiting."
    return none
  | some line =>
    let line := Text.trim line
    if line.isEmpty then return some sh
    else if line = farewell then return none
    else
      let (outcome, sh) ← runSource console S line sh
      match outcome with
      | .success _ => return some sh
      | .failure .. =>
        protest console outcome.errorText
        return some sh

/-- Takes turns until the dialogue is over, so many at most. -/
def takeTurns : (fuel : Nat) → (sh : Shell σ) → Program σ m (Shell σ)
  | 0, sh => return sh
  | fuel + 1, sh => do
    match ← turn console S sh with
    | some sh => takeTurns fuel sh
    | none => return sh

/-- A dialogue with the user. -/
def converse (turns : Nat) (sh : Shell σ) : Program σ m Unit := do
  say console programName
  say console "Type 'exit' or press Ctrl+D to quit."
  let sh ← takeTurns console S turns sh
  saveCalls console S sh

/-! ## Replaying -/

/-- Something done over the network while the user is asked. -/
abbrev Replaying (σ : Type) (m : Type → Type) (α : Type) := ExceptT Failure (StateT σ m) α

def overNetwork {α : Type} (act : Action σ α) : Replaying σ m α :=
  ExceptT.mk (StateT.mk fun world => return act.run.run world)

/-- What asks for a confirmation. -/
def question : String := "Okay? [y/N] "

def isYes (answer : String) : Bool := ["y", "yes"].contains (Text.trim answer).toLower

def confirm : Replaying σ m Bool := do
  match ← ExceptT.lift (StateT.lift (console.ask question)) with
  | some answer => return isYes answer
  | none => throw (.fault .endOfInput)

/-- The replica that a log is meant for, or else the one that is named. -/
def replicaOf (log : Offline.Log) (name? : Option String) : Attempt (Http.Replica σ) :=
  if log.replicaUrl.isEmpty then .ok (around.replica (replicaUrl name?))
  else match log.replicaUrl with
    | .text url => .ok (around.replica url)
    | _ => .error (.fault .missingAttribute)

def replayLog (log : Offline.Log) (replica : Http.Replica σ) : Program σ m (List Bytes) := do
  let announce (text : String) : Replaying σ m Unit :=
    ExceptT.lift (StateT.lift (console.print (text ++ "\n")))
  let send (c : Offline.SignedCall) : Replaying σ m Bytes := overNetwork (Offline.send replica {} c)
  let replies : Attempt (List Bytes) ← ExceptT.lift
    (Offline.replay log announce (confirm console) send).run
  Program.require replies

/-- Prints the values of replies. -/
def showReplies : List Bytes → Program σ m Unit
  | [] => return
  | reply :: rest => do
    say console (Value.argsText (← Program.require (decodeArgs reply)))
    showReplies rest

def replayFile (disk : File.Disk) (name : String) (replica? : Option String) :
    Program σ m Unit := do
  let log ← Program.require (Offline.Log.ofJson (← readNamed console disk name))
  let replica ← Program.require (replicaOf around log replica?)
  showReplies console (← replayLog console log replica)

/-! ## Command lines -/

/-- A text that is given and not empty. -/
def given? (text? : Option String) : Option String := text?.filter (· ≠ "")

def configOf (disk : File.Disk) (a : Arguments) : Attempt Random.Config :=
  match given? a.config? with
  | none => .ok {}
  | some source => do Random.Config.ofDatum (← Document.load disk (.ofText ".") source)

/-- Runs the script that a command line names, or else a dialogue. -/
def runShell (turns : Nat) (disk : File.Disk) (a : Arguments) : Program σ m Unit := do
  let S := setting around a
  let config ← Program.require (configOf disk a)
  let sh := Shell.start (← get) disk ⟨"/", disk.cwd⟩
  let sh := { sh with env := { sh.env with config } }
  match given? a.script? with
  | some name => runFile console S name sh
  | none => converse console S turns sh

/-- The word that stands in the script's place when a log is to be replayed. -/
def replayWord : String := "send"

def obey (turns : Nat) (disk : File.Disk) (a : Arguments) : Program σ m Unit :=
  if a.script? = some replayWord then
    match given? a.messages? with
    | some name => replayFile console around disk name a.replica?
    | none => do
      protest console "Error: send needs a messages file"
      throw (.code 2)
  else runShell console around turns disk a

/-- Does what the words of a command line ask for; a dialogue has so many turns at most. -/
def run (turns : Nat) (disk : File.Disk) (argv : List String) (world : σ) : m (Exit × σ) :=
  let program : Program σ m Unit :=
    match Command.ofWords argv with
    | .run a => obey console around turns disk a
    | .help => Program.atConsole (console.print helpText)
    | .refuse complaint => do
      Program.atConsole (console.complain (complaintText complaint))
      throw (.code 2)
  program.conclude console world

end CanisterShell.CommandLine
