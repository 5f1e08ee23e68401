import CanisterShell.Request.Http
import CanisterShell.Shell.Session

/-!
# The console

How a program meets its user, in whatever monad: with lines printed and read, and files left behind.
A program runs over a world that the network is part of, and may stop early with an exit code or for
a failure.
-/

namespace CanisterShell.CommandLine

/-- How a program meets its user: printing, complaining, asking for a line, of which there is none
when the input has ended, and leaving its files. -/
structure Console (m : Type → Type) where
  print : String → m Unit
  complain : String → m Unit
  ask : (prompt : String) → m (Option String)
  keep : File.Disk → m Unit

/-- What a program finds around it, in a world `σ`. -/
structure Surroundings (σ : Type) where
  transport : Http.Transport σ
  environ : Source.Environ := []
  homes : Table String String := []
  now : Int
  clock : StateM σ Double
  askPin : StateM σ String
  newSecret : StateM σ Bytes

def Surroundings.replica {σ : Type} (around : Surroundings σ) (url : String) : Http.Replica σ :=
  { transport := around.transport, url, now := around.now }

/-- Why a program stops early. -/
inductive Stop where
  | code (n : Nat)
  | failure (f : Failure)

/-- How a program ends: with a code, or by a failure that it does not foresee. -/
inductive Exit where
  | code (n : Nat)
  | failure (f : Failure)

/-- A program over the world `σ` that meets its user in the monad `m`. -/
abbrev Program (σ : Type) (m : Type → Type) (α : Type) := ExceptT Stop (StateT σ m) α

namespace Program

variable {σ α : Type} {m : Type → Type} [Monad m]

def atConsole (act : m α) : Program σ m α := ExceptT.lift (StateT.lift act)

/-- Goes on with a result, and stops for a failure. -/
def require (a : Attempt α) : Program σ m α :=
  match a with
  | .ok a => return a
  | .error f => throw (.failure f)

/-- What a program amounts to; an error is complained of. -/
def conclude (program : Program σ m Unit) (console : Console m) (world : σ) : m (Exit × σ) := do
  let (result, world) ← program.run.run world
  match result with
  | .ok () => return (.code 0, world)
  | .error (.code n) => return (.code n, world)
  | .error (.failure (.error e)) =>
    console.complain (e.describe ++ "\n")
    return (.code 1, world)
  | .error (.failure f) => return (.failure f, world)

end Program

end CanisterShell.CommandLine
