import CanisterShell.Offline.Log
import CanisterShell.Shell.Execution

/-!
# Scripts

Running a whole script in a session: its outcome is a value or the words for a failure, which show
the lines around the failing command.
-/

namespace CanisterShell

open Candid

/-! ## The lines around a place -/

/-- Lines of a source and a place in it. -/
structure Excerpt where
  lines : List String
  line : Nat
  column : Nat

namespace Excerpt

/-- The number of lines shown on either side. -/
def radius : Nat := 2

def flushRight (width n : Nat) : String :=
  let digits := (toString n).toList
  String.ofList (List.replicate (width - digits.length) ' ' ++ digits)

/-- A line with its number, marked if it is the one that matters. -/
def numbered (width : Nat) (marked : Bool) (n : Nat) (line : String) : String :=
  (if marked then "> " else "  ") ++ flushRight width n ++ " | " ++ line

/-- The line with a mark under a column. -/
def caret (width column : Nat) : String :=
  String.ofList (List.replicate (2 + width) ' ') ++ " | "
    ++ String.ofList (List.replicate (column - 1) ' ') ++ "^"

/-- The lines around the place; nothing if it lies behind the last line. -/
def toText (x : Excerpt) : String :=
  if x.line = 0 || x.lines.length < x.line then ""
  else
    let first := max 1 (x.line - radius)
    let last := min x.lines.length (x.line + radius)
    let width := (toString last).length
    "\n".intercalate ((List.range' first (last + 1 - first)).flatMap fun n =>
      let line := numbered width (n = x.line) n (x.lines.getD (n - 1) "")
      if n = x.line then [line, caret width x.column] else [line])

end Excerpt

def excerpt (source : String) (span : Text.Span) : String :=
  Excerpt.toText ⟨Text.lines source, span.line, span.column⟩

/-! ## Outcomes -/

/-- How a script ends. -/
inductive Outcome where
  | success (value? : Option Value)
  | failure (message : String) (place? : Option (Nat × Nat))

namespace Outcome

/-- The message for people, with the place in front. -/
def errorText : Outcome → String
  | success _ => ""
  | failure message none => message
  | failure message (some (line, column)) =>
    if "Error on line ".toList.isPrefixOf message.toList then message
    else "Error on line " ++ toString line ++ ", col " ++ toString column ++ ": " ++ message

end Outcome

/-- The line and column where a span starts. -/
def placeOf (span : Text.Span) : Nat × Nat := (span.line, span.column)

/-- The outcome of a script that cannot be read. -/
def unreadable (source : String) (e : ParseError) : Outcome :=
  let message := "ParseError: " ++ e.message
  match e.span with
  | none => .failure message none
  | some span =>
    .failure (message ++ " (line " ++ toString span.line ++ ", col " ++ toString span.column
      ++ ")\n" ++ excerpt source span) (some (placeOf span))

/-- The outcome of a script one of whose commands fails. -/
def stopped (source : String) (span : Text.Span) (f : Failure) : Outcome :=
  .failure (f.describe ++ "\n(line " ++ toString span.line ++ ", col " ++ toString span.column
    ++ ")\n" ++ excerpt source span) (some (placeOf span))

/-! ## Running scripts -/

/-- A shell: a session, and the environment of its scripts. -/
structure Shell (σ : Type) where
  env : Env
  session : Session σ

namespace Shell

variable {σ : Type} (S : Setting σ)

/-- The shell over a world and files, with paths that start from a directory. -/
def start (world : σ) (disk : File.Disk) (base : File.Path) : Shell σ :=
  ⟨{ base := base }, { world := world, disk := disk, directory := Directory.initial }⟩

/-- What has been shown since the last script began. -/
def effects (sh : Shell σ) : List Effect := sh.session.effects.reverse

/-- Does something in the session. -/
def perform {α : Type} (act : Doing σ α) (sh : Shell σ) : Attempt α × Shell σ :=
  let (a, session) := act.run.run sh.session
  (a, { sh with session := session })

/-- Runs commands; `last` is the value of the one before.  A failure comes with the place of the
command that failed. -/
def runAll : List Syntax.Command → (last : Option Value) →
    StateM (Env × Session σ) (Except (Text.Span × Failure) (Option Value))
  | [], last => return .ok last
  | c :: rest, _ => do
    match ← (execute S c).run with
    | .ok value? => runAll rest value?
    | .error f => return .error (c.span, f)

def fail (outcome : Outcome) (sh : Shell σ) : Outcome × Shell σ :=
  match outcome with
  | .failure message _ => (outcome, { sh with session := sh.session.tell .warning message })
  | .success _ => (outcome, sh)

def runCommands (source : String) (commands : List Syntax.Command) (sh : Shell σ) :
    Outcome × Shell σ :=
  let (result, env, session) := (runAll S commands none).run (sh.env, sh.session)
  match result with
  | .ok value? => (.success value?, ⟨env, session⟩)
  | .error (span, f) => fail (stopped source span f) ⟨env, session⟩

/-- Runs a script.  A failure to build its tree that is no error of reading is none of the script's
outcomes. -/
def run (source : String) (sh : Shell σ) : Attempt Outcome × Shell σ :=
  let sh := { sh with session := { sh.session with effects := [] } }
  match Syntax.parseCommands S.environ source with
  | .error (.error (.parse e)) =>
    let (outcome, sh) := fail (unreadable source e) sh
    (.ok outcome, sh)
  | .error f => (.error f, sh)
  | .ok commands =>
    let (outcome, sh) := runCommands S source commands sh
    (.ok outcome, sh)

/-- Writes the log of signed calls to a file and returns their number. -/
def writeLog (text : String) (sh : Shell σ) : Attempt Nat × Shell σ :=
  sh.perform do
    let file := sh.env.path S text
    let log : Offline.Log := ⟨.text S.replicaUrl, sh.session.calls.reverse⟩
    match ← Doing.writeText file log.toJson with
    | none => return log.calls.length
    | some failure => throw (.config (.cannotWriteMessages file failure))

end Shell

end CanisterShell
