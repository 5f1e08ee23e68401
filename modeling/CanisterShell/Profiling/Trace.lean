import CanisterShell.Error
import CanisterShell.Table

/-!
# Traces of calls

A trace lists when functions were entered and left: a number that is not negative enters the
function of that number, and its negation leaves it, each with the cycle counter at that moment.
Folding gives each function that returns a line of the functions on the stack and the cycles that
it spent itself.
-/

namespace CanisterShell.Trace

/-- A function that has been entered: its number, the counter then, and the cycles spent in the
functions that it called. -/
structure Frame where
  function : Int
  entered : Int
  children : Int

/-- Folding in progress: frames, innermost first, their names, outermost first, the lines so far,
last first, the cycles of outermost functions, and the stack of the last line. -/
structure Folding where
  frames : List Frame := []
  names : List String := []
  lines : List String := []
  total : Int := 0
  last? : Option String := none

/-- A folded trace, last line first; an incomplete one has no cost. -/
structure Folded where
  lines : List String
  cost? : Option Int
  start? : Option Int

def nameOf (names : Table Int String) (function : Int) : String :=
  (names.find? function).getD ("func_" ++ toString function)

def stackText (names : List String) : String := ";".intercalate names

def leave (f : Folding) (function counter : Int) : Except EvalCause Folding :=
  match f.frames with
  | [] => .error .traceUnderflow
  | top :: outer =>
    if top.function ≠ -function then .error .traceMismatch
    else
      let cost := counter - top.entered
      let stack := stackText f.names
      let callers := f.names.dropLast
      let spaced :=
        if f.last? = some stack then (stackText callers ++ ";spacer 0") :: f.lines else f.lines
      let lines := (stack ++ " " ++ toString (cost - top.children)) :: spaced
      match outer with
      | [] => .ok ⟨[], callers, lines, f.total + cost, some stack⟩
      | caller :: rest =>
        .ok ⟨{ caller with children := caller.children + cost } :: rest, callers, lines, f.total,
          some stack⟩

/-- Takes up one entry of a trace. -/
def step (names : Table Int String) (f : Folding) (e : Int × Int) : Except EvalCause Folding :=
  if 0 ≤ e.1 then
    .ok { f with
      frames := ⟨e.1, e.2, 0⟩ :: f.frames
      names := f.names ++ [nameOf names e.1] }
  else leave f e.1 e.2

def fold (names : Table Int String) (trace : List (Int × Int)) : Except EvalCause Folded := do
  let f ← trace.foldlM (step names) {}
  if f.frames.isEmpty then return ⟨f.lines, some f.total, none⟩
  else return ⟨"incomplete_trace 10000" :: f.lines, none, trace.head?.map (·.2)⟩

end CanisterShell.Trace
