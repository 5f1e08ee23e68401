import CanisterShell.Syntax.Grammar
import CanisterShell.Syntax.Source

/-!
# Reading scripts, expressions, types and interfaces

Scripts and expressions are prepared before they are read; in types and interfaces only comments are
blanked.
-/

namespace CanisterShell.Syntax

open Candid

/-- An unforeseen failure of a part of a literal, seen from outside. -/
def wholeLiteral {α : Type} : Attempt α → Attempt α
  | .error (.fault _) => .error (.fault .insideLiteral)
  | r => r

/-- Reads a phrase from a prepared source and builds its tree. -/
def build {α : Type} (phrase : Except ParseError (Attempt α)) : Attempt α :=
  match phrase with
  | .error e => .error (.error (.parse e))
  | .ok tree => wholeLiteral tree

def lift {α : Type} (r : Except ParseError α) : Attempt α := r.mapError fun e => .error (.parse e)

def readCommands (prepared : List Char) : Attempt (List Command) :=
  build (scriptGrammar.parse .commands prepared)

/-- Reads a script. -/
def parseCommands (environ : Source.Environ) (source : String) : Attempt (List Command) := do
  readCommands (← lift (Source.prepare environ source.toList))

/-- Reads a single command. -/
def parseCommand (environ : Source.Environ) (source : String) : Attempt Command := do
  build (scriptGrammar.parse .command (← lift (Source.prepare environ source.toList)))

/-- Reads an expression. -/
def parseExp (environ : Source.Environ) (source : String) : Attempt Exp := do
  build (scriptGrammar.parse .exp (← lift (Source.prepare environ source.toList)))

def parseType (source : String) : Attempt Ty := do
  build (scriptGrammar.parse .datatype (← lift (Source.blankComments source.toList)))

def parseInterface (source : String) : Attempt (List Item) := do
  build (interfaceGrammar.parse .interface (← lift (Source.blankComments source.toList)))

end CanisterShell.Syntax
