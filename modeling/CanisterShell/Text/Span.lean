/-!
# Places in a text

Lines and columns count from one, and a span holds the characters from its start up to its end.
-/

namespace CanisterShell.Text

/-- A part of a text and the place where it starts. -/
structure Span where
  start : Nat
  stop : Nat
  line : Nat
  column : Nat
  deriving DecidableEq, Repr, Inhabited

/-- The line and column behind the given characters. -/
def place (before : List Char) : Nat × Nat :=
  (before.count '\n' + 1, (before.reverse.takeWhile (· ≠ '\n')).length + 1)

/-- The line and column of the character at an offset; an offset behind the end counts as part of
the last line. -/
def placeOf (source : List Char) (offset : Nat) : Nat × Nat :=
  let (line, column) := place (source.take offset)
  (line, column + (offset - source.length))

def spanOf (source : List Char) (start stop : Nat) : Span :=
  let (line, column) := placeOf source start
  ⟨start, stop, line, column⟩

def Span.cut (s : Span) (source : List Char) : List Char :=
  (source.drop s.start).take (s.stop - s.start)

end CanisterShell.Text
