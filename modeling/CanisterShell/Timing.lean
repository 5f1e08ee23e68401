import CanisterShell.Number.Decimal

/-!
# Times

How long something took, as scripts show it, and the policy by which the state of a call is asked
for: with growing delays, up to a deadline.
-/

namespace CanisterShell

/-- A time as scripts show it: in milliseconds below a second. -/
def elapsedText (seconds : Double) : String :=
  if seconds.compareInt? 1 = some .lt then
    (seconds.mul (.ofRatio false 1000 1)).toFixed2 ++ "ms"
  else seconds.toFixed2 ++ "s"

/-- A number of seconds, which may have been given as a whole number. -/
inductive Seconds where
  | whole (n : Int)
  | real (x : Double)
  deriving DecidableEq, Repr

namespace Seconds

/-- The number as a floating-point one. -/
def toDouble : Seconds → Double
  | whole n => .ofRatio (n < 0) n.natAbs 1
  | real x => x

def toText : Seconds → String
  | whole n => toString n
  | real x => x.toText

/-- A decimal number of seconds. -/
def ofRatio (num den : Nat) : Seconds := real (.ofRatio false num den)

/-- The product, which is whole for whole numbers. -/
def mul : Seconds → Seconds → Seconds
  | whole m, whole n => whole (m * n)
  | a, b => real (a.toDouble.mul b.toDouble)

def below (a b : Seconds) : Bool :=
  match a, b with
  | whole m, whole n => m < n
  | a, b => a.toDouble.compare? b.toDouble = some .lt

/-- The smaller of two; of equal ones the first. -/
def least (a b : Seconds) : Seconds := if b.below a then b else a

/-- The sum, which is whole for whole numbers. -/
def add : Seconds → Seconds → Seconds
  | whole m, whole n => whole (m + n)
  | a, b => real (a.toDouble.add b.toDouble)

/-- Whether one is at least the other. -/
def reaches (a b : Seconds) : Bool :=
  match a, b with
  | whole m, whole n => n ≤ m
  | a, b => a.toDouble.compare? b.toDouble = some .gt || a.toDouble.compare? b.toDouble = some .eq

end Seconds

/-- Delays between questions after the state of a call, which grow by a factor up to a limit, and
the time after which no answer is expected any more. -/
structure PollPolicy where
  initial : Seconds := .ofRatio 1 1
  factor : Seconds := .ofRatio 11 10
  maxDelay : Seconds := .ofRatio 10 1
  timeout : Seconds := .ofRatio 300 1

namespace PollPolicy

/-- The delay after one. -/
def next (p : PollPolicy) (delay : Seconds) : Seconds := (delay.mul p.factor).least p.maxDelay

/-- The first delays. -/
def delays (p : PollPolicy) : (count : Nat) → (delay : Seconds) → List Seconds
  | 0, _ => []
  | count + 1, delay => delay :: delays p count (p.next delay)

end PollPolicy

/-- How those who wait see the time go by, in a world that they wait in. -/
structure Timer (σ : Type) where
  clock : StateM σ Seconds
  sleep : Seconds → StateM σ Unit

end CanisterShell
