import CanisterShell.Candid.Build
import CanisterShell.Error

/-!
# Calculating

Scripts calculate with whole numbers of any size and with floating-point numbers.  An operation of
both kinds is one of floating-point numbers; a comparison of both kinds is exact.
-/

namespace CanisterShell

open Candid

/-- A number to calculate with. -/
inductive Numeral where
  | whole (n : Int)
  | real (x : Double)

instance : Coe Int Numeral := ⟨.whole⟩

namespace Numeral

def ofValue? : Value → Option Numeral
  | .number n => some (whole n)
  | .int _ n => some (whole n)
  | .float _ x => some (real x)
  | _ => none

def toValue : Numeral → Value
  | whole n => .int .int n
  | real x => .float .float64 x

/-- The floating-point form, unless the number is too large for one. -/
def toDouble? : Numeral → Option Double
  | whole n => Double.ofInt? n
  | real x => some x

/-- The result of an operation that is given for both kinds. -/
def combine (onWhole : Int → Int → Int) (onReal : Double → Double → Double) :
    Numeral → Numeral → Option Numeral
  | whole m, whole n => some (whole (onWhole m n))
  | a, b => do return real (onReal (← a.toDouble?) (← b.toDouble?))

def isZero : Numeral → Bool
  | whole n => n = 0
  | real x => x.isZero

/-- The order of two numbers, if there is one. -/
def compare? : Numeral → Numeral → Option Ordering
  | whole m, whole n => some (compare m n)
  | real x, real y => x.compare? y
  | real x, whole n => x.compareInt? n
  | whole m, real y => (y.compareInt? m).map Ordering.swap

end Numeral

inductive Operation where
  | add | sub | mul | div
  deriving DecidableEq

namespace Operation

/-- The result of an operation; the quotient of whole numbers is cut towards zero. -/
def apply : Operation → Numeral → Numeral → Option Numeral
  | add => Numeral.combine (· + ·) Double.add
  | sub => Numeral.combine (· - ·) Double.sub
  | mul => Numeral.combine (· * ·) Double.mul
  | div => Numeral.combine Int.tdiv Double.div

end Operation

inductive Comparison where
  | lt | lte | gt | gte
  deriving DecidableEq

def Comparison.holds : Comparison → Ordering → Bool
  | lt, o => o = .lt
  | lte, o => o ≠ .gt
  | gt, o => o = .gt
  | gte, o => o ≠ .lt

end CanisterShell
