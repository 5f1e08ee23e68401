import CanisterShell.Shell.Numeral

/-!
# Costs of calls

A call to a canister that counts its cycles returns its result paired with a record of the cost.  The
cost is the difference of two states of the counter.  A counter that replies with floating-point
numbers has a floating-point difference, and an integer type only compares what it is given with the
ends of its range: a cost like 2.5 passes for an integer of 64 bits.  There is no value here for an
integer that is none, so what goes on with one is cut off where it would be made.
-/

namespace CanisterShell

open Candid

/-- Whether a floating-point number lies between the ends of the range of an integer type. -/
def Candid.IntKind.admits (k : IntKind) (x : Double) : Bool :=
  k.least?.all (fun lo => (x.compareInt? lo).any (· ≠ .lt)) &&
    k.greatest?.all fun hi => (x.compareInt? hi).any (· ≠ .gt)

namespace Cost

def fieldName : String := "__cost"

/-- The variable that holds the cost of the call whose result a variable holds. -/
def variableName (name : String) : String := fieldName ++ "_" ++ name

/-- The integer of 64 bits that a cost is. -/
def toValue : Numeral → Attempt Value
  | .whole n => Value.mkInt .int64 n
  | .real x =>
    if IntKind.int64.admits x then .error .exhausted  -- an integer that holds `x`
    else .error (.cast (.realRange x .int64))

/-- A result with the cost of its call. -/
def attach (result : Value) (cost : Numeral) : Attempt Value := do
  return .tuple [result, .record [(.named fieldName, ← toValue cost)]]

/-- The result and the cost in a pair of them, and any other value by itself. -/
def split : Value → Value × Option Int
  | v@(.record [(l, result), (m, .record [(.named name, .int .int64 cost)])]) =>
    if l.isNumber 0 && m.isNumber 1 && name = fieldName then (result, some cost) else (v, none)
  | v => (v, none)

end Cost

end CanisterShell
