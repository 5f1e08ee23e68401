import CanisterShell.Error
import CanisterShell.Table

/-!
# Scopes of type names

A scope gives types to names.  A name is resolved by following definitions to a type that is none;
each definition can be used once on the way, so that a chain that comes back to a name is noticed.
-/

namespace CanisterShell.Candid

/-- Definitions of type names, in the order of the first definition of each. -/
abbrev Scope := Table String Ty

namespace Scope

/-- Follows a type's name through the definitions of `unused`, those of `scope` that have not been
used on the way. -/
def resolveIn (scope unused : Scope) : Ty → Except EvalCause Ty
  | .var name =>
    match h : unused.find? name with
    | some t =>
      have := Table.length_without_lt h
      resolveIn scope (unused.without name) t
    | none => .error (if (scope.find? name).isSome then .cyclicType name else .unboundType name)
  | t => .ok t
termination_by unused.length

/-- The type behind a type's name. -/
def resolve (scope : Scope) (t : Ty) : Attempt Ty :=
  (resolveIn scope scope t).mapError .eval

/-- The parts of a function type, by name or as such. -/
def resolveFunc (scope : Scope) (t : Ty) : Attempt (List Ty × List Ty × List Mode) := do
  match ← resolve scope t with
  | .func args results modes => return (args, results, modes)
  | t => throw (.eval (.notFunction t))

/-- The methods of a service type, by name or as such. -/
def resolveService (scope : Scope) (t : Ty) : Attempt (List (String × Ty)) := do
  match ← resolve scope t with
  | .service methods => return methods
  | t => throw (.eval (.notService t))

/-- Whether a type is that of bytes, by name or as such. -/
def isByte (scope : Scope) (t : Ty) : Attempt Bool := return (← resolve scope t).isByte

end Scope

end CanisterShell.Candid
