import CanisterShell.Candid.Scope
import CanisterShell.Candid.Value

/-!
# Building types and values

Constructors that check what the plain ones leave open: no label twice in a record or variant,
numbers within the range of their type, single-precision numbers rounded to their width.
-/

namespace CanisterShell.Candid

namespace Ty

def mkRecord (fields : List (Label × Ty)) : Attempt Ty :=
  let sorted := sortFields fields
  match repeatedLabel? sorted with
  | some label => .error (.eval (.repeatedTypeField label))
  | none => .ok (.record sorted)

def mkVariant (cases : List (Label × Ty)) : Attempt Ty :=
  let sorted := sortFields cases
  match repeatedLabel? sorted with
  | some label => .error (.eval (.repeatedTypeField label))
  | none => .ok (.variant sorted)

def mkService (methods : List (String × Ty)) : Ty := .service (sortMethods methods)

end Ty

namespace Value

def mkRecord (fields : List (Label × Value)) : Attempt Value :=
  let sorted := Ty.sortFields fields
  match Ty.repeatedLabel? sorted with
  | some label => .error (.eval (.repeatedField label))
  | none => .ok (.record sorted)

/-- The integer of a type. -/
def mkInt (kind : IntKind) (n : Int) : Attempt Value :=
  if kind.holds n then .ok (.int kind n) else .error (.cast (.range n kind))

/-- The floating-point number of a type; too large a number for single precision is a fault. -/
def mkFloat : FloatKind → Double → Attempt Value
  | .float64, x => .ok (.float .float64 x)
  | .float32, x =>
    match x.toSingle? with
    | some bits => .ok (.float .float32 (.ofSingle bits))
    | none => .error (.fault .overflow)

end Value

end CanisterShell.Candid

/-!
## Fresh results

A not-a-number equals only copies of itself, so each one that a computation gives is numbered.  A
value is numbered part by part; what has been numbered stays as it is.
-/

namespace CanisterShell.Candid.Value

/-- Numbers a not-a-number that has no number yet; `n` numbers have been given away. -/
def freshDouble (n : Nat) (x : Double) : Double × Nat :=
  if x.isNaN && x.origin = .unnumbered then ({ x with origin := .computed n }, n + 1) else (x, n)

mutual

/-- Numbers the parts of a value, and tells how many numbers have then been given away. -/
def fresh (n : Nat) : Value → Value × Nat
  | float k x =>
    let (x, n) := freshDouble n x
    (float k x, n)
  | opt v =>
    let (v, n) := fresh n v
    (opt v, n)
  | vec items =>
    let (items, n) := freshItems n items
    (vec items, n)
  | record fields =>
    let (fields, n) := freshFields n fields
    (record fields, n)
  | variant l v i =>
    let (v, n) := fresh n v
    (variant l v i, n)
  | v => (v, n)

def freshItems (n : Nat) : List Value → List Value × Nat
  | [] => ([], n)
  | v :: rest =>
    let (v, n) := fresh n v
    let (rest, n) := freshItems n rest
    (v :: rest, n)

def freshFields (n : Nat) : List (Label × Value) → List (Label × Value) × Nat
  | [] => ([], n)
  | (l, v) :: rest =>
    let (v, n) := fresh n v
    let (rest, n) := freshFields n rest
    ((l, v) :: rest, n)

end

end CanisterShell.Candid.Value
