import CanisterShell.Number.Modular
import CanisterShell.Text.Utf8

/-!
# Field labels

A field of a record or variant has a name or only a number.  On the wire there are numbers alone, a
name being hashed; so labels are compared by their numbers.
-/

namespace CanisterShell.Candid

/-- The number that stands for a name. -/
def nameHash (name : String) : Nat :=
  (Utf8.encode name).foldl (fun h b => (h * 223 + b.toNat) % 2 ^ 32) 0

inductive Label where
  | named (name : String)
  | numbered (id : Nat)
  deriving DecidableEq, Repr, Inhabited

namespace Label

/-- The number of a label. -/
def id : Label → Nat
  | named name => nameHash name
  | numbered id => id

/-- Whether two labels name the same field. -/
def same (a b : Label) : Bool := a.id = b.id

/-- The name of a label, or the digits of its number. -/
def toText : Label → String
  | named name => name
  | numbered id => toString id

/-- Whether a label is the bare number `i`. -/
def isNumber (i : Nat) : Label → Bool
  | named _ => false
  | numbered id => id = i

instance : ToString Label := ⟨toText⟩

end Label

def lookup? {α : Type} (label : Label) (fields : List (Label × α)) : Option α :=
  (fields.find? fun f => f.1.same label).map (·.2)

/-- Whether the labels are the bare numbers from `i` on, in order. -/
def countsFrom {α : Type} (i : Nat) : List (Label × α) → Bool
  | [] => true
  | f :: rest => f.1.isNumber i && countsFrom (i + 1) rest

/-- Items labelled by the numbers from `i` on. -/
def labelFrom {α : Type} (i : Nat) : List α → List (Label × α)
  | [] => []
  | x :: rest => (.numbered i, x) :: labelFrom (i + 1) rest

end CanisterShell.Candid
