import CanisterShell.Candid.Ty
import CanisterShell.Number.Double
import CanisterShell.Principal

/-!
# Values

What a script can hold.  A number is a literal that has not been given a type yet; integers and
floats know theirs.  A blob is a vector of bytes in its own form.  The fields of a record are kept
like those of a record type.
-/

namespace CanisterShell.Candid

inductive Value where
  | null
  | reserved
  | nothing
  | bool (b : Bool)
  | text (s : String)
  | number (n : Int)
  | int (kind : IntKind) (n : Int)
  | float (kind : FloatKind) (x : Double)
  | opt (v : Value)
  | vec (items : List Value)
  | blob (bytes : Bytes)
  | record (fields : List (Label × Value))
  | variant (label : Label) (v : Value) (index : Nat)
  | principal (p : Principal)
  | service (p : Principal)
  | func (p : Principal) (method : String)
  deriving Inhabited

namespace Value

/-- The record of items without names. -/
def tuple (items : List Value) : Value := record (labelFrom 0 items)

/-- The result of a call: nothing is null, a single value is itself, several form a tuple. -/
def ofResults : List Value → Value
  | [] => null
  | [v] => v
  | vs => tuple vs

/-- The byte that a value is, if its type is that of bytes. -/
def byte? : Value → Option UInt8
  | int .nat8 n => some (UInt8.ofNat n.toNat)
  | _ => none

def ofByte (b : UInt8) : Value := int .nat8 b.toNat

/-- The bytes of a blob, or of a vector all of whose items are bytes. -/
def bytes? : Value → Option Bytes
  | blob bytes => some bytes
  | vec items => items.mapM byte?
  | _ => none

/-- The whole number of a literal or an integer. -/
def integer? : Value → Option Int
  | number n => some n
  | int _ n => some n
  | _ => none

def field? (label : Label) : Value → Option Value
  | record fields => lookup? label fields
  | _ => none

/-! ## Types of values -/

/-- The type of the first of some values, given their types. -/
def itemTy : List Ty → Ty
  | [] => .empty
  | t :: _ => t

mutual

/-- The type of a value, as far as the value shows it: a vector is typed by its first item, and an
untyped number is a natural one unless it is negative. -/
def ty : Value → Ty
  | null => .null
  | reserved => .reserved
  | nothing => .opt .empty
  | bool _ => .bool
  | text _ => .text
  | number n => if n < 0 then .int else .nat
  | int k _ => .prim (.int k)
  | float k _ => .prim (.float k)
  | opt v => .opt (ty v)
  | vec items => .vec (itemTy (tys items))
  | blob _ => .blob
  | record fields => .record (fieldTys fields)
  | variant label v _ => .variant [(label, ty v)]
  | principal _ => .principal
  | service _ => .service []
  | func _ _ => .func [] [] []

def tys : List Value → List Ty
  | [] => []
  | v :: rest => ty v :: tys rest

def fieldTys : List (Label × Value) → List (Label × Ty)
  | [] => []
  | (l, v) :: rest => (l, ty v) :: fieldTys rest

end

/-! ## Equality -/

/-- Whether two values without parts are the same value of the same type. -/
def sameLeaf : Value → Value → Bool
  | null, null => true
  | reserved, reserved => true
  | nothing, nothing => true
  | bool a, bool b => a = b
  | text a, text b => a = b
  | float k x, float l y => k = l && x.same y
  | principal p, principal q => p = q
  | service p, service q => p = q
  | func p m, func q n => p = q && m = n
  | _, _ => false

/-- Whether two vectors of which one is a blob hold the same bytes. -/
def sameBytes (a b : Value) : Bool :=
  match bytes? a, bytes? b with
  | some x, some y => x = y
  | _, _ => false

mutual

/-- Equality as scripts see it: an untyped number equals every integer of its magnitude, and a blob
equals the vector of its bytes. -/
def equal : Value → Value → Bool
  | number m, number n => m = n
  | number m, int _ n => m = n
  | int _ m, number n => m = n
  | int k m, int l n => k = l && m = n
  | opt v, opt w => equal v w
  | blob a, blob b => a = b
  | blob a, vec items => sameBytes (blob a) (vec items)
  | vec items, blob b => sameBytes (vec items) (blob b)
  | vec vs, vec ws => equalAll vs ws
  | record fs, record gs => equalFields fs gs
  | variant l v _, variant m w _ => l.same m && equal v w
  | v, w => sameLeaf v w

def equalAll : List Value → List Value → Bool
  | [], [] => true
  | v :: vs, w :: ws => equal v w && equalAll vs ws
  | _, _ => false

def equalFields : List (Label × Value) → List (Label × Value) → Bool
  | [], [] => true
  | (l, v) :: fs, (m, w) :: gs => l.same m && equal v w && equalFields fs gs
  | _, _ => false

end

mutual

/-- Equality of the values themselves: same form, same type, same index of a variant. -/
def identical : Value → Value → Bool
  | number m, number n => m = n
  | int k m, int l n => k = l && m = n
  | opt v, opt w => identical v w
  | blob a, blob b => a = b
  | vec vs, vec ws => identicalAll vs ws
  | record fs, record gs => identicalFields fs gs
  | variant l v i, variant m w j => l.same m && identical v w && i = j
  | v, w => sameLeaf v w

def identicalAll : List Value → List Value → Bool
  | [], [] => true
  | v :: vs, w :: ws => identical v w && identicalAll vs ws
  | _, _ => false

def identicalFields : List (Label × Value) → List (Label × Value) → Bool
  | [], [] => true
  | (l, v) :: fs, (m, w) :: gs => l.same m && identical v w && identicalFields fs gs
  | _, _ => false

end

end Value

end CanisterShell.Candid
