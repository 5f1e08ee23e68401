import CanisterShell.Candid.Quoted
import CanisterShell.Order

/-!
# Types

The types of Candid: primitive ones, names, options, vectors, records, variants, functions and
services.  The fields of records and variants are kept in ascending order of their labels, no label
twice, and the methods of services in order of their names.
-/

namespace CanisterShell.Candid

/-- The integer types. -/
inductive IntKind where
  | nat | int | nat8 | nat16 | nat32 | nat64 | int8 | int16 | int32 | int64
  deriving DecidableEq, Repr

namespace IntKind

def all : List IntKind := [nat, int, nat8, nat16, nat32, nat64, int8, int16, int32, int64]

def name : IntKind → String
  | nat => "nat" | int => "int"
  | nat8 => "nat8" | nat16 => "nat16" | nat32 => "nat32" | nat64 => "nat64"
  | int8 => "int8" | int16 => "int16" | int32 => "int32" | int64 => "int64"

/-- The least number of the type, if there is one. -/
def least? : IntKind → Option Int
  | int => none
  | nat | nat8 | nat16 | nat32 | nat64 => some 0
  | int8 => some (-2 ^ 7) | int16 => some (-2 ^ 15) | int32 => some (-2 ^ 31)
  | int64 => some (-2 ^ 63)

/-- The greatest number of the type, if there is one. -/
def greatest? : IntKind → Option Int
  | nat | int => none
  | nat8 => some (2 ^ 8 - 1) | nat16 => some (2 ^ 16 - 1) | nat32 => some (2 ^ 32 - 1)
  | nat64 => some (2 ^ 64 - 1)
  | int8 => some (2 ^ 7 - 1) | int16 => some (2 ^ 15 - 1) | int32 => some (2 ^ 31 - 1)
  | int64 => some (2 ^ 63 - 1)

/-- Whether the type holds a number. -/
def holds (k : IntKind) (n : Int) : Bool :=
  k.least?.all (fun lo => decide (lo ≤ n)) && k.greatest?.all (fun hi => decide (n ≤ hi))

/-- The bytes that a number of the type takes, if they are fixed. -/
def width? : IntKind → Option Nat
  | nat | int => none
  | nat8 | int8 => some 1
  | nat16 | int16 => some 2
  | nat32 | int32 => some 4
  | nat64 | int64 => some 8

/-- Whether the type holds negative numbers. -/
def isSigned : IntKind → Bool
  | int | int8 | int16 | int32 | int64 => true
  | nat | nat8 | nat16 | nat32 | nat64 => false

end IntKind

/-- The floating-point types. -/
inductive FloatKind where
  | float32 | float64
  deriving DecidableEq, Repr

def FloatKind.name : FloatKind → String
  | float32 => "float32"
  | float64 => "float64"

inductive Prim where
  | null | bool | int (kind : IntKind) | float (kind : FloatKind) | text | reserved | empty
  | principal
  deriving DecidableEq, Repr

namespace Prim

def all : List Prim :=
  [null, bool] ++ IntKind.all.map int ++ [float .float32, float .float64, text, reserved, empty,
    principal]

def name : Prim → String
  | null => "null" | bool => "bool" | int k => k.name | float k => k.name | text => "text"
  | reserved => "reserved" | empty => "empty" | principal => "principal"

def ofName? (name : String) : Option Prim := all.find? fun p => p.name = name

end Prim

/-- The annotations of a function. -/
inductive Mode where
  | query | oneway | compositeQuery
  deriving DecidableEq, Repr

namespace Mode

def name : Mode → String
  | query => "query"
  | oneway => "oneway"
  | compositeQuery => "composite_query"

def all : List Mode := [query, oneway, compositeQuery]

def ofName? (name : String) : Option Mode := all.find? fun m => m.name = name

end Mode

/-- The types of Candid. -/
inductive Ty where
  | prim (p : Prim)
  | var (name : String)
  | opt (item : Ty)
  | vec (item : Ty)
  | record (fields : List (Label × Ty))
  | variant (fields : List (Label × Ty))
  | func (args results : List Ty) (modes : List Mode)
  | service (methods : List (String × Ty))
  deriving Repr, Inhabited

namespace Ty

abbrev null : Ty := prim .null
abbrev bool : Ty := prim .bool
abbrev nat : Ty := prim (.int .nat)
abbrev int : Ty := prim (.int .int)
abbrev nat8 : Ty := prim (.int .nat8)
abbrev nat16 : Ty := prim (.int .nat16)
abbrev nat64 : Ty := prim (.int .nat64)
abbrev int32 : Ty := prim (.int .int32)
abbrev int64 : Ty := prim (.int .int64)
abbrev text : Ty := prim .text
abbrev reserved : Ty := prim .reserved
abbrev empty : Ty := prim .empty
abbrev principal : Ty := prim .principal
abbrev blob : Ty := vec nat8

/-- The type of the byte, for which vectors are blobs. -/
def isByte : Ty → Bool
  | prim (.int .nat8) => true
  | _ => false

def isNull : Ty → Bool
  | prim .null => true
  | _ => false

/-- The types whose values may be missing without being options. -/
def isNullOrReserved : Ty → Bool
  | prim .null => true
  | prim .reserved => true
  | _ => false

def isOpt : Ty → Bool
  | opt _ => true
  | _ => false

def isPrim : Ty → Bool
  | prim _ => true
  | _ => false

/-- The primitive type of a name, or else a reference to the type of that name. -/
def ofName (name : String) : Ty := ((Prim.ofName? name).map prim).getD (var name)

def isQuery : Ty → Bool
  | func _ _ modes => modes.contains .query || modes.contains .compositeQuery
  | _ => false

/-! ## Fields in order -/

def sortFields {α : Type} (fields : List (Label × α)) : List (Label × α) :=
  sortBy (fun a b => a.1.id ≤ b.1.id) fields

/-- A label that two of the sorted fields share. -/
def repeatedLabel? {α : Type} (fields : List (Label × α)) : Option Label :=
  (repeated? (fun f => f.1.id) fields).map (·.1)

/-- Methods in order of their names. -/
def sortMethods (methods : List (String × Ty)) : List (String × Ty) :=
  sortBy (fun a b => a.1 ≤ b.1) methods

/-- The record of items without names. -/
def tuple (items : List Ty) : Ty := record (labelFrom 0 items)

/-! ## Equality -/

mutual

/-- Whether two types are the same, labels being compared by their numbers. -/
def same : Ty → Ty → Bool
  | prim p, prim q => p = q
  | var a, var b => a = b
  | opt a, opt b => same a b
  | vec a, vec b => same a b
  | record fs, record gs => sameFields fs gs
  | variant fs, variant gs => sameFields fs gs
  | func as rs ms, func bs ss ns => sameAll as bs && sameAll rs ss && ms = ns
  | service ms, service ns => sameMethods ms ns
  | _, _ => false

def sameAll : List Ty → List Ty → Bool
  | [], [] => true
  | a :: as, b :: bs => same a b && sameAll as bs
  | _, _ => false

def sameFields : List (Label × Ty) → List (Label × Ty) → Bool
  | [], [] => true
  | (l, a) :: as, (m, b) :: bs => l.same m && same a b && sameFields as bs
  | _, _ => false

def sameMethods : List (String × Ty) → List (String × Ty) → Bool
  | [], [] => true
  | (l, a) :: as, (m, b) :: bs => l = m && same a b && sameMethods as bs
  | _, _ => false

end

/-! ## Text -/

/-- A construct with a braced body. -/
def braced (head : String) (parts : List String) : String :=
  if parts.isEmpty then head ++ " \x7b\x7d"
  else head ++ " \x7b " ++ "; ".intercalate parts ++ " \x7d"

/-- The text of a function type behind its keyword, from the texts of its parts. -/
def signatureText (args results : List String) (modes : List Mode) : String :=
  "(" ++ ", ".intercalate args ++ ") -> (" ++ ", ".intercalate results ++ ")" ++
    String.join (modes.map (" " ++ ·.name))

mutual

def toText : Ty → String
  | prim p => p.name
  | var name => name
  | opt t => "opt " ++ toText t
  | vec t => if t.isByte then "blob" else "vec " ++ toText t
  | record fields =>
    braced "record" (if countsFrom 0 fields then bareTexts fields else fieldTexts fields)
  | variant fields => braced "variant" (caseTexts fields)
  | func args results modes => "func " ++ signatureText (texts args) (texts results) modes
  | service methods => braced "service" (methodTexts methods)

def texts : List Ty → List String
  | [] => []
  | t :: rest => toText t :: texts rest

def bareTexts : List (Label × Ty) → List String
  | [] => []
  | (_, t) :: rest => toText t :: bareTexts rest

def fieldTexts : List (Label × Ty) → List String
  | [] => []
  | (l, t) :: rest => (labelText l ++ " : " ++ toText t) :: fieldTexts rest

def caseTexts : List (Label × Ty) → List String
  | [] => []
  | (l, t) :: rest =>
    (if t.isNull then labelText l else labelText l ++ " : " ++ toText t) :: caseTexts rest

/-- A method whose type is a function shows it without the keyword. -/
def methodTexts : List (String × Ty) → List String
  | [] => []
  | (n, .func args results modes) :: rest =>
    (nameText n ++ " : " ++ signatureText (texts args) (texts results) modes) :: methodTexts rest
  | (n, t) :: rest => (nameText n ++ " : " ++ toText t) :: methodTexts rest

end

/-- The text of a function type behind its keyword. -/
def signature (args results : List Ty) (modes : List Mode) : String :=
  signatureText (texts args) (texts results) modes

instance : ToString Ty := ⟨toText⟩

end Ty

end CanisterShell.Candid
