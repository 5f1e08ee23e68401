import CanisterShell.Candid.Scope
import CanisterShell.Candid.Wire.Leb128

/-!
# Type tables

An encoded message begins with a table of the composite types that its arguments use, where types
refer to each other by their index and to primitive types by a negative code.  A type takes its
place in the table before its parts do, so that recursive types refer to themselves; a name and a
composite type that have been met have one place each.
-/

namespace CanisterShell.Candid

def Prim.code : Prim → Int
  | null => -1 | bool => -2
  | int .nat => -3 | int .int => -4
  | int .nat8 => -5 | int .nat16 => -6 | int .nat32 => -7 | int .nat64 => -8
  | int .int8 => -9 | int .int16 => -10 | int .int32 => -11 | int .int64 => -12
  | float .float32 => -13 | float .float64 => -14
  | text => -15 | reserved => -16 | empty => -17 | principal => -24

def Prim.ofCode? (code : Int) : Option Prim := all.find? fun p => p.code = code

/-- The byte for an annotation of a function. -/
def Mode.code : Mode → UInt8
  | query => 1 | oneway => 2 | compositeQuery => 3

/-- The annotation of a byte; unknown ones count as queries. -/
def Mode.ofCode (code : UInt8) : Mode := (all.find? fun m => m.code = code).getD .query

namespace Wire

def optCode : Int := -18
def vecCode : Int := -19
def recordCode : Int := -20
def variantCode : Int := -21
def funcCode : Int := -22
def serviceCode : Int := -23

/-- What has a place in a type table. -/
inductive Key where
  | name (n : String)
  | composite (t : Ty)

/-- Whether two keys have one place. -/
def Key.same : Key → Key → Bool
  | name m, name n => m = n
  | composite t, composite u => t.same u
  | _, _ => false

/-- The entries of a table and the key of each place. -/
structure TypeTable where
  entries : Array Bytes := #[]
  keys : Array Key := #[]

namespace TypeTable

def find? (key : Key) (table : TypeTable) : Option Nat := table.keys.findIdx? (·.same key)

def reserve (key : Key) (table : TypeTable) : TypeTable :=
  ⟨table.entries.push [], table.keys.push key⟩

/-- A table with the entry of a place filled in. -/
def fill (place : Nat) (entry : Bytes) (table : TypeTable) : TypeTable :=
  { table with entries := table.entries.setIfInBounds place entry }

end TypeTable

abbrev Tabling (α : Type) : Type := StateT TypeTable (Except Failure) α

/-- The reference to a key: the place that it has or else takes now, with the entry that `entry`
makes. -/
def placed (key : Key) (entry : Tabling Bytes) : Tabling Int := do
  match (← get).find? key with
  | some place => return place
  | none =>
    let place := (← get).entries.size
    modify (·.reserve key)
    let bytes ← entry
    modify (·.fill place bytes)
    return place

/-- A text with its length in front. -/
def textBytes (s : String) : Bytes :=
  let bytes := Utf8.encode s
  leb bytes.length ++ bytes

/-- The reference to a type with a given entry, where `named` gives the reference to a name. -/
def refWith (named : String → Tabling Int) (t : Ty) (entry : Tabling Bytes) : Tabling Int :=
  match t with
  | .prim p => return p.code
  | .var name => named name
  | t => placed (.composite t) entry

mutual

def entry (named : String → Tabling Int) : Ty → Tabling Bytes
  | .opt item => return sleb optCode ++ sleb (← refWith named item (entry named item))
  | .vec item => return sleb vecCode ++ sleb (← refWith named item (entry named item))
  | .record fields =>
    return sleb recordCode ++ leb fields.length ++ (← fieldEntries named fields)
  | .variant cases =>
    return sleb variantCode ++ leb cases.length ++ (← fieldEntries named cases)
  | .func args results modes => do
    let args' ← refEntries named args
    let results' ← refEntries named results
    return sleb funcCode ++ leb args.length ++ args' ++ leb results.length ++ results'
      ++ leb modes.length ++ modes.map (·.code)
  | .service methods =>
    return sleb serviceCode ++ leb methods.length ++ (← methodEntries named methods)
  | .prim _ | .var _ => return []

def refEntries (named : String → Tabling Int) : List Ty → Tabling Bytes
  | [] => return []
  | t :: rest => do
    let ref ← refWith named t (entry named t)
    return sleb ref ++ (← refEntries named rest)

def fieldEntries (named : String → Tabling Int) : List (Label × Ty) → Tabling Bytes
  | [] => return []
  | (l, t) :: rest => do
    let ref ← refWith named t (entry named t)
    return leb l.id ++ sleb ref ++ (← fieldEntries named rest)

def methodEntries (named : String → Tabling Int) : List (String × Ty) → Tabling Bytes
  | [] => return []
  | (n, t) :: rest => do
    let ref ← refWith named t (entry named t)
    return textBytes n ++ sleb ref ++ (← methodEntries named rest)

end

/-- The reference to a name, where definitions may nest `depth` deep. -/
def nameRef (scope : Scope) : (depth : Nat) → String → Tabling Int
  | 0, _ => throw .exhausted
  | depth + 1, name => do
    match (← get).find? (.name name) with
    | some place => return place
    | none =>
      match ← (scope.resolve (.var name) : Except Failure Ty) with
      | .prim p => return p.code
      | t => placed (.name name) (entry (nameRef scope depth) t)

/-- The reference to a type.  Names nest at most as deep as there are definitions, for a name that
is met again has its place by then. -/
def ref (scope : Scope) (t : Ty) : Tabling Int :=
  let named := nameRef scope (scope.length + 1)
  refWith named t (entry named t)

def TypeTable.bytes (table : TypeTable) : Bytes :=
  leb table.entries.size ++ table.entries.toList.flatten

/-- The references to some types, in order, and the table that they need. -/
def refs (scope : Scope) (ts : List Ty) : Attempt (List Int × TypeTable) :=
  (ts.mapM (ref scope)).run {}

end Wire

end CanisterShell.Candid
