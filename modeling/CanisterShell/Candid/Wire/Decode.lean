import CanisterShell.Candid.Build
import CanisterShell.Candid.Wire.Encode
import CanisterShell.Message

/-!
# Decoding argument lists

The type table is read first; it gives a name to each of its places, and the values are read at the
types that it spells out.
-/

namespace CanisterShell.Candid

namespace Wire

/-- A computation that reads from the front of a byte string. -/
abbrev Reader (α : Type) : Type := StateT Bytes (Except Failure) α

/-- The first `n` bytes and the rest, if there are so many. -/
def split? : (n : Nat) → Bytes → Option (Bytes × Bytes)
  | 0, bytes => some ([], bytes)
  | _ + 1, [] => none
  | n + 1, b :: rest => (split? n rest).map fun (front, rest) => (b :: front, rest)

namespace Reader

def take (n : Nat) : Reader Bytes := fun bytes =>
  match split? n bytes with
  | some r => .ok r
  | none => .error (.malformed .ended)

def byte : Reader UInt8
  | [] => .error (.malformed .ended)
  | b :: rest => .ok (b, rest)

/-- A natural number. -/
def nat : Reader Nat := readLeb

/-- A whole number. -/
def int : Reader Int := readSleb

def text : Reader String := do
  match Utf8.decode? (← take (← nat)) with
  | some s => return s
  | none => throw (.malformed .notUtf8)

def times {α : Type} (read : Reader α) : (n : Nat) → Reader (List α)
  | 0 => return []
  | n + 1 => do
    let x ← read
    return x :: (← times read n)

def list {α : Type} (read : Reader α) : Reader (List α) := do times read (← nat)

end Reader

/-! ## The type table -/

/-- An entry of a type table, before its references are checked. -/
inductive RawType where
  | opt (item : Int)
  | vec (item : Int)
  | record (fields : List (Nat × Int))
  | variant (cases : List (Nat × Int))
  | func (args results : List Int) (modes : Bytes)
  | service (methods : List (String × Int))

/-- A label's number and a reference. -/
def readField : Reader (Nat × Int) := do
  let id ← Reader.nat
  return (id, ← Reader.int)

/-- A method's name and a reference. -/
def readMethod : Reader (String × Int) := do
  let name ← Reader.text
  return (name, ← Reader.int)

def readEntry : Reader RawType := do
  let code ← Reader.int
  if code = optCode then return .opt (← Reader.int)
  else if code = vecCode then return .vec (← Reader.int)
  else if code = recordCode then return .record (← Reader.list readField)
  else if code = variantCode then return .variant (← Reader.list readField)
  else if code = funcCode then
    let args ← Reader.list Reader.int
    let results ← Reader.list Reader.int
    return .func args results (← Reader.list Reader.byte)
  else if code = serviceCode then return .service (← Reader.list readMethod)
  else throw (.malformed (.unknownConstructor code))

def placeName (place : Nat) : String := "table" ++ toString place

/-- The type of a reference into a table of `size` places. -/
def typeOfRef (size : Nat) (ref : Int) : Attempt Ty :=
  if 0 ≤ ref then
    if ref < size then .ok (.var (placeName ref.toNat))
    else .error (.malformed (.indexRange ref))
  else
    match Prim.ofCode? ref with
    | some p => .ok (.prim p)
    | none => .error (.malformed (.unknownCode ref))

def typedFields (size : Nat) (fields : List (Nat × Int)) : Attempt (List (Label × Ty)) :=
  fields.mapM fun (id, ref) => do return (.numbered id, ← typeOfRef size ref)

/-- The type that an entry spells out. -/
def RawType.toTy (size : Nat) : RawType → Attempt Ty
  | opt item => do return .opt (← typeOfRef size item)
  | vec item => do return .vec (← typeOfRef size item)
  | record fields => do Ty.mkRecord (← typedFields size fields)
  | variant cases => do Ty.mkVariant (← typedFields size cases)
  | func args results modes => do
    let args ← args.mapM (typeOfRef size)
    let results ← results.mapM (typeOfRef size)
    return .func args results (modes.map Mode.ofCode)
  | service methods => do
    return Ty.mkService (← methods.mapM fun (n, ref) => do return (n, ← typeOfRef size ref))

/-- Pairs each type with the name of its place, the first being at `place`. -/
def namedFrom (place : Nat) : List Ty → Scope
  | [] => []
  | t :: rest => (placeName place, t) :: namedFrom (place + 1) rest

/-- The table and the types of the arguments. -/
def readHeader : Reader (Scope × List Ty) := do
  let entries ← Reader.list readEntry
  let types ← (entries.mapM (·.toTy entries.length) : Except Failure (List Ty))
  let args ← Reader.list do
    let ref ← Reader.int
    (typeOfRef entries.length ref : Except Failure Ty)
  return (namedFrom 0 types, args)

/-! ## Values -/

/-- A principal in the open form of references. -/
def readPrincipal : Reader Principal := do
  if (← Reader.byte) ≠ 1 then throw (.malformed .opaqueReference)
  match Principal.ofBytes (← Reader.take (← Reader.nat)) with
  | .ok p => return p
  | .error fault => throw (.fault (.badValue fault.message))

/-- The number of an integer type that some bytes hold. -/
def fixedInteger (kind : IntKind) (bytes : Bytes) : Int :=
  let n := Bytes.toNatLE bytes
  let size := 2 ^ (8 * bytes.length)
  if kind.isSigned && size ≤ 2 * n then (n : Int) - size else n

def readInteger (kind : IntKind) : Reader Value := do
  match kind.width? with
  | some width => return .int kind (fixedInteger kind (← Reader.take width))
  | none =>
    if kind.isSigned then return .int kind (← Reader.int)
    else return .int kind (← Reader.nat)

/-- A floating-point number of a type. -/
def readFloat : FloatKind → Reader Value
  | .float32 => do
    let bytes ← Reader.take 4
    return .float .float32 (.ofSingle (UInt32.ofNat (Bytes.toNatLE bytes)))
  | .float64 => do
    let bytes ← Reader.take 8
    return .float .float64 ⟨UInt64.ofNat (Bytes.toNatLE bytes), .unnumbered⟩

def readPrim : Prim → Reader Value
  | .null => return .null
  | .reserved => return .reserved
  | .empty => throw (.malformed .emptyValue)
  | .bool => do
    let b ← Reader.byte
    if 1 < b then throw (.malformed .badBool)
    return .bool (b = 1)
  | .int kind => readInteger kind
  | .float kind => readFloat kind
  | .text => do return .text (← Reader.text)
  | .principal => do return .principal (← readPrincipal)

/-- A value of a type whose names the table defines, nested at most `depth` deep. -/
def readValue (scope : Scope) : (depth : Nat) → Ty → Reader Value
  | 0, _ => throw .exhausted
  | depth + 1, t => do
    match ← (scope.resolve t : Except Failure Ty) with
    | .prim p => readPrim p
    | .opt item =>
      if (← Reader.byte) = 0 then return .nothing
      else return .opt (← readValue scope depth item)
    | .vec item =>
      let n ← Reader.nat
      if ← (scope.isByte item : Except Failure Bool) then return .blob (← Reader.take n)
      else return .vec (← Reader.times (readValue scope depth item) n)
    | .record fields =>
      let values ← fields.mapM fun (label, u) => do return (label, ← readValue scope depth u)
      (Value.mkRecord values : Except Failure Value)
    | .variant cases =>
      let i ← Reader.nat
      match cases[i]? with
      | some (label, u) => return .variant label (← readValue scope depth u) i
      | none => throw (.malformed (.variantIndex i))
    | .func .. =>
      if (← Reader.byte) ≠ 1 then throw (.malformed .opaqueFunction)
      let p ← readPrincipal
      return .func p (← Reader.text)
    | .service _ => return .service (← readPrincipal)
    | .var name => throw (.eval (.undecodableType (.var name)))

/-- How deep the values of a message can nest: each level of an option, vector or variant takes a
byte, and records of the table that hold each other without taking any would do so forever. -/
def depthBound (length places : Nat) : Nat := (length + 2) * (places + 2)

def readValues (scope : Scope) (depth : Nat) : List Ty → Reader (List Value)
  | [] => return []
  | t :: rest => do
    let v ← readValue scope depth t
    return v :: (← readValues scope depth rest)

def readMessage (depth : Nat → Nat) : Reader (List Value) := do
  if (← Reader.take 4) ≠ magic then throw (.malformed .noMagic)
  let (scope, types) ← readHeader
  readValues scope (depth scope.length) types

end Wire

/-- Decodes an argument list at the types that it spells out itself. -/
def decodeArgs (bytes : Bytes) : Attempt (List Value) := do
  let (values, rest) ← (Wire.readMessage (Wire.depthBound bytes.length)).run bytes
  if rest.isEmpty then return values else throw (.malformed .trailing)

end CanisterShell.Candid
