import CanisterShell.Candid.Build
import CanisterShell.Candid.Cast
import CanisterShell.Candid.Wire.TypeTable

/-!
# Encoding argument lists

A message holds a type table, the types of the arguments and the arguments' values, one behind the
other.  A value is written at the type that the receiver declares: fields are checked against it,
and missing options, nulls and reserved values are filled in.
-/

namespace CanisterShell.Candid

namespace Wire

/-- The bytes in front of every message. -/
def magic : Bytes := [0x44, 0x49, 0x44, 0x4C]

def mismatch {α : Type} (v : Value) (t : Ty) : Attempt α := .error (.cast (.mismatch v t))

/-- A principal in the open form of references. -/
def principalBytes (p : Principal) : Bytes := 1 :: leb p.bytes.length ++ p.bytes

def integerBytes (kind : IntKind) (n : Int) : Attempt Bytes :=
  if kind.holds n then
    match kind.width? with
    | some width => .ok (Bytes.ofNatLE width (n % 2 ^ (8 * width)).toNat)
    | none => .ok (if kind.isSigned then sleb n else leb n.toNat)
  else .error (.cast (.range n kind))

/-- A floating-point number of one of the two widths. -/
def floatBytes : FloatKind → Double → Attempt Bytes
  | .float64, x => .ok (Bytes.ofNatLE 8 x.bits.toNat)
  | .float32, x =>
    match x.toSingle? with
    | some bits => .ok (Bytes.ofNatLE 4 bits.toNat)
    | none => .error (.fault .overflow)

def primBytes (v : Value) (p : Prim) : Attempt Bytes :=
  match p, v with
  | .reserved, _ => .ok []
  | .null, .null | .null, .nothing | .null, .reserved => .ok []
  | .bool, .bool b => .ok [if b then 1 else 0]
  | .int kind, .number n => integerBytes kind n
  | .int kind, .int _ n => integerBytes kind n
  | .float kind, .float _ x => floatBytes kind x
  | .float kind, .number n => do floatBytes kind (← (Value.number n).toDouble)
  | .text, .text s => .ok (textBytes s)
  | .principal, .principal p => .ok (principalBytes p)
  | p, v => mismatch v (.prim p)

/-- A value of the form of a function or service at its type. -/
def referenceBytes (v : Value) (t : Ty) : Attempt Bytes :=
  match t, v with
  | .func .., .func p method => .ok (1 :: principalBytes p ++ textBytes method)
  | .service _, .service p => .ok (principalBytes p)
  | .service _, .principal p => .ok (principalBytes p)
  | t, v => mismatch v t

/-- A value without parts at a type, names resolved. -/
def leafBytes (v : Value) (t : Ty) : Attempt Bytes :=
  match t, v with
  | .prim p, v => primBytes v p
  | .opt _, .null | .opt _, .nothing | .opt _, .reserved => .ok [0]
  | t, v => referenceBytes v t

/-- The bytes for a field that the value does not have. -/
def absentBytes (scope : Scope) (label : Label) (t : Ty) : Attempt Bytes := do
  let resolved ← scope.resolve t
  if resolved.isOpt then return [0]
  else if resolved.isNullOrReserved then return []
  else throw (.cast (.missingField label t))

/-- How a value is written at each type. -/
abbrev Writer := Ty → Attempt Bytes

/-- The fields of a record at the fields of its type, in the order of the type. -/
def recordBytes (scope : Scope) (t : Ty) (fields : List (Label × Writer))
    (expected : List (Label × Ty)) : Attempt Bytes := do
  match fields.find? fun f => !expected.any fun e => e.1.same f.1 with
  | some (label, _) => throw (.cast (.unexpectedField label t))
  | none =>
    let parts ← expected.mapM fun (label, u) =>
      match lookup? label fields with
      | some write => write u
      | none => absentBytes scope label u
    return parts.flatten

def caseOf? (label : Label) (cases : List (Label × Ty)) : Option (Nat × Ty) :=
  (cases.findIdx? fun c => c.1.same label).bind fun i => cases[i]?.map fun c => (i, c.2)

mutual

def valueBytes (scope : Scope) : Value → Writer
  | .opt item => fun t => do
    match ← scope.resolve t with
    | .prim .reserved => return []
    | .opt u => return 1 :: (← valueBytes scope item u)
    | t => mismatch (.opt item) t
  | .vec items => fun t => do
    match ← scope.resolve t with
    | .prim .reserved => return []
    | .vec u => return leb items.length ++ (← itemsBytes scope items u)
    | t => mismatch (.vec items) t
  | .blob bytes => fun t => do
    match ← scope.resolve t with
    | .prim .reserved => return []
    | .vec u =>
      if ← scope.isByte u then return leb bytes.length ++ bytes
      else
        let parts ← bytes.mapM fun b => do leafBytes (.ofByte b) (← scope.resolve u)
        return leb bytes.length ++ parts.flatten
    | t => mismatch (.blob bytes) t
  | .record fields => fun t => do
    match ← scope.resolve t with
    | .prim .reserved => return []
    | .record expected =>
      recordBytes scope (.record expected) (fieldWriters scope fields) expected
    | t => mismatch (.record fields) t
  | .variant label item index => fun t => do
    match ← scope.resolve t with
    | .prim .reserved => return []
    | .variant cases =>
      match caseOf? label cases with
      | some (i, u) => return leb i ++ (← valueBytes scope item u)
      | none => throw (.cast (.unknownCase label (.variant cases)))
    | t => mismatch (.variant label item index) t
  | v => fun t => do leafBytes v (← scope.resolve t)

def itemsBytes (scope : Scope) : List Value → Writer
  | [] => fun _ => return []
  | v :: rest => fun t => do
    let bytes ← valueBytes scope v t
    return bytes ++ (← itemsBytes scope rest t)

def fieldWriters (scope : Scope) : List (Label × Value) → List (Label × Writer)
  | [] => []
  | (l, v) :: rest => (l, valueBytes scope v) :: fieldWriters scope rest

end

end Wire

def encodeAs (scope : Scope) (values : List Value) (types : List Ty) : Attempt Bytes := do
  if types.length ≠ values.length then
    throw (.cast (.argumentCount types.length values.length))
  let (refs, table) ← Wire.refs scope types
  let parts ← (values.zip types).mapM fun (v, t) => Wire.valueBytes scope v t
  return Wire.magic ++ table.bytes ++ Wire.leb refs.length ++ refs.flatMap Wire.sleb
    ++ parts.flatten

def encodeArgs (values : List Value) : Attempt Bytes := encodeAs [] values (values.map (·.ty))

end CanisterShell.Candid
