import CanisterShell.Candid.Wire.Decode

/-!
# Aligning decoded values with expected types

A value that was decoded at the types of its message is brought to the type that the reader expects:
labels get their names, fields that are not expected are dropped, and missing options, nulls and
reserved values are filled in.
-/

namespace CanisterShell.Candid

namespace Wire

/-- How a value is aligned with each type. -/
abbrev Aligner := Ty → Attempt Value

/-- The value that stands for a missing one of a type, names resolved. -/
def absentValue? : Ty → Option Value
  | .opt _ => some .nothing
  | .prim .null => some .null
  | .prim .reserved => some .reserved
  | _ => none

/-- A value whose parts do not change, at a type, names resolved. -/
def alignLeaf (v : Value) (t : Ty) : Value :=
  match v, t with
  | _, .prim .reserved => .reserved
  | .null, .opt _ | .reserved, .opt _ => .nothing
  | v, _ => v

/-- The fields of a record, aligned with the expected ones. -/
def alignRecord (scope : Scope) (fields : List (Label × Aligner)) (expected : List (Label × Ty)) :
    Attempt Value := do
  let aligned ← expected.mapM fun (label, u) => do
    match lookup? label fields with
    | some align => return (label, ← align u)
    | none =>
      match absentValue? (← scope.resolve u) with
      | some v => return (label, v)
      | none => throw (.eval (.missingDecodedField label))
  Value.mkRecord aligned

mutual

def alignValue (scope : Scope) : Value → Aligner
  | .opt item => fun t => do
    match ← scope.resolve t with
    | .opt u => return .opt (← alignValue scope item u)
    | t => return alignLeaf (.opt item) t
  | .vec items => fun t => do
    match ← scope.resolve t with
    | .vec u => return .vec (← alignItems scope items u)
    | t => return alignLeaf (.vec items) t
  | .record fields => fun t => do
    match ← scope.resolve t with
    | .record expected => alignRecord scope (fieldAligners scope fields) expected
    | t => return alignLeaf (.record fields) t
  | .variant label item index => fun t => do
    match ← scope.resolve t with
    | .variant cases =>
      match cases.findIdx? fun c => c.1.same label with
      | none => throw (.eval (.unknownDecodedCase label (.variant cases)))
      | some i =>
        match cases[i]? with
        | some (expected, u) => return .variant expected (← alignValue scope item u) i
        | none => throw (.eval (.unknownDecodedCase label (.variant cases)))
    | t => return alignLeaf (.variant label item index) t
  | v => fun t => do return alignLeaf v (← scope.resolve t)

def alignItems (scope : Scope) : List Value → Ty → Attempt (List Value)
  | [] => fun _ => return []
  | v :: rest => fun t => do
    let v ← alignValue scope v t
    return v :: (← alignItems scope rest t)

def fieldAligners (scope : Scope) : List (Label × Value) → List (Label × Aligner)
  | [] => []
  | (l, v) :: rest => (l, alignValue scope v) :: fieldAligners scope rest

end

/-- Results aligned with the `total` expected types, of which those in `types` remain; results that
are not expected are dropped. -/
def alignAll (scope : Scope) (total got : Nat) : List Value → List Ty → Attempt (List Value)
  | _, [] => return []
  | v :: values, t :: types => do
    let v ← alignValue scope v t
    return v :: (← alignAll scope total got values types)
  | [], t :: types => do
    match ← scope.resolve t with
    | .opt _ => return .nothing :: (← alignAll scope total got [] types)
    | .prim .null | .prim .reserved => return .null :: (← alignAll scope total got [] types)
    | _ => throw (.eval (.tooFewResults total got))

end Wire

def decodeAs (scope : Scope) (bytes : Bytes) (types : List Ty) : Attempt (List Value) := do
  let values ← decodeArgs bytes
  Wire.alignAll scope types.length values.length values types

end CanisterShell.Candid
