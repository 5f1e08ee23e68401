import CanisterShell.Candid.Build

/-!
# Casts

A cast gives a value a type.  Numbers move between the number types, text and bytes into each other,
ids become principals or services, and options and vectors are cast item by item; records and
variants are left to the wire format.
-/

namespace CanisterShell.Candid

namespace Value

/-- The floating-point number of a number; a literal is read as text would be, so that it may become
infinite, while an integer beyond the range is a fault. -/
def toDouble : Value → Attempt Double
  | number n => .ok (.ofRatio (n < 0) n.natAbs 1)
  | int _ n =>
    match Double.ofInt? n with
    | some x => .ok x
    | none => .error (.fault .overflow)
  | float _ x => .ok x
  | _ => .error (.fault .wrongType)

/-- A number as an integer of a type. -/
def castToInt (kind : IntKind) (v : Value) : Attempt Value :=
  match v with
  | float _ x =>
    if x.isNaN || x.isInfinite then .error (.cast (.notFinite x kind)) else mkInt kind x.truncate
  | v => mkInt kind (v.integer?.getD 0)

def castNumber (v : Value) (t : Ty) : Attempt Value :=
  match t with
  | .prim (.int kind) => castToInt kind v
  | .prim (.float kind) => do mkFloat kind (← v.toDouble)
  | .prim .reserved => .ok reserved
  | .record _ | .variant _ => .error (.cast (.unsupported t))
  | t => .error (.cast (.notCastable v t))

/-- An id as a principal, a service or, if it is one already, a function. -/
def castId (v : Value) (p : Principal) (t : Ty) : Attempt Value :=
  match t, v with
  | .prim .principal, _ => .ok (principal p)
  | .service _, _ => .ok (service p)
  | .func .., func .. => .ok v
  | .prim .reserved, _ => .ok reserved
  | .record _, _ | .variant _, _ => .error (.cast (.unsupported t))
  | t, v => .error (.cast (.notCastable v t))

/-- The text of bytes. -/
def castToText (v : Value) (t : Ty) : Attempt Value :=
  match v.bytes? with
  | none => .error (.cast (.notCastable v t))
  | some bytes =>
    match Utf8.decode? bytes with
    | some s => .ok (text s)
    | none => .error (.cast .blobNotUtf8)

/-- A value to which no other rule applies. -/
def castOther (v : Value) (t : Ty) : Attempt Value :=
  match v, t with
  | _, .prim .reserved => .ok reserved
  | bool b, .prim .bool => .ok (bool b)
  | text s, .prim .text => .ok (text s)
  | null, .prim .null => .ok null
  | _, .record _ | _, .variant _ => .error (.cast (.unsupported t))
  | v, t => .error (.cast (.notCastable v t))

/-- The blob of items that have been cast to bytes. -/
def blobOf (items : List Value) : Value := blob (items.filterMap byte?)

mutual

/-- Gives a value a type. -/
def cast (scope : Scope) (v : Value) (t : Ty) : Attempt Value := do
  let t ← scope.resolve t
  match v with
  | null | reserved | nothing =>
    match t with
    | .opt _ => return nothing
    | t => castOther v t
  | opt inner =>
    match t with
    | .opt item => return opt (← cast scope inner item)
    | t => castOther (opt inner) t
  | text s =>
    match t with
    | .vec item => if ← scope.isByte item then return blob (Utf8.encode s) else castOther v t
    | t => castOther v t
  | blob bytes =>
    match t with
    | .prim .text => castToText v t
    | .vec item =>
      if ← scope.isByte item then return v
      else
        return vec (← bytes.mapM fun b => do castNumber (ofByte b) (← scope.resolve item))
    | t => castOther v t
  | vec items =>
    match t with
    | .prim .text => castToText (vec items) t
    | .vec item =>
      let items ← castAll scope items item
      if ← scope.isByte item then return blobOf items else return vec items
    | t => castOther (vec items) t
  | principal p | service p | func p _ => castId v p t
  | number _ | int _ _ | float _ _ => castNumber v t
  | bool b => castOther (bool b) t
  | record fields => castOther (record fields) t
  | variant l v i => castOther (variant l v i) t

def castAll (scope : Scope) (vs : List Value) (t : Ty) : Attempt (List Value) :=
  match vs with
  | [] => .ok []
  | v :: rest => do
    let v ← cast scope v t
    return v :: (← castAll scope rest t)

end

end Value

end CanisterShell.Candid
