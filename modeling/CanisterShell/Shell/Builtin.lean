import CanisterShell.Candid.Printer
import CanisterShell.Compression.Deflate
import CanisterShell.Ledger
import CanisterShell.Shell.Numeral

/-!
# Functions that are built in

The functions that every script can call, by name, with the number of their arguments; and the
results of those that need nothing but their arguments.
-/

namespace CanisterShell

open Candid

inductive Builtin where
  | account | neuronAccount | file | gzip | output | wasmProfiling | flamegraph | stringify | concat
  | calculate (op : Operation)
  | eq | neq
  | compare (c : Comparison)
  | not | and | or | exist | ite
  deriving DecidableEq

namespace Builtin

def names : Table String Builtin := [
  ("account", account), ("neuron_account", neuronAccount), ("file", file), ("gzip", gzip),
  ("output", output), ("wasm_profiling", wasmProfiling), ("flamegraph", flamegraph),
  ("stringify", stringify), ("concat", concat), ("add", calculate .add), ("sub", calculate .sub),
  ("mul", calculate .mul), ("div", calculate .div), ("eq", eq), ("neq", neq),
  ("lt", compare .lt), ("lte", compare .lte), ("gt", compare .gt), ("gte", compare .gte),
  ("not", not), ("and", and), ("or", or), ("exist", exist), ("ite", ite)]

def ofName? (name : String) : Option Builtin := names.find? name

/-- The number of arguments. -/
def arity : Builtin → Arity
  | account | file | gzip | not | exist => .exactly 1
  | flamegraph | ite => .exactly 3
  | wasmProfiling => .atLeast 1
  | stringify => .atLeast 0
  | _ => .exactly 2

/-- Whether the arguments are handed over as expressions. -/
def takesExpressions : Builtin → Bool
  | exist | ite => true
  | _ => false

/-! ## Arguments -/

def principalOf (name : String) (v : Value) : Attempt Principal :=
  let refusal : Attempt Principal := .error (.eval (.needsPrincipal name))
  match v with
  | .principal p | .service p => .ok p
  | .text s =>
    match Principal.ofText s with
    | .ok p => .ok p
    | .error _ => refusal
  | _ => refusal

def textOf (name : String) : Value → Attempt String
  | .text s => .ok s
  | _ => .error (.eval (.needsText name))

/-- The truth value that an argument is. -/
def boolOf (name : String) : Value → Attempt Bool
  | .bool b => .ok b
  | _ => .error (.eval (.needsBool name))

/-- The number that an argument is. -/
def numeralOf (name : String) (v : Value) : Attempt Numeral :=
  match Numeral.ofValue? v with
  | some n => .ok n
  | none => .error (.eval (.needsNumbers name v))

/-! ## Results -/

def neuronAccountOf (owner nonce : Value) : Attempt Value := do
  let p ← principalOf "neuron_account" owner
  match nonce.integer? with
  | none => throw (.eval .badNonce)
  | some n =>
    if n < 0 then throw (.eval .badNonce)
    if 2 ^ 64 ≤ n then throw (.fault .overflow)
    return .blob (Ledger.neuronAccount p n.toNat)

def plainText (v : Value) : Attempt String :=
  match v with
  | .text s => .ok s
  | .number n => .ok (toString n)
  | .int _ n => .ok (toString n)
  | .float _ x => .ok x.toText
  | .bool b => .ok (if b then "true" else "false")
  | .principal p => .ok p.toText
  | v => .error (.eval (.noText v))

/-- The items of a blob or a vector. -/
def itemsOf : Value → List Value
  | .blob bytes => bytes.map Value.ofByte
  | .vec items => items
  | _ => []

/-- One row of items behind another: a blob when both are bytes. -/
def joinItems (v w : Value) : Value :=
  match v.bytes?, w.bytes? with
  | some a, some b => .blob (a ++ b)
  | _, _ => .vec (itemsOf v ++ itemsOf w)

/-- One value behind another of the same kind. -/
def concatOf (v w : Value) : Attempt Value :=
  match v, w with
  | .text a, .text b => .ok (.text (a ++ b))
  | .blob _, .blob _ | .blob _, .vec _ | .vec _, .blob _ => .ok (joinItems v w)
  | .vec vs, .vec ws => .ok (.vec (vs ++ ws))
  | .record fs, .record gs => Value.mkRecord (fs ++ gs)
  | _, _ => .error (.eval .concatKinds)

def operationName : Operation → String
  | .add => "add" | .sub => "sub" | .mul => "mul" | .div => "div"

def comparisonName : Comparison → String
  | .lt => "lt" | .lte => "lte" | .gt => "gt" | .gte => "gte"

def calculateOf (op : Operation) (v w : Value) : Attempt Value := do
  let name := operationName op
  let a ← numeralOf name v
  let b ← numeralOf name w
  if op = .div && b.isZero then throw (.eval .divisionByZero)
  match op.apply a b with
  | some n => return n.toValue
  | none => throw (.eval (.tooLargeForFloat name))

/-- The result of a comparison; numbers without an order are in none. -/
def compareOf (c : Comparison) (v w : Value) : Attempt Value := do
  let a ← numeralOf (comparisonName c) v
  let b ← numeralOf (comparisonName c) w
  return .bool ((a.compare? b).any c.holds)

/-- The result of a function that needs nothing but its arguments; `none` for the others. -/
def result? : Builtin → List Value → Option (Attempt Value)
  | account, [v] => some do
    return .blob (Ledger.account (← principalOf "account" v) Ledger.defaultSubaccount)
  | neuronAccount, [v, w] => some (neuronAccountOf v w)
  | gzip, [v] => some <|
    match v.bytes? with
    | some bytes => .ok (.blob (CanisterShell.gzip bytes))
    | none => .error (.eval .gzipNeedsBlob)
  | stringify, vs => some do return .text (String.join (← vs.mapM plainText))
  | concat, [v, w] => some (concatOf v w)
  | calculate op, [v, w] => some (calculateOf op v w)
  | eq, [v, w] => some (.ok (.bool (v.equal w)))
  | neq, [v, w] => some (.ok (.bool (!v.equal w)))
  | compare c, [v, w] => some (compareOf c v w)
  | not, [v] => some do return .bool (!(← boolOf "not" v))
  | and, [v, w] => some do
    if ← boolOf "and" v then return .bool (← boolOf "and" w) else return .bool false
  | or, [v, w] => some do
    if ← boolOf "or" v then return .bool true else return .bool (← boolOf "or" w)
  | _, _ => none

end Builtin

/-- Whether a number of arguments is taken. -/
def Arity.takes : Arity → Nat → Bool
  | exactly n, got => got = n
  | between least most, got => least ≤ got && got ≤ most
  | atLeast n, got => n ≤ got

end CanisterShell
