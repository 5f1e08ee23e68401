import CanisterShell.Candid.Build
import CanisterShell.Shell.Session
import CanisterShell.Text.Classes

/-!
# Selection

The steps of a path into a value.  Vectors, blobs, texts and records are seen as lists of elements,
the elements of a record being pairs of a key and a value.  A function is applied to an element in
an environment where the element is bound to the empty name, and what has been accumulated to `_`.
-/

namespace CanisterShell.Selection

open Candid Syntax

/-! ## Views of values -/

def nameOf : Selector → SelectorName
  | .index _ => .index
  | .field label => .field label
  | .unwrap => .unwrap
  | .size => .size
  | .map function => .map function
  | .filter function => .filter function
  | .fold _ function => .fold function

/-- The failure of a selector that does not apply to a value. -/
def mismatch (s : Selector) (v : Value) : Failure :=
  .error (.selector (.mismatch (nameOf s) v))

def items? : Value → Option (List Value)
  | .vec items => some items
  | .blob bytes => some (bytes.map Value.ofByte)
  | .text s => some (s.toList.map fun c => .text c.toString)
  | _ => none

/-- A field as a pair of its key and its value. -/
def pairOf (field : Label × Value) : Value := .tuple [.text field.1.toText, field.2]

def elements? : Value → Option (List Value)
  | .record fields => some (fields.map pairOf)
  | v => items? v

def fieldOf (s : Selector) (v : Value) (label : Label) : Attempt Value :=
  match v with
  | .record fields =>
    match lookup? label fields with
    | some found => .ok found
    | none => .error (.error (.fieldNotFound label v))
  | .variant active item _ =>
    if active.same label then .ok item else .error (.error (.fieldNotFound label v))
  | v => .error (mismatch s v)

/-- The field that a key names; no field has a negative number. -/
def fieldAt (s : Selector) (v key : Value) : Attempt Value :=
  match key with
  | .text name => fieldOf s v (.named name)
  | key =>
    match key.integer? with
    | some n =>
      if n < 0 then .error (.error (.fieldNotFound (.named (toString n)) v))
      else fieldOf s v (.numbered n.toNat)
    | none => .error (.error (.selector (.labelNotKey key)))

def itemAt (items : List Value) (index : Value) : Attempt Value :=
  match index.integer? with
  | none => .error (.error (.selector (.indexNotNumber index)))
  | some i =>
    match (if i < 0 then none else items[i.toNat]?) with
    | some v => .ok v
    | none => .error (.error (.selector (.bounds i items.length)))

/-! ## Values from elements -/

/-- The label that a key stands for: digits alone are a number. -/
def labelOf (key : String) : Attempt Label :=
  let cs := key.toList
  if cs.isEmpty || !cs.all Text.isDigit then .ok (.named key)
  else
    match Text.decimalNumber? cs with
    | some n => .ok (.numbered n)
    | none => .error (.fault (.badValue
        ("invalid literal for int() with base 10: " ++ Text.quoted key)))

/-- The field that a pair of a key and a value stands for. -/
def fieldOfPair (v : Value) : Attempt (Label × Value) :=
  match v with
  | .record fields =>
    match fields.length, lookup? (.numbered 0) fields, lookup? (.numbered 1) fields with
    | 2, some (.text key), some value => do return (← labelOf key, value)
    | _, _, _ => .error (.error (.selector (.notPair v)))
  | v => .error (.error (.selector (.notPair v)))

def textOf : Value → Attempt String
  | .text s => .ok s
  | v => .error (.error (.selector (.notText v)))

/-- The value of the same kind as another that has the given elements; a blob becomes a vector when
not all of them are bytes. -/
def rebuild (like : Value) (items : List Value) : Attempt Value :=
  match like with
  | .blob _ =>
    match items.mapM Value.byte? with
    | some bytes => .ok (.blob bytes)
    | none => .ok (.vec items)
  | .record _ => do Value.mkRecord (← items.mapM fieldOfPair)
  | .text _ => do return .text (String.join (← items.mapM textOf))
  | _ => .ok (.vec items)

/-! ## Steps -/

/-- The elements of a value, for a selector that goes through them. -/
def elementsFor (s : Selector) (v : Value) : Attempt (List Value) :=
  match elements? v with
  | some items => .ok items
  | none => .error (mismatch s v)

section

variable {σ : Type} (eval : Exp → Running σ Value)

/-- Applies a function to an element, which it binds. -/
def applyTo (function : String) (v : Value) : Running σ Value := do
  Running.modifyEnv (Env.bind "" v)
  eval (.apply function [.path "" []])

/-- Whether an element is kept: unless the function fails or gives false. -/
def keeps (function : String) (v : Value) : Running σ Bool := do
  match ← outcome (applyTo eval function v) with
  | .error _ => return false
  | .ok (.bool false) => return false
  | .ok _ => return true

/-- Applies a function to what has been accumulated and the next element, which it binds. -/
def accumulate (function : String) (acc v : Value) : Running σ Value := do
  Running.modifyEnv fun env => (env.bind "" v).bind "_" acc
  eval (.apply function [.path "_" [], .path "" []])

/-- A step into a value.  Functions are applied to elements in a child of the environment. -/
def step (v : Value) (s : Selector) : Running σ Value := do
  match s, v with
  | .unwrap, .opt item => return item
  | .unwrap, .nothing => throw (.error (.selector .unwrapNull))
  | .unwrap, v => throw (mismatch s v)
  | .field label, v => fieldOf s v label
  | .index e, v =>
    match v with
    | .record _ | .variant .. => fieldAt s v (← eval e)
    | v =>
      match items? v with
      | some items => itemAt items (← eval e)
      | none => throw (mismatch s v)
  | .size, v => return .int .nat (← elementsFor s v).length
  | .map function, v =>
    let items ← elementsFor s v
    rebuild v (← Running.inChild id (items.mapM (applyTo eval function)))
  | .filter function, v =>
    let items ← elementsFor s v
    rebuild v (← Running.inChild id (items.filterM (keeps eval function)))
  | .fold start function, v =>
    let items ← elementsFor s v
    let acc ← eval start
    Running.inChild id (items.foldlM (accumulate eval function) acc)

/-- The steps of a path, one after another. -/
def walk (v : Value) (selectors : List Selector) : Running σ Value :=
  selectors.foldlM (step eval) v

end

end CanisterShell.Selection
