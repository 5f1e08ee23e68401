import CanisterShell.Candid.Build
import CanisterShell.Candid.Scope
import CanisterShell.Random.Config
import CanisterShell.Random.Twister

/-!
# Random values

A value of any type, drawn from a generator under the settings in force.  Options and vectors are
empty and variants are leaves once the depth is used up.
-/

namespace CanisterShell.Random

open Candid

abbrev Drawing (α : Type) : Type := StateT Twister (Except Failure) α

namespace Drawing

def below (bound : Nat) : Drawing Nat := fun t =>
  match t.below? bound with
  | some drawn => .ok drawn
  | none => .error .exhausted

/-- A number between two others, both included. -/
def between (low high : Int) : Drawing Int := do
  return low + (← below (high - low + 1).toNat)

/-- A fraction, as a numerator over `2 ^ 53`. -/
def fraction : Drawing Nat := fun t => .ok t.fraction

/-- One of two outcomes. -/
def coin : Drawing Bool := do return (← fraction) < 2 ^ 52

/-- An item of a list that is not empty. -/
def choice {α : Type} [Inhabited α] (items : List α) : Drawing α := do
  return items.getD (← below items.length) default

/-- Draws so many times. -/
def times {α : Type} (draw : Drawing α) : (n : Nat) → Drawing (List α)
  | 0 => return []
  | n + 1 => do
    let x ← draw
    return x :: (← times draw n)

end Drawing

def charRange (first last : Char) : List Char :=
  (List.range (last.toNat - first.toNat + 1)).map fun i => Char.ofNat (first.toNat + i)

/-- Letters and digits. -/
def alphanumerics : List Char := charRange 'a' 'z' ++ charRange 'A' 'Z' ++ charRange '0' '9'

/-- First names. -/
def names : List String := ["alice", "bob", "carol", "dave", "erin", "frank", "grace", "heidi"]

/-- Faces. -/
def emoji : List Char := ['😀', '😁', '😂', '🤣', '😃', '😄', '😅', '😆', '😉', '😊']

/-- The bounds for a number of a type with the given ones, within the range of the settings. -/
def Config.bounds (c : Config) (low? high? : Option Int) : Int × Int :=
  let (low?, high?) := match c.range? with
    | none => (low?, high?)
    | some (low, high) =>
      (some (max (low?.getD low.value) low.value), some (min (high?.getD high.value) high.value))
  let low := low?.getD (-1000)
  let high := high?.getD 1000
  (min low high, high)

/-- A number within bounds. -/
def number (c : Config) (low? high? : Option Int) : Drawing Int :=
  let (low, high) := c.bounds low? high?
  Drawing.between low high

/-- A text; its length is drawn even if its kind has no use for it. -/
def textValue (c : Config) : Drawing String := do
  let n ← Drawing.between 0 c.size
  let letters (from_ : List Char) : Drawing String := do
    return String.ofList (← Drawing.times (Drawing.choice from_) n.toNat)
  match c.text with
  | .name => Drawing.choice names
  | .alphanumeric => letters alphanumerics
  | .emoji => letters emoji
  | .ascii => letters (alphanumerics ++ [' '])

/-- A floating-point number: a whole one and a fraction. -/
def floatValue (c : Config) (kind : FloatKind) : Drawing Value := do
  let n ← number c none none
  match Double.ofInt? n with
  | none => throw (.fault .overflow)
  | some whole =>
    let part := Double.ofRatio false (← Drawing.fraction) (2 ^ 53)
    (Value.mkFloat kind (whole.add part) : Except Failure Value)

def primValue (c : Config) : Prim → Drawing Value
  | .null => return .null
  | .reserved => return .reserved
  | .empty => throw (.eval .noValueOfEmpty)
  | .bool => return .bool (← Drawing.coin)
  | .int kind => do
    let n ← number c kind.least? kind.greatest?
    (Value.mkInt kind n : Except Failure Value)
  | .float kind => floatValue c kind
  | .text => return .text (← textValue c)
  | .principal => do
    match Principal.ofIndex (← Drawing.below (2 ^ 20 + 1)) with
    | .ok p => return .principal p
    | .error _ => throw (.fault .overflow)

/-- The cases whose types are primitive. -/
def leaves (scope : Scope) (cases : List (Nat × Label × Ty)) :
    Attempt (List (Nat × Label × Ty)) :=
  cases.filterM fun (_, _, t) => do return (← scope.resolve t).isPrim

/-- The cases to choose from: once the depth is used up, those that are leaves, if there are any. -/
def choices (scope : Scope) (depth : Int) (cases : List (Label × Ty)) :
    Attempt (List (Nat × Label × Ty)) := do
  let all := cases.zipIdx.map fun (c, i) => (i, c)
  if 0 < depth then return all
  let leaves ← leaves scope all
  return if leaves.isEmpty then all else leaves

/-- A value of a type, of a given depth, nested at most `fuel` levels. -/
def valueOf (c : Config) (scope : Scope) : (fuel : Nat) → (depth : Int) → Ty → Drawing Value
  | 0, _, _ => throw .exhausted
  | fuel + 1, depth, t => do
    match ← (scope.resolve t : Except Failure Ty) with
    | .prim p => primValue c p
    | .opt item =>
      if depth ≤ 0 then return .nothing
      else if ← Drawing.coin then return .nothing
      else return .opt (← valueOf c scope fuel (depth - 1) item)
    | .vec item =>
      let n ← if depth ≤ 0 then pure 0 else Drawing.below (c.size + 1)
      if ← (scope.isByte item : Except Failure Bool) then
        return .blob ((← Drawing.times (Drawing.below 256) n).map UInt8.ofNat)
      else return .vec (← Drawing.times (valueOf c scope fuel (depth - 1) item) n)
    | .record fields =>
      let values ← fields.mapM fun (label, u) => do
        return (label, ← valueOf c scope fuel (depth - 1) u)
      (Value.mkRecord values : Except Failure Value)
    | .variant [] => throw (.eval .noValueOfEmptyVariant)
    | .variant cases =>
      let (i, label, u) ← Drawing.choice (← (choices scope depth cases :
        Except Failure (List (Nat × Label × Ty))))
      return .variant label (← valueOf c scope fuel (depth - 1) u) i
    | .func .. => return .func .management "method"
    | .service _ => return .service .management
    | .var name => throw (.eval (.unboundType name))

/-- Values of some types, drawn one after the other, each nested at most `fuel` levels; `seed` serves
where the settings have none. -/
def valuesWithin (c : Config) (scope : Scope) (fuel seed : Nat) (types : List Ty) :
    Attempt (List Value) :=
  (types.mapM (valueOf c scope fuel c.depth)).run' (.ofSeed (c.seed?.getD seed))

/-- Values of some types, nested no deeper than anyone waits for. -/
def values (c : Config) (scope : Scope) (seed : Nat) (types : List Ty) : Attempt (List Value) :=
  valuesWithin c scope (c.depth + 1000) seed types

end CanisterShell.Random
