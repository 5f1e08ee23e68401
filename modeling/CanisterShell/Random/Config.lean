import CanisterShell.Error
import CanisterShell.Document.Datum

/-!
# Settings for random values

A table of settings tells how random values are made: how deep and how large they get, the range of
numbers, the kind of texts, and the seed.  Unknown settings are kept.
-/

namespace CanisterShell.Random

/-- The kinds of random texts. -/
inductive TextKind where
  | ascii | name | alphanumeric | emoji
  deriving DecidableEq

namespace TextKind

def text : TextKind → String
  | ascii => "ascii"
  | name => "name"
  | alphanumeric => "alphanumeric"
  | emoji => "emoji"

def ofText? (s : String) : Option TextKind :=
  [ascii, name, alphanumeric, emoji].find? fun k => k.text = s

end TextKind

/-- A bound of the range of numbers; a truth value counts as zero or one. -/
inductive Bound where
  | number (n : Int)
  | truth (b : Bool)
  deriving DecidableEq

namespace Bound

def value : Bound → Int
  | number n => n
  | truth b => if b then 1 else 0

def ofDatum? : Datum → Option Bound
  | .int n => some (number n)
  | .bool b => some (truth b)
  | _ => none

def toDatum : Bound → Datum
  | number n => .int n
  | truth b => .bool b

end Bound

/-- Settings for random values. -/
structure Config where
  depth : Nat := 5
  size : Nat := 10
  range? : Option (Bound × Bound) := none
  text : TextKind := .ascii
  seed? : Option Nat := none
  extra : List (Datum × Datum) := []
  deriving Inhabited

namespace Config

/-- The natural number of a setting. -/
def natural (key : String) : Datum → Attempt Nat
  | .int n => if n < 0 then .error (.config (.notNatural key)) else .ok n.toNat
  | _ => .error (.config (.notNatural key))

/-- The range of numbers that a setting gives. -/
def rangeOf : Datum → Attempt (Bound × Bound)
  | .list [low, high] =>
    match Bound.ofDatum? low, Bound.ofDatum? high with
    | some low, some high =>
      if high.value < low.value then .error (.config .badRange) else .ok (low, high)
    | _, _ => .error (.config .badRange)
  | _ => .error (.config .badRange)

def textOf : Datum → Attempt TextKind
  | .text s =>
    match TextKind.ofText? s with
    | some k => .ok k
    | none => .error (.config .badTextKind)
  | _ => .error (.config .badTextKind)

/-- Takes up a setting. -/
def set (c : Config) (key value : Datum) : Attempt Config := do
  match key with
  | .text "depth" => return { c with depth := ← natural "depth" value }
  | .text "size" => return { c with size := ← natural "size" value }
  | .text "seed" => return { c with seed? := some (← natural "seed" value) }
  | .text "range" => return { c with range? := some (← rangeOf value) }
  | .text "text" => return { c with text := ← textOf value }
  | key => return { c with extra := Datum.put key value c.extra }

/-- The settings of a table. -/
def ofDatum : Datum → Attempt Config
  | .map entries => entries.foldlM (fun c e => c.set e.1 e.2) {}
  | _ => .error (.config .notTable)

end Config

end CanisterShell.Random
