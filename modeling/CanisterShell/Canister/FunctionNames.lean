import CanisterShell.Candid.Wire.Align
import CanisterShell.Table

/-!
# Names of functions

A canister that counts its cycles tells the names of its functions in a metadata section, as a
vector of pairs of a number and a name.
-/

namespace CanisterShell.FunctionNames

open Candid

def sectionTy : Ty := .vec (.tuple [.nat16, .text])

/-- The number and name of an item that has both. -/
def nameOf? : Value → Attempt (Option (Int × String))
  | .record fields =>
    match lookup? (.numbered 0) fields, lookup? (.numbered 1) fields with
    | some index, some (.text name) =>
      match index.integer? with
      | some i => .ok (some (i, name))
      | none => .error (.fault .wrongType)
    | _, _ => .ok none
  | _ => .error (.fault .missingAttribute)

/-- Reads a section; of two names for a number the later one holds. -/
def read (bytes : Bytes) : Attempt (Table Int String) := do
  match ← decodeAs [] bytes [sectionTy] with
  | .vec items :: _ =>
    items.foldlM (fun names item => do
      match ← nameOf? item with
      | some (i, name) => return names.put i name
      | none => return names) []
  | _ => return []

end CanisterShell.FunctionNames
