import CanisterShell.Document.Cbor
import CanisterShell.Error

/-!
# Hash trees

A certificate holds a part of the state as a tree whose nodes are numbered lists: forks, labelled
subtrees, leaves, and stubs in place of what was left out.  A path of labels leads from the root to
a leaf.  The nodes are read only as far as a path needs them.
-/

namespace CanisterShell

namespace Datum

def byte : Datum → Attempt UInt8
  | d =>
    match d.whole? with
    | none => .error (.fault .wrongType)
    | some n =>
      if 0 ≤ n ∧ n < 256 then .ok (UInt8.ofNat n.toNat)
      else .error (.fault (.badValue "bytes must be in range(0, 256)"))

/-- The bytes that a datum stands for: a number is a count of zeros, and a list is one of bytes. -/
def toBytes : Datum → Attempt Bytes
  | .bytes b => .ok b
  | .list items => items.mapM byte
  | .map entries => entries.mapM fun e => byte e.1
  | .frozen d => toBytes d
  | d =>
    match d.whole? with
    | none => .error (.fault .wrongType)
    | some n =>
      if n < 0 then .error (.fault (.badValue "negative count"))
      else if 2 ^ 31 ≤ n then .error (.fault .overflow)
      else .ok (List.replicate n.toNat 0)

end Datum

namespace HashTree

/-- The numbers in front of nodes. -/
def forkMark : Datum := .int 1
def labelMark : Datum := .int 2
def leafMark : Datum := .int 3

/-- A subtree that is there. -/
def present? : Datum → Option Datum
  | .null => none
  | d => some d

/-- The subtree under a label; of several the leftmost one. -/
def child? (label : Bytes) : Datum → Attempt (Option Datum)
  | .list [mark, left, right] => do
    if mark.sameKey forkMark then
      match ← child? label left with
      | some found => return some found
      | none => child? label right
    else if mark.sameKey labelMark then
      if (← left.toBytes) = label then return present? right
      return none
    else return none
  | _ => return none

def labelBytes : Datum → Attempt Bytes
  | .bytes b => .ok b
  | .text s => .ok (Utf8.encode s)
  | _ => .error (.fault .missingAttribute)

/-- The subtree at the end of a path. -/
def subtree? : (path : List Datum) → Datum → Attempt (Option Datum)
  | [], tree => return some tree
  | label :: rest, tree => do
    match ← child? (← labelBytes label) tree with
    | some sub => subtree? rest sub
    | none => return none

def leaf? : Datum → Attempt (Option Bytes)
  | .list [mark, content] =>
    if mark.sameKey leafMark then content.toBytes.map some else return none
  | _ => return none

/-- The content of the leaf at the end of a path. -/
def lookup (tree : Datum) (path : List Datum) : Attempt (Option Bytes) := do
  match ← subtree? path tree.thaw with
  | some sub => leaf? sub
  | none => return none

end HashTree

end CanisterShell
