import CanisterShell.Number.Decimal
import CanisterShell.Text.Quote

/-!
# Plain data

What configuration documents, replies of a replica and message files are made of.  A map keeps its
entries in order, and a later value for a key takes the place of the earlier one.  A collection can
be frozen, which shows in messages and when something asks for a map that is not.
-/

namespace CanisterShell

/-- A piece of plain data; `other` stands for what a format has beyond the rest, by its kind. -/
inductive Datum where
  | null
  | bool (b : Bool)
  | int (n : Int)
  | float (x : Double)
  | text (s : String)
  | bytes (b : Bytes)
  | list (items : List Datum)
  | map (entries : List (Datum × Datum))
  | frozen (d : Datum)
  | other (kind : String)
  deriving Inhabited

namespace Datum

/-- The whole number that a datum counts as, truth being one. -/
def whole? : Datum → Option Int
  | bool b => some (if b then 1 else 0)
  | int n => some n
  | _ => none

/-- Whether two data count as the same key: numbers do by their value. -/
def sameKey : Datum → Datum → Bool
  | null, null => true
  | text a, text b => a = b
  | bytes a, bytes b => a = b
  | float x, float y => x.same y
  | a, b =>
    match a.whole?, b.whole? with
    | some m, some n => m = n
    | some m, none => match b with | float x => x.compareInt? m = some .eq | _ => false
    | none, some n => match a with | float x => x.compareInt? n = some .eq | _ => false
    | none, none => false

/-- Puts an entry into a map: in the place of the same key, or else at the end. -/
def put (key value : Datum) : List (Datum × Datum) → List (Datum × Datum)
  | [] => [(key, value)]
  | (k, v) :: rest => if k.sameKey key then (k, value) :: rest else (k, v) :: put key value rest

/-- The map of entries given in order. -/
def ofEntries (entries : List (Datum × Datum)) : Datum :=
  map (entries.foldl (fun m e => put e.1 e.2 m) [])

/-- The value of a text key. -/
def find? (key : String) (entries : List (Datum × Datum)) : Option Datum :=
  (entries.find? fun e => match e.1 with | text s => s = key | _ => false).map (·.2)

/-- The value of a text key of a map. -/
def get? (key : String) : Datum → Option Datum
  | map entries => find? key entries
  | _ => none

/-- The display of items between brackets; a frozen list of one item has a comma behind it. -/
def listDisplay (isFrozen : Bool) (items : List String) : String :=
  let body := ", ".intercalate items
  if isFrozen then "(" ++ body ++ (if items.length = 1 then ",)" else ")")
  else "[" ++ body ++ "]"

def mapDisplay (isFrozen : Bool) (entries : List String) : String :=
  let body := "\x7b" ++ ", ".intercalate entries ++ "\x7d"
  if isFrozen then "frozendict(" ++ body ++ ")" else body

mutual

def displayAs (isFrozen : Bool) : Datum → String
  | null => "None"
  | bool b => if b then "True" else "False"
  | int n => toString n
  | float x => x.toText
  | text s => Text.quoted s
  | bytes b => Text.quotedBytes b
  | list items => listDisplay isFrozen (displays items)
  | map entries => mapDisplay isFrozen (entryDisplays entries)
  | frozen d => displayAs true d
  | other kind => kind

def displays : List Datum → List String
  | [] => []
  | d :: rest => displayAs false d :: displays rest

def entryDisplays : List (Datum × Datum) → List String
  | [] => []
  | (k, v) :: rest => (displayAs false k ++ ": " ++ displayAs false v) :: entryDisplays rest

end

/-- The display of a datum inside a message. -/
def display (d : Datum) : String := displayAs false d

/-- A datum as a message of its own: text stands without quotes. -/
def plain : Datum → String
  | text s => s
  | d => d.display

mutual

/-- The datum with nothing frozen. -/
def thaw : Datum → Datum
  | list items => list (thawItems items)
  | map entries => map (thawEntries entries)
  | frozen d => thaw d
  | d => d

def thawItems : List Datum → List Datum
  | [] => []
  | d :: rest => thaw d :: thawItems rest

def thawEntries : List (Datum × Datum) → List (Datum × Datum)
  | [] => []
  | (k, v) :: rest => (thaw k, thaw v) :: thawEntries rest

end

/-- Whether a datum counts as empty: nothing, zero, false, or without parts. -/
def isEmpty : Datum → Bool
  | null => true
  | bool b => !b
  | int n => n = 0
  | float x => x.isZero
  | text s => s = ""
  | bytes b => b.isEmpty
  | list items => items.isEmpty
  | map entries => entries.isEmpty
  | frozen d => isEmpty d
  | other _ => false

end Datum

end CanisterShell
