import CanisterShell.Candid.Value
import CanisterShell.Number.Decimal

/-!
# Printing values

A value is printed on one line if it fits, and else with one item of its outermost container a line.
What is printed reads back as the value, null standing for all that is absent.
-/

namespace CanisterShell.Candid

/-- Puts an underscore between groups of three digits; `digits` has the least significant first. -/
def groupReversed : List Char → List Char
  | a :: b :: c :: d :: rest => a :: b :: c :: '_' :: groupReversed (d :: rest)
  | short => short

def groupDigits (n : Int) : String :=
  let digits := (groupReversed (Nat.toDigits 10 n.natAbs).reverse).reverse
  String.ofList (if n < 0 then '-' :: digits else digits)

/-- How wide a line may be, and how far a level is indented. -/
structure Layout where
  width : Nat := 80
  indent : Nat := 2

namespace Value

/-- A field of a record, from the text of its value. -/
def fieldText (label : Label) (text : String) : String := labelText label ++ " = " ++ text

/-- Whether an option puts its item in parentheses, its keyword binding tighter than the colon. -/
def needsParens : Value → Bool
  | int .. | float .. => true
  | _ => false

/-- The item of an option, from its text. -/
def optText (v : Value) (text : String) : String :=
  if v.needsParens then "opt (" ++ text ++ ")" else "opt " ++ text

/-- The name of a label that is written without quotes. -/
def bareName? : Label → Option String
  | .named name => if nameText name = name then some name else none
  | .numbered _ => none

/-- A case of a variant, from the text of its value: a case of null shows its bare name alone. -/
def variantText (label : Label) (isNull : Bool) (text : String) : String :=
  match isNull, bareName? label with
  | true, some name => "variant \x7b " ++ name ++ " \x7d"
  | _, _ => "variant \x7b " ++ fieldText label text ++ " \x7d"

def isNull : Value → Bool
  | null => true
  | _ => false

mutual

/-- A value on one line. -/
def flat : Value → String
  | null | reserved | nothing => "null"
  | bool b => if b then "true" else "false"
  | text s => quoteText s
  | number n => toString n
  | int k n => groupDigits n ++ " : " ++ k.name
  | float k x => x.toText ++ " : " ++ k.name
  | opt v => optText v (flat v)
  | blob bytes => blobText bytes
  | vec items => Ty.braced "vec" (flats items)
  | record fields =>
    Ty.braced "record" (if countsFrom 0 fields then bareFlats fields else fieldFlats fields)
  | variant label v _ => variantText label v.isNull (flat v)
  | principal p => "principal \"" ++ p.toText ++ "\""
  | service p => "service \"" ++ p.toText ++ "\""
  | func p method => "func \"" ++ p.toText ++ "\"." ++ method

def flats : List Value → List String
  | [] => []
  | v :: rest => flat v :: flats rest

def bareFlats : List (Label × Value) → List String
  | [] => []
  | (_, v) :: rest => flat v :: bareFlats rest

def fieldFlats : List (Label × Value) → List String
  | [] => []
  | (l, v) :: rest => fieldText l (flat v) :: fieldFlats rest

end

/-- A container over several lines, at a level of nesting. -/
def block (layout : Layout) (head : String) (lines : List String) (level : Nat) : String :=
  let pad (n : Nat) := String.ofList (List.replicate (n * layout.indent) ' ')
  head ++ " \x7b\n" ++ String.join (lines.map fun l => pad (level + 1) ++ l ++ ";\n")
    ++ pad level ++ "\x7d"

/-- The one-line text of a value if it fits, and `other` if not. -/
def fitting (layout : Layout) (level : Nat) (v : Value) (other : String) : String :=
  let line := flat v
  if line.length + level * layout.indent ≤ layout.width then line else other

mutual

/-- The text of a value inside a layout, at a level of nesting. -/
def toTextAt (layout : Layout) (level : Nat) : Value → String
  | opt v => fitting layout level (opt v) (optText v (toTextAt layout level v))
  | vec items =>
    fitting layout level (vec items) (block layout "vec" (texts layout (level + 1) items) level)
  | record fields =>
    fitting layout level (record fields)
      (block layout "record"
        (if countsFrom 0 fields then bareTexts layout (level + 1) fields
          else fieldTexts layout (level + 1) fields) level)
  | variant label v i =>
    fitting layout level (variant label v i)
      (variantText label v.isNull (toTextAt layout level v))
  | v => flat v

def texts (layout : Layout) (level : Nat) : List Value → List String
  | [] => []
  | v :: rest => toTextAt layout level v :: texts layout level rest

def bareTexts (layout : Layout) (level : Nat) : List (Label × Value) → List String
  | [] => []
  | (_, v) :: rest => toTextAt layout level v :: bareTexts layout level rest

def fieldTexts (layout : Layout) (level : Nat) : List (Label × Value) → List String
  | [] => []
  | (l, v) :: rest => fieldText l (toTextAt layout level v) :: fieldTexts layout level rest

end

/-- The text of a value, in lines of 80 characters. -/
def toText (v : Value) : String := toTextAt {} 0 v

/-- The text of a value inside an error message, in lines of 60 characters. -/
def toBrief (v : Value) : String := toTextAt ⟨60, 2⟩ 0 v

def argsText (vs : List Value) : String := "(" ++ ", ".intercalate (flats vs) ++ ")"

end Value

end CanisterShell.Candid
