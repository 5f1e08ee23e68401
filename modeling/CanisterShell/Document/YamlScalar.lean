import CanisterShell.Document.Datum
import CanisterShell.Syntax.Literal

/-!
# Plain scalars of YAML

What a scalar without quotes stands for: nothing, a truth value, a whole number in base two, eight,
ten, sixteen or sixty, a number with a point, a date, or else its text.
-/

namespace CanisterShell.Yaml

/-- Digits of a base with underscores between them, at least one character. -/
def isRun (isDigit : Char → Bool) (cs : List Char) : Bool :=
  !cs.isEmpty && cs.all fun c => isDigit c || c = '_'

/-- A decimal number that may hold underscores, but does not begin with one. -/
def isDecimalRun (cs : List Char) : Bool :=
  isRun Char.isDigit cs && cs.head?.any Char.isDigit

def cutColons (part : List Char) : List Char → List (List Char)
  | [] => [part.reverse]
  | ':' :: rest => part.reverse :: cutColons [] rest
  | c :: rest => cutColons (c :: part) rest

/-- A digit of base sixty behind a colon. -/
def isSixtieth (cs : List Char) : Bool :=
  match cs with
  | [a] => a.isDigit
  | [a, b] => '0' ≤ a && a ≤ '5' && b.isDigit
  | _ => false

/-- The number of digits in a base. -/
def numberIn (base : Nat) (cs : List Char) : Nat :=
  (cs.filterMap Bytes.hexValue?).foldl (fun n d => base * n + d) 0

/-- The number of digits of base sixty. -/
def sixtieths (parts : List (List Char)) : Nat :=
  parts.foldl (fun n p => 60 * n + numberIn 10 p) 0

def natural? (cs : List Char) : Option Nat :=
  match cs with
  | ['0'] => some 0
  | '0' :: 'b' :: rest =>
    if isRun (fun c => c = '0' || c = '1') rest then some (numberIn 2 rest) else none
  | '0' :: 'x' :: rest =>
    if isRun (fun c => (Bytes.hexValue? c).isSome) rest then some (numberIn 16 rest) else none
  | '0' :: rest =>
    if isRun (fun c => '0' ≤ c && c ≤ '7') rest then some (numberIn 8 rest) else none
  | cs =>
    match cutColons [] cs with
    | [run] => if isDecimalRun run then some (numberIn 10 run) else none
    | first :: rest =>
      if isDecimalRun first && rest.all isSixtieth then some (sixtieths (first :: rest)) else none
    | [] => none

/-- An exponent with its sign, or nothing. -/
def isExponent (cs : List Char) : Bool :=
  match cs with
  | [] => true
  | e :: s :: digits =>
    (e = 'e' || e = 'E') && (s = '+' || s = '-') && !digits.isEmpty && digits.all Char.isDigit
  | _ => false

/-- A number with a point, signed unless it begins with the point. -/
def pointed? (signed_ negative : Bool) (cs : List Char) : Option Double :=
  let whole := cs.takeWhile (· ≠ '.')
  match cs.drop whole.length with
  | '.' :: tail =>
    let places := tail.takeWhile fun c => c.isDigit || c = '_'
    let exponent := tail.drop places.length
    let plain := (whole ++ '.' :: places ++ exponent).filter (· ≠ '_')
    let value := Literal.double? (if negative then '-' :: plain else plain)
    if whole.isEmpty then
      if !signed_ && isDecimalRun places && isExponent exponent then value else none
    else if isDecimalRun whole && isExponent exponent then value
    else
      match cutColons [] whole with
      | first :: rest@(_ :: _) =>
        if isDecimalRun first && rest.all isSixtieth && exponent.isEmpty then
          let digits := places.filter (· ≠ '_')
          let scale := 10 ^ digits.length
          some (.ofRatio negative (sixtieths (first :: rest) * scale + numberIn 10 digits) scale)
        else none
      | _ => none
  | _ => none

/-- A number that is not finite. -/
def special? (signed_ negative : Bool) (text : String) : Option Double :=
  if text = ".inf" || text = ".Inf" || text = ".INF" then some (.infinity negative)
  else if !signed_ && (text = ".nan" || text = ".NaN" || text = ".NAN") then some .nanRead
  else none

/-- A date written with dashes. -/
def isDate (cs : List Char) : Bool :=
  match cs with
  | [a, b, c, d, '-', e, f, '-', g, h] => [a, b, c, d, e, f, g, h].all Char.isDigit
  | _ => false

/-- What a scalar without quotes stands for. -/
def scalar (text : String) : Datum :=
  let cs := text.toList
  let (negative, behind) := Literal.splitSign cs
  let signed_ := behind.length ≠ cs.length
  if ["", "~", "null", "Null", "NULL"].contains text then .null
  else if ["yes", "Yes", "YES", "true", "True", "TRUE", "on", "On", "ON"].contains text then
    .bool true
  else if ["no", "No", "NO", "false", "False", "FALSE", "off", "Off", "OFF"].contains text then
    .bool false
  else if isDate cs then .other "date"
  else
    match natural? behind with
    | some n => .int (Literal.signed negative n)
    | none =>
      match pointed? signed_ negative behind, special? signed_ negative (String.ofList behind) with
      | some x, _ => .float x
      | none, some x => .float x
      | none, none => .text text

end CanisterShell.Yaml
