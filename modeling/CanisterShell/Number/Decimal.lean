import CanisterShell.Number.Double

/-!
# Decimal text of floating-point numbers

Three forms: the fewest digits that read back, a fixed number of places, and a fixed number of
significant digits.  The first finds the coarsest decimal grid with a point that rounds to the
number, and on it the nearest such point.
-/

namespace CanisterShell

/-- The decimal number `digits · 10 ^ exponent`. -/
structure Decimal where
  digits : Nat
  exponent : Int

namespace Decimal

/-- The number of decimal digits, at least one. -/
def width (n : Nat) : Nat := (Nat.toDigits 10 n).length

/-- The least `k` such that the quotient is below `10 ^ k`. -/
def magnitude (num den : Nat) : Int :=
  if den ≤ num then width (num / den)
  else
    -- the quotient is below one: count the zeros behind the point
    let guess := width (den / num)
    if num * 10 ^ (guess - 1) < den then 1 - (guess : Int) else 2 - (guess : Int)

/-- `num / den` in units of `10 ^ k`, as a quotient. -/
def scaled (num den : Nat) (k : Int) : Nat × Nat :=
  if 0 ≤ k then (num, den * 10 ^ k.toNat) else (num * 10 ^ (-k).toNat, den)

/-- Takes zeros off the end. -/
def trim : (fuel : Nat) → Decimal → Decimal
  | 0, d => d
  | fuel + 1, d =>
    if d.digits ≠ 0 && d.digits % 10 = 0 then trim fuel ⟨d.digits / 10, d.exponent + 1⟩ else d

/-- The points of the grid `10 ^ k` that round to the binary number whose half-way neighbours are
`low / den` and `high / den`, the ends counting when `closed`, nearest to `num / den` first. -/
def gridPoint? (num den low high : Nat) (closed : Bool) (k : Int) : Option Nat :=
  let (n, d) := scaled num den k
  let within (p : Nat) : Bool :=
    let (l, dl) := scaled low den k
    let (h, dh) := scaled high den k
    if closed then l ≤ p * dl && p * dh ≤ h else l < p * dl && p * dh < h
  let p := n / d
  match within p, within (p + 1) with
  | true, true =>
    let r := 2 * (n % d)
    some (if r < d then p else if d < r then p + 1 else if p % 2 = 0 then p else p + 1)
  | true, false => some p
  | false, true => some (p + 1)
  | false, false => none

/-- The shortest decimal that reads back as a finite number other than zero, and of those the
nearest. -/
def shortest (x : Double) : Decimal :=
  let b := x.toBinary
  -- in units of a quarter of the last binary place
  let m := 4 * b.significand
  let below := if b.significand = 2 ^ 52 && -1074 < b.exponent then m - 1 else m - 2
  let shift := b.exponent - 2
  let up : Nat := if 0 ≤ shift then 2 ^ shift.toNat else 1
  let den : Nat := if 0 ≤ shift then 1 else 2 ^ (-shift).toNat
  let num := m * up
  let top := magnitude num den
  let onGrid? (n : Nat) : Option Decimal :=
    (gridPoint? num den (below * up) ((m + 2) * up) (b.significand % 2 = 0) (top - n)).map
      fun p => ⟨p, top - n⟩
  let d := ((List.range 17).findSome? fun i => onGrid? (i + 1)).getD ⟨num / den, 0⟩
  trim 20 d

/-- The decimal with `n` significant digits nearest to a finite number other than zero, a tie going
to the even digit. -/
def significant (n : Nat) (x : Double) : Decimal :=
  let (num, den) := x.toRatio
  let k := magnitude num den - n
  let (a, b) := scaled num den k
  ⟨Rounding.divEven a b, k⟩

/-- Positional notation. -/
def positional (d : Decimal) : String :=
  let s := Nat.toDigits 10 d.digits
  if 0 ≤ d.exponent then String.ofList (s ++ List.replicate d.exponent.toNat '0')
  else
    let places := (-d.exponent).toNat
    let s := List.replicate (places + 1 - s.length) '0' ++ s
    String.ofList (s.take (s.length - places) ++ '.' :: s.drop (s.length - places))

/-- One digit before the point, and the exponent with its sign and at least two digits. -/
def exponential (d : Decimal) : String :=
  let s := Nat.toDigits 10 d.digits
  let e := d.exponent + s.length - 1
  let point := if s.length = 1 then [] else '.' :: s.drop 1
  let es := Nat.toDigits 10 e.natAbs
  String.ofList (s.take 1 ++ point ++ 'e' :: (if e < 0 then '-' else '+')
    :: List.replicate (2 - es.length) '0' ++ es)

end Decimal

namespace Double

def signText (x : Double) : String := if x.isNegative then "-" else ""

/-- The name of a number that is not finite. -/
def specialText? (x : Double) : Option String :=
  if x.isNaN then some "nan"
  else if x.isInfinite then some (x.signText ++ "inf")
  else none

/-- The fewest digits that read back, positional when the leading digit stands for at least
`10 ^ -4` and for less than `10 ^ 16`; a whole number shows one zero behind the point. -/
def toText (x : Double) : String :=
  match x.specialText? with
  | some s => s
  | none =>
    if x.isZero then x.signText ++ "0.0"
    else
      let d := Decimal.shortest x
      let lead := d.exponent + Decimal.width d.digits - 1
      if lead < -4 || 16 ≤ lead then x.signText ++ Decimal.exponential d
      else if 0 ≤ d.exponent then x.signText ++ Decimal.positional d ++ ".0"
      else x.signText ++ Decimal.positional d

/-- Exactly two places behind the point, a tie going to the even digit. -/
def toFixed2 (x : Double) : String :=
  match x.specialText? with
  | some s => s
  | none =>
    let (n, d) := x.toRatio
    x.signText ++ Decimal.positional ⟨Rounding.divEven (n * 100) d, -2⟩

/-- At most six significant digits, positional when the leading digit stands for at least
`10 ^ -4` and for less than `10 ^ 6`, without zeros at the end. -/
def toGeneral (x : Double) : String :=
  match x.specialText? with
  | some s => s
  | none =>
    if x.isZero then x.signText ++ "0"
    else
      let d := Decimal.significant 6 x
      let lead := d.exponent + Decimal.width d.digits - 1
      let d := Decimal.trim 10 d
      if lead < -4 || 6 ≤ lead then x.signText ++ Decimal.exponential d
      else x.signText ++ Decimal.positional d

end Double

end CanisterShell
