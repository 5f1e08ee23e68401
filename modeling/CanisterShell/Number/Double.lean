import CanisterShell.Number.Rounding

/-!
# Binary floating-point numbers

Numbers of 64 bits in the binary format of IEEE 754, kept as their bits so that the payload of a
not-a-number survives.  A not-a-number also knows which computation it came from: it equals only
itself, that is, a copy of the result of the same computation.
-/

namespace CanisterShell

/-- Where a not-a-number came from: the literal, a computation that has been given a number, or one
that has not. -/
inductive Origin where
  | literal
  | computed (serial : Nat)
  | unnumbered
  deriving DecidableEq, Repr

/-- A floating-point number of 64 bits.  The origin matters for a not-a-number only. -/
structure Double where
  bits : UInt64
  origin : Origin := .unnumbered
  deriving DecidableEq, Repr

namespace Double

/-- The bit of the sign. -/
def isNegative (x : Double) : Bool := x.bits >>> 63 = 1

def magnitudeBits (x : Double) : Nat := x.bits.toNat % 2 ^ 63

def exponentField (x : Double) : Nat := x.magnitudeBits / 2 ^ 52

def fractionField (x : Double) : Nat := x.bits.toNat % 2 ^ 52

def isNaN (x : Double) : Bool := x.exponentField = 2047 && x.fractionField ≠ 0

def isInfinite (x : Double) : Bool := x.exponentField = 2047 && x.fractionField = 0

def isZero (x : Double) : Bool := x.magnitudeBits = 0

/-- The number with given sign and bits behind it. -/
def ofFields (negative : Bool) (magnitude : Nat) : Double :=
  ⟨UInt64.ofNat (magnitude + if negative then 2 ^ 63 else 0), .unnumbered⟩

def zero : Double := ⟨0, .unnumbered⟩

def infinity (negative : Bool) : Double := ofFields negative (2047 * 2 ^ 52)

/-- The not-a-number of the literal. -/
def nanLiteral : Double := ⟨0x7FF8000000000000, .literal⟩

/-- The not-a-number that an invalid operation gives. -/
def nanInvalid : Double := ⟨0xFFF8000000000000, .unnumbered⟩

/-- The not-a-number that reading its name gives. -/
def nanRead : Double := ⟨0x7FF8000000000000, .unnumbered⟩

/-- The absolute value of a finite number is its `significand · 2 ^ exponent`. -/
def toBinary (x : Double) : Rounding.Binary :=
  if x.exponentField = 0 then ⟨x.fractionField, -1074⟩
  else ⟨x.fractionField + 2 ^ 52, (x.exponentField : Int) - 1075⟩

/-- The number of a rounded significand and exponent; beyond the range it is infinite. -/
def ofBinary (negative : Bool) (b : Rounding.Binary) : Double :=
  if b.significand < 2 ^ 52 then ofFields negative b.significand
  else if 971 < b.exponent then infinity negative
  else ofFields negative ((b.exponent + 1075).toNat * 2 ^ 52 + (b.significand - 2 ^ 52))

/-- The number nearest to `num / den`. -/
def ofRatio (negative : Bool) (num den : Nat) : Double :=
  ofBinary negative (Rounding.nearest 53 (-1074) num den)

/-- The number nearest to `digits · 10 ^ exponent`. -/
def ofDecimal (negative : Bool) (digits : Nat) (exponent : Int) : Double :=
  if digits = 0 then ofFields negative 0
  else
    let size : Int := (Nat.log2 digits : Int) * 30103 / 100000 + exponent
    if 320 < size then infinity negative
    else if size < -400 then ofFields negative 0
    else if 0 ≤ exponent then ofRatio negative (digits * 10 ^ exponent.toNat) 1
    else ofRatio negative digits (10 ^ (-exponent).toNat)

/-- The number nearest to a whole number, unless that is beyond the range. -/
def ofInt? (n : Int) : Option Double :=
  let x := ofRatio (n < 0) n.natAbs 1
  if x.isInfinite then none else some x

/-- The absolute value of a finite number as a quotient. -/
def toRatio (x : Double) : Nat × Nat :=
  let b := x.toBinary
  if 0 ≤ b.exponent then (b.significand * 2 ^ b.exponent.toNat, 1)
  else (b.significand, 2 ^ (-b.exponent).toNat)

/-- The whole part of a finite number. -/
def truncate (x : Double) : Int :=
  let (n, d) := x.toRatio
  if x.isNegative then -((n / d : Nat) : Int) else ((n / d : Nat) : Int)

/-! ## Single precision -/

/-- The bits of the nearest number of 32 bits, unless a finite number is beyond their range. -/
def toSingle? (x : Double) : Option UInt32 :=
  let sign : Nat := if x.isNegative then 2 ^ 31 else 0
  if x.isNaN then
    some (UInt32.ofNat (sign + 255 * 2 ^ 23 + 2 ^ 22 + x.fractionField / 2 ^ 29 % 2 ^ 22))
  else if x.isInfinite then some (UInt32.ofNat (sign + 255 * 2 ^ 23))
  else
    let (n, d) := x.toRatio
    let b := Rounding.nearest 24 (-149) n d
    if b.significand < 2 ^ 23 then some (UInt32.ofNat (sign + b.significand))
    else if 104 < b.exponent then none
    else some (UInt32.ofNat
      (sign + (b.exponent + 150).toNat * 2 ^ 23 + (b.significand - 2 ^ 23)))

/-- The number whose 32 bits are given. -/
def ofSingle (bits : UInt32) : Double :=
  let negative := bits >>> 31 = 1
  let field := bits.toNat / 2 ^ 23 % 2 ^ 8
  let fraction := bits.toNat % 2 ^ 23
  if field = 255 then
    if fraction = 0 then infinity negative
    else ofFields negative (2047 * 2 ^ 52 + 2 ^ 51 + fraction % 2 ^ 22 * 2 ^ 29)
  else if field = 0 then ofRatio negative fraction (2 ^ 149)
  else ofRatio negative ((fraction + 2 ^ 23) * 2 ^ field) (2 ^ 150)

/-! ## Comparison -/

/-- The sign and value of a number that is not a not-a-number, as a quotient; infinity is taken for
a number beyond the range. -/
def signedRatio (x : Double) : Int × Nat :=
  let (n, d) := if x.isInfinite then (2 ^ 1100, 1) else x.toRatio
  (if x.isNegative then -(n : Int) else n, d)

/-- The order of two numbers, if neither is a not-a-number. -/
def compare? (x y : Double) : Option Ordering :=
  if x.isNaN || y.isNaN then none
  else
    let (a, b) := x.signedRatio
    let (c, d) := y.signedRatio
    some (compare (a * d) (c * b))

/-- The order of a number and a whole number, both taken exactly. -/
def compareInt? (x : Double) (n : Int) : Option Ordering :=
  if x.isNaN then none
  else if x.isInfinite then some (if x.isNegative then .lt else .gt)
  else
    let (a, b) := x.signedRatio
    some (compare a (n * b))

/-- Whether two numbers count as the same value: equal numbers, and copies of one not-a-number. -/
def same (x y : Double) : Bool :=
  if x.isNaN && y.isNaN then x.origin = y.origin && x.origin ≠ .unnumbered
  else x.compare? y = some .eq

/-! ## Arithmetic -/

/-- The quiet form of a not-a-number, as a fresh result. -/
def quiet (x : Double) : Double := ⟨x.bits ||| 0x0008000000000000, .unnumbered⟩

/-- Applies an operation: the first operand that is a not-a-number is handed on, and an invalid
operation gives the not-a-number for that. -/
def arith (op : Float → Float → Float) (x y : Double) : Double :=
  if x.isNaN then x.quiet
  else if y.isNaN then y.quiet
  else
    let r := op (Float.ofBits x.bits) (Float.ofBits y.bits)
    if r.isNaN then nanInvalid else ⟨r.toBits, .unnumbered⟩

def add (x y : Double) : Double := arith (· + ·) x y
def sub (x y : Double) : Double := arith (· - ·) x y
def mul (x y : Double) : Double := arith (· * ·) x y
def div (x y : Double) : Double := arith (· / ·) x y

end Double

end CanisterShell
