import CanisterShell.Number.Modular

/-!
# Rounding to nearest

Quotients of natural numbers are rounded to the nearest whole number, a half going to the even
neighbour, and to the nearest number with a bounded binary significand.
-/

namespace CanisterShell.Rounding

/-- `num / den`, rounded to the nearest whole number, a half to the even one. -/
def divEven (num den : Nat) : Nat :=
  let q := num / den
  let r := num % den
  if 2 * r < den then q
  else if den < 2 * r then q + 1
  else if q % 2 = 0 then q else q + 1

/-- `num / den` in units of `2 ^ e`, as a quotient. -/
def scaled (num den : Nat) (e : Int) : Nat × Nat :=
  if 0 ≤ e then (num, den * 2 ^ e.toNat) else (num * 2 ^ (-e).toNat, den)

/-- The number `significand · 2 ^ exponent`. -/
structure Binary where
  significand : Nat
  exponent : Int

/-- The number of `precision` significant bits, with no exponent below `least`, that is nearest to
`num / den`, a tie going to the even significand. -/
def nearest (precision : Nat) (least : Int) (num den : Nat) : Binary :=
  if num = 0 then ⟨0, least⟩
  else
    let guess : Int := (Nat.log2 num : Int) - Nat.log2 den - precision
    let (n, d) := scaled num den guess
    let e := max least (if 2 ^ precision ≤ n / d then guess + 1 else guess)
    let (n, d) := scaled num den e
    let m := divEven n d
    if m = 2 ^ precision then ⟨2 ^ (precision - 1), e + 1⟩ else ⟨m, e⟩

end CanisterShell.Rounding
