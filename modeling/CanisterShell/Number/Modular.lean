/-!
# Powers, and arithmetic modulo a number

Powers of whole numbers are those of the core library, whatever other structure on the numbers is
known where they are written.
-/

attribute [instance (2000), default_instance (20000)] instPowNat

/-!
## Arithmetic modulo a number

Sums, products, powers and inverses of remainders, and the multiples of an element of any structure
with an addition.  Powers and multiples go through the binary digits of the count, the highest
first: each digit doubles what there is, and a one adds the element once more.
-/

namespace CanisterShell

/-- The `n`-fold sum of `x`, for `n` below `2 ^ width`. -/
def multipleBy {α : Type} (add : α → α → α) (zero x : α) (width n : Nat) : α :=
  (List.range width).foldr (fun i acc =>
    let doubled := add acc acc
    if n.testBit i then add doubled x else doubled) zero

namespace Modular

/-- The difference of two remainders modulo `m`. -/
def sub (m a b : Nat) : Nat := (a + (m - b % m)) % m

/-- The product of two remainders modulo `m`. -/
def mul (m a b : Nat) : Nat := a * b % m

def pow (m base exponent : Nat) : Nat :=
  multipleBy (mul m) 1 base (exponent.log2 + 1) exponent

def inverse (p a : Nat) : Nat := pow p a (p - 2)

end Modular

end CanisterShell
