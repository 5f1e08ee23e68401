import CanisterShell.Error

/-!
# Integers of variable length

LEB128 writes an integer seven bits a byte, lowest bits first, every byte but the last with its high
bit set.  In the signed form the highest payload bit of the last byte is the sign.  Readers hand
back the bytes behind the integer.
-/

namespace CanisterShell.Candid.Wire

/-- A natural number. -/
def leb (n : Nat) : Bytes :=
  if n < 128 then [UInt8.ofNat n] else UInt8.ofNat (n % 128 + 128) :: leb (n / 128)
termination_by n

/-- A whole number. -/
def sleb (n : Int) : Bytes :=
  if -64 ≤ n ∧ n < 64 then [UInt8.ofNat (n % 128).toNat]
  else UInt8.ofNat ((n % 128).toNat + 128) :: sleb (n / 128)
termination_by n.natAbs
decreasing_by omega

/-- A whole number that has to be natural. -/
def lebOfInt (n : Int) : Attempt Bytes :=
  if n < 0 then .error (.eval (.negativeLength n)) else .ok (leb n.toNat)

def readLeb : Bytes → Attempt (Nat × Bytes)
  | [] => .error (.malformed .ended)
  | b :: rest =>
    if b < 128 then .ok (b.toNat, rest)
    else do
      let (n, rest) ← readLeb rest
      return (b.toNat - 128 + 128 * n, rest)

def readSleb : Bytes → Attempt (Int × Bytes)
  | [] => .error (.malformed .ended)
  | b :: rest =>
    if b < 64 then .ok (b.toNat, rest)
    else if b < 128 then .ok ((b.toNat : Int) - 128, rest)
    else do
      let (n, rest) ← readSleb rest
      return ((b.toNat : Int) - 128 + 128 * n, rest)

end CanisterShell.Candid.Wire
