/-!
# Byte strings

A byte string is a list of bytes.  Here are the fixed-width integers of both byte orders and the
hexadecimal form, whose reader says where a text stops being one.
-/

namespace CanisterShell

abbrev Bytes := List UInt8

namespace Bytes

/-- The low `width` bytes of `n`, least significant first. -/
def ofNatLE : (width n : Nat) → Bytes
  | 0, _ => []
  | width + 1, n => UInt8.ofNat (n % 256) :: ofNatLE width (n / 256)

/-- The low `width` bytes of `n`, most significant first. -/
def ofNatBE (width n : Nat) : Bytes := (ofNatLE width n).reverse

/-- The number whose bytes, least significant first, are given. -/
def toNatLE : Bytes → Nat
  | [] => 0
  | b :: rest => b.toNat + 256 * toNatLE rest

/-- The number whose bytes, most significant first, are given. -/
def toNatBE (bytes : Bytes) : Nat := toNatLE bytes.reverse

@[simp] theorem length_ofNatLE (width n : Nat) : (ofNatLE width n).length = width := by
  induction width generalizing n with
  | zero => rfl
  | succ width ih => simp [ofNatLE, ih]

@[simp] theorem length_ofNatBE (width n : Nat) : (ofNatBE width n).length = width := by
  simp [ofNatBE]

/-! ## Hexadecimal text -/

def hexDigit (n : Nat) : Char :=
  if n < 10 then Char.ofNat (48 + n) else Char.ofNat (87 + n)

/-- The value of a hexadecimal digit of either case. -/
def hexValue? (c : Char) : Option Nat :=
  if '0' ≤ c ∧ c ≤ '9' then some (c.toNat - 48)
  else if 'a' ≤ c ∧ c ≤ 'f' then some (c.toNat - 87)
  else if 'A' ≤ c ∧ c ≤ 'F' then some (c.toNat - 55)
  else none

/-- The two digits of a byte. -/
def hexPair (b : UInt8) : List Char := [hexDigit (b.toNat / 16), hexDigit (b.toNat % 16)]

/-- Lower-case hexadecimal text, two digits a byte. -/
def toHex (bytes : Bytes) : String := String.ofList (bytes.flatMap hexPair)

/-- Blanks that may stand between the bytes of a hexadecimal text. -/
def isHexBlank (c : Char) : Bool := c = ' ' || ('\x09' ≤ c && c ≤ '\x0d')

/-- Reads hexadecimal text from the position `pos` on; a failure is the position of the first
character that is out of place, which is the end when a digit is missing there. -/
def readHex (pos : Nat) : List Char → Except Nat Bytes
  | [] => .ok []
  | c :: rest =>
    if isHexBlank c then readHex (pos + 1) rest
    else match hexValue? c, rest with
      | none, _ => .error pos
      | some _, [] => .error (pos + 1)
      | some hi, d :: rest' =>
        match hexValue? d with
        | none => .error (pos + 1)
        | some lo => (readHex (pos + 2) rest').map (UInt8.ofNat (16 * hi + lo) :: ·)

/-- Reads hexadecimal text, blanks between bytes aside.  A character beyond ASCII is reported
before anything else. -/
def ofHex (text : String) : Except Nat Bytes :=
  match text.toList.findIdx? (fun c => 128 ≤ c.toNat) with
  | some pos => .error pos
  | none => readHex 0 text.toList

/-- Reads hexadecimal text, if it is one. -/
def ofHex? (text : String) : Option Bytes := (ofHex text).toOption

end Bytes

end CanisterShell
