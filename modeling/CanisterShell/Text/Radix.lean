import CanisterShell.Bytes

/-!
# Base 32 and base 64

In base 32 there are five bits a character, in the alphabet `A`–`Z`, `2`–`7`.  The reader takes padded
text and lets the bits left over in the last character be anything.  Base 64 is read only: four digits
of the standard alphabet are three bytes, and the last group is filled with equals signs.
-/

namespace CanisterShell.Base32

/-- The lower-case character of five bits. -/
def digit (n : Nat) : Char := if n < 26 then Char.ofNat (97 + n) else Char.ofNat (24 + n)

def value? (c : Char) : Option Nat :=
  if 'A' ≤ c ∧ c ≤ 'Z' then some (c.toNat - 65)
  else if '2' ≤ c ∧ c ≤ '7' then some (c.toNat - 24)
  else none

/-- The bits of a byte, most significant first. -/
def bits (b : UInt8) : List Bool :=
  [128, 64, 32, 16, 8, 4, 2, 1].map fun (m : UInt8) => b &&& m != 0

/-- The number of some bits, most significant first. -/
def ofBits (bs : List Bool) : Nat := bs.foldl (fun n b => 2 * n + b.toNat) 0

/-- The characters of a string of bits; missing bits of the last one are zero. -/
def encodeBits : List Bool → List Char
  | a :: b :: c :: d :: e :: rest => digit (ofBits [a, b, c, d, e]) :: encodeBits rest
  | [] => []
  | short => [digit (ofBits (short ++ List.replicate (5 - short.length) false))]

/-- The lower-case form of a byte string, without padding. -/
def encode (bytes : Bytes) : List Char := encodeBits (bytes.flatMap bits)

def charBits? (c : Char) : Option (List Bool) :=
  (value? c).map fun n => [n / 16 % 2 = 1, n / 8 % 2 = 1, n / 4 % 2 = 1, n / 2 % 2 = 1, n % 2 = 1]

/-- The bytes of a string of bits; bits short of a byte are dropped. -/
def decodeBits : List Bool → Bytes
  | a :: b :: c :: d :: e :: f :: g :: h :: rest =>
    UInt8.ofNat (ofBits [a, b, c, d, e, f, g, h]) :: decodeBits rest
  | _ => []

/-- Reads upper-case text padded with `=` to groups of eight characters, of which the last may hold
no other number of them than a whole number of bytes needs. -/
def decode? (text : List Char) : Option Bytes :=
  if text.length % 8 ≠ 0 then none
  else
    let body := (text.reverse.dropWhile (· = '=')).reverse
    let padding := text.length - body.length
    if [0, 1, 3, 4, 6].contains padding then
      (body.mapM charBits?).map fun bs => decodeBits bs.flatten
    else none

end CanisterShell.Base32

namespace CanisterShell.Base64

def value? (c : Char) : Option Nat :=
  if 'A' ≤ c && c ≤ 'Z' then some (c.toNat - 65)
  else if 'a' ≤ c && c ≤ 'z' then some (c.toNat - 71)
  else if '0' ≤ c && c ≤ '9' then some (c.toNat + 4)
  else if c = '+' then some 62
  else if c = '/' then some 63
  else none

/-- The three bytes of four digits. -/
def group (a b c d : Nat) : Bytes := Bytes.ofNatBE 3 (((a * 64 + b) * 64 + c) * 64 + d)

/-- Reads characters in groups of four. -/
def decode? : List Char → Option Bytes
  | [] => some []
  | [a, b, '=', '='] => do
    return (group (← value? a) (← value? b) 0 0).take 1
  | [a, b, c, '='] => do
    return (group (← value? a) (← value? b) (← value? c) 0).take 2
  | a :: b :: c :: d :: rest => do
    let bytes := group (← value? a) (← value? b) (← value? c) (← value? d)
    return bytes ++ (← decode? rest)
  | _ => none

end CanisterShell.Base64
