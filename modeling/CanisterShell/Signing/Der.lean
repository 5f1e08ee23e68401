import CanisterShell.Bytes

/-!
# DER

The distinguished encoding of keys: elements of a tag, a length and a content, one behind the other.
-/

namespace CanisterShell.Der

/-- An element: its tag and its content. -/
structure Element where
  tag : Nat
  content : Bytes
  deriving DecidableEq

def bitsTag : Nat := 0x03
def octetsTag : Nat := 0x04
def identifierTag : Nat := 0x06
def sequenceTag : Nat := 0x30

def optionTag (n : Nat) : Nat := 0xA0 + n

/-- The bytes of a number without zeros in front. -/
def digits : (fuel n : Nat) → Bytes
  | 0, _ => []
  | _, 0 => []
  | fuel + 1, n => digits fuel (n / 256) ++ [UInt8.ofNat n]

/-- The bytes of a length: one below 128, and otherwise their count in front. -/
def lengthBytes (n : Nat) : Bytes :=
  if n < 128 then [UInt8.ofNat n]
  else
    let body := digits 8 n
    UInt8.ofNat (128 + body.length) :: body

def encode (tag : Nat) (content : Bytes) : Bytes :=
  UInt8.ofNat tag :: lengthBytes content.length ++ content

def readLength : Bytes → Option (Nat × Bytes)
  | [] => none
  | b :: rest =>
    if b < 128 then some (b.toNat, rest)
    else
      let width := b.toNat - 128
      let n := Bytes.toNatBE (rest.take width)
      if width ≤ rest.length && width ≤ 8 && lengthBytes n = b :: rest.take width then
        some (n, rest.drop width)
      else none

def readElement : Bytes → Option (Element × Bytes)
  | [] => none
  | tag :: rest =>
    match readLength rest with
    | none => none
    | some (n, rest) =>
      if n ≤ rest.length then some (⟨tag.toNat, rest.take n⟩, rest.drop n) else none

def readElements : (fuel : Nat) → Bytes → Option (List Element)
  | _, [] => some []
  | 0, _ => none
  | fuel + 1, bytes =>
    match readElement bytes with
    | none => none
    | some (e, rest) => (readElements fuel rest).map (e :: ·)

def elements (bytes : Bytes) : Option (List Element) := readElements bytes.length bytes

/-- The elements of a byte string that is one sequence. -/
def sequence (bytes : Bytes) : Option (List Element) :=
  match elements bytes with
  | some [e] => if e.tag = sequenceTag then elements e.content else none
  | _ => none

/-- The content of a byte string that is one element with the given tag. -/
def only (tag : Nat) (bytes : Bytes) : Option Bytes :=
  match elements bytes with
  | some [e] => if e.tag = tag then some e.content else none
  | _ => none

end CanisterShell.Der
