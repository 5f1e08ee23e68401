import CanisterShell.Hash.Crc32
import CanisterShell.Hash.Sha2
import CanisterShell.Number.Modular
import CanisterShell.Text.Classes
import CanisterShell.Text.Radix
import CanisterShell.Text.Utf8

/-!
# Principals

A principal names a canister or a user by at most 29 bytes.  Its text is the base-32 form of a
checksum and the bytes, in groups of five characters between dashes.  Reading asks for exactly that
form, surrounding blanks and upper case aside.
-/

namespace CanisterShell

/-- The id of a canister or a user. -/
structure Principal where
  bytes : Bytes
  length_le : bytes.length ≤ 29
  deriving DecidableEq

namespace Principal

/-- Why a text or a byte string is no principal. -/
inductive Fault where
  | empty
  | malformed (text : String)
  | tooLong (length : Nat)
  | checksum (text : String)
  | indexTooLarge
  deriving DecidableEq

def ofBytes (bytes : Bytes) : Except Fault Principal :=
  if h : bytes.length ≤ 29 then .ok ⟨bytes, h⟩ else .error (.tooLong bytes.length)

def management : Principal := ⟨[], by decide⟩

/-- The sender of unsigned requests. -/
def anonymous : Principal := ⟨[4], by decide⟩

def selfAuthenticating (key : Bytes) : Principal :=
  ⟨(sha224 key).take 28 ++ [2], by
    rw [List.length_append, List.length_take, List.length_singleton]
    omega⟩

/-- The canister of a given number, which has 64 bits. -/
def ofIndex (index : Nat) : Except Fault Principal :=
  if index < 2 ^ 64 then .ok ⟨Bytes.ofNatBE 8 index ++ [1, 1], by simp⟩ else .error .indexTooLarge

def isManagement (p : Principal) : Bool := p.bytes.isEmpty

/-! ## Text -/

/-- Puts a dash behind every five characters that others follow. -/
def dashed : List Char → List Char
  | a :: b :: c :: d :: e :: f :: rest => a :: b :: c :: d :: e :: '-' :: dashed (f :: rest)
  | short => short

def checksum (bytes : Bytes) : Bytes := Bytes.ofNatBE 4 (crc32 bytes).toNat

def toChars (p : Principal) : List Char := dashed (Base32.encode (checksum p.bytes ++ p.bytes))

def toText (p : Principal) : String := String.ofList p.toChars

/-- Lower case, as far as it can reach the letters of a principal: the Kelvin sign is a `k`, and the
capital sharp s is a sharp s. -/
def lowerChar (c : Char) : Char :=
  if c = '\u212A' then 'k' else if c = '\u1E9E' then 'ß' else c.toLower

/-- Upper case, as far as it can reach the letters of a principal: the dotless i, the long and the
sharp s and the ligatures of f, s and t are made of such letters. -/
def upperChar (c : Char) : List Char :=
  if c = 'ı' then ['I']
  else if c = 'ſ' then ['S']
  else if c = 'ß' then ['S', 'S']
  else if c = '\uFB00' then ['F', 'F']
  else if c = '\uFB01' then ['F', 'I']
  else if c = '\uFB02' then ['F', 'L']
  else if c = '\uFB03' then ['F', 'F', 'I']
  else if c = '\uFB04' then ['F', 'F', 'L']
  else if c = '\uFB05' || c = '\uFB06' then ['S', 'T']
  else [c.toUpper]

/-- The text that reading compares with: blanks stripped, in lower case. -/
def normal (text : String) : List Char :=
  (Text.trimRight (Text.trimLeft text.toList)).map lowerChar

/-- The bytes, checksum included, that a text without dashes stands for. -/
def checkedBytes? (compact : List Char) : Option Bytes :=
  Base32.decode? (compact.flatMap upperChar
    ++ List.replicate ((8 - compact.length % 8) % 8) '=')

def ofText (text : String) : Except Fault Principal := do
  let norm := normal text
  let compact := norm.filter (· ≠ '-')
  if compact.isEmpty then throw .empty
  match checkedBytes? compact with
  | none => throw (.malformed text)
  | some data =>
    if data.length < 4 then throw (.malformed text)
    let p ← ofBytes (data.drop 4)
    if data.take 4 ≠ checksum p.bytes || p.toChars ≠ norm then throw (.checksum text)
    return p

def isText (text : String) : Bool := (ofText text).toOption.isSome

instance : ToString Principal := ⟨toText⟩

end Principal

end CanisterShell
