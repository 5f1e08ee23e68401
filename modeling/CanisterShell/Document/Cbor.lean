import CanisterShell.Document.Datum
import CanisterShell.Text.Utf8

/-!
# CBOR

The binary form in which requests and replies travel.  The writer uses definite lengths and the
shortest heads.  The reader takes all of CBOR; what has no place in plain data is kept by its kind,
a tag that only says "this is CBOR" is dropped, and collections inside tags are frozen.
-/

namespace CanisterShell.Cbor

/-! ## Writing -/

def head (major : Nat) (n : Nat) : Bytes :=
  if n < 24 then [UInt8.ofNat (32 * major + n)]
  else if n < 2 ^ 8 then UInt8.ofNat (32 * major + 24) :: Bytes.ofNatBE 1 n
  else if n < 2 ^ 16 then UInt8.ofNat (32 * major + 25) :: Bytes.ofNatBE 2 n
  else if n < 2 ^ 32 then UInt8.ofNat (32 * major + 26) :: Bytes.ofNatBE 4 n
  else UInt8.ofNat (32 * major + 27) :: Bytes.ofNatBE 8 n

/-- The number of bytes that a number needs. -/
def byteWidth (n : Nat) : Nat := if n = 0 then 0 else Nat.log2 n / 8 + 1

def bytes (b : Bytes) : Bytes := head 2 b.length ++ b

/-- A natural number, or with `major` one the negative number that lies so far below minus one; of
more than 64 bits it is a tagged byte string. -/
def integer (major n : Nat) : Bytes :=
  if n < 2 ^ 64 then head major n
  else head 6 (2 + major) ++ bytes (Bytes.ofNatBE (byteWidth n) n)

def text (s : String) : Bytes :=
  let b := Utf8.encode s
  head 3 b.length ++ b

mutual

def encode : Datum → Bytes
  | .null => [0xF6]
  | .bool b => [if b then 0xF5 else 0xF4]
  | .int n => if n < 0 then integer 1 (-1 - n).toNat else integer 0 n.toNat
  | .float x => 0xFB :: Bytes.ofNatBE 8 x.bits.toNat
  | .text s => text s
  | .bytes b => bytes b
  | .list items => head 4 items.length ++ encodeItems items
  | .map entries => head 5 entries.length ++ encodeEntries entries
  | .frozen d => encode d
  | .other _ => [0xF7]

def encodeItems : List Datum → Bytes
  | [] => []
  | d :: rest => encode d ++ encodeItems rest

def encodeEntries : List (Datum × Datum) → Bytes
  | [] => []
  | (k, v) :: rest => encode k ++ encode v ++ encodeEntries rest

end

/-- The tag that only says that its content is CBOR. -/
def selfDescribed : Nat := 55799

def encodeTagged (d : Datum) : Bytes := head 6 selfDescribed ++ encode d

/-! ## Reading -/

/-- A reader takes bytes off the front. -/
abbrev Reader (α : Type) : Type := StateT Bytes Option α

def next : Reader UInt8
  | [] => none
  | b :: rest => some (b, rest)

def take (n : Nat) : Reader Bytes := fun b =>
  if n ≤ b.length then some (b.splitAt n) else none

/-- The number of a head; `none` for an indefinite length. -/
def argument (info : Nat) : Reader (Option Nat) := do
  if info < 24 then return some info
  else if info = 24 then return some (Bytes.toNatBE (← take 1))
  else if info = 25 then return some (Bytes.toNatBE (← take 2))
  else if info = 26 then return some (Bytes.toNatBE (← take 4))
  else if info = 27 then return some (Bytes.toNatBE (← take 8))
  else if info = 31 then return none
  else failure

/-- The byte that ends a collection of indefinite length, if it stands in front. -/
def stop : Reader Bool
  | 0xFF :: rest => some (true, rest)
  | b => some (false, b)

/-- The pieces of a string of the given major type up to its end. -/
def pieces (major : Nat) : (fuel : Nat) → Reader (List Bytes)
  | 0 => failure
  | fuel + 1 => do
    if ← stop then return []
    let b ← next
    if b.toNat / 32 ≠ major then failure
    match ← argument (b.toNat % 32) with
    | none => failure
    | some n =>
      let piece ← take n
      return piece :: (← pieces major fuel)

def stringPieces (major : Nat) (fuel : Nat) : Option Nat → Reader (List Bytes)
  | some n => do return [← take n]
  | none => pieces major fuel

/-- The number of half precision with the given bits. -/
def halfOf (n : Nat) : Double :=
  let negative : Bool := n / 2 ^ 15 = 1
  let exponent := n / 2 ^ 10 % 2 ^ 5
  let fraction := n % 2 ^ 10
  if exponent = 31 then
    if fraction = 0 then .infinity negative
    else .ofFields negative (2047 * 2 ^ 52 + fraction * 2 ^ 42)
  else if exponent = 0 then .ofRatio negative fraction (2 ^ 24)
  else .ofRatio negative ((fraction + 2 ^ 10) * 2 ^ exponent) (2 ^ 25)

/-- A simple value or a floating-point number. -/
def simple (info : Nat) : Reader Datum := do
  if info = 20 then return .bool false
  else if info = 21 then return .bool true
  else if info = 22 then return .null
  else if info = 23 then return .other "undefined"
  else if info = 25 then return .float (halfOf (Bytes.toNatBE (← take 2)))
  else if info = 26 then
    return .float (.ofSingle (UInt32.ofNat (Bytes.toNatBE (← take 4))))
  else if info = 27 then
    return .float ⟨UInt64.ofNat (Bytes.toNatBE (← take 8)), .unnumbered⟩
  else if info = 24 then
    let _ ← next
    return .other "CBORSimpleValue"
  else if info < 20 then return .other "CBORSimpleValue"
  else failure

/-- The kind of what tags of standard meanings stand for. -/
def tagKinds : List (Nat × String) := [
  (0, "datetime"), (1, "datetime"), (4, "Decimal"), (5, "Decimal"), (30, "Fraction"),
  (35, "Pattern"), (36, "Message"), (37, "UUID"), (100, "date"), (258, "frozenset"),
  (260, "IPv4Address"), (261, "IPv4Network"), (1004, "date")]

/-- What a tag makes of its content. -/
def tagged (tag : Nat) (content : Datum) : Option Datum :=
  if tag = selfDescribed then some content
  else if tag = 2 || tag = 3 then
    match content with
    | .bytes b =>
      let n : Int := Bytes.toNatBE b
      some (.int (if tag = 2 then n else -1 - n))
    | _ => none
  else some (.other ((tagKinds.lookup tag).getD "CBORTag"))

/-- A collection, frozen inside a tag. -/
def collection (frozen : Bool) (d : Datum) : Datum := if frozen then .frozen d else d

mutual

/-- A datum; `frozen` holds inside tags. -/
def item (frozen : Bool) : (fuel : Nat) → Reader Datum
  | 0 => failure
  | fuel + 1 => do
    let b ← next
    let major := b.toNat / 32
    let info := b.toNat % 32
    if major = 7 then simple info
    else
      let n? ← argument info
      match major, n? with
      | 0, some n => return .int n
      | 1, some n => return .int (-1 - (n : Int))
      | 2, n? => return .bytes (← stringPieces 2 fuel n?).flatten
      | 3, n? =>
        let texts ← ((← stringPieces 3 fuel n?).mapM Utf8.decode? : Option (List String))
        return .text (String.join texts)
      | 4, n? => return collection frozen (.list (← items frozen n? fuel))
      | 5, n? => do
        let entries ← entries frozen n? fuel
        return collection frozen (Datum.ofEntries entries)
      | 6, some tag =>
        let content ← item true fuel
        (tagged tag content : Option Datum)
      | _, _ => failure

/-- So many items, or all up to the end mark. -/
def items (frozen : Bool) (count? : Option Nat) : (fuel : Nat) → Reader (List Datum)
  | 0 => failure
  | fuel + 1 => do
    if count? = some 0 then return []
    if ← (if count?.isNone then stop else pure false) then return []
    let d ← item frozen fuel
    return d :: (← items frozen (count?.map (· - 1)) fuel)

/-- So many entries, or all up to the end mark. -/
def entries (frozen : Bool) (count? : Option Nat) : (fuel : Nat) → Reader (List (Datum × Datum))
  | 0 => failure
  | fuel + 1 => do
    if count? = some 0 then return []
    if ← (if count?.isNone then stop else pure false) then return []
    let k ← item true fuel
    let v ← item frozen fuel
    return (k, v) :: (← entries frozen (count?.map (· - 1)) fuel)

end

/-- Reads the datum at the front of a byte string. -/
def decode? (b : Bytes) : Option Datum := ((item false (2 * b.length + 4)).run b).map (·.1)

end CanisterShell.Cbor
