import CanisterShell.Bytes

/-!
# UTF-8

Text as bytes and back.  The strict reader takes only shortest forms of scalar values; the lenient
one puts a replacement character for each longest piece that begins a character and breaks off.
-/

namespace CanisterShell.Utf8

def encode (text : String) : Bytes := text.toList.flatMap String.utf8EncodeChar

/-- What stands at the front of a byte string: a character, or a piece that is none. -/
inductive Front where
  | char (c : Char) (rest : Bytes)
  | broken (rest : Bytes)

def Front.rest : Front → Bytes
  | .char _ rest => rest
  | .broken rest => rest

/-- A byte that continues a character. -/
def isTail (b : UInt8) : Bool := 0x80 ≤ b && b ≤ 0xBF

/-- The payload of a byte that continues a character. -/
def tailBits (b : UInt8) : Nat := b.toNat % 64

/-- The two bytes after the second one of a four-byte character. -/
def frontTail4 (acc : Nat) : Bytes → Front
  | c :: d :: rest =>
    if isTail c then
      if isTail d then .char (Char.ofNat ((acc * 64 + tailBits c) * 64 + tailBits d)) rest
      else .broken (d :: rest)
    else .broken (c :: d :: rest)
  | [c] => if isTail c then .broken [] else .broken [c]
  | [] => .broken []

/-- The byte after the second one of a three-byte character. -/
def frontTail3 (acc : Nat) : Bytes → Front
  | c :: rest =>
    if isTail c then .char (Char.ofNat (acc * 64 + tailBits c)) rest else .broken (c :: rest)
  | [] => .broken []

/-- The smallest and the largest second byte that may follow the first byte `b`. -/
def secondRange (b : UInt8) : UInt8 × UInt8 :=
  if b = 0xE0 then (0xA0, 0xBF)
  else if b = 0xED then (0x80, 0x9F)
  else if b = 0xF0 then (0x90, 0xBF)
  else if b = 0xF4 then (0x80, 0x8F)
  else (0x80, 0xBF)

/-- The front of `b :: tail`. -/
def front (b : UInt8) (tail : Bytes) : Front :=
  if b < 0x80 then .char (Char.ofNat b.toNat) tail
  else if b < 0xC2 || 0xF4 < b then .broken tail
  else match tail with
    | [] => .broken []
    | c :: rest =>
      if c < (secondRange b).1 || (secondRange b).2 < c then .broken (c :: rest)
      else if b < 0xE0 then .char (Char.ofNat ((b.toNat - 0xC0) * 64 + tailBits c)) rest
      else if b < 0xF0 then frontTail3 ((b.toNat - 0xE0) * 64 + tailBits c) rest
      else frontTail4 ((b.toNat - 0xF0) * 64 + tailBits c) rest

theorem frontTail4_rest_length (acc : Nat) (bytes : Bytes) :
    (frontTail4 acc bytes).rest.length ≤ bytes.length := by
  unfold frontTail4
  split
  · split
    · split
      · simp only [Front.rest, List.length_cons]
        omega
      · simp [Front.rest]
    · simp [Front.rest]
  · split <;> simp [Front.rest]
  · simp [Front.rest]

theorem frontTail3_rest_length (acc : Nat) (bytes : Bytes) :
    (frontTail3 acc bytes).rest.length ≤ bytes.length := by
  unfold frontTail3
  split
  · split <;> simp [Front.rest]
  · simp [Front.rest]

theorem front_rest_length (b : UInt8) (tail : Bytes) :
    (front b tail).rest.length ≤ tail.length := by
  unfold front
  split
  · simp [Front.rest]
  · split
    · simp [Front.rest]
    · split
      · simp [Front.rest]
      · rename_i c rest
        split
        · simp [Front.rest]
        · split
          · simp [Front.rest]
          · split
            · have := frontTail3_rest_length ((b.toNat - 0xE0) * 64 + tailBits c) rest
              simp only [List.length_cons]; omega
            · have := frontTail4_rest_length ((b.toNat - 0xF0) * 64 + tailBits c) rest
              simp only [List.length_cons]; omega

def decodeChars : Bytes → Option (List Char)
  | [] => some []
  | b :: tail =>
    match h : front b tail with
    | .broken _ => none
    | .char c rest =>
      have : rest.length ≤ tail.length := by
        simpa [h, Front.rest] using front_rest_length b tail
      (decodeChars rest).map (c :: ·)
termination_by bytes => bytes.length

def decode? (bytes : Bytes) : Option String := (decodeChars bytes).map String.ofList

/-- The characters of a byte string, with U+FFFD for each broken piece. -/
def decodeCharsLossy : Bytes → List Char
  | [] => []
  | b :: tail =>
    match h : front b tail with
    | .broken rest =>
      have : rest.length ≤ tail.length := by
        simpa [h, Front.rest] using front_rest_length b tail
      '\uFFFD' :: decodeCharsLossy rest
    | .char c rest =>
      have : rest.length ≤ tail.length := by
        simpa [h, Front.rest] using front_rest_length b tail
      c :: decodeCharsLossy rest
termination_by bytes => bytes.length

/-- The text of a byte string, with U+FFFD for each broken piece. -/
def decodeLossy (bytes : Bytes) : String := String.ofList (decodeCharsLossy bytes)

end CanisterShell.Utf8
