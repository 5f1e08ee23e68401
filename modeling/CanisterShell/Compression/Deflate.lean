import CanisterShell.Compression.Huffman
import CanisterShell.Hash.Crc32
import CanisterShell.Number.Modular

/-!
# Deflate

Compression by repetition and prefix codes, at the highest effort.  A repetition is taken up only
after seeing that none that begins a byte later is longer.  What has been found is written in
blocks, each in the shortest of three forms: with a code of its own, with the fixed code, or as is.
-/

namespace CanisterShell

namespace Deflate

/-! ## Repetitions -/

/-- A byte, or a repetition of `length` bytes from `distance` bytes before. -/
inductive Item where
  | byte (b : UInt8)
  | repetition (length distance : Nat)
  deriving DecidableEq

/-- The shortest and the longest repetition, the greatest distance, and the greatest distance of a
shortest repetition. -/
def leastLength : Nat := 3
def mostLength : Nat := 258
def mostDistance : Nat := 32768 - 262
def nearDistance : Nat := 4096

/-- How many earlier places are tried, and how many when a repetition that begins a byte before has
at least the length `goodLength`. -/
def tries : Nat := 4096
def fewTries : Nat := 1024
def goodLength : Nat := 32

/-- The slot of the three bytes at a place. -/
def slot (data : Array UInt8) (i : Nat) : Nat :=
  let at_ (k : Nat) : Nat := (data.getD (i + k) 0).toNat
  ((at_ 0 <<< 10) ^^^ (at_ 1 <<< 5) ^^^ at_ 2) % 2 ^ 15

/-- How many bytes at two places are the same, up to `most`. -/
def common (data : Array UInt8) (i j : Nat) : (most : Nat) → Nat
  | 0 => 0
  | most + 1 =>
    if data.getD i 0 = data.getD j 0 then common data (i + 1) (j + 1) most + 1 else 0

/-- The longest repetition of what stands at the place `i`, longer than the one found so far; `best`
is its length and its place. -/
def longest (data : Array UInt8) (i ahead : Nat) : (tries : Nat) → (places : List Nat) →
    (best : Nat × Nat) → Nat × Nat
  | 0, _, best => best
  | _, [], best => best
  | tries + 1, j :: places, best =>
    let n := common data i j (min mostLength ahead)
    if n ≤ best.1 then longest data i ahead tries places best
    else if min mostLength ahead ≤ n then (n, j)
    else longest data i ahead tries places (n, j)

/-- The places that are near enough to the place `i`; the very first place is never among them, and
only the latest may lie at the greatest distance. -/
def nearPlaces (i : Nat) : List Nat → List Nat
  | [] => []
  | j :: rest =>
    if j = 0 || mostDistance < i - j then []
    else j :: rest.takeWhile fun k => k ≠ 0 && i - k < mostDistance

/-- The state of the search: the places seen by slot, latest first; the repetition that begins at
the place before, if a byte is held back for it; and what has been found, last first. -/
structure Search where
  places : Array (List Nat)
  previous : Nat × Nat := (leastLength - 1, 0)
  holding : Bool := false
  found : List Item := []

/-- Notes a place. -/
def Search.note (data : Array UInt8) (s : Search) (i : Nat) : Search :=
  if i + leastLength ≤ data.size then
    { s with places := s.places.modify (slot data i) (i :: ·) }
  else s

/-- The repetition that begins at a place, or one too short to count. -/
def Search.match_ (data : Array UInt8) (s : Search) (i : Nat) : Nat × Nat :=
  if data.size < i + leastLength || mostLength ≤ s.previous.1 then (leastLength - 1, s.previous.2)
  else
    let few := if goodLength ≤ s.previous.1 then fewTries else tries
    let places := nearPlaces i (s.places.getD (slot data i) [])
    let best := longest data i (data.size - i) few places s.previous
    if best.1 = leastLength && nearDistance < i - best.2 then (leastLength - 1, best.2) else best

/-- Goes through the places from `i` on. -/
def search (data : Array UInt8) : (fuel i : Nat) → Search → Search
  | 0, _, s => s
  | fuel + 1, i, s =>
    if data.size ≤ i then
      if s.holding then { s with found := .byte (data.getD (i - 1) 0) :: s.found } else s
    else
      let (length, place) := s.match_ data i
      let s' := s.note data i
      if leastLength ≤ s.previous.1 && length ≤ s.previous.1 then
        let item := Item.repetition s.previous.1 (i - 1 - s.previous.2)
        let next := i - 1 + s.previous.1
        let s' := (List.range' (i + 1) (next - (i + 1))).foldl (Search.note data) s'
        search data fuel next
          { s' with previous := (leastLength - 1, 0), holding := false, found := item :: s.found }
      else
        let found := if s.holding then .byte (data.getD (i - 1) 0) :: s.found else s.found
        search data fuel (i + 1)
          { s' with previous := (length, place), holding := true, found := found }

/-- The bytes and repetitions that a byte string is made of. -/
def items (bytes : Bytes) : List Item :=
  let data := bytes.toArray
  (search data (data.size + 1) 0 { places := Array.replicate (2 ^ 15) [] }).found.reverse

/-! ## Symbols -/

/-- The first value of each range that a symbol stands for, and the number of bits that tell values
in the range apart. -/
abbrev Ranges := List (Nat × Nat)

/-- The ranges of lengths, whose symbols begin at 257. -/
def lengthRanges : Ranges := [
  (3, 0), (4, 0), (5, 0), (6, 0), (7, 0), (8, 0), (9, 0), (10, 0), (11, 1), (13, 1), (15, 1),
  (17, 1), (19, 2), (23, 2), (27, 2), (31, 2), (35, 3), (43, 3), (51, 3), (59, 3), (67, 4),
  (83, 4), (99, 4), (115, 4), (131, 5), (163, 5), (195, 5), (227, 5), (258, 0)]

def distanceRanges : Ranges := [
  (1, 0), (2, 0), (3, 0), (4, 0), (5, 1), (7, 1), (9, 2), (13, 2), (17, 3), (25, 3), (33, 4),
  (49, 4), (65, 5), (97, 5), (129, 6), (193, 6), (257, 7), (385, 7), (513, 8), (769, 8),
  (1025, 9), (1537, 9), (2049, 10), (3073, 10), (4097, 11), (6145, 11), (8193, 12), (12289, 12),
  (16385, 13), (24577, 13)]

/-- The number of the last range that begins at a value or before it, and the bits behind its
symbol. -/
def symbolOf (ranges : Ranges) (n : Nat) : Nat × Bits :=
  let k := (ranges.takeWhile fun r => r.1 ≤ n).length - 1
  let (first, width) := ranges.getD k (0, 0)
  (k, Bits.ofNat width (n - first))

/-- The symbols of an item: a literal or length, and a distance, each with the bits behind it. -/
structure Symbols where
  main : Nat × Bits
  distance? : Option (Nat × Bits)

def Item.symbols : Item → Symbols
  | byte b => ⟨(b.toNat, []), none⟩
  | repetition length distance =>
    let (k, extra) := symbolOf lengthRanges length
    ⟨(257 + k, extra), some (symbolOf distanceRanges distance)⟩

def endSymbol : Nat := 256

/-! ## Blocks -/

/-- A pair of codes, for literals and lengths and for distances, by the lengths of their words. -/
structure Codes where
  main : List Nat
  distance : List Nat

def fixedCodes : Codes := {
  main := List.replicate 144 8 ++ List.replicate 112 9 ++ List.replicate 24 7 ++ List.replicate 8 8
  distance := List.replicate 30 5 }

/-- How often each of `n` symbols occurs. -/
def frequencies (n : Nat) (symbols : List Nat) : List Nat :=
  (symbols.foldl (fun a s => a.modify s (· + 1)) (Array.replicate n 0)).toList

/-- The bits of items in some codes, with the symbol that ends the block. -/
def bitsOf (codes : Codes) (symbols : List Symbols) : Bits :=
  let main := Huffman.words codes.main
  let distance := Huffman.words codes.distance
  (symbols.flatMap fun s =>
    main.getD s.main.1 [] ++ s.main.2 ++
      match s.distance? with
      | none => []
      | some d => distance.getD d.1 [] ++ d.2) ++ main.getD endSymbol []

/-- The greatest symbol with a code word, and one more. -/
def usedSize (least : Nat) (lengths : List Nat) : Nat :=
  max least (lengths.reverse.dropWhile (· = 0)).length

def run (l : Nat) : List Nat → Nat × List Nat
  | [] => (0, [])
  | m :: rest =>
    if m = l then
      let (n, rest) := run l rest
      (n + 1, rest)
    else (0, m :: rest)

/-- The symbols for `n` words without length. -/
def zeros : (fuel n : Nat) → List (Nat × Bits)
  | 0, _ => []
  | fuel + 1, n =>
    if n = 0 then []
    else if n < 3 then List.replicate n (0, [])
    else if n ≤ 10 then [(17, Bits.ofNat 3 (n - 3))]
    else (18, Bits.ofNat 7 (min n 138 - 11)) :: zeros fuel (n - min n 138)

/-- The symbols for `n` further words of a length that has been told. -/
def again (l : Nat) : (fuel n : Nat) → List (Nat × Bits)
  | 0, _ => []
  | fuel + 1, n =>
    if n = 0 then []
    else if n < 3 then List.replicate n (l, [])
    else (16, Bits.ofNat 2 (min n 6 - 3)) :: again l fuel (n - min n 6)

/-- The symbols that tell the lengths of a code's words, runs taken together. -/
def lengthSymbols : (fuel : Nat) → List Nat → List (Nat × Bits)
  | 0, _ => []
  | _, [] => []
  | fuel + 1, l :: rest =>
    let (n, rest) := run l rest
    let here := if l = 0 then zeros (n + 1) (n + 1) else (l, []) :: again l (n + 1) n
    here ++ lengthSymbols fuel rest

def lengthOrder : List Nat := [16, 17, 18, 0, 8, 7, 9, 6, 10, 5, 11, 4, 12, 3, 13, 2, 14, 1, 15]

/-- The bits that tell a pair of codes. -/
def headerBits (codes : Codes) : Bits :=
  let main := codes.main.take (usedSize 257 codes.main)
  let distance := codes.distance.take (usedSize 1 codes.distance)
  let symbols := lengthSymbols main.length main ++ lengthSymbols distance.length distance
  let own := Huffman.lengths (frequencies 19 (symbols.map (·.1))) 7
  let order := lengthOrder.map fun s => own.getD s 0
  let order := order.take (usedSize 4 order)
  let words := Huffman.words own
  Bits.ofNat 5 (main.length - 257) ++ Bits.ofNat 5 (distance.length - 1)
    ++ Bits.ofNat 4 (order.length - 4) ++ order.flatMap (Bits.ofNat 3)
    ++ symbols.flatMap fun s => words.getD s.1 [] ++ s.2

/-- The codes made for the items of a block. -/
def ownCodes (symbols : List Symbols) : Codes := {
  main := Huffman.lengths (frequencies 286 (endSymbol :: symbols.map (·.main.1))) 15
  distance := Huffman.lengths
    (frequencies 30 (symbols.filterMap fun s => s.distance?.map (·.1))) 15 }

/-- The number of bytes that begin with three bits of a block's head and hold the given bits. -/
def byteCount (bits : Bits) : Nat := (bits.length + 3 + 7) / 8

/-- The bits of a block as it is, behind `before` bits. -/
def storedBits (before : Nat) (last : Bool) (bytes : Bytes) : Bits :=
  let head := [last, false, false]
  let n := bytes.length
  head ++ List.replicate ((8 - (before + 3) % 8) % 8) false ++ Bits.ofNat 16 n
    ++ Bits.ofNat 16 (2 ^ 16 - 1 - n) ++ bytes.flatMap fun b => Bits.ofNat 8 b.toNat

/-- The bits of a block, behind `before` bits, in the shortest form. -/
def blockBits (before : Nat) (last : Bool) (bytes : Bytes) (items : List Item) : Bits :=
  let symbols := items.map Item.symbols
  let codes := ownCodes symbols
  let own := headerBits codes ++ bitsOf codes symbols
  let fixed := bitsOf fixedCodes symbols
  let useFixed := byteCount fixed ≤ byteCount own
  let least := if useFixed then byteCount fixed else byteCount own
  if bytes.length + 4 ≤ least then storedBits before last bytes
  else if useFixed then last :: true :: false :: fixed
  else last :: false :: true :: own

/-- The number of items after which a block ends. -/
def blockSize : Nat := 2 ^ 14 - 1

/-- The number of bytes that an item stands for. -/
def Item.span : Item → Nat
  | .byte _ => 1
  | .repetition n _ => n

/-- The number of bytes that items stand for. -/
def span : List Item → Nat
  | [] => 0
  | i :: rest => i.span + span rest

/-- The bits of the blocks of some items, behind `before` bits. -/
def blocks : (fuel before : Nat) → Bytes → List Item → Bits
  | 0, _, _, _ => []
  | fuel + 1, before, bytes, items =>
    let here := items.take blockSize
    let later := items.drop blockSize
    let n := span here
    let last : Bool := here.length < blockSize
    let bits := blockBits before last (bytes.take n) here
    if last then bits else bits ++ blocks fuel (before + bits.length) (bytes.drop n) later

def compress (bytes : Bytes) : Bytes :=
  let items := items bytes
  Bits.toBytes (blocks (items.length + 1) 0 bytes items)

end Deflate

/-! ## Files of compressed data

The file format around deflated data has a head without a name or a time, and a checksum and the length
at the end. -/

/-- The head of a file: the format, deflation, no further entries, no time, highest effort, and the
kind of the system. -/
def gzipHead : Bytes := [0x1F, 0x8B, 8, 0, 0, 0, 0, 0, 2, 3]

/-- The file that holds a byte string, compressed. -/
def gzip (bytes : Bytes) : Bytes :=
  gzipHead ++ Deflate.compress bytes ++ Bytes.ofNatLE 4 (crc32 bytes).toNat
    ++ Bytes.ofNatLE 4 bytes.length

end CanisterShell
