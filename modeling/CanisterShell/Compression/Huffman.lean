import CanisterShell.Bytes

/-!
# Prefix codes

A prefix code of least total length for symbols of given frequencies, with no code word beyond a
limit.  The two rarest trees are joined until one is left; of trees that are equally frequent the
flatter one counts as rarer, and the order among equals is that of a binary heap.  A code is kept as
the length of each symbol's word; the words themselves follow in the order of lengths and symbols.
Words are strings of bits, which fill each byte from its lowest bit on.
-/

namespace CanisterShell

/-! ## Strings of bits -/

abbrev Bits := List Bool

namespace Bits

/-- The low `width` bits of a number, lowest first. -/
def ofNat (width n : Nat) : Bits := (List.range width).map fun i => n.testBit i

/-- The low `width` bits of a number, highest first. -/
def ofNatHigh (width n : Nat) : Bits := (ofNat width n).reverse

/-- The byte whose bits, lowest first, are given. -/
def toByte (bits : Bits) : UInt8 :=
  UInt8.ofNat (bits.foldr (fun b n => 2 * n + b.toNat) 0)

/-- The bytes that bits fill; missing bits of the last one are zero. -/
def toBytes : Bits → Bytes
  | a :: b :: c :: d :: e :: f :: g :: h :: rest => toByte [a, b, c, d, e, f, g, h] :: toBytes rest
  | [] => []
  | short => [toByte short]

end Bits

namespace Huffman

/-! ## Joining trees -/

/-- Trees by number: how frequent each is, how deep, and the tree that it has become a part of. -/
structure Forest where
  weights : Array Nat
  depths : Array Nat
  parents : Array Nat

/-- Whether a tree is joined before another. -/
def Forest.before (f : Forest) (a b : Nat) : Bool :=
  let v := f.weights.getD a 0
  let w := f.weights.getD b 0
  v < w || (v = w && f.depths.getD a 0 ≤ f.depths.getD b 0)

/-- Puts a tree into the place `k` of a heap, or below it; places count from one. -/
def sink (f : Forest) (tree : Nat) : (fuel k : Nat) → (heap : Array Nat) → Array Nat
  | 0, k, heap => heap.setIfInBounds k tree
  | fuel + 1, k, heap =>
    let left := 2 * k
    if heap.size ≤ left then heap.setIfInBounds k tree
    else
      let second := left + 1 < heap.size &&
        f.before (heap.getD (left + 1) 0) (heap.getD left 0)
      let j := if second then left + 1 else left
      let child := heap.getD j 0
      if f.before tree child then heap.setIfInBounds k tree
      else sink f tree fuel j (heap.setIfInBounds k child)

/-- Puts a tree on top of a heap. -/
def sinkTop (f : Forest) (tree : Nat) (heap : Array Nat) : Array Nat := sink f tree heap.size 1 heap

def heapOf (f : Forest) (trees : List Nat) : Array Nat :=
  (List.range (trees.length / 2)).foldr
    (fun i heap => sink f (heap.getD (i + 1) 0) heap.size (i + 1) heap) (0 :: trees).toArray

/-- Joins trees until one is left; `joined` has the trees taken from the heap, latest first. -/
def join : (fuel : Nat) → Forest → (heap : Array Nat) → (joined : List Nat) → Forest × List Nat
  | 0, f, _, joined => (f, joined)
  | fuel + 1, f, heap, joined =>
    if heap.size ≤ 2 then (f, heap.getD 1 0 :: joined)
    else
      let a := heap.getD 1 0
      let heap := sinkTop f (heap.getD (heap.size - 1) 0) heap.pop
      let b := heap.getD 1 0
      let node := f.weights.size
      let f : Forest := {
        weights := f.weights.push (f.weights.getD a 0 + f.weights.getD b 0)
        depths := f.depths.push (max (f.depths.getD a 0) (f.depths.getD b 0) + 1)
        parents := ((f.parents.push 0).setIfInBounds a node).setIfInBounds b node }
      join fuel f (sinkTop f node heap) (b :: a :: joined)

/-- Lengths of code words while they are found: those of all trees, the number of symbols at each
length, and how many words would have been longer than the limit. -/
structure Sizing where
  lengths : Array Nat
  counts : Array Nat
  excess : Nat

/-- Gives a tree a length one above that of the tree that it is a part of, up to the limit. -/
def sizeOne (f : Forest) (symbols limit : Nat) (z : Sizing) (node : Nat) : Sizing :=
  let free := z.lengths.getD (f.parents.getD node 0) 0 + 1
  let length := min free limit
  let z := { z with
    lengths := z.lengths.setIfInBounds node length
    excess := if limit < free then z.excess + 1 else z.excess }
  if node < symbols then { z with counts := z.counts.modify length (· + 1) } else z

/-- The greatest length below the limit that some symbol has. -/
def fullBelow (counts : Array Nat) : (length : Nat) → Nat
  | 0 => 0
  | length + 1 => if counts.getD (length + 1) 0 = 0 then fullBelow counts length else length + 1

/-- Makes room for words that were cut to the limit, two at a time. -/
def makeRoom (limit : Nat) : (excess : Nat) → (counts : Array Nat) → Array Nat
  | 0, counts => counts
  | excess + 1, counts =>
    let l := fullBelow counts (limit - 1)
    let counts := ((counts.modify l (· - 1)).modify (l + 1) (· + 2)).modify limit (· - 1)
    makeRoom limit (excess - 1) counts

/-- Gives out lengths to symbols, rarest first, the longest first. -/
def giveOut (counts : Array Nat) : (length : Nat) → (symbols : List Nat) → (lengths : Array Nat) →
    Array Nat
  | 0, _, lengths => lengths
  | length + 1, symbols, lengths =>
    let n := counts.getD (length + 1) 0
    giveOut counts length (symbols.drop n)
      ((symbols.take n).foldl (fun ls s => ls.setIfInBounds s (length + 1)) lengths)

/-- The symbols that get code words: those that occur, and others, the first two in front, if fewer
than two occur. -/
def coded (frequencies : List Nat) : List Nat :=
  let used := (List.range frequencies.length).filter fun s => frequencies.getD s 0 ≠ 0
  match used with
  | [] => [0, 1]
  | [s] => if s < 1 then [s, s + 1] else if s < 2 then [s, 2] else [s, 0]
  | used => used

/-- The length of each symbol's code word. -/
def lengths (frequencies : List Nat) (limit : Nat) : List Nat :=
  let symbols := frequencies.length
  let trees := coded frequencies
  let weights := trees.foldl (fun ws s => ws.modify s (max 1)) frequencies.toArray
  let f : Forest := ⟨weights, Array.replicate symbols 0, Array.replicate symbols 0⟩
  let (f, joined) := join symbols f (heapOf f trees) []
  let z : Sizing := ⟨Array.replicate f.weights.size 0, Array.replicate (limit + 2) 0, 0⟩
  let z := joined.tail.foldl (sizeOne f symbols limit) z
  let all :=
    if z.excess = 0 then z.lengths
    else giveOut (makeRoom limit z.excess z.counts) limit
      (joined.reverse.filter (· < symbols)) z.lengths
  all.toList.take symbols

/-! ## Code words -/

/-- The first code word of each length, from the number of words of each length. -/
def firstWords (lengths : List Nat) : (upTo : Nat) → Nat
  | 0 => 0
  | n + 1 => 2 * (firstWords lengths n + if n = 0 then 0 else lengths.count n)

def word (lengths : List Nat) (symbol : Nat) : Bits :=
  let l := lengths.getD symbol 0
  Bits.ofNatHigh l (firstWords lengths l + (lengths.take symbol).count l)

/-- The code words of all symbols. -/
def words (lengths : List Nat) : Array Bits :=
  ((List.range lengths.length).map (word lengths)).toArray

end Huffman

end CanisterShell
