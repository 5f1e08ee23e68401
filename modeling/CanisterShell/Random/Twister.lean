import CanisterShell.Number.Modular

/-!
# The Mersenne twister

The generator MT19937 of pseudo-random words of 32 bits, started from the words of a number, and
what is drawn from it: fractions of 53 bits, and numbers below a bound by drawing again if too large.
-/

namespace CanisterShell.Random

/-- The state of the generator: 624 words, and those of them that have not been used. -/
structure Twister where
  words : List UInt32
  unused : List UInt32

namespace Twister

/-- The number of words of the state. -/
def size : Nat := 624

/-- The words of 32 bits of a number, lowest first; zero has one. -/
def wordsOf (n : Nat) : List UInt32 :=
  if n < 2 ^ 32 then [UInt32.ofNat n] else UInt32.ofNat (n % 2 ^ 32) :: wordsOf (n / 2 ^ 32)
termination_by n

/-- A word and as many others, each of which follows from the one before; `i` counts them. -/
def wordsFrom (word : UInt32) (i : Nat) : (count : Nat) → List UInt32
  | 0 => [word]
  | count + 1 =>
    word :: wordsFrom ((word ^^^ (word >>> 30)) * 1812433253 + UInt32.ofNat i) (i + 1) count

/-! ## Stirring -/

/-- A state that is being stirred: the words before the place in question, the nearest first, their
number, and the others. -/
structure Stirring where
  before : List UInt32
  place : Nat
  ahead : List UInt32

namespace Stirring

/-- The state at its second word. -/
def start : List UInt32 → Stirring
  | [] => ⟨[], 0, []⟩
  | first :: rest => ⟨[first], 1, rest⟩

/-- All words, from the first to the last. -/
def words (s : Stirring) : List UInt32 := s.before.reverse ++ s.ahead

/-- Behind the last word, a copy of it takes the place of the first one, and the second is next. -/
def wrap (s : Stirring) : Stirring :=
  match s.ahead, s.before with
  | [], last :: _ => start (last :: s.words.tail)
  | _, _ => s

/-- Stirs one word: what the word before it becomes, times a factor, is mixed in, and something is
added. -/
def step (factor : UInt32) (s : Stirring) (extra : UInt32) : Stirring :=
  match s.before, s.ahead with
  | last :: _, word :: rest =>
    let mixed := (word ^^^ ((last ^^^ (last >>> 30)) * factor)) + extra
    wrap ⟨mixed :: s.before, s.place + 1, rest⟩
  | _, _ => s

/-- Stirs so many words with the words of a key, one after the other and from the first again; `j`
is the place in the key, of which `rest` is still to come. -/
def mixIn (key : List UInt32) : (rounds : Nat) → (j : Nat) → (rest : List UInt32) → Stirring → Stirring
  | 0, _, _, s => s
  | rounds + 1, _, [], s => mixIn key rounds 1 key.tail (step 1664525 s (key.headD 0))
  | rounds + 1, j, word :: rest, s =>
    mixIn key rounds (j + 1) rest (step 1664525 s (word + UInt32.ofNat j))

/-- Stirs so many words, from each of which its place is taken away. -/
def spread : (rounds : Nat) → Stirring → Stirring
  | 0, s => s
  | rounds + 1, s => spread rounds (step 1566083941 s (0 - UInt32.ofNat s.place))

end Stirring

/-- The generator that the words of a number start. -/
def ofSeed (seed : Nat) : Twister :=
  let key := wordsOf seed
  let s := Stirring.start (wordsFrom 19650218 1 (size - 1))
  let s := (s.mixIn key (max size key.length) 0 key).spread (size - 1)
  ⟨0x80000000 :: s.words.tail, []⟩

/-! ## Drawing words -/

/-- A word of the next state, from the word in its place, the one behind, and one further ahead. -/
def twist (word behind far : UInt32) : UInt32 :=
  let y := (word &&& 0x80000000) ||| (behind &&& 0x7fffffff)
  far ^^^ (y >>> 1) ^^^ (if y &&& 1 = 1 then 0x9908b0df else 0)

/-- The words of the next state for which those further ahead are given. -/
def twistAll (words far : List UInt32) : List UInt32 :=
  List.zipWith (fun (word, behind) far => twist word behind far) (words.zip words.tail) far

/-- The next state.  What is 397 words ahead is a word of this state at first, and then, from the front
again, one of the next. -/
def refresh (words : List UInt32) : List UInt32 :=
  let first := twistAll words (words.drop 397)
  let second := twistAll (words.drop 227) first
  let third := twistAll (words.drop 454 ++ first.take 1) second
  first ++ second ++ third

/-- Evens out the bits of a word. -/
def temper (y : UInt32) : UInt32 :=
  let y := y ^^^ (y >>> 11)
  let y := y ^^^ ((y <<< 7) &&& 0x9d2c5680)
  let y := y ^^^ ((y <<< 15) &&& 0xefc60000)
  y ^^^ (y >>> 18)

def next (t : Twister) : UInt32 × Twister :=
  match t.unused with
  | word :: rest => (temper word, { t with unused := rest })
  | [] =>
    let words := refresh t.words
    (temper (words.headD 0), ⟨words, words.tail⟩)

/-- The next `count` words as a number, the first word lowest; of the last one only the upper `top`
bits count. -/
def wordsBelow (top : Nat) : (count : Nat) → Twister → Nat × Twister
  | 0, t => (0, t)
  | 1, t =>
    let (w, t) := t.next
    (w.toNat / 2 ^ (32 - top), t)
  | count + 2, t =>
    let (w, t) := t.next
    let (n, t) := wordsBelow top (count + 1) t
    (w.toNat + 2 ^ 32 * n, t)

def bits (bits : Nat) (t : Twister) : Nat × Twister :=
  if bits = 0 then (0, t) else wordsBelow ((bits - 1) % 32 + 1) ((bits + 31) / 32) t

/-- A number of `width` bits that is below `bound`, if it comes within so many tries. -/
def drawBelow? (bound width : Nat) : (tries : Nat) → Twister → Option (Nat × Twister)
  | 0, _ => none
  | tries + 1, t =>
    let (n, t) := t.bits width
    if n < bound then some (n, t) else drawBelow? bound width tries t

/-- The number of draws after which drawing is cut off.  At least every second number fits, so that
nobody has to wait for so many. -/
def mostTries : Nat := 4096

/-- A number below `bound`, unless drawing it is cut off. -/
def below? (bound : Nat) (t : Twister) : Option (Nat × Twister) :=
  drawBelow? bound (Nat.log2 bound + 1) mostTries t

/-- A number of 53 bits, to be read as a fraction of `2 ^ 53`. -/
def fraction (t : Twister) : Nat × Twister :=
  let (a, t) := t.next
  let (b, t) := t.next
  ((a >>> 5).toNat * 2 ^ 26 + (b >>> 6).toNat, t)

end Twister

end CanisterShell.Random
