import CanisterShell.Bytes

/-!
# SHA-2

The digests of the SHA-2 family that the library needs: SHA-224 and SHA-256 over words of 32 bits,
SHA-512 over words of 64.  A message is padded to whole blocks, every block stirs the state in turn,
and the digest is the final state, cut off for SHA-224.
-/

namespace CanisterShell.Sha2

/-- The message behind which a one bit, zeros and its length in bits fill the last block of `block`
bytes; the length takes `width` bytes. -/
def pad (block width : Nat) (message : Bytes) : Bytes :=
  let used := message.length + 1 + width
  message ++ 0x80 :: List.replicate ((block - used % block) % block) 0
    ++ Bytes.ofNatBE width (8 * message.length)

/-- Cuts a list into pieces of `size` items; a last shorter piece is kept. -/
def chunks {α : Type} (size : Nat) : (count : Nat) → List α → List (List α)
  | 0, _ => []
  | _, [] => []
  | count + 1, items => items.take size :: chunks size count (items.drop size)

/-- All pieces of `size` items. -/
def pieces {α : Type} (size : Nat) (items : List α) : List (List α) :=
  chunks size items.length items

/-! ## Words of 32 bits -/

def roundWords32 : Array UInt32 := #[
  0x428a2f98, 0x71374491, 0xb5c0fbcf, 0xe9b5dba5, 0x3956c25b, 0x59f111f1,
  0x923f82a4, 0xab1c5ed5, 0xd807aa98, 0x12835b01, 0x243185be, 0x550c7dc3,
  0x72be5d74, 0x80deb1fe, 0x9bdc06a7, 0xc19bf174, 0xe49b69c1, 0xefbe4786,
  0x0fc19dc6, 0x240ca1cc, 0x2de92c6f, 0x4a7484aa, 0x5cb0a9dc, 0x76f988da,
  0x983e5152, 0xa831c66d, 0xb00327c8, 0xbf597fc7, 0xc6e00bf3, 0xd5a79147,
  0x06ca6351, 0x14292967, 0x27b70a85, 0x2e1b2138, 0x4d2c6dfc, 0x53380d13,
  0x650a7354, 0x766a0abb, 0x81c2c92e, 0x92722c85, 0xa2bfe8a1, 0xa81a664b,
  0xc24b8b70, 0xc76c51a3, 0xd192e819, 0xd6990624, 0xf40e3585, 0x106aa070,
  0x19a4c116, 0x1e376c08, 0x2748774c, 0x34b0bcb5, 0x391c0cb3, 0x4ed8aa4a,
  0x5b9cca4f, 0x682e6ff3, 0x748f82ee, 0x78a5636f, 0x84c87814, 0x8cc70208,
  0x90befffa, 0xa4506ceb, 0xbef9a3f7, 0xc67178f2]

def start256 : Array UInt32 := #[
  0x6a09e667, 0xbb67ae85, 0x3c6ef372, 0xa54ff53a, 0x510e527f, 0x9b05688c,
  0x1f83d9ab, 0x5be0cd19]

def start224 : Array UInt32 := #[
  0xc1059ed8, 0x367cd507, 0x3070dd17, 0xf70e5939, 0xffc00b31, 0x68581511,
  0x64f98fa7, 0xbefa4fa4]

def rotate32 (x : UInt32) (n : UInt32) : UInt32 := (x >>> n) ||| (x <<< (32 - n))

/-- Appends the word of the schedule that the last sixteen give. -/
def extend32 (w : Array UInt32) : Array UInt32 :=
  let n := w.size
  let x := w.getD (n - 15) 0
  let y := w.getD (n - 2) 0
  let s0 := rotate32 x 7 ^^^ rotate32 x 18 ^^^ (x >>> 3)
  let s1 := rotate32 y 17 ^^^ rotate32 y 19 ^^^ (y >>> 10)
  w.push (w.getD (n - 16) 0 + s0 + w.getD (n - 7) 0 + s1)

/-- The eight working words. -/
structure Working (α : Type) where
  (a b c d e f g h : α)

/-- One round, with its constant and its word of the schedule. -/
def round32 (v : Working UInt32) (k w : UInt32) : Working UInt32 :=
  let s1 := rotate32 v.e 6 ^^^ rotate32 v.e 11 ^^^ rotate32 v.e 25
  let choice := (v.e &&& v.f) ^^^ ((~~~v.e) &&& v.g)
  let t1 := v.h + s1 + choice + k + w
  let s0 := rotate32 v.a 2 ^^^ rotate32 v.a 13 ^^^ rotate32 v.a 22
  let majority := (v.a &&& v.b) ^^^ (v.a &&& v.c) ^^^ (v.b &&& v.c)
  ⟨t1 + (s0 + majority), v.a, v.b, v.c, v.d + t1, v.e, v.f, v.g⟩

def block32 (state : Array UInt32) (block : Bytes) : Array UInt32 :=
  let words := ((pieces 4 block).map fun p => UInt32.ofNat (Bytes.toNatBE p)).toArray
  let schedule := (List.range 48).foldl (fun w _ => extend32 w) words
  let v0 : Working UInt32 :=
    ⟨state.getD 0 0, state.getD 1 0, state.getD 2 0, state.getD 3 0,
      state.getD 4 0, state.getD 5 0, state.getD 6 0, state.getD 7 0⟩
  let v := (List.range 64).foldl
    (fun v i => round32 v (roundWords32.getD i 0) (schedule.getD i 0)) v0
  #[v0.a + v.a, v0.b + v.b, v0.c + v.c, v0.d + v.d,
    v0.e + v.e, v0.f + v.f, v0.g + v.g, v0.h + v.h]

def run32 (start : Array UInt32) (message : Bytes) : Bytes :=
  let state := (pieces 64 (pad 64 8 message)).foldl block32 start
  state.toList.flatMap fun w => Bytes.ofNatBE 4 w.toNat

/-! ## Words of 64 bits -/

def roundWords64 : Array UInt64 := #[
  0x428a2f98d728ae22, 0x7137449123ef65cd, 0xb5c0fbcfec4d3b2f, 0xe9b5dba58189dbbc,
  0x3956c25bf348b538, 0x59f111f1b605d019, 0x923f82a4af194f9b, 0xab1c5ed5da6d8118,
  0xd807aa98a3030242, 0x12835b0145706fbe, 0x243185be4ee4b28c, 0x550c7dc3d5ffb4e2,
  0x72be5d74f27b896f, 0x80deb1fe3b1696b1, 0x9bdc06a725c71235, 0xc19bf174cf692694,
  0xe49b69c19ef14ad2, 0xefbe4786384f25e3, 0x0fc19dc68b8cd5b5, 0x240ca1cc77ac9c65,
  0x2de92c6f592b0275, 0x4a7484aa6ea6e483, 0x5cb0a9dcbd41fbd4, 0x76f988da831153b5,
  0x983e5152ee66dfab, 0xa831c66d2db43210, 0xb00327c898fb213f, 0xbf597fc7beef0ee4,
  0xc6e00bf33da88fc2, 0xd5a79147930aa725, 0x06ca6351e003826f, 0x142929670a0e6e70,
  0x27b70a8546d22ffc, 0x2e1b21385c26c926, 0x4d2c6dfc5ac42aed, 0x53380d139d95b3df,
  0x650a73548baf63de, 0x766a0abb3c77b2a8, 0x81c2c92e47edaee6, 0x92722c851482353b,
  0xa2bfe8a14cf10364, 0xa81a664bbc423001, 0xc24b8b70d0f89791, 0xc76c51a30654be30,
  0xd192e819d6ef5218, 0xd69906245565a910, 0xf40e35855771202a, 0x106aa07032bbd1b8,
  0x19a4c116b8d2d0c8, 0x1e376c085141ab53, 0x2748774cdf8eeb99, 0x34b0bcb5e19b48a8,
  0x391c0cb3c5c95a63, 0x4ed8aa4ae3418acb, 0x5b9cca4f7763e373, 0x682e6ff3d6b2b8a3,
  0x748f82ee5defb2fc, 0x78a5636f43172f60, 0x84c87814a1f0ab72, 0x8cc702081a6439ec,
  0x90befffa23631e28, 0xa4506cebde82bde9, 0xbef9a3f7b2c67915, 0xc67178f2e372532b,
  0xca273eceea26619c, 0xd186b8c721c0c207, 0xeada7dd6cde0eb1e, 0xf57d4f7fee6ed178,
  0x06f067aa72176fba, 0x0a637dc5a2c898a6, 0x113f9804bef90dae, 0x1b710b35131c471b,
  0x28db77f523047d84, 0x32caab7b40c72493, 0x3c9ebe0a15c9bebc, 0x431d67c49c100d4c,
  0x4cc5d4becb3e42b6, 0x597f299cfc657e2a, 0x5fcb6fab3ad6faec, 0x6c44198c4a475817]

def start512 : Array UInt64 := #[
  0x6a09e667f3bcc908, 0xbb67ae8584caa73b, 0x3c6ef372fe94f82b, 0xa54ff53a5f1d36f1,
  0x510e527fade682d1, 0x9b05688c2b3e6c1f, 0x1f83d9abfb41bd6b, 0x5be0cd19137e2179]

def rotate64 (x : UInt64) (n : UInt64) : UInt64 := (x >>> n) ||| (x <<< (64 - n))

/-- Appends the word of the schedule that the last sixteen give. -/
def extend64 (w : Array UInt64) : Array UInt64 :=
  let n := w.size
  let x := w.getD (n - 15) 0
  let y := w.getD (n - 2) 0
  let s0 := rotate64 x 1 ^^^ rotate64 x 8 ^^^ (x >>> 7)
  let s1 := rotate64 y 19 ^^^ rotate64 y 61 ^^^ (y >>> 6)
  w.push (w.getD (n - 16) 0 + s0 + w.getD (n - 7) 0 + s1)

/-- One round, with its constant and its word of the schedule. -/
def round64 (v : Working UInt64) (k w : UInt64) : Working UInt64 :=
  let s1 := rotate64 v.e 14 ^^^ rotate64 v.e 18 ^^^ rotate64 v.e 41
  let choice := (v.e &&& v.f) ^^^ ((~~~v.e) &&& v.g)
  let t1 := v.h + s1 + choice + k + w
  let s0 := rotate64 v.a 28 ^^^ rotate64 v.a 34 ^^^ rotate64 v.a 39
  let majority := (v.a &&& v.b) ^^^ (v.a &&& v.c) ^^^ (v.b &&& v.c)
  ⟨t1 + (s0 + majority), v.a, v.b, v.c, v.d + t1, v.e, v.f, v.g⟩

def block64 (state : Array UInt64) (block : Bytes) : Array UInt64 :=
  let words := ((pieces 8 block).map fun p => UInt64.ofNat (Bytes.toNatBE p)).toArray
  let schedule := (List.range 64).foldl (fun w _ => extend64 w) words
  let v0 : Working UInt64 :=
    ⟨state.getD 0 0, state.getD 1 0, state.getD 2 0, state.getD 3 0,
      state.getD 4 0, state.getD 5 0, state.getD 6 0, state.getD 7 0⟩
  let v := (List.range 80).foldl
    (fun v i => round64 v (roundWords64.getD i 0) (schedule.getD i 0)) v0
  #[v0.a + v.a, v0.b + v.b, v0.c + v.c, v0.d + v.d,
    v0.e + v.e, v0.f + v.f, v0.g + v.g, v0.h + v.h]

end CanisterShell.Sha2

namespace CanisterShell

def sha256 (message : Bytes) : Bytes := Sha2.run32 Sha2.start256 message

def sha224 (message : Bytes) : Bytes := (Sha2.run32 Sha2.start224 message).take 28

def sha512 (message : Bytes) : Bytes :=
  let state := (Sha2.pieces 128 (Sha2.pad 128 16 message)).foldl Sha2.block64 Sha2.start512
  state.toList.flatMap fun w => Bytes.ofNatBE 8 w.toNat

end CanisterShell
