import CanisterShell.Hash.Sha2
import CanisterShell.Number.Modular

/-!
# ECDSA over secp256k1

Signatures over the curve `y² = x³ + 7` of a prime field.  The nonce of a signature is derived from
the secret and the message by a keyed hash, so that signing needs no source of randomness.
-/

namespace CanisterShell.Secp256k1

/-- The number of elements of the field. -/
def fieldOrder : Nat := 2 ^ 256 - 2 ^ 32 - 977

/-- The number of multiples of the base point. -/
def groupOrder : Nat :=
  0xFFFFFFFFFFFFFFFFFFFFFFFFFFFFFFFEBAAEDCE6AF48A03BBFD25E8CD0364141

/-- A point in Jacobian coordinates: the affine ones are `x / z ^ 2` and `y / z ^ 3`; without them,
when `z` is zero, the neutral point. -/
structure Point where
  (x y z : Nat)

def zero : Point := ⟨1, 1, 0⟩

/-- The point that public keys are multiples of. -/
def base : Point := {
  x := 0x79BE667EF9DCBBAC55A06295CE870B07029BFCDB2DCE28D959F2815B16F81798
  y := 0x483ADA7726A3C4655DA4FBFC0E1108A8FD17B448A68554199C47D08FFB10D4B8
  z := 1 }

def double (p : Point) : Point :=
  let m := Modular.mul fieldOrder
  let s := Modular.sub fieldOrder
  let yy := m p.y p.y
  let a := m (4 * p.x) yy
  let b := m (3 * p.x) p.x
  let x := s (m b b) (2 * a)
  ⟨x, s (m b (s a x)) (8 * m yy yy), m (2 * p.y) p.z⟩

def add (p q : Point) : Point :=
  if p.z = 0 then q
  else if q.z = 0 then p
  else
    let m := Modular.mul fieldOrder
    let s := Modular.sub fieldOrder
    let pz := m p.z p.z
    let qz := m q.z q.z
    let u := m p.x qz
    let h := s (m q.x pz) u
    let v := m p.y (m qz q.z)
    let r := s (m q.y (m pz p.z)) v
    if h = 0 then (if r = 0 then double p else zero)
    else
      let hh := m h h
      let hhh := m hh h
      let w := m u hh
      let x := s (m r r) (hhh + 2 * w)
      ⟨x, s (m r (s w x)) (m v hhh), m h (m p.z q.z)⟩

def baseMultiple (n : Nat) : Point := multipleBy add zero base 256 n

/-- The affine coordinates of a point that is not neutral. -/
def affine (p : Point) : Nat × Nat :=
  let m := Modular.mul fieldOrder
  let inv := Modular.inverse fieldOrder p.z
  let square := m inv inv
  (m p.x square, m p.y (m square inv))

def isSecret (n : Nat) : Bool := 0 < n && n < groupOrder

/-- The uncompressed public key of a secret. -/
def publicKey (secret : Nat) : Bytes :=
  let (x, y) := affine (baseMultiple secret)
  4 :: Bytes.ofNatBE 32 x ++ Bytes.ofNatBE 32 y

/-! ## Signing -/

/-- The keyed digest of a message, for a key of at most 64 bytes. -/
def keyedDigest (key message : Bytes) : Bytes :=
  let block := key ++ List.replicate (64 - key.length) 0
  sha256 (block.map (· ^^^ 0x5C) ++ sha256 (block.map (· ^^^ 0x36) ++ message))

/-- The state of the generator of nonces. -/
structure Nonces where
  (key chain : Bytes)

def Nonces.stir (g : Nonces) (mark : UInt8) (seed : Bytes) : Nonces :=
  let key := keyedDigest g.key (g.chain ++ mark :: seed)
  ⟨key, keyedDigest key g.chain⟩

def Nonces.start (secret digest : Nat) : Nonces :=
  let seed := Bytes.ofNatBE 32 secret ++ Bytes.ofNatBE 32 (digest % groupOrder)
  let g : Nonces := ⟨List.replicate 32 0, List.replicate 32 1⟩
  (g.stir 0 seed).stir 1 seed

/-- The two halves of a signature by a nonce, if it serves. -/
def signBy? (secret digest nonce : Nat) : Option Bytes :=
  if !isSecret nonce then none
  else
    let r := (affine (baseMultiple nonce)).1 % groupOrder
    let inv := Modular.inverse groupOrder nonce
    let s := inv * ((digest + r * secret) % groupOrder) % groupOrder
    if r = 0 || s = 0 then none else some (Bytes.ofNatBE 32 r ++ Bytes.ofNatBE 32 s)

/-- Tries nonces in turn; practically always the first one serves. -/
def signFrom (secret digest : Nat) : (tries : Nat) → Nonces → Bytes
  | 0, _ => []
  | tries + 1, g =>
    let chain := keyedDigest g.key g.chain
    match signBy? secret digest (Bytes.toNatBE chain) with
    | some signature => signature
    | none => signFrom secret digest tries (Nonces.stir ⟨g.key, chain⟩ 0 [])

/-- The signature of a message, of 64 bytes. -/
def sign (secret : Nat) (message : Bytes) : Bytes :=
  let digest := Bytes.toNatBE (sha256 message)
  signFrom secret digest 64 (Nonces.start secret digest)

end CanisterShell.Secp256k1
