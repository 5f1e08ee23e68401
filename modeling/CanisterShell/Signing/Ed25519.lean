import CanisterShell.Hash.Sha2
import CanisterShell.Number.Modular

/-!
# Ed25519

Signatures over the twisted Edwards curve of the field of `2 ^ 255 - 19` elements.  A secret is a
string of 32 bytes; its digest gives the scalar behind the public key and the prefix from which each
message's nonce is made, so that a message has one signature.
-/

namespace CanisterShell.Ed25519

/-- The number of elements of the field. -/
def fieldOrder : Nat := 2 ^ 255 - 19

/-- The number of multiples of the base point. -/
def groupOrder : Nat := 2 ^ 252 + 27742317777372353535851937790883648493

def coefficient : Nat :=
  37095705934669439343138083508754565189542113879843219016388785533085940283555

/-- A point in extended coordinates: the affine ones are `x / z` and `y / z`, and `t` is
`x * y / z`. -/
structure Point where
  (x y z t : Nat)

def zero : Point := ⟨0, 1, 1, 0⟩

/-- The point that public keys are multiples of. -/
def base : Point :=
  let x := 15112221349535400772501151409588531511454012693041857206046113283949847762202
  let y := 46316835694926478169428394003475163141307993866256225615783033603165251855960
  ⟨x, y, 1, Modular.mul fieldOrder x y⟩

/-- The sum of two points, which may be equal. -/
def add (p q : Point) : Point :=
  let m := Modular.mul fieldOrder
  let s := Modular.sub fieldOrder
  let a := m (s p.y p.x) (s q.y q.x)
  let b := m (p.y + p.x) (q.y + q.x)
  let c := m (2 * coefficient) (m p.t q.t)
  let d := m (2 * p.z) q.z
  let e := s b a
  let f := s d c
  let g := d + c
  let h := b + a
  ⟨m e f, m g h, m f g, m e h⟩

def baseMultiple (n : Nat) : Point := multipleBy add zero base 256 n

/-- The 32 bytes of a point: its second coordinate, and the parity of the first on top. -/
def encode (p : Point) : Bytes :=
  let inv := Modular.inverse fieldOrder p.z
  let x := Modular.mul fieldOrder p.x inv
  let y := Modular.mul fieldOrder p.y inv
  Bytes.ofNatLE 32 (y + x % 2 * 2 ^ 255)

/-- What a secret is expanded to. -/
structure Expanded where
  scalar : Nat
  noncePrefix : Bytes

/-- The scalar and the prefix of a secret; the scalar has its lowest three bits and its highest bit
cleared and the bit below that set. -/
def expand (secret : Bytes) : Expanded :=
  let digest := sha512 secret
  let n := Bytes.toNatLE (digest.take 32)
  ⟨n % 2 ^ 254 / 8 * 8 + 2 ^ 254, digest.drop 32⟩

/-- The number that a digest stands for in the group. -/
def reduce (digest : Bytes) : Nat := Bytes.toNatLE digest % groupOrder

def publicKey (secret : Bytes) : Bytes := encode (baseMultiple (expand secret).scalar)

def signWith (secret key message : Bytes) : Bytes :=
  let e := expand secret
  let nonce := reduce (sha512 (e.noncePrefix ++ message))
  let commitment := encode (baseMultiple nonce)
  let challenge := reduce (sha512 (commitment ++ key ++ message))
  commitment ++ Bytes.ofNatLE 32 ((nonce + challenge * e.scalar) % groupOrder)

/-- The signature of a message, of 64 bytes. -/
def sign (secret message : Bytes) : Bytes := signWith secret (publicKey secret) message

end CanisterShell.Ed25519
