import CanisterShell.Signing.Der
import CanisterShell.Signing.Ed25519
import CanisterShell.Signing.Secp256k1
import CanisterShell.Text.Classes
import CanisterShell.Text.Radix

/-!
# Private keys

Private keys as files hold them: DER between the boundary lines of a text, either in the general
form that names its algorithm or in the one of elliptic curves.
-/

namespace CanisterShell

/-- A private key; `other` is one of an algorithm that signs no requests. -/
inductive PrivateKey where
  | ed25519 (secret : Bytes)
  | secp256k1 (secret : Nat)
  | other
  deriving DecidableEq

namespace PrivateKey

/-! ## The text around a key -/

/-- What stands between a prefix and a suffix, if a line has both. -/
def between? (open_ close line : List Char) : Option (List Char) :=
  if open_.isPrefixOf line then
    let rest := line.drop open_.length
    if close.isSuffixOf rest then some (rest.take (rest.length - close.length)) else none
  else none

def boundary? (word : String) (line : List Char) : Option (List Char) :=
  between? ("-----" ++ word ++ " ").toList "-----".toList (Text.trimRight line)

/-- Takes the lines up to the end boundary with the label. -/
def body? (label : List Char) : List (List Char) → Option (List Char)
  | [] => none
  | line :: rest =>
    if boundary? "END" line = some label then some []
    else (body? label rest).map (Text.trimRight line ++ ·)

/-- The label and the bytes of the first block of a text. -/
def block? : List (List Char) → Option (List Char × Bytes)
  | [] => none
  | line :: rest =>
    match boundary? "BEGIN" line with
    | none => block? rest
    | some label => do
      let digits ← body? label rest
      return (label, ← Base64.decode? digits)

/-! ## The key itself -/

/-- Algorithms and curves, by the bytes of their identifiers. -/
def ed25519Id : Bytes := [0x2B, 0x65, 0x70]
def ellipticId : Bytes := [0x2A, 0x86, 0x48, 0xCE, 0x3D, 0x02, 0x01]
def secp256k1Id : Bytes := [0x2B, 0x81, 0x04, 0x00, 0x0A]

/-- Known algorithms and curves that sign no requests: RSA and DSA, X25519, X448 and Ed448, and
the other curves over prime fields. -/
def otherIds : List Bytes := [
  [0x2A, 0x86, 0x48, 0x86, 0xF7, 0x0D, 0x01, 0x01, 0x01],
  [0x2A, 0x86, 0x48, 0xCE, 0x38, 0x04, 0x01],
  [0x2B, 0x65, 0x6E], [0x2B, 0x65, 0x6F], [0x2B, 0x65, 0x71],
  [0x2A, 0x86, 0x48, 0xCE, 0x3D, 0x03, 0x01, 0x01],
  [0x2A, 0x86, 0x48, 0xCE, 0x3D, 0x03, 0x01, 0x07],
  [0x2B, 0x81, 0x04, 0x00, 0x21], [0x2B, 0x81, 0x04, 0x00, 0x22], [0x2B, 0x81, 0x04, 0x00, 0x23]]

/-- A key on secp256k1 whose public half, if there is one, belongs to it. -/
def onSecp256k1? (secret : Nat) (publicBits? : Option Bytes) : Option PrivateKey :=
  if !Secp256k1.isSecret secret then none
  else match publicBits? with
    | none => some (secp256k1 secret)
    | some bits =>
      match Der.only Der.bitsTag bits with
      | some (_ :: key) =>
        if key.head? = some 4 && key ≠ Secp256k1.publicKey secret then none
        else some (secp256k1 secret)
      | _ => none

/-- The key of the form for elliptic curves; `curve?` names the curve when the form does not. -/
def ofElliptic? (curve? : Option Bytes) (bytes : Bytes) : Option PrivateKey := do
  let parts ← Der.sequence bytes
  let find tag := (parts.find? (·.tag = tag)).map (·.content)
  let secret ← find Der.octetsTag
  let named? := (find (Der.optionTag 0)).bind (Der.only Der.identifierTag)
  let curve ← named? <|> curve?
  if curve = secp256k1Id then
    onSecp256k1? (Bytes.toNatBE secret) (find (Der.optionTag 1))
  else if otherIds.contains curve then some other
  else none

/-- The key of the form that names its algorithm. -/
def ofGeneral? (bytes : Bytes) : Option PrivateKey := do
  match ← Der.sequence bytes with
  | _version :: algorithm :: key :: _ =>
    guard (algorithm.tag = Der.sequenceTag && key.tag = Der.octetsTag)
    match ← Der.elements algorithm.content with
    | id :: parameters =>
      guard (id.tag = Der.identifierTag)
      if id.content = ed25519Id then
        let secret ← Der.only Der.octetsTag key.content
        guard (secret.length = 32)
        return ed25519 secret
      else if id.content = ellipticId then
        let curve? := parameters.head?.bind fun e =>
          if e.tag = Der.identifierTag then some e.content else none
        ofElliptic? curve? key.content
      else if otherIds.contains id.content then return other
      else none
    | [] => none
  | _ => none

/-- The first private key of a text. -/
def ofText? (text : String) : Option PrivateKey := do
  let (label, bytes) ← block? (Text.splitLines [] text.toList)
  if label = "PRIVATE KEY".toList then ofGeneral? bytes
  else if label = "EC PRIVATE KEY".toList then ofElliptic? none bytes
  else if label = "RSA PRIVATE KEY".toList then (Der.sequence bytes).map fun _ => other
  else none

end PrivateKey

end CanisterShell
