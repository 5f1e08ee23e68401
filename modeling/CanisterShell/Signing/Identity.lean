import CanisterShell.Error
import CanisterShell.Signing.PrivateKey

/-!
# Identities

Who sends requests: nobody in particular, or the holder of a key, who signs what is sent.
-/

namespace CanisterShell

/-- The sender of requests; one with a key has its encoded public half and signs with it. -/
inductive Identity where
  | anonymous
  | keyed (publicKey : Bytes) (sign : Bytes → Bytes)

namespace Identity

def sender : Identity → Principal
  | anonymous => .anonymous
  | keyed publicKey _ => .selfAuthenticating publicKey

/-- The public key and the signature that go with a message. -/
def signature? (message : Bytes) : Identity → Option (Bytes × Bytes)
  | anonymous => none
  | keyed publicKey sign => some (publicKey, sign message)

def encodeKey (algorithm key : Bytes) : Bytes :=
  Der.encode Der.sequenceTag
    (Der.encode Der.sequenceTag algorithm ++ Der.encode Der.bitsTag (0 :: key))

def ofEd25519 (secret : Bytes) : Identity :=
  let key := Ed25519.publicKey secret
  keyed (encodeKey (Der.encode Der.identifierTag PrivateKey.ed25519Id) key)
    (Ed25519.signWith secret key)

def ofSecp256k1 (secret : Nat) : Identity :=
  let algorithm := Der.encode Der.identifierTag PrivateKey.ellipticId
    ++ Der.encode Der.identifierTag PrivateKey.secp256k1Id
  keyed (encodeKey algorithm (Secp256k1.publicKey secret)) (Secp256k1.sign secret)

def ofPrivateKey? : PrivateKey → Option Identity
  | .ed25519 secret => some (ofEd25519 secret)
  | .secp256k1 secret => some (ofSecp256k1 secret)
  | .other => none

/-- The identity whose private key a file holds. -/
def load (disk : File.Disk) (path : File.Path) : Attempt Identity :=
  match disk.read path with
  | .error failure => .error (.config (.cannotReadIdentity path.toText failure))
  | .ok bytes =>
    match PrivateKey.ofText? (Utf8.decodeLossy bytes) with
    | none => .error (.config (.badPem path.toText))
    | some key =>
      match ofPrivateKey? key with
      | none => .error (.config (.unsupportedKey path.toText))
      | some identity => .ok identity

end Identity

end CanisterShell
