import CanisterShell.Candid.Wire.Leb128
import CanisterShell.Document.Cbor
import CanisterShell.Order
import CanisterShell.Signing.Identity

/-!
# Requests

What a request says, its id, and the envelope in which it is sent.
-/

/-!
## Ids of requests

The id of a request is a hash that does not depend on how the request is written down: each entry
gives the hashes of its key and its value, the pairs are sorted, and all of them together are hashed
once more.  An entry without a value does not count.
-/

namespace CanisterShell.Request

open Candid

/-- Whether one byte string is not behind another in the order of their bytes. -/
def bytesLe : Bytes → Bytes → Bool
  | [], _ => true
  | _ :: _, [] => false
  | a :: as, b :: bs => a < b || (a = b && bytesLe as bs)

def hashOfPairs (pairs : List Bytes) : Bytes := sha256 (sortBy bytesLe pairs).flatten

def keyHash : Datum → Attempt Bytes
  | .text s => .ok (sha256 (Utf8.encode s))
  | _ => .error (.fault .missingAttribute)

mutual

def valueHash : Datum → Attempt Bytes
  | .bytes b => .ok (sha256 b)
  | .text s => .ok (sha256 (Utf8.encode s))
  | .int n => (Wire.lebOfInt n).map sha256
  | .list items => (itemHashes items).map fun hs => sha256 hs.flatten
  | .map entries => (pairHashes entries).map hashOfPairs
  | .frozen (.list items) => (itemHashes items).map fun hs => sha256 hs.flatten
  | _ => .error (.fault .wrongType)

def itemHashes : List Datum → Attempt (List Bytes)
  | [] => .ok []
  | d :: rest => do
    let h ← valueHash d
    return h :: (← itemHashes rest)

def pairHashes : List (Datum × Datum) → Attempt (List Bytes)
  | [] => .ok []
  | (_, .null) :: rest => pairHashes rest
  | (k, v) :: rest => do
    let key ← keyHash k
    let h ← valueHash v
    return (key ++ h) :: (← pairHashes rest)

end

/-- The id of a request with the given entries. -/
def id (content : List (Datum × Datum)) : Attempt Bytes := (pairHashes content).map hashOfPairs

end CanisterShell.Request

/-!
## Contents and envelopes

What a request says, and the envelope in which it is sent: the content, and the signature of its id
unless the sender is anonymous.
-/

namespace CanisterShell.Request

/-- The seconds for which a request stays valid. -/
def lifetime : Int := 5 * 60

/-- When a request expires that is made at the second `now`, in nanoseconds. -/
def expiryAt (now : Int) : Int := (now + lifetime) * 10 ^ 9

/-- When the envelopes of a call expire, in nanoseconds: that of the call itself, and those that ask
for its status.  The clock is read for each kind by itself. -/
structure Expiries where
  call : Int
  status : Int

/-- The expiries of requests that are all made at the second `now`. -/
def Expiries.ofSecond (now : Int) : Expiries := ⟨expiryAt now, expiryAt now⟩

/-- The kinds of requests that call a method. -/
inductive CallKind where
  | query
  | update
  deriving DecidableEq

def CallKind.requestType : CallKind → String
  | query => "query"
  | update => "call"

/-- What a request says, as the entries of a map. -/
abbrev Content := List (Datum × Datum)

def callContent (requestType : String) (sender canister : Principal) (method : String) (arg : Bytes)
    (expiry : Int) : Content := [
  (.text "request_type", .text requestType),
  (.text "sender", .bytes sender.bytes),
  (.text "canister_id", .bytes canister.bytes),
  (.text "method_name", .text method),
  (.text "arg", .bytes arg),
  (.text "ingress_expiry", .int expiry)]

def readStateContent (sender : Principal) (paths : List Datum) (expiry : Int) : Content := [
  (.text "request_type", .text "read_state"),
  (.text "sender", .bytes sender.bytes),
  (.text "paths", .list paths),
  (.text "ingress_expiry", .int expiry)]

def statusPath (callId : Bytes) : List Datum :=
  [.bytes (Utf8.encode "request_status"), .bytes callId]

def metadataPath (canister : Principal) (name : String) : List Datum := [
  .bytes (Utf8.encode "canister"), .bytes canister.bytes, .bytes (Utf8.encode "metadata"),
  .bytes (Utf8.encode name)]

/-- A request ready to be sent: its id and its bytes. -/
structure Envelope where
  id : Bytes
  bytes : Bytes

def signed (id : Bytes) : Bytes := 0x0A :: Utf8.encode "ic-request" ++ id

def signatureEntries : Option (Bytes × Bytes) → List (Datum × Datum)
  | none => []
  | some (key, signature) =>
    [(.text "sender_pubkey", .bytes key), (.text "sender_sig", .bytes signature)]

def envelope (identity : Identity) (content : Content) : Attempt Envelope := do
  let requestId ← id content
  let entries := signatureEntries (identity.signature? (signed requestId))
  return ⟨requestId, Cbor.encodeTagged (.map ((.text "content", .map content) :: entries))⟩

end CanisterShell.Request
