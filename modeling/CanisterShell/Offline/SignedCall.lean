import CanisterShell.Candid.Wire.Decode
import CanisterShell.Document.Json
import CanisterShell.Request.Agent
import CanisterShell.Request.Http

/-!
# Signed calls

A call that was signed and not sent: its envelope, and for an update the envelope of the request for
its status.  A signed call is kept as plain data, whose envelopes are written in hexadecimal digits,
and can be read back to see what it says.
-/

namespace CanisterShell.Offline

open Candid

/-- The signed envelope of a call. -/
structure Ingress where
  callType : Datum
  requestId : Datum
  content : Datum

/-- The signed envelope that asks for the status of a call. -/
structure StatusRequest where
  canister : Datum
  requestId : Datum
  content : Datum

structure SignedCall where
  ingress : Ingress
  status? : Option StatusRequest := none

/-! ## Signing -/

/-- The text of a byte string inside a message. -/
def hexDatum (b : Bytes) : Datum := .text b.toHex

def signQuery (identity : Identity) (expiries : Request.Expiries) (c : Call) :
    Attempt SignedCall := do
  let content := Request.callContent "query" identity.sender c.canister c.method c.arg expiries.call
  let e ← Request.envelope identity content
  return { ingress := ⟨.text "query", .null, hexDatum e.bytes⟩ }

/-- Signs an update and the request for its status. -/
def signUpdate (identity : Identity) (expiries : Request.Expiries) (c : Call) :
    Attempt SignedCall := do
  let content := Request.callContent "call" identity.sender c.canister c.method c.arg expiries.call
  let e ← Request.envelope identity content
  let question := Request.readStateContent identity.sender [.list (Request.statusPath e.id)]
    expiries.status
  let s ← Request.envelope identity question
  return {
    ingress := ⟨.text "update", hexDatum e.id, hexDatum e.bytes⟩
    status? := some ⟨.text c.effective.toText, hexDatum e.id, hexDatum s.bytes⟩ }

def sign (kind : Request.CallKind) (identity : Identity) (expiries : Request.Expiries) (c : Call) :
    Attempt SignedCall :=
  match kind with
  | .query => signQuery identity expiries c
  | .update => signUpdate identity expiries c

/-! ## Reading a signed call -/

/-- What a signed call says; the method is a text unless the envelope is none of ours. -/
structure Said where
  sender : Principal
  canister : Principal
  method : Datum
  arg : Bytes

/-- The bytes of a text in hexadecimal digits. -/
def hexBytes : Datum → Attempt Bytes
  | .text s =>
    match Bytes.ofHex s with
    | .ok b => .ok b
    | .error position => .error (.fault (.badValue
        ("non-hexadecimal number found in fromhex() arg at position " ++ toString position)))
  | _ => .error (.fault .wrongType)

def entry (key : String) (d : Datum) : Attempt Datum :=
  match Http.entries? d with
  | none => .error (.fault .wrongType)
  | some entries =>
    match Datum.find? key entries with
    | some v => .ok v
    | none => .error (.fault .missingKey)

def principalOf (d : Datum) : Attempt Principal := do
  match Principal.ofBytes (← d.toBytes) with
  | .ok p => return p
  | .error fault => throw (.fault (.badValue fault.message))

/-- Reads the envelope of a call; the ways in which it fails to be one are not told apart yet. -/
def Ingress.read (i : Ingress) : Attempt Said := do
  let content ← entry "content" (← Http.decode (← hexBytes i.content))
  return {
    sender := ← principalOf (← entry "sender" content)
    canister := ← principalOf (← entry "canister_id" content)
    method := ← entry "method_name" content
    arg := ← (← entry "arg" content).toBytes }

/-- Whether a failure says that something is not of the expected form. -/
def isMalformation : Failure → Bool
  | .error _ => true
  | .fault (.badValue _) | .fault .missingKey | .fault .wrongType => true
  | _ => false

/-- A failure to read something, as the refusal of the whole. -/
def refuseWith {α : Type} (cause : ConfigCause) : Attempt α → Attempt α
  | .error f => .error (if isMalformation f then .config cause else f)
  | ok => ok

/-- What the envelope of a call says. -/
def Ingress.said (i : Ingress) : Attempt Said := refuseWith .badMessage i.read

def argumentText (arg : Bytes) : Attempt String :=
  match decodeArgs arg with
  | .ok values => .ok (Value.argsText values)
  | .error (.error _) => .ok arg.toHex
  | .error f => .error f

def Ingress.summary (i : Ingress) : Attempt String := do
  let said ← i.said
  let args ← argumentText said.arg
  return "\n".intercalate [
    "  Call type:   " ++ i.callType.plain,
    "  Sender:      " ++ said.sender.toText,
    "  Canister id: " ++ said.canister.toText,
    "  Method name: " ++ said.method.plain,
    "  Arguments:   " ++ args]

/-! ## As plain data -/

def Ingress.toDatum (i : Ingress) : Datum := .map [
  (.text "call_type", i.callType), (.text "request_id", i.requestId), (.text "content", i.content)]

def StatusRequest.toDatum (s : StatusRequest) : Datum := .map [
  (.text "canister_id", s.canister), (.text "request_id", s.requestId),
    (.text "content", s.content)]

def SignedCall.toDatum (c : SignedCall) : Datum := .map [
  (.text "ingress", c.ingress.toDatum),
  (.text "request_status", (c.status?.map StatusRequest.toDatum).getD .null)]

def SignedCall.toJson (c : SignedCall) : String := Json.write Json.onOneLine 0 c.toDatum

/-- The three values of a map that has exactly the given keys. -/
def threeOf (a b c : String) : Datum → Attempt (Datum × Datum × Datum)
  | .map entries =>
    match Datum.find? a entries, Datum.find? b entries, Datum.find? c entries with
    | some x, some y, some z =>
      if entries.length = 3 then .ok (x, y, z) else .error (.fault .wrongType)
    | _, _, _ => .error (.fault .wrongType)
  | _ => .error (.fault .wrongType)

def Ingress.ofDatum (d : Datum) : Attempt Ingress := do
  let (callType, requestId, content) ← threeOf "call_type" "request_id" "content" d
  return ⟨callType, requestId, content⟩

def StatusRequest.ofDatum (d : Datum) : Attempt StatusRequest := do
  let (canister, requestId, content) ← threeOf "canister_id" "request_id" "content" d
  return ⟨canister, requestId, content⟩

/-- Reads a signed call; an empty request for its status counts as none. -/
def SignedCall.ofDatum : Datum → Attempt SignedCall
  | .map entries => do
    let status := (Datum.find? "request_status" entries).getD .null
    let ingress ← match Datum.find? "ingress" entries with
      | some d => Ingress.ofDatum d
      | none => throw (.fault .missingKey)
    if status.isEmpty then return ⟨ingress, none⟩
    return ⟨ingress, some (← StatusRequest.ofDatum status)⟩
  | _ => .error (.fault .missingAttribute)

end CanisterShell.Offline
