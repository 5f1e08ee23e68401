import CanisterShell.Replica
import CanisterShell.Request.Agent

/-!
# Replicas over HTTP

A replica takes envelopes by POST at an address made of its own, the canister and the kind of
request, and answers in CBOR.  Posting is tried again when the connection fails.
-/

namespace CanisterShell.Http

/-- The answer to a post. -/
structure Response where
  status : Nat
  body : Bytes

/-- How posts travel: an answer, or the reason why there is none. -/
structure Transport (σ : Type) where
  post : (url : String) → (body : Bytes) → StateM σ (Except String Response)
  timer : Timer σ

/-- A replica, when requests to it are made and expire, and how often and after what delay a failed
post is tried again. -/
structure Replica (σ : Type) where
  transport : Transport σ
  url : String
  now : Int
  expiries : Request.Expiries := .ofSecond now
  retries : Nat := 2
  backoff : Seconds := .ofRatio 2 10

/-- The characters of a refusal that its error shows. -/
def previewLength : Nat := 200

/-- What answers a query. -/
inductive QueryAnswer where
  | reply (arg : Datum)
  | rejected (code message : Datum)
  | unexpected

/-- The entries of a map, which may be frozen. -/
def entries? : Datum → Option (List (Datum × Datum))
  | .map entries => some entries
  | .frozen d => entries? d
  | _ => none

/-- The argument of a reply inside an answer. -/
def replyArg? (entries : List (Datum × Datum)) : Option Datum :=
  ((Datum.find? "reply" entries).bind entries?).bind (Datum.find? "arg")

def QueryAnswer.ofDatum (d : Datum) : QueryAnswer :=
  match entries? d with
  | none => unexpected
  | some entries =>
    match Datum.find? "status" entries with
    | some (.text "replied") =>
      match replyArg? entries with
      | some arg => reply arg
      | none => unexpected
    | some (.text "rejected") =>
      rejected ((Datum.find? "reject_code" entries).getD (.int 0))
        ((Datum.find? "reject_message" entries).getD (.text ""))
    | _ => unexpected

/-- The data that a replica sent. -/
def decode (bytes : Bytes) : Attempt Datum :=
  match Cbor.decode? bytes with
  | some d => .ok d
  | none => .error (.error (.network (.badCbor "it ends early or is malformed") none))

/-- The tree of the certificate in an answer about the state. -/
def treeOf (d : Datum) : Attempt Datum := do
  match d.get? "certificate" with
  | none => throw (.error (.network .noCertificate none))
  | some certificate =>
    match entries? (← decode (← certificate.toBytes)) with
    | none => throw (.fault .missingAttribute)
    | some entries => return (Datum.find? "tree" entries).getD .null

namespace Replica

variable {σ : Type} (r : Replica σ)

/-- Tries a post; `left` more attempts may follow, the next one after `delay`. -/
def attempt (url : String) (body : Bytes) : (left : Nat) → (delay : Seconds) → Action σ Response
  | left, delay => do
    match ← (r.transport.post url body : StateM σ (Except String Response)) with
    | .ok response => return response
    | .error reason =>
      match left with
      | 0 => throw (.error (.network (.unreachable url reason) none))
      | left + 1 =>
        r.transport.timer.sleep delay
        attempt url body left (delay.mul (.whole 2))

def address (kind : String) (effective : Principal) : String :=
  trimSlashes r.url ++ "/api/v2/canister/" ++ effective.toText ++ "/" ++ kind

/-- Posts an envelope and returns the body of the answer. -/
def post (kind : String) (effective : Principal) (body : Bytes) : Action σ Bytes := do
  let url := r.address kind effective
  let response ← r.attempt url body r.retries r.backoff
  if 200 ≤ response.status ∧ response.status < 300 then return response.body
  let preview := String.ofList ((Utf8.decodeLossy response.body).toList.take previewLength)
  throw (.error (.network (.badStatus response.status url preview) none))

def sendQuery (effective : Principal) (envelope : Bytes) : Action σ Bytes := do
  let answer ← decode (← r.post "query" effective envelope)
  match QueryAnswer.ofDatum answer with
  | .reply arg => arg.toBytes
  | .rejected code message => throw (.error (.reject code message none))
  | .unexpected => throw (.error (.network (.badQueryResponse answer) none))

def sendCall (effective : Principal) (envelope : Bytes) : Action σ Unit := do
  let _ ← r.post "call" effective envelope

def sendReadState (effective : Principal) (envelope : Bytes) : Action σ Datum := do
  treeOf (← decode (← r.post "read_state" effective envelope))

def callEnvelope (kind : Request.CallKind) (identity : Identity) (c : Call) :
    Attempt Request.Envelope :=
  Request.envelope identity (Request.callContent kind.requestType identity.sender c.canister
    c.method c.arg r.expiries.call)

def readStateEnvelope (identity : Identity) (path : List Datum) : Attempt Request.Envelope :=
  Request.envelope identity
    (Request.readStateContent identity.sender [.list path] r.expiries.status)

def agent : Agent σ where
  query identity c := do
    r.sendQuery c.effective (← r.callEnvelope .query identity c).bytes
  submit identity c := do
    let e ← r.callEnvelope .update identity c
    r.sendCall c.effective e.bytes
    return e.id
  status identity effective callId := do
    let e ← r.readStateEnvelope identity (Request.statusPath callId)
    CallStatus.ofTree (← r.sendReadState effective e.bytes) callId
  metadata identity canister name := do
    let path := Request.metadataPath canister name
    let e ← r.readStateEnvelope identity path
    HashTree.lookup (← r.sendReadState canister e.bytes) path
  timer := r.transport.timer

end Replica

end CanisterShell.Http
