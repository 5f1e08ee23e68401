import CanisterShell.Offline.SignedCall
import CanisterShell.Request.Http

/-!
# Logs of signed calls

The signed calls of a session with the address of the replica that they are meant for, as a file
holds them.
-/

namespace CanisterShell.Offline

/-- A log of signed calls. -/
structure Log where
  replicaUrl : Datum := .null
  calls : List SignedCall := []

namespace Log

def toDatum (log : Log) : Datum := .map [
  (.text "replica_url", log.replicaUrl),
  (.text "messages", .list (log.calls.map SignedCall.toDatum))]

def toJson (log : Log) : String := Json.write Json.indented 0 log.toDatum

/-- The items of a list as they are gone through: those of a map are its keys, and those of a text
its characters. -/
def itemsOf : Datum → Attempt (List Datum)
  | .list items => .ok items
  | .map entries => .ok (entries.map (·.1))
  | .text s => .ok (s.toList.map fun c => .text c.toString)
  | _ => .error (.fault .wrongType)

def callsOf (d : Datum) : Attempt (List SignedCall) := do
  match d with
  | .map entries =>
    match Datum.find? "messages" entries with
    | some messages => (← itemsOf messages).mapM SignedCall.ofDatum
    | none => throw (.fault .missingKey)
  | _ => throw (.fault .wrongType)

def ofJson (text : String) : Attempt Log :=
  match Json.read? text with
  | none => .error (.config .badMessageFile)
  | some d => do
    let calls ← refuseWith .badMessageFile (callsOf d)
    return ⟨(d.get? "replica_url").getD .null, calls⟩

end Log

/-!
## Replaying a log

The calls of a log are shown one by one and sent as they were signed, as long as each is confirmed.
-/

variable {σ : Type}

/-- The site that errors name for a call whose envelope says this. -/
def Said.site (s : Said) : CallSite :=
  ⟨s.canister, if s.method.isEmpty then "" else s.method.plain⟩

def principalOfText : Datum → Attempt Principal
  | .text s =>
    match Principal.ofText s with
    | .ok p => .ok p
    | .error fault => .error (.fault (.badValue fault.message))
  | _ => .error (.fault .missingAttribute)

def send (r : Http.Replica σ) (poll : PollPolicy) (c : SignedCall) : Action σ Bytes := do
  let said ← c.ingress.said
  let envelope ← hexBytes c.ingress.content
  match c.ingress.callType with
  | .text "query" => r.sendQuery said.canister envelope
  | _ =>
    match c.status? with
    | none => throw (.config .noStatusRequest)
    | some status =>
      let effective ← principalOfText status.canister
      let callId ← hexBytes status.requestId
      let question ← hexBytes status.content
      r.sendCall effective envelope
      let fetch : Action σ CallStatus := do
        CallStatus.ofTree (← r.sendReadState effective question) callId
      poll.await fetch r.transport.timer (some said.site)

/-- What is shown before a call is sent. -/
def announcement (log : Log) (summary : String) : String :=
  "Sending message with\n\n  Replica URL: " ++ log.replicaUrl.plain ++ "\n" ++ summary

/-- Shows and sends calls until one is not confirmed; the replies of those that were sent. -/
def replayCalls {m : Type → Type} [Monad m] [MonadExceptOf Failure m] (log : Log)
    (announce : String → m Unit) (confirm : m Bool) (send : SignedCall → m Bytes) :
    List SignedCall → m (List Bytes)
  | [] => return []
  | c :: rest => do
    let summary ← MonadExcept.ofExcept c.ingress.summary
    announce (announcement log summary)
    if ← confirm then
      let reply ← send c
      return reply :: (← replayCalls log announce confirm send rest)
    else return []

def replay {m : Type → Type} [Monad m] [MonadExceptOf Failure m] (log : Log)
    (announce : String → m Unit) (confirm : m Bool) (send : SignedCall → m Bytes) :
    m (List Bytes) :=
  replayCalls log announce confirm send log.calls

end CanisterShell.Offline
