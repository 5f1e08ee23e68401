import CanisterShell.Request.Envelope
import CanisterShell.Request.HashTree
import CanisterShell.Timing

/-!
# Agents

An agent does for a session what needs a network.  What it does changes the world behind it, of
which nothing is known but its type.  Waiting for the reply of a call asks an agent for the status
of the call again and again, with growing delays, until the status is final or the time is up.
-/

namespace CanisterShell

/-! ## How far a call has come -/

/-- The status of a call.  A status that is neither of the last three may still change. -/
inductive CallStatus where
  | pending (name : String)
  | replied (reply? : Option Bytes)
  | rejected (code : Int) (message : String)
  | done
  deriving DecidableEq

namespace CallStatus

def name : CallStatus → String
  | pending name => name
  | replied _ => "replied"
  | rejected .. => "rejected"
  | done => "done"

/-- The number at the front of a byte string in groups of seven bits, or what there is of it. -/
def code : Bytes → Nat
  | [] => 0
  | b :: rest => if b < 128 then b.toNat else b.toNat - 128 + 128 * code rest

def ofTree (tree : Datum) (callId : Bytes) : Attempt CallStatus := do
  let find (label : String) :=
    HashTree.lookup tree (Request.statusPath callId ++ [.bytes (Utf8.encode label)])
  match ← find "status" with
  | none => return pending "unknown"
  | some bytes =>
    match Utf8.decode? bytes with
    | none => throw (.fault .notUtf8)
    | some "replied" => return replied (← find "reply")
    | some "rejected" =>
      let code? ← find "reject_code"
      let message? ← find "reject_message"
      return rejected (code (code?.getD [])) (Utf8.decodeLossy (message?.getD []))
    | some "done" => return done
    | some other => return pending other

end CallStatus

/-! ## What an agent does -/

/-- Something done in the world `σ`, which may fail. -/
abbrev Action (σ α : Type) := ExceptT Failure (StateM σ) α

/-- A call of a method: the canister addressed, and the one by which the call is routed. -/
structure Call where
  canister : Principal
  method : String
  arg : Bytes
  effective : Principal

/-- The place that errors name for a call. -/
def Call.site (c : Call) : CallSite := ⟨c.canister, c.method⟩

/-- What a session asks of the network.  `submit` returns the id of the call that it sends. -/
structure Agent (σ : Type) where
  query : Identity → Call → Action σ Bytes
  submit : Identity → Call → Action σ Bytes
  status : Identity → (effective : Principal) → (callId : Bytes) → Action σ CallStatus
  metadata : Identity → Principal → (name : String) → Action σ (Option Bytes)
  timer : Timer σ

namespace CallStatus

/-- What a final status amounts to for those who wait; `none` for one that may still change. -/
def final? (site : Option CallSite) : CallStatus → Option (Attempt Bytes)
  | replied (some reply) => some (.ok reply)
  | replied none => some (.error (.error (.network .noReply site)))
  | rejected code message => some (.error (.error (.reject (.int code) (.text message) site)))
  | done => some (.error (.error (.network .replyGone site)))
  | pending _ => none

end CallStatus

namespace PollPolicy

variable {σ : Type}

/-- Asks for the status of a call until it is final or the deadline is reached; `delay` lies between
this time and the next.  The fuel bounds the number of questions. -/
def waitFor (p : PollPolicy) (fetch : Action σ CallStatus) (timer : Timer σ)
    (site : Option CallSite) (deadline : Seconds) :
    (fuel : Nat) → (delay : Seconds) → Action σ Bytes
  | 0, _ => throw .exhausted
  | fuel + 1, delay => do
    match (← fetch).final? site with
    | some outcome => outcome
    | none =>
      if (← timer.clock).reaches deadline then
        throw (.error (.timeout p.timeout.toDouble site))
      timer.sleep delay
      waitFor p fetch timer site deadline fuel (p.next delay)

/-- Waits for the reply of a call with so many questions at most. -/
def awaitWithin (p : PollPolicy) (fuel : Nat) (fetch : Action σ CallStatus) (timer : Timer σ)
    (site : Option CallSite) : Action σ Bytes := do
  waitFor p fetch timer site ((← timer.clock).add p.timeout) fuel p.initial

/-- No call is asked for more often than this. -/
def mostQuestions : Nat := 2 ^ 40

/-- Waits for the reply of a call. -/
def await (p : PollPolicy) (fetch : Action σ CallStatus) (timer : Timer σ)
    (site : Option CallSite) : Action σ Bytes :=
  p.awaitWithin mostQuestions fetch timer site

end PollPolicy

end CanisterShell
