import CanisterShell.Canister.Routing
import CanisterShell.Profiling.Cost
import CanisterShell.Shell.Directory

/-!
# Calling methods

A call is encoded by the signature of its method if that is known, and by its values otherwise.  A
session that is offline signs the call and logs it; one that is connected sends it and decodes the
reply.  A call to a canister that counts its cycles returns its cost beside its result.
-/

namespace CanisterShell

open Candid

/-- The error with the call in the course of which it arose, unless it has one. -/
def Error.located (site : CallSite) : Error → Error
  | network cause none => network cause (some site)
  | reject code message none => reject code message (some site)
  | timeout seconds none => timeout seconds (some site)
  | e => e

/-- The failure with the call in the course of which it arose. -/
def Failure.located (site : CallSite) : Failure → Failure
  | error e => error (e.located site)
  | f => f

namespace Invocation

variable {σ : Type} (S : Setting σ)

/-- A method of a canister, as far as it is known. -/
structure Target where
  canister : Principal
  method : String
  info : Interface
  signature? : Option Signature

namespace Target

/-- Whether a method is called by a query. -/
def isQuery (t : Target) : Bool := t.signature?.any Signature.isQuery

/-- The way in which a method is called. -/
def kind (t : Target) : Request.CallKind := if t.isQuery then .query else .update

/-- The encoded arguments of a call. -/
def encode (t : Target) (values : List Value) : Attempt Bytes :=
  match t.signature? with
  | none => encodeArgs values
  | some s =>
    if s.args.length < values.length then
      .error (.eval (.tooManyArguments s.args s.results s.modes))
    else encodeAs t.info.scope values s.args

/-- The result that a reply holds. -/
def decode (t : Target) (reply : Bytes) : Attempt Value := do
  match t.signature? with
  | none => return .ofResults (← decodeArgs reply)
  | some s => return .ofResults (← decodeAs t.info.scope reply s.results)

/-- The result of a call; one that has not been sent has none. -/
def result (t : Target) (reply? : Option Bytes) : Attempt Value :=
  match reply? with
  | none => .ok .null
  | some reply => t.decode reply

end Target

def target (canister : Principal) (method : String) : Doing σ Target := do
  let info ← Directory.lookup S canister
  let signature? := info.signature? method
  if signature?.isNone then
    Doing.warn ("cannot find method " ++ method ++ " in " ++ canister.toText
      ++ ", arguments are encoded by value")
  return ⟨canister, method, info, signature?⟩

/-! ## Sending -/

def logCall (kind : Request.CallKind) (c : Call) : Doing σ Unit := do
  let signed ← Offline.sign kind (← get).identity S.expiries c
  modify fun s => { s with calls := signed :: s.calls }
  Doing.display .output signed.toJson

/-- Sends a call and waits for its reply. -/
def transmit (agent : Agent σ) (kind : Request.CallKind) (c : Call) : Doing σ Bytes := do
  let identity := (← get).identity
  let locate {α : Type} (act : Action σ α) : Doing σ α :=
    tryCatch (Doing.perform act) fun f => throw (f.located c.site)
  match kind with
  | .query => locate (agent.query identity c)
  | .update =>
    let callId ← locate (agent.submit identity c)
    Doing.perform
      (S.poll.await (agent.status identity c.effective callId) agent.timer (some c.site))

/-- Sends a call, or logs it; the reply, if there is one. -/
def send (t : Target) (arg : Bytes) : Doing σ (Option Bytes) := do
  let effective ← Routing.effectiveCanister t.canister t.method arg
  let call : Call := ⟨t.canister, t.method, arg, effective⟩
  if S.offline then
    logCall S t.kind call
    return none
  match S.agent? with
  | none => throw (.error (.network .noAgent (some call.site)))
  | some agent => return some (← transmit S agent t.kind call)

/-! ## Costs -/

/-- The cycle counter that a reply holds; `none` for something that does not count. -/
def counterOf : List Value → Attempt (Option Numeral)
  | [] => .error (.fault .outOfRange)
  | .int _ n :: _ => .ok (some (.whole n))
  | .bool b :: _ => .ok (some (.whole (if b then 1 else 0)))
  | .float _ x :: _ => .ok (some (.real x))
  | .number _ :: _ | .text _ :: _ | .opt _ :: _ | .variant .. :: _ => .ok none
  | _ => .error (.fault .missingAttribute)

def counter (agent : Agent σ) (canister : Principal) : Doing σ (Option Numeral) := do
  let call ← Directory.queryOf canister Interface.cyclesMethod
  let reply ← Doing.perform (agent.query (← get).identity call)
  counterOf (← decodeAs [] reply [.prim (.int .int64)])

/-- The cycles between two states of a counter. -/
def cyclesBetween (before after : Option Numeral) : Attempt Numeral :=
  match before, after with
  | some m, some n =>
    match Operation.sub.apply n m with
    | some cost => .ok cost
    | none => .error (.fault .overflow)
  | _, _ => .error (.fault .wrongType)

/-- Whether the cost of a call is taken. -/
def isMeasured (t : Target) : Bool := !S.offline && t.info.countsCycles && !t.isQuery

/-- Calls a method and takes the cost. -/
def callMeasured (t : Target) (arg : Bytes) : Doing σ Value := do
  match S.agent? with
  | none => throw (.fault .missingAttribute)
  | some agent =>
    let before ← counter agent t.canister
    let reply? ← send S t arg
    let after ← counter agent t.canister
    let result ← t.result reply?
    Cost.attach result (← cyclesBetween before after)

/-- Calls a method with encoded arguments. -/
def call (t : Target) (arg : Bytes) : Doing σ Value := do
  if isMeasured S t then callMeasured S t arg
  else t.result (← send S t arg)

end Invocation

end CanisterShell
