import CanisterShell.Candid.Wire.Decode
import CanisterShell.Management

/-!
# Routing

A call is sent to the canister that it addresses, unless that is the management canister: its calls
go to the canister that they are about, which the encoded arguments name.
-/

namespace CanisterShell.Routing

open Candid

/-- The canister that the encoded arguments of a management call are about. -/
def subject? (values : List Value) : Option Principal :=
  match values.head?.bind (·.field? (.named "canister_id")) with
  | some (.principal p) => some p
  | _ => none

def effectiveCanister (canister : Principal) (method : String) (arg : Bytes) :
    Attempt Principal :=
  if !canister.isManagement then .ok canister
  else if Management.canistersOnly.contains method then
    .error (.eval (.interCanisterOnly method))
  else if Management.routedToItself.contains method then .ok canister
  else
    match decodeArgs arg with
    | .error (.error e) => .error (.error (.undecodableArguments method e))
    | .error f => .error f
    | .ok values =>
      match subject? values with
      | some p => .ok p
      | none => .error (.eval (.noCanisterField method))

end CanisterShell.Routing
