import CanisterShell.Proofs.Shell.Rereading
import Mathlib

/-!
# What a wallet is sent

A call by way of a wallet is a call of the wallet with a record of the call, made in a child of the
environment in which the argument is bound (`relay_arg`).  What the child comes to be is dropped.
-/

namespace CanisterShell

open Candid Syntax

namespace Evaluation

/-- What a wallet is sent so that it relays a call. -/
def relayRecord (canister : Principal) (method : String) (arg : Bytes) : Value :=
  .record [(.named "args", .blob arg), (.named "cycles", .number 0),
    (.named "method_name", .text method), (.named "canister", .principal canister)]

/-- The expression of what a wallet is sent. -/
def relayExp (canister : Principal) (method : String) : Exp :=
  .record [
    (some (.named "args"), .path "_msg" []),
    (some (.named "cycles"), .literal (.number 0)),
    (some (.named "method_name"), .literal (.text method)),
    (some (.named "canister"), .literal (.principal canister))]

section

variable {σ : Type} {S : Setting σ}

theorem fields_cons {self : Engine σ} {next : Nat} {l : Label} {e : Exp} {v : Value}
    {rest : List (Option Label × Exp)} {gs : List (Label × Value)}
    {state state' state'' : Env × Session σ} (hv : Gives (self.eval e) state v state')
    (hgs : Gives (fields self (l.id + 1) rest) state' gs state'') :
    Gives (fields self next ((some l, e) :: rest)) state ((l, v) :: gs) state'' :=
  hv.bind (hgs.bind rfl)

theorem relay_arg {depth : Nat} (hdepth : 2 ≤ depth) {env : Env} {arg : Bytes}
    (hmsg : env.lookup "_msg" = .ok (.blob arg)) (canister : Principal) (method : String)
    (s : Session σ) :
    Gives ([relayExp canister method].mapM (evalWithin S depth)) (env, s)
      [relayRecord canister method arg] (env, s) := by
  obtain ⟨depth, rfl⟩ := Nat.exists_eq_add_of_le' hdepth
  let self : Engine σ := ⟨evalWithin S (depth + 1), runWithin S (depth + 1)⟩
  have hpath : Gives (self.eval (.path "_msg" [])) (env, s) (.blob arg) (env, s) := by
    exact gives_env.bind ((Gives.attempt hmsg).bind rfl)
  have hliteral (v : Value) (hv : ∀ n, v.fresh n = (v, n)) :
      Gives (self.eval (.literal v)) (env, s) v (env, s) :=
    evalWithin_literal S hv (Nat.le_add_left 1 depth) (env, s)
  have hfields : Gives (fields self 0 [
      (some (.named "args"), .path "_msg" []),
      (some (.named "cycles"), .literal (.number 0)),
      (some (.named "method_name"), .literal (.text method)),
      (some (.named "canister"), .literal (.principal canister))]) (env, s) _ (env, s) :=
    fields_cons hpath <| fields_cons (hliteral _ fun _ => rfl) <|
      fields_cons (hliteral _ fun _ => rfl) <| fields_cons (hliteral _ fun _ => rfl) rfl
  have hascending : Ascending [(Label.named "args", ()), (.named "cycles", ()),
      (.named "method_name", ()), (.named "canister", ())] := by decide
  have hrecord : Gives (evalWithin S (depth + 2) (relayExp canister method)) (env, s)
      (relayRecord canister method arg) (env, s) :=
    hfields.bind (Gives.attempt (Value.mkRecord_of_ascending (hascending.of_ids rfl)))
  rw [List.mapM_cons]
  exact hrecord.bind rfl

theorem run_proxy {self : Engine σ} {walletName : String} {m : Method} {arg : Bytes}
    {canister wallet : Principal} {env env' : Env} {s s' s'' : Session σ} {reply : Value}
    {r : Except Failure Value} (hname : env.canister m.canister = .ok canister)
    (hwallet : env.canister walletName = .ok wallet)
    (hreply : Gives (self.eval (relay wallet canister m.name)) (env.bind "_msg" (.blob arg), s) reply
      (env.bind "_msg" (.blob arg), s'))
    (hresult : (self.eval (relayed canister m.name)).run.run
      ((env.bind "_msg" (.blob arg)).bind "_" (Cost.split reply).1, s') = (r, (env', s''))) :
    (proxy self walletName m arg).run.run (env, s) = (r, (env, s'')) := by
  have hbind : Gives (Running.modifyEnv (σ := σ) (Env.bind "_" (Cost.split reply).1))
      (env.bind "_msg" (.blob arg), s') ()
      ((env.bind "_msg" (.blob arg)).bind "_" (Cost.split reply).1, s') := rfl
  refine gives_env.run_bind.trans ((Gives.attempt hname).run_bind.trans
    (gives_env.run_bind.trans ((Gives.attempt hwallet).run_bind.trans ?_)))
  exact Gives.run_inChild (hreply.run_bind.trans (hbind.run_bind.trans hresult))

theorem run_proxy_of_error {self : Engine σ} {walletName : String} {m : Method} {arg : Bytes}
    {canister wallet : Principal} {env env' : Env} {s s' : Session σ} {f : Failure}
    (hname : env.canister m.canister = .ok canister) (hwallet : env.canister walletName = .ok wallet)
    (hfail : (self.eval (relay wallet canister m.name)).run.run (env.bind "_msg" (.blob arg), s) =
      (.error f, (env', s'))) :
    (proxy self walletName m arg).run.run (env, s) = (.error f, (env, s')) := by
  refine gives_env.run_bind.trans ((Gives.attempt hname).run_bind.trans
    (gives_env.run_bind.trans ((Gives.attempt hwallet).run_bind.trans ?_)))
  exact Gives.run_inChild (Gives.run_bind_of_error hfail)

end

end Evaluation

/-! ## A canister and a wallet -/

def someCanister : Principal := ⟨[1], by decide⟩

/-- A canister that is taken for a wallet. -/
def someWallet : Principal := ⟨[2], by decide⟩

/-- An environment in which `c` and `w` are the two canisters. -/
def twoCanisters : Env where
  vars := [("c", .principal someCanister), ("w", .principal someWallet)]
  base := ⟨"/", []⟩

theorem canister_c : twoCanisters.canister "c" = .ok someCanister := by cbv

theorem canister_w : twoCanisters.canister "w" = .ok someWallet := by cbv

end CanisterShell
