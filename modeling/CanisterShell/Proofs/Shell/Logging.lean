import CanisterShell.Proofs.Offline.SignedCall
import CanisterShell.Proofs.Principal
import CanisterShell.Proofs.Shell.Relaying
import CanisterShell.Proofs.Shell.Silence
import Mathlib

/-!
# Calls of sessions that are offline

A session that is offline signs a call and logs it.  Every call whose message can be made is logged
exactly once, with the identity in use, the canister, the method and the arguments that it has
(`call_offline`).  The result of a direct call is null.  That of a call by way of a wallet is looked
for in a reply, which there is none of, so that such a call fails after it has been logged.
-/

namespace CanisterShell

open Candid Syntax

/-! ## What is known of canisters -/

namespace Session

variable {σ : Type}

/-- The interface that a session goes by when it can ask nobody: one that says nothing if it does
not know the canister. -/
def interface (s : Session σ) (canister : Principal) : Interface :=
  (s.directory.find? canister).getD {}

/-- What a session that can ask nobody knows of a method. -/
def target (s : Session σ) (canister : Principal) (method : String) : Invocation.Target :=
  ⟨canister, method, s.interface canister, (s.interface canister).signature? method⟩

/-- The later session has logged no more, has the same identity and goes by the same interfaces. -/
structure Agrees (s s' : Session σ) : Prop where
  calls : s'.calls = s.calls
  identity : s'.identity = s.identity
  interface : s'.interface = s.interface

namespace Agrees

variable {s s' s'' : Session σ}

theorem refl (s : Session σ) : s.Agrees s := ⟨rfl, rfl, rfl⟩

theorem trans (h : s.Agrees s') (h' : s'.Agrees s'') : s.Agrees s'' :=
  ⟨h'.calls.trans h.calls, h'.identity.trans h.identity, h'.interface.trans h.interface⟩

theorem target (h : s.Agrees s') (canister : Principal) (method : String) :
    s'.target canister method = s.target canister method := by
  rw [Session.target, h.interface, Session.target]

theorem tell (s : Session σ) (topic : Topic) (message : String) :
    s.Agrees (s.tell topic message) := ⟨rfl, rfl, rfl⟩

theorem unknown {canister : Principal} (h : s.directory.find? canister = none) :
    s.Agrees { s with directory := s.directory.put canister {} } := by
  refine ⟨rfl, rfl, funext fun p => ?_⟩
  rw [Session.interface, Table.find?_put, Session.interface]
  split
  case isTrue hp => rw [← hp, h, Option.getD_some, Option.getD_none]
  case isFalse => rfl

end Agrees

end Session

section

variable {σ : Type} {S : Setting σ} (h : S.offline = true)

namespace Directory

include h in
theorem lookup_offline (canister : Principal) (s : Session σ) :
    ∃ s', Gives (lookup S canister) s (s.interface canister) s' ∧ s.Agrees s' := by
  cases hfind : s.directory.find? canister with
  | some info =>
    have hinfo : s.interface canister = info := by rw [Session.interface, hfind, Option.getD_some]
    rw [hinfo]
    exact ⟨s, lookup_of_known hfind, .refl s⟩
  | none =>
    have hinfo : s.interface canister = {} := by rw [Session.interface, hfind, Option.getD_none]
    -- nobody can be asked: a warning, and the canister is put down as unknown
    have hnobody : connected? S = none := if_pos h
    obtain ⟨s', hfetch, hagrees, hdirectory⟩ : ∃ s', Gives (fetch S canister) s {} s' ∧
        s.Agrees s' ∧ s'.directory = s.directory := by
      rw [fetch, hnobody]
      exact ⟨s.tell .warning _, rfl, .tell s .warning _, rfl⟩
    have hunknown : s'.directory.find? canister = none := by rw [hdirectory, hfind]
    refine ⟨_, ?_, hagrees.trans (.unknown hunknown)⟩
    rw [hinfo, Gives, lookup_of_unknown hfind, hfetch.run_bind]
    rfl

end Directory

namespace Invocation

include h in
theorem target_offline (canister : Principal) (method : String) (s : Session σ) :
    ∃ s', Gives (target S canister method) s (s.target canister method) s' ∧ s.Agrees s' := by
  obtain ⟨s', hlookup, hagrees⟩ := Directory.lookup_offline h canister s
  obtain ⟨s'', htarget, rfl | ⟨message, rfl⟩⟩ := target_of_lookup hlookup method
  · exact ⟨_, htarget, hagrees⟩
  · exact ⟨_, htarget, hagrees.trans (.tell _ _ _)⟩

include h in
theorem call_logs (hexpiries : S.expiries.Nonneg) {t : Target} {arg : Bytes} {effective : Principal}
    (hroute : Routing.effectiveCanister t.canister t.method arg = .ok effective) (s : Session σ) :
    ∃ signed s', Gives (call S t arg) s .null s' ∧
      Offline.sign t.kind s.identity S.expiries ⟨t.canister, t.method, arg, effective⟩ = .ok signed ∧
      s'.calls = signed :: s.calls := by
  obtain ⟨signed, hsigned⟩ :=
    Offline.exists_sign t.kind s.identity hexpiries ⟨t.canister, t.method, arg, effective⟩
  obtain ⟨s', hlog, hcalls⟩ : ∃ s',
      Gives (logCall S t.kind ⟨t.canister, t.method, arg, effective⟩) s () s' ∧
        s'.calls = signed :: s.calls := by
    exact ⟨_, gives_get.bind ((Gives.attempt hsigned).bind rfl), rfl⟩
  have hsend : Gives (send S t arg) s none s' := by
    refine (Gives.attempt hroute).bind ?_
    rw [if_pos h]
    exact hlog.bind rfl
  have hunmeasured : isMeasured S t = false := by rw [isMeasured, h]; rfl
  refine ⟨signed, s', ?_, hsigned, hcalls⟩
  rw [call, hunmeasured, if_neg Bool.false_ne_true]
  exact hsend.bind rfl

end Invocation

end

/-! ## Call expressions -/

namespace Evaluation

/-- The message that a call expression amounts to once its arguments have been evaluated: how it is
sent, and the call.  The message of a call by way of a wallet is the one to the wallet. -/
inductive Message {σ : Type} (env : Env) (s : Session σ) (m : Method) (values : List Value) :
    CallMode → Request.CallKind → Call → Prop
  | send {canister effective : Principal} {arg : Bytes}
      (hname : env.canister m.canister = .ok canister)
      (hencode : (s.target canister m.name).encode values = .ok arg)
      (hroute : Routing.effectiveCanister canister m.name arg = .ok effective) :
      Message env s m values .send (s.target canister m.name).kind
        ⟨canister, m.name, arg, effective⟩
  | proxy {walletName : String} {canister wallet effective : Principal} {arg relayed : Bytes}
      (hname : env.canister m.canister = .ok canister)
      (hencode : (s.target canister m.name).encode values = .ok arg)
      (hwallet : env.canister walletName = .ok wallet)
      (hrelay : (s.target wallet relayMethod).encode [relayRecord canister m.name arg] =
        .ok relayed)
      (hroute : Routing.effectiveCanister wallet relayMethod relayed = .ok effective) :
      Message env s m values (.proxy walletName) (s.target wallet relayMethod).kind
        ⟨wallet, relayMethod, relayed, effective⟩

/-- The result of a call expression of a session that is offline. -/
def offlineResult : CallMode → Except Failure Value
  | .proxy _ => .error (Selection.mismatch (.field (.named "Ok")) .null)
  | _ => .ok .null

section

variable {σ : Type} {S : Setting σ} (h : S.offline = true)
include h

theorem target_gives {env : Env} {m : Method} {canister : Principal}
    (hname : env.canister m.canister = .ok canister) (s : Session σ) :
    ∃ s', Gives (target S m) (env, s) (s.target canister m.name) (env, s') ∧ s.Agrees s' := by
  obtain ⟨s', htarget, hagrees⟩ := Invocation.target_offline h canister m.name s
  exact ⟨s', gives_env.bind ((Gives.attempt hname).bind (htarget.toRunning env)), hagrees⟩

theorem call_send (self : Engine σ) {args : List Exp} {values : List Value} {env env' : Env}
    {s s₁ : Session σ} {m : Method} {canister effective : Principal} {arg : Bytes}
    (hexpiries : S.expiries.Nonneg) (hargs : Gives (args.mapM self.eval) (env', s) values (env, s₁))
    (hname : env.canister m.canister = .ok canister)
    (hencode : (s₁.target canister m.name).encode values = .ok arg)
    (hroute : Routing.effectiveCanister canister m.name arg = .ok effective) :
    ∃ signed s', Gives (call S self (some m) args .send) (env', s) .null (env, s') ∧
      Offline.sign (s₁.target canister m.name).kind s₁.identity S.expiries
        ⟨canister, m.name, arg, effective⟩ = .ok signed ∧
      s'.calls = signed :: s₁.calls := by
  obtain ⟨s₂, htarget, hagrees⟩ := target_gives h hname s₁
  obtain ⟨signed, s', hcall, hsigned, hcalls⟩ :=
    Invocation.call_logs (t := s₁.target canister m.name) h hexpiries hroute s₂
  rw [hagrees.identity] at hsigned
  rw [hagrees.calls] at hcalls
  have hfresh : Gives (Doing.fresh (σ := σ) .null) s' .null s' := rfl
  refine ⟨signed, s', ?_, hsigned, hcalls⟩
  exact hargs.bind (htarget.bind ((Gives.attempt hencode).bind
    ((hcall.bind hfresh).toRunning env)))

omit h in
theorem relayed_fails (depth : Nat) (canister : Principal) (method : String) {env : Env}
    (hreply : env.lookup "_" = .ok .null) (s : Session σ) :
    (evalWithin S (depth + 2) (relayed canister method)).run.run (env, s) =
      (.error (Selection.mismatch (.field (.named "Ok")) .null), (env, s)) := by
  have hpath : (evalWithin S (depth + 1) (.path "_" [.field (.named "Ok"),
      .field (.named "return")])).run.run (env, s) =
      (.error (Selection.mismatch (.field (.named "Ok")) .null), (env, s)) :=
    gives_env.run_bind.trans (Gives.attempt hreply).run_bind
  exact Gives.run_bind_of_error hpath

/-- A call by way of a wallet is logged, as the call of the wallet, and then fails. -/
theorem proxy_logs {depth : Nat} (hdepth : 3 ≤ depth) {env : Env} {s : Session σ} {m : Method}
    {walletName : String} {canister wallet effective : Principal} {arg relayed : Bytes}
    (hexpiries : S.expiries.Nonneg) (hname : env.canister m.canister = .ok canister)
    (hwallet : env.canister walletName = .ok wallet)
    (hrelay : (s.target wallet relayMethod).encode [relayRecord canister m.name arg] = .ok relayed)
    (hroute : Routing.effectiveCanister wallet relayMethod relayed = .ok effective) :
    ∃ signed s', (proxy ⟨evalWithin S depth, runWithin S depth⟩ walletName m arg).run.run (env, s) =
        (.error (Selection.mismatch (.field (.named "Ok")) .null), (env, s')) ∧
      Offline.sign (s.target wallet relayMethod).kind s.identity S.expiries
        ⟨wallet, relayMethod, relayed, effective⟩ = .ok signed ∧
      s'.calls = signed :: s.calls := by
  obtain ⟨depth, rfl⟩ := Nat.exists_eq_add_of_le' hdepth
  -- in the child, the wallet is named by its principal, and the argument is bound
  let child := env.bind "_msg" (.blob arg)
  have hmsg : child.lookup "_msg" = .ok (.blob arg) := by
    simp only [child, Env.lookup, Env.bind, Table.find?_put, if_pos]
  have hself : child.canister wallet.toText = .ok wallet := by
    rw [Env.canister, Principal.ofText_toText]
  obtain ⟨signed, s', hcall, hsigned, hcalls⟩ := call_send h (m := ⟨wallet.toText, relayMethod⟩)
    ⟨evalWithin S (depth + 2), runWithin S (depth + 2)⟩ hexpiries
    (relay_arg (Nat.le_add_left 2 depth) hmsg canister m.name s) hself hrelay hroute
  have hrelay' : Gives (evalWithin S (depth + 3) (relay wallet canister m.name)) (child, s) .null
      (child, s') := hcall
  have hreply : (child.bind "_" .null).lookup "_" = .ok .null := by
    simp only [Env.lookup, Env.bind, Table.find?_put, if_pos]
  refine ⟨signed, s', ?_, hsigned, hcalls⟩
  exact run_proxy hname hwallet hrelay' (relayed_fails (depth + 1) canister m.name hreply s')

theorem call_proxy {depth : Nat} (hdepth : 3 ≤ depth) {args : List Exp} {values : List Value}
    {env : Env} {s s₁ : Session σ} {m : Method} {walletName : String}
    {canister wallet effective : Principal} {arg relayed : Bytes} (hexpiries : S.expiries.Nonneg)
    (hargs : Gives (args.mapM (evalWithin S depth)) (env, s) values (env, s₁))
    (hname : env.canister m.canister = .ok canister)
    (hencode : (s₁.target canister m.name).encode values = .ok arg)
    (hwallet : env.canister walletName = .ok wallet)
    (hrelay : (s₁.target wallet relayMethod).encode [relayRecord canister m.name arg] = .ok relayed)
    (hroute : Routing.effectiveCanister wallet relayMethod relayed = .ok effective) :
    ∃ signed s', (evalWithin S (depth + 1) (.call (some m) args (.proxy walletName))).run.run
          (env, s) = (.error (Selection.mismatch (.field (.named "Ok")) .null), (env, s')) ∧
      Offline.sign (s₁.target wallet relayMethod).kind s₁.identity S.expiries
        ⟨wallet, relayMethod, relayed, effective⟩ = .ok signed ∧
      s'.calls = signed :: s₁.calls := by
  obtain ⟨s₂, htarget, hagrees⟩ := target_gives h hname s₁
  rw [← hagrees.target] at hrelay
  obtain ⟨signed, s', hproxy, hsigned, hcalls⟩ :=
    proxy_logs h hdepth hexpiries hname hwallet hrelay hroute
  rw [hagrees.target, hagrees.identity] at hsigned
  rw [hagrees.calls] at hcalls
  refine ⟨signed, s', ?_, hsigned, hcalls⟩
  exact hargs.run_bind.trans
    (htarget.run_bind.trans ((Gives.attempt hencode).run_bind.trans hproxy))

omit h in
theorem env_of_args {depth : Nat} {args : List Exp} {values : List Value} {env env' : Env}
    {s s' : Session σ}
    (hargs : Gives (args.mapM (evalWithin S depth)) (env, s) values (env', s')) : env' = env := by
  have hstable : S.Stable fun _ => True := fun _ _ _ _ => trivial
  obtain ⟨⟨henv, -⟩, -⟩ :=
    keeps_evalAll (keeping_within hstable depth) args (env, s) ⟨rfl, trivial⟩
  rw [hargs] at henv
  exact henv

/-- Every call whose message can be made is logged once, as the message of the identity in use; a
direct call then gives null, and one by way of a wallet fails. -/
theorem call_offline (hexpiries : S.expiries.Nonneg) {depth : Nat} (hdepth : 3 ≤ depth) {env env' : Env}
    {s s₁ : Session σ} {m : Method} {args : List Exp} {values : List Value} {mode : CallMode}
    {kind : Request.CallKind} {c : Call}
    (hargs : Gives (args.mapM (evalWithin S depth)) (env, s) values (env', s₁))
    (hquiet : s₁.calls = s.calls) (hmessage : Message env s₁ m values mode kind c) :
    ∃ signed s', (evalWithin S (depth + 1) (.call (some m) args mode)).run.run (env, s) =
        (offlineResult mode, (env, s')) ∧
      s'.calls = signed :: s.calls ∧
      Offline.sign kind s₁.identity S.expiries c = .ok signed ∧
      (signed.ingress.content.plain.length < 2 ^ 65 → signed.ingress.said =
        .ok ⟨s₁.identity.sender, c.canister, .text c.method, c.arg⟩) := by
  obtain rfl : env' = env := env_of_args hargs
  rw [← hquiet]
  cases hmessage with
  | send hname hencode hroute =>
    obtain ⟨signed, s', hcall, hsigned, hcalls⟩ :=
      call_send h ⟨evalWithin S depth, runWithin S depth⟩ hexpiries hargs hname hencode hroute
    exact ⟨signed, s', hcall, hcalls, hsigned, Offline.said_of_sign hsigned⟩
  | proxy hname hencode hwallet hrelay hroute =>
    obtain ⟨signed, s', hcall, hsigned, hcalls⟩ :=
      call_proxy h hdepth hexpiries hargs hname hencode hwallet hrelay hroute
    exact ⟨signed, s', hcall, hcalls, hsigned, Offline.said_of_sign hsigned⟩

end

end Evaluation

/-! ## A direct call and one by way of a wallet -/

def newSession : Session Unit := { world := (), disk := ⟨[], []⟩, directory := Directory.initial }

theorem encode_newSession {p : Principal} (h : p ≠ .management) (method : String)
    (values : List Value) : (newSession.target p method).encode values = encodeArgs values := by
  have hinterface : newSession.interface p = {} := by
    rw [Session.interface, newSession, Directory.initial, Table.find?_cons, if_neg h.symm]
    rfl
  rw [Session.target, hinterface]
  rfl

/-- A direct call with a record is logged and gives null. -/
theorem call_offline_record :
    let arg : Bytes := [68, 73, 68, 76, 1, 108, 1, 97, 125, 1, 0, 1]
    let e : Exp :=
      .call (some ⟨"c", "m"⟩) [.record [(some (.named "a"), .literal (.number 1))]] .send
    (muted true).offline = true ∧
      ∃ signed s', (evalWithin (muted true) 4 e).run.run (twoCanisters, newSession) =
          (.ok .null, (twoCanisters, s')) ∧
        s'.calls = [signed] ∧
        Offline.sign (newSession.target someCanister "m").kind newSession.identity (.ofSecond 0)
          ⟨someCanister, "m", arg, someCanister⟩ = .ok signed ∧
        (signed.ingress.content.plain.length < 2 ^ 65 → signed.ingress.said =
          .ok ⟨newSession.identity.sender, someCanister, .text "m", arg⟩) := by
  intro arg e
  have hencode : (newSession.target someCanister "m").encode [.record [(.named "a", .number 1)]] =
      .ok arg := by
    rw [encode_newSession (by decide)]
    cbv
  have hroute : Routing.effectiveCanister someCanister "m" arg = .ok someCanister := rfl
  exact ⟨rfl, Evaluation.call_offline (S := muted true) rfl
    (Request.Expiries.ofSecond_nonneg (le_refl 0)) (le_refl 3) rfl rfl
    (.send canister_c hencode hroute)⟩

/-- A call by way of a wallet, although its message can be made, does not give null. -/
theorem call_by_wallet_fails :
    (muted true).offline = true ∧
      (∃ kind c, Evaluation.Message twoCanisters newSession ⟨"c", "m"⟩ [] (.proxy "w") kind c) ∧
      ((evalWithin (muted true) 4 (.call (some ⟨"c", "m"⟩) [] (.proxy "w"))).run.run
        (twoCanisters, newSession)).1 =
        .error (Selection.mismatch (.field (.named "Ok")) .null) := by
  have hencode : (newSession.target someCanister "m").encode [] = .ok [68, 73, 68, 76, 0, 0] := by
    rw [encode_newSession (by decide)]
    cbv
  obtain ⟨relayed, hrelay⟩ : ∃ relayed, (newSession.target someWallet Evaluation.relayMethod).encode
      [Evaluation.relayRecord someCanister "m" [68, 73, 68, 76, 0, 0]] = .ok relayed := by
    rw [encode_newSession (by decide)]
    exact Attempt.exists_of_isOk (by cbv)
  have hroute : Routing.effectiveCanister someWallet Evaluation.relayMethod relayed =
      .ok someWallet := rfl
  have hargs : Gives (([] : List Exp).mapM (evalWithin (muted true) 3))
      (twoCanisters, newSession) [] (twoCanisters, newSession) := rfl
  have hexpiries : (muted true).expiries.Nonneg := Request.Expiries.ofSecond_nonneg (le_refl 0)
  obtain ⟨signed, s', hcall, -, -⟩ := Evaluation.call_proxy (S := muted true) rfl (le_refl 3)
    (m := ⟨"c", "m"⟩) hexpiries hargs canister_c hencode canister_w hrelay hroute
  exact ⟨rfl, ⟨_, _, .proxy canister_c hencode canister_w hrelay hroute⟩, congrArg (·.1) hcall⟩

end CanisterShell
