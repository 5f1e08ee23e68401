import CanisterShell.Proofs.Shell.Discovery
import CanisterShell.Proofs.Shell.Wallet

/-!
# Calls by way of wallets

A call by way of a wallet encodes the arguments as the direct call does, sends the wallet the bytes with
the canister and the method, and decodes what the wallet returns as the reply of the direct call is
decoded.  So the two agree when the wallet replies with a success and the same bytes
(`call_by_wallet_agrees`).  A wallet that counts its cycles is another matter: the call fails if its
counter cannot be read (`Wallet.call_of_counter_error`), whatever the wallet has replied.
-/

namespace CanisterShell

open Candid Syntax

/-! ## Methods that are known -/

namespace Invocation

variable {σ : Type} {S : Setting σ} {canister : Principal} {method : String} {t : Target}
  {s s' : Session σ}

theorem known_of_target (h : Gives (target S canister method) s t s') :
    s'.directory.find? canister = some t.info ∧
      t = ⟨canister, method, t.info, t.info.signature? method⟩ := by
  obtain ⟨info, s₁, hlookup, -⟩ := Gives.of_bind h
  have hknown := Directory.known_of_lookup hlookup
  obtain ⟨s₂, htarget, hs₂⟩ := target_of_lookup hlookup method
  rw [Gives, h] at htarget
  cases htarget
  obtain rfl | ⟨message, rfl⟩ := hs₂
  · exact ⟨hknown, rfl⟩
  · exact ⟨hknown, rfl⟩

theorem target_of_known (method : String) {info : Interface} (h : s.directory.find? canister = some info) :
    ∃ s', Gives (target S canister method) s
        ⟨canister, method, info, info.signature? method⟩ s' ∧ s'.world = s.world := by
  have hlookup : Gives (Directory.lookup S canister) s info s := Directory.lookup_of_known h
  obtain ⟨s', htarget, rfl | ⟨message, rfl⟩⟩ := target_of_lookup hlookup method
  · exact ⟨_, htarget, rfl⟩
  · exact ⟨_, htarget, rfl⟩

end Invocation

namespace Evaluation

variable {σ : Type} {S : Setting σ}

/-! ## Calls -/

section

variable {self : Engine σ} {args : List Exp} {values : List Value} {state : Env × Session σ} {env : Env}
  {s₁ s₂ : Session σ} {m : Method} {canister : Principal} {t : Invocation.Target} {arg : Bytes}
  (hargs : Gives (args.mapM self.eval) state values (env, s₁))
  (hname : env.canister m.canister = .ok canister)
  (htarget : Gives (Invocation.target S canister m.name) s₁ t s₂)
  (hencode : t.encode values = .ok arg)

theorem gives_target (hname : env.canister m.canister = .ok canister)
    (htarget : Gives (Invocation.target S canister m.name) s₁ t s₂) :
    Gives (target S m) (env, s₁) t (env, s₂) := by
  exact gives_env.bind ((Gives.attempt hname).bind (htarget.toRunning env))

include hargs hname htarget hencode

theorem run_call_send : (call S self (some m) args .send).run.run state =
    ((Invocation.call S t arg).toRunning >>= fun v => (Doing.fresh v).toRunning).run.run (env, s₂) :=
  hargs.run_bind.trans <| (gives_target hname htarget).run_bind.trans <|
    (Gives.attempt hencode).run_bind.trans (Gives.run_toRunning_bind _ _ env s₂)

theorem run_call_proxy (walletName : String) :
    (call S self (some m) args (.proxy walletName)).run.run state =
      (proxy self walletName m arg).run.run (env, s₂) :=
  hargs.run_bind.trans <| (gives_target hname htarget).run_bind.trans
    (Gives.attempt hencode).run_bind

end

/-! ## Results -/

theorem run_fresh {act : Running σ Value} {x : Attempt Value} {state : Env × Session σ} {env : Env}
    {s : Session σ} (h : act.run.run state = (x, (env, s))) :
    ∃ n s', (act >>= fun v => Doing.toRunning (Doing.fresh v)).run.run state =
      (x.map fun v => (v.fresh n).1, (env, s')) ∧ s'.world = s.world := by
  cases x with
  | error f => exact ⟨0, s, Gives.run_bind_of_error h, rfl⟩
  | ok v =>
    exact ⟨s.computed, { s with computed := (v.fresh s.computed).2 }, Gives.run_bind h, rfl⟩

theorem run_decode {self : Engine σ} {m : Method} {blob : Exp} {bytes : Bytes}
    {state : Env × Session σ} {env : Env} {s : Session σ}
    (hblob : Gives (self.eval blob) state (.blob bytes) (env, s)) :
    (decode S self (some m) blob).run.run state =
      (target S m >>= fun t => (liftM (t.decode bytes) : Running σ Value) >>=
        fun v => Doing.toRunning (Doing.fresh v)).run.run (env, s) :=
  hblob.run_bind.trans rfl

theorem run_relayed {depth : Nat} {env : Env} {s s₁ : Session σ} {canister : Principal}
    {method : String} {t : Invocation.Target} {r : Bytes} {v : Value}
    (hresult : env.lookup "_" = .ok v) (hv : Wallet.Returns r v)
    (htarget : Gives (Invocation.target S canister method) s t s₁) :
    ∃ n s', (evalWithin S (depth + 2) (relayed canister method)).run.run (env, s) =
      ((t.decode r).map fun v => (v.fresh n).1, (env, s')) ∧ s'.world = s₁.world := by
  have hpath : Gives (evalWithin S (depth + 1) (.path "_" [.field (.named "Ok"),
      .field (.named "return")])) (env, s) (.blob r) (env, s) :=
    gives_env.bind ((Gives.attempt hresult).bind (hv.walk _ _))
  have hname : env.canister canister.toText = .ok canister := by
    rw [Env.canister, Principal.ofText_toText]
  have hfound : Gives (target S ⟨canister.toText, method⟩) (env, s) t (env, s₁) :=
    gives_target (m := ⟨canister.toText, method⟩) hname htarget
  obtain ⟨n, s', hfresh, hworld⟩ := run_fresh (Gives.run_attempt (t.decode r) (env, s₁))
  have hstep : evalWithin S (depth + 2) (relayed canister method) =
      decode S ⟨evalWithin S (depth + 1), runWithin S (depth + 1)⟩ (some ⟨canister.toText, method⟩)
        (.path "_" [.field (.named "Ok"), .field (.named "return")]) := rfl
  exact ⟨n, s', by rw [hstep, run_decode hpath, hfound.run_bind, hfresh], hworld⟩

/-! ## Agreement -/

theorem run_call_plain {t : Invocation.Target} {arg r : Bytes} {s s' : Session σ}
    (hcounts : t.info.countsCycles = false) (hreply : Gives (Invocation.send S t arg) s (some r) s') :
    (Invocation.call S t arg).run.run s = (t.decode r, s') := by
  have hmeasured : Invocation.isMeasured S t = false := by
    rw [Invocation.isMeasured, hcounts, Bool.and_false, Bool.false_and]
  rw [Invocation.call, hmeasured, if_neg Bool.false_ne_true, hreply.run_bind]
  exact Gives.run_attempt _ _

theorem run_relay (depth : Nat) {env : Env} {s₂ s₃ : Session σ} {canister wallet : Principal}
    {method : String} {u : Invocation.Target} {arg request : Bytes}
    (hmsg : env.lookup "_msg" = .ok (.blob arg))
    (hwallet : Gives (Invocation.target S wallet relayMethod) s₂ u s₃)
    (hrequest : u.encode [relayRecord canister method arg] = .ok request) :
    (evalWithin S (depth + 3) (relay wallet canister method)).run.run (env, s₂) =
      ((Invocation.call S u request).toRunning >>= fun v => (Doing.fresh v).toRunning).run.run
        (env, s₃) := by
  let self : Engine σ := ⟨evalWithin S (depth + 2), runWithin S (depth + 2)⟩
  have harg : Gives ([relayExp canister method].mapM self.eval) (env, s₂)
      [relayRecord canister method arg] (env, s₂) :=
    relay_arg (Nat.le_add_left 2 depth) hmsg canister method s₂
  have hself : env.canister wallet.toText = .ok wallet := by
    rw [Env.canister, Principal.ofText_toText]
  exact run_call_send (m := ⟨wallet.toText, relayMethod⟩) harg hself hwallet hrequest

/-- Once a wallet has replied to the request, the bytes that it returns are decoded as a reply of the
method. -/
theorem run_proxy_of_replied {depth : Nat} {env : Env} {s₁ s₂ s₃ s₄ : Session σ} {m : Method}
    {walletName : String} {canister wallet : Principal} {t u : Invocation.Target}
    {arg request reply r : Bytes} {v : Value}
    (hname : env.canister m.canister = .ok canister)
    (htarget : Gives (Invocation.target S canister m.name) s₁ t s₂)
    (hwalletName : env.canister walletName = .ok wallet)
    (hwallet : Gives (Invocation.target S wallet relayMethod) s₂ u s₃)
    (hrequest : u.encode [relayRecord canister m.name arg] = .ok request)
    (hreplied : Wallet.Replied S u request s₃ reply s₄) (hdecode : u.decode reply = .ok v)
    (hv : Wallet.Returns r v) :
    ∃ n s', (proxy ⟨evalWithin S (depth + 3), runWithin S (depth + 3)⟩ walletName m arg).run.run
        (env, s₂) = ((t.decode r).map fun v => (v.fresh n).1, (env, s')) ∧
      s'.world = s₄.world := by
  obtain ⟨w, hcall, hsplit⟩ := hreplied.call_gives hdecode hv
  have hrelay : Gives (evalWithin S (depth + 3) (relay wallet canister m.name))
      (env.bind "_msg" (.blob arg), s₂) (w.fresh s₄.computed).1
      (env.bind "_msg" (.blob arg), { s₄ with computed := (w.fresh s₄.computed).2 }) := by
    rw [Gives, run_relay depth (env.lookup_bind "_msg" (.blob arg)) hwallet hrequest,
      (hcall.toRunning _).run_bind]
    rfl
  -- the canister stays known, so that the method is found again as it was
  obtain ⟨hknown, ht⟩ := Invocation.known_of_target htarget
  have hsteady := S.steady_known canister t.info
  have hknown₃ := (hsteady.target wallet relayMethod s₂ hknown).1
  rw [hwallet] at hknown₃
  have hknown₄ := (hsteady.call u request s₃ hknown₃).1
  rw [hcall] at hknown₄
  obtain ⟨s₅, hagain, hworld⟩ := Invocation.target_of_known (S := S) m.name
    (s := { s₄ with computed := (w.fresh s₄.computed).2 }) hknown₄
  rw [← ht] at hagain
  obtain ⟨n, s₆, hrelayed, hworld'⟩ := run_relayed
    ((env.bind "_msg" (.blob arg)).lookup_bind "_" (v.fresh s₄.computed).1) (hv.fresh s₄.computed)
    hagain
  rw [← hsplit] at hrelayed
  exact ⟨n, s₆, run_proxy hname hwalletName hrelay hrelayed, hworld'.trans hworld⟩

/-- A wallet that a call is relayed by is known by definitions in order, if it was before the arguments
were evaluated or was not known. -/
theorem ordered_of_relaying {depth : Nat} {env : Env} {s s₁ s₂ s₃ : Session σ} {method : String}
    {args : List Exp} {values : List Value} {canister wallet : Principal} {t u : Invocation.Target}
    (hordered : ∀ info, s.directory.find? wallet = some info → info.scope.Ordered)
    (hargs : Gives (args.mapM (evalWithin S depth)) (env, s) values (env, s₁))
    (htarget : Gives (Invocation.target S canister method) s₁ t s₂)
    (hwallet : Gives (Invocation.target S wallet relayMethod) s₂ u s₃) : u.info.scope.Ordered := by
  have hstable := S.stable_known wallet (P := (·.scope.Ordered)) fun _ h => h.scope
  have hkeeps : Keeps (RunsIn env _) (args.mapM (evalWithin S depth)) :=
    (Keeps.mapM fun e _ => (keeping_within hstable depth).eval e env).weaken
  have h₁ := (hkeeps (env, s) ⟨rfl, hordered⟩).1.2
  rw [hargs] at h₁
  have h₂ := (hstable.steady.target canister method s₁ h₁).1
  rw [htarget] at h₂
  have h₃ := (hstable.steady.target wallet relayMethod s₂ h₂).1
  rw [hwallet] at h₃
  exact h₃ _ (Invocation.known_of_target hwallet).1

/-- Where the direct call of a method is replied to, and the wallet replies to the request to relay it
with a success and the same bytes, the call by way of the wallet ends as the direct one does.  The
request can always be encoded, and holds the argument, the canister and the method.  If the session
knows the wallet, its definitions are in order, as they are in any session that inputs lead to
(`Shell.Reachable.interface_ordered`). -/
theorem call_by_wallet_agrees {depth : Nat} (hdepth : 3 ≤ depth) {env : Env}
    {s s₁ s₂ s₃ : Session σ} {m : Method} {args : List Exp} {values : List Value}
    {walletName : String} {canister wallet : Principal} {t u : Invocation.Target} {arg r : Bytes}
    {kind : IntKind}
    (hordered : ∀ info, s.directory.find? wallet = some info → info.scope.Ordered)
    (hargs : Gives (args.mapM (evalWithin S depth)) (env, s) values (env, s₁))
    (hname : env.canister m.canister = .ok canister)
    (htarget : Gives (Invocation.target S canister m.name) s₁ t s₂)
    (hcounts : t.info.countsCycles = false) (hencode : t.encode values = .ok arg)
    (hreplied : ∃ s', Gives (Invocation.send S t arg) s₂ (some r) s')
    (hwalletName : env.canister walletName = .ok wallet)
    (hwallet : Gives (Invocation.target S wallet relayMethod) s₂ u s₃)
    (hrelays : Wallet.Relays u kind) :
    ∃ request, u.encode [relayRecord canister m.name arg] = .ok request ∧
      decodeArgs request = .ok [Wallet.request kind canister m.name arg] ∧
      ∀ reply v s₄, Wallet.Replied S u request s₃ reply s₄ → decodeArgs reply = .ok [v] →
        Wallet.Returns r v → ∃ n n' s₅ s₆,
          (evalWithin S (depth + 1) (.call (some m) args .send)).run.run (env, s) =
            ((t.decode r).map fun v => (v.fresh n).1, (env, s₅)) ∧
          (evalWithin S (depth + 1) (.call (some m) args (.proxy walletName))).run.run (env, s) =
            ((t.decode r).map fun v => (v.fresh n').1, (env, s₆)) ∧
          s₆.world = s₄.world := by
  have hscope := ordered_of_relaying hordered hargs htarget hwallet
  obtain ⟨request, hrequest, hread⟩ := hrelays.exists_request hscope canister m.name arg
  refine ⟨request, hrequest, hread, fun reply v s₄ hwalletReplied hreply hv => ?_⟩
  obtain ⟨depth, rfl⟩ := Nat.exists_eq_add_of_le' hdepth
  let self : Engine σ := ⟨evalWithin S (depth + 3), runWithin S (depth + 3)⟩
  have hargs : Gives (args.mapM self.eval) (env, s) values (env, s₁) := hargs
  obtain ⟨s', hsend⟩ := hreplied
  obtain ⟨n, s₅, hdirect, -⟩ :=
    run_fresh (Gives.run_toRunning (run_call_plain hcounts hsend) env)
  rw [← run_call_send hargs hname htarget hencode] at hdirect
  obtain ⟨v', hdecode, hv'⟩ := hrelays.decode_reply hreply hv
  obtain ⟨n', s₆, hproxy, hworld⟩ := run_proxy_of_replied hname htarget hwalletName
    hwallet hrequest hwalletReplied hdecode hv'
  rw [← run_call_proxy hargs hname htarget hencode] at hproxy
  exact ⟨n, n', s₅, s₆, hdirect, hproxy, hworld⟩

end Evaluation

/-! ## A wallet that counts its cycles -/

/-- An agent that tells the state of a cycle counter as many times as its world says, and to whom one
wallet and all other canisters reply. -/
def walletAgent (reply walletReply : Bytes) : Agent Nat where
  query _ c := do
    match (← get : Nat) with
    | 0 => throw (.error (.network .noReply (some c.site)))
    | n + 1 =>
      set n
      return [68, 73, 68, 76, 0, 1, 116, 0, 0, 0, 0, 0, 0, 0, 0]
  submit _ _ := return []
  status _ effective _ :=
    return .replied (some (if effective = someWallet then walletReply else reply))
  metadata _ _ _ := return none
  timer := { clock := return .whole 0, sleep := fun _ => return }

/-- The text `hi`, as the reply of a canister. -/
def textReply : Bytes := [68, 73, 68, 76, 0, 1, 113, 2, 104, 105]

/-- A success with the bytes of that reply, as the reply of a wallet. -/
def walletReply : Bytes :=
  [68, 73, 68, 76, 3, 107, 1, 188, 138, 1, 1, 108, 1, 176, 201, 182, 73, 2, 109, 123, 1, 0, 0, 10]
    ++ textReply

/-- A connected session whose agent gives these replies. -/
def walletSetting : Setting Nat where
  agent? := some (walletAgent textReply walletReply)
  replicaUrl := "https://ic0.app"
  now := 0
  clock := return .zero
  askPin := return ""
  newSecret := return []

def countingWallet : Interface where
  scope := [("Reply", .variant [(.named "Ok", .record [(.named "return", .blob)]),
    (.named "Err", .text)])]
  methods := [
    ("wallet_call", ⟨[.record [(.named "args", .blob), (.named "cycles", .nat64),
      (.named "method_name", .text), (.named "canister", .principal)]], [.var "Reply"], []⟩),
    ("__get_cycles", ⟨[], [.int64], [.query]⟩)]

/-- A session that has the interfaces of a canister, which is empty, and of the wallet, whose counter
can be read so many times. -/
def walletSession (reads : Nat) : Session Nat where
  world := reads
  disk := ⟨[], []⟩
  directory := [(someCanister, {}), (someWallet, countingWallet)]

/-- The canister's method, of which nothing is known. -/
def canisterTarget : Invocation.Target := ⟨someCanister, "m", {}, none⟩

/-- The wallet's method to relay calls. -/
def walletTarget : Invocation.Target :=
  ⟨someWallet, Evaluation.relayMethod, countingWallet, countingWallet.signature? Evaluation.relayMethod⟩

theorem countingWallet_ordered : countingWallet.scope.Ordered := by
  refine List.forall_mem_singleton.mpr (.variant (by decide) ?_)
  simp only [List.forall_mem_cons, List.not_mem_nil, false_imp_iff, implies_true, and_true]
  exact ⟨.record (List.pairwise_singleton _ _)
    (List.forall_mem_singleton.mpr (.vec (.prim _))), .prim _⟩

theorem walletSession_ordered (reads : Nat) (info : Interface)
    (h : (walletSession reads).directory.find? someWallet = some info) : info.scope.Ordered := by
  obtain rfl : countingWallet = info := Option.some.inj h
  exact countingWallet_ordered

theorem walletTarget_relays : Wallet.Relays walletTarget .nat64 := by
  have hblob (scope : Scope) : Wallet.IsBlob scope .blob :=
    ⟨.nat8, Scope.resolve_of_ne_var nofun, Scope.resolve_prim _ _⟩
  exact .known rfl
    (.intro (Scope.resolve_of_ne_var nofun) (hblob _) (Scope.resolve_prim _ _)
      (Scope.resolve_prim _ _) (Scope.resolve_prim _ _))
    (.intro (Scope.resolve_var rfl nofun) (Scope.resolve_of_ne_var nofun) (hblob _)
      (Scope.resolve_prim _ _))

theorem decodeArgs_walletReply : decodeArgs walletReply =
    .ok [.variant (.numbered 17724) (.record [(.numbered 153986224, .blob textReply)]) 0] := by
  cbv

section

variable (s : Session Nat)

theorem send_canister (arg : Bytes) :
    Gives (Invocation.send walletSetting canisterTarget arg) s (some textReply) s := by
  rfl

theorem send_wallet (request : Bytes) :
    Gives (Invocation.send walletSetting walletTarget request) s (some walletReply) s := by
  rfl

theorem counter_wallet {n : Nat} (h : s.world = n + 1) :
    Gives (Invocation.counter (walletAgent textReply walletReply) someWallet) s (some (.whole 0))
      { s with world := n } := by
  have hread : decodeArgs [68, 73, 68, 76, 0, 1, 116, 0, 0, 0, 0, 0, 0, 0, 0] =
      .ok [.int .int64 0] := by cbv
  have halign : Wire.alignValue [] (.int .int64 0) .int64 = .ok (.int .int64 0) :=
    Wire.alignValue_of_leaf (Scope.resolve_prim _ _) rfl rfl
  have hdecode : decodeAs [] [68, 73, 68, 76, 0, 1, 116, 0, 0, 0, 0, 0, 0, 0, 0] [.int64] =
      .ok [.int .int64 0] := by
    simp only [decodeAs, hread, Attempt.ok_bind, Wire.alignAll, halign]
    rfl
  refine Wallet.counter_of_reply ?_ hdecode rfl
  rw [h]
  rfl

theorem counter_wallet_error (h : s.world = 0) :
    (Invocation.counter (walletAgent textReply walletReply) someWallet).run.run s =
      (.error (.error (.network .noReply (some ⟨someWallet, "__get_cycles"⟩))), s) := by
  have hquery : ((walletAgent textReply walletReply).query s.identity
      (Wallet.counterQuery someWallet)).run.run s.world =
        (.error (.error (.network .noReply (some ⟨someWallet, "__get_cycles"⟩))), s.world) := by
    rw [h]
    rfl
  exact Wallet.counter_of_error hquery

end

theorem targets_found (reads : Nat) : ∃ s₂ s₃,
    Gives (Invocation.target walletSetting someCanister "m") (walletSession reads) canisterTarget s₂ ∧
      Gives (Invocation.target walletSetting someWallet Evaluation.relayMethod) s₂ walletTarget s₃ ∧
      s₃.world = reads := by
  have hknown : (walletSession reads).directory.find? someCanister = some {} := rfl
  obtain ⟨s₂, htarget, hworld⟩ :=
    Invocation.target_of_known (S := walletSetting) "m" hknown
  have hwallet := ((walletSetting.steady_known someWallet countingWallet).target someCanister "m"
    (walletSession reads) rfl).1
  rw [htarget] at hwallet
  obtain ⟨s₃, htarget₃, hworld₃⟩ := Invocation.target_of_known (S := walletSetting)
    Evaluation.relayMethod hwallet
  exact ⟨s₂, s₃, htarget, htarget₃, hworld₃.trans hworld⟩

theorem encode_nothing : canisterTarget.encode [] = .ok [68, 73, 68, 76, 0, 0] := by cbv

theorem returns_walletReply :
    ∃ v, decodeArgs walletReply = .ok [v] ∧ Wallet.Returns textReply v :=
  ⟨_, decodeArgs_walletReply, _, _, _, rfl, by decide, Wire.lookup?_cons_of_same (by decide) []⟩

/-- A call without arguments of the canister, in whatever mode. -/
def callOf (mode : CallMode) : Exp := .call (some ⟨"c", "m"⟩) [] mode

/-- If the wallet's counter can be read twice, the call by way of it gives the text that the direct call
gives. -/
theorem call_by_wallet_agrees_text :
    ∃ s₅ s₆, (evalWithin walletSetting 4 (callOf .send)).run.run (twoCanisters, walletSession 2) =
        (.ok (.text "hi"), (twoCanisters, s₅)) ∧
      (evalWithin walletSetting 4 (callOf (.proxy "w"))).run.run (twoCanisters, walletSession 2) =
        (.ok (.text "hi"), (twoCanisters, s₆)) := by
  obtain ⟨s₂, s₃, htarget, hwallet, hreads⟩ := targets_found 2
  have hargs : Gives (([] : List Exp).mapM (evalWithin walletSetting 3))
      (twoCanisters, walletSession 2) [] (twoCanisters, walletSession 2) := rfl
  obtain ⟨request, -, -, hagree⟩ := Evaluation.call_by_wallet_agrees (m := ⟨"c", "m"⟩) (le_refl 3)
    (walletSession_ordered 2) hargs canister_c htarget rfl encode_nothing ⟨s₂, send_canister s₂ _⟩ canister_w hwallet
    walletTarget_relays
  have hreplied : Wallet.Replied walletSetting walletTarget request s₃ walletReply
      { s₃ with world := 0 } :=
    .measured rfl rfl (counter_wallet s₃ hreads) (send_wallet _ request) (counter_wallet _ rfl) rfl
  obtain ⟨v, hread, hv⟩ := returns_walletReply
  obtain ⟨n, n', s₅, s₆, hdirect, hproxy, -⟩ := hagree walletReply v _ hreplied hread hv
  have hdecode : canisterTarget.decode textReply = .ok (.text "hi") := by cbv
  rw [hdecode] at hdirect hproxy
  exact ⟨s₅, s₆, hdirect, hproxy⟩

/-- If it can be read only once, the direct call gives the text, and the wallet replies to every request
with a success and the bytes of the text; but the call by way of the wallet fails. -/
theorem call_by_wallet_differs :
    (∀ info, (walletSession 1).directory.find? someWallet = some info → info.scope.Ordered) ∧
      Wallet.Relays walletTarget .nat64 ∧ canisterTarget.info.countsCycles = false ∧
      (∀ arg s, Gives (Invocation.send walletSetting canisterTarget arg) s (some textReply) s) ∧
      (∀ request s, Gives (Invocation.send walletSetting walletTarget request) s (some walletReply) s) ∧
      (∃ v, decodeArgs walletReply = .ok [v] ∧ Wallet.Returns textReply v) ∧
      ((evalWithin walletSetting 4 (callOf .send)).run.run (twoCanisters, walletSession 1)).1 =
        .ok (.text "hi") ∧
      ((evalWithin walletSetting 4 (callOf (.proxy "w"))).run.run (twoCanisters, walletSession 1)).1 =
        .error (.error (.network .noReply (some ⟨someWallet, "__get_cycles"⟩))) := by
  obtain ⟨s₂, s₃, htarget, hwallet, hreads⟩ := targets_found 1
  let self : Engine Nat := ⟨evalWithin walletSetting 3, runWithin walletSetting 3⟩
  have hargs : Gives (([] : List Exp).mapM self.eval) (twoCanisters, walletSession 1) []
      (twoCanisters, walletSession 1) := rfl
  refine ⟨walletSession_ordered 1, walletTarget_relays, rfl, fun arg s => send_canister s arg,
    fun request s => send_wallet s request, returns_walletReply, ?_, ?_⟩
  · have hcall := Evaluation.run_call_plain (S := walletSetting) (t := canisterTarget) rfl
      (send_canister s₂ [68, 73, 68, 76, 0, 0])
    obtain ⟨n, s₅, hdirect, -⟩ :=
      Evaluation.run_fresh (Gives.run_toRunning hcall twoCanisters)
    rw [← Evaluation.run_call_send (m := ⟨"c", "m"⟩) hargs canister_c htarget encode_nothing] at hdirect
    have hdecode : canisterTarget.decode textReply = .ok (.text "hi") := by cbv
    rw [hdecode] at hdirect
    exact congrArg (·.1) hdirect
  · obtain ⟨request, hrequest, -⟩ := walletTarget_relays.exists_request countingWallet_ordered someCanister "m"
      [68, 73, 68, 76, 0, 0]
    have hcall := Wallet.call_of_counter_error (S := walletSetting) (t := walletTarget) rfl rfl
      (counter_wallet s₃ hreads) (send_wallet _ request) (counter_wallet_error _ rfl)
    have hmsg := Env.lookup_bind twoCanisters "_msg" (.blob [68, 73, 68, 76, 0, 0])
    have hrelay := Evaluation.run_relay 0 hmsg hwallet hrequest
    rw [Gives.run_bind_of_error (Gives.run_toRunning hcall _)] at hrelay
    have hproxy : (Evaluation.proxy self "w" ⟨"c", "m"⟩ [68, 73, 68, 76, 0, 0]).run.run
        (twoCanisters, s₂) = _ :=
      Evaluation.run_proxy_of_error canister_c canister_w hrelay
    have hstep : evalWithin walletSetting 4 (callOf (.proxy "w")) =
        Evaluation.call walletSetting self (some ⟨"c", "m"⟩) [] (.proxy "w") := rfl
    have hcalled := Evaluation.run_call_proxy (m := ⟨"c", "m"⟩) hargs canister_c htarget encode_nothing
      "w"
    rw [hstep, hcalled, hproxy]

end CanisterShell
