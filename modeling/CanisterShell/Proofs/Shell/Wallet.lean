import CanisterShell.Proofs.Candid.Conveyed
import CanisterShell.Proofs.Shell.Discovery
import CanisterShell.Proofs.Shell.Relaying

/-!
# Requests to wallets and their replies

A wallet whose interface is known takes requests of one type and replies to them with values of
another, both by names or as such; of one whose interface is not known the request is encoded by what
it shows.  Either way the request that is sent can be encoded, and says to whoever reads it what is to
be called with what (`Relays.exists_request`).  A reply of success is decoded to a value that holds the
bytes that were returned (`Relays.decode_reply`), and keeps them when costs are split off and numbers
are given (`Replied.call_gives`).
-/

namespace CanisterShell.Wallet

open Candid Candid.Wire
open List (Forall₂)
open Evaluation (relayRecord)

/-! ## Types -/

section

variable (scope : Scope)

def IsBlob (t : Ty) : Prop := ∃ item, scope.resolve t = .ok (.vec item) ∧ scope.resolve item = .ok .nat8

/-- A type of requests, with the kind of its number of cycles. -/
inductive IsRequest (kind : IntKind) (t : Ty) : Prop where
  | intro {args cycles method canister : Ty}
      (ht : scope.resolve t = .ok (.record [(.named "args", args), (.named "cycles", cycles),
        (.named "method_name", method), (.named "canister", canister)]))
      (hargs : IsBlob scope args) (hcycles : scope.resolve cycles = .ok (.prim (.int kind)))
      (hmethod : scope.resolve method = .ok .text)
      (hcanister : scope.resolve canister = .ok .principal)

/-- A type of replies: what has been returned, or an error. -/
inductive IsReply (t : Ty) : Prop where
  | intro {ok error returned : Ty}
      (ht : scope.resolve t = .ok (.variant [(.named "Ok", ok), (.named "Err", error)]))
      (hok : scope.resolve ok = .ok (.record [(.named "return", returned)]))
      (hreturned : IsBlob scope returned) (herror : scope.resolve error = .ok .text)

end

/-- What is known of a wallet's method: nothing, or that it takes requests and gives replies. -/
inductive Relays (t : Invocation.Target) : IntKind → Prop where
  | unknown (h : t.signature? = none) : Relays t .nat
  | known {kind : IntKind} {arg result : Ty} {modes : List Mode}
      (h : t.signature? = some ⟨[arg], [result], modes⟩) (harg : IsRequest t.info.scope kind arg)
      (hresult : IsReply t.info.scope result) : Relays t kind

/-! ## Requests -/

/-- A request as a wallet reads it. -/
def request (kind : IntKind) (canister : Principal) (method : String) (arg : Bytes) : Value :=
  .record [(.numbered (Label.named "args").id, .blob arg),
    (.numbered (Label.named "cycles").id, .int kind 0),
    (.numbered (Label.named "method_name").id, .text method),
    (.numbered (Label.named "canister").id, .principal canister)]

theorem ascending_request {α : Type} (a b c d : α) : Ascending [(Label.named "args", a),
    (.named "cycles", b), (.named "method_name", c), (.named "canister", d)] := by
  have h : Ascending [(Label.named "args", ()), (.named "cycles", ()), (.named "method_name", ()),
      (.named "canister", ())] := by decide
  exact h.of_ids rfl

section

variable {scope : Scope} {kind : IntKind} {t : Ty}

theorem IsBlob.ordered (h : IsBlob scope t) : t.Ordered := by
  obtain ⟨item, ht, hitem⟩ := h
  exact .of_resolve ht (.vec (.of_resolve hitem (.prim _)))

theorem IsBlob.resolves (h : IsBlob scope t) : Resolves scope t := by
  obtain ⟨item, ht, hitem⟩ := h
  exact .of_parts ht (.vec (.of_prim hitem))

theorem IsRequest.ordered (h : IsRequest scope kind t) : t.Ordered := by
  obtain ⟨ht, hargs, hcycles, hmethod, hcanister⟩ := h
  refine .of_resolve ht (.record (ascending_request _ _ _ _) ?_)
  simp only [List.forall_mem_cons, List.not_mem_nil, false_imp_iff, implies_true, and_true]
  exact ⟨hargs.ordered, .of_resolve hcycles (.prim _), .of_resolve hmethod (.prim _),
    .of_resolve hcanister (.prim _)⟩

theorem IsRequest.resolves (h : IsRequest scope kind t) : Resolves scope t := by
  obtain ⟨ht, hargs, hcycles, hmethod, hcanister⟩ := h
  refine .of_parts ht (.record ?_)
  simp only [List.forall_mem_cons, List.not_mem_nil, false_imp_iff, implies_true, and_true]
  exact ⟨hargs.resolves, .of_prim hcycles, .of_prim hmethod, .of_prim hcanister⟩

theorem zero_holds (kind : IntKind) : kind.holds 0 := by
  cases kind <;> decide

theorem IsRequest.conveyed (h : IsRequest scope kind t) (canister : Principal) (method : String)
    (arg : Bytes) :
    Conveyed scope t (relayRecord canister method arg) (request kind canister method arg) := by
  obtain @⟨argsTy, cyclesTy, methodTy, canisterTy, ht, ⟨item, hargs, hitem⟩, hcycles, hmethod,
    hcanister⟩ := h
  obtain ⟨bytes, hbytes⟩ := exists_integerBytes (zero_holds kind)
  have hblob := Conveyed.blob hargs hitem arg
  have hnumber : Conveyed scope _ (.number 0) (.int kind 0) :=
    .leaf (v := .number 0) hcycles rfl hbytes
  have htext : Conveyed scope _ (.text method) (.text method) :=
    .leaf (v := .text method) hmethod rfl rfl
  have hprincipal : Conveyed scope _ (.principal canister) (.principal canister) :=
    .leaf (v := .principal canister) hcanister rfl rfl
  have hfields : Forall₂ (fun (e : Label × Ty) (f : Label × Value × Value) =>
      f.1 = e.1 ∧ Conveyed scope e.2 f.2.1 f.2.2)
      [(.named "args", argsTy), (.named "cycles", cyclesTy), (.named "method_name", methodTy),
        (.named "canister", canisterTy)]
      [(.named "args", .blob arg, .blob arg), (.named "cycles", .number 0, .int kind 0),
        (.named "method_name", .text method, .text method),
        (.named "canister", .principal canister, .principal canister)] :=
    .cons ⟨rfl, hblob⟩ <| .cons ⟨rfl, hnumber⟩ <| .cons ⟨rfl, htext⟩ <| .cons ⟨rfl, hprincipal⟩ .nil
  exact .record ht (ascending_request _ _ _ _) hfields

theorem isRequest_ty (canister : Principal) (method : String) (arg : Bytes) :
    IsRequest [] .nat (relayRecord canister method arg).ty :=
  .intro (Scope.resolve_of_ne_var nofun)
    ⟨.nat8, Scope.resolve_of_ne_var nofun, Scope.resolve_prim _ _⟩ (Scope.resolve_prim _ _)
    (Scope.resolve_prim _ _) (Scope.resolve_prim _ _)

/-- The request can be encoded, and says what is to be called with what. -/
theorem Relays.exists_request {t : Invocation.Target} (h : Relays t kind)
    (hscope : t.info.scope.Ordered) (canister : Principal) (method : String) (arg : Bytes) :
    ∃ bytes, t.encode [relayRecord canister method arg] = .ok bytes ∧
      decodeArgs bytes = .ok [request kind canister method arg] := by
  cases h with
  | unknown h =>
    have hty := isRequest_ty canister method arg
    rw [Invocation.Target.encode, h]
    exact (hty.conveyed canister method arg).message (List.forall_mem_nil _) hty.ordered hty.resolves
  | known h harg =>
    rw [Invocation.Target.encode, h]
    exact (harg.conveyed canister method arg).message hscope harg.ordered harg.resolves

end

/-! ## Replies -/

theorem same_self (label : Label) : label.same label = true := decide_eq_true rfl

/-- The value is a success with the bytes that were returned. -/
def Returns (r : Bytes) (v : Value) : Prop :=
  ∃ label fields index, v = .variant label (.record fields) index ∧
    label.same (.named "Ok") ∧ lookup? (.named "return") fields = some (.blob r)

namespace Returns

variable {r : Bytes} {v : Value}

theorem split (h : Returns r v) : (Cost.split v).1 = v := by
  obtain ⟨label, fields, index, rfl, -, -⟩ := h
  rfl

theorem fresh (h : Returns r v) (n : Nat) : Returns r (v.fresh n).1 := by
  obtain ⟨label, fields, index, rfl, hok, hreturn⟩ := h
  refine ⟨label, (Value.freshFields n fields).1, index, rfl, hok, ?_⟩
  induction fields generalizing n with
  | nil => cases hreturn
  | cons f fields ih =>
    obtain ⟨l, v⟩ := f
    by_cases hl : l.same (.named "return")
    · rw [lookup?_cons_of_same hl] at hreturn
      cases hreturn
      exact lookup?_cons_of_same hl _
    · rw [lookup?_cons_of_not_same hl] at hreturn
      exact (lookup?_cons_of_not_same hl _).trans (ih _ hreturn)

theorem walk {σ : Type} (h : Returns r v) (eval : Syntax.Exp → Running σ Value)
    (state : Env × Session σ) :
    Gives (Selection.walk eval v [.field (.named "Ok"), .field (.named "return")]) state (.blob r)
      state := by
  obtain ⟨label, fields, index, rfl, hok, hreturn⟩ := h
  have hitem : Selection.fieldOf (.field (.named "Ok")) (.variant label (.record fields) index)
      (.named "Ok") = .ok (.record fields) := if_pos hok
  have hfield : Selection.fieldOf (.field (.named "return")) (.record fields) (.named "return") =
      .ok (.blob r) := by
    rw [Selection.fieldOf, hreturn]
  rw [Selection.walk, List.foldlM_cons]
  exact (Gives.attempt hitem).bind ((Gives.attempt hfield).bind rfl)

theorem align {scope : Scope} {t : Ty} (h : Returns r v) (ht : IsReply scope t) :
    ∃ w, alignValue scope v t = .ok w ∧ Returns r w := by
  obtain ⟨label, fields, index, rfl, hok, hreturn⟩ := h
  obtain @⟨okTy, errorTy, returnedTy, ht, hokTy, ⟨item, hreturned, -⟩, -⟩ := ht
  have hrecord : alignValue scope (.record fields) okTy =
      .ok (.record [(.named "return", .blob r)]) := by
    simp only [alignValue, hokTy, Attempt.ok_bind, alignRecord, fieldAligners_eq_map, lookup?_map,
      hreturn, List.mapM_cons, Option.map_some, hreturned]
    exact Value.mkRecord_of_ascending (List.pairwise_singleton _ (Label.named "return", Value.blob r))
  have hsame : (Label.named "Ok").same label := decide_eq_true (of_decide_eq_true hok).symm
  have hfind : [(Label.named "Ok", okTy), (Label.named "Err", errorTy)].findIdx?
      (fun c => c.1.same label) = some 0 := by
    rw [List.findIdx?_cons, hsame]
    rfl
  refine ⟨.variant (.named "Ok") (.record [(.named "return", .blob r)]) 0, ?_, ?_⟩
  · rw [alignValue_variant ht hfind rfl, hrecord]
    rfl
  · have hfound : lookup? (.named "return") [(Label.named "return", Value.blob r)] =
        some (.blob r) :=
      lookup?_cons_of_same (f := (.named "return", Value.blob r)) (same_self (.named "return")) []
    exact ⟨.named "Ok", _, 0, rfl, same_self (.named "Ok"), hfound⟩

end Returns

/-- A success is decoded as one with the same bytes. -/
theorem Relays.decode_reply {t : Invocation.Target} {kind : IntKind} (h : Relays t kind) {r : Bytes}
    {reply : Bytes} {v : Value} (hreply : decodeArgs reply = .ok [v]) (hv : Returns r v) :
    ∃ w, t.decode reply = .ok w ∧ Returns r w := by
  cases h with
  | unknown h =>
    refine ⟨v, ?_, hv⟩
    rw [Invocation.Target.decode, h]
    simp only [hreply, Attempt.ok_bind]
    rfl
  | known h harg hresult =>
    obtain ⟨w, halign, hw⟩ := hv.align hresult
    refine ⟨w, ?_, hw⟩
    rw [Invocation.Target.decode, h]
    simp only [decodeAs, hreply, Attempt.ok_bind, alignAll, halign]
    rfl

theorem split_fresh_of_attach {v w : Value} {cost : Int} (h : Cost.attach v (.whole cost) = .ok w)
    (n : Nat) :
    (Cost.split (w.fresh n).1).1 = (v.fresh n).1 := by
  obtain ⟨number, hnumber, h⟩ := Attempt.bind_ok_iff.mp h
  rw [Cost.toValue, Value.mkInt] at hnumber
  split at hnumber
  · cases hnumber
    cases h
    rfl
  · cases hnumber

/-! ## Cycle counters -/

section

variable {σ : Type} {agent : Agent σ} {canister : Principal} {s : Session σ} {w : σ}

def counterQuery (canister : Principal) : Call :=
  ⟨canister, Interface.cyclesMethod, [0x44, 0x49, 0x44, 0x4C, 0, 0], canister⟩

theorem counter_of_reply {reply : Bytes} {values : List Value} {count? : Option Numeral}
    (h : Gives (agent.query s.identity (counterQuery canister)) s.world reply w)
    (hdecode : decodeAs [] reply [.int64] = .ok values)
    (hcount : Invocation.counterOf values = .ok count?) :
    Gives (Invocation.counter agent canister) s count? { s with world := w } := by
  exact (Gives.attempt (Directory.queryOf_eq canister Interface.cyclesMethod)).bind <| gives_get.bind <|
    h.perform.bind <| (Gives.attempt hdecode).bind (Gives.attempt hcount)

theorem counter_of_error {f : Failure}
    (h : (agent.query s.identity (counterQuery canister)).run.run s.world = (.error f, w)) :
    (Invocation.counter agent canister).run.run s = (.error f, { s with world := w }) := by
  exact (Gives.attempt (Directory.queryOf_eq canister Interface.cyclesMethod)).run_bind.trans <|
    gives_get.run_bind.trans (Gives.run_bind_of_error (Gives.run_perform_of_error h))

end

/-! ## Calls of wallets -/

section

variable {σ : Type} (S : Setting σ)

/-- A wallet has replied to a request, from one state of the session to another; its cycle counter, if
it is looked at, could be read before and after. -/
inductive Replied (t : Invocation.Target) (request : Bytes) (s : Session σ) (reply : Bytes) :
    Session σ → Prop where
  | plain {s' : Session σ} (hmeasured : Invocation.isMeasured S t = false)
      (h : Gives (Invocation.send S t request) s (some reply) s') : Replied t request s reply s'
  | measured {agent : Agent σ} {before after : Int} {s₁ s₂ s' : Session σ}
      (hmeasured : Invocation.isMeasured S t = true) (hagent : S.agent? = some agent)
      (hbefore : Gives (Invocation.counter agent t.canister) s (some (.whole before)) s₁)
      (h : Gives (Invocation.send S t request) s₁ (some reply) s₂)
      (hafter : Gives (Invocation.counter agent t.canister) s₂ (some (.whole after)) s')
      (hcost : IntKind.int64.holds (after - before)) : Replied t request s reply s'

variable {S}

theorem run_call_measured {t : Invocation.Target} {request : Bytes} {agent : Agent σ}
    {before after : Option Numeral} {reply? : Option Bytes} {s s₁ s₂ s' : Session σ}
    (hmeasured : Invocation.isMeasured S t = true) (hagent : S.agent? = some agent)
    (hbefore : Gives (Invocation.counter agent t.canister) s before s₁)
    (h : Gives (Invocation.send S t request) s₁ reply? s₂)
    (hafter : Gives (Invocation.counter agent t.canister) s₂ after s') :
    (Invocation.call S t request).run.run s = (t.result reply? >>= fun result =>
      Invocation.cyclesBetween before after >>= Cost.attach result, s') := by
  rw [Invocation.call, hmeasured, if_pos rfl, Invocation.callMeasured, hagent]
  refine hbefore.run_bind.trans (h.run_bind.trans (hafter.run_bind.trans ?_))
  cases t.result reply? with
  | error f => rfl
  | ok result => cases Invocation.cyclesBetween before after <;> rfl

/-- The result of a call that a wallet has replied to with a success, up to its cost. -/
theorem Replied.call_gives {t : Invocation.Target} {request reply : Bytes} {s s' : Session σ}
    {r : Bytes} {v : Value} (h : Replied S t request s reply s') (hdecode : t.decode reply = .ok v)
    (hv : Returns r v) :
    ∃ w, Gives (Invocation.call S t request) s w s' ∧
      ∀ n, (Cost.split (w.fresh n).1).1 = (v.fresh n).1 := by
  cases h with
  | plain hmeasured h =>
    refine ⟨v, ?_, fun n => (hv.fresh n).split⟩
    rw [Invocation.call, hmeasured, if_neg Bool.false_ne_true]
    exact h.bind (Gives.attempt hdecode)
  | @measured agent before after s₁ s₂ _ hmeasured hagent hbefore h hafter hcost =>
    obtain ⟨w, hattach⟩ : ∃ w, Cost.attach v (.whole (after - before)) = .ok w := by
      rw [Cost.attach, Cost.toValue, Value.mkInt, if_pos hcost]
      exact ⟨_, rfl⟩
    refine ⟨w, ?_, split_fresh_of_attach hattach⟩
    rw [Gives, run_call_measured hmeasured hagent hbefore h hafter, Invocation.Target.result, hdecode]
    exact congrArg (·, s') hattach

/-- Whatever a wallet replies, its call fails if its counter cannot be read afterwards. -/
theorem call_of_counter_error {t : Invocation.Target} {request : Bytes} {agent : Agent σ}
    {before : Option Numeral} {reply? : Option Bytes} {s s₁ s₂ s' : Session σ} {f : Failure}
    (hmeasured : Invocation.isMeasured S t = true) (hagent : S.agent? = some agent)
    (hbefore : Gives (Invocation.counter agent t.canister) s before s₁)
    (h : Gives (Invocation.send S t request) s₁ reply? s₂)
    (hafter : (Invocation.counter agent t.canister).run.run s₂ = (.error f, s')) :
    (Invocation.call S t request).run.run s = (.error f, s') := by
  rw [Invocation.call, hmeasured, if_pos rfl, Invocation.callMeasured, hagent]
  exact hbefore.run_bind.trans <| h.run_bind.trans (Gives.run_bind_of_error hafter)

end

end CanisterShell.Wallet
