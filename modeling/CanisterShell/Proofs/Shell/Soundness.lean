import CanisterShell.Proofs.Shell.Keeping
import CanisterShell.Proofs.Shell.Results
import CanisterShell.Proofs.Syntax.Sound
import CanisterShell.Proofs.Table

/-!
# What sessions hold

However many scripts are run and whatever an agent replies, the variables of a shell have different
names that a script can write, and their values are proper (`Shell.Reachable.sound`).  Every command keeps
this, whether it fails or not, since its tree is sound and expressions of sound trees give proper
values; what selectors bind besides, under the empty name, they bind in a child.
-/

namespace CanisterShell

open Candid Syntax
open Value (Proper)
open Doing (gives_any)

/-! ## Environments -/

/-- A function whose parameters are plain names and whose commands are sound. -/
structure Function.Sound (f : Function) : Prop where
  params : ∀ p ∈ f.params, IsPlainName p
  body : ∀ c ∈ f.body, c.Sound

/-- An environment whose variables have different names in `P` and proper values, and whose functions
are sound. -/
structure Env.Sound (P : String → Prop) (env : Env) : Prop where
  distinct : (env.vars.map (·.1)).Nodup
  name : ∀ b ∈ env.vars, P b.1
  proper : ∀ b ∈ env.vars, b.2.Proper
  functions : ∀ f ∈ env.functions, f.2.Sound

namespace Env.Sound

variable {P Q : String → Prop} {env : Env}

theorem imp (h : env.Sound P) (hPQ : ∀ name, P name → Q name) : env.Sound Q :=
  { h with name := fun b hb => hPQ b.1 (h.name b hb) }

theorem bind (h : env.Sound P) {name : String} (hname : P name) {v : Value} (hv : v.Proper) :
    (env.bind name v).Sound P where
  distinct := Table.nodup_put h.distinct
  name b hb := by
    obtain rfl | hb := Table.mem_put hb
    · exact hname
    · exact h.name b hb
  proper b hb := by
    obtain rfl | hb := Table.mem_put hb
    · exact hv
    · exact h.proper b hb
  functions := h.functions

theorem find? (h : env.Sound P) {name : String} {v : Value} (hv : env.vars.find? name = some v) :
    v.Proper := h.proper _ (Table.mem_of_find?_eq_some hv)

theorem without (h : env.Sound P) (name : String) :
    Env.Sound P { env with vars := env.vars.without name } where
  distinct := h.distinct.sublist (List.filter_sublist.map _)
  name b hb := h.name b (Table.mem_of_mem_without hb)
  proper b hb := h.proper b (Table.mem_of_mem_without hb)
  functions := h.functions

theorem bindAll (h : env.Sound P) {bindings : List (String × Value)}
    (hb : ∀ b ∈ bindings, P b.1 ∧ b.2.Proper) :
    (bindings.foldl (fun e b => e.bind b.1 b.2) env).Sound P := by
  induction bindings generalizing env with
  | nil => exact h
  | cons b bindings ih =>
    obtain ⟨hb, hrest⟩ := List.forall_mem_cons.mp hb
    exact ih (h.bind hb.1 hb.2) hrest

end Env.Sound

/-- The names that a script can write are all in a set of names. -/
def Admits (P : String → Prop) : Prop := ∀ name, IsPlainName name → P name

def Holds {σ : Type} (P : String → Prop) (state : Env × Session σ) : Prop := state.1.Sound P

section

variable {σ α : Type} {P : String → Prop}

theorem holds_env : Keeps (Holds (σ := σ) P) Running.env (Env.Sound P) :=
  Keeps.env.imp fun _ ⟨_, h⟩ => h

theorem holds_doing {act : Doing σ α} {Q : α → Prop} (h : Doing.Gives act Q) :
    Keeps (Holds P) act.toRunning Q :=
  Keeps.toRunning fun _ s hs => ⟨hs, (h s trivial).2⟩

theorem holds_any (act : Doing σ α) : Keeps (Holds P) act.toRunning := holds_doing (gives_any act)

theorem holds_bind {name : String} (hname : P name) {v : Value} (hv : v.Proper) :
    Keeps (Holds (σ := σ) P) (Running.modifyEnv (Env.bind name v)) :=
  Keeps.modifyEnv fun _ _ hs => hs.bind hname hv

theorem holds_inChild {P' : String → Prop} {f : Env → Env} {act : Running σ α} {Q : α → Prop}
    (h : Keeps (Holds P') act Q) (hin : ∀ env, env.Sound P → (f env).Sound P') :
    Keeps (Holds P) (Running.inChild f act) Q :=
  Keeps.inChild h (fun env _ hs => hin env hs) fun _ _ _ _ hs _ => hs

end

section

variable {σ : Type}

structure Engine.Sound (engine : Engine σ) : Prop where
  -- for any set of names, since where a selector binds elements it calls the engine back
  eval {P : String → Prop} (hP : Admits P) {e : Exp} (he : e.Sound) :
    Keeps (Holds P) (engine.eval e) Proper
  run {P : String → Prop} (hP : Admits P) {c : Command} (hc : c.Sound) :
    Keeps (Holds P) (engine.run c)

theorem Engine.Sound.block {self : Engine σ} (h : self.Sound) {P : String → Prop} (hP : Admits P)
    {commands : List Command} (hc : ∀ c ∈ commands, c.Sound) :
    Keeps (Holds P) (self.block commands) :=
  .forM fun c hmem => (h.run hP (hc c hmem)).andThen fun _ => .done

/-! ## Selectors -/

namespace Selection

/-- The names that may be bound where elements are. -/
def WithElement (P : String → Prop) (name : String) : Prop := name = "" ∨ P name

variable {eval : Exp → Running σ Value}
  (h : ∀ {P : String → Prop}, Admits P → ∀ {e : Exp}, e.Sound → Keeps (Holds P) (eval e) Proper)
  {P : String → Prop} (hP : Admits P)
include h hP

theorem holds_applyTo (function : String) {v : Value} (hv : v.Proper) :
    Keeps (Holds (WithElement P)) (applyTo eval function v) Proper := by
  refine (holds_bind (.inl rfl) hv).andThen fun _ => h (fun name hname => .inr (hP name hname)) ?_
  exact .apply function (List.forall_mem_singleton.mpr (.path "" nofun))

theorem holds_keeps (function : String) {v : Value} (hv : v.Proper) :
    Keeps (Holds (WithElement P)) (keeps eval function v) := by
  refine (holds_applyTo h hP function hv).outcome.andThen fun r => ?_
  split
  · exact .done
  · exact .done
  · exact .done

theorem holds_accumulate (function : String) {acc v : Value} (hacc : acc.Proper) (hv : v.Proper) :
    Keeps (Holds (WithElement P)) (accumulate eval function acc v) Proper := by
  have hunder : WithElement P "_" := .inr (hP "_" ⟨by decide, by decide⟩)
  refine Keeps.andThen (Keeps.modifyEnv fun _ _ hs => (hs.bind (.inl rfl) hv).bind hunder hacc)
    fun _ => h (fun name hname => .inr (hP name hname)) ?_
  refine .apply function (List.forall_mem_cons.mpr ⟨.path "_" nofun, ?_⟩)
  exact List.forall_mem_singleton.mpr (.path "" nofun)

theorem holds_step {v : Value} (hv : v.Proper) {s : Selector} (hs : s.Sound) :
    Keeps (Holds P) (step eval v s) Proper := by
  have elements : Keeps (Holds (σ := σ) P) (liftM (elementsFor s v)) (∀ w ∈ ·, w.Proper) :=
    .attempt (elementsFor_proper s hv)
  have child {α : Type} {act : Running σ α} {Q : α → Prop}
      (hact : Keeps (Holds (WithElement P)) act Q) : Keeps (Holds P) (Running.inChild id act) Q :=
    holds_inChild hact fun _ henv => henv.imp fun _ => .inr
  unfold step
  split
  case h_1 =>
    cases hv with
    | opt hv => exact .pure hv
  case h_2 => exact .throw _
  case h_3 => exact .throw _
  case h_4 => exact .attempt (fieldOf_proper _ hv _)
  case h_5 =>
    cases hs with
    | index he =>
      split
      · exact (h hP he).andThen fun key => .attempt (fieldAt_proper _ hv key)
      · exact (h hP he).andThen fun key => .attempt (fieldAt_proper _ hv key)
      · split
        case h_1 hi =>
          exact (h hP he).andThen fun index => .attempt (itemAt_proper (items?_proper hv hi) index)
        case h_2 => exact .throw _
  case h_6 => exact elements.andThen fun items => .pure (Value.nat_proper _)
  case h_7 function =>
    refine elements.bind fun items hitems => ?_
    have mapped := Keeps.mapM fun v (hmem : v ∈ items) => holds_applyTo h hP function (hitems v hmem)
    exact (child mapped).bind fun ws hws => .attempt (rebuild_proper _ hws)
  case h_8 function =>
    refine elements.bind fun items hitems => ?_
    have filtered := Keeps.filterM
      (fun v (hmem : v ∈ items) => holds_keeps h hP function (hitems v hmem)) hitems
    exact (child filtered).bind fun ws hws => .attempt (rebuild_proper _ hws)
  case h_9 start function =>
    cases hs with
    | fold _ hstart =>
      refine elements.bind fun items hitems => (h hP hstart).bind fun acc hacc => child ?_
      exact .foldlM (fun acc hacc v hmem => holds_accumulate h hP function hacc (hitems v hmem)) hacc

theorem holds_walk {v : Value} (hv : v.Proper) {selectors : List Selector}
    (hs : ∀ s ∈ selectors, s.Sound) : Keeps (Holds P) (walk eval v selectors) Proper :=
  .foldlM (fun _ hv s hmem => holds_step h hP hv (hs s hmem)) hv

end Selection

/-! ## Expressions -/

namespace Evaluation

variable {S : Setting σ} {self : Engine σ} (h : self.Sound) {P : String → Prop} (hP : Admits P)

theorem relay_sound (wallet canister : Principal) (method : String) :
    (relay wallet canister method).Sound := by
  refine .call _ _ (List.forall_mem_singleton.mpr (.record ?_))
  refine List.forall_mem_cons.mpr ⟨.path _ nofun, List.forall_mem_cons.mpr ⟨.literal (.number 0), ?_⟩⟩
  exact List.forall_mem_cons.mpr ⟨.literal (.text method),
    List.forall_mem_singleton.mpr (.literal (.principal canister))⟩

theorem relayed_sound (canister : Principal) (method : String) : (relayed canister method).Sound :=
  .decode _ (.path _ (List.forall_mem_cons.mpr
    ⟨.field _, List.forall_mem_singleton.mpr (.field _)⟩))

theorem holds_target (m : Method) : Keeps (Holds P) (target S m) :=
  holds_env.andThen fun _ => (Keeps.attempt_any _).andThen fun _ => holds_any _

include hP in
theorem callee_sound {f : Function} (hf : f.Sound) {args : List Value}
    (hargs : ∀ v ∈ args, v.Proper) {caller : Env} (hcaller : caller.Sound P) :
    (callee f.params args caller).Sound P :=
  (hcaller.without "_").bindAll fun b hb =>
    ⟨hP b.1 (hf.params b.1 (List.of_mem_zip hb).1), hargs b.2 (List.of_mem_zip hb).2⟩

include h hP

theorem holds_callFunction (name : String) {f : Function} (hf : f.Sound) {args : List Value}
    (hargs : ∀ v ∈ args, v.Proper) :
    Keeps (Holds P) (callFunction self name f args) Proper := by
  refine .guarded fun _ => holds_inChild ?_ fun _ => callee_sound hP hf hargs
  -- the result is what the body has left in the variable of results
  refine (h.block hP hf.body).andThen fun _ => holds_env.bind fun env henv => .pure ?_
  cases hv : env.vars.find? "_" with
  | none => exact .null
  | some v => exact henv.find? hv

theorem holds_proxy (wallet : String) (m : Method) (arg : Bytes) :
    Keeps (Holds P) (proxy self wallet m arg) Proper := by
  refine holds_env.andThen fun _ => (Keeps.attempt_any _).andThen fun canister =>
    holds_env.andThen fun _ => (Keeps.attempt_any _).andThen fun wallet => holds_inChild ?_
      fun _ henv => henv.bind (hP "_msg" ⟨by decide, by decide⟩) (.blob arg)
  refine (h.eval hP (relay_sound _ _ _)).bind fun reply hreply => ?_
  exact (holds_bind (hP "_" ⟨by decide, by decide⟩) (Cost.split_proper hreply).1).andThen fun _ =>
    h.eval hP (relayed_sound _ _)

theorem holds_evalAll {es : List Exp} (hes : ∀ e ∈ es, e.Sound) :
    Keeps (Holds P) (es.mapM self.eval) (∀ v ∈ ·, v.Proper) :=
  .mapM fun e he => h.eval hP (hes e he)

theorem holds_callForm (b : Builtin) {args : List Exp} (hargs : ∀ e ∈ args, e.Sound) :
    Keeps (Holds P) (callForm self b args) Proper := by
  unfold callForm
  split
  case h_1 =>
    refine (h.eval hP (hargs _ (.head _))).outcome.andThen fun r => ?_
    cases r with
    | ok v => exact .pure (.bool _)
    | error e => exact .pure (.bool _)
  case h_2 =>
    refine (h.eval hP (hargs _ (.head _))).andThen fun v => (Keeps.attempt_any _).andThen fun b => ?_
    split
    · exact h.eval hP (hargs _ (.tail _ (.head _)))
    · exact h.eval hP (hargs _ (.tail _ (.tail _ (.head _))))
  case h_3 => exact .throw _

theorem holds_fields (next : Nat) {fs : List (Option Label × Exp)} (hfs : ∀ f ∈ fs, f.2.Sound) :
    Keeps (Holds P) (fields self next fs) (∀ f ∈ ·, f.2.Proper) := by
  induction fs generalizing next with
  | nil => exact .pure nofun
  | cons f fs ih =>
    obtain ⟨hf, hfs⟩ := List.forall_mem_cons.mp hfs
    refine (h.eval hP hf).bind fun v hv => (ih _ hfs).bind fun gs hgs => .pure ?_
    exact List.forall_mem_cons.mpr ⟨hv, hgs⟩

theorem holds_failing {e : Exp} (he : e.Sound) : Keeps (Holds P) (failing self e) Proper := by
  refine (h.eval hP he).outcome.andThen fun r => ?_
  cases r with
  | ok v => exact .throw _
  | error e => exact .pure (.text _)

theorem holds_apply (name : String) {args : List Exp} (hargs : ∀ e ∈ args, e.Sound) :
    Keeps (Holds P) (apply S self name args) Proper := by
  unfold apply
  split
  case h_1 b _ =>
    split
    · exact .guarded fun _ => holds_callForm h hP b hargs
    · exact (holds_evalAll h hP hargs).bind fun values hvalues => .guarded fun _ =>
        holds_env.andThen fun _ => holds_doing (callBuiltin_proper _ b hvalues)
  case h_2 =>
    refine holds_env.bind fun env henv => ?_
    split
    case h_1 f hf =>
      exact (holds_evalAll h hP hargs).bind fun _ hvalues =>
        holds_callFunction h hP name (henv.functions _ (Table.mem_of_find?_eq_some hf)) hvalues
    case h_2 => exact .throw _

theorem holds_call (method? : Option Method) {args : List Exp} (hargs : ∀ e ∈ args, e.Sound)
    (mode : CallMode) : Keeps (Holds P) (call S self method? args mode) Proper := by
  refine (holds_evalAll h hP hargs).andThen fun values => ?_
  cases method? with
  | none => exact (Keeps.attempt_any _).andThen fun _ => .pure (.blob _)
  | some m =>
    refine (holds_target m).andThen fun t => (Keeps.attempt_any _).andThen fun arg => ?_
    cases mode with
    | encode => exact .pure (.blob arg)
    | proxy wallet => exact holds_proxy h hP wallet m arg
    | send =>
      exact holds_doing ((Invocation.call_proper t arg).bind fun v hv => Doing.fresh_proper hv)

theorem holds_decode (method? : Option Method) {blob : Exp} (hblob : blob.Sound) :
    Keeps (Holds P) (decode S self method? blob) Proper := by
  refine (h.eval hP hblob).andThen fun v => ?_
  split
  case h_1 => exact .throw _
  case h_2 bytes _ =>
    cases method? with
    | none =>
      exact (Keeps.attempt (decodeArgs_proper bytes)).bind fun _ hvs =>
        (Keeps.pure (Value.ofResults_proper hvs)).bind fun _ hv =>
          holds_doing (Doing.fresh_proper hv)
    | some m =>
      exact (holds_target m).andThen fun t =>
        (Keeps.attempt (Invocation.decode_proper t bytes)).bind fun _ hv =>
          holds_doing (Doing.fresh_proper hv)

theorem holds_step {e : Exp} (he : e.Sound) : Keeps (Holds P) (step S self e) Proper := by
  cases he with
  | literal hv => exact holds_doing (Doing.fresh_proper hv)
  | path name hs =>
    refine holds_env.bind fun env henv => ?_
    refine (Keeps.attempt (x := env.lookup name) fun v hv => ?_).bind fun v hv =>
      Selection.holds_walk h.eval hP hv hs
    unfold Env.lookup at hv
    split at hv
    case h_1 hfind =>
      cases hv
      exact henv.find? hfind
    case h_2 => cases hv
  | opt he => exact (h.eval hP he).bind fun _ hv => .pure (.opt hv)
  | vec hes => exact (holds_evalAll h hP hes).bind fun _ hvs => .pure (.vec hvs)
  | record hfs =>
    exact (holds_fields h hP 0 hfs).bind fun _ hfs => .attempt (Value.mkRecord_proper hfs)
  | variant label he => exact (h.eval hP he).bind fun _ hv => .pure (.variant label 0 hv)
  | annotated t he =>
    exact (h.eval hP he).andThen fun v => (Keeps.attempt (Value.cast_proper [] v t)).bind
      fun _ hw => holds_doing (Doing.fresh_proper hw)
  | apply name hargs => exact holds_apply h hP name hargs
  | call method? mode hargs => exact holds_call h hP method? hargs mode
  | decode method? hblob => exact holds_decode h hP method? hblob
  | fail he => exact holds_failing h hP he

end Evaluation

/-! ## Commands -/

namespace Execution

variable {S : Setting σ} {self : Engine σ} (h : self.Sound) {P : String → Prop} (hP : Admits P)

theorem holds_path (text : String) : Keeps (Holds P) (path S text) :=
  holds_env.andThen fun _ => .done

theorem holds_configure (source : String) : Keeps (Holds P) (configure (σ := σ) source) :=
  Keeps.get.andThen fun _ => (Keeps.attempt_any _).andThen fun _ =>
    (Keeps.attempt_any _).andThen fun _ => Keeps.modifyEnv fun _ _ hs => { hs with }

theorem holds_display (topic : Topic) (message : String) :
    Keeps (Holds P) (display (σ := σ) topic message) := holds_any _

theorem variableName_plain {name : String} (h : IsPlainName name) :
    IsPlainName (Cost.variableName name) := by
  have hchars : name.toList.all isNameChar := by
    have hid := h.1
    rw [isIdentifier] at hid
    split at hid
    case h_1 => cases hid
    case h_2 c rest hname =>
      obtain ⟨hc, hrest⟩ := Bool.and_eq_true_iff.mp hid
      rw [hname, List.all_cons, isNameChar_of_isNameStart hc, hrest]
      rfl
  have hshape : (Cost.variableName name).toList = '_' :: ("_cost_".toList ++ name.toList) := by
    simp [Cost.variableName, Cost.fieldName]
  constructor
  · rw [isIdentifier, hshape]
    dsimp only
    rw [List.all_append, hchars]
    decide
  · -- no keyword begins with an underscore
    have hkeywords : scriptGrammar.lexicon.keywords.all (·.toList.head? ≠ some '_') = true := by
      decide
    rw [Bool.eq_false_iff, ne_eq, List.contains_iff_mem]
    intro hmem
    have := List.all_eq_true.mp hkeywords _ hmem
    rw [hshape, List.head?_cons] at this
    exact absurd this (by decide)

include hP

theorem holds_takeCost {name : String} (hname : IsPlainName name) (e : Exp) {v : Value}
    (hv : v.Proper) (shown : Bool) :
    Keeps (Holds (σ := σ) P) (takeCost name e v shown) Proper := by
  obtain ⟨hresult, hcost⟩ := Cost.split_proper hv
  unfold takeCost
  split
  · exact .pure hv
  · split
    case h_1 hsplit =>
      rw [hsplit] at hresult
      exact .pure hresult
    case h_2 cost hsplit =>
      rw [hsplit] at hresult hcost
      have hname' := hP _ (variableName_plain hname)
      refine (holds_bind hname' (hcost cost rfl)).andThen fun _ => ?_
      split
      · exact (holds_display _ _).andThen fun _ => .pure hresult
      · exact .pure hresult

theorem holds_bindResult {name : String} (hname : IsPlainName name) (e : Exp) {v : Value}
    (hv : v.Proper) (shown : Bool) :
    Keeps (Holds (σ := σ) P) (bindResult name e v shown) := by
  refine (holds_takeCost hP hname e hv shown).bind fun v hv => ?_
  dsimp only
  split
  · exact (holds_display _ _).andThen fun _ => (holds_bind (hP name hname) hv).andThen fun _ => .done
  · exact (holds_bind (hP name hname) hv).andThen fun _ => .done

theorem holds_importCanister {name : String} (hname : IsPlainName name) (canister : String)
    (file? : Option String) : Keeps (Holds P) (importCanister S name canister file?) := by
  refine holds_env.andThen fun _ => (Keeps.attempt_any _).andThen fun p => ?_
  split
  · exact (holds_path _).andThen fun _ => (holds_any _).andThen fun _ =>
      holds_bind (hP name hname) (.principal p)
  · exact holds_bind (hP name hname) (.principal p)

omit hP in
theorem holds_saveTo (text : String) : Keeps (Holds P) (saveTo S text) := by
  refine (holds_path text).andThen fun file => holds_env.andThen fun _ => ?_
  refine (holds_any _).andThen fun failure? => ?_
  split
  · exact .throw _
  · exact .done

include h

theorem holds_evaluate {e : Exp} (he : e.Sound) : Keeps (Holds P) (evaluate S self e) :=
  (holds_any _).andThen fun _ => (h.eval hP he).bind fun _ hv =>
    (holds_bindResult hP ⟨by decide, by decide⟩ e hv true).andThen fun _ =>
      (holds_any _).andThen fun _ => (holds_display _ _).andThen fun _ => .done

theorem holds_assertion (op : String) {left right : Exp} (hl : left.Sound) (hr : right.Sound) :
    Keeps (Holds P) (assertion self op left right) :=
  (h.eval hP hl).andThen fun _ => (h.eval hP hr).andThen fun _ =>
    (Keeps.attempt_any _).andThen fun _ => .guarded fun _ => .done

theorem holds_useIdentity {name : String} (hname : IsPlainName name) {source? : Option Exp}
    (hs : ∀ e, source? = some e → e.Sound) : Keeps (Holds P) (useIdentity S self name source?) := by
  have used (identity : Identity) : Keeps (Holds P)
      (modify fun state => (state.1, state.2.use name identity) : Running σ Unit) :=
    .modify fun _ hs => hs
  have use (identity : Identity) : Keeps (Holds P) (do
      modify fun state => (state.1, state.2.use name identity)
      display .output ("Current identity " ++ identity.sender.toText)
      bindVar name (.principal identity.sender) : Running σ Unit) :=
    (used identity).andThen fun _ => (holds_display _ _).andThen fun _ =>
      holds_bind (hP name hname) (.principal _)
  unfold useIdentity
  split
  · exact (holds_any _).andThen use
  · exact (h.eval hP (hs _ rfl)).andThen fun _ => holds_env.andThen fun _ =>
      (holds_any _).andThen use

theorem holds_echoed (prepared : List Char) {commands : List Command}
    (hc : ∀ c ∈ commands, c.Sound) : Keeps (Holds P) (echoed self prepared commands) :=
  .forM fun c hmem => (holds_display _ _).andThen fun _ => (h.run hP (hc c hmem)).andThen fun _ =>
    .done

theorem holds_loadFrom (text : String) : Keeps (Holds P) (loadFrom S self text) := by
  refine (holds_path text).andThen fun file => (holds_any _).andThen fun r => ?_
  split
  · exact .throw _
  · refine (Keeps.attempt_any _).andThen fun prepared => ?_
    refine (Keeps.attempt (readCommands_sound prepared)).bind fun commands hc => ?_
    refine holds_env.andThen fun _ =>
      Keeps.andThen (Keeps.modifyEnv fun _ _ hs => { hs with }) fun _ => ?_
    exact (holds_echoed h hP prepared hc).afterwards fun _ _ hs => { hs with }

theorem holds_condition (keyword : String) {cond : Exp} (hcond : cond.Sound) :
    Keeps (Holds P) (condition self keyword cond) := by
  refine (h.eval hP hcond).andThen fun v => ?_
  split
  · exact .done
  · exact .throw _

theorem holds_step {c : Command} (hc : c.Sound) : Keeps (Holds P) (step S self c) := by
  cases hc with
  | mk span ha =>
    unfold step
    cases ha with
    | bind hname he =>
      exact (h.eval hP he).bind fun _ hv => (holds_bindResult hP hname _ hv false).andThen fun _ =>
        .done
    | evaluate he => exact (holds_evaluate h hP he).andThen fun _ => .done
    | assertion op hl hr => exact (holds_assertion h hP op hl hr).andThen fun _ => .done
    | importCanister canister interface? hname =>
      exact (holds_importCanister hP hname canister interface?).andThen fun _ => .done
    | configure source => exact (holds_configure source).andThen fun _ => .done
    | useIdentity hname hs => exact (holds_useIdentity h hP hname hs).andThen fun _ => .done
    | saveTo path => exact (holds_saveTo path).andThen fun _ => .done
    | loadFrom path => exact (holds_loadFrom h hP path).andThen fun _ => .done
    | define name hparams hbody =>
      refine Keeps.andThen (Keeps.modifyEnv fun env _ hs => { hs with functions := ?_ }) fun _ =>
        .done
      intro f hf
      obtain rfl | hf := Table.mem_put hf
      · exact ⟨hparams, hbody⟩
      · exact hs.functions f hf
    | branch hcond hyes hno =>
      refine (holds_condition h hP _ hcond).andThen fun b => ?_
      split
      · exact (h.block hP hyes).andThen fun _ => .done
      · exact (h.block hP hno).andThen fun _ => .done
    | loop hcond hbody =>
      refine (holds_condition h hP _ hcond).andThen fun b => ?_
      split
      · exact (h.block hP hbody).andThen fun _ => h.run hP (.mk span (.loop hcond hbody))
      · exact .done

end Execution

/-! ## Runs -/

theorem sound_within (S : Setting σ) (depth : Nat) :
    Engine.Sound ⟨evalWithin S depth, runWithin S depth⟩ := by
  -- a step calls back the engine of the depth below
  induction depth with
  | zero =>
    constructor
    · intro P hP e he
      exact .throw _
    · intro P hP c hc
      exact .throw _
  | succ depth ih =>
    constructor
    · intro P hP e he
      exact Evaluation.holds_step ih hP he
    · intro P hP c hc
      exact Execution.holds_step ih hP hc

end

theorem shellKeeping_holds {σ : Type} (S : Setting σ) {P : String → Prop} (hP : Admits P) :
    Shell.Keeping S (Holds P) where
  shown _ _ _ _ h := h
  cleared _ _ h := h
  command source commands hparse c hc :=
    (sound_within S mostDepth).run hP (parseCommands_sound S.environ source commands hparse c hc)

/-- Whatever a shell has been given, its variables have different names that a script can write, and
their values are proper. -/
theorem Shell.Reachable.sound {σ : Type} {S : Setting σ} {sh : Shell σ} (h : sh.Reachable S) :
    sh.env.Sound IsPlainName := by
  obtain ⟨world, disk, base, inputs, rfl⟩ := h
  exact (shellKeeping_holds S fun _ h => h).respondAll inputs _
    { distinct := .nil, name := nofun, proper := nofun, functions := nofun }

end CanisterShell
