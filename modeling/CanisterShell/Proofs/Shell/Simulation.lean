import CanisterShell.Proofs.Shell.Agreement
import CanisterShell.Proofs.Shell.Heedless
import CanisterShell.Proofs.Shell.Soundness

/-!
# Engines that run alike

An engine is compared with another that runs commands which correspond, in environments that differ
at most in the bodies of functions, and in sessions that differ at most in what has been shown before.
If the engines agree on the parts of a command, they agree on the command
(`Execution.agree_step`), so engines that are built from the same steps agree on everything if they
agree on what they add to the steps.  The comparison may be confined to sound trees and proper values
(`checked`), which evaluation does not leave.
-/

namespace CanisterShell

open Candid Syntax
open Value (Proper)

/-! ## What corresponds -/

/-- Whether a command holds other commands. -/
def Syntax.Action.hasBody : Action → Bool
  | .define .. | .branch .. | .loop .. => true
  | _ => false

/-- Commands do the same if the commands that they hold correspond. -/
inductive Syntax.Action.Alike (checked : Prop) (C : Command → Command → Prop) : Action → Action → Prop
    where
  | flat {a : Action} (ha : a.hasBody = false) (h : checked → a.Sound) : Alike checked C a a
  | define (name : String) (params : List String) {body body' : List Command}
      (h : List.Forall₂ C body body') : Alike checked C (.define name params body)
        (.define name params body')
  | branch {cond : Exp} {yes no yes' no' : List Command} (hcond : checked → cond.Sound)
      (hyes : List.Forall₂ C yes yes') (hno : List.Forall₂ C no no') :
      Alike checked C (.branch cond yes no) (.branch cond yes' no')
  | loop {cond : Exp} {body body' : List Command} (hcond : checked → cond.Sound)
      (h : List.Forall₂ C body body') : Alike checked C (.loop cond body) (.loop cond body')

/-- A correspondence of commands that do the same. -/
structure Corresponds (checked : Prop) (C : Command → Command → Prop) : Prop where
  refl (c : Command) (h : checked → c.Sound) : C c c
  action {c c' : Command} (h : C c c') : c.action.Alike checked C c'.action

/-- Functions of the same parameters whose commands correspond. -/
structure Function.Alike (C : Command → Command → Prop) (f f' : Function) : Prop where
  params : f.params = f'.params
  body : List.Forall₂ C f.body f'.body

/-- Environments that differ at most in the bodies of functions, which correspond. -/
structure Env.Alike (checked : Prop) (C : Command → Command → Prop) (env env' : Env) : Prop where
  vars : env.vars = env'.vars
  functions : List.Forall₂ (fun f f' => f.1 = f'.1 ∧ f.2.Alike C f'.2) env.functions env'.functions
  base : env.base = env'.base
  config : env.config = env'.config
  proper : checked → ∀ b ∈ env.vars, b.2.Proper

/-- States whose environments are alike and whose sessions differ at most in what has been shown
before. -/
def AlikeBehind {σ : Type} (checked : Prop) (C : Command → Command → Prop) (earlier : List Effect)
    (state state' : Env × Session σ) : Prop :=
  state.1.Alike checked C state'.1 ∧ state.2 = state'.2.behind earlier

namespace Env.Alike

variable {checked : Prop} {C : Command → Command → Prop} {env env' : Env}

theorem bind (h : env.Alike checked C env') (name : String) {v : Value} (hv : checked → v.Proper) :
    (env.bind name v).Alike checked C (env'.bind name v) where
  vars := congrArg (Table.put name v) h.vars
  functions := h.functions
  base := h.base
  config := h.config
  proper hc b hb := by
    obtain rfl | hb := Table.mem_put hb
    · exact hv hc
    · exact h.proper hc b hb

theorem bindAll (h : env.Alike checked C env') {bindings : List (String × Value)}
    (hb : ∀ b ∈ bindings, checked → b.2.Proper) :
    (bindings.foldl (fun e b => e.bind b.1 b.2) env).Alike checked C
      (bindings.foldl (fun e b => e.bind b.1 b.2) env') := by
  induction bindings generalizing env env' with
  | nil => exact h
  | cons b bindings ih =>
    obtain ⟨hv, hrest⟩ := List.forall_mem_cons.mp hb
    exact ih (h.bind b.1 hv) hrest

theorem without (h : env.Alike checked C env') (name : String) :
    Env.Alike checked C { env with vars := env.vars.without name }
      { env' with vars := env'.vars.without name } where
  vars := congrArg (Table.without name) h.vars
  functions := h.functions
  base := h.base
  config := h.config
  proper hc b hb := h.proper hc b (Table.mem_of_mem_without hb)

theorem rebase (h : env.Alike checked C env') (base : File.Path) :
    Env.Alike checked C { env with base := base } { env' with base := base } :=
  { h with base := rfl }

theorem define (h : env.Alike checked C env') (name : String) {f f' : Function} (hf : f.Alike C f') :
    Env.Alike checked C { env with functions := env.functions.put name f }
      { env' with functions := env'.functions.put name f' } where
  vars := h.vars
  functions := by
    have hput {fs fs' : Table String Function}
        (hfs : List.Forall₂ (fun f f' => f.1 = f'.1 ∧ f.2.Alike C f'.2) fs fs') :
        List.Forall₂ (fun f f' => f.1 = f'.1 ∧ f.2.Alike C f'.2) (fs.put name f)
          (fs'.put name f') := by
      induction hfs with
      | nil => exact .cons ⟨rfl, hf⟩ .nil
      | cons hg hrest ih =>
        rw [Table.put, Table.put, hg.1]
        split
        · exact .cons ⟨rfl, hf⟩ hrest
        · exact .cons ⟨rfl, hg.2⟩ ih
    exact hput h.functions
  base := h.base
  config := h.config
  proper := h.proper

theorem find? (h : env.Alike checked C env') (name : String) :
    Option.Rel (Function.Alike C) (env.functions.find? name) (env'.functions.find? name) := by
  have hfind {fs fs' : Table String Function}
      (hfs : List.Forall₂ (fun f f' => f.1 = f'.1 ∧ f.2.Alike C f'.2) fs fs') :
      Option.Rel (Function.Alike C) (fs.find? name) (fs'.find? name) := by
    induction hfs with
    | nil => exact .none
    | @cons f f' fs fs' hf _ ih =>
      obtain ⟨key, f⟩ := f
      obtain ⟨key', f'⟩ := f'
      obtain ⟨rfl, hf⟩ : key = key' ∧ f.Alike C f' := hf
      rw [Table.find?_cons, Table.find?_cons]
      split
      · exact .some hf
      · exact ih
  exact hfind h.functions

theorem lookup (h : env.Alike checked C env') (name : String) :
    env.lookup name = env'.lookup name := by
  rw [Env.lookup, Env.lookup, h.vars]

theorem canister (h : env.Alike checked C env') (name : String) :
    env.canister name = env'.canister name := by
  rw [Env.canister, Env.canister, h.vars]

theorem path {σ : Type} (h : env.Alike checked C env') (S : Setting σ) (text : String) :
    env.path S text = env'.path S text := by
  rw [Env.path, Env.path, h.base]

end Env.Alike

section

variable {σ α : Type} {checked : Prop} {C : Command → Command → Prop} {earlier : List Effect}

/-! ## Parts of runs -/

theorem agree_env : Agree (AlikeBehind (σ := σ) checked C earlier) Running.env Running.env
    (Env.Alike checked C) :=
  Agree.env.imp fun _ _ ⟨_, _, h, _⟩ => h

theorem agree_modifyEnv {f g : Env → Env}
    (h : ∀ env env', env.Alike checked C env' → (f env).Alike checked C (g env')) :
    Agree (AlikeBehind (σ := σ) checked C earlier) (Running.modifyEnv f) (Running.modifyEnv g)
      (Same fun _ => True) :=
  .modifyEnv fun env env' _ _ hst => ⟨h env env' hst.1, hst.2⟩

theorem agree_bind (name : String) {v : Value} (hv : checked → v.Proper) :
    Agree (AlikeBehind (σ := σ) checked C earlier) (Running.modifyEnv (Env.bind name v))
      (Running.modifyEnv (Env.bind name v)) (Same fun _ => True) :=
  agree_modifyEnv fun _ _ h => h.bind name hv

theorem agree_inChild {f g : Env → Env} {act act' : Running σ α} {Q : α → α → Prop}
    (h : Agree (AlikeBehind checked C earlier) act act' Q)
    (hin : ∀ env env', env.Alike checked C env' → (f env).Alike checked C (g env')) :
    Agree (AlikeBehind checked C earlier) (Running.inChild f act) (Running.inChild g act') Q :=
  h.inChild (fun env env' _ _ hst => ⟨hin env env' hst.1, hst.2⟩)
    fun _ _ _ _ _ _ _ _ hst hst' => ⟨hst.1, hst'.2⟩

theorem agree_toRunning {act : Doing σ α} {P : α → Prop} (h : Heedless act)
    (hP : checked → Doing.Gives act P) :
    Agree (AlikeBehind checked C earlier) act.toRunning act.toRunning
      (Same fun a => checked → P a) := by
  rintro ⟨env, _⟩ ⟨env', t⟩ ⟨henv, rfl⟩
  have hrun := h earlier t
  match hr : act.run.run t with
  | (.ok a, t') =>
    rw [hr] at hrun
    rw [Gives.run_toRunning hrun, Gives.run_toRunning hr]
    exact ⟨.ok ⟨rfl, fun hc => (hP hc t trivial).2 a (congrArg Prod.fst hr)⟩, henv, rfl⟩
  | (.error f, t') =>
    rw [hr] at hrun
    rw [Gives.run_toRunning hrun, Gives.run_toRunning hr]
    exact ⟨.error f, henv, rfl⟩

theorem agree_doing {act : Doing σ α} (h : Heedless act) :
    Agree (AlikeBehind checked C earlier) act.toRunning act.toRunning (Same fun _ => True) :=
  (agree_toRunning h fun _ => Doing.gives_any act).imp fun _ _ ha => ⟨ha.1, trivial⟩

theorem agree_attempt {x : Attempt α} {P : α → Prop} (h : checked → x.Gives P) :
    Agree (AlikeBehind (σ := σ) checked C earlier) (liftM x) (liftM x)
      (Same fun a => checked → P a) :=
  .attempt fun a ha hc => h hc a ha

theorem agree_any (x : Attempt α) :
    Agree (AlikeBehind (σ := σ) checked C earlier) (liftM x) (liftM x) (Same fun _ => True) :=
  .attempt fun _ _ => trivial

end

section

variable {σ : Type} (checked : Prop) (C : Command → Command → Prop) (earlier : List Effect)

/-- Engines that agree on the expressions and on the commands that correspond. -/
structure Engine.Agree (engine engine' : Engine σ) : Prop where
  eval {e : Exp} (he : checked → e.Sound) : CanisterShell.Agree (AlikeBehind checked C earlier)
    (engine.eval e) (engine'.eval e) (Same fun v => checked → v.Proper)
  run {c c' : Command} (hc : C c c') : CanisterShell.Agree (AlikeBehind checked C earlier)
    (engine.run c) (engine'.run c') (Same fun v? => ∀ v, v? = some v → checked → v.Proper)

variable {checked C earlier}

theorem Engine.Agree.block {self self' : Engine σ} (h : self.Agree checked C earlier self')
    {commands commands' : List Command} (hc : List.Forall₂ C commands commands') :
    CanisterShell.Agree (AlikeBehind checked C earlier) (self.block commands) (self'.block commands')
      (Same fun _ => True) :=
  .forM (C := C) (fun _ _ hc => (h.run hc).andThen fun _ _ => .same trivial) hc

/-! ## Selectors -/

namespace Selection

variable {eval eval' : Exp → Running σ Value}
  (h : ∀ {e : Exp}, (checked → e.Sound) → Agree (AlikeBehind checked C earlier) (eval e) (eval' e)
    (Same fun v => checked → v.Proper))
include h

theorem agree_applyTo (function : String) {v : Value} (hv : checked → v.Proper) :
    Agree (AlikeBehind checked C earlier) (applyTo eval function v) (applyTo eval' function v)
      (Same fun v => checked → v.Proper) := by
  refine (agree_bind "" hv).andThen fun _ _ => h fun _ => ?_
  exact .apply function (List.forall_mem_singleton.mpr (.path "" nofun))

theorem agree_keeps (function : String) {v : Value} (hv : checked → v.Proper) :
    Agree (AlikeBehind checked C earlier) (keeps eval function v) (keeps eval' function v)
      (Same fun _ => True) := by
  refine (agree_applyTo h function hv).outcome.andThen fun r _ => ?_
  split
  · exact .same trivial
  · exact .same trivial
  · exact .same trivial

theorem agree_accumulate (function : String) {acc v : Value} (hacc : checked → acc.Proper)
    (hv : checked → v.Proper) :
    Agree (AlikeBehind checked C earlier) (accumulate eval function acc v)
      (accumulate eval' function acc v) (Same fun v => checked → v.Proper) := by
  refine (agree_modifyEnv fun _ _ henv => (henv.bind "" hv).bind "_" hacc).andThen fun _ _ =>
    h fun _ => ?_
  refine .apply function (List.forall_mem_cons.mpr ⟨.path "_" nofun, ?_⟩)
  exact List.forall_mem_singleton.mpr (.path "" nofun)

theorem agree_step {v : Value} (hv : checked → v.Proper) {s : Selector} (hs : checked → s.Sound) :
    Agree (AlikeBehind checked C earlier) (step eval v s) (step eval' v s)
      (Same fun v => checked → v.Proper) := by
  have elements : Agree (AlikeBehind (σ := σ) checked C earlier) (liftM (elementsFor s v))
      (liftM (elementsFor s v)) (Same fun items => ∀ w ∈ items, checked → w.Proper) :=
    .attempt fun items hitems w hw hc => elementsFor_proper s (hv hc) items hitems w hw
  have rebuilt {items : List Value} (hitems : ∀ w ∈ items, checked → w.Proper) :
      Agree (AlikeBehind (σ := σ) checked C earlier) (liftM (rebuild v items))
        (liftM (rebuild v items)) (Same fun v => checked → v.Proper) :=
    agree_attempt fun hc => rebuild_proper v fun w hw => hitems w hw hc
  have key (e : Exp) (hs : checked → (Selector.index e).Sound) : checked → e.Sound := fun hc => by
    cases hs hc with
    | index he => exact he
  unfold step
  split
  case h_1 item =>
    refine .same fun hc => ?_
    cases hv hc with
    | opt hv => exact hv
  case h_2 => exact .throw _
  case h_3 => exact .throw _
  case h_4 => exact agree_attempt fun hc => fieldOf_proper _ (hv hc) _
  case h_5 e =>
    split
    · exact (h (key e hs)).andThen fun i _ => agree_attempt fun hc => fieldAt_proper _ (hv hc) i
    · exact (h (key e hs)).andThen fun i _ => agree_attempt fun hc => fieldAt_proper _ (hv hc) i
    · split
      case h_1 hi =>
        exact (h (key e hs)).andThen fun i _ => agree_attempt fun hc =>
          itemAt_proper (items?_proper (hv hc) hi) i
      case h_2 => exact .throw _
  case h_6 => exact elements.andThen fun items _ => .same fun _ => Value.nat_proper _
  case h_7 function =>
    refine elements.andThen fun items hitems => ?_
    have mapped := Agree.mapM fun v (hmem : v ∈ items) => agree_applyTo h function (hitems v hmem)
    exact (agree_inChild mapped fun _ _ henv => henv).andThen fun ws hws => rebuilt hws
  case h_8 function =>
    refine elements.andThen fun items hitems => ?_
    have filtered := Agree.filterM
      (fun v (hmem : v ∈ items) => agree_keeps h function (hitems v hmem)) hitems
    exact (agree_inChild filtered fun _ _ henv => henv).andThen fun ws hws => rebuilt hws
  case h_9 start function =>
    have hstart : checked → start.Sound := fun hc => by
      cases hs hc with
      | fold _ hstart => exact hstart
    refine elements.andThen fun items hitems => (h hstart).andThen fun acc hacc =>
      agree_inChild ?_ fun _ _ henv => henv
    exact .foldlM (fun acc hacc v hmem => agree_accumulate h function hacc (hitems v hmem)) hacc

theorem agree_walk {v : Value} (hv : checked → v.Proper) {selectors : List Selector}
    (hs : ∀ s ∈ selectors, checked → s.Sound) :
    Agree (AlikeBehind checked C earlier) (walk eval v selectors) (walk eval' v selectors)
      (Same fun v => checked → v.Proper) :=
  .foldlM (fun _ hv s hmem => agree_step h hv (hs s hmem)) hv

end Selection

/-! ## Expressions -/

namespace Evaluation

variable {S : Setting σ} {self self' : Engine σ} (h : self.Agree checked C earlier self')

theorem agree_fresh {v : Value} (hv : checked → v.Proper) :
    Agree (AlikeBehind (σ := σ) checked C earlier) (Doing.toRunning (Doing.fresh v))
      (Doing.toRunning (Doing.fresh v)) (Same fun v => checked → v.Proper) :=
  agree_toRunning (Doing.fresh_heedless v) fun hc => Doing.fresh_proper (hv hc)

/-- Of its environment a function that is built in uses only where paths start. -/
theorem callBuiltin_alike {env env' : Env} (henv : env.Alike checked C env') (b : Builtin)
    (args : List Value) : callBuiltin S env b args = callBuiltin S env' b args := by
  simp only [callBuiltin, output, wasmProfiling, flamegraph, henv.path S]

theorem agree_target (m : Method) : Agree (AlikeBehind checked C earlier) (target S m) (target S m)
    (Same fun _ => True) := by
  refine agree_env.bind fun env env' henv => ?_
  rw [henv.canister]
  exact (agree_any _).andThen fun _ _ => agree_doing (Invocation.target_heedless _ _)

include h

theorem agree_callFunction (name : String) {f f' : Function} (hf : f.Alike C f')
    {args : List Value} (hargs : ∀ v ∈ args, checked → v.Proper) :
    Agree (AlikeBehind checked C earlier) (callFunction self name f args)
      (callFunction self' name f' args) (Same fun v => checked → v.Proper) := by
  have called (env env' : Env) (henv : env.Alike checked C env') :
      (callee f.params args env).Alike checked C (callee f.params args env') :=
    (henv.without "_").bindAll fun b hb => hargs b.2 (List.of_mem_zip hb).2
  unfold callFunction
  rw [← hf.params]
  refine .guarded fun _ => agree_inChild ?_ called
  -- the result is what the body has left in the variable of results
  refine (h.block hf.body).andThen fun _ _ => agree_env.bind fun env env' henv => ?_
  rw [← henv.vars]
  refine .same fun hc => ?_
  cases hv : env.vars.find? "_" with
  | none => exact .null
  | some v => exact henv.proper hc _ (Table.mem_of_find?_eq_some hv)

theorem agree_proxy (wallet : String) (m : Method) (arg : Bytes) :
    Agree (AlikeBehind checked C earlier) (proxy self wallet m arg) (proxy self' wallet m arg)
      (Same fun v => checked → v.Proper) := by
  refine agree_env.bind fun env env' henv => ?_
  rw [henv.canister]
  refine (agree_any _).andThen fun canister _ => agree_env.bind fun env env' henv => ?_
  rw [henv.canister]
  refine (agree_any _).andThen fun wallet _ =>
    agree_inChild ?_ fun _ _ henv => henv.bind "_msg" fun _ => .blob arg
  refine (h.eval fun _ => relay_sound _ _ _).andThen fun reply hreply => ?_
  exact (agree_bind "_" fun hc => (Cost.split_proper (hreply hc)).1).andThen fun _ _ =>
    h.eval fun _ => relayed_sound _ _

theorem agree_evalAll {es : List Exp} (hes : ∀ e ∈ es, checked → e.Sound) :
    Agree (AlikeBehind checked C earlier) (es.mapM self.eval) (es.mapM self'.eval)
      (Same (∀ v ∈ ·, checked → v.Proper)) :=
  .mapM fun e he => h.eval (hes e he)

theorem agree_callForm (b : Builtin) {args : List Exp} (hargs : ∀ e ∈ args, checked → e.Sound) :
    Agree (AlikeBehind checked C earlier) (callForm self b args) (callForm self' b args)
      (Same fun v => checked → v.Proper) := by
  unfold callForm
  split
  case h_1 =>
    refine (h.eval (hargs _ (.head _))).outcome.andThen fun r _ => ?_
    cases r with
    | ok v => exact .same fun _ => .bool _
    | error e => exact .same fun _ => .bool _
  case h_2 =>
    refine (h.eval (hargs _ (.head _))).andThen fun v _ => (agree_any _).andThen fun b _ => ?_
    split
    · exact h.eval (hargs _ (.tail _ (.head _)))
    · exact h.eval (hargs _ (.tail _ (.tail _ (.head _))))
  case h_3 => exact .throw _

theorem agree_fields (next : Nat) {fs : List (Option Label × Exp)}
    (hfs : ∀ f ∈ fs, checked → f.2.Sound) :
    Agree (AlikeBehind checked C earlier) (fields self next fs) (fields self' next fs)
      (Same (∀ f ∈ ·, checked → f.2.Proper)) := by
  induction fs generalizing next with
  | nil => exact .same nofun
  | cons f fs ih =>
    obtain ⟨hf, hfs⟩ := List.forall_mem_cons.mp hfs
    refine (h.eval hf).andThen fun v hv => (ih _ hfs).andThen fun gs hgs => .same ?_
    exact List.forall_mem_cons.mpr ⟨hv, hgs⟩

theorem agree_failing {e : Exp} (he : checked → e.Sound) :
    Agree (AlikeBehind checked C earlier) (failing self e) (failing self' e)
      (Same fun v => checked → v.Proper) := by
  refine (h.eval he).outcome.andThen fun r _ => ?_
  cases r with
  | ok v => exact .throw _
  | error e => exact .same fun _ => .text _

theorem agree_apply (name : String) {args : List Exp} (hargs : ∀ e ∈ args, checked → e.Sound) :
    Agree (AlikeBehind checked C earlier) (apply S self name args) (apply S self' name args)
      (Same fun v => checked → v.Proper) := by
  unfold apply
  split
  case h_1 b _ =>
    split
    · exact .guarded fun _ => agree_callForm h b hargs
    · refine (agree_evalAll h hargs).andThen fun values hvalues => .guarded fun _ =>
        agree_env.bind fun env env' henv => ?_
      rw [callBuiltin_alike henv]
      exact agree_toRunning (callBuiltin_heedless env' b values) fun hc =>
        callBuiltin_proper env' b fun v hv => hvalues v hv hc
  case h_2 =>
    refine agree_env.bind fun env env' henv => ?_
    have hfind := henv.find? name
    generalize env.functions.find? name = f?, env'.functions.find? name = f?' at hfind
    cases hfind with
    | some hf =>
      exact (agree_evalAll h hargs).andThen fun _ hvalues => agree_callFunction h name hf hvalues
    | none => exact .throw _

theorem agree_call (method? : Option Method) {args : List Exp}
    (hargs : ∀ e ∈ args, checked → e.Sound) (mode : CallMode) :
    Agree (AlikeBehind checked C earlier) (call S self method? args mode)
      (call S self' method? args mode) (Same fun v => checked → v.Proper) := by
  refine (agree_evalAll h hargs).andThen fun values _ => ?_
  cases method? with
  | none => exact (agree_any _).andThen fun _ _ => .same fun _ => .blob _
  | some m =>
    refine (agree_target m).andThen fun t _ => (agree_any _).andThen fun arg _ => ?_
    cases mode with
    | encode => exact .same fun _ => .blob arg
    | proxy wallet => exact agree_proxy h wallet m arg
    | send =>
      exact agree_toRunning ((Invocation.call_heedless t arg).bind fun _ => Doing.fresh_heedless _)
        fun _ => (Invocation.call_proper t arg).bind fun v hv => Doing.fresh_proper hv

theorem agree_decode (method? : Option Method) {blob : Exp} (hblob : checked → blob.Sound) :
    Agree (AlikeBehind checked C earlier) (decode S self method? blob)
      (decode S self' method? blob) (Same fun v => checked → v.Proper) := by
  refine (h.eval hblob).andThen fun v _ => ?_
  split
  case h_1 => exact .throw _
  case h_2 bytes _ =>
    cases method? with
    | none =>
      refine (agree_attempt fun _ => decodeArgs_proper bytes).andThen fun vs hvs => ?_
      exact (Agree.same fun hc => Value.ofResults_proper (hvs hc)).andThen fun _ hv =>
        agree_fresh hv
    | some m =>
      refine (agree_target m).andThen fun t _ => ?_
      exact (agree_attempt fun _ => Invocation.decode_proper t bytes).andThen fun _ hv =>
        agree_fresh hv

/-- Steps agree if the evaluation of the parts does. -/
theorem agree_step {e : Exp} (he : checked → e.Sound) :
    Agree (AlikeBehind checked C earlier) (step S self e) (step S self' e)
      (Same fun v => checked → v.Proper) := by
  -- what is known of a tree is known of its parts
  cases e with
  | literal v =>
    refine agree_fresh fun hc => ?_
    cases he hc with
    | literal hv => exact hv
  | path name selectors =>
    have hs : ∀ s ∈ selectors, checked → s.Sound := fun s hmem hc => by
      cases he hc with
      | path _ hs => exact hs s hmem
    refine agree_env.bind fun env env' henv => ?_
    rw [← henv.lookup]
    refine (agree_attempt fun hc v hv => ?_).andThen fun v hv => Selection.agree_walk h.eval hv hs
    unfold Env.lookup at hv
    split at hv
    case h_1 hfind =>
      cases hv
      exact henv.proper hc _ (Table.mem_of_find?_eq_some hfind)
    case h_2 => cases hv
  | opt e =>
    have he : checked → e.Sound := fun hc => by
      cases he hc with
      | opt he => exact he
    exact (h.eval he).andThen fun _ hv => .same fun hc => .opt (hv hc)
  | vec es =>
    have hes : ∀ e ∈ es, checked → e.Sound := fun e hmem hc => by
      cases he hc with
      | vec hes => exact hes e hmem
    exact (agree_evalAll h hes).andThen fun _ hvs => .same fun hc => .vec fun v hv => hvs v hv hc
  | record fs =>
    have hfs : ∀ f ∈ fs, checked → f.2.Sound := fun f hmem hc => by
      cases he hc with
      | record hfs => exact hfs f hmem
    exact (agree_fields h 0 hfs).andThen fun _ hfs => agree_attempt fun hc =>
      Value.mkRecord_proper fun f hf => hfs f hf hc
  | variant label e =>
    have he : checked → e.Sound := fun hc => by
      cases he hc with
      | variant _ he => exact he
    exact (h.eval he).andThen fun _ hv => .same fun hc => .variant label 0 (hv hc)
  | annotated e t =>
    have he : checked → e.Sound := fun hc => by
      cases he hc with
      | annotated _ he => exact he
    exact (h.eval he).andThen fun v _ => (agree_attempt fun _ => Value.cast_proper [] v t).andThen
      fun _ hw => agree_fresh hw
  | apply name args =>
    refine agree_apply h name fun e hmem hc => ?_
    cases he hc with
    | apply _ hargs => exact hargs e hmem
  | call method? args mode =>
    refine agree_call h method? (fun e hmem hc => ?_) mode
    cases he hc with
    | call _ _ hargs => exact hargs e hmem
  | decode method? blob =>
    refine agree_decode h method? fun hc => ?_
    cases he hc with
    | decode _ hblob => exact hblob
  | fail e =>
    refine agree_failing h fun hc => ?_
    cases he hc with
    | fail he => exact he

end Evaluation

/-! ## Commands -/

namespace Execution

variable {S : Setting σ} {self self' : Engine σ} (h : self.Agree checked C earlier self')

theorem agree_path (text : String) : Agree (AlikeBehind (σ := σ) checked C earlier) (path S text)
    (path S text) (Same fun _ => True) :=
  agree_env.bind fun _ _ henv => .pure ⟨henv.path S text, trivial⟩

theorem agree_display (topic : Topic) (message : String) :
    Agree (AlikeBehind (σ := σ) checked C earlier) (display topic message) (display topic message)
      (Same fun _ => True) := agree_doing (Doing.display_heedless topic message)

theorem agree_clock : Agree (AlikeBehind checked C earlier)
    (Doing.toRunning (ExceptT.lift (Doing.inWorld S.clock)))
    (Doing.toRunning (ExceptT.lift (Doing.inWorld S.clock))) (Same fun _ => True) :=
  agree_doing (.inWorld S.clock)

theorem agree_takeCost (name : String) (e : Exp) {v : Value} (hv : checked → v.Proper)
    (shown : Bool) : Agree (AlikeBehind (σ := σ) checked C earlier) (takeCost name e v shown)
      (takeCost name e v shown) (Same fun v => checked → v.Proper) := by
  have hsplit (hc : checked) := Cost.split_proper (hv hc)
  unfold takeCost
  split
  · exact .same hv
  · generalize Cost.split v = r at hsplit
    obtain ⟨w, cost?⟩ := r
    cases cost? with
    | none => exact .same fun hc => (hsplit hc).1
    | some cost =>
      refine (agree_bind _ fun hc => (hsplit hc).2 cost rfl).andThen fun _ _ => ?_
      have hw : checked → w.Proper := fun hc => (hsplit hc).1
      split
      · exact (agree_display _ _).andThen fun _ _ => .same hw
      · exact .same hw

theorem agree_bindResult (name : String) (e : Exp) {v : Value} (hv : checked → v.Proper)
    (shown : Bool) : Agree (AlikeBehind (σ := σ) checked C earlier) (bindResult name e v shown)
      (bindResult name e v shown) (Same fun v => checked → v.Proper) := by
  refine (agree_takeCost name e hv shown).andThen fun v hv => ?_
  dsimp only
  split
  · exact (agree_display _ _).andThen fun _ _ => (agree_bind name hv).andThen fun _ _ => .same hv
  · exact (agree_bind name hv).andThen fun _ _ => .same hv

theorem agree_importCanister (name canister : String) (file? : Option String) :
    Agree (AlikeBehind checked C earlier) (importCanister S name canister file?)
      (importCanister S name canister file?) (Same fun _ => True) := by
  refine agree_env.bind fun env env' henv => ?_
  rw [henv.canister]
  refine (agree_any _).andThen fun p _ => ?_
  split
  · exact (agree_path _).andThen fun _ _ =>
      (agree_doing (Directory.registerFile_heedless _ _)).andThen fun _ _ =>
        agree_bind name fun _ => .principal p
  · exact agree_bind name fun _ => .principal p

theorem agree_configure (source : String) : Agree (AlikeBehind (σ := σ) checked C earlier)
    (configure source) (configure source) (Same fun _ => True) := by
  have hget : Agree (AlikeBehind (σ := σ) checked C earlier) get get
      (AlikeBehind checked C earlier) := fun _ _ hst => ⟨.ok hst, hst⟩
  refine hget.bind fun (env, _) (env', t) hst => ?_
  obtain ⟨henv, rfl⟩ := hst
  dsimp only
  have hload : Document.load (t.behind earlier).disk env.base source =
      Document.load t.disk env'.base source := by
    rw [henv.base]
    rfl
  rw [hload]
  refine (agree_any _).andThen fun datum _ => (agree_any _).andThen fun config _ => ?_
  exact agree_modifyEnv fun _ _ henv => { henv with config := rfl }

theorem agree_saveTo (text : String) : Agree (AlikeBehind checked C earlier) (saveTo S text)
    (saveTo S text) (Same fun _ => True) := by
  refine (agree_path text).andThen fun file _ => agree_env.bind fun env env' henv => ?_
  rw [henv.vars]
  refine (agree_doing (Doing.changeDisk_heedless _ _)).andThen fun failure? _ => ?_
  split
  · exact .throw _
  · exact .same trivial

include h

theorem agree_evaluate {e : Exp} (he : checked → e.Sound) : Agree (AlikeBehind checked C earlier)
    (evaluate S self e) (evaluate S self' e) (Same fun v => checked → v.Proper) :=
  agree_clock.andThen fun _ _ => (h.eval he).andThen fun _ hv =>
    (agree_bindResult "_" e hv true).andThen fun _ hv => agree_clock.andThen fun _ _ =>
      (agree_display _ _).andThen fun _ _ => .same hv

theorem agree_assertion (op : String) {left right : Exp} (hl : checked → left.Sound)
    (hr : checked → right.Sound) : Agree (AlikeBehind checked C earlier)
      (assertion self op left right) (assertion self' op left right) (Same fun _ => True) :=
  (h.eval hl).andThen fun _ _ => (h.eval hr).andThen fun _ _ => (agree_any _).andThen fun _ _ =>
    .guarded fun _ => .same trivial

theorem agree_useIdentity (name : String) {source? : Option Exp}
    (hs : ∀ e, source? = some e → checked → e.Sound) : Agree (AlikeBehind checked C earlier)
      (useIdentity S self name source?) (useIdentity S self' name source?) (Same fun _ => True) := by
  have used (identity : Identity) : Agree (AlikeBehind checked C earlier)
      (modify fun state => (state.1, state.2.use name identity) : Running σ Unit)
      (modify fun state => (state.1, state.2.use name identity)) (Same fun _ => True) :=
    .modify fun _ _ hst => ⟨hst.1, congrArg (Session.use name identity) hst.2⟩
  have use (identity : Identity) : Agree (AlikeBehind checked C earlier) (do
      modify fun state => (state.1, state.2.use name identity)
      display .output ("Current identity " ++ identity.sender.toText)
      bindVar name (.principal identity.sender) : Running σ Unit) (do
      modify fun state => (state.1, state.2.use name identity)
      display .output ("Current identity " ++ identity.sender.toText)
      bindVar name (.principal identity.sender)) (Same fun _ => True) :=
    (used identity).andThen fun _ _ => (agree_display _ _).andThen fun _ _ =>
      agree_bind name fun _ => .principal _
  unfold useIdentity
  split
  · exact (agree_doing (namedIdentity_heedless name)).andThen fun identity _ => use identity
  · refine (h.eval (hs _ rfl)).andThen fun source _ => agree_env.bind fun env env' henv => ?_
    have hpath : identityOf S env source = identityOf S env' source := by
      simp only [identityOf, henv.path S]
    rw [hpath]
    exact (agree_doing (identityOf_heedless env' source)).andThen fun identity _ => use identity

theorem agree_condition (keyword : String) {cond : Exp} (hcond : checked → cond.Sound) :
    Agree (AlikeBehind checked C earlier) (condition self keyword cond)
      (condition self' keyword cond) (Same fun _ => True) := by
  refine (h.eval hcond).andThen fun v _ => ?_
  split
  · exact .same trivial
  · exact .throw _

variable (hC : Corresponds checked C)

theorem agree_echoed (prepared : List Char) {commands : List Command}
    (hc : ∀ c ∈ commands, C c c) : Agree (AlikeBehind checked C earlier)
      (echoed self prepared commands) (echoed self' prepared commands) (Same fun _ => True) := by
  have hsame : List.Forall₂ (fun c c' => c = c' ∧ C c c) commands commands :=
    List.forall₂_same.mpr fun c hmem => ⟨rfl, hc c hmem⟩
  refine Agree.forM (fun c c' hc => ?_) hsame
  obtain ⟨rfl, hc⟩ := hc
  exact (agree_display _ _).andThen fun _ _ => (h.run hc).andThen fun _ _ => .same trivial

include hC

theorem agree_loadFrom (text : String) : Agree (AlikeBehind checked C earlier)
    (loadFrom S self text) (loadFrom S self' text) (Same fun _ => True) := by
  refine (agree_path text).andThen fun file _ =>
    (agree_doing (Doing.readText_heedless file)).andThen fun r _ => ?_
  split
  · exact .throw _
  · refine (agree_any _).andThen fun prepared _ => ?_
    refine (agree_attempt fun _ => readCommands_sound prepared).andThen fun commands hsound => ?_
    have hc : ∀ c ∈ commands, C c c := fun c hmem => hC.refl c fun hc => hsound hc c hmem
    refine agree_env.bind fun env env' henv => ?_
    refine (agree_modifyEnv fun _ _ henv => henv.rebase file.parent).andThen fun _ _ => ?_
    rw [henv.base]
    exact (agree_echoed h prepared hc).afterwards fun _ _ _ _ hst =>
      ⟨hst.1.rebase env'.base, hst.2⟩

/-- Engines that agree on the parts of commands agree on the commands. -/
theorem agree_step {c c' : Command} (hc : C c c') : Agree (AlikeBehind checked C earlier)
    (step S self c) (step S self' c') (Same fun v? => ∀ v, v? = some v → checked → v.Proper) := by
  have done {act act' : Running σ Unit}
      (hact : Agree (AlikeBehind checked C earlier) act act' (Same fun _ => True)) :
      Agree (AlikeBehind checked C earlier) (do act; return none : Running σ (Option Value))
        (do act'; return none) (Same fun v? => ∀ v, v? = some v → checked → v.Proper) :=
    hact.andThen fun _ _ => .same nofun
  have bound {v : Value} (hv : checked → v.Proper) :
      Agree (AlikeBehind checked C earlier) (Pure.pure (some v) : Running σ (Option Value))
        (Pure.pure (some v)) (Same fun v? => ∀ v, v? = some v → checked → v.Proper) :=
    .same fun _ hw => Option.some.inj hw ▸ hv
  unfold step
  have haction := hC.action hc
  generalize ha : c.action = a, ha' : c'.action = a' at haction
  cases haction with
  | define name params hbody =>
    exact done (agree_modifyEnv fun _ _ henv => henv.define name ⟨rfl, hbody⟩)
  | branch hcond hyes hno =>
    refine (agree_condition h _ hcond).andThen fun b _ => ?_
    split
    · exact done (h.block hyes)
    · exact done (h.block hno)
  | loop hcond hbody =>
    refine (agree_condition h _ hcond).andThen fun b _ => ?_
    split
    · exact (h.block hbody).andThen fun _ _ => h.run hc
    · exact .same nofun
  | flat hflat hsound =>
    cases a with
    | bind name e =>
      have he : checked → e.Sound := fun hc => by
        cases hsound hc with
        | bind _ he => exact he
      exact (h.eval he).andThen fun _ hv => (agree_bindResult name e hv false).andThen fun _ hv =>
        bound hv
    | evaluate e =>
      have he : checked → e.Sound := fun hc => by
        cases hsound hc with
        | evaluate he => exact he
      exact (agree_evaluate h he).andThen fun _ hv => bound hv
    | assertion op left right =>
      have hsides : checked → left.Sound ∧ right.Sound := fun hc => by
        cases hsound hc with
        | assertion _ hl hr => exact ⟨hl, hr⟩
      exact done (agree_assertion h op (fun hc => (hsides hc).1) fun hc => (hsides hc).2)
    | importCanister name canister file? => exact done (agree_importCanister name canister file?)
    | configure source => exact done (agree_configure source)
    | useIdentity name source? =>
      refine done (agree_useIdentity h name fun e he hc => ?_)
      cases hsound hc with
      | useIdentity _ hs => exact hs e he
    | saveTo file => exact done (agree_saveTo file)
    | loadFrom file => exact done (agree_loadFrom h hC file)
    | define name params body => cases hflat
    | branch cond yes no => cases hflat
    | loop cond body => cases hflat

end Execution

/-! ## Runs -/

theorem agree_within (S : Setting σ) (hC : Corresponds checked C) (depth : Nat) :
    Engine.Agree checked C earlier ⟨evalWithin S depth, runWithin S depth⟩
      ⟨evalWithin S depth, runWithin S depth⟩ := by
  -- a step calls back the engine of the depth below
  induction depth with
  | zero =>
    constructor
    · intro e he
      exact .throw _
    · intro c c' hc
      exact .throw _
  | succ depth ih =>
    constructor
    · intro e he
      exact Evaluation.agree_step ih he
    · intro c c' hc
      exact Execution.agree_step ih hC hc

end

end CanisterShell
