import CanisterShell.Proofs.Shell.Steps

/-!
# Evaluation leaves the environment alone

Whatever an expression does, it leaves its environment as it was (`evalWithin_env`): variables,
functions, base and random settings.  Functions and relayed calls run in a child, and so do the
elements that a selector goes through; what they do to the child ends with it.  All else is done in
the session, step by step, and so is what commands do besides changing their environment: what all
steps keep, every evaluation and every command keeps (`keeping_within`).
-/

namespace CanisterShell

open Candid Syntax

/-- The state of something that runs in the environment, in a session with a property. -/
def RunsIn {σ : Type} (env : Env) (K : Session σ → Prop) (state : Env × Session σ) : Prop :=
  state.1 = env ∧ K state.2

/-- The state of something that may change its environment, in a session with a property. -/
def RunsAnywhere {σ : Type} (K : Session σ → Prop) (state : Env × Session σ) : Prop := K state.2

section

variable {σ α : Type} {env : Env} {K : Session σ → Prop}

theorem keeps_env : Keeps (RunsIn env K) Running.env := Keeps.env.weaken

theorem keeps_toRunning {act : Doing σ α} (h : Keeps K act) : Keeps (RunsIn env K) act.toRunning :=
  Keeps.toRunning fun _ s hs => ⟨⟨hs.1, (h s hs.2).1⟩, fun _ _ => trivial⟩

theorem keeps_inChild {f : Env → Env} {act : Running σ α} (h : Keeps (RunsAnywhere K) act) :
    Keeps (RunsIn env K) (Running.inChild f act) :=
  Keeps.inChild h (fun _ _ hs => hs.2) fun _ _ _ _ hs hs' => ⟨hs.1, hs'⟩

theorem keeps_anywhere {act : Running σ α} (h : ∀ env, Keeps (RunsIn env K) act) :
    Keeps (RunsAnywhere K) act :=
  fun (env, s) hs => ⟨(h env (env, s) ⟨rfl, hs⟩).1.2, fun _ _ => trivial⟩

theorem keeps_modifyEnv (f : Env → Env) : Keeps (RunsAnywhere K) (Running.modifyEnv f) :=
  Keeps.modifyEnv fun _ _ hs => hs

end

section

variable {σ : Type} {K : Session σ → Prop}

/-! ## Selectors -/

namespace Selection

variable {eval : Exp → Running σ Value} (h : ∀ e env, Keeps (RunsIn env K) (eval e))
include h

theorem keeps_applyTo (function : String) (v : Value) :
    Keeps (RunsAnywhere K) (applyTo eval function v) :=
  (keeps_modifyEnv _).andThen fun _ => keeps_anywhere (h _)

theorem keeps_keeps (function : String) (v : Value) :
    Keeps (RunsAnywhere K) (keeps eval function v) := by
  refine (keeps_applyTo h function v).outcome.andThen fun r => ?_
  split
  · exact .done
  · exact .done
  · exact .done

theorem keeps_accumulate (function : String) (acc v : Value) :
    Keeps (RunsAnywhere K) (accumulate eval function acc v) :=
  (keeps_modifyEnv _).andThen fun _ => keeps_anywhere (h _)

variable {env : Env}

theorem keeps_step (v : Value) (s : Selector) : Keeps (RunsIn env K) (step eval v s) := by
  have elements : Keeps (RunsIn env K) (liftM (elementsFor s v)) := .attempt_any _
  unfold step
  split
  case h_1 => exact .done
  case h_2 => exact .throw _
  case h_3 => exact .throw _
  case h_4 => exact .attempt_any _
  case h_5 =>
    split
    · exact (h _ _).andThen fun _ => .attempt_any _
    · exact (h _ _).andThen fun _ => .attempt_any _
    · split
      · exact (h _ _).andThen fun _ => .attempt_any _
      · exact .throw _
  case h_6 => exact elements.andThen fun _ => .done
  case h_7 function =>
    refine elements.andThen fun items => ?_
    have mapped := (Keeps.mapM fun v (_ : v ∈ items) => keeps_applyTo h function v).weaken
    exact (keeps_inChild mapped).andThen fun _ => .attempt_any _
  case h_8 function =>
    refine elements.andThen fun items => ?_
    have filtered := (Keeps.filterM (fun v (_ : v ∈ items) => keeps_keeps h function v)
      fun _ _ => trivial).weaken
    exact (keeps_inChild filtered).andThen fun _ => .attempt_any _
  case h_9 start function =>
    refine elements.andThen fun items => (h _ _).andThen fun acc => keeps_inChild ?_
    exact .foldlM (fun acc _ v _ => keeps_accumulate h function acc v) trivial

theorem keeps_walk (v : Value) (selectors : List Selector) :
    Keeps (RunsIn env K) (walk eval v selectors) :=
  .foldlM (fun v _ s _ => keeps_step h v s) trivial

end Selection

/-! ## Expressions -/

/-- An engine whose evaluation keeps every environment and whose commands keep the property. -/
structure Engine.Keeping (engine : Engine σ) (K : Session σ → Prop) : Prop where
  eval (e : Exp) (env : Env) : Keeps (RunsIn env K) (engine.eval e)
  run (c : Command) : Keeps (RunsAnywhere K) (engine.run c)

theorem Engine.Keeping.block {self : Engine σ} (h : self.Keeping K) (commands : List Command) :
    Keeps (RunsAnywhere K) (self.block commands) :=
  .forM fun c _ => (h.run c).andThen fun _ => .done

namespace Evaluation

variable {S : Setting σ} (hK : S.Steady K) {self : Engine σ} (h : self.Keeping K) {env : Env}

include hK in
theorem keeps_target (m : Method) : Keeps (RunsIn env K) (target S m) :=
  keeps_env.andThen fun _ => (Keeps.attempt_any _).andThen fun _ => keeps_toRunning (hK.target _ _)

include h

theorem keeps_callFunction (name : String) (f : Function) (args : List Value) :
    Keeps (RunsIn env K) (callFunction self name f args) := by
  refine .guarded fun _ => keeps_inChild ?_
  exact (h.block _).andThen fun _ => (keeps_anywhere fun _ => keeps_env).andThen fun _ => .done

theorem keeps_proxy (wallet : String) (m : Method) (arg : Bytes) :
    Keeps (RunsIn env K) (proxy self wallet m arg) := by
  refine keeps_env.andThen fun _ => (Keeps.attempt_any _).andThen fun _ =>
    keeps_env.andThen fun _ => (Keeps.attempt_any _).andThen fun _ => keeps_inChild ?_
  exact (keeps_anywhere (h.eval _)).andThen fun _ => (keeps_modifyEnv _).andThen fun _ =>
    keeps_anywhere (h.eval _)

theorem keeps_evalAll (es : List Exp) : Keeps (RunsIn env K) (es.mapM self.eval) :=
  (Keeps.mapM fun e _ => h.eval e env).weaken

theorem keeps_callForm (b : Builtin) (args : List Exp) :
    Keeps (RunsIn env K) (callForm self b args) := by
  unfold callForm
  split
  case h_1 =>
    refine (h.eval _ _).outcome.andThen fun r => ?_
    cases r with
    | ok v => exact .done
    | error e => exact .done
  case h_2 =>
    refine (h.eval _ _).andThen fun v => (Keeps.attempt_any _).andThen fun b => ?_
    split
    · exact h.eval _ _
    · exact h.eval _ _
  case h_3 => exact .throw _

theorem keeps_fields (next : Nat) (fs : List (Option Label × Exp)) :
    Keeps (RunsIn env K) (fields self next fs) := by
  induction fs generalizing next with
  | nil => exact .done
  | cons f fs ih => exact (h.eval f.2 _).andThen fun _ => (ih _).andThen fun _ => .done

theorem keeps_failing (e : Exp) : Keeps (RunsIn env K) (failing self e) := by
  refine (h.eval e _).outcome.andThen fun r => ?_
  cases r with
  | ok v => exact .throw _
  | error e => exact .done

include hK

theorem keeps_apply (name : String) (args : List Exp) :
    Keeps (RunsIn env K) (apply S self name args) := by
  unfold apply
  split
  case h_1 b _ =>
    split
    · exact .guarded fun _ => keeps_callForm h b args
    · exact (keeps_evalAll h args).andThen fun values => .guarded fun _ =>
        keeps_env.andThen fun _ => keeps_toRunning (hK.callBuiltin _ _ _)
  case h_2 =>
    refine keeps_env.andThen fun env' => ?_
    split
    · exact (keeps_evalAll h args).andThen fun _ => keeps_callFunction h _ _ _
    · exact .throw _

theorem keeps_call (method? : Option Method) (args : List Exp) (mode : CallMode) :
    Keeps (RunsIn env K) (call S self method? args mode) := by
  refine (keeps_evalAll h args).andThen fun values => ?_
  cases method? with
  | none => exact (Keeps.attempt_any _).andThen fun _ => .done
  | some m =>
    refine (keeps_target hK m).andThen fun t => (Keeps.attempt_any _).andThen fun arg => ?_
    cases mode with
    | encode => exact .done
    | proxy wallet => exact keeps_proxy h wallet m arg
    | send => exact keeps_toRunning ((hK.call t arg).andThen fun _ => hK.fresh _)

theorem keeps_decode (method? : Option Method) (blob : Exp) :
    Keeps (RunsIn env K) (decode S self method? blob) := by
  refine (h.eval blob _).andThen fun v => ?_
  split
  case h_1 => exact .throw _
  case h_2 bytes _ =>
    cases method? with
    | none =>
      exact (Keeps.attempt_any _).andThen fun _ => Keeps.done.andThen fun _ =>
        keeps_toRunning (hK.fresh _)
    | some m =>
      exact (keeps_target hK m).andThen fun _ => (Keeps.attempt_any _).andThen fun _ =>
        keeps_toRunning (hK.fresh _)

/-- A step keeps the environment if the evaluation of the parts does, and the property if the steps
of the session do. -/
theorem keeps_step (e : Exp) : Keeps (RunsIn env K) (step S self e) := by
  cases e with
  | literal v => exact keeps_toRunning (hK.fresh _)
  | path name selectors =>
    exact keeps_env.andThen fun _ => (Keeps.attempt_any _).andThen fun v =>
      Selection.keeps_walk h.eval v selectors
  | opt e => exact (h.eval e _).andThen fun _ => .done
  | vec es => exact (keeps_evalAll h es).andThen fun _ => .done
  | record fs => exact (keeps_fields h 0 fs).andThen fun _ => .attempt_any _
  | variant label e => exact (h.eval e _).andThen fun _ => .done
  | annotated e t =>
    exact (h.eval e _).andThen fun _ => (Keeps.attempt_any _).andThen fun _ =>
      keeps_toRunning (hK.fresh _)
  | apply name args => exact keeps_apply hK h name args
  | call method? args mode => exact keeps_call hK h method? args mode
  | decode method? blob => exact keeps_decode hK h method? blob
  | fail e => exact keeps_failing h e

end Evaluation

/-! ## Commands -/

namespace Execution

variable {S : Setting σ} (hK : S.Stable K) {self : Engine σ} (h : self.Keeping K)

theorem keeps_path (text : String) : Keeps (RunsAnywhere K) (path S text) :=
  (keeps_anywhere fun _ => keeps_env).andThen fun _ => .done

theorem keeps_configure (source : String) : Keeps (RunsAnywhere K) (configure source) :=
  Keeps.get.andThen fun _ => (Keeps.attempt_any _).andThen fun _ =>
    (Keeps.attempt_any _).andThen fun _ => keeps_modifyEnv _

theorem keeps_doing {α : Type} {act : Doing σ α} (hact : Keeps K act) :
    Keeps (RunsAnywhere K) act.toRunning :=
  Keeps.toRunning fun _ => hact

include hK

theorem keeps_display (topic : Topic) (message : String) :
    Keeps (RunsAnywhere K) (display topic message) :=
  keeps_doing (hK.steady.display topic message)

theorem keeps_takeCost (name : String) (e : Exp) (v : Value) (shown : Bool) :
    Keeps (RunsAnywhere K) (takeCost name e v shown) := by
  unfold takeCost
  split
  · exact .done
  · split
    · exact .done
    · refine (keeps_modifyEnv _).andThen fun _ => ?_
      split
      · exact (keeps_display hK _ _).andThen fun _ => .done
      · exact .done

theorem keeps_bindResult (name : String) (e : Exp) (v : Value) (shown : Bool) :
    Keeps (RunsAnywhere K) (bindResult name e v shown) := by
  refine (keeps_takeCost hK name e v shown).andThen fun v => ?_
  dsimp only
  split
  · exact (keeps_display hK _ _).andThen fun _ => (keeps_modifyEnv _).andThen fun _ => .done
  · exact (keeps_modifyEnv _).andThen fun _ => .done

theorem keeps_importCanister (name canister : String) (file? : Option String) :
    Keeps (RunsAnywhere K) (importCanister S name canister file?) := by
  cases file? with
  | none =>
    exact (keeps_anywhere fun _ => keeps_env).andThen fun _ => (Keeps.attempt_any _).andThen fun _ =>
      keeps_modifyEnv _
  | some file =>
    intro (env, s) hs
    refine ⟨?_, fun _ _ => trivial⟩
    obtain ⟨f, hf⟩ | ⟨p, info, -, -, hi⟩ := importCanister_run (S := S) name canister file env s
    · rwa [hf]
    · rw [hi]
      exact hK s _ (.imported hi) hs

theorem keeps_saveTo (text : String) : Keeps (RunsAnywhere K) (saveTo S text) := by
  refine (keeps_path text).andThen fun file => (keeps_anywhere fun _ => keeps_env).andThen fun _ => ?_
  refine (keeps_doing (hK.steady.changeDisk _ _)).andThen fun failure? => ?_
  split
  · exact .throw _
  · exact .done

include h

theorem keeps_evaluate (e : Exp) : Keeps (RunsAnywhere K) (evaluate S self e) :=
  (keeps_doing hK.steady.clock).andThen fun _ => (keeps_anywhere (h.eval e)).andThen fun _ =>
    (keeps_bindResult hK _ _ _ _).andThen fun _ => (keeps_doing hK.steady.clock).andThen fun _ =>
      (keeps_display hK _ _).andThen fun _ => .done

omit hK in
theorem keeps_assertion (op : String) (left right : Exp) :
    Keeps (RunsAnywhere K) (assertion self op left right) :=
  (keeps_anywhere (h.eval left)).andThen fun _ => (keeps_anywhere (h.eval right)).andThen fun _ =>
    (Keeps.attempt_any _).andThen fun _ => .guarded fun _ => .done

theorem keeps_useIdentity (name : String) (source? : Option Exp) :
    Keeps (RunsAnywhere K) (useIdentity S self name source?) := by
  have used (identity : Identity) : Keeps (RunsAnywhere K)
      (modify fun state => (state.1, state.2.use name identity) : Running σ Unit) :=
    .modify fun state hs => hK.steady state.2 _ (.used name identity) hs
  have use (identity : Identity) : Keeps (RunsAnywhere K) (do
      modify fun state => (state.1, state.2.use name identity)
      display .output ("Current identity " ++ identity.sender.toText)
      bindVar name (.principal identity.sender) : Running σ Unit) :=
    (used identity).andThen fun _ => (keeps_display hK _ _).andThen fun _ => keeps_modifyEnv _
  unfold useIdentity
  split
  · exact (keeps_doing (hK.steady.namedIdentity name)).andThen use
  · exact (keeps_anywhere (h.eval _)).andThen fun _ => (keeps_anywhere fun _ => keeps_env).andThen
      fun _ => (keeps_doing (hK.steady.identityOf _ _)).andThen use

theorem keeps_echoed (prepared : List Char) (commands : List Command) :
    Keeps (RunsAnywhere K) (echoed self prepared commands) :=
  .forM fun c _ => (keeps_display hK _ _).andThen fun _ => (h.run c).andThen fun _ => .done

theorem keeps_loadFrom (text : String) : Keeps (RunsAnywhere K) (loadFrom S self text) := by
  refine (keeps_path text).andThen fun file => (keeps_doing (Keeps.readText file)).andThen fun r => ?_
  split
  · exact .throw _
  · refine (Keeps.attempt_any _).andThen fun _ => (Keeps.attempt_any _).andThen fun commands => ?_
    refine (keeps_anywhere fun _ => keeps_env).andThen fun _ => (keeps_modifyEnv _).andThen fun _ => ?_
    exact (keeps_echoed hK h _ commands).afterwards fun _ _ hs => hs

omit hK in
theorem keeps_condition (keyword : String) (cond : Exp) :
    Keeps (RunsAnywhere K) (condition self keyword cond) := by
  refine (keeps_anywhere (h.eval cond)).andThen fun v => ?_
  split
  · exact .done
  · exact .throw _

theorem keeps_step (c : Command) : Keeps (RunsAnywhere K) (step S self c) := by
  unfold step
  split
  case h_1 =>
    exact (keeps_anywhere (h.eval _)).andThen fun _ => (keeps_bindResult hK _ _ _ _).andThen fun _ =>
      .done
  case h_2 => exact (keeps_evaluate hK h _).andThen fun _ => .done
  case h_3 => exact (keeps_assertion h _ _ _).andThen fun _ => .done
  case h_4 => exact (keeps_importCanister hK _ _ _).andThen fun _ => .done
  case h_5 =>
    exact (keeps_configure _).andThen fun _ => .done
  case h_6 => exact (keeps_useIdentity hK h _ _).andThen fun _ => .done
  case h_7 => exact (keeps_saveTo hK _).andThen fun _ => .done
  case h_8 => exact (keeps_loadFrom hK h _).andThen fun _ => .done
  case h_9 => exact (keeps_modifyEnv _).andThen fun _ => .done
  case h_10 =>
    refine (keeps_condition h _ _).andThen fun b => ?_
    split
    · exact (h.block _).andThen fun _ => .done
    · exact (h.block _).andThen fun _ => .done
  case h_11 =>
    refine (keeps_condition h _ _).andThen fun b => ?_
    split
    · exact (h.block _).andThen fun _ => h.run c
    · exact .done

end Execution

/-! ## Runs -/

/-- Within any depth, evaluation keeps the environment, and whatever runs keeps what the steps of
the session keep. -/
theorem keeping_within {S : Setting σ} (hK : S.Stable K) (depth : Nat) :
    Engine.Keeping ⟨evalWithin S depth, runWithin S depth⟩ K := by
  -- a step calls back the engine of the depth below, in a child wherever it runs commands
  induction depth with
  | zero =>
    constructor
    · intro e env
      dsimp only
      rw [evalWithin]
      exact .throw _
    · intro c
      dsimp only
      rw [runWithin]
      exact .throw _
  | succ depth ih =>
    constructor
    · intro e env
      dsimp only
      rw [evalWithin]
      exact Evaluation.keeps_step hK.steady ih e
    · intro c
      dsimp only
      rw [runWithin]
      exact Execution.keeps_step hK ih c

end

/-- The evaluation of an expression, however deep it may nest and whether it fails or not, leaves the
environment as it was. -/
theorem evalWithin_env {σ : Type} (S : Setting σ) (depth : Nat) (e : Exp) (env : Env)
    (s : Session σ) : ((evalWithin S depth e).run.run (env, s)).2.1 = env := by
  have hK : S.Stable fun _ => True := fun _ _ _ _ => trivial
  exact ((keeping_within hK depth).eval e env (env, s) ⟨rfl, trivial⟩).1.1

end CanisterShell
