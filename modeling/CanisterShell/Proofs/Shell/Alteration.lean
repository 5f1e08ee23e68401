import CanisterShell.Proofs.Shell.Silence

/-!
# What commands change in their environment

A command that runs no others does all that can fail before it changes its environment, and then
changes one thing: it binds a variable, with the cost of a call beside it, or it defines a function,
or it puts settings for random values in place (`Action.Changes`).  Commands that run others change
what those change, one after another up to the first that fails.  No command changes where paths
start: a file that is loaded has a place of its own to start from, which is given up when it ends,
however it ends (`runWithin_changes`).
-/

namespace CanisterShell

open Candid Syntax

def Syntax.Action.runsOthers : Action → Bool
  | .loadFrom _ | .branch .. | .loop .. => true
  | _ => false

/-- A result is bound to a variable; if it is that of a call which is sent, the cost of the call may
have been bound before. -/
inductive Env.BindsResult (env : Env) (name : String) (e : Exp) : Env → Prop where
  | plain (v : Value) : BindsResult env name e (env.bind name v)
  | measured (hcall : Execution.isDirectCall e = true) (cost : Int) (v : Value) :
      BindsResult env name e ((env.bind (Cost.variableName name) (.int .int64 cost)).bind name v)

/-- What a command that runs no others changes in its environment when it succeeds. -/
inductive Syntax.Action.Changes (env : Env) : Action → Env → Prop where
  | bind {name : String} {e : Exp} {env' : Env} (h : env.BindsResult name e env') :
      Changes env (.bind name e) env'
  | evaluate {e : Exp} {env' : Env} (h : env.BindsResult "_" e env') : Changes env (.evaluate e) env'
  | assertion (op : String) (left right : Exp) : Changes env (.assertion op left right) env
  | importCanister (name canister : String) (interface? : Option String) (p : Principal) :
      Changes env (.importCanister name canister interface?) (env.bind name (.principal p))
  | configure (source : String) (config : Random.Config) :
      Changes env (.configure source) { env with config := config }
  | useIdentity (name : String) (source? : Option Exp) (p : Principal) :
      Changes env (.useIdentity name source?) (env.bind name (.principal p))
  | saveTo (path : String) : Changes env (.saveTo path) env
  | define (name : String) (params : List String) (body : List Command) :
      Changes env (.define name params body)
        { env with functions := env.functions.put name ⟨params, body⟩ }

theorem Syntax.Action.Changes.base {env env' : Env} {a : Action} (h : a.Changes env env') :
    env'.base = env.base := by
  cases h with
  | bind h => cases h <;> rfl
  | evaluate h => cases h <;> rfl
  | _ => rfl

/-! ## Actions that change something last -/

/-- An action that succeeds changes its environment in `R`, and one that fails leaves it as it was. -/
def Alters {σ α : Type} (R : Env → Env → Prop) (act : Running σ α) : Prop :=
  ∀ env s, (∀ a, (act.run.run (env, s)).1 = .ok a → R env (act.run.run (env, s)).2.1) ∧
    ∀ f, (act.run.run (env, s)).1 = .error f → (act.run.run (env, s)).2.1 = env

/-- An action that leaves its environment as it was. -/
abbrev LeavesEnv {σ α : Type} (act : Running σ α) : Prop :=
  ∀ env, Keeps (RunsIn env fun _ => True) act

section

variable {σ α β : Type} {R : Env → Env → Prop}

theorem leavesEnv_doing (act : Doing σ α) : LeavesEnv act.toRunning :=
  fun _ => keeps_toRunning fun _ _ => ⟨trivial, fun _ _ => trivial⟩

namespace Alters

theorem of_leavesEnv {act : Running σ α} (h : LeavesEnv act) (hR : ∀ env, R env env) :
    Alters R act := by
  intro env s
  have henv : (act.run.run (env, s)).2.1 = env := (h env (env, s) ⟨rfl, trivial⟩).1.1
  rw [henv]
  exact ⟨fun _ _ => hR env, fun _ _ => rfl⟩

theorem after {act : Running σ α} {next : α → Running σ β} (h : LeavesEnv act)
    (h' : ∀ a, Alters R (next a)) : Alters R (act >>= next) := by
  intro env s
  have henv : (act.run.run (env, s)).2.1 = env := (h env (env, s) ⟨rfl, trivial⟩).1.1
  match hr : act.run.run (env, s) with
  | (.error f, env', s') =>
    rw [hr] at henv
    rw [Gives.run_bind_of_error hr]
    exact ⟨nofun, fun _ _ => henv⟩
  | (.ok a, env', s') =>
    rw [hr] at henv
    obtain rfl : env' = env := henv
    rw [Gives.run_bind hr]
    exact h' a env' s'

theorem andThen {act : Running σ α} {next : α → Running σ β} (h : Alters R act)
    (h' : ∀ a env s, ∃ b s', Gives (next a) (env, s) b (env, s')) : Alters R (act >>= next) := by
  intro env s
  have hact := h env s
  match hr : act.run.run (env, s) with
  | (.error f, env', s') =>
    rw [hr] at hact
    rw [Gives.run_bind_of_error hr]
    exact ⟨nofun, fun _ _ => hact.2 f rfl⟩
  | (.ok a, env', s') =>
    rw [hr] at hact
    obtain ⟨b, s'', hb⟩ := h' a env' s'
    rw [Gives.run_bind hr, hb]
    exact ⟨fun _ _ => hact.1 a rfl, nofun⟩

theorem imp {R' : Env → Env → Prop} {act : Running σ α} (h : Alters R act)
    (hR : ∀ env env', R env env' → R' env env') : Alters R' act :=
  fun env s => ⟨fun a ha => hR _ _ ((h env s).1 a ha), (h env s).2⟩

theorem modifyEnv {f : Env → Env} (h : ∀ env, R env (f env)) :
    Alters R (Running.modifyEnv f : Running σ Unit) :=
  fun env _ => ⟨fun _ _ => h env, nofun⟩

theorem of_gives {act : Running σ α} (h : ∀ env s, ∃ a env' s', Gives act (env, s) a (env', s') ∧
    R env env') : Alters R act := by
  intro env s
  obtain ⟨a, env', s', hact, hR⟩ := h env s
  rw [hact]
  exact ⟨fun _ _ => hR, nofun⟩

end Alters

end

/-! ## Commands that run no others -/

namespace Execution

variable {σ : Type} {S : Setting σ} {self : Engine σ}

theorem display_gives (topic : Topic) (message : String) (env : Env) (s : Session σ) :
    Gives (display topic message) (env, s) () (env, s.tell topic message) := rfl

theorem takeCost_gives (name : String) (e : Exp) (v : Value) (shown : Bool) (env : Env)
    (s : Session σ) : ∃ v' env' s', Gives (takeCost name e v shown) (env, s) v' (env', s') ∧
      (env' = env ∨ isDirectCall e = true ∧
        ∃ cost, env' = env.bind (Cost.variableName name) (.int .int64 cost)) := by
  unfold takeCost
  split
  case isTrue => exact ⟨v, env, s, rfl, .inl rfl⟩
  case isFalse hcall =>
    split
    case h_1 v' _ => exact ⟨v', env, s, rfl, .inl rfl⟩
    case h_2 v' cost _ =>
      have hcost : Gives (bindVar (Cost.variableName name) (.int .int64 cost)) (env, s) ()
          (env.bind (Cost.variableName name) (.int .int64 cost), s) := rfl
      have hsent : isDirectCall e = true := by simpa using hcall
      cases shown with
      | false => exact ⟨v', _, s, hcost.bind rfl, .inr ⟨hsent, cost, rfl⟩⟩
      | true =>
        have hshown := display_gives .output ("Cost: " ++ toString cost ++ " Wasm instructions")
          (env.bind (Cost.variableName name) (.int .int64 cost)) s
        exact ⟨v', _, _, hcost.bind (hshown.bind rfl), .inr ⟨hsent, cost, rfl⟩⟩

theorem bindResult_gives (name : String) (e : Exp) (v : Value) (shown : Bool) (env : Env)
    (s : Session σ) : ∃ v' env' s', Gives (bindResult name e v shown) (env, s) v' (env', s') ∧
      env.BindsResult name e env' := by
  obtain ⟨v', env', s', htake, henv'⟩ := takeCost_gives name e v shown env s
  have hbinds : env.BindsResult name e (env'.bind name v') := by
    obtain rfl | ⟨hcall, cost, rfl⟩ := henv'
    · exact .plain v'
    · exact .measured hcall cost v'
  cases shown with
  | false => exact ⟨v', _, s', htake.bind rfl, hbinds⟩
  | true => exact ⟨v', _, _, htake.bind ((display_gives .output v'.toText env' s').bind rfl), hbinds⟩

theorem alters_bindResult (name : String) (e : Exp) (v : Value) (shown : Bool) :
    Alters (Env.BindsResult · name e) (bindResult (σ := σ) name e v shown) :=
  .of_gives (bindResult_gives name e v shown)

variable (h : ∀ e, LeavesEnv (self.eval e))

theorem leavesEnv_path (text : String) : LeavesEnv (path S text) :=
  fun _ => keeps_env.andThen fun _ => .done

include h

theorem alters_evaluate (e : Exp) : Alters (Env.BindsResult · "_" e) (evaluate S self e) := by
  refine .after (leavesEnv_doing _) fun start => .after (h e) fun v => ?_
  exact (alters_bindResult "_" e v true).andThen fun v env s => ⟨v, _, rfl⟩

theorem leavesEnv_assertion (op : String) (left right : Exp) :
    LeavesEnv (assertion self op left right) :=
  fun env => (h left env).andThen fun _ => (h right env).andThen fun _ =>
    (Keeps.attempt_any _).andThen fun _ => .guarded fun _ => .done

omit h in
theorem alters_importCanister (name canister : String) (file? : Option String) :
    Alters (fun env env' => ∃ p, env' = env.bind name (.principal p))
      (importCanister S name canister file?) := by
  have bound (p : Principal) : Alters (fun env env' => ∃ p, env' = env.bind name (.principal p))
      (bindVar (σ := σ) name (.principal p)) := .modifyEnv fun _ => ⟨p, rfl⟩
  refine .after (fun _ => keeps_env) fun _ => .after (fun _ => .attempt_any _) fun p => ?_
  split
  · exact .after (leavesEnv_path _) fun _ => .after (leavesEnv_doing _) fun _ => bound p
  · exact bound p

omit h in
theorem alters_configure (source : String) :
    Alters (fun env env' => ∃ config, env' = { env with config := config })
      (configure (σ := σ) source) := by
  refine .after (fun _ => Keeps.get.weaken) fun (env, s) => ?_
  refine .after (fun _ => .attempt_any _) fun datum => ?_
  exact .after (fun _ => .attempt_any _) fun config => .modifyEnv fun _ => ⟨config, rfl⟩

theorem alters_useIdentity (name : String) (source? : Option Exp) :
    Alters (fun env env' => ∃ p, env' = env.bind name (.principal p))
      (useIdentity S self name source?) := by
  have use (identity : Identity) : Alters (fun env env' => ∃ p, env' = env.bind name (.principal p))
      (do
        modify fun state => (state.1, state.2.use name identity)
        display .output ("Current identity " ++ identity.sender.toText)
        bindVar name (.principal identity.sender) : Running σ Unit) := by
    have used : LeavesEnv (modify fun state => (state.1, state.2.use name identity) :
        Running σ Unit) := fun _ => .modify fun _ hs => hs
    exact .after used fun _ => .after (leavesEnv_doing _) fun _ => .modifyEnv fun _ => ⟨_, rfl⟩
  unfold useIdentity
  split
  · exact .after (leavesEnv_doing _) use
  · exact .after (h _) fun _ => .after (fun _ => keeps_env) fun _ => .after (leavesEnv_doing _) use

omit h in
theorem leavesEnv_saveTo (text : String) : LeavesEnv (saveTo S text) := fun env => by
  refine (leavesEnv_path text env).andThen fun file => keeps_env.andThen fun _ => ?_
  refine (leavesEnv_doing _ env).andThen fun failure? => ?_
  split
  · exact .throw _
  · exact .done

/-- A command that runs no others changes what it changes last. -/
theorem alters_step (span : Text.Span) (a : Syntax.Action) (ha : a.runsOthers = false) :
    Alters (a.Changes · ·) (step S self (.mk span a)) := by
  have done {α : Type} (v : α) (env : Env) (s : Session σ) :
      ∃ w s', Gives (Pure.pure v : Running σ α) (env, s) w (env, s') := ⟨v, s, rfl⟩
  cases a <;> dsimp only [step, Command.action]
  case bind name e =>
    refine .after (h e) fun v => .andThen ?_ fun v => done (some v)
    exact (alters_bindResult name e v false).imp fun _ _ => .bind
  case evaluate e =>
    exact ((alters_evaluate h e).imp fun _ _ => .evaluate).andThen fun v => done (some v)
  case assertion op left right =>
    exact (Alters.of_leavesEnv (leavesEnv_assertion h op left right)
      fun _ => .assertion op left right).andThen fun _ => done none
  case importCanister name canister interface? =>
    refine .andThen ?_ fun _ => done none
    refine (alters_importCanister name canister interface?).imp fun _ _ ⟨p, hp⟩ => ?_
    exact hp ▸ .importCanister name canister interface? p
  case configure source =>
    refine .andThen ?_ fun _ => done none
    exact (alters_configure source).imp fun _ _ ⟨config, hconfig⟩ =>
      hconfig ▸ .configure source config
  case useIdentity name source? =>
    refine .andThen ?_ fun _ => done none
    exact (alters_useIdentity h name source?).imp fun _ _ ⟨p, hp⟩ => hp ▸ .useIdentity name source? p
  case saveTo path =>
    exact (Alters.of_leavesEnv (leavesEnv_saveTo path) fun _ => .saveTo path).andThen
      fun _ => done none
  case define name params body =>
    exact (Alters.modifyEnv fun _ => .define name params body).andThen fun _ => done none
  case loadFrom path => cases ha
  case branch cond yes no => cases ha
  case loop cond body => cases ha

end Execution

/-! ## Where paths start -/

/-- Paths start from a directory. -/
def StartsAt {σ : Type} (base : File.Path) (state : Env × Session σ) : Prop := state.1.base = base

section

variable {σ : Type} {base : File.Path}

theorem LeavesEnv.keepsBase {α : Type} {act : Running σ α} (h : LeavesEnv act) :
    Keeps (StartsAt base) act := fun (env, s) hs =>
  ⟨(congrArg Env.base (h env (env, s) ⟨rfl, trivial⟩).1.1).trans hs, fun _ _ => trivial⟩

theorem Alters.keepsBase {α : Type} {R : Env → Env → Prop} {act : Running σ α} (h : Alters R act)
    (hR : ∀ env env', R env env' → env'.base = env.base) : Keeps (StartsAt base) act := by
  intro (env, s) hs
  refine ⟨?_, fun _ _ => trivial⟩
  obtain ⟨hok, herror⟩ := h env s
  cases hr : (act.run.run (env, s)).1 with
  | ok a => exact (hR _ _ (hok a hr)).trans hs
  | error f => exact (congrArg Env.base (herror f hr)).trans hs

namespace Execution

variable {S : Setting σ} {self : Engine σ} (h : ∀ e, LeavesEnv (self.eval e))

/-- A file that is loaded starts from its own directory, and what started from another goes on from
there. -/
theorem keepsBase_loadFrom (text : String) : Keeps (StartsAt base) (loadFrom S self text) := by
  have henv : Keeps (StartsAt base) (Running.env (σ := σ)) fun env => env.base = base :=
    Keeps.env.imp fun _ ⟨_, hs⟩ => hs
  refine (leavesEnv_path text).keepsBase.andThen fun file =>
    (leavesEnv_doing _).keepsBase.andThen fun r => ?_
  split
  · exact .throw _
  · refine (Keeps.attempt_any _).andThen fun prepared => (Keeps.attempt_any _).andThen fun commands =>
      henv.bind fun env hbase => ?_
    exact fun (_, _) _ => ⟨hbase, fun _ _ => trivial⟩

theorem keepsBase_block (hrun : ∀ c, Keeps (StartsAt base) (self.run c)) (commands : List Command) :
    Keeps (StartsAt base) (self.block commands) :=
  .forM fun c _ => (hrun c).andThen fun _ => .done

include h

theorem keepsBase_condition (keyword : String) (cond : Exp) :
    Keeps (StartsAt base) (condition self keyword cond) := by
  refine (h cond).keepsBase.andThen fun v => ?_
  split
  · exact .done
  · exact .throw _

theorem keepsBase_step (hrun : ∀ c, Keeps (StartsAt base) (self.run c)) (c : Command) :
    Keeps (StartsAt base) (step S self c) := by
  obtain ⟨span, a⟩ := c
  cases ha : a.runsOthers with
  | false => exact (alters_step h span a ha).keepsBase fun _ _ hchanges => hchanges.base
  | true =>
    unfold step
    cases a with
    | loadFrom path => exact (keepsBase_loadFrom path).andThen fun _ => .done
    | branch cond yes no =>
      refine (keepsBase_condition h "if" cond).andThen fun b => ?_
      split
      · exact (keepsBase_block hrun yes).andThen fun _ => .done
      · exact (keepsBase_block hrun no).andThen fun _ => .done
    | loop cond body =>
      refine (keepsBase_condition h "while" cond).andThen fun b => ?_
      split
      · exact (keepsBase_block hrun body).andThen fun _ => hrun _
      · exact .done
    | _ => cases ha

end Execution

/-! ## Any command -/

theorem leavesEnv_evalWithin (S : Setting σ) (depth : Nat) (e : Exp) :
    LeavesEnv (evalWithin S depth e) := fun env => by
  have hK : S.Stable fun _ => True := fun _ _ _ _ => trivial
  exact (keeping_within hK depth).eval e env

theorem keepsBase_within (S : Setting σ) (depth : Nat) (c : Command) :
    Keeps (StartsAt base) (runWithin S depth c) := by
  -- a step runs the commands of blocks and files, and the next round of a loop, one level below
  induction depth generalizing c with
  | zero => exact .throw _
  | succ depth ih => exact Execution.keepsBase_step (leavesEnv_evalWithin S depth) ih c

end

/-- Every command leaves where paths start as it was.  One that runs no others leaves all of its
environment as it was if it fails, and otherwise makes one change. -/
theorem runWithin_changes {σ : Type} (S : Setting σ) (depth : Nat) (c : Command) (env : Env)
    (s : Session σ) :
    let r := (runWithin S depth c).run.run (env, s)
    r.2.1.base = env.base ∧
      (c.action.runsOthers = false →
        (∀ v?, r.1 = .ok v? → c.action.Changes env r.2.1) ∧ ∀ f, r.1 = .error f → r.2.1 = env) := by
  refine ⟨(keepsBase_within S depth c (env, s) rfl).1, fun hc => ?_⟩
  cases depth with
  | zero => exact ⟨nofun, fun _ _ => rfl⟩
  | succ depth =>
    obtain ⟨span, a⟩ := c
    let engine : Engine σ := ⟨evalWithin S depth, runWithin S depth⟩
    have hstep : Alters a.Changes (Execution.step S engine (.mk span a)) :=
      Execution.alters_step (leavesEnv_evalWithin S depth) span a hc
    exact hstep env s

/-- A result that is bound, and an assertion that fails. -/
theorem runWithin_changes_bound :
    let env : Env := { base := ⟨"/", []⟩ }
    let s : Session Unit := { world := (), disk := ⟨[], []⟩, directory := [] }
    let binding : Syntax.Action := .bind "a" (.literal (.bool true))
    let failing : Syntax.Action := .assertion "==" (.literal (.bool true)) (.literal (.bool false))
    let bound := (runWithin (muted false) 2 (.mk ⟨0, 12, 1, 1⟩ binding)).run.run (env, s)
    let failed := (runWithin (muted false) 2 (.mk ⟨0, 20, 1, 1⟩ failing)).run.run (env, s)
    binding.Changes env bound.2.1 ∧ failed.2.1 = env := by
  intro env s binding failing bound failed
  exact ⟨((runWithin_changes (muted false) 2 (.mk ⟨0, 12, 1, 1⟩ binding) env s).2 rfl).1
      (some (.bool true)) rfl,
    ((runWithin_changes (muted false) 2 (.mk ⟨0, 20, 1, 1⟩ failing) env s).2 rfl).2
      (.error (.assertion (.bool true) "==" (.bool false))) rfl⟩

end CanisterShell
