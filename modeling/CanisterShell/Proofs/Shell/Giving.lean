import CanisterShell.Shell.Session
import Mathlib.Tactic.Common

/-!
# What actions give

An action over a state *gives* a value from one state to another if, started in the one, it succeeds
with the value and ends in the other.  What a sequence gives is read off its parts one after another,
and so is the failure that ends it.
-/

namespace CanisterShell

/-- Started in `s`, the action gives `a` and ends in `s'`. -/
def Gives {τ α : Type} (act : ExceptT Failure (StateM τ) α) (s : τ) (a : α) (s' : τ) : Prop :=
  act.run.run s = (.ok a, s')

namespace Gives

variable {τ α β : Type} {act : ExceptT Failure (StateM τ) α}
  {next : α → ExceptT Failure (StateM τ) β} {a : α} {b : β} {s s' s'' : τ}

theorem run_bind (h : Gives act s a s') : (act >>= next).run.run s = (next a).run.run s' := by
  rw [ExceptT.run_bind, StateT.run_bind, h]
  rfl

theorem bind (h : Gives act s a s') (h' : Gives (next a) s' b s'') :
    Gives (act >>= next) s b s'' :=
  h.run_bind.trans h'

theorem run_bind_of_error {f : Failure} (h : act.run.run s = (.error f, s')) :
    (act >>= next).run.run s = (.error f, s') := by
  rw [ExceptT.run_bind, StateT.run_bind, h]
  rfl

theorem of_bind (h : Gives (act >>= next) s b s'') :
    ∃ a s', Gives act s a s' ∧ Gives (next a) s' b s'' := by
  rw [Gives, ExceptT.run_bind, StateT.run_bind] at h
  cases hr : act.run.run s with
  | mk r s' =>
    rw [hr] at h
    cases r with
    | ok a => exact ⟨a, s', hr, h⟩
    | error f => cases h

theorem run_attempt (x : Attempt α) (s : τ) :
    (liftM x : ExceptT Failure (StateM τ) α).run.run s = (x, s) := by
  cases x with
  | ok a => rfl
  | error f => rfl

theorem attempt {x : Attempt α} (h : x = .ok a) :
    Gives (liftM x : ExceptT Failure (StateM τ) α) s a s := by
  subst h
  rfl

theorem of_attempt {x : Attempt α} (h : Gives (liftM x : ExceptT Failure (StateM τ) α) s a s') :
    x = .ok a ∧ s' = s := by
  cases x with
  | ok a' =>
    cases h
    exact ⟨rfl, rfl⟩
  | error f => cases h

theorem run_toRunning {σ : Type} {act : Doing σ α} {s s' : Session σ} {r : Except Failure α}
    (h : act.run.run s = (r, s')) (env : Env) : act.toRunning.run.run (env, s) = (r, (env, s')) :=
  congrArg (fun x : Except Failure α × Session σ => (x.1, (env, x.2))) h

theorem toRunning {σ : Type} {act : Doing σ α} {s s' : Session σ} (h : Gives act s a s')
    (env : Env) : Gives act.toRunning (env, s) a (env, s') :=
  run_toRunning h env

theorem run_toRunning_bind {σ : Type} (act : Doing σ α) (f : α → Doing σ β) (env : Env)
    (s : Session σ) : (Doing.toRunning (act >>= f)).run.run (env, s) =
      (act.toRunning >>= fun a => (f a).toRunning).run.run (env, s) := by
  cases hr : act.run.run s with
  | mk r s' =>
    have hact := run_toRunning hr env
    cases r with
    | ok a =>
      have hgives : Gives act s a s' := hr
      rw [run_bind hact, run_toRunning hgives.run_bind env]
      rfl
    | error e => rw [run_bind_of_error hact, run_toRunning (run_bind_of_error hr) env]

theorem of_toRunning {σ : Type} {act : Doing σ α} {s s' : Session σ} {env env' : Env}
    (h : Gives act.toRunning (env, s) a (env', s')) : Gives act s a s' ∧ env' = env := by
  obtain ⟨ha, hstate⟩ := Prod.mk.inj h
  obtain ⟨rfl, hs⟩ := Prod.mk.inj hstate
  exact ⟨Prod.ext ha hs, rfl⟩

theorem afterwards {σ : Type} {act : Running σ α} {state : Env × Session σ} {env : Env}
    {s : Session σ} (h : Gives act state a (env, s)) (f : Env → Env) :
    Gives (Running.afterwards act f) state a (f env, s) :=
  congrArg (fun x : Except Failure α × (Env × Session σ) => (x.1, (f x.2.1, x.2.2))) h

theorem run_inChild {σ : Type} {f : Env → Env} {act : Running σ α} {env env' : Env}
    {s s' : Session σ} {r : Except Failure α} (h : act.run.run (f env, s) = (r, (env', s'))) :
    (Running.inChild f act).run.run (env, s) = (r, (env, s')) :=
  congrArg (fun x : Except Failure α × (Env × Session σ) => (x.1, (env, x.2.2))) h

theorem inChild {σ : Type} {f : Env → Env} {act : Running σ α} {env env' : Env}
    {s s' : Session σ} (h : Gives act (f env, s) a (env', s')) :
    Gives (Running.inChild f act) (env, s) a (env, s') :=
  run_inChild h

/-! ### Failures handled -/

theorem outcome (h : Gives act s a s') : Gives (CanisterShell.outcome act) s (.ok a) s' := by
  rw [Gives, CanisterShell.outcome, ExceptT.run_mk, StateT.run_bind, h]
  rfl

theorem outcome_of_error {e : Error} (h : act.run.run s = (.error (.error e), s')) :
    Gives (CanisterShell.outcome act) s (.error e) s' := by
  rw [Gives, CanisterShell.outcome, ExceptT.run_mk, StateT.run_bind, h]
  rfl

theorem run_outcome_of_unforeseen {f : Failure} (h : act.run.run s = (.error f, s'))
    (hf : ∀ e, f ≠ .error e) : (CanisterShell.outcome act).run.run s = (.error f, s') := by
  rw [CanisterShell.outcome, ExceptT.run_mk, StateT.run_bind, h]
  cases f with
  | error e => exact absurd rfl (hf e)
  | fault f => rfl
  | exhausted => rfl

theorem tryCatch {handle : Failure → ExceptT Failure (StateM τ) α} (h : Gives act s a s') :
    Gives (MonadExcept.tryCatch act handle) s a s' := by
  rw [Gives, ExceptT.run_tryCatch, StateT.run_bind, h]
  rfl

theorem run_tryCatch_of_error {handle : Failure → ExceptT Failure (StateM τ) α} {f : Failure}
    (h : act.run.run s = (.error f, s')) :
    (MonadExcept.tryCatch act handle).run.run s = (handle f).run.run s' := by
  rw [ExceptT.run_tryCatch, StateT.run_bind, h]
  rfl

/-! ### Agents -/

section Agents

variable {σ : Type} {act : Action σ α} {s : Session σ} {w : σ}

theorem perform (h : Gives act s.world a w) : Gives (Doing.perform act) s a { s with world := w } := by
  have hrun : (Doing.perform act).run.run s =
      ((act.run.run s.world).1, { s with world := (act.run.run s.world).2 }) := rfl
  rw [Gives, hrun, h]

theorem run_perform_of_error {f : Failure} (h : act.run.run s.world = (.error f, w)) :
    (Doing.perform act).run.run s = (.error f, { s with world := w }) := by
  have hrun : (Doing.perform act).run.run s =
      ((act.run.run s.world).1, { s with world := (act.run.run s.world).2 }) := rfl
  rw [hrun, h]

end Agents

end Gives

theorem gives_get {σ : Type} {s : Session σ} : Gives (get : Doing σ (Session σ)) s s s := rfl

theorem gives_env {σ : Type} {env : Env} {s : Session σ} :
    Gives Running.env (env, s) env (env, s) := rfl

/-! ## Variables -/

theorem Env.lookup_bind (env : Env) (name : String) (v : Candid.Value) :
    (env.bind name v).lookup name = .ok v := by
  simp only [Env.lookup, Env.bind, Table.find?_put, if_pos]

end CanisterShell
