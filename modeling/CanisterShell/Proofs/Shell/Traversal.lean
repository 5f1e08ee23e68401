import CanisterShell.Proofs.Shell.Agreement
import CanisterShell.Proofs.Shell.Alteration
import CanisterShell.Proofs.Table

/-!
# Functions applied to elements

A selector that goes through elements calls its function in one child of the environment, in which each
element takes the place of the one before.  As evaluation leaves the child alone, this is as good as a
child for each call (`run_step_map`, `run_step_filter`, `run_step_fold`): in the environment one call
shows nothing of another.
-/

namespace CanisterShell

open Candid Syntax

/-! ## Bindings for calls -/

namespace Env

variable {env : Env}

theorem bind_bind_self (name : String) (v w : Value) :
    (env.bind name w).bind name v = env.bind name v := by
  simp only [bind, Table.put_put_self]

theorem bind_both_again (acc acc' v v' : Value) :
    (((env.bind "" v').bind "_" acc').bind "" v).bind "_" acc = (env.bind "" v).bind "_" acc := by
  have hmem : "" ∈ (env.vars.put "" v').map (·.1) := Table.mem_map_fst_put
  simp only [bind, Table.put_put_of_mem (by decide : "" ≠ "_") hmem, Table.put_put_self]

/-- A child in which an element comes to be bound as in the environment itself. -/
def SeesItems (env child : Env) : Prop := ∀ v, child.bind "" v = env.bind "" v

/-- A child in which an element and what has been accumulated come to be bound as in the environment
itself. -/
def SeesBoth (env child : Env) : Prop :=
  ∀ acc v, (child.bind "" v).bind "_" acc = (env.bind "" v).bind "_" acc

end Env

namespace Selection

variable {σ : Type}

/-! ## Calls -/

section

variable (eval : Exp → Running σ Value)

/-- A function called with an element, which is bound in a child of the environment. -/
def called (function : String) (v : Value) : Running σ Value :=
  Running.inChild (Env.bind "" v) (eval (.apply function [.path "" []]))

/-- A function called with what has been accumulated and an element. -/
def calledWith (function : String) (acc v : Value) : Running σ Value :=
  Running.inChild (fun env => (env.bind "" v).bind "_" acc)
    (eval (.apply function [.path "_" [], .path "" []]))

end

/-- Whether an element is kept whose call is this one. -/
def kept (call : Running σ Value) : Running σ Bool := do
  match ← outcome call with
  | .error _ => return false
  | .ok (.bool false) => return false
  | .ok _ => return true

/-! ## A child for all calls -/

/-- The states of a child that is shared by calls, and of the environment with a child for each. -/
def SharedBy (env : Env) (P : Env → Prop) (state state' : Env × Session σ) : Prop :=
  P state.1 ∧ state' = (env, state.2)

section

variable {α : Type} {env : Env} {P : Env → Prop}

theorem endAlike_self (r : Except Failure α) : EndAlike (Same fun _ => True) r r := by
  cases r with
  | ok a => exact .ok ⟨rfl, trivial⟩
  | error f => exact .error f

/-- What is done in a shared child and with a child for each call comes to the same. -/
theorem run_inChild_of_agree {act act' : Running σ α} {Q : α → Prop}
    (h : Agree (SharedBy env P) act act' (Same Q)) (henv : P env) (s : Session σ) :
    (Running.inChild id act).run.run (env, s) = act'.run.run (env, s) := by
  obtain ⟨hend, -, hstate⟩ := h (env, s) (env, s) ⟨henv, rfl⟩
  have hresult : (act.run.run (env, s)).1 = (act'.run.run (env, s)).1 := by
    generalize (act.run.run (env, s)).1 = r, (act'.run.run (env, s)).1 = r' at hend
    cases hend with
    | ok ha => exact congrArg Except.ok ha.1
    | error f => rfl
  exact Prod.ext hresult hstate.symm

/-- A call in the shared child, which it finds as the environment would be found and leaves so. -/
theorem shares_inChild {act : Running σ Value} (hact : LeavesEnv act) {bind : Env → Env}
    (hP : ∀ child, P child → bind child = bind env) (hbind : P (bind env)) :
    Agree (SharedBy env P) (Running.modifyEnv bind >>= fun _ => act) (Running.inChild bind act)
      (Same fun _ => True) := by
  rintro ⟨child, s⟩ _ ⟨hchild, rfl⟩
  have hshared : (Running.modifyEnv bind >>= fun _ => act).run.run (child, s) =
      act.run.run (bind env, s) := by
    rw [← hP child hchild]
    rfl
  have hown : (Running.inChild bind act).run.run (env, s) =
      ((act.run.run (bind env, s)).1, (env, (act.run.run (bind env, s)).2.2)) := rfl
  have henv : (act.run.run (bind env, s)).2.1 = bind env := (hact _ (bind env, s) ⟨rfl, trivial⟩).1.1
  rw [hshared, hown]
  refine ⟨endAlike_self _, ?_, rfl⟩
  rw [henv]
  exact hbind

end

variable {eval : Exp → Running σ Value} (h : ∀ e, LeavesEnv (eval e)) {env : Env}
include h

theorem shares_applyTo (function : String) (v : Value) :
    Agree (SharedBy env env.SeesItems) (applyTo eval function v) (called eval function v)
      (Same fun _ => True) :=
  shares_inChild (h _) (fun _ hchild => hchild v) fun _ => Env.bind_bind_self "" _ v

theorem shares_keeps (function : String) (v : Value) :
    Agree (SharedBy env env.SeesItems) (keeps eval function v) (kept (called eval function v))
      (Same fun _ => True) :=
  (shares_applyTo h function v).outcome.andThen fun r _ => by
    cases r with
    | error e => exact .pure ⟨rfl, trivial⟩
    | ok v =>
      cases v with
      | bool b => cases b <;> exact .pure ⟨rfl, trivial⟩
      | _ => exact .pure ⟨rfl, trivial⟩

theorem shares_accumulate (function : String) (acc v : Value) :
    Agree (SharedBy env env.SeesBoth) (accumulate eval function acc v)
      (calledWith eval function acc v) (Same fun _ => True) :=
  shares_inChild (h _) (fun _ hchild => hchild acc v) fun _ _ => Env.bind_both_again _ acc _ v

/-! ## A child for each call -/

section

variable (s : Session σ) (function : String) (items : List Value)

theorem run_mapM_called : (Running.inChild id (items.mapM (applyTo eval function))).run.run (env, s) =
    (items.mapM (called eval function)).run.run (env, s) :=
  run_inChild_of_agree (.mapM fun v _ => shares_applyTo h function v) (fun _ => rfl) s

theorem run_filterM_called :
    (Running.inChild id (items.filterM (keeps eval function))).run.run (env, s) =
      (items.filterM fun v => kept (called eval function v)).run.run (env, s) :=
  run_inChild_of_agree (.filterM (fun v _ => shares_keeps h function v) fun _ _ => trivial)
    (fun _ => rfl) s

theorem run_foldlM_called (acc : Value) :
    (Running.inChild id (items.foldlM (accumulate eval function) acc)).run.run (env, s) =
      (items.foldlM (calledWith eval function) acc).run.run (env, s) :=
  run_inChild_of_agree (.foldlM (fun acc _ v _ => shares_accumulate h function acc v) trivial)
    (fun _ _ => rfl) s

end

variable (s : Session σ) (function : String) {v : Value} {items : List Value}

/-- Mapping calls the function with one element after another and puts the results together. -/
theorem run_step_map (hitems : elements? v = some items) :
    (step eval v (.map function)).run.run (env, s) =
      (items.mapM (called eval function) >>= fun results => liftM (rebuild v results)).run.run
        (env, s) := by
  have helements : elementsFor (.map function) v = .ok items := by rw [elementsFor, hitems]
  have hstep : (step eval v (.map function)).run.run (env, s) =
      (Running.inChild id (items.mapM (applyTo eval function)) >>= fun results =>
        liftM (rebuild v results)).run.run (env, s) := (Gives.attempt helements).run_bind
  rw [hstep, ExceptT.run_bind, StateT.run_bind, run_mapM_called h, ExceptT.run_bind, StateT.run_bind]

/-- Filtering calls the function with one element after another and puts together those that are
kept. -/
theorem run_step_filter (hitems : elements? v = some items) :
    (step eval v (.filter function)).run.run (env, s) =
      (items.filterM (fun v => kept (called eval function v)) >>= fun results =>
        liftM (rebuild v results)).run.run (env, s) := by
  have helements : elementsFor (.filter function) v = .ok items := by rw [elementsFor, hitems]
  have hstep : (step eval v (.filter function)).run.run (env, s) =
      (Running.inChild id (items.filterM (keeps eval function)) >>= fun results =>
        liftM (rebuild v results)).run.run (env, s) := (Gives.attempt helements).run_bind
  rw [hstep, ExceptT.run_bind, StateT.run_bind, run_filterM_called h, ExceptT.run_bind, StateT.run_bind]

/-- Folding calls the function with what it has given so far and one element after another. -/
theorem run_step_fold (hitems : elements? v = some items) {start : Exp} {acc : Value}
    {s₀ : Session σ} (hstart : Gives (eval start) (env, s₀) acc (env, s)) :
    (step eval v (.fold start function)).run.run (env, s₀) =
      (items.foldlM (calledWith eval function) acc).run.run (env, s) := by
  have helements : elementsFor (.fold start function) v = .ok items := by rw [elementsFor, hitems]
  have hstep : (step eval v (.fold start function)).run.run (env, s₀) =
      (eval start >>= fun acc => Running.inChild id
        (items.foldlM (accumulate eval function) acc)).run.run (env, s₀) :=
    (Gives.attempt helements).run_bind
  rw [hstep, hstart.run_bind, run_foldlM_called h]

end Selection

end CanisterShell
