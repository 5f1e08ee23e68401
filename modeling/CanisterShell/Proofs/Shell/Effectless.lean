import CanisterShell.Proofs.Shell.Restoring
import CanisterShell.Proofs.Shell.Traversal

/-!
# Functions without effects

A call without effects leaves environment and session as they are; all that goes on is the numbering of
the not-a-numbers that it computes.  Mapping, filtering and folding with such a function are the list
functions (`step_quiet`): each element is called with for itself, and the first call that fails ends
the step, except that errors, and they alone, do not end a filter.
-/

namespace CanisterShell

open Candid Syntax
open List (Forall₂)

/-- The session once `n` not-a-numbers have been numbered. -/
def Session.numbered {σ : Type} (n : Nat) (s : Session σ) : Session σ := { s with computed := n }

theorem Session.numbered_computed {σ : Type} (s : Session σ) : s.numbered s.computed = s := rfl

/-- Whether a function that is built in neither reads nor writes files. -/
def Builtin.leavesFiles : Builtin → Bool
  | file | output | wasmProfiling | flamegraph => false
  | _ => true

namespace Selection

variable {σ : Type}

/-! ## Actions without effects -/

/-- However many not-a-numbers have been numbered, the action changes nothing but their number. -/
def Quiet {α : Type} (env : Env) (s : Session σ) (act : Running σ α) : Prop :=
  ∀ n, ∃ r m, act.run.run (env, s.numbered n) = (r, (env, s.numbered m))

namespace Quiet

variable {α β : Type} {env : Env} {s : Session σ}

theorem attempt (x : Attempt α) : Quiet env s (liftM x) := fun n =>
  ⟨x, n, Gives.run_attempt x (env, s.numbered n)⟩

theorem fresh (v : Value) : Quiet env s (Doing.fresh v).toRunning := fun n =>
  ⟨.ok (v.fresh n).1, (v.fresh n).2, rfl⟩

theorem bind {act : Running σ α} {next : α → Running σ β} (h : Quiet env s act)
    (h' : ∀ a, Quiet env s (next a)) : Quiet env s (act >>= next) := by
  intro n
  obtain ⟨r, m, hr⟩ := h n
  cases r with
  | error f => exact ⟨.error f, m, Gives.run_bind_of_error hr⟩
  | ok a =>
    obtain ⟨r, k, hk⟩ := h' a m
    exact ⟨r, k, (Gives.run_bind hr).trans hk⟩

theorem ofEnv {next : Env → Running σ α} (h : ∀ env', Quiet env s (next env')) :
    Quiet env s (Running.env >>= next) :=
  bind (fun n => ⟨.ok env, n, rfl⟩) h

theorem outcome {act : Running σ α} (h : Quiet env s act) : Quiet env s (outcome act) := by
  intro n
  obtain ⟨r, m, hr⟩ := h n
  cases r with
  | error f =>
    cases f with
    | error e => exact ⟨_, m, Gives.outcome_of_error hr⟩
    | _ => exact ⟨_, m, Gives.run_outcome_of_unforeseen hr nofun⟩
  | ok a => exact ⟨_, m, Gives.outcome hr⟩

theorem mapM {f : α → Running σ β} {items : List α} (h : ∀ a ∈ items, Quiet env s (f a)) :
    Quiet env s (items.mapM f) := by
  induction items with
  | nil => exact attempt (.ok [])
  | cons a items ih =>
    obtain ⟨ha, hitems⟩ := List.forall_mem_cons.mp h
    rw [List.mapM_cons]
    exact ha.bind fun b => (ih hitems).bind fun bs => attempt (.ok (b :: bs))

theorem inChild {f : Env → Env} {act : Running σ α} (h : Quiet (f env) s act) :
    Quiet env s (Running.inChild f act) := by
  intro n
  obtain ⟨r, m, hr⟩ := h n
  exact ⟨r, m, Gives.run_inChild hr⟩

end Quiet

/-! ## Functions that are built in -/

section

variable {S : Setting σ} {env : Env} {s : Session σ} {self : Engine σ}

theorem quiet_path (S : Setting σ) (name : String) : Quiet env s (Evaluation.step S self (.path name [])) :=
  .ofEnv fun env' => (Quiet.attempt (env'.lookup name)).bind fun v => .attempt (.ok v)

theorem quiet_callForm (b : Builtin) {args : List Exp} (hargs : ∀ e ∈ args, Quiet env s (self.eval e)) :
    Quiet env s (Evaluation.callForm self b args) := by
  unfold Evaluation.callForm
  split
  case h_1 =>
    refine (hargs _ (.head _)).outcome.bind fun r => ?_
    cases r with
    | ok v => exact .attempt (.ok (Value.bool true))
    | error e => exact .attempt (.ok (Value.bool false))
  case h_2 =>
    refine (hargs _ (.head _)).bind fun v => (Quiet.attempt (Builtin.boolOf "ite" v)).bind fun b => ?_
    split
    · exact hargs _ (.tail _ (.head _))
    · exact hargs _ (.tail _ (.tail _ (.head _)))
  case h_3 => exact .attempt (.error .exhausted)

theorem quiet_callBuiltin {b : Builtin} (hb : b.leavesFiles = true) (env' : Env) (args : List Value) :
    Quiet env s (Evaluation.callBuiltin S env' b args).toRunning := by
  unfold Evaluation.callBuiltin
  split
  case h_1 => cases hb
  case h_2 => cases hb
  case h_3 => cases hb
  case h_4 => cases hb
  case h_5 =>
    split
    case h_1 x hx =>
      intro n
      rw [Gives.run_toRunning_bind]
      exact (Quiet.attempt x).bind (fun v => .fresh v) n
    case h_2 => exact .attempt (.error .exhausted)

theorem quiet_apply {function : String} {b : Builtin} (hname : Builtin.ofName? function = some b)
    (hb : b.leavesFiles = true) {args : List Exp} (hargs : ∀ e ∈ args, Quiet env s (self.eval e)) :
    Quiet env s (Evaluation.apply S self function args) := by
  unfold Evaluation.apply
  rw [hname]
  dsimp only
  split
  · split
    · exact .attempt _
    · exact quiet_callForm b hargs
  · refine (Quiet.mapM hargs).bind fun values => ?_
    split
    · exact .attempt _
    · exact .ofEnv fun env' => quiet_callBuiltin hb env' values

theorem quiet_called_builtin (S : Setting σ) (depth : Nat) {function : String} {b : Builtin}
    (hname : Builtin.ofName? function = some b) (hb : b.leavesFiles = true) (v : Value) :
    Quiet env s (called (evalWithin S (depth + 2)) function v) :=
  .inChild (quiet_apply hname hb (List.forall_mem_singleton.mpr (quiet_path S "")))

theorem quiet_calledWith_builtin (S : Setting σ) (depth : Nat) {function : String} {b : Builtin}
    (hname : Builtin.ofName? function = some b) (hb : b.leavesFiles = true) (acc v : Value) :
    Quiet env s (calledWith (evalWithin S (depth + 2)) function acc v) :=
  .inChild (quiet_apply hname hb (List.forall_mem_cons.mpr
    ⟨quiet_path S "_", List.forall_mem_singleton.mpr (quiet_path S "")⟩))

end

/-! ## How calls end -/

section

variable (env : Env) (s : Session σ)

/-- The call ends so, with some number of not-a-numbers before it. -/
def Ends (call : Running σ Value) (r : Except Failure Value) : Prop :=
  ∃ n m, call.run.run (env, s.numbered n) = (r, (env, s.numbered m))

/-- Folding ends so: with what the last call gives, or with the first failure. -/
inductive FoldEnds (call : Value → Value → Running σ Value) :
    Value → List Value → Except Failure Value → Prop where
  | nil (acc : Value) : FoldEnds call acc [] (.ok acc)
  | cons {acc acc' v : Value} {items : List Value} {r : Except Failure Value}
      (h : Ends env s (call acc v) (.ok acc')) (hrest : FoldEnds call acc' items r) :
      FoldEnds call acc (v :: items) r
  | stop {acc v : Value} {items : List Value} {f : Failure}
      (h : Ends env s (call acc v) (.error f)) : FoldEnds call acc (v :: items) (.error f)

end

/-- Whether an element is kept whose call ends so: unless it ends in an error or with false; what is no
error is not handled. -/
def verdict : Except Failure Value → Attempt Bool
  | .ok (.bool false) => .ok false
  | .ok _ => .ok true
  | .error (.error _) => .ok false
  | .error f => .error f

def marked (items : List Value) (marks : List Bool) : List Value :=
  ((items.zip marks).filter (·.2)).map (·.1)

variable {env : Env} {s : Session σ}

theorem run_kept {call : Running σ Value} {state state' : Env × Session σ} {r : Except Failure Value}
    (h : call.run.run state = (r, state')) : (kept call).run.run state = (verdict r, state') := by
  cases r with
  | error f =>
    cases f with
    | error e => exact Gives.run_bind (Gives.outcome_of_error h)
    | _ => exact Gives.run_bind_of_error (Gives.run_outcome_of_unforeseen h nofun)
  | ok v =>
    refine (Gives.run_bind (Gives.outcome h)).trans ?_
    cases v with
    | bool b => cases b <;> rfl
    | _ => rfl

theorem verdict_ok_iff {r : Attempt Value} : (∃ b, verdict r = .ok b) ↔ Attempt.Foreseen r := by
  cases r with
  | error f =>
    cases f with
    | error e => exact ⟨fun _ => .error ⟨e, rfl⟩, fun _ => ⟨false, rfl⟩⟩
    | _ => exact ⟨nofun, fun h => nomatch h _ rfl⟩
  | ok v =>
    refine ⟨fun _ => .ok v, fun _ => ?_⟩
    cases v with
    | bool b => cases b <;> exact ⟨_, rfl⟩
    | _ => exact ⟨true, rfl⟩

theorem marked_cons (v : Value) (items : List Value) (b : Bool) (marks : List Bool) :
    marked (v :: items) (b :: marks) = if b then v :: marked items marks else marked items marks := by
  cases b <;> rfl

theorem exists_mapM_verdict_iff {rs : List (Attempt Value)} :
    (∃ marks, rs.mapM verdict = .ok marks) ↔ ∀ r ∈ rs, Attempt.Foreseen r := by
  rw [Attempt.exists_mapM_ok_iff]
  exact forall₂_congr fun _ _ => verdict_ok_iff

/-! ## Lists of calls -/

variable {items : List Value}

theorem run_mapM_quiet {call : Value → Running σ Value} (h : ∀ v ∈ items, Quiet env s (call v))
    (n : Nat) : ∃ rs m, Forall₂ (fun v r => Ends env s (call v) r) items rs ∧
      (items.mapM call).run.run (env, s.numbered n) = (rs.mapM id, (env, s.numbered m)) := by
  induction items generalizing n with
  | nil => exact ⟨[], n, .nil, rfl⟩
  | cons v items ih =>
    obtain ⟨hv, hitems⟩ := List.forall_mem_cons.mp h
    obtain ⟨r, m, hr⟩ := hv n
    obtain ⟨rs, k, hrs, hrun⟩ := ih hitems m
    rw [List.mapM_cons]
    cases r with
    | error f => exact ⟨.error f :: rs, m, .cons ⟨n, m, hr⟩ hrs, Gives.run_bind_of_error hr⟩
    | ok w =>
      refine ⟨.ok w :: rs, k, .cons ⟨n, m, hr⟩ hrs, ?_⟩
      rw [Gives.run_bind hr, ExceptT.run_bind, StateT.run_bind, hrun, List.mapM_cons]
      cases rs.mapM id <;> rfl

theorem run_filterAuxM_quiet {call : Value → Running σ Value} (h : ∀ v ∈ items, Quiet env s (call v))
    (n : Nat) : ∃ rs m, Forall₂ (fun v r => Ends env s (call v) r) items rs ∧ ∀ before,
      (items.filterAuxM (fun v => kept (call v)) before).run.run (env, s.numbered n) =
        ((rs.mapM verdict).map fun marks => (marked items marks).reverse ++ before,
          (env, s.numbered m)) := by
  induction items generalizing n with
  | nil => exact ⟨[], n, .nil, fun _ => rfl⟩
  | cons v items ih =>
    obtain ⟨hv, hitems⟩ := List.forall_mem_cons.mp h
    obtain ⟨r, m, hr⟩ := hv n
    obtain ⟨rs, k, hrs, hrun⟩ := ih hitems m
    have hkept := run_kept hr
    cases hverdict : verdict r with
    | error f =>
      rw [hverdict] at hkept
      refine ⟨r :: rs, m, .cons ⟨n, m, hr⟩ hrs, fun before => ?_⟩
      rw [List.mapM_cons, hverdict]
      exact Gives.run_bind_of_error hkept
    | ok b =>
      rw [hverdict] at hkept
      refine ⟨r :: rs, k, .cons ⟨n, m, hr⟩ hrs, fun before => ?_⟩
      rw [List.mapM_cons, hverdict]
      refine (Gives.run_bind hkept).trans ((hrun _).trans ?_)
      cases rs.mapM verdict with
      | error f => rfl
      | ok marks =>
        have hmarks : (Except.ok b >>= fun b => Except.ok marks >>= fun marks => pure (b :: marks)) =
            (.ok (b :: marks) : Attempt (List Bool)) := rfl
        rw [hmarks, Except.map, Except.map, marked_cons]
        cases b with
        | false => rfl
        | true => rw [cond_true, if_pos rfl, List.reverse_cons, List.append_assoc, List.singleton_append]

theorem run_filterM_quiet {call : Value → Running σ Value} (h : ∀ v ∈ items, Quiet env s (call v))
    (n : Nat) : ∃ rs m, Forall₂ (fun v r => Ends env s (call v) r) items rs ∧
      (items.filterM fun v => kept (call v)).run.run (env, s.numbered n) =
        ((rs.mapM verdict).map (marked items), (env, s.numbered m)) := by
  obtain ⟨rs, m, hrs, hrun⟩ := run_filterAuxM_quiet h n
  refine ⟨rs, m, hrs, ?_⟩
  rw [List.filterM, ExceptT.run_bind, StateT.run_bind, hrun]
  cases rs.mapM verdict with
  | error f => rfl
  | ok marks =>
    have hreverse : ((marked items marks).reverse ++ []).reverse = marked items marks := by
      rw [List.append_nil, List.reverse_reverse]
    exact congrArg (fun kept => (Except.ok kept, (env, s.numbered m))) hreverse

theorem run_foldlM_quiet {call : Value → Value → Running σ Value}
    (h : ∀ acc, ∀ v ∈ items, Quiet env s (call acc v)) (acc : Value) (n : Nat) :
    ∃ r m, FoldEnds env s call acc items r ∧
      (items.foldlM call acc).run.run (env, s.numbered n) = (r, (env, s.numbered m)) := by
  induction items generalizing acc n with
  | nil => exact ⟨.ok acc, n, .nil acc, rfl⟩
  | cons v items ih =>
    obtain ⟨r, m, hr⟩ := h acc v (.head _) n
    rw [List.foldlM_cons]
    cases r with
    | error f => exact ⟨.error f, m, .stop ⟨n, m, hr⟩, Gives.run_bind_of_error hr⟩
    | ok acc' =>
      obtain ⟨r, k, hend, hrun⟩ := ih (fun acc v hv => h acc v (.tail _ hv)) acc' m
      exact ⟨r, k, .cons ⟨n, m, hr⟩ hend, (Gives.run_bind hr).trans hrun⟩

/-! ## The selectors -/

/-- Mapping, filtering and folding a vector with a function that has no effect. -/
theorem step_quiet (S : Setting σ) (depth : Nat) (function : String) (env : Env) (s : Session σ)
    (items : List Value) (hcall : ∀ v ∈ items, Quiet env s (called (evalWithin S depth) function v))
    (hwith : ∀ acc, ∀ v ∈ items, Quiet env s (calledWith (evalWithin S depth) function acc v)) :
    (∃ rs m, Forall₂ (fun v r => Ends env s (called (evalWithin S depth) function v) r) items rs ∧
      (step (evalWithin S depth) (.vec items) (.map function)).run.run (env, s) =
        ((rs.mapM id).map .vec, (env, s.numbered m))) ∧
    (∃ rs m, Forall₂ (fun v r => Ends env s (called (evalWithin S depth) function v) r) items rs ∧
      ((∃ marks, rs.mapM verdict = .ok marks) ↔ ∀ r ∈ rs, Attempt.Foreseen r) ∧
      (step (evalWithin S depth) (.vec items) (.filter function)).run.run (env, s) =
        ((rs.mapM verdict).map fun marks => .vec (marked items marks), (env, s.numbered m))) ∧
    ∀ start acc s₀, Gives (evalWithin S depth start) (env, s₀) acc (env, s) →
      ∃ r m, FoldEnds env s (calledWith (evalWithin S depth) function) acc items r ∧
        (step (evalWithin S depth) (.vec items) (.fold start function)).run.run (env, s₀) =
          (r, (env, s.numbered m)) := by
  have heval := leavesEnv_evalWithin S depth
  have hitems : elements? (.vec items) = some items := rfl
  refine ⟨?_, ?_, fun start acc s₀ hstart => ?_⟩
  · obtain ⟨rs, m, hrs, hrun⟩ := run_mapM_quiet hcall s.computed
    refine ⟨rs, m, hrs, ?_⟩
    rw [run_step_map heval s function hitems, ExceptT.run_bind, StateT.run_bind]
    rw [s.numbered_computed] at hrun
    rw [hrun]
    cases rs.mapM id <;> rfl
  · obtain ⟨rs, m, hrs, hrun⟩ := run_filterM_quiet hcall s.computed
    refine ⟨rs, m, hrs, exists_mapM_verdict_iff, ?_⟩
    rw [run_step_filter heval s function hitems, ExceptT.run_bind, StateT.run_bind]
    rw [s.numbered_computed] at hrun
    rw [hrun]
    cases rs.mapM verdict <;> rfl
  · obtain ⟨r, m, hend, hrun⟩ := run_foldlM_quiet hwith acc s.computed
    refine ⟨r, m, hend, ?_⟩
    rw [run_step_fold heval s function hitems hstart]
    exact hrun

/-- The texts of two values, and their texts one behind another. -/
theorem step_quiet_stringify :
    let env := (bareShell ⟨[], []⟩).env
    let s := (bareShell ⟨[], []⟩).session
    let eval := evalWithin bareSetting 3
    let items : List Value := [.number 1, .bool false]
    (∀ v ∈ items, Quiet env s (called eval "stringify" v)) ∧
      (∀ acc, ∀ v ∈ items, Quiet env s (calledWith eval "stringify" acc v)) ∧
      Gives (eval (.literal (.text ""))) (env, s) (.text "") (env, s) ∧
      (∃ rs m, Forall₂ (fun v r => Ends env s (called eval "stringify" v) r) items rs ∧
        rs.mapM id = .ok [.text "1", .text "false"] ∧
        (step eval (.vec items) (.map "stringify")).run.run (env, s) =
          (.ok (.vec [.text "1", .text "false"]), (env, s.numbered m))) ∧
      ∃ m, FoldEnds env s (calledWith eval "stringify") (.text "") items (.ok (.text "1false")) ∧
        (step eval (.vec items) (.fold (.literal (.text "")) "stringify")).run.run (env, s) =
          (.ok (.text "1false"), (env, s.numbered m)) := by
  intro env s eval items
  have hname : Builtin.ofName? "stringify" = some .stringify := rfl
  have hcall : ∀ v ∈ items, Quiet env s (called eval "stringify" v) :=
    fun v _ => quiet_called_builtin bareSetting 1 hname rfl v
  have hwith : ∀ acc, ∀ v ∈ items, Quiet env s (calledWith eval "stringify" acc v) :=
    fun acc v _ => quiet_calledWith_builtin bareSetting 1 hname rfl acc v
  have hstart : Gives (eval (.literal (.text ""))) (env, s) (.text "") (env, s) := rfl
  obtain ⟨⟨rs, m, hrs, hmap⟩, -, hfold⟩ := step_quiet bareSetting 3 "stringify" env s items hcall hwith
  obtain ⟨r, k, hend, hfold⟩ := hfold _ _ s hstart
  have hmaps : (step eval (.vec items) (.map "stringify")).run.run (env, s) =
      (.ok (.vec [.text "1", .text "false"]), (env, s)) := rfl
  have hfolds : (step eval (.vec items) (.fold (.literal (.text "")) "stringify")).run.run (env, s) =
      (.ok (.text "1false"), (env, s)) := rfl
  have hvec : (rs.mapM id).map Value.vec = .ok (.vec [.text "1", .text "false"]) :=
    congrArg Prod.fst (hmap.symm.trans hmaps)
  obtain ⟨vs, hvs, heq⟩ := Attempt.map_ok_iff.mp hvec
  cases heq
  obtain rfl : r = .ok (.text "1false") := congrArg Prod.fst (hfold.symm.trans hfolds)
  rw [hvec] at hmap
  exact ⟨hcall, hwith, hstart, ⟨rs, m, hrs, hvs, hmap⟩, k, hend, hfold⟩

/-! ## A filter that fails -/

/-- A function that gives the account of the neuron of a number. -/
def accountFunction : Function where
  params := ["n"]
  body := [.mk ⟨0, 0, 1, 1⟩ (.bind "_"
    (.apply "neuron_account" [.literal (.principal .management), .path "n" []]))]

/-- A function without effects whose call does not end in an error for a number that does not fit into a
machine word: the filter ends with it, and so keeps no items. -/
theorem filter_accountFunction_fails :
    let env := { (bareShell ⟨[], []⟩).env with functions := [("f", accountFunction)] }
    let s := (bareShell ⟨[], []⟩).session
    let eval := evalWithin bareSetting 5
    let items : List Value := [.number 1, .number (2 ^ 64)]
    (∀ v ∈ items, Quiet env s (called eval "f" v)) ∧
      Ends env s (called eval "f" (.number (2 ^ 64))) (.error (.fault .overflow)) ∧
      (step eval (.vec items) (.filter "f")).run.run (env, s) =
        (.error (.fault .overflow), (env, s)) := by
  intro env s eval items
  have hone : Quiet env s (called eval "f" (.number 1)) := fun n => ⟨_, n, rfl⟩
  have hlarge : Quiet env s (called eval "f" (.number (2 ^ 64))) := fun n => ⟨_, n, rfl⟩
  refine ⟨List.forall_mem_cons.mpr ⟨hone, List.forall_mem_singleton.mpr hlarge⟩, ⟨0, 0, rfl⟩, rfl⟩

end Selection

end CanisterShell
