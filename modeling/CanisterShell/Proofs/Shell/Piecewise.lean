import CanisterShell.Proofs.Shell.Restoring
import CanisterShell.Proofs.Shell.Simulation
import CanisterShell.Proofs.Syntax.Joining

/-!
# Scripts that are run piece by piece

A script leaves behind nothing that the next one would not find in the shell: running two scripts
that are joined ends as running the one and then the other does, with the same failure if there is
one and in shells that differ at most in the places of commands and in what has been shown
(`Shell.run_joined`).
-/

namespace CanisterShell

open Candid Syntax

/-! ## Commands without places -/

namespace Syntax.Action

theorem hasBody_unplaced (a : Action) : a.unplaced.hasBody = a.hasBody := by
  cases a with
  | _ => rfl

theorem unplaced_of_flat {a : Action} (h : a.hasBody = false) : a.unplaced = a := by
  cases a with
  | define | branch | loop => cases h
  | _ => rfl

theorem alike_of_unplaced {a a' : Action} (h : a.unplaced = a'.unplaced) :
    a.Alike False Command.Alike a' := by
  have hkind : a.hasBody = a'.hasBody := by rw [← hasBody_unplaced, h, hasBody_unplaced]
  cases ha : a.hasBody with
  | false =>
    rw [unplaced_of_flat ha, unplaced_of_flat (hkind ▸ ha)] at h
    exact h ▸ .flat ha False.elim
  | true =>
    -- of actions with bodies only those of the same kind are the same
    cases a with
    | define name params body =>
      cases a' with
      | define name' params' body' =>
        obtain ⟨rfl, rfl, hbody⟩ := Action.define.inj h
        exact .define _ _ (unplacedAll_eq_iff.mp hbody)
      | _ => cases h
    | branch cond yes no =>
      cases a' with
      | branch cond' yes' no' =>
        obtain ⟨rfl, hyes, hno⟩ := Action.branch.inj h
        exact .branch False.elim (unplacedAll_eq_iff.mp hyes) (unplacedAll_eq_iff.mp hno)
      | _ => cases h
    | loop cond body =>
      cases a' with
      | loop cond' body' =>
        obtain ⟨rfl, hbody⟩ := Action.loop.inj h
        exact .loop False.elim (unplacedAll_eq_iff.mp hbody)
      | _ => cases h
    | _ => cases ha

end Syntax.Action

theorem corresponds_alike : Corresponds False Command.Alike where
  refl _ _ := rfl
  action {c c'} h := by
    obtain ⟨span, a⟩ := c
    obtain ⟨span', a'⟩ := c'
    rw [Command.Alike, Command.unplaced, Command.unplaced] at h
    exact Action.alike_of_unplaced (Command.mk.inj h).2

/-- A function without the places of its commands. -/
def Function.unplaced (f : Function) : Function := ⟨f.params, unplacedAll f.body⟩

/-- The functions of an environment without the places of their commands. -/
def Env.unplacedFunctions (env : Env) : Table String Function :=
  env.functions.map fun f => (f.1, f.2.unplaced)

namespace Env.Alike

variable {env env' : Env}

theorem refl (env : Env) : env.Alike False Command.Alike env where
  vars := rfl
  functions := List.forall₂_same.mpr fun _ _ => ⟨rfl, rfl, List.forall₂_same.mpr fun _ _ => rfl⟩
  base := rfl
  config := rfl
  proper := False.elim

theorem unplacedFunctions_eq (h : env.Alike False Command.Alike env') :
    env.unplacedFunctions = env'.unplacedFunctions := by
  have hfunctions := h.functions
  rw [Env.unplacedFunctions, Env.unplacedFunctions]
  generalize env.functions = fs, env'.functions = fs' at hfunctions
  induction hfunctions with
  | nil => rfl
  | cons hf _ ih =>
    rw [List.map_cons, List.map_cons, ih, hf.1, Function.unplaced, Function.unplaced, hf.2.params,
      unplacedAll_eq_iff.mpr hf.2.body]

end Env.Alike

/-! ## Runs of commands -/

section

variable {σ : Type} {S : Setting σ}

namespace Shell

theorem runAll_append {commands commands' : List Command} {last value? : Option Value}
    {state state' : Env × Session σ} (h : (runAll S commands last).run state = (.ok value?, state')) :
    (runAll S (commands ++ commands') last).run state = (runAll S commands' value?).run state' := by
  induction commands generalizing last state with
  | nil =>
    obtain ⟨rfl, rfl⟩ : last = value? ∧ state = state' := by
      cases h
      exact ⟨rfl, rfl⟩
    rfl
  | cons c rest ih =>
    match hr : (execute S c).run.run state with
    | (.ok v?, after) =>
      rw [runAll_cons hr] at h
      rw [List.cons_append, runAll_cons hr]
      exact ih h
    | (.error f, after) =>
      rw [runAll_failing hr] at h
      cases h

/-- How runs of commands end alike. -/
inductive EndsAlike : Except (Text.Span × Failure) (Option Value) →
    Except (Text.Span × Failure) (Option Value) → Prop where
  | ok (value? value?' : Option Value) : EndsAlike (.ok value?) (.ok value?')
  | error (span span' : Text.Span) (f : Failure) : EndsAlike (.error (span, f)) (.error (span', f))

namespace EndsAlike

variable {r r' r'' : Except (Text.Span × Failure) (Option Value)}

theorem symm (h : EndsAlike r r') : EndsAlike r' r := by
  cases h with
  | ok value? value?' => exact .ok value?' value?
  | error span span' f => exact .error span' span f

theorem trans (h : EndsAlike r r') (h' : EndsAlike r' r'') : EndsAlike r r'' := by
  cases h with
  | ok value? _ =>
    cases h' with
    | ok _ value?'' => exact .ok value? value?''
  | error span _ f =>
    cases h' with
    | error _ span'' => exact .error span span'' f

end EndsAlike

theorem runAll_alike {commands commands' : List Command}
    (hc : List.Forall₂ Command.Alike commands commands') (last last' : Option Value)
    {earlier : List Effect} {state state' : Env × Session σ}
    (h : AlikeBehind False Command.Alike earlier state state') :
    EndsAlike ((runAll S commands last).run state).1 ((runAll S commands' last').run state').1 ∧
      AlikeBehind False Command.Alike earlier ((runAll S commands last).run state).2
        ((runAll S commands' last').run state').2 := by
  induction hc generalizing last last' state state' with
  | nil => exact ⟨.ok last last', h⟩
  | @cons c c' rest rest' hc _ ih =>
    obtain ⟨hend, hafter⟩ := (agree_within S corresponds_alike mostDepth).run hc state state' h
    match hr : (execute S c).run.run state, hr' : (execute S c').run.run state' with
    | (r, after), (r', after') =>
      rw [execute] at hr hr'
      rw [hr, hr'] at hend hafter
      cases hend with
      | @ok v? v?' _ =>
        rw [runAll_cons hr, runAll_cons hr']
        exact ih v? v?' hafter
      | error f =>
        rw [runAll_failing hr, runAll_failing hr']
        exact ⟨.error c.span c'.span f, hafter⟩

end Shell

end

/-! ## Scripts -/

/-- Both scripts succeed, or both are stopped by the same failure. -/
inductive Outcome.Alike (source source' : String) : Outcome → Outcome → Prop where
  | success (value? value?' : Option Value) : Alike source source' (.success value?) (.success value?')
  | stopped (span span' : Text.Span) (f : Failure) :
      Alike source source' (stopped source span f) (stopped source' span' f)

/-- Shells that are the same but for the places of the commands in functions and for what has been
shown. -/
structure Shell.Alike {σ : Type} (sh sh' : Shell σ) : Prop where
  vars : sh.env.vars = sh'.env.vars
  functions : sh.env.unplacedFunctions = sh'.env.unplacedFunctions
  base : sh.env.base = sh'.env.base
  config : sh.env.config = sh'.env.config
  session : { sh.session with effects := [] } = { sh'.session with effects := [] }

namespace Shell

variable {σ : Type} {S : Setting σ}

namespace Alike

variable {sh sh' sh'' : Shell σ}

theorem symm (h : sh.Alike sh') : sh'.Alike sh :=
  ⟨h.vars.symm, h.functions.symm, h.base.symm, h.config.symm, h.session.symm⟩

theorem trans (h : sh.Alike sh') (h' : sh'.Alike sh'') : sh.Alike sh'' :=
  ⟨h.vars.trans h'.vars, h.functions.trans h'.functions, h.base.trans h'.base,
    h.config.trans h'.config, h.session.trans h'.session⟩

theorem of_behind {earlier : List Effect} {state state' : Env × Session σ}
    (h : AlikeBehind False Command.Alike earlier state state') :
    Alike (⟨state.1, state.2⟩ : Shell σ) ⟨state'.1, state'.2⟩ where
  vars := h.1.vars
  functions := h.1.unplacedFunctions_eq
  base := h.1.base
  config := h.1.config
  session := by rw [h.2, Session.behind]

theorem tell (h : sh.Alike sh') (topic topic' : Topic) (message message' : String) :
    Alike { sh with session := sh.session.tell topic message }
      { sh' with session := sh'.session.tell topic' message' } :=
  ⟨h.vars, h.functions, h.base, h.config, h.session⟩

end Alike

/-- The shell in which a script begins. -/
def cleared (sh : Shell σ) : Shell σ := { sh with session := { sh.session with effects := [] } }

theorem fail_fst (outcome : Outcome) (sh : Shell σ) : (fail outcome sh).1 = outcome := by
  cases outcome with
  | success value? => rfl
  | failure message place? => rfl

theorem exists_of_run_success {source : String} {sh sh₁ : Shell σ} {value? : Option Value}
    (h : run S source sh = (.ok (.success value?), sh₁)) :
    ∃ commands, parseCommands S.environ source = .ok commands ∧
      (runAll S commands none).run (sh.env, sh.cleared.session)
        = (.ok value?, sh₁.env, sh₁.session) := by
  rw [run] at h
  dsimp only at h
  split at h
  case h_1 e _ =>
    have houtcome := Except.ok.inj (Prod.mk.inj h).1
    rw [fail_fst, unreadable] at houtcome
    split at houtcome <;> cases houtcome
  case h_2 => cases h
  case h_3 commands hparse =>
    refine ⟨commands, hparse, ?_⟩
    rw [runCommands] at h
    dsimp only at h
    cases hr : (runAll S commands none).run (sh.env, sh.cleared.session) with
    | mk r state =>
      rw [cleared] at hr
      rw [hr] at h
      cases r with
      | ok v? =>
        cases h
        rfl
      | error failure =>
        have houtcome := Except.ok.inj (Prod.mk.inj h).1
        rw [fail_fst] at houtcome
        cases houtcome

theorem run_of_parse {source : String} {commands : List Command} {sh : Shell σ}
    (hparse : parseCommands S.environ source = .ok commands) :
    run S source sh = (.ok (runCommands S source commands sh.cleared).1,
      (runCommands S source commands sh.cleared).2) := by
  rw [run, hparse, cleared]

theorem runCommands_alike {source source' : String} {commands commands' : List Command}
    {sh sh' : Shell σ}
    (hend : EndsAlike ((runAll S commands none).run (sh.env, sh.session)).1
      ((runAll S commands' none).run (sh'.env, sh'.session)).1)
    (hsh : Alike (⟨((runAll S commands none).run (sh.env, sh.session)).2.1,
        ((runAll S commands none).run (sh.env, sh.session)).2.2⟩ : Shell σ)
      ⟨((runAll S commands' none).run (sh'.env, sh'.session)).2.1,
        ((runAll S commands' none).run (sh'.env, sh'.session)).2.2⟩) :
    (runCommands S source commands sh).1.Alike source source' (runCommands S source' commands' sh').1 ∧
      (runCommands S source commands sh).2.Alike (runCommands S source' commands' sh').2 := by
  rw [runCommands, runCommands]
  generalize (runAll S commands none).run (sh.env, sh.session) = end₁,
    (runAll S commands' none).run (sh'.env, sh'.session) = end₂ at hend hsh
  obtain ⟨r, env, s⟩ := end₁
  obtain ⟨r', env', s'⟩ := end₂
  dsimp only at hend hsh ⊢
  cases hend with
  | ok value? value?' => exact ⟨.success value? value?', hsh⟩
  | error span span' f => exact ⟨.stopped span span' f, hsh.tell _ _ _ _⟩

/-- Running two scripts that are joined ends as running the one and, if it succeeds, the other. -/
theorem run_joined {source source' : String} {commands' : List Command} {value? : Option Value}
    {sh sh₁ : Shell σ} (hplain : '$' ∉ source.toList) (hplain' : '$' ∉ source'.toList)
    (hshebang : ¬['#', '!'] <+: source'.toList)
    (hread : parseCommands S.environ source' = .ok commands')
    (hrun : run S source sh = (.ok (.success value?), sh₁)) :
    ∃ outcome outcome', (run S (joined source source') sh).1 = .ok outcome ∧
      (run S source' sh₁).1 = .ok outcome' ∧
      outcome.Alike (joined source source') source' outcome' ∧
      (run S (joined source source') sh).2.Alike (run S source' sh₁).2 := by
  obtain ⟨commands, hparse, hfirst⟩ := exists_of_run_success hrun
  obtain ⟨all, hall, halike⟩ := parseCommands_joined hplain hplain' hshebang hparse hread
  -- the commands of both at other places
  have hstart : AlikeBehind False Command.Alike [] (sh.env, sh.cleared.session)
      (sh.env, sh.cleared.session) := ⟨.refl sh.env, rfl⟩
  have hplaces := runAll_alike (S := S) halike none none hstart
  rw [runAll_append hfirst] at hplaces
  -- the commands of the other script behind what the one has shown, and alone
  have hsame : List.Forall₂ Command.Alike commands' commands' := List.forall₂_same.mpr fun _ _ => rfl
  have hbetween : AlikeBehind False Command.Alike sh₁.session.effects (sh₁.env, sh₁.session)
      (sh₁.env, sh₁.cleared.session) := ⟨.refl sh₁.env, rfl⟩
  have halone := runAll_alike (S := S) hsame value? none hbetween
  have hends : EndsAlike ((runAll S all none).run (sh.env, sh.cleared.session)).1
      ((runAll S commands' none).run (sh₁.env, sh₁.cleared.session)).1 :=
    hplaces.1.symm.trans halone.1
  rw [run_of_parse hall, run_of_parse hread]
  refine ⟨_, _, rfl, rfl, runCommands_alike hends ?_⟩
  exact (Alike.of_behind hplaces.2).symm.trans (.of_behind halone.2)

/-- A script that ends in an open comment, and an assertion that fails behind it. -/
theorem run_joined_comment :
    let source := "let a = null // open"
    let source' := "assert a == true"
    let start := bareShell ⟨[], []⟩
    let sh₁ : Shell Unit := ⟨start.env.bind "a" .null, start.session⟩
    run bareSetting source start = (.ok (.success (some .null)), sh₁) ∧
      ∃ outcome outcome', (run bareSetting (joined source source') start).1 = .ok outcome ∧
        (run bareSetting source' sh₁).1 = .ok outcome' ∧
        outcome.Alike (joined source source') source' outcome' ∧
        (run bareSetting (joined source source') start).2.Alike (run bareSetting source' sh₁).2 := by
  intro source source' start sh₁
  let c : Command := .mk ⟨0, 12, 1, 1⟩ (.bind "a" (.literal .null))
  let c' : Command := .mk ⟨0, 16, 1, 1⟩ (.assertion "==" (.path "a" []) (.literal (.bool true)))
  have hparse : parseCommands [] source = .ok [c] := by cbv
  have hparse' : parseCommands [] source' = .ok [c'] := by cbv
  have hbind : Gives (execute bareSetting c) (start.env, start.session) (some .null)
      (start.env.bind "a" .null, start.session) := rfl
  have hrun : run bareSetting source start = (.ok (.success (some .null)), sh₁) :=
    run_of_success hparse ((runAll_cons hbind).trans rfl)
  exact ⟨hrun, run_joined (by decide) (by decide) (by decide) hparse' hrun⟩

end Shell

end CanisterShell
