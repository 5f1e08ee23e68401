import CanisterShell.Proofs.Attempt
import CanisterShell.Shell.Hint
import CanisterShell.Shell.Session
import Mathlib.Tactic.Common

/-!
# What actions and runs keep

An action over a state *keeps* a property of the state if, started where the property holds, it ends
where it holds, whether it fails or gives a result; of the result more may be known.  A failure of
one part ends the whole and leaves the state as the part has left it, so what a sequence keeps
follows from what its parts keep.

A shell is given scripts to run and lines to complete.  What every command of a script keeps, and
showing something does too, is kept by all that a shell is given (`Shell.Keeping.respondAll`).
-/

namespace CanisterShell

/-- Started where `I` holds, the action ends where `I` holds; a result that it gives is in `Q`. -/
def Keeps {τ α : Type} (I : τ → Prop) (act : ExceptT Failure (StateM τ) α)
    (Q : α → Prop := fun _ => True) : Prop :=
  ∀ s, I s → I (act.run.run s).2 ∧ ∀ a, (act.run.run s).1 = .ok a → Q a

namespace Keeps

variable {τ α β : Type} {I : τ → Prop} {Q Q' : α → Prop} {R : β → Prop}

theorem imp {act : ExceptT Failure (StateM τ) α} (h : Keeps I act Q) (hQ : ∀ a, Q a → Q' a) :
    Keeps I act Q' :=
  fun s hs => ⟨(h s hs).1, fun a ha => hQ a ((h s hs).2 a ha)⟩

theorem weaken {act : ExceptT Failure (StateM τ) α} (h : Keeps I act Q) : Keeps I act :=
  h.imp fun _ _ => trivial

theorem pure {a : α} (h : Q a) : Keeps I (Pure.pure a) Q :=
  fun _ hs => ⟨hs, fun _ ha => by cases ha; exact h⟩

theorem done {a : α} : Keeps I (Pure.pure a) := pure trivial

theorem any {act : ExceptT Failure (StateM τ) α} : Keeps (fun _ => True) act :=
  fun _ _ => ⟨trivial, fun _ _ => trivial⟩

theorem throw (f : Failure) : Keeps I (MonadExcept.throw f) Q := fun _ hs => ⟨hs, nofun⟩

theorem bind {act : ExceptT Failure (StateM τ) α} {next : α → ExceptT Failure (StateM τ) β}
    (h : Keeps I act Q) (h' : ∀ a, Q a → Keeps I (next a) R) : Keeps I (act >>= next) R := by
  intro s hs
  obtain ⟨hs', hQ⟩ := h s hs
  rw [ExceptT.run_bind, StateT.run_bind]
  cases hr : act.run.run s with
  | mk r s' =>
    rw [hr] at hs' hQ
    cases r with
    | ok a => exact h' a (hQ a rfl) s' hs'
    | error f => exact ⟨hs', nofun⟩

theorem andThen {act : ExceptT Failure (StateM τ) α} {next : α → ExceptT Failure (StateM τ) β}
    (h : Keeps I act Q) (h' : ∀ a, Keeps I (next a) R) : Keeps I (act >>= next) R :=
  h.bind fun a _ => h' a

/-- What holds once the first part has been done holds in the end, if the rest keeps it. -/
theorem after_bind {act : ExceptT Failure (StateM τ) α} {next : α → ExceptT Failure (StateM τ) β}
    {s : τ} (h : I (act.run.run s).2) (h' : ∀ a, Keeps I (next a)) :
    I ((act >>= next).run.run s).2 := by
  rw [ExceptT.run_bind, StateT.run_bind]
  cases hr : act.run.run s with
  | mk r s' =>
    rw [hr] at h
    cases r with
    | ok a => exact (h' a s' h).1
    | error f => exact h

theorem map {act : ExceptT Failure (StateM τ) α} (h : Keeps I act) (f : α → β) :
    Keeps I (f <$> act) := by
  rw [map_eq_pure_bind]
  exact h.andThen fun _ => done

theorem guarded {p : Prop} [Decidable p] {f : Failure}
    {rest : Unit → ExceptT Failure (StateM τ) β} (h : ¬p → Keeps I (rest ()) R) :
    Keeps I (if p then MonadExcept.throw f >>= rest else rest ()) R := by
  split
  case isTrue => exact (throw f : Keeps I _ fun _ => False).bind fun _ h => h.elim
  case isFalse hp => exact h hp

theorem attempt {x : Attempt α} (h : ∀ a, x = .ok a → Q a) :
    Keeps I (liftM x : ExceptT Failure (StateM τ) α) Q := by
  cases x with
  | ok a => exact pure (h a rfl)
  | error f => exact throw f

theorem attempt_any (x : Attempt α) : Keeps I (liftM x : ExceptT Failure (StateM τ) α) :=
  attempt fun _ _ => trivial

theorem get : Keeps I (MonadState.get : ExceptT Failure (StateM τ) τ) I :=
  fun _ hs => ⟨hs, fun _ ha => by cases ha; exact hs⟩

theorem set {s : τ} (h : I s) : Keeps I (MonadStateOf.set s : ExceptT Failure (StateM τ) PUnit) :=
  fun _ _ => ⟨h, fun _ _ => trivial⟩

theorem modify {f : τ → τ} (h : ∀ s, I s → I (f s)) :
    Keeps I (modify f : ExceptT Failure (StateM τ) PUnit) :=
  fun s hs => ⟨h s hs, fun _ _ => trivial⟩

/-! ## Lists -/

theorem mapM {f : β → ExceptT Failure (StateM τ) α} {items : List β}
    (h : ∀ b ∈ items, Keeps I (f b) Q) : Keeps I (items.mapM f) (∀ a ∈ ·, Q a) := by
  induction items with
  | nil => exact pure (by simp)
  | cons b items ih =>
    rw [List.mapM_cons]
    refine (h b List.mem_cons_self).bind fun a ha => ?_
    refine (ih fun c hc => h c (List.mem_cons_of_mem b hc)).bind fun as has => ?_
    exact pure (List.forall_mem_cons.mpr ⟨ha, has⟩)

theorem filterAuxM {f : α → ExceptT Failure (StateM τ) Bool} {items kept : List α}
    (h : ∀ a ∈ items, Keeps I (f a)) (hi : ∀ a ∈ items, Q a) (hk : ∀ a ∈ kept, Q a) :
    Keeps I (items.filterAuxM f kept) (∀ a ∈ ·, Q a) := by
  induction items generalizing kept with
  | nil => exact pure hk
  | cons a items ih =>
    refine (h a List.mem_cons_self).andThen fun b => ?_
    have hi' : ∀ c ∈ items, Q c := fun c hc => hi c (List.mem_cons_of_mem a hc)
    refine ih (fun c hc => h c (List.mem_cons_of_mem a hc)) hi' ?_
    cases b with
    | false => exact hk
    | true => exact List.forall_mem_cons.mpr ⟨hi a List.mem_cons_self, hk⟩

theorem filterM {f : α → ExceptT Failure (StateM τ) Bool} {items : List α}
    (h : ∀ a ∈ items, Keeps I (f a)) (hi : ∀ a ∈ items, Q a) :
    Keeps I (items.filterM f) (∀ a ∈ ·, Q a) :=
  (filterAuxM h hi (by simp)).bind fun _ hk => pure fun a ha => hk a (List.mem_reverse.mp ha)

theorem foldlM {f : α → β → ExceptT Failure (StateM τ) α} {items : List β} {a : α}
    (h : ∀ a, Q a → ∀ b ∈ items, Keeps I (f a b) Q) (ha : Q a) : Keeps I (items.foldlM f a) Q := by
  induction items generalizing a with
  | nil => exact pure ha
  | cons b items ih =>
    rw [List.foldlM_cons]
    exact (h a ha b List.mem_cons_self).bind fun a ha =>
      ih (fun a ha c hc => h a ha c (List.mem_cons_of_mem b hc)) ha

theorem forM {f : β → ExceptT Failure (StateM τ) PUnit} {items : List β}
    (h : ∀ b ∈ items, Keeps I (f b)) : Keeps I (items.forM f) := by
  induction items with
  | nil => exact done
  | cons b items ih =>
    rw [List.forM_eq_forM, List.forM_cons]
    exact (h b List.mem_cons_self).andThen fun _ => ih fun c hc => h c (List.mem_cons_of_mem b hc)

/-! ## Failures -/

theorem outcome {act : ExceptT Failure (StateM τ) α} (h : Keeps I act Q) :
    Keeps I (outcome act) (∀ a, · = .ok a → Q a) := by
  intro s hs
  obtain ⟨hs', hQ⟩ := h s hs
  rw [CanisterShell.outcome, ExceptT.run_mk, StateT.run_bind]
  cases hr : act.run.run s with
  | mk r s' =>
    rw [hr] at hs' hQ
    cases r with
    | ok a =>
      refine ⟨hs', fun b hb c hc => ?_⟩
      cases hb
      cases hc
      exact hQ a rfl
    | error f =>
      cases f with
      | error e =>
        refine ⟨hs', fun b hb c hc => ?_⟩
        cases hb
        cases hc
      | _ => exact ⟨hs', nofun⟩

theorem tryCatch {act : ExceptT Failure (StateM τ) α} {handle : Failure → ExceptT Failure (StateM τ) α}
    (h : Keeps I act Q) (h' : ∀ f, Keeps I (handle f) Q) :
    Keeps I (MonadExcept.tryCatch act handle) Q := by
  intro s hs
  obtain ⟨hs', hQ⟩ := h s hs
  rw [ExceptT.run_tryCatch, StateT.run_bind]
  cases hr : act.run.run s with
  | mk r s' =>
    rw [hr] at hs' hQ
    cases r with
    | ok a => exact ⟨hs', hQ⟩
    | error f => exact h' f s' hs'

theorem after_tryCatch {act : ExceptT Failure (StateM τ) α}
    {handle : Failure → ExceptT Failure (StateM τ) α} {s : τ} (h : I (act.run.run s).2)
    (h' : ∀ f, Keeps I (handle f)) : I ((MonadExcept.tryCatch act handle).run.run s).2 := by
  rw [ExceptT.run_tryCatch, StateT.run_bind]
  cases hr : act.run.run s with
  | mk r s' =>
    rw [hr] at h
    cases r with
    | ok a => exact h
    | error f => exact (h' f s' h).1

/-! ## Environments -/

variable {σ : Type} {J : Env × Session σ → Prop}

theorem env : Keeps J Running.env fun env => ∃ s, J (env, s) :=
  get.bind fun (_, s) h => pure ⟨s, h⟩

theorem modifyEnv {f : Env → Env} (h : ∀ env s, J (env, s) → J (f env, s)) :
    Keeps J (Running.modifyEnv f) :=
  modify fun (env, s) => h env s

/-- Something done in the session has only to keep what the property asks of the session. -/
theorem toRunning {act : Doing σ α} (h : ∀ env, Keeps (fun s => J (env, s)) act Q) :
    Keeps J act.toRunning Q :=
  fun (env, s) hs => h env s hs

/-- Something done in a child has to keep a property of its own, from which the property for the
environment itself follows. -/
theorem inChild {J' : Env × Session σ → Prop} {f : Env → Env} {act : Running σ α}
    (h : Keeps J' act Q) (hin : ∀ env s, J (env, s) → J' (f env, s))
    (hout : ∀ env s env' s', J (env, s) → J' (env', s') → J (env, s')) :
    Keeps J (Running.inChild f act) Q := by
  intro (env, s) hs
  obtain ⟨hs', hQ⟩ := h (f env, s) (hin env s hs)
  exact ⟨hout env s _ _ hs hs', hQ⟩

theorem afterwards {act : Running σ α} {f : Env → Env} (h : Keeps J act Q)
    (hf : ∀ env s, J (env, s) → J (f env, s)) : Keeps J (Running.afterwards act f) Q := by
  intro state hs
  obtain ⟨hs', hQ⟩ := h state hs
  exact ⟨hf _ _ hs', hQ⟩

end Keeps

/-! ## Inputs -/

/-- What a shell is given: a script to run, or a line to complete. -/
inductive Input where
  | script (source : String)
  | line (text : String)

/-- What a shell answers. -/
inductive Response where
  | outcome (r : Attempt Outcome)
  | hint (r : Attempt (Option String))

def respond {σ : Type} (S : Setting σ) (sh : Shell σ) : Input → Response × Shell σ
  | .script source =>
    let (r, sh) := Shell.run S source sh
    (.outcome r, sh)
  | .line text => (.hint (Hint.forLine S sh text), sh)

def respondAll {σ : Type} (S : Setting σ) (inputs : List Input) (sh : Shell σ) : Shell σ :=
  inputs.foldl (fun sh input => (respond S sh input).2) sh

/-- A shell that some inputs lead to from its start. -/
def Shell.Reachable {σ : Type} (S : Setting σ) (sh : Shell σ) : Prop :=
  ∃ (world : σ) (disk : File.Disk) (base : File.Path) (inputs : List Input),
    respondAll S inputs (.start world disk base) = sh

/-! ## What runs keep -/

namespace Shell

/-- A property of an environment and its session that scripts keep: every command of theirs does, and
so does showing something. -/
structure Keeping {σ : Type} (S : Setting σ) (I : Env × Session σ → Prop) : Prop where
  shown (env : Env) (s : Session σ) (topic : Topic) (message : String) :
    I (env, s) → I (env, s.tell topic message)
  cleared (env : Env) (s : Session σ) : I (env, s) → I (env, { s with effects := [] })
  command (source : String) (commands : List Syntax.Command)
    (hparse : Syntax.parseCommands S.environ source = .ok commands) (c : Syntax.Command)
    (hc : c ∈ commands) : Keeps I (execute S c)

namespace Keeping

variable {σ : Type} {S : Setting σ} {I : Env × Session σ → Prop}

theorem runAll {commands : List Syntax.Command} (h : ∀ c ∈ commands, Keeps I (execute S c))
    (last : Option Candid.Value) {state : Env × Session σ} (hs : I state) :
    I ((runAll S commands last).run state).2 := by
  induction commands generalizing last state with
  | nil => exact hs
  | cons c rest ih =>
    have hc := (h c (.head _) state hs).1
    rw [Shell.runAll, StateT.run_bind]
    cases hr : (execute S c).run.run state with
    | mk r state' =>
      rw [hr] at hc
      cases r with
      | ok value? => exact ih (fun c hc => h c (.tail _ hc)) value? hc
      | error f => exact hc

variable (h : Keeping S I)
include h

theorem fail (outcome : Outcome) {sh : Shell σ} (hs : I (sh.env, sh.session)) :
    I ((Shell.fail outcome sh).2.env, (Shell.fail outcome sh).2.session) := by
  cases outcome with
  | success value? => exact hs
  | failure message place? => exact h.shown _ _ .warning message hs

theorem runCommands (source : String) {commands : List Syntax.Command}
    (hc : ∀ c ∈ commands, Keeps I (execute S c)) {sh : Shell σ} (hs : I (sh.env, sh.session)) :
    I ((Shell.runCommands S source commands sh).2.env,
      (Shell.runCommands S source commands sh).2.session) := by
  have hall := runAll hc none hs
  rw [Shell.runCommands]
  cases hr : (Shell.runAll S commands none).run (sh.env, sh.session) with
  | mk r state =>
    rw [hr] at hall
    cases r with
    | ok value? => exact hall
    | error failure => exact h.fail _ hall

theorem run (source : String) {sh : Shell σ} (hs : I (sh.env, sh.session)) :
    I ((Shell.run S source sh).2.env, (Shell.run S source sh).2.session) := by
  have hcleared := h.cleared _ _ hs
  rw [Shell.run]
  dsimp only
  split
  case h_1 => exact h.fail _ hcleared
  case h_2 => exact hcleared
  case h_3 commands hparse => exact h.runCommands source (h.command source commands hparse) hcleared

/-- What scripts keep holds after all that a shell is given. -/
theorem respondAll (inputs : List Input) (sh : Shell σ) (hs : I (sh.env, sh.session)) :
    I ((respondAll S inputs sh).env, (respondAll S inputs sh).session) := by
  induction inputs generalizing sh with
  | nil => exact hs
  | cons input inputs ih =>
    refine ih _ ?_
    cases input with
    | script source => exact h.run source hs
    | line text => exact hs

end Keeping

end Shell

end CanisterShell
