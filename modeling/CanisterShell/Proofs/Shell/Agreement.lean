import CanisterShell.Proofs.Shell.Giving

/-!
# Actions that agree

Two actions agree over a relation of states if, started in related states, they end in related
states, with the same failure or with results of which a relation holds.  What sequences, loops and
handlers agree on follows from their parts, so that two ways to run the same program are compared
piece by piece.
-/

namespace CanisterShell

/-- Both have failed alike, or both have results and these are related. -/
inductive EndAlike {α : Type} (Q : α → α → Prop) : Except Failure α → Except Failure α → Prop where
  | ok {a a' : α} (h : Q a a') : EndAlike Q (.ok a) (.ok a')
  | error (f : Failure) : EndAlike Q (.error f) (.error f)

/-- The results are the same, and one of `P`. -/
def Same {α : Type} (P : α → Prop) (a a' : α) : Prop := a = a' ∧ P a

/-- Started in related states, both actions end in related states, and they end alike. -/
def Agree {τ α : Type} (R : τ → τ → Prop) (act act' : ExceptT Failure (StateM τ) α)
    (Q : α → α → Prop) : Prop :=
  ∀ s t, R s t → EndAlike Q (act.run.run s).1 (act'.run.run t).1 ∧
    R (act.run.run s).2 (act'.run.run t).2

namespace Agree

variable {τ α β : Type} {R : τ → τ → Prop} {Q : α → α → Prop} {Q' : β → β → Prop} {P : α → Prop}

theorem imp {act act' : ExceptT Failure (StateM τ) α} {Q₁ : α → α → Prop} (h : Agree R act act' Q)
    (hQ : ∀ a a', Q a a' → Q₁ a a') : Agree R act act' Q₁ := by
  intro s t hst
  obtain ⟨hend, hR⟩ := h s t hst
  refine ⟨?_, hR⟩
  generalize (act.run.run s).1 = r, (act'.run.run t).1 = r' at hend
  cases hend with
  | ok ha => exact .ok (hQ _ _ ha)
  | error f => exact .error f

theorem pure {a a' : α} (h : Q a a') : Agree R (Pure.pure a) (Pure.pure a') Q :=
  fun _ _ hst => ⟨.ok h, hst⟩

theorem same {a : α} (h : P a) : Agree R (Pure.pure a) (Pure.pure a) (Same P) := pure ⟨rfl, h⟩

theorem throw (f : Failure) : Agree R (MonadExcept.throw f) (MonadExcept.throw f) Q :=
  fun _ _ hst => ⟨.error f, hst⟩

theorem bind {act act' : ExceptT Failure (StateM τ) α}
    {next next' : α → ExceptT Failure (StateM τ) β} (h : Agree R act act' Q)
    (h' : ∀ a a', Q a a' → Agree R (next a) (next' a') Q') :
    Agree R (act >>= next) (act' >>= next') Q' := by
  intro s t hst
  obtain ⟨hend, hR⟩ := h s t hst
  match hr : act.run.run s, hr' : act'.run.run t with
  | (r, s'), (r', t') =>
    rw [hr, hr'] at hend hR
    cases hend with
    | error f =>
      rw [Gives.run_bind_of_error hr, Gives.run_bind_of_error hr']
      exact ⟨.error f, hR⟩
    | ok ha =>
      rw [Gives.run_bind hr, Gives.run_bind hr']
      exact h' _ _ ha s' t' hR

theorem andThen {act act' : ExceptT Failure (StateM τ) α}
    {next next' : α → ExceptT Failure (StateM τ) β} (h : Agree R act act' (Same P))
    (h' : ∀ a, P a → Agree R (next a) (next' a) Q') :
    Agree R (act >>= next) (act' >>= next') Q' :=
  h.bind fun a _ ⟨haa, ha⟩ => haa ▸ h' a ha

theorem guarded {p : Prop} [Decidable p] {f : Failure}
    {rest rest' : Unit → ExceptT Failure (StateM τ) β} (h : ¬p → Agree R (rest ()) (rest' ()) Q') :
    Agree R (if p then MonadExcept.throw f >>= rest else rest ())
      (if p then MonadExcept.throw f >>= rest' else rest' ()) Q' := by
  split
  case isTrue => exact fun _ _ hst => ⟨.error f, hst⟩
  case isFalse hp => exact h hp

theorem attempt {x : Attempt α} (h : ∀ a, x = .ok a → P a) :
    Agree R (liftM x : ExceptT Failure (StateM τ) α) (liftM x) (Same P) := by
  cases x with
  | ok a => exact same (h a rfl)
  | error f => exact throw f

theorem modify {f g : τ → τ} (h : ∀ s t, R s t → R (f s) (g t)) :
    Agree R (modify f : ExceptT Failure (StateM τ) PUnit) (modify g) (Same fun _ => True) :=
  fun s t hst => ⟨.ok ⟨rfl, trivial⟩, h s t hst⟩

/-! ## Lists -/

theorem mapM {f g : β → ExceptT Failure (StateM τ) α} {items : List β}
    (h : ∀ b ∈ items, Agree R (f b) (g b) (Same P)) :
    Agree R (items.mapM f) (items.mapM g) (Same (∀ a ∈ ·, P a)) := by
  induction items with
  | nil => exact same (by simp)
  | cons b items ih =>
    rw [List.mapM_cons, List.mapM_cons]
    refine (h b List.mem_cons_self).andThen fun a ha => ?_
    refine (ih fun c hc => h c (List.mem_cons_of_mem b hc)).andThen fun as has => ?_
    exact same (List.forall_mem_cons.mpr ⟨ha, has⟩)

theorem filterAuxM {f g : α → ExceptT Failure (StateM τ) Bool} {items kept : List α}
    (h : ∀ a ∈ items, Agree R (f a) (g a) (Same fun _ => True)) (hi : ∀ a ∈ items, P a)
    (hk : ∀ a ∈ kept, P a) :
    Agree R (items.filterAuxM f kept) (items.filterAuxM g kept) (Same (∀ a ∈ ·, P a)) := by
  induction items generalizing kept with
  | nil => exact same hk
  | cons a items ih =>
    refine (h a List.mem_cons_self).andThen fun b _ => ?_
    have hi' : ∀ c ∈ items, P c := fun c hc => hi c (List.mem_cons_of_mem a hc)
    refine ih (fun c hc => h c (List.mem_cons_of_mem a hc)) hi' ?_
    cases b with
    | false => exact hk
    | true => exact List.forall_mem_cons.mpr ⟨hi a List.mem_cons_self, hk⟩

theorem filterM {f g : α → ExceptT Failure (StateM τ) Bool} {items : List α}
    (h : ∀ a ∈ items, Agree R (f a) (g a) (Same fun _ => True)) (hi : ∀ a ∈ items, P a) :
    Agree R (items.filterM f) (items.filterM g) (Same (∀ a ∈ ·, P a)) :=
  (filterAuxM h hi (by simp)).andThen fun _ hk => same fun a ha => hk a (List.mem_reverse.mp ha)

theorem foldlM {f g : α → β → ExceptT Failure (StateM τ) α} {items : List β} {a : α}
    (h : ∀ a, P a → ∀ b ∈ items, Agree R (f a b) (g a b) (Same P)) (ha : P a) :
    Agree R (items.foldlM f a) (items.foldlM g a) (Same P) := by
  induction items generalizing a with
  | nil => exact same ha
  | cons b items ih =>
    rw [List.foldlM_cons, List.foldlM_cons]
    exact (h a ha b List.mem_cons_self).andThen fun a ha =>
      ih (fun a ha c hc => h a ha c (List.mem_cons_of_mem b hc)) ha

theorem forM {f g : β → ExceptT Failure (StateM τ) PUnit} {C : β → β → Prop}
    (h : ∀ b b', C b b' → Agree R (f b) (g b') (Same fun _ => True)) {items items' : List β}
    (hitems : List.Forall₂ C items items') :
    Agree R (items.forM f) (items'.forM g) (Same fun _ => True) := by
  induction hitems with
  | nil => exact same trivial
  | cons hb _ ih =>
    rw [List.forM_eq_forM, List.forM_cons, List.forM_cons]
    exact (h _ _ hb).andThen fun _ _ => ih

/-! ## Failures -/

theorem outcome {act act' : ExceptT Failure (StateM τ) α} (h : Agree R act act' (Same P)) :
    Agree R (outcome act) (CanisterShell.outcome act') (Same fun r => ∀ a, r = .ok a → P a) := by
  intro s t hst
  obtain ⟨hend, hR⟩ := h s t hst
  match hr : act.run.run s, hr' : act'.run.run t with
  | (r, s'), (r', t') =>
    rw [hr, hr'] at hend hR
    cases hend with
    | ok ha =>
      rw [Gives.outcome hr, Gives.outcome hr']
      exact ⟨.ok ⟨congrArg Except.ok ha.1, fun _ hb => by cases hb; exact ha.2⟩, hR⟩
    | error f =>
      cases f with
      | error e =>
        rw [Gives.outcome_of_error hr, Gives.outcome_of_error hr']
        exact ⟨.ok ⟨rfl, nofun⟩, hR⟩
      | _ =>
        rw [Gives.run_outcome_of_unforeseen hr nofun, Gives.run_outcome_of_unforeseen hr' nofun]
        exact ⟨.error _, hR⟩

/-! ## Environments -/

section Environments

variable {σ : Type} {R : Env × Session σ → Env × Session σ → Prop}

theorem env : Agree R Running.env Running.env fun env env' => ∃ s t, R (env, s) (env', t) :=
  fun (_, s) (_, t) hst => ⟨.ok ⟨s, t, hst⟩, hst⟩

theorem modifyEnv {f g : Env → Env}
    (h : ∀ env env' s t, R (env, s) (env', t) → R (f env, s) (g env', t)) :
    Agree R (Running.modifyEnv f) (Running.modifyEnv g) (Same fun _ => True) :=
  modify fun (env, s) (env', t) => h env env' s t

/-- What is done in children that are related again need not keep the environments themselves. -/
theorem inChild {f g : Env → Env} {act act' : Running σ α} (h : Agree R act act' Q)
    (hin : ∀ env env' s t, R (env, s) (env', t) → R (f env, s) (g env', t))
    (hout : ∀ env env' s t inner inner' s' t', R (env, s) (env', t) →
      R (inner, s') (inner', t') → R (env, s') (env', t')) :
    Agree R (Running.inChild f act) (Running.inChild g act') Q := by
  intro (env, s) (env', t) hst
  obtain ⟨hend, hR⟩ := h _ _ (hin env env' s t hst)
  exact ⟨hend, hout env env' s t _ _ _ _ hst hR⟩

theorem afterwards {f g : Env → Env} {act act' : Running σ α} (h : Agree R act act' Q)
    (hf : ∀ env env' s t, R (env, s) (env', t) → R (f env, s) (g env', t)) :
    Agree R (Running.afterwards act f) (Running.afterwards act' g) Q := by
  intro s t hst
  obtain ⟨hend, hR⟩ := h s t hst
  exact ⟨hend, hf _ _ _ _ hR⟩

end Environments

end Agree

end CanisterShell
