import CanisterShell.Candid.Scope
import CanisterShell.Proofs.Table

/-!
# Names resolved

What a type's name resolves to is one of the definitions, and never a name again (`resolve_mem`,
`resolve_ne_var`); a type that is no name stays as it is.  Names that do not resolve are errors of
evaluation.  Only what a scope defines matters, not the order of its definitions (`resolve_congr`).
-/

namespace CanisterShell

namespace Candid.Scope

variable {scope unused : Scope} {t u : Ty}

theorem resolveIn_of_ne_var (h : ∀ name, t ≠ .var name) : resolveIn scope unused t = .ok t := by
  cases t with
  | var name => exact absurd rfl (h name)
  | _ =>
    rw [resolveIn]
    intro name hname
    cases hname

theorem resolve_of_ne_var (h : ∀ name, t ≠ .var name) : scope.resolve t = .ok t := by
  rw [resolve, resolveIn_of_ne_var h]
  rfl

theorem resolve_prim (scope : Scope) (p : Prim) : scope.resolve (.prim p) = .ok (.prim p) :=
  resolve_of_ne_var fun _ h => Ty.noConfusion h

theorem resolveIn_ne_var (h : resolveIn scope unused t = .ok u) (name : String) :
    u ≠ .var name := by
  fun_induction resolveIn scope unused t with
  | case1 unused name' t ht hlt ih => exact ih h
  | case2 unused name' ht => cases h
  | case3 unused t ht =>
    cases h
    exact fun he => ht name he

/-- A resolved type is no name. -/
theorem resolve_ne_var (h : scope.resolve t = .ok u) (name : String) : u ≠ .var name := by
  rw [resolve] at h
  cases hr : resolveIn scope scope t with
  | error cause => rw [hr] at h; cases h
  | ok u' =>
    rw [hr] at h
    cases h
    exact resolveIn_ne_var hr name

theorem resolveIn_mem (h : resolveIn scope unused t = .ok u) :
    u = t ∨ ∃ name, (name, u) ∈ unused := by
  fun_induction resolveIn scope unused t with
  | case1 unused name t ht hlt ih =>
    refine .inr ?_
    obtain rfl | ⟨name', hmem⟩ := ih h
    · exact ⟨name, Table.mem_of_find?_eq_some ht⟩
    · exact ⟨name', Table.mem_of_mem_without hmem⟩
  | case2 unused name ht => cases h
  | case3 unused t ht => cases h; exact .inl rfl

/-- A type resolves to itself or to one of the definitions. -/
theorem resolve_mem (h : scope.resolve t = .ok u) : u = t ∨ ∃ name, (name, u) ∈ scope := by
  rw [resolve] at h
  cases hr : resolveIn scope scope t with
  | error cause => rw [hr] at h; cases h
  | ok u' =>
    rw [hr] at h
    cases h
    exact resolveIn_mem hr

theorem resolve_nil (h : resolve [] t = .ok u) : u = t := by
  obtain rfl | ⟨name, hmem⟩ := resolve_mem h
  · rfl
  · cases hmem

theorem resolve_var {name : String} (hfind : scope.find? name = some t)
    (h : ∀ name, t ≠ .var name) : scope.resolve (.var name) = .ok t := by
  rw [resolve, resolveIn]
  split
  · next t' ht =>
    rw [hfind] at ht
    cases ht
    rw [resolveIn_of_ne_var h]
    rfl
  · next hnone => rw [hfind] at hnone; cases hnone

theorem exists_find?_of_resolve_var {name : String} (h : scope.resolve (.var name) = .ok u) :
    ∃ t, scope.find? name = some t := by
  rw [resolve, resolveIn] at h
  split at h
  · next t ht => exact ⟨t, ht⟩
  · cases h

theorem resolve_error {e : Failure} (h : scope.resolve t = .error e) :
    ∃ cause, e = .eval cause := by
  rw [resolve] at h
  cases hr : resolveIn scope scope t with
  | error cause =>
    rw [hr] at h
    cases h
    exact ⟨cause, rfl⟩
  | ok u' => rw [hr] at h; cases h

theorem isByte_of_resolve (h : scope.resolve t = .ok u) : scope.isByte t = .ok u.isByte := by
  rw [isByte, h]
  rfl

/-! ## Scopes of the same definitions -/

variable {scope' unused' : Scope}

theorem resolveIn_congr (h : ∀ name, scope.find? name = scope'.find? name)
    (hunused : ∀ name, unused.find? name = unused'.find? name) (t : Ty) :
    resolveIn scope unused t = resolveIn scope' unused' t := by
  fun_induction resolveIn scope unused t generalizing unused' with
  | case1 unused name t ht hlt ih =>
    conv_rhs => rw [resolveIn]
    have hsame : ∀ k, (unused.without name).find? k = (unused'.without name).find? k := by
      intro k
      by_cases hk : k = name
      · rw [hk, Table.find?_without_self, Table.find?_without_self]
      · rw [Table.find?_without_of_ne hk, Table.find?_without_of_ne hk, hunused]
    split
    case h_1 t' ht' =>
      obtain rfl : t = t' := Option.some.inj (ht.symm.trans ((hunused name).trans ht'))
      exact ih hsame
    case h_2 hnone => rw [hunused, hnone] at ht; cases ht
  | case2 unused name hnone =>
    symm
    rw [resolveIn]
    split
    case h_1 t' ht' => rw [hunused, ht'] at hnone; cases hnone
    case h_2 => rw [h]
  | case3 unused t ht => rw [resolveIn_of_ne_var fun name heq => ht name heq]

theorem resolve_congr (h : ∀ name, scope.find? name = scope'.find? name) (t : Ty) :
    scope.resolve t = scope'.resolve t := by
  rw [resolve, resolve, resolveIn_congr h h]

end Candid.Scope

end CanisterShell
