import CanisterShell.Candid.Ty
import CanisterShell.Proofs.Candid.Ordered
import Mathlib.Data.List.Forall2

/-!
# Types that mean the same

Two types are the same when they agree once every label is taken by its number (`Ty.same_iff`).
In scopes of their own they mean the same when their names resolve to types of one form whose parts,
again, mean the same (`Agree`).  Names make types infinite, so that this is a simulation: a relation
that holds of the parts wherever it holds of the whole.  The second type is one of a table, where
labels are bare numbers.
-/

namespace CanisterShell.Candid

/-! ## Types that are the same -/

namespace Ty

mutual

/-- A type with the bare number for each label. -/
def bare : Ty → Ty
  | prim p => prim p
  | var name => var name
  | opt item => opt (bare item)
  | vec item => vec (bare item)
  | record fields => record (bareFields fields)
  | variant cases => variant (bareFields cases)
  | func args results modes => func (bareAll args) (bareAll results) modes
  | service methods => service (bareMethods methods)

def bareAll : List Ty → List Ty
  | [] => []
  | t :: rest => bare t :: bareAll rest

def bareFields : List (Label × Ty) → List (Label × Ty)
  | [] => []
  | (l, t) :: rest => (.numbered l.id, bare t) :: bareFields rest

def bareMethods : List (String × Ty) → List (String × Ty)
  | [] => []
  | (n, t) :: rest => (n, bare t) :: bareMethods rest

end

mutual

/-- Types are the same when they agree but for the names of labels. -/
theorem same_iff (t u : Ty) : same t u = true ↔ bare t = bare u := by
  cases t <;> cases u
  case prim.prim p q => simp [same, bare]
  case var.var a b => simp [same, bare]
  case opt.opt a b => simp [same, bare, same_iff a b]
  case vec.vec a b => simp [same, bare, same_iff a b]
  case record.record fs gs => simp [same, bare, sameFields_iff fs gs]
  case variant.variant fs gs => simp [same, bare, sameFields_iff fs gs]
  case func.func as rs ms bs ss ns => simp [same, bare, sameAll_iff as bs, sameAll_iff rs ss, and_assoc]
  case service.service ms ns => simp [same, bare, sameMethods_iff ms ns]
  all_goals simp [same, bare]

theorem sameAll_iff (ts us : List Ty) : sameAll ts us = true ↔ bareAll ts = bareAll us := by
  cases ts <;> cases us
  case cons.cons t ts u us => simp [sameAll, bareAll, same_iff t u, sameAll_iff ts us]
  all_goals simp [sameAll, bareAll]

theorem sameFields_iff (fs gs : List (Label × Ty)) :
    sameFields fs gs = true ↔ bareFields fs = bareFields gs := by
  cases fs <;> cases gs
  case cons.cons f fs g gs =>
    obtain ⟨l, t⟩ := f
    obtain ⟨m, u⟩ := g
    simp [sameFields, bareFields, Label.same, same_iff t u, sameFields_iff fs gs, and_assoc]
  all_goals simp [sameFields, bareFields]

theorem sameMethods_iff (ms ns : List (String × Ty)) :
    sameMethods ms ns = true ↔ bareMethods ms = bareMethods ns := by
  cases ms <;> cases ns
  case cons.cons m ms n ns =>
    obtain ⟨l, t⟩ := m
    obtain ⟨l', u⟩ := n
    simp [sameMethods, bareMethods, same_iff t u, sameMethods_iff ms ns, and_assoc]
  all_goals simp [sameMethods, bareMethods]

end

theorem eq_prim_of_bare {t : Ty} {p : Prim} (h : bare t = prim p) : t = prim p := by
  cases t with
  | prim q => exact h
  | _ => cases h

theorem eq_var_of_bare {t : Ty} {name : String} (h : bare t = var name) : t = var name := by
  cases t with
  | var name' => exact h
  | _ => cases h

theorem bareAll_eq_map (ts : List Ty) : bareAll ts = ts.map bare := by
  induction ts with
  | nil => rfl
  | cons t ts ih => rw [bareAll, ih, List.map_cons]

theorem bareFields_eq_map (fs : List (Label × Ty)) :
    bareFields fs = fs.map fun f => (.numbered f.1.id, bare f.2) := by
  induction fs with
  | nil => rfl
  | cons f fs ih => rw [bareFields, ih, List.map_cons]

theorem bareMethods_eq_map (ms : List (String × Ty)) :
    bareMethods ms = ms.map fun m => (m.1, bare m.2) := by
  induction ms with
  | nil => rfl
  | cons m ms ih => rw [bareMethods, ih, List.map_cons]

end Ty

/-! ## Types in scopes of their own -/

open List (Forall₂)

theorem exists_getElem?_of_forall₂ {α β : Type} {R : α → β → Prop} {xs : List α} {ys : List β}
    (h : Forall₂ R xs ys) {i : Nat} {x : α} (hx : xs[i]? = some x) :
    ∃ y, ys[i]? = some y ∧ R x y := by
  induction h generalizing i with
  | nil => cases hx
  | @cons x' y' xs ys hxy _ ih =>
    cases i with
    | zero =>
      cases hx
      exact ⟨y', rfl, hxy⟩
    | succ i => exact ih hx

/-- Two types without a name in front are of one form, and their parts are related. -/
inductive Head (R : Ty → Ty → Prop) : Ty → Ty → Prop
  | prim (p : Prim) : Head R (.prim p) (.prim p)
  | opt {t u : Ty} : R t u → Head R (.opt t) (.opt u)
  | vec {t u : Ty} : R t u → Head R (.vec t) (.vec u)
  | record {fs gs : List (Label × Ty)} : Ascending fs →
    Forall₂ (fun f g => g.1 = .numbered f.1.id ∧ R f.2 g.2) fs gs → Head R (.record fs) (.record gs)
  | variant {fs gs : List (Label × Ty)} : Ascending fs →
    Forall₂ (fun f g => g.1 = .numbered f.1.id ∧ R f.2 g.2) fs gs → Head R (.variant fs) (.variant gs)
  | func {ts us ts' us' : List Ty} (modes : List Mode) :
    Forall₂ R ts us → Forall₂ R ts' us' → Head R (.func ts ts' modes) (.func us us' modes)
  | service {ms ns : List (String × Ty)} :
    Forall₂ (fun m n => n.1 = m.1 ∧ R m.2 n.2) ms ns → Head R (.service ms) (.service ns)

namespace Head

variable {R S : Ty → Ty → Prop} {t u : Ty}

theorem mono (himp : ∀ t u, R t u → S t u) (h : Head R t u) : Head S t u := by
  cases h with
  | prim p => exact .prim p
  | opt h => exact .opt (himp _ _ h)
  | vec h => exact .vec (himp _ _ h)
  | record hasc h => exact .record hasc (h.imp fun _ _ => And.imp_right (himp _ _))
  | variant hasc h => exact .variant hasc (h.imp fun _ _ => And.imp_right (himp _ _))
  | func modes h h' => exact .func modes (h.imp himp) (h'.imp himp)
  | service h => exact .service (h.imp fun _ _ => And.imp_right (himp _ _))

theorem left_ne_var (h : Head R t u) (name : String) : t ≠ .var name := by
  rintro rfl
  cases h

theorem right_ne_var (h : Head R t u) (name : String) : u ≠ .var name := by
  rintro rfl
  cases h

end Head

theorem bareFields_ids (fs : List (Label × Ty)) :
    (Ty.bareFields fs).map (·.1.id) = fs.map (·.1.id) := by
  rw [Ty.bareFields_eq_map, List.map_map]
  rfl

theorem Head.of_bare {R : Ty → Ty → Prop} {t u : Ty} (h : Head R t.bare u) :
    Head (fun t u => R t.bare u) t u := by
  cases t with
  | prim p =>
    cases h
    exact .prim p
  | var name => cases h
  | opt item =>
    cases h with
    | opt h => exact .opt h
  | vec item =>
    cases h with
    | vec h => exact .vec h
  | record fs =>
    rw [Ty.bare] at h
    cases h with
    | record hasc h =>
      rw [Ty.bareFields_eq_map, List.forall₂_map_left_iff] at h
      exact .record (hasc.of_ids (bareFields_ids fs)) h
  | variant fs =>
    rw [Ty.bare] at h
    cases h with
    | variant hasc h =>
      rw [Ty.bareFields_eq_map, List.forall₂_map_left_iff] at h
      exact .variant (hasc.of_ids (bareFields_ids fs)) h
  | func args results modes =>
    rw [Ty.bare] at h
    cases h with
    | func modes h h' =>
      rw [Ty.bareAll_eq_map, List.forall₂_map_left_iff] at h h'
      exact .func modes h h'
  | service ms =>
    rw [Ty.bare] at h
    cases h with
    | service h =>
      rw [Ty.bareMethods_eq_map, List.forall₂_map_left_iff] at h
      exact .service h

/-- A type of a scope and one of a table mean the same. -/
def Agree (scope wire : Scope) (t u : Ty) : Prop :=
  ∃ R : Ty → Ty → Prop, R t u ∧ ∀ t u, R t u →
    ∃ t' u', scope.resolve t = .ok t' ∧ wire.resolve u = .ok u' ∧ Head R t' u'

/-- Types that mean the same resolve to types of one form whose parts mean the same. -/
theorem Agree.head {scope wire : Scope} {t u : Ty} (h : Agree scope wire t u) :
    ∃ t' u', scope.resolve t = .ok t' ∧ wire.resolve u = .ok u' ∧
      Head (Agree scope wire) t' u' := by
  obtain ⟨R, hR, hstep⟩ := h
  obtain ⟨t', u', ht, hu, hhead⟩ := hstep t u hR
  exact ⟨t', u', ht, hu, hhead.mono fun t u h => ⟨R, h, hstep⟩⟩

end CanisterShell.Candid
