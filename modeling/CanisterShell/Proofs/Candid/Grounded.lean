import CanisterShell.Proofs.Candid.Resolving
import CanisterShell.Proofs.Table
import Mathlib.Logic.Relation

/-!
# Names that lead somewhere

From a type one comes to the types that stand in it and, from a name, to its definition (`Reaches`).  A
type is grounded when every name that it reaches is defined and no chain of names that stand for names
leads back to where it began (`Grounded`).  Then all these names resolve (`resolves_of_grounded`): a
definition that has been used on the way is not needed again, for that would close a chain.  Of types
that are closed under parts and definitions both can be checked one by one (`Closed`).
-/

namespace CanisterShell.Candid

open Relation (ReflTransGen TransGen)

/-- The types that stand directly in a type. -/
def Ty.components : Ty → List Ty
  | opt item | vec item => [item]
  | record fields | variant fields => fields.map (·.2)
  | func args results _ => args ++ results
  | service methods => methods.map (·.2)
  | prim _ | var _ => []

namespace Scope

/-- From a type one comes to its components, and from a name to its definition. -/
inductive Leads (scope : Scope) : Ty → Ty → Prop
  | component {t u : Ty} : u ∈ t.components → Leads scope t u
  | definition {name : String} {u : Ty} : scope.find? name = some u → Leads scope (.var name) u

/-- From a type one comes to another. -/
def Reaches (scope : Scope) : Ty → Ty → Prop := ReflTransGen scope.Leads

/-- A name stands for another name. -/
def Alias (scope : Scope) (name name' : String) : Prop := scope.find? name = some (.var name')

/-- Every name that one comes to is defined, and no chain of aliases begins and ends at one of them. -/
structure Grounded (scope : Scope) (t : Ty) : Prop where
  defined : ∀ name, scope.Reaches t (.var name) → ∃ u, scope.find? name = some u
  acyclic : ∀ name, scope.Reaches t (.var name) → ¬TransGen scope.Alias name name

/-- No floating-point type is among those that one comes to. -/
def FloatFree (scope : Scope) (t : Ty) : Prop :=
  ∀ kind, ¬scope.Reaches t (.prim (.float kind))

variable {scope unused : Scope} {t u : Ty}

/-! ## What a type reaches -/

namespace Reaches

/-- What holds of a type, of the components of what it holds of, and of the definitions of names, holds
of all that the type reaches. -/
theorem induct {C : Ty → Prop} (ht : C t) (hcomponents : ∀ t, C t → ∀ u ∈ t.components, C u)
    (hdefinitions : ∀ name u, C (.var name) → scope.find? name = some u → C u)
    (h : scope.Reaches t u) : C u := by
  induction h with
  | refl => exact ht
  | tail _ hstep ih =>
    cases hstep with
    | component hmem => exact hcomponents _ ih _ hmem
    | definition hfind => exact hdefinitions _ _ ih hfind

theorem of_resolveIn (hunused : ∀ name u, unused.find? name = some u → scope.find? name = some u)
    (h : resolveIn scope unused t = .ok u) : scope.Reaches t u := by
  fun_induction resolveIn scope unused t with
  | case1 unused name t ht hlt ih =>
    refine .head (.definition (hunused name t ht)) (ih (fun name' u hu => ?_) h)
    exact hunused name' u (Table.find?_of_find?_without hu)
  | case2 unused name ht => cases h
  | case3 unused t ht =>
    cases h
    exact .refl

theorem of_resolve (h : scope.resolve t = .ok u) : scope.Reaches t u := by
  rw [resolve] at h
  cases hr : resolveIn scope scope t with
  | error cause => rw [hr] at h; cases h
  | ok u' =>
    rw [hr] at h
    cases h
    exact of_resolveIn (fun _ _ => id) hr

end Reaches

namespace FloatFree

theorem of_reaches (h : scope.FloatFree t) (hu : scope.Reaches t u) : scope.FloatFree u :=
  fun kind hkind => h kind (hu.trans hkind)

theorem component {part : Ty} (h : scope.FloatFree t) (hu : scope.resolve t = .ok u)
    (hpart : part ∈ u.components) : scope.FloatFree part :=
  h.of_reaches ((Reaches.of_resolve hu).tail (.component hpart))

theorem ne_float (h : scope.FloatFree t) (hu : scope.resolve t = .ok u) (kind : FloatKind) :
    u ≠ .prim (.float kind) := by
  rintro rfl
  exact h kind (Reaches.of_resolve hu)

end FloatFree

/-! ## Names that resolve -/

/-- A definition that is not left over has been used on the way to the name: taking it again would
close a chain of aliases. -/
theorem Grounded.exists_resolveIn {t₀ : Ty} (h : scope.Grounded t₀) (hreach : scope.Reaches t₀ t)
    (hused : ∀ name, t = .var name → ∀ name' u, scope.find? name' = some u →
      unused.find? name' = some u ∨ TransGen scope.Alias name' name)
    (hunused : ∀ name u, unused.find? name = some u → scope.find? name = some u) :
    ∃ u, resolveIn scope unused t = .ok u := by
  fun_induction resolveIn scope unused t with
  | case1 unused name t ht hlt ih =>
    have hdefined : scope.find? name = some t := hunused name t ht
    refine ih (hreach.tail (.definition hdefined)) ?_ fun name' u hu =>
      hunused name' u (Table.find?_of_find?_without hu)
    -- what has been used so far leads to this name, and by its definition on to the next one
    rintro next rfl name' u hu
    by_cases hsame : name' = name
    · rw [hsame]
      exact .inr (.single hdefined)
    · rcases hused name rfl name' u hu with hleft | hchain
      · exact .inl ((Table.find?_without_of_ne hsame).trans hleft)
      · exact .inr (hchain.tail hdefined)
  | case2 unused name ht =>
    obtain ⟨u, hu⟩ := h.defined name hreach
    rcases hused name rfl name u hu with hleft | hchain
    · rw [ht] at hleft
      cases hleft
    · exact absurd hchain (h.acyclic name hreach)
  | case3 unused t ht => exact ⟨t, rfl⟩

theorem Grounded.exists_resolve (h : scope.Grounded t) (hu : scope.Reaches t u) :
    ∃ u', scope.resolve u = .ok u' := by
  obtain ⟨u', hu'⟩ := h.exists_resolveIn hu (fun _ _ _ _ hfind => .inl hfind) fun _ _ => id
  exact ⟨u', by rw [resolve, hu']; rfl⟩

/-! ## Finitely many types -/

/-- Some types among which are the components and the definitions of all of them. -/
structure Closed (scope : Scope) (ts : List Ty) : Prop where
  components : ∀ t ∈ ts, ∀ u ∈ t.components, u ∈ ts
  definitions : ∀ name, .var name ∈ ts → ∃ u ∈ ts, scope.find? name = some u

namespace Closed

variable {ts : List Ty}

theorem mem_of_find? (h : scope.Closed ts) {name : String} (hname : .var name ∈ ts)
    (hu : scope.find? name = some u) : u ∈ ts := by
  obtain ⟨u', hmem, hfind⟩ := h.definitions name hname
  rw [hfind] at hu
  cases hu
  exact hmem

theorem mem_of_reaches (h : scope.Closed ts) (ht : t ∈ ts) (hu : scope.Reaches t u) : u ∈ ts :=
  hu.induct ht h.components fun _ _ => h.mem_of_find?

/-- Closed types among which every alias leads to a name of lower rank are grounded. -/
theorem grounded (h : scope.Closed ts) (rank : String → Nat)
    (hrank : ∀ name, .var name ∈ ts → ∀ name', scope.Alias name name' → rank name' < rank name)
    (ht : t ∈ ts) : scope.Grounded t := by
  have hchain {name last : String} (hname : .var name ∈ ts) (hlast : TransGen scope.Alias name last) :
      .var last ∈ ts ∧ rank last < rank name := by
    induction hlast with
    | single halias => exact ⟨h.mem_of_find? hname halias, hrank _ hname _ halias⟩
    | tail _ halias ih => exact ⟨h.mem_of_find? ih.1 halias, (hrank _ ih.1 _ halias).trans ih.2⟩
  refine ⟨fun name hname => ?_, fun name hname hcycle => ?_⟩
  · obtain ⟨u, _, hfind⟩ := h.definitions name (h.mem_of_reaches ht hname)
    exact ⟨u, hfind⟩
  · exact absurd (hchain (h.mem_of_reaches ht hname) hcycle).2 (Nat.lt_irrefl _)

theorem floatFree (h : scope.Closed ts) (hfloat : ∀ kind, .prim (.float kind) ∉ ts) (ht : t ∈ ts) :
    scope.FloatFree t :=
  fun kind hkind => hfloat kind (h.mem_of_reaches ht hkind)

end Closed

end Scope

namespace Wire

theorem Parts.of_components {C : Ty → Prop} {t : Ty} (hvar : ∀ name, t ≠ .var name)
    (h : ∀ u ∈ t.components, C u) : Parts C t := by
  cases t with
  | prim p => exact .prim p
  | var name => exact absurd rfl (hvar name)
  | opt item => exact .opt (h item (.head _))
  | vec item => exact .vec (h item (.head _))
  | record fields => exact .record fun f hf => h f.2 (List.mem_map_of_mem hf)
  | variant cases => exact .variant fun c hc => h c.2 (List.mem_map_of_mem hc)
  | func args results modes =>
    exact .func modes (fun t ht => h t (List.mem_append_left _ ht))
      fun t ht => h t (List.mem_append_right _ ht)
  | service methods => exact .service fun m hm => h m.2 (List.mem_map_of_mem hm)

/-- The names of a grounded type resolve. -/
theorem resolves_of_grounded {scope : Scope} {t : Ty} (h : scope.Grounded t) : Resolves scope t := by
  refine ⟨scope.Reaches t, .refl, ?_⟩
  intro u hu
  obtain ⟨u', hresolve⟩ := h.exists_resolve hu
  refine ⟨u', hresolve, .of_components (Scope.resolve_ne_var hresolve) ?_⟩
  intro part hpart
  exact (hu.trans (Scope.Reaches.of_resolve hresolve)).tail (.component hpart)

end Wire

end CanisterShell.Candid
