import CanisterShell.Candid.Build
import CanisterShell.Proofs.Attempt
import CanisterShell.Proofs.Candid.Scope
import CanisterShell.Proofs.Order

/-!
# Types in order

In an ordered type the labels of every record and variant ascend and the methods of every service
are in order of their names, at every depth.  This is what the checking constructors establish
(`mkRecord_ordered`, `mkVariant_ordered`, `mkService_ordered`) and what makes them give an ordered
type back as it is.
-/

namespace CanisterShell.Candid

/-- Fields whose labels ascend strictly. -/
def Ascending {α : Type} (fields : List (Label × α)) : Prop :=
  fields.Pairwise fun a b => a.1.id < b.1.id

namespace Ascending

variable {α β : Type} {fields : List (Label × α)}

instance : Decidable (Ascending fields) := inferInstanceAs (Decidable (List.Pairwise _ fields))

theorem sortFields_eq (h : Ascending fields) : Ty.sortFields fields = fields :=
  sortBy_of_pairwise (h.imp fun hlt => decide_eq_true (Nat.le_of_lt hlt))

theorem repeatedLabel?_eq (h : Ascending fields) : Ty.repeatedLabel? fields = none := by
  rw [Ty.repeatedLabel?, repeated?_of_pairwise (h.imp fun hlt => Nat.ne_of_lt hlt)]
  rfl

theorem of_sortFields (h : Ty.repeatedLabel? (Ty.sortFields fields) = none) :
    Ascending (Ty.sortFields fields) := by
  have htotal : ∀ a b : Label × α, decide (a.1.id ≤ b.1.id) ∨ decide (b.1.id ≤ a.1.id) := by
    intro a b
    simpa using Nat.le_total a.1.id b.1.id
  have htrans : ∀ a b c : Label × α, decide (a.1.id ≤ b.1.id) → decide (b.1.id ≤ c.1.id) →
      decide (a.1.id ≤ c.1.id) := by
    intro a b c
    simpa using Nat.le_trans
  refine pairwise_lt_of_repeated? (pairwise_sortBy htotal htrans fields)
    (Option.map_eq_none_iff.mp h) ?_ ?_
  · intro a b hle hne
    exact Nat.lt_of_le_of_ne (of_decide_eq_true hle) hne
  · intro a b c hlt hle
    exact Nat.lt_of_lt_of_le hlt (of_decide_eq_true hle)

theorem of_ids {fields' : List (Label × β)} (hasc : Ascending fields)
    (h : fields.map (·.1.id) = fields'.map (·.1.id)) : Ascending fields' := by
  have hids : (fields.map (·.1.id)).Pairwise (· < ·) := List.pairwise_map.mpr hasc
  rw [h] at hids
  exact List.pairwise_map.mp hids

end Ascending

theorem map_id_of_forall₂ {α β : Type} {fields : List (Label × α)} {fields' : List (Label × β)}
    (h : List.Forall₂ (fun f g => g.1.id = f.1.id) fields fields') :
    fields.map (·.1.id) = fields'.map (·.1.id) := by
  rw [← List.forall₂_eq_eq_eq, List.forall₂_map_left_iff, List.forall₂_map_right_iff]
  exact h.imp fun _ _ hid => hid.symm

/-! ## Checking constructors -/

theorem Ty.mkRecord_of_ascending {fields : List (Label × Ty)} (h : Ascending fields) :
    mkRecord fields = .ok (.record fields) := by
  rw [mkRecord, h.sortFields_eq, h.repeatedLabel?_eq]

theorem Ty.mkVariant_of_ascending {cases : List (Label × Ty)} (h : Ascending cases) :
    mkVariant cases = .ok (.variant cases) := by
  rw [mkVariant, h.sortFields_eq, h.repeatedLabel?_eq]

theorem Value.mkRecord_of_ascending {fields : List (Label × Value)} (h : Ascending fields) :
    mkRecord fields = .ok (.record fields) := by
  rw [mkRecord, h.sortFields_eq, h.repeatedLabel?_eq]

namespace Ty

/-- Fields and methods are in order, at every depth. -/
inductive Ordered : Ty → Prop
  | prim (p : Prim) : Ordered (.prim p)
  | var (name : String) : Ordered (.var name)
  | opt {item : Ty} : Ordered item → Ordered (.opt item)
  | vec {item : Ty} : Ordered item → Ordered (.vec item)
  | record {fields : List (Label × Ty)} :
    Ascending fields → (∀ f ∈ fields, Ordered f.2) → Ordered (.record fields)
  | variant {cases : List (Label × Ty)} :
    Ascending cases → (∀ c ∈ cases, Ordered c.2) → Ordered (.variant cases)
  | func {args results : List Ty} (modes : List Mode) :
    (∀ t ∈ args, Ordered t) → (∀ t ∈ results, Ordered t) → Ordered (.func args results modes)
  | service {methods : List (String × Ty)} :
    methods.Pairwise (fun m n => m.1 ≤ n.1) → (∀ m ∈ methods, Ordered m.2) →
      Ordered (.service methods)

theorem mkRecord_ordered {fields : List (Label × Ty)} {t : Ty} (h : mkRecord fields = .ok t)
    (hfields : ∀ f ∈ fields, f.2.Ordered) : t.Ordered := by
  rw [mkRecord] at h
  split at h
  · cases h
  · next hnone =>
    cases h
    exact .record (.of_sortFields hnone) fun f hf => hfields f ((perm_sortBy _ fields).mem_iff.mp hf)

theorem mkVariant_ordered {cases : List (Label × Ty)} {t : Ty} (h : mkVariant cases = .ok t)
    (hcases : ∀ c ∈ cases, c.2.Ordered) : t.Ordered := by
  rw [mkVariant] at h
  split at h
  · cases h
  · next hnone =>
    cases h
    exact .variant (.of_sortFields hnone) fun c hc => hcases c ((perm_sortBy _ cases).mem_iff.mp hc)

theorem mkService_ordered {methods : List (String × Ty)} (h : ∀ m ∈ methods, m.2.Ordered) :
    (mkService methods).Ordered := by
  refine .service ?_ fun m hm => h m ((perm_sortBy _ methods).mem_iff.mp hm)
  have htotal : ∀ a b : String × Ty, decide (a.1 ≤ b.1) ∨ decide (b.1 ≤ a.1) := by
    intro a b
    simpa using String.le_total a.1 b.1
  have htrans : ∀ a b c : String × Ty, decide (a.1 ≤ b.1) → decide (b.1 ≤ c.1) →
      decide (a.1 ≤ c.1) := by
    intro a b c
    simpa using String.le_trans
  exact (pairwise_sortBy htotal htrans methods).imp of_decide_eq_true

theorem sortMethods_of_pairwise {methods : List (String × Ty)}
    (h : methods.Pairwise fun m n => m.1 ≤ n.1) : sortMethods methods = methods :=
  sortBy_of_pairwise (h.imp decide_eq_true)

end Ty

def Scope.Ordered (scope : Scope) : Prop := ∀ d ∈ scope, d.2.Ordered

theorem Scope.resolve_ordered {scope : Scope} {t u : Ty} (hscope : scope.Ordered) (ht : t.Ordered)
    (h : scope.resolve t = .ok u) : u.Ordered := by
  obtain rfl | ⟨name, hmem⟩ := resolve_mem h
  · exact ht
  · exact hscope _ hmem

end CanisterShell.Candid
