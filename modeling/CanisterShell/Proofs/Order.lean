import CanisterShell.Order

/-!
# Sorted lists

Sorting leaves a sorted list as it is (`sortBy_of_pairwise`) and gives a sorted list
(`pairwise_sortBy`); a sorted list in which no key is repeated is strictly ascending.
-/

namespace CanisterShell

variable {α : Type} {le : α → α → Bool}

theorem sortBy_of_pairwise {items : List α} (h : items.Pairwise fun a b => le a b) :
    sortBy le items = items := by
  induction items with
  | nil => rfl
  | cons x xs ih =>
    obtain ⟨hx, hxs⟩ := List.pairwise_cons.mp h
    rw [sortBy, List.foldr_cons]
    rw [sortBy] at ih
    rw [ih hxs]
    cases xs with
    | nil => rfl
    | cons y ys => rw [insertBy, if_pos (hx y List.mem_cons_self)]

theorem pairwise_insertBy (htotal : ∀ a b, le a b ∨ le b a)
    (htrans : ∀ a b c, le a b → le b c → le a c) (x : α) {items : List α}
    (h : items.Pairwise fun a b => le a b) : (insertBy le x items).Pairwise fun a b => le a b := by
  induction items with
  | nil => exact List.pairwise_singleton _ x
  | cons y ys ih =>
    obtain ⟨hy, hys⟩ := List.pairwise_cons.mp h
    rw [insertBy]
    split
    · next hle =>
      refine List.pairwise_cons.mpr ⟨fun z hz => ?_, h⟩
      obtain rfl | hz := List.mem_cons.mp hz
      · exact hle
      · exact htrans x y z hle (hy z hz)
    · next hle =>
      refine List.pairwise_cons.mpr ⟨fun z hz => ?_, ih hys⟩
      obtain rfl | hz := List.mem_cons.mp ((perm_insertBy le x ys).mem_iff.mp hz)
      · exact (htotal y z).resolve_right hle
      · exact hy z hz

theorem pairwise_sortBy (htotal : ∀ a b, le a b ∨ le b a)
    (htrans : ∀ a b c, le a b → le b c → le a c) (items : List α) :
    (sortBy le items).Pairwise fun a b => le a b := by
  induction items with
  | nil => exact .nil
  | cons x xs ih => exact pairwise_insertBy htotal htrans x ih

variable {κ : Type} [DecidableEq κ] {key : α → κ} {items : List α}

theorem repeated?_of_pairwise (h : items.Pairwise fun a b => key a ≠ key b) :
    repeated? key items = none := by
  fun_induction repeated? key items with
  | case1 x y rest heq => exact absurd heq ((List.pairwise_cons.mp h).1 y List.mem_cons_self)
  | case2 x y rest hne ih => exact ih (List.pairwise_cons.mp h).2
  | case3 => rfl

theorem pairwise_lt_of_repeated? {lt : α → α → Prop} (h : items.Pairwise fun a b => le a b)
    (hnone : repeated? key items = none) (hlt : ∀ a b, le a b → key a ≠ key b → lt a b)
    (htrans : ∀ a b c, lt a b → le b c → lt a c) : items.Pairwise lt := by
  fun_induction repeated? key items with
  | case1 x y rest heq => cases hnone
  | case2 x y rest hne ih =>
    obtain ⟨hx, hrest⟩ := List.pairwise_cons.mp h
    have hxy := hlt x y (hx y List.mem_cons_self) hne
    refine List.pairwise_cons.mpr ⟨fun z hz => ?_, ih hrest hnone⟩
    obtain rfl | hz := List.mem_cons.mp hz
    · exact hxy
    · exact htrans x y z hxy ((List.pairwise_cons.mp hrest).1 z hz)
  | case3 items hshort =>
    obtain _ | ⟨x, _ | ⟨y, rest⟩⟩ := items
    · exact .nil
    · exact List.pairwise_singleton _ x
    · exact absurd rfl (hshort x y rest)

end CanisterShell
