/-!
# Stable sorting by insertion

A list is sorted by a Boolean order, items that the order does not tell apart staying in place.
-/

namespace CanisterShell

/-- Puts an item in front of the first one that is not below it. -/
def insertBy {α : Type} (le : α → α → Bool) (x : α) : List α → List α
  | [] => [x]
  | y :: ys => if le x y then x :: y :: ys else y :: insertBy le x ys

def sortBy {α : Type} (le : α → α → Bool) (items : List α) : List α :=
  items.foldr (insertBy le) []

/-- The first item that has the same key as the one before it. -/
def repeated? {α κ : Type} [DecidableEq κ] (key : α → κ) : List α → Option α
  | x :: y :: rest => if key x = key y then some y else repeated? key (y :: rest)
  | _ => none

theorem perm_insertBy {α : Type} (le : α → α → Bool) (x : α) (items : List α) :
    (insertBy le x items).Perm (x :: items) := by
  induction items with
  | nil => exact .refl _
  | cons y ys ih =>
    unfold insertBy
    split
    · exact .refl _
    · exact (ih.cons y).trans (.swap x y ys)

theorem perm_sortBy {α : Type} (le : α → α → Bool) (items : List α) :
    (sortBy le items).Perm items := by
  induction items with
  | nil => exact .refl _
  | cons x xs ih => exact (perm_insertBy le x _).trans (ih.cons x)

end CanisterShell
