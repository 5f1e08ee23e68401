import CanisterShell.Table
import Mathlib.Tactic.Common

/-!
# Entries of tables

What a table holds once a value has been put into it, and tables whose keys are all new.
-/

namespace CanisterShell.Table

variable {κ α : Type} [DecidableEq κ] {key : κ} {value : α} {table : Table κ α}

theorem mem_of_find?_eq_some (h : table.find? key = some value) : (key, value) ∈ table := by
  obtain ⟨e, he, rfl⟩ := Option.map_eq_some_iff.mp h
  have hk : e.1 = key := by simpa using List.find?_some he
  rw [← hk]
  exact List.mem_of_find?_eq_some he

theorem mem_put {e : κ × α} (h : e ∈ table.put key value) : e = (key, value) ∨ e ∈ table := by
  induction table with
  | nil => exact .inl (List.mem_singleton.mp h)
  | cons d table ih =>
    rw [put] at h
    split at h
    case isTrue hk =>
      obtain rfl | h := List.mem_cons.mp h
      · exact .inl (by rw [hk])
      · exact .inr (.tail _ h)
    case isFalse =>
      obtain rfl | h := List.mem_cons.mp h
      · exact .inr (.head _)
      · exact (ih h).imp_right (.tail _)

theorem mem_merge {e : κ × α} {newer : Table κ α} (h : e ∈ table.merge newer) :
    e ∈ newer ∨ e ∈ table := by
  induction newer generalizing table with
  | nil => exact .inr h
  | cons d newer ih =>
    rw [merge, List.foldl_cons] at h
    obtain h | h := ih h
    · exact .inl (.tail _ h)
    · obtain rfl | h := mem_put h
      · exact .inl (.head _)
      · exact .inr h

theorem put_of_not_mem (h : key ∉ table.map (·.1)) :
    table.put key value = table ++ [(key, value)] := by
  induction table with
  | nil => rfl
  | cons e table ih =>
    rw [List.map_cons, List.mem_cons, not_or] at h
    rw [put, if_neg fun he => h.1 he.symm, ih h.2, List.cons_append]

theorem map_fst_put_of_mem (h : key ∈ table.map (·.1)) :
    (table.put key value).map (·.1) = table.map (·.1) := by
  induction table with
  | nil => cases h
  | cons e table ih =>
    rw [put]
    split
    case isTrue hk => rw [List.map_cons, List.map_cons]
    case isFalse hk =>
      rw [List.map_cons, List.map_cons, ih ((List.mem_cons.mp h).resolve_left fun he => hk he.symm)]

theorem put_put_self (value' : α) :
    (table.put key value').put key value = table.put key value := by
  induction table with
  | nil => simp [put]
  | cons e table ih =>
    by_cases he : e.1 = key
    · simp [put, he]
    · simp [put, he, ih]

/-- A key that is in a table already has its place there, whatever is put into it before. -/
theorem put_put_of_mem {key' : κ} {value' : α} (hne : key ≠ key') (h : key ∈ table.map (·.1)) :
    (table.put key' value').put key value = (table.put key value).put key' value' := by
  induction table with
  | nil => cases h
  | cons e table ih =>
    by_cases he : e.1 = key
    · simp [put, he, hne]
    · have hrest : key ∈ table.map (·.1) := (List.mem_cons.mp h).resolve_left fun hk => he hk.symm
      by_cases he' : e.1 = key'
      · simp [put, he', hne.symm]
      · simp [put, he, he', ih hrest]

theorem mem_map_fst_put : key ∈ (table.put key value).map (·.1) := by
  by_cases h : key ∈ table.map (·.1)
  · rwa [map_fst_put_of_mem h]
  · rw [put_of_not_mem h]
    simp

theorem nodup_put (h : (table.map (·.1)).Nodup) : ((table.put key value).map (·.1)).Nodup := by
  by_cases hk : key ∈ table.map (·.1)
  · rwa [map_fst_put_of_mem hk]
  · rw [put_of_not_mem hk, List.map_append]
    refine List.nodup_append.mpr ⟨h, List.pairwise_singleton _ _, fun k hmem k' hk' => ?_⟩
    obtain rfl : k' = key := List.mem_singleton.mp hk'
    rintro rfl
    exact hk hmem

theorem merge_of_nodup (table : Table κ α) {newer : Table κ α}
    (h : (table.map (·.1) ++ newer.map (·.1)).Nodup) : table.merge newer = table ++ newer := by
  induction newer generalizing table with
  | nil => exact (List.append_nil _).symm
  | cons e newer ih =>
    rw [List.map_cons, List.append_cons] at h
    have hnew : e.1 ∉ table.map (·.1) := fun hm =>
      (List.nodup_append.mp (List.nodup_append.mp h).1).2.2 e.1 hm e.1 (.head _) rfl
    have hput : (table.put e.1 e.2).map (·.1) = table.map (·.1) ++ [e.1] := by
      rw [put_of_not_mem hnew, List.map_append]
      rfl
    rw [merge, List.foldl_cons]
    have := ih (table.put e.1 e.2) (by rwa [hput])
    rw [merge, put_of_not_mem hnew, List.append_assoc] at this
    rw [put_of_not_mem hnew]
    exact this

theorem nodup_merge {newer : Table κ α} (h : (table.map (·.1)).Nodup) :
    ((table.merge newer).map (·.1)).Nodup := by
  induction newer generalizing table with
  | nil => exact h
  | cons e newer ih => exact ih (nodup_put h)

theorem find?_eq_none_of_not_mem (h : key ∉ table.map (·.1)) : table.find? key = none := by
  by_contra hsome
  obtain ⟨value, hvalue⟩ := Option.ne_none_iff_exists'.mp hsome
  exact h (List.mem_map_of_mem (f := (·.1)) (mem_of_find?_eq_some hvalue))

theorem find?_merge {newer : Table κ α} (h : (newer.map (·.1)).Nodup) :
    (table.merge newer).find? key = (newer.find? key).or (table.find? key) := by
  induction newer generalizing table with
  | nil => rfl
  | cons e newer ih =>
    obtain ⟨he, hrest⟩ := List.nodup_cons.mp h
    have hmerge : table.merge (e :: newer) = (table.put e.1 e.2).merge newer := rfl
    rw [hmerge, ih hrest, find?_put, find?_cons]
    by_cases hk : e.1 = key
    · subst hk
      rw [if_pos rfl, if_pos rfl, find?_eq_none_of_not_mem he, Option.none_or, Option.some_or]
    · rw [if_neg hk, if_neg hk]

theorem mem_of_mem_without {e : κ × α} (h : e ∈ table.without key) : e ∈ table :=
  (List.mem_filter.mp h).1

theorem find?_without_of_ne {k : κ} (h : key ≠ k) : (table.without k).find? key = table.find? key := by
  induction table with
  | nil => rfl
  | cons e table ih =>
    rw [without] at ih ⊢
    rw [List.filter_cons, find?_cons]
    split
    case isTrue => rw [find?_cons, ih]
    case isFalse he =>
      have hk : e.1 = k := by simpa using he
      rw [if_neg fun heq => h (heq.symm.trans hk), ih]

theorem find?_without_self : (table.without key).find? key = none := by
  rw [find?, without, List.find?_filter, Option.map_eq_none_iff, List.find?_eq_none]
  simp

theorem find?_of_find?_without {k : κ} (h : (table.without k).find? key = some value) :
    table.find? key = some value := by
  by_cases hk : key = k
  · rw [hk, find?_without_self] at h
    cases h
  · rwa [find?_without_of_ne hk] at h

end CanisterShell.Table
