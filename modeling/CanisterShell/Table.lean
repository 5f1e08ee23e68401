/-!
# Tables

A table gives values to keys.  It keeps the order in which the keys were first put into it; a new
value for a key takes the place of the old one.
-/

namespace CanisterShell

/-- Values by key, in the order of the first appearance of each key. -/
abbrev Table (κ α : Type) := List (κ × α)

namespace Table

variable {κ α : Type} [DecidableEq κ]

def find? (key : κ) (table : Table κ α) : Option α :=
  (List.find? (fun e => e.1 = key) table).map (·.2)

def put (key : κ) (value : α) : Table κ α → Table κ α
  | [] => [(key, value)]
  | (k, v) :: rest => if k = key then (k, value) :: rest else (k, v) :: put key value rest

/-- A table with the entries of `newer` added or replaced. -/
def merge (table newer : Table κ α) : Table κ α := newer.foldl (fun t e => put e.1 e.2 t) table

def without (key : κ) (table : Table κ α) : Table κ α := table.filter fun e => e.1 ≠ key

@[simp] theorem find?_nil (key : κ) : find? key ([] : Table κ α) = none := rfl

theorem find?_cons (key k : κ) (v : α) (rest : Table κ α) :
    find? key ((k, v) :: rest) = if k = key then some v else find? key rest := by
  by_cases h : k = key <;> simp [find?, h]

theorem find?_put (key k : κ) (v : α) (table : Table κ α) :
    find? key (put k v table) = if k = key then some v else find? key table := by
  induction table with
  | nil => simp [put, find?_cons]
  | cons e rest ih =>
    obtain ⟨k', v'⟩ := e
    by_cases h : k' = k
    · subst h; simp only [put, if_pos, find?_cons]; split <;> simp_all
    · simp only [put, if_neg h, find?_cons, ih]
      split <;> split <;> simp_all

theorem length_without_lt {key : κ} {value : α} {table : Table κ α}
    (h : table.find? key = some value) : (table.without key).length < table.length := by
  obtain ⟨e, he, -⟩ := Option.map_eq_some_iff.1 h
  have hk : e.1 = key := by simpa using List.find?_some he
  exact List.length_filter_lt_length_iff_exists.2
    ⟨e, List.mem_of_find?_eq_some he, by simpa using hk⟩

end Table

end CanisterShell
