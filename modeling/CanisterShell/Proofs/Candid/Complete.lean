import CanisterShell.Proofs.Candid.Emitted
import CanisterShell.Proofs.Candid.Grounded
import Mathlib

/-!
# Tables without loose ends

A reference is known in a table when it is the code of a primitive type or the index of one of the
places (`IsRef`), and an entry is filled when it is that of a composite type with known references only
(`Filled`).  The table of grounded types can be made, all its entries are filled, and it reads back as
types that unfold to the same trees (`exists_refs_filled`).
-/

namespace CanisterShell.Candid.Wire

open List (Forall₂)

/-- The references of an entry. -/
def RawType.refs : RawType → List Int
  | opt item | vec item => [item]
  | record fields | variant fields => fields.map (·.2)
  | func args results _ => args ++ results
  | service methods => methods.map (·.2)

/-- A reference is the code of a primitive type or an index of a table. -/
def IsRef (size : Nat) (r : Int) : Prop :=
  (∃ p : Prim, r = p.code) ∨ ∃ place : Nat, place < size ∧ r = place

/-- An entry is that of a composite type, with known references. -/
def Filled (size : Nat) (bytes : Bytes) : Prop :=
  ∃ raw : RawType, bytes = raw.bytes ∧ ∀ r ∈ raw.refs, IsRef size r

variable {scope : Scope} {keys : Array Key} {t : Ty}

theorem Points.isRef {r : Int} (h : Points scope keys t r) : IsRef keys.size r := by
  cases h with
  | prim p => exact .inl ⟨p, rfl⟩
  | synonym _ => exact .inl ⟨_, rfl⟩
  | name hkey => exact .inr ⟨_, (Array.getElem?_eq_some_iff.mp hkey).1, rfl⟩
  | composite hkey _ => exact .inr ⟨_, (Array.getElem?_eq_some_iff.mp hkey).1, rfl⟩

theorem isRef_of_forall₂ {α : Type} {xs : List α} {rs : List Int}
    (h : Forall₂ (fun _ r => ∃ t, Points scope keys t r) xs rs) : ∀ r ∈ rs, IsRef keys.size r := by
  intro r hr
  obtain ⟨i, hi, rfl⟩ := List.getElem_of_mem hr
  obtain ⟨t, hpoints⟩ := h.get (h.length_eq ▸ hi) hi
  exact hpoints.isRef

theorem isRef_of_forall₂_snd {α β : Type} {xs : List α} {raws : List (β × Int)}
    (h : Forall₂ (fun _ raw => ∃ t, Points scope keys t raw.2) xs raws) :
    ∀ r ∈ raws.map (·.2), IsRef keys.size r :=
  isRef_of_forall₂ (List.forall₂_map_right_iff.mpr h)

theorem Spells.isRef {raw : RawType} (h : Spells scope keys t raw) :
    ∀ r ∈ raw.refs, IsRef keys.size r := by
  cases h with
  | opt h => exact List.forall_mem_singleton.mpr h.isRef
  | vec h => exact List.forall_mem_singleton.mpr h.isRef
  | record _ h => exact isRef_of_forall₂_snd (h.imp fun _ _ hf => ⟨_, hf.2⟩)
  | variant _ h => exact isRef_of_forall₂_snd (h.imp fun _ _ hf => ⟨_, hf.2⟩)
  | func _ hargs hresults =>
    refine List.forall_mem_append.mpr ⟨?_, ?_⟩
    · exact isRef_of_forall₂ (hargs.imp fun _ _ hr => ⟨_, hr⟩)
    · exact isRef_of_forall₂ (hresults.imp fun _ _ hr => ⟨_, hr⟩)
  | service _ h => exact isRef_of_forall₂_snd (h.imp fun _ _ hm => ⟨_, hm.2⟩)

theorem Holds.filled {key : Key} {bytes : Bytes} (h : Holds scope keys key bytes) :
    Filled keys.size bytes := by
  obtain ⟨_, raw, _, hspells, rfl⟩ := h
  exact ⟨raw, rfl, hspells.isRef⟩

theorem Filled.ne_nil {size : Nat} {bytes : Bytes} (h : Filled size bytes) : bytes ≠ [] := by
  obtain ⟨raw, rfl, _⟩ := h
  intro hnil
  have hread := readEntry_takes raw []
  rw [hnil] at hread
  cases hread

/-- The table of grounded types is made, without an entry or a reference that is left open, and its
header gives types that unfold to the same trees. -/
theorem exists_refs_filled (hscope : scope.Ordered) {ts : List Ty} (hts : ∀ t ∈ ts, t.Ordered)
    (hgrounded : ∀ t ∈ ts, scope.Grounded t) :
    ∃ rs table, refs scope ts = .ok (rs, table) ∧
      (∀ r ∈ rs, IsRef table.entries.size r) ∧
      (∀ bytes ∈ table.entries.toList, bytes ≠ [] ∧ Filled table.entries.size bytes) ∧
      ∃ wire us, Reader.Takes readHeader (table.bytes ++ (leb rs.length ++ rs.flatMap sleb))
        (wire, us) ∧ Forall₂ (Agree scope wire) ts us := by
  obtain ⟨rs, table, hrefs⟩ :=
    exists_refs_of_resolves fun t ht => resolves_of_grounded (hgrounded t ht)
  obtain ⟨hpoints, hholds⟩ := refs_spec hscope hts hrefs
  have hsize : table.keys.size = table.entries.size := by
    rw [← Array.length_toList, hholds.length_eq, Array.length_toList]
  refine ⟨rs, table, hrefs, ?_, ?_, readHeader_takes hscope hts hrefs⟩
  · rw [← hsize]
    exact isRef_of_forall₂ (hpoints.imp fun _ _ hr => ⟨_, hr⟩)
  · intro bytes hbytes
    obtain ⟨i, hi, rfl⟩ := List.getElem_of_mem hbytes
    have hfilled := (hholds.get (hholds.length_eq ▸ hi) hi).filled
    rw [hsize] at hfilled
    exact ⟨hfilled.ne_nil, hfilled⟩

/-- A node of a mesh, with a list of further nodes and a way to compare it with others. -/
def meshNode : Ty :=
  .record [(.numbered 0, .var "List"), (.numbered 1, .func [.var "Node"] [.var "Size"] [.query])]

/-- What walks along lists of nodes. -/
def meshWalk : Ty := .func [.var "List"] [.var "List"] []

/-- The names of a mesh, of which one stands for another. -/
def meshScope : Scope :=
  [("Node", meshNode), ("List", .var "Nodes"), ("Nodes", .opt (.var "Node")), ("Size", .nat),
    ("Walk", .service [("walk", meshWalk)])]

def meshTypes : List Ty :=
  [.var "Walk", .opt (.var "List"), .service [("walk", meshWalk)], meshWalk, .var "List",
    .var "Nodes", .opt (.var "Node"), .var "Node", meshNode,
    .func [.var "Node"] [.var "Size"] [.query], .var "Size", .nat]

theorem meshScope_ordered : meshScope.Ordered := by
  have hnode : meshNode.Ordered := by
    refine .record (by decide) (List.forall_mem_cons.mpr ⟨.var _, List.forall_mem_singleton.mpr ?_⟩)
    refine .func _ ?_ ?_ <;> exact List.forall_mem_singleton.mpr (.var _)
  have hwalk : meshWalk.Ordered := by
    refine .func _ ?_ ?_ <;> exact List.forall_mem_singleton.mpr (.var _)
  refine List.forall_mem_cons.mpr ⟨hnode, List.forall_mem_cons.mpr ⟨.var _, ?_⟩⟩
  refine List.forall_mem_cons.mpr ⟨.opt (.var _), List.forall_mem_cons.mpr ⟨.prim _, ?_⟩⟩
  exact List.forall_mem_singleton.mpr (.service (by decide) (List.forall_mem_singleton.mpr hwalk))

theorem meshScope_closed : meshScope.Closed meshTypes := by
  refine ⟨?_, ?_⟩
  · simp [meshTypes, meshWalk, meshNode, Ty.components, Ty.nat]
  · simp [meshTypes, meshWalk, meshNode, meshScope, Table.find?_cons, Ty.nat]

theorem meshScope_grounded (ht : t ∈ meshTypes) : meshScope.Grounded t := by
  refine meshScope_closed.grounded (fun name => if name = "List" then 1 else 0) ?_ ht
  simp [meshTypes, meshWalk, meshNode, meshScope, Scope.Alias, Table.find?_cons, Ty.nat]

/-- All types of a mesh have their places, but for the alias and the number. -/
theorem mesh_refs_filled :
    ∃ table, refs meshScope [.var "Walk", .opt (.var "List")] = .ok ([0, 5], table) ∧
      table.entries.size = 6 ∧ (∀ bytes ∈ table.entries.toList, bytes ≠ [] ∧ Filled 6 bytes) ∧
      ∃ wire us, Reader.Takes readHeader (table.bytes ++ [2, 0, 5]) (wire, us) ∧
        Forall₂ (Agree meshScope wire) [.var "Walk", .opt (.var "List")] us := by
  have hordered : ∀ t ∈ [Ty.var "Walk", .opt (.var "List")], t.Ordered :=
    List.forall_mem_cons.mpr ⟨.var _, List.forall_mem_singleton.mpr (.opt (.var _))⟩
  have hgrounded : ∀ t ∈ [Ty.var "Walk", .opt (.var "List")], meshScope.Grounded t := by
    intro t ht
    refine meshScope_grounded ?_
    simp only [List.mem_cons, List.not_mem_nil, or_false] at ht
    rcases ht with rfl | rfl <;> simp [meshTypes]
  obtain ⟨rs, table, hrefs, hrs, hentries, wire, us, htakes, hagree⟩ :=
    exists_refs_filled meshScope_ordered hordered hgrounded
  have hrun : (refs meshScope [.var "Walk", .opt (.var "List")]).map
      (fun r => (r.1, r.2.entries.size)) = .ok ([0, 5], 6) := by
    cbv
  rw [hrefs] at hrun
  obtain ⟨rfl, hsize⟩ := Prod.mk.inj (Except.ok.inj hrun)
  rw [hsize] at hentries
  have hargs : leb [(0 : Int), 5].length ++ [(0 : Int), 5].flatMap sleb = [2, 0, 5] := by cbv
  rw [hargs] at htakes
  exact ⟨table, hrefs, hsize, hentries, wire, us, htakes, hagree⟩

end CanisterShell.Candid.Wire
