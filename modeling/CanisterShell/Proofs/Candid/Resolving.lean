import CanisterShell.Proofs.Candid.Scope
import CanisterShell.Proofs.Candid.Table

/-!
# Types that a table can be made for

A table can be made for every type whose names resolve, as far as one comes from it
(`exists_refs_of_resolves`).  A name takes its place before its definition is gone through, so that each
definition is gone through at most once, and the depth to which definitions may nest is never used up.
-/

namespace CanisterShell.Candid.Wire

/-! ## Types whose names resolve -/

/-- A type without a name in front, whose parts have a property. -/
inductive Parts (C : Ty → Prop) : Ty → Prop
  | prim (p : Prim) : Parts C (.prim p)
  | opt {t : Ty} : C t → Parts C (.opt t)
  | vec {t : Ty} : C t → Parts C (.vec t)
  | record {fs : List (Label × Ty)} : (∀ f ∈ fs, C f.2) → Parts C (.record fs)
  | variant {fs : List (Label × Ty)} : (∀ f ∈ fs, C f.2) → Parts C (.variant fs)
  | func {ts ts' : List Ty} (modes : List Mode) :
    (∀ t ∈ ts, C t) → (∀ t ∈ ts', C t) → Parts C (.func ts ts' modes)
  | service {ms : List (String × Ty)} : (∀ m ∈ ms, C m.2) → Parts C (.service ms)

theorem Parts.mono {C D : Ty → Prop} {t : Ty} (himp : ∀ t, C t → D t) (h : Parts C t) :
    Parts D t := by
  cases h with
  | prim p => exact .prim p
  | opt h => exact .opt (himp _ h)
  | vec h => exact .vec (himp _ h)
  | record h => exact .record fun f hf => himp _ (h f hf)
  | variant h => exact .variant fun f hf => himp _ (h f hf)
  | func modes h h' => exact .func modes (fun t ht => himp _ (h t ht)) fun t ht => himp _ (h' t ht)
  | service h => exact .service fun m hm => himp _ (h m hm)

/-- All names that one comes to from a type resolve. -/
def Resolves (scope : Scope) (t : Ty) : Prop :=
  ∃ C : Ty → Prop, C t ∧ ∀ t, C t → ∃ u, scope.resolve t = .ok u ∧ Parts C u

namespace Resolves

variable {scope : Scope} {t u : Ty}

theorem exists_parts (h : Resolves scope t) :
    ∃ u, scope.resolve t = .ok u ∧ Parts (Resolves scope) u := by
  obtain ⟨C, ht, hC⟩ := h
  obtain ⟨u, hu, hparts⟩ := hC t ht
  exact ⟨u, hu, hparts.mono fun t ht => ⟨C, ht, hC⟩⟩

theorem of_parts (h : scope.resolve t = .ok u) (hparts : Parts (Resolves scope) u) :
    Resolves scope t := by
  refine ⟨fun t' => t' = t ∨ Resolves scope t', .inl rfl, fun t' ht' => ?_⟩
  obtain ⟨u', hu', hparts'⟩ : ∃ u', scope.resolve t' = .ok u' ∧ Parts (Resolves scope) u' := by
    obtain rfl | ht' := ht'
    · exact ⟨u, h, hparts⟩
    · exact ht'.exists_parts
  exact ⟨u', hu', hparts'.mono fun t h => .inr h⟩

theorem of_prim {p : Prim} (h : scope.resolve t = .ok (.prim p)) : Resolves scope t :=
  of_parts h (.prim p)

theorem parts (h : Resolves scope t) (hvar : ∀ name, t ≠ .var name) :
    Parts (Resolves scope) t := by
  obtain ⟨u, hu, hparts⟩ := h.exists_parts
  rw [Scope.resolve_of_ne_var hvar] at hu
  rwa [Except.ok.inj hu]

end Resolves

/-! ## Definitions without a place -/

theorem TypeTable.exists_find?_iff {key : Key} {T : TypeTable} :
    (∃ place, T.find? key = some place) ↔
      ∃ (place : Nat) (key' : Key), T.keys[place]? = some key' ∧ key'.same key := by
  constructor
  · rintro ⟨place, h⟩
    exact ⟨place, TypeTable.find?_eq_some h⟩
  · rintro ⟨place, key', hkey, hsame⟩
    by_contra hnone
    have hfind : T.find? key = none := Option.eq_none_iff_forall_ne_some.mpr fun p hp => hnone ⟨p, hp⟩
    have hdiffer := Array.findIdx?_eq_none_iff.mp hfind key' (Array.mem_of_getElem? hkey)
    rw [hsame] at hdiffer
    cases hdiffer

theorem Extends.exists_find? {T T' : TypeTable} (h : Extends T.keys T'.keys) {key : Key}
    (hfind : ∃ place, T.find? key = some place) : ∃ place, T'.find? key = some place := by
  rw [TypeTable.exists_find?_iff] at hfind ⊢
  obtain ⟨place, key', hkey, hsame⟩ := hfind
  exact ⟨place, key', h _ _ hkey, hsame⟩

/-- The definitions whose names have no place in a table. -/
def unplaced (scope : Scope) (T : TypeTable) : List (String × Ty) :=
  scope.filter fun d => T.find? (.name d.1) = none

variable {scope : Scope} {T T' : TypeTable}

theorem unplaced_sublist (h : Extends T.keys T'.keys) :
    (unplaced scope T').Sublist (unplaced scope T) := by
  refine List.monotone_filter_right _ fun d hd => ?_
  rw [decide_eq_true_eq] at hd ⊢
  by_contra hplaced
  obtain ⟨place, hplace⟩ := h.exists_find? (Option.ne_none_iff_exists'.mp hplaced)
  rw [hd] at hplace
  cases hplace

theorem unplaced_reserve_lt {name : String} {t : Ty} (hdefined : scope.find? name = some t)
    (hfind : T.find? (.name name) = none) :
    (unplaced scope (T.reserve (.name name))).length < (unplaced scope T).length := by
  have hsublist : (unplaced scope (T.reserve (.name name))).Sublist (unplaced scope T) :=
    unplaced_sublist (extends_reserve T (.name name))
  refine Nat.lt_of_le_of_ne hsublist.length_le fun hlength => ?_
  have hmem : (name, t) ∈ unplaced scope T :=
    List.mem_filter.mpr ⟨Table.mem_of_find?_eq_some hdefined, decide_eq_true hfind⟩
  rw [← hsublist.eq_of_length hlength] at hmem
  have hnone := of_decide_eq_true (List.mem_filter.mp hmem).2
  have hlast : (T.reserve (.name name)).keys[T.keys.size]? = some (.name name) := by
    rw [TypeTable.reserve, Array.getElem?_push, if_pos rfl]
  obtain ⟨place, hplace⟩ := TypeTable.exists_find?_iff.mpr ⟨_, _, hlast, Key.same_refl (.name name)⟩
  rw [hnone] at hplace
  cases hplace

/-! ## Computations that come to an end -/

/-- From every table that at most `n` definitions have no place in, the computation comes to a
result and leaves the places as they are. -/
def Finishes (scope : Scope) (n : Nat) {α : Type} (m : Tabling α) : Prop :=
  ∀ T, (unplaced scope T).length ≤ n → ∃ a T', m T = .ok (a, T') ∧ Extends T.keys T'.keys

namespace Finishes

variable {n : Nat} {α β : Type}

theorem pure (a : α) : Finishes scope n (Pure.pure a) :=
  fun T _ => ⟨a, T, rfl, fun _ _ h => h⟩

theorem bind {m : Tabling α} {next : α → Tabling β} (h : Finishes scope n m)
    (h' : ∀ a, Finishes scope n (next a)) : Finishes scope n (m >>= next) := by
  intro T hT
  obtain ⟨a, T', hm, hext⟩ := h T hT
  obtain ⟨b, T'', hnext, hext'⟩ := h' a T' ((unplaced_sublist hext).length_le.trans hT)
  exact ⟨b, T'', Attempt.bind_ok_iff.mpr ⟨(a, T'), hm, hnext⟩,
    fun place key hkey => hext' _ _ (hext _ _ hkey)⟩

theorem mapM {f : α → Tabling β} {items : List α} (h : ∀ a ∈ items, Finishes scope n (f a)) :
    Finishes scope n (items.mapM f) := by
  induction items with
  | nil => exact pure []
  | cons a items ih =>
    rw [List.mapM_cons]
    exact (h a (.head _)).bind fun b => (ih fun a ha => h a (.tail _ ha)).bind fun bs => pure _

/-- A key takes its place and has its entry made, from a table in which taking the place leaves few
enough definitions without one. -/
theorem run_placed {key : Key} {entry : Tabling Bytes} (h : Finishes scope n entry)
    (hfind : T.find? key = none) (hT : (unplaced scope (T.reserve key)).length ≤ n) :
    ∃ r T', placed key entry T = .ok (r, T') ∧ Extends T.keys T'.keys := by
  obtain ⟨bytes, T', hentry, hext⟩ := h (T.reserve key) hT
  refine ⟨T.entries.size, T'.fill T.entries.size bytes, ?_, ?_⟩
  · rw [placed_of_none entry hfind]
    exact Attempt.bind_ok_iff.mpr ⟨(bytes, T'), hentry, rfl⟩
  · exact fun place key' hkey => hext _ _ (extends_reserve T key _ _ hkey)

theorem placed (key : Key) {entry : Tabling Bytes} (h : Finishes scope n entry) :
    Finishes scope n (placed key entry) := by
  intro T hT
  cases hfind : T.find? key with
  | some place => exact ⟨place, T, placed_of_some entry hfind, fun _ _ h => h⟩
  | none =>
    exact h.run_placed hfind ((unplaced_sublist (extends_reserve T key)).length_le.trans hT)

end Finishes

/-! ## Types and names -/

section Types

variable {named : String → Tabling Int} {n : Nat}

theorem refWith_finishes (hnamed : ∀ name, Resolves scope (.var name) →
      Finishes scope n (named name)) {t : Ty} (ht : Resolves scope t)
    (hentry : Parts (Resolves scope) t → Finishes scope n (entry named t)) :
    Finishes scope n (refWith named t (entry named t)) := by
  cases t with
  | prim p => exact .pure _
  | var name => exact hnamed name ht
  | _ => exact .placed _ (hentry (ht.parts nofun))

mutual

theorem entry_finishes (hnamed : ∀ name, Resolves scope (.var name) →
      Finishes scope n (named name)) (t : Ty) (ht : Parts (Resolves scope) t) :
    Finishes scope n (entry named t) := by
  cases ht with
  | prim p => exact .pure _
  | @opt item h =>
    exact (refWith_finishes hnamed h (entry_finishes hnamed item)).bind fun _ => .pure _
  | @vec item h =>
    exact (refWith_finishes hnamed h (entry_finishes hnamed item)).bind fun _ => .pure _
  | @record fields h => exact (fieldEntries_finish hnamed fields h).bind fun _ => .pure _
  | @variant cases h => exact (fieldEntries_finish hnamed cases h).bind fun _ => .pure _
  | @func args results modes h h' =>
    exact (refEntries_finish hnamed args h).bind fun _ =>
      (refEntries_finish hnamed results h').bind fun _ => .pure _
  | @service methods h => exact (methodEntries_finish hnamed methods h).bind fun _ => .pure _

theorem refEntries_finish (hnamed : ∀ name, Resolves scope (.var name) →
      Finishes scope n (named name)) (ts : List Ty) (hts : ∀ t ∈ ts, Resolves scope t) :
    Finishes scope n (refEntries named ts) := by
  cases ts with
  | nil => exact .pure _
  | cons t ts =>
    obtain ⟨ht, hts⟩ := List.forall_mem_cons.mp hts
    exact (refWith_finishes hnamed ht (entry_finishes hnamed t)).bind fun _ =>
      (refEntries_finish hnamed ts hts).bind fun _ => .pure _

theorem fieldEntries_finish (hnamed : ∀ name, Resolves scope (.var name) →
      Finishes scope n (named name)) (fs : List (Label × Ty))
    (hfs : ∀ f ∈ fs, Resolves scope f.2) : Finishes scope n (fieldEntries named fs) := by
  cases fs with
  | nil => exact .pure _
  | cons f fs =>
    obtain ⟨l, t⟩ := f
    obtain ⟨ht, hfs⟩ := List.forall_mem_cons.mp hfs
    exact (refWith_finishes hnamed ht (entry_finishes hnamed t)).bind fun _ =>
      (fieldEntries_finish hnamed fs hfs).bind fun _ => .pure _

theorem methodEntries_finish (hnamed : ∀ name, Resolves scope (.var name) →
      Finishes scope n (named name)) (ms : List (String × Ty))
    (hms : ∀ m ∈ ms, Resolves scope m.2) : Finishes scope n (methodEntries named ms) := by
  cases ms with
  | nil => exact .pure _
  | cons m ms =>
    obtain ⟨name, t⟩ := m
    obtain ⟨ht, hms⟩ := List.forall_mem_cons.mp hms
    exact (refWith_finishes hnamed ht (entry_finishes hnamed t)).bind fun _ =>
      (methodEntries_finish hnamed ms hms).bind fun _ => .pure _

end

/-- Names may nest as deep as there are definitions without a place, and once more for one that has
its place. -/
theorem nameRef_finishes (n : Nat) {name : String} (h : Resolves scope (.var name)) :
    Finishes scope n (nameRef scope (n + 1) name) := by
  -- a name that takes its place leaves one definition less for those behind it
  induction n generalizing name with
  | zero =>
    intro T hT
    cases hfind : T.find? (.name name) with
    | some place => exact ⟨place, T, nameRef_of_some 0 hfind, fun _ _ h => h⟩
    | none =>
      obtain ⟨u, hu, -⟩ := h.exists_parts
      obtain ⟨t, ht⟩ := Scope.exists_find?_of_resolve_var hu
      have hlt := unplaced_reserve_lt ht hfind
      omega
  | succ n ih =>
    intro T hT
    cases hfind : T.find? (.name name) with
    | some place => exact ⟨place, T, nameRef_of_some (n + 1) hfind, fun _ _ h => h⟩
    | none =>
      obtain ⟨u, hu, hparts⟩ := h.exists_parts
      obtain ⟨t, ht⟩ := Scope.exists_find?_of_resolve_var hu
      have hlt := unplaced_reserve_lt ht hfind
      have hplaced := (entry_finishes (fun name hname => ih hname) u hparts).run_placed
        hfind (by omega)
      rw [nameRef_of_none (n + 1) hfind, hu, Attempt.ok_bind]
      cases u with
      | prim p => exact ⟨p.code, T, rfl, fun _ _ h => h⟩
      | _ => exact hplaced

/-- The table of types whose names resolve can be made. -/
theorem exists_refs_of_resolves {ts : List Ty} (hts : ∀ t ∈ ts, Resolves scope t) :
    ∃ rs table, refs scope ts = .ok (rs, table) := by
  have hnamed (name : String) (h : Resolves scope (.var name)) :
      Finishes scope scope.length (nameRef scope (scope.length + 1) name) :=
    nameRef_finishes scope.length h
  have hrefs : Finishes scope scope.length (ts.mapM (ref scope)) :=
    .mapM fun t ht => refWith_finishes hnamed (hts t ht) (entry_finishes hnamed t)
  obtain ⟨rs, table, h, -⟩ := hrefs {} (List.length_filter_le _ _)
  exact ⟨rs, table, h⟩

end Types

end CanisterShell.Candid.Wire
