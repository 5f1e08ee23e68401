import CanisterShell.Proofs.Candid.Header
import CanisterShell.Proofs.Candid.Likeness

/-!
# What a type table holds

While a table is built its keys only grow, and a reference points at a type by the keys alone
(`Points`), so that it goes on pointing there.  Building gives every place that it adds the entry of
its key and leaves the entries that were there (`Grows`): a type that is in the middle of being
built has its place, and the entry follows.  `Makes` is what holds of each computation; it composes
along `>>=`, goes through a type by its constructors (`entry_makes`), and through names by the depth
to which they may nest (`nameRef_makes`).
-/

namespace CanisterShell.Candid.Wire

open List (Forall₂)

/-- A reference points at a type, of bare labels: by the code of a primitive type or by a place. -/
inductive Points (scope : Scope) (keys : Array Key) : Ty → Int → Prop
  | prim (p : Prim) : Points scope keys (.prim p) p.code
  | synonym {name : String} {p : Prim} :
    scope.resolve (.var name) = .ok (.prim p) → Points scope keys (.var name) p.code
  | name {name : String} {place : Nat} :
    keys[place]? = some (.name name) → Points scope keys (.var name) place
  | composite {t u : Ty} {place : Nat} :
    keys[place]? = some (.composite t) → t.bare = u → Points scope keys u place

/-- An entry spells out a type, of bare labels. -/
inductive Spells (scope : Scope) (keys : Array Key) : Ty → RawType → Prop
  | opt {t : Ty} {r : Int} : Points scope keys t r → Spells scope keys (.opt t) (.opt r)
  | vec {t : Ty} {r : Int} : Points scope keys t r → Spells scope keys (.vec t) (.vec r)
  | record {fs : List (Label × Ty)} {raws : List (Nat × Int)} : Ascending fs →
    Forall₂ (fun f raw => raw.1 = f.1.id ∧ Points scope keys f.2 raw.2) fs raws →
      Spells scope keys (.record fs) (.record raws)
  | variant {fs : List (Label × Ty)} {raws : List (Nat × Int)} : Ascending fs →
    Forall₂ (fun f raw => raw.1 = f.1.id ∧ Points scope keys f.2 raw.2) fs raws →
      Spells scope keys (.variant fs) (.variant raws)
  | func {ts ts' : List Ty} {rs rs' : List Int} (modes : List Mode) :
    Forall₂ (Points scope keys) ts rs → Forall₂ (Points scope keys) ts' rs' →
      Spells scope keys (.func ts ts' modes) (.func rs rs' (modes.map (·.code)))
  | service {ms : List (String × Ty)} {raws : List (String × Int)} :
    ms.Pairwise (fun m n => m.1 ≤ n.1) →
    Forall₂ (fun m raw => raw.1 = m.1 ∧ Points scope keys m.2 raw.2) ms raws →
      Spells scope keys (.service ms) (.service raws)

/-- The type whose entry stands at the place of a key. -/
inductive Stands (scope : Scope) : Key → Ty → Prop
  | name {name : String} {t : Ty} : scope.resolve (.var name) = .ok t → Stands scope (.name name) t
  | composite (t : Ty) : Stands scope (.composite t) t

/-- The entry of a key's place. -/
def Holds (scope : Scope) (keys : Array Key) (key : Key) (bytes : Bytes) : Prop :=
  ∃ t raw, Stands scope key t ∧ Spells scope keys t.bare raw ∧ bytes = raw.bytes

/-! ## Keys that are added -/

/-- The keys are still there, in their places. -/
def Extends (keys keys' : Array Key) : Prop :=
  ∀ (place : Nat) (key : Key), keys[place]? = some key → keys'[place]? = some key

section Extends
variable {scope : Scope} {keys keys' : Array Key}

theorem Points.mono {t : Ty} {r : Int} (h : Points scope keys t r) (hext : Extends keys keys') :
    Points scope keys' t r := by
  cases h with
  | prim p => exact .prim p
  | synonym hprim => exact .synonym hprim
  | name hkey => exact .name (hext _ _ hkey)
  | composite hkey hbare => exact .composite (hext _ _ hkey) hbare

theorem Spells.mono {t : Ty} {raw : RawType} (h : Spells scope keys t raw)
    (hext : Extends keys keys') : Spells scope keys' t raw := by
  cases h with
  | opt h => exact .opt (h.mono hext)
  | vec h => exact .vec (h.mono hext)
  | record hasc h => exact .record hasc (h.imp fun _ _ => And.imp_right (·.mono hext))
  | variant hasc h => exact .variant hasc (h.imp fun _ _ => And.imp_right (·.mono hext))
  | func modes h h' =>
    exact .func modes (h.imp fun _ _ => (·.mono hext)) (h'.imp fun _ _ => (·.mono hext))
  | service hsorted h => exact .service hsorted (h.imp fun _ _ => And.imp_right (·.mono hext))

theorem Holds.mono {key : Key} {bytes : Bytes} (h : Holds scope keys key bytes)
    (hext : Extends keys keys') : Holds scope keys' key bytes := by
  obtain ⟨t, raw, hstands, hspells, rfl⟩ := h
  exact ⟨t, raw, hstands, hspells.mono hext, rfl⟩

end Extends

/-! ## Tables that grow -/

/-- A table has as many entries as keys. -/
def TypeTable.Balanced (table : TypeTable) : Prop := table.entries.size = table.keys.size

/-- From one table to a later one, keys are added, and with each its entry. -/
structure Grows (scope : Scope) (T T' : TypeTable) : Prop where
  balanced : T'.Balanced
  keys : Extends T.keys T'.keys
  old : ∀ place < T.keys.size, T'.entries[place]? = T.entries[place]?
  new : ∀ (place : Nat) (key : Key), T.keys.size ≤ place → T'.keys[place]? = some key →
    ∃ bytes, T'.entries[place]? = some bytes ∧ Holds scope T'.keys key bytes

namespace Grows

variable {scope : Scope} {T T' T'' : TypeTable}

theorem refl (h : T.Balanced) : Grows scope T T := by
  refine ⟨h, fun _ _ hkey => hkey, fun _ _ => rfl, fun place key hle hkey => ?_⟩
  rw [Array.getElem?_eq_none hle] at hkey
  cases hkey

theorem size_le (h : Grows scope T T') : T.keys.size ≤ T'.keys.size := by
  by_contra hlt
  have hkey : T.keys[T'.keys.size]? = some T.keys[T'.keys.size] :=
    Array.getElem?_eq_getElem (by omega)
  have hkey' := h.keys _ _ hkey
  rw [Array.getElem?_eq_none (Nat.le_refl _)] at hkey'
  cases hkey'

theorem trans (h : Grows scope T T') (h' : Grows scope T' T'') : Grows scope T T'' := by
  refine ⟨h'.balanced, fun place key hkey => h'.keys _ _ (h.keys _ _ hkey), ?_, ?_⟩
  · intro place hplace
    rw [h'.old place (Nat.lt_of_lt_of_le hplace h.size_le), h.old place hplace]
  · intro place key hle hkey
    by_cases hplace : place < T'.keys.size
    · have hkey' : T'.keys[place]? = some T'.keys[place] := Array.getElem?_eq_getElem hplace
      obtain ⟨bytes, hbytes, hholds⟩ := h.new place _ hle hkey'
      have heq := (h'.keys _ _ hkey').symm.trans hkey
      refine ⟨bytes, (h'.old place hplace).trans hbytes, ?_⟩
      rw [← Option.some.inj heq]
      exact hholds.mono h'.keys
    · exact h'.new place key (by omega) hkey

end Grows

/-! ## Computations that build a table -/

/-- Whenever the computation comes to a result, the table has grown and the result has a property
that depends on the keys. -/
def Makes {α : Type} (scope : Scope) (m : Tabling α) (P : Array Key → α → Prop) : Prop :=
  ∀ T a T', T.Balanced → m T = .ok (a, T') → Grows scope T T' ∧ P T'.keys a

namespace Makes

variable {scope : Scope} {α β : Type} {P : Array Key → α → Prop} {Q : Array Key → β → Prop}

theorem pure {a : α} (h : ∀ keys, P keys a) : Makes scope (pure a) P := by
  intro T a' T' hT hrun
  cases hrun
  exact ⟨.refl hT, h _⟩

theorem bind {m : Tabling α} {next : α → Tabling β} (h : Makes scope m P)
    (h' : ∀ keys a, P keys a → Makes scope (next a) fun keys' b => Extends keys keys' → Q keys' b) :
    Makes scope (m >>= next) Q := by
  intro T b T'' hT hrun
  obtain ⟨⟨a, T'⟩, hm, hnext⟩ := Attempt.bind_ok_iff.mp hrun
  obtain ⟨hgrows, ha⟩ := h T a T' hT hm
  obtain ⟨hgrows', hb⟩ := h' T'.keys a ha T' b T'' hgrows.balanced hnext
  exact ⟨hgrows.trans hgrows', hb hgrows'.keys⟩

theorem imp {m : Tabling α} {Q : Array Key → α → Prop} (h : Makes scope m P)
    (himp : ∀ keys a, P keys a → Q keys a) : Makes scope m Q := by
  intro T a T' hT hrun
  obtain ⟨hgrows, ha⟩ := h T a T' hT hrun
  exact ⟨hgrows, himp _ _ ha⟩

end Makes

theorem Key.same_composite {key : Key} {t : Ty} (h : key.same (.composite t)) :
    ∃ u, key = .composite u ∧ u.bare = t.bare := by
  cases key with
  | name n => cases h
  | composite u => exact ⟨u, rfl, (Ty.same_iff u t).mp h⟩

theorem Key.same_name {key : Key} {name : String} (h : key.same (.name name)) :
    key = .name name := by
  cases key with
  | name n => rw [of_decide_eq_true h]
  | composite u => cases h

theorem Key.same_refl (key : Key) : key.same key := by
  cases key with
  | name n => exact decide_eq_true rfl
  | composite t => exact (Ty.same_iff t t).mpr rfl

theorem TypeTable.find?_eq_some {key : Key} {table : TypeTable} {place : Nat}
    (h : table.find? key = some place) :
    ∃ key', table.keys[place]? = some key' ∧ key'.same key := by
  obtain ⟨hlt, hsame, -⟩ := Array.findIdx?_eq_some_iff_getElem.mp h
  exact ⟨_, Array.getElem?_eq_getElem hlt, hsame⟩

section Placed
variable {scope : Scope} {T T' : TypeTable} {key : Key}

theorem balanced_reserve (h : T.Balanced) (key : Key) : (T.reserve key).Balanced := by
  rw [TypeTable.Balanced, TypeTable.reserve, Array.size_push, Array.size_push, h]

theorem extends_reserve (T : TypeTable) (key : Key) : Extends T.keys (T.reserve key).keys := by
  intro place key' hkey
  have hlt := (Array.getElem?_eq_some_iff.mp hkey).1
  rw [TypeTable.reserve, Array.getElem?_push, if_neg (by omega), hkey]

/-- A place that is taken, built upon and then filled in is one that the table has grown by. -/
theorem grows_fill (hT : T.Balanced) (h : Grows scope (T.reserve key) T') {bytes : Bytes}
    (hholds : Holds scope T'.keys key bytes) :
    Grows scope T (T'.fill T.entries.size bytes) := by
  have hsize : (T.reserve key).keys.size = T.keys.size + 1 := Array.size_push ..
  have hlast : (T.reserve key).keys[T.keys.size]? = some key := by
    rw [TypeTable.reserve, Array.getElem?_push, if_pos rfl]
  have hkeys : (T'.fill T.entries.size bytes).keys = T'.keys := rfl
  refine ⟨?_, ?_, ?_, ?_⟩
  · rw [TypeTable.Balanced, TypeTable.fill, Array.size_setIfInBounds]
    exact h.balanced
  · exact fun place key' hkey => h.keys _ _ (extends_reserve T key _ _ hkey)
  · intro place hplace
    rw [TypeTable.fill, hT, Array.getElem?_setIfInBounds, if_neg (by omega),
      h.old place (by omega), TypeTable.reserve, Array.getElem?_push, if_neg (by rw [hT]; omega)]
  · intro place key' hle hkey
    rw [hkeys] at hkey ⊢
    by_cases hplace : place = T.keys.size
    · subst hplace
      have hkey' := (h.keys _ _ hlast).symm.trans hkey
      obtain rfl := Option.some.inj hkey'
      refine ⟨bytes, ?_, hholds⟩
      have hlt := (Array.getElem?_eq_some_iff.mp hkey).1
      have hbal := h.balanced
      rw [TypeTable.Balanced] at hbal
      rw [TypeTable.fill, hT, Array.getElem?_setIfInBounds, if_pos rfl, if_pos (by omega)]
    · obtain ⟨bytes', hbytes, hholds'⟩ := h.new place key' (by omega) hkey
      refine ⟨bytes', ?_, hholds'⟩
      rw [TypeTable.fill, hT, Array.getElem?_setIfInBounds, if_neg (by omega), hbytes]

theorem get_bind {α : Type} (next : TypeTable → Tabling α) (T : TypeTable) :
    (get >>= next : Tabling α) T = next T T := rfl

theorem placed_of_some {place : Nat} (entry : Tabling Bytes) (h : T.find? key = some place) :
    placed key entry T = .ok (place, T) := by
  rw [placed, get_bind, h]
  rfl

theorem placed_of_none (entry : Tabling Bytes) (h : T.find? key = none) :
    placed key entry T = (do
      let r ← entry (T.reserve key)
      return (T.entries.size, r.2.fill T.entries.size r.1)) := by
  rw [placed, get_bind, h]
  rfl

theorem placed_makes {t : Ty} {entry : Tabling Bytes} (hstands : Stands scope key t)
    (hentry : Makes scope entry fun keys bytes =>
      ∃ raw, Spells scope keys t.bare raw ∧ bytes = raw.bytes) :
    Makes scope (placed key entry) fun keys r =>
      ∃ (place : Nat) (key' : Key), r = place ∧ keys[place]? = some key' ∧ key'.same key := by
  intro T r T' hT hrun
  cases hfind : T.find? key with
  | some place =>
    rw [placed_of_some entry hfind] at hrun
    cases hrun
    obtain ⟨key', hkey, hsame⟩ := TypeTable.find?_eq_some hfind
    exact ⟨.refl hT, place, key', rfl, hkey, hsame⟩
  | none =>
    rw [placed_of_none entry hfind] at hrun
    obtain ⟨⟨bytes, T₂⟩, hbuilt, hr⟩ := Attempt.bind_ok_iff.mp hrun
    cases hr
    obtain ⟨hgrows, raw, hspells, rfl⟩ := hentry _ _ _ (balanced_reserve hT key) hbuilt
    refine ⟨grows_fill hT hgrows ⟨t, raw, hstands, hspells, rfl⟩, T.entries.size, key, rfl, ?_,
      key.same_refl⟩
    refine hgrows.keys _ _ ?_
    have hsize : T.entries.size = T.keys.size := hT
    rw [TypeTable.reserve, Array.getElem?_push, if_pos hsize]

end Placed

/-! ## Types and names -/

section Types
variable {scope : Scope} {named : String → Tabling Int}

/-- References to names point at them. -/
def MakesNames (scope : Scope) (named : String → Tabling Int) : Prop :=
  ∀ name, Makes scope (named name) fun keys r => Points scope keys (.var name) r

theorem refWith_makes (hnamed : MakesNames scope named) {t : Ty}
    (hentry : (∀ p, t ≠ .prim p) → (∀ name, t ≠ .var name) →
      Makes scope (entry named t) fun keys bytes =>
        ∃ raw, Spells scope keys t.bare raw ∧ bytes = raw.bytes) :
    Makes scope (refWith named t (entry named t)) fun keys r => Points scope keys t.bare r := by
  have hplaced : (∀ p, t ≠ .prim p) → (∀ name, t ≠ .var name) →
      Makes scope (placed (.composite t) (entry named t)) fun keys r =>
        Points scope keys t.bare r := by
    intro hprim hvar
    refine (placed_makes (.composite t) (hentry hprim hvar)).imp ?_
    rintro keys r ⟨place, key, rfl, hkey, hsame⟩
    obtain ⟨u, rfl, hbare⟩ := Key.same_composite hsame
    exact .composite hkey hbare
  cases t with
  | prim p => exact .pure fun keys => .prim p
  | var name => exact hnamed name
  | _ => exact hplaced nofun nofun

mutual

/-- The entry of a composite type spells it out. -/
theorem entry_makes (hnamed : MakesNames scope named) (t : Ty) (ht : t.Ordered)
    (hprim : ∀ p, t ≠ .prim p) (hvar : ∀ name, t ≠ .var name) :
    Makes scope (entry named t) fun keys bytes =>
      ∃ raw, Spells scope keys t.bare raw ∧ bytes = raw.bytes := by
  cases ht with
  | prim p => exact absurd rfl (hprim p)
  | var name => exact absurd rfl (hvar name)
  | @opt item hitem =>
    refine (refWith_makes hnamed (entry_makes hnamed item hitem)).bind fun keys r hr => ?_
    exact .pure fun keys' hext => ⟨.opt r, .opt (hr.mono hext), rfl⟩
  | @vec item hitem =>
    refine (refWith_makes hnamed (entry_makes hnamed item hitem)).bind fun keys r hr => ?_
    exact .pure fun keys' hext => ⟨.vec r, .vec (hr.mono hext), rfl⟩
  | @record fields hasc hfields =>
    refine (fieldEntries_makes hnamed fields hfields).bind fun keys bytes hbytes => ?_
    obtain ⟨raws, hraws, rfl⟩ := hbytes
    refine .pure fun keys' hext => ⟨.record raws, ?_, ?_⟩
    · refine .record (hasc.of_ids (bareFields_ids fields).symm) ?_
      exact hraws.imp fun _ _ => And.imp_right (·.mono hext)
    · rw [RawType.bytes, ← hraws.length_eq, Ty.bareFields_eq_map, List.length_map, List.append_assoc]
  | @variant cases hasc hcases =>
    refine (fieldEntries_makes hnamed cases hcases).bind fun keys bytes hbytes => ?_
    obtain ⟨raws, hraws, rfl⟩ := hbytes
    refine .pure fun keys' hext => ⟨.variant raws, ?_, ?_⟩
    · refine .variant (hasc.of_ids (bareFields_ids cases).symm) ?_
      exact hraws.imp fun _ _ => And.imp_right (·.mono hext)
    · rw [RawType.bytes, ← hraws.length_eq, Ty.bareFields_eq_map, List.length_map, List.append_assoc]
  | @func args results modes hargs hresults =>
    refine (refEntries_makes hnamed args hargs).bind fun keys bytes hbytes => ?_
    refine (refEntries_makes hnamed results hresults).bind fun keys' bytes' hbytes' => ?_
    obtain ⟨rs, hrs, rfl⟩ := hbytes
    obtain ⟨rs', hrs', rfl⟩ := hbytes'
    refine .pure fun keys'' hext' hext => ⟨.func rs rs' (modes.map (·.code)), ?_, ?_⟩
    · exact .func modes (hrs.imp fun _ _ => (·.mono hext)) (hrs'.imp fun _ _ => (·.mono hext'))
    · rw [RawType.bytes, ← hrs.length_eq, ← hrs'.length_eq, Ty.bareAll_eq_map, Ty.bareAll_eq_map,
        List.length_map, List.length_map, List.length_map]
      simp only [List.append_assoc]
  | @service methods hsorted hmethods =>
    refine (methodEntries_makes hnamed methods hmethods).bind fun keys bytes hbytes => ?_
    obtain ⟨raws, hraws, rfl⟩ := hbytes
    refine .pure fun keys' hext => ⟨.service raws, ?_, ?_⟩
    · refine .service ?_ (hraws.imp fun _ _ => And.imp_right (·.mono hext))
      rw [Ty.bareMethods_eq_map]
      exact List.pairwise_map.mpr hsorted
    · rw [RawType.bytes, ← hraws.length_eq, Ty.bareMethods_eq_map, List.length_map,
        List.append_assoc]

theorem refEntries_makes (hnamed : MakesNames scope named) (ts : List Ty)
    (hts : ∀ t ∈ ts, t.Ordered) :
    Makes scope (refEntries named ts) fun keys bytes =>
      ∃ rs, Forall₂ (Points scope keys) (Ty.bareAll ts) rs ∧ bytes = rs.flatMap sleb := by
  cases ts with
  | nil => exact .pure fun keys => ⟨[], .nil, rfl⟩
  | cons t ts =>
    obtain ⟨ht, hrest⟩ := List.forall_mem_cons.mp hts
    refine (refWith_makes hnamed (entry_makes hnamed t ht)).bind fun keys r hr => ?_
    refine (refEntries_makes hnamed ts hrest).bind fun keys' bytes hbytes => ?_
    obtain ⟨rs, hrs, rfl⟩ := hbytes
    refine .pure fun keys'' hext' hext => ⟨r :: rs, ?_, rfl⟩
    exact .cons (hr.mono hext) (hrs.imp fun _ _ => (·.mono hext'))

theorem fieldEntries_makes (hnamed : MakesNames scope named) (fs : List (Label × Ty))
    (hfs : ∀ f ∈ fs, f.2.Ordered) :
    Makes scope (fieldEntries named fs) fun keys bytes =>
      ∃ raws, Forall₂ (fun f raw => raw.1 = f.1.id ∧ Points scope keys f.2 raw.2)
        (Ty.bareFields fs) raws ∧ bytes = raws.flatMap fieldBytes := by
  cases fs with
  | nil => exact .pure fun keys => ⟨[], .nil, rfl⟩
  | cons f fs =>
    obtain ⟨hf, hrest⟩ := List.forall_mem_cons.mp hfs
    obtain ⟨l, t⟩ := f
    refine (refWith_makes hnamed (entry_makes hnamed t hf)).bind fun keys r hr => ?_
    refine (fieldEntries_makes hnamed fs hrest).bind fun keys' bytes hbytes => ?_
    obtain ⟨raws, hraws, rfl⟩ := hbytes
    refine .pure fun keys'' hext' hext => ⟨(l.id, r) :: raws, ?_, rfl⟩
    exact .cons ⟨rfl, hr.mono hext⟩ (hraws.imp fun _ _ => And.imp_right (·.mono hext'))

theorem methodEntries_makes (hnamed : MakesNames scope named) (ms : List (String × Ty))
    (hms : ∀ m ∈ ms, m.2.Ordered) :
    Makes scope (methodEntries named ms) fun keys bytes =>
      ∃ raws, Forall₂ (fun m raw => raw.1 = m.1 ∧ Points scope keys m.2 raw.2)
        (Ty.bareMethods ms) raws ∧ bytes = raws.flatMap methodBytes := by
  cases ms with
  | nil => exact .pure fun keys => ⟨[], .nil, rfl⟩
  | cons m ms =>
    obtain ⟨hm, hrest⟩ := List.forall_mem_cons.mp hms
    obtain ⟨n, t⟩ := m
    refine (refWith_makes hnamed (entry_makes hnamed t hm)).bind fun keys r hr => ?_
    refine (methodEntries_makes hnamed ms hrest).bind fun keys' bytes hbytes => ?_
    obtain ⟨raws, hraws, rfl⟩ := hbytes
    refine .pure fun keys'' hext' hext => ⟨(n, r) :: raws, ?_, rfl⟩
    exact .cons ⟨rfl, hr.mono hext⟩ (hraws.imp fun _ _ => And.imp_right (·.mono hext'))

end

theorem nameRef_of_some {T : TypeTable} {name : String} {place : Nat} (depth : Nat)
    (h : T.find? (.name name) = some place) :
    nameRef scope (depth + 1) name T = .ok (place, T) := by
  rw [nameRef, get_bind, h]
  rfl

theorem nameRef_of_none {T : TypeTable} {name : String} (depth : Nat)
    (h : T.find? (.name name) = none) :
    nameRef scope (depth + 1) name T = (do
      match ← scope.resolve (.var name) with
      | .prim p => return (p.code, T)
      | t => placed (.name name) (entry (nameRef scope depth) t) T) := by
  rw [nameRef, get_bind, h]
  show (liftM (scope.resolve (.var name)) >>= fun t => _ : Tabling Int) T = _
  cases scope.resolve (.var name) with
  | error e => rfl
  | ok t => cases t <;> rfl

/-- Names point at their definitions, however deep these may nest. -/
theorem nameRef_makes (hscope : scope.Ordered) (depth : Nat) :
    MakesNames scope (nameRef scope depth) := by
  induction depth with
  | zero =>
    intro name T r T' hT hrun
    cases hrun
  | succ depth ih =>
    intro name T r T' hT hrun
    cases hfind : T.find? (.name name) with
    | some place =>
      rw [nameRef_of_some depth hfind] at hrun
      cases hrun
      obtain ⟨key, hkey, hsame⟩ := TypeTable.find?_eq_some hfind
      rw [Key.same_name hsame] at hkey
      exact ⟨.refl hT, .name hkey⟩
    | none =>
      rw [nameRef_of_none depth hfind] at hrun
      obtain ⟨t, ht, hrun⟩ := Attempt.bind_ok_iff.mp hrun
      have hordered := Scope.resolve_ordered hscope (.var name) ht
      have hplaced : (∀ p, t ≠ .prim p) → Makes scope
          (placed (.name name) (entry (nameRef scope depth) t)) fun keys r =>
            Points scope keys (.var name) r := by
        intro hprim
        refine (placed_makes (.name ht)
          (entry_makes ih t hordered hprim (Scope.resolve_ne_var ht))).imp ?_
        rintro keys r ⟨place, key, rfl, hkey, hsame⟩
        rw [Key.same_name hsame] at hkey
        exact .name hkey
      cases t with
      | prim p =>
        cases hrun
        exact ⟨.refl hT, .synonym ht⟩
      | _ => exact hplaced nofun T r T' hT hrun

theorem ref_makes (hscope : scope.Ordered) {t : Ty} (ht : t.Ordered) :
    Makes scope (ref scope t) fun keys r => Points scope keys t.bare r :=
  refWith_makes (nameRef_makes hscope _) (entry_makes (nameRef_makes hscope _) t ht)

theorem mapM_ref_makes (hscope : scope.Ordered) (ts : List Ty) (hts : ∀ t ∈ ts, t.Ordered) :
    Makes scope (ts.mapM (ref scope)) fun keys rs =>
      Forall₂ (fun t r => Points scope keys t.bare r) ts rs := by
  induction ts with
  | nil => exact .pure fun keys => .nil
  | cons t ts ih =>
    obtain ⟨ht, hrest⟩ := List.forall_mem_cons.mp hts
    rw [List.mapM_cons]
    refine (ref_makes hscope ht).bind fun keys r hr => (ih hrest).bind fun keys' rs hrs => ?_
    refine .pure fun keys'' hext' hext => ?_
    exact .cons (hr.mono hext) (hrs.imp fun _ _ => (·.mono hext'))

theorem refs_spec (hscope : scope.Ordered) {ts : List Ty} (hts : ∀ t ∈ ts, t.Ordered)
    {rs : List Int} {table : TypeTable} (h : refs scope ts = .ok (rs, table)) :
    Forall₂ (fun t r => Points scope table.keys t.bare r) ts rs ∧
      Forall₂ (Holds scope table.keys) table.keys.toList table.entries.toList := by
  obtain ⟨hgrows, hpoints⟩ := mapM_ref_makes hscope ts hts {} rs table rfl h
  refine ⟨hpoints, List.forall₂_iff_get.mpr ⟨?_, fun place hkey hentry => ?_⟩⟩
  · rw [Array.length_toList, Array.length_toList, hgrows.balanced]
  · rw [Array.length_toList] at hkey hentry
    obtain ⟨bytes, hbytes, hholds⟩ :=
      hgrows.new place table.keys[place] (Nat.zero_le place) (Array.getElem?_eq_getElem hkey)
    rw [Array.getElem?_eq_getElem hentry] at hbytes
    cases hbytes
    exact hholds

end Types

end CanisterShell.Candid.Wire
