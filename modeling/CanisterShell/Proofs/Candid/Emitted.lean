import CanisterShell.Proofs.Candid.Table

/-!
# Type tables read back

The header of an encoded message reads back as a scope of the table's places and a type for each
argument, which means the same there as the declared type does in its own scope
(`readHeader_takes`).
-/

namespace CanisterShell.Candid

open List (Forall₂)

theorem Prim.ofCode?_code (p : Prim) : ofCode? p.code = some p := by
  cases p with
  | int kind => cases kind <;> rfl
  | float kind => cases kind <;> rfl
  | _ => rfl

theorem Prim.code_neg (p : Prim) : p.code < 0 := by
  cases p with
  | int kind => cases kind <;> decide
  | float kind => cases kind <;> decide
  | _ => decide

theorem Mode.ofCode_code (m : Mode) : ofCode m.code = m := by
  cases m <;> rfl

namespace Wire

/-! ## References -/

theorem typeOfRef_code (size : Nat) (p : Prim) : typeOfRef size p.code = .ok (.prim p) := by
  have hneg := p.code_neg
  rw [typeOfRef, if_neg (by omega), Prim.ofCode?_code]

theorem typeOfRef_place {size place : Nat} (h : place < size) :
    typeOfRef size place = .ok (.var (placeName place)) := by
  rw [typeOfRef, if_pos (by omega), if_pos (by omega), Int.toNat_natCast]

theorem placeName_inj {place place' : Nat} (h : placeName place = placeName place') :
    place = place' := by
  have hchars := congrArg String.toList h
  rw [placeName, placeName, String.toList_append, String.toList_append] at hchars
  have hdigits := List.append_cancel_left hchars
  rw [Nat.toString_eq_repr, Nat.toString_eq_repr, Nat.toList_repr, Nat.toList_repr] at hdigits
  rw [← Nat.ofDigitChars_ten_toDigits (n := place), hdigits, Nat.ofDigitChars_ten_toDigits]

theorem find?_namedFrom (us : List Ty) (start i : Nat) :
    Table.find? (placeName (start + i)) (namedFrom start us) = us[i]? := by
  induction us generalizing start i with
  | nil => rfl
  | cons u us ih =>
    rw [namedFrom, Table.find?_cons]
    cases i with
    | zero => exact if_pos rfl
    | succ i =>
      have hne : placeName start ≠ placeName (start + (i + 1)) := by
        intro h
        have heq := placeName_inj h
        omega
      rw [if_neg hne, List.getElem?_cons_succ, show start + (i + 1) = start + 1 + i by omega, ih]

section Read
variable {scope : Scope} {keys : Array Key}

/-- A type is read back from a reference that points at it. -/
def ReadsAs (scope : Scope) (keys : Array Key) (t u : Ty) : Prop :=
  ∃ r, Points scope keys t r ∧ typeOfRef keys.size r = .ok u

theorem Points.exists_typeOfRef {t : Ty} {r : Int} (h : Points scope keys t r) :
    ∃ u, typeOfRef keys.size r = .ok u := by
  cases h with
  | prim p => exact ⟨_, typeOfRef_code _ p⟩
  | synonym _ => exact ⟨_, typeOfRef_code _ _⟩
  | name hkey => exact ⟨_, typeOfRef_place (Array.getElem?_eq_some_iff.mp hkey).1⟩
  | composite hkey _ => exact ⟨_, typeOfRef_place (Array.getElem?_eq_some_iff.mp hkey).1⟩

theorem forall₂_points {ts : List Ty} {rs : List Int} (h : Forall₂ (Points scope keys) ts rs) :
    ∃ us, rs.mapM (typeOfRef keys.size) = .ok us ∧ Forall₂ (ReadsAs scope keys) ts us := by
  induction h with
  | nil => exact ⟨[], rfl, .nil⟩
  | cons hr _ ih =>
    obtain ⟨u, hu⟩ := hr.exists_typeOfRef
    obtain ⟨us, hus, hall⟩ := ih
    refine ⟨u :: us, ?_, .cons ⟨_, hr, hu⟩ hall⟩
    rw [List.mapM_cons, hu, hus]
    rfl

theorem forall₂_typedFields {fs : List (Label × Ty)} {raws : List (Nat × Int)}
    (h : Forall₂ (fun f raw => raw.1 = f.1.id ∧ Points scope keys f.2 raw.2) fs raws) :
    ∃ gs, typedFields keys.size raws = .ok gs ∧
      Forall₂ (fun f g => g.1 = .numbered f.1.id ∧ ReadsAs scope keys f.2 g.2) fs gs := by
  induction h with
  | nil => exact ⟨[], rfl, .nil⟩
  | @cons f raw fs raws hf _ ih =>
    obtain ⟨id, r⟩ := raw
    obtain ⟨hid, hr⟩ := hf
    obtain ⟨u, hu⟩ := hr.exists_typeOfRef
    obtain ⟨gs, hgs, hall⟩ := ih
    refine ⟨(.numbered id, u) :: gs, ?_, .cons ⟨congrArg _ hid, _, hr, hu⟩ hall⟩
    rw [typedFields] at hgs ⊢
    rw [List.mapM_cons, hgs]
    dsimp only
    rw [hu]
    rfl

theorem forall₂_methods {ms : List (String × Ty)} {raws : List (String × Int)}
    (h : Forall₂ (fun m raw => raw.1 = m.1 ∧ Points scope keys m.2 raw.2) ms raws) :
    ∃ ns, raws.mapM (fun (n, ref) => do return (n, ← typeOfRef keys.size ref)) = .ok ns ∧
      Forall₂ (fun m n => n.1 = m.1 ∧ ReadsAs scope keys m.2 n.2) ms ns := by
  induction h with
  | nil => exact ⟨[], rfl, .nil⟩
  | @cons m raw ms raws hm _ ih =>
    obtain ⟨name, r⟩ := raw
    obtain ⟨hname, hr⟩ := hm
    obtain ⟨u, hu⟩ := hr.exists_typeOfRef
    obtain ⟨ns, hns, hall⟩ := ih
    refine ⟨(name, u) :: ns, ?_, .cons ⟨hname, _, hr, hu⟩ hall⟩
    rw [List.mapM_cons, hns]
    dsimp only
    rw [hu]
    rfl

theorem ids_of_forall₂ {R : Ty → Ty → Prop} {fs gs : List (Label × Ty)}
    (h : Forall₂ (fun f g => g.1 = .numbered f.1.id ∧ R f.2 g.2) fs gs) :
    fs.map (·.1.id) = gs.map (·.1.id) := by
  induction h with
  | nil => rfl
  | cons hfg _ ih => rw [List.map_cons, List.map_cons, ih, hfg.1]; rfl

theorem names_of_forall₂ {R : Ty → Ty → Prop} {ms ns : List (String × Ty)}
    (h : Forall₂ (fun m n => n.1 = m.1 ∧ R m.2 n.2) ms ns) : ms.map (·.1) = ns.map (·.1) := by
  induction h with
  | nil => rfl
  | cons hmn _ ih => rw [List.map_cons, List.map_cons, ih, hmn.1]

theorem Spells.exists_toTy {t : Ty} {raw : RawType} (h : Spells scope keys t raw) :
    ∃ u, raw.toTy keys.size = .ok u ∧ Head (ReadsAs scope keys) t u := by
  cases h with
  | opt h =>
    obtain ⟨u, hu⟩ := h.exists_typeOfRef
    refine ⟨.opt u, ?_, .opt ⟨_, h, hu⟩⟩
    rw [RawType.toTy, hu]
    rfl
  | vec h =>
    obtain ⟨u, hu⟩ := h.exists_typeOfRef
    refine ⟨.vec u, ?_, .vec ⟨_, h, hu⟩⟩
    rw [RawType.toTy, hu]
    rfl
  | record hasc h =>
    obtain ⟨gs, hgs, hall⟩ := forall₂_typedFields h
    refine ⟨.record gs, ?_, .record hasc hall⟩
    rw [RawType.toTy, hgs]
    exact Ty.mkRecord_of_ascending (hasc.of_ids (ids_of_forall₂ hall))
  | variant hasc h =>
    obtain ⟨gs, hgs, hall⟩ := forall₂_typedFields h
    refine ⟨.variant gs, ?_, .variant hasc hall⟩
    rw [RawType.toTy, hgs]
    exact Ty.mkVariant_of_ascending (hasc.of_ids (ids_of_forall₂ hall))
  | func modes h h' =>
    obtain ⟨us, hus, hall⟩ := forall₂_points h
    obtain ⟨us', hus', hall'⟩ := forall₂_points h'
    refine ⟨.func us us' modes, ?_, .func modes hall hall'⟩
    have hmodes : (modes.map (·.code)).map Mode.ofCode = modes := by
      have hid : Mode.ofCode ∘ (·.code) = id := funext Mode.ofCode_code
      rw [List.map_map, hid, List.map_id]
    rw [RawType.toTy, hus, hus', hmodes]
    rfl
  | service hsorted h =>
    obtain ⟨ns, hns, hall⟩ := forall₂_methods h
    refine ⟨.service ns, ?_, .service hall⟩
    have hnames := List.pairwise_map.mpr hsorted
    rw [names_of_forall₂ hall] at hnames
    rw [RawType.toTy, hns]
    show Except.ok (Ty.service (Ty.sortMethods ns)) = _
    rw [Ty.sortMethods_of_pairwise (List.pairwise_map.mp hnames)]

end Read

/-! ## The header -/

section Header
variable {scope : Scope} {keys : Array Key}

/-- A type stands at the place of a key: it is of the form that the key's type has. -/
def Places (scope : Scope) (keys : Array Key) (key : Key) (u : Ty) : Prop :=
  ∃ t, Stands scope key t ∧ Head (ReadsAs scope keys) t.bare u

theorem exists_raws {ks : List Key} {entries : List Bytes}
    (h : Forall₂ (Holds scope keys) ks entries) :
    ∃ (raws : List RawType) (us : List Ty),
      entries = raws.map RawType.bytes ∧ raws.mapM (·.toTy keys.size) = .ok us ∧
      Forall₂ (Places scope keys) ks us := by
  induction h with
  | nil => exact ⟨[], [], rfl, rfl, .nil⟩
  | cons hholds _ ih =>
    obtain ⟨t, raw, hstands, hspells, rfl⟩ := hholds
    obtain ⟨u, hu, hhead⟩ := hspells.exists_toTy
    obtain ⟨raws, us, rfl, hus, hall⟩ := ih
    refine ⟨raw :: raws, u :: us, rfl, ?_, .cons ⟨t, hstands, hhead⟩ hall⟩
    rw [List.mapM_cons, hu, hus]
    rfl

theorem exists_place {us : List Ty} (hplaces : Forall₂ (Places scope keys) keys.toList us)
    {place : Nat} {key : Key} (hkey : keys[place]? = some key) :
    ∃ t u, Stands scope key t ∧ Head (ReadsAs scope keys) t.bare u ∧
      (namedFrom 0 us).resolve (.var (placeName place)) = .ok u := by
  have hkey' : keys.toList[place]? = some key := by rwa [Array.getElem?_toList]
  obtain ⟨u, hu, t, hstands, hhead⟩ := exists_getElem?_of_forall₂ hplaces hkey'
  refine ⟨t, u, hstands, hhead, Scope.resolve_var ?_ hhead.right_ne_var⟩
  have hfind := find?_namedFrom us 0 place
  rwa [Nat.zero_add, hu] at hfind

theorem agree_of_readsAs {us : List Ty} (hplaces : Forall₂ (Places scope keys) keys.toList us)
    {t u : Ty} (h : ReadsAs scope keys t.bare u) : Agree scope (namedFrom 0 us) t u := by
  refine ⟨fun t u => ReadsAs scope keys t.bare u, h, ?_⟩
  clear h
  rintro t u ⟨r, hpoints, hu⟩
  generalize hbare : t.bare = t' at hpoints
  cases hpoints with
  | prim p =>
    obtain rfl := Ty.eq_prim_of_bare hbare
    rw [typeOfRef_code] at hu
    cases hu
    exact ⟨_, _, Scope.resolve_of_ne_var (by nofun), Scope.resolve_of_ne_var (by nofun), .prim p⟩
  | @synonym name p hprim =>
    obtain rfl := Ty.eq_var_of_bare hbare
    rw [typeOfRef_code] at hu
    cases hu
    exact ⟨_, _, hprim, Scope.resolve_of_ne_var (by nofun), .prim p⟩
  | @name name place hkey =>
    obtain rfl := Ty.eq_var_of_bare hbare
    rw [typeOfRef_place (Array.getElem?_eq_some_iff.mp hkey).1] at hu
    cases hu
    obtain ⟨t, u, hstands, hhead, hresolve⟩ := exists_place hplaces hkey
    cases hstands with
    | name ht => exact ⟨t, u, ht, hresolve, hhead.of_bare⟩
  | @composite t₂ _ place hkey hsame =>
    rw [typeOfRef_place (Array.getElem?_eq_some_iff.mp hkey).1] at hu
    cases hu
    obtain ⟨t₃, u, hstands, hhead, hresolve⟩ := exists_place hplaces hkey
    cases hstands
    rw [hsame, ← hbare] at hhead
    exact ⟨t, u, Scope.resolve_of_ne_var hhead.of_bare.left_ne_var, hresolve, hhead.of_bare⟩

theorem exists_args {ts : List Ty} {rs : List Int}
    (h : Forall₂ (fun t r => Points scope keys t.bare r) ts rs) :
    ∃ us, Forall₂ (fun r u => typeOfRef keys.size r = .ok u) rs us ∧
      Forall₂ (fun t u => ReadsAs scope keys t.bare u) ts us := by
  induction h with
  | nil => exact ⟨[], .nil, .nil⟩
  | cons hr _ ih =>
    obtain ⟨u, hu⟩ := hr.exists_typeOfRef
    obtain ⟨us, hus, hall⟩ := ih
    exact ⟨u :: us, .cons hu hus, .cons ⟨_, hr, hu⟩ hall⟩

end Header

/-- The header of an encoded message reads back as the places of its table and as types that mean
the same there as the declared ones. -/
theorem readHeader_takes {scope : Scope} (hscope : scope.Ordered) {ts : List Ty}
    (hts : ∀ t ∈ ts, t.Ordered) {rs : List Int} {table : TypeTable}
    (h : refs scope ts = .ok (rs, table)) :
    ∃ wire us, Reader.Takes readHeader (table.bytes ++ (leb rs.length ++ rs.flatMap sleb))
      (wire, us) ∧ Forall₂ (Agree scope wire) ts us := by
  obtain ⟨hpoints, hholds⟩ := refs_spec hscope hts h
  obtain ⟨raws, types, hentries, htypes, hplaces⟩ := exists_raws hholds
  obtain ⟨us, hus, hargs⟩ := exists_args hpoints
  refine ⟨namedFrom 0 types, us, ?_, hargs.imp fun _ _ => agree_of_readsAs hplaces⟩
  have hsize : table.entries.size = raws.length := by
    rw [← Array.length_toList, hentries, List.length_map]
  have hkeys : table.keys.size = raws.length := by
    rw [← Array.length_toList, hholds.length_eq, Array.length_toList, hsize]
  rw [hkeys] at htypes hus
  rw [TypeTable.bytes, hsize, hentries, ← List.flatMap_def]
  refine (Reader.Takes.list_self fun raw _ => readEntry_takes raw).bind ?_
  refine (Reader.Takes.lift htypes).bind_nil ((Reader.Takes.list ?_).bind_last (.pure _))
  exact hus.imp fun r u hu => (Reader.Takes.int r).bind_last (.lift hu)

end Wire

end CanisterShell.Candid
