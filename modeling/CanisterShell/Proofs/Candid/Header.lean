import CanisterShell.Proofs.Candid.Nesting

/-!
# The header of a message

The header is read exactly and refused plainly, and the definitions that it gives are those of a
table: each place holds a composite type whose parts are references, and so are the types of the
arguments (`readHeader_gives`).  An entry is read back from the bytes that a writer puts for it
(`readEntry_takes`).
-/

namespace CanisterShell.Candid.Wire

/-! ## Exactness -/

open Reader (Exact)

theorem readField_exact : Exact readField := Exact.nat.bind fun _ => Exact.int.bind fun _ => .pure _

theorem readMethod_exact : Exact readMethod :=
  Exact.text.bind fun _ => Exact.int.bind fun _ => .pure _

theorem readEntry_exact : Exact readEntry := by
  refine Exact.int.bind fun code => ?_
  split
  · exact Exact.int.bind fun _ => .pure _
  split
  · exact Exact.int.bind fun _ => .pure _
  split
  · exact readField_exact.list.bind fun _ => .pure _
  split
  · exact readField_exact.list.bind fun _ => .pure _
  split
  · refine Exact.int.list.bind fun args => Exact.int.list.bind fun results => ?_
    exact Exact.byte.list.bind fun _ => .pure _
  split
  · exact readMethod_exact.list.bind fun _ => .pure _
  · exact .throw _

theorem readHeader_exact : Exact readHeader := by
  refine readEntry_exact.list.bind fun entries => (Exact.lift _).bind fun types => ?_
  refine (Exact.list ?_).bind fun _ => .pure _
  exact Exact.int.bind fun ref => .lift _

/-! ## Plain failures -/

theorem readField_plain : Reader.Plain readField :=
  Reader.Plain.nat.bind fun _ => Reader.Plain.int.bind fun _ => .pure _

theorem readMethod_plain : Reader.Plain readMethod :=
  Reader.Plain.text.bind fun _ => Reader.Plain.int.bind fun _ => .pure _

theorem readEntry_plain : Reader.Plain readEntry := by
  refine Reader.Plain.int.bind fun code => ?_
  split
  · exact Reader.Plain.int.bind fun _ => .pure _
  split
  · exact Reader.Plain.int.bind fun _ => .pure _
  split
  · exact readField_plain.list.bind fun _ => .pure _
  split
  · exact readField_plain.list.bind fun _ => .pure _
  split
  · refine Reader.Plain.int.list.bind fun args => Reader.Plain.int.list.bind fun results => ?_
    exact Reader.Plain.byte.list.bind fun _ => .pure _
  split
  · exact readMethod_plain.list.bind fun _ => .pure _
  · exact .eval _

theorem typeOfRef_plain (size : Nat) (ref : Int) : Attempt.Plain (typeOfRef size ref) := by
  rw [typeOfRef]
  split
  · split
    · exact .ok _
    · exact .eval _
  · split
    · exact .ok _
    · exact .eval _

theorem typedFields_plain (size : Nat) (fields : List (Nat × Int)) :
    Attempt.Plain (typedFields size fields) :=
  .mapM (fun ⟨_, ref⟩ => (typeOfRef_plain size ref).bind fun _ => .ok _) fields

theorem toTy_plain (size : Nat) (raw : RawType) : Attempt.Plain (raw.toTy size) := by
  cases raw with
  | opt item => exact (typeOfRef_plain size item).bind fun _ => .ok _
  | vec item => exact (typeOfRef_plain size item).bind fun _ => .ok _
  | record fields => exact (typedFields_plain size fields).bind Ty.mkRecord_plain
  | variant cases => exact (typedFields_plain size cases).bind Ty.mkVariant_plain
  | func args results modes =>
    refine (Attempt.Plain.mapM (typeOfRef_plain size) args).bind fun args => ?_
    exact (Attempt.Plain.mapM (typeOfRef_plain size) results).bind fun _ => .ok _
  | service methods =>
    refine (Attempt.Plain.mapM (fun ⟨_, ref⟩ => ?_) methods).bind fun _ => .ok _
    exact (typeOfRef_plain size ref).bind fun _ => .ok _

theorem readHeader_plain : Reader.Plain readHeader := by
  refine readEntry_plain.list.bind fun entries => ?_
  refine (Reader.Plain.lift (.mapM (toTy_plain _) entries)).bind fun types => ?_
  refine (Reader.Plain.list ?_).bind fun _ => .pure _
  exact Reader.Plain.int.bind fun ref => .lift (typeOfRef_plain _ ref)

/-! ## What the header gives -/

theorem typeOfRef_isReference {size : Nat} {ref : Int} {t : Ty} (h : typeOfRef size ref = .ok t) :
    IsReference t := by
  rw [typeOfRef] at h
  split at h
  · split at h
    · cases h
      exact .inr ⟨_, rfl⟩
    · cases h
  · split at h
    · cases h
      exact .inl ⟨_, rfl⟩
    · cases h

theorem typedFields_isReference {size : Nat} {raw : List (Nat × Int)} {fields : List (Label × Ty)}
    (h : typedFields size raw = .ok fields) : ∀ f ∈ fields, IsReference f.2 := by
  intro f hf
  obtain ⟨⟨id, ref⟩, -, hf⟩ := Attempt.exists_of_mapM_ok h hf
  obtain ⟨t, ht, hf⟩ := Attempt.bind_ok_iff.mp hf
  cases hf
  exact typeOfRef_isReference ht

theorem sortFields_isReference {fields : List (Label × Ty)} (h : ∀ f ∈ fields, IsReference f.2) :
    ∀ t ∈ (Ty.sortFields fields).map (·.2), IsReference t := by
  intro t ht
  obtain ⟨f, hf, rfl⟩ := List.mem_map.mp ht
  exact h f ((perm_sortBy _ fields).mem_iff.mp hf)

theorem toTy_parts {size : Nat} {raw : RawType} {t : Ty} (h : raw.toTy size = .ok t) :
    ∀ part ∈ partTypes t, IsReference part := by
  cases raw with
  | opt item | vec item =>
    obtain ⟨u, hu, h⟩ := Attempt.bind_ok_iff.mp h
    cases h
    intro part hpart
    rw [List.mem_singleton.mp hpart]
    exact typeOfRef_isReference hu
  | record fields =>
    obtain ⟨fields, hfields, h⟩ := Attempt.bind_ok_iff.mp h
    rw [Ty.mkRecord] at h
    split at h
    · cases h
    · cases h
      exact sortFields_isReference (typedFields_isReference hfields)
  | variant cases =>
    obtain ⟨cases, hcases, h⟩ := Attempt.bind_ok_iff.mp h
    rw [Ty.mkVariant] at h
    split at h
    · cases h
    · cases h
      exact sortFields_isReference (typedFields_isReference hcases)
  | func args results modes =>
    obtain ⟨args, -, h⟩ := Attempt.bind_ok_iff.mp h
    obtain ⟨results, -, h⟩ := Attempt.bind_ok_iff.mp h
    cases h
    intro part hpart
    cases hpart
  | service methods =>
    obtain ⟨methods, -, h⟩ := Attempt.bind_ok_iff.mp h
    cases h
    intro part hpart
    cases hpart

theorem mem_of_mem_namedFrom {place : Nat} {ts : List Ty} {name : String} {t : Ty}
    (h : (name, t) ∈ namedFrom place ts) : t ∈ ts := by
  induction ts generalizing place with
  | nil => cases h
  | cons u ts ih =>
    obtain h | h := List.mem_cons.mp h
    · cases h
      exact List.mem_cons_self
    · exact List.mem_cons_of_mem u (ih h)

theorem readHeader_gives :
    Reader.Gives readHeader fun (scope, args) => Flat scope ∧ ∀ t ∈ args, IsReference t := by
  refine .bind_right fun entries => .bind (.lift fun types htypes => htypes) fun types htypes => ?_
  refine .bind (.list (.bind_right fun _ => .lift fun t => typeOfRef_isReference)) fun args hargs => ?_
  refine .pure ⟨fun name t hmem => ?_, hargs⟩
  obtain ⟨raw, -, ht⟩ := Attempt.exists_of_mapM_ok htypes (mem_of_mem_namedFrom hmem)
  exact toTy_parts ht

/-! ## Entries read back -/

/-- The bytes of a labelled reference. -/
def fieldBytes (f : Nat × Int) : Bytes := leb f.1 ++ sleb f.2

def methodBytes (m : String × Int) : Bytes := textBytes m.1 ++ sleb m.2

def RawType.bytes : RawType → Bytes
  | opt item => sleb optCode ++ sleb item
  | vec item => sleb vecCode ++ sleb item
  | record fields => sleb recordCode ++ (leb fields.length ++ fields.flatMap fieldBytes)
  | variant cases => sleb variantCode ++ (leb cases.length ++ cases.flatMap fieldBytes)
  | func args results modes =>
    sleb funcCode ++ ((leb args.length ++ args.flatMap sleb)
      ++ ((leb results.length ++ results.flatMap sleb) ++ (leb modes.length ++ modes)))
  | service methods => sleb serviceCode ++ (leb methods.length ++ methods.flatMap methodBytes)

theorem readField_takes (f : Nat × Int) : Reader.Takes readField (fieldBytes f) f :=
  (Reader.Takes.nat f.1).bind ((Reader.Takes.int f.2).bind_last (.pure _))

theorem readMethod_takes (m : String × Int) : Reader.Takes readMethod (methodBytes m) m :=
  (Reader.Takes.text m.1).bind ((Reader.Takes.int m.2).bind_last (.pure _))

theorem takes_modes (modes : Bytes) :
    Reader.Takes (Reader.list Reader.byte) (leb modes.length ++ modes) modes := by
  have hlist : Reader.Takes (Reader.list Reader.byte) (leb modes.length ++ modes.flatMap fun b => [b])
      modes := .list_self fun b _ => .byte b
  rwa [List.flatMap_singleton'] at hlist

theorem readEntry_takes (raw : RawType) : Reader.Takes readEntry raw.bytes raw := by
  cases raw with
  | opt item =>
    refine (Reader.Takes.int optCode).bind ?_
    rw [if_pos rfl]
    exact (Reader.Takes.int item).bind_last (.pure _)
  | vec item =>
    refine (Reader.Takes.int vecCode).bind ?_
    rw [if_neg (by decide), if_pos rfl]
    exact (Reader.Takes.int item).bind_last (.pure _)
  | record fields =>
    refine (Reader.Takes.int recordCode).bind ?_
    rw [if_neg (by decide), if_neg (by decide), if_pos rfl]
    exact (Reader.Takes.list_self fun f _ => readField_takes f).bind_last (.pure _)
  | variant cases =>
    refine (Reader.Takes.int variantCode).bind ?_
    rw [if_neg (by decide), if_neg (by decide), if_neg (by decide), if_pos rfl]
    exact (Reader.Takes.list_self fun f _ => readField_takes f).bind_last (.pure _)
  | func args results modes =>
    refine (Reader.Takes.int funcCode).bind ?_
    rw [if_neg (by decide), if_neg (by decide), if_neg (by decide), if_neg (by decide), if_pos rfl]
    refine (Reader.Takes.list_self fun r _ => .int r).bind ?_
    refine (Reader.Takes.list_self fun r _ => .int r).bind ?_
    exact (takes_modes modes).bind_last (.pure _)
  | service methods =>
    refine (Reader.Takes.int serviceCode).bind ?_
    rw [if_neg (by decide), if_neg (by decide), if_neg (by decide), if_neg (by decide),
      if_neg (by decide), if_pos rfl]
    exact (Reader.Takes.list_self fun m _ => readMethod_takes m).bind_last (.pure _)

end CanisterShell.Candid.Wire
