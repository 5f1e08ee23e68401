import CanisterShell.Proofs.Candid.Proper
import CanisterShell.Proofs.Candid.RoundTrip

/-!
# Messages that describe themselves

Values that are encoded at the types that they show themselves can always be encoded, and a reader
who expects nothing in particular gets them back up to what a message cannot say
(`decodeArgs_encodeArgs`).  A vector is typed by its first item alone.  That this is a type for every
other item too is what uniformity gives: types agree but for the names of labels, and a value is
written and read alike at all types that so agree with its own.
-/

namespace CanisterShell.Candid

open List (Forall₂)

namespace Value

/-- A value without floating-point numbers in which all items of a vector show the same type, at
every depth. -/
inductive Uniform : Value → Prop where
  | null : Uniform .null
  | reserved : Uniform .reserved
  | nothing : Uniform .nothing
  | bool (b : Bool) : Uniform (.bool b)
  | text (s : String) : Uniform (.text s)
  | number (n : Int) : Uniform (.number n)
  | int (kind : IntKind) (n : Int) : Uniform (.int kind n)
  | opt {v : Value} (h : Uniform v) : Uniform (.opt v)
  | vec {items : List Value} (h : ∀ v ∈ items, Uniform v)
      (hty : ∀ v ∈ items, ∀ w ∈ items, v.ty.same w.ty = true) : Uniform (.vec items)
  | blob (bytes : Bytes) : Uniform (.blob bytes)
  | record {fields : List (Label × Value)} (h : ∀ f ∈ fields, Uniform f.2) :
      Uniform (.record fields)
  | variant (label : Label) {v : Value} (index : Nat) (h : Uniform v) :
      Uniform (.variant label v index)
  | principal (p : Principal) : Uniform (.principal p)
  | service (p : Principal) : Uniform (.service p)
  | func (p : Principal) (method : String) : Uniform (.func p method)

mutual

/-- A value as a reader without expectations receives it: a number without a type is a natural one
unless it is negative, bytes in a row are a blob, labels are their bare numbers, and a case is the
only one of its variant. -/
def received : Value → Value
  | number n => int (if n < 0 then .int else .nat) n
  | opt v => opt (received v)
  | vec items =>
    if items.isEmpty then vec []
    else
      match items.mapM byte? with
      | some bytes => blob bytes
      | none => vec (receivedItems items)
  | record fields => record (receivedFields fields)
  | variant label v _ => variant (.numbered label.id) (received v) 0
  | v => v

def receivedItems : List Value → List Value
  | [] => []
  | v :: rest => received v :: receivedItems rest

def receivedFields : List (Label × Value) → List (Label × Value)
  | [] => []
  | (l, v) :: rest => (.numbered l.id, received v) :: receivedFields rest

end

attribute [local simp] ty received

theorem fieldTys_eq_map (fields : List (Label × Value)) :
    fieldTys fields = fields.map fun f => (f.1, f.2.ty) := by
  induction fields with
  | nil => rfl
  | cons f fields ih => rw [fieldTys, ih, List.map_cons]

theorem receivedItems_eq_map (items : List Value) : receivedItems items = items.map received := by
  induction items with
  | nil => rfl
  | cons v items ih => rw [receivedItems, ih, List.map_cons]

theorem receivedFields_eq_map (fields : List (Label × Value)) :
    receivedFields fields = fields.map fun f => (.numbered f.1.id, f.2.received) := by
  induction fields with
  | nil => rfl
  | cons f fields ih => rw [receivedFields, ih, List.map_cons]

theorem received_bytes {items : List Value} {bytes : Bytes} (hne : items ≠ [])
    (h : items.mapM byte? = some bytes) : (vec items).received = .blob bytes := by
  rw [received, List.isEmpty_eq_false_iff.mpr hne, if_neg Bool.false_ne_true, h]

theorem received_items {v : Value} {items : List Value} (h : (v :: items).mapM byte? = none) :
    (vec (v :: items)).received = .vec ((v :: items).map received) := by
  rw [received, List.isEmpty_cons, if_neg Bool.false_ne_true, h, receivedItems_eq_map]

/-! ## The type that a value shows -/

theorem Proper.ty_ordered {v : Value} (h : v.Proper) : v.ty.Ordered := by
  induction h with
  | number n =>
    rw [ty]
    split
    · exact .prim _
    · exact .prim _
  | nothing => exact .opt (.prim _)
  | opt _ ih => exact .opt ih
  | @vec items _ ih =>
    cases items with
    | nil => exact .vec (.prim _)
    | cons v items => exact .vec (ih v (.head _))
  | blob bytes => exact .vec (.prim _)
  | @record fields hasc _ ih =>
    rw [ty, fieldTys_eq_map]
    refine .record (hasc.of_ids ?_) fun f hf => ?_
    · rw [List.map_map]
      rfl
    · obtain ⟨g, hg, rfl⟩ := List.mem_map.mp hf
      exact ih g hg
  | variant label index _ ih =>
    exact .variant (List.pairwise_singleton _ _) (List.forall_mem_singleton.mpr ih)
  | service p => exact .service .nil nofun
  | func p method => exact .func [] nofun nofun
  | _ => exact .prim _

theorem ty_ne_var (v : Value) (name : String) : v.ty ≠ .var name := by
  cases v with
  | number n =>
    rw [ty]
    split
    · nofun
    · nofun
  | _ => nofun

theorem eq_byte_of_ty {v : Value} (h : v.ty = .nat8) : ∃ n, v = .int .nat8 n := by
  cases v with
  | int kind n =>
    cases h
    exact ⟨n, rfl⟩
  | number n =>
    rw [ty] at h
    split at h
    · cases h
    · cases h
  | _ => cases h

theorem ty_of_byte? {v : Value} {b : UInt8} (h : v.byte? = some b) : v.ty = .nat8 := by
  unfold byte? at h
  split at h
  · rfl
  · cases h

theorem mapM_byte?_eq_none {v : Value} (h : v.ty ≠ .nat8) (items : List Value) :
    (v :: items).mapM byte? = none := by
  have hfirst : v.byte? = none := Option.eq_none_iff_forall_ne_some.mpr fun _ hb =>
    h (ty_of_byte? hb)
  rw [List.mapM_cons, hfirst]
  rfl

end Value

theorem Ty.isByte_of_bare {t u : Ty} (h : t.bare = u.bare) (hu : u = .nat8) : t.isByte = true := by
  subst hu
  rw [Ty.eq_prim_of_bare h]
  rfl

namespace Wire

/-! ## Type tables without names -/

namespace Tabling

/-- A computation that always ends with a result. -/
def Succeeds {α : Type} (x : Tabling α) : Prop := ∀ T, ∃ r, x T = .ok r

namespace Succeeds

variable {α β : Type}

theorem pure (a : α) : Succeeds (Pure.pure a) := fun T => ⟨(a, T), rfl⟩

theorem bind {x : Tabling α} {next : α → Tabling β} (h : Succeeds x)
    (h' : ∀ a, Succeeds (next a)) : Succeeds (x >>= next) := by
  intro T
  obtain ⟨⟨a, T'⟩, ha⟩ := h T
  obtain ⟨r, hr⟩ := h' a T'
  exact ⟨r, Attempt.bind_ok_iff.mpr ⟨(a, T'), ha, hr⟩⟩

theorem placed (key : Key) {entry : Tabling Bytes} (h : Succeeds entry) :
    Succeeds (placed key entry) := by
  intro T
  cases hfind : T.find? key with
  | some place => exact ⟨_, placed_of_some entry hfind⟩
  | none =>
    obtain ⟨⟨bytes, T'⟩, hentry⟩ := h (T.reserve key)
    rw [placed_of_none entry hfind]
    exact ⟨_, Attempt.bind_ok_iff.mpr ⟨(bytes, T'), hentry, rfl⟩⟩

theorem mapM {f : α → Tabling β} {items : List α} (h : ∀ a ∈ items, Succeeds (f a)) :
    Succeeds (items.mapM f) := by
  induction items with
  | nil => exact pure []
  | cons a items ih =>
    rw [List.mapM_cons]
    exact (h a (.head _)).bind fun b => (ih fun a ha => h a (.tail _ ha)).bind fun bs => pure _

end Succeeds

end Tabling

mutual

/-- The type that a value shows has no names, so that nothing keeps it out of a table. -/
theorem refWith_succeeds (named : String → Tabling Int) (v : Value) :
    Tabling.Succeeds (refWith named v.ty (entry named v.ty)) := by
  cases v with
  | number n =>
    rw [Value.ty]
    split
    · exact .pure _
    · exact .pure _
  | nothing => exact .placed _ ((Tabling.Succeeds.pure _).bind fun _ => .pure _)
  | opt v => exact .placed _ ((refWith_succeeds named v).bind fun _ => .pure _)
  | vec items =>
    cases items with
    | nil => exact .placed _ ((Tabling.Succeeds.pure _).bind fun _ => .pure _)
    | cons v items => exact .placed _ ((refWith_succeeds named v).bind fun _ => .pure _)
  | blob bytes => exact .placed _ ((Tabling.Succeeds.pure _).bind fun _ => .pure _)
  | record fields => exact .placed _ ((fieldEntries_succeed named fields).bind fun _ => .pure _)
  | variant label v index =>
    have hcase : Tabling.Succeeds (fieldEntries named [(label, v.ty)]) :=
      (refWith_succeeds named v).bind fun _ => (Tabling.Succeeds.pure _).bind fun _ => .pure _
    exact .placed _ (hcase.bind fun _ => .pure _)
  | service p => exact .placed _ ((Tabling.Succeeds.pure _).bind fun _ => .pure _)
  | func p method =>
    exact .placed _ ((Tabling.Succeeds.pure _).bind fun _ =>
      (Tabling.Succeeds.pure _).bind fun _ => .pure _)
  | _ => exact .pure _

theorem fieldEntries_succeed (named : String → Tabling Int) (fields : List (Label × Value)) :
    Tabling.Succeeds (fieldEntries named (Value.fieldTys fields)) := by
  cases fields with
  | nil => exact .pure _
  | cons f fields =>
    obtain ⟨l, v⟩ := f
    exact (refWith_succeeds named v).bind fun _ =>
      (fieldEntries_succeed named fields).bind fun _ => .pure _

end

theorem exists_refs (vs : List Value) : ∃ r, refs [] (vs.map (·.ty)) = .ok r := by
  have hrefs : Tabling.Succeeds ((vs.map (·.ty)).mapM (ref [])) := by
    refine .mapM fun t ht => ?_
    obtain ⟨v, -, rfl⟩ := List.mem_map.mp ht
    exact refWith_succeeds _ v
  exact hrefs {}

/-! ## Values at the types that they show -/

variable {wire : Scope} {t u : Ty}

/-- At every type that agrees with its own but for the names of labels, a value is written as
something that reads as what it is received as. -/
def Arrives (wire : Scope) (v : Value) : Prop :=
  ∀ t u, t.bare = v.ty.bare → Agree [] wire t u →
    ∃ bytes, valueBytes [] v t = .ok bytes ∧ Carries wire u bytes v.received

theorem head_of_agree {v : Value} (hbare : t.bare = v.ty.bare) (h : Agree [] wire t u) :
    Scope.resolve [] t = .ok t ∧ ∃ u', wire.resolve u = .ok u' ∧ Head (Agree [] wire) t u' := by
  have ht (name : String) : t ≠ .var name := by
    rintro rfl
    exact v.ty_ne_var name (Ty.eq_var_of_bare hbare.symm)
  obtain ⟨t', u', ht', hu, hhead⟩ := h.head
  rw [Scope.resolve_of_ne_var ht] at ht'
  cases ht'
  exact ⟨Scope.resolve_of_ne_var ht, u', hu, hhead⟩

theorem prim_arrives {v : Value} {p : Prim} {bytes : Bytes} (hty : v.ty = .prim p)
    (hwrite : ∀ t, valueBytes [] v t = do leafBytes v (← Scope.resolve [] t))
    (hbytes : primBytes v p = .ok bytes) (hreceived : v.received = normalLeaf v (.prim p)) :
    Arrives wire v := by
  intro t u hbare hagree
  obtain ⟨ht, u', hu, hhead⟩ := head_of_agree hbare hagree
  rw [hty] at hbare
  obtain rfl := Ty.eq_prim_of_bare hbare
  have hleaf : leafBytes v (.prim p) = .ok bytes := hbytes
  refine ⟨bytes, ?_, ?_⟩
  · rw [hwrite, ht]
    exact hleaf
  · rw [hreceived]
    exact carries_leaf hleaf hhead hu

theorem exists_integerBytes {kind : IntKind} {n : Int} (h : kind.holds n) :
    ∃ bytes, integerBytes kind n = .ok bytes := by
  rw [integerBytes, if_pos h]
  split
  · exact ⟨_, rfl⟩
  · exact ⟨_, rfl⟩

theorem number_arrives (n : Int) : Arrives wire (.number n) := by
  by_cases hneg : n < 0
  · have hholds : IntKind.int.holds n := rfl
    obtain ⟨bytes, hbytes⟩ := exists_integerBytes hholds
    refine prim_arrives (p := .int .int) ?_ (fun _ => rfl) hbytes ?_
    · rw [Value.ty, if_pos hneg]
    · rw [Value.received, if_pos hneg]
      rfl
  · have hholds : IntKind.nat.holds n := by
      simp only [IntKind.holds, IntKind.least?, IntKind.greatest?, Option.all_some, Option.all_none,
        Bool.and_true, decide_eq_true_eq]
      omega
    obtain ⟨bytes, hbytes⟩ := exists_integerBytes hholds
    refine prim_arrives (p := .int .nat) ?_ (fun _ => rfl) hbytes ?_
    · rw [Value.ty, if_neg hneg]
    · rw [Value.received, if_neg hneg]
      rfl

theorem nothing_arrives : Arrives wire .nothing := by
  intro t u hbare hagree
  obtain ⟨ht, u', hu, hhead⟩ := head_of_agree hbare hagree
  cases t with
  | opt item =>
    cases hhead
    simp only [valueBytes, ht]
    exact ⟨[0], rfl, .nothing hu⟩
  | _ => cases hbare

theorem service_arrives (p : Principal) : Arrives wire (.service p) := by
  intro t u hbare hagree
  obtain ⟨ht, u', hu, hhead⟩ := head_of_agree hbare hagree
  cases t with
  | service methods =>
    have hleaf : leafBytes (.service p) (.service methods) = .ok (principalBytes p) := rfl
    simp only [valueBytes, ht]
    exact ⟨_, hleaf, carries_leaf hleaf hhead hu⟩
  | _ => cases hbare

theorem func_arrives (p : Principal) (method : String) : Arrives wire (.func p method) := by
  intro t u hbare hagree
  obtain ⟨ht, u', hu, hhead⟩ := head_of_agree hbare hagree
  cases t with
  | func args results modes =>
    have hleaf : leafBytes (.func p method) (.func args results modes) =
      .ok (1 :: principalBytes p ++ textBytes method) := rfl
    simp only [valueBytes, ht]
    exact ⟨_, hleaf, carries_leaf hleaf hhead hu⟩
  | _ => cases hbare

theorem opt_arrives {v : Value} (ih : Arrives wire v) : Arrives wire (.opt v) := by
  intro t u hbare hagree
  obtain ⟨ht, u', hu, hhead⟩ := head_of_agree hbare hagree
  cases t with
  | opt a =>
    cases hhead with
    | opt hitem =>
      obtain ⟨bytes, hbytes, hcarries⟩ := ih _ _ (Ty.opt.inj hbare) hitem
      simp only [valueBytes, ht, Attempt.ok_bind, hbytes]
      exact ⟨1 :: bytes, rfl, .opt hu hcarries⟩
  | _ => cases hbare

/-! ## Vectors -/

theorem blob_arrives (bytes : Bytes) : Arrives wire (.blob bytes) := by
  intro t u hbare hagree
  obtain ⟨ht, u', hu, hhead⟩ := head_of_agree hbare hagree
  cases t with
  | vec a =>
    obtain rfl : a = .nat8 := Ty.eq_prim_of_bare (Ty.vec.inj hbare)
    cases hhead with
    | vec hitem =>
      obtain ⟨isByte, hscope, hwire, -⟩ := isByte_eq hitem
      have hnat8 : Scope.isByte [] .nat8 = .ok true :=
        Scope.isByte_of_resolve (Scope.resolve_prim _ _)
      obtain rfl : true = isByte := Except.ok.inj (hnat8.symm.trans hscope)
      refine ⟨leb bytes.length ++ bytes, ?_, .blob hu hwire bytes⟩
      simp only [valueBytes, ht, Attempt.ok_bind, hscope]
      rfl
  | _ => cases hbare

theorem items_arrive {vs : List Value} (ih : ∀ v ∈ vs, Arrives wire v)
    (hbare : ∀ v ∈ vs, t.bare = v.ty.bare) (hagree : Agree [] wire t u) :
    ∃ bytes, itemsBytes [] vs t = .ok bytes ∧
      CarriesAll wire (List.replicate vs.length u) bytes (vs.map Value.received) := by
  induction vs with
  | nil => exact ⟨[], rfl, .nil wire⟩
  | cons v vs ihs =>
    obtain ⟨front, hfront, hcarries⟩ := ih v (.head _) t u (hbare v (.head _)) hagree
    obtain ⟨back, hback, hcarriesAll⟩ := ihs (fun w hw => ih w (.tail _ hw))
      (fun w hw => hbare w (.tail _ hw))
    refine ⟨front ++ back, ?_, .cons hcarries hcarriesAll⟩
    rw [itemsBytes]
    simp only [hfront, hback, Attempt.ok_bind]
    rfl

theorem bytes_arrive {vs : List Value} (hproper : ∀ v ∈ vs, v.Proper)
    (hbyte : ∀ v ∈ vs, v.ty = .nat8) :
    ∃ bytes, itemsBytes [] vs .nat8 = .ok bytes ∧ vs.mapM Value.byte? = some bytes ∧
      bytes.length = vs.length := by
  induction vs with
  | nil => exact ⟨[], rfl, rfl, rfl⟩
  | cons v vs ih =>
    obtain ⟨back, hback, hall, hlen⟩ := ih (fun w hw => hproper w (.tail _ hw))
      (fun w hw => hbyte w (.tail _ hw))
    obtain ⟨n, rfl⟩ := Value.eq_byte_of_ty (hbyte v (.head _))
    cases hproper _ (.head _) with
    | int hn =>
      obtain ⟨front, hfront⟩ := exists_integerBytes hn
      obtain rfl := integerBytes_nat8 hfront
      have hwrite : valueBytes [] (.int .nat8 n) .nat8 = .ok [UInt8.ofNat n.toNat] := by
        simp only [valueBytes, Scope.resolve_prim]
        exact hfront
      refine ⟨UInt8.ofNat n.toNat :: back, ?_, ?_, congrArg (· + 1) hlen⟩
      · rw [itemsBytes]
        simp only [hwrite, hback, Attempt.ok_bind]
        rfl
      · rw [List.mapM_cons, hall]
        rfl

theorem vec_arrives {items : List Value} (hproper : ∀ v ∈ items, v.Proper)
    (hty : ∀ v ∈ items, ∀ w ∈ items, v.ty.same w.ty = true)
    (ih : ∀ v ∈ items, Arrives wire v) : Arrives wire (.vec items) := by
  intro t u hbare hagree
  obtain ⟨ht, u', hu, hhead⟩ := head_of_agree hbare hagree
  cases t with
  | vec a =>
    have hitemTy : a.bare = (Value.itemTy (Value.tys items)).bare := Ty.vec.inj hbare
    cases hhead with
    | vec hitem =>
      obtain ⟨isByte, hscope, hwire, -⟩ := isByte_eq hitem
      simp only [valueBytes, ht, Attempt.ok_bind]
      cases items with
      | nil =>
        obtain rfl : a = .empty := Ty.eq_prim_of_bare hitemTy
        have hno : isByte = false := by
          rw [Scope.isByte_of_resolve (Scope.resolve_prim _ _)] at hscope
          exact (Except.ok.inj hscope).symm
        subst hno
        have hcarries : Carries wire u (leb 0 ++ []) (.vec []) :=
          .vec (n := 0) hu hwire (.nil wire)
        exact ⟨leb 0 ++ [], rfl, hcarries⟩
      | cons v rest =>
        -- the first item stands for all of them
        have hall : ∀ w ∈ v :: rest, a.bare = w.ty.bare := fun w hw =>
          hitemTy.trans ((Ty.same_iff _ _).mp (hty v (.head _) w hw))
        obtain ⟨ha, -⟩ := head_of_agree (hall v (.head _)) hitem
        cases isByte with
        | true =>
          obtain rfl : a = .nat8 := Except.ok.inj (ha.symm.trans (resolve_of_isByte hscope))
          obtain ⟨bytes, hbytes, hmap, hlen⟩ := bytes_arrive hproper fun w hw =>
            Ty.eq_prim_of_bare (hall w hw).symm
          refine ⟨leb (v :: rest).length ++ bytes, by rw [hbytes]; rfl, ?_⟩
          rw [Value.received_bytes (List.cons_ne_nil _ _) hmap, ← hlen]
          exact .blob hu hwire bytes
        | false =>
          obtain ⟨bytes, hbytes, hcarries⟩ := items_arrive ih hall hitem
          have hother : v.ty ≠ .nat8 := by
            intro hv
            rw [Scope.isByte_of_resolve ha, Ty.isByte_of_bare (hall v (.head _)) hv] at hscope
            cases hscope
          refine ⟨leb (v :: rest).length ++ bytes, by rw [hbytes]; rfl, ?_⟩
          rw [Value.received_items (Value.mapM_byte?_eq_none hother rest)]
          exact .vec hu hwire hcarries
  | _ => cases hbare

/-! ## Records and variants -/

theorem fields_of_bare {fs : List (Label × Ty)} {fields : List (Label × Value)}
    (h : Ty.bareFields fs = Ty.bareFields (Value.fieldTys fields)) :
    Forall₂ (fun f g => g.1.id = f.1.id ∧ f.2.bare = g.2.ty.bare) fs fields := by
  rw [Value.fieldTys_eq_map, Ty.bareFields_eq_map, Ty.bareFields_eq_map, List.map_map] at h
  rw [← List.forall₂_eq_eq_eq, List.forall₂_map_left_iff, List.forall₂_map_right_iff] at h
  refine h.imp fun f g hfg => ?_
  obtain ⟨hlabel, hty⟩ := Prod.mk.inj hfg
  exact ⟨(Label.numbered.inj hlabel).symm, hty⟩

theorem labels_of_forall₂ {R : Ty → Ty → Prop} {fs gs : List (Label × Ty)}
    (h : Forall₂ (fun f g => g.1 = .numbered f.1.id ∧ R f.2 g.2) fs gs) :
    gs.map (·.1) = (fs.map (·.1.id)).map .numbered := by
  rw [List.map_map, ← List.forall₂_eq_eq_eq, List.forall₂_map_left_iff, List.forall₂_map_right_iff]
  exact h.flip.imp fun _ _ hfg => hfg.1

theorem fields_arrive {all fields : List (Label × Value)} (hasc : Ascending all)
    (hsub : ∀ g ∈ fields, g ∈ all) (ih : ∀ g ∈ all, Arrives wire g.2) {fs gs : List (Label × Ty)}
    (hfs : Forall₂ (fun f g => g.1.id = f.1.id ∧ f.2.bare = g.2.ty.bare) fs fields)
    (hgs : Forall₂ (fun f g => g.1 = .numbered f.1.id ∧ Agree [] wire f.2 g.2) fs gs) :
    ∃ parts, Forall₂ (fun f part => (match lookup? f.1 (fieldWriters [] all) with
        | some write => write f.2
        | none => absentBytes [] f.1 f.2) = .ok part) fs parts ∧
      CarriesAll wire (gs.map (·.2)) parts.flatten (fields.map (·.2.received)) := by
  induction hfs generalizing gs with
  | nil =>
    cases hgs
    exact ⟨[], .nil, .nil wire⟩
  | @cons f field fs fields hfield _ ihs =>
    cases hgs with
    | cons hg hgs =>
      obtain ⟨hfirst, hrest⟩ := List.forall_mem_cons.mp hsub
      obtain ⟨part, hpart, hcarries⟩ := ih field hfirst _ _ hfield.2 hg.2
      obtain ⟨parts, hparts, hcarriesAll⟩ := ihs hrest hgs
      refine ⟨part :: parts, .cons ?_ hparts, .cons hcarries hcarriesAll⟩
      rw [fieldWriters_eq_map, lookup?_map, lookup?_of_mem hasc hfirst hfield.1]
      exact hpart

theorem all_expected {scope : Scope} {fs : List (Label × Ty)} {fields : List (Label × Value)}
    (hids : fs.map (·.1.id) = fields.map (·.1.id)) :
    (fieldWriters scope fields).find? (fun f => !fs.any fun e => e.1.same f.1) = none := by
  rw [fieldWriters_eq_map, List.find?_eq_none]
  intro w hw
  obtain ⟨g, hg, rfl⟩ := List.mem_map.mp hw
  have hid : g.1.id ∈ fs.map (·.1.id) := by
    rw [hids]
    exact List.mem_map_of_mem hg
  obtain ⟨f, hf, hfg⟩ := List.mem_map.mp hid
  have hany : (fs.any fun e => e.1.same g.1) = true :=
    List.any_eq_true.mpr ⟨f, hf, decide_eq_true hfg⟩
  rw [hany]
  exact Bool.false_ne_true

theorem record_arrives {fields : List (Label × Value)} (hasc : Ascending fields)
    (ih : ∀ f ∈ fields, Arrives wire f.2) : Arrives wire (.record fields) := by
  intro t u hbare hagree
  obtain ⟨ht, u', hu, hhead⟩ := head_of_agree hbare hagree
  cases t with
  | record fs =>
    have hfs := fields_of_bare (Ty.record.inj hbare)
    cases hhead with
    | @record _ gs hfsAsc hgs =>
      obtain ⟨parts, hparts, hcarries⟩ := fields_arrive hasc (fun _ => id) ih hfs hgs
      have hids := map_id_of_forall₂ (hfs.imp fun _ _ h => h.1)
      have hlabels : gs.map (·.1) = fields.map fun g => .numbered g.1.id := by
        rw [labels_of_forall₂ hgs, hids, List.map_map]
        rfl
      refine ⟨parts.flatten, ?_, ?_⟩
      · simp only [valueBytes, ht, Attempt.ok_bind, recordBytes, all_expected hids]
        exact Attempt.bind_ok_iff.mpr ⟨parts, Attempt.mapM_ok_iff.mpr hparts, rfl⟩
      · have hrecord := Carries.record hu (hfsAsc.of_ids (ids_of_forall₂ hgs)) hcarries
        rwa [hlabels, List.zip_map', ← Value.receivedFields_eq_map] at hrecord
  | _ => cases hbare

theorem variant_arrives {label : Label} {v : Value} (index : Nat) (ih : Arrives wire v) :
    Arrives wire (.variant label v index) := by
  intro t u hbare hagree
  obtain ⟨ht, u', hu, hhead⟩ := head_of_agree hbare hagree
  cases t with
  | variant fs =>
    -- the only case of the type is that of the value
    have hfs : Forall₂ (fun f g => g.1.id = f.1.id ∧ f.2.bare = g.2.ty.bare) fs [(label, v)] :=
      fields_of_bare (Ty.variant.inj hbare)
    cases hfs with
    | @cons c _ _ _ hc hnone =>
      cases hnone
      cases hhead with
      | variant _ hgs =>
        cases hgs with
        | @cons _ g _ _ hg hnone =>
          cases hnone
          obtain ⟨bytes, hbytes, hcarries⟩ := ih _ _ hc.2 hg.2
          have hcase : caseOf? label [c] = some (0, c.2) := by
            have hsame : c.1.same label = true := decide_eq_true hc.1.symm
            simp [caseOf?, List.findIdx?_cons, hsame]
          have hlabel : g.1 = .numbered label.id := by
            rw [hg.1, hc.1]
          refine ⟨leb 0 ++ bytes, ?_, ?_⟩
          · simp only [valueBytes, ht, Attempt.ok_bind, hcase, hbytes]
            rfl
          · rw [Value.received, ← hlabel]
            exact .variant hu rfl hcarries
  | _ => cases hbare

/-! ## Whole messages -/

mutual

theorem value_arrives (v : Value) (hproper : v.Proper) (huniform : v.Uniform) : Arrives wire v := by
  cases v with
  | null => exact prim_arrives rfl (fun _ => rfl) rfl rfl
  | reserved => exact prim_arrives rfl (fun _ => rfl) rfl rfl
  | nothing => exact nothing_arrives
  | bool b => exact prim_arrives rfl (fun _ => rfl) rfl rfl
  | text s => exact prim_arrives rfl (fun _ => rfl) rfl rfl
  | number n => exact number_arrives n
  | int kind n =>
    cases hproper with
    | int hn =>
      obtain ⟨bytes, hbytes⟩ := exists_integerBytes hn
      exact prim_arrives rfl (fun _ => rfl) hbytes rfl
  | float kind x => cases huniform
  | opt v =>
    cases hproper with
    | opt hv =>
      cases huniform with
      | opt hv' => exact opt_arrives (value_arrives v hv hv')
  | vec items =>
    cases hproper with
    | vec hitems =>
      cases huniform with
      | vec hitems' hty => exact vec_arrives hitems hty (values_arrive items hitems hitems')
  | blob bytes => exact blob_arrives bytes
  | record fields =>
    cases hproper with
    | record hasc hfields =>
      cases huniform with
      | record hfields' => exact record_arrives hasc (fields_all_arrive fields hfields hfields')
  | variant label v index =>
    cases hproper with
    | variant _ _ hv =>
      cases huniform with
      | variant _ _ hv' => exact variant_arrives index (value_arrives v hv hv')
  | principal p => exact prim_arrives rfl (fun _ => rfl) rfl rfl
  | service p => exact service_arrives p
  | func p method => exact func_arrives p method

theorem values_arrive (vs : List Value) (hproper : ∀ v ∈ vs, v.Proper)
    (huniform : ∀ v ∈ vs, v.Uniform) : ∀ v ∈ vs, Arrives wire v := by
  cases vs with
  | nil => nofun
  | cons v vs =>
    obtain ⟨hv, hvs⟩ := List.forall_mem_cons.mp hproper
    obtain ⟨hv', hvs'⟩ := List.forall_mem_cons.mp huniform
    exact List.forall_mem_cons.mpr ⟨value_arrives v hv hv', values_arrive vs hvs hvs'⟩

theorem fields_all_arrive (fields : List (Label × Value)) (hproper : ∀ f ∈ fields, f.2.Proper)
    (huniform : ∀ f ∈ fields, f.2.Uniform) : ∀ f ∈ fields, Arrives wire f.2 := by
  cases fields with
  | nil => nofun
  | cons f fields =>
    obtain ⟨label, v⟩ := f
    obtain ⟨hv, hfields⟩ := List.forall_mem_cons.mp hproper
    obtain ⟨hv', hfields'⟩ := List.forall_mem_cons.mp huniform
    exact List.forall_mem_cons.mpr
      ⟨value_arrives v hv hv', fields_all_arrive fields hfields hfields'⟩

end

theorem args_arrive {vs : List Value} (h : ∀ v ∈ vs, Arrives wire v) {us : List Ty}
    (hagree : Forall₂ (Agree [] wire) (vs.map (·.ty)) us) :
    ∃ parts, (vs.zip (vs.map (·.ty))).mapM (fun (v, t) => valueBytes [] v t) = .ok parts ∧
      CarriesAll wire us parts.flatten (vs.map Value.received) := by
  induction vs generalizing us with
  | nil =>
    cases hagree
    exact ⟨[], rfl, .nil wire⟩
  | cons v vs ih =>
    obtain ⟨hv, hvs⟩ := List.forall_mem_cons.mp h
    cases hagree with
    | cons hfirst hrest =>
      obtain ⟨part, hpart, hcarries⟩ := hv _ _ rfl hfirst
      obtain ⟨parts, hparts, hcarriesAll⟩ := ih hvs hrest
      refine ⟨part :: parts, ?_, .cons hcarries hcarriesAll⟩
      rw [List.map_cons, List.zip_cons_cons, List.mapM_cons]
      simp only [hpart, hparts, Attempt.ok_bind]
      rfl

end Wire

open Wire

/-- Uniform values can be encoded at the types that they show, and what a reader without
expectations gets differs from them only in what a message cannot say. -/
theorem decodeArgs_encodeArgs {vs : List Value} (hproper : ∀ v ∈ vs, v.Proper)
    (huniform : ∀ v ∈ vs, v.Uniform) :
    ∃ bytes, encodeArgs vs = .ok bytes ∧ decodeArgs bytes = .ok (vs.map Value.received) := by
  obtain ⟨⟨rs, table⟩, hrefs⟩ := exists_refs vs
  have hordered : ∀ t ∈ vs.map (·.ty), t.Ordered := by
    intro t ht
    obtain ⟨v, hv, rfl⟩ := List.mem_map.mp ht
    exact (hproper v hv).ty_ordered
  have hscope : Scope.Ordered [] := List.forall_mem_nil _
  obtain ⟨wire, us, hheader, hagree⟩ := readHeader_takes hscope hordered hrefs
  obtain ⟨parts, hparts, hcarries⟩ := args_arrive (values_arrive vs hproper huniform) hagree
  refine ⟨magic ++ ((table.bytes ++ (leb rs.length ++ rs.flatMap sleb)) ++ parts.flatten), ?_, ?_⟩
  · rw [encodeArgs, encodeAs, if_neg (not_not.mpr (List.length_map _)), hrefs]
    simp only [Attempt.ok_bind, hparts, List.append_assoc]
    rfl
  · exact decodeArgs_of_carriesAll hheader hcarries

/-- A negative number, bytes in a row and the fourth case of some variant. -/
def mixedRecord : Value :=
  .record [(.named "a", .number (-1)), (.named "b", .vec [.int .nat8 7]),
    (.named "c", .variant (.named "d") .null 3)]

/-- They arrive as an integer, a blob and the only case of its variant, under the numbers of their
labels. -/
theorem mixedRecord_describes_itself :
    ∃ bytes, encodeArgs [mixedRecord] = .ok bytes ∧
      decodeArgs bytes = .ok [.record [(.numbered 97, .int .int (-1)), (.numbered 98, .blob [7]),
        (.numbered 99, .variant (.numbered 100) .null 0)]] := by
  have hproper : mixedRecord.Proper := by
    refine .record (by decide) (List.forall_mem_cons.mpr ⟨.number _, List.forall_mem_cons.mpr ⟨?_,
      List.forall_mem_singleton.mpr (.variant _ _ .null)⟩⟩)
    exact .vec (List.forall_mem_singleton.mpr (.int (by decide)))
  have huniform : mixedRecord.Uniform := by
    refine .record (List.forall_mem_cons.mpr ⟨.number _, List.forall_mem_cons.mpr ⟨?_,
      List.forall_mem_singleton.mpr (.variant _ _ .null)⟩⟩)
    refine .vec (List.forall_mem_singleton.mpr (.int _ _)) ?_
    exact List.forall_mem_singleton.mpr (List.forall_mem_singleton.mpr ((Ty.same_iff _ _).mpr rfl))
  exact decodeArgs_encodeArgs (List.forall_mem_singleton.mpr hproper)
    (List.forall_mem_singleton.mpr huniform)

end CanisterShell.Candid
