import CanisterShell.Candid.Build
import CanisterShell.Candid.Cast
import CanisterShell.Candid.Wire.Align
import CanisterShell.Proofs.Bytes
import CanisterShell.Proofs.Candid.Ordered
import CanisterShell.Proofs.Candid.Reader

/-!
# Proper values

A value is proper if it is as the checking constructors build it: integers lie within the range of
their type and the labels of records ascend, at every depth.  Whatever makes values makes proper
ones: casts of any value (`cast_proper`), messages of any bytes (`decodeArgs_proper`), and their
values at the types that a reader expects (`decodeAs_proper`).
-/

namespace CanisterShell.Candid

namespace Value

/-- A value as the checking constructors build it: integers lie within the range of their type, and
the labels of records ascend. -/
inductive Proper : Value → Prop where
  | null : Proper .null
  | reserved : Proper .reserved
  | nothing : Proper .nothing
  | bool (b : Bool) : Proper (.bool b)
  | text (s : String) : Proper (.text s)
  | number (n : Int) : Proper (.number n)
  | int {kind : IntKind} {n : Int} (h : kind.holds n) : Proper (.int kind n)
  | float (kind : FloatKind) (x : Double) : Proper (.float kind x)
  | opt {v : Value} (h : Proper v) : Proper (.opt v)
  | vec {items : List Value} (h : ∀ v ∈ items, Proper v) : Proper (.vec items)
  | blob (bytes : Bytes) : Proper (.blob bytes)
  | record {fields : List (Label × Value)} (hasc : Ascending fields)
      (h : ∀ f ∈ fields, Proper f.2) : Proper (.record fields)
  | variant (label : Label) {v : Value} (index : Nat) (h : Proper v) :
      Proper (.variant label v index)
  | principal (p : Principal) : Proper (.principal p)
  | service (p : Principal) : Proper (.service p)
  | func (p : Principal) (method : String) : Proper (.func p method)

/-! ## Constructors -/

theorem mkInt_proper (kind : IntKind) (n : Int) : Attempt.Gives (mkInt kind n) Proper := by
  rw [mkInt]
  split
  case isTrue hn => exact .ok (.int hn)
  case isFalse => exact .error _

theorem mkFloat_proper (kind : FloatKind) (x : Double) : Attempt.Gives (mkFloat kind x) Proper := by
  cases kind with
  | float64 => exact .ok (.float _ _)
  | float32 =>
    rw [mkFloat]
    split
    · exact .ok (.float _ _)
    · exact .error _

theorem mkRecord_proper {fields : List (Label × Value)} (h : ∀ f ∈ fields, f.2.Proper) :
    Attempt.Gives (mkRecord fields) Proper := by
  rw [mkRecord]
  split
  case h_1 => exact .error _
  case h_2 hnone =>
    exact .ok (.record (.of_sortFields hnone) fun f hf => h f ((perm_sortBy _ fields).mem_iff.mp hf))

theorem nat_proper (n : Nat) : (Value.int .nat n).Proper := by
  refine .int ?_
  simp only [IntKind.holds, IntKind.least?, IntKind.greatest?, Option.all_some, Option.all_none,
    Bool.and_true, decide_eq_true_eq]
  omega

theorem ofByte_proper (b : UInt8) : (ofByte b).Proper := by
  have hb : b.toNat < 256 := b.toNat_lt
  refine .int ?_
  simp only [IntKind.holds, IntKind.least?, IntKind.greatest?, Option.all_some, Bool.and_eq_true,
    decide_eq_true_eq]
  omega

theorem le_id_of_mem_labelFrom {i : Nat} {items : List Value} {f : Label × Value}
    (h : f ∈ labelFrom i items) : i ≤ f.1.id ∧ f.2 ∈ items := by
  induction items generalizing i with
  | nil => cases h
  | cons v items ih =>
    obtain rfl | h := List.mem_cons.mp h
    · exact ⟨Nat.le_refl i, .head _⟩
    · obtain ⟨hle, hmem⟩ := ih h
      exact ⟨Nat.le_of_succ_le hle, .tail _ hmem⟩

theorem ascending_labelFrom (i : Nat) (items : List Value) : Ascending (labelFrom i items) := by
  induction items generalizing i with
  | nil => exact .nil
  | cons v items ih =>
    exact List.pairwise_cons.mpr ⟨fun f hf => (le_id_of_mem_labelFrom hf).1, ih _⟩

theorem tuple_proper {items : List Value} (h : ∀ v ∈ items, v.Proper) : (tuple items).Proper :=
  .record (ascending_labelFrom 0 items) fun f hf => h f.2 (le_id_of_mem_labelFrom hf).2

theorem ofResults_proper {results : List Value} (h : ∀ v ∈ results, v.Proper) :
    (ofResults results).Proper := by
  unfold ofResults
  split
  · exact .null
  · exact h _ (.head _)
  · exact tuple_proper h

theorem lookup?_proper {fields : List (Label × Value)} {label : Label} {v : Value}
    (h : ∀ f ∈ fields, f.2.Proper) (hv : lookup? label fields = some v) : v.Proper := by
  obtain ⟨f, hf, rfl⟩ := Option.map_eq_some_iff.mp hv
  exact h f (List.mem_of_find?_eq_some hf)

/-! ## Numbering -/

theorem map_fst_freshFields (n : Nat) (fields : List (Label × Value)) :
    (freshFields n fields).1.map (·.1.id) = fields.map (·.1.id) := by
  induction fields generalizing n with
  | nil => rfl
  | cons f fields ih => exact congrArg (f.1.id :: ·) (ih _)

theorem freshItems_proper {items : List Value} (h : ∀ v ∈ items, ∀ n, (fresh n v).1.Proper)
    (n : Nat) : ∀ v ∈ (freshItems n items).1, v.Proper := by
  induction items generalizing n with
  | nil => exact nofun
  | cons v items ih =>
    exact List.forall_mem_cons.mpr ⟨h v (.head _) n, ih (fun v hv => h v (.tail _ hv)) _⟩

theorem freshFields_proper {fields : List (Label × Value)}
    (h : ∀ f ∈ fields, ∀ n, (fresh n f.2).1.Proper) (n : Nat) :
    ∀ f ∈ (freshFields n fields).1, f.2.Proper := by
  induction fields generalizing n with
  | nil => exact nofun
  | cons f fields ih =>
    exact List.forall_mem_cons.mpr ⟨h f (.head _) n, ih (fun f hf => h f (.tail _ hf)) _⟩

theorem Proper.fresh {v : Value} (h : v.Proper) (n : Nat) : (v.fresh n).1.Proper := by
  induction h generalizing n with
  | opt _ ih => exact .opt (ih n)
  | vec _ ih => exact .vec (freshItems_proper ih n)
  | record hasc _ ih =>
    exact .record (hasc.of_ids (map_fst_freshFields n _).symm) (freshFields_proper ih n)
  | variant label index _ ih => exact .variant label index (ih n)
  | float kind x => exact .float kind _
  | int h => exact .int h
  | _ => constructor

/-! ## Casts -/

theorem castToInt_proper (kind : IntKind) (v : Value) : Attempt.Gives (castToInt kind v) Proper := by
  unfold castToInt
  split
  · split
    · exact .error _
    · exact mkInt_proper kind _
  · exact mkInt_proper kind _

theorem castNumber_proper (v : Value) (t : Ty) : Attempt.Gives (castNumber v t) Proper := by
  unfold castNumber
  split
  · exact castToInt_proper _ v
  · exact .bind_right fun x => mkFloat_proper _ x
  · exact .ok .reserved
  · exact .error _
  · exact .error _
  · exact .error _

theorem castId_proper {v : Value} (h : v.Proper) (p : Principal) (t : Ty) :
    Attempt.Gives (castId v p t) Proper := by
  unfold castId
  split
  · exact .ok (.principal p)
  · exact .ok (.service p)
  · exact .ok h
  · exact .ok .reserved
  · exact .error _
  · exact .error _
  · exact .error _

theorem castToText_proper (v : Value) (t : Ty) : Attempt.Gives (castToText v t) Proper := by
  unfold castToText
  split
  · exact .error _
  · split
    · exact .ok (.text _)
    · exact .error _

theorem castOther_proper (v : Value) (t : Ty) : Attempt.Gives (castOther v t) Proper := by
  unfold castOther
  split
  · exact .ok .reserved
  · exact .ok (.bool _)
  · exact .ok (.text _)
  · exact .ok .null
  · exact .error _
  · exact .error _
  · exact .error _

mutual

/-- A cast makes a proper value, whatever it is made from. -/
theorem cast_proper (scope : Scope) (v : Value) (t : Ty) :
    Attempt.Gives (v.cast scope t) Proper := by
  rw [cast]
  refine .bind_right fun t => ?_
  cases v with
  | null | reserved | nothing =>
    dsimp only
    split
    · exact .ok .nothing
    · exact castOther_proper _ _
  | opt inner =>
    dsimp only
    split
    · exact (cast_proper scope inner _).bind fun v hv => .ok (.opt hv)
    · exact castOther_proper _ _
  | text s =>
    dsimp only
    split
    · refine .bind_right fun b => ?_
      split
      · exact .ok (.blob _)
      · exact castOther_proper _ _
    · exact castOther_proper _ _
  | blob bytes =>
    dsimp only
    split
    · exact castToText_proper _ _
    · refine .bind_right fun b => ?_
      split
      · exact .ok (.blob bytes)
      · refine Attempt.Gives.bind (.mapM fun b _ => ?_) fun vs hvs => .ok (.vec hvs)
        exact .bind_right fun u => castNumber_proper (ofByte b) u
    · exact castOther_proper _ _
  | vec items =>
    dsimp only
    split
    · exact castToText_proper _ _
    · refine (castAll_proper scope items _).bind fun vs hvs => .bind_right fun b => ?_
      split
      · exact .ok (.blob _)
      · exact .ok (.vec hvs)
    · exact castOther_proper _ _
  | principal p => exact castId_proper (.principal p) p t
  | service p => exact castId_proper (.service p) p t
  | func p m => exact castId_proper (.func p m) p t
  | number | int | float => exact castNumber_proper _ t
  | bool | record | variant => exact castOther_proper _ t

theorem castAll_proper (scope : Scope) (vs : List Value) (t : Ty) :
    Attempt.Gives (castAll scope vs t) fun ws => ∀ w ∈ ws, w.Proper := by
  cases vs with
  | nil =>
    rw [castAll]
    exact .ok nofun
  | cons v rest =>
    rw [castAll]
    exact (cast_proper scope v t).bind fun w hw => (castAll_proper scope rest t).bind fun ws hws =>
      .ok (List.forall_mem_cons.mpr ⟨hw, hws⟩)

end

end Value

namespace Wire

open Value (Proper)

/-! ## Messages -/

theorem fixedInteger_holds {kind : IntKind} {bytes : Bytes}
    (h : kind.width? = some bytes.length) : kind.holds (fixedInteger kind bytes) := by
  have hlt := Bytes.toNatLE_lt bytes
  cases kind with
  | nat | int => cases h
  | _ =>
    rw [← Option.some.inj h] at hlt
    simp only [fixedInteger, ← Option.some.inj h, IntKind.holds, IntKind.least?, IntKind.greatest?,
      IntKind.isSigned, Option.all_some, Bool.and_eq_true, Bool.true_and, Bool.false_and,
      decide_eq_true_eq, Bool.false_eq_true, if_false]
    omega

theorem readInteger_proper (kind : IntKind) : Reader.Gives (readInteger kind) Proper := by
  unfold readInteger
  split
  case h_1 width hwidth =>
    refine (Reader.Gives.take width).bind fun bytes hlen => .pure (.int ?_)
    exact fixedInteger_holds (hlen ▸ hwidth)
  case h_2 hwidth =>
    cases kind with
    | nat => exact .bind_right fun n => .pure (Value.nat_proper n)
    | int => exact .bind_right fun n => .pure (.int rfl)
    | _ => cases hwidth

theorem readFloat_proper (kind : FloatKind) : Reader.Gives (readFloat kind) Proper := by
  cases kind with
  | float32 => exact .bind_right fun bytes => .pure (.float _ _)
  | float64 => exact .bind_right fun bytes => .pure (.float _ _)

theorem readPrim_proper (p : Prim) : Reader.Gives (readPrim p) Proper := by
  cases p with
  | null => exact .pure .null
  | reserved => exact .pure .reserved
  | empty => exact .throw _
  | bool =>
    refine .bind_right fun b => ?_
    split
    · exact .bind_right fun _ => .pure (.bool _)
    · exact .pure (.bool _)
  | int kind => exact readInteger_proper kind
  | float kind => exact readFloat_proper kind
  | text => exact .bind_right fun s => .pure (.text s)
  | principal => exact .bind_right fun p => .pure (.principal p)

theorem readValue_proper (scope : Scope) (depth : Nat) (t : Ty) :
    Reader.Gives (readValue scope depth t) Proper := by
  induction depth generalizing t with
  | zero => exact .throw _
  | succ depth ih =>
    rw [readValue]
    refine .bind_right fun u => ?_
    split
    case h_1 p => exact readPrim_proper p
    case h_2 item =>
      refine .bind_right fun b => ?_
      split
      · exact .pure .nothing
      · exact (ih item).bind fun v hv => .pure (.opt hv)
    case h_3 item =>
      refine .bind_right fun n => .bind_right fun b => ?_
      split
      · exact .bind_right fun bytes => .pure (.blob bytes)
      · exact ((ih item).times n).bind fun vs hvs => .pure (.vec hvs)
    case h_4 fields =>
      refine Reader.Gives.bind (Q := fun fs => ∀ f ∈ fs, f.2.Proper) (.mapM fun f _ => ?_)
        fun fs hfs => .lift (Value.mkRecord_proper hfs)
      exact (ih f.2).bind fun v hv => .pure hv
    case h_5 cases =>
      refine .bind_right fun i => ?_
      split
      · exact (ih _).bind fun v hv => .pure (.variant _ _ hv)
      · exact .throw _
    case h_6 =>
      refine .bind_right fun b => ?_
      have hrest : Reader.Gives (do return .func (← readPrincipal) (← Reader.text)) Proper :=
        .bind_right fun p => .bind_right fun m => .pure (.func p m)
      split
      · exact .bind_right fun _ => hrest
      · exact hrest
    case h_7 => exact .bind_right fun p => .pure (.service p)
    case h_8 => exact .throw _

theorem readValues_proper (scope : Scope) (depth : Nat) (types : List Ty) :
    Reader.Gives (readValues scope depth types) fun vs => ∀ v ∈ vs, v.Proper := by
  induction types with
  | nil => exact .pure nofun
  | cons t types ih =>
    exact (readValue_proper scope depth t).bind fun v hv => ih.bind fun vs hvs =>
      .pure (List.forall_mem_cons.mpr ⟨hv, hvs⟩)

theorem readMessage_proper (depth : Nat → Nat) :
    Reader.Gives (readMessage depth) fun vs => ∀ v ∈ vs, v.Proper := by
  have hrest : Reader.Gives (do
      let header ← readHeader
      readValues header.1 (depth header.1.length) header.2) fun vs => ∀ v ∈ vs, v.Proper :=
    .bind_right fun header => readValues_proper header.1 _ header.2
  refine .bind_right fun front => ?_
  split
  · exact .bind_right fun _ => hrest
  · exact hrest

end Wire

/-- Whatever the bytes, the values of a message are proper. -/
theorem decodeArgs_proper (bytes : Bytes) :
    Attempt.Gives (decodeArgs bytes) fun vs => ∀ v ∈ vs, v.Proper := by
  have hmessage : Attempt.Gives ((Wire.readMessage (Wire.depthBound bytes.length)).run bytes)
      fun r => ∀ v ∈ r.1, v.Proper := fun r hr => Wire.readMessage_proper _ bytes r.1 r.2 hr
  refine hmessage.bind fun r hr => ?_
  dsimp only
  split
  · exact .ok hr
  · exact .error _

/-! ## Values as expected -/

namespace Wire

open Value (Proper)

theorem alignLeaf_proper {v : Value} (h : v.Proper) (t : Ty) : (alignLeaf v t).Proper := by
  unfold alignLeaf
  split
  · exact .reserved
  · exact .nothing
  · exact .nothing
  · exact h

theorem absentValue?_proper {t : Ty} {v : Value} (h : absentValue? t = some v) : v.Proper := by
  unfold absentValue? at h
  split at h
  · cases h
    exact .nothing
  · cases h
    exact .null
  · cases h
    exact .reserved
  · cases h

theorem alignRecord_proper (scope : Scope) {fields : List (Label × Aligner)}
    (h : ∀ f ∈ fields, ∀ t, Attempt.Gives (f.2 t) Proper) (expected : List (Label × Ty)) :
    Attempt.Gives (alignRecord scope fields expected) Proper := by
  refine Attempt.Gives.bind (Q := fun aligned => ∀ f ∈ aligned, f.2.Proper)
    (.mapM fun f _ => ?_) fun aligned => Value.mkRecord_proper
  dsimp only
  split
  case h_1 align hlookup =>
    obtain ⟨g, hg, rfl⟩ := Option.map_eq_some_iff.mp hlookup
    exact (h g (List.mem_of_find?_eq_some hg) f.2).bind fun v hv => .ok hv
  case h_2 =>
    refine .bind_right fun u => ?_
    split
    · exact .ok (absentValue?_proper ‹_›)
    · exact .error _

mutual

theorem alignValue_proper (scope : Scope) (v : Value) (h : v.Proper) (t : Ty) :
    Attempt.Gives (alignValue scope v t) Proper := by
  cases v with
  | opt item =>
    cases h with
    | opt h =>
      rw [alignValue]
      refine .bind_right fun u => ?_
      split
      · exact (alignValue_proper scope item h _).bind fun v hv => .ok (.opt hv)
      · exact .ok (alignLeaf_proper (.opt h) _)
  | vec items =>
    cases h with
    | vec h =>
      rw [alignValue]
      refine .bind_right fun u => ?_
      split
      · exact (alignItems_proper scope items h _).bind fun vs hvs => .ok (.vec hvs)
      · exact .ok (alignLeaf_proper (.vec h) _)
  | record fields =>
    cases h with
    | record hasc h =>
      rw [alignValue]
      refine .bind_right fun u => ?_
      split
      · exact alignRecord_proper scope (fieldAligners_proper scope fields h) _
      · exact .ok (alignLeaf_proper (.record hasc h) _)
  | variant label item index =>
    cases h with
    | variant _ _ h =>
      rw [alignValue]
      refine .bind_right fun u => ?_
      split
      · split
        · exact .error _
        · split
          · exact (alignValue_proper scope item h _).bind fun v hv => .ok (.variant _ _ hv)
          · exact .error _
      · exact .ok (alignLeaf_proper (.variant label index h) _)
  | _ => exact .bind_right fun u => .ok (alignLeaf_proper h u)

theorem alignItems_proper (scope : Scope) (items : List Value) (h : ∀ v ∈ items, v.Proper) (t : Ty) :
    Attempt.Gives (alignItems scope items t) fun vs => ∀ v ∈ vs, v.Proper := by
  cases items with
  | nil => exact .ok nofun
  | cons v rest =>
    obtain ⟨hv, hrest⟩ := List.forall_mem_cons.mp h
    exact (alignValue_proper scope v hv t).bind fun w hw =>
      (alignItems_proper scope rest hrest t).bind fun ws hws =>
        .ok (List.forall_mem_cons.mpr ⟨hw, hws⟩)

theorem fieldAligners_proper (scope : Scope) (fields : List (Label × Value))
    (h : ∀ f ∈ fields, f.2.Proper) :
    ∀ f ∈ fieldAligners scope fields, ∀ t, Attempt.Gives (f.2 t) Proper := by
  cases fields with
  | nil => exact nofun
  | cons f rest =>
    obtain ⟨hf, hrest⟩ := List.forall_mem_cons.mp h
    exact List.forall_mem_cons.mpr
      ⟨alignValue_proper scope f.2 hf, fieldAligners_proper scope rest hrest⟩

end

theorem alignAll_proper (scope : Scope) (total got : Nat) {values : List Value}
    (h : ∀ v ∈ values, v.Proper) (types : List Ty) :
    Attempt.Gives (alignAll scope total got values types) fun vs => ∀ v ∈ vs, v.Proper := by
  have absent {v : Value} {types : List Ty} (hv : v.Proper)
      (ih : Attempt.Gives (alignAll scope total got [] types) fun vs => ∀ v ∈ vs, v.Proper) :
      Attempt.Gives (do return v :: (← alignAll scope total got [] types))
        fun vs => ∀ v ∈ vs, v.Proper :=
    ih.bind fun vs hvs => .ok (List.forall_mem_cons.mpr ⟨hv, hvs⟩)
  induction types generalizing values with
  | nil =>
    rw [alignAll]
    exact .ok nofun
  | cons t types ih =>
    cases values with
    | cons v values =>
      obtain ⟨hv, hvalues⟩ := List.forall_mem_cons.mp h
      rw [alignAll]
      exact (alignValue_proper scope v hv t).bind fun w hw => (ih hvalues).bind fun ws hws =>
        .ok (List.forall_mem_cons.mpr ⟨hw, hws⟩)
    | nil =>
      rw [alignAll]
      refine .bind_right fun u => ?_
      split
      · exact absent .nothing (ih h)
      · exact absent .null (ih h)
      · exact absent .null (ih h)
      · exact .error _

end Wire

/-- Whatever the bytes and the types, the values that a reader expects are proper. -/
theorem decodeAs_proper (scope : Scope) (bytes : Bytes) (types : List Ty) :
    Attempt.Gives (decodeAs scope bytes types) fun vs => ∀ v ∈ vs, v.Proper :=
  (decodeArgs_proper bytes).bind fun _ hvalues => Wire.alignAll_proper scope _ _ hvalues types

end CanisterShell.Candid
