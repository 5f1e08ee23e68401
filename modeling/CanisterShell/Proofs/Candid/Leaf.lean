import CanisterShell.Candid.Wire.Align
import CanisterShell.Proofs.Bytes
import CanisterShell.Proofs.Candid.Layout
import CanisterShell.Proofs.Candid.Likeness
import CanisterShell.Proofs.Candid.Ordered

/-!
# Values read from their bytes

`Carries wire u bytes v` says that at some depth of nesting the bytes, and nothing behind them, read
as a value of a type.  There is one lemma for each form of a type, which reads a value from the
bytes of its parts.

A value without parts comes back from a message in the normal form of its type: a number in the
declared kind, null for what was written as null, an empty option for what an option writes as
nothing, a service for a principal (`carries_leaf`).
-/

namespace CanisterShell.Candid.Wire

open Reader (Takes)

/-! ## Values and their bytes -/

/-- The bytes read as a value of a type, whatever stands behind them. -/
def Carries (wire : Scope) (u : Ty) (bytes : Bytes) (v : Value) : Prop :=
  ∃ depth, Takes (readValue wire depth u) bytes v

/-- The bytes read as values of some types, one behind the other. -/
def CarriesAll (wire : Scope) (us : List Ty) (bytes : Bytes) (vs : List Value) : Prop :=
  ∃ depth, Takes (readValues wire depth us) bytes vs

section
variable {wire : Scope} {u u' : Ty} {bytes : Bytes} {v : Value}

theorem takes_readValue_mono {depth depth' : Nat} (h : Takes (readValue wire depth u) bytes v)
    (hle : depth ≤ depth') : Takes (readValue wire depth' u) bytes v := by
  intro rest
  rw [readValue_mono hle u _ (by rw [h rest]; nofun), h rest]

theorem takes_readValues_mono {us : List Ty} {vs : List Value} {depth depth' : Nat}
    (h : Takes (readValues wire depth us) bytes vs) (hle : depth ≤ depth') :
    Takes (readValues wire depth' us) bytes vs := by
  intro rest
  rw [readValues_mono hle us _ (by rw [h rest]; nofun), h rest]

namespace CarriesAll

theorem nil (wire : Scope) : CarriesAll wire [] [] [] := ⟨0, .pure _⟩

theorem cons {us : List Ty} {bytes' : Bytes} {vs : List Value} (h : Carries wire u bytes v)
    (h' : CarriesAll wire us bytes' vs) : CarriesAll wire (u :: us) (bytes ++ bytes') (v :: vs) := by
  obtain ⟨depth, h⟩ := h
  obtain ⟨depth', h'⟩ := h'
  have hfirst := takes_readValue_mono h (Nat.le_max_left depth depth')
  have hrest := takes_readValues_mono h' (Nat.le_max_right depth depth')
  exact ⟨max depth depth', hfirst.bind (hrest.bind_last (.pure _))⟩

theorem singleton (h : Carries wire u bytes v) : CarriesAll wire [u] bytes [v] := by
  have hcons := cons h (nil wire)
  rwa [List.append_nil] at hcons

theorem length_eq {us : List Ty} {vs : List Value} (h : CarriesAll wire us bytes vs) :
    vs.length = us.length := by
  obtain ⟨depth, h⟩ := h
  have hread := h []
  clear h
  generalize bytes ++ [] = bytes at hread
  induction us generalizing bytes vs with
  | nil =>
    cases hread
    rfl
  | cons u us ih =>
    obtain ⟨v, mid, vs', -, hvs, hr⟩ := readValues_cons_iff.mp hread
    cases hr
    rw [List.length_cons, List.length_cons, ih _ hvs]

end CarriesAll

namespace Carries

theorem of_layout {layout : Layout} {front back : Bytes} {vs : List Value}
    (hu : wire.resolve u = .ok u') (hhead : Takes (readHead wire u') front layout)
    (hparts : CarriesAll wire layout.parts back vs) (hv : layout.assemble vs = .ok v) :
    Carries wire u (front ++ back) v := by
  obtain ⟨depth, hparts⟩ := hparts
  refine ⟨depth + 1, ?_⟩
  rw [readValue_succ]
  have hlayout : Takes (readLayout wire u) front layout := (Takes.lift hu).bind_nil hhead
  exact hlayout.bind (hparts.bind_last (.lift hv))

theorem whole (hu : wire.resolve u = .ok u') (h : Takes (readHead wire u') bytes (.whole v)) :
    Carries wire u bytes v := by
  have hc := of_layout hu h (.nil wire) rfl
  rwa [List.append_nil] at hc

theorem prim {p : Prim} (hu : wire.resolve u = .ok (.prim p)) (h : Takes (readPrim p) bytes v) :
    Carries wire u bytes v :=
  whole hu (h.bind_last (.pure _))

theorem nothing {item : Ty} (hu : wire.resolve u = .ok (.opt item)) : Carries wire u [0] .nothing :=
  whole hu ((Takes.byte 0).bind_last (.pure _))

theorem opt {item : Ty} (hu : wire.resolve u = .ok (.opt item)) (h : Carries wire item bytes v) :
    Carries wire u (1 :: bytes) (.opt v) := by
  have hhead : Takes (readHead wire (.opt item)) [1] (.around .opt item) :=
    (Takes.byte 1).bind_last (.pure _)
  exact of_layout hu hhead (.singleton h) rfl

theorem blob {item : Ty} (hu : wire.resolve u = .ok (.vec item))
    (hbyte : wire.isByte item = .ok true) (bytes : Bytes) :
    Carries wire u (leb bytes.length ++ bytes) (.blob bytes) := by
  refine whole hu ((Takes.nat _).bind ((Takes.lift hbyte).bind_nil ?_))
  exact (Takes.take bytes).bind_last (.pure _)

theorem vec {item : Ty} {n : Nat} {vs : List Value} (hu : wire.resolve u = .ok (.vec item))
    (hbyte : wire.isByte item = .ok false) (h : CarriesAll wire (List.replicate n item) bytes vs) :
    Carries wire u (leb n ++ bytes) (.vec vs) := by
  have hhead : Takes (readHead wire (.vec item)) (leb n)
      ⟨List.replicate n item, fun vs => .ok (.vec vs)⟩ :=
    (Takes.nat n).bind_last ((Takes.lift hbyte).bind_nil (.pure _))
  exact of_layout hu hhead h rfl

theorem record {fields : List (Label × Ty)} {vs : List Value}
    (hu : wire.resolve u = .ok (.record fields)) (hasc : Ascending fields)
    (h : CarriesAll wire (fields.map (·.2)) bytes vs) :
    Carries wire u bytes (.record ((fields.map (·.1)).zip vs)) := by
  have hlen : (fields.map (·.1)).length ≤ vs.length := by
    rw [h.length_eq, List.length_map, List.length_map]
  have hids : fields.map (·.1.id) = ((fields.map (·.1)).zip vs).map (·.1.id) := by
    have hlabels := congrArg (List.map Label.id) (List.map_fst_zip hlen)
    rw [List.map_map, List.map_map] at hlabels
    exact hlabels.symm
  have hhead : Takes (readHead wire (.record fields)) []
      ⟨fields.map (·.2), fun vs => Value.mkRecord ((fields.map (·.1)).zip vs)⟩ := .pure _
  exact of_layout hu hhead h (Value.mkRecord_of_ascending (hasc.of_ids hids))

theorem variant {cases : List (Label × Ty)} {i : Nat} {label : Label} {t : Ty}
    (hu : wire.resolve u = .ok (.variant cases)) (hcase : cases[i]? = some (label, t))
    (h : Carries wire t bytes v) : Carries wire u (leb i ++ bytes) (.variant label v i) := by
  have hhead : Takes (readHead wire (.variant cases)) (leb i)
      (.around (fun v => .variant label v i) t) := by
    refine (Takes.nat i).bind_last ?_
    rw [hcase]
    exact .pure _
  exact of_layout hu hhead (.singleton h) rfl

end Carries

end

end CanisterShell.Candid.Wire

namespace CanisterShell.Candid

namespace Wire

open Reader (Takes)

/-! ## Values without parts -/

/-- What a width keeps of a floating-point number. -/
def normalDouble : FloatKind → Double → Double
  | .float64, x => ⟨x.bits, .unnumbered⟩
  | .float32, x =>
    match x.toSingle? with
    | some bits => .ofSingle bits
    | none => x

/-- The floating-point number of a width that a value comes back as. -/
def normalFloat (kind : FloatKind) (v : Value) : Value :=
  match v.toDouble with
  | .ok x => .float kind (normalDouble kind x)
  | .error _ => v

/-- A value without parts as it comes back at a type, names resolved. -/
def normalLeaf (v : Value) : Ty → Value
  | .prim .reserved => .reserved
  | .prim .null => .null
  | .prim (.int kind) => .int kind (v.integer?.getD 0)
  | .prim (.float kind) => normalFloat kind v
  | .opt _ => .nothing
  | .service _ =>
    match v with
    | .principal p => .service p
    | v => v
  | _ => v

/-! ### Numbers -/

theorem takes_take {n : Nat} {bytes : Bytes} (h : bytes.length = n) :
    Takes (Reader.take n) bytes bytes := by
  rw [← h]
  exact .take bytes

theorem fixedInteger_ofNatLE {kind : IntKind} {width : Nat} {n : Int}
    (hwidth : kind.width? = some width) (hholds : kind.holds n) :
    fixedInteger kind (Bytes.ofNatLE width (n % 2 ^ (8 * width)).toNat) = n := by
  have hpos : (0 : Int) < 2 ^ (8 * width) := Int.pow_pos (by decide)
  have hfits : (n % 2 ^ (8 * width)).toNat < 2 ^ (8 * width) := by
    have hlt := Int.emod_lt_of_pos n hpos
    have hnonneg := Int.emod_nonneg n (Int.ne_of_gt hpos)
    rw [← Int.ofNat_lt, Int.toNat_of_nonneg hnonneg]
    exact_mod_cast hlt
  rw [fixedInteger, Bytes.toNatLE_ofNatLE hfits, Bytes.length_ofNatLE]
  clear hpos hfits
  cases kind <;> cases hwidth <;>
    simp [IntKind.holds, IntKind.least?, IntKind.greatest?, IntKind.isSigned] at hholds ⊢
  case nat8 | nat16 | nat32 | nat64 => omega
  case int8 | int16 | int32 | int64 => split <;> omega

theorem nonneg_of_holds {kind : IntKind} {n : Int} (hsigned : kind.isSigned = false)
    (hholds : kind.holds n) : 0 ≤ n := by
  cases kind <;> cases hsigned <;>
    simp [IntKind.holds, IntKind.least?, IntKind.greatest?] at hholds <;> omega

theorem takes_integer {kind : IntKind} {n : Int} {bytes : Bytes}
    (h : integerBytes kind n = .ok bytes) : Takes (readInteger kind) bytes (.int kind n) := by
  rw [integerBytes] at h
  split at h
  · next hholds =>
    rw [readInteger]
    cases hwidth : kind.width? with
    | some width =>
      rw [hwidth] at h
      cases h
      refine (takes_take (Bytes.length_ofNatLE _ _)).bind_last ?_
      rw [fixedInteger_ofNatLE hwidth hholds]
      exact .pure _
    | none =>
      rw [hwidth] at h
      cases h
      cases hsigned : kind.isSigned with
      | true => exact (Takes.int n).bind_last (.pure _)
      | false =>
        refine (Takes.nat n.toNat).bind_last ?_
        rw [Int.toNat_of_nonneg (nonneg_of_holds hsigned hholds)]
        exact .pure _
  · cases h

theorem takes_float {kind : FloatKind} {x : Double} {bytes : Bytes}
    (h : floatBytes kind x = .ok bytes) :
    Takes (readFloat kind) bytes (.float kind (normalDouble kind x)) := by
  cases kind with
  | float64 =>
    cases h
    refine (takes_take (Bytes.length_ofNatLE _ _)).bind_last ?_
    rw [Bytes.toNatLE_ofNatLE (UInt64.toNat_lt _), UInt64.ofNat_toNat]
    exact .pure _
  | float32 =>
    rw [floatBytes] at h
    rw [normalDouble]
    cases hbits : x.toSingle? with
    | none => rw [hbits] at h; cases h
    | some bits =>
      rw [hbits] at h
      cases h
      refine (takes_take (Bytes.length_ofNatLE _ _)).bind_last ?_
      rw [Bytes.toNatLE_ofNatLE (UInt32.toNat_lt _), UInt32.ofNat_toNat]
      exact .pure _

theorem takes_principal (p : Principal) : Takes readPrincipal (principalBytes p) p := by
  refine (Takes.byte 1).bind (.guard (by decide) ?_)
  refine (Takes.nat _).bind ((Takes.take _).bind_last ?_)
  rw [Principal.ofBytes, dif_pos p.length_le]
  exact .pure p

/-! ### Primitive types -/

theorem takes_bool (b : Bool) : Takes (readPrim .bool) [if b then 1 else 0] (.bool b) := by
  cases b with
  | false => exact (Takes.byte 0).bind_last (.guard (by decide) (.pure _))
  | true => exact (Takes.byte 1).bind_last (.guard (by decide) (.pure _))

theorem takes_prim {v : Value} {p : Prim} {bytes : Bytes} (h : primBytes v p = .ok bytes) :
    Takes (readPrim p) bytes (normalLeaf v (.prim p)) := by
  unfold primBytes at h
  split at h
  · cases h
    exact .pure _
  · cases h
    exact .pure _
  · cases h
    exact .pure _
  · cases h
    exact .pure _
  · cases h
    exact takes_bool _
  · exact takes_integer h
  · exact takes_integer h
  · exact (takes_float h)
  · exact (takes_float h)
  · cases h
    exact (Takes.text _).bind_last (.pure _)
  · cases h
    exact (takes_principal _).bind_last (.pure _)
  · cases h

section Leaf
variable {scope wire : Scope} {R : Ty → Ty → Prop} {t u t' u' : Ty} {v : Value} {bytes : Bytes}

/-- A value without parts is read in the normal form of its type. -/
theorem carries_leaf (h : leafBytes v t' = .ok bytes) (hhead : Head R t' u')
    (hu : wire.resolve u = .ok u') : Carries wire u bytes (normalLeaf v t') := by
  unfold leafBytes at h
  split at h
  · cases hhead
    exact .prim hu (takes_prim h)
  · cases hhead
    cases h
    exact .nothing hu
  · cases hhead
    cases h
    exact .nothing hu
  · cases hhead
    cases h
    exact .nothing hu
  · unfold referenceBytes at h
    split at h
    · cases hhead
      cases h
      refine .whole hu ((Takes.byte 1).bind (.guard (by decide) ?_))
      exact (takes_principal _).bind ((Takes.text _).bind_last (.pure _))
    · cases hhead
      cases h
      exact .whole hu ((takes_principal _).bind_last (.pure _))
    · cases hhead
      cases h
      exact .whole hu ((takes_principal _).bind_last (.pure _))
    · cases h

theorem alignValue_of_leaf {w : Value} (ht : scope.resolve t = .ok t')
    (hleaf : alignValue scope w t = do return alignLeaf w (← scope.resolve t))
    (hw : alignLeaf w t' = w) : alignValue scope w t = .ok w := by
  rw [hleaf, ht]
  exact congrArg Except.ok hw

theorem alignValue_normalLeaf (h : leafBytes v t' = .ok bytes) (ht : scope.resolve t = .ok t') :
    alignValue scope (normalLeaf v t') t = .ok (normalLeaf v t') := by
  unfold leafBytes at h
  split at h
  · unfold primBytes at h
    split at h
    all_goals first | exact alignValue_of_leaf ht rfl rfl | cases h
  · exact alignValue_of_leaf ht rfl rfl
  · exact alignValue_of_leaf ht rfl rfl
  · exact alignValue_of_leaf ht rfl rfl
  · unfold referenceBytes at h
    split at h
    · exact alignValue_of_leaf ht rfl rfl
    · exact alignValue_of_leaf ht rfl rfl
    · exact alignValue_of_leaf ht rfl rfl
    · cases h

end Leaf

end Wire

end CanisterShell.Candid
