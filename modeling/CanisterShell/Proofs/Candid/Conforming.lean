import CanisterShell.Proofs.Candid.Repacking
import CanisterShell.Proofs.Number.Rounding

/-!
# Casts that change nothing

A value that is cast to the type of an equal one may come out different: the type of a vector is that
of its first item, and the other items are made to fit.  Whether a value conforms to a type can be
told without casting (`conforms`), and of two equal values the cast of one is equal to the other just
if the other conforms to the type (`cast_landsIn`).
-/

namespace CanisterShell

open List (Forall₂)

namespace Double

theorem same_of_bits {x x' y : Double} (hbits : x'.bits = x.bits) (hnan : x.isNaN = false)
    (h : x.same y = true) : x'.same y = true := by
  obtain ⟨bits, origin⟩ := x
  obtain ⟨bits', origin'⟩ := x'
  subst hbits
  rw [same, hnan, Bool.false_and, if_neg Bool.false_ne_true] at h
  rw [same]
  rw [show isNaN ⟨bits', origin'⟩ = false from hnan, Bool.false_and, if_neg Bool.false_ne_true]
  exact h

end Double

namespace Candid.Value

mutual

/-- Whether a value is one of a type already, as far as a cast looks into it. -/
def conforms : Value → Ty → Bool
  | null, .prim .null => true
  | reserved, .prim .reserved => true
  | nothing, .opt _ => true
  | bool _, .prim .bool => true
  | text _, .prim .text => true
  | number _, .prim (.int _) => true
  | int k _, .prim (.int l) => k = l
  | float k _, .prim (.float l) => k = l
  | opt v, .opt t => conforms v t
  | blob bytes, .vec t => t.isByte || bytes.isEmpty
  | vec items, .vec t => if t.isByte then (items.mapM byte?).isSome else allConform items t
  | record _, .record _ => true
  | variant .., .variant _ => true
  | principal _, .prim .principal => true
  | service _, .service _ => true
  | func .., .func .. => true
  | _, _ => false

def allConform : List Value → Ty → Bool
  | [], _ => true
  | v :: rest, t => conforms v t && allConform rest t

end

theorem allConform_iff (items : List Value) (t : Ty) :
    allConform items t = true ↔ ∀ v ∈ items, v.conforms t = true := by
  induction items with
  | nil => simp [allConform]
  | cons v items ih => simp [allConform, ih]

/-- Whether the value conforms to the type that it shows: the items of each vector are of the type of
its first one. -/
def isOfOneType (v : Value) : Bool := v.conforms v.ty

/-- The numbers of single precision in the value are as wide as that. -/
def Rounded (v : Value) : Prop :=
  ∀ w, Within w v → ∀ x, w = float .float32 x → ∃ bits, x.bits = (Double.ofSingle bits).bits

theorem Rounded.part {u v : Value} (h : v.Rounded) (hu : u ∈ v.parts) : u.Rounded :=
  ((forall_within_iff v).mp h).2 u hu

theorem FloatFree.rounded {v : Value} (h : v.FloatFree) : v.Rounded := by
  rintro _ hw x rfl
  exact absurd (h _ hw) Bool.false_ne_true

theorem toSingle?_of_rounded {x : Double} (h : Rounded (float .float32 x))
    (hnan : x.isNaN = false) :
    ∃ bits, x.toSingle? = some bits ∧ (Double.ofSingle bits).bits = x.bits := by
  obtain ⟨bits, hbits⟩ := h _ .refl x rfl
  obtain ⟨xbits, origin⟩ := x
  subst hbits
  exact ⟨bits, Double.toSingle?_ofSingle hnan, rfl⟩

/-! ## Casts without items -/

variable {t : Ty} {v w : Value}

/-- What the attempt gives is equal to the value just if that conforms to the type. -/
def LandsIn (w : Value) (t : Ty) (x : Attempt Value) : Prop :=
  x.Gives fun u => u.equal w = w.conforms t

theorem landsIn_resolved {x : Ty → Attempt Value} (h : LandsIn w t (x t)) :
    LandsIn w t (Scope.resolve [] t >>= x) :=
  .bind_eq fun _ ht' => Scope.resolve_nil ht' ▸ h

theorem landsIn_reserved (w : Value) : LandsIn w .reserved (.ok reserved) :=
  .ok (by cases w <;> rfl)

theorem castOther_landsIn (h : v.equal w = true) (t : Ty) : LandsIn w t (castOther v t) := by
  unfold castOther
  split
  case h_1 => exact landsIn_reserved w
  case h_2 =>
    cases (equal_iff _ _).mp h with
    | bool => exact .ok h
  case h_3 =>
    cases (equal_iff _ _).mp h with
    | text => exact .ok h
  case h_4 =>
    cases (equal_iff _ _).mp h with
    | null => exact .ok h
  all_goals exact .error _

theorem castToText_landsIn (v : Value) (hw : (∃ bytes, w = blob bytes) ∨ ∃ items, w = vec items) :
    LandsIn w .text (castToText v .text) := by
  unfold castToText
  split
  · exact .error _
  · split
    · obtain ⟨bytes, rfl⟩ | ⟨items, rfl⟩ := hw
      · exact .ok rfl
      · exact .ok rfl
    · exact .error _

theorem castId_landsIn {p : Principal} (h : v.equal w = true)
    (hv : v = principal p ∨ v = service p ∨ ∃ method, v = func p method) (t : Ty) :
    LandsIn w t (castId v p t) := by
  have hw : w = v := by
    obtain rfl | rfl | ⟨method, rfl⟩ := hv
    all_goals
      cases (equal_iff _ _).mp h
      rfl
  subst hw
  unfold castId
  split
  · obtain rfl | rfl | ⟨method, rfl⟩ := hv
    · exact .ok h
    · exact .ok rfl
    · exact .ok rfl
  · obtain rfl | rfl | ⟨method, rfl⟩ := hv
    · exact .ok rfl
    · exact .ok h
    · exact .ok rfl
  · exact .ok h
  · exact landsIn_reserved _
  all_goals exact .error _

/-! ## Casts of numbers -/

theorem integer?_of_equal {n : Int} (h : v.equal w = true) (hv : v.integer? = some n) :
    w.integer? = some n := by
  cases (equal_iff _ _).mp h with
  | numbers | numberInt | intNumber | ints => exact hv
  | _ => cases hv

theorem int_equal {n : Int} (kind : IntKind) (hw : w.integer? = some n) :
    (int kind n).equal w = w.conforms (.prim (.int kind)) := by
  cases w with
  | number m =>
    cases hw
    simp [equal, conforms]
  | int l m =>
    cases hw
    simp [equal, conforms, eq_comm]
  | _ => cases hw

theorem float_equal {n : Int} (kind : FloatKind) (x : Double) (hw : w.integer? = some n) :
    (float kind x).equal w = w.conforms (.prim (.float kind)) := by
  cases w with
  | number | int => rfl
  | _ => cases hw

theorem mkInt_landsIn {n : Int} (kind : IntKind) (hw : w.integer? = some n) :
    LandsIn w (.prim (.int kind)) (mkInt kind n) := by
  rw [mkInt]
  split
  · exact .ok (int_equal kind hw)
  · exact .error _

theorem mkFloat_gives {kind : FloatKind} {x : Double} {P : Value → Prop}
    (h : ∀ y, P (float kind y)) : (mkFloat kind x).Gives P := by
  unfold mkFloat
  split
  · exact .ok (h _)
  · split
    · exact .ok (h _)
    · exact .error _

theorem castInteger_landsIn {n : Int} (h : v.equal w = true) (hv : v.integer? = some n) (t : Ty) :
    LandsIn w t (castNumber v t) := by
  have hw := integer?_of_equal h hv
  unfold castNumber
  split
  case h_1 kind =>
    have hcast : castToInt kind v = mkInt kind n := by
      cases v with
      | number | int =>
        cases hv
        rfl
      | _ => cases hv
    rw [hcast]
    exact mkInt_landsIn kind hw
  case h_2 kind => exact .bind_right fun x => mkFloat_gives fun y => float_equal kind y hw
  case h_3 => exact landsIn_reserved w
  all_goals exact .error _

theorem castToInt_gives {kind : IntKind} {P : Value → Prop} (h : ∀ n, P (int kind n)) (v : Value) :
    (castToInt kind v).Gives P := by
  have hmk (n : Int) : (mkInt kind n).Gives P := by
    rw [mkInt]
    split
    · exact .ok (h n)
    · exact .error _
  unfold castToInt
  split
  · split
    · exact .error _
    · exact hmk _
  · exact hmk _

theorem castFloat_landsIn {kind : FloatKind} {x y : Double} (hxy : x.same y = true)
    (hnan : x.isNaN = false) (hrounded : Rounded (float kind x)) (t : Ty) :
    LandsIn (float kind y) t (castNumber (float kind x) t) := by
  unfold castNumber
  split
  case h_1 => exact castToInt_gives (fun _ => rfl) _
  case h_2 kind' =>
    change LandsIn _ _ (mkFloat kind' x)
    cases kind' with
    | float64 => exact .ok (by cases kind <;> simp [equal, sameLeaf, conforms, hxy])
    | float32 =>
      cases kind with
      | float64 => exact mkFloat_gives fun _ => rfl
      | float32 =>
        obtain ⟨bits, hsingle, hbits⟩ := toSingle?_of_rounded hrounded hnan
        rw [mkFloat, hsingle]
        exact .ok (by simp [equal, sameLeaf, conforms, Double.same_of_bits hbits hnan hxy])
  case h_3 => exact landsIn_reserved _
  all_goals exact .error _

/-! ## Casts of items -/

theorem eq_nat8_of_isByte (h : t.isByte = true) : t = .nat8 := by
  unfold Ty.isByte at h
  split at h
  · rfl
  · cases h

theorem isByte_nil {b : Bool} (h : Scope.isByte [] t = .ok b) : b = t.isByte := by
  obtain ⟨u, hu, hb⟩ := Attempt.bind_ok_iff.mp h
  obtain rfl := Scope.resolve_nil hu
  exact (Except.ok.inj hb).symm

theorem cast_nat8 {n : Int} {u : Value} (hv : v.integer? = some n) (hu : v.cast [] .nat8 = .ok u) :
    u = int .nat8 n := by
  have hcast : v.cast [] .nat8 = mkInt .nat8 n := by
    rw [cast, Scope.resolve_prim]
    cases v with
    | number | int =>
      cases hv
      rfl
    | _ => cases hv
  rw [hcast, mkInt] at hu
  split at hu
  · exact (Except.ok.inj hu).symm
  · cases hu

theorem mapM_byte?_of_cast {vs ws us : List Value}
    (h : Forall₂ (fun x y => ∀ n, y = int .nat8 n → x.integer? = some n) vs ws)
    (hus : Forall₂ (fun x u => x.cast [] .nat8 = .ok u) vs us) {bytes : Bytes}
    (hbytes : ws.mapM byte? = some bytes) : us.mapM byte? = some bytes := by
  rw [mapM_byte?_iff] at hbytes ⊢
  induction h generalizing us bytes with
  | nil =>
    cases hus
    exact hbytes
  | cons hxy _ ih =>
    cases hus with
    | @cons _ u _ us hu hus =>
      cases hbytes with
      | @cons _ b _ rest hb hrest =>
        refine .cons ?_ (ih hus hrest)
        unfold byte? at hb
        split at hb
        case h_1 n =>
          rw [cast_nat8 (hxy n rfl) hu]
          exact hb
        case h_2 => cases hb

theorem blobOf_of_mapM {us : List Value} {bytes : Bytes} (h : us.mapM byte? = some bytes) :
    blobOf us = blob bytes := by
  refine congrArg blob ?_
  induction mapM_byte?_iff.mp h with
  | nil => rfl
  | cons hb hrest ih => rw [List.filterMap_cons_some hb, ih (mapM_byte?_iff.mpr hrest)]

theorem IsLeaf.byte? {u : Value} (h : u.IsLeaf t) (ht : t.isByte = false) : u.byte? = none := by
  cases h with
  | @int kind =>
    cases kind with
    | nat8 => cases ht
    | _ => rfl
  | _ => rfl

theorem castNumber_byte? (v : Value) (ht : t.isByte = false) :
    (castNumber v t).Gives fun u => u.byte? = none := by
  by_cases hfloat : ∃ kind, t = .prim (.float kind)
  · obtain ⟨kind, rfl⟩ := hfloat
    exact .bind_right fun x => mkFloat_gives fun _ => rfl
  · exact fun u hu => (castNumber_isLeaf (fun kind h => hfloat ⟨kind, h⟩) v u hu).byte? ht

theorem cast_byte? (v : Value) (ht : t.isByte = false) :
    (v.cast [] t).Gives fun u => u.byte? = none := by
  have leaf {x : Attempt Value} (h : x.Gives (IsLeaf · t)) : x.Gives fun u => u.byte? = none :=
    fun u hu => (h u hu).byte? ht
  rw [cast]
  refine .bind_eq fun t' ht' => ?_
  obtain rfl := Scope.resolve_nil ht'
  cases v with
  | null | reserved | nothing =>
    dsimp only
    split
    · exact .ok rfl
    · exact leaf (castOther_isLeaf _ _)
  | opt inner =>
    dsimp only
    split
    · exact .bind_right fun _ => .ok rfl
    · exact leaf (castOther_isLeaf _ _)
  | text s =>
    dsimp only
    split
    · refine .bind_right fun b => ?_
      split
      · exact .ok rfl
      · exact leaf (castOther_isLeaf _ _)
    · exact leaf (castOther_isLeaf _ _)
  | blob bytes =>
    dsimp only
    split
    · exact leaf (castToText_isLeaf _ _)
    · refine .bind_right fun b => ?_
      split
      · exact .ok rfl
      · exact .bind_right fun _ => .ok rfl
    · exact leaf (castOther_isLeaf _ _)
  | vec items =>
    dsimp only
    split
    · exact leaf (castToText_isLeaf _ _)
    · refine .bind_right fun _ => .bind_right fun b => ?_
      split
      · exact .ok rfl
      · exact .ok rfl
    · exact leaf (castOther_isLeaf _ _)
  | principal p | service p | func p m => exact leaf (castId_isLeaf _ p _)
  | number | int | float => exact castNumber_byte? _ ht
  | bool | record | variant => exact leaf (castOther_isLeaf _ _)

theorem equalAll_conform {vs us ws : List Value} (h : Forall₂ Equal vs ws)
    (hus : Forall₂ (fun x u => x.cast [] t = .ok u) vs us)
    (hitems : ∀ x ∈ vs, ∀ y ∈ ws, x.equal y = true → LandsIn y t (x.cast [] t)) :
    equalAll us ws = allConform ws t := by
  induction h generalizing us with
  | nil =>
    cases hus
    rfl
  | cons hxy _ ih =>
    cases hus with
    | cons hu hus =>
      rw [equalAll, allConform, hitems _ (.head _) _ (.head _) hxy _ hu,
        ih hus fun x hx y hy => hitems x (.tail _ hx) y (.tail _ hy)]

theorem blobOf_equal {vs us : List Value} (h : (vec vs).equal w = true)
    (hus : Forall₂ (fun x u => x.cast [] .nat8 = .ok u) vs us) :
    (blobOf us).equal w = w.conforms (.vec .nat8) := by
  cases (equal_iff _ _).mp h with
  | @vecBlob bytes _ hbytes =>
    have hself : Forall₂ (fun x y => ∀ n, y = int .nat8 n → x.integer? = some n) vs vs :=
      List.forall₂_same.mpr fun x _ n hx => hx ▸ rfl
    rw [blobOf_of_mapM (mapM_byte?_of_cast hself hus hbytes)]
    simp [equal, conforms, Ty.isByte]
  | @vecs _ ws hvw =>
    have hinteger : Forall₂ (fun x y => ∀ n, y = int .nat8 n → x.integer? = some n) vs ws :=
      hvw.imp fun x y hxy n hy => integer?_of_equal (equal_symm hxy) (hy ▸ rfl)
    have hconforms : (vec ws).conforms (.vec .nat8) = (ws.mapM byte?).isSome := rfl
    rw [hconforms, Bool.eq_iff_iff, Option.isSome_iff_exists]
    constructor
    · exact fun h => ⟨_, (equal_blob_vec_iff _ _).mp h⟩
    · rintro ⟨bytes, hbytes⟩
      rw [blobOf_of_mapM (mapM_byte?_of_cast hinteger hus hbytes), equal_blob_vec_iff]
      exact hbytes

theorem vec_equal {vs us : List Value} (h : (vec vs).equal w = true) (ht : t.isByte = false)
    (hus : Forall₂ (fun x u => x.cast [] t = .ok u) vs us)
    (hitems : ∀ x ∈ vs, ∀ y ∈ w.parts, x.equal y = true → LandsIn y t (x.cast [] t)) :
    (vec us).equal w = w.conforms (.vec t) := by
  cases (equal_iff _ _).mp h with
  | @vecBlob bytes _ hbytes =>
    have hconforms : (blob bytes).conforms (.vec t) = bytes.isEmpty := by
      rw [conforms, ht, Bool.false_or]
    rw [hconforms]
    cases mapM_byte?_iff.mp hbytes with
    | nil =>
      cases hus
      rfl
    | @cons x _ _ _ _ _ =>
      -- there is an item, which was a byte and is none now
      cases hus with
      | @cons _ u _ _ hu _ =>
        rw [Bool.eq_iff_iff, equal_vec_blob_iff, List.mapM_cons, cast_byte? x ht u hu]
        exact iff_of_false nofun nofun
  | @vecs _ ws hvw =>
    have hconforms : (vec ws).conforms (.vec t) = allConform ws t := by
      rw [conforms, ht, if_neg Bool.false_ne_true]
    rw [hconforms]
    exact equalAll_conform hvw hus hitems

theorem castItems_landsIn {vs : List Value} (h : (vec vs).equal w = true)
    (hitems : ∀ x ∈ vs, ∀ y ∈ w.parts, x.equal y = true → LandsIn y t (x.cast [] t)) :
    LandsIn w (.vec t) ((vec vs).cast [] (.vec t)) := by
  rw [cast]
  refine landsIn_resolved ?_
  dsimp only
  rw [castAll_eq_mapM]
  refine .bind_eq fun us hus => .bind_eq fun b hb => ?_
  have hus := Attempt.mapM_ok_iff.mp hus
  cases b with
  | true =>
    obtain rfl := Scope.resolve_nil (Wire.resolve_of_isByte hb)
    exact .ok (blobOf_equal h hus)
  | false => exact .ok (vec_equal h (isByte_nil hb).symm hus hitems)

theorem castBytes_landsIn {bytes : Bytes} (h : (blob bytes).equal w = true) (hw : w.WellFormed) :
    LandsIn w (.vec t) ((blob bytes).cast [] (.vec t)) := by
  rw [cast_blob_vec (Scope.resolve_of_ne_var nofun), ofBytes]
  refine castItems_landsIn ((equal_blob_iff bytes hw).mp h).1 ?_
  refine List.forall_mem_map.mpr fun b _ y _ hy => ?_
  rw [cast_ofByte]
  exact landsIn_resolved (castInteger_landsIn hy rfl _)

theorem castRow_landsIn (h : v.equal w = true)
    (hv : (∃ bytes, v = blob bytes) ∨ ∃ items, v = vec items) (ht : ∀ item, t ≠ .vec item) :
    LandsIn w t (v.cast [] t) := by
  have hw : (∃ bytes, w = blob bytes) ∨ ∃ items, w = vec items := by
    obtain ⟨bytes, rfl⟩ | ⟨items, rfl⟩ := hv
    all_goals
      cases (equal_iff _ _).mp h
      all_goals first
        | exact .inl ⟨_, rfl⟩
        | exact .inr ⟨_, rfl⟩
  obtain ⟨bytes, rfl⟩ | ⟨items, rfl⟩ := hv
  all_goals
    rw [cast]
    refine landsIn_resolved ?_
    cases t with
    | vec item => exact absurd rfl (ht item)
    | prim p =>
      cases p with
      | text => exact castToText_landsIn _ hw
      | _ => exact castOther_landsIn h _
    | _ => exact castOther_landsIn h _

/-! ## All casts -/

/-- Where the value that is cast is equal to another, the result is so just if the other conforms to
the type. -/
theorem cast_landsIn {v w : Value} (hw : w.WellFormed) (hnan : v.NaNFree) (hrounded : v.Rounded)
    (h : v.equal w = true) (t : Ty) : LandsIn w t (v.cast [] t) := by
  induction v using induction_parts generalizing w t with
  | h v ih =>
    have hitems : ∀ x ∈ v.parts, ∀ y ∈ w.parts, ∀ t, x.equal y = true → LandsIn y t (x.cast [] t) :=
      fun x hx y hy t hxy => ih x hx (hw.part hy) (hnan.part hx) (hrounded.part hx) hxy t
    by_cases hrow : (∃ bytes, v = blob bytes) ∨ ∃ items, v = vec items
    · by_cases ht : ∃ item, t = .vec item
      · obtain ⟨item, rfl⟩ := ht
        obtain ⟨bytes, rfl⟩ | ⟨items, rfl⟩ := hrow
        · exact castBytes_landsIn h hw
        · exact castItems_landsIn h fun x hx y hy hxy => hitems x hx y hy item hxy
      · exact castRow_landsIn h hrow fun item hitem => ht ⟨item, hitem⟩
    rw [cast]
    cases v with
    | blob bytes => exact absurd (.inl ⟨bytes, rfl⟩) hrow
    | vec items => exact absurd (.inr ⟨items, rfl⟩) hrow
    | null | reserved =>
      refine landsIn_resolved ?_
      dsimp only
      split
      · cases (equal_iff _ _).mp h
        exact .ok rfl
      · exact castOther_landsIn h _
    | nothing =>
      refine landsIn_resolved ?_
      dsimp only
      split
      · cases (equal_iff _ _).mp h
        exact .ok h
      · exact castOther_landsIn h _
    | opt inner =>
      refine landsIn_resolved ?_
      dsimp only
      split
      · cases (equal_iff _ _).mp h with
        | opt hinner =>
          exact (hitems _ (.head _) _ (.head _) _ hinner).bind fun u hu => .ok hu
      · exact castOther_landsIn h _
    | text s =>
      refine landsIn_resolved ?_
      dsimp only
      split
      · refine .bind_right fun b => ?_
        split
        · cases (equal_iff _ _).mp h
          exact .ok rfl
        · exact castOther_landsIn h _
      · exact castOther_landsIn h _
    | principal p => exact landsIn_resolved (castId_landsIn h (.inl rfl) _)
    | service p => exact landsIn_resolved (castId_landsIn h (.inr (.inl rfl)) _)
    | func p m => exact landsIn_resolved (castId_landsIn h (.inr (.inr ⟨m, rfl⟩)) _)
    | number n => exact landsIn_resolved (castInteger_landsIn h rfl _)
    | int kind n => exact landsIn_resolved (castInteger_landsIn h rfl _)
    | float kind x =>
      cases (equal_iff _ _).mp h with
      | float _ hxy =>
        have hx : x.isNaN = false := by simpa [isNoNaN] using hnan.self
        exact landsIn_resolved (castFloat_landsIn hxy hx hrounded _)
    | bool | record | variant => exact landsIn_resolved (castOther_landsIn h _)

end Candid.Value

end CanisterShell
