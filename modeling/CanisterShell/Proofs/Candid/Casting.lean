import CanisterShell.Proofs.Candid.Conveyed
import CanisterShell.Proofs.Candid.Evolution
import CanisterShell.Proofs.Candid.Grounded

/-!
# What a cast lands in

A value inhabits a type when it has the form that the type asks for, at every depth (`Inhabits`).  At a
type without floating-point numbers a cast makes such values (`cast_inhabits`), and for them it is the
identity, as writing and reading at the type are together (`cast_lands`).  Records and variants have no
part in this, for nothing is cast to them.
-/

namespace CanisterShell.Candid

open List (Forall₂)

namespace Value

/-- A value without parts has the form of a type, names resolved. -/
inductive IsLeaf : Value → Ty → Prop
  | null : IsLeaf null (.prim .null)
  | reserved : IsLeaf reserved (.prim .reserved)
  | bool (b : Bool) : IsLeaf (bool b) (.prim .bool)
  | text (s : String) : IsLeaf (text s) (.prim .text)
  | int {kind : IntKind} {n : Int} : kind.holds n → IsLeaf (int kind n) (.prim (.int kind))
  | principal (p : Principal) : IsLeaf (principal p) (.prim .principal)
  | nothing (item : Ty) : IsLeaf nothing (.opt item)
  | service (p : Principal) (methods : List (String × Ty)) : IsLeaf (service p) (.service methods)
  | func (p : Principal) (method : String) (args results : List Ty) (modes : List Mode) :
    IsLeaf (func p method) (.func args results modes)

/-- A value has the form of a type. -/
inductive Inhabits (scope : Scope) : Value → Ty → Prop
  | leaf {v : Value} {t u : Ty} : scope.resolve t = .ok u → v.IsLeaf u → Inhabits scope v t
  | opt {v : Value} {t item : Ty} : scope.resolve t = .ok (.opt item) → Inhabits scope v item →
    Inhabits scope (opt v) t
  | vec {vs : List Value} {t item : Ty} : scope.resolve t = .ok (.vec item) →
    scope.isByte item = .ok false → (∀ v ∈ vs, Inhabits scope v item) → Inhabits scope (vec vs) t
  | blob {t item : Ty} (bytes : Bytes) : scope.resolve t = .ok (.vec item) →
    scope.isByte item = .ok true → Inhabits scope (blob bytes) t

variable {scope : Scope} {t u : Ty} {v w : Value}

/-! ## Casts make values of their type -/

theorem castToInt_isLeaf (kind : IntKind) (v : Value) :
    Attempt.Gives (castToInt kind v) (IsLeaf · (.prim (.int kind))) := by
  have hmk (n : Int) : Attempt.Gives (mkInt kind n) (IsLeaf · (.prim (.int kind))) := by
    rw [mkInt]
    split
    case isTrue hn => exact .ok (.int hn)
    case isFalse => exact .error _
  unfold castToInt
  split
  · split
    · exact .error _
    · exact hmk _
  · exact hmk _

theorem castNumber_isLeaf (h : ∀ kind, t ≠ .prim (.float kind)) (v : Value) :
    Attempt.Gives (castNumber v t) (IsLeaf · t) := by
  unfold castNumber
  split
  · exact castToInt_isLeaf _ v
  · exact absurd rfl (h _)
  · exact .ok .reserved
  · exact .error _
  · exact .error _
  · exact .error _

theorem castId_isLeaf (v : Value) (p : Principal) (t : Ty) :
    Attempt.Gives (castId v p t) (IsLeaf · t) := by
  unfold castId
  split
  · exact .ok (.principal p)
  · exact .ok (.service p _)
  · exact .ok (.func _ _ _ _ _)
  · exact .ok .reserved
  · exact .error _
  · exact .error _
  · exact .error _

theorem castToText_isLeaf (v : Value) (t : Ty) :
    Attempt.Gives (castToText v t) (IsLeaf · (.prim .text)) := by
  unfold castToText
  split
  · exact .error _
  · split
    · exact .ok (.text _)
    · exact .error _

theorem castOther_isLeaf (v : Value) (t : Ty) : Attempt.Gives (castOther v t) (IsLeaf · t) := by
  unfold castOther
  split
  · exact .ok .reserved
  · exact .ok (.bool _)
  · exact .ok (.text _)
  · exact .ok .null
  · exact .error _
  · exact .error _
  · exact .error _

mutual

/-- A cast makes a value of the type. -/
theorem cast_inhabits (v : Value) (t : Ty) (hfloat : scope.FloatFree t) :
    Attempt.Gives (v.cast scope t) (Inhabits scope · t) := by
  rw [cast]
  refine .bind_eq ?_
  intro u hu
  have hleaf {x : Attempt Value} (h : x.Gives (IsLeaf · u)) : x.Gives (Inhabits scope · t) :=
    fun w hw => .leaf hu (h w hw)
  cases v with
  | null | reserved | nothing =>
    dsimp only
    split
    · exact .ok (.leaf hu (.nothing _))
    · exact hleaf (castOther_isLeaf _ _)
  | opt inner =>
    dsimp only
    split
    · have hitem := hfloat.component hu (.head _)
      exact (cast_inhabits inner _ hitem).bind fun w hw => .ok (.opt hu hw)
    · exact hleaf (castOther_isLeaf _ _)
  | text s =>
    dsimp only
    split
    · refine .bind_eq ?_
      intro b hb
      cases b with
      | true => exact .ok (.blob _ hu hb)
      | false =>
        rw [if_neg Bool.false_ne_true]
        exact hleaf (castOther_isLeaf _ _)
    · exact hleaf (castOther_isLeaf _ _)
  | blob bytes =>
    dsimp only
    split
    · exact hleaf (castToText_isLeaf _ _)
    · next item =>
      have hitem := hfloat.component hu (.head _)
      refine .bind_eq ?_
      intro b hb
      cases b with
      | true => exact .ok (.blob bytes hu hb)
      | false =>
        -- here a blob becomes the vector of its bytes, each of them cast as a number
        refine Attempt.Gives.bind (.mapM fun b _ => ?_) fun ws hws => .ok (.vec hu hb hws)
        refine .bind_eq ?_
        intro u' hu'
        exact fun w hw => .leaf hu' (castNumber_isLeaf (hitem.ne_float hu') _ w hw)
    · exact hleaf (castOther_isLeaf _ _)
  | vec items =>
    dsimp only
    split
    · exact hleaf (castToText_isLeaf _ _)
    · next item =>
      have hitem := hfloat.component hu (.head _)
      refine (castAll_inhabits items item hitem).bind ?_
      intro ws hws
      refine .bind_eq ?_
      intro b hb
      cases b with
      | true => exact .ok (.blob _ hu hb)
      | false => exact .ok (.vec hu hb hws)
    · exact hleaf (castOther_isLeaf _ _)
  | principal p | service p | func p m => exact hleaf (castId_isLeaf _ p u)
  | number | int | float => exact hleaf (castNumber_isLeaf (hfloat.ne_float hu) _)
  | bool | record | variant => exact hleaf (castOther_isLeaf _ u)

theorem castAll_inhabits (vs : List Value) (t : Ty) (hfloat : scope.FloatFree t) :
    Attempt.Gives (castAll scope vs t) fun ws => ∀ w ∈ ws, Inhabits scope w t := by
  cases vs with
  | nil =>
    rw [castAll]
    exact .ok nofun
  | cons v rest =>
    rw [castAll]
    exact (cast_inhabits v t hfloat).bind fun w hw =>
      (castAll_inhabits rest t hfloat).bind fun ws hws => .ok (List.forall_mem_cons.mpr ⟨hw, hws⟩)

end

/-! ## Casts of such values -/

theorem castAll_eq_mapM (scope : Scope) (vs : List Value) (t : Ty) :
    castAll scope vs t = vs.mapM (·.cast scope t) := by
  induction vs with
  | nil => rfl
  | cons v vs ih => rw [castAll, List.mapM_cons, ih]

theorem IsLeaf.cast (h : v.IsLeaf u) (hu : scope.resolve t = .ok u) : v.cast scope t = .ok v := by
  rw [Value.cast, hu, Attempt.ok_bind]
  cases h with
  | int hn => exact if_pos hn
  | _ => rfl

theorem Inhabits.cast (h : Inhabits scope v t) : v.cast scope t = .ok v := by
  induction h with
  | leaf hu hleaf => exact hleaf.cast hu
  | opt hu _ ih =>
    rw [Value.cast, hu, Attempt.ok_bind]
    dsimp only
    rw [ih]
    rfl
  | @vec vs _ item hu hbyte _ ih =>
    have hall : castAll scope vs item = .ok vs := by
      rw [castAll_eq_mapM, Attempt.mapM_eq_map (g := id) ih, List.map_id]
    rw [Value.cast, hu, Attempt.ok_bind]
    dsimp only
    rw [hall, hbyte]
    rfl
  | blob bytes hu hbyte =>
    rw [Value.cast, hu, Attempt.ok_bind]
    dsimp only
    rw [hbyte]
    rfl

end Value

namespace Wire

open Value (IsLeaf Inhabits)

variable {scope : Scope} {t u : Ty} {v : Value}

/-! ## Such values in a message -/

theorem exists_leafBytes (h : v.IsLeaf u) : ∃ bytes, leafBytes v u = .ok bytes := by
  cases h with
  | int hn => exact exists_integerBytes hn
  | _ => exact ⟨_, rfl⟩

theorem normalLeaf_of_isLeaf (h : v.IsLeaf u) : normalLeaf v u = v := by
  cases h <;> rfl

theorem conveyed_of_inhabits (h : Inhabits scope v t) : Conveyed scope t v v := by
  induction h with
  | @leaf v t u hu hleaf =>
    obtain ⟨bytes, hbytes⟩ := exists_leafBytes hleaf
    have hwrite : valueBytes scope v t = (do leafBytes v (← scope.resolve t)) := by
      cases hleaf <;> rfl
    have hconveyed := Conveyed.leaf hu hwrite hbytes
    rwa [normalLeaf_of_isLeaf hleaf] at hconveyed
  | opt hu _ ih => exact .opt hu ih
  | vec hu hbyte _ ih => exact .vec hu hbyte (List.forall₂_same.mpr ih)
  | blob bytes hu hbyte => exact .blob hu (resolve_of_isByte hbyte) bytes

theorem alignValue_of_inhabits (h : Inhabits scope v t) : alignValue scope v t = .ok v := by
  induction h with
  | leaf hu hleaf => cases hleaf <;> exact alignValue_of_leaf hu rfl rfl
  | opt hu _ ih =>
    simp only [alignValue, hu, Attempt.ok_bind, ih]
    rfl
  | @vec vs _ item hu _ _ ih =>
    have hall : alignItems scope vs item = .ok vs := by
      rw [alignItems_eq_mapM, Attempt.mapM_eq_map (g := id) ih, List.map_id]
    simp only [alignValue, hu, Attempt.ok_bind, hall]
    rfl
  | blob bytes hu _ => exact alignValue_of_leaf hu rfl rfl

end Wire

/-- What a cast makes stays as it is: cast again, and written and read back at the type. -/
theorem cast_lands {scope : Scope} (hscope : scope.Ordered) {t : Ty} (ht : t.Ordered)
    (hgrounded : scope.Grounded t) (hfloat : scope.FloatFree t) {v w : Value}
    (h : v.cast scope t = .ok w) :
    w.cast scope t = .ok w ∧
      ∃ bytes, encodeAs scope [w] [t] = .ok bytes ∧ decodeAs scope bytes [t] = .ok [w] := by
  have hinhabits := Value.cast_inhabits v t hfloat w h
  obtain ⟨bytes, hencode, hdecode⟩ := (Wire.conveyed_of_inhabits hinhabits).message hscope ht
    (Wire.resolves_of_grounded hgrounded)
  refine ⟨hinhabits.cast, bytes, hencode, ?_⟩
  rw [decodeAs, hdecode, Attempt.ok_bind]
  simp only [Wire.alignAll, Wire.alignValue_of_inhabits hinhabits, Attempt.ok_bind]
  rfl

/-- Names for bytes and for blobs. -/
def blobScope : Scope := [("Blob", .vec (.var "Byte")), ("Byte", .nat8)]

/-- What one comes to from an option of blobs. -/
def blobTypes : List Ty :=
  [.opt (.vec (.var "Blob")), .vec (.var "Blob"), .var "Blob", .vec (.var "Byte"), .var "Byte", .nat8]

theorem blobScope_closed : blobScope.Closed blobTypes := by
  refine ⟨?_, ?_⟩
  · simp [blobTypes, Ty.components, Ty.nat8]
  · simp [blobTypes, blobScope, Table.find?_cons, Ty.nat8]

theorem blobScope_floatFree {t : Ty} (h : t ∈ blobTypes) : blobScope.FloatFree t :=
  blobScope_closed.floatFree (by simp [blobTypes, Ty.nat8]) h

/-- A text and a vector of numbers both land in blobs. -/
theorem text_and_numbers_land :
    (Value.opt (.vec [.text "hi", .vec [.number 1, .number 255]])).cast blobScope
        (.opt (.vec (.var "Blob"))) = .ok (.opt (.vec [.blob [104, 105], .blob [1, 255]])) ∧
      (Value.opt (.vec [.blob [104, 105], .blob [1, 255]])).cast blobScope
        (.opt (.vec (.var "Blob"))) = .ok (.opt (.vec [.blob [104, 105], .blob [1, 255]])) ∧
      ∃ bytes, encodeAs blobScope [.opt (.vec [.blob [104, 105], .blob [1, 255]])]
          [.opt (.vec (.var "Blob"))] = .ok bytes ∧
        decodeAs blobScope bytes [.opt (.vec (.var "Blob"))] =
          .ok [.opt (.vec [.blob [104, 105], .blob [1, 255]])] := by
  have hscope : blobScope.Ordered :=
    List.forall_mem_cons.mpr ⟨.vec (.var _), List.forall_mem_singleton.mpr (.prim _)⟩
  have hgrounded : blobScope.Grounded (.opt (.vec (.var "Blob"))) := by
    refine blobScope_closed.grounded (fun _ => 0) ?_ (.head _)
    simp [blobTypes, blobScope, Scope.Alias, Table.find?_cons, Ty.nat8]
  have hcast : (Value.opt (.vec [.text "hi", .vec [.number 1, .number 255]])).cast blobScope
      (.opt (.vec (.var "Blob"))) = .ok (.opt (.vec [.blob [104, 105], .blob [1, 255]])) := by
    cbv
  have hfloat := blobScope_floatFree (.head _)
  exact ⟨hcast, cast_lands hscope (.opt (.vec (.var _))) hgrounded hfloat hcast⟩

end CanisterShell.Candid
