import CanisterShell.Proofs.Candid.Equality

/-!
# A blob at a place of a value

A place is a value with a hole.  What is equal to a value with something in the hole has something
equal there, and what it has around it does not depend on what fills the hole
(`exists_surroundings`).  So a blob can stand in for the vector of its bytes, wherever it is, but for
one case: beside the vector an untyped number counts as a byte, beside the blob it does not
(`equal_fill_blob_iff`).
-/

namespace CanisterShell.Candid

open List (Forall₂)

namespace Value

def ofBytes (bytes : Bytes) : Value := vec (bytes.map ofByte)

/-- A value with a hole. -/
inductive Place where
  | here
  | opt (place : Place)
  | vec (before : List Value) (place : Place) (after : List Value)
  | record (before : List (Label × Value)) (label : Label) (place : Place)
    (after : List (Label × Value))
  | variant (label : Label) (place : Place) (index : Nat)

namespace Place

/-- The value with another one in the hole. -/
def fill : Place → Value → Value
  | here, v => v
  | opt place, v => .opt (place.fill v)
  | vec before place after, v => .vec (before ++ place.fill v :: after)
  | record before label place after, v => .record (before ++ (label, place.fill v) :: after)
  | variant label place index, v => .variant label (place.fill v) index

/-- What a value has at the place of the hole. -/
def at? : Place → Value → Option Value
  | here, v => some v
  | opt place, .opt v => place.at? v
  | vec before place _, .vec items => items[before.length]?.bind place.at?
  | record before _ place _, .record fields => fields[before.length]?.bind fun f => place.at? f.2
  | variant _ place _, .variant _ v _ => place.at? v
  | _, _ => none

theorem within_of_at? {place : Place} {v w : Value} (h : place.at? w = some v) : Within v w := by
  induction place generalizing w with
  | here =>
    cases h
    exact .refl
  | opt place ih =>
    cases w with
    | opt w => exact .part (.head _) (ih h)
    | _ => cases h
  | vec before place after ih =>
    cases w with
    | vec items =>
      obtain ⟨w, hw, h⟩ := Option.bind_eq_some_iff.mp h
      exact .part (List.mem_of_getElem? hw) (ih h)
    | _ => cases h
  | record before label place after ih =>
    cases w with
    | record fields =>
      obtain ⟨f, hf, h⟩ := Option.bind_eq_some_iff.mp h
      exact .part (List.mem_map_of_mem (List.mem_of_getElem? hf)) (ih h)
    | _ => cases h
  | variant label place index ih =>
    cases w with
    | variant _ w _ => exact .part (.head _) (ih h)
    | _ => cases h

theorem byte?_fill {v : Value} (h : v.byte? = none) (place : Place) :
    (place.fill v).byte? = none := by
  cases place <;> first | exact h | rfl

end Place

/-! ## Equality around a hole -/

theorem forall₂_append_cons_iff {α β : Type} {R : α → β → Prop} {before after : List α} {x : α}
    {ys : List β} :
    Forall₂ R (before ++ x :: after) ys ↔
      (Forall₂ R before (ys.take before.length) ∧ Forall₂ R after (ys.drop (before.length + 1))) ∧
        ∃ y, ys[before.length]? = some y ∧ R x y := by
  induction before generalizing ys with
  | nil => cases ys <;> simp [and_comm]
  | cons b before ih => cases ys <;> simp [ih, and_assoc]

open Place in
/-- What equality asks of a value around a place does not depend on what stands in the hole. -/
theorem exists_surroundings (place : Place) (w : Value) :
    ∃ surroundings : Prop, ∀ v, v.byte? = none →
      ((place.fill v).equal w = true ↔
        surroundings ∧ ∃ x, place.at? w = some x ∧ v.equal x = true) := by
  induction place generalizing w with
  | here => exact ⟨True, by simp [fill, at?]⟩
  | opt place ih =>
    cases w with
    | opt w => exact ih w
    | _ => exact ⟨False, fun v _ => iff_of_false Bool.false_ne_true (fun h => h.1)⟩
  | vec before place after ih =>
    cases w with
    | vec items =>
      cases hitem : items[before.length]? with
      | none =>
        refine ⟨False, fun v _ => ?_⟩
        simp [fill, equal, equalAll_iff, forall₂_append_cons_iff, hitem]
      | some x =>
        obtain ⟨surroundings, h⟩ := ih x
        refine ⟨(Forall₂ Equal before (items.take before.length) ∧
          Forall₂ Equal after (items.drop (before.length + 1))) ∧ surroundings, fun v hv => ?_⟩
        simp [fill, equal, equalAll_iff, forall₂_append_cons_iff, hitem, h v hv, at?, and_assoc]
    | blob bytes =>
      refine ⟨False, fun v hv => ?_⟩
      simp [fill, equal_vec_blob_iff, byte?_fill hv]
    | _ => exact ⟨False, fun v _ => iff_of_false Bool.false_ne_true (fun h => h.1)⟩
  | record before label place after ih =>
    cases w with
    | record fields =>
      cases hfield : fields[before.length]? with
      | none =>
        refine ⟨False, fun v _ => ?_⟩
        simp [fill, equal, equalFields_iff, forall₂_append_cons_iff, hfield]
      | some f =>
        obtain ⟨surroundings, h⟩ := ih f.2
        let alike (f g : Label × Value) : Prop := f.1.id = g.1.id ∧ Equal f.2 g.2
        refine ⟨(Forall₂ alike before (fields.take before.length) ∧
          Forall₂ alike after (fields.drop (before.length + 1))) ∧
            label.id = f.1.id ∧ surroundings, fun v hv => ?_⟩
        simp [fill, equal, equalFields_iff, forall₂_append_cons_iff, hfield, h v hv, at?, and_assoc,
          alike]
    | _ => exact ⟨False, fun v _ => iff_of_false Bool.false_ne_true (fun h => h.1)⟩
  | variant label place index ih =>
    cases w with
    | variant label' w index' =>
      obtain ⟨surroundings, h⟩ := ih w
      refine ⟨label.same label' = true ∧ surroundings, fun v hv => ?_⟩
      simp [fill, equal, h v hv, at?, and_assoc]
    | _ => exact ⟨False, fun v _ => iff_of_false Bool.false_ne_true (fun h => h.1)⟩

/-! ## Blobs and vectors of bytes -/

theorem equal_ofByte {b : UInt8} {v : Value} (h : (ofByte b).equal v = true)
    (hv : ∀ n, number n ≠ v) : v = ofByte b := by
  cases (equal_iff _ _).mp h with
  | intNumber => exact absurd rfl (hv _)
  | ints => rfl

theorem equal_ofBytes_vec_iff (bytes : Bytes) {items : List Value} (h : ∀ n, number n ∉ items) :
    (ofBytes bytes).equal (vec items) = true ↔ items = bytes.map ofByte := by
  constructor
  · intro hequal
    have hitems := (equalAll_iff _ _).mp hequal
    rw [List.forall₂_map_left_iff] at hitems
    have heq := forall₂_imp_of_mem hitems fun b _ v hv hbv =>
      equal_ofByte hbv fun n hn => h n (hn ▸ hv)
    exact (List.forall₂_eq_eq_eq ▸ List.forall₂_map_right_iff.mpr heq.flip :)
  · rintro rfl
    have hself (b : UInt8) : (ofByte b).equal (ofByte b) = true := by simp [ofByte, equal]
    refine (equalAll_iff _ _).mpr (List.forall₂_same.mpr ?_)
    exact List.forall_mem_map.mpr fun b _ => hself b

theorem equal_blob_vec_iff_eq (bytes : Bytes) {items : List Value} (h : ∀ v ∈ items, v.WellFormed) :
    (blob bytes).equal (vec items) = true ↔ items = bytes.map ofByte := by
  rw [equal_blob_vec_iff]
  exact ⟨eq_map_ofByte h, fun hitems => hitems ▸ mapM_byte?_ofByte bytes⟩

theorem equal_blob_iff (bytes : Bytes) {w : Value} (hw : w.WellFormed) :
    (blob bytes).equal w = true ↔
      (ofBytes bytes).equal w = true ∧ ∀ items, w = vec items → ∀ n, number n ∉ items := by
  cases w with
  | blob bytes' =>
    rw [ofBytes, equal_vec_blob_iff, mapM_byte?_ofByte]
    simp [equal]
  | vec items =>
    have hitems : ∀ v ∈ items, v.WellFormed := fun _ => hw.part
    rw [equal_blob_vec_iff_eq bytes hitems]
    constructor
    · rintro rfl
      have hnumber : ∀ n, number n ∉ bytes.map ofByte := by simp [ofByte]
      refine ⟨(equal_ofBytes_vec_iff bytes hnumber).mpr rfl, ?_⟩
      rintro _ ⟨⟩
      exact hnumber
    · rintro ⟨hequal, hnumber⟩
      exact (equal_ofBytes_vec_iff bytes (hnumber items rfl)).mp hequal
  | _ => simp [equal, ofBytes, sameLeaf]

/-- What is equal to a blob at some place is what is equal to the vector of its bytes there, unless it
has a vector with untyped numbers at that place. -/
theorem equal_fill_blob_iff (place : Place) (bytes : Bytes) (w : Value) (hw : w.WellFormed) :
    (place.fill (blob bytes)).equal w = true ↔
      (place.fill (ofBytes bytes)).equal w = true ∧
        ∀ items, place.at? w = some (vec items) → ∀ n, number n ∉ items := by
  obtain ⟨surroundings, h⟩ := exists_surroundings place w
  rw [h _ rfl, h _ rfl]
  cases hx : place.at? w with
  | none => simp
  | some x =>
    have hbase := equal_blob_iff bytes (hw.within (Place.within_of_at? hx))
    simp [hbase, and_assoc]

/-- The key of an entry, which is a record of a key and a state. -/
def entryKey : Place := .record [] (.numbered 0) (.opt .here) [(.numbered 1, .bool true)]

def entryInItems : Value :=
  .record [(.numbered 0, .opt (.vec [.ofByte 1, .ofByte 255])), (.numbered 1, .bool true)]

/-- An entry with a blob as its key is equal to one that has the key in items. -/
theorem entry_equal : (entryKey.fill (blob [1, 255])).equal entryInItems = true := by
  refine (equal_fill_blob_iff entryKey [1, 255] entryInItems (by decide)).mpr ⟨by decide, ?_⟩
  rintro items ⟨⟩
  exact fun n hn => by simp [ofByte] at hn

/-- An untyped number counts as a byte in a vector, but not beside a blob. -/
theorem equal_blob_number :
    ¬((blob [1]).equal (vec [number 1]) = true ↔ (ofBytes [1]).equal (vec [number 1]) = true) := by
  decide

end Value

end CanisterShell.Candid
