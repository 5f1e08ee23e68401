import CanisterShell.Proofs.Shell.Repacking

/-!
# Values one behind another

Texts, rows of items and records can be put one behind another, each behind its own kind.  A row comes
out as a blob if there is a blob among its parts and all its items are bytes; a part in the middle that
has ceased to be a blob holds an item that is no byte, and so does the whole.  Fields are put in order,
and no label may be there twice, whatever the parts that it comes from (`Value.mkRecord_ok_iff`).  So
parentheses do not matter (`concatOf_assoc`).
-/

namespace CanisterShell

open Candid

/-! ## Records of given fields -/

namespace Candid

variable {α : Type} {fields fields' : List (Label × α)}

theorem Ascending.eq_of_perm (h : Ascending fields) (h' : Ascending fields')
    (hperm : fields.Perm fields') : fields = fields' :=
  hperm.eq_of_pairwise (fun _ _ _ _ hlt hgt => absurd hgt (Nat.lt_asymm hlt)) h h'

theorem Ascending.nodup_ids (h : Ascending fields) : (fields.map (·.1.id)).Nodup :=
  List.pairwise_map.mpr (h.imp Nat.ne_of_lt)

theorem ascending_sortFields (h : (fields.map (·.1.id)).Nodup) : Ascending (Ty.sortFields fields) := by
  have hids : ((Ty.sortFields fields).map (·.1.id)).Nodup :=
    ((perm_sortBy _ fields).map _).nodup_iff.mpr h
  refine .of_sortFields ?_
  rw [Ty.repeatedLabel?, repeated?_of_pairwise (List.pairwise_map.mp hids)]
  rfl

/-- A record is made of fields exactly if they can be put in ascending order. -/
theorem Value.mkRecord_ok_iff {fields : List (Label × Value)} {v : Value} :
    mkRecord fields = .ok v ↔ ∃ sorted, Ascending sorted ∧ sorted.Perm fields ∧ v = .record sorted := by
  constructor
  · intro h
    rw [mkRecord] at h
    split at h
    case h_1 => cases h
    case h_2 hnone =>
      cases h
      exact ⟨_, .of_sortFields hnone, perm_sortBy _ fields, rfl⟩
  · rintro ⟨sorted, hsorted, hperm, rfl⟩
    have hasc := ascending_sortFields ((hperm.map _).nodup_iff.mp hsorted.nodup_ids)
    rw [mkRecord, hasc.repeatedLabel?_eq, hasc.eq_of_perm hsorted
      ((perm_sortBy _ fields).trans hperm.symm)]

end Candid

namespace Builtin

/-! ## Rows of items -/

/-- A row is a blob or a vector. -/
inductive IsRow : Value → Prop where
  | blob (bytes : Bytes) : IsRow (.blob bytes)
  | vec (items : List Value) : IsRow (.vec items)

def isBlob : Value → Bool
  | .blob _ => true
  | _ => false

/-- The row of some items: a blob, if it is to be one and all of them are bytes. -/
def rowOf (blob : Bool) (items : List Value) : Value :=
  match blob, items.mapM Value.byte? with
  | true, some bytes => .blob bytes
  | _, _ => .vec items

variable {v w u : Value} {items : List Value}

theorem isRow_rowOf (blob : Bool) (items : List Value) : IsRow (rowOf blob items) := by
  unfold rowOf
  split
  · exact .blob _
  · exact .vec _

theorem rowOf_of_mapM_none (blob : Bool) (h : items.mapM Value.byte? = none) :
    rowOf blob items = .vec items := by
  unfold rowOf
  rw [h]
  cases blob <;> rfl

/-- Whether a row is to be a blob matters only if all of its items are bytes. -/
theorem rowOf_congr {blob blob' : Bool}
    (h : ∀ bytes, items.mapM Value.byte? = some bytes → blob = blob') :
    rowOf blob items = rowOf blob' items := by
  cases hbytes : items.mapM Value.byte? with
  | none => rw [rowOf_of_mapM_none blob hbytes, rowOf_of_mapM_none blob' hbytes]
  | some bytes => rw [h bytes hbytes]

theorem isBlob_rowOf_of_mapM_some (blob : Bool) {bytes : Bytes}
    (h : items.mapM Value.byte? = some bytes) : isBlob (rowOf blob items) = blob := by
  unfold rowOf
  rw [h]
  cases blob <;> rfl

theorem itemsOf_rowOf (blob : Bool) (h : ∀ v ∈ items, v.WellFormed) :
    itemsOf (rowOf blob items) = items := by
  cases hbytes : items.mapM Value.byte? with
  | none => rw [rowOf_of_mapM_none blob hbytes, itemsOf]
  | some bytes =>
    unfold rowOf
    rw [hbytes]
    cases blob with
    | false => rfl
    | true => exact (Value.eq_map_ofByte h hbytes).symm

theorem mapM_byte?_append {vs ws : List Value} {bytes : Bytes}
    (h : (vs ++ ws).mapM Value.byte? = some bytes) :
    (∃ a, vs.mapM Value.byte? = some a) ∧ ∃ b, ws.mapM Value.byte? = some b := by
  rw [List.mapM_append, Option.bind_eq_bind, Option.bind_eq_some_iff] at h
  obtain ⟨a, ha, h⟩ := h
  obtain ⟨b, hb, -⟩ := Option.bind_eq_some_iff.mp h
  exact ⟨⟨a, ha⟩, b, hb⟩

theorem bytes?_of_isRow (h : IsRow v) : v.bytes? = (itemsOf v).mapM Value.byte? := by
  cases h with
  | blob bytes => exact (Value.mapM_byte?_ofByte bytes).symm
  | vec items => rfl

theorem ofByte_wellFormed (b : UInt8) : (Value.ofByte b).WellFormed := by
  have hrange : Value.InRange .nat8 b.toNat :=
    ⟨Int.natCast_nonneg _, by exact_mod_cast b.toNat_lt⟩
  exact (Value.wellFormed_iff _).mpr ⟨hrange, nofun⟩

theorem itemsOf_wellFormed (h : v.WellFormed) : ∀ w ∈ itemsOf v, w.WellFormed := by
  cases v with
  | vec items => exact fun _ => h.part
  | blob bytes =>
    rintro _ hw
    obtain ⟨b, -, rfl⟩ := List.mem_map.mp hw
    exact ofByte_wellFormed b
  | _ => nofun

/-! ## What is put one behind another -/

/-- The first value with the second one behind it is the third. -/
inductive Joins : Value → Value → Value → Prop where
  | text (a b : String) : Joins (.text a) (.text b) (.text (a ++ b))
  | row {v w : Value} (hv : IsRow v) (hw : IsRow w) :
      Joins v w (rowOf (isBlob v || isBlob w) (itemsOf v ++ itemsOf w))
  | record {fs gs sorted : List (Label × Value)} (hsorted : Ascending sorted)
      (hperm : sorted.Perm (fs ++ gs)) : Joins (.record fs) (.record gs) (.record sorted)

theorem joinItems_eq (hv : IsRow v) (hw : IsRow w) :
    joinItems v w = rowOf true (itemsOf v ++ itemsOf w) := by
  unfold rowOf
  rw [joinItems, bytes?_of_isRow hv, bytes?_of_isRow hw, List.mapM_append]
  cases (itemsOf v).mapM Value.byte? with
  | none => rfl
  | some a =>
    cases (itemsOf w).mapM Value.byte? with
    | none => rfl
    | some b => rfl

theorem concatOf_ok_iff : concatOf v w = .ok u ↔ Joins v w u := by
  constructor
  · intro h
    unfold concatOf at h
    split at h
    case h_1 a b =>
      cases h
      exact .text a b
    case h_2 a b =>
      rw [joinItems_eq (.blob a) (.blob b)] at h
      cases h
      exact .row (.blob a) (.blob b)
    case h_3 a ws =>
      rw [joinItems_eq (.blob a) (.vec ws)] at h
      cases h
      exact .row (.blob a) (.vec ws)
    case h_4 vs b =>
      rw [joinItems_eq (.vec vs) (.blob b)] at h
      cases h
      exact .row (.vec vs) (.blob b)
    case h_5 vs ws =>
      cases h
      exact .row (.vec vs) (.vec ws)
    case h_6 fs gs =>
      obtain ⟨sorted, hsorted, hperm, rfl⟩ := Value.mkRecord_ok_iff.mp h
      exact .record hsorted hperm
    case h_7 => cases h
  · intro h
    cases h with
    | text a b => rfl
    | row hv hw =>
      cases hv with
      | blob a =>
        cases hw with
        | blob b => exact congrArg Except.ok (joinItems_eq (.blob a) (.blob b))
        | vec ws => exact congrArg Except.ok (joinItems_eq (.blob a) (.vec ws))
      | vec vs =>
        cases hw with
        | blob b => exact congrArg Except.ok (joinItems_eq (.vec vs) (.blob b))
        | vec ws => rfl
    | record hsorted hperm => exact Value.mkRecord_ok_iff.mpr ⟨_, hsorted, hperm, rfl⟩

namespace Joins

theorem of_isRow (h : Joins v w u) (hv : IsRow v) :
    IsRow w ∧ u = rowOf (isBlob v || isBlob w) (itemsOf v ++ itemsOf w) := by
  cases h with
  | text => cases hv
  | row _ hw => exact ⟨hw, rfl⟩
  | record => cases hv

theorem of_isRow_right (h : Joins v w u) (hw : IsRow w) :
    IsRow v ∧ u = rowOf (isBlob v || isBlob w) (itemsOf v ++ itemsOf w) := by
  cases h with
  | text => cases hw
  | row hv _ => exact ⟨hv, rfl⟩
  | record => cases hw

theorem of_nodup {fs gs : List (Label × Value)} (h : ((fs ++ gs).map (·.1.id)).Nodup) :
    Joins (.record fs) (.record gs) (.record (Ty.sortFields (fs ++ gs))) :=
  .record (ascending_sortFields h) (perm_sortBy _ _)

end Joins

/-! ## Three values -/

variable {a b c : Value}

/-- Of three rows one behind another any two may be put together first. -/
theorem rowOf_rowOf (ha : a.WellFormed) (hb : b.WellFormed) (hc : c.WellFormed) :
    rowOf (isBlob (rowOf (isBlob a || isBlob b) (itemsOf a ++ itemsOf b)) || isBlob c)
        (itemsOf (rowOf (isBlob a || isBlob b) (itemsOf a ++ itemsOf b)) ++ itemsOf c) =
      rowOf (isBlob a || isBlob (rowOf (isBlob b || isBlob c) (itemsOf b ++ itemsOf c)))
        (itemsOf a ++ itemsOf (rowOf (isBlob b || isBlob c) (itemsOf b ++ itemsOf c))) := by
  have hab : ∀ v ∈ itemsOf a ++ itemsOf b, v.WellFormed :=
    List.forall_mem_append.mpr ⟨itemsOf_wellFormed ha, itemsOf_wellFormed hb⟩
  have hbc : ∀ v ∈ itemsOf b ++ itemsOf c, v.WellFormed :=
    List.forall_mem_append.mpr ⟨itemsOf_wellFormed hb, itemsOf_wellFormed hc⟩
  rw [itemsOf_rowOf _ hab, itemsOf_rowOf _ hbc, List.append_assoc]
  refine rowOf_congr fun bytes hbytes => ?_
  -- if all items are bytes, so are those of either pair, which stays the blob that it has become
  obtain ⟨-, s, hs⟩ := mapM_byte?_append hbytes
  rw [← List.append_assoc] at hbytes
  obtain ⟨⟨r, hr⟩, -⟩ := mapM_byte?_append hbytes
  rw [isBlob_rowOf_of_mapM_some _ hr, isBlob_rowOf_of_mapM_some _ hs, Bool.or_assoc]

/-- Three values can be put one behind another by putting the first two together first exactly if they
can by putting the last two together first, and what comes of it is the same value. -/
theorem concatOf_assoc (ha : a.WellFormed) (hb : b.WellFormed) (hc : c.WellFormed) (v : Value) :
    (do concatOf (← concatOf a b) c) = Except.ok v ↔
      (do concatOf a (← concatOf b c)) = Except.ok v := by
  simp only [Attempt.bind_ok_iff, concatOf_ok_iff]
  constructor
  · rintro ⟨ab, hab, h⟩
    cases hab with
    | text a b =>
      cases h with
      | text _ c =>
        rw [String.append_assoc]
        exact ⟨_, .text b c, .text a (b ++ c)⟩
      | row hv => cases hv
    | row hrow hrow' =>
      obtain ⟨hc', rfl⟩ := h.of_isRow (isRow_rowOf _ _)
      rw [rowOf_rowOf ha hb hc]
      exact ⟨_, .row hrow' hc', .row hrow (isRow_rowOf _ _)⟩
    | @record fs gs _ _ hperm =>
      cases h with
      | row hv => cases hv
      | @record _ hs sorted hsorted hperm' =>
        have hall : sorted.Perm (fs ++ (gs ++ hs)) := by
          rw [← List.append_assoc]
          exact hperm'.trans (hperm.append_right hs)
        have hnodup := (hall.map (·.1.id)).nodup_iff.mp hsorted.nodup_ids
        rw [List.map_append] at hnodup
        exact ⟨_, .of_nodup hnodup.of_append_right,
          .record hsorted (hall.trans ((perm_sortBy _ _).symm.append_left fs))⟩
  · rintro ⟨bc, hbc, h⟩
    cases hbc with
    | text b c =>
      cases h with
      | text a _ =>
        rw [← String.append_assoc]
        exact ⟨_, .text a b, .text (a ++ b) c⟩
      | row _ hw => cases hw
    | row hrow hrow' =>
      obtain ⟨ha', rfl⟩ := h.of_isRow_right (isRow_rowOf _ _)
      rw [← rowOf_rowOf ha hb hc]
      exact ⟨_, .row ha' hrow, .row (isRow_rowOf _ _) hrow'⟩
    | @record gs hs _ _ hperm =>
      cases h with
      | row _ hw => cases hw
      | @record fs _ sorted hsorted hperm' =>
        have hall : sorted.Perm ((fs ++ gs) ++ hs) := by
          rw [List.append_assoc]
          exact hperm'.trans (hperm.append_left fs)
        have hnodup := (hall.map (·.1.id)).nodup_iff.mp hsorted.nodup_ids
        rw [List.map_append] at hnodup
        exact ⟨_, .of_nodup hnodup.of_append_left,
          .record hsorted (hall.trans ((perm_sortBy _ _).symm.append_right hs))⟩

/-- Bytes, a text among them and a blob: the blob is lost on the one way, and never there on the other. -/
theorem concatOf_assoc_rows :
    let a : Value := .vec [.int .nat8 1]
    let b : Value := .blob [2]
    let c : Value := .vec [.text "x"]
    let v : Value := .vec [.int .nat8 1, .int .nat8 2, .text "x"]
    a.WellFormed ∧ b.WellFormed ∧ c.WellFormed ∧
      concatOf a b = .ok (.blob [1, 2]) ∧ concatOf b c = .ok (.vec [.int .nat8 2, .text "x"]) ∧
      (do concatOf (← concatOf a b) c) = Except.ok v ∧
      (do concatOf a (← concatOf b c)) = Except.ok v := by
  intro a b c v
  have ha : a.WellFormed := by decide
  have hb : b.WellFormed := by decide
  have hc : c.WellFormed := by decide
  have hleft : (do concatOf (← concatOf a b) c) = Except.ok v := rfl
  exact ⟨ha, hb, hc, rfl, rfl, hleft, (concatOf_assoc ha hb hc v).mp hleft⟩

end Builtin

end CanisterShell
