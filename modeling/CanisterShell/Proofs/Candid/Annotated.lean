import CanisterShell.Proofs.Candid.Casting

/-!
# Annotated values are sent alike

A cast and a writer have their own views of the values that a type admits, and neither takes all that
the other does: bytes can be cast to text but not be written as one, a principal can be written where a
service is expected but no service as a principal.  Where both take a value, at a type without
floating-point numbers, the writer makes the same bytes of the value and of what the cast makes of it
(`encodeAs_cast`).
-/

namespace CanisterShell.Candid

open List (Forall₂)

namespace Wire

open Value (IsLeaf Inhabits)

variable {scope : Scope} {t u : Ty} {v w : Value}

/-- Whatever bytes a value is written as, the other is written as too. -/
def SentAlike (scope : Scope) (t : Ty) (v w : Value) : Prop :=
  ∀ bytes, valueBytes scope v t = .ok bytes → valueBytes scope w t = .ok bytes

/-! ## Values without parts -/

theorem valueBytes_reserved (hu : scope.resolve t = .ok .reserved) (v : Value) :
    valueBytes scope v t = .ok [] := by
  cases v <;> simp only [valueBytes, hu, Attempt.ok_bind] <;> rfl

theorem valueBytes_of_isLeaf (hu : scope.resolve t = .ok u) (h : w.IsLeaf u) :
    valueBytes scope w t = leafBytes w u := by
  cases h <;> simp only [valueBytes, hu, Attempt.ok_bind]

theorem castNumber_leafBytes (hfloat : ∀ kind, u ≠ .prim (.float kind)) (v : Value) :
    (v.castNumber u).Gives fun w => ∀ bytes, leafBytes v u = .ok bytes → leafBytes w u = .ok bytes := by
  unfold Value.castNumber
  split
  · next kind =>
    intro w hw bytes hbytes
    cases v with
    | number n | int _ n =>
      replace hw : Value.mkInt kind n = .ok w := hw
      rw [Value.mkInt] at hw
      split at hw
      · cases hw
        exact hbytes
      · cases hw
    | _ => cases hbytes
  · exact absurd rfl (hfloat _)
  · exact .ok fun _ => id
  · exact .error _
  · exact .error _
  · exact .error _

theorem castId_leafBytes {p : Principal}
    (hv : v = .principal p ∨ v = .service p ∨ ∃ method, v = .func p method) :
    (v.castId p u).Gives fun w => ∀ bytes, leafBytes v u = .ok bytes → leafBytes w u = .ok bytes := by
  unfold Value.castId
  split
  · refine .ok ?_
    intro bytes hbytes
    rcases hv with rfl | rfl | ⟨method, rfl⟩
    · exact hbytes
    · cases hbytes
    · cases hbytes
  · refine .ok ?_
    intro bytes hbytes
    rcases hv with rfl | rfl | ⟨method, rfl⟩
    · exact hbytes
    · exact hbytes
    · cases hbytes
  · exact .ok fun _ => id
  · exact .ok fun _ => id
  · exact .error _
  · exact .error _
  · exact .error _

namespace SentAlike

theorem castOther (hu : scope.resolve t = .ok u) (v : Value) :
    (v.castOther u).Gives (SentAlike scope t v) := by
  unfold Value.castOther
  split
  · refine .ok ?_
    intro bytes hbytes
    rwa [valueBytes_reserved hu] at hbytes ⊢
  · exact .ok fun _ => id
  · exact .ok fun _ => id
  · exact .ok fun _ => id
  · exact .error _
  · exact .error _
  · exact .error _

theorem castNumber (hu : scope.resolve t = .ok u) (hfloat : ∀ kind, u ≠ .prim (.float kind))
    (hv : valueBytes scope v t = leafBytes v u) : (v.castNumber u).Gives (SentAlike scope t v) := by
  intro w hw bytes hbytes
  rw [valueBytes_of_isLeaf hu (Value.castNumber_isLeaf hfloat v w hw)]
  exact castNumber_leafBytes hfloat v w hw bytes (hv ▸ hbytes)

theorem castBytes (hfloat : scope.FloatFree t) (data : Bytes) :
    (data.mapM fun b => do Value.castNumber (.ofByte b) (← scope.resolve t)).Gives
      (Forall₂ (SentAlike scope t) (data.map .ofByte)) := by
  intro ws hws
  rw [List.forall₂_map_left_iff]
  refine (Attempt.mapM_ok_iff.mp hws).imp ?_
  intro b w hw
  obtain ⟨u, hu, hw⟩ := Attempt.bind_ok_iff.mp hw
  refine castNumber hu (hfloat.ne_float hu) ?_ w hw
  simp only [Value.ofByte, valueBytes, hu, Attempt.ok_bind]

theorem castId {p : Principal} (hu : scope.resolve t = .ok u)
    (hv : v = .principal p ∨ v = .service p ∨ ∃ method, v = .func p method) :
    (v.castId p u).Gives (SentAlike scope t v) := by
  intro w hw bytes hbytes
  rw [valueBytes_of_isLeaf hu (Value.castId_isLeaf v p u w hw)]
  refine castId_leafBytes hv w hw bytes ?_
  rw [← hbytes]
  rcases hv with rfl | rfl | ⟨method, rfl⟩ <;> simp only [valueBytes, hu, Attempt.ok_bind]

end SentAlike

/-! ## Options and vectors -/

theorem itemsBytes_of_inhabits (ht : scope.resolve t = .ok .nat8) {ws : List Value}
    (h : ∀ w ∈ ws, Inhabits scope w t) :
    (ws.filterMap Value.byte?).length = ws.length ∧
      itemsBytes scope ws t = .ok (ws.filterMap Value.byte?) := by
  induction ws with
  | nil => exact ⟨rfl, rfl⟩
  | cons w ws ih =>
    obtain ⟨hw, hws⟩ := List.forall_mem_cons.mp h
    obtain ⟨hlength, hitems⟩ := ih hws
    obtain ⟨n, hn, rfl⟩ : ∃ n, IntKind.nat8.holds n ∧ w = .int .nat8 n := by
      cases hw with
      | leaf hu hleaf =>
        rw [ht] at hu
        cases hu
        cases hleaf with
        | int hn => exact ⟨_, hn, rfl⟩
      | opt hu _ | vec hu _ _ | blob _ hu _ =>
        rw [ht] at hu
        cases hu
    obtain ⟨bytes, hbytes⟩ := exists_integerBytes hn
    have hbyte : valueBytes scope (.int .nat8 n) t = .ok [UInt8.ofNat n.toNat] := by
      rw [valueBytes_of_isLeaf ht (.int hn), ← integerBytes_nat8 hbytes]
      exact hbytes
    rw [List.filterMap_cons_some (f := Value.byte?) rfl]
    refine ⟨congrArg (· + 1) hlength, ?_⟩
    simp only [itemsBytes, hbyte, hitems, Attempt.ok_bind]
    rfl

namespace SentAlike

theorem opt {item : Ty} (hu : scope.resolve t = .ok (.opt item)) (h : SentAlike scope item v w) :
    SentAlike scope t (.opt v) (.opt w) := by
  intro bytes hbytes
  simp only [valueBytes, hu, Attempt.ok_bind] at hbytes ⊢
  obtain ⟨inner, hinner, hbytes⟩ := Attempt.bind_ok_iff.mp hbytes
  exact Attempt.bind_ok_iff.mpr ⟨inner, h inner hinner, hbytes⟩

theorem items {vs ws : List Value} (h : Forall₂ (SentAlike scope t) vs ws) {bytes : Bytes}
    (hbytes : itemsBytes scope vs t = .ok bytes) : itemsBytes scope ws t = .ok bytes := by
  induction h generalizing bytes with
  | nil => exact hbytes
  | cons hv _ ih =>
    simp only [itemsBytes] at hbytes ⊢
    obtain ⟨front, hfront, hbytes⟩ := Attempt.bind_ok_iff.mp hbytes
    obtain ⟨back, hback, hbytes⟩ := Attempt.bind_ok_iff.mp hbytes
    rw [hv front hfront, Attempt.ok_bind, ih hback]
    exact hbytes

theorem vec {item : Ty} {vs ws : List Value} (hu : scope.resolve t = .ok (.vec item))
    (h : Forall₂ (SentAlike scope item) vs ws) : SentAlike scope t (.vec vs) (.vec ws) := by
  intro bytes hbytes
  simp only [valueBytes, hu, Attempt.ok_bind] at hbytes ⊢
  obtain ⟨back, hback, hbytes⟩ := Attempt.bind_ok_iff.mp hbytes
  rw [← h.length_eq]
  exact Attempt.bind_ok_iff.mpr ⟨back, items h hback, hbytes⟩

theorem blobOf {item : Ty} {vs ws : List Value} (hu : scope.resolve t = .ok (.vec item))
    (hbyte : scope.isByte item = .ok true) (h : Forall₂ (SentAlike scope item) vs ws)
    (hws : ∀ w ∈ ws, Inhabits scope w item) : SentAlike scope t (.vec vs) (Value.blobOf ws) := by
  intro bytes hbytes
  obtain ⟨hlength, hitems⟩ := itemsBytes_of_inhabits (resolve_of_isByte hbyte) hws
  have hvec := vec hu h bytes hbytes
  simp only [valueBytes, hu, Attempt.ok_bind, hitems] at hvec
  simp only [Value.blobOf, valueBytes, hu, Attempt.ok_bind, hbyte, hlength]
  exact hvec

end SentAlike

mutual

theorem cast_sentAlike (v : Value) (t : Ty) (hfloat : scope.FloatFree t) :
    (v.cast scope t).Gives (SentAlike scope t v) := by
  rw [Value.cast]
  refine .bind_eq ?_
  intro u hu
  cases v with
  | null | reserved | nothing =>
    dsimp only
    split
    · refine .ok ?_
      intro bytes hbytes
      simp only [valueBytes, hu, Attempt.ok_bind] at hbytes ⊢
      exact hbytes
    · exact .castOther hu _
  | opt inner =>
    dsimp only
    split
    · have hitem := hfloat.component hu (.head _)
      exact (cast_sentAlike inner _ hitem).bind fun w hw => .ok (.opt hu hw)
    · exact .castOther hu _
  | text s =>
    dsimp only
    split
    · refine .bind_eq ?_
      intro b hb
      cases b with
      | true =>
        -- the writer takes a text at text only, as it takes no blob and no vector there
        refine .ok ?_
        intro bytes hbytes
        simp only [valueBytes, hu] at hbytes
        cases hbytes
      | false =>
        rw [if_neg Bool.false_ne_true]
        exact .castOther hu _
    · exact .castOther hu _
  | blob data =>
    dsimp only
    split
    · intro w _ bytes hbytes
      simp only [valueBytes, hu] at hbytes
      cases hbytes
    · next item =>
      have hitem := hfloat.component hu (.head _)
      refine .bind_eq ?_
      intro b hb
      cases b with
      | true => exact .ok fun _ => id
      | false =>
        rw [if_neg Bool.false_ne_true]
        refine (SentAlike.castBytes hitem data).bind fun ws hws => .ok ?_
        intro bytes hbytes
        rw [valueBytes_blob hu hb] at hbytes
        exact SentAlike.vec hu hws bytes hbytes
    · exact .castOther hu _
  | vec items =>
    dsimp only
    split
    · intro w _ bytes hbytes
      simp only [valueBytes, hu] at hbytes
      cases hbytes
    · next item =>
      have hitem := hfloat.component hu (.head _)
      have hitems (ws : List Value) (hws : Value.castAll scope items item = .ok ws) :
          Forall₂ (SentAlike scope item) items ws ∧ ∀ w ∈ ws, Inhabits scope w item :=
        ⟨castAll_sentAlike items item hitem ws hws, Value.castAll_inhabits items item hitem ws hws⟩
      refine Attempt.Gives.bind hitems ?_
      intro ws hws
      refine .bind_eq ?_
      intro b hb
      cases b with
      | true => exact .ok (.blobOf hu hb hws.1 hws.2)
      | false => exact .ok (.vec hu hws.1)
    · exact .castOther hu _
  | principal p => exact .castId hu (.inl rfl)
  | service p => exact .castId hu (.inr (.inl rfl))
  | func p m => exact .castId hu (.inr (.inr ⟨m, rfl⟩))
  | number | int | float =>
    refine .castNumber hu (hfloat.ne_float hu) ?_
    simp only [valueBytes, hu, Attempt.ok_bind]
  | bool | record | variant => exact .castOther hu _

theorem castAll_sentAlike (vs : List Value) (t : Ty) (hfloat : scope.FloatFree t) :
    (Value.castAll scope vs t).Gives (Forall₂ (SentAlike scope t) vs) := by
  cases vs with
  | nil =>
    rw [Value.castAll]
    exact .ok .nil
  | cons v rest =>
    rw [Value.castAll]
    exact (cast_sentAlike v t hfloat).bind fun w hw =>
      (castAll_sentAlike rest t hfloat).bind fun ws hws => .ok (.cons hw hws)

end

end Wire

/-- Where a value can be cast to a type and also be sent as it is, an annotation with the type does not
change what is sent. -/
theorem encodeAs_cast {scope : Scope} {t : Ty} (hfloat : scope.FloatFree t) {v w : Value}
    (hcast : v.cast scope t = .ok w) {bytes : Bytes} (h : encodeAs scope [v] [t] = .ok bytes) :
    encodeAs scope [w] [t] = .ok bytes := by
  rw [Wire.encodeAs_singleton] at h ⊢
  obtain ⟨⟨rs, table⟩, hrefs, h⟩ := Attempt.bind_ok_iff.mp h
  obtain ⟨part, hpart, h⟩ := Attempt.bind_ok_iff.mp h
  have hsent := Wire.cast_sentAlike v t hfloat w hcast part hpart
  rw [hrefs, Attempt.ok_bind]
  exact Attempt.bind_ok_iff.mpr ⟨part, hsent, h⟩

/-- Two numbers at a vector of bytes are sent as the blob that they are cast to. -/
theorem numbers_sent_as_blob :
    (Value.vec [.number 1, .int .nat16 255]).cast blobScope (.var "Blob") = .ok (.blob [1, 255]) ∧
      encodeAs blobScope [.vec [.number 1, .int .nat16 255]] [.var "Blob"] =
        .ok [68, 73, 68, 76, 1, 109, 123, 1, 0, 2, 1, 255] ∧
      encodeAs blobScope [.blob [1, 255]] [.var "Blob"] =
        .ok [68, 73, 68, 76, 1, 109, 123, 1, 0, 2, 1, 255] := by
  have hcast : (Value.vec [.number 1, .int .nat16 255]).cast blobScope (.var "Blob") =
      .ok (.blob [1, 255]) := by
    cbv
  have hencode : encodeAs blobScope [.vec [.number 1, .int .nat16 255]] [.var "Blob"] =
      .ok [68, 73, 68, 76, 1, 109, 123, 1, 0, 2, 1, 255] := by
    simp only [Wire.encodeAs_singleton, Wire.valueBytes, Wire.itemsBytes]
    cbv
  have hfloat : blobScope.FloatFree (.var "Blob") := blobScope_floatFree (by simp [blobTypes])
  exact ⟨hcast, hencode, encodeAs_cast hfloat hcast hencode⟩

end CanisterShell.Candid
