import CanisterShell.Proofs.Candid.Casting
import CanisterShell.Proofs.Candid.Place

/-!
# Blobs and vectors of bytes in casts and messages

A blob and the vector of its bytes are one value in two forms.  Operations end alike on both: with
results that differ in this form at most, or with failures that name the operand in its own form
(`RepackedEnd`).  A cast does so at every type (`cast_repacked`), and encoding at declared types gives
the same bytes (`encodeAs_repacked`).
-/

namespace CanisterShell

open Candid
open List (Forall₂)

namespace Candid.Value

/-- The values are the same, unless the first is a blob and the second the vector of its bytes. -/
inductive Repacked : Value → Value → Prop
  | same (v : Value) : Repacked v v
  | bytes (bytes : Bytes) : Repacked (blob bytes) (ofBytes bytes)

end Candid.Value

/-- The failures are the same, unless they name such values as what a selector, a cast or a message
does not take. -/
inductive Failure.Repacked : Failure → Failure → Prop
  | same (f : Failure) : Repacked f f
  | selector (s : SelectorName) {v w : Value} : v.Repacked w →
    Repacked (.error (.selector (.mismatch s v))) (.error (.selector (.mismatch s w)))
  | notCastable {v w : Value} (t : Ty) : v.Repacked w →
    Repacked (.cast (.notCastable v t)) (.cast (.notCastable w t))
  | mismatch {v w : Value} (t : Ty) : v.Repacked w →
    Repacked (.cast (.mismatch v t)) (.cast (.mismatch w t))

/-- Both have failed so, or both have results and these are related. -/
inductive RepackedEnd {α : Type} (Q : α → α → Prop) : Attempt α → Attempt α → Prop
  | ok {a b : α} : Q a b → RepackedEnd Q (.ok a) (.ok b)
  | error {f g : Failure} : f.Repacked g → RepackedEnd Q (.error f) (.error g)

namespace RepackedEnd

variable {α β : Type} {Q : α → α → Prop} {R : β → β → Prop}

theorem refl (hQ : ∀ a, Q a a) (x : Attempt α) : RepackedEnd Q x x := by
  cases x with
  | ok a => exact .ok (hQ a)
  | error f => exact .error (.same f)

theorem of_eq {x y : Attempt α} (hQ : ∀ a, Q a a) (h : x = y) : RepackedEnd Q x y :=
  h ▸ refl hQ x

theorem bind {x y : Attempt α} {next next' : α → Attempt β} (h : RepackedEnd Q x y)
    (h' : ∀ a b, Q a b → RepackedEnd R (next a) (next' b)) :
    RepackedEnd R (x >>= next) (y >>= next') := by
  cases h with
  | ok hab => exact h' _ _ hab
  | error hfg => exact .error hfg

theorem bind_eq {x : Attempt α} {next next' : α → Attempt β}
    (h : ∀ a, x = .ok a → RepackedEnd R (next a) (next' a)) :
    RepackedEnd R (x >>= next) (x >>= next') := by
  cases x with
  | ok a => exact h a rfl
  | error f => exact .error (.same f)

theorem mapM {f : α → Attempt β} {xs ys : List α}
    (h : Forall₂ (fun x y => RepackedEnd Eq (f x) (f y)) xs ys) :
    RepackedEnd Eq (xs.mapM f) (ys.mapM f) := by
  induction h with
  | nil => exact refl (fun _ => rfl) _
  | cons hxy _ ih =>
    rw [List.mapM_cons, List.mapM_cons]
    refine hxy.bind ?_
    rintro b _ rfl
    refine ih.bind ?_
    rintro bs _ rfl
    exact .ok rfl

end RepackedEnd

namespace Candid

/-! ## Casts -/

namespace Value

variable {scope : Scope} {t item : Ty}

theorem cast_ofByte (scope : Scope) (b : UInt8) (t : Ty) :
    (ofByte b).cast scope t = (scope.resolve t >>= fun u => castNumber (ofByte b) u) := by
  rw [cast]
  rfl

theorem castAll_ofByte (scope : Scope) (bytes : Bytes) (t : Ty) :
    castAll scope (bytes.map ofByte) t =
      bytes.mapM fun b => scope.resolve t >>= fun u => castNumber (ofByte b) u := by
  rw [castAll_eq_mapM, List.mapM_map]
  exact congrArg (bytes.mapM ·) (funext fun b => cast_ofByte scope b t)

theorem holds_byte (b : UInt8) : IntKind.nat8.holds b.toNat = true := by
  cases ofByte_proper b with
  | int h => exact h

theorem castNumber_ofByte (b : UInt8) : castNumber (ofByte b) .nat8 = .ok (ofByte b) :=
  if_pos (holds_byte b)

theorem blobOf_ofByte (bytes : Bytes) : blobOf (bytes.map ofByte) = blob bytes := by
  have hbytes : (byte? ∘ ofByte) = some := funext byte?_ofByte
  rw [blobOf, List.filterMap_map, hbytes, List.filterMap_some]

theorem cast_blob_vec (ht : scope.resolve t = .ok (.vec item)) (bytes : Bytes) :
    (blob bytes).cast scope t = (ofBytes bytes).cast scope t := by
  rw [ofBytes, cast, cast, ht, Attempt.ok_bind, Attempt.ok_bind]
  dsimp only
  rw [castAll_ofByte]
  cases hitem : scope.resolve item with
  | error f =>
    -- the type of the items has no meaning, with items or without
    have hbyte : scope.isByte item = .error f := by rw [Scope.isByte, hitem]; rfl
    rw [hbyte]
    cases bytes <;> rfl
  | ok u =>
    have hbyte := Scope.isByte_of_resolve hitem
    rw [hbyte]
    cases hu : u.isByte with
    | false => rfl
    | true =>
      rw [hu] at hbyte
      obtain rfl : u = .nat8 := Except.ok.inj (hitem.symm.trans (Wire.resolve_of_isByte hbyte))
      simp only [Attempt.ok_bind, castNumber_ofByte, Attempt.mapM_eq_map (fun _ _ => rfl),
        blobOf_ofByte]

theorem castOther_repacked (bytes : Bytes) (t : Ty) :
    RepackedEnd Repacked (castOther (blob bytes) t) (castOther (ofBytes bytes) t) := by
  cases t with
  | prim p =>
    cases p with
    | reserved => exact .ok (.same _)
    | _ => exact .error (.notCastable _ (.bytes bytes))
  | record | variant => exact .error (.same _)
  | _ => exact .error (.notCastable _ (.bytes bytes))

theorem castToText_ofBytes (bytes : Bytes) (t : Ty) :
    castToText (ofBytes bytes) t = castToText (blob bytes) t := by
  rw [castToText, ofBytes, bytes?, mapM_byte?_ofByte]
  rfl

/-- A blob is cast like the vector of its bytes. -/
theorem cast_repacked (scope : Scope) (bytes : Bytes) (t : Ty) :
    RepackedEnd Repacked ((blob bytes).cast scope t) ((ofBytes bytes).cast scope t) := by
  cases ht : scope.resolve t with
  | error f =>
    rw [ofBytes, cast, cast, ht]
    exact .error (.same f)
  | ok u =>
    cases u with
    | vec item => exact .of_eq .same (cast_blob_vec ht bytes)
    | prim p =>
      rw [ofBytes, cast, cast, ht, Attempt.ok_bind, Attempt.ok_bind]
      cases p with
      | text => exact .of_eq .same (castToText_ofBytes bytes .text).symm
      | _ => exact castOther_repacked bytes _
    | _ =>
      rw [ofBytes, cast, cast, ht, Attempt.ok_bind, Attempt.ok_bind]
      exact castOther_repacked bytes _

end Value

/-! ## Messages -/

namespace Wire

variable {scope wire : Scope} {t u : Ty}

theorem itemsBytes_ofByte (ht : scope.resolve t = .ok .nat8) (bytes : Bytes) :
    itemsBytes scope (bytes.map .ofByte) t = .ok bytes := by
  have hitem (b : UInt8) : valueBytes scope (.ofByte b) t = .ok [b] := by
    obtain ⟨item, hitem⟩ := exists_integerBytes (Value.holds_byte b)
    obtain rfl : item = [b] := by simpa using integerBytes_nat8 hitem
    simp only [Value.ofByte, valueBytes, ht, Attempt.ok_bind]
    exact hitem
  induction bytes with
  | nil => rfl
  | cons b bytes ih =>
    simp only [List.map_cons, itemsBytes, hitem, ih, Attempt.ok_bind]
    rfl

theorem valueBytes_repacked (hagree : Agree scope wire t u) {v w : Value} (h : v.Repacked w) :
    RepackedEnd Eq (valueBytes scope v t) (valueBytes scope w t) := by
  cases h with
  | same => exact .refl (fun _ => rfl) _
  | bytes bytes =>
    obtain ⟨t', u', ht, -, hhead⟩ := hagree.head
    have other : RepackedEnd (α := Bytes) Eq (mismatch (.blob bytes) t')
        (mismatch (.ofBytes bytes) t') := .error (.mismatch t' (.bytes bytes))
    cases hhead with
    | @vec item _ hitem =>
      obtain ⟨isByte, hbyte, -, -⟩ := isByte_eq hitem
      cases isByte with
      | false => exact .of_eq (fun _ => rfl) (valueBytes_blob ht hbyte bytes)
      | true =>
        refine .of_eq (fun _ => rfl) ?_
        simp only [Value.ofBytes, valueBytes, ht, hbyte, Attempt.ok_bind, List.length_map,
          itemsBytes_ofByte (resolve_of_isByte hbyte)]
        rfl
    | prim p =>
      simp only [Value.ofBytes, valueBytes, ht, Attempt.ok_bind]
      cases p with
      | reserved => exact .ok rfl
      | _ => exact other
    | _ =>
      simp only [Value.ofBytes, valueBytes, ht, Attempt.ok_bind]
      exact other

theorem zip_repacked {types us : List Ty} (hagree : Forall₂ (Agree scope wire) types us)
    {vs ws : List Value} (h : Forall₂ Value.Repacked vs ws) :
    Forall₂ (fun x y => RepackedEnd Eq (valueBytes scope x.1 x.2) (valueBytes scope y.1 y.2))
      (vs.zip types) (ws.zip types) := by
  induction h generalizing types us with
  | nil => exact .nil
  | cons hvw _ ih =>
    cases hagree with
    | nil => exact .nil
    | cons htu hagree => exact .cons (valueBytes_repacked htu hvw) (ih hagree)

end Wire

/-- Messages at declared types have the same bytes whichever form their arguments are in. -/
theorem encodeAs_repacked {scope : Scope} (hscope : scope.Ordered) {types : List Ty}
    (htypes : ∀ t ∈ types, t.Ordered) {vs ws : List Value} (h : Forall₂ Value.Repacked vs ws) :
    RepackedEnd Eq (encodeAs scope vs types) (encodeAs scope ws types) := by
  rw [encodeAs, encodeAs, h.length_eq]
  split
  case isTrue => exact .error (.same _)
  case isFalse =>
    refine .bind_eq ?_
    rintro ⟨refs, table⟩ hrefs
    -- types that have a table have meanings, down to those of the items of an empty vector
    obtain ⟨wire, us, -, hagree⟩ := Wire.readHeader_takes hscope htypes hrefs
    refine (RepackedEnd.mapM (Wire.zip_repacked hagree h)).bind ?_
    rintro parts _ rfl
    exact .ok rfl

end Candid

end CanisterShell
