import CanisterShell.Proofs.Candid.Conforming
import CanisterShell.Proofs.Shell.Harmless

/-!
# Loose equality

A loose assertion compares two values once one has been cast to the type of the other, and goes by the
first cast that does not fail.  Such a cast can change a value, so that values which are equal need
not resemble each other, nor a value itself.  When they do is said by `resembles_iff`.
-/

namespace CanisterShell

open Candid
open Attempt (Foreseen)
open List (Forall₂)

namespace Candid.Value

variable {t : Ty} {v w : Value}

/-! ## Casts that fail with errors only -/

theorem foreseen_resolved {x : Ty → Attempt Value} (h : Foreseen (x t)) :
    Foreseen (Scope.resolve [] t >>= x) := by
  cases ht : Scope.resolve [] t with
  | error e => exact .error ((Scope.resolve_plain [] t).foreseen e ht)
  | ok u =>
    obtain rfl := Scope.resolve_nil ht
    exact h

theorem castItems_foreseen {vs : List Value} (h : ∀ x ∈ vs, Foreseen (x.cast [] t)) :
    Foreseen ((vec vs).cast [] (.vec t)) := by
  rw [cast]
  refine foreseen_resolved ?_
  dsimp only
  rw [castAll_eq_mapM]
  refine Attempt.Only.bind (.mapM h) fun us => ?_
  refine (Scope.isByte_plain [] t).foreseen.bind fun b => ?_
  split
  · exact .ok _
  · exact .ok _

theorem castInteger_foreseen {n : Int} (h : v.equal w = true) (hv : v.integer? = some n)
    (hw : w.conforms t = true) : Foreseen (castNumber v t) := by
  have hinteger := integer?_of_equal h hv
  refine castNumber_foreseen v ?_
  rintro kind rfl
  cases w with
  | number | int => cases hw
  | _ => cases hinteger

theorem castFloat_foreseen {kind : FloatKind} {x y : Double} (hnan : x.isNaN = false)
    (hrounded : Rounded (float kind x)) (hw : (float kind y).conforms t = true) :
    Foreseen (castNumber (float kind x) t) := by
  by_cases hfloat : ∃ kind', t = .prim (.float kind')
  · obtain ⟨kind', rfl⟩ := hfloat
    obtain rfl : kind = kind' := by simpa [conforms] using hw
    change Foreseen (mkFloat kind x)
    cases kind with
    | float64 => exact .ok _
    | float32 =>
      obtain ⟨bits, hsingle, -⟩ := toSingle?_of_rounded hrounded hnan
      rw [mkFloat, hsingle]
      exact .ok _
  · exact castNumber_foreseen _ fun kind h => hfloat ⟨kind, h⟩

theorem forall_of_forall₂ {α β : Type} {R : α → β → Prop} {P : α → Prop} {xs : List α} {ys : List β}
    (h : Forall₂ R xs ys) (himp : ∀ x ∈ xs, ∀ y ∈ ys, R x y → P x) : ∀ x ∈ xs, P x := by
  have hboth : Forall₂ (fun x y => P x ∧ R x y) xs ys :=
    forall₂_imp_of_mem h fun x hx y hy hxy => ⟨himp x hx y hy hxy, hxy⟩
  exact ((List.forall₂_and_left _ _).mp hboth).1

theorem castItems_foreseen_of_conforms {vs : List Value} (h : (vec vs).equal w = true)
    (hw : w.conforms (.vec t) = true)
    (hitems : ∀ x ∈ vs, ∀ y ∈ w.parts, x.equal y = true → y.conforms t = true →
      Foreseen (x.cast [] t)) :
    Foreseen ((vec vs).cast [] (.vec t)) := by
  cases hbyte : t.isByte with
  | true =>
    obtain rfl := eq_nat8_of_isByte hbyte
    exact cast_foreseen (vec vs) (t := .vec .nat8) rfl
  | false =>
    refine castItems_foreseen ?_
    cases (equal_iff _ _).mp h with
    | @vecBlob bytes _ hbytes =>
      -- only an empty blob conforms to such a type
      rw [conforms, hbyte, Bool.false_or, List.isEmpty_iff] at hw
      subst hw
      cases mapM_byte?_iff.mp hbytes
      exact List.forall_mem_nil _
    | @vecs _ ws hvw =>
      rw [conforms, hbyte, if_neg Bool.false_ne_true, allConform_iff] at hw
      exact forall_of_forall₂ hvw fun x hx y hy hxy => hitems x hx y hy hxy (hw y hy)

theorem castBytes_foreseen {bytes : Bytes} (h : (blob bytes).equal w = true) (hwell : w.WellFormed)
    (hw : w.conforms (.vec t) = true) : Foreseen ((blob bytes).cast [] (.vec t)) := by
  rw [cast_blob_vec (Scope.resolve_of_ne_var nofun), ofBytes]
  refine castItems_foreseen_of_conforms ((equal_blob_iff bytes hwell).mp h).1 hw ?_
  refine List.forall_mem_map.mpr fun b _ y _ hy hconforms => ?_
  rw [cast_ofByte]
  exact foreseen_resolved (castInteger_foreseen hy rfl hconforms)

/-- A value that is equal to one that conforms to a type is cast to it without a fault. -/
theorem cast_foreseen_of_conforms {v w : Value} (hwell : w.WellFormed) (hnan : v.NaNFree)
    (hrounded : v.Rounded) (h : v.equal w = true) (t : Ty) (hw : w.conforms t = true) :
    Foreseen (v.cast [] t) := by
  -- only numbers that are cast to floating-point ones can be beyond the range
  cases t with
  | prim p =>
    cases p with
    | float kind =>
      cases (equal_iff _ _).mp h with
      | float _ _ =>
        have hx := hnan.self
        rw [cast]
        exact foreseen_resolved (castFloat_foreseen (by simpa [isNoNaN] using hx) hrounded hw)
      | _ => cases hw
    | _ => exact cast_foreseen v rfl
  | opt item =>
    cases (equal_iff _ _).mp h with
    | nothing =>
      rw [cast]
      exact foreseen_resolved (.ok nothing)
    | opt hinner =>
      rw [cast]
      refine foreseen_resolved (Attempt.Only.bind ?_ fun _ => .ok _)
      exact cast_foreseen_of_conforms (hwell.part (.head _)) (hnan.part (.head _))
        (hrounded.part (.head _)) hinner item hw
    | _ => cases hw
  | vec item =>
    cases v with
    | blob bytes => exact castBytes_foreseen h hwell hw
    | vec vs =>
      refine castItems_foreseen_of_conforms h hw fun x hx y hy hxy hconforms => ?_
      exact cast_foreseen_of_conforms (hwell.part hy) (hnan.part hx) (hrounded.part hx) hxy item
        hconforms
    | _ =>
      cases (equal_iff _ _).mp h
      all_goals cases hw
  | _ => exact cast_foreseen v rfl

end Candid.Value

namespace Execution

open Value (NaNFree Rounded)

variable {v w : Value}

/-- The value is cast to the type. -/
def Casts (v : Value) (t : Ty) : Prop := ∃ u, v.cast [] t = .ok u

def CastFails (v : Value) (t : Ty) : Prop := ∃ e, v.cast [] t = .error (.error e)

theorem contains_self (s : List Char) : contains s s = true := by
  unfold contains
  simp

/-- Texts apart, a loose comparison goes by the first cast that does not fail. -/
theorem resembles_ok_iff (h : ∀ s, v ≠ .text s) {b : Bool} :
    resembles v w = .ok b ↔ equalAs? v w = .ok (some b) ∨
      (equalAs? v w = .ok none ∧ (equalAs? w v = .ok (some b) ∨
        (equalAs? w v = .ok none ∧ v.equal w = b))) := by
  unfold resembles
  split
  case h_1 s t => exact absurd rfl (h s)
  case h_2 =>
    cases equalAs? v w with
    | error f => exact iff_of_false nofun nofun
    | ok first =>
      rw [Attempt.ok_bind]
      cases first with
      | some c => simp [pure, Except.pure]
      | none =>
        cases equalAs? w v with
        | error f => exact iff_of_false nofun nofun
        | ok second =>
          rw [Attempt.ok_bind]
          cases second with
          | some c => simp [pure, Except.pure]
          | none => simp [pure, Except.pure]

theorem equalAs?_none_iff : equalAs? v w = .ok none ↔ CastFails v w.ty := by
  unfold equalAs? CastFails
  split
  case h_1 u hu => simp [hu]
  case h_2 e he => simp [he]
  case h_3 f hne hf => simpa [hf] using hne

theorem equalAs?_some_iff (h : v.equal w = true) (hw : w.WellFormed) (hnan : v.NaNFree)
    (hrounded : v.Rounded) {b : Bool} :
    equalAs? v w = .ok (some b) ↔ Casts v w.ty ∧ w.isOfOneType = b := by
  unfold equalAs? Casts
  split
  case h_1 u hu =>
    have hequal : u.equal w = w.isOfOneType := Value.cast_landsIn hw hnan hrounded h w.ty u hu
    simp [hu, hequal]
  case h_2 e he => simp [he]
  case h_3 f _ hf => simp [hf]

/-- Whether equal values resemble each other depends on which casts fail, and on whether the value that
is not cast is of one type. -/
theorem resembles_true_iff (h : v.equal w = true) (hv : v.WellFormed) (hw : w.WellFormed)
    (hvnan : v.NaNFree) (hwnan : w.NaNFree) (hvrounded : v.Rounded) (hwrounded : w.Rounded) :
    resembles v w = .ok true ↔
      (Casts v w.ty ∧ w.isOfOneType = true) ∨
        (CastFails v w.ty ∧ ((Casts w v.ty ∧ v.isOfOneType = true) ∨ CastFails w v.ty)) := by
  by_cases htext : ∃ s, v = .text s
  · obtain ⟨s, rfl⟩ := htext
    cases (Value.equal_iff _ _).mp h
    have hcast : Casts (.text s) .text := by
      refine ⟨.text s, ?_⟩
      rw [Value.cast, Scope.resolve_prim]
      rfl
    exact iff_of_true (congrArg Except.ok (contains_self s.toList)) (.inl ⟨hcast, rfl⟩)
  · rw [resembles_ok_iff fun s hs => htext ⟨s, hs⟩, equalAs?_none_iff, equalAs?_none_iff,
      equalAs?_some_iff h hw hvnan hvrounded,
      equalAs?_some_iff (Value.equal_symm h) hv hwnan hwrounded]
    simp only [h, and_true]

theorem casts_or_castFails (h : v.equal w = true) (hw : w.WellFormed) (hnan : v.NaNFree)
    (hrounded : v.Rounded) (hone : w.isOfOneType = true) : Casts v w.ty ∨ CastFails v w.ty := by
  have hcast := Value.cast_foreseen_of_conforms hw hnan hrounded h w.ty hone
  cases hu : v.cast [] w.ty with
  | ok u => exact .inl ⟨u, hu⟩
  | error f =>
    obtain ⟨e, rfl⟩ := hcast f hu
    exact .inr ⟨e, hu⟩

/-- Equal values resemble each other just if the one that is not cast is of one type, where one of
them can be cast to the type of the other, the first before the second; and so if both are of one
type. -/
theorem resembles_iff (h : v.equal w = true) (hv : v.WellFormed) (hw : w.WellFormed)
    (hvnan : v.NaNFree) (hwnan : w.NaNFree) (hvrounded : v.Rounded) (hwrounded : w.Rounded) :
    (resembles v w = .ok true ↔
      (Casts v w.ty ∧ w.isOfOneType = true) ∨
        (CastFails v w.ty ∧ ((Casts w v.ty ∧ v.isOfOneType = true) ∨ CastFails w v.ty))) ∧
    (v.isOfOneType = true → w.isOfOneType = true → resembles v w = .ok true) := by
  have hiff := resembles_true_iff h hv hw hvnan hwnan hvrounded hwrounded
  refine ⟨hiff, fun hvone hwone => hiff.mpr ?_⟩
  refine (casts_or_castFails h hw hvnan hvrounded hwone).imp (⟨·, hwone⟩) fun hfails => ?_
  have hback := casts_or_castFails (Value.equal_symm h) hv hwnan hwrounded hvone
  exact ⟨hfails, hback.imp_left (⟨·, hvone⟩)⟩

/-- A key in items resembles the same one in bytes. -/
theorem key_resembles :
    let inItems : Value := .opt (.vec [.int .nat8 1, .int .nat8 255])
    let inBytes : Value := .opt (.blob [1, 255])
    resembles inItems inBytes = .ok true := by
  intro inItems inBytes
  have hfloat : inItems.FloatFree ∧ inBytes.FloatFree := by decide
  exact (resembles_iff (by decide) (by decide) (by decide) hfloat.1.naNFree hfloat.2.naNFree
    hfloat.1.rounded hfloat.2.rounded).2 (by decide) (by decide)

/-- A vector of numbers of several types does not resemble itself: the cast makes them all numbers of
the type of the first. -/
theorem not_resembles_self :
    let v : Value := .vec [.int .nat 1, .int .nat8 2]
    v.WellFormed ∧ v.NaNFree ∧ v.Rounded ∧ v.equal v = true ∧ resembles v v = .ok false := by
  intro v
  have hfloat : v.FloatFree := by decide
  exact ⟨by decide, hfloat.naNFree, hfloat.rounded, by decide, by cbv⟩

end Execution

end CanisterShell
