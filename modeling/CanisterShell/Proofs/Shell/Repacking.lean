import CanisterShell.Proofs.Candid.Repacking
import CanisterShell.Proofs.Shell.Restoring
import CanisterShell.Proofs.Shell.Soundness

/-!
# Blobs and vectors of bytes in scripts

A step of a path does the same with a blob and with the vector of its bytes: both have the same
elements, functions are applied to them in the same states, and what is put together anew from
results that are bytes is a blob or the vector of these bytes (`step_repacked`).  So does putting one
value behind another (`concatOf_repacked`).  Together with casts and messages this is all that a
script does with blobs as such (`blob_repacked`).
-/

namespace CanisterShell

open Candid Syntax
open Value (Repacked ofBytes ofByte)

/-- Started where `I` holds, both actions end in the same state, with results or failures that differ
by a blob and the vector of its bytes at most. -/
def RepackedRuns {τ : Type} (I : τ → Prop) (act act' : ExceptT Failure (StateM τ) Value) : Prop :=
  ∀ s, I s → RepackedEnd Repacked (act.run.run s).1 (act'.run.run s).1 ∧
    (act.run.run s).2 = (act'.run.run s).2

namespace RepackedRuns

variable {τ α : Type} {I : τ → Prop}

theorem refl (act : ExceptT Failure (StateM τ) Value) : RepackedRuns I act act :=
  fun _ _ => ⟨.refl .same _, rfl⟩

theorem throw {f g : Failure} (h : f.Repacked g) :
    RepackedRuns I (MonadExcept.throw f) (MonadExcept.throw g) :=
  fun _ _ => ⟨.error h, rfl⟩

theorem attempt {x y : Attempt Value} (h : RepackedEnd Repacked x y) :
    RepackedRuns I (liftM x) (liftM y) := by
  cases h with
  | ok h => exact fun _ _ => ⟨.ok h, rfl⟩
  | error h => exact throw h

theorem bind {act : ExceptT Failure (StateM τ) α} {Q : α → Prop}
    {next next' : α → ExceptT Failure (StateM τ) Value} (h : Keeps I act Q)
    (h' : ∀ a, Q a → RepackedRuns I (next a) (next' a)) :
    RepackedRuns I (act >>= next) (act >>= next') := by
  intro s hs
  obtain ⟨hs', hQ⟩ := h s hs
  match hr : act.run.run s with
  | (.ok a, s') =>
    rw [hr] at hs' hQ
    rw [Gives.run_bind hr, Gives.run_bind hr]
    exact h' a (hQ a rfl) s' hs'
  | (.error f, s') =>
    rw [Gives.run_bind_of_error hr, Gives.run_bind_of_error hr]
    exact ⟨.error (.same f), rfl⟩

end RepackedRuns

/-! ## Steps into a value -/

namespace Selection

variable {σ : Type}

/-- Put together anew, bytes are a blob or their vector, and other items a vector. -/
theorem rebuild_repacked (bytes : Bytes) {items : List Value} (h : ∀ v ∈ items, v.WellFormed) :
    RepackedEnd Repacked (rebuild (.blob bytes) items) (rebuild (ofBytes bytes) items) := by
  change RepackedEnd Repacked (rebuild (.blob bytes) items) (.ok (.vec items))
  rw [rebuild]
  split
  case h_1 bytes' hbytes =>
    rw [Value.eq_map_ofByte h hbytes]
    exact .ok (.bytes bytes')
  case h_2 => exact .ok (.same _)

variable {eval : Exp → Running σ Value}
  (h : ∀ {P : String → Prop}, Admits P → ∀ {e : Exp}, e.Sound →
    Keeps (Holds P) (eval e) Value.Proper)
  {P : String → Prop} (hP : Admits P)
include h hP

/-- A step into a blob is a step into the vector of its bytes. -/
theorem step_repacked (bytes : Bytes) (s : Selector) :
    RepackedRuns (Holds P) (step eval (.blob bytes) s) (step eval (ofBytes bytes) s) := by
  have again {act : Running σ (List Value)}
      (hact : Keeps (Holds (WithElement P)) act (∀ w ∈ ·, w.Proper)) :
      RepackedRuns (Holds P) (Running.inChild id act >>= fun ws => rebuild (.blob bytes) ws)
        (Running.inChild id act >>= fun ws => rebuild (ofBytes bytes) ws) := by
    refine .bind (holds_inChild hact fun _ henv => henv.imp fun _ => .inr) fun ws hws => ?_
    exact .attempt (rebuild_repacked bytes fun w hw => (hws w hw).wellFormed)
  have hitems : ∀ v ∈ bytes.map ofByte, v.Proper :=
    List.forall_mem_map.mpr fun b _ => Value.ofByte_proper b
  cases s with
  | index e => exact .refl _
  | field label => exact .throw (.selector _ (.bytes bytes))
  | unwrap => exact .throw (.selector _ (.bytes bytes))
  | size => exact .refl _
  | map function => exact again (.mapM fun v hv => holds_applyTo h hP function (hitems v hv))
  | filter function =>
    exact again (.filterM (fun v hv => holds_keeps h hP function (hitems v hv)) hitems)
  | fold start function => exact .refl _

end Selection

/-! ## One value behind another -/

namespace Builtin

variable {bytes : Bytes} {w : Value}

theorem bytes?_ofBytes (bytes : Bytes) : (ofBytes bytes).bytes? = some bytes :=
  Value.mapM_byte?_ofByte bytes

theorem itemsOf_of_bytes? (h : w.WellFormed) (hbytes : w.bytes? = some bytes) :
    itemsOf w = bytes.map ofByte := by
  cases w with
  | blob bytes' =>
    cases hbytes
    rfl
  | vec items => exact Value.eq_map_ofByte (fun _ => h.part) hbytes
  | _ => cases hbytes

/-- One row behind another is the vector of the items of both, or the blob of their bytes. -/
theorem joinItems_repacked {v : Value} (hv : v.WellFormed) (hw : w.WellFormed) :
    (joinItems v w).Repacked (.vec (itemsOf v ++ itemsOf w)) := by
  unfold joinItems
  split
  case h_1 a b ha hb =>
    rw [itemsOf_of_bytes? hv ha, itemsOf_of_bytes? hw hb, ← List.map_append]
    exact .bytes (a ++ b)
  case h_2 => exact .same _

theorem blob_wellFormed (bytes : Bytes) : (Value.blob bytes).WellFormed :=
  (Value.wellFormed_iff _).mpr ⟨trivial, nofun⟩

/-- A blob behind another value, or before it, is the vector of its bytes there. -/
theorem concatOf_repacked (bytes : Bytes) (h : w.WellFormed) :
    RepackedEnd Repacked (concatOf (.blob bytes) w) (concatOf (ofBytes bytes) w) ∧
      RepackedEnd Repacked (concatOf w (.blob bytes)) (concatOf w (ofBytes bytes)) := by
  cases w with
  | vec items =>
    exact ⟨.ok (joinItems_repacked (blob_wellFormed bytes) h),
      .ok (joinItems_repacked h (blob_wellFormed bytes))⟩
  | blob bytes' =>
    -- beside a blob both are taken for bytes
    have hleft : joinItems (ofBytes bytes) (.blob bytes') = .blob (bytes ++ bytes') := by
      rw [joinItems, bytes?_ofBytes]
      rfl
    have hright : joinItems (.blob bytes') (ofBytes bytes) = .blob (bytes' ++ bytes) := by
      rw [joinItems, bytes?_ofBytes]
      rfl
    exact ⟨.of_eq .same (congrArg Except.ok hleft.symm),
      .of_eq .same (congrArg Except.ok hright.symm)⟩
  | _ => exact ⟨.error (.same _), .error (.same _)⟩

end Builtin

/-! ## All together -/

/-- What a script does with a blob it does with the vector of its bytes, up to the same change in the
result or in the operand that a failure names: in any step of a path (an index, the size, and
applying functions by mapping, filtering and folding), from any state; put before or behind any value;
cast to any type; and sent among other arguments at any declared types, where the bytes are the
same. -/
theorem blob_repacked (bytes : Bytes) :
    (∀ {σ : Type} (S : Setting σ) (depth : Nat) (s : Selector),
      RepackedRuns (Holds fun _ => True) (Selection.step (evalWithin S depth) (.blob bytes) s)
        (Selection.step (evalWithin S depth) (ofBytes bytes) s)) ∧
      (∀ w : Value, w.WellFormed →
        RepackedEnd Repacked (Builtin.concatOf (.blob bytes) w)
          (Builtin.concatOf (ofBytes bytes) w) ∧
        RepackedEnd Repacked (Builtin.concatOf w (.blob bytes))
          (Builtin.concatOf w (ofBytes bytes))) ∧
      (∀ (scope : Scope) (t : Ty),
        RepackedEnd Repacked ((Value.blob bytes).cast scope t) ((ofBytes bytes).cast scope t)) ∧
      (∀ (scope : Scope) (types : List Ty) (before after : List Value), scope.Ordered →
        (∀ t ∈ types, t.Ordered) →
        RepackedEnd Eq (encodeAs scope (before ++ .blob bytes :: after) types)
          (encodeAs scope (before ++ ofBytes bytes :: after) types)) := by
  refine ⟨fun S depth s => ?step, fun w hw => Builtin.concatOf_repacked bytes hw,
    fun scope t => Value.cast_repacked scope bytes t, ?encode⟩
  case step =>
    exact Selection.step_repacked (sound_within S depth).eval (fun _ _ => trivial) bytes s
  case encode =>
    intro scope types before after hscope htypes
    refine encodeAs_repacked hscope htypes ?_
    have same (vs : List Value) : List.Forall₂ Repacked vs vs :=
      List.forall₂_same.mpr fun v _ => .same v
    exact List.rel_append (same before) (.cons (.bytes bytes) (same after))

/-- A key of two bytes: turned into texts byte by byte, put behind another byte, cast to a text and
sent between other arguments. -/
theorem key_repacked :
    let state := ((bareShell ⟨[], []⟩).env, (bareShell ⟨[], []⟩).session)
    let texts (v : Value) :=
      (Selection.step (evalWithin bareSetting 2) v (.map "stringify")).run.run state
    texts (.blob [104, 105]) = (.ok (.vec [.text "104", .text "105"]), state) ∧
      RepackedEnd Repacked (texts (.blob [104, 105])).1 (texts (ofBytes [104, 105])).1 ∧
      RepackedEnd Repacked (Builtin.concatOf (.vec [ofByte 1]) (.blob [104, 105]))
        (Builtin.concatOf (.vec [ofByte 1]) (ofBytes [104, 105])) ∧
      RepackedEnd Repacked ((Value.blob [104, 105]).cast [] .text)
        ((ofBytes [104, 105]).cast [] .text) ∧
      RepackedEnd Eq
        (encodeAs [] ([.bool true] ++ .blob [104, 105] :: [.null]) [.bool, .blob, .null])
        (encodeAs [] ([.bool true] ++ ofBytes [104, 105] :: [.null]) [.bool, .blob, .null]) := by
  intro state texts
  have ⟨hstep, hconcat, hcast, hencode⟩ := blob_repacked [104, 105]
  have hsound : Holds (fun _ => True) state :=
    { distinct := .nil, name := nofun, proper := nofun, functions := nofun }
  refine ⟨rfl, (hstep bareSetting 2 (.map "stringify") state hsound).1,
    (hconcat (.vec [ofByte 1]) (by decide)).2, hcast [] .text, ?_⟩
  refine hencode [] _ _ _ nofun ?_
  simp only [List.forall_mem_cons]
  exact ⟨.prim _, .vec (.prim _), .prim _, nofun⟩

end CanisterShell
