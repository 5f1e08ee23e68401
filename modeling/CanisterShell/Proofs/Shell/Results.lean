import CanisterShell.Proofs.Candid.Proper
import CanisterShell.Proofs.Candid.Scope
import CanisterShell.Proofs.Shell.Keeping
import CanisterShell.Shell.Evaluation

/-!
# What functions and calls give

Built-in functions give proper values for proper arguments (`callBuiltin_proper`), and a call gives a
proper value whatever the agent replies (`call_proper`).  So do the steps of a path that take a value
apart or put one together anew (`fieldAt_proper`, `rebuild_proper`).
-/

namespace CanisterShell

open Candid
open Value (Proper)

/-! ## Parts of values -/

namespace Selection

open Syntax (Selector)

theorem items?_proper {v : Value} (h : v.Proper) {items : List Value} (hi : items? v = some items) :
    ∀ w ∈ items, w.Proper := by
  unfold items? at hi
  split at hi
  · cases hi
    cases h with
    | vec h => exact h
  · cases hi
    exact List.forall_mem_map.mpr fun b _ => Value.ofByte_proper b
  · cases hi
    exact List.forall_mem_map.mpr fun c _ => .text _
  · cases hi

theorem elements?_proper {v : Value} (h : v.Proper) {items : List Value}
    (hi : elements? v = some items) : ∀ w ∈ items, w.Proper := by
  unfold elements? at hi
  split at hi
  · cases hi
    cases h with
    | record _ h =>
      refine List.forall_mem_map.mpr fun f hf => Value.tuple_proper ?_
      exact List.forall_mem_cons.mpr ⟨.text _, List.forall_mem_singleton.mpr (h f hf)⟩
  · exact items?_proper h hi

theorem elementsFor_proper (s : Selector) {v : Value} (h : v.Proper) :
    (elementsFor s v).Gives fun items => ∀ w ∈ items, w.Proper := by
  unfold elementsFor
  split
  case h_1 hi => exact .ok (elements?_proper h hi)
  case h_2 => exact .error _

theorem fieldOf_proper (s : Selector) {v : Value} (h : v.Proper) (label : Label) :
    (fieldOf s v label).Gives Proper := by
  unfold fieldOf
  split
  · split
    case h_1 hf =>
      cases h with
      | record _ h => exact .ok (Value.lookup?_proper h hf)
    case h_2 => exact .error _
  · split
    · cases h with
      | variant _ _ h => exact .ok h
    · exact .error _
  · exact .error _

theorem fieldAt_proper (s : Selector) {v : Value} (h : v.Proper) (key : Value) :
    (fieldAt s v key).Gives Proper := by
  unfold fieldAt
  split
  · exact fieldOf_proper s h _
  · split
    · split
      · exact .error _
      · exact fieldOf_proper s h _
    · exact .error _

theorem itemAt_proper {items : List Value} (h : ∀ v ∈ items, v.Proper) (index : Value) :
    (itemAt items index).Gives Proper := by
  unfold itemAt
  split
  · exact .error _
  · split
    case h_1 hv =>
      split at hv
      · cases hv
      · exact .ok (h _ (List.mem_of_getElem? hv))
    case h_2 => exact .error _

theorem fieldOfPair_proper {v : Value} (h : v.Proper) :
    (fieldOfPair v).Gives fun f => f.2.Proper := by
  unfold fieldOfPair
  split
  · split
    case h_1 hf =>
      cases h with
      | record _ h => exact .bind_right fun l => .ok (Value.lookup?_proper h hf)
    case h_2 => exact .error _
  · exact .error _

/-- A value with proper elements is proper. -/
theorem rebuild_proper (like : Value) {items : List Value} (h : ∀ v ∈ items, v.Proper) :
    (rebuild like items).Gives Proper := by
  unfold rebuild
  split
  · split
    · exact .ok (.blob _)
    · exact .ok (.vec h)
  · exact (Attempt.Gives.mapM fun v hv => fieldOfPair_proper (h v hv)).bind fun _ hfs =>
      Value.mkRecord_proper hfs
  · exact .bind_right fun _ => .ok (.text _)
  · exact .ok (.vec h)

end Selection

/-! ## Functions that are built in -/

namespace Builtin

theorem itemsOf_proper {v : Value} (h : v.Proper) : ∀ w ∈ itemsOf v, w.Proper := by
  unfold itemsOf
  split
  · exact List.forall_mem_map.mpr fun b _ => Value.ofByte_proper b
  · cases h with
    | vec h => exact h
  · exact List.forall_mem_nil _

theorem joinItems_proper {v w : Value} (hv : v.Proper) (hw : w.Proper) :
    (joinItems v w).Proper := by
  unfold joinItems
  split
  · exact .blob _
  · exact .vec (List.forall_mem_append.mpr ⟨itemsOf_proper hv, itemsOf_proper hw⟩)

theorem concatOf_proper {v w : Value} (hv : v.Proper) (hw : w.Proper) :
    (concatOf v w).Gives Proper := by
  unfold concatOf
  split
  · exact .ok (.text _)
  · exact .ok (joinItems_proper hv hw)
  · exact .ok (joinItems_proper hv hw)
  · exact .ok (joinItems_proper hv hw)
  · cases hv with
    | vec hv =>
      cases hw with
      | vec hw => exact .ok (.vec (List.forall_mem_append.mpr ⟨hv, hw⟩))
  · cases hv with
    | record _ hv =>
      cases hw with
      | record _ hw => exact Value.mkRecord_proper (List.forall_mem_append.mpr ⟨hv, hw⟩)
  · exact .error _

theorem toValue_proper (n : Numeral) : n.toValue.Proper := by
  cases n with
  | whole n => exact .int rfl
  | real x => exact .float _ x

theorem calculateOf_proper (op : Operation) (v w : Value) : (calculateOf op v w).Gives Proper := by
  refine .bind_right fun a => .bind_right fun b => ?_
  dsimp only
  cases op.apply a b with
  | some n =>
    have hvalue := Attempt.Gives.ok (toValue_proper n)
    split
    · exact .bind_right fun _ => hvalue
    · exact hvalue
  | none =>
    split
    · exact .bind_right fun _ => .error _
    · exact .error _

theorem neuronAccountOf_proper (owner nonce : Value) :
    (neuronAccountOf owner nonce).Gives Proper := by
  refine .bind_right fun p => ?_
  split
  · exact .error _
  case h_2 n _ =>
    have haccount : Attempt.Gives (do
        if 2 ^ 64 ≤ n then throw (.fault .overflow)
        return .blob (Ledger.neuronAccount p n.toNat)) Proper := by
      dsimp only
      split
      · exact .bind_right fun _ => .ok (.blob _)
      · exact .ok (.blob _)
    by_cases hn : n < 0
    · rw [if_pos hn]
      exact .bind_right fun _ => haccount
    · rw [if_neg hn]
      exact haccount

theorem result?_proper {b : Builtin} {args : List Value} (h : ∀ v ∈ args, v.Proper)
    {r : Attempt Value} (hr : b.result? args = some r) : r.Gives Proper := by
  unfold result? at hr
  split at hr
  · cases hr
    exact .bind_right fun p => .ok (.blob _)
  · cases hr
    exact neuronAccountOf_proper _ _
  · cases hr
    split
    · exact .ok (.blob _)
    · exact .error _
  · cases hr
    exact .bind_right fun ss => .ok (.text _)
  · cases hr
    exact concatOf_proper (h _ (.head _)) (h _ (.tail _ (.head _)))
  · cases hr
    exact calculateOf_proper _ _ _
  · cases hr
    exact .ok (.bool _)
  · cases hr
    exact .ok (.bool _)
  · cases hr
    exact .bind_right fun a => .bind_right fun b => .ok (.bool _)
  · cases hr
    exact .bind_right fun b => .ok (.bool _)
  · cases hr
    refine .bind_right fun b => ?_
    split
    · exact .bind_right fun c => .ok (.bool _)
    · exact .ok (.bool _)
  · cases hr
    refine .bind_right fun b => ?_
    split
    · exact .ok (.bool _)
    · exact .bind_right fun c => .ok (.bool _)
  · cases hr

end Builtin

/-! ## Costs -/

namespace Cost

theorem toValue_proper (cost : Numeral) : (toValue cost).Gives Proper := by
  cases cost with
  | whole n => exact Value.mkInt_proper .int64 n
  | real x =>
    rw [toValue]
    split
    · exact .error _
    · exact .error _

theorem attach_proper {result : Value} (h : result.Proper) (cost : Numeral) :
    (attach result cost).Gives Proper := by
  refine (toValue_proper cost).bind fun c hc => .ok (Value.tuple_proper ?_)
  refine List.forall_mem_cons.mpr ⟨h, List.forall_mem_singleton.mpr (.record ?_ ?_)⟩
  · exact List.pairwise_singleton _ _
  · exact List.forall_mem_singleton.mpr hc

theorem split_proper {v : Value} (h : v.Proper) :
    (split v).1.Proper ∧ ∀ cost, (split v).2 = some cost → (Value.int .int64 cost).Proper := by
  unfold split
  split
  · split
    · cases h with
      | record _ h =>
        refine ⟨h _ (.head _), ?_⟩
        rintro _ ⟨⟩
        cases h _ (.tail _ (.head _)) with
        | record _ h => exact h _ (.head _)
    · exact ⟨h, nofun⟩
  · exact ⟨h, nofun⟩

end Cost

/-! ## Things done in a session -/

namespace Doing

variable {σ α β : Type} {Q : β → Prop}

/-- An action of whose results something is known, wherever it is done. -/
abbrev Gives (act : Doing σ β) (Q : β → Prop) : Prop := Keeps (fun _ => True) act Q

theorem gives_any (act : Doing σ α) : Gives act fun _ => True :=
  fun _ _ => ⟨trivial, fun _ _ => trivial⟩

theorem gives_right {act : Doing σ α} {next : α → Doing σ β} (h : ∀ a, Gives (next a) Q) :
    Gives (act >>= next) Q := (gives_any act).andThen h

theorem fresh_proper {v : Value} (h : v.Proper) : Gives (fresh v : Doing σ Value) Proper :=
  gives_right fun s => gives_right fun _ => .pure (h.fresh s.computed)

end Doing

open Doing (gives_right fresh_proper)

variable {σ : Type} {S : Setting σ}

namespace Evaluation

theorem output_proper (env : Env) (path : Value) {content : Value} (h : content.Proper) :
    Doing.Gives (output S env path content) Proper := by
  refine gives_right fun text => gives_right fun added => gives_right fun failure? => ?_
  split
  · exact .pure h
  · exact .throw _

theorem wasmProfiling_proper (env : Env) (path : Value) (names : List Value) :
    Doing.Gives (wasmProfiling S env path names) Proper := by
  refine .guarded fun _ => gives_right fun text => gives_right fun bytes => ?_
  split
  · exact gives_right fun selected => gives_right fun program => .pure (.blob program)
  · exact gives_right fun selected => gives_right fun program => .pure (.blob program)

theorem flamegraph_proper (env : Env) (canister title path : Value) :
    Doing.Gives (flamegraph S env canister title path) Proper := by
  unfold flamegraph
  split
  · exact .throw _
  · exact gives_right fun p => gives_right fun info => gives_right fun text => gives_right fun cost =>
      gives_right fun title => gives_right fun _ => .attempt (Cost.toValue_proper _)

/-- A function that is built in gives a proper value for proper arguments. -/
theorem callBuiltin_proper (env : Env) (b : Builtin) {args : List Value}
    (h : ∀ v ∈ args, v.Proper) : Doing.Gives (callBuiltin S env b args) Proper := by
  unfold callBuiltin
  split
  · exact gives_right fun text => gives_right fun bytes => .pure (.blob bytes)
  · exact output_proper env _ (h _ (.tail _ (.head _)))
  · exact wasmProfiling_proper env _ _
  · exact flamegraph_proper env _ _ _
  · split
    case h_1 hr => exact (Keeps.attempt (Builtin.result?_proper h hr)).bind fun v hv => fresh_proper hv
    case h_2 => exact .throw _

end Evaluation

/-! ## Calls -/

namespace Invocation

theorem decode_proper (t : Target) (reply : Bytes) : (t.decode reply).Gives Proper := by
  unfold Target.decode
  split
  · exact (decodeArgs_proper reply).bind fun _ h => .ok (Value.ofResults_proper h)
  · exact (decodeAs_proper _ reply _).bind fun _ h => .ok (Value.ofResults_proper h)

theorem result_proper (t : Target) (reply? : Option Bytes) : (t.result reply?).Gives Proper := by
  cases reply? with
  | none => exact .ok .null
  | some reply => exact decode_proper t reply

theorem callMeasured_proper (t : Target) (arg : Bytes) : Doing.Gives (callMeasured S t arg) Proper := by
  unfold callMeasured
  split
  · exact .throw _
  · refine gives_right fun before => gives_right fun reply? => gives_right fun after => ?_
    exact (Keeps.attempt (result_proper t reply?)).bind fun result h => gives_right fun cost =>
      .attempt (Cost.attach_proper h cost)

/-- Whatever is replied, a call gives a proper value. -/
theorem call_proper (t : Target) (arg : Bytes) : Doing.Gives (call S t arg) Proper := by
  unfold call
  split
  · exact callMeasured_proper t arg
  · exact gives_right fun reply? => .attempt (result_proper t reply?)

end Invocation

end CanisterShell
