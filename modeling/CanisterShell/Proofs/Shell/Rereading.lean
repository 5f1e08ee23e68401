import CanisterShell.Proofs.Candid.Proper
import CanisterShell.Proofs.Candid.Scope
import CanisterShell.Proofs.Shell.Giving
import CanisterShell.Proofs.Syntax.Printing
import CanisterShell.Shell.Execution

/-!
# Printed values read back

The expression that the text of a value is read as evaluates, in whatever environment, to a value
equal to it, null standing for all that is absent (`parseExp_toTextAt`).  Evaluating it changes
nothing, so it does so in every state of the session.
-/

namespace CanisterShell

namespace Candid

namespace Value

/-! ## Null for what is absent -/

mutual

/-- A value with null for everything in it that is reserved or the empty option. -/
def nulled : Value → Value
  | reserved | nothing => null
  | opt v => opt (nulled v)
  | vec items => vec (nulledItems items)
  | record fields => record (nulledFields fields)
  | variant label v index => variant label (nulled v) index
  | v => v

def nulledItems : List Value → List Value
  | [] => []
  | v :: rest => nulled v :: nulledItems rest

def nulledFields : List (Label × Value) → List (Label × Value)
  | [] => []
  | (l, v) :: rest => (l, nulled v) :: nulledFields rest

end

/-! ## Nesting -/

mutual

/-- How deep the evaluation of a value's text nests. -/
def height : Value → Nat
  | int .. => 2
  | opt v => height v + 1
  | vec items => heightOfItems items + 1
  | record fields => heightOfFields fields + 1
  | variant _ v _ => height v + 1
  | _ => 1

def heightOfItems : List Value → Nat
  | [] => 0
  | v :: rest => max (height v) (heightOfItems rest)

def heightOfFields : List (Label × Value) → Nat
  | [] => 0
  | (_, v) :: rest => max (height v) (heightOfFields rest)

end

theorem height_le_of_mem_items {v : Value} {items : List Value} (h : v ∈ items) :
    v.height ≤ heightOfItems items := by
  induction h with
  | head rest => exact Nat.le_max_left _ _
  | tail w _ ih => exact ih.trans (Nat.le_max_right _ _)

theorem height_le_of_mem_fields {f : Label × Value} {fields : List (Label × Value)}
    (h : f ∈ fields) : f.2.height ≤ heightOfFields fields := by
  induction h with
  | head rest => exact Nat.le_max_left _ _
  | tail g _ ih => exact ih.trans (Nat.le_max_right _ _)

end Value

end Candid

open Candid Syntax

/-! ## Actions that change nothing -/

/-- Wherever the action runs, it gives `a` and leaves everything as it is. -/
def Yields {σ α : Type} (act : Running σ α) (a : α) : Prop := ∀ state, Gives act state a state

namespace Yields

variable {σ α β : Type}

theorem pure (a : α) : Yields (σ := σ) (Pure.pure a) a := fun _ => rfl

theorem bind {act : Running σ α} {next : α → Running σ β} {a : α} {b : β} (h : Yields act a)
    (h' : Yields (next a) b) : Yields (act >>= next) b := fun state => (h state).bind (h' state)

theorem fresh {v : Value} (h : ∀ n, v.fresh n = (v, n)) :
    Yields (σ := σ) (Doing.toRunning (Doing.fresh v)) v := fun (env, s) => by
  change (Except.ok (v.fresh s.computed).1, (env, { s with computed := (v.fresh s.computed).2 })) = _
  rw [h]

end Yields

/-! ## Evaluation -/

section

variable {σ : Type} (S : Setting σ)

theorem evalWithin_literal {v : Value} (h : ∀ n, v.fresh n = (v, n)) {depth : Nat}
    (hdepth : 1 ≤ depth) : Yields (evalWithin S depth (.literal v)) v := by
  obtain ⟨depth, rfl⟩ := Nat.exists_eq_add_of_le' hdepth
  exact .fresh h

theorem evalWithin_int {kind : IntKind} {n : Int} (h : kind.holds n) {depth : Nat}
    (hdepth : 2 ≤ depth) :
    Yields (evalWithin S depth (.annotated (.literal (.number n)) (.prim (.int kind))))
      (.int kind n) := by
  obtain ⟨depth, rfl⟩ := Nat.exists_eq_add_of_le' hdepth
  have hnumber : Yields (evalWithin S (depth + 1) (.literal (.number n))) (.number n) :=
    evalWithin_literal S (fun _ => rfl) (Nat.le_add_left 1 depth)
  have hcast : (Value.number n).cast [] (.prim (.int kind)) = .ok (.int kind n) := by
    have hprim (name : String) : Ty.prim (.int kind) ≠ .var name := nofun
    rw [Value.cast, Scope.resolve_of_ne_var hprim]
    change Value.mkInt kind n = _
    rw [Value.mkInt, if_pos h]
  refine hnumber.bind ?_
  rw [hcast]
  exact (Yields.pure _).bind (.fresh fun _ => rfl)

end

/-- The expression evaluates to a value equal to `v`, up to null for what is absent. -/
def Rereads {σ : Type} (S : Setting σ) (depth : Nat) (e : Exp) (v : Value) : Prop :=
  ∃ w, Yields (evalWithin S depth e) w ∧ w.equal v.nulled = true

section

variable {σ : Type} {S : Setting σ} {depth : Nat}

theorem Rereads.literal {v w : Value} (h : ∀ n, w.fresh n = (w, n)) (heq : w.equal v.nulled = true)
    (hdepth : 1 ≤ depth) : Rereads S depth (.literal w) v :=
  ⟨w, evalWithin_literal S h hdepth, heq⟩

theorem rereads_items {items : List Value} (h : ∀ v ∈ items, Rereads S depth v.toExp v) :
    ∃ ws, Yields ((Value.toExps items).mapM (evalWithin S depth)) ws ∧
      Value.equalAll ws (Value.nulledItems items) = true := by
  induction items with
  | nil => exact ⟨[], .pure [], rfl⟩
  | cons v items ih =>
    obtain ⟨w, hw, heq⟩ := h v (.head _)
    obtain ⟨ws, hws, heqs⟩ := ih fun u hu => h u (.tail _ hu)
    refine ⟨w :: ws, ?_, ?_⟩
    · rw [Value.toExps, List.mapM_cons]
      exact hw.bind (hws.bind (.pure _))
    · rw [Value.nulledItems, Value.equalAll, heq, heqs]
      rfl

theorem rereads_fields {self : Engine σ} (hself : self.eval = evalWithin S depth)
    {fields : List (Label × Value)} (h : ∀ f ∈ fields, Rereads S depth f.2.toExp f.2) (next : Nat) :
    ∃ gs, Yields (Evaluation.fields self next (Value.fieldExps fields)) gs ∧
      gs.map (·.1) = fields.map (·.1) ∧
      Value.equalFields gs (Value.nulledFields fields) = true := by
  induction fields generalizing next with
  | nil => exact ⟨[], .pure [], rfl, rfl⟩
  | cons f fields ih =>
    obtain ⟨l, v⟩ := f
    obtain ⟨w, hw, heq⟩ := h (l, v) (.head _)
    obtain ⟨gs, hgs, hlabels, heqs⟩ := ih (fun g hg => h g (.tail _ hg)) (l.id + 1)
    refine ⟨(l, w) :: gs, ?_, ?_, ?_⟩
    · rw [Value.fieldExps, Evaluation.fields, hself]
      exact hw.bind (hgs.bind (.pure _))
    · rw [List.map_cons, hlabels, List.map_cons]
    · rw [Value.nulledFields, Value.equalFields, Label.same, decide_eq_true rfl, heq, heqs]
      rfl

theorem rereads_bareFields {self : Engine σ} (hself : self.eval = evalWithin S depth)
    {fields : List (Label × Value)} (h : ∀ f ∈ fields, Rereads S depth f.2.toExp f.2) {next : Nat}
    (hcount : countsFrom next fields = true) :
    ∃ gs, Yields (Evaluation.fields self next (Value.bareExps fields)) gs ∧
      gs.map (·.1) = fields.map (·.1) ∧
      Value.equalFields gs (Value.nulledFields fields) = true := by
  induction fields generalizing next with
  | nil => exact ⟨[], .pure [], rfl, rfl⟩
  | cons f fields ih =>
    obtain ⟨l, v⟩ := f
    rw [countsFrom, Bool.and_eq_true] at hcount
    obtain ⟨hnumber, hcount⟩ := hcount
    obtain rfl : l = .numbered next := by
      cases l with
      | named name => cases hnumber
      | numbered id => rw [of_decide_eq_true hnumber]
    obtain ⟨w, hw, heq⟩ := h (.numbered next, v) (.head _)
    obtain ⟨gs, hgs, hlabels, heqs⟩ := ih (fun g hg => h g (.tail _ hg)) hcount
    refine ⟨(.numbered next, w) :: gs, ?_, ?_, ?_⟩
    · rw [Value.bareExps, Evaluation.fields, hself]
      exact hw.bind (hgs.bind (.pure _))
    · rw [List.map_cons, hlabels, List.map_cons]
    · rw [Value.nulledFields, Value.equalFields, Label.same, decide_eq_true rfl, heq, heqs]
      rfl

end

theorem rereads_toExp {σ : Type} (S : Setting σ) {v : Value} (hprint : v.Printable)
    (hv : v.Proper) {depth : Nat} (hdepth : v.height ≤ depth) : Rereads S depth v.toExp v := by
  -- on the value, at any depth that its height leaves
  induction hprint generalizing depth with
  | null | reserved | nothing => exact .literal (fun _ => rfl) rfl hdepth
  | bool b => exact .literal (fun _ => rfl) (decide_eq_true rfl) hdepth
  | text h => exact .literal (fun _ => rfl) (decide_eq_true rfl) hdepth
  | number n => exact .literal (fun _ => rfl) (decide_eq_true rfl) hdepth
  | int kind n =>
    cases hv with
    | int h => exact ⟨.int kind n, evalWithin_int S h hdepth, by simp [Value.nulled, Value.equal]⟩
  | blob h => exact .literal (fun _ => rfl) (decide_eq_true rfl) hdepth
  | principal p => exact .literal (fun _ => rfl) (decide_eq_true rfl) hdepth
  | service p => exact .literal (fun _ => rfl) (decide_eq_true rfl) hdepth
  | func p h =>
    exact .literal (fun _ => rfl) (by simp [Value.nulled, Value.equal, Value.sameLeaf]) hdepth
  | opt _ ih =>
    cases hv with
    | opt hv =>
      obtain ⟨depth, rfl⟩ := Nat.exists_eq_add_of_le' ((Nat.le_add_left 1 _).trans hdepth)
      obtain ⟨w, hw, heq⟩ := ih hv (Nat.le_of_succ_le_succ hdepth)
      exact ⟨.opt w, hw.bind (.pure _), heq⟩
  | variant index hl _ ih =>
    cases hv with
    | variant _ _ hv =>
      obtain ⟨depth, rfl⟩ := Nat.exists_eq_add_of_le' ((Nat.le_add_left 1 _).trans hdepth)
      obtain ⟨w, hw, heq⟩ := ih hv (Nat.le_of_succ_le_succ hdepth)
      refine ⟨.variant _ w 0, hw.bind (.pure _), ?_⟩
      rw [Value.nulled, Value.equal, Label.same, decide_eq_true rfl, heq]
      rfl
  | vec _ ih =>
    cases hv with
    | vec hv =>
      obtain ⟨depth, rfl⟩ := Nat.exists_eq_add_of_le' ((Nat.le_add_left 1 _).trans hdepth)
      obtain ⟨ws, hws, heq⟩ := rereads_items fun v hmem => ih v hmem (hv v hmem)
        ((Value.height_le_of_mem_items hmem).trans (Nat.le_of_succ_le_succ hdepth))
      exact ⟨.vec ws, hws.bind (.pure _), heq⟩
  | @record fields hl _ ih =>
    cases hv with
    | record hasc hv =>
      obtain ⟨depth, rfl⟩ := Nat.exists_eq_add_of_le' ((Nat.le_add_left 1 _).trans hdepth)
      have hfields : ∀ f ∈ fields, Rereads S depth f.2.toExp f.2 := fun f hmem =>
        ih f hmem (hv f hmem)
          ((Value.height_le_of_mem_fields hmem).trans (Nat.le_of_succ_le_succ hdepth))
      have hshown : ∃ gs, Yields (Evaluation.fields ⟨evalWithin S depth, runWithin S depth⟩ 0
          (shownFields fields)) gs ∧ gs.map (·.1) = fields.map (·.1) ∧
          Value.equalFields gs (Value.nulledFields fields) = true := by
        rw [shownFields]
        split
        case isTrue hcount => exact rereads_bareFields rfl hfields hcount
        case isFalse => exact rereads_fields rfl hfields 0
      obtain ⟨gs, hgs, hlabels, heq⟩ := hshown
      -- labels come back as they were, so the fields still ascend and none is twice
      have hids : fields.map (·.1.id) = gs.map (·.1.id) := by
        have := congrArg (List.map Label.id) hlabels
        rw [List.map_map, List.map_map] at this
        exact this.symm
      have hrecord : Yields (σ := σ) (liftM (Value.mkRecord gs)) (.record gs) := by
        rw [Value.mkRecord_of_ascending (hasc.of_ids hids)]
        exact .pure _
      exact ⟨.record gs, hgs.bind hrecord, heq⟩

/-- The text of a value, in whatever layout and at whatever level, is read as an expression that
evaluates in every environment to a value equal to it, up to null for what is absent. -/
theorem parseExp_toTextAt {v : Value} (hprint : v.Printable) (hv : v.Proper) (layout : Layout)
    (level : Nat) (environ : Source.Environ) :
    ∃ e, parseExp environ (v.toTextAt layout level) = .ok e ∧
      ∀ {σ : Type} (S : Setting σ) (depth : Nat), v.height ≤ depth → ∃ w,
        w.equal v.nulled = true ∧
        ∀ env s, (evalWithin S depth e).run.run (env, s) = (.ok w, (env, s)) := by
  have hexp : Phrased Apart (v.toTextAt layout level).toList (Phrase.rules .exp) (· = .ok v.toExp) :=
    (legible_toTextAt hprint layout level).annotated.rule fun _ a ha hPa => ⟨a, derives_exp ha, hPa⟩
  refine ⟨v.toExp, hexp.parseExp environ, fun S depth hdepth => ?_⟩
  obtain ⟨w, hw, heq⟩ := rereads_toExp S hprint hv hdepth
  exact ⟨w, heq, fun env s => hw (env, s)⟩

/-- An option of a typed number in a record, on lines of ten characters. -/
theorem parseExp_toTextAt_narrow :
    let v : Value := .record [(.numbered 3, .opt (.int .nat8 5)), (.numbered 7, .reserved)]
    v.toTextAt ⟨10, 1⟩ 0 = "record \x7b\n 3 = opt (5 : nat8);\n 7 = null;\n\x7d" ∧
      ∃ e, parseExp [] (v.toTextAt ⟨10, 1⟩ 0) = .ok e ∧
        ∀ {σ : Type} (S : Setting σ) (depth : Nat), v.height ≤ depth → ∃ w,
          w.equal v.nulled = true ∧
          ∀ env s, (evalWithin S depth e).run.run (env, s) = (.ok w, (env, s)) := by
  intro v
  have hprint : v.Printable := .record (by simp [Label.Printable]) (by
    simp only [List.forall_mem_cons, List.not_mem_nil, false_imp_iff, implies_true, and_true]
    exact ⟨.opt (.int .nat8 5), .reserved⟩)
  have hproper : v.Proper := .record (by decide) (by
    simp only [List.forall_mem_cons, List.not_mem_nil, false_imp_iff, implies_true, and_true]
    exact ⟨.opt (.int (by decide)), .reserved⟩)
  exact ⟨by decide +kernel, parseExp_toTextAt hprint hproper ⟨10, 1⟩ 0 []⟩

end CanisterShell
