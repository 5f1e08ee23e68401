import CanisterShell.Proofs.Candid.Failure
import CanisterShell.Proofs.Shell.Keeping
import CanisterShell.Proofs.Table
import CanisterShell.Shell.Execution

/-!
# Harmless programs

Faults are for numbers beyond what a machine word or a floating-point type holds, paths and replies that
are malformed, keys that only look like numbers, and what goes wrong in what the session is set up with.
Expressions that stay clear of these are *harmless*: where the functions of scripts are harmless too,
their evaluation ends in no fault, however deep it is nested (`foresees_within`).

An action *foresees* its failures where a property of the state holds if, started there, it keeps the
property and does not end in a fault: it gives a result, fails with an error, which scripts can catch,
or is cut off.
-/

namespace CanisterShell

open Candid Syntax
open Attempt (Foreseen)

/-! ## Actions that end as foreseen -/

/-- Started where `I` holds, the action keeps `I`, ends in no fault, and a result of it is in `Q`. -/
def Foresees {τ α : Type} (I : τ → Prop) (act : ExceptT Failure (StateM τ) α)
    (Q : α → Prop := fun _ => True) : Prop :=
  Keeps I act Q ∧ ∀ s, I s → ∀ f, (act.run.run s).1 ≠ .error (.fault f)

namespace Foresees

variable {τ α β : Type} {I : τ → Prop} {Q : α → Prop} {R : β → Prop}

theorem pure {a : α} (h : Q a) : Foresees I (Pure.pure a) Q := ⟨.pure h, fun _ _ => nofun⟩

theorem done {a : α} : Foresees I (Pure.pure a) := pure trivial

theorem throw {e : Failure} (h : ∀ f, e ≠ .fault f) : Foresees I (MonadExcept.throw e) Q := by
  refine ⟨.throw e, fun _ _ f hf => ?_⟩
  cases hf
  exact h f rfl

theorem error (e : Error) : Foresees I (MonadExcept.throw (.error e)) Q := throw nofun

theorem bind {act : ExceptT Failure (StateM τ) α} {next : α → ExceptT Failure (StateM τ) β}
    (h : Foresees I act Q) (h' : ∀ a, Q a → Foresees I (next a) R) :
    Foresees I (act >>= next) R := by
  refine ⟨h.1.bind fun a ha => (h' a ha).1, fun s hs f => ?_⟩
  obtain ⟨hs', hQ⟩ := h.1 s hs
  have hfault := h.2 s hs
  rw [ExceptT.run_bind, StateT.run_bind]
  cases hr : act.run.run s with
  | mk r s' =>
    rw [hr] at hs' hQ hfault
    cases r with
    | ok a => exact (h' a (hQ a rfl)).2 s' hs' f
    | error e =>
      intro he
      cases he
      exact hfault f rfl

theorem andThen {act : ExceptT Failure (StateM τ) α} {next : α → ExceptT Failure (StateM τ) β}
    (h : Foresees I act Q) (h' : ∀ a, Foresees I (next a) R) : Foresees I (act >>= next) R :=
  h.bind fun a _ => h' a

theorem guarded {p : Prop} [Decidable p] {e : Error} {rest : Unit → ExceptT Failure (StateM τ) β}
    (h : Foresees I (rest ()) R) :
    Foresees I (if p then MonadExcept.throw (.error e) >>= rest else rest ()) R := by
  split
  case isTrue => exact (error e : Foresees I _ fun _ => False).bind fun _ h => h.elim
  case isFalse => exact h

theorem attempt {x : Attempt α} (h : Foreseen x) :
    Foresees I (liftM x : ExceptT Failure (StateM τ) α) := by
  cases x with
  | ok a => exact done
  | error e =>
    obtain ⟨e, rfl⟩ := h e rfl
    exact error e

theorem get : Foresees I (MonadState.get : ExceptT Failure (StateM τ) τ) :=
  ⟨Keeps.get.weaken, fun _ _ => nofun⟩

theorem lift {act : StateM τ α} : Foresees (fun _ => True) (ExceptT.lift act) :=
  ⟨fun _ _ => ⟨trivial, fun _ _ => trivial⟩, fun _ _ => nofun⟩

theorem modify {f : τ → τ} (h : ∀ s, I s → I (f s)) :
    Foresees I (modify f : ExceptT Failure (StateM τ) PUnit) :=
  ⟨.modify h, fun _ _ => nofun⟩

/-! ### Lists -/

theorem mapM {f : β → ExceptT Failure (StateM τ) α} {items : List β}
    (h : ∀ b ∈ items, Foresees I (f b)) : Foresees I (items.mapM f) := by
  induction items with
  | nil => exact done
  | cons b items ih =>
    rw [List.mapM_cons]
    refine (h b List.mem_cons_self).andThen fun _ => ?_
    exact (ih fun c hc => h c (List.mem_cons_of_mem b hc)).andThen fun _ => done

theorem foldlM {f : α → β → ExceptT Failure (StateM τ) α} {items : List β}
    (h : ∀ a, ∀ b ∈ items, Foresees I (f a b)) (a : α) : Foresees I (items.foldlM f a) := by
  induction items generalizing a with
  | nil => exact done
  | cons b items ih =>
    rw [List.foldlM_cons]
    exact (h a b List.mem_cons_self).andThen fun a =>
      ih (fun a c hc => h a c (List.mem_cons_of_mem b hc)) a

theorem forM {f : β → ExceptT Failure (StateM τ) PUnit} {items : List β}
    (h : ∀ b ∈ items, Foresees I (f b)) : Foresees I (items.forM f) := by
  induction items with
  | nil => exact done
  | cons b items ih =>
    rw [List.forM_eq_forM, List.forM_cons]
    exact (h b List.mem_cons_self).andThen fun _ => ih fun c hc => h c (List.mem_cons_of_mem b hc)

/-! ### Failures -/

theorem outcome {act : ExceptT Failure (StateM τ) α} (h : Foresees I act Q) :
    Foresees I (outcome act) := by
  refine ⟨h.1.outcome.weaken, fun s hs f => ?_⟩
  have hfault := h.2 s hs
  rw [CanisterShell.outcome, ExceptT.run_mk, StateT.run_bind]
  cases hr : act.run.run s with
  | mk r s' =>
    rw [hr] at hfault
    intro h
    cases r with
    | ok a => cases h
    | error e =>
      cases e with
      | error e => cases h
      | fault g => exact hfault g rfl
      | exhausted => cases h

/-! ### Environments -/

section Environments

variable {σ : Type} {P : Env → Prop} {Q : α → Prop}

/-- The environment of the state has a property. -/
abbrev Within (σ : Type) (P : Env → Prop) (state : Env × Session σ) : Prop := P state.1

theorem env : Foresees (Within σ P) Running.env P :=
  ⟨Keeps.env.imp fun _ ⟨_, h⟩ => h, fun _ _ => nofun⟩

theorem modifyEnv {f : Env → Env} (h : ∀ env, P env → P (f env)) :
    Foresees (Within σ P) (Running.modifyEnv f) :=
  modify fun _ hs => h _ hs

theorem toRunning {act : Doing σ α} (h : Foresees (fun _ => True) act) :
    Foresees (Within σ P) act.toRunning :=
  ⟨Keeps.toRunning fun _ _ hs => ⟨hs, fun _ _ => trivial⟩, fun state _ => h.2 state.2 trivial⟩

theorem inChild {f : Env → Env} {act : Running σ α} (h : Foresees (Within σ P) act Q)
    (hf : ∀ env, P env → P (f env)) : Foresees (Within σ P) (Running.inChild f act) Q :=
  ⟨Keeps.inChild h.1 (fun env _ => hf env) fun _ _ _ _ hs _ => hs,
    fun state hs => h.2 (f state.1, state.2) (hf _ hs)⟩

end Environments

end Foresees

/-! ## Harmless programs -/

/-- Whether a cast to a type makes no floating-point number. -/
def Candid.Ty.castsToNoFloat : Ty → Bool
  | .prim (.float _) => false
  | .opt t | .vec t => t.castsToNoFloat
  | _ => true

theorem Candid.Ty.ne_float {t : Ty} (h : t.castsToNoFloat = true) (kind : FloatKind) :
    t ≠ .prim (.float kind) := by
  rintro rfl
  cases h

/-- Whether a function that is built in fails with errors only, whatever its arguments are. -/
def Builtin.isHarmless : Builtin → Bool
  | neuronAccount | file | output | wasmProfiling | flamegraph => false
  | _ => true

namespace Syntax

mutual

/-- An expression that neither casts to floating-point numbers nor calls canisters nor decodes bytes nor
rebuilds records nor calls a function that is built in and not harmless. -/
inductive Exp.Harmless : Exp → Prop where
  | literal (v : Value) : Exp.Harmless (.literal v)
  | path (name : String) {selectors : List Selector} (h : ∀ s ∈ selectors, Selector.Harmless s) :
    Exp.Harmless (.path name selectors)
  | opt {e : Exp} (h : Exp.Harmless e) : Exp.Harmless (.opt e)
  | vec {es : List Exp} (h : ∀ e ∈ es, Exp.Harmless e) : Exp.Harmless (.vec es)
  | record {fs : List (Option Label × Exp)} (h : ∀ f ∈ fs, Exp.Harmless f.2) :
    Exp.Harmless (.record fs)
  | variant (label : Label) {e : Exp} (h : Exp.Harmless e) : Exp.Harmless (.variant label e)
  | annotated {e : Exp} {t : Ty} (h : Exp.Harmless e) (ht : t.castsToNoFloat = true) :
    Exp.Harmless (.annotated e t)
  | apply {function : String} {args : List Exp} (h : ∀ e ∈ args, Exp.Harmless e)
    (hb : (Builtin.ofName? function).all Builtin.isHarmless = true) :
    Exp.Harmless (.apply function args)
  | fail {e : Exp} (h : Exp.Harmless e) : Exp.Harmless (.fail e)

/-- A step into a value by harmless expressions, or by a function that only folds. -/
inductive Selector.Harmless : Selector → Prop where
  | index {e : Exp} (h : Exp.Harmless e) : Selector.Harmless (.index e)
  | field (label : Label) : Selector.Harmless (.field label)
  | unwrap : Selector.Harmless .unwrap
  | size : Selector.Harmless .size
  | fold {start : Exp} {function : String} (h : Exp.Harmless start)
    (hb : (Builtin.ofName? function).all Builtin.isHarmless = true) :
    Selector.Harmless (.fold start function)

end

/-- A command that evaluates harmless expressions, and neither touches a file nor compares loosely. -/
inductive Command.Harmless : Command → Prop where
  | bind (span : Text.Span) (name : String) {e : Exp} (h : e.Harmless) :
    Command.Harmless (.mk span (.bind name e))
  | evaluate (span : Text.Span) {e : Exp} (h : e.Harmless) :
    Command.Harmless (.mk span (.evaluate e))
  | assertion (span : Text.Span) {op : String} {left right : Exp} (hop : op = "==" ∨ op = "!=")
    (hleft : left.Harmless) (hright : right.Harmless) :
    Command.Harmless (.mk span (.assertion op left right))
  | importCanister (span : Text.Span) (name canister : String) :
    Command.Harmless (.mk span (.importCanister name canister none))
  | useIdentity (span : Text.Span) (name : String) :
    Command.Harmless (.mk span (.useIdentity name none))
  | define (span : Text.Span) (name : String) (params : List String) {body : List Command}
    (h : ∀ c ∈ body, Command.Harmless c) : Command.Harmless (.mk span (.define name params body))
  | branch (span : Text.Span) {cond : Exp} {yes no : List Command} (h : cond.Harmless)
    (hyes : ∀ c ∈ yes, Command.Harmless c) (hno : ∀ c ∈ no, Command.Harmless c) :
    Command.Harmless (.mk span (.branch cond yes no))
  | loop (span : Text.Span) {cond : Exp} {body : List Command} (h : cond.Harmless)
    (hbody : ∀ c ∈ body, Command.Harmless c) : Command.Harmless (.mk span (.loop cond body))

end Syntax

/-- An environment whose functions run harmless commands. -/
def Env.Harmless (env : Env) : Prop := ∀ f ∈ env.functions, ∀ c ∈ f.2.body, c.Harmless

/-! ## Attempts that fail with errors only -/

theorem Env.lookup_foreseen (env : Env) (name : String) : Foreseen (env.lookup name) := by
  unfold lookup
  split
  · exact .ok _
  · exact .error ⟨_, rfl⟩

theorem Env.canister_foreseen (env : Env) (name : String) : Foreseen (env.canister name) := by
  unfold canister
  split
  case h_1 => exact .ok _
  case h_2 =>
    split
    · exact .ok _
    · exact .ok _
    · exact .error ⟨_, rfl⟩

namespace Candid.Value

theorem mkInt_foreseen (kind : IntKind) (n : Int) : Foreseen (mkInt kind n) := by
  unfold mkInt
  split
  · exact .ok _
  · exact .error ⟨_, rfl⟩

theorem castToInt_foreseen (kind : IntKind) (v : Value) : Foreseen (castToInt kind v) := by
  unfold castToInt
  split
  case h_1 =>
    split
    · exact .error ⟨_, rfl⟩
    · exact mkInt_foreseen _ _
  case h_2 => exact mkInt_foreseen _ _

theorem castNumber_foreseen (v : Value) {t : Ty} (h : ∀ kind, t ≠ .prim (.float kind)) :
    Foreseen (castNumber v t) := by
  unfold castNumber
  split
  case h_1 => exact castToInt_foreseen _ v
  case h_2 kind => exact absurd rfl (h kind)
  case h_3 => exact .ok _
  case h_4 => exact .error ⟨_, rfl⟩
  case h_5 => exact .error ⟨_, rfl⟩
  case h_6 => exact .error ⟨_, rfl⟩

theorem castId_foreseen (v : Value) (p : Principal) (t : Ty) : Foreseen (castId v p t) := by
  unfold castId
  split
  all_goals first
    | exact .ok _
    | exact .error ⟨_, rfl⟩

theorem castToText_foreseen (v : Value) (t : Ty) : Foreseen (castToText v t) := by
  unfold castToText
  split
  · exact .error ⟨_, rfl⟩
  · split
    · exact .ok _
    · exact .error ⟨_, rfl⟩

theorem castOther_foreseen (v : Value) (t : Ty) : Foreseen (castOther v t) := by
  unfold castOther
  split
  all_goals first
    | exact .ok _
    | exact .error ⟨_, rfl⟩

mutual

theorem cast_foreseen (v : Value) {t : Ty} (h : t.castsToNoFloat = true) :
    Foreseen (v.cast [] t) := by
  rw [cast]
  cases hr : Scope.resolve [] t with
  | error e => exact .error ((Scope.resolve_plain [] t).foreseen e hr)
  | ok u =>
    obtain rfl := Scope.resolve_nil hr
    rw [Attempt.ok_bind]
    cases v with
    | null | reserved | nothing =>
      dsimp only
      split
      · exact .ok _
      · exact castOther_foreseen _ _
    | opt inner =>
      dsimp only
      split
      case h_1 item => exact (cast_foreseen inner (t := item) h).bind fun _ => .ok _
      case h_2 => exact castOther_foreseen _ _
    | text s =>
      dsimp only
      split
      · refine (Scope.isByte_plain [] _).foreseen.bind fun b => ?_
        split
        · exact .ok _
        · exact castOther_foreseen _ _
      · exact castOther_foreseen _ _
    | blob bytes =>
      dsimp only
      split
      case h_1 => exact castToText_foreseen _ _
      case h_2 item =>
        refine (Scope.isByte_plain [] _).foreseen.bind fun b => ?_
        split
        · exact .ok _
        · refine Attempt.Only.bind (.mapM fun b _ => ?_) fun _ => .ok _
          cases hitem : Scope.resolve [] item with
          | error e => exact .error ((Scope.resolve_plain [] item).foreseen e hitem)
          | ok u =>
            obtain rfl := Scope.resolve_nil hitem
            exact castNumber_foreseen (ofByte b) (Ty.ne_float h)
      case h_3 => exact castOther_foreseen _ _
    | vec items =>
      dsimp only
      split
      case h_1 => exact castToText_foreseen _ _
      case h_2 item =>
        refine (castAll_foreseen items (t := item) h).bind fun _ => ?_
        refine (Scope.isByte_plain [] _).foreseen.bind fun b => ?_
        split
        · exact .ok _
        · exact .ok _
      case h_3 => exact castOther_foreseen _ _
    | principal p => exact castId_foreseen (.principal p) p _
    | service p => exact castId_foreseen (.service p) p _
    | func p m => exact castId_foreseen (.func p m) p _
    | number | int | float => exact castNumber_foreseen _ (Ty.ne_float h)
    | bool | record | variant => exact castOther_foreseen _ _

theorem castAll_foreseen (vs : List Value) {t : Ty} (h : t.castsToNoFloat = true) :
    Foreseen (castAll [] vs t) := by
  cases vs with
  | nil =>
    rw [castAll]
    exact .ok []
  | cons v rest =>
    rw [castAll]
    exact (cast_foreseen v h).bind fun _ => (castAll_foreseen rest h).bind fun _ => .ok _

end

end Candid.Value

/-! ### Selectors -/

namespace Selection

theorem fieldOf_foreseen (s : Selector) (v : Value) (label : Label) :
    Foreseen (fieldOf s v label) := by
  unfold fieldOf
  split
  · split
    · exact .ok _
    · exact .error ⟨_, rfl⟩
  · split
    · exact .ok _
    · exact .error ⟨_, rfl⟩
  · exact .error ⟨_, rfl⟩

theorem fieldAt_foreseen (s : Selector) (v key : Value) : Foreseen (fieldAt s v key) := by
  unfold fieldAt
  split
  · exact fieldOf_foreseen s v _
  · split
    · split
      · exact .error ⟨_, rfl⟩
      · exact fieldOf_foreseen s v _
    · exact .error ⟨_, rfl⟩

theorem itemAt_foreseen (items : List Value) (index : Value) : Foreseen (itemAt items index) := by
  unfold itemAt
  split
  · exact .error ⟨_, rfl⟩
  · split
    · exact .ok _
    · exact .error ⟨_, rfl⟩

theorem elementsFor_foreseen (s : Selector) (v : Value) : Foreseen (elementsFor s v) := by
  unfold elementsFor
  split
  · exact .ok _
  · exact .error ⟨_, rfl⟩

end Selection

/-! ### Functions that are built in -/

namespace Builtin

theorem principalOf_foreseen (name : String) (v : Value) : Foreseen (principalOf name v) := by
  unfold principalOf
  dsimp only
  split
  · exact .ok _
  · exact .ok _
  · split
    · exact .ok _
    · exact .error ⟨_, rfl⟩
  · exact .error ⟨_, rfl⟩

theorem boolOf_foreseen (name : String) (v : Value) : Foreseen (boolOf name v) := by
  unfold boolOf
  split
  · exact .ok _
  · exact .error ⟨_, rfl⟩

theorem numeralOf_foreseen (name : String) (v : Value) : Foreseen (numeralOf name v) := by
  unfold numeralOf
  split
  · exact .ok _
  · exact .error ⟨_, rfl⟩

theorem plainText_foreseen (v : Value) : Foreseen (plainText v) := by
  unfold plainText
  split
  all_goals first
    | exact .ok _
    | exact .error ⟨_, rfl⟩

theorem concatOf_foreseen (v w : Value) : Foreseen (concatOf v w) := by
  unfold concatOf
  split
  all_goals first
    | exact .ok _
    | exact (Value.mkRecord_plain _).foreseen
    | exact .error ⟨_, rfl⟩

theorem calculateOf_foreseen (op : Operation) (v w : Value) : Foreseen (calculateOf op v w) := by
  refine (numeralOf_foreseen _ v).bind fun a => (numeralOf_foreseen _ w).bind fun b => ?_
  dsimp only
  split
  · exact .error ⟨_, rfl⟩
  · split
    · exact .ok _
    · exact .error ⟨_, rfl⟩

theorem compareOf_foreseen (c : Comparison) (v w : Value) : Foreseen (compareOf c v w) :=
  (numeralOf_foreseen _ v).bind fun _ => (numeralOf_foreseen _ w).bind fun _ => .ok _

theorem result?_foreseen {b : Builtin} (h : b.isHarmless = true) {args : List Value}
    {x : Attempt Value} (hx : b.result? args = some x) : Foreseen x := by
  unfold result? at hx
  split at hx
  case h_1 v =>
    cases hx
    exact (principalOf_foreseen _ v).bind fun _ => .ok _
  case h_2 => cases h
  case h_3 v =>
    cases hx
    split
    · exact .ok _
    · exact .error ⟨_, rfl⟩
  case h_4 vs =>
    cases hx
    exact Attempt.Only.bind (.mapM fun v _ => plainText_foreseen v) fun _ => .ok _
  case h_5 v w =>
    cases hx
    exact concatOf_foreseen v w
  case h_6 op v w =>
    cases hx
    exact calculateOf_foreseen op v w
  case h_7 =>
    cases hx
    exact .ok _
  case h_8 =>
    cases hx
    exact .ok _
  case h_9 c v w =>
    cases hx
    exact compareOf_foreseen c v w
  case h_10 v =>
    cases hx
    exact (boolOf_foreseen _ v).bind fun _ => .ok _
  case h_11 v w =>
    cases hx
    refine (boolOf_foreseen _ v).bind fun b => ?_
    split
    · exact (boolOf_foreseen _ w).bind fun _ => .ok _
    · exact .ok _
  case h_12 v w =>
    cases hx
    refine (boolOf_foreseen _ v).bind fun b => ?_
    split
    · exact .ok _
    · exact (boolOf_foreseen _ w).bind fun _ => .ok _
  case h_13 => cases hx

end Builtin

/-! ## What the engine does with harmless programs -/

open Foresees (Within)

namespace Env.Harmless

variable {env : Env}

theorem bind (h : env.Harmless) (name : String) (v : Value) : (env.bind name v).Harmless := h

theorem define (h : env.Harmless) (name : String) {f : Function} (hf : ∀ c ∈ f.body, c.Harmless) :
    Env.Harmless { env with functions := env.functions.put name f } := by
  intro d hd
  obtain rfl | hd := Table.mem_put hd
  · exact hf
  · exact h d hd

theorem callee (h : env.Harmless) (params : List String) (args : List Value) :
    (Evaluation.callee params args env).Harmless := by
  have bindAll (bindings : List (String × Value)) {env : Env} (h : env.Harmless) :
      (bindings.foldl (fun e b => e.bind b.1 b.2) env).Harmless := by
    induction bindings generalizing env with
    | nil => exact h
    | cons b bindings ih => exact ih (h.bind b.1 b.2)
  exact bindAll _ h

end Env.Harmless

section

variable {σ : Type}

theorem Doing.fresh_foresees (v : Value) :
    Foresees (fun _ => True) (Doing.fresh v : Doing σ Value) :=
  ⟨fun _ _ => ⟨trivial, fun _ _ => trivial⟩, fun _ _ => nofun⟩

theorem Doing.display_foresees (topic : Topic) (message : String) :
    Foresees (fun _ => True) (Doing.display topic message : Doing σ Unit) :=
  .modify fun _ _ => trivial

/-- An engine that ends in no fault when it is given harmless programs. -/
structure Engine.Foresees (engine : Engine σ) : Prop where
  eval {e : Exp} (h : e.Harmless) : CanisterShell.Foresees (Within σ Env.Harmless) (engine.eval e)
  run {c : Command} (h : c.Harmless) : CanisterShell.Foresees (Within σ Env.Harmless) (engine.run c)

theorem Engine.Foresees.block {self : Engine σ} (h : self.Foresees) {commands : List Command}
    (hc : ∀ c ∈ commands, c.Harmless) :
    CanisterShell.Foresees (Within σ Env.Harmless) (self.block commands) :=
  .forM fun c hmem => (h.run (hc c hmem)).andThen fun _ => .done

theorem Engine.Foresees.evalAll {self : Engine σ} (h : self.Foresees) {es : List Exp}
    (hes : ∀ e ∈ es, e.Harmless) :
    CanisterShell.Foresees (Within σ Env.Harmless) (es.mapM self.eval) :=
  .mapM fun e he => h.eval (hes e he)

/-! ### Selectors -/

namespace Selection

variable {self : Engine σ} (h : self.Foresees)
include h

theorem accumulate_foresees {function : String}
    (hb : (Builtin.ofName? function).all Builtin.isHarmless = true) (acc v : Value) :
    Foresees (Within σ Env.Harmless) (accumulate self.eval function acc v) := by
  refine (Foresees.modifyEnv fun env henv => (henv.bind "" v).bind "_" acc).andThen fun _ =>
    h.eval (.apply (List.forall_mem_cons.mpr ⟨.path "_" nofun, ?_⟩) hb)
  exact List.forall_mem_singleton.mpr (.path "" nofun)

theorem step_foresees (v : Value) {s : Selector} (hs : s.Harmless) :
    Foresees (Within σ Env.Harmless) (step self.eval v s) := by
  have elements : Foresees (Within σ Env.Harmless) (liftM (elementsFor s v)) :=
    .attempt (elementsFor_foreseen s v)
  cases hs with
  | index he =>
    unfold step
    dsimp only
    split
    · exact (h.eval he).andThen fun key => .attempt (fieldAt_foreseen _ _ key)
    · exact (h.eval he).andThen fun key => .attempt (fieldAt_foreseen _ _ key)
    · split
      · exact (h.eval he).andThen fun index => .attempt (itemAt_foreseen _ index)
      · exact .error _
  | field label => exact .attempt (fieldOf_foreseen _ v label)
  | unwrap =>
    cases v with
    | opt item => exact .done
    | _ => exact .error _
  | size => exact elements.andThen fun _ => .done
  | fold hstart hb =>
    exact elements.andThen fun _ => (h.eval hstart).andThen fun acc =>
      .inChild (.foldlM (fun acc v _ => accumulate_foresees h hb acc v) acc) fun _ henv => henv

theorem walk_foresees (v : Value) {selectors : List Selector}
    (hs : ∀ s ∈ selectors, s.Harmless) :
    Foresees (Within σ Env.Harmless) (walk self.eval v selectors) :=
  .foldlM (fun v s hmem => step_foresees h v (hs s hmem)) v

end Selection

/-! ### Expressions -/

namespace Evaluation

variable {S : Setting σ} {self : Engine σ}

theorem callBuiltin_foresees (env : Env) {b : Builtin} (hb : b.isHarmless = true)
    (args : List Value) : Foresees (fun _ => True) (callBuiltin S env b args) := by
  unfold callBuiltin
  split
  case h_1 => cases hb
  case h_2 => cases hb
  case h_3 => cases hb
  case h_4 => cases hb
  case h_5 =>
    split
    case h_1 x hx =>
      exact (Foresees.attempt (Builtin.result?_foreseen hb hx)).andThen fun _ =>
        Doing.fresh_foresees _
    case h_2 => exact .throw nofun

variable (h : self.Foresees)
include h

theorem callFunction_foresees (name : String) {f : Function} (hf : ∀ c ∈ f.body, c.Harmless)
    (args : List Value) : Foresees (Within σ Env.Harmless) (callFunction self name f args) :=
  .guarded (.inChild ((h.block hf).andThen fun _ => Foresees.env.andThen fun _ => .done)
    fun _ henv => henv.callee f.params args)

theorem callForm_foresees (b : Builtin) {args : List Exp} (hargs : ∀ e ∈ args, e.Harmless) :
    Foresees (Within σ Env.Harmless) (callForm self b args) := by
  unfold callForm
  split
  case h_1 =>
    refine (h.eval (hargs _ (.head _))).outcome.andThen fun r => ?_
    cases r with
    | ok v => exact .done
    | error e => exact .done
  case h_2 =>
    refine (h.eval (hargs _ (.head _))).andThen fun v =>
      (Foresees.attempt (Builtin.boolOf_foreseen _ v)).andThen fun b => ?_
    split
    · exact h.eval (hargs _ (.tail _ (.head _)))
    · exact h.eval (hargs _ (.tail _ (.tail _ (.head _))))
  case h_3 => exact .throw nofun

theorem apply_foresees {function : String} {args : List Exp} (hargs : ∀ e ∈ args, e.Harmless)
    (hb : (Builtin.ofName? function).all Builtin.isHarmless = true) :
    Foresees (Within σ Env.Harmless) (apply S self function args) := by
  unfold apply
  split
  case h_1 b hname =>
    rw [hname] at hb
    split
    · exact .guarded (callForm_foresees h b hargs)
    · exact (h.evalAll hargs).andThen fun values => .guarded <|
        Foresees.env.andThen fun env => .toRunning (callBuiltin_foresees env hb values)
  case h_2 =>
    refine Foresees.env.bind fun env henv => ?_
    split
    case h_1 f hf =>
      exact (h.evalAll hargs).andThen fun values =>
        callFunction_foresees h function (henv _ (Table.mem_of_find?_eq_some hf)) values
    case h_2 => exact .error _

theorem fields_foresees (next : Nat) {fs : List (Option Label × Exp)}
    (hfs : ∀ f ∈ fs, f.2.Harmless) : Foresees (Within σ Env.Harmless) (fields self next fs) := by
  induction fs generalizing next with
  | nil => exact .done
  | cons f fs ih =>
    obtain ⟨hf, hfs⟩ := List.forall_mem_cons.mp hfs
    exact (h.eval hf).andThen fun _ => (ih _ hfs).andThen fun _ => .done

theorem failing_foresees {e : Exp} (he : e.Harmless) :
    Foresees (Within σ Env.Harmless) (failing self e) := by
  refine (h.eval he).outcome.andThen fun r => ?_
  cases r with
  | ok v => exact .error _
  | error e => exact .done

theorem step_foresees {e : Exp} (he : e.Harmless) :
    Foresees (Within σ Env.Harmless) (step S self e) := by
  cases he with
  | literal v => exact .toRunning (Doing.fresh_foresees v)
  | path name hs =>
    exact Foresees.env.andThen fun env => (Foresees.attempt (env.lookup_foreseen name)).andThen
      fun v => Selection.walk_foresees h v hs
  | opt he => exact (h.eval he).andThen fun _ => .done
  | vec hes => exact (h.evalAll hes).andThen fun _ => .done
  | record hfs =>
    exact (fields_foresees h 0 hfs).andThen fun _ => .attempt (Value.mkRecord_plain _).foreseen
  | variant label he => exact (h.eval he).andThen fun _ => .done
  | annotated he ht =>
    exact (h.eval he).andThen fun v => (Foresees.attempt (Value.cast_foreseen v ht)).andThen
      fun _ => .toRunning (Doing.fresh_foresees _)
  | apply hargs hb => exact apply_foresees h hargs hb
  | fail he => exact failing_foresees h he

end Evaluation

/-! ### Commands -/

namespace Execution

variable {S : Setting σ} {self : Engine σ}

theorem display_foresees (topic : Topic) (message : String) :
    Foresees (Within σ Env.Harmless) (display topic message) :=
  .toRunning (Doing.display_foresees topic message)

theorem bindVar_foresees (name : String) (v : Value) :
    Foresees (Within σ Env.Harmless) (bindVar name v) :=
  .modifyEnv fun _ henv => henv.bind name v

theorem takeCost_foresees (name : String) (e : Exp) (v : Value) (shown : Bool) :
    Foresees (Within σ Env.Harmless) (takeCost name e v shown) := by
  unfold takeCost
  split
  · exact .done
  · split
    · exact .done
    · refine (bindVar_foresees _ _).andThen fun _ => ?_
      split
      · exact (display_foresees _ _).andThen fun _ => .done
      · exact .done

theorem bindResult_foresees (name : String) (e : Exp) (v : Value) (shown : Bool) :
    Foresees (Within σ Env.Harmless) (bindResult name e v shown) := by
  refine (takeCost_foresees name e v shown).andThen fun v => ?_
  dsimp only
  split
  · exact (display_foresees _ _).andThen fun _ => (bindVar_foresees name v).andThen fun _ => .done
  · exact (bindVar_foresees name v).andThen fun _ => .done

theorem importCanister_foresees (name canister : String) :
    Foresees (Within σ Env.Harmless) (importCanister S name canister none) :=
  Foresees.env.andThen fun env => (Foresees.attempt (env.canister_foreseen canister)).andThen
    fun p => bindVar_foresees name (.principal p)

theorem namedIdentity_foresees (name : String) :
    Foresees (fun _ => True) (namedIdentity S name) := by
  refine Foresees.get.andThen fun s => ?_
  split
  · exact .done
  · exact Foresees.lift.andThen fun _ => .done

theorem useIdentity_foresees (name : String) :
    Foresees (Within σ Env.Harmless) (useIdentity S self name none) := by
  refine (Foresees.toRunning (namedIdentity_foresees name)).andThen fun identity => ?_
  have used : Foresees (Within σ Env.Harmless)
      (modify fun state => (state.1, state.2.use name identity) : Running σ Unit) :=
    .modify fun _ henv => henv
  exact used.andThen fun _ => (display_foresees _ _).andThen fun _ =>
    bindVar_foresees name (.principal identity.sender)

variable (h : self.Foresees)
include h

theorem evaluate_foresees {e : Exp} (he : e.Harmless) :
    Foresees (Within σ Env.Harmless) (evaluate S self e) :=
  (Foresees.toRunning .lift).andThen fun _ => (h.eval he).andThen fun v =>
    (bindResult_foresees "_" e v true).andThen fun _ => (Foresees.toRunning .lift).andThen fun _ =>
      (display_foresees _ _).andThen fun _ => .done

theorem assertion_foresees {op : String} (hop : op = "==" ∨ op = "!=") {left right : Exp}
    (hleft : left.Harmless) (hright : right.Harmless) :
    Foresees (Within σ Env.Harmless) (assertion self op left right) := by
  refine (h.eval hleft).andThen fun v => (h.eval hright).andThen fun w => ?_
  have hholds : Foreseen (holds op v w) := by
    obtain rfl | rfl := hop
    · exact .ok _
    · exact .ok _
  refine (Foresees.attempt hholds).andThen fun b => ?_
  cases b with
  | true => exact .done
  | false => exact .error _

theorem condition_foresees (keyword : String) {cond : Exp} (hcond : cond.Harmless) :
    Foresees (Within σ Env.Harmless) (condition self keyword cond) := by
  refine (h.eval hcond).andThen fun v => ?_
  split
  · exact .done
  · exact .error _

theorem step_foresees {c : Command} (hc : c.Harmless) :
    Foresees (Within σ Env.Harmless) (step S self c) := by
  cases hc with
  | bind span name he =>
    exact (h.eval he).andThen fun v => (bindResult_foresees name _ v false).andThen fun _ => .done
  | evaluate span he => exact (evaluate_foresees h he).andThen fun _ => .done
  | assertion span hop hleft hright =>
    exact (assertion_foresees h hop hleft hright).andThen fun _ => .done
  | importCanister span name canister =>
    exact (importCanister_foresees name canister).andThen fun _ => .done
  | useIdentity span name => exact (useIdentity_foresees name).andThen fun _ => .done
  | define span name params hbody =>
    exact (Foresees.modifyEnv fun _ henv => henv.define name hbody).andThen fun _ => .done
  | branch span hcond hyes hno =>
    refine (condition_foresees h "if" hcond).andThen fun b => ?_
    cases b with
    | true => exact (h.block hyes).andThen fun _ => .done
    | false => exact (h.block hno).andThen fun _ => .done
  | loop span hcond hbody =>
    refine (condition_foresees h "while" hcond).andThen fun b => ?_
    cases b with
    | true => exact (h.block hbody).andThen fun _ => h.run (.loop span hcond hbody)
    | false => exact .done

end Execution

/-! ### Runs -/

/-- Harmless programs end in no fault, however deep their evaluation is nested. -/
theorem foresees_within (S : Setting σ) (depth : Nat) :
    Engine.Foresees ⟨evalWithin S depth, runWithin S depth⟩ := by
  induction depth with
  | zero => exact ⟨fun _ => .throw nofun, fun _ => .throw nofun⟩
  | succ depth ih => exact ⟨Evaluation.step_foresees ih, Execution.step_foresees ih⟩

end

end CanisterShell
