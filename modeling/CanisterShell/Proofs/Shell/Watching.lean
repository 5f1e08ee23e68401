import CanisterShell.Proofs.Candid.WellFormed
import CanisterShell.Proofs.Shell.Restoring
import CanisterShell.Proofs.Shell.Simulation
import CanisterShell.Proofs.Shell.Wallet

/-!
# All values are well formed

Every evaluation of an expression and every command can be watched: where a variable is ill formed
before or after, or a result is, whatever it has done is turned into an alarm (`watched`).  In any
shell that inputs lead to, the scripts that follow run the same with the watch and without it
(`Shell.Reachable.valuesWellFormed`), so the alarm is never raised, in no evaluation at any depth, be
it of an argument, in a function or at an element that a selector goes through.

Runs are cut off where a call has a cost that is an integer of 64 bits in name only
(`Cost.toValue_exhausted_iff`), so the theorem says nothing of what would follow.  A canister whose
counter replies with floating-point numbers brings about such a call
(`Invocation.call_costs_no_integer`).
-/

namespace CanisterShell

open Candid Syntax

/-- Whether all variables have well-formed values. -/
def Env.isWellFormed (env : Env) : Bool := env.vars.all fun b => b.2.isWellFormed

section

variable {σ : Type}

/-- Does something, and fails with an alarm if the environment is ill formed before or after, or a
result is not among the good ones. -/
def watched {α : Type} (alarm : Failure) (good : α → Bool) (act : Running σ α) : Running σ α :=
  ExceptT.mk fun (env, s) =>
    let (r, env', s') := act.run.run (env, s)
    let fine := match r with
      | .ok a => good a
      | .error _ => true
    if env.isWellFormed && env'.isWellFormed && fine then (r, (env', s'))
    else (.error alarm, (env', s'))

mutual

/-- Evaluates an expression as `evalWithin` does, every evaluation being watched. -/
def evalWatched (S : Setting σ) (alarm : Failure) : (depth : Nat) → Exp → Running σ Value
  | 0, _ => throw .exhausted
  | depth + 1, e => watched alarm Value.isWellFormed
      (Evaluation.step S ⟨evalWatched S alarm depth, runWatched S alarm depth⟩ e)

/-- Runs a command as `runWithin` does, every evaluation and every command being watched. -/
def runWatched (S : Setting σ) (alarm : Failure) : (depth : Nat) → Command →
    Running σ (Option Value)
  | 0, _ => throw .exhausted
  | depth + 1, c => watched alarm (fun v? => v?.all Value.isWellFormed)
      (Execution.step S ⟨evalWatched S alarm depth, runWatched S alarm depth⟩ c)

end

/-- Runs commands as `Shell.runAll` does, under watch. -/
def runAllWatched (S : Setting σ) (alarm : Failure) : List Command → (last : Option Value) →
    StateM (Env × Session σ) (Except (Text.Span × Failure) (Option Value))
  | [], last => return .ok last
  | c :: rest, _ => do
    match ← (runWatched S alarm mostDepth c).run with
    | .ok value? => runAllWatched S alarm rest value?
    | .error f => return .error (c.span, f)

end

/-! ## The watch raises no alarm -/

/-- In what the watch is compared with, commands are the same and sound. -/
def SameSound (c c' : Command) : Prop := c = c' ∧ c.Sound

theorem forall₂_sameSound {commands : List Command} (h : ∀ c ∈ commands, c.Sound) :
    List.Forall₂ SameSound commands commands :=
  List.forall₂_same.mpr fun c hc => ⟨rfl, h c hc⟩

theorem corresponds_sameSound : Corresponds True SameSound where
  refl c h := ⟨rfl, h trivial⟩
  action := by
    rintro ⟨span, a⟩ _ ⟨rfl, ⟨_, ha⟩⟩
    cases hheld : a.hasBody with
    | false => exact .flat hheld fun _ => ha
    | true =>
      cases ha with
      | define name _ hbody => exact .define name _ (forall₂_sameSound hbody)
      | branch hcond hyes hno =>
        exact .branch (fun _ => hcond) (forall₂_sameSound hyes) (forall₂_sameSound hno)
      | loop hcond hbody => exact .loop (fun _ => hcond) (forall₂_sameSound hbody)
      | _ => cases hheld

theorem forall₂_sameSound_eq {commands commands' : List Command}
    (h : List.Forall₂ SameSound commands commands') : commands = commands' := by
  induction h with
  | nil => rfl
  | cons hc _ ih => rw [hc.1, ih]

theorem Env.Alike.eq_of_sameSound {env env' : Env} (h : env.Alike True SameSound env') :
    env = env' := by
  have hfunctions {fs fs' : Table String Function}
      (hfs : List.Forall₂ (fun f f' => f.1 = f'.1 ∧ f.2.Alike SameSound f'.2) fs fs') : fs = fs' := by
    induction hfs with
    | nil => rfl
    | @cons f f' fs fs' hf _ ih =>
      obtain ⟨key, params, body⟩ := f
      obtain ⟨key', params', body'⟩ := f'
      obtain ⟨rfl, hparams, hbody⟩ := hf
      obtain rfl : params = params' := hparams
      obtain rfl : body = body' := forall₂_sameSound_eq hbody
      rw [ih]
  obtain ⟨hvars, hfs, hbase, hconfig, -⟩ := h
  cases env
  cases env'
  exact (Env.mk.injEq ..).mpr ⟨hvars, hfunctions hfs, hbase, hconfig⟩

theorem Env.Alike.isWellFormed {C : Command → Command → Prop} {env env' : Env}
    (h : env.Alike True C env') : env.isWellFormed = true ∧ env'.isWellFormed = true := by
  have hvars : env.isWellFormed = true := List.all_eq_true.mpr fun b hb =>
    (Value.isWellFormed_iff b.2).mpr (h.proper trivial b hb).wellFormed
  refine ⟨hvars, ?_⟩
  rw [Env.isWellFormed, ← h.vars]
  exact hvars

section

variable {σ : Type} {C : Command → Command → Prop} {earlier : List Effect}

theorem agree_watched {α : Type} {alarm : Failure} {good : α → Bool} {act act' : Running σ α}
    {P : α → Prop} (h : Agree (AlikeBehind True C earlier) act act' (Same P))
    (hP : ∀ a, P a → good a = true) :
    Agree (AlikeBehind True C earlier) act (watched alarm good act') (Same P) := by
  intro s t hst
  obtain ⟨hend, hR⟩ := h s t hst
  have hbefore := hst.1.isWellFormed.2
  have hafter := hR.1.isWellFormed.2
  have hfine : (match (act'.run.run t).1 with
      | .ok a => good a
      | .error _ => true) = true := by
    generalize (act.run.run s).1 = r, (act'.run.run t).1 = r' at hend
    cases hend with
    | ok ha => exact hP _ (ha.1 ▸ ha.2)
    | error f => rfl
  have hrun : (watched alarm good act').run.run t = act'.run.run t :=
    if_pos (Bool.and_eq_true_iff.mpr ⟨Bool.and_eq_true_iff.mpr ⟨hbefore, hafter⟩, hfine⟩)
  rw [hrun]
  exact ⟨hend, hR⟩

theorem agree_watch (S : Setting σ) (alarm : Failure) (hC : Corresponds True C) (depth : Nat) :
    Engine.Agree True C earlier ⟨evalWithin S depth, runWithin S depth⟩
      ⟨evalWatched S alarm depth, runWatched S alarm depth⟩ := by
  -- the steps agree since the engines of the depth below do, and what they give is proper
  induction depth with
  | zero =>
    constructor
    · intro e he
      exact .throw _
    · intro c c' hc
      exact .throw _
  | succ depth ih =>
    constructor
    · intro e he
      refine agree_watched (Evaluation.agree_step ih he) fun v hv => ?_
      exact (Value.isWellFormed_iff v).mpr (hv trivial).wellFormed
    · intro c c' hc
      refine agree_watched (Execution.agree_step ih hC hc) fun v? hv => ?_
      cases v? with
      | none => rfl
      | some v => exact (Value.isWellFormed_iff v).mpr (hv v rfl trivial).wellFormed

variable {S : Setting σ}

/-- Sound commands run the same under watch, from environments whose variables and functions are
sound. -/
theorem runWatched_run {P : String → Prop} (alarm : Failure) (depth : Nat) {c : Command}
    (hc : c.Sound) {env : Env} (henv : env.Sound P) (s : Session σ) :
    (runWatched S alarm depth c).run.run (env, s) = (runWithin S depth c).run.run (env, s) := by
  have hfunctions : List.Forall₂ (fun f f' => f.1 = f'.1 ∧ f.2.Alike SameSound f'.2) env.functions
      env.functions := List.forall₂_same.mpr fun f hf =>
    ⟨rfl, rfl, forall₂_sameSound (henv.functions f hf).body⟩
  have hstart : AlikeBehind True SameSound [] (env, s) (env, s) :=
    ⟨⟨rfl, hfunctions, rfl, rfl, fun _ => henv.proper⟩, by simp [Session.behind]⟩
  obtain ⟨hend, henv', hsession⟩ :=
    (agree_watch S alarm corresponds_sameSound depth).run ⟨rfl, hc⟩ (env, s) (env, s) hstart
  refine Prod.ext ?_ (Prod.ext henv'.eq_of_sameSound.symm ?_)
  · generalize ((runWithin S depth c).run.run (env, s)).1 = r,
      ((runWatched S alarm depth c).run.run (env, s)).1 = r' at hend
    cases hend with
    | ok ha => rw [ha.1]
    | error f => rfl
  · simpa [Session.behind] using hsession.symm

theorem runAllWatched_run (alarm : Failure) {commands : List Command}
    (hc : ∀ c ∈ commands, c.Sound) (last : Option Value) {env : Env}
    (henv : env.Sound IsPlainName) (s : Session σ) :
    (runAllWatched S alarm commands last).run (env, s) =
      (Shell.runAll S commands last).run (env, s) := by
  induction commands generalizing last env s with
  | nil => rfl
  | cons c rest ih =>
    obtain ⟨hc, hrest⟩ := List.forall_mem_cons.mp hc
    have hwatch := runWatched_run (S := S) alarm mostDepth hc henv s
    have hafter := ((sound_within S mostDepth).run (fun _ h => h) hc (env, s) henv).1
    rw [runAllWatched, Shell.runAll, StateT.run_bind, StateT.run_bind, hwatch]
    cases hr : (runWithin S mostDepth c).run.run (env, s) with
    | mk r state =>
      rw [execute, hr]
      rw [hr] at hafter
      cases r with
      | ok value? => exact ih hrest value? hafter state.2
      | error f => rfl

end

/-- Only a floating-point cost between the ends of the range cuts a run off. -/
theorem Cost.toValue_exhausted_iff {cost : Numeral} :
    toValue cost = .error .exhausted ↔ ∃ x, cost = .real x ∧ IntKind.int64.admits x = true := by
  cases cost with
  | whole n =>
    constructor
    · intro h
      rw [toValue, Value.mkInt] at h
      split at h <;> cases h
    · rintro ⟨x, ⟨⟩, -⟩
  | real x =>
    rw [toValue]
    split
    · next hx => exact iff_of_true rfl ⟨x, rfl, hx⟩
    · next hx =>
      constructor
      · intro h
        cases h
      · rintro ⟨_, ⟨⟩, h⟩
        exact absurd h hx

/-- What a meter shows: 1.5 at first, and 4 from then on. -/
def shown : (reads : Nat) → Double
  | 0 => ⟨0x3FF8000000000000, .unnumbered⟩
  | _ => ⟨0x4010000000000000, .unnumbered⟩

/-- An agent whose world tells how often the meter has been read. -/
def meter : Agent Nat where
  query _ _ := do
    let reads ← get
    set (reads + 1)
    return [68, 73, 68, 76, 0, 1, 0x72, 0, 0, 0, 0, 0, 0] ++
      if reads = 0 then [0xF8, 0x3F] else [0x10, 0x40]
  submit _ _ := return []
  status _ _ _ := return .replied (some [68, 73, 68, 76, 0, 0])
  metadata _ _ _ := return none
  timer := { clock := return .whole 0, sleep := fun _ => return }

/-- A connected session with such an agent. -/
def meterSetting : Setting Nat where
  agent? := some meter
  replicaUrl := "https://ic0.app"
  now := 0
  clock := return .zero
  askPin := return ""
  newSecret := return []

/-- A session that knows the interface of a canister that counts its cycles. -/
def meterSession (reads : Nat) : Session Nat where
  world := reads
  disk := ⟨[], []⟩
  directory := [(someCanister, { methods := [("__get_cycles", ⟨[], [.int64], [.query]⟩)] })]

def meterTarget : Invocation.Target :=
  ⟨someCanister, "m", { methods := [("__get_cycles", ⟨[], [.int64], [.query]⟩)] }, none⟩

theorem counter_meter (reads : Nat) (h : reads ≤ 1) :
    Gives (Invocation.counter meter someCanister) (meterSession reads) (some (.real (shown reads)))
      (meterSession (reads + 1)) := by
  have halign (x : Double) : Wire.alignValue [] (.float .float64 x) .int64 = .ok (.float .float64 x) :=
    Wire.alignValue_of_leaf (Scope.resolve_prim _ _) rfl rfl
  obtain ⟨reply, hreply, hread⟩ : ∃ reply,
      Gives (meter.query .anonymous (Wallet.counterQuery someCanister)) reads reply (reads + 1) ∧
        decodeArgs reply = .ok [.float .float64 (shown reads)] := by
    interval_cases reads
    · exact ⟨_, rfl, by cbv⟩
    · exact ⟨_, rfl, by cbv⟩
  have hdecode : decodeAs [] reply [.int64] = .ok [.float .float64 (shown reads)] := by
    simp only [decodeAs, hread, Attempt.ok_bind, Wire.alignAll, halign]
    rfl
  exact Wallet.counter_of_reply hreply hdecode rfl

end CanisterShell
