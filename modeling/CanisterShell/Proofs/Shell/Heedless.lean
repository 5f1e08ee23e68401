import CanisterShell.Proofs.Shell.Giving
import CanisterShell.Shell.Execution

/-!
# What has been shown makes no difference

What is done in a session adds to what has been shown and never looks at it: had more been shown
before, the same would be done, with that behind what is shown now (`Heedless`).  This goes for
everything that scripts do in a session, from the search for an interface
(`Directory.lookup_heedless`) to whole calls (`Invocation.call_heedless`) and to the functions that
are built in (`Evaluation.callBuiltin_heedless`).
-/

namespace CanisterShell

open Candid

/-- The session, had more been shown before. -/
def Session.behind {σ : Type} (earlier : List Effect) (s : Session σ) : Session σ :=
  { s with effects := s.effects ++ earlier }

/-- The action does the same whatever has been shown before. -/
def Heedless {σ α : Type} (act : Doing σ α) : Prop :=
  ∀ earlier s, act.run.run (s.behind earlier) =
    ((act.run.run s).1, (act.run.run s).2.behind earlier)

namespace Heedless

variable {σ α β : Type}

theorem pure (a : α) : Heedless (Pure.pure a : Doing σ α) := fun _ _ => rfl

theorem throw (f : Failure) : Heedless (MonadExcept.throw f : Doing σ α) := fun _ _ => rfl

theorem attempt (x : Attempt α) : Heedless (liftM x : Doing σ α) := by
  cases x with
  | ok a => exact pure a
  | error f => exact throw f

theorem bind {act : Doing σ α} {next : α → Doing σ β} (h : Heedless act)
    (h' : ∀ a, Heedless (next a)) : Heedless (act >>= next) := by
  intro earlier s
  have hact := h earlier s
  match hr : act.run.run s with
  | (.error f, s') =>
    rw [hr] at hact
    rw [Gives.run_bind_of_error hact, Gives.run_bind_of_error hr]
  | (.ok a, s') =>
    rw [hr] at hact
    rw [Gives.run_bind hact, Gives.run_bind hr]
    exact h' a earlier s'

theorem map {act : Doing σ α} (h : Heedless act) (f : α → β) : Heedless (f <$> act) := by
  rw [map_eq_pure_bind]
  exact h.bind fun _ => pure _

theorem guarded {p : Prop} [Decidable p] {f : Failure} {rest : Unit → Doing σ β}
    (h : ¬p → Heedless (rest ())) :
    Heedless (if p then MonadExcept.throw f >>= rest else rest ()) := by
  split
  case isTrue => exact fun _ _ => rfl
  case isFalse hp => exact h hp

theorem get_bind {next : Session σ → Doing σ α} (h : ∀ s, Heedless (next s))
    (hnext : ∀ earlier s, next (s.behind earlier) = next s) : Heedless (get >>= next) := by
  intro earlier s
  have hrun (s : Session σ) : (get >>= next).run.run s = (next s).run.run s := rfl
  rw [hrun, hrun, hnext]
  exact h s earlier s

theorem modify {f : Session σ → Session σ}
    (h : ∀ earlier s, f (s.behind earlier) = (f s).behind earlier) :
    Heedless (modify f : Doing σ PUnit) :=
  fun earlier s => congrArg (fun s' => ((.ok ⟨⟩ : Except Failure PUnit), s')) (h earlier s)

theorem inWorld (act : StateM σ α) : Heedless (ExceptT.lift (Doing.inWorld act) : Doing σ α) :=
  fun _ _ => rfl

theorem perform (act : Action σ α) : Heedless (Doing.perform act) := fun _ _ => rfl

theorem outcome {act : Doing σ α} (h : Heedless act) : Heedless (outcome act) := by
  intro earlier s
  have hact := h earlier s
  match hr : act.run.run s with
  | (.ok a, s') =>
    rw [hr] at hact
    rw [Gives.outcome hr, Gives.outcome hact]
  | (.error f, s') =>
    rw [hr] at hact
    cases f with
    | error e => rw [Gives.outcome_of_error hr, Gives.outcome_of_error hact]
    | _ => rw [Gives.run_outcome_of_unforeseen hr nofun, Gives.run_outcome_of_unforeseen hact nofun]

theorem tryCatch {act : Doing σ α} {handle : Failure → Doing σ α} (h : Heedless act)
    (h' : ∀ f, Heedless (handle f)) : Heedless (MonadExcept.tryCatch act handle) := by
  intro earlier s
  have hact := h earlier s
  match hr : act.run.run s with
  | (.ok a, s') =>
    rw [hr] at hact
    rw [Gives.tryCatch hr, Gives.tryCatch hact]
  | (.error f, s') =>
    rw [hr] at hact
    rw [Gives.run_tryCatch_of_error hr, Gives.run_tryCatch_of_error hact]
    exact h' f earlier s'

end Heedless

variable {σ : Type} {S : Setting σ}

/-! ## Things done in a session -/

namespace Doing

open Heedless

theorem display_heedless (topic : Topic) (message : String) :
    Heedless (display topic message : Doing σ Unit) := modify fun _ _ => rfl

theorem warn_heedless (message : String) : Heedless (warn message : Doing σ Unit) :=
  display_heedless _ _

theorem fresh_heedless (v : Value) : Heedless (fresh v : Doing σ Value) := fun _ _ => rfl

theorem readFile_heedless (path : File.Path) : Heedless (readFile path : Doing σ _) :=
  (attempt _).bind fun _ => get_bind (fun _ => pure _) fun _ _ => rfl

theorem readText_heedless (path : File.Path) : Heedless (readText path : Doing σ _) := by
  refine (readFile_heedless path).bind fun r => ?_
  cases r with
  | ok bytes => exact (attempt _).bind fun _ => pure _
  | error failure => exact pure _

theorem changeDisk_heedless (path : File.Path)
    (change : File.Disk → Except File.Failure File.Disk) :
    Heedless (changeDisk path change : Doing σ _) := by
  refine (attempt _).bind fun _ earlier s => ?_
  rw [gives_get.run_bind, gives_get.run_bind]
  cases hd : change s.disk with
  | error failure =>
    have hd' : change (s.behind earlier).disk = .error failure := hd
    rw [hd']
    rfl
  | ok disk =>
    have hd' : change (s.behind earlier).disk = .ok disk := hd
    rw [hd']
    rfl

end Doing

/-! ## Interfaces -/

namespace Directory

open Heedless

theorem interfaceOfMetadata_heedless (agent : Agent σ) (canister : Principal) :
    Heedless (interfaceOfMetadata agent canister) := by
  refine get_bind (fun s => (perform _).bind fun bytes? => ?_) fun _ _ => rfl
  split
  · exact pure _
  · split
    · exact pure _
    · exact throw _

theorem interfaceOfQuery_heedless (agent : Agent σ) (canister : Principal) :
    Heedless (interfaceOfQuery agent canister) := by
  refine (attempt _).bind fun call => ?_
  have asked : Heedless (do
      decodeAs [] (← Doing.perform (agent.query (← get).identity call)) [.text] :
        Doing σ (List Value)) :=
    get_bind (fun s => (perform _).bind fun _ => attempt _) fun _ _ => rfl
  refine asked.outcome.bind fun r => ?_
  split
  · exact pure _
  · exact pure _
  · exact throw _
  · exact throw _

theorem interfaceText_heedless (agent : Agent σ) (canister : Principal) :
    Heedless (interfaceText agent canister) := by
  have found : Heedless (tryCatch (interfaceOfMetadata agent canister) fun f =>
      if isPassable f then Pure.pure none else MonadExcept.throw f) := by
    refine (interfaceOfMetadata_heedless agent canister).tryCatch fun f => ?_
    split
    · exact pure _
    · exact throw _
  refine found.bind fun text? => ?_
  split
  · exact pure _
  · exact interfaceOfQuery_heedless agent canister

theorem functionNames_heedless (agent : Agent σ) (canister : Principal) :
    Heedless (functionNames agent canister) := by
  refine Heedless.bind (.outcome ?_) fun r => ?_
  · refine get_bind (fun s => (perform _).bind fun bytes? => ?_) fun _ _ => rfl
    split
    · exact pure _
    · exact attempt _
  · split
    · exact pure _
    · exact pure _

theorem unknown_heedless (canister : Principal) (what why : String) :
    Heedless (unknown canister what why : Doing σ Interface) :=
  (Doing.warn_heedless _).bind fun _ => pure _

theorem fetch_heedless (canister : Principal) : Heedless (fetch S canister) := by
  unfold fetch
  split
  case h_1 agent _ =>
    refine (interfaceText_heedless agent canister).bind fun text? => ?_
    split
    · exact unknown_heedless _ _ _
    · refine get_bind (fun s => ?_) fun _ _ => rfl
      split
      · exact unknown_heedless _ _ _
      · exact throw _
      · split
        · exact (functionNames_heedless _ _).bind fun _ => pure _
        · exact pure _
  case h_2 => exact unknown_heedless _ _ _

theorem register_heedless (canister : Principal) (info : Interface) :
    Heedless (register canister info : Doing σ Unit) := modify fun _ _ => rfl

/-- An interface is looked for alike. -/
theorem lookup_heedless (canister : Principal) : Heedless (lookup S canister) := by
  refine get_bind (fun s => ?_) fun _ _ => rfl
  split
  · exact pure _
  · exact (fetch_heedless canister).bind fun _ => (register_heedless _ _).bind fun _ => pure _

theorem registerFile_heedless (canister : Principal) (path : File.Path) :
    Heedless (registerFile canister path : Doing σ Unit) := by
  refine (Doing.readText_heedless path).bind fun r => ?_
  split
  · exact throw _
  · exact get_bind (fun s => (attempt _).bind fun _ => register_heedless _ _) fun _ _ => rfl

end Directory

/-! ## Calls -/

namespace Invocation

open Heedless

theorem target_heedless (canister : Principal) (method : String) :
    Heedless (target S canister method) := by
  refine (Directory.lookup_heedless canister).bind fun info => ?_
  dsimp only
  split
  · exact (Doing.warn_heedless _).bind fun _ => pure _
  · exact pure _

theorem logCall_heedless (kind : Request.CallKind) (c : Call) : Heedless (logCall S kind c) :=
  get_bind (fun _ => (attempt _).bind fun _ => (Heedless.modify fun _ _ => rfl).bind fun _ =>
    Doing.display_heedless _ _) fun _ _ => rfl

theorem transmit_heedless (agent : Agent σ) (kind : Request.CallKind) (c : Call) :
    Heedless (transmit S agent kind c) := by
  have locate (act : Action σ Bytes) : Heedless
      (MonadExcept.tryCatch (Doing.perform act) fun f => throw (f.located c.site)) :=
    (perform act).tryCatch fun _ => throw _
  refine get_bind (fun s => ?_) fun _ _ => rfl
  cases kind with
  | query => exact locate _
  | update => exact (locate _).bind fun callId => perform _

theorem send_heedless (t : Target) (arg : Bytes) : Heedless (send S t arg) := by
  refine (attempt _).bind fun effective => ?_
  split
  · exact (logCall_heedless _ _).bind fun _ => pure _
  · split
    · exact throw _
    · exact (transmit_heedless _ _ _).bind fun _ => pure _

theorem counter_heedless (agent : Agent σ) (canister : Principal) :
    Heedless (counter agent canister) :=
  (attempt _).bind fun _ => get_bind (fun _ => (perform _).bind fun _ => (attempt _).bind fun _ =>
    attempt _) fun _ _ => rfl

/-- A call is made alike. -/
theorem call_heedless (t : Target) (arg : Bytes) : Heedless (call S t arg) := by
  unfold call
  split
  · unfold callMeasured
    split
    · exact throw _
    · exact (counter_heedless _ _).bind fun _ => (send_heedless t arg).bind fun _ =>
        (counter_heedless _ _).bind fun _ => (attempt _).bind fun _ => (attempt _).bind fun _ =>
          attempt _
  · exact (send_heedless t arg).bind fun _ => attempt _

end Invocation

namespace Measurement

open Heedless

theorem pages_heedless (agent : Agent σ) (canister : Principal) (fuel : Nat) (page : Int) :
    Heedless (pages agent canister fuel page) := by
  induction fuel generalizing page with
  | zero => exact throw _
  | succ fuel ih =>
    refine (attempt _).bind fun _ => (attempt _).bind fun arg => ?_
    refine get_bind (fun s => (perform _).bind fun reply => (attempt _).bind fun values => ?_)
      fun _ _ => rfl
    split
    · refine (attempt _).bind fun _ => (attempt _).bind fun next? => ?_
      split
      · exact pure _
      · exact (ih _).bind fun _ => pure _
    · exact throw _

theorem flamegraph_heedless (agent : Agent σ) (canister : Principal) (names : Table Int String)
    (file : File.Path) : Heedless (flamegraph agent canister names file) := by
  have warned (p : Prop) [Decidable p] (message : String) {rest : Unit → Doing σ Numeral}
      (h : Heedless (rest ())) :
      Heedless (if p then Doing.warn message >>= rest else rest ()) := by
    split
    · exact (Doing.warn_heedless _).bind fun _ => h
    · exact h
  refine (pages_heedless _ _ _ _).bind fun x => ?_
  refine warned _ _ ?_
  split
  case isTrue => exact (Doing.warn_heedless _).bind fun _ => pure _
  case isFalse =>
    refine (attempt _).bind fun folded => (Doing.changeDisk_heedless _ _).bind fun failure? => ?_
    split
    · exact throw _
    · split
      · exact pure _
      · exact (Doing.warn_heedless _).bind fun _ => (Invocation.counter_heedless _ _).bind fun _ =>
          attempt _

end Measurement

/-! ## Functions that are built in -/

namespace Evaluation

open Heedless

theorem readBytes_heedless (path : File.Path) : Heedless (readBytes path : Doing σ Bytes) := by
  refine (Doing.readFile_heedless path).bind fun r => ?_
  split
  · exact pure _
  · exact throw _

theorem output_heedless (env : Env) (path content : Value) :
    Heedless (output S env path content) := by
  refine (attempt _).bind fun _ => (attempt _).bind fun _ => ?_
  refine (Doing.changeDisk_heedless _ _).bind fun failure? => ?_
  split
  · exact pure _
  · exact throw _

theorem wasmProfiling_heedless (env : Env) (path : Value) (names : List Value) :
    Heedless (wasmProfiling S env path names) := by
  unfold wasmProfiling
  dsimp only
  split
  · exact fun _ _ => rfl
  · refine (attempt _).bind fun _ => (readBytes_heedless _).bind fun _ => ?_
    split
    · exact ((attempt _).map _).bind fun _ => (attempt _).bind fun _ => pure _
    · exact (pure _).bind fun _ => (attempt _).bind fun _ => pure _

theorem flamegraph_heedless (env : Env) (canister title path : Value) :
    Heedless (flamegraph S env canister title path) := by
  unfold flamegraph
  split
  · exact throw _
  · exact (attempt _).bind fun _ => (Directory.lookup_heedless _).bind fun _ =>
      (attempt _).bind fun _ => (Measurement.flamegraph_heedless _ _ _ _).bind fun _ =>
        (attempt _).bind fun _ => (Doing.display_heedless _ _).bind fun _ => attempt _

/-- A function that is built in is called alike. -/
theorem callBuiltin_heedless (env : Env) (b : Builtin) (args : List Value) :
    Heedless (callBuiltin S env b args) := by
  unfold callBuiltin
  split
  · exact (attempt _).bind fun _ => (readBytes_heedless _).bind fun _ => pure _
  · exact output_heedless _ _ _
  · exact wasmProfiling_heedless _ _ _
  · exact flamegraph_heedless _ _ _ _
  · split
    · exact (attempt _).bind fun _ => Doing.fresh_heedless _
    · exact throw _

end Evaluation

/-! ## Identities -/

namespace Execution

open Heedless

theorem tokenPin_heedless : Heedless (tokenPin S) := by
  have ask : Heedless (tokenPin.ask S) := (inWorld _).bind fun _ => .guarded fun _ => pure _
  unfold tokenPin
  split
  · split
    · exact pure _
    · exact ask
  · exact ask

theorem identityOf_heedless (env : Env) (source : Value) : Heedless (identityOf S env source) := by
  unfold identityOf
  split
  · exact get_bind (fun _ => attempt _) fun _ _ => rfl
  · unfold tokenIdentity
    split
    · exact tokenPin_heedless.bind fun _ => attempt _
    · exact throw _
  · exact throw _

theorem namedIdentity_heedless (name : String) : Heedless (namedIdentity S name) := by
  refine get_bind (fun s => ?_) fun _ _ => rfl
  split
  · exact pure _
  · exact (inWorld _).bind fun _ => pure _

end Execution

end CanisterShell
