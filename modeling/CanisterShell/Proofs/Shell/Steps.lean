import CanisterShell.Proofs.Interface
import CanisterShell.Proofs.Shell.Giving
import CanisterShell.Proofs.Shell.Keeping
import CanisterShell.Shell.Execution

/-!
# What a session goes through

A session changes step by step: something is shown, a file is written, an interface becomes known,
a call is logged, and so on (`Session.Move`), or a command imports the interface in a file
(`Session.Step`).  An agent does something in the world only for a session that is connected, and it
is asked for metadata only of canisters whose interface is not known.  Whatever all moves keep is kept
by everything that is done in a session, so that a property of sessions is to be checked for the moves
alone (`Setting.Steady`), and for the steps if commands are to keep it (`Setting.Stable`).
-/

namespace CanisterShell

open Candid

/-- What an agent makes of its world by an operation other than asking for metadata, or while it
waits. -/
inductive Agent.Deed {σ : Type} (agent : Agent σ) (w : σ) : σ → Prop where
  | query (identity : Identity) (c : Call) : Deed agent w ((agent.query identity c).run.run w).2
  | submit (identity : Identity) (c : Call) : Deed agent w ((agent.submit identity c).run.run w).2
  | status (identity : Identity) (effective : Principal) (callId : Bytes) :
      Deed agent w ((agent.status identity effective callId).run.run w).2
  | clock : Deed agent w (agent.timer.clock.run w).2
  | sleep (delay : Seconds) : Deed agent w ((agent.timer.sleep delay).run w).2

/-- One change of a session by something that is done in it. -/
inductive Session.Move {σ : Type} (S : Setting σ) (s : Session σ) : Session σ → Prop where
  | shown (topic : Topic) (message : String) : Move S s (s.tell topic message)
  | cleared : Move S s { s with effects := [] }
  | numbered (computed : Nat) : Move S s { s with computed }
  | written (disk : File.Disk) : Move S s { s with disk }
  | learned (canister : Principal) (hnew : s.directory.find? canister = none) (info : Interface)
      (hordered : info.Ordered) : Move S s { s with directory := s.directory.put canister info }
  | logged (signed : Offline.SignedCall) : Move S s { s with calls := signed :: s.calls }
  | used (name : String) (identity : Identity) : Move S s (s.use name identity)
  | clock : Move S s { s with world := (S.clock.run s.world).2 }
  | pin : Move S s { s with world := (S.askPin.run s.world).2 }
  | secret : Move S s { s with world := (S.newSecret.run s.world).2 }
  | asked {agent : Agent σ} (h : Directory.connected? S = some agent) (identity : Identity)
      (canister : Principal) (hnew : s.directory.find? canister = none) (name : String) :
      Move S s { s with world := ((agent.metadata identity canister name).run.run s.world).2 }
  | deed {agent : Agent σ} (h : Directory.connected? S = some agent) {w : σ}
      (hw : agent.Deed s.world w) : Move S s { s with world := w }

theorem Session.Move.known {σ : Type} {S : Setting σ} {s s' : Session σ} (h : Session.Move S s s')
    {canister : Principal} {info : Interface} (hinfo : s.directory.find? canister = some info) :
    s'.directory.find? canister = some info := by
  cases h with
  | learned p hnew =>
    rw [Table.find?_put, if_neg, hinfo]
    rintro rfl
    rw [hinfo] at hnew
    cases hnew
  | _ => exact hinfo

/-- One change of a session: by something done in it, or by an import with an interface file. -/
inductive Session.Step {σ : Type} (S : Setting σ) (s : Session σ) : Session σ → Prop where
  | moved {s' : Session σ} (h : Session.Move S s s') : Step S s s'
  | imported {env env' : Env} {name canister file : String} {s' : Session σ}
      (h : Gives (Execution.importCanister S name canister (some file)) (env, s) () (env', s')) :
      Step S s s'

/-- A property of sessions that every move keeps. -/
def Setting.Steady {σ : Type} (S : Setting σ) (K : Session σ → Prop) : Prop :=
  ∀ s s', Session.Move S s s' → K s → K s'

/-- A property of sessions that every step keeps. -/
def Setting.Stable {σ : Type} (S : Setting σ) (K : Session σ → Prop) : Prop :=
  ∀ s s', Session.Step S s s' → K s → K s'

theorem Setting.Stable.steady {σ : Type} {S : Setting σ} {K : Session σ → Prop}
    (hK : S.Stable K) : S.Steady K :=
  fun s s' h => hK s s' (.moved h)

theorem Setting.steady_known {σ : Type} (S : Setting σ) (canister : Principal) (info : Interface) :
    S.Steady fun s => s.directory.find? canister = some info :=
  fun _ _ h hinfo => h.known hinfo

theorem connected?_of_online {σ : Type} {S : Setting σ} {agent : Agent σ}
    (hon : ¬S.offline = true) (h : S.agent? = some agent) :
    Directory.connected? S = some agent := by
  rw [Directory.connected?, if_neg hon, h]

/-! ## Agents -/

/-- A property of an agent's world that all its deeds keep. -/
def Agent.Stable {σ : Type} (agent : Agent σ) (I : σ → Prop) : Prop :=
  ∀ w w', agent.Deed w w' → I w → I w'

namespace Agent.Stable

variable {σ : Type} {agent : Agent σ} {I : σ → Prop} (hI : agent.Stable I)
include hI

theorem query (identity : Identity) (c : Call) : Keeps I (agent.query identity c) :=
  fun w hw => ⟨hI w _ (.query identity c) hw, fun _ _ => trivial⟩

theorem submit (identity : Identity) (c : Call) : Keeps I (agent.submit identity c) :=
  fun w hw => ⟨hI w _ (.submit identity c) hw, fun _ _ => trivial⟩

theorem status (identity : Identity) (effective : Principal) (callId : Bytes) :
    Keeps I (agent.status identity effective callId) :=
  fun w hw => ⟨hI w _ (.status identity effective callId) hw, fun _ _ => trivial⟩

theorem clock : Keeps I (liftM agent.timer.clock : Action σ Seconds) :=
  fun w hw => ⟨hI w _ .clock hw, fun _ _ => trivial⟩

theorem sleep (delay : Seconds) : Keeps I (liftM (agent.timer.sleep delay) : Action σ Unit) :=
  fun w hw => ⟨hI w _ (.sleep delay) hw, fun _ _ => trivial⟩

theorem await (p : PollPolicy) (identity : Identity) (effective : Principal) (callId : Bytes)
    (site : Option CallSite) :
    Keeps I (p.await (agent.status identity effective callId) agent.timer site) := by
  have waits (deadline : Seconds) (fuel : Nat) (delay : Seconds) :
      Keeps I (p.waitFor (agent.status identity effective callId) agent.timer site deadline fuel
        delay) := by
    induction fuel generalizing delay with
    | zero => exact .throw _
    | succ fuel ih =>
      refine (hI.status identity effective callId).andThen fun status => ?_
      split
      case h_1 => exact .attempt_any _
      case h_2 =>
        refine hI.clock.andThen fun time => .guarded fun _ => ?_
        exact (hI.sleep delay).andThen fun _ => ih _
  exact hI.clock.andThen fun _ => waits _ _ _

end Agent.Stable

/-! ## Things done in a session -/

theorem Keeps.readFile {σ : Type} {K : Session σ → Prop} (path : File.Path) :
    Keeps K (Doing.readFile path) :=
  (Keeps.attempt_any _).andThen fun _ => Keeps.get.andThen fun _ => .done

theorem Keeps.readText {σ : Type} {K : Session σ → Prop} (path : File.Path) :
    Keeps K (Doing.readText path) := by
  refine (Keeps.readFile path).andThen fun r => ?_
  cases r with
  | ok bytes => exact (Keeps.attempt_any _).andThen fun _ => .done
  | error failure => exact .done

theorem Keeps.readBytes {σ : Type} {K : Session σ → Prop} (path : File.Path) :
    Keeps K (Evaluation.readBytes path) := by
  refine (Keeps.readFile path).andThen fun r => ?_
  split
  · exact .done
  · exact .throw _

theorem Keeps.wasmProfiling {σ : Type} {K : Session σ → Prop} (S : Setting σ) (env : Env)
    (path : Value) (names : List Value) : Keeps K (Evaluation.wasmProfiling S env path names) := by
  refine .guarded fun _ => (Keeps.attempt_any _).andThen fun _ => (Keeps.readBytes _).andThen fun _ => ?_
  split
  · exact ((Keeps.attempt_any _).map _).andThen fun _ => (Keeps.attempt_any _).andThen fun _ => .done
  · exact Keeps.done.andThen fun _ => (Keeps.attempt_any _).andThen fun _ => .done

/-! ## Looking for interfaces -/

/-- A property of sessions that asking an agent for the interface of a canister keeps. -/
structure Agent.Searching {σ : Type} (agent : Agent σ) (canister : Principal)
    (K : Session σ → Prop) : Prop where
  shown (s : Session σ) (topic : Topic) (message : String) : K s → K (s.tell topic message)
  metadata (s : Session σ) (identity : Identity) (name : String) : K s →
    K { s with world := ((agent.metadata identity canister name).run.run s.world).2 }
  query (s : Session σ) (identity : Identity) (c : Call) : K s →
    K { s with world := ((agent.query identity c).run.run s.world).2 }

namespace Agent.Searching

variable {σ : Type} {agent : Agent σ} {canister : Principal} {K : Session σ → Prop}
  (hK : agent.Searching canister K)
include hK

theorem performMetadata (identity : Identity) (name : String) :
    Keeps K (Doing.perform (agent.metadata identity canister name)) :=
  fun s hs => ⟨hK.metadata s identity name hs, fun _ _ => trivial⟩

theorem performQuery (identity : Identity) (c : Call) :
    Keeps K (Doing.perform (agent.query identity c)) :=
  fun s hs => ⟨hK.query s identity c hs, fun _ _ => trivial⟩

theorem unknown (what why : String) : Keeps K (Directory.unknown canister what why) :=
  (Keeps.modify fun s hs => hK.shown s _ _ hs).andThen fun _ => .done

theorem interfaceOfMetadata : Keeps K (Directory.interfaceOfMetadata agent canister) := by
  refine Keeps.get.andThen fun s => (hK.performMetadata _ _).andThen fun bytes? => ?_
  split
  case h_1 => exact .done
  case h_2 =>
    split
    · exact .done
    · exact .throw _

theorem interfaceOfQuery : Keeps K (Directory.interfaceOfQuery agent canister) := by
  refine (Keeps.attempt_any _).andThen fun call => ?_
  have asked : Keeps K (do
      decodeAs [] (← Doing.perform (agent.query (← get).identity call)) [.text] :
        Doing σ (List Value)) :=
    Keeps.get.andThen fun s => (hK.performQuery _ _).andThen fun _ => .attempt_any _
  refine asked.outcome.andThen fun r => ?_
  split
  · exact .done
  · exact .done
  · exact .throw _
  · exact .throw _

theorem functionNames : Keeps K (Directory.functionNames agent canister) := by
  refine Keeps.andThen (Keeps.outcome (Q := fun _ => True) ?_) fun r => ?_
  · refine Keeps.get.andThen fun s => (hK.performMetadata _ _).andThen fun bytes? => ?_
    split
    · exact .done
    · exact .attempt_any _
  · split
    · exact .done
    · exact .done

/-- What holds once the metadata have been asked for holds when the search ends. -/
theorem after_fetchBy {s : Session σ}
    (h : K ((Directory.interfaceOfMetadata agent canister).run.run s).2) :
    K ((Directory.fetchBy agent canister).run.run s).2 := by
  have htext : K ((Directory.interfaceText agent canister).run.run s).2 := by
    refine Keeps.after_bind (Keeps.after_tryCatch h fun f => ?_) fun found => ?_
    · split
      · exact .done
      · exact .throw _
    · split
      · exact .done
      · exact hK.interfaceOfQuery
  refine Keeps.after_bind htext fun text? => ?_
  split
  case h_1 => exact hK.unknown _ _
  case h_2 text =>
    refine Keeps.get.andThen fun s => ?_
    split
    · exact hK.unknown _ _
    · exact .throw _
    · split
      · exact hK.functionNames.andThen fun _ => .done
      · exact .done

theorem fetchBy : Keeps K (Directory.fetchBy agent canister) :=
  fun s hs => ⟨hK.after_fetchBy (hK.interfaceOfMetadata s hs).1, fun _ _ => trivial⟩

end Agent.Searching

namespace Directory

variable {σ : Type} {S : Setting σ} {canister : Principal} {s : Session σ}

theorem lookup_of_known {info : Interface} (h : s.directory.find? canister = some info) :
    (lookup S canister).run.run s = (.ok info, s) := by
  rw [lookup, gives_get.run_bind, h]
  rfl

theorem lookup_of_unknown (h : s.directory.find? canister = none) :
    (lookup S canister).run.run s =
      (fetch S canister >>= fun info => register canister info >>= fun _ => pure info).run.run s := by
  rw [lookup, gives_get.run_bind, h]

theorem fetch_ordered (canister : Principal) :
    Keeps (fun _ => True) (fetch S canister) Interface.Ordered := by
  have unknown (what why : String) :
      Keeps (fun _ => True) (unknown (σ := σ) canister what why) Interface.Ordered :=
    Keeps.any.andThen fun _ => .pure ⟨nofun, nofun, nofun⟩
  unfold fetch
  split
  case h_1 agent hagent =>
    refine Keeps.any.andThen fun text? => ?_
    split
    case h_1 => exact unknown _ _
    case h_2 text =>
      refine Keeps.get.andThen fun s => ?_
      split
      case h_1 => exact unknown _ _
      case h_2 => exact .throw _
      case h_3 info hinfo =>
        have hordered := Interface.compile_ordered _ _ _ info hinfo
        split
        · exact Keeps.any.andThen fun _ => .pure ⟨hordered.scope, hordered.args, hordered.results⟩
        · exact .pure hordered
  case h_2 => exact unknown _ _

end Directory

theorem Invocation.target_of_lookup {σ : Type} {S : Setting σ} {canister : Principal}
    {info : Interface} {s s' : Session σ} (h : Gives (Directory.lookup S canister) s info s')
    (method : String) : ∃ s'', Gives (target S canister method) s
        ⟨canister, method, info, info.signature? method⟩ s'' ∧
      (s'' = s' ∨ ∃ message, s'' = s'.tell .warning message) := by
  by_cases hnone : (info.signature? method).isNone
  · obtain ⟨message, hwarn⟩ : ∃ message, Gives (Doing.warn ("cannot find method " ++ method ++ " in "
        ++ canister.toText ++ ", arguments are encoded by value")) s' ()
        (s'.tell .warning message) := ⟨_, rfl⟩
    refine ⟨_, h.bind ?_, .inr ⟨message, rfl⟩⟩
    dsimp only
    rw [if_pos hnone]
    exact hwarn.bind rfl
  · refine ⟨s', h.bind ?_, .inl rfl⟩
    dsimp only
    rw [if_neg hnone]
    rfl

/-! ### Imports -/

section

variable {σ : Type} {S : Setting σ}

theorem Directory.registerFile_run (canister : Principal) (path : File.Path) (s : Session σ) :
    (∃ f, (Directory.registerFile canister path).run.run s = (.error f, s)) ∨
      ∃ info, info.Ordered ∧ Gives (Directory.registerFile canister path) s ()
        { s with directory := s.directory.put canister info } := by
  have hread : ((Doing.readText path).run.run s).2 = s :=
    (Keeps.readText (K := fun s' => s' = s) path s rfl).1
  cases hr : (Doing.readText path).run.run s with
  | mk r s' =>
    rw [hr] at hread
    obtain rfl : s' = s := hread
    rcases r with f | (failure | text)
    · exact .inl ⟨f, Gives.run_bind_of_error hr⟩
    · exact .inl ⟨_, Gives.run_bind hr⟩
    · cases hinfo : Interface.compile s'.disk (some path.parent) text with
      | error f =>
        refine .inl ⟨f, (Gives.run_bind hr).trans (gives_get.run_bind.trans ?_)⟩
        rw [hinfo]
        rfl
      | ok info =>
        refine .inr ⟨info, Interface.compile_ordered _ _ _ info hinfo,
          (Gives.run_bind hr).trans (gives_get.run_bind.trans ?_)⟩
        rw [hinfo]
        rfl

theorem Execution.importCanister_run (name canister file : String) (env : Env) (s : Session σ) :
    (∃ f, (importCanister S name canister (some file)).run.run (env, s) = (.error f, (env, s))) ∨
      ∃ p info, env.canister canister = .ok p ∧ info.Ordered ∧
        Gives (importCanister S name canister (some file)) (env, s) ()
          (env.bind name (.principal p), { s with directory := s.directory.put p info }) := by
  have hpath : Gives (path S file) (env, s) (env.path S file) (env, s) := rfl
  cases hp : env.canister canister with
  | error f =>
    refine .inl ⟨f, gives_env.run_bind.trans (Gives.run_bind_of_error ?_)⟩
    rw [hp]
    rfl
  | ok p =>
    obtain ⟨f, hf⟩ | ⟨info, hordered, hi⟩ := Directory.registerFile_run p (env.path S file) s
    · have hfail : (Directory.registerFile p (env.path S file)).toRunning.run.run (env, s) =
          (.error f, (env, s)) :=
        congrArg (fun x : Except Failure Unit × Session σ => (x.1, (env, x.2))) hf
      exact .inl ⟨f, gives_env.run_bind.trans <| (Gives.attempt hp).run_bind.trans <|
        hpath.run_bind.trans <| Gives.run_bind_of_error hfail⟩
    · exact .inr ⟨p, info, rfl, hordered, gives_env.run_bind.trans <| (Gives.attempt hp).run_bind.trans <|
        hpath.run_bind.trans <| (hi.toRunning env).run_bind.trans rfl⟩

theorem Execution.importCanister_inv {name canister file : String} {env env' : Env}
    {s s' : Session σ} (h : Gives (importCanister S name canister (some file)) (env, s) ()
      (env', s')) :
    ∃ p info, env.canister canister = .ok p ∧ info.Ordered ∧
      s' = { s with directory := s.directory.put p info } := by
  obtain ⟨f, hf⟩ | ⟨p, info, hp, hordered, hi⟩ :=
    importCanister_run (S := S) name canister file env s
  · rw [Gives, hf] at h
    cases h
  · rw [Gives, hi] at h
    cases h
    exact ⟨p, info, hp, hordered, rfl⟩

/-- What holds of every interface whose types are in order stays true of what is known of a
canister. -/
theorem Setting.stable_known (S : Setting σ) (canister : Principal) {P : Interface → Prop}
    (hP : ∀ info, info.Ordered → P info) :
    S.Stable fun s => ∀ info, s.directory.find? canister = some info → P info := by
  have hput {s : Session σ} {p : Principal} {info : Interface} (hordered : info.Ordered)
      (hs : ∀ info, s.directory.find? canister = some info → P info) :
      ∀ info', (s.directory.put p info).find? canister = some info' → P info' := by
    intro info' hinfo'
    rw [Table.find?_put] at hinfo'
    split at hinfo'
    · cases hinfo'
      exact hP info hordered
    · exact hs info' hinfo'
  intro s s' hstep hs
  cases hstep with
  | imported himport =>
    obtain ⟨p, info, -, hordered, rfl⟩ := Execution.importCanister_inv himport
    exact hput hordered hs
  | moved hmove =>
    cases hmove with
    | learned p _ info hordered => exact hput hordered hs
    | _ => exact hs

end

namespace Setting.Steady

variable {σ α : Type} {S : Setting σ} {K : Session σ → Prop} (hK : S.Steady K)
include hK

theorem perform {agent : Agent σ} (h : Directory.connected? S = some agent) {act : Action σ α}
    (hact : ∀ I, agent.Stable I → Keeps I act) : Keeps K (Doing.perform act) := fun s hs => by
  have hI : agent.Stable fun w => K { s with world := w } := fun w w' hw hs' =>
    hK { s with world := w } _ (.deed h hw) hs'
  exact ⟨(hact _ hI s.world hs).1, fun _ _ => trivial⟩

theorem display (topic : Topic) (message : String) : Keeps K (Doing.display topic message) :=
  .modify fun s hs => hK s _ (.shown topic message) hs

theorem warn (message : String) : Keeps K (Doing.warn message) := hK.display _ _

theorem fresh (v : Value) : Keeps K (Doing.fresh v) :=
  Keeps.get.bind fun s hs => (Keeps.set (hK s _ (.numbered _) hs)).andThen fun _ => .done

theorem changeDisk (path : File.Path) (change : File.Disk → Except File.Failure File.Disk) :
    Keeps K (Doing.changeDisk path change) := by
  refine (Keeps.attempt_any _).andThen fun _ => Keeps.get.bind fun s hs => ?_
  split
  case h_1 => exact .done
  case h_2 disk _ => exact (Keeps.set (hK s _ (.written disk) hs)).andThen fun _ => .done

theorem clock : Keeps K (ExceptT.lift (Doing.inWorld S.clock) : Doing σ Double) :=
  fun s hs => ⟨hK s _ .clock hs, fun _ _ => trivial⟩

theorem pin : Keeps K (ExceptT.lift (Doing.inWorld S.askPin) : Doing σ String) :=
  fun s hs => ⟨hK s _ .pin hs, fun _ _ => trivial⟩

theorem secret : Keeps K (ExceptT.lift (Doing.inWorld S.newSecret) : Doing σ Bytes) :=
  fun s hs => ⟨hK s _ .secret hs, fun _ _ => trivial⟩

/-! ### The directory -/

theorem searching {agent : Agent σ} (hagent : Directory.connected? S = some agent)
    (canister : Principal) :
    agent.Searching canister fun s => K s ∧ s.directory.find? canister = none where
  shown s topic message hs := ⟨hK s _ (.shown topic message) hs.1, hs.2⟩
  metadata s identity name hs := ⟨hK s _ (.asked hagent identity canister hs.2 name) hs.1, hs.2⟩
  query s identity c hs := ⟨hK s _ (.deed hagent (.query identity c)) hs.1, hs.2⟩

theorem fetch (canister : Principal) :
    Keeps (fun s => K s ∧ s.directory.find? canister = none) (Directory.fetch S canister) := by
  unfold Directory.fetch
  split
  case h_1 agent hagent => exact (hK.searching hagent canister).fetchBy
  case h_2 =>
    exact (Keeps.modify fun s hs => ⟨hK s _ (.shown _ _) hs.1, hs.2⟩).andThen fun _ => .done

theorem lookup (canister : Principal) : Keeps K (Directory.lookup S canister) := by
  intro s hs
  refine ⟨?_, fun _ _ => trivial⟩
  cases hfind : s.directory.find? canister with
  | some info => rwa [Directory.lookup_of_known hfind]
  | none =>
    have hfetch := (hK.fetch canister s ⟨hs, hfind⟩).1
    rw [Directory.lookup_of_unknown hfind, ExceptT.run_bind, StateT.run_bind]
    cases hr : (Directory.fetch S canister).run.run s with
    | mk r s' =>
      rw [hr] at hfetch
      cases r with
      | ok info =>
        have hordered := (Directory.fetch_ordered canister s trivial).2 info (congrArg (·.1) hr)
        exact hK s' _ (.learned canister hfetch.2 info hordered) hfetch.1
      | error f => exact hfetch.1

/-! ### Calls -/

theorem target (canister : Principal) (method : String) :
    Keeps K (Invocation.target S canister method) := by
  refine (hK.lookup canister).andThen fun info => ?_
  dsimp only
  split
  · exact (hK.warn _).andThen fun _ => .done
  · exact .done

theorem logCall (kind : Request.CallKind) (c : Call) : Keeps K (Invocation.logCall S kind c) :=
  Keeps.get.andThen fun _ => (Keeps.attempt_any _).andThen fun signed =>
    (Keeps.modify fun s hs => hK s _ (.logged signed) hs).andThen fun _ => hK.display _ _

theorem transmit {agent : Agent σ} (hagent : Directory.connected? S = some agent)
    (kind : Request.CallKind) (c : Call) : Keeps K (Invocation.transmit S agent kind c) := by
  have locate {act : Action σ Bytes} (hact : ∀ I, agent.Stable I → Keeps I act) :
      Keeps K (MonadExcept.tryCatch (Doing.perform act) fun f => throw (f.located c.site)) :=
    (hK.perform hagent hact).tryCatch fun _ => .throw _
  refine Keeps.get.andThen fun s => ?_
  cases kind with
  | query => exact locate fun _ hI => hI.query _ _
  | update =>
    exact (locate fun _ hI => hI.submit _ _).andThen fun callId =>
      hK.perform hagent fun _ hI => hI.await _ _ _ _ _

theorem send (t : Invocation.Target) (arg : Bytes) : Keeps K (Invocation.send S t arg) := by
  refine (Keeps.attempt_any _).andThen fun effective => ?_
  split
  case isTrue => exact (hK.logCall _ _).andThen fun _ => .done
  case isFalse hon =>
    split
    case h_1 => exact .throw _
    case h_2 agent hagent =>
      exact (hK.transmit (connected?_of_online hon hagent) _ _).andThen fun _ => .done

/-! ### Costs -/

section Connected

variable {agent : Agent σ} (hagent : Directory.connected? S = some agent)
include hagent

theorem counter (canister : Principal) : Keeps K (Invocation.counter agent canister) :=
  (Keeps.attempt_any _).andThen fun _ => Keeps.get.andThen fun _ =>
    (hK.perform hagent fun _ hI => hI.query _ _).andThen fun _ =>
      (Keeps.attempt_any _).andThen fun _ => .attempt_any _

theorem pages (canister : Principal) (fuel : Nat) (page : Int) :
    Keeps K (Measurement.pages agent canister fuel page) := by
  induction fuel generalizing page with
  | zero => exact .throw _
  | succ fuel ih =>
    refine (Keeps.attempt_any _).andThen fun _ => (Keeps.attempt_any _).andThen fun arg => ?_
    refine Keeps.get.andThen fun s => ?_
    refine (hK.perform hagent fun _ hI => hI.query _ _).andThen fun reply => ?_
    refine (Keeps.attempt_any _).andThen fun values => ?_
    split
    case h_1 =>
      refine (Keeps.attempt_any _).andThen fun _ => (Keeps.attempt_any _).andThen fun next? => ?_
      split
      · exact .done
      · exact (ih _).andThen fun _ => .done
    case h_2 => exact .throw _

theorem flamegraph (canister : Principal) (names : Table Int String) (file : File.Path) :
    Keeps K (Measurement.flamegraph agent canister names file) := by
  have warned (p : Prop) [Decidable p] (message : String) {rest : Unit → Doing σ Numeral}
      (h : Keeps K (rest ())) :
      Keeps K (if p then Doing.warn message >>= rest else rest ()) := by
    split
    · exact (hK.warn _).andThen fun _ => h
    · exact h
  refine (hK.pages hagent _ _ _).andThen fun x => ?_
  refine warned _ _ ?_
  split
  case isTrue => exact (hK.warn _).andThen fun _ => .done
  case isFalse =>
    refine (Keeps.attempt_any _).andThen fun folded => ?_
    refine (hK.changeDisk _ _).andThen fun failure? => ?_
    split
    · exact .throw _
    · split
      · exact .done
      · exact (hK.warn _).andThen fun _ => (hK.counter hagent _).andThen fun _ => .attempt_any _

end Connected

theorem call (t : Invocation.Target) (arg : Bytes) : Keeps K (Invocation.call S t arg) := by
  unfold Invocation.call
  split
  case isTrue hmeasured =>
    rw [Invocation.isMeasured, Bool.and_eq_true, Bool.and_eq_true, Bool.not_eq_true'] at hmeasured
    have hon : ¬S.offline = true := by rw [hmeasured.1.1]; decide
    unfold Invocation.callMeasured
    split
    case h_1 => exact .throw _
    case h_2 agent hagent =>
      have hagent := connected?_of_online hon hagent
      exact (hK.counter hagent _).andThen fun _ => (hK.send t arg).andThen fun _ =>
        (hK.counter hagent _).andThen fun _ => (Keeps.attempt_any _).andThen fun _ =>
          (Keeps.attempt_any _).andThen fun _ => .attempt_any _
  case isFalse => exact (hK.send t arg).andThen fun _ => .attempt_any _

/-! ### Functions that are built in -/

theorem output (env : Env) (path content : Value) :
    Keeps K (Evaluation.output S env path content) := by
  refine (Keeps.attempt_any _).andThen fun _ => (Keeps.attempt_any _).andThen fun _ => ?_
  refine (hK.changeDisk _ _).andThen fun failure? => ?_
  split
  · exact .done
  · exact .throw _

theorem writeFlamegraph (env : Env) (canister title path : Value) :
    Keeps K (Evaluation.flamegraph S env canister title path) := by
  unfold Evaluation.flamegraph
  split
  case h_1 => exact .throw _
  case h_2 agent hagent =>
    exact (Keeps.attempt_any _).andThen fun _ => (hK.lookup _).andThen fun _ =>
      (Keeps.attempt_any _).andThen fun _ => (hK.flamegraph hagent _ _ _).andThen fun _ =>
        (Keeps.attempt_any _).andThen fun _ => (hK.display _ _).andThen fun _ => .attempt_any _

theorem callBuiltin (env : Env) (b : Builtin) (args : List Value) :
    Keeps K (Evaluation.callBuiltin S env b args) := by
  unfold Evaluation.callBuiltin
  split
  case h_1 =>
    exact (Keeps.attempt_any _).andThen fun _ => (Keeps.readBytes _).andThen fun _ => .done
  case h_2 => exact hK.output _ _ _
  case h_3 => exact Keeps.wasmProfiling S _ _ _
  case h_4 => exact hK.writeFlamegraph _ _ _ _
  case h_5 =>
    split
    · exact (Keeps.attempt_any _).andThen fun _ => hK.fresh _
    · exact .throw _

/-! ### Identities -/

theorem tokenPin : Keeps K (Execution.tokenPin S) := by
  have ask : Keeps K (Execution.tokenPin.ask S) :=
    hK.pin.andThen fun _ => .guarded fun _ => .done
  unfold Execution.tokenPin
  split
  · split
    · exact .done
    · exact ask
  · exact ask

theorem tokenIdentity (record : Value) : Keeps K (Execution.tokenIdentity S record) := by
  unfold Execution.tokenIdentity
  split
  · exact hK.tokenPin.andThen fun _ => .attempt_any _
  · exact .throw _

theorem namedIdentity (name : String) : Keeps K (Execution.namedIdentity S name) := by
  refine Keeps.get.andThen fun s => ?_
  split
  · exact .done
  · exact hK.secret.andThen fun _ => .done

theorem identityOf (env : Env) (source : Value) : Keeps K (Execution.identityOf S env source) := by
  unfold Execution.identityOf
  split
  · exact Keeps.get.andThen fun _ => .attempt_any _
  · exact hK.tokenIdentity _
  · exact .throw _

end Setting.Steady

end CanisterShell
