import CanisterShell.Proofs.Shell.Isolation
import CanisterShell.Proofs.Shell.Keeping

/-!
# Sessions that are offline are silent

Every operation of an agent can be recorded (`Agent.recording`).  In a session that is offline none
ever is, whatever scripts are run and whatever hints are asked for, with or without an agent: of the
steps of such a session none is a deed of an agent (`respondAll_silent`).
-/

namespace CanisterShell

theorem Setting.Stable.shellKeeping {σ : Type} {S : Setting σ} {K : Session σ → Prop}
    (hK : S.Stable K) : Shell.Keeping S (RunsAnywhere K) where
  shown _ s topic message h := hK s _ (.moved (.shown topic message)) h
  cleared _ s h := hK s _ (.moved .cleared) h
  command _ _ _ c _ := (keeping_within hK mostDepth).run c

/-! ## Recording -/

inductive Agent.Operation where
  | query (c : Call)
  | submit (c : Call)
  | status (effective : Principal) (callId : Bytes)
  | metadata (canister : Principal) (name : String)

/-- A world, and the operations that an agent has performed, the latest first. -/
abbrev Recorded (σ : Type) := σ × List Agent.Operation

namespace Recorded

variable {σ α : Type}

/-- Something done in the world that is no operation. -/
def aside (act : StateM σ α) : StateM (Recorded σ) α := fun (w, log) =>
  let (a, w) := act.run w
  (a, (w, log))

/-- An operation performed in the world. -/
def noted (op : Agent.Operation) (act : Action σ α) : Action (Recorded σ) α :=
  ExceptT.mk fun (w, log) =>
    let (a, w) := act.run.run w
    (a, (w, op :: log))

end Recorded

open Recorded

def Agent.recording {σ : Type} (agent : Agent σ) : Agent (Recorded σ) where
  query identity c := noted (.query c) (agent.query identity c)
  submit identity c := noted (.submit c) (agent.submit identity c)
  status identity effective callId :=
    noted (.status effective callId) (agent.status identity effective callId)
  metadata identity canister name :=
    noted (.metadata canister name) (agent.metadata identity canister name)
  timer := {
    clock := aside agent.timer.clock
    sleep := fun delay => aside (agent.timer.sleep delay) }

/-- A setting whose agent's operations are recorded. -/
def Setting.recording {σ : Type} (S : Setting σ) : Setting (Recorded σ) where
  agent? := S.agent?.map Agent.recording
  offline := S.offline
  replicaUrl := S.replicaUrl
  poll := S.poll
  environ := S.environ
  homes := S.homes
  now := S.now
  expiries := S.expiries
  hardwareKeys := S.hardwareKeys
  instrument := S.instrument
  clock := aside S.clock
  askPin := aside S.askPin
  newSecret := aside S.newSecret

theorem stable_recording {σ : Type} (S : Setting σ) (h : S.offline = true)
    (log : List Agent.Operation) : S.recording.Stable fun s => s.world.2 = log := by
  intro s s' hstep hs
  have hmute {agent : Agent (Recorded σ)} (hagent : Directory.connected? S.recording = some agent) :
      False := by
    rw [Directory.connected?, Setting.recording, if_pos h] at hagent
    cases hagent
  cases hstep with
  | imported himport =>
    obtain ⟨p, info, -, -, rfl⟩ := Execution.importCanister_inv himport
    exact hs
  | moved hmove =>
    cases hmove with
    | asked hagent => exact (hmute hagent).elim
    | deed hagent _ => exact (hmute hagent).elim
    | _ => exact hs

/-- However many scripts a session that is offline runs and however many hints it gives, no operation
of an agent is performed. -/
theorem respondAll_silent {σ : Type} (S : Setting σ) (h : S.offline = true) (inputs : List Input)
    (sh : Shell (Recorded σ)) :
    (respondAll S.recording inputs sh).session.world.2 = sh.session.world.2 :=
  (stable_recording S h sh.session.world.2).shellKeeping.respondAll inputs sh rfl

/-- An agent all of whose operations fail. -/
def mute : Agent Unit where
  query _ _ := throw .exhausted
  submit _ _ := throw .exhausted
  status _ _ _ := throw .exhausted
  metadata _ _ _ := throw .exhausted
  timer := { clock := return .whole 0, sleep := fun _ => return }

/-- A session with such an agent. -/
def muted (offline : Bool) : Setting Unit where
  agent? := some mute
  offline := offline
  replicaUrl := "https://ic0.app"
  now := 0
  clock := return .zero
  askPin := return ""
  newSecret := return []

/-- The session at its start. -/
def mutedShell : Shell (Recorded Unit) := .start ((), []) ⟨[], []⟩ ⟨"/", []⟩

/-- A session that is connected does ask for the interface of a canister. -/
example : ((Directory.lookup (muted false).recording .anonymous).run.run
    mutedShell.session).2.world.2 = [.metadata .anonymous "candid:service"] := by rfl

/-- A call and a hint in a session that has an agent and is offline. -/
theorem respondAll_silent_call :
    (muted true).offline = true ∧ (respondAll (muted true).recording
      [.script "call \"aaaaa-aa\".raw_rand()", .line "call \"aaaaa-aa\".raw_rand("]
        mutedShell).session.world.2 = [] :=
  ⟨rfl, respondAll_silent (muted true) rfl _ mutedShell⟩

end CanisterShell
