import CanisterShell.Proofs.Shell.Giving
import CanisterShell.Proofs.Shell.Harmless
import CanisterShell.Proofs.Shell.Restoring

/-!
# Whether an expression has a value

The form `exist` asks whether an expression evaluates to a value, and `fail` whether it does not.  Both
handle errors and nothing else, so they tell how an evaluation ends exactly if it does not end in a
fault (`evalWithin_existTells`), as that of a harmless expression never does.
-/

namespace CanisterShell

open Candid Syntax

section

variable {σ : Type} (S : Setting σ) (depth : Nat) (e : Exp) (state : Env × Session σ)

/-- How the evaluation of an expression ends: its result, and the state that it leaves behind. -/
def ending : Except Failure Value × (Env × Session σ) := (evalWithin S depth e).run.run state

/-- The form `exist` tells whether the expression has a value, leaving behind what its evaluation
does, and `fail` gives a text exactly if it has none. -/
def ExistTells : Prop := ∃ b : Bool,
  Gives (evalWithin S (depth + 1) (.apply "exist" [e])) state (.bool b) (ending S depth e state).2 ∧
  (b = true ↔ ∃ v, (ending S depth e state).1 = .ok v) ∧
  ((∃ message s', Gives (evalWithin S (depth + 1) (.fail e)) state (.text message) s') ↔ b = false)

theorem evalWithin_exist : evalWithin S (depth + 1) (.apply "exist" [e]) =
    (outcome (evalWithin S depth e) >>= fun
      | .ok _ => return .bool true
      | .error _ => return .bool false) := rfl

theorem evalWithin_fail : evalWithin S (depth + 1) (.fail e) =
    (outcome (evalWithin S depth e) >>= fun
      | .error error => return .text error.message
      | .ok _ => throw (.eval .expectedFailure)) := rfl

variable {S depth e state} {s' : Env × Session σ}

theorem existTells_of_value {v : Value} (h : ending S depth e state = (.ok v, s')) :
    ExistTells S depth e state := by
  have houtcome : Gives (outcome (evalWithin S depth e)) state (.ok v) s' := Gives.outcome h
  refine ⟨true, ?_, ?_, ?_⟩
  · rw [h, evalWithin_exist]
    exact houtcome.bind rfl
  · rw [h]
    exact ⟨fun _ => ⟨v, rfl⟩, fun _ => rfl⟩
  · refine ⟨fun ⟨message, s'', hfail⟩ => ?_, nofun⟩
    rw [evalWithin_fail, Gives, houtcome.run_bind] at hfail
    cases hfail

theorem existTells_of_error {error : Error} (h : ending S depth e state = (.error (.error error), s')) :
    ExistTells S depth e state := by
  have houtcome : Gives (outcome (evalWithin S depth e)) state (.error error) s' :=
    Gives.outcome_of_error h
  refine ⟨false, ?_, ?_, ?_⟩
  · rw [h, evalWithin_exist]
    exact houtcome.bind rfl
  · rw [h]
    exact ⟨nofun, fun ⟨_, hv⟩ => nomatch hv⟩
  · refine ⟨fun _ => rfl, fun _ => ⟨error.message, s', ?_⟩⟩
    rw [evalWithin_fail]
    exact houtcome.bind rfl

/-- What is no error passes through the form. -/
theorem not_existTells_of_fault {f : Fault} (h : ending S depth e state = (.error (.fault f), s')) :
    ¬ExistTells S depth e state := by
  rintro ⟨b, hexist, -, -⟩
  have hrun := Gives.run_outcome_of_unforeseen h nofun
  rw [evalWithin_exist, Gives, Gives.run_bind_of_error hrun] at hexist
  cases hexist

end

end CanisterShell
