import CanisterShell.Profiling.Trace
import CanisterShell.Shell.Invocation

/-!
# Flame graphs

The trace of the last call to a canister that counts its cycles, asked for page by page, is folded
and written to a file.
-/

namespace CanisterShell.Measurement

open Candid

variable {σ : Type}

def traceMethod : String := "__get_profiling"

/-- The types of a page: its entries, and the number of the next page if there is one. -/
def pageTypes : List Ty :=
  [.vec (.tuple [.prim (.int .int32), .prim (.int .int64)]), .opt (.prim (.int .int32))]

def wholeField (fields : List (Label × Value)) (i : Nat) : Attempt Int :=
  match (lookup? (.numbered i) fields).bind Value.integer? with
  | some n => .ok n
  | none => .error (.fault .wrongType)

def entryOf : Value → Attempt (Int × Int)
  | .record fields => do return (← wholeField fields 0, ← wholeField fields 1)
  | _ => .error (.fault .missingAttribute)

/-- The entries of a page; something else than a vector has none. -/
def entriesOf : Value → Attempt (List (Int × Int))
  | .vec items => items.mapM entryOf
  | _ => .ok []

/-- The page behind this one. -/
def nextOf : Value → Attempt (Option Int)
  | .opt v =>
    match v.integer? with
    | some n => .ok (some n)
    | none => .error (.fault .wrongType)
  | _ => .ok none

/-- The number of pages after which reading a trace is cut off: a canister may always name another
one, so that nothing else bounds their number. -/
def mostPages : Nat := 2 ^ 20

def pages (agent : Agent σ) (canister : Principal) : (fuel : Nat) → (page : Int) →
    Doing σ (List (Int × Int) × Nat)
  | 0, _ => throw .exhausted
  | fuel + 1, page => do
    let arg ← encodeArgs [← Value.mkInt .int32 page]
    let reply ← Doing.perform
      (agent.query (← get).identity ⟨canister, traceMethod, arg, canister⟩)
    match ← decodeAs [] reply pageTypes with
    | [entries, next] =>
      let here ← entriesOf entries
      match ← nextOf next with
      | none => return (here, 1)
      | some page =>
        let (later, n) ← pages agent canister fuel page
        return (here ++ later, n + 1)
    | _ => throw (.fault (.badValue "a page has two parts"))

/-- Writes the folded trace of the last call to a file, and returns the cost of the call. -/
def flamegraph (agent : Agent σ) (canister : Principal) (names : Table Int String)
    (file : File.Path) : Doing σ Numeral := do
  let (entries, count) ← pages agent canister mostPages 0
  if 1 < count then Doing.warn ("large trace: " ++ toString (count * 2) ++ "MB")
  if entries.isEmpty then
    Doing.warn "empty trace"
    return .whole 0
  let folded ← ((Trace.fold names entries).mapError Failure.eval : Attempt Trace.Folded)
  match ← Doing.writeText file ("\n".intercalate folded.lines ++ "\n") with
  | some failure => throw (.fault (.file failure))
  | none =>
    match folded.cost? with
    | some cost => return .whole cost
    | none =>
      Doing.warn "a trap occurred or the trace is too large"
      Invocation.cyclesBetween (folded.start?.map .whole) (← Invocation.counter agent canister)

end CanisterShell.Measurement
