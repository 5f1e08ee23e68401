import CanisterShell.Candid.Cast
import CanisterShell.Shell.Builtin
import CanisterShell.Shell.Measurement
import CanisterShell.Shell.Selection

/-!
# Evaluation

One step of the evaluation of an expression, given how its parts are evaluated and how commands are
run.  Functions run in a child of the environment, and what they leave behind there is dropped
except for their result.
-/

namespace CanisterShell

open Candid Syntax

/-- How expressions are evaluated and commands run. -/
structure Engine (σ : Type) where
  eval : Exp → Running σ Value
  run : Command → Running σ (Option Value)

namespace Engine

/-- Runs commands one after another. -/
def block {σ : Type} (self : Engine σ) (commands : List Command) : Running σ Unit :=
  commands.forM fun c => do let _ ← self.run c

end Engine

namespace Evaluation

variable {σ : Type} (S : Setting σ) (self : Engine σ)

/-! ## Functions -/

/-- The environment in which a function runs: the caller's without a result, and with the parameters
bound. -/
def callee (params : List String) (args : List Value) (caller : Env) : Env :=
  (params.zip args).foldl (fun e p => e.bind p.1 p.2)
    { caller with vars := caller.vars.without "_" }

/-- Calls a function of a script; its result is what its commands leave in `_`. -/
def callFunction (name : String) (f : Function) (args : List Value) : Running σ Value := do
  if f.params.length ≠ args.length then
    throw (.error (.arity name (.exactly f.params.length) args.length))
  Running.inChild (callee f.params args) do
    self.block f.body
    return ((← Running.env).vars.find? "_").getD .null

def readBytes (path : File.Path) : Doing σ Bytes := do
  match ← Doing.readFile path with
  | .ok bytes => return bytes
  | .error failure => throw (.eval (.cannotRead path failure))

/-- Adds a text to a file. -/
def output (env : Env) (path content : Value) : Doing σ Value := do
  let path := env.path S (← Builtin.textOf "output" path)
  let text ← Builtin.textOf "output" content
  match ← Doing.appendText path text with
  | none => return content
  | some failure => throw (.eval (.cannotWrite path failure))

def functionNames : Value → Attempt (List String)
  | .vec items => items.mapM (Builtin.textOf "wasm_profiling")
  | _ => .error (.eval .profilingNames)

/-- Changes a program in a file so that it counts its cycles. -/
def wasmProfiling (env : Env) (path : Value) (names : List Value) : Doing σ Value := do
  if 1 < names.length then throw (.eval .profilingArguments)
  let bytes ← readBytes (env.path S (← Builtin.textOf "wasm_profiling" path))
  let selected? ← match names with
    | names :: _ => some <$> functionNames names
    | [] => pure none
  return .blob (← S.instrument bytes selected?)

/-- Writes the folded trace of a canister's last call to a file. -/
def flamegraph (env : Env) (canister title path : Value) : Doing σ Value := do
  match Directory.connected? S with
  | none => throw (.eval .notConnected)
  | some agent =>
    let p ← Builtin.principalOf "flamegraph" canister
    let info ← Directory.lookup S p
    let path := env.path S (← Builtin.textOf "flamegraph" path)
    let cost ← Measurement.flamegraph agent p (info.functionNames?.getD []) path
    let title ← Builtin.textOf "flamegraph" title
    Doing.display .output ("Flamegraph of " ++ title ++ " written to " ++ path.toText)
    Cost.toValue cost

def callBuiltin (env : Env) (b : Builtin) (args : List Value) : Doing σ Value := do
  match b, args with
  | .file, [path] => return .blob (← readBytes (env.path S (← Builtin.textOf "file" path)))
  | .output, [path, content] => output S env path content
  | .wasmProfiling, path :: names => wasmProfiling S env path names
  | .flamegraph, [canister, title, path] => flamegraph S env canister title path
  | b, args =>
    match b.result? args with
    | some r => Doing.fresh (← r)
    | none => throw .exhausted

/-- Evaluates the call of a function that takes expressions. -/
def callForm (b : Builtin) (args : List Exp) : Running σ Value := do
  match b, args with
  | .exist, [e] =>
    match ← outcome (self.eval e) with
    | .ok _ => return .bool true
    | .error _ => return .bool false
  | .ite, [cond, yes, no] =>
    if ← Builtin.boolOf "ite" (← self.eval cond) then self.eval yes else self.eval no
  | _, _ => throw .exhausted

/-- Evaluates the call of a function: one that is built in, or else one of the script. -/
def apply (name : String) (args : List Exp) : Running σ Value := do
  match Builtin.ofName? name with
  | some b =>
    if b.takesExpressions then
      if !b.arity.takes args.length then throw (.error (.arity name b.arity args.length))
      callForm self b args
    else
      let values ← args.mapM self.eval
      if !b.arity.takes values.length then throw (.error (.arity name b.arity values.length))
      Doing.toRunning (callBuiltin S (← Running.env) b values)
  | none =>
    match (← Running.env).functions.find? name with
    | some f => callFunction self name f (← args.mapM self.eval)
    | none => throw (.eval (.unknownFunction name))

/-! ## Records -/

/-- Evaluates fields; one without a label is numbered one above the field before it. -/
def fields (next : Nat) : List (Option Label × Exp) → Running σ (List (Label × Value))
  | [] => return []
  | (label?, e) :: rest => do
    let label := label?.getD (.numbered next)
    let v ← self.eval e
    return (label, v) :: (← fields (label.id + 1) rest)

/-! ## Calls -/

def relayMethod : String := "wallet_call"

/-- The call that asks a wallet to relay the call in `_msg`. -/
def relay (wallet canister : Principal) (method : String) : Exp :=
  .call (some ⟨wallet.toText, relayMethod⟩)
    [.record [
      (some (.named "args"), .path "_msg" []),
      (some (.named "cycles"), .literal (.number 0)),
      (some (.named "method_name"), .literal (.text method)),
      (some (.named "canister"), .literal (.principal canister))]] .send

/-- Decodes the reply that the wallet's result in `_` holds. -/
def relayed (canister : Principal) (method : String) : Exp :=
  .decode (some ⟨canister.toText, method⟩)
    (.path "_" [.field (.named "Ok"), .field (.named "return")])

/-- Has a wallet relay a call, and returns the result of the call. -/
def proxy (wallet : String) (m : Method) (arg : Bytes) : Running σ Value := do
  let canister ← (← Running.env).canister m.canister
  let wallet ← (← Running.env).canister wallet
  Running.inChild (Env.bind "_msg" (.blob arg)) do
    let reply ← self.eval (relay wallet canister m.name)
    Running.modifyEnv (Env.bind "_" (Cost.split reply).1)
    self.eval (relayed canister m.name)

/-- What is known of a method that an expression names. -/
def target (m : Method) : Running σ Invocation.Target := do
  let canister ← (← Running.env).canister m.canister
  Doing.toRunning (Invocation.target S canister m.name)

def call (method? : Option Method) (args : List Exp) (mode : CallMode) : Running σ Value := do
  let values ← args.mapM self.eval
  match method? with
  | none => return .blob (← encodeArgs values)
  | some m =>
    let t ← target S m
    let arg ← t.encode values
    match mode with
    | .encode => return .blob arg
    | .proxy wallet => proxy self wallet m arg
    | .send => Doing.toRunning do Doing.fresh (← Invocation.call S t arg)

def decode (method? : Option Method) (blob : Exp) : Running σ Value := do
  match (← self.eval blob).bytes? with
  | none => throw (.eval .decodeNeedsBlob)
  | some bytes =>
    let decoded ← match method? with
      | none => pure (Value.ofResults (← decodeArgs bytes))
      | some m => (← target S m).decode bytes
    Doing.toRunning (Doing.fresh decoded)

/-! ## Expressions -/

/-- Evaluates an expression that has to fail with an error, to the message of the error. -/
def failing (e : Exp) : Running σ Value := do
  match ← outcome (self.eval e) with
  | .error error => return .text error.message
  | .ok _ => throw (.eval .expectedFailure)

def step (e : Exp) : Running σ Value := do
  match e with
  | .literal v => Doing.toRunning (Doing.fresh v)
  | .path name selectors => Selection.walk self.eval (← (← Running.env).lookup name) selectors
  | .opt e => return .opt (← self.eval e)
  | .vec es => return .vec (← es.mapM self.eval)
  | .record fs => Value.mkRecord (← fields self 0 fs)
  | .variant label e => return .variant label (← self.eval e) 0
  | .annotated e t =>
    let v ← (← self.eval e).cast [] t
    Doing.toRunning (Doing.fresh v)
  | .apply name args => apply S self name args
  | .call method? args mode => call S self method? args mode
  | .decode method? blob => decode S self method? blob
  | .fail e => failing self e

end Evaluation

end CanisterShell
