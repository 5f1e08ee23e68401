import CanisterShell.Random.Generator
import CanisterShell.Shell.Script
import CanisterShell.Text.Word

/-!
# Hints

A line that breaks off in the arguments of a call is completed with random arguments for the method,
as far as its interface is known already.
-/

namespace CanisterShell

open Candid

/-- The call at the end of a line; `given?` is what stands behind the opening parenthesis, if that
has been written. -/
structure PartialCall where
  canister : String
  method : String
  given? : Option String

namespace PartialCall

/-- The characters without the blanks in front, of which there is at least one. -/
def blanks? (cs : List Char) : Option (List Char) :=
  match cs with
  | c :: _ => if Text.isBlank c then some (Text.trimLeft cs) else none
  | [] => none

/-- The characters behind a word in front. -/
def behind? (word : String) (cs : List Char) : Option (List Char) :=
  if word.toList.isPrefixOf cs then some (cs.drop word.length) else none

/-- Skips the wallet that relays the call, if there is one. -/
def skipWallet (cs : List Char) : List Char :=
  let skipped : Option (List Char) := do
    let cs ← blanks? (← behind? "as" (← blanks? cs))
    let word := cs.takeWhile Text.isWord
    if word.isEmpty then none else some (cs.drop word.length)
  skipped.getD cs

/-- Takes an identifier. -/
def name? (cs : List Char) : Option (String × List Char) :=
  let name := Source.leadingName cs
  if name.isEmpty then none else some (String.ofList name, cs.drop name.length)

/-- Takes a canister: an identifier, or a text between quotes. -/
def canister? : List Char → Option (String × List Char)
  | '"' :: rest =>
    let inner := rest.takeWhile (· ≠ '"')
    if inner.length = rest.length then none
    else some (String.ofList inner, rest.drop (inner.length + 1))
  | cs => name? cs

/-- Whether a line ends here, a last line feed aside. -/
def isEnd (cs : List Char) : Bool := cs.isEmpty || cs = ['\n']

/-- What is given behind a method: `none` if the line does not end there. -/
def given?? (cs : List Char) : Option (Option String) :=
  match Text.trimLeft cs with
  | '(' :: rest =>
    let given := rest.takeWhile (· ≠ '\n')
    if isEnd (rest.drop given.length) then some (some (String.ofList given)) else none
  | rest => if isEnd rest then some none else none

/-- The call whose keyword ends in front. -/
def afterKeyword? (cs : List Char) : Option PartialCall := do
  let (canister, rest) ← canister? (← blanks? cs)
  let (method, rest) ← name? (← behind? "." rest)
  return ⟨canister, method, ← given?? rest⟩

/-- The call that begins in front. -/
def here? (cs : List Char) : Option PartialCall :=
  match behind? "call" cs with
  | some rest => afterKeyword? (skipWallet rest) <|> afterKeyword? rest
  | none => (behind? "encode" cs).bind afterKeyword?

/-- The first call that a line ends in. -/
def find? : List Char → Option PartialCall
  | [] => none
  | c :: rest => here? (c :: rest) <|> find? rest

/-- Whether the arguments have been closed already. -/
def isClosed (p : PartialCall) : Bool :=
  p.given?.any fun given => (Text.trimRight given.toList).getLast? = some ')'

end PartialCall

namespace Hint

/-- The number of arguments that a text gives.  If the text closes its parenthesis and goes on, it is the
operator behind it whose operands are counted. -/
def countOf (environ : Source.Environ) (given : String) : Attempt Nat := do
  if (Text.trim given).isEmpty then return 0
  match ← Syntax.parseExp environ ("encode (" ++ given ++ ")") with
  | .call _ args _ | .apply _ args => return args.length
  | _ => throw (.fault .missingAttribute)

/-- What completes a call that has so many arguments of those given in texts. -/
def completion (isOpen : Bool) (count : Nat) (texts : List String) : String :=
  if !isOpen then "(" ++ ", ".intercalate texts ++ ")"
  else if count = 0 then ", ".intercalate texts ++ ")"
  else if texts.length < count then ""
  else String.join ((texts.drop count).map (", " ++ ·)) ++ ")"

/-- An attempt whose error means that there is nothing. -/
def orNothing {α : Type} : Attempt α → Attempt (Option α)
  | .ok a => .ok (some a)
  | .error (.error _) => .ok none
  | .error f => .error f

/-- The signature of the method of a call, and the scope of its interface, if they are known. -/
def signature? {σ : Type} (sh : Shell σ) (p : PartialCall) : Option (Scope × Signature) := do
  let canister ← (sh.env.canister p.canister).toOption
  let info ← sh.session.directory.find? canister
  return (info.scope, ← info.signature? p.method)

def forLine {σ : Type} (S : Setting σ) (sh : Shell σ) (line : String) : Attempt (Option String) :=
  match PartialCall.find? line.toList with
  | none => .ok none
  | some p =>
    if p.isClosed then .ok none
    else match signature? sh p with
      | none => .ok none
      | some (scope, s) => orNothing do
        let config := sh.env.config
        let values ← Random.values config scope (config.seed?.getD S.now.toNat) s.args
        let count ← countOf S.environ (p.given?.getD "")
        return completion p.given?.isSome count (values.map Value.toText)

end Hint

end CanisterShell
