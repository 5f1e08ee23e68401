import CanisterShell.Candid.Value
import CanisterShell.Text.Span

/-!
# Syntax trees

Expressions and commands of scripts, and the items of interface files.  A command knows the part of
the prepared source that it was read from.
-/

namespace CanisterShell.Syntax

open Candid

/-- A method of a canister, which is a variable or the text of a principal. -/
structure Method where
  canister : String
  name : String
  deriving DecidableEq, Repr

/-- What is done with an encoded argument list: it is sent, sent through a wallet, or returned. -/
inductive CallMode where
  | send
  | proxy (wallet : String)
  | encode
  deriving DecidableEq, Repr

mutual

/-- The expressions of scripts. -/
inductive Exp where
  | literal (v : Value)
  | path (name : String) (selectors : List Selector)
  | opt (item : Exp)
  | vec (items : List Exp)
  | record (fields : List (Option Label × Exp))
  | variant (label : Label) (item : Exp)
  | annotated (e : Exp) (t : Ty)
  | apply (function : String) (args : List Exp)
  | call (method : Option Method) (args : List Exp) (mode : CallMode)
  | decode (method : Option Method) (blob : Exp)
  | fail (e : Exp)

/-- The steps of a path into a value. -/
inductive Selector where
  | index (e : Exp)
  | field (label : Label)
  | unwrap
  | size
  | map (function : String)
  | filter (function : String)
  | fold (start : Exp) (function : String)

end

instance : Inhabited Exp := ⟨.literal .null⟩

mutual

/-- The commands of scripts, with their place in the source. -/
inductive Command where
  | mk (span : Text.Span) (action : Action)

/-- What a command does. -/
inductive Action where
  | bind (name : String) (e : Exp)
  | evaluate (e : Exp)
  | assertion (op : String) (left right : Exp)
  | importCanister (name canister : String) (interface? : Option String)
  | configure (source : String)
  | useIdentity (name : String) (source? : Option Exp)
  | saveTo (path : String)
  | loadFrom (path : String)
  | define (name : String) (params : List String) (body : List Command)
  | branch (cond : Exp) (yes no : List Command)
  | loop (cond : Exp) (body : List Command)

end

/-- The place of a command in the source. -/
def Command.span : Command → Text.Span
  | mk span _ => span

def Command.action : Command → Action
  | mk _ action => action

/-- The items of an interface file. -/
inductive Item where
  | define (name : String) (t : Ty)
  | includeFile (path : String)
  | actor (init? : Option (List Ty)) (service : Ty)

end CanisterShell.Syntax
