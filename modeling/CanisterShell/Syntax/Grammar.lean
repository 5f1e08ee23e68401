import CanisterShell.Candid.Build
import CanisterShell.Syntax.Literal
import CanisterShell.Syntax.Rule
import CanisterShell.Syntax.Tree

/-!
# The grammars of scripts and interfaces

One set of rules for scripts, types and interface files, written so that the next token decides
every choice.  A phrase means an attempt to build its tree: reading comes to its end before a
literal, a label or a type inside the phrase can be refused, and of several such refusals the
first one counts.
-/

namespace CanisterShell.Syntax

open Candid

/-- The nonterminals that refer to each other. -/
inductive Nonterminal where
  | datatype | typeFields | typeArgs | methodSigs
  | exp | unary | primary | args | items | fields | field
  | commands | command | ifCommand | interface
  deriving DecidableEq

/-- A field of a record or variant type as it is written: without label its type stands alone. -/
abbrev TypeField := Option Label × Ty

abbrev Meaning : Nonterminal → Type
  | .datatype => Attempt Ty
  | .typeFields => Attempt (List TypeField)
  | .typeArgs => Attempt (List Ty)
  | .methodSigs => Attempt (List (String × Ty))
  | .exp => Attempt Exp
  | .unary => Attempt Exp
  | .primary => Attempt Exp
  | .args => Attempt (List Exp)
  | .items => Attempt (List Exp)
  | .fields => Attempt (List (Option Label × Exp))
  | .field => Attempt (Option Label × Exp)
  | .commands => Attempt (List Command)
  | .command => Attempt Command
  | .ifCommand => Attempt Command
  | .interface => Attempt (List Item)

abbrev Phrase (α : Type) := Rule Nonterminal Meaning α

namespace Phrase

open Rule (lit optional)

abbrev ref (n : Nonterminal) : Phrase (Meaning n) := Rule.ref n

/-- A token whose characters matter. -/
def nameTok : Phrase Token := .token .name
def textTok : Phrase Token := .token .text
def numberTok : Phrase Token := .token .number

def refuseAt (token : Token) (cause : ParseCause) (expected : List String) : Failure :=
  .error (.parse ⟨cause, some token.span, expected⟩)

/-! ## Labels and names -/

def numberLabel (token : Token) : Attempt Label :=
  if token.lexeme.toList.all Char.isDigit then
    .ok (.numbered (Literal.digitNumber token.lexeme.toList))
  else .error (refuseAt token (.badFieldId token.lexeme) [])

def textLabel (token : Token) : Attempt Label := return .named (← Literal.unquoteText token.lexeme)

def nameLabel (token : Token) : Attempt Label := .ok (.named token.lexeme)

def anyName : Phrase (Attempt String) :=
  ((fun k => .ok k.lexeme) <$> nameTok) <|> ((fun k => Literal.unquoteText k.lexeme) <$> textTok)

/-! ## Types -/

/-- The items of a list in which some marks separate them and one may stand behind the last. -/
def separated {α : Type} (mark : String) (more : Phrase (Attempt (List α)))
    (item : Phrase (Attempt α)) :
    Phrase (Attempt (List α)) :=
  ((fun a rest => do return (← a) :: (← rest)) <$> item
    <*> ((lit mark *> more) <|> pure (.ok []))) <|> pure (.ok [])

/-- The arguments or results of a function type. -/
def tupleType : Phrase (Attempt (List Ty)) := lit "(" *> ref .typeArgs <* lit ")"

/-- The annotation that a name is. -/
def mode (token : Token) : Attempt Mode :=
  match Mode.ofName? token.lexeme with
  | some m => .ok m
  | none =>
    .error (.error (.parse ⟨.unknownMode token.lexeme, none,
      ["composite_query", "oneway", "query"]⟩))

def funcType : Phrase (Attempt Ty) :=
  (fun args results modes => do
    let args ← args
    let results ← results
    return .func args results (← modes.mapM mode))
  <$> tupleType <*> (lit "->" *> tupleType) <*> .many nameTok

/-- The methods of a service type between braces. -/
def serviceBody : Phrase (Attempt Ty) :=
  (fun methods => do return Ty.mkService (← methods))
  <$> (lit "\x7b" *> ref .methodSigs <* lit "\x7d")

/-- The labels of the fields of a record type: a field without one takes the number behind that of
the field before it. -/
def labelFields (next : Nat) : List TypeField → List (Label × Ty)
  | [] => []
  | (label?, t) :: rest =>
    let label := label?.getD (.numbered next)
    (label, t) :: labelFields (label.id + 1) rest

/-- The case of a variant type: a bare name is a case of null. -/
def typeCase : TypeField → Attempt (Label × Ty)
  | (some label, t) => .ok (label, t)
  | (none, .prim p) => .ok (.named p.name, .null)
  | (none, .var name) => .ok (.named name, .null)
  | (none, t) => .error (Literal.refuse (.unlabelledTypeCase t))

/-- The fields of a record or variant type between braces. -/
def typeFields : Phrase (Attempt (List TypeField)) := lit "\x7b" *> ref .typeFields <* lit "\x7d"

def structuralType : Phrase (Attempt Ty) :=
  ((fun _ => .ok .null) <$> lit "null")
  <|> ((fun _ => .ok .principal) <$> lit "principal")
  <|> ((fun _ => .ok .blob) <$> lit "blob")
  <|> ((fun t => do return .opt (← t)) <$> (lit "opt" *> ref .datatype))
  <|> ((fun t => do return .vec (← t)) <$> (lit "vec" *> ref .datatype))
  <|> ((fun fs => do Ty.mkRecord (labelFields 0 (← fs))) <$> (lit "record" *> typeFields))
  <|> ((fun fs => do Ty.mkVariant (← (← fs).mapM typeCase)) <$> (lit "variant" *> typeFields))
  <|> (lit "func" *> funcType)
  <|> (lit "service" *> serviceBody)

def ofType : Phrase (Attempt Ty) := lit ":" *> ref .datatype

/-- A type, whether a name or not. -/
def datatype : Phrase (Attempt Ty) :=
  ((fun k => .ok (.ofName k.lexeme)) <$> nameTok) <|> structuralType

def typeField : Phrase (Attempt TypeField) :=
  ((fun k t? => match t? with
      | some t => do return (some (← nameLabel k), ← t)
      | none => .ok (none, .ofName k.lexeme)) <$> nameTok <*> optional ofType)
  <|> ((fun k t? => match t? with
      | some t => do return (some (← textLabel k), ← t)
      | none => do return (some (← textLabel k), .null)) <$> textTok <*> optional ofType)
  <|> ((fun k t => do return (some (← numberLabel k), ← t)) <$> numberTok <*> ofType)
  <|> ((fun t => do return (none, ← t)) <$> structuralType)

/-- An argument or result of a function type, whose name means nothing. -/
def typeArg : Phrase (Attempt Ty) :=
  ((fun k t? => t?.getD (.ok (.ofName k.lexeme))) <$> nameTok <*> optional ofType)
  <|> structuralType

/-- A method of a service type: its type is a function type or a name. -/
def methodSig : Phrase (Attempt (String × Ty)) :=
  (fun name t => do return (← name, ← t)) <$> anyName
  <*> (lit ":" *> (funcType <|> ((fun k => .ok (.var k.lexeme)) <$> nameTok)))

/-! ## Expressions -/

/-- The principal that a quoted text names. -/
def principalOf (token : Token) : Attempt Principal := do
  match Principal.ofText (← Literal.unquoteText token.lexeme) with
  | .ok p => return p
  | .error fault => throw (refuseAt token (.principal fault) ["principal text"])

def value (v : Attempt Value) : Attempt Exp := return .literal (← v)

def textExp (token : Token) : Attempt Exp :=
  value (do return .text (← Literal.unquoteText token.lexeme))

def numberExp (token : Token) : Attempt Exp := value (Literal.number token.lexeme)

def operate (function : String) (left right : Attempt Exp) : Attempt Exp := do
  let left ← left
  return .apply function [left, ← right]

/-- Expressions between parentheses, behind the last of which a comma may stand. -/
def argList : Phrase (Attempt (List Exp)) := lit "(" *> ref .args <* lit ")"

/-- Expressions between commas, none behind the last. -/
def plainArgs : Phrase (Attempt (List Exp)) :=
  ((fun a as => (a :: as).mapM id) <$> ref .exp <*> .many (lit "," *> ref .exp)) <|> pure (.ok [])

def method : Phrase (Attempt Method) :=
  (fun canister name => do return ⟨← canister, name.lexeme⟩) <$> anyName <*> (lit "." *> nameTok)

def functionName (selector : Token) : Exp → Attempt String
  | .path name [] => .ok name
  | _ => .error (refuseAt selector (.selectorNeedsFunction selector.lexeme) [])

def methodSelector (name : Token) (args : List Exp) : Attempt Selector :=
  match name.lexeme, args with
  | "size", [] => .ok .size
  | "map", [f] => return .map (← functionName name f)
  | "filter", [f] => return .filter (← functionName name f)
  | "fold", [start, f] => return .fold start (← functionName name f)
  | _, _ => .error (refuseAt name (.unknownSelector name.lexeme args.length)
      ["filter(f)", "fold(init, f)", "map(f)", "size()"])

/-- A step of a path. -/
def selector : Phrase (Attempt Selector) :=
  ((fun _ => .ok .unwrap) <$> lit "?")
  <|> ((fun e => do return .index (← e)) <$> (lit "[" *> ref .exp <* lit "]"))
  <|> (lit "." *> (
    ((fun k args? => match args? with
      | some args => do methodSelector k (← args)
      | none => do return .field (← nameLabel k))
      <$> nameTok <*> optional (lit "(" *> plainArgs <* lit ")"))
    <|> ((fun k => do return .field (← numberLabel k)) <$> numberTok)
    <|> ((fun k => do return .field (← textLabel k)) <$> textTok)))

/-- What may follow a name at the start of an expression: arguments or steps of a path. -/
def behindName : Phrase (Token → Attempt Exp) :=
  ((fun args k => do return .apply k.lexeme (← args)) <$> argList)
  <|> ((fun steps k => do return .path k.lexeme (← steps.mapM id)) <$> .many selector)

/-- The variant of a field: a bare name is a case of null. -/
def variantOf : Option Label × Exp → Attempt Exp
  | (some label, e) => .ok (.variant label e)
  | (none, .path name []) => .ok (.variant (.named name) (.literal .null))
  | (none, _) => .error (Literal.refuse .unlabelledCase)

/-- A primary expression that begins with a keyword or a parenthesis. -/
def keywordPrimary : Phrase (Attempt Exp) :=
  ((fun _ => value (.ok .null)) <$> lit "null")
  <|> ((fun _ => value (.ok (.bool true))) <$> lit "true")
  <|> ((fun _ => value (.ok (.bool false))) <$> lit "false")
  <|> ((fun _ => value (.ok (.float .float64 .nanLiteral))) <$> lit "nan")
  <|> ((fun _ => value (.ok (.float .float64 (.infinity false)))) <$> lit "inf")
  <|> ((fun k => value (do return .blob (← Literal.unquoteBytes k.lexeme)))
    <$> (lit "blob" *> textTok))
  <|> ((fun k => value (do return .principal (← principalOf k))) <$> (lit "principal" *> textTok))
  <|> ((fun k => value (do return .service (← principalOf k))) <$> (lit "service" *> textTok))
  <|> ((fun k m => value (do return .func (← principalOf k) m.lexeme))
    <$> (lit "func" *> textTok) <*> (lit "." *> nameTok))
  <|> ((fun e => do return .opt (← e)) <$> (lit "opt" *> ref .unary))
  <|> ((fun es => do return .vec (← es)) <$> (lit "vec" *> lit "\x7b" *> ref .items <* lit "\x7d"))
  <|> ((fun fs => do return .record (← fs))
    <$> (lit "record" *> lit "\x7b" *> ref .fields <* lit "\x7d"))
  <|> ((fun f => do variantOf (← f)) <$> (lit "variant" *> lit "\x7b" *> ref .field <* lit "\x7d"))
  <|> (lit "call" *> (
    ((fun wallet m args => do return .call (some (← m)) (← args) (.proxy wallet.lexeme))
      <$> (lit "as" *> nameTok) <*> method <*> argList)
    <|> ((fun m args => do return .call (some (← m)) (← args) .send) <$> method <*> argList)))
  <|> (lit "encode" *> (
    ((fun args => do return .call none (← args) .encode) <$> argList)
    <|> ((fun m args => do return .call (some (← m)) (← args) .encode) <$> method <*> argList)))
  <|> (lit "decode" *> (
    ((fun m e => do return .decode (some (← m)) (← e)) <$> (lit "as" *> method) <*> ref .primary)
    <|> ((fun e => do return .decode none (← e)) <$> ref .primary)))
  <|> ((fun e => do return .fail (← e)) <$> (lit "fail" *> ref .primary))
  <|> (lit "(" *> ref .exp <* lit ")")

def signedNumber : Phrase (Attempt Exp) :=
  (lit "-" *> (
    ((fun k => value (Literal.number ("-" ++ k.lexeme))) <$> numberTok)
    <|> ((fun _ => value (.ok (.float .float64 (.infinity true)))) <$> lit "inf")))
  <|> (numberExp <$> (lit "+" *> numberTok))

/-- What may follow an operand: factors, terms and a type. -/
def behindOperand : Phrase (Attempt Exp → Attempt Exp) :=
  (fun factors terms t? first =>
    let sum := terms.foldl (fun acc f => f acc) (factors.foldl (fun acc f => f acc) first)
    match t? with
    | some t => do return .annotated (← sum) (← t)
    | none => sum)
  <$> factors
  <*> .many (((fun first factors left =>
      operate "add" left (factors.foldl (fun acc f => f acc) first))
        <$> (lit "+" *> ref .unary) <*> factors)
    <|> ((fun first factors left =>
      operate "sub" left (factors.foldl (fun acc f => f acc) first))
        <$> (lit "-" *> ref .unary) <*> factors))
  <*> optional ofType
where
  /-- The factors behind the first one. -/
  factors : Phrase (List (Attempt Exp → Attempt Exp)) :=
    .many (((fun e left => operate "mul" left e) <$> (lit "*" *> ref .unary))
      <|> ((fun e left => operate "div" left e) <$> (lit "/" *> ref .unary)))

def field : Phrase (Attempt (Option Label × Exp)) :=
  ((fun k rest => rest k)
    <$> nameTok
    <*> (labelled nameLabel
      <|> ((fun head behind k => positional (behind (head k))) <$> behindName <*> behindOperand)))
  <|> ((fun k rest => rest k)
    <$> textTok
    <*> (labelled textLabel
      <|> ((fun behind k => positional (behind (textExp k))) <$> behindOperand)))
  <|> ((fun k rest => rest k)
    <$> numberTok
    <*> (labelled numberLabel
      <|> ((fun behind k => positional (behind (numberExp k))) <$> behindOperand)))
  <|> ((fun e behind => positional (behind e)) <$> (keywordPrimary <|> signedNumber)
    <*> behindOperand)
where
  /-- A field without a label. -/
  positional (e : Attempt Exp) : Attempt (Option Label × Exp) := return (none, ← e)
  /-- The value behind a label that is made from its token. -/
  labelled (label : Token → Attempt Label) :
      Phrase (Token → Attempt (Option Label × Exp)) :=
    (fun e k => do return (some (← label k), ← e)) <$> (lit "=" *> ref .exp)

/-- A name, a text or a number at the start of an expression. -/
def plainPrimary : Phrase (Attempt Exp) :=
  ((fun k behind => behind k) <$> nameTok <*> behindName)
  <|> (textExp <$> textTok)
  <|> (numberExp <$> numberTok)

/-! ## Commands -/

def placed (action : Phrase (Attempt Action)) : Phrase (Attempt Command) :=
  (fun x => do return .mk x.1 (← x.2)) <$> .spanned action

/-- Commands between braces. -/
def block : Phrase (Attempt (List Command)) := lit "\x7b" *> ref .commands <* lit "\x7d"

def quotedText : Phrase (Attempt String) :=
  (fun k => Literal.unquoteText k.lexeme) <$> textTok

/-- A conditional; what follows `else` is a block or a further conditional. -/
def ifAction : Phrase (Attempt Action) :=
  (fun cond yes no? => do
    let cond ← cond
    let yes ← yes
    return .branch cond yes (← no?.getD (.ok [])))
  <$> (lit "if" *> ref .exp) <*> block
  <*> optional (lit "else" *> (block <|> ((fun c => do return [← c]) <$> ref .ifCommand)))

/-- A function definition, whose parameters differ. -/
def functionAction : Phrase (Attempt Action) :=
  (fun name params body => do
    let body ← body
    if params.eraseDups.length ≠ params.length then
      throw (refuseAt name (.repeatedParameter name.lexeme) [])
    return .define name.lexeme params body)
  <$> (lit "function" *> nameTok)
  <*> (lit "(" *> (((fun k ks => (k :: ks).map Token.lexeme) <$> nameTok
    <*> .many (lit "," *> nameTok)) <|> pure []) <* lit ")")
  <*> block

def command : Phrase (Attempt Command) := placed (
  ((fun name e => do return .bind name.lexeme (← e)) <$> (lit "let" *> nameTok)
    <*> (lit "=" *> ref .exp))
  <|> ((fun left op right => do
      let left ← left
      return .assertion op.lexeme left (← right))
    <$> (lit "assert" *> ref .exp) <*> .token .assertOp <*> ref .exp)
  <|> ((fun name canister interface? => do
      let interface? ← interface?.mapM id
      return .importCanister name.lexeme (← canister) interface?)
    <$> (lit "import" *> nameTok) <*> (lit "=" *> quotedText)
    <*> optional (lit "as" *> quotedText))
  <|> ((fun source => do return .configure (← source)) <$> (lit "config" *> quotedText))
  <|> ((fun name source? => do return .useIdentity name.lexeme (← source?.mapM id))
    <$> (lit "identity" *> nameTok) <*> optional (ref .exp))
  <|> ((fun path => do return .saveTo (← path)) <$> (lit "export" *> quotedText))
  <|> ((fun path => do return .loadFrom (← path)) <$> (lit "load" *> quotedText))
  <|> functionAction
  <|> ifAction
  <|> ((fun cond body => do
      let cond ← cond
      return .loop cond (← body)) <$> (lit "while" *> ref .exp) <*> block)
  <|> ((fun e => do return .evaluate (← e)) <$> ref .exp))

/-- Commands between semicolons, which may also stand without one. -/
def commands : Phrase (Attempt (List Command)) :=
  (lit ";" *> ref .commands)
  <|> ((fun c rest => do return (← c) :: (← rest)) <$> ref .command
    <*> ((lit ";" *> ref .commands) <|> pure (.ok [])))
  <|> pure (.ok [])

/-! ## Interfaces -/

/-- The service that an interface offers, perhaps with arguments of its installation. -/
def actor : Phrase (Attempt Item) :=
  (fun init? t => do
    let init? ← init?.mapM id
    return .actor init? (← t))
  <$> (lit "service" *> optional nameTok *> lit ":" *> optional (tupleType <* lit "->"))
  <*> (serviceBody <|> ((fun k => .ok (.var k.lexeme)) <$> nameTok))

/-- The service at the end, if there is one, and a semicolon that may follow it. -/
def lastItem : Phrase (Attempt (List Item)) :=
  ((fun a => do return [← a]) <$> (actor <* optional (lit ";"))) <|> pure (.ok [])

/-- A definition of a type, or a file to be taken in. -/
def definition : Phrase (Attempt Item) :=
  ((fun name t => do return .define name.lexeme (← t)) <$> (lit "type" *> nameTok)
    <*> (lit "=" *> ref .datatype))
  <|> ((fun path => do return .includeFile (← path)) <$> (lit "import" *> quotedText))

/-- Definitions between semicolons and then a service. -/
def interface : Phrase (Attempt (List Item)) :=
  ((fun d rest => do return (← d) :: (← rest)) <$> definition
    <*> ((lit ";" *> ref .interface) <|> lastItem))
  <|> lastItem

/-! ## The rules -/

def rules : (n : Nonterminal) → Phrase (Meaning n)
  | .datatype => datatype
  | .typeFields => separated ";" (ref .typeFields) typeField
  | .typeArgs => separated "," (ref .typeArgs) typeArg
  | .methodSigs => separated ";" (ref .methodSigs) methodSig
  | .exp => (fun e behind => behind e) <$> ref .unary <*> behindOperand
  | .unary => plainPrimary <|> keywordPrimary <|> signedNumber
  | .primary => plainPrimary <|> keywordPrimary
  | .args => separated "," (ref .args) (ref .exp)
  | .items => separated ";" (ref .items) (ref .exp)
  | .fields => separated ";" (ref .fields) (ref .field)
  | .field => field
  | .commands => commands
  | .command => command
  | .ifCommand => placed ifAction
  | .interface => interface

def typeKeywords : List String :=
  ["null", "principal", "blob", "opt", "vec", "record", "variant", "func", "service"]

end Phrase

def scriptGrammar : Grammar Nonterminal Meaning where
  rules := Phrase.rules
  size := 16
  lexicon := {
    keywords := Phrase.typeKeywords ++ [
      "let", "assert", "import", "as", "config", "identity", "export", "load", "function", "if",
      "else", "while", "inf", "call", "encode", "decode", "fail", "true", "false", "nan"]
    symbols := ["(", ")", "*", "+", ",", "-", "->", ".", "/", ":", ";", "=", "?", "[", "]",
      "\x7b", "\x7d"]
    assertOps := ["==", "~=", "!="] }

def interfaceGrammar : Grammar Nonterminal Meaning where
  rules := Phrase.rules
  size := 16
  lexicon := {
    keywords := Phrase.typeKeywords ++ ["type", "import"]
    symbols := ["(", ")", ",", "->", ":", ";", "=", "\x7b", "\x7d"]
    assertOps := [] }

end CanisterShell.Syntax
