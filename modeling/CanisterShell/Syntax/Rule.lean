import CanisterShell.Error
import CanisterShell.Syntax.Token

/-!
# Grammars as data

A rule is a piece of grammar together with what its phrases mean: a token, a sequence, a choice, a
repetition, or a reference to a nonterminal.  Reading chooses by the next token alone.  It keeps the
classes of tokens that it has asked for since the last one it took, so that a refusal comes with
exactly what could have stood there.
-/

namespace CanisterShell.Syntax

/-- Grammar over the nonterminals `N`, whose phrases have meanings of the types `M`. -/
inductive Rule (N : Type) (M : N → Type) : Type → Type 1 where
  | token (t : Terminal) : Rule N M Token
  | nothing {α : Type} (a : α) : Rule N M α
  | seq {α β : Type} (p : Rule N M α) (q : Rule N M β) : Rule N M (α × β)
  | choice {α : Type} (p q : Rule N M α) : Rule N M α
  | many {α : Type} (p : Rule N M α) : Rule N M (List α)
  | map {α β : Type} (f : α → β) (p : Rule N M α) : Rule N M β
  | spanned {α : Type} (p : Rule N M α) : Rule N M (Text.Span × α)
  | ref (n : N) : Rule N M (M n)

namespace Rule

variable {N : Type} {M : N → Type}

instance : Functor (Rule N M) := ⟨fun f p => .map f p, fun a p => .map (fun _ => a) p⟩

instance : Pure (Rule N M) := ⟨fun a => .nothing a⟩

instance : Seq (Rule N M) := ⟨fun p q => .map (fun x => x.1 x.2) (.seq p (q ()))⟩

instance : SeqLeft (Rule N M) := ⟨fun p q => .map Prod.fst (.seq p (q ()))⟩

instance : SeqRight (Rule N M) := ⟨fun p q => .map Prod.snd (.seq p (q ()))⟩

instance {α : Type} : OrElse (Rule N M α) := ⟨fun p q => .choice p (q ())⟩

/-- A phrase that may be missing. -/
def optional {α : Type} (p : Rule N M α) : Rule N M (Option α) :=
  .choice (.map some p) (.nothing none)

def lit (spelling : String) : Rule N M Token := .token (.fixed spelling)

/-! ## Reading -/

/-- Where reading stands: the tokens to come, the last one taken, the classes asked for since. -/
structure Cursor where
  rest : List Token
  last? : Option Token := none
  asked : List Terminal := []

/-- What reading a phrase comes to. -/
inductive Outcome (α : Type) where
  | done (a : α) (at_ : Cursor)
  | refused (at_ : Cursor)

/-- Reads phrases one after the other until one is refused at its first token; `fuel` bounds their
number. -/
def readMany {α : Type} (p : Cursor → Outcome α) : (fuel : Nat) → Cursor → Outcome (List α)
  | 0, c => .done [] c
  | fuel + 1, c =>
    match p c with
    | .refused c' => if c'.rest.length = c.rest.length then .done [] c' else .refused c'
    | .done a c' =>
      match readMany p fuel c' with
      | .done as c'' => .done (a :: as) c''
      | .refused c'' => .refused c''

/-- The span from the first of the tokens to come up to the last one taken. -/
def spanBetween (before after : Cursor) : Text.Span :=
  match before.rest, after.last? with
  | first :: _, some last => { first.span with stop := last.span.stop }
  | _, _ => default

/-- Reads a phrase, given how phrases of nonterminals are read. -/
def read (look : (n : N) → Cursor → Outcome (M n)) : {α : Type} → Rule N M α → Cursor → Outcome α
  | _, .token t, c =>
    match c.rest with
    | [] => .refused { c with asked := t :: c.asked }
    | k :: rest =>
      if k.terminal = t then .done k ⟨rest, some k, []⟩
      else .refused { c with asked := t :: c.asked }
  | _, .nothing a, c => .done a c
  | _, .seq p q, c =>
    match read look p c with
    | .refused c' => .refused c'
    | .done a c' =>
      match read look q c' with
      | .refused c'' => .refused c''
      | .done b c'' => .done (a, b) c''
  | _, .choice p q, c =>
    match read look p c with
    | .done a c' => .done a c'
    | .refused c' =>
      if c'.rest.length = c.rest.length then read look q c' else .refused c'
  | _, .many p, c => readMany (read look p) (c.rest.length + 1) c
  | _, .map f p, c =>
    match read look p c with
    | .done a c' => .done (f a) c'
    | .refused c' => .refused c'
  | _, .spanned p, c =>
    match read look p c with
    | .done a c' => .done (spanBetween c c', a) c'
    | .refused c' => .refused c'
  | _, .ref n, c => look n c

/-- Reads a phrase of a nonterminal, nesting at most `fuel` of them. -/
def readAt (rules : (n : N) → Rule N M (M n)) : (fuel : Nat) → (n : N) → Cursor → Outcome (M n)
  | 0, _, c => .refused c
  | fuel + 1, n, c => read (readAt rules fuel) (rules n) c

end Rule

/-- A grammar: its rules, and the number of its nonterminals, each of which takes a token before it
comes round to itself. -/
structure Grammar (N : Type) (M : N → Type) where
  rules : (n : N) → Rule N M (M n)
  size : Nat
  lexicon : Lexicon

/-- Why a text is no phrase of a grammar. -/
def Tokens.refusal (tokens : Tokens) (lexicon : Lexicon) (source : List Char)
    (at_ : Rule.Cursor) : ParseError :=
  match at_.rest, tokens.ending with
  | k :: _, _ => ⟨.unexpectedToken k.lexeme, some k.span, displayAll at_.asked⟩
  | [], .stray c span => ⟨.unexpectedCharacter c, some span, displayAll lexicon.starts⟩
  | [], .complete =>
    ⟨.unexpectedEnd, some (Text.spanOf source source.length source.length), displayAll at_.asked⟩

/-- The meaning of a text as a phrase of the nonterminal `start`. -/
def Grammar.parse {N : Type} {M : N → Type} (g : Grammar N M) (start : N) (source : List Char) :
    Except ParseError (M start) :=
  let tokens := scan g.lexicon source
  let fuel := (tokens.tokens.length + 1) * g.size
  match Rule.readAt g.rules fuel start ⟨tokens.tokens, none, []⟩ with
  | .refused c => .error (tokens.refusal g.lexicon source c)
  | .done a c =>
    match c.rest, tokens.ending with
    | [], .complete => .ok a
    | _, _ => .error (tokens.refusal g.lexicon source c)

end CanisterShell.Syntax
