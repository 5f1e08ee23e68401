import CanisterShell.Proofs.Attempt
import CanisterShell.Proofs.Syntax.Meaning
import CanisterShell.Proofs.Syntax.Numeral
import CanisterShell.Syntax.Grammar

/-!
# Building trees, rule by rule

A phrase of the grammars of scripts and interfaces means an attempt to build its tree.  Such an
attempt fails with an error of reading, but for two cases: a record or variant type that has a label
twice, and a quoted text with an escape in braces that has no digits between its underscores.

Every rule of the grammars means attempts that fail with such refusals only, if the nonterminals in it
do (`rules_refused`).  A phrase whose meaning waits for what stands in front of it, such as the factors
behind an operand, means a function that keeps to refusals.
-/

namespace CanisterShell.Syntax

open Attempt (Only)

/-- The fault of an escape in braces without a digit. -/
def emptyEscape : Failure := .fault (.badValue "invalid literal for int() with base 16: ''")

/-- A cause that a token is refused for. -/
inductive Blames : ParseCause → Token → Prop where
  | badFieldId (k : Token) : Blames (.badFieldId k.lexeme) k
  | selectorNeedsFunction (k : Token) : Blames (.selectorNeedsFunction k.lexeme) k
  | unknownSelector (k : Token) (n : Nat) : Blames (.unknownSelector k.lexeme n) k
  | repeatedParameter (k : Token) : Blames (.repeatedParameter k.lexeme) k
  | principal {k : Token} {text : String} {fault : Principal.Fault} (ht : k.terminal = .text)
      (htext : Literal.unquoteText k.lexeme = .ok text)
      (hfault : Principal.ofText text = .error fault) : Blames (.principal fault) k

/-- An error of reading that has no place or that of a token which it blames. -/
def Placed (tokens : List Token) (e : ParseError) : Prop :=
  ∀ span, e.span = some span → ∃ k ∈ tokens, span = k.span ∧ Blames e.cause k

/-- What the tree of a text with certain tokens may be refused with. -/
inductive Refusal (tokens : List Token) : Failure → Prop where
  | parse (e : ParseError) (h : Placed tokens e) : Refusal tokens (.error (.parse e))
  | repeatedField (label : Candid.Label) : Refusal tokens (.eval (.repeatedTypeField label))
  | emptyEscape {k : Token} (hk : k ∈ tokens) (ht : k.terminal = .text)
      (h : Literal.unquoteBytes k.lexeme = .error emptyEscape) : Refusal tokens emptyEscape

theorem Refusal.unplaced {tokens : List Token} (cause : ParseCause) (expected : List String) :
    Refusal tokens (.error (.parse ⟨cause, none, expected⟩)) := .parse _ nofun

theorem Refusal.ofToken {tokens : List Token} {k : Token} {cause : ParseCause} (hk : k ∈ tokens)
    (h : Blames cause k) (expected : List String) :
    Refusal tokens (Phrase.refuseAt k cause expected) := by
  refine .parse _ fun span hspan => ?_
  cases hspan
  exact ⟨k, hk, rfl, h⟩

/-- An attempt to build a tree that fails with refusals only. -/
abbrev Refuses (tokens : List Token) {α : Type} (x : Attempt α) : Prop := Only (Refusal tokens) x

/-! ## Literals -/

theorem unescapeFrom_only (body : String) (cs : List Char) :
    Only (fun e => (∃ cause, e = Literal.refuse cause) ∨ e = emptyEscape)
      (Literal.unescapeFrom body cs) := by
  fun_induction Literal.unescapeFrom body cs with
  | case1 => exact .ok _
  | case2 => exact .error (.inl ⟨_, rfl⟩)
  | case3 e rest b hb ih => exact ih.bind fun _ => .ok _
  | case4 rest hrest hu => exact .error (.inl ⟨_, rfl⟩)
  | case5 rest digits hrest hd hu => exact .error (.inr rfl)
  | case6 rest digits hrest hd code hc hu ih => exact ih.bind fun _ => .ok _
  | case7 => exact .error (.inl ⟨_, rfl⟩)
  | case8 e he hu hi d rest hhi lo hlo ih => exact ih.bind fun _ => .ok _
  | case9 => exact .error (.inl ⟨_, rfl⟩)
  | case10 => exact .error (.inl ⟨_, rfl⟩)
  | case11 c rest h h' ih => exact ih.bind fun _ => .ok _

section

variable {tokens : List Token} {k : Token}

theorem unquoteBytes_refuses (hk : k ∈ tokens) (ht : k.terminal = .text) :
    Refuses tokens (Literal.unquoteBytes k.lexeme) := by
  intro e he
  obtain ⟨cause, rfl⟩ | rfl := unescapeFrom_only _ _ e he
  · exact .unplaced cause []
  · exact .emptyEscape hk ht he

theorem unquoteText_refuses (hk : k ∈ tokens) (ht : k.terminal = .text) :
    Refuses tokens (Literal.unquoteText k.lexeme) := by
  refine (unquoteBytes_refuses hk ht).bind fun bytes => ?_
  split
  · exact .ok _
  · exact .error (.unplaced _ _)

theorem principalOf_refuses (hk : k ∈ tokens) (ht : k.terminal = .text) :
    Refuses tokens (Phrase.principalOf k) := by
  rw [Phrase.principalOf]
  cases htext : Literal.unquoteText k.lexeme with
  | error e => exact .error (unquoteText_refuses hk ht e htext)
  | ok text =>
    rw [Attempt.ok_bind]
    split
    · exact .ok _
    case h_2 fault hfault => exact .error (.ofToken hk (.principal ht htext hfault) _)

theorem value_refuses {v : Attempt Candid.Value} (h : Refuses tokens v) :
    Refuses tokens (Phrase.value v) := h.bind fun _ => .ok _

/-! ## Labels, modes and fields -/

theorem textLabel_refuses (hk : k ∈ tokens) (ht : k.terminal = .text) :
    Refuses tokens (Phrase.textLabel k) := (unquoteText_refuses hk ht).bind fun _ => .ok _

theorem numberLabel_refuses (hk : k ∈ tokens) : Refuses tokens (Phrase.numberLabel k) := by
  rw [Phrase.numberLabel]
  split
  · exact .ok _
  · exact .error (.ofToken hk (.badFieldId k) _)

theorem nameLabel_refuses (k : Token) : Refuses tokens (Phrase.nameLabel k) := .ok _

theorem mode_refuses (k : Token) : Refuses tokens (Phrase.mode k) := by
  rw [Phrase.mode]
  split
  · exact .ok _
  · exact .error (.unplaced _ _)

theorem typeCase_refuses (field : TypeField) : Refuses tokens (Phrase.typeCase field) := by
  unfold Phrase.typeCase
  split
  · exact .ok _
  · exact .ok _
  · exact .ok _
  · exact .error (.unplaced _ _)

theorem variantOf_refuses (field : Option Candid.Label × Exp) :
    Refuses tokens (Phrase.variantOf field) := by
  unfold Phrase.variantOf
  split
  · exact .ok _
  · exact .ok _
  · exact .error (.unplaced _ _)

theorem functionName_refuses (hk : k ∈ tokens) (e : Exp) :
    Refuses tokens (Phrase.functionName k e) := by
  unfold Phrase.functionName
  split
  · exact .ok _
  · exact .error (.ofToken hk (.selectorNeedsFunction k) _)

theorem methodSelector_refuses (hk : k ∈ tokens) (args : List Exp) :
    Refuses tokens (Phrase.methodSelector k args) := by
  unfold Phrase.methodSelector
  split
  · exact .ok _
  · exact (functionName_refuses hk _).bind fun _ => .ok _
  · exact (functionName_refuses hk _).bind fun _ => .ok _
  · exact (functionName_refuses hk _).bind fun _ => .ok _
  · exact .error (.ofToken hk (.unknownSelector k _) _)

theorem mkRecord_refuses (fields : List (Candid.Label × Candid.Ty)) :
    Refuses tokens (Candid.Ty.mkRecord fields) := by
  rw [Candid.Ty.mkRecord]
  split
  · exact .error (.repeatedField _)
  · exact .ok _

theorem mkVariant_refuses (cases : List (Candid.Label × Candid.Ty)) :
    Refuses tokens (Candid.Ty.mkVariant cases) := by
  rw [Candid.Ty.mkVariant]
  split
  · exact .error (.repeatedField _)
  · exact .ok _

theorem operate_refuses {function : String} {left right : Attempt Exp} (hl : Refuses tokens left)
    (hr : Refuses tokens right) : Refuses tokens (Phrase.operate function left right) :=
  hl.bind fun _ => hr.bind fun _ => .ok _

end

/-! ## Phrases -/

/-- What phrases of nonterminals mean: attempts that fail with refusals. -/
def Refused (tokens : List Token) : (n : Nonterminal) → Meaning n → Prop
  | .datatype, x | .typeFields, x | .typeArgs, x | .methodSigs, x | .exp, x | .unary, x
  | .primary, x | .args, x | .items, x | .fields, x | .field, x | .commands, x | .command, x
  | .ifCommand, x | .interface, x => Refuses tokens x

abbrev Phrase.Means (tokens : List Token) {α : Type} (p : Phrase α) (a : α) : Prop :=
  Rule.Means (· ∈ tokens) (Refused tokens) p a

/-- A phrase that means attempts which fail with refusals. -/
def Phrase.Refusing (tokens : List Token) {α : Type} (p : Phrase (Attempt α)) : Prop :=
  ∀ x, p.Means tokens x → Refuses tokens x

end CanisterShell.Syntax

namespace CanisterShell.Syntax.Phrase

open Rule (lit optional)

variable {tokens : List Token} {α β γ δ : Type}

/-! ## Putting phrases together -/

namespace Refusing

theorem pure {x : Attempt α} (h : Refuses tokens x) : Refusing tokens (pure x) := Rule.All.pure h

theorem map {f : α → Attempt β} {p : Phrase α}
    (h : ∀ a, p.Means tokens a → Refuses tokens (f a)) : Refusing tokens (f <$> p) :=
  Rule.All.map h

theorem map₂ {f : α → β → Attempt γ} {p : Phrase α} {q : Phrase β}
    (h : ∀ a b, p.Means tokens a → q.Means tokens b → Refuses tokens (f a b)) :
    Refusing tokens (f <$> p <*> q) := Rule.All.map₂ h

theorem map₃ {f : α → β → γ → Attempt δ} {p : Phrase α} {q : Phrase β} {r : Phrase γ}
    (h : ∀ a b c, p.Means tokens a → q.Means tokens b → r.Means tokens c →
      Refuses tokens (f a b c)) :
    Refusing tokens (f <$> p <*> q <*> r) := Rule.All.map₃ h

theorem orElse {p q : Phrase (Attempt α)} (hp : Refusing tokens p) (hq : Refusing tokens q) :
    Refusing tokens (p <|> q) := Rule.All.orElse hp hq

theorem seqRight {p : Phrase α} {q : Phrase (Attempt β)} (h : Refusing tokens q) :
    Refusing tokens (p *> q) := Rule.All.seqRight h

theorem seqLeft {p : Phrase (Attempt α)} {q : Phrase β} (h : Refusing tokens p) :
    Refusing tokens (p <* q) := Rule.All.seqLeft h

theorem optional {p : Phrase (Attempt α)} (h : Refusing tokens p) {x? : Option (Attempt α)}
    (hx : Rule.Means (· ∈ tokens) (Refused tokens) (Rule.optional p) x?) {x : Attempt α}
    (he : x? = some x) : Refuses tokens x := h x (Rule.means_optional.mp hx x he)

end Refusing

theorem getD_refuses {x? : Option (Attempt α)} (h : ∀ x, x? = some x → Refuses tokens x)
    {x : Attempt α} (hx : Refuses tokens x) : Refuses tokens (x?.getD x) := by
  cases x? with
  | none => exact hx
  | some y => exact h y rfl

theorem optionMapM_refuses {x? : Option (Attempt α)} (h : ∀ x, x? = some x → Refuses tokens x) :
    Refuses tokens (x?.mapM id) := by
  cases x? with
  | none => exact .ok _
  | some x => exact (h x rfl).bind fun _ => .ok _

/-! ## Types -/

theorem anyName_refusing : Refusing tokens anyName := by
  apply Refusing.orElse
  · exact .map fun _ _ => .ok _
  · exact .map fun k hk => unquoteText_refuses hk.2 hk.1

theorem separated_refusing {mark : String} {more : Phrase (Attempt (List α))}
    {item : Phrase (Attempt α)} (hm : Refusing tokens more) (hi : Refusing tokens item) :
    Refusing tokens (separated mark more item) := by
  have hrest : Refusing tokens ((lit mark *> more) <|> Pure.pure (.ok [])) :=
    .orElse (.seqRight hm) (.pure (.ok _))
  apply Refusing.orElse
  · exact .map₂ fun a rest ha hr => (hi a ha).bind fun _ => (hrest rest hr).bind fun _ => .ok _
  · exact .pure (.ok _)

theorem tupleType_refusing : Refusing tokens tupleType :=
  .seqLeft (.seqRight fun _ h => h)

theorem funcType_refusing : Refusing tokens funcType := by
  refine .map₃ fun args results modes ha hr hm => ?_
  refine (tupleType_refusing args ha).bind fun _ => ?_
  refine (Refusing.seqRight tupleType_refusing results hr).bind fun _ => ?_
  exact (Attempt.Only.mapM fun k _ => mode_refuses k).bind fun _ => .ok _

theorem serviceBody_refusing : Refusing tokens serviceBody := by
  have hm : Refusing tokens (lit "\x7b" *> ref .methodSigs <* lit "\x7d") :=
    .seqLeft (.seqRight fun _ h => h)
  exact .map fun methods h => (hm methods h).bind fun _ => .ok _

theorem typeFields_refusing : Refusing tokens typeFields := .seqLeft (.seqRight fun _ h => h)

theorem structuralType_refusing : Refusing tokens structuralType := by
  have hty : Refusing tokens (ref .datatype) := fun _ h => h
  have hfields {keyword : String} : Refusing tokens (lit keyword *> typeFields) :=
    .seqRight typeFields_refusing
  refine .orElse (.map fun _ _ => .ok _) ?_
  refine .orElse (.map fun _ _ => .ok _) ?_
  refine .orElse (.map fun _ _ => .ok _) ?_
  refine .orElse (.map fun t h => (Refusing.seqRight hty t h).bind fun _ => .ok _) ?_
  refine .orElse (.map fun t h => (Refusing.seqRight hty t h).bind fun _ => .ok _) ?_
  refine .orElse (.map fun fs h => (hfields fs h).bind fun _ => mkRecord_refuses _) ?_
  refine .orElse (.map fun fs h => (hfields fs h).bind fun _ => ?_) ?_
  · exact (Attempt.Only.mapM fun f _ => typeCase_refuses f).bind fun _ => mkVariant_refuses _
  · exact .orElse (.seqRight funcType_refusing) (.seqRight serviceBody_refusing)

theorem ofType_refusing : Refusing tokens ofType := .seqRight fun _ h => h

theorem datatype_refusing : Refusing tokens datatype :=
  .orElse (.map fun _ _ => .ok _) structuralType_refusing

theorem typeField_refusing : Refusing tokens typeField := by
  refine .orElse (.map₂ fun k t? _ ht => ?_) (.orElse (.map₂ fun k t? hk ht => ?_)
    (.orElse (.map₂ fun k t hk ht => ?_) (.map fun t ht => ?_)))
  · cases t? with
    | none => exact .ok _
    | some t => exact (nameLabel_refuses k).bind fun _ =>
        (ofType_refusing.optional ht rfl).bind fun _ => .ok _
  · cases t? with
    | none => exact (textLabel_refuses hk.2 hk.1).bind fun _ => .ok _
    | some t => exact (textLabel_refuses hk.2 hk.1).bind fun _ =>
        (ofType_refusing.optional ht rfl).bind fun _ => .ok _
  · exact (numberLabel_refuses hk.2).bind fun _ => (ofType_refusing t ht).bind fun _ => .ok _
  · exact (structuralType_refusing t ht).bind fun _ => .ok _

theorem typeArg_refusing : Refusing tokens typeArg := by
  apply Refusing.orElse
  · exact .map₂ fun k t? _ ht => getD_refuses (fun _ => ofType_refusing.optional ht) (.ok _)
  · exact structuralType_refusing

theorem methodSig_refusing : Refusing tokens methodSig := by
  have ht : Refusing tokens
      (lit ":" *> (funcType <|> ((fun k => .ok (.var k.lexeme)) <$> nameTok))) :=
    .seqRight (.orElse funcType_refusing (.map fun _ _ => .ok _))
  exact .map₂ fun name t hn h => (anyName_refusing name hn).bind fun _ => (ht t h).bind fun _ => .ok _

/-! ## Expressions -/

theorem exp_refusing : Refusing tokens (ref .exp) := fun _ h => h

theorem primary_refusing : Refusing tokens (ref .primary) := fun _ h => h

theorem unary_refusing : Refusing tokens (ref .unary) := fun _ h => h

theorem argList_refusing : Refusing tokens argList := .seqLeft (.seqRight fun _ h => h)

theorem plainArgs_refusing : Refusing tokens plainArgs := by
  apply Refusing.orElse
  · refine .map₂ fun a as ha has => Attempt.Only.mapM (List.forall_mem_cons.mpr ⟨ha, fun b hb => ?_⟩)
    exact Refusing.seqRight exp_refusing b (has b hb)
  · exact .pure (.ok _)

theorem method_refusing : Refusing tokens method :=
  .map₂ fun canister _ hc _ => (anyName_refusing canister hc).bind fun _ => .ok _

theorem selector_refusing : Refusing tokens selector := by
  have hindex : Refusing tokens (lit "[" *> ref .exp <* lit "]") := .seqLeft (.seqRight exp_refusing)
  have hargs : Refusing tokens (lit "(" *> plainArgs <* lit ")") :=
    .seqLeft (.seqRight plainArgs_refusing)
  refine .orElse (.map fun _ _ => .ok _) (.orElse ?_ (.seqRight (.orElse ?_ (.orElse ?_ ?_))))
  · exact .map fun e he => (hindex e he).bind fun _ => .ok _
  · refine .map₂ fun k args? hk ha => ?_
    cases args? with
    | none => exact (nameLabel_refuses k).bind fun _ => .ok _
    | some args => exact (hargs.optional ha rfl).bind fun _ => methodSelector_refuses hk.2 _
  · exact .map fun k hk => (numberLabel_refuses hk.2).bind fun _ => .ok _
  · exact .map fun k hk => (textLabel_refuses hk.2 hk.1).bind fun _ => .ok _

theorem behindName_refuses {f : Token → Attempt Exp} (h : behindName.Means tokens f) (k : Token) :
    Refuses tokens (f k) := by
  rcases h with ⟨args, ha, rfl⟩ | ⟨steps, hs, rfl⟩
  · exact (argList_refusing args ha).bind fun _ => .ok _
  · exact (Attempt.Only.mapM fun s h => selector_refusing s (hs s h)).bind fun _ => .ok _

theorem quotedBehind {keyword : String} {k : Token}
    (h : Rule.Means (· ∈ tokens) (Refused tokens) (lit keyword *> textTok) k) :
    k ∈ tokens ∧ k.terminal = .text := (Rule.means_seqRight.mp h).2.symm

theorem keywordPrimary_refusing : Refusing tokens keywordPrimary := by
  have hbraced {keyword : String} {n : Nonterminal} :
      ∀ x, Rule.Means (· ∈ tokens) (Refused tokens)
        (lit keyword *> lit "\x7b" *> ref n <* lit "\x7d") x → Refused tokens n x := fun x h =>
    (Rule.means_seqRight.mp (Rule.means_seqLeft.mp h).1).2
  have literal {v : Candid.Value} : Refuses tokens (value (.ok v)) := value_refuses (.ok v)
  refine .orElse (.map fun _ _ => literal) ?_
  refine .orElse (.map fun _ _ => literal) ?_
  refine .orElse (.map fun _ _ => literal) ?_
  refine .orElse (.map fun _ _ => literal) ?_
  refine .orElse (.map fun _ _ => literal) ?_
  -- behind these keywords stands a quoted text, the bytes of a blob or the text of a principal
  refine .orElse (.map fun k hk => value_refuses ?_) ?_
  · exact (unquoteBytes_refuses (quotedBehind hk).1 (quotedBehind hk).2).bind fun _ => .ok _
  refine .orElse (.map fun k hk => value_refuses ?_) ?_
  · exact (principalOf_refuses (quotedBehind hk).1 (quotedBehind hk).2).bind fun _ => .ok _
  refine .orElse (.map fun k hk => value_refuses ?_) ?_
  · exact (principalOf_refuses (quotedBehind hk).1 (quotedBehind hk).2).bind fun _ => .ok _
  refine .orElse (.map₂ fun k m hk _ => value_refuses ?_) ?_
  · exact (principalOf_refuses (quotedBehind hk).1 (quotedBehind hk).2).bind fun _ => .ok _
  -- parts of compound values
  refine .orElse (.map fun e he => ?_) ?_
  · exact (Refusing.seqRight unary_refusing e he).bind fun _ => .ok _
  refine .orElse (.map fun es hes => ?_) ?_
  · exact Attempt.Only.bind (hbraced (n := .items) es hes) fun _ => .ok _
  refine .orElse (.map fun fs hfs => ?_) ?_
  · exact Attempt.Only.bind (hbraced (n := .fields) fs hfs) fun _ => .ok _
  refine .orElse (.map fun f hf => ?_) ?_
  · exact Attempt.Only.bind (hbraced (n := .field) f hf) fun _ => variantOf_refuses _
  -- calls, which name a method or only have arguments
  refine .orElse (.seqRight (.orElse (.map₃ fun w m args _ hm ha => ?_)
    (.map₂ fun m args hm ha => ?_))) ?_
  · exact (method_refusing m hm).bind fun _ => (argList_refusing args ha).bind fun _ => .ok _
  · exact (method_refusing m hm).bind fun _ => (argList_refusing args ha).bind fun _ => .ok _
  refine .orElse (.seqRight (.orElse (.map fun args ha => ?_) (.map₂ fun m args hm ha => ?_))) ?_
  · exact (argList_refusing args ha).bind fun _ => .ok _
  · exact (method_refusing m hm).bind fun _ => (argList_refusing args ha).bind fun _ => .ok _
  refine .orElse (.seqRight (.orElse (.map₂ fun m e hm he => ?_) (.map fun e he => ?_))) ?_
  · exact (Refusing.seqRight method_refusing m hm).bind fun _ =>
      (primary_refusing e he).bind fun _ => .ok _
  · exact (primary_refusing e he).bind fun _ => .ok _
  refine .orElse (.map fun e he => ?_) (.seqLeft (.seqRight exp_refusing))
  exact (Refusing.seqRight primary_refusing e he).bind fun _ => .ok _

theorem textExp_refusing : Refusing tokens (textExp <$> textTok) :=
  .map fun _ hk => value_refuses ((unquoteText_refuses hk.2 hk.1).bind fun _ => .ok _)

/-- The numbers among some tokens have values, also with a minus sign in front. -/
def Numeric (tokens : List Token) : Prop := ∀ k ∈ tokens, k.terminal = .number →
  ∀ sign, sign = "" ∨ sign = "-" → ∃ v, Literal.number (sign ++ k.lexeme) = .ok v

theorem Numeric.number_refuses {k : Token} (hn : Numeric tokens) (hk : k ∈ tokens)
    (ht : k.terminal = .number) {sign : String} (hs : sign = "" ∨ sign = "-") :
    Refuses tokens (value (Literal.number (sign ++ k.lexeme))) := by
  obtain ⟨v, hv⟩ := hn k hk ht sign hs
  rw [hv]
  exact .ok _

theorem Numeric.numberExp_refuses {k : Token} (hn : Numeric tokens) (hk : k ∈ tokens)
    (ht : k.terminal = .number) : Refuses tokens (numberExp k) := by
  have h := hn.number_refuses hk ht (.inl rfl)
  rwa [String.empty_append] at h

theorem signedNumber_refusing (hn : Numeric tokens) : Refusing tokens signedNumber := by
  refine .orElse (.seqRight (.orElse ?_ ?_)) ?_
  · exact .map fun k hk => hn.number_refuses hk.2 hk.1 (.inr rfl)
  · exact .map fun _ _ => value_refuses (.ok _)
  · refine .map fun k hk => ?_
    obtain ⟨ht, hk⟩ := (Rule.means_seqRight.mp hk).2
    exact hn.numberExp_refuses hk ht

/-- A meaning that waits for an operand keeps to refusals. -/
def Keeps (tokens : List Token) (f : Attempt Exp → Attempt Exp) : Prop :=
  ∀ x, Refuses tokens x → Refuses tokens (f x)

theorem foldl_refuses {fs : List (Attempt Exp → Attempt Exp)} (h : ∀ f ∈ fs, Keeps tokens f)
    {x : Attempt Exp} (hx : Refuses tokens x) :
    Refuses tokens (fs.foldl (fun acc f => f acc) x) := by
  induction fs generalizing x with
  | nil => exact hx
  | cons f fs ih =>
    obtain ⟨hf, hfs⟩ := List.forall_mem_cons.mp h
    exact ih hfs (hf x hx)

theorem factors_keep {fs : List (Attempt Exp → Attempt Exp)}
    (h : behindOperand.factors.Means tokens fs) : ∀ f ∈ fs, Keeps tokens f := by
  intro f hf
  rcases h f hf with ⟨e, he, rfl⟩ | ⟨e, he, rfl⟩
  · exact fun x hx => operate_refuses hx (Refusing.seqRight unary_refusing e he)
  · exact fun x hx => operate_refuses hx (Refusing.seqRight unary_refusing e he)

theorem behindOperand_keeps {f : Attempt Exp → Attempt Exp}
    (h : behindOperand.Means tokens f) : Keeps tokens f := by
  obtain ⟨factors, terms, t?, hf, hts, ht, rfl⟩ := Rule.means_map₃.mp h
  intro first hfirst
  have hterms : ∀ f ∈ terms, Keeps tokens f := by
    intro f hf
    rcases hts f hf with h | h
    · obtain ⟨e, fs, he, hfs, rfl⟩ := Rule.means_map₂.mp h
      exact fun x hx => operate_refuses hx
        (foldl_refuses (factors_keep hfs) (Refusing.seqRight unary_refusing e he))
    · obtain ⟨e, fs, he, hfs, rfl⟩ := Rule.means_map₂.mp h
      exact fun x hx => operate_refuses hx
        (foldl_refuses (factors_keep hfs) (Refusing.seqRight unary_refusing e he))
  have hsum := foldl_refuses hterms (foldl_refuses (factors_keep hf) hfirst)
  cases t? with
  | none => exact hsum
  | some t => exact hsum.bind fun _ => (ofType_refusing.optional ht rfl).bind fun _ => .ok _

theorem positional_refuses {x : Attempt Exp} (h : Refuses tokens x) :
    Refuses tokens (field.positional x) := h.bind fun _ => .ok _

theorem labelled_refuses {label : Token → Attempt Candid.Label} {k : Token}
    {f : Token → Attempt (Option Candid.Label × Exp)}
    (h : (field.labelled label).Means tokens f) (hl : Refuses tokens (label k)) :
    Refuses tokens (f k) := by
  obtain ⟨e, he, rfl⟩ := h
  exact hl.bind fun _ => (Refusing.seqRight exp_refusing e he).bind fun _ => .ok _

theorem field_refusing (hn : Numeric tokens) : Refusing tokens field := by
  refine .orElse (.map₂ fun k f hk hf => ?_) (.orElse (.map₂ fun k f hk hf => ?_)
    (.orElse (.map₂ fun k f hk hf => ?_) (.map₂ fun e f he hf => ?_)))
  · rcases hf with hf | hf
    · exact labelled_refuses hf (nameLabel_refuses k)
    · obtain ⟨head, behind, hh, hb, rfl⟩ := Rule.means_map₂.mp hf
      exact positional_refuses (behindOperand_keeps hb _ (behindName_refuses hh k))
  · rcases hf with hf | ⟨behind, hb, rfl⟩
    · exact labelled_refuses hf (textLabel_refuses hk.2 hk.1)
    · exact positional_refuses (behindOperand_keeps hb _ (textExp_refusing _ ⟨k, hk, rfl⟩))
  · rcases hf with hf | ⟨behind, hb, rfl⟩
    · exact labelled_refuses hf (numberLabel_refuses hk.2)
    · exact positional_refuses (behindOperand_keeps hb _ (hn.numberExp_refuses hk.2 hk.1))
  · have hfirst := Refusing.orElse keywordPrimary_refusing (signedNumber_refusing hn)
    exact positional_refuses (behindOperand_keeps hf e (hfirst e he))

theorem plainPrimary_refusing (hn : Numeric tokens) : Refusing tokens plainPrimary := by
  refine .orElse (.map₂ fun k _ _ hb => behindName_refuses hb k) (.orElse textExp_refusing ?_)
  exact .map fun k hk => hn.numberExp_refuses hk.2 hk.1

/-! ## Commands -/

theorem placed_refusing {action : Phrase (Attempt Action)} (h : Refusing tokens action) :
    Refusing tokens (placed action) := .map fun x hx => (h x.2 hx).bind fun _ => .ok _

theorem block_refusing : Refusing tokens block := .seqLeft (.seqRight fun _ h => h)

theorem quotedText_refusing : Refusing tokens quotedText :=
  .map fun _ hk => unquoteText_refuses hk.2 hk.1

theorem ifAction_refusing : Refusing tokens ifAction := by
  have hno : Refusing tokens
      (lit "else" *> (block <|> ((fun c => do return [← c]) <$> ref .ifCommand))) := by
    refine .seqRight (.orElse block_refusing (.map fun c hc => ?_))
    exact Attempt.Only.bind (P := Refusal tokens) hc fun _ => .ok _
  refine .map₃ fun cond yes no? hc hy hno? => ?_
  refine (Refusing.seqRight exp_refusing cond hc).bind fun _ => ?_
  refine (block_refusing yes hy).bind fun _ => ?_
  exact (getD_refuses (fun _ => hno.optional hno?) (.ok _)).bind fun _ => .ok _

theorem functionAction_refusing : Refusing tokens functionAction := by
  refine .map₃ fun name params body hname _ hb => (block_refusing body hb).bind fun _ => ?_
  split
  · exact .error (.ofToken (Rule.means_seqRight.mp hname).2.2 (.repeatedParameter name) _)
  · exact .ok _

theorem command_refusing : Refusing tokens command := by
  apply placed_refusing
  have hexp {keyword : String} : Refusing tokens (lit keyword *> ref .exp) :=
    .seqRight exp_refusing
  have hquoted {keyword : String} : Refusing tokens (lit keyword *> quotedText) :=
    .seqRight quotedText_refusing
  refine .orElse (.map₂ fun _ e _ he => (hexp e he).bind fun _ => .ok _) ?_
  refine .orElse (.map₃ fun left _ right hl _ hr => ?_) ?_
  · exact (hexp left hl).bind fun _ => (exp_refusing right hr).bind fun _ => .ok _
  refine .orElse (.map₃ fun _ canister interface? _ hc hi => ?_) ?_
  · exact (optionMapM_refuses fun _ => hquoted.optional hi).bind fun _ =>
      (hquoted canister hc).bind fun _ => .ok _
  refine .orElse (.map fun source hs => (hquoted source hs).bind fun _ => .ok _) ?_
  refine .orElse (.map₂ fun _ source? _ hs => ?_) ?_
  · exact (optionMapM_refuses fun _ => exp_refusing.optional hs).bind fun _ => .ok _
  refine .orElse (.map fun path hp => (hquoted path hp).bind fun _ => .ok _) ?_
  refine .orElse (.map fun path hp => (hquoted path hp).bind fun _ => .ok _) ?_
  refine .orElse functionAction_refusing (.orElse ifAction_refusing (.orElse ?_ ?_))
  · exact .map₂ fun cond body hc hb => (hexp cond hc).bind fun _ =>
      (block_refusing body hb).bind fun _ => .ok _
  · exact .map fun e he => (exp_refusing e he).bind fun _ => .ok _

theorem commands_refusing : Refusing tokens commands := by
  have hmore : Refusing tokens (lit ";" *> ref .commands) := .seqRight fun _ h => h
  have hrest : Refusing tokens ((lit ";" *> ref .commands) <|> Pure.pure (.ok [])) :=
    .orElse hmore (.pure (.ok _))
  refine .orElse hmore (.orElse (.map₂ fun c rest hc hr => ?_) (.pure (.ok _)))
  exact Attempt.Only.bind (P := Refusal tokens) hc fun _ => (hrest rest hr).bind fun _ => .ok _

/-! ## Interfaces -/

theorem actor_refusing : Refusing tokens actor := by
  have ht : Refusing tokens (serviceBody <|> ((fun k => .ok (.var k.lexeme)) <$> nameTok)) :=
    .orElse serviceBody_refusing (.map fun _ _ => .ok _)
  refine .map₂ fun init? t hi h => ?_
  have hinit := (Rule.means_seqRight.mp hi).2
  refine (optionMapM_refuses fun _ => ?_).bind fun _ => (ht t h).bind fun _ => .ok _
  exact (Refusing.seqLeft tupleType_refusing).optional hinit

theorem lastItem_refusing : Refusing tokens lastItem := by
  refine .orElse (.map fun a ha => ?_) (.pure (.ok _))
  exact (Refusing.seqLeft actor_refusing a ha).bind fun _ => .ok _

theorem definition_refusing : Refusing tokens definition := by
  refine .orElse (.map₂ fun _ t _ ht => ?_) (.map fun path hp => ?_)
  · exact (Refusing.seqRight (q := ref .datatype) (fun _ h => h) t ht).bind fun _ => .ok _
  · exact (Refusing.seqRight quotedText_refusing path hp).bind fun _ => .ok _

theorem interface_refusing : Refusing tokens interface := by
  have hrest : Refusing tokens ((lit ";" *> ref .interface) <|> lastItem) :=
    .orElse (.seqRight fun _ h => h) lastItem_refusing
  refine .orElse (.map₂ fun d rest hd hr => ?_) lastItem_refusing
  exact (definition_refusing d hd).bind fun _ => (hrest rest hr).bind fun _ => .ok _

/-! ## The rules -/

/-- The rule of each nonterminal means attempts that fail with refusals. -/
theorem rules_refused (hn : Numeric tokens) (n : Nonterminal) (m : Meaning n)
    (h : (rules n).Means tokens m) : Refused tokens n m := by
  cases n with
  | datatype => exact datatype_refusing m h
  | typeFields =>
    have hmore : Refusing tokens (ref .typeFields) := fun _ h => h
    exact separated_refusing hmore typeField_refusing m h
  | typeArgs =>
    have hmore : Refusing tokens (ref .typeArgs) := fun _ h => h
    exact separated_refusing hmore typeArg_refusing m h
  | methodSigs =>
    have hmore : Refusing tokens (ref .methodSigs) := fun _ h => h
    exact separated_refusing hmore methodSig_refusing m h
  | exp =>
    obtain ⟨e, behind, he, hb, rfl⟩ := Rule.means_map₂.mp h
    exact behindOperand_keeps hb e he
  | unary =>
    exact Refusing.orElse (plainPrimary_refusing hn)
      (.orElse keywordPrimary_refusing (signedNumber_refusing hn)) m h
  | primary => exact Refusing.orElse (plainPrimary_refusing hn) keywordPrimary_refusing m h
  | args =>
    have hmore : Refusing tokens (ref .args) := fun _ h => h
    exact separated_refusing hmore exp_refusing m h
  | items =>
    have hmore : Refusing tokens (ref .items) := fun _ h => h
    exact separated_refusing hmore exp_refusing m h
  | fields =>
    have hmore : Refusing tokens (ref .fields) := fun _ h => h
    have hitem : Refusing tokens (ref .field) := fun _ h => h
    exact separated_refusing hmore hitem m h
  | field => exact field_refusing hn m h
  | commands => exact commands_refusing m h
  | command => exact command_refusing m h
  | ifCommand => exact placed_refusing ifAction_refusing m h
  | interface => exact interface_refusing m h

end CanisterShell.Syntax.Phrase

namespace CanisterShell.Syntax

/-! ## Scripts -/

theorem numeric_scan (lexicon : Lexicon) (source : List Char) :
    Phrase.Numeric (scan lexicon source).tokens :=
  fun _ hk ht _ hs => exists_number_of_scanFrom hk ht hs

theorem parse_refuses {prepared : List Char} {tree : Attempt (List Command)}
    (h : scriptGrammar.parse .commands prepared = .ok tree) :
    Refuses (scan scriptGrammar.lexicon prepared).tokens tree :=
  Grammar.parse_means h (Phrase.rules_refused (numeric_scan _ prepared))

end CanisterShell.Syntax
