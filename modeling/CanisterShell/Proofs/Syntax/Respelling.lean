import CanisterShell.Proofs.Attempt
import CanisterShell.Proofs.Syntax.Writing
import CanisterShell.Syntax.Grammar

/-!
# Trees without places

Tokens of the same words at other places form the same phrases, by derivations that are parallel
(`Rule.Derives.parallel`).  `Rule.Parallel` is what the meanings of such phrases have in common when
it is known of the nonterminals: a relation that follows the rule as `Rule.Means` does.  Meanings
that are attempts are compared by what they succeed with.

Where a script stands shows in its trees only in the places of its commands.  Rule by rule, phrases
of the same words at other places mean the same types and expressions, and commands that are the
same without their places (`Phrase.rules_respelled`).
-/

namespace CanisterShell

/-! ## Parallel phrases -/

namespace Attempt

variable {α β : Type}

/-- Whenever the first attempt succeeds the second one does, with a result related to its own. -/
def Follows (R : α → α → Prop) (x x' : Attempt α) : Prop :=
  ∀ a, x = .ok a → ∃ a', x' = .ok a' ∧ R a a'

namespace Follows

variable {R : α → α → Prop} {Q : β → β → Prop} {x x' : Attempt α}

theorem ok {a a' : α} (h : R a a') : Follows R (.ok a) (.ok a') := by
  rintro _ ⟨⟩
  exact ⟨a', rfl, h⟩

theorem error (e : Failure) (x' : Attempt α) : Follows R (.error e) x' := nofun

theorem refl (x : Attempt α) : Follows Eq x x := fun a h => ⟨a, h, rfl⟩

theorem of_eq (h : x = x') : Follows Eq x x' := h ▸ refl x

theorem bind {next next' : α → Attempt β} (h : Follows R x x')
    (hnext : ∀ a a', R a a' → Follows Q (next a) (next' a')) :
    Follows Q (x >>= next) (x' >>= next') := by
  intro b hb
  obtain ⟨a, ha, hb⟩ := bind_ok_iff.mp hb
  obtain ⟨a', ha', hR⟩ := h a ha
  obtain ⟨b', hb', hQ⟩ := hnext a a' hR b hb
  exact ⟨b', bind_ok_iff.mpr ⟨a', ha', hb'⟩, hQ⟩

theorem andThen {next next' : α → Attempt β} (h : Follows Eq x x')
    (hnext : ∀ a, Follows Q (next a) (next' a)) : Follows Q (x >>= next) (x' >>= next') :=
  h.bind fun a _ ha => ha ▸ hnext a

theorem mapM {f : α → Attempt β} {items items' : List α}
    (h : List.Forall₂ (fun a a' => Follows Eq (f a) (f a')) items items') :
    Follows Eq (items.mapM f) (items'.mapM f) := by
  induction h with
  | nil => exact refl _
  | cons ha _ ih =>
    rw [List.mapM_cons, List.mapM_cons]
    exact ha.andThen fun b => ih.andThen fun bs => refl _

theorem optionMapM {item? item?' : Option (Attempt α)} (h : Option.Rel (Follows Eq) item? item?') :
    Follows Eq (item?.mapM id) (item?'.mapM id) := by
  cases h with
  | none => exact refl _
  | some h => exact h.andThen fun _ => refl _

end Follows

end Attempt

namespace Syntax.Rule

variable {N : Type} {M : N → Type}

/-- The meanings of two phrases of a rule that are derived in the same way from tokens of the same
words, if `P n` holds of those of the nonterminal `n`. -/
def Parallel (P : (n : N) → M n → M n → Prop) : {α : Type} → Rule N M α → α → α → Prop
  | _, .token _, k, k' => k.word = k'.word
  | _, .nothing a, b, b' => b = a ∧ b' = a
  | _, .seq p q, x, x' => Parallel P p x.1 x'.1 ∧ Parallel P q x.2 x'.2
  | _, .choice p q, a, a' => Parallel P p a a' ∨ Parallel P q a a'
  | _, .many p, as, as' => List.Forall₂ (Parallel P p) as as'
  | _, .map f p, b, b' => ∃ a a', Parallel P p a a' ∧ f a = b ∧ f a' = b'
  | _, .spanned p, x, x' => Parallel P p x.2 x'.2
  | _, .ref n, m, m' => P n m m'

/-- Tokens of the same words form the same phrases, with meanings that have in common what those of
the rules have. -/
theorem Derives.parallel {rules : (n : N) → Rule N M (M n)} {P : (n : N) → M n → M n → Prop}
    (hP : ∀ n m m', Parallel P (rules n) m m' → P n m m') {α : Type} {p : Rule N M α}
    {ks : List Token} {a : α} (h : Derives rules p ks a) {ks' : List Token}
    (hks : ks'.map Token.word = ks.map Token.word) :
    ∃ a', Derives rules p ks' a' ∧ Parallel P p a a' := by
  induction h generalizing ks' with
  | token k =>
    obtain ⟨k', rfl, hk⟩ := List.map_eq_singleton_iff.mp hks
    have hterminal : k'.terminal = k.terminal := congrArg Prod.fst hk
    exact ⟨k', hterminal ▸ .token k', hk.symm⟩
  | nothing a =>
    rw [List.map_eq_nil_iff.mp hks]
    exact ⟨a, .nothing a, rfl, rfl⟩
  | seq _ _ iha ihb =>
    rw [List.map_append] at hks
    obtain ⟨ls, ls', rfl, hls, hls'⟩ := List.map_eq_append_iff.mp hks
    obtain ⟨a', ha, hPa⟩ := iha hls
    obtain ⟨b', hb, hPb⟩ := ihb hls'
    exact ⟨(a', b'), .seq ha hb, hPa, hPb⟩
  | left _ ih =>
    obtain ⟨a', ha, hPa⟩ := ih hks
    exact ⟨a', .left ha, .inl hPa⟩
  | right _ ih =>
    obtain ⟨a', ha, hPa⟩ := ih hks
    exact ⟨a', .right ha, .inr hPa⟩
  | @many α p phrases hne hphrases ih =>
    clear hphrases
    suffices h : ∃ phrases' : List (List Token × α), ks' = phrases'.flatMap (·.1) ∧
        (∀ x ∈ phrases', x.1 ≠ [] ∧ Derives rules p x.1 x.2) ∧
        List.Forall₂ (Parallel P p) (phrases.map (·.2)) (phrases'.map (·.2)) by
      obtain ⟨phrases', rfl, hder, hpar⟩ := h
      exact ⟨_, .many phrases' (fun x hx => (hder x hx).1) fun x hx => (hder x hx).2, hpar⟩
    induction phrases generalizing ks' with
    | nil => exact ⟨[], List.map_eq_nil_iff.mp hks, nofun, .nil⟩
    | cons x phrases ihphrases =>
      obtain ⟨hx, hrest⟩ := List.forall_mem_cons.mp hne
      rw [List.flatMap_cons, List.map_append] at hks
      obtain ⟨ls, ls', rfl, hls, hls'⟩ := List.map_eq_append_iff.mp hks
      obtain ⟨a', ha, hPa⟩ := ih x (.head _) hls
      obtain ⟨phrases', rfl, hder, hpar⟩ :=
        ihphrases hrest (fun y hy => ih y (.tail x hy)) hls'
      have hne' : ls ≠ [] := by
        rintro rfl
        exact hx (List.map_eq_nil_iff.mp hls.symm)
      exact ⟨(ls, a') :: phrases', rfl, List.forall_mem_cons.mpr ⟨⟨hne', ha⟩, hder⟩, .cons hPa hpar⟩
  | map f _ ih =>
    obtain ⟨a', ha, hPa⟩ := ih hks
    exact ⟨f a', .map f ha, _, a', hPa, rfl, rfl⟩
  | spanned hne _ ih =>
    obtain ⟨a', ha, hPa⟩ := ih hks
    have hne' : ks' ≠ [] := by
      rintro rfl
      exact hne (List.map_eq_nil_iff.mp hks.symm)
    exact ⟨_, .spanned hne' ha, hPa⟩
  | ref _ ih =>
    obtain ⟨m', hm, hPm⟩ := ih hks
    exact ⟨m', .ref hm, hP _ _ _ hPm⟩

section

variable {P : (n : N) → M n → M n → Prop} {α β γ δ : Type}

/-- Parallel meanings of a phrase are related. -/
def Relates (P : (n : N) → M n → M n → Prop) (p : Rule N M α) (R : α → α → Prop) : Prop :=
  ∀ a a', Parallel P p a a' → R a a'

namespace Relates

variable {p : Rule N M α} {q : Rule N M β} {r : Rule N M γ}

theorem pure {R : α → α → Prop} {a : α} (h : R a a) : Relates P (Pure.pure a) R := by
  rintro _ _ ⟨rfl, rfl⟩
  exact h

theorem map {R : β → β → Prop} {f : α → β} (h : ∀ a a', Parallel P p a a' → R (f a) (f a')) :
    Relates P (f <$> p) R := by
  rintro _ _ ⟨a, a', ha, rfl, rfl⟩
  exact h a a' ha

theorem seqRight {R : β → β → Prop} (h : Relates P q R) : Relates P (p *> q) R := by
  rintro _ _ ⟨x, x', hx, rfl, rfl⟩
  exact h _ _ hx.2

theorem seqLeft {R : α → α → Prop} (h : Relates P p R) : Relates P (p <* q) R := by
  rintro _ _ ⟨x, x', hx, rfl, rfl⟩
  exact h _ _ hx.1

theorem orElse {R : α → α → Prop} {p' : Rule N M α} (h : Relates P p R) (h' : Relates P p' R) :
    Relates P (p <|> p') R := by
  rintro a a' (ha | ha)
  · exact h a a' ha
  · exact h' a a' ha

theorem optional {R : α → α → Prop} (h : Relates P p R) :
    Relates P (optional p) (Option.Rel R) := by
  rintro _ _ (⟨a, a', ha, rfl, rfl⟩ | ⟨rfl, rfl⟩)
  · exact .some (h a a' ha)
  · exact .none

theorem map₂ {R : γ → γ → Prop} {f : α → β → γ} (h : ∀ a a' b b', Parallel P p a a' →
    Parallel P q b b' → R (f a b) (f a' b')) : Relates P (f <$> p <*> q) R := by
  rintro _ _ ⟨⟨_, b⟩, ⟨_, b'⟩, ⟨⟨a, a', ha, rfl, rfl⟩, hb⟩, rfl, rfl⟩
  exact h a a' b b' ha hb

theorem map₃ {R : δ → δ → Prop} {f : α → β → γ → δ} (h : ∀ a a' b b' c c', Parallel P p a a' →
    Parallel P q b b' → Parallel P r c c' → R (f a b c) (f a' b' c')) :
    Relates P (f <$> p <*> q <*> r) R := by
  rintro _ _ ⟨⟨_, c⟩, ⟨_, c'⟩,
    ⟨⟨⟨_, b⟩, ⟨_, b'⟩, ⟨⟨a, a', ha, rfl, rfl⟩, hb⟩, rfl, rfl⟩, hc⟩, rfl, rfl⟩
  exact h a a' b b' c c' ha hb hc

end Relates

end

end Syntax.Rule

end CanisterShell

namespace CanisterShell.Syntax

open Candid
open Attempt (Follows)

/-! ## Places -/

mutual

/-- A command without the places of its parts. -/
def Command.unplaced : Command → Command
  | .mk _ action => .mk default action.unplaced

/-- What a command does, without the places of its parts. -/
def Action.unplaced : Action → Action
  | .define name params body => .define name params (unplacedAll body)
  | .branch cond yes no => .branch cond (unplacedAll yes) (unplacedAll no)
  | .loop cond body => .loop cond (unplacedAll body)
  | action => action

/-- Commands without the places of their parts. -/
def unplacedAll : List Command → List Command
  | [] => []
  | c :: rest => c.unplaced :: unplacedAll rest

end

theorem unplacedAll_eq_map (commands : List Command) :
    unplacedAll commands = commands.map Command.unplaced := by
  induction commands with
  | nil => rw [unplacedAll, List.map_nil]
  | cons c rest ih => rw [unplacedAll, ih, List.map_cons]

/-- Commands that are the same without their places. -/
def Command.Alike (c c' : Command) : Prop := c.unplaced = c'.unplaced

theorem unplacedAll_eq_iff {commands commands' : List Command} :
    unplacedAll commands = unplacedAll commands' ↔ List.Forall₂ Command.Alike commands commands' := by
  rw [unplacedAll_eq_map, unplacedAll_eq_map, ← List.forall₂_eq_eq_eq, List.forall₂_map_left_iff,
    List.forall₂_map_right_iff]
  rfl

/-! ## Phrases -/

/-- What the meanings of two phrases of a nonterminal have in common if only their places differ:
whenever there is a tree for the first one, there is one for the second one. -/
def Respelled : (n : Nonterminal) → Meaning n → Meaning n → Prop
  | .datatype, x, x' => Follows Eq x x'
  | .typeFields, x, x' => Follows Eq x x'
  | .typeArgs, x, x' => Follows Eq x x'
  | .methodSigs, x, x' => Follows Eq x x'
  | .exp, x, x' | .unary, x, x' | .primary, x, x' => Follows Eq x x'
  | .args, x, x' | .items, x, x' => Follows Eq x x'
  | .fields, x, x' => Follows Eq x x'
  | .field, x, x' => Follows Eq x x'
  | .commands, x, x' => Follows (List.Forall₂ Command.Alike) x x'
  | .command, x, x' | .ifCommand, x, x' => Follows Command.Alike x x'
  | .interface, _, _ => True

namespace Phrase

open Rule (lit optional Parallel Relates)

variable {α β : Type} {k k' : Token}

/-- A phrase that means the same tree wherever it stands, if it means one. -/
abbrev Settles (p : Phrase (Attempt α)) : Prop := Relates Respelled p (Follows Eq)

theorem ref_relates (n : Nonterminal) : Relates Respelled (ref n) (Respelled n) := fun _ _ h => h

/-! ### Tokens -/

theorem lexeme_eq (h : k.word = k'.word) : k.lexeme = k'.lexeme := congrArg Prod.snd h

theorem lexemes_eq {ks ks' : List Token} (h : List.Forall₂ (fun k k' => k.word = k'.word) ks ks') :
    ks.map Token.lexeme = ks'.map Token.lexeme := by
  induction h with
  | nil => rfl
  | cons hk _ ih => rw [List.map_cons, List.map_cons, lexeme_eq hk, ih]

theorem textLabel_eq (h : k.word = k'.word) : textLabel k = textLabel k' := by
  rw [textLabel, textLabel, lexeme_eq h]

theorem nameLabel_eq (h : k.word = k'.word) : nameLabel k = nameLabel k' := by
  rw [nameLabel, nameLabel, lexeme_eq h]

theorem numberLabel_follows (h : k.word = k'.word) :
    Follows Eq (numberLabel k) (numberLabel k') := by
  rw [numberLabel, numberLabel, ← lexeme_eq h]
  split
  · exact .refl _
  · exact .error _ _

theorem mode_eq (h : k.word = k'.word) : mode k = mode k' := by
  rw [mode, mode, lexeme_eq h]

theorem behind_word {spelling : String} {terminal : Terminal} :
    Relates Respelled (lit spelling *> .token terminal) fun k k' => k.word = k'.word :=
  .seqRight fun _ _ h => h

theorem anyName_settles : Settles anyName := by
  refine .orElse (.map fun k k' h => ?_) (.map fun k k' h => ?_)
  · exact .of_eq (congrArg Except.ok (lexeme_eq h))
  · exact .of_eq (congrArg Literal.unquoteText (lexeme_eq h))

/-! ### Types -/

theorem datatype_settles : Settles (ref .datatype) := ref_relates .datatype

theorem separated_settles {mark : String} {more : Phrase (Attempt (List α))}
    {item : Phrase (Attempt α)} (hmore : Settles more) (hitem : Settles item) :
    Settles (separated mark more item) := by
  refine .orElse (.map₂ fun a a' rest rest' ha hrest => ?_) (.pure (.refl _))
  have hrest : Follows Eq rest rest' :=
    Relates.orElse (Relates.seqRight hmore) (.pure (.refl _)) rest rest' hrest
  exact (hitem a a' ha).andThen fun _ => hrest.andThen fun _ => .refl _

theorem between_settles {opening closing : String} {p : Phrase (Attempt α)} (h : Settles p) :
    Settles (lit opening *> p <* lit closing) := .seqLeft (.seqRight h)

theorem tupleType_settles : Settles tupleType := between_settles (ref_relates .typeArgs)

theorem funcType_settles : Settles funcType := by
  refine .map₃ fun args args' results results' modes modes' hargs hresults hmodes => ?_
  refine (tupleType_settles _ _ hargs).andThen fun _ => ?_
  refine (Relates.seqRight tupleType_settles _ _ hresults).andThen fun _ => ?_
  refine (Follows.mapM ?_).andThen fun _ => .refl _
  exact List.Forall₂.imp (fun k k' h => .of_eq (mode_eq h)) hmodes

theorem serviceBody_settles : Settles serviceBody :=
  .map fun _ _ h => (between_settles (ref_relates .methodSigs) _ _ h).andThen fun _ => .refl _

theorem typeFields_settles : Settles typeFields := between_settles (ref_relates .typeFields)

theorem structuralType_settles : Settles structuralType := by
  refine .orElse (.map fun _ _ _ => .refl _) (.orElse (.map fun _ _ _ => .refl _)
    (.orElse (.map fun _ _ _ => .refl _) ?_))
  refine .orElse (.map fun t t' h => ?_) (.orElse (.map fun t t' h => ?_) ?_)
  · exact (Relates.seqRight datatype_settles t t' h).andThen fun _ => .refl _
  · exact (Relates.seqRight datatype_settles t t' h).andThen fun _ => .refl _
  refine .orElse (.map fun fs fs' h => ?_) (.orElse (.map fun fs fs' h => ?_) ?_)
  · exact (Relates.seqRight typeFields_settles fs fs' h).andThen fun _ => .refl _
  · exact (Relates.seqRight typeFields_settles fs fs' h).andThen fun _ => .refl _
  exact .orElse (.seqRight funcType_settles) (.seqRight serviceBody_settles)

theorem ofType_settles : Settles ofType := .seqRight datatype_settles

theorem typeField_settles : Settles typeField := by
  refine .orElse (.map₂ fun k k' t? t?' hk ht => ?_) (.orElse (.map₂ fun k k' t? t?' hk ht => ?_)
    (.orElse (.map₂ fun k k' t t' hk ht => ?_) (.map fun t t' ht => ?_)))
  · cases Relates.optional ofType_settles t? t?' ht with
    | some htype =>
      dsimp only
      rw [nameLabel_eq hk]
      exact (Follows.refl _).andThen fun _ => htype.andThen fun _ => .refl _
    | none => exact .of_eq (by rw [lexeme_eq hk])
  · cases Relates.optional ofType_settles t? t?' ht with
    | some htype =>
      dsimp only
      rw [textLabel_eq hk]
      exact (Follows.refl _).andThen fun _ => htype.andThen fun _ => .refl _
    | none => exact .of_eq (by rw [textLabel_eq hk])
  · exact (numberLabel_follows hk).andThen fun _ =>
      (ofType_settles t t' ht).andThen fun _ => .refl _
  · exact (structuralType_settles t t' ht).andThen fun _ => .refl _

theorem typeArg_settles : Settles typeArg := by
  refine .orElse (.map₂ fun k k' t? t?' hk ht => ?_) structuralType_settles
  cases Relates.optional ofType_settles t? t?' ht with
  | some htype => exact htype
  | none => exact .of_eq (by rw [lexeme_eq hk])

theorem methodSig_settles : Settles methodSig := by
  have htype : Settles (funcType <|> ((fun k => .ok (.var k.lexeme)) <$> nameTok)) :=
    .orElse funcType_settles (.map fun k k' hk => .of_eq (by rw [lexeme_eq hk]))
  refine .map₂ fun name name' t t' hname ht => ?_
  exact (anyName_settles name name' hname).andThen fun _ =>
    (Relates.seqRight htype t t' ht).andThen fun _ => .refl _

theorem datatype_rule_settles : Settles datatype :=
  .orElse (.map fun k k' hk => .of_eq (by rw [lexeme_eq hk])) structuralType_settles

/-! ### Expressions -/

theorem exp_settles : Settles (ref .exp) := ref_relates .exp

theorem unary_settles : Settles (ref .unary) := ref_relates .unary

theorem primary_settles : Settles (ref .primary) := ref_relates .primary

theorem principalOf_follows (h : k.word = k'.word) : Follows Eq (principalOf k) (principalOf k') := by
  rw [principalOf, principalOf, lexeme_eq h]
  refine (Follows.refl _).andThen fun text => ?_
  split
  · exact .refl _
  · exact .error _ _

theorem value_follows {x x' : Attempt Value} (h : Follows Eq x x') :
    Follows Eq (value x) (value x') := h.andThen fun _ => .refl _

theorem textExp_eq (h : k.word = k'.word) : textExp k = textExp k' := by
  rw [textExp, textExp, lexeme_eq h]

theorem numberExp_eq (h : k.word = k'.word) : numberExp k = numberExp k' := by
  rw [numberExp, numberExp, lexeme_eq h]

theorem operate_follows (function : String) {left left' right right' : Attempt Exp}
    (hl : Follows Eq left left') (hr : Follows Eq right right') :
    Follows Eq (operate function left right) (operate function left' right') :=
  hl.andThen fun _ => hr.andThen fun _ => .refl _

theorem argList_settles : Settles argList := between_settles (ref_relates .args)

theorem plainArgs_settles : Settles plainArgs := by
  refine .orElse (.map₂ fun e e' es es' he hes => ?_) (.pure (.refl _))
  exact .mapM (.cons he (List.Forall₂.imp (Relates.seqRight exp_settles) hes))

theorem method_settles : Settles method := by
  refine .map₂ fun canister canister' name name' hc hn => ?_
  rw [lexeme_eq (behind_word name name' hn)]
  exact (anyName_settles canister canister' hc).andThen fun _ => .refl _

theorem functionName_follows (k k' : Token) (e : Exp) :
    Follows Eq (functionName k e) (functionName k' e) := by
  unfold functionName
  split
  · exact .refl _
  · exact .error _ _

theorem methodSelector_follows (h : k.word = k'.word) (args : List Exp) :
    Follows Eq (methodSelector k args) (methodSelector k' args) := by
  unfold methodSelector
  rw [← lexeme_eq h]
  split
  · exact .refl _
  · exact (functionName_follows k k' _).andThen fun _ => .refl _
  · exact (functionName_follows k k' _).andThen fun _ => .refl _
  · exact (functionName_follows k k' _).andThen fun _ => .refl _
  · exact .error _ _

theorem selector_settles : Settles selector := by
  refine .orElse (.map fun _ _ _ => .refl _) (.orElse (.map fun e e' he => ?_)
    (.seqRight (.orElse (.map₂ fun k k' args? args?' hk hargs => ?_) (.orElse
      (.map fun k k' hk => ?_) (.map fun k k' hk => ?_)))))
  · exact (between_settles exp_settles e e' he).andThen fun _ => .refl _
  · cases Relates.optional (between_settles plainArgs_settles) args? args?' hargs with
    | some hsome => exact hsome.andThen fun args => methodSelector_follows hk args
    | none => exact .of_eq (by rw [nameLabel_eq hk])
  · exact (numberLabel_follows hk).andThen fun _ => .refl _
  · exact .of_eq (by rw [textLabel_eq hk])

/-- Functions that go on from the same word to the same tree. -/
def FollowWords (f f' : Token → Attempt α) : Prop :=
  ∀ k k' : Token, k.word = k'.word → Follows Eq (f k) (f' k')

theorem behindName_follow : Relates Respelled behindName FollowWords := by
  refine .orElse (.map fun args args' h k k' hk => ?_) (.map fun steps steps' h k k' hk => ?_)
  · rw [← lexeme_eq hk]
    exact (argList_settles args args' h).andThen fun _ => .refl _
  · rw [← lexeme_eq hk]
    exact (Follows.mapM (List.Forall₂.imp selector_settles h)).andThen fun _ => .refl _

theorem keywordPrimary_settles : Settles keywordPrimary := by
  have hbraced {keyword : String} {n : Nonterminal} :
      Relates Respelled (lit keyword *> lit "\x7b" *> ref n <* lit "\x7d") (Respelled n) :=
    .seqLeft (.seqRight fun _ _ h => h)
  refine .orElse (.map fun _ _ _ => .refl _) (.orElse (.map fun _ _ _ => .refl _)
    (.orElse (.map fun _ _ _ => .refl _) (.orElse (.map fun _ _ _ => .refl _)
      (.orElse (.map fun _ _ _ => .refl _) ?_))))
  refine .orElse (.map fun k k' hk => .of_eq (by rw [lexeme_eq (behind_word k k' hk)])) ?_
  have hprincipal {k k' : Token} (hk : k.word = k'.word) (make : Principal → Value) :
      Follows Eq (value (do return make (← principalOf k)))
        (value (do return make (← principalOf k'))) :=
    value_follows ((principalOf_follows hk).andThen fun _ => .refl _)
  refine .orElse (.map fun k k' hk => hprincipal (behind_word k k' hk) _) ?_
  refine .orElse (.map fun k k' hk => hprincipal (behind_word k k' hk) _) ?_
  refine .orElse (.map₂ fun k k' m m' hk hm => ?_) ?_
  · rw [lexeme_eq (behind_word m m' hm)]
    exact hprincipal (behind_word k k' hk) fun p => .func p m'.lexeme
  -- parts of compound values
  refine .orElse (.map fun e e' he => ?_) ?_
  · exact (Relates.seqRight unary_settles e e' he).andThen fun _ => .refl _
  refine .orElse (.map fun es es' hes => ?_) ?_
  · exact Follows.andThen (hbraced (n := .items) es es' hes) fun _ => .refl _
  refine .orElse (.map fun fs fs' hfs => ?_) ?_
  · exact Follows.andThen (hbraced (n := .fields) fs fs' hfs) fun _ => .refl _
  refine .orElse (.map fun f f' hf => ?_) ?_
  · exact Follows.andThen (hbraced (n := .field) f f' hf) fun _ => .refl _
  -- calls, which name a method or only have arguments
  refine .orElse (.seqRight (.orElse (.map₃ fun w w' m m' args args' hw hm ha => ?_)
    (.map₂ fun m m' args args' hm ha => ?_))) ?_
  · rw [lexeme_eq (behind_word w w' hw)]
    exact (method_settles m m' hm).andThen fun _ =>
      (argList_settles args args' ha).andThen fun _ => .refl _
  · exact (method_settles m m' hm).andThen fun _ =>
      (argList_settles args args' ha).andThen fun _ => .refl _
  refine .orElse (.seqRight (.orElse (.map fun args args' ha => ?_)
    (.map₂ fun m m' args args' hm ha => ?_))) ?_
  · exact (argList_settles args args' ha).andThen fun _ => .refl _
  · exact (method_settles m m' hm).andThen fun _ =>
      (argList_settles args args' ha).andThen fun _ => .refl _
  refine .orElse (.seqRight (.orElse (.map₂ fun m m' e e' hm he => ?_) (.map fun e e' he => ?_))) ?_
  · exact (Relates.seqRight method_settles m m' hm).andThen fun _ =>
      (primary_settles e e' he).andThen fun _ => .refl _
  · exact (primary_settles e e' he).andThen fun _ => .refl _
  refine .orElse (.map fun e e' he => ?_) (between_settles exp_settles)
  exact (Relates.seqRight primary_settles e e' he).andThen fun _ => .refl _

theorem signedNumber_settles : Settles signedNumber := by
  refine .orElse (.seqRight (.orElse (.map fun k k' hk => ?_) (.map fun _ _ _ => .refl _)))
    (.map fun k k' hk => .of_eq (numberExp_eq (behind_word k k' hk)))
  exact .of_eq (by rw [lexeme_eq hk])

/-- Meanings that wait for an operand and go on from the same one to the same tree. -/
def FollowOperands (f f' : Attempt Exp → Attempt Exp) : Prop :=
  ∀ x x', Follows Eq x x' → Follows Eq (f x) (f' x')

theorem foldl_follows {fs fs' : List (Attempt Exp → Attempt Exp)}
    (h : List.Forall₂ FollowOperands fs fs') :
    FollowOperands (fun x => fs.foldl (fun acc f => f acc) x)
      fun x => fs'.foldl (fun acc f => f acc) x := by
  induction h with
  | nil => exact fun _ _ hx => hx
  | cons hf _ ih => exact fun x x' hx => ih _ _ (hf x x' hx)

theorem factors_follow : Relates Respelled behindOperand.factors (List.Forall₂ FollowOperands) := by
  intro fs fs' h
  refine List.Forall₂.imp (Relates.orElse (.map fun e e' he => ?_) (.map fun e e' he => ?_)) h
  · exact fun x x' hx => operate_follows _ hx (Relates.seqRight unary_settles e e' he)
  · exact fun x x' hx => operate_follows _ hx (Relates.seqRight unary_settles e e' he)

theorem behindOperand_follow : Relates Respelled behindOperand FollowOperands := by
  refine .map₃ fun factors factors' terms terms' t? t?' hf hts ht x x' hx => ?_
  have hterms : List.Forall₂ FollowOperands terms terms' := by
    refine List.Forall₂.imp (Relates.orElse (.map₂ fun e e' fs fs' he hfs => ?_)
      (.map₂ fun e e' fs fs' he hfs => ?_)) hts
    · exact fun x x' hx => operate_follows _ hx
        (foldl_follows (factors_follow fs fs' hfs) e e' (Relates.seqRight unary_settles e e' he))
    · exact fun x x' hx => operate_follows _ hx
        (foldl_follows (factors_follow fs fs' hfs) e e' (Relates.seqRight unary_settles e e' he))
  have hsum := foldl_follows hterms _ _ (foldl_follows (factors_follow _ _ hf) x x' hx)
  cases Relates.optional ofType_settles t? t?' ht with
  | none => exact hsum
  | some htype => exact hsum.andThen fun _ => htype.andThen fun _ => .refl _

theorem positional_follows {x x' : Attempt Exp} (h : Follows Eq x x') :
    Follows Eq (field.positional x) (field.positional x') := h.andThen fun _ => .refl _

theorem labelled_follow {label : Token → Attempt Label} (hlabel : FollowWords label label) :
    Relates Respelled (field.labelled label) FollowWords :=
  .map fun e e' he k k' hk => (hlabel k k' hk).andThen fun _ =>
    (Relates.seqRight exp_settles e e' he).andThen fun _ => .refl _

theorem onWord_settles {terminal : Terminal} {p : Phrase (Token → Attempt α)}
    (h : Relates Respelled p FollowWords) :
    Settles ((fun k rest => rest k) <$> .token terminal <*> p) :=
  .map₂ fun k k' f f' hk hf => h f f' hf k k' hk

theorem field_settles : Settles field := by
  refine .orElse (onWord_settles ?_) (.orElse (onWord_settles ?_) (.orElse (onWord_settles ?_) ?_))
  · refine .orElse (labelled_follow fun k k' hk => .of_eq (nameLabel_eq hk)) (.map₂ ?_)
    exact fun head head' behind behind' hh hb k k' hk =>
      positional_follows (behindOperand_follow _ _ hb _ _ (behindName_follow _ _ hh k k' hk))
  · refine .orElse (labelled_follow fun k k' hk => .of_eq (textLabel_eq hk)) (.map ?_)
    exact fun behind behind' hb k k' hk =>
      positional_follows (behindOperand_follow _ _ hb _ _ (.of_eq (textExp_eq hk)))
  · refine .orElse (labelled_follow fun k k' hk => numberLabel_follows hk) (.map ?_)
    exact fun behind behind' hb k k' hk =>
      positional_follows (behindOperand_follow _ _ hb _ _ (.of_eq (numberExp_eq hk)))
  · refine .map₂ fun e e' behind behind' he hb => ?_
    exact positional_follows (behindOperand_follow _ _ hb _ _
      (Relates.orElse keywordPrimary_settles signedNumber_settles e e' he))

theorem plainPrimary_settles : Settles plainPrimary := by
  refine .orElse (onWord_settles behindName_follow) (.orElse (.map fun k k' hk => ?_)
    (.map fun k k' hk => ?_))
  · exact .of_eq (textExp_eq hk)
  · exact .of_eq (numberExp_eq hk)

/-! ### Commands -/

/-- A phrase that means actions that are the same without their places. -/
abbrev Acts (p : Phrase (Attempt Action)) : Prop :=
  Relates Respelled p (Follows fun a a' => a.unplaced = a'.unplaced)

theorem placed_follow {action : Phrase (Attempt Action)} (h : Acts action) :
    Relates Respelled (placed action) (Follows Command.Alike) := by
  refine .map fun x x' hx => (h x.2 x'.2 hx).bind fun a a' ha => .ok ?_
  rw [Command.Alike, Command.unplaced, Command.unplaced, ha]

theorem block_follow : Relates Respelled block (Follows (List.Forall₂ Command.Alike)) :=
  .seqLeft (.seqRight fun _ _ h => h)

theorem quotedText_settles : Settles quotedText := .map fun k k' hk => .of_eq (by rw [lexeme_eq hk])

theorem ifAction_acts : Acts ifAction := by
  have hno : Relates Respelled
      (lit "else" *> (block <|> ((fun c => do return [← c]) <$> ref .ifCommand)))
      (Follows (List.Forall₂ Command.Alike)) := by
    refine .seqRight (.orElse block_follow (.map fun c c' hc => ?_))
    exact Follows.bind hc fun _ _ hc => .ok (.cons hc .nil)
  refine .map₃ fun cond cond' yes yes' no? no?' hc hy hn => ?_
  refine (Relates.seqRight exp_settles cond cond' hc).andThen fun cond => ?_
  refine (block_follow yes yes' hy).bind fun yes yes' hy => ?_
  have hno : Follows (List.Forall₂ Command.Alike) (no?.getD (.ok [])) (no?'.getD (.ok [])) := by
    cases Relates.optional hno no? no?' hn with
    | some hno => exact hno
    | none => exact .ok .nil
  refine hno.bind fun no no' hn => .ok ?_
  rw [Action.unplaced, Action.unplaced, unplacedAll_eq_iff.mpr hy, unplacedAll_eq_iff.mpr hn]

theorem functionAction_acts : Acts functionAction := by
  refine .map₃ fun name name' params params' body body' hname hparams hbody => ?_
  have hlexemes : params = params' := by
    refine Relates.seqLeft (Relates.seqRight (Relates.orElse (.map₂ fun k k' ks ks' hk hks => ?_)
      (.pure rfl))) params params' hparams
    exact lexemes_eq (.cons hk (List.Forall₂.imp behind_word hks))
  rw [hlexemes, lexeme_eq (behind_word name name' hname)]
  refine (block_follow body body' hbody).bind fun body body' hbody => ?_
  dsimp only
  split
  · exact .error _ _
  · refine .ok ?_
    rw [Action.unplaced, Action.unplaced, unplacedAll_eq_iff.mpr hbody]

theorem command_follow : Relates Respelled command (Follows Command.Alike) := by
  apply placed_follow
  have hexp {keyword : String} : Settles (lit keyword *> ref .exp) := .seqRight exp_settles
  have htext {keyword : String} : Settles (lit keyword *> quotedText) := .seqRight quotedText_settles
  refine .orElse (.map₂ fun name name' e e' hname he => ?_) ?_
  · rw [lexeme_eq (behind_word name name' hname)]
    exact (hexp e e' he).andThen fun _ => .ok rfl
  refine .orElse (.map₃ fun left left' op op' right right' hl hop hr => ?_) ?_
  · rw [lexeme_eq hop]
    exact (hexp left left' hl).andThen fun _ => (exp_settles right right' hr).andThen fun _ => .ok rfl
  refine .orElse (.map₃ fun name name' canister canister' file? file?' hname hc hf => ?_) ?_
  · rw [lexeme_eq (behind_word name name' hname)]
    have hfile := Follows.optionMapM (Relates.optional htext file? file?' hf)
    exact hfile.andThen fun _ => (Relates.seqRight quotedText_settles canister canister' hc).andThen
      fun _ => .ok rfl
  refine .orElse (.map fun source source' hs => ?_) ?_
  · exact (htext source source' hs).andThen fun _ => .ok rfl
  refine .orElse (.map₂ fun name name' source? source?' hname hs => ?_) ?_
  · rw [lexeme_eq (behind_word name name' hname)]
    have hsource := Follows.optionMapM (Relates.optional exp_settles source? source?' hs)
    exact hsource.andThen fun _ => .ok rfl
  refine .orElse (.map fun path path' hp => ?_) (.orElse (.map fun path path' hp => ?_) ?_)
  · exact (htext path path' hp).andThen fun _ => .ok rfl
  · exact (htext path path' hp).andThen fun _ => .ok rfl
  refine .orElse functionAction_acts (.orElse ifAction_acts (.orElse ?_ ?_))
  · refine .map₂ fun cond cond' body body' hc hb => (hexp cond cond' hc).andThen fun cond => ?_
    refine (block_follow body body' hb).bind fun body body' hb => .ok ?_
    rw [Action.unplaced, Action.unplaced, unplacedAll_eq_iff.mpr hb]
  · exact .map fun e e' he => (exp_settles e e' he).andThen fun _ => .ok rfl

theorem commands_follow : Relates Respelled commands (Follows (List.Forall₂ Command.Alike)) := by
  have hmore : Relates Respelled (lit ";" *> ref .commands) (Follows (List.Forall₂ Command.Alike)) :=
    .seqRight fun _ _ h => h
  refine .orElse hmore (.orElse (.map₂ fun c c' rest rest' hc hr => ?_) (.pure (.ok .nil)))
  have hrest := Relates.orElse hmore (.pure (.ok .nil)) rest rest' hr
  exact Follows.bind hc fun _ _ hc => hrest.bind fun _ _ hrest => .ok (.cons hc hrest)

/-! ### The rules -/

/-- The rules of scripts mean the same trees wherever their phrases stand, but for places. -/
theorem rules_respelled (n : Nonterminal) (m m' : Meaning n) (h : Parallel Respelled (rules n) m m') :
    Respelled n m m' := by
  cases n with
  | datatype => exact datatype_rule_settles m m' h
  | typeFields => exact separated_settles (ref_relates .typeFields) typeField_settles m m' h
  | typeArgs => exact separated_settles (ref_relates .typeArgs) typeArg_settles m m' h
  | methodSigs => exact separated_settles (ref_relates .methodSigs) methodSig_settles m m' h
  | exp =>
    exact Relates.map₂ (p := ref .unary) (fun e e' behind behind' he hb =>
      behindOperand_follow behind behind' hb e e' he) m m' h
  | unary =>
    exact Relates.orElse plainPrimary_settles
      (.orElse keywordPrimary_settles signedNumber_settles) m m' h
  | primary => exact Relates.orElse plainPrimary_settles keywordPrimary_settles m m' h
  | args => exact separated_settles (ref_relates .args) exp_settles m m' h
  | items => exact separated_settles (ref_relates .items) exp_settles m m' h
  | fields => exact separated_settles (ref_relates .fields) (ref_relates .field) m m' h
  | field => exact field_settles m m' h
  | commands => exact commands_follow m m' h
  | command => exact command_follow m m' h
  | ifCommand => exact placed_follow ifAction_acts m m' h
  | interface => trivial

end Phrase

end CanisterShell.Syntax
