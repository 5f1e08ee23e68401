import CanisterShell.Proofs.Candid.Proper
import CanisterShell.Proofs.Syntax.Legible
import CanisterShell.Proofs.Syntax.Meaning
import CanisterShell.Proofs.Syntax.Numeral

/-!
# Sound trees

A tree is sound if the values that it holds are proper and the names that it binds are names that a
script can write.  Rule by rule the grammar of scripts builds sound trees only, so whatever script is
read, its commands are sound (`readCommands_sound`).
-/

namespace CanisterShell.Syntax

open Candid (Value IsPlainName)

/-! ## Trees -/

mutual

/-- An expression whose values are proper. -/
inductive Exp.Sound : Exp → Prop where
  | literal {v : Value} (h : v.Proper) : Exp.Sound (.literal v)
  | path (name : String) {selectors : List Selector} (h : ∀ s ∈ selectors, Selector.Sound s) :
      Exp.Sound (.path name selectors)
  | opt {e : Exp} (h : Exp.Sound e) : Exp.Sound (.opt e)
  | vec {es : List Exp} (h : ∀ e ∈ es, Exp.Sound e) : Exp.Sound (.vec es)
  | record {fields : List (Option Candid.Label × Exp)} (h : ∀ f ∈ fields, Exp.Sound f.2) :
      Exp.Sound (.record fields)
  | variant (label : Candid.Label) {e : Exp} (h : Exp.Sound e) : Exp.Sound (.variant label e)
  | annotated {e : Exp} (t : Candid.Ty) (h : Exp.Sound e) : Exp.Sound (.annotated e t)
  | apply (function : String) {args : List Exp} (h : ∀ e ∈ args, Exp.Sound e) :
      Exp.Sound (.apply function args)
  | call (method? : Option Method) {args : List Exp} (mode : CallMode)
      (h : ∀ e ∈ args, Exp.Sound e) : Exp.Sound (.call method? args mode)
  | decode (method? : Option Method) {blob : Exp} (h : Exp.Sound blob) :
      Exp.Sound (.decode method? blob)
  | fail {e : Exp} (h : Exp.Sound e) : Exp.Sound (.fail e)

/-- A step of a path whose values are proper. -/
inductive Selector.Sound : Selector → Prop where
  | index {e : Exp} (h : Exp.Sound e) : Selector.Sound (.index e)
  | field (label : Candid.Label) : Selector.Sound (.field label)
  | unwrap : Selector.Sound .unwrap
  | size : Selector.Sound .size
  | map (function : String) : Selector.Sound (.map function)
  | filter (function : String) : Selector.Sound (.filter function)
  | fold {start : Exp} (function : String) (h : Exp.Sound start) : Selector.Sound (.fold start function)

end

mutual

/-- A command whose values are proper and that binds plain names. -/
inductive Command.Sound : Command → Prop where
  | mk (span : Text.Span) {action : Action} (h : Action.Sound action) : Command.Sound (.mk span action)

/-- What a command does, with proper values and plain names. -/
inductive Action.Sound : Action → Prop where
  | bind {name : String} {e : Exp} (hname : IsPlainName name) (h : e.Sound) : Action.Sound (.bind name e)
  | evaluate {e : Exp} (h : e.Sound) : Action.Sound (.evaluate e)
  | assertion (op : String) {left right : Exp} (hl : left.Sound) (hr : right.Sound) :
      Action.Sound (.assertion op left right)
  | importCanister {name : String} (canister : String) (interface? : Option String)
      (hname : IsPlainName name) : Action.Sound (.importCanister name canister interface?)
  | configure (source : String) : Action.Sound (.configure source)
  | useIdentity {name : String} {source? : Option Exp} (hname : IsPlainName name)
      (h : ∀ e, source? = some e → e.Sound) : Action.Sound (.useIdentity name source?)
  | saveTo (path : String) : Action.Sound (.saveTo path)
  | loadFrom (path : String) : Action.Sound (.loadFrom path)
  | define (name : String) {params : List String} {body : List Command}
      (hparams : ∀ p ∈ params, IsPlainName p) (h : ∀ c ∈ body, Command.Sound c) :
      Action.Sound (.define name params body)
  | branch {cond : Exp} {yes no : List Command} (hcond : cond.Sound)
      (hyes : ∀ c ∈ yes, Command.Sound c) (hno : ∀ c ∈ no, Command.Sound c) :
      Action.Sound (.branch cond yes no)
  | loop {cond : Exp} {body : List Command} (hcond : cond.Sound)
      (h : ∀ c ∈ body, Command.Sound c) : Action.Sound (.loop cond body)

end

/-! ## Names -/

/-- The names among some tokens are plain. -/
def Named (tokens : List Token) : Prop :=
  ∀ k ∈ tokens, k.terminal = .name → IsPlainName k.lexeme

theorem front?_name {c : Char} {rest : List Char} {n : Nat}
    (h : front? scriptGrammar.lexicon (c :: rest) = some (.name, n)) :
    IsPlainName (String.ofList (c :: rest.take (n - 1))) := by
  obtain ⟨hc, hn, hterminal⟩ | ⟨hnumber, -⟩ | htext | hop | ⟨spelling, hmark⟩ := front?_cases h
  · rw [List.takeWhile_cons_of_pos (isNameChar_of_isNameStart hc)] at hn hterminal
    have hlexeme : rest.take (n - 1) = rest.takeWhile Candid.isNameChar := by
      rw [hn, List.length_cons, Nat.add_sub_cancel]
      exact (List.prefix_iff_eq_take.mp (List.takeWhile_prefix _)).symm
    rw [hlexeme]
    constructor
    · rw [Candid.isIdentifier, String.toList_ofList]
      dsimp only
      rw [hc, Bool.true_and, List.all_takeWhile]
    · dsimp only at hterminal
      split at hterminal
      case isTrue => cases hterminal
      case isFalse hkeyword => exact Bool.eq_false_iff.mpr hkeyword
  · cases hnumber
  · cases htext
  · cases hop
  · cases hmark

theorem named_scanFrom (at_ : Cursor) (cs : List Char) :
    Named (scanFrom scriptGrammar.lexicon at_ cs).tokens := by
  intro k hk hname
  fun_induction scanFrom scriptGrammar.lexicon at_ cs with
  | case1 => cases hk
  | case2 at_ c rest hc ih => exact ih hk
  | case3 at_ c rest hc hfront =>
    rw [hfront] at hk
    cases hk
  | case4 at_ c rest hc terminal n lexeme next hfront ih =>
    rw [hfront] at hk
    rcases List.mem_cons.mp hk with rfl | hk
    · obtain rfl : terminal = .name := hname
      exact front?_name hfront
    · exact ih hk

/-! ## Phrases -/

/-- What phrases of nonterminals mean: attempts to build sound trees. -/
def Built : (n : Nonterminal) → Meaning n → Prop
  | .exp, x | .unary, x | .primary, x => x.Gives Exp.Sound
  | .args, x | .items, x => x.Gives fun es => ∀ e ∈ es, e.Sound
  | .fields, x => x.Gives fun fs => ∀ f ∈ fs, f.2.Sound
  | .field, x => x.Gives fun f => f.2.Sound
  | .commands, x => x.Gives fun cs => ∀ c ∈ cs, c.Sound
  | .command, x | .ifCommand, x => x.Gives Command.Sound
  | .datatype, _ | .typeFields, _ | .typeArgs, _ | .methodSigs, _ | .interface, _ => True

namespace Phrase

open Rule (lit optional)

variable {tokens : List Token} {α β : Type}

/-- The phrase means `a`, its nonterminals meaning attempts to build sound trees. -/
abbrev Makes (tokens : List Token) (p : Phrase α) (a : α) : Prop := Rule.Means (· ∈ tokens) Built p a

/-- A phrase that means attempts whose results are in `P`. -/
abbrev Builds (tokens : List Token) (p : Phrase (Attempt α)) (P : α → Prop) : Prop :=
  Rule.All (· ∈ tokens) Built p fun x => x.Gives P

/-! ### Expressions -/

theorem exp_builds : Builds tokens (ref .exp) Exp.Sound := fun _ h => h

theorem unary_builds : Builds tokens (ref .unary) Exp.Sound := fun _ h => h

theorem primary_builds : Builds tokens (ref .primary) Exp.Sound := fun _ h => h

theorem value_gives {x : Attempt Value} (h : x.Gives Value.Proper) : (value x).Gives Exp.Sound :=
  h.bind fun _ hv => .ok (.literal hv)

theorem number_proper (text : String) : (Literal.number text).Gives Value.Proper := by
  have decimal (cs : List Char) : (Literal.number.decimal cs).Gives Value.Proper := by
    unfold Literal.number.decimal
    split
    · split
      · exact .ok (.float _ _)
      · exact .error _
    · split
      · exact .ok (.number _)
      · exact .error _
  unfold Literal.number
  dsimp only
  split
  · split
    · split
      · exact .ok (.number _)
      · exact .error _
    · exact decimal _
  · exact decimal _

theorem numberExp_gives (k : Token) : (numberExp k).Gives Exp.Sound := value_gives (number_proper _)

theorem textExp_gives (k : Token) : (textExp k).Gives Exp.Sound :=
  value_gives (.bind_right fun s => .ok (.text s))

theorem operate_gives {function : String} {left right : Attempt Exp} (hl : left.Gives Exp.Sound)
    (hr : right.Gives Exp.Sound) : (operate function left right).Gives Exp.Sound :=
  hl.bind fun _ hl => hr.bind fun _ hr => .ok (.apply function (by simp [hl, hr]))

theorem argList_builds : Builds tokens argList fun es => ∀ e ∈ es, e.Sound :=
  .seqLeft (.seqRight fun _ h => h)

theorem plainArgs_builds : Builds tokens plainArgs fun es => ∀ e ∈ es, e.Sound := by
  refine .orElse (.map₂ fun e es he hes => ?_) (.pure (.ok nofun))
  refine .mapM (List.forall_mem_cons.mpr ⟨exp_builds e he, fun e he => ?_⟩)
  exact Rule.All.seqRight exp_builds e (hes e he)

theorem methodSelector_gives (k : Token) {args : List Exp} (h : ∀ e ∈ args, e.Sound) :
    (methodSelector k args).Gives Selector.Sound := by
  unfold methodSelector
  split
  · exact .ok .size
  · exact .bind_right fun f => .ok (.map f)
  · exact .bind_right fun f => .ok (.filter f)
  · exact .bind_right fun f => .ok (.fold f (h _ (.head _)))
  · exact .error _

theorem selector_builds : Builds tokens selector Selector.Sound := by
  refine .orElse (.map fun _ _ => .ok .unwrap) (.orElse ?_ (.seqRight (.orElse ?_ (.orElse ?_ ?_))))
  · exact .map fun e he => (Rule.All.seqLeft (.seqRight exp_builds) e he).bind fun _ h =>
      .ok (.index h)
  · refine .map₂ fun k args? _ ha => ?_
    cases args? with
    | none => exact .bind_right fun l => .ok (.field l)
    | some args =>
      have hargs := Rule.All.seqLeft (.seqRight plainArgs_builds) args
        (Rule.means_optional.mp ha args rfl)
      exact hargs.bind fun _ h => methodSelector_gives k h
  · exact .map fun _ _ => .bind_right fun l => .ok (.field l)
  · exact .map fun _ _ => .bind_right fun l => .ok (.field l)

theorem behindName_gives {f : Token → Attempt Exp} (h : Makes tokens behindName f)
    (k : Token) : (f k).Gives Exp.Sound := by
  rcases h with ⟨args, ha, rfl⟩ | ⟨steps, hs, rfl⟩
  · exact (argList_builds args ha).bind fun _ h => .ok (.apply _ h)
  · exact (Attempt.Gives.mapM fun s h => selector_builds s (hs s h)).bind fun _ h =>
      .ok (.path _ h)

theorem variantOf_gives {f : Option Candid.Label × Exp} (h : f.2.Sound) :
    (variantOf f).Gives Exp.Sound := by
  unfold variantOf
  split
  · exact .ok (.variant _ h)
  · exact .ok (.variant _ (.literal .null))
  · exact .error _

theorem keywordPrimary_builds : Builds tokens keywordPrimary Exp.Sound := by
  have hbraced {keyword : String} {n : Nonterminal} :
      ∀ x, Makes tokens (lit keyword *> lit "\x7b" *> ref n <* lit "\x7d") x →
        Built n x := fun x h => (Rule.means_seqRight.mp (Rule.means_seqLeft.mp h).1).2
  have literal {v : Value} (h : v.Proper) : (value (.ok v)).Gives Exp.Sound := value_gives (.ok h)
  refine .orElse (.map fun _ _ => literal .null) ?_
  refine .orElse (.map fun _ _ => literal (.bool _)) ?_
  refine .orElse (.map fun _ _ => literal (.bool _)) ?_
  refine .orElse (.map fun _ _ => literal (.float _ _)) ?_
  refine .orElse (.map fun _ _ => literal (.float _ _)) ?_
  refine .orElse (.map fun _ _ => value_gives (.bind_right fun b => .ok (.blob b))) ?_
  refine .orElse (.map fun _ _ => value_gives (.bind_right fun p => .ok (.principal p))) ?_
  refine .orElse (.map fun _ _ => value_gives (.bind_right fun p => .ok (.service p))) ?_
  refine .orElse (.map₂ fun _ _ _ _ => value_gives (.bind_right fun p => .ok (.func p _))) ?_
  -- parts of compound values
  refine .orElse (.map fun e he => ?_) ?_
  · exact (Rule.All.seqRight unary_builds e he).bind fun _ h => .ok (.opt h)
  refine .orElse (.map fun es hes => ?_) ?_
  · exact Attempt.Gives.bind (hbraced (n := .items) es hes) fun _ h => .ok (.vec h)
  refine .orElse (.map fun fs hfs => ?_) ?_
  · exact Attempt.Gives.bind (hbraced (n := .fields) fs hfs) fun _ h => .ok (.record h)
  refine .orElse (.map fun f hf => ?_) ?_
  · exact Attempt.Gives.bind (hbraced (n := .field) f hf) fun _ h => variantOf_gives h
  -- calls, which name a method or only have arguments
  refine .orElse (.seqRight (.orElse (.map₃ fun w m args _ _ ha => ?_)
    (.map₂ fun m args _ ha => ?_))) ?_
  · exact .bind_right fun _ => (argList_builds args ha).bind fun _ h => .ok (.call _ _ h)
  · exact .bind_right fun _ => (argList_builds args ha).bind fun _ h => .ok (.call _ _ h)
  refine .orElse (.seqRight (.orElse (.map fun args ha => ?_) (.map₂ fun m args _ ha => ?_))) ?_
  · exact (argList_builds args ha).bind fun _ h => .ok (.call _ _ h)
  · exact .bind_right fun _ => (argList_builds args ha).bind fun _ h => .ok (.call _ _ h)
  refine .orElse (.seqRight (.orElse (.map₂ fun m e _ he => ?_) (.map fun e he => ?_))) ?_
  · exact .bind_right fun _ => (primary_builds e he).bind fun _ h => .ok (.decode _ h)
  · exact (primary_builds e he).bind fun _ h => .ok (.decode _ h)
  refine .orElse (.map fun e he => ?_) (.seqLeft (.seqRight exp_builds))
  exact (Rule.All.seqRight primary_builds e he).bind fun _ h => .ok (.fail h)

theorem signedNumber_builds : Builds tokens signedNumber Exp.Sound := by
  refine .orElse (.seqRight (.orElse ?_ ?_)) (.map fun k _ => numberExp_gives k)
  · exact .map fun _ _ => value_gives (number_proper _)
  · exact .map fun _ _ => value_gives (.ok (.float _ _))

/-- A meaning that waits for an operand builds sound trees from sound ones. -/
def Extends (f : Attempt Exp → Attempt Exp) : Prop :=
  ∀ x, x.Gives Exp.Sound → (f x).Gives Exp.Sound

theorem foldl_gives {fs : List (Attempt Exp → Attempt Exp)} (h : ∀ f ∈ fs, Extends f)
    {x : Attempt Exp} (hx : x.Gives Exp.Sound) :
    (fs.foldl (fun acc f => f acc) x).Gives Exp.Sound := by
  induction fs generalizing x with
  | nil => exact hx
  | cons f fs ih =>
    obtain ⟨hf, hfs⟩ := List.forall_mem_cons.mp h
    exact ih hfs (hf x hx)

theorem factors_extend {fs : List (Attempt Exp → Attempt Exp)}
    (h : Makes tokens behindOperand.factors fs) : ∀ f ∈ fs, Extends f := by
  intro f hf
  rcases h f hf with ⟨e, he, rfl⟩ | ⟨e, he, rfl⟩
  · exact fun x hx => operate_gives hx (Rule.All.seqRight unary_builds e he)
  · exact fun x hx => operate_gives hx (Rule.All.seqRight unary_builds e he)

theorem behindOperand_extends {f : Attempt Exp → Attempt Exp}
    (h : Makes tokens behindOperand f) : Extends f := by
  obtain ⟨factors, terms, t?, hf, hts, -, rfl⟩ := Rule.means_map₃.mp h
  intro first hfirst
  have hterms : ∀ f ∈ terms, Extends f := by
    intro f hf
    rcases hts f hf with h | h
    · obtain ⟨e, fs, he, hfs, rfl⟩ := Rule.means_map₂.mp h
      exact fun x hx => operate_gives hx
        (foldl_gives (factors_extend hfs) (Rule.All.seqRight unary_builds e he))
    · obtain ⟨e, fs, he, hfs, rfl⟩ := Rule.means_map₂.mp h
      exact fun x hx => operate_gives hx
        (foldl_gives (factors_extend hfs) (Rule.All.seqRight unary_builds e he))
  have hsum := foldl_gives hterms (foldl_gives (factors_extend hf) hfirst)
  cases t? with
  | none => exact hsum
  | some t => exact hsum.bind fun _ h => .bind_right fun t => .ok (.annotated t h)

theorem positional_gives {x : Attempt Exp} (h : x.Gives Exp.Sound) :
    (field.positional x).Gives fun f => f.2.Sound := h.bind fun _ h => .ok h

theorem labelled_gives {label : Token → Attempt Candid.Label} {k : Token}
    {f : Token → Attempt (Option Candid.Label × Exp)}
    (h : Makes tokens (field.labelled label) f) : (f k).Gives fun f => f.2.Sound := by
  obtain ⟨e, he, rfl⟩ := h
  exact .bind_right fun _ => (Rule.All.seqRight exp_builds e he).bind fun _ h => .ok h

theorem field_builds : Builds tokens field fun f => f.2.Sound := by
  refine .orElse (.map₂ fun k f hk hf => ?_) (.orElse (.map₂ fun k f hk hf => ?_)
    (.orElse (.map₂ fun k f hk hf => ?_) (.map₂ fun e f he hf => ?_)))
  · rcases hf with hf | hf
    · exact labelled_gives hf
    · obtain ⟨head, behind, hh, hb, rfl⟩ := Rule.means_map₂.mp hf
      exact positional_gives (behindOperand_extends hb _ (behindName_gives hh k))
  · rcases hf with hf | ⟨behind, hb, rfl⟩
    · exact labelled_gives hf
    · exact positional_gives (behindOperand_extends hb _ (textExp_gives k))
  · rcases hf with hf | ⟨behind, hb, rfl⟩
    · exact labelled_gives hf
    · exact positional_gives (behindOperand_extends hb _ (numberExp_gives k))
  · have hfirst : Builds tokens (keywordPrimary <|> signedNumber) Exp.Sound :=
      .orElse keywordPrimary_builds signedNumber_builds
    exact positional_gives (behindOperand_extends hf e (hfirst e he))

theorem plainPrimary_builds : Builds tokens plainPrimary Exp.Sound := by
  refine .orElse (.map₂ fun k _ _ hb => behindName_gives hb k) (.orElse ?_ ?_)
  · exact .map fun k _ => textExp_gives k
  · exact .map fun k _ => numberExp_gives k

theorem separated_builds {B : (n : Nonterminal) → Meaning n → Prop} {mark : String}
    {more : Phrase (Attempt (List α))} {item : Phrase (Attempt α)} {P : α → Prop}
    (hm : Rule.All (· ∈ tokens) B more fun x => x.Gives fun as => ∀ a ∈ as, P a)
    (hi : Rule.All (· ∈ tokens) B item fun x => x.Gives P) :
    Rule.All (· ∈ tokens) B (separated mark more item) fun x => x.Gives fun as => ∀ a ∈ as, P a := by
  have hrest : Rule.All (· ∈ tokens) B ((lit mark *> more) <|> Pure.pure (.ok []))
      fun x => x.Gives fun as => ∀ a ∈ as, P a :=
    .orElse (.seqRight hm) (.pure (.ok nofun))
  refine .orElse (.map₂ fun a rest ha hr => ?_) (.pure (.ok nofun))
  exact (hi a ha).bind fun _ h => (hrest rest hr).bind fun _ hs =>
    .ok (List.forall_mem_cons.mpr ⟨h, hs⟩)

/-! ### Commands -/

theorem placed_builds {action : Phrase (Attempt Action)} (h : Builds tokens action Action.Sound) :
    Builds tokens (placed action) Command.Sound :=
  .map fun x hx => (h x.2 hx).bind fun _ h => .ok (.mk _ h)

theorem block_builds : Builds tokens block fun cs => ∀ c ∈ cs, c.Sound :=
  .seqLeft (.seqRight fun _ h => h)

theorem ifAction_builds : Builds tokens ifAction Action.Sound := by
  have hno : Builds tokens
      (lit "else" *> (block <|> ((fun c => do return [← c]) <$> ref .ifCommand)))
      fun cs => ∀ c ∈ cs, c.Sound := by
    refine .seqRight (.orElse block_builds (.map fun c hc => ?_))
    exact Attempt.Gives.bind hc fun _ h => .ok (List.forall_mem_singleton.mpr h)
  refine .map₃ fun cond yes no? hc hy hno? => ?_
  refine (Rule.All.seqRight exp_builds cond hc).bind fun _ hcond => ?_
  refine (block_builds yes hy).bind fun _ hyes => ?_
  cases no? with
  | none => exact .ok (.branch hcond hyes nofun)
  | some no =>
    exact (hno no (Rule.means_optional.mp hno? no rfl)).bind fun _ hno =>
      .ok (.branch hcond hyes hno)

theorem named_behind {spelling : String} (hn : Named tokens) {k : Token}
    (h : Makes tokens (lit spelling *> nameTok) k) : IsPlainName k.lexeme := by
  obtain ⟨hname, hk⟩ := (Rule.means_seqRight.mp h).2
  exact hn k hk hname

theorem functionAction_builds (hn : Named tokens) : Builds tokens functionAction Action.Sound := by
  refine .map₃ fun name params body _ hp hb => (block_builds body hb).bind fun _ h => ?_
  have hparams : ∀ p ∈ params, IsPlainName p := by
    have hlist := (Rule.means_seqRight.mp (Rule.means_seqLeft.mp hp).1).2
    obtain hp | rfl := hlist
    · obtain ⟨k, ks, hk, hks, rfl⟩ := Rule.means_map₂.mp hp
      refine List.forall_mem_map.mpr (List.forall_mem_cons.mpr ⟨hn k hk.2 hk.1, fun k hk => ?_⟩)
      exact named_behind hn (hks k hk)
    · exact nofun
  split
  · exact .error _
  · exact .ok (.define _ hparams h)

theorem command_builds (hn : Named tokens) : Builds tokens command Command.Sound := by
  apply placed_builds
  have hexp {keyword : String} : Builds tokens (lit keyword *> ref .exp) Exp.Sound :=
    .seqRight exp_builds
  refine .orElse (.map₂ fun name e hname he => ?_) ?_
  · exact (hexp e he).bind fun _ h => .ok (.bind (named_behind hn hname) h)
  refine .orElse (.map₃ fun left _ right hl _ hr => ?_) ?_
  · exact (hexp left hl).bind fun _ hl => (exp_builds right hr).bind fun _ hr =>
      .ok (.assertion _ hl hr)
  refine .orElse (.map₃ fun name canister interface? hname _ _ => ?_) ?_
  · exact .bind_right fun _ => .bind_right fun _ =>
      .ok (.importCanister _ _ (named_behind hn hname))
  refine .orElse (.map fun _ _ => .bind_right fun _ => .ok (.configure _)) ?_
  refine .orElse (.map₂ fun name source? hname hs => ?_) ?_
  · cases source? with
    | none => exact .ok (.useIdentity (named_behind hn hname) nofun)
    | some source =>
      refine Attempt.Gives.bind (Q := fun e? => ∀ e : Exp, e? = some e → e.Sound) ?_
        fun _ h => .ok (.useIdentity (named_behind hn hname) h)
      refine Attempt.Gives.bind (exp_builds source (Rule.means_optional.mp hs source rfl))
        fun e h => .ok ?_
      rintro _ ⟨⟩
      exact h
  refine .orElse (.map fun _ _ => .bind_right fun _ => .ok (.saveTo _)) ?_
  refine .orElse (.map fun _ _ => .bind_right fun _ => .ok (.loadFrom _)) ?_
  refine .orElse (functionAction_builds hn) (.orElse ifAction_builds (.orElse ?_ ?_))
  · exact .map₂ fun cond body hc hb => (hexp cond hc).bind fun _ hcond =>
      (block_builds body hb).bind fun _ h => .ok (.loop hcond h)
  · exact .map fun e he => (exp_builds e he).bind fun _ h => .ok (.evaluate h)

theorem commands_builds : Builds tokens commands fun cs => ∀ c ∈ cs, c.Sound := by
  have hmore : Builds tokens (lit ";" *> ref .commands) fun cs => ∀ c ∈ cs, c.Sound :=
    .seqRight fun _ h => h
  have hrest : Builds tokens ((lit ";" *> ref .commands) <|> Pure.pure (.ok []))
      fun cs => ∀ c ∈ cs, c.Sound := .orElse hmore (.pure (.ok nofun))
  refine .orElse hmore (.orElse (.map₂ fun c rest hc hr => ?_) (.pure (.ok nofun)))
  exact Attempt.Gives.bind hc fun _ h => (hrest rest hr).bind fun _ hs =>
    .ok (List.forall_mem_cons.mpr ⟨h, hs⟩)

/-! ### The rules -/

theorem rules_built (hn : Named tokens) (n : Nonterminal) (m : Meaning n)
    (h : Makes tokens (rules n) m) : Built n m := by
  cases n with
  | datatype | typeFields | typeArgs | methodSigs | interface => trivial
  | exp =>
    obtain ⟨e, behind, he, hb, rfl⟩ := Rule.means_map₂.mp h
    exact behindOperand_extends hb e he
  | unary =>
    exact Rule.All.orElse plainPrimary_builds (.orElse keywordPrimary_builds signedNumber_builds) m h
  | primary => exact Rule.All.orElse plainPrimary_builds keywordPrimary_builds m h
  | args =>
    have hmore : Builds tokens (ref .args) fun es => ∀ e ∈ es, e.Sound := fun _ h => h
    exact separated_builds hmore exp_builds m h
  | items =>
    have hmore : Builds tokens (ref .items) fun es => ∀ e ∈ es, e.Sound := fun _ h => h
    exact separated_builds hmore exp_builds m h
  | fields =>
    have hmore : Builds tokens (ref .fields) fun fs => ∀ f ∈ fs, f.2.Sound := fun _ h => h
    have hitem : Builds tokens (ref .field) fun f => f.2.Sound := fun _ h => h
    exact separated_builds hmore hitem m h
  | field => exact field_builds m h
  | commands => exact commands_builds m h
  | command => exact command_builds hn m h
  | ifCommand => exact placed_builds ifAction_builds m h

end Phrase

/-- The commands of a script are sound. -/
theorem readCommands_sound (prepared : List Char) :
    (readCommands prepared).Gives fun cs => ∀ c ∈ cs, c.Sound := by
  rw [readCommands]
  cases ht : scriptGrammar.parse .commands prepared with
  | error e => exact .error _
  | ok tree =>
    have htree := Grammar.parse_means ht (Phrase.rules_built (named_scanFrom {} prepared))
    cases tree with
    | ok commands => exact .ok (htree commands rfl)
    | error f =>
      unfold build wholeLiteral
      cases f <;> exact .error _

theorem parseCommands_sound (environ : Source.Environ) (source : String) :
    (parseCommands environ source).Gives fun cs => ∀ c ∈ cs, c.Sound :=
  .bind_right fun prepared => readCommands_sound prepared

end CanisterShell.Syntax
