import CanisterShell.Proofs.Syntax.Joining
import CanisterShell.Proofs.Syntax.PrintedTypes

/-!
# Arguments that are gone on with

The arguments of a call are expressions between commas, behind the last of which one may stand.
Further arguments behind a comma go on with them, unless one stands there already
(`Phrase.Arguments.join`), and whatever text they were read from, it is read the same in front of the
rest (`ArgumentText.join`).  What is read as arguments that are encoded, with the parenthesis behind
them (`ClosedText.of_encode`), is read as those of a call (`ClosedText.parse`).
-/

namespace CanisterShell.Syntax

open Rule (Derives lit)

namespace Phrase

/-! ## Expressions between commas -/

/-- Tokens that are expressions between commas, and the expressions. -/
inductive Arguments : List Token → List Exp → Prop where
  | nil : Arguments [] []
  | last {ks : List Token} {e : Exp} (he : Derives rules (ref .exp) ks (.ok e)) : Arguments ks [e]
  | more {k : Token} {ks ls : List Token} {e : Exp} {es : List Exp}
      (he : Derives rules (ref .exp) ks (.ok e)) (hk : k.terminal = .fixed ",")
      (h : Arguments ls es) : Arguments (ks ++ k :: ls) (e :: es)

namespace Arguments

variable {ks ls : List Token} {es es' : List Exp}

theorem of_derives (h : Derives rules (ref .args) ks (.ok es)) : Arguments ks es := by
  -- every comma takes a token from what is behind it
  induction hn : ks.length using Nat.strong_induction_on generalizing ks es with
  | _ n ih =>
    obtain hitems | hnothing := h.consists.consists
    · obtain ⟨⟨_, m⟩, hx, hes⟩ := hitems.consists
      obtain ⟨ls, ls', rfl, hhead, htail⟩ := hx.consists
      obtain ⟨x, he, rfl⟩ := hhead.consists
      obtain ⟨e, rfl, hes⟩ := Attempt.bind_ok_iff.mp hes.symm
      obtain ⟨rest, rfl, hes⟩ := Attempt.bind_ok_iff.mp hes
      cases hes
      obtain hmore | hnothing := htail.consists
      · obtain ⟨k, ms, rfl, hk, hms⟩ := consists_marked hmore
        refine .more he hk (ih ms.length ?_ hms rfl)
        rw [← hn, List.length_append, List.length_cons]
        omega
      · obtain ⟨rfl, hrest⟩ := hnothing.consists
        cases hrest
        rw [List.append_nil]
        exact .last he
    · obtain ⟨rfl, hes⟩ := hnothing.consists
      cases hes
      exact .nil

theorem derives (h : Arguments ks es) : Derives rules (ref .args) ks (.ok es) := by
  have item {ks ls : List Token} {e : Exp} {es : List Exp} (he : Derives rules (ref .exp) ks (.ok e))
      (h : Derives rules ((lit "," *> ref .args) <|> pure (.ok [])) ls (.ok es)) :
      Derives rules (ref .args) (ks ++ ls) (.ok (e :: es)) :=
    .ref (.orLeft (.app (.apply (fun a rest => do return (← a) :: (← rest)) he) h))
  induction h with
  | nil => exact .ref (.orRight (.pure _))
  | @last ks e he =>
    have := item he (.orRight (.pure (Except.ok [])))
    rwa [List.append_nil] at this
  | @more k ks ls e es he hk _ ih =>
    have htoken : Derives rules (.token k.terminal) [k] k := .token k
    rw [hk] at htoken
    exact item he (.orLeft (.map Prod.snd (.seq htoken ih)))

theorem eq_nil_iff (h : Arguments ks es) : ks = [] ↔ es = [] := by
  cases h with
  | nil => simp
  | last he =>
    refine ⟨?_, nofun⟩
    rintro rfl
    exact absurd ((he.head decides_scriptGrammar).1 rfl) (by decide +kernel)
  | more => simp

/-- Expressions behind a comma go on with those in front of it, if no comma stands there already. -/
theorem join (h : Arguments ks es) (hne : es ≠ [])
    (hlast : ∀ k ∈ ks.getLast?, k.terminal ≠ .fixed ",") {k : Token} (hk : k.terminal = .fixed ",")
    (h' : Arguments ls es') : Arguments (ks ++ k :: ls) (es ++ es') := by
  induction h with
  | nil => exact absurd rfl hne
  | last he => exact .more he hk h'
  | @more k' ks ls' e es he hk' h ih =>
    have hls : ls' ≠ [] := by
      rintro rfl
      exact hlast k' (by simp) hk'
    rw [List.append_assoc]
    refine .more he hk' (ih (fun hes => hls (h.eq_nil_iff.mpr hes)) fun l hl => hlast l ?_)
    rw [List.getLast?_append, List.getLast?_cons, Option.mem_def.mp hl]
    rfl

end Arguments

/-! ## Arguments that are encoded -/

/-- An attempt does not make a call. -/
def NoCall (x : Attempt Exp) : Prop := ∀ m? args how, x ≠ .ok (.call m? args how)

theorem operate_noCall (function : String) (left right : Attempt Exp) :
    NoCall (operate function left right) := by
  intro m? args how h
  obtain ⟨l, -, h⟩ := Attempt.bind_ok_iff.mp h
  obtain ⟨r, -, h⟩ := Attempt.bind_ok_iff.mp h
  cases h

theorem eq_nil_of_foldl {fs : List (Attempt Exp → Attempt Exp)} (hfs : ∀ f ∈ fs, ∀ x, NoCall (f x))
    {x : Attempt Exp} {m? : Option Method} {args : List Exp} {how : CallMode}
    (h : fs.foldl (fun acc f => f acc) x = .ok (.call m? args how)) : fs = [] := by
  obtain rfl | ⟨fs, f, rfl⟩ := List.eq_nil_or_concat' fs
  · rfl
  · rw [List.foldl_append] at h
    exact absurd h (hfs f (by simp) _ _ _ _)

theorem factors_noCall {ks : List Token} {fs : List (Attempt Exp → Attempt Exp)}
    (h : Derives rules behindOperand.factors ks fs) : ∀ f ∈ fs, ∀ x, NoCall (f x) := by
  intro f hf x
  obtain ⟨ls, hf⟩ := Rule.exists_of_mem_many h hf
  obtain hf | hf := hf.consists
  · obtain ⟨e, -, rfl⟩ := hf.consists
    exact operate_noCall _ _ _
  · obtain ⟨e, -, rfl⟩ := hf.consists
    exact operate_noCall _ _ _

theorem nothing_behind {ks : List Token} {f : Attempt Exp → Attempt Exp} {x : Attempt Exp}
    {m? : Option Method} {args : List Exp} {how : CallMode} (h : Derives rules behindOperand ks f)
    (hf : f x = .ok (.call m? args how)) : ks = [] ∧ x = .ok (.call m? args how) := by
  obtain ⟨g, t?, ls, ls', rfl, hg, ht, rfl⟩ := Rule.consists_app h
  obtain ⟨factors, terms, ms, ms', rfl, hfactors, hterms, rfl⟩ := Rule.consists_map₂ hg
  cases t? with
  | some t =>
    obtain ⟨e, -, hf⟩ := Attempt.bind_ok_iff.mp hf
    obtain ⟨u, -, hf⟩ := Attempt.bind_ok_iff.mp hf
    cases hf
  | none =>
    have hcalls : ∀ f ∈ terms, ∀ x, NoCall (f x) := by
      intro f hf x
      obtain ⟨ls, hf⟩ := Rule.exists_of_mem_many hterms hf
      obtain hf | hf := hf.consists
      · obtain ⟨e, fs, _, _, -, -, -, rfl⟩ := Rule.consists_map₂ hf
        exact operate_noCall _ _ _
      · obtain ⟨e, fs, _, _, -, -, -, rfl⟩ := Rule.consists_map₂ hf
        exact operate_noCall _ _ _
    obtain rfl := eq_nil_of_foldl hcalls hf
    obtain rfl := eq_nil_of_foldl (factors_noCall hfactors) hf
    obtain rfl := Rule.eq_nil_of_many hfactors
    obtain rfl := Rule.eq_nil_of_many hterms
    obtain rfl := Rule.eq_nil_of_absent ht
    exact ⟨rfl, hf⟩

theorem derives_right {α : Type} {p q : Phrase α} {k : Token} {ks : List Token} {a : α}
    (h : Derives rules (p <|> q) (k :: ks) a)
    (hfirst : lookahead.has (lookahead.firstOf p) k.terminal = false) :
    Derives rules q (k :: ks) a := by
  obtain h | h := h.consists
  · have := (h.head decides_scriptGrammar).2 k rfl
    rw [hfirst] at this
    cases this
  · exact h

theorem derives_left {α : Type} {p q : Phrase α} {k : Token} {ks : List Token} {a : α}
    (h : Derives rules (p <|> q) (k :: ks) a)
    (hfirst : lookahead.has (lookahead.firstOf q) k.terminal = false) :
    Derives rules p (k :: ks) a := by
  obtain h | h := h.consists
  · exact h
  · have := (h.head decides_scriptGrammar).2 k rfl
    rw [hfirst] at this
    cases this

theorem consists_argList {ks : List Token} {args : List Exp}
    (h : Derives rules argList ks (.ok args)) :
    ∃ k ls k', ks = k :: (ls ++ [k']) ∧ Arguments ls args ∧ k'.terminal = .fixed ")" := by
  obtain ⟨k', ls, ls', rfl, hopen, hclose⟩ := Rule.consists_seqLeft h
  obtain ⟨k, ms, ms', rfl, hopen, hargs⟩ := Rule.consists_seqRight hopen
  obtain ⟨rfl, hk'⟩ := hclose.consists
  obtain ⟨rfl, -⟩ := hopen.consists
  exact ⟨k, ms', k', rfl, .of_derives hargs, hk'⟩

/-- What is encoded between parentheses are arguments, if nothing else is done with it. -/
theorem arguments_of_encode {k₁ k₂ : Token} {ks : List Token} {args : List Exp}
    (h₁ : k₁.terminal = .fixed "encode") (h₂ : k₂.terminal = .fixed "(")
    (h : Derives rules (rules .exp) (k₁ :: k₂ :: ks) (.ok (.call none args .encode))) :
    ∃ ls k, ks = ls ++ [k] ∧ Arguments ls args ∧ k.terminal = .fixed ")" := by
  obtain ⟨first, behind, ls, ls', hks, hfirst, hbehind, hcall⟩ := Rule.consists_map₂ h
  obtain ⟨rfl, rfl⟩ := nothing_behind hbehind hcall.symm
  rw [List.append_nil] at hks
  subst hks
  have hprimary : Derives rules keywordPrimary (k₁ :: k₂ :: ks) (.ok (.call none args .encode)) := by
    refine derives_left (derives_right hfirst.consists ?_) ?_
    · rw [h₁]
      decide +kernel
    · rw [h₁]
      decide +kernel
  have hencode := hprimary
  iterate 14 replace hencode := derives_right hencode (by rw [h₁]; decide +kernel)
  replace hencode := derives_left hencode (by rw [h₁]; decide +kernel)
  obtain ⟨k, ms, ms', hks, hkeyword, hrest⟩ := Rule.consists_seqRight hencode
  obtain ⟨rfl, -⟩ := hkeyword.consists
  obtain ⟨rfl, rfl⟩ := List.cons.inj hks
  obtain ⟨x, hx, hcall⟩ := (derives_left hrest (by rw [h₂]; decide +kernel)).consists
  obtain ⟨args', rfl, hcall⟩ := Attempt.bind_ok_iff.mp hcall.symm
  cases hcall
  obtain ⟨k', ls, k'', hks, hargs, hk''⟩ := consists_argList hx
  obtain ⟨rfl, rfl⟩ := List.cons.inj hks
  exact ⟨ls, k'', rfl, hargs, hk''⟩

theorem Arguments.respell {ks ls : List Token} {es : List Exp} (h : Arguments ks es)
    (hwords : ls.map Token.word = ks.map Token.word) : Arguments ls es := by
  obtain ⟨m, hm, hfollows⟩ := h.derives.parallel rules_respelled hwords
  obtain ⟨_, rfl, rfl⟩ := hfollows es rfl
  exact .of_derives hm

theorem derives_call {k : Token} {ks ls : List Token} {m : Method} {args : List Exp}
    (hk : k.terminal = .fixed "call") (hm : Derives rules method ks (.ok m))
    (hargs : Derives rules argList ls (.ok args)) :
    Derives rules (rules .exp) (k :: (ks ++ ls)) (.ok (.call (some m) args .send)) := by
  have htoken : Derives rules (.token k.terminal) [k] k := .token k
  rw [hk] at htoken
  have hprimary : Derives rules keywordPrimary (k :: (ks ++ ls))
      (.ok (.call (some m) args .send)) := by
    iterate 13 apply Derives.orRight
    exact .orLeft (.map Prod.snd (.seq htoken (.orRight (.app (.apply _ hm) hargs))))
  have hnothing : Derives rules behindOperand [] id := .app (.app (.apply _ .manyNil) .manyNil) .absent
  have : Derives rules (rules .exp) (k :: (ks ++ ls) ++ []) (.ok (.call (some m) args .send)) :=
    .app (.apply _ (.ref (.orRight (.orLeft hprimary)))) hnothing
  rwa [List.append_nil] at this

end Phrase

/-! ## Blanks -/

theorem not_isBlank {c : Char} (h : 33 ≤ c.toNat) (h' : c.toNat < 133) : Text.isBlank c = false := by
  rw [Bool.eq_false_iff]
  intro hblank
  simp only [Text.isBlank, Text.inRanges, Text.blankRanges, List.any_toArray, List.any_cons,
    List.any_nil, Bool.or_eq_true, Bool.and_eq_true, decide_eq_true_eq, Bool.or_false] at hblank
  omega

theorem not_isBlank_of_isNameChar {c : Char} (h : Candid.isNameChar c = true) : Text.isBlank c = false := by
  rw [Candid.isNameChar, Char.isAlphanum, Bool.or_eq_true, Bool.or_eq_true, decide_eq_true_eq] at h
  obtain (h | h) | rfl := h
  · change (decide (c.val ≥ 65 ∧ c.val ≤ 90) || c.val ≥ 97 && c.val ≤ 122) = true at h
    simp only [Bool.or_eq_true, Bool.and_eq_true, decide_eq_true_eq, ge_iff_le,
      UInt32.le_iff_toNat_le, UInt32.reduceToNat, Char.toNat_val] at h
    exact not_isBlank (by omega) (by omega)
  · rw [Char.isDigit_iff_toNat] at h
    exact not_isBlank (by simp at h; omega) (by simp at h; omega)
  · exact not_isBlank (by decide) (by decide)

theorem mark_not_isBlank : ∀ s ∈ scriptGrammar.lexicon.symbols ++ scriptGrammar.lexicon.assertOps,
    ∀ c ∈ s.toList, Text.isBlank c = false := by decide +kernel

theorem front?_of_isBlank {c : Char} (h : Text.isBlank c = true) (rest : List Char) :
    front? scriptGrammar.lexicon (c :: rest) = none := by
  have hplain : Candid.isNameChar c = false := by
    rw [Bool.eq_false_iff]
    intro hname
    rw [not_isBlank_of_isNameChar hname] at h
    cases h
  have hstart : ¬Candid.isNameStart c = true := fun hstart => by
    rw [isNameChar_of_isNameStart hstart] at hplain
    cases hplain
  have hdigit : ¬c.isDigit = true := fun hdigit => by
    simp [Candid.isNameChar, Char.isAlphanum, hdigit] at hplain
  have hquote : c ≠ '"' := by
    rintro rfl
    rw [not_isBlank (by decide) (by decide)] at h
    cases h
  have hmark {spellings : List String} (hall : ∀ s ∈ spellings,
      s ∈ scriptGrammar.lexicon.symbols ++ scriptGrammar.lexicon.assertOps) :
      longest? spellings (c :: rest) = none := by
    rw [Option.eq_none_iff_forall_ne_some]
    intro s hs
    obtain ⟨hmem, hprefix⟩ := longest?_eq_some hs
    obtain ⟨d, tail, hd⟩ := List.exists_cons_of_ne_nil (mark_spelling s (hall s hmem)).1
    have hblank := mark_not_isBlank s (hall s hmem) d (by rw [hd]; exact List.mem_cons_self)
    rw [hd, List.cons_prefix_cons] at hprefix
    rw [← hprefix.1, hblank] at h
    cases h
  rw [front?, if_neg hstart, if_neg hdigit, if_neg hquote,
    hmark fun s hs => List.mem_append_right _ hs, hmark fun s hs => List.mem_append_left _ hs]

theorem tokens_of_isBlank {cs : List Char} (h : ∀ c ∈ cs, Text.isBlank c = true) (at_ : Cursor) :
    (scanFrom scriptGrammar.lexicon at_ cs).tokens = [] := by
  induction cs generalizing at_ with
  | nil => rw [scanFrom]
  | cons c cs ih =>
    obtain ⟨hc, hcs⟩ := List.forall_mem_cons.mp h
    rw [scanFrom]
    split
    · exact ih hcs _
    · rw [front?_of_isBlank hc]

theorem isSpace_of_scanFrom {at_ : Cursor} {cs : List Char}
    (h : scanFrom scriptGrammar.lexicon at_ cs = ⟨[], .complete⟩) : ∀ c ∈ cs, isSpace c = true := by
  fun_induction scanFrom scriptGrammar.lexicon at_ cs with
  | case1 => exact List.forall_mem_nil _
  | case2 at_ c rest hc ih => exact List.forall_mem_cons.mpr ⟨hc, ih h⟩
  | case3 at_ c rest hc hfront =>
    rw [hfront] at h
    cases congrArg Tokens.ending h
  | case4 at_ c rest hc terminal n lexeme next hfront ih =>
    rw [hfront] at h
    cases congrArg Tokens.tokens h

theorem cuts_of_isSpace {cs : List Char} (h : ∀ c ∈ cs, isSpace c = true) : Cuts Any cs [] := by
  intro at_ rest hrest
  induction cs generalizing at_ with
  | nil => exact ⟨[], at_, rfl, rfl⟩
  | cons c cs ih =>
    obtain ⟨hc, hcs⟩ := List.forall_mem_cons.mp h
    rw [List.cons_append, scanFrom, if_pos hc]
    exact ih hcs (at_.step c)

/-! ## Texts of arguments -/

/-- Characters that are cut into the words of some arguments in front of what `ok` allows. -/
structure ArgumentText (ok : List Char → Prop) (cs : List Char) (ws : List Word) (args : List Exp) :
    Prop where
  cuts : Cuts ok cs ws
  read (ks : List Token) (h : ks.map Token.word = ws) : Phrase.Arguments ks args

namespace ArgumentText

variable {ok ok' : List Char → Prop} {cs ds : List Char} {ws xs : List Word} {args more : List Exp}

theorem of_itemized {texts : List String} (h : Itemized (Phrase.ref .exp) texts args) :
    ∃ ws, Written Apart (", ".intercalate texts).toList ws ∧
      ArgumentText Apart (", ".intercalate texts).toList ws args := by
  have hitems : Phrased Apart (", ".intercalate texts).toList (Phrase.rules .args) (· = .ok args) := by
    cases texts with
    | nil =>
      cases h
      exact phrased_noItems.anywhere
    | cons t texts =>
      exact phrased_intercalate ',' (by decide) (fun hm => .ref hm) h (List.cons_ne_nil _ _)
  obtain ⟨ws, hw, hread⟩ := hitems
  refine ⟨ws, hw, hw.cuts, fun ks hks => ?_⟩
  obtain ⟨_, hder, rfl⟩ := hread ks hks
  exact .of_derives (.ref hder)

theorem behindSpaces (h : ArgumentText ok cs ws args) {blanks : List Char}
    (hb : ∀ c ∈ blanks, isSpace c = true) : ArgumentText ok (blanks ++ cs) ws args :=
  ⟨(cuts_of_isSpace hb).append h.cuts fun _ _ => trivial, h.read⟩

/-- Arguments behind a comma go on with those in front of it. -/
theorem join (h : ArgumentText AtBreak cs ws args) (hne : args ≠ [])
    (hlast : ∀ w ∈ ws.getLast?, w.1 ≠ .fixed ",") (h' : ArgumentText ok ds xs more) :
    ArgumentText ok (cs ++ ',' :: ' ' :: ds) (ws ++ (.fixed ",", ",") :: xs) (args ++ more) where
  cuts := by
    have hcomma : Cuts Any [','] [(.fixed ",", ",")] := (WrittenIn.mark (by decide)).cuts
    have hblank : Cuts Any [' '] [] := cuts_of_isSpace (by decide)
    exact h.cuts.append (hcomma.append (hblank.append h'.cuts fun _ _ => trivial) fun _ _ => trivial)
      fun rest _ => atBreak_cons (by decide) _
  read ks hks := by
    obtain ⟨ls, ls', rfl, hls, hls'⟩ := List.map_eq_append_iff.mp hks
    obtain ⟨k, ms, rfl, hk, hms⟩ := List.map_eq_cons_iff.mp hls'
    refine (h.read ls hls).join hne (fun l hl => ?_) (congrArg Prod.fst hk) (h'.read ms hms)
    refine hlast l.word ?_
    rw [← hls, List.getLast?_map, Option.mem_def.mp hl]
    rfl

end ArgumentText

theorem written_keyword {s : String} (h : s ∈ scriptGrammar.lexicon.keywords) :
    Written Any (s.toList ++ [' ']) [(.fixed s, s)] := by
  have hblank : Written Any [' '] [] := .blank (by simp)
  exact (WrittenIn.keyword h).append hblank fun rest _ => apart_blank rest

theorem written_encode :
    Written Any "encode (".toList [(.fixed "encode", "encode"), (.fixed "(", "(")] := by
  have hkeyword : Written Any ("encode".toList ++ [' ']) _ := written_keyword (by decide)
  have hopen : Written Any ['('] [(.fixed "(", "(")] := .mark (by decide)
  exact hkeyword.append_any hopen

theorem written_callee {front : List Char} {ws : List Word}
    (h : Written (·.head? = some '(') front ws) :
    Written Any ("call ".toList ++ (front ++ ['(']))
      ((.fixed "call", "call") :: (ws ++ [(.fixed "(", "(")])) := by
  have hkeyword : Written Any ("call".toList ++ [' ']) _ := written_keyword (by decide)
  have hopen : Written Any ['('] [(.fixed "(", "(")] := .mark (by decide)
  exact hkeyword.append_any (h.append hopen fun _ _ => rfl)

/-- Characters that are cut into the words of some arguments and a parenthesis behind them. -/
def ClosedText (cs : List Char) (args : List Exp) : Prop :=
  ∃ (ws : List Word) (w : Word), Cuts AtBreak cs (ws ++ [w]) ∧ w.1 = .fixed ")" ∧
    ∀ ks : List Token, ks.map Token.word = ws → Phrase.Arguments ks args

theorem ArgumentText.closed {ok : List Char → Prop} {cs : List Char} {ws : List Word}
    {args : List Exp} (h : ArgumentText ok cs ws args) (hok : ∀ rest, ok (')' :: rest)) :
    ClosedText (cs ++ [')']) args := by
  have hclose : Cuts Any [')'] [(.fixed ")", ")")] := (WrittenIn.mark (by decide)).cuts
  exact ⟨ws, _, (h.cuts.append hclose fun rest _ => hok rest).allow fun _ _ => trivial, rfl, h.read⟩

namespace ClosedText

variable {cs : List Char} {args : List Exp}

/-- Arguments between parentheses behind a method are those of a call. -/
theorem parse (h : ClosedText cs args) {front : List Char} {m : Method}
    (hm : Phrased (·.head? = some '(') front Phrase.method (· = .ok m)) :
    scriptGrammar.parse .exp ("call ".toList ++ (front ++ ['(']) ++ cs)
      = .ok (.ok (.call (some m) args .send)) := by
  obtain ⟨ws, w, hcs, hclose, hread⟩ := h
  obtain ⟨wm, hwm, hmethod⟩ := hm
  obtain ⟨ks, hks, hscan⟩ :=
    ((written_callee hwm).cuts.append hcs fun _ _ => trivial).scan nofun
  rw [List.cons_append, List.append_assoc, List.singleton_append] at hks
  -- the keyword, the method, the parenthesis that opens, the arguments and the one that closes
  obtain ⟨k, ks, rfl, hk, hks⟩ := List.map_eq_cons_iff.mp hks
  obtain ⟨ms, ls, rfl, hms, hls⟩ := List.map_eq_append_iff.mp hks
  obtain ⟨k₁, ls, rfl, hk₁, hls⟩ := List.map_eq_cons_iff.mp hls
  obtain ⟨ls, ls', rfl, hargs, hls'⟩ := List.map_eq_append_iff.mp hls
  obtain ⟨k₂, rfl, rfl⟩ := List.map_eq_singleton_iff.mp hls'
  obtain ⟨_, hder, rfl⟩ := hmethod ms hms
  have token {s : String} {k : Token} (hk : k.terminal = .fixed s) :
      Derives Phrase.rules (lit s) [k] k := by
    have htoken : Derives Phrase.rules (.token k.terminal) [k] k := .token k
    rwa [hk] at htoken
  have hlist : Derives Phrase.rules Phrase.argList (k₁ :: (ls ++ [k₂])) (.ok args) :=
    .map Prod.fst (.seq (.map Prod.snd (.seq (token (congrArg Prod.fst hk₁))
      (hread ls hargs).derives)) (token hclose))
  exact Grammar.parse_of_derives Phrase.decides_scriptGrammar hscan
    (Phrase.derives_call (congrArg Prod.fst hk) hder hlist)

/-- What is encoded behind a parenthesis are arguments. -/
theorem of_encode (h : scriptGrammar.parse .exp ("encode (".toList ++ cs)
      = .ok (.ok (.call none args .encode))) : ClosedText cs args := by
  obtain ⟨ks, hks, hder⟩ := exists_of_parse h
  obtain ⟨front, at_, hwords, hscan⟩ := written_encode.cuts {} cs trivial
  obtain ⟨k₁, _, rfl, hk₁, hwords⟩ := List.map_eq_cons_iff.mp hwords
  obtain ⟨k₂, rfl, hk₂⟩ := List.map_eq_singleton_iff.mp hwords
  rw [scan, hscan] at hks
  have hcuts := cuts_of_complete (congrArg Tokens.ending hks)
  obtain rfl := congrArg Tokens.tokens hks
  obtain ⟨ls, k, (htokens : (scanFrom _ at_ cs).tokens = ls ++ [k]), hargs, hk⟩ :=
    Phrase.arguments_of_encode (congrArg Prod.fst hk₁) (congrArg Prod.fst hk₂) hder
  rw [htokens, List.map_append] at hcuts
  exact ⟨_, k.word, hcuts, hk, fun ks hks => hargs.respell hks⟩

/-- What is in front of the parenthesis that closes are the arguments. -/
theorem exists_scan (h : ClosedText (cs ++ [')']) args) :
    ∃ ks, scan scriptGrammar.lexicon cs = ⟨ks, .complete⟩ ∧
      ArgumentText AtBreak cs (ks.map Token.word) args := by
  obtain ⟨ws, w, hcuts, -, hread⟩ := h
  obtain ⟨ks, hks, hscan⟩ := hcuts.scan nofun
  have hcs := cuts_of_complete (complete_of_closed (congrArg Tokens.ending hscan))
  obtain ⟨ls, hls, hscan'⟩ := hcs.scan nofun
  -- the parenthesis behind the characters is the last of the words
  have hclose : Cuts Any [')'] [(.fixed ")", ")")] := (WrittenIn.mark (by decide)).cuts
  obtain ⟨ms, hms, hscan''⟩ :=
    (hcs.append hclose fun _ _ => atBreak_cons (by decide) _).scan trivial
  rw [hscan] at hscan''
  obtain rfl : ks = ms := congrArg Tokens.tokens hscan''
  rw [hks] at hms
  obtain ⟨hws, -⟩ := List.append_inj' hms rfl
  refine ⟨ls, hscan', hls ▸ hcs, fun ks hks => hread ks ?_⟩
  rw [hks, hls, hws]

end ClosedText

end CanisterShell.Syntax
