import CanisterShell.Proofs.Syntax.Deciding
import CanisterShell.Proofs.Syntax.Writing
import CanisterShell.Syntax.Parse

/-!
# Texts that are phrases

Characters are *phrased* by a rule if they are written as words of which every row of tokens is a
phrase of the rule, with a meaning of which something is known.  The operators of rules put phrases
together as they put texts together, and a text that is phrased as an expression or a type is read as
one (`PhrasedIn.parseExp`, `PhrasedIn.parseType`).
-/

namespace CanisterShell

namespace Source

theorem expandFrom_eq_ok {environ : Environ} {cs : List Char} (h : ∀ c ∈ cs, c ≠ '$') (pos : Nat) :
    expandFrom environ pos cs = .ok cs := by
  induction cs generalizing pos with
  | nil => rw [expandFrom]
  | cons c cs ih =>
    rw [expandFrom]
    · rw [ih fun d hd => h d (.tail _ hd)]
      rfl
    · rintro rfl
      exact absurd rfl (h _ (.head _))

end Source

namespace Syntax

open Rule (Derives lit)

variable {script : Bool}

theorem WrittenIn.blankShebang {ok : List Char → Prop} {cs : List Char} {ws : List Word}
    (h : WrittenIn script ok cs ws) (hok : ok []) : Source.blankShebang cs = cs := by
  rw [Source.blankShebang.eq_def]
  split
  case h_1 rest =>
    -- no token begins with a hash
    obtain ⟨ks, at', -, hscan⟩ := h.scanned {} hok
    have hhash : isSpace '#' = false := by decide
    have hnone : front? scriptGrammar.lexicon ('#' :: ('!' :: rest ++ [])) = none := rfl
    rw [List.cons_append, scanFrom.eq_2, hhash, hnone, scanFrom.eq_1] at hscan
    cases congrArg Tokens.ending hscan
  case h_2 => rfl

theorem WrittenIn.blankComments {ok : List Char → Prop} {cs : List Char} {ws : List Word}
    (h : WrittenIn script ok cs ws) : Source.blankComments cs = .ok cs := by
  rw [Source.blankComments, h.kept.blankFrom_eq]

theorem WrittenIn.prepare {ok : List Char → Prop} {cs : List Char} {ws : List Word}
    (h : Written ok cs ws) (hok : ok []) (environ : Source.Environ) :
    Source.prepare environ cs = .ok cs := by
  have hexpand : Source.expand environ cs = .ok cs := by
    rw [Source.expand, Source.expandFrom_eq_ok fun c hc => (h.plain rfl c hc).1]
  rw [Source.prepare, h.blankShebang hok, h.blankComments]
  exact hexpand

/-- Characters that are written as a phrase of a rule, whose meaning is in `Q`. -/
def PhrasedIn (script : Bool) (ok : List Char → Prop) (cs : List Char) {α : Type} (p : Phrase α)
    (Q : α → Prop) : Prop :=
  ∃ ws, WrittenIn script ok cs ws ∧
    ∀ ks : List Token, ks.map Token.word = ws → ∃ a, Derives Phrase.rules p ks a ∧ Q a

/-- Characters of a script that are a phrase of a rule. -/
abbrev Phrased (ok : List Char → Prop) (cs : List Char) {α : Type} (p : Phrase α) (Q : α → Prop) :
    Prop :=
  PhrasedIn true ok cs p Q

namespace PhrasedIn

variable {ok ok' : List Char → Prop} {cs ds : List Char} {α β : Type} {p : Phrase α}
  {q : Phrase β} {P : α → Prop} {Q : β → Prop}

theorem imp {P' : α → Prop} (h : PhrasedIn script ok cs p P) (hP : ∀ a, P a → P' a) :
    PhrasedIn script ok cs p P' := by
  obtain ⟨ws, hw, hd⟩ := h
  refine ⟨ws, hw, fun ks hks => ?_⟩
  obtain ⟨a, ha, hPa⟩ := hd ks hks
  exact ⟨a, ha, hP a hPa⟩

theorem allow (h : PhrasedIn script ok cs p P) (hok : ∀ rest, ok' rest → ok rest) :
    PhrasedIn script ok' cs p P := by
  obtain ⟨ws, hw, hd⟩ := h
  exact ⟨ws, hw.imp hok, hd⟩

theorem anywhere (h : PhrasedIn script Any cs p P) : PhrasedIn script ok cs p P :=
  h.allow fun _ _ => trivial

theorem rule {p' : Phrase β} (h : PhrasedIn script ok cs p P)
    (hp : ∀ ks a, Derives Phrase.rules p ks a → P a → ∃ b, Derives Phrase.rules p' ks b ∧ Q b) :
    PhrasedIn script ok cs p' Q := by
  obtain ⟨ws, hw, hd⟩ := h
  refine ⟨ws, hw, fun ks hks => ?_⟩
  obtain ⟨a, ha, hPa⟩ := hd ks hks
  exact hp ks a ha hPa

theorem token {terminal : Terminal} {s : String} (h : WrittenIn script ok cs [(terminal, s)]) :
    PhrasedIn script ok cs (.token terminal) (·.lexeme = s) := by
  refine ⟨_, h, fun ks hks => ?_⟩
  obtain ⟨k, rfl, hk⟩ := List.map_eq_singleton_iff.mp hks
  obtain ⟨rfl, rfl⟩ := Prod.mk.inj hk
  exact ⟨k, .token k, rfl⟩

theorem apply {f : α → β} (h : PhrasedIn script ok cs p P) (hf : ∀ a, P a → Q (f a)) :
    PhrasedIn script ok cs (f <$> p) Q :=
  h.rule fun _ a ha hPa => ⟨f a, .apply f ha, hf a hPa⟩

theorem seq (h : PhrasedIn script ok cs p P) (h' : PhrasedIn script ok' ds q Q)
    (hok : ∀ rest, ok' rest → ok (ds ++ rest)) :
    PhrasedIn script ok' (cs ++ ds) (.seq p q) fun x => P x.1 ∧ Q x.2 := by
  obtain ⟨ws, hw, hd⟩ := h
  obtain ⟨xs, hx, hd'⟩ := h'
  refine ⟨ws ++ xs, hw.append hx hok, fun ks hks => ?_⟩
  obtain ⟨ls, ls', rfl, hls, hls'⟩ := List.map_eq_append_iff.mp hks
  obtain ⟨a, ha, hPa⟩ := hd ls hls
  obtain ⟨b, hb, hQb⟩ := hd' ls' hls'
  exact ⟨(a, b), .seq ha hb, hPa, hQb⟩

theorem app {γ : Type} {R : γ → Prop} {p : Phrase (β → γ)} {P : (β → γ) → Prop}
    (h : PhrasedIn script ok cs p P) (h' : PhrasedIn script ok' ds q Q) (hok : ∀ rest, ok' rest → ok (ds ++ rest))
    (hR : ∀ f a, P f → Q a → R (f a)) : PhrasedIn script ok' (cs ++ ds) (p <*> q) R :=
  (h.seq h' hok).rule fun _ x hx hPQ =>
    ⟨x.1 x.2, .map (fun y : (β → γ) × β => y.1 y.2) hx, hR _ _ hPQ.1 hPQ.2⟩

theorem map₂ {γ : Type} {R : γ → Prop} {f : α → β → γ} (h : PhrasedIn script ok cs p P)
    (h' : PhrasedIn script ok' ds q Q) (hok : ∀ rest, ok' rest → ok (ds ++ rest))
    (hR : ∀ a b, P a → Q b → R (f a b)) : PhrasedIn script ok' (cs ++ ds) (f <$> p <*> q) R := by
  have hf : PhrasedIn script ok cs (f <$> p) fun g => ∃ a, P a ∧ g = f a := h.apply fun a ha => ⟨a, ha, rfl⟩
  refine hf.app h' hok ?_
  rintro _ b ⟨a, ha, rfl⟩ hb
  exact hR a b ha hb

theorem seqRight (h : PhrasedIn script ok cs p P) (h' : PhrasedIn script ok' ds q Q)
    (hok : ∀ rest, ok' rest → ok (ds ++ rest)) : PhrasedIn script ok' (cs ++ ds) (p *> q) Q :=
  (h.seq h' hok).rule fun _ x hx hPQ => ⟨x.2, .map Prod.snd hx, hPQ.2⟩

theorem seqLeft (h : PhrasedIn script ok cs p P) (h' : PhrasedIn script ok' ds q Q)
    (hok : ∀ rest, ok' rest → ok (ds ++ rest)) : PhrasedIn script ok' (cs ++ ds) (p <* q) P :=
  (h.seq h' hok).rule fun _ x hx hPQ => ⟨x.1, .map Prod.fst hx, hPQ.1⟩

theorem orLeft {p' : Phrase α} (h : PhrasedIn script ok cs p P) : PhrasedIn script ok cs (p <|> p') P :=
  h.rule fun _ a ha hPa => ⟨a, .orLeft ha, hPa⟩

theorem orRight {p' : Phrase α} (h : PhrasedIn script ok cs p P) : PhrasedIn script ok cs (p' <|> p) P :=
  h.rule fun _ a ha hPa => ⟨a, .orRight ha, hPa⟩

theorem ref {n : Nonterminal} {P : Meaning n → Prop} (h : PhrasedIn script ok cs (Phrase.rules n) P) :
    PhrasedIn script ok cs (Phrase.ref n) P :=
  h.rule fun _ a ha hPa => ⟨a, .ref ha, hPa⟩

/-- No tokens, which are a phrase of the rule. -/
theorem empty {a : α} (h : Derives Phrase.rules p [] a) : PhrasedIn script Any [] p (· = a) := by
  refine ⟨[], .nil, fun ks hks => ?_⟩
  rw [List.map_eq_nil_iff.mp hks]
  exact ⟨a, h, rfl⟩

theorem behindBlanks (h : PhrasedIn script ok cs p P) (blanks : List Char)
    (hb : ∀ c ∈ blanks, c = ' ' ∨ c = '\n') : PhrasedIn script ok (blanks ++ cs) p P := by
  obtain ⟨ws, hw, hd⟩ := h
  exact ⟨ws, (WrittenIn.blank hb).append_any hw, hd⟩

theorem beforeBlanks (h : PhrasedIn script ok cs p P) (blanks : List Char)
    (hb : ∀ c ∈ blanks, c = ' ' ∨ c = '\n') (hok : ∀ rest, ok (blanks ++ rest)) :
    PhrasedIn script Any (cs ++ blanks) p P := by
  obtain ⟨ws, hw, hd⟩ := h
  have := hw.append (WrittenIn.blank hb) fun rest _ => hok rest
  rw [List.append_nil] at this
  exact ⟨ws, this, hd⟩

/-! ## Words -/

theorem mark {c : Char} (hc : c ∈ ['(', ')', ':', ';', '\x7b', '\x7d', '.', ',']) :
    PhrasedIn script Any [c] (lit c.toString) fun _ => True :=
  (token (WrittenIn.mark hc)).imp fun _ _ => trivial

theorem keyword {s : String} (h : s ∈ scriptGrammar.lexicon.keywords) :
    PhrasedIn script Apart s.toList (lit s) fun _ => True :=
  (token (WrittenIn.keyword h)).imp fun _ _ => trivial

theorem behindKeyword {s : String} (hs : s ∈ scriptGrammar.lexicon.keywords)
    (h : PhrasedIn script ok cs p P) : PhrasedIn script ok (s.toList ++ ' ' :: cs) (lit s *> p) P :=
  (keyword hs).seqRight (h.behindBlanks [' '] (by simp)) fun _ _ => apart_blank _

theorem identifier {s : String} (h : Candid.isIdentifier s = true)
    (hk : scriptGrammar.lexicon.keywords.contains s = false) :
    PhrasedIn script AtNameEnd s.toList Phrase.nameTok (·.lexeme = s) := by
  have hword : WrittenIn script AtNameEnd s.toList [(nameTerminal s, s)] := .identifier h
  rw [nameTerminal, if_neg (by rw [hk]; decide)] at hword
  exact token hword

theorem name {s : String} (h : Candid.isIdentifier s = true)
    (hk : scriptGrammar.lexicon.keywords.contains s = false) :
    PhrasedIn script Apart s.toList Phrase.nameTok (·.lexeme = s) :=
  (identifier h hk).allow fun _ hrest c hc => (hrest c hc).1

/-! ## Reading -/

theorem written (h : PhrasedIn script ok cs p P) : ∃ ws, WrittenIn script ok cs ws := by
  obtain ⟨ws, hw, -⟩ := h
  exact ⟨ws, hw⟩

/-- What is phrased by the rule of a nonterminal is read as such. -/
theorem parse {n : Nonterminal} {P : Meaning n → Prop}
    (h : PhrasedIn script Apart cs (Phrase.rules n) P) :
    ∃ m, scriptGrammar.parse n cs = .ok m ∧ P m := by
  obtain ⟨ws, hw, hd⟩ := h
  have hend : Apart [] := nofun
  obtain ⟨ks, at', hks, hscan⟩ := hw.scanned {} hend
  obtain ⟨m, hm, hPm⟩ := hd ks hks
  rw [List.append_nil, scanFrom] at hscan
  refine ⟨m, Grammar.parse_of_derives Phrase.decides_scriptGrammar ?_ hm, hPm⟩
  rw [scan, hscan, List.append_nil]

theorem parseExp {source : String} {e : Exp}
    (h : Phrased Apart source.toList (Phrase.rules .exp) (· = .ok e)) (environ : Source.Environ) :
    Syntax.parseExp environ source = .ok e := by
  obtain ⟨ws, hw⟩ := h.written
  obtain ⟨_, hparse, rfl⟩ := h.parse
  have hend : Apart [] := nofun
  rw [Syntax.parseExp, hw.prepare hend]
  change build (scriptGrammar.parse .exp source.toList) = _
  rw [hparse]
  rfl

theorem parseType {source : String} {t : Candid.Ty}
    (h : PhrasedIn false Apart source.toList (Phrase.rules .datatype) (· = .ok t)) :
    Syntax.parseType source = .ok t := by
  obtain ⟨ws, hw⟩ := h.written
  obtain ⟨_, hparse, rfl⟩ := h.parse
  rw [Syntax.parseType, hw.blankComments]
  change build (scriptGrammar.parse .datatype source.toList) = _
  rw [hparse]
  rfl

end PhrasedIn

end Syntax

end CanisterShell
