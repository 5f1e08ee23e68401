import CanisterShell.Proofs.Syntax.Respelling
import CanisterShell.Proofs.Syntax.Scanning
import CanisterShell.Proofs.Syntax.Written
import CanisterShell.Syntax.Parse

/-!
# Scripts that are joined

Two scripts are joined by a semicolon on a line of its own.  What is read of the joined script are
the commands of the one and then those of the other, but for their places (`parseCommands_joined`).
-/

namespace CanisterShell.Syntax

open Rule (Derives Consists lit)

/-! ## Commands between semicolons -/

namespace Phrase

/-- Tokens that are commands between semicolons, and the attempts to build them. -/
inductive Listed : List Token → Attempt (List Command) → Prop where
  | nil : Listed [] (.ok [])
  | skip {k : Token} {ks : List Token} {m : Attempt (List Command)} (hk : k.terminal = .fixed ";")
      (h : Listed ks m) : Listed (k :: ks) m
  | last {ks : List Token} {c : Attempt Command} (hc : Derives rules (ref .command) ks c) :
      Listed ks (do return (← c) :: (← .ok []))
  | more {k : Token} {ks ls : List Token} {c : Attempt Command} {m : Attempt (List Command)}
      (hc : Derives rules (ref .command) ks c) (hk : k.terminal = .fixed ";") (h : Listed ls m) :
      Listed (ks ++ k :: ls) (do return (← c) :: (← m))

theorem consists_marked {mark : String} {n : Nonterminal} {ks : List Token} {m : Meaning n}
    (h : Derives rules (lit mark *> ref n) ks m) :
    ∃ k ls, ks = k :: ls ∧ k.terminal = .fixed mark ∧ Derives rules (ref n) ls m := by
  obtain ⟨x, hx, rfl⟩ := h.consists
  obtain ⟨ls, ls', rfl, hmark, hrest⟩ := hx.consists
  obtain ⟨rfl, hk⟩ := hmark.consists
  exact ⟨x.1, ls', rfl, hk, hrest⟩

namespace Listed

theorem of_derives {ks : List Token} {m : Attempt (List Command)}
    (h : Derives rules (ref .commands) ks m) : Listed ks m := by
  -- every semicolon takes a token from what is behind it
  induction hn : ks.length using Nat.strong_induction_on generalizing ks m with
  | _ n ih =>
    obtain hskip | hrest := h.consists.consists
    · obtain ⟨k, ls, rfl, hk, hls⟩ := consists_marked hskip
      exact .skip hk (ih ls.length (by rw [← hn]; exact Nat.lt_succ_self _) hls rfl)
    obtain hcommand | hnothing := hrest.consists
    · obtain ⟨⟨_, m⟩, hx, rfl⟩ := hcommand.consists
      obtain ⟨ls, ls', rfl, hhead, htail⟩ := hx.consists
      obtain ⟨c, hc, rfl⟩ := hhead.consists
      obtain hmore | hnothing := htail.consists
      · obtain ⟨k, ms, rfl, hk, hms⟩ := consists_marked hmore
        refine .more hc hk (ih ms.length ?_ hms rfl)
        rw [← hn, List.length_append, List.length_cons]
        omega
      · obtain ⟨rfl, rfl⟩ := hnothing.consists
        rw [List.append_nil]
        exact .last hc
    · obtain ⟨rfl, rfl⟩ := hnothing.consists
      exact .nil

theorem derives {ks : List Token} {m : Attempt (List Command)} (h : Listed ks m) :
    Derives rules (ref .commands) ks m := by
  have marked {k : Token} {ks : List Token} {m : Attempt (List Command)}
      (hk : k.terminal = .fixed ";") (h : Derives rules (ref .commands) ks m) :
      Derives rules (lit ";" *> ref .commands) (k :: ks) m := by
    have htoken : Derives rules (.token k.terminal) [k] k := .token k
    rw [hk] at htoken
    exact .map Prod.snd (.seq htoken h)
  have command {ks ls : List Token} {c : Attempt Command} {m : Attempt (List Command)}
      (hc : Derives rules (ref .command) ks c)
      (h : Derives rules ((lit ";" *> ref .commands) <|> pure (.ok [])) ls m) :
      Derives rules (ref .commands) (ks ++ ls) (do return (← c) :: (← m)) :=
    .ref (.orRight (.orLeft (.app (.apply (fun c rest => do return (← c) :: (← rest)) hc) h)))
  induction h with
  | nil => exact .ref (.orRight (.orRight (.pure _)))
  | skip hk _ ih => exact .ref (.orLeft (marked hk ih))
  | @last ks c hc =>
    have := command hc (.orRight (.pure (Except.ok [])))
    rwa [List.append_nil] at this
  | more hc hk _ ih => exact command hc (.orLeft (marked hk ih))

/-- Commands in front of a semicolon and other commands are listed with these. -/
theorem join {ks ls : List Token} {m m' : Attempt (List Command)} (h : Listed ks m) {k : Token}
    (hk : k.terminal = .fixed ";") (h' : Listed ls m') :
    Listed (ks ++ k :: ls) (do return (← m) ++ (← m')) := by
  have hassoc (c : Attempt Command) (m : Attempt (List Command)) :
      (do return (← (do return (← c) :: (← m))) ++ (← m') : Attempt (List Command))
        = do return (← c) :: (← (do return (← m) ++ (← m'))) := by
    cases c <;> cases m <;> cases m' <;> rfl
  have hnil : (do return (← Except.ok []) ++ (← m') : Attempt (List Command)) = m' := by
    cases m' <;> rfl
  induction h with
  | nil =>
    rw [hnil]
    exact .skip hk h'
  | skip hk' _ ih => exact .skip hk' ih
  | last hc =>
    rw [hassoc, hnil]
    exact .more hc hk h'
  | more hc hk' _ ih =>
    rw [hassoc, List.append_assoc]
    exact .more hc hk' ih

end Listed

end Phrase

/-! ## Joined scripts -/

/-- Two scripts, with a semicolon on a line between them. -/
def joined (source source' : String) : String := source ++ "\n;\n" ++ source'

theorem exists_of_parse {n : Nonterminal} {source : List Char} {m : Meaning n}
    (h : scriptGrammar.parse n source = .ok m) :
    ∃ ks, scan scriptGrammar.lexicon source = ⟨ks, .complete⟩ ∧
      Derives Phrase.rules (Phrase.rules n) ks m := by
  have hending : (scan scriptGrammar.lexicon source).ending = .complete := by
    rw [Grammar.parse_eq, Grammar.parseTokens] at h
    split at h
    case h_1 => cases h
    case h_2 =>
      split at h
      case h_1 hending => exact hending
      case h_2 => cases h
  have htokens : scan scriptGrammar.lexicon source
      = ⟨(scan scriptGrammar.lexicon source).tokens, .complete⟩ := by rw [← hending]
  refine ⟨_, htokens, ?_⟩
  have hparse := h
  rw [Grammar.parse_eq, htokens] at hparse
  obtain ⟨m', hm'⟩ := (Grammar.parseTokens_ok_iff (Phrase.sharp rfl rfl)).mp ⟨m, hparse⟩
  -- the tokens have no other meaning
  have hm : scriptGrammar.parse n source = .ok m' :=
    Grammar.parse_of_derives Phrase.decides_scriptGrammar htokens hm'.consists
  rw [h] at hm
  cases hm
  exact hm'.consists

/-- A source whose tokens are of the words of a phrase is read as the phrase means, but for places. -/
theorem parse_respelled {n : Nonterminal} {source : List Char} {ks ls : List Token}
    {m : Meaning n} (h : Derives Phrase.rules (Phrase.ref n) ks m)
    (hscan : scan scriptGrammar.lexicon source = ⟨ls, .complete⟩)
    (hwords : ls.map Token.word = ks.map Token.word) :
    ∃ m', scriptGrammar.parse n source = .ok m' ∧ Respelled n m m' := by
  obtain ⟨m', hm', halike⟩ := h.parallel Phrase.rules_respelled hwords
  exact ⟨m', Grammar.parse_of_derives Phrase.decides_scriptGrammar hscan hm'.consists, halike⟩

theorem build_ok_iff {α : Type} {phrase : Except ParseError (Attempt α)} {a : α} :
    build phrase = .ok a ↔ phrase = .ok (.ok a) := by
  cases phrase with
  | error e => exact ⟨nofun, nofun⟩
  | ok m =>
    cases m with
    | ok a => exact ⟨fun h => by cases h; rfl, fun h => by cases h; rfl⟩
    | error f => cases f <;> exact ⟨nofun, nofun⟩

theorem readCommands_ok_iff {prepared : List Char} {commands : List Command} :
    readCommands prepared = .ok commands ↔
      scriptGrammar.parse .commands prepared = .ok (.ok commands) := build_ok_iff

theorem cuts_joined {source source' blanks blanks' : List Char} {ws ws' : List Word}
    (hblanks : ∀ c ∈ blanks, c = ' ') (hblanks' : ∀ c ∈ blanks', c = ' ')
    (h : Cuts AtBreak source ws) (h' : Cuts AtBreak source' ws') :
    Cuts AtBreak (blanks ++ (source ++ '\n' :: (blanks' ++ ([';'] ++ '\n' :: source'))))
      (ws ++ (.fixed ";", ";") :: ws') := by
  have hline {cs : List Char} (hcs : ∀ c ∈ cs, c = ' ') : Cuts Any ('\n' :: cs) [] :=
    (WrittenIn.blank (List.forall_mem_cons.mpr ⟨.inr rfl, fun c hc => .inl (hcs c hc)⟩)).cuts
  have hbreak : Cuts Any ['\n'] [] := hline (List.forall_mem_nil _)
  have hsecond := hbreak.append h' fun _ _ => trivial
  have hmark : Cuts Any [';'] [(.fixed ";", ";")] := (WrittenIn.mark (by decide)).cuts
  have hbetween := (hline hblanks').append (hmark.append hsecond fun _ _ => trivial)
    fun _ _ => trivial
  have hfirst := h.append hbetween fun rest _ => atBreak_cons (by decide) _
  have hblanks : Cuts Any blanks [] := (WrittenIn.blank fun c hc => .inl (hblanks c hc)).cuts
  exact hblanks.append hfirst fun _ _ => trivial

/-- Prepared sources with a semicolon on a line between them are read as the commands of the one and
those of the other, but for their places. -/
theorem readCommands_joined {source source' blanks blanks' : List Char}
    {commands commands' : List Command} (hblanks : ∀ c ∈ blanks, c = ' ')
    (hblanks' : ∀ c ∈ blanks', c = ' ') (h : readCommands source = .ok commands)
    (h' : readCommands source' = .ok commands') :
    ∃ all, readCommands (blanks ++ (source ++ '\n' :: (blanks' ++ ([';'] ++ '\n' :: source'))))
        = .ok all ∧ List.Forall₂ Command.Alike (commands ++ commands') all := by
  rw [readCommands_ok_iff] at h h'
  obtain ⟨ks, hks, hder⟩ := exists_of_parse h
  obtain ⟨ks', hks', hder'⟩ := exists_of_parse h'
  have hcuts := cuts_joined hblanks hblanks' (.of_scan hks) (.of_scan hks')
  obtain ⟨ls, hls, hscan⟩ := hcuts.scan nofun
  -- the tokens of the two sources with any semicolon between them
  let mark : Token := ⟨.fixed ";", ";", default⟩
  have hjoined : Derives Phrase.rules (Phrase.ref .commands) (ks ++ mark :: ks')
      (.ok (commands ++ commands')) :=
    ((Phrase.Listed.of_derives hder.ref).join rfl (.of_derives hder'.ref)).derives
  have hwords : ls.map Token.word = (ks ++ mark :: ks').map Token.word := by
    rw [hls, List.map_append, List.map_cons]
    rfl
  obtain ⟨m, hm, hfollows⟩ := parse_respelled hjoined hscan hwords
  obtain ⟨all, rfl, hall⟩ := hfollows _ rfl
  exact ⟨all, readCommands_ok_iff.mpr hm, hall⟩

theorem endsInText_of_readCommands {prepared : List Char} {commands : List Command}
    (h : readCommands prepared = .ok commands) : Source.endsInText false prepared = false := by
  obtain ⟨ks, hks, -⟩ := exists_of_parse (readCommands_ok_iff.mp h)
  exact endsInText_of_complete (congrArg Tokens.ending hks)

theorem prepared_ok_iff {α : Type} {environ : Source.Environ} {source : List Char}
    {read : List Char → Attempt α} {a : α} :
    (do read (← lift (Source.prepare environ source))) = .ok a ↔
      ∃ prepared, Source.prepare environ source = .ok prepared ∧ read prepared = .ok a := by
  rw [Attempt.bind_ok_iff]
  cases Source.prepare environ source with
  | error e =>
    constructor
    · rintro ⟨_, h, _⟩
      cases h
    · rintro ⟨_, h, _⟩
      cases h
  | ok prepared =>
    constructor
    · rintro ⟨_, ⟨⟩, h⟩
      exact ⟨prepared, rfl, h⟩
    · rintro ⟨_, ⟨⟩, h⟩
      exact ⟨prepared, rfl, h⟩

theorem parseCommands_ok_iff {environ : Source.Environ} {source : String}
    {commands : List Command} : parseCommands environ source = .ok commands ↔
      ∃ prepared, Source.prepare environ source.toList = .ok prepared ∧
        readCommands prepared = .ok commands := prepared_ok_iff

theorem parseExp_ok_iff {environ : Source.Environ} {source : String} {e : Exp} :
    parseExp environ source = .ok e ↔
      ∃ prepared, Source.prepare environ source.toList = .ok prepared ∧
        scriptGrammar.parse .exp prepared = .ok (.ok e) := by
  rw [parseExp, prepared_ok_iff]
  simp only [build_ok_iff]

/-- A joined script is read as the commands of the one script and those of the other, but for their
places. -/
theorem parseCommands_joined {environ : Source.Environ} {source source' : String}
    {commands commands' : List Command} (hplain : '$' ∉ source.toList)
    (hplain' : '$' ∉ source'.toList) (hshebang : ¬['#', '!'] <+: source'.toList)
    (h : parseCommands environ source = .ok commands)
    (h' : parseCommands environ source' = .ok commands') :
    ∃ all, parseCommands environ (joined source source') = .ok all ∧
      List.Forall₂ Command.Alike (commands ++ commands') all := by
  obtain ⟨prepared, hprepared, hread⟩ := parseCommands_ok_iff.mp h
  obtain ⟨prepared', hprepared', hread'⟩ := parseCommands_ok_iff.mp h'
  have hmark : Source.prepare environ [';'] = .ok [';'] :=
    (Source.prepare_ok_iff (by decide)).mpr rfl
  obtain ⟨blanks', hblanks', hsecond⟩ :=
    Source.prepare_line (by decide) hplain' hshebang hmark rfl hprepared'
  have hdollar : '$' ∉ [';'] ++ '\n' :: source'.toList := by simpa using hplain'
  have hfirst : ¬['#', '!'] <+: [';'] ++ '\n' :: source'.toList := fun h => by
    obtain ⟨rest, hrest⟩ := h
    cases hrest
  obtain ⟨blanks, hblanks, hboth⟩ := Source.prepare_line hplain hdollar hfirst hprepared
    (endsInText_of_readCommands hread) hsecond
  have hlist : (joined source source').toList
      = source.toList ++ '\n' :: ([';'] ++ '\n' :: source'.toList) := by
    simp [joined]
  obtain ⟨all, hall, halike⟩ := readCommands_joined hblanks hblanks' hread hread'
  exact ⟨all, parseCommands_ok_iff.mpr ⟨_, hlist ▸ hboth, hall⟩, halike⟩

end CanisterShell.Syntax
