import CanisterShell.Proofs.Syntax.Building
import CanisterShell.Proofs.Syntax.Comments
import CanisterShell.Proofs.Syntax.Joining
import CanisterShell.Proofs.Syntax.Placing

/-!
# What keeps a text from being a script

A script that is refused at a place is refused for what begins there: a comment that is never closed, a
character that begins no token, a token that does not go on with a script, or a token of which the tree
cannot be made (`offends_of_parseCommands`).  The place is one of the prepared source, which has its
characters where the script has them (`Source.LeftOf`).
-/

namespace CanisterShell

/-! ## Places -/

namespace Text

/-- A span that starts at a character of a text and has the place of that. -/
structure Span.Starts (source : List Char) (span : Span) (c : Char) : Prop where
  char : source[span.start]? = some c
  place : (span.line, span.column) = placeOf source span.start

theorem starts_spanOf (before : List Char) (c : Char) (behind : List Char) (stop : Nat) :
    (spanOf (before ++ c :: behind) before.length stop).Starts (before ++ c :: behind) c where
  char := by simp [spanOf]
  place := rfl

end Text

namespace Source

theorem Leaving.trans {c d e : Char} (h : Leaving c d) (h' : Leaving d e) : Leaving c e := by
  obtain rfl | ⟨hc, rfl⟩ := h
  · exact h'
  · obtain rfl | ⟨-, rfl⟩ := h'
    · exact .inr ⟨hc, rfl⟩
    · exact .inr ⟨hc, rfl⟩

/-- What is left of a text, up to some place: its characters leave something in their places. -/
inductive LeftOf : (source left : List Char) → Prop where
  | nil (source : List Char) : LeftOf source []
  | cons {c d : Char} {source left : List Char} (h : Leaving c d) (t : LeftOf source left) :
      LeftOf (c :: source) (d :: left)

namespace LeftOf

variable {source left left' : List Char}

theorem of_forall₂ (h : List.Forall₂ Leaving source left) : LeftOf source left := by
  induction h with
  | nil => exact .nil []
  | cons h _ ih => exact .cons h ih

theorem trans (h : LeftOf source left) (h' : LeftOf left left') : LeftOf source left' := by
  induction h generalizing left' with
  | nil source =>
    cases h'
    exact .nil source
  | cons h _ ih =>
    cases h' with
    | nil => exact .nil _
    | cons h' t => exact .cons (h.trans h') (ih t)

theorem blankShebang (source : List Char) : LeftOf source (blankShebang source) := by
  by_cases h : ['#', '!'] <+: source
  case neg =>
    rw [blankShebang_of_plain h]
    exact .of_forall₂ (List.forall₂_same.mpr fun _ _ => .inl rfl)
  case pos =>
    rw [blankShebang_of_marked h]
    split
    case isTrue => exact .nil source
    case isFalse =>
      have hline : List.Forall₂ Leaving (source.takeWhile (· ≠ '\n'))
          (List.replicate (source.takeWhile (· ≠ '\n')).length ' ') := by
        rw [← List.map_const', List.forall₂_map_right_iff, List.forall₂_same]
        intro c hc
        have := List.all_eq_true.mp List.all_takeWhile c hc
        exact .inr ⟨by simpa using this, rfl⟩
      have hrest : List.Forall₂ Leaving (source.dropWhile (· ≠ '\n')) (source.dropWhile (· ≠ '\n')) :=
        List.forall₂_same.mpr fun _ _ => .inl rfl
      have hall := List.rel_append hline hrest
      dsimp only at hall
      rw [List.takeWhile_append_dropWhile] at hall
      exact .of_forall₂ hall

theorem blankComments {blanked : List Char} (h : blankComments source = .ok blanked) :
    LeftOf source blanked := by
  obtain ⟨segments, behind, rfl, hcut, rfl | ⟨rest, rfl, hrest⟩⟩ := segmented source
  · rw [List.append_nil, blankComments_of_cut hcut] at h
    cases h
    rw [List.append_nil]
    exact .of_forall₂ (leaving_of_segments segments)
  · rw [blankComments_of_unclosed hcut hrest] at h
    cases h

theorem prepare {environ : Environ} {prepared : List Char} (hplain : '$' ∉ source)
    (h : prepare environ source = .ok prepared) : LeftOf source prepared := by
  rw [prepare_of_plain environ hplain] at h
  exact (blankShebang source).trans (blankComments h)

theorem char (h : LeftOf source left) {i : Nat} {c : Char} (hc : left[i]? = some c) (hne : c ≠ ' ') :
    source[i]? = some c := by
  induction h generalizing i with
  | nil source => simp at hc
  | @cons c' d source left h _ ih =>
    cases i with
    | zero =>
      obtain rfl : d = c := by simpa using hc
      obtain rfl | ⟨-, rfl⟩ := h
      · rfl
      · exact absurd rfl hne
    | succ i => exact ih hc

theorem advance (h : LeftOf source left) {n : Nat} (hn : n ≤ left.length) (at_ : Syntax.Cursor) :
    at_.advance (left.take n) = at_.advance (source.take n) := by
  induction h generalizing n at_ with
  | nil source =>
    obtain rfl := Nat.le_zero.mp hn
    rfl
  | @cons c d source left h _ ih =>
    cases n with
    | zero => rfl
    | succ n =>
      have hstep : at_.step d = at_.step c := by
        obtain rfl | ⟨hc, rfl⟩ := h
        · rfl
        · rw [Syntax.Cursor.step, Syntax.Cursor.step, if_neg hc]
          rfl
      change (at_.step d).advance (left.take n) = (at_.step c).advance (source.take n)
      rw [hstep, ih (Nat.le_of_succ_le_succ hn)]

theorem length_le (h : LeftOf source left) : left.length ≤ source.length := by
  induction h with
  | nil source => exact Nat.zero_le _
  | cons _ _ ih => exact Nat.succ_le_succ ih

theorem placeOf (h : LeftOf source left) {n : Nat} (hn : n ≤ left.length) :
    Text.placeOf source n = Text.placeOf left n := by
  have hadvance := h.advance hn {}
  rw [Syntax.Cursor.advance_eq, Syntax.Cursor.advance_eq] at hadvance
  obtain ⟨-, hline, hcolumn⟩ := Syntax.Cursor.mk.inj hadvance
  have hlength := h.length_le
  rw [Text.placeOf, Text.placeOf, Nat.sub_eq_zero_of_le hn, Nat.sub_eq_zero_of_le (hn.trans hlength)]
  exact Prod.ext hline.symm hcolumn.symm

theorem starts (h : LeftOf source left) {span : Text.Span} {c : Char} (hs : span.Starts left c)
    (hne : c ≠ ' ') : span.Starts source c where
  char := h.char hs.char hne
  place := hs.place.trans (h.placeOf (Nat.le_of_lt (List.getElem?_eq_some_iff.mp hs.char).1)).symm

end LeftOf

end Source

namespace Syntax

open Source (Cut Unclosed charsOf)

/-! ## Tokens -/

theorem starts_spanOf {before : List Char} {c : Char} (cs behind : List Char) :
    ((Cursor.advance {} before).spanOf (c :: cs)).Starts (before ++ (c :: cs ++ behind)) c := by
  rw [Cursor.spanOf_eq before (c :: cs) behind]
  exact Text.starts_spanOf before c (cs ++ behind) _

theorem Laid.starts {at_ : Cursor} {cs rest : List Char} {ks : List Token} (h : Laid at_ cs rest ks)
    {k : Token} (hk : k ∈ ks) : ∃ before c token behind, cs = before ++ (c :: token ++ behind) ∧
      isSpace c = false ∧ k.lexeme.toList.head? = some c ∧
      k.span = (at_.advance before).spanOf (c :: token) := by
  induction h with
  | nil => cases hk
  | @space at_ c cs rest ks hc _ ih =>
    obtain ⟨before, d, token, behind, rfl, hd, hhead, hspan⟩ := ih hk
    exact ⟨c :: before, d, token, behind, rfl, hd, hhead, hspan⟩
  | @token at_ c cs ds rest terminal ks hc _ _ ih =>
    obtain rfl | hk := List.mem_cons.mp hk
    · exact ⟨[], c, cs, ds, rfl, hc, by simp, rfl⟩
    · obtain ⟨before, d, token, behind, rfl, hd, hhead, hspan⟩ := ih hk
      refine ⟨c :: cs ++ before, d, token, behind, by rw [List.append_assoc], hd, hhead, ?_⟩
      rw [hspan, Cursor.advance_append]

section

variable {source : List Char}

theorem starts_of_mem_scan {k : Token} (hk : k ∈ (scan scriptGrammar.lexicon source).tokens) :
    ∃ c, k.lexeme.toList.head? = some c ∧ isSpace c = false ∧ k.span.Starts source c := by
  obtain ⟨used, rest, hsource, hlaid, -⟩ := Laid.of_scanFrom {} source
  obtain ⟨before, c, token, behind, rfl, hc, hhead, hspan⟩ := hlaid.starts hk
  refine ⟨c, hhead, hc, ?_⟩
  rw [hspan, hsource, List.append_assoc, List.append_assoc]
  exact starts_spanOf token (behind ++ rest)

theorem starts_of_stray {c : Char} {span : Text.Span}
    (h : (scan scriptGrammar.lexicon source).ending = .stray c span) :
    isSpace c = false ∧ span.Starts source c := by
  obtain ⟨used, rest, rfl, -, hend⟩ := Laid.of_scanFrom {} source
  rw [← scan, h] at hend
  obtain ⟨tail, rfl, hc, -, rfl⟩ := hend
  exact ⟨hc, starts_spanOf [] tail⟩

end

/-! ## Scripts -/

/-- What keeps a text from being a script, by the offset of its first character, and that. -/
inductive Offends (environ : Source.Environ) (source : List Char) : (offset : Nat) → Char → Prop where
  | comment {segments : List Source.Segment} {rest : List Char}
      (hsource : Source.blankShebang source = charsOf segments ++ '/' :: '*' :: rest)
      (hcut : Cut ('/' :: '*' :: rest) segments) (hopen : Unclosed rest) :
      Offends environ source (charsOf segments).length '/'
  | character {prepared : List Char} {ks : List Token} {c : Char} {span : Text.Span}
      (hprepared : Source.prepare environ source = .ok prepared)
      (hscan : scan scriptGrammar.lexicon prepared = ⟨ks, .stray c span⟩)
      (hbegins : Rule.Begins Phrase.rules (Phrase.ref .commands) ks) : Offends environ source span.start c
  | token {prepared : List Char} {ks rest : List Token} {k : Token} {ending : Ending} {c : Char}
      (hprepared : Source.prepare environ source = .ok prepared)
      (hscan : scan scriptGrammar.lexicon prepared = ⟨ks ++ k :: rest, ending⟩)
      (hbegins : Rule.Begins Phrase.rules (Phrase.ref .commands) ks)
      (hvain : ¬Rule.Begins Phrase.rules (Phrase.ref .commands) (ks ++ [k]))
      (hc : k.lexeme.toList.head? = some c) : Offends environ source k.span.start c
  | refused {prepared : List Char} {k : Token} {e : ParseError} {c : Char}
      (hprepared : Source.prepare environ source = .ok prepared)
      (htree : scriptGrammar.parse .commands prepared = .ok (.error (.error (.parse e))))
      (hk : k ∈ (scan scriptGrammar.lexicon prepared).tokens) (hspan : e.span = some k.span)
      (hblames : Blames e.cause k) (hc : k.lexeme.toList.head? = some c) :
      Offends environ source k.span.start c

section

variable {environ : Source.Environ} {source : List Char} {span : Text.Span} {e : ParseError}

theorem offends_of_prepare (hplain : '$' ∉ source) (h : Source.prepare environ source = .error e)
    (hspan : e.span = some span) : Offends environ source span.start '/' ∧ span.Starts source '/' := by
  rw [Source.prepare_of_plain environ hplain] at h
  obtain ⟨segments, behind, hsource, hcut, rfl | ⟨rest, rfl, hopen⟩⟩ :=
    Source.segmented (Source.blankShebang source)
  · rw [hsource, List.append_nil, Source.blankComments_of_cut hcut] at h
    cases h
  · rw [hsource, Source.blankComments_of_unclosed hcut hopen] at h
    cases h
    cases hspan
    refine ⟨.comment hsource hcut hopen, ?_⟩
    have hstarts := Text.starts_spanOf (charsOf segments) '/' ('*' :: rest) (charsOf segments).length
    rw [← hsource] at hstarts ⊢
    exact (Source.LeftOf.blankShebang source).starts hstarts (by decide)

theorem offends_of_parse {prepared : List Char} (hprepared : Source.prepare environ source = .ok prepared)
    (h : scriptGrammar.parse .commands prepared = .error e) (hspan : e.span = some span)
    (hend : e.cause ≠ .unexpectedEnd) :
    ∃ c, Offends environ source span.start c ∧ isSpace c = false ∧ span.Starts prepared c := by
  rw [Grammar.parse_eq] at h
  have herror := Grammar.parseTokens_error h
  obtain ⟨ks, htokens, hbegins, -, hvain⟩ := Grammar.reading_spec (Phrase.sharp rfl rfl)
    Nonterminal.commands (scan scriptGrammar.lexicon prepared).tokens
  generalize (scriptGrammar.reading .commands
    (scan scriptGrammar.lexicon prepared).tokens).place = at_ at htokens hvain herror
  generalize hscan : scan scriptGrammar.lexicon prepared = cut at htokens herror
  obtain ⟨tokens, ending⟩ := cut
  obtain ⟨rest, last?, asked⟩ := at_
  obtain rfl : tokens = ks ++ rest := htokens
  cases rest with
  | cons k rest =>
    subst herror
    cases hspan
    have hk : k ∈ (scan scriptGrammar.lexicon prepared).tokens := by
      rw [hscan]
      exact List.mem_append_right _ (.head rest)
    obtain ⟨c, hc, hspace, hstarts⟩ := starts_of_mem_scan hk
    exact ⟨c, .token hprepared hscan hbegins (hvain k rfl) hc, hspace, hstarts⟩
  | nil =>
    cases ending with
    | complete =>
      subst herror
      exact absurd rfl hend
    | stray c span' =>
      subst herror
      cases hspan
      rw [List.append_nil] at hscan
      obtain ⟨hspace, hstarts⟩ := starts_of_stray (congrArg Tokens.ending hscan)
      exact ⟨c, .character hprepared hscan hbegins, hspace, hstarts⟩

/-- A script that is refused at a place is refused for what begins there, unless the place is its end. -/
theorem offends_of_parseCommands {source : String} (hplain : '$' ∉ source.toList)
    (h : parseCommands environ source = .error (.error (.parse e))) (hspan : e.span = some span)
    (hend : e.cause ≠ .unexpectedEnd) :
    ∃ c, Offends environ source.toList span.start c ∧ isSpace c = false ∧
      span.Starts source.toList c := by
  rw [parseCommands] at h
  cases hprepared : Source.prepare environ source.toList with
  | error e' =>
    rw [hprepared] at h
    cases h
    obtain ⟨hoffends, hstarts⟩ := offends_of_prepare hplain hprepared hspan
    exact ⟨'/', hoffends, by decide, hstarts⟩
  | ok prepared =>
    rw [hprepared] at h
    change build (scriptGrammar.parse .commands prepared) = _ at h
    suffices hfound : ∃ c, Offends environ source.toList span.start c ∧ isSpace c = false ∧
        span.Starts prepared c by
      obtain ⟨c, hoffends, hspace, hstarts⟩ := hfound
      refine ⟨c, hoffends, hspace, (Source.LeftOf.prepare hplain hprepared).starts hstarts ?_⟩
      rintro rfl
      cases hspace
    cases htree : scriptGrammar.parse .commands prepared with
    | error e' =>
      rw [htree] at h
      cases h
      exact offends_of_parse hprepared htree hspan hend
    | ok tree =>
      rw [htree] at h
      cases tree with
      | ok commands => cases h
      | error f =>
        cases parse_refuses htree f rfl with
        | parse e' hplaced =>
          cases h
          obtain ⟨k, hk, rfl, hblames⟩ := hplaced span hspan
          obtain ⟨c, hc, hspace, hstarts⟩ := starts_of_mem_scan hk
          exact ⟨c, .refused hprepared htree hk hspan hblames hc, hspace, hstarts⟩
        | repeatedField label => cases h
        | emptyEscape => cases h

end

end Syntax

end CanisterShell
