import CanisterShell.Proofs.Shell.Piecewise
import CanisterShell.Proofs.Syntax.Building
import CanisterShell.Proofs.Syntax.Offending
import CanisterShell.Proofs.Syntax.Placing
import CanisterShell.Proofs.Text.Lines
import CanisterShell.Shell.Script
import Mathlib

/-!
# How scripts end

A script that runs comes to an outcome, whatever its commands fail with, and so does one whose text
is no script.  What is left is a script that is read but has no tree: it ends without an outcome, if
the tree is refused for a label that a type has twice or for an escape without digits
(`Shell.run_error_iff`).

A script that fails at a place fails at a command, or at what keeps it from being read, whose first
character the place is that of.  The lines that are shown mark the line of this character, as long as
all lines up to there end with line feeds (`Shell.run_context_exact`): places count line feeds, but the
lines that are shown are cut at all line ends.
-/

namespace CanisterShell

/-! ## Scripts without an outcome -/

namespace Syntax

/-- A script whose text is read, but whose tree fails with what no outcome shows. -/
inductive Unbuildable (environ : Source.Environ) (source : String) : Failure → Prop where
  | repeatedField {prepared : List Char} {label : Candid.Label}
      (hp : Source.prepare environ source.toList = .ok prepared)
      (ht : scriptGrammar.parse .commands prepared
        = .ok (.error (.eval (.repeatedTypeField label)))) :
      Unbuildable environ source (.eval (.repeatedTypeField label))
  | emptyEscape {prepared : List Char} {k : Token}
      (hp : Source.prepare environ source.toList = .ok prepared)
      (ht : scriptGrammar.parse .commands prepared = .ok (.error emptyEscape))
      (hk : k ∈ (scan scriptGrammar.lexicon prepared).tokens) (htext : k.terminal = .text)
      (he : Literal.unquoteBytes k.lexeme = .error emptyEscape) :
      Unbuildable environ source (.fault .insideLiteral)

theorem parseCommands_error {environ : Source.Environ} {source : String} {f : Failure}
    (h : parseCommands environ source = .error f) :
    (∃ e, f = .error (.parse e)) ∨ Unbuildable environ source f := by
  rw [parseCommands] at h
  cases hp : Source.prepare environ source.toList with
  | error e =>
    rw [hp] at h
    cases h
    exact .inl ⟨e, rfl⟩
  | ok prepared =>
    rw [hp] at h
    change build (scriptGrammar.parse .commands prepared) = .error f at h
    cases ht : scriptGrammar.parse .commands prepared with
    | error e =>
      rw [ht] at h
      cases h
      exact .inl ⟨e, rfl⟩
    | ok tree =>
      rw [ht] at h
      cases tree with
      | ok commands => cases h
      | error e =>
        cases parse_refuses ht e rfl with
        | parse e _ =>
          cases h
          exact .inl ⟨e, rfl⟩
        | repeatedField label =>
          cases h
          exact .inr (.repeatedField hp ht)
        | emptyEscape hk htext he =>
          cases h
          exact .inr (.emptyEscape hp ht hk htext he)

theorem Unbuildable.parseCommands {environ : Source.Environ} {source : String} {f : Failure}
    (h : Unbuildable environ source f) : parseCommands environ source = .error f := by
  cases h with
  | repeatedField hp ht =>
    rw [Syntax.parseCommands, hp]
    show build (scriptGrammar.parse .commands _) = _
    rw [ht]
    rfl
  | emptyEscape hp ht =>
    rw [Syntax.parseCommands, hp]
    show build (scriptGrammar.parse .commands _) = _
    rw [ht]
    rfl

/-- An escape in braces with an underscore and no digit. -/
example : parseCommands [] "\"\\u\x7b_\x7d\"" = .error (.fault .insideLiteral) := by cbv

end Syntax

namespace Shell

variable {σ : Type}

end Shell

/-! ## Numbers -/

namespace Text

theorem length_toString_le {m n : Nat} (h : m ≤ n) : (toString m).length ≤ (toString n).length := by
  rw [Nat.toString_eq_repr, Nat.toString_eq_repr, Nat.length_repr_le_iff Nat.length_repr_pos]
  exact Nat.lt_of_le_of_lt h ((Nat.length_repr_le_iff Nat.length_repr_pos).mp (Nat.le_refl _))

theorem not_mem_toString {c : Char} (hc : c.isDigit = false) (n : Nat) : c ∉ (toString n).toList := by
  intro hmem
  rw [Nat.toString_eq_repr, Nat.toList_repr] at hmem
  rw [Nat.isDigit_of_mem_toDigits (by decide) (by decide) hmem] at hc
  cases hc

end Text

/-! ## Lines around a place -/

namespace Excerpt

/-- A text of whose lines only one begins with a mark, with the characters `line` behind it, and has
another mark below a column of these. -/
inductive Marks (line : List Char) (column : Nat) (text : String) : Prop where
  | intro {above below : List (List Char)} {gutter under : List Char}
      (hlines : text.toList.splitOn '\n' = above ++ (gutter ++ line) :: (under ++ ['^']) :: below)
      (hmark : gutter.head? = some '>')
      (hothers : ∀ l ∈ above ++ (under ++ ['^']) :: below, l.head? ≠ some '>')
      (hcaret : '^' ∉ under) (hunder : under.length = gutter.length + (column - 1))

theorem Marks.line_eq {line line' : List Char} {column : Nat} {text : String}
    (h : Marks line column text) (h' : Marks line' column text) : line = line' := by
  obtain ⟨hlines, hmark, hothers, -, hunder⟩ := h
  obtain ⟨hlines', hmark', hothers', -, hunder'⟩ := h'
  -- the marked line is the first one with a mark in front, behind which there is no other
  have hdrop {above below : List (List Char)} {l : List Char} (hl : l.head? = some '>')
      (hothers : ∀ l ∈ above ++ below, l.head? ≠ some '>') :
      (above ++ l :: below).dropWhile (fun l => l.head? ≠ some '>') = l :: below := by
    rw [List.dropWhile_append_of_pos fun l hl => by simpa using hothers l (List.mem_append_left _ hl)]
    simp [hl]
  have hfront {gutter : List Char} (hmark : gutter.head? = some '>') (line : List Char) :
      (gutter ++ line).head? = some '>' := by
    rw [List.head?_append, hmark, Option.some_or]
  have hsame := (hdrop (hfront hmark line) hothers).symm
  rw [← hlines, hlines', hdrop (hfront hmark' line') hothers'] at hsame
  obtain ⟨hline, hrest⟩ := List.cons.inj hsame
  obtain ⟨rfl, -⟩ := List.append_inj' (List.cons.inj hrest).1 rfl
  exact (List.append_inj hline (by omega)).2

/-! ### What is shown of a line -/

theorem length_flushRight {width n : Nat} (h : (toString n).length ≤ width) :
    (flushRight width n).toList.length = width := by
  rw [flushRight, String.toList_ofList, List.length_append, List.length_replicate,
    String.length_toList, Nat.sub_add_cancel h]

theorem not_mem_flushRight {c : Char} (hc : c.isDigit = false) (hne : c ≠ ' ') (width n : Nat) :
    c ∉ (flushRight width n).toList := by
  simp only [flushRight, String.toList_ofList, List.mem_append, List.mem_replicate, not_or, not_and]
  exact ⟨fun _ => hne, Text.not_mem_toString hc n⟩

theorem not_mem_numbered {width n : Nat} {marked : Bool} {line : String} (h : '\n' ∉ line.toList) :
    '\n' ∉ (numbered width marked n line).toList := by
  have hnumber := not_mem_flushRight (c := '\n') (by decide) (by decide) width n
  cases marked <;> simp [numbered, hnumber, h]

/-- What is shown of a line, and below that of the place. -/
def shown (x : Excerpt) (width n : Nat) : List String :=
  let line := numbered width (n = x.line) n (x.lines.getD (n - 1) "")
  if n = x.line then [line, caret width x.column] else [line]

theorem toText_eq {x : Excerpt} (hpos : 0 < x.line) (hle : x.line ≤ x.lines.length) :
    ∃ (above below : List Nat) (width : Nat), (toString x.line).length ≤ width ∧ x.line ∉ above ++ below ∧
      x.toText = "\n".intercalate
        (above.flatMap (x.shown width) ++ x.shown width x.line ++ below.flatMap (x.shown width)) := by
  obtain ⟨first, hfirst⟩ : ∃ first, first = max 1 (x.line - radius) := ⟨_, rfl⟩
  obtain ⟨last, hlast⟩ : ∃ last, last = min x.lines.length (x.line + radius) := ⟨_, rfl⟩
  have hbelow : first ≤ x.line := by omega
  have habove : x.line ≤ last := by omega
  have hrange : List.range' first (last + 1 - first)
      = List.range' first (x.line - first) ++ (x.line :: List.range' (x.line + 1) (last - x.line)) := by
    rw [← List.range'_succ, show last + 1 - first = (x.line - first) + (last - x.line + 1) by omega,
      ← List.range'_append_1, show first + (x.line - first) = x.line by omega]
  refine ⟨List.range' first (x.line - first), List.range' (x.line + 1) (last - x.line),
    (toString last).length, Text.length_toString_le habove, ?_, ?_⟩
  · simp only [List.mem_append, List.mem_range'_1]
    omega
  · have hshown : ¬(x.line = 0 || x.lines.length < x.line) = true := by
      simp
      omega
    rw [toText, if_neg hshown]
    dsimp only
    rw [← hfirst, ← hlast, hrange, List.flatMap_append, List.flatMap_cons, List.append_assoc]
    rfl

theorem shown_other {x : Excerpt} {width n : Nat} (hn : n ≠ x.line) {l : String}
    (hl : l ∈ x.shown width n) (hlines : ∀ l ∈ x.lines, '\n' ∉ l.toList) :
    l.toList.head? = some ' ' ∧ '\n' ∉ l.toList := by
  rw [shown] at hl
  simp only [hn, decide_false, if_false, List.mem_singleton] at hl
  subst hl
  have hline : '\n' ∉ (x.lines.getD (n - 1) "").toList := by
    rw [List.getD_eq_getElem?_getD]
    cases hget : x.lines[n - 1]? with
    | none => simp
    | some l => exact hlines l (List.mem_of_getElem? hget)
  exact ⟨by simp [numbered], not_mem_numbered hline⟩

theorem exists_shown {x : Excerpt} {width : Nat} {line : String}
    (hline : x.lines[x.line - 1]? = some line) (hwidth : (toString x.line).length ≤ width) :
    ∃ gutter under, x.shown width x.line
        = [String.ofList ('>' :: gutter ++ line.toList), String.ofList (' ' :: under ++ ['^'])] ∧
      '^' ∉ under ∧ under.length = gutter.length + (x.column - 1) ∧ '\n' ∉ gutter ∧ '\n' ∉ under := by
  let gutter := ' ' :: (flushRight width x.line).toList ++ [' ', '|', ' ']
  let under := ' ' :: List.replicate width ' ' ++ [' ', '|', ' '] ++ List.replicate (x.column - 1) ' '
  have hnumbered : numbered width true x.line line = String.ofList ('>' :: gutter ++ line.toList) := by
    rw [← String.toList_inj]
    simp [numbered, gutter]
  have hcaret : caret width x.column = String.ofList (' ' :: under ++ ['^']) := by
    rw [← String.toList_inj]
    simp [caret, under, Nat.add_comm 2, List.replicate_succ]
  have hnumber := not_mem_flushRight (c := '\n') (by decide) (by decide) width x.line
  refine ⟨gutter, under, ?_, by simp [under], ?_, by simp [gutter, hnumber], by simp [under]⟩
  · rw [shown, List.getD_eq_getElem?_getD, hline, ← hnumbered, ← hcaret]
    simp
  · have hlength := length_flushRight hwidth
    simp only [gutter, under, List.length_cons, List.length_append, List.length_replicate,
      List.length_nil]
    omega

theorem marks {x : Excerpt} {line : String} (hpos : 0 < x.line)
    (hline : x.lines[x.line - 1]? = some line) (hlines : ∀ l ∈ x.lines, '\n' ∉ l.toList) :
    Marks line.toList x.column x.toText := by
  have hlength : x.line ≤ x.lines.length := by
    have := (List.getElem?_eq_some_iff.mp hline).1
    omega
  obtain ⟨above, below, width, hwidth, hother, htext⟩ := toText_eq hpos hlength
  obtain ⟨gutter, under, hown, hcaret, hunder, hgutter, hblank⟩ := exists_shown hline hwidth
  have hshown {ns : List Nat} (hns : x.line ∉ ns) {l : String} (hl : l ∈ ns.flatMap (x.shown width)) :
      l.toList.head? = some ' ' ∧ '\n' ∉ l.toList := by
    obtain ⟨n, hn, hl⟩ := List.mem_flatMap.mp hl
    exact shown_other (fun h => hns (h ▸ hn)) hl hlines
  rw [List.mem_append, not_or] at hother
  have hfeed := hlines line (List.mem_of_getElem? hline)
  have hsplit : x.toText.toList.splitOn '\n' = (above.flatMap (x.shown width)).map String.toList
      ++ ('>' :: gutter ++ line.toList) :: (' ' :: under ++ ['^'])
        :: (below.flatMap (x.shown width)).map String.toList := by
    rw [htext, hown, String.toList_intercalate]
    refine (List.splitOn_intercalate '\n' (fun l hl => ?_) (by simp)).trans (by simp)
    obtain ⟨l, hmem, rfl⟩ := List.mem_map.mp hl
    simp only [List.mem_append, List.mem_cons, List.not_mem_nil, or_false, or_assoc] at hmem
    obtain hl | rfl | rfl | hl := hmem
    · exact (hshown hother.1 hl).2
    · simp [hgutter, hfeed]
    · simp [hblank]
    · exact (hshown hother.2 hl).2
  refine .intro hsplit rfl (fun l hl => ?_) (by simp [hcaret]) ?_
  · simp only [List.mem_append, List.mem_cons, List.mem_map] at hl
    obtain ⟨l, hl, rfl⟩ | rfl | ⟨l, hl, rfl⟩ := hl
    · simp [(hshown hother.1 hl).1]
    · simp
    · simp [(hshown hother.2 hl).1]
  · rw [List.length_cons, List.length_cons, hunder, Nat.add_right_comm]

end Excerpt

/-! ## Failures and their places -/

open Candid Syntax

namespace Shell

variable {σ : Type} {S : Setting σ}

theorem exists_failing {commands : List Command} {last : Option Value} {state state' : Env × Session σ}
    {span : Text.Span} {f : Failure}
    (h : (runAll S commands last).run state = (.error (span, f), state')) :
    ∃ before c after value? mid, commands = before ++ c :: after ∧
      (runAll S before last).run state = (.ok value?, mid) ∧
      (execute S c).run.run mid = (.error f, state') ∧ c.span = span := by
  induction commands generalizing last state with
  | nil => cases h
  | cons c rest ih =>
    match hr : (execute S c).run.run state with
    | (.ok v?, after) =>
      rw [runAll_cons hr] at h
      obtain ⟨before, d, behind, value?, mid, rfl, hbefore, hfails, hspan⟩ := ih h
      exact ⟨c :: before, d, behind, value?, mid, rfl, (runAll_cons hr).trans hbefore, hfails, hspan⟩
    | (.error f', after) =>
      rw [runAll_failing hr] at h
      cases h
      exact ⟨[], c, rest, last, state, rfl, rfl, hr, rfl⟩

/-- What a script fails at, by the offset of its first character, and that. -/
inductive FailsAt (S : Setting σ) (source : String) (sh : Shell σ) : (offset : Nat) → Char → Prop where
  | reading {offset : Nat} {c : Char} (h : Offends S.environ source.toList offset c) :
      FailsAt S source sh offset c
  | command {prepared : List Char} {before after : List Command} {command : Command}
      {value? : Option Value} {state state' : Env × Session σ} {f : Failure} {c : Char}
      (hprepared : Source.prepare S.environ source.toList = .ok prepared)
      (hread : readCommands prepared = .ok (before ++ command :: after))
      (hbefore : (runAll S before none).run (sh.env, sh.cleared.session)
        = (.ok value?, state))
      (hfails : (execute S command).run.run state = (.error f, state'))
      (hc : prepared[command.span.start]? = some c) : FailsAt S source sh command.span.start c

/-- The lines that are shown around a place of a source. -/
def context (source : String) (place : Nat × Nat) : String :=
  Excerpt.toText ⟨Text.lines source, place.1, place.2⟩

/-- A message with a place and the lines around it. -/
def Tells (source message : String) (place : Nat × Nat) : Prop :=
  ∃ heading, message = heading ++ "(line " ++ toString place.1 ++ ", col " ++ toString place.2 ++ ")\n"
    ++ context source place

variable {source message : String} {place : Nat × Nat} {sh : Shell σ}

theorem failsAt_of_stopped {commands : List Command} {span : Text.Span} {f : Failure}
    {state : Env × Session σ} (hplain : '$' ∉ source.toList)
    (hparse : parseCommands S.environ source = .ok commands)
    (hrun : (runAll S commands none).run (sh.env, sh.cleared.session)
      = (.error (span, f), state)) :
    ∃ c, FailsAt S source sh span.start c ∧ isSpace c = false ∧ span.Starts source.toList c := by
  obtain ⟨prepared, hprepared, hread⟩ := parseCommands_ok_iff.mp hparse
  obtain ⟨before, command, after, value?, mid, rfl, hbefore, hfails, rfl⟩ := exists_failing hrun
  have hspans := (spans_of_readCommands hread).2 command (by simp)
  obtain ⟨k, hk, hstart⟩ := hspans.starts
  obtain ⟨c, -, hspace, hstarts⟩ := starts_of_mem_scan hk
  have hchar : prepared[command.span.start]? = some c := hstart ▸ hstarts.char
  have hcommand : command.span.Starts prepared c := ⟨hchar, by rw [hspans.placed]; rfl⟩
  refine ⟨c, .command hprepared hread hbefore hfails hchar, hspace, ?_⟩
  refine (Source.LeftOf.prepare hplain hprepared).starts hcommand ?_
  rintro rfl
  cases hspace

/-- A script that fails at a place, which is not its end, fails at something that starts there, and the
message shows the lines around the place. -/
theorem exists_failsAt (hplain : '$' ∉ source.toList)
    (hrun : (run S source sh).1 = .ok (.failure message (some place)))
    (hend : ∀ e, parseCommands S.environ source = .error (.error (.parse e)) → e.cause ≠ .unexpectedEnd) :
    Tells source message place ∧ ∃ offset c, FailsAt S source sh offset c ∧ isSpace c = false ∧
      source.toList[offset]? = some c ∧ place = Text.placeOf source.toList offset := by
  rw [run] at hrun
  dsimp only at hrun
  split at hrun
  case h_1 e hparse =>
    have houtcome := Except.ok.inj hrun
    rw [fail_fst, unreadable] at houtcome
    split at houtcome
    case h_1 => cases houtcome
    case h_2 span hspan =>
      cases houtcome
      obtain ⟨c, hoffends, hspace, hstarts⟩ := offends_of_parseCommands hplain hparse hspan (hend e hparse)
      exact ⟨⟨"ParseError: " ++ e.message ++ " ", by simp [context, excerpt, placeOf, String.append_assoc]⟩,
        span.start, c, .reading hoffends, hspace, hstarts.char, hstarts.place⟩
  case h_2 => cases hrun
  case h_3 commands hparse =>
    have houtcome := Except.ok.inj hrun
    rw [runCommands] at houtcome
    cases hr : (runAll S commands none).run (sh.env, sh.cleared.session) with
    | mk r state =>
      rw [cleared] at hr
      dsimp only at houtcome
      rw [hr] at houtcome
      cases r with
      | ok v? => cases houtcome
      | error failure =>
        obtain ⟨span, f⟩ := failure
        rw [fail_fst] at houtcome
        cases houtcome
        obtain ⟨c, hfails, hspace, hstarts⟩ := failsAt_of_stopped hplain hparse hr
        exact ⟨⟨f.describe ++ "\n", by simp [context, excerpt, placeOf, String.append_assoc]⟩,
          span.start, c, hfails, hspace, hstarts.char, hstarts.place⟩

/-- Of a script that fails at a place which is not its end, the lines around the place mark the line that
holds the first character of what it fails at, and the column of this, if all lines up to there end with
line feeds, perhaps behind carriage returns. -/
theorem run_context_exact (hplain : '$' ∉ source.toList)
    (hrun : (run S source sh).1 = .ok (.failure message (some place)))
    (hend : ∀ e, parseCommands S.environ source = .error (.error (.parse e)) → e.cause ≠ .unexpectedEnd) :
    Tells source message place ∧ ∃ offset c, FailsAt S source sh offset c ∧
      source.toList[offset]? = some c ∧ place = Text.placeOf source.toList offset ∧
      (Text.EndsInFeeds (source.toList.take (Text.lineEnd source.toList offset))
          (source.toList.drop (Text.lineEnd source.toList offset)) →
        Excerpt.Marks (Text.withoutReturn (Text.lineAt source.toList offset)) place.2
            (context source place) ∧
          (Text.withoutReturn (Text.lineAt source.toList offset))[place.2 - 1]? = some c) := by
  obtain ⟨htells, offset, c, hfails, hspace, hchar, rfl⟩ := exists_failsAt hplain hrun hend
  have hne {d : Char} (hd : isSpace d = true) : c ≠ d := by
    rintro rfl
    rw [hd] at hspace
    cases hspace
  refine ⟨htells, offset, c, hfails, hchar, rfl, fun hfeeds => ?_⟩
  obtain ⟨hline, hcolumn⟩ := Text.lines_of_place hchar (hne (by decide)) hfeeds
  have hmarks := Excerpt.marks (x := ⟨Text.lines source, _, (Text.placeOf source.toList offset).2⟩)
    (Nat.succ_pos _) hline fun _ => Text.not_mem_lines
  rw [String.toList_ofList] at hmarks
  exact ⟨hmarks, Text.getElem?_withoutReturn hcolumn (hne (by decide))⟩

/-- A variable that does not exist, on the second line. -/
theorem run_context_exact_secondLine : ∃ message,
    (run bareSetting "let a = null;\n  b" (bareShell ⟨[], []⟩)).1
        = .ok (.failure message (some (2, 3))) ∧
      Tells "let a = null;\n  b" message (2, 3) ∧
      Excerpt.Marks "  b".toList 3 (context "let a = null;\n  b" (2, 3)) := by
  let c : Command := .mk ⟨0, 12, 1, 1⟩ (.bind "a" (.literal .null))
  let c' : Command := .mk ⟨16, 17, 2, 3⟩ (.evaluate (.path "b" []))
  let start := bareShell ⟨[], []⟩
  have hparse : parseCommands [] "let a = null;\n  b" = .ok [c, c'] := by cbv
  have hbind : Gives (execute bareSetting c) (start.env, start.session) (some .null)
      (start.env.bind "a" .null, start.session) := rfl
  have hfails : (execute bareSetting c').run.run (start.env.bind "a" .null, start.session)
      = (.error (.error (.undefinedVariable "b")), (start.env.bind "a" .null, start.session)) := rfl
  have hrun : (run bareSetting "let a = null;\n  b" start).1
      = .ok (stopped "let a = null;\n  b" ⟨16, 17, 2, 3⟩ (.error (.undefinedVariable "b"))) :=
    run_of_failure hparse ((runAll_cons hbind).trans (runAll_failing hfails))
  obtain ⟨htells, offset, ch, -, hchar, hplace, hmarks⟩ := run_context_exact (by decide) hrun
    (by
      intro e he
      rw [show bareSetting.environ = [] from rfl, hparse] at he
      cases he)
  have hlt := (List.getElem?_eq_some_iff.mp hchar).1
  obtain rfl : offset = 16 := by
    have hall : ∀ n < 17, placeOf ⟨16, 17, 2, 3⟩ = Text.placeOf "let a = null;\n  b".toList n → n = 16 := by
      decide
    exact hall offset hlt hplace
  have hfeeds : Text.EndsInFeeds "let a = null;\n  b".toList [] := .of_forall (by decide)
  exact ⟨_, hrun, htells, (hmarks (hfeeds.take _)).1⟩

/-- A separator of lines in a text, which places do not count, in front of a variable that does not exist:
what is marked is the rest of the text's line. -/
theorem run_context_separator_fails : ∃ message,
    (run bareSetting "let a = \"\u2028\";\nx" (bareShell ⟨[], []⟩)).1
        = .ok (.failure message (some (2, 1))) ∧
      Tells "let a = \"\u2028\";\nx" message (2, 1) ∧
      FailsAt bareSetting "let a = \"\u2028\";\nx" (bareShell ⟨[], []⟩) 13 'x' ∧
      Text.lineAt "let a = \"\u2028\";\nx".toList 13 = ['x'] ∧
      Excerpt.Marks ['"', ';'] 1 (context "let a = \"\u2028\";\nx" (2, 1)) ∧
      ¬Excerpt.Marks ['x'] 1 (context "let a = \"\u2028\";\nx" (2, 1)) := by
  let c : Command := .mk ⟨0, 11, 1, 1⟩ (.bind "a" (.literal (.text "\u2028")))
  let c' : Command := .mk ⟨13, 14, 2, 1⟩ (.evaluate (.path "x" []))
  let start := bareShell ⟨[], []⟩
  have hparse : parseCommands [] "let a = \"\u2028\";\nx" = .ok [c, c'] := by cbv
  have hbind : Gives (execute bareSetting c) (start.env, start.session) (some (.text "\u2028"))
      (start.env.bind "a" (.text "\u2028"), start.session) := rfl
  have hfails : (execute bareSetting c').run.run
        (start.env.bind "a" (.text "\u2028"), start.session)
      = (.error (.error (.undefinedVariable "x")),
        (start.env.bind "a" (.text "\u2028"), start.session)) := rfl
  have hall : (runAll bareSetting [c, c'] none).run (start.env, start.cleared.session)
      = (.error (⟨13, 14, 2, 1⟩, .error (.undefinedVariable "x")),
        (start.env.bind "a" (.text "\u2028"), start.session)) :=
    (runAll_cons hbind).trans (runAll_failing hfails)
  have hrun : (run bareSetting "let a = \"\u2028\";\nx" start).1
      = .ok (stopped "let a = \"\u2028\";\nx" ⟨13, 14, 2, 1⟩ (.error (.undefinedVariable "x"))) :=
    run_of_failure hparse hall
  obtain ⟨htells, -⟩ := exists_failsAt (by decide) hrun (by
    intro e he
    rw [show bareSetting.environ = [] from rfl, hparse] at he
    cases he)
  obtain ⟨ch, hat, -, hstarts⟩ := failsAt_of_stopped (by decide) hparse hall
  obtain rfl : 'x' = ch := Option.some.inj hstarts.char
  have hline : (Text.lines "let a = \"\u2028\";\nx")[1]? = some "\";" := by decide
  have hmarks : Excerpt.Marks ['"', ';'] 1 (context "let a = \"\u2028\";\nx" (2, 1)) :=
    Excerpt.marks (x := ⟨Text.lines "let a = \"\u2028\";\nx", 2, 1⟩) (by decide) hline
      fun _ => Text.not_mem_lines
  refine ⟨_, hrun, htells, hat, by decide, hmarks, fun h => ?_⟩
  cases hmarks.line_eq h

end Shell

end CanisterShell
