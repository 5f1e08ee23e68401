import CanisterShell.Proofs.Random.Printable
import CanisterShell.Proofs.Shell.Relaying
import CanisterShell.Proofs.Shell.Restoring
import CanisterShell.Proofs.Syntax.Arguments
import CanisterShell.Shell.Hint
import Mathlib

/-!
# Completed calls

A line that begins a call and the hint for it are a call together (`parseExp_hint`): the arguments of
the line stay in front, and as many are added as the method lacks.  The hint counts the arguments by
reading them as those of an encoding, between parentheses of its own; that the line reads them the same
in front of what is added holds because neither reader looks at anything else (`parseExp_call`).

Two things that the hint does not look at can stand at the end of the line: a comma, behind which it
puts another one (`parseExp_hint_comma_fails`), and a comment, into which it writes (`GoesOn`).
-/

namespace CanisterShell

open Candid
open Syntax (Exp Method Phrased AtNameEnd Apart ClosedText ArgumentText name_spec parseExp not_isBlank
  not_isBlank_of_isNameChar)
open Source (Kept blankFrom)

/-! ## Lines that begin a call -/

/-- How a canister is written in a call: as a name, or as a text that quoting leaves as it is. -/
inductive CanisterText (canister : String) : List Char → Prop
  | name (h : IsPlainName canister) : CanisterText canister canister.toList
  | quoted (h : ∀ c ∈ canister.toList, quoteChar c = [c]) (hplain : '$' ∉ canister.toList) :
    CanisterText canister ('"' :: canister.toList ++ ['"'])

/-- A method of a canister, and behind a parenthesis what is given of its arguments. -/
def calledText (canister : List Char) (method : String) (given? : Option String) : List Char :=
  canister ++ '.' :: method.toList ++ (given?.elim [] fun given => '(' :: given.toList)

def callLine (canister : List Char) (method : String) (given? : Option String) : String :=
  "call " ++ String.ofList (calledText canister method given?)

variable {canister method : String} {cs : List Char} {given? : Option String}

theorem leadingName_append {name : String} (h : isIdentifier name = true) {rest : List Char}
    (hrest : AtNameEnd rest) : Source.leadingName (name.toList ++ rest) = name.toList := by
  obtain ⟨c, tail, hname, hc, hall⟩ := name_spec h
  have hcons : name.toList ++ rest = c :: (tail ++ rest) := by rw [hname, List.cons_append]
  rw [hcons, Source.leadingName, if_pos hc, ← hcons]
  exact Syntax.takeWhile_append_of_head hall hrest

theorem name?_append {name : String} (h : isIdentifier name = true) {rest : List Char}
    (hrest : AtNameEnd rest) : PartialCall.name? (name.toList ++ rest) = some (name, rest) := by
  obtain ⟨c, tail, hname, -⟩ := name_spec h
  have hne : ¬name.toList.isEmpty = true := by
    rw [hname]
    exact nofun
  rw [PartialCall.name?, leadingName_append h hrest, if_neg hne, String.ofList_toList, List.drop_left]

theorem trimLeft_cons {c : Char} (h : Text.isBlank c = false) (rest : List Char) :
    Text.trimLeft (c :: rest) = c :: rest := by
  rw [Text.trimLeft, List.dropWhile_cons_of_neg (by rw [h]; decide)]

theorem blanks?_blank {c : Char} (h : Text.isBlank c = false) (rest : List Char) :
    PartialCall.blanks? (' ' :: c :: rest) = some (c :: rest) := by
  have hblank : Text.isBlank ' ' = true := by decide +kernel
  have := trimLeft_cons h rest
  rw [Text.trimLeft] at this
  rw [PartialCall.blanks?, if_pos hblank, Text.trimLeft, List.dropWhile_cons_of_pos hblank, this]

theorem blanks?_of_not_isBlank {c : Char} (h : Text.isBlank c = false) (rest : List Char) :
    PartialCall.blanks? (c :: rest) = none := by
  rw [PartialCall.blanks?, if_neg (by rw [h]; decide)]

namespace CanisterText

theorem canister?_append (h : CanisterText canister cs) (rest : List Char) :
    PartialCall.canister? (cs ++ '.' :: rest) = some (canister, '.' :: rest) := by
  cases h with
  | name h =>
    have hend : AtNameEnd ('.' :: rest) := fun c hc => by
      cases hc
      decide
    obtain ⟨c, tail, hname, hc, -⟩ := name_spec h.1
    have hquote : c ≠ '"' := (Syntax.ne_of_isNameChar (Syntax.isNameChar_of_isNameStart hc)).1
    rw [← name?_append h.1 hend, hname, List.cons_append, PartialCall.canister?]
    exact fun _ h => hquote (List.cons.inj h).1
  | quoted h =>
    have hquote : ∀ c ∈ canister.toList, decide (c ≠ '"') = true := by
      intro c hc
      rw [decide_eq_true_eq]
      rintro rfl
      exact absurd (h _ hc) (by decide)
    have hinner : (canister.toList ++ '"' :: '.' :: rest).takeWhile (· ≠ '"') = canister.toList :=
      Syntax.takeWhile_append_of_head hquote fun c hc => by
        cases hc
        decide
    rw [List.cons_append, List.cons_append, List.append_assoc, List.singleton_append,
      PartialCall.canister?, hinner]
    simp

theorem exists_head (h : CanisterText canister cs) :
    ∃ c rest, cs = c :: rest ∧ Text.isBlank c = false := by
  cases h with
  | name h =>
    obtain ⟨c, rest, hname, hc, -⟩ := name_spec h.1
    exact ⟨c, rest, hname, not_isBlank_of_isNameChar (Syntax.isNameChar_of_isNameStart hc)⟩
  | quoted => exact ⟨_, _, rfl, not_isBlank (by decide) (by decide)⟩

theorem blanks?_append (h : CanisterText canister cs) (rest : List Char) :
    PartialCall.blanks? (' ' :: (cs ++ rest)) = some (cs ++ rest) := by
  obtain ⟨c, tail, rfl, hc⟩ := h.exists_head
  exact blanks?_blank hc (tail ++ rest)

theorem blanks?_of_behind? (h : CanisterText canister cs) {rest ds : List Char}
    (hds : PartialCall.behind? "as" (cs ++ '.' :: rest) = some ds) : PartialCall.blanks? ds = none := by
  rw [PartialCall.behind?] at hds
  split at hds
  case isFalse => cases hds
  case isTrue hprefix =>
    cases hds
    have hdot : Text.isBlank '.' = false := not_isBlank (by decide) (by decide)
    cases h with
    | quoted => cases hprefix
    | name h =>
      obtain ⟨c, tail, hname, -, hall⟩ := name_spec h.1
      rw [hname] at hprefix hall ⊢
      match tail with
      | [] => simp at hprefix
      | [d] => exact blanks?_of_not_isBlank hdot rest
      | d :: e :: tail =>
        have he := not_isBlank_of_isNameChar (hall e (by simp))
        exact blanks?_of_not_isBlank he (tail ++ '.' :: rest)

theorem skipWallet_eq (h : CanisterText canister cs) (rest : List Char) :
    PartialCall.skipWallet (' ' :: (cs ++ '.' :: rest)) = ' ' :: (cs ++ '.' :: rest) := by
  rw [PartialCall.skipWallet, h.blanks?_append]
  cases hbehind : PartialCall.behind? "as" (cs ++ '.' :: rest) with
  | none => simp [hbehind]
  | some ds => simp [hbehind, h.blanks?_of_behind? hbehind]

end CanisterText

theorem given??_line (h : ∀ given ∈ given?, '\n' ∉ given.toList) :
    PartialCall.given?? (given?.elim [] fun given => '(' :: given.toList) = some given? := by
  cases given? with
  | none => rfl
  | some given =>
    have hopen (rest : List Char) : PartialCall.given?? ('(' :: rest) =
        if PartialCall.isEnd (rest.drop (rest.takeWhile (· ≠ '\n')).length) then
          some (some (String.ofList (rest.takeWhile (· ≠ '\n')))) else none := by
      rw [PartialCall.given??, trimLeft_cons (not_isBlank (by decide) (by decide))]
      rfl
    have hgiven : given.toList.takeWhile (· ≠ '\n') = given.toList := by
      rw [List.takeWhile_eq_self_iff]
      intro c hc
      rw [decide_eq_true_eq]
      rintro rfl
      exact h given rfl hc
    rw [Option.elim_some, hopen, hgiven, List.drop_length, String.ofList_toList]
    rfl

theorem find?_callLine (hcanister : CanisterText canister cs) (hmethod : isIdentifier method = true)
    (h : ∀ given ∈ given?, '\n' ∉ given.toList) :
    PartialCall.find? (callLine cs method given?).toList = some ⟨canister, method, given?⟩ := by
  have hend : AtNameEnd (given?.elim [] fun given => '(' :: given.toList) := by
    cases given? with
    | none => exact nofun
    | some given =>
      rintro c ⟨⟩
      decide
  have hline : (callLine cs method given?).toList
      = 'c' :: 'a' :: 'l' :: 'l' :: ' ' :: (cs ++ '.' :: (method.toList
        ++ given?.elim [] fun given => '(' :: given.toList)) := by
    simp [callLine, calledText]
  have hcall : PartialCall.afterKeyword? (' ' :: (cs ++ '.' :: (method.toList
        ++ given?.elim [] fun given => '(' :: given.toList))) = some ⟨canister, method, given?⟩ := by
    rw [PartialCall.afterKeyword?, hcanister.blanks?_append]
    have hdot (rest : List Char) : PartialCall.behind? "." ('.' :: rest) = some rest := rfl
    simp only [Option.bind_eq_bind, Option.bind_some, hcanister.canister?_append, hdot,
      name?_append hmethod hend, given??_line h]
    rfl
  have hhere (rest : List Char) : PartialCall.here? ('c' :: 'a' :: 'l' :: 'l' :: rest) =
      (PartialCall.afterKeyword? (PartialCall.skipWallet rest) <|> PartialCall.afterKeyword? rest) :=
    rfl
  rw [hline, PartialCall.find?, hhere, hcanister.skipWallet_eq, hcall]
  rfl

/-! ## What is given -/

/-- A text on a line, without references to variables of the process, that gives arguments: they are
what is encoded if it stands between parentheses. -/
structure GivesArguments (environ : Source.Environ) (given : String) (args : List Exp) : Prop where
  line : '\n' ∉ given.toList
  plain : '$' ∉ given.toList
  encoded : parseExp environ ("encode (" ++ given ++ ")") = .ok (.call none args .encode)

/-- More arguments may follow those that a text gives: it does not end in a comment that goes on to the
end of the line, and the last of its tokens is no comma. -/
def GoesOn (given : String) : Prop :=
  ∃ kept, Source.blankComments (given.toList ++ [')']) = .ok (kept ++ [')']) ∧
    ∀ k ∈ (Syntax.scan Syntax.scriptGrammar.lexicon kept).tokens.getLast?, k.terminal ≠ .fixed ","

theorem blankFrom_of_blankComments {source kept : List Char}
    (h : Source.blankComments source = .ok kept) : blankFrom .code 0 source = .ok kept := by
  rw [Source.blankComments] at h
  split at h
  · cases h
    assumption
  · cases h

variable {environ : Source.Environ} {given : String} {args : List Exp}

theorem GivesArguments.closed (h : GivesArguments environ given args) :
    ∃ rest, blankFrom .code 0 (given.toList ++ [')']) = .ok rest ∧ ClosedText rest args := by
  obtain ⟨prepared, hprepared, hparse⟩ := Syntax.parseExp_ok_iff.mp h.encoded
  have hsource : ("encode (" ++ given ++ ")").toList
      = "encode (".toList ++ (given.toList ++ [')']) := by
    rw [String.toList_append, String.toList_append, List.append_assoc]
    rfl
  have hshebang : ¬['#', '!'] <+: "encode (".toList ++ (given.toList ++ [')']) := by
    rintro ⟨rest, hrest⟩
    cases hrest
  have hplain : '$' ∉ "encode (".toList ++ (given.toList ++ [')']) := by
    simp [h.plain]
  rw [hsource, Source.prepare_behind Syntax.written_encode.kept hshebang hplain] at hprepared
  obtain ⟨rest, hrest, rfl⟩ := hprepared
  exact ⟨rest, hrest, .of_encode hparse⟩

theorem GivesArguments.exists_kept (h : GivesArguments environ given args) (hon : GoesOn given) :
    ∃ kept ks, blankFrom .code 0 (given.toList ++ [')']) = .ok (kept ++ [')']) ∧
      Syntax.scan Syntax.scriptGrammar.lexicon kept = ⟨ks, .complete⟩ ∧
      ArgumentText Syntax.AtBreak kept (ks.map Syntax.Token.word) args ∧
      ∀ w ∈ (ks.map Syntax.Token.word).getLast?, w.1 ≠ .fixed "," := by
  obtain ⟨kept, hkept, hlast⟩ := hon
  replace hkept := blankFrom_of_blankComments hkept
  obtain ⟨rest, hrest, hclosed⟩ := h.closed
  rw [hkept] at hrest
  cases hrest
  obtain ⟨ks, hscan, htext⟩ := hclosed.exists_scan
  refine ⟨kept, ks, hkept, hscan, htext, ?_⟩
  rw [hscan] at hlast
  rw [List.getLast?_map]
  intro w hw
  obtain ⟨k, hk, rfl⟩ := Option.mem_map.mp hw
  exact hlast k hk

/-- What is behind the parenthesis of a call is read as its arguments. -/
theorem parseExp_call {source : String} {front behind rest : List Char} {m : Method}
    (hm : Phrased (·.head? = some '(') front Syntax.Phrase.method (· = .ok m))
    (hsource : source.toList = "call ".toList ++ (front ++ ['(']) ++ behind) (hplain : '$' ∉ behind)
    (hblank : blankFrom .code 0 behind = .ok rest) (hrest : ClosedText rest args) :
    parseExp environ source = .ok (.call (some m) args .send) := by
  obtain ⟨ws, hw⟩ := hm.written
  have hfront := Syntax.written_callee hw
  have hshebang : ¬['#', '!'] <+: "call ".toList ++ (front ++ ['(']) ++ behind := by
    rintro ⟨rest, hrest⟩
    cases hrest
  have hall : '$' ∉ "call ".toList ++ (front ++ ['(']) ++ behind := by
    intro hmem
    exact (List.mem_append.mp hmem).elim (fun hmem => (hfront.plain rfl _ hmem).1 rfl) hplain
  refine Syntax.parseExp_ok_iff.mpr ⟨_, ?_, hrest.parse hm⟩
  rw [hsource, Source.prepare_behind hfront.kept hshebang hall]
  exact ⟨rest, hblank, rfl⟩

/-! ## What is added -/

/-- Printed values, and a parenthesis behind them. -/
def closing (vs : List Value) : List Char := (", ".intercalate (vs.map Value.toText)).toList ++ [')']

variable {vs : List Value}

theorem closing_spec (h : ∀ v ∈ vs, v.Printable) :
    Kept .code .code (closing vs) ∧
      ∃ ws, ArgumentText Apart (", ".intercalate (vs.map Value.toText)).toList ws
        (Value.toExps vs) := by
  obtain ⟨ws, hw, htext⟩ := ArgumentText.of_itemized
    (Syntax.itemized_items fun v hv => Syntax.legible_toTextAt (h v hv) {} 0)
  have hclose : Kept .code .code [')'] := .code (by decide) (by decide)
  exact ⟨hw.kept.append hclose, ws, htext⟩

/-- Arguments that are printed behind those that a text gives: a comma stands between them, if there are
any in front. -/
theorem GivesArguments.goOn (h : GivesArguments environ given args) (hon : GoesOn given)
    (hvs : ∀ v ∈ vs, v.Printable) : ∃ rest,
      blankFrom .code 0 (given.toList ++ ((if args = [] then [] else [',', ' ']) ++ closing vs))
        = .ok rest ∧ ClosedText rest (args ++ Value.toExps vs) := by
  obtain ⟨kept, ks, hkept, hscan, htext, hlast⟩ := h.exists_kept hon
  have hend : Source.endsInText false kept = false :=
    Syntax.endsInText_of_complete (congrArg Syntax.Tokens.ending hscan)
  obtain ⟨hclosing, ws, hprinted⟩ := closing_spec hvs
  by_cases hnil : args = []
  · subst hnil
    obtain rfl := (htext.read ks rfl).eq_nil_iff.mpr rfl
    have hspace := Syntax.isSpace_of_scanFrom hscan
    refine ⟨kept ++ closing vs, ?_, ?_⟩
    · rw [if_pos rfl, List.nil_append]
      refine Source.blankFrom_closed (hclosing.blankFrom_eq 0) _ hkept hend fun hslash => ?_
      exact absurd (hspace _ (List.mem_of_getLast? hslash)) (by decide)
    · rw [closing, ← List.append_assoc]
      exact (hprinted.behindSpaces hspace).closed fun rest => Syntax.apart_mark (by decide) rest
  · have hcomma : Kept .code .code [',', ' '] :=
      (Kept.code (by decide) (by decide)).append (.code (by decide) (by decide))
    refine ⟨kept ++ ([',', ' '] ++ closing vs), ?_, ?_⟩
    · rw [if_neg hnil]
      refine Source.blankFrom_closed ((hcomma.append hclosing).blankFrom_eq 0) _ hkept hend ?_
      rintro - c ⟨⟩
      decide
    · have := (htext.join hnil hlast hprinted).closed fun rest => Syntax.apart_mark (by decide) rest
      rwa [List.append_assoc] at this

/-! ## The number of arguments -/

theorem isBlank_of_trim {text : String} (h : (Text.trim text).isEmpty = true) :
    ∀ c ∈ text.toList, Text.isBlank c = true := by
  have hright : Text.trimRight (Text.trimLeft text.toList) = [] := by
    simpa [Text.trim] using h
  rw [Text.trimRight, List.reverse_eq_nil_iff, Text.trimLeft, List.dropWhile_eq_nil_iff] at hright
  intro c hc
  rw [← List.takeWhile_append_dropWhile (p := Text.isBlank) (l := text.toList)] at hc
  obtain hc | hc := List.mem_append.mp hc
  · exact List.all_eq_true.mp List.all_takeWhile c hc
  · exact hright c (List.mem_reverse.mpr hc)

theorem GivesArguments.eq_nil_of_blank (h : GivesArguments environ given args)
    (hblank : ∀ c ∈ given.toList, Text.isBlank c = true) : args = [] := by
  have hkept : Kept .code .code (given.toList ++ [')']) := by
    refine .of_forall fun c hc => ?_
    obtain hc | hc := List.mem_append.mp hc
    · refine .code ?_ ?_ <;>
      · rintro rfl
        have := hblank _ hc
        rw [not_isBlank (by decide) (by decide)] at this
        cases this
    · rw [List.mem_singleton.mp hc]
      exact .code (by decide) (by decide)
  obtain ⟨rest, hrest, hclosed⟩ := h.closed
  rw [hkept.blankFrom_eq] at hrest
  cases hrest
  obtain ⟨ks, hscan, htext⟩ := hclosed.exists_scan
  obtain rfl : ks = [] := by
    rw [← Syntax.tokens_of_isBlank hblank {}]
    exact (congrArg Syntax.Tokens.tokens hscan).symm
  exact (htext.read [] rfl).eq_nil_iff.mp rfl

theorem GivesArguments.countOf_eq (h : GivesArguments environ given args) :
    Hint.countOf environ given = .ok args.length := by
  rw [Hint.countOf]
  split
  case isTrue hempty => rw [h.eq_nil_of_blank (isBlank_of_trim hempty)]; rfl
  case isFalse => rw [h.encoded]; rfl

/-! ## Hints -/

theorem phrased_method (hcanister : CanisterText canister cs) (hmethod : IsPlainName method) :
    Phrased (·.head? = some '(') (cs ++ '.' :: method.toList) Syntax.Phrase.method
      (· = .ok ⟨canister, method⟩) := by
  have hname : Phrased (·.head? = some '.') cs Syntax.Phrase.anyName (· = .ok canister) := by
    cases hcanister with
    | name h =>
      have hword : Phrased (·.head? = some '.') canister.toList Syntax.Phrase.nameTok
          (·.lexeme = canister) :=
        (Syntax.PhrasedIn.identifier h.1 h.2).allow fun rest hrest c hc => by
          rw [hrest] at hc
          cases hc
          decide
      exact .orLeft (hword.apply fun k hk => by rw [hk])
    | quoted h hplain =>
      have hquote : (quoteText canister).toList = '"' :: canister.toList ++ ['"'] := by
        rw [quoteText, String.toList_ofList, List.flatMap_congr h, List.flatMap_singleton']
      have hword : Phrased Syntax.Any (quoteText canister).toList Syntax.Phrase.textTok
          (·.lexeme = quoteText canister) := Syntax.phrased_quoteText fun _ => hplain
      rw [hquote] at hword
      exact .orRight (hword.anywhere.apply fun k hk => by rw [hk, Syntax.unquoteText_quoteText])
  have hdot : Phrased Syntax.Any ['.'] (Syntax.Rule.lit ".") fun _ => True := .mark (by decide)
  have hmethod : Phrased (·.head? = some '(') method.toList Syntax.Phrase.nameTok
      (·.lexeme = method) :=
    (Syntax.PhrasedIn.identifier hmethod.1 hmethod.2).allow fun rest hrest c hc => by
      rw [hrest] at hc
      cases hc
      decide
  refine hname.map₂ (hdot.seqRight hmethod fun _ _ => trivial) (fun _ _ => rfl) ?_
  intro name k hname hk
  rw [hname, hk]
  rfl

theorem orNothing_eq_some {α : Type} {x : Attempt α} {a : α}
    (h : Hint.orNothing x = .ok (some a)) : x = .ok a := by
  match x with
  | .ok b =>
    cases h
    rfl
  | .error (.error e) => cases h
  | .error (.fault cause) => cases h
  | .error .exhausted => cases h

theorem exists_of_forLine {σ : Type} {S : Setting σ} {sh : Shell σ} {line hint : String}
    {p : PartialCall} {scope : Scope} {s : Signature}
    (hfind : PartialCall.find? line.toList = some p) (hs : Hint.signature? sh p = some (scope, s))
    (h : Hint.forLine S sh line = .ok (some hint)) :
    ∃ values count,
      Random.values sh.env.config scope (sh.env.config.seed?.getD S.now.toNat) s.args = .ok values ∧
      Hint.countOf S.environ (p.given?.getD "") = .ok count ∧
      hint = Hint.completion p.given?.isSome count (values.map Value.toText) := by
  rw [Hint.forLine, hfind] at h
  dsimp only at h
  split at h
  · cases h
  · rw [hs] at h
    obtain ⟨values, hvalues, h⟩ := Attempt.bind_ok_iff.mp (orNothing_eq_some h)
    obtain ⟨count, hcount, h⟩ := Attempt.bind_ok_iff.mp h
    cases h
    exact ⟨values, count, hvalues, hcount, rfl⟩

theorem join_commas {texts : List String} (h : texts ≠ []) :
    String.join (texts.map (", " ++ ·)) = ", " ++ ", ".intercalate texts := by
  induction texts with
  | nil => exact absurd rfl h
  | cons t texts ih =>
    cases texts with
    | nil => simp
    | cons u texts =>
      rw [List.map_cons, String.join_cons, ih (List.cons_ne_nil _ _), String.intercalate_cons_cons]
      simp only [String.append_assoc]

theorem completion_unopened (count : Nat) :
    (Hint.completion false count (vs.map Value.toText)).toList = '(' :: closing vs := by
  simp [Hint.completion, closing]

theorem completion_missing {count : Nat} (h : count < vs.length) :
    (Hint.completion true count (vs.map Value.toText)).toList
      = (if count = 0 then [] else [',', ' ']) ++ closing (vs.drop count) := by
  have hshort : ¬(vs.map Value.toText).length < count := by
    rw [List.length_map]
    omega
  rw [Hint.completion, if_neg (by decide)]
  split
  case isTrue hzero =>
    subst hzero
    simp [closing]
  case isFalse =>
    have hne : (vs.map Value.toText).drop count ≠ [] := by
      simpa using h
    rw [join_commas hne, ← List.map_drop]
    simp [closing]

theorem completion_enough {count : Nat} (h : vs.length ≤ count)
    (hne : Hint.completion true count (vs.map Value.toText) ≠ "") :
    Hint.completion true count (vs.map Value.toText) = ")" ∧ count = vs.length := by
  rw [Hint.completion, if_neg (by decide)] at hne ⊢
  split
  case isTrue hzero =>
    obtain rfl : vs = [] := List.length_eq_zero_iff.mp (by omega)
    exact ⟨rfl, hzero⟩
  case isFalse hcount =>
    rw [if_neg hcount] at hne
    split at hne
    case isTrue => exact absurd rfl hne
    case isFalse hshort =>
      rw [List.length_map] at hshort
      rw [if_neg (by rwa [List.length_map]), ← List.map_drop, List.drop_eq_nil_of_le h]
      exact ⟨rfl, by omega⟩

theorem length_toExps (vs : List Value) : (Value.toExps vs).length = vs.length := by
  rw [Syntax.eq_map_of_cons (f := Value.toExps) (g := Value.toExp) rfl (fun _ _ => rfl),
    List.length_map]

theorem printable_of_closing (h : ∀ v ∈ vs, v.Plain) (hplain : '$' ∉ closing vs) :
    ∀ v ∈ vs, v.Printable := fun v hv => h v hv {} 0 fun hc =>
  hplain (List.mem_append_left _ (Value.mem_intercalate (List.mem_map_of_mem hv) hc))

theorem GivesArguments.completion (h : GivesArguments environ given args) (hvs : ∀ v ∈ vs, v.Plain)
    (hon : args.length < vs.length → GoesOn given)
    (hne : Hint.completion true args.length (vs.map Value.toText) ≠ "")
    (hplain : '$' ∉ (Hint.completion true args.length (vs.map Value.toText)).toList) :
    ∃ rest more, blankFrom .code 0
        (given.toList ++ (Hint.completion true args.length (vs.map Value.toText)).toList) = .ok rest ∧
      ClosedText rest (args ++ more) ∧ (args ++ more).length = max vs.length args.length := by
  by_cases hmissing : args.length < vs.length
  · have hhint := completion_missing hmissing
    rw [hhint] at hplain
    have hprintable := printable_of_closing (fun v hv => hvs v (List.mem_of_mem_drop hv))
      fun hmem => hplain (List.mem_append_right _ hmem)
    obtain ⟨rest, hrest, hclosed⟩ := h.goOn (hon hmissing) hprintable
    simp only [← List.length_eq_zero_iff] at hrest
    refine ⟨rest, _, by rwa [hhint], hclosed, ?_⟩
    rw [List.length_append, length_toExps, List.length_drop]
    omega
  · obtain ⟨hhint, henough⟩ := completion_enough (Nat.le_of_not_lt hmissing) hne
    obtain ⟨rest, hrest, hclosed⟩ := h.closed
    refine ⟨rest, [], by rwa [hhint], by rwa [List.append_nil], ?_⟩
    rw [List.append_nil, henough, max_self]

/-- The arguments that are given in a line that begins a call. -/
def Given (environ : Source.Environ) : (given? : Option String) → List Exp → Prop
  | none, args => args = []
  | some given, args => GivesArguments environ given args

/-- A hint completes the call: the line and what is added to it are read as a call with the arguments
that are given in front, and with others behind them up to the number that the method takes.  Neither
what is given nor what is added refers to a variable of the process, and where arguments are missing,
what is given can be gone on with. -/
theorem parseExp_hint {σ : Type} {S : Setting σ} {sh : Shell σ} {hint : String} {scope : Scope}
    {s : Signature} (hcanister : CanisterText canister cs) (hmethod : IsPlainName method)
    (hgiven : Given S.environ given? args)
    (hs : Hint.signature? sh ⟨canister, method, given?⟩ = some (scope, s))
    (htypes : ∀ t ∈ s.args, Random.Sayable scope t)
    (hon : args.length < s.args.length → ∀ given ∈ given?, GoesOn given)
    (h : Hint.forLine S sh (callLine cs method given?) = .ok (some hint)) (hne : hint ≠ "")
    (hplain : '$' ∉ hint.toList) :
    ∃ more, parseExp S.environ (callLine cs method given? ++ hint)
        = .ok (.call (some ⟨canister, method⟩) (args ++ more) .send) ∧
      (args ++ more).length = max s.args.length args.length := by
  have hline : ∀ given ∈ given?, '\n' ∉ given.toList := by
    rintro given rfl
    exact hgiven.line
  obtain ⟨values, count, hvalues, hcount, rfl⟩ :=
    exists_of_forLine (find?_callLine hcanister hmethod.1 hline) hs h
  -- the values are one for each parameter, so their number can stand for that of the parameters
  obtain ⟨hlength, hvs⟩ := Random.values_plain htypes hvalues
  have hm := phrased_method hcanister hmethod
  rw [← hlength] at hon ⊢
  cases given? with
  | none =>
    obtain rfl : args = [] := hgiven
    rw [Option.isSome_none] at hplain ⊢
    rw [completion_unopened] at hplain
    obtain ⟨hclosing, ws, htext⟩ :=
      closing_spec (printable_of_closing hvs fun hmem => hplain (.tail _ hmem))
    have hsource : (callLine cs method none
          ++ Hint.completion false count (values.map Value.toText)).toList
        = "call ".toList ++ (cs ++ '.' :: method.toList ++ ['(']) ++ closing values := by
      rw [String.toList_append, completion_unopened]
      simp [callLine, calledText]
    refine ⟨Value.toExps values, parseExp_call hm hsource (fun hmem => hplain (.tail _ hmem))
      (hclosing.blankFrom_eq 0) (htext.closed fun rest => Syntax.apart_mark (by decide) rest), ?_⟩
    simp [length_toExps]
  | some given =>
    have hgives : GivesArguments S.environ given args := hgiven
    rw [Option.getD_some, hgives.countOf_eq] at hcount
    cases hcount
    rw [Option.isSome_some] at hne hplain ⊢
    obtain ⟨rest, more, hrest, hclosed, hmax⟩ :=
      hgives.completion hvs (fun hmissing => hon hmissing given rfl) hne hplain
    refine ⟨more, parseExp_call hm ?_ ?_ hrest hclosed, hmax⟩
    · simp [callLine, calledText]
    · exact fun hmem => (List.mem_append.mp hmem).elim hgives.plain hplain

/-! ### A method with two parameters -/

/-- The parameters of a method: an option, and a record with one. -/
def noteTypes : List Ty := [.opt .nat, .record [(.named "note", .opt .text)]]

/-- A shell in which options are drawn empty, that knows a canister with such a method. -/
def noteShell : Shell Unit where
  env := { twoCanisters with config := { depth := 0 } }
  session := {
    world := ()
    disk := ⟨[], []⟩
    directory := [(someCanister, { methods := [("put", ⟨noteTypes, [], []⟩)] })] }

theorem valueOf_opt {c : Random.Config} {scope : Scope} (fuel : Nat) {depth : Int} (h : depth ≤ 0)
    (item : Ty) : Random.valueOf c scope (fuel + 1) depth (.opt item) = return .nothing := by
  rw [Random.valueOf, Scope.resolve_of_ne_var fun _ => Ty.noConfusion]
  change (if depth ≤ 0 then return .nothing else _ : Random.Drawing Value) = _
  rw [if_pos h]

theorem values_noteTypes :
    Random.values { depth := 0 } [] 0 noteTypes
      = .ok [.nothing, .record [(.named "note", .nothing)]] := by
  have hopt : Random.valueOf { depth := 0 } [] 1000 0 (.opt .nat) = return .nothing :=
    valueOf_opt 999 (Int.le_refl 0) .nat
  have hfield : Random.valueOf { depth := 0 } [] 999 (0 - 1) (.opt .text) = return .nothing :=
    valueOf_opt 998 (by decide) .text
  have hrecord : Random.valueOf { depth := 0 } [] 1000 0 (.record [(.named "note", .opt .text)])
      = return .record [(.named "note", .nothing)] := by
    rw [Random.valueOf, Scope.resolve_of_ne_var fun _ => Ty.noConfusion]
    change (do
      let values ← [(Label.named "note", Ty.opt .text)].mapM fun f => do
        return (f.1, ← Random.valueOf { depth := 0 } [] 999 (0 - 1) f.2)
      (Value.mkRecord values : Except Failure Value) : Random.Drawing Value) = _
    rw [List.mapM_cons]
    dsimp only
    rw [hfield]
    rfl
  have hall : noteTypes.mapM (Random.valueOf { depth := 0 } [] 1000 0)
      = return [.nothing, .record [(.named "note", .nothing)]] := by
    rw [noteTypes, List.mapM_cons, List.mapM_cons, hopt, hrecord]
    rfl
  change (noteTypes.mapM (Random.valueOf { depth := 0 } [] 1000 0)).run' _ = _
  rw [hall]
  rfl

theorem forLine_noteShell (h : GivesArguments [] given [.opt (.literal (.number 1))])
    (hopen : PartialCall.isClosed ⟨"c", "put", some given⟩ = false) :
    Hint.forLine bareSetting noteShell (callLine "c".toList "put" (some given))
      = .ok (some ", record \x7b note = null \x7d)") := by
  have hfind : PartialCall.find? (callLine "c".toList "put" (some given)).toList
      = some ⟨"c", "put", some given⟩ :=
    find?_callLine (.name (by decide +kernel)) (by decide) (by rintro g ⟨⟩; exact h.line)
  have hs : Hint.signature? noteShell ⟨"c", "put", some given⟩ = some ([], ⟨noteTypes, [], []⟩) := by
    cbv
  rw [Hint.forLine, hfind]
  dsimp only
  rw [if_neg (by rw [hopen]; decide), hs]
  dsimp only
  have hvalues : Random.values noteShell.env.config []
      (noteShell.env.config.seed?.getD bareSetting.now.toNat) noteTypes
        = .ok [.nothing, .record [(.named "note", .nothing)]] := values_noteTypes
  have hcount : Hint.countOf bareSetting.environ given = .ok 1 := h.countOf_eq
  rw [hvalues, Option.getD_some, hcount]
  rfl

theorem noteTypes_sayable : ∀ t ∈ noteTypes, Random.Sayable [] t := by
  let ts : List Ty := [.opt .nat, .record [(.named "note", .opt .text)], .nat, .opt .text, .text]
  have hclosed : Scope.Closed [] ts := by
    refine ⟨?_, ?_⟩ <;> simp [ts, Ty.components, Ty.nat, Ty.text]
  have hmem : ∀ t ∈ noteTypes, t ∈ ts := by simp [noteTypes, ts]
  intro t ht
  refine ⟨hclosed.floatFree (by simp [ts, Ty.nat, Ty.text]) (hmem t ht), fun fields hfields => ?_,
    fun cases hcases => ?_⟩
  · have := hclosed.mem_of_reaches (hmem t ht) hfields
    simp only [ts, Ty.nat, Ty.text, List.mem_cons, reduceCtorEq, Ty.record.injEq, List.not_mem_nil,
      or_false, false_or] at this
    subst this
    exact List.forall_mem_singleton.mpr ⟨by decide, by decide⟩
  · have := hclosed.mem_of_reaches (hmem t ht) hcases
    simp [ts, Ty.nat, Ty.text] at this

/-- The record is missing behind the option and a comment. -/
theorem parseExp_hint_record :
    Hint.forLine bareSetting noteShell "call c.put(opt 1 /* at most */"
        = .ok (some ", record \x7b note = null \x7d)") ∧
      ∃ more, parseExp [] ("call c.put(opt 1 /* at most */" ++ ", record \x7b note = null \x7d)")
          = .ok (.call (some ⟨"c", "put"⟩) ([.opt (.literal (.number 1))] ++ more) .send) ∧
        ([Exp.opt (.literal (.number 1))] ++ more).length = max noteTypes.length 1 := by
  have hgives : GivesArguments [] "opt 1 /* at most */" [.opt (.literal (.number 1))] :=
    ⟨by decide, by decide, by cbv⟩
  have hon : GoesOn "opt 1 /* at most */" :=
    ⟨"opt 1              ".toList, by cbv, by decide +kernel⟩
  have hs : Hint.signature? noteShell ⟨"c", "put", some "opt 1 /* at most */"⟩
      = some ([], ⟨noteTypes, [], []⟩) := by cbv
  have hline : callLine "c".toList "put" (some "opt 1 /* at most */")
      = "call c.put(opt 1 /* at most */" := by decide +kernel
  have hhint := forLine_noteShell hgives (by decide +kernel)
  have hgiven : Given bareSetting.environ (some "opt 1 /* at most */")
      [.opt (.literal (.number 1))] := hgives
  have hparse := parseExp_hint (.name (by decide +kernel)) (by decide +kernel) hgiven hs
    noteTypes_sayable (by rintro - g ⟨⟩; exact hon) hhint (by decide) (by decide)
  rw [hline] at hhint hparse
  exact ⟨hhint, hparse⟩

/-- Behind a comma the hint begins with another one. -/
theorem parseExp_hint_comma_fails :
    (∀ t ∈ noteTypes, Random.Sayable [] t) ∧
      Hint.signature? noteShell ⟨"c", "put", some "opt 1, "⟩ = some ([], ⟨noteTypes, [], []⟩) ∧
      GivesArguments [] "opt 1, " [.opt (.literal (.number 1))] ∧
      Hint.forLine bareSetting noteShell "call c.put(opt 1, "
        = .ok (some ", record \x7b note = null \x7d)") ∧
      ∀ e, parseExp [] ("call c.put(opt 1, " ++ ", record \x7b note = null \x7d)") ≠ .ok e := by
  have hgives : GivesArguments [] "opt 1, " [.opt (.literal (.number 1))] :=
    ⟨by decide, by decide, by cbv⟩
  have hfails : (parseExp [] ("call c.put(opt 1, "
      ++ ", record \x7b note = null \x7d)")).isOk = false := by
    decide +kernel
  have hs : Hint.signature? noteShell ⟨"c", "put", some "opt 1, "⟩
      = some ([], ⟨noteTypes, [], []⟩) := by cbv
  have hline : callLine "c".toList "put" (some "opt 1, ") = "call c.put(opt 1, " := by
    decide +kernel
  refine ⟨noteTypes_sayable, hs, hgives, hline ▸ forLine_noteShell hgives (by decide +kernel),
    fun e he => ?_⟩
  rw [he] at hfails
  cases hfails

end CanisterShell
