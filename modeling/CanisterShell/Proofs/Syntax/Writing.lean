import CanisterShell.Proofs.Syntax.Deriving
import CanisterShell.Syntax.Grammar
import CanisterShell.Syntax.Source
import Mathlib.Tactic.FinCases

/-!
# Texts that are written as words

Characters are *written* as some words if, in front of whatever may follow them, they are cut into
tokens of these words, comments are found nowhere in them, and, in a script, neither a dollar sign nor a
carriage return stands in them.  What is written of parts is written of the parts in a row, as long as each
part allows what the next one begins with.
-/

namespace CanisterShell.Source

/-- Characters that blanking keeps and that lead from one region to another. -/
def Kept (r r' : Region) (cs : List Char) : Prop := ∀ pos rest,
  blankFrom r pos (cs ++ rest) = (cs ++ ·) <$> blankFrom r' (pos + cs.length) rest

namespace Kept

variable {r r' r'' : Region} {cs ds : List Char}

attribute [local simp] blankFrom

theorem nil : Kept r r [] := fun pos rest => by
  rw [List.nil_append, List.length_nil, Nat.add_zero]
  cases blankFrom r pos rest with
  | error e => rfl
  | ok blanked => rfl

theorem append (h : Kept r r' cs) (h' : Kept r' r'' ds) : Kept r r'' (cs ++ ds) :=
  fun pos rest => by
    rw [List.append_assoc, h, h', List.length_append, Nat.add_assoc]
    cases blankFrom r'' (pos + (cs.length + ds.length)) rest with
    | error e => rfl
    | ok blanked => exact congrArg Except.ok (List.append_assoc ..).symm

/-- A character that neither begins a text nor may begin a comment. -/
theorem code {c : Char} (hq : c ≠ '"') (hs : c ≠ '/') : Kept .code .code [c] := fun pos rest => by
  rw [List.singleton_append, blankFrom]
  · rfl
  · exact hq
  · intro _ h
    exact absurd h hs
  · intro _ h
    exact absurd h hs

theorem text {c : Char} (hq : c ≠ '"') (hb : c ≠ '\\') : Kept .text .text [c] := fun pos rest => by
  rw [List.singleton_append, blankFrom]
  · rfl
  · rintro rfl
    exact absurd rfl hb
  · rintro _ _ rfl
    exact absurd rfl hb
  · exact hq

theorem of_forall (h : ∀ c ∈ cs, Kept r r [c]) : Kept r r cs := by
  induction cs with
  | nil => exact nil
  | cons c cs ih => exact (h c (.head _)).append (ih fun c hc => h c (.tail _ hc))

theorem blankFrom_eq (h : Kept .code .code cs) (pos : Nat) : blankFrom .code pos cs = .ok cs := by
  have := h pos []
  rw [List.append_nil] at this
  rw [this]
  change Except.ok (cs ++ []) = _
  rw [List.append_nil]

end Kept

end CanisterShell.Source

namespace CanisterShell.Syntax

open Source (Kept)

/-- The class and the characters of a token. -/
abbrev Word := Terminal × String

def Token.word (k : Token) : Word := (k.terminal, k.lexeme)

/-- What is written may be followed by anything. -/
def Any (_ : List Char) : Prop := True

/-- What is written is not followed by a character that goes on with a name or a number. -/
def Apart (rest : List Char) : Prop := ∀ c ∈ rest.head?, Candid.isNameChar c = false ∧ c ≠ '.'

/-- Characters that are written as some words in front of what `ok` allows.  In a script they hold no
references to variables; elsewhere these mean nothing. -/
structure WrittenIn (script : Bool) (ok : List Char → Prop) (cs : List Char) (ws : List Word) :
    Prop where
  scanned (at_ : Cursor) {rest : List Char} (h : ok rest) : ∃ ks at', ks.map Token.word = ws ∧
    scanFrom scriptGrammar.lexicon at_ (cs ++ rest)
      = ⟨ks ++ (scanFrom scriptGrammar.lexicon at' rest).tokens,
        (scanFrom scriptGrammar.lexicon at' rest).ending⟩
  kept : Kept .code .code cs
  plain (h : script = true) : ∀ c ∈ cs, c ≠ '$' ∧ c ≠ '\r'

/-- Characters that are written as some words in a script. -/
abbrev Written := WrittenIn true

variable {script : Bool}

namespace WrittenIn

variable {ok ok' : List Char → Prop} {cs ds : List Char} {ws xs : List Word}

theorem imp (h : WrittenIn script ok cs ws) (hok : ∀ rest, ok' rest → ok rest) :
    WrittenIn script ok' cs ws :=
  ⟨fun at_ _ hr => h.scanned at_ (hok _ hr), h.kept, h.plain⟩

theorem append (h : WrittenIn script ok cs ws) (h' : WrittenIn script ok' ds xs)
    (hok : ∀ rest, ok' rest → ok (ds ++ rest)) : WrittenIn script ok' (cs ++ ds) (ws ++ xs) where
  scanned at_ {rest} hrest := by
    obtain ⟨ks, at', hks, hscan⟩ := h.scanned at_ (hok rest hrest)
    obtain ⟨ls, at'', hls, hscan'⟩ := h'.scanned at' hrest
    refine ⟨ks ++ ls, at'', by rw [List.map_append, hks, hls], ?_⟩
    rw [List.append_assoc, hscan, hscan', List.append_assoc]
  kept := h.kept.append h'.kept
  plain hscript c hc := (List.mem_append.mp hc).elim (h.plain hscript c) (h'.plain hscript c)

theorem append_any (h : WrittenIn script Any cs ws) (h' : WrittenIn script ok' ds xs) :
    WrittenIn script ok' (cs ++ ds) (ws ++ xs) :=
  h.append h' fun _ _ => trivial

theorem nil : WrittenIn script Any [] [] where
  scanned at_ _ _ := ⟨[], at_, rfl, rfl⟩
  kept := .nil
  plain _ := nofun

end WrittenIn

/-! ## Single words -/

theorem scanFrom_token {lexicon : Lexicon} {terminal : Terminal} {cs rest : List Char}
    (hne : cs ≠ []) (hspace : ∀ c ∈ cs.head?, isSpace c = false)
    (h : front? lexicon (cs ++ rest) = some (terminal, cs.length)) (at_ : Cursor) :
    scanFrom lexicon at_ (cs ++ rest)
      = ⟨⟨terminal, String.ofList cs,
            ⟨at_.offset, (at_.advance cs).offset, at_.line, at_.column⟩⟩ ::
          (scanFrom lexicon (at_.advance cs) rest).tokens,
        (scanFrom lexicon (at_.advance cs) rest).ending⟩ := by
  cases cs with
  | nil => exact absurd rfl hne
  | cons c cs =>
    have hc : isSpace c ≠ true := by rw [hspace c rfl]; decide
    rw [List.cons_append, scanFrom, if_neg hc, ← List.cons_append, h]
    simp

theorem WrittenIn.token {ok : List Char → Prop} {terminal : Terminal} {cs : List Char} (hne : cs ≠ [])
    (hspace : ∀ c ∈ cs.head?, isSpace c = false)
    (h : ∀ rest, ok rest →
      front? scriptGrammar.lexicon (cs ++ rest) = some (terminal, cs.length))
    (hkept : Kept .code .code cs)
    (hplain : script = true → ∀ c ∈ cs, c ≠ '$' ∧ c ≠ '\r') :
    WrittenIn script ok cs [(terminal, String.ofList cs)] where
  scanned at_ {rest} hrest := ⟨[_], _, rfl, scanFrom_token hne hspace (h rest hrest) at_⟩
  kept := hkept
  plain := hplain

theorem WrittenIn.blank {cs : List Char} (h : ∀ c ∈ cs, c = ' ' ∨ c = '\n') :
    WrittenIn script Any cs [] where
  scanned at_ {rest} _ := by
    refine ⟨[], at_.advance cs, rfl, ?_⟩
    induction cs generalizing at_ with
    | nil => rfl
    | cons c cs ih =>
      have hc : isSpace c = true := by obtain rfl | rfl := h c (.head _) <;> rfl
      rw [List.cons_append, scanFrom, if_pos hc, ih (fun c hc => h c (.tail _ hc))]
      rfl
  kept := .of_forall fun c hc => by
    obtain rfl | rfl := h c hc
    · exact .code (by decide) (by decide)
    · exact .code (by decide) (by decide)
  plain _ c hc := by obtain rfl | rfl := h c hc <;> decide

/-! ### Names and numbers -/

/-- The class of an identifier. -/
def nameTerminal (name : String) : Terminal :=
  if scriptGrammar.lexicon.keywords.contains name then .fixed name else .name

theorem takeWhile_append_of_head {p : Char → Bool} {cs rest : List Char} (h : ∀ c ∈ cs, p c = true)
    (hrest : ∀ c ∈ rest.head?, p c = false) : (cs ++ rest).takeWhile p = cs := by
  rw [List.takeWhile_append_of_pos h]
  cases rest with
  | nil => simp
  | cons c rest =>
    rw [List.takeWhile_cons, hrest c rfl]
    simp

theorem isNameChar_of_isNameStart {c : Char} (h : Candid.isNameStart c = true) :
    Candid.isNameChar c = true := by
  rw [Candid.isNameStart, Bool.or_eq_true] at h
  rw [Candid.isNameChar, Bool.or_eq_true, Char.isAlphanum, Bool.or_eq_true]
  exact h.imp_left .inl

theorem name_spec {name : String} (h : Candid.isIdentifier name = true) : ∃ c rest,
    name.toList = c :: rest ∧ Candid.isNameStart c = true ∧
      ∀ d ∈ name.toList, Candid.isNameChar d = true := by
  rw [Candid.isIdentifier] at h
  split at h
  case h_1 => cases h
  case h_2 c rest hname =>
    obtain ⟨hc, hrest⟩ := Bool.and_eq_true_iff.mp h
    refine ⟨c, rest, hname, hc, ?_⟩
    rw [hname]
    exact List.forall_mem_cons.mpr ⟨isNameChar_of_isNameStart hc, List.all_eq_true.mp hrest⟩

theorem isNameChar_of_isDigitOrUnderscore {c : Char} (h : isDigitOrUnderscore c = true) :
    Candid.isNameChar c = true := by
  rw [isDigitOrUnderscore, Bool.or_eq_true] at h
  rw [Candid.isNameChar, Bool.or_eq_true, Char.isAlphanum, Bool.or_eq_true]
  exact h.imp_left .inr

theorem ne_of_isNameChar {c : Char} (h : Candid.isNameChar c = true) :
    c ≠ '"' ∧ c ≠ '/' ∧ c ≠ '$' ∧ c ≠ '\r' ∧ isSpace c = false := by
  refine ⟨?_, ?_, ?_, ?_, ?_⟩
  · rintro rfl
    exact absurd h (by decide)
  · rintro rfl
    exact absurd h (by decide)
  · rintro rfl
    exact absurd h (by decide)
  · rintro rfl
    exact absurd h (by decide)
  · rw [Bool.eq_false_iff]
    intro hs
    simp only [isSpace, Bool.or_eq_true, decide_eq_true_eq] at hs
    obtain (((rfl | rfl) | rfl) | rfl) | rfl := hs <;> exact absurd h (by decide)

theorem not_isNameStart_of_isDigit {c : Char} (h : c.isDigit = true) :
    ¬Candid.isNameStart c = true := by
  rw [Candid.isNameStart, Bool.or_eq_true, decide_eq_true_eq]
  rintro (ha | rfl)
  · change (decide (c.val ≥ 65 ∧ c.val ≤ 90) || c.val ≥ 97 && c.val ≤ 122) = true at ha
    rw [Char.isDigit_iff_toNat] at h
    simp only [Bool.or_eq_true, Bool.and_eq_true, decide_eq_true_eq, ge_iff_le,
      UInt32.le_iff_toNat_le, UInt32.reduceToNat, Char.toNat_val, Char.reduceToNat] at h ha
    omega
  · exact absurd h (by decide)

theorem Apart.digit {rest : List Char} (h : Apart rest) :
    ∀ d ∈ rest.head?, isDigitOrUnderscore d = false := fun d hd => by
  rw [Bool.eq_false_iff]
  intro hdigit
  exact absurd (isNameChar_of_isDigitOrUnderscore hdigit) (by rw [(h d hd).1]; decide)

theorem Apart.ne {rest : List Char} (h : Apart rest) {e : Char}
    (he : Candid.isNameChar e = true) : ∀ d ∈ rest.head?, d ≠ e := by
  rintro d hd rfl
  exact absurd he (by rw [(h d hd).1]; decide)

theorem WrittenIn.nameChars {ok : List Char → Prop} {terminal : Terminal} {cs : List Char}
    (hne : cs ≠ []) (hcs : ∀ c ∈ cs, Candid.isNameChar c = true)
    (h : ∀ rest, ok rest →
      front? scriptGrammar.lexicon (cs ++ rest) = some (terminal, cs.length)) :
    WrittenIn script ok cs [(terminal, String.ofList cs)] := by
  have plain {c : Char} (hc : c ∈ cs) := ne_of_isNameChar (hcs c hc)
  refine .token hne (fun c hc => ?_) h (.of_forall fun c hc => ?_) fun _ c hc => ?_
  · exact (plain (List.mem_of_mem_head? hc)).2.2.2.2
  · exact .code (plain hc).1 (plain hc).2.1
  · exact ⟨(plain hc).2.2.1, (plain hc).2.2.2.1⟩

/-- What is behind a name: nothing, or a character that does not go on with it. -/
def AtNameEnd (rest : List Char) : Prop := ∀ c ∈ rest.head?, Candid.isNameChar c = false

theorem WrittenIn.identifier {name : String} (h : Candid.isIdentifier name = true) :
    WrittenIn script AtNameEnd name.toList [(nameTerminal name, name)] := by
  obtain ⟨c, cs, hname, hc, hall⟩ := name_spec h
  have hspelling : String.ofList (c :: cs) = name := by rw [← hname, String.ofList_toList]
  rw [hname] at hall ⊢
  have hfront (rest : List Char) (hrest : AtNameEnd rest) :
      front? scriptGrammar.lexicon (c :: cs ++ rest)
        = some (nameTerminal name, (c :: cs).length) := by
    rw [List.cons_append, front?, if_pos hc, ← List.cons_append,
      takeWhile_append_of_head hall hrest]
    dsimp only
    rw [hspelling]
    rfl
  have hword : WrittenIn script AtNameEnd (c :: cs)
      [(nameTerminal name, String.ofList (c :: cs))] :=
    .nameChars (List.cons_ne_nil c cs) hall hfront
  rwa [hspelling] at hword

theorem WrittenIn.name {name : String} (h : Candid.isIdentifier name = true) :
    WrittenIn script Apart name.toList [(nameTerminal name, name)] :=
  (WrittenIn.identifier h).imp fun _ hrest c hc => (hrest c hc).1

theorem numberLength_of_head {cs : List Char} (h : ∀ d ∈ cs.tail.head?, d ≠ 'x') :
    numberLength cs = decimalLength cs := by
  rw [numberLength.eq_def]
  split
  case h_1 => exact absurd rfl (h 'x' rfl)
  case h_2 => rfl

theorem partLength_eq_zero {isMark : Char → Bool} {cs : List Char}
    (h : ∀ c ∈ cs.head?, isMark c = false) : partLength isMark cs = 0 := by
  cases cs with
  | nil => rfl
  | cons c cs => rw [partLength, h c rfl, Bool.false_and, if_neg (by decide)]

theorem exponentLength_eq_zero {cs : List Char} (h : ∀ c ∈ cs.head?, c ≠ 'e' ∧ c ≠ 'E') :
    exponentLength cs = 0 := by
  have hmark {c : Char} (hc : c ∈ cs.head?) : (c = 'e' || c = 'E') = false := by
    simp [(h c hc).1, (h c hc).2]
  rw [exponentLength.eq_def]
  split
  case h_1 => simp [hmark rfl]
  case h_2 => simp [hmark rfl]
  case h_3 => exact partLength_eq_zero fun c hc => hmark hc

/-- Digits, perhaps with underscores between them, in front of what goes on with no number. -/
theorem WrittenIn.digits {c : Char} {cs : List Char} (hc : c.isDigit = true)
    (hcs : ∀ d ∈ cs, isDigitOrUnderscore d = true) :
    WrittenIn script Apart (c :: cs) [(.number, String.ofList (c :: cs))] := by
  have hd : isDigitOrUnderscore c = true := by rw [isDigitOrUnderscore, hc, Bool.true_or]
  refine .nameChars (List.cons_ne_nil c cs) ?_ fun rest hrest => ?_
  · exact List.forall_mem_cons.mpr ⟨isNameChar_of_isDigitOrUnderscore hd,
      fun d hd => isNameChar_of_isDigitOrUnderscore (hcs d hd)⟩
  · have hdigits : digitsLength (c :: cs ++ rest) = cs.length + 1 := by
      rw [List.cons_append, digitsLength, if_pos hc, takeWhile_append_of_head hcs hrest.digit]
    rw [List.cons_append, front?, if_neg (not_isNameStart_of_isDigit hc), if_pos hc,
      ← List.cons_append, numberLength_of_head, decimalLength, hdigits]
    · have hdrop : (c :: cs ++ rest).drop (cs.length + 1) = rest := by simp
      rw [if_neg (Nat.succ_ne_zero _)]
      dsimp only
      rw [hdrop, partLength_eq_zero fun d hd => by simp [(hrest d hd).2], Nat.add_zero, hdrop,
        exponentLength_eq_zero fun d hd =>
          ⟨hrest.ne (by decide) d hd, hrest.ne (by decide) d hd⟩]
      rfl
    · rintro d hd rfl
      cases cs with
      | nil => exact hrest.ne (by decide) _ hd rfl
      | cons e cs =>
        cases hd
        exact absurd (hcs _ (.head _)) (by decide)

/-! ### Symbols -/

theorem WrittenIn.symbol {ok : List Char → Prop} {c : Char}
    (hc : c ∈ ['(', ')', ':', ';', '\x7b', '\x7d', '.', ',', '=', '-'])
    (h : ∀ rest, ok rest →
      front? scriptGrammar.lexicon (c :: rest) = some (.fixed c.toString, 1)) :
    WrittenIn script ok [c] [(.fixed c.toString, c.toString)] := by
  have plain : isSpace c = false ∧ (c ≠ '"' ∧ c ≠ '/') ∧ c ≠ '$' ∧ c ≠ '\r' := by
    simp only [List.mem_cons, List.not_mem_nil, or_false] at hc
    rcases hc with rfl | rfl | rfl | rfl | rfl | rfl | rfl | rfl | rfl | rfl <;> decide
  have : WrittenIn script ok [c] [(.fixed c.toString, String.ofList [c])] :=
    .token (List.cons_ne_nil c []) (fun d hd => by cases hd; exact plain.1) h
      (.code plain.2.1.1 plain.2.1.2)
      fun _ d hd => List.mem_singleton.mp hd ▸ plain.2.2
  exact this

theorem WrittenIn.mark {c : Char} (hc : c ∈ ['(', ')', ':', ';', '\x7b', '\x7d', '.', ',']) :
    WrittenIn script Any [c] [(.fixed c.toString, c.toString)] := by
  refine .symbol (List.mem_append_left ['=', '-'] hc) fun rest _ => ?_
  fin_cases hc <;> rfl

theorem WrittenIn.equals : WrittenIn script (·.head? = some ' ') ['='] [(.fixed "=", "=")] := by
  refine .symbol (by decide) fun rest hrest => ?_
  cases rest with
  | nil => cases hrest
  | cons c rest =>
    cases hrest
    rfl

theorem WrittenIn.minus {d : Char} (hd : d.isDigit = true) :
    WrittenIn script (·.head? = some d) ['-'] [(.fixed "-", "-")] := by
  refine .symbol (by decide) fun rest hrest => ?_
  cases rest with
  | nil => cases hrest
  | cons c rest =>
    cases hrest
    have hne : '>' ≠ d := by
      rintro rfl
      exact absurd hd (by decide)
    simp [front?, Candid.isNameStart, longest?, scriptGrammar, hne]
    rfl

theorem WrittenIn.arrow : WrittenIn script Any ['-', '>'] [(.fixed "->", "->")] := by
  have hkept : Kept .code .code ['-', '>'] :=
    (Kept.code (by decide) (by decide)).append (.code (by decide) (by decide))
  have hword : WrittenIn script Any ['-', '>'] [(.fixed "->", String.ofList ['-', '>'])] :=
    .token (List.cons_ne_nil _ _) (by rintro c ⟨⟩; rfl) (fun rest _ => rfl) hkept (by simp)
  exact hword

/-! ### Keywords -/

theorem isIdentifier_of_mem_keywords :
    ∀ s ∈ scriptGrammar.lexicon.keywords, Candid.isIdentifier s = true := by decide +kernel

theorem WrittenIn.keyword {s : String} (h : s ∈ scriptGrammar.lexicon.keywords) :
    WrittenIn script Apart s.toList [(.fixed s, s)] := by
  have hword : WrittenIn script Apart s.toList [(nameTerminal s, s)] :=
    .name (isIdentifier_of_mem_keywords s h)
  rwa [nameTerminal, if_pos (List.contains_iff_mem.mpr h)] at hword

theorem apart_blank (rest : List Char) : Apart (' ' :: rest) := fun c hc => by
  cases hc
  decide

end CanisterShell.Syntax
