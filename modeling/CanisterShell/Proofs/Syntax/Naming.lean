import CanisterShell.Proofs.Syntax.Joining
import CanisterShell.Proofs.Syntax.PrintedTypes
import Mathlib

/-!
# Written names and labels

A name is written as a single token, which is the name itself or a quotation of it, except for two
keywords that are not quoted (`exists_word_nameText`).  So a label is read back as the label of a field,
whatever the value or the type of the field is and however that is written (`ReadBack`).
-/

namespace CanisterShell

namespace Syntax

open Candid
open Rule (Derives lit)
open Phrase (nameTok textTok numberTok)

/-! ## Names -/

/-- A token that stands for a name: it is the name, or a text that quotes it. -/
def Token.Names (k : Token) (name : String) : Prop :=
  k.terminal = .name ∧ k.lexeme = name ∨
    k.terminal = .text ∧ Literal.unquoteText k.lexeme = .ok name

theorem scan_of_written {script : Bool} {ok : List Char → Prop} {cs : List Char} {ws : List Word}
    (h : WrittenIn script ok cs ws) (hok : ok []) :
    ∃ ks, ks.map Token.word = ws ∧ scan scriptGrammar.lexicon cs = ⟨ks, .complete⟩ :=
  Cuts.scan (fun at_ _ hrest => h.scanned at_ hrest) hok

theorem names_of_derives {ks : List Token} {name : String}
    (h : Derives Phrase.rules Phrase.anyName ks (.ok name)) : ∃ k, ks = [k] ∧ k.Names name := by
  obtain h | h := h.consists
  · obtain ⟨k, hk, hname⟩ := h.consists
    obtain ⟨rfl, hterminal⟩ := hk.consists
    exact ⟨k, rfl, .inl ⟨hterminal, (Except.ok.inj hname).symm⟩⟩
  · obtain ⟨k, hk, hname⟩ := h.consists
    obtain ⟨rfl, hterminal⟩ := hk.consists
    exact ⟨k, rfl, .inr ⟨hterminal, hname.symm⟩⟩

/-- A name is written as one word, which stands for it unless it is a keyword that is not quoted. -/
theorem exists_word_nameText (name : String) :
    ∃ k : Token, WrittenIn false Apart (nameText name).toList [k.word] ∧
      (k.Names name ↔ name ≠ "nan" ∧ name ≠ "inf") := by
  by_cases hname : name ≠ "nan" ∧ name ≠ "inf"
  case pos =>
    obtain ⟨ws, hw, hd⟩ := phrased_nameText hname
    obtain ⟨ks, hks, -⟩ := scan_of_written hw nofun
    obtain ⟨_, hder, rfl⟩ := hd ks hks
    obtain ⟨k, rfl, hk⟩ := names_of_derives hder
    subst hks
    exact ⟨k, hw, iff_of_true hk hname⟩
  case neg =>
    have hkeyword : name ∈ scriptGrammar.lexicon.keywords ∧ nameText name = name := by
      obtain rfl | rfl : name = "nan" ∨ name = "inf" := by
        by_contra hne
        exact hname (not_or.mp hne)
      all_goals decide +kernel
    refine ⟨⟨.fixed name, name, default⟩, ?_, iff_of_false ?_ hname⟩
    · rw [hkeyword.2]
      exact .keyword hkeyword.1
    · rintro (⟨hk, -⟩ | ⟨hk, -⟩) <;> cases hk

/-! ## Labels -/

def fieldLabel : Phrase (Attempt Label) :=
  (Phrase.nameLabel <$> nameTok) <|> (Phrase.textLabel <$> textTok)
    <|> (Phrase.numberLabel <$> numberTok)

theorem phrased_labelText {l : Label} (hl : l.Readable) :
    PhrasedIn false Apart (labelText l).toList fieldLabel (· = .ok l) := by
  cases l with
  | named name =>
    refine (phrased_nameText hl).rule fun ks a ha hPa => ?_
    rw [hPa] at ha
    obtain ⟨k, rfl, hk⟩ := names_of_derives ha
    have htoken : Derives Phrase.rules (.token k.terminal) [k] k := .token k
    obtain ⟨hterminal, rfl⟩ | ⟨hterminal, hname⟩ := hk
    · rw [hterminal] at htoken
      exact ⟨_, .orLeft (.apply _ htoken), rfl⟩
    · rw [hterminal] at htoken
      refine ⟨_, .orRight (.orLeft (.apply _ htoken)), ?_⟩
      rw [Phrase.textLabel, hname]
      rfl
  | numbered id => exact .orRight (.orRight ((phrased_numberLabel id).apply fun _ hk => hk))

section

variable {ks ls : List Token} {l : Label} {α : Type}

theorem labelled_ok {label : Token → Attempt Label} {k : Token} (h : .ok l = label k) (a : α) :
    (do return (some (← label k), ← Except.ok a) : Attempt (Option Label × α)) = .ok (some l, a) := by
  rw [← h]
  rfl

theorem derives_labelledValue {e : Exp} (hl : Derives Phrase.rules fieldLabel ks (.ok l))
    (he : Derives Phrase.rules (lit "=" *> Phrase.ref .exp) ls (.ok e)) :
    Derives Phrase.rules (Phrase.ref .field) (ks ++ ls) (.ok (some l, e)) := by
  obtain h | h := hl.consists
  · obtain ⟨k, hk, hlabel⟩ := h.consists
    rw [← labelled_ok hlabel]
    exact .ref (.orLeft (.app (.apply _ hk) (.orLeft (.apply _ he))))
  obtain h | h := h.consists
  · obtain ⟨k, hk, hlabel⟩ := h.consists
    rw [← labelled_ok hlabel]
    exact .ref (.orRight (.orLeft (.app (.apply _ hk) (.orLeft (.apply _ he)))))
  · obtain ⟨k, hk, hlabel⟩ := h.consists
    rw [← labelled_ok hlabel]
    exact .ref (.orRight (.orRight (.orLeft (.app (.apply _ hk) (.orLeft (.apply _ he))))))

theorem derives_labelledType {t : Ty} (hl : Derives Phrase.rules fieldLabel ks (.ok l))
    (ht : Derives Phrase.rules Phrase.ofType ls (.ok t)) :
    Derives Phrase.rules Phrase.typeField (ks ++ ls) (.ok (some l, t)) := by
  obtain h | h := hl.consists
  · obtain ⟨k, hk, hlabel⟩ := h.consists
    rw [← labelled_ok hlabel]
    exact .orLeft (.app (.apply _ hk) (.present ht))
  obtain h | h := h.consists
  · obtain ⟨k, hk, hlabel⟩ := h.consists
    rw [← labelled_ok hlabel]
    exact .orRight (.orLeft (.app (.apply _ hk) (.present ht)))
  · obtain ⟨k, hk, hlabel⟩ := h.consists
    rw [← labelled_ok hlabel]
    exact .orRight (.orRight (.orLeft (.app (.apply _ hk) ht)))

theorem derives_onlyField {f : TypeField} (h : Derives Phrase.rules Phrase.typeField ks (.ok f)) :
    Derives Phrase.rules (Phrase.ref .typeFields) ks (.ok [f]) := by
  have : Derives Phrase.rules (Phrase.ref .typeFields) (ks ++ []) (.ok [f]) :=
    .ref (.orLeft (.app (.apply _ h) (.orRight (.pure _))))
  rwa [List.append_nil] at this

end

theorem cuts_labelled {cs : List Char} {ws : List Word} {mark : Char} {s : String}
    (hmark : Cuts (·.head? = some ' ') [mark] [(.fixed s, s)]) (hcs : Cuts AtBreak cs ws)
    {ls : List Char} {xs : List Word} (hl : Cuts Apart ls xs) :
    Cuts AtBreak (ls ++ ' ' :: mark :: ' ' :: cs) (xs ++ (.fixed s, s) :: ws) := by
  have hblank : Cuts Any [' '] [] :=
    (WrittenIn.blank (by simp) : Written Any [' '] []).cuts
  have hbehind : Cuts AtBreak ([mark] ++ ([' '] ++ cs)) ([(.fixed s, s)] ++ ([] ++ ws)) :=
    hmark.append (hblank.append hcs fun _ _ => trivial) fun _ _ => rfl
  exact hl.append (hblank.append hbehind fun _ _ => trivial) fun rest _ => apart_blank _

theorem exists_of_labelled {n : Nonterminal} {l : Label} (hl : l.Readable) {mark : Char} {s : String}
    (hmark : Cuts (·.head? = some ' ') [mark] [(.fixed s, s)]) {cs : List Char} {m : Meaning n}
    (h : scriptGrammar.parse n cs = .ok m) :
    ∃ ks k ls ks', Derives Phrase.rules fieldLabel ks (.ok l) ∧ k.terminal = .fixed s ∧
      Derives Phrase.rules (Phrase.ref n) ls m ∧
      scan scriptGrammar.lexicon ((labelText l).toList ++ ' ' :: mark :: ' ' :: cs)
        = ⟨ks', .complete⟩ ∧ ks'.map Token.word = (ks ++ k :: ls).map Token.word := by
  obtain ⟨ws, hw, hd⟩ := phrased_labelText hl
  obtain ⟨ls, hls, hder⟩ := exists_of_parse h
  obtain ⟨ks, hks, -⟩ := scan_of_written hw nofun
  obtain ⟨_, hlabel, rfl⟩ := hd ks hks
  obtain ⟨ks', hks', hscan⟩ := (cuts_labelled hmark (.of_scan hls)
    fun at_ _ hrest => hw.scanned at_ hrest).scan nofun
  refine ⟨ks, ⟨.fixed s, s, default⟩, ls, ks', hlabel, rfl, hder.ref, hscan, ?_⟩
  rw [hks', List.map_append, List.map_cons, hks]
  rfl

theorem derives_marked {n : Nonterminal} {k : Token} {s : String} {ls : List Token} {m : Meaning n}
    (hk : k.terminal = .fixed s) (h : Derives Phrase.rules (Phrase.ref n) ls m) :
    Derives Phrase.rules (lit s *> Phrase.ref n) (k :: ls) m := by
  have htoken : Derives Phrase.rules (.token k.terminal) [k] k := .token k
  rw [hk] at htoken
  exact .map Prod.snd (.seq htoken h)

/-- A label that is read back wherever it is written: in front of a value or a type, and alone where a
case of null shows nothing else. -/
structure ReadBack (l : Label) : Prop where
  value (text : String) (e : Exp) (h : scriptGrammar.parse .exp text.toList = .ok (.ok e)) :
    scriptGrammar.parse .field (Value.fieldText l text).toList = .ok (.ok (some l, e))
  type (text : String) (t : Ty) (h : scriptGrammar.parse .datatype text.toList = .ok (.ok t)) :
    scriptGrammar.parse .typeFields (labelText l ++ " : " ++ text).toList
      = .ok (.ok [(some l, t)])
  nullValue (name : String) (h : Value.bareName? l = some name) : ∃ f,
    scriptGrammar.parse .field name.toList = .ok (.ok f) ∧
      Phrase.variantOf f = .ok (.variant l (.literal .null))
  nullType (name : String) (h : l = .named name) : ∃ f,
    scriptGrammar.parse .typeFields (labelText l).toList = .ok (.ok [f]) ∧
      Phrase.typeCase f = .ok (l, .null)

namespace ReadBack

variable {l : Label}

theorem fieldText (hl : l.Readable) {text : String} {e : Exp}
    (h : scriptGrammar.parse .exp text.toList = .ok (.ok e)) :
    scriptGrammar.parse .field (Value.fieldText l text).toList = .ok (.ok (some l, e)) := by
  have hmark : Cuts (·.head? = some ' ') ['='] [(.fixed "=", "=")] :=
    (WrittenIn.equals : Written _ ['='] _).cuts
  have hshape : (Value.fieldText l text).toList
      = (labelText l).toList ++ ' ' :: '=' :: ' ' :: text.toList := by simp [Value.fieldText]
  obtain ⟨ks, k, ls, ks', hlabel, hk, hder, hscan, hwords⟩ := exists_of_labelled hl hmark h
  obtain ⟨m, hm, hfollows⟩ :=
    parse_respelled (derives_labelledValue hlabel (derives_marked hk hder)) hscan hwords
  obtain ⟨_, rfl, rfl⟩ := hfollows _ rfl
  rw [hshape, hm]

theorem typeText (hl : l.Readable) {text : String} {t : Ty}
    (h : scriptGrammar.parse .datatype text.toList = .ok (.ok t)) :
    scriptGrammar.parse .typeFields (labelText l ++ " : " ++ text).toList
      = .ok (.ok [(some l, t)]) := by
  have hmark : Cuts (·.head? = some ' ') [':'] [(.fixed ":", ":")] :=
    (WrittenIn.mark (by decide) : Written Any [':'] _).cuts.allow fun _ _ => trivial
  have hshape : (labelText l ++ " : " ++ text).toList
      = (labelText l).toList ++ ' ' :: ':' :: ' ' :: text.toList := by simp
  obtain ⟨ks, k, ls, ks', hlabel, hk, hder, hscan, hwords⟩ := exists_of_labelled hl hmark h
  obtain ⟨m, hm, hfollows⟩ := parse_respelled
    (derives_onlyField (derives_labelledType hlabel (derives_marked hk hder))) hscan hwords
  obtain ⟨_, rfl, rfl⟩ := hfollows _ rfl
  rw [hshape, hm]

theorem bareName (hl : l.Readable) {name : String} (h : Value.bareName? l = some name) :
    ∃ f, scriptGrammar.parse .field name.toList = .ok (.ok f) ∧
      Phrase.variantOf f = .ok (.variant l (.literal .null)) := by
  cases l with
  | numbered id => cases h
  | named name' =>
    rw [Value.bareName?] at h
    split at h
    case isFalse => cases h
    case isTrue hbare =>
      cases h
      obtain ⟨ws, hw, hd⟩ := phrased_bareCase (isPlainName_of_nameText_eq hl hbare)
      obtain ⟨ks, hks, hscan⟩ := scan_of_written hw (by rintro _ ⟨⟩)
      obtain ⟨_, hder, rfl⟩ := hd ks hks
      exact ⟨_, Grammar.parse_of_derives Phrase.decides_scriptGrammar hscan hder.consists, rfl⟩

theorem caseText (hl : l.Readable) {name : String} (h : l = .named name) :
    ∃ f, scriptGrammar.parse .typeFields (labelText l).toList = .ok (.ok [f]) ∧
      Phrase.typeCase f = .ok (l, .null) := by
  obtain ⟨f, hf, hphrase⟩ := phrased_case (c := (l, .null)) hl (fun _ => ⟨name, h⟩) (shown_prim .null)
  have hfields : PhrasedIn false Apart (Syntax.caseText (l, .null)).toList
      (Phrase.rules .typeFields) (· = .ok [f]) := phrased_lastItem hphrase
  obtain ⟨m, hm, rfl⟩ := hfields.parse
  exact ⟨f, hm, hf⟩

/-- Of the labels, those are read back that are none of the two keywords. -/
theorem iff_readable : ReadBack l ↔ l.Readable := by
  constructor
  · intro h
    cases l with
    | numbered id => trivial
    | named name =>
      have hnull : scriptGrammar.parse .exp "null".toList = .ok (.ok (.literal .null)) := by cbv
      have hfield := congrArg Except.isOk (h.value "null" (.literal .null) hnull)
      constructor <;>
      · rintro rfl
        revert hfield
        decide +kernel
  · intro hl
    exact ⟨fun _ _ h => fieldText hl h, fun _ _ h => typeText hl h, fun _ h => bareName hl h,
      fun _ h => caseText hl h⟩

end ReadBack

/-- A name is written as one token that holds no comment and stands for the name, and a label is read back
wherever it is written; only of two keywords neither is so. -/
theorem nameText_exact (name : String) (l : Label) :
    (Source.blankComments (nameText name).toList = .ok (nameText name).toList ∧
      ∃ k, scan scriptGrammar.lexicon (nameText name).toList = ⟨[k], .complete⟩ ∧
        (k.Names name ↔ name ≠ "nan" ∧ name ≠ "inf")) ∧
      (ReadBack l ↔ l.Readable) := by
  refine ⟨?_, ReadBack.iff_readable⟩
  obtain ⟨k, hw, hk⟩ := exists_word_nameText name
  obtain ⟨ks, hks, hscan⟩ := scan_of_written hw nofun
  obtain ⟨k', rfl, hk'⟩ := List.map_eq_singleton_iff.mp hks
  obtain ⟨hterminal, hlexeme⟩ := Prod.mk.inj hk'
  refine ⟨hw.blankComments, k', hscan, ?_⟩
  rw [← hk, Token.Names, Token.Names, hterminal, hlexeme]

/-- One of the two keywords as a name: it is written without quotes, and is neither read as a name nor
as the label of a field. -/
theorem nameText_nan_fails :
    (¬∃ k, scan scriptGrammar.lexicon (nameText "nan").toList = ⟨[k], .complete⟩ ∧
      k.Names "nan") ∧
      ∀ f, scriptGrammar.parse .field (Value.fieldText (.named "nan") "null").toList ≠ .ok f := by
  have hscan : scan scriptGrammar.lexicon (nameText "nan").toList
      = ⟨[⟨.fixed "nan", "nan", ⟨0, 3, 1, 1⟩⟩], .complete⟩ := by cbv
  have hfield : (scriptGrammar.parse .field
      (Value.fieldText (.named "nan") "null").toList).isOk = false := by decide +kernel
  constructor
  · rintro ⟨k, hk, hnames⟩
    rw [hscan] at hk
    cases hk
    obtain ⟨hname, -⟩ | ⟨htext, -⟩ := hnames
    · cases hname
    · cases htext
  · intro f h
    rw [h] at hfield
    cases hfield

end Syntax

end CanisterShell
