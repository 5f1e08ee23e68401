import CanisterShell.Proofs.Syntax.Legible

/-!
# Printed values are phrases

A value that can be printed is legible however it is printed: on one line (`legible_flat`), or on
several where it does not fit on one (`legible_toTextAt`).
-/

namespace CanisterShell

namespace Syntax

open Candid
open Rule (Derives lit)
open Phrase (numberTok behindOperand)

/-! ## Options -/

theorem derives_unary {ks : List Token} {a : Attempt Exp}
    (h : Derives Phrase.rules operand ks a) : Derives Phrase.rules (Phrase.rules .unary) ks a := by
  obtain h | h := h.consists
  · exact .orLeft (.orRight (.orLeft h))
  obtain h | h := h.consists
  · exact .orLeft (.orRight (.orRight h))
  · exact .orRight h

theorem derives_exp {ks : List Token} {a : Attempt Exp}
    (h : Derives Phrase.rules annotated ks a) : Derives Phrase.rules (Phrase.rules .exp) ks a := by
  obtain ⟨x, hseq, hx⟩ := h.consists
  obtain ⟨ls, ls', rfl, hf, hb⟩ := hseq.consists
  obtain ⟨e, he, hxe⟩ := hf.consists
  rw [hx]
  dsimp only
  rw [hxe]
  exact .app (.apply _ (.ref (derives_unary he))) hb

theorem Legible.exp {v : Value} {cs : List Char} (h : Legible v cs) :
    Phrased Apart cs (Phrase.ref .exp) (· = .ok v.toExp) :=
  .ref (h.annotated.rule fun _ a ha hPa => ⟨a, derives_exp ha, hPa⟩)

theorem Legible.unary {v : Value} {cs : List Char} (h : Legible v cs) (hv : v.needsParens = false) :
    Phrased Apart cs (Phrase.ref .unary) (· = .ok v.toExp) :=
  .ref ((h.operand hv).rule fun _ a ha hPa => ⟨a, derives_unary ha, hPa⟩)

theorem apart_mark {c : Char} (hc : c ∈ [')', ';', ',', '\x7d']) (rest : List Char) :
    Apart (c :: rest) := fun d hd => by
  cases hd
  simp only [List.mem_cons, List.not_mem_nil, or_false] at hc
  obtain rfl | rfl | rfl | rfl := hc <;> decide

theorem Legible.parenthesized {v : Value} {cs : List Char} (h : Legible v cs) :
    Phrased Any (['('] ++ cs ++ [')']) (Phrase.ref .unary) (· = .ok v.toExp) := by
  refine .ref (.orRight (.orLeft ?_))
  iterate 17 apply PhrasedIn.orRight
  refine (((PhrasedIn.mark (by decide)).seqRight h.exp fun _ _ => trivial)).seqLeft
    (PhrasedIn.mark (by decide)) fun rest _ => apart_mark (by decide) rest

theorem legible_opt {v : Value} {text : String} (h : Legible v text.toList) :
    Legible (.opt v) (Value.optText v text).toList := by
  have hk : "opt" ∈ scriptGrammar.lexicon.keywords := by decide
  have item : ∃ cs, (Value.optText v text).toList = "opt".toList ++ ' ' :: cs ∧
      Phrased Apart cs (Phrase.ref .unary) (· = .ok v.toExp) := by
    rw [Value.optText]
    split
    case isTrue =>
      refine ⟨_, ?_, h.parenthesized.anywhere⟩
      rw [String.toList_append, String.toList_append]
      rfl
    case isFalse hv =>
      refine ⟨_, ?_, h.unary (Bool.eq_false_iff.mpr hv)⟩
      rw [String.toList_append]
      rfl
  obtain ⟨cs, hshape, hitem⟩ := item
  rw [hshape]
  refine .of_keyword ?_
  iterate 9 apply PhrasedIn.orRight
  refine .orLeft ((hitem.behindKeyword hk).apply fun e he => ?_)
  rw [he]
  rfl

/-! ## Lists and braces -/

section Braces

variable {script : Bool} {α : Type} {item : Phrase (Attempt α)} {more : Phrase (Attempt (List α))}

abbrev ItemizedIn (script : Bool) (item : Phrase (Attempt α)) (texts : List String) (as : List α) :
    Prop :=
  List.Forall₂ (fun t a => PhrasedIn script Apart t.toList item (· = .ok a)) texts as

/-- Texts of a script of which each is phrased as an item with a given meaning. -/
abbrev Itemized (item : Phrase (Attempt α)) (texts : List String) (as : List α) : Prop :=
  ItemizedIn true item texts as

theorem phrased_noItems {s : String} :
    PhrasedIn script Any [] (Phrase.separated s more item) (· = .ok []) :=
  .empty (.orRight (.pure _))

theorem phrased_lastItem {s : String} {cs : List Char} {a : α}
    (h : PhrasedIn script Apart cs item (· = .ok a)) :
    PhrasedIn script Apart cs (Phrase.separated s more item) (· = .ok [a]) := by
  have hend : PhrasedIn script Apart [] ((lit s *> more) <|> pure (.ok [])) (· = .ok []) :=
    (PhrasedIn.empty (.orRight (.pure _))).anywhere
  have : PhrasedIn script Apart (cs ++ []) (Phrase.separated s more item) (· = .ok [a]) :=
    .orLeft (h.map₂ hend (fun _ h => h) fun x rest hx hrest => by rw [hx, hrest]; rfl)
  rwa [List.append_nil] at this

section

variable (mark : Char) (hmark : mark ∈ [';', ','])

include hmark

theorem phrased_item {ok : List Char → Prop} {cs ds : List Char} {a : α} {as : List α}
    (h : PhrasedIn script Apart cs item (· = .ok a))
    (hmore : PhrasedIn script ok ds more (· = .ok as)) :
    PhrasedIn script ok (cs ++ ([mark] ++ ds)) (Phrase.separated mark.toString more item)
      (· = .ok (a :: as)) := by
  have hword : mark ∈ ['(', ')', ':', ';', '\x7b', '\x7d', '.', ','] := by
    revert hmark
    simp only [List.mem_cons, List.not_mem_nil, or_false]
    tauto
  have happart : mark ∈ [')', ';', ',', '\x7d'] := by
    revert hmark
    simp only [List.mem_cons, List.not_mem_nil, or_false]
    tauto
  have hrest : PhrasedIn script ok ([mark] ++ ds) ((lit mark.toString *> more) <|> pure (.ok []))
      (· = .ok as) :=
    .orLeft ((PhrasedIn.mark hword).seqRight hmore fun _ _ => trivial)
  refine .orLeft (h.map₂ hrest (fun rest _ => apart_mark happart _) fun x rest hx hrest => ?_)
  rw [hx, hrest]
  rfl

theorem phrased_intercalate
    (hmore : ∀ {ks m}, Derives Phrase.rules (Phrase.separated mark.toString more item) ks m →
      Derives Phrase.rules more ks m)
    {texts : List String} {as : List α} (h : ItemizedIn script item texts as) (hne : texts ≠ []) :
    PhrasedIn script Apart ((mark.toString ++ " ").intercalate texts).toList
      (Phrase.separated mark.toString more item) (· = .ok as) := by
  induction h with
  | nil => exact absurd rfl hne
  | @cons t a texts as ht h ih =>
    cases h with
    | nil => exact phrased_lastItem ht
    | @cons u b texts as hu h =>
      have hrest := ((ih (List.cons_ne_nil _ _)).rule fun _ a ha hPa =>
        ⟨a, hmore ha, hPa⟩).behindBlanks [' '] (by simp)
      have hshape : ((mark.toString ++ " ").intercalate (t :: u :: texts)).toList
          = t.toList ++ ([mark]
            ++ ([' '] ++ ((mark.toString ++ " ").intercalate (u :: texts)).toList)) := by
        rw [String.intercalate_cons_cons, String.toList_append, String.toList_append,
          String.toList_append, List.append_assoc, List.append_assoc]
        simp [Char.toString]
      rw [hshape]
      exact phrased_item mark hmark ht hrest

end

variable (hmore : ∀ {ks m}, Derives Phrase.rules (Phrase.separated ";" more item) ks m →
  Derives Phrase.rules more ks m)

include hmore

theorem PhrasedIn.asMore {ok : List Char → Prop} {cs : List Char} {P : Attempt (List α) → Prop}
    (h : PhrasedIn script ok cs (Phrase.separated ";" more item) P) :
    PhrasedIn script ok cs more P :=
  h.rule fun _ a ha hPa => ⟨a, hmore ha, hPa⟩

theorem phrased_lines {texts : List String} {as : List α} (h : ItemizedIn script item texts as)
    (pad : Nat) :
    PhrasedIn script Any (String.join (texts.map fun l =>
        String.ofList (List.replicate pad ' ') ++ l ++ ";\n")).toList
      (Phrase.separated ";" more item) (· = .ok as) := by
  induction h with
  | nil => exact phrased_noItems
  | @cons t a texts as ht h ih =>
    have hrest := (ih.asMore hmore).behindBlanks ['\n'] (by simp)
    have hitem := (phrased_item ';' (by decide) ht hrest).behindBlanks (List.replicate pad ' ')
      fun c hc => .inl (List.eq_of_mem_replicate hc)
    have hshape (s : String) : (String.ofList (List.replicate pad ' ') ++ t ++ ";\n" ++ s).toList
        = List.replicate pad ' ' ++ (t.toList ++ ([';'] ++ (['\n'] ++ s.toList))) := by simp
    rw [List.map_cons, String.join_cons, hshape]
    exact hitem

omit hmore in
theorem PhrasedIn.braced {β : Type} {ok : List Char → Prop} {cs : List Char} {p : Phrase β}
    {P : β → Prop} (h : PhrasedIn script ok cs p P) (hok : ∀ rest, ok ('\x7d' :: rest)) :
    PhrasedIn script Any (['\x7b'] ++ cs ++ ['\x7d']) (lit "\x7b" *> p <* lit "\x7d") P :=
  ((PhrasedIn.mark (by decide)).seqRight h fun _ _ => trivial).seqLeft (PhrasedIn.mark (by decide))
    fun rest _ => hok rest

omit hmore in
/-- A keyword in front of braces is read first, or together with the brace that opens. -/
theorem PhrasedIn.behindHead {β : Type} {head : String} {cs : List Char} {p : Phrase β}
    {P : β → Prop} (hk : head ∈ scriptGrammar.lexicon.keywords)
    (h : PhrasedIn script Any cs (lit "\x7b" *> p <* lit "\x7d") P) :
    PhrasedIn script Any (head.toList ++ ' ' :: cs) (lit head *> lit "\x7b" *> p <* lit "\x7d") P := by
  refine (h.behindKeyword hk).rule fun ks a ha hPa => ⟨a, ?_, hPa⟩
  obtain ⟨x, hx, rfl⟩ := ha.consists
  obtain ⟨ks₁, ls, rfl, hhead, hbraces⟩ := hx.consists
  obtain ⟨y, hy, hxy⟩ := hbraces.consists
  obtain ⟨ms, ks₄, rfl, hopened, hclose⟩ := hy.consists
  obtain ⟨z, hz, hyz⟩ := hopened.consists
  obtain ⟨ks₂, ks₃, rfl, hopen, hp⟩ := hz.consists
  rw [hxy, hyz, ← List.append_assoc, ← List.append_assoc]
  exact .map Prod.fst (.seq (.map Prod.snd (.seq (.map Prod.snd (.seq hhead hopen)) hp)) hclose)

omit hmore in
theorem PhrasedIn.inBraces {β : Type} {ok : List Char → Prop} {head : String} {cs : List Char}
    {p : Phrase β} {P : β → Prop} (hk : head ∈ scriptGrammar.lexicon.keywords)
    (h : PhrasedIn script ok cs p P) (hok : ∀ rest, ok ('\x7d' :: rest)) :
    PhrasedIn script Any ((head.toList ++ ' ' :: ['\x7b']) ++ cs ++ ['\x7d'])
      (lit head *> lit "\x7b" *> p <* lit "\x7d") P := by
  have := (h.braced hok).behindHead hk
  rwa [List.append_assoc, List.append_assoc]

omit hmore in
theorem toList_braced (head : String) (texts : List String) :
    (Ty.braced head texts).toList = head.toList ++ ' ' :: (['\x7b'] ++
      (if texts.isEmpty then [] else [' '] ++ ("; ".intercalate texts).toList ++ [' ']) ++ ['\x7d']) := by
  rw [Ty.braced]
  split <;> simp

theorem phrased_braces {texts : List String} {as : List α} (h : ItemizedIn script item texts as) :
    PhrasedIn script Any (['\x7b'] ++
        (if texts.isEmpty then [] else [' '] ++ ("; ".intercalate texts).toList ++ [' ']) ++ ['\x7d'])
      (lit "\x7b" *> more <* lit "\x7d") (· = .ok as) := by
  split
  case isTrue he =>
    rw [List.isEmpty_iff] at he
    subst he
    cases h
    exact (phrased_noItems.asMore hmore).braced fun _ => trivial
  case isFalse he =>
    have hitems := phrased_intercalate ';' (by decide) hmore h fun hnil => he (by rw [hnil]; rfl)
    exact (((hitems.asMore hmore).behindBlanks [' '] (by simp)).beforeBlanks [' '] (by simp)
      fun rest => apart_blank rest).braced fun _ => trivial

theorem phrased_braced {head : String} (hk : head ∈ scriptGrammar.lexicon.keywords)
    {texts : List String} {as : List α} (h : ItemizedIn script item texts as) :
    PhrasedIn script Any (Ty.braced head texts).toList
      (lit head *> lit "\x7b" *> more <* lit "\x7d") (· = .ok as) := by
  rw [toList_braced]
  exact (phrased_braces hmore h).behindHead hk

theorem phrased_block (layout : Layout) (level : Nat) {head : String}
    (hk : head ∈ scriptGrammar.lexicon.keywords) {texts : List String} {as : List α}
    (h : ItemizedIn script item texts as) :
    PhrasedIn script Any (Value.block layout head texts level).toList
      (lit head *> lit "\x7b" *> more <* lit "\x7d") (· = .ok as) := by
  have hitems := ((phrased_lines hmore h ((level + 1) * layout.indent)).asMore hmore).behindBlanks
    ['\n'] (by simp)
  have hpad := hitems.beforeBlanks (List.replicate (level * layout.indent) ' ')
    (fun c hc => .inl (List.eq_of_mem_replicate hc)) fun _ => trivial
  have hshape : (Value.block layout head texts level).toList
      = (head.toList ++ ' ' :: ['\x7b'])
        ++ (['\n'] ++ (String.join (texts.map fun l => String.ofList
            (List.replicate ((level + 1) * layout.indent) ' ') ++ l ++ ";\n")).toList
          ++ List.replicate (level * layout.indent) ' ') ++ ['\x7d'] := by
    simp [Value.block]
  rw [hshape]
  exact hpad.inBraces hk fun _ => trivial

end Braces

/-! ## Fields -/

theorem derives_field {ks : List Token} {a : Attempt Exp} (h : Derives Phrase.rules annotated ks a) :
    Derives Phrase.rules Phrase.field ks (Phrase.field.positional a) := by
  obtain ⟨x, hseq, hx⟩ := h.consists
  obtain ⟨ls, ls', rfl, hf, hb⟩ := hseq.consists
  obtain ⟨e, he, hxe⟩ := hf.consists
  rw [hx]
  dsimp only
  rw [hxe]
  obtain h | h := he.consists
  · obtain ⟨k, hk, rfl⟩ := h.consists
    exact .orRight (.orLeft (.app (.apply _ hk) (.orRight (.apply _ hb))))
  obtain h | h := h.consists
  · obtain ⟨k, hk, rfl⟩ := h.consists
    exact .orRight (.orRight (.orLeft (.app (.apply _ hk) (.orRight (.apply _ hb)))))
  · exact .orRight (.orRight (.orRight (.app (.apply _ h) hb)))

theorem Legible.field {v : Value} {cs : List Char} (h : Legible v cs) :
    Phrased Apart cs (Phrase.ref .field) (· = .ok (none, v.toExp)) :=
  .ref (h.annotated.rule fun _ a ha hPa => ⟨_, derives_field ha, by rw [hPa]; rfl⟩)

theorem phrased_equals {cs : List Char} {e : Exp}
    (h : Phrased Apart cs (Phrase.ref .exp) (· = .ok e)) :
    Phrased Apart (' ' :: '=' :: ' ' :: cs) (lit "=" *> Phrase.ref .exp) (· = .ok e) := by
  have hequals : Phrased (·.head? = some ' ') ['='] (lit "=") fun _ => True :=
    (PhrasedIn.token .equals).imp fun _ _ => trivial
  have : Phrased Apart (['='] ++ ([' '] ++ cs)) (lit "=" *> Phrase.ref .exp) (· = .ok e) :=
    hequals.seqRight (h.behindBlanks [' '] (by simp)) fun _ _ => rfl
  exact this.behindBlanks [' '] (by simp)

theorem phrased_labelled {cs : List Char} {e : Exp}
    (h : Phrased Apart cs (Phrase.ref .exp) (· = .ok e)) (label : Token → Attempt Label) :
    Phrased Apart (' ' :: '=' :: ' ' :: cs) (Phrase.field.labelled label)
      fun rest => ∀ k l, label k = .ok l → rest k = .ok (some l, e) := by
  refine (phrased_equals h).apply fun e' he k l hl => ?_
  rw [hl, he]
  rfl

theorem mem_reservedNames : ∀ s ∈ scriptGrammar.lexicon.keywords,
    s = "nan" ∨ s = "inf" ∨ reservedNames.contains s = true := by decide +kernel

theorem isPlainName_of_nameText {name : String} (hname : name ≠ "nan" ∧ name ≠ "inf")
    (h : (isIdentifier name && !reservedNames.contains name) = true) : IsPlainName name := by
  obtain ⟨hid, hreserved⟩ := Bool.and_eq_true_iff.mp h
  refine ⟨hid, Bool.eq_false_iff.mpr fun hk => ?_⟩
  obtain rfl | rfl | hr := mem_reservedNames name (List.contains_iff_mem.mp hk)
  · exact hname.1 rfl
  · exact hname.2 rfl
  · rw [hr] at hreserved
    cases hreserved

theorem phrased_numberLabel {script : Bool} (id : Nat) :
    PhrasedIn script Apart (toString id).toList numberTok (Phrase.numberLabel · = .ok (.numbered id)) := by
  have hdigits := digits_toDigits id
  obtain ⟨c, rest, hcs, hc, hrest⟩ := (spells_toDigits id).head
  have hword : PhrasedIn script Apart (toString id).toList numberTok (·.lexeme = toString id) := by
    rw [Nat.toString_eq_ofList_toDigits, String.toList_ofList, hcs]
    exact .token (.digits hc hrest)
  refine hword.imp fun k hk => ?_
  have hall : (Nat.toDigits 10 id).all Char.isDigit = true := List.all_eq_true.mpr hdigits.2
  rw [Phrase.numberLabel, hk, Nat.toString_eq_ofList_toDigits, String.toList_ofList, if_pos hall,
    digitNumber_toDigits]

theorem phrased_field {l : Label} (hl : l.Printable) {text : String} {e : Exp}
    (h : Phrased Apart text.toList (Phrase.ref .exp) (· = .ok e)) :
    Phrased Apart (Value.fieldText l text).toList (Phrase.ref .field) (· = .ok (some l, e)) := by
  have hshape : (Value.fieldText l text).toList
      = (labelText l).toList ++ (' ' :: '=' :: ' ' :: text.toList) := by simp [Value.fieldText]
  have hlabelled (label : Token → Attempt Label) := phrased_labelled h label
  rw [hshape]
  cases l with
  | named name =>
    rw [labelText, nameText]
    split
    case isTrue hplain =>
      obtain ⟨hid, hk⟩ := isPlainName_of_nameText hl.2 hplain
      refine .ref (.orLeft ((PhrasedIn.name hid hk).map₂ (.orLeft (hlabelled _))
        (fun rest _ => apart_blank _) fun k rest hk hrest => hrest k _ ?_))
      rw [Phrase.nameLabel, hk]
    case isFalse =>
      refine .ref (.orRight (.orLeft ((phrased_quoteText fun _ => hl.1).map₂ (.orLeft (hlabelled _))
        (fun rest _ => trivial) fun k rest hk hrest => hrest k _ ?_)))
      rw [Phrase.textLabel, hk, unquoteText_quoteText]
      rfl
  | numbered id =>
    exact .ref (.orRight (.orRight (.orLeft ((phrased_numberLabel id).map₂ (.orLeft (hlabelled _))
      (fun rest _ => apart_blank _) fun k rest hk hrest => hrest k _ hk))))

theorem phrased_bareCase {name : String} (h : IsPlainName name) :
    Phrased Apart name.toList (Phrase.ref .field) (· = .ok (none, .path name [])) := by
  have hbehind : Phrased Apart [] Phrase.behindName
      (· = fun k => .ok (.path k.lexeme [])) := (PhrasedIn.empty (.orRight (.apply _ .manyNil))).anywhere
  have hpath : Phrased Apart ([] ++ [])
      ((fun head behind k => Phrase.field.positional (behind (head k)))
        <$> Phrase.behindName <*> behindOperand)
      (· = fun k => Phrase.field.positional (.ok (.path k.lexeme []))) :=
    hbehind.map₂ phrased_nothing (fun _ h => h) fun head behind hh hb => by rw [hh, hb]; rfl
  have : Phrased Apart (name.toList ++ []) (Phrase.ref .field) (· = .ok (none, .path name [])) :=
    .ref (.orLeft ((PhrasedIn.name h.1 h.2).map₂ (.orRight hpath) (fun _ h => h)
      fun k rest hk hrest => by rw [hrest, ← hk]; rfl))
  rwa [List.append_nil] at this

theorem length_le_flatMap_quoteChar (cs : List Char) :
    cs.length ≤ (cs.flatMap quoteChar).length := by
  induction cs with
  | nil => exact Nat.le_refl _
  | cons c cs ih =>
    have : 0 < (quoteChar c).length := by
      simp only [quoteChar]
      split_ifs <;> simp
    rw [List.flatMap_cons, List.length_append, List.length_cons]
    omega

theorem quoteText_ne (s : String) : quoteText s ≠ s := fun h => by
  have hlen := congrArg (·.toList.length) h
  simp only [quoteText, String.toList_ofList, List.length_append, List.length_cons,
    List.length_nil] at hlen
  have := length_le_flatMap_quoteChar s.toList
  omega

theorem isPlainName_of_nameText_eq {name : String} (hname : name ≠ "nan" ∧ name ≠ "inf")
    (h : nameText name = name) : IsPlainName name := by
  rw [nameText] at h
  split at h
  case isTrue hplain => exact isPlainName_of_nameText hname hplain
  case isFalse => exact absurd h (quoteText_ne name)

theorem isPlainName_of_bareName? {l : Label} {name : String} (hl : l.Printable)
    (h : Value.bareName? l = some name) : l = .named name ∧ IsPlainName name := by
  cases l with
  | numbered id => cases h
  | named name' =>
    rw [Value.bareName?] at h
    split at h
    case isFalse => cases h
    case isTrue hbare =>
      cases h
      exact ⟨rfl, isPlainName_of_nameText_eq hl.2 hbare⟩

theorem legible_variant {l : Label} (hl : l.Printable) {v : Value} {text : String}
    (h : Legible v text.toList) (index : Nat) :
    Legible (.variant l v index) (Value.variantText l v.isNull text).toList := by
  have hk : "variant" ∈ scriptGrammar.lexicon.keywords := by decide
  have case : ∃ (body : String) (f : Option Label × Exp),
      Value.variantText l v.isNull text = "variant \x7b " ++ body ++ " \x7d" ∧
      Phrased Apart body.toList (Phrase.ref .field) (· = .ok f) ∧
      Phrase.variantOf f = .ok (.variant l v.toExp) := by
    match hv : v.isNull, hname : Value.bareName? l with
    | true, some name =>
      obtain ⟨rfl, hplain⟩ := isPlainName_of_bareName? hl hname
      have hnull : v = .null := by cases v <;> first | rfl | cases hv
      refine ⟨name, _, ?_, phrased_bareCase hplain, ?_⟩
      · simp [Value.variantText, hname]
      · rw [hnull]
        rfl
    | true, none | false, _ =>
      refine ⟨_, _, ?_, phrased_field hl h.exp, rfl⟩
      simp [Value.variantText, hname]
  obtain ⟨body, f, htext, hbody, hf⟩ := case
  have hshape : (Value.variantText l v.isNull text).toList
      = ("variant".toList ++ ' ' :: ['\x7b']) ++ ([' '] ++ body.toList ++ [' ']) ++ ['\x7d'] := by
    rw [htext]
    simp
  rw [hshape]
  have hbraces := ((hbody.behindBlanks [' '] (by simp)).beforeBlanks [' '] (by simp)
    fun rest => apart_blank rest).inBraces hk fun _ => trivial
  refine .of_keyword ?_
  iterate 12 apply PhrasedIn.orRight
  refine .orLeft (hbraces.anywhere.apply fun f' hf' => ?_)
  rw [hf']
  exact hf

/-! ## Values -/

theorem legible_vec {items : List Value} {cs : List Char}
    (h : Phrased Any cs (lit "vec" *> lit "\x7b" *> Phrase.ref .items <* lit "\x7d")
      (· = .ok (Value.toExps items))) : Legible (.vec items) cs := by
  refine .of_keyword ?_
  iterate 10 apply PhrasedIn.orRight
  refine .orLeft (h.anywhere.apply fun es hes => ?_)
  rw [hes]
  rfl

def shownFields (fields : List (Label × Value)) : List (Option Label × Exp) :=
  if countsFrom 0 fields then Value.bareExps fields else Value.fieldExps fields

theorem legible_record {fields : List (Label × Value)} {cs : List Char}
    (h : Phrased Any cs (lit "record" *> lit "\x7b" *> Phrase.ref .fields <* lit "\x7d")
      (· = .ok (shownFields fields))) : Legible (.record fields) cs := by
  refine .of_keyword ?_
  iterate 11 apply PhrasedIn.orRight
  refine .orLeft (h.anywhere.apply fun fs hfs => ?_)
  rw [hfs]
  rfl

section Items

variable {text : Value → String}

theorem itemized_items {items : List Value} (h : ∀ v ∈ items, Legible v (text v).toList) :
    Itemized (Phrase.ref .exp) (items.map text) (Value.toExps items) := by
  induction items with
  | nil => exact .nil
  | cons v items ih =>
    exact .cons (h v (.head _)).exp (ih fun w hw => h w (.tail _ hw))

theorem itemized_bareFields {fields : List (Label × Value)}
    (h : ∀ f ∈ fields, Legible f.2 (text f.2).toList) :
    Itemized (Phrase.ref .field) (fields.map fun f => text f.2) (Value.bareExps fields) := by
  induction fields with
  | nil => exact .nil
  | cons f fields ih =>
    exact .cons (h f (.head _)).field (ih fun g hg => h g (.tail _ hg))

theorem itemized_fields {fields : List (Label × Value)} (hl : ∀ f ∈ fields, f.1.Printable)
    (h : ∀ f ∈ fields, Legible f.2 (text f.2).toList) :
    Itemized (Phrase.ref .field) (fields.map fun f => Value.fieldText f.1 (text f.2))
      (Value.fieldExps fields) := by
  induction fields with
  | nil => exact .nil
  | cons f fields ih =>
    exact .cons (phrased_field (hl f (.head _)) (h f (.head _)).exp)
      (ih (fun g hg => hl g (.tail _ hg)) fun g hg => h g (.tail _ hg))

def shownTexts (text : Value → String) (fields : List (Label × Value)) : List String :=
  if countsFrom 0 fields then fields.map fun f => text f.2
  else fields.map fun f => Value.fieldText f.1 (text f.2)

theorem itemized_shown {fields : List (Label × Value)} (hl : ∀ f ∈ fields, f.1.Printable)
    (h : ∀ f ∈ fields, Legible f.2 (text f.2).toList) :
    Itemized (Phrase.ref .field) (shownTexts text fields) (shownFields fields) := by
  rw [shownTexts, shownFields]
  split
  · exact itemized_bareFields h
  · exact itemized_fields hl h

end Items

theorem eq_map_of_cons {α β : Type} {f : List α → List β} {g : α → β} (hnil : f [] = [])
    (hcons : ∀ a as, f (a :: as) = g a :: f as) (as : List α) : f as = as.map g := by
  induction as with
  | nil => exact hnil
  | cons a as ih => rw [hcons, ih, List.map_cons]

theorem flats_eq (items : List Value) : Value.flats items = items.map Value.flat :=
  eq_map_of_cons rfl (fun _ _ => rfl) items

theorem bareFlats_eq (fields : List (Label × Value)) :
    Value.bareFlats fields = fields.map fun f => f.2.flat :=
  eq_map_of_cons rfl (fun _ _ => rfl) fields

theorem fieldFlats_eq (fields : List (Label × Value)) :
    Value.fieldFlats fields = fields.map fun f => Value.fieldText f.1 f.2.flat :=
  eq_map_of_cons rfl (fun _ _ => rfl) fields

theorem texts_eq (layout : Layout) (level : Nat) (items : List Value) :
    Value.texts layout level items = items.map (Value.toTextAt layout level) :=
  eq_map_of_cons rfl (fun _ _ => rfl) items

theorem bareTexts_eq (layout : Layout) (level : Nat) (fields : List (Label × Value)) :
    Value.bareTexts layout level fields = fields.map fun f => f.2.toTextAt layout level :=
  eq_map_of_cons rfl (fun _ _ => rfl) fields

theorem fieldTexts_eq (layout : Layout) (level : Nat) (fields : List (Label × Value)) :
    Value.fieldTexts layout level fields
      = fields.map fun f => Value.fieldText f.1 (f.2.toTextAt layout level) :=
  eq_map_of_cons rfl (fun _ _ => rfl) fields

theorem derives_items {ks : List Token} {m : Attempt (List Exp)}
    (h : Derives Phrase.rules (Phrase.separated ";" (Phrase.ref .items) (Phrase.ref .exp)) ks m) :
    Derives Phrase.rules (Phrase.ref .items) ks m := .ref h

theorem derives_fields {ks : List Token} {m : Attempt (List (Option Label × Exp))}
    (h : Derives Phrase.rules (Phrase.separated ";" (Phrase.ref .fields) (Phrase.ref .field)) ks m) :
    Derives Phrase.rules (Phrase.ref .fields) ks m := .ref h

/-- A value on one line. -/
theorem legible_flat {v : Value} (h : v.Printable) : Legible v v.flat.toList := by
  induction h with
  | null | reserved | nothing => exact legible_null rfl
  | bool b => exact legible_bool b
  | text h => exact legible_text h
  | number n => exact legible_number n
  | int kind n => exact legible_int kind n
  | opt _ ih => exact legible_opt ih
  | vec _ ih =>
    rw [Value.flat, flats_eq]
    exact legible_vec (phrased_braced derives_items (by decide) (itemized_items ih))
  | blob h => exact legible_blob h
  | @record fields hl _ ih =>
    have htexts : (if countsFrom 0 fields then Value.bareFlats fields else Value.fieldFlats fields)
        = shownTexts Value.flat fields := by rw [bareFlats_eq, fieldFlats_eq, shownTexts]
    rw [Value.flat, htexts]
    exact legible_record (phrased_braced derives_fields (by decide) (itemized_shown hl ih))
  | variant index hl _ ih => exact legible_variant hl ih index
  | principal p => exact legible_principal p
  | service p => exact legible_service p
  | func p h => exact legible_func p h

theorem legible_fitting {v : Value} (h : v.Printable) {layout : Layout} {level : Nat}
    {other : String} (hother : Legible v other.toList) :
    Legible v (Value.fitting layout level v other).toList := by
  rw [Value.fitting]
  split
  · exact legible_flat h
  · exact hother

/-- A value in any layout. -/
theorem legible_toTextAt {v : Value} (h : v.Printable) (layout : Layout) (level : Nat) :
    Legible v (v.toTextAt layout level).toList := by
  induction h generalizing level with
  | null | reserved | nothing => exact legible_null rfl
  | bool b => exact legible_bool b
  | text h => exact legible_text h
  | number n => exact legible_number n
  | int kind n => exact legible_int kind n
  | opt hv ih => exact legible_fitting (.opt hv) (legible_opt (ih level))
  | vec hv ih =>
    rw [Value.toTextAt, texts_eq]
    exact legible_fitting (.vec hv) (legible_vec (phrased_block derives_items layout level
      (by decide) (itemized_items fun v hv => ih v hv _)))
  | blob h => exact legible_blob h
  | @record fields hl hv ih =>
    have htexts : (if countsFrom 0 fields then Value.bareTexts layout (level + 1) fields
          else Value.fieldTexts layout (level + 1) fields)
        = shownTexts (Value.toTextAt layout (level + 1)) fields := by
      rw [bareTexts_eq, fieldTexts_eq, shownTexts]
    rw [Value.toTextAt, htexts]
    exact legible_fitting (.record hl hv) (legible_record (phrased_block derives_fields layout level
      (by decide) (itemized_shown hl fun f hf => ih f hf _)))
  | variant index hl hv ih =>
    exact legible_fitting (.variant index hl hv) (legible_variant hl (ih level) index)
  | principal p => exact legible_principal p
  | service p => exact legible_service p
  | func p h => exact legible_func p h

end Syntax

end CanisterShell
