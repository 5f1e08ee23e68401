import CanisterShell.Proofs.Candid.Ordered
import CanisterShell.Proofs.Syntax.Asking
import CanisterShell.Proofs.Syntax.Printing

/-!
# Printed types are phrases

A type shows itself as a name, or as a phrase that begins with a keyword (`Shown`), and either form is
read wherever a type may stand: alone, as an argument, as a field without a label.  So the text of a
type is read as the type (`parseType_toText`), whatever its labels and the names of its methods are, as
long as they are none of the two keywords that are not quoted; only a case of null has to have a name,
for a number alone is no case (`parseType_numberedCase_fails`).
-/

namespace CanisterShell

namespace Candid

/-- A label whose text is read as a label of a type. -/
def Label.Readable : Label → Prop
  | .named name => name ≠ "nan" ∧ name ≠ "inf"
  | .numbered _ => True

/-- A type whose text is read as a type. -/
inductive Ty.Readable : Ty → Prop
  | prim (p : Prim) : Readable (.prim p)
  | var {name : String} : IsPlainName name → Prim.ofName? name = none → Readable (.var name)
  | opt {item : Ty} : Readable item → Readable (.opt item)
  | vec {item : Ty} : Readable item → Readable (.vec item)
  | record {fields : List (Label × Ty)} : (∀ f ∈ fields, f.1.Readable) →
    (∀ f ∈ fields, Readable f.2) → Readable (.record fields)
  | variant {cases : List (Label × Ty)} : (∀ c ∈ cases, c.1.Readable) →
    (∀ c ∈ cases, c.2.isNull = true → ∃ name, c.1 = .named name) → (∀ c ∈ cases, Readable c.2) →
    Readable (.variant cases)
  | func {args results : List Ty} (modes : List Mode) : (∀ t ∈ args, Readable t) →
    (∀ t ∈ results, Readable t) → Readable (.func args results modes)
  | service {methods : List (String × Ty)} : (∀ m ∈ methods, m.1 ≠ "nan" ∧ m.1 ≠ "inf") →
    (∀ m ∈ methods, (∃ args results modes, m.2 = .func args results modes) ∨ ∃ name, m.2 = .var name) →
    (∀ m ∈ methods, Readable m.2) → Readable (.service methods)

end Candid

namespace Syntax

open Candid
open Rule (Derives lit optional)
open Phrase (nameTok textTok numberTok)

/-! ## Names and other phrases -/

/-- A type shows itself as a name that means it, or as a phrase of another form. -/
inductive Shown (t : Ty) : Prop
  | name (hplain : IsPlainName t.toText) (hty : Ty.ofName t.toText = t)
  | structural (h : PhrasedIn false Apart t.toText.toList Phrase.structuralType (· = .ok t))

variable {t : Ty}

theorem phrased_unfollowed {α β : Type} {tok : Phrase Token} {p : Phrase β}
    {f : Token → Option β → α} {a : α} {cs : List Char} {s : String}
    (htok : PhrasedIn false Apart cs tok (·.lexeme = s))
    (hf : ∀ k : Token, k.lexeme = s → f k none = a) :
    PhrasedIn false Apart cs (f <$> tok <*> optional p) (· = a) := by
  have hnothing : PhrasedIn false Apart [] (optional p) (· = none) :=
    (PhrasedIn.empty .absent).anywhere
  have : PhrasedIn false Apart (cs ++ []) (f <$> tok <*> optional p) (· = a) :=
    htok.map₂ hnothing (fun _ h => h) fun k t? hk ht => by
      rw [ht]
      exact hf k hk
  rwa [List.append_nil] at this

namespace Shown

theorem datatype (h : Shown t) :
    PhrasedIn false Apart t.toText.toList (Phrase.ref .datatype) (· = .ok t) := by
  cases h with
  | name hplain hty =>
    exact .ref (.orLeft ((PhrasedIn.name hplain.1 hplain.2).apply fun k hk => by rw [hk, hty]))
  | structural h => exact .ref (.orRight h)

theorem typeArg (h : Shown t) :
    PhrasedIn false Apart t.toText.toList Phrase.typeArg (· = .ok t) := by
  cases h with
  | name hplain hty =>
    refine .orLeft (phrased_unfollowed (.name hplain.1 hplain.2) fun k hk => ?_)
    rw [hk, hty]
    rfl
  | structural h => exact .orRight h

theorem typeField (h : Shown t) :
    PhrasedIn false Apart t.toText.toList Phrase.typeField (· = .ok (none, t)) := by
  cases h with
  | name hplain hty =>
    refine .orLeft (phrased_unfollowed (.name hplain.1 hplain.2) fun k hk => ?_)
    rw [← hty, ← hk]
  | structural h =>
    refine .orRight (.orRight (.orRight (h.apply fun t' ht' => ?_)))
    rw [ht']
    rfl

theorem ofType (h : Shown t) :
    PhrasedIn false Apart (' ' :: ':' :: ' ' :: t.toText.toList) Phrase.ofType (· = .ok t) := by
  have : PhrasedIn false Apart ([':'] ++ ([' '] ++ t.toText.toList)) Phrase.ofType (· = .ok t) :=
    (PhrasedIn.mark (by decide)).seqRight (h.datatype.behindBlanks [' '] (by simp)) fun _ _ => trivial
  exact this.behindBlanks [' '] (by simp)

end Shown

/-! ## Forms without labels -/

theorem shown_prim (p : Prim) : Shown (.prim p) := by
  have hkeyword {name : String} (hk : name ∈ scriptGrammar.lexicon.keywords) :
      PhrasedIn false Apart name.toList (lit name) fun _ => True := .keyword hk
  cases p with
  | null => exact .structural (.orLeft ((hkeyword (by decide)).apply fun _ _ => rfl))
  | principal =>
    exact .structural (.orRight (.orLeft ((hkeyword (by decide)).apply fun _ _ => rfl)))
  | int kind =>
    obtain ⟨hid, hk, hty⟩ := kind_spec kind
    exact .name ⟨hid, hk⟩ hty
  | float kind => cases kind <;> exact .name (by decide +kernel) rfl
  | bool | text | reserved | empty => exact .name (by decide +kernel) rfl

theorem shown_var {name : String} (hplain : IsPlainName name) (hprim : Prim.ofName? name = none) :
    Shown (.var name) := by
  refine .name hplain ?_
  rw [Ty.toText, Ty.ofName, hprim]
  rfl

theorem shown_opt (h : Shown t) : Shown (.opt t) := by
  have hk : "opt" ∈ scriptGrammar.lexicon.keywords := by decide
  have hshape : (Ty.opt t).toText.toList = "opt".toList ++ ' ' :: t.toText.toList := by
    simp [Ty.toText]
  refine .structural ?_
  rw [hshape]
  iterate 3 apply PhrasedIn.orRight
  refine .orLeft ((h.datatype.behindKeyword hk).apply fun t' ht' => ?_)
  rw [ht']
  rfl

theorem shown_vec (h : Shown t) : Shown (.vec t) := by
  refine .structural ?_
  rw [Ty.toText]
  split
  case isTrue hbyte =>
    have hk : "blob" ∈ scriptGrammar.lexicon.keywords := by decide
    have ht : t = .nat8 := by
      unfold Ty.isByte at hbyte
      split at hbyte
      · rfl
      · cases hbyte
    rw [ht]
    exact .orRight (.orRight (.orLeft ((PhrasedIn.keyword hk).apply fun _ _ => rfl)))
  case isFalse =>
    have hk : "vec" ∈ scriptGrammar.lexicon.keywords := by decide
    have hshape : ("vec " ++ t.toText).toList = "vec".toList ++ ' ' :: t.toText.toList := by simp
    rw [hshape]
    iterate 4 apply PhrasedIn.orRight
    refine .orLeft ((h.datatype.behindKeyword hk).apply fun t' ht' => ?_)
    rw [ht']
    rfl

/-! ## Functions -/

theorem phrased_parenthesized {script : Bool} {α : Type} {item : Phrase (Attempt α)}
    {more : Phrase (Attempt (List α))}
    (hmore : ∀ {ks m}, Derives Phrase.rules (Phrase.separated "," more item) ks m →
      Derives Phrase.rules more ks m)
    {texts : List String} {as : List α} (h : ItemizedIn script item texts as) :
    PhrasedIn script Any (['('] ++ (", ".intercalate texts).toList ++ [')'])
      (lit "(" *> more <* lit ")") (· = .ok as) := by
  have hitems : PhrasedIn script Apart (", ".intercalate texts).toList
      (Phrase.separated "," more item) (· = .ok as) := by
    cases texts with
    | nil =>
      cases h
      exact phrased_noItems.anywhere
    | cons t texts => exact phrased_intercalate ',' (by decide) hmore h (List.cons_ne_nil _ _)
  exact ((PhrasedIn.mark (by decide)).seqRight (hitems.rule fun _ a ha hPa => ⟨a, hmore ha, hPa⟩)
    fun _ _ => trivial).seqLeft (PhrasedIn.mark (by decide)) fun rest _ => apart_mark (by decide) rest

theorem mode_spec (m : Mode) : IsPlainName m.name ∧ Mode.ofName? m.name = some m := by
  cases m <;> decide +kernel

theorem phrased_modes (modes : List Mode) :
    PhrasedIn false Apart (String.join (modes.map (" " ++ ·.name))).toList (.many nameTok)
      fun ks => ks.mapM Phrase.mode = .ok modes := by
  induction modes with
  | nil => exact ((PhrasedIn.empty .manyNil).anywhere).imp fun ks hks => by rw [hks]; rfl
  | cons m modes ih =>
    obtain ⟨⟨hid, hk⟩, hmode⟩ := mode_spec m
    have hfollow : ∀ rest, Apart rest →
        Apart ((String.join (modes.map (" " ++ ·.name))).toList ++ rest) := by
      intro rest hrest
      cases modes with
      | nil => exact hrest
      | cons m' modes =>
        rw [List.map_cons, String.join_cons, String.toList_append, String.toList_append]
        exact apart_blank _
    have hpair := ((PhrasedIn.name hid hk).seq ih hfollow).behindBlanks [' '] (by simp)
    have hshape : (String.join ((m :: modes).map (" " ++ ·.name))).toList
        = [' '] ++ (m.name.toList ++ (String.join (modes.map (" " ++ ·.name))).toList) := by
      simp [String.join_cons]
    rw [hshape]
    refine hpair.rule fun ks x hx hPQ => ⟨x.1 :: x.2, ?_, ?_⟩
    · obtain ⟨ks₁, ks₂, rfl, hfirst, hrest⟩ := hx.consists
      refine hfirst.manyCons ?_ hrest
      obtain ⟨rfl, -⟩ := hfirst.consists
      exact List.cons_ne_nil _ _
    · have hfirst : Phrase.mode x.1 = .ok m := by rw [Phrase.mode, hPQ.1, hmode]
      rw [List.mapM_cons, hfirst, Attempt.ok_bind, hPQ.2]
      rfl

theorem itemized_types {p : Phrase (Attempt Ty)} {ts : List Ty}
    (h : ∀ t ∈ ts, PhrasedIn false Apart t.toText.toList p (· = .ok t)) :
    ItemizedIn false p (Ty.texts ts) ts := by
  induction ts with
  | nil => exact .nil
  | cons t ts ih =>
    obtain ⟨ht, hts⟩ := List.forall_mem_cons.mp h
    exact .cons ht (ih hts)

theorem phrased_tupleType {ts : List Ty} (h : ∀ t ∈ ts, Shown t) :
    PhrasedIn false Any (['('] ++ (", ".intercalate (Ty.texts ts)).toList ++ [')']) Phrase.tupleType
      (· = .ok ts) :=
  phrased_parenthesized (fun hm => .ref hm) (itemized_types fun t ht => (h t ht).typeArg)

theorem phrased_signature {args results : List Ty} (hargs : ∀ t ∈ args, Shown t)
    (hresults : ∀ t ∈ results, Shown t) (modes : List Mode) :
    PhrasedIn false Apart (Ty.signatureText (Ty.texts args) (Ty.texts results) modes).toList
      Phrase.funcType (· = .ok (.func args results modes)) := by
  have harrow : PhrasedIn false Any ['-', '>'] (lit "->") fun _ => True :=
    (PhrasedIn.token .arrow).imp fun _ _ => trivial
  have hresults := (harrow.seqRight ((phrased_tupleType hresults).behindBlanks [' '] (by simp))
    fun _ _ => trivial).behindBlanks [' '] (by simp)
  have hshape : (Ty.signatureText (Ty.texts args) (Ty.texts results) modes).toList
      = (['('] ++ (", ".intercalate (Ty.texts args)).toList ++ [')'])
        ++ ([' '] ++ (['-', '>'] ++ ([' ']
          ++ (['('] ++ (", ".intercalate (Ty.texts results)).toList ++ [')']))))
        ++ (String.join (modes.map (" " ++ ·.name))).toList := by
    simp [Ty.signatureText]
  rw [hshape]
  refine PhrasedIn.app (P := fun build => ∀ ks : List Token, ks.mapM Phrase.mode = .ok modes →
      build ks = .ok (.func args results modes)) (?_ : PhrasedIn false Any _ _ _)
    (phrased_modes modes) (fun _ _ => trivial) fun build ks hbuild hks => hbuild ks hks
  refine (phrased_tupleType hargs).map₂ hresults (fun _ _ => trivial) ?_
  intro args' results' hargs' hresults' ks hks
  rw [hargs', hresults']
  dsimp only
  rw [Attempt.ok_bind, Attempt.ok_bind, hks]
  rfl

theorem shown_func {args results : List Ty} (hargs : ∀ t ∈ args, Shown t)
    (hresults : ∀ t ∈ results, Shown t) (modes : List Mode) : Shown (.func args results modes) := by
  have hk : "func" ∈ scriptGrammar.lexicon.keywords := by decide
  have hshape : (Ty.func args results modes).toText.toList = "func".toList ++
      ' ' :: (Ty.signatureText (Ty.texts args) (Ty.texts results) modes).toList := by
    simp [Ty.toText]
  refine .structural ?_
  rw [hshape]
  iterate 7 apply PhrasedIn.orRight
  exact .orLeft ((phrased_signature hargs hresults modes).behindKeyword hk)

/-! ## Records -/

theorem phrased_quotedName (name : String) :
    PhrasedIn false Any (quoteText name).toList textTok (·.lexeme = quoteText name) :=
  phrased_quoteText nofun

theorem phrased_nameText {name : String} (hname : name ≠ "nan" ∧ name ≠ "inf") :
    PhrasedIn false Apart (nameText name).toList Phrase.anyName (· = .ok name) := by
  rw [nameText]
  split
  case isTrue hplain =>
    obtain ⟨hid, hk⟩ := isPlainName_of_nameText hname hplain
    exact .orLeft ((PhrasedIn.name hid hk).apply fun k hk => by rw [hk])
  case isFalse =>
    refine .orRight ((phrased_quotedName name).anywhere.apply fun k hk => ?_)
    rw [hk, unquoteText_quoteText]

theorem phrased_labelledField {l : Label} (hl : l.Readable) (h : Shown t) :
    PhrasedIn false Apart (labelText l ++ " : " ++ t.toText).toList Phrase.typeField
      (· = .ok (some l, t)) := by
  have hshape : (labelText l ++ " : " ++ t.toText).toList
      = (labelText l).toList ++ ' ' :: ':' :: ' ' :: t.toText.toList := by simp
  have hpresent : PhrasedIn false Apart (' ' :: ':' :: ' ' :: t.toText.toList)
      (optional Phrase.ofType) (· = some (.ok t)) :=
    h.ofType.rule fun ks t' ht' heq => ⟨some t', .present ht', by rw [heq]⟩
  rw [hshape]
  cases l with
  | named name =>
    rw [labelText, nameText]
    split
    case isTrue hplain =>
      obtain ⟨hid, hk⟩ := isPlainName_of_nameText hl hplain
      refine .orLeft ((PhrasedIn.name hid hk).map₂ hpresent (fun rest _ => apart_blank _)
        fun k t? hk ht => ?_)
      rw [ht, ← hk]
      rfl
    case isFalse =>
      refine .orRight (.orLeft ((phrased_quotedName name).map₂ hpresent (fun rest _ => trivial)
        fun k t? hk ht => ?_))
      rw [ht, Phrase.textLabel, hk, unquoteText_quoteText]
      rfl
  | numbered id =>
    refine .orRight (.orRight (.orLeft ((phrased_numberLabel id).map₂ h.ofType
      (fun rest _ => apart_blank _) fun k t' hk ht => ?_)))
    rw [hk, ht]
    rfl

theorem labelFields_bare {i : Nat} {fields : List (Label × Ty)} (h : countsFrom i fields = true) :
    Phrase.labelFields i (fields.map fun f => (none, f.2)) = fields := by
  induction fields generalizing i with
  | nil => rfl
  | cons f fields ih =>
    obtain ⟨hlabel, hrest⟩ := Bool.and_eq_true_iff.mp h
    obtain ⟨l, t⟩ := f
    cases l with
    | named name => cases hlabel
    | numbered id =>
      obtain rfl : id = i := of_decide_eq_true hlabel
      rw [List.map_cons, Phrase.labelFields]
      exact congrArg _ (ih hrest)

theorem labelFields_labelled (i : Nat) (fields : List (Label × Ty)) :
    Phrase.labelFields i (fields.map fun f => (some f.1, f.2)) = fields := by
  induction fields generalizing i with
  | nil => rfl
  | cons f fields ih =>
    rw [List.map_cons, Phrase.labelFields]
    exact congrArg _ (ih _)

theorem itemized_bare {fields : List (Label × Ty)} (h : ∀ f ∈ fields, Shown f.2) :
    ItemizedIn false Phrase.typeField (Ty.bareTexts fields)
      (fields.map fun f => (none, f.2)) := by
  induction fields with
  | nil => exact .nil
  | cons f fields ih =>
    obtain ⟨hf, hrest⟩ := List.forall_mem_cons.mp h
    exact .cons hf.typeField (ih hrest)

theorem itemized_labelled {fields : List (Label × Ty)} (hlabels : ∀ f ∈ fields, f.1.Readable)
    (h : ∀ f ∈ fields, Shown f.2) :
    ItemizedIn false Phrase.typeField (Ty.fieldTexts fields)
      (fields.map fun f => (some f.1, f.2)) := by
  induction fields with
  | nil => exact .nil
  | cons f fields ih =>
    obtain ⟨hl, hlabels⟩ := List.forall_mem_cons.mp hlabels
    obtain ⟨hf, hrest⟩ := List.forall_mem_cons.mp h
    exact .cons (phrased_labelledField hl hf) (ih hlabels hrest)

theorem phrased_typeFields {head : String} (hk : head ∈ scriptGrammar.lexicon.keywords)
    {texts : List String} {fs : List TypeField} (h : ItemizedIn false Phrase.typeField texts fs) :
    PhrasedIn false Any (Ty.braced head texts).toList (lit head *> Phrase.typeFields)
      (· = .ok fs) := by
  rw [toList_braced]
  exact (phrased_braces (fun hm => .ref hm) h).behindKeyword hk

theorem shown_record {fields : List (Label × Ty)} (hasc : Ascending fields)
    (hlabels : ∀ f ∈ fields, f.1.Readable) (h : ∀ f ∈ fields, Shown f.2) :
    Shown (.record fields) := by
  have hk : "record" ∈ scriptGrammar.lexicon.keywords := by decide
  have hitems : ∃ fs, Phrase.labelFields 0 fs = fields ∧ ItemizedIn false Phrase.typeField
      (if countsFrom 0 fields then Ty.bareTexts fields else Ty.fieldTexts fields) fs := by
    split
    case isTrue hcounts => exact ⟨_, labelFields_bare hcounts, itemized_bare h⟩
    case isFalse => exact ⟨_, labelFields_labelled 0 fields, itemized_labelled hlabels h⟩
  obtain ⟨fs, hfs, hitems⟩ := hitems
  refine .structural ?_
  rw [Ty.toText]
  iterate 5 apply PhrasedIn.orRight
  refine .orLeft ((phrased_typeFields hk hitems).anywhere.apply fun fs' hfs' => ?_)
  rw [hfs', Attempt.ok_bind, hfs]
  exact Ty.mkRecord_of_ascending hasc

/-! ## Variants -/

/-- A case of null is its name; the name of a primitive type is no less a name. -/
theorem typeCase_ofName (name : String) :
    Phrase.typeCase (none, Ty.ofName name) = .ok (.named name, .null) := by
  rw [Ty.ofName]
  cases hprim : Prim.ofName? name with
  | none => rfl
  | some p =>
    have hp : p.name = name := by simpa using List.find?_some hprim
    rw [← hp]
    rfl

def caseText (c : Label × Ty) : String :=
  if c.2.isNull then labelText c.1 else labelText c.1 ++ " : " ++ c.2.toText

theorem caseTexts_eq (cases : List (Label × Ty)) : Ty.caseTexts cases = cases.map caseText := by
  induction cases with
  | nil => rfl
  | cons c cases ih =>
    rw [Ty.caseTexts, ih]
    rfl

theorem phrased_case {c : Label × Ty} (hl : c.1.Readable)
    (hnull : c.2.isNull = true → ∃ name, c.1 = .named name) (h : Shown c.2) :
    ∃ f, Phrase.typeCase f = .ok c ∧
      PhrasedIn false Apart (caseText c).toList Phrase.typeField (· = .ok f) := by
  obtain ⟨l, t⟩ := c
  by_cases hn : t.isNull
  case neg =>
    refine ⟨(some l, t), rfl, ?_⟩
    rw [caseText, if_neg hn]
    exact phrased_labelledField hl h
  case pos =>
    obtain ⟨name, rfl⟩ := hnull hn
    have ht : t = .null := by
      unfold Ty.isNull at hn
      split at hn
      · rfl
      · cases hn
    rw [caseText, if_pos hn, labelText, nameText, ht]
    split
    case isTrue hplain =>
      obtain ⟨hid, hk⟩ := isPlainName_of_nameText hl hplain
      refine ⟨(none, .ofName name), typeCase_ofName name, ?_⟩
      exact .orLeft (phrased_unfollowed (.name hid hk) fun k hk => by rw [hk])
    case isFalse =>
      refine ⟨(some (.named name), .null), rfl, .orRight (.orLeft ?_)⟩
      refine phrased_unfollowed (phrased_quotedName name).anywhere fun k hk => ?_
      rw [Phrase.textLabel, hk, unquoteText_quoteText]
      rfl

theorem exists_itemized_cases {cases : List (Label × Ty)} (hlabels : ∀ c ∈ cases, c.1.Readable)
    (hnull : ∀ c ∈ cases, c.2.isNull = true → ∃ name, c.1 = .named name)
    (h : ∀ c ∈ cases, Shown c.2) :
    ∃ fs, fs.mapM Phrase.typeCase = .ok cases ∧
      ItemizedIn false Phrase.typeField (cases.map caseText) fs := by
  induction cases with
  | nil => exact ⟨[], rfl, .nil⟩
  | cons c cases ih =>
    obtain ⟨hl, hlabels⟩ := List.forall_mem_cons.mp hlabels
    obtain ⟨hn, hnull⟩ := List.forall_mem_cons.mp hnull
    obtain ⟨hc, hrest⟩ := List.forall_mem_cons.mp h
    obtain ⟨f, hf, hphrase⟩ := phrased_case hl hn hc
    obtain ⟨fs, hfs, hphrases⟩ := ih hlabels hnull hrest
    refine ⟨f :: fs, ?_, .cons hphrase hphrases⟩
    rw [List.mapM_cons, hf, Attempt.ok_bind, hfs]
    rfl

theorem shown_variant {cases : List (Label × Ty)} (hasc : Ascending cases)
    (hlabels : ∀ c ∈ cases, c.1.Readable)
    (hnull : ∀ c ∈ cases, c.2.isNull = true → ∃ name, c.1 = .named name)
    (h : ∀ c ∈ cases, Shown c.2) : Shown (.variant cases) := by
  have hk : "variant" ∈ scriptGrammar.lexicon.keywords := by decide
  obtain ⟨fs, hfs, hitems⟩ := exists_itemized_cases hlabels hnull h
  refine .structural ?_
  rw [Ty.toText, caseTexts_eq]
  iterate 6 apply PhrasedIn.orRight
  refine .orLeft ((phrased_typeFields hk hitems).anywhere.apply fun fs' hfs' => ?_)
  rw [hfs', Attempt.ok_bind, hfs]
  exact Ty.mkVariant_of_ascending hasc

/-! ## Services -/

/-- The text of a method's type, a function type without its keyword. -/
def methodTypeText : Ty → String
  | .func args results modes => Ty.signatureText (Ty.texts args) (Ty.texts results) modes
  | t => t.toText

theorem methodTexts_eq (methods : List (String × Ty)) :
    Ty.methodTexts methods = methods.map fun m => nameText m.1 ++ " : " ++ methodTypeText m.2 := by
  induction methods with
  | nil => rfl
  | cons m methods ih =>
    obtain ⟨n, t⟩ := m
    cases t with
    | func args results modes =>
      rw [Ty.methodTexts, ih]
      rfl
    | _ =>
      rw [Ty.methodTexts, ih]
      · rfl
      · nofun

/-- A type is read as that of a method. -/
def ShownMethod (t : Ty) : Prop :=
  PhrasedIn false Apart (methodTypeText t).toList
    (Phrase.funcType <|> ((fun k => .ok (.var k.lexeme)) <$> nameTok)) (· = .ok t)

theorem shownMethod_var {name : String} (h : IsPlainName name) : ShownMethod (.var name) :=
  .orRight ((PhrasedIn.name h.1 h.2).apply fun k hk => by rw [hk])

theorem shownMethod_func {args results : List Ty} (hargs : ∀ t ∈ args, Shown t)
    (hresults : ∀ t ∈ results, Shown t) (modes : List Mode) :
    ShownMethod (.func args results modes) :=
  .orLeft (phrased_signature hargs hresults modes)

theorem phrased_method {name : String} (hname : name ≠ "nan" ∧ name ≠ "inf") (h : ShownMethod t) :
    PhrasedIn false Apart (nameText name ++ " : " ++ methodTypeText t).toList Phrase.methodSig
      (· = .ok (name, t)) := by
  have htype : PhrasedIn false Apart ([':'] ++ ([' '] ++ (methodTypeText t).toList))
      (lit ":" *> (Phrase.funcType <|> ((fun k => .ok (.var k.lexeme)) <$> nameTok))) (· = .ok t) :=
    (PhrasedIn.mark (by decide)).seqRight (h.behindBlanks [' '] (by simp)) fun _ _ => trivial
  have hshape : (nameText name ++ " : " ++ methodTypeText t).toList
      = (nameText name).toList ++ ([' '] ++ ([':'] ++ ([' '] ++ (methodTypeText t).toList))) := by
    simp
  rw [hshape]
  refine (phrased_nameText hname).map₂ (htype.behindBlanks [' '] (by simp))
    (fun rest _ => apart_blank _) fun n t' hn ht => ?_
  rw [hn, ht]
  rfl

theorem shown_service {methods : List (String × Ty)}
    (hsorted : methods.Pairwise fun m n => m.1 ≤ n.1)
    (hnames : ∀ m ∈ methods, m.1 ≠ "nan" ∧ m.1 ≠ "inf")
    (h : ∀ m ∈ methods, ShownMethod m.2) : Shown (.service methods) := by
  have hk : "service" ∈ scriptGrammar.lexicon.keywords := by decide
  have hitems : ItemizedIn false Phrase.methodSig (Ty.methodTexts methods) methods := by
    rw [methodTexts_eq, ItemizedIn, List.forall₂_map_left_iff]
    exact List.forall₂_same.mpr fun m hm => phrased_method (hnames m hm) (h m hm)
  refine .structural ?_
  rw [Ty.toText, toList_braced]
  iterate 8 apply PhrasedIn.orRight
  refine PhrasedIn.behindKeyword hk (((phrased_braces (fun hm => .ref hm) hitems).anywhere).apply ?_)
  intro ms hms
  rw [hms, Attempt.ok_bind, Ty.mkService, Ty.sortMethods_of_pairwise hsorted]
  rfl

/-! ## Types -/

/-- A type whose text is read as a type is shown as one and, if it is that of a method, as that too. -/
theorem shown_of_readable (hordered : t.Ordered) (h : t.Readable) :
    Shown t ∧ ((∃ args results modes, t = .func args results modes) ∨ (∃ name, t = .var name) →
      ShownMethod t) := by
  induction h with
  | prim p => exact ⟨shown_prim p, by simp⟩
  | var hplain hprim => exact ⟨shown_var hplain hprim, fun _ => shownMethod_var hplain⟩
  | opt _ ih =>
    cases hordered with
    | opt hitem => exact ⟨shown_opt (ih hitem).1, by simp⟩
  | vec _ ih =>
    cases hordered with
    | vec hitem => exact ⟨shown_vec (ih hitem).1, by simp⟩
  | record hlabels _ ih =>
    cases hordered with
    | record hasc hfields =>
      exact ⟨shown_record hasc hlabels fun f hf => (ih f hf (hfields f hf)).1, by simp⟩
  | variant hlabels hnull _ ih =>
    cases hordered with
    | variant hasc hcases =>
      exact ⟨shown_variant hasc hlabels hnull fun c hc => (ih c hc (hcases c hc)).1, by simp⟩
  | func modes _ _ ihargs ihresults =>
    cases hordered with
    | func _ hargs hresults =>
      have hargs := fun t ht => (ihargs t ht (hargs t ht)).1
      have hresults := fun t ht => (ihresults t ht (hresults t ht)).1
      exact ⟨shown_func hargs hresults modes, fun _ => shownMethod_func hargs hresults modes⟩
  | service hnames htypes _ ih =>
    cases hordered with
    | service hsorted hmethods =>
      refine ⟨shown_service hsorted hnames fun m hm => ?_, by simp⟩
      exact (ih m hm (hmethods m hm)).2 (htypes m hm)

/-- The text of a type is read as the type. -/
theorem parseType_toText (hordered : t.Ordered) (h : t.Readable) : parseType t.toText = .ok t := by
  have hshown := (shown_of_readable hordered h).1.datatype
  refine PhrasedIn.parseType (hshown.rule fun ks t' ht' heq => ⟨t', ht'.consists, heq⟩)

/-- A ledger, with names that need quotes and fields that have numbers only. -/
def ledgerType : Ty :=
  .service [
    ("$price of", .func [.record [(.numbered 0, .var "Account"), (.numbered 1, .blob)]]
      [.variant [(.numbered 7, .nat), (.named "Ok", .null), (.named "not found!", .null)]]
      [.query]),
    ("history", .var "History")]

theorem parseType_ledgerType :
    ledgerType.Ordered ∧ ledgerType.Readable ∧ parseType ledgerType.toText = .ok ledgerType := by
  have hordered : ledgerType.Ordered := by
    refine .service (by decide) (List.forall_mem_cons.mpr ⟨.func _ ?_ ?_, ?_⟩)
    · refine List.forall_mem_singleton.mpr (.record (by decide) ?_)
      exact List.forall_mem_cons.mpr ⟨.var _, List.forall_mem_singleton.mpr (.vec (.prim _))⟩
    · refine List.forall_mem_singleton.mpr (.variant (by decide +kernel) ?_)
      exact List.forall_mem_cons.mpr ⟨.prim _, List.forall_mem_cons.mpr
        ⟨.prim _, List.forall_mem_singleton.mpr (.prim _)⟩⟩
    · exact List.forall_mem_singleton.mpr (.var _)
  have hvar {name : String} (h : IsPlainName name ∧ Prim.ofName? name = none) :
      (Ty.var name).Readable := .var h.1 h.2
  have hreadable : ledgerType.Readable := by
    refine .service (by decide) (by simp) (List.forall_mem_cons.mpr ⟨.func _ ?_ ?_, ?_⟩)
    · refine List.forall_mem_singleton.mpr (.record (by simp [Label.Readable]) ?_)
      exact List.forall_mem_cons.mpr ⟨hvar (by decide +kernel),
        List.forall_mem_singleton.mpr (.vec (.prim _))⟩
    · refine List.forall_mem_singleton.mpr (.variant (by simp [Label.Readable]) ?_ ?_)
      · simp [Ty.isNull]
      · exact List.forall_mem_cons.mpr ⟨.prim _, List.forall_mem_cons.mpr
          ⟨.prim _, List.forall_mem_singleton.mpr (.prim _)⟩⟩
    · exact List.forall_mem_singleton.mpr (hvar (by decide +kernel))
  exact ⟨hordered, hreadable, parseType_toText hordered hreadable⟩

/-- A case of null without a name shows its number alone, which is no case; and of two keywords the text
of a label is not quoted. -/
theorem parseType_numberedCase_fails :
    (∀ t, parseType (Ty.variant [(.numbered 5, .null)]).toText ≠ .ok t) ∧
      ∀ t, parseType (Ty.record [(.named "nan", .nat)]).toText ≠ .ok t := by
  have hcase : (parseType (Ty.variant [(.numbered 5, .null)]).toText).isOk = false := by
    decide +kernel
  have hlabel : (parseType (Ty.record [(.named "nan", .nat)]).toText).isOk = false := by
    decide +kernel
  constructor
  · intro t h
    rw [h] at hcase
    cases hcase
  · intro t h
    rw [h] at hlabel
    cases hlabel

end Syntax

end CanisterShell
