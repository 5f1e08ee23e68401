import CanisterShell.Candid.Printer
import CanisterShell.Proofs.Principal
import CanisterShell.Proofs.Syntax.Numeral
import CanisterShell.Proofs.Syntax.Phrasing
import CanisterShell.Proofs.Syntax.Quoting
import CanisterShell.Proofs.Syntax.Writing

/-!
# Legible values

The text of a value is legible if it is phrased as an expression that stands for the value
(`Value.toExp`).  Values without parts are legible, as long as the names, texts and byte strings in
them survive what is done to a script before it is read (`Value.Printable`).

A whole number is printed in decimal digits, with underscores between groups of three where it has a
type.  Either way its digits are one word behind the sign, and, underscores aside, they are those of
the number, so reading them gives it back (`number_of_plain`).
-/

namespace CanisterShell.Syntax

open Candid
open Literal (number splitSign signed digitNumber int?)

/-! ## Digits -/

theorem isDigit_of_mem_toDigits {n : Nat} {c : Char} (h : c ∈ Nat.toDigits 10 n) :
    c.isDigit = true := Nat.isDigit_of_mem_toDigits (by decide) (by decide) h

theorem digitNumber_toDigits (n : Nat) : digitNumber (Nat.toDigits 10 n) = n :=
  Nat.ofDigitChars_ten_toDigits

theorem digits_toDigits (n : Nat) : Digits (Nat.toDigits 10 n) :=
  ⟨Nat.toDigits_ne_nil, fun _ => isDigit_of_mem_toDigits⟩

theorem splitSign_digits {sign digits : List Char} (hs : sign = [] ∨ sign = ['-'])
    (h : Digits digits) : splitSign (sign ++ digits) = (decide (sign = ['-']), digits) := by
  obtain rfl | rfl := hs
  · obtain ⟨d, ds, rfl⟩ := List.exists_cons_of_ne_nil h.1
    exact splitSign_of_isDigit (h.2 d (.head _))
  · rfl

theorem decimal_digits {sign : List Char} (hs : sign = [] ∨ sign = ['-']) (n : Nat) :
    number.decimal (sign ++ Nat.toDigits 10 n)
      = .ok (.number (signed (decide (sign = ['-'])) n)) := by
  have hd := digits_toDigits n
  have hnone : ¬((sign ++ Nat.toDigits 10 n).any fun c => c = '.' || c = 'e' || c = 'E') = true := by
    rw [List.any_append, (by obtain rfl | rfl := hs <;> rfl : sign.any _ = false), Bool.false_or,
      List.any_eq_true]
    rintro ⟨c, hc, hmark⟩
    have hdigit := hd.2 c hc
    simp only [Bool.or_eq_true, decide_eq_true_eq] at hmark
    obtain (rfl | rfl) | rfl := hmark <;> exact absurd hdigit (by decide)
  have hall : (!(Nat.toDigits 10 n).isEmpty && (Nat.toDigits 10 n).all Char.isDigit) = true := by
    simpa [hd.1] using hd.2
  rw [number.decimal, if_neg hnone, int?, splitSign_digits hs hd]
  dsimp only
  rw [if_pos hall, digitNumber_toDigits]

/-- What a number means whose digits, underscores aside, are those of `n`. -/
theorem number_of_plain {sign cs : List Char} {n : Nat} (hs : sign = [] ∨ sign = ['-'])
    (h : plain cs = Nat.toDigits 10 n) : number (String.ofList (sign ++ cs))
      = .ok (.number (signed (decide (sign = ['-'])) n)) := by
  have hd := digits_toDigits n
  have hplain : (sign ++ cs).filter (· ≠ '_') = sign ++ Nat.toDigits 10 n := by
    rw [List.filter_append, ← h]
    obtain rfl | rfl := hs <;> rfl
  rw [number, String.toList_ofList, hplain, splitSign_digits hs hd]
  dsimp only
  split
  case h_1 x hex hx =>
    have hx : x.isDigit = true := hd.2 x (by rw [hx]; exact .tail _ (.head _))
    rw [if_neg, decimal_digits hs]
    rw [Bool.or_eq_true, decide_eq_true_eq, decide_eq_true_eq]
    rintro (rfl | rfl) <;> exact absurd hx (by decide)
  case h_2 => exact decimal_digits hs n

/-! ## Printed forms -/

/-- Digits of a number, perhaps with underscores between them. -/
structure Spells (n : Nat) (cs : List Char) : Prop where
  plain_eq : plain cs = Nat.toDigits 10 n
  head : ∃ c rest, cs = c :: rest ∧ c.isDigit = true ∧ ∀ d ∈ rest, isDigitOrUnderscore d = true

theorem isDigitOrUnderscore_of_isDigit {c : Char} (h : c.isDigit = true) :
    isDigitOrUnderscore c = true := by rw [isDigitOrUnderscore, h, Bool.true_or]

theorem plain_of_forall {ds : List Char} (h : ∀ d ∈ ds, d.isDigit = true) : plain ds = ds :=
  List.filter_eq_self.mpr fun d hd => by simpa using ne_underscore_of_isDigit (h d hd)

theorem spells_toDigits (n : Nat) : Spells n (Nat.toDigits 10 n) where
  plain_eq := plain_of_forall (digits_toDigits n).2
  head := by
    obtain ⟨hne, hd⟩ := digits_toDigits n
    obtain ⟨c, rest, h⟩ := List.exists_cons_of_ne_nil hne
    rw [h] at hd ⊢
    exact ⟨c, rest, rfl, hd c (.head _), fun d hm =>
      isDigitOrUnderscore_of_isDigit (hd d (.tail _ hm))⟩

theorem plain_groupReversed {ds : List Char} (h : ∀ d ∈ ds, d.isDigit = true) :
    plain (groupReversed ds) = ds := by
  fun_induction groupReversed ds with
  | case1 a b c d rest ih =>
    have ha := ne_underscore_of_isDigit (h a (by simp))
    have hb := ne_underscore_of_isDigit (h b (by simp))
    have hc := ne_underscore_of_isDigit (h c (by simp))
    have htail := ih fun x hx => h x (.tail _ (.tail _ (.tail _ hx)))
    rw [plain_cons_of_ne ha, plain_cons_of_ne hb, plain_cons_of_ne hc]
    exact congrArg (a :: b :: c :: ·) htail
  | case2 ds hds => exact plain_of_forall h

theorem mem_groupReversed {ds : List Char} (h : ∀ d ∈ ds, d.isDigit = true) :
    ∀ d ∈ groupReversed ds, isDigitOrUnderscore d = true := by
  fun_induction groupReversed ds with
  | case1 a b c d rest ih =>
    have htail := ih fun x hx => h x (.tail _ (.tail _ (.tail _ hx)))
    simp only [List.mem_cons, forall_eq_or_imp] at h ⊢
    exact ⟨isDigitOrUnderscore_of_isDigit h.1, isDigitOrUnderscore_of_isDigit h.2.1,
      isDigitOrUnderscore_of_isDigit h.2.2.1, rfl, fun x hx => htail x hx⟩
  | case2 ds hds => exact fun d hd => isDigitOrUnderscore_of_isDigit (h d hd)

theorem getLast?_groupReversed (ds : List Char) :
    (groupReversed ds).getLast? = ds.getLast? := by
  fun_induction groupReversed ds with
  | case1 a b c d rest ih =>
    have hlast : (d :: rest).getLast? = some ((d :: rest).getLast (by simp)) :=
      List.getLast?_eq_some_getLast _
    rw [hlast] at ih
    have left : (a :: b :: c :: '_' :: groupReversed (d :: rest)).getLast?
        = (groupReversed (d :: rest)).getLast?.or ['_', c, b, a].head? :=
      List.getLast?_append (l := [a, b, c, '_'])
    have right : (a :: b :: c :: d :: rest).getLast?
        = (d :: rest).getLast?.or [c, b, a].head? := List.getLast?_append (l := [a, b, c])
    rw [left, right, ih, hlast, Option.some_or, Option.some_or]
  | case2 ds hds => rfl

/-- The characters of a number in groups of three, the sign aside. -/
def grouped (n : Nat) : List Char := (groupReversed (Nat.toDigits 10 n).reverse).reverse

theorem spells_grouped (n : Nat) : Spells n (grouped n) := by
  have hd : ∀ d ∈ (Nat.toDigits 10 n).reverse, d.isDigit = true := fun d hd =>
    isDigit_of_mem_toDigits (List.mem_reverse.mp hd)
  have hplain : plain (grouped n) = Nat.toDigits 10 n := by
    have := congrArg List.reverse (plain_groupReversed hd)
    rwa [List.reverse_reverse, plain, ← List.filter_reverse] at this
  have hmem : ∀ d ∈ grouped n, isDigitOrUnderscore d = true := fun d h =>
    mem_groupReversed hd d (List.mem_reverse.mp h)
  have hhead : (grouped n).head? = (Nat.toDigits 10 n).head? := by
    rw [grouped, List.head?_reverse, getLast?_groupReversed, List.getLast?_reverse]
  obtain ⟨c, rest, hcs, hc, -⟩ := (spells_toDigits n).head
  rw [hcs] at hhead
  obtain ⟨tail, ht⟩ := List.head?_eq_some_iff.mp hhead
  exact ⟨hplain, c, tail, ht, hc, fun d h => hmem d (by rw [ht]; exact .tail _ h)⟩

/-- The sign in front of a number. -/
def signOf (n : Int) : List Char := if n < 0 then ['-'] else []

theorem toList_toString (n : Int) :
    (toString n).toList = signOf n ++ Nat.toDigits 10 n.natAbs := by
  cases n with
  | ofNat m =>
    change (toString m).toList = _
    rw [signOf, if_neg (by simp), Nat.toString_eq_ofList_toDigits, String.toList_ofList]
    rfl
  | negSucc m =>
    change ("-" ++ toString (m + 1)).toList = _
    rw [signOf, if_pos (Int.negSucc_lt_zero m), String.toList_append,
      Nat.toString_eq_ofList_toDigits]
    exact congrArg (['-'] ++ ·) String.toList_ofList

theorem toList_groupDigits (n : Int) :
    (groupDigits n).toList = signOf n ++ grouped n.natAbs := by
  rw [groupDigits, String.toList_ofList, signOf]
  split
  · rfl
  · rfl

theorem number_of_spells {n : Int} {cs : List Char} (h : Spells n.natAbs cs) :
    number (String.ofList (signOf n ++ cs)) = .ok (.number n) := by
  rw [signOf]
  split
  case isTrue hn =>
    have : signed true n.natAbs = n := by
      rw [signed, if_pos rfl]
      omega
    rw [number_of_plain (.inr rfl) h.plain_eq]
    exact congrArg (Except.ok ∘ Value.number) this
  case isFalse hn =>
    have : signed false n.natAbs = n := by
      rw [signed, if_neg (by decide)]
      omega
    rw [number_of_plain (.inl rfl) h.plain_eq]
    exact congrArg (Except.ok ∘ Value.number) this

end CanisterShell.Syntax

namespace CanisterShell

namespace Candid

open Syntax (Exp)

/-! ## Printable values -/

/-- A name that a script reads as a name. -/
def IsPlainName (name : String) : Prop :=
  isIdentifier name = true ∧ Syntax.scriptGrammar.lexicon.keywords.contains name = false

instance (name : String) : Decidable (IsPlainName name) := inferInstanceAs (Decidable (_ ∧ _))

/-- A label whose text is read as a label: it holds no reference to a variable of the process, and is
none of the two keywords that labels do not avoid. -/
def Label.Printable : Label → Prop
  | .named name => '$' ∉ name.toList ∧ name ≠ "nan" ∧ name ≠ "inf"
  | .numbered _ => True

/-- A value without floating-point numbers whose text is read as a value. -/
inductive Value.Printable : Value → Prop where
  | null : Printable .null
  | reserved : Printable .reserved
  | nothing : Printable .nothing
  | bool (b : Bool) : Printable (.bool b)
  | text {s : String} (h : '$' ∉ s.toList) : Printable (.text s)
  | number (n : Int) : Printable (.number n)
  | int (kind : IntKind) (n : Int) : Printable (.int kind n)
  | opt {v : Value} (h : Printable v) : Printable (.opt v)
  | vec {items : List Value} (h : ∀ v ∈ items, Printable v) : Printable (.vec items)
  | blob {bytes : Bytes} (h : 36 ∉ bytes) : Printable (.blob bytes)
  | record {fields : List (Label × Value)} (hl : ∀ f ∈ fields, f.1.Printable)
      (h : ∀ f ∈ fields, Printable f.2) : Printable (.record fields)
  | variant {label : Label} {v : Value} (index : Nat) (hl : label.Printable) (h : Printable v) :
      Printable (.variant label v index)
  | principal (p : Principal) : Printable (.principal p)
  | service (p : Principal) : Printable (.service p)
  | func (p : Principal) {method : String} (h : IsPlainName method) : Printable (.func p method)

namespace Value

mutual

/-- The expression that the text of a value is. -/
def toExp : Value → Exp
  | null | reserved | nothing => .literal null
  | int k n => .annotated (.literal (number n)) (.prim (.int k))
  | opt v => .opt (toExp v)
  | vec items => .vec (toExps items)
  | record fields => .record (if countsFrom 0 fields then bareExps fields else fieldExps fields)
  | variant label v _ => .variant label (toExp v)
  | v => .literal v

def toExps : List Value → List Exp
  | [] => []
  | v :: rest => toExp v :: toExps rest

def bareExps : List (Label × Value) → List (Option Label × Exp)
  | [] => []
  | (_, v) :: rest => (none, toExp v) :: bareExps rest

def fieldExps : List (Label × Value) → List (Option Label × Exp)
  | [] => []
  | (l, v) :: rest => (some l, toExp v) :: fieldExps rest

end

end Value

end Candid

namespace Syntax

open Candid
open Rule (Derives lit)
open Phrase (textTok numberTok nameTok textExp numberExp keywordPrimary signedNumber behindOperand)

/-! ## Operands -/

/-- An operand that does not begin with a name. -/
def operand : Phrase (Attempt Exp) :=
  (textExp <$> textTok) <|> (numberExp <$> numberTok) <|> keywordPrimary <|> signedNumber

/-- An operand, and perhaps its type behind it. -/
def annotated : Phrase (Attempt Exp) := (fun e behind => behind e) <$> operand <*> behindOperand

/-- A value's text is an operand, unless its item has to be in parentheses, and with its type it is
an expression. -/
structure Legible (v : Value) (cs : List Char) : Prop where
  annotated : Phrased Apart cs annotated (· = .ok v.toExp)
  operand (h : v.needsParens = false) : Phrased Apart cs operand (· = .ok v.toExp)

theorem phrased_nothing : Phrased Apart [] behindOperand (· = id) := by
  have h : Derives Phrase.rules behindOperand [] id := .app (.app (.apply _ .manyNil) .manyNil) .absent
  exact (PhrasedIn.empty h).anywhere

theorem phrased_type {cs : List Char} {t : Ty}
    (h : Phrased Apart cs Phrase.ofType (· = .ok t)) :
    Phrased Apart cs behindOperand (· = fun e => do return .annotated (← e) t) := by
  refine h.rule fun ks t' ht ht' => ⟨_, .app (.app (.apply _ .manyNil) .manyNil) (.present ht), ?_⟩
  rw [ht']
  rfl

theorem Legible.of_operand {v : Value} {cs : List Char}
    (h : Phrased Apart cs Syntax.operand (· = .ok v.toExp)) : Legible v cs where
  operand _ := h
  annotated := by
    have : Phrased Apart (cs ++ []) Syntax.annotated (· = .ok v.toExp) :=
      h.map₂ phrased_nothing (fun _ h => h) fun e behind he hb => by rw [hb, he]; rfl
    rwa [List.append_nil] at this

theorem Legible.of_keyword {v : Value} {cs : List Char}
    (h : Phrased Apart cs keywordPrimary (· = .ok v.toExp)) : Legible v cs :=
  .of_operand h.orLeft.orRight.orRight

/-!
## Values without parts

Forms that begin with a keyword are alternatives of `keywordPrimary`, where those in front of a form
are passed over by their number.
-/

theorem legible_null {v : Value} (h : v.toExp = .literal .null) : Legible v "null".toList := by
  have hk : "null" ∈ scriptGrammar.lexicon.keywords := by decide
  refine .of_keyword (.orLeft ?_)
  exact (PhrasedIn.keyword hk).apply fun _ _ => by rw [h]; rfl

theorem legible_bool (b : Bool) : Legible (.bool b) (if b then "true" else "false").toList := by
  cases b with
  | true =>
    have hk : "true" ∈ scriptGrammar.lexicon.keywords := by decide
    exact .of_keyword (.orRight (.orLeft ((PhrasedIn.keyword hk).apply fun _ _ => rfl)))
  | false =>
    have hk : "false" ∈ scriptGrammar.lexicon.keywords := by decide
    exact .of_keyword (.orRight (.orRight (.orLeft ((PhrasedIn.keyword hk).apply fun _ _ => rfl))))

theorem phrased_quoteText {script : Bool} {s : String} (h : script = true → '$' ∉ s.toList) :
    PhrasedIn script Any (quoteText s).toList textTok (·.lexeme = quoteText s) :=
  .token (.quoteText h)

theorem legible_text {s : String} (h : '$' ∉ s.toList) : Legible (.text s) (quoteText s).toList := by
  refine .of_operand (.orLeft ?_)
  refine ((phrased_quoteText fun _ => h).anywhere).apply fun k hk => ?_
  rw [textExp, hk, unquoteText_quoteText]
  rfl

theorem legible_blob {bytes : Bytes} (h : 36 ∉ bytes) :
    Legible (.blob bytes) (blobText bytes).toList := by
  have hk : "blob" ∈ scriptGrammar.lexicon.keywords := by decide
  have hq : Phrased Apart (quoteBytes bytes).toList textTok (·.lexeme = quoteBytes bytes) :=
    (PhrasedIn.token (.quoteBytes fun _ => h)).anywhere
  have hshape : (blobText bytes).toList = "blob".toList ++ ' ' :: (quoteBytes bytes).toList := by
    rw [blobText, String.toList_append]
    rfl
  rw [hshape]
  refine .of_keyword ?_
  iterate 5 apply PhrasedIn.orRight
  refine .orLeft ((hq.behindKeyword hk).apply fun k hk => ?_)
  rw [hk, unquoteBytes_quoteBytes]
  rfl

/-! ## Numbers -/

theorem phrased_number {n : Int} {cs : List Char} (h : Spells n.natAbs cs) :
    Phrased Apart (signOf n ++ cs) operand (· = .ok (.literal (.number n))) := by
  obtain ⟨c, rest, rfl, hc, hrest⟩ := h.head
  have hnumber := number_of_spells h
  have hdigits : Phrased Apart (c :: rest) numberTok (·.lexeme = String.ofList (c :: rest)) :=
    .token (.digits hc hrest)
  rw [signOf] at hnumber ⊢
  split at hnumber
  case isTrue hn =>
    rw [if_pos hn]
    iterate 3 apply PhrasedIn.orRight
    refine .orLeft ((PhrasedIn.token (.minus hc)).seqRight (.orLeft (hdigits.apply fun k hk => ?_))
      fun _ _ => rfl)
    have hlexeme : "-" ++ k.lexeme = String.ofList (['-'] ++ c :: rest) := by
      rw [hk, String.ofList_append]
    rw [hlexeme, hnumber]
    rfl
  case isFalse hn =>
    rw [if_neg hn]
    refine .orRight (.orLeft (hdigits.apply fun k hk => ?_))
    rw [numberExp, hk]
    exact congrArg Phrase.value hnumber

theorem legible_number (n : Int) : Legible (.number n) (toString n).toList := by
  rw [toList_toString]
  exact .of_operand (phrased_number (spells_toDigits _))

theorem kind_spec (k : IntKind) : isIdentifier k.name = true ∧
    scriptGrammar.lexicon.keywords.contains k.name = false ∧ Ty.ofName k.name = .prim (.int k) := by
  cases k <;> exact ⟨rfl, by decide +kernel, rfl⟩

theorem legible_int (k : IntKind) (n : Int) :
    Legible (.int k n) (groupDigits n ++ " : " ++ k.name).toList where
  operand h := by cases h
  annotated := by
    obtain ⟨hid, hk, hty⟩ := kind_spec k
    have hname : Phrased Apart k.name.toList (Phrase.ref .datatype) (· = .ok (.prim (.int k))) :=
      .ref (.orLeft ((PhrasedIn.name hid hk).apply fun t ht => by rw [ht, hty]))
    have htype : Phrased Apart ([':'] ++ ([' '] ++ k.name.toList)) Phrase.ofType
        (· = .ok (.prim (.int k))) :=
      (PhrasedIn.mark (by decide)).seqRight (hname.behindBlanks [' '] (by simp)) fun _ _ => trivial
    have hbehind := (phrased_type htype).behindBlanks [' '] (by simp)
    have hshape : (groupDigits n ++ " : " ++ k.name).toList
        = (signOf n ++ grouped n.natAbs) ++ ([' '] ++ ([':'] ++ ([' '] ++ k.name.toList))) := by
      rw [String.toList_append, String.toList_append, toList_groupDigits, List.append_assoc]
      rfl
    rw [hshape]
    refine (phrased_number (spells_grouped _)).map₂ hbehind (fun _ _ => apart_blank _) ?_
    intro e behind he hb
    rw [hb, he]
    rfl

/-! ## Principals -/

theorem mem_toChars {p : Principal} {c : Char} (h : c ∈ p.toChars) :
    quoteChar c = [c] ∧ c ≠ '$' := by
  obtain rfl | h := Principal.mem_dashed h
  · decide
  · obtain ⟨groups, hc⟩ := p.exists_groups
    rw [← Principal.checked, hc] at h
    obtain ⟨g, -, rfl⟩ := List.mem_map.mp h
    have : ∀ a b c d e : Bool, let x := (⟨a, b, c, d, e⟩ : Base32.Group).char
        quoteChar x = [x] ∧ x ≠ '$' := by decide +kernel
    exact this g.a g.b g.c g.d g.e

theorem quoteText_toText (p : Principal) : (quoteText p.toText).toList = '"' :: p.toChars ++ ['"'] := by
  have : p.toChars.flatMap quoteChar = p.toChars := by
    have hsingle : p.toChars.flatMap quoteChar = p.toChars.flatMap fun c => [c] :=
      List.flatMap_congr fun c hc => (mem_toChars hc).1
    rw [hsingle, List.flatMap_singleton']
  rw [quoteText, String.toList_ofList, Principal.toText, String.toList_ofList, this]

theorem principalOf_of_ofText {k : Token} {s : String} {p : Principal}
    (hk : Literal.unquoteText k.lexeme = .ok s) (hp : Principal.ofText s = .ok p) :
    Phrase.principalOf k = .ok p := by
  rw [Phrase.principalOf, hk]
  simp only [bind, Except.bind, hp]
  rfl

theorem phrased_principal (p : Principal) :
    Phrased Any ('"' :: p.toChars ++ ['"']) textTok (Phrase.principalOf · = .ok p) := by
  have hdollar : '$' ∉ p.toText.toList := by
    rw [Principal.toText, String.toList_ofList]
    exact fun h => (mem_toChars h).2 rfl
  have hquoted : Phrased Any (quoteText p.toText).toList textTok (·.lexeme = quoteText p.toText) :=
    phrased_quoteText fun _ => hdollar
  rw [quoteText_toText] at hquoted
  refine hquoted.imp fun k hk => principalOf_of_ofText ?_ p.ofText_toText
  rw [hk, unquoteText_quoteText]

theorem legible_principal (p : Principal) :
    Legible (.principal p) ("principal \"" ++ p.toText ++ "\"").toList := by
  have hk : "principal" ∈ scriptGrammar.lexicon.keywords := by decide
  have hshape : ("principal \"" ++ p.toText ++ "\"").toList
      = "principal".toList ++ ' ' :: ('"' :: p.toChars ++ ['"']) := by simp [Principal.toText]
  rw [hshape]
  refine .of_keyword ?_
  iterate 6 apply PhrasedIn.orRight
  refine .orLeft (((phrased_principal p).anywhere.behindKeyword hk).apply fun k hk => ?_)
  rw [hk]
  rfl

theorem legible_service (p : Principal) :
    Legible (.service p) ("service \"" ++ p.toText ++ "\"").toList := by
  have hk : "service" ∈ scriptGrammar.lexicon.keywords := by decide
  have hshape : ("service \"" ++ p.toText ++ "\"").toList
      = "service".toList ++ ' ' :: ('"' :: p.toChars ++ ['"']) := by simp [Principal.toText]
  rw [hshape]
  refine .of_keyword ?_
  iterate 7 apply PhrasedIn.orRight
  refine .orLeft (((phrased_principal p).anywhere.behindKeyword hk).apply fun k hk => ?_)
  rw [hk]
  rfl

theorem legible_func (p : Principal) {method : String} (h : IsPlainName method) :
    Legible (.func p method) ("func \"" ++ p.toText ++ "\"." ++ method).toList := by
  have hk : "func" ∈ scriptGrammar.lexicon.keywords := by decide
  have hshape : ("func \"" ++ p.toText ++ "\"." ++ method).toList
      = ("func".toList ++ ' ' :: ('"' :: p.toChars ++ ['"'])) ++ (['.'] ++ method.toList) := by
    simp [Principal.toText]
  have hmethod : Phrased Apart (['.'] ++ method.toList) (lit "." *> nameTok) (·.lexeme = method) :=
    (PhrasedIn.mark (by decide)).seqRight (.name h.1 h.2) fun _ _ => trivial
  rw [hshape]
  refine .of_keyword ?_
  iterate 8 apply PhrasedIn.orRight
  refine .orLeft (((phrased_principal p).behindKeyword hk).map₂ hmethod (fun _ _ => trivial) ?_)
  intro k m hk hm
  rw [hk, hm]
  rfl

end Syntax

end CanisterShell
