import CanisterShell.Proofs.Syntax.Writing
import CanisterShell.Proofs.Text.Utf8
import CanisterShell.Syntax.Literal

/-!
# Quoted texts and byte strings

What stands between quotes is a row of pieces, each for a character or a byte: a character that is
neither a quote nor a backslash, or a backslash with the characters of an escape.  Pieces never end a
quotation, so a row of them between quotes matches the pattern of quotations; and whatever matches it is
one token in the eyes of every lexicon, in which blanking finds no comment (`Quotation.oneToken`).  Each
piece means the bytes of what it stands for, so what is read of a quotation is what has been quoted
(`quoted_read_back`).
-/

namespace CanisterShell.Syntax

open Candid
open Source (Kept)

/-- Characters between quotes that stand for one character or byte. -/
inductive Piece : List Char → Prop where
  | plain {c : Char} (hq : c ≠ '"') (hb : c ≠ '\\') : Piece [c]
  | escape {e : Char} {more : List Char} (he : e ≠ '\n') (h : ∀ c ∈ more, c ≠ '"' ∧ c ≠ '\\') :
      Piece ('\\' :: e :: more)

/-- What the pattern of quotations allows between the quotes: characters that are neither quotes nor
backslashes, and backslashes that take along a character that does not end the line. -/
inductive Enclosed : List Char → Prop
  | nil : Enclosed []
  | plain {c : Char} {cs : List Char} (hq : c ≠ '"') (hb : c ≠ '\\') (h : Enclosed cs) :
    Enclosed (c :: cs)
  | escape {e : Char} {cs : List Char} (he : e ≠ '\n') (h : Enclosed cs) : Enclosed ('\\' :: e :: cs)

/-- What the pattern of quotations matches. -/
def Quotation (cs : List Char) : Prop := ∃ body, Enclosed body ∧ cs = '"' :: body ++ ['"']

namespace Enclosed

variable {α : Type} {cs ds : List Char}

theorem append (h : Enclosed cs) (h' : Enclosed ds) : Enclosed (cs ++ ds) := by
  induction h with
  | nil => exact h'
  | plain hq hb _ ih => exact .plain hq hb ih
  | escape he _ ih => exact .escape he ih

theorem of_plain (h : ∀ c ∈ cs, c ≠ '"' ∧ c ≠ '\\') : Enclosed cs := by
  induction cs with
  | nil => exact .nil
  | cons c cs ih =>
    obtain ⟨⟨hq, hb⟩, hcs⟩ := List.forall_mem_cons.mp h
    exact .plain hq hb (ih hcs)

theorem of_piece (h : Piece cs) : Enclosed cs := by
  cases h with
  | plain hq hb => exact .plain hq hb .nil
  | escape he hmore => exact .escape he (of_plain hmore)

theorem flatMap {f : α → List Char} (h : ∀ a, Piece (f a)) (items : List α) :
    Enclosed (items.flatMap f) := by
  induction items with
  | nil => exact .nil
  | cons a items ih => exact (of_piece (h a)).append ih

/-- The end of a quotation is the first quote that no backslash takes along. -/
theorem quotedLength (h : Enclosed cs) (rest : List Char) :
    quotedLength (cs ++ '"' :: rest) = some (cs.length + 1) := by
  induction h with
  | nil => rfl
  | @plain c cs hq hb _ ih =>
    rw [List.cons_append, Syntax.quotedLength, ih]
    · rfl
    · exact hq
    · rintro _ _ rfl
      exact absurd rfl hb
    · rintro rfl
      exact absurd rfl hb
  | escape he _ ih =>
    rw [List.cons_append, List.cons_append, Syntax.quotedLength, if_neg he, ih]
    rfl

theorem kept (h : Enclosed cs) : Kept .text .text cs := by
  induction h with
  | nil => exact .nil
  | plain hq hb _ ih => exact (Kept.text hq hb).append ih
  | @escape e cs _ _ ih =>
    have first : Kept .text .text ['\\', e] := fun pos rest => rfl
    exact first.append ih

end Enclosed

theorem quotedLength_eq_some_iff {cs : List Char} {n : Nat} : quotedLength cs = some n ↔
    ∃ body rest, Enclosed body ∧ cs = body ++ '"' :: rest ∧ n = body.length + 1 := by
  constructor
  · intro h
    fun_induction quotedLength cs generalizing n with
    | case1 | case3 | case5 => cases h
    | case2 rest =>
      cases h
      exact ⟨[], rest, .nil, rfl, rfl⟩
    | case4 e cs he ih =>
      obtain ⟨m, hm, rfl⟩ := Option.map_eq_some_iff.mp h
      obtain ⟨body, rest, hbody, rfl, rfl⟩ := ih hm
      exact ⟨'\\' :: e :: body, rest, .escape he hbody, rfl, rfl⟩
    | case6 c cs hq hescape hlast ih =>
      have hb : c ≠ '\\' := by
        rintro rfl
        cases cs with
        | nil => exact hlast rfl rfl
        | cons d cs => exact hescape d cs rfl rfl
      obtain ⟨m, hm, rfl⟩ := Option.map_eq_some_iff.mp h
      obtain ⟨body, rest, hbody, rfl, rfl⟩ := ih hm
      exact ⟨c :: body, rest, .plain hq hb hbody, rfl, rfl⟩
  · rintro ⟨body, rest, hbody, rfl, rfl⟩
    exact hbody.quotedLength rest

theorem front?_text {lexicon : Lexicon} (cs : List Char) :
    front? lexicon ('"' :: cs) = (quotedLength cs).map fun n => (.text, n + 1) := rfl

namespace Quotation

variable {cs : List Char}

theorem flatMap {α : Type} {f : α → List Char} (h : ∀ a, Piece (f a)) (items : List α) :
    Quotation ('"' :: items.flatMap f ++ ['"']) := ⟨_, .flatMap h items, rfl⟩

theorem ne_nil (h : Quotation cs) : cs ≠ [] := by
  obtain ⟨body, -, rfl⟩ := h
  exact List.cons_ne_nil _ _

theorem isSpace (h : Quotation cs) : ∀ c ∈ cs.head?, isSpace c = false := by
  obtain ⟨body, -, rfl⟩ := h
  rintro c ⟨⟩
  rfl

theorem front? (h : Quotation cs) (lexicon : Lexicon) (rest : List Char) :
    front? lexicon (cs ++ rest) = some (.text, cs.length) := by
  obtain ⟨body, hbody, rfl⟩ := h
  rw [List.cons_append, List.cons_append, List.append_assoc, front?_text, List.singleton_append,
    hbody.quotedLength]
  simp

theorem kept (h : Quotation cs) : Kept .code .code cs := by
  obtain ⟨body, hbody, rfl⟩ := h
  have opening : Kept .code .text ['"'] := fun pos rest => rfl
  have closing : Kept .text .code ['"'] := fun pos rest => rfl
  exact (opening.append hbody.kept).append closing

/-- Of the beginnings of a text at most one is a quotation. -/
theorem eq_of_append {ds rest rest' : List Char} (h : Quotation cs) (h' : Quotation ds)
    (heq : cs ++ rest = ds ++ rest') : cs = ds := by
  have hfront := h.front? scriptGrammar.lexicon rest
  rw [heq, h'.front?] at hfront
  exact (List.append_inj heq (Prod.mk.inj (Option.some.inj hfront)).2.symm).1

end Quotation

/-- A literal that is one token of a text, and only as a whole, alone and in front of anything, and that
blanking leaves as it is. -/
structure OneToken (literal : String) : Prop where
  matched {front rest : List Char} (h : front <+: literal.toList ++ rest) :
    Quotation front ↔ front = literal.toList
  alone (lexicon : Lexicon) : ∃ span, scan lexicon literal.toList = ⟨[⟨.text, literal, span⟩], .complete⟩
  inFront (lexicon : Lexicon) (at_ : Cursor) (rest : List Char) :
    scanFrom lexicon at_ (literal.toList ++ rest)
      = ⟨⟨.text, literal,
            ⟨at_.offset, (at_.advance literal.toList).offset, at_.line, at_.column⟩⟩ ::
          (scanFrom lexicon (at_.advance literal.toList) rest).tokens,
        (scanFrom lexicon (at_.advance literal.toList) rest).ending⟩
  uncommented : Source.blankComments literal.toList = .ok literal.toList
  kept : Kept .code .code literal.toList

/-- What matches the pattern of quotations is one token and holds no comment. -/
theorem Quotation.oneToken {literal : String} (h : Quotation literal.toList) : OneToken literal := by
  have inFront (lexicon : Lexicon) (at_ : Cursor) (rest : List Char) :=
    scanFrom_token h.ne_nil h.isSpace (h.front? lexicon rest) at_
  simp only [String.ofList_toList] at inFront
  refine ⟨?_, fun lexicon => ?_, inFront, ?_, h.kept⟩
  · rintro front rest ⟨rest', hrest⟩
    exact ⟨fun hfront => hfront.eq_of_append h hrest, fun heq => heq ▸ h⟩
  · have hscan := inFront lexicon {} []
    rw [List.append_nil, scanFrom] at hscan
    exact ⟨_, hscan⟩
  · rw [Source.blankComments, h.kept.blankFrom_eq]

theorem WrittenIn.quoted {script : Bool} {α : Type} {f : α → List Char} (h : ∀ a, Piece (f a))
    {items : List α} (hplain : script = true → ∀ a ∈ items, ∀ c ∈ f a, c ≠ '$' ∧ c ≠ '\r') :
    WrittenIn script Any ('"' :: items.flatMap f ++ ['"'])
      [(.text, String.ofList ('"' :: items.flatMap f ++ ['"']))] := by
  have hquotation := Quotation.flatMap h items
  refine .token hquotation.ne_nil hquotation.isSpace (fun rest _ => hquotation.front? _ rest)
    hquotation.kept fun hscript c hc => ?_
  obtain hc | hc := List.mem_append.mp hc
  · obtain rfl | hc := List.mem_cons.mp hc
    · decide
    · obtain ⟨a, ha, hc⟩ := List.mem_flatMap.mp hc
      exact hplain hscript a ha c hc
  · rw [List.mem_singleton.mp hc]
    decide

/-! ## Texts -/

theorem hexText_spec {n : Nat} (h : n < 128) : hexText n ≠ [] ∧
    (∀ d ∈ hexText n, Literal.isHexOrUnderscore d = true ∧ d ≠ '_') ∧
      Literal.hexNumber (hexText n) = n := by
  have hall : ∀ n < 128, hexText n ≠ [] ∧
      ((hexText n).all fun d => Literal.isHexOrUnderscore d && d != '_') = true ∧
        Literal.hexNumber (hexText n) = n := by
    decide +kernel
  obtain ⟨hne, hdigits, hnumber⟩ := hall n h
  exact ⟨hne, fun d hd => by simpa using List.all_eq_true.mp hdigits d hd, hnumber⟩

theorem ne_of_isHexOrUnderscore {d : Char} (h : Literal.isHexOrUnderscore d = true) :
    d ≠ '"' ∧ d ≠ '\\' ∧ d ≠ '$' ∧ d ≠ '\r' ∧ d ≠ '\x7d' := by
  refine ⟨?_, ?_, ?_, ?_, ?_⟩ <;>
  · rintro rfl
    exact absurd h (by decide)

/-- How a character is quoted: it stands for itself, or there is an escape for it. -/
theorem quoteChar_cases (c : Char) :
    (c ≠ '"' ∧ c ≠ '\\' ∧ c ≠ '\r' ∧ quoteChar c = [c]) ∨
    (∃ e b, Literal.simpleEscape? e = some b ∧ quoteChar c = ['\\', e] ∧
      String.utf8EncodeChar c = [b]) ∨
    (c.toNat < 128 ∧ quoteChar c = '\\' :: 'u' :: '\x7b' :: hexText c.toNat ++ ['\x7d']) := by
  rw [quoteChar]
  split
  case isTrue h => exact .inr (.inl ⟨'"', 34, rfl, rfl, by rw [h]; rfl⟩)
  case isFalse hq =>
  split
  case isTrue h => exact .inr (.inl ⟨'\\', 92, rfl, rfl, by rw [h]; rfl⟩)
  case isFalse hb =>
  split
  case isTrue h => exact .inr (.inl ⟨'n', 10, rfl, rfl, by rw [h]; rfl⟩)
  case isFalse =>
  split
  case isTrue h => exact .inr (.inl ⟨'r', 13, rfl, rfl, by rw [h]; rfl⟩)
  case isFalse hr =>
  split
  case isTrue h => exact .inr (.inl ⟨'t', 9, rfl, rfl, by rw [h]; rfl⟩)
  case isFalse =>
  split
  case isTrue h =>
    rw [Bool.or_eq_true, decide_eq_true_eq, decide_eq_true_eq] at h
    exact .inr (.inr ⟨by omega, rfl⟩)
  case isFalse => exact .inl ⟨hq, hb, hr, rfl⟩

theorem simpleEscape?_ne {e : Char} {b : UInt8} (h : Literal.simpleEscape? e = some b) :
    e ≠ '\n' ∧ e ≠ '$' ∧ e ≠ '\r' := by
  refine ⟨?_, ?_, ?_⟩ <;>
  · rintro rfl
    cases h

theorem quoteChar_piece (c : Char) : Piece (quoteChar c) := by
  obtain ⟨hq, hb, -, h⟩ | ⟨e, b, he, h, -⟩ | ⟨hc, h⟩ := quoteChar_cases c
  · exact h ▸ .plain hq hb
  · exact h ▸ .escape (simpleEscape?_ne he).1 nofun
  · rw [h]
    refine .escape (by decide) fun d hd => ?_
    obtain hd | hd := List.mem_append.mp hd
    · obtain rfl | hd := List.mem_cons.mp hd
      · decide
      · have := ne_of_isHexOrUnderscore ((hexText_spec hc).2.1 d hd).1
        exact ⟨this.1, this.2.1⟩
    · rw [List.mem_singleton.mp hd]
      decide

theorem quoteChar_plain {c : Char} (hc : c ≠ '$') : ∀ d ∈ quoteChar c, d ≠ '$' ∧ d ≠ '\r' := by
  obtain ⟨-, -, hr, h⟩ | ⟨e, b, he, h, -⟩ | ⟨hn, h⟩ := quoteChar_cases c
  · rw [h]
    rintro d hd
    rw [List.mem_singleton.mp hd]
    exact ⟨hc, hr⟩
  · rw [h]
    intro d hd
    obtain rfl | hd := List.mem_cons.mp hd
    · decide
    · rw [List.mem_singleton.mp hd]
      exact (simpleEscape?_ne he).2
  · rw [h]
    intro d hd
    simp only [List.cons_append, List.mem_cons, List.mem_append, List.not_mem_nil, or_false] at hd
    obtain rfl | rfl | rfl | hd | rfl := hd
    · decide
    · decide
    · decide
    · exact ⟨(ne_of_isHexOrUnderscore ((hexText_spec hn).2.1 d hd).1).2.2.1,
        (ne_of_isHexOrUnderscore ((hexText_spec hn).2.1 d hd).1).2.2.2.1⟩
    · decide

theorem quotation_quoteText (s : String) : Quotation (quoteText s).toList := by
  rw [quoteText, String.toList_ofList]
  exact .flatMap quoteChar_piece s.toList

theorem WrittenIn.quoteText {script : Bool} {s : String} (h : script = true → '$' ∉ s.toList) :
    WrittenIn script Any (quoteText s).toList [(.text, Candid.quoteText s)] := by
  rw [Candid.quoteText, String.toList_ofList]
  refine .quoted quoteChar_piece fun hscript c hc => quoteChar_plain ?_
  exact fun he => h hscript (he ▸ hc)

theorem braced?_digits {digits : List Char} (hne : digits ≠ [])
    (h : ∀ d ∈ digits, Literal.isHexOrUnderscore d = true) (rest : List Char) :
    Literal.braced? ('\x7b' :: digits ++ '\x7d' :: rest) = some digits := by
  have htake : (digits ++ '\x7d' :: rest).takeWhile Literal.isHexOrUnderscore = digits :=
    takeWhile_append_of_head h fun d hd => by cases hd; rfl
  rw [List.cons_append, Literal.braced?, htake, List.drop_left]
  cases digits with
  | nil => exact absurd rfl hne
  | cons d digits => rfl

theorem braced?_hexText {n : Nat} (h : n < 128) (rest : List Char) :
    Literal.braced? ('\x7b' :: hexText n ++ '\x7d' :: rest) = some (hexText n) := by
  obtain ⟨hne, hdigits, -⟩ := hexText_spec h
  exact braced?_digits hne (fun d hd => (hdigits d hd).1) rest

attribute [local simp] Literal.unescapeFrom

theorem unescapeFrom_plain (body : String) {c : Char} (hb : c ≠ '\\') (rest : List Char) :
    Literal.unescapeFrom body (c :: rest)
      = (String.utf8EncodeChar c ++ ·) <$> Literal.unescapeFrom body rest := by
  rw [Literal.unescapeFrom]
  · rfl
  · rintro rfl
    exact absurd rfl hb
  · rintro _ _ rfl
    exact absurd rfl hb

theorem unescapeFrom_quoteChar (body : String) (c : Char) (rest : List Char) :
    Literal.unescapeFrom body (quoteChar c ++ rest)
      = (String.utf8EncodeChar c ++ ·) <$> Literal.unescapeFrom body rest := by
  obtain ⟨hq, hb, -, h⟩ | ⟨e, b, he, h, hbytes⟩ | ⟨hc, h⟩ := quoteChar_cases c
  · rw [h]
    exact unescapeFrom_plain body hb rest
  · rw [h, hbytes, List.cons_append, List.singleton_append, Literal.unescapeFrom.eq_def]
    simp only [he]
    rfl
  · obtain ⟨hne, hdigits, hnumber⟩ := hexText_spec hc
    have hletter : Literal.simpleEscape? 'u' = none := rfl
    have hany : (hexText c.toNat).all (· = '_') ≠ true := by
      obtain ⟨d, hd⟩ := List.exists_mem_of_ne_nil _ hne
      rw [ne_eq, List.all_eq_true]
      exact fun hall => (hdigits d hd).2 (by simpa using hall d hd)
    have hscalar : Literal.isScalar c.toNat = true := by
      rw [Literal.isScalar, Bool.and_eq_true, decide_eq_true_eq, Bool.not_eq_true',
        Bool.and_eq_false_iff, decide_eq_false_iff_not]
      exact ⟨by omega, .inl (by omega)⟩
    have hdrop : ('\x7b' :: hexText c.toNat ++ '\x7d' :: rest).drop ((hexText c.toNat).length + 2)
        = rest := by simp
    have hshape : quoteChar c ++ rest
        = '\\' :: 'u' :: ('\x7b' :: hexText c.toNat ++ '\x7d' :: rest) := by simp [h]
    have hdigit : Bytes.hexValue? 'u' = none := rfl
    rw [hshape, Literal.unescapeFrom.eq_4 _ _ _ fun _ _ _ h _ => Option.some_ne_none _ (h.symm.trans hdigit),
      hletter]
    dsimp only
    rw [if_pos rfl, braced?_hexText hc]
    dsimp only
    rw [if_neg hany, hnumber, if_pos hscalar, hdrop, Char.ofNat_toNat]
    rfl

theorem unescapeFrom_flatMap_quoteChar (body : String) (cs : List Char) :
    Literal.unescapeFrom body (cs.flatMap quoteChar)
      = .ok (cs.flatMap String.utf8EncodeChar) := by
  induction cs with
  | nil =>
    rw [List.flatMap_nil, Literal.unescapeFrom]
    rfl
  | cons c cs ih =>
    rw [List.flatMap_cons, unescapeFrom_quoteChar, ih]
    rfl

theorem inner_quotation (cs : List Char) :
    Literal.inner (String.ofList ('"' :: cs ++ ['"'])) = String.ofList cs := by
  rw [Literal.inner, String.toList_ofList, List.cons_append, List.drop_one, List.tail_cons,
    List.dropLast_concat]

theorem unquoteText_quoteText (s : String) : Literal.unquoteText (quoteText s) = .ok s := by
  have hbytes : Literal.unquoteBytes (quoteText s) = .ok (Utf8.encode s) := by
    rw [Literal.unquoteBytes, quoteText, inner_quotation, Literal.unescape, String.toList_ofList,
      unescapeFrom_flatMap_quoteChar]
    rfl
  simp only [Literal.unquoteText, hbytes]
  dsimp only [bind, Except.bind]
  rw [Utf8.decode?_encode]
  rfl

/-! ## Byte strings -/

theorem printable_spec {n : Nat} (h : n < 256) :
    (0x20 ≤ UInt8.ofNat n && UInt8.ofNat n < 0x7F && UInt8.ofNat n ≠ 0x22 && UInt8.ofNat n ≠ 0x5C)
      → Char.ofNat n ≠ '"' ∧ Char.ofNat n ≠ '\\' ∧ Char.ofNat n ≠ '\r' ∧
        (Char.ofNat n = '$' → n = 36) ∧
        String.utf8EncodeChar (Char.ofNat n) = [UInt8.ofNat n] := by
  revert n
  decide +kernel

theorem hexDigit_spec {n : Nat} (h : n < 16) : Bytes.hexValue? (Bytes.hexDigit n) = some n ∧
    Literal.simpleEscape? (Bytes.hexDigit n) = none ∧ Bytes.hexDigit n ≠ 'u' ∧
    Bytes.hexDigit n ≠ '\n' ∧ Literal.isHexOrUnderscore (Bytes.hexDigit n) = true := by
  revert n
  decide +kernel

/-- How a byte is quoted: as a character, or by its two digits. -/
theorem quoteByte_cases (b : UInt8) :
    (∃ c, c ≠ '"' ∧ c ≠ '\\' ∧ c ≠ '\r' ∧ (c = '$' → b = 36) ∧ quoteByte b = [c] ∧
      String.utf8EncodeChar c = [b]) ∨
    quoteByte b = ['\\', Bytes.hexDigit (b.toNat / 16), Bytes.hexDigit (b.toNat % 16)] := by
  rw [quoteByte]
  split
  case isTrue h =>
    rw [← UInt8.ofNat_toNat (x := b)] at h
    obtain ⟨hq, hb, hr, hd, hbytes⟩ := printable_spec b.toNat_lt h
    rw [UInt8.ofNat_toNat] at hbytes
    exact .inl ⟨_, hq, hb, hr, fun h => UInt8.toNat_inj.mp (hd h), rfl, hbytes⟩
  case isFalse => exact .inr rfl

theorem quoteByte_piece (b : UInt8) : Piece (quoteByte b) := by
  have hhi : b.toNat / 16 < 16 := by have := b.toNat_lt; omega
  have hlo : b.toNat % 16 < 16 := Nat.mod_lt _ (by decide)
  obtain ⟨c, hq, hb, -, -, h, -⟩ | h := quoteByte_cases b
  · exact h ▸ .plain hq hb
  · rw [h]
    refine .escape (hexDigit_spec hhi).2.2.2.1 fun d hd => ?_
    rw [List.mem_singleton.mp hd]
    have := ne_of_isHexOrUnderscore (hexDigit_spec hlo).2.2.2.2
    exact ⟨this.1, this.2.1⟩

theorem quoteByte_plain {b : UInt8} (hb : b ≠ 36) : ∀ d ∈ quoteByte b, d ≠ '$' ∧ d ≠ '\r' := by
  have hhi : b.toNat / 16 < 16 := by have := b.toNat_lt; omega
  have hlo : b.toNat % 16 < 16 := Nat.mod_lt _ (by decide)
  obtain ⟨c, -, -, hr, hd, h, -⟩ | h := quoteByte_cases b
  · rw [h]
    intro d hmem
    rw [List.mem_singleton.mp hmem]
    exact ⟨fun he => hb (hd he), hr⟩
  · rw [h]
    intro d hmem
    simp only [List.mem_cons, List.not_mem_nil, or_false] at hmem
    obtain rfl | rfl | rfl := hmem
    · decide
    · have := ne_of_isHexOrUnderscore (hexDigit_spec hhi).2.2.2.2
      exact ⟨this.2.2.1, this.2.2.2.1⟩
    · have := ne_of_isHexOrUnderscore (hexDigit_spec hlo).2.2.2.2
      exact ⟨this.2.2.1, this.2.2.2.1⟩

theorem quotation_quoteBytes (bytes : Bytes) : Quotation (quoteBytes bytes).toList := by
  rw [quoteBytes, String.toList_ofList]
  exact .flatMap quoteByte_piece bytes

theorem WrittenIn.quoteBytes {script : Bool} {bytes : Bytes} (h : script = true → 36 ∉ bytes) :
    WrittenIn script Any (quoteBytes bytes).toList [(.text, Candid.quoteBytes bytes)] := by
  rw [Candid.quoteBytes, String.toList_ofList]
  refine .quoted quoteByte_piece fun hscript b hb => quoteByte_plain ?_
  exact fun he => h hscript (he ▸ hb)

theorem unescapeFrom_quoteByte (body : String) (b : UInt8) (rest : List Char) :
    Literal.unescapeFrom body (quoteByte b ++ rest)
      = (b :: ·) <$> Literal.unescapeFrom body rest := by
  have hhi : b.toNat / 16 < 16 := by have := b.toNat_lt; omega
  have hlo : b.toNat % 16 < 16 := Nat.mod_lt _ (by decide)
  obtain ⟨c, hq, hb, -, -, h, hbytes⟩ | h := quoteByte_cases b
  · rw [h, List.singleton_append, unescapeFrom_plain body hb, hbytes]
    rfl
  · obtain ⟨hd, he, hu, -⟩ := hexDigit_spec hhi
    obtain ⟨hd', -⟩ := hexDigit_spec hlo
    have hbyte : UInt8.ofNat (16 * (b.toNat / 16) + b.toNat % 16) = b := by
      rw [Nat.div_add_mod, UInt8.ofNat_toNat]
    rw [h, List.cons_append, List.cons_append, List.singleton_append,
      Literal.unescapeFrom.eq_3 _ _ _ _ _ hd, he]
    dsimp only
    rw [if_neg hu, hd']
    dsimp only
    rw [hbyte]
    rfl

theorem unescapeFrom_flatMap_quoteByte (body : String) (bytes : Bytes) :
    Literal.unescapeFrom body (bytes.flatMap quoteByte) = .ok bytes := by
  induction bytes with
  | nil =>
    rw [List.flatMap_nil, Literal.unescapeFrom]
  | cons b bytes ih =>
    rw [List.flatMap_cons, unescapeFrom_quoteByte, ih]
    rfl

theorem unquoteBytes_quoteBytes (bytes : Bytes) :
    Literal.unquoteBytes (quoteBytes bytes) = .ok bytes := by
  rw [Literal.unquoteBytes, Candid.quoteBytes, inner_quotation, Literal.unescape,
    String.toList_ofList, unescapeFrom_flatMap_quoteByte]

theorem WrittenIn.blobText (bytes : Bytes) : WrittenIn false Any (Candid.blobText bytes).toList
    [(.fixed "blob", "blob"), (.text, Candid.quoteBytes bytes)] := by
  have hblank : WrittenIn false Any [' '] [] := .blank (by simp)
  have hquoted : WrittenIn false Any (Candid.quoteBytes bytes).toList
      [(.text, Candid.quoteBytes bytes)] := .quoteBytes fun h => nomatch h
  have hshape : (Candid.blobText bytes).toList
      = "blob".toList ++ ([' '] ++ (Candid.quoteBytes bytes).toList) := by
    rw [Candid.blobText, String.toList_append]
    rfl
  rw [hshape]
  exact (WrittenIn.keyword (by decide)).append (hblank.append_any hquoted) fun rest _ => apart_blank _

/-! ## Both -/

/-- The quotation of a text and the literal inside the form of a blob are one token each, hold no comment,
and are read as the text and as the bytes. -/
theorem quoted_read_back (s : String) (bytes : Bytes) :
    (OneToken (quoteText s) ∧ Literal.unquoteText (quoteText s) = .ok s) ∧
    ∃ literal, blobText bytes = "blob " ++ literal ∧
      (∃ ks, scan scriptGrammar.lexicon (blobText bytes).toList = ⟨ks, .complete⟩ ∧
        ks.map Token.word = [(.fixed "blob", "blob"), (.text, literal)]) ∧
      OneToken literal ∧ Literal.unquoteBytes literal = .ok bytes := by
  refine ⟨⟨(quotation_quoteText s).oneToken, unquoteText_quoteText s⟩, quoteBytes bytes, rfl, ?_,
    (quotation_quoteBytes bytes).oneToken, unquoteBytes_quoteBytes bytes⟩
  obtain ⟨ks, at', hks, hscan⟩ := (WrittenIn.blobText bytes).scanned {} trivial
  rw [List.append_nil, scanFrom, List.append_nil] at hscan
  exact ⟨ks, hscan, hks⟩

end CanisterShell.Syntax
