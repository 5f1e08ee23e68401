import CanisterShell.Document.Datum
import CanisterShell.Document.Json
import CanisterShell.Proofs.Bytes
import CanisterShell.Proofs.Text.Utf8
import Mathlib.Tactic.Common

/-!
# JSON read back

Entries whose keys are all different stay as they are when a map is made of them
(`ofEntries_of_pairwise`).  Plain data without numbers reads back as it was written, all on one line
or a part a line (`read?_write`).  What is written of a character is read as the character, whatever
stands behind it; a character beyond the basic plane is written as two halves.  All that is written
are line ends and characters that print in ASCII (`plain_write`).
-/

namespace CanisterShell.Datum

theorem put_of_new {key value : Datum} {entries : List (Datum × Datum)}
    (h : ∀ e ∈ entries, e.1.sameKey key = false) :
    put key value entries = entries ++ [(key, value)] := by
  induction entries with
  | nil => rfl
  | cons e entries ih =>
    obtain ⟨he, h⟩ := List.forall_mem_cons.mp h
    rw [put, if_neg (Bool.eq_false_iff.mp he), ih h]
    rfl

theorem foldl_put_of_pairwise (front : List (Datum × Datum)) {entries : List (Datum × Datum)}
    (h : (front ++ entries).Pairwise fun e e' => e.1.sameKey e'.1 = false) :
    entries.foldl (fun m e => put e.1 e.2 m) front = front ++ entries := by
  induction entries generalizing front with
  | nil => exact (List.append_nil front).symm
  | cons e entries ih =>
    have hnew : ∀ e' ∈ front, e'.1.sameKey e.1 = false := fun e' he' =>
      (List.pairwise_append.mp h).2.2 e' he' e (.head _)
    rw [List.append_cons] at h ⊢
    rw [List.foldl_cons, put_of_new hnew]
    exact ih _ h

/-- Entries whose keys are different make the map of them all. -/
theorem ofEntries_of_pairwise {entries : List (Datum × Datum)}
    (h : entries.Pairwise fun e e' => e.1.sameKey e'.1 = false) : ofEntries entries = map entries :=
  congrArg map (foldl_put_of_pairwise [] h)

end CanisterShell.Datum

namespace CanisterShell.Json

/-! ## Characters -/

theorem hexDigits_four (n : Nat) : Text.hexDigits 4 n =
    [Bytes.hexDigit (n / 0x1000 % 16), Bytes.hexDigit (n / 0x100 % 16),
      Bytes.hexDigit (n / 0x10 % 16), Bytes.hexDigit (n % 16)] := by
  simp only [Text.hexDigits, Nat.div_div_eq_div_mul, List.nil_append, List.cons_append]

theorem fourDigits?_hexDigits {n : Nat} (h : n < 0x10000) (rest : List Char) :
    fourDigits? (Text.hexDigits 4 n ++ rest) = some (n, rest) := by
  have hdigit (m : Nat) : Bytes.hexValue? (Bytes.hexDigit (m % 16)) = some (m % 16) :=
    (Bytes.hexDigit_reads (Nat.mod_lt m (by decide))).1
  rw [hexDigits_four]
  simp only [List.cons_append, List.nil_append, fourDigits?, List.foldlM_cons, List.foldlM_nil,
    hdigit, Option.map_some, Option.bind_eq_bind, Option.bind_some, Option.pure_def]
  congr 2
  omega

theorem numericEscape?_code {n : Nat} (h : n < 0x10000) (hn : isHighHalf n = false)
    (rest : List Char) : numericEscape? (Text.hexDigits 4 n ++ rest) = some (charOf n, rest) := by
  rw [numericEscape?, fourDigits?_hexDigits h, Option.bind_eq_bind, Option.bind_some]
  dsimp only
  split
  · rw [hn, if_neg Bool.false_ne_true]
    rfl
  · rfl

theorem numericEscape?_halves {n : Nat} (h : n < 0x100000) (rest : List Char) :
    numericEscape? (Text.hexDigits 4 (0xD800 + n / 0x400) ++
      (escapeCode (0xDC00 + n % 0x400) ++ rest)) = some (Char.ofNat (0x10000 + n), rest) := by
  have hhigh : isHighHalf (0xD800 + n / 0x400) = true := by
    simp only [isHighHalf, Bool.and_eq_true, decide_eq_true_eq]
    omega
  have hlow : isLowHalf (0xDC00 + n % 0x400) = true := by
    simp only [isLowHalf, Bool.and_eq_true, decide_eq_true_eq]
    omega
  have hcode : 0x10000 + (0xD800 + n / 0x400 - 0xD800) * 0x400 + (0xDC00 + n % 0x400 - 0xDC00) =
      0x10000 + n := by omega
  rw [numericEscape?, fourDigits?_hexDigits (by omega), Option.bind_eq_bind, Option.bind_some,
    escapeCode, List.cons_append, List.cons_append]
  have hlowCode : 0xDC00 + n % 0x400 < 0x10000 := by omega
  simp only [hhigh, hlow, if_pos, fourDigits?_hexDigits hlowCode, Option.bind_some, hcode,
    Option.pure_def]

theorem charOf_toNat (c : Char) : charOf c.toNat = c := by
  have hscalar : Literal.isScalar c.toNat = true := by
    have := Utf8.toNat_valid c
    simp only [Literal.isScalar, Bool.and_eq_true, Bool.not_eq_true', decide_eq_true_eq,
      Bool.and_eq_false_iff, decide_eq_false_iff_not]
    omega
  rw [charOf, hscalar, if_pos rfl, Char.ofNat_toNat]

theorem isHighHalf_toNat (c : Char) : isHighHalf c.toNat = false := by
  have := Utf8.toNat_valid c
  simp only [isHighHalf, Bool.and_eq_false_iff, decide_eq_false_iff_not]
  omega

/-- The letters that stand behind a backslash in what is written. -/
def escapeLetters : List Char := ['"', '\\', 'n', 'r', 't', 'b', 'f']

/-- The four ways to write a character: a letter, the character itself, its code and, beyond the
basic plane, the codes of its halves. -/
theorem quoteChar_cases (c : Char) :
    (∃ e ∈ escapeLetters, letterEscape? e = some c ∧ quoteChar c = ['\\', e]) ∨
    (0x20 ≤ c.toNat ∧ c.toNat < 0x7F ∧ c ≠ '"' ∧ c ≠ '\\' ∧ quoteChar c = [c]) ∨
    (c.toNat < 0x10000 ∧ quoteChar c = escapeCode c.toNat) ∨
    (∃ n < 0x100000, Char.ofNat (0x10000 + n) = c ∧
      quoteChar c = escapeCode (0xD800 + n / 0x400) ++ escapeCode (0xDC00 + n % 0x400)) := by
  obtain rfl | hquote := eq_or_ne c '"'
  · exact .inl ⟨'"', by decide, rfl, rfl⟩
  obtain rfl | hslash := eq_or_ne c '\\'
  · exact .inl ⟨'\\', by decide, rfl, rfl⟩
  obtain rfl | hn := eq_or_ne c '\n'
  · exact .inl ⟨'n', by decide, rfl, rfl⟩
  obtain rfl | hr := eq_or_ne c '\r'
  · exact .inl ⟨'r', by decide, rfl, rfl⟩
  obtain rfl | ht := eq_or_ne c '\t'
  · exact .inl ⟨'t', by decide, rfl, rfl⟩
  obtain rfl | hb := eq_or_ne c '\x08'
  · exact .inl ⟨'b', by decide, rfl, rfl⟩
  obtain rfl | hf := eq_or_ne c '\x0c'
  · exact .inl ⟨'f', by decide, rfl, rfl⟩
  right
  rw [quoteChar, if_neg hquote, if_neg hslash, if_neg hn, if_neg hr, if_neg ht, if_neg hb,
    if_neg hf]
  by_cases hplain : (0x20 ≤ c.toNat && c.toNat < 0x7F) = true
  · obtain ⟨hlow, hhigh⟩ := Bool.and_eq_true_iff.mp hplain
    exact .inl ⟨of_decide_eq_true hlow, of_decide_eq_true hhigh, hquote, hslash, if_pos hplain⟩
  rw [if_neg hplain]
  by_cases hbasic : c.toNat < 0x10000
  · exact .inr (.inl ⟨hbasic, if_pos hbasic⟩)
  have hvalid := Utf8.toNat_valid c
  refine .inr (.inr ⟨c.toNat - 0x10000, by omega, ?_, if_neg hbasic⟩)
  rw [Nat.add_sub_cancel' (by omega), Char.ofNat_toNat]

theorem text?_quoteChar (c : Char) (fuel : Nat) (rest : List Char) :
    text? (fuel + 1) (quoteChar c ++ rest) = (text? fuel rest).map fun p => (c :: p.1, p.2) := by
  have hbind : (text? fuel rest >>= fun p => some (c :: p.1, p.2)) =
      (text? fuel rest).map fun p => (c :: p.1, p.2) := Option.map_eq_bind.symm
  obtain ⟨e, he, hletter, h⟩ | ⟨hlow, -, hquote, hslash, h⟩ | ⟨hbasic, h⟩ | ⟨n, hn, hc, h⟩ :=
    quoteChar_cases c
  · have hnumber : e ≠ 'u' := by
      rintro rfl
      exact absurd he (by decide)
    rw [h, List.cons_append, List.singleton_append, text?.eq_5 _ _ _ hnumber, hletter]
    exact hbind
  · have hnot : ¬(decide (c.toNat < 0x20) || decide (c = '\\')) = true := by
      simp only [Bool.or_eq_true, decide_eq_true_eq, hslash, or_false]
      omega
    rw [h, List.singleton_append, text?.eq_6 _ _ _ hquote (fun _ h _ => hslash h)
      (fun _ _ h _ => hslash h), if_neg hnot]
    exact hbind
  · rw [h, escapeCode, List.cons_append, List.cons_append, text?,
      numericEscape?_code hbasic (isHighHalf_toNat c), charOf_toNat]
    exact hbind
  · rw [h, List.append_assoc, escapeCode, List.cons_append, List.cons_append, text?,
      numericEscape?_halves hn, hc]
    exact hbind

theorem text?_quoted (cs : List Char) {fuel : Nat} (hfuel : cs.length < fuel) (rest : List Char) :
    text? fuel (cs.flatMap quoteChar ++ '"' :: rest) = some (cs, rest) := by
  induction cs generalizing fuel with
  | nil =>
    obtain ⟨fuel, rfl⟩ := Nat.exists_eq_add_of_le' hfuel
    rfl
  | cons c cs ih =>
    obtain ⟨fuel, rfl⟩ := Nat.exists_eq_add_of_le' (Nat.lt_of_le_of_lt (Nat.zero_le _) hfuel)
    rw [List.flatMap_cons, List.append_assoc, text?_quoteChar,
      ih (Nat.lt_of_succ_lt_succ hfuel)]
    rfl

/-! ## Blanks -/

/-- Characters that are skipped. -/
def Blank (cs : List Char) : Prop := ∀ c ∈ cs, isBlank c = true

theorem skip_cons {c : Char} (hc : isBlank c = false) (cs : List Char) :
    skip (c :: cs) = c :: cs :=
  List.dropWhile_cons_of_neg (Bool.eq_false_iff.mp hc)

theorem skip_blank {bs : List Char} (h : Blank bs) {c : Char} (hc : isBlank c = false)
    (cs : List Char) : skip (bs ++ c :: cs) = c :: cs := by
  rw [skip, List.dropWhile_append_of_pos h]
  exact skip_cons hc cs

/-- A style that sets the parts of a container apart by blanks and a comma only. -/
structure Style.Spaced (style : Style) : Prop where
  opening (level : Nat) : Blank (style.opening level).toList
  between (level : Nat) : ∃ bs, (style.between level).toList = ',' :: bs ∧ Blank bs
  closing (level : Nat) : Blank (style.closing level).toList

theorem blank_newLine (level : Nat) : Blank (newLine level).toList := by
  rw [newLine, String.toList_ofList]
  refine List.forall_mem_cons.mpr ⟨rfl, fun c hc => ?_⟩
  rw [List.eq_of_mem_replicate hc]
  rfl

theorem spaced_indented : indented.Spaced where
  opening _ := blank_newLine _
  between _ := ⟨_, String.toList_append, blank_newLine _⟩
  closing _ := blank_newLine _

/-! ## Parts of containers -/

/-- What is read behind a part: the end of the container, or a comma and more parts. -/
def continued {α : Type} (more : List Char → Option (List α × List Char)) (close : Char) (a : α)
    (rest : List Char) : Option (List α × List Char) :=
  match skip rest with
  | [] => none
  | c :: rest =>
    if c = close then some ([a], rest)
    else if c = ',' then (more (skip rest)).map fun p => (a :: p.1, p.2)
    else none

/-- The reader of parts reads a part from its text, whatever stands behind it. -/
structure ReadsPart {α : Type} (parts? : Nat → List Char → Option (List α × List Char))
    (close : Char) (a : α) (text : String) : Prop where
  head : ∃ c cs, text.toList = c :: cs ∧ isBlank c = false ∧ c ≠ close
  part {fuel : Nat} (hfuel : text.length ≤ fuel) (rest : List Char) :
    parts? (fuel + 1) (text.toList ++ rest) = continued (parts? fuel) close a rest

section

variable {α : Type} {parts? : Nat → List Char → Option (List α × List Char)} {close : Char}
  {text : α → String}

theorem exists_head_intercalate (sep : String) {parts : List α}
    (h : ∀ a ∈ parts, ReadsPart parts? close a (text a)) (hne : parts ≠ []) :
    ∃ c cs, (sep.intercalate (parts.map text)).toList = c :: cs ∧ isBlank c = false ∧
      c ≠ close := by
  obtain ⟨a, parts, rfl⟩ := List.exists_cons_of_ne_nil hne
  obtain ⟨c, cs, htext, hc⟩ := (h a (.head _)).head
  by_cases hmore : parts.map text = []
  · rw [List.map_cons, hmore, String.intercalate_singleton]
    exact ⟨c, cs, htext, hc⟩
  · rw [List.map_cons, String.intercalate_cons_of_ne_nil hmore, String.toList_append,
      String.toList_append, htext, List.cons_append, List.cons_append]
    exact ⟨c, _, rfl, hc⟩

/-- Parts set apart by commas are read up to the end of the container. -/
theorem parts?_intercalate {sep : String} {bs blanks : List Char}
    (hsep : sep.toList = ',' :: bs) (hbs : Blank bs) (hblanks : Blank blanks)
    (hclose : isBlank close = false ∧ close ≠ ',') {parts : List α}
    (h : ∀ a ∈ parts, ReadsPart parts? close a (text a)) (hne : parts ≠ []) {fuel : Nat}
    (hfuel : (sep.intercalate (parts.map text)).length < fuel) (rest : List Char) :
    parts? fuel ((sep.intercalate (parts.map text)).toList ++ (blanks ++ close :: rest)) =
      some (parts, rest) := by
  induction parts generalizing fuel with
  | nil => cases hne rfl
  | cons a parts ih =>
    obtain ⟨fuel, rfl⟩ := Nat.exists_eq_add_of_le' (Nat.lt_of_le_of_lt (Nat.zero_le _) hfuel)
    obtain ⟨ha, hparts⟩ := List.forall_mem_cons.mp h
    rw [List.map_cons] at hfuel ⊢
    by_cases hmore : parts = []
    · subst hmore
      rw [List.map_nil, String.intercalate_singleton] at hfuel ⊢
      rw [ha.part (Nat.le_of_lt_succ hfuel), continued, skip_blank hblanks hclose.1]
      exact if_pos rfl
    · rw [String.intercalate_cons_of_ne_nil (List.map_eq_nil_iff.not.mpr hmore)] at hfuel ⊢
      rw [String.length_append, String.length_append] at hfuel
      have hpos : 0 < sep.length := by
        rw [← String.length_toList, hsep]
        exact Nat.succ_pos _
      obtain ⟨c, cs, hhead, hc, -⟩ := exists_head_intercalate sep hparts hmore
      rw [String.toList_append, String.toList_append, hsep, List.append_assoc, List.append_assoc,
        ha.part (by omega), continued, List.cons_append, skip_cons rfl]
      dsimp only
      rw [if_neg hclose.2.symm, if_pos rfl, hhead, List.cons_append, skip_blank hbs hc,
        ← List.cons_append, ← hhead, ih hparts hmore (by omega)]
      rfl

end

/-! ## Values -/

/-- A value is read from its text, whatever stands behind it. -/
structure Reads (d : Datum) (text : String) : Prop where
  head : ∃ c cs, text.toList = c :: cs ∧ isBlank c = false ∧ c ≠ ']'
  value {fuel : Nat} (hfuel : text.length ≤ fuel) (rest : List Char) :
    value? fuel (text.toList ++ rest) = some (d, rest)

theorem Reads.item {d : Datum} {text : String} (h : Reads d text) :
    ReadsPart items? ']' d text where
  head := h.head
  part {fuel} hfuel rest := by
    rw [items?.eq_2, h.value hfuel, Option.bind_eq_bind, Option.bind_some, continued]
    dsimp only
    cases skip rest with
    | nil => rfl
    | cons c rest =>
      dsimp only
      split
      · next heq =>
        cases heq
        rfl
      · next heq =>
        cases heq
        cases items? fuel (skip rest) <;> rfl
      · next hclose hcomma =>
        rw [if_neg fun hc => hclose _ (by rw [hc]), if_neg fun hc => hcomma _ (by rw [hc])]

theorem toList_quote (s : String) :
    (quote s).toList = '"' :: (s.toList.flatMap quoteChar ++ ['"']) := by
  rw [quote, String.toList_ofList, List.cons_append]

theorem length_lt_quote (s : String) : s.length + 1 < (quote s).length := by
  have hchar (c : Char) : 0 < (quoteChar c).length := by
    obtain ⟨e, -, -, h⟩ | ⟨-, -, -, -, h⟩ | ⟨-, h⟩ | ⟨n, -, -, h⟩ := quoteChar_cases c
    all_goals
      rw [h]
      exact Nat.succ_pos _
  have hchars (cs : List Char) : cs.length ≤ (cs.flatMap quoteChar).length := by
    induction cs with
    | nil => exact Nat.zero_le _
    | cons c cs ih =>
      have := hchar c
      rw [List.flatMap_cons, List.length_append, List.length_cons]
      omega
  have hquote : (quote s).length = (s.toList.flatMap quoteChar).length + 2 := by
    rw [← String.length_toList, toList_quote, List.length_cons, List.length_append]
    rfl
  have := hchars s.toList
  rw [String.length_toList] at this
  omega

theorem reads_text (s : String) : Reads (.text s) (quote s) where
  head := ⟨'"', _, toList_quote s, rfl, by decide⟩
  value {fuel} hfuel rest := by
    have := length_lt_quote s
    obtain ⟨fuel, rfl⟩ := Nat.exists_eq_add_of_le' (show 1 ≤ fuel by omega)
    rw [toList_quote, List.cons_append, List.append_assoc, value?, List.singleton_append,
      text?_quoted _ (by rw [String.length_toList]; omega), Option.map_some]
    dsimp only
    rw [String.ofList_toList]

/-- An entry is read from its key and its value. -/
theorem Reads.entry {d : Datum} {text : String} (h : Reads d text) (key : String) :
    ReadsPart entries? '\x7d' (.text key, d) (quote key ++ ": " ++ text) where
  head := by
    rw [String.toList_append, String.toList_append, toList_quote, List.cons_append,
      List.cons_append]
    exact ⟨'"', _, rfl, rfl, by decide⟩
  part {fuel} hfuel rest := by
    have hlength := length_lt_quote key
    rw [String.length_append, String.length_append] at hfuel
    obtain ⟨c, cs, hhead, hc, -⟩ := h.head
    have hcolon : (": " : String).toList = [':', ' '] := by simp
    have hspace : Blank [' '] := List.forall_mem_singleton.mpr rfl
    have hskip : skip ([' '] ++ (text.toList ++ rest)) = text.toList ++ rest := by
      rw [hhead]
      exact skip_blank hspace hc _
    have hshape : (quote key ++ ": " ++ text).toList ++ rest = '"' ::
        (key.toList.flatMap quoteChar ++ '"' :: ':' :: ([' '] ++ (text.toList ++ rest))) := by
      rw [String.toList_append, String.toList_append, toList_quote, hcolon]
      simp only [List.cons_append, List.append_assoc, List.nil_append]
    rw [hshape, entries?.eq_2, text?_quoted _ (by rw [String.length_toList]; omega),
      Option.bind_eq_bind, Option.bind_some]
    dsimp only
    rw [skip_cons rfl]
    simp only [hskip, h.value (show text.length ≤ fuel by omega), Option.bind_eq_bind,
      Option.bind_some, String.ofList_toList, continued]
    cases skip rest with
    | nil => rfl
    | cons c rest =>
      dsimp only
      split
      · next heq =>
        cases heq
        rfl
      · next heq =>
        cases heq
        cases entries? fuel (skip rest) <;> rfl
      · next hclose hcomma =>
        rw [if_neg fun hc => hclose _ (by rw [hc]), if_neg fun hc => hcomma _ (by rw [hc])]

/-! ## Words -/

theorem word?_append (word : String) (rest : List Char) :
    word? word (word.toList ++ rest) = some rest := by
  have hprefix : word.toList.isPrefixOf (word.toList ++ rest) = true :=
    List.isPrefixOf_iff_prefix.mpr (List.prefix_append _ _)
  rw [word?, if_pos hprefix, ← String.length_toList, List.drop_left]

theorem reads_scalar {d : Datum} {text : String} {c : Char} {cs : List Char}
    (htext : text.toList = c :: cs)
    (hc : isBlank c = false ∧ c ≠ ']' ∧ c ≠ '"' ∧ c ≠ '[' ∧ c ≠ '\x7b')
    (h : ∀ rest, scalar? (text.toList ++ rest) = some (d, rest)) : Reads d text where
  head := ⟨c, cs, htext, hc.1, hc.2.1⟩
  value {fuel} hfuel rest := by
    have hpos : 0 < text.length := by
      rw [← String.length_toList, htext]
      exact Nat.succ_pos _
    obtain ⟨fuel, rfl⟩ := Nat.exists_eq_add_of_le' (show 1 ≤ fuel by omega)
    rw [value?.eq_5, h]
    all_goals
      intro tail htail
      rw [htext] at htail
      cases htail
      simp at hc

theorem reads_null : Reads .null "null" := by
  have htext : "null".toList = ['n', 'u', 'l', 'l'] := by simp
  refine reads_scalar htext (by decide) fun rest => ?_
  rw [scalar?, word?_append]
  rfl

theorem reads_bool (b : Bool) : Reads (.bool b) (if b then "true" else "false") := by
  cases b with
  | true =>
    have htext : "true".toList = ['t', 'r', 'u', 'e'] := by simp
    refine reads_scalar htext (by decide) fun rest => ?_
    have hnot : word? "null" ("true".toList ++ rest) = none := by rw [htext]; rfl
    rw [if_pos rfl, scalar?, hnot, word?_append]
    rfl
  | false =>
    have htext : "false".toList = ['f', 'a', 'l', 's', 'e'] := by simp
    refine reads_scalar htext (by decide) fun rest => ?_
    have hnot : word? "null" ("false".toList ++ rest) = none := by rw [htext]; rfl
    have hnot' : word? "true" ("false".toList ++ rest) = none := by rw [htext]; rfl
    rw [if_neg Bool.false_ne_true, scalar?, hnot, hnot', word?_append]
    rfl

/-! ## Containers -/

/-- What is read behind an opening bracket and blanks: the closing one, or parts. -/
def inside {α : Type} (parts? : List Char → Option (List α × List Char)) (close : Char)
    (make : List α → Datum) : List Char → Option (Datum × List Char)
  | [] => (parts? []).map fun p => (make p.1, p.2)
  | c :: cs =>
    if c = close then some (make [], cs) else (parts? (c :: cs)).map fun p => (make p.1, p.2)

theorem reads_bracketed {α : Type} {parts? : Nat → List Char → Option (List α × List Char)}
    {o close : Char} {make : List α → Datum}
    (hopen : ∀ fuel cs, value? (fuel + 1) (o :: cs) = inside (parts? fuel) close make (skip cs))
    (ho : isBlank o = false ∧ o ≠ ']') (hclose : isBlank close = false ∧ close ≠ ',')
    {style : Style} (hstyle : style.Spaced) (level : Nat) {left right : String}
    (hleft : left.toList = [o]) (hright : right.toList = [close]) {parts : List α}
    {text : α → String} (h : ∀ a ∈ parts, ReadsPart parts? close a (text a)) :
    Reads (make parts) (bracketed style level left right (parts.map text)) := by
  by_cases hne : parts = []
  · subst hne
    have hshape : (bracketed style level left right ([].map text)).toList = [o, close] := by
      rw [List.map_nil, bracketed, List.isEmpty_nil, if_pos rfl, String.toList_append, hleft,
        hright, List.singleton_append]
    refine ⟨⟨o, _, hshape, ho⟩, fun {fuel} hfuel rest => ?_⟩
    rw [← String.length_toList, hshape] at hfuel
    obtain ⟨fuel, rfl⟩ := Nat.exists_eq_add_of_le' (Nat.lt_of_lt_of_le Nat.zero_lt_two hfuel)
    rw [hshape, List.cons_append, List.singleton_append, hopen, skip_cons hclose.1]
    exact if_pos rfl
  · obtain ⟨bs, hsep, hbs⟩ := hstyle.between level
    obtain ⟨c, cs, hhead, hc, hnot⟩ := exists_head_intercalate (style.between level) h hne
    have hnonempty : ¬(parts.map text).isEmpty = true := by
      rw [List.isEmpty_iff, List.map_eq_nil_iff]
      exact hne
    have hshape : (bracketed style level left right (parts.map text)).toList =
        o :: ((style.opening level).toList ++
          (((style.between level).intercalate (parts.map text)).toList ++
            ((style.closing level).toList ++ [close]))) := by
      rw [bracketed, if_neg hnonempty]
      simp only [String.toList_append, List.append_assoc, hleft, hright, List.cons_append,
        List.nil_append]
    refine ⟨⟨o, _, hshape, ho⟩, fun {fuel} hfuel rest => ?_⟩
    rw [← String.length_toList, hshape] at hfuel
    simp only [List.length_cons, List.length_append, List.length_nil, String.length_toList] at hfuel
    obtain ⟨fuel, rfl⟩ := Nat.exists_eq_add_of_le' (show 1 ≤ fuel by omega)
    have hparts := parts?_intercalate hsep hbs (hstyle.closing level) hclose h hne
      (show _ < fuel by omega) rest
    rw [hhead] at hparts
    rw [hshape, hhead]
    simp only [List.cons_append, List.append_assoc, List.nil_append] at hparts ⊢
    rw [hopen, skip_blank (hstyle.opening level) hc, inside, if_neg hnot, hparts]
    rfl

theorem value?_open_list (fuel : Nat) (cs : List Char) :
    value? (fuel + 1) ('[' :: cs) = inside (items? fuel) ']' .list (skip cs) := by
  rw [value?.eq_3]
  cases skip cs with
  | nil => rfl
  | cons c cs =>
    rw [inside]
    split
    · next heq =>
      cases heq
      rfl
    · next hclose => rw [if_neg fun hc => hclose _ (by rw [hc])]

theorem value?_open_map (fuel : Nat) (cs : List Char) :
    value? (fuel + 1) ('\x7b' :: cs) = inside (entries? fuel) '\x7d' Datum.ofEntries (skip cs) := by
  rw [value?.eq_4]
  cases skip cs with
  | nil => rfl
  | cons c cs =>
    rw [inside]
    split
    · next heq =>
      cases heq
      rfl
    · next hclose => rw [if_neg fun hc => hclose _ (by rw [hc])]

/-! ## Documents -/

/-- Plain data without numbers, in which no key of a map occurs twice. -/
inductive Regular : Datum → Prop
  | null : Regular .null
  | bool (b : Bool) : Regular (.bool b)
  | text (s : String) : Regular (.text s)
  | list {items : List Datum} : (∀ d ∈ items, Regular d) → Regular (.list items)
  | map {entries : List (Datum × Datum)} : (∀ e ∈ entries, ∃ s, e.1 = .text s) →
    entries.Pairwise (fun e e' => e.1.sameKey e'.1 = false) → (∀ e ∈ entries, Regular e.2) →
    Regular (.map entries)

theorem writeItems_eq_map (style : Style) (level : Nat) (items : List Datum) :
    writeItems style level items = items.map (write style level) := by
  induction items with
  | nil => rfl
  | cons d items ih => rw [writeItems, ih, List.map_cons]

theorem writeEntries_eq_map (style : Style) (level : Nat) (entries : List (Datum × Datum)) :
    writeEntries style level entries =
      entries.map fun e => keyText e.1 ++ ": " ++ write style level e.2 := by
  induction entries with
  | nil => rfl
  | cons e entries ih => rw [writeEntries, ih, List.map_cons]

theorem reads_write {style : Style} (hstyle : style.Spaced) {d : Datum} (h : Regular d)
    (level : Nat) : Reads d (write style level d) := by
  induction h generalizing level with
  | null => exact reads_null
  | bool b => exact reads_bool b
  | text s => exact reads_text s
  | list _ ih =>
    rw [write, writeItems_eq_map]
    exact reads_bracketed value?_open_list (by decide) (by decide) hstyle level (by simp) (by simp)
      fun d hd => (ih d hd _).item
  | map hkeys hdistinct _ ih =>
    rw [write, writeEntries_eq_map, ← Datum.ofEntries_of_pairwise hdistinct]
    refine reads_bracketed value?_open_map (by decide) (by decide) hstyle level (by simp) (by simp)
      fun e he => ?_
    obtain ⟨key, hkey⟩ := hkeys e he
    have hentry := (ih e he (level + 1)).entry key
    rw [← hkey] at hentry
    rw [hkey]
    exact hentry

/-- A document without numbers reads back as it was written. -/
theorem read?_write {style : Style} (hstyle : style.Spaced) {d : Datum} (h : Regular d)
    (level : Nat) : read? (write style level d) = some d := by
  obtain ⟨⟨c, cs, hhead, hc, -⟩, hvalue⟩ := reads_write hstyle h level
  have hfuel : (write style level d).length ≤ 2 * (write style level d).toList.length + 2 := by
    rw [String.length_toList]
    omega
  have hread := hvalue hfuel []
  rw [List.append_nil] at hread
  have hskip : skip (write style level d).toList = (write style level d).toList := by
    rw [hhead]
    exact skip_cons hc cs
  rw [read?, hskip, hread]
  rfl

/-! ## What is written -/

/-- A line end, or a character that prints in ASCII. -/
def isPlain (c : Char) : Bool := c = '\n' || (0x20 ≤ c.toNat && c.toNat < 0x7F)

/-- A text of such characters. -/
def Plain (s : String) : Prop := ∀ c ∈ s.toList, isPlain c = true

instance (s : String) : Decidable (Plain s) :=
  decidable_of_iff (s.toList.all isPlain = true) List.all_eq_true

namespace Plain

theorem append {s t : String} (hs : Plain s) (ht : Plain t) : Plain (s ++ t) := by
  intro c hc
  rw [String.toList_append, List.mem_append] at hc
  exact hc.elim (hs c) (ht c)

theorem intercalate {sep : String} (hsep : Plain sep) {parts : List String}
    (h : ∀ part ∈ parts, Plain part) : Plain (sep.intercalate parts) := by
  induction parts with
  | nil => exact nofun
  | cons part parts ih =>
    obtain ⟨hpart, hparts⟩ := List.forall_mem_cons.mp h
    by_cases hmore : parts = []
    · rw [hmore, String.intercalate_singleton]
      exact hpart
    · rw [String.intercalate_cons_of_ne_nil hmore]
      exact (hpart.append hsep).append (ih hparts)

theorem escapeCode (n : Nat) : ∀ c ∈ Json.escapeCode n, isPlain c = true := by
  have hdigit (m : Nat) : isPlain (Bytes.hexDigit (m % 16)) = true := by
    have hall : ∀ k < 16, isPlain (Bytes.hexDigit k) = true := by decide +kernel
    exact hall _ (Nat.mod_lt m (by decide))
  rw [Json.escapeCode, hexDigits_four]
  simp only [List.forall_mem_cons]
  exact ⟨rfl, rfl, hdigit _, hdigit _, hdigit _, hdigit _, List.forall_mem_nil _⟩

theorem quoteChar (c : Char) : ∀ c' ∈ Json.quoteChar c, isPlain c' = true := by
  obtain ⟨e, he, -, h⟩ | ⟨hlow, hhigh, -, -, h⟩ | ⟨-, h⟩ | ⟨n, -, -, h⟩ := quoteChar_cases c
  · have hletters : escapeLetters.all isPlain = true := by decide
    rw [h]
    exact List.forall_mem_cons.mpr
      ⟨rfl, List.forall_mem_singleton.mpr (List.all_eq_true.mp hletters e he)⟩
  · rw [h, List.forall_mem_singleton, isPlain, decide_eq_true hlow, decide_eq_true hhigh,
      Bool.and_true, Bool.or_true]
  · rw [h]
    exact escapeCode _
  · rw [h]
    exact List.forall_mem_append.mpr ⟨escapeCode _, escapeCode _⟩

theorem quote (s : String) : Plain (Json.quote s) := by
  intro c hc
  rw [toList_quote, List.mem_cons, List.mem_append, List.mem_singleton, List.mem_flatMap] at hc
  obtain rfl | ⟨c', -, hc⟩ | rfl := hc
  · rfl
  · exact quoteChar c' c hc
  · rfl

theorem bracketed {style : Style} {level : Nat} {left right : String} {parts : List String}
    (hopening : Plain (style.opening level)) (hbetween : Plain (style.between level))
    (hclosing : Plain (style.closing level)) (hleft : Plain left) (hright : Plain right)
    (h : ∀ part ∈ parts, Plain part) : Plain (Json.bracketed style level left right parts) := by
  rw [Json.bracketed]
  split
  · exact hleft.append hright
  · exact (((hleft.append hopening).append (hbetween.intercalate h)).append hclosing).append hright

end Plain

/-- A style that sets the parts of a container apart by plain characters. -/
structure Style.Plain (style : Style) : Prop where
  opening (level : Nat) : Json.Plain (style.opening level)
  between (level : Nat) : Json.Plain (style.between level)
  closing (level : Nat) : Json.Plain (style.closing level)

theorem plain_newLine (level : Nat) : Plain (newLine level) := by
  intro c hc
  rw [newLine, String.toList_ofList, List.mem_cons] at hc
  obtain rfl | hc := hc
  · rfl
  · rw [List.eq_of_mem_replicate hc]
    rfl

theorem plain_indented : indented.Plain where
  opening _ := plain_newLine _
  between _ := Plain.append (by decide) (plain_newLine _)
  closing _ := plain_newLine _

/-- Everything beyond line ends and printable ASCII is escaped. -/
theorem plain_write {style : Style} (hstyle : style.Plain) {d : Datum} (h : Regular d)
    (level : Nat) : Plain (write style level d) := by
  induction h generalizing level with
  | null => exact (by decide : Plain "null")
  | bool b =>
    cases b with
    | true => exact (by decide : Plain "true")
    | false => exact (by decide : Plain "false")
  | text s => exact .quote s
  | list _ ih =>
    rw [write, writeItems_eq_map]
    refine .bracketed (hstyle.opening _) (hstyle.between _) (hstyle.closing _) (by decide)
      (by decide) ?_
    rw [List.forall_mem_map]
    exact fun d hd => ih d hd _
  | map hkeys _ _ ih =>
    rw [write, writeEntries_eq_map]
    refine .bracketed (hstyle.opening _) (hstyle.between _) (hstyle.closing _) (by decide)
      (by decide) ?_
    rw [List.forall_mem_map]
    intro e he
    obtain ⟨key, hkey⟩ := hkeys e he
    rw [hkey]
    exact ((Plain.quote key).append (by decide)).append (ih e he _)

end CanisterShell.Json
