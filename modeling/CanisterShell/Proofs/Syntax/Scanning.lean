import CanisterShell.Proofs.Syntax.Blanking
import CanisterShell.Proofs.Syntax.Numeral
import CanisterShell.Proofs.Syntax.Quoting

/-!
# Tokens in front of a break

A text that is cut into tokens to its end is cut into the same ones in front of a line end, a comma or
a closing parenthesis, since no token of a script looks across one; and wherever the text stands, its
tokens are of the same words (`cuts_of_complete`).  Such a text ends outside of quoted texts
(`endsInText_of_complete`).
-/

namespace CanisterShell.Syntax

open Source (endsInText)

/-- What holds of the characters of a text is decided along the text.  All of Mathlib would go through
every character that there is. -/
instance decidableForallMem {p : Char → Prop} [DecidablePred p] (cs : List Char) :
    Decidable (∀ c ∈ cs, p c) := List.decidableBAll p cs

/-- The characters across which no token looks. -/
def breaks : List Char := ['\n', ',', ')']

/-- What is behind a text: nothing, or a character across which no token looks. -/
def AtBreak (rest : List Char) : Prop := ∀ c ∈ rest.head?, c ∈ breaks

theorem AtBreak.not {rest : List Char} (h : AtBreak rest) {p : Char → Bool}
    (hp : ∀ c ∈ breaks, p c = false) : ∀ c ∈ rest.head?, p c = false := fun c hc => hp c (h c hc)

theorem AtBreak.ne {rest : List Char} (h : AtBreak rest) {d : Char} (hd : d ∉ breaks)
    (tail : List Char) : rest ≠ d :: tail := by
  rintro rfl
  exact hd (h d rfl)

theorem atBreak_cons {c : Char} (hc : c ∈ breaks) (rest : List Char) : AtBreak (c :: rest) := by
  rintro d ⟨⟩
  exact hc

/-! ## Lengths -/

theorem takeWhile_break {p : Char → Bool} (hp : ∀ c ∈ breaks, p c = false) (cs : List Char)
    {rest : List Char} (h : AtBreak rest) : (cs ++ rest).takeWhile p = cs.takeWhile p := by
  induction cs with
  | nil => exact takeWhile_append_of_head (List.forall_mem_nil _) (h.not hp)
  | cons c cs ih => rw [List.cons_append, List.takeWhile_cons, List.takeWhile_cons, ih]

theorem exponentLength_unsigned {c d : Char} (hp : d ≠ '+') (hm : d ≠ '-') (cs : List Char) :
    exponentLength (c :: d :: cs) = partLength (fun c => c = 'e' || c = 'E') (c :: d :: cs) := by
  rw [exponentLength]
  · exact fun _ _ hd => hp (List.cons.inj (List.cons.inj hd).2).1
  · exact fun _ _ hd => hm (List.cons.inj (List.cons.inj hd).2).1

/-- The length of something in front, which a break behind it does not change. -/
structure WithinBreak (length : List Char → Nat) : Prop where
  le (cs : List Char) : length cs ≤ cs.length
  same (cs : List Char) {rest : List Char} (h : AtBreak rest) : length (cs ++ rest) = length cs

namespace WithinBreak

theorem digits : WithinBreak digitsLength where
  le cs := by
    cases cs with
    | nil => exact Nat.le_refl 0
    | cons c cs =>
      rw [digitsLength]
      split
      · exact Nat.succ_le_succ (List.takeWhile_prefix _).length_le
      · exact Nat.zero_le _
  same cs rest h := by
    cases cs with
    | nil =>
      cases rest with
      | nil => rfl
      | cons c rest =>
        have hc : c.isDigit = false := h.not (by decide) c rfl
        rw [List.nil_append, digitsLength, hc]
        rfl
    | cons c cs =>
      rw [List.cons_append, digitsLength, digitsLength, takeWhile_break (by decide) cs h]

theorem part {isMark : Char → Bool} (hmark : ∀ c ∈ breaks, isMark c = false) :
    WithinBreak (partLength isMark) where
  le cs := by
    cases cs with
    | nil => exact Nat.le_refl 0
    | cons c cs =>
      rw [partLength]
      split
      · exact Nat.succ_le_succ (digits.le cs)
      · exact Nat.zero_le _
  same cs rest h := by
    cases cs with
    | nil => exact partLength_eq_zero (h.not hmark)
    | cons c cs => rw [List.cons_append, partLength, partLength, digits.same cs h]

theorem exponent : WithinBreak exponentLength where
  le cs := by
    unfold exponentLength
    split
    case h_1 rest | h_2 rest =>
      have := digits.le rest
      simp only [List.length_cons]
      split <;> omega
    case h_3 => exact (part (by decide)).le _
  same cs rest h := by
    match cs with
    | [] =>
      have hmark : ∀ c ∈ breaks, c ≠ 'e' ∧ c ≠ 'E' := by decide
      exact exponentLength_eq_zero fun c hc => hmark c (h c hc)
    | [c] =>
      rw [List.cons_append, List.nil_append, exponentLength]
      · exact (part (by decide)).same [c] h
      · exact fun d tail hd => h.ne (by decide) tail (List.cons.inj hd).2
      · exact fun d tail hd => h.ne (by decide) tail (List.cons.inj hd).2
    | c :: d :: cs =>
      by_cases hp : d = '+'
      · subst hp
        rw [List.cons_append, List.cons_append, exponentLength, exponentLength, digits.same cs h]
      by_cases hm : d = '-'
      · subst hm
        rw [List.cons_append, List.cons_append, exponentLength, exponentLength, digits.same cs h]
      rw [List.cons_append, List.cons_append, exponentLength_unsigned hp hm,
        exponentLength_unsigned hp hm]
      exact (part (by decide)).same (c :: d :: cs) h

theorem places : WithinBreak (partLength (· = '.')) := part (by decide)

theorem decimal : WithinBreak decimalLength where
  le cs := by
    have hwhole := digits.le cs
    have hplaces := places.le (cs.drop (digitsLength cs))
    rw [List.length_drop] at hplaces
    rw [decimalLength]
    dsimp only
    split
    · exact Nat.zero_le _
    · have := exponent.le (cs.drop (digitsLength cs + partLength (· = '.') (cs.drop (digitsLength cs))))
      rw [List.length_drop] at this
      omega
  same cs rest h := by
    have hwhole := digits.le cs
    have hplaces := places.le (cs.drop (digitsLength cs))
    rw [List.length_drop] at hplaces
    have hdrop {n : Nat} (hn : n ≤ cs.length) : (cs ++ rest).drop n = cs.drop n ++ rest :=
      List.drop_append_of_le_length hn
    rw [decimalLength, decimalLength, digits.same cs h, hdrop hwhole, places.same _ h]
    dsimp only
    rw [hdrop (by omega), exponent.same _ h]

theorem numberLength_decimal {cs : List Char}
    (h : ∀ d tail, cs = '0' :: 'x' :: d :: tail → (Bytes.hexValue? d).isSome = false) :
    numberLength cs = decimalLength cs := by
  unfold numberLength
  split
  case h_1 d tail =>
    rw [h d tail rfl]
    rfl
  case h_2 => rfl

theorem number : WithinBreak numberLength where
  le cs := by
    unfold numberLength
    split
    case h_1 d rest =>
      split
      · have := (List.takeWhile_prefix isHexDigitOrUnderscore (l := rest)).length_le
        simpa using this
      · exact decimal.le _
    case h_2 => exact decimal.le cs
  same cs rest h := by
    by_cases hhex : ∃ d tail, cs = '0' :: 'x' :: d :: tail ∧ (Bytes.hexValue? d).isSome = true
    case pos =>
      obtain ⟨d, tail, rfl, hd⟩ := hhex
      have htail := takeWhile_break (p := isHexDigitOrUnderscore) (by decide) tail h
      simp only [List.cons_append, numberLength, hd, if_true, htail]
    case neg =>
      have hcs (d : Char) (tail : List Char) (hcs : cs = '0' :: 'x' :: d :: tail) :
          (Bytes.hexValue? d).isSome = false :=
        Bool.eq_false_iff.mpr fun hd => hhex ⟨d, tail, hcs, hd⟩
      rw [numberLength_decimal hcs, numberLength_decimal, decimal.same cs h]
      intro d tail hd
      -- where the characters end, a break stands in the place of one of the three
      match cs with
      | [] => exact absurd hd (h.ne (by decide) _)
      | [c] => exact absurd (List.cons.inj hd).2 (h.ne (by decide) _)
      | [c, x] =>
        have hrest : rest = d :: tail := (List.cons.inj (List.cons.inj hd).2).2
        exact h.not (p := fun c => (Bytes.hexValue? c).isSome) (by decide) d
          (congrArg List.head? hrest)
      | c :: x :: e :: cs =>
        cases hd
        exact hcs d cs rfl

end WithinBreak

/-! ## Quoted texts -/

theorem quotedLength_append {cs : List Char} {n : Nat} (h : quotedLength cs = some n)
    (rest : List Char) : quotedLength (cs ++ rest) = some n := by
  obtain ⟨body, rest', hbody, rfl, rfl⟩ := quotedLength_eq_some_iff.mp h
  rw [List.append_assoc]
  exact hbody.quotedLength (rest' ++ rest)

theorem quotedLength_le {cs : List Char} {n : Nat} (h : quotedLength cs = some n) :
    n ≤ cs.length := by
  obtain ⟨body, rest, -, rfl, rfl⟩ := quotedLength_eq_some_iff.mp h
  rw [List.length_append, List.length_cons]
  omega

theorem quotedLength_of_le {cs rest : List Char} {n : Nat} (h : quotedLength (cs ++ rest) = some n)
    (hn : n ≤ cs.length) : quotedLength cs = some n := by
  obtain ⟨body, rest', hbody, heq, rfl⟩ := quotedLength_eq_some_iff.mp h
  have htake : cs.take (body.length + 1) = body ++ ['"'] := by
    rw [← List.take_append_of_le_length hn, heq]
    exact List.take_length_add_append 1
  refine quotedLength_eq_some_iff.mpr ⟨body, cs.drop (body.length + 1), hbody, ?_, rfl⟩
  rw [List.append_cons, ← htake, List.take_append_drop]

theorem quotedLength_of_append {cs rest : List Char} (hrest : '"' ∉ rest) {n : Nat}
    (h : quotedLength (cs ++ rest) = some n) : quotedLength cs = some n := by
  refine quotedLength_of_le h (Nat.le_of_not_lt fun hlt => hrest ?_)
  obtain ⟨body, rest', -, heq, rfl⟩ := quotedLength_eq_some_iff.mp h
  have hquote : (cs ++ rest)[body.length]? = some '"' := by simp [heq]
  rw [List.getElem?_append_right (by omega)] at hquote
  exact List.mem_of_getElem? hquote

theorem Enclosed.endsInText {body : List Char} (h : Enclosed body) (rest : List Char) :
    endsInText true (body ++ '"' :: rest) = endsInText false rest := by
  induction h with
  | nil => rfl
  | plain hq hb _ ih =>
    rw [List.cons_append, Source.endsInText, ih]
    · exact fun h => absurd h hb
    · exact fun _ _ h => absurd h hb
    · exact hq
  | escape _ _ ih => rw [List.cons_append, List.cons_append, Source.endsInText, ih]

theorem endsInText_quoted {cs : List Char} {n : Nat} (h : quotedLength cs = some n) :
    endsInText true cs = endsInText false (cs.drop n) := by
  obtain ⟨body, rest, hbody, rfl, rfl⟩ := quotedLength_eq_some_iff.mp h
  rw [hbody.endsInText]
  simp

theorem endsInText_plain {cs : List Char} (h : '"' ∉ cs) (rest : List Char) :
    endsInText false (cs ++ rest) = endsInText false rest := by
  induction cs with
  | nil => rfl
  | cons c cs ih =>
    rw [List.cons_append, endsInText, ih fun hcs => h (.tail c hcs)]
    rintro rfl
    exact h (.head cs)

/-! ## Marks -/

theorem isPrefixOf_break {s cs rest : List Char} (hs : ∀ c ∈ s, c ∉ breaks) (h : AtBreak rest) :
    s.isPrefixOf (cs ++ rest) = s.isPrefixOf cs := by
  induction s generalizing cs with
  | nil => rfl
  | cons d s ih =>
    obtain ⟨hd, hs⟩ := List.forall_mem_cons.mp hs
    cases cs with
    | nil =>
      cases rest with
      | nil => rfl
      | cons c rest =>
        have hdc : (d == c) = false := by
          refine beq_false_of_ne ?_
          rintro rfl
          exact hd (h d rfl)
        change (d == c && s.isPrefixOf rest) = false
        rw [hdc, Bool.false_and]
    | cons c cs => rw [List.cons_append, List.isPrefixOf, List.isPrefixOf, ih hs]

theorem longest?_break {spellings : List String}
    (hs : ∀ s ∈ spellings, ∀ c ∈ s.toList.tail, c ∉ breaks) (c : Char) (cs : List Char)
    {rest : List Char} (h : AtBreak rest) :
    longest? spellings (c :: cs ++ rest) = longest? spellings (c :: cs) := by
  have hprefix (s : List Char) (hs : ∀ c ∈ s.tail, c ∉ breaks) :
      s.isPrefixOf (c :: cs ++ rest) = s.isPrefixOf (c :: cs) := by
    cases s with
    | nil => rfl
    | cons d s =>
      have hs : ∀ c ∈ s, c ∉ breaks := hs
      rw [List.cons_append, List.isPrefixOf, List.isPrefixOf, isPrefixOf_break hs h]
  rw [longest?, longest?, List.filter_congr fun s hmem => hprefix s.toList (hs s hmem)]

theorem longest?_eq_some {spellings : List String} {cs : List Char} {s : String}
    (h : longest? spellings cs = some s) : s ∈ spellings ∧ s.toList <+: cs := by
  rw [longest?] at h
  revert h
  refine List.foldlRecOn
    (motive := fun best? => best? = some s → s ∈ spellings ∧ s.toList <+: cs) _ _ ?_ ?_
  · intro h
    cases h
  intro best? hbest t ht hs
  obtain ⟨hmem, hprefix⟩ := List.mem_filter.mp ht
  have hitem : t ∈ spellings ∧ t.toList <+: cs := ⟨hmem, List.isPrefixOf_iff_prefix.mp hprefix⟩
  cases best? with
  | none =>
    cases hs
    exact hitem
  | some b =>
    dsimp only at hs
    split at hs
    · cases hs
      exact hitem
    · exact hbest hs

/-! ## Tokens in front -/

theorem mark_spelling : ∀ s ∈ scriptGrammar.lexicon.symbols ++ scriptGrammar.lexicon.assertOps,
    s.toList ≠ [] ∧ '"' ∉ s.toList ∧ ∀ c ∈ s.toList.tail, c ∉ breaks := by decide +kernel

theorem front?_break {c : Char} (hquote : c ≠ '"') (cs : List Char) {rest : List Char}
    (h : AtBreak rest) :
    front? scriptGrammar.lexicon (c :: cs ++ rest) = front? scriptGrammar.lexicon (c :: cs) := by
  have hops : ∀ s ∈ scriptGrammar.lexicon.assertOps, ∀ c ∈ s.toList.tail, c ∉ breaks :=
    fun s hs => (mark_spelling s (List.mem_append_right _ hs)).2.2
  have hsymbols : ∀ s ∈ scriptGrammar.lexicon.symbols, ∀ c ∈ s.toList.tail, c ∉ breaks :=
    fun s hs => (mark_spelling s (List.mem_append_left _ hs)).2.2
  rw [List.cons_append, front?, front?, if_neg hquote, if_neg hquote, ← List.cons_append,
    takeWhile_break (by decide) _ h, WithinBreak.number.same _ h, longest?_break hops c cs h,
    longest?_break hsymbols c cs h]

/-- A token that stands in front of some characters: it ends outside of texts, and a break behind the
characters does not change it. -/
structure Front (cs : List Char) (terminal : Terminal) (n : Nat) : Prop where
  pos : 0 < n
  le : n ≤ cs.length
  closed : endsInText false cs = endsInText false (cs.drop n)
  same {rest : List Char} (h : AtBreak rest) :
    front? scriptGrammar.lexicon (cs ++ rest) = some (terminal, n)

theorem closed_of_plain {cs : List Char} {n : Nat} (h : '"' ∉ cs.take n) :
    endsInText false cs = endsInText false (cs.drop n) := by
  conv_lhs => rw [← List.take_append_drop n cs]
  exact endsInText_plain h _

theorem quote_notMem_number {c : Char} (hc : c.isDigit = true) (cs : List Char) :
    '"' ∉ (c :: cs).take (numberLength (c :: cs)) := by
  by_cases hhex : ∃ d tail, c :: cs = '0' :: 'x' :: d :: tail ∧ (Bytes.hexValue? d).isSome = true
  case pos =>
    obtain ⟨d, tail, hcs, hd⟩ := hhex
    rw [hcs, numberLength, if_pos hd, List.take_succ_cons, List.take_succ_cons, List.take_succ_cons,
      take_length_takeWhile]
    have hdigit {e : Char} (he : isHexDigitOrUnderscore e = true) : '"' ≠ e := by
      rintro rfl
      cases he
    have htail (e : Char) (he : e ∈ tail.takeWhile isHexDigitOrUnderscore) : '"' ≠ e :=
      hdigit (List.all_eq_true.mp List.all_takeWhile e he)
    have hd' : isHexDigitOrUnderscore d = true := by rw [isHexDigitOrUnderscore, hd, Bool.true_or]
    have hall : ∀ e ∈ '0' :: 'x' :: d :: tail.takeWhile isHexDigitOrUnderscore, '"' ≠ e := by
      simp only [List.forall_mem_cons]
      exact ⟨by decide, by decide, hdigit hd', htail⟩
    exact fun hmem => hall _ hmem rfl
  case neg =>
    intro hmem
    rw [WithinBreak.numberLength_decimal fun d tail hcs =>
      Bool.eq_false_iff.mpr fun hd => hhex ⟨d, tail, hcs, hd⟩] at hmem
    have hplain := (decimal_of_decimalLength (digitsLength_ne_zero hc cs)).mem
      (List.mem_filter.mpr ⟨hmem, by decide⟩)
    revert hplain
    decide

namespace Front

variable {c : Char} {cs : List Char} {terminal : Terminal} {n : Nat}

theorem of_plain (hquote : c ≠ '"') (hpos : 0 < n) (hle : n ≤ (c :: cs).length)
    (hplain : '"' ∉ (c :: cs).take n)
    (h : front? scriptGrammar.lexicon (c :: cs) = some (terminal, n)) : Front (c :: cs) terminal n :=
  ⟨hpos, hle, closed_of_plain hplain, fun hrest => by rw [front?_break hquote cs hrest, h]⟩

theorem of_name (hc : Candid.isNameStart c = true)
    (h : front? scriptGrammar.lexicon (c :: cs) = some (terminal, n)) :
    Front (c :: cs) terminal n := by
  have hname := isNameChar_of_isNameStart hc
  have hn := h
  rw [front?, if_pos hc] at hn
  obtain ⟨-, rfl⟩ := Prod.mk.inj (Option.some.inj hn)
  refine of_plain (ne_of_isNameChar hname).1 ?_ (List.takeWhile_prefix _).length_le ?_ h
  · rw [List.takeWhile_cons_of_pos hname]
    exact Nat.succ_pos _
  · rw [take_length_takeWhile]
    exact fun hquote => absurd (List.all_eq_true.mp List.all_takeWhile _ hquote) (by decide)

theorem of_number (hc : c.isDigit = true)
    (h : front? scriptGrammar.lexicon (c :: cs) = some (terminal, n)) :
    Front (c :: cs) terminal n := by
  have hquote : c ≠ '"' := by
    rintro rfl
    cases hc
  have hn := h
  rw [front?, if_neg (not_isNameStart_of_isDigit hc), if_pos hc] at hn
  obtain ⟨-, rfl⟩ := Prod.mk.inj (Option.some.inj hn)
  exact of_plain hquote (numberLength_pos hc cs) (WithinBreak.number.le _)
    (quote_notMem_number hc cs) h

theorem of_text (h : front? scriptGrammar.lexicon ('"' :: cs) = some (terminal, n)) :
    Front ('"' :: cs) terminal n := by
  rw [front?_text] at h
  obtain ⟨m, hm, hn⟩ := Option.map_eq_some_iff.mp h
  obtain ⟨rfl, rfl⟩ := Prod.mk.inj hn
  refine ⟨Nat.succ_pos m, Nat.succ_le_succ (quotedLength_le hm), ?_, fun _ => ?_⟩
  · rw [List.drop_succ_cons, ← endsInText_quoted hm]
    rfl
  · rw [List.cons_append, front?_text, quotedLength_append hm]
    rfl

theorem of_spelling {s : String} (hquote : c ≠ '"')
    (hs : s ∈ scriptGrammar.lexicon.symbols ++ scriptGrammar.lexicon.assertOps)
    (hfront : s.toList <+: c :: cs)
    (h : front? scriptGrammar.lexicon (c :: cs) = some (terminal, s.length)) :
    Front (c :: cs) terminal s.length := by
  obtain ⟨hne, hplain, -⟩ := mark_spelling s hs
  rw [← String.length_toList] at h ⊢
  refine of_plain hquote (List.length_pos_iff.mpr hne) hfront.length_le ?_ h
  rwa [← List.prefix_iff_eq_take.mp hfront]

theorem of_mark (hname : ¬Candid.isNameStart c = true) (hdigit : ¬c.isDigit = true)
    (hquote : c ≠ '"') (h : front? scriptGrammar.lexicon (c :: cs) = some (terminal, n)) :
    Front (c :: cs) terminal n := by
  have hn := h
  rw [front?, if_neg hname, if_neg hdigit, if_neg hquote] at hn
  split at hn
  case h_1 op s hop hs =>
    obtain ⟨hop, hopfront⟩ := longest?_eq_some hop
    obtain ⟨hs, hsfront⟩ := longest?_eq_some hs
    split at hn
    · cases hn
      exact of_spelling hquote (List.mem_append_left _ hs) hsfront h
    · cases hn
      exact of_spelling hquote (List.mem_append_right _ hop) hopfront h
  case h_2 op hop _ =>
    obtain ⟨hop, hopfront⟩ := longest?_eq_some hop
    cases hn
    exact of_spelling hquote (List.mem_append_right _ hop) hopfront h
  case h_3 s _ hs =>
    obtain ⟨hs, hsfront⟩ := longest?_eq_some hs
    cases hn
    exact of_spelling hquote (List.mem_append_left _ hs) hsfront h
  case h_4 => cases hn

theorem of_front? (h : front? scriptGrammar.lexicon cs = some (terminal, n)) :
    Front cs terminal n := by
  cases cs with
  | nil => cases h
  | cons c cs =>
    by_cases hname : Candid.isNameStart c = true
    · exact of_name hname h
    by_cases hdigit : c.isDigit = true
    · exact of_number hdigit h
    by_cases hquote : c = '"'
    · subst hquote
      exact of_text h
    · exact of_mark hname hdigit hquote h

end Front

/-! ## Tokens of a text -/

/-- A text that is cut into tokens to its end ends outside of quoted texts. -/
theorem endsInText_of_complete {at_ : Cursor} {cs : List Char}
    (h : (scanFrom scriptGrammar.lexicon at_ cs).ending = .complete) : endsInText false cs = false := by
  fun_induction scanFrom scriptGrammar.lexicon at_ cs with
  | case1 => rfl
  | case2 at_ c rest hc ih =>
    have hquote : c ≠ '"' := by
      rintro rfl
      cases hc
    rw [endsInText, ih h]
    exact hquote
  | case3 at_ c rest hc hfront =>
    rw [hfront] at h
    cases h
  | case4 at_ c rest hc terminal n lexeme next hfront ih =>
    rw [hfront] at h
    have front := Front.of_front? hfront
    obtain ⟨m, rfl⟩ : ∃ m, n = m + 1 := Nat.exists_eq_add_one.mpr front.pos
    rw [front.closed]
    exact ih h

/-- What a parenthesis behind some characters does not change begins the same token without it. -/
theorem front?_of_closed {c : Char} {cs : List Char} {x : Terminal × Nat}
    (h : front? scriptGrammar.lexicon (c :: cs ++ [')']) = some x) :
    front? scriptGrammar.lexicon (c :: cs) = some x := by
  by_cases hquote : c = '"'
  · subst hquote
    rw [List.cons_append, front?_text] at h
    obtain ⟨n, hn, rfl⟩ := Option.map_eq_some_iff.mp h
    rw [front?_text, quotedLength_of_append (by decide) hn]
    rfl
  · rwa [front?_break hquote cs (atBreak_cons (by decide) [])] at h

theorem complete_of_closed {at_ : Cursor} {cs : List Char}
    (h : (scanFrom scriptGrammar.lexicon at_ (cs ++ [')'])).ending = .complete) :
    (scanFrom scriptGrammar.lexicon at_ cs).ending = .complete := by
  fun_induction scanFrom scriptGrammar.lexicon at_ cs with
  | case1 => rfl
  | case2 at_ c rest hc ih =>
    rw [List.cons_append, scanFrom, if_pos hc] at h
    exact ih h
  | case3 at_ c rest hc hfront =>
    cases hclosed : front? scriptGrammar.lexicon (c :: rest ++ [')']) with
    | some x =>
      rw [front?_of_closed hclosed] at hfront
      cases hfront
    | none =>
      rw [List.cons_append] at hclosed
      rw [List.cons_append, scanFrom, if_neg hc, hclosed] at h
      cases h
  | case4 at_ c rest hc terminal n lexeme next hfront ih =>
    have front := Front.of_front? hfront
    have hlen : n - 1 ≤ rest.length := Nat.sub_le_of_le_add front.le
    have hclosed := front.same (atBreak_cons (c := ')') (by decide) [])
    rw [List.cons_append] at hclosed
    rw [List.cons_append, scanFrom, if_neg hc, hclosed] at h
    dsimp only at h
    rw [List.take_append_of_le_length hlen, List.drop_append_of_le_length hlen] at h
    rw [hfront]
    exact ih h

/-- Characters that are cut into some words in front of what `ok` allows, wherever they stand. -/
def Cuts (ok : List Char → Prop) (cs : List Char) (ws : List Word) : Prop :=
  ∀ (at_ : Cursor) (rest : List Char), ok rest → ∃ ks at', ks.map Token.word = ws ∧
    scanFrom scriptGrammar.lexicon at_ (cs ++ rest)
      = ⟨ks ++ (scanFrom scriptGrammar.lexicon at' rest).tokens,
        (scanFrom scriptGrammar.lexicon at' rest).ending⟩

theorem WrittenIn.cuts {ok : List Char → Prop} {cs : List Char} {ws : List Word}
    (h : Written ok cs ws) : Cuts ok cs ws := fun at_ _ hrest => h.scanned at_ hrest

theorem cuts_of_complete {at_ : Cursor} {cs : List Char}
    (h : (scanFrom scriptGrammar.lexicon at_ cs).ending = .complete) :
    Cuts AtBreak cs ((scanFrom scriptGrammar.lexicon at_ cs).tokens.map Token.word) := by
  intro at' tail htail
  fun_induction scanFrom scriptGrammar.lexicon at_ cs generalizing at' with
  | case1 => exact ⟨[], at', rfl, rfl⟩
  | case2 at_ c rest hc ih =>
    rw [List.cons_append, scanFrom, if_pos hc]
    exact ih h (at'.step c)
  | case3 at_ c rest hc hfront =>
    rw [hfront] at h
    cases h
  | case4 at_ c rest hc terminal n lexeme next hfront ih =>
    rw [hfront] at h ⊢
    have front := Front.of_front? hfront
    obtain ⟨m, rfl⟩ : ∃ m, n = m + 1 := Nat.exists_eq_add_one.mpr front.pos
    have hlen : m ≤ rest.length := Nat.le_of_succ_le_succ front.le
    have hsplit : c :: rest ++ tail = lexeme ++ (rest.drop m ++ tail) := by
      rw [← List.append_assoc]
      exact congrArg (c :: · ++ tail) (List.take_append_drop m rest).symm
    have hfront' : front? scriptGrammar.lexicon (lexeme ++ (rest.drop m ++ tail))
        = some (terminal, lexeme.length) := by
      have hlexeme : lexeme.length = m + 1 := by simp [lexeme, hlen]
      rw [← hsplit, hlexeme, front.same htail]
    have hspace : ∀ d ∈ lexeme.head?, isSpace d = false := by
      rintro d ⟨⟩
      exact Bool.eq_false_iff.mpr hc
    have hrest : rest.drop (m + 1 - 1) ++ tail = rest.drop m ++ tail := rfl
    obtain ⟨ks, at'', hks, hscan⟩ := ih h (at'.advance lexeme)
    rw [hsplit, scanFrom_token (List.cons_ne_nil _ _) hspace hfront' at', ← hrest, hscan]
    refine ⟨_ :: ks, at'', ?_, rfl⟩
    rw [List.map_cons, hks]
    rfl

namespace Cuts

variable {ok ok' : List Char → Prop} {cs ds : List Char} {ws xs : List Word}

theorem append (h : Cuts ok cs ws) (h' : Cuts ok' ds xs) (hok : ∀ rest, ok' rest → ok (ds ++ rest)) :
    Cuts ok' (cs ++ ds) (ws ++ xs) := by
  intro at_ rest hrest
  obtain ⟨ks, at', hks, hscan⟩ := h at_ (ds ++ rest) (hok rest hrest)
  obtain ⟨ls, at'', hls, hscan'⟩ := h' at' rest hrest
  refine ⟨ks ++ ls, at'', by rw [List.map_append, hks, hls], ?_⟩
  rw [List.append_assoc, hscan, hscan', List.append_assoc]

theorem allow (h : Cuts ok cs ws) (hok : ∀ rest, ok' rest → ok rest) : Cuts ok' cs ws :=
  fun at_ rest hrest => h at_ rest (hok rest hrest)

theorem of_scan {ks : List Token} (h : Syntax.scan scriptGrammar.lexicon cs = ⟨ks, .complete⟩) :
    Cuts AtBreak cs (ks.map Token.word) := by
  have hcuts := cuts_of_complete (congrArg Tokens.ending h)
  rw [Syntax.scan] at h
  rwa [h] at hcuts

theorem scan (h : Cuts ok cs ws) (hok : ok []) :
    ∃ ks, ks.map Token.word = ws ∧ Syntax.scan scriptGrammar.lexicon cs = ⟨ks, .complete⟩ := by
  obtain ⟨ks, at', hks, hscan⟩ := h {} [] hok
  rw [List.append_nil, scanFrom, List.append_nil] at hscan
  exact ⟨ks, hks, hscan⟩

end Cuts

end CanisterShell.Syntax
