import CanisterShell.Syntax.Literal
import CanisterShell.Syntax.Token

/-!
# Numbers among the tokens

What a text is cut into at a digit is a number: it is a decimal number or hexadecimal digits behind
`0x`, with underscores in places where they do not matter, so it has a value with and without a minus
sign in front (`exists_number_of_scanFrom`).
-/

namespace CanisterShell.Syntax

open Literal (splitSign double? int?)

/-! ## Decimal numbers -/

/-- At least one digit, and nothing else. -/
def Digits (cs : List Char) : Prop := cs ≠ [] ∧ ∀ c ∈ cs, c.isDigit

/-- Nothing, or digits behind a point. -/
inductive Places : List Char → Prop where
  | nothing : Places []
  | decimals {digits : List Char} (h : Digits digits) : Places ('.' :: digits)

/-- Nothing, or digits behind the letter of an exponent and perhaps a sign. -/
inductive Exponent : List Char → Prop where
  | nothing : Exponent []
  | scale {e : Char} {sign digits : List Char} (he : e = 'e' ∨ e = 'E')
      (hs : sign = [] ∨ sign = ['+'] ∨ sign = ['-']) (h : Digits digits) :
      Exponent (e :: (sign ++ digits))

/-- A decimal number without a sign. -/
inductive Decimal : List Char → Prop where
  | mk {whole places exponent : List Char} (hw : Digits whole) (hp : Places places)
      (he : Exponent exponent) : Decimal (whole ++ (places ++ exponent))

/-- Characters without the underscores among them. -/
def plain (cs : List Char) : List Char := cs.filter (· ≠ '_')

theorem plain_append (cs ds : List Char) : plain (cs ++ ds) = plain cs ++ plain ds :=
  List.filter_append cs ds

theorem plain_cons_of_ne {c : Char} (h : c ≠ '_') (cs : List Char) :
    plain (c :: cs) = c :: plain cs := List.filter_cons_of_pos (by simpa using h)

theorem ne_underscore_of_isDigit {c : Char} (h : c.isDigit) : c ≠ '_' := by
  rintro rfl
  simp at h

theorem take_length_takeWhile (p : Char → Bool) (cs : List Char) :
    cs.take (cs.takeWhile p).length = cs.takeWhile p :=
  (List.prefix_iff_eq_take.mp (List.takeWhile_prefix p)).symm

theorem digits_of_digitsLength {cs : List Char} (h : digitsLength cs ≠ 0) :
    Digits (plain (cs.take (digitsLength cs))) := by
  cases cs with
  | nil => exact absurd rfl h
  | cons c rest =>
    rw [digitsLength] at h ⊢
    split at h
    case isFalse => exact absurd rfl h
    case isTrue hc =>
      rw [if_pos hc, List.take_succ_cons, plain_cons_of_ne (ne_underscore_of_isDigit hc),
        take_length_takeWhile]
      refine ⟨List.cons_ne_nil _ _, List.forall_mem_cons.mpr ⟨hc, fun d hd => ?_⟩⟩
      obtain ⟨hd, hne⟩ := List.mem_filter.mp hd
      have hp : isDigitOrUnderscore d := (List.all_eq_true.mp List.all_takeWhile) d hd
      simpa [isDigitOrUnderscore, show d ≠ '_' by simpa using hne] using hp

theorem partLength_eq {isMark : Char → Bool} {cs : List Char} (h : partLength isMark cs ≠ 0) :
    ∃ c rest, cs = c :: rest ∧ isMark c ∧ digitsLength rest ≠ 0
      ∧ partLength isMark cs = digitsLength rest + 1 := by
  cases cs with
  | nil => exact absurd rfl h
  | cons c rest =>
    rw [partLength] at h ⊢
    split at h
    case isFalse => exact absurd rfl h
    case isTrue hc =>
      rw [if_pos hc]
      rw [Bool.and_eq_true, decide_eq_true_eq] at hc
      exact ⟨c, rest, rfl, hc.1, hc.2, rfl⟩

theorem places_of_partLength (cs : List Char) :
    Places (plain (cs.take (partLength (· = '.') cs))) := by
  by_cases h : partLength (· = '.') cs = 0
  · rw [h]
    exact .nothing
  · obtain ⟨c, rest, rfl, hc, hd, hn⟩ := partLength_eq h
    obtain rfl : c = '.' := by simpa using hc
    rw [hn, List.take_succ_cons, plain_cons_of_ne (by decide)]
    exact .decimals (digits_of_digitsLength hd)

theorem exponent_of_partLength (cs : List Char) :
    Exponent (plain (cs.take (partLength (fun c => c = 'e' || c = 'E') cs))) := by
  by_cases h : partLength (fun c => c = 'e' || c = 'E') cs = 0
  · rw [h]
    exact .nothing
  · obtain ⟨c, rest, rfl, hc, hd, hn⟩ := partLength_eq h
    have he : c = 'e' ∨ c = 'E' := by simpa using hc
    have hne : c ≠ '_' := by rcases he with rfl | rfl <;> decide
    rw [hn, List.take_succ_cons, plain_cons_of_ne hne]
    exact @Exponent.scale c [] _ he (.inl rfl) (digits_of_digitsLength hd)

theorem exponent_of_sign {c sign : Char} {rest : List Char} (hs : sign = '+' ∨ sign = '-') :
    Exponent (plain ((c :: sign :: rest).take
      (if (c = 'e' || c = 'E') && digitsLength rest ≠ 0 then digitsLength rest + 2 else 0))) := by
  split
  case isTrue h =>
    rw [Bool.and_eq_true, Bool.or_eq_true, decide_eq_true_eq, decide_eq_true_eq,
      decide_eq_true_eq] at h
    have hc : c ≠ '_' := by rcases h.1 with rfl | rfl <;> decide
    have hs' : sign ≠ '_' := by rcases hs with rfl | rfl <;> decide
    rw [List.take_succ_cons, List.take_succ_cons, plain_cons_of_ne hc, plain_cons_of_ne hs']
    have hsign : [sign] = [] ∨ [sign] = ['+'] ∨ [sign] = ['-'] := by
      rcases hs with rfl | rfl <;> decide
    exact @Exponent.scale c [sign] _ h.1 hsign (digits_of_digitsLength h.2)
  case isFalse => exact .nothing

theorem exponent_of_exponentLength (cs : List Char) :
    Exponent (plain (cs.take (exponentLength cs))) := by
  unfold exponentLength
  split
  · exact exponent_of_sign (.inl rfl)
  · exact exponent_of_sign (.inr rfl)
  · exact exponent_of_partLength cs

theorem decimal_of_decimalLength {cs : List Char} (h : digitsLength cs ≠ 0) :
    Decimal (plain (cs.take (decimalLength cs))) := by
  rw [decimalLength]
  dsimp only
  rw [if_neg h, List.take_add, List.take_add, plain_append, plain_append, List.append_assoc]
  exact .mk (digits_of_digitsLength h) (places_of_partLength _) (exponent_of_exponentLength _)

/-! ## Their values -/

theorem toLower_of_isDigit {c : Char} (h : c.isDigit) : c.toLower = c := by
  rw [Char.isDigit, Bool.and_eq_true, decide_eq_true_eq, decide_eq_true_eq] at h
  refine dif_neg fun hu => ?_
  exact absurd (UInt32.le_trans hu.1 h.2) (by decide)

theorem takeWhile_digits {ds rest : List Char} (h : ∀ c ∈ ds, c.isDigit)
    (hr : rest.takeWhile Char.isDigit = []) : (ds ++ rest).takeWhile Char.isDigit = ds := by
  rw [List.takeWhile_append_of_pos h, hr, List.append_nil]

theorem Exponent.takeWhile_isDigit {cs : List Char} (h : Exponent cs) :
    cs.takeWhile Char.isDigit = [] := by
  cases h with
  | nothing => rfl
  | scale he hs hd => rcases he with rfl | rfl <;> rfl

theorem Exponent.dropWhile_isDigit {cs : List Char} (h : Exponent cs) :
    cs.dropWhile Char.isDigit = cs := by
  cases h with
  | nothing => rfl
  | scale he hs hd => rcases he with rfl | rfl <;> rfl

theorem Places.takeWhile_isDigit {cs rest : List Char} (h : Places cs)
    (hr : rest.takeWhile Char.isDigit = []) : (cs ++ rest).takeWhile Char.isDigit = [] := by
  cases h with
  | nothing => exact hr
  | decimals hd => rfl

theorem splitSign_of_isDigit {d : Char} {ds : List Char} (h : d.isDigit) :
    splitSign (d :: ds) = (false, d :: ds) := by
  rw [splitSign]
  · intro rest he
    rw [(List.cons.inj he).1] at h
    cases h
  · intro rest he
    rw [(List.cons.inj he).1] at h
    cases h

theorem splitSign_append {sign digits : List Char} (hs : sign = [] ∨ sign = ['+'] ∨ sign = ['-'])
    (h : Digits digits) : (splitSign (sign ++ digits)).2 = digits := by
  rcases hs with rfl | rfl | rfl
  · obtain ⟨d, ds, rfl⟩ := List.exists_cons_of_ne_nil h.1
    rw [List.nil_append, splitSign_of_isDigit (h.2 d List.mem_cons_self)]
  · rfl
  · rfl

/-- A digit in front tells a number from the names of those that are not finite. -/
theorem Decimal.map_toLower_ne {cs : List Char} (h : Decimal cs) (name : List Char)
    {c : Char} (hc : name.head? = some c) (hd : c.isDigit = false) : cs.map Char.toLower ≠ name := by
  obtain @⟨whole, places, exponent, ⟨hw, hds⟩, -, -⟩ := h
  obtain ⟨d, ds, rfl⟩ := List.exists_cons_of_ne_nil hw
  have hdigit := hds d List.mem_cons_self
  rintro rfl
  rw [List.cons_append, List.map_cons, List.head?_cons, toLower_of_isDigit hdigit] at hc
  rw [Option.some.inj hc, hd] at hdigit
  cases hdigit

theorem Exponent.exists_double {cs : List Char} (h : Exponent cs) (value : Int → Double) :
    ∃ x, (match cs with
      | [] => some (value 0)
      | c :: tail =>
        if (c = 'e' || c = 'E') && !(splitSign tail).2.isEmpty
            && (splitSign tail).2.all Char.isDigit then
          some (value (Literal.signed (splitSign tail).1 (Literal.digitNumber (splitSign tail).2)))
        else none) = some x := by
  cases h with
  | nothing => exact ⟨_, rfl⟩
  | scale he hs hd =>
    dsimp only
    rw [splitSign_append hs hd, if_pos]
    · exact ⟨_, rfl⟩
    · simpa [hd.1] using ⟨he, hd.2⟩

theorem exists_double? {text cs : List Char} {negative : Bool}
    (hs : splitSign text = (negative, cs)) (h : Decimal cs) : ∃ x, double? text = some x := by
  have hinf := h.map_toLower_ne "inf".toList rfl rfl
  have hinfinity := h.map_toLower_ne "infinity".toList rfl rfl
  have hnan := h.map_toLower_ne "nan".toList rfl rfl
  obtain @⟨whole, places, exponent, hw, hp, he⟩ := h
  have hfirst := hp.takeWhile_isDigit he.takeWhile_isDigit
  have hwe : whole.isEmpty = false := by simpa using hw.1
  rw [double?, hs]
  dsimp only
  rw [decide_eq_false hinf, decide_eq_false hinfinity, Bool.or_false, if_neg Bool.false_ne_true,
    if_neg hnan, takeWhile_digits hw.2 hfirst, List.drop_left, hwe, Bool.false_and,
    if_neg Bool.false_ne_true]
  cases hp with
  | nothing =>
    have hx := he.exists_double fun e =>
      Double.ofDecimal negative (Literal.digitNumber (whole ++ [])) (e - ([] : List Char).length)
    cases he with
    | nothing => exact hx
    | scale he =>
      rcases he with rfl | rfl
      · exact hx
      · exact hx
  | @decimals digits hd =>
    have hbehind : Exponent ((digits ++ exponent).dropWhile Char.isDigit) := by
      rwa [List.dropWhile_append_of_pos hd.2, he.dropWhile_isDigit]
    exact hbehind.exists_double fun e =>
      Double.ofDecimal negative
        (Literal.digitNumber (whole ++ (digits ++ exponent).takeWhile Char.isDigit))
        (e - ((digits ++ exponent).takeWhile Char.isDigit).length)

theorem exists_int? {text digits : List Char} {negative : Bool}
    (hs : splitSign text = (negative, digits)) (h : Digits digits) : ∃ n, int? text = some n := by
  rw [int?, hs]
  dsimp only
  rw [if_pos (by simpa [h.1] using h.2)]
  exact ⟨_, rfl⟩

theorem Decimal.digits_of_any {cs : List Char} (h : Decimal cs)
    (hn : (cs.any fun c => c = '.' || c = 'e' || c = 'E') = false) : Digits cs := by
  obtain @⟨whole, places, exponent, hw, hp, he⟩ := h
  rw [List.any_append, List.any_append, Bool.or_eq_false_iff, Bool.or_eq_false_iff] at hn
  cases hp with
  | decimals hd => cases hn.2.1
  | nothing =>
    cases he with
    | nothing => rwa [List.append_nil, List.append_nil]
    | scale he hs hd => rcases he with rfl | rfl <;> cases hn.2.2

theorem exists_decimal {text cs : List Char} {negative : Bool}
    (hs : splitSign text = (negative, cs)) (h : Decimal cs)
    (ht : (text.any fun c => c = '.' || c = 'e' || c = 'E')
      = cs.any fun c => c = '.' || c = 'e' || c = 'E') :
    ∃ v, Literal.number.decimal text = .ok v := by
  rw [Literal.number.decimal]
  split
  case isTrue =>
    obtain ⟨x, hx⟩ := exists_double? hs h
    rw [hx]
    exact ⟨_, rfl⟩
  case isFalse hn =>
    rw [ht] at hn
    obtain ⟨n, hn⟩ := exists_int? hs (h.digits_of_any (Bool.eq_false_iff.mpr hn))
    rw [hn]
    exact ⟨_, rfl⟩

theorem Exponent.mem {cs : List Char} (h : Exponent cs) {c : Char} (hc : c ∈ cs) :
    c.isDigit ∨ c ∈ ['e', 'E', '+', '-'] := by
  cases h with
  | nothing => cases hc
  | scale he hs hd =>
    rcases List.mem_cons.mp hc with rfl | hc
    · exact .inr (by rcases he with rfl | rfl <;> decide)
    · rcases List.mem_append.mp hc with hc | hc
      · refine .inr ?_
        rcases hs with rfl | rfl | rfl
        · cases hc
        · rw [List.mem_singleton.mp hc]
          decide
        · rw [List.mem_singleton.mp hc]
          decide
      · exact .inl (hd.2 c hc)

theorem Decimal.mem {cs : List Char} (h : Decimal cs) {c : Char} (hc : c ∈ cs) :
    c.isDigit ∨ c ∈ ['.', 'e', 'E', '+', '-'] := by
  obtain @⟨whole, places, exponent, hw, hp, he⟩ := h
  rcases List.mem_append.mp hc with hc | hc
  · exact .inl (hw.2 c hc)
  · rcases List.mem_append.mp hc with hc | hc
    · cases hp with
      | nothing => cases hc
      | decimals hd =>
        rcases List.mem_cons.mp hc with rfl | hc
        · exact .inr List.mem_cons_self
        · exact .inl (hd.2 c hc)
    · exact (he.mem hc).imp_right (List.mem_cons_of_mem _)

theorem Decimal.not_hexadecimal {x : Char} {hex : List Char} (h : Decimal ('0' :: x :: hex)) :
    (x = 'x' || x = 'X') = false := by
  have hx := h.mem (.tail _ List.mem_cons_self)
  rw [Bool.or_eq_false_iff, decide_eq_false_iff_not, decide_eq_false_iff_not]
  constructor
  · rintro rfl
    revert hx
    decide
  · rintro rfl
    revert hx
    decide

theorem exists_splitSign {sign : List Char} (hs : sign = [] ∨ sign = ['-']) {d : Char}
    (hd : d.isDigit) (ds : List Char) :
    ∃ negative, splitSign (sign ++ d :: ds) = (negative, d :: ds) := by
  rcases hs with rfl | rfl
  · exact ⟨false, splitSign_of_isDigit hd⟩
  · exact ⟨true, rfl⟩

theorem exists_number_of_decimal {text : String} {sign cs : List Char}
    (hs : sign = [] ∨ sign = ['-']) (h : Decimal cs) (ht : plain text.toList = sign ++ cs) :
    ∃ v, Literal.number text = .ok v := by
  obtain ⟨d, ds, rfl, hd⟩ : ∃ d ds, cs = d :: ds ∧ d.isDigit := by
    obtain ⟨hw, -, -⟩ := h
    obtain ⟨d, ds, rfl⟩ := List.exists_cons_of_ne_nil hw.1
    exact ⟨d, _, rfl, hw.2 d List.mem_cons_self⟩
  obtain ⟨negative, hsplit⟩ := exists_splitSign hs hd ds
  have hdecimal : ∃ v, Literal.number.decimal (sign ++ d :: ds) = .ok v := by
    refine exists_decimal hsplit h ?_
    rcases hs with rfl | rfl <;> rfl
  rw [plain] at ht
  rw [Literal.number]
  dsimp only
  rw [ht, hsplit]
  dsimp only
  split
  case h_1 x hex heq =>
    rw [heq] at h
    rw [h.not_hexadecimal, if_neg Bool.false_ne_true]
    exact hdecimal
  case h_2 => exact hdecimal

theorem exists_number_of_hexadecimal {text : String} {sign hex : List Char}
    (hs : sign = [] ∨ sign = ['-']) (hne : hex ≠ [])
    (hhex : ∀ c ∈ hex, (Bytes.hexValue? c).isSome)
    (ht : plain text.toList = sign ++ '0' :: 'x' :: hex) : ∃ v, Literal.number text = .ok v := by
  obtain ⟨negative, hsplit⟩ := exists_splitSign (d := '0') hs rfl ('x' :: hex)
  have hdigits : (!hex.isEmpty && hex.all fun c => (Bytes.hexValue? c).isSome) = true := by
    simpa [hne] using hhex
  rw [plain] at ht
  rw [Literal.number]
  dsimp only
  rw [ht, hsplit]
  exact ⟨_, (if_pos rfl).trans (if_pos hdigits)⟩

/-! ## Number tokens -/

theorem digitsLength_ne_zero {c : Char} (h : c.isDigit) (rest : List Char) :
    digitsLength (c :: rest) ≠ 0 := by
  rw [digitsLength, if_pos h]
  exact Nat.succ_ne_zero _

theorem decimalLength_pos {c : Char} (h : c.isDigit) (rest : List Char) :
    0 < decimalLength (c :: rest) := by
  have hd := digitsLength_ne_zero h rest
  rw [decimalLength]
  dsimp only
  rw [if_neg hd]
  omega

theorem numberLength_pos {c : Char} (h : c.isDigit) (rest : List Char) :
    0 < numberLength (c :: rest) := by
  have hd := decimalLength_pos h rest
  unfold numberLength
  split
  case h_1 hcs =>
    rw [hcs] at hd
    split
    · omega
    · exact hd
  case h_2 => exact hd

theorem exists_number_of_numberLength {sign : List Char} {c : Char} {text : String}
    (hs : sign = [] ∨ sign = ['-']) (hc : c.isDigit) (rest : List Char)
    (ht : text.toList = sign ++ (c :: rest).take (numberLength (c :: rest))) :
    ∃ v, Literal.number text = .ok v := by
  have hplain : plain text.toList = sign ++ plain ((c :: rest).take (numberLength (c :: rest))) := by
    rw [ht, plain_append]
    rcases hs with rfl | rfl <;> rfl
  have hdecimal := decimal_of_decimalLength (digitsLength_ne_zero hc rest)
  unfold numberLength at hplain
  split at hplain
  case h_1 d tail hcs =>
    rw [hcs] at hdecimal hplain
    split at hplain
    case isTrue hd =>
      have hne : d ≠ '_' := by
        rintro rfl
        cases hd
      rw [List.take_succ_cons, List.take_succ_cons, List.take_succ_cons, take_length_takeWhile,
        plain_cons_of_ne (by decide), plain_cons_of_ne (by decide), plain_cons_of_ne hne] at hplain
      refine exists_number_of_hexadecimal hs (List.cons_ne_nil _ _) ?_ hplain
      refine List.forall_mem_cons.mpr ⟨hd, fun e he => ?_⟩
      obtain ⟨he, hne⟩ := List.mem_filter.mp he
      have hp : isHexDigitOrUnderscore e := List.all_eq_true.mp List.all_takeWhile e he
      simpa [isHexDigitOrUnderscore, show e ≠ '_' by simpa using hne] using hp
    case isFalse => exact exists_number_of_decimal hs hdecimal hplain
  case h_2 => exact exists_number_of_decimal hs hdecimal hplain

theorem front?_cases {lexicon : Lexicon} {c : Char} {rest : List Char} {terminal : Terminal} {n : Nat}
    (h : front? lexicon (c :: rest) = some (terminal, n)) :
    (Candid.isNameStart c = true ∧ n = ((c :: rest).takeWhile Candid.isNameChar).length ∧
      terminal = let spelling := String.ofList ((c :: rest).takeWhile Candid.isNameChar)
        if lexicon.keywords.contains spelling then .fixed spelling else .name) ∨
    (terminal = .number ∧ c.isDigit = true ∧ n = numberLength (c :: rest)) ∨
    terminal = .text ∨ terminal = .assertOp ∨ ∃ spelling, terminal = .fixed spelling := by
  rw [front?] at h
  dsimp only at h
  split at h
  case isTrue hc =>
    obtain ⟨hterminal, hn⟩ := Prod.mk.inj (Option.some.inj h)
    exact .inl ⟨hc, hn.symm, hterminal.symm⟩
  case isFalse =>
    split at h
    case isTrue hc =>
      obtain ⟨hterminal, hn⟩ := Prod.mk.inj (Option.some.inj h)
      exact .inr (.inl ⟨hterminal.symm, hc, hn.symm⟩)
    case isFalse =>
      split at h
      case isTrue =>
        obtain ⟨m, -, hm⟩ := Option.map_eq_some_iff.mp h
        exact .inr (.inr (.inl (Prod.mk.inj hm).1.symm))
      case isFalse =>
        -- a mark: an operator of assertions or one of the fixed symbols
        split at h
        · split at h
          · cases h
            exact .inr (.inr (.inr (.inr ⟨_, rfl⟩)))
          · cases h
            exact .inr (.inr (.inr (.inl rfl)))
        · cases h
          exact .inr (.inr (.inr (.inl rfl)))
        · cases h
          exact .inr (.inr (.inr (.inr ⟨_, rfl⟩)))
        · cases h

theorem front?_number {lexicon : Lexicon} {cs : List Char} {n : Nat}
    (h : front? lexicon cs = some (.number, n)) :
    ∃ c rest, cs = c :: rest ∧ c.isDigit ∧ n = numberLength cs := by
  cases cs with
  | nil => cases h
  | cons c rest =>
    obtain ⟨-, -, hname⟩ | ⟨-, hc, hn⟩ | htext | hop | ⟨spelling, hmark⟩ := front?_cases h
    · dsimp only at hname
      split at hname <;> cases hname
    · exact ⟨c, rest, rfl, hc, hn⟩
    · cases htext
    · cases hop
    · cases hmark

/-- A number that a text is cut into has a value, and so it has with a minus sign in front. -/
theorem exists_number_of_scanFrom {lexicon : Lexicon} {at_ : Cursor} {cs : List Char} {k : Token}
    (h : k ∈ (scanFrom lexicon at_ cs).tokens) (hk : k.terminal = .number) {sign : String}
    (hs : sign = "" ∨ sign = "-") : ∃ v, Literal.number (sign ++ k.lexeme) = .ok v := by
  fun_induction scanFrom lexicon at_ cs with
  | case1 => cases h
  | case2 at_ c rest hc ih => exact ih h
  | case3 at_ c rest hc hfront =>
    rw [hfront] at h
    cases h
  | case4 at_ c rest hc terminal n lexeme next hfront ih =>
    rw [hfront] at h
    rcases List.mem_cons.mp h with rfl | h
    · obtain rfl : terminal = .number := hk
      obtain ⟨d, ds, hcs, hd, rfl⟩ := front?_number hfront
      cases hcs
      have hs' : sign.toList = [] ∨ sign.toList = ['-'] := by rcases hs with rfl | rfl <;> decide
      refine exists_number_of_numberLength hs' hd rest ?_
      obtain ⟨m, hm⟩ := Nat.exists_eq_add_of_lt (numberLength_pos hd rest)
      show (sign ++ String.ofList (c :: rest.take (numberLength (c :: rest) - 1))).toList = _
      rw [String.toList_append, String.toList_ofList, hm, List.take_succ_cons, Nat.add_sub_cancel]
    · exact ih h

end CanisterShell.Syntax
