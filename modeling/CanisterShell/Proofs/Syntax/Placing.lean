import CanisterShell.Proofs.Syntax.Joining
import CanisterShell.Proofs.Syntax.Scanning
import Mathlib

/-!
# Commands and their places

The token in front of some characters does not depend on what stands behind it (`front?_of_append`).  So
the tokens of a text may be divided anywhere and the text with them: each part is cut into its tokens when
it stands alone (`Laid.alone`), and the place of a token is that of its characters (`Laid.split`).

The span of a command tells the command: it goes from the first to the last of its tokens, and the
characters between are read as the same command when they stand alone (`Command.Spans`).  The commands of
a script stand in it one behind the other.
-/

namespace CanisterShell.Syntax

/-! ## Lengths -/

theorem takeWhile_of_append {p : Char → Bool} {cs rest : List Char}
    (h : ((cs ++ rest).takeWhile p).length ≤ cs.length) :
    cs.takeWhile p = (cs ++ rest).takeWhile p := by
  induction cs with
  | nil => exact (List.length_eq_zero_iff.mp (Nat.le_zero.mp h)).symm
  | cons c cs ih =>
    rw [List.cons_append, List.takeWhile_cons] at h ⊢
    rw [List.takeWhile_cons]
    split
    case isTrue hc =>
      rw [if_pos hc] at h
      rw [ih (Nat.le_of_succ_le_succ h)]
    case isFalse => rfl

/-- The length of something in front, which is found in any characters that hold it. -/
def Confined (length : List Char → Nat) : Prop :=
  ∀ cs rest : List Char, length (cs ++ rest) ≤ cs.length → length cs = length (cs ++ rest)

namespace Confined

theorem digits : Confined digitsLength := by
  intro cs rest h
  cases cs with
  | nil => exact (Nat.le_zero.mp h).symm
  | cons c cs =>
    rw [List.cons_append, digitsLength] at h ⊢
    rw [digitsLength]
    split
    case isTrue hc =>
      rw [if_pos hc] at h
      rw [takeWhile_of_append (Nat.le_of_succ_le_succ h)]
    case isFalse => rfl

theorem marked {mark : Bool} {n : Nat} {cs rest : List Char}
    (h : (if mark && digitsLength (cs ++ rest) ≠ 0 then digitsLength (cs ++ rest) + n else 0)
      ≤ cs.length + n) :
    (if mark && digitsLength cs ≠ 0 then digitsLength cs + n else 0)
      = if mark && digitsLength (cs ++ rest) ≠ 0 then digitsLength (cs ++ rest) + n else 0 := by
  cases mark with
  | false => rfl
  | true =>
    have hle : digitsLength (cs ++ rest) ≤ cs.length := by
      by_cases hzero : digitsLength (cs ++ rest) = 0
      · rw [hzero]
        exact Nat.zero_le _
      · simp only [Bool.true_and, hzero, ne_eq, not_false_eq_true, decide_true, if_true] at h
        exact Nat.le_of_add_le_add_right h
    rw [digits cs rest hle]

theorem part (isMark : Char → Bool) : Confined (partLength isMark) := by
  intro cs rest h
  cases cs with
  | nil => exact (Nat.le_zero.mp h).symm
  | cons c cs => exact marked h

theorem part_ne_one (isMark : Char → Bool) (cs : List Char) : partLength isMark cs ≠ 1 := by
  cases cs with
  | nil => exact Nat.zero_ne_one
  | cons c cs =>
    rw [partLength]
    split
    case isTrue h =>
      have hdigits := of_decide_eq_true (Bool.and_eq_true_iff.mp h).2
      omega
    case isFalse => exact Nat.zero_ne_one

theorem exponent_ne_one (cs : List Char) : exponentLength cs ≠ 1 := by
  rw [exponentLength.eq_def]
  split
  case h_1 | h_2 => split <;> omega
  case h_3 => exact part_ne_one _ cs

theorem exponent : Confined exponentLength := by
  intro cs rest h
  match cs with
  | [] => exact (Nat.le_zero.mp h).symm
  | [c] =>
    have hone := exponent_ne_one ([c] ++ rest)
    have hzero : exponentLength [c] = 0 := by simp [exponentLength, partLength, digitsLength]
    rw [List.length_singleton] at h
    omega
  | c :: d :: cs =>
    by_cases hp : d = '+'
    · subst hp
      exact marked h
    by_cases hm : d = '-'
    · subst hm
      exact marked h
    rw [List.cons_append, List.cons_append, exponentLength_unsigned hp hm] at h ⊢
    rw [exponentLength_unsigned hp hm]
    exact part _ _ rest h

theorem decimal : Confined decimalLength := by
  intro cs rest h
  rw [decimalLength] at h ⊢
  rw [decimalLength]
  dsimp only at h ⊢
  by_cases hzero : digitsLength (cs ++ rest) = 0
  case pos =>
    have hdigits : digitsLength cs = digitsLength (cs ++ rest) := digits cs rest (by omega)
    rw [if_pos hzero, if_pos (hdigits.trans hzero)]
  case neg =>
    rw [if_neg hzero] at h
    have hdrop {n : Nat} (hn : n ≤ cs.length) : (cs ++ rest).drop n = cs.drop n ++ rest :=
      List.drop_append_of_le_length hn
    have hdigits : digitsLength cs = digitsLength (cs ++ rest) := digits cs rest (by omega)
    rw [← hdigits] at h hzero ⊢
    rw [hdrop (by omega)] at h ⊢
    have hpart : partLength (· = '.') (cs.drop (digitsLength cs))
        = partLength (· = '.') (cs.drop (digitsLength cs) ++ rest) :=
      part _ _ rest (by rw [List.length_drop]; omega)
    rw [← hpart] at h ⊢
    rw [hdrop (by omega)] at h ⊢
    have hexponent := exponent (cs.drop _) rest (by rw [List.length_drop]; exact Nat.le_sub_of_add_le' h)
    rw [hexponent]

theorem number : Confined numberLength := by
  intro cs rest h
  by_cases hhex : ∃ d tail, cs ++ rest = '0' :: 'x' :: d :: tail ∧ (Bytes.hexValue? d).isSome = true
  case pos =>
    obtain ⟨d, tail, hcs, hd⟩ := hhex
    have hlength : numberLength (cs ++ rest) = (tail.takeWhile isHexDigitOrUnderscore).length + 3 := by
      rw [hcs, numberLength, if_pos hd]
    rw [hlength] at h ⊢
    -- the number has three characters at least, so the first three are there
    obtain _ | ⟨c, _ | ⟨x, _ | ⟨e, cs⟩⟩⟩ := cs
    case cons.cons.cons =>
      obtain ⟨rfl, rfl, rfl, rfl⟩ : c = '0' ∧ x = 'x' ∧ e = d ∧ cs ++ rest = tail := by
        simpa using hcs
      rw [numberLength, if_pos hd, takeWhile_of_append (by simpa using h)]
    all_goals simp at h
  case neg =>
    have hall (d : Char) (tail : List Char) (hcs : cs ++ rest = '0' :: 'x' :: d :: tail) :
        (Bytes.hexValue? d).isSome = false :=
      Bool.eq_false_iff.mpr fun hd => hhex ⟨d, tail, hcs, hd⟩
    rw [WithinBreak.numberLength_decimal hall] at h ⊢
    rw [WithinBreak.numberLength_decimal, decimal cs rest h]
    rintro d tail rfl
    exact hall d (tail ++ rest) rfl

end Confined

/-! ## Marks -/

/-- What is chosen among the first of some spellings is replaced by longer ones only. -/
theorem foldl_longer {choose : Option String → String → Option String} {n : Nat}
    (hnone : ∀ s, choose none s = some s)
    (hsome : ∀ b s, choose (some b) s = if b.length < s.length then some s else some b)
    (best? : Option String) (candidates : List String)
    (h : (∃ b, best? = some b ∧ n ≤ b.length) ∨ ∃ s ∈ candidates, n ≤ s.length) :
    ∃ t, candidates.foldl choose best? = some t ∧ n ≤ t.length := by
  induction candidates generalizing best? with
  | nil => simpa using h
  | cons c candidates ih =>
    rw [List.foldl_cons]
    apply ih
    obtain ⟨b, rfl, hb⟩ | ⟨s, hs, hn⟩ := h
    · rw [hsome]
      split
      · exact .inl ⟨c, rfl, by omega⟩
      · exact .inl ⟨b, rfl, hb⟩
    · obtain rfl | hs := List.mem_cons.mp hs
      · cases best? with
        | none => exact .inl ⟨s, hnone s, hn⟩
        | some b =>
          rw [hsome]
          split
          · exact .inl ⟨s, rfl, hn⟩
          · exact .inl ⟨b, rfl, by omega⟩
      · exact .inr ⟨s, hs, hn⟩

theorem longest?_spec {spellings : List String} {cs : List Char} {s : String}
    (hs : s ∈ spellings) (hfront : s.toList <+: cs) :
    ∃ t, longest? spellings cs = some t ∧ s.length ≤ t.length := by
  have hmem : s ∈ spellings.filter fun s => s.toList.isPrefixOf cs :=
    List.mem_filter.mpr ⟨hs, List.isPrefixOf_iff_prefix.mpr hfront⟩
  exact foldl_longer (fun _ => rfl) (fun _ _ => rfl) none _ (.inr ⟨s, hmem, Nat.le_refl _⟩)

theorem longest?_of_append {spellings : List String} {cs rest : List Char}
    (h : ∀ s, longest? spellings (cs ++ rest) = some s → s.length ≤ cs.length) :
    longest? spellings cs = longest? spellings (cs ++ rest) := by
  have hsame : ∀ s ∈ spellings, s.toList.isPrefixOf cs = s.toList.isPrefixOf (cs ++ rest) := by
    intro s hs
    rw [Bool.eq_iff_iff, List.isPrefixOf_iff_prefix, List.isPrefixOf_iff_prefix]
    constructor
    · exact fun hfront => hfront.trans (List.prefix_append cs rest)
    · intro hfront
      obtain ⟨t, ht, hle⟩ := longest?_spec hs hfront
      rw [← String.length_toList] at hle
      exact List.prefix_of_prefix_length_le hfront (List.prefix_append cs rest) (hle.trans (h t ht))
  rw [longest?, longest?, List.filter_congr hsame]

/-! ## The token in front -/

/-- The token in front of some characters is there whatever stands behind it. -/
theorem front?_of_append {cs rest : List Char} {terminal : Terminal} {n : Nat}
    (h : front? scriptGrammar.lexicon (cs ++ rest) = some (terminal, n)) (hn : n ≤ cs.length) :
    front? scriptGrammar.lexicon cs = some (terminal, n) := by
  cases cs with
  | nil => exact absurd (Front.of_front? h).pos (Nat.not_lt.mpr hn)
  | cons c cs =>
    rw [List.cons_append, front?] at h
    rw [front?]
    by_cases hname : Candid.isNameStart c = true
    · rw [if_pos hname] at h ⊢
      obtain ⟨hterminal, rfl⟩ := Prod.mk.inj (Option.some.inj h)
      rw [← hterminal, ← List.cons_append, takeWhile_of_append hn]
    rw [if_neg hname] at h ⊢
    by_cases hdigit : c.isDigit = true
    · rw [if_pos hdigit] at h ⊢
      obtain ⟨rfl, rfl⟩ := Prod.mk.inj (Option.some.inj h)
      rw [Confined.number (c :: cs) rest hn, List.cons_append]
    rw [if_neg hdigit] at h ⊢
    by_cases hquote : c = '"'
    · rw [if_pos hquote] at h ⊢
      obtain ⟨m, hm, hx⟩ := Option.map_eq_some_iff.mp h
      obtain ⟨rfl, rfl⟩ := Prod.mk.inj hx
      rw [quotedLength_of_le hm (Nat.le_of_succ_le_succ hn)]
      rfl
    rw [if_neg hquote] at h ⊢
    rw [← List.cons_append] at h
    have hchosen : (∀ op, longest? scriptGrammar.lexicon.assertOps (c :: cs ++ rest) = some op →
          op.length ≤ n) ∧
        ∀ s, longest? scriptGrammar.lexicon.symbols (c :: cs ++ rest) = some s → s.length ≤ n := by
      split at h
      case h_1 op s hop hs =>
        rw [hop, hs]
        constructor <;> rintro _ ⟨⟩ <;> split at h <;> cases h <;> omega
      case h_2 op hop hs =>
        rw [hop, hs]
        cases h
        constructor <;> rintro _ ⟨⟩
        exact Nat.le_refl _
      case h_3 s hop hs =>
        rw [hop, hs]
        cases h
        constructor <;> rintro _ ⟨⟩
        exact Nat.le_refl _
      case h_4 => cases h
    rw [longest?_of_append fun op hop => (hchosen.1 op hop).trans hn,
      longest?_of_append fun s hs => (hchosen.2 s hs).trans hn, h]

/-! ## Places -/

namespace Cursor

theorem advance_append (at_ : Cursor) (cs ds : List Char) :
    at_.advance (cs ++ ds) = (at_.advance cs).advance ds := List.foldl_append

theorem offset_step (at_ : Cursor) (c : Char) : (at_.step c).offset = at_.offset + 1 := by
  rw [step]
  split <;> rfl

theorem offset_advance (at_ : Cursor) (cs : List Char) :
    (at_.advance cs).offset = at_.offset + cs.length := by
  induction cs generalizing at_ with
  | nil => rfl
  | cons c cs ih =>
    rw [advance, List.foldl_cons, ← advance, ih, offset_step, List.length_cons, Nat.add_assoc,
      Nat.add_comm 1]

theorem advance_eq (cs : List Char) :
    Cursor.advance {} cs = ⟨cs.length, (Text.place cs).1, (Text.place cs).2⟩ := by
  induction cs using List.reverseRecOn with
  | nil => rfl
  | append_singleton cs c ih =>
    rw [advance_append, ih]
    change step _ c = _
    rw [step]
    by_cases hc : c = '\n'
    · subst hc
      simp [Text.place]
    · simp [Text.place, hc]

def spanOf (at_ : Cursor) (cs : List Char) : Text.Span :=
  ⟨at_.offset, (at_.advance cs).offset, at_.line, at_.column⟩

theorem spanOf_eq (before cs rest : List Char) : (Cursor.advance {} before).spanOf cs
    = Text.spanOf (before ++ (cs ++ rest)) before.length (before.length + cs.length) := by
  have hplace : Text.placeOf (before ++ (cs ++ rest)) before.length = Text.place before := by
    rw [Text.placeOf, List.take_left]
    simp
  rw [spanOf, advance_eq, offset_advance, Text.spanOf, hplace]

end Cursor

/-! ## Tokens and their characters -/

/-- Tokens that characters from a place on are cut into, in front of what stands behind them. -/
inductive Laid : Cursor → List Char → List Char → List Token → Prop where
  | nil {at_ : Cursor} {rest : List Char} : Laid at_ [] rest []
  | space {at_ : Cursor} {c : Char} {cs rest : List Char} {ks : List Token}
      (hc : isSpace c = true) (h : Laid (at_.step c) cs rest ks) : Laid at_ (c :: cs) rest ks
  | token {at_ : Cursor} {c : Char} {cs ds rest : List Char} {terminal : Terminal}
      {ks : List Token} (hc : isSpace c = false)
      (hfront : front? scriptGrammar.lexicon (c :: cs ++ (ds ++ rest))
        = some (terminal, (c :: cs).length))
      (h : Laid (at_.advance (c :: cs)) ds rest ks) :
      Laid at_ (c :: cs ++ ds) rest
        (⟨terminal, String.ofList (c :: cs), at_.spanOf (c :: cs)⟩ :: ks)

/-- What stands behind the tokens of a text: nothing, or a character that begins none. -/
def Ending.Stands (at_ : Cursor) (rest : List Char) : Ending → Prop
  | .complete => rest = []
  | .stray c span => ∃ tail, rest = c :: tail ∧ isSpace c = false ∧
      front? scriptGrammar.lexicon rest = none ∧ span = at_.spanOf [c]

namespace Laid

variable {at_ : Cursor} {cs rest : List Char} {ks ls : List Token}

theorem of_scanFrom (at_ : Cursor) (cs : List Char) : ∃ used rest, cs = used ++ rest ∧
    Laid at_ used rest (scanFrom scriptGrammar.lexicon at_ cs).tokens ∧
      (scanFrom scriptGrammar.lexicon at_ cs).ending.Stands (at_.advance used) rest := by
  fun_induction scanFrom scriptGrammar.lexicon at_ cs with
  | case1 at_ => exact ⟨[], [], rfl, .nil, rfl⟩
  | case2 at_ c cs hc ih =>
    obtain ⟨used, rest, rfl, hlaid, hend⟩ := ih
    exact ⟨c :: used, rest, rfl, .space hc hlaid, hend⟩
  | case3 at_ c cs hc hfront =>
    have hspan : at_.spanOf [c] = ⟨at_.offset, at_.offset + 1, at_.line, at_.column⟩ := by
      rw [Cursor.spanOf, Cursor.offset_advance]
      rfl
    refine ⟨[], c :: cs, rfl, ?_⟩
    rw [hfront]
    exact ⟨.nil, cs, rfl, Bool.eq_false_iff.mpr hc, hfront, hspan.symm⟩
  | case4 at_ c cs hc terminal n lexeme next hfront ih =>
    have front := Front.of_front? hfront
    obtain ⟨m, rfl⟩ : ∃ m, n = m + 1 := Nat.exists_eq_add_one.mpr front.pos
    have hlen : m ≤ cs.length := Nat.le_of_succ_le_succ front.le
    have hsplit : c :: cs = c :: cs.take m ++ cs.drop m := by
      rw [List.cons_append, List.take_append_drop]
    obtain ⟨used, rest, hdrop, hlaid, hend⟩ := ih
    have hused : c :: cs = c :: cs.take m ++ (used ++ rest) := by
      rw [← hdrop]
      exact hsplit
    have hfront' : front? scriptGrammar.lexicon (c :: cs.take m ++ (used ++ rest))
        = some (terminal, (c :: cs.take m).length) := by
      rw [← hused, hfront, List.length_cons, List.length_take_of_le hlen]
    rw [hfront]
    refine ⟨c :: cs.take m ++ used, rest, ?_, .token (Bool.eq_false_iff.mpr hc) hfront' hlaid, ?_⟩
    · rw [hused, List.append_assoc]
    · rw [Cursor.advance_append]
      exact hend

theorem scanFrom_eq (h : Laid at_ cs rest ks) (hrest : rest = []) :
    scanFrom scriptGrammar.lexicon at_ cs = ⟨ks, .complete⟩ := by
  induction h with
  | nil => rw [scanFrom]
  | space hc _ ih => rw [scanFrom, if_pos hc, ih hrest]
  | @token at_ c cs ds rest terminal ks hc hfront _ ih =>
    subst hrest
    have hspace : ¬isSpace c = true := by
      rw [hc]
      decide
    rw [List.append_nil] at hfront
    rw [List.cons_append] at hfront ⊢
    rw [scanFrom, if_neg hspace, hfront]
    simp [Cursor.spanOf, ih rfl]

/-- The tokens of characters do not depend on what stands behind these. -/
theorem alone (h : Laid at_ cs rest ks) : Laid at_ cs [] ks := by
  induction h with
  | nil => exact .nil
  | space hc _ ih => exact .space hc ih
  | @token at_ c cs ds rest terminal ks hc hfront _ ih =>
    rw [← List.append_assoc] at hfront
    refine .token hc ?_ ih
    rw [List.append_nil]
    exact front?_of_append hfront (by simp)

/-- Some tokens and others behind them are laid over characters and others behind them.  Blanks between
them stand with the first ones. -/
theorem split (h : Laid at_ cs rest (ks ++ ls)) : ∃ ds es, cs = ds ++ es ∧
    Laid at_ ds (es ++ rest) ks ∧ Laid (at_.advance ds) es rest ls ∧
      ∀ k ∈ ls.head?, ∃ token, k.span = (at_.advance ds).spanOf token := by
  generalize hall : ks ++ ls = all at h
  induction h generalizing ks with
  | nil =>
    obtain ⟨rfl, rfl⟩ := List.append_eq_nil_iff.mp hall
    exact ⟨[], [], rfl, .nil, .nil, nofun⟩
  | @space at_ c cs rest all hc _ ih =>
    obtain ⟨ds, es, rfl, hfirst, hsecond, hhead⟩ := ih hall
    exact ⟨c :: ds, es, rfl, .space hc hfirst, hsecond, hhead⟩
  | @token at_ c cs ds rest terminal all hc hfront h ih =>
    cases ks with
    | nil =>
      rw [List.nil_append] at hall
      subst hall
      refine ⟨[], _, rfl, .nil, .token hc hfront h, ?_⟩
      rintro k ⟨⟩
      exact ⟨c :: cs, rfl⟩
    | cons k ks =>
      obtain ⟨rfl, htail⟩ := List.cons.inj hall
      obtain ⟨ds', es, rfl, hfirst, hsecond, hhead⟩ := ih htail
      refine ⟨c :: cs ++ ds', es, by rw [List.append_assoc], .token hc ?_ hfirst, ?_, ?_⟩
      · rw [List.append_assoc] at hfront
        exact hfront
      · rw [Cursor.advance_append]
        exact hsecond
      · rw [Cursor.advance_append]
        exact hhead

theorem trim (h : Laid at_ cs rest ks) (hne : ks ≠ []) : ∃ ds es, cs = ds ++ es ∧
    Laid at_ ds (es ++ rest) ks ∧ (ks.getLast hne).span.stop = (at_.advance ds).offset := by
  induction h with
  | nil => exact absurd rfl hne
  | @space at_ c cs rest ks hc _ ih =>
    obtain ⟨ds, es, rfl, hlaid, hstop⟩ := ih hne
    exact ⟨c :: ds, es, rfl, .space hc hlaid, hstop⟩
  | @token at_ c cs ds rest terminal ks hc hfront h ih =>
    cases ks with
    | nil =>
      refine ⟨c :: cs, ds, rfl, ?_, rfl⟩
      have : Laid at_ (c :: cs ++ []) (ds ++ rest) [_] := .token hc hfront .nil
      rwa [List.append_nil] at this
    | cons k ks =>
      obtain ⟨ds', es, rfl, hlaid, hstop⟩ := ih (List.cons_ne_nil k ks)
      refine ⟨c :: cs ++ ds', es, by rw [List.append_assoc], .token hc ?_ hlaid, ?_⟩
      · rw [List.append_assoc] at hfront
        exact hfront
      · rw [Cursor.advance_append]
        exact hstop

theorem ordered (h : Laid at_ cs rest ks) :
    ks.Pairwise (fun k l => k.span.stop ≤ l.span.start) ∧
      ∀ k ∈ ks, at_.offset ≤ k.span.start ∧ k.span.start < k.span.stop := by
  induction h with
  | nil => exact ⟨.nil, nofun⟩
  | @space at_ c cs rest ks hc _ ih =>
    refine ⟨ih.1, fun k hk => ?_⟩
    have := ih.2 k hk
    rw [Cursor.offset_step] at this
    omega
  | @token at_ c cs ds rest terminal ks hc hfront _ ih =>
    have hoffset : (at_.advance (c :: cs)).offset = at_.offset + (cs.length + 1) :=
      Cursor.offset_advance at_ (c :: cs)
    refine ⟨.cons (fun k hk => (ih.2 k hk).1) ih.1, List.forall_mem_cons.mpr ⟨?_, fun k hk => ?_⟩⟩
    · dsimp only [Cursor.spanOf]
      omega
    · have := ih.2 k hk
      omega

theorem stretch {pre mid post : List Token} (h : Laid at_ cs rest (pre ++ mid ++ post))
    (hne : mid ≠ []) : ∃ before inside after, cs = before ++ (inside ++ after) ∧
      Laid (at_.advance before) inside [] mid ∧
        Rule.spanOf (mid.head hne) (mid.getLast hne) = (at_.advance before).spanOf inside := by
  rw [List.append_assoc] at h
  obtain ⟨before, behind, rfl, -, hbehind, hhead⟩ := h.split
  obtain ⟨inside, after, rfl, hmid, -, -⟩ := hbehind.split
  obtain ⟨inside, blanks, rfl, hmid, hstop⟩ := hmid.trim hne
  refine ⟨before, inside, blanks ++ after, by rw [List.append_assoc], hmid.alone, ?_⟩
  obtain ⟨token, hstart⟩ := hhead (mid.head hne) (by
    rw [List.head?_append, List.head?_eq_some_head hne]
    rfl)
  rw [Rule.spanOf, hstart, hstop]
  rfl

end Laid

theorem laid_of_scan {source : List Char} {ks : List Token}
    (h : scan scriptGrammar.lexicon source = ⟨ks, .complete⟩) : Laid {} source [] ks := by
  obtain ⟨used, rest, rfl, hlaid, hend⟩ := Laid.of_scanFrom {} source
  rw [← scan, h] at hlaid hend
  obtain rfl : rest = [] := hend
  rwa [List.append_nil]

/-! ## Commands and tokens -/

open Rule (Derives)

theorem span_of_derives {ks : List Token} {c : Command}
    (h : Derives Phrase.rules (Phrase.ref .command) ks (.ok c)) :
    ∃ hne : ks ≠ [], c.span = Rule.spanOf (ks.head hne) (ks.getLast hne) := by
  obtain ⟨⟨span, action⟩, hspanned, hc⟩ := h.consists.consists
  obtain ⟨hne, hspan, -⟩ := hspanned.consists
  refine ⟨hne, ?_⟩
  cases action with
  | error e => cases hc
  | ok action =>
    cases hc
    exact hspan

theorem Phrase.Listed.commands {ks : List Token} {m : Attempt (List Command)} (h : Phrase.Listed ks m)
    {commands : List Command} (hm : m = .ok commands) :
    (∀ c ∈ commands, ∃ pre mid post, ks = pre ++ mid ++ post ∧
      Derives Phrase.rules (Phrase.ref .command) mid (.ok c)) ∧
    (ks.Pairwise (fun k l => k.span.stop ≤ l.span.start) →
      commands.Pairwise fun c d => c.span.stop ≤ d.span.start) := by
  induction h generalizing commands with
  | nil =>
    cases hm
    exact ⟨nofun, fun _ => .nil⟩
  | @skip k ks m hk _ ih =>
    obtain ⟨hderives, hordered⟩ := ih hm
    refine ⟨fun c hc => ?_, fun hks => hordered (List.pairwise_cons.mp hks).2⟩
    obtain ⟨pre, mid, post, rfl, hmid⟩ := hderives c hc
    exact ⟨k :: pre, mid, post, rfl, hmid⟩
  | @last ks c? hc =>
    obtain ⟨c, rfl, hall⟩ := Attempt.bind_ok_iff.mp hm
    cases hall
    refine ⟨fun d hd => ?_, fun _ => List.pairwise_singleton _ c⟩
    rw [List.mem_singleton.mp hd]
    exact ⟨[], ks, [], by rw [List.append_nil, List.nil_append], hc⟩
  | @more k ks ls c? m hc hk _ ih =>
    obtain ⟨c, rfl, htail⟩ := Attempt.bind_ok_iff.mp hm
    obtain ⟨rest, rfl, hall⟩ := Attempt.bind_ok_iff.mp htail
    cases hall
    obtain ⟨hderives, hordered⟩ := ih rfl
    constructor
    · refine List.forall_mem_cons.mpr ⟨⟨[], ks, k :: ls, rfl, hc⟩, fun d hd => ?_⟩
      obtain ⟨pre, mid, post, rfl, hmid⟩ := hderives d hd
      exact ⟨ks ++ k :: pre, mid, post, by simp, hmid⟩
    · intro hks
      obtain ⟨-, hls, hbetween⟩ := List.pairwise_append.mp hks
      refine .cons (fun d hd => ?_) (hordered (List.pairwise_cons.mp hls).2)
      obtain ⟨pre, mid, post, rfl, hmid⟩ := hderives d hd
      obtain ⟨hne, hspan⟩ := span_of_derives hc
      obtain ⟨hne', hspan'⟩ := span_of_derives hmid
      rw [hspan, hspan']
      exact hbetween _ (List.getLast_mem hne) _ (by simp)

/-! ## Spans -/

/-- A command whose span goes from the start of a token of a prepared source to the end of one, and
holds what is read as the command alone. -/
structure Command.Spans (prepared : List Char) (c : Command) : Prop where
  starts : ∃ k ∈ (scan scriptGrammar.lexicon prepared).tokens, k.span.start = c.span.start
  stops : ∃ k ∈ (scan scriptGrammar.lexicon prepared).tokens, k.span.stop = c.span.stop
  nonempty : c.span.start < c.span.stop
  within : c.span.stop ≤ prepared.length
  placed : c.span = Text.spanOf prepared c.span.start c.span.stop
  alone : ∃ c', build (scriptGrammar.parse .command (c.span.cut prepared)) = .ok c' ∧ c.Alike c'

theorem cut_spanOf (before inside after : List Char) :
    ((Cursor.advance {} before).spanOf inside).cut (before ++ (inside ++ after)) = inside := by
  have hlength : before.length + inside.length - before.length = inside.length :=
    Nat.add_sub_cancel_left ..
  rw [Cursor.spanOf_eq before inside after, Text.Span.cut]
  change (List.drop before.length _).take (before.length + inside.length - before.length) = inside
  rw [hlength, List.drop_left, List.take_left]

/-- Characters that are cut into the tokens of a phrase are read as the phrase means, but for places. -/
theorem Laid.parse {n : Nonterminal} {at_ : Cursor} {cs : List Char} {ks : List Token} {m : Meaning n}
    (hlaid : Laid at_ cs [] ks) (h : Derives Phrase.rules (Phrase.ref n) ks m) :
    ∃ m', scriptGrammar.parse n cs = .ok m' ∧ Respelled n m m' := by
  have hscan := hlaid.scanFrom_eq rfl
  -- the same words wherever the characters stand
  obtain ⟨ls, hls, hcut⟩ := (cuts_of_complete (congrArg Tokens.ending hscan)).scan nofun
  rw [hscan] at hls
  exact parse_respelled h hcut hls

theorem Command.spans_of_derives {prepared : List Char} {pre mid post : List Token} {c : Command}
    (hscan : scan scriptGrammar.lexicon prepared = ⟨pre ++ mid ++ post, .complete⟩)
    (h : Derives Phrase.rules (Phrase.ref .command) mid (.ok c)) : c.Spans prepared := by
  have hlaid := laid_of_scan hscan
  obtain ⟨hne, hspan⟩ := span_of_derives h
  have hmem {k : Token} (hk : k ∈ mid) : k ∈ (scan scriptGrammar.lexicon prepared).tokens := by
    rw [hscan]
    exact List.mem_append_left _ (List.mem_append_right _ hk)
  have hfirst := hmem (List.head_mem hne)
  have hlast := hmem (List.getLast_mem hne)
  obtain ⟨before, inside, after, rfl, hinside, hstretch⟩ := hlaid.stretch hne
  obtain ⟨m, hm, hfollows⟩ := hinside.parse h
  obtain ⟨c', rfl, halike⟩ := hfollows _ rfl
  have hcut := cut_spanOf before inside after
  rw [← hstretch, ← hspan] at hcut
  have hplace := hspan.trans (hstretch.trans (Cursor.spanOf_eq before inside after))
  refine ⟨⟨_, hfirst, by rw [hspan]; rfl⟩, ⟨_, hlast, by rw [hspan]; rfl⟩, ?_, ?_, ?_, c', ?_, halike⟩
  · have hinside : 0 < inside.length := List.length_pos_iff.mpr fun hnil => by
      subst hnil
      cases hinside
      exact hne rfl
    rw [hplace]
    exact Nat.lt_add_of_pos_right hinside
  · rw [hplace]
    simp [Text.spanOf]
  · conv_rhs => rw [hplace]
    exact hplace
  · rw [hcut, hm]
    rfl

theorem spans_of_readCommands {prepared : List Char} {commands : List Command}
    (h : readCommands prepared = .ok commands) :
    commands.Pairwise (fun c d => c.span.stop ≤ d.span.start) ∧ ∀ c ∈ commands, c.Spans prepared := by
  obtain ⟨ks, hscan, hder⟩ := exists_of_parse (readCommands_ok_iff.mp h)
  obtain ⟨hderives, hordered⟩ := (Phrase.Listed.of_derives hder.ref).commands rfl
  refine ⟨hordered (laid_of_scan hscan).ordered.1, fun c hc => ?_⟩
  obtain ⟨pre, mid, post, rfl, hmid⟩ := hderives c hc
  exact Command.spans_of_derives hscan hmid

/-- The commands of a script stand in its prepared source one behind the other, each with the span that
is the command. -/
theorem commandSpans_exact {environ : Source.Environ} {source : String} {commands : List Command}
    (h : parseCommands environ source = .ok commands) :
    ∃ prepared, Source.prepare environ source.toList = .ok prepared ∧
      commands.Pairwise (fun c d => c.span.stop ≤ d.span.start) ∧
      ∀ c ∈ commands, c.Spans prepared := by
  obtain ⟨prepared, hprepared, hread⟩ := parseCommands_ok_iff.mp h
  exact ⟨prepared, hprepared, spans_of_readCommands hread⟩

/-- Two commands with a comment between them, the second one on a line of its own. -/
theorem commandSpans_exact_twoLines : ∃ prepared,
    Source.prepare [] "x ? ; // y\n  let z = (x)".toList = .ok prepared ∧
      Command.Spans prepared (.mk ⟨0, 3, 1, 1⟩ (.evaluate (.path "x" [.unwrap]))) ∧
      Command.Spans prepared (.mk ⟨13, 24, 2, 3⟩ (.bind "z" (.path "x" []))) := by
  have hparse : parseCommands [] "x ? ; // y\n  let z = (x)"
      = .ok [.mk ⟨0, 3, 1, 1⟩ (.evaluate (.path "x" [.unwrap])),
        .mk ⟨13, 24, 2, 3⟩ (.bind "z" (.path "x" []))] := by cbv
  obtain ⟨prepared, hprepared, -, hspans⟩ := commandSpans_exact hparse
  exact ⟨prepared, hprepared, hspans _ (.head _), hspans _ (.tail _ (.head _))⟩

end CanisterShell.Syntax
