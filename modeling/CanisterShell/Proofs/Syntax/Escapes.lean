import CanisterShell.Proofs.Syntax.Building
import CanisterShell.Proofs.Syntax.Quoting
import Mathlib.Data.Nat.Digits.Defs

/-!
# Escapes

What stands between quotes is a row of parts: characters for themselves, and escapes by letter, by the
code of a character in braces, or by the two digits of a byte.  No part begins another one, so there is
at most one way to read a text in parts.  If there is one the text stands for the bytes of its parts;
otherwise it is refused with an error of reading, but for one mistake, braces between which are only
underscores (`unescape_exact`).
-/

namespace CanisterShell.Literal

open Bytes (hexValue?)

/-! ## Parts -/

def letters : List (Char × UInt8) :=
  [('n', 10), ('r', 13), ('t', 9), ('\\', 92), ('"', 34), ('\'', 39)]

/-- The hexadecimal digits of the code of a character, among which underscores may stand. -/
structure CodeDigits (digits : List Char) (c : Char) : Prop where
  hex : ∀ d ∈ digits, d = '_' ∨ (hexValue? d).isSome = true
  some_digit : ∃ d ∈ digits, d ≠ '_'
  code : Nat.ofDigits 16 (digits.filterMap hexValue?).reverse = c.toNat

/-- A part of what stands between quotes. -/
inductive Part where
  | plain (c : Char) (h : c ≠ '\\')
  | letter (e : Char) (b : UInt8) (h : (e, b) ∈ letters)
  | scalar (digits : List Char) (c : Char) (h : CodeDigits digits c)
  | byte (hi lo : Char) (m n : Nat) (hhi : hexValue? hi = some m) (hlo : hexValue? lo = some n)

namespace Part

def written : Part → List Char
  | plain c _ => [c]
  | letter e _ _ => ['\\', e]
  | scalar digits _ _ => '\\' :: 'u' :: '\x7b' :: digits ++ ['\x7d']
  | byte hi lo _ _ _ _ => ['\\', hi, lo]

def bytes : Part → Bytes
  | plain c _ => String.utf8EncodeChar c
  | letter _ b _ => [b]
  | scalar _ c _ => String.utf8EncodeChar c
  | byte _ _ m n _ _ => [UInt8.ofNat (16 * m + n)]

end Part

def writtenOf (parts : List Part) : List Char := parts.flatMap Part.written

/-- A text that comes, behind parts, to an escape in braces between which are only underscores. -/
def LacksDigits (cs : List Char) : Prop :=
  ∃ (parts : List Part) (digits rest : List Char), digits ≠ [] ∧ (∀ d ∈ digits, d = '_') ∧
    cs = writtenOf parts ++ ('\\' :: 'u' :: '\x7b' :: digits ++ '\x7d' :: rest)

/-! ## No part begins another -/

theorem isHexOrUnderscore_iff {d : Char} :
    isHexOrUnderscore d = true ↔ d = '_' ∨ (hexValue? d).isSome = true := by
  rw [isHexOrUnderscore, Bool.or_eq_true, decide_eq_true_eq, or_comm]

theorem letters_spec : ∀ l ∈ letters, simpleEscape? l.1 = some l.2 ∧ hexValue? l.1 = none ∧
    l.1 ≠ 'u' := by decide

theorem mem_letters_of_simpleEscape? {e : Char} {b : UInt8} (h : simpleEscape? e = some b) :
    (e, b) ∈ letters := by
  unfold simpleEscape? at h
  split_ifs at h <;>
  · subst_vars
    cases h
    decide

theorem hexValue?_ne_u {hi : Char} {m : Nat} (h : hexValue? hi = some m) : hi ≠ 'u' := by
  rintro rfl
  cases h

theorem hexNumber_eq (digits : List Char) :
    hexNumber digits = Nat.ofDigits 16 (digits.filterMap hexValue?).reverse := by
  rw [Nat.ofDigits_eq_foldr, List.foldr_reverse, hexNumber]
  simp only [Nat.cast_id, Nat.add_comm]

theorem digits_eq {digits digits' rest rest' : List Char}
    (h : ∀ d ∈ digits, isHexOrUnderscore d = true) (h' : ∀ d ∈ digits', isHexOrUnderscore d = true)
    (heq : digits ++ '\x7d' :: rest = digits' ++ '\x7d' :: rest') :
    digits = digits' ∧ rest = rest' := by
  have hend {tail : List Char} : ∀ c ∈ ('\x7d' :: tail).head?, isHexOrUnderscore c = false := by
    rintro c ⟨⟩
    rfl
  have htake := congrArg (List.takeWhile isHexOrUnderscore) heq
  rw [Syntax.takeWhile_append_of_head h hend, Syntax.takeWhile_append_of_head h' hend] at htake
  subst htake
  exact ⟨rfl, (List.cons.inj (List.append_cancel_left heq)).2⟩

namespace Part

theorem second_eq {e e' : Char} {cs ds : List Char} (h : '\\' :: e :: cs = '\\' :: e' :: ds) :
    e = e' ∧ cs = ds := List.cons.inj (List.cons.inj h).2

theorem eq_of_append {p q : Part} {cs ds : List Char} (h : p.written ++ cs = q.written ++ ds) :
    p = q ∧ cs = ds := by
  cases p with
  | plain c hc =>
    cases q with
    | plain d hd =>
      obtain ⟨rfl, rfl⟩ := List.cons.inj h
      exact ⟨rfl, rfl⟩
    | letter | scalar | byte => exact absurd (List.cons.inj h).1 hc
  | letter e b he =>
    obtain ⟨hb, hhex, hu⟩ := letters_spec _ he
    cases q with
    | plain d hd => exact absurd (List.cons.inj h).1.symm hd
    | letter e' b' he' =>
      obtain ⟨rfl, rfl⟩ := second_eq h
      obtain rfl := Option.some.inj (hb.symm.trans (letters_spec _ he').1)
      exact ⟨rfl, rfl⟩
    | scalar => exact absurd (second_eq h).1 hu
    | byte hi lo m n hhi =>
      rw [← (second_eq h).1, hhex] at hhi
      cases hhi
  | scalar digits c hc =>
    cases q with
    | plain d hd => exact absurd (List.cons.inj h).1.symm hd
    | letter e b he => exact absurd (second_eq h).1.symm (letters_spec _ he).2.2
    | scalar digits' c' hc' =>
      have hinside : digits ++ '\x7d' :: cs = digits' ++ '\x7d' :: ds := by
        simpa [written] using h
      have hdigits {digits : List Char} {c : Char} (h : CodeDigits digits c) :
          ∀ d ∈ digits, isHexOrUnderscore d = true :=
        fun d hd => isHexOrUnderscore_iff.mpr (h.hex d hd)
      obtain ⟨rfl, rfl⟩ := digits_eq (hdigits hc) (hdigits hc') hinside
      obtain rfl := Char.toNat_inj.mp (hc.code.symm.trans hc'.code)
      exact ⟨rfl, rfl⟩
    | byte hi lo m n hhi => exact absurd (second_eq h).1.symm (hexValue?_ne_u hhi)
  | byte hi lo m n hhi hlo =>
    cases q with
    | plain d hd => exact absurd (List.cons.inj h).1.symm hd
    | letter e b he =>
      rw [(second_eq h).1, (letters_spec _ he).2.1] at hhi
      cases hhi
    | scalar => exact absurd (second_eq h).1 (hexValue?_ne_u hhi)
    | byte hi' lo' m' n' hhi' hlo' =>
      obtain ⟨rfl, htail⟩ := second_eq h
      obtain ⟨rfl, rfl⟩ := List.cons.inj htail
      obtain rfl := Option.some.inj (hhi.symm.trans hhi')
      obtain rfl := Option.some.inj (hlo.symm.trans hlo')
      exact ⟨rfl, rfl⟩

end Part

/-- There is one way at most to read a text in parts. -/
theorem writtenOf_injective : Function.Injective writtenOf := by
  intro ps
  induction ps with
  | nil =>
    intro qs h
    cases qs with
    | nil => rfl
    | cons q qs => cases q <;> cases h
  | cons p ps ih =>
    intro qs h
    cases qs with
    | nil => cases p <;> cases h
    | cons q qs =>
      obtain ⟨rfl, hrest⟩ := Part.eq_of_append h
      rw [ih hrest]

/-! ## Reading parts -/

theorem braced?_eq_some {cs digits : List Char} (h : braced? cs = some digits) :
    digits ≠ [] ∧ (∀ d ∈ digits, isHexOrUnderscore d = true) ∧
      ∃ rest, cs = '\x7b' :: digits ++ '\x7d' :: rest := by
  unfold braced? at h
  split at h
  case h_1 cs =>
    dsimp only at h
    split at h
    case h_1 d ds rest hdigits hrest =>
      obtain rfl := Option.some.inj h
      refine ⟨by rw [hdigits]; exact List.cons_ne_nil _ _, ?_, rest, ?_⟩
      · exact fun d hd => List.all_eq_true.mp List.all_takeWhile d hd
      · rw [← hrest, List.cons_append]
        exact congrArg _ (List.prefix_iff_eq_append.mp (List.takeWhile_prefix _)).symm
    case h_2 => cases h
  case h_2 => cases h

theorem isScalar_toNat (c : Char) : isScalar c.toNat = true := by
  have hvalid : c.toNat < 0xD800 ∨ 0xDFFF < c.toNat ∧ c.toNat < 0x110000 := c.valid
  rw [isScalar, Bool.and_eq_true, Bool.not_eq_true', Bool.and_eq_false_iff, decide_eq_true_eq,
    decide_eq_false_iff_not, decide_eq_false_iff_not]
  omega

theorem toNat_ofNat_of_isScalar {n : Nat} (h : isScalar n = true) : (Char.ofNat n).toNat = n := by
  rw [isScalar, Bool.and_eq_true, Bool.not_eq_true', Bool.and_eq_false_iff, decide_eq_true_eq,
    decide_eq_false_iff_not, decide_eq_false_iff_not] at h
  have hvalid : n.isValidChar := by
    simp only [Nat.isValidChar]
    omega
  rw [Char.ofNat, dif_pos hvalid]
  rfl

theorem unescapeFrom_braces (body : String) {digits : List Char} (hne : digits ≠ [])
    (hdigits : ∀ d ∈ digits, isHexOrUnderscore d = true) (rest : List Char) :
    unescapeFrom body ('\\' :: 'u' :: '\x7b' :: digits ++ '\x7d' :: rest) =
      if digits.all (· = '_') then .error Syntax.emptyEscape
      else if isScalar (hexNumber digits) then
        (String.utf8EncodeChar (Char.ofNat (hexNumber digits)) ++ ·) <$> unescapeFrom body rest
      else .error (refuse (.unicodeEscapeRange (String.ofList digits))) := by
  have hletter : simpleEscape? 'u' = none := rfl
  have hhex : hexValue? 'u' = none := rfl
  have hdrop : ('\x7b' :: digits ++ '\x7d' :: rest).drop (digits.length + 2) = rest := by simp
  rw [List.cons_append, List.cons_append, unescapeFrom.eq_4 _ _ _ fun _ _ _ h _ =>
    Option.some_ne_none _ (h.symm.trans hhex), hletter]
  dsimp only
  rw [if_pos rfl, Syntax.braced?_digits hne hdigits]
  dsimp only
  rw [hdrop]
  rfl

theorem unescapeFrom_part (body : String) (p : Part) (rest : List Char) :
    unescapeFrom body (p.written ++ rest) = (p.bytes ++ ·) <$> unescapeFrom body rest := by
  cases p with
  | plain c hc => exact Syntax.unescapeFrom_plain body hc rest
  | letter e b he =>
    rw [Part.written, List.cons_append, List.singleton_append, unescapeFrom.eq_def]
    simp only [(letters_spec _ he).1]
    rfl
  | scalar digits c hc =>
    have hdigits : ∀ d ∈ digits, isHexOrUnderscore d = true :=
      fun d hd => isHexOrUnderscore_iff.mpr (hc.hex d hd)
    obtain ⟨d, hd, hne⟩ := hc.some_digit
    have hall : ¬digits.all (· = '_') = true := fun hall =>
      hne (of_decide_eq_true (List.all_eq_true.mp hall d hd))
    have hcode : hexNumber digits = c.toNat := (hexNumber_eq digits).trans hc.code
    have hshape : (Part.scalar digits c hc).written ++ rest
        = '\\' :: 'u' :: '\x7b' :: digits ++ '\x7d' :: rest := by simp [Part.written]
    rw [hshape, unescapeFrom_braces body (List.ne_nil_of_mem hd) hdigits, if_neg hall, hcode,
      if_pos (isScalar_toNat c), Char.ofNat_toNat]
    rfl
  | byte hi lo m n hhi hlo =>
    have hletter : simpleEscape? hi = none := by
      cases h : simpleEscape? hi with
      | none => rfl
      | some b =>
        rw [(letters_spec _ (mem_letters_of_simpleEscape? h)).2.1] at hhi
        cases hhi
    rw [Part.written, List.cons_append, List.cons_append, List.singleton_append,
      unescapeFrom.eq_3 _ _ _ _ _ hhi, hletter]
    dsimp only
    rw [if_neg (hexValue?_ne_u hhi), hlo]
    rfl

theorem unescapeFrom_parts (body : String) (parts : List Part) (rest : List Char) :
    unescapeFrom body (writtenOf parts ++ rest)
      = (parts.flatMap Part.bytes ++ ·) <$> unescapeFrom body rest := by
  induction parts with
  | nil =>
    change unescapeFrom body rest = id <$> unescapeFrom body rest
    rw [id_map]
  | cons p parts ih =>
    rw [writtenOf, List.flatMap_cons, List.append_assoc, unescapeFrom_part, ← writtenOf, ih,
      List.flatMap_cons, ← comp_map]
    simp only [Function.comp_def, List.append_assoc]

/-- Characters as an attempt reads them: what it gives are the bytes of parts, and what it fails with
is an error of reading, unless the characters come to braces without digits. -/
structure ReadInParts (cs : List Char) (x : Attempt Bytes) : Prop where
  ok : x.Gives fun bytes => ∃ parts, writtenOf parts = cs ∧ parts.flatMap Part.bytes = bytes
  error : Attempt.Only (fun f => (∃ e, f = .error (.parse e)) ∨ LacksDigits cs) x

namespace ReadInParts

theorem nil : ReadInParts [] (.ok []) := ⟨.ok ⟨[], rfl, rfl⟩, .ok _⟩

theorem refuse (cs : List Char) (cause : ParseCause) :
    ReadInParts cs (.error (Literal.refuse cause)) := ⟨.error _, .error (.inl ⟨_, rfl⟩)⟩

theorem part (p : Part) {cs : List Char} {x : Attempt Bytes} (h : ReadInParts cs x) :
    ReadInParts (p.written ++ cs) ((p.bytes ++ ·) <$> x) := by
  cases x with
  | ok bytes =>
    obtain ⟨parts, rfl, rfl⟩ := h.ok bytes rfl
    exact ⟨.ok ⟨p :: parts, rfl, rfl⟩, .ok _⟩
  | error f =>
    refine ⟨.error f, .error ((h.error f rfl).imp_right ?_)⟩
    rintro ⟨parts, digits, rest, hne, hdigits, rfl⟩
    exact ⟨p :: parts, digits, rest, hne, hdigits, (List.append_assoc _ _ _).symm⟩

end ReadInParts

theorem unescapeFrom_read (body : String) (cs : List Char) :
    ReadInParts cs (unescapeFrom body cs) := by
  fun_induction unescapeFrom body cs with
  | case1 => exact .nil
  | case2 | case4 | case7 | case9 | case10 => exact .refuse _ _
  | case3 e rest b hb ih => exact ih.part (.letter e b (mem_letters_of_simpleEscape? hb))
  | case5 rest digits hdigits hall =>
    obtain ⟨hne, -, tail, rfl⟩ := braced?_eq_some hdigits
    have hunderscores : ∀ d ∈ digits, d = '_' := fun d hd =>
      of_decide_eq_true (List.all_eq_true.mp hall d hd)
    exact ⟨.error _, .error (.inr ⟨[], digits, tail, hne, hunderscores, rfl⟩)⟩
  | case6 rest digits hdigits hall code hcode _ ih =>
    obtain ⟨hne, hhex, tail, rfl⟩ := braced?_eq_some hdigits
    have hdigit : ∃ d ∈ digits, d ≠ '_' := by
      simpa [List.all_eq_true] using hall
    have hspec : CodeDigits digits (Char.ofNat code) :=
      ⟨fun d hd => isHexOrUnderscore_iff.mp (hhex d hd), hdigit,
        by rw [toNat_ofNat_of_isScalar hcode, ← hexNumber_eq]⟩
    have hdrop : ('\x7b' :: digits ++ '\x7d' :: tail).drop (digits.length + 2) = tail := by simp
    rw [hdrop] at ih ⊢
    have hpart := ih.part (.scalar digits _ hspec)
    rwa [Part.written, List.append_assoc] at hpart
  | case8 e _ _ hi d rest hhi lo hlo ih => exact ih.part (.byte e d hi lo hhi hlo)
  | case11 c rest hlast hescape ih =>
    refine ih.part (.plain c ?_)
    rintro rfl
    cases rest with
    | nil => exact hlast rfl rfl
    | cons d rest => exact hescape d rest rfl rfl

/-! ## What is read -/

theorem unescapeFrom_lacksDigits (body : String) {cs : List Char} (h : LacksDigits cs) :
    unescapeFrom body cs = .error Syntax.emptyEscape := by
  obtain ⟨parts, digits, rest, hne, hdigits, rfl⟩ := h
  have hhex : ∀ d ∈ digits, isHexOrUnderscore d = true := fun d hd =>
    isHexOrUnderscore_iff.mpr (.inl (hdigits d hd))
  have hall : digits.all (· = '_') = true :=
    List.all_eq_true.mpr fun d hd => decide_eq_true (hdigits d hd)
  rw [unescapeFrom_parts, unescapeFrom_braces body hne hhex, if_pos hall]
  rfl

theorem unescape_ok_iff {body : String} {bytes : Bytes} : unescape body = .ok bytes ↔
    ∃ parts, writtenOf parts = body.toList ∧ parts.flatMap Part.bytes = bytes := by
  refine ⟨fun h => (unescapeFrom_read body body.toList).ok bytes h, ?_⟩
  rintro ⟨parts, hparts, rfl⟩
  have h := unescapeFrom_parts body parts []
  rw [List.append_nil, hparts, unescapeFrom.eq_1] at h
  rw [unescape, h]
  exact congrArg Except.ok (List.append_nil _)

/-- **What stands between quotes** stands for the bytes of the parts that it consists of, of which
there is one row at most.  Where there is none it is refused with an error of reading, unless what is
wrong first are braces between which are only underscores. -/
theorem unescape_exact (body : String) :
    (∀ parts parts', writtenOf parts = body.toList → writtenOf parts' = body.toList →
        parts = parts') ∧
      (∀ bytes, unescape body = .ok bytes ↔
        ∃ parts, writtenOf parts = body.toList ∧ parts.flatMap Part.bytes = bytes) ∧
      ((∃ e, unescape body = .error (.error (.parse e))) ↔
        (¬∃ parts, writtenOf parts = body.toList) ∧ ¬LacksDigits body.toList) ∧
      ((∃ f, unescape body = .error f ∧ ∀ e, f ≠ .error (.parse e)) ↔
        LacksDigits body.toList) := by
  refine ⟨fun _ _ h h' => writtenOf_injective (h.trans h'.symm), fun bytes => unescape_ok_iff, ?_, ?_⟩
  · constructor
    · rintro ⟨e, he⟩
      constructor
      · rintro ⟨parts, hparts⟩
        have hok := unescape_ok_iff.mpr ⟨parts, hparts, rfl⟩
        rw [he] at hok
        cases hok
      · intro hlacks
        have hfault := unescapeFrom_lacksDigits body hlacks
        rw [← unescape, he] at hfault
        cases hfault
    · rintro ⟨hparts, hlacks⟩
      cases h : unescape body with
      | ok bytes =>
        obtain ⟨parts, hwritten, -⟩ := unescape_ok_iff.mp h
        exact absurd ⟨parts, hwritten⟩ hparts
      | error f =>
        obtain ⟨e, rfl⟩ := ((unescapeFrom_read body body.toList).error f h).resolve_right hlacks
        exact ⟨e, rfl⟩
  · constructor
    · rintro ⟨f, hf, hne⟩
      refine ((unescapeFrom_read body body.toList).error f hf).resolve_left ?_
      rintro ⟨e, rfl⟩
      exact hne e rfl
    · intro hlacks
      refine ⟨_, unescapeFrom_lacksDigits body hlacks, ?_⟩
      rintro e ⟨⟩

/-- Braces between which is one underscore are no part, and no error of reading says so. -/
theorem unescape_underscore_faults :
    (¬∃ parts, writtenOf parts = "\\u\x7b_\x7d".toList) ∧
      ∀ e, unescape "\\u\x7b_\x7d" ≠ .error (.error (.parse e)) := by
  have hfault : unescape "\\u\x7b_\x7d" = .error Syntax.emptyEscape :=
    unescapeFrom_lacksDigits _
      ⟨[], ['_'], [], List.cons_ne_nil _ _, List.forall_mem_singleton.mpr rfl, rfl⟩
  constructor
  · rintro ⟨parts, hparts⟩
    have hok := unescape_ok_iff.mpr ⟨parts, hparts, rfl⟩
    rw [hfault] at hok
    cases hok
  · intro e he
    rw [hfault] at he
    cases he

end CanisterShell.Literal
