import CanisterShell.Principal
import Mathlib.Data.List.TakeWhile
import Mathlib.Tactic.Common

/-!
# The text of a principal

Reading the text of a principal gives the principal (`Principal.ofText_toText`).  Five bits make a
character and eight make a byte, so encoding leaves at most four zero bits at the end, which decoding
drops; neither the dashes nor the change of case and back loses anything.  Besides, a text is read only
if it spells the principal, blanks around it and upper case aside (`Principal.ofText_ok_iff`).
-/

namespace CanisterShell

namespace Base32

/-! ## Groups of bits -/

/-- The bits of a character. -/
structure Group where
  (a b c d e : Bool)

/-- The bits in a row. -/
def Group.toList (g : Group) : List Bool := [g.a, g.b, g.c, g.d, g.e]

def Group.char (g : Group) : Char := digit (ofBits g.toList)

theorem Group.char_spec (g : Group) :
    charBits? g.char.toUpper = some g.toList ∧ g.char.toUpper ≠ '=' ∧
      Principal.upperChar g.char = [g.char.toUpper] ∧ Principal.lowerChar g.char = g.char ∧
      Text.isBlank g.char = false ∧ g.char ≠ '-' := by
  have : ∀ a b c d e : Bool, let x := (⟨a, b, c, d, e⟩ : Group).char
      charBits? x.toUpper = some [a, b, c, d, e] ∧ x.toUpper ≠ '=' ∧
        Principal.upperChar x = [x.toUpper] ∧ Principal.lowerChar x = x ∧
        Text.isBlank x = false ∧ x ≠ '-' := by decide +kernel
  exact this g.a g.b g.c g.d g.e

/-- The bits are encoded in groups, the last one filled up with zeros. -/
theorem exists_groups (bs : List Bool) : ∃ (groups : List Group) (zeros : List Bool),
    encodeBits bs = groups.map Group.char ∧ groups.flatMap Group.toList = bs ++ zeros ∧
      zeros.length < 5 := by
  fun_induction encodeBits bs with
  | case1 a b c d e rest ih =>
    obtain ⟨groups, zeros, hc, hb, hz⟩ := ih
    exact ⟨⟨a, b, c, d, e⟩ :: groups, zeros, by rw [hc]; rfl, by rw [List.flatMap_cons, hb]; rfl, hz⟩
  | case2 => exact ⟨[], [], rfl, rfl, by decide⟩
  | case3 short hlong hne =>
    match short with
    | [] => exact absurd rfl hne
    | [a] => exact ⟨[⟨a, false, false, false, false⟩], List.replicate 4 false, rfl, rfl, by decide⟩
    | [a, b] => exact ⟨[⟨a, b, false, false, false⟩], List.replicate 3 false, rfl, rfl, by decide⟩
    | [a, b, c] => exact ⟨[⟨a, b, c, false, false⟩], List.replicate 2 false, rfl, rfl, by decide⟩
    | [a, b, c, d] => exact ⟨[⟨a, b, c, d, false⟩], List.replicate 1 false, rfl, rfl, by decide⟩
    | a :: b :: c :: d :: e :: rest => exact absurd rfl (hlong a b c d e rest)

theorem length_flatMap_toList (groups : List Group) :
    (groups.flatMap Group.toList).length = 5 * groups.length := by
  induction groups with
  | nil => rfl
  | cons g groups ih =>
    rw [List.flatMap_cons, List.length_append, ih, List.length_cons, Group.toList]
    simp only [List.length_cons, List.length_nil]
    omega

theorem mapM_charBits? (groups : List Group) :
    ((groups.map Group.char).map Char.toUpper).mapM charBits? = some (groups.map Group.toList) := by
  induction groups with
  | nil => rfl
  | cons g groups ih =>
    rw [List.map_cons, List.map_cons, List.mapM_cons, g.char_spec.1, ih]
    rfl

/-! ## Bytes -/

theorem ofBits_bits (b : UInt8) : UInt8.ofNat (ofBits (bits b)) = b := by
  have : ∀ n < 256, UInt8.ofNat (ofBits (bits (UInt8.ofNat n))) = UInt8.ofNat n := by
    decide +kernel
  simpa using this b.toNat b.toNat_lt

theorem length_flatMap_bits (bytes : Bytes) : (bytes.flatMap bits).length = 8 * bytes.length := by
  induction bytes with
  | nil => rfl
  | cons b bytes ih =>
    rw [List.flatMap_cons, List.length_append, ih, List.length_cons, bits, List.length_map]
    simp only [List.length_cons, List.length_nil]
    omega

/-- Bits short of a byte behind whole bytes are dropped. -/
theorem decodeBits_bits {zeros : List Bool} (hz : zeros.length < 8) (bytes : Bytes) :
    decodeBits (bytes.flatMap bits ++ zeros) = bytes := by
  induction bytes with
  | nil =>
    rw [List.flatMap_nil, List.nil_append, decodeBits]
    rintro a b c d e f g h rest rfl
    simp only [List.length_cons] at hz
    omega
  | cons b bytes ih =>
    rw [List.flatMap_cons, List.append_assoc]
    change UInt8.ofNat (ofBits (bits b)) :: decodeBits (bytes.flatMap bits ++ zeros) = _
    rw [ofBits_bits, ih]

theorem dropWhile_of_forall {α : Type} {p : α → Bool} {items : List α}
    (h : ∀ a ∈ items, p a = false) : items.dropWhile p = items := by
  cases items with
  | nil => rfl
  | cons a items => rw [List.dropWhile_cons, if_neg (by rw [h a (.head _)]; decide)]

theorem decode?_encode (bytes : Bytes) :
    decode? ((encode bytes).map Char.toUpper
      ++ List.replicate ((8 - (encode bytes).length % 8) % 8) '=') = some bytes := by
  obtain ⟨groups, zeros, hc, hb, hz⟩ := exists_groups (bytes.flatMap bits)
  have hlen : 5 * groups.length = 8 * bytes.length + zeros.length := by
    rw [← length_flatMap_toList, hb, List.length_append, length_flatMap_bits]
  rw [encode, hc, List.length_map]
  have hbody : ((groups.map Group.char).map Char.toUpper).length = groups.length := by simp
  have hstrip (n : Nat) : (((groups.map Group.char).map Char.toUpper
      ++ List.replicate n '=').reverse.dropWhile (· = '=')).reverse
        = (groups.map Group.char).map Char.toUpper := by
    rw [List.reverse_append, List.reverse_replicate,
      List.dropWhile_append_of_pos fun c hc => by simpa using List.eq_of_mem_replicate hc,
      dropWhile_of_forall, List.reverse_reverse]
    intro c hc
    simp only [List.mem_reverse, List.mem_map] at hc
    obtain ⟨_, ⟨g, -, rfl⟩, rfl⟩ := hc
    simpa using g.char_spec.2.1
  have hpadding : [0, 1, 3, 4, 6].contains ((8 - groups.length % 8) % 8) = true := by
    have : groups.length % 8 ∈ [0, 2, 4, 5, 7] := by
      simp only [List.mem_cons, List.not_mem_nil, or_false]
      omega
    have hall : ∀ m ∈ [0, 2, 4, 5, 7], [0, 1, 3, 4, 6].contains ((8 - m) % 8) = true := by decide
    exact hall _ this
  rw [decode?, hstrip, List.length_append, List.length_replicate, hbody, if_neg (by omega)]
  dsimp only
  rw [hbody, Nat.add_sub_cancel_left, if_pos hpadding, mapM_charBits?, Option.map_some,
    ← List.flatMap_def, hb, decodeBits_bits (by omega)]

end Base32

namespace Text

/-! ## Blanks -/

theorem trimLeft_append {blanks cs : List Char} (h : ∀ c ∈ blanks, isBlank c = true)
    (hcs : ∀ c ∈ cs.head?, isBlank c = false) : trimLeft (blanks ++ cs) = cs := by
  rw [trimLeft, List.dropWhile_append_of_pos h]
  cases cs with
  | nil => rfl
  | cons c cs => rw [List.dropWhile_cons, if_neg (by rw [hcs c rfl]; decide)]

theorem trim_append {front body back : List Char} (h : ∀ c ∈ front ++ back, isBlank c = true)
    (hbody : ∀ c ∈ body, isBlank c = false) (hne : body ≠ []) :
    trimRight (trimLeft (front ++ body ++ back)) = body := by
  obtain ⟨hfront, hback⟩ := List.forall_mem_append.mp h
  have hhead : ∀ c ∈ (body ++ back).head?, isBlank c = false := by
    intro c hc
    cases body with
    | nil => exact absurd rfl hne
    | cons b body =>
      cases hc
      exact hbody c (.head _)
  have hlast : ∀ c ∈ body.reverse.head?, isBlank c = false := fun c hc =>
    hbody c (List.mem_reverse.mp (List.mem_of_mem_head? hc))
  rw [List.append_assoc, trimLeft_append hfront hhead, trimRight, List.reverse_append,
    trimLeft_append (fun c hc => hback c (List.mem_reverse.mp hc)) hlast, List.reverse_reverse]

theorem exists_trim (cs : List Char) : ∃ front back,
    cs = front ++ trimRight (trimLeft cs) ++ back ∧ ∀ c ∈ front ++ back, isBlank c = true := by
  refine ⟨cs.takeWhile isBlank, ((trimLeft cs).reverse.takeWhile isBlank).reverse, ?_, ?_⟩
  · have hright : trimRight (trimLeft cs) ++ ((trimLeft cs).reverse.takeWhile isBlank).reverse =
        trimLeft cs := by
      rw [trimRight, trimLeft, ← List.reverse_append, List.takeWhile_append_dropWhile,
        List.reverse_reverse]
    rw [List.append_assoc, hright, trimLeft, List.takeWhile_append_dropWhile]
  · intro c hc
    obtain hc | hc := List.mem_append.mp hc
    · exact List.mem_takeWhile_imp hc
    · exact List.mem_takeWhile_imp (List.mem_reverse.mp hc)

end Text

namespace Principal

open Base32 (Group dropWhile_of_forall)

theorem mem_dashed {cs : List Char} {c : Char} (h : c ∈ dashed cs) : c = '-' ∨ c ∈ cs := by
  fun_induction dashed cs with
  | case1 a b c d e f rest ih =>
    simp only [List.mem_cons] at h ih ⊢
    tauto
  | case2 short => exact .inr h

theorem filter_dashed {cs : List Char} (h : ∀ c ∈ cs, c ≠ '-') :
    (dashed cs).filter (· ≠ '-') = cs := by
  fun_induction dashed cs with
  | case1 a b c d e f rest ih =>
    have htail := ih fun x hx => h x (by simp only [List.mem_cons] at hx ⊢; tauto)
    simp only [List.mem_cons, forall_eq_or_imp] at h
    simp only [ne_eq, decide_not] at htail
    simp [h, htail]
  | case2 short => exact List.filter_eq_self.mpr fun c hc => by simpa using h c hc

/-- The bytes that the text of a principal encodes. -/
def checked (p : Principal) : Bytes := checksum p.bytes ++ p.bytes

theorem exists_groups (p : Principal) :
    ∃ groups : List Group, Base32.encode p.checked = groups.map Group.char := by
  obtain ⟨groups, -, h, -, -⟩ := Base32.exists_groups (p.checked.flatMap Base32.bits)
  exact ⟨groups, h⟩

theorem normal_toText (p : Principal) : normal p.toText = p.toChars := by
  obtain ⟨groups, hc⟩ := p.exists_groups
  have plain : ∀ c ∈ p.toChars, Text.isBlank c = false ∧ lowerChar c = c := by
    intro c hmem
    obtain rfl | hmem := mem_dashed hmem
    · decide +kernel
    · rw [← checked, hc] at hmem
      obtain ⟨g, -, rfl⟩ := List.mem_map.mp hmem
      exact ⟨g.char_spec.2.2.2.2.1, g.char_spec.2.2.2.1⟩
  have blank : ∀ c ∈ p.toChars, Text.isBlank c = false := fun c hc => (plain c hc).1
  rw [normal, toText, String.toList_ofList, Text.trimLeft, dropWhile_of_forall blank,
    Text.trimRight, Text.trimLeft,
    dropWhile_of_forall fun c hc => blank c (List.mem_reverse.mp hc), List.reverse_reverse]
  exact (List.map_congr_left fun c hc => (plain c hc).2).trans (List.map_id _)

theorem filter_toChars (p : Principal) :
    p.toChars.filter (· ≠ '-') = Base32.encode p.checked := by
  obtain ⟨groups, hc⟩ := p.exists_groups
  refine filter_dashed ?_
  rw [← checked, hc]
  intro c hmem
  obtain ⟨g, -, rfl⟩ := List.mem_map.mp hmem
  exact g.char_spec.2.2.2.2.2

theorem checkedBytes?_encode (p : Principal) :
    checkedBytes? (Base32.encode p.checked) = some p.checked := by
  obtain ⟨groups, hc⟩ := p.exists_groups
  have hupper : (Base32.encode p.checked).flatMap upperChar
      = (Base32.encode p.checked).map Char.toUpper := by
    rw [hc]
    clear hc
    induction groups with
    | nil => rfl
    | cons g groups ih =>
      rw [List.map_cons, List.flatMap_cons, List.map_cons, ih, g.char_spec.2.2.1]
      rfl
  rw [checkedBytes?, hupper, Base32.decode?_encode]

theorem length_checksum (bytes : Bytes) : (checksum bytes).length = 4 := Bytes.length_ofNatBE _ _

theorem ofText_of_normal {text : String} {p : Principal} (h : normal text = p.toChars) :
    ofText text = .ok p := by
  have hlen : ¬p.checked.length < 4 := by
    rw [checked, List.length_append, length_checksum]
    omega
  have hne : ¬(Base32.encode p.checked).isEmpty = true := by
    rw [List.isEmpty_iff]
    intro h
    have hchecked := p.checkedBytes?_encode
    rw [h] at hchecked
    have hnil : [] = p.checked := Option.some.inj hchecked
    rw [← hnil] at hlen
    exact hlen (by decide)
  have hdrop : p.checked.drop 4 = p.bytes := by
    rw [checked, List.drop_left' (length_checksum _)]
  have htake : p.checked.take 4 = checksum p.bytes := by
    rw [checked, List.take_left' (length_checksum _)]
  have hof : ofBytes p.bytes = .ok p := dif_pos p.length_le
  rw [ofText, h]
  dsimp only
  rw [filter_toChars, if_neg hne, checkedBytes?_encode]
  dsimp only
  rw [if_neg hlen, hdrop, hof]
  rw [htake]
  change (if _ then _ else _) = _
  rw [if_neg (by simp)]
  rfl

/-- The text of a principal is read as the principal. -/
theorem ofText_toText (p : Principal) : ofText p.toText = .ok p := ofText_of_normal p.normal_toText

theorem normal_of_ofText {text : String} {p : Principal} (h : ofText text = .ok p) :
    normal text = p.toChars := by
  rw [ofText] at h
  dsimp only at h
  split at h
  case isTrue => cases h
  case isFalse =>
    split at h
    case h_1 => cases h
    case h_2 data hdata =>
      split at h
      case isTrue => cases h
      case isFalse =>
        cases hp : ofBytes (data.drop 4) with
        | error fault =>
          rw [hp] at h
          cases h
        | ok q =>
          rw [hp] at h
          change (if _ then _ else _) = _ at h
          split at h
          case isTrue => cases h
          case isFalse hchecks =>
            cases h
            simp only [Bool.or_eq_true, decide_eq_true_eq, not_or, ne_eq, not_not] at hchecks
            exact hchecks.2.symm

theorem ofText_ok_iff_normal {text : String} {p : Principal} :
    ofText text = .ok p ↔ normal text = p.toChars :=
  ⟨normal_of_ofText, ofText_of_normal⟩

/-! ## Texts that spell a principal -/

/-- A text is that of a principal but for blanks around it and the case of its letters. -/
def Spells (text : String) (p : Principal) : Prop :=
  ∃ front body back, text.toList = front ++ body ++ back ∧
    (∀ c ∈ front ++ back, Text.isBlank c = true) ∧ body.map lowerChar = p.toChars

theorem lowerChar_cases (c : Char) :
    lowerChar c = c ∨ (Text.isBlank c = false ∧ lowerChar c ≠ '-') := by
  by_cases hkelvin : c = '\u212A'
  · subst hkelvin
    exact .inr (by decide +kernel)
  by_cases hsharp : c = '\u1E9E'
  · subst hsharp
    exact .inr (by decide +kernel)
  have hlower : lowerChar c = c.toLower := by rw [lowerChar, if_neg hkelvin, if_neg hsharp]
  by_cases hupper : c.val ≥ 'A'.val ∧ c.val ≤ 'Z'.val
  · have hall : ∀ n ≤ 90, 65 ≤ n → Text.isBlank (Char.ofNat n) = false ∧
        lowerChar (Char.ofNat n) ≠ '-' := by decide +kernel
    have := hall c.toNat hupper.2 hupper.1
    rw [Char.ofNat_toNat] at this
    exact .inr this
  · exact .inl (hlower.trans (dif_neg hupper))

theorem dash_mem_toChars (p : Principal) : '-' ∈ p.toChars := by
  obtain ⟨groups, zeros, hc, hb, -⟩ := Base32.exists_groups (p.checked.flatMap Base32.bits)
  have hgroups : 5 * groups.length = (p.checked.flatMap Base32.bits).length + zeros.length := by
    rw [← Base32.length_flatMap_toList, hb, List.length_append]
  have hlen : 6 ≤ (Base32.encode p.checked).length := by
    rw [Base32.encode, hc, List.length_map]
    rw [Base32.length_flatMap_bits, checked, List.length_append, length_checksum] at hgroups
    omega
  rw [toChars, ← checked]
  match h : Base32.encode p.checked, hlen with
  | a :: b :: c :: d :: e :: f :: rest, _ =>
    rw [dashed]
    simp

theorem isBlank_of_mem_toChars {p : Principal} {c : Char} (h : c ∈ p.toChars) :
    Text.isBlank c = false := by
  obtain ⟨groups, hc⟩ := p.exists_groups
  obtain rfl | h := mem_dashed h
  · decide +kernel
  · rw [← checked, hc] at h
    obtain ⟨g, -, rfl⟩ := List.mem_map.mp h
    exact g.char_spec.2.2.2.2.1

/-- Stripping blanks and changing to lower case gives the text of a principal exactly if the text spells
it. -/
theorem normal_eq_iff {text : String} {p : Principal} :
    normal text = p.toChars ↔ Spells text p := by
  constructor
  · intro h
    obtain ⟨front, back, htext, hblank⟩ := Text.exists_trim text.toList
    exact ⟨front, _, back, htext, hblank, h⟩
  · rintro ⟨front, body, back, htext, hblank, hbody⟩
    have hsolid : ∀ c ∈ body, Text.isBlank c = false := by
      intro c hc
      obtain h | h := lowerChar_cases c
      · have hmem : lowerChar c ∈ p.toChars := hbody ▸ List.mem_map_of_mem hc
        rw [h] at hmem
        exact isBlank_of_mem_toChars hmem
      · exact h.1
    have hne : body ≠ [] := by
      rintro rfl
      have := p.dash_mem_toChars
      rw [← hbody] at this
      cases this
    rw [normal, htext, Text.trim_append hblank hsolid hne, hbody]

/-- Exactly the texts that spell a principal are read as it. -/
theorem ofText_ok_iff {text : String} {p : Principal} : ofText text = .ok p ↔ Spells text p :=
  ofText_ok_iff_normal.trans normal_eq_iff

theorem Spells.dash_mem {text : String} {p : Principal} (h : Spells text p) : '-' ∈ text.toList := by
  obtain ⟨front, body, back, htext, -, hbody⟩ := h
  have hdash := p.dash_mem_toChars
  rw [← hbody] at hdash
  obtain ⟨c, hc, hlower⟩ := List.mem_map.mp hdash
  obtain h | h := lowerChar_cases c
  · rw [h] at hlower
    subst hlower
    rw [htext]
    simp [hc]
  · exact absurd hlower h.2

end Principal

end CanisterShell
