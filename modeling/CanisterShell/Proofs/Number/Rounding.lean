import CanisterShell.Number.Double
import CanisterShell.Number.Rounding
import Mathlib.Algebra.Order.Field.Power
import Mathlib.Data.Rat.Cast.Order
import Mathlib.Tactic.FieldSimp
import Mathlib.Tactic.Linarith
import Mathlib.Tactic.Positivity

/-!
# Numbers that rounding keeps

A significand and an exponent are in normal form if the significand has at most the precision's bits,
and all of them unless the exponent is the least.  Rounding a quotient that is such a number gives
just this significand and exponent (`nearest_of_isNormal`).

A number of 32 bits widened to 64 is in normal form for both widths, and is rounded to the same 32
bits (`toSingle?_ofSingle`).  So what has been rounded to single precision once is not changed by
rounding it again.
-/

namespace CanisterShell.Rounding

/-- The number itself. -/
def Binary.value (b : Binary) : ℚ := b.significand * 2 ^ b.exponent

/-- The number is in the form that rounding gives. -/
structure Binary.IsNormal (precision : Nat) (least : Int) (b : Binary) : Prop where
  lt : b.significand < 2 ^ precision
  least_le : least ≤ b.exponent
  full : b.exponent = least ∨ 2 ^ (precision - 1) ≤ b.significand

variable {precision num den : Nat} {least e : Int}

theorem scaled_spec (num : Nat) (hden : 0 < den) (e : Int) :
    0 < (scaled num den e).2 ∧
      ((scaled num den e).1 : ℚ) / (scaled num den e).2 = num / den * 2 ^ (-e) := by
  unfold scaled
  split
  case isTrue he =>
    obtain ⟨k, rfl⟩ := Int.eq_ofNat_of_zero_le he
    refine ⟨by positivity, ?_⟩
    simp [zpow_neg]
    field_simp
  case isFalse he =>
    obtain ⟨k, hk⟩ := Int.eq_ofNat_of_zero_le (show 0 ≤ -e by omega)
    refine ⟨hden, ?_⟩
    simp [hk]
    field_simp

/-- The exponent at which the quotient has the bits of the precision in front of the point. -/
def exponentFor (precision num den : Nat) : Int :=
  let guess : Int := (Nat.log2 num : Int) - Nat.log2 den - precision
  let (n, d) := scaled num den guess
  if 2 ^ precision ≤ n / d then guess + 1 else guess

theorem nearest_eq (precision : Nat) (least : Int) (hnum : num ≠ 0) (den : Nat) :
    nearest precision least num den =
      let e := max least (exponentFor precision num den)
      let m := divEven (scaled num den e).1 (scaled num den e).2
      if m = 2 ^ precision then ⟨2 ^ (precision - 1), e + 1⟩ else ⟨m, e⟩ := by
  rw [nearest, if_neg hnum]
  rfl

theorem two_zpow_log2_le {n : Nat} (h : 0 < n) : (2 : ℚ) ^ (Nat.log2 n : Int) ≤ n := by
  rw [zpow_natCast]
  exact_mod_cast Nat.log2_self_le h.ne'

theorem lt_two_zpow_log2 (n : Nat) : (n : ℚ) < 2 ^ ((Nat.log2 n : Int) + 1) := by
  have : n < 2 ^ (Nat.log2 n + 1) := Nat.lt_log2_self
  exact_mod_cast this

theorem log2_quotient (hnum : 0 < num) (hden : 0 < den) :
    (2 : ℚ) ^ ((Nat.log2 num : Int) - Nat.log2 den - 1) < num / den ∧
      (num / den : ℚ) < 2 ^ ((Nat.log2 num : Int) - Nat.log2 den + 1) := by
  have hden' : (0 : ℚ) < den := by exact_mod_cast hden
  rw [lt_div_iff₀ hden', div_lt_iff₀ hden']
  constructor
  · calc (2 : ℚ) ^ ((Nat.log2 num : Int) - Nat.log2 den - 1) * den
        < 2 ^ ((Nat.log2 num : Int) - Nat.log2 den - 1) * 2 ^ ((Nat.log2 den : Int) + 1) := by
          gcongr
          exact lt_two_zpow_log2 den
      _ = 2 ^ (Nat.log2 num : Int) := by
          rw [← zpow_add₀ two_ne_zero]
          congr 1
          omega
      _ ≤ num := two_zpow_log2_le hnum
  · calc (num : ℚ) < 2 ^ ((Nat.log2 num : Int) + 1) := lt_two_zpow_log2 num
      _ = 2 ^ ((Nat.log2 num : Int) - Nat.log2 den + 1) * 2 ^ (Nat.log2 den : Int) := by
          rw [← zpow_add₀ two_ne_zero]
          congr 1
          omega
      _ ≤ 2 ^ ((Nat.log2 num : Int) - Nat.log2 den + 1) * den := by
          gcongr
          exact two_zpow_log2_le hden

theorem exponentFor_spec (precision : Nat) (hnum : 0 < num) (hden : 0 < den) :
    (2 : ℚ) ^ ((precision : Int) - 1 + exponentFor precision num den) ≤ num / den ∧
      (num / den : ℚ) < 2 ^ ((precision : Int) + exponentFor precision num den) := by
  obtain ⟨hlow, hhigh⟩ := log2_quotient hnum hden
  have hspec : exponentFor precision num den =
      let guess : Int := (Nat.log2 num : Int) - Nat.log2 den - precision
      let r := scaled num den guess
      if 2 ^ precision ≤ r.1 / r.2 then guess + 1 else guess := rfl
  generalize hguess : (Nat.log2 num : Int) - Nat.log2 den - precision = guess at hspec
  obtain ⟨hpos, hscaled⟩ := scaled_spec num hden guess
  have hpos' : (0 : ℚ) < (scaled num den guess).2 := by exact_mod_cast hpos
  generalize (num / den : ℚ) = x at hlow hhigh hscaled ⊢
  -- the quotient in units of the guess decides which of the two powers is below it
  have hunit : (2 : ℚ) ^ ((precision : Int) + guess) ≤ x ↔
      2 ^ precision ≤ (scaled num den guess).1 / (scaled num den guess).2 := by
    rw [Nat.le_div_iff_mul_le hpos, ← Nat.cast_le (α := ℚ), Nat.cast_mul, Nat.cast_pow,
      Nat.cast_ofNat, ← le_div_iff₀ hpos', hscaled, zpow_neg, ← div_eq_mul_inv,
      le_div_iff₀ (by positivity), zpow_add₀ two_ne_zero, zpow_natCast]
  rw [hspec]
  dsimp only
  split
  case isTrue h =>
    refine ⟨le_of_eq_of_le ?_ (hunit.mpr h), hhigh.trans_eq ?_⟩
    · congr 1
      omega
    · congr 1
      omega
  case isFalse h =>
    refine ⟨(le_of_eq ?_).trans hlow.le, lt_of_not_ge (mt hunit.mp h)⟩
    congr 1
    omega

theorem divEven_mul (m : Nat) {d : Nat} (hd : 0 < d) : divEven (m * d) d = m := by
  simp [divEven, hd]

/-- Rounding gives a number in normal form as it is. -/
theorem nearest_of_isNormal {b : Binary} (hb : b.IsNormal precision least) (hden : 0 < den)
    (h : (num / den : ℚ) = b.value) : nearest precision least num den = b := by
  have hunit : (0 : ℚ) < 2 ^ b.exponent := by positivity
  obtain rfl | hnum := Nat.eq_zero_or_pos num
  · have hvalue : (b.significand : ℚ) * 2 ^ b.exponent = 0 := by rw [← Binary.value, ← h]; simp
    have hzero : b.significand = 0 := by
      exact_mod_cast (mul_eq_zero.mp hvalue).resolve_right hunit.ne'
    have hleast := hb.full.resolve_right (by rw [hzero]; exact Nat.not_le_of_gt (by positivity))
    rw [nearest, if_pos rfl, ← hzero, ← hleast]
  obtain ⟨hlow, hhigh⟩ := exponentFor_spec precision hnum hden
  rw [h, Binary.value] at hlow hhigh
  have hlt : (b.significand : ℚ) < 2 ^ (precision : Int) := by
    rw [zpow_natCast]
    exact_mod_cast hb.lt
  have hexp : max least (exponentFor precision num den) = b.exponent := by
    have hbelow : (2 : ℚ) ^ ((precision : Int) - 1 + exponentFor precision num den) <
        2 ^ ((precision : Int) + b.exponent) := by
      rw [zpow_add₀ two_ne_zero precision]
      exact hlow.trans_lt (mul_lt_mul_of_pos_right hlt hunit)
    have hle := (zpow_lt_zpow_iff_right₀ one_lt_two).mp hbelow
    have hleast := hb.least_le
    obtain hfull | hfull := hb.full
    · omega
    · have habove : (2 : ℚ) ^ (((precision - 1 : Nat) : Int) + b.exponent) <
          2 ^ ((precision : Int) + exponentFor precision num den) := by
        rw [zpow_add₀ two_ne_zero, zpow_natCast]
        refine lt_of_le_of_lt (mul_le_mul_of_nonneg_right ?_ hunit.le) hhigh
        exact_mod_cast hfull
      have := (zpow_lt_zpow_iff_right₀ one_lt_two).mp habove
      omega
  obtain ⟨hpos, hscaled⟩ := scaled_spec num hden b.exponent
  have hexact : (scaled num den b.exponent).1 = b.significand * (scaled num den b.exponent).2 := by
    have hpos' : ((scaled num den b.exponent).2 : ℚ) ≠ 0 := by exact_mod_cast hpos.ne'
    rw [h, Binary.value, zpow_neg, mul_assoc, mul_inv_cancel₀ hunit.ne', mul_one,
      div_eq_iff hpos'] at hscaled
    exact_mod_cast hscaled
  rw [nearest_eq _ _ hnum.ne', hexp]
  dsimp only
  rw [hexact, divEven_mul _ hpos, if_neg hb.lt.ne]

end CanisterShell.Rounding

namespace CanisterShell

open Rounding (Binary nearest nearest_of_isNormal)

namespace Double

/-! ## Fields -/

section

variable {negative : Bool} {magnitude : Nat}

theorem toNat_bits_ofFields (negative : Bool) (h : magnitude < 2 ^ 63) :
    (ofFields negative magnitude).bits.toNat = magnitude + if negative then 2 ^ 63 else 0 := by
  rw [ofFields, UInt64.toNat_ofNat', Nat.mod_eq_of_lt]
  split <;> omega

theorem isNegative_iff (x : Double) : x.isNegative = true ↔ 2 ^ 63 ≤ x.bits.toNat := by
  have := x.bits.toNat_lt
  rw [isNegative, decide_eq_true_eq, ← UInt64.toNat_inj, UInt64.toNat_shiftRight]
  simp [Nat.shiftRight_eq_div_pow]
  omega

theorem isNegative_ofFields (negative : Bool) (h : magnitude < 2 ^ 63) :
    (ofFields negative magnitude).isNegative = negative := by
  rw [Bool.eq_iff_iff, isNegative_iff, toNat_bits_ofFields negative h]
  cases negative <;> simp; omega

theorem magnitudeBits_ofFields (negative : Bool) (h : magnitude < 2 ^ 63) :
    (ofFields negative magnitude).magnitudeBits = magnitude := by
  rw [magnitudeBits, toNat_bits_ofFields negative h]
  split <;> omega

theorem fractionField_ofFields (negative : Bool) (h : magnitude < 2 ^ 63) :
    (ofFields negative magnitude).fractionField = magnitude % 2 ^ 52 := by
  rw [fractionField, toNat_bits_ofFields negative h]
  split <;> omega

end

variable {b : Binary} {field fraction : Nat}

theorem ofFields_spec (negative : Bool) (hfield : field < 2047) (hfraction : fraction < 2 ^ 52) :
    let x := ofFields negative (field * 2 ^ 52 + fraction)
    x.isNegative = negative ∧ x.isNaN = false ∧ x.isInfinite = false ∧
      x.toBinary = if field = 0 then ⟨fraction, -1074⟩ else ⟨fraction + 2 ^ 52, field - 1075⟩ := by
  have hlt : field * 2 ^ 52 + fraction < 2 ^ 63 := by omega
  have hexponent : (ofFields negative (field * 2 ^ 52 + fraction)).exponentField = field := by
    rw [exponentField, magnitudeBits_ofFields negative hlt]
    omega
  have hfractionField :
      (ofFields negative (field * 2 ^ 52 + fraction)).fractionField = fraction := by
    rw [fractionField_ofFields negative hlt]
    omega
  refine ⟨isNegative_ofFields negative hlt, ?_, ?_, ?_⟩
  · simp [isNaN, hexponent, hfield.ne]
  · simp [isInfinite, hexponent, hfield.ne]
  · rw [toBinary, hexponent, hfractionField]

theorem ofBinary_spec (negative : Bool) (hb : b.IsNormal 53 (-1074)) (hexp : b.exponent ≤ 971) :
    (ofBinary negative b).isNegative = negative ∧ (ofBinary negative b).isNaN = false ∧
      (ofBinary negative b).isInfinite = false ∧ (ofBinary negative b).toBinary = b := by
  have hlt := hb.lt
  have hleast := hb.least_le
  rw [ofBinary]
  split
  case isTrue hsmall =>
    have hexponent : b.exponent = -1074 := hb.full.resolve_right (by omega)
    have hfield : (0 : Nat) < 2047 := by omega
    have := ofFields_spec negative hfield hsmall
    simpa [← hexponent] using this
  case isFalse hlarge =>
    rw [if_neg (by omega)]
    have hfield : (b.exponent + 1075).toNat < 2047 := by omega
    have hfraction : b.significand - 2 ^ 52 < 2 ^ 52 := by omega
    have := ofFields_spec negative hfield hfraction
    rw [if_neg (by omega)] at this
    have hb' :
        (⟨b.significand - 2 ^ 52 + 2 ^ 52, (b.exponent + 1075).toNat - 1075⟩ : Binary) = b := by
      obtain ⟨significand, exponent⟩ := b
      simp at *
      omega
    rwa [hb'] at this

theorem toRatio_spec (x : Double) :
    0 < x.toRatio.2 ∧ (x.toRatio.1 / x.toRatio.2 : ℚ) = x.toBinary.value := by
  unfold toRatio Binary.value
  dsimp only
  split
  case isTrue h =>
    obtain ⟨k, hk⟩ := Int.eq_ofNat_of_zero_le h
    simp [hk]
  case isFalse h =>
    obtain ⟨k, hk⟩ := Int.eq_ofNat_of_zero_le (show 0 ≤ -x.toBinary.exponent by omega)
    have hk' : x.toBinary.exponent = -k := by omega
    simp [hk', zpow_neg]
    field_simp

/-! ## Normal forms of both widths -/

/-- A number of single precision with the bits of double precision. -/
def widen (b : Binary) : Binary :=
  ⟨b.significand * 2 ^ (52 - Nat.log2 b.significand),
    b.exponent - (52 - Nat.log2 b.significand : Nat)⟩

theorem value_widen (b : Binary) : (widen b).value = b.value := by
  simp [widen, Binary.value, zpow_sub₀]
  field_simp

theorem isNormal_widen (hb : b.IsNormal 24 (-149)) (hpos : 0 < b.significand) :
    (widen b).IsNormal 53 (-1074) := by
  have hlow := Nat.log2_self_le hpos.ne'
  have hhigh : b.significand < 2 ^ (Nat.log2 b.significand + 1) := Nat.lt_log2_self
  have hbits : Nat.log2 b.significand < 24 :=
    (Nat.pow_lt_pow_iff_right one_lt_two).mp (hlow.trans_lt hb.lt)
  have hleast := hb.least_le
  constructor
  · calc b.significand * 2 ^ (52 - Nat.log2 b.significand)
        < 2 ^ (Nat.log2 b.significand + 1) * 2 ^ (52 - Nat.log2 b.significand) := by gcongr
      _ = 2 ^ 53 := by rw [← Nat.pow_add]; congr 1; omega
  · simp only [widen]
    omega
  · refine .inr ?_
    calc 2 ^ 52 = 2 ^ Nat.log2 b.significand * 2 ^ (52 - Nat.log2 b.significand) := by
          rw [← Nat.pow_add]; congr 1; omega
      _ ≤ b.significand * 2 ^ (52 - Nat.log2 b.significand) := by gcongr

/-- The significand and exponent of finite bits of single precision. -/
def singleBinary (field fraction : Nat) : Binary :=
  if field = 0 then ⟨fraction, -149⟩ else ⟨fraction + 2 ^ 23, field - 150⟩

theorem isNormal_singleBinary (field : Nat) (h : fraction < 2 ^ 23) :
    (singleBinary field fraction).IsNormal 24 (-149) := by
  unfold singleBinary
  split
  case isTrue => exact ⟨by simp only; omega, le_rfl, .inl rfl⟩
  case isFalse => exact ⟨by simp only; omega, by simp only; omega, .inr (Nat.le_add_left _ _)⟩

/-- What is in normal form for single precision is so for double precision in another way. -/
theorem exists_widened (hb : b.IsNormal 24 (-149)) (hexp : b.exponent ≤ 104) :
    ∃ b' : Binary, b'.IsNormal 53 (-1074) ∧ b'.exponent ≤ 971 ∧ b'.value = b.value := by
  obtain hzero | hpos := Nat.eq_zero_or_pos b.significand
  · exact ⟨⟨0, -1074⟩, ⟨by simp, le_rfl, .inl rfl⟩, by simp, by simp [Binary.value, hzero]⟩
  · exact ⟨widen b, isNormal_widen hb hpos, by simp only [widen]; omega, value_widen b⟩

theorem exponent_singleBinary {field : Nat} (hfield : field % 2 ^ 8 ≠ 255) (fraction : Nat) :
    (singleBinary (field % 2 ^ 8) fraction).exponent ≤ 104 := by
  unfold singleBinary
  split
  · simp
  · simp only
    omega

theorem ofSingle_spec {bits : UInt32} (hfield : bits.toNat / 2 ^ 23 % 2 ^ 8 ≠ 255) :
    (ofSingle bits).isNegative = decide (bits >>> 31 = 1) ∧ (ofSingle bits).isNaN = false ∧
      (ofSingle bits).isInfinite = false ∧ (ofSingle bits).toBinary.value =
        (singleBinary (bits.toNat / 2 ^ 23 % 2 ^ 8) (bits.toNat % 2 ^ 23)).value := by
  have hfraction : bits.toNat % 2 ^ 23 < 2 ^ 23 := Nat.mod_lt _ (by decide)
  obtain ⟨b', hb', hexp', hvalue⟩ := exists_widened (isNormal_singleBinary _ hfraction)
    (exponent_singleBinary hfield _)
  have hofSingle : ofSingle bits = ofBinary (bits >>> 31 = 1) b' := by
    unfold ofSingle ofRatio
    dsimp only
    rw [if_neg hfield]
    split
    case isTrue hzero =>
      rw [nearest_of_isNormal hb' (Nat.two_pow_pos 149)]
      rw [hvalue, singleBinary, if_pos hzero, Binary.value, zpow_neg, div_eq_mul_inv]
      norm_cast
    case isFalse hzero =>
      rw [nearest_of_isNormal hb' (Nat.two_pow_pos 150)]
      rw [hvalue, singleBinary, if_neg hzero, Binary.value, zpow_sub₀ two_ne_zero, mul_div_assoc']
      norm_cast
  rw [hofSingle]
  obtain ⟨hneg, hnan, hinf, hbinary⟩ := ofBinary_spec (decide (bits >>> 31 = 1)) hb' hexp'
  exact ⟨hneg, hnan, hinf, (congrArg _ hbinary).trans hvalue⟩

theorem toSingle?_eq {x : Double} (hnan : x.isNaN = false) (hinf : x.isInfinite = false)
    (hb : b.IsNormal 24 (-149)) (hexp : b.exponent ≤ 104) (h : x.toBinary.value = b.value) :
    x.toSingle? = some (UInt32.ofNat ((if x.isNegative then 2 ^ 31 else 0) +
      if b.significand < 2 ^ 23 then b.significand
      else (b.exponent + 150).toNat * 2 ^ 23 + (b.significand - 2 ^ 23))) := by
  obtain ⟨hden, hratio⟩ := toRatio_spec x
  have hnearest : nearest 24 (-149) x.toRatio.1 x.toRatio.2 = b :=
    nearest_of_isNormal hb hden (hratio.trans h)
  unfold toSingle?
  dsimp only
  rw [hnan, hinf, if_neg Bool.false_ne_true, if_neg Bool.false_ne_true, hnearest]
  split
  · rfl
  · rw [if_neg (by omega), Nat.add_assoc]

theorem shiftRight_eq_one_iff (bits : UInt32) : bits >>> 31 = 1 ↔ 2 ^ 31 ≤ bits.toNat := by
  have := bits.toNat_lt
  rw [← UInt32.toNat_inj, UInt32.toNat_shiftRight]
  simp [Nat.shiftRight_eq_div_pow]
  omega

theorem toSingle?_infinity (negative : Bool) : (infinity negative).toSingle? =
    some (UInt32.ofNat ((if negative then 2 ^ 31 else 0) + 255 * 2 ^ 23)) := by
  cases negative <;> decide

theorem ofSingle_special {bits : UInt32} (hfield : bits.toNat / 2 ^ 23 % 2 ^ 8 = 255)
    (h : (ofSingle bits).isNaN = false) :
    bits.toNat % 2 ^ 23 = 0 ∧ ofSingle bits = infinity (bits >>> 31 = 1) := by
  have hofSingle : ofSingle bits = if bits.toNat % 2 ^ 23 = 0 then infinity (bits >>> 31 = 1)
      else ofFields (bits >>> 31 = 1)
        (2047 * 2 ^ 52 + 2 ^ 51 + bits.toNat % 2 ^ 23 % 2 ^ 22 * 2 ^ 29) := by
    unfold ofSingle
    dsimp only
    rw [if_pos hfield]
  by_cases hfraction : bits.toNat % 2 ^ 23 = 0
  · exact ⟨hfraction, by rw [hofSingle, if_pos hfraction]⟩
  · have hlt : 2047 * 2 ^ 52 + 2 ^ 51 + bits.toNat % 2 ^ 23 % 2 ^ 22 * 2 ^ 29 < 2 ^ 63 := by omega
    rw [hofSingle, if_neg hfraction, isNaN, exponentField, magnitudeBits_ofFields _ hlt,
      fractionField_ofFields _ hlt, Bool.and_eq_false_iff, decide_eq_false_iff_not,
      decide_eq_false_iff_not] at h
    omega

/-- Bits of single precision, widened, are rounded to themselves. -/
theorem toSingle?_ofSingle {bits : UInt32} (h : (ofSingle bits).isNaN = false) :
    (ofSingle bits).toSingle? = some bits := by
  have hlt := bits.toNat_lt
  suffices hbits : ∃ n, (ofSingle bits).toSingle? = some (UInt32.ofNat n) ∧ n = bits.toNat by
    obtain ⟨n, hn, rfl⟩ := hbits
    rw [hn, UInt32.ofNat_toNat]
  by_cases hfield : bits.toNat / 2 ^ 23 % 2 ^ 8 = 255
  · obtain ⟨hfraction, hofSingle⟩ := ofSingle_special hfield h
    refine ⟨_, hofSingle ▸ toSingle?_infinity _, ?_⟩
    simp only [decide_eq_true_eq, shiftRight_eq_one_iff]
    split <;> omega
  · obtain ⟨hneg, hnan, hinf, hvalue⟩ := ofSingle_spec hfield
    refine ⟨_, toSingle?_eq hnan hinf (isNormal_singleBinary _ (Nat.mod_lt _ (by decide)))
      (exponent_singleBinary hfield _) hvalue, ?_⟩
    rw [hneg]
    simp only [decide_eq_true_eq, shiftRight_eq_one_iff]
    by_cases hzero : bits.toNat / 2 ^ 23 % 2 ^ 8 = 0
    · rw [singleBinary, if_pos hzero]
      dsimp only
      rw [if_pos (Nat.mod_lt _ (by decide))]
      split <;> omega
    · rw [singleBinary, if_neg hzero]
      dsimp only
      have hexp (k : Nat) : ((k : Int) - 150 + 150).toNat = k := by omega
      rw [if_neg (Nat.not_lt_of_ge (Nat.le_add_left _ _)), hexp, Nat.add_sub_cancel]
      split <;> omega

end Double

end CanisterShell
