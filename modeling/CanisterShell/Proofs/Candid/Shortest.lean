import CanisterShell.Proofs.Candid.Leb128
import CanisterShell.Request.Agent

/-!
# The shortest form of an integer of variable length

The same number may be held by longer and longer bytes, whose last groups add nothing.  The form that is
written is the only one of its length and shorter than all others, for natural numbers and for whole ones
(`Whole.eq_leb`, `Whole.eq_sleb`).  The reader of codes, which does not tell where it stops, agrees with
`readLeb` on the bytes of a number (`code_append`).
-/

namespace CanisterShell

namespace CallStatus

open Candid.Wire

theorem code_append {bytes : Bytes} (h : Whole bytes) (rest : Bytes) :
    code (bytes ++ rest) = unsigned bytes := by
  induction h with
  | @last b hb =>
    rw [List.singleton_append, code, if_pos (UInt8.lt_iff_toNat_lt.mpr hb), unsigned_last hb]
  | @more b bytes hb _ ih =>
    have hmore : ¬b < 128 := by
      rw [UInt8.lt_iff_toNat_lt]
      exact Nat.not_lt.mpr hb
    rw [List.cons_append, code, if_neg hmore, ih, unsigned_cons, payload_of_more hb]

end CallStatus

namespace Candid.Wire

variable {bytes : Bytes}

theorem markedByte_toNat {b : UInt8} {n : Nat} (h : 128 ≤ b.toNat) (hn : n = b.toNat - 128) :
    UInt8.ofNat (n + 128) = b := by
  rw [hn, Nat.sub_add_cancel h, UInt8.ofNat_toNat]

theorem Whole.not_single (h : Whole bytes) {b b' : UInt8} : ¬(b :: bytes).length ≤ [b'].length := by
  have := List.length_pos_iff.mpr h.ne_nil
  simp only [List.length_cons, List.length_nil]
  omega

/-- No bytes but those that are written are as short. -/
theorem Whole.eq_leb (h : Whole bytes) (hlen : bytes.length ≤ (leb (unsigned bytes)).length) :
    bytes = leb (unsigned bytes) := by
  -- the bound passes to the bytes behind the first one, as long as a second one is written at all
  induction h with
  | last hb => rw [unsigned_last hb, leb, if_pos hb, UInt8.ofNat_toNat]
  | @more b bytes hb h ih =>
    have hgroup : unsigned (b :: bytes) = b.toNat - 128 + 128 * unsigned bytes := by
      rw [unsigned_cons, payload_of_more hb]
    have hlt := b.toNat_lt
    rw [leb] at hlen ⊢
    split at hlen
    case isTrue => exact absurd hlen h.not_single
    case isFalse hlarge =>
      have htail : unsigned (b :: bytes) / 128 = unsigned bytes := by omega
      rw [htail] at hlen ⊢
      rw [if_neg hlarge, markedByte_toNat hb (by omega), ← ih (Nat.le_of_succ_le_succ hlen)]

theorem Whole.eq_sleb (h : Whole bytes) (hlen : bytes.length ≤ (sleb (signed bytes)).length) :
    bytes = sleb (signed bytes) := by
  induction h with
  | @last b hb =>
    have hgroup : (signed [b] % 128).toNat = b.toNat ∧ -64 ≤ signed [b] ∧ signed [b] < 64 := by
      rw [signed_last hb]
      split <;> omega
    rw [sleb, if_pos hgroup.2, hgroup.1, UInt8.ofNat_toNat]
  | @more b bytes hb h ih =>
    have hgroup : signed (b :: bytes) = (b.toNat - 128 : Nat) + 128 * signed bytes := by
      rw [signed_cons b h.ne_nil, payload_of_more hb]
    have hlt := b.toNat_lt
    rw [sleb] at hlen ⊢
    split at hlen
    case isTrue => exact absurd hlen h.not_single
    case isFalse hlarge =>
      have htail : signed (b :: bytes) / 128 = signed bytes := by omega
      rw [htail] at hlen ⊢
      rw [if_neg hlarge, markedByte_toNat hb (by omega), ← ih (Nat.le_of_succ_le_succ hlen)]

/-- Bytes from which a number is read wherever they stand, and the only ones of at most their length that
are read to their end as the number. -/
structure ShortestForm {α : Type} (read : Bytes → Attempt (α × Bytes)) (bytes : Bytes) (a : α) :
    Prop where
  inPlace (rest : Bytes) : read (bytes ++ rest) = .ok (a, rest)
  only {other : Bytes} (h : read other = .ok (a, [])) (hlen : other.length ≤ bytes.length) :
    other = bytes

theorem shortestForm_leb (n : Nat) : ShortestForm readLeb (leb n) n where
  inPlace := readLeb_leb n
  only {other} h hlen := by
    obtain ⟨hother, rfl⟩ := readLeb_end_iff.mp h
    exact hother.eq_leb hlen

theorem shortestForm_sleb (n : Int) : ShortestForm readSleb (sleb n) n where
  inPlace := readSleb_sleb n
  only {other} h hlen := by
    obtain ⟨hother, rfl⟩ := readSleb_end_iff.mp h
    exact hother.eq_sleb hlen

/-- Integers are written in their shortest form and read from it in place, codes included; bytes are read
to their end as a code exactly if they are as a natural number. -/
theorem integers_in_place :
    (∀ n : Nat, lebOfInt n = .ok (leb n) ∧ ShortestForm readLeb (leb n) n ∧
      (∀ rest, CallStatus.code (leb n ++ rest) = n) ∧
      ∀ bytes, Whole bytes ∧ CallStatus.code bytes = n ↔ readLeb bytes = .ok (n, [])) ∧
    ∀ n : Int, ShortestForm readSleb (sleb n) n := by
  refine ⟨fun n => ⟨?_, shortestForm_leb n, fun rest => ?_, fun bytes => ?_⟩, shortestForm_sleb⟩
  · exact lebOfInt_of_nonneg (Int.natCast_nonneg n)
  · obtain ⟨hwhole, hvalue⟩ := whole_leb n
    rw [CallStatus.code_append hwhole, hvalue]
  · rw [readLeb_end_iff]
    refine and_congr_right fun hwhole => ?_
    rw [← CallStatus.code_append hwhole [], List.append_nil]

/-- Three bytes that are read as a negative number are those that are written for it. -/
theorem integers_in_place_negative :
    readSleb [0xC0, 0xBB, 0x78] = .ok (-123456, []) ∧
      [0xC0, 0xBB, 0x78].length ≤ (sleb (-123456)).length ∧ [0xC0, 0xBB, 0x78] = sleb (-123456) := by
  have hread : readSleb [0xC0, 0xBB, 0x78] = .ok (-123456, []) := by cbv
  have hlen : [0xC0, 0xBB, 0x78].length ≤ (sleb (-123456)).length := by cbv
  exact ⟨hread, hlen, (integers_in_place.2 (-123456)).only hread hlen⟩

/-- A longer form, whose last group adds nothing, and bytes that end inside a number, which are a code for
all that. -/
example : readLeb [0x85, 0x00] = .ok (5, []) ∧ readLeb [0x85] = .error (.malformed .ended) ∧
    CallStatus.code [0x85] = 5 := ⟨rfl, rfl, rfl⟩

end Candid.Wire

end CanisterShell
