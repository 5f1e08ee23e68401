import CanisterShell.Bytes
import CanisterShell.Number.Modular
import Mathlib.Tactic.Ring

/-!
# Bytes read back

The bytes of a number that fits their width read back as the number (`toNatLE_ofNatLE`), and the
hexadecimal digits of bytes as the bytes (`ofHex_toHex`).
-/

namespace CanisterShell.Bytes

theorem toNatLE_ofNatLE {width n : Nat} (h : n < 2 ^ (8 * width)) :
    toNatLE (ofNatLE width n) = n := by
  induction width generalizing n with
  | zero =>
    rw [ofNatLE, toNatLE]
    omega
  | succ width ih =>
    have hsplit : 2 ^ (8 * (width + 1)) = 256 * 2 ^ (8 * width) := by
      rw [Nat.mul_add, Nat.pow_add]
      ring
    have hlow : (UInt8.ofNat (n % 256)).toNat = n % 256 := by
      rw [UInt8.toNat_ofNat']
      omega
    rw [ofNatLE, toNatLE, hlow, ih (by omega)]
    omega

theorem toNatLE_lt (bytes : Bytes) : toNatLE bytes < 2 ^ (8 * bytes.length) := by
  induction bytes with
  | nil => decide
  | cons b bytes ih =>
    have hb : b.toNat < 256 := b.toNat_lt
    have hsize : 2 ^ (8 * (b :: bytes).length) = 256 * 2 ^ (8 * bytes.length) := by
      rw [List.length_cons, Nat.mul_add, Nat.pow_add, Nat.mul_comm]
    rw [toNatLE, hsize]
    omega

theorem toNatBE_ofNatBE {width n : Nat} (h : n < 2 ^ (8 * width)) :
    toNatBE (ofNatBE width n) = n := by
  rw [toNatBE, ofNatBE, List.reverse_reverse, toNatLE_ofNatLE h]

/-! ## Hexadecimal digits -/

theorem hexDigit_reads {n : Nat} (h : n < 16) : hexValue? (hexDigit n) = some n ∧
    isHexBlank (hexDigit n) = false ∧ (hexDigit n).toNat < 128 := by
  revert n
  decide +kernel

theorem length_toHex (bytes : Bytes) : bytes.toHex.length = 2 * bytes.length := by
  rw [toHex, String.length_ofList]
  induction bytes with
  | nil => rfl
  | cons b bytes ih =>
    rw [List.flatMap_cons, List.length_append, ih, List.length_cons, hexPair, List.length_cons,
      List.length_singleton]
    omega

theorem readHex_flatMap (bytes : Bytes) (pos : Nat) :
    readHex pos (bytes.flatMap hexPair) = .ok bytes := by
  induction bytes generalizing pos with
  | nil => rfl
  | cons b bytes ih =>
    have hb : b.toNat < 256 := b.toNat_lt
    obtain ⟨hhigh, hblank, -⟩ := hexDigit_reads (n := b.toNat / 16) (by omega)
    obtain ⟨hlow, -, -⟩ := hexDigit_reads (n := b.toNat % 16) (by omega)
    have hbyte : UInt8.ofNat (16 * (b.toNat / 16) + b.toNat % 16) = b := by
      rw [Nat.div_add_mod, UInt8.ofNat_toNat]
    rw [List.flatMap_cons, hexPair, List.cons_append, List.singleton_append]
    unfold readHex
    rw [hblank, if_neg Bool.false_ne_true, hhigh]
    dsimp only
    rw [hlow]
    dsimp only
    rw [ih, hbyte]
    rfl

theorem ascii_of_mem_hex {bytes : Bytes} {c : Char} (h : c ∈ bytes.flatMap hexPair) :
    c.toNat < 128 := by
  obtain ⟨b, -, hc⟩ := List.mem_flatMap.mp h
  have hb : b.toNat < 256 := b.toNat_lt
  simp only [hexPair, List.mem_cons, List.not_mem_nil, or_false] at hc
  obtain rfl | rfl := hc
  · exact (hexDigit_reads (by omega)).2.2
  · exact (hexDigit_reads (by omega)).2.2

/-- The hexadecimal text of bytes reads back as the bytes. -/
theorem ofHex_toHex (bytes : Bytes) : ofHex bytes.toHex = .ok bytes := by
  have hascii : (bytes.flatMap hexPair).findIdx? (fun c => decide (128 ≤ c.toNat)) = none := by
    rw [List.findIdx?_eq_none_iff]
    intro c hc
    exact decide_eq_false (Nat.not_le.mpr (ascii_of_mem_hex hc))
  rw [ofHex, toHex, String.toList_ofList, hascii]
  exact readHex_flatMap bytes 0

end CanisterShell.Bytes
