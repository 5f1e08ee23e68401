import CanisterShell.Candid.Wire.Leb128
import Mathlib.Data.Nat.Digits.Defs

/-!
# Integers of variable length read back

A number is held by *whole* bytes, of which all but the last bear the mark of a further byte (`Whole`).
The readers take the whole bytes in front and give what the groups of seven bits in them stand for, as a
natural number or in two's complement; where no bytes in front are whole, the input ends inside a number
(`readLeb_ok_iff`, `readSleb_ok_iff`).  What `leb` and `sleb` write is whole and stands for the number, so
it is read back whatever stands behind it (`readLeb_leb`, `readSleb_sleb`).
-/

namespace CanisterShell.Candid.Wire

/-! ## Bytes that hold a number -/

/-- The seven bits of a byte that belong to a number. -/
def payload (b : UInt8) : Nat := b.toNat % 128

/-- The bytes of one number: all but the last bear the mark of a further byte. -/
inductive Whole : Bytes → Prop
  | last {b : UInt8} (h : b.toNat < 128) : Whole [b]
  | more {b : UInt8} {bytes : Bytes} (h : 128 ≤ b.toNat) (hbytes : Whole bytes) : Whole (b :: bytes)

/-- The natural number of some groups of seven bits, lowest bits first. -/
def unsigned (bytes : Bytes) : Nat := Nat.ofDigits 128 (bytes.map payload)

/-- The whole number whose two's complement these groups are. -/
def signed (bytes : Bytes) : Int := (unsigned bytes : Int).bmod (128 ^ bytes.length)

variable {b : UInt8} {bytes rest : Bytes}

theorem payload_of_last (h : b.toNat < 128) : payload b = b.toNat := Nat.mod_eq_of_lt h

theorem payload_of_more (h : 128 ≤ b.toNat) : payload b = b.toNat - 128 := by
  have := b.toNat_lt
  rw [payload]
  omega

theorem unsigned_cons (b : UInt8) (bytes : Bytes) :
    unsigned (b :: bytes) = payload b + 128 * unsigned bytes := by
  rw [unsigned, List.map_cons, Nat.ofDigits_cons, unsigned]

theorem unsigned_last (h : b.toNat < 128) : unsigned [b] = b.toNat := by
  rw [unsigned_cons, payload_of_last h, unsigned, List.map_nil, Nat.ofDigits_nil, Nat.mul_zero,
    Nat.add_zero]

theorem unsigned_lt (bytes : Bytes) : unsigned bytes < 128 ^ bytes.length := by
  have hlen : (bytes.map payload).length = bytes.length := List.length_map _
  rw [unsigned, ← hlen]
  refine Nat.ofDigits_lt_base_pow_length (by decide) fun d hd => ?_
  obtain ⟨b, -, rfl⟩ := List.mem_map.mp hd
  exact Nat.mod_lt _ (by decide)

/-- The upper half of the numbers with so many groups stands for the negative ones. -/
theorem signed_eq (bytes : Bytes) : signed bytes =
    if 2 * unsigned bytes < 128 ^ bytes.length then (unsigned bytes : Int)
    else unsigned bytes - (128 ^ bytes.length : Nat) := by
  have hlt := unsigned_lt bytes
  rw [signed, Int.bmod_def, Int.emod_eq_of_lt (by omega) (by omega)]
  generalize 128 ^ bytes.length = m at *
  split <;> split <;> omega

theorem signed_last (h : b.toNat < 128) :
    signed [b] = if b.toNat < 64 then (b.toNat : Int) else b.toNat - 128 := by
  rw [signed_eq, unsigned_last h, List.length_singleton]
  split <;> split <;> omega

/-- Only the last group tells the sign. -/
theorem signed_cons (b : UInt8) (h : bytes ≠ []) :
    signed (b :: bytes) = payload b + 128 * signed bytes := by
  have hpayload : payload b < 128 := Nat.mod_lt _ (by decide)
  -- half of the numbers of the groups behind is a whole number, so the halves begin in the same place
  have heven : 2 ∣ 128 ^ bytes.length :=
    dvd_pow (by decide) fun hlen => h (List.length_eq_zero_iff.mp hlen)
  rw [signed_eq, signed_eq, unsigned_cons, List.length_cons, Nat.pow_succ]
  generalize 128 ^ bytes.length = m at *
  split <;> split <;> omega

theorem Whole.ne_nil (h : Whole bytes) : bytes ≠ [] := by
  cases h <;> exact List.cons_ne_nil _ _

theorem Whole.marked {front : Bytes} (h : Whole bytes) (hfront : front <+: bytes)
    (hne : front ≠ bytes) : ∀ b ∈ front, 128 ≤ b.toNat := by
  induction h generalizing front with
  | last hb =>
    obtain rfl | ⟨short, rfl, hshort⟩ := List.prefix_cons_iff.mp hfront
    · nofun
    · exact absurd (by rw [List.prefix_nil.mp hshort]) hne
  | more hb _ ih =>
    obtain rfl | ⟨short, rfl, hshort⟩ := List.prefix_cons_iff.mp hfront
    · nofun
    · exact List.forall_mem_cons.mpr ⟨hb, ih hshort fun heq => hne (by rw [heq])⟩

theorem exists_whole (bytes : Bytes) :
    (∃ front rest, Whole front ∧ bytes = front ++ rest) ∨ ∀ b ∈ bytes, 128 ≤ b.toNat := by
  induction bytes with
  | nil => exact .inr nofun
  | cons b bytes ih =>
    by_cases hb : b.toNat < 128
    · exact .inl ⟨[b], bytes, .last hb, rfl⟩
    have hb : 128 ≤ b.toNat := Nat.not_lt.mp hb
    obtain ⟨front, rest, hfront, rfl⟩ | hall := ih
    · exact .inl ⟨b :: front, rest, .more hb hfront, rfl⟩
    · exact .inr (List.forall_mem_cons.mpr ⟨hb, hall⟩)

/-! ## Reading -/

theorem readLeb_last (rest : Bytes) (h : b.toNat < 128) :
    readLeb (b :: rest) = .ok (b.toNat, rest) := by
  rw [readLeb, if_pos (UInt8.lt_iff_toNat_lt.mpr h)]

theorem readLeb_more (rest : Bytes) (h : 128 ≤ b.toNat) : readLeb (b :: rest) = do
    let (n, rest) ← readLeb rest
    return (b.toNat - 128 + 128 * n, rest) := by
  rw [readLeb, if_neg (by rw [UInt8.lt_iff_toNat_lt]; exact Nat.not_lt.mpr h)]

theorem readSleb_last (rest : Bytes) (h : b.toNat < 128) :
    readSleb (b :: rest) = .ok (if b.toNat < 64 then b.toNat else (b.toNat : Int) - 128, rest) := by
  rw [readSleb]
  simp only [UInt8.lt_iff_toNat_lt, UInt8.reduceToNat]
  split
  · rfl
  · rfl

theorem readSleb_more (rest : Bytes) (h : 128 ≤ b.toNat) : readSleb (b :: rest) = do
    let (n, rest) ← readSleb rest
    return ((b.toNat : Int) - 128 + 128 * n, rest) := by
  rw [readSleb]
  simp only [UInt8.lt_iff_toNat_lt, UInt8.reduceToNat]
  rw [if_neg (by omega), if_neg (by omega)]

theorem Whole.readLeb (h : Whole bytes) (rest : Bytes) :
    readLeb (bytes ++ rest) = .ok (unsigned bytes, rest) := by
  induction h with
  | last hb => rw [List.singleton_append, readLeb_last rest hb, unsigned_last hb]
  | more hb _ ih =>
    rw [List.cons_append, readLeb_more _ hb, ih, unsigned_cons, payload_of_more hb]
    rfl

theorem Whole.readSleb (h : Whole bytes) (rest : Bytes) :
    readSleb (bytes ++ rest) = .ok (signed bytes, rest) := by
  induction h with
  | last hb => rw [List.singleton_append, readSleb_last rest hb, signed_last hb]
  | @more b bytes hb h ih =>
    rw [List.cons_append, readSleb_more _ hb, ih, signed_cons b h.ne_nil, payload_of_more hb,
      Int.ofNat_sub hb]
    rfl

theorem readLeb_open (h : ∀ b ∈ bytes, 128 ≤ b.toNat) :
    readLeb bytes = .error (.malformed .ended) := by
  induction bytes with
  | nil => rfl
  | cons b bytes ih =>
    obtain ⟨hb, hbytes⟩ := List.forall_mem_cons.mp h
    rw [readLeb_more _ hb, ih hbytes]
    rfl

theorem readSleb_open (h : ∀ b ∈ bytes, 128 ≤ b.toNat) :
    readSleb bytes = .error (.malformed .ended) := by
  induction bytes with
  | nil => rfl
  | cons b bytes ih =>
    obtain ⟨hb, hbytes⟩ := List.forall_mem_cons.mp h
    rw [readSleb_more _ hb, ih hbytes]
    rfl

/-- A natural number is read exactly from the bytes that hold it. -/
theorem readLeb_ok_iff {n : Nat} : readLeb bytes = .ok (n, rest) ↔
    ∃ front, Whole front ∧ bytes = front ++ rest ∧ unsigned front = n := by
  constructor
  · intro h
    obtain ⟨front, rest', hfront, rfl⟩ | hall := exists_whole bytes
    · rw [hfront.readLeb] at h
      cases h
      exact ⟨front, hfront, rfl, rfl⟩
    · rw [readLeb_open hall] at h
      cases h
  · rintro ⟨front, hfront, rfl, rfl⟩
    exact hfront.readLeb rest

/-- A whole number is read exactly from the bytes that hold it. -/
theorem readSleb_ok_iff {n : Int} : readSleb bytes = .ok (n, rest) ↔
    ∃ front, Whole front ∧ bytes = front ++ rest ∧ signed front = n := by
  constructor
  · intro h
    obtain ⟨front, rest', hfront, rfl⟩ | hall := exists_whole bytes
    · rw [hfront.readSleb] at h
      cases h
      exact ⟨front, hfront, rfl, rfl⟩
    · rw [readSleb_open hall] at h
      cases h
  · rintro ⟨front, hfront, rfl, rfl⟩
    exact hfront.readSleb rest

theorem readLeb_end_iff {n : Nat} :
    readLeb bytes = .ok (n, []) ↔ Whole bytes ∧ unsigned bytes = n := by
  rw [readLeb_ok_iff]
  simp

theorem readSleb_end_iff {n : Int} :
    readSleb bytes = .ok (n, []) ↔ Whole bytes ∧ signed bytes = n := by
  rw [readSleb_ok_iff]
  simp

/-! ## Writing -/

theorem lebOfInt_of_nonneg {n : Int} (h : 0 ≤ n) : lebOfInt n = .ok (leb n.toNat) :=
  if_neg (Int.not_lt.mpr h)

theorem toNat_lastByte {n : Nat} (h : n < 128) : (UInt8.ofNat n).toNat = n := by
  rw [UInt8.toNat_ofNat']
  omega

theorem toNat_markedByte {n : Nat} (h : n < 128) : (UInt8.ofNat (n + 128)).toNat = n + 128 := by
  rw [UInt8.toNat_ofNat']
  omega

theorem whole_leb (n : Nat) : Whole (leb n) ∧ unsigned (leb n) = n := by
  induction n using Nat.strongRecOn with
  | ind n ih =>
    rw [leb]
    split
    case isTrue h =>
      have hb := toNat_lastByte h
      exact ⟨.last (by omega), by rw [unsigned_last (by omega), hb]⟩
    case isFalse h =>
      obtain ⟨hwhole, hvalue⟩ := ih (n / 128) (by omega)
      have hb := toNat_markedByte (n := n % 128) (by omega)
      have hmark : 128 ≤ (UInt8.ofNat (n % 128 + 128)).toNat := by omega
      refine ⟨.more hmark hwhole, ?_⟩
      rw [unsigned_cons, hvalue, payload_of_more hmark, hb]
      omega

theorem whole_sleb (n : Int) : Whole (sleb n) ∧ signed (sleb n) = n := by
  induction h : n.natAbs using Nat.strongRecOn generalizing n with
  | ind k ih =>
    rw [sleb]
    split
    case isTrue hsmall =>
      have hb := toNat_lastByte (n := (n % 128).toNat) (by omega)
      refine ⟨.last (by omega), ?_⟩
      rw [signed_last (by omega), hb]
      split <;> omega
    case isFalse hlarge =>
      obtain ⟨hwhole, hvalue⟩ := ih (n / 128).natAbs (by omega) (n / 128) rfl
      have hb := toNat_markedByte (n := (n % 128).toNat) (by omega)
      have hmark : 128 ≤ (UInt8.ofNat ((n % 128).toNat + 128)).toNat := by omega
      refine ⟨.more hmark hwhole, ?_⟩
      rw [signed_cons _ hwhole.ne_nil, hvalue, payload_of_more hmark, hb]
      omega

/-- A natural number is read back from its bytes, whatever stands behind them. -/
theorem readLeb_leb (n : Nat) (rest : Bytes) : readLeb (leb n ++ rest) = .ok (n, rest) := by
  obtain ⟨hwhole, hvalue⟩ := whole_leb n
  rw [hwhole.readLeb, hvalue]

/-- A whole number is read back from its bytes, whatever stands behind them. -/
theorem readSleb_sleb (n : Int) (rest : Bytes) : readSleb (sleb n ++ rest) = .ok (n, rest) := by
  obtain ⟨hwhole, hvalue⟩ := whole_sleb n
  rw [hwhole.readSleb, hvalue]

end CanisterShell.Candid.Wire
