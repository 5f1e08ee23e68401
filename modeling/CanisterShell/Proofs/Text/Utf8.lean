import CanisterShell.Text.Utf8

/-!
# UTF-8 read back

The strict reader gives back every text that was written as UTF-8.  The bytes of a character fall
into four shapes by the size of its code, and the front of a byte string that begins with them is the
character itself, whatever stands behind.
-/

namespace CanisterShell.Utf8

/-! ## Bytes as numbers -/

theorem toNat_ofNat_of_lt {n : Nat} (h : n < 256) : (UInt8.ofNat n).toNat = n := by
  rw [UInt8.toNat_ofNat']
  omega

theorem isTail_ofNat (n : Nat) : isTail (UInt8.ofNat (n % 64 + 128)) = true := by
  have h := toNat_ofNat_of_lt (n := n % 64 + 128) (by omega)
  simp only [isTail, Bool.and_eq_true, decide_eq_true_eq, UInt8.le_iff_toNat_le, h]
  refine ⟨?_, ?_⟩
  · show 128 ≤ n % 64 + 128
    omega
  · show n % 64 + 128 ≤ 191
    omega

theorem tailBits_ofNat (n : Nat) : tailBits (UInt8.ofNat (n % 64 + 128)) = n % 64 := by
  rw [tailBits, toNat_ofNat_of_lt (by omega)]
  omega

theorem toNat_valid (c : Char) : c.toNat < 0xD800 ∨ 0xDFFF < c.toNat ∧ c.toNat < 0x110000 :=
  c.valid

/-! ## The front of a written character -/

theorem front_cons {b c : UInt8} (rest : Bytes) (hlow : 0xC2 ≤ b.toNat) (hhigh : b.toNat ≤ 0xF4)
    (hc : (secondRange b).1.toNat ≤ c.toNat) (hc' : c.toNat ≤ (secondRange b).2.toNat) :
    front b (c :: rest) =
      if b.toNat < 0xE0 then .char (Char.ofNat ((b.toNat - 0xC0) * 64 + tailBits c)) rest
      else if b.toNat < 0xF0 then frontTail3 ((b.toNat - 0xE0) * 64 + tailBits c) rest
      else frontTail4 ((b.toNat - 0xF0) * 64 + tailBits c) rest := by
  simp only [front, Bool.or_eq_true, decide_eq_true_eq, UInt8.lt_iff_toNat_lt, UInt8.reduceToNat]
  rw [if_neg (by omega), if_neg (by omega), if_neg (by omega)]

section Front
variable {c : Char} (rest : Bytes)

theorem front_two (h : 0x80 ≤ c.toNat) (h' : c.toNat ≤ 0x7FF) :
    front (UInt8.ofNat (c.toNat / 64 % 32 + 192)) (UInt8.ofNat (c.toNat % 64 + 128) :: rest)
      = .char c rest := by
  have hb := toNat_ofNat_of_lt (n := c.toNat / 64 % 32 + 192) (by omega)
  have ht := toNat_ofNat_of_lt (n := c.toNat % 64 + 128) (by omega)
  have hr : (secondRange (UInt8.ofNat (c.toNat / 64 % 32 + 192))).1.toNat ≤ c.toNat % 64 + 128
      ∧ c.toNat % 64 + 128 ≤ (secondRange (UInt8.ofNat (c.toNat / 64 % 32 + 192))).2.toNat := by
    simp only [secondRange, ← UInt8.toNat_inj, hb, UInt8.reduceToNat]
    rw [if_neg (by omega), if_neg (by omega), if_neg (by omega), if_neg (by omega)]
    simp only [UInt8.reduceToNat]; omega
  rw [front_cons _ (by omega) (by omega) (by rw [ht]; exact hr.1) (by rw [ht]; exact hr.2), hb,
    if_pos (by omega), tailBits_ofNat,
    show (c.toNat / 64 % 32 + 192 - 192) * 64 + c.toNat % 64 = c.toNat by omega, Char.ofNat_toNat]

theorem front_three (h : 0x7FF < c.toNat) (h' : c.toNat ≤ 0xFFFF) :
    front (UInt8.ofNat (c.toNat / 4096 % 16 + 224))
      (UInt8.ofNat (c.toNat / 64 % 64 + 128) :: UInt8.ofNat (c.toNat % 64 + 128) :: rest)
      = .char c rest := by
  have hb := toNat_ofNat_of_lt (n := c.toNat / 4096 % 16 + 224) (by omega)
  have ht := toNat_ofNat_of_lt (n := c.toNat / 64 % 64 + 128) (by omega)
  have hv := toNat_valid c
  -- the second byte is bounded more tightly behind the first leading byte and behind that of surrogates
  have hr : (secondRange (UInt8.ofNat (c.toNat / 4096 % 16 + 224))).1.toNat ≤ c.toNat / 64 % 64 + 128
      ∧ c.toNat / 64 % 64 + 128 ≤ (secondRange (UInt8.ofNat (c.toNat / 4096 % 16 + 224))).2.toNat := by
    simp only [secondRange, ← UInt8.toNat_inj, hb, UInt8.reduceToNat]
    split
    · simp only [UInt8.reduceToNat]; omega
    · split
      · simp only [UInt8.reduceToNat]; omega
      · rw [if_neg (by omega), if_neg (by omega)]
        simp only [UInt8.reduceToNat]; omega
  rw [front_cons _ (by omega) (by omega) (by rw [ht]; exact hr.1) (by rw [ht]; exact hr.2), hb,
    if_neg (by omega), if_pos (by omega), frontTail3, if_pos (isTail_ofNat _), tailBits_ofNat,
    tailBits_ofNat,
    show ((c.toNat / 4096 % 16 + 224 - 224) * 64 + c.toNat / 64 % 64) * 64 + c.toNat % 64 = c.toNat
      by omega, Char.ofNat_toNat]

theorem front_four (h : 0xFFFF < c.toNat) :
    front (UInt8.ofNat (c.toNat / 262144 % 8 + 240))
      (UInt8.ofNat (c.toNat / 4096 % 64 + 128) :: UInt8.ofNat (c.toNat / 64 % 64 + 128)
        :: UInt8.ofNat (c.toNat % 64 + 128) :: rest) = .char c rest := by
  have hv := toNat_valid c
  have hb := toNat_ofNat_of_lt (n := c.toNat / 262144 % 8 + 240) (by omega)
  have ht := toNat_ofNat_of_lt (n := c.toNat / 4096 % 64 + 128) (by omega)
  have hr : (secondRange (UInt8.ofNat (c.toNat / 262144 % 8 + 240))).1.toNat
        ≤ c.toNat / 4096 % 64 + 128
      ∧ c.toNat / 4096 % 64 + 128
        ≤ (secondRange (UInt8.ofNat (c.toNat / 262144 % 8 + 240))).2.toNat := by
    simp only [secondRange, ← UInt8.toNat_inj, hb, UInt8.reduceToNat]
    rw [if_neg (by omega), if_neg (by omega)]
    split
    · simp only [UInt8.reduceToNat]; omega
    · split
      · simp only [UInt8.reduceToNat]; omega
      · simp only [UInt8.reduceToNat]; omega
  rw [front_cons _ (by omega) (by omega) (by rw [ht]; exact hr.1) (by rw [ht]; exact hr.2), hb,
    if_neg (by omega), if_neg (by omega), frontTail4, if_pos (isTail_ofNat _),
    if_pos (isTail_ofNat _), tailBits_ofNat, tailBits_ofNat, tailBits_ofNat,
    show (((c.toNat / 262144 % 8 + 240 - 240) * 64 + c.toNat / 4096 % 64) * 64
      + c.toNat / 64 % 64) * 64 + c.toNat % 64 = c.toNat by omega, Char.ofNat_toNat]

end Front

/-! ## Whole texts -/

theorem decodeChars_of_front {b : UInt8} {tail rest : Bytes} {c : Char}
    (h : front b tail = .char c rest) :
    decodeChars (b :: tail) = (decodeChars rest).map (c :: ·) := by
  rw [decodeChars]
  split <;> simp_all

theorem decodeChars_encodeChar (c : Char) (rest : Bytes) :
    decodeChars (String.utf8EncodeChar c ++ rest) = (decodeChars rest).map (c :: ·) := by
  show decodeChars (String.utf8EncodeChar c ++ rest) = _
  unfold String.utf8EncodeChar
  simp only [show c.val.toNat = c.toNat from rfl]
  split
  · refine decodeChars_of_front ?_
    have hb := toNat_ofNat_of_lt (n := c.toNat) (by omega)
    simp only [front, UInt8.lt_iff_toNat_lt, hb, UInt8.reduceToNat, Char.ofNat_toNat]
    rw [if_pos (by omega)]
    rfl
  · split
    · exact decodeChars_of_front (front_two rest (by omega) (by omega))
    · split
      · exact decodeChars_of_front (front_three rest (by omega) (by omega))
      · exact decodeChars_of_front (front_four rest (by omega))

theorem decodeChars_flatMap (cs : List Char) :
    decodeChars (cs.flatMap String.utf8EncodeChar) = some cs := by
  induction cs with
  | nil => rw [List.flatMap_nil, decodeChars]
  | cons c cs ih => rw [List.flatMap_cons, decodeChars_encodeChar, ih, Option.map_some]

theorem decode?_encode (text : String) : decode? (encode text) = some text := by
  rw [decode?, encode, decodeChars_flatMap, Option.map_some, String.ofList_toList]

end CanisterShell.Utf8
