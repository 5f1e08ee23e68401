import CanisterShell.Proofs.Candid.Proper

/-!
# Well-formed values

What is asked of each value that stands in a value, at whatever depth: the labels of a record ascend
strictly, integers of fixed width are in the range of their type and natural numbers are not
negative, and a principal has at most 29 bytes.  This can be checked (`isWellFormed_iff`), and
proper values meet it (`Proper.wellFormed`).
-/

namespace CanisterShell.Candid.Value

def parts : Value → List Value
  | opt v | variant _ v _ => [v]
  | vec items => items
  | record fields => fields.map (·.2)
  | _ => []

/-- A value stands in another, at whatever depth, or is it. -/
inductive Within (w : Value) : Value → Prop where
  | refl : Within w w
  | part {u v : Value} (hu : u ∈ v.parts) (h : Within w u) : Within w v

theorem Within.trans {u v w : Value} (h : Within u v) (h' : Within v w) : Within u w := by
  induction h' with
  | refl => exact h
  | part hu _ ih => exact .part hu ih

/-- An integer is in the range of its type. -/
def InRange : IntKind → Int → Prop
  | .nat, n => 0 ≤ n
  | .int, _ => True
  | .nat8, n => 0 ≤ n ∧ n < 2 ^ 8
  | .nat16, n => 0 ≤ n ∧ n < 2 ^ 16
  | .nat32, n => 0 ≤ n ∧ n < 2 ^ 32
  | .nat64, n => 0 ≤ n ∧ n < 2 ^ 64
  | .int8, n => -2 ^ 7 ≤ n ∧ n < 2 ^ 7
  | .int16, n => -2 ^ 15 ≤ n ∧ n < 2 ^ 15
  | .int32, n => -2 ^ 31 ≤ n ∧ n < 2 ^ 31
  | .int64, n => -2 ^ 63 ≤ n ∧ n < 2 ^ 63

instance (n : Int) : (kind : IntKind) → Decidable (InRange kind n)
  | .nat => inferInstanceAs (Decidable (0 ≤ n))
  | .int => inferInstanceAs (Decidable True)
  | .nat8 => inferInstanceAs (Decidable (0 ≤ n ∧ n < 2 ^ 8))
  | .nat16 => inferInstanceAs (Decidable (0 ≤ n ∧ n < 2 ^ 16))
  | .nat32 => inferInstanceAs (Decidable (0 ≤ n ∧ n < 2 ^ 32))
  | .nat64 => inferInstanceAs (Decidable (0 ≤ n ∧ n < 2 ^ 64))
  | .int8 => inferInstanceAs (Decidable (-2 ^ 7 ≤ n ∧ n < 2 ^ 7))
  | .int16 => inferInstanceAs (Decidable (-2 ^ 15 ≤ n ∧ n < 2 ^ 15))
  | .int32 => inferInstanceAs (Decidable (-2 ^ 31 ≤ n ∧ n < 2 ^ 31))
  | .int64 => inferInstanceAs (Decidable (-2 ^ 63 ≤ n ∧ n < 2 ^ 63))

theorem inRange_of_holds {kind : IntKind} {n : Int} (h : kind.holds n = true) : InRange kind n := by
  cases kind <;>
    simp [IntKind.holds, IntKind.least?, IntKind.greatest?] at h <;>
    simp only [InRange] <;> omega

/-- What is asked of a value, its parts apart. -/
def Fits : Value → Prop
  | int kind n => InRange kind n
  | record fields => (fields.map (·.1.id)).Pairwise (· < ·)
  | principal p | service p | func p _ => p.bytes.length ≤ 29
  | _ => True

/-- All that stands in the value fits. -/
def WellFormed (v : Value) : Prop := ∀ w, Within w v → w.Fits

theorem forall_within_iff {P : Value → Prop} (v : Value) :
    (∀ w, Within w v → P w) ↔ P v ∧ ∀ u ∈ v.parts, ∀ w, Within w u → P w := by
  constructor
  · exact fun h => ⟨h v .refl, fun u hu w hw => h w (.part hu hw)⟩
  · intro ⟨hv, hparts⟩ w hw
    cases hw with
    | refl => exact hv
    | part hu hw => exact hparts _ hu w hw

theorem wellFormed_iff (v : Value) : v.WellFormed ↔ v.Fits ∧ ∀ u ∈ v.parts, u.WellFormed :=
  forall_within_iff v

theorem WellFormed.part {u v : Value} (h : v.WellFormed) (hu : u ∈ v.parts) : u.WellFormed :=
  ((wellFormed_iff v).mp h).2 u hu

theorem WellFormed.within {u v : Value} (h : v.WellFormed) (hu : Within u v) : u.WellFormed :=
  fun w hw => h w (hw.trans hu)

/-- Proper values are well formed. -/
theorem Proper.wellFormed {v : Value} (h : v.Proper) : v.WellFormed := by
  induction h with
  | int h => exact (wellFormed_iff _).mpr ⟨inRange_of_holds h, nofun⟩
  | opt _ ih => exact (wellFormed_iff _).mpr ⟨trivial, List.forall_mem_singleton.mpr ih⟩
  | vec _ ih => exact (wellFormed_iff _).mpr ⟨trivial, ih⟩
  | record hasc _ ih =>
    exact (wellFormed_iff _).mpr ⟨List.pairwise_map.mpr hasc, List.forall_mem_map.mpr ih⟩
  | variant _ _ _ ih => exact (wellFormed_iff _).mpr ⟨trivial, List.forall_mem_singleton.mpr ih⟩
  | principal p => exact (wellFormed_iff _).mpr ⟨p.length_le, nofun⟩
  | service p => exact (wellFormed_iff _).mpr ⟨p.length_le, nofun⟩
  | func p _ => exact (wellFormed_iff _).mpr ⟨p.length_le, nofun⟩
  | _ => exact (wellFormed_iff _).mpr ⟨trivial, nofun⟩

/-! ## Checking -/

mutual

/-- Whether all that stands in the value fits. -/
def isWellFormed : Value → Bool
  | int kind n => decide (InRange kind n)
  | opt v | variant _ v _ => isWellFormed v
  | vec items => allWellFormed items
  | record fields =>
    decide ((fields.map (·.1.id)).Pairwise (· < ·)) && fieldsWellFormed fields
  | principal p | service p | func p _ => decide (p.bytes.length ≤ 29)
  | null | reserved | nothing | bool _ | text _ | number _ | float .. | blob _ => true

def allWellFormed : List Value → Bool
  | [] => true
  | v :: rest => isWellFormed v && allWellFormed rest

def fieldsWellFormed : List (Label × Value) → Bool
  | [] => true
  | (_, v) :: rest => isWellFormed v && fieldsWellFormed rest

end

theorem allWellFormed_iff (items : List Value) :
    allWellFormed items = true ↔ ∀ v ∈ items, v.isWellFormed = true := by
  induction items with
  | nil => simp [allWellFormed]
  | cons v items ih => simp [allWellFormed, ih]

theorem fieldsWellFormed_iff (fields : List (Label × Value)) :
    fieldsWellFormed fields = true ↔ ∀ v ∈ fields.map (·.2), v.isWellFormed = true := by
  induction fields with
  | nil => simp [fieldsWellFormed]
  | cons f fields ih => simp only [fieldsWellFormed, Bool.and_eq_true, ih, List.map_cons,
      List.forall_mem_cons]

theorem isWellFormed_iff_fits (v : Value) :
    v.isWellFormed = true ↔ v.Fits ∧ ∀ u ∈ v.parts, u.isWellFormed = true := by
  cases v with
  | record fields =>
    simp only [isWellFormed, Fits, parts, fieldsWellFormed_iff, Bool.and_eq_true, decide_eq_true_eq]
  | _ => simp [isWellFormed, Fits, parts, allWellFormed_iff]

theorem sizeOf_lt_of_mem_parts {u v : Value} (h : u ∈ v.parts) : sizeOf u < sizeOf v := by
  cases v with
  | opt w =>
    obtain rfl := List.mem_singleton.mp h
    simp
  | variant label w index =>
    obtain rfl := List.mem_singleton.mp h
    simp
    omega
  | vec items =>
    have : sizeOf u < sizeOf items := List.sizeOf_lt_of_mem h
    simp
    omega
  | record fields =>
    obtain ⟨f, hf, rfl⟩ := List.mem_map.mp h
    have := List.sizeOf_lt_of_mem hf
    have : sizeOf f = 1 + sizeOf f.1 + sizeOf f.2 := rfl
    simp
    omega
  | _ => cases h

theorem induction_parts {P : Value → Prop} (h : ∀ v, (∀ u ∈ v.parts, P u) → P v) (v : Value) : P v :=
  h v fun u _ => induction_parts h u
termination_by sizeOf v
decreasing_by exact sizeOf_lt_of_mem_parts ‹_›

theorem isWellFormed_of_wellFormed (v : Value) (h : v.WellFormed) : v.isWellFormed = true :=
  have ⟨hv, hparts⟩ := (wellFormed_iff v).mp h
  (isWellFormed_iff_fits v).mpr ⟨hv, fun u hu => isWellFormed_of_wellFormed u (hparts u hu)⟩
termination_by sizeOf v
decreasing_by exact sizeOf_lt_of_mem_parts hu

theorem isWellFormed_iff (v : Value) : v.isWellFormed = true ↔ v.WellFormed := by
  refine ⟨fun h w hw => ?_, isWellFormed_of_wellFormed v⟩
  induction hw with
  | refl => exact ((isWellFormed_iff_fits _).mp h).1
  | part hu _ ih => exact ih (((isWellFormed_iff_fits _).mp h).2 _ hu)

instance : DecidablePred WellFormed := fun v => decidable_of_iff _ (isWellFormed_iff v)

end CanisterShell.Candid.Value
