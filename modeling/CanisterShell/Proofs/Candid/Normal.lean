import CanisterShell.Proofs.Candid.Leaf

/-!
# Normal forms

`normal scope v t` is the value that a reader who expects a type gets for a value that was written
at it: integers in the declared kind, records with exactly the declared fields under their declared
labels and the absent ones filled in, variants with the declared label and its position, and vectors
of bytes as blobs.
-/

namespace CanisterShell.Candid

/-- The type behind a type's name, or the type as it is if its name does not resolve. -/
def Scope.behind (scope : Scope) (t : Ty) : Ty :=
  match scope.resolve t with
  | .ok u => u
  | .error _ => t

theorem Scope.behind_of_resolve {scope : Scope} {t u : Ty} (h : scope.resolve t = .ok u) :
    scope.behind t = u := by
  rw [behind, h]

namespace Wire

/-- How a value comes back at each type. -/
abbrev Normalizer := Ty → Value

/-- The value of an expected field: that of the record, or the one that stands for a missing one. -/
def normalField (scope : Scope) (fields : List (Label × Normalizer)) (label : Label) (t : Ty) :
    Value :=
  match lookup? label fields with
  | some normalize => normalize t
  | none => (absentValue? (scope.behind t)).getD .null

mutual

/-- A value as it comes back at a type. -/
def normal (scope : Scope) : Value → Normalizer
  | .opt item => fun t =>
    match scope.behind t with
    | .opt u => .opt (normal scope item u)
    | t => normalLeaf (.opt item) t
  | .vec items => fun t =>
    match scope.behind t with
    | .vec u =>
      if (scope.behind u).isByte then .blobOf (normalItems scope items u)
      else .vec (normalItems scope items u)
    | t => normalLeaf (.vec items) t
  | .blob bytes => fun t =>
    match scope.behind t with
    | .vec u =>
      if (scope.behind u).isByte then .blob bytes
      else .vec (bytes.map fun b => normalLeaf (.ofByte b) (scope.behind u))
    | t => normalLeaf (.blob bytes) t
  | .record fields => fun t =>
    match scope.behind t with
    | .record expected =>
      .record (expected.map fun f =>
        (f.1, normalField scope (fieldNormalizers scope fields) f.1 f.2))
    | t => normalLeaf (.record fields) t
  | .variant label item index => fun t =>
    match scope.behind t with
    | .variant cases =>
      match (cases.findIdx? fun c => c.1.same label).bind fun i => cases[i]?.map fun c => (i, c) with
      | some (i, expected, u) => .variant expected (normal scope item u) i
      | none => .variant label item index
    | t => normalLeaf (.variant label item index) t
  | v => fun t => normalLeaf v (scope.behind t)

def normalItems (scope : Scope) : List Value → Ty → List Value
  | [] => fun _ => []
  | v :: rest => fun t => normal scope v t :: normalItems scope rest t

def fieldNormalizers (scope : Scope) : List (Label × Value) → List (Label × Normalizer)
  | [] => []
  | (l, v) :: rest => (l, normal scope v) :: fieldNormalizers scope rest

end

/-! ## Fields by label -/

theorem lookup?_map {α β : Type} (label : Label) (f : α → β) (fields : List (Label × α)) :
    lookup? label (fields.map fun (l, a) => (l, f a)) = (lookup? label fields).map f := by
  rw [lookup?, lookup?, List.find?_map, Option.map_map, Option.map_map]
  rfl

theorem fieldWriters_eq_map (scope : Scope) (fields : List (Label × Value)) :
    fieldWriters scope fields = fields.map fun (l, v) => (l, valueBytes scope v) := by
  induction fields with
  | nil => rfl
  | cons f fields ih => rw [fieldWriters, ih, List.map_cons]

theorem fieldAligners_eq_map (scope : Scope) (fields : List (Label × Value)) :
    fieldAligners scope fields = fields.map fun (l, v) => (l, alignValue scope v) := by
  induction fields with
  | nil => rfl
  | cons f fields ih => rw [fieldAligners, ih, List.map_cons]

theorem fieldNormalizers_eq_map (scope : Scope) (fields : List (Label × Value)) :
    fieldNormalizers scope fields = fields.map fun (l, v) => (l, normal scope v) := by
  induction fields with
  | nil => rfl
  | cons f fields ih => rw [fieldNormalizers, ih, List.map_cons]

theorem mem_of_lookup?_eq_some {α : Type} {label : Label} {fields : List (Label × α)} {a : α}
    (h : lookup? label fields = some a) : ∃ l, (l, a) ∈ fields := by
  obtain ⟨f, hf, rfl⟩ := Option.map_eq_some_iff.mp h
  exact ⟨f.1, List.mem_of_find?_eq_some hf⟩

theorem lookup?_congr {α : Type} {label label' : Label} (h : label.id = label'.id)
    (fields : List (Label × α)) : lookup? label fields = lookup? label' fields := by
  simp only [lookup?, Label.same, h]

theorem lookup?_cons_of_same {α : Type} {label : Label} {f : Label × α} (h : f.1.same label)
    (fields : List (Label × α)) : lookup? label (f :: fields) = some f.2 := by
  simp [lookup?, h]

theorem lookup?_cons_of_not_same {α : Type} {label : Label} {f : Label × α}
    (h : ¬f.1.same label) (fields : List (Label × α)) :
    lookup? label (f :: fields) = lookup? label fields := by
  simp [lookup?, h]

theorem lookup?_of_mem {α : Type} {fields : List (Label × α)} (hasc : Ascending fields)
    {f : Label × α} (hf : f ∈ fields) {label : Label} (hid : f.1.id = label.id) :
    lookup? label fields = some f.2 := by
  induction fields with
  | nil => cases hf
  | cons g fields ih =>
    obtain ⟨hfirst, hasc⟩ := List.pairwise_cons.mp hasc
    obtain rfl | hf := List.mem_cons.mp hf
    · exact lookup?_cons_of_same (decide_eq_true hid) fields
    · have hne : ¬g.1.same label := by
        have hlt := hfirst f hf
        rw [Label.same, decide_eq_true_iff]
        omega
      rw [lookup?_cons_of_not_same hne, ih hasc hf]

theorem exists_lookup?_of_forall₂ {α β : Type} {Q : Label × α → β → Prop}
    {fields : List (Label × α)} {others : List (Label × β)} (hasc : Ascending fields)
    (h : List.Forall₂ (fun f g => g.1.id = f.1.id ∧ Q f g.2) fields others) :
    ∀ f ∈ fields, ∃ b, lookup? f.1 others = some b ∧ Q f b := by
  induction h with
  | nil => nofun
  | @cons f g fields others hfg _ ih =>
    obtain ⟨hfirst, hasc⟩ := List.pairwise_cons.mp hasc
    intro f' hf'
    obtain rfl | hf' := List.mem_cons.mp hf'
    · exact ⟨g.2, lookup?_cons_of_same (decide_eq_true hfg.1) others, hfg.2⟩
    · obtain ⟨b, hb, hQ⟩ := ih hasc f' hf'
      refine ⟨b, ?_, hQ⟩
      have hne : ¬g.1.same f'.1 := by
        have hlt := hfirst f' hf'
        rw [Label.same, decide_eq_true_iff, hfg.1]
        omega
      rw [lookup?_cons_of_not_same hne, hb]

end Wire

end CanisterShell.Candid
