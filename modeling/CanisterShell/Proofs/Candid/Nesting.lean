import CanisterShell.Proofs.Candid.Failure
import Mathlib.Data.Finset.Card
import Mathlib.Data.Finset.Prod
import Mathlib.Logic.Relation

/-!
# How values nest

A site is a type and the bytes at which a value of it is read.  Reading enters the sites of the
value's parts (`Enters`), and it is cut off exactly when sites enter each other as often as it may
nest (`readValue_exhausted_iff`), whatever the bytes are.  A site that is entered from itself is
therefore never read to the end (`Recurs.nests`); and over definitions whose parts are names, where a
site is a name and a number of bytes left, there is no other way to nest without end
(`recurs_of_nests`).
-/

namespace CanisterShell.Candid.Wire

open Relation (ReflTransGen TransGen)

/-- A type, and the bytes at which a value of it is read. -/
@[ext]
structure Site where
  ty : Ty
  bytes : Bytes

/-- Reading values of some types in order comes to a site. -/
def Meets (scope : Scope) (ts : List Ty) (bytes : Bytes) (c : Site) : Prop :=
  ∃ before after vs depth,
    ts = before ++ c.ty :: after ∧ readValues scope depth before bytes = .ok (vs, c.bytes)

/-- Reading the value of a site comes to the site of a part. -/
def Enters (scope : Scope) (c c' : Site) : Prop :=
  ∃ layout rest, readLayout scope c.ty c.bytes = .ok (layout, rest) ∧
    Meets scope layout.parts rest c'

/-- Sites enter each other at least `n` times from a site on. -/
def Nests (scope : Scope) : (n : Nat) → Site → Prop
  | 0, _ => True
  | n + 1, c => ∃ c', Enters scope c c' ∧ Nests scope n c'

variable {scope : Scope} {depth : Nat} {ts : List Ty} {bytes : Bytes} {c c' : Site}

/-! ## Readings that are cut off -/

theorem readLayout_ne_exhausted (t : Ty) (bytes : Bytes) :
    readLayout scope t bytes ≠ .error .exhausted := by
  intro h
  by_cases hlong : ∃ n, HoldsOverlong scope t n bytes
  · obtain ⟨n, hn⟩ := hlong
    rw [readLayout_of_holdsOverlong hn] at h
    cases h
  · obtain ⟨cause, hc⟩ := readLayout_plain (fun n hn => hlong ⟨n, hn⟩) _ h
    cases hc

theorem readValues_exhausted_iff :
    readValues scope depth ts bytes = .error .exhausted ↔
      ∃ c, Meets scope ts bytes c ∧ readValue scope depth c.ty c.bytes = .error .exhausted := by
  rw [readValues_error_iff]
  constructor
  · rintro ⟨before, t, after, vs, rest, hts, hb, ht⟩
    exact ⟨⟨t, rest⟩, ⟨before, after, vs, depth, hts, hb⟩, ht⟩
  · rintro ⟨⟨t, rest⟩, ⟨before, after, vs, depth', hts, hb⟩, ht⟩
    rw [← readValues_error_iff, hts, readValues_append]
    by_cases hcut : readValues scope depth before bytes = .error .exhausted
    · exact Reader.bind_of_error hcut
    · -- the parts in front come to the same at both depths
      have hle : readValues scope (max depth depth') before bytes = _ :=
        readValues_mono (Nat.le_max_left depth depth') before bytes hcut
      have hle' := readValues_mono (Nat.le_max_right depth depth') before bytes (by rw [hb]; nofun)
      rw [Reader.bind_of_ok (hle.symm.trans (hle'.trans hb))]
      exact Reader.bind_of_error (readValues_cons_of_error after ht)

/-- The reading of a value is cut off exactly when its sites nest as deep as they may. -/
theorem readValue_exhausted_iff :
    readValue scope depth c.ty c.bytes = .error .exhausted ↔ Nests scope depth c := by
  induction depth generalizing c with
  | zero => exact ⟨fun _ => trivial, fun _ => rfl⟩
  | succ depth ih =>
    rw [readValue_succ, Reader.bind_error_iff]
    constructor
    · rintro (h | ⟨layout, rest, hl, h⟩)
      · exact absurd h (readLayout_ne_exhausted _ _)
      obtain h | ⟨vs, rest', -, h⟩ := Reader.bind_error_iff.mp h
      · obtain ⟨c', hm, hc'⟩ := readValues_exhausted_iff.mp h
        exact ⟨c', ⟨layout, rest, hl, hm⟩, ih.mp hc'⟩
      · obtain ⟨u, -, hfits⟩ := readLayout_fits hl
        obtain ⟨cause, hc⟩ := hfits.plain vs _ (Reader.lift_error_iff.mp h)
        cases hc
    · rintro ⟨c', ⟨layout, rest, hl, hm⟩, hc'⟩
      refine .inr ⟨layout, rest, hl, Reader.bind_of_error ?_⟩
      exact readValues_exhausted_iff.mpr ⟨c', hm, ih.mpr hc'⟩

/-! ## Sites that come back -/

/-- Reading the value of a site comes to a site that is entered from itself. -/
def Recurs (scope : Scope) (c : Site) : Prop :=
  ∃ c', ReflTransGen (Enters scope) c c' ∧ TransGen (Enters scope) c' c'

theorem Recurs.enters (h : Recurs scope c) : ∃ c', Enters scope c c' ∧ Recurs scope c' := by
  obtain ⟨d, hreach, hcycle⟩ := h
  obtain rfl | ⟨c', hc, hreach⟩ := hreach.cases_head
  · obtain ⟨c', hc, hback⟩ := TransGen.head'_iff.mp hcycle
    exact ⟨c', hc, c, hback, hcycle⟩
  · exact ⟨c', hc, d, hreach, hcycle⟩

theorem Recurs.nests (h : Recurs scope c) (n : Nat) : Nests scope n c := by
  induction n generalizing c with
  | zero => trivial
  | succ n ih =>
    obtain ⟨c', hc, h⟩ := h.enters
    exact ⟨c', hc, ih h⟩

theorem Nests.exists_path {n : Nat} (h : Nests scope n c) :
    ∃ f : Nat → Site, f 0 = c ∧ ∀ i < n, Enters scope (f i) (f (i + 1)) := by
  induction n generalizing c with
  | zero => exact ⟨fun _ => c, rfl, nofun⟩
  | succ n ih =>
    obtain ⟨c', hc, h⟩ := h
    obtain ⟨f, rfl, hf⟩ := ih h
    refine ⟨fun i => Nat.casesOn i c f, rfl, fun i hi => ?_⟩
    cases i with
    | zero => exact hc
    | succ i => exact hf i (by omega)

theorem reaches_of_path {f : Nat → Site} {n : Nat}
    (hf : ∀ i < n, Enters scope (f i) (f (i + 1))) {i j : Nat} (hij : i ≤ j) (hj : j ≤ n) :
    ReflTransGen (Enters scope) (f i) (f j) := by
  induction j, hij using Nat.le_induction with
  | base => exact .refl
  | succ j hij ih => exact (ih (by omega)).tail (hf j (by omega))

/-! ## What is left of the bytes -/

theorem Meets.suffix (h : Meets scope ts bytes c) : c.bytes <:+ bytes := by
  obtain ⟨before, after, vs, depth, -, hb⟩ := h
  exact (readValues_exact scope depth before).suffix hb

theorem Meets.mem (h : Meets scope ts bytes c) : c.ty ∈ ts := by
  obtain ⟨before, after, vs, depth, rfl, -⟩ := h
  exact List.mem_append_cons_self

theorem Enters.suffix (h : Enters scope c c') : c'.bytes <:+ c.bytes := by
  obtain ⟨layout, rest, hl, hm⟩ := h
  exact hm.suffix.trans ((readLayout_exact scope c.ty).suffix hl)

theorem Enters.mem_partTypes (h : Enters scope c c') :
    ∃ u, scope.resolve c.ty = .ok u ∧ c'.ty ∈ partTypes u := by
  obtain ⟨layout, rest, hl, hm⟩ := h
  obtain ⟨u, hu, hfits⟩ := readLayout_fits hl
  exact ⟨u, hu, hfits.mem_parts _ hm.mem⟩

theorem suffix_of_reaches (h : ReflTransGen (Enters scope) c c') : c'.bytes <:+ c.bytes := by
  induction h with
  | refl => exact List.suffix_rfl
  | tail _ hstep ih => exact hstep.suffix.trans ih

/-! ## Definitions in a table -/

/-- A primitive type or a name, as references of a table are. -/
def IsReference (t : Ty) : Prop := (∃ p, t = .prim p) ∨ ∃ name, t = .var name

/-- The definitions of a table: the parts of each are references. -/
def Flat (scope : Scope) : Prop :=
  ∀ name t, (name, t) ∈ scope → ∀ part ∈ partTypes t, IsReference part

theorem Enters.of_isReference (hflat : Flat scope) (h : Enters scope c c')
    (href : IsReference c.ty) :
    (∃ name, c.ty = .var name ∧ name ∈ scope.map (·.1)) ∧ IsReference c'.ty := by
  obtain ⟨u, hu, hpart⟩ := h.mem_partTypes
  obtain ⟨p, hp⟩ | ⟨name, hname⟩ := href
  · rw [hp, Scope.resolve_of_ne_var (by nofun)] at hu
    cases hu
    cases hpart
  · rw [hname] at hu
    obtain ⟨t, ht⟩ := Scope.exists_find?_of_resolve_var hu
    have hmem : name ∈ scope.map (·.1) := List.mem_map_of_mem (Table.mem_of_find?_eq_some ht)
    refine ⟨⟨name, hname, hmem⟩, ?_⟩
    obtain rfl | ⟨name', hdef⟩ := Scope.resolve_mem hu
    · exact absurd rfl (Scope.resolve_ne_var hu name)
    · exact hflat name' u hdef _ hpart

/-- The name of a site's type and the number of bytes that are left there. -/
def Site.key (c : Site) : String × Nat :=
  (match c.ty with | .var name => name | _ => "", c.bytes.length)

theorem eq_of_key_eq {bytes : Bytes} {name name' : String} (hc : c.bytes <:+ bytes)
    (hc' : c'.bytes <:+ bytes) (hname : c.ty = .var name) (hname' : c'.ty = .var name')
    (hkey : c.key = c'.key) : c = c' := by
  rw [Site.key, Site.key, hname, hname'] at hkey
  obtain ⟨hnames, hlen⟩ := Prod.mk.inj hkey
  refine Site.ext ?_ ?_
  · rw [hname, hname']
    exact congrArg Ty.var hnames
  · rw [List.suffix_iff_eq_drop.mp hc, List.suffix_iff_eq_drop.mp hc', hlen]

theorem recurs_of_path {f : Nat → Site} {n : Nat}
    (hf : ∀ i < n, Enters scope (f i) (f (i + 1))) {i j : Nat} (hij : i < j) (hj : j < n)
    (heq : f i = f j) : Recurs scope (f 0) := by
  refine ⟨f i, reaches_of_path hf (Nat.zero_le i) (by omega), ?_⟩
  refine TransGen.head' (hf i (by omega)) ?_
  rw [heq]
  exact reaches_of_path hf (i := i + 1) hij hj.le

/-- Over the definitions of a table, sites that nest more often than there are pairs of a name and
a number of bytes come back. -/
theorem recurs_of_nests (hflat : Flat scope) (href : IsReference c.ty) {n : Nat}
    (h : Nests scope n c) (hn : scope.length * (c.bytes.length + 1) < n) : Recurs scope c := by
  obtain ⟨f, rfl, hf⟩ := h.exists_path
  have hsuffix : ∀ i ≤ n, (f i).bytes <:+ (f 0).bytes := fun i hi =>
    suffix_of_reaches (reaches_of_path hf (Nat.zero_le i) hi)
  have hrefs : ∀ i ≤ n, IsReference (f i).ty := by
    intro i hi
    induction i with
    | zero => exact href
    | succ i ih => exact ((hf i hi).of_isReference hflat (ih (by omega))).2
  have hnamed : ∀ i < n, ∃ name, (f i).ty = .var name ∧ name ∈ scope.map (·.1) := fun i hi =>
    ((hf i hi).of_isReference hflat (hrefs i (by omega))).1
  let keys := (scope.map (·.1)).toFinset ×ˢ Finset.range ((f 0).bytes.length + 1)
  have hcard : keys.card < (Finset.range n).card := by
    have hnames := List.toFinset_card_le (scope.map (·.1))
    rw [List.length_map] at hnames
    rw [Finset.card_product, Finset.card_range, Finset.card_range]
    exact Nat.lt_of_le_of_lt (Nat.mul_le_mul_right _ hnames) hn
  have hmaps : ∀ i ∈ Finset.range n, (f i).key ∈ keys := by
    intro i hi
    obtain ⟨name, hname, hmem⟩ := hnamed i (Finset.mem_range.mp hi)
    have hlen := (hsuffix i (Finset.mem_range.mp hi).le).length_le
    rw [Finset.mem_product, Site.key, hname, List.mem_toFinset, Finset.mem_range]
    exact ⟨hmem, by omega⟩
  obtain ⟨i, hi, j, hj, hne, hkey⟩ := Finset.exists_ne_map_eq_of_card_lt_of_maps_to hcard hmaps
  rw [Finset.mem_range] at hi hj
  obtain ⟨name, hname, -⟩ := hnamed i hi
  obtain ⟨name', hname', -⟩ := hnamed j hj
  have heq := eq_of_key_eq (hsuffix i hi.le) (hsuffix j hj.le) hname hname' hkey
  obtain hij | hji := Nat.lt_or_gt_of_ne hne
  · exact recurs_of_path hf hij hj heq
  · exact recurs_of_path hf hji hi heq.symm

end CanisterShell.Candid.Wire
