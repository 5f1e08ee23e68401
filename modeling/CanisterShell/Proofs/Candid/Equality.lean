import CanisterShell.Proofs.Candid.WellFormed
import Mathlib.Data.List.Forall2

/-!
# Equality of values

Scripts compare values in a form-by-form way that lets an untyped number stand for an integer and a
blob for the vector of its bytes.  What two equal values look like at their outermost form is a
relation of its own (`equal_iff`), and all laws are read off it.  Equality is reflexive but for
not-a-numbers, symmetric, and blind to the names of labels and the indexes of variants.  It is an
equivalence once every number has its type: an untyped number equals integers of two types that are
not equal to each other.
-/

namespace CanisterShell

/-! ## Equal floating-point numbers -/

namespace Double

theorem same_self {x : Double} (h : x.isNaN = false) : x.same x = true := by
  simp [same, compare?, h]

theorem same_comm (x y : Double) : x.same y = y.same x := by
  unfold same compare?
  cases hx : x.isNaN <;> cases hy : y.isNaN
  case true.true =>
    simp only [Bool.and_self, if_true]
    by_cases h : x.origin = y.origin
    · rw [h]
    · simp [h, Ne.symm h]
  case false.false =>
    simp only [Bool.and_self, Bool.or_self, Bool.false_eq_true, if_false, Option.some.injEq,
      compare_eq_iff_eq]
    exact decide_eq_decide.mpr eq_comm
  all_goals simp

end Double

namespace Candid.Value

open List (Forall₂)

/-! ## What holds throughout a value -/

/-- A test holds of all that stands in the value. -/
def Throughout (test : Value → Bool) (v : Value) : Prop := ∀ w, Within w v → test w = true

variable {test : Value → Bool}

theorem throughout_iff (v : Value) :
    v.Throughout test ↔ test v = true ∧ ∀ u ∈ v.parts, u.Throughout test :=
  forall_within_iff v

theorem Throughout.self {v : Value} (h : v.Throughout test) : test v = true := h v .refl

theorem Throughout.part {u v : Value} (h : v.Throughout test) (hu : u ∈ v.parts) :
    u.Throughout test :=
  ((throughout_iff v).mp h).2 u hu

theorem Throughout.imp {test' : Value → Bool} {v : Value} (h : v.Throughout test)
    (himp : ∀ w, test w = true → test' w = true) : v.Throughout test' :=
  fun w hw => himp w (h w hw)

mutual

/-- Whether a test holds of all that stands in the value. -/
def isThroughout (test : Value → Bool) (v : Value) : Bool :=
  test v &&
    match v with
    | opt u | variant _ u _ => isThroughout test u
    | vec items => allThroughout test items
    | record fields => fieldsThroughout test fields
    | _ => true

def allThroughout (test : Value → Bool) : List Value → Bool
  | [] => true
  | v :: rest => isThroughout test v && allThroughout test rest

def fieldsThroughout (test : Value → Bool) : List (Label × Value) → Bool
  | [] => true
  | (_, v) :: rest => isThroughout test v && fieldsThroughout test rest

end

theorem allThroughout_iff (items : List Value) :
    allThroughout test items = true ↔ ∀ v ∈ items, v.isThroughout test = true := by
  induction items with
  | nil => simp [allThroughout]
  | cons v items ih => simp [allThroughout, ih]

theorem fieldsThroughout_iff (fields : List (Label × Value)) :
    fieldsThroughout test fields = true ↔ ∀ v ∈ fields.map (·.2), v.isThroughout test = true := by
  induction fields with
  | nil => simp [fieldsThroughout]
  | cons f fields ih => simp only [fieldsThroughout, Bool.and_eq_true, ih, List.map_cons,
      List.forall_mem_cons]

theorem isThroughout_iff_parts (v : Value) :
    v.isThroughout test = true ↔ test v = true ∧ ∀ u ∈ v.parts, u.isThroughout test = true := by
  cases v <;> simp [isThroughout, parts, allThroughout_iff, fieldsThroughout_iff]

theorem isThroughout_iff (v : Value) : v.isThroughout test = true ↔ v.Throughout test := by
  induction v using induction_parts with
  | h v ih =>
    rw [isThroughout_iff_parts, throughout_iff]
    exact and_congr_right fun _ => forall₂_congr ih

instance : DecidablePred (Throughout test) := fun v => decidable_of_iff _ (isThroughout_iff v)

def isNoFloat : Value → Bool
  | float .. => false
  | _ => true

def isNoNaN : Value → Bool
  | float _ x => !x.isNaN
  | _ => true

def isNoNumber : Value → Bool
  | number _ => false
  | _ => true

/-- No floating-point number stands in the value. -/
abbrev FloatFree (v : Value) : Prop := v.Throughout isNoFloat

/-- No not-a-number stands in the value. -/
abbrev NaNFree (v : Value) : Prop := v.Throughout isNoNaN

/-- Every number in the value has its type. -/
abbrev Typed (v : Value) : Prop := v.Throughout isNoNumber

theorem FloatFree.naNFree {v : Value} (h : v.FloatFree) : v.NaNFree :=
  h.imp fun w hw => by cases w <;> first | rfl | cases hw

/-! ## Bytes -/

theorem byte?_ofByte (b : UInt8) : (ofByte b).byte? = some b := by
  simp [ofByte, byte?]

theorem mapM_byte?_iff {items : List Value} {bytes : Bytes} :
    items.mapM byte? = some bytes ↔ Forall₂ (fun v b => v.byte? = some b) items bytes := by
  induction items generalizing bytes with
  | nil => cases bytes <;> simp
  | cons v items ih =>
    rw [List.mapM_cons, List.forall₂_cons_left_iff, Option.bind_eq_bind, Option.bind_eq_some_iff]
    refine exists_congr fun b => ?_
    rw [Option.bind_eq_bind, Option.bind_eq_some_iff, ← exists_and_left]
    simp only [ih, Option.pure_def, Option.some.injEq, eq_comm]

theorem mapM_byte?_ofByte (bytes : Bytes) : (bytes.map ofByte).mapM byte? = some bytes := by
  induction bytes with
  | nil => rfl
  | cons b bytes ih => rw [List.map_cons, List.mapM_cons, byte?_ofByte, ih]; rfl

theorem eq_ofByte {v : Value} (h : v.WellFormed) {b : UInt8} (hb : v.byte? = some b) :
    v = ofByte b := by
  unfold byte? at hb
  split at hb
  case h_1 n =>
    have hrange : 0 ≤ n ∧ n < 2 ^ 8 := ((wellFormed_iff _).mp h).1
    cases hb
    rw [ofByte, UInt8.toNat_ofNat', Nat.mod_eq_of_lt (by omega), Int.toNat_of_nonneg hrange.1]
  case h_2 => cases hb

theorem eq_map_ofByte {items : List Value} (h : ∀ v ∈ items, v.WellFormed) {bytes : Bytes}
    (hbytes : items.mapM byte? = some bytes) : items = bytes.map ofByte := by
  induction mapM_byte?_iff.mp hbytes with
  | nil => rfl
  | cons hb hrest ih =>
    have ⟨hv, hitems⟩ := List.forall_mem_cons.mp h
    rw [List.map_cons, ← eq_ofByte hv hb, ← ih hitems (mapM_byte?_iff.mpr hrest)]

/-! ## Equality at the outermost form -/

/-- Two values are equal at their outermost form, their parts being in the relation. -/
inductive Matches (R : Value → Value → Prop) : Value → Value → Prop
  | null : Matches R null null
  | reserved : Matches R reserved reserved
  | nothing : Matches R nothing nothing
  | bool (b : Bool) : Matches R (bool b) (bool b)
  | text (s : String) : Matches R (text s) (text s)
  | numbers (n : Int) : Matches R (number n) (number n)
  | numberInt (kind : IntKind) (n : Int) : Matches R (number n) (int kind n)
  | intNumber (kind : IntKind) (n : Int) : Matches R (int kind n) (number n)
  | ints (kind : IntKind) (n : Int) : Matches R (int kind n) (int kind n)
  | float (kind : FloatKind) {x y : Double} : x.same y = true →
    Matches R (float kind x) (float kind y)
  | opt {v w : Value} : R v w → Matches R (opt v) (opt w)
  | blobs (bytes : Bytes) : Matches R (blob bytes) (blob bytes)
  | blobVec {bytes : Bytes} {items : List Value} : items.mapM byte? = some bytes →
    Matches R (blob bytes) (vec items)
  | vecBlob {bytes : Bytes} {items : List Value} : items.mapM byte? = some bytes →
    Matches R (vec items) (blob bytes)
  | vecs {vs ws : List Value} : Forall₂ R vs ws → Matches R (vec vs) (vec ws)
  | record {fs gs : List (Label × Value)} :
    Forall₂ (fun f g => f.1.id = g.1.id ∧ R f.2 g.2) fs gs → Matches R (record fs) (record gs)
  | variant {l m : Label} {v w : Value} (i j : Nat) : l.id = m.id → R v w →
    Matches R (variant l v i) (variant m w j)
  | principal (p : Principal) : Matches R (principal p) (principal p)
  | service (p : Principal) : Matches R (service p) (service p)
  | func (p : Principal) (method : String) : Matches R (func p method) (func p method)

abbrev Equal (v w : Value) : Prop := v.equal w = true

theorem equalAll_iff (vs ws : List Value) : equalAll vs ws = true ↔ Forall₂ Equal vs ws := by
  induction vs generalizing ws with
  | nil => cases ws <;> simp [equalAll]
  | cons v vs ih => cases ws <;> simp [equalAll, ih, Equal]

theorem equalFields_iff (fs gs : List (Label × Value)) :
    equalFields fs gs = true ↔ Forall₂ (fun f g => f.1.id = g.1.id ∧ Equal f.2 g.2) fs gs := by
  induction fs generalizing gs with
  | nil => cases gs <;> simp [equalFields]
  | cons f fs ih => cases gs <;> simp [equalFields, ih, Equal, Label.same]

theorem equal_vec_blob_iff (items : List Value) (bytes : Bytes) :
    (vec items).equal (blob bytes) = true ↔ items.mapM byte? = some bytes := by
  cases h : items.mapM byte? <;> simp [equal, sameBytes, bytes?, h]

theorem equal_blob_vec_iff (bytes : Bytes) (items : List Value) :
    (blob bytes).equal (vec items) = true ↔ items.mapM byte? = some bytes := by
  cases h : items.mapM byte? with
  | none => simp [equal, sameBytes, bytes?, h]
  | some bytes' => simpa [equal, sameBytes, bytes?, h] using eq_comm

theorem matches_of_sameLeaf {R : Value → Value → Prop} {v w : Value} (h : sameLeaf v w = true) :
    Matches R v w := by
  fun_cases sameLeaf v w
  case case1 => exact .null
  case case2 => exact .reserved
  case case3 => exact .nothing
  case case4 a b =>
    obtain rfl : a = b := by simpa [sameLeaf] using h
    exact .bool a
  case case5 a b =>
    obtain rfl : a = b := by simpa [sameLeaf] using h
    exact .text a
  case case6 k x l y =>
    obtain ⟨rfl, hxy⟩ : k = l ∧ x.same y = true := by simpa [sameLeaf] using h
    exact .float k hxy
  case case7 p q =>
    obtain rfl : p = q := by simpa [sameLeaf] using h
    exact .principal p
  case case8 p q =>
    obtain rfl : p = q := by simpa [sameLeaf] using h
    exact .service p
  case case9 p m q n =>
    obtain ⟨rfl, rfl⟩ : p = q ∧ m = n := by simpa [sameLeaf] using h
    exact .func p m
  case case10 => simp [sameLeaf] at h

/-- Values are equal when they are so at their outermost form, with parts that are equal. -/
theorem equal_iff (v w : Value) : v.equal w = true ↔ Matches Equal v w := by
  constructor
  · intro h
    fun_cases equal v w
    case case1 m n =>
      obtain rfl : m = n := by simpa [equal] using h
      exact .numbers m
    case case2 m kind n =>
      obtain rfl : m = n := by simpa [equal] using h
      exact .numberInt kind m
    case case3 kind m n =>
      obtain rfl : m = n := by simpa [equal] using h
      exact .intNumber kind m
    case case4 k m l n =>
      obtain ⟨rfl, rfl⟩ : k = l ∧ m = n := by simpa [equal] using h
      exact .ints k m
    case case5 v w => exact .opt h
    case case6 a b =>
      obtain rfl : a = b := by simpa [equal] using h
      exact .blobs a
    case case7 a items => exact .blobVec ((equal_blob_vec_iff a items).mp h)
    case case8 items b => exact .vecBlob ((equal_vec_blob_iff items b).mp h)
    case case9 vs ws => exact .vecs ((equalAll_iff vs ws).mp h)
    case case10 fs gs => exact .record ((equalFields_iff fs gs).mp h)
    case case11 l v i m w j =>
      rw [equal, Bool.and_eq_true] at h
      exact .variant i j (of_decide_eq_true h.1) h.2
    case case12 => exact matches_of_sameLeaf (by simpa [equal] using h)
  · intro h
    cases h with
    | float kind hxy => simp [equal, sameLeaf, hxy]
    | opt h => exact h
    | blobVec h => exact (equal_blob_vec_iff _ _).mpr h
    | vecBlob h => exact (equal_vec_blob_iff _ _).mpr h
    | vecs h => exact (equalAll_iff _ _).mpr h
    | record h => exact (equalFields_iff _ _).mpr h
    | variant i j hlabel h => exact Bool.and_eq_true_iff.mpr ⟨decide_eq_true hlabel, h⟩
    | _ => simp [equal, sameLeaf]

/-! ## Reflexivity and symmetry -/

theorem equal_self {v : Value} (h : v.NaNFree) : v.equal v = true := by
  induction v using induction_parts with
  | h v ih =>
    have hparts : ∀ u ∈ v.parts, u.equal u = true := fun u hu => ih u hu (h.part hu)
    rw [equal_iff]
    cases v with
    | float kind x => exact .float kind (Double.same_self (by simpa [isNoNaN] using h.self))
    | opt v => exact .opt (hparts v (.head _))
    | vec items => exact .vecs (List.forall₂_same.mpr hparts)
    | record fields =>
      exact .record (List.forall₂_same.mpr fun f hf => ⟨rfl, hparts f.2 (List.mem_map_of_mem hf)⟩)
    | variant label v index => exact .variant index index rfl (hparts v (.head _))
    | _ => constructor

theorem forall₂_imp_of_mem {α β : Type} {R S : α → β → Prop} {xs : List α} {ys : List β}
    (h : Forall₂ R xs ys) (himp : ∀ x ∈ xs, ∀ y ∈ ys, R x y → S x y) : Forall₂ S xs ys := by
  induction h with
  | nil => exact .nil
  | cons hxy _ ih =>
    exact .cons (himp _ (.head _) _ (.head _) hxy)
      (ih fun x hx y hy => himp x (.tail _ hx) y (.tail _ hy))

theorem Matches.imp {R S : Value → Value → Prop} {v w : Value} (h : Matches R v w)
    (himp : ∀ a ∈ v.parts, ∀ b ∈ w.parts, R a b → S a b) : Matches S v w := by
  cases h with
  | float kind hxy => exact .float kind hxy
  | opt h => exact .opt (himp _ (.head _) _ (.head _) h)
  | blobVec h => exact .blobVec h
  | vecBlob h => exact .vecBlob h
  | vecs h => exact .vecs (forall₂_imp_of_mem h himp)
  | record h =>
    refine .record (forall₂_imp_of_mem h fun f hf g hg hfg => ⟨hfg.1, ?_⟩)
    exact himp _ (List.mem_map_of_mem hf) _ (List.mem_map_of_mem hg) hfg.2
  | variant i j hlabel h => exact .variant i j hlabel (himp _ (.head _) _ (.head _) h)
  | _ => constructor

theorem Matches.swap {R : Value → Value → Prop} {v w : Value} (h : Matches R v w) :
    Matches (fun a b => R b a) w v := by
  cases h with
  | float kind hxy => exact .float kind ((Double.same_comm _ _).trans hxy)
  | opt h => exact .opt h
  | blobVec h => exact .vecBlob h
  | vecBlob h => exact .blobVec h
  | vecs h => exact .vecs h.flip
  | record h => exact .record (h.flip.imp fun f g hfg => ⟨hfg.1.symm, hfg.2⟩)
  | variant i j hlabel h => exact .variant j i hlabel.symm h
  | _ => constructor

theorem equal_symm {v w : Value} (h : v.equal w = true) : w.equal v = true := by
  induction v using induction_parts generalizing w with
  | h v ih =>
    have hparts := ((equal_iff v w).mp h).imp (S := fun a b => b.equal a = true)
      fun a ha b _ hab => ih a ha hab
    exact (equal_iff w v).mpr hparts.swap

theorem equal_comm (v w : Value) : v.equal w = w.equal v :=
  Bool.eq_iff_iff.mpr ⟨equal_symm, equal_symm⟩

/-! ## Transitivity -/

theorem forall₂_trans_of_mem {α : Type} {R S T : α → α → Prop} {xs ys zs : List α}
    (hxy : Forall₂ R xs ys) (hyz : Forall₂ S ys zs)
    (htrans : ∀ x ∈ xs, ∀ y ∈ ys, ∀ z ∈ zs, R x y → S y z → T x z) : Forall₂ T xs zs := by
  induction hxy generalizing zs with
  | nil =>
    cases hyz
    exact .nil
  | cons h _ ih =>
    cases hyz with
    | cons h' hyz =>
      refine .cons (htrans _ (.head _) _ (.head _) _ (.head _) h h') (ih hyz ?_)
      exact fun x hx y hy z hz => htrans x (.tail _ hx) y (.tail _ hy) z (.tail _ hz)

theorem byte?_of_equal {v w : Value} (htyped : v.Typed) (h : v.equal w = true) {b : UInt8}
    (hb : w.byte? = some b) : v.byte? = some b := by
  unfold byte? at hb
  split at hb
  case h_1 n =>
    cases (equal_iff _ _).mp h with
    | numberInt => exact absurd htyped.self Bool.false_ne_true
    | ints => exact hb
  case h_2 => cases hb

theorem mapM_byte?_of_equal {vs ws : List Value} (htyped : ∀ v ∈ vs, v.Typed)
    (h : Forall₂ Equal vs ws) {bytes : Bytes} (hbytes : ws.mapM byte? = some bytes) :
    vs.mapM byte? = some bytes := by
  rw [mapM_byte?_iff] at hbytes ⊢
  induction h generalizing bytes with
  | nil => exact hbytes
  | cons hvw _ ih =>
    cases hbytes with
    | cons hb hrest =>
      have ⟨hv, hvs⟩ := List.forall_mem_cons.mp htyped
      exact .cons (byte?_of_equal hv hvw hb) (ih hvs hrest)

theorem equal_trans {v w x : Value} (hv : v.WellFormed) (hx : x.WellFormed)
    (hv' : v.Typed) (hw' : w.Typed) (hx' : x.Typed) (hfloat : v.FloatFree)
    (hvw : v.equal w = true) (hwx : w.equal x = true) : v.equal x = true := by
  induction v using induction_parts generalizing w x with
  | h v ih =>
    have hparts : ∀ a ∈ v.parts, ∀ b ∈ w.parts, ∀ c ∈ x.parts, a.equal b = true →
        b.equal c = true → a.equal c = true := fun a ha b hb c hc =>
      ih a ha (hv.part ha) (hx.part hc) (hv'.part ha) (hw'.part hb) (hx'.part hc) (hfloat.part ha)
    rw [equal_iff] at hvw hwx ⊢
    cases hvw with
    | numbers | numberInt => exact absurd hv'.self Bool.false_ne_true
    | intNumber => exact absurd hw'.self Bool.false_ne_true
    | float => exact absurd hfloat.self Bool.false_ne_true
    | opt h =>
      cases hwx with
      | opt h' => exact .opt (hparts _ (.head _) _ (.head _) _ (.head _) h h')
    | blobs => exact hwx
    | @blobVec bytes items hbytes =>
      cases hwx with
      | vecBlob h' =>
        obtain rfl := Option.some.inj (hbytes.symm.trans h')
        exact .blobs bytes
      | vecs h' =>
        have hback := h'.flip.imp fun _ _ => equal_symm
        exact .blobVec (mapM_byte?_of_equal (fun _ => hx'.part) hback hbytes)
    | @vecBlob bytes items hbytes =>
      cases hwx with
      | blobs => exact .vecBlob hbytes
      | @blobVec _ items' h' =>
        -- both are the vector of these bytes
        obtain rfl := eq_map_ofByte (fun _ => hv.part) hbytes
        obtain rfl := eq_map_ofByte (fun _ => hx.part) h'
        refine .vecs (List.forall₂_same.mpr fun u hu => equal_self ?_)
        exact FloatFree.naNFree (hfloat.part hu)
    | vecs h =>
      cases hwx with
      | vecBlob h' => exact .vecBlob (mapM_byte?_of_equal (fun _ => hv'.part) h h')
      | vecs h' => exact .vecs (forall₂_trans_of_mem h h' hparts)
    | record h =>
      cases hwx with
      | record h' =>
        refine .record (forall₂_trans_of_mem h h' fun f hf g hg k hk hfg hgk =>
          ⟨hfg.1.trans hgk.1, ?_⟩)
        exact hparts _ (List.mem_map_of_mem hf) _ (List.mem_map_of_mem hg) _
          (List.mem_map_of_mem hk) hfg.2 hgk.2
    | variant i j hlabel h =>
      cases hwx with
      | variant _ k hlabel' h' =>
        exact .variant i k (hlabel.trans hlabel')
          (hparts _ (.head _) _ (.head _) _ (.head _) h h')
    | _ => exact hwx

/-! ## Names and indexes -/

mutual

/-- A value with the bare number for each label and the index zero for each variant. -/
def bare : Value → Value
  | opt v => opt (bare v)
  | vec items => vec (bareAll items)
  | record fields => record (bareFields fields)
  | variant label v _ => variant (.numbered label.id) (bare v) 0
  | v => v

def bareAll : List Value → List Value
  | [] => []
  | v :: rest => bare v :: bareAll rest

def bareFields : List (Label × Value) → List (Label × Value)
  | [] => []
  | (l, v) :: rest => (.numbered l.id, bare v) :: bareFields rest

end

theorem byte?_bare (v : Value) : v.bare.byte? = v.byte? := by
  cases v <;> rfl

theorem mapM_byte?_bareAll (items : List Value) :
    (bareAll items).mapM byte? = items.mapM byte? := by
  induction items with
  | nil => rfl
  | cons v items ih => rw [bareAll, List.mapM_cons, List.mapM_cons, byte?_bare, ih]

mutual

theorem equal_bare (v w : Value) : v.bare.equal w.bare = v.equal w := by
  cases v <;> cases w
  case opt.opt v w => exact equal_bare v w
  case vec.vec vs ws => exact equalAll_bare vs ws
  case record.record fs gs => exact equalFields_bare fs gs
  case variant.variant l v i m w j => exact congrArg (l.same m && ·) (equal_bare v w)
  case blob.vec bytes items =>
    change (blob bytes).equal (vec (bareAll items)) = _
    rw [Bool.eq_iff_iff, equal_blob_vec_iff, equal_blob_vec_iff, mapM_byte?_bareAll]
  case vec.blob items bytes =>
    change (vec (bareAll items)).equal (blob bytes) = _
    rw [Bool.eq_iff_iff, equal_vec_blob_iff, equal_vec_blob_iff, mapM_byte?_bareAll]
  all_goals rfl

theorem equalAll_bare (vs ws : List Value) :
    equalAll (bareAll vs) (bareAll ws) = equalAll vs ws := by
  cases vs <;> cases ws
  case cons.cons v vs w ws => rw [bareAll, bareAll, equalAll, equalAll, equal_bare, equalAll_bare]
  all_goals rfl

theorem equalFields_bare (fs gs : List (Label × Value)) :
    equalFields (bareFields fs) (bareFields gs) = equalFields fs gs := by
  cases fs <;> cases gs
  case cons.cons f fs g gs =>
    rw [bareFields, bareFields, equalFields, equalFields, equal_bare, equalFields_bare]
    rfl
  all_goals rfl

end

/-- Equality is a sound comparison: reflexive on values without floating-point numbers, symmetric,
the same for values that differ in names and indexes alone, and an equivalence where besides every
number has its type. -/
theorem equal_laws :
    (∀ v : Value, v.FloatFree → v.equal v = true) ∧
      (∀ v w : Value, v.equal w = w.equal v) ∧
      (∀ v v' w w' : Value, v.bare = v'.bare → w.bare = w'.bare → v.equal w = v'.equal w') ∧
      Equivalence fun v w : {v : Value // v.WellFormed ∧ v.FloatFree ∧ v.Typed} =>
        v.1.equal w.1 = true := by
  refine ⟨fun v hv => equal_self hv.naNFree, equal_comm, ?_, ?refl, equal_symm, ?trans⟩
  · intro v v' w w' hv hw
    rw [← equal_bare v w, hv, hw, equal_bare]
  case refl => exact fun v => equal_self v.2.2.1.naNFree
  case trans =>
    intro ⟨_, hv, hfloat, hv'⟩ ⟨_, _, _, hw'⟩ ⟨_, hx, _, hx'⟩
    exact equal_trans hv hx hv' hw' hx' hfloat

/-- An untyped number stands between integers of different types. -/
example : (int .nat 1).equal (number 1) = true ∧ (number 1).equal (int .int 1) = true ∧
    (int .nat 1).equal (int .int 1) = false := by decide

/-- A receipt with its key in items, under a name. -/
def receiptInItems : Value :=
  .record [(.numbered 0, .vec [.ofByte 7, .ofByte 255]),
    (.numbered 1, .variant (.named "ok") (.opt (.int .nat 1)) 1)]

/-- The same receipt with its key in a blob. -/
def receiptInBlob : Value :=
  .record [(.numbered 0, .blob [7, 255]),
    (.numbered 1, .variant (.named "ok") (.opt (.int .nat 1)) 0)]

def receiptWithoutNames : Value :=
  .record [(.numbered 0, .blob [7, 255]),
    (.numbered 1, .variant (.numbered 24860) (.opt (.int .nat 1)) 0)]

/-- The three are one receipt. -/
theorem receipts_equal :
    receiptInItems.equal receiptInItems = true ∧
      receiptInBlob.equal receiptInItems = receiptInItems.equal receiptInBlob ∧
      receiptInBlob.equal receiptInItems = receiptWithoutNames.equal receiptInItems ∧
      receiptInItems.equal receiptWithoutNames = true := by
  have ⟨hself, hcomm, hbare, hequiv⟩ := equal_laws
  refine ⟨hself _ (by decide), hcomm _ _, hbare _ _ _ _ (by rfl) rfl, ?_⟩
  exact hequiv.trans (x := ⟨receiptInItems, by decide⟩) (y := ⟨receiptInBlob, by decide⟩)
    (z := ⟨receiptWithoutNames, by decide⟩) (by decide) (by decide)

end Candid.Value

end CanisterShell
