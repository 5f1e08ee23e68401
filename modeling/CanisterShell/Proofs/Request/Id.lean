import CanisterShell.Proofs.Attempt
import CanisterShell.Proofs.Candid.Leb128
import CanisterShell.Proofs.Order
import CanisterShell.Proofs.Text.Utf8
import CanisterShell.Request.Envelope
import Mathlib.Data.List.Perm.Basic
import Mathlib.Data.List.Sort

/-!
# What the id of a request identifies

Two requests have the same id exactly when they say the same, whatever order their entries stand in
and whichever entries without a value they have, unless two different byte strings that were hashed
for them have the same digest (`id_eq_iff`).

The digests all have one length, so what is hashed for a list or for a map falls apart into the
digests that it was put together from; a key says which kind of value it has, and values of one kind
are told apart by their hashes (`Kind.identified`).
-/

namespace CanisterShell

namespace Sha2

theorem length_foldl_block32 (blocks : List Bytes) {state : Array UInt32} (h : state.size = 8) :
    (blocks.foldl block32 state).size = 8 := by
  induction blocks generalizing state with
  | nil => exact h
  | cons block blocks ih => exact ih rfl

theorem length_run32 {start : Array UInt32} (h : start.size = 8) (message : Bytes) :
    (run32 start message).length = 32 := by
  have hsize := length_foldl_block32 (pieces 64 (pad 64 8 message)) h
  rw [run32, List.length_flatMap, List.map_congr_left fun w _ => Bytes.length_ofNatBE 4 w.toNat,
    List.map_const', List.sum_replicate_nat, Array.length_toList, hsize]

end Sha2

theorem length_sha256 (message : Bytes) : (sha256 message).length = 32 :=
  Sha2.length_run32 rfl message

namespace Request

open Candid

/-! ## What is hashed along the way -/

/-- The byte string whose digest is the hash of a value. -/
def preimage : Datum → Attempt Bytes
  | .bytes b => .ok b
  | .text s => .ok (Utf8.encode s)
  | .int n => Wire.lebOfInt n
  | .list items => (itemHashes items).map List.flatten
  | .map entries => (pairHashes entries).map fun hs => (sortBy bytesLe hs).flatten
  | .frozen (.list items) => (itemHashes items).map List.flatten
  | _ => .error (.fault .wrongType)

theorem valueHash_eq (d : Datum) : valueHash d = (preimage d).map sha256 := by
  fun_cases preimage d with
  | case1 b => rfl
  | case2 s => rfl
  | case3 n => rfl
  | case4 items => rw [valueHash, Attempt.map_map]
  | case5 entries => rw [valueHash, Attempt.map_map]; rfl
  | case6 items => rw [valueHash, Attempt.map_map]
  | case7 => rw [valueHash] <;> first | assumption | rfl

mutual

/-- The byte strings that are hashed for the hash of a value: those of its parts and its own. -/
def valueInputs : Datum → List Bytes
  | .list items => itemInputs items ++ (preimage (.list items)).toOption.toList
  | .map entries => pairInputs entries ++ (preimage (.map entries)).toOption.toList
  | .frozen (.list items) => itemInputs items ++ (preimage (.list items)).toOption.toList
  | d => (preimage d).toOption.toList

def itemInputs : List Datum → List Bytes
  | [] => []
  | d :: rest => valueInputs d ++ itemInputs rest

def pairInputs : List (Datum × Datum) → List Bytes
  | [] => []
  | (_, .null) :: rest => pairInputs rest
  | (k, v) :: rest => (preimage k).toOption.toList ++ valueInputs v ++ pairInputs rest

end

def idInputs (content : Content) : List Bytes := valueInputs (.map content)

/-- Two different byte strings, one of each list, have the same digest. -/
def Collide (xs ys : List Bytes) : Prop := ∃ x ∈ xs, ∃ y ∈ ys, x ≠ y ∧ sha256 x = sha256 y

theorem Collide.mono {xs ys xs' ys' : List Bytes} (h : Collide xs ys) (hx : xs ⊆ xs')
    (hy : ys ⊆ ys') : Collide xs' ys' := by
  obtain ⟨x, hmem, y, hmem', hne⟩ := h
  exact ⟨x, hx hmem, y, hy hmem', hne⟩

theorem Collide.symm {xs ys : List Bytes} (h : Collide xs ys) : Collide ys xs := by
  obtain ⟨x, hx, y, hy, hne, heq⟩ := h
  exact ⟨y, hy, x, hx, hne.symm, heq.symm⟩

theorem eq_of_not_collide {xs ys : List Bytes} (h : ¬Collide xs ys) {x y : Bytes} (hx : x ∈ xs)
    (hy : y ∈ ys) (heq : sha256 x = sha256 y) : x = y := by
  by_contra hne
  exact h ⟨x, hx, y, hy, hne, heq⟩

theorem mem_toList_of_ok {x : Attempt Bytes} {b : Bytes} (h : x = .ok b) :
    b ∈ x.toOption.toList := by
  rw [h]
  exact List.mem_singleton_self b

theorem mem_valueInputs {d : Datum} {x : Bytes} (h : preimage d = .ok x) : x ∈ valueInputs d := by
  unfold valueInputs
  split
  · exact List.mem_append_right _ (mem_toList_of_ok h)
  · exact List.mem_append_right _ (mem_toList_of_ok h)
  · exact List.mem_append_right _ (mem_toList_of_ok h)
  · exact mem_toList_of_ok h

theorem valueHash_ok {d : Datum} {h : Bytes} (hd : valueHash d = .ok h) :
    ∃ x ∈ valueInputs d, preimage d = .ok x ∧ h = sha256 x := by
  rw [valueHash_eq] at hd
  match hx : preimage d with
  | .error e => rw [hx] at hd; cases hd
  | .ok x =>
    rw [hx] at hd
    cases hd
    exact ⟨x, mem_valueInputs hx, rfl, rfl⟩

theorem length_of_valueHash {d : Datum} {h : Bytes} (hd : valueHash d = .ok h) : h.length = 32 := by
  obtain ⟨x, -, -, rfl⟩ := valueHash_ok hd
  exact length_sha256 x

/-! ## Digests put together -/

/-- Byte strings of one positive length can be told from what they make up together. -/
theorem eq_of_flatten_eq {size : Nat} (hsize : 0 < size) {xs ys : List Bytes}
    (hx : ∀ x ∈ xs, x.length = size) (hy : ∀ y ∈ ys, y.length = size)
    (h : xs.flatten = ys.flatten) : xs = ys := by
  have hlength := congrArg List.length h
  rw [List.length_flatten, List.length_flatten, List.map_congr_left hx, List.map_congr_left hy,
    List.map_const', List.map_const', List.sum_replicate_nat, List.sum_replicate_nat] at hlength
  refine List.eq_iff_flatten_eq.mpr ⟨h, ?_⟩
  rw [List.map_congr_left hx, List.map_congr_left hy, List.map_const', List.map_const',
    Nat.eq_of_mul_eq_mul_right hsize hlength]

theorem itemHashes_eq (items : List Datum) : itemHashes items = items.mapM valueHash := by
  induction items with
  | nil => rfl
  | cons d items ih => rw [itemHashes, List.mapM_cons, ih]

theorem length_of_itemHashes {items : List Datum} {hs : List Bytes}
    (h : itemHashes items = .ok hs) : ∀ digest ∈ hs, digest.length = 32 := by
  intro digest hmem
  rw [itemHashes_eq] at h
  obtain ⟨d, -, hd⟩ := Attempt.exists_of_mapM_ok h hmem
  exact length_of_valueHash hd

/-! ## Values told apart by their hashes -/

/-- Values of a kind have hashes, and two of them with the same hash are the same unless two of the
byte strings hashed for them collide. -/
structure Identified (P : Datum → Prop) : Prop where
  hashes : ∀ d, P d → ∃ h, valueHash d = .ok h
  inj : ∀ d d' x, P d → P d' → ¬Collide (valueInputs d) (valueInputs d') →
    preimage d = .ok x → preimage d' = .ok x → d = d'

theorem Identified.eq {P : Datum → Prop} (hP : Identified P) {d d' : Datum} {h : Bytes} (hd : P d)
    (hd' : P d') (hfree : ¬Collide (valueInputs d) (valueInputs d')) (hhash : valueHash d = .ok h)
    (hhash' : valueHash d' = .ok h) : d = d' := by
  obtain ⟨x, hx, hpre, rfl⟩ := valueHash_ok hhash
  obtain ⟨y, hy, hpre', heq⟩ := valueHash_ok hhash'
  obtain rfl := eq_of_not_collide hfree hx hy heq
  exact hP.inj d d' x hd hd' hfree hpre hpre'

theorem identified_bytes : Identified fun d => ∃ b, d = .bytes b where
  hashes := by
    rintro d ⟨b, rfl⟩
    exact ⟨_, rfl⟩
  inj := by
    rintro d d' x ⟨b, rfl⟩ ⟨b', rfl⟩ - ⟨⟩ ⟨⟩
    rfl

theorem encode_injective {s s' : String} (h : Utf8.encode s = Utf8.encode s') : s = s' := by
  have hdecode := congrArg Utf8.decode? h
  rwa [Utf8.decode?_encode, Utf8.decode?_encode, Option.some_inj] at hdecode

theorem identified_text : Identified fun d => ∃ s, d = .text s where
  hashes := by
    rintro d ⟨s, rfl⟩
    exact ⟨_, rfl⟩
  inj := by
    rintro d d' x ⟨s, rfl⟩ ⟨s', rfl⟩ - hx hx'
    rw [← hx'] at hx
    rw [encode_injective (Except.ok.inj hx)]

theorem leb_injective {m n : Nat} (h : Wire.leb m = Wire.leb n) : m = n := by
  have hread := Wire.readLeb_leb m []
  rw [h, Wire.readLeb_leb n []] at hread
  cases hread
  rfl

theorem identified_positive : Identified fun d => ∃ n, 0 < n ∧ d = .int n where
  hashes := by
    rintro d ⟨n, hn, rfl⟩
    rw [valueHash, Wire.lebOfInt_of_nonneg hn.le]
    exact ⟨_, rfl⟩
  inj := by
    rintro d d' x ⟨m, hm, rfl⟩ ⟨n, hn, rfl⟩ - hx hx'
    rw [preimage, Wire.lebOfInt_of_nonneg hm.le] at hx
    rw [preimage, Wire.lebOfInt_of_nonneg hn.le, ← hx] at hx'
    have hnat : n.toNat = m.toNat := leb_injective (Except.ok.inj hx')
    rw [show m = n by omega]

theorem itemHashes_injective {P : Datum → Prop} (hP : Identified P) {items items' : List Datum}
    {hs : List Bytes} (hitems : ∀ d ∈ items, P d) (hitems' : ∀ d ∈ items', P d)
    (hfree : ¬Collide (itemInputs items) (itemInputs items')) (hhash : itemHashes items = .ok hs)
    (hhash' : itemHashes items' = .ok hs) : items = items' := by
  induction items generalizing items' hs with
  | nil =>
    cases hhash
    cases items' with
    | nil => rfl
    | cons d' items' =>
      obtain ⟨h, -, hrest⟩ := Attempt.bind_ok_iff.mp hhash'
      obtain ⟨hs, -, hrest⟩ := Attempt.bind_ok_iff.mp hrest
      cases hrest
  | cons d items ih =>
    obtain ⟨h, hd, hrest⟩ := Attempt.bind_ok_iff.mp hhash
    obtain ⟨hs, hds, hrest⟩ := Attempt.bind_ok_iff.mp hrest
    cases hrest
    cases items' with
    | nil => cases hhash'
    | cons d' items' =>
      obtain ⟨h', hd', hrest⟩ := Attempt.bind_ok_iff.mp hhash'
      obtain ⟨hs', hds', hrest⟩ := Attempt.bind_ok_iff.mp hrest
      cases hrest
      obtain ⟨hP_d, hP_items⟩ := List.forall_mem_cons.mp hitems
      obtain ⟨hP_d', hP_items'⟩ := List.forall_mem_cons.mp hitems'
      have hhead : d = d' := hP.eq hP_d hP_d' (fun hc => hfree (hc.mono
        (List.subset_append_left _ _) (List.subset_append_left _ _))) hd hd'
      have htail : items = items' := ih hP_items hP_items' (fun hc => hfree (hc.mono
        (List.subset_append_right _ _) (List.subset_append_right _ _))) hds hds'
      rw [hhead, htail]

theorem identified_list {P : Datum → Prop} (hP : Identified P) :
    Identified fun d => ∃ items, (∀ i ∈ items, P i) ∧ d = .list items where
  hashes := by
    rintro d ⟨items, hitems, rfl⟩
    obtain ⟨hs, hhash⟩ := Attempt.exists_mapM_ok fun i hi => hP.hashes i (hitems i hi)
    rw [valueHash, itemHashes_eq, hhash]
    exact ⟨_, rfl⟩
  inj := by
    rintro d d' x ⟨items, hitems, rfl⟩ ⟨items', hitems', rfl⟩ hfree hx hx'
    obtain ⟨hs, hhash, rfl⟩ := Attempt.map_ok_iff.mp hx
    obtain ⟨hs', hhash', hflatten⟩ := Attempt.map_ok_iff.mp hx'
    obtain rfl := eq_of_flatten_eq (by decide) (length_of_itemHashes hhash')
      (length_of_itemHashes hhash) hflatten
    rw [itemHashes_injective hP hitems hitems' (fun hc => hfree (hc.mono
      (List.subset_append_left _ _) (List.subset_append_left _ _))) hhash hhash']

/-! ## What requests say -/

/-- The paths of the state, each a list of labels. -/
def pathData (paths : List (List Bytes)) : List Datum := paths.map fun labels =>
  .list (labels.map .bytes)

/-- A content that says what a request says that can be valid at some time. -/
inductive Built : Content → Prop where
  | call (requestType : String) (sender canister : Principal) (method : String) (arg : Bytes)
      {expiry : Int} (h : 0 < expiry) :
      Built (callContent requestType sender canister method arg expiry)
  | readState (sender : Principal) (paths : List (List Bytes)) {expiry : Int} (h : 0 < expiry) :
      Built (readStateContent sender (pathData paths) expiry)

/-- The entries that have a value. -/
def present (content : Content) : Content := content.filter fun e =>
  match e.2 with
  | .null => false
  | _ => true

/-- What stands under a key. -/
inductive Kind where
  | blob
  | text
  | positive
  | paths

/-- The values of a kind. -/
def Kind.Holds : Kind → Datum → Prop
  | blob, d => ∃ b, d = .bytes b
  | text, d => ∃ s, d = .text s
  | positive, d => ∃ n, 0 < n ∧ d = .int n
  | paths, d => ∃ items,
      (∀ i ∈ items, ∃ labels, (∀ l ∈ labels, ∃ b, l = .bytes b) ∧ i = .list labels) ∧
      d = .list items

theorem Kind.identified (k : Kind) : Identified k.Holds := by
  cases k with
  | blob => exact identified_bytes
  | text => exact identified_text
  | positive => exact identified_positive
  | paths => exact identified_list (identified_list identified_bytes)

/-- The kind of the value that requests have under a key. -/
def kindOf (key : String) : Kind :=
  if key = "request_type" ∨ key = "method_name" then .text
  else if key = "ingress_expiry" then .positive
  else if key = "paths" then .paths
  else .blob

/-- An entry whose key says which kind of value it has. -/
def Regular (e : Datum × Datum) : Prop := ∃ key, e.1 = .text key ∧ (kindOf key).Holds e.2

theorem holds_pathData (paths : List (List Bytes)) :
    Kind.paths.Holds (.list (pathData paths)) := by
  refine ⟨_, fun i hi => ?_, rfl⟩
  obtain ⟨labels, -, rfl⟩ := List.mem_map.mp hi
  refine ⟨_, fun l hl => ?_, rfl⟩
  obtain ⟨b, -, rfl⟩ := List.mem_map.mp hl
  exact ⟨b, rfl⟩

theorem Built.regular {content : Content} (h : Built content) : ∀ e ∈ content, Regular e := by
  cases h with
  | call requestType sender canister method arg hpos =>
    simp only [callContent, List.forall_mem_cons]
    exact ⟨⟨_, rfl, _, rfl⟩, ⟨_, rfl, _, rfl⟩, ⟨_, rfl, _, rfl⟩, ⟨_, rfl, _, rfl⟩, ⟨_, rfl, _, rfl⟩,
      ⟨_, rfl, _, hpos, rfl⟩, List.forall_mem_nil _⟩
  | readState sender paths hpos =>
    simp only [readStateContent, List.forall_mem_cons]
    exact ⟨⟨_, rfl, _, rfl⟩, ⟨_, rfl, _, rfl⟩, ⟨_, rfl, holds_pathData paths⟩,
      ⟨_, rfl, _, hpos, rfl⟩, List.forall_mem_nil _⟩

theorem Built.nodup {content : Content} (h : Built content) : content.Nodup := by
  cases h with
  | call => simp [callContent]
  | readState => simp [readStateContent]

/-! ## The id -/

/-- The digests of a key and its value. -/
def pairHash (e : Datum × Datum) : Attempt Bytes := do
  let key ← keyHash e.1
  let h ← valueHash e.2
  return key ++ h

theorem pairHashes_eq (content : Content) :
    pairHashes content = (present content).mapM pairHash := by
  induction content with
  | nil => rfl
  | cons e content ih =>
    obtain ⟨k, v⟩ := e
    cases v with
    | null => exact ih
    | _ =>
      rw [pairHashes, ih]
      · show _ = (_ :: present content).mapM pairHash
        rw [List.mapM_cons, pairHash]
        simp only [bind_assoc, pure_bind]
      · nofun

theorem keyHash_text (key : String) : keyHash (.text key) = .ok (sha256 (Utf8.encode key)) := rfl

theorem exists_pairHash {e : Datum × Datum} (h : Regular e) : ∃ p, pairHash e = .ok p := by
  obtain ⟨key, hkey, hvalue⟩ := h
  obtain ⟨digest, hdigest⟩ := (kindOf key).identified.hashes e.2 hvalue
  rw [pairHash, hkey, hdigest]
  exact ⟨_, rfl⟩

theorem pairHash_ok {key : String} {v : Datum} {p : Bytes} (h : pairHash (.text key, v) = .ok p) :
    ∃ digest, valueHash v = .ok digest ∧ p = sha256 (Utf8.encode key) ++ digest := by
  rw [pairHash, keyHash_text, Attempt.ok_bind] at h
  obtain ⟨digest, hdigest, h⟩ := Attempt.bind_ok_iff.mp h
  cases h
  exact ⟨digest, hdigest, rfl⟩

theorem length_of_pairHashes {content : Content} {ps : List Bytes} (h : pairHashes content = .ok ps)
    (hregular : ∀ e ∈ present content, Regular e) : ∀ p ∈ ps, p.length = 64 := by
  intro p hp
  rw [pairHashes_eq] at h
  obtain ⟨⟨k, v⟩, he, hp⟩ := Attempt.exists_of_mapM_ok h hp
  obtain ⟨key, rfl, -⟩ := hregular _ he
  obtain ⟨digest, hdigest, rfl⟩ := pairHash_ok hp
  rw [List.length_append, length_sha256, length_of_valueHash hdigest]

/-- The byte strings that are hashed for an entry. -/
def entryInputs (e : Datum × Datum) : List Bytes :=
  (preimage e.1).toOption.toList ++ valueInputs e.2

theorem pairInputs_eq (content : Content) :
    pairInputs content = (present content).flatMap entryInputs := by
  induction content with
  | nil => rfl
  | cons e content ih =>
    obtain ⟨k, v⟩ := e
    cases v with
    | null => exact ih
    | _ =>
      rw [pairInputs, ih]
      · rfl
      · nofun

theorem entryInputs_subset {content : Content} {e : Datum × Datum} (h : e ∈ present content) :
    entryInputs e ⊆ idInputs content := by
  intro x hx
  refine List.mem_append_left _ ?_
  rw [pairInputs_eq]
  exact List.mem_flatMap.mpr ⟨e, h, hx⟩

/-- Two entries with the same digests are the same, unless byte strings hashed for them collide. -/
theorem eq_of_pairHash {e e' : Datum × Datum} {p : Bytes} (he : Regular e) (he' : Regular e')
    (hfree : ¬Collide (entryInputs e) (entryInputs e')) (h : pairHash e = .ok p)
    (h' : pairHash e' = .ok p) : e = e' := by
  obtain ⟨k, v⟩ := e
  obtain ⟨k', v'⟩ := e'
  obtain ⟨key, rfl, hv⟩ := he
  obtain ⟨key', rfl, hv'⟩ := he'
  obtain ⟨digest, hdigest, rfl⟩ := pairHash_ok h
  obtain ⟨digest', hdigest', hsplit⟩ := pairHash_ok h'
  obtain ⟨hkeys, rfl⟩ := List.append_inj hsplit (by rw [length_sha256, length_sha256])
  obtain rfl : key = key' := encode_injective (eq_of_not_collide hfree
    (List.mem_append_left _ (mem_toList_of_ok rfl)) (List.mem_append_left _ (mem_toList_of_ok rfl))
    hkeys)
  have hvalues : v = v' := (kindOf key).identified.eq hv hv' (fun hc => hfree (hc.mono
    (List.subset_append_right _ _) (List.subset_append_right _ _))) hdigest hdigest'
  rw [hvalues]

/-! ## The order of the digests -/

theorem bytesLe_total (a b : Bytes) : bytesLe a b ∨ bytesLe b a := by
  induction a generalizing b with
  | nil => exact .inl rfl
  | cons x xs ih =>
    cases b with
    | nil => exact .inr rfl
    | cons y ys =>
      simp only [bytesLe, Bool.or_eq_true, Bool.and_eq_true, decide_eq_true_eq]
      rcases Nat.lt_trichotomy x.toNat y.toNat with hlt | heq | hlt
      · exact .inl (.inl (UInt8.lt_iff_toNat_lt.mpr hlt))
      · obtain rfl := UInt8.toNat_inj.mp heq
        exact (ih ys).imp (fun h => .inr ⟨rfl, h⟩) fun h => .inr ⟨rfl, h⟩
      · exact .inr (.inl (UInt8.lt_iff_toNat_lt.mpr hlt))

theorem bytesLe_trans (a b c : Bytes) (hab : bytesLe a b) (hbc : bytesLe b c) : bytesLe a c := by
  induction a generalizing b c with
  | nil => rfl
  | cons x xs ih =>
    cases b with
    | nil => cases hab
    | cons y ys =>
      cases c with
      | nil => cases hbc
      | cons z zs =>
        simp only [bytesLe, Bool.or_eq_true, Bool.and_eq_true, decide_eq_true_eq] at hab hbc ⊢
        rcases hab with hxy | ⟨rfl, hxs⟩
        · rcases hbc with hyz | ⟨rfl, -⟩
          · exact .inl (UInt8.lt_trans hxy hyz)
          · exact .inl hxy
        · rcases hbc with hyz | ⟨rfl, hys⟩
          · exact .inl hyz
          · exact .inr ⟨rfl, ih ys zs hxs hys⟩

theorem bytesLe_antisymm (a b : Bytes) (hab : bytesLe a b) (hba : bytesLe b a) : a = b := by
  induction a generalizing b with
  | nil =>
    cases b with
    | nil => rfl
    | cons y ys => cases hba
  | cons x xs ih =>
    cases b with
    | nil => cases hab
    | cons y ys =>
      simp only [bytesLe, Bool.or_eq_true, Bool.and_eq_true, decide_eq_true_eq] at hab hba
      rcases hab with hxy | ⟨rfl, hxs⟩
      · rcases hba with hyx | ⟨rfl, -⟩
        · exact absurd hyx (UInt8.lt_asymm hxy)
        · exact absurd hxy (UInt8.lt_irrefl y)
      · rcases hba with hyx | ⟨-, hys⟩
        · exact absurd hyx (UInt8.lt_irrefl x)
        · rw [ih ys hxs hys]

theorem sortBy_bytesLe_eq_iff {ps qs : List Bytes} :
    sortBy bytesLe ps = sortBy bytesLe qs ↔ ps.Perm qs := by
  constructor
  · intro h
    have hps := perm_sortBy bytesLe ps
    rw [h] at hps
    exact hps.symm.trans (perm_sortBy bytesLe qs)
  · intro h
    have hperm : (sortBy bytesLe ps).Perm (sortBy bytesLe qs) :=
      (perm_sortBy bytesLe ps).trans (h.trans (perm_sortBy bytesLe qs).symm)
    exact hperm.eq_of_pairwise (fun a b _ _ => bytesLe_antisymm a b)
      (pairwise_sortBy bytesLe_total bytesLe_trans ps)
      (pairwise_sortBy bytesLe_total bytesLe_trans qs)

/-! ## The id -/

theorem exists_pairHashes {content : Content} (h : ∀ e ∈ present content, Regular e) :
    ∃ ps, pairHashes content = .ok ps := by
  rw [pairHashes_eq]
  exact Attempt.exists_mapM_ok fun e he => exists_pairHash (h e he)

theorem pairHashes_perm {x y : Content} {ps qs : List Bytes} (h : (present x).Perm (present y))
    (hx : pairHashes x = .ok ps) (hy : pairHashes y = .ok qs) : ps.Perm qs := by
  rw [pairHashes_eq, Attempt.mapM_ok_iff] at hx hy
  obtain ⟨rs, hrs, hperm⟩ := List.perm_comp_forall₂ h hy
  have hsame : ps = rs := List.right_unique_forall₂' (fun e p p' hp hp' => by
    rw [hp] at hp'
    exact Except.ok.inj hp') hx hrs
  rw [hsame]
  exact hperm

/-- Unless byte strings collide, each entry can be told from its digests. -/
theorem present_subset {x y : Content} {ps qs : List Bytes} (hregular : ∀ e ∈ present x, Regular e)
    (hregular' : ∀ e ∈ present y, Regular e) (hfree : ¬Collide (idInputs x) (idInputs y))
    (hx : pairHashes x = .ok ps) (hy : pairHashes y = .ok qs) (h : ps ⊆ qs) :
    present x ⊆ present y := by
  intro e he
  obtain ⟨p, hp⟩ := exists_pairHash (hregular e he)
  rw [pairHashes_eq] at hx hy
  obtain ⟨e', he', hp'⟩ := Attempt.exists_of_mapM_ok hy (h (Attempt.mem_of_mapM_ok hx he hp))
  obtain rfl : e = e' := eq_of_pairHash (hregular e he) (hregular' e' he')
    (fun hc => hfree (hc.mono (entryInputs_subset he) (entryInputs_subset he'))) hp hp'
  exact he'

theorem Built.regular_present {a x : Content} (ha : Built a) (h : (present x).Perm a) :
    ∀ e ∈ present x, Regular e := fun e he => ha.regular e (h.mem_iff.mp he)

theorem id_eq (content : Content) : id content = valueHash (.map content) := by rw [id, valueHash]

/-- The digests of the entries of two requests with the same id are the same, in some order. -/
theorem pairHashes_perm_of_id_eq {x y : Content} {ps qs : List Bytes} {digest : Bytes}
    (hregular : ∀ e ∈ present x, Regular e) (hregular' : ∀ e ∈ present y, Regular e)
    (hfree : ¬Collide (idInputs x) (idInputs y)) (hps : pairHashes x = .ok ps)
    (hqs : pairHashes y = .ok qs) (hid : id x = .ok digest) (hid' : id y = .ok digest) :
    ps.Perm qs := by
  obtain ⟨s, hs, hpre, rfl⟩ := valueHash_ok ((id_eq _).symm.trans hid)
  obtain ⟨t, ht, hpre', heq⟩ := valueHash_ok ((id_eq _).symm.trans hid')
  obtain rfl := eq_of_not_collide hfree hs ht heq
  rw [preimage, hps] at hpre
  rw [preimage, hqs, ← hpre] at hpre'
  have hx : ∀ p ∈ sortBy bytesLe ps, p.length = 64 := fun p hp =>
    length_of_pairHashes hps hregular p ((perm_sortBy bytesLe ps).mem_iff.mp hp)
  have hy : ∀ p ∈ sortBy bytesLe qs, p.length = 64 := fun p hp =>
    length_of_pairHashes hqs hregular' p ((perm_sortBy bytesLe qs).mem_iff.mp hp)
  exact (sortBy_bytesLe_eq_iff.mp (eq_of_flatten_eq (by decide) hy hx (Except.ok.inj hpre'))).symm

theorem nodup_present {a x : Content} (ha : Built a) (h : (present x).Perm a) :
    (present x).Nodup := h.nodup_iff.mpr ha.nodup

/-- Two requests have the same id exactly when they have the same entries, in whatever order and
with whichever entries without a value, unless two different byte strings hashed for them have the
same digest. -/
theorem id_eq_iff {a b x y : Content} (ha : Built a) (hb : Built b) (hx : (present x).Perm a)
    (hy : (present y).Perm b) : ∃ m n, id x = .ok m ∧ id y = .ok n ∧
      ((m = n ↔ (present x).Perm (present y)) ∨ Collide (idInputs x) (idInputs y)) := by
  have hregular := ha.regular_present hx
  have hregular' := hb.regular_present hy
  obtain ⟨ps, hps⟩ := exists_pairHashes hregular
  obtain ⟨qs, hqs⟩ := exists_pairHashes hregular'
  have hid : id x = .ok (hashOfPairs ps) := by
    rw [id, hps]
    rfl
  have hid' : id y = .ok (hashOfPairs qs) := by
    rw [id, hqs]
    rfl
  refine ⟨_, _, hid, hid', or_iff_not_imp_right.mpr fun hfree => ⟨fun heq => ?_, fun hperm => ?_⟩⟩
  · rw [heq] at hid
    have hdigests := pairHashes_perm_of_id_eq hregular hregular' hfree hps hqs hid hid'
    have hthere := present_subset hregular hregular' hfree hps hqs hdigests.subset
    have hback := present_subset hregular' hregular (fun hc => hfree hc.symm) hqs hps
      hdigests.symm.subset
    exact (List.perm_ext_iff_of_nodup (nodup_present ha hx) (nodup_present hb hy)).mpr fun e =>
      ⟨fun he => hthere he, fun he => hback he⟩
  · rw [hashOfPairs, hashOfPairs, sortBy_bytesLe_eq_iff.mpr (pairHashes_perm hperm hps hqs)]

/-- A call whose entries are written backwards, with an entry without a value, and a question about
a path of the state. -/
theorem id_eq_iff_call_readState :
    let call := callContent "call" .anonymous .management "greet" [1] 7
    let question := readStateContent .anonymous (pathData [[[1], [2]]]) 7
    ∃ m n, id ((.text "nonce", .null) :: call.reverse) = .ok m ∧ id question = .ok n ∧
      ((m = n ↔ (present ((.text "nonce", .null) :: call.reverse)).Perm (present question)) ∨
        Collide (idInputs ((.text "nonce", .null) :: call.reverse)) (idInputs question)) := by
  intro call question
  exact id_eq_iff (.call _ _ _ _ _ (by decide)) (.readState _ _ (by decide))
    (List.reverse_perm call) (.refl _)

end Request

end CanisterShell
