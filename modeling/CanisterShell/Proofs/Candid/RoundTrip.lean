import CanisterShell.Proofs.Candid.Decoding
import CanisterShell.Proofs.Candid.Emitted
import CanisterShell.Proofs.Candid.Normal
import Mathlib

/-!
# Messages read back

What is encoded at some types decodes, at these types, to the normal forms of the values
(`decodeAs_encodeAs`).  The induction is on the value, as the writer's is; what it carries from part
to part is that the declared type and the one of the table mean the same.
-/

namespace CanisterShell.Candid

open List (Forall₂)

namespace Wire

variable {scope wire : Scope} {t u t' u' : Ty} {bytes : Bytes}

attribute [local simp] valueBytes normal alignValue

/-- A value comes back from its bytes at a type of the table and is then aligned to a value. -/
def ComesBackAs (scope wire : Scope) (t u : Ty) (bytes : Bytes) (v : Value) : Prop :=
  ∃ w, Carries wire u bytes w ∧ alignValue scope w t = .ok v

/-- Whatever a value is written as comes back in normal form. -/
def RoundTrips (scope wire : Scope) (v : Value) : Prop :=
  ∀ t u bytes, valueBytes scope v t = .ok bytes → Agree scope wire t u →
    ComesBackAs scope wire t u bytes (normal scope v t)

/-! ## Values without parts -/

theorem reserved_comesBack (ht : scope.resolve t = .ok .reserved)
    (hu : wire.resolve u = .ok .reserved) :
    ComesBackAs scope wire t u [] .reserved := by
  refine ⟨.reserved, .prim hu (.pure _), ?_⟩
  exact alignValue_of_leaf ht rfl rfl

theorem leaf_comesBack {v : Value} (h : leafBytes v t' = .ok bytes) (ht : scope.resolve t = .ok t')
    (hu : wire.resolve u = .ok u') (hhead : Head (Agree scope wire) t' u') :
    ComesBackAs scope wire t u bytes (normalLeaf v t') :=
  ⟨normalLeaf v t', carries_leaf h hhead hu, alignValue_normalLeaf h ht⟩

theorem leaf_roundTrips {v : Value}
    (hwrite : ∀ t, valueBytes scope v t = do leafBytes v (← scope.resolve t))
    (hnormal : ∀ t, normal scope v t = normalLeaf v (scope.behind t)) : RoundTrips scope wire v := by
  intro t u bytes h hagree
  obtain ⟨t', u', ht, hu, hhead⟩ := hagree.head
  rw [hwrite, ht] at h
  rw [hnormal, Scope.behind_of_resolve ht]
  exact leaf_comesBack h ht hu hhead

/-! ## Vectors -/

theorem isByte_eq (h : Agree scope wire t u) : ∃ b, scope.isByte t = .ok b ∧ wire.isByte u = .ok b ∧
    (scope.behind t).isByte = b := by
  obtain ⟨t', u', ht, hu, hhead⟩ := h.head
  refine ⟨t'.isByte, Scope.isByte_of_resolve ht, ?_, ?_⟩
  · rw [Scope.isByte_of_resolve hu]
    cases hhead <;> rfl
  · rw [Scope.behind_of_resolve ht]

theorem opt_roundTrips {item : Value} (ih : RoundTrips scope wire item) :
    RoundTrips scope wire (.opt item) := by
  intro t u bytes h hagree
  obtain ⟨t', u', ht, hu, hhead⟩ := hagree.head
  simp only [valueBytes, ht] at h
  simp only [normal, Scope.behind_of_resolve ht]
  cases hhead with
  | @opt a b hitem =>
    obtain ⟨bytes', hbytes, h⟩ : ∃ bytes', valueBytes scope item a = .ok bytes' ∧ _ :=
      Attempt.bind_ok_iff.mp h
    cases h
    obtain ⟨w, hcarries, halign⟩ := ih _ _ _ hbytes hitem
    refine ⟨.opt w, .opt hu hcarries, ?_⟩
    simp only [alignValue, ht]
    show (alignValue scope w a >>= _) = _
    rw [halign]
    rfl
  | prim p =>
    cases p with
    | reserved =>
      cases h
      exact reserved_comesBack ht hu
    | _ => cases h
  | _ => cases h

/-- Items come back one behind the other. -/
def ItemsRoundTrip (scope wire : Scope) (vs : List Value) : Prop :=
  ∀ t u bytes, itemsBytes scope vs t = .ok bytes → Agree scope wire t u →
    ∃ ws, CarriesAll wire (List.replicate vs.length u) bytes ws ∧
      alignItems scope ws t = .ok (normalItems scope vs t)

theorem items_roundTrip {vs : List Value} (h : ∀ v ∈ vs, RoundTrips scope wire v) :
    ItemsRoundTrip scope wire vs := by
  induction vs with
  | nil =>
    intro t u bytes hbytes _
    cases hbytes
    exact ⟨[], .nil wire, rfl⟩
  | cons v vs ih =>
    obtain ⟨hv, hvs⟩ := List.forall_mem_cons.mp h
    intro t u bytes hbytes hagree
    obtain ⟨front, hfront, hbytes⟩ := Attempt.bind_ok_iff.mp hbytes
    obtain ⟨back, hback, hbytes⟩ := Attempt.bind_ok_iff.mp hbytes
    cases hbytes
    obtain ⟨w, hcarries, halign⟩ := hv t u front hfront hagree
    obtain ⟨ws, hcarriesAll, halignAll⟩ := ih hvs t u back hback hagree
    refine ⟨w :: ws, .cons hcarries hcarriesAll, ?_⟩
    simp only [alignItems, halign, halignAll]
    rfl

theorem integerBytes_nat8 {n : Int} (h : integerBytes .nat8 n = .ok bytes) :
    bytes = [UInt8.ofNat n.toNat] := by
  rw [integerBytes] at h
  split at h
  · next hholds =>
    cases h
    simp [IntKind.holds, IntKind.least?, IntKind.greatest?] at hholds
    have hlow : (n % 2 ^ (8 * 1)).toNat % 256 = n.toNat := by omega
    show [UInt8.ofNat ((n % 2 ^ (8 * 1)).toNat % 256)] = _
    rw [hlow]
  · cases h

theorem byte_of_valueBytes {v : Value} (ht : scope.resolve t = .ok .nat8)
    (h : valueBytes scope v t = .ok bytes) : ∃ b, bytes = [b] ∧ (normal scope v t).byte? = some b := by
  cases v with
  | number n | int kind n =>
    simp only [valueBytes, ht] at h
    refine ⟨UInt8.ofNat n.toNat, integerBytes_nat8 h, ?_⟩
    simp only [normal, Scope.behind_of_resolve ht]
    rfl
  | _ =>
    simp only [valueBytes, ht] at h
    cases h

theorem bytes_of_itemsBytes {vs : List Value} (ht : scope.resolve t = .ok .nat8)
    (h : itemsBytes scope vs t = .ok bytes) :
    bytes.length = vs.length ∧ (normalItems scope vs t).filterMap Value.byte? = bytes := by
  induction vs generalizing bytes with
  | nil =>
    cases h
    exact ⟨rfl, rfl⟩
  | cons v vs ih =>
    obtain ⟨front, hfront, h⟩ := Attempt.bind_ok_iff.mp h
    obtain ⟨back, hback, h⟩ := Attempt.bind_ok_iff.mp h
    cases h
    obtain ⟨b, rfl, hb⟩ := byte_of_valueBytes ht hfront
    obtain ⟨hlen, hitems⟩ := ih hback
    refine ⟨?_, ?_⟩
    · rw [List.length_append, hlen, List.length_singleton, List.length_cons, Nat.add_comm]
    · rw [normalItems, List.filterMap_cons_some hb, hitems]
      rfl

theorem resolve_of_isByte (h : scope.isByte t = .ok true) : scope.resolve t = .ok .nat8 := by
  obtain ⟨t', ht, hbyte⟩ := Attempt.bind_ok_iff.mp h
  rw [ht]
  cases t' with
  | prim p =>
    cases p with
    | int kind => cases kind <;> first | rfl | cases hbyte
    | _ => cases hbyte
  | _ => cases hbyte

theorem vec_roundTrips {items : List Value} (ih : ∀ v ∈ items, RoundTrips scope wire v) :
    RoundTrips scope wire (.vec items) := by
  intro t u bytes h hagree
  obtain ⟨t', u', ht, hu, hhead⟩ := hagree.head
  simp only [valueBytes, ht] at h
  simp only [normal, Scope.behind_of_resolve ht]
  cases hhead with
  | @vec a b hitem =>
    obtain ⟨bytes', hbytes, h⟩ : ∃ bytes', itemsBytes scope items a = .ok bytes' ∧ _ :=
      Attempt.bind_ok_iff.mp h
    cases h
    obtain ⟨isByte, hscope, hwire, hbehind⟩ := isByte_eq hitem
    simp only [hbehind]
    cases isByte with
    | false =>
      obtain ⟨ws, hcarries, halign⟩ := items_roundTrip ih a b bytes' hbytes hitem
      refine ⟨.vec ws, .vec hu hwire hcarries, ?_⟩
      simp only [alignValue, ht]
      show (alignItems scope ws a >>= _) = _
      rw [halign]
      rfl
    | true =>
      obtain ⟨hlen, hitems⟩ := bytes_of_itemsBytes (resolve_of_isByte hscope) hbytes
      rw [if_pos rfl, Value.blobOf, hitems, ← hlen]
      exact ⟨.blob bytes', .blob hu hwire bytes', alignValue_of_leaf ht rfl rfl⟩
  | prim p =>
    cases p with
    | reserved =>
      cases h
      exact reserved_comesBack ht hu
    | _ => cases h
  | _ => cases h

theorem itemsBytes_eq_mapM (vs : List Value) (t : Ty) :
    itemsBytes scope vs t = do return (← vs.mapM (valueBytes scope · t)).flatten := by
  induction vs with
  | nil => rfl
  | cons v vs ih =>
    rw [itemsBytes, List.mapM_cons]
    simp only [ih, bind_assoc, pure_bind, List.flatten_cons]

theorem valueBytes_blob {item : Ty} (hu : scope.resolve t = .ok (.vec item))
    (hbyte : scope.isByte item = .ok false) (bytes : Bytes) :
    valueBytes scope (.blob bytes) t = valueBytes scope (.vec (bytes.map .ofByte)) t := by
  simp only [valueBytes, hu, Attempt.ok_bind, hbyte, itemsBytes_eq_mapM, List.mapM_map,
    List.length_map, bind_assoc, pure_bind]
  rfl

theorem ofByte_roundTrips (b : UInt8) : RoundTrips scope wire (.ofByte b) :=
  leaf_roundTrips (fun _ => rfl) fun _ => rfl

theorem normalItems_ofByte (bytes : Bytes) (t : Ty) :
    normalItems scope (bytes.map .ofByte) t =
      bytes.map fun b => normalLeaf (.ofByte b) (scope.behind t) := by
  induction bytes with
  | nil => rfl
  | cons b bytes ih =>
    simp only [List.map_cons, normalItems, ih]
    rfl

theorem blob_roundTrips (data : Bytes) : RoundTrips scope wire (.blob data) := by
  intro t u bytes h hagree
  obtain ⟨t', u', ht, hu, hhead⟩ := hagree.head
  simp only [normal, Scope.behind_of_resolve ht]
  cases hhead with
  | @vec a b hitem =>
    obtain ⟨isByte, hscope, hwire, hbehind⟩ := isByte_eq hitem
    simp only [hbehind]
    cases isByte with
    | true =>
      simp only [valueBytes, ht, hscope, Attempt.ok_bind] at h
      cases h
      exact ⟨.blob data, .blob hu hwire data, alignValue_of_leaf ht rfl rfl⟩
    | false =>
      rw [valueBytes_blob ht hscope] at h
      have hitems : ∀ v ∈ data.map Value.ofByte, RoundTrips scope wire v :=
        List.forall_mem_map.mpr fun b _ => ofByte_roundTrips b
      have hvec := vec_roundTrips hitems t u bytes h hagree
      simp only [normal, Scope.behind_of_resolve ht, hbehind, normalItems_ofByte] at hvec
      exact hvec
  | prim p =>
    simp only [valueBytes, ht] at h
    cases p with
    | reserved =>
      cases h
      exact reserved_comesBack ht hu
    | _ => cases h
  | _ =>
    simp only [valueBytes, ht] at h
    cases h

/-! ## Records and variants -/

theorem absent_comesBack {label : Label} (h : absentBytes scope label t = .ok bytes)
    (hagree : Agree scope wire t u) :
    ComesBackAs scope wire t u bytes ((absentValue? (scope.behind t)).getD .null) := by
  obtain ⟨t', u', ht, hu, hhead⟩ := hagree.head
  rw [absentBytes, ht] at h
  rw [Scope.behind_of_resolve ht]
  cases hhead with
  | opt hitem =>
    cases h
    exact ⟨.nothing, .nothing hu, alignValue_of_leaf ht rfl rfl⟩
  | prim p =>
    cases p with
    | reserved =>
      cases h
      exact reserved_comesBack ht hu
    | null =>
      cases h
      exact ⟨.null, .prim hu (.pure _), alignValue_of_leaf ht rfl rfl⟩
    | _ => cases h
  | _ => cases h

theorem field_comesBack {fields : List (Label × Value)}
    (ih : ∀ f ∈ fields, RoundTrips scope wire f.2) {label : Label}
    (h : (match lookup? label (fieldWriters scope fields) with
      | some write => write t
      | none => absentBytes scope label t) = .ok bytes) (hagree : Agree scope wire t u) :
    ComesBackAs scope wire t u bytes
      (normalField scope (fieldNormalizers scope fields) label t) := by
  rw [fieldWriters_eq_map, lookup?_map] at h
  rw [normalField, fieldNormalizers_eq_map, lookup?_map]
  cases hfind : lookup? label fields with
  | some v =>
    rw [hfind] at h
    obtain ⟨l, hmem⟩ := mem_of_lookup?_eq_some hfind
    exact ih (l, v) hmem t u bytes h hagree
  | none =>
    rw [hfind] at h
    exact absent_comesBack h hagree

theorem fields_comeBack {fields : List (Label × Value)}
    (ih : ∀ f ∈ fields, RoundTrips scope wire f.2) {expected gs : List (Label × Ty)}
    (hagree : Forall₂ (fun f g => g.1 = .numbered f.1.id ∧ Agree scope wire f.2 g.2) expected gs)
    {parts : List Bytes}
    (hparts : Forall₂ (fun f part => (match lookup? f.1 (fieldWriters scope fields) with
      | some write => write f.2
      | none => absentBytes scope f.1 f.2) = .ok part) expected parts) :
    ∃ ws, CarriesAll wire (gs.map (·.2)) parts.flatten ws ∧
      Forall₂ (fun f w => w.1.id = f.1.id ∧ alignValue scope w.2 f.2 =
        .ok (normalField scope (fieldNormalizers scope fields) f.1 f.2))
        expected ((gs.map (·.1)).zip ws) := by
  induction hagree generalizing parts with
  | nil =>
    cases hparts
    exact ⟨[], .nil wire, .nil⟩
  | @cons f g expected gs hfg _ ihs =>
    cases hparts with
    | cons hpart hparts =>
      obtain ⟨w, hcarries, halign⟩ := field_comesBack ih hpart hfg.2
      obtain ⟨ws, hcarriesAll, hall⟩ := ihs hparts
      refine ⟨w :: ws, .cons hcarries hcarriesAll, .cons ⟨?_, halign⟩ hall⟩
      rw [hfg.1]
      rfl

theorem parts_of_recordBytes {fields : List (Label × Writer)} {expected : List (Label × Ty)}
    (h : recordBytes scope t fields expected = .ok bytes) :
    ∃ parts, Forall₂ (fun f part => (match lookup? f.1 fields with
      | some write => write f.2
      | none => absentBytes scope f.1 f.2) = .ok part) expected parts ∧ bytes = parts.flatten := by
  rw [recordBytes] at h
  split at h
  · cases h
  · obtain ⟨parts, hparts, h⟩ := Attempt.bind_ok_iff.mp h
    cases h
    exact ⟨parts, Attempt.mapM_ok_iff.mp hparts, rfl⟩

theorem alignRecord_of_forall₂ {fields : List (Label × Value)} {expected : List (Label × Ty)}
    {n : Label × Ty → Value} (hasc : Ascending expected)
    (h : Forall₂ (fun f w => w.1.id = f.1.id ∧ alignValue scope w.2 f.2 = .ok (n f)) expected
      fields) :
    alignRecord scope (fieldAligners scope fields) expected =
      .ok (.record (expected.map fun f => (f.1, n f))) := by
  have hfields : ∀ f ∈ expected, ∃ w, lookup? f.1 fields = some w ∧
      alignValue scope w f.2 = .ok (n f) := exists_lookup?_of_forall₂ hasc h
  have hids : expected.map (·.1.id) = (expected.map fun f => (f.1, n f)).map (·.1.id) := by
    rw [List.map_map]
    rfl
  rw [alignRecord, Attempt.mapM_eq_map (g := fun f => (f.1, n f)) ?_]
  · exact Value.mkRecord_of_ascending (hasc.of_ids hids)
  · rintro ⟨label, u⟩ hf
    obtain ⟨w, hw, halign⟩ := hfields _ hf
    dsimp only at hw halign ⊢
    rw [fieldAligners_eq_map, lookup?_map, hw]
    show (alignValue scope w u >>= _) = _
    rw [halign]
    rfl

theorem record_roundTrips {fields : List (Label × Value)}
    (ih : ∀ f ∈ fields, RoundTrips scope wire f.2) : RoundTrips scope wire (.record fields) := by
  intro t u bytes h hagree
  obtain ⟨t', u', ht, hu, hhead⟩ := hagree.head
  simp only [valueBytes, ht] at h
  simp only [normal, Scope.behind_of_resolve ht]
  cases hhead with
  | @record expected gs hasc hall =>
    obtain ⟨parts, hparts, rfl⟩ := parts_of_recordBytes h
    obtain ⟨ws, hcarries, haligns⟩ := fields_comeBack ih hall hparts
    refine ⟨_, .record hu (hasc.of_ids (ids_of_forall₂ hall)) hcarries, ?_⟩
    simp only [alignValue, ht]
    exact alignRecord_of_forall₂ hasc haligns
  | prim p =>
    cases p with
    | reserved =>
      cases h
      exact reserved_comesBack ht hu
    | _ => cases h
  | _ => cases h

theorem caseOf?_eq_some {label : Label} {cases : List (Label × Ty)} {i : Nat}
    (h : caseOf? label cases = some (i, t)) :
    ∃ expected, cases.findIdx? (fun c => c.1.same label) = some i ∧ cases[i]? = some (expected, t) ∧
      expected.same label := by
  obtain ⟨j, hj, h⟩ := Option.bind_eq_some_iff.mp h
  obtain ⟨⟨expected, t'⟩, hc, h⟩ := Option.map_eq_some_iff.mp h
  cases h
  obtain ⟨hlt, hsame, -⟩ := List.findIdx?_eq_some_iff_getElem.mp hj
  rw [List.getElem?_eq_getElem hlt] at hc
  rw [Option.some.inj hc] at hsame
  exact ⟨expected, hj, by rw [List.getElem?_eq_getElem hlt, Option.some.inj hc], hsame⟩

theorem alignValue_variant {label expected : Label} {w : Value} {cases : List (Label × Ty)}
    {i index : Nat} (ht : scope.resolve t = .ok (.variant cases))
    (hfind : cases.findIdx? (fun c => c.1.same label) = some i)
    (hget : cases[i]? = some (expected, u)) :
    alignValue scope (.variant label w index) t = do
      return .variant expected (← alignValue scope w u) i := by
  simp only [alignValue, ht, Attempt.ok_bind, hfind, hget]

theorem variant_roundTrips {label : Label} {item : Value} {index : Nat}
    (ih : RoundTrips scope wire item) : RoundTrips scope wire (.variant label item index) := by
  intro t u bytes h hagree
  obtain ⟨t', u', ht, hu, hhead⟩ := hagree.head
  simp only [valueBytes, ht, Attempt.ok_bind] at h
  simp only [normal, Scope.behind_of_resolve ht]
  cases hhead with
  | @variant cases gs hasc hall =>
    cases hcase : caseOf? label cases with
    | none =>
      simp only [hcase] at h
      cases h
    | some c =>
      obtain ⟨i, u₁⟩ := c
      simp only [hcase] at h
      obtain ⟨bytes', hbytes, h⟩ := Attempt.bind_ok_iff.mp h
      cases h
      obtain ⟨expected, hfind, hget, hsame⟩ := caseOf?_eq_some hcase
      obtain ⟨⟨label', u₂⟩, hget', hlabel, hitem⟩ := exists_getElem?_of_forall₂ hall hget
      obtain ⟨w, hcarries, halign⟩ := ih u₁ u₂ bytes' hbytes hitem
      -- the case has the same place under the number that the table has for its label
      have hfind' : cases.findIdx? (fun c => c.1.same label') = some i := by
        have hsame' : (fun c : Label × Ty => c.1.same label') = fun c => c.1.same label := by
          funext c
          have hid : expected.id = label.id := of_decide_eq_true hsame
          rw [show label' = .numbered expected.id from hlabel, Label.same, Label.same, ← hid]
          rfl
        rw [hsame', hfind]
      refine ⟨.variant label' w i, .variant hu hget' hcarries, ?_⟩
      rw [alignValue_variant ht hfind' hget, halign]
      simp only [hfind, hget, Option.bind_some, Option.map_some]
      rfl
  | prim p =>
    cases p with
    | reserved =>
      cases h
      exact reserved_comesBack ht hu
    | _ => cases h
  | _ => cases h

/-! ## Whole messages -/

mutual

theorem value_roundTrips (v : Value) : RoundTrips scope wire v := by
  cases v with
  | opt item => exact opt_roundTrips (value_roundTrips item)
  | vec items => exact vec_roundTrips (values_roundTrip items)
  | blob data => exact blob_roundTrips data
  | record fields => exact record_roundTrips (fields_roundTrip fields)
  | variant label item index => exact variant_roundTrips (value_roundTrips item)
  | _ => exact leaf_roundTrips (fun _ => rfl) fun _ => rfl

theorem values_roundTrip (vs : List Value) : ∀ v ∈ vs, RoundTrips scope wire v := by
  cases vs with
  | nil => nofun
  | cons v vs => exact List.forall_mem_cons.mpr ⟨value_roundTrips v, values_roundTrip vs⟩

theorem fields_roundTrip (fields : List (Label × Value)) :
    ∀ f ∈ fields, RoundTrips scope wire f.2 := by
  cases fields with
  | nil => nofun
  | cons f fields =>
    obtain ⟨label, v⟩ := f
    exact List.forall_mem_cons.mpr ⟨value_roundTrips v, fields_roundTrip fields⟩

end

theorem args_comeBack {ts us : List Ty} (hagree : Forall₂ (Agree scope wire) ts us)
    {vs : List Value} (hlen : ts.length = vs.length) {parts : List Bytes}
    (hparts : (vs.zip ts).mapM (fun (v, t) => valueBytes scope v t) = .ok parts) :
    ∃ ws, CarriesAll wire us parts.flatten ws ∧
      ∀ total got, alignAll scope total got ws ts = .ok (List.zipWith (normal scope) vs ts) := by
  induction hagree generalizing vs parts with
  | nil =>
    obtain rfl := List.eq_nil_of_length_eq_zero hlen.symm
    cases hparts
    exact ⟨[], .nil wire, fun _ _ => rfl⟩
  | @cons t u ts us htu _ ih =>
    obtain _ | ⟨v, vs⟩ := vs
    · cases hlen
    rw [List.zip_cons_cons, List.mapM_cons] at hparts
    obtain ⟨part, hpart, hparts⟩ := Attempt.bind_ok_iff.mp hparts
    obtain ⟨parts', hparts', hparts⟩ := Attempt.bind_ok_iff.mp hparts
    cases hparts
    obtain ⟨w, hcarries, halign⟩ := value_roundTrips v t u part hpart htu
    obtain ⟨ws, hcarriesAll, halignAll⟩ := ih (Nat.succ.inj hlen) hparts'
    refine ⟨w :: ws, .cons hcarries hcarriesAll, fun total got => ?_⟩
    rw [alignAll, halign, halignAll]
    rfl

end Wire

open Wire

theorem encodeAs_ok {scope : Scope} {vs : List Value} {ts : List Ty} {bytes : Bytes}
    (h : encodeAs scope vs ts = .ok bytes) :
    ts.length = vs.length ∧ ∃ rs table parts, refs scope ts = .ok (rs, table) ∧
      (vs.zip ts).mapM (fun (v, t) => valueBytes scope v t) = .ok parts ∧
      bytes = magic ++ ((table.bytes ++ (leb rs.length ++ rs.flatMap sleb)) ++ parts.flatten) := by
  rw [encodeAs] at h
  dsimp only at h
  by_cases hlen : ts.length = vs.length
  · rw [if_neg (not_not.mpr hlen)] at h
    obtain ⟨⟨rs, table⟩, hrefs, h⟩ := Attempt.bind_ok_iff.mp h
    obtain ⟨parts, hparts, h⟩ := Attempt.bind_ok_iff.mp h
    cases h
    refine ⟨hlen, rs, table, parts, hrefs, hparts, ?_⟩
    simp only [List.append_assoc]
  · rw [if_pos hlen] at h
    cases h

theorem decodeArgs_of_carriesAll {head body : Bytes} {wire : Scope} {us : List Ty} {vs : List Value}
    (hheader : Reader.Takes readHeader head (wire, us)) (h : CarriesAll wire us body vs) :
    decodeArgs (magic ++ (head ++ body)) = .ok vs := by
  obtain ⟨depth, hvalues⟩ := h
  have hread := hvalues []
  rw [List.append_nil] at hread
  exact decodeArgs_of_opens ⟨_, rfl, hheader body⟩ hread

/-- What is encoded at ordered types decodes at them to the normal forms of the values. -/
theorem decodeAs_encodeAs {scope : Scope} (hscope : scope.Ordered) {ts : List Ty}
    (hts : ∀ t ∈ ts, t.Ordered) {vs : List Value} {bytes : Bytes}
    (h : encodeAs scope vs ts = .ok bytes) :
    decodeAs scope bytes ts = .ok (List.zipWith (normal scope) vs ts) := by
  obtain ⟨hlen, rs, table, parts, hrefs, hparts, rfl⟩ := encodeAs_ok h
  obtain ⟨wire, us, hheader, hagree⟩ := readHeader_takes hscope hts hrefs
  obtain ⟨ws, hcarries, halign⟩ := args_comeBack hagree hlen hparts
  rw [decodeAs, decodeArgs_of_carriesAll hheader hcarries]
  exact halign ts.length ws.length

/-- Lists of natural numbers, by a name that is recursive. -/
def chainScope : Scope :=
  [("Chain", .opt (.record [(.named "head", .nat), (.named "tail", .var "Chain")]))]

/-- A chain of one link, with a literal for the number and without the end, comes back with a
natural number and the empty option. -/
theorem chain_of_one_comes_back :
    ∃ bytes, encodeAs chainScope [.opt (.record [(.named "head", .number 1)])] [.var "Chain"] =
        .ok bytes ∧
      decodeAs chainScope bytes [.var "Chain"] =
        .ok [.opt (.record [(.named "head", .int .nat 1), (.named "tail", .nothing)])] := by
  have hordered : chainScope.Ordered := by
    refine List.forall_mem_singleton.mpr (.opt (.record (by decide) ?_))
    exact List.forall_mem_cons.mpr ⟨.prim _, List.forall_mem_singleton.mpr (.var _)⟩
  have hencode : encodeAs chainScope [.opt (.record [(.named "head", .number 1)])] [.var "Chain"] =
      .ok [68, 73, 68, 76, 2, 110, 1, 108, 2, 160, 210, 172, 168, 4, 125, 144, 237, 218, 231, 4, 0,
        1, 0, 1, 1, 0] := by
    cbv
  refine ⟨_, hencode, ?_⟩
  rw [decodeAs_encodeAs hordered (List.forall_mem_singleton.mpr (.var _)) hencode]
  cbv

end CanisterShell.Candid
