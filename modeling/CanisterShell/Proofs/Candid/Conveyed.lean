import CanisterShell.Proofs.Candid.Resolving
import CanisterShell.Proofs.Candid.SelfDescribed

/-!
# What a message conveys

A value that is written at a type is read, by a reader without expectations, as a value that depends on
the type only (`Conveyed`).  A record whose fields are those of the type is conveyed field by field
under the numbers of its labels, and a message of one value conveys it (`Conveyed.message`).
-/

namespace CanisterShell.Candid

open List (Forall₂)

theorem Ty.Ordered.of_resolve {scope : Scope} {t u : Ty} (h : scope.resolve t = .ok u)
    (hu : u.Ordered) : t.Ordered := by
  by_cases hvar : ∃ name, t = .var name
  · obtain ⟨name, rfl⟩ := hvar
    exact .var name
  · rw [Scope.resolve_of_ne_var fun name ht => hvar ⟨name, ht⟩] at h
    cases h
    exact hu

namespace Wire

variable {scope wire : Scope} {t u : Ty} {v w : Value}

theorem isByte_of_agree (h : Agree scope wire t u) (ht : scope.resolve t = .ok .nat8) :
    wire.isByte u = .ok true := by
  obtain ⟨t', u', ht', hu, hhead⟩ := h.head
  rw [ht] at ht'
  cases ht'
  cases hhead
  exact Scope.isByte_of_resolve hu

theorem encodeAs_singleton (scope : Scope) (v : Value) (t : Ty) :
    encodeAs scope [v] [t] = (do
      let (rs, table) ← refs scope [t]
      let part ← valueBytes scope v t
      return magic ++ ((table.bytes ++ (leb rs.length ++ rs.flatMap sleb)) ++ part)) := by
  have hlength : [t].length = [v].length := rfl
  rw [encodeAs, if_neg (not_not.mpr hlength)]
  simp only [pure_bind, bind_assoc, List.zip_cons_cons, List.zip_nil_right, List.mapM_cons,
    List.mapM_nil, List.flatten_singleton, List.append_assoc]

/-- At the type a value is written as some bytes, and at every type of a table that means the same they
are read as another. -/
def Conveyed (scope : Scope) (t : Ty) (v w : Value) : Prop :=
  ∃ bytes, valueBytes scope v t = .ok bytes ∧
    ∀ wire u, Agree scope wire t u → Carries wire u bytes w

namespace Conveyed

theorem leaf {t' : Ty} {bytes : Bytes} (ht : scope.resolve t = .ok t')
    (hwrite : valueBytes scope v t = do leafBytes v (← scope.resolve t))
    (hbytes : leafBytes v t' = .ok bytes) : Conveyed scope t v (normalLeaf v t') := by
  refine ⟨bytes, by rw [hwrite, ht]; exact hbytes, fun wire u hagree => ?_⟩
  obtain ⟨t'', u', ht'', hu, hhead⟩ := hagree.head
  rw [ht] at ht''
  cases ht''
  exact carries_leaf hbytes hhead hu

theorem blob {item : Ty} (ht : scope.resolve t = .ok (.vec item))
    (hitem : scope.resolve item = .ok .nat8) (bytes : Bytes) :
    Conveyed scope t (.blob bytes) (.blob bytes) := by
  refine ⟨leb bytes.length ++ bytes, ?_, fun wire u hagree => ?_⟩
  · simp only [valueBytes, ht, Attempt.ok_bind, Scope.isByte_of_resolve hitem]
    rfl
  · obtain ⟨t', u', ht', hu, hhead⟩ := hagree.head
    rw [ht] at ht'
    cases ht'
    cases hhead with
    | vec h => exact .blob hu (isByte_of_agree h hitem) bytes

theorem opt {item : Ty} (ht : scope.resolve t = .ok (.opt item)) (h : Conveyed scope item v w) :
    Conveyed scope t (.opt v) (.opt w) := by
  obtain ⟨bytes, hbytes, hcarries⟩ := h
  refine ⟨1 :: bytes, ?_, fun wire u hagree => ?_⟩
  · simp only [valueBytes, ht, Attempt.ok_bind, hbytes]
    rfl
  · obtain ⟨t', u', ht', hu, hhead⟩ := hagree.head
    rw [ht] at ht'
    cases ht'
    cases hhead with
    | opt hitem => exact .opt hu (hcarries wire _ hitem)

theorem items {item : Ty} {vs ws : List Value} (h : Forall₂ (Conveyed scope item) vs ws) :
    ∃ bytes, itemsBytes scope vs item = .ok bytes ∧
      ∀ wire u, Agree scope wire item u → CarriesAll wire (List.replicate vs.length u) bytes ws := by
  induction h with
  | nil => exact ⟨[], rfl, fun wire u _ => .nil wire⟩
  | cons hv _ ih =>
    obtain ⟨front, hfront, hcarries⟩ := hv
    obtain ⟨back, hback, hcarriesAll⟩ := ih
    refine ⟨front ++ back, ?_, fun wire u hagree => ?_⟩
    · simp only [itemsBytes, hfront, hback, Attempt.ok_bind]
      rfl
    · exact .cons (hcarries wire u hagree) (hcarriesAll wire u hagree)

theorem vec {item : Ty} (ht : scope.resolve t = .ok (.vec item))
    (hitem : scope.isByte item = .ok false) {vs ws : List Value}
    (h : Forall₂ (Conveyed scope item) vs ws) : Conveyed scope t (.vec vs) (.vec ws) := by
  obtain ⟨bytes, hbytes, hcarries⟩ := items h
  refine ⟨leb vs.length ++ bytes, ?_, fun wire u hagree => ?_⟩
  · simp only [valueBytes, ht, Attempt.ok_bind, hbytes]
    rfl
  · obtain ⟨t', u', ht', hu, hhead⟩ := hagree.head
    rw [ht] at ht'
    cases ht'
    cases hhead with
    | @vec _ u hagree =>
      obtain ⟨isByte, hscope, hwire, -⟩ := isByte_eq hagree
      rw [hitem] at hscope
      cases hscope
      exact .vec hu hwire (hcarries wire u hagree)

theorem fields {all fs : List (Label × Value × Value)} (hasc : Ascending all)
    (hsub : ∀ f ∈ fs, f ∈ all) {expected : List (Label × Ty)}
    (h : Forall₂ (fun e f => f.1 = e.1 ∧ Conveyed scope e.2 f.2.1 f.2.2) expected fs) :
    ∃ parts, Forall₂ (fun e part =>
        (match lookup? e.1 (fieldWriters scope (all.map fun (l, v, _) => (l, v))) with
        | some write => write e.2
        | none => absentBytes scope e.1 e.2) = .ok part) expected parts ∧
      ∀ (wire : Scope) (gs : List (Label × Ty)),
        Forall₂ (fun e g => g.1 = .numbered e.1.id ∧ Agree scope wire e.2 g.2) expected gs →
        CarriesAll wire (gs.map (·.2)) parts.flatten (fs.map (·.2.2)) := by
  induction h with
  | nil =>
    refine ⟨[], .nil, fun wire gs hgs => ?_⟩
    cases hgs
    exact .nil wire
  | @cons e f expected fs hf _ ih =>
    obtain ⟨hfirst, hrest⟩ := List.forall_mem_cons.mp hsub
    obtain ⟨hlabel, bytes, hbytes, hcarries⟩ := hf
    obtain ⟨parts, hparts, hcarriesAll⟩ := ih hrest
    refine ⟨bytes :: parts, .cons ?_ hparts, fun wire gs hgs => ?_⟩
    · have hfind : lookup? e.1 all = some f.2 :=
        lookup?_of_mem hasc hfirst (congrArg Label.id hlabel)
      rw [fieldWriters_eq_map, lookup?_map, lookup?_map, hfind]
      exact hbytes
    · cases hgs with
      | cons hg hgs => exact .cons (hcarries wire _ hg.2) (hcarriesAll wire _ hgs)

theorem record {expected : List (Label × Ty)} (ht : scope.resolve t = .ok (.record expected))
    {fs : List (Label × Value × Value)} (hasc : Ascending expected)
    (h : Forall₂ (fun e f => f.1 = e.1 ∧ Conveyed scope e.2 f.2.1 f.2.2) expected fs) :
    Conveyed scope t (.record (fs.map fun (l, v, _) => (l, v)))
      (.record (fs.map fun (l, _, w) => (.numbered l.id, w))) := by
  have hids : expected.map (·.1.id) = fs.map (·.1.id) :=
    map_id_of_forall₂ (h.imp fun e f hf => congrArg Label.id hf.1)
  obtain ⟨parts, hparts, hcarries⟩ := fields (hasc.of_ids hids) (fun _ => id) h
  refine ⟨parts.flatten, ?_, fun wire u hagree => ?_⟩
  · have hexpected : (fieldWriters scope (fs.map fun (l, v, _) => (l, v))).find?
        (fun f => !expected.any fun e => e.1.same f.1) = none := by
      refine all_expected ?_
      rw [hids, List.map_map]
      rfl
    simp only [valueBytes, ht, Attempt.ok_bind, recordBytes, hexpected]
    exact Attempt.bind_ok_iff.mpr ⟨parts, Attempt.mapM_ok_iff.mpr hparts, rfl⟩
  · obtain ⟨t', u', ht', hu, hhead⟩ := hagree.head
    rw [ht] at ht'
    cases ht'
    cases hhead with
    | @record _ gs _ hgs =>
      have hlabels : gs.map (·.1) = fs.map fun (l, _, _) => .numbered l.id := by
        have hnumbers := congrArg (List.map Label.numbered) hids
        rw [labels_of_forall₂ hgs, hnumbers, List.map_map]
        rfl
      have hrecord := Carries.record hu (hasc.of_ids (ids_of_forall₂ hgs)) (hcarries wire gs hgs)
      rwa [hlabels, List.zip_map'] at hrecord

theorem variant {cases : List (Label × Ty)} {i : Nat} {expected label : Label} {item : Ty}
    (index : Nat) (ht : scope.resolve t = .ok (.variant cases))
    (hfind : cases.findIdx? (fun c => c.1.same label) = some i)
    (hget : cases[i]? = some (expected, item)) (h : Conveyed scope item v w) :
    Conveyed scope t (.variant label v index) (.variant (.numbered expected.id) w i) := by
  obtain ⟨bytes, hbytes, hcarries⟩ := h
  have hcase : caseOf? label cases = some (i, item) := by
    rw [caseOf?, hfind, Option.bind_some, hget]
    rfl
  refine ⟨leb i ++ bytes, ?_, fun wire u hagree => ?_⟩
  · simp only [valueBytes, ht, Attempt.ok_bind, hcase, hbytes]
    rfl
  · obtain ⟨t', u', ht', hu, hhead⟩ := hagree.head
    rw [ht] at ht'
    cases ht'
    cases hhead with
    | variant _ hgs =>
      obtain ⟨⟨_, u₁⟩, hget', rfl, hitem⟩ := exists_getElem?_of_forall₂ hgs hget
      exact .variant hu hget' (hcarries wire u₁ hitem)

/-- A message of one value conveys it. -/
theorem message (h : Conveyed scope t v w) (hscope : scope.Ordered) (ht : t.Ordered)
    (hresolves : Resolves scope t) :
    ∃ bytes, encodeAs scope [v] [t] = .ok bytes ∧ decodeArgs bytes = .ok [w] := by
  obtain ⟨part, hpart, hcarries⟩ := h
  obtain ⟨rs, table, hrefs⟩ := exists_refs_of_resolves (List.forall_mem_singleton.mpr hresolves)
  obtain ⟨wire, us, hheader, hagree⟩ :=
    readHeader_takes hscope (List.forall_mem_singleton.mpr ht) hrefs
  cases hagree with
  | @cons _ u _ _ hu hnone =>
    cases hnone
    refine ⟨magic ++ ((table.bytes ++ (leb rs.length ++ rs.flatMap sleb)) ++ part), ?_, ?_⟩
    · rw [encodeAs_singleton, hrefs, Attempt.ok_bind]
      exact Attempt.bind_ok_iff.mpr ⟨part, hpart, rfl⟩
    · exact decodeArgs_of_carriesAll hheader (.singleton (hcarries wire u hu))

end Conveyed

end Wire

end CanisterShell.Candid
