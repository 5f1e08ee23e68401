import CanisterShell.Proofs.Candid.RoundTrip
import CanisterShell.Proofs.Interface
import CanisterShell.Proofs.Principal
import CanisterShell.Proofs.Syntax.Writing
import CanisterShell.Shell.Invocation

/-!
# Where calls go

A canister is named by the text of its principal or by a variable that holds it.  The texts of
principals are one for each principal, blanks and upper case aside, and each has a dash, which no
variable has in its name; so neither is taken for the other (`Principal.texts_one_to_one`).

A call of the management canister goes to the canister that its arguments name.  The arguments are
encoded at the types of the method and decoded without them, so that the name of the field is gone by
then; its number is not, and what is read at that number is the principal that was given
(`Routing.effectiveCanister_encode`).
-/

namespace CanisterShell

/-! ## Names of canisters -/

open Candid (isIdentifier)

theorem Principal.ofText_identifier {name : String} (h : isIdentifier name = true) :
    ∃ fault, ofText name = .error fault := by
  cases hp : ofText name with
  | error fault => exact ⟨fault, rfl⟩
  | ok p =>
    obtain ⟨_, _, _, _, hname⟩ := Syntax.name_spec h
    exact absurd (hname '-' (ofText_ok_iff.mp hp).dash_mem) (by decide)

theorem Env.canister_identifier {name : String} (h : isIdentifier name = true) {env : Env}
    {p : Principal} : env.canister name = .ok p ↔
      env.vars.find? name = some (.principal p) ∨ env.vars.find? name = some (.service p) := by
  obtain ⟨fault, hfault⟩ := Principal.ofText_identifier h
  rw [Env.canister, hfault]
  dsimp only
  split
  case h_1 hvar => simp [hvar]
  case h_2 hvar => simp [hvar]
  case h_3 hprincipal hservice =>
    constructor
    · intro h
      cases h
    · rintro (h | h)
      · exact (hprincipal p h).elim
      · exact (hservice p h).elim

namespace Principal

/-- **Texts of principals** are one for each byte string of at most 29 bytes.  Every text that is the
text of a principal but for blanks around it and upper case is read as that principal, and every other
text is refused; the name of a variable is, so that it stands for nothing but what the variable holds. -/
theorem texts_one_to_one :
    (∀ (bytes : Bytes) (h : bytes.length ≤ 29), ofText (toText ⟨bytes, h⟩) = .ok ⟨bytes, h⟩) ∧
    (∀ text p, ofText text = .ok p ↔ Spells text p) ∧
    (∀ text, (∀ p, ¬Spells text p) → ∃ fault, ofText text = .error fault) ∧
    ∀ name, isIdentifier name = true → (∃ fault, ofText name = .error fault) ∧
      ∀ (env : Env) (p : Principal), env.canister name = .ok p ↔
        env.vars.find? name = some (.principal p) ∨ env.vars.find? name = some (.service p) := by
  refine ⟨fun bytes h => ofText_toText ⟨bytes, h⟩, fun text p => ofText_ok_iff, fun text h => ?_,
    fun name h => ⟨ofText_identifier h, fun env p => Env.canister_identifier h⟩⟩
  cases hp : ofText text with
  | error fault => exact ⟨fault, rfl⟩
  | ok p => exact absurd (ofText_ok_iff.mp hp) (h p)

/-- The management canister by its text, between blanks and in upper case; neither no characters nor
the name of a variable stand for a principal. -/
theorem texts_one_to_one_management :
    ofText (toText ⟨[], by decide⟩) = .ok ⟨[], by decide⟩ ∧
    ofText " AAAAA-AA\n" = .ok management ∧
    (∃ fault, ofText "" = .error fault) ∧
    ∃ fault, ofText "aaaaa_aa" = .error fault :=
  ⟨texts_one_to_one.1 [] (by decide),
    (texts_one_to_one.2.1 _ _).mpr
      ⟨[' '], "AAAAA-AA".toList, ['\n'], rfl,
        List.forall_mem_cons.mpr ⟨by decide +kernel, List.forall_mem_singleton.mpr (by decide +kernel)⟩,
        by decide +kernel⟩,
    texts_one_to_one.2.2.1 "" fun p h => absurd h.dash_mem (by decide),
    (texts_one_to_one.2.2.2 "aaaaa_aa" (by decide)).1⟩

end Principal

end CanisterShell

namespace CanisterShell.Candid

namespace Wire

variable {scope : Scope} {t : Ty} {v w : Value} {bytes : Bytes} {expected : List (Label × Ty)}

/-! ## Principals that are given -/

theorem record_of_valueBytes (ht : scope.resolve t = .ok (.record expected))
    (h : valueBytes scope v t = .ok bytes) : ∃ fields, v = .record fields ∧
      recordBytes scope (.record expected) (fieldWriters scope fields) expected = .ok bytes := by
  cases v with
  | record fields =>
    simp only [valueBytes, ht] at h
    exact ⟨fields, rfl, h⟩
  | _ =>
    simp only [valueBytes, ht] at h
    cases h

theorem principal_of_valueBytes (ht : scope.resolve t = .ok .principal)
    (h : valueBytes scope v t = .ok bytes) : ∃ p, v = .principal p := by
  cases v with
  | principal p => exact ⟨p, rfl⟩
  | _ =>
    simp only [valueBytes, ht] at h
    cases h

theorem exists_principal_of_recordBytes {fields : List (Label × Value)} {f : Label × Ty}
    (h : recordBytes scope t (fieldWriters scope fields) expected = .ok bytes) (hf : f ∈ expected)
    (hprincipal : scope.resolve f.2 = .ok .principal) :
    ∃ p, lookup? f.1 fields = some (.principal p) := by
  obtain ⟨parts, hparts, -⟩ := parts_of_recordBytes h
  obtain ⟨i, hi, rfl⟩ := List.getElem_of_mem hf
  have hpart := hparts.get hi (hparts.length_eq ▸ hi)
  simp only [List.get_eq_getElem, fieldWriters_eq_map, lookup?_map] at hpart
  cases hfield : lookup? expected[i].1 fields with
  | some v =>
    rw [hfield] at hpart
    obtain ⟨p, rfl⟩ := principal_of_valueBytes hprincipal hpart
    exact ⟨p, rfl⟩
  | none =>
    simp only [hfield, Option.map_none, absentBytes, hprincipal] at hpart
    cases hpart

/-! ## Principals that come back -/

theorem record_of_alignValue {fields : List (Label × Value)}
    (ht : scope.resolve t = .ok (.record expected))
    (h : alignValue scope w t = .ok (.record fields)) : ∃ got, w = .record got ∧
      alignRecord scope (fieldAligners scope got) expected = .ok (.record fields) := by
  cases w with
  | record got =>
    simp only [alignValue, ht] at h
    exact ⟨got, rfl, h⟩
  | _ =>
    simp only [alignValue, ht] at h
    cases h

theorem principal_of_alignValue {p : Principal} (ht : scope.resolve t = .ok .principal)
    (h : alignValue scope w t = .ok (.principal p)) : w = .principal p := by
  cases w with
  | principal q =>
    simp only [alignValue, ht] at h
    exact Except.ok.inj h
  | _ =>
    simp only [alignValue, ht] at h
    cases h

/-- What a field of a record is aligned to is what its value is, or the field is missing. -/
theorem field_of_alignRecord {got fields : List (Label × Value)}
    (h : alignRecord scope (fieldAligners scope got) expected = .ok (.record fields))
    (hasc : Ascending expected) {f : Label × Ty} (hf : f ∈ expected) :
    ∃ v, lookup? f.1 fields = some v ∧
      ((∃ w, lookup? f.1 got = some w ∧ alignValue scope w f.2 = .ok v) ∨
        ∃ u, scope.resolve f.2 = .ok u ∧ absentValue? u = some v) := by
  rw [alignRecord] at h
  obtain ⟨aligned, haligned, h⟩ := Attempt.bind_ok_iff.mp h
  have hrows : List.Forall₂ (fun (f : Label × Ty) (g : Label × Value) => g.1 = f.1 ∧
      ((∃ w, lookup? f.1 got = some w ∧ alignValue scope w f.2 = .ok g.2) ∨
        ∃ u, scope.resolve f.2 = .ok u ∧ absentValue? u = some g.2)) expected aligned := by
    refine (Attempt.mapM_ok_iff.mp haligned).imp fun f g hfg => ?_
    rw [fieldAligners_eq_map] at hfg
    simp only [lookup?_map] at hfg
    cases hw : lookup? f.1 got with
    | some w =>
      simp only [hw, Option.map_some] at hfg
      obtain ⟨v, hv, hfg⟩ := Attempt.bind_ok_iff.mp hfg
      cases hfg
      exact ⟨rfl, .inl ⟨w, rfl, hv⟩⟩
    | none =>
      simp only [hw, Option.map_none] at hfg
      obtain ⟨u, hu, hfg⟩ := Attempt.bind_ok_iff.mp hfg
      cases hv : absentValue? u with
      | some v =>
        rw [hv] at hfg
        cases hfg
        exact ⟨rfl, .inr ⟨u, hu, hv⟩⟩
      | none =>
        rw [hv] at hfg
        cases hfg
  have hids := map_id_of_forall₂ (hrows.imp fun f g hfg => congrArg Label.id hfg.1)
  have hasc' : Ascending aligned := hasc.of_ids hids
  rw [Value.mkRecord_of_ascending hasc'] at h
  cases h
  obtain ⟨i, hi, rfl⟩ := List.getElem_of_mem hf
  have hi' : i < fields.length := hrows.length_eq ▸ hi
  obtain ⟨hlabel, hrow⟩ := hrows.get hi hi'
  exact ⟨_, lookup?_of_mem hasc' (List.getElem_mem hi') (congrArg Label.id hlabel), hrow⟩

theorem principal_of_alignRecord {got fields : List (Label × Value)} {f : Label × Ty} {p : Principal}
    (h : alignRecord scope (fieldAligners scope got) expected = .ok (.record fields))
    (hasc : Ascending expected) (hf : f ∈ expected)
    (hprincipal : scope.resolve f.2 = .ok .principal)
    (hfield : lookup? f.1 fields = some (.principal p)) :
    lookup? f.1 got = some (.principal p) := by
  obtain ⟨v, hv, ⟨w, hw, halign⟩ | ⟨u, hu, habsent⟩⟩ := field_of_alignRecord h hasc hf
  · rw [hfield] at hv
    cases hv
    rw [hw, principal_of_alignValue hprincipal halign]
  · rw [hprincipal] at hu
    cases hu
    cases habsent

theorem principal_of_normal {given : List (Label × Value)} {f : Label × Ty} {p : Principal}
    (ht : scope.resolve t = .ok (.record expected)) (hasc : Ascending expected) (hf : f ∈ expected)
    (hprincipal : scope.resolve f.2 = .ok .principal)
    (hgiven : lookup? f.1 given = some (.principal p)) : ∃ fields,
      normal scope (.record given) t = .record fields ∧ lookup? f.1 fields = some (.principal p) := by
  have hfield : normalField scope (fieldNormalizers scope given) f.1 f.2 = .principal p := by
    rw [normalField, fieldNormalizers_eq_map, lookup?_map, hgiven]
    simp only [Option.map_some, normal, Scope.behind_of_resolve hprincipal]
    rfl
  let fields := expected.map fun f =>
    (f.1, normalField scope (fieldNormalizers scope given) f.1 f.2)
  have hasc' : Ascending fields := hasc.of_ids (by rw [List.map_map]; rfl)
  refine ⟨fields, by simp only [normal, Scope.behind_of_resolve ht]; rfl, ?_⟩
  rw [lookup?_of_mem hasc' (List.mem_map_of_mem hf) rfl, hfield]

end Wire

open Wire

/-- The first of some values that are encoded comes back so that it can be aligned with its type. -/
theorem decodeArgs_encodeAs_cons {scope : Scope} (hscope : scope.Ordered) {t : Ty} {ts : List Ty}
    (hts : ∀ u ∈ t :: ts, u.Ordered) {v : Value} {vs : List Value} {bytes : Bytes}
    (h : encodeAs scope (v :: vs) (t :: ts) = .ok bytes) : ∃ w ws,
      decodeArgs bytes = .ok (w :: ws) ∧ alignValue scope w t = .ok (normal scope v t) := by
  obtain ⟨hlen, rs, table, parts, hrefs, hparts, rfl⟩ := encodeAs_ok h
  obtain ⟨wire, us, hheader, hagree⟩ := readHeader_takes hscope hts hrefs
  obtain ⟨ws, hcarries, halign⟩ := args_comeBack hagree hlen hparts
  have hcount : ws.length = vs.length + 1 := by
    rw [hcarries.length_eq, ← hagree.length_eq, hlen, List.length_cons]
  match ws, hcount with
  | w :: ws, _ =>
    obtain ⟨v', hv', hrest⟩ := Attempt.bind_ok_iff.mp (halign 0 0)
    obtain ⟨vs', -, hrest⟩ := Attempt.bind_ok_iff.mp hrest
    cases hrest
    exact ⟨w, ws, decodeArgs_of_carriesAll hheader hcarries, hv'⟩

end CanisterShell.Candid

namespace CanisterShell.Routing

/-! ## Routes of management calls -/

open Candid

variable {t : Invocation.Target} {s : Signature} {a : Ty} {as : List Ty} {fields : List (Label × Ty)}
  {f : Label × Ty} {values : List Value} {arg : Bytes}

theorem encodeAs_of_encode (hsignature : t.signature? = some s) (harg : t.encode values = .ok arg) :
    encodeAs t.info.scope values s.args = .ok arg := by
  simp only [Invocation.Target.encode, hsignature] at harg
  split at harg
  · cases harg
  · exact harg

/-- **Calls of the management canister** go to the canister that their arguments name: for every method
whose first argument is a record with a principal by the name of `canister_id`, but for those that only
canisters call and those that go to the management canister itself, the values that can be encoded
give such a principal, and it is what the encoded bytes are routed by. -/
theorem effectiveCanister_encode (hscope : t.info.scope.Ordered) (hargs : ∀ u ∈ s.args, u.Ordered)
    (hmanagement : t.canister.isManagement = true)
    (hcanisters : t.method ∉ Management.canistersOnly)
    (hitself : t.method ∉ Management.routedToItself)
    (hsignature : t.signature? = some s) (hfirst : s.args = a :: as)
    (hrecord : t.info.scope.resolve a = .ok (.record fields)) (hf : f ∈ fields)
    (hlabel : f.1.id = (Label.named "canister_id").id)
    (hprincipal : t.info.scope.resolve f.2 = .ok .principal)
    (harg : t.encode values = .ok arg) :
    ∃ given p rest, values = .record given :: rest ∧
      lookup? (.named "canister_id") given = some (.principal p) ∧
      effectiveCanister t.canister t.method arg = .ok p := by
  have hencode := encodeAs_of_encode hsignature harg
  rw [hfirst] at hargs hencode
  obtain ⟨hlen, rs, table, parts, -, hparts, -⟩ := encodeAs_ok hencode
  match values, hlen with
  | v :: rest, _ =>
    rw [List.zip_cons_cons, List.mapM_cons] at hparts
    obtain ⟨part, hpart, -⟩ := Attempt.bind_ok_iff.mp hparts
    obtain ⟨given, rfl, hgiven⟩ := Wire.record_of_valueBytes hrecord hpart
    obtain ⟨p, hp⟩ := Wire.exists_principal_of_recordBytes hgiven hf hprincipal
    obtain ⟨w, ws, hdecode, halign⟩ := decodeArgs_encodeAs_cons hscope hargs hencode
    have hasc : Ascending fields := by
      cases Scope.resolve_ordered hscope (hargs a (.head _)) hrecord with
      | record hasc _ => exact hasc
    obtain ⟨back, hnormal, hfield⟩ := Wire.principal_of_normal hrecord hasc hf hprincipal hp
    rw [hnormal] at halign
    obtain ⟨got, rfl, hgot⟩ := Wire.record_of_alignValue hrecord halign
    have hback := Wire.principal_of_alignRecord hgot hasc hf hprincipal hfield
    rw [Wire.lookup?_congr hlabel] at hp hback
    refine ⟨given, p, rest, rfl, hp, ?_⟩
    have hsubject : subject? (.record got :: ws) = some p := by
      simp [subject?, Value.field?, hback]
    simp [effectiveCanister, hmanagement, hcanisters, hitself, hdecode, hsubject]

/-- The method that installs code, as every session knows it. -/
def installCode : Invocation.Target :=
  ⟨.management, "install_code", Management.interface, Management.interface.signature? "install_code"⟩

def installation (canister : Principal) : Value := .record [
  (.named "mode", .variant (.named "install") .null 0), (.named "canister_id", .principal canister),
  (.named "wasm_module", .blob [0, 97, 115, 109]), (.named "arg", .blob [])]

/-- The field for the canister has an alias for its type; the code goes to the canister there. -/
theorem effectiveCanister_encode_installCode : ∃ arg,
    installCode.encode [installation .anonymous] = .ok arg ∧
      effectiveCanister .management "install_code" arg = .ok .anonymous := by
  obtain ⟨arg, harg⟩ := Attempt.exists_of_isOk
    (show (installCode.encode [installation .anonymous]).isOk = true by decide +kernel)
  obtain ⟨s, hs⟩ : ∃ s, Management.methods.find? "install_code" = some s := ⟨_, rfl⟩
  have hargs := Management.interface_ordered.args _ (Table.mem_of_find?_eq_some hs)
  cases hs
  obtain ⟨given, p, rest, hgiven, hp, hroute⟩ := effectiveCanister_encode
    (f := (.named "canister_id", .var "canister_id")) Management.interface_ordered.scope hargs rfl
    (by decide) (by decide) rfl rfl (Scope.resolve_of_ne_var nofun)
    ((perm_sortBy _ _).mem_iff.mpr (by simp)) rfl (Scope.resolve_var rfl nofun) harg
  cases hgiven
  obtain rfl : Principal.anonymous = p := Value.principal.inj (Option.some.inj hp)
  exact ⟨arg, harg, hroute⟩

end CanisterShell.Routing
