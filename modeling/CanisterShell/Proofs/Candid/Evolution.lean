import CanisterShell.Proofs.Candid.RoundTrip

/-!
# Interfaces that evolve

Readers of a message can expect types other than those that it was written at: records without some
of the fields or with options that the writer did not know, variants with more cases, and more or
fewer results (`Evolves`, `EvolvesAll`).  What they get is what a reader at the writer's types gets,
adapted to their own (`decodeAs_evolved`).

Names make types infinite, so that evolution is a simulation, as likeness is.  Values are finite:
the proof is by induction on the value that was read, once it is known that it has, at every depth,
the shape of the type that it was written at (`Shaped`).  Without that an option that only the
reader knows could find a field of its label that the writer's type does not have.
-/

namespace CanisterShell.Candid

open List (Forall₂)

/-- The types whose values are not looked into. -/
def Ty.isWhole : Ty → Bool
  | prim _ | func .. | service _ => true
  | _ => false

/-- A type that resolves to an option. -/
def Scope.Optional (scope : Scope) (t : Ty) : Prop := ∃ item, scope.resolve t = .ok (.opt item)

/-- How a type without a name in front changes; the names of the new one are those of `scope'`. -/
inductive Change (scope' : Scope) (R : Ty → Ty → Prop) : Ty → Ty → Prop
  | prim (p : Prim) : Change scope' R (.prim p) (.prim p)
  | func (args results args' results' : List Ty) (modes modes' : List Mode) :
    Change scope' R (.func args results modes) (.func args' results' modes')
  | service (methods methods' : List (String × Ty)) :
    Change scope' R (.service methods) (.service methods')
  | opt {t t' : Ty} : R t t' → Change scope' R (.opt t) (.opt t')
  | vec {t t' : Ty} : R t t' → Change scope' R (.vec t) (.vec t')
  | record {fs fs' : List (Label × Ty)} : Ascending fs' →
    (∀ f' ∈ fs', (∃ f ∈ fs, f.1.id = f'.1.id ∧ R f.2 f'.2) ∨
      f'.1.id ∉ fs.map (·.1.id) ∧ scope'.Optional f'.2) → Change scope' R (.record fs) (.record fs')
  | variant {cs cs' : List (Label × Ty)} : Ascending cs' →
    (∀ c ∈ cs, ∃ c' ∈ cs', c'.1.id = c.1.id ∧ R c.2 c'.2) →
    Change scope' R (.variant cs) (.variant cs')

theorem Change.mono {scope' : Scope} {R S : Ty → Ty → Prop} {t t' : Ty}
    (himp : ∀ t t', R t t' → S t t') (h : Change scope' R t t') : Change scope' S t t' := by
  cases h with
  | prim p => exact .prim p
  | func args results args' results' modes modes' => exact .func ..
  | service methods methods' => exact .service ..
  | opt h => exact .opt (himp _ _ h)
  | vec h => exact .vec (himp _ _ h)
  | record hasc h =>
    refine .record hasc fun f' hf' => (h f' hf').imp_left fun ⟨f, hf, hid, hR⟩ => ?_
    exact ⟨f, hf, hid, himp _ _ hR⟩
  | variant hasc h =>
    refine .variant hasc fun c hc => ?_
    obtain ⟨c', hc', hid, hR⟩ := h c hc
    exact ⟨c', hc', hid, himp _ _ hR⟩

/-- A type of `scope` becomes one of `scope'` by changes at any depth: fields are removed, optional
fields with new labels and cases are added. -/
def Evolves (scope scope' : Scope) (t t' : Ty) : Prop :=
  ∃ R : Ty → Ty → Prop, R t t' ∧ ∀ t t' u, R t t' → scope.resolve t = .ok u →
    ∃ u', scope'.resolve t' = .ok u' ∧ Change scope' R u u'

theorem Evolves.head {scope scope' : Scope} {t t' u : Ty} (h : Evolves scope scope' t t')
    (ht : scope.resolve t = .ok u) :
    ∃ u', scope'.resolve t' = .ok u' ∧ Change scope' (Evolves scope scope') u u' := by
  obtain ⟨R, hR, hstep⟩ := h
  obtain ⟨u', ht', hchange⟩ := hstep t t' u hR ht
  exact ⟨u', ht', hchange.mono fun t t' h => ⟨R, h, hstep⟩⟩

/-- Results become others: each evolves, and trailing ones are removed or trailing options added. -/
inductive EvolvesAll (scope scope' : Scope) : List Ty → List Ty → Prop
  | removed (ts : List Ty) : EvolvesAll scope scope' ts []
  | added {ts' : List Ty} : (∀ t' ∈ ts', scope'.Optional t') → EvolvesAll scope scope' [] ts'
  | cons {t t' : Ty} {ts ts' : List Ty} : Evolves scope scope' t t' →
    EvolvesAll scope scope' ts ts' → EvolvesAll scope scope' (t :: ts) (t' :: ts')

namespace Wire

/-! ## Values adapted to evolved types -/

/-- The value of an expected field: that of the record, or an empty option for a new one. -/
def adaptedField (fields : List (Label × Normalizer)) (label : Label) (t : Ty) : Value :=
  match lookup? label fields with
  | some adapt => adapt t
  | none => .nothing

mutual

/-- A value of a type as it is at a type that this one evolves to: removed fields are dropped, added
ones are empty options, and each case has its new position. -/
def adapted (scope' : Scope) : Value → Normalizer
  | .opt item => fun t =>
    match scope'.behind t with
    | .opt u => .opt (adapted scope' item u)
    | _ => .opt item
  | .vec items => fun t =>
    match scope'.behind t with
    | .vec u => .vec (adaptedItems scope' items u)
    | _ => .vec items
  | .record fields => fun t =>
    match scope'.behind t with
    | .record expected =>
      .record (expected.map fun f => (f.1, adaptedField (fieldAdapters scope' fields) f.1 f.2))
    | _ => .record fields
  | .variant label item index => fun t =>
    match scope'.behind t with
    | .variant cases =>
      match (cases.findIdx? fun c => c.1.same label).bind fun i => cases[i]?.map fun c => (i, c) with
      | some (i, expected, u) => .variant expected (adapted scope' item u) i
      | none => .variant label item index
    | _ => .variant label item index
  | v => fun _ => v

def adaptedItems (scope' : Scope) : List Value → Ty → List Value
  | [] => fun _ => []
  | v :: rest => fun t => adapted scope' v t :: adaptedItems scope' rest t

def fieldAdapters (scope' : Scope) : List (Label × Value) → List (Label × Normalizer)
  | [] => []
  | (l, v) :: rest => (l, adapted scope' v) :: fieldAdapters scope' rest

end

/-- Results adapted to evolved types: removed ones are dropped, added ones are empty options. -/
def adaptedAll (scope' : Scope) : List Value → List Ty → List Value
  | _, [] => []
  | v :: vs, t :: ts => adapted scope' v t :: adaptedAll scope' vs ts
  | [], _ :: ts => .nothing :: adaptedAll scope' [] ts

attribute [local simp] adapted

theorem adaptedItems_eq_map (scope' : Scope) (vs : List Value) (t : Ty) :
    adaptedItems scope' vs t = vs.map (adapted scope' · t) := by
  induction vs with
  | nil => rfl
  | cons v vs ih => exact congrArg (adapted scope' v t :: ·) ih

theorem fieldAdapters_eq_map (scope' : Scope) (fields : List (Label × Value)) :
    fieldAdapters scope' fields = fields.map fun (l, v) => (l, adapted scope' v) := by
  induction fields with
  | nil => rfl
  | cons f fields ih => rw [fieldAdapters, ih, List.map_cons]

theorem alignItems_eq_mapM (scope : Scope) (vs : List Value) (t : Ty) :
    alignItems scope vs t = vs.mapM (alignValue scope · t) := by
  induction vs with
  | nil => rfl
  | cons v vs ih =>
    rw [List.mapM_cons, ← ih]
    rfl

/-! ## Fields and cases by label -/

theorem lookup?_eq_none {α : Type} {label : Label} {fields : List (Label × α)}
    (h : label.id ∉ fields.map (·.1.id)) : lookup? label fields = none := by
  rw [lookup?, List.find?_eq_none.mpr fun f hf hsame => h ?_]
  · rfl
  · rw [← of_decide_eq_true hsame]
    exact List.mem_map_of_mem hf

theorem exists_findIdx?_of_mem {cases : List (Label × Ty)} (hasc : Ascending cases)
    {c : Label × Ty} (hc : c ∈ cases) {label : Label} (hid : c.1.id = label.id) :
    ∃ i, cases.findIdx? (fun c => c.1.same label) = some i ∧ cases[i]? = some c := by
  induction cases with
  | nil => cases hc
  | cons c' cases ih =>
    obtain ⟨hfirst, hasc⟩ := List.pairwise_cons.mp hasc
    obtain rfl | hc := List.mem_cons.mp hc
    · have hsame : c.1.same label = true := decide_eq_true hid
      exact ⟨0, by rw [List.findIdx?_cons, if_pos hsame], rfl⟩
    · obtain ⟨i, hfind, hget⟩ := ih hasc hc
      have hne : ¬c'.1.same label := by
        have hlt := hfirst c hc
        rw [Label.same, decide_eq_true_iff]
        omega
      exact ⟨i + 1, by rw [List.findIdx?_cons, if_neg hne, hfind]; rfl, hget⟩

/-! ## The shape of what was read -/

variable {scope scope' wire : Scope} {t t' u u' : Ty}

/-- A value has, at every depth, the shape of its type: a record has its fields and no others. -/
inductive Shaped (scope : Scope) : Value → Ty → Prop
  | whole {t u : Ty} (v : Value) : scope.resolve t = .ok u → u.isWhole → Shaped scope v t
  | nothing {t item : Ty} : scope.resolve t = .ok (.opt item) → Shaped scope .nothing t
  | opt {t item : Ty} {v : Value} : scope.resolve t = .ok (.opt item) → Shaped scope v item →
    Shaped scope (.opt v) t
  | blob {t item : Ty} (bytes : Bytes) : scope.resolve t = .ok (.vec item) →
    Shaped scope (.blob bytes) t
  | vec {t item : Ty} {vs : List Value} : scope.resolve t = .ok (.vec item) →
    (∀ v ∈ vs, Shaped scope v item) → Shaped scope (.vec vs) t
  | record {t : Ty} {expected : List (Label × Ty)} {fields : List (Label × Value)} :
    scope.resolve t = .ok (.record expected) → Ascending expected →
    Forall₂ (fun f g => g.1.id = f.1.id) expected fields →
    (∀ pair ∈ expected.zip fields, Shaped scope pair.2.2 pair.1.2) →
    Shaped scope (.record fields) t
  | variant {t : Ty} {cases : List (Label × Ty)} {c : Label × Ty} {label : Label} {v : Value}
    (index : Nat) : scope.resolve t = .ok (.variant cases) → Ascending cases → c ∈ cases →
    c.1.id = label.id → Shaped scope v c.2 → Shaped scope (.variant label v index) t

theorem fields_shaped {fs gs : List (Label × Ty)} {vs : List Value}
    (hgs : Forall₂ (fun f g => g.1 = .numbered f.1.id ∧ Agree scope wire f.2 g.2) fs gs)
    (hvs : Forall₂ (fun u v => ∀ t, Agree scope wire t u → Shaped scope v t) (gs.map (·.2)) vs) :
    Forall₂ (fun f g => g.1.id = f.1.id ∧ Shaped scope g.2 f.2) fs ((gs.map (·.1)).zip vs) := by
  induction hgs generalizing vs with
  | nil => exact .nil
  | cons hfg _ ih =>
    cases hvs with
    | cons hv hvs =>
      refine .cons ⟨?_, hv _ hfg.2⟩ (ih hvs)
      rw [hfg.1]
      rfl

theorem shaped_of_mem_replicate {n : Nat} {vs : List Value}
    (h : Forall₂ (fun u v => ∀ t, Agree scope wire t u → Shaped scope v t) (List.replicate n u) vs)
    (hagree : Agree scope wire t u) : ∀ v ∈ vs, Shaped scope v t := by
  induction n generalizing vs with
  | zero =>
    cases h
    exact fun v hv => absurd hv List.not_mem_nil
  | succ n ih =>
    cases h with
    | cons hv hvs => exact List.forall_mem_cons.mpr ⟨hv t hagree, ih hvs⟩

theorem record_shaped {fs gs : List (Label × Ty)} {vs : List Value} {w : Value}
    (ht : scope.resolve t = .ok (.record fs)) (hasc : Ascending fs)
    (hgs : Forall₂ (fun f g => g.1 = .numbered f.1.id ∧ Agree scope wire f.2 g.2) fs gs)
    (hvs : Forall₂ (fun u v => ∀ t, Agree scope wire t u → Shaped scope v t) (gs.map (·.2)) vs)
    (hw : Value.mkRecord ((gs.map (·.1)).zip vs) = .ok w) : Shaped scope w t := by
  have hfields := fields_shaped hgs hvs
  have hsame : Forall₂ (fun f g => g.1.id = f.1.id) fs ((gs.map (·.1)).zip vs) :=
    hfields.imp fun _ _ h => h.1
  rw [Value.mkRecord_of_ascending (hasc.of_ids (map_id_of_forall₂ hsame))] at hw
  cases hw
  exact .record ht hasc hsame fun pair hpair => (List.forall₂_zip hfields hpair).2

theorem readHead_shaped (ht : scope.resolve t = .ok t') (hhead : Head (Agree scope wire) t' u') :
    Reader.Gives (readHead wire u') fun layout => ∀ vs w,
      Forall₂ (fun u v => ∀ t, Agree scope wire t u → Shaped scope v t) layout.parts vs →
      layout.assemble vs = .ok w → Shaped scope w t := by
  cases hhead with
  | prim p => exact .bind_right fun v => .pure fun vs w _ _ => .whole w ht rfl
  | func modes h h' =>
    refine .bind_right fun b => ?_
    split
    · exact .bind_right fun _ => .bind_right fun p => .bind_right fun s => .pure fun vs w _ _ =>
        .whole w ht rfl
    · exact .bind_right fun p => .bind_right fun s => .pure fun vs w _ _ => .whole w ht rfl
  | service h => exact .bind_right fun p => .pure fun vs w _ _ => .whole w ht rfl
  | opt hitem =>
    refine .bind_right fun b => ?_
    split
    · refine .pure fun vs w _ hw => ?_
      cases hw
      exact .nothing ht
    · refine .pure fun vs w hvs hw => ?_
      obtain ⟨v, rest, hv, hrest, rfl⟩ := List.forall₂_cons_left_iff.mp hvs
      cases hw
      exact .opt ht (hv _ hitem)
  | vec hitem =>
    refine .bind_right fun n => .bind_right fun isByte => ?_
    split
    · refine .bind_right fun bytes => .pure fun vs w _ hw => ?_
      cases hw
      exact .blob bytes ht
    · refine .pure fun vs w hvs hw => ?_
      cases hw
      exact .vec ht (shaped_of_mem_replicate hvs hitem)
  | record hasc hgs => exact .pure fun vs w hvs hw => record_shaped ht hasc hgs hvs hw
  | variant hasc hgs =>
    refine .bind_right fun i => ?_
    split
    · next label u hcase =>
      refine .pure fun vs w hvs hw => ?_
      obtain ⟨v, rest, hv, hrest, rfl⟩ := List.forall₂_cons_left_iff.mp hvs
      cases hw
      obtain ⟨c, hc, hlabel, hitem⟩ := exists_getElem?_of_forall₂ hgs.flip hcase
      refine .variant i ht hasc (List.mem_of_getElem? hc) ?_ (hv _ hitem)
      rw [show label = .numbered c.1.id from hlabel]
      rfl
    · exact .throw _

theorem readValues_forall₂ {S : Ty → Value → Prop} {depth : Nat}
    (h : ∀ u, Reader.Gives (readValue wire depth u) (S u)) (us : List Ty) :
    Reader.Gives (readValues wire depth us) (Forall₂ S us) := by
  induction us with
  | nil => exact .pure .nil
  | cons u us ih => exact (h u).bind fun v hv => ih.bind fun vs hvs => .pure (.cons hv hvs)

theorem readValue_shaped (scope wire : Scope) (depth : Nat) (u : Ty) :
    Reader.Gives (readValue wire depth u) fun v => ∀ t, Agree scope wire t u → Shaped scope v t := by
  induction depth generalizing u with
  | zero => exact .throw _
  | succ depth ih =>
    intro bytes v rest hv t hagree
    obtain ⟨t', u', ht, hu, hhead⟩ := hagree.head
    rw [readValue_succ] at hv
    obtain ⟨layout, mid, hlayout, hv⟩ := Reader.bind_ok_iff.mp hv
    obtain ⟨vs, mid', hvs, hv⟩ := Reader.bind_ok_iff.mp hv
    rw [readLayout, hu, Reader.liftM_ok, pure_bind] at hlayout
    exact readHead_shaped ht hhead bytes layout mid hlayout vs v
      (readValues_forall₂ ih _ mid vs mid' hvs) (Reader.lift_ok_iff.mp hv).1

theorem shaped_of_forall₂ {ts us : List Ty} {vs : List Value}
    (hagree : Forall₂ (Agree scope wire) ts us)
    (hvs : Forall₂ (fun u v => ∀ t, Agree scope wire t u → Shaped scope v t) us vs) :
    Forall₂ (Shaped scope) vs ts := by
  induction hagree generalizing vs with
  | nil =>
    cases hvs
    exact .nil
  | cons htu _ ih =>
    cases hvs with
    | cons hv hvs => exact .cons (hv _ htu) (ih hvs)

/-! ## Aligning with evolved types -/

/-- Aligned with what its type evolves to, a value becomes what it was, adapted. -/
def Adapts (scope scope' : Scope) (w : Value) (t : Ty) : Prop :=
  ∀ t' v, Evolves scope scope' t t' → alignValue scope w t = .ok v →
    alignValue scope' w t' = .ok (adapted scope' v t')

theorem alignValue_of_isWhole (w : Value) (ht : scope.resolve t = .ok u) (hu : u.isWhole) :
    alignValue scope w t = .ok (alignLeaf w u) := by
  cases w <;> cases u <;> cases hu <;> simp only [alignValue, ht] <;> rfl

theorem adapted_of_isWhole (v : Value) (ht : scope.resolve t = .ok u) (hu : u.isWhole) :
    adapted scope v t = v := by
  cases v <;> cases u <;> cases hu <;> simp only [adapted, Scope.behind_of_resolve ht]

theorem whole_adapts (w : Value) (ht : scope.resolve t = .ok u) (hu : u.isWhole) :
    Adapts scope scope' w t := by
  intro t' v hevolves hv
  obtain ⟨u', ht', hchange⟩ := hevolves.head ht
  have hu' : u'.isWhole ∧ alignLeaf w u' = alignLeaf w u := by
    cases hchange with
    | prim p => exact ⟨rfl, rfl⟩
    | func => exact ⟨rfl, by cases w <;> rfl⟩
    | service => exact ⟨rfl, by cases w <;> rfl⟩
    | _ => cases hu
  rw [alignValue_of_isWhole w ht hu] at hv
  cases hv
  rw [alignValue_of_isWhole w ht' hu'.1, adapted_of_isWhole _ ht' hu'.1, hu'.2]

theorem nothing_adapts {item : Ty} (ht : scope.resolve t = .ok (.opt item)) :
    Adapts scope scope' .nothing t := by
  intro t' v hevolves hv
  obtain ⟨u', ht', hchange⟩ := hevolves.head ht
  cases hchange with
  | opt =>
    simp only [alignValue, ht] at hv
    cases hv
    simp only [alignValue, ht']
    rfl

theorem opt_adapts {item : Ty} {w : Value} (ht : scope.resolve t = .ok (.opt item))
    (ih : Adapts scope scope' w item) : Adapts scope scope' (.opt w) t := by
  intro t' v hevolves hv
  obtain ⟨u', ht', hchange⟩ := hevolves.head ht
  cases hchange with
  | opt hitem =>
    simp only [alignValue, ht, Attempt.ok_bind] at hv
    obtain ⟨v, hv', hv⟩ := Attempt.bind_ok_iff.mp hv
    cases hv
    simp only [alignValue, ht', Attempt.ok_bind, ih _ v hitem hv', adapted,
      Scope.behind_of_resolve ht']
    rfl

theorem blob_adapts {item : Ty} (bytes : Bytes) (ht : scope.resolve t = .ok (.vec item)) :
    Adapts scope scope' (.blob bytes) t := by
  intro t' v hevolves hv
  obtain ⟨u', ht', hchange⟩ := hevolves.head ht
  cases hchange with
  | vec =>
    simp only [alignValue, ht] at hv
    cases hv
    simp only [alignValue, ht']
    rfl

theorem vec_adapts {item : Ty} {ws : List Value} (ht : scope.resolve t = .ok (.vec item))
    (ih : ∀ w ∈ ws, Adapts scope scope' w item) : Adapts scope scope' (.vec ws) t := by
  intro t' v hevolves hv
  obtain ⟨u', ht', hchange⟩ := hevolves.head ht
  cases hchange with
  | @vec _ item' hitem =>
    simp only [alignValue, ht, Attempt.ok_bind] at hv
    obtain ⟨vs, hvs, hv⟩ := Attempt.bind_ok_iff.mp hv
    cases hv
    rw [alignItems_eq_mapM, Attempt.mapM_ok_iff] at hvs
    have hvs' : alignItems scope' ws item' = .ok (vs.map (adapted scope' · item')) := by
      rw [alignItems_eq_mapM, Attempt.mapM_ok_iff, List.forall₂_map_right_iff]
      exact ((List.forall₂_and_left _ _).mpr ⟨ih, hvs⟩).imp fun w v h => h.1 _ v hitem h.2
    simp only [alignValue, ht', Attempt.ok_bind, hvs', adapted, adaptedItems_eq_map,
      Scope.behind_of_resolve ht']
    rfl

/-- The value of a field is aligned to another one, and adapts to what the field's type evolves
to. -/
def FieldAdapts (scope scope' : Scope) (fields : List (Label × Value)) (f : Label × Ty)
    (v : Value) : Prop :=
  ∃ w, lookup? f.1 fields = some w ∧ Adapts scope scope' w f.2 ∧ alignValue scope w f.2 = .ok v

theorem fields_adapt {expected : List (Label × Ty)} {fields : List (Label × Value)} {v : Value}
    (hasc : Ascending expected)
    (ih : Forall₂ (fun f g => g.1.id = f.1.id ∧ Adapts scope scope' g.2 f.2) expected fields)
    (h : alignRecord scope (fieldAligners scope fields) expected = .ok v) :
    ∃ aligned, v = .record aligned ∧
      Forall₂ (fun f a => a.1.id = f.1.id ∧ FieldAdapts scope scope' fields f a.2) expected
        aligned := by
  obtain ⟨aligned, haligned, hv⟩ := Attempt.bind_ok_iff.mp h
  rw [Attempt.mapM_ok_iff] at haligned
  have hfields : ∀ f ∈ expected, ∃ w, lookup? f.1 fields = some w ∧ Adapts scope scope' w f.2 :=
    exists_lookup?_of_forall₂ hasc ih
  have hstep : Forall₂ (fun f a => a.1.id = f.1.id ∧ FieldAdapts scope scope' fields f a.2)
      expected aligned := by
    refine ((List.forall₂_and_left _ _).mpr ⟨hfields, haligned⟩).imp ?_
    rintro ⟨label, u⟩ a ⟨⟨w, hw, hadapts⟩, ha⟩
    dsimp only at hw ha
    rw [fieldAligners_eq_map, lookup?_map, hw] at ha
    obtain ⟨v, hv, ha⟩ := Attempt.bind_ok_iff.mp ha
    cases ha
    exact ⟨rfl, w, hw, hadapts, hv⟩
  have hids := map_id_of_forall₂ (hstep.imp fun _ _ h => h.1)
  rw [Value.mkRecord_of_ascending (hasc.of_ids hids)] at hv
  exact ⟨aligned, (Except.ok.inj hv).symm, hstep⟩

/-- The fields of a record, aligned with those that its type evolves to, are what they were,
adapted, and empty options for the new ones. -/
theorem alignRecord_adapts {expected expected' : List (Label × Ty)}
    {fields aligned : List (Label × Value)} (hasc : Ascending expected)
    (hasc' : Ascending expected') (hids : expected.map (·.1.id) = fields.map (·.1.id))
    (hstep : Forall₂ (fun f a => a.1.id = f.1.id ∧ FieldAdapts scope scope' fields f a.2) expected
      aligned)
    (hchange : ∀ f' ∈ expected',
      (∃ f ∈ expected, f.1.id = f'.1.id ∧ Evolves scope scope' f.2 f'.2) ∨
        f'.1.id ∉ expected.map (·.1.id) ∧ scope'.Optional f'.2) :
    alignRecord scope' (fieldAligners scope' fields) expected' = .ok (.record (expected'.map
      fun f => (f.1, adaptedField (fieldAdapters scope' aligned) f.1 f.2))) := by
  have hfields : ∀ f ∈ expected, ∃ v, lookup? f.1 aligned = some v ∧
      FieldAdapts scope scope' fields f v := exists_lookup?_of_forall₂ hasc hstep
  have hids' := map_id_of_forall₂ (hstep.imp fun _ _ h => h.1)
  rw [alignRecord, Attempt.mapM_eq_map (g := fun f =>
    (f.1, adaptedField (fieldAdapters scope' aligned) f.1 f.2)) ?_]
  · refine Value.mkRecord_of_ascending (hasc'.of_ids ?_)
    rw [List.map_map]
    rfl
  · rintro ⟨label, u⟩ hf'
    dsimp only
    rw [adaptedField, fieldAligners_eq_map, fieldAdapters_eq_map, lookup?_map, lookup?_map]
    obtain ⟨f, hf, hid, hevolves⟩ | ⟨hnew, item, hopt⟩ := hchange _ hf'
    · obtain ⟨v, hv, w, hw, hadapts, halign⟩ := hfields f hf
      rw [← lookup?_congr hid, ← lookup?_congr hid, hv, hw]
      show (alignValue scope' w u >>= _) = _
      rw [hadapts u v hevolves halign]
      rfl
    · rw [lookup?_eq_none (hids ▸ hnew), lookup?_eq_none (hids' ▸ hnew)]
      show (scope'.resolve u >>= _) = _
      rw [hopt]
      rfl

theorem record_adapts {expected : List (Label × Ty)} {fields : List (Label × Value)}
    (ht : scope.resolve t = .ok (.record expected)) (hasc : Ascending expected)
    (ih : Forall₂ (fun f g => g.1.id = f.1.id ∧ Adapts scope scope' g.2 f.2) expected fields) :
    Adapts scope scope' (.record fields) t := by
  intro t' v hevolves hv
  obtain ⟨u', ht', hchange⟩ := hevolves.head ht
  cases hchange with
  | record hasc' hchange =>
    simp only [alignValue, ht] at hv
    obtain ⟨aligned, rfl, hstep⟩ := fields_adapt hasc ih hv
    have hids := map_id_of_forall₂ (ih.imp fun _ _ h => h.1)
    simp only [alignValue, ht', Attempt.ok_bind, adapted, Scope.behind_of_resolve ht']
    exact alignRecord_adapts hasc hasc' hids hstep hchange

theorem variant_adapts {cases : List (Label × Ty)} {c : Label × Ty} {label : Label} {w : Value}
    (index : Nat) (ht : scope.resolve t = .ok (.variant cases)) (hasc : Ascending cases)
    (hc : c ∈ cases) (hid : c.1.id = label.id) (ih : Adapts scope scope' w c.2) :
    Adapts scope scope' (.variant label w index) t := by
  intro t' v hevolves hv
  obtain ⟨u', ht', hchange⟩ := hevolves.head ht
  cases hchange with
  | @variant _ cases' hasc' hchange =>
    obtain ⟨i, hfind, hget⟩ := exists_findIdx?_of_mem hasc hc hid
    rw [alignValue_variant ht hfind hget] at hv
    obtain ⟨v, hv', hv⟩ := Attempt.bind_ok_iff.mp hv
    cases hv
    obtain ⟨c', hc', hid', hevolves'⟩ := hchange c hc
    obtain ⟨j, hfind', hget'⟩ := exists_findIdx?_of_mem hasc' hc' (hid'.trans hid)
    obtain ⟨j', hfind'', hget''⟩ := exists_findIdx?_of_mem hasc' hc' hid'
    obtain rfl : j = j' := by
      simp only [Label.same, hid] at hfind' hfind''
      exact Option.some.inj (hfind'.symm.trans hfind'')
    rw [alignValue_variant ht' hfind' hget', ih _ v hevolves' hv']
    simp only [adapted, Scope.behind_of_resolve ht', hfind'', hget', Option.bind_some,
      Option.map_some]
    rfl

/-- A value of the shape of its type adapts to whatever this type evolves to. -/
theorem Shaped.adapts {w : Value} (h : Shaped scope w t) : Adapts scope scope' w t := by
  induction h with
  | whole w ht hu => exact whole_adapts w ht hu
  | nothing ht => exact nothing_adapts ht
  | opt ht _ ih => exact opt_adapts ht ih
  | blob bytes ht => exact blob_adapts bytes ht
  | vec ht _ ih => exact vec_adapts ht ih
  | record ht hasc hids _ ih =>
    refine record_adapts ht hasc (List.forall₂_iff_zip.mpr ⟨hids.length_eq, fun hpair => ?_⟩)
    exact ⟨List.forall₂_zip hids hpair, ih _ hpair⟩
  | variant index ht hasc hc hid _ ih => exact variant_adapts index ht hasc hc hid ih

/-! ## Whole messages -/

theorem alignAll_optional {ts : List Ty} (h : ∀ t ∈ ts, scope.Optional t) (total got : Nat) :
    alignAll scope total got [] ts = .ok (adaptedAll scope [] ts) := by
  induction ts with
  | nil => rfl
  | cons t ts ih =>
    obtain ⟨⟨item, ht⟩, hts⟩ := List.forall_mem_cons.mp h
    simp only [alignAll, ht, Attempt.ok_bind, ih hts]
    rfl

theorem alignAll_adapts {ts ts' : List Ty} (hevolves : EvolvesAll scope scope' ts ts')
    {ws vs : List Value} (hws : Forall₂ (Shaped scope) ws ts) {total got : Nat}
    (h : alignAll scope total got ws ts = .ok vs) (total' got' : Nat) :
    alignAll scope' total' got' ws ts' = .ok (adaptedAll scope' vs ts') := by
  induction hevolves generalizing ws vs with
  | removed ts => cases ws <;> cases vs <;> rfl
  | added hts =>
    cases hws
    cases h
    exact alignAll_optional hts total' got'
  | cons hevolve _ ih =>
    cases hws with
    | cons hw hws =>
      obtain ⟨v, hv, h⟩ := Attempt.bind_ok_iff.mp h
      obtain ⟨vs, hvs, h⟩ := Attempt.bind_ok_iff.mp h
      cases h
      simp only [alignAll, hw.adapts _ v hevolve hv, ih hws hvs, Attempt.ok_bind]
      rfl

end Wire

open Wire

/-- What was encoded at some types decodes at types that these evolve to, to the values that a
reader at the first ones gets, adapted. -/
theorem decodeAs_evolved {scope scope' : Scope} (hscope : scope.Ordered) {ts ts' : List Ty}
    (hts : ∀ t ∈ ts, t.Ordered) (hevolves : EvolvesAll scope scope' ts ts') {vs : List Value}
    {bytes : Bytes} (h : encodeAs scope vs ts = .ok bytes) :
    ∃ results, decodeAs scope bytes ts = .ok results ∧
      decodeAs scope' bytes ts' = .ok (adaptedAll scope' results ts') := by
  obtain ⟨hlen, rs, table, parts, hrefs, hparts, rfl⟩ := encodeAs_ok h
  obtain ⟨wire, us, hheader, hagree⟩ := readHeader_takes hscope hts hrefs
  obtain ⟨ws, hcarries, halign⟩ := args_comeBack hagree hlen hparts
  have hdecode := decodeArgs_of_carriesAll hheader hcarries
  have hshaped : Forall₂ (Shaped scope) ws ts := by
    obtain ⟨depth, hvalues⟩ := hcarries
    have hall := readValues_forall₂ (readValue_shaped scope wire depth) us _ ws _ (hvalues [])
    exact shaped_of_forall₂ hagree hall
  refine ⟨List.zipWith (normal scope) vs ts, ?_, ?_⟩
  · rw [decodeAs, hdecode]
    exact halign _ _
  · rw [decodeAs, hdecode]
    exact alignAll_adapts hevolves hshaped (halign 0 0) _ _

/-! ## A list that evolves -/

/-- Lists of numbers. -/
def chains : Scope :=
  [("Chain", .variant [(.named "b", .record []),
    (.named "c", .record [(.named "h", .nat), (.named "t", .var "Chain")])])]

/-- Lists without the numbers, in which each cell can have a note, and of which a part can be left
out. -/
def notes : Scope :=
  [("Notes", .variant [(.named "a", .null), (.named "b", .record []),
    (.named "c", .record [(.named "n", .opt .text), (.named "t", .var "Notes")])])]

theorem chain_evolves : Evolves chains notes (.var "Chain") (.var "Notes") := by
  let R : Ty → Ty → Prop := fun t t' =>
    t = .var "Chain" ∧ t' = .var "Notes" ∨ t = .record [] ∧ t' = .record [] ∨
      t = .record [(.named "h", .nat), (.named "t", .var "Chain")] ∧
        t' = .record [(.named "n", .opt .text), (.named "t", .var "Notes")]
  refine ⟨R, .inl ⟨rfl, rfl⟩, ?_⟩
  rintro t t' u (⟨rfl, rfl⟩ | ⟨rfl, rfl⟩ | ⟨rfl, rfl⟩) ht
  · rw [show chains.resolve (.var "Chain") = .ok _ from Scope.resolve_var rfl (by nofun)] at ht
    cases ht
    refine ⟨_, Scope.resolve_var rfl (by nofun), .variant (by decide) ?_⟩
    refine List.forall_mem_cons.mpr ⟨?_, List.forall_mem_singleton.mpr ?_⟩
    · exact ⟨_, .tail _ (.head _), rfl, .inr (.inl ⟨rfl, rfl⟩)⟩
    · exact ⟨_, .tail _ (.tail _ (.head _)), rfl, .inr (.inr ⟨rfl, rfl⟩)⟩
  · rw [Scope.resolve_of_ne_var (by nofun)] at ht
    cases ht
    exact ⟨_, Scope.resolve_of_ne_var (by nofun), .record .nil nofun⟩
  · rw [Scope.resolve_of_ne_var (by nofun)] at ht
    cases ht
    refine ⟨_, Scope.resolve_of_ne_var (by nofun), .record (by decide) ?_⟩
    refine List.forall_mem_cons.mpr ⟨?_, List.forall_mem_singleton.mpr ?_⟩
    · exact .inr ⟨by decide, .text, Scope.resolve_of_ne_var (by nofun)⟩
    · exact .inl ⟨_, .tail _ (.head _), rfl, .inl ⟨rfl, rfl⟩⟩

/-- A list of one number and an empty one behind it, read as a list with notes alone. -/
theorem chain_of_one_evolves :
    ∃ bytes, encodeAs chains [.variant (.named "c") (.record [(.named "h", .number 1),
        (.named "t", .variant (.named "b") (.record []) 0)]) 0, .variant (.named "b") (.record []) 0]
        [.var "Chain", .var "Chain"] = .ok bytes ∧
      decodeAs notes bytes [.var "Notes"] = .ok [.variant (.named "c") (.record
        [(.named "n", .nothing), (.named "t", .variant (.named "b") (.record []) 1)]) 2] := by
  have hordered : chains.Ordered := by
    refine List.forall_mem_singleton.mpr (.variant (by decide) ?_)
    refine List.forall_mem_cons.mpr ⟨.record .nil nofun, List.forall_mem_singleton.mpr ?_⟩
    refine .record (by decide) ?_
    exact List.forall_mem_cons.mpr ⟨.prim _, List.forall_mem_singleton.mpr (.var _)⟩
  have hencode : encodeAs chains [.variant (.named "c") (.record [(.named "h", .number 1),
      (.named "t", .variant (.named "b") (.record []) 0)]) 0, .variant (.named "b") (.record []) 0]
      [.var "Chain", .var "Chain"] = .ok [68, 73, 68, 76, 3, 107, 2, 98, 1, 99, 2, 108, 0, 108, 2,
        104, 125, 116, 0, 2, 0, 0, 1, 1, 0, 0] := by
    cbv
  have hdecode : decodeAs chains [68, 73, 68, 76, 3, 107, 2, 98, 1, 99, 2, 108, 0, 108, 2, 104, 125,
      116, 0, 2, 0, 0, 1, 1, 0, 0] [.var "Chain", .var "Chain"] = .ok [.variant (.named "c")
        (.record [(.named "h", .int .nat 1), (.named "t", .variant (.named "b") (.record []) 0)]) 1,
        .variant (.named "b") (.record []) 0] := by
    cbv
  obtain ⟨results, hresults, hevolved⟩ := decodeAs_evolved hordered
    (List.forall_mem_cons.mpr ⟨.var _, List.forall_mem_singleton.mpr (.var _)⟩)
    (.cons chain_evolves (.removed _)) hencode
  cases hdecode.symm.trans hresults
  refine ⟨_, hencode, hevolved.trans ?_⟩
  cbv

/-- To remove a result is an evolution, and to add an option behind the others is one, but not to do
both: results are told apart by their positions alone, and the option receives what was removed
where readers of the one and of the other change would have an empty one. -/
theorem added_result_receives_removed :
    EvolvesAll [] [] [.record [], .record []] [.record []] ∧
      EvolvesAll [] [] [.record []] [.record [], .opt .text] ∧
      ∃ bytes, encodeAs [] [.record [], .record []] [.record [], .record []] = .ok bytes ∧
        decodeAs [] bytes [.record [], .opt .text] = .ok [.record [], .record []] ∧
        adaptedAll [] (adaptedAll [] [.record [], .record []] [.record []])
          [.record [], .opt .text] = [.record [], .nothing] := by
  have hunit : Evolves [] [] (.record []) (.record []) := by
    refine ⟨fun t t' => t = .record [] ∧ t' = .record [], ⟨rfl, rfl⟩, ?_⟩
    rintro t t' u ⟨rfl, rfl⟩ ht
    rw [Scope.resolve_of_ne_var (by nofun)] at ht
    cases ht
    exact ⟨_, Scope.resolve_of_ne_var (by nofun), .record .nil nofun⟩
  have hoptional : Scope.Optional [] (.opt .text) := ⟨.text, Scope.resolve_of_ne_var (by nofun)⟩
  refine ⟨.cons hunit (.removed _), .cons hunit (.added (List.forall_mem_singleton.mpr hoptional)),
    [68, 73, 68, 76, 1, 108, 0, 2, 0, 0], ?_, ?_, ?_⟩
  · cbv
  · cbv
  · cbv

end CanisterShell.Candid
