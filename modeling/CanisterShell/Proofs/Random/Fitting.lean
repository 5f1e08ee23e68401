import CanisterShell.Proofs.Candid.Casting
import CanisterShell.Proofs.Random.Drawing

/-!
# Drawn values fit their types

What is drawn for a type suits it at every depth (`valueOf_makes`), if a value can be drawn for all the
types that one comes to (`Drawable`): they are defined, some value is in each of them, and the range of
the settings does not end below one of their integer types.  Such values are written at their types
(`values_fit`).  A type above the range has no number to be drawn (`values_fail_below`).
-/

namespace CanisterShell

open List (Forall₂)

namespace Candid

namespace Value

/-- A value has, at every depth, the form of its type: a record has the fields of the type, under the
same labels, and a variant one of its cases. -/
inductive Suits (scope : Scope) : Value → Ty → Prop
  | leaf {v : Value} {t u : Ty} : scope.resolve t = .ok u → v.IsLeaf u → Suits scope v t
  | opt {v : Value} {t item : Ty} : scope.resolve t = .ok (.opt item) → Suits scope v item →
    Suits scope (opt v) t
  | vec {vs : List Value} {t item : Ty} : scope.resolve t = .ok (.vec item) →
    scope.isByte item = .ok false → (∀ v ∈ vs, Suits scope v item) → Suits scope (vec vs) t
  | blob {t item : Ty} (bytes : Bytes) : scope.resolve t = .ok (.vec item) →
    scope.isByte item = .ok true → Suits scope (blob bytes) t
  | record {t : Ty} {expected : List (Label × Ty)} {fields : List (Label × Value)} :
    scope.resolve t = .ok (.record expected) → Ascending expected →
    expected.map (·.1) = fields.map (·.1) →
    (∀ pair ∈ expected.zip fields, Suits scope pair.2.2 pair.1.2) → Suits scope (record fields) t
  | variant {t u : Ty} {cases : List (Label × Ty)} {label : Label} {v : Value} (index : Nat) :
    scope.resolve t = .ok (.variant cases) → Ascending cases → (label, u) ∈ cases →
    Suits scope v u → Suits scope (variant label v index) t

end Value

namespace Wire

open Value (Suits)

variable {scope : Scope} {t : Ty} {v : Value}

theorem exists_conveyed_fields {expected : List (Label × Ty)} {fields : List (Label × Value)}
    (hlabels : expected.map (·.1) = fields.map (·.1))
    (h : ∀ pair ∈ expected.zip fields, ∃ w, Conveyed scope pair.1.2 pair.2.2 w) :
    ∃ fs : List (Label × Value × Value), fs.map (fun (l, v, _) => (l, v)) = fields ∧
      Forall₂ (fun e f => f.1 = e.1 ∧ Conveyed scope e.2 f.2.1 f.2.2) expected fs := by
  induction expected generalizing fields with
  | nil =>
    cases fields with
    | nil => exact ⟨[], rfl, .nil⟩
    | cons f fields => cases hlabels
  | cons e expected ih =>
    cases fields with
    | nil => cases hlabels
    | cons f fields =>
      obtain ⟨hlabel, hlabels⟩ := List.cons.inj hlabels
      obtain ⟨⟨w, hw⟩, hrest⟩ := List.forall_mem_cons.mp h
      obtain ⟨fs, rfl, hfs⟩ := ih hlabels hrest
      exact ⟨(f.1, f.2, w) :: fs, rfl, .cons ⟨hlabel.symm, hw⟩ hfs⟩

theorem exists_conveyed_of_suits (h : Suits scope v t) : ∃ w, Conveyed scope t v w := by
  induction h with
  | leaf ht hleaf => exact ⟨_, conveyed_of_inhabits (.leaf ht hleaf)⟩
  | opt ht _ ih =>
    obtain ⟨w, hw⟩ := ih
    exact ⟨_, .opt ht hw⟩
  | @vec vs t item ht hbyte _ ih =>
    have hall : ∃ ws, Forall₂ (Conveyed scope item) vs ws := by
      choose! f hf using ih
      exact ⟨vs.map f, List.forall₂_map_right_iff.mpr (List.forall₂_same.mpr hf)⟩
    obtain ⟨ws, hws⟩ := hall
    exact ⟨_, .vec ht hbyte hws⟩
  | blob bytes ht hbyte => exact ⟨_, .blob ht (resolve_of_isByte hbyte) bytes⟩
  | record ht hasc hlabels _ ih =>
    obtain ⟨fs, rfl, hfs⟩ := exists_conveyed_fields hlabels ih
    exact ⟨_, .record ht hasc hfs⟩
  | variant index ht hasc hmem _ ih =>
    obtain ⟨w, hw⟩ := ih
    obtain ⟨i, hfind, hget⟩ := exists_findIdx?_of_mem hasc hmem rfl
    exact ⟨_, .variant index ht hfind hget hw⟩

end Wire

end Candid

namespace Random

open Candid Candid.Value

/-- A value can be drawn for all types that one comes to from a type. -/
structure Drawable (c : Config) (scope : Scope) (t : Ty) : Prop where
  grounded : scope.Grounded t
  floatFree : scope.FloatFree t
  noEmpty : ¬scope.Reaches t .empty
  noEmptyVariant : ¬scope.Reaches t (.variant [])
  met : ∀ kind, scope.Reaches t (.prim (.int kind)) → c.Meets kind

variable {c : Config} {scope : Scope} {t u : Ty}

namespace Drawable

theorem of_reaches (h : Drawable c scope t) (hu : scope.Reaches t u) : Drawable c scope u where
  grounded := ⟨fun name hname => h.grounded.defined name (hu.trans hname),
    fun name hname => h.grounded.acyclic name (hu.trans hname)⟩
  floatFree := h.floatFree.of_reaches hu
  noEmpty hempty := h.noEmpty (hu.trans hempty)
  noEmptyVariant hempty := h.noEmptyVariant (hu.trans hempty)
  met kind hkind := h.met kind (hu.trans hkind)

theorem component {part : Ty} (h : Drawable c scope t) (hu : scope.resolve t = .ok u)
    (hpart : part ∈ u.components) : Drawable c scope part :=
  h.of_reaches ((Scope.Reaches.of_resolve hu).tail (.component hpart))

theorem exists_resolve (h : Drawable c scope t) : ∃ u, scope.resolve t = .ok u :=
  h.grounded.exists_resolve .refl

end Drawable

/-! ## Values without parts -/

theorem makes_principal :
    (Drawing.below (2 ^ 20 + 1) >>= fun n => match Principal.ofIndex n with
      | .ok p => return .principal p
      | .error _ => throw (.fault .overflow) : Drawing Value).Makes (IsLeaf · (.prim .principal)) := by
  refine (Drawing.Makes.below _).bind fun n hn => ?_
  have hindex : n < 2 ^ 64 := by omega
  rw [Principal.ofIndex, if_pos hindex]
  exact .pure (.principal _)

theorem textValue_makes (c : Config) : (textValue c).Makes fun _ => True := by
  refine (Drawing.Makes.between _ _).bind fun n _ => ?_
  have hletters {from_ : List Char} (h : from_ ≠ []) :
      (do return String.ofList (← Drawing.times (Drawing.choice from_) n.toNat) :
        Drawing String).Makes fun _ => True :=
    ((Drawing.Makes.choice _).times n.toNat).bind fun _ _ => .pure trivial
  cases c.text with
  | name => exact (Drawing.Makes.choice _).mono fun _ _ => trivial
  | ascii | alphanumeric | emoji => exact hletters (by decide)

theorem primValue_makes {p : Prim} (h : Drawable c scope (.prim p)) :
    (primValue c p).Makes (IsLeaf · (.prim p)) := by
  cases p with
  | null => exact .pure .null
  | reserved => exact .pure .reserved
  | empty => exact absurd .refl h.noEmpty
  | bool => exact Drawing.Makes.coin.bind fun b _ => .pure (.bool b)
  | int kind =>
    refine (number_makes (h.met kind .refl)).bind fun n hn => ?_
    exact .of_ok (if_pos hn) (.int hn)
  | float kind => exact absurd .refl (h.floatFree kind)
  | text => exact (textValue_makes c).bind fun s _ => .pure (.text s)
  | principal => exact makes_principal

/-! ## The cases to choose from -/

theorem exists_filterAuxM {α : Type} {test : α → Attempt Bool} {items : List α}
    (h : ∀ a ∈ items, ∃ b, test a = .ok b) (kept : List α) :
    ∃ result, List.filterAuxM test items kept = .ok result := by
  induction items generalizing kept with
  | nil => exact ⟨kept, rfl⟩
  | cons a items ih =>
    obtain ⟨⟨b, hb⟩, hitems⟩ := List.forall_mem_cons.mp h
    obtain ⟨result, hresult⟩ := ih hitems (cond b (a :: kept) kept)
    exact ⟨result, by rw [List.filterAuxM, hb, Attempt.ok_bind, hresult]⟩

theorem exists_choices (depth : Int) {cases : List (Label × Ty)}
    (h : ∀ c ∈ cases, ∃ u, scope.resolve c.2 = .ok u) :
    ∃ chosen, choices scope depth cases = .ok chosen := by
  have htest : ∀ c ∈ cases.zipIdx.map (fun p => (p.2, p.1)),
      ∃ b, (do return (← scope.resolve c.2.2).isPrim : Attempt Bool) = .ok b := by
    intro c hc
    obtain ⟨pair, hpair, rfl⟩ := List.mem_map.mp hc
    obtain ⟨u, hu⟩ := h pair.1 (List.fst_mem_of_mem_zipIdx hpair)
    exact ⟨u.isPrim, by rw [hu]; rfl⟩
  obtain ⟨result, hresult⟩ := exists_filterAuxM htest []
  have hleaves : leaves scope (cases.zipIdx.map fun p => (p.2, p.1)) = .ok result.reverse := by
    rw [leaves, List.filterM, hresult]
    rfl
  rw [choices]
  split
  · exact ⟨_, rfl⟩
  · rw [hleaves]
    exact ⟨_, rfl⟩

/-! ## Values with parts -/

section

variable {draw : Ty → Drawing Value}

theorem items_make {item : Ty} (hu : scope.resolve t = .ok (.vec item)) (h : Drawable c scope item)
    (hitem : (draw item).Makes (Suits scope · item)) (n : Nat) :
    (do
      if ← (scope.isByte item : Except Failure Bool) then
        return .blob ((← Drawing.times (Drawing.below 256) n).map UInt8.ofNat)
      else return .vec (← Drawing.times (draw item) n) : Drawing Value).Makes (Suits scope · t) := by
  obtain ⟨u, hu'⟩ := h.exists_resolve
  have hbyte : scope.isByte item = .ok u.isByte := by
    rw [Scope.isByte, hu']
    rfl
  refine .bind_ok hbyte ?_
  cases hb : u.isByte with
  | true =>
    rw [hb] at hbyte
    exact ((Drawing.Makes.below _).times n).bind fun bytes _ => .pure (.blob _ hu hbyte)
  | false =>
    rw [hb] at hbyte
    exact (hitem.times n).bind fun vs hvs => .pure (.vec hu hbyte hvs)

theorem record_makes {fields : List (Label × Ty)} (hu : scope.resolve t = .ok (.record fields))
    (hasc : Ascending fields) (h : ∀ f ∈ fields, (draw f.2).Makes (Suits scope · f.2)) :
    (do
      let values ← fields.mapM fun (label, u) => do return (label, ← draw u)
      (Value.mkRecord values : Except Failure Value) : Drawing Value).Makes (Suits scope · t) := by
  have hparts : (fields.mapM fun (label, u) => do return (label, ← draw u) : Drawing _).Makes
      (Forall₂ (fun f g => f.1 = g.1 ∧ Suits scope g.2 f.2) fields) :=
    .mapM fun f hf => (h f hf).bind fun v hv => .pure ⟨rfl, hv⟩
  refine hparts.bind fun values hvalues => ?_
  have hlabels : fields.map (·.1) = values.map (·.1) := by
    rw [← List.forall₂_eq_eq_eq, List.forall₂_map_left_iff, List.forall₂_map_right_iff]
    exact hvalues.imp fun _ _ hfg => hfg.1
  have hids : fields.map (·.1.id) = values.map (·.1.id) :=
    map_id_of_forall₂ (hvalues.imp fun _ _ hfg => congrArg Label.id hfg.1.symm)
  refine .of_ok (mkRecord_of_ascending (hasc.of_ids hids)) (.record hu hasc hlabels ?_)
  exact fun pair hpair => (List.forall₂_zip hvalues hpair).2

theorem variant_makes {cases : List (Label × Ty)} (hu : scope.resolve t = .ok (.variant cases))
    (hasc : Ascending cases) (depth : Int)
    (hresolves : ∀ c ∈ cases, ∃ u, scope.resolve c.2 = .ok u)
    (h : ∀ c ∈ cases, (draw c.2).Makes (Suits scope · c.2)) :
    (do
      let (i, label, u) ← Drawing.choice (← (choices scope depth cases :
        Except Failure (List (Nat × Label × Ty))))
      return .variant label (← draw u) i : Drawing Value).Makes (Suits scope · t) := by
  obtain ⟨chosen, hchosen⟩ := exists_choices depth hresolves
  refine .bind_ok hchosen ((Drawing.Makes.choice _).bind ?_)
  rintro ⟨i, label, u⟩ hcase
  have hcase := choices_give depth cases _ hchosen _ hcase
  exact (h _ hcase).bind fun v hv => .pure (.variant i hu hasc hcase hv)

end

/-- What is drawn for a type suits it.  The induction is on the fuel: the parts are drawn with less. -/
theorem valueOf_makes (hscope : scope.Ordered) (fuel : Nat) (depth : Int) {t : Ty}
    (ht : t.Ordered) (h : Drawable c scope t) :
    (valueOf c scope fuel depth t).Makes (Suits scope · t) := by
  induction fuel generalizing depth t with
  | zero => exact .exhausted
  | succ fuel ih =>
    obtain ⟨u, hu⟩ := h.exists_resolve
    have hordered := Scope.resolve_ordered hscope ht hu
    have hcomponent : ∀ part ∈ u.components, Drawable c scope part := fun _ => h.component hu
    rw [valueOf]
    refine .bind_ok hu ?_
    cases hordered with
    | prim p =>
      have hp := h.of_reaches (Scope.Reaches.of_resolve hu)
      exact (primValue_makes hp).mono fun v hv => .leaf hu hv
    | @opt item hitem =>
      have hnothing : (Pure.pure .nothing : Drawing Value).Makes (Suits scope · t) :=
        .pure (.leaf hu (.nothing item))
      dsimp only
      split
      · exact hnothing
      · refine Drawing.Makes.coin.bind fun b _ => ?_
        split
        · exact hnothing
        · exact (ih (depth - 1) hitem (hcomponent _ (.head _))).bind fun v hv => .pure (.opt hu hv)
    | @vec item hordered =>
      have hitem := hcomponent _ (.head _)
      have hitems := items_make hu hitem (ih (depth - 1) hordered hitem)
      dsimp only
      split
      · exact hitems 0
      · exact (Drawing.Makes.below _).bind fun n _ => hitems n
    | record hasc hfields =>
      exact record_makes hu hasc fun f hf =>
        ih (depth - 1) (hfields f hf) (hcomponent _ (List.mem_map_of_mem hf))
    | @variant cases hasc hcases =>
      have hpart : ∀ c' ∈ cases, Drawable c scope c'.2 := fun c' hc' =>
        hcomponent _ (List.mem_map_of_mem hc')
      cases cases with
      | nil => exact absurd (Scope.Reaches.of_resolve hu) h.noEmptyVariant
      | cons first rest =>
        exact variant_makes hu hasc depth
          (fun c' hc' => (hpart c' hc').exists_resolve)
          fun c' hc' => ih (depth - 1) (hcases c' hc') (hpart c' hc')
    | func modes => exact .pure (.leaf hu (.func _ _ _ _ _))
    | service => exact .pure (.leaf hu (.service _ _))
    | var name => exact absurd rfl (Scope.resolve_ne_var hu name)

/-! ## Values in a message -/

theorem exists_encodeAs {vs : List Value} {ts : List Ty}
    (hts : ∀ t ∈ ts, scope.Grounded t) (h : Forall₂ (fun t v => Suits scope v t) ts vs) :
    ∃ bytes, encodeAs scope vs ts = .ok bytes := by
  obtain ⟨rs, table, hrefs⟩ :=
    Wire.exists_refs_of_resolves fun t ht => Wire.resolves_of_grounded (hts t ht)
  have hparts : ∃ parts, ((vs.zip ts).mapM fun p => Wire.valueBytes scope p.1 p.2) = .ok parts := by
    refine Attempt.exists_mapM_ok fun pair hpair => ?_
    obtain ⟨_, bytes, hbytes, -⟩ :=
      Wire.exists_conveyed_of_suits (List.forall₂_zip h.flip hpair)
    exact ⟨bytes, hbytes⟩
  obtain ⟨parts, hparts⟩ := hparts
  refine ⟨Wire.magic ++ table.bytes ++ Wire.leb rs.length ++ rs.flatMap Wire.sleb ++ parts.flatten, ?_⟩
  rw [encodeAs, if_neg (not_not.mpr h.length_eq), hrefs, Attempt.ok_bind]
  exact Attempt.bind_ok_iff.mpr ⟨parts, hparts, rfl⟩

/-- Values drawn for types for which values can be drawn are written at them, unless drawing them is cut
off. -/
theorem values_fit (hscope : scope.Ordered) {ts : List Ty} (hts : ∀ t ∈ ts, t.Ordered)
    (h : ∀ t ∈ ts, Drawable c scope t) (fuel seed : Nat) :
    valuesWithin c scope fuel seed ts = .error .exhausted ∨
      ∃ vs bytes, valuesWithin c scope fuel seed ts = .ok vs ∧ encodeAs scope vs ts = .ok bytes := by
  have hmakes : (ts.mapM (valueOf c scope fuel c.depth)).Makes
      (Forall₂ (fun t v => Suits scope v t) ts) :=
    .mapM fun t ht => valueOf_makes hscope fuel c.depth (hts t ht) (h t ht)
  rcases hmakes (.ofSeed (c.seed?.getD seed)) with hrun | ⟨vs, t', hrun, hvs⟩
  · exact .inl (by rw [valuesWithin, StateT.run'_eq, hrun]; rfl)
  · obtain ⟨bytes, hbytes⟩ := exists_encodeAs (fun t ht => (h t ht).grounded) hvs
    exact .inr ⟨vs, bytes, by rw [valuesWithin, StateT.run'_eq, hrun]; rfl, hbytes⟩

/-- Stacks of small numbers, with what is known of them. -/
def stackScope : Scope :=
  [("Stack", .opt (.record [(.numbered 0, .nat8), (.numbered 1, .var "Stack")])),
    ("Notes", .vec (.variant [(.named "age", .int), (.named "name", .text)]))]

/-- What one comes to from stacks and their notes. -/
def stackTypes : List Ty :=
  [.var "Stack", .opt (.record [(.numbered 0, .nat8), (.numbered 1, .var "Stack")]),
    .record [(.numbered 0, .nat8), (.numbered 1, .var "Stack")], .nat8, .var "Notes",
    .vec (.variant [(.named "age", .int), (.named "name", .text)]),
    .variant [(.named "age", .int), (.named "name", .text)], .int, .text]

/-- Values are drawn for stacks and notes from a range that begins below the bytes and ends above, and
a message holds them. -/
theorem stack_and_notes_fit :
    let c : Config := { range? := some (.number (-7), .number 300) }
    (∀ t ∈ [Ty.var "Stack", .var "Notes"], Drawable c stackScope t) ∧
      ∃ vs bytes, valuesWithin c stackScope 12 1 [.var "Stack", .var "Notes"] = .ok vs ∧
        encodeAs stackScope vs [.var "Stack", .var "Notes"] = .ok bytes := by
  intro c
  have hclosed : stackScope.Closed stackTypes := by
    refine ⟨?_, ?_⟩
    · simp [stackTypes, Ty.components, Ty.nat8, Ty.int, Ty.text]
    · simp [stackTypes, stackScope, Table.find?_cons, Ty.nat8, Ty.int, Ty.text]
  have hdrawable : ∀ t ∈ stackTypes, Drawable c stackScope t := fun t ht => {
    grounded := hclosed.grounded (fun _ => 0)
      (by simp [stackTypes, stackScope, Scope.Alias, Table.find?_cons, Ty.nat8, Ty.int, Ty.text]) ht
    floatFree := hclosed.floatFree (by simp [stackTypes, Ty.nat8, Ty.int, Ty.text]) ht
    noEmpty := fun h => absurd (hclosed.mem_of_reaches ht h)
      (by simp [stackTypes, Ty.nat8, Ty.int, Ty.text, Ty.empty])
    noEmptyVariant := fun h => absurd (hclosed.mem_of_reaches ht h)
      (by simp [stackTypes, Ty.nat8, Ty.int, Ty.text])
    met := by
      rintro kind - low high ⟨⟩ least hleast
      cases kind <;> cases hleast <;> decide }
  have hordered : stackScope.Ordered := by
    refine List.forall_mem_cons.mpr ⟨.opt (.record (by decide) ?_), List.forall_mem_singleton.mpr ?_⟩
    · exact List.forall_mem_cons.mpr ⟨.prim _, List.forall_mem_singleton.mpr (.var _)⟩
    · refine .vec (.variant (by decide) ?_)
      exact List.forall_mem_cons.mpr ⟨.prim _, List.forall_mem_singleton.mpr (.prim _)⟩
  have hts : ∀ t ∈ [Ty.var "Stack", .var "Notes"], Drawable c stackScope t :=
    List.forall_mem_cons.mpr ⟨hdrawable _ (.head _),
      List.forall_mem_singleton.mpr (hdrawable _ (by simp [stackTypes]))⟩
  have htypes : ∀ t ∈ [Ty.var "Stack", .var "Notes"], t.Ordered :=
    List.forall_mem_cons.mpr ⟨.var _, List.forall_mem_singleton.mpr (.var _)⟩
  obtain ⟨vs, hvs⟩ : ∃ vs, valuesWithin c stackScope 12 1 [.var "Stack", .var "Notes"] = .ok vs :=
    Attempt.exists_of_isOk (by decide +kernel)
  refine ⟨hts, (values_fit hordered htypes hts 12 1).resolve_left ?_⟩
  rw [hvs]
  intro h
  cases h

/-! ## Types above the range -/

/-- No value is drawn for an integer type above the range of the settings: the end of the range is taken
for a number of the type, and refused. -/
theorem valuesWithin_below {kind : IntKind} {low high : Bound} {least : Int}
    (hrange : c.range? = some (low, high)) (hleast : kind.least? = some least)
    (hbelow : high.value < least) (fuel seed : Nat) :
    valuesWithin c scope (fuel + 1) seed [.prim (.int kind)] = .error .exhausted ∨
      valuesWithin c scope (fuel + 1) seed [.prim (.int kind)] =
        .error (.cast (.range high.value kind)) := by
  have hholds : ¬kind.holds high.value := by
    rw [IntKind.holds, hleast]
    simp [hbelow]
  have hresolve := Scope.resolve_prim scope (.int kind)
  have hvalue (t : Twister) : (valueOf c scope (fuel + 1) c.depth (.prim (.int kind))).run t =
      (number c kind.least? kind.greatest?).run t >>= fun p =>
        (liftM (Value.mkInt kind p.1) : Drawing Value).run p.2 := by
    rw [valueOf, hresolve]
    rfl
  rw [valuesWithin, StateT.run'_eq, List.mapM_cons, StateT.run_bind, hvalue]
  rcases number_makes_of_below hrange hleast hbelow (.ofSeed (c.seed?.getD seed)) with
    hcut | ⟨n, t', hn, rfl⟩
  · rw [hcut]
    exact .inl rfl
  · rw [hn, Attempt.ok_bind, Value.mkInt, if_neg hholds]
    exact .inr rfl

/-- A range of negative numbers is taken for settings, and then no natural number can be drawn. -/
theorem values_negativeRange_fail :
    ∃ c, Config.ofDatum (.map [(.text "range", .list [.int (-5), .int (-1)])]) = .ok c ∧
      values c [] 1 [.nat] = .error (.cast (.range (-1) .nat)) ∧
      ∀ seed vs, values c [] seed [.nat] ≠ .ok vs := by
  let negative : Config := { range? := some (.number (-5), .number (-1)) }
  have hrange : negative.range? = some (.number (-5), .number (-1)) := rfl
  have hleast : IntKind.nat.least? = some 0 := rfl
  have hfails (seed : Nat) : values negative [] seed [.nat] = .error .exhausted ∨
      values negative [] seed [.nat] = .error (.cast (.range (-1) .nat)) :=
    valuesWithin_below hrange hleast (by decide) _ seed
  refine ⟨negative, rfl, (hfails 1).resolve_left fun hcut => ?_, fun seed vs hvs => ?_⟩
  · have hends : (match values negative [] 1 [.nat] with
        | .error .exhausted => true
        | _ => false) = false := by decide +kernel
    rw [hcut] at hends
    cases hends
  · rcases hfails seed with hcut | hrange
    · rw [hcut] at hvs
      cases hvs
    · rw [hrange] at hvs
      cases hvs

end Random

end CanisterShell
