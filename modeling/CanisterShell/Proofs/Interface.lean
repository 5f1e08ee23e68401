import CanisterShell.Interface
import CanisterShell.Management
import CanisterShell.Proofs.Candid.Failure
import CanisterShell.Proofs.Candid.Ordered
import CanisterShell.Proofs.Syntax.Building
import CanisterShell.Proofs.Syntax.Sound
import CanisterShell.Proofs.Table

/-!
# Compiled interfaces

Rule by rule the grammars build types whose fields and methods are in order, so whatever interface is
read, its items hold such types only (`parseInterface_ordered`).

An interface text without imports compiles to an interface or fails with an error, but for one case:
it is an interface by its grammar, and one of its quoted texts has an escape in braces without a digit
(`compile_unforeseen_iff`).  Whatever a text imports, the types of the interface that it compiles to
are in order (`compile_ordered`), and so are those of the interface that every session knows
(`Management.interface_ordered`).
-/

namespace CanisterShell.Syntax

open Candid (Ty Label)

/-! ## Types that are read -/

/-- An item of an interface whose types are in order. -/
inductive Item.Ordered : Item → Prop where
  | define (name : String) {t : Ty} (h : t.Ordered) : Item.Ordered (.define name t)
  | includeFile (path : String) : Item.Ordered (.includeFile path)
  | actor {init? : Option (List Ty)} {service : Ty} (hinit : ∀ ts, init? = some ts → ∀ t ∈ ts, t.Ordered)
      (h : service.Ordered) : Item.Ordered (.actor init? service)

/-- What phrases of nonterminals mean: attempts to build types that are in order. -/
def Typed : (n : Nonterminal) → Meaning n → Prop
  | .datatype, x => x.Gives Ty.Ordered
  | .typeFields, x => x.Gives fun fs => ∀ f ∈ fs, f.2.Ordered
  | .typeArgs, x => x.Gives fun ts => ∀ t ∈ ts, t.Ordered
  | .methodSigs, x => x.Gives fun ms => ∀ m ∈ ms, m.2.Ordered
  | .interface, x => x.Gives fun items => ∀ i ∈ items, i.Ordered
  | .exp, _ | .unary, _ | .primary, _ | .args, _ | .items, _ | .fields, _ | .field, _ | .commands, _
  | .command, _ | .ifCommand, _ => True

namespace Phrase

open Rule (lit optional)

variable {tokens : List Token} {α : Type}

/-- A phrase that means attempts whose results are in `P`, if nonterminals mean ordered types. -/
abbrev Types (tokens : List Token) (p : Phrase (Attempt α)) (P : α → Prop) : Prop :=
  Rule.All (· ∈ tokens) Typed p fun x => x.Gives P

theorem ofName_ordered (name : String) : (Ty.ofName name).Ordered := by
  rw [Ty.ofName]
  cases Candid.Prim.ofName? name with
  | none => exact .var name
  | some p => exact .prim p

theorem datatype_typed : Types tokens (ref .datatype) Ty.Ordered := fun _ h => h

theorem ofType_typed : Types tokens ofType Ty.Ordered := .seqRight datatype_typed

theorem optional_ofType {k : Option (Attempt Ty)}
    (h : Rule.Means (· ∈ tokens) Typed (optional ofType) k) : ∀ t, k = some t → t.Gives Ty.Ordered :=
  fun t ht => ofType_typed t (Rule.means_optional.mp h t ht)

theorem tupleType_typed : Types tokens tupleType fun ts => ∀ t ∈ ts, t.Ordered :=
  .seqLeft (.seqRight fun _ h => h)

theorem funcType_typed : Types tokens funcType Ty.Ordered := by
  refine .map₃ fun args results modes ha hr _ => ?_
  have hresults : Types tokens (lit "->" *> tupleType) fun ts => ∀ t ∈ ts, t.Ordered :=
    .seqRight tupleType_typed
  exact (tupleType_typed args ha).bind fun _ hargs => (hresults results hr).bind fun _ hresults =>
    .bind_right fun modes => .ok (.func modes hargs hresults)

theorem serviceBody_typed : Types tokens serviceBody Ty.Ordered := by
  have hmethods : Types tokens (lit "\x7b" *> ref .methodSigs <* lit "\x7d")
      fun ms => ∀ m ∈ ms, m.2.Ordered := .seqLeft (.seqRight fun _ h => h)
  exact .map fun methods h => (hmethods methods h).bind fun _ hs => .ok (Ty.mkService_ordered hs)

theorem labelFields_ordered {fields : List TypeField} (h : ∀ f ∈ fields, f.2.Ordered) (next : Nat) :
    ∀ f ∈ labelFields next fields, f.2.Ordered := by
  induction fields generalizing next with
  | nil => nofun
  | cons f fields ih =>
    obtain ⟨label?, t⟩ := f
    obtain ⟨ht, hrest⟩ := List.forall_mem_cons.mp h
    exact List.forall_mem_cons.mpr ⟨ht, ih hrest _⟩

theorem typeCase_ordered {field : TypeField} (h : field.2.Ordered) :
    (typeCase field).Gives fun c => c.2.Ordered := by
  unfold typeCase
  split
  · exact .ok h
  · exact .ok (.prim _)
  · exact .ok (.prim _)
  · exact .error _

theorem typeFields_typed : Types tokens typeFields fun fs => ∀ f ∈ fs, f.2.Ordered :=
  .seqLeft (.seqRight fun _ h => h)

theorem structuralType_typed : Types tokens structuralType Ty.Ordered := by
  refine .orElse (.map fun _ _ => .ok (.prim _)) <| .orElse (.map fun _ _ => .ok (.prim _)) <|
    .orElse (.map fun _ _ => .ok (.vec (.prim _))) <| .orElse (.map fun t h => ?_) <|
    .orElse (.map fun t h => ?_) <| .orElse (.map fun fs h => ?_) <| .orElse (.map fun fs h => ?_) <|
    .orElse (.seqRight funcType_typed) (.seqRight serviceBody_typed)
  · exact (datatype_typed t (Rule.means_seqRight.mp h).2).bind fun _ ht => .ok (.opt ht)
  · exact (datatype_typed t (Rule.means_seqRight.mp h).2).bind fun _ ht => .ok (.vec ht)
  · exact (typeFields_typed fs (Rule.means_seqRight.mp h).2).bind fun _ hfs _ ht =>
      Ty.mkRecord_ordered ht (labelFields_ordered hfs 0)
  · exact (typeFields_typed fs (Rule.means_seqRight.mp h).2).bind fun _ hfs =>
      (Attempt.Gives.mapM fun f hf => typeCase_ordered (hfs f hf)).bind fun _ hcs _ ht =>
        Ty.mkVariant_ordered ht hcs

theorem typeField_typed : Types tokens typeField fun f => f.2.Ordered := by
  refine .orElse (.map₂ fun k t? _ h => ?_) <| .orElse (.map₂ fun k t? _ h => ?_) <|
    .orElse (.map₂ fun k t _ h => ?_) (.map fun t h => ?_)
  · cases t? with
    | none => exact .ok (ofName_ordered k.lexeme)
    | some t =>
      exact Attempt.Gives.bind_right fun _ => (optional_ofType h t rfl).bind fun _ ht => .ok ht
  · cases t? with
    | none => exact Attempt.Gives.bind_right fun _ => .ok (.prim _)
    | some t =>
      exact Attempt.Gives.bind_right fun _ => (optional_ofType h t rfl).bind fun _ ht => .ok ht
  · exact Attempt.Gives.bind_right fun _ => (ofType_typed t h).bind fun _ ht => .ok ht
  · exact (structuralType_typed t h).bind fun _ ht => .ok ht

theorem typeArg_typed : Types tokens typeArg Ty.Ordered := by
  refine .orElse (.map₂ fun k t? _ h => ?_) structuralType_typed
  cases t? with
  | none => exact .ok (ofName_ordered k.lexeme)
  | some t => exact optional_ofType h t rfl

theorem methodSig_typed : Types tokens methodSig fun m => m.2.Ordered := by
  have htype : Types tokens
      (lit ":" *> (funcType <|> ((fun k => .ok (.var k.lexeme)) <$> nameTok))) Ty.Ordered :=
    .seqRight (.orElse funcType_typed (.map fun _ _ => .ok (.var _)))
  exact .map₂ fun name t _ h => Attempt.Gives.bind_right fun _ => (htype t h).bind fun _ ht => .ok ht

/-! ### Interfaces -/

theorem actor_typed : Types tokens actor Item.Ordered := by
  have hservice : Types tokens (serviceBody <|> ((fun k => .ok (.var k.lexeme)) <$> nameTok))
      Ty.Ordered := .orElse serviceBody_typed (.map fun _ _ => .ok (.var _))
  have hinit : Types tokens (tupleType <* lit "->") fun ts => ∀ t ∈ ts, t.Ordered :=
    .seqLeft tupleType_typed
  refine .map₂ fun init? t hi ht => ?_
  have hi := Rule.means_optional.mp (Rule.means_seqRight.mp hi).2
  cases init? with
  | none => exact (hservice t ht).bind fun _ h => .ok (.actor nofun h)
  | some ts =>
    refine (Attempt.Gives.bind (hinit ts (hi ts rfl)) fun ts hts => .ok ?_).bind fun init? hinit? =>
      (hservice t ht).bind fun _ h => .ok (.actor hinit? h)
    rintro _ ⟨⟩
    exact hts

theorem lastItem_typed : Types tokens lastItem fun items => ∀ i ∈ items, i.Ordered := by
  refine .orElse (.map fun a h => ?_) (.pure (.ok nofun))
  exact (actor_typed a (Rule.means_seqLeft.mp h).1).bind fun _ ha =>
    .ok (List.forall_mem_singleton.mpr ha)

theorem definition_typed : Types tokens definition Item.Ordered := by
  refine .orElse (.map₂ fun name t _ h => ?_) (.map fun path _ => ?_)
  · exact (datatype_typed t (Rule.means_seqRight.mp h).2).bind fun _ ht => .ok (.define _ ht)
  · exact Attempt.Gives.bind_right fun path => .ok (.includeFile path)

theorem interface_typed : Types tokens interface fun items => ∀ i ∈ items, i.Ordered := by
  have hrest : Types tokens ((lit ";" *> ref .interface) <|> lastItem)
      fun items => ∀ i ∈ items, i.Ordered := .orElse (.seqRight fun _ h => h) lastItem_typed
  refine .orElse (.map₂ fun d rest hd hr => ?_) lastItem_typed
  exact (definition_typed d hd).bind fun _ h => (hrest rest hr).bind fun _ hs =>
    .ok (List.forall_mem_cons.mpr ⟨h, hs⟩)

/-! ### The rules -/

/-- The rule of each nonterminal builds types that are in order. -/
theorem rules_typed (n : Nonterminal) (m : Meaning n)
    (h : Rule.Means (· ∈ tokens) Typed (rules n) m) : Typed n m := by
  cases n with
  | datatype =>
    exact Rule.All.orElse (.map fun k _ => .ok (ofName_ordered k.lexeme)) structuralType_typed m h
  | typeFields =>
    have hmore : Types tokens (ref .typeFields) fun fs => ∀ f ∈ fs, f.2.Ordered := fun _ h => h
    exact separated_builds hmore typeField_typed m h
  | typeArgs =>
    have hmore : Types tokens (ref .typeArgs) fun ts => ∀ t ∈ ts, t.Ordered := fun _ h => h
    exact separated_builds hmore typeArg_typed m h
  | methodSigs =>
    have hmore : Types tokens (ref .methodSigs) fun ms => ∀ m ∈ ms, m.2.Ordered := fun _ h => h
    exact separated_builds hmore methodSig_typed m h
  | interface => exact interface_typed m h
  | _ => trivial

end Phrase

/-- The items of an interface hold types that are in order. -/
theorem parseInterface_ordered (source : String) :
    (parseInterface source).Gives fun items => ∀ i ∈ items, i.Ordered := by
  refine .bind_right fun prepared => ?_
  cases ht : interfaceGrammar.parse .interface prepared with
  | error e => exact .error _
  | ok tree =>
    have htree := Grammar.parse_means ht Phrase.rules_typed
    cases tree with
    | ok items => exact .ok (htree items rfl)
    | error f =>
      unfold build wholeLiteral
      cases f <;> exact .error _

end CanisterShell.Syntax

namespace CanisterShell.Interface

open Attempt (Foreseen Unforeseen)
open Candid Syntax

/-- A text that is an interface by its grammar, but has no tree for an escape in braces without a
digit in one of its quoted texts. -/
inductive Unbuildable (source : String) : Prop where
  | intro {blanked : List Char} {k : Token}
      (hb : Source.blankComments source.toList = .ok blanked)
      (ht : interfaceGrammar.parse .interface blanked = .ok (.error emptyEscape))
      (hk : k ∈ (scan interfaceGrammar.lexicon blanked).tokens) (htext : k.terminal = .text)
      (he : Literal.unquoteBytes k.lexeme = .error emptyEscape)

/-! ## Reading -/

theorem parseInterface_error {source : String} {f : Failure}
    (h : parseInterface source = .error f) : (∃ e, f = .error e) ∨ Unbuildable source := by
  rw [parseInterface] at h
  cases hb : Source.blankComments source.toList with
  | error e =>
    rw [hb] at h
    cases h
    exact .inl ⟨_, rfl⟩
  | ok blanked =>
    rw [hb] at h
    change build (interfaceGrammar.parse .interface blanked) = .error f at h
    cases ht : interfaceGrammar.parse .interface blanked with
    | error e =>
      rw [ht] at h
      cases h
      exact .inl ⟨_, rfl⟩
    | ok tree =>
      rw [ht] at h
      cases tree with
      | ok items => cases h
      | error e =>
        have hrefuses := Grammar.parse_means ht
          (Phrase.rules_refused fun _ hk hterm _ hs => exists_number_of_scanFrom hk hterm hs)
        cases hrefuses e rfl with
        | parse e _ =>
          cases h
          exact .inl ⟨_, rfl⟩
        | repeatedField label =>
          cases h
          exact .inl ⟨_, rfl⟩
        | emptyEscape hk htext he => exact .inr ⟨hb, ht, hk, htext, he⟩

theorem Unbuildable.parseInterface {source : String} (h : Unbuildable source) :
    parseInterface source = .error (.fault .insideLiteral) := by
  obtain ⟨hb, ht, -, -, -⟩ := h
  rw [Syntax.parseInterface, hb]
  show build (interfaceGrammar.parse .interface _) = _
  rw [ht]
  rfl

theorem itemsOf_unforeseen_iff {source : String} :
    Unforeseen (itemsOf source) ↔ Unbuildable source := by
  constructor
  · rintro ⟨f, hf, hne⟩
    rw [itemsOf] at hf
    cases hp : Syntax.parseInterface source with
    | ok items =>
      rw [hp] at hf
      cases hf
    | error f' =>
      obtain ⟨e, rfl⟩ | h := parseInterface_error hp
      · rw [hp] at hf
        cases e <;> cases hf <;> exact absurd rfl (hne _)
      · exact h
  · intro h
    rw [itemsOf, h.parseInterface]
    exact ⟨_, rfl, nofun⟩

/-! ## Compilation -/

theorem signatureOf_plain (scope : Scope) (t : Ty) : Attempt.Plain (signatureOf scope t) := by
  refine .bind (.bind (Scope.resolve_plain scope t) fun u => ?_) fun _ => .ok _
  split
  · exact .ok _
  · exact .eval _

theorem methodsOf_foreseen (scope : Scope) (service : Ty) :
    Foreseen ((methodsOf scope service).mapError badService) := by
  have hplain : Attempt.Plain (methodsOf scope service) := by
    refine .bind (.bind (Scope.resolve_plain scope service) fun u => ?_) fun methods => ?_
    · split
      · exact .ok _
      · exact .eval _
    · refine Attempt.Only.foldlM (fun table m _ => ?_) _
      exact (signatureOf_plain scope m.2).bind fun _ => .ok _
  refine hplain.mapError fun e he => ?_
  obtain ⟨cause, rfl⟩ := he
  exact ⟨_, rfl⟩

/-- Without a directory to seek imports from, a text fails to compile unforeseen only if it has no
tree. -/
theorem compile_unforeseen_iff (disk : File.Disk) {source : String} :
    Unforeseen (compile disk none source) ↔ Unbuildable source := by
  rw [← itemsOf_unforeseen_iff, compile, compileWithin, Attempt.unforeseen_bind_iff,
    Attempt.unforeseen_bind_iff]
  constructor
  · rintro ((h | ⟨items, -, h⟩) | ⟨_, -, _, h, -⟩)
    · exact h
    · -- what is made of the items fails with errors only: an import has no directory to start from
      refine (Foreseen.not_unforeseen (.bind (.foldlM (fun p item _ => ?_) _) fun progress => ?_)
        h).elim
      · cases item with
        | define name t => exact .ok _
        | actor init? service => exact .ok _
        | includeFile path => exact .error ⟨_, rfl⟩
      · dsimp only
        split
        · exact .ok _
        · exact (methodsOf_foreseen _ _).bind fun _ => .ok _
    · cases h
  · exact fun h => .inl (.inl h)

/-! ## Types in order -/

/-- The types of an interface are in order. -/
structure Ordered (info : Interface) : Prop where
  scope : info.scope.Ordered
  args : ∀ m ∈ info.methods, ∀ t ∈ m.2.args, t.Ordered
  results : ∀ m ∈ info.methods, ∀ t ∈ m.2.results, t.Ordered

theorem signatureOf_ordered {scope : Scope} (hscope : scope.Ordered) {t : Ty} (ht : t.Ordered) :
    (signatureOf scope t).Gives fun s => (∀ t ∈ s.args, t.Ordered) ∧ ∀ t ∈ s.results, t.Ordered := by
  have hresolve : (scope.resolve t).Gives Ty.Ordered := fun u hu =>
    Scope.resolve_ordered hscope ht hu
  refine .bind (Attempt.Gives.bind (Q := Ty.Ordered) hresolve fun u hu => ?_)
    (Q := fun f => (∀ t ∈ f.1, t.Ordered) ∧ ∀ t ∈ f.2.1, t.Ordered) fun f hf => .ok hf
  split
  · cases hu with
    | func modes hargs hresults => exact .ok ⟨hargs, hresults⟩
  · exact .error _

theorem methodsOf_ordered {scope : Scope} (hscope : scope.Ordered) {service : Ty}
    (hservice : service.Ordered) :
    (methodsOf scope service).Gives fun methods =>
      ∀ m ∈ methods, (∀ t ∈ m.2.args, t.Ordered) ∧ ∀ t ∈ m.2.results, t.Ordered := by
  have hresolve : (scope.resolve service).Gives Ty.Ordered := fun u hu =>
    Scope.resolve_ordered hscope hservice hu
  refine .bind (Attempt.Gives.bind (Q := Ty.Ordered) hresolve fun u hu => ?_)
    (Q := fun ms => ∀ m ∈ ms, m.2.Ordered) fun ms hms => ?_
  · split
    · cases hu with
      | service _ h => exact .ok h
    · exact .error _
  · refine .foldlM (fun methods hmethods m hm => ?_) nofun
    refine (signatureOf_ordered hscope (hms m hm)).bind fun s hs => .ok fun m' hm' => ?_
    obtain rfl | h := Table.mem_put hm'
    · exact hs
    · exact hmethods m' h

/-- What the items of a text have given so far is in order. -/
structure Progress.Ordered (p : Progress) : Prop where
  scope : p.scope.Ordered
  service : ∀ t, p.service? = some t → t.Ordered

theorem compileWithin_ordered (disk : File.Disk) (depth : Nat) (base? : Option File.Path)
    (seen : List File.Path) (source : String) :
    (compileWithin disk depth base? seen source).Gives fun r => r.1.Ordered := by
  induction depth generalizing base? seen source with
  | zero => exact .error _
  | succ depth ih =>
    have hitems : (itemsOf source).Gives fun items => ∀ i ∈ items, i.Ordered := fun items h => by
      rw [itemsOf] at h
      cases hp : parseInterface source with
      | ok items' =>
        rw [hp] at h
        cases h
        exact parseInterface_ordered source items hp
      | error f =>
        rw [hp] at h
        cases h
    refine hitems.bind fun items hitems => ?_
    refine .bind (Q := Progress.Ordered) (.foldlM (fun p hp item hitem => ?_) ⟨nofun, nofun⟩)
      fun p hp => ?_
    · cases hitems item hitem with
      | define name ht =>
        refine .ok ⟨fun d hd => ?_, hp.service⟩
        obtain rfl | h := Table.mem_put hd
        · exact ht
        · exact hp.scope d h
      | actor hinit ht =>
        refine .ok ⟨hp.scope, ?_⟩
        rintro _ ⟨⟩
        exact ht
      | includeFile path =>
        refine .bind_right fun full => ?_
        by_cases hseen : p.seen.contains full
        · rw [if_pos hseen]
          exact .ok hp
        · rw [if_neg hseen]
          refine .bind_right fun text => (ih (some full.parent) (full :: p.seen) text).bind
            fun r hr => .ok ⟨fun d hd => ?_, hp.service⟩
          -- a name is bound by the text that imports or by the one that is imported
          obtain h | h := Table.mem_merge hd
          · exact hp.scope d h
          · exact hr.scope d h
    · dsimp only
      split
      · exact .ok ⟨hp.scope, nofun, nofun⟩
      · refine (methodsOf_ordered hp.scope (hp.service _ ‹_›)).mapError.bind fun methods hmethods => ?_
        exact .ok ⟨hp.scope, fun m hm => (hmethods m hm).1, fun m hm => (hmethods m hm).2⟩

/-- A text compiles to an interface whose types are in order, whatever it imports. -/
theorem compile_ordered (disk : File.Disk) (base? : Option File.Path) (source : String) :
    (compile disk base? source).Gives Ordered :=
  (compileWithin_ordered disk _ base? [] source).bind fun _ hr => .ok hr

end CanisterShell.Interface

namespace CanisterShell.Management

open Candid

theorem recordOf_ordered {parts : List (String × Ty)} (hasc : Ascending (labelled parts))
    (h : ∀ p ∈ parts, p.2.Ordered) : (recordOf parts).Ordered := by
  refine .record hasc fun f hf => ?_
  obtain ⟨p, hp, rfl⟩ := List.mem_map.mp ((perm_sortBy _ _).mem_iff.mp hf)
  exact h p hp

theorem casesOf_ordered {names : List String}
    (hasc : Ascending (labelled (names.map (·, .null)))) : (casesOf names).Ordered := by
  refine .variant hasc fun c hc => ?_
  obtain ⟨p, hp, rfl⟩ := List.mem_map.mp ((perm_sortBy _ _).mem_iff.mp hc)
  obtain ⟨name, -, rfl⟩ := List.mem_map.mp hp
  exact .prim .null

theorem types_ordered :
    ∀ t ∈ scope.map (·.2) ++ methods.flatMap fun m => m.2.args ++ m.2.results, t.Ordered := by
  -- each type is put together of a few constructors, and the labels of each record are computed
  repeat' first
    | exact List.forall_mem_nil _
    | refine List.forall_mem_cons.mpr ⟨?_, ?_⟩
    | exact .prim _
    | exact .var _
    | refine .opt ?_
    | refine .vec ?_
    | refine casesOf_ordered (by decide +kernel)
    | refine recordOf_ordered (by decide +kernel) ?_

theorem interface_ordered : interface.Ordered where
  scope _ hd := types_ordered _ (List.mem_append_left _ (List.mem_map_of_mem hd))
  args m hm t ht := types_ordered t (List.mem_append_right _
    (List.mem_flatMap.mpr ⟨m, hm, List.mem_append_left _ ht⟩))
  results m hm t ht := types_ordered t (List.mem_append_right _
    (List.mem_flatMap.mpr ⟨m, hm, List.mem_append_right _ ht⟩))

end CanisterShell.Management
