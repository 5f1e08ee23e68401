import CanisterShell.Proofs.Importing
import Mathlib

/-!
# Interfaces made of files

A file is compiled with the files that it imports, and a file is imported only once, whatever imports it.
What a file compiles to so has the definitions of all files that it reaches, each once; but a file that is
imported does not see what has been imported before it.  The invariant (`Entered`) is that what has been
imported is closed under importing, apart from the files that are being imported, which no import leads
back to.  A file of a library compiles unless the compilation comes to a file that fails to resolve where
what has been imported before is left out (`compile_union`).
-/

namespace CanisterShell

open Candid File Syntax
open Relation (ReflTransGen TransGen)

namespace Interface

/-! ## One item -/

/-- What has been given so far with one more item. -/
def advance (disk : Disk) (depth : Nat) (base? : Option Path) (progress : Progress) (item : Item) :
    Attempt Progress := do
  match item with
  | .define name t => return { progress with scope := progress.scope.put name t }
  | .actor init? service => return { progress with service? := some service, init? := init? }
  | .includeFile path =>
    let full ← importedPath disk base? path
    if progress.seen.contains full then return progress
    let text ← importedText disk full
    let (imported, seen) ← compileWithin disk depth (some full.parent) (full :: progress.seen) text
    return { progress with scope := imported.scope.merge progress.scope, seen := seen }

theorem advance_includeFile (disk : Disk) (depth : Nat) (p : Path) (progress : Progress)
    (path : String) : advance disk depth (some p.parent) progress (.includeFile path) =
      if progress.seen.contains (target disk p path) then .ok progress
      else importedText disk (target disk p path) >>= fun text =>
        compileWithin disk depth (some (target disk p path).parent)
          (target disk p path :: progress.seen) text >>= fun r =>
            .ok { progress with scope := r.1.scope.merge progress.scope, seen := r.2 } := rfl

/-- The interface that all items have given. -/
def conclude (progress : Progress) : Attempt (Interface × List Path) := do
  let methods ← match progress.service? with
    | none => pure []
    | some service => (methodsOf progress.scope service).mapError badService
  return ({ scope := progress.scope, methods := methods, init? := progress.init? }, progress.seen)

theorem compileWithin_succ (disk : Disk) (depth : Nat) (base? : Option Path) (seen : List Path)
    (source : String) : compileWithin disk (depth + 1) base? seen source =
      itemsOf source >>= fun items =>
        items.foldlM (advance disk depth base?) { seen := seen } >>= conclude := rfl

theorem compileWithin_of_items {disk : Disk} {text : String} {items : List Item}
    (h : itemsOf text = .ok items) (depth : Nat) (base? : Option Path) (seen : List Path) :
    compileWithin disk (depth + 1) base? seen text =
      items.foldlM (advance disk depth base?) { seen := seen } >>= conclude := by
  rw [compileWithin_succ, h, Attempt.ok_bind]

section

variable (disk : Disk) (E : Set Path) (p : Path) (seen : List Path)

/-- The compilation of the file comes to a file whose service fails to resolve. -/
def Fails : Prop :=
  ∃ E' q, Visits disk E p E' q ∧ ¬Resolves disk E' q ∧
    ∃ items service, fileItems disk q = .ok items ∧ serviceOf items = some service

/-- How the compilation of a file ends: with the definitions that it sees, having imported all files
that it reaches; or with a failure. -/
inductive Compiles : Attempt (Interface × List Path) → Prop where
  | ok {info : Interface} {seen' : List Path} (hnodup : (info.scope.map (·.1)).Nodup)
      (hsees : Sees disk E p info.scope)
      (hseen : ∀ q, q ∈ seen' ↔ q ∈ seen ∨ TransGen (Imports disk) p q)
      (hvisits : ∀ E' q, Visits disk E p E' q → Resolves disk E' q) : Compiles (.ok (info, seen'))
  | error {f : Failure} (hfails : Fails disk E p) : Compiles (.error f)

/-- The state in which a file of a library comes to be compiled, `E` having been imported before and
`above` being the files that are being imported. -/
structure Entered (files : Set Path) (above : List Path) : Prop where
  mem : p ∈ files
  new : p ∉ E
  closed : ∀ q ∈ E, ∀ r, Reaches disk q r → r ∈ E
  subset : ∀ q ∈ E, q ∈ seen
  seen : ∀ q ∈ seen, q ∈ E ∨ Reaches disk q p
  nodup : above.Nodup
  above : ∀ q ∈ above, q ∈ files ∧ Reaches disk q p

/-- What the items `before` of a file have given. -/
structure Advanced (before : List Item) (progress : Progress) : Prop where
  nodup : (progress.scope.map (·.1)).Nodup
  scope : ∀ name t, progress.scope.find? name = some t ↔ (definitions before).find? name = some t ∨
    ∃ q ∈ reached disk p before, q ∉ E ∧ Defines disk q name t
  service : progress.service? = serviceOf before
  seen : ∀ q, q ∈ progress.seen ↔ q ∈ seen ∨ q ∈ reached disk p before
  visits : ∀ before' path after', before = before' ++ .includeFile path :: after' →
    target disk p path ∉ E ∪ reached disk p before' → ∀ E' q,
      Visits disk (E ∪ reached disk p before') (target disk p path) E' q → Resolves disk E' q

end

variable {files : Set Path} {E : Set Path} {seen above : List Path} {before after : List Item}
  {progress : Progress}

/-- The file that is compiled first: nothing has been imported before. -/
theorem Entered.root (hp : p ∈ files) : Entered disk ∅ p [] files [] where
  mem := hp
  new := Set.notMem_empty p
  closed _ h := absurd h (Set.notMem_empty _)
  subset _ h := absurd h (Set.notMem_empty _)
  seen _ h := absurd h List.not_mem_nil
  nodup := .nil
  above _ h := absurd h List.not_mem_nil

theorem Advanced.nil : Advanced disk E p seen [] { seen := seen } where
  nodup := .nil
  scope name t := ⟨fun h => (nomatch h), by rintro (h | ⟨_, ⟨_, h, _⟩, _⟩) <;> cases h⟩
  service := rfl
  seen q := ⟨.inl, by rintro (h | ⟨_, h, _⟩); exacts [h, nomatch h]⟩
  visits before' path after' h := absurd h.symm (by simp)

/-! ## Steps -/

section

variable (lib : Library disk files) (ent : Entered disk E p seen files above)
include lib ent

theorem Entered.not_defines {items : List Item} (hitems : fileItems disk p = .ok items) {name : String}
    {t : Ty} (hname : .define name t ∈ items) (hq : TransGen (Imports disk) p q) (u : Ty) :
    ¬Defines disk q name u := by
  intro hdefines
  obtain ⟨t', ht'⟩ := exists_find?_definitions_iff.mpr ⟨t, hname⟩
  have hqfiles := lib.mem_of_reaches ent.mem hq.to_reflTransGen
  obtain rfl := lib.unique p ent.mem q hqfiles name t' u ⟨items, hitems, ht'⟩ hdefines
  exact lib.acyclic p ent.mem hq

theorem advanced_define {name : String} {t : Ty}
    (hitems : fileItems disk p = .ok (before ++ .define name t :: after))
    (adv : Advanced disk E p seen before progress) :
    Advanced disk E p seen (before ++ [.define name t])
      { progress with scope := progress.scope.put name t } := by
  have hreached : reached disk p (before ++ [.define name t]) = reached disk p before :=
    reached_append_of_ne (by rintro _ ⟨⟩) p before
  refine ⟨Table.nodup_put adv.nodup, fun name' t' => ?_, ?_, fun q => ?_,
    fun before' path after' heq => ?_⟩
  · rw [hreached, definitions_append, Table.find?_put, Table.find?_put]
    by_cases hname : name = name'
    · subst hname
      rw [if_pos rfl, if_pos rfl]
      refine ⟨.inl, fun h => h.resolve_right ?_⟩
      rintro ⟨q, hq, -, hdefines⟩
      have hmem : .define name t ∈ before ++ .define name t :: after := by simp
      have hbefore : q ∈ reached disk p (before ++ .define name t :: after) := by
        rw [reached_append]
        exact .inl hq
      exact ent.not_defines lib hitems hmem ((mem_reached_iff hitems).mp hbefore) _ hdefines
    · rw [if_neg hname, if_neg hname]
      exact adv.scope name' t'
  · rw [serviceOf_append]
    exact adv.service
  · rw [hreached]
    exact adv.seen q
  · obtain ⟨-, h⟩ | ⟨after, h⟩ := eq_or_eq_of_append_singleton heq
    · cases h
    · exact adv.visits before' path after h

omit lib ent in
theorem advanced_actor {init? : Option (List Ty)} {service : Ty}
    (adv : Advanced disk E p seen before progress) :
    Advanced disk E p seen (before ++ [.actor init? service])
      { progress with service? := some service, init? := init? } := by
  have hreached : reached disk p (before ++ [.actor init? service]) = reached disk p before :=
    reached_append_of_ne (by rintro _ ⟨⟩) p before
  refine ⟨adv.nodup, fun name t => ?_, ?_, fun q => ?_, fun before' path after' heq => ?_⟩
  · rw [hreached, definitions_append]
    exact adv.scope name t
  · rw [serviceOf_append]
  · rw [hreached]
    exact adv.seen q
  · obtain ⟨-, h⟩ | ⟨after, h⟩ := eq_or_eq_of_append_singleton heq
    · cases h
    · exact adv.visits before' path after h

omit lib in
theorem Entered.closed_reached (hq : q ∈ E ∪ reached disk p before) (h : Reaches disk q r) :
    r ∈ E ∪ reached disk p before :=
  hq.imp (fun hE => ent.closed q hE r h) fun hbefore => reached_closed hbefore h

variable {path : String} (hitems : fileItems disk p = .ok (before ++ .includeFile path :: after))
  (adv : Advanced disk E p seen before progress)
include hitems adv

theorem Entered.mem_seen_iff : target disk p path ∈ progress.seen ↔
    target disk p path ∈ E ∪ reached disk p before := by
  rw [adv.seen]
  constructor
  · rintro (h | h)
    · -- the files that are being imported import this one, and so it cannot be any of them
      refine .inl ((ent.seen _ h).resolve_right ?_)
      exact lib.not_reaches ent.mem (.single (imports_target hitems List.mem_append_cons_self))
    · exact .inr h
  · exact Or.imp_left (ent.subset _)

/-- An import is passed over if its file has been imported before: then so has all that it reaches. -/
theorem advanced_seen (hseen : target disk p path ∈ progress.seen) :
    Advanced disk E p seen (before ++ [.includeFile path]) progress := by
  have hbefore := (ent.mem_seen_iff lib hitems adv).mp hseen
  have hall : ∀ q, Reaches disk (target disk p path) q → q ∈ E ∪ reached disk p before :=
    fun q => ent.closed_reached hbefore
  refine ⟨adv.nodup, fun name t => ?_, ?_, fun q => ?_, fun before' path' after' heq => ?_⟩
  · rw [definitions_append, adv.scope, reached_append, reached_includeFile]
    refine or_congr_right ⟨?_, ?_⟩
    · rintro ⟨q, hq, h⟩
      exact ⟨q, .inl hq, h⟩
    · rintro ⟨q, hq | hq, hnew, h⟩
      · exact ⟨q, hq, hnew, h⟩
      · exact ⟨q, (hall q hq).resolve_left hnew, hnew, h⟩
  · rw [serviceOf_append]
    exact adv.service
  · rw [adv.seen, reached_append, reached_includeFile]
    refine ⟨Or.imp_right .inl, ?_⟩
    rintro (h | h | h)
    · exact .inl h
    · exact .inr h
    · exact (hall q h).imp_left (ent.subset q)
  · obtain ⟨rfl, h⟩ | ⟨after, h⟩ := eq_or_eq_of_append_singleton heq
    · cases h
      exact fun hnew => absurd hbefore hnew
    · exact adv.visits before' path' after h

/-- An import of a file that has not been imported before comes to be compiled with all that has been
imported so far left out. -/
theorem Entered.enter (hseen : target disk p path ∉ progress.seen) :
    Entered disk (E ∪ reached disk p before) (target disk p path)
      (target disk p path :: progress.seen) files (target disk p path :: above) := by
  have himports := imports_target hitems List.mem_append_cons_self
  have hmem := lib.closed p ent.mem _ himports
  refine ⟨hmem, mt (ent.mem_seen_iff lib hitems adv).mpr hseen, fun q hq r => ent.closed_reached hq,
    fun q hq => .tail _ ((adv.seen q).mpr (hq.imp_left (ent.subset q))), fun q hq => ?_, ?_,
    fun q hq => ?_⟩
  · obtain rfl | hq := List.mem_cons.mp hq
    · exact .inr .refl
    · obtain h | h := (adv.seen q).mp hq
      · exact (ent.seen q h).imp .inl fun h => h.tail himports
      · exact .inl (.inr h)
  · exact List.nodup_cons.mpr
      ⟨fun h => lib.not_reaches ent.mem (.single himports) (ent.above _ h).2, ent.nodup⟩
  · obtain rfl | hq := List.mem_cons.mp hq
    · exact ⟨hmem, .refl⟩
    · exact (ent.above q hq).imp_right fun h => h.tail himports

theorem Entered.find?_eq_none (hreach : Reaches disk (target disk p path) q)
    (hbefore : q ∉ reached disk p before) {name : String} {t : Ty} (h : Defines disk q name t) :
    progress.scope.find? name = none := by
  have himports := imports_target hitems List.mem_append_cons_self
  have hp : TransGen (Imports disk) p q := .head' himports hreach
  by_contra hsome
  obtain ⟨u, hu⟩ := Option.ne_none_iff_exists'.mp hsome
  obtain hown | ⟨q', hq', -, h'⟩ := (adv.scope name u).mp hu
  · obtain ⟨t', ht'⟩ := exists_find?_definitions_iff.mp ⟨u, hown⟩
    exact ent.not_defines lib hitems (List.mem_append_left _ ht') hp t h
  · have hq'files : q' ∈ files := by
      obtain ⟨path', hpath', hreach'⟩ := hq'
      have himports' := imports_target hitems (List.mem_append_left _ hpath')
      exact lib.mem_of_reaches ent.mem (.head himports' hreach')
    have hqfiles := lib.mem_of_reaches ent.mem hp.to_reflTransGen
    obtain rfl := lib.unique q' hq'files q hqfiles name u t h' h
    exact hbefore hq'

/-- What an imported file sees that has not been imported before is added to the definitions. -/
theorem advanced_imported {info : Interface} {seen' : List Path}
    (hsees : Sees disk (E ∪ reached disk p before) (target disk p path) info.scope)
    (hseen' : ∀ q, q ∈ seen' ↔ q ∈ target disk p path :: progress.seen ∨
      TransGen (Imports disk) (target disk p path) q)
    (hnodup : (info.scope.map (·.1)).Nodup)
    (hvisits : ∀ E' q, Visits disk (E ∪ reached disk p before) (target disk p path) E' q →
      Resolves disk E' q) :
    Advanced disk E p seen (before ++ [.includeFile path])
      { progress with scope := info.scope.merge progress.scope, seen := seen' } := by
  refine ⟨Table.nodup_merge hnodup, fun name t => ?_, ?_, fun q => ?_, fun before' path' after' heq => ?_⟩
  · rw [Table.find?_merge adv.nodup, Option.or_eq_some_iff, definitions_append, reached_append,
      reached_includeFile]
    constructor
    · rintro (h | ⟨-, h⟩)
      · refine ((adv.scope name t).mp h).imp_right ?_
        rintro ⟨q, hq, h⟩
        exact ⟨q, .inl hq, h⟩
      · obtain ⟨q, hq, hnew, h⟩ := (hsees name t).mp h
        exact .inr ⟨q, .inr hq, fun hE => hnew (.inl hE), h⟩
    · rintro (h | ⟨q, hq, hnew, h⟩)
      · exact .inl ((adv.scope name t).mpr (.inl h))
      · by_cases hbefore : q ∈ reached disk p before
        · exact .inl ((adv.scope name t).mpr (.inr ⟨q, hbefore, hnew, h⟩))
        · have hreach : Reaches disk (target disk p path) q := hq.resolve_left hbefore
          exact .inr ⟨ent.find?_eq_none lib hitems adv hreach hbefore h,
            (hsees name t).mpr ⟨q, hreach, not_or.mpr ⟨hnew, hbefore⟩, h⟩⟩
  · rw [serviceOf_append]
    exact adv.service
  · rw [hseen', reached_append, reached_includeFile, List.mem_cons, adv.seen, or_comm (a := q = _),
      or_assoc, or_assoc, ← Relation.reflTransGen_iff_eq_or_transGen]
    rfl
  · obtain ⟨rfl, h⟩ | ⟨after, h⟩ := eq_or_eq_of_append_singleton heq
    · cases h
      exact fun _ => hvisits
    · exact adv.visits before' path' after h

end

/-! ## Whole files -/

section

variable (lib : Library disk files) {depth : Nat}
  (ih : ∀ {E : Set Path} {p : Path} {seen above : List Path} {text : String},
    Entered disk E p seen files above → importedText disk p = .ok text →
      disk.nodes.length + 2 ≤ above.length + depth →
        Compiles disk E p seen (compileWithin disk depth (some p.parent) seen text))
  (ent : Entered disk E p seen files above)
  (hdepth : disk.nodes.length + 2 ≤ above.length + (depth + 1))
include lib ih ent hdepth

theorem advance_import {path : String}
    (hitems : fileItems disk p = .ok (before ++ .includeFile path :: after))
    (adv : Advanced disk E p seen before progress) :
    (∃ progress', advance disk depth (some p.parent) progress (.includeFile path) = .ok progress' ∧
      Advanced disk E p seen (before ++ [.includeFile path]) progress') ∨
    ∃ f, advance disk depth (some p.parent) progress (.includeFile path) = .error f ∧
      Fails disk E p := by
  by_cases hseen : target disk p path ∈ progress.seen
  · refine .inl ⟨progress, ?_, advanced_seen lib ent hitems adv hseen⟩
    rw [advance_includeFile, if_pos (List.contains_iff_mem.mpr hseen)]
  · have hent := ent.enter lib hitems adv hseen
    obtain ⟨text, htext⟩ := lib.exists_text hent.mem
    have hcompiles := ih hent htext (by rw [List.length_cons]; omega)
    rw [advance_includeFile, if_neg (mt List.contains_iff_mem.mp hseen), htext, Attempt.ok_bind]
    generalize compileWithin disk depth (some (target disk p path).parent)
      (target disk p path :: progress.seen) text = r at hcompiles
    cases hcompiles with
    | ok hnodup hsees hseen' hvisits =>
      exact .inl ⟨_, rfl, advanced_imported lib ent hitems adv hsees hseen' hnodup hvisits⟩
    | error hfails =>
      obtain ⟨E', q, hvisits, hfails⟩ := hfails
      exact .inr ⟨_, rfl, E', q, .step hitems hent.new hvisits, hfails⟩

theorem foldlM_advance (hitems : fileItems disk p = .ok (before ++ after))
    (adv : Advanced disk E p seen before progress) :
    (∃ progress', after.foldlM (advance disk depth (some p.parent)) progress = .ok progress' ∧
      Advanced disk E p seen (before ++ after) progress') ∨
    ∃ f, after.foldlM (advance disk depth (some p.parent)) progress = .error f ∧
      Fails disk E p := by
  induction after generalizing before progress with
  | nil => exact .inl ⟨progress, rfl, (List.append_nil before).symm ▸ adv⟩
  | cons item after ihafter =>
    have hstep : (∃ progress', advance disk depth (some p.parent) progress item = .ok progress' ∧
        Advanced disk E p seen (before ++ [item]) progress') ∨
      ∃ f, advance disk depth (some p.parent) progress item = .error f ∧ Fails disk E p := by
      cases item with
      | define name t => exact .inl ⟨_, rfl, advanced_define lib ent hitems adv⟩
      | actor init? service => exact .inl ⟨_, rfl, advanced_actor adv⟩
      | includeFile path => exact advance_import lib ih ent hdepth hitems adv
    rw [List.foldlM_cons]
    obtain ⟨progress', hprogress, adv'⟩ | ⟨f, hf, hfails⟩ := hstep
    · rw [hprogress, Attempt.ok_bind, List.append_cons]
      exact ihafter (by rwa [← List.append_cons]) adv'
    · exact .inr ⟨f, by rw [hf]; rfl, hfails⟩

end

theorem sees_of_advanced {items : List Item} (hitems : fileItems disk p = .ok items) (hnew : p ∉ E)
    (adv : Advanced disk E p seen items progress) : Sees disk E p progress.scope := by
  intro name t
  rw [adv.scope]
  constructor
  · rintro (h | ⟨q, hq, h⟩)
    · exact ⟨p, .refl, hnew, items, hitems, h⟩
    · exact ⟨q, ((mem_reached_iff hitems).mp hq).to_reflTransGen, h⟩
  · rintro ⟨q, hq, h⟩
    obtain rfl | hq := Relation.reflTransGen_iff_eq_or_transGen.mp hq
    · obtain ⟨-, items', hitems', h⟩ := h
      cases hitems.symm.trans hitems'
      exact .inl h
    · exact .inr ⟨q, (mem_reached_iff hitems).mpr hq, h⟩

theorem conclude_compiles {items : List Item} (hitems : fileItems disk p = .ok items) (hnew : p ∉ E)
    (adv : Advanced disk E p seen items progress) : Compiles disk E p seen (conclude progress) := by
  have hsees := sees_of_advanced hitems hnew adv
  have hseen : ∀ q, q ∈ progress.seen ↔ q ∈ seen ∨ TransGen (Imports disk) p q := fun q => by
    rw [adv.seen, mem_reached_iff hitems]
  have hvisits (hp : Resolves disk E p) : ∀ E' q, Visits disk E p E' q → Resolves disk E' q := by
    intro E' q h
    cases h with
    | here => exact hp
    | step hitems' hnew hrest =>
      cases hitems.symm.trans hitems'
      exact adv.visits _ _ _ rfl hnew E' q hrest
  cases hservice : progress.service? with
  | none =>
    have hnone : serviceOf items = none := adv.service ▸ hservice
    have hconclude : conclude progress =
        .ok (⟨progress.scope, [], progress.init?, none⟩, progress.seen) := by
      rw [conclude, hservice]
      rfl
    rw [hconclude]
    refine .ok adv.nodup hsees hseen (hvisits ⟨items, _, hitems, hsees, fun service h => ?_⟩)
    rw [hnone] at h
    cases h
  | some service =>
    have hsome : serviceOf items = some service := adv.service ▸ hservice
    have hconclude : conclude progress = (methodsOf progress.scope service).mapError badService >>=
        fun methods => .ok (⟨progress.scope, methods, progress.init?, none⟩, progress.seen) := by
      rw [conclude, hservice]
      rfl
    rw [hconclude]
    cases hmethods : methodsOf progress.scope service with
    | ok methods =>
      refine .ok adv.nodup hsees hseen (hvisits ⟨items, _, hitems, hsees, fun service' h => ?_⟩)
      obtain rfl : service = service' := Option.some.inj (hsome.symm.trans h)
      exact ⟨methods, hmethods⟩
    | error f =>
      refine .error ⟨E, p, .here E p, ?_, items, service, hitems, hsome⟩
      rintro ⟨items', scope, hitems', hsees', hresolves⟩
      cases hitems.symm.trans hitems'
      obtain ⟨methods, hmethods'⟩ := hresolves service hsome
      rw [← methodsOf_congr (hsees.find?_eq hsees'), hmethods] at hmethods'
      cases hmethods'

/-- A file of a library compiles with what it sees of all that it reaches, unless on the way the
compilation comes to a file that fails to resolve. -/
theorem compileWithin_compiles (lib : Library disk files) (depth : Nat) {text : String}
    (ent : Entered disk E p seen files above) (htext : importedText disk p = .ok text)
    (hdepth : disk.nodes.length + 2 ≤ above.length + depth) :
    Compiles disk E p seen (compileWithin disk depth (some p.parent) seen text) := by
  induction depth generalizing E p seen above text with
  | zero =>
    have := lib.length_le ent.nodup fun q hq => (ent.above q hq).1
    omega
  | succ depth ih =>
    obtain ⟨items, hitems⟩ := lib.readable p ent.mem
    have hread : itemsOf text = .ok items := fileItems_eq htext ▸ hitems
    have adv : Advanced disk E p seen [] { seen := seen } := .nil
    rw [compileWithin_succ, hread, Attempt.ok_bind]
    have hall : fileItems disk p = .ok ([] ++ items) := hitems
    obtain ⟨progress, hprogress, adv'⟩ | ⟨f, hf, hfails⟩ :=
      foldlM_advance lib (fun ent htext => ih ent htext) ent hdepth hall adv
    · rw [hprogress, Attempt.ok_bind]
      exact conclude_compiles hitems ent.new adv'
    · rw [hf]
      exact .error hfails

/-- A file of a library compiles exactly if every file that the compilation comes to resolves where what
has been imported before is left out; if no file describes a service but the file itself, exactly if that
resolves.  What it compiles to defines what the file defines and all files define that it imports,
directly or indirectly, in whatever order and however often. -/
theorem compile_union (lib : Library disk files) (hp : p ∈ files) {text : String}
    (htext : importedText disk p = .ok text) :
    ((∃ info, compile disk (some p.parent) text = .ok info) ↔
      ∀ E q, Visits disk ∅ p E q → Resolves disk E q) ∧
    ((∀ q items, TransGen (Imports disk) p q → fileItems disk q = .ok items →
        serviceOf items = none) →
      ((∃ info, compile disk (some p.parent) text = .ok info) ↔ Resolves disk ∅ p)) ∧
    ∀ info, compile disk (some p.parent) text = .ok info → ∀ name t,
      info.scope.find? name = some t ↔ ∃ q, Reaches disk p q ∧ Defines disk q name t := by
  have ent : Entered disk ∅ p [] files [] := .root hp
  have hcompiles := compileWithin_compiles lib (disk.nodes.length + 2) ent htext (by simp)
  rw [compile]
  generalize compileWithin disk (disk.nodes.length + 2) (some p.parent) [] text = r at hcompiles
  cases hcompiles with
  | @ok info seen' hnodup hsees hseen hvisits =>
    refine ⟨iff_of_true ⟨info, rfl⟩ hvisits, fun _ => iff_of_true ⟨info, rfl⟩ ?_, ?_⟩
    · exact hvisits ∅ p (.here ∅ p)
    · rintro _ ⟨⟩ name t
      simpa using hsees name t
  | @error f hfails =>
    obtain ⟨E, q, hvisits, hresolves, items, service, hitems, hservice⟩ := hfails
    have herror : ¬∃ info, ((.error f : Attempt (Interface × List Path)) >>= fun r => pure r.1) =
        .ok info := by
      rintro ⟨_, ⟨⟩⟩
    refine ⟨iff_of_false herror fun h => hresolves (h E q hvisits),
      fun hnone => iff_of_false herror fun h => ?_, fun info h => absurd ⟨info, h⟩ herror⟩
    obtain ⟨rfl, rfl⟩ | hq := hvisits.eq_or_transGen
    · exact hresolves h
    · rw [hnone q items hq hitems] at hservice
      cases hservice

/-! ## Types and a service -/

def typesText : String := "type F=func()->();"

/-- A service that has a method of the type. -/
def mainText : String := "import \"types\";service:\x7bf:F\x7d;"

/-- Imports of both files, of the service first. -/
def mainFirstText : String := "import \"main\";import \"types\";"

/-- Imports of both files, of the type first. -/
def typesFirstText : String := "import \"types\";import \"main\";"

theorem itemsOf_typesText : itemsOf typesText = .ok [.define "F" (.func [] [] [])] := by cbv

theorem itemsOf_mainText : itemsOf mainText =
    .ok [.includeFile "types", .actor none (.service [("f", .var "F")])] := by cbv

theorem itemsOf_mainFirstText : itemsOf mainFirstText =
    .ok [.includeFile "main", .includeFile "types"] := by cbv

theorem itemsOf_typesFirstText : itemsOf typesFirstText =
    .ok [.includeFile "types", .includeFile "main"] := by cbv

/-- The path of a file by its name. -/
def sharedPath (name : String) : Path := ⟨"/", [name]⟩

/-- The files that hold the texts. -/
def sharedDisk : Disk where
  cwd := []
  nodes := [(["types"], .file (Utf8.encode typesText)), (["main"], .file (Utf8.encode mainText)),
    (["mainFirst"], .file (Utf8.encode mainFirstText)),
    (["typesFirst"], .file (Utf8.encode typesFirstText))]

theorem importedText_types : importedText sharedDisk (sharedPath "types") = .ok typesText :=
  importedText_of_read rfl (by decide)

theorem importedText_main : importedText sharedDisk (sharedPath "main") = .ok mainText :=
  importedText_of_read rfl (by decide)

theorem importedText_mainFirst :
    importedText sharedDisk (sharedPath "mainFirst") = .ok mainFirstText :=
  importedText_of_read rfl (by decide)

theorem importedText_typesFirst :
    importedText sharedDisk (sharedPath "typesFirst") = .ok typesFirstText :=
  importedText_of_read rfl (by decide)

theorem target_types (name : String) : target sharedDisk (sharedPath name) "types" = sharedPath "types" := by
  cbv

theorem target_main (name : String) : target sharedDisk (sharedPath name) "main" = sharedPath "main" := by
  cbv


def typesScope : Scope := [("F", .func [] [] [])]

variable (depth : Nat) (seen : List Path)

theorem compileWithin_types (base? : Option Path) :
    compileWithin sharedDisk (depth + 1) base? seen typesText =
      .ok ({ scope := typesScope }, seen) := by
  rw [compileWithin_of_items itemsOf_typesText]
  rfl

theorem methodsOf_typesScope : methodsOf typesScope (.service [("f", .var "F")]) =
    .ok [("f", ⟨[], [], []⟩)] := by cbv

theorem methodsOf_nil : methodsOf [] (.service [("f", .var "F")]) =
    .error (.eval (.unboundType "F")) := by cbv

theorem compileWithin_main (h : sharedPath "types" ∉ seen) :
    compileWithin sharedDisk (depth + 2) (some (sharedPath "main").parent) seen mainText =
      .ok ({ scope := typesScope, methods := [("f", ⟨[], [], []⟩)] }, sharedPath "types" :: seen) := by
  rw [compileWithin_of_items itemsOf_mainText, List.foldlM_cons, advance_includeFile, target_types,
    if_neg (mt List.contains_iff_mem.mp h), importedText_types, Attempt.ok_bind, compileWithin_types]
  have hconclude : conclude ⟨typesScope, some (.service [("f", .var "F")]), none, sharedPath "types" :: seen⟩
      = .ok ({ scope := typesScope, methods := [("f", ⟨[], [], []⟩)] }, sharedPath "types" :: seen) := by
    rw [conclude]
    dsimp only
    rw [methodsOf_typesScope]
    rfl
  exact hconclude

theorem compileWithin_main_error (h : sharedPath "types" ∈ seen) :
    compileWithin sharedDisk (depth + 2) (some (sharedPath "main").parent) seen mainText =
      .error (.error (.badService (.eval (.unboundType "F")))) := by
  rw [compileWithin_of_items itemsOf_mainText, List.foldlM_cons, advance_includeFile, target_types,
    if_pos (List.contains_iff_mem.mpr h)]
  have hconclude : conclude ⟨[], some (.service [("f", .var "F")]), none, seen⟩
      = .error (.error (.badService (.eval (.unboundType "F")))) := by
    rw [conclude]
    dsimp only
    rw [methodsOf_nil]
    rfl
  exact hconclude

theorem compileWithin_mainFirst :
    compileWithin sharedDisk (depth + 3) (some (sharedPath "mainFirst").parent) [] mainFirstText =
      .ok ({ scope := typesScope }, [sharedPath "types", sharedPath "main"]) := by
  rw [compileWithin_of_items itemsOf_mainFirstText, List.foldlM_cons, advance_includeFile,
    target_main, if_neg (by decide), importedText_main, Attempt.ok_bind,
    compileWithin_main depth _ (by decide), Attempt.ok_bind, Attempt.ok_bind, List.foldlM_cons,
    advance_includeFile, target_types, if_pos (by decide)]
  rfl

theorem compileWithin_typesFirst :
    compileWithin sharedDisk (depth + 3) (some (sharedPath "typesFirst").parent) [] typesFirstText =
      .error (.error (.badService (.eval (.unboundType "F")))) := by
  rw [compileWithin_of_items itemsOf_typesFirstText, List.foldlM_cons, advance_includeFile,
    target_types, if_neg (by decide), importedText_types, Attempt.ok_bind, compileWithin_types,
    Attempt.ok_bind, Attempt.ok_bind, List.foldlM_cons, advance_includeFile, target_main,
    if_neg (by decide), importedText_main, Attempt.ok_bind,
    compileWithin_main_error depth _ (by decide)]
  rfl

/-- The files with their items; each is behind those that it imports. -/
def sharedFiles : List (Path × List Item) :=
  [(sharedPath "types", [.define "F" (.func [] [] [])]),
    (sharedPath "main", [.includeFile "types", .actor none (.service [("f", .var "F")])]),
    (sharedPath "mainFirst", [.includeFile "main", .includeFile "types"]),
    (sharedPath "typesFirst", [.includeFile "types", .includeFile "main"])]

/-- The place of a file among them. -/
def sharedPlace (p : Path) : Nat := sharedFiles.findIdx fun f => f.1 = p

theorem fileItems_sharedFiles : ∀ f ∈ sharedFiles, fileItems sharedDisk f.1 = .ok f.2 := by
  simp only [sharedFiles, List.forall_mem_cons]
  exact ⟨(fileItems_eq importedText_types).trans itemsOf_typesText,
    (fileItems_eq importedText_main).trans itemsOf_mainText,
    (fileItems_eq importedText_mainFirst).trans itemsOf_mainFirstText,
    (fileItems_eq importedText_typesFirst).trans itemsOf_typesFirstText, nofun⟩

theorem sharedPlace_target : sharedFiles.all (fun f => f.2.all fun item =>
    match item with
    | .includeFile path => sharedPlace (target sharedDisk f.1 path) < sharedPlace f.1
    | _ => true) = true := by cbv

theorem exists_sharedFile {p : Path} (hp : sharedPlace p < sharedFiles.length) :
    ∃ items, (p, items) ∈ sharedFiles ∧ fileItems sharedDisk p = .ok items := by
  obtain ⟨⟨q, items⟩, hf, heq⟩ := List.findIdx_lt_length.mp hp
  obtain rfl : q = p := by simpa using heq
  exact ⟨items, hf, fileItems_sharedFiles _ hf⟩

theorem sharedPlace_lt {p q : Path} (hp : sharedPlace p < sharedFiles.length)
    (h : TransGen (Imports sharedDisk) p q) : sharedPlace q < sharedPlace p := by
  have hstep : ∀ p, sharedPlace p < sharedFiles.length → ∀ q, Imports sharedDisk p q →
      sharedPlace q < sharedPlace p := by
    rintro p hp q ⟨items, path, hitems, hpath, rfl⟩
    obtain ⟨items', hf, hitems'⟩ := exists_sharedFile hp
    cases hitems.symm.trans hitems'
    have hall := List.all_eq_true.mp (List.all_eq_true.mp sharedPlace_target _ hf) _ hpath
    simpa using hall
  induction h with
  | single h => exact hstep p hp _ h
  | tail _ h ih => exact (hstep _ (ih.trans hp) _ h).trans ih

theorem library_sharedDisk : Library sharedDisk {p | sharedPlace p < sharedFiles.length} := by
  have hresolved : ∀ f ∈ sharedFiles, f.1.root = "/" ∧ ".." ∉ f.1.parts := by decide
  have hdefinitions : ∀ f ∈ sharedFiles, f.1 = sharedPath "types" ∨ definitions f.2 = [] := by
    simp only [sharedFiles, List.forall_mem_cons]
    exact ⟨.inl trivial, .inr rfl, .inr rfl, .inr rfl, nofun⟩
  have htypes : ∀ p, sharedPlace p < sharedFiles.length → ∀ name t,
      Defines sharedDisk p name t → p = sharedPath "types" := by
    rintro p hp name t ⟨items, hitems, h⟩
    obtain ⟨items', hf, hitems'⟩ := exists_sharedFile hp
    cases hitems.symm.trans hitems'
    refine (hdefinitions _ hf).resolve_right fun hnone => ?_
    rw [hnone] at h
    cases h
  refine ⟨fun p hp => ?_, fun p hp => ?_, fun p hp q h => (sharedPlace_lt hp (.single h)).trans hp,
    fun p hp h => Nat.lt_irrefl _ (sharedPlace_lt hp h), fun p hp q hq name t u h h' => ?_⟩
  · obtain ⟨items, hf, -⟩ := exists_sharedFile hp
    exact hresolved _ hf
  · obtain ⟨items, -, hitems⟩ := exists_sharedFile hp
    exact ⟨items, hitems⟩
  · exact (htypes p hp name t h).trans (htypes q hq name u h').symm

theorem compile_eq_ok {disk : Disk} {base? : Option Path} {text : String} {info : Interface}
    {seen : List Path}
    (h : compileWithin disk (disk.nodes.length + 2) base? [] text = .ok (info, seen)) :
    compile disk base? text = .ok info := by
  rw [compile, h]
  rfl

/-- The service, which imports no other, compiles with the type. -/
theorem compile_union_main :
    let p := sharedPath "main"
    Library sharedDisk {p | sharedPlace p < sharedFiles.length} ∧
      sharedPlace p < sharedFiles.length ∧ importedText sharedDisk p = .ok mainText ∧
      (∀ q items, TransGen (Imports sharedDisk) p q → fileItems sharedDisk q = .ok items →
        serviceOf items = none) ∧
      (∀ E q, Visits sharedDisk ∅ p E q → Resolves sharedDisk E q) ∧ Resolves sharedDisk ∅ p ∧
      ∃ q, Reaches sharedDisk p q ∧ Defines sharedDisk q "F" (.func [] [] []) := by
  intro p
  have hp : sharedPlace p < sharedFiles.length := by decide
  have hinfo : compile sharedDisk (some p.parent) mainText =
      .ok { scope := typesScope, methods := [("f", ⟨[], [], []⟩)] } :=
    compile_eq_ok (compileWithin_main 4 [] nofun)
  have hfirst : ∀ f ∈ sharedFiles, sharedPlace f.1 < 1 → serviceOf f.2 = none := by
    simp only [sharedFiles, List.forall_mem_cons]
    exact ⟨fun _ => rfl, fun h => absurd h (by decide), fun h => absurd h (by decide),
      fun h => absurd h (by decide), nofun⟩
  have hnone : ∀ q items, TransGen (Imports sharedDisk) p q → fileItems sharedDisk q = .ok items →
      serviceOf items = none := by
    intro q items hq hitems
    have hplace : sharedPlace q < 1 := sharedPlace_lt hp hq
    obtain ⟨items', hf, hitems'⟩ := exists_sharedFile (hplace.trans (by decide))
    cases hitems.symm.trans hitems'
    exact hfirst _ hf hplace
  obtain ⟨hcompiles, hresolves, hunion⟩ := compile_union library_sharedDisk hp importedText_main
  exact ⟨library_sharedDisk, hp, importedText_main, hnone, hcompiles.mp ⟨_, hinfo⟩,
    (hresolves hnone).mp ⟨_, hinfo⟩, (hunion _ hinfo "F" (.func [] [] [])).mp rfl⟩

/-- The type, the service and the file that imports the service first compile, but the one that imports
the type first does not: the service comes to be compiled without the type. -/
theorem compile_typesFirst_fails :
    let compiled := fun name text => compile sharedDisk (some (sharedPath name).parent) text
    Library sharedDisk {p | sharedPlace p < sharedFiles.length} ∧
      compiled "types" typesText = .ok { scope := typesScope } ∧
      compiled "main" mainText = .ok { scope := typesScope, methods := [("f", ⟨[], [], []⟩)] } ∧
      compiled "mainFirst" mainFirstText = .ok { scope := typesScope } ∧
      compiled "typesFirst" typesFirstText =
        .error (.error (.badService (.eval (.unboundType "F")))) := by
  refine ⟨library_sharedDisk, compile_eq_ok (compileWithin_types 5 [] _),
    compile_eq_ok (compileWithin_main 4 [] nofun), compile_eq_ok (compileWithin_mainFirst 3), ?_⟩
  have hfails : compileWithin sharedDisk (sharedDisk.nodes.length + 2)
      (some (sharedPath "typesFirst").parent) [] typesFirstText =
        .error (.error (.badService (.eval (.unboundType "F")))) := compileWithin_typesFirst 3
  dsimp only
  rw [compile, hfails]
  rfl

end Interface

end CanisterShell
