import CanisterShell.Interface
import CanisterShell.Proofs.Attempt
import CanisterShell.Proofs.Candid.Scope
import CanisterShell.Proofs.File.Disk
import CanisterShell.Proofs.Table
import Mathlib.Data.List.Induction
import Mathlib.Data.List.Nodup
import Mathlib.Data.List.Perm.Subperm
import Mathlib.Data.Set.Insert
import Mathlib.Logic.Relation

/-!
# Files that import files

An interface may be in several files that import each other.  A library is a set of such files that is
closed under importing, in which no file leads back to itself and no two define the same name.  A file
sees the definitions of all files that it reaches, less those that had been imported before it came to be
compiled.
-/

namespace CanisterShell

open Candid File Syntax
open Relation (ReflTransGen TransGen)

namespace Interface

theorem methodsOf_congr {scope scope' : Scope} (h : ∀ name, scope.find? name = scope'.find? name)
    (service : Ty) : methodsOf scope service = methodsOf scope' service := by
  have hsignature : signatureOf scope = signatureOf scope' := funext fun t => by
    rw [signatureOf, signatureOf, Scope.resolveFunc, Scope.resolveFunc, Scope.resolve_congr h]
  rw [methodsOf, methodsOf, Scope.resolveService, Scope.resolveService, Scope.resolve_congr h,
    hsignature]

/-! ## Files that import files -/

section

variable (disk : Disk)

def fileItems (p : Path) : Attempt (List Item) := do itemsOf (← importedText disk p)

/-- The file that an import in the file `p` means. -/
def target (p : Path) (path : String) : Path := (p.parent.join (.ofText path)).absolute disk.cwd

/-- The file imports the other one. -/
def Imports (p q : Path) : Prop :=
  ∃ items path, fileItems disk p = .ok items ∧ .includeFile path ∈ items ∧ target disk p path = q

/-- The other file is the file, or imported by it directly or indirectly. -/
abbrev Reaches : Path → Path → Prop := ReflTransGen (Imports disk)

/-- The files that are reached by the imports among some items of the file `p`. -/
def reached (p : Path) (items : List Item) : Set Path :=
  {q | ∃ path, .includeFile path ∈ items ∧ Reaches disk (target disk p path) q}

end

/-- What items themselves define; of two definitions of a name the latter counts. -/
def definitions (items : List Item) : Scope :=
  items.foldl (fun scope item =>
    match item with
    | .define name t => scope.put name t
    | _ => scope) []

/-- The service that items describe; of two the latter counts. -/
def serviceOf (items : List Item) : Option Ty :=
  items.foldl (fun service? item =>
    match item with
    | .actor _ service => some service
    | _ => service?) none

section

variable (disk : Disk)

/-- The file itself defines the name. -/
def Defines (p : Path) (name : String) (t : Ty) : Prop :=
  ∃ items, fileItems disk p = .ok items ∧ (definitions items).find? name = some t

/-- Files that can be read and import only each other, none of them itself, be it indirectly, and of
which no two define the same name. -/
structure Library (files : Set Path) : Prop where
  resolved : ∀ p ∈ files, p.root = "/" ∧ ".." ∉ p.parts
  readable : ∀ p ∈ files, ∃ items, fileItems disk p = .ok items
  closed : ∀ p ∈ files, ∀ q, Imports disk p q → q ∈ files
  acyclic : ∀ p ∈ files, ¬TransGen (Imports disk) p p
  unique : ∀ p ∈ files, ∀ q ∈ files, ∀ name t u, Defines disk p name t → Defines disk q name u → p = q

/-- The scope holds what the file defines and what all files define that it imports, directly or
indirectly, those in `E` left out. -/
def Sees (E : Set Path) (p : Path) (scope : Scope) : Prop :=
  ∀ name t, scope.find? name = some t ↔ ∃ q, Reaches disk p q ∧ q ∉ E ∧ Defines disk q name t

/-- The methods of the service that the file describes, if it does, have their types where the files in
`E` are left out. -/
def Resolves (E : Set Path) (p : Path) : Prop :=
  ∃ items scope, fileItems disk p = .ok items ∧ Sees disk E p scope ∧
    ∀ service, serviceOf items = some service → ∃ methods, methodsOf scope service = .ok methods

/-- Compiling the file `p`, when the files in `E` have been imported before, comes to the file `q`, when
those in `E'` have been: one import after another is followed unless it is of a file that has been
imported before. -/
inductive Visits : Set Path → Path → Set Path → Path → Prop where
  | here (E : Set Path) (p : Path) : Visits E p E p
  | step {E E' : Set Path} {p q : Path} {before after : List Item} {path : String}
      (hitems : fileItems disk p = .ok (before ++ .includeFile path :: after))
      (hnew : target disk p path ∉ E ∪ reached disk p before)
      (hrest : Visits (E ∪ reached disk p before) (target disk p path) E' q) : Visits E p E' q

end

/-! ## Items one after another -/

variable {disk : Disk} {p q r : Path} {E E' : Set Path}

theorem definitions_append (before : List Item) (item : Item) : definitions (before ++ [item]) =
    match item with
    | .define name t => (definitions before).put name t
    | _ => definitions before := by
  rw [definitions, List.foldl_append]
  cases item <;> rfl

theorem serviceOf_append (before : List Item) (item : Item) : serviceOf (before ++ [item]) =
    match item with
    | .actor _ service => some service
    | _ => serviceOf before := by
  rw [serviceOf, List.foldl_append]
  cases item <;> rfl

theorem exists_find?_definitions_iff {items : List Item} {name : String} :
    (∃ t, (definitions items).find? name = some t) ↔ ∃ t, .define name t ∈ items := by
  induction items using List.reverseRecOn with
  | nil => exact ⟨fun ⟨_, h⟩ => (nomatch h), fun ⟨_, h⟩ => (nomatch h)⟩
  | append_singleton before item ih =>
    rw [definitions_append]
    cases item with
    | define name' t' =>
      simp only [List.mem_append, List.mem_singleton, exists_or, Item.define.injEq, ← ih,
        Table.find?_put]
      by_cases hname : name' = name
      · simp [hname]
      · simp [hname, Ne.symm hname]
    | includeFile path => simpa using ih
    | actor init? service => simpa using ih

theorem eq_or_eq_of_append_singleton {item item' : Item} {before before' after' : List Item}
    (h : before ++ [item] = before' ++ item' :: after') :
    (before' = before ∧ item' = item) ∨ ∃ after, before = before' ++ item' :: after := by
  obtain rfl | ⟨after, last, rfl⟩ := List.eq_nil_or_concat' after'
  · obtain ⟨rfl, hitem⟩ := List.append_inj' h rfl
    exact .inl ⟨rfl, (List.singleton_inj.mp hitem).symm⟩
  · rw [← List.cons_append, ← List.append_assoc] at h
    exact .inr ⟨after, (List.append_inj' h rfl).1⟩

/-! ## The graph of a library -/

theorem fileItems_eq {text : String} (h : importedText disk p = .ok text) :
    fileItems disk p = itemsOf text := by
  rw [fileItems, h, Attempt.ok_bind]

theorem importedText_of_read {text : String}
    (hread : disk.read p = .ok (Utf8.encode text)) (htext : '\r' ∉ text.toList) :
    importedText disk p = .ok text := by
  rw [importedText, hread]
  dsimp only
  rw [Disk.textOf?_encode htext]

theorem imports_target {items : List Item} {path : String} (hitems : fileItems disk p = .ok items)
    (hpath : .includeFile path ∈ items) : Imports disk p (target disk p path) :=
  ⟨items, path, hitems, hpath, rfl⟩

theorem reached_append (p : Path) (before after : List Item) :
    reached disk p (before ++ after) = reached disk p before ∪ reached disk p after := by
  ext q
  simp only [reached, Set.mem_ofPred_eq, Set.mem_union, List.mem_append, or_and_right, exists_or]

theorem reached_includeFile (p : Path) (path : String) :
    reached disk p [.includeFile path] = {q | Reaches disk (target disk p path) q} := by
  ext q
  simp only [reached, Set.mem_ofPred_eq, List.mem_singleton, Item.includeFile.injEq, exists_eq_left]

theorem reached_append_of_ne {item : Item} (h : ∀ path, item ≠ .includeFile path) (p : Path)
    (before : List Item) : reached disk p (before ++ [item]) = reached disk p before := by
  have hnone : reached disk p [item] = ∅ :=
    Set.eq_empty_of_forall_notMem fun _ ⟨path, hpath, _⟩ => h path (List.mem_singleton.mp hpath).symm
  rw [reached_append, hnone, Set.union_empty]

theorem mem_reached_iff {items : List Item} (hitems : fileItems disk p = .ok items) :
    q ∈ reached disk p items ↔ TransGen (Imports disk) p q := by
  rw [TransGen.head'_iff]
  constructor
  · rintro ⟨path, hpath, hq⟩
    exact ⟨_, imports_target hitems hpath, hq⟩
  · rintro ⟨_, ⟨items', path, hitems', hpath, rfl⟩, hq⟩
    cases hitems.symm.trans hitems'
    exact ⟨path, hpath, hq⟩

theorem reached_closed {items : List Item} (hq : q ∈ reached disk p items)
    (h : Reaches disk q r) : r ∈ reached disk p items := by
  obtain ⟨path, hpath, hreach⟩ := hq
  exact ⟨path, hpath, hreach.trans h⟩

namespace Library

variable {files : Set Path} (lib : Library disk files)
include lib

theorem mem_of_reaches (hp : p ∈ files) (h : Reaches disk p q) : q ∈ files := by
  induction h with
  | refl => exact hp
  | tail _ hstep ih => exact lib.closed _ ih _ hstep

theorem not_reaches (hp : p ∈ files) (h : TransGen (Imports disk) p q) : ¬Reaches disk q p :=
  fun hback => lib.acyclic p hp (h.trans_left hback)

theorem exists_text (hp : p ∈ files) : ∃ text, importedText disk p = .ok text := by
  obtain ⟨items, hitems⟩ := lib.readable p hp
  obtain ⟨text, htext, -⟩ := Attempt.bind_ok_iff.mp hitems
  exact ⟨text, htext⟩

theorem exists_bytes (hp : p ∈ files) : ∃ bytes, disk.read p = .ok bytes := by
  obtain ⟨text, htext⟩ := lib.exists_text hp
  rw [importedText] at htext
  split at htext
  case h_1 => cases htext
  case h_2 bytes hbytes => exact ⟨bytes, hbytes⟩

theorem length_le {paths : List Path} (hnodup : paths.Nodup) (h : ∀ p ∈ paths, p ∈ files) :
    paths.length ≤ disk.nodes.length := by
  have hsubset : paths.map (·.parts) ⊆ disk.nodes.map (·.1) := by
    intro parts hparts
    obtain ⟨p, hp, rfl⟩ := List.mem_map.mp hparts
    obtain ⟨hroot, hdots⟩ := lib.resolved p (h p hp)
    obtain ⟨bytes, hbytes⟩ := lib.exists_bytes (h p hp)
    exact Disk.mem_nodes_of_read hroot hdots hbytes
  have hparts : (paths.map (·.parts)).Nodup := by
    refine List.Nodup.map_on (fun p hp q hq heq => ?_) hnodup
    have hroot : p.root = q.root :=
      (lib.resolved p (h p hp)).1.trans (lib.resolved q (h q hq)).1.symm
    cases p
    cases q
    cases hroot
    cases heq
    rfl
  simpa using (hparts.subperm hsubset).length_le

end Library

/-! ## What files see -/

theorem Sees.find?_eq {scope scope' : Scope} (h : Sees disk E p scope) (h' : Sees disk E p scope')
    (name : String) : scope.find? name = scope'.find? name :=
  Option.ext fun t => (h name t).trans (h' name t).symm

/-- What the compilation of a file comes to is the file itself or one that it imports, directly or
indirectly. -/
theorem Visits.eq_or_transGen (h : Visits disk E p E' q) :
    (E' = E ∧ q = p) ∨ TransGen (Imports disk) p q := by
  induction h with
  | here => exact .inl ⟨rfl, rfl⟩
  | step hitems _ _ ih =>
    have himports := imports_target hitems List.mem_append_cons_self
    obtain ⟨-, rfl⟩ | h := ih
    · exact .inr (.single himports)
    · exact .inr (.head himports h)

end Interface

end CanisterShell
