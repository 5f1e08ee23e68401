import CanisterShell.Proofs.Attempt
import CanisterShell.Proofs.Candid.Layout
import CanisterShell.Proofs.Candid.Scope

/-!
# What a reader fails with

The readers of the decoder fail plainly, but for one case: a reference whose bytes are all there, and
more than a principal can have, is a fault (`readLayout_plain`, `readLayout_of_holdsOverlong`).  What
a head leaves open are parts of its type, and they are put together plainly (`readLayout_fits`).
-/

namespace CanisterShell

namespace Candid

open Attempt (Plain)

theorem Scope.resolve_plain (scope : Scope) (t : Ty) : Plain (scope.resolve t) :=
  fun _ h => resolve_error h

theorem Scope.isByte_plain (scope : Scope) (t : Ty) : Plain (scope.isByte t) :=
  (resolve_plain scope t).bind fun _ => .ok _

theorem Ty.mkRecord_plain (fields : List (Label × Ty)) : Plain (mkRecord fields) := by
  rw [mkRecord]
  split
  · exact .eval _
  · exact .ok _

theorem Ty.mkVariant_plain (cases : List (Label × Ty)) : Plain (mkVariant cases) := by
  rw [mkVariant]
  split
  · exact .eval _
  · exact .ok _

theorem Value.mkRecord_plain (fields : List (Label × Value)) : Plain (mkRecord fields) := by
  rw [mkRecord]
  split
  · exact .eval _
  · exact .ok _

namespace Wire

/-! ## Readers -/

/-- A reader that fails with errors of evaluation only. -/
def Reader.Plain {α : Type} (read : Reader α) : Prop := ∀ bytes, Attempt.Plain (read bytes)

namespace Reader.Plain

variable {α β : Type}

theorem pure (a : α) : Plain (pure a) := fun bytes => .ok (a, bytes)

theorem eval (cause : EvalCause) : Plain (throw (.eval cause) : Reader α) := fun _ => .eval cause

theorem lift {x : Attempt α} (h : Attempt.Plain x) : Plain (liftM x : Reader α) :=
  fun _ _ he => h _ (lift_error_iff.mp he)

theorem bind {read : Reader α} {next : α → Reader β} (h : Plain read) (h' : ∀ a, Plain (next a)) :
    Plain (read >>= next) := by
  intro bytes e he
  obtain he | ⟨a, rest, -, he⟩ := bind_error_iff.mp he
  · exact h bytes e he
  · exact h' a rest e he

theorem guard {c : Prop} [Decidable c] {cause : EvalCause} {next : PUnit → Reader α}
    (h : Plain (next ())) : Plain (if c then throw (.eval cause) >>= next else next ()) := by
  split
  · exact (eval cause).bind fun _ => h
  · exact h

theorem byte : Plain byte := by
  intro bytes
  cases bytes with
  | nil => exact .eval _
  | cons b bytes => exact .ok _

theorem nat : Plain nat := by
  intro bytes
  obtain ⟨front, rest, hfront, rfl⟩ | hall := exists_whole bytes
  · rw [Reader.nat, hfront.readLeb]
    exact .ok _
  · rw [Reader.nat, readLeb_open hall]
    exact .eval _

theorem int : Plain int := by
  intro bytes
  obtain ⟨front, rest, hfront, rfl⟩ | hall := exists_whole bytes
  · rw [Reader.int, hfront.readSleb]
    exact .ok _
  · rw [Reader.int, readSleb_open hall]
    exact .eval _

theorem take (n : Nat) : Plain (take n) := by
  intro bytes
  rw [Reader.take]
  split
  · exact .ok _
  · exact .eval _

theorem text : Plain text := by
  refine nat.bind fun n => (take n).bind fun bytes => ?_
  cases Utf8.decode? bytes with
  | some s => exact pure s
  | none => exact eval _

theorem times {read : Reader α} (h : Plain read) (n : Nat) : Plain (times read n) := by
  induction n with
  | zero => exact pure []
  | succ n ih => exact h.bind fun a => ih.bind fun _ => pure _

theorem list {read : Reader α} (h : Plain read) : Plain (list read) := nat.bind h.times

end Reader.Plain

/-! ## References that are too long -/

/-- The fault of a reference of too many bytes. -/
def overlong (n : Nat) : Fault := .badValue (Principal.Fault.tooLong n).message

/-- The bytes begin with a reference of `n` bytes, which are all there and too many. -/
def IsOverlong (n : Nat) (bytes : Bytes) : Prop :=
  ∃ rest content, bytes = 1 :: rest ∧ readLeb rest = .ok (n, content) ∧ 29 < n ∧
    n ≤ content.length

theorem split?_of_le {n : Nat} {bytes : Bytes} (h : n ≤ bytes.length) :
    split? n bytes = some (bytes.take n, bytes.drop n) := by
  have hlen : (bytes.take n).length = n := List.length_take_of_le h
  have happ := Reader.split?_append (bytes.take n) (bytes.drop n)
  rwa [hlen, List.take_append_drop] at happ

def readReference : Reader Principal := do
  match Principal.ofBytes (← Reader.take (← Reader.nat)) with
  | .ok p => return p
  | .error fault => throw (.fault (.badValue fault.message))

theorem readPrincipal_cons_one (rest : Bytes) :
    readPrincipal (1 :: rest) = readReference rest := rfl

theorem readPrincipal_cons_of_ne {b : UInt8} (rest : Bytes) (h : b ≠ 1) :
    readPrincipal (b :: rest) = .error (.malformed .opaqueReference) := by
  have hbyte : Reader.byte (b :: rest) = .ok (b, rest) := rfl
  rw [readPrincipal, Reader.bind_of_ok hbyte]
  dsimp only
  rw [if_pos h]
  rfl

theorem readPrincipal_of_isOverlong {n : Nat} {bytes : Bytes} (h : IsOverlong n bytes) :
    readPrincipal bytes = .error (.fault (overlong n)) := by
  obtain ⟨rest, content, rfl, hn, hlong, hlen⟩ := h
  have htake : Reader.take n content = .ok (content.take n, content.drop n) := by
    rw [Reader.take, split?_of_le hlen]
  have hof : Principal.ofBytes (content.take n) = .error (.tooLong n) := by
    have hlen' : (content.take n).length = n := List.length_take_of_le hlen
    rw [Principal.ofBytes, dif_neg (by omega), hlen']
  rw [readPrincipal_cons_one, readReference]
  have hnat : Reader.nat rest = .ok (n, content) := hn
  rw [Reader.bind_of_ok hnat, Reader.bind_of_ok htake, hof]
  rfl

theorem readPrincipal_plain {bytes : Bytes} (h : ∀ n, ¬IsOverlong n bytes) :
    Attempt.Plain (readPrincipal bytes) := by
  cases bytes with
  | nil => exact .eval _
  | cons b rest =>
    by_cases hb : b = 1
    · subst hb
      rw [readPrincipal_cons_one, readReference]
      intro e he
      obtain he | ⟨n, content, hn, he⟩ := Reader.bind_error_iff.mp he
      · exact Reader.Plain.nat rest e he
      obtain he | ⟨bytes, rest', hbytes, he⟩ := Reader.bind_error_iff.mp he
      · exact Reader.Plain.take n content e he
      obtain ⟨hcontent, hlen⟩ := Reader.take_eq_ok hbytes
      have hshort : bytes.length ≤ 29 := by
        refine Nat.le_of_not_lt fun hlong => h n ⟨rest, content, rfl, hn, by omega, ?_⟩
        rw [hcontent, List.length_append]
        omega
      rw [Principal.ofBytes, dif_pos hshort] at he
      cases he
    · rw [readPrincipal_cons_of_ne rest hb]
      exact .eval _

/-- The reference that a value of a type begins with, behind the mark of a function. -/
def reference? : Ty → Bytes → Option Bytes
  | .prim .principal, bytes => some bytes
  | .service _, bytes => some bytes
  | .func .., 1 :: bytes => some bytes
  | _, _ => none

/-- A value of a type begins with a reference of `n` bytes, which are too many. -/
def HoldsOverlong (scope : Scope) (t : Ty) (n : Nat) (bytes : Bytes) : Prop :=
  ∃ u ref, scope.resolve t = .ok u ∧ reference? u bytes = some ref ∧ IsOverlong n ref

section Head
variable {scope : Scope} {t u : Ty} {bytes : Bytes}

theorem readLayout_of_resolve (h : scope.resolve t = .ok u) :
    readLayout scope t = readHead scope u := by
  rw [readLayout, h]
  rfl

theorem readHead_func_cons_one (args results : List Ty) (modes : List Mode) (rest : Bytes) :
    readHead scope (.func args results modes) (1 :: rest) = (do
      let p ← readPrincipal
      return .whole (.func p (← Reader.text)) : Reader Layout) rest := rfl

theorem readHead_func_cons_of_ne (args results : List Ty) (modes : List Mode) {b : UInt8}
    (rest : Bytes) (h : b ≠ 1) :
    readHead scope (.func args results modes) (b :: rest) = .error (.malformed .opaqueFunction) := by
  have hbyte : Reader.byte (b :: rest) = .ok (b, rest) := rfl
  rw [readHead, Reader.bind_of_ok hbyte]
  dsimp only
  rw [if_pos h]
  rfl

theorem readLayout_of_holdsOverlong {n : Nat} (h : HoldsOverlong scope t n bytes) :
    readLayout scope t bytes = .error (.fault (overlong n)) := by
  obtain ⟨u, ref, hu, href, hlong⟩ := h
  have hfault := readPrincipal_of_isOverlong hlong
  rw [readLayout_of_resolve hu]
  unfold reference? at href
  split at href
  · cases href
    exact Reader.bind_of_error (Reader.bind_of_error hfault)
  · cases href
    exact Reader.bind_of_error hfault
  · cases href
    rw [readHead_func_cons_one]
    exact Reader.bind_of_error hfault
  · cases href

theorem readInteger_plain (kind : IntKind) : Reader.Plain (readInteger kind) := by
  rw [readInteger]
  cases kind.width? with
  | some width => exact (Reader.Plain.take width).bind fun _ => .pure _
  | none =>
    cases kind.isSigned with
    | true => exact Reader.Plain.int.bind fun _ => .pure _
    | false => exact Reader.Plain.nat.bind fun _ => .pure _

theorem readPrim_plain {p : Prim} (h : p ≠ .principal) : Reader.Plain (readPrim p) := by
  cases p with
  | null | reserved => exact .pure _
  | empty => exact .eval _
  | bool => exact Reader.Plain.byte.bind fun b => .guard (.pure _)
  | int kind => exact readInteger_plain kind
  | float kind => cases kind <;> exact (Reader.Plain.take _).bind fun _ => .pure _
  | text => exact Reader.Plain.text.bind fun _ => .pure _
  | principal => exact absurd rfl h

theorem readPrincipal_bind_plain {α : Type} {next : Principal → Reader α}
    (h : ∀ n, ¬IsOverlong n bytes) (h' : ∀ p, Reader.Plain (next p)) :
    Attempt.Plain ((readPrincipal >>= next) bytes) := by
  intro e he
  obtain he | ⟨p, rest, -, he⟩ := Reader.bind_error_iff.mp he
  · exact readPrincipal_plain h e he
  · exact h' p rest e he

theorem readHead_plain (h : ∀ n ref, reference? u bytes = some ref → ¬IsOverlong n ref) :
    Attempt.Plain (readHead scope u bytes) := by
  cases u with
  | prim p =>
    by_cases hp : p = .principal
    · subst hp
      rw [readHead, readPrim, bind_assoc]
      exact readPrincipal_bind_plain (fun n => h n bytes rfl) fun _ => .pure _
    · exact (readPrim_plain hp).bind (fun _ => .pure _) bytes
  | var name => exact .eval _
  | opt item =>
    refine Reader.Plain.byte.bind (fun b => ?_) bytes
    split
    · exact .pure _
    · exact .pure _
  | vec item =>
    refine Reader.Plain.nat.bind (fun n => ?_) bytes
    refine (Reader.Plain.lift (Scope.isByte_plain scope item)).bind fun isByte => ?_
    split
    · exact (Reader.Plain.take n).bind fun _ => .pure _
    · exact .pure _
  | record fields => exact .ok _
  | variant cases =>
    refine Reader.Plain.nat.bind (fun i => ?_) bytes
    split
    · exact .pure _
    · exact .eval _
  | func args results modes =>
    obtain _ | ⟨b, rest⟩ := bytes
    · exact .eval _
    by_cases hb : b = 1
    · subst hb
      rw [readHead_func_cons_one]
      refine readPrincipal_bind_plain (fun n => h n rest rfl) fun p => ?_
      exact Reader.Plain.text.bind fun _ => .pure _
    · rw [readHead_func_cons_of_ne args results modes rest hb]
      exact .eval _
  | service methods => exact readPrincipal_bind_plain (fun n => h n bytes rfl) fun _ => .pure _

theorem readLayout_plain (h : ∀ n, ¬HoldsOverlong scope t n bytes) :
    Attempt.Plain (readLayout scope t bytes) := by
  cases hu : scope.resolve t with
  | error e =>
    obtain ⟨cause, rfl⟩ := Scope.resolve_error hu
    rw [readLayout, hu]
    exact .eval cause
  | ok u =>
    rw [readLayout_of_resolve hu]
    exact readHead_plain fun n ref href hlong => h n ⟨u, ref, hu, href, hlong⟩

end Head

/-! ## What a head leaves open -/

/-- The types of the parts that a value of a type can have. -/
def partTypes : Ty → List Ty
  | .opt item | .vec item => [item]
  | .record fields | .variant fields => fields.map (·.2)
  | _ => []

/-- A layout of parts of the type, which are put together plainly. -/
structure Layout.Fits (u : Ty) (layout : Layout) : Prop where
  mem_parts : ∀ t ∈ layout.parts, t ∈ partTypes u
  plain : ∀ vs, Attempt.Plain (layout.assemble vs)

theorem Layout.fits_whole (u : Ty) (v : Value) : Fits u (.whole v) := ⟨nofun, fun _ => .ok v⟩

theorem Layout.fits_around {u t : Ty} (f : Value → Value) (h : t ∈ partTypes u) :
    Fits u (.around f t) :=
  ⟨fun t' ht' => by rwa [List.mem_singleton.mp ht'], fun _ => .ok _⟩

theorem readHead_fits (scope : Scope) (u : Ty) : Reader.Gives (readHead scope u) (Layout.Fits u) := by
  cases u with
  | prim p => exact .bind_right fun v => .pure (Layout.fits_whole _ _)
  | var name => exact .throw _
  | opt item =>
    refine .bind_right fun b => ?_
    split
    · exact .pure (Layout.fits_whole _ _)
    · exact .pure (Layout.fits_around _ List.mem_cons_self)
  | vec item =>
    refine .bind_right fun n => .bind_right fun isByte => ?_
    split
    · exact .bind_right fun bytes => .pure (Layout.fits_whole _ _)
    · refine .pure ⟨fun t ht => ?_, fun _ => .ok _⟩
      rw [List.eq_of_mem_replicate ht]
      exact List.mem_cons_self
  | record fields => exact .pure ⟨fun t ht => ht, fun vs => Value.mkRecord_plain _⟩
  | variant cases =>
    refine .bind_right fun i => ?_
    split
    · next label t hcase =>
      refine .pure (Layout.fits_around _ ?_)
      exact List.mem_map_of_mem (List.mem_of_getElem? hcase)
    · exact .throw _
  | func args results modes =>
    refine .bind_right fun b => ?_
    split
    · exact .bind_right fun _ => .bind_right fun p => .bind_right fun s => .pure (Layout.fits_whole _ _)
    · exact .bind_right fun p => .bind_right fun s => .pure (Layout.fits_whole _ _)
  | service methods => exact .bind_right fun p => .pure (Layout.fits_whole _ _)

theorem readLayout_fits {scope : Scope} {t : Ty} {bytes rest : Bytes} {layout : Layout}
    (h : readLayout scope t bytes = .ok (layout, rest)) :
    ∃ u, scope.resolve t = .ok u ∧ layout.Fits u := by
  obtain ⟨u, mid, hlift, hhead⟩ := Reader.bind_ok_iff.mp h
  obtain ⟨hu, rfl⟩ := Reader.lift_ok_iff.mp hlift
  exact ⟨u, hu, readHead_fits scope u mid layout rest hhead⟩

end Wire

end Candid

end CanisterShell
