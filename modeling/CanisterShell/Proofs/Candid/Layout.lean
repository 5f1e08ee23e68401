import CanisterShell.Proofs.Candid.Reader

/-!
# Values by head and parts

Reading a value is reading its head, then its parts in order, each nested one level deeper, and then
putting the value together (`readValue_succ`).  Everything about whole values follows from what one
head does, and what a list of parts does is a matter of its first failure.
-/

namespace CanisterShell.Candid.Wire

/-- What the head of a value leaves open: the types of the parts, in order, and what they make. -/
structure Layout where
  parts : List Ty
  assemble : List Value → Attempt Value

def Layout.whole (v : Value) : Layout := ⟨[], fun _ => .ok v⟩

def Layout.around (f : Value → Value) (part : Ty) : Layout :=
  ⟨[part], fun vs => .ok (f (vs.headD .null))⟩

/-- Reads a value of a type, names resolved, up to its first part. -/
def readHead (scope : Scope) : Ty → Reader Layout
  | .prim p => return .whole (← readPrim p)
  | .opt item => do
    if (← Reader.byte) = 0 then return .whole .nothing else return .around .opt item
  | .vec item => do
    let n ← Reader.nat
    if ← (scope.isByte item : Except Failure Bool) then return .whole (.blob (← Reader.take n))
    else return ⟨List.replicate n item, fun vs => .ok (.vec vs)⟩
  | .record fields =>
    return ⟨fields.map (·.2), fun vs => Value.mkRecord ((fields.map (·.1)).zip vs)⟩
  | .variant cases => do
    let i ← Reader.nat
    match cases[i]? with
    | some (label, u) => return .around (fun v => .variant label v i) u
    | none => throw (.malformed (.variantIndex i))
  | .func .. => do
    if (← Reader.byte) ≠ 1 then throw (.malformed .opaqueFunction)
    let p ← readPrincipal
    return .whole (.func p (← Reader.text))
  | .service _ => return .whole (.service (← readPrincipal))
  | .var name => throw (.eval (.undecodableType (.var name)))

/-- Reads a value of a type up to its first part. -/
def readLayout (scope : Scope) (t : Ty) : Reader Layout := do readHead scope (← scope.resolve t)

theorem times_readValue (scope : Scope) (depth n : Nat) (t : Ty) :
    Reader.times (readValue scope depth t) n = readValues scope depth (List.replicate n t) := by
  induction n with
  | zero => rfl
  | succ n ih => rw [Reader.times, ih, List.replicate_succ, readValues]

theorem mapM_readValue (scope : Scope) (depth : Nat) (fields : List (Label × Ty)) :
    (fields.mapM fun (label, u) => do return (label, ← readValue scope depth u) :
        Reader (List (Label × Value)))
      = (fun vs => (fields.map (·.1)).zip vs) <$> readValues scope depth (fields.map (·.2)) := by
  induction fields with
  | nil => rfl
  | cons f fields ih =>
    obtain ⟨label, u⟩ := f
    rw [List.mapM_cons, ih]
    simp only [List.map_cons, readValues, bind_assoc, pure_bind, map_bind, map_pure,
      bind_map_left, List.zip_cons_cons]

theorem readValue_succ (scope : Scope) (depth : Nat) (t : Ty) :
    readValue scope (depth + 1) t = (do
      let layout ← readLayout scope t
      let vs ← readValues scope depth layout.parts
      liftM (layout.assemble vs)) := by
  rw [readValue, readLayout, bind_assoc]
  congr 1
  funext resolved
  cases resolved with
  | prim p => simp [readHead, Layout.whole, readValues, Reader.liftM_ok]
  | var name => rfl
  | opt item =>
    simp only [readHead, bind_assoc]
    congr 1
    funext b
    by_cases hb : b = 0
    · simp [hb, Layout.whole, readValues, Reader.liftM_ok]
    · simp [hb, Layout.around, readValues, Reader.liftM_ok]
  | vec item =>
    simp only [readHead, bind_assoc]
    congr 1
    funext n
    congr 1
    funext isByte
    cases isByte
    · simp [times_readValue, Reader.liftM_ok]
    · simp [Layout.whole, readValues, Reader.liftM_ok]
  | record fields =>
    simp only [readHead, mapM_readValue, pure_bind, bind_map_left]
  | variant cases =>
    simp only [readHead, bind_assoc]
    congr 1
    funext i
    cases cases[i]? with
    | none => rfl
    | some c => simp [Layout.around, readValues, Reader.liftM_ok]
  | func args results modes =>
    simp only [readHead, bind_assoc]
    congr 1
    funext b
    by_cases hb : b = 1
    · simp [hb, Layout.whole, readValues, Reader.liftM_ok]
    · simp only [hb, ne_eq, not_false_eq_true, if_true]
      rfl
  | service methods => simp [readHead, Layout.whole, readValues, Reader.liftM_ok]

/-! ## Exactness -/

open Reader (Exact)

theorem readPrincipal_exact : Exact readPrincipal := by
  refine Exact.byte.bind fun b => .guard ?_
  refine Exact.nat.bind fun n => (Exact.take n).bind fun bytes => ?_
  cases Principal.ofBytes bytes with
  | ok p => exact .pure p
  | error fault => exact .throw _

theorem readInteger_exact (kind : IntKind) : Exact (readInteger kind) := by
  rw [readInteger]
  cases kind.width? with
  | some width => exact (Exact.take width).bind fun _ => .pure _
  | none =>
    cases kind.isSigned with
    | true => exact Exact.int.bind fun _ => .pure _
    | false => exact Exact.nat.bind fun _ => .pure _

theorem readPrim_exact (p : Prim) : Exact (readPrim p) := by
  cases p with
  | null | reserved => exact .pure _
  | empty => exact .throw _
  | bool => exact Exact.byte.bind fun b => .guard (.pure _)
  | int kind => exact readInteger_exact kind
  | float kind => cases kind <;> exact (Exact.take _).bind fun _ => .pure _
  | text => exact Exact.text.bind fun _ => .pure _
  | principal => exact readPrincipal_exact.bind fun _ => .pure _

theorem readHead_exact (scope : Scope) (t : Ty) : Exact (readHead scope t) := by
  cases t with
  | prim p => exact (readPrim_exact p).bind fun _ => .pure _
  | var name => exact .throw _
  | opt item =>
    refine Exact.byte.bind fun b => ?_
    split
    · exact .pure _
    · exact .pure _
  | vec item =>
    refine Exact.nat.bind fun n => (Exact.lift _).bind fun isByte => ?_
    split
    · exact (Exact.take n).bind fun _ => .pure _
    · exact .pure _
  | record fields => exact .pure _
  | variant cases =>
    refine Exact.nat.bind fun i => ?_
    split
    · exact .pure _
    · exact .throw _
  | func args results modes =>
    refine Exact.byte.bind fun b => .guard ?_
    exact readPrincipal_exact.bind fun p => Exact.text.bind fun _ => .pure _
  | service methods => exact readPrincipal_exact.bind fun _ => .pure _

theorem readLayout_exact (scope : Scope) (t : Ty) : Exact (readLayout scope t) :=
  (Exact.lift _).bind fun u => readHead_exact scope u

theorem readValues_exact_of {scope : Scope} {depth : Nat}
    (h : ∀ t, Exact (readValue scope depth t)) (ts : List Ty) :
    Exact (readValues scope depth ts) := by
  induction ts with
  | nil => exact .pure _
  | cons t ts ih => exact (h t).bind fun v => ih.bind fun _ => .pure _

/-- A value is read exactly, however deep it may nest: its head is, then its parts, one level deeper. -/
theorem readValue_exact (scope : Scope) (depth : Nat) (t : Ty) :
    Exact (readValue scope depth t) := by
  induction depth generalizing t with
  | zero => exact .throw _
  | succ depth ih =>
    rw [readValue_succ]
    refine (readLayout_exact scope t).bind fun layout => ?_
    exact (readValues_exact_of ih _).bind fun vs => .lift _

theorem readValues_exact (scope : Scope) (depth : Nat) (ts : List Ty) :
    Exact (readValues scope depth ts) :=
  readValues_exact_of (readValue_exact scope depth) ts

/-! ## More depth -/

section Depth
variable {scope : Scope} {depth depth' : Nat}

theorem within_readValues
    (h : ∀ t, Reader.Within (readValue scope depth t) (readValue scope depth' t)) (ts : List Ty) :
    Reader.Within (readValues scope depth ts) (readValues scope depth' ts) := by
  induction ts with
  | nil => exact Reader.Within.refl _
  | cons t ts ih => exact (h t).bind fun _ => ih.bind fun _ => Reader.Within.refl _

theorem readValue_mono (hle : depth ≤ depth') (t : Ty) :
    Reader.Within (readValue scope depth t) (readValue scope depth' t) := by
  induction depth generalizing depth' t with
  | zero => exact fun _ hne => absurd rfl hne
  | succ depth ih =>
    obtain ⟨k, rfl⟩ : ∃ k, depth' = k + 1 := ⟨depth' - 1, by omega⟩
    rw [readValue_succ, readValue_succ]
    refine (Reader.Within.refl _).bind fun layout => ?_
    refine (within_readValues (fun t => ih (by omega : depth ≤ k) t) _).bind fun _ => ?_
    exact Reader.Within.refl _

theorem readValues_mono (hle : depth ≤ depth') (ts : List Ty) :
    Reader.Within (readValues scope depth ts) (readValues scope depth' ts) :=
  within_readValues (readValue_mono hle) ts

end Depth

/-! ## The first failure -/

section Parts
variable {scope : Scope} {depth : Nat} {bytes : Bytes}

theorem readValues_cons_of_error {t : Ty} {e : Failure} (after : List Ty)
    (h : readValue scope depth t bytes = .error e) :
    readValues scope depth (t :: after) bytes = .error e := by
  rw [readValues]
  exact Reader.bind_of_error h

theorem readValues_cons_iff {t : Ty} {ts : List Ty} {r : List Value × Bytes} :
    readValues scope depth (t :: ts) bytes = .ok r ↔
      ∃ v mid vs, readValue scope depth t bytes = .ok (v, mid) ∧
        readValues scope depth ts mid = .ok (vs, r.2) ∧ r.1 = v :: vs := by
  simp only [readValues, Reader.bind_ok_iff]
  constructor
  · rintro ⟨v, mid, hv, vs, rest, hvs, hr⟩
    cases hr
    exact ⟨v, mid, vs, hv, hvs, rfl⟩
  · rintro ⟨v, mid, vs, hv, hvs, hr⟩
    obtain ⟨ws, rest⟩ := r
    cases hr
    exact ⟨v, mid, hv, vs, rest, hvs, rfl⟩

theorem readValues_append (before after : List Ty) :
    readValues scope depth (before ++ after) = (do
      let vs ← readValues scope depth before
      let ws ← readValues scope depth after
      return vs ++ ws) := by
  induction before with
  | nil => simp [readValues]
  | cons t before ih => simp [readValues, ih]

theorem readValues_error_iff {ts : List Ty} {e : Failure} :
    readValues scope depth ts bytes = .error e ↔
      ∃ before t after vs rest, ts = before ++ t :: after ∧
        readValues scope depth before bytes = .ok (vs, rest) ∧
        readValue scope depth t rest = .error e := by
  constructor
  · intro h
    induction ts generalizing bytes with
    | nil => cases h
    | cons t ts ih =>
      rw [readValues, Reader.bind_error_iff] at h
      obtain h | ⟨v, rest, hv, h⟩ := h
      · exact ⟨[], t, ts, [], bytes, rfl, rfl, h⟩
      · obtain h | ⟨vs, rest', hvs, h⟩ := Reader.bind_error_iff.mp h
        · obtain ⟨before, u, after, vs, rest', rfl, hb, hu⟩ := ih h
          exact ⟨t :: before, u, after, v :: vs, rest', rfl,
            readValues_cons_iff.mpr ⟨v, rest, vs, hv, hb, rfl⟩, hu⟩
        · cases h
  · rintro ⟨before, t, after, vs, rest, rfl, hb, ht⟩
    rw [readValues_append, Reader.bind_of_ok hb]
    exact Reader.bind_of_error (readValues_cons_of_error after ht)

end Parts

end CanisterShell.Candid.Wire
