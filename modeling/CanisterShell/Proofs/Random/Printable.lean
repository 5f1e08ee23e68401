import CanisterShell.Proofs.Candid.Grounded
import CanisterShell.Proofs.Random.Drawing
import CanisterShell.Proofs.Syntax.PrintedTypes

/-!
# Drawn values are printable

What is drawn for types without floating-point numbers is read back from its text, if the labels of the
types are read as labels and the text refers to no variable of the process (`values_plain`).  Such a
reference can be drawn, in the bytes of a blob, or stand in a label; it shows in every layout, and so
values that show none are put together from values that show none (`Value.Plain`).
-/

namespace CanisterShell

namespace Candid

/-! ## Values that show no reference -/

namespace Value

/-- A value is printable if no reference to a variable of the process shows in some text of it. -/
def Plain (v : Value) : Prop :=
  ∀ layout level, '$' ∉ (v.toTextAt layout level).toList → v.Printable

theorem mem_optText {v : Value} {text : String} {c : Char} (hc : c ∈ text.toList) :
    c ∈ (optText v text).toList := by
  rw [optText]
  split <;> simp [hc]

theorem mem_fieldText {l : Label} {text : String} {c : Char}
    (hc : c ∈ (labelText l).toList ∨ c ∈ text.toList) : c ∈ (fieldText l text).toList := by
  rcases hc with hc | hc <;> simp [fieldText, hc]

theorem mem_intercalate {sep t : String} {texts : List String} (ht : t ∈ texts) {c : Char}
    (hc : c ∈ t.toList) : c ∈ (sep.intercalate texts).toList := by
  induction texts with
  | nil => cases ht
  | cons u texts ih =>
    cases texts with
    | nil =>
      rw [List.mem_singleton.mp ht] at hc
      simpa using hc
    | cons u' texts =>
      rw [String.intercalate_cons_cons, String.toList_append, String.toList_append]
      rcases List.mem_cons.mp ht with rfl | ht
      · exact List.mem_append_left _ (List.mem_append_left _ hc)
      · exact List.mem_append_right _ (ih ht)

theorem mem_braced {head t : String} {texts : List String} (ht : t ∈ texts) {c : Char}
    (hc : c ∈ t.toList) : c ∈ (Ty.braced head texts).toList := by
  have hne : ¬texts.isEmpty = true := by
    rw [List.isEmpty_iff]
    exact List.ne_nil_of_mem ht
  rw [Ty.braced, if_neg hne, String.toList_append, String.toList_append]
  exact List.mem_append_left _ (List.mem_append_right _ (mem_intercalate ht hc))

theorem mem_block {layout : Layout} {head t : String} {texts : List String} {level : Nat}
    (ht : t ∈ texts) {c : Char} (hc : c ∈ t.toList) :
    c ∈ (block layout head texts level).toList := by
  simp only [block, String.toList_append, String.toList_join, List.mem_append, List.mem_flatMap,
    List.mem_map]
  exact .inl (.inl (.inr ⟨_, ⟨t, ht, rfl⟩, by simp [hc]⟩))

theorem toTextAt_wide (v : Value) : v.toTextAt ⟨v.flat.length, 0⟩ 0 = v.flat := by
  cases v <;> simp [toTextAt, fitting]

end Value

theorem dollar_mem_quoteText {s : String} (h : '$' ∈ s.toList) : '$' ∈ (quoteText s).toList := by
  rw [quoteText, String.toList_ofList]
  exact List.mem_append_left _ (.tail _ (List.mem_flatMap.mpr ⟨'$', h, by decide⟩))

theorem Label.Readable.printable {l : Label} (h : l.Readable) (hl : '$' ∉ (labelText l).toList) :
    l.Printable := by
  cases l with
  | numbered id => trivial
  | named name =>
    refine ⟨fun hdollar => hl ?_, h⟩
    rw [labelText, nameText]
    split
    · exact hdollar
    · exact dollar_mem_quoteText hdollar

namespace Value.Plain

open Value

variable {v : Value}

theorem flat (h : v.Plain) (hflat : '$' ∉ v.flat.toList) : v.Printable :=
  h ⟨v.flat.length, 0⟩ 0 (by rwa [toTextAt_wide])

theorem of_printable (h : v.Printable) : v.Plain := fun _ _ _ => h

theorem of_fitting {other : Layout → Nat → String}
    (htext : ∀ layout level, v.toTextAt layout level = fitting layout level v (other layout level))
    (hflat : '$' ∉ v.flat.toList → v.Printable)
    (hother : ∀ layout level, '$' ∉ (other layout level).toList → v.Printable) : v.Plain := by
  intro layout level h
  rw [htext, fitting] at h
  split at h
  · exact hflat h
  · exact hother layout level h

theorem text (s : String) : (text s).Plain := by
  intro layout level h
  exact .text fun hs => h (dollar_mem_quoteText hs)

theorem blob (bytes : Bytes) : (blob bytes).Plain := by
  refine fun layout level h => .blob fun hbytes => h ?_
  have hquoted : '$' ∈ (quoteBytes bytes).toList := by
    rw [quoteBytes, String.toList_ofList]
    exact List.mem_append_left _ (.tail _ (List.mem_flatMap.mpr ⟨36, hbytes, by decide⟩))
  rw [toTextAt, Value.flat, blobText, String.toList_append]
  · exact List.mem_append_right _ hquoted
  all_goals simp

theorem opt (h : v.Plain) : (opt v).Plain := by
  refine .of_fitting (fun layout level => by rw [toTextAt]) (fun hflat => .opt ?_)
    fun layout level hother => .opt ?_
  · rw [Value.flat] at hflat
    exact h.flat fun hv => hflat (mem_optText hv)
  · exact h layout level fun hv => hother (mem_optText hv)

theorem vec {items : List Value} (h : ∀ v ∈ items, v.Plain) : (vec items).Plain := by
  refine .of_fitting (fun layout level => by rw [toTextAt]) (fun hflat => .vec fun v hv => ?_)
    fun layout level hother => .vec fun v hv => ?_
  · rw [Value.flat, Syntax.flats_eq] at hflat
    exact (h v hv).flat fun hc => hflat (mem_braced (List.mem_map_of_mem hv) hc)
  · rw [Syntax.texts_eq] at hother
    exact h v hv layout (level + 1) fun hc => hother (mem_block (List.mem_map_of_mem hv) hc)

theorem printable_of_countsFrom {i : Nat} {fields : List (Label × Value)}
    (h : countsFrom i fields = true) : ∀ f ∈ fields, f.1.Printable := by
  induction fields generalizing i with
  | nil => exact nofun
  | cons f fields ih =>
    obtain ⟨hlabel, hrest⟩ := Bool.and_eq_true_iff.mp h
    refine List.forall_mem_cons.mpr ⟨?_, ih hrest⟩
    obtain ⟨l, v⟩ := f
    cases l with
    | named name => cases hlabel
    | numbered id => trivial

theorem printable_of_shownTexts (text : Value → String) {fields : List (Label × Value)}
    (hl : ∀ f ∈ fields, f.1.Readable)
    (hv : ∀ f ∈ fields, '$' ∉ (text f.2).toList → f.2.Printable)
    (h : ∀ t ∈ Syntax.shownTexts text fields, '$' ∉ t.toList) : (Value.record fields).Printable := by
  rw [Syntax.shownTexts] at h
  split at h
  case isTrue hcounts =>
    exact .record (printable_of_countsFrom hcounts) fun f hf =>
      hv f hf (h _ (List.mem_map_of_mem hf))
  case isFalse =>
    refine .record (fun f hf => (hl f hf).printable fun hc => ?_) fun f hf => hv f hf fun hc => ?_
    · exact h _ (List.mem_map_of_mem hf) (mem_fieldText (.inl hc))
    · exact h _ (List.mem_map_of_mem hf) (mem_fieldText (.inr hc))

theorem record {fields : List (Label × Value)} (hl : ∀ f ∈ fields, f.1.Readable)
    (h : ∀ f ∈ fields, f.2.Plain) : (record fields).Plain := by
  refine .of_fitting (fun layout level => by rw [toTextAt]) (fun hflat => ?_)
    fun layout level hother => ?_
  · refine printable_of_shownTexts Value.flat hl (fun f hf => (h f hf).flat) fun t ht hc => ?_
    rw [Value.flat, Syntax.bareFlats_eq, Syntax.fieldFlats_eq] at hflat
    exact hflat (mem_braced ht hc)
  · refine printable_of_shownTexts (toTextAt layout (level + 1)) hl
      (fun f hf => h f hf layout (level + 1)) fun t ht hc => ?_
    rw [Syntax.bareTexts_eq, Syntax.fieldTexts_eq] at hother
    exact hother (mem_block ht hc)

theorem printable_of_variantText {l : Label} {text : String} (hl : l.Readable)
    (hv : '$' ∉ text.toList → v.Printable) (index : Nat)
    (h : '$' ∉ (variantText l v.isNull text).toList) : (Value.variant l v index).Printable := by
  match hnull : v.isNull, hname : bareName? l with
  | true, some name =>
    rw [hnull] at h
    simp only [variantText, hname] at h
    have hv : v = .null := by cases v <;> first | rfl | cases hnull
    refine .variant index (hl.printable fun hc => ?_) (hv ▸ .null)
    cases l with
    | numbered id => cases hname
    | named name' =>
      rw [bareName?] at hname
      split at hname
      case isFalse => cases hname
      case isTrue hbare =>
        cases hname
        rw [labelText, hbare] at hc
        simp [hc] at h
  | true, none | false, _ =>
    have hfield : '$' ∉ (fieldText l text).toList := by
      intro hc
      rw [hnull] at h
      simp [variantText, hname, hc] at h
    exact .variant index (hl.printable fun hc => hfield (mem_fieldText (.inl hc)))
      (hv fun hc => hfield (mem_fieldText (.inr hc)))

theorem variant {l : Label} (hl : l.Readable) (h : v.Plain) (index : Nat) :
    (variant l v index).Plain := by
  refine .of_fitting (fun layout level => by rw [toTextAt]) (fun hflat => ?_)
    fun layout level hother => ?_
  · rw [Value.flat] at hflat
    exact printable_of_variantText hl h.flat index hflat
  · exact printable_of_variantText hl (h layout level) index hother

end Value.Plain

end Candid

namespace Random

open Candid Candid.Value

/-! ## What drawings give -/

namespace Drawing

variable {α β : Type}

/-- All that a drawing gives is in `P`, however the generator stands. -/
def Gives (x : Drawing α) (P : α → Prop) : Prop := ∀ t, Attempt.Gives (x.run t) (P ·.1)

namespace Gives

variable {P : β → Prop}

theorem of_makes {x : Drawing β} (h : x.Makes P) : x.Gives P := by
  intro t r hr
  rcases h t with hx | ⟨b, t', hx, hb⟩
  · rw [hx] at hr
    cases hr
  · rw [hx] at hr
    cases hr
    exact hb

theorem pure {b : β} (h : P b) : Gives (Pure.pure b : Drawing β) P := .of_makes (.pure h)

theorem throw (e : Failure) : Gives (throw e : Drawing β) P := fun _ => .error e

theorem bind {Q : α → Prop} {x : Drawing α} {next : α → Drawing β} (h : x.Gives Q)
    (h' : ∀ a, Q a → (next a).Gives P) : (x >>= next).Gives P := by
  intro t
  rw [StateT.run_bind]
  exact (h t).bind fun r hr => h' r.1 hr r.2

theorem attempt {x : Attempt β} (h : x.Gives P) : Gives (liftM x : Drawing β) P := by
  intro t r hr
  obtain ⟨b, hb, hr⟩ := Attempt.bind_ok_iff.mp hr
  cases hr
  exact h b hb

theorem anything (x : Drawing β) : x.Gives fun _ => True := fun _ _ _ => trivial

theorem times {draw : Drawing β} (h : draw.Gives P) (n : Nat) :
    (Drawing.times draw n).Gives fun xs => ∀ x ∈ xs, P x := by
  induction n with
  | zero => exact .pure nofun
  | succ n ih =>
    exact h.bind fun x hx => ih.bind fun xs hxs => .pure (List.forall_mem_cons.mpr ⟨hx, hxs⟩)

theorem mapM {draw : α → Drawing β} {items : List α} (h : ∀ a ∈ items, (draw a).Gives P) :
    (items.mapM draw).Gives fun bs => bs.length = items.length ∧ ∀ b ∈ bs, P b := by
  induction items with
  | nil => exact .pure ⟨rfl, nofun⟩
  | cons a items ih =>
    obtain ⟨ha, hitems⟩ := List.forall_mem_cons.mp h
    rw [List.mapM_cons]
    refine ha.bind fun b hb => (ih hitems).bind fun bs hbs => .pure ?_
    exact ⟨congrArg (· + 1) hbs.1, List.forall_mem_cons.mpr ⟨hb, hbs.2⟩⟩

end Gives

end Drawing

/-! ## Values of types -/

/-- Values of a type can be told: among all types that one comes to are no floating-point numbers, and
the labels are read as labels. -/
structure Sayable (scope : Scope) (t : Ty) : Prop where
  floatFree : scope.FloatFree t
  fields : ∀ fields, scope.Reaches t (.record fields) → ∀ f ∈ fields, f.1.Readable
  cases : ∀ cases, scope.Reaches t (.variant cases) → ∀ c ∈ cases, c.1.Readable

variable {c : Config} {scope : Scope} {t u : Ty}

namespace Sayable

theorem of_reaches (h : Sayable scope t) (hu : scope.Reaches t u) : Sayable scope u where
  floatFree := h.floatFree.of_reaches hu
  fields fields hfields := h.fields fields (hu.trans hfields)
  cases cases hcases := h.cases cases (hu.trans hcases)

theorem component {part : Ty} (h : Sayable scope t) (hu : scope.resolve t = .ok u)
    (hpart : part ∈ u.components) : Sayable scope part :=
  h.of_reaches ((Scope.Reaches.of_resolve hu).tail (.component hpart))

end Sayable

theorem primValue_plain {p : Prim} (h : Sayable scope (.prim p)) : (primValue c p).Gives Plain := by
  cases p with
  | null => exact .pure (.of_printable .null)
  | reserved => exact .pure (.of_printable .reserved)
  | empty => exact .throw _
  | bool => exact (Drawing.Gives.anything _).bind fun b _ => .pure (.of_printable (.bool b))
  | int kind =>
    refine (Drawing.Gives.anything _).bind fun n _ => .attempt fun v hv => ?_
    rw [mkInt] at hv
    split at hv
    · cases hv
      exact .of_printable (.int kind n)
    · cases hv
  | float kind => exact absurd .refl (h.floatFree kind)
  | text => exact (Drawing.Gives.anything _).bind fun s _ => .pure (.text s)
  | principal =>
    refine (Drawing.Gives.anything _).bind fun n _ => ?_
    split
    · exact .pure (.of_printable (.principal _))
    · exact .throw _

section

variable {draw : Ty → Drawing Value}

theorem items_plain (scope : Scope) {item : Ty} (h : (draw item).Gives Plain) (n : Nat) :
    (do
      if ← (scope.isByte item : Except Failure Bool) then
        return .blob ((← Drawing.times (Drawing.below 256) n).map UInt8.ofNat)
      else return .vec (← Drawing.times (draw item) n) : Drawing Value).Gives Plain := by
  refine (Drawing.Gives.anything _).bind fun isByte _ => ?_
  split
  · exact (Drawing.Gives.anything _).bind fun bytes _ => .pure (.blob _)
  · exact (h.times n).bind fun vs hvs => .pure (.vec hvs)

theorem record_plain {fields : List (Label × Ty)} (hl : ∀ f ∈ fields, f.1.Readable)
    (h : ∀ f ∈ fields, (draw f.2).Gives Plain) :
    (do
      let values ← fields.mapM fun (label, u) => do return (label, ← draw u)
      (Value.mkRecord values : Except Failure Value) : Drawing Value).Gives Plain := by
  refine (Drawing.Gives.mapM (P := fun g => g.1.Readable ∧ Plain g.2) fun f hf =>
    (h f hf).bind fun v hv => .pure ⟨hl f hf, hv⟩).bind fun values hvalues => .attempt fun v hv => ?_
  rw [mkRecord] at hv
  split at hv
  · cases hv
  · cases hv
    have hall : ∀ g ∈ Ty.sortFields values, g.1.Readable ∧ Plain g.2 := fun g hg =>
      hvalues.2 g ((perm_sortBy _ values).mem_iff.mp hg)
    exact .record (fun g hg => (hall g hg).1) fun g hg => (hall g hg).2

theorem variant_plain {cases : List (Label × Ty)} (depth : Int)
    (hl : ∀ c ∈ cases, c.1.Readable) (h : ∀ c ∈ cases, (draw c.2).Gives Plain) :
    (do
      let (i, label, u) ← Drawing.choice (← (choices scope depth cases :
        Except Failure (List (Nat × Label × Ty))))
      return .variant label (← draw u) i : Drawing Value).Gives Plain := by
  refine (Drawing.Gives.attempt (choices_give depth cases)).bind fun chosen hchosen => ?_
  refine (Drawing.Gives.of_makes (.choice _)).bind ?_
  rintro ⟨i, label, u⟩ hcase
  have hcase := hchosen _ hcase
  exact (h _ hcase).bind fun v hv => .pure (.variant (hl _ hcase) hv i)

end

/-- What is drawn for a type is plain.  The induction is on the fuel: the parts are drawn with less. -/
theorem valueOf_plain (fuel : Nat) (depth : Int) (h : Sayable scope t) :
    (valueOf c scope fuel depth t).Gives Plain := by
  induction fuel generalizing depth t with
  | zero => exact .throw _
  | succ fuel ih =>
    rw [valueOf]
    refine (Drawing.Gives.attempt fun u (hu : scope.resolve t = .ok u) => hu).bind fun u hu => ?_
    have hcomponent : ∀ part ∈ u.components, Sayable scope part := fun _ => h.component hu
    have hreaches := Scope.Reaches.of_resolve hu
    cases u with
    | prim p => exact primValue_plain (h.of_reaches hreaches)
    | opt item =>
      have hnothing : (Pure.pure .nothing : Drawing Value).Gives Plain :=
        .pure (.of_printable .nothing)
      dsimp only
      split
      · exact hnothing
      · refine (Drawing.Gives.anything _).bind fun b _ => ?_
        split
        · exact hnothing
        · exact (ih (depth - 1) (hcomponent _ (.head _))).bind fun v hv => .pure hv.opt
    | vec item =>
      have hitems := items_plain scope (ih (depth - 1) (hcomponent item (.head _)))
      dsimp only
      split
      · exact hitems 0
      · exact (Drawing.Gives.anything _).bind fun n _ => hitems n
    | record fields =>
      exact record_plain (h.fields fields hreaches) fun f hf =>
        ih (depth - 1) (hcomponent _ (List.mem_map_of_mem hf))
    | variant cases =>
      cases cases with
      | nil => exact .throw _
      | cons first rest =>
        exact variant_plain depth (h.cases _ hreaches) fun c' hc' =>
          ih (depth - 1) (hcomponent _ (List.mem_map_of_mem hc'))
    | func => exact .pure (.of_printable (.func _ (by decide)))
    | service => exact .pure (.of_printable (.service _))
    | var name => exact .throw _

/-- Values that are drawn are plain, and as many as their types. -/
theorem values_plain {ts : List Ty} (h : ∀ t ∈ ts, Sayable scope t) {fuel seed : Nat}
    {vs : List Value} (hvs : valuesWithin c scope fuel seed ts = .ok vs) :
    vs.length = ts.length ∧ ∀ v ∈ vs, v.Plain := by
  have hgives : (ts.mapM (valueOf c scope fuel c.depth)).Gives _ :=
    .mapM fun t ht => valueOf_plain fuel c.depth (h t ht)
  rw [valuesWithin, StateT.run'_eq] at hvs
  obtain ⟨r, hr, rfl⟩ := Attempt.map_ok_iff.mp hvs
  exact hgives _ r hr

end Random

end CanisterShell
