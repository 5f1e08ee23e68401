import CanisterShell.Error
import Mathlib.Data.List.Forall2

/-!
# Attempts

How an attempt succeeds along `>>=` and over a list, what is known of all its results or of all its
failures, attempts whose failures are *foreseen*: errors, never a fault and never cut off, and
attempts that fail *plainly*: with errors of evaluation only.
-/

namespace CanisterShell.Attempt

variable {α β : Type}

/-! ## Success -/

theorem ok_bind (a : α) (next : α → Attempt β) : (.ok a : Attempt α) >>= next = next a := rfl

theorem bind_ok_iff {x : Attempt α} {next : α → Attempt β} {b : β} :
    x >>= next = .ok b ↔ ∃ a, x = .ok a ∧ next a = .ok b := by
  cases x with
  | error e => exact ⟨nofun, nofun⟩
  | ok a => exact ⟨fun h => ⟨a, rfl, h⟩, fun ⟨_, h, h'⟩ => by cases h; exact h'⟩

theorem map_ok_iff {f : α → β} {x : Attempt α} {b : β} :
    x.map f = .ok b ↔ ∃ a, x = .ok a ∧ f a = b := by
  cases x with
  | error e => exact ⟨nofun, nofun⟩
  | ok a => exact ⟨fun h => ⟨a, rfl, Except.ok.inj h⟩, fun ⟨_, h, h'⟩ => by cases h; rw [← h']; rfl⟩

theorem map_map {γ : Type} (f : α → β) (g : β → γ) (x : Attempt α) :
    (x.map f).map g = x.map fun a => g (f a) := by
  cases x with
  | error e => rfl
  | ok a => rfl

theorem exists_of_isOk {x : Attempt α} (h : x.isOk = true) : ∃ a, x = .ok a := by
  cases x with
  | ok a => exact ⟨a, rfl⟩
  | error e => cases h

theorem mapM_ok_iff {f : α → Attempt β} {items : List α} {results : List β} :
    items.mapM f = .ok results ↔ List.Forall₂ (fun a b => f a = .ok b) items results := by
  induction items generalizing results with
  | nil =>
    rw [List.mapM_nil, List.forall₂_nil_left_iff]
    exact ⟨fun h => by cases h; rfl, fun h => by rw [h]; rfl⟩
  | cons a items ih =>
    rw [List.mapM_cons, List.forall₂_cons_left_iff, bind_ok_iff]
    constructor
    · rintro ⟨b, hb, h⟩
      obtain ⟨bs, hbs, h⟩ := bind_ok_iff.mp h
      cases h
      exact ⟨b, bs, hb, ih.mp hbs, rfl⟩
    · rintro ⟨b, bs, hb, hbs, rfl⟩
      exact ⟨b, hb, bind_ok_iff.mpr ⟨bs, ih.mpr hbs, rfl⟩⟩

theorem exists_bind_pure_iff {x : Attempt α} {g : α → β} :
    (∃ b, (do return g (← x)) = (.ok b : Attempt β)) ↔ ∃ a, x = .ok a := by
  cases x with
  | error e => exact ⟨fun ⟨_, h⟩ => (nomatch h), fun ⟨_, h⟩ => (nomatch h)⟩
  | ok a => exact ⟨fun _ => ⟨a, rfl⟩, fun _ => ⟨g a, rfl⟩⟩

theorem bind_pure_error_iff {x : Attempt α} {g : α → β} {e : Failure} :
    (do return g (← x)) = (.error e : Attempt β) ↔ x = .error e := by
  cases x with
  | error e' => exact ⟨fun h => by cases h; rfl, fun h => by cases h; rfl⟩
  | ok a => exact ⟨nofun, nofun⟩

theorem mapM_error_iff {f : α → Attempt β} {items : List α} {e : Failure} :
    items.mapM f = .error e ↔ ∃ front a rest, items = front ++ a :: rest ∧
      (∀ b ∈ front, ∃ c, f b = .ok c) ∧ f a = .error e := by
  induction items with
  | nil => exact ⟨nofun, fun ⟨front, a, rest, h, _⟩ => by simp at h⟩
  | cons a items ih =>
    rw [List.mapM_cons]
    cases ha : f a with
    | error e' =>
      constructor
      · intro h
        cases h
        exact ⟨[], a, items, rfl, nofun, ha⟩
      · rintro ⟨front, a', rest, h, hfront, ha'⟩
        -- nothing that succeeds stands in front of what fails first
        cases front with
        | nil =>
          cases h
          rw [ha] at ha'
          cases ha'
          rfl
        | cons b front =>
          cases h
          obtain ⟨c, hc⟩ := hfront a List.mem_cons_self
          rw [ha] at hc
          cases hc
    | ok b =>
      rw [ok_bind, bind_pure_error_iff, ih]
      constructor
      · rintro ⟨front, a', rest, rfl, hfront, ha'⟩
        exact ⟨a :: front, a', rest, rfl, List.forall_mem_cons.mpr ⟨⟨b, ha⟩, hfront⟩, ha'⟩
      · rintro ⟨front, a', rest, h, hfront, ha'⟩
        cases front with
        | nil =>
          cases h
          rw [ha] at ha'
          cases ha'
        | cons b' front =>
          cases h
          exact ⟨front, a', rest, rfl, (List.forall_mem_cons.mp hfront).2, ha'⟩

theorem exists_of_mapM_ok {f : α → Attempt β} {items : List α} {results : List β}
    (h : items.mapM f = .ok results) {b : β} (hb : b ∈ results) : ∃ a ∈ items, f a = .ok b := by
  rw [mapM_ok_iff] at h
  induction h with
  | nil => cases hb
  | cons hab _ ih =>
    obtain rfl | hb := List.mem_cons.mp hb
    · exact ⟨_, List.mem_cons_self, hab⟩
    · obtain ⟨a, ha, hf⟩ := ih hb
      exact ⟨a, List.mem_cons_of_mem _ ha, hf⟩

theorem mem_of_mapM_ok {f : α → Attempt β} {items : List α} {results : List β}
    (h : items.mapM f = .ok results) {a : α} {b : β} (ha : a ∈ items) (hb : f a = .ok b) :
    b ∈ results := by
  rw [mapM_ok_iff] at h
  induction h with
  | nil => cases ha
  | cons hab _ ih =>
    obtain rfl | ha := List.mem_cons.mp ha
    · rw [hab] at hb
      cases hb
      exact List.mem_cons_self
    · exact List.mem_cons_of_mem _ (ih ha)

theorem exists_mapM_ok {f : α → Attempt β} {items : List α} (h : ∀ a ∈ items, ∃ b, f a = .ok b) :
    ∃ results, items.mapM f = .ok results := by
  simp only [mapM_ok_iff]
  induction items with
  | nil => exact ⟨[], .nil⟩
  | cons a items ih =>
    obtain ⟨⟨b, hb⟩, hitems⟩ := List.forall_mem_cons.mp h
    obtain ⟨results, hresults⟩ := ih hitems
    exact ⟨b :: results, .cons hb hresults⟩

theorem exists_mapM_ok_iff {f : α → Attempt β} {items : List α} :
    (∃ results, items.mapM f = .ok results) ↔ ∀ a ∈ items, ∃ b, f a = .ok b := by
  refine ⟨fun ⟨results, h⟩ a ha => ?_, exists_mapM_ok⟩
  obtain ⟨i, hi, rfl⟩ := List.getElem_of_mem ha
  have hrel := mapM_ok_iff.mp h
  exact ⟨_, hrel.get hi (hrel.length_eq ▸ hi)⟩

theorem mapM_eq_map {f : α → Attempt β} {g : α → β} {items : List α}
    (h : ∀ a ∈ items, f a = .ok (g a)) : items.mapM f = .ok (items.map g) := by
  rw [mapM_ok_iff, List.forall₂_map_right_iff, List.forall₂_same]
  exact h

/-- An attempt all of whose results are in `P`. -/
def Gives (x : Attempt α) (P : α → Prop) : Prop := ∀ a, x = .ok a → P a

namespace Gives

variable {P : β → Prop}

theorem ok {b : β} (h : P b) : Gives (.ok b : Attempt β) P := by
  rintro _ ⟨⟩
  exact h

theorem error (e : Failure) : Gives (.error e : Attempt β) P := nofun

theorem bind {Q : α → Prop} {x : Attempt α} {next : α → Attempt β} (h : Gives x Q)
    (h' : ∀ a, Q a → Gives (next a) P) : Gives (x >>= next) P := by
  intro b hb
  obtain ⟨a, ha, hnext⟩ := bind_ok_iff.mp hb
  exact h' a (h a ha) b hnext

theorem bind_eq {x : Attempt α} {next : α → Attempt β} (h : ∀ a, x = .ok a → Gives (next a) P) :
    Gives (x >>= next) P :=
  bind (Q := (x = .ok ·)) (fun _ => id) h

theorem bind_right {x : Attempt α} {next : α → Attempt β} (h : ∀ a, Gives (next a) P) :
    Gives (x >>= next) P :=
  bind (Q := fun _ => True) (fun _ _ => trivial) fun a _ => h a

theorem mapError {x : Attempt β} {f : Failure → Failure} (h : Gives x P) :
    Gives (x.mapError f) P := by
  cases x with
  | ok b => exact h
  | error e => exact .error _

theorem mapM {f : α → Attempt β} {items : List α} (h : ∀ a ∈ items, Gives (f a) P) :
    Gives (items.mapM f) fun bs => ∀ b ∈ bs, P b := by
  intro bs hbs b hb
  obtain ⟨a, ha, hf⟩ := exists_of_mapM_ok hbs hb
  exact h a ha b hf

theorem foldlM {f : β → α → Attempt β} {items : List α}
    (h : ∀ b, P b → ∀ a ∈ items, Gives (f b a) P) {b : β} (hb : P b) : Gives (items.foldlM f b) P := by
  induction items generalizing b with
  | nil => exact ok hb
  | cons a items ih =>
    rw [List.foldlM_cons]
    exact (h b hb a (.head _)).bind fun b' hb' => ih (fun b hb a ha => h b hb a (.tail _ ha)) hb'

end Gives

/-! ## Failures -/

/-- An attempt all of whose failures are in `P`. -/
def Only (P : Failure → Prop) (x : Attempt α) : Prop := ∀ e, x = .error e → P e

namespace Only

variable {P : Failure → Prop}

theorem ok (a : α) : Only P (.ok a : Attempt α) := nofun

theorem error {e : Failure} (h : P e) : Only P (.error e : Attempt α) := fun _ he => by
  cases he
  exact h

theorem bind {x : Attempt α} {next : α → Attempt β} (h : Only P x) (h' : ∀ a, Only P (next a)) :
    Only P (x >>= next) := by
  intro e he
  cases x with
  | error e' =>
    cases he
    exact h e rfl
  | ok a => exact h' a e he

theorem mapM {f : α → Attempt β} {items : List α} (h : ∀ a ∈ items, Only P (f a)) :
    Only P (items.mapM f) := by
  induction items with
  | nil => exact ok []
  | cons a items ih =>
    rw [List.mapM_cons]
    exact (h a List.mem_cons_self).bind fun _ =>
      (ih fun b hb => h b (List.mem_cons_of_mem a hb)).bind fun _ => ok _

theorem foldlM {f : β → α → Attempt β} {items : List α} (h : ∀ b, ∀ a ∈ items, Only P (f b a))
    (b : β) : Only P (items.foldlM f b) := by
  induction items generalizing b with
  | nil => exact ok b
  | cons a items ih =>
    rw [List.foldlM_cons]
    exact (h b a List.mem_cons_self).bind fun b' =>
      ih (fun b c hc => h b c (List.mem_cons_of_mem a hc)) b'

theorem mapError {Q : Failure → Prop} {f : Failure → Failure} {x : Attempt α} (h : Only P x)
    (hf : ∀ e, P e → Q (f e)) : Only Q (x.mapError f) := by
  cases x with
  | ok a => exact ok a
  | error e => exact error (hf e (h e rfl))

end Only

/-- An attempt that fails with errors only, those that the language foresees. -/
def Foreseen (x : Attempt α) : Prop := Only (fun f => ∃ e, f = .error e) x

/-- An attempt that fails, but not with an error. -/
def Unforeseen (x : Attempt α) : Prop := ∃ f, x = .error f ∧ ∀ e, f ≠ .error e

theorem Foreseen.not_unforeseen {x : Attempt α} (h : Foreseen x) : ¬Unforeseen x := by
  rintro ⟨f, hf, hne⟩
  obtain ⟨e, rfl⟩ := h f hf
  exact hne e rfl

theorem Unforeseen.bind {x : Attempt α} (h : Unforeseen x) (next : α → Attempt β) :
    Unforeseen (x >>= next) := by
  obtain ⟨f, rfl, hne⟩ := h
  exact ⟨f, rfl, hne⟩

theorem unforeseen_bind_iff {x : Attempt α} {next : α → Attempt β} :
    Unforeseen (x >>= next) ↔ Unforeseen x ∨ ∃ a, x = .ok a ∧ Unforeseen (next a) := by
  cases x with
  | error f =>
    constructor
    · rintro ⟨f', hf, hne⟩
      cases hf
      exact .inl ⟨f, rfl, hne⟩
    · rintro (h | ⟨_, h, -⟩)
      · exact h.bind next
      · cases h
  | ok a =>
    constructor
    · exact fun h => .inr ⟨a, rfl, h⟩
    · rintro (⟨_, h, -⟩ | ⟨_, h, h'⟩)
      · cases h
      · cases h
        exact h'

theorem unforeseen_foldlM_iff {f : β → α → Attempt β} {P : α → Prop}
    (hfail : ∀ b a, P a → Unforeseen (f b a)) (hok : ∀ b a, ¬P a → ∃ b', f b a = .ok b')
    {items : List α} {b : β} : Unforeseen (items.foldlM f b) ↔ ∃ a ∈ items, P a := by
  induction items generalizing b with
  | nil => exact ⟨fun ⟨_, h, _⟩ => (nomatch h), fun ⟨_, h, _⟩ => (nomatch h)⟩
  | cons a items ih =>
    rw [List.foldlM_cons]
    by_cases ha : P a
    · exact ⟨fun _ => ⟨a, List.mem_cons_self, ha⟩, fun _ => (hfail b a ha).bind _⟩
    · obtain ⟨b', hb'⟩ := hok b a ha
      rw [hb', ok_bind, ih, List.exists_mem_cons_iff, or_iff_right ha]

/-- An attempt that fails with errors of evaluation only. -/
def Plain (x : Attempt α) : Prop := Only (fun e => ∃ cause, e = .eval cause) x

namespace Plain

theorem ok (a : α) : Plain (.ok a : Attempt α) := Only.ok a

theorem eval (cause : EvalCause) : Plain (.error (.eval cause) : Attempt α) :=
  Only.error ⟨cause, rfl⟩

theorem bind {x : Attempt α} {next : α → Attempt β} (h : Plain x) (h' : ∀ a, Plain (next a)) :
    Plain (x >>= next) := Only.bind h h'

theorem mapM {f : α → Attempt β} (h : ∀ a, Plain (f a)) (items : List α) :
    Plain (items.mapM f) := Only.mapM fun a _ => h a

theorem foreseen {x : Attempt α} (h : Plain x) : Foreseen x := fun f hf => by
  obtain ⟨cause, rfl⟩ := h f hf
  exact ⟨_, rfl⟩

end Plain

end CanisterShell.Attempt
