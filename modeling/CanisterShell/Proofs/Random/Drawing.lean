import CanisterShell.Proofs.Attempt
import CanisterShell.Random.Generator

/-!
# What is drawn

A drawing makes only what is in `P` when, however the generator stands, it gives something in `P` or is
cut off (`Drawing.Makes`).  Numbers below a bound are below it, items of a list are in it, and a number
for an integer type is one of the type, unless the range of the settings ends below the type: then
every number that is drawn for it is the end of that range (`number_makes_of_below`).
-/

namespace CanisterShell.Random

open Candid

/-! ## Numbers below a bound -/

namespace Twister

theorem drawBelow?_lt {bound width tries n : Nat} {t t' : Twister}
    (h : drawBelow? bound width tries t = some (n, t')) : n < bound := by
  induction tries generalizing t with
  | zero => cases h
  | succ tries ih =>
    rw [drawBelow?] at h
    dsimp only at h
    split at h
    · next hn =>
      cases h
      exact hn
    · exact ih h

theorem below?_lt {bound n : Nat} {t t' : Twister} (h : t.below? bound = some (n, t')) :
    n < bound := drawBelow?_lt h

end Twister

/-! ## Drawings and what they make -/

namespace Drawing

variable {α β : Type}

/-- A drawing gives something in `P`, unless it is cut off. -/
def Makes (x : Drawing α) (P : α → Prop) : Prop :=
  ∀ t, x.run t = .error .exhausted ∨ ∃ a t', x.run t = .ok (a, t') ∧ P a

namespace Makes

variable {P : β → Prop}

theorem pure {b : β} (h : P b) : Makes (Pure.pure b : Drawing β) P :=
  fun t => .inr ⟨b, t, rfl, h⟩

theorem exhausted : Makes (throw .exhausted : Drawing β) P := fun _ => .inl rfl

theorem bind {Q : α → Prop} {x : Drawing α} {next : α → Drawing β} (h : x.Makes Q)
    (h' : ∀ a, Q a → (next a).Makes P) : (x >>= next).Makes P := by
  intro t
  rw [StateT.run_bind]
  rcases h t with hx | ⟨a, t', hx, ha⟩
  · exact .inl (by rw [hx]; rfl)
  · rw [hx]
    exact h' a ha t'

theorem of_ok {x : Attempt β} {b : β} (hx : x = .ok b) (h : P b) :
    Makes (liftM x : Drawing β) P := by
  subst hx
  exact .pure h

theorem bind_ok {x : Attempt α} {next : α → Drawing β} {a : α} (hx : x = .ok a)
    (h : (next a).Makes P) : ((liftM x : Drawing α) >>= next).Makes P :=
  bind (of_ok hx rfl) fun _ ha => ha ▸ h

theorem below (bound : Nat) : (Drawing.below bound).Makes (· < bound) := by
  intro t
  change Drawing.below bound t = _ ∨ ∃ a t', Drawing.below bound t = _ ∧ _
  rw [Drawing.below]
  cases h : t.below? bound with
  | none => exact .inl rfl
  | some drawn => exact .inr ⟨_, _, rfl, Twister.below?_lt h⟩

theorem between (low high : Int) :
    (Drawing.between low high).Makes fun n => low ≤ n ∧ n ≤ high := by
  refine (below _).bind fun n hn => .pure ?_
  omega

theorem coin : Drawing.coin.Makes fun _ => True :=
  fun _ => .inr ⟨_, _, rfl, trivial⟩

theorem choice [Inhabited α] (items : List α) : (Drawing.choice items).Makes (· ∈ items) := by
  refine (below _).bind fun n hn => .pure ?_
  rw [List.getD_eq_getElem?_getD, List.getElem?_eq_getElem hn]
  exact List.getElem_mem hn

theorem times {Q : α → Prop} {draw : Drawing α} (h : draw.Makes Q) (n : Nat) :
    (Drawing.times draw n).Makes fun xs => ∀ x ∈ xs, Q x := by
  induction n with
  | zero => exact .pure nofun
  | succ n ih =>
    exact h.bind fun x hx => ih.bind fun xs hxs => .pure (List.forall_mem_cons.mpr ⟨hx, hxs⟩)

theorem mapM {R : α → β → Prop} {draw : α → Drawing β} {items : List α}
    (h : ∀ a ∈ items, (draw a).Makes (R a)) :
    (items.mapM draw).Makes (List.Forall₂ R items) := by
  induction items with
  | nil => exact .pure .nil
  | cons a items ih =>
    obtain ⟨ha, hitems⟩ := List.forall_mem_cons.mp h
    rw [List.mapM_cons]
    exact ha.bind fun b hb => (ih hitems).bind fun bs hbs => .pure (.cons hb hbs)

theorem mono {Q : β → Prop} {x : Drawing β} (h : x.Makes Q) (himp : ∀ b, Q b → P b) :
    x.Makes P := fun t => (h t).imp_right fun ⟨b, t', hb, hQ⟩ => ⟨b, t', hb, himp b hQ⟩

end Makes

end Drawing

/-! ## The cases to choose from -/

theorem filterAuxM_gives {α : Type} (test : α → Attempt Bool) (items kept : List α) :
    Attempt.Gives (List.filterAuxM test items kept) fun result =>
      ∀ a ∈ result, a ∈ items ∨ a ∈ kept := by
  induction items generalizing kept with
  | nil => exact .ok fun a ha => .inr ha
  | cons a items ih =>
    refine .bind_right fun b => ?_
    intro result hresult x hx
    rcases ih _ result hresult x hx with hx | hx
    · exact .inl (.tail _ hx)
    · cases b with
      | false => exact .inr hx
      | true =>
        rcases List.mem_cons.mp hx with rfl | hx
        · exact .inl (.head _)
        · exact .inr hx

theorem choices_give {scope : Scope} (depth : Int) (cases : List (Label × Ty)) :
    Attempt.Gives (choices scope depth cases) fun chosen => ∀ c ∈ chosen, c.2 ∈ cases := by
  obtain ⟨all, hall⟩ : ∃ all : List (Nat × Label × Ty), all = cases.zipIdx.map fun p => (p.2, p.1) :=
    ⟨_, rfl⟩
  have hchoices : choices scope depth cases = (do
      if 0 < depth then return all
      let leaves ← leaves scope all
      return if leaves.isEmpty then all else leaves) := by
    rw [hall]
    rfl
  have hmem : ∀ c ∈ all, c.2 ∈ cases := by
    intro c hc
    rw [hall] at hc
    obtain ⟨pair, hpair, rfl⟩ := List.mem_map.mp hc
    exact List.fst_mem_of_mem_zipIdx hpair
  rw [hchoices]
  split
  · exact .ok hmem
  · have hleaves : Attempt.Gives (leaves scope all) fun leaves => ∀ c ∈ leaves, c ∈ all := by
      refine (filterAuxM_gives _ all []).bind fun kept hkept => .ok fun c hc => ?_
      exact (hkept c (List.mem_reverse.mp hc)).resolve_right List.not_mem_nil
    refine hleaves.bind fun chosen hchosen => .ok ?_
    split
    · exact hmem
    · exact fun c hc => hmem c (hchosen c hc)

/-! ## Numbers of integer types -/

/-- The range of the settings, if there is one, does not end below the least number of a type. -/
def Config.Meets (c : Config) (kind : IntKind) : Prop :=
  ∀ low high, c.range? = some (low, high) → ∀ least, kind.least? = some least → least ≤ high.value

theorem holds_of_bounds {c : Config} {kind : IntKind} (h : c.Meets kind) {n : Int}
    (hlow : (c.bounds kind.least? kind.greatest?).1 ≤ n)
    (hhigh : n ≤ (c.bounds kind.least? kind.greatest?).2) : kind.holds n := by
  rcases hrange : c.range? with _ | ⟨low, high⟩
  · cases kind <;>
      simp [Config.bounds, hrange, IntKind.least?, IntKind.greatest?, IntKind.holds] at * <;> omega
  · have hmeets := h low high hrange
    cases kind <;>
      simp [Config.bounds, hrange, IntKind.least?, IntKind.greatest?, IntKind.holds] at * <;> omega

theorem number_makes {c : Config} {kind : IntKind} (h : c.Meets kind) :
    (number c kind.least? kind.greatest?).Makes (kind.holds ·) :=
  (Drawing.Makes.between _ _).mono fun _ hn => holds_of_bounds h hn.1 hn.2

/-- Where the range ends below the type, there is no choice. -/
theorem number_makes_of_below {c : Config} {kind : IntKind} {low high : Bound} {least : Int}
    (hrange : c.range? = some (low, high)) (hleast : kind.least? = some least)
    (hbelow : high.value < least) :
    (number c kind.least? kind.greatest?).Makes (· = high.value) := by
  have hbounds : c.bounds kind.least? kind.greatest? = (high.value, high.value) := by
    cases kind <;> simp [Config.bounds, hrange, IntKind.least?, IntKind.greatest?] at * <;> omega
  rw [number, hbounds]
  exact (Drawing.Makes.between _ _).mono fun n hn => Int.le_antisymm hn.2 hn.1

end CanisterShell.Random
