import CanisterShell.Syntax.Rule
import Mathlib.Tactic.Common

/-!
# Phrases and their derivations

`Rule.Derives` tells which tokens form a phrase of a rule and what the phrase means, without saying
how it is found.  Combinators follow the operators in which rules are written, so that a derivation
can be given in the shape of its rule.
-/

namespace CanisterShell.Syntax.Rule

variable {N : Type} {M : N → Type}

def spanOf (first last : Token) : Text.Span := { first.span with stop := last.span.stop }

/-- Tokens that form a phrase of a rule, and the meaning of the phrase. -/
inductive Derives (rules : (n : N) → Rule N M (M n)) :
    {α : Type} → Rule N M α → List Token → α → Prop where
  | token (k : Token) : Derives rules (.token k.terminal) [k] k
  | nothing {α : Type} (a : α) : Derives rules (.nothing a) [] a
  | seq {α β : Type} {p : Rule N M α} {q : Rule N M β} {ks ls : List Token} {a : α} {b : β}
      (ha : Derives rules p ks a) (hb : Derives rules q ls b) :
      Derives rules (.seq p q) (ks ++ ls) (a, b)
  | left {α : Type} {p q : Rule N M α} {ks : List Token} {a : α} (ha : Derives rules p ks a) :
      Derives rules (.choice p q) ks a
  | right {α : Type} {p q : Rule N M α} {ks : List Token} {a : α} (ha : Derives rules q ks a) :
      Derives rules (.choice p q) ks a
  | many {α : Type} {p : Rule N M α} (phrases : List (List Token × α))
      (hne : ∀ x ∈ phrases, x.1 ≠ []) (h : ∀ x ∈ phrases, Derives rules p x.1 x.2) :
      Derives rules (.many p) (phrases.flatMap (·.1)) (phrases.map (·.2))
  | map {α β : Type} {p : Rule N M α} {ks : List Token} {a : α} (f : α → β)
      (ha : Derives rules p ks a) : Derives rules (.map f p) ks (f a)
  | spanned {α : Type} {p : Rule N M α} {ks : List Token} {a : α} (hks : ks ≠ [])
      (ha : Derives rules p ks a) :
      Derives rules (.spanned p) ks (spanOf (ks.head hks) (ks.getLast hks), a)
  | ref {n : N} {ks : List Token} {m : M n} (hm : Derives rules (rules n) ks m) :
      Derives rules (.ref n) ks m

namespace Derives

variable {rules : (n : N) → Rule N M (M n)} {α β γ : Type} {ks ls : List Token}

theorem app {p : Rule N M (α → β)} {q : Rule N M α} {f : α → β} {a : α} (hf : Derives rules p ks f)
    (ha : Derives rules q ls a) : Derives rules (p <*> q) (ks ++ ls) (f a) :=
  .map (fun x : (α → β) × α => x.1 x.2) (.seq hf ha)

theorem apply {p : Rule N M α} {a : α} (f : α → β) (ha : Derives rules p ks a) :
    Derives rules (f <$> p) ks (f a) := .map f ha

theorem pure (a : α) : Derives rules (Pure.pure a) [] a := .nothing a

theorem orLeft {p q : Rule N M α} {a : α} (h : Derives rules p ks a) :
    Derives rules (p <|> q) ks a := .left h

theorem orRight {p q : Rule N M α} {a : α} (h : Derives rules q ks a) :
    Derives rules (p <|> q) ks a := .right h

theorem manyNil {p : Rule N M α} : Derives rules (.many p) [] [] := .many [] nofun nofun

theorem present {p : Rule N M α} {a : α} (h : Derives rules p ks a) :
    Derives rules (optional p) ks (some a) := .left (.map some h)

theorem absent {p : Rule N M α} : Derives rules (optional p) [] none := .right (.nothing none)

end Derives

/-! ## What a derivation consists of -/

def Consists (rules : (n : N) → Rule N M (M n)) :
    {α : Type} → Rule N M α → List Token → α → Prop
  | _, .token t, ks, k => ks = [k] ∧ k.terminal = t
  | _, .nothing a, ks, b => ks = [] ∧ b = a
  | _, .seq p q, ks, x =>
    ∃ ls ls', ks = ls ++ ls' ∧ Derives rules p ls x.1 ∧ Derives rules q ls' x.2
  | _, .choice p q, ks, a => Derives rules p ks a ∨ Derives rules q ks a
  | _, .many p, ks, as => ∃ phrases : List (List Token × _),
    ks = phrases.flatMap (·.1) ∧ as = phrases.map (·.2) ∧
      ∀ x ∈ phrases, x.1 ≠ [] ∧ Derives rules p x.1 x.2
  | _, .map f p, ks, b => ∃ a, Derives rules p ks a ∧ b = f a
  | _, .spanned p, ks, x =>
    ∃ hks : ks ≠ [], x.1 = spanOf (ks.head hks) (ks.getLast hks) ∧ Derives rules p ks x.2
  | _, .ref n, ks, m => Derives rules (rules n) ks m

theorem Derives.consists {rules : (n : N) → Rule N M (M n)} {α : Type} {p : Rule N M α}
    {ks : List Token} {a : α} (h : Derives rules p ks a) : Consists rules p ks a := by
  cases h with
  | token k => exact ⟨rfl, rfl⟩
  | nothing a => exact ⟨rfl, rfl⟩
  | seq ha hb => exact ⟨_, _, rfl, ha, hb⟩
  | left ha => exact .inl ha
  | right ha => exact .inr ha
  | many phrases hne h => exact ⟨phrases, rfl, rfl, fun x hx => ⟨hne x hx, h x hx⟩⟩
  | map f ha => exact ⟨_, ha, rfl⟩
  | spanned hks ha => exact ⟨hks, rfl, ha⟩
  | ref hm => exact hm

section

variable {rules : (n : N) → Rule N M (M n)} {α β γ : Type} {ks : List Token} {p : Rule N M α}
  {q : Rule N M β}

theorem consists_seqRight {b : β} (h : Derives rules (p *> q) ks b) :
    ∃ a ls ls', ks = ls ++ ls' ∧ Derives rules p ls a ∧ Derives rules q ls' b := by
  obtain ⟨x, hx, rfl⟩ := h.consists
  obtain ⟨ls, ls', rfl, hp, hq⟩ := hx.consists
  exact ⟨_, ls, ls', rfl, hp, hq⟩

theorem consists_seqLeft {a : α} (h : Derives rules (p <* q) ks a) :
    ∃ b ls ls', ks = ls ++ ls' ∧ Derives rules p ls a ∧ Derives rules q ls' b := by
  obtain ⟨x, hx, rfl⟩ := h.consists
  obtain ⟨ls, ls', rfl, hp, hq⟩ := hx.consists
  exact ⟨_, ls, ls', rfl, hp, hq⟩

theorem consists_app {p : Rule N M (α → β)} {q : Rule N M α} {b : β}
    (h : Derives rules (p <*> q) ks b) :
    ∃ f a ls ls', ks = ls ++ ls' ∧ Derives rules p ls f ∧ Derives rules q ls' a ∧ b = f a := by
  obtain ⟨x, hx, rfl⟩ := h.consists
  obtain ⟨ls, ls', rfl, hp, hq⟩ := hx.consists
  exact ⟨_, _, ls, ls', rfl, hp, hq, rfl⟩

theorem consists_map₂ {f : α → β → γ} {c : γ} (h : Derives rules (f <$> p <*> q) ks c) :
    ∃ a b ls ls', ks = ls ++ ls' ∧ Derives rules p ls a ∧ Derives rules q ls' b ∧ c = f a b := by
  obtain ⟨_, b, ls, ls', rfl, hf, hb, rfl⟩ := consists_app h
  obtain ⟨a, ha, rfl⟩ := hf.consists
  exact ⟨a, b, ls, ls', rfl, ha, hb, rfl⟩

theorem eq_nil_of_many (h : Derives rules (.many p) ks []) : ks = [] := by
  obtain ⟨phrases, rfl, hnil, -⟩ := h.consists
  rw [List.map_eq_nil_iff.mp hnil.symm]
  rfl

theorem exists_of_mem_many {as : List α} (h : Derives rules (.many p) ks as) {a : α} (ha : a ∈ as) :
    ∃ ls, Derives rules p ls a := by
  obtain ⟨phrases, rfl, rfl, hphrases⟩ := h.consists
  obtain ⟨x, hx, rfl⟩ := List.mem_map.mp ha
  exact ⟨x.1, (hphrases x hx).2⟩

theorem eq_nil_of_absent (h : Derives rules (optional p) ks none) : ks = [] := by
  obtain h | h := h.consists
  · obtain ⟨a, -, hnone⟩ := h.consists
    cases hnone
  · exact h.consists.1

end

end CanisterShell.Syntax.Rule
