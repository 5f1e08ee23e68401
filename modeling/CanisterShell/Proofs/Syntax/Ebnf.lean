import CanisterShell.Proofs.Syntax.Asking
import Mathlib.Computability.Language
import Mathlib.Order.CompletePartialOrder
import Mathlib.Tactic.Abel

/-!
# Grammars as they are written

A written grammar gives each symbol a right-hand side with choices, options and repetitions, as it
suits a reader; which sequences of terminals derive from it does not depend on how they are found.
Its languages are the least ones that its rules allow (`Ebnf.language_le`), so two grammars are
compared by giving, for the symbols of one of them, languages of the other that its rules allow.

The rules that are read are a written grammar, too, once what the phrases mean is forgotten
(`Rule.erase`).
-/

namespace CanisterShell.Syntax

/-- A right-hand side over the symbols `S`. -/
inductive Ebnf (S : Type) where
  | nothing
  | token (t : Terminal)
  | rule (s : S)
  | seq (p q : Ebnf S)
  | either (p q : Ebnf S)
  | repeated (p : Ebnf S)

namespace Ebnf

open Computability

variable {S : Type}

instance : Coe String (Ebnf S) := ⟨fun spelling => token (.fixed spelling)⟩

/-- What may be missing. -/
def optional (p : Ebnf S) : Ebnf S := either p nothing

/-- One of several. -/
def oneOf (p : Ebnf S) (others : List (Ebnf S)) : Ebnf S := others.foldl either p

/-- One behind the other. -/
def row : List (Ebnf S) → Ebnf S
  | [] => nothing
  | p :: rest => seq p (row rest)

/-- The sequences of terminals that derive from a right-hand side. -/
inductive Derives (rules : S → Ebnf S) : Ebnf S → List Terminal → Prop where
  | nothing : Derives rules nothing []
  | token (t : Terminal) : Derives rules (token t) [t]
  | rule {s : S} {ts : List Terminal} (h : Derives rules (rules s) ts) : Derives rules (rule s) ts
  | seq {p q : Ebnf S} {ts us : List Terminal} (hp : Derives rules p ts) (hq : Derives rules q us) :
      Derives rules (seq p q) (ts ++ us)
  | left {p q : Ebnf S} {ts : List Terminal} (h : Derives rules p ts) : Derives rules (either p q) ts
  | right {p q : Ebnf S} {ts : List Terminal} (h : Derives rules q ts) :
      Derives rules (either p q) ts
  | none {p : Ebnf S} : Derives rules (repeated p) []
  | more {p : Ebnf S} {ts us : List Terminal} (hp : Derives rules p ts)
      (h : Derives rules (repeated p) us) : Derives rules (repeated p) (ts ++ us)

/-- The language of a right-hand side. -/
def language (rules : S → Ebnf S) (p : Ebnf S) : Language Terminal := {ts | Derives rules p ts}

/-- The language of a right-hand side in which the symbols stand for given languages. -/
@[simp] def denote (L : S → Language Terminal) : Ebnf S → Language Terminal
  | nothing => 1
  | token t => {[t]}
  | rule s => L s
  | seq p q => denote L p * denote L q
  | either p q => denote L p + denote L q
  | repeated p => (denote L p)∗

section

variable {rules : S → Ebnf S} {p q : Ebnf S} {s : S}

theorem language_rule : language rules (rule s) = language rules (rules s) := by
  ext ts
  refine ⟨fun h => ?_, .rule⟩
  cases h with
  | rule h => exact h

theorem language_repeated : language rules (repeated p) = (language rules p)∗ := by
  ext ts
  rw [Language.mem_kstar]
  constructor
  · intro h
    generalize hq : repeated p = q at h
    induction h with
    | none => exact ⟨[], rfl, by simp⟩
    | more hp _ _ ih =>
      cases hq
      obtain ⟨parts, rfl, hparts⟩ := ih rfl
      exact ⟨_ :: parts, rfl, List.forall_mem_cons.mpr ⟨hp, hparts⟩⟩
    | _ => cases hq
  · rintro ⟨parts, rfl, hparts⟩
    induction parts with
    | nil => exact .none
    | cons part parts ih =>
      obtain ⟨hpart, hparts⟩ := List.forall_mem_cons.mp hparts
      exact .more hpart (ih hparts)

theorem language_eq (p : Ebnf S) :
    language rules p = denote (fun s => language rules (rule s)) p := by
  induction p with
  | nothing =>
    ext ts
    rw [denote, Language.mem_one]
    refine ⟨fun h => ?_, ?_⟩
    · cases h with
      | nothing => rfl
    · rintro rfl
      exact .nothing
  | token t =>
    ext ts
    refine ⟨fun h => ?_, ?_⟩
    · cases h with
      | token t => rfl
    · rintro rfl
      exact .token t
  | rule s => rfl
  | seq p q ihp ihq =>
    rw [denote, ← ihp, ← ihq]
    ext ts
    rw [Language.mem_mul]
    refine ⟨fun h => ?_, ?_⟩
    · cases h with
      | seq hp hq => exact ⟨_, hp, _, hq, rfl⟩
    · rintro ⟨us, hp, vs, hq, rfl⟩
      exact .seq hp hq
  | either p q ihp ihq =>
    rw [denote, ← ihp, ← ihq]
    ext ts
    rw [Language.mem_add]
    refine ⟨fun h => ?_, ?_⟩
    · cases h with
      | left h => exact .inl h
      | right h => exact .inr h
    · rintro (h | h)
      · exact .left h
      · exact .right h
  | repeated p ih => rw [denote, ← ih, language_repeated]

/-- The languages of a grammar are the least ones that are closed under its rules. -/
theorem language_le {L : S → Language Terminal} (h : ∀ s, denote L (rules s) ≤ L s) (p : Ebnf S) :
    language rules p ≤ denote L p := by
  intro ts hts
  induction hts with
  | nothing => exact Language.nil_mem_one
  | token t => exact rfl
  | rule _ ih => exact h _ ih
  | seq _ _ ihp ihq => exact Language.append_mem_mul ihp ihq
  | left _ ih => exact .inl ih
  | right _ ih => exact .inr ih
  | none => exact Language.nil_mem_kstar _
  | more _ _ ihp ih =>
    rw [denote] at ih ⊢
    rw [← Language.one_add_self_mul_kstar_eq_kstar]
    exact .inr (Language.append_mem_mul ihp ih)

end

end Ebnf

/-! ## Repetitions

Equations that say a language by itself have one solution as soon as what comes again takes a
terminal. -/

section

open Computability

variable {α : Type} {l m n a b : Language α}

theorem self_eq_self_mul_add_iff (hm : [] ∉ m) : l = l * m + n ↔ l = n * m∗ := by
  have hm' : [] ∉ m.reverse := by rwa [Language.mem_reverse, List.reverse_nil]
  rw [← Language.reverse_injective.eq_iff, Language.reverse_add, Language.reverse_mul,
    Language.self_eq_mul_add_iff hm', ← Language.reverse_kstar, ← Language.reverse_mul,
    Language.reverse_injective.eq_iff]

theorem nil_notMem_mul_singleton (a : Language α) (t : α) : [] ∉ a * ({[t]} : Language α) := by
  rintro ⟨x, -, y, rfl, h⟩
  simp at h

theorem nil_notMem_singleton_mul (t : α) (a : Language α) : [] ∉ ({[t]} : Language α) * a := by
  rintro ⟨x, rfl, y, -, h⟩
  simp at h

theorem nil_notMem_add (ha : [] ∉ a) (hb : [] ∉ b) : [] ∉ a + b := by
  rw [Language.mem_add, not_or]
  exact ⟨ha, hb⟩

/-- Items with a mark behind each, which may be missing behind the last one. -/
theorem lines_iff (hm : [] ∉ a * m) : l = a * (m * l + 1) + 1 ↔ l = (a * m)∗ * (a + 1) := by
  rw [← Language.self_eq_mul_add_iff hm, mul_add, mul_one, mul_assoc, add_assoc]

/-- Items that may be missing, with marks between them. -/
theorem loose_lines_iff (hm : [] ∉ (a + 1) * m) :
    l = m * l + (a * (m * l + 1) + 1) ↔ l = ((a + 1) * m)∗ * (a + 1) := by
  have hsplit : m * l + (a * (m * l + 1) + 1) = (a + 1) * m * l + (a + 1) := by
    simp only [mul_add, add_mul, mul_one, one_mul, mul_assoc]
    abel
  rw [hsplit, Language.self_eq_mul_add_iff hm]

theorem ended_lines_iff (hm : [] ∉ a * m) :
    l = a * (m * l + b) + b ↔ l = (a * m)∗ * ((a + 1) * b) := by
  rw [← Language.self_eq_mul_add_iff hm, mul_add, add_mul, one_mul, mul_assoc, add_assoc]

theorem mul_kstar_slide : a * (m * a)∗ = (a * m)∗ * a := by
  apply le_antisymm
  · refine mul_kstar_le (le_mul_of_one_le_left' one_le_kstar) ?_
    calc (a * m)∗ * a * (m * a) = (a * m)∗ * (a * m) * a := by simp only [mul_assoc]
      _ ≤ (a * m)∗ * a := mul_le_mul_left kstar_mul_le_kstar a
  · refine kstar_mul_le (le_mul_of_one_le_right' one_le_kstar) ?_
    calc a * m * (a * (m * a)∗) = a * (m * a * (m * a)∗) := by simp only [mul_assoc]
      _ ≤ a * (m * a)∗ := mul_le_mul_right mul_kstar_le_kstar a

/-- Items with marks between them, and perhaps one behind the last one. -/
theorem list_iff (hm : [] ∉ a * m) :
    l = a * (m * l + 1) + 1 ↔ l = a * ((m * a)∗ * (m + 1)) + 1 := by
  have hslide : a * ((m * a)∗ * (m + 1)) + 1 = (a * m)∗ * (a + 1) :=
    calc a * ((m * a)∗ * (m + 1)) + 1 = 1 + a * (m * a)∗ * m + a * (m * a)∗ := by
          simp only [mul_add, mul_one, mul_assoc]
          abel
      _ = 1 + (a * m)∗ * (a * m) + (a * m)∗ * a := by simp only [mul_kstar_slide, mul_assoc]
      _ = (a * m)∗ * (a + 1) := by rw [one_add_kstar_mul, mul_add, mul_one, add_comm]
  rw [lines_iff hm, hslide]

end

/-! ## Rules as a written grammar -/

namespace Rule

variable {N : Type} {M : N → Type} {T : Lookahead N} {g : Grammar N M} {α : Type}

/-- A rule without what its phrases mean. -/
@[simp] def erase : {α : Type} → Rule N M α → Ebnf N
  | _, .token t => .token t
  | _, .nothing _ => .nothing
  | _, .seq p q => .seq (erase p) (erase q)
  | _, .choice p q => .either (erase p) (erase q)
  | _, .many p => .repeated (erase p)
  | _, .map _ p => erase p
  | _, .spanned p => erase p
  | _, .ref n => .rule n

section

variable {β : Type}

@[simp] theorem erase_map (f : α → β) (p : Rule N M α) : (f <$> p).erase = p.erase := rfl

@[simp] theorem erase_seq (p : Rule N M (α → β)) (q : Rule N M α) :
    (p <*> q).erase = .seq p.erase q.erase := rfl

@[simp] theorem erase_seqLeft (p : Rule N M α) (q : Rule N M β) :
    (p <* q).erase = .seq p.erase q.erase := rfl

@[simp] theorem erase_seqRight (p : Rule N M α) (q : Rule N M β) :
    (p *> q).erase = .seq p.erase q.erase := rfl

@[simp] theorem erase_orElse (p q : Rule N M α) : (p <|> q).erase = .either p.erase q.erase := rfl

@[simp] theorem erase_pure (a : α) : (pure a : Rule N M α).erase = .nothing := rfl

@[simp] theorem erase_optional (p : Rule N M α) : (optional p).erase = p.erase.optional := rfl

@[simp] theorem erase_lit (spelling : String) :
    (lit spelling : Rule N M Token).erase = .token (.fixed spelling) := rfl

end

theorem Derives.erase {rules : (n : N) → Rule N M (M n)} {p : Rule N M α} {ks : List Token} {a : α}
    (h : Derives rules p ks a) :
    Ebnf.Derives (fun n => (rules n).erase) p.erase (ks.map Token.terminal) := by
  induction h with
  | token k => exact .token _
  | nothing a => exact .nothing
  | seq _ _ iha ihb =>
    rw [List.map_append]
    exact iha.seq ihb
  | left _ ih => exact ih.left
  | right _ ih => exact ih.right
  | many phrases hne h ih =>
    clear hne h
    induction phrases with
    | nil => exact .none
    | cons x phrases ihs =>
      rw [List.flatMap_cons, List.map_append]
      exact .more (ih x (.head _)) (ihs fun y hy => ih y (.tail _ hy))
  | map f _ ih => exact ih
  | spanned _ _ ih => exact ih
  | ref _ ih => exact ih.rule

/-- Sequences of terminals whose tokens, whatever they are, form a phrase of a rule. -/
def spelt (rules : (n : N) → Rule N M (M n)) (p : Rule N M α) : Language Terminal :=
  {ts | ∀ ks : List Token, ks.map Token.terminal = ts → ∃ a, Derives rules p ks a}

theorem denote_erase_le (hT : T.Decides g) (p : Rule N M α) (hp : T.takesTokens p = true) :
    p.erase.denote (fun n => spelt g.rules (.ref n)) ≤ spelt g.rules p := by
  induction p with
  | token t =>
    rintro ts rfl ks hks
    obtain ⟨k, rfl, rfl⟩ := List.map_eq_singleton_iff.mp hks
    exact ⟨k, .token k⟩
  | nothing a =>
    rintro ts rfl ks hks
    obtain rfl := List.map_eq_nil_iff.mp hks
    exact ⟨a, .nothing a⟩
  | seq p q ihp ihq =>
    simp only [Lookahead.takesTokens, Bool.and_eq_true] at hp
    rintro _ ⟨ts, hts, us, hus, rfl⟩ ks hks
    obtain ⟨ls, ls', rfl, hls, hls'⟩ := List.map_eq_append_iff.mp hks
    obtain ⟨a, ha⟩ := ihp hp.1 hts ls hls
    obtain ⟨b, hb⟩ := ihq hp.2 hus ls' hls'
    exact ⟨_, ha.seq hb⟩
  | choice p q ihp ihq =>
    simp only [Lookahead.takesTokens, Bool.and_eq_true] at hp
    rintro ts (hts | hts) ks hks
    · obtain ⟨a, ha⟩ := ihp hp.1 hts ks hks
      exact ⟨a, ha.left⟩
    · obtain ⟨a, ha⟩ := ihq hp.2 hts ks hks
      exact ⟨a, ha.right⟩
  | many p ih =>
    simp only [Lookahead.takesTokens, Bool.and_eq_true, Bool.not_eq_true'] at hp
    rintro ts hts ks hks
    obtain ⟨parts, rfl, hparts⟩ := Language.mem_kstar.mp hts
    induction parts generalizing ks with
    | nil =>
      obtain rfl := List.map_eq_nil_iff.mp hks
      exact ⟨[], .manyNil⟩
    | cons part parts ihs =>
      obtain ⟨hpart, hparts⟩ := List.forall_mem_cons.mp hparts
      rw [List.flatten_cons] at hks
      obtain ⟨ls, ls', rfl, hls, hls'⟩ := List.map_eq_append_iff.mp hks
      obtain ⟨a, ha⟩ := ih hp.2 hpart ls hls
      obtain ⟨as, has⟩ := ihs ls' hparts (Language.join_mem_kstar hparts) hls'
      exact ⟨a :: as, ha.manyCons (ha.ne_nil hT hp.1) has⟩
  | map f p ih =>
    rintro ts hts ks hks
    obtain ⟨a, ha⟩ := ih hp hts ks hks
    exact ⟨f a, ha.map f⟩
  | spanned p ih =>
    simp only [Lookahead.takesTokens, Bool.and_eq_true, Bool.not_eq_true'] at hp
    rintro ts hts ks hks
    obtain ⟨a, ha⟩ := ih hp.2 hts ks hks
    exact ⟨_, ha.spanned (ha.ne_nil hT hp.1)⟩
  | ref n => exact le_refl _

theorem exists_derives_iff (hT : T.Sharp g) {p : Rule N M α} (hp : T.takesTokens p = true)
    {ks : List Token} : (∃ a, Derives g.rules p ks a) ↔
      Ebnf.Derives (fun n => (g.rules n).erase) p.erase (ks.map Token.terminal) := by
  constructor
  · rintro ⟨a, ha⟩
    exact ha.erase
  · intro h
    have hclosed : ∀ n, (g.rules n).erase.denote (fun n => spelt g.rules (.ref n)) ≤
        spelt g.rules (.ref n) := by
      intro n ts hts ks hks
      obtain ⟨m, hm⟩ := denote_erase_le hT.toDecides (g.rules n) (hT.takes n) hts ks hks
      exact ⟨m, hm.ref⟩
    exact denote_erase_le hT.toDecides p hp (Ebnf.language_le hclosed _ h) ks rfl

end Rule

end CanisterShell.Syntax
