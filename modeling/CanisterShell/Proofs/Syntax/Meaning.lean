import CanisterShell.Syntax.Rule

/-!
# What phrases mean

`Rule.Means` is what phrases of a rule mean when nothing is known of the choices that the next token
decides: of the tokens it is only known that they are of a certain kind, and of the phrases of a
nonterminal that their meanings are.  Whatever is read is among these (`Grammar.parse_means`), so a
property of all trees is proved rule by rule, without the reader.
-/

namespace CanisterShell.Syntax

namespace Rule

variable {N : Type} {M : N → Type}

/-- The meanings of the phrases of a rule whose tokens are in `T`, if `P n` holds of those of the
nonterminal `n`. -/
def Means (T : Token → Prop) (P : (n : N) → M n → Prop) : {α : Type} → Rule N M α → α → Prop
  | _, .token t, k => k.terminal = t ∧ T k
  | _, .nothing a, b => a = b
  | _, .seq p q, x => Means T P p x.1 ∧ Means T P q x.2
  | _, .choice p q, a => Means T P p a ∨ Means T P q a
  | _, .many p, as => ∀ a ∈ as, Means T P p a
  | _, .map f p, b => ∃ a, Means T P p a ∧ f a = b
  | _, .spanned p, x => Means T P p x.2
  | _, .ref n, m => P n m

section

variable {T : Token → Prop} {P : (n : N) → M n → Prop} {α β γ δ : Type}

theorem means_seqRight {p : Rule N M α} {q : Rule N M β} {b : β} :
    Means T P (p *> q) b ↔ (∃ a, Means T P p a) ∧ Means T P q b := by
  constructor
  · rintro ⟨⟨a, b⟩, ⟨ha, hb⟩, rfl⟩
    exact ⟨⟨a, ha⟩, hb⟩
  · rintro ⟨⟨a, ha⟩, hb⟩
    exact ⟨(a, b), ⟨ha, hb⟩, rfl⟩

theorem means_seqLeft {p : Rule N M α} {q : Rule N M β} {a : α} :
    Means T P (p <* q) a ↔ Means T P p a ∧ ∃ b, Means T P q b := by
  constructor
  · rintro ⟨⟨a, b⟩, ⟨ha, hb⟩, rfl⟩
    exact ⟨ha, b, hb⟩
  · rintro ⟨ha, b, hb⟩
    exact ⟨(a, b), ⟨ha, hb⟩, rfl⟩

theorem means_seq {p : Rule N M (α → β)} {q : Rule N M α} {b : β} :
    Means T P (p <*> q) b ↔ ∃ f a, Means T P p f ∧ Means T P q a ∧ f a = b := by
  constructor
  · rintro ⟨⟨f, a⟩, ⟨hf, ha⟩, rfl⟩
    exact ⟨f, a, hf, ha, rfl⟩
  · rintro ⟨f, a, hf, ha, rfl⟩
    exact ⟨(f, a), ⟨hf, ha⟩, rfl⟩

theorem means_map₂ {f : α → β → γ} {p : Rule N M α} {q : Rule N M β} {c : γ} :
    Means T P (f <$> p <*> q) c ↔ ∃ a b, Means T P p a ∧ Means T P q b ∧ f a b = c := by
  rw [means_seq]
  constructor
  · rintro ⟨_, b, ⟨a, ha, rfl⟩, hb, rfl⟩
    exact ⟨a, b, ha, hb, rfl⟩
  · rintro ⟨a, b, ha, hb, rfl⟩
    exact ⟨f a, b, ⟨a, ha, rfl⟩, hb, rfl⟩

theorem means_map₃ {f : α → β → γ → δ} {p : Rule N M α} {q : Rule N M β} {r : Rule N M γ} {d : δ} :
    Means T P (f <$> p <*> q <*> r) d
      ↔ ∃ a b c, Means T P p a ∧ Means T P q b ∧ Means T P r c ∧ f a b c = d := by
  rw [means_seq]
  constructor
  · rintro ⟨_, c, h, hc, rfl⟩
    obtain ⟨a, b, ha, hb, rfl⟩ := means_map₂.mp h
    exact ⟨a, b, c, ha, hb, hc, rfl⟩
  · rintro ⟨a, b, c, ha, hb, hc, rfl⟩
    exact ⟨f a b, c, means_map₂.mpr ⟨a, b, ha, hb, rfl⟩, hc, rfl⟩

theorem means_optional {p : Rule N M α} {x : Option α} :
    Means T P (optional p) x ↔ ∀ a, x = some a → Means T P p a := by
  cases x with
  | none => exact ⟨fun _ => nofun, fun _ => .inr rfl⟩
  | some a =>
    constructor
    · rintro (⟨b, hb, h⟩ | h) a' h'
      · rwa [← Option.some.inj h', ← Option.some.inj h]
      · cases h
    · intro h
      exact .inl ⟨a, h a rfl, rfl⟩

end

/-! ## What all meanings have in common -/

/-- All meanings of the phrases of a rule are in `R`. -/
def All (T : Token → Prop) (P : (n : N) → M n → Prop) {α : Type} (p : Rule N M α) (R : α → Prop) :
    Prop := ∀ a, Means T P p a → R a

namespace All

variable {T : Token → Prop} {P : (n : N) → M n → Prop} {α β γ δ : Type}

theorem pure {R : α → Prop} {a : α} (h : R a) : All T P (Pure.pure a) R := by
  rintro _ rfl
  exact h

theorem map {R : β → Prop} {f : α → β} {p : Rule N M α} (h : ∀ a, Means T P p a → R (f a)) :
    All T P (f <$> p) R := by
  rintro _ ⟨a, ha, rfl⟩
  exact h a ha

theorem map₂ {R : γ → Prop} {f : α → β → γ} {p : Rule N M α} {q : Rule N M β}
    (h : ∀ a b, Means T P p a → Means T P q b → R (f a b)) : All T P (f <$> p <*> q) R := by
  intro c hc
  obtain ⟨a, b, ha, hb, rfl⟩ := means_map₂.mp hc
  exact h a b ha hb

theorem map₃ {R : δ → Prop} {f : α → β → γ → δ} {p : Rule N M α} {q : Rule N M β}
    {r : Rule N M γ} (h : ∀ a b c, Means T P p a → Means T P q b → Means T P r c → R (f a b c)) :
    All T P (f <$> p <*> q <*> r) R := by
  intro d hd
  obtain ⟨a, b, c, ha, hb, hc, rfl⟩ := means_map₃.mp hd
  exact h a b c ha hb hc

theorem orElse {R : α → Prop} {p q : Rule N M α} (hp : All T P p R) (hq : All T P q R) :
    All T P (p <|> q) R := by
  rintro a (ha | ha)
  · exact hp a ha
  · exact hq a ha

theorem seqRight {R : β → Prop} {p : Rule N M α} {q : Rule N M β} (h : All T P q R) :
    All T P (p *> q) R := fun b hb => h b (means_seqRight.mp hb).2

theorem seqLeft {R : α → Prop} {p : Rule N M α} {q : Rule N M β} (h : All T P p R) :
    All T P (p <* q) R := fun a ha => h a (means_seqLeft.mp ha).1

end All

/-! ## Reading -/

/-- The tokens to come are in `T`. -/
def Cursor.Within (T : Token → Prop) (c : Cursor) : Prop := ∀ k ∈ c.rest, T k

/-- What reading comes to is in `Q`, and the tokens behind it are in `T`. -/
def Outcome.Within {α : Type} (T : Token → Prop) (Q : α → Prop) : Outcome α → Prop
  | .done a c => Q a ∧ c.Within T
  | .refused c => c.Within T

section

variable {T : Token → Prop} {P : (n : N) → M n → Prop} {α : Type}

theorem readMany_within {Q : α → Prop} {p : Cursor → Outcome α}
    (h : ∀ c, c.Within T → (p c).Within T Q) (fuel : Nat) {c : Cursor} (hc : c.Within T) :
    (readMany p fuel c).Within T fun as => ∀ a ∈ as, Q a := by
  induction fuel generalizing c with
  | zero => exact ⟨nofun, hc⟩
  | succ fuel ih =>
    have first := h c hc
    rw [readMany]
    generalize p c = r at first ⊢
    cases r with
    | refused c' =>
      show Outcome.Within _ _ (if _ then _ else _)
      split
      · exact ⟨nofun, first⟩
      · exact first
    | done a c' =>
      have others := ih first.2
      dsimp only
      generalize readMany p fuel c' = r at others ⊢
      cases r with
      | refused c'' => exact others
      | done as c'' => exact ⟨List.forall_mem_cons.mpr ⟨first.1, others.1⟩, others.2⟩

theorem read_within {look : (n : N) → Cursor → Outcome (M n)}
    (h : ∀ n c, c.Within T → (look n c).Within T (P n)) (p : Rule N M α) {c : Cursor}
    (hc : c.Within T) : (read look p c).Within T (p.Means T P) := by
  induction p generalizing c with
  | token t =>
    rw [read]
    split
    case h_1 => exact hc
    case h_2 k rest hk =>
      have hkc : ∀ k' ∈ k :: rest, T k' := by rwa [← hk]
      split
      case isTrue ht => exact ⟨⟨ht, hkc k List.mem_cons_self⟩, fun k' h' => hkc k' (.tail k h')⟩
      case isFalse => exact hc
  | nothing a => exact ⟨rfl, hc⟩
  | seq p q ihp ihq =>
    have hp := ihp hc
    rw [read]
    generalize read look p c = r at hp ⊢
    cases r with
    | refused c' => exact hp
    | done a c' =>
      have hq := ihq hp.2
      dsimp only
      generalize read look q c' = r at hq ⊢
      cases r with
      | refused c'' => exact hq
      | done b c'' => exact ⟨⟨hp.1, hq.1⟩, hq.2⟩
  | choice p q ihp ihq =>
    have hp := ihp hc
    rw [read]
    generalize read look p c = r at hp ⊢
    cases r with
    | done a c' => exact ⟨.inl hp.1, hp.2⟩
    | refused c' =>
      have hq := ihq hp
      dsimp only
      generalize read look q c' = r at hq ⊢
      split
      · cases r with
        | done b c'' => exact ⟨.inr hq.1, hq.2⟩
        | refused c'' => exact hq
      · exact hp
  | many p ih =>
    rw [read]
    exact readMany_within (fun _ => ih) _ hc
  | map f p ih =>
    have hp := ih hc
    rw [read]
    generalize read look p c = r at hp ⊢
    cases r with
    | done a c' => exact ⟨⟨a, hp.1, rfl⟩, hp.2⟩
    | refused c' => exact hp
  | spanned p ih =>
    have hp := ih hc
    rw [read]
    generalize read look p c = r at hp ⊢
    cases r with
    | done a c' => exact hp
    | refused c' => exact hp
  | ref n => exact h n c hc

theorem readAt_within {rules : (n : N) → Rule N M (M n)}
    (h : ∀ n m, (rules n).Means T P m → P n m) (fuel : Nat) (n : N) {c : Cursor}
    (hc : c.Within T) : (readAt rules fuel n c).Within T (P n) := by
  induction fuel generalizing n c with
  | zero => exact hc
  | succ fuel ih =>
    have hr := read_within (fun n _ => ih n) (rules n) hc
    rw [readAt]
    generalize read (readAt rules fuel) (rules n) c = r at hr ⊢
    cases r with
    | done m c' => exact ⟨h n m hr.1, hr.2⟩
    | refused c' => exact hr

end

end Rule

/-- What holds of the meanings of all rules, if it holds of their parts, holds of whatever is
read. -/
theorem Grammar.parse_means {N : Type} {M : N → Type} {g : Grammar N M} {start : N}
    {source : List Char} {m : M start} (h : g.parse start source = .ok m)
    {P : (n : N) → M n → Prop}
    (hP : ∀ n m, (g.rules n).Means (· ∈ (scan g.lexicon source).tokens) P m → P n m) :
    P start m := by
  have hr := Rule.readAt_within hP (((scan g.lexicon source).tokens.length + 1) * g.size) start
    (c := ⟨(scan g.lexicon source).tokens, none, []⟩) fun _ hk => hk
  rw [Grammar.parse] at h
  split at h
  case h_1 => cases h
  case h_2 a c hd =>
    rw [hd] at hr
    split at h
    case h_1 =>
      cases h
      exact hr.1
    case h_2 => cases h

end CanisterShell.Syntax
