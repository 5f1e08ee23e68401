import CanisterShell.Proofs.Syntax.Asking
import CanisterShell.Proofs.Syntax.Deciding

/-!
# Refusals are exact

Reading a text is refused at the first token with which what stands in front does not begin a phrase,
and what was asked for there is just what could have stood in its place
(`Grammar.reading_spec`).

That nothing else could have stood there is seen from two readings that have their first tokens in
common.  They go in step (`Rule.readAt_inStep`) until one of them takes a token that the other one
does not have, and the other one has then asked for it: so a token that goes on with some phrase, which
the reading of that phrase takes, is among those that the refused reading asked for.
-/

namespace CanisterShell.Syntax

variable {N : Type} {M : N → Type}

namespace Rule

variable {T : Lookahead N} {g : Grammar N M} {α β : Type}

/-- Where reading a phrase has come to. -/
def Outcome.place : Outcome α → Cursor
  | .done _ c => c
  | .refused c => c

/-- Whether a phrase was read. -/
def Outcome.isDone : Outcome α → Bool
  | .done _ _ => true
  | .refused _ => false

/-- A place is reached from another one: what was asked for is kept until a token is taken. -/
def Cursor.Reaches (c c' : Cursor) : Prop :=
  ∃ ks, c.rest = ks ++ c'.rest ∧ (ks = [] → c.asked ⊆ c'.asked)

theorem Outcome.Finds.asks {rules : (n : N) → Rule N M (M n)} {p : Rule N M α} {c : Cursor}
    {o : Outcome α} (h : o.Finds rules p c) :
    ∃ ks, Asks rules p ks c o.place ∧ Begins rules p ks := by
  cases o with
  | done a c' =>
    obtain ⟨ks, hasks, ha⟩ := h
    exact ⟨ks, hasks, ha.begins⟩
  | refused c' => exact h

theorem Outcome.Finds.reaches {rules : (n : N) → Rule N M (M n)} {p : Rule N M α} {c : Cursor}
    {o : Outcome α} (h : o.Finds rules p c) : c.Reaches o.place := by
  obtain ⟨ks, hasks, -⟩ := h.asks
  exact ⟨ks, hasks.rest, hasks.kept⟩

theorem Cursor.Reaches.refl (c : Cursor) : c.Reaches c := ⟨[], rfl, fun _ => List.Subset.refl _⟩

/-! ## Two readings in step -/

/-- Two readings, in front of different tokens `r₁` and `r₂`: if the first one comes to an end without
having taken any of `r₁`, then the second one has done the same, or else it has taken the first of
`r₂`, for which the first one has then asked. -/
def InStep (r₁ r₂ : List Token) (o₁ o₂ : Outcome α) : Prop :=
  ∀ ms, o₁.place.rest = ms ++ r₁ →
    (o₂.place.rest = ms ++ r₂ ∧ o₂.place.asked = o₁.place.asked ∧ o₂.isDone = o₁.isDone) ∨
    (ms = [] ∧ ∃ k ∈ r₂.head?, k.terminal ∈ o₁.place.asked)

/-- Two places in front of different tokens, at which the same has been asked for. -/
def Abreast (r₁ r₂ : List Token) (c₁ c₂ : Cursor) : Prop :=
  (∃ ks, c₁.rest = ks ++ r₁ ∧ c₂.rest = ks ++ r₂) ∧ c₂.asked = c₁.asked

variable {r₁ r₂ : List Token} {c₁ c₂ : Cursor} {o₁ o₂ : Outcome α}

theorem Abreast.inStep (h : Abreast r₁ r₂ o₁.place o₂.place) (hdone : o₂.isDone = o₁.isDone) :
    InStep r₁ r₂ o₁ o₂ := by
  intro ms hms
  obtain ⟨⟨ks, hks₁, hks₂⟩, hasked⟩ := h
  obtain rfl : ks = ms := List.append_cancel_right (hks₁.symm.trans hms)
  exact .inl ⟨hks₂, hasked, hdone⟩

theorem Abreast.length_iff {c₁' c₂' : Cursor} (h : Abreast r₁ r₂ c₁ c₂)
    (h' : Abreast r₁ r₂ c₁' c₂') (taken : Nat) :
    c₁.rest.length = taken + c₁'.rest.length ↔ c₂.rest.length = taken + c₂'.rest.length := by
  obtain ⟨⟨ks, hks₁, hks₂⟩, -⟩ := h
  obtain ⟨⟨ks', hks₁', hks₂'⟩, -⟩ := h'
  rw [hks₁, hks₂, hks₁', hks₂']
  simp only [List.length_append]
  omega

theorem Abreast.stays_iff {c₁' c₂' : Cursor} (h : Abreast r₁ r₂ c₁ c₂) (h' : Abreast r₁ r₂ c₁' c₂') :
    c₁'.rest.length = c₁.rest.length ↔ c₂'.rest.length = c₂.rest.length := by
  have := h.length_iff h' 0
  rw [Nat.zero_add, Nat.zero_add] at this
  rw [eq_comm, this, eq_comm]

/-- Readings that go on from places abreast of each other are in step if those before them are. -/
theorem InStep.go_on {o₁' o₂' : Outcome β} (h : InStep r₁ r₂ o₁ o₂)
    (hreach : o₁.place.Reaches o₁'.place)
    (hnext : Abreast r₁ r₂ o₁.place o₂.place → o₂.isDone = o₁.isDone → InStep r₁ r₂ o₁' o₂') :
    InStep r₁ r₂ o₁' o₂' := by
  intro ms hms
  obtain ⟨ks, hrest, hkept⟩ := hreach
  rw [hms, ← List.append_assoc] at hrest
  rcases h (ks ++ ms) hrest with ⟨hrest₂, hasked, hdone⟩ | ⟨hnil, k, hk, hmem⟩
  · exact hnext ⟨⟨ks ++ ms, hrest, hrest₂⟩, hasked⟩ hdone ms hms
  · obtain ⟨rfl, rfl⟩ := List.append_eq_nil_iff.mp hnil
    exact .inr ⟨rfl, k, hk, hkept rfl hmem⟩

/-- Two readings end at the same place, and both or none of them with a phrase. -/
def Outcome.EndsAs (o' : Outcome β) (o : Outcome α) : Prop :=
  o'.place = o.place ∧ o'.isDone = o.isDone

theorem InStep.congr {o₁' o₂' : Outcome β} (h : InStep r₁ r₂ o₁ o₂) (h₁ : o₁'.EndsAs o₁)
    (h₂ : o₂'.EndsAs o₂) : InStep r₁ r₂ o₁' o₂' := by
  unfold InStep
  rw [h₁.1, h₁.2, h₂.1, h₂.2]
  exact h

theorem read_token_done (look : (n : N) → Cursor → Outcome (M n)) {c : Cursor} {k : Token}
    {rest : List Token} (h : c.rest = k :: rest) :
    read look (.token k.terminal) c = .done k ⟨rest, some k, []⟩ := by
  rw [read, h]
  exact if_pos rfl

theorem read_token_refused (look : (n : N) → Cursor → Outcome (M n)) {c : Cursor} {t : Terminal}
    (h : ∀ k ∈ c.rest.head?, k.terminal ≠ t) :
    read look (.token t) c = .refused { c with asked := t :: c.asked } := by
  rw [read]
  split
  · rfl
  · next k rest hrest =>
    rw [hrest] at h
    exact if_neg (h k rfl)

theorem token_inStep (look₁ look₂ : (n : N) → Cursor → Outcome (M n)) (t : Terminal)
    (h : Abreast r₁ r₂ c₁ c₂) :
    InStep r₁ r₂ (read look₁ (.token t) c₁) (read look₂ (.token t) c₂) := by
  obtain ⟨⟨ks, hks₁, hks₂⟩, hasked⟩ := h
  have hasked' : t :: c₂.asked = t :: c₁.asked := congrArg (t :: ·) hasked
  cases ks with
  | cons k ks =>
    -- both stand in front of the same token
    by_cases hk : k.terminal = t
    · subst hk
      rw [read_token_done look₁ hks₁, read_token_done look₂ hks₂]
      exact Abreast.inStep ⟨⟨ks, rfl, rfl⟩, rfl⟩ rfl
    · rw [read_token_refused look₁ (by simpa [hks₁] using hk),
        read_token_refused look₂ (by simpa [hks₂] using hk)]
      exact Abreast.inStep ⟨⟨k :: ks, hks₁, hks₂⟩, hasked'⟩ rfl
  | nil =>
    rw [List.nil_append] at hks₁ hks₂
    by_cases h₁ : ∀ k ∈ r₁.head?, k.terminal ≠ t
    · rw [read_token_refused look₁ (by rwa [hks₁])]
      by_cases h₂ : ∀ k ∈ r₂.head?, k.terminal ≠ t
      · rw [read_token_refused look₂ (by rwa [hks₂])]
        exact Abreast.inStep ⟨⟨[], hks₁, hks₂⟩, hasked'⟩ rfl
      · push Not at h₂
        obtain ⟨k, hk, rfl⟩ := h₂
        intro ms hms
        exact .inr ⟨List.append_left_eq_self.mp (hms.symm.trans hks₁), k, hk, List.mem_cons_self⟩
    · push Not at h₁
      obtain ⟨k, hk, rfl⟩ := h₁
      obtain ⟨rest, rfl⟩ := List.head?_eq_some_iff.mp hk
      rw [read_token_done look₁ hks₁]
      intro ms hms
      have hlen := congrArg List.length hms
      simp only [Outcome.place, List.length_append, List.length_cons] at hlen
      omega

/-! ## Phrases -/

theorem readMany_inStep {look₁ look₂ : Cursor → Outcome α} {most₁ most₂ : Nat}
    (h : ∀ c₁ c₂, Abreast r₁ r₂ c₁ c₂ → c₁.rest.length ≤ most₁ → c₂.rest.length ≤ most₂ →
      InStep r₁ r₂ (look₁ c₁) (look₂ c₂))
    (hreach : ∀ fuel (c : Cursor), c.Reaches (readMany look₁ fuel c).place)
    (htakes : ∀ c a c', look₁ c = .done a c' →
      ∃ taken, 0 < taken ∧ c.rest.length = taken + c'.rest.length)
    {fuel₁ fuel₂ : Nat} (hc : Abreast r₁ r₂ c₁ c₂) (hfuel₁ : c₁.rest.length < fuel₁)
    (hfuel₂ : c₂.rest.length < fuel₂) (hmost₁ : c₁.rest.length ≤ most₁)
    (hmost₂ : c₂.rest.length ≤ most₂) :
    InStep r₁ r₂ (readMany look₁ fuel₁ c₁) (readMany look₂ fuel₂ c₂) := by
  induction fuel₁ generalizing fuel₂ c₁ c₂ with
  | zero => exact absurd hfuel₁ (Nat.not_lt_zero _)
  | succ fuel₁ ih =>
    obtain ⟨fuel₂, rfl⟩ : ∃ n, fuel₂ = n + 1 := ⟨fuel₂ - 1, by omega⟩
    have hstep := h c₁ c₂ hc hmost₁ hmost₂
    have htaken := htakes c₁
    rw [readMany, readMany]
    generalize look₁ c₁ = o₁ at hstep htaken ⊢
    generalize look₂ c₂ = o₂ at hstep ⊢
    refine hstep.go_on ?_ fun habreast hdone => ?_
    · cases o₁ with
      | refused c₁' =>
        dsimp only
        split
        · exact .refl _
        · exact .refl _
      | done a c₁' =>
        have hmore := hreach fuel₁ c₁'
        dsimp only
        generalize readMany look₁ fuel₁ c₁' = o₁ at hmore ⊢
        cases o₁ with
        | refused c₁'' => exact hmore
        | done as c₁'' => exact hmore
    · cases o₁ with
      | refused c₁' =>
        cases o₂ with
        | done a₂ c₂' => cases hdone
        | refused c₂' =>
          have hlen := hc.stays_iff habreast
          dsimp only [Outcome.place] at hlen ⊢
          by_cases hstay : c₁'.rest.length = c₁.rest.length
          · rw [if_pos hstay, if_pos (hlen.mp hstay)]
            exact Abreast.inStep habreast rfl
          · rw [if_neg hstay, if_neg fun h => hstay (hlen.mpr h)]
            exact Abreast.inStep habreast rfl
      | done a c₁' =>
        cases o₂ with
        | refused c₂' => cases hdone
        | done a₂ c₂' =>
          obtain ⟨taken, hpos, hlen₁⟩ := htaken a c₁' rfl
          have hlen₂ := (hc.length_iff habreast taken).mp hlen₁
          simp only [Outcome.place] at hlen₂
          have hmore : InStep r₁ r₂ (readMany look₁ fuel₁ c₁') (readMany look₂ fuel₂ c₂') :=
            ih habreast (by omega) (by omega) (by omega) (by omega)
          dsimp only
          generalize readMany look₁ fuel₁ c₁' = o₁ at hmore ⊢
          generalize readMany look₂ fuel₂ c₂' = o₂ at hmore ⊢
          refine hmore.congr ?_ ?_
          · cases o₁ <;> exact ⟨rfl, rfl⟩
          · cases o₂ <;> exact ⟨rfl, rfl⟩

section

variable {look₁ look₂ : (n : N) → Cursor → Outcome (M n)}

theorem seq_inStep {p : Rule N M α} {q : Rule N M β}
    (hp : InStep r₁ r₂ (read look₁ p c₁) (read look₂ p c₂))
    (hreach : ∀ c : Cursor, c.Reaches (read look₁ q c).place)
    (hq : ∀ a₁ a₂ c₁' c₂', read look₁ p c₁ = .done a₁ c₁' → read look₂ p c₂ = .done a₂ c₂' →
      Abreast r₁ r₂ c₁' c₂' → InStep r₁ r₂ (read look₁ q c₁') (read look₂ q c₂')) :
    InStep r₁ r₂ (read look₁ (.seq p q) c₁) (read look₂ (.seq p q) c₂) := by
  rw [read, read]
  generalize read look₁ p c₁ = o₁ at hp hq ⊢
  generalize read look₂ p c₂ = o₂ at hp hq ⊢
  refine hp.go_on ?_ fun habreast hdone => ?_
  · cases o₁ with
    | refused c₁' => exact .refl _
    | done a c₁' =>
      have hreach := hreach c₁'
      dsimp only [Outcome.place] at hreach ⊢
      generalize read look₁ q c₁' = o₁ at hreach ⊢
      cases o₁ with
      | refused c₁'' => exact hreach
      | done b c₁'' => exact hreach
  · cases o₁ with
    | refused c₁' =>
      cases o₂ with
      | done a₂ c₂' => cases hdone
      | refused c₂' => exact Abreast.inStep habreast rfl
    | done a c₁' =>
      cases o₂ with
      | refused c₂' => cases hdone
      | done a₂ c₂' =>
        have hsecond := hq a a₂ c₁' c₂' rfl rfl habreast
        dsimp only [Outcome.place] at hsecond ⊢
        generalize read look₁ q c₁' = o₁ at hsecond ⊢
        generalize read look₂ q c₂' = o₂ at hsecond ⊢
        refine hsecond.congr ?_ ?_
        · cases o₁ <;> exact ⟨rfl, rfl⟩
        · cases o₂ <;> exact ⟨rfl, rfl⟩

/-- Where the left sides are refused without a token, the right sides are read. -/
theorem choice_inStep {p q : Rule N M α} (hc : Abreast r₁ r₂ c₁ c₂)
    (hp : InStep r₁ r₂ (read look₁ p c₁) (read look₂ p c₂))
    (hreach : ∀ c : Cursor, c.Reaches (read look₁ q c).place)
    (hq : ∀ c₁' c₂', Abreast r₁ r₂ c₁' c₂' → c₁'.rest.length = c₁.rest.length →
      c₂'.rest.length = c₂.rest.length → InStep r₁ r₂ (read look₁ q c₁') (read look₂ q c₂')) :
    InStep r₁ r₂ (read look₁ (.choice p q) c₁) (read look₂ (.choice p q) c₂) := by
  rw [read, read]
  generalize read look₁ p c₁ = o₁ at hp ⊢
  generalize read look₂ p c₂ = o₂ at hp ⊢
  refine hp.go_on ?_ fun habreast hdone => ?_
  · cases o₁ with
    | done a c₁' => exact .refl _
    | refused c₁' =>
      show Cursor.Reaches c₁' (Outcome.place (if _ then _ else _))
      split
      · exact hreach c₁'
      · exact .refl _
  · cases o₁ with
    | done a c₁' =>
      cases o₂ with
      | refused c₂' => cases hdone
      | done a₂ c₂' => exact Abreast.inStep habreast rfl
    | refused c₁' =>
      cases o₂ with
      | done a₂ c₂' => cases hdone
      | refused c₂' =>
        have hlen := hc.stays_iff habreast
        dsimp only [Outcome.place] at habreast hlen ⊢
        by_cases hstay : c₁'.rest.length = c₁.rest.length
        · rw [if_pos hstay, if_pos (hlen.mp hstay)]
          exact hq c₁' c₂' habreast hstay (hlen.mp hstay)
        · rw [if_neg hstay, if_neg fun h => hstay (hlen.mpr h)]
          exact Abreast.inStep habreast rfl

theorem map_endsAs (f : α → β) (p : Rule N M α) (c : Cursor) :
    (read look₁ (.map f p) c).EndsAs (read look₁ p c) := by
  rw [read]
  cases read look₁ p c <;> exact ⟨rfl, rfl⟩

theorem spanned_endsAs (p : Rule N M α) (c : Cursor) :
    (read look₁ (.spanned p) c).EndsAs (read look₁ p c) := by
  rw [read]
  cases read look₁ p c <;> exact ⟨rfl, rfl⟩

end

theorem Enough.behind (hT : T.Sharp g) {p : Rule N M α} {q : Rule N M β} {fuel : Nat}
    {look : (n : N) → Cursor → Outcome (M n)} {c c' : Cursor} {a : α}
    (h : Enough T g (.seq p q) fuel c.rest.length) (hp : T.takesTokens p = true)
    (hfinds : ∀ n c, (look n c).Finds g.rules (.ref n) c) (hread : read look p c = .done a c') :
    Enough T g q fuel c'.rest.length := by
  have hfound := read_finds hT hfinds p hp c
  rw [hread] at hfound
  obtain ⟨ks, hasks, ha⟩ := hfound
  rw [hasks.rest, List.length_append] at h
  exact h.second hT.toDecides fun hks => (ha.head hT.toDecides).1 (List.length_eq_zero_iff.mp hks)

theorem read_inStep (hT : T.Sharp g) {fuel₁ fuel₂ : Nat}
    {look₁ look₂ : (n : N) → Cursor → Outcome (M n)}
    (hfinds₁ : ∀ n c, (look₁ n c).Finds g.rules (.ref n) c)
    (hfinds₂ : ∀ n c, (look₂ n c).Finds g.rules (.ref n) c)
    (h : ∀ n c₁ c₂, Abreast r₁ r₂ c₁ c₂ →
      Enough T g (.ref n : Rule N M _) fuel₁ c₁.rest.length →
      Enough T g (.ref n : Rule N M _) fuel₂ c₂.rest.length →
      InStep r₁ r₂ (look₁ n c₁) (look₂ n c₂))
    (p : Rule N M α) (hp : T.takesTokens p = true) (hc : Abreast r₁ r₂ c₁ c₂)
    (henough₁ : Enough T g p fuel₁ c₁.rest.length) (henough₂ : Enough T g p fuel₂ c₂.rest.length) :
    InStep r₁ r₂ (read look₁ p c₁) (read look₂ p c₂) := by
  induction p generalizing c₁ c₂ with
  | token t => exact token_inStep look₁ look₂ t hc
  | nothing a => exact Abreast.inStep hc rfl
  | seq p q ihp ihq =>
    simp only [Lookahead.takesTokens, Bool.and_eq_true] at hp
    have hheight : T.heightOf p ≤ T.heightOf (.seq p q) := Nat.le_max_left _ _
    refine seq_inStep (ihp hp.1 hc (henough₁.of_le (Nat.le_refl _) hheight)
      (henough₂.of_le (Nat.le_refl _) hheight)) (fun c => (read_finds hT hfinds₁ q hp.2 c).reaches)
      fun a₁ a₂ c₁' c₂' hread₁ hread₂ habreast => ?_
    exact ihq hp.2 habreast (henough₁.behind hT hp.1 hfinds₁ hread₁)
      (henough₂.behind hT hp.1 hfinds₂ hread₂)
  | choice p q ihp ihq =>
    simp only [Lookahead.takesTokens, Bool.and_eq_true] at hp
    have hheight : T.heightOf p ≤ T.heightOf (.choice p q) := Nat.le_max_left _ _
    have hheight' : T.heightOf q ≤ T.heightOf (.choice p q) := Nat.le_max_right _ _
    refine choice_inStep hc (ihp hp.1 hc (henough₁.of_le (Nat.le_refl _) hheight)
      (henough₂.of_le (Nat.le_refl _) hheight)) (fun c => (read_finds hT hfinds₁ q hp.2 c).reaches)
      fun c₁' c₂' habreast hlen₁ hlen₂ => ?_
    exact ihq hp.2 habreast (henough₁.of_le hlen₁.le hheight') (henough₂.of_le hlen₂.le hheight')
  | many p ih =>
    simp only [Lookahead.takesTokens, Bool.and_eq_true, Bool.not_eq_true'] at hp
    have hfound := read_finds hT hfinds₁ p hp.2
    rw [read, read]
    refine readMany_inStep (fun c₁' c₂' hc' hlen₁ hlen₂ => ?_) (fun fuel c => ?_)
      (fun c a c' hread => ?_) hc (Nat.lt_succ_self _) (Nat.lt_succ_self _) (Nat.le_refl _)
      (Nat.le_refl _)
    · exact ih hp.2 hc' (henough₁.of_le hlen₁ (Nat.le_refl _))
        (henough₂.of_le hlen₂ (Nat.le_refl _))
    · exact (readMany_finds hT.toDecides hp.1 hfound fuel c).reaches
    · have := hfound c
      rw [hread] at this
      obtain ⟨ks, hasks, ha⟩ := this
      refine ⟨ks.length, List.length_pos_iff.mpr (ha.ne_nil hT.toDecides hp.1), ?_⟩
      rw [hasks.rest, List.length_append]
  | map f p ih => exact (ih hp hc henough₁ henough₂).congr (map_endsAs f p c₁) (map_endsAs f p c₂)
  | spanned p ih =>
    simp only [Lookahead.takesTokens, Bool.and_eq_true] at hp
    exact (ih hp.2 hc henough₁ henough₂).congr (spanned_endsAs p c₁) (spanned_endsAs p c₂)
  | ref n => exact h n c₁ c₂ hc henough₁ henough₂

/-- Readings of a phrase of a nonterminal are in step, each with as much fuel as suffices. -/
theorem readAt_inStep (hT : T.Sharp g) {fuel₁ fuel₂ : Nat} {n : N} (hc : Abreast r₁ r₂ c₁ c₂)
    (henough₁ : Enough T g (.ref n : Rule N M _) fuel₁ c₁.rest.length)
    (henough₂ : Enough T g (.ref n : Rule N M _) fuel₂ c₂.rest.length) :
    InStep r₁ r₂ (readAt g.rules fuel₁ n c₁) (readAt g.rules fuel₂ n c₂) := by
  induction fuel₁ generalizing fuel₂ n c₁ c₂ with
  | zero =>
    obtain ⟨m, hm, -⟩ := henough₁.inside hT.toDecides
    cases hm
  | succ fuel₁ ih =>
    obtain ⟨_, ⟨⟩, hinside₁⟩ := henough₁.inside hT.toDecides
    obtain ⟨fuel₂, rfl, hinside₂⟩ := henough₂.inside hT.toDecides
    rw [readAt, readAt]
    exact read_inStep hT (readAt_finds hT fuel₁) (readAt_finds hT fuel₂) (fun n c₁ c₂ => ih)
      (g.rules n) (hT.takes n) hc hinside₁ hinside₂

end Rule

/-! ## Sequences of tokens -/

namespace Grammar

variable {T : Lookahead N} {g : Grammar N M} {start : N}

/-- Where reading has come to, it has asked for all that goes on with a phrase there. -/
theorem mem_asked_of_begins (hT : T.Sharp g) {ks rest : List Token} {k : Token}
    (hrest : (g.reading start (ks ++ rest)).place.rest = rest)
    (h : Rule.Begins g.rules (.ref start) (ks ++ [k])) :
    k.terminal ∈ (g.reading start (ks ++ rest)).place.asked := by
  obtain ⟨ls, m, hm⟩ := h
  rw [List.append_assoc, List.singleton_append] at hm
  obtain ⟨c, hread, hc⟩ := g.reading_of_derives hT.toDecides hm
  -- the reading of a phrase that goes on with `k`, beside that of the tokens
  have hstep : Rule.InStep rest (k :: ls) (g.reading start (ks ++ rest))
      (g.reading start (ks ++ k :: ls)) :=
    Rule.readAt_inStep hT ⟨⟨ks, rfl, rfl⟩, rfl⟩ (enough_start hT.toDecides _ _)
      (enough_start hT.toDecides _ _)
  rcases hstep [] hrest with ⟨hrest₂, -, -⟩ | ⟨-, k', hk', hmem⟩
  · rw [hread, Rule.Outcome.place, hc] at hrest₂
    cases hrest₂
  · cases hk'
    exact hmem

/-- Where reading comes to: what was taken begins a phrase, what was asked for are the classes of the
tokens that go on with it, and the next token is of none of them. -/
theorem reading_spec (hT : T.Sharp g) (start : N) (tokens : List Token) :
    ∃ ks, tokens = ks ++ (g.reading start tokens).place.rest ∧
      Rule.Begins g.rules (.ref start) ks ∧
      (∀ t, t ∈ (g.reading start tokens).place.asked ↔
        ∃ k : Token, k.terminal = t ∧ Rule.Begins g.rules (.ref start) (ks ++ [k])) ∧
      ∀ k ∈ (g.reading start tokens).place.rest.head?,
        ¬Rule.Begins g.rules (.ref start) (ks ++ [k]) := by
  have hfinds := Rule.readAt_finds hT ((tokens.length + 1) * g.size) start ⟨tokens, none, []⟩
  obtain ⟨ks, hasks, hbegins⟩ := hfinds.asks
  have hasks : Rule.Asks g.rules (.ref start) ks ⟨tokens, none, []⟩ (g.reading start tokens).place :=
    hasks
  have htokens : tokens = ks ++ (g.reading start tokens).place.rest := hasks.rest
  have hcomplete : ∀ k : Token, Rule.Begins g.rules (.ref start) (ks ++ [k]) →
      k.terminal ∈ (g.reading start tokens).place.asked := by
    intro k hk
    have hplace : (g.reading start (ks ++ (g.reading start tokens).place.rest)).place.rest =
        (g.reading start tokens).place.rest := by rw [← htokens]
    have hmem := g.mem_asked_of_begins hT hplace hk
    rwa [← htokens] at hmem
  refine ⟨ks, htokens, hbegins, fun t => ⟨fun ht => ?_, ?_⟩, fun k hk hmore => ?_⟩
  · rcases hasks.begins t ht with ⟨-, hnil⟩ | hk
    · cases hnil
    · exact hk
  · rintro ⟨k, rfl, hk⟩
    exact hcomplete k hk
  · exact hasks.vain (fun _ _ => List.not_mem_nil) k hk (hcomplete k hmore)

variable {source : List Char} {tokens : List Token}

theorem parseTokens_ok_iff (hT : T.Sharp g) :
    (∃ m, g.parseTokens start source ⟨tokens, .complete⟩ = .ok m) ↔
      ∃ m, Rule.Derives g.rules (.ref start) tokens m := by
  constructor
  · rintro ⟨m, hm⟩
    have hfinds := Rule.readAt_finds hT ((tokens.length + 1) * g.size) start ⟨tokens, none, []⟩
    rw [parseTokens, reading] at hm
    generalize Rule.readAt g.rules _ start ⟨tokens, none, []⟩ = o at hfinds hm
    cases o with
    | refused c => cases hm
    | done a c =>
      obtain ⟨ks, hasks, ha⟩ := hfinds
      have hrest := hasks.rest
      dsimp only at hm hrest
      split at hm
      · next hnil _ =>
        rw [hnil, List.append_nil] at hrest
        exact ⟨a, hrest ▸ ha⟩
      · cases hm
  · rintro ⟨m, hm⟩
    obtain ⟨c, hread, hc⟩ := g.reading_of_derives hT.toDecides hm
    refine ⟨m, ?_⟩
    rw [parseTokens, hread]
    dsimp only
    rw [hc]

theorem parseTokens_error {cut : Tokens} {e : ParseError}
    (h : g.parseTokens start source cut = .error e) :
    e = cut.refusal g.lexicon source (g.reading start cut.tokens).place := by
  rw [parseTokens] at h
  generalize g.reading start cut.tokens = o at h ⊢
  cases o with
  | refused c =>
    cases h
    rfl
  | done a c =>
    dsimp only at h
    split at h
    · cases h
    · cases h
      rfl

end Grammar

end CanisterShell.Syntax
