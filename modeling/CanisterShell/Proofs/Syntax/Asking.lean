import CanisterShell.Proofs.Syntax.Deciding

/-!
# What reading asks for

Reading finds phrases (`Rule.readAt_finds`): what it takes as a phrase derives, and where it refuses,
what it took begins a phrase.  The classes of tokens that it asks for are such as go on: behind what
was taken, each of them begins a phrase with one more token, and the token that is next is of none
of them.  A grammar has to be sharp for this: every nonterminal has a phrase, and what is repeated or
given a span is never empty.
-/

namespace CanisterShell.Syntax

variable {N : Type} {M : N → Type}

/-! ## Sharp grammars -/

/-- Whether all that is repeated or given a span takes tokens. -/
def Lookahead.takesTokens (T : Lookahead N) : {α : Type} → Rule N M α → Bool
  | _, .token _ => true
  | _, .nothing _ => true
  | _, .seq p q => takesTokens T p && takesTokens T q
  | _, .choice p q => takesTokens T p && takesTokens T q
  | _, .many p => !T.emptyOf p && takesTokens T p
  | _, .map _ p => takesTokens T p
  | _, .spanned p => !T.emptyOf p && takesTokens T p
  | _, .ref _ => true

/-- The next token decides every choice, what is repeated or given a span is not empty, and every
nonterminal has a phrase. -/
structure Lookahead.Sharp (T : Lookahead N) (g : Grammar N M) : Prop extends T.Decides g where
  takes (n : N) : T.takesTokens (g.rules n) = true
  productive (n : N) : ∃ ks m, Rule.Derives g.rules (g.rules n) ks m

namespace Rule

/-- Whether a rule has a phrase, if the nonterminals do that are known to. -/
def yields (known : N → Bool) : {α : Type} → Rule N M α → Bool
  | _, .token _ => true
  | _, .nothing _ => true
  | _, .seq p q => yields known p && yields known q
  | _, .choice p q => yields known p || yields known q
  | _, .many _ => true
  | _, .map _ p => yields known p
  | _, .spanned p => yields known p
  | _, .ref n => known n

/-- The nonterminals that are seen to have a phrase in which fewer than `depth` of them are nested. -/
def productiveAt (rules : (n : N) → Rule N M (M n)) : (depth : Nat) → N → Bool
  | 0, _ => false
  | depth + 1, n => yields (productiveAt rules depth) (rules n)

section

variable {T : Lookahead N} {g : Grammar N M} {α β : Type} {p : Rule N M α} {q : Rule N M β}

theorem Derives.ne_nil (hT : T.Decides g) {ks : List Token} {a : α}
    (h : Derives g.rules p ks a) (hp : T.emptyOf p = false) : ks ≠ [] := by
  intro hks
  rw [(h.head hT).1 hks] at hp
  exact Bool.noConfusion hp

theorem exists_derives_of_yields (hT : T.Decides g) {known : N → Bool}
    (hknown : ∀ n, known n = true → ∃ ks m, Derives g.rules (g.rules n) ks m)
    (p : Rule N M α) (hp : T.takesTokens p = true) (h : yields known p = true) :
    ∃ ks a, Derives g.rules p ks a := by
  induction p with
  | token t => exact ⟨[⟨t, "", default⟩], _, .token ⟨t, "", default⟩⟩
  | nothing a => exact ⟨[], a, .nothing a⟩
  | seq p q ihp ihq =>
    simp only [Lookahead.takesTokens, yields, Bool.and_eq_true] at hp h
    obtain ⟨ks, a, ha⟩ := ihp hp.1 h.1
    obtain ⟨ls, b, hb⟩ := ihq hp.2 h.2
    exact ⟨_, _, ha.seq hb⟩
  | choice p q ihp ihq =>
    simp only [Lookahead.takesTokens, yields, Bool.and_eq_true, Bool.or_eq_true] at hp h
    rcases h with h | h
    · obtain ⟨ks, a, ha⟩ := ihp hp.1 h
      exact ⟨ks, a, ha.left⟩
    · obtain ⟨ks, a, ha⟩ := ihq hp.2 h
      exact ⟨ks, a, ha.right⟩
  | many p ih => exact ⟨[], [], .manyNil⟩
  | map f p ih =>
    obtain ⟨ks, a, ha⟩ := ih hp h
    exact ⟨ks, _, ha.map f⟩
  | spanned p ih =>
    simp only [Lookahead.takesTokens, Bool.and_eq_true, Bool.not_eq_true'] at hp
    obtain ⟨ks, a, ha⟩ := ih hp.2 h
    exact ⟨ks, _, ha.spanned (ha.ne_nil hT hp.1)⟩
  | ref n =>
    obtain ⟨ks, m, hm⟩ := hknown n h
    exact ⟨ks, m, hm.ref⟩

theorem exists_derives_of_productiveAt (hT : T.Decides g)
    (htakes : ∀ n, T.takesTokens (g.rules n) = true) {depth : Nat} {n : N}
    (h : productiveAt g.rules depth n = true) : ∃ ks m, Derives g.rules (g.rules n) ks m := by
  induction depth generalizing n with
  | zero => cases h
  | succ depth ih => exact exists_derives_of_yields hT (fun _ => ih) (g.rules n) (htakes n) h

theorem exists_derives (hT : T.Sharp g) (p : Rule N M α) (hp : T.takesTokens p = true) :
    ∃ ks a, Derives g.rules p ks a := by
  have hknown : ∀ n : N, (fun _ => true : N → Bool) n = true →
      ∃ ks m, Derives g.rules (g.rules n) ks m := fun n _ => hT.productive n
  refine exists_derives_of_yields hT.toDecides hknown p hp ?_
  clear hp
  induction p with
  | seq p q ihp ihq => simp only [yields, ihp, ihq, Bool.and_self]
  | choice p q ihp ihq => simp only [yields, ihp, Bool.true_or]
  | map f p ih => exact ih
  | spanned p ih => exact ih
  | _ => rfl

end

/-! ## What begins a phrase -/

section

variable {rules : (n : N) → Rule N M (M n)} {α β : Type} {p : Rule N M α} {q : Rule N M β}
  {ks ls : List Token}

/-- Tokens with which a phrase of a rule begins. -/
def Begins (rules : (n : N) → Rule N M (M n)) (p : Rule N M α) (ks : List Token) : Prop :=
  ∃ ls a, Derives rules p (ks ++ ls) a

theorem Derives.begins {a : α} (h : Derives rules p ks a) : Begins rules p ks :=
  ⟨[], a, by rwa [List.append_nil]⟩

theorem Begins.seqLeft (h : Begins rules p ks) (hq : ∃ ls b, Derives rules q ls b) :
    Begins rules (.seq p q) ks := by
  obtain ⟨ls, a, ha⟩ := h
  obtain ⟨ms, b, hb⟩ := hq
  exact ⟨ls ++ ms, _, by simpa only [List.append_assoc] using ha.seq hb⟩

theorem Begins.seqRight {a : α} (ha : Derives rules p ks a) (h : Begins rules q ls) :
    Begins rules (.seq p q) (ks ++ ls) := by
  obtain ⟨ms, b, hb⟩ := h
  exact ⟨ms, _, by simpa only [List.append_assoc] using ha.seq hb⟩

theorem Derives.manyCons {a : α} {as : List α} (hks : ks ≠ []) (ha : Derives rules p ks a)
    (has : Derives rules (.many p) ls as) : Derives rules (.many p) (ks ++ ls) (a :: as) := by
  obtain ⟨phrases, rfl, rfl, hphrases⟩ := has.consists
  exact .many ((ks, a) :: phrases) (List.forall_mem_cons.mpr ⟨hks, fun x hx => (hphrases x hx).1⟩)
    (List.forall_mem_cons.mpr ⟨ha, fun x hx => (hphrases x hx).2⟩)

theorem Begins.manyCons {a : α} (hks : ks ≠ []) (ha : Derives rules p ks a)
    (h : Begins rules (.many p) ls) : Begins rules (.many p) (ks ++ ls) := by
  obtain ⟨ms, as, has⟩ := h
  exact ⟨ms, a :: as, by simpa only [List.append_assoc] using ha.manyCons hks has⟩

end

/-! ## What is asked for -/

section

variable {rules : (n : N) → Rule N M (M n)} {α β γ : Type} {p : Rule N M α} {q : Rule N M β}
  {r : Rule N M γ}

/-- Between two places `ks` were taken and classes of tokens asked for that go on with a phrase, none
of which is that of the next token. -/
structure Asks (rules : (n : N) → Rule N M (M n)) (p : Rule N M α) (ks : List Token)
    (c c' : Cursor) : Prop where
  rest : c.rest = ks ++ c'.rest
  last : c'.last? = ks.getLast?.or c.last?
  begins : ∀ t ∈ c'.asked,
    ks = [] ∧ t ∈ c.asked ∨ ∃ k : Token, k.terminal = t ∧ Begins rules p (ks ++ [k])
  kept : ks = [] → c.asked ⊆ c'.asked
  vain : (∀ k ∈ c.rest.head?, k.terminal ∉ c.asked) → ∀ k ∈ c'.rest.head?, k.terminal ∉ c'.asked

namespace Asks

variable {ks ls : List Token} {c c' c'' : Cursor}

theorem refl (p : Rule N M α) (c : Cursor) : Asks rules p [] c c where
  rest := rfl
  last := rfl
  begins _ ht := .inl ⟨rfl, ht⟩
  kept _ := List.Subset.refl _
  vain h := h

theorem imp (h : Asks rules p ks c c') (hpq : ∀ ms, ms ≠ [] → Begins rules p ms → Begins rules q ms) :
    Asks rules q ks c c' := by
  refine { h with begins := fun t ht => ?_ }
  rcases h.begins t ht with hc | ⟨k, hk, hbegins⟩
  · exact .inl hc
  · exact .inr ⟨k, hk, hpq _ (by simp) hbegins⟩

theorem trans (hp : Asks rules p ks c c') (hq : Asks rules q ls c' c'')
    (hpr : ∀ ms, ms ≠ [] → Begins rules p ms → Begins rules r ms)
    (hqr : ∀ ms, ms ≠ [] → Begins rules q ms → Begins rules r (ks ++ ms)) :
    Asks rules r (ks ++ ls) c c'' where
  rest := by rw [List.append_assoc, ← hq.rest, ← hp.rest]
  last := by rw [List.getLast?_append, Option.or_assoc, ← hp.last, ← hq.last]
  begins t ht := by
    rcases hq.begins t ht with ⟨rfl, ht'⟩ | ⟨k, hk, hbegins⟩
    · rw [List.append_nil]
      rcases hp.begins t ht' with hc | ⟨k, hk, hbegins⟩
      · exact .inl hc
      · exact .inr ⟨k, hk, hpr _ (by simp) hbegins⟩
    · refine .inr ⟨k, hk, ?_⟩
      rw [List.append_assoc]
      exact hqr _ (by simp) hbegins
  kept h := by
    obtain ⟨hks, hls⟩ := List.append_eq_nil_iff.mp h
    exact fun t ht => hq.kept hls (hp.kept hks ht)
  vain h := hq.vain (hp.vain h)

theorem eq_nil (h : Asks rules p ks c c') (hlen : c'.rest.length = c.rest.length) : ks = [] := by
  have hrest := congrArg List.length h.rest
  rw [List.length_append] at hrest
  exact List.length_eq_zero_iff.mp (by omega)

end Asks

/-- Reading has found a phrase from a place on, or has gone on with what begins one. -/
def Outcome.Finds (rules : (n : N) → Rule N M (M n)) (p : Rule N M α) (c : Cursor) : Outcome α → Prop
  | .done a c' => ∃ ks, Asks rules p ks c c' ∧ Derives rules p ks a
  | .refused c' => ∃ ks, Asks rules p ks c c' ∧ Begins rules p ks

end

section

variable {T : Lookahead N} {g : Grammar N M} {α : Type}

theorem readMany_finds (hT : T.Decides g) {p : Rule N M α} (hp : T.emptyOf p = false)
    {look : Cursor → Outcome α} (h : ∀ c, (look c).Finds g.rules p c) (fuel : Nat) (c : Cursor) :
    (readMany look fuel c).Finds g.rules (.many p) c := by
  have hone : ∀ ms : List Token, ms ≠ [] → Begins g.rules p ms → Begins g.rules (.many p) ms := by
    rintro ms hms ⟨ls, a, ha⟩
    refine ⟨ls, [a], ?_⟩
    simpa using ha.manyCons (by simp [hms]) (Derives.manyNil (p := p))
  induction fuel generalizing c with
  | zero => exact ⟨[], .refl _ c, .manyNil⟩
  | succ fuel ih =>
    have hlook := h c
    rw [readMany]
    generalize look c = o at hlook ⊢
    cases o with
    | refused c' =>
      obtain ⟨ks, hasks, hbegins⟩ := hlook
      dsimp only
      split
      · next hlen =>
        obtain rfl := hasks.eq_nil hlen
        exact ⟨[], hasks.imp hone, .manyNil⟩
      · next hlen =>
        refine ⟨ks, hasks.imp hone, hone ks ?_ hbegins⟩
        rintro rfl
        exact hlen (congrArg List.length hasks.rest).symm
    | done a c' =>
      obtain ⟨ks, hasks, ha⟩ := hlook
      have hks := ha.ne_nil hT hp
      have hmore := ih c'
      dsimp only
      generalize readMany look fuel c' = o at hmore ⊢
      cases o with
      | refused c'' =>
        obtain ⟨ls, hasks', hbegins⟩ := hmore
        exact ⟨ks ++ ls, hasks.trans hasks' hone fun ms _ hms => hms.manyCons hks ha,
          hbegins.manyCons hks ha⟩
      | done as c'' =>
        obtain ⟨ls, hasks', has⟩ := hmore
        exact ⟨ks ++ ls, hasks.trans hasks' hone fun ms _ hms => hms.manyCons hks ha,
          ha.manyCons hks has⟩

theorem token_finds {rules : (n : N) → Rule N M (M n)} (look : (n : N) → Cursor → Outcome (M n))
    (t : Terminal) (c : Cursor) : (read look (.token t) c).Finds rules (.token t) c := by
  have hbegins : ∃ k : Token, k.terminal = t ∧ Begins rules (.token t) ([] ++ [k]) :=
    ⟨⟨t, "", default⟩, rfl, (Derives.token ⟨t, "", default⟩).begins⟩
  have hnone : Begins rules (.token t) [] := by
    obtain ⟨k, -, ls, a, ha⟩ := hbegins
    exact ⟨k :: ls, a, ha⟩
  obtain ⟨rest, last?, asked⟩ := c
  cases rest with
  | nil =>
    refine ⟨[], ⟨rfl, rfl, fun u hu => ?_, fun _ => List.subset_cons_self t asked, fun _ k hk => ?_⟩,
      hnone⟩
    · rcases List.mem_cons.mp hu with rfl | hu
      · exact .inr hbegins
      · exact .inl ⟨rfl, hu⟩
    · cases hk
  | cons k rest =>
    rw [read]
    dsimp only
    split
    · next hk =>
      subst hk
      exact ⟨[k], ⟨rfl, rfl, fun _ hu => absurd hu List.not_mem_nil,
        fun hks => absurd hks (List.cons_ne_nil k []), fun _ _ _ => List.not_mem_nil⟩, .token k⟩
    · next hk =>
      refine ⟨[], ⟨rfl, rfl, fun u hu => ?_, fun _ => List.subset_cons_self t asked, fun h => ?_⟩,
        hnone⟩
      · rcases List.mem_cons.mp hu with rfl | hu
        · exact .inr hbegins
        · exact .inl ⟨rfl, hu⟩
      · simp only [List.head?_cons, Option.mem_some_iff, forall_eq', List.mem_cons, not_or] at h ⊢
        exact ⟨hk, h⟩

theorem seq_finds {rules : (n : N) → Rule N M (M n)} {look : (n : N) → Cursor → Outcome (M n)}
    {β : Type} {p : Rule N M α} {q : Rule N M β} (hphrase : ∃ ls b, Derives rules q ls b) {c : Cursor}
    (hp : (read look p c).Finds rules p c) (hq : ∀ c', (read look q c').Finds rules q c') :
    (read look (.seq p q) c).Finds rules (.seq p q) c := by
  have hleft : ∀ ms, ms ≠ [] → Begins rules p ms → Begins rules (.seq p q) ms :=
    fun ms _ hms => hms.seqLeft hphrase
  rw [read]
  generalize read look p c = o at hp ⊢
  cases o with
  | refused c' =>
    obtain ⟨ks, hasks, hbegins⟩ := hp
    exact ⟨ks, hasks.imp hleft, hbegins.seqLeft hphrase⟩
  | done a c' =>
    obtain ⟨ks, hasks, ha⟩ := hp
    have hsecond := hq c'
    dsimp only
    generalize read look q c' = o at hsecond ⊢
    cases o with
    | refused c'' =>
      obtain ⟨ls, hasks', hbegins⟩ := hsecond
      exact ⟨ks ++ ls, hasks.trans hasks' hleft fun ms _ => .seqRight ha, .seqRight ha hbegins⟩
    | done b c'' =>
      obtain ⟨ls, hasks', hb⟩ := hsecond
      exact ⟨ks ++ ls, hasks.trans hasks' hleft fun ms _ => .seqRight ha, ha.seq hb⟩

/-- Where the left side is refused without a token, the right side is asked as well. -/
theorem choice_finds {rules : (n : N) → Rule N M (M n)} {look : (n : N) → Cursor → Outcome (M n)}
    {p q : Rule N M α} {c : Cursor} (hp : (read look p c).Finds rules p c)
    (hq : ∀ c', (read look q c').Finds rules q c') :
    (read look (.choice p q) c).Finds rules (.choice p q) c := by
  have hleft : ∀ ms, ms ≠ [] → Begins rules p ms → Begins rules (.choice p q) ms := by
    rintro ms - ⟨ls, a, ha⟩
    exact ⟨ls, a, ha.left⟩
  have hright : ∀ ms, Begins rules q ms → Begins rules (.choice p q) ms := by
    rintro ms ⟨ls, a, ha⟩
    exact ⟨ls, a, ha.right⟩
  rw [read]
  generalize read look p c = o at hp ⊢
  cases o with
  | done a c' =>
    obtain ⟨ks, hasks, ha⟩ := hp
    exact ⟨ks, hasks.imp hleft, ha.left⟩
  | refused c' =>
    obtain ⟨ks, hasks, ls, a, ha⟩ := hp
    dsimp only
    split
    · next hlen =>
      obtain rfl := hasks.eq_nil hlen
      have hsecond := hq c'
      generalize read look q c' = o at hsecond ⊢
      cases o with
      | refused c'' =>
        obtain ⟨ls, hasks', hbegins⟩ := hsecond
        exact ⟨ls, hasks.trans hasks' hleft fun ms _ => hright ms, hright ls hbegins⟩
      | done b c'' =>
        obtain ⟨ls, hasks', hb⟩ := hsecond
        exact ⟨ls, hasks.trans hasks' hleft fun ms _ => hright ms, hb.right⟩
    · exact ⟨ks, hasks.imp hleft, ls, a, ha.left⟩

theorem spanned_finds (hT : T.Decides g) {look : (n : N) → Cursor → Outcome (M n)} {p : Rule N M α}
    (hempty : T.emptyOf p = false) {c : Cursor} (hp : (read look p c).Finds g.rules p c) :
    (read look (.spanned p) c).Finds g.rules (.spanned p) c := by
  have hspanned : ∀ ms, Begins g.rules p ms → Begins g.rules (.spanned p) ms := by
    rintro ms ⟨ls, a, ha⟩
    exact ⟨ls, _, ha.spanned (ha.ne_nil hT hempty)⟩
  rw [read]
  generalize read look p c = o at hp ⊢
  cases o with
  | refused c' =>
    obtain ⟨ks, hasks, hbegins⟩ := hp
    exact ⟨ks, hasks.imp fun ms _ => hspanned ms, hspanned ks hbegins⟩
  | done a c' =>
    obtain ⟨ks, hasks, ha⟩ := hp
    have hks := ha.ne_nil hT hempty
    have hspan : spanBetween c c' = spanOf (ks.head hks) (ks.getLast hks) := by
      rw [spanBetween, hasks.rest, hasks.last, List.getLast?_eq_some_getLast hks]
      cases ks with
      | nil => exact absurd rfl hks
      | cons k ks => rfl
    refine ⟨ks, hasks.imp fun ms _ => hspanned ms, ?_⟩
    rw [hspan]
    exact ha.spanned hks

theorem read_finds (hT : T.Sharp g) {look : (n : N) → Cursor → Outcome (M n)}
    (h : ∀ n c, (look n c).Finds g.rules (.ref n) c) (p : Rule N M α)
    (hp : T.takesTokens p = true) (c : Cursor) : (read look p c).Finds g.rules p c := by
  induction p generalizing c with
  | token t => exact token_finds look t c
  | nothing a => exact ⟨[], .refl _ c, .nothing a⟩
  | seq p q ihp ihq =>
    simp only [Lookahead.takesTokens, Bool.and_eq_true] at hp
    exact seq_finds (exists_derives hT q hp.2) (ihp hp.1 c) (ihq hp.2)
  | choice p q ihp ihq =>
    simp only [Lookahead.takesTokens, Bool.and_eq_true] at hp
    exact choice_finds (ihp hp.1 c) (ihq hp.2)
  | many p ih =>
    simp only [Lookahead.takesTokens, Bool.and_eq_true, Bool.not_eq_true'] at hp
    rw [read]
    exact readMany_finds hT.toDecides hp.1 (fun c => ih hp.2 c) _ c
  | map f p ih =>
    have hmap : ∀ ms, Begins g.rules p ms → Begins g.rules (.map f p) ms := by
      rintro ms ⟨ls, a, ha⟩
      exact ⟨ls, f a, ha.map f⟩
    have hp := ih hp c
    rw [read]
    generalize read look p c = o at hp ⊢
    cases o with
    | refused c' =>
      obtain ⟨ks, hasks, hbegins⟩ := hp
      exact ⟨ks, hasks.imp fun ms _ => hmap ms, hmap ks hbegins⟩
    | done a c' =>
      obtain ⟨ks, hasks, ha⟩ := hp
      exact ⟨ks, hasks.imp fun ms _ => hmap ms, ha.map f⟩
  | spanned p ih =>
    simp only [Lookahead.takesTokens, Bool.and_eq_true, Bool.not_eq_true'] at hp
    exact spanned_finds hT.toDecides hp.1 (ih hp.2 c)
  | ref n => exact h n c

theorem readAt_finds (hT : T.Sharp g) (fuel : Nat) (n : N) (c : Cursor) :
    (readAt g.rules fuel n c).Finds g.rules (.ref n) c := by
  induction fuel generalizing n c with
  | zero =>
    obtain ⟨ks, m, hm⟩ := hT.productive n
    exact ⟨[], .refl _ c, ks, m, hm.ref⟩
  | succ fuel ih =>
    have hr := read_finds hT (fun n c => ih n c) (g.rules n) (hT.takes n) c
    have href : ∀ ms, Begins g.rules (g.rules n) ms → Begins g.rules (.ref n) ms := by
      rintro ms ⟨ls, m, hm⟩
      exact ⟨ls, m, hm.ref⟩
    rw [readAt]
    generalize read (readAt g.rules fuel) (g.rules n) c = o at hr ⊢
    cases o with
    | refused c' =>
      obtain ⟨ks, hasks, hbegins⟩ := hr
      exact ⟨ks, hasks.imp fun ms _ => href ms, href ks hbegins⟩
    | done m c' =>
      obtain ⟨ks, hasks, hm⟩ := hr
      exact ⟨ks, hasks.imp fun ms _ => href ms, hm.ref⟩

end

end Rule

end CanisterShell.Syntax
