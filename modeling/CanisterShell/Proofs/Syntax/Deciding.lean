import CanisterShell.Proofs.Syntax.Deriving
import CanisterShell.Syntax.Grammar
import Mathlib.Data.Nat.Bitwise

/-!
# Reading finds what derives

A lookahead says of each nonterminal what its phrases may begin with, what may follow them, whether
they may be empty and how many nonterminals they can open before they take a token.  It decides a
grammar if the rules bear it out and no token speaks for both sides of a choice.

Where the next token decides every choice, reading finds every phrase that derives
(`Grammar.parse_of_derives`): it never takes the wrong side, for the other one is refused in front of
the phrase (`read_stays`), and it never runs out of fuel, for a phrase opens few nonterminals before
it takes a token.  The grammar of scripts is of this kind (`Phrase.decides_scriptGrammar`).
-/

namespace CanisterShell.Syntax

/-! ## Lookahead -/

/-- What is known of the phrases of each nonterminal.  Sets of terminals are numbers with a bit for
each terminal; `code` numbers the bits. -/
structure Lookahead (N : Type) where
  code : Terminal → Nat
  mayBeEmpty : N → Bool
  first : N → Nat
  follow : N → Nat
  rank : N → Nat

namespace Lookahead

variable {N : Type} {M : N → Type} (T : Lookahead N)

def has (set : Nat) (t : Terminal) : Bool := set.testBit (T.code t)

def emptyOf : {α : Type} → Rule N M α → Bool
  | _, .token _ => false
  | _, .nothing _ => true
  | _, .seq p q => emptyOf p && emptyOf q
  | _, .choice p q => emptyOf p || emptyOf q
  | _, .many _ => true
  | _, .map _ p => emptyOf p
  | _, .spanned p => emptyOf p
  | _, .ref n => T.mayBeEmpty n

/-- What the phrases of a rule begin with. -/
def firstOf : {α : Type} → Rule N M α → Nat
  | _, .token t => 2 ^ T.code t
  | _, .nothing _ => 0
  | _, .seq p q => firstOf p ||| (if T.emptyOf p then firstOf q else 0)
  | _, .choice p q => firstOf p ||| firstOf q
  | _, .many p => firstOf p
  | _, .map _ p => firstOf p
  | _, .spanned p => firstOf p
  | _, .ref n => T.first n

/-- What stands in front where a phrase of a rule is to come that `follow` may follow. -/
def ahead {α : Type} (p : Rule N M α) (follow : Nat) : Nat :=
  T.firstOf p ||| (if T.emptyOf p then follow else 0)

/-- Whether the next token decides every choice in a phrase that `follow` may follow. -/
def decides : {α : Type} → Rule N M α → (follow : Nat) → Bool
  | _, .token _, _ => true
  | _, .nothing _, _ => true
  | _, .seq p q, follow => decides p (T.ahead q follow) && decides q follow
  | _, .choice p q, follow =>
    !T.emptyOf p && (T.firstOf p &&& T.ahead q follow == 0) && decides p follow && decides q follow
  | _, .many p, follow =>
    !T.emptyOf p && (T.firstOf p &&& follow == 0) && decides p (T.firstOf p ||| follow)
  | _, .map _ p, follow => decides p follow
  | _, .spanned p, follow => decides p follow
  | _, .ref n, follow => follow ||| T.follow n == T.follow n

/-- How many nonterminals a phrase opens within each other before it takes a token. -/
def heightOf : {α : Type} → Rule N M α → Nat
  | _, .token _ => 0
  | _, .nothing _ => 0
  | _, .seq p q => max (heightOf p) (if T.emptyOf p then heightOf q else 0)
  | _, .choice p q => max (heightOf p) (heightOf q)
  | _, .many p => heightOf p
  | _, .map _ p => heightOf p
  | _, .spanned p => heightOf p
  | _, .ref n => T.rank n + 1

/-- The rules bear what is known out, and no token speaks for both sides of a choice. -/
structure Decides (g : Grammar N M) : Prop where
  empty (n : N) : T.emptyOf (g.rules n) = true → T.mayBeEmpty n = true
  first (n : N) : T.firstOf (g.rules n) ||| T.first n = T.first n
  choices (n : N) : T.decides (g.rules n) (T.follow n) = true
  height (n : N) : T.heightOf (g.rules n) ≤ T.rank n
  rank (n : N) : T.rank n < g.size

variable {T}

/-! ### Sets -/

theorem has_or {a b : Nat} {t : Terminal} : T.has (a ||| b) t = (T.has a t || T.has b t) := by
  rw [has, Nat.testBit_or, has, has]

theorem not_has_of_disjoint {a b : Nat} (h : a &&& b = 0) {t : Terminal} (hb : T.has b t = true) :
    T.has a t = false := by
  have := congrArg (·.testBit (T.code t)) h
  rw [has] at hb ⊢
  simpa [Nat.testBit_and, hb] using this

theorem has_of_subset {a b : Nat} (h : a ||| b = b) {t : Terminal} (ha : T.has a t = true) :
    T.has b t = true := by
  rw [← h, has_or, ha, Bool.true_or]

theorem has_ahead {α : Type} {p : Rule N M α} {follow : Nat} {t : Terminal} :
    T.has (T.ahead p follow) t = true
      ↔ T.has (T.firstOf p) t = true ∨ T.emptyOf p = true ∧ T.has follow t = true := by
  rw [ahead, has_or, Bool.or_eq_true]
  cases T.emptyOf p with
  | false => simp [has]
  | true => simp

theorem heightOf_le {size : Nat} (h : ∀ n, T.rank n < size) {α : Type} (p : Rule N M α) :
    T.heightOf p ≤ size := by
  induction p with
  | token => exact Nat.zero_le _
  | nothing => exact Nat.zero_le _
  | seq p q ihp ihq =>
    rw [heightOf]
    split
    · exact Nat.max_le.mpr ⟨ihp, ihq⟩
    · exact Nat.max_le.mpr ⟨ihp, Nat.zero_le _⟩
  | choice p q ihp ihq => exact Nat.max_le.mpr ⟨ihp, ihq⟩
  | many p ih => exact ih
  | map f p ih => exact ih
  | spanned p ih => exact ih
  | ref n => exact h n

/-- The next token, if there is one, is in a set. -/
def Next (T : Lookahead N) (set : Nat) (ks : List Token) : Prop :=
  ∀ k ∈ ks.head?, T.has set k.terminal = true

/-- The next token, if there is one, is not in a set. -/
def NotNext (T : Lookahead N) (set : Nat) (ks : List Token) : Prop :=
  ∀ k ∈ ks.head?, T.has set k.terminal = false

theorem Next.not {a b : Nat} {ks : List Token} (h : T.Next b ks) (hd : a &&& b = 0) :
    T.NotNext a ks :=
  fun k hk => not_has_of_disjoint hd (h k hk)

theorem Next.append {set : Nat} {ks : List Token} (h : T.Next set ks) (hks : ks ≠ [])
    (rest : List Token) : T.Next set (ks ++ rest) := by
  cases ks with
  | nil => exact absurd rfl hks
  | cons k ks => exact h

theorem notNext_or {a b : Nat} {ks : List Token} :
    T.NotNext (a ||| b) ks ↔ T.NotNext a ks ∧ T.NotNext b ks := by
  constructor
  · intro h
    refine ⟨fun k hk => ?_, fun k hk => ?_⟩
    · exact (Bool.or_eq_false_iff.mp (has_or ▸ h k hk)).1
    · exact (Bool.or_eq_false_iff.mp (has_or ▸ h k hk)).2
  · intro ⟨ha, hb⟩ k hk
    rw [has_or, ha k hk, hb k hk, Bool.or_false]

end Lookahead

/-! ### What is derived -/

namespace Rule.Derives

variable {N : Type} {M : N → Type} {T : Lookahead N} {α : Type}

theorem head {g : Grammar N M} (hT : T.Decides g) {p : Rule N M α} {ks : List Token} {a : α}
    (h : Derives g.rules p ks a) :
    (ks = [] → T.emptyOf p = true) ∧ T.Next (T.firstOf p) ks := by
  induction h with
  | token k =>
    refine ⟨nofun, fun k' hk => ?_⟩
    cases hk
    simp [Lookahead.has, Lookahead.firstOf]
  | nothing a => exact ⟨fun _ => rfl, nofun⟩
  | @seq _ _ p q ks ls a b _ _ iha ihb =>
    constructor
    · intro h
      obtain ⟨hks, hls⟩ := List.append_eq_nil_iff.mp h
      rw [Lookahead.emptyOf, iha.1 hks, ihb.1 hls, Bool.true_and]
    · intro k hk
      rw [Lookahead.firstOf, Lookahead.has_or, Bool.or_eq_true]
      cases ks with
      | nil =>
        rw [iha.1 rfl]
        exact .inr (ihb.2 k hk)
      | cons k' ks => exact .inl (iha.2 k hk)
  | left _ ih =>
    refine ⟨fun h => by rw [Lookahead.emptyOf, ih.1 h, Bool.true_or], fun k hk => ?_⟩
    rw [Lookahead.firstOf, Lookahead.has_or, ih.2 k hk, Bool.true_or]
  | right _ ih =>
    refine ⟨fun h => by rw [Lookahead.emptyOf, ih.1 h, Bool.or_true], fun k hk => ?_⟩
    rw [Lookahead.firstOf, Lookahead.has_or, ih.2 k hk, Bool.or_true]
  | many phrases hne _ ih =>
    refine ⟨fun _ => rfl, ?_⟩
    cases phrases with
    | nil => exact nofun
    | cons x phrases => exact (ih x (.head _)).2.append (hne x (.head _)) _
  | map f _ ih => exact ih
  | spanned _ _ ih => exact ih
  | ref _ ih =>
    refine ⟨fun h => hT.empty _ (ih.1 h), fun k hk => ?_⟩
    exact Lookahead.has_of_subset (hT.first _) (ih.2 k hk)

theorem next_ahead {g : Grammar N M} (hT : T.Decides g) {p : Rule N M α} {ks rest : List Token}
    {a : α} (h : Derives g.rules p ks a) {follow : Nat} (hf : T.Next follow rest) :
    T.Next (T.ahead p follow) (ks ++ rest) := by
  intro k hk
  rw [Lookahead.has_ahead]
  cases ks with
  | nil => exact .inr ⟨(h.head hT).1 rfl, hf k hk⟩
  | cons k' ks => exact .inl ((h.head hT).2 k hk)

end Rule.Derives

namespace Rule

variable {N : Type} {M : N → Type} {T : Lookahead N} {α : Type}

/-! ## Refusal -/

/-- Reading has not moved from a place, and has found nothing unless an empty phrase is allowed. -/
def Outcome.Stays (c : Cursor) (empty : Bool) : Outcome α → Prop
  | .done _ c' => empty = true ∧ c'.rest = c.rest ∧ c'.last? = c.last?
  | .refused c' => c'.rest = c.rest ∧ c'.last? = c.last?

theorem readMany_stays {p : Cursor → Outcome α} {empty : Bool} (fuel : Nat) {c : Cursor}
    (h : ∀ c', c'.rest = c.rest → (p c').Stays c' empty) : (readMany p fuel c).Stays c true := by
  induction fuel generalizing c with
  | zero => exact ⟨rfl, rfl, rfl⟩
  | succ fuel ih =>
    have hp := h c rfl
    rw [readMany]
    generalize p c = r at hp ⊢
    cases r with
    | refused c' =>
      obtain ⟨hrest, hlast⟩ := hp
      dsimp only
      rw [if_pos (congrArg _ hrest)]
      exact ⟨rfl, hrest, hlast⟩
    | done a c' =>
      obtain ⟨-, hrest, hlast⟩ := hp
      have hm := ih (c := c') fun c'' hc => h c'' (hc.trans hrest)
      dsimp only
      generalize readMany p fuel c' = r at hm ⊢
      cases r with
      | refused c'' => exact ⟨hm.1.trans hrest, hm.2.trans hlast⟩
      | done as c'' => exact ⟨rfl, hm.2.1.trans hrest, hm.2.2.trans hlast⟩

section

variable {look : (n : N) → Cursor → Outcome (M n)} {c : Cursor}

theorem seq_stays {β : Type} {p : Rule N M α} {q : Rule N M β}
    (hp : (read look p c).Stays c (T.emptyOf p))
    (hq : ∀ c', T.emptyOf p = true → c'.rest = c.rest → (read look q c').Stays c' (T.emptyOf q)) :
    (read look (.seq p q) c).Stays c (T.emptyOf (.seq p q)) := by
  rw [read]
  generalize read look p c = r at hp ⊢
  cases r with
  | refused c' => exact hp
  | done a c' =>
    obtain ⟨hempty, hrest, hlast⟩ := hp
    have hq := hq c' hempty hrest
    dsimp only
    generalize read look q c' = r at hq ⊢
    rw [Lookahead.emptyOf, hempty, Bool.true_and]
    cases r with
    | refused c'' => exact ⟨hq.1.trans hrest, hq.2.trans hlast⟩
    | done b c'' => exact ⟨hq.1, hq.2.1.trans hrest, hq.2.2.trans hlast⟩

theorem choice_stays {p q : Rule N M α} (hp : (read look p c).Stays c (T.emptyOf p))
    (hq : ∀ c', c'.rest = c.rest → (read look q c').Stays c' (T.emptyOf q)) :
    (read look (.choice p q) c).Stays c (T.emptyOf (.choice p q)) := by
  rw [read]
  generalize read look p c = r at hp ⊢
  cases r with
  | done a c' => exact ⟨by rw [Lookahead.emptyOf, hp.1, Bool.true_or], hp.2⟩
  | refused c' =>
    obtain ⟨hrest, hlast⟩ := hp
    have hq := hq c' hrest
    dsimp only
    rw [if_pos (congrArg _ hrest)]
    generalize read look q c' = r at hq ⊢
    cases r with
    | refused c'' => exact ⟨hq.1.trans hrest, hq.2.trans hlast⟩
    | done b c'' =>
      exact ⟨by rw [Lookahead.emptyOf, hq.1, Bool.or_true], hq.2.1.trans hrest, hq.2.2.trans hlast⟩

theorem map_stays {β : Type} {p : Rule N M α} (f : α → β)
    (hp : (read look p c).Stays c (T.emptyOf p)) :
    (read look (.map f p) c).Stays c (T.emptyOf p) := by
  rw [read]
  generalize read look p c = r at hp ⊢
  cases r with
  | done a c' => exact hp
  | refused c' => exact hp

theorem spanned_stays {p : Rule N M α} (hp : (read look p c).Stays c (T.emptyOf p)) :
    (read look (.spanned p) c).Stays c (T.emptyOf p) := by
  rw [read]
  generalize read look p c = r at hp ⊢
  cases r with
  | done a c' => exact hp
  | refused c' => exact hp

end

/-- A phrase that does not begin with the next token is refused in front of it. -/
theorem read_stays {look : (n : N) → Cursor → Outcome (M n)}
    (h : ∀ n c, T.NotNext (T.first n) c.rest → (look n c).Stays c (T.mayBeEmpty n))
    (p : Rule N M α) {c : Cursor} (hc : T.NotNext (T.firstOf p) c.rest) :
    (read look p c).Stays c (T.emptyOf p) := by
  induction p generalizing c with
  | token t =>
    rw [read]
    split
    case h_1 => exact ⟨rfl, rfl⟩
    case h_2 k rest hk =>
      have hk := hc k (by rw [hk]; rfl)
      rw [if_neg]
      · exact ⟨rfl, rfl⟩
      · rintro rfl
        simp [Lookahead.has, Lookahead.firstOf] at hk
  | nothing a => exact ⟨rfl, rfl, rfl⟩
  | seq p q ihp ihq =>
    obtain ⟨hfp, hfq⟩ := Lookahead.notNext_or.mp hc
    refine seq_stays (ihp hfp) fun c' hempty hrest => ihq ?_
    rwa [if_pos hempty, ← hrest] at hfq
  | choice p q ihp ihq =>
    obtain ⟨hfp, hfq⟩ := Lookahead.notNext_or.mp hc
    exact choice_stays (ihp hfp) fun c' hrest => ihq (hrest ▸ hfq)
  | many p ih =>
    rw [read]
    exact readMany_stays _ fun c' hc' => ih (hc' ▸ hc)
  | map f p ih => exact map_stays f (ih hc)
  | spanned p ih => exact spanned_stays (ih hc)
  | ref n => exact h n c hc

variable {g : Grammar N M}

theorem readAt_stays (hT : T.Decides g) (fuel : Nat) (n : N) {c : Cursor}
    (hc : T.NotNext (T.first n) c.rest) : (readAt g.rules fuel n c).Stays c (T.mayBeEmpty n) := by
  induction fuel generalizing n c with
  | zero => exact ⟨rfl, rfl⟩
  | succ fuel ih =>
    have hr := read_stays (fun n c => ih n) (g.rules n) (c := c) fun k hk => by
      have := hc k hk
      rw [← hT.first, Lookahead.has_or, Bool.or_eq_false_iff] at this
      exact this.1
    rw [readAt]
    generalize read (readAt g.rules fuel) (g.rules n) c = r at hr ⊢
    cases r with
    | refused c' => exact hr
    | done m c' => exact ⟨hT.empty n hr.1, hr.2⟩

/-! ## Fuel -/

section

variable {β : Type} {p : Rule N M α} {q : Rule N M β} {fuel left : Nat}

/-- The fuel suffices for reading a phrase where so many tokens are left.  No phrase opens more than
`g.size` nonterminals before it takes a token. -/
def Enough (T : Lookahead N) (g : Grammar N M) (p : Rule N M α) (fuel left : Nat) : Prop :=
  left * g.size + T.heightOf p ≤ fuel

theorem Enough.of_le {left' : Nat} (h : Enough T g p fuel left) (hleft : left' ≤ left)
    (hheight : T.heightOf q ≤ T.heightOf p) : Enough T g q fuel left' := by
  unfold Enough at h ⊢
  have := Nat.mul_le_mul_right g.size hleft
  omega

/-- The fuel for two phrases suffices for the second one: what the first one has taken pays for what
the second one opens, or else it is empty. -/
theorem Enough.second (hT : T.Decides g) {taken : Nat} (h : Enough T g (.seq p q) fuel (taken + left))
    (hempty : taken = 0 → T.emptyOf p = true) : Enough T g q fuel left := by
  unfold Enough at h ⊢
  rw [Nat.add_mul] at h
  by_cases htaken : taken = 0
  · have hheight : T.heightOf q ≤ T.heightOf (.seq p q) := by
      rw [Lookahead.heightOf, if_pos (hempty htaken)]
      exact Nat.le_max_right _ _
    omega
  · have hq := Lookahead.heightOf_le hT.rank q
    have hpaid : g.size ≤ taken * g.size := Nat.le_mul_of_pos_left _ (Nat.pos_of_ne_zero htaken)
    omega

theorem Enough.inside (hT : T.Decides g) {n : N} (h : Enough T g (.ref n : Rule N M _) fuel left) :
    ∃ m, fuel = m + 1 ∧ Enough T g (g.rules n) m left := by
  have hheight := hT.height n
  unfold Enough at h ⊢
  rw [Lookahead.heightOf] at h
  exact ⟨fuel - 1, by omega, by omega⟩

end

/-! ## Reading what derives -/

/-- Reading from a place takes some tokens, means something by them and leaves the rest. -/
def Takes (p : Cursor → Outcome α) (ks rest : List Token) (a : α) : Prop :=
  ∀ last? asked, ∃ asked', p ⟨ks ++ rest, last?, asked⟩
    = .done a ⟨rest, ks.getLast?.or last?, asked'⟩

namespace Takes

variable {β : Type} {look : (n : N) → Cursor → Outcome (M n)} {p q : Rule N M α}
  {ks ls rest : List Token} {a : α} {b : β}

theorem seq {q : Rule N M β} (hp : Takes (read look p) ks (ls ++ rest) a)
    (hq : Takes (read look q) ls rest b) : Takes (read look (.seq p q)) (ks ++ ls) rest (a, b) := by
  intro last? asked
  obtain ⟨asked', hreadp⟩ := hp last? asked
  obtain ⟨asked'', hreadq⟩ := hq (ks.getLast?.or last?) asked'
  refine ⟨asked'', ?_⟩
  rw [List.append_assoc, read, hreadp]
  dsimp only
  rw [hreadq, List.getLast?_append, Option.or_assoc]

theorem left (hp : Takes (read look p) ks rest a) : Takes (read look (.choice p q)) ks rest a := by
  intro last? asked
  obtain ⟨asked', hread⟩ := hp last? asked
  exact ⟨asked', by rw [read, hread]⟩

theorem right (hp : ∀ c : Cursor, c.rest = ks ++ rest → (read look p c).Stays c false)
    (hq : Takes (read look q) ks rest a) : Takes (read look (.choice p q)) ks rest a := by
  intro last? asked
  have hstay := hp ⟨ks ++ rest, last?, asked⟩ rfl
  rw [read]
  generalize read look p ⟨ks ++ rest, last?, asked⟩ = r at hstay ⊢
  cases r with
  | done b c' => cases hstay.1
  | refused c' =>
    obtain ⟨hr, hl⟩ := hstay
    obtain ⟨rest', last', asked'⟩ := c'
    dsimp only at hr hl ⊢
    subst hr hl
    rw [if_pos rfl]
    exact hq _ asked'

theorem map (f : α → β) (hp : Takes (read look p) ks rest a) :
    Takes (read look (.map f p)) ks rest (f a) := by
  intro last? asked
  obtain ⟨asked', hread⟩ := hp last? asked
  exact ⟨asked', by rw [read, hread]⟩

theorem spanned (hks : ks ≠ []) (hp : Takes (read look p) ks rest a) :
    Takes (read look (.spanned p)) ks rest (spanOf (ks.head hks) (ks.getLast hks), a) := by
  intro last? asked
  obtain ⟨asked', hread⟩ := hp last? asked
  refine ⟨asked', ?_⟩
  rw [read, hread]
  cases ks with
  | nil => exact absurd rfl hks
  | cons k ks =>
    rw [List.getLast?_eq_some_getLast hks]
    rfl

end Takes

theorem readMany_takes {set longest : Nat} {p : Cursor → Outcome α}
    {phrases : List (List Token × α)} {rest : List Token} (hne : ∀ x ∈ phrases, x.1 ≠ [])
    (hnext : ∀ x ∈ phrases, T.Next set x.1) (hrest : T.Next set rest)
    (h : ∀ x ∈ phrases, ∀ tail, T.Next set tail → x.1.length + tail.length ≤ longest →
      Takes p x.1 tail x.2)
    (hend : ∀ c : Cursor, c.rest = rest → (p c).Stays c false)
    (hlen : (phrases.flatMap (·.1)).length + rest.length ≤ longest)
    {fuel : Nat} (hfuel : phrases.length < fuel) :
    Takes (readMany p fuel) (phrases.flatMap (·.1)) rest (phrases.map (·.2)) := by
  induction phrases generalizing fuel with
  | nil =>
    intro last? asked
    obtain ⟨fuel, rfl⟩ : ∃ n, fuel = n + 1 := ⟨fuel - 1, by simp at hfuel; omega⟩
    have hp := hend ⟨rest, last?, asked⟩ rfl
    simp only [List.flatMap_nil, List.nil_append, List.map_nil, List.getLast?_nil, Option.none_or]
    rw [readMany]
    generalize p ⟨rest, last?, asked⟩ = r at hp ⊢
    cases r with
    | done a c' => cases hp.1
    | refused c' =>
      obtain ⟨hr, hl⟩ := hp
      obtain ⟨rest', last', asked'⟩ := c'
      dsimp only at hr hl ⊢
      subst hr hl
      exact ⟨asked', if_pos rfl⟩
  | cons x phrases ih =>
    intro last? asked
    obtain ⟨fuel, rfl⟩ : ∃ n, fuel = n + 1 := ⟨fuel - 1, by simp at hfuel; omega⟩
    rw [List.flatMap_cons, List.length_append, Nat.add_assoc] at hlen
    have htail : T.Next set (phrases.flatMap (·.1) ++ rest) := by
      cases phrases with
      | nil => exact hrest
      | cons y phrases =>
        have hy : y ∈ x :: y :: phrases := .tail _ (.head _)
        rw [List.flatMap_cons, List.append_assoc]
        exact (hnext y hy).append (hne y hy) _
    obtain ⟨asked', hx⟩ := h x (.head _) _ htail (by rwa [List.length_append]) last? asked
    have hfuel' : phrases.length < fuel := by simpa using hfuel
    obtain ⟨asked'', hxs⟩ := ih (fun y hy => hne y (.tail _ hy)) (fun y hy => hnext y (.tail _ hy))
      (fun y hy => h y (.tail _ hy)) (by omega) hfuel' (x.1.getLast?.or last?) asked'
    refine ⟨asked'', ?_⟩
    rw [List.flatMap_cons, List.append_assoc, readMany, hx]
    dsimp only
    rw [hxs, List.getLast?_append, Option.or_assoc, List.map_cons]

theorem length_le_flatMap {phrases : List (List Token × α)} (h : ∀ x ∈ phrases, x.1 ≠ []) :
    phrases.length ≤ (phrases.flatMap (·.1)).length := by
  induction phrases with
  | nil => exact Nat.zero_le _
  | cons x phrases ih =>
    have := ih fun y hy => h y (.tail _ hy)
    have := List.length_pos_iff.mpr (h x (.head _))
    rw [List.length_cons, List.flatMap_cons, List.length_append]
    omega

/-- What derives is read, if the next token decides every choice in it and the fuel suffices for the
tokens. -/
theorem read_of_derives {g : Grammar N M} (hT : T.Decides g) {p : Rule N M α} {ks : List Token}
    {a : α} (h : Derives g.rules p ks a) {follow : Nat} (hp : T.decides p follow = true)
    {rest : List Token} (hrest : T.Next follow rest) {fuel : Nat}
    (henough : Enough T g p fuel (ks.length + rest.length)) :
    Takes (read (readAt g.rules fuel) p) ks rest a := by
  -- on the derivation, behind any tokens
  induction h generalizing follow rest fuel with
  | token k =>
    intro last? asked
    exact ⟨[], by simp [read]⟩
  | nothing a =>
    intro last? asked
    exact ⟨asked, by simp [read]⟩
  | @seq _ _ p q ks ls a b ha hb iha ihb =>
    rw [Lookahead.decides, Bool.and_eq_true] at hp
    rw [List.length_append, Nat.add_assoc] at henough
    have hfirst : Enough T g p fuel (ks.length + (ls ++ rest).length) :=
      henough.of_le (by rw [List.length_append]) (Nat.le_max_left _ _)
    have hsecond : Enough T g q fuel (ls.length + rest.length) :=
      henough.second hT fun hks => (ha.head hT).1 (List.length_eq_zero_iff.mp hks)
    exact (iha hp.1 (hb.next_ahead hT hrest) hfirst).seq (ihb hp.2 hrest hsecond)
  | left _ ih =>
    simp only [Lookahead.decides, Bool.and_eq_true] at hp
    exact (ih hp.1.2 hrest (henough.of_le (Nat.le_refl _) (Nat.le_max_left _ _))).left
  | @right _ p q ks a hq ih =>
    simp only [Lookahead.decides, Bool.and_eq_true, Bool.not_eq_true', beq_iff_eq] at hp
    -- the left side does not move, for the token that is next begins none of its phrases
    have hstay (c : Cursor) (hc : c.rest = ks ++ rest) :
        (read (readAt g.rules fuel) p c).Stays c false := by
      have hnext := (hq.next_ahead hT hrest).not hp.1.1.2
      have := read_stays (fun n c => readAt_stays hT fuel n) p (hc ▸ hnext)
      rwa [hp.1.1.1] at this
    exact .right hstay (ih hp.2 hrest (henough.of_le (Nat.le_refl _) (Nat.le_max_right _ _)))
  | @many _ p phrases hne hphrases ih =>
    simp only [Lookahead.decides, Bool.and_eq_true, Bool.not_eq_true', beq_iff_eq] at hp
    have hfirst : ∀ x ∈ phrases, T.Next (T.firstOf p ||| follow) x.1 := fun x hx k hk => by
      rw [Lookahead.has_or, ((hphrases x hx).head hT).2 k hk, Bool.true_or]
    have hrest' : T.Next (T.firstOf p ||| follow) rest := fun k hk => by
      rw [Lookahead.has_or, hrest k hk, Bool.or_true]
    intro last? asked
    rw [read]
    refine readMany_takes hne hfirst hrest' ?_ ?_ (Nat.le_refl _) ?_ last? asked
    · intro x hx tail htail hlen
      exact ih x hx hp.2 htail (henough.of_le hlen (Nat.le_refl _))
    · intro c hc
      have := read_stays (fun n c => readAt_stays hT fuel n) p (c := c)
        (hc ▸ hrest.not hp.1.2)
      rwa [hp.1.1] at this
    · have := length_le_flatMap hne
      rw [List.length_append]
      omega
  | map f _ ih => exact (ih hp hrest henough).map f
  | spanned hks _ ih => exact (ih hp hrest henough).spanned hks
  | @ref n ks m _ ih =>
    rw [Lookahead.decides, beq_iff_eq] at hp
    obtain ⟨fuel, rfl, hinside⟩ := henough.inside hT
    have hn : Takes (read (readAt g.rules fuel) (g.rules n)) ks rest m :=
      ih (hT.choices n) (fun k hk => Lookahead.has_of_subset hp (hrest k hk)) hinside
    intro last? asked
    obtain ⟨asked', hread⟩ := hn last? asked
    exact ⟨asked', by rw [read, readAt, hread]⟩

end Rule

/-! ## Texts -/

namespace Grammar

variable {N : Type} {M : N → Type}

def reading (g : Grammar N M) (start : N) (tokens : List Token) : Rule.Outcome (M start) :=
  Rule.readAt g.rules ((tokens.length + 1) * g.size) start ⟨tokens, none, []⟩

/-- The meaning of the tokens of a text as a phrase of the nonterminal `start`. -/
def parseTokens (g : Grammar N M) (start : N) (source : List Char) (tokens : Tokens) :
    Except ParseError (M start) :=
  match g.reading start tokens.tokens with
  | .refused c => .error (tokens.refusal g.lexicon source c)
  | .done a c =>
    match c.rest, tokens.ending with
    | [], .complete => .ok a
    | _, _ => .error (tokens.refusal g.lexicon source c)

theorem parse_eq (g : Grammar N M) (start : N) (source : List Char) :
    g.parse start source = g.parseTokens start source (scan g.lexicon source) := rfl

variable {T : Lookahead N} {g : Grammar N M} {start : N} {tokens : List Token} {m : M start}

theorem enough_start (hT : T.Decides g) (start : N) (tokens : List Token) :
    Rule.Enough T g (.ref start) ((tokens.length + 1) * g.size) tokens.length := by
  rw [Rule.Enough, Nat.add_mul, Nat.one_mul]
  exact Nat.add_le_add_left (hT.rank start) _

theorem reading_of_derives (hT : T.Decides g)
    (h : Rule.Derives g.rules (.ref start) tokens m) :
    ∃ c, g.reading start tokens = .done m c ∧ c.rest = [] := by
  have hstart : T.decides (.ref start : Rule N M _) (T.follow start) = true := by
    rw [Lookahead.decides, Nat.or_self, beq_self_eq_true]
  have hend : T.Next (T.follow start) [] := nofun
  obtain ⟨asked, hread⟩ :=
    Rule.read_of_derives hT h hstart hend (enough_start hT start tokens) none []
  rw [List.append_nil, Rule.read] at hread
  exact ⟨_, hread, rfl⟩

/-- What derives is read. -/
theorem parse_of_derives {source : List Char} (hT : T.Decides g)
    (hs : scan g.lexicon source = ⟨tokens, .complete⟩)
    (h : Rule.Derives g.rules (g.rules start) tokens m) : g.parse start source = .ok m := by
  have href : Rule.Derives g.rules (.ref start) tokens m := h.ref
  obtain ⟨c, hread, hrest⟩ := reading_of_derives hT href
  rw [parse_eq, hs, parseTokens, hread]
  dsimp only
  rw [hrest]

end Grammar

/-! ## Scripts -/

namespace Phrase

/-- The terminals that the rules speak of. -/
def terminals : List Terminal :=
  [.name, .text, .number, .assertOp, .fixed "type"]
    ++ (scriptGrammar.lexicon.keywords ++ scriptGrammar.lexicon.symbols).map .fixed

/-- What may stand behind an expression. -/
def behindExp : List Terminal :=
  .assertOp :: [",", ")", "]", "\x7b", "\x7d", ";"].map .fixed

/-- What may stand behind a phrase of a nonterminal. -/
def behind : Nonterminal → List Terminal
  | .datatype => .fixed "service" :: behindExp
  | .typeArgs | .args => [.fixed ")"]
  | .typeFields | .methodSigs | .items | .fields | .commands => [.fixed "\x7d"]
  | .exp => behindExp
  | .unary | .primary => ["*", "/", "+", "-", ":"].map .fixed ++ behindExp
  | .field | .command | .ifCommand => [.fixed ";", .fixed "\x7d"]
  | .interface => []

def mayBeEmpty : Nonterminal → Bool
  | .typeFields | .typeArgs | .methodSigs | .args | .items | .fields | .commands
  | .interface => true
  | _ => false

/-- How many nonterminals a phrase opens inside its own before it takes a token. -/
def rank : Nonterminal → Nat
  | .exp | .fields => 1
  | .args | .items | .command => 2
  | .commands => 3
  | _ => 0

/-- The lookahead in which the first tokens of phrases are known as far as phrases that open fewer
than `depth` nonterminals show them. -/
def lookaheadAt : (depth : Nat) → Lookahead Nonterminal
  | 0 => {
      code := terminals.idxOf
      mayBeEmpty := mayBeEmpty
      first := fun _ => 0
      follow := fun n => (behind n).foldl (fun set t => set ||| 2 ^ terminals.idxOf t) 0
      rank := rank }
  | depth + 1 => { lookaheadAt depth with first := fun n => (lookaheadAt depth).firstOf (rules n) }

/-- What the next token tells of scripts. -/
def lookahead : Lookahead Nonterminal := lookaheadAt 4

theorem decides_scriptGrammar : lookahead.Decides scriptGrammar where
  empty n := by cases n <;> decide +kernel
  first n := by cases n <;> decide +kernel
  choices n := by cases n <;> decide +kernel
  height n := by cases n <;> decide +kernel
  rank n := by cases n <;> decide +kernel

end Phrase

end CanisterShell.Syntax
