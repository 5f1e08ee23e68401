import CanisterShell.Proofs.Syntax.Phrasing

/-!
# Texts that are prepared piece by piece

Texts that are joined at a line end are prepared one by one: a comment that ends with the line ends
there, a comment that has to be closed was closed before, and nothing that blanking looks at reaches
across a line end.  Only a quoted text may go on behind it, so the first of the texts must not end
inside one (`prepare_line`).  Without a line end the first must not end in a comment either, which a
parenthesis shows that is left where it stands (`blankFrom_closed`).
-/

namespace CanisterShell.Source

/-! ## The first line -/

theorem blankShebang_of_plain {cs : List Char} (h : ¬['#', '!'] <+: cs) :
    blankShebang cs = cs := by
  rw [blankShebang.eq_def]
  split
  case h_1 rest => exact absurd ⟨rest, rfl⟩ h
  case h_2 => rfl

theorem blankShebang_of_marked {cs : List Char} (h : ['#', '!'] <+: cs) :
    blankShebang cs = if (cs.takeWhile (· ≠ '\n')).length = cs.length then []
      else List.replicate (cs.takeWhile (· ≠ '\n')).length ' ' ++ cs.dropWhile (· ≠ '\n') := by
  obtain ⟨cs, rfl⟩ := h
  rfl

theorem mem_of_blankShebang {cs : List Char} {c : Char} (hc : c ∈ blankShebang cs) :
    c ∈ cs ∨ c = ' ' := by
  by_cases h : ['#', '!'] <+: cs
  case pos =>
    rw [blankShebang_of_marked h] at hc
    split at hc
    case isTrue => cases hc
    case isFalse =>
      obtain hc | hc := List.mem_append.mp hc
      · exact .inr (List.eq_of_mem_replicate hc)
      · exact .inl ((List.dropWhile_suffix _).subset hc)
  case neg =>
    rw [blankShebang_of_plain h] at hc
    exact .inl hc

/-- Blanks stand for what is taken out of the first line, which a line end behind it brings back. -/
theorem blankShebang_line (cs tail : List Char) : ∃ blanks : List Char, (∀ c ∈ blanks, c = ' ') ∧
    blankShebang (cs ++ '\n' :: tail) = blanks ++ (blankShebang cs ++ '\n' :: tail) := by
  by_cases h : ['#', '!'] <+: cs
  case pos =>
    obtain ⟨p, hp, hstop⟩ : ∃ p : Char → Bool, p = (fun c => decide (c ≠ '\n')) ∧ p '\n' = false :=
      ⟨_, rfl, by decide⟩
    have hsplit := congrArg List.length (cs.takeWhile_append_dropWhile (p := p))
    rw [blankShebang_of_marked h, blankShebang_of_marked (h.trans (List.prefix_append cs _)), ← hp,
      List.takeWhile_append, List.dropWhile_append]
    rw [List.length_append] at hsplit
    by_cases hline : (cs.takeWhile p).length = cs.length
    case pos =>
      have hrest : cs.dropWhile p = [] := List.length_eq_zero_iff.mp (by omega)
      refine ⟨List.replicate cs.length ' ', fun c hc => List.eq_of_mem_replicate hc, ?_⟩
      simp [hline, hrest, hstop]
    case neg =>
      have hrest : cs.dropWhile p ≠ [] := fun h => hline (by rw [h] at hsplit; simpa using hsplit)
      have hlen : ¬(cs.takeWhile p).length = cs.length + (tail.length + 1) := by omega
      refine ⟨[], nofun, ?_⟩
      simp [hline, hrest, hlen]
  case neg =>
    refine ⟨[], nofun, ?_⟩
    rw [blankShebang_of_plain h, blankShebang_of_plain]
    · rfl
    · rintro ⟨rest, hrest⟩
      -- a line end is neither of the two characters
      match cs with
      | [] => cases hrest
      | [c] => cases hrest
      | c :: d :: cs =>
        cases hrest
        exact h ⟨cs, rfl⟩

/-! ## Comments -/

/-- Whether characters that begin inside a text, or outside of texts, end inside one. -/
def endsInText : (inside : Bool) → List Char → Bool
  | inside, [] => inside
  | false, '"' :: cs => endsInText true cs
  | false, _ :: cs => endsInText false cs
  | true, ['\\'] => true
  | true, '\\' :: _ :: cs => endsInText true cs
  | true, '"' :: cs => endsInText false cs
  | true, _ :: cs => endsInText true cs

def Region.isText : Region → Bool
  | .text => true
  | _ => false

def Region.begunAt (start : Nat) : Region → Region
  | .blockComment _ depth => .blockComment start depth
  | r => r

attribute [local simp] blankFrom endsInText Region.isText Region.begunAt

variable {r : Region} {pos : Nat} {cs b : List Char}

theorem ok_of_return {α β : Type} {x : Except Nat α} {f : α → β} {b : β}
    (h : (do return f (← x)) = (.ok b : Except Nat β)) : ∃ a, x = .ok a ∧ f a = b := by
  cases x with
  | error e => cases h
  | ok a => exact ⟨a, rfl, Except.ok.inj h⟩

theorem blankFrom_anywhere (h : blankFrom r pos cs = .ok b) (start pos' : Nat) :
    blankFrom (r.begunAt start) pos' cs = .ok b := by
  fun_induction blankFrom r pos cs generalizing b start pos' with
  | case1 | case6 | case7 | case11 =>
    cases h
    simp
  | case14 => cases h
  | _ =>
    obtain ⟨b', hb, rfl⟩ := ok_of_return h
    simp_all

theorem mem_of_blankFrom (h : blankFrom r pos cs = .ok b) {c : Char} (hc : c ∈ b) :
    c ∈ cs ∨ c = ' ' := by
  fun_induction blankFrom r pos cs generalizing b with
  | case1 | case6 | case7 | case11 =>
    cases h
    exact .inl hc
  | case14 => cases h
  | _ =>
    obtain ⟨b', hb, rfl⟩ := ok_of_return h
    grind

theorem length_of_blankFrom (h : blankFrom r pos cs = .ok b) : b.length = cs.length := by
  fun_induction blankFrom r pos cs generalizing b with
  | case1 | case6 | case7 | case11 =>
    cases h
    rfl
  | case14 => cases h
  | _ =>
    obtain ⟨b', hb, rfl⟩ := ok_of_return h
    simp_all

/-- A mark of two characters does not reach into what is behind them. -/
theorem not_mark_append {p : Prop} {d : Char} {cs tail : List Char}
    (h : ∀ rest, p → cs = d :: rest → False) (htail : p → cs = [] → ∀ e ∈ tail.head?, e ≠ d) :
    ∀ rest, p → cs ++ tail = d :: rest → False := by
  intro rest hp hcs
  cases cs with
  | nil =>
    rw [List.nil_append] at hcs
    exact htail hp rfl d (by rw [hcs]; rfl) rfl
  | cons e cs =>
    obtain ⟨rfl, -⟩ := List.cons.inj hcs
    exact h cs hp rfl

/-! ### Single characters -/

section

variable {c : Char} {rest : List Char}

theorem blankFrom_code_append (hq : c = '"' → False) (hl : ∀ rest, c = '/' → cs = '/' :: rest → False)
    (hb : ∀ rest, c = '/' → cs = '*' :: rest → False)
    (hrest : c = '/' → cs = [] → ∀ e ∈ rest.head?, e ≠ '/' ∧ e ≠ '*') :
    blankFrom .code pos (c :: cs ++ rest) = do
      return [c] ++ (← blankFrom .code (pos + 1) (cs ++ rest)) := by
  rw [List.cons_append, blankFrom]
  · rfl
  · exact hq
  · exact not_mark_append hl fun hc hcs e he => (hrest hc hcs e he).1
  · exact not_mark_append hb fun hc hcs e he => (hrest hc hcs e he).2

theorem ne_backslash (hlast : c = '\\' → cs = [] → False)
    (hescape : ∀ d rest, c = '\\' → cs = d :: rest → False) : c ≠ '\\' := by
  rintro rfl
  cases cs with
  | nil => exact hlast rfl rfl
  | cons d cs => exact hescape d cs rfl rfl

theorem blankFrom_text_append (hc : c ≠ '\\') (hq : c = '"' → False) :
    blankFrom .text pos (c :: cs ++ rest) = do
      return [c] ++ (← blankFrom .text (pos + 1) (cs ++ rest)) := by
  rw [List.cons_append, blankFrom] <;> simp_all

theorem blankFrom_block_append {start depth : Nat}
    (hb : ∀ rest, c = '/' → cs = '*' :: rest → False) (hl : ∀ rest, c = '*' → cs = '/' :: rest → False)
    (hrest : cs = [] → ∀ e ∈ rest.head?, e ≠ '*' ∧ e ≠ '/') :
    blankFrom (.blockComment start depth) pos (c :: cs ++ rest) = do
      return [if c = '\n' then c else ' ']
        ++ (← blankFrom (.blockComment start depth) (pos + 1) (cs ++ rest)) := by
  rw [List.cons_append, blankFrom]
  · rfl
  · exact not_mark_append hb fun _ hcs e he => (hrest hcs e he).1
  · exact not_mark_append hl fun _ hcs e he => (hrest hcs e he).2

theorem endsInText_of_blanked {inText : Bool} {b : List Char}
    (h : endsInText inText ((if c = '\n' then c else ' ') :: b) = false) (htext : inText = false) :
    endsInText false b = false := by
  subst htext
  split at h
  case isTrue hc =>
    subst hc
    exact h
  case isFalse => exact h

end

/-! ### Texts behind each other -/

/-- A line end behind a text that ends outside of texts begins the next one. -/
theorem blankFrom_line (h : blankFrom r pos cs = .ok b) (hend : endsInText r.isText b = false)
    {tail b' : List Char} (htail : blankFrom .code 0 tail = .ok b') :
    blankFrom r pos (cs ++ '\n' :: tail) = .ok (b ++ '\n' :: b') := by
  have htail (pos : Nat) : blankFrom .code pos tail = .ok b' := blankFrom_anywhere htail 0 pos
  fun_induction blankFrom r pos cs generalizing b with
  | case1 | case11 =>
    cases h
    simp [htail]
  | case6 | case7 =>
    cases h
    cases hend
  | case14 => cases h
  | case5 pos c cs hq hl hb ih =>
    obtain ⟨b, hcs, rfl⟩ := ok_of_return h
    rw [blankFrom_code_append hq hl hb, ih hcs]
    · rfl
    · simp_all
    · rintro - - e ⟨⟩
      decide
  | case10 pos c cs hlast hescape hq ih =>
    obtain ⟨b, hcs, rfl⟩ := ok_of_return h
    have hc := ne_backslash hlast hescape
    rw [blankFrom_text_append hc hq, ih hcs]
    · rfl
    · simp_all
  | case18 start depth pos c cs hb hl ih =>
    obtain ⟨b, hcs, rfl⟩ := ok_of_return h
    rw [blankFrom_block_append hb hl, ih hcs (endsInText_of_blanked hend rfl)]
    · rfl
    · rintro - e ⟨⟩
      decide
  | _ =>
    obtain ⟨b, hb, rfl⟩ := ok_of_return h
    simp_all

theorem closed_of_return {x : Except Nat (List Char)} (front : List Char)
    (h : (do return front ++ (← x)) = (.ok (b ++ [')']) : Except Nat (List Char)))
    (hx : ∀ b, x = .ok b → b ≠ []) : ∃ b', x = .ok (b' ++ [')']) ∧ b = front ++ b' := by
  obtain ⟨b₁, hb₁, happend⟩ := ok_of_return h
  obtain rfl | ⟨b', d, rfl⟩ := List.eq_nil_or_concat' b₁
  · exact absurd rfl (hx _ hb₁)
  · rw [← List.append_assoc] at happend
    obtain ⟨rfl, hd⟩ := List.append_inj' happend rfl
    exact ⟨b', by rw [hb₁, hd], rfl⟩

/-- Nothing begins a comment across the place where the texts are joined. -/
def Joins (b tail : List Char) : Prop := b.getLast? = some '/' → ∀ c ∈ tail.head?, c ≠ '/' ∧ c ≠ '*'

theorem Joins.of_append {front b tail : List Char} (h : Joins (front ++ b) tail) : Joins b tail :=
  fun hlast => h (by rw [List.getLast?_append, hlast]; rfl)

/-- If the characters leave a parenthesis that stands behind them, outside of texts and comments, they
leave `tail` there, as `b'`. -/
def Leaves (tail b' : List Char) (r : Region) (pos : Nat) (cs : List Char) : Prop :=
  ∀ b, blankFrom r pos (cs ++ [')']) = .ok (b ++ [')']) → endsInText r.isText b = false →
    Joins b tail → blankFrom r pos (cs ++ tail) = .ok (b ++ b')

theorem Leaves.step {tail b' ds : List Char} {r' : Region} {pos' : Nat} (h : Leaves tail b' r' pos' cs)
    (front : List Char)
    (hparenthesis : blankFrom r pos (ds ++ [')']) = do
      return front ++ (← blankFrom r' pos' (cs ++ [')'])))
    (htail : blankFrom r pos (ds ++ tail) = do return front ++ (← blankFrom r' pos' (cs ++ tail)))
    (hend : ∀ b, endsInText r.isText (front ++ b) = false → endsInText r'.isText b = false) :
    Leaves tail b' r pos ds := by
  intro b hb hclosed hjoins
  rw [hparenthesis] at hb
  obtain ⟨b, hcs, rfl⟩ := closed_of_return front hb fun b hb => by
    rintro rfl
    have := length_of_blankFrom hb
    simp at this
  rw [htail, h b hcs (hend b hclosed) hjoins.of_append, List.append_assoc]
  rfl

/-- What leaves a parenthesis behind it leaves any text that is blanked by itself. -/
theorem blankFrom_closed {tail b' : List Char} (htail : blankFrom .code 0 tail = .ok b') :
    Leaves tail b' r pos cs := by
  fun_induction blankFrom r pos cs with
  | case1 pos =>
    intro b h _ _
    obtain rfl : b = [] := by simpa using h
    exact blankFrom_anywhere htail 0 pos
  | case2 pos cs ih => exact ih.step ['"'] rfl rfl fun _ h => h
  | case3 pos cs ih => exact ih.step [' ', ' '] rfl rfl fun _ h => h
  | case4 pos cs ih => exact ih.step [' ', ' '] rfl rfl fun _ h => h
  | case5 pos c cs hq hl hb ih =>
    intro b h hend hjoins
    refine ih.step [c] (blankFrom_code_append hq hl hb ?_) (blankFrom_code_append hq hl hb ?_)
      (fun b hb => ?_) b h hend hjoins
    · rintro - - e ⟨⟩
      decide
    · rintro rfl rfl
      have h : ['/'] ++ [')'] = b ++ [')'] := Except.ok.inj h
      obtain rfl : ['/'] = b := List.append_cancel_right h
      exact hjoins rfl
    · simp_all
  | case6 pos =>
    intro b h hend
    obtain rfl : b = [] := by simpa using h
    cases hend
  | case7 pos =>
    intro b h hend
    have hb : ['\\'] ++ [')'] = b ++ [')'] := Except.ok.inj h
    obtain rfl : ['\\'] = b := List.append_cancel_right hb
    cases hend
  | case8 pos c cs ih => exact ih.step ['\\', c] rfl rfl fun _ h => h
  | case9 pos cs ih => exact ih.step ['"'] rfl rfl fun _ h => h
  | case10 pos c cs hlast hescape hq ih =>
    have hc := ne_backslash hlast hescape
    exact ih.step [c] (blankFrom_text_append hc hq) (blankFrom_text_append hc hq) fun b hb => by
      simp_all
  | case11 pos =>
    intro b h
    have := congrArg List.getLast? (Except.ok.inj h)
    simp at this
  | case12 pos cs ih => exact ih.step ['\n'] rfl rfl fun _ h => h
  | case13 pos c cs hc ih =>
    have hstep (rest : List Char) : blankFrom .lineComment pos (c :: cs ++ rest) = do
        return [' '] ++ (← blankFrom .lineComment (pos + 1) (cs ++ rest)) := by
      rw [List.cons_append, blankFrom]
      · rfl
      · exact hc
    exact ih.step [' '] (hstep _) (hstep _) fun _ h => h
  | case14 start depth pos =>
    intro b h
    simp at h
  | case15 start depth pos cs ih => exact ih.step [' ', ' '] rfl rfl fun _ h => h
  | case16 start pos cs ih => exact ih.step [' ', ' '] rfl rfl fun _ h => h
  | case17 start pos cs depth ih => exact ih.step [' ', ' '] rfl rfl fun _ h => h
  | case18 start depth pos c cs hb hl ih =>
    intro b h
    -- a comment that goes on is not closed by a parenthesis alone
    have hcs : cs ≠ [] := by
      rintro rfl
      rw [List.cons_append, blankFrom] at h
      · simp at h
      · exact not_mark_append hb (by simp)
      · exact not_mark_append hl (by simp)
    have hnone {rest : List Char} (hnil : cs = []) : ∀ e ∈ rest.head?, e ≠ '*' ∧ e ≠ '/' :=
      absurd hnil hcs
    exact ih.step [if c = '\n' then c else ' '] (blankFrom_block_append hb hl hnone)
      (blankFrom_block_append hb hl hnone) (fun b hend => endsInText_of_blanked hend rfl) b h

/-! ## Prepared texts -/

theorem prepare_of_plain (environ : Environ) (h : '$' ∉ cs) :
    prepare environ cs = blankComments (blankShebang cs) := by
  rw [prepare, blankComments]
  cases hb : blankFrom .code 0 (blankShebang cs) with
  | error e => rfl
  | ok b =>
    have hplain : ∀ c ∈ b, c ≠ '$' := by
      rintro c hc rfl
      obtain hc | hc := mem_of_blankFrom hb hc
      · obtain hc | hc := mem_of_blankShebang hc
        · exact h hc
        · cases hc
      · cases hc
    change expand environ b = _
    rw [expand, expandFrom_eq_ok hplain]

theorem prepare_ok_iff {environ : Environ} (h : '$' ∉ cs) :
    prepare environ cs = .ok b ↔ blankFrom .code 0 (blankShebang cs) = .ok b := by
  rw [prepare_of_plain environ h, blankComments]
  cases hb : blankFrom .code 0 (blankShebang cs) with
  | error e => constructor <;> intro h <;> cases h
  | ok b' => exact ⟨fun h => congrArg _ (Except.ok.inj h), fun h => congrArg _ (Except.ok.inj h)⟩

/-- What is kept in front of a text does not change what the text is prepared to. -/
theorem prepare_behind {environ : Environ} {front prepared : List Char} (hfront : Kept .code .code front)
    (hshebang : ¬['#', '!'] <+: front ++ cs) (hplain : '$' ∉ front ++ cs) :
    prepare environ (front ++ cs) = .ok prepared ↔
      ∃ b, blankFrom .code 0 cs = .ok b ∧ prepared = front ++ b := by
  rw [prepare_ok_iff hplain, blankShebang_of_plain hshebang, hfront]
  constructor
  · intro h
    obtain ⟨b, hb, rfl⟩ := ok_of_return h
    exact ⟨b, blankFrom_anywhere hb 0 0, rfl⟩
  · rintro ⟨b, hb, rfl⟩
    have hb' : blankFrom .code (0 + front.length) cs = .ok b := blankFrom_anywhere hb 0 _
    rw [hb']
    rfl

/-- Texts that are joined at a line end are prepared one by one, if the first of them ends outside of
texts. -/
theorem prepare_line {environ : Environ} {ds b' : List Char} (hcs : '$' ∉ cs) (hds : '$' ∉ ds)
    (hshebang : ¬['#', '!'] <+: ds) (h : prepare environ cs = .ok b) (hend : endsInText false b = false)
    (h' : prepare environ ds = .ok b') : ∃ blanks : List Char, (∀ c ∈ blanks, c = ' ') ∧
      prepare environ (cs ++ '\n' :: ds) = .ok (blanks ++ (b ++ '\n' :: b')) := by
  rw [prepare_ok_iff hcs] at h
  rw [prepare_ok_iff hds, blankShebang_of_plain hshebang] at h'
  obtain ⟨blanks, hblanks, hline⟩ := blankShebang_line cs ds
  have hkept : Kept .code .code blanks := .of_forall fun c hc => by
    rw [hblanks c hc]
    exact .code (by decide) (by decide)
  refine ⟨blanks, hblanks, ?_⟩
  have hdollar : '$' ∉ cs ++ '\n' :: ds := by simp [hcs, hds]
  have hboth : blankFrom .code (0 + blanks.length) (blankShebang cs ++ '\n' :: ds)
      = .ok (b ++ '\n' :: b') := blankFrom_anywhere (blankFrom_line h hend h') 0 _
  rw [prepare_ok_iff hdollar, hline, hkept, hboth]
  rfl

end CanisterShell.Source
