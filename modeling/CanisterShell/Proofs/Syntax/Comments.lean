import CanisterShell.Proofs.Syntax.Blanking
import Mathlib.Data.List.Induction

/-!
# Comments and what is left of them

A source text is a row of stretches: characters of code, quoted texts, comments that end with the line,
and block comments, which hold comments of their own (`Cut`).  Blanking puts blanks in the place of
the comments, their line ends apart, and leaves everything else as it is; it fails exactly if a block
comment in the row is never closed (`blankComments_exact`).

Both directions come from two facts: a stretch is blanked by itself (`Segment.blankFrom_append`), and
every text is a row of stretches, up to its end or to a comment that is never closed
(`segmented`).
-/

namespace CanisterShell.Source

/-! ## Stretches of a text -/

/-- A mark of a block comment begins with the character in front of what is behind it. -/
def BeginsMark (c : Char) (behind : List Char) : Prop :=
  (c = '/' ∧ behind.head? = some '*') ∨ (c = '*' ∧ behind.head? = some '/')

/-- What stands between the marks of a block comment: characters that begin no mark, and block
comments. -/
inductive CommentBody : List Char → Prop
  | nil : CommentBody []
  | char {c : Char} {cs : List Char} (hc : ¬BeginsMark c (cs ++ ['*', '/'])) (h : CommentBody cs) :
    CommentBody (c :: cs)
  | comment {cs ds : List Char} (h : CommentBody cs) (h' : CommentBody ds) :
    CommentBody ('/' :: '*' :: cs ++ '*' :: '/' :: ds)

/-- What stands between the quotes of a text: a backslash takes the character behind it along. -/
inductive TextBody : List Char → Prop
  | nil : TextBody []
  | char {c : Char} {cs : List Char} (hq : c ≠ '"') (hb : c ≠ '\\') (h : TextBody cs) :
    TextBody (c :: cs)
  | escape {c : Char} {cs : List Char} (h : TextBody cs) : TextBody ('\\' :: c :: cs)

/-- What stands behind the quote of a text that is not closed: a backslash may be the last character. -/
def OpenBody (cs : List Char) : Prop := TextBody cs ∨ ∃ front, TextBody front ∧ cs = front ++ ['\\']

/-- A stretch of a source text. -/
inductive Segment where
  | code (c : Char)
  | text (body : List Char)
  | openText (body : List Char)
  | lineComment (body : List Char)
  | blockComment (body : List Char)

namespace Segment

def chars : Segment → List Char
  | code c => [c]
  | text body => '"' :: body ++ ['"']
  | openText body => '"' :: body
  | lineComment body => '/' :: '/' :: body
  | blockComment body => '/' :: '*' :: body ++ ['*', '/']

def isComment : Segment → Bool
  | lineComment _ | blockComment _ => true
  | code _ | text _ | openText _ => false

/-- A stretch may stand in front of some characters: code begins no text and no comment, a text that
is not closed goes on to the end, and a comment that ends with the line goes on to the line end. -/
def Fits (behind : List Char) : Segment → Prop
  | code c => c ≠ '"' ∧ (c = '/' → ∀ d ∈ behind.head?, d ≠ '/' ∧ d ≠ '*')
  | text body => TextBody body
  | openText body => behind = [] ∧ OpenBody body
  | lineComment body => '\n' ∉ body ∧ ∀ d ∈ behind.head?, d = '\n'
  | blockComment body => CommentBody body

end Segment

/-- What a character of a comment leaves. -/
def blank (c : Char) : Char := if c = '\n' then c else ' '

/-- What a stretch leaves. -/
def Segment.blanked (s : Segment) : List Char := if s.isComment then s.chars.map blank else s.chars

/-- The characters of a row of stretches. -/
def charsOf (segments : List Segment) : List Char := segments.flatMap Segment.chars

/-- What a row of stretches leaves. -/
def blankedOf (segments : List Segment) : List Char := segments.flatMap Segment.blanked

/-- A row of stretches into which a text is cut, in front of some characters. -/
def Cut (behind : List Char) : List Segment → Prop
  | [] => True
  | s :: segments => s.Fits (charsOf segments ++ behind) ∧ Cut behind segments

/-- Behind the mark with which a block comment begins, it is never closed. -/
def Unclosed (cs : List Char) : Prop :=
  ∀ body rest, cs = body ++ '*' :: '/' :: rest → ¬CommentBody body

/-! ## What a stretch leaves -/

variable {behind cs ds b : List Char} {segments : List Segment}

attribute [local simp] blankFrom

theorem map_append_map {x : Except Nat (List Char)} :
    (b ++ ·) <$> (ds ++ ·) <$> x = ((b ++ ds) ++ ·) <$> x := by
  simp only [Functor.map_map, List.append_assoc]

theorem TextBody.kept (h : TextBody cs) : Kept .text .text cs := by
  induction h with
  | nil => exact .nil
  | char hq hb _ ih => exact (Kept.text hq hb).append ih
  | @escape c cs _ ih =>
    have first : Kept .text .text ['\\', c] := fun pos rest => rfl
    exact first.append ih

theorem blankFrom_lineComment (h : '\n' ∉ cs) (pos : Nat) :
    blankFrom .lineComment pos (cs ++ behind) =
      (cs.map blank ++ ·) <$> blankFrom .lineComment (pos + cs.length) behind := by
  induction cs generalizing pos with
  | nil => exact (Kept.nil pos behind)
  | cons c cs ih =>
    rw [List.mem_cons, not_or] at h
    have first : blankFrom .lineComment pos (c :: cs ++ behind) =
        ([blank c] ++ ·) <$> blankFrom .lineComment (pos + 1) (cs ++ behind) := by
      rw [List.cons_append, blankFrom, blank, if_neg (Ne.symm h.1)]
      · rfl
      · exact fun hc => h.1 hc.symm
    rw [first, ih h.2, map_append_map, List.length_cons, Nat.add_assoc, Nat.add_comm 1]
    rfl

theorem blankFrom_lineEnd (h : ∀ d ∈ behind.head?, d = '\n') (pos : Nat) :
    blankFrom .lineComment pos behind = blankFrom .code pos behind := by
  cases behind with
  | nil => simp
  | cons d behind =>
    obtain rfl := h d rfl
    simp

theorem blankFrom_blockComment {c : Char} (h : ¬BeginsMark c cs) (start depth pos : Nat) :
    blankFrom (.blockComment start depth) pos (c :: cs) =
      ([blank c] ++ ·) <$> blankFrom (.blockComment start depth) (pos + 1) cs := by
  rw [blankFrom]
  · rfl
  · rintro rest rfl rfl
    exact h (.inl ⟨rfl, rfl⟩)
  · rintro rest rfl rfl
    exact h (.inr ⟨rfl, rfl⟩)

theorem beginsMark_append {c : Char} :
    BeginsMark c (cs ++ '*' :: '/' :: ds) ↔ BeginsMark c (cs ++ ['*', '/']) := by
  cases cs <;> rfl

theorem CommentBody.blankFrom (h : CommentBody cs) (start depth pos : Nat) (rest : List Char) :
    blankFrom (.blockComment start depth) pos (cs ++ '*' :: '/' :: rest) =
      (cs.map blank ++ ·) <$>
        blankFrom (.blockComment start depth) (pos + cs.length) ('*' :: '/' :: rest) := by
  induction h generalizing depth pos rest with
  | nil => exact Kept.nil pos _
  | @char c cs hc _ ih =>
    rw [List.cons_append, blankFrom_blockComment (beginsMark_append.not.mpr hc), ih, map_append_map,
      List.length_cons, Nat.add_assoc, Nat.add_comm 1]
    rfl
  | @comment cs ds _ _ ih ih' =>
    have opened : Source.blankFrom (.blockComment start depth) pos
          ('/' :: '*' :: cs ++ '*' :: '/' :: ds ++ '*' :: '/' :: rest) =
        ([' ', ' '] ++ ·) <$> Source.blankFrom (.blockComment start (depth + 1)) (pos + 2)
          (cs ++ '*' :: '/' :: (ds ++ '*' :: '/' :: rest)) := by
      simp
    have closed : Source.blankFrom (.blockComment start (depth + 1)) (pos + 2 + cs.length)
          ('*' :: '/' :: (ds ++ '*' :: '/' :: rest)) =
        ([' ', ' '] ++ ·) <$> Source.blankFrom (.blockComment start depth) (pos + 2 + cs.length + 2)
          (ds ++ '*' :: '/' :: rest) := rfl
    rw [opened, ih, closed, ih', map_append_map, map_append_map, map_append_map]
    have hlen : pos + 2 + cs.length + 2 + ds.length =
        pos + ('/' :: '*' :: cs ++ '*' :: '/' :: ds).length := by
      simp
      omega
    rw [hlen]
    simp [blank]

theorem blankFrom_line_append (hline : '\n' ∉ cs) (hbehind : ∀ d ∈ behind.head?, d = '\n')
    (pos : Nat) : blankFrom .code pos (Segment.chars (.lineComment cs) ++ behind) =
      (Segment.blanked (.lineComment cs) ++ ·) <$>
        blankFrom .code (pos + (Segment.chars (.lineComment cs)).length) behind := by
  have hmark : blankFrom .code pos (Segment.chars (.lineComment cs) ++ behind) =
      ([' ', ' '] ++ ·) <$> blankFrom .lineComment (pos + 2) (cs ++ behind) := rfl
  have hlen : pos + 2 + cs.length = pos + (Segment.chars (.lineComment cs)).length := by
    simp only [Segment.chars, List.length_cons]
    omega
  rw [hmark, blankFrom_lineComment hline, map_append_map, blankFrom_lineEnd hbehind, hlen]
  rfl

/-- A block comment is blanked with its marks. -/
theorem CommentBody.blankFrom_append (h : CommentBody cs) (pos : Nat) :
    Source.blankFrom .code pos (Segment.chars (.blockComment cs) ++ behind) =
      (Segment.blanked (.blockComment cs) ++ ·) <$>
        Source.blankFrom .code (pos + (Segment.chars (.blockComment cs)).length) behind := by
  have hmark : Source.blankFrom .code pos (Segment.chars (.blockComment cs) ++ behind) =
      ([' ', ' '] ++ ·) <$> Source.blankFrom (.blockComment pos 0) (pos + 2)
        (cs ++ '*' :: '/' :: behind) := by
    simp [Segment.chars]
  have hclose (pos' : Nat) : Source.blankFrom (.blockComment pos 0) pos' ('*' :: '/' :: behind) =
      ([' ', ' '] ++ ·) <$> Source.blankFrom .code (pos' + 2) behind := rfl
  have hlen : pos + 2 + cs.length + 2 = pos + (Segment.chars (.blockComment cs)).length := by
    simp only [Segment.chars, List.length_cons, List.length_append, List.length_nil]
    omega
  have hblanked : [' ', ' '] ++ cs.map blank ++ [' ', ' '] =
      Segment.blanked (.blockComment cs) := by
    simp [Segment.blanked, Segment.isComment, Segment.chars, blank]
  rw [hmark, h.blankFrom, hclose, map_append_map, map_append_map, hlen, hblanked]

/-- A stretch is blanked by itself. -/
theorem Segment.blankFrom_append {s : Segment} (h : s.Fits behind) (pos : Nat) :
    blankFrom .code pos (s.chars ++ behind) =
      (s.blanked ++ ·) <$> blankFrom .code (pos + s.chars.length) behind := by
  have hopen : Kept .code .text ['"'] := fun pos rest => rfl
  cases s with
  | code c =>
    rw [Segment.chars, List.singleton_append, blankFrom]
    · rfl
    · exact h.1
    · rintro rest hc rfl
      exact (h.2 hc '/' rfl).1 rfl
    · rintro rest hc rfl
      exact (h.2 hc '*' rfl).2 rfl
  | text body =>
    have hclose : Kept .text .code ['"'] := fun pos rest => rfl
    exact (hopen.append h.kept).append hclose pos behind
  | openText body =>
    obtain ⟨rfl, hbody | ⟨front, hfront, rfl⟩⟩ := h
    · exact hopen.append hbody.kept pos []
    · -- the backslash has nothing behind it to take along
      have hfront := hopen.append hfront.kept pos ['\\']
      rw [List.append_assoc] at hfront
      rw [List.append_nil]
      exact hfront.trans
        (congrArg Except.ok (by simp [Segment.blanked, Segment.isComment, Segment.chars]))
  | lineComment body => exact blankFrom_line_append h.1 h.2 pos
  | blockComment body => exact CommentBody.blankFrom_append h pos

/-- The stretches of a row are blanked one by one. -/
theorem Cut.blankFrom_append (h : Cut behind segments) (pos : Nat) :
    blankFrom .code pos (charsOf segments ++ behind) =
      (blankedOf segments ++ ·) <$> blankFrom .code (pos + (charsOf segments).length) behind := by
  induction segments generalizing pos with
  | nil => exact Kept.nil pos behind
  | cons s segments ih =>
    rw [charsOf, List.flatMap_cons, ← charsOf, List.append_assoc, Segment.blankFrom_append h.1,
      ih h.2, map_append_map, List.length_append, Nat.add_assoc]
    rfl

/-! ## Comments that are never closed -/

/-- As many block comments as are open, and one more, are closed. -/
def Closed : (depth : Nat) → List Char → Prop
  | 0, cs => ∃ body rest, cs = body ++ '*' :: '/' :: rest ∧ CommentBody body
  | depth + 1, cs => ∃ body rest, cs = body ++ '*' :: '/' :: rest ∧ CommentBody body ∧ Closed depth rest

namespace Closed

variable {depth : Nat}

/-- What is open is closed behind a body; what stands in front of it may belong to the body. -/
theorem of_body (front : List Char) (h : Closed depth cs)
    (hbody : ∀ body rest, cs = body ++ '*' :: '/' :: rest → CommentBody body →
      CommentBody (front ++ body)) : Closed depth (front ++ cs) := by
  cases depth with
  | zero =>
    obtain ⟨body, rest, rfl, h⟩ := h
    exact ⟨front ++ body, rest, by simp, hbody body rest rfl h⟩
  | succ depth =>
    obtain ⟨body, rest, rfl, h, hrest⟩ := h
    exact ⟨front ++ body, rest, by simp, hbody body rest rfl h, hrest⟩

theorem char {c : Char} (hc : ¬BeginsMark c cs) (h : Closed depth cs) : Closed depth (c :: cs) :=
  h.of_body [c] fun body rest hcs hbody => .char (by rwa [hcs, beginsMark_append] at hc) hbody

theorem comment (h : Closed (depth + 1) cs) : Closed depth ('/' :: '*' :: cs) := by
  obtain ⟨inner, rest, rfl, hinner, h⟩ := h
  have := h.of_body ('/' :: '*' :: inner ++ ['*', '/']) fun body rest _ hbody => by
    simpa using CommentBody.comment hinner hbody
  simpa using this

end Closed

/-- A block comment is closed, with all those around it, or the outermost is what blanking fails
with. -/
theorem error_or_closed (start depth pos : Nat) (cs : List Char) :
    blankFrom (.blockComment start depth) pos cs = .error start ∨ Closed depth cs := by
  generalize hr : Region.blockComment start depth = r
  fun_induction blankFrom r pos cs generalizing depth with
  | case14 =>
    cases hr
    exact .inl rfl
  | case15 start depth pos rest ih =>
    cases hr
    refine (ih _ rfl).imp (fun h => ?_) Closed.comment
    rw [h]
    rfl
  | case16 start pos rest =>
    cases hr
    exact .inr ⟨[], rest, rfl, .nil⟩
  | case17 start pos rest depth ih =>
    cases hr
    refine (ih _ rfl).imp (fun h => ?_) fun h => ⟨[], rest, rfl, .nil, h⟩
    rw [h]
    rfl
  | case18 start depth pos c rest hopens hcloses ih =>
    cases hr
    refine (ih _ rfl).imp (fun h => ?_) (Closed.char ?_)
    · rw [h]
      rfl
    · rintro (⟨hc, h⟩ | ⟨hc, h⟩)
      · obtain ⟨rest, rfl⟩ := List.head?_eq_some_iff.mp h
        exact hopens rest hc rfl
      · obtain ⟨rest, rfl⟩ := List.head?_eq_some_iff.mp h
        exact hcloses rest hc rfl
  -- elsewhere than in a block comment nothing is claimed
  | _ => cases hr

theorem Unclosed.blankFrom (h : Unclosed cs) (start pos : Nat) :
    blankFrom (.blockComment start 0) pos cs = .error start := by
  refine (error_or_closed start 0 pos cs).resolve_right ?_
  rintro ⟨body, rest, hcs, hbody⟩
  exact h body rest hcs hbody

/-! ## Every text is a row of stretches -/

theorem exists_textBody_append (front : List Char)
    (hfront : ∀ body, TextBody body → TextBody (front ++ body))
    (h : (∃ body rest, TextBody body ∧ cs = body ++ '"' :: rest) ∨ OpenBody cs) :
    (∃ body rest, TextBody body ∧ front ++ cs = body ++ '"' :: rest) ∨ OpenBody (front ++ cs) := by
  obtain ⟨body, rest, hbody, rfl⟩ | hbody | ⟨body, hbody, rfl⟩ := h
  · exact .inl ⟨front ++ body, rest, hfront body hbody, by rw [List.append_assoc]⟩
  · exact .inr (.inl (hfront _ hbody))
  · exact .inr (.inr ⟨front ++ body, hfront body hbody, by rw [List.append_assoc]⟩)

theorem exists_textBody (cs : List Char) :
    (∃ body rest, TextBody body ∧ cs = body ++ '"' :: rest) ∨ OpenBody cs := by
  induction cs using List.twoStepInduction with
  | nil => exact .inr (.inl .nil)
  | singleton c =>
    by_cases hq : c = '"'
    · exact .inl ⟨[], [], .nil, by rw [hq]; rfl⟩
    by_cases hb : c = '\\'
    · exact .inr (.inr ⟨[], .nil, by rw [hb]; rfl⟩)
    · exact .inr (.inl (.char hq hb .nil))
  | cons_cons c d cs ih ih' =>
    by_cases hq : c = '"'
    · exact .inl ⟨[], d :: cs, .nil, by rw [hq]; rfl⟩
    by_cases hb : c = '\\'
    · rw [hb]
      exact exists_textBody_append ['\\', d] (fun _ => .escape) ih
    · exact exists_textBody_append [c] (fun _ => .char hq hb) (ih' d)

/-- A text is a row of stretches, to its end or to a comment that is never closed. -/
def Segmented (cs : List Char) : Prop := ∃ segments behind, cs = charsOf segments ++ behind ∧
  Cut behind segments ∧ (behind = [] ∨ ∃ rest, behind = '/' :: '*' :: rest ∧ Unclosed rest)

theorem Segmented.cons {s : Segment} (hs : s.Fits cs) (h : Segmented cs) :
    Segmented (s.chars ++ cs) := by
  obtain ⟨segments, behind, rfl, hcut, hbehind⟩ := h
  exact ⟨s :: segments, behind, (List.append_assoc ..).symm, ⟨hs, hcut⟩, hbehind⟩

theorem exists_line (cs : List Char) :
    ∃ line behind, cs = line ++ behind ∧ '\n' ∉ line ∧ ∀ d ∈ behind.head?, d = '\n' := by
  induction cs with
  | nil => exact ⟨[], [], rfl, nofun, nofun⟩
  | cons c cs ih =>
    by_cases hc : c = '\n'
    · exact ⟨[], c :: cs, rfl, nofun, fun d hd => by cases hd; exact hc⟩
    · obtain ⟨line, behind, rfl, hline, hbehind⟩ := ih
      refine ⟨c :: line, behind, rfl, ?_, hbehind⟩
      rw [List.mem_cons, not_or]
      exact ⟨Ne.symm hc, hline⟩

/-- Every text is a row of stretches as far as there are no comments that are never closed. -/
theorem segmented (cs : List Char) : Segmented cs := by
  -- a stretch takes any number of characters, so what is left of the text is shorter, and no more
  induction hn : cs.length using Nat.strong_induction_on generalizing cs with
  | _ n ih =>
    have shorter (front rest : List Char) (hcs : cs = front ++ rest) (hfront : front ≠ []) :
        Segmented rest := by
      refine ih rest.length ?_ rest rfl
      rw [← hn, hcs, List.length_append]
      have := List.length_pos_iff.mpr hfront
      omega
    have nil : Segmented [] := ⟨[], [], rfl, trivial, .inl rfl⟩
    cases cs with
    | nil => exact nil
    | cons c cs =>
      by_cases hq : c = '"'
      · subst hq
        obtain ⟨body, rest, hbody, rfl⟩ | hbody := exists_textBody cs
        · have := (shorter ('"' :: body ++ ['"']) rest (by simp) nofun).cons (s := .text body) hbody
          simpa [Segment.chars] using this
        · have := nil.cons (s := .openText cs) ⟨rfl, hbody⟩
          simpa [Segment.chars] using this
      by_cases hmark : c = '/' ∧ ∃ d ∈ cs.head?, d = '/' ∨ d = '*'
      · obtain ⟨rfl, d, hd, hmark⟩ := hmark
        obtain ⟨cs, rfl⟩ := List.head?_eq_some_iff.mp hd
        obtain rfl | rfl := hmark
        · obtain ⟨line, behind, rfl, hline⟩ := exists_line cs
          exact (shorter ('/' :: '/' :: line) behind rfl nofun).cons (s := .lineComment line) hline
        by_cases hcs : Unclosed cs
        · exact ⟨[], '/' :: '*' :: cs, rfl, trivial, .inr ⟨cs, rfl, hcs⟩⟩
        · obtain ⟨body, rest, rfl, hbody⟩ : ∃ body rest, cs = body ++ '*' :: '/' :: rest ∧
              CommentBody body := by
            simpa [Unclosed] using hcs
          have := (shorter ('/' :: '*' :: body ++ ['*', '/']) rest (by simp) nofun).cons
            (s := .blockComment body) hbody
          simpa [Segment.chars] using this
      · refine (shorter [c] cs rfl nofun).cons (s := .code c) ⟨hq, fun hc d hd => ?_⟩
        exact not_or.mp fun h => hmark ⟨hc, d, hd, h⟩

/-! ## What blanking changes -/

def Leaving (c d : Char) : Prop := d = c ∨ c ≠ '\n' ∧ d = ' '

theorem Leaving.blank (c : Char) : Leaving c (blank c) := by
  rw [Source.blank]
  split
  case isTrue => exact .inl rfl
  case isFalse h => exact .inr ⟨h, rfl⟩

theorem Segment.leaving (s : Segment) : List.Forall₂ Leaving s.chars s.blanked := by
  rw [Segment.blanked]
  split
  case isTrue => exact List.forall₂_map_right_iff.mpr (List.forall₂_same.mpr fun c _ => .blank c)
  case isFalse => exact List.forall₂_same.mpr fun c _ => .inl rfl

theorem leaving_of_segments (segments : List Segment) :
    List.Forall₂ Leaving (charsOf segments) (blankedOf segments) := by
  induction segments with
  | nil => exact .nil
  | cons s segments ih => exact List.rel_append s.leaving ih

theorem getElem?_of_leaving {i : ℕ} (h : List.Forall₂ Leaving cs ds) :
    (∀ c, cs[i]? = some c → ∃ d, ds[i]? = some d ∧ Leaving c d) ∧
    ∀ d, ds[i]? = some d → ∃ c, cs[i]? = some c ∧ Leaving c d := by
  induction h generalizing i with
  | nil => simp
  | @cons c d cs ds hcd _ ih =>
    cases i with
    | zero => simpa using hcd
    | succ i => simpa using ih

theorem places_of_segments (segments : List Segment) :
    (blankedOf segments).length = (charsOf segments).length ∧
    (∀ i : ℕ, (blankedOf segments)[i]? = some '\n' ↔ (charsOf segments)[i]? = some '\n') ∧
    ∀ (i : ℕ) c, (charsOf segments)[i]? = some c →
      (blankedOf segments)[i]? = some c ∨ (blankedOf segments)[i]? = some ' ' := by
  have hleaving := leaving_of_segments segments
  refine ⟨hleaving.length_eq.symm, fun i => ⟨fun hi => ?_, fun hi => ?_⟩, fun i c hi => ?_⟩
  · obtain ⟨c, hc, rfl | ⟨-, hblank⟩⟩ := (getElem?_of_leaving hleaving).2 _ hi
    · exact hc
    · cases hblank
  · obtain ⟨d, hd, rfl | ⟨hne, -⟩⟩ := (getElem?_of_leaving hleaving).1 _ hi
    · exact hd
    · exact absurd rfl hne
  · obtain ⟨d, hd, rfl | ⟨-, rfl⟩⟩ := (getElem?_of_leaving hleaving).1 _ hi
    · exact .inl hd
    · exact .inr hd

theorem kept_map_blank (cs : List Char) : Kept .code .code (cs.map blank) := by
  refine .of_forall fun d hd => ?_
  obtain ⟨c, -, rfl⟩ := List.mem_map.mp hd
  rw [blank]
  split
  case isTrue hc => exact .code (by rw [hc]; decide) (by rw [hc]; decide)
  case isFalse => exact .code (by decide) (by decide)

/-- A stretch that is no comment may stand in front of what is left of the characters behind it. -/
theorem Segment.Fits.blanked {s : Segment} (h : s.Fits cs) (hs : s.isComment = false)
    (hcs : List.Forall₂ Leaving cs ds) : s.Fits ds := by
  cases s with
  | code c =>
    refine ⟨h.1, fun hc d hd => ?_⟩
    cases hcs with
    | nil => cases hd
    | @cons e d' cs ds hde _ =>
      cases hd
      obtain rfl | ⟨-, rfl⟩ := hde
      · exact h.2 hc d rfl
      · decide
  | text body => exact h
  | openText body =>
    obtain ⟨rfl, hbody⟩ := h
    cases hcs
    exact ⟨rfl, hbody⟩
  | lineComment body | blockComment body => cases hs

theorem Cut.blankFrom_blankedOf (h : Cut [] segments) (pos : Nat) :
    blankFrom .code pos (blankedOf segments) = .ok (blankedOf segments) := by
  induction segments generalizing pos with
  | nil => simp [blankedOf]
  | cons s segments ih =>
    obtain ⟨hs, h⟩ := h
    rw [blankedOf, List.flatMap_cons, ← blankedOf]
    by_cases hcomment : s.isComment
    · rw [Segment.blanked, if_pos hcomment, kept_map_blank, ih h]
      rfl
    · rw [Bool.not_eq_true] at hcomment
      rw [List.append_nil] at hs
      have hfits := hs.blanked hcomment (leaving_of_segments segments)
      have hkept : s.blanked = s.chars := by rw [Segment.blanked, hcomment]; rfl
      have := Segment.blankFrom_append hfits pos
      rw [hkept] at this ⊢
      rw [this, ih h]
      rfl

theorem blankComments_of_cut (h : Cut [] segments) :
    blankComments (charsOf segments) = .ok (blankedOf segments) := by
  have hblank := h.blankFrom_append 0
  rw [List.append_nil] at hblank
  rw [blankComments, hblank]
  simp

theorem blankComments_of_unclosed {rest : List Char} (h : Cut ('/' :: '*' :: rest) segments)
    (hrest : Unclosed rest) : blankComments (charsOf segments ++ '/' :: '*' :: rest) =
      .error ⟨.unterminatedComment, some (Text.spanOf (charsOf segments ++ '/' :: '*' :: rest)
        (charsOf segments).length (charsOf segments).length), ["*/"]⟩ := by
  have hcomment : blankFrom .code (0 + (charsOf segments).length) ('/' :: '*' :: rest) =
      .error (charsOf segments).length := by
    rw [blankFrom, hrest.blankFrom, Nat.zero_add]
    rfl
  rw [blankComments, h.blankFrom_append, hcomment]
  rfl

/-- **Comments** are blanked, their line ends apart, and nothing else is: texts outside of comments are
kept as they are, and so are the places of all characters.  Blanking what is left changes nothing, and
blanking fails exactly if a block comment outside of texts is never closed. -/
theorem blankComments_exact (source : List Char) :
    (∀ blanked, blankComments source = .ok blanked ↔
      ∃ segments, Cut [] segments ∧ source = charsOf segments ∧ blanked = blankedOf segments) ∧
    (∀ blanked, blankComments source = .ok blanked →
      blanked.length = source.length ∧
      (∀ i : ℕ, blanked[i]? = some '\n' ↔ source[i]? = some '\n') ∧
      (∀ (i : ℕ) c, source[i]? = some c → blanked[i]? = some c ∨ blanked[i]? = some ' ') ∧
      blankComments blanked = .ok blanked) ∧
    ∀ e, blankComments source = .error e ↔ ∃ segments rest,
      Cut ('/' :: '*' :: rest) segments ∧ source = charsOf segments ++ '/' :: '*' :: rest ∧
      Unclosed rest ∧ e = ⟨.unterminatedComment,
        some (Text.spanOf source (charsOf segments).length (charsOf segments).length), ["*/"]⟩ := by
  have ok_iff (blanked : List Char) : blankComments source = .ok blanked ↔
      ∃ segments, Cut [] segments ∧ source = charsOf segments ∧ blanked = blankedOf segments := by
    constructor
    · intro hok
      obtain ⟨segments, behind, rfl, h, rfl | ⟨rest, rfl, hrest⟩⟩ := segmented source
      · rw [List.append_nil, blankComments_of_cut h] at hok
        exact ⟨segments, h, List.append_nil _, (Except.ok.inj hok).symm⟩
      · rw [blankComments_of_unclosed h hrest] at hok
        cases hok
    · rintro ⟨segments, h, rfl, rfl⟩
      exact blankComments_of_cut h
  refine ⟨ok_iff, fun blanked hok => ?_, fun e => ⟨fun herror => ?_, ?_⟩⟩
  · obtain ⟨segments, h, rfl, rfl⟩ := (ok_iff blanked).mp hok
    obtain ⟨hlength, hlines, hkept⟩ := places_of_segments segments
    refine ⟨hlength, hlines, hkept, ?_⟩
    rw [blankComments, h.blankFrom_blankedOf]
  · obtain ⟨segments, behind, rfl, h, rfl | ⟨rest, rfl, hrest⟩⟩ := segmented source
    · rw [List.append_nil, blankComments_of_cut h] at herror
      cases herror
    · rw [blankComments_of_unclosed h hrest] at herror
      exact ⟨segments, rest, h, rfl, hrest, (Except.error.inj herror).symm⟩
  · rintro ⟨segments, rest, h, rfl, hrest, rfl⟩
    exact blankComments_of_unclosed h hrest

/-- Marks of comments in a text, and quotes in comments, mean nothing. -/
theorem blankComments_exact_quotes :
    blankComments "a//\"\n\"//\"/*/**/\"*/".toList = .ok "a   \n\"//\"         ".toList ∧
      blankComments "a   \n\"//\"         ".toList = .ok "a   \n\"//\"         ".toList :=
  have left : blankComments "a//\"\n\"//\"/*/**/\"*/".toList = .ok "a   \n\"//\"         ".toList := by
    cbv
  ⟨left, ((blankComments_exact _).2.1 _ left).2.2.2⟩

end CanisterShell.Source
