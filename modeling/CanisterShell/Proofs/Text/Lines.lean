import CanisterShell.Text.Classes
import CanisterShell.Text.Span
import Mathlib.Data.List.Induction

/-!
# Places and lines

The place of a character counts the line feeds in front of it, while the lines of a text end at further
characters as well.  As long as these are only carriage returns in front of line feeds, the line of that
number is the one that holds the character (`lines_of_place`).
-/

namespace CanisterShell.Text

/-! ## Places -/

/-- Lines with a line feed behind each. -/
def fed (ls : List (List Char)) : List Char := ls.flatMap (· ++ ['\n'])

theorem fed_cons (l : List Char) (ls : List (List Char)) : fed (l :: ls) = l ++ '\n' :: fed ls := by
  simp [fed]

/-- The characters in front of a place: whole lines, and those in front of it in its own line. -/
theorem exists_fed (cs : List Char) : ∃ ls front, cs = fed ls ++ front ∧ (∀ l ∈ ls, '\n' ∉ l) ∧
    '\n' ∉ front := by
  induction cs with
  | nil => exact ⟨[], [], rfl, nofun, nofun⟩
  | cons c cs ih =>
    obtain ⟨ls, front, rfl, hls, hfront⟩ := ih
    by_cases hc : c = '\n'
    · exact ⟨[] :: ls, front, by rw [hc]; rfl, List.forall_mem_cons.mpr ⟨nofun, hls⟩, hfront⟩
    have hcons {l : List Char} (hl : '\n' ∉ l) : '\n' ∉ c :: l := fun hmem =>
      (List.mem_cons.mp hmem).elim (fun h => hc h.symm) hl
    cases ls with
    | nil => exact ⟨[], c :: front, rfl, nofun, hcons hfront⟩
    | cons l ls =>
      obtain ⟨hl, hls⟩ := List.forall_mem_cons.mp hls
      exact ⟨(c :: l) :: ls, front, rfl, List.forall_mem_cons.mpr ⟨hcons hl, hls⟩, hfront⟩

theorem count_fed {ls : List (List Char)} (hls : ∀ l ∈ ls, '\n' ∉ l) :
    (fed ls).count '\n' = ls.length := by
  induction ls with
  | nil => rfl
  | cons l ls ih =>
    obtain ⟨hl, hls⟩ := List.forall_mem_cons.mp hls
    rw [fed_cons, List.count_append, List.count_cons_self, ih hls, List.count_eq_zero_of_not_mem hl,
      Nat.zero_add, List.length_cons]

theorem takeWhile_fed {ls : List (List Char)} {front : List Char} (hfront : '\n' ∉ front) :
    (fed ls ++ front).reverse.takeWhile (· ≠ '\n') = front.reverse := by
  have hall : ∀ c ∈ front.reverse, decide (c ≠ '\n') = true := fun c hc => by
    have : c ≠ '\n' := fun h => hfront (h ▸ List.mem_reverse.mp hc)
    simpa using this
  rw [List.reverse_append, List.takeWhile_append_of_pos hall]
  obtain rfl | ⟨ls, l, rfl⟩ := ls.eq_nil_or_concat
  · simp [fed]
  · simp [fed]

theorem place_fed {ls : List (List Char)} {front : List Char} (hls : ∀ l ∈ ls, '\n' ∉ l)
    (hfront : '\n' ∉ front) : place (fed ls ++ front) = (ls.length + 1, front.length + 1) := by
  rw [place, takeWhile_fed hfront, List.count_append, count_fed hls,
    List.count_eq_zero_of_not_mem hfront, List.length_reverse, Nat.add_zero]

/-! ## The line of a place -/

/-- The offset of the end of the line that holds the character at an offset. -/
def lineEnd (source : List Char) (offset : Nat) : Nat :=
  offset + ((source.drop offset).takeWhile (· ≠ '\n')).length

/-- The line that holds the character at an offset, between line feeds. -/
def lineAt (source : List Char) (offset : Nat) : List Char :=
  ((source.take offset).reverse.takeWhile (· ≠ '\n')).reverse
    ++ (source.drop offset).takeWhile (· ≠ '\n')

/-- A line without the carriage return at its end. -/
def withoutReturn (l : List Char) : List Char := if l.getLast? = some '\r' then l.dropLast else l

/-- Characters, in front of others, all of whose line ends are line feeds, perhaps behind carriage
returns. -/
def EndsInFeeds (cs behind : List Char) : Prop := ∀ before c after, cs = before ++ c :: after →
  endsLine c = true → c = '\n' ∨ c = '\r' ∧ (after ++ behind).head? = some '\n'

namespace EndsInFeeds

variable {cs ds behind : List Char}

theorem front (h : EndsInFeeds (cs ++ ds) behind) : EndsInFeeds cs (ds ++ behind) := by
  rintro before c after rfl hc
  have := h before c (after ++ ds) (by simp) hc
  rwa [List.append_assoc] at this

theorem back (cs : List Char) (h : EndsInFeeds (cs ++ ds) behind) : EndsInFeeds ds behind := by
  rintro before c after rfl hc
  exact h (cs ++ before) c after (by simp) hc

theorem of_forall (h : ∀ c ∈ cs, endsLine c = true → c = '\n') : EndsInFeeds cs behind := by
  rintro before c after rfl hc
  exact .inl (h c (List.mem_append_right _ (.head after)) hc)

theorem take (h : EndsInFeeds cs []) (n : Nat) : EndsInFeeds (cs.take n) (cs.drop n) := by
  rw [← cs.take_append_drop n] at h
  simpa using h.front

theorem head {c : Char} (h : EndsInFeeds (c :: cs) behind) (hfeed : '\n' ∉ c :: cs)
    (hc : endsLine c = true) : c = '\r' ∧ cs = [] ∧ behind.head? = some '\n' := by
  rw [List.mem_cons, not_or] at hfeed
  obtain hnewline | ⟨hreturn, hhead⟩ := h [] c cs rfl hc
  · exact absurd hnewline.symm hfeed.1
  · cases cs with
    | nil => exact ⟨hreturn, rfl, hhead⟩
    | cons d cs =>
      cases hhead
      exact absurd (.head cs) hfeed.2

end EndsInFeeds

theorem withoutReturn_cons {c : Char} (hc : c ≠ '\r') (l : List Char) :
    withoutReturn (c :: l) = c :: withoutReturn l := by
  cases l with
  | nil => simp [withoutReturn, hc]
  | cons d l =>
    rw [withoutReturn, withoutReturn, List.getLast?_cons_cons]
    split <;> rfl

theorem getElem?_withoutReturn {l : List Char} {i : Nat} {c : Char} (h : l[i]? = some c)
    (hc : c ≠ '\r') : (withoutReturn l)[i]? = some c := by
  rw [withoutReturn]
  split
  case isTrue hlast =>
    -- what stands last is the carriage return
    have hne : i ≠ l.length - 1 := by
      rintro rfl
      rw [← List.getLast?_eq_getElem?, hlast] at h
      exact hc (Option.some.inj h).symm
    have hlt := (List.getElem?_eq_some_iff.mp h).1
    rw [List.getElem?_dropLast, if_pos (by omega), h]
  case isFalse => exact h

/-! ## Lines -/

theorem splitLines_cons {acc rest : List Char} {c : Char} (hc : endsLine c = false) :
    splitLines acc (c :: rest) = splitLines (c :: acc) rest := by
  have hne : c ≠ '\r' := by
    rintro rfl
    cases hc
  rw [splitLines, hc]
  · rfl
  · exact fun _ h => absurd h hne

theorem splitLines_line {l behind acc : List Char} (h : EndsInFeeds l behind) (hfeed : '\n' ∉ l)
    (hbehind : behind.head? = some '\n' ∨ behind = [] ∧ (acc ≠ [] ∨ l ≠ [])) :
    splitLines acc (l ++ behind)
      = (acc.reverse ++ withoutReturn l) :: splitLines [] behind.tail := by
  induction l generalizing acc with
  | nil =>
    obtain hhead | ⟨rfl, hne⟩ := hbehind
    · cases behind with
      | nil => cases hhead
      | cons c behind =>
        cases hhead
        rw [List.nil_append, splitLines]
        · simp [withoutReturn, endsLine]
        · exact fun _ h => absurd h (by decide)
    · simp only [not_true_eq_false, or_false, ne_eq] at hne
      simp [splitLines, withoutReturn, hne]
  | cons c l ih =>
    by_cases hc : endsLine c = true
    case pos =>
      obtain ⟨rfl, rfl, hhead⟩ := h.head hfeed hc
      cases behind with
      | nil => cases hhead
      | cons d behind =>
        cases hhead
        simp [splitLines, withoutReturn]
    case neg =>
      rw [Bool.not_eq_true] at hc
      have hne : c ≠ '\r' := by
        rintro rfl
        cases hc
      rw [List.cons_append, splitLines_cons hc, ih (h.back [c])
        (fun hmem => hfeed (.tail c hmem)), withoutReturn_cons hne]
      · simp
      · exact hbehind.imp_right fun ⟨hnil, _⟩ => ⟨hnil, .inl (List.cons_ne_nil c acc)⟩

theorem splitLines_fed {ls : List (List Char)} {behind : List Char} (hls : ∀ l ∈ ls, '\n' ∉ l)
    (h : EndsInFeeds (fed ls) behind) :
    splitLines [] (fed ls ++ behind) = ls.map withoutReturn ++ splitLines [] behind := by
  induction ls with
  | nil => rfl
  | cons l ls ih =>
    obtain ⟨hl, hls⟩ := List.forall_mem_cons.mp hls
    rw [fed_cons] at h ⊢
    have hline : EndsInFeeds l ('\n' :: (fed ls ++ behind)) := h.front
    rw [List.append_assoc, List.cons_append, splitLines_line hline hl (.inl rfl)]
    exact congrArg _ (ih hls (EndsInFeeds.back ['\n'] (EndsInFeeds.back l h)))

theorem not_mem_splitLines {acc cs l : List Char} (hacc : '\n' ∉ acc) (hl : l ∈ splitLines acc cs) :
    '\n' ∉ l := by
  fun_induction splitLines acc cs with
  | case1 acc =>
    cases hl
  | case2 acc =>
    rw [List.mem_singleton.mp hl]
    simpa using hacc
  | case3 acc cs ih =>
    obtain rfl | hl := List.mem_cons.mp hl
    · simpa using hacc
    · exact ih nofun hl
  | case4 acc c cs _ _ ih =>
    obtain rfl | hl := List.mem_cons.mp hl
    · simpa using hacc
    · exact ih nofun hl
  | case5 acc c cs _ hc ih =>
    refine ih (fun hmem => ?_) hl
    obtain rfl | hmem := List.mem_cons.mp hmem
    · exact hc (by decide)
    · exact hacc hmem

theorem not_mem_lines {text l : String} (hl : l ∈ lines text) : '\n' ∉ l.toList := by
  obtain ⟨l, hmem, rfl⟩ := List.mem_map.mp hl
  rw [String.toList_ofList]
  exact not_mem_splitLines List.not_mem_nil hmem

/-- A text around a character: the lines in front of its own, its own line, and what is behind that. -/
theorem exists_line {source : List Char} {offset : Nat} {c : Char} (hc : source[offset]? = some c)
    (hne : c ≠ '\n') : ∃ ls front back rest, source = fed ls ++ (front ++ c :: back) ++ rest ∧
      offset = (fed ls ++ front).length ∧ (∀ l ∈ ls, '\n' ∉ l) ∧ '\n' ∉ front ++ c :: back ∧
      '\n' ∉ front ∧ (rest.head? = some '\n' ∨ rest = []) := by
  obtain ⟨hlt, rfl⟩ := List.getElem?_eq_some_iff.mp hc
  obtain ⟨ls, front, htake, hls, hfront⟩ := exists_fed (source.take offset)
  have hdrop : source.drop offset = source[offset] :: source.drop (offset + 1) :=
    List.drop_eq_getElem_cons hlt
  refine ⟨ls, front, (source.drop (offset + 1)).takeWhile (· ≠ '\n'),
    (source.drop (offset + 1)).dropWhile (· ≠ '\n'), ?_, ?_, hls, ?_, hfront, ?_⟩
  · rw [← List.append_assoc, ← htake, List.append_assoc, List.cons_append,
      List.takeWhile_append_dropWhile, ← hdrop, List.take_append_drop]
  · rw [← htake, List.length_take_of_le (Nat.le_of_lt hlt)]
  · intro hmem
    obtain hmem | hmem := List.mem_append.mp hmem
    · exact hfront hmem
    obtain hfeed | hmem := List.mem_cons.mp hmem
    · exact hne hfeed.symm
    · simpa using List.all_eq_true.mp List.all_takeWhile _ hmem
  · cases hrest : (source.drop (offset + 1)).dropWhile (· ≠ '\n') with
    | nil => exact .inr rfl
    | cons d rest =>
      have hd := List.head?_dropWhile_not (· ≠ '\n') (source.drop (offset + 1))
      rw [hrest] at hd
      simpa using hd

section

variable {ls : List (List Char)} {front back rest : List Char} {c : Char}

theorem placeOf_line (hls : ∀ l ∈ ls, '\n' ∉ l) (hfront : '\n' ∉ front) :
    placeOf (fed ls ++ (front ++ c :: back) ++ rest) (fed ls ++ front).length
      = (ls.length + 1, front.length + 1) := by
  have htake : (fed ls ++ (front ++ c :: back) ++ rest).take (fed ls ++ front).length
      = fed ls ++ front := by
    rw [← List.append_assoc, List.append_assoc, List.take_left]
  rw [placeOf, htake, place_fed hls hfront]
  simp

theorem lineAt_line (ls : List (List Char)) (hfront : '\n' ∉ front) (hback : '\n' ∉ c :: back)
    (hrest : rest.head? = some '\n' ∨ rest = []) :
    lineAt (fed ls ++ (front ++ c :: back) ++ rest) (fed ls ++ front).length = front ++ c :: back ∧
      lineEnd (fed ls ++ (front ++ c :: back) ++ rest) (fed ls ++ front).length
        = (fed ls ++ (front ++ c :: back)).length := by
  have hsource : fed ls ++ (front ++ c :: back) ++ rest
      = (fed ls ++ front) ++ (c :: back ++ rest) := by simp
  have hall : ∀ d ∈ c :: back, decide (d ≠ '\n') = true := fun d hd => by
    have : d ≠ '\n' := fun h => hback (h ▸ hd)
    simpa using this
  have hnone : rest.takeWhile (· ≠ '\n') = [] := by
    cases rest with
    | nil => rfl
    | cons d rest =>
      obtain hd | hd := hrest
      · cases hd
        rfl
      · cases hd
  have hwhile : (c :: back ++ rest).takeWhile (· ≠ '\n') = c :: back := by
    rw [List.takeWhile_append_of_pos hall, hnone, List.append_nil]
  rw [hsource, lineAt, lineEnd, List.take_left, List.drop_left, hwhile, takeWhile_fed hfront,
    List.reverse_reverse]
  exact ⟨rfl, by simp [Nat.add_assoc]⟩

end

/-- The line that has the number of a place is the one that holds the character there, without the
carriage return at its end, and the column is that of the character. -/
theorem lines_of_place {text : String} {offset : Nat} {c : Char} (hc : text.toList[offset]? = some c)
    (hne : c ≠ '\n')
    (h : EndsInFeeds (text.toList.take (lineEnd text.toList offset))
      (text.toList.drop (lineEnd text.toList offset))) :
    (lines text)[(placeOf text.toList offset).1 - 1]?
      = some (String.ofList (withoutReturn (lineAt text.toList offset))) ∧
    (lineAt text.toList offset)[(placeOf text.toList offset).2 - 1]? = some c := by
  obtain ⟨ls, front, back, rest, hsource, rfl, hls, hline, hfront, hrest⟩ := exists_line hc hne
  have hback : '\n' ∉ c :: back := fun hmem => hline (List.mem_append_right _ hmem)
  obtain ⟨hat, hend⟩ := lineAt_line ls hfront hback hrest
  rw [lines, hsource] at *
  rw [hend, List.take_left, List.drop_left] at h
  have hrest' : rest.head? = some '\n' ∨ rest = [] ∧ (([] : List Char) ≠ [] ∨ front ++ c :: back ≠ []) :=
    hrest.imp_right fun hnil => ⟨hnil, .inr (by simp)⟩
  rw [placeOf_line hls hfront, hat, List.append_assoc, splitLines_fed hls h.front,
    splitLines_line (EndsInFeeds.back (fed ls) h) hline hrest']
  simp

end CanisterShell.Text
