import CanisterShell.Profiling.Trace
import Mathlib

/-!
# What a folded trace accounts for

The trace of calls that have all returned folds into a line for each of them, and the cycles of the
lines add up to those of the outermost calls; a trace is refused if and only if a call is left that
is not the innermost one under way (`fold_accounts`).  Folding is followed call by call: a call adds
its lines and credits its cycles to the one that made it (`foldlM_walk`).
-/

namespace CanisterShell.Trace

/-! ## Calls -/

/-- A call of a function: its number, the counter on entering and on leaving it, and the calls that
it made, in order. -/
inductive Activation where
  | mk (function : Int) (positive : 0 < function) (entered left : Int) (inner : List Activation)

/-- The cycles that pass during a call. -/
def Activation.span : Activation → Int
  | mk _ _ entered left _ => left - entered

/-- The cycles that pass during calls. -/
def cost (calls : List Activation) : Int := (calls.map Activation.span).sum

/-- The trace of calls made one after the other. -/
def walk : List Activation → List (Int × Int)
  | [] => []
  | .mk function _ entered left inner :: rest =>
    (function, entered) :: walk inner ++ (-function, left) :: walk rest

/-- A line of a folded trace: the names of the functions on the stack, outermost first, and the
cycles that the innermost one spent itself. -/
structure Line where
  stack : List String
  own : Int

/-- The lines of calls made below a stack: one for each call, in the order in which they are left.
What a call spends itself is what passes during it but not during the calls that it made. -/
def linesOf (names : Table Int String) (callers : List String) : List Activation → List Line
  | [] => []
  | .mk function _ entered left inner :: rest =>
    linesOf names (callers ++ [nameOf names function]) inner ++
      ⟨callers ++ [nameOf names function], left - entered - cost inner⟩ ::
        linesOf names callers rest

namespace Line

def text (l : Line) : String := stackText l.stack ++ " " ++ toString l.own

/-- What stands between a line and an earlier one of the same stack. -/
def spacer (l : Line) : String := stackText l.stack.dropLast ++ ";spacer 0"

/-- The texts of lines, with a spacer between any two in a row whose stacks are the same text. -/
def spaced : List Line → List String
  | [] => []
  | [l] => [l.text]
  | l :: m :: rest =>
    if stackText l.stack = stackText m.stack then l.text :: m.spacer :: spaced (m :: rest)
    else l.text :: spaced (m :: rest)

theorem spaced_concat (ls : List Line) (l : Line) : spaced (ls ++ [l]) =
    if ls.getLast?.map (fun m => stackText m.stack) = some (stackText l.stack) then
      spaced ls ++ [l.spacer, l.text]
    else spaced ls ++ [l.text] := by
  induction ls using spaced.induct with
  | case1 => rfl
  | case2 m =>
    simp only [List.singleton_append, spaced, List.getLast?_singleton, Option.map_some,
      Option.some.injEq]
  | case3 m m' rest h ih =>
    rw [List.cons_append, List.cons_append, spaced, if_pos h, ← List.cons_append, ih, spaced,
      if_pos h, List.getLast?_cons_cons]
    split <;> rfl
  | case4 m m' rest h ih =>
    rw [List.cons_append, List.cons_append, spaced, if_neg h, ← List.cons_append, ih, spaced,
      if_neg h, List.getLast?_cons_cons]
    split <;> rfl

end Line

/-! ## Cycles -/

theorem cost_cons (a : Activation) (calls : List Activation) :
    cost (a :: calls) = a.span + cost calls := List.sum_cons

/-- All cycles that pass during calls are spent by one of the functions. -/
theorem sum_linesOf (names : Table Int String) (callers : List String) (calls : List Activation) :
    ((linesOf names callers calls).map Line.own).sum = cost calls := by
  induction callers, calls using linesOf.induct names with
  | case1 callers => rw [linesOf]; rfl
  | case2 callers function _ entered left inner rest ihInner ihRest =>
    rw [linesOf, List.map_append, List.map_cons, List.sum_append, List.sum_cons, ihInner, ihRest,
      cost_cons, Activation.span]
    dsimp only
    omega

/-! ## Folding call by call -/

namespace Folding

def emit (f : Folding) (l : Line) : Folding :=
  { f with
    lines := l.text ::
      if f.last? = some (stackText l.stack) then l.spacer :: f.lines else f.lines
    last? := some (stackText l.stack) }

def credit (f : Folding) (cycles : Int) : Folding :=
  match f.frames with
  | [] => { f with total := f.total + cycles }
  | caller :: rest =>
    { f with frames := { caller with children := caller.children + cycles } :: rest }

theorem credit_zero (f : Folding) : f.credit 0 = f := by
  obtain ⟨frames, names, lines, total, last?⟩ := f
  cases frames with
  | nil => simp [credit]
  | cons caller rest => simp [credit]

theorem credit_add (f : Folding) (m n : Int) : (f.credit m).credit n = f.credit (m + n) := by
  obtain ⟨frames, names, lines, total, last?⟩ := f
  cases frames with
  | nil => simp [credit, Int.add_assoc]
  | cons caller rest => simp [credit, Int.add_assoc]

theorem names_credit (f : Folding) (cycles : Int) : (f.credit cycles).names = f.names := by
  rw [credit]
  split <;> rfl

theorem emit_credit (f : Folding) (cycles : Int) (l : Line) :
    (f.credit cycles).emit l = (f.emit l).credit cycles := by
  obtain ⟨frames, names, lines, total, last?⟩ := f
  cases frames <;> rfl

theorem foldl_emit_credit (f : Folding) (cycles : Int) (ls : List Line) :
    ls.foldl emit (f.credit cycles) = (ls.foldl emit f).credit cycles := by
  induction ls generalizing f with
  | nil => rfl
  | cons l ls ih => rw [List.foldl_cons, emit_credit, ih, List.foldl_cons]

theorem foldl_emit_stack (f : Folding) (frames : List Frame) (names : List String)
    (ls : List Line) : ls.foldl emit { f with frames, names } =
      { ls.foldl emit f with frames, names } := by
  induction ls generalizing f with
  | nil => rfl
  | cons l ls ih =>
    rw [List.foldl_cons, List.foldl_cons, ← ih]
    rfl

theorem names_foldl_emit (f : Folding) (ls : List Line) :
    (ls.foldl emit f).names = f.names := by
  induction ls generalizing f with
  | nil => rfl
  | cons l ls ih => exact ih (f.emit l)

theorem foldl_emit_start (ls : List Line) : ls.foldl emit {} =
    { lines := (Line.spaced ls).reverse
      last? := ls.getLast?.map fun l => stackText l.stack } := by
  induction ls using List.reverseRecOn with
  | nil => rfl
  | append_singleton ls l ih =>
    rw [List.foldl_append, List.foldl_cons, List.foldl_nil, ih, emit, Line.spaced_concat,
      List.getLast?_concat]
    dsimp only [Option.map_some]
    split
    · rw [List.reverse_append]
      rfl
    · rw [List.reverse_concat]

end Folding

open Folding

theorem ok_bind {α β : Type} (a : α) (next : α → Except EvalCause β) :
    (.ok a : Except EvalCause α) >>= next = next a := rfl

theorem bind_ok_iff {α β : Type} {x : Except EvalCause α} {next : α → Except EvalCause β} {b : β} :
    x >>= next = .ok b ↔ ∃ a, x = .ok a ∧ next a = .ok b := by
  cases x with
  | error cause => exact ⟨nofun, nofun⟩
  | ok a => exact ⟨fun h => ⟨a, rfl, h⟩, fun ⟨_, h, h'⟩ => by cases h; exact h'⟩

theorem step_enter (names : Table Int String) (f : Folding) {function : Int}
    (h : 0 ≤ function) (counter : Int) : step names f (function, counter) =
      .ok { f with
        frames := ⟨function, counter, 0⟩ :: f.frames
        names := f.names ++ [nameOf names function] } := if_pos h

theorem step_leave (names : Table Int String) {f : Folding} {top : Frame} {outer : List Frame}
    (h : f.frames = top :: outer) (hpos : 0 < top.function) (counter : Int) :
    step names f (-top.function, counter) =
      .ok (({ f with frames := outer, names := f.names.dropLast }.emit
        ⟨f.names, counter - top.entered - top.children⟩).credit (counter - top.entered)) := by
  obtain ⟨frames, stack, lines, total, last?⟩ := f
  obtain rfl : frames = top :: outer := h
  have hneg : ¬0 ≤ -top.function := by omega
  rw [step, if_neg hneg, leave]
  dsimp only
  rw [Int.neg_neg, if_neg fun h => h rfl]
  cases outer with
  | nil => rfl
  | cons caller rest => rfl

/-- The trace of calls puts out their lines and credits their cycles. -/
theorem foldlM_walk (names : Table Int String) (f : Folding) (calls : List Activation) :
    (walk calls).foldlM (step names) f =
      .ok (((linesOf names f.names calls).foldl emit f).credit (cost calls)) := by
  induction calls using walk.induct generalizing f with
  | case1 =>
    rw [walk, linesOf]
    exact congrArg Except.ok (credit_zero f).symm
  | case2 function hpos entered left inner rest ihInner ihRest =>
    let stack := f.names ++ [nameOf names function]
    let inside := linesOf names stack inner
    let line : Line := ⟨stack, left - entered - cost inner⟩
    let f₁ : Folding := { f with frames := ⟨function, entered, 0⟩ :: f.frames, names := stack }
    let f₂ : Folding :=
      { inside.foldl emit f with
        frames := ⟨function, entered, cost inner⟩ :: f.frames, names := stack }
    let f₃ : Folding := ((inside.foldl emit f).emit line).credit (left - entered)
    have henter : step names f (function, entered) = .ok f₁ :=
      step_enter names f (Int.le_of_lt hpos) entered
    have hinner : (walk inner).foldlM (step names) f₁ = .ok f₂ := by
      rw [ihInner, foldl_emit_stack, credit]
      dsimp only
      rw [Int.zero_add]
    have hleave : step names f₂ (-function, left) = .ok f₃ := by
      rw [step_leave names (f := f₂) rfl hpos left]
      dsimp only [f₂, f₃]
      rw [List.dropLast_concat, ← foldl_emit_stack]
    have hnames : f₃.names = f.names := (names_credit _ _).trans (names_foldl_emit f inside)
    rw [walk, List.cons_append, List.foldlM_cons, henter, ok_bind, List.foldlM_append, hinner,
      ok_bind, List.foldlM_cons, hleave, ok_bind, ihRest, hnames, foldl_emit_credit, credit_add,
      linesOf, List.foldl_append, List.foldl_cons, cost_cons]
    rfl

/-! ## Calls under way -/

/-- The functions on the stack, innermost first. -/
def Folding.functions (f : Folding) : List Int := f.frames.map Frame.function

theorem functions_credit (f : Folding) (cycles : Int) :
    (f.credit cycles).functions = f.functions := by
  obtain ⟨frames, names, lines, total, last?⟩ := f
  cases frames <;> rfl

theorem functions_foldl_emit (f : Folding) (ls : List Line) :
    (ls.foldl emit f).functions = f.functions := by
  induction ls generalizing f with
  | nil => rfl
  | cons l ls ih => exact ih (f.emit l)

theorem foldlM_walk_functions {names : Table Int String} {f f' : Folding} {calls : List Activation}
    (h : (walk calls).foldlM (step names) f = .ok f') : f'.functions = f.functions := by
  rw [foldlM_walk] at h
  cases h
  rw [functions_credit, functions_foldl_emit]

theorem step_exit_ok (names : Table Int String) {f : Folding} {function : Int}
    {outer : List Int} (h : f.functions = function :: outer) (hpos : 0 < function) (counter : Int) :
    ∃ f', step names f (-function, counter) = .ok f' ∧ f'.functions = outer := by
  obtain ⟨top, frames, hframes, rfl, rfl⟩ := List.map_eq_cons_iff.mp h
  exact ⟨_, step_leave names hframes hpos counter, functions_credit _ _⟩

theorem step_exit_error (names : Table Int String) {f : Folding} {function : Int}
    (h : f.functions.head? ≠ some function) (hpos : 0 < function) (counter : Int) :
    ∃ cause, step names f (-function, counter) = .error cause := by
  obtain ⟨frames, stack, lines, total, last?⟩ := f
  have hneg : ¬0 ≤ -function := by omega
  rw [step, if_neg hneg, leave]
  cases frames with
  | nil => exact ⟨_, rfl⟩
  | cons top outer =>
    have hother : top.function ≠ - -function := by
      rw [Int.neg_neg]
      exact fun heq => h (congrArg some heq)
    dsimp only
    rw [if_pos hother]
    exact ⟨_, rfl⟩

theorem step_ok {names : Table Int String} {f f' : Folding} {function counter : Int}
    (h : step names f (function, counter) = .ok f') :
    (0 ≤ function ∧ f'.functions = function :: f.functions) ∨
      (function < 0 ∧ f.functions = -function :: f'.functions) := by
  by_cases hpos : 0 ≤ function
  · rw [step_enter names f hpos] at h
    cases h
    exact .inl ⟨hpos, rfl⟩
  · have hexit : 0 < -function := by omega
    refine .inr ⟨by omega, ?_⟩
    rw [← Int.neg_neg function] at h
    by_cases hhead : f.functions.head? = some (-function)
    · obtain ⟨outer, houter⟩ := List.head?_eq_some_iff.mp hhead
      obtain ⟨f'', hok, rfl⟩ := step_exit_ok names houter hexit counter
      cases hok.symm.trans h
      exact houter
    · obtain ⟨cause, herror⟩ := step_exit_error names hhead hexit counter
      cases herror.symm.trans h

/-- A trace after which calls of these functions are under way, innermost first: calls that have
returned, and between them the entries of those that have not. -/
inductive UnderWay : List (Int × Int) → List Int → Prop
  | none (calls : List Activation) : UnderWay (walk calls) []
  | enter {front : List (Int × Int)} {functions : List Int} (h : UnderWay front functions)
    {function : Int} (hpos : 0 ≤ function) (counter : Int) (calls : List Activation) :
    UnderWay (front ++ (function, counter) :: walk calls) (function :: functions)

theorem walk_append (calls more : List Activation) :
    walk (calls ++ more) = walk calls ++ walk more := by
  induction calls with
  | nil => rw [walk, List.nil_append, List.nil_append]
  | cons a calls ih =>
    obtain ⟨function, hpos, entered, left, inner⟩ := a
    rw [List.cons_append, walk, walk, ih]
    simp only [List.cons_append, List.append_assoc]

theorem UnderWay.append_walk {front : List (Int × Int)} {functions : List Int}
    (h : UnderWay front functions) (more : List Activation) :
    UnderWay (front ++ walk more) functions := by
  cases h with
  | none calls =>
    rw [← walk_append]
    exact .none _
  | enter h hpos counter calls =>
    rw [List.append_assoc, List.cons_append, ← walk_append]
    exact .enter h hpos counter _

theorem UnderWay.leave {front : List (Int × Int)} {function : Int} {functions : List Int}
    (h : UnderWay front (function :: functions)) (hpos : 0 < function) (counter : Int) :
    UnderWay (front ++ [(-function, counter)]) functions := by
  cases h with
  | @enter front _ h _ _ entered calls =>
    have hleft := h.append_walk [.mk function hpos entered counter calls]
    rwa [walk, walk, List.cons_append, ← List.cons_append, ← List.append_assoc] at hleft

theorem underWay_of_foldlM {names : Table Int String} {trace : List (Int × Int)} {f : Folding}
    (h : trace.foldlM (step names) {} = .ok f) : UnderWay trace f.functions := by
  induction trace using List.reverseRecOn generalizing f with
  | nil =>
    cases h
    have hnone := UnderWay.none []
    rwa [walk] at hnone
  | append_singleton trace e ih =>
    rw [List.foldlM_append, bind_ok_iff] at h
    obtain ⟨f', hfront, h⟩ := h
    obtain ⟨f'', hstep, h⟩ := bind_ok_iff.mp h
    cases h
    have hunder := ih hfront
    obtain ⟨hpos, hfunctions⟩ | ⟨hneg, hfunctions⟩ := step_ok hstep
    · have hnew := hunder.enter hpos e.2 []
      rw [walk] at hnew
      rwa [hfunctions]
    · rw [hfunctions] at hunder
      have hleft := hunder.leave (by omega) e.2
      rwa [Int.neg_neg] at hleft

/-! ## Traces that are refused -/

/-- Traces after which the innermost call under way, if any is, is not one of the function. -/
inductive Stray (function : Int) : List (Int × Int) → Prop
  | nothing (calls : List Activation) : Stray function (walk calls)
  | other (outer : List (Int × Int)) {innermost : Int} (hpos : 0 ≤ innermost)
    (hne : innermost ≠ function) (counter : Int) (calls : List Activation) :
    Stray function (outer ++ (innermost, counter) :: walk calls)

theorem UnderWay.stray {front : List (Int × Int)} {functions : List Int}
    (h : UnderWay front functions) {function : Int} (hhead : functions.head? ≠ some function) :
    Stray function front := by
  cases h with
  | none calls => exact .nothing calls
  | enter h hpos counter calls =>
    exact .other _ hpos (fun heq => hhead (congrArg some heq)) counter calls

theorem exists_refused {names : Table Int String} {trace : List (Int × Int)} {f : Folding}
    {cause : EvalCause} (h : trace.foldlM (step names) f = .error cause) :
    ∃ front e rest f', trace = front ++ e :: rest ∧ front.foldlM (step names) f = .ok f' ∧
      step names f' e = .error cause := by
  induction trace generalizing f with
  | nil => cases h
  | cons e trace ih =>
    cases hstep : step names f e with
    | error cause' =>
      rw [List.foldlM_cons, hstep] at h
      cases h
      exact ⟨[], e, trace, f, rfl, rfl, hstep⟩
    | ok f₁ =>
      rw [List.foldlM_cons, hstep, ok_bind] at h
      obtain ⟨front, e', rest, f', rfl, hfront, herror⟩ := ih h
      refine ⟨e :: front, e', rest, f', rfl, ?_, herror⟩
      rw [List.foldlM_cons, hstep, ok_bind, hfront]

theorem Stray.head?_ne {names : Table Int String} {front : List (Int × Int)} {function : Int}
    (h : Stray function front) {f : Folding} (hfront : front.foldlM (step names) {} = .ok f) :
    f.functions.head? ≠ some function := by
  cases h with
  | nothing calls =>
    rw [foldlM_walk_functions hfront]
    exact nofun
  | @other outer innermost hpos hne counter calls =>
    rw [List.foldlM_append, bind_ok_iff] at hfront
    obtain ⟨f₁, -, hfront⟩ := hfront
    rw [List.foldlM_cons, step_enter names f₁ hpos, ok_bind] at hfront
    rw [foldlM_walk_functions hfront]
    exact fun heq => hne (Option.some.inj heq)

/-- A trace is refused if and only if it leaves a function that is not the innermost one under
way. -/
theorem exists_foldlM_error_iff (names : Table Int String) (trace : List (Int × Int)) :
    (∃ cause, trace.foldlM (step names) {} = .error cause) ↔
      ∃ front function counter rest, trace = front ++ (-function, counter) :: rest ∧
        0 < function ∧ Stray function front := by
  constructor
  · rintro ⟨cause, h⟩
    obtain ⟨front, ⟨function, counter⟩, rest, f, rfl, hfront, herror⟩ := exists_refused h
    have hneg : function < 0 := by
      by_contra hpos
      rw [step_enter names f (Int.not_lt.mp hpos)] at herror
      cases herror
    refine ⟨front, -function, counter, rest, by rw [Int.neg_neg], by omega, ?_⟩
    refine (underWay_of_foldlM hfront).stray fun hhead => ?_
    obtain ⟨outer, houter⟩ := List.head?_eq_some_iff.mp hhead
    obtain ⟨f', hok, -⟩ := step_exit_ok names houter (by omega) counter
    rw [Int.neg_neg] at hok
    cases hok.symm.trans herror
  · rintro ⟨front, function, counter, rest, rfl, hpos, hstray⟩
    rw [List.foldlM_append]
    cases hfront : front.foldlM (step names) {} with
    | error cause => exact ⟨cause, rfl⟩
    | ok f =>
      obtain ⟨cause, herror⟩ := step_exit_error names (hstray.head?_ne hfront) hpos counter
      rw [ok_bind, List.foldlM_cons, herror]
      exact ⟨cause, rfl⟩

theorem exists_fold_error_iff (names : Table Int String) (trace : List (Int × Int)) :
    (∃ cause, fold names trace = .error cause) ↔
      ∃ cause, trace.foldlM (step names) {} = .error cause := by
  rw [fold]
  cases trace.foldlM (step names) {} with
  | error cause => exact ⟨fun _ => ⟨cause, rfl⟩, fun _ => ⟨cause, rfl⟩⟩
  | ok f =>
    rw [ok_bind]
    split <;> exact ⟨nofun, nofun⟩

theorem fold_walk (names : Table Int String) (calls : List Activation) :
    fold names (walk calls) =
      .ok ⟨(Line.spaced (linesOf names [] calls)).reverse, some (cost calls), none⟩ := by
  rw [fold, foldlM_walk, ok_bind, foldl_emit_start, credit]
  dsimp only
  rw [Int.zero_add]
  rfl

/-- The trace of calls that have all returned folds into a line for each of them, apart from
spacers, and the cost is what passes during the outermost calls and what all of them spend
themselves.  A trace is refused if and only if it leaves a function when no call is under way, or
the innermost one is of another function. -/
theorem fold_accounts (names : Table Int String) :
    (∀ calls, fold names (walk calls) =
        .ok ⟨(Line.spaced (linesOf names [] calls)).reverse, some (cost calls), none⟩ ∧
      cost calls = ((linesOf names [] calls).map Line.own).sum) ∧
    ∀ trace, (∃ cause, fold names trace = .error cause) ↔
      ∃ front function counter rest, trace = front ++ (-function, counter) :: rest ∧
        0 < function ∧ Stray function front := by
  refine ⟨fun calls => ⟨fold_walk names calls, (sum_linesOf names [] calls).symm⟩, fun trace => ?_⟩
  rw [exists_fold_error_iff, exists_foldlM_error_iff]

/-- A call within another, and a second call of the outer function: their lines are last first. -/
example : fold [(1, "main"), (2, "helper")]
    (walk [.mk 1 (by decide) 0 100 [.mk 2 (by decide) 10 30 []], .mk 1 (by decide) 100 105 []]) =
      .ok ⟨["main 5", ";spacer 0", "main 80", "main;helper 20"], some 105, none⟩ := by
  cbv

end CanisterShell.Trace
