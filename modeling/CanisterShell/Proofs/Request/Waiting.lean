import CanisterShell.Request.Agent
import Mathlib.Tactic.Common

/-!
# Waiting for a reply

Whatever statuses are served and however the clock goes, waiting ends with the first final status, as
long as no reading of the clock before it is at or past the deadline; otherwise it ends with the first
such reading (`Waiting.answered_await`).  Either way nothing more is asked: the world is left as that
question or that reading leaves it.  A status that becomes final late is taken all the same, for the
clock is read behind statuses that are not final only.
-/

namespace CanisterShell

/-- A status that does not change any more. -/
def CallStatus.IsFinal : CallStatus → Prop
  | pending _ => False
  | replied _ | rejected .. | done => True

/-- Those who wait for the reply of a call: their policy, how statuses are served to them, how they see
the time go by, and the world in which they begin. -/
structure Waiting (σ : Type) where
  policy : PollPolicy
  serve : StateM σ CallStatus
  timer : Timer σ
  site : Option CallSite
  start : σ

namespace Waiting

variable {σ : Type} (w : Waiting σ)

/-- What waiting comes to with so many questions at most, and the world that it leaves. -/
def await (fuel : Nat) : Attempt Bytes × σ :=
  (w.policy.awaitWithin fuel (ExceptT.lift w.serve) w.timer w.site).run.run w.start

/-! ## Questions and readings -/

/-- The time from which on no answer is expected any more. -/
def deadline : Seconds := (w.timer.clock.run w.start).1.add w.policy.timeout

def delay : Nat → Seconds
  | 0 => w.policy.initial
  | k + 1 => w.policy.next (delay k)

/-- The world in which a question is asked, if none of those before it has ended the waiting. -/
def before : Nat → σ
  | 0 => (w.timer.clock.run w.start).2
  | k + 1 =>
    let answered := (w.serve.run (before k)).2
    let looked := (w.timer.clock.run answered).2
    ((w.timer.sleep (w.delay k)).run looked).2

/-- The status that is served to a question. -/
def status (k : Nat) : CallStatus := (w.serve.run (w.before k)).1

/-- The world behind a question. -/
def asked (k : Nat) : σ := (w.serve.run (w.before k)).2

/-- What the clock shows behind a question. -/
def reading (k : Nat) : Seconds := (w.timer.clock.run (w.asked k)).1

/-- The world behind the reading of the clock behind a question. -/
def looked (k : Nat) : σ := (w.timer.clock.run (w.asked k)).2

/-- The reading behind a question is at or past the deadline. -/
def Late (k : Nat) : Prop := (w.reading k).reaches w.deadline = true

/-- A question is the first with a final status, and no reading before it is at or past the deadline. -/
structure InTime (k : Nat) : Prop where
  final : (w.status k).IsFinal
  first : ∀ j < k, ¬(w.status j).IsFinal
  early : ∀ j < k, ¬w.Late j

/-- A question is the first with a reading behind it that is at or past the deadline, and no status up
to it is final. -/
structure OutOfTime (k : Nat) : Prop where
  late : w.Late k
  open_ : ∀ j ≤ k, ¬(w.status j).IsFinal
  early : ∀ j < k, ¬w.Late j

/-! ## One question -/

variable {w}

theorem exists_final?_of_isFinal {s : CallStatus} (h : s.IsFinal) (site : Option CallSite) :
    ∃ outcome, s.final? site = some outcome := by
  cases s with
  | pending name => exact h.elim
  | replied reply? => cases reply? <;> exact ⟨_, rfl⟩
  | rejected code message => exact ⟨_, rfl⟩
  | done => exact ⟨_, rfl⟩

theorem final?_of_not_isFinal {s : CallStatus} (h : ¬s.IsFinal) (site : Option CallSite) :
    s.final? site = none := by
  cases s with
  | pending name => rfl
  | replied | rejected | done => exact absurd trivial h

/-- What is waited for from a question on. -/
def waitAt (w : Waiting σ) (fuel k : Nat) : Attempt Bytes × σ :=
  (w.policy.waitFor (ExceptT.lift w.serve) w.timer w.site w.deadline fuel (w.delay k)).run.run (w.before k)

theorem run_lift_bind {α β : Type} (x : StateM σ α) (f : α → Action σ β) (world : σ) :
    ((ExceptT.lift x : Action σ α) >>= f).run.run world =
      (f (x.run world).1).run.run (x.run world).2 := rfl

/-- One question, whose answer the three lemmas below tell apart. -/
theorem waitAt_question (w : Waiting σ) (fuel k : Nat) :
    w.waitAt (fuel + 1) k =
      match (w.status k).final? w.site with
      | some outcome => (outcome, w.asked k)
      | none =>
        if (w.reading k).reaches w.deadline then
          (.error (.error (.timeout w.policy.timeout.toDouble w.site)), w.looked k)
        else w.waitAt fuel (k + 1) := by
  rw [waitAt, PollPolicy.waitFor, run_lift_bind]
  change StateT.run (ExceptT.run (match (w.status k).final? w.site with
    | some outcome => _ | none => _)) (w.asked k) = _
  cases (w.status k).final? w.site with
  | some outcome => cases outcome <;> rfl
  | none =>
    change StateT.run (ExceptT.run (if (w.reading k).reaches w.deadline then _ else _))
      (w.looked k) = _
    cases (w.reading k).reaches w.deadline <;> rfl

theorem waitAt_final {k : Nat} {outcome : Attempt Bytes}
    (h : (w.status k).final? w.site = some outcome) (fuel : Nat) :
    w.waitAt (fuel + 1) k = (outcome, w.asked k) := by
  rw [waitAt_question, h]

theorem waitAt_late {k : Nat} (h : ¬(w.status k).IsFinal) (hlate : w.Late k) (fuel : Nat) :
    w.waitAt (fuel + 1) k =
      (.error (.error (.timeout w.policy.timeout.toDouble w.site)), w.looked k) := by
  rw [waitAt_question, final?_of_not_isFinal h]
  exact if_pos hlate

theorem waitAt_succ {k : Nat} (h : ¬(w.status k).IsFinal) (hlate : ¬w.Late k) (fuel : Nat) :
    w.waitAt (fuel + 1) k = w.waitAt fuel (k + 1) := by
  rw [waitAt_question, final?_of_not_isFinal h]
  exact if_neg hlate

/-! ## The whole wait -/

theorem InTime.unique {j k : Nat} (hj : w.InTime j) (hk : w.InTime k) : j = k := by
  rcases Nat.lt_trichotomy j k with hlt | heq | hlt
  · exact absurd hj.final (hk.first j hlt)
  · exact heq
  · exact absurd hk.final (hj.first k hlt)

theorem OutOfTime.not_inTime {j k : Nat} (hj : w.OutOfTime j) : ¬w.InTime k := by
  intro hk
  rcases Nat.lt_or_ge j k with hlt | hle
  · exact hk.early j hlt hj.late
  · exact hj.open_ k hle hk.final

/-- How waiting ends: with the first final status, or else with the time. -/
inductive Ends (w : Waiting σ) : Attempt Bytes × σ → Prop where
  | final {k : Nat} {outcome : Attempt Bytes} (inTime : w.InTime k)
      (is : (w.status k).final? w.site = some outcome) : Ends w (outcome, w.asked k)
  | timeout {k : Nat} (out : w.OutOfTime k) :
      Ends w (.error (.error (.timeout w.policy.timeout.toDouble w.site)), w.looked k)

/-- From a question on that comes behind none that ends the waiting.  The induction is on the fuel, and
the questions left before the late one stay below it. -/
theorem ends_waitAt {fuel k n : Nat} (hopen : ∀ j < k, ¬(w.status j).IsFinal)
    (hearly : ∀ j < k, ¬w.Late j) (hlate : w.Late n) (hk : k ≤ n) (hfuel : n < k + fuel) :
    w.Ends (w.waitAt fuel k) := by
  induction fuel generalizing k with
  | zero => omega
  | succ fuel ih =>
    by_cases hfinal : (w.status k).IsFinal
    · obtain ⟨outcome, is⟩ := exists_final?_of_isFinal hfinal w.site
      rw [waitAt_final is]
      exact .final ⟨hfinal, hopen, hearly⟩ is
    have hopen' : ∀ j ≤ k, ¬(w.status j).IsFinal := fun j hj =>
      (Nat.lt_or_eq_of_le hj).elim (hopen j) fun heq => heq ▸ hfinal
    by_cases hnow : w.Late k
    · rw [waitAt_late hfinal hnow]
      exact .timeout ⟨hnow, hopen', hearly⟩
    · have hearly' : ∀ j < k + 1, ¬w.Late j := fun j hj =>
        (Nat.lt_succ_iff_lt_or_eq.mp hj).elim (hearly j) fun heq => heq ▸ hnow
      have hne : k ≠ n := fun heq => hnow (heq ▸ hlate)
      rw [waitAt_succ hfinal hnow]
      exact ih (fun j hj => hopen' j (Nat.le_of_lt_succ hj)) hearly' (by omega) (by omega)

theorem final?_injective {site : Option CallSite} {s t : CallStatus} {outcome : Attempt Bytes}
    (hs : s.final? site = some outcome) (ht : t.final? site = some outcome) : s = t := by
  have hsome : s.final? site ≠ none := hs ▸ Option.some_ne_none outcome
  replace hs := hs.trans ht.symm
  clear ht
  rcases s with _ | (_ | _) | _ | _ <;> rcases t with _ | (_ | _) | _ | _ <;>
    simp_all [CallStatus.final?]

theorem final?_ne_timeout (s : CallStatus) (site site' : Option CallSite) (limit : Double) :
    s.final? site ≠ some (.error (.error (.timeout limit site'))) := by
  rcases s with _ | (_ | _) | _ | _ <;> simp [CallStatus.final?]

/-- Waiting comes to what a status amounts to exactly if that is the status found in time. -/
theorem Ends.eq_iff {outcome o : Attempt Bytes} {world : σ} {s : CallStatus}
    (h : w.Ends (outcome, world)) (hs : s.final? w.site = some o) :
    outcome = o ↔ ∃ k, w.InTime k ∧ w.status k = s := by
  cases h with
  | final inTime is =>
    constructor
    · rintro rfl
      exact ⟨_, inTime, final?_injective is hs⟩
    · rintro ⟨m, hm, rfl⟩
      rw [inTime.unique hm, hs] at is
      exact (Option.some.inj is).symm
  | timeout out =>
    constructor
    · rintro rfl
      exact absurd hs (final?_ne_timeout s w.site w.site _)
    · rintro ⟨m, hm, -⟩
      exact absurd hm out.not_inTime

theorem Ends.timeout_iff {outcome : Attempt Bytes} {world : σ} (h : w.Ends (outcome, world)) :
    outcome = .error (.error (.timeout w.policy.timeout.toDouble w.site)) ↔ ∀ k, ¬w.InTime k := by
  cases h with
  | @final k _ inTime is =>
    constructor
    · rintro rfl
      exact absurd is (final?_ne_timeout _ w.site w.site _)
    · exact fun hnone => absurd inTime (hnone k)
  | timeout out => exact ⟨fun _ _ => out.not_inTime, fun _ => rfl⟩

theorem Ends.stopped {outcome : Attempt Bytes} {world : σ} (h : w.Ends (outcome, world)) :
    ∃ k, (w.InTime k ∧ world = w.asked k) ∨ (w.OutOfTime k ∧ world = w.looked k) := by
  cases h with
  | @final k _ inTime is => exact ⟨k, .inl ⟨inTime, rfl⟩⟩
  | @timeout k out => exact ⟨k, .inr ⟨out, rfl⟩⟩

/-- What waiting has come to, told by the statuses and readings that it has met, and where it has
stopped asking: behind the final status, or behind the reading by which the time is up. -/
structure Answered (w : Waiting σ) (outcome : Attempt Bytes) (world : σ) : Prop where
  replied : ∀ reply, outcome = .ok reply ↔
    ∃ k, w.InTime k ∧ w.status k = .replied (some reply)
  rejected : ∀ code message,
    outcome = .error (.error (.reject (.int code) (.text message) w.site)) ↔
      ∃ k, w.InTime k ∧ w.status k = .rejected code message
  noReply : outcome = .error (.error (.network .noReply w.site)) ↔
    ∃ k, w.InTime k ∧ w.status k = .replied none
  gone : outcome = .error (.error (.network .replyGone w.site)) ↔
    ∃ k, w.InTime k ∧ w.status k = .done
  timeout : outcome = .error (.error (.timeout w.policy.timeout.toDouble w.site)) ↔
    ∀ k, ¬w.InTime k
  stopped : ∃ k, (w.InTime k ∧ world = w.asked k) ∨ (w.OutOfTime k ∧ world = w.looked k)

/-- Whatever is served and however the clock goes: if a reading comes to the deadline, then waiting
ends, within one question more than that reading has before it, with the first final status if no
reading before it is at or past the deadline, and with the time otherwise; and then it stops asking. -/
theorem answered_await {n fuel : Nat} (hlate : w.Late n) (hfuel : n < fuel) :
    w.Answered (w.await fuel).1 (w.await fuel).2 := by
  have hends : w.Ends ((w.await fuel).1, (w.await fuel).2) :=
    ends_waitAt (fun _ hj => absurd hj (Nat.not_lt_zero _)) (fun _ hj => absurd hj (Nat.not_lt_zero _))
      hlate (Nat.zero_le n) (by omega)
  exact {
    replied := fun reply => hends.eq_iff rfl
    rejected := fun code message => hends.eq_iff rfl
    noReply := hends.eq_iff rfl
    gone := hends.eq_iff rfl
    timeout := hends.timeout_iff
    stopped := hends.stopped }

/-- A world that counts the questions, in which the second is answered when the time is up. -/
def lastMoment : Waiting Nat where
  policy := { initial := .whole 1, factor := .whole 2, timeout := .whole 2 }
  serve := fun n => (if n = 0 then .pending "received" else .replied (some [68]), n + 1)
  timer := { clock := fun n => (.whole n, n), sleep := fun _ => pure () }
  site := none
  start := 0

theorem answered_await_lastMoment :
    lastMoment.Late 1 ∧ lastMoment.Answered (.ok [68]) 2 := by
  have hlate : lastMoment.Late 1 := rfl
  have h := answered_await hlate (Nat.lt_succ_self 1)
  exact ⟨hlate, h⟩

end Waiting

end CanisterShell
