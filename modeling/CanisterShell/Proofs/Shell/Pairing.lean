import CanisterShell.Proofs.Shell.Concatenation
import CanisterShell.Proofs.Shell.Effectless

/-!
# Values put together again

A value is taken apart into elements, and elements are put together as one of its kind.  Rows and texts
come back, and so do records unless the name of a field consists of digits: a key that does is taken for
a number, and one that does not for a name (`labelOf_toText_iff`).  Mapping with a function that gives
what it is given, and filtering with what always holds, put the elements themselves together, and so
change nothing but such names (`step_unchanged`).
-/

namespace CanisterShell

open Candid Syntax

/-! ## Decimal digits -/

namespace Text

theorem decimalValue?_of_isDigit {c : Char} (h : c.isDigit = true) :
    decimalValue? c = some (c.toNat - 48) := by
  have hrange : 48 ≤ c.toNat ∧ c.toNat ≤ 57 := by
    simpa [Char.isDigit, UInt32.le_iff_toNat_le] using h
  have hzero : zeroDigits.find? (fun z => z ≤ c.toNat && c.toNat < z + 10) = some 48 := by
    rw [← Array.find?_toList, zeroDigits]
    refine List.find?_cons_of_pos ?_
    simp only [Bool.and_eq_true, decide_eq_true_eq]
    omega
  rw [decimalValue?, hzero, Option.map_some]

theorem foldlM_decimalValue? {cs : List Char} (h : ∀ c ∈ cs, c.isDigit = true) (n : Nat) :
    cs.foldlM (fun acc c => (decimalValue? c).map (10 * acc + ·)) n =
      some (Nat.ofDigitChars 10 cs n) := by
  induction cs generalizing n with
  | nil => rfl
  | cons c cs ih =>
    obtain ⟨hc, hcs⟩ := List.forall_mem_cons.mp h
    rw [List.foldlM_cons, decimalValue?_of_isDigit hc]
    exact ih hcs _

variable (n : Nat)

theorem isDigit_toDigits : ∀ c ∈ Nat.toDigits 10 n, isDigit c = true := by
  intro c h
  have hc : c.isDigit = true := Nat.isDigit_of_mem_toDigits (by decide) (by decide) h
  rw [isDigit, decimalValue?_of_isDigit hc]
  rfl

theorem decimalNumber?_toDigits : decimalNumber? (Nat.toDigits 10 n) = some n := by
  have hdigits : ∀ c ∈ Nat.toDigits 10 n, c.isDigit = true :=
    fun _ => Nat.isDigit_of_mem_toDigits (by decide) (by decide)
  rw [decimalNumber?, foldlM_decimalValue? hdigits, Nat.ofDigitChars_ten_toDigits]

end Text

/-- A name that consists of digits. -/
def Candid.Label.IsDigits : Label → Prop
  | .named name => name.toList ≠ [] ∧ ∀ c ∈ name.toList, Text.isDigit c = true
  | .numbered _ => False

namespace Selection

/-! ## Labels read back -/

theorem labelOf_of_isDigits {key : String} (h : (Label.named key).IsDigits) :
    labelOf key = match Text.decimalNumber? key.toList with
      | some n => .ok (.numbered n)
      | none => .error (.fault (.badValue
          ("invalid literal for int() with base 10: " ++ Text.quoted key))) := by
  refine if_neg ?_
  obtain ⟨hne, hdigits⟩ := h
  simpa [hne] using hdigits

theorem labelOf_of_not_isDigits {key : String} (h : ¬(Label.named key).IsDigits) :
    labelOf key = .ok (.named key) := by
  refine if_pos ?_
  rw [Label.IsDigits, not_and_or] at h
  simpa [or_iff_not_imp_left] using h

theorem labelOf_toString (id : Nat) : labelOf (toString id) = .ok (.numbered id) := by
  have hkey : (toString id).toList = Nat.toDigits 10 id := by
    rw [Nat.toString_eq_ofList_toDigits, String.toList_ofList]
  have hdigits : (Label.named (toString id)).IsDigits := by
    rw [Label.IsDigits, hkey]
    exact ⟨Nat.toDigits_ne_nil, Text.isDigit_toDigits id⟩
  rw [labelOf_of_isDigits hdigits, hkey, Text.decimalNumber?_toDigits]

theorem not_isDigits_of_labelOf {key : String} {label : Label} (h : labelOf key = .ok label) :
    ¬label.IsDigits := by
  by_cases hkey : (Label.named key).IsDigits
  · rw [labelOf_of_isDigits hkey] at h
    split at h
    · cases h
      exact id
    · cases h
  · rw [labelOf_of_not_isDigits hkey] at h
    cases h
    exact hkey

/-- A label comes back from its text unless it is a name that consists of digits. -/
theorem labelOf_toText_iff (label : Label) : labelOf label.toText = .ok label ↔ ¬label.IsDigits := by
  refine ⟨not_isDigits_of_labelOf, fun h => ?_⟩
  cases label with
  | named name => exact labelOf_of_not_isDigits h
  | numbered id => exact labelOf_toString id

/-! ## Elements put together -/

theorem fieldOfPair_pairOf_ok_iff {field field' : Label × Value} :
    fieldOfPair (pairOf field) = .ok field' ↔
      labelOf field.1.toText = .ok field'.1 ∧ field.2 = field'.2 := by
  have hpair : fieldOfPair (pairOf field) =
      labelOf field.1.toText >>= fun label => .ok (label, field.2) := rfl
  rw [hpair, Attempt.bind_ok_iff]
  constructor
  · rintro ⟨label, hlabel, h⟩
    cases h
    exact ⟨hlabel, rfl⟩
  · rintro ⟨hlabel, hvalue⟩
    exact ⟨field'.1, hlabel, by rw [hvalue]⟩

theorem rebuild_record_iff {fields : List (Label × Value)} (h : Ascending fields) :
    rebuild (.record fields) (fields.map pairOf) = .ok (.record fields) ↔
      ∀ field ∈ fields, ¬field.1.IsDigits := by
  have hrebuild : rebuild (.record fields) (fields.map pairOf) =
      (fields.map pairOf).mapM fieldOfPair >>= Value.mkRecord := rfl
  rw [hrebuild, Attempt.bind_ok_iff]
  constructor
  · rintro ⟨fields', hfields, hrecord⟩ field hfield
    obtain ⟨sorted, -, hperm, heq⟩ := Value.mkRecord_ok_iff.mp hrecord
    cases heq
    obtain ⟨_, hpair, hread⟩ := Attempt.exists_of_mapM_ok hfields (hperm.mem_iff.mp hfield)
    obtain ⟨field', -, rfl⟩ := List.mem_map.mp hpair
    exact not_isDigits_of_labelOf (fieldOfPair_pairOf_ok_iff.mp hread).1
  · intro hlabels
    refine ⟨fields, ?_, Value.mkRecord_ok_iff.mpr ⟨fields, h, .refl _, rfl⟩⟩
    rw [Attempt.mapM_ok_iff, List.forall₂_map_left_iff, List.forall₂_same]
    exact fun field hfield =>
      fieldOfPair_pairOf_ok_iff.mpr ⟨(labelOf_toText_iff _).mpr (hlabels field hfield), rfl⟩

theorem join_chars (s : String) : String.join (s.toList.map fun c => c.toString) = s := by
  apply String.toList_injective
  simp [String.toList_join, List.flatMap_map]

theorem rebuild_text (s : String) :
    rebuild (.text s) (s.toList.map fun c => .text c.toString) = .ok (.text s) := by
  have htexts : (s.toList.map fun c => Value.text c.toString).mapM textOf =
      .ok (s.toList.map fun c => c.toString) := by
    rw [Attempt.mapM_ok_iff, List.forall₂_map_left_iff, List.forall₂_map_right_iff, List.forall₂_same]
    exact fun _ _ => rfl
  rw [rebuild, htexts, Attempt.ok_bind, join_chars]
  rfl

/-- A value comes back from its elements unless it is a record and the name of a field consists of
digits. -/
theorem rebuild_elements_iff {v : Value} (hv : v.WellFormed) {items : List Value}
    (hitems : elements? v = some items) : rebuild v items = .ok v ↔
      ∀ fields, v = .record fields → ∀ field ∈ fields, ¬field.1.IsDigits := by
  cases v with
  | vec vs =>
    cases hitems
    refine iff_of_true rfl ?_
    rintro _ ⟨⟩
  | blob bytes =>
    cases hitems
    refine iff_of_true ?_ ?_
    · rw [rebuild, Value.mapM_byte?_ofByte]
    · rintro _ ⟨⟩
  | text s =>
    cases hitems
    refine iff_of_true (rebuild_text s) ?_
    rintro _ ⟨⟩
  | record fields =>
    cases hitems
    have hfields : Ascending fields := List.pairwise_map.mp ((Value.wellFormed_iff _).mp hv).1
    rw [rebuild_record_iff hfields]
    exact ⟨fun h _ heq => Value.record.inj heq ▸ h, fun h => h fields rfl⟩
  | _ => cases hitems

/-! ## Calls that change nothing -/

/-- A function that gives what it is given. -/
def identityFunction (span : Text.Span) (param : String) : Function where
  params := [param]
  body := [.mk span (.bind "_" (.path param []))]

variable {σ : Type}

theorem gives_path (S : Setting σ) {self : Engine σ} {env : Env} {name : String} {v : Value}
    (h : env.lookup name = .ok v) (s : Session σ) :
    Gives (Evaluation.step S self (.path name [])) (env, s) v (env, s) := by
  exact gives_env.bind ((Gives.attempt h).bind rfl)

/-- Called with an element, the function gives it and leaves everything as it was. -/
theorem gives_called_identity (S : Setting σ) (depth : Nat) {env : Env} {function param : String}
    {span : Text.Span} (hname : Builtin.ofName? function = none)
    (hfunction : env.functions.find? function = some (identityFunction span param)) (v : Value)
    (s : Session σ) :
    Gives (called (evalWithin S (depth + 3)) function v) (env, s) v (env, s) := by
  let self : Engine σ := ⟨evalWithin S (depth + 2), runWithin S (depth + 2)⟩
  let child := env.bind "" v
  let callee := Evaluation.callee [param] [v] child
  have hargs : Gives ([Exp.path "" []].mapM self.eval) (child, s) [v] (child, s) := by
    have harg : Gives (self.eval (.path "" [])) (child, s) v (child, s) :=
      gives_path S (env.lookup_bind "" v) s
    rw [List.mapM_cons]
    exact harg.bind rfl
  have hblock : Gives (self.block (identityFunction span param).body) (callee, s) ()
      (callee.bind "_" v, s) := by
    have hparam : Gives (evalWithin S (depth + 1) (.path param [])) (callee, s) v (callee, s) :=
      gives_path S (Env.lookup_bind _ param v) s
    exact Gives.bind (Gives.bind (Gives.bind hparam rfl) rfl) rfl
  have hcall : Gives (Evaluation.callFunction self function (identityFunction span param) [v])
      (child, s) v (child, s) := by
    have hresult : ((callee.bind "_" v).vars.find? "_").getD .null = v := by
      rw [Env.bind, Table.find?_put, if_pos rfl, Option.getD_some]
    have hbody : Gives (do
        self.block (identityFunction span param).body
        return ((← Running.env).vars.find? "_").getD .null) (callee, s) v (callee.bind "_" v, s) :=
      hblock.bind (congrArg (fun w => (Except.ok w, (callee.bind "_" v, s))) hresult)
    exact Gives.inChild (f := Evaluation.callee [param] [v]) hbody
  have hfind : child.functions.find? function = some (identityFunction span param) := hfunction
  have happly : Gives (Evaluation.apply S self function [.path "" []]) (child, s) v (child, s) := by
    unfold Evaluation.apply
    rw [hname]
    refine gives_env.bind ?_
    rw [hfind]
    exact hargs.bind hcall
  exact happly.inChild

variable {env : Env}

theorem gives_mapM_self {call : Value → Running σ Value} {s : Session σ} {items : List Value}
    (h : ∀ v ∈ items, Gives (call v) (env, s) v (env, s)) :
    Gives (items.mapM call) (env, s) items (env, s) := by
  induction items with
  | nil => rfl
  | cons v items ih =>
    obtain ⟨hv, hitems⟩ := List.forall_mem_cons.mp h
    rw [List.mapM_cons]
    exact hv.bind ((ih hitems).bind rfl)

/-- Called with an element, the function gives true, whatever it does to the session. -/
def Holds (call : Running σ Value) (env : Env) : Prop :=
  ∀ s, ∃ s', Gives call (env, s) (.bool true) (env, s')

theorem gives_filterAuxM_of_holds {call : Value → Running σ Value} {items : List Value}
    (h : ∀ v ∈ items, Holds (call v) env) (before : List Value) (s : Session σ) :
    ∃ s', Gives (items.filterAuxM (fun v => kept (call v)) before) (env, s)
      (items.reverse ++ before) (env, s') := by
  induction items generalizing before s with
  | nil => exact ⟨s, rfl⟩
  | cons v items ih =>
    obtain ⟨hv, hitems⟩ := List.forall_mem_cons.mp h
    obtain ⟨s', hv⟩ := hv s
    obtain ⟨s'', hrest⟩ := ih hitems (v :: before) s'
    have hkept : Gives (kept (call v)) (env, s) true (env, s') := run_kept hv
    rw [List.reverse_cons, List.append_assoc, List.singleton_append]
    exact ⟨s'', hkept.bind hrest⟩

theorem gives_filterM_of_holds {call : Value → Running σ Value} {items : List Value}
    (h : ∀ v ∈ items, Holds (call v) env) (s : Session σ) :
    ∃ s', Gives (items.filterM fun v => kept (call v)) (env, s) items (env, s') := by
  obtain ⟨s', hrest⟩ := gives_filterAuxM_of_holds h [] s
  refine ⟨s', hrest.bind ?_⟩
  rw [List.append_nil, List.reverse_reverse]
  rfl

/-! ## The selectors -/

/-- Mapping with a function that gives what it is given, and filtering with one that always holds, put
the elements of a value together again; the value comes back exactly if no field of it is named by
digits. -/
theorem step_unchanged (S : Setting σ) (depth : Nat) (s : Session σ) {v : Value} (hv : v.WellFormed)
    {items : List Value} (hitems : elements? v = some items) {same param : String} {span : Text.Span}
    (hname : Builtin.ofName? same = none)
    (hsame : env.functions.find? same = some (identityFunction span param)) {test : String}
    (htest : ∀ item ∈ items, Holds (called (evalWithin S (depth + 3)) test item) env) :
    ∃ r, (step (evalWithin S (depth + 3)) v (.map same)).run.run (env, s) = (r, (env, s)) ∧
      (∃ s', (step (evalWithin S (depth + 3)) v (.filter test)).run.run (env, s) = (r, (env, s'))) ∧
      (r = .ok v ↔ ∀ fields, v = .record fields → ∀ field ∈ fields, ¬field.1.IsDigits) := by
  have heval := leavesEnv_evalWithin S (depth + 3)
  have hmap := gives_mapM_self fun item (_ : item ∈ items) =>
    gives_called_identity S depth hname hsame item s
  obtain ⟨s', hfilter⟩ := gives_filterM_of_holds htest s
  refine ⟨rebuild v items, ?_, ⟨s', ?_⟩, rebuild_elements_iff hv hitems⟩
  · rw [run_step_map heval s same hitems, hmap.run_bind, Gives.run_attempt]
  · rw [run_step_filter heval s test hitems, hfilter.run_bind, Gives.run_attempt]

/-- An environment with a function that gives what it is given and one that always gives true. -/
def twoFunctions : Env where
  functions := [("same", identityFunction ⟨0, 0, 1, 1⟩ "x"),
    ("yes", ⟨["x"], [.mk ⟨0, 0, 1, 1⟩ (.bind "_" (.literal (.bool true)))]⟩)]
  base := ⟨"/", []⟩

/-- A record whose field is named by a letter. -/
theorem step_unchanged_letter :
    let s := (bareShell ⟨[], []⟩).session
    let v : Value := .record [(.named "a", .number 5)]
    let eval := evalWithin bareSetting 5
    v.WellFormed ∧ elements? v = some [.tuple [.text "a", .number 5]] ∧
      Builtin.ofName? "same" = none ∧
      twoFunctions.functions.find? "same" = some (identityFunction ⟨0, 0, 1, 1⟩ "x") ∧
      Holds (called eval "yes" (.tuple [.text "a", .number 5])) twoFunctions ∧
      (step eval v (.map "same")).run.run (twoFunctions, s) = (.ok v, (twoFunctions, s)) ∧
      ∃ s', (step eval v (.filter "yes")).run.run (twoFunctions, s) = (.ok v, (twoFunctions, s')) := by
  intro s v eval
  have hv : v.WellFormed := (Value.isWellFormed_iff v).mp (by decide)
  have hitems : elements? v = some [.tuple [.text "a", .number 5]] := rfl
  have hname : Builtin.ofName? "same" = none := by decide
  have hsame : twoFunctions.functions.find? "same" = some (identityFunction ⟨0, 0, 1, 1⟩ "x") := rfl
  have hyes : Holds (called eval "yes" (.tuple [.text "a", .number 5])) twoFunctions :=
    fun s => ⟨s, rfl⟩
  obtain ⟨r, hmap, ⟨s', hfilter⟩, hr⟩ := step_unchanged bareSetting 2 s hv hitems hname hsame
    (List.forall_mem_singleton.mpr hyes)
  have hletter : ¬(Label.named "a").IsDigits := fun h =>
    absurd (h.2 'a' (.head _)) (by decide +kernel)
  obtain rfl := hr.mpr fun fields heq =>
    Value.record.inj heq ▸ List.forall_mem_singleton.mpr hletter
  exact ⟨hv, hitems, hname, hsame, hyes, hmap, s', hfilter⟩

/-- A field named by a digit: the identity makes it a field with a number. -/
theorem step_changed_digit :
    let s := (bareShell ⟨[], []⟩).session
    (step (evalWithin bareSetting 5) (.record [(.named "1", .number 5)]) (.map "same")).run.run
        (twoFunctions, s) = (.ok (.record [(.numbered 1, .number 5)]), (twoFunctions, s)) ∧
      Value.record [(.numbered 1, .number 5)] ≠ .record [(.named "1", .number 5)] :=
  ⟨rfl, by simp⟩

end Selection

end CanisterShell
