import CanisterShell.Candid.Wire.Decode
import CanisterShell.Proofs.Attempt
import CanisterShell.Proofs.Candid.Leb128
import CanisterShell.Proofs.Text.Utf8
import Mathlib.Data.List.Forall2

/-!
# Readers

`Takes read bytes a` says that a reader gives `a` for the bytes and leaves what stands behind them:
this is how a reader undoes a writer, and it composes along `>>=` as the bytes do along `++`.
`Local read` says that a reader only ever depends on the bytes that it takes, so that what remains is a
suffix of what was there, and `Exact read` that it also needs all of them: on every shorter front it
comes to the end of the input.  Every reader of the decoder is exact.  A front is read as the bytes
themselves are, read by read, until the first byte is missing, and so exactness goes along `>>=`: the
front either stops within what the first reader takes, or the first reader takes the same and the second
one lacks bytes.
-/

namespace CanisterShell.Candid.Wire.Reader

variable {α β : Type}

/-! ## Steps of a reader -/

theorem bind_of_ok {read : Reader α} {next : α → Reader β} {bytes rest : Bytes} {a : α}
    (h : read bytes = .ok (a, rest)) : (read >>= next) bytes = next a rest := by
  show (read bytes >>= fun s => next s.1 s.2) = next a rest
  rw [h]
  rfl

theorem bind_of_error {read : Reader α} {next : α → Reader β} {bytes : Bytes} {e : Failure}
    (h : read bytes = .error e) : (read >>= next) bytes = .error e := by
  show (read bytes >>= fun s => next s.1 s.2) = .error e
  rw [h]
  rfl

theorem bind_ok_iff {read : Reader α} {next : α → Reader β} {bytes : Bytes} {r : β × Bytes} :
    (read >>= next) bytes = .ok r ↔ ∃ a rest, read bytes = .ok (a, rest) ∧ next a rest = .ok r := by
  cases h : read bytes with
  | error e => rw [bind_of_error h]; exact ⟨nofun, nofun⟩
  | ok s =>
    rw [bind_of_ok h]
    refine ⟨fun hr => ⟨s.1, s.2, rfl, hr⟩, fun ⟨a, rest, hs, hr⟩ => ?_⟩
    cases hs
    exact hr

theorem bind_error_iff {read : Reader α} {next : α → Reader β} {bytes : Bytes} {e : Failure} :
    (read >>= next) bytes = .error e ↔
      read bytes = .error e ∨ ∃ a rest, read bytes = .ok (a, rest) ∧ next a rest = .error e := by
  cases h : read bytes with
  | error e' =>
    rw [bind_of_error h]
    refine ⟨fun hr => .inl (by cases hr; rfl), fun hr => ?_⟩
    obtain hr | ⟨a, rest, hs, -⟩ := hr
    · cases hr
      rfl
    · cases hs
  | ok s =>
    rw [bind_of_ok h]
    refine ⟨fun hr => .inr ⟨s.1, s.2, rfl, hr⟩, fun hr => ?_⟩
    obtain hr | ⟨a, rest, hs, hr⟩ := hr
    · cases hr
    · cases hs
      exact hr

theorem liftM_ok (a : α) : (liftM (Except.ok a : Attempt α) : Reader α) = pure a := rfl

theorem lift_ok_iff {x : Attempt α} {bytes rest : Bytes} {a : α} :
    (liftM x : Reader α) bytes = .ok (a, rest) ↔ x = .ok a ∧ rest = bytes := by
  cases x with
  | error e => exact ⟨nofun, nofun⟩
  | ok b =>
    refine ⟨fun h => ?_, fun ⟨h, h'⟩ => by cases h; cases h'; rfl⟩
    cases h
    exact ⟨rfl, rfl⟩

theorem lift_error_iff {x : Attempt α} {bytes : Bytes} {e : Failure} :
    (liftM x : Reader α) bytes = .error e ↔ x = .error e := by
  cases x with
  | error e' => exact ⟨fun h => by cases h; rfl, fun h => by cases h; rfl⟩
  | ok b => exact ⟨nofun, nofun⟩

/-! ## Readers that are cut off -/

/-- The second reader comes to the same as the first wherever that is not cut off. -/
def Within (read read' : Reader α) : Prop :=
  ∀ bytes, read bytes ≠ .error .exhausted → read' bytes = read bytes

namespace Within

theorem refl (read : Reader α) : Within read read := fun _ _ => rfl

theorem bind {read read' : Reader α} {next next' : α → Reader β} (h : Within read read')
    (h' : ∀ a, Within (next a) (next' a)) : Within (read >>= next) (read' >>= next') := by
  intro bytes hne
  cases hr : read bytes with
  | error e =>
    rw [bind_of_error hr] at hne ⊢
    refine bind_of_error ((h bytes fun hr' => hne ?_).trans hr)
    rw [hr] at hr'
    cases hr'
    rfl
  | ok r =>
    rw [bind_of_ok hr] at hne ⊢
    rw [bind_of_ok ((h bytes (by rw [hr]; nofun)).trans hr)]
    exact h' r.1 r.2 hne

end Within

/-! ## Taking bytes -/

/-- The reader gives a value for the bytes, whatever stands behind them, and leaves that. -/
def Takes (read : Reader α) (bytes : Bytes) (a : α) : Prop :=
  ∀ rest, read (bytes ++ rest) = .ok (a, rest)

namespace Takes

theorem pure (a : α) : Takes (pure a) [] a := fun _ => rfl

theorem lift {x : Attempt α} {a : α} (h : x = .ok a) : Takes (liftM x) [] a :=
  fun _ => lift_ok_iff.mpr ⟨h, rfl⟩

theorem bind {read : Reader α} {next : α → Reader β} {front back : Bytes} {a : α} {b : β}
    (h : Takes read front a) (h' : Takes (next a) back b) :
    Takes (read >>= next) (front ++ back) b := by
  intro rest
  rw [List.append_assoc]
  exact bind_ok_iff.mpr ⟨a, back ++ rest, h _, h' rest⟩

theorem bind_nil {read : Reader α} {next : α → Reader β} {bytes : Bytes} {a : α} {b : β}
    (h : Takes read [] a) (h' : Takes (next a) bytes b) : Takes (read >>= next) bytes b :=
  h.bind h'

theorem bind_last {read : Reader α} {next : α → Reader β} {bytes : Bytes} {a : α} {b : β}
    (h : Takes read bytes a) (h' : Takes (next a) [] b) : Takes (read >>= next) bytes b := by
  have hb := h.bind h'
  rwa [List.append_nil] at hb

theorem guard {c : Prop} [Decidable c] {e : Failure} {next : PUnit → Reader α} {bytes : Bytes}
    {a : α} (hc : ¬c) (h : Takes (next ()) bytes a) :
    Takes (if c then throw e >>= next else next ()) bytes a := by
  rwa [if_neg hc]

theorem byte (b : UInt8) : Takes byte [b] b := fun _ => rfl

theorem nat (n : Nat) : Takes nat (leb n) n := readLeb_leb n

theorem int (n : Int) : Takes int (sleb n) n := readSleb_sleb n

end Takes

theorem split?_append (front rest : Bytes) :
    split? front.length (front ++ rest) = some (front, rest) := by
  induction front with
  | nil => rfl
  | cons b front ih => rw [List.length_cons, List.cons_append, split?, ih, Option.map_some]

theorem Takes.take (bytes : Bytes) : Takes (take bytes.length) bytes bytes := by
  intro rest
  rw [Reader.take, split?_append]

theorem Takes.text (s : String) : Takes text (textBytes s) s := by
  refine (Takes.nat _).bind ((Takes.take _).bind_last ?_)
  rw [Utf8.decode?_encode]
  exact Takes.pure s

theorem Takes.times {read : Reader α} {write : β → Bytes} {items : List β} {values : List α}
    (h : List.Forall₂ (fun b a => Takes read (write b) a) items values) :
    Takes (times read items.length) (items.flatMap write) values := by
  induction h with
  | nil => exact Takes.pure []
  | cons hb _ ih => exact hb.bind (ih.bind_last (Takes.pure _))

theorem Takes.list {read : Reader α} {write : β → Bytes} {items : List β} {values : List α}
    (h : List.Forall₂ (fun b a => Takes read (write b) a) items values) :
    Takes (list read) (leb items.length ++ items.flatMap write) values :=
  (Takes.nat _).bind (Takes.times h)

theorem Takes.list_self {read : Reader α} {write : α → Bytes} {items : List α}
    (h : ∀ a ∈ items, Takes read (write a) a) :
    Takes (Reader.list read) (leb items.length ++ items.flatMap write) items :=
  Takes.list (List.forall₂_same.mpr h)

/-! ## What a reader gives -/

/-- Whatever the reader gives has a property. -/
def Gives (read : Reader α) (P : α → Prop) : Prop := ∀ bytes a rest, read bytes = .ok (a, rest) → P a

namespace Gives

variable {P : β → Prop}

theorem pure {b : β} (h : P b) : Gives (pure b) P := by
  intro bytes b' rest hb
  cases hb
  exact h

theorem throw (e : Failure) : Gives (throw e : Reader β) P := nofun

theorem lift {x : Attempt β} (h : ∀ b, x = .ok b → P b) : Gives (liftM x : Reader β) P :=
  fun _ b _ hb => h b (lift_ok_iff.mp hb).1

theorem bind {Q : α → Prop} {read : Reader α} {next : α → Reader β} (h : Gives read Q)
    (h' : ∀ a, Q a → Gives (next a) P) : Gives (read >>= next) P := by
  intro bytes b rest hb
  obtain ⟨a, mid, hread, hnext⟩ := bind_ok_iff.mp hb
  exact h' a (h bytes a mid hread) mid b rest hnext

theorem bind_right {read : Reader α} {next : α → Reader β} (h : ∀ a, Gives (next a) P) :
    Gives (read >>= next) P :=
  bind (Q := fun _ => True) (fun _ _ _ _ => trivial) fun a _ => h a

theorem times {read : Reader β} (h : Gives read P) (n : Nat) :
    Gives (times read n) fun bs => ∀ b ∈ bs, P b := by
  induction n with
  | zero => exact pure nofun
  | succ n ih =>
    exact bind h fun b hb => bind ih fun bs hbs => pure (List.forall_mem_cons.mpr ⟨hb, hbs⟩)

theorem list {read : Reader β} (h : Gives read P) : Gives (list read) fun bs => ∀ b ∈ bs, P b :=
  bind_right h.times

theorem mapM {read : α → Reader β} {items : List α} (h : ∀ a ∈ items, Gives (read a) P) :
    Gives (items.mapM read) fun bs => ∀ b ∈ bs, P b := by
  induction items with
  | nil => exact pure nofun
  | cons a items ih =>
    rw [List.mapM_cons]
    exact bind (h a (.head _)) fun b hb => bind (ih fun a ha => h a (.tail _ ha)) fun bs hbs =>
      pure (List.forall_mem_cons.mpr ⟨hb, hbs⟩)

end Gives

/-! ## Readers that depend on what they take only -/

/-- What the reader has read stands in front of what it leaves, and it would read that anywhere. -/
def Local (read : Reader α) : Prop :=
  ∀ bytes a rest, read bytes = .ok (a, rest) → ∃ taken, bytes = taken ++ rest ∧ Takes read taken a

theorem split?_eq_some {n : Nat} {bytes front rest : Bytes}
    (h : split? n bytes = some (front, rest)) : bytes = front ++ rest ∧ front.length = n := by
  induction n generalizing bytes front with
  | zero =>
    cases h
    exact ⟨rfl, rfl⟩
  | succ n ih =>
    cases bytes with
    | nil => cases h
    | cons b bytes =>
      obtain ⟨⟨front', rest'⟩, h', he⟩ := Option.map_eq_some_iff.mp h
      cases he
      obtain ⟨rfl, rfl⟩ := ih h'
      exact ⟨rfl, rfl⟩

theorem take_eq_ok {n : Nat} {bytes front rest : Bytes} (h : take n bytes = .ok (front, rest)) :
    bytes = front ++ rest ∧ front.length = n := by
  rw [take] at h
  cases hs : split? n bytes with
  | none => rw [hs] at h; cases h
  | some r =>
    rw [hs] at h
    cases h
    exact split?_eq_some hs

theorem Gives.take (n : Nat) : Gives (Reader.take n) fun bytes => bytes.length = n :=
  fun _ _ _ h => (take_eq_ok h).2

namespace Local

theorem pure (a : α) : Local (pure a) := by
  intro bytes b rest h
  cases h
  exact ⟨[], rfl, Takes.pure a⟩

theorem throw (e : Failure) : Local (throw e : Reader α) := nofun

theorem lift (x : Attempt α) : Local (liftM x : Reader α) := by
  intro bytes a rest h
  obtain ⟨hx, rfl⟩ := lift_ok_iff.mp h
  exact ⟨[], rfl, Takes.lift hx⟩

theorem bind {read : Reader α} {next : α → Reader β} (h : Local read) (h' : ∀ a, Local (next a)) :
    Local (read >>= next) := by
  intro bytes b rest hr
  obtain ⟨a, mid, hread, hnext⟩ := bind_ok_iff.mp hr
  obtain ⟨front, rfl, hfront⟩ := h bytes a mid hread
  obtain ⟨back, rfl, hback⟩ := h' a mid b rest hnext
  exact ⟨front ++ back, (List.append_assoc ..).symm, hfront.bind hback⟩

theorem byte : Local byte := by
  intro bytes b rest h
  cases bytes with
  | nil => cases h
  | cons b' bytes =>
    cases h
    exact ⟨[b], rfl, Takes.byte b⟩

theorem nat : Local nat := by
  intro bytes n rest h
  obtain ⟨front, hfront, rfl, rfl⟩ := readLeb_ok_iff.mp h
  exact ⟨front, rfl, hfront.readLeb⟩

theorem int : Local int := by
  intro bytes n rest h
  obtain ⟨front, hfront, rfl, rfl⟩ := readSleb_ok_iff.mp h
  exact ⟨front, rfl, hfront.readSleb⟩

theorem take (n : Nat) : Local (take n) := by
  intro bytes front rest h
  obtain ⟨rfl, rfl⟩ := take_eq_ok h
  exact ⟨front, rfl, Takes.take front⟩

end Local

/-! ## Readers that need all that they take -/

/-- A reader that depends on what it takes only, and of that can spare no byte at the end. -/
structure Exact (read : Reader α) : Prop where
  isLocal : Local read
  ended : ∀ bytes a front, read bytes = .ok (a, []) → front <+: bytes → front ≠ bytes →
    read front = .error (.malformed .ended)

/-- A shorter front of bytes in two parts stops within the first one or reaches into the second. -/
theorem shorter_front_cases {front first second : Bytes} (h : front <+: first ++ second)
    (hne : front ≠ first ++ second) :
    (front <+: first ∧ front ≠ first) ∨
      ∃ back, front = first ++ back ∧ back <+: second ∧ back ≠ second := by
  by_cases hreach : first <+: front
  · right
    obtain ⟨back, rfl⟩ := hreach
    refine ⟨back, rfl, (List.prefix_append_right_inj first).mp h, ?_⟩
    rintro rfl
    exact hne rfl
  · left
    refine ⟨?_, ?_⟩
    · exact (List.prefix_or_prefix_of_prefix h (List.prefix_append _ _)).resolve_right hreach
    · rintro rfl
      exact hreach List.prefix_rfl

theorem shorter_front_cons {b : UInt8} {front rest : Bytes} (h : front <+: b :: rest)
    (hne : front ≠ b :: rest) :
    front = [] ∨ ∃ short, front = b :: short ∧ short <+: rest ∧ short ≠ rest := by
  rcases List.prefix_cons_iff.mp h with rfl | ⟨short, rfl, hshort⟩
  · exact .inl rfl
  · refine .inr ⟨short, rfl, hshort, ?_⟩
    rintro rfl
    exact hne rfl

theorem split?_eq_none {n : Nat} {bytes : Bytes} (h : bytes.length < n) : split? n bytes = none := by
  induction n generalizing bytes with
  | zero => omega
  | succ n ih =>
    cases bytes with
    | nil => rfl
    | cons b bytes => rw [split?, ih (by simpa using h), Option.map_none]

namespace Exact

theorem suffix {read : Reader α} (h : Exact read) {bytes rest : Bytes} {a : α}
    (hr : read bytes = .ok (a, rest)) : rest <:+ bytes := by
  obtain ⟨taken, rfl, -⟩ := h.isLocal bytes a rest hr
  exact List.suffix_append taken rest

theorem pure (a : α) : Exact (Pure.pure a : Reader α) := by
  refine ⟨.pure a, ?_⟩
  intro bytes b front h hfront hne
  have hbytes : bytes = [] := (Prod.mk.inj (Except.ok.inj h)).2
  rw [hbytes] at hfront hne
  exact absurd (List.prefix_nil.mp hfront) hne

theorem throw (e : Failure) : Exact (MonadExcept.throw e : Reader α) := ⟨.throw e, nofun⟩

theorem lift (x : Attempt α) : Exact (liftM x : Reader α) := by
  refine ⟨.lift x, ?_⟩
  intro bytes a front h hfront hne
  have hbytes : [] = bytes := (lift_ok_iff.mp h).2
  rw [← hbytes] at hfront hne
  exact absurd (List.prefix_nil.mp hfront) hne

theorem bind {read : Reader α} {next : α → Reader β} (h : Exact read) (h' : ∀ a, Exact (next a)) :
    Exact (read >>= next) := by
  refine ⟨h.isLocal.bind fun a => (h' a).isLocal, ?_⟩
  intro bytes b front hr hfront hne
  obtain ⟨a, second, hread, hnext⟩ := bind_ok_iff.mp hr
  obtain ⟨first, rfl, htakes⟩ := h.isLocal bytes a second hread
  -- the front lacks bytes of the first reader, or it has them all and the second one lacks some
  rcases shorter_front_cases hfront hne with ⟨hstop, hshort⟩ | ⟨back, rfl, hback, hshort⟩
  · have hfirst := htakes []
    rw [List.append_nil] at hfirst
    exact bind_of_error (h.ended first a front hfirst hstop hshort)
  · rw [bind_of_ok (htakes back)]
    exact (h' a).ended second b back hnext hback hshort

theorem guard {c : Prop} [Decidable c] {e : Failure} {next : PUnit → Reader α}
    (h : Exact (next ())) : Exact (if c then MonadExcept.throw e >>= next else next ()) := by
  split
  · exact (throw e).bind fun _ => h
  · exact h

theorem byte : Exact byte := by
  refine ⟨.byte, ?_⟩
  intro bytes b front h hfront hne
  cases bytes with
  | nil => cases h
  | cons b' rest =>
    cases h
    rcases shorter_front_cons hfront hne with rfl | ⟨short, rfl, hshort, hne⟩
    · rfl
    · exact absurd (List.prefix_nil.mp hshort) hne

theorem nat : Exact nat := by
  refine ⟨.nat, ?_⟩
  intro bytes n front h hfront hne
  obtain ⟨hbytes, -⟩ := readLeb_end_iff.mp h
  exact readLeb_open (hbytes.marked hfront hne)

theorem int : Exact int := by
  refine ⟨.int, ?_⟩
  intro bytes n front h hfront hne
  obtain ⟨hbytes, -⟩ := readSleb_end_iff.mp h
  exact readSleb_open (hbytes.marked hfront hne)

theorem take (n : Nat) : Exact (take n) := by
  refine ⟨.take n, ?_⟩
  intro bytes taken front h hfront hne
  obtain ⟨hbytes, hlen⟩ := take_eq_ok h
  rw [List.append_nil] at hbytes
  subst hbytes
  have hshort : front.length < n := by
    rw [← hlen]
    exact Nat.lt_of_le_of_ne hfront.length_le fun heq => hne (hfront.eq_of_length heq)
  rw [Reader.take, split?_eq_none hshort]

theorem text : Exact text := by
  refine nat.bind fun n => (take n).bind fun bytes => ?_
  cases Utf8.decode? bytes with
  | some s => exact pure s
  | none => exact throw _

theorem times {read : Reader α} (h : Exact read) (n : Nat) : Exact (times read n) := by
  induction n with
  | zero => exact pure []
  | succ n ih => exact h.bind fun a => ih.bind fun _ => pure _

theorem list {read : Reader α} (h : Exact read) : Exact (list read) := nat.bind h.times

end Exact

end CanisterShell.Candid.Wire.Reader
