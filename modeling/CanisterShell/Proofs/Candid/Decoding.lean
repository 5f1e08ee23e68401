import CanisterShell.Candid.Wire.Align
import CanisterShell.Proofs.Candid.Header
import Mathlib

/-!
# How decoding ends

Decoding a message gives values or an error of evaluation, but for two cases.  It does not end when
the message comes to a value that it is already reading, at the same bytes: records of the table that
hold each other without taking any (`decodeArgs_ends_iff`).  And it faults when the message comes to
a reference of more bytes than a principal can have (`decoding_fault_iff`).

A message that decodes is whole.  Whatever is cut off its end, decoding comes to the end of the input,
and whatever is put behind it is left over (`decodeArgs_whole`): messages are read exactly.  What bounds
the depth of the values depends on the length of the message, but no reading that ends comes up to it.
-/

namespace CanisterShell.Candid

open Relation (ReflTransGen TransGen)

namespace Wire

variable {scope : Scope} {depth : Nat} {types : List Ty} {bytes rest : Bytes} {c : Site}

/-! ## Values at some depth -/

/-- Beyond the pairs of a place and a number of bytes, only values that come back are cut off. -/
theorem readValues_exhausted_iff_recurs (hflat : Flat scope) (hrefs : ∀ t ∈ types, IsReference t)
    (hdepth : scope.length * (bytes.length + 1) < depth) :
    readValues scope depth types bytes = .error .exhausted ↔
      ∃ c, Meets scope types bytes c ∧ Recurs scope c := by
  rw [readValues_exhausted_iff]
  constructor
  · rintro ⟨c, hm, hc⟩
    have hlen := Nat.mul_le_mul_left scope.length (Nat.succ_le_succ hm.suffix.length_le)
    refine ⟨c, hm, recurs_of_nests hflat (hrefs _ hm.mem) (readValue_exhausted_iff.mp hc) ?_⟩
    exact Nat.lt_of_le_of_lt hlen hdepth
  · rintro ⟨c, hm, hc⟩
    exact ⟨c, hm, readValue_exhausted_iff.mpr (hc.nests depth)⟩

theorem exists_readValues_error_iff {e : Failure} (he : e ≠ .exhausted) :
    (∃ depth, readValues scope depth types bytes = .error e) ↔
      ∃ c, Meets scope types bytes c ∧ ∃ depth, readValue scope depth c.ty c.bytes = .error e := by
  constructor
  · rintro ⟨depth, h⟩
    obtain ⟨before, t, after, vs, rest, hts, hb, ht⟩ := readValues_error_iff.mp h
    exact ⟨⟨t, rest⟩, ⟨before, after, vs, depth, hts, hb⟩, depth, ht⟩
  · rintro ⟨c, ⟨before, after, vs, depth, rfl, hb⟩, depth', ht⟩
    have hb' : readValues scope (max depth depth') before bytes = .ok (vs, c.bytes) := by
      rw [readValues_mono (Nat.le_max_left depth depth') before bytes (by rw [hb]; nofun), hb]
    have ht' : readValue scope (max depth depth') c.ty c.bytes = .error e := by
      refine (readValue_mono (Nat.le_max_right depth depth') c.ty c.bytes ?_).trans ht
      rw [ht]
      exact fun h => he (Except.error.inj h)
    refine ⟨max depth depth', ?_⟩
    rw [readValues_append, Reader.bind_of_ok hb']
    exact Reader.bind_of_error (readValues_cons_of_error after ht')

theorem exists_holdsOverlong_of_fault {f : Fault}
    (h : readValue scope depth c.ty c.bytes = .error (.fault f)) :
    ∃ c' n, ReflTransGen (Enters scope) c c' ∧ HoldsOverlong scope c'.ty n c'.bytes ∧
      f = overlong n := by
  induction depth generalizing c with
  | zero => cases h
  | succ depth ih =>
    rw [readValue_succ] at h
    obtain h | ⟨layout, rest, hl, h⟩ := Reader.bind_error_iff.mp h
    · by_cases hlong : ∃ n, HoldsOverlong scope c.ty n c.bytes
      · obtain ⟨n, hn⟩ := hlong
        rw [readLayout_of_holdsOverlong hn] at h
        cases h
        exact ⟨c, n, .refl, hn, rfl⟩
      · obtain ⟨cause, hc⟩ := readLayout_plain (fun n hn => hlong ⟨n, hn⟩) _ h
        cases hc
    obtain h | ⟨vs, rest', -, h⟩ := Reader.bind_error_iff.mp h
    · obtain ⟨before, t, after, vs, mid, hts, hb, ht⟩ := readValues_error_iff.mp h
      have hstep : Enters scope c ⟨t, mid⟩ :=
        ⟨layout, rest, hl, before, after, vs, depth, hts, hb⟩
      obtain ⟨c', n, hreach, hn, rfl⟩ := ih (c := ⟨t, mid⟩) ht
      exact ⟨c', n, .head hstep hreach, hn, rfl⟩
    · obtain ⟨u, -, hfits⟩ := readLayout_fits hl
      obtain ⟨cause, hc⟩ := hfits.plain vs _ (Reader.lift_error_iff.mp h)
      cases hc

theorem exists_fault_of_holdsOverlong {c' : Site} {n : Nat}
    (hreach : ReflTransGen (Enters scope) c c') (h : HoldsOverlong scope c'.ty n c'.bytes) :
    ∃ depth, readValue scope depth c.ty c.bytes = .error (.fault (overlong n)) := by
  induction hreach using ReflTransGen.head_induction_on with
  | refl =>
    refine ⟨1, ?_⟩
    rw [readValue_succ]
    exact Reader.bind_of_error (readLayout_of_holdsOverlong h)
  | head hstep _ ih =>
    obtain ⟨layout, rest, hl, hm⟩ := hstep
    obtain ⟨depth, hd⟩ :=
      (exists_readValues_error_iff (e := .fault (overlong n)) (by nofun)).mpr ⟨_, hm, ih⟩
    refine ⟨depth + 1, ?_⟩
    rw [readValue_succ, Reader.bind_of_ok hl]
    exact Reader.bind_of_error hd

/-! ## Messages -/

/-- A message is behind its header, which gives definitions and the types of the arguments. -/
def Opens (bytes : Bytes) (scope : Scope) (types : List Ty) (rest : Bytes) : Prop :=
  ∃ body, bytes = magic ++ body ∧ readHeader body = .ok ((scope, types), rest)

theorem readMessage_magic (depth : Nat → Nat) (body : Bytes) :
    readMessage depth (magic ++ body) = (do
      let (scope, types) ← readHeader
      readValues scope (depth scope.length) types : Reader (List Value)) body := rfl

theorem readMessage_of_opens (h : Opens bytes scope types rest) (depth : Nat → Nat) :
    readMessage depth bytes = readValues scope (depth scope.length) types rest := by
  obtain ⟨body, rfl, hheader⟩ := h
  rw [readMessage_magic, Reader.bind_of_ok hheader]

theorem readMessage_plain (h : ∀ scope types rest, ¬Opens bytes scope types rest)
    (depth : Nat → Nat) : Attempt.Plain (readMessage depth bytes) := by
  intro e he
  obtain he | ⟨front, body, hfront, he'⟩ := Reader.bind_error_iff.mp he
  · exact Reader.Plain.take 4 bytes e he
  obtain ⟨rfl, -⟩ := Reader.take_eq_ok hfront
  by_cases hmagic : front = magic
  · subst hmagic
    rw [readMessage_magic] at he
    obtain he | ⟨⟨scope, types⟩, rest, hheader, -⟩ := Reader.bind_error_iff.mp he
    · exact readHeader_plain body e he
    · exact absurd ⟨body, rfl, hheader⟩ (h scope types rest)
  · dsimp only at he'
    rw [if_pos hmagic] at he'
    cases he'
    exact ⟨_, rfl⟩

theorem Opens.flat (h : Opens bytes scope types rest) :
    Flat scope ∧ ∀ t ∈ types, IsReference t := by
  obtain ⟨body, -, hheader⟩ := h
  exact readHeader_gives body (scope, types) rest hheader

theorem Opens.length_le (h : Opens bytes scope types rest) : rest.length ≤ bytes.length := by
  obtain ⟨body, rfl, hheader⟩ := h
  have hsuffix := readHeader_exact.suffix hheader
  exact (hsuffix.trans (List.suffix_append magic body)).length_le

/-- Reading a message comes to the site of a value. -/
def Reaches (bytes : Bytes) (scope : Scope) (c : Site) : Prop :=
  ∃ types rest c', Opens bytes scope types rest ∧ Meets scope types rest c' ∧
    ReflTransGen (Enters scope) c' c

/-- A message comes to a value in the middle of which it comes to that value again. -/
def ComesBack (bytes : Bytes) : Prop :=
  ∃ scope c, Reaches bytes scope c ∧ TransGen (Enters scope) c c

theorem Opens.comesBack_iff (h : Opens bytes scope types rest) :
    ComesBack bytes ↔ ∃ c, Meets scope types rest c ∧ Recurs scope c := by
  constructor
  · rintro ⟨scope', c, ⟨types', rest', c', h', hm, hreach⟩, hcycle⟩
    obtain ⟨body, rfl, hheader⟩ := h
    obtain ⟨body', hbody, hheader'⟩ := h'
    rw [← List.append_cancel_left hbody, hheader] at hheader'
    cases hheader'
    exact ⟨c', hm, c, hreach, hcycle⟩
  · rintro ⟨c', hm, c, hreach, hcycle⟩
    exact ⟨scope, c, ⟨types, rest, c', h, hm, hreach⟩, hcycle⟩

theorem readMessage_exhausted_iff {depth : Nat → Nat}
    (hdepth : ∀ places, places * (bytes.length + 1) < depth places) :
    readMessage depth bytes = .error .exhausted ↔ ComesBack bytes := by
  by_cases hopens : ∃ scope types rest, Opens bytes scope types rest
  · obtain ⟨scope, types, rest, hopen⟩ := hopens
    rw [readMessage_of_opens hopen, hopen.comesBack_iff]
    refine readValues_exhausted_iff_recurs hopen.flat.1 hopen.flat.2 ?_
    have hlen := Nat.mul_le_mul_left scope.length (Nat.succ_le_succ hopen.length_le)
    exact Nat.lt_of_le_of_lt hlen (hdepth scope.length)
  · constructor
    · intro h
      obtain ⟨cause, hc⟩ :=
        readMessage_plain (fun scope types rest ho => hopens ⟨scope, types, rest, ho⟩) depth _ h
      cases hc
    · rintro ⟨scope, c, ⟨types, rest, c', hopen, -⟩, -⟩
      exact absurd ⟨scope, types, rest, hopen⟩ hopens

theorem ComesBack.readMessage_exhausted (h : ComesBack bytes) (depth : Nat → Nat) :
    readMessage depth bytes = .error .exhausted := by
  obtain ⟨scope, c, ⟨types, rest, c', hopen, hm, hreach⟩, hcycle⟩ := h
  rw [readMessage_of_opens hopen, readValues_exhausted_iff]
  exact ⟨c', hm, readValue_exhausted_iff.mpr (Recurs.nests ⟨c, hreach, hcycle⟩ _)⟩

theorem lt_depthBound (length places : Nat) : places * (length + 1) < depthBound length places := by
  have hle : places * (length + 1) ≤ (length + 2) * places := by
    rw [Nat.mul_comm]
    exact Nat.mul_le_mul_right places (by omega)
  rw [depthBound]
  exact Nat.lt_of_le_of_lt hle ((Nat.mul_lt_mul_left (by omega)).mpr (by omega))

theorem exists_depth_of_not_comesBack (h : ¬ComesBack bytes) :
    ∃ depth, readMessage (fun _ => depth) bytes ≠ .error .exhausted := by
  by_cases hopens : ∃ scope types rest, Opens bytes scope types rest
  · obtain ⟨scope, types, rest, hopen⟩ := hopens
    refine ⟨depthBound bytes.length scope.length, fun hcut => h ?_⟩
    rw [readMessage_of_opens hopen] at hcut
    rwa [← readMessage_exhausted_iff (lt_depthBound bytes.length), readMessage_of_opens hopen]
  · refine ⟨0, fun hcut => ?_⟩
    obtain ⟨cause, hc⟩ :=
      readMessage_plain (fun scope types rest ho => hopens ⟨scope, types, rest, ho⟩) _ _ hcut
    cases hc

/-- A message comes to a reference of `n` bytes, which are too many. -/
def ComesToOverlong (bytes : Bytes) (n : Nat) : Prop :=
  ∃ scope c, Reaches bytes scope c ∧ HoldsOverlong scope c.ty n c.bytes

theorem readMessage_fault {f : Fault} {depth : Nat → Nat}
    (h : readMessage depth bytes = .error (.fault f)) :
    ∃ n, ComesToOverlong bytes n ∧ f = overlong n := by
  by_cases hopens : ∃ scope types rest, Opens bytes scope types rest
  · obtain ⟨scope, types, rest, hopen⟩ := hopens
    rw [readMessage_of_opens hopen] at h
    obtain ⟨before, t, after, vs, mid, hts, hb, ht⟩ := readValues_error_iff.mp h
    obtain ⟨c, n, hreach, hn, rfl⟩ := exists_holdsOverlong_of_fault (c := ⟨t, mid⟩) ht
    have hm : Meets scope types rest ⟨t, mid⟩ := ⟨before, after, vs, _, hts, hb⟩
    exact ⟨n, ⟨scope, c, ⟨types, rest, _, hopen, hm, hreach⟩, hn⟩, rfl⟩
  · obtain ⟨cause, hc⟩ :=
      readMessage_plain (fun scope types rest ho => hopens ⟨scope, types, rest, ho⟩) depth _ h
    cases hc

theorem Opens.readMessage_eq (h : Opens bytes scope types rest) {depth : Nat}
    (hends : readValues scope depth types rest ≠ .error .exhausted) {depth' : Nat → Nat}
    (hdepth : ∀ places, places * (bytes.length + 1) < depth' places) :
    readMessage depth' bytes = readValues scope depth types rest := by
  have hends' : readMessage depth' bytes ≠ .error .exhausted := by
    rw [ne_eq, readMessage_exhausted_iff hdepth]
    intro hback
    have hcut := hback.readMessage_exhausted fun _ => depth
    rw [readMessage_of_opens h] at hcut
    exact hends hcut
  rw [readMessage_of_opens h] at hends' ⊢
  -- what is not cut off comes to the same at the greater of both depths
  have hmono := readValues_mono (Nat.le_max_left depth (depth' scope.length)) types rest hends
  have hmono' := readValues_mono (Nat.le_max_right depth (depth' scope.length)) types rest hends'
  rw [← hmono, ← hmono']

theorem ComesToOverlong.readMessage_fault {n : Nat} (h : ComesToOverlong bytes n)
    {depth : Nat → Nat} (hdepth : ∀ places, places * (bytes.length + 1) < depth places) :
    readMessage depth bytes = .error (.fault (overlong n)) := by
  obtain ⟨scope, c, ⟨types, rest, c', hopen, hm, hreach⟩, hn⟩ := h
  have hvalue := exists_fault_of_holdsOverlong hreach hn
  obtain ⟨depth', h⟩ :=
    (exists_readValues_error_iff (e := .fault (overlong n)) (by nofun)).mpr ⟨c', hm, hvalue⟩
  rw [hopen.readMessage_eq (by rw [h]; nofun) hdepth, h]

end Wire

open Wire

theorem decodeArgs_error_iff {bytes : Bytes} {e : Failure} (he : e ≠ .malformed .trailing) :
    decodeArgs bytes = .error e ↔ readMessage (depthBound bytes.length) bytes = .error e := by
  rw [decodeArgs, StateT.run]
  cases readMessage (depthBound bytes.length) bytes with
  | error e' => exact ⟨fun h => by cases h; rfl, fun h => by cases h; rfl⟩
  | ok r =>
    refine ⟨fun h => ?_, nofun⟩
    obtain ⟨values, rest⟩ := r
    cases rest with
    | nil => cases h
    | cons b rest =>
      cases h
      exact absurd rfl he

theorem decodeArgs_of_opens {bytes rest : Bytes} {scope : Scope} {types : List Ty} {vs : List Value}
    {depth : Nat} (h : Opens bytes scope types rest)
    (hread : readValues scope depth types rest = .ok (vs, [])) : decodeArgs bytes = .ok vs := by
  have hmessage := h.readMessage_eq (by rw [hread]; nofun) (lt_depthBound bytes.length)
  rw [decodeArgs, StateT.run, hmessage, hread]
  rfl

/-- Decoding ends, at some depth of nesting and at the one that it allows itself, unless the message
comes to a value in the middle of which it comes to that value again. -/
theorem decodeArgs_ends_iff (bytes : Bytes) :
    ((∃ depth, readMessage (fun _ => depth) bytes ≠ .error .exhausted) ↔ ¬ComesBack bytes) ∧
      (decodeArgs bytes ≠ .error .exhausted ↔ ¬ComesBack bytes) := by
  constructor
  · constructor
    · rintro ⟨depth, hne⟩ hback
      exact hne (hback.readMessage_exhausted _)
    · exact exists_depth_of_not_comesBack
  · rw [ne_eq, decodeArgs_error_iff (by nofun),
      readMessage_exhausted_iff (lt_depthBound bytes.length)]

/-- A record whose only field is that record is never read to the end. -/
theorem record_of_itself_never_ends :
    ¬∃ depth, readMessage (fun _ => depth)
      [0x44, 0x49, 0x44, 0x4C, 1, 0x6C, 1, 0, 0, 1, 0] ≠ .error .exhausted := by
  rintro ⟨depth, hne⟩
  refine hne (ComesBack.readMessage_exhausted ?_ _)
  let scope : Scope := [("table0", .record [(.numbered 0, .var "table0")])]
  let c : Site := ⟨.var "table0", []⟩
  have hresolve : scope.resolve c.ty = .ok (.record [(.numbered 0, .var "table0")]) :=
    Scope.resolve_var rfl nofun
  have hlayout := congrFun (readLayout_of_resolve hresolve) []
  have hstep : Enters scope c c := ⟨_, [], hlayout, [], [], [], 0, rfl, rfl⟩
  have hopens : Opens [0x44, 0x49, 0x44, 0x4C, 1, 0x6C, 1, 0, 0, 1, 0] scope [.var "table0"] [] :=
    ⟨[1, 0x6C, 1, 0, 0, 1, 0], rfl, rfl⟩
  exact ⟨scope, c, ⟨_, _, c, hopens, ⟨[], [], [], 0, rfl, rfl⟩, .refl⟩, .single hstep⟩

/-! ## Alignment -/

namespace Wire

open Attempt (Plain)

theorem alignLeaf_plain (scope : Scope) (v : Value) (t : Ty) :
    Plain (do return alignLeaf v (← scope.resolve t)) :=
  (Scope.resolve_plain scope t).bind fun _ => .ok _

theorem alignRecord_plain (scope : Scope) {fields : List (Label × Aligner)}
    (h : ∀ f ∈ fields, ∀ t, Plain (f.2 t)) (expected : List (Label × Ty)) :
    Plain (alignRecord scope fields expected) := by
  refine .bind (.mapM (fun ⟨label, u⟩ => ?_) expected) Value.mkRecord_plain
  dsimp only
  split
  · next align halign =>
    obtain ⟨f, hf, rfl⟩ := Option.map_eq_some_iff.mp halign
    exact (h f (List.mem_of_find?_eq_some hf) u).bind fun _ => .ok _
  · refine (Scope.resolve_plain scope u).bind fun _ => ?_
    split
    · exact .ok _
    · exact .eval _

mutual

theorem alignValue_plain (scope : Scope) (v : Value) (t : Ty) : Plain (alignValue scope v t) := by
  cases v with
  | opt item =>
    rw [alignValue]
    refine (Scope.resolve_plain scope t).bind fun u => ?_
    split
    · exact (alignValue_plain scope item _).bind fun _ => .ok _
    · exact .ok _
  | vec items =>
    rw [alignValue]
    refine (Scope.resolve_plain scope t).bind fun u => ?_
    split
    · exact (alignItems_plain scope items _).bind fun _ => .ok _
    · exact .ok _
  | record fields =>
    rw [alignValue]
    refine (Scope.resolve_plain scope t).bind fun u => ?_
    split
    · exact alignRecord_plain scope (fieldAligners_plain scope fields) _
    · exact .ok _
  | variant label item index =>
    rw [alignValue]
    refine (Scope.resolve_plain scope t).bind fun u => ?_
    split
    · split
      · exact .eval _
      · split
        · exact (alignValue_plain scope item _).bind fun _ => .ok _
        · exact .eval _
    · exact .ok _
  | _ => exact alignLeaf_plain scope _ t

theorem alignItems_plain (scope : Scope) (vs : List Value) (t : Ty) :
    Plain (alignItems scope vs t) := by
  cases vs with
  | nil => exact .ok _
  | cons v vs =>
    exact (alignValue_plain scope v t).bind fun _ => (alignItems_plain scope vs t).bind fun _ => .ok _

theorem fieldAligners_plain (scope : Scope) (fields : List (Label × Value)) :
    ∀ f ∈ fieldAligners scope fields, ∀ t, Plain (f.2 t) := by
  cases fields with
  | nil => nofun
  | cons f fields =>
    intro g hg t
    obtain rfl | hg := List.mem_cons.mp hg
    · exact alignValue_plain scope f.2 t
    · exact fieldAligners_plain scope fields g hg t

end

theorem alignAll_plain (scope : Scope) (total got : Nat) (vs : List Value) (ts : List Ty) :
    Plain (alignAll scope total got vs ts) := by
  fun_induction alignAll scope total got vs ts with
  | case1 vs => exact .ok _
  | case2 v values t types ih =>
    exact (alignValue_plain scope v t).bind fun _ => ih.bind fun _ => .ok _
  | case3 t types ih =>
    refine (Scope.resolve_plain scope t).bind fun u => ?_
    split
    · exact ih.bind fun _ => .ok _
    · exact ih.bind fun _ => .ok _
    · exact ih.bind fun _ => .ok _
    · exact .eval _

end Wire

/-- Decoding fails unforeseen on a message that comes back to a value in the middle of it, or comes to a
reference that is too long. -/
theorem decodeArgs_unforeseen_iff (bytes : Bytes) :
    Attempt.Unforeseen (decodeArgs bytes) ↔ ComesBack bytes ∨ ∃ n, ComesToOverlong bytes n := by
  constructor
  · rintro ⟨f, hf, hne⟩
    cases f with
    | error e => exact absurd rfl (hne e)
    | fault f =>
      obtain ⟨n, hn, -⟩ := readMessage_fault ((decodeArgs_error_iff (by nofun)).mp hf)
      exact .inr ⟨n, hn⟩
    | exhausted =>
      rw [decodeArgs_error_iff (by nofun), readMessage_exhausted_iff (lt_depthBound _)] at hf
      exact .inl hf
  · rintro (h | ⟨n, hn⟩)
    · exact ⟨_, (decodeArgs_error_iff (by nofun)).mpr (h.readMessage_exhausted _), nofun⟩
    · exact ⟨_, (decodeArgs_error_iff (by nofun)).mpr (hn.readMessage_fault (lt_depthBound _)), nofun⟩

theorem decodeAs_unforeseen_iff (scope : Scope) (bytes : Bytes) (types : List Ty) :
    Attempt.Unforeseen (decodeAs scope bytes types) ↔ Attempt.Unforeseen (decodeArgs bytes) := by
  rw [decodeAs, Attempt.unforeseen_bind_iff]
  refine ⟨fun h => h.resolve_right ?_, .inl⟩
  rintro ⟨values, -, h⟩
  exact (alignAll_plain scope _ _ values types).foreseen.not_unforeseen h

theorem decodeAs_fault_iff_decodeArgs {scope : Scope} {bytes : Bytes} {types : List Ty} {f : Fault} :
    decodeAs scope bytes types = .error (.fault f) ↔ decodeArgs bytes = .error (.fault f) := by
  rw [decodeAs]
  cases decodeArgs bytes with
  | error e => exact ⟨fun h => by cases h; rfl, fun h => by cases h; rfl⟩
  | ok values =>
    refine ⟨fun h => ?_, nofun⟩
    obtain ⟨cause, hc⟩ := alignAll_plain scope types.length values.length values types _ h
    cases hc

/-- Decoding that ends gives values or an error that the language foresees, with and without expected
types, unless the message comes to a reference of more bytes than a principal can have. -/
theorem decoding_fault_iff (bytes : Bytes) (f : Fault) :
    (decodeArgs bytes = .error (.fault f) ↔ ∃ n, ComesToOverlong bytes n ∧ f = overlong n) ∧
      ∀ scope types, decodeAs scope bytes types = .error (.fault f) ↔
        ∃ n, ComesToOverlong bytes n ∧ f = overlong n := by
  have hdecode : decodeArgs bytes = .error (.fault f) ↔
      ∃ n, ComesToOverlong bytes n ∧ f = overlong n := by
    rw [decodeArgs_error_iff (by nofun)]
    refine ⟨readMessage_fault, ?_⟩
    rintro ⟨n, hn, rfl⟩
    exact hn.readMessage_fault (lt_depthBound bytes.length)
  exact ⟨hdecode, fun scope types => decodeAs_fault_iff_decodeArgs.trans hdecode⟩

/-- A principal of 30 bytes is a fault. -/
theorem thirty_bytes_fault :
    decodeArgs ([0x44, 0x49, 0x44, 0x4C, 0, 1, 0x68, 1, 30] ++ List.replicate 30 0) =
      .error (.fault (.badValue "principal too long: 30 bytes")) := by
  rw [decodeArgs_error_iff (by nofun)]
  refine ComesToOverlong.readMessage_fault (n := 30) ?_ (lt_depthBound _)
  have hopens : Opens ([0x44, 0x49, 0x44, 0x4C, 0, 1, 0x68, 1, 30] ++ List.replicate 30 0) []
      [.principal] ([1, 30] ++ List.replicate 30 0) :=
    ⟨[0, 1, 0x68, 1, 30] ++ List.replicate 30 0, rfl, rfl⟩
  have hlong : IsOverlong 30 ([1, 30] ++ List.replicate 30 0) := ⟨_, _, rfl, rfl, by decide, by decide⟩
  refine ⟨[], ⟨.principal, _⟩, ⟨_, _, _, hopens, ⟨[], [], [], 0, rfl, rfl⟩, .refl⟩, ?_⟩
  exact ⟨_, _, Scope.resolve_of_ne_var nofun, rfl, hlong⟩

/-! ## Messages cut off or drawn out -/

namespace Wire

theorem readMessage_exact (depth : Nat → Nat) : Reader.Exact (readMessage depth) := by
  refine (Reader.Exact.take 4).bind fun front => .guard ?_
  refine readHeader_exact.bind ?_
  intro header
  exact readValues_exact _ _ _

section Depth
variable {bytes : Bytes}

theorem readMessage_of_not_opens (h : ∀ scope types rest, ¬Opens bytes scope types rest)
    (depth depth' : Nat → Nat) : readMessage depth bytes = readMessage depth' bytes := by
  cases htake : Reader.take 4 bytes with
  | error e => rw [readMessage, readMessage, Reader.bind_of_error htake, Reader.bind_of_error htake]
  | ok r =>
    obtain ⟨front, body⟩ := r
    obtain ⟨rfl, -⟩ := Reader.take_eq_ok htake
    by_cases hmagic : front = magic
    · subst hmagic
      rw [readMessage_magic, readMessage_magic]
      cases hheader : readHeader body with
      | error e => rw [Reader.bind_of_error hheader, Reader.bind_of_error hheader]
      | ok r =>
        obtain ⟨⟨scope, types⟩, rest⟩ := r
        exact absurd ⟨body, rfl, hheader⟩ (h scope types rest)
    · rw [readMessage, readMessage, Reader.bind_of_ok htake, Reader.bind_of_ok htake]
      dsimp only
      rw [if_pos hmagic, if_pos hmagic]
      rfl

/-- A message that is not cut off at some depth comes to the same at the depth that its length allows. -/
theorem readMessage_depthBound {depth : Nat → Nat}
    (h : readMessage depth bytes ≠ .error .exhausted) :
    readMessage (depthBound bytes.length) bytes = readMessage depth bytes := by
  by_cases hopens : ∃ scope types rest, Opens bytes scope types rest
  · obtain ⟨scope, types, rest, hopen⟩ := hopens
    rw [readMessage_of_opens hopen] at h
    rw [hopen.readMessage_eq h (lt_depthBound bytes.length), readMessage_of_opens hopen]
  · exact readMessage_of_not_opens (fun scope types rest ho => hopens ⟨scope, types, rest, ho⟩) _ _

end Depth

end Wire

theorem readMessage_of_decodeArgs {bytes : Bytes} {vs : List Value} (h : decodeArgs bytes = .ok vs) :
    readMessage (depthBound bytes.length) bytes = .ok (vs, []) := by
  obtain ⟨⟨values, rest⟩, hread, hlast⟩ := Attempt.bind_ok_iff.mp h
  cases rest with
  | nil =>
    cases hlast
    exact hread
  | cons b rest => cases hlast

/-- Of a message that decodes no shorter front does, and with anything behind it it does not either. -/
theorem decodeArgs_whole {bytes : Bytes} {vs : List Value} (h : decodeArgs bytes = .ok vs) :
    (∀ front, front <+: bytes → front ≠ bytes → decodeArgs front = .error (.malformed .ended)) ∧
      ∀ back, back ≠ [] → decodeArgs (bytes ++ back) = .error (.malformed .trailing) := by
  have hread := readMessage_of_decodeArgs h
  have hexact := readMessage_exact (depthBound bytes.length)
  constructor
  · intro front hfront hne
    have hended := hexact.ended bytes vs front hread hfront hne
    rw [decodeArgs_error_iff (by nofun), readMessage_depthBound (by rw [hended]; nofun), hended]
  · intro back hback
    obtain ⟨taken, hbytes, htakes⟩ := hexact.isLocal bytes vs [] hread
    rw [List.append_nil] at hbytes
    subst hbytes
    have hover := htakes back
    have hmessage := readMessage_depthBound (by rw [hover]; nofun)
    rw [decodeArgs, StateT.run, hmessage, hover]
    cases back with
    | nil => exact absurd rfl hback
    | cons b back => rfl

/-- A vector of one text decodes, not without its last letter, and not with a byte behind it. -/
theorem vector_of_text_whole :
    decodeArgs [0x44, 0x49, 0x44, 0x4C, 1, 0x6D, 0x71, 1, 0, 1, 2, 0x68, 0x69] =
        .ok [.vec [.text "hi"]] ∧
      decodeArgs [0x44, 0x49, 0x44, 0x4C, 1, 0x6D, 0x71, 1, 0, 1, 2, 0x68] =
        .error (.malformed .ended) ∧
      decodeArgs [0x44, 0x49, 0x44, 0x4C, 1, 0x6D, 0x71, 1, 0, 1, 2, 0x68, 0x69, 0] =
        .error (.malformed .trailing) := by
  have h : decodeArgs [0x44, 0x49, 0x44, 0x4C, 1, 0x6D, 0x71, 1, 0, 1, 2, 0x68, 0x69] =
      .ok [.vec [.text "hi"]] := by
    cbv
  obtain ⟨hshort, hlong⟩ := decodeArgs_whole h
  exact ⟨h, hshort _ ⟨[0x69], rfl⟩ (by decide), hlong [0] (by decide)⟩

end CanisterShell.Candid
