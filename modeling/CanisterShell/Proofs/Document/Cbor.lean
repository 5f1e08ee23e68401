import CanisterShell.Document.Cbor
import CanisterShell.Proofs.Bytes
import CanisterShell.Proofs.Document.Json
import CanisterShell.Proofs.Text.Utf8
import Mathlib.Tactic.IntervalCases

/-!
# CBOR read back

What is written as CBOR behind its tag reads back as it was, except that collections inside a tag are
frozen (`decode?_encodeTagged`).  A reader that takes the bytes of a datum takes no more
of them, so that items and entries are read one behind the other.
-/

namespace CanisterShell.Cbor

/-! ## Readers -/

/-- The reader gives a value for the bytes, whatever stands behind them, and leaves that. -/
def Takes {α : Type} (read : Reader α) (bytes : Bytes) (a : α) : Prop :=
  ∀ rest, read (bytes ++ rest) = some (a, rest)

namespace Takes

variable {α β : Type} {read : Reader α} {next' : α → Reader β} {front back : Bytes} {a : α} {b : β}

theorem pure (a : α) : Takes (pure a) [] a := fun _ => rfl

theorem bind (h : Takes read front a) (h' : Takes (next' a) back b) :
    Takes (read >>= next') (front ++ back) b := by
  intro rest
  rw [List.append_assoc]
  show (read (front ++ (back ++ rest)) >>= fun s => next' s.1 s.2) = _
  rw [h]
  exact h' rest

theorem bind_last (h : Takes read front a) (h' : Takes (next' a) [] b) :
    Takes (read >>= next') front b := by
  have hb := h.bind h'
  rwa [List.append_nil] at hb

theorem lift (a : α) : Takes (liftM (some a) : Reader α) [] a := fun _ => rfl

theorem next (b : UInt8) : Takes next [b] b := fun _ => rfl

theorem take {n : Nat} {bytes : Bytes} (h : bytes.length = n) : Takes (take n) bytes bytes := by
  intro rest
  have hle : n ≤ (bytes ++ rest).length := by
    rw [List.length_append]
    omega
  rw [Cbor.take, if_pos hle, List.splitAt_eq, ← h, List.take_left, List.drop_left]

end Takes

/-! ## Heads -/

theorem length_head_pos (major n : Nat) : 0 < (head major n).length := by
  unfold head
  split_ifs <;> exact Nat.succ_pos _

theorem ofNat_of_lt {n : Nat} (h : n < 256) : (UInt8.ofNat n).toNat = n := by
  rw [UInt8.toNat_ofNat']
  omega

theorem head_takes {major n : Nat} (hmajor : major < 8) (hn : n < 2 ^ 64) :
    ∃ b more, head major n = b :: more ∧ b.toNat / 32 = major ∧
      Takes (argument (b.toNat % 32)) more (some n) := by
  have hfixed (width info : Nat) (hinfo : info < 32) (hfits : n < 2 ^ (8 * width))
      (hread : argument info = do return some (Bytes.toNatBE (← take width))) :
      ∃ b more, UInt8.ofNat (32 * major + info) :: Bytes.ofNatBE width n = b :: more ∧
        b.toNat / 32 = major ∧ Takes (argument (b.toNat % 32)) more (some n) := by
    have hb : (UInt8.ofNat (32 * major + info)).toNat = 32 * major + info := ofNat_of_lt (by omega)
    refine ⟨_, _, rfl, by omega, ?_⟩
    rw [hb, Nat.mul_add_mod, Nat.mod_eq_of_lt hinfo, hread]
    refine (Takes.take (Bytes.length_ofNatBE width n)).bind_last ?_
    rw [Bytes.toNatBE_ofNatBE hfits]
    exact .pure _
  unfold head
  split_ifs with h5 h8 h16 h32
  · have hb : (UInt8.ofNat (32 * major + n)).toNat = 32 * major + n := ofNat_of_lt (by omega)
    refine ⟨_, _, rfl, by omega, ?_⟩
    rw [hb, Nat.mul_add_mod, Nat.mod_eq_of_lt (by omega), argument, if_pos h5]
    exact .pure _
  · exact hfixed 1 24 (by decide) h8 rfl
  · exact hfixed 2 25 (by decide) h16 rfl
  · exact hfixed 4 26 (by decide) h32 rfl
  · exact hfixed 8 27 (by decide) hn rfl

/-- What stands behind the head of an item. -/
def content (frozen : Bool) (fuel : Nat) : (major n : Nat) → Reader Datum
  | 0, n => return .int n
  | 1, n => return .int (-1 - (n : Int))
  | 2, n => do return .bytes (← stringPieces 2 fuel (some n)).flatten
  | 3, n => do
    let texts ← ((← stringPieces 3 fuel (some n)).mapM Utf8.decode? : Option (List String))
    return .text (String.join texts)
  | 4, n => do return collection frozen (.list (← items frozen (some n) fuel))
  | 5, n => do
    let entries ← entries frozen (some n) fuel
    return collection frozen (Datum.ofEntries entries)
  | 6, tag => do
    let content ← item true fuel
    (tagged tag content : Option Datum)
  | _, _ => failure

theorem item_takes_head {frozen : Bool} {fuel major n : Nat} {bytes : Bytes} {d : Datum}
    (hmajor : major < 7) (hn : n < 2 ^ 64) (h : Takes (content frozen fuel major n) bytes d) :
    Takes (item frozen (fuel + 1)) (head major n ++ bytes) d := by
  obtain ⟨b, more, hhead, hb, harg⟩ := head_takes (Nat.lt_succ_of_lt hmajor) hn
  rw [hhead, List.cons_append, item]
  refine Takes.bind (Takes.next b) ?_
  dsimp only
  rw [hb, if_neg (by omega)]
  refine harg.bind ?_
  interval_cases major <;> exact h

/-! ## What is read -/

/-- A datum that reads back as it is: numbers are whole, and the keys of a map are texts, no text
twice. -/
inductive Regular : Datum → Prop
  | null : Regular .null
  | bool (b : Bool) : Regular (.bool b)
  | int (n : Int) : Regular (.int n)
  | text (s : String) : Regular (.text s)
  | bytes (b : Bytes) : Regular (.bytes b)
  | list {items : List Datum} : (∀ d ∈ items, Regular d) → Regular (.list items)
  | map {entries : List (Datum × Datum)} : (∀ e ∈ entries, ∃ s, e.1 = .text s) →
    entries.Pairwise (fun e e' => e.1.sameKey e'.1 = false) → (∀ e ∈ entries, Regular e.2) →
    Regular (.map entries)

mutual

/-- A datum as it is read: inside a tag its collections are frozen. -/
def asRead (frozen : Bool) : Datum → Datum
  | .list items => collection frozen (.list (itemsAsRead frozen items))
  | .map entries => collection frozen (.map (entriesAsRead frozen entries))
  | d => d

def itemsAsRead (frozen : Bool) : List Datum → List Datum
  | [] => []
  | d :: rest => asRead frozen d :: itemsAsRead frozen rest

def entriesAsRead (frozen : Bool) : List (Datum × Datum) → List (Datum × Datum)
  | [] => []
  | (k, v) :: rest => (k, asRead frozen v) :: entriesAsRead frozen rest

end

theorem entriesAsRead_eq_map (frozen : Bool) (entries : List (Datum × Datum)) :
    entriesAsRead frozen entries = entries.map fun e => (e.1, asRead frozen e.2) := by
  induction entries with
  | nil => rfl
  | cons e entries ih => rw [entriesAsRead, ih, List.map_cons]

/-! ## Numbers and strings -/

theorem content_string_takes {frozen : Bool} {fuel n : Nat} {bytes : Bytes}
    (h : bytes.length = n) : Takes (content frozen fuel 2 n) bytes (.bytes bytes) := by
  have hpieces : Takes (stringPieces 2 fuel (some n)) bytes [bytes] :=
    (Takes.take h).bind_last (.pure _)
  refine hpieces.bind_last ?_
  rw [List.flatten_singleton]
  exact .pure _

theorem item_takes_bytes (frozen : Bool) {fuel : Nat} {b : Bytes} (hfuel : 0 < fuel)
    (h : b.length < 2 ^ 64) : Takes (item frozen fuel) (bytes b) (.bytes b) := by
  obtain ⟨fuel, rfl⟩ := Nat.exists_eq_add_of_le' hfuel
  exact item_takes_head (by decide) h (content_string_takes rfl)

theorem item_takes_text (frozen : Bool) {fuel : Nat} {s : String} (hfuel : 0 < fuel)
    (h : (Utf8.encode s).length < 2 ^ 64) : Takes (item frozen fuel) (text s) (.text s) := by
  obtain ⟨fuel, rfl⟩ := Nat.exists_eq_add_of_le' hfuel
  refine item_takes_head (by decide) h ?_
  have hpieces : Takes (stringPieces 3 fuel (some (Utf8.encode s).length)) (Utf8.encode s)
      [Utf8.encode s] := (Takes.take rfl).bind_last (.pure _)
  refine hpieces.bind_last ?_
  have htexts : [Utf8.encode s].mapM Utf8.decode? = some [s] := by
    rw [List.mapM_cons, List.mapM_nil, Utf8.decode?_encode]
    rfl
  rw [htexts]
  exact (Takes.lift _).bind_last (.pure _)

theorem lt_of_byteWidth (n : Nat) : n < 2 ^ (8 * byteWidth n) := by
  rw [byteWidth]
  split
  · next h => rw [h]; decide
  · refine (Nat.lt_log2_self (n := n)).trans_le (Nat.pow_le_pow_right (by decide) ?_)
    omega

theorem item_takes_integer (frozen : Bool) (fuel : Nat) {major n : Nat} (hfuel : 1 < fuel)
    (hmajor : major < 2) (h : (integer major n).length < 2 ^ 64) :
    Takes (item frozen fuel) (integer major n)
      (.int (if major = 0 then n else -1 - (n : Int))) := by
  obtain ⟨fuel, rfl⟩ := Nat.exists_eq_add_of_le' hfuel
  rw [integer] at h ⊢
  by_cases hfits : n < 2 ^ 64
  · rw [if_pos hfits]
    have hhead {d : Datum} (hd : content frozen (fuel + 1) major n = pure d) :
        Takes (item frozen (fuel + 2)) (head major n ++ []) d :=
      item_takes_head (by omega) hfits (by rw [hd]; exact .pure d)
    rw [List.append_nil] at hhead
    interval_cases major
    · exact hhead rfl
    · exact hhead rfl
  · rw [if_neg hfits] at h ⊢
    have hwidth : (Bytes.ofNatBE (byteWidth n) n).length < 2 ^ 64 := by
      rw [List.length_append, bytes, List.length_append] at h
      omega
    refine item_takes_head (by decide) (by omega) ?_
    refine (item_takes_bytes true (Nat.succ_pos fuel) hwidth).bind_last ?_
    have htagged : tagged (2 + major) (.bytes (Bytes.ofNatBE (byteWidth n) n)) =
        some (.int (if major = 0 then n else -1 - (n : Int))) := by
      rw [tagged, Bytes.toNatBE_ofNatBE (lt_of_byteWidth n)]
      interval_cases major <;> rfl
    rw [htagged]
    exact .lift _

/-! ## Items and entries -/

theorem length_integer_pos (major n : Nat) : 0 < (integer major n).length := by
  rw [integer]
  split
  · exact length_head_pos major n
  · rw [List.length_append]
    exact Nat.add_pos_left (length_head_pos _ _) _

theorem length_encode_pos (d : Datum) : 0 < (encode d).length := by
  have happend (major n : Nat) (bytes : Bytes) : 0 < (head major n ++ bytes).length := by
    rw [List.length_append]
    exact Nat.add_pos_left (length_head_pos major n) _
  match d with
  | .null | .bool _ | .float _ | .other _ => exact Nat.succ_pos _
  | .int n =>
    rw [encode]
    split
    · exact length_integer_pos 1 _
    · exact length_integer_pos 0 _
  | .text s => exact happend ..
  | .bytes b => exact happend ..
  | .list items => exact happend ..
  | .map entries => exact happend ..
  | .frozen d => exact length_encode_pos d

theorem length_le_encodeItems (ds : List Datum) : ds.length ≤ (encodeItems ds).length := by
  induction ds with
  | nil => exact Nat.zero_le _
  | cons d ds ih =>
    have hpos := length_encode_pos d
    rw [encodeItems, List.length_append, List.length_cons]
    omega

theorem length_le_encodeEntries (entries : List (Datum × Datum)) :
    entries.length ≤ (encodeEntries entries).length := by
  induction entries with
  | nil => exact Nat.zero_le _
  | cons e entries ih =>
    have hpos := length_encode_pos e.1
    rw [encodeEntries, List.length_append, List.length_append, List.length_cons]
    omega

/-- A datum reads back with this much fuel, in a message of any size that heads can tell. -/
def ReadsBack (frozen : Bool) (d : Datum) : Prop :=
  ∀ fuel, 2 * (encode d).length ≤ fuel → (encode d).length < 2 ^ 64 →
    Takes (item frozen fuel) (encode d) (asRead frozen d)

theorem items_takes {frozen : Bool} {ds : List Datum} (h : ∀ d ∈ ds, ReadsBack frozen d)
    {fuel : Nat} (hfuel : 2 * (encodeItems ds).length < fuel)
    (hsize : (encodeItems ds).length < 2 ^ 64) :
    Takes (items frozen (some ds.length) fuel) (encodeItems ds) (itemsAsRead frozen ds) := by
  induction ds generalizing fuel with
  | nil =>
    obtain ⟨fuel, rfl⟩ := Nat.exists_eq_add_of_lt hfuel
    exact .pure []
  | cons d ds ih =>
    obtain ⟨hd, hds⟩ := List.forall_mem_cons.mp h
    have hpos := length_encode_pos d
    rw [encodeItems, List.length_append] at hfuel hsize
    obtain ⟨fuel, rfl⟩ := Nat.exists_eq_add_of_lt hfuel
    rw [encodeItems, itemsAsRead, List.length_cons, items]
    simp only [Option.isNone_some, Bool.false_eq_true, if_false, pure_bind]
    rw [if_neg (by simp)]
    refine (hd _ (by omega) (by omega)).bind ((ih hds ?_ (by omega)).bind_last (.pure _))
    omega

theorem entries_takes {frozen : Bool} {entries : List (Datum × Datum)}
    (hkeys : ∀ e ∈ entries, ∃ s, e.1 = .text s) (h : ∀ e ∈ entries, ReadsBack frozen e.2)
    {fuel : Nat} (hfuel : 2 * (encodeEntries entries).length < fuel)
    (hsize : (encodeEntries entries).length < 2 ^ 64) :
    Takes (Cbor.entries frozen (some entries.length) fuel) (encodeEntries entries)
      (entriesAsRead frozen entries) := by
  induction entries generalizing fuel with
  | nil =>
    obtain ⟨fuel, rfl⟩ := Nat.exists_eq_add_of_lt hfuel
    exact .pure []
  | cons e entries ih =>
    obtain ⟨k, v⟩ := e
    obtain ⟨⟨s, hs⟩, hkeys'⟩ := List.forall_mem_cons.mp hkeys
    obtain ⟨hv, h'⟩ := List.forall_mem_cons.mp h
    obtain rfl : k = .text s := hs
    have hpos := length_encode_pos (.text s)
    have hpos' := length_encode_pos v
    have htext : (Utf8.encode s).length ≤ (encode (.text s)).length := by
      rw [encode, text, List.length_append]
      omega
    rw [encodeEntries, List.length_append, List.length_append] at hfuel hsize
    obtain ⟨fuel, rfl⟩ := Nat.exists_eq_add_of_lt hfuel
    rw [encodeEntries, entriesAsRead, List.length_cons, Cbor.entries, List.append_assoc]
    simp only [Option.isNone_some, Bool.false_eq_true, if_false, pure_bind]
    rw [if_neg (by simp)]
    refine (item_takes_text true (by omega) (by omega)).bind ?_
    refine (hv _ (by dsimp only; omega) (by dsimp only; omega)).bind ?_
    exact (ih hkeys' h' (by omega) (by omega)).bind_last (.pure _)

theorem Regular.readsBack {d : Datum} (h : Regular d) (frozen : Bool) : ReadsBack frozen d := by
  induction h with
  | null =>
    intro fuel hfuel _
    obtain ⟨fuel, rfl⟩ := Nat.exists_eq_add_of_le'
      (Nat.lt_of_lt_of_le (Nat.mul_pos two_pos (length_encode_pos _)) hfuel : 0 < fuel)
    exact fun rest => rfl
  | bool b =>
    intro fuel hfuel _
    obtain ⟨fuel, rfl⟩ := Nat.exists_eq_add_of_le'
      (Nat.lt_of_lt_of_le (Nat.mul_pos two_pos (length_encode_pos _)) hfuel : 0 < fuel)
    cases b <;> exact fun rest => rfl
  | int n =>
    intro fuel hfuel hsize
    have hpos := length_encode_pos (.int n)
    rw [encode] at hpos hfuel hsize ⊢
    split at hsize
    · next hneg =>
      rw [if_pos hneg] at hpos hfuel ⊢
      have htakes := item_takes_integer frozen fuel (by omega) (by decide) hsize
      rwa [if_neg Nat.one_ne_zero, Int.toNat_of_nonneg (by omega), sub_sub_cancel] at htakes
    · next hnonneg =>
      rw [if_neg hnonneg] at hpos hfuel ⊢
      have htakes := item_takes_integer frozen fuel (by omega) (by decide) hsize
      rwa [if_pos rfl, Int.toNat_of_nonneg (by omega)] at htakes
  | text s =>
    intro fuel hfuel hsize
    have hpos := length_encode_pos (.text s)
    rw [encode, Cbor.text, List.length_append] at hsize
    exact item_takes_text frozen (by omega) (by omega)
  | bytes b =>
    intro fuel hfuel hsize
    have hpos := length_encode_pos (.bytes b)
    rw [encode, Cbor.bytes, List.length_append] at hsize
    exact item_takes_bytes frozen (by omega) (by omega)
  | @list items h ih =>
    intro fuel hfuel hsize
    have hhead := length_head_pos 4 items.length
    have hitems := length_le_encodeItems items
    rw [encode, List.length_append] at hfuel hsize
    obtain ⟨fuel, rfl⟩ := Nat.exists_eq_add_of_le' (by omega : 0 < fuel)
    refine item_takes_head (by decide) (by omega) ?_
    exact (items_takes ih (by omega) (by omega)).bind_last (.pure _)
  | @map entries hkeys hdistinct h ih =>
    intro fuel hfuel hsize
    have hhead := length_head_pos 5 entries.length
    have hentries := length_le_encodeEntries entries
    rw [encode, List.length_append] at hfuel hsize
    obtain ⟨fuel, rfl⟩ := Nat.exists_eq_add_of_le' (by omega : 0 < fuel)
    refine item_takes_head (by decide) (by omega) ?_
    refine (entries_takes hkeys ih (by omega) (by omega)).bind_last ?_
    rw [Datum.ofEntries_of_pairwise]
    · exact .pure _
    · rw [entriesAsRead_eq_map, List.pairwise_map]
      exact hdistinct

/-- Behind the tag that only says that it is CBOR, collections are frozen. -/
theorem decode?_encodeTagged {d : Datum} (h : Regular d)
    (hsize : (encodeTagged d).length < 2 ^ 64) :
    decode? (encodeTagged d) = some (asRead true d) := by
  have hlength : (encodeTagged d).length = (head 6 selfDescribed).length + (encode d).length :=
    List.length_append
  have hcontent : Takes (content false (2 * (encodeTagged d).length + 3) 6 selfDescribed) (encode d)
      (asRead true d) :=
    (h.readsBack true _ (by omega) (by omega)).bind_last (.lift _)
  have htakes : item false (2 * (encodeTagged d).length + 3 + 1) (encodeTagged d ++ []) = _ :=
    item_takes_head (by decide) (by decide) hcontent []
  rw [List.append_nil] at htakes
  rw [decode?, StateT.run, htakes]
  rfl

end CanisterShell.Cbor
