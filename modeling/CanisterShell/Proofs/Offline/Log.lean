import CanisterShell.Offline.Log
import CanisterShell.Proofs.Attempt
import CanisterShell.Proofs.Document.Json
import CanisterShell.Proofs.File.Disk
import Mathlib

/-!
# Logs read back

A log whose parts are plain data without numbers reads back from its JSON as it was written
(`Log.readsBack`), and what signing gives is of that kind.  If its parts are texts, or absent where
they may be, it reads back from every file to which the JSON has been written
(`Log.ofJson_toJson`): what is written has no carriage returns, which reading a file would change.
-/

namespace CanisterShell.Offline

/-- A signed call whose parts are plain data without numbers. -/
structure SignedCall.Regular (c : SignedCall) : Prop where
  callType : Json.Regular c.ingress.callType
  requestId : Json.Regular c.ingress.requestId
  content : Json.Regular c.ingress.content
  status : ∀ s, c.status? = some s →
    Json.Regular s.canister ∧ Json.Regular s.requestId ∧ Json.Regular s.content

/-! ## As plain data -/

theorem regular_three {a b c : String} (hab : a ≠ b) (hac : a ≠ c) (hbc : b ≠ c) {x y z : Datum}
    (hx : Json.Regular x) (hy : Json.Regular y) (hz : Json.Regular z) :
    Json.Regular (.map [(.text a, x), (.text b, y), (.text c, z)]) := by
  refine .map ?_ ?_ ?_
  · simp
  · simp [Datum.sameKey, hab, hac, hbc]
  · simp [hx, hy, hz]

theorem regular_two {a b : String} (hab : a ≠ b) {x y : Datum} (hx : Json.Regular x)
    (hy : Json.Regular y) : Json.Regular (.map [(.text a, x), (.text b, y)]) := by
  refine .map ?_ ?_ ?_
  · simp
  · simp [Datum.sameKey, hab]
  · simp [hx, hy]

theorem SignedCall.Regular.toDatum {c : SignedCall} (h : c.Regular) : Json.Regular c.toDatum := by
  refine regular_two (by decide) ?_ ?_
  · exact regular_three (by decide) (by decide) (by decide) h.callType h.requestId h.content
  · cases hstatus : c.status? with
    | none => exact .null
    | some s =>
      obtain ⟨hcanister, hrequestId, hcontent⟩ := h.status s hstatus
      exact regular_three (by decide) (by decide) (by decide) hcanister hrequestId hcontent

theorem SignedCall.ofDatum_toDatum (c : SignedCall) : ofDatum c.toDatum = .ok c := by
  obtain ⟨⟨callType, requestId, content⟩, status?⟩ := c
  cases status? with
  | none => rfl
  | some s => rfl

theorem Log.callsOf_toDatum (log : Log) : callsOf log.toDatum = .ok log.calls := by
  change (log.calls.map SignedCall.toDatum).mapM SignedCall.ofDatum = .ok log.calls
  rw [Attempt.mapM_ok_iff, List.forall₂_map_left_iff, List.forall₂_same]
  exact fun c _ => c.ofDatum_toDatum

theorem Log.regular_toDatum {log : Log} (hurl : Json.Regular log.replicaUrl)
    (hcalls : ∀ c ∈ log.calls, c.Regular) : Json.Regular log.toDatum := by
  refine regular_two (by decide) hurl (.list ?_)
  intro d hd
  obtain ⟨c, hc, rfl⟩ := List.mem_map.mp hd
  exact (hcalls c hc).toDatum

/-- A log reads back from its file as it was. -/
theorem Log.readsBack {log : Log} (hurl : Json.Regular log.replicaUrl)
    (hcalls : ∀ c ∈ log.calls, c.Regular) : ofJson log.toJson = .ok log := by
  rw [ofJson, toJson, Json.read?_write Json.spaced_indented (regular_toDatum hurl hcalls)]
  dsimp only
  rw [callsOf_toDatum]
  rfl

/-! ## Signed calls -/

theorem sign_regular (kind : Request.CallKind) (identity : Identity) (expiries : Request.Expiries)
    (c : Call) : Attempt.Gives (sign kind identity expiries c) SignedCall.Regular := by
  cases kind with
  | query =>
    refine .bind_right fun e => .ok ⟨.text _, .null, .text _, nofun⟩
  | update =>
    refine .bind_right fun e => .bind_right fun s => .ok ⟨.text _, .text _, .text _, ?_⟩
    rintro _ ⟨⟩
    exact ⟨.text _, .text _, .text _⟩

/-! ## Logs of texts -/

def IsText (d : Datum) : Prop := ∃ s, d = .text s

def IsTextOrNull (d : Datum) : Prop := d = .null ∨ IsText d

/-- A signed call whose parts are texts; there may be no id and no request for its status. -/
structure SignedCall.Textual (c : SignedCall) : Prop where
  callType : IsText c.ingress.callType
  requestId : IsTextOrNull c.ingress.requestId
  content : IsText c.ingress.content
  status : ∀ s, c.status? = some s → IsText s.canister ∧ IsText s.requestId ∧ IsText s.content

/-- A log of such calls, for a replica at an address or any. -/
structure Log.Textual (log : Log) : Prop where
  replicaUrl : IsTextOrNull log.replicaUrl
  calls : ∀ c ∈ log.calls, c.Textual

theorem IsText.regular {d : Datum} (h : IsText d) : Json.Regular d := by
  obtain ⟨s, rfl⟩ := h
  exact .text s

theorem IsTextOrNull.regular {d : Datum} (h : IsTextOrNull d) : Json.Regular d := by
  obtain rfl | h := h
  · exact .null
  · exact h.regular

theorem SignedCall.Textual.regular {c : SignedCall} (h : c.Textual) : c.Regular where
  callType := h.callType.regular
  requestId := h.requestId.regular
  content := h.content.regular
  status s hs := by
    obtain ⟨hcanister, hrequestId, hcontent⟩ := h.status s hs
    exact ⟨hcanister.regular, hrequestId.regular, hcontent.regular⟩

theorem Log.Textual.no_return {log : Log} (h : log.Textual) : '\r' ∉ log.toJson.toList := by
  have hdatum := regular_toDatum h.replicaUrl.regular fun c hc => (h.calls c hc).regular
  intro hmem
  exact absurd (Json.plain_write Json.plain_indented hdatum 0 _ hmem) (by decide)

/-- A log is read from its JSON as it was, and from every file to which that has been written. -/
theorem Log.ofJson_toJson {log : Log} (h : log.Textual) :
    ofJson log.toJson = .ok log ∧
      ∀ (d d' : File.Disk) (p : File.Path), d.write p (Utf8.encode log.toJson) = .ok d' →
        ∃ bytes text, d'.read p = .ok bytes ∧ File.Disk.textOf? bytes = some text ∧
          ofJson text = .ok log := by
  have hread : ofJson log.toJson = .ok log :=
    readsBack h.replicaUrl.regular fun c hc => (h.calls c hc).regular
  refine ⟨hread, fun d d' p hwrite => ⟨_, _, File.Disk.read_write hwrite, ?_, hread⟩⟩
  exact File.Disk.textOf?_encode h.no_return

/-- A log of an update and a query, with an accent, a quote, a line end and a character beyond the
basic plane in their texts. -/
theorem Log.ofJson_toJson_escapes :
    let update : SignedCall := ⟨⟨.text "update", .text "é\"", .text "\r\n"⟩,
      some ⟨.text "aaaaa-aa", .text "𝄞", .text ""⟩⟩
    let query : SignedCall := ⟨⟨.text "query", .null, .text "\\u0000"⟩, none⟩
    let log : Log := ⟨.null, [update, query]⟩
    log.Textual ∧ ofJson log.toJson = .ok log ∧
      ∀ (d d' : File.Disk) (p : File.Path), d.write p (Utf8.encode log.toJson) = .ok d' →
        ∃ bytes text, d'.read p = .ok bytes ∧ File.Disk.textOf? bytes = some text ∧
          ofJson text = .ok log := by
  intro update query log
  have hupdate : update.Textual := by
    refine ⟨⟨_, rfl⟩, .inr ⟨_, rfl⟩, ⟨_, rfl⟩, ?_⟩
    rintro _ ⟨⟩
    exact ⟨⟨_, rfl⟩, ⟨_, rfl⟩, ⟨_, rfl⟩⟩
  have hquery : query.Textual := ⟨⟨_, rfl⟩, .inl rfl, ⟨_, rfl⟩, nofun⟩
  have hlog : log.Textual :=
    ⟨.inl rfl, List.forall_mem_cons.mpr ⟨hupdate, List.forall_mem_singleton.mpr hquery⟩⟩
  exact ⟨hlog, ofJson_toJson hlog⟩

/-! ## Files that are no logs -/

/-- A map with exactly three keys. -/
def HoldsThree (a b c : String) (d : Datum) : Prop :=
  ∃ entries, d = .map entries ∧ entries.length = 3 ∧
    ∀ key ∈ [a, b, c], ∃ v, Datum.find? key entries = some v

/-- A signed call as plain data: the envelope and, unless it is empty or missing, the request for
the status. -/
def IsEntry (d : Datum) : Prop :=
  ∃ entries, d = .map entries ∧
    (∃ i, Datum.find? "ingress" entries = some i ∧
      HoldsThree "call_type" "request_id" "content" i) ∧
    ∀ s, Datum.find? "request_status" entries = some s → s.isEmpty = false →
      HoldsThree "canister_id" "request_id" "content" s

/-- Something that is no map. -/
def IsStray (d : Datum) : Prop := ∀ entries, d ≠ .map entries

/-- Some items hold, behind entries that are calls, something that is no map. -/
def HoldStray (items : List Datum) : Prop :=
  ∃ front item rest, items = front ++ item :: rest ∧ (∀ e ∈ front, IsEntry e) ∧ IsStray item

/-- The list of messages of a document holds such an item. -/
def HasStray (d : Datum) : Prop :=
  ∃ messages items, d.get? "messages" = some messages ∧ Log.itemsOf messages = .ok items ∧
    HoldStray items

/-- An attempt that fails with malformations only. -/
abbrev Refuses {α : Type} (x : Attempt α) : Prop := Attempt.Only (isMalformation · = true) x

theorem threeOf_map (a b c : String) (entries : List (Datum × Datum)) :
    threeOf a b c (.map entries) =
      match Datum.find? a entries, Datum.find? b entries, Datum.find? c entries with
      | some x, some y, some z =>
        if entries.length = 3 then .ok (x, y, z) else .error (.fault .wrongType)
      | _, _, _ => .error (.fault .wrongType) := rfl

theorem refuses_threeOf (a b c : String) (d : Datum) : Refuses (threeOf a b c d) := by
  cases d with
  | map entries =>
    rw [threeOf_map]
    split
    case h_2 => exact .error rfl
    case h_1 =>
      split
      case isTrue => exact .ok _
      case isFalse => exact .error rfl
  | _ => exact .error rfl

theorem exists_threeOf_iff {a b c : String} {d : Datum} :
    (∃ r, threeOf a b c d = .ok r) ↔ HoldsThree a b c d := by
  cases d with
  | map entries =>
    rw [threeOf_map]
    constructor
    · rintro ⟨r, h⟩
      split at h
      case h_2 => cases h
      case h_1 x y z hx hy hz =>
        split at h
        case isFalse => cases h
        case isTrue hlen =>
          refine ⟨entries, rfl, hlen, ?_⟩
          simp [hx, hy, hz]
    · rintro ⟨_, ⟨⟩, hlen, hkeys⟩
      simp only [List.forall_mem_cons] at hkeys
      obtain ⟨⟨x, hx⟩, ⟨y, hy⟩, ⟨z, hz⟩, -⟩ := hkeys
      rw [hx, hy, hz]
      exact ⟨_, if_pos hlen⟩
  | _ => exact ⟨fun ⟨_, h⟩ => (nomatch h), fun ⟨_, h, _⟩ => (nomatch h)⟩

theorem exists_ingress_iff {d : Datum} : (∃ i, Ingress.ofDatum d = .ok i) ↔
    HoldsThree "call_type" "request_id" "content" d :=
  Attempt.exists_bind_pure_iff.trans exists_threeOf_iff

theorem exists_status_iff {d : Datum} : (∃ s, StatusRequest.ofDatum d = .ok s) ↔
    HoldsThree "canister_id" "request_id" "content" d :=
  Attempt.exists_bind_pure_iff.trans exists_threeOf_iff

namespace SignedCall

/-- The envelope of a call that is a map. -/
def ingressOf (entries : List (Datum × Datum)) : Attempt Ingress :=
  match Datum.find? "ingress" entries with
  | some d => Ingress.ofDatum d
  | none => throw (.fault .missingKey)

theorem ofDatum_map (entries : List (Datum × Datum)) :
    ofDatum (.map entries) = do
      let ingress ← ingressOf entries
      let status := (Datum.find? "request_status" entries).getD .null
      if status.isEmpty then return ⟨ingress, none⟩
      else return ⟨ingress, some (← StatusRequest.ofDatum status)⟩ := by
  rw [ofDatum, ingressOf]
  cases Datum.find? "ingress" entries with
  | none => rfl
  | some d => rfl

theorem refuses_map (entries : List (Datum × Datum)) : Refuses (ofDatum (.map entries)) := by
  have hingress : Refuses (ingressOf entries) := by
    rw [ingressOf]
    cases Datum.find? "ingress" entries with
    | none => exact .error rfl
    | some d => exact (refuses_threeOf _ _ _ d).bind fun _ => .ok _
  rw [ofDatum_map]
  refine hingress.bind fun ingress => ?_
  dsimp only
  split
  case isTrue => exact .ok _
  case isFalse =>
    exact ((refuses_threeOf _ _ _ _).bind fun _ => .ok _).bind fun _ => .ok _

theorem ofDatum_stray {d : Datum} (h : IsStray d) : ofDatum d = .error (.fault .missingAttribute) := by
  cases d with
  | map entries => exact absurd rfl (h entries)
  | _ => rfl

theorem exists_ofDatum_iff {d : Datum} : (∃ c, ofDatum d = .ok c) ↔ IsEntry d := by
  cases d with
  | map entries =>
    rw [ofDatum_map]
    constructor
    · rintro ⟨c, h⟩
      obtain ⟨ingress, hingress, h⟩ := Attempt.bind_ok_iff.mp h
      refine ⟨entries, rfl, ?_, fun s hs hempty => ?_⟩
      · rw [ingressOf] at hingress
        split at hingress
        case h_1 i hi => exact ⟨i, hi, exists_ingress_iff.mp ⟨ingress, hingress⟩⟩
        case h_2 => cases hingress
      · simp only [hs, Option.getD_some, hempty, if_neg Bool.false_ne_true] at h
        obtain ⟨status, hstatus, -⟩ := Attempt.bind_ok_iff.mp h
        exact exists_status_iff.mp ⟨status, hstatus⟩
    · rintro ⟨_, ⟨⟩, ⟨i, hi, hthree⟩, hstatus⟩
      obtain ⟨ingress, hingress⟩ := exists_ingress_iff.mpr hthree
      rw [ingressOf, hi]
      dsimp only
      rw [hingress, Attempt.ok_bind]
      split
      case isTrue => exact ⟨_, rfl⟩
      case isFalse hempty =>
        rw [Bool.not_eq_true] at hempty
        cases hs : Datum.find? "request_status" entries with
        | none =>
          rw [hs] at hempty
          cases hempty
        | some s =>
          rw [hs] at hempty
          obtain ⟨status, hstatus⟩ := exists_status_iff.mpr (hstatus s hs hempty)
          exact ⟨_, Attempt.bind_ok_iff.mpr ⟨status, hstatus, rfl⟩⟩
  | _ => exact ⟨fun ⟨_, h⟩ => (nomatch h), fun ⟨_, h, _⟩ => (nomatch h)⟩

theorem mapM_ofDatum_error_iff {items : List Datum} {f : Failure} :
    (items.mapM ofDatum = .error f ∧ isMalformation f = false) ↔
      f = .fault .missingAttribute ∧ HoldStray items := by
  rw [Attempt.mapM_error_iff]
  constructor
  · rintro ⟨⟨front, item, rest, rfl, hfront, hitem⟩, hf⟩
    have hstray : IsStray item := by
      rintro entries rfl
      rw [refuses_map entries f hitem] at hf
      cases hf
    rw [ofDatum_stray hstray] at hitem
    cases hitem
    exact ⟨rfl, front, item, rest, rfl, fun e he => exists_ofDatum_iff.mp (hfront e he), hstray⟩
  · rintro ⟨rfl, front, item, rest, rfl, hfront, hstray⟩
    exact ⟨⟨front, item, rest, rfl, fun e he => exists_ofDatum_iff.mpr (hfront e he),
      ofDatum_stray hstray⟩, rfl⟩

end SignedCall

theorem refuseWith_error_iff {α : Type} {cause : ConfigCause} {x : Attempt α} {f : Failure} :
    (refuseWith cause x = .error f ∧ f ≠ .config cause) ↔
      x = .error f ∧ isMalformation f = false := by
  cases x with
  | ok a => exact ⟨fun h => (nomatch h.1), fun h => (nomatch h.1)⟩
  | error g =>
    rw [refuseWith]
    cases hg : isMalformation g with
    | true =>
      refine ⟨fun ⟨h, hne⟩ => ?_, fun ⟨h, hf⟩ => ?_⟩
      · cases h
        exact absurd rfl hne
      · cases h
        rw [hg] at hf
        cases hf
    | false =>
      refine ⟨fun ⟨h, _⟩ => ?_, fun ⟨h, _⟩ => ?_⟩
      · cases h
        exact ⟨rfl, hg⟩
      · cases h
        refine ⟨rfl, ?_⟩
        rintro rfl
        cases hg

namespace Log

theorem refuses_itemsOf (d : Datum) : Refuses (itemsOf d) := by
  cases d with
  | list items => exact .ok _
  | map entries => exact .ok _
  | text s => exact .ok _
  | _ => exact .error rfl

theorem callsOf_error_iff {d : Datum} {f : Failure} :
    (callsOf d = .error f ∧ isMalformation f = false) ↔
      f = .fault .missingAttribute ∧ HasStray d := by
  have refused {x : Attempt (List SignedCall)} (h : Refuses x) {P : Prop} (hP : ¬P) :
      (x = .error f ∧ isMalformation f = false) ↔ f = .fault .missingAttribute ∧ P := by
    refine ⟨fun ⟨hx, hf⟩ => ?_, fun ⟨_, h⟩ => absurd h hP⟩
    rw [h f hx] at hf
    cases hf
  cases d with
  | map entries =>
    have hcalls : callsOf (.map entries) = match Datum.find? "messages" entries with
        | some messages => do (← itemsOf messages).mapM SignedCall.ofDatum
        | none => .error (.fault .missingKey) := rfl
    rw [hcalls]
    cases hmessages : Datum.find? "messages" entries with
    | none => exact refused (.error rfl) (by simp [HasStray, Datum.get?, hmessages])
    | some messages =>
      dsimp only
      cases hitems : itemsOf messages with
      | error g =>
        exact refused (.error (refuses_itemsOf messages g hitems))
          (by simp [HasStray, Datum.get?, hmessages, hitems])
      | ok items =>
        rw [Attempt.ok_bind, SignedCall.mapM_ofDatum_error_iff]
        simp [HasStray, Datum.get?, hmessages, hitems]
  | _ => exact refused (.error rfl) fun ⟨_, _, h, _⟩ => (nomatch h)

/-- Reading a log fails otherwise than by refusing the file exactly if its list of messages holds,
behind entries that are calls, something that is no map. -/
theorem ofJson_error_iff (text : String) (f : Failure) :
    (ofJson text = .error f ∧ f ≠ .config .badMessageFile) ↔
      f = .fault .missingAttribute ∧ ∃ d, Json.read? text = some d ∧ HasStray d := by
  rw [ofJson]
  cases Json.read? text with
  | none =>
    refine ⟨fun ⟨h, hne⟩ => ?_, fun ⟨_, _, h, _⟩ => (nomatch h)⟩
    cases h
    exact absurd rfl hne
  | some d =>
    simp only [Attempt.bind_pure_error_iff, refuseWith_error_iff, callsOf_error_iff,
      Option.some.injEq, exists_eq_left']

/-- A null in the place of a message breaks reading instead of having the file refused. -/
theorem ofJson_null_faults :
    ofJson "\x7b\"messages\": [null]\x7d" = .error (.fault .missingAttribute) ∧
      ∀ cause, ofJson "\x7b\"messages\": [null]\x7d" ≠ .error (.config cause) :=
  have h : ofJson "\x7b\"messages\": [null]\x7d" = .error (.fault .missingAttribute) := by cbv
  ⟨h, fun cause hcause => by rw [h] at hcause; cases hcause⟩

end Log

end CanisterShell.Offline
