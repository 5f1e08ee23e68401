import CanisterShell.Offline.SignedCall
import CanisterShell.Proofs.Attempt
import CanisterShell.Proofs.Document.Cbor
import CanisterShell.Proofs.Request.Id

/-!
# What a signed call says

Every call can be signed unless it expires before 1970 (`exists_sign`), and its envelope says who
sends which method of which canister which arguments (`said_of_sign`): the envelope is CBOR in
hexadecimal digits, and both read back.  For an update the id that both parts record is that of the request in
the envelope, and its status is all that the second envelope asks for (`sign_shows`).
-/

namespace CanisterShell

namespace Request

/-! ## Envelopes -/

theorem exists_id_callContent {expiry : Int} (h : 0 ≤ expiry) (requestType : String)
    (sender canister : Principal) (method : String) (arg : Bytes) :
    ∃ callId, id (callContent requestType sender canister method arg expiry) = .ok callId := by
  have hexpiry := Candid.Wire.lebOfInt_of_nonneg h
  simp only [id, callContent, pairHashes, valueHash, keyHash, hexpiry]
  exact ⟨_, rfl⟩

theorem exists_id_readStateContent {expiry : Int} (h : 0 ≤ expiry) (sender : Principal)
    (callId : Bytes) :
    ∃ questionId, id (readStateContent sender [.list (statusPath callId)] expiry) =
      .ok questionId := by
  have hexpiry := Candid.Wire.lebOfInt_of_nonneg h
  simp only [id, readStateContent, statusPath, pairHashes, valueHash, itemHashes, keyHash, hexpiry]
  exact ⟨_, rfl⟩

theorem exists_envelope {content : Content} {requestId : Bytes} (identity : Identity)
    (h : id content = .ok requestId) :
    ∃ bytes, envelope identity content = .ok ⟨requestId, bytes⟩ := by
  simp only [envelope, h]
  exact ⟨_, rfl⟩

/-- Nothing expires before the year 1970. -/
structure Expiries.Nonneg (expiries : Expiries) : Prop where
  call : 0 ≤ expiries.call
  status : 0 ≤ expiries.status

theorem Expiries.ofSecond_nonneg {now : Int} (h : 0 ≤ now) : (ofSecond now).Nonneg := by
  have hexpiry : 0 ≤ expiryAt now := by
    rw [expiryAt, lifetime]
    positivity
  exact ⟨hexpiry, hexpiry⟩

theorem exists_callEnvelope {expiry : Int} (h : 0 ≤ expiry) (identity : Identity)
    (requestType : String) (canister : Principal) (method : String) (arg : Bytes) :
    ∃ e, envelope identity (callContent requestType identity.sender canister method arg expiry) =
      .ok e := by
  obtain ⟨callId, hid⟩ := exists_id_callContent h requestType identity.sender canister method arg
  obtain ⟨bytes, henvelope⟩ := exists_envelope identity hid
  exact ⟨_, henvelope⟩

theorem exists_statusEnvelope {expiry : Int} (h : 0 ≤ expiry) (identity : Identity)
    (callId : Bytes) :
    ∃ e, envelope identity (readStateContent identity.sender [.list (statusPath callId)] expiry) =
      .ok e := by
  obtain ⟨questionId, hid⟩ := exists_id_readStateContent h identity.sender callId
  obtain ⟨bytes, henvelope⟩ := exists_envelope identity hid
  exact ⟨_, henvelope⟩

theorem envelope_ok {identity : Identity} {content : Content} {e : Envelope}
    (h : envelope identity content = .ok e) : id content = .ok e.id ∧
      e.bytes = Cbor.encodeTagged (.map ((.text "content", .map content) ::
        signatureEntries (identity.signature? (signed e.id)))) := by
  obtain ⟨requestId, hid, h⟩ := Attempt.bind_ok_iff.mp h
  cases h
  exact ⟨hid, rfl⟩

theorem length_id {content : Content} {callId : Bytes} (h : id content = .ok callId) :
    callId.length = 32 := by
  rw [id_eq] at h
  exact length_of_valueHash h

theorem regular_callContent (requestType : String) (sender canister : Principal) (method : String)
    (arg : Bytes) (expiry : Int) :
    Cbor.Regular (.map (callContent requestType sender canister method arg expiry)) := by
  refine .map ?_ ?_ ?_
  · simp [callContent]
  · simp [callContent, Datum.sameKey]
  · simp only [callContent, List.forall_mem_cons]
    exact ⟨.text _, .bytes _, .bytes _, .text _, .bytes _, .int _, List.forall_mem_nil _⟩

theorem regular_readStateContent (sender : Principal) (callId : Bytes) (expiry : Int) :
    Cbor.Regular (.map (readStateContent sender [.list (statusPath callId)] expiry)) := by
  have hpath : Cbor.Regular (.list (statusPath callId)) :=
    .list (List.forall_mem_cons.mpr ⟨.bytes _, List.forall_mem_singleton.mpr (.bytes _)⟩)
  refine .map ?_ ?_ ?_
  · simp [readStateContent]
  · simp [readStateContent, Datum.sameKey]
  · simp only [readStateContent, List.forall_mem_cons]
    exact ⟨.text _, .bytes _, .list (List.forall_mem_singleton.mpr hpath), .int _,
      List.forall_mem_nil _⟩

theorem regular_envelope {content : Content} (h : Cbor.Regular (.map content))
    (signature? : Option (Bytes × Bytes)) :
    Cbor.Regular (.map ((.text "content", .map content) :: signatureEntries signature?)) := by
  cases signature? with
  | none =>
    refine .map ?_ (List.pairwise_singleton _ _) (List.forall_mem_singleton.mpr h)
    exact List.forall_mem_singleton.mpr ⟨_, rfl⟩
  | some s =>
    refine .map ?_ ?_ ?_
    · simp [signatureEntries]
    · simp [signatureEntries, Datum.sameKey]
    · simp only [signatureEntries, List.forall_mem_cons]
      exact ⟨h, .bytes _, .bytes _, List.forall_mem_nil _⟩

theorem decode_envelope {identity : Identity} {content : Content} {e : Envelope}
    (h : envelope identity content = .ok e) (hcontent : Cbor.Regular (.map content))
    (hsize : e.bytes.length < 2 ^ 64) :
    ∃ d, Http.decode e.bytes = .ok d ∧
      Offline.entry "content" d = .ok (Cbor.asRead true (.map content)) := by
  obtain ⟨-, hbytes⟩ := envelope_ok h
  have hdecode : Http.decode e.bytes = .ok (Cbor.asRead true (.map ((.text "content",
      .map content) :: signatureEntries (identity.signature? (signed e.id))))) := by
    rw [hbytes] at hsize ⊢
    rw [Http.decode, Cbor.decode?_encodeTagged (regular_envelope hcontent _) hsize]
  exact ⟨_, hdecode, rfl⟩

end Request

namespace Offline

open Candid

theorem hexBytes_hexDatum (b : Bytes) : hexBytes (hexDatum b) = .ok b := by
  rw [hexDatum, hexBytes, Bytes.ofHex_toHex]

theorem principalOf_bytes (p : Principal) : principalOf (.bytes p.bytes) = .ok p := by
  have hbytes : Principal.ofBytes p.bytes = .ok p := dif_pos p.length_le
  simp only [principalOf, Datum.toBytes, Attempt.ok_bind, hbytes]
  rfl

theorem read_of_entry {i : Ingress} {bytes : Bytes} {d : Datum} {requestType method : String}
    {sender canister : Principal} {arg : Bytes} {expiry : Int}
    (hhex : hexBytes i.content = .ok bytes) (hdecode : Http.decode bytes = .ok d)
    (hentry : entry "content" d = .ok (.frozen (.map
      (Request.callContent requestType sender canister method arg expiry)))) :
    i.read = .ok ⟨sender, canister, .text method, arg⟩ := by
  generalize hcontent : Datum.frozen (.map
    (Request.callContent requestType sender canister method arg expiry)) = content at hentry
  have hsender : entry "sender" content = .ok (.bytes sender.bytes) := by rw [← hcontent]; rfl
  have hcanister : entry "canister_id" content = .ok (.bytes canister.bytes) := by
    rw [← hcontent]
    rfl
  have hmethod : entry "method_name" content = .ok (.text method) := by rw [← hcontent]; rfl
  have harg : entry "arg" content = .ok (.bytes arg) := by rw [← hcontent]; rfl
  simp only [Ingress.read, hhex, hdecode, hentry, hsender, hcanister, hmethod, harg,
    principalOf_bytes, Datum.toBytes, Attempt.ok_bind]
  rfl

theorem said_of_envelope {identity : Identity} {requestType : String} {c : Call} {expiry : Int}
    {e : Request.Envelope} (callType requestId : Datum)
    (h : Request.envelope identity (Request.callContent requestType identity.sender c.canister
      c.method c.arg expiry) = .ok e) (hsize : e.bytes.length < 2 ^ 64) :
    Ingress.said ⟨callType, requestId, hexDatum e.bytes⟩ =
      .ok ⟨identity.sender, c.canister, .text c.method, c.arg⟩ := by
  obtain ⟨d, hdecode, hentry⟩ :=
    Request.decode_envelope h (Request.regular_callContent _ _ _ _ _ _) hsize
  rw [Ingress.said, read_of_entry (hexBytes_hexDatum _) hdecode hentry]
  rfl

/-! ## Signing -/

theorem sign_ok {kind : Request.CallKind} {identity : Identity} {expiries : Request.Expiries}
    {c : Call} {signed : SignedCall} (h : sign kind identity expiries c = .ok signed) :
    ∃ e, Request.envelope identity (Request.callContent kind.requestType identity.sender c.canister
        c.method c.arg expiries.call) = .ok e ∧
      signed.ingress.content = hexDatum e.bytes := by
  cases kind with
  | query =>
    obtain ⟨e, he, h⟩ := Attempt.bind_ok_iff.mp h
    cases h
    exact ⟨e, he, rfl⟩
  | update =>
    obtain ⟨e, he, h⟩ := Attempt.bind_ok_iff.mp h
    obtain ⟨s, hs, h⟩ := Attempt.bind_ok_iff.mp h
    cases h
    exact ⟨e, he, rfl⟩

section

variable {identity : Identity} {expiries : Request.Expiries} {c : Call} {e s : Request.Envelope}

theorem sign_query
    (he : Request.envelope identity (Request.callContent "query" identity.sender c.canister
      c.method c.arg expiries.call) = .ok e) :
    sign .query identity expiries c = .ok ⟨⟨.text "query", .null, hexDatum e.bytes⟩, none⟩ :=
  Attempt.bind_ok_iff.mpr ⟨e, he, rfl⟩

theorem sign_update
    (he : Request.envelope identity (Request.callContent "call" identity.sender c.canister
      c.method c.arg expiries.call) = .ok e)
    (hs : Request.envelope identity (Request.readStateContent identity.sender
      [.list (Request.statusPath e.id)] expiries.status) = .ok s) :
    sign .update identity expiries c = .ok ⟨⟨.text "update", hexDatum e.id, hexDatum e.bytes⟩,
      some ⟨.text c.effective.toText, hexDatum e.id, hexDatum s.bytes⟩⟩ :=
  Attempt.bind_ok_iff.mpr ⟨e, he, Attempt.bind_ok_iff.mpr ⟨s, hs, rfl⟩⟩

end

theorem exists_sign (kind : Request.CallKind) (identity : Identity) {expiries : Request.Expiries}
    (h : expiries.Nonneg) (c : Call) : ∃ signed, sign kind identity expiries c = .ok signed := by
  obtain ⟨e, he⟩ := Request.exists_callEnvelope h.call identity kind.requestType c.canister
    c.method c.arg
  cases kind with
  | query => exact ⟨_, sign_query he⟩
  | update =>
    obtain ⟨s, hs⟩ := Request.exists_statusEnvelope h.status identity e.id
    exact ⟨_, sign_update he hs⟩

/-- A signed call says who sends which method of which canister which arguments. -/
theorem said_of_sign {kind : Request.CallKind} {identity : Identity} {expiries : Request.Expiries}
    {c : Call} {signed : SignedCall} (h : sign kind identity expiries c = .ok signed)
    (hsize : signed.ingress.content.plain.length < 2 ^ 65) :
    signed.ingress.said = .ok ⟨identity.sender, c.canister, .text c.method, c.arg⟩ := by
  obtain ⟨e, henvelope, hcontent⟩ := sign_ok h
  have hlength : signed.ingress.content.plain.length = 2 * e.bytes.length := by
    rw [hcontent]
    exact Bytes.length_toHex e.bytes
  obtain ⟨⟨callType, requestId, content⟩, status?⟩ := signed
  obtain rfl : content = hexDatum e.bytes := hcontent
  exact said_of_envelope callType requestId henvelope (by omega)

/-! ## What is shown -/

def contentOf (envelope : Datum) : Attempt Datum := do
  entry "content" (← Http.decode (← hexBytes envelope))

/-- Envelopes no longer than CBOR can say. -/
structure SignedCall.Sized (signed : SignedCall) : Prop where
  ingress : signed.ingress.content.plain.length < 2 * 2 ^ 64
  status : ∀ s, signed.status? = some s → s.content.plain.length < 2 * 2 ^ 64

/-- Both parts of an update record the id of the request in its envelope, and the second envelope
asks, on behalf of the sender, for the status of this id only. -/
structure Tracks (ingress : Ingress) (status : StatusRequest) (sender : Principal)
    (callId : Bytes) : Prop where
  recorded : ingress.requestId = hexDatum callId ∧ status.requestId = hexDatum callId
  identified : ∃ content entries, contentOf ingress.content = .ok content ∧
    Http.entries? content = some entries ∧ Request.id entries = .ok callId
  asked : ∃ content expiry, contentOf status.content = .ok content ∧
    content.thaw = .map (Request.readStateContent sender [.list (Request.statusPath callId)] expiry)

theorem contentOf_envelope {identity : Identity} {content : Request.Content} {e : Request.Envelope}
    (h : Request.envelope identity content = .ok e) (hcontent : Cbor.Regular (.map content))
    (hsize : (hexDatum e.bytes).plain.length < 2 * 2 ^ 64) :
    contentOf (hexDatum e.bytes) = .ok (Cbor.asRead true (.map content)) := by
  have hlength : (hexDatum e.bytes).plain.length = 2 * e.bytes.length := Bytes.length_toHex e.bytes
  obtain ⟨d, hdecode, hentry⟩ := Request.decode_envelope h hcontent (by omega)
  rw [contentOf, hexBytes_hexDatum, Attempt.ok_bind, hdecode, Attempt.ok_bind, hentry]

/-- Nothing inside the content of a call is a collection, so that nothing inside it is frozen. -/
theorem entries?_callContent (requestType : String) (sender canister : Principal) (method : String)
    (arg : Bytes) (expiry : Int) :
    let content := Request.callContent requestType sender canister method arg expiry
    Http.entries? (Cbor.asRead true (.map content)) = some content := rfl

theorem thaw_readStateContent (sender : Principal) (callId : Bytes) (expiry : Int) :
    let content := Request.readStateContent sender [.list (Request.statusPath callId)] expiry
    (Cbor.asRead true (.map content)).thaw = .map content := rfl

theorem tracks_of_envelopes {identity : Identity} {c : Call} {expiries : Request.Expiries}
    {e s : Request.Envelope} {callType canister : Datum}
    (he : Request.envelope identity (Request.callContent "call" identity.sender c.canister c.method
      c.arg expiries.call) = .ok e)
    (hs : Request.envelope identity (Request.readStateContent identity.sender
      [.list (Request.statusPath e.id)] expiries.status) = .ok s)
    (hsize : (hexDatum e.bytes).plain.length < 2 * 2 ^ 64)
    (hsize' : (hexDatum s.bytes).plain.length < 2 * 2 ^ 64) :
    Tracks ⟨callType, hexDatum e.id, hexDatum e.bytes⟩ ⟨canister, hexDatum e.id, hexDatum s.bytes⟩
      identity.sender e.id where
  recorded := ⟨rfl, rfl⟩
  identified := by
    have hcontent := contentOf_envelope he (Request.regular_callContent _ _ _ _ _ _) hsize
    exact ⟨_, _, hcontent, entries?_callContent .., (Request.envelope_ok he).1⟩
  asked := by
    have hcontent := contentOf_envelope hs (Request.regular_readStateContent _ _ _) hsize'
    exact ⟨_, expiries.status, hcontent, thaw_readStateContent ..⟩

/-- Signing gives a call that shows the sender, the canister, the method and the arguments that were
signed, and for an update both parts record the id of the request that was signed, of which the
second envelope asks. -/
theorem sign_shows {kind : Request.CallKind} {identity : Identity} {expiries : Request.Expiries}
    {c : Call} (hexpiries : expiries.Nonneg)
    (hsize : Attempt.Gives (sign kind identity expiries c) SignedCall.Sized) :
    ∃ signed, sign kind identity expiries c = .ok signed ∧
      signed.ingress.said = .ok ⟨identity.sender, c.canister, .text c.method, c.arg⟩ ∧
      (kind = .update → ∃ status callId, signed.status? = some status ∧
        Tracks signed.ingress status identity.sender callId) := by
  obtain ⟨e, he⟩ := Request.exists_callEnvelope hexpiries.call identity kind.requestType c.canister
    c.method c.arg
  cases kind with
  | query =>
    have hsign := sign_query he
    exact ⟨_, hsign, said_of_sign hsign (hsize _ hsign).ingress, nofun⟩
  | update =>
    obtain ⟨s, hs⟩ := Request.exists_statusEnvelope hexpiries.status identity e.id
    have hsign := sign_update he hs
    obtain ⟨hingress, hstatus⟩ := hsize _ hsign
    have hquestion := hstatus _ rfl
    refine ⟨_, hsign, said_of_sign hsign hingress, fun _ => ⟨_, e.id, rfl, ?_⟩⟩
    exact tracks_of_envelopes he hs hingress hquestion

/-- An update of nobody in particular; the request for its status is made later. -/
theorem sign_shows_update :
    let c : Call := ⟨.management, "start_canister", [68, 73, 68, 76, 0, 0], ⟨[1], by decide⟩⟩
    let expiries : Request.Expiries := ⟨1700000300123456789, 1700000300987654321⟩
    expiries.Nonneg ∧ Attempt.Gives (sign .update .anonymous expiries c) SignedCall.Sized ∧
      ∃ signed, sign .update .anonymous expiries c = .ok signed ∧
        signed.ingress.said = .ok ⟨.anonymous, .management, .text "start_canister",
          [68, 73, 68, 76, 0, 0]⟩ ∧
        (Request.CallKind.update = .update → ∃ status callId, signed.status? = some status ∧
          Tracks signed.ingress status .anonymous callId) := by
  intro c expiries
  have hexpiries : expiries.Nonneg := ⟨by decide, by decide⟩
  have hsize : Attempt.Gives (sign .update .anonymous expiries c) SignedCall.Sized := by
    intro signed hsign
    obtain ⟨e, he, hsign⟩ := Attempt.bind_ok_iff.mp hsign
    obtain ⟨s, hs, hsign⟩ := Attempt.bind_ok_iff.mp hsign
    cases hsign
    obtain ⟨hid, hcall⟩ := Request.envelope_ok he
    obtain ⟨-, hquestion⟩ := Request.envelope_ok hs
    have hnone (id : Bytes) :
        Request.signatureEntries (Identity.anonymous.signature? (Request.signed id)) = [] := rfl
    constructor
    · change (Bytes.toHex e.bytes).length < 2 * 2 ^ 64
      rw [Bytes.length_toHex, hcall, hnone]
      decide +kernel
    · rintro _ ⟨⟩
      change (Bytes.toHex s.bytes).length < 2 * 2 ^ 64
      rw [Bytes.length_toHex, hquestion, hnone]
      simp only [Cbor.encodeTagged, Cbor.encode, Cbor.encodeEntries, Cbor.encodeItems, Cbor.text,
        Cbor.bytes, Request.readStateContent, Request.statusPath, List.length_append,
        List.length_cons, List.length_nil, Request.length_id hid]
      decide +kernel
  exact ⟨hexpiries, hsize, sign_shows hexpiries hsize⟩

end Offline

end CanisterShell
