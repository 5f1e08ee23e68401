import CanisterShell.Offline.Log
import CanisterShell.Proofs.Offline.Log
import CanisterShell.Proofs.Offline.SignedCall
import CanisterShell.Proofs.Principal
import Mathlib

/-!
# Sending from a log

A call that is signed, logged, read back and sent with confirmation does what sending it at once
does, post by post and wait by wait.  There are two exceptions.  A query is posted at the address of
its canister, and not of the one by which it is routed; and nothing is posted if the arguments
cannot be shown.  These are all (`sentFromLog_iff`).
-/

namespace CanisterShell.Offline

open Http

variable {σ : Type}

/-- A call sent at once: a query, or an update whose reply is waited for. -/
def sentAtOnce (r : Replica σ) (poll : PollPolicy) (identity : Identity) (c : Call) :
    Request.CallKind → Action σ Bytes
  | .query => r.agent.query identity c
  | .update => do
    let callId ← r.agent.submit identity c
    poll.await (r.agent.status identity c.effective callId) r.agent.timer (some c.site)

/-- A call that is signed, written to a log, read back and sent with confirmation. -/
def sentFromLog (r : Replica σ) (poll : PollPolicy) (identity : Identity) (c : Call)
    (url : String) (kind : Request.CallKind) : Action σ (List Bytes) := do
  let signed ← sign kind identity r.expiries c
  let log ← Log.ofJson (Log.toJson ⟨.text url, [signed]⟩)
  replay log (fun _ => return) (return true) (send r poll)

/-! ## Sending a signed call -/

theorem liftM_ok_bind {α β : Type} {x : Attempt α} {a : α} (h : x = .ok a)
    (next : α → Action σ β) : (liftM x >>= next : Action σ β) = next a := by
  rw [h]
  rfl

theorem site_of_said (sender canister : Principal) (method : String) (arg : Bytes) :
    Said.site ⟨sender, canister, .text method, arg⟩ = ⟨canister, method⟩ := by
  have hmethod : (if (Datum.text method).isEmpty then "" else (Datum.text method).plain) =
      method := by
    by_cases h : method = ""
    · rw [Datum.isEmpty, decide_eq_true h, if_pos rfl, h]
    · rw [Datum.isEmpty, decide_eq_false h, if_neg Bool.false_ne_true, Datum.plain]
  rw [Said.site, hmethod]

theorem send_query (r : Replica σ) (poll : PollPolicy) {identity : Identity} {c : Call}
    {e : Request.Envelope} (he : r.callEnvelope .query identity c = .ok e)
    (hsize : e.bytes.length < 2 ^ 64) :
    send r poll ⟨⟨.text "query", .null, hexDatum e.bytes⟩, none⟩ =
      r.sendQuery c.canister e.bytes := by
  have hsaid := said_of_envelope (.text "query") .null he hsize
  rw [send, liftM_ok_bind hsaid, liftM_ok_bind (hexBytes_hexDatum _)]
  rfl

theorem send_update (r : Replica σ) (poll : PollPolicy) {identity : Identity} {c : Call}
    {e s : Request.Envelope} (he : r.callEnvelope .update identity c = .ok e)
    (hs : r.readStateEnvelope identity (Request.statusPath e.id) = .ok s)
    (hsize : e.bytes.length < 2 ^ 64) :
    send r poll ⟨⟨.text "update", hexDatum e.id, hexDatum e.bytes⟩,
        some ⟨.text c.effective.toText, hexDatum e.id, hexDatum s.bytes⟩⟩ =
      sentAtOnce r poll identity c .update := by
  have hsaid := said_of_envelope (.text "update") (hexDatum e.id) he hsize
  have heffective : principalOfText (.text c.effective.toText) = .ok c.effective := by
    rw [principalOfText, Principal.ofText_toText]
  have hstatus : r.agent.status identity c.effective e.id = (do
      CallStatus.ofTree (← r.sendReadState c.effective s.bytes) e.id : Action σ CallStatus) :=
    liftM_ok_bind hs _
  have hsubmit : r.agent.submit identity c = (do
      r.sendCall c.effective e.bytes
      return e.id) := liftM_ok_bind he _
  rw [send, liftM_ok_bind hsaid, liftM_ok_bind (hexBytes_hexDatum _)]
  split
  · next heq => simp at heq
  · dsimp only
    rw [liftM_ok_bind heffective, liftM_ok_bind (hexBytes_hexDatum _),
      liftM_ok_bind (hexBytes_hexDatum _), sentAtOnce, hsubmit, bind_assoc, site_of_said]
    simp only [pure_bind, hstatus]
    rfl

/-! ## Sending from a log -/

section

variable (r : Replica σ) (poll : PollPolicy) {identity : Identity} {c : Call} (url : String)
  {kind : Request.CallKind} {signed : SignedCall}

theorem sentFromLog_of_sign (hsign : sign kind identity r.expiries c = .ok signed) :
    sentFromLog r poll identity c url kind = (do
      let _ ← (liftM signed.ingress.summary : Action σ String)
      return [← send r poll signed]) := by
  have hlog : Log.ofJson (Log.toJson ⟨.text url, [signed]⟩) = .ok ⟨.text url, [signed]⟩ :=
    Log.readsBack (.text url) (List.forall_mem_singleton.mpr (sign_regular _ _ _ _ _ hsign))
  rw [sentFromLog, liftM_ok_bind hsign, liftM_ok_bind hlog, replay, replayCalls]
  cases signed.ingress.summary with
  | error f => rfl
  | ok summary =>
    rw [liftM_ok_bind rfl, MonadExcept.ofExcept, pure_bind, pure_bind, pure_bind, if_pos rfl]
    simp only [replayCalls, pure_bind]

theorem summary_bind {i : Ingress} {said : Said} (h : i.said = .ok said)
    (act : Action σ (List Bytes)) :
    (do let _ ← (liftM i.summary : Action σ String); act) =
      (do let _ ← (liftM (argumentText said.arg) : Action σ String); act) := by
  rw [Ingress.summary, h, Attempt.ok_bind]
  cases argumentText said.arg with
  | ok text => rfl
  | error f => rfl

end

/-- The call that a log amounts to: a query is routed by its canister. -/
def rerouted (c : Call) : Request.CallKind → Call
  | .query => { c with effective := c.canister }
  | .update => c

theorem rerouted_eq {c : Call} {kind : Request.CallKind}
    (h : kind = .query → c.effective = c.canister) : rerouted c kind = c := by
  cases kind with
  | query =>
    obtain ⟨canister, method, arg, effective⟩ := c
    obtain rfl : effective = canister := h rfl
    rfl
  | update => rfl

/-- The envelope of the call is no longer than CBOR can say. -/
def Fits (identity : Identity) (expiries : Request.Expiries) (c : Call)
    (kind : Request.CallKind) : Prop :=
  ∀ e, Request.envelope identity (Request.callContent kind.requestType identity.sender c.canister
    c.method c.arg expiries.call) = .ok e → e.bytes.length < 2 ^ 64

/-- Sending from a log shows the arguments and then does what sending at once does, but for the
route of a query. -/
theorem sentFromLog_eq (r : Replica σ) (poll : PollPolicy) {identity : Identity} {c : Call}
    (url : String) {kind : Request.CallKind} (hexpiries : r.expiries.Nonneg)
    (hsize : Fits identity r.expiries c kind) :
    sentFromLog r poll identity c url kind = (do
      let _ ← (liftM (argumentText c.arg) : Action σ String)
      return [← sentAtOnce r poll identity (rerouted c kind) kind]) := by
  obtain ⟨e, he⟩ := Request.exists_callEnvelope hexpiries.call identity kind.requestType c.canister
    c.method c.arg
  cases kind with
  | query =>
    have hsaid := said_of_envelope (.text "query") .null he (hsize e he)
    have hquery : sentAtOnce r poll identity (rerouted c .query) .query =
        r.sendQuery c.canister e.bytes := liftM_ok_bind he _
    rw [sentFromLog_of_sign r poll url (sign_query he), summary_bind hsaid,
      send_query r poll he (hsize e he), hquery]
  | update =>
    obtain ⟨s, hs⟩ := Request.exists_statusEnvelope hexpiries.status identity e.id
    have hsaid := said_of_envelope (.text "update") (hexDatum e.id) he (hsize e he)
    rw [sentFromLog_of_sign r poll url (sign_update he hs), summary_bind hsaid,
      send_update r poll he hs (hsize e he)]
    rfl

/-! ## A replica that cannot be reached -/

/-- A transport that records the addresses of posts, the latest first, and answers none. -/
def unreachable : Transport (List String) where
  post url _ := do
    modify (url :: ·)
    return .error "unreachable"
  timer := { clock := return .whole 0, sleep := fun _ => return }

/-- A replica behind this transport, which tries each post once. -/
def unreachableAt (expiries : Request.Expiries) : Replica (List String) where
  transport := unreachable
  url := ""
  now := 0
  expiries := expiries
  retries := 0

theorem address_injective (r : Replica σ) (kind : String) {p q : Principal}
    (h : r.address kind p = r.address kind q) : p = q := by
  have hchars := congrArg String.toList h
  simp only [Replica.address, String.toList_append, List.append_assoc, List.append_cancel_left_eq,
    List.append_cancel_right_eq] at hchars
  have htext : p.toText = q.toText := String.toList_inj.mp hchars
  have hp := Principal.ofText_toText p
  rw [htext, Principal.ofText_toText] at hp
  exact (Except.ok.inj hp).symm

theorem post_unreachable {α : Type} (expiries : Request.Expiries) (kind : String) (p : Principal)
    (body : Bytes) (next : Bytes → Action (List String) α) (urls : List String) :
    (((unreachableAt expiries).post kind p body >>= next).run.run urls).2 =
      (unreachableAt expiries).address kind p :: urls := by
  rw [Replica.post, Replica.attempt]
  rfl

theorem run_singleton (act : Action σ Bytes) (w : σ) :
    ((do return [← act] : Action σ (List Bytes)).run.run w).2 = (act.run.run w).2 := by
  rw [ExceptT.run_bind, StateT.run_bind]
  cases act.run.run w with
  | mk r w =>
    cases r with
    | ok reply => rfl
    | error f => rfl

theorem posts_sentAtOnce {expiries : Request.Expiries} (hexpiries : expiries.Nonneg)
    (poll : PollPolicy) (identity : Identity) (c : Call) (kind : Request.CallKind) :
    ((sentAtOnce (unreachableAt expiries) poll identity c kind).run.run []).2 =
      [(unreachableAt expiries).address kind.requestType c.effective] := by
  obtain ⟨e, he⟩ := Request.exists_callEnvelope hexpiries.call identity
    kind.requestType c.canister c.method c.arg
  cases kind with
  | query =>
    have hquery : sentAtOnce (unreachableAt expiries) poll identity c .query =
        (unreachableAt expiries).sendQuery c.effective e.bytes := liftM_ok_bind he _
    rw [hquery, Replica.sendQuery]
    exact post_unreachable expiries _ _ _ _ _
  | update =>
    have hsubmit : (unreachableAt expiries).agent.submit identity c = (do
        (unreachableAt expiries).sendCall c.effective e.bytes
        return e.id) := liftM_ok_bind he _
    rw [sentAtOnce, hsubmit, Replica.sendCall, bind_assoc, bind_assoc]
    exact post_unreachable expiries _ _ _ _ _

/-- Sending from a log does what sending at once does, wherever it is sent, if and only if a query
is routed by its canister and the arguments can be shown. -/
theorem sentFromLog_iff {identity : Identity} {expiries : Request.Expiries} {c : Call}
    {kind : Request.CallKind} (hexpiries : expiries.Nonneg)
    (hsize : Fits identity expiries c kind) :
    (∀ (σ : Type) (r : Replica σ) (poll : PollPolicy) (url : String), r.expiries = expiries →
      sentFromLog r poll identity c url kind = (do
        return [← sentAtOnce r poll identity c kind])) ↔
      (kind = .query → c.effective = c.canister) ∧ ∃ text, argumentText c.arg = .ok text := by
  constructor
  · intro h
    have hsent := h _ (unreachableAt expiries) {} "" rfl
    rw [sentFromLog_eq (unreachableAt expiries) {} "" hexpiries hsize] at hsent
    have hposts :=
      congrArg (fun act : Action (List String) (List Bytes) => (act.run.run []).2) hsent
    rw [run_singleton, posts_sentAtOnce hexpiries] at hposts
    cases htext : argumentText c.arg with
    | error f =>
      -- nothing is posted
      rw [htext] at hposts
      cases hposts
    | ok text =>
      rw [liftM_ok_bind htext, run_singleton, posts_sentAtOnce hexpiries] at hposts
      have heffective := address_injective _ _ (List.singleton_inj.mp hposts)
      refine ⟨?_, text, rfl⟩
      rintro rfl
      exact heffective.symm
  · rintro ⟨hroute, text, htext⟩ σ r poll url rfl
    rw [sentFromLog_eq r poll url hexpiries hsize, rerouted_eq hroute, liftM_ok_bind htext]

theorem fits_anonymous {expiries : Request.Expiries} {c : Call} {kind : Request.CallKind}
    (h : (Cbor.encodeTagged (.map [(.text "content", .map (Request.callContent kind.requestType
      Identity.anonymous.sender c.canister c.method c.arg expiries.call))])).length < 2 ^ 64) :
    Fits .anonymous expiries c kind := by
  intro e he
  rw [(Request.envelope_ok he).2]
  exact h

/-- An anonymous update without arguments does the same from a log. -/
theorem sentFromLog_update :
    let c : Call := ⟨⟨[1], by decide⟩, "m", [68, 73, 68, 76, 0, 0], ⟨[2], by decide⟩⟩
    let expiries : Request.Expiries := ⟨1700000300123456789, 1700000300987654321⟩
    expiries.Nonneg ∧ Fits .anonymous expiries c .update ∧
      ∀ (σ : Type) (r : Replica σ) (poll : PollPolicy) (url : String), r.expiries = expiries →
        sentFromLog r poll .anonymous c url .update = (do
          return [← sentAtOnce r poll .anonymous c .update]) := by
  intro c expiries
  have hexpiries : expiries.Nonneg := ⟨by decide, by decide⟩
  have hsize : Fits .anonymous expiries c .update := fits_anonymous (by decide +kernel)
  have htext : argumentText c.arg = .ok "()" := rfl
  exact ⟨hexpiries, hsize, (sentFromLog_iff hexpiries hsize).mpr ⟨nofun, _, htext⟩⟩

/-- A query of the management canister about another one: sent at once it is posted at the address
of the other, and from a log at that of the management canister. -/
theorem query_loses_its_route :
    let c : Call := ⟨.management, "m", [68, 73, 68, 76, 0, 0], ⟨[1], by decide⟩⟩
    let r := unreachableAt (.ofSecond 0)
    ((sentAtOnce r {} .anonymous c .query).run.run []).2 = [r.address "query" ⟨[1], by decide⟩] ∧
      ((sentFromLog r {} .anonymous c "" .query).run.run []).2 = [r.address "query" .management] ∧
      r.address "query" .management ≠ r.address "query" ⟨[1], by decide⟩ := by
  intro c r
  have hexpiries : r.expiries.Nonneg := Request.Expiries.ofSecond_nonneg (le_refl 0)
  have hsize : Fits .anonymous r.expiries c .query := fits_anonymous (by decide +kernel)
  have htext : argumentText c.arg = .ok "()" := rfl
  refine ⟨posts_sentAtOnce hexpiries {} .anonymous c .query, ?_, ?_⟩
  · rw [sentFromLog_eq r {} "" hexpiries hsize, liftM_ok_bind htext, run_singleton]
    exact posts_sentAtOnce hexpiries {} .anonymous (rerouted c .query) .query
  · intro h
    exact absurd (address_injective r "query" h) (by decide)

end CanisterShell.Offline
