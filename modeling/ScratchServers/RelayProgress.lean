import ScratchServers.RelayExchange

/-! When the closed system comes to a stop: with the client's whole reply, or
wedged between the client and the relay. -/

namespace ScratchServers

/-- The client has all that the relay wrote and wants more, and the relay has all
that the client wrote and wants more. -/
def SslExchange.Wedged (s : SslExchange) : Prop :=
  (∃ t, s.client.op = .read t ∧ 0 < t.left) ∧ s.session.stream.outbound = [] ∧
    s.session.pending = some .read ∧ s.session.stream.inbound = []

theorem SslExchange.Sound.not_wedged {request : Bytes} (hn : request.length ≤ maxLength)
    {s : SslExchange} (h : s.Sound request) : ¬ s.Wedged := by
  rintro ⟨⟨t, hop, hleft⟩, hout, hp, hin⟩
  have hgot := h.got
  have htaken := h.taken
  have hsent := h.sent
  have hsized := h.sized
  have hmoved := t.moved_add_left
  rw [hout, List.append_nil, h.serving.returned_eq hp] at hgot
  rw [hin, List.append_nil, ← hgot] at htaken
  simp only [SslClient.Sized, SslClient.unsent, SslClient.received, hop, List.append_nil]
    at hsized hsent htaken
  have hlen := congrArg List.length (htaken.trans hsent)
  rw [s.client.reply.length_front (by omega)] at hlen
  omega

theorem SslExchange.Sound.reply_eq {request reply : Bytes} (hn : request.length ≤ maxLength)
    {s : SslExchange} (h : s.Sound request) (hr : s.client.reply? = some reply) :
    reply = request := by
  have hreturned : s.session.stream.returned <+: s.session.stream.sent :=
    h.serving.unbroken.returned.trans ⟨_, h.taken⟩
  have hpre : s.client.received <+: request :=
    (List.IsPrefix.trans ⟨_, h.got⟩ hreturned).trans ⟨_, h.sent⟩
  have hsized := h.sized
  rcases hop : s.client.op with _ | _ | t | t | m | m <;>
    simp only [SslClient.reply?, hop, reduceCtorEq, Option.some.injEq] at hr <;>
    simp only [SslClient.Sized, hop] at hsized <;>
    simp only [SslClient.received, hop, hr] at hpre <;>
    exact hpre.eq_of_length (by rw [← hr, s.client.reply.length_front (by omega), hsized])

theorem SslExchange.Sound.session_idle {request : Bytes} {s : SslExchange} (h : s.Sound request)
    (hstuck : (sslExchange request).Stuck s) (hshut : s.session.stream.shut = false) :
    s.session.pending = some .read ∧ s.session.stream.inbound = [] := by
  have hno {e : RelayEvent} {u : RelaySession} {conns : List EchoConnection} (he : e ≠ .fail) :
      s.session.step s.backend.connections e ≠ some (u, conns) := fun hs =>
    hstuck.not_step (.session e) (step_session.mpr ⟨he, u, conns, hs, rfl⟩)
  rcases hp : s.session.pending with _ | _ | _ | length | t | _ | t
  · exact absurd hp (h.awake hshut)
  · exact (hno (by simp) (RelaySession.step_handshake.mpr ⟨hp, rfl, rfl⟩)).elim
  · refine ⟨rfl, ?_⟩
    by_contra hin
    have hread : CanRead maxLength s.session.stream.inbound 1 := canRead_one (by decide) hin
    exact hno (by simp) (RelaySession.step_read.mpr ⟨hp, hread, rfl, rfl⟩)
  · exact (hno (by simp) (RelaySession.step_connect.mpr ⟨length, hp, rfl, rfl⟩)).elim
  · obtain ⟨c, conn, hsock, hc⟩ := h.serving.wired (.inr ⟨t, hp⟩)
    by_cases ht : t.left = 0
    · exact (hno (by simp) (RelaySession.step_forwardWrite.mpr ⟨t, hp, ht, rfl, rfl⟩)).elim
    · have hacc := Transfer.canAccept_one (Nat.pos_of_ne_zero ht) (room_none conn.up 1)
      have hs := RelaySession.step_forwardWriteSome.mpr ⟨t, c, conn, hp, hsock, hc, hacc, rfl, rfl⟩
      exact (hno (by simp) hs).elim
  · obtain ⟨c, conn, hsock, hc⟩ := h.serving.wired (.inl hp)
    have hdown : conn.down = [] := by
      by_contra hdown
      have hread : CanRead maxLength conn.down 1 := canRead_one (by decide) hdown
      have hs := RelaySession.step_forwardRead.mpr ⟨c, conn, hp, hsock, hc, hread, rfl, rfl⟩
      exact hno (by simp) hs
    have hidle : ∀ e c', conn.step none e = some c' → e = .fail := by
      intro e c' hs
      by_contra he
      obtain ⟨v, hv⟩ := EchoServer.connection_enabled h.accepting hc hs
      exact hstuck.not_step (.backend c e) (step_backend.mpr ⟨he, v, hv, rfl⟩)
    have hempty : conn.inFlight = [] := by
      rcases (h.serving.alive c conn hsock hc).2.idle hidle with ⟨hheld, hup⟩ | ⟨_, _, _, _, hfull⟩
      · simp only [EchoConnection.inFlight, hdown, hheld, hup, List.append_nil]
      · exact absurd (room_none _ _) hfull
    exact absurd hempty (h.serving.inFlight_ne_nil hp hsock hc)
  · by_cases ht : t.left = 0
    · exact (hno (by simp) (RelaySession.step_write.mpr ⟨t, hp, ht, rfl, rfl⟩)).elim
    · have hroom := room_none s.session.stream.outbound 1
      have hacc := Transfer.canAccept_one (Nat.pos_of_ne_zero ht) hroom
      exact (hno (by simp) (RelaySession.step_writeSome.mpr ⟨t, hp, hacc, rfl, rfl⟩)).elim

theorem SslExchange.Sound.not_stuck {request : Bytes} (hn : request.length ≤ maxLength)
    {s : SslExchange} (h : s.Sound request) (hr : s.client.reply? = none) :
    ¬ (sslExchange request).Stuck s := by
  intro hstuck
  have hno {e : SslExchangeEvent} {s' : SslExchange} : s.step request.length e ≠ some s' :=
    hstuck.not_step e
  rcases hop : s.client.op with _ | _ | t | t | m | m
  · exact hno (step_connect.mpr ⟨hop, rfl⟩)
  · exact hno (step_handshake.mpr ⟨hop, rfl⟩)
  · by_cases ht : t.left = 0
    · exact hno (step_write.mpr ⟨t, hop, ht, rfl⟩)
    · have hroom := room_none s.session.stream.inbound 1
      have hacc := Transfer.canAccept_one (Nat.pos_of_ne_zero ht) hroom
      exact hno (step_writeSome.mpr ⟨t, hop, hacc, rfl⟩)
  · have hleft : 0 < t.left := by
      by_contra ht
      exact hno (step_read.mpr ⟨t, hop, by omega, rfl⟩)
    have hout : s.session.stream.outbound = [] := by
      by_contra hout
      exact hno (step_readSome.mpr ⟨t, hop, canRead_one hleft hout, rfl⟩)
    have hshut := eq_false_of_ne_true (h.not_shut (by simp [hop]))
    obtain ⟨hp, hin⟩ := h.session_idle hstuck hshut
    exact h.not_wedged hn ⟨⟨t, hop, hleft⟩, hout, hp, hin⟩
  · exact absurd hr (by simp [SslClient.reply?, hop])
  · exact absurd hr (by simp [SslClient.reply?, hop])

/-- As long as each read of an echo finds all of it, an exchange only stops with
the client's whole reply. -/
theorem relayed_exchange_completes {request : Bytes} (hn : request.length ≤ 1023)
    {s : SslExchange} (h : (sslExchange request).ReachableBy WholeEcho s) :
    ((sslExchange request).Stuck s → s.client.reply? = some request) ∧ ¬ s.Wedged := by
  have hmax : request.length ≤ maxLength := Nat.le_succ_of_le hn
  have hsound := SslExchange.sound_of_reachable hmax h
  refine ⟨fun hstuck => ?_, hsound.not_wedged hmax⟩
  cases hr : s.client.reply? with
  | none => exact absurd hstuck (hsound.not_stuck hmax hr)
  | some reply => rw [hsound.reply_eq hmax hr]

def EchoConnection.quiet (c : EchoConnection) : Bool :=
  match c.session with
  | some ⟨_, none⟩ => true
  | some ⟨_, some .read⟩ => c.up.isEmpty && c.nearOpen
  | _ => false

def RelaySession.quiet (s : RelaySession) : Bool :=
  match s.pending with
  | none => true
  | some .read => s.stream.inbound.isEmpty && !s.stream.shut
  | _ => false

def SslExchange.quiet (s : SslExchange) : Bool :=
  s.backend.connections.all EchoConnection.quiet && s.session.quiet &&
    match s.client.op with
    | .read t => t.left != 0 && s.session.stream.outbound.isEmpty
    | .finished _ => true
    | _ => false

theorem EchoConnection.fail_of_quiet {cap : Option Nat} {c c' : EchoConnection} {e : EchoEvent}
    (h : c.quiet = true) (hs : c.step cap e = some c') : e = .fail := by
  rcases hsess : c.session with _ | ⟨data, _ | _ | t⟩ <;> simp [quiet, hsess] at h <;>
    cases e <;> simp [step, hsess, h, CanRead] at hs ⊢
  omega

theorem RelaySession.fail_of_quiet {s : RelaySession} {conns : List EchoConnection}
    {e : RelayEvent} {r : RelaySession × List EchoConnection} (h : s.quiet = true)
    (hs : s.step conns e = some r) : e = .fail := by
  rcases hp : s.pending with _ | _ | _ | length | t | _ | t <;> simp [quiet, hp] at h <;>
    cases e <;> simp [step, hp, h, CanRead] at hs ⊢
  omega

theorem SslExchange.stuck_of_quiet {request : Bytes} {s : SslExchange} (h : s.quiet = true) :
    (sslExchange request).Stuck s := by
  intro e
  by_contra hne
  obtain ⟨s', hs⟩ := Option.ne_none_iff_exists'.mp hne
  change s.step request.length e = some s' at hs
  simp only [quiet, Bool.and_eq_true, List.all_eq_true] at h
  obtain ⟨⟨hconns, hsession⟩, hclient⟩ := h
  cases e with
  | session e =>
    obtain ⟨he, _, _, hu, _⟩ := step_session.mp hs
    exact he (RelaySession.fail_of_quiet hsession hu)
  | backend c e =>
    obtain ⟨he, v, hv, _⟩ := step_backend.mp hs
    obtain ⟨conn, conn', hc, hconn, _⟩ := EchoServer.step_connection hv
    exact he (EchoConnection.fail_of_quiet (hconns conn (List.mem_of_getElem? hc)) hconn)
  | readSome n =>
    obtain ⟨t, hop, hr, _⟩ := step_readSome.mp hs
    simp only [hop, Bool.and_eq_true, List.isEmpty_iff] at hclient
    rw [hclient.2] at hr
    exact absurd hr.2.2 (Nat.not_le.mpr hr.1)
  | _ =>
    rcases hop : s.client.op with _ | _ | t | t | m | m <;> simp [hop] at hclient <;>
      simp [step, hop, hclient] at hs

/-- A client sends `[1, 2]`; the relay's read of the echo finds `n` bytes, and
the echo server brings back the others afterwards. -/
def sslRound (n : Nat) : List SslExchangeEvent :=
  [.connect, .handshake, .writeSome 2, .write, .session .handshake, .session (.read 2),
    .session .connect, .session (.forwardWriteSome 2), .session .forwardWrite,
    .backend 0 (.accept (.filled 0)), .backend 0 (.read n), .backend 0 (.writeSome n),
    .backend 0 .write, .session (.forwardRead n), .session (.writeSome n), .session .write,
    .readSome n]

def sslStart : SslExchange :=
  ⟨⟨Buffer.put (.filled 0) 0 [1, 2], .filled 0, .connect⟩,
    ⟨.fresh, .filled 0, .filled 0, none, some .handshake⟩, .construct⟩

theorem relayed_exchange_completes_run :
    ∃ s, (sslExchange [1, 2]).ReachableBy WholeEcho s ∧ (sslExchange [1, 2]).Stuck s ∧
      s.client.reply? = some [1, 2] ∧ ¬ s.Wedged := by
  obtain ⟨s, hs, hq⟩ := (sslExchange [1, 2]).exists_reachableBy_of_run WholeEcho sslStart
    (sslRound 2 ++ [.read, .shutdown, .session .contextExpired, .backend 0 .eof])
    SslExchange.quiet ⟨rfl, by decide +kernel, rfl, rfl, rfl, rfl⟩ (by decide +kernel)
  have hstuck : (sslExchange [1, 2]).Stuck s := SslExchange.stuck_of_quiet hq
  have h := relayed_exchange_completes (by decide) hs
  exact ⟨s, hs, hstuck, h.1 hstuck, h.2⟩

/-- The relay's one read finds `[1]` of `[1, 2]` and goes back to the client, who
waits for `[2]`. -/
theorem relayed_exchange_wedges :
    ∃ s, (sslExchange [1, 2]).Reachable s ∧ (sslExchange [1, 2]).Stuck s ∧ s.Wedged ∧
      s.client.reply? ≠ some [1, 2] := by
  obtain ⟨s, hs, hq⟩ := (sslExchange [1, 2]).exists_reachable_of_run sslStart
    (sslRound 1 ++ [.backend 0 (.read 1), .backend 0 (.writeSome 1), .backend 0 .write])
    (fun s => s.quiet && s.client.op = .read ⟨2, 1, by decide⟩ &&
      s.session.stream.outbound.isEmpty && s.session.pending = some .read &&
      s.session.stream.inbound.isEmpty)
    ⟨rfl, by decide +kernel, rfl, rfl, rfl, rfl⟩ (by decide +kernel)
  simp only [Bool.and_eq_true, List.isEmpty_iff, decide_eq_true_eq] at hq
  obtain ⟨⟨⟨⟨hquiet, hop⟩, hout⟩, hp⟩, hin⟩ := hq
  refine ⟨s, hs, SslExchange.stuck_of_quiet hquiet, ⟨⟨_, hop, by decide⟩, hout, hp, hin⟩, ?_⟩
  simp [SslClient.reply?, hop]

end ScratchServers
