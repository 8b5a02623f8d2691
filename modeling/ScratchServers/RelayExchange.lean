import ScratchServers.RelayServing

/-! One client of `echo_ssl_client.cpp`, one relay session and the echo server,
as a closed system: when the client is sure to get its whole reply. -/

namespace ScratchServers

inductive SslClientOp where
  | connect
  | handshake
  | write (t : Transfer)
  | read (t : Transfer)
  | shutdown (length : Nat)
  | finished (length : Nat)
  deriving DecidableEq

structure SslClient where
  request : Buffer Byte maxLength
  reply : Buffer Byte maxLength
  op : SslClientOp

def SslClient.handshake (c : SslClient) : SslClient :=
  { c with op := .handshake }

/-- `requestLength` is what `strlen` finds in `request_` after `getline`. -/
def SslClient.sendRequest (c : SslClient) (requestLength : Nat) : SslClient :=
  { c with op := .write (.start requestLength) }

def SslClient.receiveResponse (c : SslClient) (length : Nat) : SslClient :=
  { c with op := .read (.start length) }

structure SslExchange where
  client : SslClient
  session : RelaySession
  backend : EchoServer

inductive SslExchangeEvent where
  | connect
  | handshake
  | writeSome (n : Nat)
  | write
  | readSome (n : Nat)
  | read
  | shutdown
  | session (e : RelayEvent)
  | backend (c : Nat) (e : EchoEvent)

/-- There is no I/O error: no operation fails on any side. -/
def SslExchange.step (requestLength : Nat) (s : SslExchange) :
    SslExchangeEvent → Option SslExchange
  | .connect =>
    if s.client.op = .connect then some { s with client := s.client.handshake } else none
  | .handshake =>
    if s.client.op = .handshake then some { s with client := s.client.sendRequest requestLength }
    else none
  | .writeSome n =>
    match s.client.op with
    | .write t =>
      if t.CanAccept none s.session.stream.inbound n then
        some { s with
          client := { s.client with op := .write (t.advance n) }
          session := { s.session with
            stream := s.session.stream.send ((t.unsent s.client.request.cells).take n) } }
      else none
    | _ => none
  | .write =>
    match s.client.op with
    | .write t =>
      if t.left = 0 then some { s with client := s.client.receiveResponse t.length } else none
    | _ => none
  | .readSome n =>
    match s.client.op with
    | .read t =>
      if CanRead t.left s.session.stream.outbound n then
        some { s with
          client := { s.client with
            reply := s.client.reply.put t.moved (s.session.stream.outbound.take n)
            op := .read (t.advance n) }
          session := { s.session with stream := s.session.stream.receive n } }
      else none
    | _ => none
  | .read =>
    match s.client.op with
    | .read t =>
      if t.left = 0 then some { s with client := { s.client with op := .shutdown t.length } }
      else none
    | _ => none
  | .shutdown =>
    match s.client.op with
    | .shutdown length =>
      some { s with
        client := { s.client with op := .finished length }
        session := { s.session with stream := { s.session.stream with shut := true } } }
    | _ => none
  | .session .fail => none
  | .session e =>
    (s.session.step s.backend.connections e).map fun r => { s with
      session := r.1
      backend := { s.backend with connections := r.2 } }
  | .backend _ .fail => none
  | .backend c e => (s.backend.step (.connection c e)).map fun v => { s with backend := v }

def sslExchange (request : Bytes) : System SslExchange SslExchangeEvent where
  start s :=
    s.client.op = .connect ∧ s.client.request.front request.length = request ∧
      s.session.stream = .fresh ∧ s.session.socket = none ∧ s.session.pending = some .handshake ∧
      s.backend = .construct
  step := SslExchange.step request.length

section

variable {k : Nat} {s s' : SslExchange}

theorem SslExchange.step_connect :
    s.step k .connect = some s' ↔
      s.client.op = .connect ∧ s' = { s with client := { s.client with op := .handshake } } := by
  simp [step, SslClient.handshake, @eq_comm SslExchange]

theorem SslExchange.step_handshake :
    s.step k .handshake = some s' ↔
      s.client.op = .handshake ∧
        s' = { s with client := { s.client with op := .write (.start k) } } := by
  simp [step, SslClient.sendRequest, @eq_comm SslExchange]

theorem SslExchange.step_writeSome {n : Nat} :
    s.step k (.writeSome n) = some s' ↔
      ∃ t, s.client.op = .write t ∧ t.CanAccept none s.session.stream.inbound n ∧
        s' = { s with
          client := { s.client with op := .write (t.advance n) }
          session := { s.session with
            stream := s.session.stream.send ((t.unsent s.client.request.cells).take n) } } := by
  rcases hop : s.client.op with _ | _ | t | t | m | m <;> simp [step, hop, @eq_comm SslExchange]

theorem SslExchange.step_write :
    s.step k .write = some s' ↔
      ∃ t, s.client.op = .write t ∧ t.left = 0 ∧
        s' = { s with client := { s.client with op := .read (.start t.length) } } := by
  rcases hop : s.client.op with _ | _ | t | t | m | m <;>
    simp [step, hop, SslClient.receiveResponse, @eq_comm SslExchange]

theorem SslExchange.step_readSome {n : Nat} :
    s.step k (.readSome n) = some s' ↔
      ∃ t, s.client.op = .read t ∧ CanRead t.left s.session.stream.outbound n ∧
        s' = { s with
          client := { s.client with
            reply := s.client.reply.put t.moved (s.session.stream.outbound.take n)
            op := .read (t.advance n) }
          session := { s.session with stream := s.session.stream.receive n } } := by
  rcases hop : s.client.op with _ | _ | t | t | m | m <;> simp [step, hop, @eq_comm SslExchange]

theorem SslExchange.step_read :
    s.step k .read = some s' ↔
      ∃ t, s.client.op = .read t ∧ t.left = 0 ∧
        s' = { s with client := { s.client with op := .shutdown t.length } } := by
  rcases hop : s.client.op with _ | _ | t | t | m | m <;> simp [step, hop, @eq_comm SslExchange]

theorem SslExchange.step_shutdown :
    s.step k .shutdown = some s' ↔
      ∃ length, s.client.op = .shutdown length ∧
        s' = { s with
          client := { s.client with op := .finished length }
          session := { s.session with stream := { s.session.stream with shut := true } } } := by
  rcases hop : s.client.op with _ | _ | t | t | m | m <;> simp [step, hop, @eq_comm SslExchange]

theorem SslExchange.step_session {e : RelayEvent} :
    s.step k (.session e) = some s' ↔
      e ≠ .fail ∧ ∃ u conns, s.session.step s.backend.connections e = some (u, conns) ∧
        s' = { s with session := u, backend := { s.backend with connections := conns } } := by
  cases e <;> simp [step, Option.map_eq_some_iff, @eq_comm SslExchange]

theorem SslExchange.step_backend {c : Nat} {e : EchoEvent} :
    s.step k (.backend c e) = some s' ↔
      e ≠ .fail ∧ ∃ v, s.backend.step (.connection c e) = some v ∧
        s' = { s with backend := v } := by
  cases e <;> simp [step, Option.map_eq_some_iff, @eq_comm SslExchange]

end

def SslClient.unsent (requestLength : Nat) (c : SslClient) : Bytes :=
  match c.op with
  | .connect | .handshake => c.request.front requestLength
  | .write t => t.unsent c.request.cells
  | _ => []

def SslClient.received (c : SslClient) : Bytes :=
  match c.op with
  | .read t => c.reply.front t.moved
  | .shutdown length | .finished length => c.reply.front length
  | _ => []

def SslClient.Sized (requestLength : Nat) (c : SslClient) : Prop :=
  match c.op with
  | .connect | .handshake => True
  | .write t | .read t => t.length = requestLength
  | .shutdown length | .finished length => length = requestLength

/-- The reply that the client prints, once its `async_read` has completed. -/
def SslClient.reply? (c : SslClient) : Option Bytes :=
  match c.op with
  | .shutdown length | .finished length => some (c.reply.front length)
  | _ => none

structure SslExchange.Sound (request : Bytes) (s : SslExchange) : Prop where
  serving : s.session.Serving s.backend.connections
  accepting : 0 < s.backend.accepts
  sized : s.client.Sized request.length
  sent : s.session.stream.sent ++ s.client.unsent request.length = request
  taken : s.session.stream.chunks.flatten ++ s.session.stream.inbound = s.session.stream.sent
  got : s.client.received ++ s.session.stream.outbound = s.session.stream.returned
  opened : s.session.stream.shut = true → ∃ length, s.client.op = .finished length
  awake : s.session.stream.shut = false → s.session.pending ≠ none

def SslExchangeEvent.echoRead : SslExchangeEvent → Option Nat
  | .session (.forwardRead n) => some n
  | _ => none

/-- The one read that the relay makes on a connection takes all that is still on
its way there. -/
def WholeEcho (s : SslExchange) (e : SslExchangeEvent) : Prop :=
  ∀ n ∈ e.echoRead, ∀ c ∈ s.session.socket, ∀ conn ∈ s.backend.connections[c]?,
    conn.inFlight.length = n

instance (s : SslExchange) (e : SslExchangeEvent) : Decidable (WholeEcho s e) :=
  inferInstanceAs (Decidable (∀ n ∈ e.echoRead, ∀ c ∈ s.session.socket,
    ∀ conn ∈ s.backend.connections[c]?, conn.inFlight.length = n))

theorem SslExchange.Sound.not_shut {request : Bytes} {s : SslExchange} (h : s.Sound request)
    (hf : ∀ length, s.client.op ≠ .finished length) : s.session.stream.shut ≠ true := by
  intro hshut
  obtain ⟨length, hop⟩ := h.opened hshut
  exact hf length hop

/-- A step of the client that leaves the relay's side of the stream as it was. -/
theorem SslExchange.Sound.client_step {request : Bytes} {s : SslExchange} (h : s.Sound request)
    {client : SslClient} (hf : ∀ length, s.client.op ≠ .finished length)
    (hsized : client.Sized request.length)
    (hunsent : client.unsent request.length = s.client.unsent request.length)
    (hreceived : client.received = s.client.received) :
    ({ s with client := client } : SslExchange).Sound request where
  serving := h.serving
  accepting := h.accepting
  sized := hsized
  sent := by
    have hsent := h.sent
    rwa [← hunsent] at hsent
  taken := h.taken
  got := by
    have hgot := h.got
    rwa [← hreceived] at hgot
  opened := fun hshut => absurd hshut (h.not_shut hf)
  awake := h.awake

theorem SslExchange.Sound.writeSome {request : Bytes} {s : SslExchange} (h : s.Sound request)
    {t : Transfer} {n : Nat} (hop : s.client.op = .write t) (hn : n ≤ t.left) :
    SslExchange.Sound request { s with
      client := { s.client with op := .write (t.advance n) }
      session := { s.session with
        stream := s.session.stream.send ((t.unsent s.client.request.cells).take n) } } where
  serving := h.serving.stream rfl rfl
  accepting := h.accepting
  sized := by
    have hsized := h.sized
    simp only [SslClient.Sized, hop] at hsized
    exact hsized
  sent := by
    have hsent := h.sent
    simp only [SslClient.unsent, hop] at hsent
    rw [← Transfer.take_append_unsent hn, ← List.append_assoc] at hsent
    exact hsent
  taken := by
    have htaken := h.taken
    simp only [TlsStream.send, ← htaken, List.append_assoc]
  got := by
    have hgot := h.got
    simp only [SslClient.received, hop] at hgot
    exact hgot
  opened := fun hshut => absurd hshut (h.not_shut (by simp [hop]))
  awake := h.awake

theorem SslExchange.Sound.readSome {request : Bytes} (hmax : request.length ≤ maxLength)
    {s : SslExchange} (h : s.Sound request) {t : Transfer} {n : Nat} (hop : s.client.op = .read t)
    (hr : CanRead t.left s.session.stream.outbound n) :
    SslExchange.Sound request { s with
      client := { s.client with
        reply := s.client.reply.put t.moved (s.session.stream.outbound.take n)
        op := .read (t.advance n) }
      session := { s.session with stream := s.session.stream.receive n } } := by
  have hsized : t.length = request.length := by simpa only [SslClient.Sized, hop] using h.sized
  have hfit : t.moved + n ≤ maxLength := by
    have hmoved := t.moved_add_left
    have hleft := hr.2.1
    omega
  have hfront := hr.front_put s.client.reply hfit
  have hgot : s.client.reply.front t.moved ++ s.session.stream.outbound =
      s.session.stream.returned := by
    simpa only [SslClient.received, hop] using h.got
  have hsent := h.sent
  simp only [SslClient.unsent, hop] at hsent
  have hserving : ({ s.session with stream := s.session.stream.receive n } :
      RelaySession).Serving s.backend.connections := h.serving.stream rfl rfl
  refine ⟨hserving, h.accepting, hsized, hsent, h.taken, ?_, fun hshut => ?_, h.awake⟩
  · simp only [SslClient.received, Transfer.moved_advance hr.2.1, hfront, TlsStream.receive,
      List.append_assoc, List.take_append_drop, hgot]
  · exact absurd hshut (h.not_shut (by simp [hop]))

theorem SslExchange.Sound.session {request : Bytes} {s : SslExchange} (h : s.Sound request)
    {e : RelayEvent} {u : RelaySession} {conns : List EchoConnection} (he : e ≠ .fail)
    (hu : s.session.step s.backend.connections e = some (u, conns))
    (hwhole : ∀ n, e = .forwardRead n → ∀ c conn, s.session.socket = some c →
      s.backend.connections[c]? = some conn → conn.inFlight.length = n) :
    SslExchange.Sound request { s with
      session := u
      backend := { s.backend with connections := conns } } := by
  obtain ⟨hsent, hshut, htaken, xs, hout, hret⟩ := RelaySession.step_stream hu
  refine ⟨h.serving.step hu he hwhole, h.accepting, h.sized, ?_, ?_, ?_, ?_, fun hopen => ?_⟩
  · rw [hsent]
    exact h.sent
  · rw [htaken, hsent]
    exact h.taken
  · rw [hout, hret, ← h.got, List.append_assoc]
  · rw [hshut]
    exact h.opened
  · exact RelaySession.step_awake hu he (hshut ▸ hopen)

theorem SslExchange.Sound.step {request : Bytes} (hmax : request.length ≤ maxLength)
    {s s' : SslExchange} {e : SslExchangeEvent} (h : s.Sound request)
    (hs : s.step request.length e = some s') (hwhole : WholeEcho s e) : s'.Sound request := by
  have hsized := h.sized
  cases e with
  | connect =>
    obtain ⟨hop, rfl⟩ := step_connect.mp hs
    apply h.client_step
    · simp [hop]
    · trivial
    · simp only [SslClient.unsent, hop]
    · simp only [SslClient.received, hop]
  | handshake =>
    obtain ⟨hop, rfl⟩ := step_handshake.mp hs
    apply h.client_step
    · simp [hop]
    · rfl
    · simp only [SslClient.unsent, hop, Transfer.unsent_start, Buffer.front]
    · simp only [SslClient.received, hop]
  | writeSome n =>
    obtain ⟨t, hop, hacc, rfl⟩ := step_writeSome.mp hs
    exact h.writeSome hop hacc.2.1
  | write =>
    obtain ⟨t, hop, ht, rfl⟩ := step_write.mp hs
    simp only [SslClient.Sized, hop] at hsized
    apply h.client_step
    · simp [hop]
    · exact hsized
    · simp only [SslClient.unsent, hop, Transfer.unsent_eq_nil ht]
    · simp only [SslClient.received, hop, Transfer.moved_start, Buffer.front, List.take_zero]
  | readSome n =>
    obtain ⟨t, hop, hr, rfl⟩ := step_readSome.mp hs
    exact h.readSome hmax hop hr
  | read =>
    obtain ⟨t, hop, ht, rfl⟩ := step_read.mp hs
    simp only [SslClient.Sized, hop] at hsized
    have hmoved : t.moved = t.length := by have hadd := t.moved_add_left; omega
    apply h.client_step
    · simp [hop]
    · exact hsized
    · simp only [SslClient.unsent, hop]
    · simp only [SslClient.received, hop, hmoved]
  | shutdown =>
    obtain ⟨length, hop, rfl⟩ := step_shutdown.mp hs
    have hserving : ({ s.session with stream := { s.session.stream with shut := true } } :
        RelaySession).Serving s.backend.connections := h.serving.stream rfl rfl
    refine ⟨hserving, h.accepting, ?_, ?_, h.taken, ?_, fun _ => ⟨length, rfl⟩, by simp⟩
    · simpa only [SslClient.Sized, hop] using hsized
    · simpa only [SslClient.unsent, hop] using h.sent
    · simpa only [SslClient.received, hop] using h.got
  | session e =>
    obtain ⟨he, u, conns, hu, rfl⟩ := step_session.mp hs
    refine h.session he hu fun n hn c conn hc hconn => ?_
    subst hn
    exact hwhole n rfl c hc conn hconn
  | backend c e =>
    obtain ⟨he, v, hv, rfl⟩ := step_backend.mp hs
    obtain ⟨conn, conn', hc, hconn, rfl⟩ := EchoServer.step_connection hv
    have hserving := h.serving.backend hc hconn he
    exact ⟨hserving, h.accepting, hsized, h.sent, h.taken, h.got, h.opened, h.awake⟩

theorem SslExchange.sound_of_reachable {request : Bytes} (hn : request.length ≤ maxLength)
    {s : SslExchange} (h : (sslExchange request).ReachableBy WholeEcho s) : s.Sound request := by
  refine h.invariant ?_ fun s e s' hsound hwhole hs => hsound.step hn hs hwhole
  rintro ⟨⟨buffer, reply, op⟩, ⟨stream, data, forwardData, socket, pending⟩, backend⟩
    ⟨rfl, hreq, rfl, rfl, rfl, rfl⟩
  refine ⟨⟨unbroken_sessionLaw.fresh _ _ _, fun _ _ _ => rfl, ?_, by simp, nofun⟩, Nat.one_pos,
    trivial, hreq, rfl, rfl, nofun, nofun⟩
  rintro op hp hf
  obtain rfl := Option.some.inj hp
  exact absurd hf nofun

end ScratchServers
