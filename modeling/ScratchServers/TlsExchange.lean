import ScratchServers.LineInput
import ScratchServers.RelayExchange
import ScratchServers.TlsEcho

/-! The client of `echo_client_original.cpp`, from the line that is typed to the
shutdown of its stream, against the TLS server of `echo_server_original.cpp`. -/

namespace ScratchServers

/-- `send_request`: the line goes into `request_` first. -/
def SslClient.enterMessage (c : SslClient) (input : Bytes) : SslClient :=
  let request := getline c.request input
  { c with request := request }.sendRequest (strlen request)

inductive SslClientEvent where
  | connect
  | handshake
  | writeSome (n : Nat)
  | write
  | readSome (n : Nat)
  | read
  | shutdown

/-- A step of the client, which acts on its own stream only. -/
def SslClient.step (input : Bytes) (c : SslClient) (st : TlsStream) :
    SslClientEvent → Option (SslClient × TlsStream)
  | .connect => if c.op = .connect then some (c.handshake, st) else none
  | .handshake => if c.op = .handshake then some (c.enterMessage input, st) else none
  | .writeSome n =>
    match c.op with
    | .write t =>
      if t.CanAccept none st.inbound n then
        some ({ c with op := .write (t.advance n) },
          st.send ((t.unsent c.request.cells).take n))
      else none
    | _ => none
  | .write =>
    match c.op with
    | .write t => if t.left = 0 then some (c.receiveResponse t.length, st) else none
    | _ => none
  | .readSome n =>
    match c.op with
    | .read t =>
      if CanRead t.left st.outbound n then
        some ({ c with
          reply := c.reply.put t.moved (st.outbound.take n)
          op := .read (t.advance n) }, st.receive n)
      else none
    | _ => none
  | .read =>
    match c.op with
    | .read t => if t.left = 0 then some ({ c with op := .shutdown t.length }, st) else none
    | _ => none
  | .shutdown =>
    match c.op with
    | .shutdown length => some ({ c with op := .finished length }, { st with shut := true })
    | _ => none

section

variable {input : Bytes} {c c' : SslClient} {st st' : TlsStream}

theorem SslClient.step_connect :
    c.step input st .connect = some (c', st') ↔
      c.op = .connect ∧ c' = { c with op := .handshake } ∧ st' = st := by
  simp [step, SslClient.handshake, @eq_comm _ _ c', @eq_comm _ _ st']

theorem SslClient.step_handshake :
    c.step input st .handshake = some (c', st') ↔
      c.op = .handshake ∧
        c' = { c with
          request := getline c.request input
          op := .write (.start (message input).length) } ∧ st' = st := by
  simp [step, enterMessage, sendRequest, (getline_strlen c.request input).1, @eq_comm _ _ c',
    @eq_comm _ _ st']

theorem SslClient.step_writeSome {n : Nat} :
    c.step input st (.writeSome n) = some (c', st') ↔
      ∃ t, c.op = .write t ∧ t.CanAccept none st.inbound n ∧
        c' = { c with op := .write (t.advance n) } ∧
        st' = st.send ((t.unsent c.request.cells).take n) := by
  rcases hop : c.op with _ | _ | t | t | m | m <;>
    simp [step, hop, @eq_comm _ _ c', @eq_comm _ _ st']

theorem SslClient.step_write :
    c.step input st .write = some (c', st') ↔
      ∃ t, c.op = .write t ∧ t.left = 0 ∧
        c' = { c with op := .read (.start t.length) } ∧ st' = st := by
  rcases hop : c.op with _ | _ | t | t | m | m <;>
    simp [step, hop, receiveResponse, @eq_comm _ _ c', @eq_comm _ _ st']

theorem SslClient.step_readSome {n : Nat} :
    c.step input st (.readSome n) = some (c', st') ↔
      ∃ t, c.op = .read t ∧ CanRead t.left st.outbound n ∧
        c' = { c with
          reply := c.reply.put t.moved (st.outbound.take n)
          op := .read (t.advance n) } ∧ st' = st.receive n := by
  rcases hop : c.op with _ | _ | t | t | m | m <;>
    simp [step, hop, @eq_comm _ _ c', @eq_comm _ _ st']

theorem SslClient.step_read :
    c.step input st .read = some (c', st') ↔
      ∃ t, c.op = .read t ∧ t.left = 0 ∧ c' = { c with op := .shutdown t.length } ∧ st' = st := by
  rcases hop : c.op with _ | _ | t | t | m | m <;>
    simp [step, hop, @eq_comm _ _ c', @eq_comm _ _ st']

theorem SslClient.step_shutdown :
    c.step input st .shutdown = some (c', st') ↔
      ∃ length, c.op = .shutdown length ∧ c' = { c with op := .finished length } ∧
        st' = { st with shut := true } := by
  rcases hop : c.op with _ | _ | t | t | m | m <;>
    simp [step, hop, @eq_comm _ _ c', @eq_comm _ _ st']

end

/-- What of `request` the client has still to send. -/
def SslClient.toSend (request : Bytes) (c : SslClient) : Bytes :=
  match c.op with
  | .connect | .handshake => request
  | .write t => t.unsent c.request.cells
  | _ => []

/-- The client's side of its stream. -/
structure SslClient.Talks (request : Bytes) (c : SslClient) (st : TlsStream) : Prop where
  sized : c.Sized request.length
  sent : st.sent ++ c.toSend request = request
  got : c.received ++ st.outbound = st.returned
  closed : st.shut = true ↔ ∃ length, c.op = .finished length

section

variable {input request : Bytes} {c c' : SslClient} {st st' : TlsStream}

theorem SslClient.Talks.client (h : c.Talks request st) (hsized : c'.Sized request.length)
    (hsend : c'.toSend request = c.toSend request) (hgot : c'.received = c.received)
    (hop : ∀ length, c.op ≠ .finished length) (hop' : ∀ length, c'.op ≠ .finished length) :
    c'.Talks request st := by
  refine ⟨hsized, hsend ▸ h.sent, hgot ▸ h.got, ?_⟩
  rw [h.closed]
  constructor
  · rintro ⟨length, hlen⟩
    exact absurd hlen (hop length)
  · rintro ⟨length, hlen⟩
    exact absurd hlen (hop' length)

theorem SslClient.Talks.step {e : SslClientEvent} (h : c.Talks (message input) st)
    (hs : c.step input st e = some (c', st')) : c'.Talks (message input) st' := by
  have hsized := h.sized
  have hsent := h.sent
  have hgot := h.got
  have hclosed := h.closed
  cases e with
  | connect =>
    obtain ⟨hop, rfl, rfl⟩ := step_connect.mp hs
    apply h.client
    · trivial
    · simp only [toSend, hop]
    · simp only [received, hop]
    · simp [hop]
    · simp
  | handshake =>
    obtain ⟨hop, rfl, rfl⟩ := step_handshake.mp hs
    apply h.client
    · rfl
    · simp only [toSend, hop, Transfer.unsent_start]
      exact (getline_strlen c.request input).2
    · simp only [received, hop]
    · simp [hop]
    · simp
  | writeSome n =>
    obtain ⟨t, hop, hn, rfl, rfl⟩ := step_writeSome.mp hs
    simp only [Sized, hop] at hsized
    simp only [toSend, hop] at hsent
    simp only [received, hop] at hgot
    refine ⟨hsized, ?_, hgot, ?_⟩
    · simp only [TlsStream.send, toSend, List.append_assoc,
        Transfer.take_append_unsent hn.2.1]
      exact hsent
    · simpa [hop, TlsStream.send] using hclosed
  | write =>
    obtain ⟨t, hop, ht, rfl, rfl⟩ := step_write.mp hs
    simp only [Sized, hop] at hsized
    apply h.client
    · exact hsized
    · simp only [toSend, hop, Transfer.unsent_eq_nil ht]
    · simp only [received, hop, Transfer.moved_start, Buffer.front, List.take_zero]
    · simp [hop]
    · simp
  | readSome n =>
    obtain ⟨t, hop, hr, rfl, rfl⟩ := step_readSome.mp hs
    simp only [Sized, hop] at hsized
    simp only [toSend, hop] at hsent
    simp only [received, hop] at hgot
    have hfit : t.moved + n ≤ maxLength := by
      have hmoved := t.moved_add_left
      have hleft := hr.2.1
      have hlen := Nat.le_succ_of_le (length_message input)
      simp only [maxLength]
      omega
    have hfront := hr.front_put c.reply hfit
    refine ⟨hsized, hsent, ?_, ?_⟩
    · simp only [received, Transfer.moved_advance hr.2.1, hfront, TlsStream.receive,
        List.append_assoc, List.take_append_drop, hgot]
    · simpa [hop, TlsStream.receive] using hclosed
  | read =>
    obtain ⟨t, hop, ht, rfl, rfl⟩ := step_read.mp hs
    simp only [Sized, hop] at hsized
    have hmoved : t.moved = t.length := by have hadd := t.moved_add_left; omega
    apply h.client
    · exact hsized
    · simp only [toSend, hop]
    · simp only [received, hop, hmoved]
    · simp [hop]
    · simp
  | shutdown =>
    obtain ⟨length, hop, rfl, rfl⟩ := step_shutdown.mp hs
    simp only [Sized, hop] at hsized
    simp only [toSend, hop] at hsent
    simp only [received, hop] at hgot
    exact ⟨hsized, hsent, hgot, by simp⟩

/-- What the client does leaves what has passed over the stream alone. -/
theorem SslClient.step_stream {e : SslClientEvent} (hs : c.step input st e = some (c', st')) :
    st'.chunks = st.chunks ∧ st'.returned = st.returned ∧ (st.shut = true → st'.shut = true) ∧
      ∃ xs, st'.inbound = st.inbound ++ xs ∧ st'.sent = st.sent ++ xs := by
  have hsame : st.chunks = st.chunks ∧ st.returned = st.returned ∧
      (st.shut = true → st.shut = true) ∧
      ∃ xs, st.inbound = st.inbound ++ xs ∧ st.sent = st.sent ++ xs :=
    ⟨rfl, rfl, id, [], by simp⟩
  cases e with
  | connect =>
    obtain ⟨_, _, rfl⟩ := step_connect.mp hs
    exact hsame
  | handshake =>
    obtain ⟨_, _, rfl⟩ := step_handshake.mp hs
    exact hsame
  | writeSome n =>
    obtain ⟨t, _, _, _, rfl⟩ := step_writeSome.mp hs
    exact ⟨rfl, rfl, id, _, rfl, rfl⟩
  | write =>
    obtain ⟨_, _, _, _, rfl⟩ := step_write.mp hs
    exact hsame
  | readSome n =>
    obtain ⟨_, _, _, _, rfl⟩ := step_readSome.mp hs
    exact hsame
  | read =>
    obtain ⟨_, _, _, _, rfl⟩ := step_read.mp hs
    exact hsame
  | shutdown =>
    obtain ⟨_, _, _, rfl⟩ := step_shutdown.mp hs
    exact ⟨rfl, rfl, fun _ => rfl, [], by simp⟩

end

structure TlsExchange where
  client : SslClient
  session : TlsSession

inductive TlsExchangeEvent where
  | client (e : SslClientEvent)
  | session (e : TlsEvent)

/-- There is no I/O error: no operation fails on any side. -/
def TlsExchange.step (input : Bytes) (s : TlsExchange) : TlsExchangeEvent → Option TlsExchange
  | .client e =>
    (s.client.step input s.session.stream e).map fun r =>
      ⟨r.1, { s.session with stream := r.2 }⟩
  | .session .fail => none
  | .session e => (s.session.step e).map fun u => { s with session := u }

def tlsExchange (input : Bytes) : System TlsExchange TlsExchangeEvent where
  start s := s.client.op = .connect ∧ tlsLine.start s.session
  step := TlsExchange.step input

structure TlsExchange.Sound (request : Bytes) (s : TlsExchange) : Prop where
  talks : s.client.Talks request s.session.stream
  echo : s.session.Sound
  awake : s.session.stream.shut = false → s.session.pending ≠ none

/-- The client has printed `request`, and the server has written back nothing
else and has let go of its session. -/
structure TlsExchange.Echoed (request : Bytes) (s : TlsExchange) : Prop where
  finished : s.client.op = .finished request.length
  printed : s.client.reply? = some request
  returned : s.session.stream.returned = request
  released : s.session.pending = none

def SslClient.remaining (requestLength : Nat) (c : SslClient) : Nat :=
  match c.op with
  | .connect => 5 * requestLength + 5
  | .handshake => 5 * requestLength + 4
  | .write t => 5 * t.left + 3
  | .read _ => 2
  | .shutdown _ => 1
  | .finished _ => 0

def TlsSession.remaining (s : TlsSession) : Nat :=
  4 * s.stream.inbound.length + s.stream.outbound.length +
    match s.pending with
    | none => 0
    | some .handshake => 2
    | some .read => 1
    | some (.write t) => 2 * t.left + 2

def TlsExchange.remaining (requestLength : Nat) (s : TlsExchange) : Nat :=
  s.client.remaining requestLength + s.session.remaining

section

variable {input : Bytes} {s s' : TlsExchange}

theorem TlsExchange.step_client {e : SslClientEvent} :
    s.step input (.client e) = some s' ↔
      ∃ c st, s.client.step input s.session.stream e = some (c, st) ∧
        s' = ⟨c, { s.session with stream := st }⟩ := by
  simp [step, Option.map_eq_some_iff, @eq_comm _ _ s']

theorem TlsExchange.step_session {e : TlsEvent} :
    s.step input (.session e) = some s' ↔
      e ≠ .fail ∧ ∃ u, s.session.step e = some u ∧ s' = { s with session := u } := by
  cases e <;> simp [step, Option.map_eq_some_iff, @eq_comm _ _ s']

theorem TlsSession.step_stream {s s' : TlsSession} {e : TlsEvent} (hs : s.step e = some s') :
    s'.stream.sent = s.stream.sent ∧ s'.stream.shut = s.stream.shut ∧
      ∃ xs, s'.stream.outbound = s.stream.outbound ++ xs ∧
        s'.stream.returned = s.stream.returned ++ xs := by
  cases e with
  | handshake =>
    obtain ⟨_, rfl⟩ := step_handshake.mp hs
    exact ⟨rfl, rfl, [], by simp⟩
  | read n =>
    obtain ⟨_, _, rfl⟩ := step_read.mp hs
    exact ⟨rfl, rfl, [], by simp [TlsStream.readChunk]⟩
  | contextExpired =>
    obtain ⟨_, _, _, rfl⟩ := step_contextExpired.mp hs
    exact ⟨rfl, rfl, [], by simp⟩
  | writeSome n =>
    obtain ⟨t, _, _, rfl⟩ := step_writeSome.mp hs
    exact ⟨rfl, rfl, _, rfl, rfl⟩
  | write =>
    obtain ⟨_, _, _, rfl⟩ := step_write.mp hs
    exact ⟨rfl, rfl, [], by simp⟩
  | fail =>
    obtain ⟨_, rfl⟩ := step_fail.mp hs
    exact ⟨rfl, rfl, [], by simp⟩

theorem TlsSession.step_awake {s s' : TlsSession} {e : TlsEvent} (hs : s.step e = some s')
    (he : e ≠ .fail) (hshut : s.stream.shut = false) : s'.pending ≠ none := by
  cases e with
  | handshake =>
    obtain ⟨_, rfl⟩ := step_handshake.mp hs
    exact nofun
  | read n =>
    obtain ⟨_, _, rfl⟩ := step_read.mp hs
    exact nofun
  | contextExpired =>
    obtain ⟨_, _, hclosed, _⟩ := step_contextExpired.mp hs
    exact absurd (hclosed.symm.trans hshut) nofun
  | writeSome n =>
    obtain ⟨t, _, _, rfl⟩ := step_writeSome.mp hs
    exact nofun
  | write =>
    obtain ⟨_, _, _, rfl⟩ := step_write.mp hs
    exact nofun
  | fail => exact absurd rfl he

theorem TlsExchange.Sound.step {e : TlsExchangeEvent} (h : s.Sound (message input))
    (hs : s.step input e = some s') : s'.Sound (message input) := by
  cases e with
  | client e =>
    obtain ⟨c, st, hc, rfl⟩ := step_client.mp hs
    obtain ⟨hchunks, hreturned, hshut, xs, hin, hsent⟩ := SslClient.step_stream hc
    refine ⟨h.talks.step hc, h.echo.stream hchunks hreturned ?_, fun hopen => h.awake ?_⟩
    · rw [hchunks, hin, hsent, ← h.echo.taken, List.append_assoc]
    · by_contra hclosed
      exact absurd ((hshut (by simpa using hclosed)).symm.trans hopen) nofun
  | session e =>
    obtain ⟨he, u, hu, rfl⟩ := step_session.mp hs
    obtain ⟨hsent, hshut, xs, hout, hret⟩ := TlsSession.step_stream hu
    refine ⟨⟨h.talks.sized, hsent ▸ h.talks.sent, ?_, hshut ▸ h.talks.closed⟩, h.echo.step hu, ?_⟩
    · rw [hout, hret, ← h.talks.got, List.append_assoc]
    · intro hopen
      exact TlsSession.step_awake hu he (hshut ▸ hopen)

theorem SslClient.step_remaining {c c' : SslClient} {st st' : TlsStream} {e : SslClientEvent}
    (hs : c.step input st e = some (c', st')) :
    c'.remaining (message input).length + (4 * st'.inbound.length + st'.outbound.length) <
      c.remaining (message input).length + (4 * st.inbound.length + st.outbound.length) := by
  cases e with
  | connect =>
    obtain ⟨hop, rfl, rfl⟩ := step_connect.mp hs
    simp only [remaining, hop]
    omega
  | handshake =>
    obtain ⟨hop, rfl, rfl⟩ := step_handshake.mp hs
    simp only [remaining, hop, Transfer.left_start]
    omega
  | writeSome n =>
    obtain ⟨t, hop, hn, rfl, rfl⟩ := step_writeSome.mp hs
    have hpos := hn.1
    have hleft := Transfer.left_advance hn.2.1
    have hlen := List.length_take_le n (t.unsent c.request.cells)
    simp only [remaining, hop, TlsStream.send, List.length_append]
    omega
  | write =>
    obtain ⟨t, hop, ht, rfl, rfl⟩ := step_write.mp hs
    simp only [remaining, hop]
    omega
  | readSome n =>
    obtain ⟨t, hop, hr, rfl, rfl⟩ := step_readSome.mp hs
    have hpos := hr.1
    have hle := hr.2.2
    simp only [remaining, hop, TlsStream.receive, List.length_drop]
    omega
  | read =>
    obtain ⟨t, hop, ht, rfl, rfl⟩ := step_read.mp hs
    simp only [remaining, hop]
    omega
  | shutdown =>
    obtain ⟨length, hop, rfl, rfl⟩ := step_shutdown.mp hs
    simp only [remaining, hop]
    omega

theorem TlsSession.step_remaining {s s' : TlsSession} {e : TlsEvent} (hs : s.step e = some s')
    (he : e ≠ .fail) : s'.remaining < s.remaining := by
  cases e with
  | handshake =>
    obtain ⟨hp, rfl⟩ := step_handshake.mp hs
    simp only [remaining, hp]
    omega
  | read n =>
    obtain ⟨hp, hn, rfl⟩ := step_read.mp hs
    have hpos := hn.1
    have hle := hn.2.2
    simp only [remaining, hp, TlsStream.readChunk, List.length_drop, Transfer.left_start]
    omega
  | contextExpired =>
    obtain ⟨hp, _, _, rfl⟩ := step_contextExpired.mp hs
    simp only [remaining, hp]
    omega
  | writeSome n =>
    obtain ⟨t, hp, hn, rfl⟩ := step_writeSome.mp hs
    have hpos := hn.1
    have hleft := Transfer.left_advance hn.2.1
    have hlen := List.length_take_le n (t.unsent s.data.cells)
    simp only [remaining, hp, TlsStream.writeBack, List.length_append]
    omega
  | write =>
    obtain ⟨t, hp, ht, rfl⟩ := step_write.mp hs
    simp only [remaining, hp]
    omega
  | fail => exact absurd rfl he

theorem TlsExchange.step_remaining {e : TlsExchangeEvent} (hs : s.step input e = some s') :
    s'.remaining (message input).length < s.remaining (message input).length := by
  cases e with
  | client e =>
    obtain ⟨c, st, hc, rfl⟩ := step_client.mp hs
    have hlower := SslClient.step_remaining hc
    simp only [remaining, TlsSession.remaining]
    omega
  | session e =>
    obtain ⟨he, u, hu, rfl⟩ := step_session.mp hs
    have hlower := TlsSession.step_remaining hu he
    simp only [remaining]
    omega

/-- A server that has nothing to do has echoed all, and waits for more or has ended. -/
theorem TlsExchange.Sound.session_idle (h : s.Sound (message input))
    (hstuck : (tlsExchange input).Stuck s) :
    (s.session.stream.shut = false ∧ s.session.pending = some .read ∧
      s.session.stream.returned = s.session.stream.sent) ∨
      (s.session.stream.shut = true ∧ s.session.pending = none) := by
  have hno {e : TlsEvent} {u : TlsSession} (he : e ≠ .fail) : s.session.step e ≠ some u :=
    fun hu => hstuck.not_step (.session e) (step_session.mpr ⟨he, u, hu, rfl⟩)
  rcases hp : s.session.pending with _ | _ | _ | t
  · by_cases hshut : s.session.stream.shut = true
    · exact .inr ⟨hshut, rfl⟩
    · exact absurd hp (h.awake (by simpa using hshut))
  · exact (hno (by simp) (TlsSession.step_handshake.mpr ⟨hp, rfl⟩)).elim
  · have hin : s.session.stream.inbound = [] := by
      by_contra hin
      have hread : CanRead maxLength s.session.stream.inbound 1 := canRead_one (by decide) hin
      exact hno (by simp) (TlsSession.step_read.mpr ⟨hp, hread, rfl⟩)
    have hshut : s.session.stream.shut = false := by
      by_contra hclosed
      have hshut : s.session.stream.shut = true := by simpa using hclosed
      exact hno (by simp) (TlsSession.step_contextExpired.mpr ⟨hp, hin, hshut, rfl⟩)
    have hall := h.echo.echoes.2 hp
    rw [hin, List.append_nil] at hall
    exact .inl ⟨hshut, rfl, hall⟩
  · by_cases ht : t.left = 0
    · exact (hno (by simp) (TlsSession.step_write.mpr ⟨t, hp, ht, rfl⟩)).elim
    · have hroom := room_none s.session.stream.outbound 1
      have hacc := Transfer.canAccept_one (Nat.pos_of_ne_zero ht) hroom
      exact (hno (by simp) (TlsSession.step_writeSome.mpr ⟨t, hp, hacc, rfl⟩)).elim

theorem TlsExchange.Sound.echoed (h : s.Sound (message input))
    (hstuck : (tlsExchange input).Stuck s) : s.Echoed (message input) := by
  have hno {e : SslClientEvent} {c : SslClient} {st : TlsStream} :
      s.client.step input s.session.stream e ≠ some (c, st) :=
    fun hc => hstuck.not_step (.client e) (step_client.mpr ⟨c, st, hc, rfl⟩)
  have hsized := h.talks.sized
  have hsent := h.talks.sent
  have hgot := h.talks.got
  rcases hop : s.client.op with _ | _ | t | t | m | m
  · exact (hno (SslClient.step_connect.mpr ⟨hop, rfl, rfl⟩)).elim
  · exact (hno (SslClient.step_handshake.mpr ⟨hop, rfl, rfl⟩)).elim
  · by_cases ht : t.left = 0
    · exact (hno (SslClient.step_write.mpr ⟨t, hop, ht, rfl, rfl⟩)).elim
    · have hroom := room_none s.session.stream.inbound 1
      have hacc := Transfer.canAccept_one (Nat.pos_of_ne_zero ht) hroom
      exact (hno (SslClient.step_writeSome.mpr ⟨t, hop, hacc, rfl, rfl⟩)).elim
  · simp only [SslClient.Sized, hop] at hsized
    simp only [SslClient.toSend, hop, List.append_nil] at hsent
    simp only [SslClient.received, hop] at hgot
    have hleft : 0 < t.left := by
      by_contra ht
      exact hno (SslClient.step_read.mpr ⟨t, hop, by omega, rfl, rfl⟩)
    have hout : s.session.stream.outbound = [] := by
      by_contra hout
      have hread : CanRead t.left s.session.stream.outbound 1 := canRead_one hleft hout
      exact hno (SslClient.step_readSome.mpr ⟨t, hop, hread, rfl, rfl⟩)
    have hopen : s.session.stream.shut ≠ true := by
      rw [Ne, h.talks.closed, hop]
      simp
    rcases h.session_idle hstuck with ⟨_, _, hret⟩ | ⟨hshut, _⟩
    · rw [hout, List.append_nil, hret, hsent] at hgot
      have hlen := congrArg List.length hgot
      have hmoved := t.moved_add_left
      have hmax := length_message input
      rw [s.client.reply.length_front (by simp only [maxLength]; omega)] at hlen
      omega
    · exact absurd hshut hopen
  · exact (hno (SslClient.step_shutdown.mpr ⟨m, hop, rfl, rfl⟩)).elim
  · simp only [SslClient.Sized, hop] at hsized
    simp only [SslClient.toSend, hop, List.append_nil] at hsent
    simp only [SslClient.received, hop] at hgot
    have hshut := h.talks.closed.mpr ⟨m, hop⟩
    have hprefix := h.echo.echoes.1
    rw [hsent] at hprefix
    have hmax := length_message input
    have hfront : (s.client.reply.front m).length = m :=
      s.client.reply.length_front (by simp only [maxLength]; omega)
    have hlen := congrArg List.length hgot
    rw [List.length_append, hfront] at hlen
    have hret : s.session.stream.returned = message input :=
      hprefix.eq_of_length_le (by omega)
    have hout : s.session.stream.outbound = [] := by
      rw [hret] at hlen
      exact List.length_eq_zero_iff.mp (by omega)
    rw [hout, List.append_nil, hret] at hgot
    rcases h.session_idle hstuck with ⟨hopen, _⟩ | ⟨_, hreleased⟩
    · exact absurd (hopen.symm.trans hshut) Bool.false_ne_true
    · refine ⟨hsized ▸ hop, ?_, hret, hreleased⟩
      simp only [SslClient.reply?, hop, hgot]

theorem tlsExchange_sound (hs : (tlsExchange input).start s) : s.Sound (message input) := by
  obtain ⟨⟨request, reply, op⟩, session⟩ := s
  obtain ⟨rfl, data, rfl⟩ := hs
  exact ⟨⟨trivial, rfl, rfl, by simp [TlsSession.start, TlsSession.doHandshake,
    TlsSession.construct, TlsStream.fresh]⟩, .of_conserves rfl rfl, fun _ => nofun⟩

/-- Whatever line is typed and however the two sides take turns: after at most
`5 * n + 7` steps the client has printed the `n` bytes of its message, and the
server has written back just these and let go of its session. -/
theorem tls_exchange_completes (hs : (tlsExchange input).start s) :
    (tlsExchange input).Completes (TlsExchange.Echoed (message input))
      (5 * (message input).length + 7) s := by
  have hcompletes := System.completes_of_measure (m := tlsExchange input)
    (Q := TlsExchange.Echoed (message input))
    (μ := TlsExchange.remaining (message input).length)
    (fun _ _ _ h ht => TlsExchange.Sound.step h ht)
    (fun _ _ _ _ ht => TlsExchange.step_remaining ht)
    (fun _ h hstuck => TlsExchange.Sound.echoed h hstuck) (tlsExchange_sound hs)
  refine hcompletes.mono (fun _ => id) ?_
  obtain ⟨⟨request, reply, op⟩, session⟩ := s
  obtain ⟨rfl, data, rfl⟩ := hs
  simp only [TlsExchange.remaining, SslClient.remaining, TlsSession.remaining, TlsSession.start,
    TlsSession.doHandshake, TlsSession.construct, TlsStream.fresh, List.length_nil]
  omega

theorem tls_exchange_completes_line :
    (tlsExchange [104, 105, 10, 33]).Completes (TlsExchange.Echoed [104, 105]) 17
      ⟨⟨.filled 0, .filled 0, .connect⟩, (TlsSession.construct (.filled 0)).start⟩ :=
  @tls_exchange_completes [104, 105, 10, 33] _ ⟨rfl, .filled 0, rfl⟩

end

end ScratchServers
