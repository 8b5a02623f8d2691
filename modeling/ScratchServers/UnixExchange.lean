import ScratchServers.Completion
import ScratchServers.UnixDrain

/-! `uclient.cpp` and its connection to the Unix-socket server, over queues that
are bounded. How Beast writes and reads a message is not modelled: it is given by
the texts of the messages and by parsers of what has been read so far. -/

namespace ScratchServers

inductive UClientOp where
  | write (t : Transfer)
  | read
  | shutdown
  | succeeded
  | failed
  deriving DecidableEq

/-- `got` is what the client has read, and `printed` the response on its standard output. -/
structure UClient where
  op : UClientOp
  got : Bytes
  printed : Option Response

/-- The socket is destroyed at the end of the block, or when an exception leaves it. -/
def UClient.done (c : UClient) : Bool :=
  match c.op with
  | .succeeded | .failed => true
  | _ => false

inductive ShutdownResult where
  | success
  | notConnected
  | failed
  deriving DecidableEq

/-- `req` of `main`. -/
def UClient.req : Request :=
  ⟨"GET", "/count", 11⟩

/-- `text` is how Beast writes the client's request. `parse` and `parseResponse`
are given all that has been read, and `putEof` tells what the response is when
nothing follows. -/
structure HttpCodec where
  text : Bytes
  serialise : Response → Bytes
  parse : Bytes → Option (Except BeastError Request)
  parseResponse : Bytes → Option (Except BeastError Response)
  putEof : Bytes → Except BeastError Response

def HttpCodec.answer (k : HttpCodec) : Bytes :=
  k.serialise UClient.req.answer

/-- The two messages are read as they were written, and a part of the response
that ends early is an error, since the response tells its length. -/
structure HttpCodec.Faithful (k : HttpCodec) : Prop where
  request : Delimits k.parse k.text (.ok UClient.req)
  response : Delimits k.parseResponse k.answer (.ok UClient.req.answer)
  partial_message : ∀ xs, xs <+: k.answer → xs ≠ k.answer → ∃ e, k.putEof xs = .error e

def UClient.start (k : HttpCodec) : UClient :=
  ⟨.write (.start k.text.length), [], none⟩

/-- `http::read` looks at what it has after every piece. -/
def UClient.parsed (c : UClient) : Option (Except BeastError Response) → UClient
  | none => c
  | some (.ok response) => { c with op := .shutdown, printed := some response }
  | some (.error _) => { c with op := .failed }

/-- `inbox` holds what the server has not read yet, `read` what it has, and the
client has taken the first `seen` bytes of the server's wire. -/
structure HttpExchange where
  client : UClient
  inbox : Bytes
  read : Bytes
  seen : Nat
  server : HttpConnection

def HttpExchange.unseen (s : HttpExchange) : Bytes :=
  s.server.wire.drop s.seen

/-- The server can write no more. -/
def HttpConnection.shut (c : HttpConnection) : Bool :=
  c.sendShut || !c.isOpen

inductive UClientEvent where
  | writeSome (n : Nat)
  | write
  | writeFails
  | readSome (n : Nat)
  | readEof
  | readFails
  | shutdown (r : ShutdownResult)

/-- `arrive` is a read of the server that takes `n` bytes. -/
inductive HttpExchangeEvent where
  | client (e : UClientEvent)
  | arrive (n : Nat)
  | server (e : HttpConnectionEvent)

deriving instance DecidableEq for ParseStep, HttpConnectionEvent

section

variable (k : HttpCodec) (up down : Nat)

def HttpCodec.parseStep (xs : Bytes) : ParseStep :=
  match k.parse xs with
  | none => .more
  | some r => .done r

/-- `up` is the capacity of the queue to the server. A socket that is closed on
unread bytes resets the connection, and writing to a closed one fails. -/
def HttpExchange.clientStep (s : HttpExchange) : UClientEvent → Option HttpExchange
  | .writeSome n =>
    match s.client.op with
    | .write t =>
      if s.server.isOpen = true ∧ t.CanAccept (some up) s.inbox n then
        some { s with
          client := { s.client with op := .write (t.advance n) }
          inbox := s.inbox ++ (t.unsent k.text).take n }
      else none
    | _ => none
  | .write =>
    match s.client.op with
    | .write t =>
      if t.left = 0 then some { s with client := { s.client with op := .read } } else none
    | _ => none
  | .writeFails =>
    match s.client.op with
    | .write t =>
      if s.server.isOpen = false ∧ 0 < t.left then
        some { s with client := { s.client with op := .failed } }
      else none
    | _ => none
  | .readSome n =>
    if s.client.op = .read ∧ 0 < n ∧ n ≤ s.unseen.length then
      let got := s.client.got ++ s.unseen.take n
      some { s with
        client := { s.client with got := got }.parsed (k.parseResponse got)
        seen := s.seen + n }
    else none
  | .readEof =>
    if s.client.op = .read ∧ s.unseen = [] ∧ s.server.shut = true then
      some { s with client := s.client.parsed (some (k.putEof s.client.got)) }
    else none
  | .readFails =>
    if s.client.op = .read ∧ s.server.isOpen = false ∧ s.inbox ≠ [] then
      some { s with client := { s.client with op := .failed } }
    else none
  | .shutdown r =>
    if s.client.op = .shutdown then
      some { s with client := { s.client with
        op := if r = .failed then .failed else .succeeded } }
    else none

/-- When the system lets an operation of the server complete: the end of the
stream comes when the client is gone, and `down` bounds what it has not read. -/
def HttpExchange.Admits (s : HttpExchange) : HttpConnectionEvent → Prop
  | .readSome ec => ec = .eof ∧ s.inbox = [] ∧ s.client.done = true
  | .read p => p = k.parseStep s.read
  | .writeSome n => s.client.done = false ∧ Room (some down) s.unseen n
  | .writeFailed => s.client.done = true
  | .write | .expire | .deadline => True

instance (s : HttpExchange) (e : HttpConnectionEvent) : Decidable (s.Admits k down e) :=
  match e with
  | .readSome _ | .writeSome _ => inferInstanceAs (Decidable (_ ∧ _))
  | .read _ => inferInstanceAs (Decidable (_ = _))
  | .writeFailed => inferInstanceAs (Decidable (_ = _))
  | .write | .expire | .deadline => .isTrue trivial

def HttpExchange.step (s : HttpExchange) : HttpExchangeEvent → Option HttpExchange
  | .client e => s.clientStep k up e
  | .arrive n =>
    if 0 < n ∧ n ≤ s.inbox.length then
      (s.server.step k.serialise (.readSome .success)).map fun c => { s with
        inbox := s.inbox.drop n
        read := s.read ++ s.inbox.take n
        server := c }
    else none
  | .server e =>
    if s.Admits k down e then
      (s.server.step k.serialise e).map fun c => { s with server := c }
    else none

/-- The client has connected, and the server has accepted its socket. -/
def HttpExchange.start (socket : Nat) : HttpExchange :=
  ⟨.start k, [], [], 0, (HttpConnection.construct (some socket)).start⟩

def httpExchange : System HttpExchange HttpExchangeEvent where
  start s := ∃ socket, s = .start k socket
  step := HttpExchange.step k up down

end

section

variable (k : HttpCodec)

/-- What the client has asked and what it has been told, by where it stands. -/
def HttpExchange.Place (s : HttpExchange) : Prop :=
  match s.client.op with
  | .write t =>
    (t.length = k.text.length ∧ s.read ++ s.inbox ++ t.unsent k.text = k.text) ∧
      k.parseResponse s.client.got = none ∧ s.client.printed = none
  | .read =>
    s.read ++ s.inbox = k.text ∧ k.parseResponse s.client.got = none ∧ s.client.printed = none
  | .shutdown | .succeeded => s.client.printed ≠ none
  | .failed => s.client.printed = none → s.server.wire ≠ k.answer

structure HttpExchange.Sound (s : HttpExchange) : Prop where
  server : s.server.Sound k.serialise
  timely : s.server.Timely
  place : s.Place k
  arriving : s.read ++ s.inbox <+: k.text
  parsing : s.server.io = .reading → k.parse s.read = none
  requests : ∀ request ∈ s.server.requests, request = UClient.req ∧ s.read = k.text
  seen : s.seen ≤ s.server.wire.length
  received : s.client.got = s.server.wire.take s.seen
  printed : ∀ r, s.client.printed = some r → r = UClient.req.answer ∧ s.client.got = k.answer

end

section

variable {serialise : Response → Bytes} {c c' : HttpConnection}

theorem HttpConnection.step_wire {e : HttpConnectionEvent} (hs : c.step serialise e = some c') :
    c'.wire = c.wire ∨ ∃ n xs, e = .writeSome n ∧ c'.wire = c.wire ++ xs := by
  cases e with
  | readSome ec =>
    obtain ⟨_, rfl⟩ := step_readSome hs
    exact .inl rfl
  | read p =>
    obtain ⟨ec, _, ⟨_, rfl⟩ | ⟨r, _, rfl⟩⟩ := step_read hs
    · exact .inl rfl
    · cases r <;> exact .inl rfl
  | writeSome n =>
    obtain ⟨t, _, _, rfl⟩ := step_writeSome hs
    exact .inr ⟨n, _, rfl, rfl⟩
  | writeFailed =>
    obtain ⟨t, _, rfl⟩ := step_writeFailed hs
    exact .inl rfl
  | write =>
    obtain ⟨t, ec, _, ⟨_, _, rfl⟩ | rfl⟩ := step_write hs <;> exact .inl rfl
  | expire =>
    obtain ⟨_, rfl⟩ := step_expire hs
    exact .inl rfl
  | deadline =>
    obtain ⟨ec, _, rfl⟩ := step_deadline hs
    unfold onDeadline
    split <;> exact .inl rfl

theorem HttpConnection.step_requests {e : HttpConnectionEvent}
    (hs : c.step serialise e = some c') :
    c'.requests = c.requests ∨
      ∃ request, e = .read (.done (.ok request)) ∧ c'.requests = c.requests ++ [request] := by
  cases e with
  | readSome ec =>
    obtain ⟨_, rfl⟩ := step_readSome hs
    exact .inl rfl
  | read p =>
    obtain ⟨ec, _, ⟨_, rfl⟩ | ⟨r, hr, rfl⟩⟩ := step_read hs
    · exact .inl rfl
    · cases r with
      | ok request =>
        obtain ⟨rfl, _⟩ := ParseStep.result_ok hr
        exact .inr ⟨request, rfl, rfl⟩
      | error error => exact .inl rfl
  | writeSome n =>
    obtain ⟨t, _, _, rfl⟩ := step_writeSome hs
    exact .inl rfl
  | writeFailed =>
    obtain ⟨t, _, rfl⟩ := step_writeFailed hs
    exact .inl rfl
  | write =>
    obtain ⟨t, ec, _, ⟨_, _, rfl⟩ | rfl⟩ := step_write hs <;> exact .inl rfl
  | expire =>
    obtain ⟨_, rfl⟩ := step_expire hs
    exact .inl rfl
  | deadline =>
    obtain ⟨ec, _, rfl⟩ := step_deadline hs
    unfold onDeadline
    split <;> exact .inl rfl

theorem HttpConnection.step_reading {e : HttpConnectionEvent}
    (hs : c.step serialise e = some c') (hio : c'.io = .reading) :
    e = .read .more ∨ c.io = .reading ∧ ∀ ec, e ≠ .readSome ec := by
  cases e with
  | readSome ec =>
    obtain ⟨_, rfl⟩ := step_readSome hs
    exact absurd hio (by simp)
  | read p =>
    obtain ⟨ec, _, ⟨hr, rfl⟩ | ⟨r, hr, rfl⟩⟩ := step_read hs
    · obtain ⟨rfl, _⟩ := ParseStep.result_none hr
      exact .inl rfl
    · cases r with
      | ok request =>
        change (HttpConnection.asyncWriteSome _ _).io = .reading at hio
        simp only [asyncWriteSome] at hio
        split at hio <;> exact absurd hio (by simp)
      | error error => exact absurd hio (by simp [HttpConnection.release, onRead])
  | writeSome n =>
    obtain ⟨t, _, _, rfl⟩ := step_writeSome hs
    exact absurd hio (by simp)
  | writeFailed =>
    obtain ⟨t, _, rfl⟩ := step_writeFailed hs
    exact absurd hio (by simp)
  | write =>
    obtain ⟨t, ec, _, ⟨_, _, rfl⟩ | rfl⟩ := step_write hs
    · simp only [asyncWriteSome] at hio
      split at hio <;> exact absurd hio (by simp)
    · exact absurd hio (by simp [HttpConnection.release, onWrite, cancel])
  | expire =>
    obtain ⟨_, rfl⟩ := step_expire hs
    exact .inr ⟨hio, by simp⟩
  | deadline =>
    obtain ⟨ec, _, rfl⟩ := step_deadline hs
    refine .inr ⟨?_, by simp⟩
    by_cases hec : ec = .success
    · have hclosed : (c.close).io = .reading := by simpa [onDeadline, hec, release] using hio
      rcases hcio : c.io with _ | ec | t | ⟨t, ec⟩ | _ <;> simp [close, hcio] at hclosed ⊢
    · simpa [onDeadline, hec, release] using hio

end

section

variable {k : HttpCodec} {up down : Nat} {s s' : HttpExchange}

theorem HttpExchange.client_writeSome {n : Nat} :
    s.clientStep k up (.writeSome n) = some s' ↔ ∃ t, s.client.op = .write t ∧
      s.server.isOpen = true ∧ t.CanAccept (some up) s.inbox n ∧
      s' = { s with
        client := { s.client with op := .write (t.advance n) }
        inbox := s.inbox ++ (t.unsent k.text).take n } := by
  rcases hop : s.client.op with t | _ | _ | _ | _ <;>
    simp [clientStep, hop, @eq_comm HttpExchange, and_assoc]

theorem HttpExchange.client_write :
    s.clientStep k up .write = some s' ↔ ∃ t, s.client.op = .write t ∧ t.left = 0 ∧
      s' = { s with client := { s.client with op := .read } } := by
  rcases hop : s.client.op with t | _ | _ | _ | _ <;> simp [clientStep, hop, @eq_comm HttpExchange]

theorem HttpExchange.client_writeFails :
    s.clientStep k up .writeFails = some s' ↔ ∃ t, s.client.op = .write t ∧
      s.server.isOpen = false ∧ 0 < t.left ∧
      s' = { s with client := { s.client with op := .failed } } := by
  rcases hop : s.client.op with t | _ | _ | _ | _ <;>
    simp [clientStep, hop, @eq_comm HttpExchange, and_assoc]

theorem HttpExchange.client_readSome {n : Nat} :
    s.clientStep k up (.readSome n) = some s' ↔ s.client.op = .read ∧ 0 < n ∧
      n ≤ s.unseen.length ∧
      s' = { s with
        client := { s.client with got := s.client.got ++ s.unseen.take n }.parsed
          (k.parseResponse (s.client.got ++ s.unseen.take n))
        seen := s.seen + n } := by
  simp [clientStep, @eq_comm HttpExchange, and_assoc]

theorem HttpExchange.client_readEof :
    s.clientStep k up .readEof = some s' ↔ s.client.op = .read ∧ s.unseen = [] ∧
      s.server.shut = true ∧
      s' = { s with client := s.client.parsed (some (k.putEof s.client.got)) } := by
  simp [clientStep, @eq_comm HttpExchange, and_assoc]

theorem HttpExchange.client_readFails :
    s.clientStep k up .readFails = some s' ↔ s.client.op = .read ∧ s.server.isOpen = false ∧
      s.inbox ≠ [] ∧ s' = { s with client := { s.client with op := .failed } } := by
  simp [clientStep, @eq_comm HttpExchange, and_assoc]

theorem HttpExchange.client_shutdown {r : ShutdownResult} :
    s.clientStep k up (.shutdown r) = some s' ↔ s.client.op = .shutdown ∧
      s' = { s with client := { s.client with
        op := if r = .failed then .failed else .succeeded } } := by
  simp [clientStep, @eq_comm HttpExchange]

theorem HttpExchange.step_client {e : UClientEvent} :
    s.step k up down (.client e) = some s' ↔ s.clientStep k up e = some s' := Iff.rfl

theorem HttpExchange.step_arrive {n : Nat} :
    s.step k up down (.arrive n) = some s' ↔ 0 < n ∧ n ≤ s.inbox.length ∧
      ∃ c, s.server.step k.serialise (.readSome .success) = some c ∧
        s' = { s with
          inbox := s.inbox.drop n
          read := s.read ++ s.inbox.take n
          server := c } := by
  simp [step, @eq_comm HttpExchange, and_assoc]

theorem HttpExchange.step_server {e : HttpConnectionEvent} :
    s.step k up down (.server e) = some s' ↔ s.Admits k down e ∧
      ∃ c, s.server.step k.serialise e = some c ∧ s' = { s with server := c } := by
  simp [step, @eq_comm HttpExchange]

/-- The wire holds nothing but the first part of the answer to the client's request. -/
theorem HttpExchange.Sound.wire_prefix (h : s.Sound k) : s.server.wire <+: k.answer := by
  rcases h.server.chain.served with ⟨_, hwire⟩ | ⟨request, hreq, _, hwire⟩
  · rw [hwire]
    exact List.nil_prefix
  · obtain ⟨rfl, _⟩ := h.requests request (by simp [hreq])
    exact hwire

theorem HttpExchange.Sound.got_prefix (h : s.Sound k) : s.client.got <+: k.answer := by
  rw [h.received]
  exact (List.take_prefix _ _).trans h.wire_prefix

/-- A byte on the wire answers a request that has been read whole. -/
theorem HttpExchange.Sound.read_whole (h : s.Sound k) (hwire : s.server.wire ≠ []) :
    s.read = k.text ∧ s.inbox = [] := by
  have hread : s.read = k.text := by
    rcases h.server.chain.served with ⟨_, hnone⟩ | ⟨request, hreq, _, _⟩
    · exact absurd hnone hwire
    · exact (h.requests request (by simp [hreq])).2
  have harriving := h.arriving.length_le
  rw [List.length_append, hread] at harriving
  exact ⟨hread, List.length_eq_zero_iff.mp (by omega)⟩

theorem HttpExchange.Sound.onServer (hk : k.Faithful) (h : s.Sound k) {e : HttpConnectionEvent}
    {c : HttpConnection} (hs : s.server.step k.serialise e = some c) {read inbox : Bytes}
    (hsame : read ++ inbox = s.read ++ s.inbox)
    (hread : ∀ p, e = .read p → p = k.parseStep read)
    (hkept : read = s.read ∨ e = .readSome .success)
    (hwrite : s.client.done = true → ∀ n, e ≠ .writeSome n) :
    ({ s with read := read, inbox := inbox, server := c } : HttpExchange).Sound k := by
  have hgrows : s.server.wire <+: c.wire := by
    rcases HttpConnection.step_wire hs with hwire | ⟨n, xs, _, hwire⟩
    · exact hwire ▸ List.prefix_rfl
    · exact hwire ▸ List.prefix_append _ _
  have hstays : s.client.done = true → c.wire = s.server.wire := by
    intro hdone
    rcases HttpConnection.step_wire hs with hwire | ⟨n, _, he, _⟩
    · exact hwire
    · exact absurd he (hwrite hdone n)
  refine ⟨h.server.step hs, h.timely.step hs, ?_, by rw [hsame]; exact h.arriving, ?_, ?_,
    Nat.le_trans h.seen hgrows.length_le, ?_, h.printed⟩
  · have hplace := h.place
    unfold Place at hplace ⊢
    rcases hop : s.client.op with t | _ | _ | _ | _ <;> simp only [hop, hsame] at hplace ⊢
    · exact hplace
    · exact hplace
    · exact hplace
    · exact hplace
    · rw [hstays (by simp [UClient.done, hop])]
      exact hplace
  · intro hio
    rcases HttpConnection.step_reading hs hio with he | ⟨hbefore, hno⟩
    · have hmore := hread _ he
      cases hp : k.parse read with
      | none => rfl
      | some r => simp [HttpCodec.parseStep, hp] at hmore
    · rcases hkept with rfl | he
      · exact h.parsing hbefore
      · exact absurd he (hno _)
  · intro request hmem
    rcases HttpConnection.step_requests hs with hreq | ⟨request', he, hreq⟩
    · rw [hreq] at hmem
      obtain ⟨hrequest, hwhole⟩ := h.requests request hmem
      rcases hkept with rfl | he
      · exact ⟨hrequest, hwhole⟩
      · subst he
        obtain ⟨hio, _⟩ := HttpConnection.step_readSome hs
        have hchain := h.server.chain
        simp only [HttpConnection.Chain, hio] at hchain
        rw [hchain.1] at hmem
        exact absurd hmem List.not_mem_nil
    · have hdone := hread _ he
      have hparse : k.parse read = some (.ok request') := by
        cases hp : k.parse read with
        | none => simp [HttpCodec.parseStep, hp] at hdone
        | some r => simpa [HttpCodec.parseStep, hp, eq_comm] using hdone
      have hprefix : read <+: k.text := (hsame ▸ List.prefix_append read inbox).trans h.arriving
      obtain ⟨hwhole, hresult⟩ := hk.request.of_prefix hprefix hparse
      have hnone : s.server.requests = [] := by
        obtain ⟨ec, hio, _⟩ := HttpConnection.step_read (he ▸ hs)
        have hchain := h.server.chain
        simp only [HttpConnection.Chain, hio] at hchain
        exact hchain.1
      rw [hreq, hnone, List.nil_append, List.mem_singleton] at hmem
      exact ⟨hmem.trans (Except.ok.inj hresult), hwhole⟩
  · obtain ⟨xs, hxs⟩ := hgrows
    rw [h.received]
    change _ = c.wire.take s.seen
    rw [← hxs, List.take_append_of_le_length h.seen]

/-- Nothing that the client does touches the server or what it has read. -/
theorem HttpExchange.Sound.onClient (h : s.Sound k) {client : UClient} {inbox : Bytes} {seen : Nat}
    (hplace : ({ s with client := client, inbox := inbox, seen := seen } : HttpExchange).Place k)
    (harriving : s.read ++ inbox <+: k.text) (hseen : seen ≤ s.server.wire.length)
    (hreceived : client.got = s.server.wire.take seen)
    (hprinted : ∀ r, client.printed = some r → r = UClient.req.answer ∧ client.got = k.answer) :
    ({ s with client := client, inbox := inbox, seen := seen } : HttpExchange).Sound k :=
  ⟨h.server, h.timely, hplace, harriving, h.parsing, h.requests, hseen, hreceived, hprinted⟩

/-- Where the client takes what it has read for a response, it is the whole answer. -/
theorem HttpExchange.Sound.parsed_ok (hk : k.Faithful) (h : s.Sound k) {xs : Bytes}
    (hxs : xs <+: s.server.wire) {r : Except BeastError Response}
    (hr : k.parseResponse xs = some r) : xs = k.answer ∧ r = .ok UClient.req.answer :=
  hk.response.of_prefix (hxs.trans h.wire_prefix) hr

theorem HttpExchange.Sound.readSome (hk : k.Faithful) (h : s.Sound k) {n : Nat}
    (hs : s.clientStep k up (.readSome n) = some s') : s'.Sound k := by
  obtain ⟨hop, hpos, hn, rfl⟩ := client_readSome.mp hs
  have hplace := h.place
  simp only [Place, hop] at hplace
  obtain ⟨hsent, _, hunprinted⟩ := hplace
  have hgot : s.client.got ++ s.unseen.take n = s.server.wire.take (s.seen + n) := by
    rw [h.received, unseen, List.take_add]
  have hseen : s.seen + n ≤ s.server.wire.length := by
    rw [unseen, List.length_drop] at hn
    have := h.seen
    omega
  rw [hgot]
  cases hparse : k.parseResponse (s.server.wire.take (s.seen + n)) with
  | none =>
    refine h.onClient ?_ h.arriving hseen rfl ?_
    · simp only [Place, UClient.parsed, hop]
      exact ⟨hsent, hparse, hunprinted⟩
    · simp [UClient.parsed, hunprinted]
  | some r =>
    obtain ⟨hwhole, rfl⟩ := h.parsed_ok hk (List.take_prefix _ _) hparse
    refine h.onClient ?_ h.arriving hseen rfl ?_
    · simp [Place, UClient.parsed]
    · intro r hr
      simp only [UClient.parsed, Option.some.injEq] at hr ⊢
      exact ⟨hr.symm, hwhole⟩

theorem HttpExchange.Sound.clientStep (hk : k.Faithful) (h : s.Sound k) {e : UClientEvent}
    (hs : s.clientStep k up e = some s') : s'.Sound k := by
  have hplace := h.place
  -- the wire is empty while the client still has to write or the server to read
  have hwire (hleft : s.read ≠ k.text ∨ s.inbox ≠ []) : s.server.wire ≠ k.answer := by
    intro hwhole
    have hread := h.read_whole (hwhole ▸ hk.response.nonempty)
    rcases hleft with hleft | hleft
    · exact hleft hread.1
    · exact hleft hread.2
  cases e with
  | writeSome n =>
    obtain ⟨t, hop, _, hn, rfl⟩ := client_writeSome.mp hs
    simp only [Place, hop] at hplace
    obtain ⟨⟨hlength, hsent⟩, hpending, hunprinted⟩ := hplace
    have hmoved : s.read ++ (s.inbox ++ (t.unsent k.text).take n) ++ (t.advance n).unsent k.text =
        k.text := by
      rw [← List.append_assoc, List.append_assoc, Transfer.take_append_unsent hn.2.1, hsent]
    refine h.onClient ?_ ?_ h.seen h.received h.printed
    · exact ⟨⟨hlength, hmoved⟩, hpending, hunprinted⟩
    · exact ⟨_, hmoved⟩
  | write =>
    obtain ⟨t, hop, hleft, rfl⟩ := client_write.mp hs
    simp only [Place, hop] at hplace
    obtain ⟨⟨_, hsent⟩, hpending, hunprinted⟩ := hplace
    rw [Transfer.unsent_eq_nil hleft, List.append_nil] at hsent
    exact h.onClient ⟨hsent, hpending, hunprinted⟩ h.arriving h.seen h.received h.printed
  | writeFails =>
    obtain ⟨t, hop, _, hleft, rfl⟩ := client_writeFails.mp hs
    simp only [Place, hop] at hplace
    refine h.onClient (fun _ => hwire (.inl fun hread => ?_)) h.arriving h.seen h.received h.printed
    have hlength := congrArg List.length hplace.1.2
    rw [List.length_append, List.length_append, hread,
      Transfer.length_unsent (Nat.le_of_eq hplace.1.1)] at hlength
    omega
  | readSome n => exact h.readSome hk hs
  | readEof =>
    obtain ⟨hop, hunseen, _, rfl⟩ := client_readEof.mp hs
    simp only [Place, hop] at hplace
    have hgot : s.client.got = s.server.wire := by
      rw [h.received, List.take_of_length_le (List.drop_eq_nil_iff.mp hunseen)]
    have hpart : s.server.wire ≠ k.answer := by
      intro hwhole
      have hnone := hplace.2.1
      rw [hgot, hwhole, hk.response.whole] at hnone
      exact absurd hnone (by simp)
    obtain ⟨error, herror⟩ := hk.partial_message s.client.got h.got_prefix (hgot ▸ hpart)
    rw [herror]
    exact h.onClient (fun _ => hpart) h.arriving h.seen h.received h.printed
  | readFails =>
    obtain ⟨hop, _, hinbox, rfl⟩ := client_readFails.mp hs
    exact h.onClient (fun _ => hwire (.inr hinbox)) h.arriving h.seen h.received h.printed
  | shutdown r =>
    obtain ⟨hop, rfl⟩ := client_shutdown.mp hs
    simp only [Place, hop] at hplace
    refine h.onClient ?_ h.arriving h.seen h.received h.printed
    by_cases hr : r = .failed
    · simp only [Place, hr, if_true]
      exact fun hnone => absurd hnone hplace
    · simp only [Place, hr, if_false]
      exact hplace

theorem HttpExchange.Sound.step (hk : k.Faithful) (h : s.Sound k) {e : HttpExchangeEvent}
    (hs : s.step k up down e = some s') : s'.Sound k := by
  cases e with
  | client e => exact h.clientStep hk hs
  | arrive n =>
    obtain ⟨_, _, c, hc, rfl⟩ := step_arrive.mp hs
    refine h.onServer hk hc ?_ (by simp) (.inr rfl) (by simp)
    rw [List.append_assoc, List.take_append_drop]
  | server e =>
    obtain ⟨hadmits, c, hc, rfl⟩ := step_server.mp hs
    refine h.onServer hk hc rfl (fun p he => ?_) (.inl rfl) fun hdone n he => ?_
    · subst he
      exact hadmits
    · subst he
      exact absurd hadmits.1 (by simp [hdone])

theorem HttpExchange.sound_start (hk : k.Faithful) (socket : Nat) :
    (HttpExchange.start k socket).Sound k := by
  have hpending : k.parseResponse [] = none :=
    hk.response.part [] List.nil_prefix (Ne.symm hk.response.nonempty)
  refine ⟨HttpConnection.sound_start _, HttpConnection.timely_start _, ?_, List.nil_prefix, ?_, ?_,
    Nat.le_refl _, rfl, by simp [start, UClient.start]⟩
  · exact ⟨⟨rfl, List.take_length⟩, hpending, rfl⟩
  · exact fun _ => hk.request.part [] List.nil_prefix (Ne.symm hk.request.nonempty)
  · intro request hmem
    exact absurd hmem List.not_mem_nil

end

/-- A parser that knows one message. -/
def parserOf {R : Type} (text : Bytes) (result : R) (xs : Bytes) : Option (Except BeastError R) :=
  if xs = text then some (.ok result)
  else if xs <+: text then none
  else some (.error .malformed)

theorem parserOf_delimits {R : Type} {text : Bytes} (h : text ≠ []) (result : R) :
    Delimits (parserOf text result) text (.ok result) where
  nonempty := h
  whole := if_pos rfl
  part xs hxs hne := by simp only [parserOf, hne, hxs, if_false, if_true]

/-- `GET /count` as it goes over the socket. -/
def countText : Bytes :=
  "GET /count HTTP/1.1\r\nUser-Agent: Boost.Beast/322\r\n\r\n".toList.map (·.toNat.toUInt8)

def countCodec : HttpCodec where
  text := countText
  serialise := Response.text
  parse := parserOf countText UClient.req
  parseResponse := parserOf UClient.req.answer.text UClient.req.answer
  putEof xs := .error (if xs = [] then .endOfStream else .partialMessage)

theorem countText_ne_nil : countText ≠ [] := by decide +kernel

theorem countAnswer_ne_nil : UClient.req.answer.text ≠ [] := by decide +kernel

theorem countCodec_answer : countCodec.answer = UClient.req.answer.text := by
  rw [HttpCodec.answer, countCodec]

theorem countCodec_faithful : countCodec.Faithful where
  request := parserOf_delimits countText_ne_nil UClient.req
  response := by
    rw [countCodec_answer]
    exact parserOf_delimits countAnswer_ne_nil UClient.req.answer
  partial_message _ _ _ := ⟨_, rfl⟩

end ScratchServers
