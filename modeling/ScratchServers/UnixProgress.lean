import ScratchServers.UnixExchange

/-! Every exchange of `uclient.cpp` with the Unix-socket server ends, and it leaves
nothing behind: the client is done, and the server has released the connection. -/

namespace ScratchServers

def UClientOp.remaining : UClientOp → Nat
  | .write t => 4 * t.left + 3
  | .read => 2
  | .shutdown => 1
  | .succeeded | .failed => 0

/-- What the chain has left to do for a response of `n` bytes. -/
def HttpIo.toDo (n : Nat) : HttpIo → Nat
  | .reading => 3 * n + 3
  | .readQueued ec => if ec = .success then 3 * n + 4 else 1
  | .writing t => 3 * t.left + 2
  | .writeQueued t ec => if ec = .success ∧ 0 < t.left then 3 * t.left + 3 else 1
  | .ended => 0

def HttpConnection.toDo (n : Nat) (c : HttpConnection) : Nat :=
  c.io.toDo n + c.deadline.remaining

def HttpExchange.remaining (k : HttpCodec) (s : HttpExchange) : Nat :=
  s.client.op.remaining + 2 * s.inbox.length + s.unseen.length + s.server.toDo k.answer.length

/-- Both sides are done, and the client has printed the answer where it was
written whole, and nothing otherwise. -/
structure HttpExchange.Ended (k : HttpCodec) (s : HttpExchange) : Prop where
  client : s.client.done = true
  server : s.server.Released
  printed : s.client.printed = some UClient.req.answer ↔ s.server.wire = k.answer
  unprinted : s.client.printed = none ↔ s.server.wire ≠ k.answer

/-- Neither the timer expires nor the client's `shutdown` fails. -/
def HttpExchangeEvent.calm : HttpExchangeEvent → Bool
  | .client (.shutdown r) => r ≠ .failed
  | .server .expire => false
  | _ => true

section

variable {serialise : Response → Bytes} {n : Nat} {c c' : HttpConnection}

@[simp] theorem HttpConnection.toDo_release : c.release.toDo n = c.toDo n := rfl

theorem HttpIo.toDo_pos {io : HttpIo} (h : io ≠ .ended) : 0 < io.toDo n := by
  cases io with
  | readQueued ec => by_cases hec : ec = .success <;> simp [toDo, hec]
  | writeQueued t ec => by_cases hec : ec = .success ∧ 0 < t.left <;> simp [toDo, hec]
  | ended => exact absurd rfl h
  | _ => simp [toDo]

theorem HttpConnection.toDo_asyncReadSome :
    c.asyncReadSome.toDo n ≤ 3 * n + 3 + c.deadline.remaining := by
  by_cases hopen : c.isOpen = true <;> simp [toDo, asyncReadSome, hopen, HttpIo.toDo]

theorem HttpConnection.toDo_asyncWriteSome {t : Transfer} :
    (c.asyncWriteSome t).toDo n ≤ 3 * t.left + 2 + c.deadline.remaining := by
  by_cases hopen : (c.isOpen && !c.sendShut) = true
  · simp only [toDo, asyncWriteSome, hopen, if_true, HttpIo.toDo]
    omega
  · simp [toDo, asyncWriteSome, hopen, HttpIo.toDo]

theorem HttpConnection.toDo_onWrite : c.onWrite.toDo n ≤ c.deadline.remaining := by
  by_cases harmed : c.deadline = .armed
  · simp [toDo, onWrite, cancel, harmed, HttpIo.toDo, Deadline.remaining]
  · simp [toDo, onWrite, cancel, harmed, HttpIo.toDo]

theorem HttpConnection.toDo_close : c.close.io.toDo n ≤ c.io.toDo n := by
  rcases hio : c.io with _ | ec | t | ⟨t, ec⟩ | _ <;> simp [close, hio, HttpIo.toDo]

/-- A completed read costs two units, which the byte it has taken pays for; the
bytes that are written are still to be read by the client. -/
theorem HttpConnection.step_toDo {e : HttpConnectionEvent}
    (hlength : ∀ request, c'.requests = [request] → (serialise request.answer).length ≤ n)
    (hsound : c.Sound serialise) (hs : c.step serialise e = some c') :
    c'.toDo n + c'.wire.length <
      c.toDo n + c.wire.length + (if e = .readSome .success then 2 else 0) := by
  cases e with
  | readSome ec =>
    obtain ⟨hio, rfl⟩ := step_readSome hs
    by_cases hec : ec = .success
    · simp only [toDo, hio, HttpIo.toDo, hec, if_true]
      omega
    · simp only [toDo, hio, HttpIo.toDo, hec, if_false]
      omega
  | read p =>
    rw [if_neg (by simp)]
    have hchain := hsound.chain
    obtain ⟨ec, hio, ⟨hp, rfl⟩ | ⟨r, hp, rfl⟩⟩ := step_read hs
    · have hlow := toDo_asyncReadSome (n := n) (c := c)
      have hbefore : c.toDo n = 3 * n + 4 + c.deadline.remaining := by
        rw [toDo, hio, HttpIo.toDo, if_pos (ParseStep.result_none hp).2]
      change _ + c.wire.length < _
      omega
    · have hbefore : c.toDo n = (HttpIo.readQueued ec).toDo n + c.deadline.remaining := by
        rw [toDo, hio]
      rw [toDo_release, hbefore]
      simp only [Chain, hio] at hchain
      obtain ⟨hreq, _, hresponse, _⟩ := hchain
      cases r with
      | ok request =>
        have hanswer := hlength request (by simp [HttpConnection.release, onRead, processRequest,
          writeResponse, asyncWriteSome, hreq])
        have hlow := toDo_asyncWriteSome (n := n)
          (c := { c with
            response := request.answer
            requests := c.requests ++ [request]
            responses := c.responses ++ [request.answer] })
          (t := .start (serialise request.answer).length)
        have hafter : c.onRead serialise (.ok request) = HttpConnection.asyncWriteSome { c with
            response := request.answer
            requests := c.requests ++ [request]
            responses := c.responses ++ [request.answer] }
              (.start (serialise request.answer).length) := by
          simp [onRead, processRequest, writeResponse, hresponse, Request.answer]
        rw [HttpIo.toDo, if_pos (ParseStep.result_ok hp).2, hafter]
        simp only [Transfer.left_start] at hlow
        change _ + c.wire.length < _
        omega
      | error error =>
        have hpos : 0 < (HttpIo.readQueued ec).toDo n := HttpIo.toDo_pos (by simp)
        change 0 + c.deadline.remaining + c.wire.length < _
        omega
  | writeSome m =>
    obtain ⟨t, hio, hm, hc⟩ := step_writeSome hs
    have hcount : 0 < m ∨ t.left = 0 := by
      simp only [step, hio] at hs
      split at hs
      · rename_i hguard
        exact hguard.2
      · exact absurd hs (by simp)
    have hleft := Transfer.left_advance hm
    have htake := List.length_take_le m (t.unsent (serialise c.response))
    rw [if_neg (by simp), hc]
    simp only [toDo, hio, HttpIo.toDo, List.length_append]
    by_cases hpos : 0 < (t.advance m).left
    · simp only [hpos, and_self, if_true]
      omega
    · simp only [hpos, and_false, if_false]
      omega
  | writeFailed =>
    obtain ⟨t, hio, rfl⟩ := step_writeFailed hs
    simp [toDo, hio, HttpIo.toDo]
  | write =>
    rw [if_neg (by simp)]
    obtain ⟨t, ec, hio, ⟨hec, hleft, rfl⟩ | rfl⟩ := step_write hs
    · have hlow := toDo_asyncWriteSome (n := n) (c := c) (t := t)
      have hbefore : c.toDo n = 3 * t.left + 3 + c.deadline.remaining := by
        rw [toDo, hio, HttpIo.toDo, if_pos ⟨hec, hleft⟩]
      change _ + c.wire.length < _
      omega
    · have hlow := toDo_onWrite (n := n) (c := c)
      have hpos : 0 < c.io.toDo n := HttpIo.toDo_pos (by simp [hio])
      rw [toDo_release]
      change _ + c.wire.length < c.io.toDo n + c.deadline.remaining + _ + 0
      omega
  | expire =>
    obtain ⟨harmed, rfl⟩ := step_expire hs
    simp only [toDo, harmed, Deadline.remaining]
    omega
  | deadline =>
    obtain ⟨ec, hqueued, rfl⟩ := step_deadline hs
    have hclose := toDo_close (n := n) (c := c)
    rw [if_neg (by simp), toDo_release]
    by_cases hec : ec = .success
    · simp only [onDeadline, hec, if_true, toDo, hqueued, Deadline.remaining]
      change _ + c.wire.length < _
      omega
    · simp only [onDeadline, hec, if_false, toDo, hqueued, Deadline.remaining]
      change _ + c.wire.length < _
      omega

end

section

variable {k : HttpCodec} {up down : Nat} {s s' : HttpExchange}

theorem UClient.remaining_parsed {c : UClient} (hop : c.op = .read)
    (r : Option (Except BeastError Response)) : (c.parsed r).op.remaining ≤ 2 := by
  rcases r with _ | error | response <;> simp [parsed, hop, UClientOp.remaining]

theorem HttpExchange.Sound.length_unseen (h : s.Sound k) :
    s.unseen.length + s.seen = s.server.wire.length := by
  have hseen := h.seen
  rw [unseen, List.length_drop]
  omega

theorem HttpExchange.client_remaining {e : UClientEvent} (hs : s.clientStep k up e = some s') :
    s'.remaining k < s.remaining k := by
  cases e with
  | writeSome n =>
    obtain ⟨t, hop, _, hn, rfl⟩ := client_writeSome.mp hs
    have hpos := hn.1
    have hleft := Transfer.left_advance hn.2.1
    have htake := List.length_take_le n (t.unsent k.text)
    simp only [remaining, hop, UClientOp.remaining, List.length_append, unseen]
    omega
  | write =>
    obtain ⟨t, hop, _, rfl⟩ := client_write.mp hs
    simp only [remaining, hop, UClientOp.remaining, unseen]
    omega
  | writeFails =>
    obtain ⟨t, hop, _, _, rfl⟩ := client_writeFails.mp hs
    simp only [remaining, hop, UClientOp.remaining, unseen]
    omega
  | readSome n =>
    obtain ⟨hop, hpos, hn, rfl⟩ := client_readSome.mp hs
    have hlow := UClient.remaining_parsed (c := { s.client with
      got := s.client.got ++ s.unseen.take n }) hop
      (k.parseResponse (s.client.got ++ s.unseen.take n))
    simp only [unseen, List.length_drop] at hn
    simp only [remaining, hop, UClientOp.remaining, unseen, List.length_drop] at hlow ⊢
    omega
  | readEof =>
    obtain ⟨hop, _, _, rfl⟩ := client_readEof.mp hs
    have hlow : (s.client.parsed (some (k.putEof s.client.got))).op.remaining < 2 := by
      rcases k.putEof s.client.got with error | response <;>
        simp [UClient.parsed, UClientOp.remaining]
    simp only [remaining, hop, UClientOp.remaining, unseen] at hlow ⊢
    omega
  | readFails =>
    obtain ⟨hop, _, _, rfl⟩ := client_readFails.mp hs
    simp only [remaining, hop, UClientOp.remaining, unseen]
    omega
  | shutdown r =>
    obtain ⟨hop, rfl⟩ := client_shutdown.mp hs
    by_cases hr : r = .failed
    · simp only [remaining, hop, hr, if_true, UClientOp.remaining, unseen]
      omega
    · simp only [remaining, hop, hr, if_false, UClientOp.remaining, unseen]
      omega

theorem HttpExchange.Sound.step_remaining (hk : k.Faithful) (h : s.Sound k)
    {e : HttpExchangeEvent} (hs : s.step k up down e = some s') :
    s'.remaining k < s.remaining k := by
  have hsound := h.step hk hs
  have hlength : ∀ request, s'.server.requests = [request] →
      (k.serialise request.answer).length ≤ k.answer.length := by
    intro request hreq
    obtain ⟨rfl, _⟩ := hsound.requests request (by simp [hreq])
    exact Nat.le_refl _
  have hunseen := h.length_unseen
  have hunseen' := hsound.length_unseen
  cases e with
  | client e => exact client_remaining hs
  | arrive n =>
    obtain ⟨hpos, hn, c, hc, rfl⟩ := step_arrive.mp hs
    have hlow := HttpConnection.step_toDo hlength h.server hc
    simp only [if_true] at hlow hunseen'
    simp only [remaining, List.length_drop]
    omega
  | server e =>
    obtain ⟨hadmits, c, hc, rfl⟩ := step_server.mp hs
    have hlow := HttpConnection.step_toDo hlength h.server hc
    have he : e ≠ .readSome .success := by
      rintro rfl
      exact absurd hadmits.1 (by simp)
    simp only [he, if_false] at hlow hunseen'
    simp only [remaining]
    omega

theorem HttpExchange.Sound.printed_iff (h : s.Sound k) (hdone : s.client.done = true) :
    (s.client.printed = some UClient.req.answer ↔ s.server.wire = k.answer) ∧
      (s.client.printed = none ↔ s.server.wire ≠ k.answer) := by
  have hwhole : ∀ r, s.client.printed = some r →
      r = UClient.req.answer ∧ s.server.wire = k.answer := by
    intro r hr
    obtain ⟨hr, hgot⟩ := h.printed r hr
    refine ⟨hr, h.wire_prefix.eq_of_length_le ?_⟩
    rw [← hgot, h.received]
    exact List.length_take_le' _ _
  have hpart : s.client.printed = none → s.server.wire ≠ k.answer := by
    intro hnone
    have hplace := h.place
    rcases hop : s.client.op with t | _ | _ | _ | _ <;> simp only [Place, hop] at hplace
    · simp [UClient.done, hop] at hdone
    · simp [UClient.done, hop] at hdone
    · simp [UClient.done, hop] at hdone
    · exact absurd hnone hplace
    · exact hplace hnone
  cases hp : s.client.printed with
  | none =>
    have hno := hpart hp
    simp [hno]
  | some r =>
    obtain ⟨rfl, hyes⟩ := hwhole r hp
    simp [hyes]

/-- Once the server has closed its socket, the client has something to do until it is done. -/
theorem HttpExchange.client_done (hclosed : s.server.isOpen = false)
    (hidle : ∀ e t, e ≠ .shutdown .failed → s.clientStep k up e ≠ some t) :
    s.client.done = true := by
  cases hop : s.client.op with
  | write t =>
    by_cases hleft : t.left = 0
    · exact (hidle .write _ (by simp) (client_write.mpr ⟨t, hop, hleft, rfl⟩)).elim
    · exact (hidle .writeFails _ (by simp)
        (client_writeFails.mpr ⟨t, hop, hclosed, Nat.pos_of_ne_zero hleft, rfl⟩)).elim
  | read =>
    by_cases hunseen : s.unseen = []
    · have hshut : s.server.shut = true := by simp [HttpConnection.shut, hclosed]
      exact (hidle .readEof _ (by simp) (client_readEof.mpr ⟨hop, hunseen, hshut, rfl⟩)).elim
    · exact (hidle (.readSome 1) _ (by simp) (client_readSome.mpr
        ⟨hop, Nat.one_pos, List.length_pos_iff.mpr hunseen, rfl⟩)).elim
  | shutdown =>
    exact (hidle (.shutdown .success) _ (by simp) (client_shutdown.mpr ⟨hop, rfl⟩)).elim
  | succeeded => simp [UClient.done, hop]
  | failed => simp [UClient.done, hop]

/-- Where none of the server's own handlers is due and its timer is done, the
connection is released. -/
theorem HttpExchange.Sound.released (h : s.Sound k)
    (hidle : ∀ e t, HttpConnectionEvent.own e = true → s.step k up down (.server e) ≠ some t)
    (hdone : s.server.deadline = .done) : s.server.Released := by
  refine h.timely.idle_of_done h.server hdone (fun ec hio => ?_) fun t ec hio => ?_
  · obtain ⟨c, hc⟩ := HttpConnection.read_enabled k.serialise hio (k.parseStep s.read)
    exact hidle (.read (k.parseStep s.read)) _ rfl (step_server.mpr ⟨rfl, c, hc, rfl⟩)
  · obtain ⟨c, hc⟩ := HttpConnection.write_enabled k.serialise hio
    exact hidle .write _ rfl (step_server.mpr ⟨trivial, c, hc, rfl⟩)

/-- Where both sides have nothing left to do, both are done. -/
theorem HttpExchange.Sound.ended (h : s.Sound k)
    (hidle : ∀ e t, HttpExchangeEvent.calm e = true → s.step k up down e ≠ some t)
    (hdone : s.server.deadline = .done) : s.Ended k := by
  have hserver : s.server.Released := by
    have hown : ∀ e t, HttpConnectionEvent.own e = true →
        s.step k up down (.server e) ≠ some t := by
      intro e t he ht
      cases e with
      | expire =>
        obtain ⟨_, c, hc, _⟩ := step_server.mp ht
        exact absurd (HttpConnection.step_expire hc).1 (by simp [hdone])
      | _ => exact hidle (.server _) t rfl ht
    exact h.released hown hdone
  have hclient : s.client.done = true := by
    have hcalm : ∀ e t, e ≠ .shutdown .failed → s.clientStep k up e ≠ some t := by
      intro e t he ht
      refine hidle (.client e) t ?_ ht
      cases e with
      | shutdown r => exact decide_eq_true fun hr => he (hr ▸ rfl)
      | _ => rfl
    exact client_done hserver.closed hcalm
  obtain ⟨hprinted, hunprinted⟩ := h.printed_iff hclient
  exact ⟨hclient, hserver, hprinted, hunprinted⟩

/-- No timer is left where no handler is. -/
theorem HttpExchange.deadline_done (hqueued : ∀ t, s.step k up down (.server .deadline) ≠ some t)
    (harmed : s.server.deadline ≠ .armed) : s.server.deadline = .done := by
  cases hd : s.server.deadline with
  | armed => exact absurd hd harmed
  | queued ec =>
    exact (hqueued { s with server := (s.server.onDeadline ec).release } (step_server.mpr
      ⟨trivial, _, by simp [HttpConnection.step, hd], rfl⟩)).elim
  | done => rfl

theorem HttpExchange.Sound.ended_of_stuck (h : s.Sound k)
    (hstuck : (httpExchange k up down).Stuck s) : s.Ended k := by
  have hnone : ∀ e t, s.step k up down e ≠ some t := fun e _ => hstuck.not_step e
  have harmed : s.server.deadline ≠ .armed := by
    intro hd
    exact hnone (.server .expire) { s with server := { s.server with
      deadline := .queued .success } } (step_server.mpr
        ⟨trivial, _, by simp [HttpConnection.step, hd], rfl⟩)
  exact h.ended (fun e t _ => hnone e t) (deadline_done (hnone _) harmed)

theorem HttpExchange.clientStep_done (hdone : s.client.done = true) (e : UClientEvent) :
    s.clientStep k up e = none := by
  have hop : s.client.op = .succeeded ∨ s.client.op = .failed := by
    rcases hop : s.client.op with t | _ | _ | _ | _ <;> simp [UClient.done, hop] at hdone ⊢
  rcases hop with hop | hop <;> cases e <;> simp [clientStep, hop]

/-- Nothing happens any more once both sides are done. -/
theorem HttpExchange.stuck_of_done (hclient : s.client.done = true)
    (hserver : s.server.Released) : (httpExchange k up down).Stuck s := by
  intro e
  cases e with
  | client e => exact clientStep_done hclient e
  | _ =>
    simp only [httpExchange, HttpExchange.step, hserver.step_none, Option.map_none, ite_self]

def HttpExchange.bound (k : HttpCodec) : Nat :=
  4 * k.text.length + 3 * k.answer.length + 8

theorem HttpExchange.remaining_start (socket : Nat) :
    (HttpExchange.start k socket).remaining k = bound k := by
  simp only [remaining, start, UClient.start, UClientOp.remaining, Transfer.left_start, unseen,
    HttpConnection.start, HttpConnection.construct, HttpConnection.readRequest,
    HttpConnection.asyncReadSome, HttpConnection.checkDeadline, Option.isSome_some, if_true,
    HttpConnection.toDo, HttpIo.toDo, Deadline.remaining, bound, List.length_nil, List.drop_nil]
  omega

/-- Every exchange comes to an end. The client has then printed the answer to its
request, or nothing, and the server has released the connection. -/
theorem uclient_completes (hk : k.Faithful) (socket : Nat) :
    (httpExchange k up down).Completes (HttpExchange.Ended k) (HttpExchange.bound k)
      (.start k socket) := by
  have hcompletes := System.completes_of_measure (m := httpExchange k up down)
    (I := HttpExchange.Sound k) (Q := HttpExchange.Ended k) (μ := HttpExchange.remaining k)
    (fun _ _ _ hs ht => hs.step hk ht) (fun _ _ _ hs ht => hs.step_remaining hk ht)
    (fun _ hs hstuck => hs.ended_of_stuck hstuck) (HttpExchange.sound_start hk socket)
  exact hcompletes.mono (fun _ => id) (Nat.le_of_eq (HttpExchange.remaining_start socket))

theorem uclient_completes_count :
    (httpExchange countCodec 16 16).Completes (HttpExchange.Ended countCodec)
      (HttpExchange.bound countCodec) (.start countCodec 0) :=
  uclient_completes countCodec_faithful 0

end

end ScratchServers
