import ScratchServers.Family
import ScratchServers.UnixServer

/-! The Unix-socket server left alone: its handlers and timers run out in a few
steps for each connection, and by then every connection is released. -/

namespace ScratchServers

/-- The handlers that are delivered and the timer that expires; the other events
need the client or the system to do something. -/
def HttpConnectionEvent.own : HttpConnectionEvent → Bool
  | .read _ | .write | .expire | .deadline => true
  | _ => false

def HttpServerEvent.own : HttpServerEvent → Bool
  | .accept => true
  | .connection _ e => e.own
  | _ => false

def HttpServerEvent.isOf (k : Nat) : HttpServerEvent → Bool
  | .connection j _ => j == k
  | _ => false

def HttpIo.remaining : HttpIo → Nat
  | .reading | .writing _ => 1
  | .readQueued ec => if ec = .success then 2 else 1
  | .writeQueued t ec => if ec = .success ∧ 0 < t.left then 2 else 1
  | .ended => 0

def Deadline.remaining : Deadline → Nat
  | .armed => 2
  | .queued _ => 1
  | .done => 0

def HttpConnection.remaining (c : HttpConnection) : Nat :=
  c.io.remaining + c.deadline.remaining

def AcceptOp.remaining : AcceptOp → Nat
  | .outstanding => 0
  | .queued (.ok _) => 4
  | .queued (.error _) => 1

def HttpServer.remaining (s : HttpServer) : Nat :=
  total HttpConnection.remaining s.connections + s.accept.remaining

structure HttpConnection.Released (c : HttpConnection) : Prop where
  io : c.io = .ended
  deadline : c.deadline = .done
  closed : c.isOpen = false

/-- An accept is outstanding on the closed variable, and nothing else is. -/
structure HttpServer.Drained (s : HttpServer) : Prop where
  accept : s.accept = .outstanding
  socket : s.socket = none
  connections : ∀ (k : Nat) c, s.connections[k]? = some c → c.Released

/-- The timer is cancelled by the end of the write chain alone, and a connection
that no handler holds is gone. -/
structure HttpConnection.Timely (c : HttpConnection) : Prop where
  cancelled : ∀ ec, c.deadline = .queued ec → ec = .success ∨ c.io = .ended
  done : c.deadline = .done → c.timedOut = true ∨ c.io = .ended
  released : c.io = .ended → c.deadline = .done → c.isOpen = false

section

variable {serialise : Response → Bytes} {c c' : HttpConnection}

@[simp] theorem HttpConnection.remaining_release : c.release.remaining = c.remaining := rfl

theorem HttpConnection.remaining_asyncReadSome :
    c.asyncReadSome.remaining = 1 + c.deadline.remaining := by
  by_cases hopen : c.isOpen = true <;>
    simp [remaining, asyncReadSome, hopen, HttpIo.remaining]

theorem HttpConnection.remaining_asyncWriteSome {t : Transfer} :
    (c.asyncWriteSome t).remaining = 1 + c.deadline.remaining := by
  by_cases hopen : (c.isOpen && !c.sendShut) = true
  · simp only [remaining, asyncWriteSome, hopen, if_true, HttpIo.remaining]
  · simp [remaining, asyncWriteSome, hopen, HttpIo.remaining]

theorem HttpConnection.remaining_onWrite : c.onWrite.remaining ≤ c.deadline.remaining := by
  by_cases harmed : c.deadline = .armed
  · simp [remaining, onWrite, cancel, harmed, HttpIo.remaining, Deadline.remaining]
  · simp [remaining, onWrite, cancel, harmed, HttpIo.remaining]

theorem HttpIo.remaining_pos {io : HttpIo} (h : io ≠ .ended) : 0 < io.remaining := by
  cases io with
  | readQueued ec => by_cases hec : ec = .success <;> simp [remaining, hec]
  | writeQueued t ec => by_cases hec : ec = .success ∧ 0 < t.left <;> simp [remaining, hec]
  | ended => exact absurd rfl h
  | _ => exact Nat.one_pos

theorem HttpIo.remaining_le (io : HttpIo) : io.remaining ≤ 2 := by
  cases io with
  | readQueued ec => by_cases hec : ec = .success <;> simp [remaining, hec]
  | writeQueued t ec => by_cases hec : ec = .success ∧ 0 < t.left <;> simp [remaining, hec]
  | _ => simp [remaining]

theorem HttpConnection.remaining_close : c.close.io.remaining ≤ c.io.remaining := by
  rcases hio : c.io with _ | ec | t | ⟨t, ec⟩ | _ <;> simp [close, hio, HttpIo.remaining]

theorem HttpConnection.own_remaining {e : HttpConnectionEvent} (he : e.own = true)
    (hs : c.step serialise e = some c') : c'.remaining < c.remaining := by
  cases e with
  | read p =>
    obtain ⟨ec, hio, ⟨hp, rfl⟩ | ⟨r, hp, rfl⟩⟩ := step_read hs
    · have hec : ec = .success := by
        by_contra hno
        simp [ParseStep.result, hno] at hp
      rw [remaining_asyncReadSome, remaining, hio, HttpIo.remaining, if_pos hec]
      omega
    · rw [remaining_release]
      cases r with
      | ok request =>
        have hec : ec = .success := by
          by_contra hno
          simp [ParseStep.result, hno] at hp
        have hlow : (c.onRead serialise (.ok request)).remaining = 1 + c.deadline.remaining :=
          remaining_asyncWriteSome
        rw [hlow, remaining, hio, HttpIo.remaining, if_pos hec]
        omega
      | error error =>
        have hlow : (c.onRead serialise (.error error)).remaining = 0 + c.deadline.remaining := rfl
        have hpos : 0 < c.io.remaining := HttpIo.remaining_pos (by simp [hio])
        rw [hlow, remaining]
        omega
  | write =>
    obtain ⟨t, ec, hio, ⟨hec, hleft, rfl⟩ | rfl⟩ := step_write hs
    · rw [remaining_asyncWriteSome, remaining, hio, HttpIo.remaining, if_pos ⟨hec, hleft⟩]
      omega
    · have hlow := remaining_onWrite (c := c)
      have hpos : 0 < c.io.remaining := HttpIo.remaining_pos (by simp [hio])
      rw [remaining_release, remaining]
      simp only [remaining] at hlow ⊢
      omega
  | expire =>
    obtain ⟨harmed, rfl⟩ := step_expire hs
    simp only [remaining, harmed, Deadline.remaining]
    omega
  | deadline =>
    obtain ⟨ec, hqueued, rfl⟩ := step_deadline hs
    have hclose := remaining_close (c := c)
    rw [remaining_release]
    by_cases hec : ec = .success
    · simp only [onDeadline, hec, if_true, remaining, hqueued, Deadline.remaining]
      omega
    · simp only [onDeadline, hec, if_false, remaining, hqueued, Deadline.remaining]
      omega
  | _ => exact absurd he (by simp [HttpConnectionEvent.own])

theorem HttpConnection.timely_start (socket : Option Nat) :
    (construct socket).start.Timely := by
  cases socket <;> exact ⟨by simp [start, checkDeadline], by simp [start, checkDeadline],
    by simp [start, checkDeadline]⟩

theorem HttpConnection.Timely.release (h : c.Timely) : c.release.Timely where
  cancelled := h.cancelled
  done := h.done
  released hio hdone := by
    have hended : c.io = .ended := hio
    have hdeadline : c.deadline = .done := hdone
    simp [HttpConnection.release, hended, hdeadline]

/-- While the chain goes on, the timer is not touched. -/
theorem HttpConnection.Timely.going (h : c.Timely) (hio : c.io ≠ .ended) (hio' : c'.io ≠ .ended)
    (hdeadline : c'.deadline = c.deadline) (htimedOut : c'.timedOut = c.timedOut) :
    c'.Timely where
  cancelled ec hec := .inl ((h.cancelled ec (hdeadline ▸ hec)).resolve_right hio)
  done hdone := .inl (htimedOut ▸ (h.done (hdeadline ▸ hdone)).resolve_right hio)
  released hended := absurd hended hio'

theorem HttpConnection.timely_of_ended (hio : c.io = .ended) : c.release.Timely where
  cancelled _ _ := .inr hio
  done _ := .inr hio
  released _ hdone := by
    have hdeadline : c.deadline = .done := hdone
    simp [HttpConnection.release, hio, hdeadline]

theorem HttpConnection.asyncReadSome_going : c.asyncReadSome.io ≠ .ended := by
  by_cases hopen : c.isOpen = true <;> simp [asyncReadSome, hopen]

theorem HttpConnection.asyncWriteSome_going {t : Transfer} : (c.asyncWriteSome t).io ≠ .ended := by
  by_cases hopen : (c.isOpen && !c.sendShut) = true
  · simp only [asyncWriteSome, hopen, if_true]
    simp
  · simp [asyncWriteSome, hopen]

theorem HttpConnection.Timely.onDeadline (h : c.Timely) {ec : ErrorCode}
    (hqueued : c.deadline = .queued ec) : (c.onDeadline ec).release.Timely := by
  refine ⟨by simp [HttpConnection.onDeadline, HttpConnection.release]; split <;> simp, ?_, ?_⟩
  · intro _
    by_cases hec : ec = .success
    · left
      simp [HttpConnection.onDeadline, HttpConnection.release, hec]
    · right
      have hio := (h.cancelled ec hqueued).resolve_left hec
      simp [HttpConnection.onDeadline, HttpConnection.release, hec, hio]
  · intro hio hdone
    change (c.onDeadline ec).io = .ended at hio
    change (c.onDeadline ec).deadline = .done at hdone
    simp [HttpConnection.release, hio, hdone]

theorem HttpConnection.Timely.step (h : c.Timely) {e : HttpConnectionEvent}
    (hs : c.step serialise e = some c') : c'.Timely := by
  cases e with
  | readSome ec =>
    obtain ⟨hio, rfl⟩ := step_readSome hs
    exact h.going (by simp [hio]) (by simp) rfl rfl
  | read p =>
    obtain ⟨ec, hio, ⟨_, rfl⟩ | ⟨r, _, rfl⟩⟩ := step_read hs
    · exact h.going (by simp [hio]) asyncReadSome_going rfl rfl
    · cases r with
      | ok request =>
        have hgoing : (c.onRead serialise (.ok request)).Timely :=
          h.going (by simp [hio]) asyncWriteSome_going rfl rfl
        exact hgoing.release
      | error error => exact timely_of_ended rfl
  | writeSome n =>
    obtain ⟨t, hio, _, rfl⟩ := step_writeSome hs
    exact h.going (by simp [hio]) (by simp) rfl rfl
  | writeFailed =>
    obtain ⟨t, hio, rfl⟩ := step_writeFailed hs
    exact h.going (by simp [hio]) (by simp) rfl rfl
  | write =>
    obtain ⟨t, ec, hio, ⟨_, _, rfl⟩ | rfl⟩ := step_write hs
    · exact h.going (by simp [hio]) asyncWriteSome_going rfl rfl
    · exact timely_of_ended rfl
  | expire =>
    obtain ⟨harmed, rfl⟩ := step_expire hs
    exact ⟨fun ec hec => .inl (by simpa [eq_comm] using hec), by simp, by simp⟩
  | deadline =>
    obtain ⟨ec, hqueued, rfl⟩ := step_deadline hs
    exact h.onDeadline hqueued

theorem httpConnection_timely (h : (httpConnection serialise).Reachable c) :
    c.Sound serialise ∧ c.Timely := by
  refine h.invariant (P := fun c => c.Sound serialise ∧ c.Timely) ?_ ?_
  · rintro c ⟨socket, rfl⟩
    exact ⟨HttpConnection.sound_start socket, HttpConnection.timely_start socket⟩
  · intro c e c' hboth hs
    exact ⟨hboth.1.step hs, hboth.2.step hs⟩

theorem HttpConnection.read_enabled (serialise : Response → Bytes) {ec : ErrorCode}
    (hio : c.io = .readQueued ec) (p : ParseStep) : ∃ t, c.step serialise (.read p) = some t := by
  cases hp : p.result ec <;> simp [HttpConnection.step, hio, hp]

theorem HttpConnection.write_enabled (serialise : Response → Bytes) {t : Transfer}
    {ec : ErrorCode} (hio : c.io = .writeQueued t ec) : ∃ u, c.step serialise .write = some u := by
  by_cases hec : ec = .success ∧ 0 < t.left <;> simp [HttpConnection.step, hio, hec]

theorem HttpConnection.Timely.idle_of_done (h : c.Timely) (hsound : c.Sound serialise)
    (hdone : c.deadline = .done) (hread : ∀ ec, c.io ≠ .readQueued ec)
    (hwrite : ∀ t ec, c.io ≠ .writeQueued t ec) : c.Released := by
  have hio : c.io = .ended := by
    rcases h.done hdone with htimed | hended
    · have hclosed := hsound.timedOut htimed
      cases hio : c.io with
      | reading => exact absurd (hsound.reading hio) (by simp [hclosed])
      | writing t => exact absurd (hsound.writing t hio) (by simp [hclosed])
      | readQueued ec => exact absurd hio (hread ec)
      | writeQueued t ec => exact absurd hio (hwrite t ec)
      | ended => rfl
    · exact hended
  exact ⟨hio, hdone, h.released hio hdone⟩

theorem HttpConnection.Released.step_none (h : c.Released) (e : HttpConnectionEvent) :
    c.step serialise e = none := by
  have hio := h.io
  have hdeadline := h.deadline
  cases e <;> simp [HttpConnection.step, hio, hdeadline]

/-- A connection with nothing of its own left to do is released. -/
theorem HttpConnection.Timely.idle (h : c.Timely) (hsound : c.Sound serialise)
    (hidle : ∀ e t, HttpConnectionEvent.own e = true → c.step serialise e ≠ some t) :
    c.Released := by
  have hdone : c.deadline = .done := by
    cases hd : c.deadline with
    | armed =>
      exact (hidle .expire { c with deadline := .queued .success } rfl
        (by simp [HttpConnection.step, hd])).elim
    | queued ec =>
      exact (hidle .deadline (c.onDeadline ec).release rfl (by simp [HttpConnection.step, hd])).elim
    | done => rfl
  refine h.idle_of_done hsound hdone (fun ec hio => ?_) fun t ec hio => ?_
  · obtain ⟨t, ht⟩ := read_enabled serialise hio .more
    exact hidle _ t rfl ht
  · obtain ⟨u, hu⟩ := write_enabled serialise hio
    exact hidle _ u rfl hu

/-- Once the deadline handler has run, nothing but the connection's own handlers
can happen to it. -/
theorem HttpConnection.Timely.own_of_done (h : c.Timely) (hsound : c.Sound serialise)
    (hdone : c.deadline = .done) {e : HttpConnectionEvent}
    (hs : c.step serialise e = some c') : e.own = true ∧ c'.deadline = .done := by
  have hstopped : c.io ≠ .reading ∧ ∀ t, c.io ≠ .writing t := by
    rcases h.done hdone with htimed | hended
    · have hclosed := hsound.timedOut htimed
      refine ⟨fun hio => ?_, fun t hio => ?_⟩
      · exact absurd (hsound.reading hio) (by simp [hclosed])
      · exact absurd (hsound.writing t hio) (by simp [hclosed])
    · simp [hended]
  cases e with
  | readSome ec => exact absurd (step_readSome hs).1 hstopped.1
  | writeSome n =>
    obtain ⟨t, hio, _⟩ := step_writeSome hs
    exact absurd hio (hstopped.2 t)
  | writeFailed =>
    obtain ⟨t, hio, _⟩ := step_writeFailed hs
    exact absurd hio (hstopped.2 t)
  | read p =>
    refine ⟨rfl, ?_⟩
    obtain ⟨ec, _, ⟨_, rfl⟩ | ⟨r, _, rfl⟩⟩ := step_read hs
    · exact hdone
    · cases r <;> exact hdone
  | write =>
    refine ⟨rfl, ?_⟩
    obtain ⟨t, ec, _, ⟨_, _, rfl⟩ | rfl⟩ := step_write hs
    · exact hdone
    · simp [HttpConnection.release, onWrite, cancel, hdone]
  | expire => exact absurd (step_expire hs).1 (by simp [hdone])
  | deadline =>
    obtain ⟨ec, hqueued, _⟩ := step_deadline hs
    exact absurd hqueued (by simp [hdone])

end

section

variable {serialise : Response → Bytes} {s s' : HttpServer}

/-- The connections of the server are components that know nothing of each other. -/
theorem httpServer_family (h : (httpServer serialise).Reachable s) :
    s.Sound serialise ∧ (httpConnection serialise).family.Reachable s.connections := by
  refine h.invariant (P := fun s => s.Sound serialise ∧
    (httpConnection serialise).family.Reachable s.connections) ?_ ?_
  · rintro s rfl
    exact ⟨HttpServer.sound_start, .start rfl⟩
  · intro s e s' ⟨hsound, hfamily⟩ hs
    change s.step serialise e = some s' at hs
    refine ⟨hsound.step hs, ?_⟩
    cases e with
    | acceptCompletes =>
      obtain ⟨_, rfl⟩ := HttpServer.step_acceptCompletes hs
      exact hfamily
    | acceptFails =>
      obtain ⟨_, rfl⟩ := HttpServer.step_acceptFails hs
      exact hfamily
    | accept =>
      obtain ⟨ec, ha, rfl⟩ | ⟨i, ha, rfl⟩ := HttpServer.step_accept hs
      · rw [HttpServer.onAccept_failed fun he => hsound.failed (he ▸ ha)]
        exact hfamily
      · have hspawn := hfamily.next
          (l := .spawn ⟨(HttpConnection.construct (some i)).start, _, rfl⟩) trivial rfl
        exact hspawn
    | connection k e =>
      obtain ⟨c, c', hk, hc, rfl⟩ := HttpServer.step_connection hs
      exact hfamily.next (l := .member k e) trivial
        (System.family_step_member.mpr ⟨c, c', hk, hc, rfl⟩)

theorem HttpServer.own_remaining (h : s.Sound serialise) {e : HttpServerEvent} (he : e.own = true)
    (hs : s.step serialise e = some s') : s'.remaining < s.remaining := by
  cases e with
  | accept =>
    obtain ⟨ec, ha, rfl⟩ | ⟨i, ha, rfl⟩ := step_accept hs
    · rw [onAccept_failed fun hec => h.failed (hec ▸ ha)]
      simp [remaining, asyncAccept, h.socket, ha, AcceptOp.remaining]
    · simp only [remaining, onAccept, asyncAccept, if_true, total_append, ha, AcceptOp.remaining,
        total, HttpConnection.remaining, HttpConnection.construct, HttpConnection.start,
        HttpConnection.readRequest, HttpConnection.asyncReadSome, HttpConnection.checkDeadline,
        Option.isSome_some, HttpIo.remaining, Deadline.remaining]
      omega
  | connection k e =>
    obtain ⟨c, c', hk, hc, rfl⟩ := step_connection hs
    have hlow := HttpConnection.own_remaining he hc
    have hset := total_set (f := HttpConnection.remaining) (t := c') hk
    simp only [remaining]
    omega
  | acceptCompletes => exact absurd he (by simp [HttpServerEvent.own])
  | acceptFails => exact absurd he (by simp [HttpServerEvent.own])

theorem HttpServer.remaining_le :
    total HttpConnection.remaining s.connections ≤ 4 * s.connections.length := by
  have hbound (c : HttpConnection) : c.remaining ≤ 4 := by
    have hio := HttpIo.remaining_le c.io
    have hdeadline : c.deadline.remaining ≤ 2 := by
      cases c.deadline <;> simp [Deadline.remaining]
    simp only [HttpConnection.remaining]
    omega
  exact total_le fun c _ => hbound c

theorem HttpServer.drained_of_idle (h : (httpServer serialise).Reachable s)
    (hidle : ∀ e t, HttpServerEvent.own e = true → s.step serialise e ≠ some t) : s.Drained := by
  obtain ⟨hsound, hfamily⟩ := httpServer_family h
  refine ⟨?_, hsound.socket, fun k c hk => ?_⟩
  · cases ha : s.accept with
    | outstanding => rfl
    | queued r =>
      cases r with
      | error ec => exact (hidle .accept (s.onAccept ec) rfl (by simp [HttpServer.step, ha])).elim
      | ok i =>
        exact (hidle .accept (onAccept { s with socket := some i, accepted := s.accepted ++ [i] }
          .success) rfl (by simp [HttpServer.step, ha])).elim
  · have htimely := (httpConnection_timely (System.reachable_member hfamily k c hk)).2
    refine htimely.idle (hsound.connections k c hk) fun e t he ht => ?_
    refine hidle (.connection k e) { s with connections := s.connections.set k t } he ?_
    simp only [HttpServer.step, hk, Option.bind_some, ht, Option.map_some]

/-- From any state of the server, its own handlers and timers are done after a
few steps for each connection, in whatever order they come, and by then every
connection is released and every accepted socket closed. -/
theorem unix_server_drains (h : (httpServer serialise).Reachable s) :
    ((httpServer serialise).only fun _ e => e.own = true).Completes HttpServer.Drained
      (4 * s.connections.length + 4) s := by
  have hcompletes := System.completes_of_measure
    (m := (httpServer serialise).only fun _ e => e.own = true)
    (I := (httpServer serialise).Reachable) (Q := HttpServer.Drained) (μ := HttpServer.remaining)
    (fun _ _ _ hs ht => hs.next trivial (System.step_only.mp ht).2)
    (fun s e t hs ht => HttpServer.own_remaining (httpServer_family hs).1
      (System.step_only.mp ht).1 (System.step_only.mp ht).2)
    (fun s hs hstuck => HttpServer.drained_of_idle hs (System.stuck_only.mp hstuck)) h
  refine hcompletes.mono (fun _ => id) ?_
  have hconnections := HttpServer.remaining_le (s := s)
  have haccept : s.accept.remaining ≤ 4 := by
    rcases s.accept with _ | ec | i <;> simp [AcceptOp.remaining]
  simp only [HttpServer.remaining]
  omega

def HttpServer.remainingOf (k : Nat) (s : HttpServer) : Nat :=
  (s.connections[k]?.map HttpConnection.remaining).getD 0

/-- A connection whose deadline handler has run. -/
def HttpServer.Expired (k : Nat) (s : HttpServer) : Prop :=
  ∃ c, s.connections[k]? = some c ∧ c.deadline = .done

theorem HttpServer.Expired.step {k : Nat} (hreach : (httpServer serialise).Reachable s)
    (h : s.Expired k) {e : HttpServerEvent} (hs : s.step serialise e = some s') :
    s'.Expired k ∧ s'.remainingOf k + (if e.isOf k then 1 else 0) ≤ s.remainingOf k := by
  obtain ⟨c, hk, hdone⟩ := h
  obtain ⟨hsound, hfamily⟩ := httpServer_family hreach
  have hsame : s'.connections[k]? = some c → e.isOf k = false →
      s'.Expired k ∧ s'.remainingOf k + (if e.isOf k then 1 else 0) ≤ s.remainingOf k := by
    intro hk' hother
    refine ⟨⟨c, hk', hdone⟩, ?_⟩
    simp [remainingOf, hk, hk', hother]
  cases e with
  | acceptCompletes =>
    obtain ⟨_, rfl⟩ := step_acceptCompletes hs
    exact hsame hk rfl
  | acceptFails =>
    obtain ⟨_, rfl⟩ := step_acceptFails hs
    exact hsame hk rfl
  | accept =>
    obtain ⟨ec, ha, rfl⟩ | ⟨i, ha, rfl⟩ := step_accept hs
    · rw [onAccept_failed fun hec => hsound.failed (hec ▸ ha)] at hsame ⊢
      exact hsame hk rfl
    · exact hsame ((List.getElem?_append_left (lt_length_of_getElem? hk)).trans hk) rfl
  | connection j e =>
    obtain ⟨d, d', hj, hd, rfl⟩ := step_connection hs
    by_cases hjk : j = k
    · subst hjk
      obtain rfl : c = d := Option.some.inj (hk.symm.trans hj)
      have htimely := (httpConnection_timely (System.reachable_member hfamily j c hk)).2
      obtain ⟨hown, hdone'⟩ := htimely.own_of_done (hsound.connections j c hk) hdone hd
      have hlow := HttpConnection.own_remaining hown hd
      have hset : (s.connections.set j d')[j]? = some d' :=
        List.getElem?_set_self (lt_length_of_getElem? hk)
      refine ⟨⟨d', hset, hdone'⟩, ?_⟩
      simp only [remainingOf, hset, hk, Option.map_some, Option.getD_some, HttpServerEvent.isOf,
        beq_self_eq_true, if_true]
      omega
    · exact hsame ((List.getElem?_set_ne hjk).trans hk) (by simp [HttpServerEvent.isOf, hjk])

/-- Whatever the client and the other connections do, at most two more handlers of a
connection run after its deadline handler, and one is due until it is released. -/
theorem unix_deadline_final (h : (httpServer serialise).Reachable s) {k : Nat}
    (hexpired : s.Expired k) {ls : List HttpServerEvent} {u : HttpServer}
    (hr : (httpServer serialise).run s ls = some u) :
    ls.countP (HttpServerEvent.isOf k) ≤ 2 ∧ ∃ c, u.connections[k]? = some c ∧
      (c.Released ∨ ∃ e t, HttpConnectionEvent.own e = true ∧ c.step serialise e = some t) := by
  have hkeep : ∀ s e s', (httpServer serialise).Reachable s ∧ s.Expired k →
      (httpServer serialise).step s e = some s' →
        (httpServer serialise).Reachable s' ∧ s'.Expired k :=
    fun s e s' hs ht => ⟨hs.1.next trivial ht, (hs.2.step hs.1 ht).1⟩
  constructor
  · have hcount := System.countP_add_measure_le (m := httpServer serialise)
      (p := HttpServerEvent.isOf k) (μ := HttpServer.remainingOf k) hkeep
      (fun s e s' hs ht => (hs.2.step hs.1 ht).2) ⟨h, hexpired⟩ hr
    obtain ⟨c, hk, hdone⟩ := hexpired
    have hio := HttpIo.remaining_le c.io
    simp only [HttpServer.remainingOf, hk, Option.map_some, Option.getD_some,
      HttpConnection.remaining, hdone, Deadline.remaining] at hcount
    omega
  · obtain ⟨hu, c, hk, _⟩ := System.run_keeps hkeep ⟨h, hexpired⟩ hr
    obtain ⟨hsound, hfamily⟩ := httpServer_family hu
    have htimely := (httpConnection_timely (System.reachable_member hfamily k c hk)).2
    refine ⟨c, hk, ?_⟩
    by_contra hno
    refine hno (.inl (htimely.idle (hsound.connections k c hk) fun e t he ht => ?_))
    exact hno (.inr ⟨e, t, he, ht⟩)

theorem unix_server_drains_run : ∃ s, (httpServer Response.text).Reachable s ∧
    s.connections.length = 2 ∧
    ((httpServer Response.text).only fun _ e => e.own = true).Completes HttpServer.Drained
      (4 * s.connections.length + 4) s := by
  obtain ⟨s, hs, hq⟩ := (httpServer Response.text).exists_reachable_of_run .start
    (lateRequest ++ [.connection 1 (.read (.done (.ok ⟨"GET", "/time", 11⟩)))])
    (fun s => s.connections.length = 2) rfl (by decide +kernel)
  exact ⟨s, hs, of_decide_eq_true hq, unix_server_drains hs⟩

/-- The request of the timed-out connection is answered after its deadline handler. -/
theorem unix_deadline_final_run : ∃ s u, (httpServer Response.text).Reachable s ∧ s.Expired 1 ∧
    (httpServer Response.text).run s
      [.connection 1 (.read (.done (.ok ⟨"GET", "/time", 11⟩))), .acceptCompletes,
        .connection 1 .write] = some u ∧
    ∃ c, u.connections[1]? = some c ∧ (c.Released ∨
      ∃ e t, HttpConnectionEvent.own e = true ∧ c.step Response.text e = some t) := by
  obtain ⟨s, hs, hq⟩ := (httpServer Response.text).exists_reachable_of_run .start lateRequest
    (fun s => s.connections[1]?.any (·.deadline = .done) &&
      ((httpServer Response.text).run s [.connection 1 (.read (.done (.ok ⟨"GET", "/time", 11⟩))),
        .acceptCompletes, .connection 1 .write]).isSome) rfl (by decide +kernel)
  obtain ⟨hdone, hrun⟩ := Bool.and_eq_true_iff.mp hq
  obtain ⟨c, hc, hdeadline⟩ := (Option.any_eq_true _ _).mp hdone
  obtain ⟨u, hu⟩ := Option.isSome_iff_exists.mp hrun
  have hexpired : s.Expired 1 := ⟨c, hc, of_decide_eq_true hdeadline⟩
  exact ⟨s, u, hs, hexpired, hu, (unix_deadline_final hs hexpired hu).2⟩

end

end ScratchServers
