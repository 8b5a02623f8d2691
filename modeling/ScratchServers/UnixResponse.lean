import ScratchServers.UnixConnection

/-! What a connection of the Unix-socket server can put on its wire: the first
part of one response, and nothing more once its deadline has run out. -/

namespace ScratchServers

def Request.answer (request : Request) : Response :=
  let r := ({} : Response).processRequest request
  r.contentLength r.body.utf8ByteSize

/-- The one response that a connection starts answers the one request it has
read, and the wire holds the first part of it. -/
def HttpConnection.Served (serialise : Response → Bytes) (c : HttpConnection) : Prop :=
  (c.responses = [] ∧ c.wire = []) ∨
    ∃ request, c.requests = [request] ∧ c.responses = [request.answer] ∧
      c.wire <+: serialise request.answer

def HttpConnection.Chain (serialise : Response → Bytes) (c : HttpConnection) : Prop :=
  match c.io with
  | .reading | .readQueued _ =>
    c.requests = [] ∧ c.responses = [] ∧ c.response = {} ∧ c.wire = []
  | .writing t | .writeQueued t _ =>
    ∃ request, c.requests = [request] ∧ c.responses = [request.answer] ∧
      c.response = request.answer ∧ t.length = (serialise request.answer).length ∧
      c.wire = (serialise request.answer).take t.moved
  | .ended => c.Served serialise

/-- Operations are outstanding on an open socket only, and a connection that has
timed out has none. -/
structure HttpConnection.Sound (serialise : Response → Bytes) (c : HttpConnection) : Prop where
  chain : c.Chain serialise
  reading : c.io = .reading → c.isOpen = true
  writing : ∀ t, c.io = .writing t → c.isOpen = true
  timedOut : c.timedOut = true → c.isOpen = false

section

variable {serialise : Response → Bytes} {c c' : HttpConnection}

theorem HttpConnection.Chain.served (h : c.Chain serialise) : c.Served serialise := by
  unfold Chain at h
  rcases hio : c.io with _ | ec | t | ⟨t, ec⟩ | _ <;> simp only [hio] at h
  · exact .inl ⟨h.2.1, h.2.2.2⟩
  · exact .inl ⟨h.2.1, h.2.2.2⟩
  · obtain ⟨request, hreq, hres, _, _, hwire⟩ := h
    exact .inr ⟨request, hreq, hres, hwire ▸ List.take_prefix _ _⟩
  · obtain ⟨request, hreq, hres, _, _, hwire⟩ := h
    exact .inr ⟨request, hreq, hres, hwire ▸ List.take_prefix _ _⟩
  · exact h

theorem HttpConnection.Sound.release (h : c.Sound serialise) : c.release.Sound serialise := by
  obtain ⟨hchain, hreading, hwriting, htimed⟩ := h
  refine ⟨hchain, fun hio => ?_, fun t hio => ?_, fun ht => ?_⟩
  · simp only [HttpConnection.release] at hio ⊢
    simp [hreading hio, hio]
  · simp only [HttpConnection.release] at hio ⊢
    simp [hwriting t hio, hio]
  · simp only [HttpConnection.release, htimed ht, Bool.false_and]

theorem HttpConnection.Sound.asyncReadSome (h : c.Sound serialise) {ec : ErrorCode}
    (hio : c.io = .readQueued ec) : c.asyncReadSome.Sound serialise := by
  obtain ⟨hchain, _, _, htimed⟩ := h
  simp only [Chain, hio] at hchain
  cases hopen : c.isOpen with
  | true =>
    have he : c.asyncReadSome = { c with io := .reading } := by
      simp [HttpConnection.asyncReadSome, hopen]
    rw [he]
    exact ⟨hchain, fun _ => hopen, nofun, htimed⟩
  | false =>
    have he : c.asyncReadSome = { c with io := .readQueued .failed } := by
      simp [HttpConnection.asyncReadSome, hopen]
    rw [he]
    exact ⟨hchain, nofun, nofun, htimed⟩

theorem HttpConnection.sound_asyncWriteSome {t : Transfer} {request : Request}
    (hreq : c.requests = [request]) (hres : c.responses = [request.answer])
    (hresponse : c.response = request.answer) (ht : t.length = (serialise request.answer).length)
    (hwire : c.wire = (serialise request.answer).take t.moved)
    (htimed : c.timedOut = true → c.isOpen = false) : (c.asyncWriteSome t).Sound serialise := by
  by_cases hopen : (c.isOpen && !c.sendShut) = true
  · have he : c.asyncWriteSome t = { c with io := .writing t } := by
      simp [HttpConnection.asyncWriteSome, hopen]
    rw [he]
    have hsock := (Bool.and_eq_true_iff.mp hopen).1
    exact ⟨⟨request, hreq, hres, hresponse, ht, hwire⟩, nofun, fun _ _ => hsock, htimed⟩
  · have he : c.asyncWriteSome t = { c with io := .writeQueued t .failed } := by
      simp [HttpConnection.asyncWriteSome, hopen]
    rw [he]
    exact ⟨⟨request, hreq, hres, hresponse, ht, hwire⟩, nofun, nofun, htimed⟩

theorem HttpConnection.Sound.onRead (h : c.Sound serialise) {ec : ErrorCode}
    (hio : c.io = .readQueued ec) (r : Except BeastError Request) :
    (c.onRead serialise r).Sound serialise := by
  obtain ⟨hchain, _, _, htimed⟩ := h
  simp only [Chain, hio] at hchain
  obtain ⟨hreq, hres, hresponse, hwire⟩ := hchain
  cases r with
  | ok request =>
    refine sound_asyncWriteSome (show _ = [request] by simp [hreq]) ?_ ?_ ?_ ?_ htimed
    · simp [hres, hresponse, Request.answer]
    · simp [hresponse, Request.answer]
    · simp [hresponse, Request.answer]
    · simpa using hwire
  | error => exact ⟨.inl ⟨hres, hwire⟩, nofun, nofun, htimed⟩

theorem HttpConnection.Sound.onDeadline (h : c.Sound serialise) (ec : ErrorCode) :
    (c.onDeadline ec).Sound serialise := by
  obtain ⟨hchain, hreading, hwriting, htimed⟩ := h
  unfold HttpConnection.onDeadline
  split
  · refine ⟨?_, fun hr => ?_, fun t hw => ?_, fun _ => rfl⟩
    · unfold Chain at hchain
      rcases hio : c.io with _ | ec | t | ⟨t, ec⟩ | _ <;> simp only [hio] at hchain <;>
        simp only [Chain, HttpConnection.close, hio] <;> exact hchain
    · rcases hio : c.io with _ | ec | t | ⟨t, ec⟩ | _ <;>
        simp [HttpConnection.close, hio] at hr
    · rcases hio : c.io with _ | ec | t | ⟨t, ec⟩ | _ <;>
        simp [HttpConnection.close, hio] at hw
  · exact ⟨hchain, hreading, hwriting, htimed⟩

theorem HttpConnection.sound_start (socket : Option Nat) :
    (construct socket).start.Sound serialise := by
  cases socket with
  | some i => exact ⟨⟨rfl, rfl, rfl, rfl⟩, fun _ => rfl, nofun, nofun⟩
  | none => exact ⟨⟨rfl, rfl, rfl, rfl⟩, nofun, nofun, nofun⟩

theorem HttpConnection.Sound.step {e : HttpConnectionEvent} (h : c.Sound serialise)
    (hs : c.step serialise e = some c') : c'.Sound serialise := by
  have hchain := h.chain
  have htimed := h.timedOut
  cases e with
  | readSome ec =>
    obtain ⟨hio, rfl⟩ := step_readSome hs
    simp only [Chain, hio] at hchain
    exact ⟨hchain, nofun, nofun, htimed⟩
  | read p =>
    obtain ⟨ec, hio, ⟨_, rfl⟩ | ⟨r, _, rfl⟩⟩ := step_read hs
    · exact h.asyncReadSome hio
    · exact (h.onRead hio r).release
  | writeSome n =>
    obtain ⟨t, hio, hn, rfl⟩ := step_writeSome hs
    simp only [Chain, hio] at hchain
    obtain ⟨request, hreq, hres, hresponse, ht, hwire⟩ := hchain
    refine ⟨⟨request, hreq, hres, hresponse, ht, ?_⟩, nofun, nofun, htimed⟩
    have hmoved := Transfer.take_moved_advance hn (serialise request.answer)
    rw [ht, List.take_length] at hmoved
    simp only [hwire, hresponse, hmoved]
  | writeFailed =>
    obtain ⟨t, hio, rfl⟩ := step_writeFailed hs
    simp only [Chain, hio] at hchain
    exact ⟨hchain, nofun, nofun, htimed⟩
  | write =>
    obtain ⟨t, ec, hio, ⟨_, _, rfl⟩ | rfl⟩ := step_write hs
    · simp only [Chain, hio] at hchain
      obtain ⟨request, hreq, hres, hresponse, ht, hwire⟩ := hchain
      exact sound_asyncWriteSome hreq hres hresponse ht hwire htimed
    · have hend : c.onWrite.Sound serialise := ⟨hchain.served, nofun, nofun, htimed⟩
      exact hend.release
  | expire =>
    obtain ⟨_, rfl⟩ := step_expire hs
    exact ⟨hchain, h.reading, h.writing, htimed⟩
  | deadline =>
    obtain ⟨ec, _, rfl⟩ := step_deadline hs
    exact (h.onDeadline ec).release

theorem HttpConnection.step_socket {e : HttpConnectionEvent}
    (hs : c.step serialise e = some c') : c'.socket = c.socket := by
  cases e with
  | readSome ec =>
    obtain ⟨_, rfl⟩ := step_readSome hs
    rfl
  | read p =>
    obtain ⟨ec, _, ⟨_, rfl⟩ | ⟨r, _, rfl⟩⟩ := step_read hs
    · rfl
    · cases r <;> rfl
  | writeSome n =>
    obtain ⟨t, _, _, rfl⟩ := step_writeSome hs
    rfl
  | writeFailed =>
    obtain ⟨t, _, rfl⟩ := step_writeFailed hs
    rfl
  | write =>
    obtain ⟨t, ec, _, ⟨_, _, rfl⟩ | rfl⟩ := step_write hs
    · rfl
    · rfl
  | expire =>
    obtain ⟨_, rfl⟩ := step_expire hs
    rfl
  | deadline =>
    obtain ⟨ec, _, rfl⟩ := step_deadline hs
    unfold onDeadline
    split <;> rfl

theorem HttpConnection.Sound.step_timedOut {e : HttpConnectionEvent} (h : c.Sound serialise)
    (hs : c.step serialise e = some c') (ht : c.timedOut = true) :
    c'.timedOut = true ∧ c'.wire = c.wire := by
  cases e with
  | readSome ec =>
    obtain ⟨_, rfl⟩ := step_readSome hs
    exact ⟨ht, rfl⟩
  | read p =>
    obtain ⟨ec, _, ⟨_, rfl⟩ | ⟨r, _, rfl⟩⟩ := step_read hs
    · exact ⟨ht, rfl⟩
    · cases r <;> exact ⟨ht, rfl⟩
  | writeSome n =>
    obtain ⟨t, hio, _, _⟩ := step_writeSome hs
    exact absurd ((h.timedOut ht).symm.trans (h.writing t hio)) nofun
  | writeFailed =>
    obtain ⟨t, _, rfl⟩ := step_writeFailed hs
    exact ⟨ht, rfl⟩
  | write =>
    obtain ⟨t, ec, _, ⟨_, _, rfl⟩ | rfl⟩ := step_write hs
    · exact ⟨ht, rfl⟩
    · exact ⟨ht, rfl⟩
  | expire =>
    obtain ⟨_, rfl⟩ := step_expire hs
    exact ⟨ht, rfl⟩
  | deadline =>
    obtain ⟨ec, _, rfl⟩ := step_deadline hs
    unfold HttpConnection.onDeadline
    split
    · exact ⟨rfl, rfl⟩
    · exact ⟨ht, rfl⟩

/-- A response is started by the handler of a read that has completed without error,
and by no other step. -/
theorem HttpConnection.Sound.step_responses {e : HttpConnectionEvent} (h : c.Sound serialise)
    (hs : c.step serialise e = some c') :
    c'.responses = c.responses ∨ ∃ request, e = .read (.done (.ok request)) ∧
      c.io = .readQueued .success ∧ c.responses = [] ∧ c'.responses = [request.answer] := by
  cases e with
  | readSome ec =>
    obtain ⟨_, rfl⟩ := step_readSome hs
    exact .inl rfl
  | read p =>
    obtain ⟨ec, hio, ⟨_, rfl⟩ | ⟨r, hr, rfl⟩⟩ := step_read hs
    · exact .inl rfl
    · cases r with
      | error error => exact .inl rfl
      | ok request =>
        obtain ⟨rfl, rfl⟩ := ParseStep.result_ok hr
        have hchain := h.chain
        simp only [Chain, hio] at hchain
        refine .inr ⟨request, rfl, hio, hchain.2.1, ?_⟩
        simp [HttpConnection.release, HttpConnection.onRead, HttpConnection.processRequest,
          writeResponse, asyncWriteSome, hchain.2.1, hchain.2.2.1, Request.answer]
  | writeSome n =>
    obtain ⟨t, _, _, rfl⟩ := step_writeSome hs
    exact .inl rfl
  | writeFailed =>
    obtain ⟨t, _, rfl⟩ := step_writeFailed hs
    exact .inl rfl
  | write =>
    obtain ⟨t, ec, _, ⟨_, _, rfl⟩ | rfl⟩ := step_write hs
    · exact .inl rfl
    · exact .inl rfl
  | expire =>
    obtain ⟨_, rfl⟩ := step_expire hs
    exact .inl rfl
  | deadline =>
    obtain ⟨ec, _, rfl⟩ := step_deadline hs
    unfold HttpConnection.onDeadline
    split
    · exact .inl rfl
    · exact .inl rfl

end

end ScratchServers
