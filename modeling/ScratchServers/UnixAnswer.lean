import ScratchServers.UnixDeadline
import ScratchServers.UnixProgress

/-! When the client of the Unix-socket server has its response: always, unless the
deadline closes the socket before the response has been written whole. -/

namespace ScratchServers

/-- The deadline handler runs without error, which closes the socket. -/
def HttpExchange.TimesOut (s : HttpExchange) (e : HttpExchangeEvent) : Prop :=
  e = .server .deadline ∧ s.server.deadline = .queued .success

/-- The response is on its way, and nothing has gone wrong. -/
structure HttpExchange.Smooth (s : HttpExchange) : Prop where
  client : (∃ t, s.client.op = .write t) ∨ s.client.op = .read
  opened : s.server.isOpen = true
  unshut : s.server.sendShut = false
  reading : ∀ ec, s.server.io = .readQueued ec → ec = .success
  writing : ∀ t ec, s.server.io = .writeQueued t ec → ec = .success
  going : s.server.io ≠ .ended
  deadline : s.server.deadline = .armed ∨ s.server.deadline = .queued .success

/-- The response has been written whole, and the chain has its last handler to run. -/
structure HttpExchange.Closing (k : HttpCodec) (s : HttpExchange) : Prop where
  whole : s.server.wire = k.answer
  last : (∃ t, s.server.io = .writeQueued t .success) ∨ s.server.io = .ended
  prompt : s.server.Prompt

structure HttpExchange.Answered (k : HttpCodec) (s : HttpExchange) : Prop extends s.Ended k where
  succeeded : s.client.op = .succeeded
  whole : s.server.wire = k.answer

section

variable {k : HttpCodec} {up down : Nat} {s s' : HttpExchange}

/-- The transfer has something left exactly while the response is not whole. -/
theorem HttpExchange.Sound.left_pos_iff (h : s.Sound k) {t : Transfer}
    (hio : s.server.io = .writing t ∨ ∃ ec, s.server.io = .writeQueued t ec) :
    0 < t.left ↔ s.server.wire ≠ k.answer := by
  obtain ⟨request, hreq, hlength, htaken⟩ : ∃ request, s.server.requests = [request] ∧
      t.length = (k.serialise request.answer).length ∧
      s.server.wire = (k.serialise request.answer).take t.moved := by
    have hchain := h.server.chain
    rcases hio with hio | ⟨ec, hio⟩
    · simp only [HttpConnection.Chain, hio] at hchain
      obtain ⟨request, hreq, _, _, hlength, hwire⟩ := hchain
      exact ⟨request, hreq, hlength, hwire⟩
    · simp only [HttpConnection.Chain, hio] at hchain
      obtain ⟨request, hreq, _, _, hlength, hwire⟩ := hchain
      exact ⟨request, hreq, hlength, hwire⟩
  obtain ⟨rfl, _⟩ := h.requests request (by simp [hreq])
  have hmoved := t.moved_add_left
  change t.length = k.answer.length at hlength
  change s.server.wire = k.answer.take t.moved at htaken
  constructor
  · intro hpos hwhole
    have htake := congrArg List.length (htaken.symm.trans hwhole)
    rw [List.length_take] at htake
    omega
  · intro hpart
    by_contra hno
    refine hpart (htaken.trans (List.take_of_length_le ?_))
    omega

/-- What the server's own step makes of a response that is not whole before it. -/
theorem HttpExchange.Smooth.server_step (hk : k.Faithful) (hsound : s.Sound k) (h : s.Smooth)
    (hwire : s.server.wire ≠ k.answer) {e : HttpConnectionEvent} (hadmits : s.Admits k down e)
    (he : ¬ s.TimesOut (.server e)) {c : HttpConnection}
    (hs : s.server.step k.serialise e = some c) :
    ({ s with server := c } : HttpExchange).Smooth := by
  have hundone : s.client.done = false := by
    rcases h.client with ⟨t, hop⟩ | hop <;> simp [UClient.done, hop]
  cases e with
  | readSome ec => exact absurd hadmits.2.2 (by simp [hundone])
  | read p =>
    obtain ⟨ec, hio, ⟨_, rfl⟩ | ⟨r, hr, rfl⟩⟩ := HttpConnection.step_read hs
    · refine ⟨h.client, h.opened, h.unshut, ?_, ?_, HttpConnection.asyncReadSome_going, h.deadline⟩
      · simp [HttpConnection.asyncReadSome, h.opened]
      · simp [HttpConnection.asyncReadSome, h.opened]
    · obtain rfl := h.reading ec hio
      have hp : p = k.parseStep s.read := hadmits
      have hparse : k.parse s.read = some r := by
        cases hparse : k.parse s.read <;>
          simp_all [ParseStep.result, HttpCodec.parseStep]
      have hprefix : s.read <+: k.text := (List.prefix_append _ _).trans hsound.arriving
      obtain ⟨_, rfl⟩ := hk.request.of_prefix hprefix hparse
      have hafter : (s.server.onRead k.serialise (.ok UClient.req)).io =
          .writing (.start (k.serialise
            (s.server.response.processRequest UClient.req |>.contentLength
              (s.server.response.processRequest UClient.req).body.utf8ByteSize)).length) := by
        simp [HttpConnection.onRead, HttpConnection.processRequest, HttpConnection.writeResponse,
          HttpConnection.asyncWriteSome, h.opened, h.unshut]
      have hopen : (s.server.onRead k.serialise (.ok UClient.req)).release.isOpen = true := by
        have hkept : (s.server.onRead k.serialise (.ok UClient.req)).isOpen = true := h.opened
        simp [HttpConnection.release, hafter, hkept]
      refine ⟨h.client, hopen, h.unshut, ?_, ?_, ?_, h.deadline⟩
      · intro ec hec
        exact absurd (hafter.symm.trans hec) (by simp)
      · intro t ec hec
        exact absurd (hafter.symm.trans hec) (by simp)
      · intro hended
        exact absurd (hafter.symm.trans hended) (by simp)
  | writeSome n =>
    obtain ⟨t, _, _, rfl⟩ := HttpConnection.step_writeSome hs
    exact ⟨h.client, h.opened, h.unshut, by simp, by simp, by simp, h.deadline⟩
  | writeFailed => exact absurd hadmits (by simp [HttpExchange.Admits, hundone])
  | write =>
    obtain ⟨t, ec, hio, hcase⟩ := HttpConnection.step_write hs
    obtain rfl := h.writing t ec hio
    have hleft := (hsound.left_pos_iff (.inr ⟨_, hio⟩)).mpr hwire
    have hc : c = { s.server with io := .writing t } := by
      simp only [HttpConnection.step, hio, hleft, and_self, if_true, Option.some.injEq] at hs
      rw [← hs]
      simp [HttpConnection.asyncWriteSome, h.opened, h.unshut]
    subst hc
    exact ⟨h.client, h.opened, h.unshut, by simp, by simp, by simp, h.deadline⟩
  | expire =>
    obtain ⟨_, rfl⟩ := HttpConnection.step_expire hs
    exact ⟨h.client, h.opened, h.unshut, h.reading, h.writing, h.going, .inr rfl⟩
  | deadline =>
    obtain ⟨ec, hqueued, _⟩ := HttpConnection.step_deadline hs
    rcases h.deadline with harmed | hexpired
    · exact absurd (harmed.symm.trans hqueued) (by simp)
    · exact absurd ⟨rfl, hexpired⟩ he

theorem HttpExchange.Closing.server_step (hsound : s.Sound k) (h : s.Closing k)
    {e : HttpConnectionEvent} {c : HttpConnection} (hs : s.server.step k.serialise e = some c) :
    ({ s with server := c } : HttpExchange).Closing k := by
  have hstopped : (∀ ec, s.server.io ≠ .readQueued ec) ∧ s.server.io ≠ .reading ∧
      ∀ t, s.server.io ≠ .writing t := by
    rcases h.last with ⟨t, hio⟩ | hio <;> simp [hio]
  cases e with
  | readSome ec => exact absurd (HttpConnection.step_readSome hs).1 hstopped.2.1
  | read p =>
    obtain ⟨ec, hio, _⟩ := HttpConnection.step_read hs
    exact absurd hio (hstopped.1 ec)
  | writeSome n =>
    obtain ⟨t, hio, _⟩ := HttpConnection.step_writeSome hs
    exact absurd hio (hstopped.2.2 t)
  | writeFailed =>
    obtain ⟨t, hio, _⟩ := HttpConnection.step_writeFailed hs
    exact absurd hio (hstopped.2.2 t)
  | write =>
    obtain ⟨t, ec, hio, ⟨_, hleft, _⟩ | rfl⟩ := HttpConnection.step_write hs
    · exact absurd h.whole ((hsound.left_pos_iff (.inr ⟨ec, hio⟩)).mp hleft)
    · exact ⟨h.whole, .inr rfl, HttpConnection.onWrite_prompt⟩
  | expire =>
    obtain ⟨_, rfl⟩ := HttpConnection.step_expire hs
    exact ⟨h.whole, h.last, fun _ => by simp⟩
  | deadline =>
    obtain ⟨ec, _, rfl⟩ := HttpConnection.step_deadline hs
    by_cases hec : ec = .success
    · refine ⟨?_, ?_, fun _ => ?_⟩
      · simpa [HttpConnection.onDeadline, hec, HttpConnection.release, HttpConnection.close]
          using h.whole
      · rcases h.last with ⟨t, hio⟩ | hio <;>
          simp [HttpConnection.onDeadline, hec, HttpConnection.release, HttpConnection.close, hio]
      · simp [HttpConnection.onDeadline, hec, HttpConnection.release]
    · refine ⟨?_, ?_, fun _ => ?_⟩
      · simpa [HttpConnection.onDeadline, hec, HttpConnection.release] using h.whole
      · simpa [HttpConnection.onDeadline, hec, HttpConnection.release] using h.last
      · simp [HttpConnection.onDeadline, hec, HttpConnection.release]

theorem HttpExchange.Smooth.client_step (hk : k.Faithful) (hsound : s.Sound k) (h : s.Smooth)
    (hwire : s.server.wire ≠ k.answer) {e : UClientEvent} (hs : s.clientStep k up e = some s') :
    s'.Smooth := by
  cases e with
  | writeSome n =>
    obtain ⟨t, _, _, _, rfl⟩ := client_writeSome.mp hs
    exact { h with client := .inl ⟨_, rfl⟩ }
  | write =>
    obtain ⟨t, _, _, rfl⟩ := client_write.mp hs
    exact { h with client := .inr rfl }
  | writeFails =>
    obtain ⟨t, _, hclosed, _⟩ := client_writeFails.mp hs
    exact absurd hclosed (by simp [h.opened])
  | readSome n =>
    have hnext := hsound.readSome hk hs
    obtain ⟨hop, _, _, rfl⟩ := client_readSome.mp hs
    cases hparse : k.parseResponse (s.client.got ++ s.unseen.take n) with
    | none => exact { h with client := .inr (by simp [UClient.parsed, hop]) }
    | some r =>
      have hgot : s.client.got ++ s.unseen.take n <+: s.server.wire := by
        rw [hsound.received, unseen, ← List.take_add]
        exact List.take_prefix _ _
      obtain ⟨hwhole, _⟩ := hsound.parsed_ok hk hgot hparse
      exact absurd (hsound.wire_prefix.eq_of_length_le (hwhole ▸ hgot.length_le)) hwire
  | readEof =>
    obtain ⟨_, _, hshut, _⟩ := client_readEof.mp hs
    exact absurd hshut (by simp [HttpConnection.shut, h.opened, h.unshut])
  | readFails =>
    obtain ⟨_, hclosed, _⟩ := client_readFails.mp hs
    exact absurd hclosed (by simp [h.opened])
  | shutdown r =>
    obtain ⟨hop, _⟩ := client_shutdown.mp hs
    rcases h.client with ⟨t, hclient⟩ | hclient <;> simp [hclient] at hop

theorem HttpExchange.client_server {e : UClientEvent} (hs : s.clientStep k up e = some s') :
    s'.server = s.server := by
  cases e with
  | writeSome n =>
    obtain ⟨t, _, _, _, rfl⟩ := client_writeSome.mp hs
    rfl
  | write =>
    obtain ⟨t, _, _, rfl⟩ := client_write.mp hs
    rfl
  | writeFails =>
    obtain ⟨t, _, _, _, rfl⟩ := client_writeFails.mp hs
    rfl
  | readSome n =>
    obtain ⟨_, _, _, rfl⟩ := client_readSome.mp hs
    rfl
  | readEof =>
    obtain ⟨_, _, _, rfl⟩ := client_readEof.mp hs
    rfl
  | readFails =>
    obtain ⟨_, _, _, rfl⟩ := client_readFails.mp hs
    rfl
  | shutdown r =>
    obtain ⟨_, rfl⟩ := client_shutdown.mp hs
    rfl

/-- The response is on its way, or it is whole. -/
structure HttpExchange.OnCourse (k : HttpCodec) (s : HttpExchange) : Prop where
  sound : s.Sound k
  course : (s.Smooth ∧ s.server.wire ≠ k.answer) ∨ s.Closing k

/-- The deadline has closed the socket before the response was whole. -/
structure HttpExchange.CutOff (k : HttpCodec) (s : HttpExchange) : Prop where
  sound : s.Sound k
  timedOut : s.server.timedOut = true
  part : s.server.wire ≠ k.answer

theorem HttpExchange.OnCourse.step (hk : k.Faithful) (h : s.OnCourse k) {e : HttpExchangeEvent}
    (he : s.TimesOut e → s.server.wire = k.answer) (hs : s.step k up down e = some s') :
    s'.OnCourse k := by
  refine ⟨h.sound.step hk hs, ?_⟩
  rcases h.course with ⟨hsmooth, hpart⟩ | hclosing
  · have hno : ¬ s.TimesOut e := fun htimes => hpart (he htimes)
    cases e with
    | client e =>
      have hserver := client_server hs
      exact .inl ⟨hsmooth.client_step hk h.sound hpart hs, by rw [hserver]; exact hpart⟩
    | arrive n =>
      obtain ⟨_, _, c, hc, rfl⟩ := step_arrive.mp hs
      obtain ⟨_, rfl⟩ := HttpConnection.step_readSome hc
      exact .inl ⟨⟨hsmooth.client, hsmooth.opened, hsmooth.unshut, by simp, by simp, by simp,
        hsmooth.deadline⟩, hpart⟩
    | server e =>
      obtain ⟨hadmits, c, hc, rfl⟩ := step_server.mp hs
      have hnext := hsmooth.server_step hk h.sound hpart hadmits hno hc
      by_cases hwhole : c.wire = k.answer
      · right
        rcases HttpConnection.step_wire hc with hwire | ⟨n, _, rfl, _⟩
        · exact absurd (hwire.symm.trans hwhole) hpart
        · obtain ⟨t, _, _, rfl⟩ := HttpConnection.step_writeSome hc
          exact ⟨hwhole, .inl ⟨_, rfl⟩, fun hended => absurd hended (by simp)⟩
      · exact .inl ⟨hnext, hwhole⟩
  · right
    cases e with
    | client e =>
      have hserver := client_server hs
      exact ⟨by rw [hserver]; exact hclosing.whole, by rw [hserver]; exact hclosing.last,
        by rw [hserver]; exact hclosing.prompt⟩
    | arrive n =>
      obtain ⟨_, _, c, hc, _⟩ := step_arrive.mp hs
      have hreading := (HttpConnection.step_readSome hc).1
      rcases hclosing.last with ⟨t, hio⟩ | hio <;> simp [hio] at hreading
    | server e =>
      obtain ⟨_, c, hc, rfl⟩ := step_server.mp hs
      exact hclosing.server_step h.sound hc

theorem HttpExchange.OnCourse.cutOff (hk : k.Faithful) (h : s.OnCourse k) {e : HttpExchangeEvent}
    (he : ¬ (s.TimesOut e → s.server.wire = k.answer)) (hs : s.step k up down e = some s') :
    s'.CutOff k := by
  obtain ⟨⟨rfl, hqueued⟩, hpart⟩ := Classical.not_imp.mp he
  have hsound := h.sound.step hk hs
  obtain ⟨_, c, hc, rfl⟩ := step_server.mp hs
  obtain ⟨ec, hec, rfl⟩ := HttpConnection.step_deadline hc
  obtain rfl : ErrorCode.success = ec := by simpa using hqueued.symm.trans hec
  exact ⟨hsound, rfl, hpart⟩

theorem HttpExchange.CutOff.step (hk : k.Faithful) (h : s.CutOff k) {e : HttpExchangeEvent}
    (hs : s.step k up down e = some s') : s'.CutOff k := by
  have hsound := h.sound.step hk hs
  have hserver : s'.server.timedOut = true ∧ s'.server.wire = s.server.wire := by
    cases e with
    | client e =>
      have hsame := client_server hs
      exact ⟨by rw [hsame]; exact h.timedOut, by rw [hsame]⟩
    | arrive n =>
      obtain ⟨_, _, c, hc, rfl⟩ := step_arrive.mp hs
      exact h.sound.server.step_timedOut hc h.timedOut
    | server e =>
      obtain ⟨_, c, hc, rfl⟩ := step_server.mp hs
      exact h.sound.server.step_timedOut hc h.timedOut
  exact ⟨hsound, hserver.1, by rw [hserver.2]; exact h.part⟩

theorem HttpExchange.onCourse_start (hk : k.Faithful) (socket : Nat) :
    (HttpExchange.start k socket).OnCourse k := by
  refine ⟨sound_start hk socket, .inl ⟨?_, ?_⟩⟩
  · have hio : (start k socket).server.io = .reading := rfl
    exact ⟨.inl ⟨_, rfl⟩, rfl, rfl, by simp [hio], by simp [hio], by simp [hio], .inl rfl⟩
  · exact Ne.symm hk.response.nonempty

theorem HttpExchange.OnCourse.printed (h : s.OnCourse k)
    (hstuck : (httpExchange k up down).Stuck s) :
    s.client.printed = some UClient.req.answer := by
  have hended := h.sound.ended_of_stuck hstuck
  apply hended.printed.mpr
  rcases h.course with ⟨hsmooth, _⟩ | hclosing
  · rcases hsmooth.deadline with hd | hd
    · exact absurd (hended.server.deadline.symm.trans hd) (by simp)
    · exact absurd (hended.server.deadline.symm.trans hd) (by simp)
  · exact hclosing.whole

theorem HttpExchange.CutOff.unprinted (h : s.CutOff k)
    (hstuck : (httpExchange k up down).Stuck s) :
    s.client.printed ≠ some UClient.req.answer :=
  fun hprinted => h.part ((h.sound.ended_of_stuck hstuck).printed.mp hprinted)

/-- Of every run to its end: the client has printed the answer if and only if the
deadline handler, where it ran, came after the whole response. -/
theorem uclient_prints_iff (hk : k.Faithful) {socket : Nat} {ls : List HttpExchangeEvent}
    (hr : (httpExchange k up down).run (.start k socket) ls = some s)
    (hstuck : (httpExchange k up down).Stuck s) :
    s.client.printed = some UClient.req.answer ↔
      (httpExchange k up down).StepsMeet (fun s e => s.TimesOut e → s.server.wire = k.answer)
        (.start k socket) ls := by
  have hend := System.stepsMeet_or_of_run (m := httpExchange k up down)
    (J := HttpExchange.OnCourse k) (D := HttpExchange.CutOff k)
    (C := fun s e => s.TimesOut e → s.server.wire = k.answer)
    (fun _ _ _ h he hs => h.step hk he hs) (fun _ _ _ h he hs => h.cutOff hk he hs)
    (fun _ _ _ h hs => h.step hk hs) (HttpExchange.onCourse_start hk socket) hr
  rcases hend with ⟨hmeet, hcourse⟩ | ⟨hno, hcut⟩
  · exact iff_of_true (hcourse.printed hstuck) hmeet
  · exact iff_of_false (hcut.unprinted hstuck) hno

/-- The timer has not expired, and the client has not failed. -/
structure HttpExchange.Calm (k : HttpCodec) (s : HttpExchange) : Prop extends s.OnCourse k where
  unexpired : s.server.deadline ≠ .queued .success
  unfailed : s.client.op ≠ .failed

theorem HttpConnection.step_expired {serialise : Response → Bytes} {c c' : HttpConnection}
    {e : HttpConnectionEvent} (hs : c.step serialise e = some c') (he : e ≠ .expire)
    (hd : c.deadline ≠ .queued .success) : c'.deadline ≠ .queued .success := by
  cases e with
  | readSome ec =>
    obtain ⟨_, rfl⟩ := step_readSome hs
    exact hd
  | read p =>
    obtain ⟨ec, _, ⟨_, rfl⟩ | ⟨r, _, rfl⟩⟩ := step_read hs
    · exact hd
    · cases r <;> exact hd
  | writeSome n =>
    obtain ⟨t, _, _, rfl⟩ := step_writeSome hs
    exact hd
  | writeFailed =>
    obtain ⟨t, _, rfl⟩ := step_writeFailed hs
    exact hd
  | write =>
    obtain ⟨t, ec, _, ⟨_, _, rfl⟩ | rfl⟩ := step_write hs
    · exact hd
    · by_cases harmed : c.deadline = .armed <;>
        simp [HttpConnection.release, onWrite, cancel, harmed, hd]
  | expire => exact absurd rfl he
  | deadline =>
    obtain ⟨ec, _, rfl⟩ := step_deadline hs
    by_cases hec : ec = .success <;> simp [HttpConnection.release, onDeadline, hec]

theorem UClient.printed_of_failed {c : UClient} {r : Option (Except BeastError Response)}
    (hnone : c.printed = none) (h : (c.parsed r).op = .failed) : (c.parsed r).printed = none := by
  rcases r with _ | error | response
  · exact hnone
  · exact hnone
  · exact absurd h (by simp [parsed])

/-- A client that fails before its `shutdown` has not printed anything. -/
theorem HttpExchange.Sound.client_failed (h : s.Sound k) {e : UClientEvent}
    (hs : s.clientStep k up e = some s') (hfailed : s'.client.op = .failed)
    (he : e ≠ .shutdown .failed) : s'.client.printed = none := by
  have hplace := h.place
  cases e with
  | writeSome n =>
    obtain ⟨t, _, _, _, rfl⟩ := client_writeSome.mp hs
    exact absurd hfailed (by simp)
  | write =>
    obtain ⟨t, _, _, rfl⟩ := client_write.mp hs
    exact absurd hfailed (by simp)
  | writeFails =>
    obtain ⟨t, hop, _, _, rfl⟩ := client_writeFails.mp hs
    simp only [Place, hop] at hplace
    exact hplace.2.2
  | readSome n =>
    obtain ⟨hop, _, _, rfl⟩ := client_readSome.mp hs
    simp only [Place, hop] at hplace
    exact UClient.printed_of_failed hplace.2.2 hfailed
  | readEof =>
    obtain ⟨hop, _, _, rfl⟩ := client_readEof.mp hs
    simp only [Place, hop] at hplace
    exact UClient.printed_of_failed hplace.2.2 hfailed
  | readFails =>
    obtain ⟨hop, _, _, rfl⟩ := client_readFails.mp hs
    simp only [Place, hop] at hplace
    exact hplace.2.2
  | shutdown r =>
    obtain ⟨_, rfl⟩ := client_shutdown.mp hs
    have hr : r ≠ .failed := fun hr => he (hr ▸ rfl)
    exact absurd hfailed (by simp [hr])

theorem HttpExchange.Calm.step (hk : k.Faithful) (h : s.Calm k) {e : HttpExchangeEvent}
    (he : e.calm = true) (hs : s.step k up down e = some s') : s'.Calm k := by
  have hnext := h.toOnCourse.step hk (fun htimes => absurd htimes.2 h.unexpired) hs
  refine ⟨hnext, ?_, ?_⟩
  · cases e with
    | client e =>
      rw [client_server hs]
      exact h.unexpired
    | arrive n =>
      obtain ⟨_, _, c, hc, rfl⟩ := step_arrive.mp hs
      exact HttpConnection.step_expired hc (by simp) h.unexpired
    | server e =>
      obtain ⟨_, c, hc, rfl⟩ := step_server.mp hs
      refine HttpConnection.step_expired hc ?_ h.unexpired
      rintro rfl
      exact absurd he (by simp [HttpExchangeEvent.calm])
  · intro hfailed
    cases e with
    | client e =>
      have hshutdown : e ≠ .shutdown .failed := by
        rintro rfl
        exact absurd he (by simp [HttpExchangeEvent.calm])
      have hnone := h.sound.client_failed hs hfailed hshutdown
      have hplace := hnext.sound.place
      simp only [Place, hfailed] at hplace
      rcases hnext.course with ⟨hsmooth, _⟩ | hclosing
      · rcases hsmooth.client with ⟨t, hop⟩ | hop <;> simp [hop] at hfailed
      · exact hplace hnone hclosing.whole
    | arrive n =>
      obtain ⟨_, _, c, _, rfl⟩ := step_arrive.mp hs
      exact h.unfailed hfailed
    | server e =>
      obtain ⟨_, c, _, rfl⟩ := step_server.mp hs
      exact h.unfailed hfailed

/-- As long as the response is not whole, one of the two sides has something to do. -/
theorem HttpExchange.Smooth.not_idle (hk : k.Faithful) (hup : 1 ≤ up) (hdown : 1 ≤ down)
    (hsound : s.Sound k) (h : s.Smooth) (hpart : s.server.wire ≠ k.answer) :
    ∃ e t, HttpExchangeEvent.calm e = true ∧ s.step k up down e = some t := by
  have hroom : ∀ (cap : Nat) (q : Bytes), 1 ≤ cap → q = [] → Room (some cap) q 1 := by
    rintro cap _ hcap rfl c ⟨⟩
    simpa using hcap
  have harrive : s.server.io = .reading → s.inbox ≠ [] →
      ∃ e t, HttpExchangeEvent.calm e = true ∧ s.step k up down e = some t := by
    intro hio hinbox
    exact ⟨.arrive 1, _, rfl, step_arrive.mpr ⟨Nat.one_pos, List.length_pos_iff.mpr hinbox,
      { s.server with io := .readQueued .success }, by simp [HttpConnection.step, hio], rfl⟩⟩
  have hwrite : ∀ t, s.client.op = .write t → t.left = 0 →
      ∃ e t, HttpExchangeEvent.calm e = true ∧ s.step k up down e = some t := by
    intro t hop hleft
    exact ⟨.client .write, _, rfl, step_client.mpr (client_write.mpr ⟨t, hop, hleft, rfl⟩)⟩
  have hplace := hsound.place
  cases hio : s.server.io with
  | reading =>
    have hread : s.read ≠ k.text := by
      intro hwhole
      have hnone := hsound.parsing hio
      rw [hwhole, hk.request.whole] at hnone
      exact absurd hnone (by simp)
    rcases h.client with ⟨t, hop⟩ | hop
    · by_cases hleft : t.left = 0
      · exact hwrite t hop hleft
      · by_cases hinbox : s.inbox = []
        · have haccept := Transfer.canAccept_one (t := t) (Nat.pos_of_ne_zero hleft)
            (hroom up s.inbox hup hinbox)
          exact ⟨.client (.writeSome 1), _, rfl,
            step_client.mpr (client_writeSome.mpr ⟨t, hop, h.opened, haccept, rfl⟩)⟩
        · exact harrive hio hinbox
    · simp only [Place, hop] at hplace
      refine harrive hio fun hinbox => hread ?_
      have hsent := hplace.1
      rwa [hinbox, List.append_nil] at hsent
  | readQueued ec =>
    obtain ⟨c, hc⟩ := HttpConnection.read_enabled k.serialise hio (k.parseStep s.read)
    exact ⟨.server (.read (k.parseStep s.read)), _, rfl, step_server.mpr ⟨rfl, c, hc, rfl⟩⟩
  | writing t =>
    have hleft := (hsound.left_pos_iff (.inl hio)).mpr hpart
    by_cases hunseen : s.unseen = []
    · have hundone : s.client.done = false := by
        rcases h.client with ⟨t, hop⟩ | hop <;> simp [UClient.done, hop]
      have hone : 1 ≤ t.left := hleft
      obtain ⟨c, hc⟩ : ∃ c, s.server.step k.serialise (.writeSome 1) = some c := by
        simp [HttpConnection.step, hio, hone]
      exact ⟨.server (.writeSome 1), _, rfl, step_server.mpr
        ⟨⟨hundone, hroom down s.unseen hdown hunseen⟩, c, hc, rfl⟩⟩
    · rcases h.client with ⟨u, hop⟩ | hop
      · refine hwrite u hop ?_
        have hwire : s.server.wire ≠ [] := by
          intro hnil
          exact hunseen (by simp [unseen, hnil])
        obtain ⟨hread, hinbox⟩ := hsound.read_whole hwire
        simp only [Place, hop, hread, hinbox, List.append_nil] at hplace
        have hlength := congrArg List.length hplace.1.2
        rw [List.length_append, Transfer.length_unsent (Nat.le_of_eq hplace.1.1)] at hlength
        omega
      · exact ⟨.client (.readSome 1), _, rfl, step_client.mpr (client_readSome.mpr
          ⟨hop, Nat.one_pos, List.length_pos_iff.mpr hunseen, rfl⟩)⟩
  | writeQueued t ec =>
    obtain ⟨c, hc⟩ := HttpConnection.write_enabled k.serialise hio
    exact ⟨.server .write, _, rfl, step_server.mpr ⟨trivial, c, hc, rfl⟩⟩
  | ended => exact absurd hio h.going

theorem HttpExchange.Calm.answered (hk : k.Faithful) (hup : 1 ≤ up) (hdown : 1 ≤ down)
    (h : s.Calm k)
    (hidle : ∀ e t, HttpExchangeEvent.calm e = true → s.step k up down e ≠ some t) :
    s.Answered k := by
  have hclosing : s.Closing k := by
    rcases h.course with ⟨hsmooth, hpart⟩ | hclosing
    · obtain ⟨e, t, he, ht⟩ := hsmooth.not_idle hk hup hdown h.sound hpart
      exact absurd ht (hidle e t he)
    · exact hclosing
  have hio : s.server.io = .ended := by
    rcases hclosing.last with ⟨t, hio⟩ | hio
    · obtain ⟨c, hc⟩ := HttpConnection.write_enabled k.serialise hio
      exact (hidle (.server .write) _ rfl (step_server.mpr ⟨trivial, c, hc, rfl⟩)).elim
    · exact hio
  have hdone := deadline_done (fun t => hidle (.server .deadline) t rfl) (hclosing.prompt hio)
  have hended := h.sound.ended hidle hdone
  refine ⟨hended, ?_, hclosing.whole⟩
  have hclient := hended.client
  cases hop : s.client.op with
  | succeeded => rfl
  | failed => exact absurd hop h.unfailed
  | _ => simp [UClient.done, hop] at hclient

/-- Unless the timer expires, the client prints the answer and returns, however
small the queues are that can carry the two messages. -/
theorem uclient_answered (hk : k.Faithful) (hup : 1 ≤ up) (hdown : 1 ≤ down) (socket : Nat) :
    ((httpExchange k up down).only fun _ e => e.calm = true).Completes (HttpExchange.Answered k)
      (HttpExchange.bound k) (.start k socket) := by
  have hstart := HttpExchange.onCourse_start hk socket
  have hcompletes := System.completes_of_measure
    (m := (httpExchange k up down).only fun _ e => e.calm = true)
    (I := HttpExchange.Calm k) (Q := HttpExchange.Answered k) (μ := HttpExchange.remaining k)
    (fun _ _ _ hs ht => hs.step hk (System.step_only.mp ht).1 (System.step_only.mp ht).2)
    (fun _ _ _ hs ht => hs.sound.step_remaining hk (System.step_only.mp ht).2)
    (fun _ hs hstuck => hs.answered hk hup hdown (System.stuck_only.mp hstuck))
    ⟨hstart, by simp [HttpExchange.start, HttpConnection.start, HttpConnection.checkDeadline],
      by simp [HttpExchange.start, UClient.start]⟩
  exact hcompletes.mono (fun _ => id) (Nat.le_of_eq (HttpExchange.remaining_start socket))

end

/-- The deadline handler runs when ten bytes of the response have been written. -/
def cutOff : List HttpExchangeEvent :=
  [.client (.writeSome 52), .client .write, .arrive 52, .server (.read (.done (.ok UClient.req))),
    .server (.writeSome 10), .server .expire, .server .deadline, .client (.readSome 10),
    .client .readEof, .server .write, .server .write]

/-- A check that nothing more can happen, and that nothing has been printed. -/
def HttpExchange.endsUnprinted (s : HttpExchange) : Bool :=
  s.client.done && s.server.io = .ended && s.server.deadline = .done && !s.server.isOpen &&
    s.client.printed.isNone

theorem HttpExchange.stuck_of_endsUnprinted {k : HttpCodec} {up down : Nat} {s : HttpExchange}
    (h : s.endsUnprinted = true) :
    (httpExchange k up down).Stuck s ∧ s.client.printed = none := by
  simp only [endsUnprinted, Bool.and_eq_true, decide_eq_true_eq, Bool.not_eq_true',
    Option.isNone_iff_eq_none] at h
  obtain ⟨⟨⟨⟨hdone, hio⟩, hdeadline⟩, hclosed⟩, hprinted⟩ := h
  exact ⟨stuck_of_done hdone ⟨hio, hdeadline, hclosed⟩, hprinted⟩

theorem uclient_prints_iff_count : ∃ s,
    (httpExchange countCodec 64 64).run (.start countCodec 0) cutOff = some s ∧
    (httpExchange countCodec 64 64).Stuck s ∧ s.client.printed = none ∧
    ¬ (httpExchange countCodec 64 64).StepsMeet
      (fun s e => s.TimesOut e → s.server.wire = countCodec.answer)
      (.start countCodec 0) cutOff := by
  obtain ⟨s, hr, hend⟩ : ∃ s,
      (httpExchange countCodec 64 64).run (.start countCodec 0) cutOff = some s ∧
        s.endsUnprinted = true :=
    (Option.any_eq_true _ _).mp (by decide +kernel)
  obtain ⟨hstuck, hprinted⟩ := HttpExchange.stuck_of_endsUnprinted hend
  refine ⟨s, hr, hstuck, hprinted, fun hmeet => ?_⟩
  have hanswer := (uclient_prints_iff countCodec_faithful hr hstuck).mpr hmeet
  exact absurd (hprinted.symm.trans hanswer) (by simp)

theorem uclient_answered_count :
    ((httpExchange countCodec 1 1).only fun _ e => e.calm = true).Completes
      (HttpExchange.Answered countCodec) (HttpExchange.bound countCodec) (.start countCodec 0) :=
  uclient_answered countCodec_faithful (Nat.le_refl 1) (Nat.le_refl 1) 0

end ScratchServers
