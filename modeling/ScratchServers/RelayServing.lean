import ScratchServers.RelayEcho

/-! A relay session that meets no error and gets the whole echo of each chunk. -/

namespace ScratchServers

def RelayOp.forwarding : RelayOp → Bool
  | .connect _ | .forwardWrite _ | .forwardRead => true
  | _ => false

/-- A session that meets no error and gets the whole echo of each chunk: outside
a chunk it waits for nothing, and within one it owes the client something. -/
structure RelaySession.Serving (conns : List EchoConnection) (s : RelaySession) : Prop where
  unbroken : s.Unbroken conns
  settled : ∀ op, s.pending = some op → op.forwarding = false → s.Awaits conns []
  owing : ∀ op, s.pending = some op → op.forwarding = true →
    s.stream.returned.length < s.stream.chunks.flatten.length
  wired : (s.pending = some .forwardRead ∨ ∃ t, s.pending = some (.forwardWrite t)) →
    ∃ c conn, s.socket = some c ∧ conns[c]? = some conn
  alive : ∀ c conn, s.socket = some c → conns[c]? = some conn →
    conn.nearOpen = true ∧ conn.Live

section

variable {conns conns' : List EchoConnection} {s s' : RelaySession}

theorem RelaySession.Serving.unique (h : s.Serving conns) {rest rest' : Bytes}
    (hr : s.Awaits conns rest) (hr' : s.Awaits conns rest') : rest = rest' := by
  unfold Awaits at hr hr'
  rcases hsock : s.socket with _ | c <;> simp only [hsock] at hr hr'
  · exact hr.trans hr'.symm
  · obtain ⟨conn, hc, hcarries⟩ := hr
    obtain ⟨conn', hc', hcarries'⟩ := hr'
    obtain rfl : conn = conn' := Option.some.inj (hc.symm.trans hc')
    have hlive := (h.alive c conn hsock hc).2
    exact (hcarries.2 hlive).symm.trans (hcarries'.2 hlive)

theorem RelaySession.step_alive {e : RelayEvent} (hs : s.step conns e = some (s', conns'))
    (h : ∀ c conn, s.socket = some c → conns[c]? = some conn → conn.nearOpen = true ∧ conn.Live) :
    ∀ c conn, s'.socket = some c → conns'[c]? = some conn → conn.nearOpen = true ∧ conn.Live := by
  intro i conn' hi hc'
  rcases step_table hs with ⟨rfl, hsock⟩ | ⟨_, hsock⟩ | ⟨rfl, hsock⟩ |
    ⟨c, conn, up, down, hc, hconn, rfl, hsock⟩
  · exact h i conn' (hsock ▸ hi) hc'
  · exact absurd (hsock ▸ hi) nofun
  · obtain rfl : conns.length = i := Option.some.inj (hsock ▸ hi)
    rw [List.getElem?_concat_length] at hc'
    obtain rfl := Option.some.inj hc'
    exact ⟨rfl, nofun⟩
  · obtain rfl : c = i := Option.some.inj (hc.symm.trans (hsock ▸ hi))
    rw [List.getElem?_set_self (lt_length_of_getElem? hconn)] at hc'
    obtain rfl := Option.some.inj hc'
    exact h c conn hc hconn

theorem RelaySession.Serving.of_settled {op : RelayOp} (hp : s.pending = some op)
    (hf : op.forwarding = false) (hunbroken : s.Unbroken conns) (hw : s.Awaits conns [])
    (halive : ∀ c conn, s.socket = some c → conns[c]? = some conn →
      conn.nearOpen = true ∧ conn.Live) : s.Serving conns := by
  refine ⟨hunbroken, fun _ _ _ => hw, fun op' hp' hf' => ?_, fun hwired => ?_, halive⟩
  · obtain rfl : op = op' := Option.some.inj (hp.symm.trans hp')
    exact absurd (hf.symm.trans hf') nofun
  · rw [hp] at hwired
    rcases hwired with hop | ⟨t, hop⟩
    · obtain rfl := Option.some.inj hop
      exact absurd hf nofun
    · obtain rfl := Option.some.inj hop
      exact absurd hf nofun

theorem RelaySession.Serving.of_forwarding {op : RelayOp} (hp : s.pending = some op)
    (hf : op.forwarding = true) (hunbroken : s.Unbroken conns)
    (howing : s.stream.returned.length < s.stream.chunks.flatten.length)
    (hwired : ∃ c conn, s.socket = some c ∧ conns[c]? = some conn)
    (halive : ∀ c conn, s.socket = some c → conns[c]? = some conn →
      conn.nearOpen = true ∧ conn.Live) : s.Serving conns := by
  refine ⟨hunbroken, fun op' hp' hf' => ?_, fun _ _ _ => howing, fun _ => hwired, halive⟩
  obtain rfl : op = op' := Option.some.inj (hp.symm.trans hp')
  exact absurd (hf.symm.trans hf') nofun

theorem RelaySession.Serving.step {e : RelayEvent} (h : s.Serving conns)
    (hs : s.step conns e = some (s', conns')) (he : e ≠ .fail)
    (hwhole : ∀ n, e = .forwardRead n → ∀ c conn, s.socket = some c → conns[c]? = some conn →
      conn.inFlight.length = n) : s'.Serving conns' := by
  have hunbroken : s'.Unbroken conns' := by
    refine h.unbroken.step hs fun n hn rest hrest => ?_
    subst hn
    have hp := (step_read.mp hs).1
    exact h.unique hrest (h.settled .read hp rfl)
  have hreturned := h.unbroken.returned.length_le
  have halive := step_alive hs h.alive
  cases e with
  | handshake =>
    obtain ⟨hp, rfl, rfl⟩ := step_handshake.mp hs
    have hw := h.settled _ hp rfl
    exact .of_settled rfl rfl hunbroken hw halive
  | read n =>
    obtain ⟨hp, hn, rfl, rfl⟩ := step_read.mp hs
    refine ⟨hunbroken, fun _ _ _ => rfl, fun _ _ _ => ?_, by simp, halive⟩
    have hpos := hn.1
    simp only [TlsStream.readChunk, List.flatten_append, List.flatten_singleton, List.length_append,
      hn.length_take]
    omega
  | contextExpired =>
    obtain ⟨_, _, _, rfl, rfl⟩ := step_contextExpired.mp hs
    exact ⟨hunbroken, by simp, by simp, by simp, halive⟩
  | connect =>
    obtain ⟨length, hp, rfl, rfl⟩ := step_connect.mp hs
    have hlt := h.owing _ hp rfl
    exact .of_forwarding rfl rfl hunbroken hlt ⟨_, _, rfl, List.getElem?_concat_length⟩ halive
  | forwardWriteSome n =>
    obtain ⟨t, i, conn, hp, hsock, hi, hn, rfl, rfl⟩ := step_forwardWriteSome.mp hs
    have hlt := h.owing _ hp rfl
    exact .of_forwarding rfl rfl hunbroken hlt
      ⟨i, _, hsock, List.getElem?_set_self (lt_length_of_getElem? hi)⟩ halive
  | forwardWrite =>
    obtain ⟨t, hp, ht, rfl, rfl⟩ := step_forwardWrite.mp hs
    have hlt := h.owing _ hp rfl
    have hwired := h.wired (.inr ⟨t, hp⟩)
    exact .of_forwarding rfl rfl hunbroken hlt hwired halive
  | forwardRead n =>
    obtain ⟨i, conn, hp, hsock, hi, hn, rfl, rfl⟩ := step_forwardRead.mp hs
    refine .of_settled rfl rfl hunbroken ?_ halive
    obtain ⟨rest, hw, _⟩ := h.unbroken.conserves (by simp [hp])
    simp only [Awaits, hsock] at hw ⊢
    obtain ⟨conn', hi', hcarries⟩ := hw
    obtain rfl : conn = conn' := Option.some.inj (hi.symm.trans hi')
    have hpop := (hcarries.pop hn.2.2).2
    have hlen := hwhole n rfl i conn hsock hi
    rw [hcarries.2 (h.alive i conn hsock hi).2] at hlen
    rw [List.drop_eq_nil_of_le (Nat.le_of_eq hlen)] at hpop
    exact ⟨_, List.getElem?_set_self (lt_length_of_getElem? hi), hpop⟩
  | writeSome n =>
    obtain ⟨t, hp, hn, rfl, rfl⟩ := step_writeSome.mp hs
    have hw := h.settled _ hp rfl
    exact .of_settled rfl rfl hunbroken hw halive
  | write =>
    obtain ⟨t, hp, ht, rfl, rfl⟩ := step_write.mp hs
    have hw := h.settled _ hp rfl
    exact .of_settled rfl rfl hunbroken hw halive
  | fail => exact absurd rfl he

theorem RelaySession.Serving.stream (h : s.Serving conns) {st : TlsStream}
    (hc : st.chunks = s.stream.chunks) (hr : st.returned = s.stream.returned) :
    ({ s with stream := st } : RelaySession).Serving conns := by
  refine ⟨unbroken_sessionLaw.stream _ s st h.unbroken hc hr, h.settled, ?_, h.wired, h.alive⟩
  simpa only [hc, hr] using h.owing

theorem RelaySession.Serving.backend (h : s.Serving conns) {c : Nat} {conn conn' : EchoConnection}
    {e : EchoEvent} (hc : conns[c]? = some conn) (hs : conn.step none e = some conn')
    (he : e ≠ .fail) : s.Serving (conns.set c conn') := by
  have hm : ∀ i u, s.socket = some i → conns[i]? = some u →
      ∃ u', (conns.set c conn')[i]? = some u' ∧ ∀ owed, u.Carries owed → u'.Carries owed :=
    fun i u _ hi => carries_set hc hs hi
  refine ⟨unbroken_sessionLaw.mono _ _ s h.unbroken hm, ?_, h.owing, fun hp => ?_, ?_⟩
  · intro op hp hf
    exact (h.settled op hp hf).mono hm
  · obtain ⟨i, u, hsock, hi⟩ := h.wired hp
    obtain ⟨u', hi', _⟩ := hm i u hsock hi
    exact ⟨i, u', hsock, hi'⟩
  · intro i u hsock hi
    rcases getElem?_set_cases hi with ⟨rfl, rfl⟩ | ⟨_, hi⟩
    · exact EchoConnection.Live.step hs (h.alive _ conn hsock hc).1 he
    · exact h.alive i u hsock hi

theorem RelaySession.step_awake {e : RelayEvent} (hs : s.step conns e = some (s', conns'))
    (he : e ≠ .fail) (hshut : s.stream.shut = false) : s'.pending ≠ none := by
  cases e with
  | handshake =>
    obtain ⟨_, rfl, _⟩ := step_handshake.mp hs
    exact Option.some_ne_none _
  | read n =>
    obtain ⟨_, _, rfl, _⟩ := step_read.mp hs
    exact Option.some_ne_none _
  | contextExpired =>
    obtain ⟨_, _, hs, _⟩ := step_contextExpired.mp hs
    exact absurd (hshut.symm.trans hs) Bool.false_ne_true
  | connect =>
    obtain ⟨_, _, rfl, _⟩ := step_connect.mp hs
    exact Option.some_ne_none _
  | forwardWriteSome n =>
    obtain ⟨_, _, _, _, _, _, _, rfl, _⟩ := step_forwardWriteSome.mp hs
    exact Option.some_ne_none _
  | forwardWrite =>
    obtain ⟨_, _, _, rfl, _⟩ := step_forwardWrite.mp hs
    exact Option.some_ne_none _
  | forwardRead n =>
    obtain ⟨_, _, _, _, _, _, rfl, _⟩ := step_forwardRead.mp hs
    exact Option.some_ne_none _
  | writeSome n =>
    obtain ⟨_, _, _, rfl, _⟩ := step_writeSome.mp hs
    exact Option.some_ne_none _
  | write =>
    obtain ⟨_, _, _, rfl, _⟩ := step_write.mp hs
    exact Option.some_ne_none _
  | fail => exact absurd rfl he

end

theorem RelaySession.Serving.returned_eq {conns : List EchoConnection} {s : RelaySession}
    (h : s.Serving conns) (hp : s.pending = some .read) :
    s.stream.returned = s.stream.chunks.flatten := by
  obtain ⟨rest, hw, hc⟩ := h.unbroken.conserves (by simp [hp])
  obtain rfl := h.unique hw (h.settled _ hp rfl)
  simpa only [toReturn, toForward, hp, List.append_nil] using hc

/-- While the relay waits for an echo, some of it is still on its way. -/
theorem RelaySession.Serving.inFlight_ne_nil {conns : List EchoConnection} {s : RelaySession}
    (h : s.Serving conns) (hp : s.pending = some .forwardRead) {c : Nat} {conn : EchoConnection}
    (hsock : s.socket = some c) (hc : conns[c]? = some conn) : conn.inFlight ≠ [] := by
  intro hempty
  have hlive := (h.alive c conn hsock hc).2
  obtain ⟨rest, hw, hconserves⟩ := h.unbroken.conserves (by simp [hp])
  obtain rfl : rest = [] := hw.eq_nil fun i u hi hu => by
    obtain rfl : c = i := Option.some.inj (hsock.symm.trans hi)
    obtain rfl : conn = u := Option.some.inj (hc.symm.trans hu)
    exact ⟨hlive, hempty⟩
  simp only [toReturn, toForward, hp, List.append_nil] at hconserves
  have howing := h.owing _ hp rfl
  rw [hconserves] at howing
  exact Nat.lt_irrefl _ howing

end ScratchServers
