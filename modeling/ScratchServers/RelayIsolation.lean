import ScratchServers.RelayWorld

/-! A law of one relay session, kept in the whole process: over all
interleavings of sessions, backend connections and I/O errors, what is written
back to a client comes from that client's own chunks. -/

namespace ScratchServers

def RelayWorld.Received (w : RelayWorld) : Prop :=
  ∀ (k : Nat) s, w.sessions[k]? = some s →
    s.stream.chunks.flatten ++ s.stream.inbound = s.stream.sent

/-- A law for one session and the table of connections which looks at the table
only through the session's own connection, and at the stream only through what
has passed over it. -/
structure SessionLaw (Q : List EchoConnection → RelaySession → Prop) : Prop where
  fresh : ∀ conns data forwardData,
    Q conns ⟨.fresh, data, forwardData, none, some .handshake⟩
  mono : ∀ conns conns' s, Q conns s →
    (∀ c conn, s.socket = some c → conns[c]? = some conn →
      ∃ conn', conns'[c]? = some conn' ∧ ∀ owed, conn.Carries owed → conn'.Carries owed) →
    Q conns' s
  stream : ∀ conns s st, Q conns s → st.chunks = s.stream.chunks →
    st.returned = s.stream.returned → Q conns { s with stream := st }

/-- Each session keeps the law, and its socket is open on a connection that is
there and that no other session's socket is open on. -/
structure RelayWorld.Keeps (Q : List EchoConnection → RelaySession → Prop) (w : RelayWorld) :
    Prop where
  law : ∀ (k : Nat) s, w.sessions[k]? = some s → Q w.backend.connections s
  bound : ∀ (k : Nat) s c, w.sessions[k]? = some s → s.socket = some c →
    c < w.backend.connections.length
  owned : ∀ (k k' : Nat) s s' c, w.sessions[k]? = some s → w.sessions[k']? = some s' →
    s.socket = some c → s'.socket = some c → k = k'

section

variable {Q : List EchoConnection → RelaySession → Prop} {w w' : RelayWorld}

theorem RelayWorld.Keeps.set_session (hQ : SessionLaw Q) (h : w.Keeps Q) {k : Nat}
    {s s' : RelaySession} {conns : List EchoConnection} (hk : w.sessions[k]? = some s)
    (hlaw : Q conns s')
    (hlen : w.backend.connections.length ≤ conns.length)
    (hsock : ∀ i, s'.socket = some i →
      s.socket = some i ∨ (i = w.backend.connections.length ∧ i < conns.length))
    (hother : ∀ i, s.socket ≠ some i → i < w.backend.connections.length →
      conns[i]? = w.backend.connections[i]?) :
    RelayWorld.Keeps Q { w with
      sessions := w.sessions.set k s'
      backend := { w.backend with connections := conns } } := by
  -- a connection of another session is older than this step and not this session's
  have hne {j : Nat} {u : RelaySession} {c : Nat} (hj : w.sessions[j]? = some u) (hjk : j ≠ k)
      (hu : u.socket = some c) : s.socket ≠ some c ∧ c < w.backend.connections.length :=
    ⟨fun hs => hjk (h.owned j k u s c hj hk hu hs), h.bound j u c hj hu⟩
  have hnew {j : Nat} {u : RelaySession} {c : Nat} (hj : w.sessions[j]? = some u) (hjk : j ≠ k)
      (hu : u.socket = some c) : s'.socket ≠ some c := by
    intro hs'
    obtain ⟨hns, hlt⟩ := hne hj hjk hu
    rcases hsock c hs' with hs | ⟨rfl, _⟩
    · exact hns hs
    · exact Nat.lt_irrefl _ hlt
  constructor
  · intro j u hj
    rcases getElem?_set_cases hj with ⟨rfl, rfl⟩ | ⟨hjk, hj⟩
    · exact hlaw
    · refine hQ.mono _ _ u (h.law j u hj) fun c conn hu hc => ⟨conn, ?_, fun _ => id⟩
      obtain ⟨hns, hlt⟩ := hne hj hjk hu
      exact (hother c hns hlt).trans hc
  · intro j u c hj hu
    rcases getElem?_set_cases hj with ⟨rfl, rfl⟩ | ⟨hjk, hj⟩
    · rcases hsock c hu with hs | ⟨_, hlt⟩
      · exact Nat.lt_of_lt_of_le (h.bound j s c hk hs) hlen
      · exact hlt
    · exact Nat.lt_of_lt_of_le (h.bound j u c hj hu) hlen
  · intro j j' u u' c hj hj' hu hu'
    rcases getElem?_set_cases hj with ⟨rfl, rfl⟩ | ⟨hjk, hold⟩ <;>
      rcases getElem?_set_cases hj' with ⟨rfl, rfl⟩ | ⟨hjk', hold'⟩
    · rfl
    · exact absurd hu (hnew hold' hjk' hu')
    · exact absurd hu' (hnew hold hjk hu)
    · exact h.owned j j' u u' c hold hold' hu hu'

theorem RelayWorld.Keeps.onStream (hQ : SessionLaw Q) (h : w.Keeps Q) {k : Nat}
    {f : TlsStream → TlsStream} (hc : ∀ st, (f st).chunks = st.chunks)
    (hr : ∀ st, (f st).returned = st.returned) (hs : w.onStream k f = some w') : w'.Keeps Q := by
  obtain ⟨s, hk, rfl⟩ := onStream_some.mp hs
  exact h.set_session hQ hk (hQ.stream _ s _ (h.law k s hk) (hc _) (hr _)) (Nat.le_refl _)
    (fun i hi => .inl hi) (fun i _ _ => rfl)

theorem RelayWorld.Keeps.step (hQ : SessionLaw Q) {e : RelayWorldEvent} (h : w.Keeps Q)
    (hs : w.step e = some w')
    (hstep : ∀ k s s' conns e', e = .session k e' → w.sessions[k]? = some s →
      s.step w.backend.connections e' = some (s', conns) → Q conns s') : w'.Keeps Q := by
  cases e with
  | accept data forwardData resolve =>
    obtain ⟨_, ⟨_, rfl⟩ | ⟨_, rfl⟩⟩ := step_accept hs
    · constructor
      · intro k s hk
        rcases getElem?_snoc_cases hk with ⟨_, rfl⟩ | ⟨_, hk⟩
        · exact hQ.fresh _ _ _
        · exact h.law k s hk
      · intro k s c hk hc
        rcases getElem?_snoc_cases hk with ⟨_, rfl⟩ | ⟨_, hk⟩
        · exact absurd hc nofun
        · exact h.bound k s c hk hc
      · intro k k' s s' c hk hk' hc hc'
        rcases getElem?_snoc_cases hk with ⟨_, rfl⟩ | ⟨_, hk⟩
        · exact absurd hc nofun
        rcases getElem?_snoc_cases hk' with ⟨_, rfl⟩ | ⟨_, hk'⟩
        · exact absurd hc' nofun
        · exact h.owned k k' s s' c hk hk' hc hc'
    · exact ⟨h.law, h.bound, h.owned⟩
  | acceptFailed =>
    obtain ⟨_, rfl⟩ := step_acceptFailed hs
    exact h
  | clientSend k xs =>
    exact h.onStream hQ (f := (·.send xs)) (fun _ => rfl) (fun _ => rfl) (step_running hs).2
  | clientReceive k n =>
    exact h.onStream hQ (f := (·.receive n)) (fun _ => rfl) (fun _ => rfl) (step_running hs).2
  | clientShutdown k =>
    exact h.onStream hQ (f := ({ · with shut := true })) (fun _ => rfl) (fun _ => rfl)
      (step_running hs).2
  | session k e =>
    obtain ⟨s, s', conns, hk, hsess, rfl⟩ := step_session hs
    obtain ⟨hlen, hsock⟩ := RelaySession.step_socket hsess
    exact h.set_session hQ hk (hstep k s s' conns e rfl hk hsess) hlen hsock fun i hi hlt =>
      RelaySession.step_other hsess hi hlt
  | backend e =>
    obtain ⟨v, hv, rfl⟩ := step_backend hs
    cases e with
    | acceptFailed =>
      obtain ⟨_, rfl⟩ := EchoServer.step_acceptFailed.mp hv
      exact h
    | connection c e =>
      obtain ⟨conn, conn', hc, hconn, rfl⟩ := EchoServer.step_connection hv
      refine ⟨fun k s hk => ?_, fun k s i hk hi => ?_, h.owned⟩
      · exact hQ.mono _ _ s (h.law k s hk) fun i u _ hi => carries_set hc hconn hi
      · have hlt := h.bound k s i hk hi
        rwa [List.length_set]

theorem relayWorld_start_keeps (hw : relayWorld.start w) : w.Keeps Q := by
  obtain rfl : w = .construct := hw
  have hnone (k : Nat) (s : RelaySession) : RelayWorld.construct.sessions[k]? ≠ some s := by
    simp [RelayWorld.construct, RelayWorld.doAccept]
  exact ⟨fun k s hk => absurd hk (hnone k s), fun k s _ hk => absurd hk (hnone k s),
    fun k _ s _ _ hk => absurd hk (hnone k s)⟩

end

theorem RelayWorld.Received.step {w w' : RelayWorld} {e : RelayWorldEvent} (h : w.Received)
    (hs : w.step e = some w') : w'.Received := by
  have onStream {k : Nat} {f : TlsStream → TlsStream} (hs : w.onStream k f = some w')
      (hf : ∀ st : TlsStream, st.chunks.flatten ++ st.inbound = st.sent →
        (f st).chunks.flatten ++ (f st).inbound = (f st).sent) : w'.Received := by
    obtain ⟨s, hk, rfl⟩ := onStream_some.mp hs
    intro j u hj
    rcases getElem?_set_cases hj with ⟨rfl, rfl⟩ | ⟨_, hj⟩
    · exact hf _ (h j s hk)
    · exact h j u hj
  cases e with
  | accept data forwardData resolve =>
    obtain ⟨_, ⟨_, rfl⟩ | ⟨_, rfl⟩⟩ := step_accept hs
    · intro k s hk
      rcases getElem?_snoc_cases hk with ⟨_, rfl⟩ | ⟨_, hk⟩
      · rfl
      · exact h k s hk
    · exact h
  | acceptFailed =>
    obtain ⟨_, rfl⟩ := step_acceptFailed hs
    exact h
  | clientSend k xs =>
    refine onStream (f := (·.send xs)) (step_running hs).2 fun st hst => ?_
    simp only [TlsStream.send, ← List.append_assoc, hst]
  | clientReceive k n => exact onStream (f := (·.receive n)) (step_running hs).2 fun _ => id
  | clientShutdown k =>
    exact onStream (f := ({ · with shut := true })) (step_running hs).2 fun _ => id
  | session k e =>
    obtain ⟨s, s', conns, hk, hstep, rfl⟩ := step_session hs
    obtain ⟨hsent, _, hread, _⟩ := RelaySession.step_stream hstep
    intro j u hj
    rcases getElem?_set_cases hj with ⟨rfl, rfl⟩ | ⟨_, hj⟩
    · rw [hread, hsent]
      exact h j s hk
    · exact h j u hj
  | backend e =>
    obtain ⟨v, _, rfl⟩ := step_backend hs
    exact h

theorem relayWorld_received {w : RelayWorld} (h : relayWorld.Reachable w) : w.Received := by
  refine h.invariant ?_ fun w e w' hw hs => hw.step hs
  rintro w rfl
  exact nofun

theorem relays_sessionLaw : SessionLaw fun conns s => s.Relays conns where
  fresh _ _ _ := selects_nil
  mono _ _ _ h hm := h.mono hm
  stream conns s st h hc hr := by
    unfold RelaySession.Relays at h ⊢
    simp only [hc, hr]
    exact h

/-- However sessions, backend connections and errors interleave, what has been
written back to a client is made of one prefix of each of its own chunks, in order. -/
theorem relay_returns_own_chunks {w : RelayWorld} (h : relayWorld.Reachable w) {k : Nat}
    {s : RelaySession} (hk : w.sessions[k]? = some s) :
    s.stream.chunks.flatten <+: s.stream.sent ∧ Selects s.stream.chunks s.stream.returned ∧
      s.stream.returned.Sublist s.stream.sent := by
  have hkeeps : w.Keeps fun conns s => s.Relays conns := by
    refine h.invariant (fun w => relayWorld_start_keeps) fun w e w' hw hs => ?_
    exact hw.step relays_sessionLaw hs fun k s s' conns e' _ hk hsess => (hw.law k s hk).step hsess
  have hsel := (hkeeps.law k s hk).returned
  have hsent : s.stream.chunks.flatten <+: s.stream.sent := ⟨_, relayWorld_received h k s hk⟩
  exact ⟨hsent, hsel, hsel.sublist.trans hsent.sublist⟩

/-- Session `k` sends `xs` round connection `c`, but the echo server's first read
takes only `n` bytes of it and the relay's one read finds no more. -/
def echoRound (k c n : Nat) (xs : Bytes) : List RelayWorldEvent :=
  [.clientSend k xs, .session k (.read xs.length), .session k .connect,
    .session k (.forwardWriteSome xs.length), .session k .forwardWrite,
    .backend (.connection c (.accept (.filled 0))), .backend (.connection c (.read n)),
    .backend (.connection c (.writeSome n)), .session k (.forwardRead n),
    .session k (.writeSome n), .session k .write]

def acceptClient (k : Nat) : List RelayWorldEvent :=
  [.accept (.filled 0) (.filled 0) (.ok ()), .session k .handshake]

theorem relay_returns_own_chunks_run :
    ∃ w s, relayWorld.Reachable w ∧ w.sessions[0]? = some s ∧ s.stream.returned = [1, 4] ∧
      Selects s.stream.chunks s.stream.returned := by
  obtain ⟨w, hw, hq⟩ := relayWorld.exists_reachable_of_run .construct
    (acceptClient 0 ++ acceptClient 1 ++ echoRound 0 0 1 [1, 2] ++ echoRound 1 1 1 [3] ++
      echoRound 0 2 1 [4])
    (fun w => w.sessions[0]?.any fun s => s.stream.returned = [1, 4]) rfl (by decide +kernel)
  obtain ⟨s, hs, hret⟩ := (Option.any_eq_true _ _).mp hq
  have h := relay_returns_own_chunks hw hs
  exact ⟨w, s, hw, hs, of_decide_eq_true hret, h.2.1⟩

end ScratchServers
