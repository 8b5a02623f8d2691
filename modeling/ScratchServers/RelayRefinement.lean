import ScratchServers.RelayIsolation
import ScratchServers.TlsEcho

/-! The relay of `echo_ssl_server.cpp` against the TLS server of
`echo_server_original.cpp`: with its detour over the echo server hidden, a relay
each of whose reads returns the whole echo runs as the direct server does. -/

namespace ScratchServers

/-- The chunk that was read last. -/
def TlsStream.chunk (st : TlsStream) : Bytes :=
  st.chunks.getLast?.getD []

theorem TlsStream.chunk_of_snoc {st : TlsStream} {cs : List Bytes} {c : Bytes}
    (h : st.chunks = cs ++ [c]) : st.chunk = c := by
  simp [chunk, h]

/-- While a chunk is on its detour, the direct server has it still to write. -/
def RelaySession.direct (s : RelaySession) : TlsSession where
  stream := s.stream
  data := s.data
  pending :=
    match s.pending with
    | none => none
    | some .handshake => some .handshake
    | some .read => some .read
    | some (.connect _) | some (.forwardWrite _) | some .forwardRead =>
      some (.write (.start s.stream.chunk.length))
    | some (.write t) => some (.write t)

def RelayWorld.direct (w : RelayWorld) : TlsServer :=
  ⟨1, w.sessions.map RelaySession.direct⟩

def RelayEvent.direct : RelayEvent → Option TlsEvent
  | .handshake => some .handshake
  | .read n => some (.read n)
  | .contextExpired => some .contextExpired
  | .connect | .forwardWriteSome _ | .forwardWrite | .forwardRead _ => none
  | .writeSome n => some (.writeSome n)
  | .write => some .write
  | .fail => some .fail

def RelayWorldEvent.direct : RelayWorldEvent → List TlsServerEvent
  | .accept data _ (.ok _) => [.accept data]
  | .accept _ _ (.error _) => []
  | .acceptFailed => [.acceptFailed]
  | .clientSend k xs => [.line k (.send xs)]
  | .clientReceive k n => [.line k (.receive n)]
  | .clientShutdown k => [.line k .shutdown]
  | .session k e => (e.direct.map fun e => .line k (.session e)).toList
  | .backend _ => []

def RelayWorldEvent.echoRead : RelayWorldEvent → Option (Nat × Nat)
  | .session k (.forwardRead n) => some (k, n)
  | _ => none

/-- The one read that a session makes for a chunk returns as much as it has sent. -/
def WholeRead (w : RelayWorld) (e : RelayWorldEvent) : Prop :=
  ∀ p ∈ e.echoRead, ∀ s ∈ w.sessions[p.1]?, s.stream.chunk.length = p.2

instance (w : RelayWorld) (e : RelayWorldEvent) : Decidable (WholeRead w e) :=
  inferInstanceAs (Decidable (∀ p ∈ e.echoRead, ∀ s ∈ w.sessions[p.1]?,
    s.stream.chunk.length = p.2))

/-- `data` still holds the chunk while its echo is awaited, and `forwardData` is
a copy of it while it is written back. -/
def RelaySession.Mirrored (s : RelaySession) : Prop :=
  match s.pending with
  | some .forwardRead => s.data.front s.stream.chunk.length = s.stream.chunk
  | some (.write t) => s.forwardData.front t.length = s.data.front t.length
  | _ => True

structure RelaySession.Mirrors (conns : List EchoConnection) (s : RelaySession) : Prop where
  relays : s.Relays conns
  mirrored : s.Mirrored

section

variable {conns conns' : List EchoConnection} {s s' : RelaySession}

theorem RelaySession.Relays.forwardWrite (h : s.Relays conns) {t : Transfer}
    (hp : s.pending = some (.forwardWrite t)) :
    s.data.front s.stream.chunk.length = s.stream.chunk := by
  simp only [Relays, hp] at h
  obtain ⟨cs, c, hcs, _, hdata, hlen, _⟩ := h
  rw [TlsStream.chunk_of_snoc hcs, hlen, hdata]

/-- A read that is as long as the chunk returns the chunk. -/
theorem RelaySession.Relays.forwardRead (h : s.Relays conns) (hp : s.pending = some .forwardRead)
    {c : Nat} {conn : EchoConnection} (hsock : s.socket = some c) (hc : conns[c]? = some conn)
    (hlen : s.stream.chunk.length ≤ conn.down.length) :
    conn.down.take s.stream.chunk.length = s.stream.chunk := by
  simp only [Relays, hp] at h
  obtain ⟨cs, chunk, hcs, _, i, u, hi, hu, hcarries⟩ := h
  obtain rfl : c = i := Option.some.inj (hsock.symm.trans hi)
  obtain rfl : conn = u := Option.some.inj (hc.symm.trans hu)
  rw [TlsStream.chunk_of_snoc hcs] at hlen ⊢
  have heq : conn.down = chunk := hcarries.1.eq_of_length_le hlen
  rw [heq, List.take_length]

theorem RelaySession.Mirrors.step {e : RelayEvent} (h : s.Mirrors conns)
    (hs : s.step conns e = some (s', conns'))
    (hwhole : ∀ n, e = .forwardRead n → s.stream.chunk.length = n) : s'.Mirrors conns' := by
  refine ⟨h.relays.step hs, ?_⟩
  cases e with
  | handshake =>
    obtain ⟨_, rfl, _⟩ := step_handshake.mp hs
    trivial
  | read n =>
    obtain ⟨_, _, rfl, _⟩ := step_read.mp hs
    trivial
  | contextExpired =>
    obtain ⟨_, _, _, rfl, _⟩ := step_contextExpired.mp hs
    trivial
  | connect =>
    obtain ⟨_, _, rfl, _⟩ := step_connect.mp hs
    trivial
  | forwardWriteSome n =>
    obtain ⟨_, _, _, _, _, _, _, rfl, _⟩ := step_forwardWriteSome.mp hs
    trivial
  | forwardWrite =>
    obtain ⟨t, hp, _, rfl, _⟩ := step_forwardWrite.mp hs
    exact h.relays.forwardWrite hp
  | forwardRead n =>
    obtain ⟨c, conn, hp, hsock, hc, hn, rfl, _⟩ := step_forwardRead.mp hs
    have hlen := hwhole n rfl
    have hkept : s.data.front s.stream.chunk.length = s.stream.chunk := by
      have hm := h.mirrored
      simpa only [Mirrored, hp] using hm
    have hread := h.relays.forwardRead hp hsock hc (hlen ▸ hn.2.2)
    rw [hlen] at hkept hread
    exact (hn.front_put_zero s.forwardData).trans (hread.trans hkept.symm)
  | writeSome n =>
    obtain ⟨t, hp, _, rfl, _⟩ := step_writeSome.mp hs
    have hm := h.mirrored
    simp only [Mirrored, hp] at hm
    exact hm
  | write =>
    obtain ⟨_, _, _, rfl, _⟩ := step_write.mp hs
    trivial
  | fail =>
    obtain ⟨_, rfl, _⟩ := step_fail.mp hs
    trivial

end

section

variable {w w' : RelayWorld}

theorem WholeRead.session {k n : Nat} {s : RelaySession} {e : RelayEvent}
    (h : WholeRead w (.session k e)) (hk : w.sessions[k]? = some s) (he : e = .forwardRead n) :
    s.stream.chunk.length = n := by
  obtain rfl := he
  exact h (k, n) rfl s hk

end

end ScratchServers
