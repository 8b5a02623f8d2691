import ScratchServers.Family
import ScratchServers.RelaySession

/-! The TLS echo server of `echo_server_original.cpp`: a session reads a chunk
from its client and writes it back, without a server behind it. -/

namespace ScratchServers

inductive TlsOp where
  | handshake
  | read
  | write (t : Transfer)
  deriving DecidableEq

/-- With nothing pending the session has been destroyed. -/
structure TlsSession where
  stream : TlsStream
  data : Buffer Byte maxLength
  pending : Option TlsOp

def TlsSession.construct (data : Buffer Byte maxLength) : TlsSession :=
  ⟨.fresh, data, none⟩

def TlsSession.doHandshake (s : TlsSession) : TlsSession :=
  { s with pending := some .handshake }

def TlsSession.start (s : TlsSession) : TlsSession :=
  s.doHandshake

def TlsSession.doRead (s : TlsSession) : TlsSession :=
  { s with pending := some .read }

def TlsSession.doWrite (s : TlsSession) (length : Nat) : TlsSession :=
  { s with pending := some (.write (.start length)) }

def TlsSession.release (s : TlsSession) : TlsSession :=
  { s with pending := none }

def TlsSession.onCompletion (s : TlsSession) (ec : ErrorCode) (next : TlsSession → TlsSession) :
    TlsSession :=
  if ec = .success then next s else s.release

def TlsSession.onHandshake (s : TlsSession) (ec : ErrorCode) : TlsSession :=
  s.onCompletion ec doRead

def TlsSession.onRead (s : TlsSession) (ec : ErrorCode) (length : Nat) : TlsSession :=
  s.onCompletion ec (·.doWrite length)

def TlsSession.onWrite (s : TlsSession) (ec : ErrorCode) : TlsSession :=
  s.onCompletion ec doRead

def TlsSession.onError (s : TlsSession) (ec : ErrorCode) : TlsSession :=
  match s.pending with
  | some .handshake => s.onHandshake ec
  | some .read => s.onRead ec 0
  | some (.write _) => s.onWrite ec
  | none => s

inductive TlsEvent where
  | handshake
  | read (n : Nat)
  | contextExpired
  | writeSome (n : Nat)
  | write
  | fail

def TlsSession.step (s : TlsSession) : TlsEvent → Option TlsSession
  | .handshake => if s.pending = some .handshake then some (s.onHandshake .success) else none
  | .read n =>
    if s.pending = some .read ∧ CanRead maxLength s.stream.inbound n then
      let s' := { s with
        stream := s.stream.readChunk n
        data := s.data.put 0 (s.stream.inbound.take n) }
      some (s'.onRead .success n)
    else none
  | .contextExpired =>
    if s.pending = some .read ∧ s.stream.inbound = [] ∧ s.stream.shut = true then
      some (s.onRead .contextExpired 0)
    else none
  | .writeSome n =>
    match s.pending with
    | some (.write t) =>
      if t.CanAccept none s.stream.outbound n then
        some { s with
          stream := s.stream.writeBack ((t.unsent s.data.cells).take n)
          pending := some (.write (t.advance n)) }
      else none
    | _ => none
  | .write =>
    match s.pending with
    | some (.write t) => if t.left = 0 then some (s.onWrite .success) else none
    | _ => none
  | .fail => if s.pending = none then none else some (s.onError .failed)

/-- What a client does to its own stream, and what the session does to it. -/
inductive TlsLineEvent where
  | send (xs : Bytes)
  | receive (n : Nat)
  | shutdown
  | session (e : TlsEvent)

def TlsSession.lineStep (s : TlsSession) : TlsLineEvent → Option TlsSession
  | .send xs => some { s with stream := s.stream.send xs }
  | .receive n => some { s with stream := s.stream.receive n }
  | .shutdown => some { s with stream := { s.stream with shut := true } }
  | .session e => s.step e

def tlsLine : System TlsSession TlsLineEvent where
  start s := ∃ data, s = (TlsSession.construct data).start
  step := TlsSession.lineStep

section

variable {s s' : TlsSession}

theorem TlsSession.step_handshake :
    s.step .handshake = some s' ↔
      s.pending = some .handshake ∧ s' = { s with pending := some .read } := by
  simp [step, onHandshake, onCompletion, doRead, @eq_comm _ _ s']

theorem TlsSession.step_read {n : Nat} :
    s.step (.read n) = some s' ↔
      s.pending = some .read ∧ CanRead maxLength s.stream.inbound n ∧
        s' = ⟨s.stream.readChunk n, s.data.put 0 (s.stream.inbound.take n),
          some (.write (.start n))⟩ := by
  simp [step, onRead, onCompletion, doWrite, and_assoc, @eq_comm _ _ s']

theorem TlsSession.step_contextExpired :
    s.step .contextExpired = some s' ↔
      s.pending = some .read ∧ s.stream.inbound = [] ∧ s.stream.shut = true ∧
        s' = { s with pending := none } := by
  simp [step, onRead, onCompletion, release, and_assoc, @eq_comm _ _ s']

theorem TlsSession.step_writeSome {n : Nat} :
    s.step (.writeSome n) = some s' ↔
      ∃ t, s.pending = some (.write t) ∧ t.CanAccept none s.stream.outbound n ∧
        s' = { s with
          stream := s.stream.writeBack ((t.unsent s.data.cells).take n)
          pending := some (.write (t.advance n)) } := by
  rcases hp : s.pending with _ | _ | _ | t <;> simp [step, hp, @eq_comm _ _ s']

theorem TlsSession.step_write :
    s.step .write = some s' ↔
      ∃ t, s.pending = some (.write t) ∧ t.left = 0 ∧
        s' = { s with pending := some .read } := by
  rcases hp : s.pending with _ | _ | _ | t <;>
    simp [step, hp, onWrite, onCompletion, doRead, @eq_comm _ _ s']

theorem TlsSession.step_fail :
    s.step .fail = some s' ↔ s.pending ≠ none ∧ s' = { s with pending := none } := by
  rcases hp : s.pending with _ | _ | _ | t <;>
    simp [step, hp, onError, onHandshake, onRead, onWrite, onCompletion, release,
      @eq_comm _ _ s']

end

def TlsSession.toReturn (s : TlsSession) : Bytes :=
  match s.pending with
  | some (.write t) => t.unsent s.data.cells
  | _ => []

/-- What has been read is what was sent so far; it has been written back up to
the part that is still to be written, unless the session has died of an error. -/
structure TlsSession.Sound (s : TlsSession) : Prop where
  taken : s.stream.chunks.flatten ++ s.stream.inbound = s.stream.sent
  returned : s.stream.returned <+: s.stream.chunks.flatten
  conserves : s.pending ≠ none →
    s.stream.returned ++ s.toReturn = s.stream.chunks.flatten

theorem TlsSession.Sound.of_conserves {s : TlsSession}
    (ht : s.stream.chunks.flatten ++ s.stream.inbound = s.stream.sent)
    (hc : s.stream.returned ++ s.toReturn = s.stream.chunks.flatten) : s.Sound :=
  ⟨ht, hc ▸ List.prefix_append _ _, fun _ => hc⟩

theorem TlsSession.Sound.release {s : TlsSession} (h : s.Sound) :
    ({ s with pending := none } : TlsSession).Sound :=
  ⟨h.taken, h.returned, fun hp => absurd rfl hp⟩

theorem TlsSession.Sound.step {s s' : TlsSession} {e : TlsEvent} (h : s.Sound)
    (hs : s.step e = some s') : s'.Sound := by
  have htaken := h.taken
  cases e with
  | handshake =>
    obtain ⟨hp, rfl⟩ := step_handshake.mp hs
    have hall := h.conserves (by simp [hp])
    simp only [toReturn, hp] at hall
    exact .of_conserves htaken hall
  | read n =>
    obtain ⟨hp, hn, rfl⟩ := step_read.mp hs
    have hall := h.conserves (by simp [hp])
    simp only [toReturn, hp, List.append_nil] at hall
    have hfront := hn.front_put_zero s.data
    refine .of_conserves ?_ ?_
    · simp only [TlsStream.readChunk, List.flatten_append, List.flatten_singleton,
        List.append_assoc, List.take_append_drop, htaken]
    · simp only [TlsStream.readChunk, toReturn, Transfer.unsent_start, List.flatten_append,
        List.flatten_singleton, hall]
      exact congrArg _ hfront
  | contextExpired =>
    obtain ⟨_, _, _, rfl⟩ := step_contextExpired.mp hs
    exact h.release
  | writeSome n =>
    obtain ⟨t, hp, hn, rfl⟩ := step_writeSome.mp hs
    have hall := h.conserves (by simp [hp])
    simp only [toReturn, hp] at hall
    refine .of_conserves htaken ?_
    simp only [TlsStream.writeBack, toReturn, List.append_assoc,
      Transfer.take_append_unsent hn.2.1]
    exact hall
  | write =>
    obtain ⟨t, hp, ht, rfl⟩ := step_write.mp hs
    have hall := h.conserves (by simp [hp])
    simp only [toReturn, hp, Transfer.unsent_eq_nil ht] at hall
    exact .of_conserves htaken hall
  | fail =>
    obtain ⟨_, rfl⟩ := step_fail.mp hs
    exact h.release

theorem TlsSession.Sound.stream {s : TlsSession} (h : s.Sound) {st : TlsStream}
    (hc : st.chunks = s.stream.chunks) (hr : st.returned = s.stream.returned)
    (ht : st.chunks.flatten ++ st.inbound = st.sent) :
    ({ s with stream := st } : TlsSession).Sound := by
  refine ⟨ht, ?_, fun hp => ?_⟩
  · rw [hc, hr]
    exact h.returned
  · simp only [hc, hr]
    exact h.conserves hp

theorem TlsSession.Sound.lineStep {s s' : TlsSession} {e : TlsLineEvent} (h : s.Sound)
    (hs : s.lineStep e = some s') : s'.Sound := by
  cases e with
  | send xs =>
    obtain rfl := Option.some.inj hs
    refine h.stream rfl rfl ?_
    simp only [TlsStream.send, ← h.taken, List.append_assoc]
  | receive n =>
    obtain rfl := Option.some.inj hs
    exact h.stream rfl rfl h.taken
  | shutdown =>
    obtain rfl := Option.some.inj hs
    exact h.stream rfl rfl h.taken
  | session e => exact h.step hs

theorem tlsLine_sound {s : TlsSession} (h : tlsLine.Reachable s) : s.Sound := by
  refine h.invariant ?_ fun s e s' hsound hs => hsound.lineStep hs
  rintro s ⟨data, rfl⟩
  exact .of_conserves rfl rfl

/-- Every byte read has been written back or is still to be written. -/
theorem TlsSession.Sound.echoes {s : TlsSession} (h : s.Sound) :
    s.stream.returned <+: s.stream.sent ∧
      (s.pending = some .read → s.stream.returned ++ s.stream.inbound = s.stream.sent) := by
  constructor
  · rw [← h.taken]
    exact h.returned.trans (List.prefix_append _ _)
  · intro hp
    have hall := h.conserves (by simp [hp])
    simp only [toReturn, hp, List.append_nil] at hall
    rw [hall, h.taken]

/-- What `import_private_key` reports. That the key is there already is no error. -/
inductive KeyImport where
  | imported
  | keyExists
  | failed (code : Nat)

structure TlsServer where
  accepts : Nat
  sessions : List TlsSession

def TlsServer.doAccept (v : TlsServer) : TlsServer :=
  { v with accepts := v.accepts + 1 }

/-- The constructor after its acceptor has been bound. Each of the calls may throw. -/
def TlsServer.construct (certificate : Except Nat Unit) (importKey : KeyImport)
    (assignKey useCertificate : Except Nat Unit) : Except Nat TlsServer := do
  certificate
  match importKey with
  | .failed code => throw code
  | .imported | .keyExists => pure ()
  assignKey
  useCertificate
  return doAccept ⟨0, []⟩

def TlsServer.onAccept (v : TlsServer) : Option TlsSession → TlsServer
  | some session => doAccept { v with sessions := v.sessions ++ [session.start] }
  | none => v.doAccept

inductive TlsServerEvent where
  | accept (data : Buffer Byte maxLength)
  | acceptFailed
  | line (k : Nat) (e : TlsLineEvent)

def TlsServer.step (v : TlsServer) : TlsServerEvent → Option TlsServer
  | .accept data =>
    if 0 < v.accepts then
      some (onAccept { v with accepts := v.accepts - 1 } (some (.construct data)))
    else none
  | .acceptFailed =>
    if 0 < v.accepts then some (onAccept { v with accepts := v.accepts - 1 } none) else none
  | .line k e =>
    v.sessions[k]?.bind fun s =>
      (s.lineStep e).map fun s' => { v with sessions := v.sessions.set k s' }

def tlsServer : System TlsServer TlsServerEvent where
  start v := ∃ certificate importKey assignKey useCertificate,
    TlsServer.construct certificate importKey assignKey useCertificate = .ok v
  step := TlsServer.step

section

variable {v v' : TlsServer}

theorem TlsServer.step_accept {data : Buffer Byte maxLength} :
    v.step (.accept data) = some v' ↔
      0 < v.accepts ∧
        v' = { v with sessions := v.sessions ++ [(TlsSession.construct data).start] } := by
  simp only [step, Option.ite_none_right_eq_some, Option.some.injEq, onAccept, doAccept]
  refine and_congr_right fun ha => ?_
  rw [Nat.sub_add_cancel ha, eq_comm]

theorem TlsServer.step_acceptFailed : v.step .acceptFailed = some v' ↔ 0 < v.accepts ∧ v' = v := by
  simp only [step, Option.ite_none_right_eq_some, Option.some.injEq, onAccept, doAccept]
  refine and_congr_right fun ha => ?_
  rw [Nat.sub_add_cancel ha, eq_comm]

theorem TlsServer.step_line {k : Nat} {e : TlsLineEvent} :
    v.step (.line k e) = some v' ↔
      ∃ s s', v.sessions[k]? = some s ∧ s.lineStep e = some s' ∧
        v' = { v with sessions := v.sessions.set k s' } := by
  simp only [step, Option.bind_eq_some_iff, Option.map_eq_some_iff]
  constructor
  · rintro ⟨s, hs, s', hs', rfl⟩
    exact ⟨s, s', hs, hs', rfl⟩
  · rintro ⟨s, s', hs, hs', rfl⟩
    exact ⟨s, hs, s', hs', rfl⟩

theorem TlsServer.construct_eq {certificate assignKey useCertificate : Except Nat Unit}
    {importKey : KeyImport}
    (h : construct certificate importKey assignKey useCertificate = .ok v) : v = ⟨1, []⟩ := by
  rcases certificate with _ | _ <;> rcases importKey with _ | _ | _ <;>
    rcases assignKey with _ | _ <;> rcases useCertificate with _ | _ <;>
    first
      | exact (Except.ok.inj h).symm
      | exact absurd h
          (by simp [construct, bind, Except.bind, throw, throwThe, MonadExceptOf.throw])

theorem tlsServer_accepts (h : tlsServer.Reachable v) : v.accepts = 1 := by
  refine h.invariant (P := fun v : TlsServer => v.accepts = 1) ?_ fun v e v' ha hs => ?_
  · rintro v ⟨_, _, _, _, hv⟩
    rw [TlsServer.construct_eq hv]
  · cases e with
    | accept data =>
      obtain ⟨_, rfl⟩ := TlsServer.step_accept.mp hs
      exact ha
    | acceptFailed =>
      obtain ⟨_, rfl⟩ := TlsServer.step_acceptFailed.mp hs
      exact ha
    | line k e =>
      obtain ⟨s, s', _, _, rfl⟩ := TlsServer.step_line.mp hs
      exact ha

theorem tlsServer_sessions (h : tlsServer.Reachable v) : tlsLine.family.Reachable v.sessions := by
  refine System.ReachableBy.simulate TlsServer.sessions ?_ (fun v e v' _ _ hs => ?_) h
  · rintro v ⟨_, _, _, _, hv⟩
    rw [TlsServer.construct_eq hv]
    exact rfl
  · cases e with
    | accept data =>
      obtain ⟨_, rfl⟩ := TlsServer.step_accept.mp hs
      exact .inr ⟨.spawn ⟨_, data, rfl⟩, trivial, rfl⟩
    | acceptFailed =>
      obtain ⟨_, rfl⟩ := TlsServer.step_acceptFailed.mp hs
      exact .inl rfl
    | line k e =>
      obtain ⟨s, s', hk, hs', rfl⟩ := TlsServer.step_line.mp hs
      exact .inr ⟨.member k e, trivial, System.family_step_member.mpr ⟨s, s', hk, hs', rfl⟩⟩

/-- However accepts, clients, sessions and errors interleave, one accept is
outstanding and each client gets back what it has sent itself, in order and
without a gap; a session that waits for its client owes it nothing. -/
theorem tls_server_echoes (h : tlsServer.Reachable v) :
    v.accepts = 1 ∧ ∀ (k : Nat) s, v.sessions[k]? = some s →
      s.stream.returned <+: s.stream.sent ∧
        (s.pending = some .read → s.stream.returned ++ s.stream.inbound = s.stream.sent) :=
  ⟨tlsServer_accepts h, fun k s hk =>
    (tlsLine_sound (System.reachable_member (tlsServer_sessions h) k s hk)).echoes⟩

/-- The second client sends a byte, its session writes it back, and then the
first client closes. -/
def tlsRounds : List TlsServerEvent :=
  [.accept (.filled 0), .acceptFailed, .accept (.filled 0), .line 0 (.session .handshake),
    .line 1 (.session .handshake), .line 1 (.send [7]), .line 1 (.session (.read 1)),
    .line 1 (.session (.writeSome 1)), .line 0 .shutdown, .line 1 (.session .write),
    .line 0 (.session .contextExpired)]

theorem tls_server_echoes_run :
    ∃ v s, tlsServer.Reachable v ∧ v.sessions[1]? = some s ∧ s.stream.returned = [7] ∧
      s.stream.returned ++ s.stream.inbound = s.stream.sent := by
  obtain ⟨v, hv, hq⟩ := tlsServer.exists_reachable_of_run ⟨1, []⟩ tlsRounds
    (fun v => v.sessions[1]?.any fun s => s.stream.returned = [7] ∧ s.pending = some .read)
    ⟨.ok (), .keyExists, .ok (), .ok (), rfl⟩ (by decide +kernel)
  obtain ⟨s, hs, hret⟩ := (Option.any_eq_true _ _).mp hq
  obtain ⟨hseven, hpend⟩ := of_decide_eq_true hret
  have h := tls_server_echoes hv
  exact ⟨v, s, hv, hs, hseven, (h.2 1 s hs).2 hpend⟩

end

end ScratchServers
