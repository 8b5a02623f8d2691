import ScratchServers.RelayEcho
import ScratchServers.RelayServing
import ScratchServers.RelaySockets
import ScratchServers.Family

/-! The relay's process left to itself: without I/O errors its handlers run out
of work, and then each session waits for its client or has been destroyed. -/

namespace ScratchServers

/-- What the session and its connection still do if nobody sends any more. -/
def RelaySession.remaining (s : RelaySession) : Nat :=
  12 * s.stream.inbound.length +
    match s.pending with
    | none => 0
    | some .handshake => 2
    | some .read => 1
    | some (.connect length) => 5 * length + 7
    | some (.forwardWrite t) => 5 * t.left + 4
    | some .forwardRead => 3
    | some (.write t) => t.left + 2

def RelayWorld.remaining (w : RelayWorld) : Nat :=
  total RelaySession.remaining w.sessions + total EchoConnection.remaining w.backend.connections

/-- A chunk on its detour holds something, so there is an echo to wait for. -/
structure RelaySession.Forwards (conns : List EchoConnection) (s : RelaySession) : Prop where
  relays : s.Relays conns
  released : s.Released
  nonempty : ∀ c ∈ s.stream.chunks, c ≠ []

section

variable {conns conns' : List EchoConnection} {s s' : RelaySession}

theorem RelaySession.total_closeSocket :
    total EchoConnection.remaining (s.closeSocket conns) =
      total EchoConnection.remaining conns := by
  unfold closeSocket
  split
  · rename_i c _
    refine total_of_map_eq (List.ext_getElem? fun i => ?_)
    simp only [List.getElem?_map, List.getElem?_modify]
    by_cases hi : c = i
    · subst c
      rcases conns[i]? with _ | conn <;> simp [EchoConnection.remaining]
    · simp [hi]
  · rfl

theorem RelaySession.step_remaining {e : RelayEvent} (hs : s.step conns e = some (s', conns'))
    (he : e ≠ .fail) :
    s'.remaining + total EchoConnection.remaining conns' <
      s.remaining + total EchoConnection.remaining conns := by
  cases e with
  | handshake =>
    obtain ⟨hp, rfl, rfl⟩ := step_handshake.mp hs
    simp only [remaining, hp]
    omega
  | read n =>
    obtain ⟨hp, hn, rfl, rfl⟩ := step_read.mp hs
    have hpos := hn.1
    have hle := hn.2.2
    simp only [remaining, hp, total_closeSocket, TlsStream.readChunk, List.length_drop]
    omega
  | contextExpired =>
    obtain ⟨hp, _, _, rfl, rfl⟩ := step_contextExpired.mp hs
    simp only [remaining, hp, total_closeSocket]
    omega
  | connect =>
    obtain ⟨length, hp, rfl, rfl⟩ := step_connect.mp hs
    have hfresh : total EchoConnection.remaining [.fresh] = 2 := rfl
    simp only [remaining, hp, total_append, hfresh, Transfer.left_start]
    omega
  | forwardWriteSome n =>
    obtain ⟨t, c, conn, hp, _, hc, hn, rfl, rfl⟩ := step_forwardWriteSome.mp hs
    have hpos := hn.1
    have hleft := Transfer.left_advance hn.2.1
    have hlen := List.length_take_le n (t.unsent s.data.cells)
    have hset := total_set (f := EchoConnection.remaining)
      (t := { conn with up := conn.up ++ (t.unsent s.data.cells).take n }) hc
    simp only [EchoConnection.remaining, List.length_append] at hset
    simp only [remaining, hp]
    omega
  | forwardWrite =>
    obtain ⟨t, hp, ht, rfl, rfl⟩ := step_forwardWrite.mp hs
    simp only [remaining, hp]
    omega
  | forwardRead n =>
    obtain ⟨c, conn, hp, _, hc, hn, rfl, rfl⟩ := step_forwardRead.mp hs
    have hpos := hn.1
    have hle := hn.2.2
    have hset := total_set (f := EchoConnection.remaining)
      (t := { conn with down := conn.down.drop n }) hc
    simp only [EchoConnection.remaining, List.length_drop] at hset
    simp only [remaining, hp, Transfer.left_start]
    omega
  | writeSome n =>
    obtain ⟨t, hp, hn, rfl, rfl⟩ := step_writeSome.mp hs
    have hpos := hn.1
    have hleft := Transfer.left_advance hn.2.1
    simp only [remaining, hp, TlsStream.writeBack]
    omega
  | write =>
    obtain ⟨t, hp, ht, rfl, rfl⟩ := step_write.mp hs
    simp only [remaining, hp]
    omega
  | fail => exact absurd rfl he

theorem RelaySession.Forwards.step {e : RelayEvent} (h : s.Forwards conns)
    (hs : s.step conns e = some (s', conns')) : s'.Forwards conns' := by
  refine ⟨h.relays.step hs, released_of_step hs, ?_⟩
  have hkeep (hst : s'.stream.chunks = s.stream.chunks) : ∀ c ∈ s'.stream.chunks, c ≠ [] := by
    rw [hst]
    exact h.nonempty
  cases e with
  | read n =>
    obtain ⟨_, hn, rfl, _⟩ := step_read.mp hs
    intro c hc
    rcases List.mem_append.mp hc with hc | hc
    · exact h.nonempty c hc
    · have hlen := hn.length_take
      have hpos := hn.1
      rw [List.mem_singleton.mp hc, ← List.length_pos_iff]
      omega
  | handshake =>
    obtain ⟨_, rfl, _⟩ := step_handshake.mp hs
    exact hkeep rfl
  | contextExpired =>
    obtain ⟨_, _, _, rfl, _⟩ := step_contextExpired.mp hs
    exact hkeep rfl
  | connect =>
    obtain ⟨_, _, rfl, _⟩ := step_connect.mp hs
    exact hkeep rfl
  | forwardWriteSome n =>
    obtain ⟨_, _, _, _, _, _, _, rfl, _⟩ := step_forwardWriteSome.mp hs
    exact hkeep rfl
  | forwardWrite =>
    obtain ⟨_, _, _, rfl, _⟩ := step_forwardWrite.mp hs
    exact hkeep rfl
  | forwardRead n =>
    obtain ⟨_, _, _, _, _, _, rfl, _⟩ := step_forwardRead.mp hs
    exact hkeep rfl
  | writeSome n =>
    obtain ⟨_, _, _, rfl, _⟩ := step_writeSome.mp hs
    exact hkeep rfl
  | write =>
    obtain ⟨_, _, _, rfl, _⟩ := step_write.mp hs
    exact hkeep rfl
  | fail =>
    obtain ⟨_, rfl, _⟩ := step_fail.mp hs
    exact hkeep rfl

/-- What can keep a session from its next step: nothing to read, or no echo yet. -/
theorem RelaySession.Forwards.idle (h : s.Forwards conns)
    (hidle : ∀ e s' conns', s.step conns e = some (s', conns') → e = .fail) :
    s.pending = none ∨
      (s.pending = some .read ∧ s.stream.inbound = [] ∧ s.stream.shut = false) ∨
      ∃ c conn owed, s.socket = some c ∧ conns[c]? = some conn ∧ conn.down = [] ∧
        owed ≠ [] ∧ conn.Carries owed := by
  have hno {e : RelayEvent} {s' : RelaySession} {conns' : List EchoConnection} (he : e ≠ .fail) :
      s.step conns e ≠ some (s', conns') := fun hs => he (hidle e s' conns' hs)
  have hrel := h.relays
  unfold Relays at hrel
  rcases hp : s.pending with _ | _ | _ | length | t | _ | t
  · exact .inl rfl
  · exact (hno (by simp) (step_handshake.mpr ⟨hp, rfl, rfl⟩)).elim
  · refine .inr (.inl ⟨rfl, ?_⟩)
    have hin : s.stream.inbound = [] := by
      by_contra hin
      have hread : CanRead maxLength s.stream.inbound 1 := canRead_one (by decide) hin
      exact hno (by simp) (step_read.mpr ⟨hp, hread, rfl, rfl⟩)
    refine ⟨hin, ?_⟩
    by_contra hshut
    have hshut' : s.stream.shut = true := by simpa using hshut
    exact hno (by simp) (step_contextExpired.mpr ⟨hp, hin, hshut', rfl, rfl⟩)
  · exact (hno (by simp) (step_connect.mpr ⟨length, hp, rfl, rfl⟩)).elim
  · simp only [hp] at hrel
    obtain ⟨_, _, _, _, _, _, c, conn, hsock, hc, _⟩ := hrel
    by_cases ht : t.left = 0
    · exact (hno (by simp) (step_forwardWrite.mpr ⟨t, hp, ht, rfl, rfl⟩)).elim
    · have hacc := Transfer.canAccept_one (Nat.pos_of_ne_zero ht) (room_none conn.up 1)
      have hs := step_forwardWriteSome.mpr ⟨t, c, conn, hp, hsock, hc, hacc, rfl, rfl⟩
      exact (hno (by simp) hs).elim
  · simp only [hp] at hrel
    obtain ⟨cs, chunk, hcs, _, c, conn, hsock, hc, hcarries⟩ := hrel
    have hchunk : chunk ≠ [] := h.nonempty chunk (by simp [hcs])
    refine .inr (.inr ⟨c, conn, chunk, hsock, hc, ?_, hchunk, hcarries⟩)
    by_contra hdown
    have hread : CanRead maxLength conn.down 1 := canRead_one (by decide) hdown
    exact hno (by simp) (step_forwardRead.mpr ⟨c, conn, hp, hsock, hc, hread, rfl, rfl⟩)
  · by_cases ht : t.left = 0
    · exact (hno (by simp) (step_write.mpr ⟨t, hp, ht, rfl, rfl⟩)).elim
    · have hacc := Transfer.canAccept_one (Nat.pos_of_ne_zero ht) (room_none s.stream.outbound 1)
      exact (hno (by simp) (step_writeSome.mpr ⟨t, hp, hacc, rfl, rfl⟩)).elim

end

theorem forwards_sessionLaw : SessionLaw fun conns s => s.Forwards conns where
  fresh conns data forwardData :=
    ⟨selects_nil, released_sessionLaw.fresh conns data forwardData, by simp [TlsStream.fresh]⟩
  mono _ _ _ h hm := ⟨h.relays.mono hm, h.released, h.nonempty⟩
  stream conns s st h hc hr := by
    refine ⟨relays_sessionLaw.stream conns s st h.relays hc hr, ?_, ?_⟩
    · exact released_sessionLaw.stream conns s st h.released hc hr
    · rw [hc]
      exact h.nonempty

/-- What the processes of the relay and of the echo server do of themselves. -/
def RelayWorldEvent.internal : RelayWorldEvent → Bool
  | .session _ .fail | .backend .acceptFailed | .backend (.connection _ .fail) => false
  | .session _ _ | .backend (.connection _ _) => true
  | _ => false

theorem RelayWorldEvent.internal_cases {e : RelayWorldEvent} (h : e.internal = true) :
    (∃ k e', e = .session k e' ∧ e' ≠ .fail) ∨
      ∃ c e', e = .backend (.connection c e') ∧ e' ≠ .fail := by
  rcases e with _ | _ | _ | _ | _ | ⟨k, e⟩ | _ | ⟨c, e⟩
  case session =>
    refine .inl ⟨k, e, rfl, ?_⟩
    rintro rfl
    exact absurd h nofun
  case backend.connection =>
    refine .inr ⟨c, e, rfl, ?_⟩
    rintro rfl
    exact absurd h nofun
  all_goals exact absurd h nofun

theorem RelayWorldEvent.internal_session {k : Nat} {e : RelayEvent} (he : e ≠ .fail) :
    (RelayWorldEvent.session k e).internal = true := by
  cases e <;> first | rfl | exact absurd rfl he

theorem RelayWorldEvent.internal_connection {c : Nat} {e : EchoEvent} (he : e ≠ .fail) :
    (RelayWorldEvent.backend (.connection c e)).internal = true := by
  cases e <;> first | rfl | exact absurd rfl he

/-- What holds as long as no operation has failed. -/
structure RelayWorld.Unfailing (w : RelayWorld) : Prop where
  keeps : w.Keeps fun conns s => s.Forwards conns
  held : w.Held
  running : w.status = .running
  accepting : 0 < w.backend.accepts
  lively : ∀ (c : Nat) conn, w.backend.connections[c]? = some conn → conn.nearOpen = true →
    conn.Live
  awake : ∀ (k : Nat) s, w.sessions[k]? = some s → s.pending = none → s.stream.shut = true

structure RelayWorld.Settled (w : RelayWorld) : Prop where
  sessions : ∀ (k : Nat) s, w.sessions[k]? = some s →
    if s.stream.shut then s.pending = none ∧ s.socket = none
    else s.pending = some .read ∧ s.stream.inbound = []
  connections : ∀ (c : Nat) conn, w.backend.connections[c]? = some conn → conn.Settled

section

variable {w w' : RelayWorld}

theorem RelayWorld.step_remaining {e : RelayWorldEvent} (he : e.internal = true)
    (hs : w.step e = some w') : w'.remaining < w.remaining := by
  obtain ⟨k, e, rfl, hfail⟩ | ⟨c, e, rfl, hfail⟩ := RelayWorldEvent.internal_cases he
  · obtain ⟨s, s', conns, hk, hsess, rfl⟩ := step_session hs
    have hlower := RelaySession.step_remaining hsess hfail
    have hset := total_set (f := RelaySession.remaining) (t := s') hk
    simp only [remaining]
    omega
  · obtain ⟨v, hv, rfl⟩ := step_backend hs
    obtain ⟨conn, conn', hc, hconn, rfl⟩ := EchoServer.step_connection hv
    have hlower := EchoConnection.step_remaining hconn hfail
    have hset := total_set (f := EchoConnection.remaining) (t := conn') hc
    simp only [remaining]
    omega

theorem RelayWorld.Keeps.mono {Q Q' : List EchoConnection → RelaySession → Prop} (h : w.Keeps Q)
    (hQ : ∀ conns s, Q conns s → Q' conns s) : w.Keeps Q' :=
  ⟨fun k s hk => hQ _ s (h.law k s hk), h.bound, h.owned⟩

theorem RelayWorld.Unfailing.lively_session (h : w.Unfailing) {s s' : RelaySession}
    {conns : List EchoConnection} {e : RelayEvent}
    (hs : s.step w.backend.connections e = some (s', conns)) {i : Nat} {u : EchoConnection}
    (hi : conns[i]? = some u) (ho : u.nearOpen = true) : u.Live := by
  rcases RelaySession.step_table hs with ⟨rfl, _⟩ | ⟨rfl, _⟩ | ⟨rfl, _⟩ |
    ⟨c, conn, up, down, _, hc, rfl, _⟩
  · exact h.lively i u hi ho
  · by_cases hown : s.socket = some i
    · exact absurd (ho.symm.trans (RelaySession.closeSocket_own hown hi)) nofun
    · rw [RelaySession.closeSocket_other hown] at hi
      exact h.lively i u hi ho
  · rcases getElem?_snoc_cases hi with ⟨_, rfl⟩ | ⟨_, hi⟩
    · exact nofun
    · exact h.lively i u hi ho
  · rcases getElem?_set_cases hi with ⟨_, rfl⟩ | ⟨_, hi⟩
    · exact h.lively c conn hc ho
    · exact h.lively i u hi ho

theorem RelayWorld.Unfailing.onStream {k : Nat} {f : TlsStream → TlsStream} (h : w.Unfailing)
    (hkeep : w'.Keeps fun conns s => s.Forwards conns) (hheld : w'.Held)
    (hf : ∀ st : TlsStream, st.shut = true → (f st).shut = true)
    (hs : w.onStream k f = some w') : w'.Unfailing := by
  obtain ⟨s, hk, rfl⟩ := onStream_some.mp hs
  refine ⟨hkeep, hheld, h.running, h.accepting, h.lively, fun j u hj hp => ?_⟩
  rcases getElem?_set_cases hj with ⟨rfl, rfl⟩ | ⟨_, hj⟩
  · exact hf _ (h.awake j s hk hp)
  · exact h.awake j u hj hp

theorem RelayWorld.Unfailing.step {e : RelayWorldEvent} (h : w.Unfailing) (he : e.noError = true)
    (hs : w.step e = some w') : w'.Unfailing := by
  have hkeep := h.keeps.step forwards_sessionLaw hs fun k s _ _ _ _ hk hsess =>
    (h.keeps.law k s hk).step hsess
  have hheld := h.held.step (h.keeps.mono fun _ _ hf => hf.released) hs
  cases e with
  | accept data forwardData resolve =>
    obtain ⟨_, ⟨_, rfl⟩ | ⟨⟨code, rfl⟩, _⟩⟩ := step_accept hs
    · refine ⟨hkeep, hheld, h.running, h.accepting, h.lively, fun k s hk hp => ?_⟩
      rcases getElem?_snoc_cases hk with ⟨_, rfl⟩ | ⟨_, hk⟩
      · exact absurd hp nofun
      · exact h.awake k s hk hp
    · exact absurd he nofun
  | acceptFailed => exact absurd he nofun
  | clientSend k xs =>
    exact h.onStream (f := (·.send xs)) hkeep hheld (fun _ => id) (step_running hs).2
  | clientReceive k n =>
    exact h.onStream (f := (·.receive n)) hkeep hheld (fun _ => id) (step_running hs).2
  | clientShutdown k =>
    exact h.onStream (f := ({ · with shut := true })) hkeep hheld (fun _ _ => rfl)
      (step_running hs).2
  | session k e =>
    obtain ⟨s, s', conns, hk, hsess, rfl⟩ := step_session hs
    have hfail : e ≠ .fail := by
      rintro rfl
      exact absurd he nofun
    refine ⟨hkeep, hheld, h.running, h.accepting, fun c u => h.lively_session hsess, ?_⟩
    intro j u hj hp
    rcases getElem?_set_cases hj with ⟨rfl, rfl⟩ | ⟨_, hj⟩
    · rw [(RelaySession.step_stream hsess).2.1]
      by_contra hshut
      exact RelaySession.step_awake hsess hfail (by simpa using hshut) hp
    · exact h.awake j u hj hp
  | backend e =>
    obtain ⟨v, hv, rfl⟩ := step_backend hs
    cases e with
    | acceptFailed => exact absurd he nofun
    | connection c e =>
      have hfail : e ≠ .fail := by
        rintro rfl
        exact absurd he nofun
      obtain ⟨conn, conn', hc, hconn, rfl⟩ := EchoServer.step_connection hv
      refine ⟨hkeep, hheld, h.running, h.accepting, fun i u hi ho => ?_, h.awake⟩
      rcases getElem?_set_cases hi with ⟨_, rfl⟩ | ⟨_, hi⟩
      · have hopen := (EchoConnection.step_nearOpen hconn).symm.trans ho
        exact (EchoConnection.Live.step hconn hopen hfail).2
      · exact h.lively i u hi ho

theorem RelayWorld.Unfailing.settled (h : w.Unfailing)
    (hstuck : ∀ e w', e.internal = true → w.step e ≠ some w') : w.Settled := by
  have hconn {c : Nat} {conn : EchoConnection} (hc : w.backend.connections[c]? = some conn) :
      ∀ e c', conn.step none e = some c' → e = .fail := by
    intro e c' hs
    by_contra he
    obtain ⟨v, hv⟩ := EchoServer.connection_enabled h.accepting hc hs
    have hstep : w.step (.backend (.connection c e)) = some { w with backend := v } := by
      rw [RelayWorld.step, if_pos h.running, stepRunning, hv, Option.map_some]
    exact hstuck _ _ (RelayWorldEvent.internal_connection he) hstep
  constructor
  · intro k s hk
    have hforwards := h.keeps.law k s hk
    have hidle := hforwards.idle fun e s' conns' hs => by
      by_contra he
      have hstep : w.step (.session k e) = some { w with
          sessions := w.sessions.set k s'
          backend := { w.backend with connections := conns' } } := by
        rw [RelayWorld.step, if_pos h.running, stepRunning, hk, Option.bind_some, hs,
          Option.map_some]
      exact hstuck _ _ (RelayWorldEvent.internal_session he) hstep
    rcases hidle with hp | ⟨hp, hin, hshut⟩ | ⟨c, conn, owed, hsock, hc, hdown, howed, hcarries⟩
    · simp only [h.awake k s hk hp, if_true, hp, true_and]
      exact hforwards.released.ended hp
    · simp only [hshut, Bool.false_eq_true, if_false, hp, hin, and_self]
    · have hopen := (h.held c conn hc).mpr ⟨k, s, hk, hsock⟩
      have hlive := h.lively c conn hc hopen
      have hempty : conn.inFlight = [] := by
        rcases hlive.idle (hconn hc) with ⟨hheld, hup⟩ | ⟨_, _, _, _, hfull⟩
        · simp only [EchoConnection.inFlight, hdown, hheld, hup, List.append_nil]
        · exact absurd (room_none _ _) hfull
      exact absurd ((hcarries.2 hlive).symm.trans hempty) howed
  · intro c conn hc
    exact EchoConnection.settled_of_idle (h.lively c conn hc) (room_none _ _) (hconn hc)

end

end ScratchServers
