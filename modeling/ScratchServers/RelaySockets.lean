import ScratchServers.RelayIsolation

/-! Who holds the relay's connections to the echo server: each open one belongs
to one session that is still alive, so that a destroyed session leaves none open. -/

namespace ScratchServers

/-- No socket is left open where a session ends or is about to connect again. -/
structure RelaySession.Released (s : RelaySession) : Prop where
  ended : s.pending = none → s.socket = none
  connecting : ∀ length, s.pending = some (.connect length) → s.socket = none

section

variable {conns conns' : List EchoConnection} {s s' : RelaySession}

theorem RelaySession.released_of_step {e : RelayEvent}
    (hs : s.step conns e = some (s', conns')) : s'.Released := by
  cases e with
  | handshake =>
    obtain ⟨_, rfl, _⟩ := step_handshake.mp hs
    exact ⟨by simp, by simp⟩
  | read n =>
    obtain ⟨_, _, rfl, _⟩ := step_read.mp hs
    exact ⟨fun _ => rfl, fun _ _ => rfl⟩
  | contextExpired =>
    obtain ⟨_, _, _, rfl, _⟩ := step_contextExpired.mp hs
    exact ⟨fun _ => rfl, fun _ _ => rfl⟩
  | connect =>
    obtain ⟨_, _, rfl, _⟩ := step_connect.mp hs
    exact ⟨by simp, by simp⟩
  | forwardWriteSome n =>
    obtain ⟨_, _, _, _, _, _, _, rfl, _⟩ := step_forwardWriteSome.mp hs
    exact ⟨by simp, by simp⟩
  | forwardWrite =>
    obtain ⟨_, _, _, rfl, _⟩ := step_forwardWrite.mp hs
    exact ⟨by simp, by simp⟩
  | forwardRead n =>
    obtain ⟨_, _, _, _, _, _, rfl, _⟩ := step_forwardRead.mp hs
    exact ⟨by simp, by simp⟩
  | writeSome n =>
    obtain ⟨_, _, _, rfl, _⟩ := step_writeSome.mp hs
    exact ⟨by simp, by simp⟩
  | write =>
    obtain ⟨_, _, _, rfl, _⟩ := step_write.mp hs
    exact ⟨by simp, by simp⟩
  | fail =>
    obtain ⟨_, rfl, _⟩ := step_fail.mp hs
    exact ⟨fun _ => rfl, fun _ _ => rfl⟩

/-- A step closes the session's connection, opens one while it has none, or
leaves all of them as open as they were. -/
theorem RelaySession.Released.step_open {e : RelayEvent} (h : s.Released)
    (hs : s.step conns e = some (s', conns')) :
    (conns' = s.closeSocket conns ∧ s'.socket = none) ∨
      (conns' = conns ++ [.fresh] ∧ s.socket = none ∧ s'.socket = some conns.length) ∨
      (conns'.map (·.nearOpen) = conns.map (·.nearOpen) ∧ s'.socket = s.socket) := by
  cases e with
  | connect =>
    obtain ⟨length, hp, rfl, rfl⟩ := step_connect.mp hs
    exact .inr (.inl ⟨rfl, h.connecting length hp, rfl⟩)
  | forwardWriteSome n =>
    obtain ⟨t, c, conn, _, _, hc, _, rfl, rfl⟩ := step_forwardWriteSome.mp hs
    exact .inr (.inr ⟨map_set_of_eq hc rfl, rfl⟩)
  | forwardRead n =>
    obtain ⟨c, conn, _, _, hc, _, rfl, rfl⟩ := step_forwardRead.mp hs
    exact .inr (.inr ⟨map_set_of_eq hc rfl, rfl⟩)
  | handshake =>
    obtain ⟨_, rfl, rfl⟩ := step_handshake.mp hs
    exact .inr (.inr ⟨rfl, rfl⟩)
  | forwardWrite =>
    obtain ⟨_, _, _, rfl, rfl⟩ := step_forwardWrite.mp hs
    exact .inr (.inr ⟨rfl, rfl⟩)
  | writeSome n =>
    obtain ⟨_, _, _, rfl, rfl⟩ := step_writeSome.mp hs
    exact .inr (.inr ⟨rfl, rfl⟩)
  | write =>
    obtain ⟨_, _, _, rfl, rfl⟩ := step_write.mp hs
    exact .inr (.inr ⟨rfl, rfl⟩)
  | read n =>
    obtain ⟨_, _, rfl, rfl⟩ := step_read.mp hs
    exact .inl ⟨rfl, rfl⟩
  | contextExpired =>
    obtain ⟨_, _, _, rfl, rfl⟩ := step_contextExpired.mp hs
    exact .inl ⟨rfl, rfl⟩
  | fail =>
    obtain ⟨_, rfl, rfl⟩ := step_fail.mp hs
    exact .inl ⟨rfl, rfl⟩

theorem RelaySession.closeSocket_own {c : Nat} {conn : EchoConnection} (hsock : s.socket = some c)
    (hc : (s.closeSocket conns)[c]? = some conn) : conn.nearOpen = false := by
  simp only [closeSocket, hsock, List.getElem?_modify, Option.map_eq_map,
    Option.map_eq_some_iff] at hc
  obtain ⟨u, _, rfl⟩ := hc
  simp

end

theorem released_sessionLaw : SessionLaw fun _ s => s.Released where
  fresh _ _ _ := ⟨by simp, by simp⟩
  mono _ _ _ h _ := h
  stream _ _ _ h _ _ := ⟨h.ended, h.connecting⟩

def RelayWorld.Owned (w : RelayWorld) (c : Nat) : Prop :=
  ∃ (k : Nat) (s : RelaySession), w.sessions[k]? = some s ∧ s.socket = some c

def RelayWorld.OwnedBut (w : RelayWorld) (k c : Nat) : Prop :=
  ∃ (j : Nat) (s : RelaySession), j ≠ k ∧ w.sessions[j]? = some s ∧ s.socket = some c

/-- The open connections are those that a session's socket is open on. -/
def RelayWorld.Held (w : RelayWorld) : Prop :=
  ∀ c conn, w.backend.connections[c]? = some conn → (conn.nearOpen = true ↔ w.Owned c)

section

variable {w w' : RelayWorld}

theorem RelayWorld.owned_iff {k c : Nat} {s : RelaySession} (hk : w.sessions[k]? = some s) :
    w.Owned c ↔ s.socket = some c ∨ w.OwnedBut k c := by
  constructor
  · rintro ⟨j, u, hj, hu⟩
    by_cases hjk : j = k
    · obtain rfl := hjk
      obtain rfl : s = u := Option.some.inj (hk.symm.trans hj)
      exact .inl hu
    · exact .inr ⟨j, u, hjk, hj, hu⟩
  · rintro (hs | ⟨j, u, _, hj, hu⟩)
    · exact ⟨k, s, hk, hs⟩
    · exact ⟨j, u, hj, hu⟩

theorem RelayWorld.ownedBut_set {k c : Nat} {s : RelaySession} (backend : EchoServer) :
    RelayWorld.OwnedBut { w with sessions := w.sessions.set k s, backend := backend } k c ↔
      w.OwnedBut k c := by
  refine exists_congr fun j => exists_congr fun u => and_congr_right fun hjk => ?_
  rw [List.getElem?_set_ne (Ne.symm hjk)]

theorem RelayWorld.Held.session {k : Nat} {s s' : RelaySession} {conns : List EchoConnection}
    {e : RelayEvent} (h : w.Held) (hkeep : w.Keeps fun _ s => s.Released)
    (hk : w.sessions[k]? = some s) (hs : s.step w.backend.connections e = some (s', conns)) :
    RelayWorld.Held { w with
      sessions := w.sessions.set k s'
      backend := { w.backend with connections := conns } } := by
  have hk' : (w.sessions.set k s')[k]? = some s' :=
    List.getElem?_set_self (lt_length_of_getElem? hk)
  intro c conn hc
  rw [owned_iff hk', ownedBut_set]
  rcases (hkeep.law k s hk).step_open hs with ⟨rfl, hsock⟩ | ⟨rfl, hold, hsock⟩ | ⟨hmap, hsock⟩
  · simp only [hsock, reduceCtorEq, false_or]
    by_cases hown : s.socket = some c
    · rw [RelaySession.closeSocket_own hown hc]
      refine iff_of_false (by simp) ?_
      rintro ⟨j, u, hjk, hj, hu⟩
      exact hjk (hkeep.owned j k u s c hj hk hu hown)
    · rw [RelaySession.closeSocket_other hown] at hc
      rw [h c conn hc, owned_iff hk]
      exact or_iff_right hown
  · rcases getElem?_snoc_cases hc with ⟨rfl, rfl⟩ | ⟨hlt, hc⟩
    · exact iff_of_true rfl (.inl hsock)
    · have hne : s'.socket ≠ some c := by
        rw [hsock]
        intro heq
        have := Option.some.inj heq
        omega
      rw [h c conn hc, owned_iff hk, hold, or_iff_right hne, or_iff_right (by simp)]
  · obtain ⟨u, hu, hopen⟩ := getElem?_of_map_eq hmap hc
    rw [← hopen, h c u hu, owned_iff hk, hsock]

theorem RelayWorld.Held.of_sockets (h : w.Held)
    (hconns : w'.backend.connections.map (·.nearOpen) = w.backend.connections.map (·.nearOpen))
    (hsock : ∀ c, w'.Owned c ↔ w.Owned c) : w'.Held := by
  intro c conn hc
  obtain ⟨u, hu, hopen⟩ := getElem?_of_map_eq hconns hc
  rw [← hopen, h c u hu, hsock]

theorem RelayWorld.Held.onStream {k : Nat} {f : TlsStream → TlsStream} (h : w.Held)
    (hs : w.onStream k f = some w') : w'.Held := by
  obtain ⟨s, hk, rfl⟩ := onStream_some.mp hs
  refine h.of_sockets rfl fun c => ?_
  have hk' := List.getElem?_set_self (a := { s with stream := f s.stream })
    (lt_length_of_getElem? hk)
  rw [owned_iff (w := { w with sessions := _ }) hk', ownedBut_set w.backend, owned_iff hk]

theorem RelayWorld.Held.step {e : RelayWorldEvent} (h : w.Held)
    (hkeep : w.Keeps fun _ s => s.Released) (hs : w.step e = some w') : w'.Held := by
  cases e with
  | accept data forwardData resolve =>
    obtain ⟨_, ⟨_, rfl⟩ | ⟨_, rfl⟩⟩ := step_accept hs
    · refine h.of_sockets rfl fun c => ⟨?_, ?_⟩
      · rintro ⟨k, s, hk, hc⟩
        rcases getElem?_snoc_cases hk with ⟨_, rfl⟩ | ⟨_, hk⟩
        · exact absurd hc nofun
        · exact ⟨k, s, hk, hc⟩
      · rintro ⟨k, s, hk, hc⟩
        have hlt := lt_length_of_getElem? hk
        exact ⟨k, s, (List.getElem?_append_left hlt).trans hk, hc⟩
    · exact h.of_sockets rfl fun c => Iff.rfl
  | acceptFailed =>
    obtain ⟨_, rfl⟩ := step_acceptFailed hs
    exact h
  | clientSend k xs => exact h.onStream (f := (·.send xs)) (step_running hs).2
  | clientReceive k n => exact h.onStream (f := (·.receive n)) (step_running hs).2
  | clientShutdown k =>
    exact h.onStream (f := ({ · with shut := true })) (step_running hs).2
  | session k e =>
    obtain ⟨s, s', conns, hk, hsess, rfl⟩ := step_session hs
    exact h.session hkeep hk hsess
  | backend e =>
    obtain ⟨v, hv, rfl⟩ := step_backend hs
    cases e with
    | acceptFailed =>
      obtain ⟨_, rfl⟩ := EchoServer.step_acceptFailed.mp hv
      exact h
    | connection c e =>
      obtain ⟨conn, conn', hc, hconn, rfl⟩ := EchoServer.step_connection hv
      have hmap := map_set_of_eq hc (f := (·.nearOpen)) (EchoConnection.step_nearOpen hconn)
      exact h.of_sockets hmap fun c => Iff.rfl

theorem RelayWorld.Keeps.released_step {e : RelayWorldEvent}
    (h : w.Keeps fun _ s => s.Released) (hs : w.step e = some w') :
    w'.Keeps fun _ s => s.Released :=
  h.step released_sessionLaw hs fun _ _ _ _ _ _ _ hsess => RelaySession.released_of_step hsess

theorem relayWorld_held (h : relayWorld.Reachable w) :
    w.Keeps (fun _ s => s.Released) ∧ w.Held := by
  refine h.invariant (P := fun w => w.Keeps (fun _ s => s.Released) ∧ w.Held) ?_ ?_
  · rintro w rfl
    refine ⟨relayWorld_start_keeps rfl, fun c conn hc => absurd hc ?_⟩
    simp [RelayWorld.construct, RelayWorld.doAccept, EchoServer.construct, EchoServer.doAccept]
  · rintro w e w' ⟨hkeep, hheld⟩ hs
    exact ⟨hkeep.released_step hs, hheld.step hkeep hs⟩

/-- However sessions, connections and errors interleave: a connection to the echo
server is open exactly when the socket of one living session is open on it. -/
theorem relay_sockets_owned (h : relayWorld.Reachable w) {c : Nat} {conn : EchoConnection}
    (hc : w.backend.connections[c]? = some conn) :
    conn.nearOpen = true ↔
      ∃! k : Nat, ∃ s, w.sessions[k]? = some s ∧ s.socket = some c ∧ s.pending ≠ none := by
  obtain ⟨hkeep, hheld⟩ := relayWorld_held h
  rw [hheld c conn hc]
  constructor
  · rintro ⟨k, s, hk, hs⟩
    have hlive : s.pending ≠ none := by
      intro hp
      exact absurd (hs.symm.trans ((hkeep.law k s hk).ended hp)) nofun
    refine ⟨k, ⟨s, hk, hs, hlive⟩, ?_⟩
    rintro j ⟨u, hj, hu, _⟩
    exact hkeep.owned j k u s c hj hk hu hs
  · rintro ⟨k, ⟨s, hk, hs, _⟩, _⟩
    exact ⟨k, s, hk, hs⟩

/-- The first client's reconnect closes its first connection and opens another one, and
an error ends the second client's session while its connection is open. -/
theorem relay_sockets_owned_run :
    ∃ (w : RelayWorld) (conn : EchoConnection), relayWorld.Reachable w ∧
      w.backend.connections[2]? = some conn ∧ conn.nearOpen = true ∧
      ∃! k : Nat, ∃ s, w.sessions[k]? = some s ∧ s.socket = some 2 ∧ s.pending ≠ none := by
  obtain ⟨w, hw, hq⟩ := relayWorld.exists_reachable_of_run .construct
    (acceptClient 0 ++ acceptClient 1 ++ echoRound 0 0 1 [1, 2] ++ echoRound 1 1 1 [3] ++
      [.clientSend 0 [4], .session 0 (.read 1), .session 0 .connect, .session 1 .fail])
    (fun w => w.backend.connections[2]?.any (·.nearOpen)) rfl (by decide +kernel)
  obtain ⟨conn, hc, hopen⟩ := (Option.any_eq_true _ _).mp hq
  exact ⟨w, conn, hw, hc, hopen, (relay_sockets_owned hw hc).mp hopen⟩

end

end ScratchServers
