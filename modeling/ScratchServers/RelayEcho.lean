import ScratchServers.RelayIsolation

/-! When the relay is an echo server to its clients: what it returns is an
unbroken prefix of what was sent as long as no reconnect closes a connection
that still carries part of the echo. -/

namespace ScratchServers

def RelaySession.toForward (s : RelaySession) : Bytes :=
  match s.pending with
  | some (.connect length) => s.data.front length
  | some (.forwardWrite t) => t.unsent s.data.cells
  | _ => []

def RelaySession.toReturn (s : RelaySession) : Bytes :=
  match s.pending with
  | some (.write t) => t.unsent s.forwardData.cells
  | _ => []

def RelaySession.Awaits (s : RelaySession) (conns : List EchoConnection) (rest : Bytes) : Prop :=
  match s.socket with
  | some c => ∃ conn, conns[c]? = some conn ∧ conn.Carries rest
  | none => rest = []

/-- All that a session has read is written back, or in its hands, or on its connection. -/
structure RelaySession.Unbroken (conns : List EchoConnection) (s : RelaySession) : Prop where
  returned : s.stream.returned <+: s.stream.chunks.flatten
  closed : ∀ length, s.pending = some (.connect length) → s.socket = none
  conserves : s.pending ≠ none → ∃ rest, s.Awaits conns rest ∧
    s.stream.returned ++ (s.toReturn ++ (rest ++ s.toForward)) = s.stream.chunks.flatten

section

variable {conns conns' : List EchoConnection} {s s' : RelaySession}

theorem RelaySession.Awaits.mono {rest : Bytes} (h : s.Awaits conns rest)
    (hm : ∀ c conn, s.socket = some c → conns[c]? = some conn →
      ∃ conn', conns'[c]? = some conn' ∧ ∀ owed, conn.Carries owed → conn'.Carries owed) :
    s.Awaits conns' rest := by
  unfold Awaits at h ⊢
  rcases hsock : s.socket with _ | c <;> simp only [hsock] at h ⊢
  · exact h
  · obtain ⟨conn, hc, hcarries⟩ := h
    obtain ⟨conn', hc', hk⟩ := hm c conn hsock hc
    exact ⟨conn', hc', hk rest hcarries⟩

theorem RelaySession.Unbroken.of_conserves {r : Bytes}
    (hclosed : ∀ length, s.pending = some (.connect length) → s.socket = none)
    (hw : s.Awaits conns r)
    (he : s.stream.returned ++ (s.toReturn ++ (r ++ s.toForward)) = s.stream.chunks.flatten) :
    s.Unbroken conns :=
  ⟨⟨_, he⟩, hclosed, fun _ => ⟨r, hw, he⟩⟩

theorem RelaySession.Unbroken.release (h : s.Unbroken conns) :
    ({ s with socket := none, pending := none } : RelaySession).Unbroken conns' :=
  ⟨h.returned, by simp, fun hp => absurd rfl hp⟩

theorem RelaySession.Awaits.eq_nil {rest : Bytes} (h : s.Awaits conns rest)
    (hd : ∀ c conn, s.socket = some c → conns[c]? = some conn → conn.Live ∧ conn.inFlight = []) :
    rest = [] := by
  unfold Awaits at h
  rcases hsock : s.socket with _ | c <;> simp only [hsock] at h
  · exact h
  · obtain ⟨conn, hc, hcarries⟩ := h
    obtain ⟨hlive, hempty⟩ := hd c conn hsock hc
    exact (hcarries.2 hlive).symm.trans hempty

theorem RelaySession.Unbroken.step {e : RelayEvent} (h : s.Unbroken conns)
    (hs : s.step conns e = some (s', conns'))
    (hd : ∀ n, e = .read n → ∀ rest, s.Awaits conns rest → rest = []) : s'.Unbroken conns' := by
  cases e with
  | handshake =>
    obtain ⟨hp, rfl, rfl⟩ := step_handshake.mp hs
    obtain ⟨rest, hw, hc⟩ := h.conserves (by simp [hp])
    simp only [toReturn, toForward, hp] at hc
    exact .of_conserves (by simp) hw hc
  | read n =>
    obtain ⟨hp, hn, rfl, rfl⟩ := step_read.mp hs
    obtain ⟨rest, hw, hc⟩ := h.conserves (by simp [hp])
    obtain rfl : rest = [] := hd n rfl rest hw
    have hfront := hn.front_put_zero s.data
    refine .of_conserves (fun _ _ => rfl) rfl ?_
    simp only [toReturn, toForward, hp, List.append_nil] at hc
    simp only [toReturn, toForward, hfront, TlsStream.readChunk, hc, List.nil_append,
      List.flatten_append, List.flatten_singleton]
  | contextExpired =>
    obtain ⟨_, _, _, rfl, rfl⟩ := step_contextExpired.mp hs
    exact h.release
  | connect =>
    obtain ⟨length, hp, rfl, rfl⟩ := step_connect.mp hs
    obtain ⟨rest, hw, hc⟩ := h.conserves (by simp [hp])
    obtain rfl : rest = [] := by simpa only [Awaits, h.closed length hp] using hw
    have hfresh := EchoConnection.fresh_carries
    refine .of_conserves (by simp) ⟨.fresh, List.getElem?_concat_length, hfresh⟩ ?_
    simpa only [toReturn, toForward, hp, Transfer.unsent_start, Buffer.front] using hc
  | forwardWriteSome n =>
    obtain ⟨t, i, conn, hp, hsock, hi, hn, rfl, rfl⟩ := step_forwardWriteSome.mp hs
    obtain ⟨rest, hw, hc⟩ := h.conserves (by simp [hp])
    simp only [Awaits, hsock] at hw
    obtain ⟨conn', hi', hcarries⟩ := hw
    obtain rfl : conn = conn' := Option.some.inj (hi.symm.trans hi')
    have hpush := hcarries.push ((t.unsent s.data.cells).take n)
    refine .of_conserves (by simp) (r := rest ++ (t.unsent s.data.cells).take n) ?_ ?_
    · simp only [Awaits, hsock]
      exact ⟨_, List.getElem?_set_self (lt_length_of_getElem? hi), hpush⟩
    · simp only [toReturn, toForward, hp] at hc
      rw [← Transfer.take_append_unsent hn.2.1] at hc
      simpa only [toReturn, toForward, List.append_assoc] using hc
  | forwardWrite =>
    obtain ⟨t, hp, ht, rfl, rfl⟩ := step_forwardWrite.mp hs
    obtain ⟨rest, hw, hc⟩ := h.conserves (by simp [hp])
    refine .of_conserves (by simp) hw ?_
    simpa only [toReturn, toForward, hp, Transfer.unsent_eq_nil ht] using hc
  | forwardRead n =>
    obtain ⟨i, conn, hp, hsock, hi, hn, rfl, rfl⟩ := step_forwardRead.mp hs
    obtain ⟨rest, hw, hc⟩ := h.conserves (by simp [hp])
    simp only [Awaits, hsock] at hw
    obtain ⟨conn', hi', hcarries⟩ := hw
    obtain rfl : conn = conn' := Option.some.inj (hi.symm.trans hi')
    have hfront := hn.front_put_zero s.forwardData
    obtain ⟨htake, hpop⟩ := hcarries.pop hn.2.2
    refine .of_conserves (by simp) (r := rest.drop n) ?_ ?_
    · simp only [Awaits, hsock]
      exact ⟨_, List.getElem?_set_self (lt_length_of_getElem? hi), hpop⟩
    · simp only [toReturn, toForward, hp, List.nil_append, List.append_nil] at hc
      change _ ++ ((s.forwardData.put 0 (conn.down.take n)).front n ++ (rest.drop n ++ [])) = _
      rw [hfront, htake, List.append_nil, List.take_append_drop, hc]
  | writeSome n =>
    obtain ⟨t, hp, hn, rfl, rfl⟩ := step_writeSome.mp hs
    obtain ⟨rest, hw, hc⟩ := h.conserves (by simp [hp])
    refine .of_conserves (by simp) hw ?_
    simp only [toReturn, toForward, hp] at hc
    rw [← Transfer.take_append_unsent hn.2.1] at hc
    simpa only [toReturn, toForward, TlsStream.writeBack, List.append_assoc] using hc
  | write =>
    obtain ⟨t, hp, ht, rfl, rfl⟩ := step_write.mp hs
    obtain ⟨rest, hw, hc⟩ := h.conserves (by simp [hp])
    refine .of_conserves (by simp) hw ?_
    simpa only [toReturn, toForward, hp, Transfer.unsent_eq_nil ht] using hc
  | fail =>
    obtain ⟨_, rfl, rfl⟩ := step_fail.mp hs
    exact h.release

end

theorem unbroken_sessionLaw : SessionLaw fun conns s => s.Unbroken conns where
  fresh _ _ _ := .of_conserves (by simp) rfl rfl
  mono conns conns' s h hm := by
    refine ⟨h.returned, h.closed, fun hp => ?_⟩
    obtain ⟨rest, hw, hc⟩ := h.conserves hp
    exact ⟨rest, hw.mono hm, hc⟩
  stream conns s st h hc hr := by
    refine ⟨by simpa only [hc, hr] using h.returned, h.closed, fun hp => ?_⟩
    obtain ⟨rest, hw, he⟩ := h.conserves hp
    refine ⟨rest, hw, ?_⟩
    rw [hc, hr]
    exact he

def RelayWorldEvent.reader : RelayWorldEvent → Option Nat
  | .session k (.read _) => some k
  | _ => none

/-- No session takes a further chunk, and with it closes its connection to the
echo server, while something is still on its way on that connection. -/
def DrainedReconnect (w : RelayWorld) (e : RelayWorldEvent) : Prop :=
  ∀ k ∈ e.reader, ∀ s ∈ w.sessions[k]?, ∀ c ∈ s.socket, ∀ conn ∈ w.backend.connections[c]?,
    conn.Live ∧ conn.inFlight = []

instance (w : RelayWorld) (e : RelayWorldEvent) : Decidable (DrainedReconnect w e) :=
  inferInstanceAs (Decidable (∀ k ∈ e.reader, ∀ s ∈ w.sessions[k]?, ∀ c ∈ s.socket,
    ∀ conn ∈ w.backend.connections[c]?, conn.Live ∧ conn.inFlight = []))

theorem relay_returns_prefix {w : RelayWorld} (h : relayWorld.ReachableBy DrainedReconnect w)
    {k : Nat} {s : RelaySession} (hk : w.sessions[k]? = some s) :
    s.stream.returned <+: s.stream.sent := by
  have hkeeps : w.Keeps fun conns s => s.Unbroken conns := by
    refine h.invariant (fun w => relayWorld_start_keeps) fun w e w' hw hd hs => ?_
    refine hw.step unbroken_sessionLaw hs fun k s s' conns e' he hk hsess => ?_
    refine (hw.law k s hk).step hsess fun n hn rest hrest => hrest.eq_nil fun c conn hc hconn => ?_
    subst he hn
    exact hd k rfl s hk c hc conn hconn
  exact (hkeeps.law k s hk).returned.trans ⟨_, relayWorld_received h.reachable k s hk⟩

theorem relay_returns_prefix_run :
    ∃ (w : RelayWorld) (s : RelaySession), relayWorld.ReachableBy DrainedReconnect w ∧
      w.sessions[0]? = some s ∧ s.stream.returned = [1, 2, 3] ∧
      s.stream.returned <+: s.stream.sent := by
  obtain ⟨w, hw, hq⟩ := relayWorld.exists_reachableBy_of_run DrainedReconnect .construct
    (acceptClient 0 ++ echoRound 0 0 2 [1, 2] ++ echoRound 0 1 1 [3])
    (fun w => w.sessions[0]?.any fun s => s.stream.returned = [1, 2, 3]) rfl (by decide +kernel)
  obtain ⟨s, hs, hret⟩ := (Option.any_eq_true _ _).mp hq
  exact ⟨w, s, hw, hs, of_decide_eq_true hret, relay_returns_prefix hw hs⟩

def RelayWorldEvent.noError : RelayWorldEvent → Bool
  | .accept _ _ (.error _) | .acceptFailed | .session _ .fail => false
  | .backend .acceptFailed | .backend (.connection _ .fail) => false
  | _ => true

/-- The echo server reads `[1]` of `[1, 2]`, and the reconnect for `[3]` leaves
`[2]` behind on the first connection. -/
theorem relay_loses_rest_of_echo :
    ¬ ∀ w : RelayWorld, relayWorld.ReachableBy (fun _ e => e.noError) w →
      ∀ (k : Nat) s, w.sessions[k]? = some s → s.stream.returned <+: s.stream.sent := by
  intro h
  obtain ⟨w, hw, hq⟩ := relayWorld.exists_reachableBy_of_run (fun _ e => e.noError) .construct
    (acceptClient 0 ++ echoRound 0 0 1 [1, 2] ++ echoRound 0 1 1 [3])
    (fun w => w.sessions[0]?.any fun s => !s.stream.returned.isPrefixOf s.stream.sent) rfl
    (by decide +kernel)
  obtain ⟨s, hs, hret⟩ := (Option.any_eq_true _ _).mp hq
  have hpre := List.isPrefixOf_iff_prefix.mpr (h w hw 0 s hs)
  rw [hpre] at hret
  exact absurd hret nofun

end ScratchServers
