import ScratchServers.RelaySession

/-! What a relay session has returned of the chunks it has read, at every stage
of its loop, and how it shares the table of connections with other sessions. -/

namespace ScratchServers

def RelaySession.Connected (s : RelaySession) (conns : List EchoConnection) (owed : Bytes) : Prop :=
  ∃ c conn, s.socket = some c ∧ conns[c]? = some conn ∧ conn.Carries owed

/-- A chunk is in `data`, then on its connection, and then a prefix of it is in
`forwardData`, from where it is written back. -/
def RelaySession.Relays (conns : List EchoConnection) (s : RelaySession) : Prop :=
  match s.pending with
  | none | some .handshake | some .read => Selects s.stream.chunks s.stream.returned
  | some (.connect length) =>
    ∃ cs c, s.stream.chunks = cs ++ [c] ∧ Selects cs s.stream.returned ∧
      s.data.front length = c ∧ c.length = length
  | some (.forwardWrite t) =>
    ∃ cs c, s.stream.chunks = cs ++ [c] ∧ Selects cs s.stream.returned ∧
      s.data.front t.length = c ∧ c.length = t.length ∧ s.Connected conns (c.take t.moved)
  | some .forwardRead =>
    ∃ cs c, s.stream.chunks = cs ++ [c] ∧ Selects cs s.stream.returned ∧ s.Connected conns c
  | some (.write t) =>
    ∃ cs c out, s.stream.chunks = cs ++ [c] ∧ Selects cs out ∧
      s.forwardData.front t.length <+: c ∧
      s.stream.returned = out ++ (s.forwardData.front t.length).take t.moved

section

variable {conns conns' : List EchoConnection} {s s' : RelaySession}

theorem RelaySession.Connected.mono {owed : Bytes} (h : s.Connected conns owed)
    (hm : ∀ c conn, s.socket = some c → conns[c]? = some conn →
      ∃ conn', conns'[c]? = some conn' ∧ ∀ owed, conn.Carries owed → conn'.Carries owed) :
    s.Connected conns' owed := by
  obtain ⟨c, conn, hsock, hc, hcarries⟩ := h
  obtain ⟨conn', hc', hk⟩ := hm c conn hsock hc
  exact ⟨c, conn', hsock, hc', hk owed hcarries⟩

theorem RelaySession.Relays.mono (h : s.Relays conns)
    (hm : ∀ c conn, s.socket = some c → conns[c]? = some conn →
      ∃ conn', conns'[c]? = some conn' ∧ ∀ owed, conn.Carries owed → conn'.Carries owed) :
    s.Relays conns' := by
  unfold Relays at h ⊢
  rcases hp : s.pending with _ | _ | _ | length | t | _ | t <;> simp only [hp] at h ⊢
  · exact h
  · exact h
  · exact h
  · exact h
  · obtain ⟨cs, c, hcs, hout, hdata, hlen, hconn⟩ := h
    exact ⟨cs, c, hcs, hout, hdata, hlen, hconn.mono hm⟩
  · obtain ⟨cs, c, hcs, hout, hconn⟩ := h
    exact ⟨cs, c, hcs, hout, hconn.mono hm⟩
  · exact h

theorem RelaySession.Relays.returned (h : s.Relays conns) :
    Selects s.stream.chunks s.stream.returned := by
  have skip (h : ∃ cs c, s.stream.chunks = cs ++ [c] ∧ Selects cs s.stream.returned) :
      Selects s.stream.chunks s.stream.returned := by
    obtain ⟨cs, c, hcs, hsel⟩ := h
    have hh := hsel.snoc (List.nil_prefix (l := c))
    rwa [List.append_nil, ← hcs] at hh
  unfold Relays at h
  rcases hp : s.pending with _ | _ | _ | length | t | _ | t <;> simp only [hp] at h
  · exact h
  · exact h
  · exact h
  · obtain ⟨cs, c, hcs, hout, _⟩ := h
    exact skip ⟨cs, c, hcs, hout⟩
  · obtain ⟨cs, c, hcs, hout, _⟩ := h
    exact skip ⟨cs, c, hcs, hout⟩
  · obtain ⟨cs, c, hcs, hout, _⟩ := h
    exact skip ⟨cs, c, hcs, hout⟩
  · obtain ⟨cs, c, out, hcs, hout, hp, hret⟩ := h
    rw [hcs, hret]
    exact hout.snoc ((List.take_prefix _ _).trans hp)

theorem RelaySession.Relays.step {e : RelayEvent} (h : s.Relays conns)
    (hs : s.step conns e = some (s', conns')) : s'.Relays conns' := by
  have hsel := h.returned
  cases e with
  | handshake =>
    obtain ⟨_, rfl, rfl⟩ := step_handshake.mp hs
    exact hsel
  | read n =>
    obtain ⟨_, hn, rfl, rfl⟩ := step_read.mp hs
    have hfront := hn.front_put_zero s.data
    exact ⟨_, _, rfl, hsel, hfront, hn.length_take⟩
  | contextExpired =>
    obtain ⟨_, _, _, rfl, rfl⟩ := step_contextExpired.mp hs
    exact hsel
  | connect =>
    obtain ⟨length, hp, rfl, rfl⟩ := step_connect.mp hs
    simp only [Relays, hp] at h
    obtain ⟨cs, c, hcs, hout, hdata, hlen⟩ := h
    refine ⟨cs, c, hcs, hout, hdata, hlen, conns.length, .fresh, rfl,
      List.getElem?_concat_length, ?_⟩
    simpa only [Transfer.moved_start, List.take_zero] using EchoConnection.fresh_carries
  | forwardWriteSome n =>
    obtain ⟨t, i, conn, hp, hsock, hi, hn, rfl, rfl⟩ := step_forwardWriteSome.mp hs
    simp only [Relays, hp] at h
    obtain ⟨cs, c, hcs, hout, hdata, hlen, j, conn', hsock', hj, hcarries⟩ := h
    obtain rfl : i = j := Option.some.inj (hsock.symm.trans hsock')
    obtain rfl : conn = conn' := Option.some.inj (hi.symm.trans hj)
    refine ⟨cs, c, hcs, hout, hdata, hlen, i, _, hsock,
      List.getElem?_set_self (lt_length_of_getElem? hi), ?_⟩
    have hpush := hcarries.push ((t.unsent s.data.cells).take n)
    have hmoved := Transfer.take_moved_advance hn.2.1 s.data.cells
    simp only [Buffer.front] at hdata
    rw [hdata] at hmoved
    rwa [← hmoved] at hpush
  | forwardWrite =>
    obtain ⟨t, hp, ht, rfl, rfl⟩ := step_forwardWrite.mp hs
    simp only [Relays, hp] at h
    obtain ⟨cs, c, hcs, hout, hdata, hlen, hconn⟩ := h
    have hmoved : c.length ≤ t.moved := by have := t.moved_add_left; omega
    rw [List.take_of_length_le hmoved] at hconn
    exact ⟨cs, c, hcs, hout, hconn⟩
  | forwardRead n =>
    obtain ⟨i, conn, hp, hsock, hi, hn, rfl, rfl⟩ := step_forwardRead.mp hs
    simp only [Relays, hp] at h
    obtain ⟨cs, c, hcs, hout, j, conn', hsock', hj, hcarries⟩ := h
    obtain rfl : i = j := Option.some.inj (hsock.symm.trans hsock')
    obtain rfl : conn = conn' := Option.some.inj (hi.symm.trans hj)
    have hfront := hn.front_put_zero s.forwardData
    refine ⟨cs, c, s.stream.returned, hcs, hout, ?_, by simp⟩
    rw [Transfer.length_start, hfront, (hcarries.pop hn.2.2).1]
    exact List.take_prefix n c
  | writeSome n =>
    obtain ⟨t, hp, hn, rfl, rfl⟩ := step_writeSome.mp hs
    simp only [Relays, hp] at h
    obtain ⟨cs, c, out, hcs, hout, hpre, hret⟩ := h
    refine ⟨cs, c, out, hcs, hout, hpre, ?_⟩
    have hmoved := Transfer.take_moved_advance hn.2.1 s.forwardData.cells
    simp only [TlsStream.writeBack, hret, Transfer.length_advance, Buffer.front, hmoved,
      List.append_assoc]
  | write =>
    obtain ⟨t, _, _, rfl, rfl⟩ := step_write.mp hs
    exact hsel
  | fail =>
    obtain ⟨_, rfl, rfl⟩ := step_fail.mp hs
    exact hsel

theorem RelaySession.step_stream {e : RelayEvent} (hs : s.step conns e = some (s', conns')) :
    s'.stream.sent = s.stream.sent ∧ s'.stream.shut = s.stream.shut ∧
      s'.stream.chunks.flatten ++ s'.stream.inbound =
        s.stream.chunks.flatten ++ s.stream.inbound ∧
      ∃ xs, s'.stream.outbound = s.stream.outbound ++ xs ∧
        s'.stream.returned = s.stream.returned ++ xs := by
  have same {st : TlsStream} (h : st = s.stream) : st.sent = s.stream.sent ∧
      st.shut = s.stream.shut ∧
      st.chunks.flatten ++ st.inbound = s.stream.chunks.flatten ++ s.stream.inbound ∧
      ∃ xs, st.outbound = s.stream.outbound ++ xs ∧ st.returned = s.stream.returned ++ xs := by
    subst h
    exact ⟨rfl, rfl, rfl, [], by simp, by simp⟩
  cases e with
  | handshake =>
    obtain ⟨_, rfl, _⟩ := step_handshake.mp hs
    exact same rfl
  | read n =>
    obtain ⟨_, _, rfl, _⟩ := step_read.mp hs
    refine ⟨rfl, rfl, ?_, [], by simp [TlsStream.readChunk], by simp [TlsStream.readChunk]⟩
    simp only [TlsStream.readChunk, List.flatten_append, List.flatten_singleton, List.append_assoc,
      List.take_append_drop]
  | contextExpired =>
    obtain ⟨_, _, _, rfl, _⟩ := step_contextExpired.mp hs
    exact same rfl
  | connect =>
    obtain ⟨_, _, rfl, _⟩ := step_connect.mp hs
    exact same rfl
  | forwardWriteSome n =>
    obtain ⟨_, _, _, _, _, _, _, rfl, _⟩ := step_forwardWriteSome.mp hs
    exact same rfl
  | forwardWrite =>
    obtain ⟨_, _, _, rfl, _⟩ := step_forwardWrite.mp hs
    exact same rfl
  | forwardRead n =>
    obtain ⟨_, _, _, _, _, _, rfl, _⟩ := step_forwardRead.mp hs
    exact same rfl
  | writeSome n =>
    obtain ⟨_, _, _, rfl, _⟩ := step_writeSome.mp hs
    exact ⟨rfl, rfl, rfl, _, rfl, rfl⟩
  | write =>
    obtain ⟨_, _, _, rfl, _⟩ := step_write.mp hs
    exact same rfl
  | fail =>
    obtain ⟨_, rfl, _⟩ := step_fail.mp hs
    exact same rfl

/-- A step of the echo server on one connection, seen from any connection. -/
theorem carries_set {c i : Nat} {conn conn' u : EchoConnection} {e : EchoEvent}
    (hc : conns[c]? = some conn) (hs : conn.step none e = some conn') (hi : conns[i]? = some u) :
    ∃ u', (conns.set c conn')[i]? = some u' ∧ ∀ owed, u.Carries owed → u'.Carries owed := by
  by_cases hci : c = i
  · subst c
    obtain rfl : conn = u := Option.some.inj (hc.symm.trans hi)
    have hlt := lt_length_of_getElem? hi
    exact ⟨conn', List.getElem?_set_self hlt, fun _ hcar => hcar.step hs⟩
  · exact ⟨u, (List.getElem?_set_ne hci).trans hi, fun _ => id⟩

theorem RelaySession.length_closeSocket : (s.closeSocket conns).length = conns.length := by
  unfold closeSocket
  split <;> simp

theorem RelaySession.closeSocket_other {i : Nat} (hi : s.socket ≠ some i) :
    (s.closeSocket conns)[i]? = conns[i]? := by
  unfold closeSocket
  split
  · rename_i c hc
    have hne : c ≠ i := fun h => hi (h ▸ hc)
    simp [hne]
  · rfl

theorem RelaySession.step_table {e : RelayEvent} (hs : s.step conns e = some (s', conns')) :
    (conns' = conns ∧ s'.socket = s.socket) ∨
      (conns' = s.closeSocket conns ∧ s'.socket = none) ∨
      (conns' = conns ++ [.fresh] ∧ s'.socket = some conns.length) ∨
      ∃ c conn up down, s.socket = some c ∧ conns[c]? = some conn ∧
        conns' = conns.set c { conn with up := up, down := down } ∧ s'.socket = s.socket := by
  cases e with
  | handshake =>
    obtain ⟨_, rfl, rfl⟩ := step_handshake.mp hs
    exact .inl ⟨rfl, rfl⟩
  | read n =>
    obtain ⟨_, _, rfl, rfl⟩ := step_read.mp hs
    exact .inr (.inl ⟨rfl, rfl⟩)
  | contextExpired =>
    obtain ⟨_, _, _, rfl, rfl⟩ := step_contextExpired.mp hs
    exact .inr (.inl ⟨rfl, rfl⟩)
  | connect =>
    obtain ⟨length, _, rfl, rfl⟩ := step_connect.mp hs
    exact .inr (.inr (.inl ⟨rfl, rfl⟩))
  | forwardWriteSome n =>
    obtain ⟨t, c, conn, _, hsock, hc, _, rfl, rfl⟩ := step_forwardWriteSome.mp hs
    exact .inr (.inr (.inr ⟨c, conn, _, _, hsock, hc, rfl, rfl⟩))
  | forwardWrite =>
    obtain ⟨t, _, _, rfl, rfl⟩ := step_forwardWrite.mp hs
    exact .inl ⟨rfl, rfl⟩
  | forwardRead n =>
    obtain ⟨c, conn, _, hsock, hc, _, rfl, rfl⟩ := step_forwardRead.mp hs
    exact .inr (.inr (.inr ⟨c, conn, _, _, hsock, hc, rfl, rfl⟩))
  | writeSome n =>
    obtain ⟨t, _, _, rfl, rfl⟩ := step_writeSome.mp hs
    exact .inl ⟨rfl, rfl⟩
  | write =>
    obtain ⟨t, _, _, rfl, rfl⟩ := step_write.mp hs
    exact .inl ⟨rfl, rfl⟩
  | fail =>
    obtain ⟨_, rfl, rfl⟩ := step_fail.mp hs
    exact .inr (.inl ⟨rfl, rfl⟩)

theorem RelaySession.step_socket {e : RelayEvent} (hs : s.step conns e = some (s', conns')) :
    conns.length ≤ conns'.length ∧
      ∀ i, s'.socket = some i → s.socket = some i ∨ (i = conns.length ∧ i < conns'.length) := by
  rcases step_table hs with ⟨rfl, hsock⟩ | ⟨rfl, hsock⟩ | ⟨rfl, hsock⟩ |
    ⟨c, conn, _, _, _, _, rfl, hsock⟩
  · exact ⟨Nat.le_refl _, fun i hi => .inl (hsock ▸ hi)⟩
  · exact ⟨Nat.le_of_eq length_closeSocket.symm, fun i hi => absurd (hsock ▸ hi) nofun⟩
  · refine ⟨by simp, fun i hi => ?_⟩
    obtain rfl : conns.length = i := Option.some.inj (hsock ▸ hi)
    exact .inr ⟨rfl, by simp⟩
  · exact ⟨by simp, fun i hi => .inl (hsock ▸ hi)⟩

theorem RelaySession.step_other {e : RelayEvent} (hs : s.step conns e = some (s', conns'))
    {i : Nat} (hi : s.socket ≠ some i) (hlt : i < conns.length) : conns'[i]? = conns[i]? := by
  rcases step_table hs with ⟨rfl, _⟩ | ⟨rfl, _⟩ | ⟨rfl, _⟩ | ⟨c, conn, _, _, hsock, _, rfl, _⟩
  · rfl
  · exact closeSocket_other hi
  · exact List.getElem?_append_left hlt
  · have hne : c ≠ i := fun h => hi (h ▸ hsock)
    exact List.getElem?_set_ne hne

end

end ScratchServers
