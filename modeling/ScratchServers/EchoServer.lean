import ScratchServers.Stream

/-! The plain echo server of `echo_server.hpp`: its session's read and write
loop, one TCP connection to it, and the accept loop. -/

namespace ScratchServers

abbrev Byte := UInt8

abbrev Bytes := List Byte

inductive ErrorCode where
  | success
  | eof
  | contextExpired
  | operationAborted
  | failed
  deriving DecidableEq

def maxLength : Nat := 1024

inductive EchoOp where
  | read
  | write (t : Transfer)
  deriving DecidableEq

/-- No pending operation means that no handler holds the session any more, so it
has been destroyed and its socket is closed. -/
structure EchoSession where
  data : Buffer Byte maxLength
  pending : Option EchoOp

def EchoSession.doRead (s : EchoSession) : EchoSession :=
  { s with pending := some .read }

def EchoSession.doWrite (s : EchoSession) (length : Nat) : EchoSession :=
  { s with pending := some (.write (.start length)) }

def EchoSession.start (s : EchoSession) : EchoSession :=
  s.doRead

def EchoSession.release (s : EchoSession) : EchoSession :=
  { s with pending := none }

def EchoSession.onRead (s : EchoSession) (ec : ErrorCode) (length : Nat) : EchoSession :=
  if ec = .success then s.doWrite length else s.release

def EchoSession.onWrite (s : EchoSession) (ec : ErrorCode) : EchoSession :=
  if ec = .success then s.doRead else s.release

def EchoSession.onError (s : EchoSession) (ec : ErrorCode) : EchoSession :=
  match s.pending with
  | some .read => s.onRead ec 0
  | some (.write _) => s.onWrite ec
  | none => s

def EchoSession.held (s : EchoSession) : Bytes :=
  match s.pending with
  | some (.write t) => t.unsent s.data.cells
  | _ => []

/-- A TCP connection to the echo server. `up` and `down` are in flight towards
the server and back; a connection without a session is still to be accepted. -/
structure EchoConnection where
  up : Bytes
  down : Bytes
  nearOpen : Bool
  session : Option EchoSession

def EchoConnection.fresh : EchoConnection :=
  ⟨[], [], true, none⟩

inductive EchoEvent where
  | accept (data : Buffer Byte maxLength)
  | read (n : Nat)
  | writeSome (n : Nat)
  | write
  | eof
  | fail

/-- `cap` bounds the queue from the server back to the client. -/
def EchoConnection.step (cap : Option Nat) (c : EchoConnection) :
    EchoEvent → Option EchoConnection
  | .accept data =>
    match c.session with
    | none => some { c with session := some (EchoSession.start ⟨data, none⟩) }
    | some _ => none
  | .read n =>
    match c.session with
    | some s =>
      if s.pending = some .read ∧ CanRead maxLength c.up n then
        let s := { s with data := s.data.put 0 (c.up.take n) }
        some { c with up := c.up.drop n, session := some (s.onRead .success n) }
      else none
    | none => none
  | .writeSome n =>
    match c.session with
    | some ⟨data, some (.write t)⟩ =>
      if t.CanAccept cap c.down n then
        some { c with
          down := c.down ++ (t.unsent data.cells).take n
          session := some ⟨data, some (.write (t.advance n))⟩ }
      else none
    | _ => none
  | .write =>
    match c.session with
    | some ⟨data, some (.write t)⟩ =>
      if t.left = 0 then
        some { c with session := some (EchoSession.onWrite ⟨data, some (.write t)⟩ .success) }
      else none
    | _ => none
  | .eof =>
    match c.session with
    | some s =>
      if s.pending = some .read ∧ c.up = [] ∧ c.nearOpen = false then
        some { c with session := some (s.onRead .eof 0) }
      else none
    | none => none
  | .fail =>
    match c.session with
    | some s =>
      if s.pending = none then none else some { c with session := some (s.onError .failed) }
    | none => none

section

variable {cap : Option Nat} {c c' : EchoConnection}

theorem EchoConnection.step_accept {data : Buffer Byte maxLength} :
    c.step cap (.accept data) = some c' ↔
      c.session = none ∧ c' = { c with session := some ⟨data, some .read⟩ } := by
  cases hs : c.session <;>
    simp [step, hs, EchoSession.start, EchoSession.doRead, @eq_comm EchoConnection]

theorem EchoConnection.step_read {n : Nat} :
    c.step cap (.read n) = some c' ↔
      ∃ data, c.session = some ⟨data, some .read⟩ ∧ CanRead maxLength c.up n ∧
        c' = { c with
          up := c.up.drop n
          session := some ⟨data.put 0 (c.up.take n), some (.write (.start n))⟩ } := by
  rcases hs : c.session with _ | ⟨data, _ | _ | t⟩ <;>
    simp [step, hs, EchoSession.onRead, EchoSession.doWrite, @eq_comm EchoConnection]

theorem EchoConnection.step_writeSome {n : Nat} :
    c.step cap (.writeSome n) = some c' ↔
      ∃ data t, c.session = some ⟨data, some (.write t)⟩ ∧ t.CanAccept cap c.down n ∧
        c' = { c with
          down := c.down ++ (t.unsent data.cells).take n
          session := some ⟨data, some (.write (t.advance n))⟩ } := by
  rcases hs : c.session with _ | ⟨data, _ | _ | t⟩ <;> simp [step, hs, @eq_comm EchoConnection]

theorem EchoConnection.step_write :
    c.step cap .write = some c' ↔
      ∃ data t, c.session = some ⟨data, some (.write t)⟩ ∧ t.left = 0 ∧
        c' = { c with session := some ⟨data, some .read⟩ } := by
  rcases hs : c.session with _ | ⟨data, _ | _ | t⟩ <;>
    simp [step, hs, EchoSession.onWrite, EchoSession.doRead, @eq_comm EchoConnection]

theorem EchoConnection.step_eof :
    c.step cap .eof = some c' ↔
      ∃ data, c.session = some ⟨data, some .read⟩ ∧ c.up = [] ∧ c.nearOpen = false ∧
        c' = { c with session := some ⟨data, none⟩ } := by
  rcases hs : c.session with _ | ⟨data, _ | _ | t⟩ <;>
    simp [step, hs, EchoSession.onRead, EchoSession.release, and_assoc, @eq_comm EchoConnection]

theorem EchoConnection.step_fail :
    c.step cap .fail = some c' ↔
      ∃ data op, c.session = some ⟨data, some op⟩ ∧
        c' = { c with session := some ⟨data, none⟩ } := by
  rcases hs : c.session with _ | ⟨data, _ | _ | t⟩ <;>
    simp [step, hs, EchoSession.onError, EchoSession.onRead, EchoSession.onWrite,
      EchoSession.release, @eq_comm EchoConnection]

end

def EchoConnection.held (c : EchoConnection) : Bytes :=
  match c.session with
  | some s => s.held
  | none => []

/-- Not yet accepted, or served by a session that is still alive. -/
def EchoConnection.Live (c : EchoConnection) : Prop :=
  ∀ s, c.session = some s → s.pending ≠ none

instance (c : EchoConnection) : Decidable c.Live :=
  inferInstanceAs (Decidable (∀ s ∈ c.session, s.pending ≠ none))

def EchoConnection.inFlight (c : EchoConnection) : Bytes :=
  c.down ++ (c.held ++ c.up)

/-- The near end has still to get `owed` back. A session that has died may keep
the rest of it, but nothing else can ever come. -/
def EchoConnection.Carries (c : EchoConnection) (owed : Bytes) : Prop :=
  c.down <+: owed ∧ (c.Live → c.inFlight = owed)

theorem EchoConnection.fresh_carries : fresh.Carries [] :=
  ⟨List.nil_prefix, fun _ => rfl⟩

/-- Only a failure loses bytes: every other step of the server keeps what is in
flight, in its order. -/
theorem EchoConnection.step_inFlight {cap : Option Nat} {c c' : EchoConnection} {e : EchoEvent}
    (hs : c.step cap e = some c') (he : e ≠ .fail) : c'.inFlight = c.inFlight := by
  cases e with
  | accept data =>
    obtain ⟨hsess, rfl⟩ := step_accept.mp hs
    simp only [inFlight, held, hsess, EchoSession.held]
  | read n =>
    obtain ⟨data, hsess, hn, rfl⟩ := step_read.mp hs
    have hfront : (data.put 0 (c.up.take n)).cells.take n = c.up.take n := hn.front_put_zero data
    simp only [inFlight, held, hsess, EchoSession.held, Transfer.unsent_start, hfront,
      List.take_append_drop, List.nil_append]
  | writeSome n =>
    obtain ⟨data, t, hsess, hn, rfl⟩ := step_writeSome.mp hs
    simp only [inFlight, held, hsess, EchoSession.held]
    calc c.down ++ (t.unsent data.cells).take n ++ ((t.advance n).unsent data.cells ++ c.up)
        = c.down ++ ((t.unsent data.cells).take n ++ (t.advance n).unsent data.cells ++ c.up) := by
          simp only [List.append_assoc]
      _ = c.down ++ (t.unsent data.cells ++ c.up) := by rw [Transfer.take_append_unsent hn.2.1]
  | write =>
    obtain ⟨data, t, hsess, ht, rfl⟩ := step_write.mp hs
    simp only [inFlight, held, hsess, EchoSession.held, Transfer.unsent_eq_nil ht]
  | eof =>
    obtain ⟨data, hsess, _, _, rfl⟩ := step_eof.mp hs
    simp only [inFlight, held, hsess, EchoSession.held]
  | fail => exact absurd rfl he

theorem EchoConnection.live_of_step {cap : Option Nat} {c c' : EchoConnection} {e : EchoEvent}
    (hs : c.step cap e = some c') : c.Live := by
  intro s hsess hdead
  obtain ⟨data, pending⟩ := s
  obtain rfl : pending = none := hdead
  cases e <;> simp [step, hsess] at hs

theorem EchoConnection.Live.step {cap : Option Nat} {c c' : EchoConnection} {e : EchoEvent}
    (hs : c.step cap e = some c') (ho : c.nearOpen = true) (he : e ≠ .fail) :
    c'.nearOpen = true ∧ c'.Live := by
  cases e with
  | accept data =>
    obtain ⟨_, rfl⟩ := step_accept.mp hs
    exact ⟨ho, by simp [Live]⟩
  | read n =>
    obtain ⟨data, _, _, rfl⟩ := step_read.mp hs
    exact ⟨ho, by simp [Live]⟩
  | writeSome n =>
    obtain ⟨data, t, _, _, rfl⟩ := step_writeSome.mp hs
    exact ⟨ho, by simp [Live]⟩
  | write =>
    obtain ⟨data, t, _, _, rfl⟩ := step_write.mp hs
    exact ⟨ho, by simp [Live]⟩
  | eof =>
    obtain ⟨data, _, _, hclosed, rfl⟩ := step_eof.mp hs
    exact absurd (ho.symm.trans hclosed) nofun
  | fail => exact absurd rfl he

theorem EchoConnection.Carries.step {cap : Option Nat} {c c' : EchoConnection} {owed : Bytes}
    {e : EchoEvent} (h : c.Carries owed) (hs : c.step cap e = some c') : c'.Carries owed := by
  have hin := h.2 (live_of_step hs)
  by_cases he : e = .fail
  · subst he
    obtain ⟨data, op, _, rfl⟩ := step_fail.mp hs
    exact ⟨h.1, fun hl => absurd rfl (hl _ rfl)⟩
  · rw [← step_inFlight hs he] at hin
    exact ⟨⟨_, hin⟩, fun _ => hin⟩

theorem EchoConnection.Carries.push {c : EchoConnection} {owed : Bytes} (h : c.Carries owed)
    (xs : Bytes) : ({ c with up := c.up ++ xs } : EchoConnection).Carries (owed ++ xs) := by
  refine ⟨h.1.trans (List.prefix_append owed xs), fun hl => ?_⟩
  rw [← h.2 hl]
  simp only [inFlight, held, List.append_assoc]

theorem EchoConnection.Carries.pop {c : EchoConnection} {owed : Bytes} {n : Nat}
    (h : c.Carries owed) (hn : n ≤ c.down.length) :
    c.down.take n = owed.take n ∧
      ({ c with down := c.down.drop n } : EchoConnection).Carries (owed.drop n) := by
  obtain ⟨rest, hrest⟩ := h.1
  have hdrop : owed.drop n = c.down.drop n ++ rest := by
    rw [← hrest, List.drop_append_of_le_length hn]
  refine ⟨by rw [← hrest, List.take_append_of_le_length hn], ⟨rest, hdrop.symm⟩, fun hl => ?_⟩
  have hlive : c.down ++ (c.held ++ c.up) = owed := h.2 hl
  change c.down.drop n ++ (c.held ++ c.up) = _
  rw [← hlive, List.drop_append_of_le_length hn]

def EchoConnection.WriteFits (c : EchoConnection) : Prop :=
  ∀ data t, c.session = some ⟨data, some (.write t)⟩ → t.length ≤ maxLength

theorem EchoConnection.WriteFits.step {cap : Option Nat} {c c' : EchoConnection} {e : EchoEvent}
    (h : c.WriteFits) (hs : c.step cap e = some c') : c'.WriteFits := by
  intro data' t' hw
  cases e with
  | accept data =>
    obtain ⟨_, rfl⟩ := step_accept.mp hs
    simp at hw
  | read n =>
    obtain ⟨data, _, hn, rfl⟩ := step_read.mp hs
    simp only [Option.some.injEq, EchoSession.mk.injEq, EchoOp.write.injEq] at hw
    obtain ⟨-, rfl⟩ := hw
    exact hn.2.1
  | writeSome n =>
    obtain ⟨data, t, hsess, _, rfl⟩ := step_writeSome.mp hs
    simp only [Option.some.injEq, EchoSession.mk.injEq, EchoOp.write.injEq] at hw
    obtain ⟨-, rfl⟩ := hw
    exact h data t hsess
  | write =>
    obtain ⟨data, t, _, _, rfl⟩ := step_write.mp hs
    simp at hw
  | eof =>
    obtain ⟨data, _, _, _, rfl⟩ := step_eof.mp hs
    simp at hw
  | fail =>
    obtain ⟨data, op, _, rfl⟩ := step_fail.mp hs
    simp at hw

/-- When the server has nothing to do on a live connection, it holds nothing
back or waits for room towards the client. -/
theorem EchoConnection.Live.idle {cap : Option Nat} {c : EchoConnection} (hl : c.Live)
    (hidle : ∀ e c', c.step cap e = some c' → e = .fail) :
    (c.held = [] ∧ c.up = []) ∨
      ∃ data t, c.session = some ⟨data, some (.write t)⟩ ∧ 0 < t.left ∧ ¬ Room cap c.down 1 := by
  rcases hsess : c.session with _ | ⟨data, _ | _ | t⟩
  · exact absurd (hidle (.accept (.filled 0)) _ (step_accept.mpr ⟨hsess, rfl⟩)) (by simp)
  · exact absurd rfl (hl _ hsess)
  · refine .inl ⟨by simp [held, hsess, EchoSession.held], ?_⟩
    by_contra hup
    have hn : CanRead maxLength c.up 1 := canRead_one (by decide) hup
    exact absurd (hidle (.read 1) _ (step_read.mpr ⟨data, hsess, hn, rfl⟩)) (by simp)
  · have hleft : 0 < t.left := by
      by_contra h0
      have ht : t.left = 0 := by omega
      exact absurd (hidle .write _ (step_write.mpr ⟨data, t, hsess, ht, rfl⟩)) (by simp)
    refine .inr ⟨data, t, rfl, hleft, fun hroom => ?_⟩
    have hacc := Transfer.canAccept_one hleft hroom
    exact absurd (hidle (.writeSome 1) _ (step_writeSome.mpr ⟨data, t, hsess, hacc, rfl⟩)) (by simp)

theorem EchoConnection.step_nearOpen {cap : Option Nat} {c c' : EchoConnection} {e : EchoEvent}
    (hs : c.step cap e = some c') : c'.nearOpen = c.nearOpen := by
  cases e with
  | accept data =>
    obtain ⟨_, rfl⟩ := step_accept.mp hs
    rfl
  | read n =>
    obtain ⟨_, _, _, rfl⟩ := step_read.mp hs
    rfl
  | writeSome n =>
    obtain ⟨_, _, _, _, rfl⟩ := step_writeSome.mp hs
    rfl
  | write =>
    obtain ⟨_, _, _, _, rfl⟩ := step_write.mp hs
    rfl
  | eof =>
    obtain ⟨_, _, _, _, rfl⟩ := step_eof.mp hs
    rfl
  | fail =>
    obtain ⟨_, _, _, rfl⟩ := step_fail.mp hs
    rfl

/-- The echo server reads on an open connection and has let go of a closed one. -/
def EchoConnection.Settled (c : EchoConnection) : Prop :=
  ∃ data, c.session = some ⟨data, if c.nearOpen then some .read else none⟩

theorem EchoConnection.settled_of_idle {cap : Option Nat} {c : EchoConnection}
    (hlive : c.nearOpen = true → c.Live) (hroom : Room cap c.down 1)
    (hidle : ∀ e c', c.step cap e = some c' → e = .fail) : c.Settled := by
  have hno {e : EchoEvent} {c' : EchoConnection} (he : e ≠ .fail) : c.step cap e ≠ some c' :=
    fun hs => he (hidle e c' hs)
  rcases hsess : c.session with _ | ⟨data, _ | _ | t⟩
  · exact (hno (e := .accept (.filled 0)) (by simp) (step_accept.mpr ⟨hsess, rfl⟩)).elim
  · refine ⟨data, ?_⟩
    by_cases ho : c.nearOpen = true
    · exact absurd rfl (hlive ho _ hsess)
    · simp only [hsess, ho, Bool.false_eq_true, if_false]
  · refine ⟨data, ?_⟩
    by_cases ho : c.nearOpen = true
    · simp only [hsess, ho, if_true]
    · have hup : c.up = [] := by
        by_contra hup
        have hn : CanRead maxLength c.up 1 := canRead_one (by decide) hup
        exact hno (by simp) (step_read.mpr ⟨data, hsess, hn, rfl⟩)
      have hclosed : c.nearOpen = false := by simpa using ho
      exact (hno (by simp) (step_eof.mpr ⟨data, hsess, hup, hclosed, rfl⟩)).elim
  · by_cases ht : t.left = 0
    · exact (hno (by simp) (step_write.mpr ⟨data, t, hsess, ht, rfl⟩)).elim
    · have hacc := Transfer.canAccept_one (Nat.pos_of_ne_zero ht) hroom
      exact (hno (by simp) (step_writeSome.mpr ⟨data, t, hsess, hacc, rfl⟩)).elim

/-- A bound on the steps that the server still takes on a connection if its near
end neither sends nor receives any more. -/
def EchoConnection.remaining (c : EchoConnection) : Nat :=
  4 * c.up.length + c.down.length +
    match c.session with
    | none => 2
    | some ⟨_, none⟩ => 0
    | some ⟨_, some .read⟩ => 1
    | some ⟨_, some (.write t)⟩ => 2 * t.left + 2

theorem EchoConnection.step_remaining {cap : Option Nat} {c c' : EchoConnection} {e : EchoEvent}
    (hs : c.step cap e = some c') (he : e ≠ .fail) : c'.remaining < c.remaining := by
  cases e with
  | accept data =>
    obtain ⟨hsess, rfl⟩ := step_accept.mp hs
    simp only [remaining, hsess]
    omega
  | read n =>
    obtain ⟨data, hsess, hn, rfl⟩ := step_read.mp hs
    have hpos := hn.1
    have hle := hn.2.2
    simp only [remaining, hsess, List.length_drop, Transfer.left_start]
    omega
  | writeSome n =>
    obtain ⟨data, t, hsess, hn, rfl⟩ := step_writeSome.mp hs
    have hpos := hn.1
    have hleft := Transfer.left_advance hn.2.1
    have hlen := List.length_take_le n (t.unsent data.cells)
    simp only [remaining, hsess, List.length_append]
    omega
  | write =>
    obtain ⟨data, t, hsess, ht, rfl⟩ := step_write.mp hs
    simp only [remaining, hsess]
    omega
  | eof =>
    obtain ⟨data, hsess, _, _, rfl⟩ := step_eof.mp hs
    simp only [remaining, hsess]
    omega
  | fail => exact absurd rfl he

structure EchoServer where
  accepts : Nat
  connections : List EchoConnection

def EchoServer.doAccept (v : EchoServer) : EchoServer :=
  { v with accepts := v.accepts + 1 }

def EchoServer.onAccept (v : EchoServer) : Option (Nat × EchoConnection) → EchoServer
  | some (c, conn) => doAccept { v with connections := v.connections.set c conn }
  | none => v.doAccept

def EchoServer.construct : EchoServer :=
  doAccept ⟨0, []⟩

inductive EchoServerEvent where
  | acceptFailed
  | connection (c : Nat) (e : EchoEvent)

/-- The handler runs with its `async_accept` no longer outstanding. -/
def EchoServer.step (v : EchoServer) : EchoServerEvent → Option EchoServer
  | .acceptFailed =>
    if 0 < v.accepts then some (onAccept { v with accepts := v.accepts - 1 } none) else none
  | .connection c (.accept data) =>
    if 0 < v.accepts then
      (v.connections[c]?.bind (·.step none (.accept data))).map fun conn =>
        onAccept { v with accepts := v.accepts - 1 } (some (c, conn))
    else none
  | .connection c e =>
    (v.connections[c]?.bind (·.step none e)).map fun conn =>
      { v with connections := v.connections.set c conn }

theorem EchoServer.step_acceptFailed {v v' : EchoServer} :
    v.step .acceptFailed = some v' ↔ 0 < v.accepts ∧ v' = v := by
  obtain ⟨accepts, connections⟩ := v
  rcases accepts with _ | n <;> simp [step, onAccept, doAccept, @eq_comm EchoServer]

theorem EchoServer.step_connection {v v' : EchoServer} {c : Nat} {e : EchoEvent}
    (h : v.step (.connection c e) = some v') :
    ∃ conn conn', v.connections[c]? = some conn ∧ conn.step none e = some conn' ∧
      v' = { v with connections := v.connections.set c conn' } := by
  have key (h : (v.connections[c]?.bind (·.step none e)).map (fun conn =>
      ({ v with connections := v.connections.set c conn } : EchoServer)) = some v') :
      ∃ conn conn', v.connections[c]? = some conn ∧ conn.step none e = some conn' ∧
        v' = { v with connections := v.connections.set c conn' } := by
    obtain ⟨conn', hb, rfl⟩ := Option.map_eq_some_iff.mp h
    obtain ⟨conn, hc, hs⟩ := Option.bind_eq_some_iff.mp hb
    exact ⟨conn, conn', hc, hs, rfl⟩
  cases e with
  | accept data =>
    obtain ⟨accepts, connections⟩ := v
    rcases accepts with _ | n
    · simp [step] at h
    · apply key
      simpa [step, onAccept, doAccept] using h
  | read n => exact key h
  | writeSome n => exact key h
  | write => exact key h
  | eof => exact key h
  | fail => exact key h

theorem EchoServer.connection_enabled {v : EchoServer} {c : Nat} {e : EchoEvent}
    {conn conn' : EchoConnection} (ha : 0 < v.accepts) (hc : v.connections[c]? = some conn)
    (hs : conn.step none e = some conn') : ∃ v', v.step (.connection c e) = some v' := by
  cases e <;> simp [step, ha, hc, hs]

end ScratchServers
