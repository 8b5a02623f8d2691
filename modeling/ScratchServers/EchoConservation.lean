import ScratchServers.EchoServer

/-! One session of the plain echo server against an arbitrary client. The
operations it has started are kept as a list, so that how many of them are
outstanding is a result and not an assumption; with that result, its runs are those
of the connection with one pending operation. -/

namespace ScratchServers

/-- `consumed` and `written` record what has left and entered the socket on the
session's side, `current` the progress of the latest `async_write`, and `eof`
that a read has reported the end of the client's stream. -/
structure EchoLine where
  sent : Bytes
  inbound : Bytes
  halfClosed : Bool
  consumed : Bytes
  written : Bytes
  data : Buffer Byte maxLength
  current : Transfer
  operations : List EchoOp
  eof : Bool

def EchoLine.doRead (s : EchoLine) : EchoLine :=
  { s with operations := s.operations ++ [.read] }

def EchoLine.doWrite (s : EchoLine) (length : Nat) : EchoLine :=
  { s with current := .start length, operations := s.operations ++ [.write (.start length)] }

def EchoLine.start (data : Buffer Byte maxLength) : EchoLine :=
  doRead ⟨[], [], false, [], [], data, .start 0, [], false⟩

def EchoLine.onRead (s : EchoLine) (ec : ErrorCode) (length : Nat) : EchoLine :=
  if ec = .success then s.doWrite length else s

def EchoLine.onWrite (s : EchoLine) (ec : ErrorCode) : EchoLine :=
  if ec = .success then s.doRead else s

def EchoLine.unwritten (s : EchoLine) : Bytes :=
  s.current.unsent s.data.cells

/-- The numbers `i` say which of the outstanding operations goes on or completes. -/
inductive EchoLineEvent where
  | clientSend (xs : Bytes)
  | clientShutdown
  | read (i n : Nat)
  | readEof (i : Nat)
  | readFails (i : Nat)
  | writeSome (i n : Nat)
  | write (i : Nat)
  | writeFails (i : Nat)

def EchoLine.step (s : EchoLine) : EchoLineEvent → Option EchoLine
  | .clientSend xs =>
    if s.halfClosed then none
    else some { s with sent := s.sent ++ xs, inbound := s.inbound ++ xs }
  | .clientShutdown => some { s with halfClosed := true }
  | .read i n =>
    if s.operations[i]? = some .read ∧ CanRead maxLength s.inbound n then
      let s' := { s with
        operations := s.operations.eraseIdx i
        inbound := s.inbound.drop n
        consumed := s.consumed ++ s.inbound.take n
        data := s.data.put 0 (s.inbound.take n) }
      some (s'.onRead .success n)
    else none
  | .readEof i =>
    if s.operations[i]? = some .read ∧ s.inbound = [] ∧ s.halfClosed = true then
      some ({ s with operations := s.operations.eraseIdx i, eof := true }.onRead .eof 0)
    else none
  | .readFails i =>
    if s.operations[i]? = some .read then
      some ({ s with operations := s.operations.eraseIdx i }.onRead .failed 0)
    else none
  | .writeSome i n =>
    match s.operations[i]? with
    | some (.write t) =>
      if t.CanAccept none s.written n then
        some { s with
          written := s.written ++ (t.unsent s.data.cells).take n
          current := t.advance n
          operations := s.operations.set i (.write (t.advance n)) }
      else none
    | _ => none
  | .write i =>
    match s.operations[i]? with
    | some (.write t) =>
      if t.left = 0 then
        some ({ s with operations := s.operations.eraseIdx i }.onWrite .success)
      else none
    | _ => none
  | .writeFails i =>
    match s.operations[i]? with
    | some (.write _) => some ({ s with operations := s.operations.eraseIdx i }.onWrite .failed)
    | _ => none

def echoLine : System EchoLine EchoLineEvent where
  start s := ∃ data, s = .start data
  step := EchoLine.step

/-- At most one operation is outstanding, and it is a read with nothing left to
write or the latest write. -/
inductive EchoLine.Single (current : Transfer) : List EchoOp → Prop
  | ended : Single current []
  | reading : current.left = 0 → Single current [.read]
  | writing : Single current [.write current]

structure EchoLine.Sound (s : EchoLine) : Prop where
  single : Single s.current s.operations
  arrived : s.consumed ++ s.inbound = s.sent
  conserves : s.consumed = s.written ++ s.unwritten
  ended : s.eof = true →
    s.operations = [] ∧ s.inbound = [] ∧ s.halfClosed = true ∧ s.current.left = 0

theorem EchoLine.Single.of_read {current : Transfer} {operations : List EchoOp} {i : Nat}
    (h : Single current operations) (hi : operations[i]? = some .read) :
    i = 0 ∧ operations = [.read] ∧ current.left = 0 := by
  cases h with
  | ended => simp at hi
  | reading hleft =>
    cases i with
    | zero => exact ⟨rfl, rfl, hleft⟩
    | succ i => simp at hi
  | writing => cases i <;> simp at hi

theorem EchoLine.Single.of_write {current t : Transfer} {operations : List EchoOp} {i : Nat}
    (h : Single current operations) (hi : operations[i]? = some (.write t)) :
    i = 0 ∧ operations = [.write t] ∧ current = t := by
  cases h with
  | ended => simp at hi
  | reading _ => cases i <;> simp at hi
  | writing =>
    cases i with
    | zero =>
      obtain rfl : current = t := by simpa using hi
      exact ⟨rfl, rfl, rfl⟩
    | succ i => simp at hi

theorem EchoLine.Single.length_le {current : Transfer} {operations : List EchoOp}
    (h : Single current operations) : operations.length ≤ 1 := by
  cases h with
  | ended => exact Nat.zero_le 1
  | reading _ => exact Nat.le_refl 1
  | writing => exact Nat.le_refl 1

theorem EchoLine.Single.write_mem {current t : Transfer} {operations : List EchoOp}
    (h : Single current operations) (ht : .write t ∈ operations) :
    t = current ∧ .read ∉ operations := by
  cases h with
  | ended => simp at ht
  | reading _ => simp at ht
  | writing => exact ⟨by simpa using ht, by simp⟩

section

variable {s s' : EchoLine}

theorem EchoLine.step_clientSend {xs : Bytes} (h : s.step (.clientSend xs) = some s') :
    s.halfClosed = false ∧ s' = { s with sent := s.sent ++ xs, inbound := s.inbound ++ xs } := by
  cases hc : s.halfClosed with
  | true => simp [step, hc] at h
  | false => exact ⟨rfl, by simpa [step, hc, eq_comm (b := s')] using h⟩

theorem EchoLine.step_clientShutdown (h : s.step .clientShutdown = some s') :
    s' = { s with halfClosed := true } :=
  (Option.some.inj h).symm

theorem EchoLine.step_read {i n : Nat} (h : s.step (.read i n) = some s') :
    s.operations[i]? = some .read ∧ CanRead maxLength s.inbound n ∧
      s' = { s with
        inbound := s.inbound.drop n
        consumed := s.consumed ++ s.inbound.take n
        data := s.data.put 0 (s.inbound.take n)
        current := .start n
        operations := s.operations.eraseIdx i ++ [.write (.start n)] } := by
  simpa [step, onRead, doWrite, and_assoc, eq_comm (b := s')] using h

theorem EchoLine.step_readEof {i : Nat} (h : s.step (.readEof i) = some s') :
    s.operations[i]? = some .read ∧ s.inbound = [] ∧ s.halfClosed = true ∧
      s' = { s with operations := s.operations.eraseIdx i, eof := true } := by
  simpa [step, onRead, and_assoc, eq_comm (b := s')] using h

theorem EchoLine.step_readFails {i : Nat} (h : s.step (.readFails i) = some s') :
    s.operations[i]? = some .read ∧ s' = { s with operations := s.operations.eraseIdx i } := by
  simpa [step, onRead, eq_comm (b := s')] using h

theorem EchoLine.step_writeSome {i n : Nat} (h : s.step (.writeSome i n) = some s') :
    ∃ t, s.operations[i]? = some (.write t) ∧ t.CanAccept none s.written n ∧
      s' = { s with
        written := s.written ++ (t.unsent s.data.cells).take n
        current := t.advance n
        operations := s.operations.set i (.write (t.advance n)) } := by
  rcases hi : s.operations[i]? with _ | _ | t <;> simp only [step, hi, reduceCtorEq] at h
  split at h
  · rename_i hn
    exact ⟨t, rfl, hn, (Option.some.inj h).symm⟩
  · exact absurd h (by simp)

theorem EchoLine.step_write {i : Nat} (h : s.step (.write i) = some s') :
    ∃ t, s.operations[i]? = some (.write t) ∧ t.left = 0 ∧
      s' = { s with operations := s.operations.eraseIdx i ++ [.read] } := by
  rcases hi : s.operations[i]? with _ | _ | t <;> simp only [step, hi, reduceCtorEq] at h
  split at h
  · rename_i ht
    exact ⟨t, rfl, ht, (Option.some.inj h).symm⟩
  · exact absurd h (by simp)

theorem EchoLine.step_writeFails {i : Nat} (h : s.step (.writeFails i) = some s') :
    ∃ t, s.operations[i]? = some (.write t) ∧
      s' = { s with operations := s.operations.eraseIdx i } := by
  rcases hi : s.operations[i]? with _ | _ | t <;> simp only [step, hi, reduceCtorEq] at h
  exact ⟨t, rfl, (Option.some.inj h).symm⟩

theorem EchoLine.Sound.not_eof (h : s.Sound) {op : EchoOp} {i : Nat}
    (hi : s.operations[i]? = some op) : s.eof ≠ true := by
  intro he
  rw [(h.ended he).1] at hi
  simp at hi

theorem EchoLine.Sound.step {e : EchoLineEvent} (h : s.Sound) (hs : s.step e = some s') :
    s'.Sound := by
  have hsingle := h.single
  have harrived := h.arrived
  have hconserves := h.conserves
  cases e with
  | clientSend xs =>
    obtain ⟨hopen, rfl⟩ := step_clientSend hs
    refine ⟨hsingle, ?_, hconserves, fun he => ?_⟩
    · simp only [← harrived, List.append_assoc]
    · have hclosed := (h.ended he).2.2.1
      exact absurd (hopen.symm.trans hclosed) Bool.false_ne_true
  | clientShutdown =>
    obtain rfl := step_clientShutdown hs
    refine ⟨hsingle, harrived, hconserves, fun he => ?_⟩
    obtain ⟨ho, hin, _, hleft⟩ := h.ended he
    exact ⟨ho, hin, rfl, hleft⟩
  | read i n =>
    obtain ⟨hi, hn, rfl⟩ := step_read hs
    obtain ⟨rfl, ho, hleft⟩ := hsingle.of_read hi
    have hfront := hn.front_put_zero s.data
    have hwritten : s.consumed = s.written := by
      rw [hconserves, unwritten, Transfer.unsent_eq_nil hleft, List.append_nil]
    refine ⟨?_, ?_, ?_, fun he => absurd he (h.not_eof hi)⟩
    · rw [ho]
      exact Single.writing
    · simp only [List.append_assoc, List.take_append_drop, harrived]
    · simp only [unwritten, Transfer.unsent_start, hwritten]
      exact congrArg (s.written ++ ·) hfront.symm
  | readEof i =>
    obtain ⟨hi, hin, hclosed, rfl⟩ := step_readEof hs
    obtain ⟨rfl, ho, hleft⟩ := hsingle.of_read hi
    refine ⟨?_, harrived, hconserves, fun _ => ⟨?_, hin, hclosed, hleft⟩⟩
    · rw [ho]
      exact Single.ended
    · simp only [ho, List.eraseIdx_cons_zero]
  | readFails i =>
    obtain ⟨hi, rfl⟩ := step_readFails hs
    obtain ⟨rfl, ho, hleft⟩ := hsingle.of_read hi
    refine ⟨?_, harrived, hconserves, fun he => absurd he (h.not_eof hi)⟩
    rw [ho]
    exact Single.ended
  | writeSome i n =>
    obtain ⟨t, hi, hn, rfl⟩ := step_writeSome hs
    obtain ⟨rfl, ho, hcurrent⟩ := hsingle.of_write hi
    refine ⟨?_, harrived, ?_, fun he => absurd he (h.not_eof hi)⟩
    · rw [ho]
      exact Single.writing
    · simp only [unwritten, hcurrent] at hconserves ⊢
      rw [hconserves, List.append_assoc, Transfer.take_append_unsent hn.2.1]
  | write i =>
    obtain ⟨t, hi, hleft, rfl⟩ := step_write hs
    obtain ⟨rfl, ho, rfl⟩ := hsingle.of_write hi
    refine ⟨?_, harrived, hconserves, fun he => absurd he (h.not_eof hi)⟩
    rw [ho]
    exact Single.reading hleft
  | writeFails i =>
    obtain ⟨t, hi, rfl⟩ := step_writeFails hs
    obtain ⟨rfl, ho, rfl⟩ := hsingle.of_write hi
    refine ⟨?_, harrived, hconserves, fun he => absurd he (h.not_eof hi)⟩
    rw [ho]
    exact Single.ended

/-- What happens on a connection whose near end sends and shuts down when it likes. -/
inductive EchoNearEvent where
  | send (xs : Bytes)
  | shutdown
  | server (e : EchoEvent)

def EchoConnection.nearStep (c : EchoConnection) : EchoNearEvent → Option EchoConnection
  | .send xs => if c.nearOpen then some { c with up := c.up ++ xs } else none
  | .shutdown => some { c with nearOpen := false }
  | .server e => c.step none e

def echoConnection : System EchoConnection EchoNearEvent where
  start c := c = .fresh
  step := EchoConnection.nearStep

/-- The connection as its other users see it, with one pending operation. -/
def EchoLine.connection (s : EchoLine) : EchoConnection :=
  ⟨s.inbound, s.written, !s.halfClosed, some ⟨s.data, s.operations.head?⟩⟩

def EchoLineEvent.near : EchoLineEvent → EchoNearEvent
  | .clientSend xs => .send xs
  | .clientShutdown => .shutdown
  | .read _ n => .server (.read n)
  | .readEof _ => .server .eof
  | .readFails _ => .server .fail
  | .writeSome _ n => .server (.writeSome n)
  | .write _ => .server .write
  | .writeFails _ => .server .fail

theorem EchoConnection.near_server {c c' : EchoConnection} {e : EchoEvent}
    (h : c.step none e = some c') : echoConnection.step c (.server e) = some c' :=
  h

theorem EchoLine.Sound.connection_step {e : EchoLineEvent} (h : s.Sound)
    (hs : s.step e = some s') : echoConnection.step s.connection e.near = some s'.connection := by
  have hsingle := h.single
  cases e with
  | clientSend xs =>
    obtain ⟨hopen, rfl⟩ := step_clientSend hs
    simp [echoConnection, EchoConnection.nearStep, EchoLineEvent.near, connection, hopen]
  | clientShutdown =>
    obtain rfl := step_clientShutdown hs
    rfl
  | read i n =>
    obtain ⟨hi, hn, rfl⟩ := step_read hs
    obtain ⟨rfl, ho, _⟩ := hsingle.of_read hi
    apply EchoConnection.near_server
    apply EchoConnection.step_read.mpr
    exact ⟨s.data, by simp [connection, ho], hn, by simp [connection, ho]⟩
  | readEof i =>
    obtain ⟨hi, hin, hclosed, rfl⟩ := step_readEof hs
    obtain ⟨rfl, ho, _⟩ := hsingle.of_read hi
    apply EchoConnection.near_server
    apply EchoConnection.step_eof.mpr
    exact ⟨s.data, by simp [connection, ho], hin, by simp [connection, hclosed],
      by simp [connection, ho]⟩
  | readFails i =>
    obtain ⟨hi, rfl⟩ := step_readFails hs
    obtain ⟨rfl, ho, _⟩ := hsingle.of_read hi
    apply EchoConnection.near_server
    apply EchoConnection.step_fail.mpr
    exact ⟨s.data, .read, by simp [connection, ho], by simp [connection, ho]⟩
  | writeSome i n =>
    obtain ⟨t, hi, hn, rfl⟩ := step_writeSome hs
    obtain ⟨rfl, ho, _⟩ := hsingle.of_write hi
    apply EchoConnection.near_server
    apply EchoConnection.step_writeSome.mpr
    exact ⟨s.data, t, by simp [connection, ho], hn, by simp [connection, ho]⟩
  | write i =>
    obtain ⟨t, hi, hleft, rfl⟩ := step_write hs
    obtain ⟨rfl, ho, _⟩ := hsingle.of_write hi
    apply EchoConnection.near_server
    apply EchoConnection.step_write.mpr
    exact ⟨s.data, t, by simp [connection, ho], hleft, by simp [connection, ho]⟩
  | writeFails i =>
    obtain ⟨t, hi, rfl⟩ := step_writeFails hs
    obtain ⟨rfl, ho, _⟩ := hsingle.of_write hi
    apply EchoConnection.near_server
    apply EchoConnection.step_fail.mpr
    exact ⟨s.data, .write t, by simp [connection, ho], by simp [connection, ho]⟩

theorem EchoLine.Sound.connection_run {ls : List EchoLineEvent} (h : s.Sound)
    (hr : echoLine.run s ls = some s') :
    echoConnection.run s.connection (ls.map EchoLineEvent.near) = some s'.connection := by
  induction ls generalizing s with
  | nil => exact congrArg some (congrArg connection (Option.some.inj hr))
  | cons e ls ih =>
    obtain ⟨t, ht, hr⟩ := System.run_cons hr
    rw [List.map_cons, System.run, h.connection_step ht]
    exact ih (h.step ht) hr

theorem EchoLine.sound_start (data : Buffer Byte maxLength) : (start data).Sound :=
  ⟨.reading rfl, rfl, rfl, by simp [start, doRead]⟩

/-- A run of the line is a run of the connection that the other modules use, event
by event, once the connection has been accepted. -/
theorem echo_line_refines {data : Buffer Byte maxLength} {ls : List EchoLineEvent}
    (hr : echoLine.run (.start data) ls = some s) :
    echoConnection.run .fresh (.server (.accept data) :: ls.map EchoLineEvent.near) =
      some s.connection := by
  have haccept : echoConnection.step .fresh (.server (.accept data)) =
      some (EchoLine.start data).connection := by
    apply EchoConnection.near_server
    exact EchoConnection.step_accept.mpr ⟨rfl, rfl⟩
  rw [System.run, haccept]
  exact (EchoLine.sound_start data).connection_run hr

end

theorem EchoLine.sound_of_reachable {s : EchoLine} (h : echoLine.Reachable s) : s.Sound := by
  refine h.invariant ?_ fun s e s' hsound hs => hsound.step hs
  rintro s ⟨data, rfl⟩
  exact sound_start data

/-- Whatever is read, however it is split, and whatever fails: what the session
has consumed is what it has written and the rest of its latest write, and with
the end of the client's stream everything has been echoed. -/
theorem echo_conserves {s : EchoLine} (h : echoLine.Reachable s) :
    s.consumed = s.written ++ s.unwritten ∧
      s.operations.length ≤ 1 ∧
      (∀ t, .write t ∈ s.operations → t = s.current ∧ .read ∉ s.operations) ∧
      s.written <+: s.sent ∧
      (s.eof = true → s.operations = [] ∧ s.written = s.sent) := by
  have hsound := EchoLine.sound_of_reachable h
  have hpre : s.written <+: s.sent := by
    rw [← hsound.arrived, hsound.conserves, List.append_assoc]
    exact List.prefix_append _ _
  refine ⟨hsound.conserves, hsound.single.length_le, fun t => hsound.single.write_mem, hpre,
    fun he => ?_⟩
  obtain ⟨ho, hin, _, hleft⟩ := hsound.ended he
  refine ⟨ho, ?_⟩
  rw [← hsound.arrived, hsound.conserves, hin, EchoLine.unwritten,
    Transfer.unsent_eq_nil hleft, List.append_nil, List.append_nil]

/-- The second byte is still being echoed when the client ends its stream. -/
def halfCloseRun : List EchoLineEvent :=
  [.clientSend [1, 2], .read 0 2, .writeSome 0 1, .clientSend [3], .clientShutdown,
    .writeSome 0 1, .write 0, .read 0 1, .writeSome 0 1, .write 0, .readEof 0]

theorem echo_conserves_run :
    ∃ s, echoLine.Reachable s ∧ s.sent = [1, 2, 3] ∧ s.eof = true ∧ s.operations = [] ∧
      s.written = s.sent := by
  obtain ⟨s, hs, hq⟩ := echoLine.exists_reachable_of_run (.start (.filled 0)) halfCloseRun
    (fun s => s.eof && s.sent = [1, 2, 3]) ⟨_, rfl⟩ (by decide +kernel)
  simp only [Bool.and_eq_true, decide_eq_true_eq] at hq
  exact ⟨s, hs, hq.2, hq.1, (echo_conserves hs).2.2.2.2 hq.1⟩

end ScratchServers
