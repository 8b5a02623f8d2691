import ScratchServers.Completion
import ScratchServers.EchoExchange
import ScratchServers.LineInput

/-! `run_echo` of `echo_client.hpp` from the line that is typed to the reply
that is printed, against the echo server over bounded queues. -/

namespace ScratchServers

/-- `run_echo` once it is connected and the line has been entered. -/
def EchoExchange.runEcho (request reply : Buffer Byte maxLength) (input : Bytes) : EchoExchange :=
  let request := getline request input
  ⟨⟨request, reply, .write (.start (strlen request))⟩, .fresh⟩

def EchoExchange.remaining (s : EchoExchange) : Nat :=
  s.connection.remaining +
    match s.client.op with
    | .write t => 5 * t.left + 2
    | .read _ => 1
    | .finished _ => 0

/-- The client has printed the message and closed its socket, and the server has let
go of its session. -/
def EchoExchange.Echoed (message : Bytes) (s : EchoExchange) : Prop :=
  (∃ replyLength, s.client.op = .finished replyLength ∧
    s.client.reply.front replyLength = message) ∧
  s.connection.nearOpen = false ∧ ∃ data, s.connection.session = some ⟨data, none⟩

theorem EchoExchange.runEcho_start {up down : Nat} {request reply : Buffer Byte maxLength}
    {input : Bytes} :
    (echoExchange up down (message input)).start (.runEcho request reply input) := by
  obtain ⟨hlen, hfront⟩ := getline_strlen request input
  exact ⟨hfront, by simp only [runEcho, hlen], rfl⟩

theorem EchoExchange.step_remaining {up down : Nat} {s s' : EchoExchange} {e : EchoExchangeEvent}
    (hs : s.step up down e = some s') : s'.remaining < s.remaining := by
  cases e with
  | writeSome n =>
    obtain ⟨t, hop, hn, rfl⟩ := (step_writeSome up down).mp hs
    have hpos := hn.1
    have hleft := Transfer.left_advance hn.2.1
    have hlen := List.length_take_le n (t.unsent s.client.request.cells)
    simp only [remaining, hop, EchoConnection.remaining, List.length_append]
    omega
  | write =>
    obtain ⟨t, hop, ht, rfl⟩ := (step_write up down).mp hs
    simp only [remaining, hop]
    omega
  | readSome n =>
    obtain ⟨t, hop, hn, rfl⟩ := (step_readSome up down).mp hs
    have hpos := hn.1
    have hle := hn.2.2
    simp only [remaining, hop, EchoConnection.remaining, List.length_drop]
    omega
  | read =>
    obtain ⟨t, hop, ht, rfl⟩ := (step_read up down).mp hs
    simp only [remaining, hop, EchoConnection.remaining]
    omega
  | server e =>
    obtain ⟨he, c, hc, rfl⟩ := (step_server up down).mp hs
    have hlower := EchoConnection.step_remaining hc he
    simp only [remaining]
    omega

/-- A client that has finished has taken all there was. -/
theorem EchoExchange.finished {up down : Nat} {request : Bytes} {s : EchoExchange}
    (hn : request.length ≤ maxLength) (h : (echoExchange up down request).Reachable s) {m : Nat}
    (hop : s.client.op = .finished m) :
    s.client.reply.front m = request ∧ s.connection.inFlight = [] := by
  have hm : m = request.length := by
    simpa [EchoClient.length, hop] using (sound_of_reachable h).length_eq
  have hall := conserves hn h
  simp only [EchoClient.received, EchoClient.unsent, hop, List.append_nil] at hall
  have hlen := congrArg List.length hall
  rw [List.length_append, s.client.reply.length_front (by omega), hm] at hlen
  have hempty : s.connection.inFlight = [] := List.length_eq_zero_iff.mp (by omega)
  refine ⟨?_, hempty⟩
  rwa [hempty, List.append_nil] at hall

theorem EchoExchange.closed_of_finished {up down : Nat} {request : Bytes} {s : EchoExchange}
    (h : (echoExchange up down request).Reachable s) {m : Nat} (hop : s.client.op = .finished m) :
    s.connection.nearOpen = false := by
  refine h.invariant (P := fun s => ∀ m, s.client.op = .finished m → s.connection.nearOpen = false)
    ?_ (fun s e s' hclosed hs => ?_) m hop
  · rintro s ⟨_, hw, _⟩ m hop
    exact absurd (hw.symm.trans hop) nofun
  · intro m hop'
    change s.step up down e = some s' at hs
    cases e with
    | writeSome n =>
      obtain ⟨_, _, _, rfl⟩ := (step_writeSome up down).mp hs
      exact absurd hop' nofun
    | write =>
      obtain ⟨_, _, _, rfl⟩ := (step_write up down).mp hs
      exact absurd hop' nofun
    | readSome n =>
      obtain ⟨_, _, _, rfl⟩ := (step_readSome up down).mp hs
      exact absurd hop' nofun
    | read =>
      obtain ⟨_, _, _, rfl⟩ := (step_read up down).mp hs
      rfl
    | server e =>
      obtain ⟨_, c, hc, rfl⟩ := (step_server up down).mp hs
      exact (EchoConnection.step_nearOpen hc).trans (hclosed m hop')

/-- Wherever nothing is left to do, the message has made its way there and back. -/
theorem EchoExchange.echoed_of_stuck {up down : Nat} {request : Bytes} (hup : 1 ≤ up)
    (hdown : 1 ≤ down) (hn : request.length ≤ maxLength)
    (hbound : request.length ≤ up + down + 1) {s : EchoExchange}
    (h : (echoExchange up down request).Reachable s)
    (hstuck : (echoExchange up down request).Stuck s) : s.Echoed request := by
  rcases hop : s.client.op with t | t | m
  · exact absurd hstuck (not_stuck_writing hup hn hbound h hop)
  · exact absurd hstuck (not_stuck_reading hdown hn h hop)
  · obtain ⟨hreply, hempty⟩ := finished hn h hop
    have hclosed := closed_of_finished h hop
    refine ⟨⟨m, hop, hreply⟩, hclosed, ?_⟩
    have hidle : ∀ e c', s.connection.step (some down) e = some c' → e = .fail := by
      intro e c' hs
      by_contra he
      exact hstuck.not_step (.server e) ((step_server up down).mpr ⟨he, c', hs, rfl⟩)
    have hroom : Room (some down) s.connection.down 1 := by
      have hnone : s.connection.down = [] := (List.append_eq_nil_iff.mp hempty).1
      simp only [Room, hnone, Option.some.injEq, forall_eq', List.length_nil]
      omega
    have hlive : s.connection.nearOpen = true → s.connection.Live := fun ho =>
      absurd (ho.symm.trans hclosed) nofun
    obtain ⟨data, hdata⟩ := EchoConnection.settled_of_idle hlive hroom hidle
    exact ⟨data, by simpa [hclosed] using hdata⟩

/-- The line that was typed, up to its first NUL and cut to what `request` holds,
is printed after a bounded number of steps, in whatever order they are taken and
however small the queues that can carry it. -/
theorem run_echo_completes (input : Bytes) {up down : Nat} (hup : 1 ≤ up) (hdown : 1 ≤ down)
    (hbound : (message input).length ≤ up + down + 1) (request reply : Buffer Byte maxLength) :
    (echoExchange up down (message input)).Completes (EchoExchange.Echoed (message input))
      (5 * (message input).length + 4) (.runEcho request reply input) := by
  have hstart : (echoExchange up down (message input)).Reachable (.runEcho request reply input) :=
    .start EchoExchange.runEcho_start
  have hn : (message input).length ≤ maxLength := Nat.le_succ_of_le (length_message input)
  have hcompletes := System.completes_of_measure (m := echoExchange up down (message input))
    (Q := EchoExchange.Echoed (message input)) (μ := EchoExchange.remaining)
    (fun _ _ _ hs ht => System.ReachableBy.next hs trivial ht)
    (fun _ _ _ _ ht => EchoExchange.step_remaining ht)
    (fun s hs hstuck => EchoExchange.echoed_of_stuck hup hdown hn hbound hs hstuck) hstart
  refine hcompletes.mono (fun _ => id) ?_
  simp only [EchoExchange.remaining, EchoExchange.runEcho, (getline_strlen request input).1,
    EchoConnection.remaining, EchoConnection.fresh, Transfer.left_start, List.length_nil]
  omega

theorem run_echo_completes_line :
    (echoExchange 1 1 [104, 105]).Completes (EchoExchange.Echoed [104, 105]) 14
      (.runEcho (.filled 0) (.filled 0) [104, 105, 10, 33]) :=
  run_echo_completes [104, 105, 10, 33] (Nat.le_refl 1) (Nat.le_refl 1) (by decide)
    (.filled 0) (.filled 0)

end ScratchServers
