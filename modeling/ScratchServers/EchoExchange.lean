import ScratchServers.EchoServer

/-! One exchange of the blocking client of `echo_client.hpp` with the echo
server, over a connection whose queues are bounded. -/

namespace ScratchServers

inductive EchoClientOp where
  | write (t : Transfer)
  | read (t : Transfer)
  | finished (replyLength : Nat)
  deriving DecidableEq

structure EchoClient where
  request : Buffer Byte maxLength
  reply : Buffer Byte maxLength
  op : EchoClientOp

structure EchoExchange where
  client : EchoClient
  connection : EchoConnection

inductive EchoExchangeEvent where
  | writeSome (n : Nat)
  | write
  | readSome (n : Nat)
  | read
  | server (e : EchoEvent)

/-- `up` and `down` are the capacities of the two queues. There is no I/O error:
the server's operations do not fail. -/
def EchoExchange.step (up down : Nat) (s : EchoExchange) :
    EchoExchangeEvent → Option EchoExchange
  | .writeSome n =>
    match s.client.op with
    | .write t =>
      if t.CanAccept (some up) s.connection.up n then
        some {
          client := { s.client with op := .write (t.advance n) }
          connection := { s.connection with
            up := s.connection.up ++ (t.unsent s.client.request.cells).take n } }
      else none
    | _ => none
  | .write =>
    match s.client.op with
    | .write t =>
      if t.left = 0 then some { s with client := { s.client with op := .read (.start t.length) } }
      else none
    | _ => none
  | .readSome n =>
    match s.client.op with
    | .read t =>
      if CanRead t.left s.connection.down n then
        some {
          client := { s.client with
            reply := s.client.reply.put t.moved (s.connection.down.take n)
            op := .read (t.advance n) }
          connection := { s.connection with down := s.connection.down.drop n } }
      else none
    | _ => none
  | .read =>
    -- `reply_length` is what `read` returns; leaving the block closes the socket
    match s.client.op with
    | .read t =>
      if t.left = 0 then
        some {
          client := { s.client with op := .finished t.length }
          connection := { s.connection with nearOpen := false } }
      else none
    | _ => none
  | .server .fail => none
  | .server e => (s.connection.step (some down) e).map fun c => { s with connection := c }

/-- The client starts writing the `request.length` characters that `getline`
left in its buffer. -/
def echoExchange (up down : Nat) (request : Bytes) : System EchoExchange EchoExchangeEvent where
  start s :=
    s.client.request.front request.length = request ∧
      s.client.op = .write (.start request.length) ∧ s.connection = .fresh
  step := EchoExchange.step up down

section

variable (up down : Nat) {s s' : EchoExchange}

theorem EchoExchange.step_writeSome {n : Nat} :
    s.step up down (.writeSome n) = some s' ↔
      ∃ t, s.client.op = .write t ∧ t.CanAccept (some up) s.connection.up n ∧
        s' = {
          client := { s.client with op := .write (t.advance n) }
          connection := { s.connection with
            up := s.connection.up ++ (t.unsent s.client.request.cells).take n } } := by
  rcases hop : s.client.op with t | t | m <;> simp [step, hop, @eq_comm EchoExchange]

theorem EchoExchange.step_write :
    s.step up down .write = some s' ↔
      ∃ t, s.client.op = .write t ∧ t.left = 0 ∧
        s' = { s with client := { s.client with op := .read (.start t.length) } } := by
  rcases hop : s.client.op with t | t | m <;> simp [step, hop, @eq_comm EchoExchange]

theorem EchoExchange.step_readSome {n : Nat} :
    s.step up down (.readSome n) = some s' ↔
      ∃ t, s.client.op = .read t ∧ CanRead t.left s.connection.down n ∧
        s' = {
          client := { s.client with
            reply := s.client.reply.put t.moved (s.connection.down.take n)
            op := .read (t.advance n) }
          connection := { s.connection with down := s.connection.down.drop n } } := by
  rcases hop : s.client.op with t | t | m <;> simp [step, hop, @eq_comm EchoExchange]

theorem EchoExchange.step_read :
    s.step up down .read = some s' ↔
      ∃ t, s.client.op = .read t ∧ t.left = 0 ∧
        s' = {
          client := { s.client with op := .finished t.length }
          connection := { s.connection with nearOpen := false } } := by
  rcases hop : s.client.op with t | t | m <;> simp [step, hop, @eq_comm EchoExchange]

theorem EchoExchange.step_server {e : EchoEvent} :
    s.step up down (.server e) = some s' ↔
      e ≠ .fail ∧ ∃ c, s.connection.step (some down) e = some c ∧
        s' = { s with connection := c } := by
  cases e <;> simp [step, Option.map_eq_some_iff, @eq_comm EchoExchange]

end

def EchoClient.unsent (c : EchoClient) : Bytes :=
  match c.op with
  | .write t => t.unsent c.request.cells
  | _ => []

def EchoClient.received (c : EchoClient) : Bytes :=
  match c.op with
  | .write _ => []
  | .read t => c.reply.front t.moved
  | .finished m => c.reply.front m

def EchoClient.length (c : EchoClient) : Nat :=
  match c.op with
  | .write t => t.length
  | .read t => t.length
  | .finished m => m

def EchoExchange.line (s : EchoExchange) : Loopback Byte :=
  ⟨s.client.unsent, s.connection.inFlight, s.client.received⟩

/-- Sizes that every step keeps, and the server's side of a connection that the
client has not closed. -/
structure EchoExchange.Sound (request : Bytes) (s : EchoExchange) : Prop where
  length_eq : s.client.length = request.length
  writeFits : s.connection.WriteFits
  live : (∀ m, s.client.op ≠ .finished m) → s.connection.nearOpen = true ∧ s.connection.Live

theorem EchoExchange.Sound.step {up down : Nat} {request : Bytes} {s s' : EchoExchange}
    {l : EchoExchangeEvent} (h : s.Sound request) (hs : s.step up down l = some s') :
    s'.Sound request := by
  obtain ⟨hlen, hfits, hlive⟩ := h
  cases l with
  | writeSome n =>
    obtain ⟨t, hop, _, rfl⟩ := (step_writeSome _ _).mp hs
    exact ⟨by simpa [EchoClient.length, hop] using hlen, hfits, fun _ => hlive (by simp [hop])⟩
  | write =>
    obtain ⟨t, hop, _, rfl⟩ := (step_write _ _).mp hs
    exact ⟨by simpa [EchoClient.length, hop] using hlen, hfits, fun _ => hlive (by simp [hop])⟩
  | readSome n =>
    obtain ⟨t, hop, _, rfl⟩ := (step_readSome _ _).mp hs
    exact ⟨by simpa [EchoClient.length, hop] using hlen, hfits, fun _ => hlive (by simp [hop])⟩
  | read =>
    obtain ⟨t, hop, _, rfl⟩ := (step_read _ _).mp hs
    exact ⟨by simpa [EchoClient.length, hop] using hlen, hfits, fun hf => absurd rfl (hf _)⟩
  | server e =>
    obtain ⟨he, c, hc, rfl⟩ := (step_server _ _).mp hs
    exact ⟨hlen, hfits.step hc, fun hf => EchoConnection.Live.step hc (hlive hf).1 he⟩

theorem EchoExchange.sound_of_reachable {up down : Nat} {request : Bytes} {s : EchoExchange}
    (h : (echoExchange up down request).Reachable s) : s.Sound request := by
  refine h.invariant ?_ fun s l t hp ht => hp.step ht
  rintro s ⟨_, hop, hconn⟩
  refine ⟨by simp [EchoClient.length, hop], ?_, fun _ => ?_⟩
  · simp [EchoConnection.WriteFits, hconn, EchoConnection.fresh]
  · simp [EchoConnection.Live, hconn, EchoConnection.fresh]

theorem EchoExchange.line_reachable {up down : Nat} {request : Bytes} {s : EchoExchange}
    (hn : request.length ≤ maxLength) (h : (echoExchange up down request).Reachable s) :
    (loopback request).Reachable s.line := by
  refine System.ReachableBy.simulate line ?_ ?_ h
  · rintro s ⟨hreq, hop, hconn⟩
    change s.line = ⟨request, [], []⟩
    simp only [line, EchoClient.unsent, EchoClient.received, hop, hconn, Transfer.unsent_start]
    exact congrArg (fun xs => Loopback.mk xs [] []) hreq
  intro s l t hs _ ht
  have hsound := sound_of_reachable hs
  change s.step up down l = some t at ht
  cases l with
  | writeSome n =>
    obtain ⟨w, hop, hn, rfl⟩ := (step_writeSome _ _).mp ht
    refine .inr ⟨.send n, trivial, ?_⟩
    simp only [loopback, Loopback.step, line, EchoClient.unsent, EchoClient.received, hop,
      Transfer.unsent_advance hn.2.1, EchoConnection.inFlight, EchoConnection.held,
      List.append_assoc]
  | write =>
    obtain ⟨w, hop, hw, rfl⟩ := (step_write _ _).mp ht
    refine .inl ?_
    simp only [line, EchoClient.unsent, EchoClient.received, hop, Transfer.unsent_eq_nil hw]
    rfl
  | readSome n =>
    obtain ⟨w, hop, hr, rfl⟩ := (step_readSome _ _).mp ht
    refine .inr ⟨.receive n, trivial, ?_⟩
    have hlen : w.length = request.length := by
      simpa [EchoClient.length, hop] using hsound.length_eq
    have hfit : w.moved + n ≤ maxLength := by
      have hmoved := w.moved_add_left
      have hleft := hr.2.1
      omega
    have hfront := hr.front_put s.client.reply hfit
    simp only [loopback, Loopback.step, line, EchoClient.unsent, EchoClient.received, hop,
      Transfer.moved_advance hr.2.1, hfront, EchoConnection.inFlight,
      List.take_append_of_le_length hr.2.2, List.drop_append_of_le_length hr.2.2]
    rfl
  | read =>
    obtain ⟨w, hop, hw, rfl⟩ := (step_read _ _).mp ht
    refine .inl ?_
    have hmoved : w.moved = w.length := by have := w.moved_add_left; omega
    simp only [line, EchoClient.unsent, EchoClient.received, hop, hmoved]
    rfl
  | server e =>
    obtain ⟨he, c, hc, rfl⟩ := (step_server _ _).mp ht
    exact .inl (by simp only [line, EchoConnection.step_inFlight hc he])

theorem EchoExchange.conserves {up down : Nat} {request : Bytes} {s : EchoExchange}
    (hn : request.length ≤ maxLength) (h : (echoExchange up down request).Reachable s) :
    s.client.received ++ (s.connection.inFlight ++ s.client.unsent) = request :=
  loopback_conserves (line_reachable hn h)

/-- A server with nothing to do while the client is connected is either drained
or stopped by a full queue, and then it holds at least one byte. -/
theorem EchoExchange.server_idle {up down : Nat} {request : Bytes} {s : EchoExchange}
    (hsound : s.Sound request) (hf : ∀ m, s.client.op ≠ .finished m)
    (hstuck : (echoExchange up down request).Stuck s) :
    (s.connection.held = [] ∧ s.connection.up = []) ∨
      (0 < s.connection.held.length ∧ down ≤ s.connection.down.length) := by
  have hidle : ∀ e c', s.connection.step (some down) e = some c' → e = .fail := by
    intro e c' he
    by_contra hne
    exact hstuck.not_step (.server e) ((step_server up down).mpr ⟨hne, c', he, rfl⟩)
  rcases (hsound.live hf).2.idle hidle with hdrained | ⟨data, t, hsess, hleft, hfull⟩
  · exact .inl hdrained
  · refine .inr ⟨?_, ?_⟩
    · have hfit : t.length ≤ data.cells.length := by
        rw [data.length_cells]
        exact hsound.writeFits data t hsess
      have hlen := Transfer.length_unsent hfit
      simpa only [EchoConnection.held, hsess, EchoSession.held, hlen] using hleft
    · simp only [Room, Option.some.injEq, forall_eq'] at hfull
      omega

theorem EchoExchange.not_stuck_writing {up down : Nat} {request : Bytes} {s : EchoExchange}
    {t : Transfer} (hup : 1 ≤ up) (hn : request.length ≤ maxLength)
    (hbound : request.length ≤ up + down + 1) (h : (echoExchange up down request).Reachable s)
    (hop : s.client.op = .write t) : ¬ (echoExchange up down request).Stuck s := by
  intro hstuck
  have hsound := sound_of_reachable h
  have hlen : t.length = request.length := by simpa [EchoClient.length, hop] using hsound.length_eq
  have hleft : 0 < t.left := by
    by_contra h0
    have ht : t.left = 0 := by omega
    exact hstuck.not_step .write ((step_write up down).mpr ⟨t, hop, ht, rfl⟩)
  have hfull : up ≤ s.connection.up.length := by
    by_contra hroom
    have hone : Room (some up) s.connection.up 1 := by
      simp only [Room, Option.some.injEq, forall_eq']
      omega
    have hacc := Transfer.canAccept_one hleft hone
    exact hstuck.not_step (.writeSome 1) ((step_writeSome up down).mpr ⟨t, hop, hacc, rfl⟩)
  have hbytes : s.connection.down.length + (s.connection.held.length + s.connection.up.length) +
      t.left = request.length := by
    have hfit : t.length ≤ s.client.request.cells.length := by
      rw [s.client.request.length_cells, hlen]
      exact hn
    have hc := congrArg List.length (conserves hn h)
    simpa only [EchoClient.received, EchoClient.unsent, hop, EchoConnection.inFlight,
      List.nil_append, List.length_append, Transfer.length_unsent hfit] using hc
  rcases server_idle hsound (by simp [hop]) hstuck with ⟨_, hup0⟩ | ⟨hheld, hdown⟩
  · rw [hup0, List.length_nil] at hfull
    omega
  · omega

theorem EchoExchange.not_stuck_reading {up down : Nat} {request : Bytes} {s : EchoExchange}
    {t : Transfer} (hdown : 1 ≤ down) (hn : request.length ≤ maxLength)
    (h : (echoExchange up down request).Reachable s) (hop : s.client.op = .read t) :
    ¬ (echoExchange up down request).Stuck s := by
  intro hstuck
  have hsound := sound_of_reachable h
  have hlen : t.length = request.length := by simpa [EchoClient.length, hop] using hsound.length_eq
  have hmoved := t.moved_add_left
  have hleft : 0 < t.left := by
    by_contra h0
    have ht : t.left = 0 := by omega
    exact hstuck.not_step .read ((step_read up down).mpr ⟨t, hop, ht, rfl⟩)
  have hempty : s.connection.down = [] := by
    by_contra hd
    have hr : CanRead t.left s.connection.down 1 := canRead_one hleft hd
    exact hstuck.not_step (.readSome 1) ((step_readSome up down).mpr ⟨t, hop, hr, rfl⟩)
  rcases server_idle hsound (by simp [hop]) hstuck with ⟨hheld, hup⟩ | ⟨_, hfull⟩
  · have hc := congrArg List.length (conserves hn h)
    have hfit : t.moved ≤ maxLength := by omega
    simp only [EchoClient.received, EchoClient.unsent, hop, EchoConnection.inFlight, hempty, hheld,
      hup, List.append_nil, s.client.reply.length_front hfit] at hc
    omega
  · rw [hempty, List.length_nil] at hfull
    omega

/-- Before the client has finished some step is enabled, and what it has read
when it has finished is its request. -/
theorem echoExchange_completes {up down : Nat} {request : Bytes} (hup : 1 ≤ up) (hdown : 1 ≤ down)
    (hn : request.length ≤ 1023) (hbound : request.length ≤ up + down + 1) {s : EchoExchange}
    (h : (echoExchange up down request).Reachable s) :
    ((∀ m, s.client.op ≠ .finished m) → ¬ (echoExchange up down request).Stuck s) ∧
      ∀ replyLength, s.client.op = .finished replyLength →
        replyLength = request.length ∧ s.client.reply.front replyLength = request := by
  have hmax : request.length ≤ maxLength := Nat.le_succ_of_le hn
  constructor
  · intro hf
    cases hop : s.client.op with
    | write t => exact EchoExchange.not_stuck_writing hup hmax hbound h hop
    | read t => exact EchoExchange.not_stuck_reading hdown hmax h hop
    | finished m => exact absurd hop (hf m)
  · intro m hop
    have hm : m = request.length := by
      simpa [EchoClient.length, hop] using (EchoExchange.sound_of_reachable h).length_eq
    have hc := EchoExchange.conserves hmax h
    simp only [EchoClient.received, hop] at hc
    have hlen : (s.client.reply.front m).length = request.length := by
      rw [s.client.reply.length_front (by omega), hm]
    exact ⟨hm, List.IsPrefix.eq_of_length ⟨_, hc⟩ hlen⟩

def tightExchange : List EchoExchangeEvent :=
  [.writeSome 1, .server (.accept (.filled 0)), .server (.read 1), .writeSome 1,
    .server (.writeSome 1), .server .write, .server (.read 1), .writeSome 1, .write, .readSome 1,
    .server (.writeSome 1), .server .write, .server (.read 1), .readSome 1,
    .server (.writeSome 1), .readSome 1, .read]

theorem tightExchange_completes :
    ∃ s, (echoExchange 1 1 [7, 8, 9]).Reachable s ∧ s.client.op = .finished 3 ∧
      s.client.reply.front 3 = [7, 8, 9] := by
  let client : EchoClient := ⟨Buffer.put (.filled 0) 0 [7, 8, 9], .filled 0, .write (.start 3)⟩
  obtain ⟨s, hs, hop⟩ := (echoExchange 1 1 [7, 8, 9]).exists_reachable_of_run ⟨client, .fresh⟩
    tightExchange (fun s => s.client.op = .finished 3) ⟨by decide, rfl, rfl⟩ (by decide +kernel)
  have hop : s.client.op = .finished 3 := of_decide_eq_true hop
  have h := echoExchange_completes (by decide) (by decide) (by decide) (by decide) hs
  exact ⟨s, hs, hop, (h.2 3 hop).2⟩

end ScratchServers
