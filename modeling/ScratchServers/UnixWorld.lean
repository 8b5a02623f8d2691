import ScratchServers.UnixAnswer

/-! The Unix-socket server and any number of `uclient.cpp` processes. A client
that has connected waits in the queue of the listening socket and may write before
an accept takes it from there; from then on it has a connection of its own. -/

namespace ScratchServers

/-- A client's end of its connection, with what is on its way to the server. -/
structure UClientEnd where
  client : UClient
  inbox : Bytes
  read : Bytes
  seen : Nat

def HttpExchange.clientEnd (x : HttpExchange) : UClientEnd :=
  ⟨x.client, x.inbox, x.read, x.seen⟩

/-- The clients stand in the order in which they have connected, and are accepted
in it. -/
structure HttpWorld where
  server : HttpServer
  clients : List UClientEnd

/-- To a client that has not been accepted yet, the connection looks like one on
which the server has done nothing. -/
def HttpWorld.connection (w : HttpWorld) (j : Nat) : HttpConnection :=
  w.server.connections[j]?.getD (HttpConnection.construct (some j)).start

def HttpWorld.exchanges (w : HttpWorld) : List HttpExchange :=
  w.clients.mapIdx fun j c => ⟨c.client, c.inbox, c.read, c.seen, w.connection j⟩

inductive HttpWorldEvent where
  | connect
  | acceptCompletes
  | acceptFails
  | accept
  | exchange (j : Nat) (e : HttpExchangeEvent)

def HttpExchangeEvent.ofClient : HttpExchangeEvent → Bool
  | .client _ => true
  | _ => false

section

variable (k : HttpCodec) (up down : Nat)

def HttpWorld.put (w : HttpWorld) (j : Nat) (x : HttpExchange) : HttpWorld where
  server := { w.server with connections := w.server.connections.set j x.server }
  clients := w.clients.set j x.clientEnd

def HttpWorld.step (w : HttpWorld) : HttpWorldEvent → Option HttpWorld
  | .connect =>
    some { w with clients := w.clients ++ [(HttpExchange.start k w.clients.length).clientEnd] }
  | .acceptCompletes =>
    if w.server.nextSocket < w.clients.length then
      (w.server.step k.serialise .acceptCompletes).map fun s => { w with server := s }
    else none
  | .acceptFails =>
    (w.server.step k.serialise .acceptFails).map fun s => { w with server := s }
  | .accept =>
    (w.server.step k.serialise .accept).map fun s => { w with server := s }
  | .exchange j e =>
    if e.ofClient = true ∨ j < w.server.connections.length then
      w.exchanges[j]?.bind fun x => (x.step k up down e).map (w.put j)
    else none

def httpWorld : System HttpWorld HttpWorldEvent where
  start w := w = ⟨.start, []⟩
  step := HttpWorld.step k up down

end

/-- The steps of each exchange are allowed where it takes them. -/
def HttpWorldEvent.Within (allowed : HttpExchange → HttpExchangeEvent → Prop) (w : HttpWorld)
    (e : HttpWorldEvent) : Prop :=
  ∀ j l x, e = .exchange j l → w.exchanges[j]? = some x → allowed x l

/-- Neither a timer expires, nor does a client's `shutdown` or an accept fail. -/
def HttpWorldEvent.calm : HttpWorldEvent → Bool
  | .acceptFails => false
  | .exchange _ e => e.calm
  | _ => true

/-- What is left to do when no client comes any more. -/
def HttpWorldEvent.serves : HttpWorldEvent → Bool
  | .connect => false
  | e => e.calm

/-- The deadline handler of a connection runs before the response is whole. -/
def HttpWorld.CutsOff (k : HttpCodec) (j : Nat) (w : HttpWorld) (e : HttpWorldEvent) : Prop :=
  ∃ l x, e = .exchange j l ∧ w.exchanges[j]? = some x ∧ x.TimesOut l ∧ x.server.wire ≠ k.answer

def AcceptOp.waits : AcceptOp → Nat
  | .outstanding => 1
  | .queued (.ok _) => 0
  | .queued (.error _) => 2

def HttpWorld.remaining (k : HttpCodec) (w : HttpWorld) : Nat :=
  total (HttpExchange.remaining k) w.exchanges +
    2 * (w.clients.length - w.server.connections.length) + w.server.accept.waits

/-- Every client that has connected has been accepted and has its answer. -/
structure HttpWorld.Served (k : HttpCodec) (w : HttpWorld) : Prop where
  accept : w.server.accept = .outstanding
  accepted : w.server.connections.length = w.clients.length
  answered : ∀ (j : Nat) x, w.exchanges[j]? = some x → x.Answered k

/-- How the sockets that have been accepted are numbered. -/
structure HttpWorld.Aligned (w : HttpWorld) : Prop where
  socket : w.server.socket = none
  outstanding : w.server.accept = .outstanding →
    w.server.nextSocket = w.server.connections.length
  taken : ∀ i, w.server.accept = .queued (.ok i) → i = w.server.connections.length ∧
    w.server.nextSocket = w.server.connections.length + 1
  failed : ∀ ec, w.server.accept = .queued (.error ec) →
    ec ≠ .success ∧ w.server.nextSocket = w.server.connections.length
  known : w.server.nextSocket ≤ w.clients.length

section

variable {k : HttpCodec} {up down : Nat} {w w' : HttpWorld}

theorem HttpWorld.getElem?_exchanges (j : Nat) :
    w.exchanges[j]? = w.clients[j]?.map fun c =>
      ⟨c.client, c.inbox, c.read, c.seen, w.connection j⟩ := by
  rw [exchanges, List.getElem?_mapIdx]

theorem HttpWorld.length_exchanges : w.exchanges.length = w.clients.length := by
  rw [exchanges, List.length_mapIdx]

theorem HttpWorld.Aligned.length_le (h : w.Aligned) :
    w.server.connections.length ≤ w.clients.length := by
  have hknown := h.known
  rcases ha : w.server.accept with _ | ec | i
  · have hnext := h.outstanding ha
    omega
  · have hnext := (h.failed ec ha).2
    omega
  · have hnext := (h.taken i ha).2
    omega

theorem HttpWorld.step_exchange {j : Nat} {e : HttpExchangeEvent} :
    w.step k up down (.exchange j e) = some w' ↔
      (e.ofClient = true ∨ j < w.server.connections.length) ∧
        ∃ x y, w.exchanges[j]? = some x ∧ x.step k up down e = some y ∧ w' = w.put j y := by
  simp only [step, Option.ite_none_right_eq_some, Option.bind_eq_some_iff,
    Option.map_eq_some_iff]
  constructor
  · rintro ⟨he, x, hx, y, hy, rfl⟩
    exact ⟨he, x, y, hx, hy, rfl⟩
  · rintro ⟨he, x, y, hx, hy, rfl⟩
    exact ⟨he, x, hx, y, hy, rfl⟩

theorem HttpWorld.connection_put {i j : Nat} {y : HttpExchange}
    (hy : j < w.server.connections.length ∨ y.server = w.connection j) :
    (w.put j y).connection i = if i = j then y.server else w.connection i := by
  by_cases hij : i = j
  · subst i
    rw [if_pos rfl, connection, put]
    by_cases hj : j < w.server.connections.length
    · rw [List.getElem?_set_self hj, Option.getD_some]
    · rw [List.set_eq_of_length_le (Nat.le_of_not_lt hj)]
      exact (hy.resolve_left hj).symm
  · rw [if_neg hij, connection, put, List.getElem?_set_ne (Ne.symm hij), connection]

theorem HttpWorld.exchange_server {j : Nat} {x : HttpExchange} (hx : w.exchanges[j]? = some x) :
    x.server = w.connection j := by
  rw [getElem?_exchanges] at hx
  obtain ⟨c, _, rfl⟩ := Option.map_eq_some_iff.mp hx
  rfl

theorem HttpWorld.getElem?_connections {j : Nat} (hj : j < w.server.connections.length) :
    w.server.connections[j]? = some (w.connection j) := by
  rw [connection, List.getElem?_eq_getElem hj, Option.getD_some]

/-- Only the exchange that takes the step is changed by it. -/
theorem HttpWorld.exchanges_put {j : Nat} {e : HttpExchangeEvent} {x y : HttpExchange}
    (he : e.ofClient = true ∨ j < w.server.connections.length)
    (hx : w.exchanges[j]? = some x) (hy : x.step k up down e = some y) :
    (w.put j y).exchanges = w.exchanges.set j y := by
  have hj : j < w.clients.length := length_exchanges (w := w) ▸ lt_length_of_getElem? hx
  rw [getElem?_exchanges] at hx
  obtain ⟨c, _, rfl⟩ := Option.map_eq_some_iff.mp hx
  have hserver : j < w.server.connections.length ∨ y.server = w.connection j := by
    rcases he with he | hj
    · cases e with
      | client e => exact .inr (HttpExchange.client_server hy)
      | arrive n => exact absurd he (by simp [HttpExchangeEvent.ofClient])
      | server e => exact absurd he (by simp [HttpExchangeEvent.ofClient])
    · exact .inl hj
  apply List.ext_getElem?
  intro i
  rw [getElem?_exchanges, connection_put hserver]
  by_cases hij : i = j
  · subst i
    have hclient : (w.put j y).clients[j]? = some y.clientEnd := List.getElem?_set_self hj
    rw [hclient, List.getElem?_set_self (length_exchanges (w := w) ▸ hj), Option.map_some,
      if_pos rfl]
    rfl
  · have hclient : (w.put j y).clients[i]? = w.clients[i]? := List.getElem?_set_ne (Ne.symm hij)
    rw [hclient, List.getElem?_set_ne (Ne.symm hij), if_neg hij, getElem?_exchanges]

theorem HttpWorld.exchanges_connect (hw : w.server.connections.length ≤ w.clients.length) :
    HttpWorld.exchanges { w with
      clients := w.clients ++ [(HttpExchange.start k w.clients.length).clientEnd] } =
      w.exchanges ++ [.start k w.clients.length] := by
  have hpending : w.connection w.clients.length =
      (HttpConnection.construct (some w.clients.length)).start := by
    rw [connection, List.getElem?_eq_none hw, Option.getD_none]
  simp only [exchanges, List.mapIdx_concat]
  exact congrArg (w.exchanges ++ [·]) (congrArg (HttpExchange.mk _ _ _ _) hpending)

theorem HttpWorld.exchanges_server {s : HttpServer}
    (hsame : ∀ j, HttpWorld.connection { w with server := s } j = w.connection j) :
    HttpWorld.exchanges { w with server := s } = w.exchanges := by
  simp only [exchanges, hsame]

/-- To the client that is let in, its connection looks as it did before. -/
theorem HttpWorld.exchanges_accept {s : HttpServer} {i : Nat}
    (hi : i = w.server.connections.length)
    (hs : s.connections = w.server.connections ++ [(HttpConnection.construct (some i)).start]) :
    HttpWorld.exchanges { w with server := s } = w.exchanges := by
  refine exchanges_server fun j => ?_
  rw [connection, connection, hs]
  rcases Nat.lt_trichotomy j i with hj | rfl | hj
  · rw [List.getElem?_append_left (hi ▸ hj)]
  · rw [hi, List.getElem?_concat_length, List.getElem?_eq_none (Nat.le_refl _)]
    rfl
  · have hlength : (w.server.connections ++
        [(HttpConnection.construct (some i)).start]).length ≤ j := by
      rw [List.length_append, List.length_singleton]
      omega
    rw [List.getElem?_eq_none hlength, List.getElem?_eq_none (by omega)]

theorem HttpWorld.step_acceptCompletes (hs : w.step k up down .acceptCompletes = some w') :
    w.server.nextSocket < w.clients.length ∧ w.server.accept = .outstanding ∧
      w' = { w with server := { w.server with
        accept := .queued (.ok w.server.nextSocket)
        nextSocket := w.server.nextSocket + 1 } } := by
  obtain ⟨hnext, hs⟩ := Option.ite_none_right_eq_some.mp hs
  obtain ⟨s, hstep, rfl⟩ := Option.map_eq_some_iff.mp hs
  obtain ⟨ha, rfl⟩ := HttpServer.step_acceptCompletes hstep
  exact ⟨hnext, ha, rfl⟩

theorem HttpWorld.step_acceptFails (hs : w.step k up down .acceptFails = some w') :
    w.server.accept = .outstanding ∧
      w' = { w with server := { w.server with accept := .queued (.error .failed) } } := by
  obtain ⟨s, hstep, rfl⟩ := Option.map_eq_some_iff.mp hs
  obtain ⟨ha, rfl⟩ := HttpServer.step_acceptFails hstep
  exact ⟨ha, rfl⟩

/-- An accept ends with an error, or with the client that is next; then another one
is outstanding. -/
theorem HttpWorld.step_accept (h : w.Aligned) (hs : w.step k up down .accept = some w') :
    ∃ s, w' = { w with server := s } ∧ s.socket = none ∧ s.accept = .outstanding ∧
      s.nextSocket = w.server.nextSocket ∧
      ((∃ ec, w.server.accept = .queued (.error ec) ∧
        s.connections = w.server.connections) ∨
      ∃ i, w.server.accept = .queued (.ok i) ∧
        s.connections = w.server.connections ++ [(HttpConnection.construct (some i)).start]) := by
  obtain ⟨s, hstep, rfl⟩ := Option.map_eq_some_iff.mp hs
  refine ⟨s, rfl, ?_⟩
  rcases HttpServer.step_accept hstep with ⟨ec, ha, rfl⟩ | ⟨i, ha, rfl⟩
  · rw [HttpServer.onAccept_failed (h.failed ec ha).1]
    exact ⟨h.socket, if_pos h.socket, rfl, .inl ⟨ec, ha, rfl⟩⟩
  · exact ⟨rfl, rfl, rfl, .inr ⟨i, ha, rfl⟩⟩

theorem HttpWorld.Aligned.step (h : w.Aligned) {e : HttpWorldEvent}
    (hs : w.step k up down e = some w') : w'.Aligned := by
  have hknown := h.known
  cases e with
  | connect =>
    obtain rfl := Option.some.inj hs
    refine ⟨h.socket, h.outstanding, h.taken, h.failed, ?_⟩
    rw [List.length_append]
    exact Nat.le_add_right_of_le hknown
  | acceptCompletes =>
    obtain ⟨hnext, ha, rfl⟩ := step_acceptCompletes hs
    have hout := h.outstanding ha
    refine ⟨h.socket, nofun, ?_, nofun, hnext⟩
    rintro i hi
    obtain rfl : w.server.nextSocket = i := by simpa using hi
    exact ⟨hout, congrArg (· + 1) hout⟩
  | acceptFails =>
    obtain ⟨ha, rfl⟩ := step_acceptFails hs
    refine ⟨h.socket, nofun, nofun, ?_, hknown⟩
    rintro ec hec
    obtain rfl : ErrorCode.failed = ec := by simpa using hec
    exact ⟨by simp, h.outstanding ha⟩
  | accept =>
    obtain ⟨s, rfl, hsocket, haccept, hnext, hconnections⟩ := step_accept h hs
    refine ⟨hsocket, fun _ => ?_, ?_, ?_, hnext ▸ hknown⟩
    · rw [hnext]
      rcases hconnections with ⟨ec, ha, hsame⟩ | ⟨i, ha, hnew⟩
      · rw [hsame]
        exact (h.failed ec ha).2
      · rw [hnew, List.length_append]
        exact (h.taken i ha).2
    · intro i hi
      exact absurd (haccept.symm.trans hi) (by simp)
    · intro ec hec
      exact absurd (haccept.symm.trans hec) (by simp)
  | exchange j e =>
    obtain ⟨_, x, y, _, _, rfl⟩ := step_exchange.mp hs
    have hlength : (w.put j y).server.connections.length = w.server.connections.length :=
      List.length_set
    have hclients : (w.put j y).clients.length = w.clients.length := List.length_set
    refine ⟨h.socket, ?_, ?_, ?_, ?_⟩
    · rw [hlength]
      exact h.outstanding
    · rw [hlength]
      exact h.taken
    · rw [hlength]
      exact h.failed
    · rw [hclients]
      exact hknown

/-- What a step does to the exchanges: one is added, one takes a step of its own,
or all of them stay as they are. -/
theorem HttpWorld.step_exchanges (h : w.Aligned) {e : HttpWorldEvent}
    (hs : w.step k up down e = some w') :
    (e = .connect ∧ w'.exchanges = w.exchanges ++ [.start k w.clients.length]) ∨
      (∃ j l x y, e = .exchange j l ∧ w.exchanges[j]? = some x ∧
        x.step k up down l = some y ∧ w'.exchanges = w.exchanges.set j y) ∨
      ((∀ j l, e ≠ .exchange j l) ∧ w'.exchanges = w.exchanges) := by
  cases e with
  | connect =>
    obtain rfl := Option.some.inj hs
    exact .inl ⟨rfl, exchanges_connect h.length_le⟩
  | acceptCompletes =>
    obtain ⟨_, _, rfl⟩ := step_acceptCompletes hs
    exact .inr (.inr ⟨by simp, exchanges_server fun _ => rfl⟩)
  | acceptFails =>
    obtain ⟨_, rfl⟩ := step_acceptFails hs
    exact .inr (.inr ⟨by simp, exchanges_server fun _ => rfl⟩)
  | accept =>
    refine .inr (.inr ⟨by simp, ?_⟩)
    obtain ⟨s, rfl, _, _, _, ⟨_, _, hsame⟩ | ⟨i, ha, hnew⟩⟩ := step_accept h hs
    · exact exchanges_server fun j => by rw [connection, connection, hsame]
    · exact exchanges_accept (h.taken i ha).1 hnew
  | exchange j l =>
    obtain ⟨he, x, y, hx, hy, rfl⟩ := step_exchange.mp hs
    exact .inr (.inl ⟨j, l, x, y, rfl, hx, hy, exchanges_put he hx hy⟩)

/-- What a new exchange has and its own steps keep, it has throughout. -/
theorem HttpWorld.Aligned.step_keeps (h : w.Aligned) {e : HttpWorldEvent}
    (hs : w.step k up down e = some w') {P : HttpExchange → Prop} {j : Nat}
    (hstart : ∀ socket, P (.start k socket))
    (hkeep : ∀ l x y, e = .exchange j l → w.exchanges[j]? = some x → P x →
      x.step k up down l = some y → P y)
    (hP : ∀ x, w.exchanges[j]? = some x → P x) : ∀ x, w'.exchanges[j]? = some x → P x := by
  intro z hz
  rcases step_exchanges h hs with ⟨_, hnew⟩ | ⟨i, l, x, y, rfl, hx, hy, hset⟩ | ⟨_, hsame⟩
  · rw [hnew] at hz
    rcases getElem?_snoc_cases hz with ⟨_, rfl⟩ | ⟨_, hz⟩
    · exact hstart w.clients.length
    · exact hP z hz
  · rw [hset] at hz
    rcases getElem?_set_cases hz with ⟨rfl, rfl⟩ | ⟨_, hz⟩
    · exact hkeep l x z rfl hx (hP x hx) hy
    · exact hP z hz
  · exact hP z (hsame ▸ hz)

theorem HttpWorld.aligned_start : HttpWorld.Aligned ⟨.start, []⟩ :=
  ⟨rfl, fun _ => rfl, nofun, nofun, Nat.le_refl _⟩

theorem httpWorld_aligned (h : (httpWorld k up down).Reachable w) : w.Aligned := by
  refine h.invariant (P := HttpWorld.Aligned) ?_ fun _ _ _ hw hs => hw.step hs
  rintro w rfl
  exact HttpWorld.aligned_start

theorem HttpWorld.step_family (h : w.Aligned) {e : HttpWorldEvent}
    (hs : w.step k up down e = some w') {allowed : HttpExchange → HttpExchangeEvent → Prop}
    (he : e.Within allowed w) :
    w'.exchanges = w.exchanges ∨ ∃ l, FamilyEvent.Within allowed w.exchanges l ∧
      (httpExchange k up down).family.step w.exchanges l = some w'.exchanges := by
  rcases step_exchanges h hs with ⟨_, hnew⟩ | ⟨j, l, x, y, rfl, hx, hy, hset⟩ | ⟨_, hsame⟩
  · exact .inr ⟨.spawn ⟨.start k w.clients.length, _, rfl⟩, trivial, congrArg some hnew.symm⟩
  · refine .inr ⟨.member j l, fun x hx => he j l x rfl hx, ?_⟩
    exact System.family_step_member.mpr ⟨x, y, hx, hy, hset⟩
  · exact .inl hsame

theorem httpWorld_family {allowed : HttpExchange → HttpExchangeEvent → Prop}
    (h : (httpWorld k up down).ReachableBy (fun w e => e.Within allowed w) w) :
    (httpExchange k up down).family.ReachableBy (fun ss e => e.Within allowed ss)
      w.exchanges := by
  refine System.ReachableBy.simulate HttpWorld.exchanges ?_ ?_ h
  · rintro w rfl
    rfl
  · intro w e w' hw he hs
    exact HttpWorld.step_family (httpWorld_aligned hw.reachable) hs he

/-- A step of an exchange is one of the server's, or leaves the server alone. -/
theorem HttpWorld.step_server {e : HttpWorldEvent} (hs : w.step k up down e = some w') :
    w'.server = w.server ∨ ∃ l, w.server.step k.serialise l = some w'.server := by
  cases e with
  | connect =>
    obtain rfl := Option.some.inj hs
    exact .inl rfl
  | acceptCompletes =>
    obtain ⟨_, hs⟩ := Option.ite_none_right_eq_some.mp hs
    obtain ⟨s, hstep, rfl⟩ := Option.map_eq_some_iff.mp hs
    exact .inr ⟨_, hstep⟩
  | acceptFails =>
    obtain ⟨s, hstep, rfl⟩ := Option.map_eq_some_iff.mp hs
    exact .inr ⟨_, hstep⟩
  | accept =>
    obtain ⟨s, hstep, rfl⟩ := Option.map_eq_some_iff.mp hs
    exact .inr ⟨_, hstep⟩
  | exchange j l =>
    obtain ⟨he, x, y, hx, hy, rfl⟩ := step_exchange.mp hs
    have hserver := exchange_server hx
    have hown (e : HttpConnectionEvent) (hj : j < w.server.connections.length)
        (hc : x.server.step k.serialise e = some y.server) :
        w.server.step k.serialise (.connection j e) = some (w.put j y).server := by
      rw [hserver] at hc
      simp only [HttpServer.step, getElem?_connections hj, Option.bind_some, hc, Option.map_some]
      rfl
    cases l with
    | client l =>
      left
      have hsame : w.server.connections.set j y.server = w.server.connections := by
        rw [HttpExchange.client_server hy, hserver]
        by_cases hj : j < w.server.connections.length
        · obtain ⟨hlt, hget⟩ := List.getElem?_eq_some_iff.mp (getElem?_connections hj)
          rw [← hget]
          exact List.set_getElem_self hlt
        · exact List.set_eq_of_length_le (Nat.le_of_not_lt hj)
      rw [put, hsame]
    | arrive n =>
      have hj := he.resolve_left (by simp [HttpExchangeEvent.ofClient])
      obtain ⟨_, _, c, hc, rfl⟩ := HttpExchange.step_arrive.mp hy
      exact .inr ⟨_, hown _ hj hc⟩
    | server e =>
      have hj := he.resolve_left (by simp [HttpExchangeEvent.ofClient])
      obtain ⟨_, c, hc, rfl⟩ := HttpExchange.step_server.mp hy
      exact .inr ⟨_, hown _ hj hc⟩

theorem HttpWorld.reachable_exchange (h : (httpWorld k up down).Reachable w) :
    ∀ (j : Nat) x, w.exchanges[j]? = some x → (httpExchange k up down).Reachable x :=
  System.reachableBy_member (httpWorld_family (h.mono fun _ _ _ _ _ _ _ _ => trivial))

/-- The server among its clients is the server, and client by client it serves
them as it would serve one alone. -/
theorem unix_world_refines (h : (httpWorld k up down).Reachable w) :
    (httpServer k.serialise).Reachable w.server ∧
      ∀ (j : Nat) x, w.exchanges[j]? = some x → (httpExchange k up down).Reachable x := by
  constructor
  · refine System.ReachableBy.simulate HttpWorld.server ?_ ?_ h
    · rintro w rfl
      rfl
    · intro w e w' _ _ hs
      exact (HttpWorld.step_server hs).imp_right fun hl => hl.imp fun _ hl => ⟨trivial, hl⟩
  · exact HttpWorld.reachable_exchange h

theorem HttpExchange.remaining_le (hk : k.Faithful) {x : HttpExchange}
    (h : (httpExchange k up down).Reachable x) : x.remaining k ≤ HttpExchange.bound k := by
  have hinv := h.invariant (P := fun x => x.Sound k ∧ x.remaining k ≤ HttpExchange.bound k)
    ?_ fun x l y hx hy => ?_
  · exact hinv.2
  · rintro x ⟨socket, rfl⟩
    exact ⟨HttpExchange.sound_start hk socket, Nat.le_of_eq (HttpExchange.remaining_start socket)⟩
  · exact ⟨hx.1.step hk hy, Nat.le_trans (Nat.le_of_lt (hx.1.step_remaining hk hy)) hx.2⟩

/-- Nothing has gone wrong for any client. -/
structure HttpWorld.Calm (k : HttpCodec) (w : HttpWorld) : Prop extends HttpWorld.Aligned w where
  calm : ∀ (j : Nat) x, w.exchanges[j]? = some x → x.Calm k

theorem HttpWorldEvent.calm_of_serves {e : HttpWorldEvent} (he : e.serves = true) :
    e.calm = true := by
  cases e with
  | connect => exact absurd he (by simp [serves])
  | _ => exact he

theorem HttpExchange.calm_start (hk : k.Faithful) (socket : Nat) :
    (HttpExchange.start k socket).Calm k :=
  ⟨onCourse_start hk socket,
    by simp [start, HttpConnection.start, HttpConnection.checkDeadline],
    by simp [start, UClient.start]⟩

theorem HttpWorld.Calm.step (hk : k.Faithful) (h : w.Calm k) {e : HttpWorldEvent}
    (he : e.calm = true) (hs : w.step k up down e = some w') : w'.Calm k := by
  refine ⟨h.toAligned.step hs, fun j => ?_⟩
  apply h.toAligned.step_keeps hs (HttpExchange.calm_start hk) ?_ (h.calm j)
  rintro l x y rfl _ hx hy
  exact hx.step hk he hy

theorem HttpWorld.Calm.step_remaining (hk : k.Faithful) (h : w.Calm k) {e : HttpWorldEvent}
    (he : e.serves = true) (hs : w.step k up down e = some w') :
    w'.remaining k < w.remaining k := by
  cases e with
  | connect => exact absurd he (by simp [HttpWorldEvent.serves])
  | acceptFails => exact absurd he (by simp [HttpWorldEvent.serves, HttpWorldEvent.calm])
  | acceptCompletes =>
    obtain ⟨_, ha, rfl⟩ := step_acceptCompletes hs
    have hsame := exchanges_server (w := w) (s := { w.server with
      accept := .queued (.ok w.server.nextSocket)
      nextSocket := w.server.nextSocket + 1 }) fun _ => rfl
    simp only [remaining, hsame, ha, AcceptOp.waits]
    omega
  | accept =>
    have hsame : w'.exchanges = w.exchanges := by
      rcases step_exchanges h.toAligned hs with ⟨he, _⟩ | ⟨_, _, _, _, he, _⟩ | ⟨_, hsame⟩
      · exact absurd he (by simp)
      · exact absurd he (by simp)
      · exact hsame
    have hknown := h.known
    obtain ⟨s, rfl, _, haccept, _, ⟨ec, ha, hold⟩ | ⟨i, ha, hnew⟩⟩ := step_accept h.toAligned hs
    · simp only [remaining, hsame, haccept, ha, hold, AcceptOp.waits]
      omega
    · have hnext := (h.taken i ha).2
      have hlength : s.connections.length = w.server.connections.length + 1 := by
        rw [hnew, List.length_append, List.length_singleton]
      simp only [remaining, hsame, haccept, ha, hlength, AcceptOp.waits]
      omega
  | exchange j l =>
    obtain ⟨he, x, y, hx, hy, rfl⟩ := step_exchange.mp hs
    have hlow := (h.calm j x hx).sound.step_remaining hk hy
    have hset := total_set (f := HttpExchange.remaining k) (t := y) hx
    have hlength : (w.put j y).server.connections.length = w.server.connections.length :=
      List.length_set
    have hclients : (w.put j y).clients.length = w.clients.length := List.length_set
    have haccept : (w.put j y).server.accept = w.server.accept := rfl
    simp only [remaining, exchanges_put he hx hy, hlength, hclients, haccept]
    omega

theorem HttpWorld.Calm.step_serves (hk : k.Faithful) (h : w.Calm k) {e : HttpWorldEvent}
    (hs : ((httpWorld k up down).only fun _ e => e.serves = true).step w e = some w') :
    w'.Calm k ∧ w'.remaining k < w.remaining k := by
  obtain ⟨he, hs⟩ := System.step_only.mp hs
  exact ⟨h.step hk (HttpWorldEvent.calm_of_serves he) hs, h.step_remaining hk he hs⟩

/-- Where no client is on its way, no step is left only if all have their answer. -/
theorem HttpWorld.Calm.served (hk : k.Faithful) (hup : 1 ≤ up) (hdown : 1 ≤ down)
    (h : w.Calm k)
    (hidle : ∀ e w', HttpWorldEvent.serves e = true → w.step k up down e ≠ some w') :
    w.Served k := by
  have haccept : w.server.accept = .outstanding := by
    cases ha : w.server.accept with
    | outstanding => rfl
    | queued r =>
      obtain ⟨s, hs⟩ : ∃ s, w.server.step k.serialise .accept = some s := by
        rcases r with ec | i
        · exact ⟨w.server.onAccept ec, by rw [HttpServer.step, ha]⟩
        · exact ⟨_, by rw [HttpServer.step, ha]⟩
      exact (hidle .accept { w with server := s } rfl
        (Option.map_eq_some_iff.mpr ⟨s, hs, rfl⟩)).elim
  have hnext := h.outstanding haccept
  have hknown : ¬ w.server.nextSocket < w.clients.length := by
    intro hlt
    obtain ⟨s, hs⟩ : ∃ s, w.server.step k.serialise .acceptCompletes = some s :=
      ⟨_, by rw [HttpServer.step, haccept]⟩
    refine hidle .acceptCompletes { w with server := s } rfl ?_
    exact (if_pos hlt).trans (Option.map_eq_some_iff.mpr ⟨s, hs, rfl⟩)
  have hlength : w.server.connections.length = w.clients.length := by
    have hle := h.length_le
    omega
  refine ⟨haccept, hlength, fun j x hx => ?_⟩
  refine (h.calm j x hx).answered hk hup hdown fun l y hl hy => ?_
  have hj : j < w.clients.length := length_exchanges (w := w) ▸ lt_length_of_getElem? hx
  exact hidle (.exchange j l) (w.put j y) hl
    (step_exchange.mpr ⟨.inr (hlength ▸ hj), x, y, hx, hy, rfl⟩)

theorem httpWorld_calm (hk : k.Faithful)
    (h : (httpWorld k up down).ReachableBy (fun _ e => e.calm = true) w) : w.Calm k := by
  refine h.invariant (P := HttpWorld.Calm k) ?_ fun _ _ _ hw he hs => hw.step hk he hs
  rintro w rfl
  exact ⟨HttpWorld.aligned_start, fun j x hx => absurd hx (by simp [HttpWorld.exchanges])⟩

/-- As long as nothing fails, any number of clients at once are accepted and
answered, all of them after a number of steps that is bounded by theirs. -/
theorem uclients_answered (hk : k.Faithful) (hup : 1 ≤ up) (hdown : 1 ≤ down)
    (h : (httpWorld k up down).ReachableBy (fun _ e => e.calm = true) w) :
    ((httpWorld k up down).only fun _ e => e.serves = true).Completes (HttpWorld.Served k)
      ((HttpExchange.bound k + 2) * w.clients.length + 2) w := by
  have hcompletes := System.completes_of_measure
    (m := (httpWorld k up down).only fun _ e => e.serves = true)
    (I := HttpWorld.Calm k) (Q := HttpWorld.Served k) (μ := HttpWorld.remaining k)
    (fun _ _ _ hw hs => (hw.step_serves hk hs).1) (fun _ _ _ hw hs => (hw.step_serves hk hs).2)
    (fun _ hw hstuck => hw.served hk hup hdown (System.stuck_only.mp hstuck)) (httpWorld_calm hk h)
  refine hcompletes.mono (fun _ => id) ?_
  have htotal : total (HttpExchange.remaining k) w.exchanges ≤
      HttpExchange.bound k * w.exchanges.length := by
    refine total_le fun x hx => ?_
    obtain ⟨j, hj⟩ := List.mem_iff_getElem?.mp hx
    exact HttpExchange.remaining_le hk (HttpWorld.reachable_exchange h.reachable j x hj)
  have hwaits : w.server.accept.waits ≤ 2 := by
    rcases w.server.accept with _ | ec | i <;> simp [AcceptOp.waits]
  rw [HttpWorld.length_exchanges] at htotal
  simp only [HttpWorld.remaining, Nat.add_mul]
  omega

/-- The exchange of this client, if it has connected, is on course. -/
structure HttpWorld.OnCourse (k : HttpCodec) (j : Nat) (w : HttpWorld) : Prop extends
    HttpWorld.Aligned w where
  course : ∀ x, w.exchanges[j]? = some x → x.OnCourse k

structure HttpWorld.CutOff (k : HttpCodec) (j : Nat) (w : HttpWorld) : Prop extends
    HttpWorld.Aligned w where
  cut : ∃ x, w.exchanges[j]? = some x ∧ x.CutOff k

theorem HttpWorld.onCourse_start (j : Nat) : HttpWorld.OnCourse k j ⟨.start, []⟩ :=
  ⟨aligned_start, fun x hx => absurd hx (by simp [exchanges])⟩

theorem HttpWorld.OnCourse.step (hk : k.Faithful) {j : Nat} (h : w.OnCourse k j)
    {e : HttpWorldEvent} (he : ¬ w.CutsOff k j e) (hs : w.step k up down e = some w') :
    w'.OnCourse k j := by
  refine ⟨h.toAligned.step hs, ?_⟩
  apply h.toAligned.step_keeps hs (HttpExchange.onCourse_start hk) ?_ h.course
  rintro l x y rfl hx hcourse hy
  refine hcourse.step hk (fun htimes => ?_) hy
  by_contra hpart
  exact he ⟨l, x, rfl, hx, htimes, hpart⟩

theorem HttpWorld.OnCourse.cutOff (hk : k.Faithful) {j : Nat} (h : w.OnCourse k j)
    {e : HttpWorldEvent} (he : ¬ ¬ w.CutsOff k j e) (hs : w.step k up down e = some w') :
    w'.CutOff k j := by
  obtain ⟨l, x, rfl, hx, htimes, hpart⟩ := Classical.not_not.mp he
  refine ⟨h.toAligned.step hs, ?_⟩
  obtain ⟨hown, x', y, hx', hy, rfl⟩ := step_exchange.mp hs
  obtain rfl := Option.some.inj (hx.symm.trans hx')
  refine ⟨y, ?_, (h.course x hx).cutOff hk (fun hmeets => hpart (hmeets htimes)) hy⟩
  rw [exchanges_put hown hx hy]
  exact List.getElem?_set_self (lt_length_of_getElem? hx)

theorem HttpWorld.CutOff.step (hk : k.Faithful) {j : Nat} (h : w.CutOff k j)
    {e : HttpWorldEvent} (hs : w.step k up down e = some w') : w'.CutOff k j := by
  refine ⟨h.toAligned.step hs, ?_⟩
  obtain ⟨z, hz, hcut⟩ := h.cut
  have hlt := lt_length_of_getElem? hz
  rcases step_exchanges h.toAligned hs with ⟨_, hnew⟩ | ⟨i, l, x, y, rfl, hx, hy, hset⟩ |
    ⟨_, hsame⟩
  · refine ⟨z, ?_, hcut⟩
    rw [hnew, List.getElem?_append_left hlt]
    exact hz
  · rw [hset]
    by_cases hij : i = j
    · subst i
      obtain rfl := Option.some.inj (hz.symm.trans hx)
      exact ⟨y, List.getElem?_set_self hlt, hcut.step hk hy⟩
    · exact ⟨z, (List.getElem?_set_ne hij).trans hz, hcut⟩
  · exact ⟨z, hsame ▸ hz, hcut⟩

/-- Of every run that brings the exchange of a client to its end: the client has
printed its answer if and only if its own deadline handler, where it ran, came after
the whole response. Nothing that the other clients do matters. -/
theorem uclients_print_iff (hk : k.Faithful) {ls : List HttpWorldEvent}
    (hr : (httpWorld k up down).run ⟨.start, []⟩ ls = some w) {j : Nat} {x : HttpExchange}
    (hx : w.exchanges[j]? = some x) (hstuck : (httpExchange k up down).Stuck x) :
    x.client.printed = some UClient.req.answer ↔
      (httpWorld k up down).StepsMeet (fun w e => ¬ w.CutsOff k j e) ⟨.start, []⟩ ls := by
  have hend := System.stepsMeet_or_of_run (m := httpWorld k up down)
    (J := HttpWorld.OnCourse k j) (D := HttpWorld.CutOff k j)
    (C := fun w e => ¬ w.CutsOff k j e)
    (fun _ _ _ h he hs => h.step hk he hs) (fun _ _ _ h he hs => h.cutOff hk he hs)
    (fun _ _ _ h hs => h.step hk hs) (HttpWorld.onCourse_start j) hr
  rcases hend with ⟨hmeet, hcourse⟩ | ⟨hno, hcut⟩
  · exact iff_of_true ((hcourse.course x hx).printed hstuck) hmeet
  · obtain ⟨y, hy, hcut⟩ := hcut.cut
    obtain rfl := Option.some.inj (hx.symm.trans hy)
    exact iff_of_false (hcut.unprinted hstuck) hno

end

/-- Two clients have connected, and the server has let in the first. -/
theorem unix_world_refines_count : ∃ w : HttpWorld,
    (httpWorld countCodec 16 16).Reachable w ∧
      (w.clients.length = 2 ∧ w.server.connections.length = 1) ∧
      (httpServer countCodec.serialise).Reachable w.server ∧
        ∀ (j : Nat) x, w.exchanges[j]? = some x → (httpExchange countCodec 16 16).Reachable x := by
  obtain ⟨w, hw, hcount⟩ := (httpWorld countCodec 16 16).exists_reachable_of_run ⟨.start, []⟩
    [.connect, .acceptCompletes, .connect, .accept]
    (fun w => w.clients.length == 2 && w.server.connections.length == 1) rfl (by decide +kernel)
  rw [Bool.and_eq_true, beq_iff_eq, beq_iff_eq] at hcount
  exact ⟨w, hw, hcount, unix_world_refines hw⟩

theorem uclients_answered_count : ∃ w : HttpWorld,
    (httpWorld countCodec 1 1).ReachableBy (fun _ e => e.calm = true) w ∧ w.clients.length = 2 ∧
    ((httpWorld countCodec 1 1).only fun _ e => e.serves = true).Completes
      (HttpWorld.Served countCodec)
      ((HttpExchange.bound countCodec + 2) * w.clients.length + 2) w := by
  obtain ⟨w, hw, hcount⟩ := (httpWorld countCodec 1 1).exists_reachableBy_of_run
    (fun _ e => e.calm = true) ⟨.start, []⟩ [.connect, .connect]
    (fun w => w.clients.length == 2) rfl (by decide +kernel)
  exact ⟨w, hw, beq_iff_eq.mp hcount,
    uclients_answered countCodec_faithful (Nat.le_refl 1) (Nat.le_refl 1) hw⟩

/-- Both clients are let in, and the deadline of the second one comes too early. -/
def secondCutOff : List HttpWorldEvent :=
  [.connect, .connect, .acceptCompletes, .accept, .acceptCompletes, .accept] ++
    cutOff.map (.exchange 1)

theorem uclients_print_iff_count : ∃ w x,
    (httpWorld countCodec 64 64).run ⟨.start, []⟩ secondCutOff = some w ∧
    w.exchanges[1]? = some x ∧ (httpExchange countCodec 64 64).Stuck x ∧
    x.client.printed = none ∧
    ¬ (httpWorld countCodec 64 64).StepsMeet (fun w e => ¬ w.CutsOff countCodec 1 e)
      ⟨.start, []⟩ secondCutOff := by
  obtain ⟨w, hr, hw⟩ : ∃ w,
      (httpWorld countCodec 64 64).run ⟨.start, []⟩ secondCutOff = some w ∧
        (w.exchanges[1]?.any HttpExchange.endsUnprinted) = true :=
    (Option.any_eq_true _ _).mp (by decide +kernel)
  obtain ⟨x, hx, hend⟩ := (Option.any_eq_true _ _).mp hw
  obtain ⟨hstuck, hprinted⟩ := HttpExchange.stuck_of_endsUnprinted hend
  refine ⟨w, x, hr, hx, hstuck, hprinted, fun hmeet => ?_⟩
  have hanswer := (uclients_print_iff countCodec_faithful hr hx hstuck).mpr hmeet
  exact absurd (hprinted.symm.trans hanswer) (by simp)

end ScratchServers
