import ScratchServers.Completion
import ScratchServers.UnixResponse
import ScratchServers.Selection

/-! The Unix-socket server: one socket variable shared by all accepts, and any
number of connections whose completions are delivered in any order. -/

namespace ScratchServers

inductive AcceptOp where
  | outstanding
  | queued (r : Except ErrorCode Nat)

/-- Sockets are numbered as the system hands them out; `socket` is the variable
that every accept is given. `issues` records what was open in it at each
`async_accept`, and `accepted` the sockets that accepts have delivered. -/
structure HttpServer where
  socket : Option Nat
  accept : AcceptOp
  nextSocket : Nat
  issues : List (Option Nat)
  accepted : List Nat
  connections : List HttpConnection

/-- `async_accept` refuses a socket that is open already. -/
def HttpServer.asyncAccept (s : HttpServer) : HttpServer :=
  { s with
    issues := s.issues ++ [s.socket]
    accept := if s.socket = none then .outstanding else .queued (.error .failed) }

/-- The handler of `async_accept`; a socket that is moved from is closed. -/
def HttpServer.onAccept (s : HttpServer) (ec : ErrorCode) : HttpServer :=
  if ec = .success then
    asyncAccept { s with
      socket := none
      connections := s.connections ++ [(HttpConnection.construct s.socket).start] }
  else s.asyncAccept

def HttpServer.start : HttpServer :=
  asyncAccept ⟨none, .outstanding, 0, [], [], []⟩

inductive HttpServerEvent where
  | acceptCompletes
  | acceptFails
  | accept
  | connection (k : Nat) (e : HttpConnectionEvent)

section

variable (serialise : Response → Bytes)

def HttpServer.step (s : HttpServer) : HttpServerEvent → Option HttpServer
  | .acceptCompletes =>
    match s.accept with
    | .outstanding =>
      some { s with accept := .queued (.ok s.nextSocket), nextSocket := s.nextSocket + 1 }
    | .queued _ => none
  | .acceptFails =>
    match s.accept with
    | .outstanding => some { s with accept := .queued (.error .failed) }
    | .queued _ => none
  | .accept =>
    match s.accept with
    | .queued (.ok i) =>
      some (onAccept { s with socket := some i, accepted := s.accepted ++ [i] } .success)
    | .queued (.error ec) => some (s.onAccept ec)
    | .outstanding => none
  | .connection k e =>
    s.connections[k]?.bind fun c =>
      (c.step serialise e).map fun c' => { s with connections := s.connections.set k c' }

def httpServer : System HttpServer HttpServerEvent where
  start s := s = .start
  step := HttpServer.step serialise

end

/-- In the course of the run the connection has taken the step `e`, and it was `c`
before it. -/
def HttpServer.Delivered (serialise : Response → Bytes) (ls : List HttpServerEvent) (k : Nat)
    (e : HttpConnectionEvent) (c : HttpConnection) : Prop :=
  ∃ ls₁ ls₂ s, ls = ls₁ ++ .connection k e :: ls₂ ∧
    (httpServer serialise).run .start ls₁ = some s ∧ s.connections[k]? = some c

/-- The connection has no response, and none of its bytes has been written. -/
structure HttpConnection.Unanswered (c : HttpConnection) : Prop where
  responses : c.responses = []
  wire : c.wire = []
  writing : ∀ t, c.io ≠ .writing t
  writeQueued : ∀ t ec, c.io ≠ .writeQueued t ec

structure HttpServer.Owned (serialise : Response → Bytes) (s : HttpServer) : Prop where
  socket : s.socket = none
  issues : ∀ x ∈ s.issues, x = none
  owners : s.connections.map (·.socket) = s.accepted.map some
  nodup : s.accepted.Nodup
  fresh : ∀ i ∈ s.accepted, i < s.nextSocket
  connections : ∀ (k : Nat) c, s.connections[k]? = some c → c.Sound serialise

structure HttpServer.Sound (serialise : Response → Bytes) (s : HttpServer) : Prop extends
    HttpServer.Owned serialise s where
  queued : ∀ i, s.accept = .queued (.ok i) → i < s.nextSocket ∧ i ∉ s.accepted
  failed : s.accept ≠ .queued (.error .success)

section

variable {serialise : Response → Bytes} {s s' : HttpServer}

theorem HttpServer.onAccept_failed {ec : ErrorCode} (hec : ec ≠ .success) :
    s.onAccept ec = s.asyncAccept := by
  simp only [onAccept, hec, if_false]

theorem HttpServer.step_acceptCompletes (h : s.step serialise .acceptCompletes = some s') :
    s.accept = .outstanding ∧
      s' = { s with accept := .queued (.ok s.nextSocket), nextSocket := s.nextSocket + 1 } := by
  rcases ha : s.accept with _ | _ <;> simp only [step, ha, reduceCtorEq, Option.some.injEq] at h
  exact ⟨rfl, h.symm⟩

theorem HttpServer.step_acceptFails (h : s.step serialise .acceptFails = some s') :
    s.accept = .outstanding ∧ s' = { s with accept := .queued (.error .failed) } := by
  rcases ha : s.accept with _ | _ <;> simp only [step, ha, reduceCtorEq, Option.some.injEq] at h
  exact ⟨rfl, h.symm⟩

theorem HttpServer.step_accept (h : s.step serialise .accept = some s') :
    (∃ ec, s.accept = .queued (.error ec) ∧ s' = s.onAccept ec) ∨
      ∃ i, s.accept = .queued (.ok i) ∧
        s' = onAccept { s with socket := some i, accepted := s.accepted ++ [i] } .success := by
  rcases ha : s.accept with _ | ec | i <;>
    simp only [step, ha, reduceCtorEq, Option.some.injEq] at h
  · exact .inl ⟨ec, rfl, h.symm⟩
  · exact .inr ⟨i, rfl, h.symm⟩

theorem HttpServer.step_connection {k : Nat} {e : HttpConnectionEvent}
    (h : s.step serialise (.connection k e) = some s') :
    ∃ c c', s.connections[k]? = some c ∧ c.step serialise e = some c' ∧
      s' = { s with connections := s.connections.set k c' } := by
  obtain ⟨c, hk, hs⟩ := Option.bind_eq_some_iff.mp h
  obtain ⟨c', hc, rfl⟩ := Option.map_eq_some_iff.mp hs
  exact ⟨c, c', hk, hc, rfl⟩

theorem HttpServer.Owned.asyncAccept (h : s.Owned serialise) : s.asyncAccept.Sound serialise := by
  have ha : s.asyncAccept.accept = .outstanding := by simp [HttpServer.asyncAccept, h.socket]
  refine ⟨⟨h.socket, ?_, h.owners, h.nodup, h.fresh, h.connections⟩, ?_, ?_⟩
  · intro x hx
    rcases List.mem_append.mp hx with hx | hx
    · exact h.issues x hx
    · exact (List.mem_singleton.mp hx).trans h.socket
  · simp [ha]
  · simp [ha]

theorem HttpServer.Owned.onAccept (h : s.Owned serialise) {i : Nat} (hlt : i < s.nextSocket)
    (hnew : i ∉ s.accepted) :
    (HttpServer.onAccept { s with socket := some i, accepted := s.accepted ++ [i] }
      .success).Sound serialise := by
  simp only [HttpServer.onAccept, if_true]
  refine Owned.asyncAccept ⟨rfl, h.issues, ?_, ?_, fun j hj => ?_, fun k c hk => ?_⟩
  · rw [List.map_append, List.map_append, h.owners]
    rfl
  · exact List.nodup_append.mpr ⟨h.nodup, by simp, fun j hj _ hi hji =>
      hnew (List.mem_singleton.mp hi ▸ hji ▸ hj)⟩
  · rcases List.mem_append.mp hj with hj | hj
    · exact h.fresh j hj
    · exact List.mem_singleton.mp hj ▸ hlt
  · rcases getElem?_snoc_cases hk with ⟨_, rfl⟩ | ⟨_, hk⟩
    · exact HttpConnection.sound_start _
    · exact h.connections k c hk

theorem HttpServer.Sound.step {e : HttpServerEvent} (h : s.Sound serialise)
    (hs : s.step serialise e = some s') : s'.Sound serialise := by
  obtain ⟨howned, hqueued, hfailed⟩ := h
  cases e with
  | acceptCompletes =>
    obtain ⟨_, rfl⟩ := step_acceptCompletes hs
    refine ⟨⟨howned.socket, howned.issues, howned.owners, howned.nodup, fun i hi => ?_,
      howned.connections⟩, fun i hi => ?_, nofun⟩
    · exact Nat.lt_succ_of_lt (howned.fresh i hi)
    · obtain rfl : s.nextSocket = i := by simpa using hi
      exact ⟨Nat.lt_succ_self _, fun hmem => Nat.lt_irrefl _ (howned.fresh _ hmem)⟩
  | acceptFails =>
    obtain ⟨_, rfl⟩ := step_acceptFails hs
    exact ⟨⟨howned.socket, howned.issues, howned.owners, howned.nodup, howned.fresh,
      howned.connections⟩, nofun, nofun⟩
  | accept =>
    obtain ⟨ec, ha, rfl⟩ | ⟨i, ha, rfl⟩ := step_accept hs
    · have hec : ec ≠ .success := fun he => hfailed (he ▸ ha)
      rw [onAccept_failed hec]
      exact howned.asyncAccept
    · obtain ⟨hlt, hnew⟩ := hqueued i ha
      exact howned.onAccept hlt hnew
  | connection k e =>
    obtain ⟨c, c', hk, hc, rfl⟩ := step_connection hs
    refine ⟨⟨howned.socket, howned.issues, ?_, howned.nodup, howned.fresh, ?_⟩, hqueued, hfailed⟩
    · rw [map_set_of_eq hk (HttpConnection.step_socket hc), howned.owners]
    · intro j d hj
      rcases getElem?_set_cases hj with ⟨_, rfl⟩ | ⟨_, hj⟩
      · exact (howned.connections k c hk).step hc
      · exact howned.connections j d hj

theorem HttpServer.sound_start : HttpServer.start.Sound serialise :=
  Owned.asyncAccept ⟨rfl, nofun, rfl, .nil, nofun, by simp⟩

theorem HttpServer.Owned.owner (h : s.Owned serialise) {i : Nat} (hi : i ∈ s.accepted) :
    ∃! k : Nat, ∃ c : HttpConnection, s.connections[k]? = some c ∧ c.socket = some i := by
  have hget (k : Nat) (c : HttpConnection) (hk : s.connections[k]? = some c)
      (hc : c.socket = some i) : s.accepted[k]? = some i := by
    have hh := congrArg (·[k]?) h.owners
    simp only [List.getElem?_map, hk, Option.map_some, hc] at hh
    obtain ⟨j, hj, he⟩ := Option.map_eq_some_iff.mp hh.symm
    exact Option.some.inj he ▸ hj
  obtain ⟨k, hk⟩ := List.mem_iff_getElem?.mp hi
  have hh := congrArg (·[k]?) h.owners
  simp only [List.getElem?_map, hk, Option.map_some, Option.map_eq_some_iff] at hh
  obtain ⟨c, hc, hsock⟩ := hh
  refine ⟨k, ⟨c, hc, hsock⟩, fun j hj => ?_⟩
  obtain ⟨d, hd, hdsock⟩ := hj
  exact (List.getElem?_inj (lt_length_of_getElem? (hget j d hd hdsock)) h.nodup).mp
    ((hget j d hd hdsock).trans hk.symm)

theorem HttpServer.Sound.step_timedOut {e : HttpServerEvent} (h : s.Sound serialise)
    (hs : s.step serialise e = some s') {k : Nat} {wire : Bytes}
    (hc : ∃ c, s.connections[k]? = some c ∧ c.timedOut = true ∧ c.wire = wire) :
    ∃ c, s'.connections[k]? = some c ∧ c.timedOut = true ∧ c.wire = wire := by
  obtain ⟨c, hk, ht, hwire⟩ := hc
  cases e with
  | acceptCompletes =>
    obtain ⟨_, rfl⟩ := step_acceptCompletes hs
    exact ⟨c, hk, ht, hwire⟩
  | acceptFails =>
    obtain ⟨_, rfl⟩ := step_acceptFails hs
    exact ⟨c, hk, ht, hwire⟩
  | accept =>
    obtain ⟨ec, ha, rfl⟩ | ⟨i, ha, rfl⟩ := step_accept hs
    · have hec : ec ≠ .success := fun he => h.failed (he ▸ ha)
      rw [onAccept_failed hec]
      exact ⟨c, hk, ht, hwire⟩
    · refine ⟨c, ?_, ht, hwire⟩
      exact (List.getElem?_append_left (lt_length_of_getElem? hk)).trans hk
  | connection j e =>
    obtain ⟨d, d', hj, hd, rfl⟩ := step_connection hs
    by_cases hjk : j = k
    · subst j
      obtain rfl : c = d := Option.some.inj (hk.symm.trans hj)
      obtain ⟨ht', hwire'⟩ := (h.connections k c hk).step_timedOut hd ht
      exact ⟨d', List.getElem?_set_self (lt_length_of_getElem? hk), ht', hwire'.trans hwire⟩
    · exact ⟨c, (List.getElem?_set_ne hjk).trans hk, ht, hwire⟩

/-- A step adds a connection that has only been started, or one connection takes a
step of its own. -/
theorem HttpServer.step_connections {e : HttpServerEvent} (hs : s.step serialise e = some s')
    {k : Nat} {c' : HttpConnection} (hk : s'.connections[k]? = some c') :
    s.connections[k]? = some c' ∨ (∃ socket, c' = (HttpConnection.construct socket).start) ∨
      ∃ l c, e = .connection k l ∧ s.connections[k]? = some c ∧ c.step serialise l = some c' := by
  have haccept {v : HttpServer} {ec : ErrorCode} (hv : v.connections = s.connections)
      (hk : (v.onAccept ec).connections[k]? = some c') :
      s.connections[k]? = some c' ∨ ∃ socket, c' = (HttpConnection.construct socket).start := by
    by_cases hec : ec = .success
    · simp only [onAccept, hec, if_true, HttpServer.asyncAccept, hv] at hk
      rcases getElem?_snoc_cases hk with ⟨_, rfl⟩ | ⟨_, hk⟩
      · exact .inr ⟨_, rfl⟩
      · exact .inl hk
    · rw [onAccept_failed hec] at hk
      exact .inl (hv ▸ hk)
  cases e with
  | acceptCompletes =>
    obtain ⟨_, rfl⟩ := step_acceptCompletes hs
    exact .inl hk
  | acceptFails =>
    obtain ⟨_, rfl⟩ := step_acceptFails hs
    exact .inl hk
  | accept =>
    obtain ⟨ec, _, rfl⟩ | ⟨i, _, rfl⟩ := step_accept hs
    · exact (haccept rfl hk).imp_right .inl
    · exact (haccept (v := { s with socket := some i, accepted := s.accepted ++ [i] }) rfl
        hk).imp_right .inl
  | connection j l =>
    obtain ⟨c, d, hj, hd, rfl⟩ := step_connection hs
    rcases getElem?_set_cases hk with ⟨rfl, rfl⟩ | ⟨_, hk⟩
    · exact .inr (.inr ⟨l, c, rfl, hj, hd⟩)
    · exact .inl hk

theorem HttpServer.Delivered.snoc {ls : List HttpServerEvent} {k : Nat} {e : HttpConnectionEvent}
    {c : HttpConnection} (h : Delivered serialise ls k e c) (l : HttpServerEvent) :
    Delivered serialise (ls ++ [l]) k e c := by
  obtain ⟨ls₁, ls₂, s, rfl, hr, hk⟩ := h
  exact ⟨ls₁, ls₂ ++ [l], s, by simp, hr, hk⟩

theorem httpServer_sound (h : (httpServer serialise).Reachable s) : s.Sound serialise := by
  refine h.invariant ?_ fun s e s' hs ht => hs.step ht
  rintro s rfl
  exact HttpServer.sound_start

theorem HttpServer.reachable_of_run {ls : List HttpServerEvent}
    (hr : (httpServer serialise).run .start ls = some s) : (httpServer serialise).Reachable s :=
  System.Reachable.run (.start rfl) hr

/-- Where a connection has a response, its handler was given the request by a read
that had completed without error, and had no response before. -/
theorem HttpServer.response_delivered {ls : List HttpServerEvent}
    (hr : (httpServer serialise).run .start ls = some s) : ∀ (k : Nat) c,
      s.connections[k]? = some c → c.responses = [] ∨
        ∃ request c₀, Delivered serialise ls k (.read (.done (.ok request))) c₀ ∧
          c₀.io = .readQueued .success ∧ c₀.responses = [] ∧
          c.responses = [request.answer] := by
  refine System.run_history (P := fun ls (s : HttpServer) => ∀ (k : Nat) c,
      s.connections[k]? = some c → c.responses = [] ∨
        ∃ request c₀, Delivered serialise ls k (.read (.done (.ok request))) c₀ ∧
          c₀.io = .readQueued .success ∧ c₀.responses = [] ∧ c.responses = [request.answer])
    (fun k c hk => absurd hk (by simp [start, HttpServer.asyncAccept])) ?_ hr
  intro ls l t u ht hall hstep k c' hk
  have hsame {c : HttpConnection} (hc : t.connections[k]? = some c)
      (hresponses : c'.responses = c.responses) : c'.responses = [] ∨ ∃ request c₀,
        Delivered serialise (ls ++ [l]) k (.read (.done (.ok request))) c₀ ∧
          c₀.io = .readQueued .success ∧ c₀.responses = [] ∧ c'.responses = [request.answer] := by
    rw [hresponses]
    rcases hall k c hc with hnone | ⟨request, c₀, hdelivered, hio, hfresh, hanswer⟩
    · exact .inl hnone
    · exact .inr ⟨request, c₀, hdelivered.snoc l, hio, hfresh, hanswer⟩
  rcases step_connections hstep hk with hold | ⟨socket, rfl⟩ | ⟨e, c, rfl, hc, hcstep⟩
  · exact hsame hold rfl
  · exact .inl rfl
  · have hsound := (httpServer_sound (reachable_of_run ht)).connections k c hc
    rcases hsound.step_responses hcstep with hkept | ⟨request, rfl, hio, hfresh, hanswer⟩
    · exact hsame hc hkept
    · exact .inr ⟨request, c, ⟨ls, [], t, rfl, ht, hc⟩, hio, hfresh, hanswer⟩

/-- Where the deadline handler of a connection has run without error, its socket is
closed, and the wire is what it was then. -/
theorem HttpServer.closed_of_expired {ls : List HttpServerEvent}
    (hr : (httpServer serialise).run .start ls = some s) {k : Nat} {c₀ : HttpConnection}
    (hdelivered : Delivered serialise ls k .deadline c₀)
    (hexpired : c₀.deadline = .queued .success) :
    ∃ c, s.connections[k]? = some c ∧ c.isOpen = false ∧ c.wire = c₀.wire := by
  obtain ⟨ls₁, ls₂, t, rfl, ht, hk⟩ := hdelivered
  rw [System.run_append ht] at hr
  obtain ⟨u, (hu : t.step serialise (.connection k .deadline) = some u), hr⟩ := System.run_cons hr
  have hsound := httpServer_sound (reachable_of_run ht)
  have hran : ∃ c, u.connections[k]? = some c ∧ c.timedOut = true ∧ c.wire = c₀.wire := by
    obtain ⟨c, c', hc, hstep, rfl⟩ := step_connection hu
    obtain rfl := Option.some.inj (hk.symm.trans hc)
    obtain ⟨ec, hec, rfl⟩ := HttpConnection.step_deadline hstep
    obtain rfl : ErrorCode.success = ec := by simpa using hexpired.symm.trans hec
    exact ⟨_, List.getElem?_set_self (lt_length_of_getElem? hk), rfl, rfl⟩
  obtain ⟨hfinal, c, hc, htimed, hwire⟩ := System.run_keeps
    (P := fun u => u.Sound serialise ∧
      ∃ c, u.connections[k]? = some c ∧ c.timedOut = true ∧ c.wire = c₀.wire)
    (fun s e s' hs hstep => ⟨hs.1.step hstep, hs.1.step_timedOut hstep hs.2⟩)
    ⟨hsound.step hu, hran⟩ hr
  exact ⟨c, hc, (hfinal.connections k c hc).timedOut htimed, hwire⟩

theorem HttpConnection.Chain.unanswered {c : HttpConnection} (h : c.Chain serialise)
    (hnone : c.responses = []) : c.Unanswered := by
  refine ⟨hnone, ?_, fun t hio => ?_, fun t ec hio => ?_⟩
  · rcases h.served with ⟨_, hwire⟩ | ⟨request, _, hsome, _⟩
    · exact hwire
    · exact absurd (hnone.symm.trans hsome) (by simp)
  · simp only [Chain, hio] at h
    obtain ⟨request, _, hsome, _⟩ := h
    exact absurd (hnone.symm.trans hsome) (by simp)
  · simp only [Chain, hio] at h
    obtain ⟨request, _, hsome, _⟩ := h
    exact absurd (hnone.symm.trans hsome) (by simp)

/-- In every run, whatever the order of completions: each accept is given a closed
variable and each accepted socket has one owner; a connection starts one response at
most, in the handler of a read that has completed without error, and its wire holds
the first part of it; and once the deadline handler of a connection has run without
error, its socket is closed and nothing more is written. -/
theorem unix_server_safe {ls : List HttpServerEvent}
    (hr : (httpServer serialise).run .start ls = some s) :
    (∀ x ∈ s.issues, x = none) ∧
      (∀ i ∈ s.accepted, ∃! k : Nat, ∃ c : HttpConnection,
        s.connections[k]? = some c ∧ c.socket = some i) ∧
      ∀ (k : Nat) c, s.connections[k]? = some c →
        (c.Unanswered ∨ ∃ request c₀,
          HttpServer.Delivered serialise ls k (.read (.done (.ok request))) c₀ ∧
            c₀.io = .readQueued .success ∧ c₀.Unanswered ∧ c.responses = [request.answer] ∧
            c.wire <+: serialise request.answer) ∧
          ∀ c₀, HttpServer.Delivered serialise ls k .deadline c₀ →
            c₀.deadline = .queued .success → c.isOpen = false ∧ c.wire = c₀.wire := by
  have hsound := httpServer_sound (HttpServer.reachable_of_run hr)
  refine ⟨hsound.issues, fun i hi => hsound.owner hi, fun k c hk => ⟨?_, ?_⟩⟩
  · have hchain := (hsound.connections k c hk).chain
    rcases HttpServer.response_delivered hr k c hk with hnone |
      ⟨request, c₀, hdelivered, hio, hfresh, hanswer⟩
    · exact .inl (hchain.unanswered hnone)
    · obtain ⟨_, _, t, _, ht, hk₀⟩ := id hdelivered
      have hbefore := (httpServer_sound (HttpServer.reachable_of_run ht)).connections k c₀ hk₀
      refine .inr ⟨request, c₀, hdelivered, hio, hbefore.chain.unanswered hfresh, hanswer, ?_⟩
      rcases hchain.served with ⟨hnone, _⟩ | ⟨request', _, hanswer', hwire⟩
      · exact absurd (hnone.symm.trans hanswer) (by simp)
      · have hsame : request.answer = request'.answer := by simpa using hanswer.symm.trans hanswer'
        rw [hsame]
        exact hwire
  · intro c₀ hdelivered hexpired
    obtain ⟨d, hd, hclosed, hwire⟩ := HttpServer.closed_of_expired hr hdelivered hexpired
    obtain rfl := Option.some.inj (hk.symm.trans hd)
    exact ⟨hclosed, hwire⟩

def lateRequest : List HttpServerEvent :=
  [.acceptCompletes, .accept, .acceptCompletes, .accept, .connection 1 (.readSome .success),
    .connection 1 .expire, .connection 1 .deadline]

/-- The handler of a read that was queued before the deadline is delivered after it. -/
def lateAnswer : List HttpServerEvent :=
  lateRequest ++ [.connection 1 (.read (.done (.ok ⟨"GET", "/time", 11⟩))), .connection 1 .write]

theorem unix_server_safe_run : ∃ (s : HttpServer) (c : HttpConnection),
    (httpServer Response.text).run .start lateAnswer = some s ∧ s.connections[1]? = some c ∧
      c.responses ≠ [] ∧ c.isOpen = false ∧ c.wire = [] := by
  obtain ⟨s, hr, hq⟩ : ∃ s, (httpServer Response.text).run .start lateAnswer = some s ∧
      (s.connections[1]?.any fun c => !c.responses.isEmpty) = true :=
    (Option.any_eq_true _ _).mp (by decide +kernel)
  obtain ⟨c, hc, hanswered⟩ := (Option.any_eq_true _ _).mp hq
  have hexpired : HttpServer.Delivered Response.text lateAnswer 1 .deadline _ :=
    ⟨lateAnswer.take 6, lateAnswer.drop 7, _, rfl, rfl, rfl⟩
  refine ⟨s, c, hr, hc, ?_, ((unix_server_safe hr).2.2 1 c hc).2 _ hexpired rfl⟩
  simpa using hanswered

end

end ScratchServers
