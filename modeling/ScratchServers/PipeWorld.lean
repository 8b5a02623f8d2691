import ScratchServers.Completion
import ScratchServers.PipeClients
import ScratchServers.Selection

/-! The named-pipe server among any number of clients, each of which opens the
pipe, writes and leaves when it likes. There is one instance of the pipe at a
time, and it belongs to the client that has opened it. -/

namespace ScratchServers

/-- A client: of the messages that it has written the server has read some and the
others are in the pipe; `got` is the answer that the server has put there for it. -/
structure PipePeer where
  read : List Bytes
  inPipe : List Bytes
  unsent : Bytes
  opened : Bool
  left : Bool
  got : Option Response

def PipePeer.arriving (text : Bytes) : PipePeer :=
  ⟨[], [], text, false, false, none⟩

def PipePeer.messages (p : PipePeer) : List Bytes :=
  p.read ++ p.inPipe

/-- Where the server is in `ServerWaitToRead`, with what the system has answered
so far. -/
inductive PipePhase where
  | looping
  | created (h : Nat) (peer : Option Nat)
  | connecting (h : Nat) (peer : Option Nat)
  | reading (h k : Nat) (connect : Except Nat Unit)
  | writing (h k : Nat) (connect : Except Nat Unit) (result : Except BeastError Request)
  | ended

/-- A client that opens the pipe gets the one instance, if nobody has it. -/
def PipePhase.openBy : PipePhase → Nat → Option PipePhase
  | .created h none, k => some (.created h (some k))
  | .connecting h none, k => some (.connecting h (some k))
  | _, _ => none

/-- The client at the other end of the instance. -/
def PipePhase.peer : PipePhase → Option Nat
  | .created _ peer | .connecting _ peer => peer
  | .reading _ k _ | .writing _ k _ _ => some k
  | .looping | .ended => none

structure PipeWorld where
  peers : List PipePeer
  phase : PipePhase
  server : PipeServer

/-- `send` writes one message, and `read` is the end of one `ReadFile`. -/
inductive PipeWorldEvent where
  | arrive (text : Bytes)
  | open (k : Nat)
  | send (k n : Nat)
  | leave (k : Nat)
  | create (answer : Except Nat Nat)
  | connect
  | read
  | write (outcome : WriteOutcome)

section

variable (parse : Bytes → Option (Except BeastError Request)) (room : List Bytes → Nat)

/-- The call returns or throws; `result` is what the read has come to. -/
def PipeWorld.finish (w : PipeWorld) (result : Except BeastError Request) (a : PipeAnswers) :
    Option PipeWorld :=
  (w.server.step (fun _ => result) a).map fun v => { w with
    phase := if v.status = .looping then .looping else .ended
    server := v }

def PipeWorld.connected (w : PipeWorld) (h k : Nat) (connect : Except Nat Unit) :
    Option PipeWorld :=
  let a : PipeAnswers := ⟨.ok h, connect, [], .refused⟩
  if a.fConnected then some { w with phase := .reading h k connect }
  else w.finish (.error .failed) a

/-- One `ReadFile` of the read: it takes a message, or finds the pipe closed. -/
def PipeWorld.readNext (w : PipeWorld) (h k : Nat) (connect : Except Nat Unit) (p : PipePeer) :
    Option PipeWorld :=
  match p.inPipe with
  | message :: rest =>
    some { w with
      peers := w.peers.set k { p with read := p.read ++ [message], inPipe := rest }
      phase := match readPipe parse room false p.read [message] with
        | some result => .writing h k connect result
        | none => .reading h k connect }
  | [] =>
    if p.left then some { w with phase := .writing h k connect (.error .failed) } else none

/-- A client can write as long as it is at the other end of the pipe, and the response
can be written as long as it is there: it reads what does not fit into the pipe. -/
def PipeWorld.step (w : PipeWorld) : PipeWorldEvent → Option PipeWorld
  | .arrive text => some { w with peers := w.peers ++ [.arriving text] }
  | .open k =>
    w.peers[k]?.bind fun p =>
      if p.opened = false ∧ p.left = false then
        (w.phase.openBy k).map fun phase => { w with
          peers := w.peers.set k { p with opened := true }
          phase := phase }
      else none
  | .send k n =>
    w.peers[k]?.bind fun p =>
      if w.phase.peer = some k ∧ p.left = false ∧ 0 < n ∧ n ≤ p.unsent.length then
        some { w with peers := w.peers.set k { p with
          inPipe := p.inPipe ++ [p.unsent.take n]
          unsent := p.unsent.drop n } }
      else none
  | .leave k =>
    w.peers[k]?.bind fun p =>
      if p.left = false then some { w with peers := w.peers.set k { p with left := true } }
      else none
  | .create answer =>
    match w.phase, answer with
    | .looping, .ok h => some { w with phase := .created h none }
    | .looping, .error _ => w.finish (.error .failed) ⟨answer, .ok (), [], .refused⟩
    | _, _ => none
  | .connect =>
    match w.phase with
    | .created h none => some { w with phase := .connecting h none }
    | .created h (some k) =>
      w.peers[k]?.bind fun p =>
        w.connected h k (.error (if p.left then errorNoData else errorPipeConnected))
    | .connecting h (some k) => w.connected h k (.ok ())
    | _ => none
  | .read =>
    match w.phase with
    | .reading h k connect => w.peers[k]?.bind (w.readNext parse room h k connect)
    | _ => none
  | .write outcome =>
    match w.phase with
    | .writing h k connect result =>
      w.peers[k]?.bind fun p =>
        if outcome = .complete ↔ p.left = false then
          let w' := if outcome = .complete then
              { w with peers := w.peers.set k { p with
                got := (handleRequest (fun _ => result) p.read.flatten outcome).written } }
            else w
          w'.finish result ⟨.ok h, connect, p.read.flatten, outcome⟩
        else none
    | _ => none

def pipeWorld : System PipeWorld PipeWorldEvent where
  start w := w = ⟨[], .looping, .start⟩
  step := PipeWorld.step parse room

end

section

variable {parse : Bytes → Option (Except BeastError Request)} {room : List Bytes → Nat}
  {w w' : PipeWorld}

/-- The call comes back: the server goes on with the next client. -/
def PipeAnswers.Returns (a : PipeAnswers) : Prop :=
  (∃ h, a.create = .ok h) ∧ a.fConnected = true ∧ a.write = .complete

theorem afterCall_looping_iff (asyncRead : Bytes → Except BeastError Request) (a : PipeAnswers) :
    PipeStatus.afterCall (serverWaitToRead asyncRead a).2 = .looping ↔ a.Returns := by
  unfold PipeAnswers.Returns
  rcases serverWaitToRead_cases asyncRead a with ⟨code, hcreate, hcall⟩ |
    ⟨h, hcreate, ⟨hconn, hcall⟩ | ⟨hconn, hw, hcall⟩ | ⟨hconn, hw, hcall⟩⟩
  · simp [hcall, hcreate, PipeStatus.afterCall]
  · simp [hcall, hcreate, hconn, PipeStatus.afterCall]
  · simp [hcall, hcreate, hconn, hw, PipeStatus.afterCall]
  · simp [hcall, hcreate, hconn, hw, PipeStatus.afterCall]

variable {result : Except BeastError Request}

theorem PipeWorld.finish_step {a : PipeAnswers} (h : w.finish result a = some w') :
    w.server.step (fun _ => result) a = some w'.server := by
  obtain ⟨v, hv, rfl⟩ := Option.map_eq_some_iff.mp h
  exact hv

theorem PipeWorld.finish_returns {a : PipeAnswers} (ha : a.Returns)
    (h : w.finish result a = some w') :
    w'.server.status = .looping ∧ w' = { w with phase := .looping, server := w'.server } := by
  obtain ⟨v, hv, rfl⟩ := Option.map_eq_some_iff.mp h
  obtain ⟨_, rfl⟩ := PipeServer.step_eq hv
  have hlooping := (afterCall_looping_iff (fun _ => result) a).mpr ha
  simp only [hlooping, if_true, and_self]

theorem PipeWorld.finish_throws {a : PipeAnswers} (ha : ¬ a.Returns)
    (h : w.finish result a = some w') :
    w'.server.status ≠ .looping ∧ w' = { w with phase := .ended, server := w'.server } := by
  obtain ⟨v, hv, rfl⟩ := Option.map_eq_some_iff.mp h
  obtain ⟨_, rfl⟩ := PipeServer.step_eq hv
  have hlooping := mt (afterCall_looping_iff (fun _ => result) a).mp ha
  simp only [hlooping, if_false, ne_eq, not_false_eq_true, and_self]

theorem PipeWorld.finish_isSome {a : PipeAnswers} (h : w.server.status = .looping) :
    ∃ w', w.finish result a = some w' := by
  simp [finish, PipeServer.step, h]

theorem PipePhase.openBy_eq_some {phase phase' : PipePhase} {k : Nat} :
    phase.openBy k = some phase' ↔
      ∃ h, (phase = .created h none ∧ phase' = .created h (some k)) ∨
        (phase = .connecting h none ∧ phase' = .connecting h (some k)) := by
  rcases phase with _ | ⟨h, _ | _⟩ | ⟨h, _ | _⟩ | _ | _ | _ <;> simp [openBy, @eq_comm _ _ phase']

theorem PipeWorld.step_open {k : Nat} :
    w.step parse room (.open k) = some w' ↔
      ∃ p phase, w.peers[k]? = some p ∧ p.opened = false ∧ p.left = false ∧
        w.phase.openBy k = some phase ∧
        w' = { w with peers := w.peers.set k { p with opened := true }, phase := phase } := by
  simp [step, Option.bind_eq_some_iff, Option.map_eq_some_iff, and_assoc, @eq_comm _ _ w']

theorem PipeWorld.step_send {k n : Nat} :
    w.step parse room (.send k n) = some w' ↔
      ∃ p, w.peers[k]? = some p ∧ w.phase.peer = some k ∧ p.left = false ∧ 0 < n ∧
        n ≤ p.unsent.length ∧
        w' = { w with peers := w.peers.set k { p with
          inPipe := p.inPipe ++ [p.unsent.take n]
          unsent := p.unsent.drop n } } := by
  simp [step, Option.bind_eq_some_iff, and_assoc, @eq_comm _ _ w']

theorem PipeWorld.step_leave {k : Nat} :
    w.step parse room (.leave k) = some w' ↔
      ∃ p, w.peers[k]? = some p ∧ p.left = false ∧
        w' = { w with peers := w.peers.set k { p with left := true } } := by
  simp [step, Option.bind_eq_some_iff, @eq_comm _ _ w']

theorem PipeWorld.step_create {answer : Except Nat Nat} :
    w.step parse room (.create answer) = some w' ↔
      w.phase = .looping ∧
        ((∃ h, answer = .ok h ∧ w' = { w with phase := .created h none }) ∨
          ∃ code, answer = .error code ∧
            w.finish (.error .failed) ⟨answer, .ok (), [], .refused⟩ = some w') := by
  rcases hphase : w.phase with _ | _ | _ | _ | _ | _ <;> rcases answer with code | h <;>
    simp [step, hphase, @eq_comm _ _ w']

theorem PipeWorld.step_connect :
    w.step parse room .connect = some w' ↔
      ∃ h, (w.phase = .created h none ∧ w' = { w with phase := .connecting h none }) ∨
        (∃ k p, w.phase = .created h (some k) ∧ w.peers[k]? = some p ∧ p.left = false ∧
          w' = { w with phase := .reading h k (.error errorPipeConnected) }) ∨
        (∃ k p, w.phase = .created h (some k) ∧ w.peers[k]? = some p ∧ p.left = true ∧
          w.finish (.error .failed) ⟨.ok h, .error errorNoData, [], .refused⟩ = some w') ∨
        ∃ k, w.phase = .connecting h (some k) ∧
          w' = { w with phase := .reading h k (.ok ()) } := by
  rcases hphase : w.phase with _ | ⟨h, _ | k⟩ | ⟨h, _ | k⟩ | _ | _ | _
  case created.some =>
    rcases hk : w.peers[k]? with _ | p
    · simp [step, hphase, hk]
    · cases hl : p.left <;> simp [step, hphase, hk, hl, connected, PipeAnswers.fConnected,
        errorNoData, errorPipeConnected, @eq_comm _ _ w']
  all_goals simp [step, hphase, connected, PipeAnswers.fConnected, @eq_comm _ _ w']

theorem PipeWorld.step_read :
    w.step parse room .read = some w' ↔
      ∃ h k connect p, w.phase = .reading h k connect ∧ w.peers[k]? = some p ∧
        w.readNext parse room h k connect p = some w' := by
  rcases hphase : w.phase with _ | _ | _ | ⟨h, k, connect⟩ | _ | _ <;>
    simp [step, hphase, Option.bind_eq_some_iff]

/-- The message ends the read or asks for more, or the client has left after it. -/
theorem PipeWorld.readNext_cases {h k : Nat} {connect : Except Nat Unit} {p : PipePeer}
    (hs : w.readNext parse room h k connect p = some w') :
    (∃ message rest, p.inPipe = message :: rest ∧
      readPipe parse room false p.read [message] = none ∧
      w' = { w with
        peers := w.peers.set k { p with read := p.read ++ [message], inPipe := rest }
        phase := .reading h k connect }) ∨
    (∃ message rest result, p.inPipe = message :: rest ∧
      readPipe parse room false p.read [message] = some result ∧
      w' = { w with
        peers := w.peers.set k { p with read := p.read ++ [message], inPipe := rest }
        phase := .writing h k connect result }) ∨
    (p.inPipe = [] ∧ p.left = true ∧
      w' = { w with phase := .writing h k connect (.error .failed) }) := by
  unfold readNext at hs
  cases hpipe : p.inPipe with
  | nil =>
    rw [hpipe] at hs
    obtain ⟨hleft, hs⟩ := Option.ite_none_right_eq_some.mp hs
    exact .inr (.inr ⟨rfl, hleft, (Option.some.inj hs).symm⟩)
  | cons message rest =>
    rw [hpipe] at hs
    have hw' := (Option.some.inj hs).symm
    cases hread : readPipe parse room false p.read [message] with
    | none =>
      rw [hread] at hw'
      exact .inl ⟨message, rest, rfl, hread, hw'⟩
    | some result =>
      rw [hread] at hw'
      exact .inr (.inl ⟨message, rest, result, rfl, hread, hw'⟩)

theorem PipeWorld.step_write {outcome : WriteOutcome} :
    w.step parse room (.write outcome) = some w' ↔
      ∃ h k connect result p, w.phase = .writing h k connect result ∧
        w.peers[k]? = some p ∧ (outcome = .complete ↔ p.left = false) ∧
        (if outcome = .complete then
            { w with peers := w.peers.set k { p with
              got := (handleRequest (fun _ => result) p.read.flatten outcome).written } }
          else w : PipeWorld).finish result
            ⟨.ok h, connect, p.read.flatten, outcome⟩ = some w' := by
  rcases hphase : w.phase with _ | _ | _ | _ | ⟨h, k, connect, result⟩ | _ <;>
    simp [step, hphase, Option.bind_eq_some_iff]

end

/-- What a client is to the server at the moment. -/
inductive PipeView where
  | waiting
  | serving
  | reading
  | answering (result : Except BeastError Request)
  | stopped

def PipePhase.view (phase : PipePhase) (k : Nat) : PipeView :=
  match phase with
  | .looping => .waiting
  | .created _ peer | .connecting _ peer => if peer = some k then .serving else .waiting
  | .reading _ j _ => if j = k then .reading else .waiting
  | .writing _ j _ result => if j = k then .answering result else .waiting
  | .ended => .stopped

section

variable (parse : Bytes → Option (Except BeastError Request)) (room : List Bytes → Nat)

/-- A client that the server has passed by has its answer already. -/
def PipePeer.At (p : PipePeer) : PipeView → Prop
  | .waiting => p.opened = true → p.got ≠ none
  | .serving => p.opened = true ∧ p.got = none ∧ p.read = []
  | .reading => p.opened = true ∧ p.got = none ∧ readPipe parse room false [] p.read = none
  | .answering result => p.opened = true ∧ p.got = none ∧
      readPipe parse room p.left [] p.read = some result
  | .stopped => True

/-- One of the client's messages is longer than the read that meets it. -/
def Overlong (messages : List Bytes) : Prop :=
  ∃ read message rest, messages = read ++ message :: rest ∧ room read < message.length

/-- The answer is the one to a request at the front of what the client has sent, or
the response that nothing has filled in, where a message did not fit. -/
def PipePeer.Answered (p : PipePeer) (response : Response) : Prop :=
  (∃ read result, read <+: p.messages ∧ parse read.flatten = some result ∧
    response = .onRead {} result) ∨ (Overlong room p.messages ∧ response = {})

structure PipePeer.Sound (p : PipePeer) (view : PipeView) : Prop where
  unopened : p.opened = false → p.got = none ∧ p.read = []
  answered : ∀ response, p.got = some response → p.Answered parse room response
  place : p.At parse room view

structure PipeWorld.Sound (w : PipeWorld) : Prop where
  inside : ∀ k, w.phase.peer = some k → k < w.peers.length
  going : w.server.status = .looping ↔ w.phase ≠ .ended
  peers : ∀ (k : Nat) p, w.peers[k]? = some p → p.Sound parse room (w.phase.view k)

end

section

variable {parse : Bytes → Option (Except BeastError Request)} {room : List Bytes → Nat}
  {w w' : PipeWorld} {result : Except BeastError Request}

theorem PipePhase.view_of_peer_ne {phase : PipePhase} {k : Nat} (h : phase.peer ≠ some k) :
    phase.view k = .waiting ∨ phase = .ended := by
  rcases phase with _ | ⟨_, _ | j⟩ | ⟨_, _ | j⟩ | _ | _ | _ <;> simp_all [peer, view]

theorem PipePhase.view_openBy {phase phase' : PipePhase} {k : Nat}
    (h : phase.openBy k = some phase') :
    phase.peer = none ∧ phase'.peer = some k ∧ phase' ≠ .ended ∧ phase'.view k = .serving ∧
      ∀ j, phase.view j = .waiting ∧ (j ≠ k → phase'.view j = .waiting) := by
  obtain ⟨hPipe, ⟨rfl, rfl⟩ | ⟨rfl, rfl⟩⟩ := openBy_eq_some.mp h <;>
    simp +contextual [peer, view, @eq_comm _ k]

theorem Overlong.append {messages : List Bytes} (h : Overlong room messages) (ms : List Bytes) :
    Overlong room (messages ++ ms) := by
  obtain ⟨read, message, rest, rfl, hlong⟩ := h
  exact ⟨read, message, rest ++ ms, by rw [List.append_assoc, List.cons_append], hlong⟩

theorem PipePeer.Answered.append {p q : PipePeer} {response : Response}
    (h : p.Answered parse room response) {ms : List Bytes} (hq : q.messages = p.messages ++ ms) :
    q.Answered parse room response := by
  rcases h with ⟨read, result, hread, hparse, hresponse⟩ | ⟨hlong, hresponse⟩
  · refine .inl ⟨read, result, ?_, hparse, hresponse⟩
    rw [hq]
    exact hread.trans (List.prefix_append _ _)
  · refine .inr ⟨?_, hresponse⟩
    rw [hq]
    exact hlong.append ms

/-- What the read has come to without the end of the pipe is what the client gets. -/
theorem PipePeer.answered_of_read {p : PipePeer}
    (h : readPipe parse room false [] p.read = some result) :
    p.Answered parse room (.onRead {} result) := by
  rcases readPipe_some h with ⟨ms, hms, hparse⟩ | ⟨ms, message, rest, hread, hlong, hresult⟩
  · exact .inl ⟨ms, result, hms.trans (List.prefix_append _ _), hparse, rfl⟩
  · refine .inr ⟨?_, by rw [hresult]; rfl⟩
    have hoverlong : Overlong room p.read := ⟨ms, message, rest, hread, hlong⟩
    exact hoverlong.append p.inPipe

theorem PipePeer.Sound.stop {p : PipePeer} {view : PipeView} (h : p.Sound parse room view) :
    p.Sound parse room .stopped :=
  ⟨h.unopened, h.answered, trivial⟩

/-- A client that has been let in and has no answer is sound wherever it is in place. -/
theorem PipePeer.sound_of_at {p : PipePeer} {view : PipeView} (hopened : p.opened = true)
    (hgot : p.got = none) (hat : p.At parse room view) : p.Sound parse room view where
  unopened hclosed := absurd (hopened.symm.trans hclosed) (by simp)
  answered response hresponse := absurd (hgot.symm.trans hresponse) (by simp)
  place := hat

theorem PipePeer.Sound.arriving (text : Bytes) (view : PipeView)
    (hview : view = .waiting ∨ view = .stopped) :
    (PipePeer.arriving text).Sound parse room view := by
  refine ⟨fun _ => ⟨rfl, rfl⟩, nofun, ?_⟩
  rcases hview with rfl | rfl
  · exact nofun
  · trivial

theorem PipePeer.Sound.send {p : PipePeer} {view : PipeView} (h : p.Sound parse room view)
    (message ys : Bytes) :
    ({ p with inPipe := p.inPipe ++ [message], unsent := ys } : PipePeer).Sound parse room
      view where
  unopened := h.unopened
  answered response hgot :=
    (h.answered response hgot).append (List.append_assoc p.read p.inPipe [message]).symm
  place := by
    have hplace := h.place
    cases view with
    | stopped => trivial
    | _ => exact hplace

theorem PipePeer.Sound.leave {p : PipePeer} {view : PipeView} (h : p.Sound parse room view)
    (hleft : p.left = false) : ({ p with left := true } : PipePeer).Sound parse room view where
  unopened := h.unopened
  answered := h.answered
  place := by
    have hplace := h.place
    cases view with
    | answering result =>
      obtain ⟨hopened, hgot, hread⟩ := hplace
      rw [hleft] at hread
      exact ⟨hopened, hgot, readPipe_closes hread⟩
    | stopped => trivial
    | _ => exact hplace

/-- One client changes, and the server's view of it; the others stay what they are to it. -/
theorem PipeWorld.Sound.peers_set (h : w.Sound parse room) {k : Nat} {p : PipePeer}
    {n : PipePhase} (hp : p.Sound parse room (n.view k))
    (hview : ∀ j, j ≠ k → n.view j = w.phase.view j) :
    ∀ (j : Nat) q, (w.peers.set k p)[j]? = some q → q.Sound parse room (n.view j) := by
  intro j q hj
  by_cases hjk : j = k
  · subst hjk
    have hlt := lt_length_of_getElem? hj
    rw [List.length_set] at hlt
    rw [List.getElem?_set_self hlt] at hj
    exact Option.some.inj hj ▸ hp
  · rw [List.getElem?_set_ne (Ne.symm hjk)] at hj
    rw [hview j hjk]
    exact h.peers j q hj

theorem PipeWorld.sound_finish {a : PipeAnswers} (hs : w.finish result a = some w')
    (hstopped : ∀ (k : Nat) p, w.peers[k]? = some p → p.Sound parse room .stopped)
    (hwaiting : a.Returns → ∀ (k : Nat) p, w.peers[k]? = some p → p.Sound parse room .waiting) :
    w'.Sound parse room := by
  by_cases ha : a.Returns
  · obtain ⟨hstatus, hw'⟩ := finish_returns ha hs
    rw [hw']
    exact ⟨nofun, ⟨fun _ => nofun, fun _ => hstatus⟩, hwaiting ha⟩
  · obtain ⟨hstatus, hw'⟩ := finish_throws ha hs
    rw [hw']
    exact ⟨nofun, ⟨fun hgoing => absurd hgoing hstatus, fun hne => absurd rfl hne⟩, hstopped⟩

theorem PipeWorld.Sound.throws (h : w.Sound parse room) {a : PipeAnswers} (ha : ¬ a.Returns)
    (hs : w.finish result a = some w') : w'.Sound parse room :=
  sound_finish hs (fun k p hk => (h.peers k p hk).stop) fun hreturns => absurd hreturns ha

/-- Another phase of the same call, in which the clients are to the server what they were. -/
theorem PipeWorld.Sound.phase (h : w.Sound parse room) {phase : PipePhase}
    (hgoing : w.phase ≠ .ended) (hended : phase ≠ .ended) (hpeer : phase.peer = w.phase.peer)
    (hview : ∀ k, phase.view k = w.phase.view k) :
    ({ w with phase := phase } : PipeWorld).Sound parse room where
  inside k hk := h.inside k (hpeer ▸ hk)
  going := ⟨fun _ => hended, fun _ => h.going.mpr hgoing⟩
  peers k p hk := by
    simp only [hview k]
    exact h.peers k p hk

/-- The server goes on with the client that it serves; the others still wait. -/
theorem PipeWorld.Sound.serve (h : w.Sound parse room) {peers : List PipePeer}
    {phase : PipePhase} {k : Nat} (hgoing : w.phase ≠ .ended) (hended : phase ≠ .ended)
    (hk : w.phase.peer = some k) (hpeer : phase.peer = some k)
    (hlength : peers.length = w.peers.length)
    (hp : ∀ p, peers[k]? = some p → p.Sound parse room (phase.view k))
    (hothers : ∀ j, k ≠ j → peers[j]? = w.peers[j]?) :
    ({ w with peers := peers, phase := phase } : PipeWorld).Sound parse room where
  inside j hj := by
    obtain rfl : k = j := Option.some.inj (hpeer.symm.trans hj)
    rw [hlength]
    exact h.inside k hk
  going := ⟨fun _ => hended, fun _ => h.going.mpr hgoing⟩
  peers j q hj := by
    by_cases hjk : k = j
    · subst hjk
      exact hp q hj
    · have hwaits : ∀ n : PipePhase, n ≠ .ended → n.peer = some k → n.view j = .waiting := by
        intro n hn hnk
        have hne : n.peer ≠ some j := fun hnj => hjk (Option.some.inj (hnk.symm.trans hnj))
        exact (PipePhase.view_of_peer_ne hne).resolve_right hn
      rw [hothers j hjk] at hj
      have hq := h.peers j q hj
      rw [hwaits w.phase hgoing hk] at hq
      rwa [hwaits phase hended hpeer]

/-- `ConnectNamedPipe` has let the client in, and the read begins. -/
theorem PipeWorld.Sound.letIn (h : w.Sound parse room) {hPipe k : Nat}
    (hgoing : w.phase ≠ .ended) (hk : w.phase.peer = some k) (hview : w.phase.view k = .serving)
    (connect : Except Nat Unit) :
    ({ w with phase := .reading hPipe k connect } : PipeWorld).Sound parse room := by
  refine h.serve hgoing (by simp) hk rfl rfl (fun p hp => ?_) fun _ _ => rfl
  have hplace := (h.peers k p hp).place
  rw [hview] at hplace
  obtain ⟨hopened, hgot, hread⟩ := hplace
  have hstart : readPipe parse room false [] p.read = none := by
    rw [hread]
    rfl
  simp only [PipePhase.view, if_true]
  exact PipePeer.sound_of_at hopened hgot ⟨hopened, hgot, hstart⟩

theorem PipeWorld.Sound.connect (h : w.Sound parse room)
    (hs : w.step parse room .connect = some w') : w'.Sound parse room := by
  obtain ⟨hPipe, ⟨hphase, rfl⟩ | ⟨k, p, hphase, hk, _, rfl⟩ | ⟨k, p, hphase, hk, _, hs⟩ |
    ⟨k, hphase, rfl⟩⟩ := step_connect.mp hs
  · exact h.phase (by simp [hphase]) (by simp) (by rw [hphase]; rfl) fun k => by rw [hphase]; rfl
  · exact h.letIn (by simp [hphase]) (by rw [hphase]; rfl) (by simp [hphase, PipePhase.view]) _
  · exact h.throws (fun hreturns => absurd hreturns.2.1 (by simp [PipeAnswers.fConnected,
      errorNoData, errorPipeConnected])) hs
  · exact h.letIn (by simp [hphase]) (by rw [hphase]; rfl) (by simp [hphase, PipePhase.view]) _

/-- The client that is served changes. -/
theorem PipeWorld.Sound.serve_set (h : w.Sound parse room) {phase : PipePhase} {k : Nat}
    {p : PipePeer} (hgoing : w.phase ≠ .ended) (hended : phase ≠ .ended)
    (hk : w.phase.peer = some k) (hpeer : phase.peer = some k)
    (hp : p.Sound parse room (phase.view k)) :
    ({ w with peers := w.peers.set k p, phase := phase } : PipeWorld).Sound parse room := by
  refine h.serve hgoing hended hk hpeer (by simp) (fun q hq => ?_) fun j hj => ?_
  · rw [List.getElem?_set_self (h.inside k hk)] at hq
    obtain rfl := Option.some.inj hq
    exact hp
  · rw [List.getElem?_set_ne hj]

theorem PipeWorld.Sound.read (h : w.Sound parse room)
    (hs : w.step parse room .read = some w') : w'.Sound parse room := by
  obtain ⟨hPipe, k, connect, p, hphase, hk, hs⟩ := step_read.mp hs
  have hplace := (h.peers k p hk).place
  simp only [hphase, PipePhase.view, if_true] at hplace
  obtain ⟨hopened, hgot, hread⟩ := hplace
  have hgoing : w.phase ≠ .ended := by simp [hphase]
  have hpeer : w.phase.peer = some k := by rw [hphase]; rfl
  rcases readNext_cases hs with ⟨message, rest, _, hnext, rfl⟩ |
    ⟨message, rest, result, _, hnext, rfl⟩ | ⟨_, hleft, rfl⟩
  · apply h.serve_set hgoing (by simp) hpeer rfl
    have hmore : readPipe parse room false [] (p.read ++ [message]) = none := by
      rw [readPipe_snoc hread, hnext]
    simp only [PipePhase.view, if_true]
    exact PipePeer.sound_of_at hopened hgot ⟨hopened, hgot, hmore⟩
  · apply h.serve_set hgoing (by simp) hpeer rfl
    have hends : readPipe parse room p.left [] (p.read ++ [message]) = some result :=
      readPipe_closes (by rw [readPipe_snoc hread, hnext])
    simp only [PipePhase.view, if_true]
    exact PipePeer.sound_of_at hopened hgot ⟨hopened, hgot, hends⟩
  · refine h.serve hgoing (by simp) hpeer rfl rfl (fun q hq => ?_) fun _ _ => rfl
    obtain rfl : p = q := Option.some.inj (hk.symm.trans hq)
    have hclosed : readPipe parse room true [] (p.read ++ []) =
        readPipe parse room true ([] ++ p.read) [] := readPipe_append [] hread
    rw [List.append_nil, List.nil_append, ← hleft] at hclosed
    have hends : readPipe parse room p.left [] p.read = some (.error .failed) := by
      rw [hclosed, readPipe, if_pos hleft]
    simp only [PipePhase.view, if_true]
    exact PipePeer.sound_of_at hopened hgot ⟨hopened, hgot, hends⟩

theorem PipeWorld.Sound.write (h : w.Sound parse room) {outcome : WriteOutcome}
    (hs : w.step parse room (.write outcome) = some w') : w'.Sound parse room := by
  obtain ⟨hPipe, k, connect, result, p, hphase, hk, houtcome, hs⟩ := step_write.mp hs
  have hplace := (h.peers k p hk).place
  simp only [hphase, PipePhase.view, if_true] at hplace
  obtain ⟨hopened, _, hread⟩ := hplace
  by_cases hw : outcome = .complete
  · rw [houtcome.mp hw] at hread
    have hgot : (handleRequest (fun _ => result) p.read.flatten outcome).written =
        some (.onRead {} result) := by
      simp [handleRequest, hw, Response.write]
    rw [if_pos hw, hgot] at hs
    have hno : p.opened ≠ false := by simp [hopened]
    have hanswer : ({ p with got := some (.onRead {} result) } : PipePeer).Sound parse room
        .waiting := by
      refine ⟨fun hclosed => absurd hclosed hno, ?_, fun _ => (by simp)⟩
      intro response hresponse
      have hanswered : p.Answered parse room (.onRead {} result) := PipePeer.answered_of_read hread
      rw [← Option.some.inj hresponse]
      exact hanswered
    have hpeers : ∀ (j : Nat) q, (w.peers.set k
        { p with got := some (.onRead {} result) })[j]? = some q →
        q.Sound parse room .waiting := by
      refine h.peers_set (n := .looping) hanswer fun j hj => ?_
      simp only [hphase, PipePhase.view, if_neg (Ne.symm hj)]
    exact sound_finish hs (fun j q hj => (hpeers j q hj).stop) fun _ => hpeers
  · rw [if_neg hw] at hs
    exact h.throws (fun hreturns => hw hreturns.2.2) hs

theorem PipeWorld.Sound.step (h : w.Sound parse room) {e : PipeWorldEvent}
    (hs : w.step parse room e = some w') : w'.Sound parse room := by
  cases e with
  | arrive text =>
    obtain rfl := Option.some.inj hs
    refine ⟨fun k hk => ?_, h.going, fun k p hk => ?_⟩
    · have hlt := h.inside k hk
      rw [List.length_append]
      omega
    · rcases getElem?_snoc_cases hk with ⟨rfl, rfl⟩ | ⟨_, hk⟩
      · refine .arriving text _ ?_
        have hpeer : w.phase.peer ≠ some w.peers.length := fun hpeer =>
          absurd (h.inside _ hpeer) (Nat.lt_irrefl _)
        rcases PipePhase.view_of_peer_ne hpeer with hview | hended
        · exact .inl hview
        · simp only [hended]
          exact .inr rfl
      · exact h.peers k p hk
  | «open» k =>
    obtain ⟨p, phase, hk, hopened, _, hphase, rfl⟩ := step_open.mp hs
    obtain ⟨hnone, hpeer, hended, hserving, hwaiting⟩ := PipePhase.view_openBy hphase
    have hp := h.peers k p hk
    obtain ⟨hgot, hread⟩ := hp.unopened hopened
    have hgoing : w.phase ≠ .ended := by
      intro hstop
      have hview := (hwaiting k).1
      rw [hstop] at hview
      exact absurd hview (by simp [PipePhase.view])
    refine ⟨fun j hj => ?_, ⟨fun _ => hended, fun _ => h.going.mpr hgoing⟩, ?_⟩
    · obtain rfl : k = j := Option.some.inj (hpeer.symm.trans hj)
      rw [List.length_set]
      exact lt_length_of_getElem? hk
    · refine h.peers_set ?_ fun j hj => ((hwaiting j).2 hj).trans (hwaiting j).1.symm
      rw [hserving]
      exact ⟨(by simp), hp.answered, rfl, hgot, hread⟩
  | send k n =>
    obtain ⟨p, hk, _, _, _, _, rfl⟩ := step_send.mp hs
    refine ⟨fun j hj => ?_, h.going, h.peers_set ((h.peers k p hk).send _ _) fun _ _ => rfl⟩
    rw [List.length_set]
    exact h.inside j hj
  | leave k =>
    obtain ⟨p, hk, hleft, rfl⟩ := step_leave.mp hs
    refine ⟨fun j hj => ?_, h.going, h.peers_set ((h.peers k p hk).leave hleft) fun _ _ => rfl⟩
    rw [List.length_set]
    exact h.inside j hj
  | create answer =>
    obtain ⟨hphase, ⟨hPipe, rfl, rfl⟩ | ⟨code, rfl, hs⟩⟩ := step_create.mp hs
    · refine h.phase (by simp [hphase]) (by simp) (by rw [hphase]; rfl) fun k => ?_
      rw [hphase]
      rfl
    · exact h.throws (fun hreturns => absurd hreturns.1 (by simp)) hs
  | connect => exact h.connect hs
  | read => exact h.read hs
  | write outcome => exact h.write hs

theorem pipeWorld_sound (h : (pipeWorld parse room).Reachable w) : w.Sound parse room := by
  refine h.invariant ?_ fun w e w' hsound hs => hsound.step hs
  intro w hstart
  subst hstart
  exact ⟨nofun, ⟨fun _ => nofun, fun _ => rfl⟩, fun k p hk => absurd hk (by simp)⟩

end

end ScratchServers
