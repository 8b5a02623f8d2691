import ScratchServers.HttpMessage

/-! One `http_connection` of the Unix-socket server: the read and write chain
and the deadline timer, which share a socket. A completion that is queued stays
as it is when another handler closes the socket or cancels the timer. -/

namespace ScratchServers

inductive HttpIo where
  | reading
  | readQueued (ec : ErrorCode)
  | writing (t : Transfer)
  | writeQueued (t : Transfer) (ec : ErrorCode)
  | ended
  deriving DecidableEq

inductive Deadline where
  | armed
  | queued (ec : ErrorCode)
  | done
  deriving DecidableEq

/-- `wire` holds what the client can see. `requests`, `responses` and `timedOut`
record the requests read without error, the responses whose writing was started,
and that the deadline handler has run without error. -/
structure HttpConnection where
  socket : Option Nat
  isOpen : Bool
  sendShut : Bool
  wire : Bytes
  response : Response
  io : HttpIo
  deadline : Deadline
  requests : List Request
  responses : List Response
  timedOut : Bool

def HttpConnection.construct (socket : Option Nat) : HttpConnection :=
  ⟨socket, socket.isSome, false, [], {}, .ended, .done, [], [], false⟩

/-- An operation on a socket that is not open completes with an error. -/
def HttpConnection.asyncReadSome (c : HttpConnection) : HttpConnection :=
  { c with io := if c.isOpen then .reading else .readQueued .failed }

def HttpConnection.asyncWriteSome (c : HttpConnection) (t : Transfer) : HttpConnection :=
  { c with io := if c.isOpen && !c.sendShut then .writing t else .writeQueued t .failed }

def HttpConnection.readRequest (c : HttpConnection) : HttpConnection :=
  c.asyncReadSome

def HttpConnection.checkDeadline (c : HttpConnection) : HttpConnection :=
  { c with deadline := .armed }

def HttpConnection.start (c : HttpConnection) : HttpConnection :=
  c.readRequest.checkDeadline

def Response.createResponse (r : Response) (request : Request) : Response :=
  if request.target = "/count" then
    (r.set .contentType "text/html").append "/count path is called"
  else if request.target = "/time" then
    (r.set .contentType "text/html").append "/time path is called"
  else
    ((r.result .notFound).set .contentType "text/plain").append "File not found\r\n"

def Response.processRequest (r : Response) (request : Request) : Response :=
  let r := { r with version := request.version }.keepAlive false
  match request.method with
  | .get => ((r.result .ok).set .server "Beast").createResponse request
  | .other =>
    ((r.result .badRequest).set .contentType "text/plain").append
      ("Invalid request-method '" ++ request.methodString ++ "'")

/-- `cancel` does not recall a completion that is queued. -/
def HttpConnection.cancel (c : HttpConnection) : HttpConnection :=
  { c with deadline := if c.deadline = .armed then .queued .operationAborted else c.deadline }

/-- `close` aborts the outstanding operation. -/
def HttpConnection.close (c : HttpConnection) : HttpConnection :=
  { c with
    isOpen := false
    io := match c.io with
      | .reading => .readQueued .operationAborted
      | .writing t => .writeQueued t .operationAborted
      | io => io }

def HttpConnection.onWrite (c : HttpConnection) : HttpConnection :=
  { c with sendShut := true, io := .ended }.cancel

def HttpConnection.onDeadline (c : HttpConnection) (ec : ErrorCode) : HttpConnection :=
  if ec = .success then { c.close with deadline := .done, timedOut := true }
  else { c with deadline := .done }

/-- When no handler holds the connection any more it is destroyed, and its
socket with it. -/
def HttpConnection.release (c : HttpConnection) : HttpConnection :=
  { c with isOpen := c.isOpen && !(c.io = .ended && c.deadline = .done) }

inductive ParseStep where
  | more
  | done (r : Except BeastError Request)

def ErrorCode.toBeast : ErrorCode → BeastError
  | .eof => .endOfStream
  | .operationAborted => .operationAborted
  | _ => .failed

def ParseStep.result (p : ParseStep) (ec : ErrorCode) : Option (Except BeastError Request) :=
  if ec = .success then
    match p with
    | .more => none
    | .done r => some r
  else some (.error ec.toBeast)

inductive HttpConnectionEvent where
  | readSome (ec : ErrorCode)
  | read (p : ParseStep)
  | writeSome (n : Nat)
  | writeFailed
  | write
  | expire
  | deadline

section

variable (serialise : Response → Bytes)

def HttpConnection.writeResponse (c : HttpConnection) : HttpConnection :=
  let response := c.response.contentLength c.response.body.utf8ByteSize
  { c with response := response, responses := c.responses ++ [response] }.asyncWriteSome
    (.start (serialise response).length)

def HttpConnection.processRequest (c : HttpConnection) (request : Request) : HttpConnection :=
  { c with
    response := c.response.processRequest request
    requests := c.requests ++ [request] }.writeResponse serialise

def HttpConnection.onRead (c : HttpConnection) : Except BeastError Request → HttpConnection
  | .ok request => c.processRequest serialise request
  | .error _ => { c with io := .ended }

/-- `readSome`, `writeSome`, `writeFailed` and `expire` queue a completion, and
the other events deliver one. -/
def HttpConnection.step (c : HttpConnection) : HttpConnectionEvent → Option HttpConnection
  | .readSome ec => if c.io = .reading then some { c with io := .readQueued ec } else none
  | .read p =>
    match c.io with
    | .readQueued ec =>
      match p.result ec with
      | none => some c.asyncReadSome
      | some r => some (c.onRead serialise r).release
    | _ => none
  | .writeSome n =>
    match c.io with
    | .writing t =>
      if n ≤ t.left ∧ (0 < n ∨ t.left = 0) then
        some { c with
          wire := c.wire ++ (t.unsent (serialise c.response)).take n
          io := .writeQueued (t.advance n) .success }
      else none
    | _ => none
  | .writeFailed =>
    match c.io with
    | .writing t => some { c with io := .writeQueued t .failed }
    | _ => none
  | .write =>
    match c.io with
    | .writeQueued t ec =>
      if ec = .success ∧ 0 < t.left then some (c.asyncWriteSome t) else some c.onWrite.release
    | _ => none
  | .expire => if c.deadline = .armed then some { c with deadline := .queued .success } else none
  | .deadline =>
    match c.deadline with
    | .queued ec => some (c.onDeadline ec).release
    | _ => none

end

def httpConnection (serialise : Response → Bytes) : System HttpConnection HttpConnectionEvent where
  start c := ∃ socket, c = (HttpConnection.construct socket).start
  step := HttpConnection.step serialise

section

variable {serialise : Response → Bytes} {c c' : HttpConnection}

theorem ParseStep.result_ok {p : ParseStep} {ec : ErrorCode} {request : Request}
    (h : p.result ec = some (.ok request)) : p = .done (.ok request) ∧ ec = .success := by
  by_cases hec : ec = .success
  · cases p <;> simp_all [result]
  · simp [result, hec] at h

theorem ParseStep.result_none {p : ParseStep} {ec : ErrorCode} (h : p.result ec = none) :
    p = .more ∧ ec = .success := by
  by_cases hec : ec = .success
  · cases p <;> simp_all [result]
  · simp [result, hec] at h

theorem HttpConnection.step_readSome {ec : ErrorCode}
    (h : c.step serialise (.readSome ec) = some c') :
    c.io = .reading ∧ c' = { c with io := .readQueued ec } := by
  simpa [step, eq_comm (b := c')] using h

theorem HttpConnection.step_read {p : ParseStep} (h : c.step serialise (.read p) = some c') :
    ∃ ec, c.io = .readQueued ec ∧
      ((p.result ec = none ∧ c' = c.asyncReadSome) ∨
        ∃ r, p.result ec = some r ∧ c' = (c.onRead serialise r).release) := by
  rcases hio : c.io with _ | ec | t | ⟨t, ec⟩ | _ <;> simp only [step, hio, reduceCtorEq] at h
  refine ⟨ec, rfl, ?_⟩
  cases hp : p.result ec with
  | none => simpa [hp, eq_comm (b := c')] using h
  | some r => simpa [hp, eq_comm (b := c')] using h

theorem HttpConnection.step_writeSome {n : Nat} (h : c.step serialise (.writeSome n) = some c') :
    ∃ t, c.io = .writing t ∧ n ≤ t.left ∧
      c' = { c with
        wire := c.wire ++ (t.unsent (serialise c.response)).take n
        io := .writeQueued (t.advance n) .success } := by
  rcases hio : c.io with _ | ec | t | ⟨t, ec⟩ | _ <;>
    simp only [step, hio, reduceCtorEq, Option.ite_none_right_eq_some, Option.some.injEq] at h
  obtain ⟨⟨hn, _⟩, rfl⟩ := h
  exact ⟨t, rfl, hn, rfl⟩

theorem HttpConnection.step_writeFailed (h : c.step serialise .writeFailed = some c') :
    ∃ t, c.io = .writing t ∧ c' = { c with io := .writeQueued t .failed } := by
  rcases hio : c.io with _ | ec | t | ⟨t, ec⟩ | _ <;>
    simp only [step, hio, reduceCtorEq, Option.some.injEq] at h
  exact ⟨t, rfl, h.symm⟩

theorem HttpConnection.step_write (h : c.step serialise .write = some c') :
    ∃ t ec, c.io = .writeQueued t ec ∧
      ((ec = .success ∧ 0 < t.left ∧ c' = c.asyncWriteSome t) ∨ c' = c.onWrite.release) := by
  rcases hio : c.io with _ | ec | t | ⟨t, ec⟩ | _ <;> simp only [step, hio, reduceCtorEq] at h
  refine ⟨t, ec, rfl, ?_⟩
  split at h
  · rename_i hec
    exact .inl ⟨hec.1, hec.2, (Option.some.inj h).symm⟩
  · exact .inr (Option.some.inj h).symm

theorem HttpConnection.step_expire (h : c.step serialise .expire = some c') :
    c.deadline = .armed ∧ c' = { c with deadline := .queued .success } := by
  simpa [step, eq_comm (b := c')] using h

theorem HttpConnection.step_deadline (h : c.step serialise .deadline = some c') :
    ∃ ec, c.deadline = .queued ec ∧ c' = (c.onDeadline ec).release := by
  rcases hd : c.deadline with _ | ec | _ <;>
    simp only [step, hd, reduceCtorEq, Option.some.injEq] at h
  exact ⟨ec, rfl, h.symm⟩

end

end ScratchServers
