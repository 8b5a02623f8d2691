import ScratchServers.PipeRequest
import ScratchServers.UnixResponse

/-! The answers of the pipe server and of the Unix server to one request, side
by side: two copies of one dispatch, of which only one looks at the version of
the request and at what becomes of the connection. -/

namespace ScratchServers

def Request.pipeAnswer (request : Request) : Response :=
  Response.onRead {} (.ok request)

def Request.isPage (request : Request) : Prop :=
  request.target = "/count" ∨ request.target = "/time"

instance (request : Request) : Decidable request.isPage :=
  inferInstanceAs (Decidable (_ ∨ _))

/-- What the switch over the method makes of a request, and what is left as it
was before the switch. -/
structure Dispatched (request : Request) (version : Nat) (keepAlive : Bool) (r : Response) :
    Prop where
  status : r.status =
    if request.method = .get then if request.isPage then .ok else .notFound else .badRequest
  contentType : r.get .contentType =
    some (if request.method = .get ∧ request.isPage then "text/html" else "text/plain")
  server : r.get .server = if request.method = .get then some "Beast" else none
  version : r.version = version
  keepAlive : r.isKeepAlive = keepAlive

structure SameAnswer (a b : Response) : Prop where
  status : a.status = b.status
  version : a.version = b.version
  contentType : a.get .contentType = b.get .contentType
  server : a.get .server = b.get .server

/-- The two responses say the same, each with the length of its own body, and
both announce that the connection ends. -/
structure HandlersAgree (request : Request) : Prop where
  same : SameAnswer request.answer request.pipeAnswer
  sized : request.answer.Sized ∧ request.pipeAnswer.Sized
  ends : request.answer.isKeepAlive = false ∧ request.pipeAnswer.isKeepAlive = false

theorem Request.page_cases (request : Request) :
    (request.method = .get ∧ request.target = "/count") ∨
      (request.method = .get ∧ request.target = "/time") ∨
      (request.method = .get ∧ request.target ≠ "/count" ∧ request.target ≠ "/time") ∨
      request.method = .other := by
  cases hm : request.method with
  | other => exact .inr (.inr (.inr rfl))
  | get =>
    by_cases hcount : request.target = "/count"
    · exact .inl ⟨rfl, hcount⟩
    by_cases htime : request.target = "/time"
    · exact .inr (.inl ⟨rfl, htime⟩)
    · exact .inr (.inr (.inl ⟨rfl, hcount, htime⟩))

theorem Response.isKeepAlive_fresh : ({} : Response).isKeepAlive = true := rfl

theorem Request.pipeAnswer_dispatched (request : Request) :
    Dispatched request 11 true request.pipeAnswer := by
  have hfresh := Response.isKeepAlive_fresh
  rcases request.page_cases with ⟨hm, ht⟩ | ⟨hm, ht⟩ | ⟨hm, hc, ht⟩ | hm
  · constructor <;>
      simp [pipeAnswer, Response.onRead, Response.contentLength, hm, ht, isPage, hfresh]
  · constructor <;>
      simp [pipeAnswer, Response.onRead, Response.contentLength, hm, ht, isPage, hfresh]
  · constructor <;>
      simp [pipeAnswer, Response.onRead, Response.contentLength, hm, hc, ht, isPage, hfresh]
  · constructor <;> simp [pipeAnswer, Response.onRead, Response.contentLength, hm, hfresh]

theorem Request.answer_dispatched (request : Request) :
    Dispatched request request.version false request.answer := by
  rcases request.page_cases with ⟨hm, ht⟩ | ⟨hm, ht⟩ | ⟨hm, hc, ht⟩ | hm
  · constructor <;>
      simp [answer, Response.processRequest, Response.createResponse, Response.contentLength, hm,
        ht, isPage]
  · constructor <;>
      simp [answer, Response.processRequest, Response.createResponse, Response.contentLength, hm,
        ht, isPage]
  · constructor <;>
      simp [answer, Response.processRequest, Response.createResponse, Response.contentLength, hm,
        hc, ht, isPage]
  · constructor <;> simp [answer, Response.processRequest, Response.contentLength, hm]

theorem Request.sameAnswer_iff (request : Request) :
    SameAnswer request.answer request.pipeAnswer ↔ request.version = 11 := by
  have hunix := request.answer_dispatched
  have hpipe := request.pipeAnswer_dispatched
  constructor
  · intro h
    exact hunix.version.symm.trans (h.version.trans hpipe.version)
  · intro h
    exact ⟨hunix.status.trans hpipe.status.symm,
      hunix.version.trans (h.trans hpipe.version.symm),
      hunix.contentType.trans hpipe.contentType.symm, hunix.server.trans hpipe.server.symm⟩

/-- The two answers say the same exactly for requests of HTTP/1.1, and only the
Unix server announces that it closes the connection. -/
theorem handlers_never_agree (request : Request) :
    ¬ HandlersAgree request ∧
      (SameAnswer request.answer request.pipeAnswer ↔ request.version = 11) ∧
      (request.answer.Sized ∧ request.pipeAnswer.Sized) ∧
      request.answer.isKeepAlive = false ∧ request.pipeAnswer.isKeepAlive = true := by
  have hpipe := request.pipeAnswer_dispatched.keepAlive
  refine ⟨fun h => ?_, request.sameAnswer_iff, ⟨?_, ?_⟩, request.answer_dispatched.keepAlive, hpipe⟩
  · exact absurd (h.ends.2.symm.trans hpipe) Bool.false_ne_true
  · exact Response.sized_contentLength _
  · exact Response.sized_contentLength _

/-- An HTTP/1.0 client that asks both servers for the time. -/
theorem handlers_disagree_http10 :
    ¬ ∀ request : Request, HandlersAgree request := by
  intro h
  have hversion := ((h ⟨"GET", "/time", 10⟩).same).version
  exact absurd hversion (by decide)

end ScratchServers
