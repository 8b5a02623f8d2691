import ScratchServers.HttpMessage

/-! `handleRequest` of the named-pipe server: the read callback fills a response
in, and straight-line code writes it. -/

namespace ScratchServers

/-- `http::write` may throw before or after the first bytes have left. -/
inductive WriteOutcome where
  | complete
  | torn
  | refused
  deriving DecidableEq

def countPage : String :=
  "<html>\n<head><title>Request count</title></head>\n<body>\n<h1>Request count</h1>\n" ++
    "<p>There have been dummy count  requests so far.</p>\n</body>\n</html>\n"

def timePage : String :=
  "<html>\n<head><title>Current time</title></head>\n<body>\n<h1>Current time</h1>\n" ++
    "<p>The current time is dummy time  seconds since the epoch.</p>\n</body>\n</html>\n"

def Response.onRead (response : Response) : Except BeastError Request → Response
  | .error _ => response
  | .ok request =>
    let response := match request.method with
      | .get =>
        let response := (response.result .ok).set .server "Beast"
        if request.target = "/count" then
          (response.set .contentType "text/html").append countPage
        else if request.target = "/time" then
          (response.set .contentType "text/html").append timePage
        else
          ((response.result .notFound).set .contentType "text/plain").append "File not found\r\n"
      | .other =>
        ((response.result .badRequest).set .contentType "text/plain").append
          ("Invalid request-method '" ++ request.methodString ++ "'")
    response.contentLength response.body.utf8ByteSize

structure Handled where
  written : Option Response
  threw : Bool
  deriving DecidableEq

def Response.write (response : Response) : WriteOutcome → Handled
  | .complete => ⟨some response, false⟩
  | .torn => ⟨some response, true⟩
  | .refused => ⟨none, true⟩

/-- `http::write` is reached whatever the callback was told. -/
def handleRequest (asyncRead : Bytes → Except BeastError Request) (sent : Bytes)
    (outcome : WriteOutcome) : Handled :=
  (Response.onRead {} (asyncRead sent)).write outcome

structure Truthful (read : Except BeastError Request) (response : Response) : Prop where
  ok : response.status = .ok → ∃ request, read = .ok request ∧ request.method = .get ∧
    (request.target = "/count" ∨ request.target = "/time")
  notFound : response.status = .notFound → ∃ request, read = .ok request ∧
    request.method = .get ∧ request.target ≠ "/count" ∧ request.target ≠ "/time"
  badRequest : response.status = .badRequest → ∃ request, read = .ok request ∧
    request.method ≠ .get
  sized : response.Sized

theorem Response.onRead_truthful (response : Response) (request : Request) :
    Truthful (.ok request) (onRead response (.ok request)) := by
  have hsized : (onRead response (.ok request)).Sized := Response.sized_contentLength _
  cases hm : request.method with
  | get =>
    by_cases hcount : request.target = "/count"
    · refine ⟨fun _ => ⟨request, rfl, hm, .inl hcount⟩, fun h => ?_, fun h => ?_, hsized⟩ <;>
        simp [onRead, hm, hcount] at h
    · by_cases htime : request.target = "/time"
      · refine ⟨fun _ => ⟨request, rfl, hm, .inr htime⟩, fun h => ?_, fun h => ?_, hsized⟩ <;>
          simp [onRead, hm, htime] at h
      · refine ⟨fun h => ?_, fun _ => ⟨request, rfl, hm, hcount, htime⟩, fun h => ?_, hsized⟩ <;>
          simp [onRead, hm, hcount, htime] at h
  | other =>
    refine ⟨fun h => ?_, fun h => ?_, fun _ => ⟨request, rfl, by simp [hm]⟩, hsized⟩ <;>
      simp [onRead, hm] at h

theorem Response.onRead_error_not_truthful (error : BeastError) :
    ¬ Truthful (.error error) (Response.onRead {} (.error error)) := by
  intro h
  obtain ⟨request, hr, _⟩ := h.ok rfl
  exact absurd hr nofun

theorem handleRequest_truthful_iff (asyncRead : Bytes → Except BeastError Request) (sent : Bytes)
    (outcome : WriteOutcome) :
    (∀ response, (handleRequest asyncRead sent outcome).written = some response →
      Truthful (asyncRead sent) response) ↔
      (∃ request, asyncRead sent = .ok request) ∨ outcome = .refused := by
  unfold handleRequest
  cases hread : asyncRead sent with
  | ok request =>
    refine ⟨fun _ => .inl ⟨request, rfl⟩, fun _ response hw => ?_⟩
    have hresponse : response = Response.onRead {} (.ok request) := by
      cases outcome <;> simp [Response.write] at hw <;> exact hw.symm
    exact hresponse ▸ Response.onRead_truthful {} request
  | error error =>
    constructor
    · intro h
      right
      by_contra hne
      refine Response.onRead_error_not_truthful error (h _ ?_)
      cases outcome <;> first | rfl | exact absurd rfl hne
    · rintro (⟨request, hr⟩ | rfl) response hw
      · exact absurd hr nofun
      · exact absurd hw nofun

/-- A client sends a line that is no HTTP request and stays to read the answer. -/
theorem malformed_gets_ok :
    ¬ ∀ (asyncRead : Bytes → Except BeastError Request) (sent : Bytes) (outcome : WriteOutcome)
      (response : Response), (handleRequest asyncRead sent outcome).written = some response →
        Truthful (asyncRead sent) response := by
  intro h
  exact Response.onRead_error_not_truthful .malformed
    (h (fun _ => .error .malformed) [103, 13, 10, 13, 10] .complete _ rfl)

end ScratchServers
