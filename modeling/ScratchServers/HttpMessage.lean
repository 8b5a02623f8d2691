import ScratchServers.EchoServer

/-! The HTTP messages that the pipe server and the Unix server exchange with
their clients, as far as the two request handlers look at them. -/

namespace ScratchServers

inductive BeastError where
  | endOfStream
  | partialMessage
  | malformed
  | bufferOverflow
  | bodyLimit
  | operationAborted
  | moreData
  | failed
  deriving DecidableEq

inductive Verb where
  | get
  | other
  deriving DecidableEq

structure Request where
  methodString : String
  target : String
  version : Nat
  deriving DecidableEq

def Request.method (r : Request) : Verb :=
  if r.methodString = "GET" then .get else .other

inductive Status where
  | ok
  | badRequest
  | notFound
  deriving DecidableEq

inductive Field where
  | server
  | contentType
  | contentLength
  | connection
  deriving DecidableEq

/-- A default-constructed response is an HTTP/1.1 `200` with no fields and no body. -/
structure Response where
  version : Nat := 11
  status : Status := .ok
  fields : List (Field × String) := []
  body : String := ""
  deriving DecidableEq

def Response.get (r : Response) (f : Field) : Option String :=
  r.fields.lookup f

def Response.set (r : Response) (f : Field) (v : String) : Response :=
  { r with fields := r.fields.filter (·.1 ≠ f) ++ [(f, v)] }

def Response.erase (r : Response) (f : Field) : Response :=
  { r with fields := r.fields.filter (·.1 ≠ f) }

def Response.result (r : Response) (status : Status) : Response :=
  { r with status := status }

def Response.append (r : Response) (text : String) : Response :=
  { r with body := r.body ++ text }

def Response.contentLength (r : Response) (n : Nat) : Response :=
  r.set .contentLength (toString n)

/-- `keep_alive(value)`: which side of the question HTTP/1.1 and HTTP/1.0 spell out differs. -/
def Response.keepAlive (r : Response) (value : Bool) : Response :=
  if r.version < 11 then
    if value then r.set .connection "keep-alive" else r.erase .connection
  else
    if value then r.erase .connection else r.set .connection "close"

/-- `keep_alive()`: what the response itself says, in the sense of its version. -/
def Response.isKeepAlive (r : Response) : Bool :=
  if r.version < 11 then r.get .connection = some "keep-alive"
  else r.get .connection ≠ some "close"

def Status.line : Status → String
  | .ok => "200 OK"
  | .badRequest => "400 Bad Request"
  | .notFound => "404 Not Found"

def Field.name : Field → String
  | .server => "Server"
  | .contentType => "Content-Type"
  | .contentLength => "Content-Length"
  | .connection => "Connection"

def Response.text (r : Response) : Bytes :=
  let version := if r.version < 11 then "HTTP/1.0 " else "HTTP/1.1 "
  let fields := r.fields.map fun f => f.1.name ++ ": " ++ f.2 ++ "\r\n"
  (version ++ r.status.line ++ "\r\n" ++ String.join fields ++ "\r\n" ++ r.body).toList.map
    (·.toNat.toUInt8)

def Response.Sized (r : Response) : Prop :=
  r.get .contentLength = some (toString r.body.utf8ByteSize)

@[simp] theorem Response.status_set (r : Response) (f : Field) (v : String) :
    (r.set f v).status = r.status := rfl

@[simp] theorem Response.status_contentLength (r : Response) (n : Nat) :
    (r.contentLength n).status = r.status := rfl

@[simp] theorem Response.status_result (r : Response) (status : Status) :
    (r.result status).status = status := rfl

@[simp] theorem Response.status_append (r : Response) (text : String) :
    (r.append text).status = r.status := rfl

@[simp] theorem Response.get_erase (r : Response) (f : Field) : (r.erase f).get f = none := by
  rw [get, erase, List.lookup_eq_none_iff]
  intro p hp
  have hne : p.1 ≠ f := of_decide_eq_true (List.mem_filter.mp hp).2
  exact bne_iff_ne.mpr hne.symm

@[simp] theorem Response.get_set (r : Response) (f : Field) (v : String) :
    (r.set f v).get f = some v := by
  have hnone : (r.fields.filter (·.1 ≠ f)).lookup f = none := r.get_erase f
  rw [get, set, List.lookup_append, hnone]
  simp

@[simp] theorem Response.version_set (r : Response) (f : Field) (v : String) :
    (r.set f v).version = r.version := rfl

@[simp] theorem Response.version_contentLength (r : Response) (n : Nat) :
    (r.contentLength n).version = r.version := rfl

@[simp] theorem Response.version_result (r : Response) (status : Status) :
    (r.result status).version = r.version := rfl

@[simp] theorem Response.version_append (r : Response) (text : String) :
    (r.append text).version = r.version := rfl

@[simp] theorem Response.version_keepAlive (r : Response) (value : Bool) :
    (r.keepAlive value).version = r.version := by
  unfold keepAlive
  split <;> split <;> rfl

@[simp] theorem Response.status_keepAlive (r : Response) (value : Bool) :
    (r.keepAlive value).status = r.status := by
  unfold keepAlive
  split <;> split <;> rfl

@[simp] theorem Response.get_result (r : Response) (status : Status) (f : Field) :
    (r.result status).get f = r.get f := rfl

@[simp] theorem Response.get_append (r : Response) (text : String) (f : Field) :
    (r.append text).get f = r.get f := rfl

theorem lookup_filter_ne {B : Type*} {f g : Field} (h : g ≠ f) (fields : List (Field × B)) :
    (fields.filter (·.1 ≠ f)).lookup g = fields.lookup g := by
  induction fields with
  | nil => rfl
  | cons p fields ih =>
    obtain ⟨q, v⟩ := p
    by_cases hq : q = f
    · have hg : (g == q) = false := by
        rw [hq]
        exact beq_false_of_ne h
      rw [List.filter_cons_of_neg (by simp [hq]), ih, List.lookup_cons, hg]
    · rw [List.filter_cons_of_pos (by simp [hq]), List.lookup_cons, List.lookup_cons, ih]

@[simp] theorem Response.get_set_ne (r : Response) {f g : Field} (v : String) (h : g ≠ f) :
    (r.set f v).get g = r.get g := by
  have hg : (g == f) = false := beq_false_of_ne h
  rw [get, set, List.lookup_append, lookup_filter_ne h, List.lookup_cons, hg]
  exact Option.or_none

@[simp] theorem Response.get_fresh (version : Nat) (f : Field) :
    ({ version := version } : Response).get f = none := rfl

@[simp] theorem Response.get_keepAlive_ne (r : Response) (value : Bool) {f : Field}
    (hf : f ≠ .connection) : (r.keepAlive value).get f = r.get f := by
  have herase : (r.erase .connection).get f = r.get f := lookup_filter_ne hf r.fields
  unfold keepAlive
  split <;> split <;> simp [hf, herase]

theorem Response.isKeepAlive_congr {a b : Response} (hv : a.version = b.version)
    (hc : a.get .connection = b.get .connection) : a.isKeepAlive = b.isKeepAlive := by
  simp only [isKeepAlive, hv, hc]

@[simp] theorem Response.isKeepAlive_set (r : Response) {f : Field} (v : String)
    (hf : .connection ≠ f) : (r.set f v).isKeepAlive = r.isKeepAlive :=
  isKeepAlive_congr rfl (r.get_set_ne v hf)

@[simp] theorem Response.isKeepAlive_result (r : Response) (status : Status) :
    (r.result status).isKeepAlive = r.isKeepAlive := rfl

@[simp] theorem Response.isKeepAlive_append (r : Response) (text : String) :
    (r.append text).isKeepAlive = r.isKeepAlive := rfl

/-- What `keep_alive(value)` announces is what `keep_alive()` tells. -/
@[simp] theorem Response.isKeepAlive_keepAlive (r : Response) (value : Bool) :
    (r.keepAlive value).isKeepAlive = value := by
  have hversion := r.version_keepAlive value
  by_cases hv : r.version < 11
  · simp only [isKeepAlive, hversion, hv, if_true]
    cases value <;> simp [keepAlive, hv]
  · simp only [isKeepAlive, hversion, hv, if_false]
    cases value <;> simp [keepAlive, hv]

theorem Response.sized_contentLength (r : Response) :
    (r.contentLength r.body.utf8ByteSize).Sized :=
  r.get_set _ _

end ScratchServers
