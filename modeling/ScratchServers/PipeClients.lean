import ScratchServers.PipeServer

/-! Which clients the main loop of the named-pipe server survives. The pipe is read
in message mode: what a client writes at once is read at once, or not at all. -/

namespace ScratchServers

inductive Departure where
  | beforeConnect
  | whileSending
  | beforeWrite
  | duringWrite
  | afterWrite
  deriving DecidableEq

/-- `early` clients open the pipe before `ConnectNamedPipe` is called. The response
can be written if the client `takes` it: it reads it, or it fits into the pipe. -/
structure PipeClient where
  messages : List Bytes
  early : Bool
  takes : Bool
  leaves : Option Departure

def PipeClient.answers (h : Nat) (c : PipeClient) : PipeAnswers where
  create := .ok h
  connect :=
    if c.leaves = some .beforeConnect then .error errorNoData
    else if c.early then .error errorPipeConnected
    else .ok ()
  sent := c.messages.flatten
  write :=
    match c.leaves with
    | none | some .afterWrite => .complete
    | some .duringWrite => .torn
    | some _ => .refused

def PipeClient.stays (c : PipeClient) : Bool :=
  match c.leaves with
  | none | some .afterWrite => true
  | some _ => false

/-- The client has left before the read can wait for more. -/
def PipeClient.closes (c : PipeClient) : Bool :=
  match c.leaves with
  | some .beforeConnect | some .whileSending | some .beforeWrite => true
  | _ => false

def PipeServer.block (s : PipeServer) (h : Nat) : PipeServer :=
  ⟨.blocked, s.calls ++ [[.create h]]⟩

section

variable (parse : Bytes → Option (Except BeastError Request)) (room : List Bytes → Nat)

/-- What `http::async_read` comes to, message by message; `none` if it waits for ever.
`parse` is the parser, which may ask for more, and `room` the number of bytes that
Beast asks for after the messages in `read`. A longer message ends the read with
`ERROR_MORE_DATA`, and the end of the pipe ends it too, if the client `closes` it. -/
def readPipe (closes : Bool) (read : List Bytes) :
    List Bytes → Option (Except BeastError Request)
  | [] => if closes then some (.error .failed) else none
  | message :: messages =>
    if room read < message.length then some (.error .moreData)
    else match parse (read ++ [message]).flatten with
      | some r => some r
      | none => readPipe closes (read ++ [message]) messages

/-- Some message gives the parser a result, or ends the read with an error. -/
def ReadEnds (messages : List Bytes) : Prop :=
  ∃ read message rest, messages = read ++ message :: rest ∧
    (room read < message.length ∨ (parse (read ++ [message]).flatten).isSome = true)

/-- One call of `ServerWaitToRead`, up to where it returns, throws or waits for ever. -/
def PipeServer.serve (s : PipeServer) (h : Nat) (c : PipeClient) : Option PipeServer :=
  if s.status = .looping then
    match readPipe parse room c.closes [] c.messages with
    | some r =>
      if c.stays = true ∧ c.takes = false then some (s.block h)
      else s.step (fun _ => r) (c.answers h)
    | none => some (s.block h)
  else none

/-- The client writes what ends the server's read, stays and takes the response. -/
structure PipeClient.Cooperates (c : PipeClient) : Prop where
  ends : ReadEnds parse room c.messages
  stays : c.stays = true
  takes : c.takes = true

def pipeService : System PipeServer (Nat × PipeClient) where
  start s := s = .start
  step s l := s.serve parse room l.1 l.2

end

section

variable {parse : Bytes → Option (Except BeastError Request)} {room : List Bytes → Nat}

/-- A message ends the read, whatever follows it, or the read goes on behind it. -/
theorem readPipe_cons (parse : Bytes → Option (Except BeastError Request))
    (room : List Bytes → Nat) (read : List Bytes) (m : Bytes) :
    (∃ r, (∀ closes ms, readPipe parse room closes read (m :: ms) = some r) ∧
      ((room read < m.length ∧ r = .error .moreData) ∨ parse (read ++ [m]).flatten = some r)) ∨
    (¬ room read < m.length ∧ parse (read ++ [m]).flatten = none ∧
      ∀ closes ms, readPipe parse room closes read (m :: ms) =
        readPipe parse room closes (read ++ [m]) ms) := by
  by_cases hroom : room read < m.length
  · refine .inl ⟨.error .moreData, fun closes ms => ?_, .inl ⟨hroom, rfl⟩⟩
    rw [readPipe, if_pos hroom]
  · cases hparse : parse (read ++ [m]).flatten with
    | some r =>
      refine .inl ⟨r, fun closes ms => ?_, .inr rfl⟩
      rw [readPipe, if_neg hroom, hparse]
    | none =>
      refine .inr ⟨hroom, rfl, fun closes ms => ?_⟩
      rw [readPipe, if_neg hroom, hparse]

theorem readPipe_isSome_iff {read messages : List Bytes} :
    (readPipe parse room false read messages).isSome = true ↔
      ∃ ms message rest, messages = ms ++ message :: rest ∧
        (room (read ++ ms) < message.length ∨
          (parse (read ++ ms ++ [message]).flatten).isSome = true) := by
  induction messages generalizing read with
  | nil => simp [readPipe]
  | cons m messages ih =>
    rcases readPipe_cons parse room read m with ⟨r, hends, hr⟩ | ⟨hroom, hparse, hmore⟩
    · refine iff_of_true (by rw [hends, Option.isSome_some]) ⟨[], m, messages, rfl, ?_⟩
      rw [List.append_nil]
      rcases hr with ⟨hlong, _⟩ | hparse
      · exact .inl hlong
      · exact .inr (by rw [hparse, Option.isSome_some])
    · rw [hmore, ih]
      constructor
      · rintro ⟨ms, message, rest, rfl, hends⟩
        refine ⟨m :: ms, message, rest, rfl, ?_⟩
        rwa [List.append_assoc] at hends
      · rintro ⟨ms, message, rest, hms, hends⟩
        cases ms with
        | nil =>
          obtain ⟨rfl, rfl⟩ := List.cons.inj hms
          rw [List.append_nil, hparse] at hends
          exact absurd hends (by simp [hroom])
        | cons m' ms =>
          obtain ⟨rfl, rfl⟩ := List.cons.inj hms
          refine ⟨ms, message, rest, rfl, ?_⟩
          rwa [List.append_assoc]

theorem readPipe_ends_iff {messages : List Bytes} :
    (readPipe parse room false [] messages).isSome = true ↔ ReadEnds parse room messages := by
  simp only [readPipe_isSome_iff, ReadEnds, List.nil_append]

/-- Where the messages do not end the read, it goes on with those after them. -/
theorem readPipe_append {closes : Bool} {read ms : List Bytes} (messages : List Bytes)
    (h : readPipe parse room false read ms = none) :
    readPipe parse room closes read (ms ++ messages) =
      readPipe parse room closes (read ++ ms) messages := by
  induction ms generalizing read with
  | nil => rw [List.nil_append, List.append_nil]
  | cons m ms ih =>
    rcases readPipe_cons parse room read m with ⟨r, hends, _⟩ | ⟨_, _, hmore⟩
    · rw [hends] at h
      exact absurd h (by simp)
    · rw [hmore] at h
      rw [List.cons_append, hmore, ih h, List.append_assoc, List.singleton_append]

/-- What ends the read, ends it whether the client stays or not. -/
theorem readPipe_closes {closes : Bool} {read ms : List Bytes} {r : Except BeastError Request}
    (h : readPipe parse room false read ms = some r) :
    readPipe parse room closes read ms = some r := by
  induction ms generalizing read with
  | nil => simp [readPipe] at h
  | cons m ms ih =>
    rcases readPipe_cons parse room read m with ⟨r', hends, _⟩ | ⟨_, _, hmore⟩
    · rw [hends] at h ⊢
      exact h
    · rw [hmore] at h ⊢
      exact ih h

/-- The messages that the read has taken are a whole request, or the last of them
was too long. -/
theorem readPipe_some {read messages : List Bytes} {result : Except BeastError Request}
    (h : readPipe parse room false read messages = some result) :
    (∃ ms, ms <+: messages ∧ parse (read ++ ms).flatten = some result) ∨
      ∃ ms message rest, messages = ms ++ message :: rest ∧
        room (read ++ ms) < message.length ∧ result = .error .moreData := by
  induction messages generalizing read with
  | nil => simp [readPipe] at h
  | cons m messages ih =>
    rcases readPipe_cons parse room read m with ⟨r, hends, hr⟩ | ⟨_, _, hmore⟩
    · rw [hends] at h
      obtain rfl := Option.some.inj h
      rcases hr with ⟨hlong, hresult⟩ | hparse
      · refine .inr ⟨[], m, messages, rfl, ?_, hresult⟩
        rwa [List.append_nil]
      · exact .inl ⟨[m], List.prefix_append [m] messages, hparse⟩
    · rw [hmore] at h
      rcases ih h with ⟨ms, hms, hresult⟩ | ⟨ms, message, rest, rfl, hlong, hresult⟩
      · refine .inl ⟨m :: ms, List.cons_prefix_cons.mpr ⟨rfl, hms⟩, ?_⟩
        rwa [List.append_assoc] at hresult
      · refine .inr ⟨m :: ms, message, rest, rfl, ?_, hresult⟩
        rwa [List.append_assoc] at hlong

/-- As long as the read goes on, the parser asks for more. -/
theorem readPipe_none {read messages : List Bytes} (hne : messages ≠ [])
    (h : readPipe parse room false read messages = none) :
    parse (read ++ messages).flatten = none := by
  induction messages generalizing read with
  | nil => exact absurd rfl hne
  | cons m messages ih =>
    rcases readPipe_cons parse room read m with ⟨r, hends, _⟩ | ⟨_, hparse, hmore⟩
    · rw [hends] at h
      exact absurd h (by simp)
    · rw [hmore] at h
      by_cases hlast : messages = []
      · rw [hlast, hparse]
      · have hasks := ih hlast h
        rwa [List.append_assoc, List.singleton_append] at hasks

/-- The next message goes on where the messages before it have left the read. -/
theorem readPipe_snoc {read : List Bytes} {message : Bytes}
    (h : readPipe parse room false [] read = none) :
    readPipe parse room false [] (read ++ [message]) =
      readPipe parse room false read [message] := by
  rw [readPipe_append [message] h, List.nil_append]

theorem PipeClient.closes_of_stays {c : PipeClient} (h : c.stays = true) : c.closes = false := by
  rcases c with ⟨messages, early, takes, _ | departure⟩
  · rfl
  · cases departure <;> simp [stays, closes] at h ⊢

theorem PipeClient.answers_fConnected (h : Nat) (c : PipeClient) :
    (c.answers h).fConnected = true ↔ c.leaves ≠ some .beforeConnect := by
  simp only [PipeAnswers.fConnected, answers]
  by_cases hl : c.leaves = some .beforeConnect
  · simp [hl, errorNoData, errorPipeConnected]
  · cases c.early <;> simp [hl]

theorem PipeClient.answers_write (h : Nat) (c : PipeClient) :
    (c.answers h).write = .complete ↔ c.stays = true := by
  simp only [answers, stays]
  rcases c.leaves with _ | _ | _ | _ | _ | _ <;> simp

theorem PipeClient.returns_iff (asyncRead : Bytes → Except BeastError Request) (h : Nat)
    (c : PipeClient) :
    PipeStatus.afterCall (serverWaitToRead asyncRead (c.answers h)).2 = .looping ↔
      c.stays = true := by
  rcases serverWaitToRead_cases asyncRead (c.answers h) with ⟨code, hcreate, _⟩ |
    ⟨_, _, ⟨hconn, he⟩ | ⟨_, hw, he⟩ | ⟨_, hw, he⟩⟩
  · exact absurd hcreate nofun
  · have hl : c.leaves = some .beforeConnect := by
      by_contra hl
      rw [(c.answers_fConnected h).mpr hl] at hconn
      exact absurd hconn nofun
    simp [he, PipeStatus.afterCall, stays, hl]
  · rw [ne_eq, c.answers_write h] at hw
    simp [he, PipeStatus.afterCall, hw]
  · simpa [he, PipeStatus.afterCall] using (c.answers_write h).mp hw

theorem PipeServer.serve_looping_iff {s s' : PipeServer} {h : Nat} {c : PipeClient}
    (hs : s.serve parse room h c = some s') :
    s'.status = .looping ↔ c.Cooperates parse room := by
  obtain ⟨_, hs⟩ := Option.ite_none_right_eq_some.mp hs
  have hblocks : s' = s.block h → ¬ c.Cooperates parse room →
      (s'.status = .looping ↔ c.Cooperates parse room) := by
    rintro rfl hno
    exact iff_of_false (by simp [block]) hno
  cases hread : readPipe parse room c.closes [] c.messages with
  | none =>
    rw [hread] at hs
    refine hblocks (Option.some.inj hs).symm fun hcoop => ?_
    have hends := readPipe_ends_iff.mpr hcoop.ends
    rw [PipeClient.closes_of_stays hcoop.stays] at hread
    rw [hread] at hends
    exact absurd hends (by simp)
  | some r =>
    simp only [hread] at hs
    by_cases hwaits : c.stays = true ∧ c.takes = false
    · rw [if_pos hwaits] at hs
      refine hblocks (Option.some.inj hs).symm fun hcoop => ?_
      exact absurd (hwaits.2.symm.trans hcoop.takes) (by simp)
    · rw [if_neg hwaits] at hs
      obtain ⟨_, rfl⟩ := PipeServer.step_eq hs
      rw [c.returns_iff]
      refine ⟨fun hstays => ⟨?_, hstays, ?_⟩, fun hcoop => hcoop.stays⟩
      · rw [PipeClient.closes_of_stays hstays] at hread
        exact readPipe_ends_iff.mp (by rw [hread, Option.isSome_some])
      · by_contra htakes
        exact hwaits ⟨hstays, Bool.eq_false_iff.mpr htakes⟩

/-- The server goes on with the next client exactly as long as each one ends its
read, and stays and takes the response. -/
theorem pipe_survives_iff {ls : List (Nat × PipeClient)} {u : PipeServer}
    (hr : (pipeService parse room).run .start ls = some u) :
    (pipeService parse room).StatesMeet (·.status = .looping) .start ls ↔
      (pipeService parse room).StepsMeet (fun _ l => l.2.Cooperates parse room) .start ls := by
  refine System.statesMeet_iff_stepsMeet (J := (·.status = .looping)) (fun _ => id) ?_ ?_ rfl hr
  · intro s l s' _ hl hstep
    exact (PipeServer.serve_looping_iff hstep).mpr hl
  · intro s l s' _ hl hstep h
    exact hl ((PipeServer.serve_looping_iff hstep).mp h)

/-- `getTime` as a parser that asks for more bytes. -/
def parseTime (sent : Bytes) : Option (Except BeastError Request) :=
  if sent = getTimeText then some (getTime sent)
  else if sent <+: getTimeText then none
  else some (.error .malformed)

/-- The first read of a `flat_buffer` asks for this much, and so does the next one
where the first was short. -/
def firstRead (_ : List Bytes) : Nat := 512

/-- One client writes its request in two messages, and another one what is none. -/
def splitAndBad : List (Nat × PipeClient) :=
  [(4, ⟨[getTimeText.take 3, getTimeText.drop 3], true, true, some .afterWrite⟩),
    (4, ⟨[[103, 13]], false, true, none⟩)]

theorem pipe_survives_run :
    (pipeService parseTime firstRead).StatesMeet (·.status = .looping) .start splitAndBad := by
  obtain ⟨u, hu⟩ : ∃ u, (pipeService parseTime firstRead).run .start splitAndBad = some u :=
    Option.isSome_iff_exists.mp (by decide)
  apply (pipe_survives_iff hu).mpr
  refine ⟨⟨?_, rfl, rfl⟩, fun _ _ => ⟨⟨?_, rfl, rfl⟩, fun _ _ => trivial⟩⟩
  · exact ⟨[getTimeText.take 3], getTimeText.drop 3, [], rfl, .inr (by decide)⟩
  · exact ⟨[], [103, 13], [], rfl, .inr (by decide)⟩

theorem pipe_ends_with_client :
    ¬ ∀ (parse : Bytes → Option (Except BeastError Request)) (room : List Bytes → Nat)
      (s : PipeServer), (pipeService parse room).Reachable s → s.status = .looping := by
  intro h
  obtain ⟨s, hs, hq⟩ := (pipeService parseTime firstRead).exists_reachable_of_run .start
    [(4, ⟨[], true, true, some .beforeConnect⟩)] (·.status = .terminated) rfl (by decide)
  exact absurd ((h parseTime firstRead s hs).symm.trans (of_decide_eq_true hq)) nofun

end

end ScratchServers
