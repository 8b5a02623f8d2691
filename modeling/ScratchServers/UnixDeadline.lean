import ScratchServers.UnixConnection

/-! How long a connection of the Unix-socket server stays when it is done: not
until its deadline, unless a read of it has failed. -/

namespace ScratchServers

def HttpConnection.Prompt (c : HttpConnection) : Prop :=
  c.io = .ended → c.deadline ≠ .armed

def HttpConnection.readFails (c : HttpConnection) : HttpConnectionEvent → Bool
  | .read p =>
    match c.io with
    | .readQueued ec =>
      match p.result ec with
      | some (.error _) => true
      | _ => false
    | _ => false
  | _ => false

section

variable {serialise : Response → Bytes} {c c' : HttpConnection}

theorem HttpConnection.asyncReadSome_prompt : c.asyncReadSome.Prompt := by
  unfold Prompt asyncReadSome
  cases c.isOpen <;> exact nofun

theorem HttpConnection.asyncWriteSome_prompt {t : Transfer} : (c.asyncWriteSome t).Prompt := by
  unfold Prompt asyncWriteSome
  cases c.isOpen && !c.sendShut <;> exact nofun

theorem HttpConnection.onWrite_prompt : c.onWrite.Prompt := by
  intro _
  simp only [onWrite, cancel]
  split
  · exact nofun
  · assumption

theorem HttpConnection.step_prompt {e : HttpConnectionEvent}
    (he : c.deadline = .armed → c.readFails e = false) (hs : c.step serialise e = some c') :
    c'.Prompt := by
  cases e with
  | readSome ec =>
    obtain ⟨_, rfl⟩ := step_readSome hs
    exact nofun
  | read p =>
    obtain ⟨ec, hio, ⟨_, rfl⟩ | ⟨r, hr, rfl⟩⟩ := step_read hs
    · exact asyncReadSome_prompt
    · cases r with
      | ok request => exact asyncWriteSome_prompt
      | error error =>
        intro _ harmed
        have hfails := he harmed
        simp only [readFails, hio, hr] at hfails
        exact absurd hfails nofun
  | writeSome n =>
    obtain ⟨t, _, _, rfl⟩ := step_writeSome hs
    exact nofun
  | writeFailed =>
    obtain ⟨t, _, rfl⟩ := step_writeFailed hs
    exact nofun
  | write =>
    obtain ⟨t, ec, _, ⟨_, _, rfl⟩ | rfl⟩ := step_write hs
    · exact asyncWriteSome_prompt
    · exact onWrite_prompt
  | expire =>
    obtain ⟨_, rfl⟩ := step_expire hs
    exact fun _ => nofun
  | deadline =>
    obtain ⟨ec, _, rfl⟩ := step_deadline hs
    intro _
    unfold onDeadline
    split <;> exact nofun

theorem HttpConnection.not_prompt_of_readFails {e : HttpConnectionEvent}
    (harmed : c.deadline = .armed) (hfails : c.readFails e = true)
    (hs : c.step serialise e = some c') : ¬ c'.Prompt := by
  intro h
  cases e with
  | read p =>
    obtain ⟨ec, hio, ⟨hr, _⟩ | ⟨r, hr, rfl⟩⟩ := step_read hs
    · simp only [readFails, hio, hr] at hfails
      exact absurd hfails nofun
    · cases r with
      | ok request =>
        simp only [readFails, hio, hr] at hfails
        exact absurd hfails nofun
      | error error => exact h rfl harmed
  | _ => exact absurd hfails nofun

theorem http_connection_prompt_iff {socket : Option Nat} {ls : List HttpConnectionEvent}
    {u : HttpConnection}
    (hr : (httpConnection serialise).run (HttpConnection.construct socket).start ls = some u) :
    (httpConnection serialise).StatesMeet HttpConnection.Prompt
        (HttpConnection.construct socket).start ls ↔
      (httpConnection serialise).StepsMeet
        (fun c e => c.deadline = .armed → c.readFails e = false)
        (HttpConnection.construct socket).start ls := by
  refine System.statesMeet_iff_stepsMeet (J := HttpConnection.Prompt) (fun _ => id) ?_ ?_ ?_ hr
  · intro c e c' _ he hs
    exact HttpConnection.step_prompt he hs
  · intro c e c' _ he hs
    obtain ⟨harmed, hfails⟩ := Classical.not_imp.mp he
    exact HttpConnection.not_prompt_of_readFails harmed (by simpa using hfails) hs
  · cases socket <;> exact nofun

def servedRun : List HttpConnectionEvent :=
  [.readSome .success, .read .more, .readSome .success,
    .read (.done (.ok ⟨"GET", "/time", 11⟩)), .writeSome 40, .write, .writeSome 78, .write,
    .deadline]

theorem http_connection_prompt_run :
    (httpConnection Response.text).StatesMeet HttpConnection.Prompt
      (HttpConnection.construct (some 0)).start servedRun := by
  obtain ⟨u, hu⟩ : ∃ u, (httpConnection Response.text).run
      (HttpConnection.construct (some 0)).start servedRun = some u :=
    Option.isSome_iff_exists.mp (by decide +kernel)
  exact (http_connection_prompt_iff hu).mpr (System.stepsMeet_of_runBy (by decide +kernel))

/-- The client closes without a request: nothing is left to do, and the deadline
keeps the connection for its sixty seconds. -/
theorem http_connection_lingers :
    ¬ ∀ (serialise : Response → Bytes) (c : HttpConnection),
      (httpConnection serialise).Reachable c → c.Prompt := by
  intro h
  obtain ⟨c, hc, hq⟩ := (httpConnection Response.text).exists_reachable_of_run
    (HttpConnection.construct (some 0)).start [.readSome .eof, .read .more]
    (fun c => c.io = .ended && c.deadline = .armed) ⟨_, rfl⟩ (by decide +kernel)
  simp only [Bool.and_eq_true, decide_eq_true_eq] at hq
  exact h Response.text c hc hq.1 hq.2

end

end ScratchServers
