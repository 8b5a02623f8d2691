import ScratchServers.NamedPipeThreads

/-! How the program of `namedpipe.cpp` ends: both threads return, unless a pointer
is thrown, and the message is printed exactly when the client has not closed its
handle before the server has asked for it. -/

namespace ScratchServers

/-- The loop around `CreateFile` and `WaitNamedPipe` goes round once more. -/
def NamedPipeEvent.spins : NamedPipeEvent → Bool
  | .client .openFails => true
  | _ => false

def ServerThread.remaining : ServerThread → Nat
  | .creating => 8
  | .constructing _ => 7
  | .assigning _ _ => 6
  | .connecting _ _ => 5
  | .waiting _ _ => 4
  | .reading _ _ => 3
  | .closingPipe _ _ _ => 2
  | .closingPort _ _ => 1
  | .returned _ => 0

def ClientThread.remaining : ClientThread → Nat
  | .opening => 7
  | .constructing _ => 6
  | .assigning _ _ => 5
  | .writing _ _ => 4
  | .closing _ _ => 3
  | .closingPipe _ _ => 2
  | .closingPort _ => 1
  | .returned => 0

def NamedPipe.remaining (w : NamedPipe) : Nat :=
  if w.terminated then 0 else 1 + w.server.remaining + w.client.remaining

/-- The process has been terminated, or both threads are joined. -/
def NamedPipe.Finished (w : NamedPipe) : Prop :=
  w.terminated = true ∨ w.client = .returned ∧
    (w.server = .returned (.data helloFromClient) ∨ w.server = .returned .error)

section

variable {w w' : NamedPipe}

theorem NamedPipe.server_remaining {e : ServerThreadEvent} (hterm : w.terminated = false)
    (hs : w.serverStep e = some w') :
    w'.client = w.client ∧
      (w'.terminated = true ∨
        w'.terminated = false ∧ w'.server.remaining < w.server.remaining) := by
  cases e with
  | create answer =>
    obtain ⟨hserver, ⟨x, hfree, _, rfl⟩ | ⟨code, _, rfl⟩⟩ := server_create.mp hs
    · exact ⟨rfl, .inr ⟨hterm, by simp [hserver, ServerThread.remaining]⟩⟩
    · exact ⟨rfl, .inl rfl⟩
  | construct port =>
    obtain ⟨x, hfree, hserver, rfl⟩ := server_construct.mp hs
    exact ⟨rfl, .inr ⟨hterm, by simp [hserver, ServerThread.remaining]⟩⟩
  | assign =>
    obtain ⟨x, port, hserver, ⟨_, _, rfl⟩ | ⟨_, rfl⟩⟩ := server_assign.mp hs
    · exact ⟨rfl, .inr ⟨hterm, by simp [hserver, ServerThread.remaining]⟩⟩
    · exact ⟨rfl, .inr ⟨hterm, by simp [hserver, ServerThread.remaining]⟩⟩
  | connect =>
    obtain ⟨x, port, hserver, ⟨_, rfl⟩ | ⟨_, _, rfl⟩ | ⟨_, _, rfl⟩⟩ := server_connect.mp hs
    · exact ⟨rfl, .inr ⟨hterm, by simp [hserver, ServerThread.remaining]⟩⟩
    · exact ⟨rfl, .inr ⟨hterm, by simp [hserver, ServerThread.remaining]⟩⟩
    · exact ⟨rfl, .inl rfl⟩
  | connected =>
    obtain ⟨x, port, hserver, _, rfl⟩ := server_connected.mp hs
    exact ⟨rfl, .inr ⟨hterm, by simp [hserver, ServerThread.remaining]⟩⟩
  | read =>
    obtain ⟨x, port, hserver, _, _, rfl⟩ := server_read.mp hs
    exact ⟨rfl, .inr ⟨hterm, by simp [hserver, ServerThread.remaining]⟩⟩
  | readFails =>
    obtain ⟨x, port, hserver, _, _, _, rfl⟩ := server_readFails.mp hs
    exact ⟨rfl, .inr ⟨hterm, by simp [hserver, ServerThread.remaining]⟩⟩
  | runFails =>
    obtain ⟨x, port, hserver, _, rfl⟩ := server_runFails.mp hs
    exact ⟨rfl, .inr ⟨hterm, by simp [hserver, ServerThread.remaining]⟩⟩
  | closePipe =>
    obtain ⟨x, port, print, hserver, rfl⟩ := server_closePipe.mp hs
    exact ⟨rfl, .inr ⟨hterm, by simp [hserver, serverClose, ServerThread.remaining]⟩⟩
  | closePort =>
    obtain ⟨port, print, hserver, rfl⟩ := server_closePort.mp hs
    exact ⟨rfl, .inr ⟨hterm, by simp [hserver, serverClose, ServerThread.remaining]⟩⟩

theorem NamedPipe.client_remaining {e : ClientThreadEvent} (he : e ≠ .openFails)
    (hs : w.clientStep e = some w') :
    w'.server = w.server ∧ w'.terminated = w.terminated ∧
      w'.client.remaining < w.client.remaining := by
  cases e with
  | openFails => exact absurd rfl he
  | «open» x =>
    obtain ⟨_, hclient, _, rfl⟩ := client_open.mp hs
    exact ⟨rfl, rfl, by simp [hclient, ClientThread.remaining]⟩
  | construct port =>
    obtain ⟨x, _, hclient, rfl⟩ := client_construct.mp hs
    exact ⟨rfl, rfl, by simp [hclient, ClientThread.remaining]⟩
  | assign =>
    obtain ⟨x, port, hclient, ⟨_, _, rfl⟩ | ⟨_, rfl⟩⟩ := client_assign.mp hs
    · exact ⟨rfl, rfl, by simp [hclient, ClientThread.remaining]⟩
    · exact ⟨rfl, rfl, by simp [hclient, ClientThread.remaining]⟩
  | write =>
    obtain ⟨x, port, hclient, ⟨_, rfl⟩ | ⟨_, rfl⟩⟩ := client_write.mp hs
    · exact ⟨rfl, rfl, by simp [hclient, ClientThread.remaining]⟩
    · exact ⟨rfl, rfl, by simp [hclient, ClientThread.remaining]⟩
  | closeHandle =>
    obtain ⟨x, port, hclient, rfl⟩ := client_closeHandle.mp hs
    exact ⟨rfl, rfl, by simp [hclient, clientClose, ClientThread.remaining]⟩
  | closePipe =>
    obtain ⟨x, port, hclient, rfl⟩ := client_closePipe.mp hs
    exact ⟨rfl, rfl, by simp [hclient, clientClose, ClientThread.remaining]⟩
  | closePort =>
    obtain ⟨port, hclient, rfl⟩ := client_closePort.mp hs
    exact ⟨rfl, rfl, by simp [hclient, clientClose, ClientThread.remaining]⟩

theorem NamedPipe.step_remaining {e : NamedPipeEvent} (he : e.spins = false)
    (hs : w.step e = some w') : w'.remaining < w.remaining := by
  cases e with
  | server e =>
    obtain ⟨hterm, hs⟩ := step_server.mp hs
    obtain ⟨hclient, hended | ⟨hgoing, hlower⟩⟩ := server_remaining hterm hs
    · simp only [remaining, hterm, hended, if_true, Bool.false_eq_true, if_false]
      omega
    · simp only [remaining, hterm, hgoing, hclient, Bool.false_eq_true, if_false]
      omega
  | client e =>
    obtain ⟨hterm, hs⟩ := step_client.mp hs
    have hopen : e ≠ .openFails := by
      rintro rfl
      exact absurd he nofun
    obtain ⟨hserver, hsame, hlower⟩ := client_remaining hopen hs
    simp only [remaining, hsame, hterm, hserver, Bool.false_eq_true, if_false]
    omega

/-- A thread that has something to do can do it: only the client that still has to
open the pipe may have to wait, and so may the server that waits for it. -/
theorem NamedPipe.client_idle
    (hstuck : ∀ e t, e ≠ .openFails → w.clientStep e ≠ some t) :
    w.client = .opening ∨ w.client = .returned := by
  cases hclient : w.client with
  | opening => exact .inl rfl
  | returned => exact .inr rfl
  | constructing x =>
    obtain ⟨port, hfree⟩ := w.handles.exists_free
    exact (hstuck (.construct port) _ nofun (client_construct.mpr ⟨x, hfree, hclient, rfl⟩)).elim
  | assigning x port =>
    by_cases hheld : w.handles.Holds .clientPipe x ∧ w.handles.Holds .clientPort port
    · exact (hstuck .assign _ nofun (client_assign.mpr
        ⟨x, port, hclient, .inl ⟨hheld.1, hheld.2, rfl⟩⟩)).elim
    · exact (hstuck .assign _ nofun (client_assign.mpr
        ⟨x, port, hclient, .inr ⟨hheld, rfl⟩⟩)).elim
  | writing x port =>
    by_cases hheld : w.handles.Holds .clientPort port
    · exact (hstuck .write _ nofun (client_write.mpr ⟨x, port, hclient, .inl ⟨hheld, rfl⟩⟩)).elim
    · exact (hstuck .write _ nofun (client_write.mpr ⟨x, port, hclient, .inr ⟨hheld, rfl⟩⟩)).elim
  | closing x port =>
    exact (hstuck .closeHandle _ nofun (client_closeHandle.mpr ⟨x, port, hclient, rfl⟩)).elim
  | closingPipe x port =>
    exact (hstuck .closePipe _ nofun (client_closePipe.mpr ⟨x, port, hclient, rfl⟩)).elim
  | closingPort port =>
    exact (hstuck .closePort _ nofun (client_closePort.mpr ⟨port, hclient, rfl⟩)).elim

theorem NamedPipe.server_idle (hstuck : ∀ e t, w.serverStep e ≠ some t)
    (hclient : w.client = .opening ∨ w.client = .returned) (hsound : w.Sound) :
    (∃ x port, w.server = .waiting x port ∧ w.client = .opening) ∨
      ∃ print, w.server = .returned print := by
  cases hserver : w.server with
  | creating =>
    obtain ⟨x, hfree⟩ := w.handles.exists_free
    exact (hstuck (.create (.ok x)) _ (server_create.mpr
      ⟨hserver, .inl ⟨x, hfree, rfl, rfl⟩⟩)).elim
  | constructing x =>
    obtain ⟨port, hfree⟩ := w.handles.exists_free
    exact (hstuck (.construct port) _ (server_construct.mpr ⟨x, hfree, hserver, rfl⟩)).elim
  | assigning x port =>
    by_cases hheld : w.handles.Holds .serverPipe x ∧ w.handles.Holds .serverPort port
    · exact (hstuck .assign _ (server_assign.mpr
        ⟨x, port, hserver, .inl ⟨hheld.1, hheld.2, rfl⟩⟩)).elim
    · exact (hstuck .assign _ (server_assign.mpr ⟨x, port, hserver, .inr ⟨hheld, rfl⟩⟩)).elim
  | connecting x port =>
    by_cases hopen : w.isOpen .clientPipe = true
    · exact (hstuck .connect _ (server_connect.mpr ⟨x, port, hserver, .inl ⟨hopen, rfl⟩⟩)).elim
    · have hclosed := Bool.eq_false_iff.mpr hopen
      by_cases hopening : w.client = .opening
      · exact (hstuck .connect _ (server_connect.mpr
          ⟨x, port, hserver, .inr (.inl ⟨hclosed, hopening, rfl⟩)⟩)).elim
      · exact (hstuck .connect _ (server_connect.mpr
          ⟨x, port, hserver, .inr (.inr ⟨hclosed, hopening, rfl⟩)⟩)).elim
  | waiting x port =>
    by_cases hopening : w.client = .opening
    · exact .inl ⟨x, port, rfl, hopening⟩
    · exact (hstuck .connected _ (server_connected.mpr ⟨x, port, hserver, hopening, rfl⟩)).elim
  | reading x port =>
    by_cases hport : w.handles.Holds .serverPort port
    · by_cases hbytes : w.bytes = []
      · have hclosed : w.isOpen .clientPipe = false := by
          by_contra hno
          have hpipe := hsound.isOpen_client.mp (Bool.not_eq_false _ ▸ hno)
          rcases hclient with hclient | hclient <;> rw [hclient] at hpipe <;> exact hpipe rfl
        exact (hstuck .readFails _ (server_readFails.mpr
          ⟨x, port, hserver, hport, hbytes, hclosed, rfl⟩)).elim
      · exact (hstuck .read _ (server_read.mpr ⟨x, port, hserver, hport, hbytes, rfl⟩)).elim
    · exact (hstuck .runFails _ (server_runFails.mpr ⟨x, port, hserver, hport, rfl⟩)).elim
  | closingPipe x port print =>
    exact (hstuck .closePipe _ (server_closePipe.mpr ⟨x, port, print, hserver, rfl⟩)).elim
  | closingPort port print =>
    exact (hstuck .closePort _ (server_closePort.mpr ⟨port, print, hserver, rfl⟩)).elim
  | returned print => exact .inr ⟨print, rfl⟩

theorem NamedPipe.Sound.finished (h : w.Sound)
    (hstuck : ∀ e t, NamedPipeEvent.spins e = false → w.step e ≠ some t) : w.Finished := by
  by_cases hterm : w.terminated = true
  · exact .inl hterm
  · have hgoing := Bool.eq_false_iff.mpr hterm
    have hclient : ∀ e t, e ≠ .openFails → w.clientStep e ≠ some t := by
      intro e t he hs
      refine hstuck (.client e) t ?_ (step_client.mpr ⟨hgoing, hs⟩)
      cases e <;> first | rfl | exact absurd rfl he
    have hserver : ∀ e t, w.serverStep e ≠ some t := fun e t hs =>
      hstuck (.server e) t rfl (step_server.mpr ⟨hgoing, hs⟩)
    have hidle := client_idle hclient
    obtain ⟨x, port, hwaiting, hopening⟩ | ⟨print, hreturned⟩ := server_idle hserver hidle h
    · -- the instance of the pipe is there, so the client can open it
      have hopen : w.isOpen .serverPipe = true :=
        isOpen_iff.mpr ⟨x, h.owned.serverPipe x (by rw [hwaiting]; rfl)⟩
      obtain ⟨y, hfree⟩ := w.handles.exists_free
      exact (hclient (.open y) _ nofun (client_open.mpr ⟨hfree, hopening, hopen, rfl⟩)).elim
    · right
      cases print with
      | data text =>
        obtain ⟨rfl, hwritten⟩ := h.print text (by rw [hreturned]; rfl)
        refine ⟨hidle.resolve_left fun hopening => ?_, .inl hreturned⟩
        rw [hopening] at hwritten
        exact absurd hwritten nofun
      | error =>
        have htwice := h.errors (by rw [hreturned]; rfl)
        refine ⟨hidle.resolve_left fun hopening => ?_, .inr hreturned⟩
        rw [hopening] at htwice
        exact absurd htwice nofun

/-- Whatever the order in which the threads run: apart from the rounds of the loop
around `CreateFile`, the program takes at most 16 steps. -/
theorem named_pipe_completes (data : Buffer Byte bufSize) :
    (namedPipe.only fun _ e => e.spins = false).Completes NamedPipe.Finished 16 (.start data) := by
  refine System.completes_of_measure (m := namedPipe.only fun _ e => e.spins = false)
    (I := NamedPipe.Sound) (μ := NamedPipe.remaining) ?_ ?_ ?_ (NamedPipe.sound_start data)
  · intro w e w' hw hs
    exact hw.step (System.step_only.mp hs).2
  · intro w e w' _ hs
    obtain ⟨he, hs⟩ := System.step_only.mp hs
    exact NamedPipe.step_remaining he hs
  · intro w hw hstuck
    exact hw.finished (System.stuck_only.mp hstuck)

end

/-- `CreateNamedPipe` succeeds, and the client's `CloseHandle` comes after the
server's `ConnectNamedPipe`. -/
def ClosesInTime (w : NamedPipe) : NamedPipeEvent → Prop
  | .server (.create (.error _)) => False
  | .client .closeHandle => w.server.called = true
  | _ => True

instance (w : NamedPipe) (e : NamedPipeEvent) : Decidable (ClosesInTime w e) :=
  match e with
  | .server (.create (.error _)) => inferInstanceAs (Decidable False)
  | .client .closeHandle => inferInstanceAs (Decidable (w.server.called = true))
  | .server (.create (.ok _)) | .server (.construct _) | .server .assign | .server .connect
  | .server .connected | .server .read | .server .readFails | .server .runFails
  | .server .closePipe | .server .closePort | .client .openFails | .client (.open _)
  | .client (.construct _) | .client .assign | .client .write | .client .closePipe
  | .client .closePort => inferInstanceAs (Decidable True)

/-- The client has not closed before it was asked for. -/
structure NamedPipe.InTime (w : NamedPipe) : Prop where
  sound : w.Sound
  going : w.terminated = false
  called : w.client.closed = true → w.server.called = true

/-- The server has not asked for the client, and it can no longer be let in. -/
structure NamedPipe.TooLate (w : NamedPipe) : Prop where
  sound : w.Sound
  uncalled : w.server.called = false
  gone : w.terminated = true ∨ w.client.closed = true

section

variable {w w' : NamedPipe}

theorem ClientThread.closed_of_pipe {c : ClientThread} (hopening : c ≠ .opening)
    (hpipe : c.pipe = none) : c.closed = true := by
  cases c <;> simp_all [closed, pipe]

theorem NamedPipe.Sound.called_step (h : w.Sound) {e : ServerThreadEvent}
    (hcalled : w.server.called = true) (hs : w.serverStep e = some w') :
    w'.server.called = true ∧ w'.terminated = w.terminated := by
  cases e with
  | create answer =>
    rw [(server_create.mp hs).1] at hcalled
    exact absurd hcalled nofun
  | construct port =>
    obtain ⟨x, _, hserver, _⟩ := server_construct.mp hs
    rw [hserver] at hcalled
    exact absurd hcalled nofun
  | assign =>
    obtain ⟨x, port, hserver, _⟩ := server_assign.mp hs
    rw [hserver] at hcalled
    exact absurd hcalled nofun
  | connect =>
    obtain ⟨x, port, hserver, _⟩ := server_connect.mp hs
    rw [hserver] at hcalled
    exact absurd hcalled nofun
  | connected =>
    obtain ⟨x, port, _, _, rfl⟩ := server_connected.mp hs
    exact ⟨rfl, rfl⟩
  | read =>
    obtain ⟨x, port, _, _, _, rfl⟩ := server_read.mp hs
    exact ⟨rfl, rfl⟩
  | readFails =>
    obtain ⟨x, port, _, _, _, _, rfl⟩ := server_readFails.mp hs
    exact ⟨rfl, rfl⟩
  | runFails =>
    obtain ⟨x, port, hserver, hno, _⟩ := server_runFails.mp hs
    obtain ⟨_, _, huncalled⟩ := h.owned.lost port (by rw [hserver]; rfl) hno
    exact absurd (hcalled.symm.trans huncalled) nofun
  | closePipe =>
    obtain ⟨x, port, print, hserver, rfl⟩ := server_closePipe.mp hs
    rw [hserver] at hcalled
    exact ⟨hcalled, rfl⟩
  | closePort =>
    obtain ⟨port, print, hserver, rfl⟩ := server_closePort.mp hs
    rw [hserver] at hcalled
    exact ⟨hcalled, rfl⟩

/-- Before `ConnectNamedPipe`: it lets a client in that has not closed, and else the
process is terminated. -/
theorem NamedPipe.Sound.uncalled_step (h : w.Sound) {e : ServerThreadEvent}
    (huncalled : w.server.called = false) (hclosed : w.client.closed = true)
    (hs : w.serverStep e = some w') : w'.server.called = false := by
  cases e with
  | create answer =>
    obtain ⟨_, ⟨x, hfree, _, rfl⟩ | ⟨code, _, rfl⟩⟩ := server_create.mp hs
    · rfl
    · exact huncalled
  | construct port =>
    obtain ⟨x, _, _, rfl⟩ := server_construct.mp hs
    rfl
  | assign =>
    obtain ⟨x, port, _, ⟨_, _, rfl⟩ | ⟨_, rfl⟩⟩ := server_assign.mp hs
    · rfl
    · rfl
  | connect =>
    obtain ⟨x, port, _, ⟨hopen, _⟩ | ⟨_, hopening, _⟩ | ⟨_, _, rfl⟩⟩ := server_connect.mp hs
    · obtain ⟨y, hy⟩ := Option.ne_none_iff_exists'.mp (h.isOpen_client.mp hopen)
      exact absurd ((ClientThread.not_closed_of_pipe hy).symm.trans hclosed) nofun
    · rw [hopening] at hclosed
      exact absurd hclosed nofun
    · exact huncalled
  | connected =>
    obtain ⟨x, port, hserver, _, _⟩ := server_connected.mp hs
    rw [hserver] at huncalled
    exact absurd huncalled nofun
  | read =>
    obtain ⟨x, port, hserver, _, _, _⟩ := server_read.mp hs
    rw [hserver] at huncalled
    exact absurd huncalled nofun
  | readFails =>
    obtain ⟨x, port, hserver, _, _, _, _⟩ := server_readFails.mp hs
    rw [hserver] at huncalled
    exact absurd huncalled nofun
  | runFails =>
    obtain ⟨x, port, hserver, _, _⟩ := server_runFails.mp hs
    rw [hserver] at huncalled
    exact absurd huncalled nofun
  | closePipe =>
    obtain ⟨x, port, print, hserver, rfl⟩ := server_closePipe.mp hs
    rw [hserver] at huncalled
    exact huncalled
  | closePort =>
    obtain ⟨port, print, hserver, rfl⟩ := server_closePort.mp hs
    rw [hserver] at huncalled
    exact huncalled

theorem NamedPipe.Sound.closed_step (h : w.Sound) {e : ClientThreadEvent}
    (hs : w.clientStep e = some w') :
    w'.client.closed = true ↔ w.client.closed = true ∨ e = .closeHandle := by
  cases e with
  | openFails =>
    obtain ⟨_, _, rfl⟩ := client_openFails.mp hs
    simp
  | «open» x =>
    obtain ⟨_, hclient, _, rfl⟩ := client_open.mp hs
    simp [hclient, ClientThread.closed]
  | construct port =>
    obtain ⟨x, _, hclient, rfl⟩ := client_construct.mp hs
    simp [hclient, ClientThread.closed]
  | assign =>
    obtain ⟨x, port, hclient, ⟨_, _, rfl⟩ | ⟨hno, _⟩⟩ := client_assign.mp hs
    · simp [hclient, ClientThread.closed]
    · have hx := (h.owned.clientPipe x).mpr (by rw [hclient]; rfl)
      have hport := (h.owned.clientPort port).mpr (by rw [hclient]; rfl)
      exact absurd ⟨hx, hport⟩ hno
  | write =>
    obtain ⟨x, port, hclient, ⟨_, rfl⟩ | ⟨hno, _⟩⟩ := client_write.mp hs
    · simp [hclient, ClientThread.closed]
    · exact absurd ((h.owned.clientPort port).mpr (by rw [hclient]; rfl)) hno
  | closeHandle =>
    obtain ⟨x, port, _, rfl⟩ := client_closeHandle.mp hs
    simp [clientClose, ClientThread.closed]
  | closePipe =>
    obtain ⟨x, port, hclient, rfl⟩ := client_closePipe.mp hs
    simp [hclient, clientClose, ClientThread.closed]
  | closePort =>
    obtain ⟨port, hclient, rfl⟩ := client_closePort.mp hs
    simp [hclient, clientClose, ClientThread.closed]

/-- A pointer is thrown where the pipe is not created, and where the client has
opened and closed it before it was asked for. -/
theorem NamedPipe.throws_pointer {e : ServerThreadEvent} (hterm : w.terminated = false)
    (hs : w.serverStep e = some w') (hended : w'.terminated = true) :
    (∃ code, e = .create (.error code)) ∨
      w.isOpen .clientPipe = false ∧ w.client ≠ .opening := by
  have hno : w'.terminated = w.terminated → (∃ code, e = .create (.error code)) ∨
      w.isOpen .clientPipe = false ∧ w.client ≠ .opening := fun hsame =>
    absurd ((hsame.trans hterm).symm.trans hended) nofun
  cases e with
  | create answer =>
    obtain ⟨_, ⟨x, hfree, _, rfl⟩ | ⟨code, rfl, _⟩⟩ := server_create.mp hs
    · exact hno rfl
    · exact .inl ⟨code, rfl⟩
  | connect =>
    obtain ⟨x, port, _, ⟨_, rfl⟩ | ⟨_, _, rfl⟩ | ⟨hgone, hopened, _⟩⟩ := server_connect.mp hs
    · exact hno rfl
    · exact hno rfl
    · exact .inr ⟨hgone, hopened⟩
  | construct port =>
    obtain ⟨x, _, _, rfl⟩ := server_construct.mp hs
    exact hno rfl
  | assign =>
    obtain ⟨x, port, _, ⟨_, _, rfl⟩ | ⟨_, rfl⟩⟩ := server_assign.mp hs
    · exact hno rfl
    · exact hno rfl
  | connected =>
    obtain ⟨x, port, _, _, rfl⟩ := server_connected.mp hs
    exact hno rfl
  | read =>
    obtain ⟨x, port, _, _, _, rfl⟩ := server_read.mp hs
    exact hno rfl
  | readFails =>
    obtain ⟨x, port, _, _, _, _, rfl⟩ := server_readFails.mp hs
    exact hno rfl
  | runFails =>
    obtain ⟨x, port, _, _, rfl⟩ := server_runFails.mp hs
    exact hno rfl
  | closePipe =>
    obtain ⟨x, port, print, _, rfl⟩ := server_closePipe.mp hs
    exact hno rfl
  | closePort =>
    obtain ⟨port, print, _, rfl⟩ := server_closePort.mp hs
    exact hno rfl

theorem NamedPipe.InTime.serverStep (h : w.InTime) {e : ServerThreadEvent}
    (he : ClosesInTime w (.server e)) (hs : w.serverStep e = some w') (hsound : w'.Sound) :
    w'.InTime := by
  by_cases hcalled : w.server.called = true
  · obtain ⟨hcalled, hsame⟩ := h.sound.called_step hcalled hs
    exact ⟨hsound, hsame.trans h.going, fun _ => hcalled⟩
  · have hopen : w.client.closed = false := by
      by_contra hno
      exact hcalled (h.called (Bool.not_eq_false _ ▸ hno))
    obtain ⟨hclient, hended | ⟨hgoing, _⟩⟩ := server_remaining h.going hs
    · exfalso
      rcases throws_pointer h.going hs hended with ⟨code, rfl⟩ | ⟨hgone, hopened⟩
      · exact he
      · have hpipe : w.client.pipe = none := by
          by_contra hpipe
          exact absurd ((h.sound.isOpen_client.mpr hpipe).symm.trans hgone) nofun
        exact absurd ((ClientThread.closed_of_pipe hopened hpipe).symm.trans hopen) nofun
    · refine ⟨hsound, hgoing, fun hclosed => ?_⟩
      rw [hclient] at hclosed
      exact absurd (hopen.symm.trans hclosed) nofun

theorem NamedPipe.InTime.clientStep (h : w.InTime) {e : ClientThreadEvent}
    (he : ClosesInTime w (.client e)) (hs : w.clientStep e = some w') (hsound : w'.Sound) :
    w'.InTime := by
  have hclosed := h.sound.closed_step hs
  have hsame : w'.server = w.server ∧ w'.terminated = w.terminated := by
    by_cases hopen : e = .openFails
    · subst hopen
      obtain ⟨_, _, rfl⟩ := client_openFails.mp hs
      exact ⟨rfl, rfl⟩
    · obtain ⟨hserver, hterm, _⟩ := client_remaining hopen hs
      exact ⟨hserver, hterm⟩
  refine ⟨hsound, hsame.2.trans h.going, fun hyes => ?_⟩
  rw [hsame.1]
  rcases hclosed.mp hyes with hbefore | rfl
  · exact h.called hbefore
  · exact he

theorem NamedPipe.InTime.step (h : w.InTime) {e : NamedPipeEvent} (he : ClosesInTime w e)
    (hs : w.step e = some w') : w'.InTime := by
  have hsound := h.sound.step hs
  cases e with
  | server e => exact h.serverStep he (step_server.mp hs).2 hsound
  | client e => exact h.clientStep he (step_client.mp hs).2 hsound

theorem NamedPipe.InTime.too_late (h : w.InTime) {e : NamedPipeEvent} (he : ¬ ClosesInTime w e)
    (hs : w.step e = some w') : w'.TooLate := by
  have hsound := h.sound.step hs
  cases e with
  | server e =>
    obtain ⟨_, hs⟩ := step_server.mp hs
    cases e with
    | create answer =>
      obtain ⟨hserver, ⟨x, hfree, rfl, _⟩ | ⟨code, _, rfl⟩⟩ := server_create.mp hs
      · exact absurd trivial he
      · exact ⟨hsound, by rw [hserver]; rfl, .inl rfl⟩
    | _ => exact absurd trivial he
  | client e =>
    obtain ⟨_, hs⟩ := step_client.mp hs
    cases e with
    | closeHandle =>
      obtain ⟨x, port, _, rfl⟩ := client_closeHandle.mp hs
      exact ⟨hsound, Bool.eq_false_iff.mpr he, .inr rfl⟩
    | _ => exact absurd trivial he

theorem NamedPipe.TooLate.step (h : w.TooLate) {e : NamedPipeEvent} (hs : w.step e = some w') :
    w'.TooLate := by
  have hsound := h.sound.step hs
  have hterm : w.terminated = false := by
    by_contra hno
    simp [NamedPipe.step, Bool.not_eq_false _ ▸ hno] at hs
  have hclosed : w.client.closed = true := h.gone.resolve_left (by simp [hterm])
  cases e with
  | server e =>
    obtain ⟨_, hs⟩ := step_server.mp hs
    obtain ⟨hclient, _⟩ := server_remaining hterm hs
    refine ⟨hsound, h.sound.uncalled_step h.uncalled hclosed hs, .inr ?_⟩
    rw [hclient, hclosed]
  | client e =>
    obtain ⟨_, hs⟩ := step_client.mp hs
    have hopen : e ≠ .openFails := by
      rintro rfl
      obtain ⟨hopening, _, _⟩ := client_openFails.mp hs
      rw [hopening] at hclosed
      exact absurd hclosed (by decide)
    obtain ⟨hserver, _, _⟩ := client_remaining hopen hs
    refine ⟨hsound, by rw [hserver, h.uncalled], .inr ?_⟩
    exact (h.sound.closed_step hs).mpr (.inl hclosed)

/-- Of every run to its end: the message is printed if and only if the client has
closed its handle after `ConnectNamedPipe` was called. -/
theorem named_pipe_prints_iff {data : Buffer Byte bufSize} {ls : List NamedPipeEvent}
    (hr : namedPipe.run (.start data) ls = some w) (hstuck : namedPipe.Stuck w) :
    w.server = .returned (.data helloFromClient) ↔
      namedPipe.StepsMeet ClosesInTime (.start data) ls := by
  have hstart : (NamedPipe.start data).InTime := ⟨NamedPipe.sound_start data, rfl, nofun⟩
  have hend := System.stepsMeet_or_of_run (m := namedPipe) (J := NamedPipe.InTime)
    (D := NamedPipe.TooLate) (C := ClosesInTime)
    (fun _ _ _ h hl hs => h.step hl hs) (fun _ _ _ h hl hs => h.too_late hl hs)
    (fun _ _ _ h hs => h.step hs) hstart hr
  rcases hend with ⟨hmeet, hw⟩ | ⟨hno, hw⟩
  · refine iff_of_true ?_ hmeet
    rcases hw.sound.finished fun e _ _ => hstuck.not_step e with hterm | ⟨hclient, hs | hs⟩
    · exact absurd (hw.going.symm.trans hterm) nofun
    · exact hs
    · have hcalled := hw.called (by rw [hclient]; rfl)
      rw [hs] at hcalled
      exact absurd hcalled nofun
  · refine iff_of_false (fun hs => ?_) hno
    have huncalled := hw.uncalled
    rw [hs] at huncalled
    exact absurd huncalled nofun

/-- The client comes once the server waits. -/
def inTimeRun : List NamedPipeEvent :=
  [.client .openFails, .server (.create (.ok 4)), .server (.construct 8), .server .assign,
    .server .connect, .client (.open 12), .client (.construct 16), .server .connected,
    .client .assign, .client .write, .client .closeHandle, .server .read, .client .closePipe,
    .client .closePort, .server .closePipe, .server .closePort]

theorem NamedPipe.stuck_of_returned {print : ServerPrint} (hs : w.server = .returned print)
    (hc : w.client = .returned) : namedPipe.Stuck w := by
  intro e
  rw [Option.eq_none_iff_forall_ne_some]
  intro t ht
  have hlower : w.server.remaining = 0 ∧ w.client.remaining = 0 := by
    rw [hs, hc]
    exact ⟨rfl, rfl⟩
  cases e with
  | server e =>
    obtain ⟨hterm, ht⟩ := step_server.mp ht
    obtain ⟨_, hended | ⟨_, hlt⟩⟩ := server_remaining hterm ht
    · rcases throws_pointer hterm ht hended with ⟨code, rfl⟩ | ⟨_, _⟩
      · rw [(server_create.mp ht).1] at hs
        exact absurd hs (by simp)
      · cases e <;> simp [serverStep, hs] at ht
    · omega
  | client e =>
    obtain ⟨_, ht⟩ := step_client.mp ht
    by_cases hopen : e = .openFails
    · subst hopen
      rw [(client_openFails.mp ht).1] at hc
      exact absurd hc (by simp)
    · have hlt := (client_remaining hopen ht).2.2
      omega

theorem named_pipe_prints_iff_run : ∃ w, namedPipe.run (.start (.filled 7)) inTimeRun = some w ∧
    w.server = .returned (.data helloFromClient) := by
  obtain ⟨w, hw, hq⟩ := (Option.any_eq_true _ _).mp (show (namedPipe.run (.start (.filled 7))
    inTimeRun).any (fun w => w.client = .returned ∧ w.server.print.isSome ∧ w.server.port = none) =
      true by decide +kernel)
  obtain ⟨hclient, hprint, hport⟩ := of_decide_eq_true hq
  obtain ⟨print, hserver⟩ : ∃ print, w.server = .returned print := by
    cases hs : w.server <;> simp_all [ServerThread.print, ServerThread.port]
  have hstuck := NamedPipe.stuck_of_returned hserver hclient
  refine ⟨w, hw, (named_pipe_prints_iff hw hstuck).mpr ?_⟩
  exact System.stepsMeet_of_runBy (by decide +kernel)

end

end ScratchServers
