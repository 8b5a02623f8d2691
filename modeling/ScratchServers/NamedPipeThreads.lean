import ScratchServers.NamedPipe

/-! What the two threads of `namedpipe.cpp` do to each other: the message arrives
exactly when the server has asked for its client before the client closes. -/

namespace ScratchServers

/-- The pipe that the thread still has to close. -/
def ServerThread.pipe : ServerThread → Option Nat
  | .constructing h | .assigning h _ | .connecting h _ | .waiting h _ | .reading h _ => some h
  | .closingPipe h _ _ => h
  | _ => none

def ServerThread.port : ServerThread → Option Nat
  | .assigning _ port | .connecting _ port | .waiting _ port | .reading _ port
  | .closingPipe _ port _ | .closingPort port _ => some port
  | _ => none

def ServerThread.print : ServerThread → Option ServerPrint
  | .closingPipe _ _ print | .closingPort _ print | .returned print => some print
  | _ => none

def ServerThread.text (s : ServerThread) : Option Bytes :=
  match s.print with
  | some (.data text) => some text
  | _ => none

/-- `ConnectNamedPipe` has been called, and nothing has been thrown. -/
def ServerThread.called : ServerThread → Bool
  | .waiting _ _ | .reading _ _ => true
  | s => s.text.isSome

def ClientThread.pipe : ClientThread → Option Nat
  | .constructing h | .assigning h _ | .writing h _ | .closing h _ => some h
  | _ => none

def ClientThread.port : ClientThread → Option Nat
  | .assigning _ port | .writing _ port | .closing _ port | .closingPipe _ port
  | .closingPort port => some port
  | _ => none

def ClientThread.written : ClientThread → Bool
  | .closing _ _ | .closingPipe _ _ | .closingPort _ | .returned => true
  | _ => false

/-- `CloseHandle` has been called. -/
def ClientThread.closed : ClientThread → Bool
  | .closingPipe _ _ | .closingPort _ | .returned => true
  | _ => false

/-- The destructor of the stream handle has closed the value once more. -/
def ClientThread.closedTwice : ClientThread → Bool
  | .closingPort _ | .returned => true
  | _ => false

/-- Which thread has which handle open. The server may lose its port to the second
close of the client, and then it has not asked for the client yet. -/
structure Ownership (t : HandleTable HandleOwner) (s : ServerThread) (c : ClientThread) : Prop where
  early : s = .creating → c = .opening ∧ ∀ h, ¬ t.Holds .serverPipe h
  serverPipe : ∀ h, s.pipe = some h → t.Holds .serverPipe h
  serverPort : ∀ port, t.Holds .serverPort port → s.port = some port
  lost : ∀ port, s.port = some port → ¬ t.Holds .serverPort port →
    t.Free port ∧ c.closedTwice = true ∧ s.called = false
  clientPipe : ∀ h, t.Holds .clientPipe h ↔ c.pipe = some h
  clientPort : ∀ port, t.Holds .clientPort port ↔ c.port = some port
  reused : ∀ x port, c = .closingPipe x port → ∃ h, x = some h ∧
    ∀ o, t.Holds o h → o = .serverPort ∧ s.called = false

section

variable {t : HandleTable HandleOwner} {s : ServerThread} {c : ClientThread}

theorem ClientThread.closed_of_closedTwice (h : c.closedTwice = true) : c.closed = true := by
  cases c <;> first | rfl | exact absurd h nofun

theorem ClientThread.not_closed_of_pipe {h : Nat} (hpipe : c.pipe = some h) : c.closed = false := by
  cases c <;> first | rfl | exact absurd hpipe nofun

theorem Ownership.serverMove {n : ServerThread} (h : Ownership t s c) (hearly : n ≠ .creating)
    (hpipe : ∀ x, n.pipe = some x → s.pipe = some x) (hport : n.port = s.port)
    (hcalled : n.called = true → s.called = true ∨ c.closed = false) : Ownership t n c where
  early hcreating := absurd hcreating hearly
  serverPipe x hx := h.serverPipe x (hpipe x hx)
  serverPort port hheld := by
    rw [hport]
    exact h.serverPort port hheld
  lost port hlost hno := by
    obtain ⟨hfree, htwice, hno⟩ := h.lost port (hport ▸ hlost) hno
    refine ⟨hfree, htwice, ?_⟩
    by_contra hyes
    rcases hcalled (Bool.not_eq_false _ ▸ hyes) with hbefore | hopen
    · exact absurd (hno.symm.trans hbefore) nofun
    · exact absurd (hopen.symm.trans (ClientThread.closed_of_closedTwice htwice)) nofun
  clientPipe := h.clientPipe
  clientPort := h.clientPort
  reused x port hc := by
    obtain ⟨y, rfl, hall⟩ := h.reused x port hc
    refine ⟨y, rfl, fun o ho => ⟨(hall o ho).1, ?_⟩⟩
    by_contra hyes
    rcases hcalled (Bool.not_eq_false _ ▸ hyes) with hbefore | hopen
    · exact absurd ((hall o ho).2.symm.trans hbefore) nofun
    · rw [hc] at hopen
      exact absurd hopen nofun

theorem Ownership.clientMove {n : ClientThread} (h : Ownership t s c) (hclosed : n.closed = false)
    (hearly : c ≠ .opening) (hbefore : c.closed = false) (hpipe : n.pipe = c.pipe)
    (hport : n.port = c.port) : Ownership t s n where
  early hcreating := absurd (h.early hcreating).1 hearly
  serverPipe := h.serverPipe
  serverPort := h.serverPort
  lost port hs hno := by
    obtain ⟨_, htwice, _⟩ := h.lost port hs hno
    exact absurd (hbefore.symm.trans (ClientThread.closed_of_closedTwice htwice)) nofun
  clientPipe x := by rw [hpipe, h.clientPipe]
  clientPort port := by rw [hport, h.clientPort]
  reused x port hc := by
    rw [hc] at hclosed
    exact absurd hclosed nofun

theorem Ownership.create (h : Ownership t .creating c) {x : Nat} (hfree : t.Free x) :
    Ownership (t.assign .serverPipe x hfree) (.constructing x) c where
  early := nofun
  serverPipe y hy := by
    obtain rfl : x = y := Option.some.inj hy
    exact (HandleTable.holds_assign hfree).mpr (.inr ⟨rfl, rfl⟩)
  serverPort port hheld :=
    h.serverPort port ((HandleTable.holds_assign_ne hfree (by decide)).mp hheld)
  lost := nofun
  clientPipe y := (HandleTable.holds_assign_ne hfree (by decide)).trans (h.clientPipe y)
  clientPort y := (HandleTable.holds_assign_ne hfree (by decide)).trans (h.clientPort y)
  reused y port hc := by
    rw [(h.early rfl).1] at hc
    exact absurd hc nofun

theorem Ownership.construct {x port : Nat} (h : Ownership t (.constructing x) c)
    (hfree : t.Free port) :
    Ownership (t.assign .serverPort port hfree) (.assigning x port) c where
  early := nofun
  serverPipe y hy := (HandleTable.holds_assign_ne hfree (by decide)).mpr (h.serverPipe y hy)
  serverPort q hheld := by
    rcases (HandleTable.holds_assign hfree).mp hheld with hheld | ⟨_, rfl⟩
    · exact absurd (h.serverPort q hheld) nofun
    · rfl
  lost q hq hno := by
    obtain rfl : port = q := Option.some.inj hq
    exact absurd ((HandleTable.holds_assign hfree).mpr (.inr ⟨rfl, rfl⟩)) hno
  clientPipe y := (HandleTable.holds_assign_ne hfree (by decide)).trans (h.clientPipe y)
  clientPort y := (HandleTable.holds_assign_ne hfree (by decide)).trans (h.clientPort y)
  reused y q hc := by
    obtain ⟨z, rfl, hall⟩ := h.reused y q hc
    refine ⟨z, rfl, fun o ho => ⟨?_, rfl⟩⟩
    rcases (HandleTable.holds_assign hfree).mp ho with ho | ⟨rfl, _⟩
    · exact (hall o ho).1
    · rfl

theorem Ownership.closeServerPipe {x port : Nat} {print : ServerPrint}
    (h : Ownership t (.closingPipe (some x) port print) c) :
    Ownership (t.close x) (.closingPort port print) c := by
  have hheld := h.serverPipe x rfl
  refine ⟨nofun, nofun, ?_, ?_, ?_, ?_, ?_⟩
  · intro q hq
    exact h.serverPort q (HandleTable.holds_close.mp hq).1
  · intro q hq hno
    obtain ⟨hfree, htwice, hcalled⟩ := h.lost q hq
      fun hq => hno ((hheld.close_ne (by decide)).mpr hq)
    exact ⟨hfree.close, htwice, hcalled⟩
  · exact fun y => (hheld.close_ne (by decide)).trans (h.clientPipe y)
  · exact fun y => (hheld.close_ne (by decide)).trans (h.clientPort y)
  · intro y q hc
    obtain ⟨z, rfl, hall⟩ := h.reused y q hc
    exact ⟨z, rfl, fun o ho => hall o (HandleTable.holds_close.mp ho).1⟩

theorem Ownership.closeServerPort {port : Nat} {print : ServerPrint}
    (h : Ownership t (.closingPort port print) c) :
    Ownership (t.close port) (.returned print) c := by
  have hkeep : ∀ o y, o ≠ .serverPort → ((t.close port).Holds o y ↔ t.Holds o y) := by
    intro o y ho
    by_cases hheld : t.Holds .serverPort port
    · exact hheld.close_ne ho
    · rw [(h.lost port rfl hheld).1.close_eq]
  refine ⟨nofun, nofun, ?_, nofun, ?_, ?_, ?_⟩
  · intro q hq
    obtain ⟨hq, hne⟩ := HandleTable.holds_close.mp hq
    have hport := Option.some.inj (h.serverPort q hq)
    exact absurd hport.symm hne
  · exact fun y => (hkeep _ y (by decide)).trans (h.clientPipe y)
  · exact fun y => (hkeep _ y (by decide)).trans (h.clientPort y)
  · intro y q hc
    obtain ⟨z, rfl, hall⟩ := h.reused y q hc
    exact ⟨z, rfl, fun o ho => hall o (HandleTable.holds_close.mp ho).1⟩

theorem Ownership.openClient {x : Nat} (h : Ownership t s .opening) (hfree : t.Free x)
    (hserver : ∃ y, t.Holds .serverPipe y) :
    Ownership (t.assign .clientPipe x hfree) s (.constructing x) where
  early hcreating := by
    obtain ⟨y, hy⟩ := hserver
    exact absurd hy ((h.early hcreating).2 y)
  serverPipe y hy := (HandleTable.holds_assign_ne hfree (by decide)).mpr (h.serverPipe y hy)
  serverPort q hq := h.serverPort q ((HandleTable.holds_assign_ne hfree (by decide)).mp hq)
  lost q hq hno := by
    obtain ⟨_, htwice, _⟩ := h.lost q hq
      fun hq => hno ((HandleTable.holds_assign_ne hfree (by decide)).mpr hq)
    exact absurd htwice nofun
  clientPipe y := by
    have hbefore : ¬ t.Holds .clientPipe y := fun hy => nomatch (h.clientPipe y).mp hy
    simp [HandleTable.holds_assign, hbefore, ClientThread.pipe, eq_comm]
  clientPort y := (HandleTable.holds_assign_ne hfree (by decide)).trans (h.clientPort y)
  reused := nofun

theorem Ownership.constructClient {x port : Nat} (h : Ownership t s (.constructing x))
    (hfree : t.Free port) : Ownership (t.assign .clientPort port hfree) s (.assigning x port) where
  early hcreating := absurd (h.early hcreating).1 nofun
  serverPipe y hy := (HandleTable.holds_assign_ne hfree (by decide)).mpr (h.serverPipe y hy)
  serverPort q hq := h.serverPort q ((HandleTable.holds_assign_ne hfree (by decide)).mp hq)
  lost q hq hno := by
    obtain ⟨_, htwice, _⟩ := h.lost q hq
      fun hq => hno ((HandleTable.holds_assign_ne hfree (by decide)).mpr hq)
    exact absurd htwice nofun
  clientPipe y := (HandleTable.holds_assign_ne hfree (by decide)).trans (h.clientPipe y)
  clientPort y := by
    have hbefore : ¬ t.Holds .clientPort y := fun hy => nomatch (h.clientPort y).mp hy
    simp [HandleTable.holds_assign, hbefore, ClientThread.port, eq_comm]
  reused := nofun

theorem Ownership.closeHandle {x port : Nat} (h : Ownership t s (.closing x port)) :
    Ownership (t.close x) s (.closingPipe (some x) port) := by
  have hheld := (h.clientPipe x).mpr rfl
  refine ⟨?_, ?_, ?_, ?_, ?_, ?_, ?_⟩
  · intro hcreating
    exact absurd (h.early hcreating).1 nofun
  · exact fun y hy => (hheld.close_ne (by decide)).mpr (h.serverPipe y hy)
  · exact fun q hq => h.serverPort q (HandleTable.holds_close.mp hq).1
  · intro q hq hno
    obtain ⟨_, htwice, _⟩ := h.lost q hq fun hq => hno ((hheld.close_ne (by decide)).mpr hq)
    exact absurd htwice nofun
  · intro y
    rw [HandleTable.holds_close, h.clientPipe]
    simp [ClientThread.pipe, eq_comm]
  · exact fun y => (hheld.close_ne (by decide)).trans (h.clientPort y)
  · rintro _ _ ⟨⟩
    exact ⟨x, rfl, fun o ho => absurd rfl (HandleTable.holds_close.mp ho).2⟩

/-- The second close of the value takes the server's port away where the server has
got the value in between. -/
theorem Ownership.closeAgain {x port : Nat} (h : Ownership t s (.closingPipe (some x) port)) :
    Ownership (t.close x) s (.closingPort port) := by
  obtain ⟨_, ⟨⟩, hall⟩ := h.reused _ _ rfl
  have hkeep : ∀ o y, o ≠ .serverPort → ((t.close x).Holds o y ↔ t.Holds o y) := by
    intro o y ho
    rw [HandleTable.holds_close, and_iff_left_iff_imp]
    rintro hy rfl
    exact ho (hall o hy).1
  refine ⟨?_, ?_, ?_, ?_, ?_, ?_, nofun⟩
  · intro hcreating
    exact absurd (h.early hcreating).1 nofun
  · exact fun y hy => (hkeep _ y (by decide)).mpr (h.serverPipe y hy)
  · exact fun q hq => h.serverPort q (HandleTable.holds_close.mp hq).1
  · intro q hq hno
    by_cases hheld : t.Holds .serverPort q
    · have hqx : q = x := by
        by_contra hne
        exact hno (HandleTable.holds_close.mpr ⟨hheld, hne⟩)
      subst hqx
      exact ⟨HandleTable.free_close_self, rfl, (hall _ hheld).2⟩
    · exact absurd (h.lost q hq hheld).2.1 nofun
  · exact fun y => (hkeep _ y (by decide)).trans (h.clientPipe y)
  · exact fun y => (hkeep _ y (by decide)).trans (h.clientPort y)

theorem Ownership.closeClientPort {port : Nat} (h : Ownership t s (.closingPort port)) :
    Ownership (t.close port) s .returned := by
  have hheld := (h.clientPort port).mpr rfl
  refine ⟨?_, ?_, ?_, ?_, ?_, ?_, nofun⟩
  · intro hcreating
    exact absurd (h.early hcreating).1 nofun
  · exact fun y hy => (hheld.close_ne (by decide)).mpr (h.serverPipe y hy)
  · exact fun q hq => h.serverPort q (HandleTable.holds_close.mp hq).1
  · intro q hq hno
    obtain ⟨hfree, _, hcalled⟩ := h.lost q hq
      fun hq => hno ((hheld.close_ne (by decide)).mpr hq)
    exact ⟨hfree.close, rfl, hcalled⟩
  · exact fun y => (hheld.close_ne (by decide)).trans (h.clientPipe y)
  · intro y
    rw [HandleTable.holds_close, h.clientPort]
    simp [ClientThread.port, eq_comm]

end

/-- The message is on its way from the write of the client to the read of the server. -/
structure NamedPipe.Sound (w : NamedPipe) : Prop where
  owned : Ownership w.handles w.server w.client
  listens : ∀ h, w.handles.Holds .serverPipe h →
    w.server.pipe = some h ∨ w.server.print = some .error
  errors : w.server.print = some .error → w.client.closedTwice = true
  unwritten : w.client.pipe ≠ none → w.client.written = false → w.server.pipe ≠ none
  letIn : w.server.called = true → w.client = .opening → ∃ h port, w.server = .waiting h port
  bytes : w.bytes = if w.client.written = true ∧ w.server.text = none then clientData else []
  print : ∀ text, w.server.text = some text → text = helloFromClient ∧ w.client.written = true

section

variable {w w' : NamedPipe}

theorem NamedPipe.isOpen_iff {o : HandleOwner} :
    w.isOpen o = true ↔ ∃ h, w.handles.Holds o h := by
  simp [isOpen, HandleTable.Holds]

theorem length_clientData : clientData.length = bufSize := by
  decide +kernel

/-- One read takes the whole message, which brings its own NUL with it. -/
theorem front_clientData (data : Buffer Byte bufSize) :
    (data.put 0 (clientData.take bufSize)).front (strlen (data.put 0 (clientData.take bufSize))) =
      helloFromClient := by
  have hwhole : clientData.take bufSize = clientData :=
    List.take_of_length_le (Nat.le_of_eq length_clientData)
  have hdrop : data.cells.drop bufSize = [] :=
    List.drop_of_length_le (Nat.le_of_eq data.length_cells)
  have hcells : (data.put 0 (clientData.take bufSize)).cells = clientData := by
    simp only [Buffer.put, List.take_zero, List.nil_append, hwhole, length_clientData, Nat.zero_add,
      hdrop, List.append_nil]
  rw [strlen, Buffer.front, hcells]
  decide +kernel

theorem clientData_ne_nil : clientData ≠ [] := by
  decide +kernel

theorem NamedPipe.Sound.isOpen_client (h : w.Sound) :
    w.isOpen .clientPipe = true ↔ w.client.pipe ≠ none := by
  rw [isOpen_iff, Option.ne_none_iff_exists']
  exact exists_congr h.owned.clientPipe

theorem ClientThread.written_of_pipe {c : ClientThread} (hopening : c ≠ .opening)
    (hpipe : c.pipe = none) : c.written = true := by
  cases c <;> simp_all [written, pipe]

theorem ClientThread.pipe_of_closedTwice {c : ClientThread} (h : c.closedTwice = true) :
    c.pipe = none := by
  cases c <;> simp_all [closedTwice, pipe]

/-- Another phase in which nothing has been read yet. -/
theorem NamedPipe.Sound.serverMove (h : w.Sound) {s : ServerThread}
    (howned : Ownership w.handles s w.client) (hpipe : s.pipe = w.server.pipe)
    (htext : s.text = w.server.text) (hprint : s.print = w.server.print)
    (hcalled : s.called = true → w.client = .opening → ∃ x port, s = .waiting x port) :
    ({ w with server := s } : NamedPipe).Sound where
  owned := howned
  listens x hx := by
    rw [hpipe, hprint]
    exact h.listens x hx
  errors herror := h.errors (hprint ▸ herror)
  unwritten hp hw := by
    rw [hpipe]
    exact h.unwritten hp hw
  letIn := hcalled
  bytes := by
    simp only [htext]
    exact h.bytes
  print text ht := h.print text (htext ▸ ht)

theorem NamedPipe.Sound.serverStep (h : w.Sound) {e : ServerThreadEvent}
    (hs : w.serverStep e = some w') : w'.Sound := by
  have howned := h.owned
  cases e with
  | create answer =>
    obtain ⟨hserver, ⟨x, hfree, rfl, rfl⟩ | ⟨code, rfl, rfl⟩⟩ := server_create.mp hs
    · rw [hserver] at howned
      have hbytes := h.bytes
      rw [hserver] at hbytes
      refine ⟨howned.create hfree, ?_, nofun, fun _ _ => nofun, nofun, hbytes, nofun⟩
      intro y hy
      rcases (HandleTable.holds_assign hfree).mp hy with hy | ⟨_, rfl⟩
      · exact absurd hy ((howned.early rfl).2 y)
      · exact .inl rfl
    · exact ⟨howned, h.listens, h.errors, h.unwritten, h.letIn, h.bytes, h.print⟩
  | construct port =>
    obtain ⟨x, hfree, hserver, rfl⟩ := server_construct.mp hs
    rw [hserver] at howned
    have hbytes := h.bytes
    rw [hserver] at hbytes
    refine ⟨howned.construct hfree, ?_, nofun, fun _ _ => nofun, nofun, hbytes, nofun⟩
    intro y hy
    have hbefore := h.listens y ((HandleTable.holds_assign_ne hfree (by decide)).mp hy)
    rw [hserver] at hbefore
    exact hbefore
  | assign =>
    obtain ⟨x, port, hserver, ⟨_, _, rfl⟩ | ⟨hno, rfl⟩⟩ := server_assign.mp hs
    · have hmoved := howned.serverMove (n := .connecting x port) nofun (by simp [hserver,
        ServerThread.pipe]) (by simp [hserver, ServerThread.port]) nofun
      exact h.serverMove hmoved (by rw [hserver]; rfl) (by rw [hserver]; rfl) (by rw [hserver]; rfl)
        nofun
    · have hheld := howned.serverPipe x (by rw [hserver]; rfl)
      obtain ⟨_, htwice, _⟩ :=
        howned.lost port (by rw [hserver]; rfl) fun hport => hno ⟨hheld, hport⟩
      have hmoved := howned.serverMove (n := .closingPipe none port .error) nofun nofun
        (by rw [hserver]; rfl) nofun
      have hbytes := h.bytes
      rw [hserver] at hbytes
      have hnone := ClientThread.pipe_of_closedTwice htwice
      refine ⟨hmoved, fun _ _ => .inr rfl, fun _ => htwice, fun hp => absurd hnone hp, nofun,
        hbytes, nofun⟩
  | connect =>
    obtain ⟨x, port, hserver, ⟨hopen, rfl⟩ | ⟨_, hopening, rfl⟩ | ⟨_, _, rfl⟩⟩ :=
      server_connect.mp hs
    · obtain ⟨y, hy⟩ := Option.ne_none_iff_exists'.mp (h.isOpen_client.mp hopen)
      have hmoved := howned.serverMove (n := .reading x port) nofun (by simp [hserver,
        ServerThread.pipe]) (by simp [hserver, ServerThread.port])
        fun _ => .inr (ClientThread.not_closed_of_pipe hy)
      refine h.serverMove hmoved (by rw [hserver]; rfl) (by rw [hserver]; rfl)
        (by rw [hserver]; rfl) fun _ hopening => ?_
      rw [hopening] at hy
      exact absurd hy nofun
    · have hmoved := howned.serverMove (n := .waiting x port) nofun (by simp [hserver,
        ServerThread.pipe]) (by simp [hserver, ServerThread.port])
        fun _ => .inr (by rw [hopening]; rfl)
      exact h.serverMove hmoved (by rw [hserver]; rfl) (by rw [hserver]; rfl)
        (by rw [hserver]; rfl) fun _ _ => ⟨x, port, rfl⟩
    · exact ⟨howned, h.listens, h.errors, h.unwritten, h.letIn, h.bytes, h.print⟩
  | connected =>
    obtain ⟨x, port, hserver, hopened, rfl⟩ := server_connected.mp hs
    have hmoved := howned.serverMove (n := .reading x port) nofun (by simp [hserver,
      ServerThread.pipe]) (by simp [hserver, ServerThread.port])
      fun _ => .inl (by rw [hserver]; rfl)
    exact h.serverMove hmoved (by rw [hserver]; rfl) (by rw [hserver]; rfl)
      (by rw [hserver]; rfl) fun _ hopening => absurd hopening hopened
  | read =>
    obtain ⟨x, port, hserver, _, hne, rfl⟩ := server_read.mp hs
    have htext : w.server.text = none := by rw [hserver]; rfl
    have hwritten : w.client.written = true := by
      by_contra hno
      exact hne (by rw [h.bytes, if_neg (fun hboth => hno hboth.1)])
    have hbytes : w.bytes = clientData := by rw [h.bytes, if_pos ⟨hwritten, htext⟩]
    have hempty : clientData.drop bufSize = [] :=
      List.drop_of_length_le (Nat.le_of_eq length_clientData)
    simp only [hbytes, front_clientData, hempty]
    have hmoved := howned.serverMove (n := .closingPipe (some x) port (.data helloFromClient))
      nofun (by simp [hserver, ServerThread.pipe]) (by simp [hserver, ServerThread.port])
      fun _ => .inl (by rw [hserver]; rfl)
    refine ⟨hmoved, ?_, nofun, fun _ hno => ?_, fun _ hopening => ?_, ?_, ?_⟩
    · intro y hy
      rcases h.listens y hy with hy | hy
      · rw [hserver] at hy
        exact .inl hy
      · rw [hserver] at hy
        exact absurd hy nofun
    · exact absurd (hwritten.symm.trans hno) nofun
    · rw [hopening] at hwritten
      exact absurd hwritten nofun
    · rw [if_neg (fun hboth => absurd hboth.2 nofun)]
    · intro text ht
      exact ⟨(Option.some.inj ht).symm, hwritten⟩
  | readFails =>
    obtain ⟨x, port, hserver, _, hempty, hclosed, rfl⟩ := server_readFails.mp hs
    have hopened : w.client ≠ .opening := by
      intro hopening
      obtain ⟨_, _, hwaiting⟩ := h.letIn (by rw [hserver]; rfl) hopening
      exact absurd (hserver.symm.trans hwaiting) nofun
    have hpipe : w.client.pipe = none := by
      by_contra hno
      exact absurd ((h.isOpen_client.mpr hno).symm.trans hclosed) nofun
    have hwritten := ClientThread.written_of_pipe hopened hpipe
    have htext : w.server.text = none := by rw [hserver]; rfl
    have hbytes : w.bytes = clientData := by rw [h.bytes, if_pos ⟨hwritten, htext⟩]
    exact absurd (hbytes.symm.trans hempty) clientData_ne_nil
  | runFails =>
    obtain ⟨x, port, hserver, hno, rfl⟩ := server_runFails.mp hs
    obtain ⟨_, _, hcalled⟩ := howned.lost port (by rw [hserver]; rfl) hno
    rw [hserver] at hcalled
    exact absurd hcalled nofun
  | closePipe =>
    obtain ⟨x, port, print, hserver, rfl⟩ := server_closePipe.mp hs
    have hbytes := h.bytes
    have hprint := h.print
    have herrors := h.errors
    have hletIn := h.letIn
    have hlistens := h.listens
    rw [hserver] at howned hbytes hprint herrors hletIn hlistens
    have hclient : w.client.pipe ≠ none → w.client.written = true := by
      intro hpipe
      cases print with
      | data text => exact (hprint text rfl).2
      | error => exact absurd (ClientThread.pipe_of_closedTwice (herrors rfl)) hpipe
    have hunwritten : w.client.pipe ≠ none → w.client.written = false →
        (ServerThread.closingPort port print).pipe ≠ none := by
      intro hpipe hno
      exact absurd ((hclient hpipe).symm.trans hno) nofun
    have hopened : (ServerThread.closingPort port print).called = true → w.client = .opening →
        ∃ y q, ServerThread.closingPort port print = .waiting y q := by
      intro hcalled hopening
      obtain ⟨_, _, hwaiting⟩ := hletIn hcalled hopening
      exact absurd hwaiting nofun
    cases x with
    | none =>
      have hmoved := howned.serverMove (n := .closingPort port print) nofun nofun rfl fun hcalled =>
        .inl hcalled
      refine ⟨hmoved, ?_, herrors, hunwritten, hopened, hbytes, hprint⟩
      exact fun y hy => (hlistens y hy).imp_left nofun
    | some x =>
      refine ⟨howned.closeServerPipe, ?_, herrors, hunwritten, hopened, hbytes, hprint⟩
      intro y hy
      obtain ⟨hy, hne⟩ := HandleTable.holds_close.mp hy
      rcases hlistens y hy with hsame | herror
      · exact absurd (Option.some.inj hsame).symm hne
      · exact .inr herror
  | closePort =>
    obtain ⟨port, print, hserver, rfl⟩ := server_closePort.mp hs
    have hbytes := h.bytes
    have hletIn := h.letIn
    have hlistens := h.listens
    have hunwritten := h.unwritten
    have hprint := h.print
    have herrors := h.errors
    rw [hserver] at howned hbytes hprint herrors hletIn hlistens hunwritten
    refine ⟨howned.closeServerPort, ?_, herrors, hunwritten, ?_, hbytes, hprint⟩
    · intro y hy
      exact hlistens y (HandleTable.holds_close.mp hy).1
    · intro hcalled hopening
      obtain ⟨_, _, hwaiting⟩ := hletIn hcalled hopening
      exact absurd hwaiting nofun

/-- Another phase in which the client has not come to its write, or is past it. -/
theorem NamedPipe.Sound.clientMove (h : w.Sound) {t : HandleTable HandleOwner} {c : ClientThread}
    (howned : Ownership t w.server c)
    (hkeep : ∀ y, t.Holds .serverPipe y → w.handles.Holds .serverPipe y)
    (htwice : w.client.closedTwice = true → c.closedTwice = true) (hopened : c ≠ .opening)
    (hpipe : c.pipe ≠ none → c.written = false → w.server.pipe ≠ none)
    (hwritten : c.written = w.client.written) :
    ({ w with handles := t, client := c } : NamedPipe).Sound where
  owned := howned
  listens y hy := h.listens y (hkeep y hy)
  errors herror := htwice (h.errors herror)
  unwritten := hpipe
  letIn _ hopening := absurd hopening hopened
  bytes := by
    simp only [hwritten]
    exact h.bytes
  print text ht := by
    simp only [hwritten]
    exact h.print text ht

theorem NamedPipe.Sound.clientStep (h : w.Sound) {e : ClientThreadEvent}
    (hs : w.clientStep e = some w') : w'.Sound := by
  have howned := h.owned
  cases e with
  | openFails =>
    obtain ⟨_, _, rfl⟩ := client_openFails.mp hs
    exact h
  | «open» x =>
    obtain ⟨hfree, hclient, hopen, rfl⟩ := client_open.mp hs
    obtain ⟨y, hy⟩ := isOpen_iff.mp hopen
    rw [hclient] at howned
    have hpipe : w.server.pipe ≠ none := by
      rcases h.listens y hy with hpipe | herror
      · rw [hpipe]
        exact nofun
      · have htwice := h.errors herror
        rw [hclient] at htwice
        exact absurd htwice nofun
    refine h.clientMove (howned.openClient hfree ⟨y, hy⟩) ?_ (fun htwice => ?_) nofun
      (fun _ _ => hpipe) (by rw [hclient]; rfl)
    · exact fun z hz => (HandleTable.holds_assign_ne hfree (by decide)).mp hz
    · rw [hclient] at htwice
      exact absurd htwice nofun
  | construct port =>
    obtain ⟨x, hfree, hclient, rfl⟩ := client_construct.mp hs
    have hunwritten := h.unwritten
    rw [hclient] at howned hunwritten
    refine h.clientMove (howned.constructClient hfree) ?_ (fun htwice => ?_) nofun
      (fun _ _ => hunwritten nofun rfl) (by rw [hclient]; rfl)
    · exact fun z hz => (HandleTable.holds_assign_ne hfree (by decide)).mp hz
    · rw [hclient] at htwice
      exact absurd htwice nofun
  | assign =>
    obtain ⟨x, port, hclient, ⟨_, _, rfl⟩ | ⟨hno, _⟩⟩ := client_assign.mp hs
    · have hmoved := howned.clientMove (n := .writing x port) rfl (by rw [hclient]; nofun)
        (by rw [hclient]; rfl) (by rw [hclient]; rfl) (by rw [hclient]; rfl)
      have hunwritten := h.unwritten
      rw [hclient] at hunwritten
      refine h.clientMove hmoved (fun _ => id) (fun htwice => ?_) nofun
        (fun _ _ => hunwritten nofun rfl) (by rw [hclient]; rfl)
      rw [hclient] at htwice
      exact absurd htwice nofun
    · have hx := (howned.clientPipe x).mpr (by rw [hclient]; rfl)
      have hport := (howned.clientPort port).mpr (by rw [hclient]; rfl)
      exact absurd ⟨hx, hport⟩ hno
  | write =>
    obtain ⟨x, port, hclient, ⟨_, rfl⟩ | ⟨hno, _⟩⟩ := client_write.mp hs
    · have hmoved := howned.clientMove (n := .closing x port) rfl (by rw [hclient]; nofun)
        (by rw [hclient]; rfl) (by rw [hclient]; rfl) (by rw [hclient]; rfl)
      have hunwritten : w.client.written = false := by rw [hclient]; rfl
      have htext : w.server.text = none := by
        rw [Option.eq_none_iff_forall_ne_some]
        intro text ht
        exact absurd ((h.print text ht).2.symm.trans hunwritten) nofun
      have hopen : w.isOpen .serverPipe = true := by
        obtain ⟨y, hy⟩ := Option.ne_none_iff_exists'.mp
          (h.unwritten (by rw [hclient]; nofun) hunwritten)
        exact isOpen_iff.mpr ⟨y, howned.serverPipe y hy⟩
      have hbytes : w.bytes = [] := by
        rw [h.bytes, if_neg fun hboth => absurd (hboth.1.symm.trans hunwritten) nofun]
      refine ⟨hmoved, h.listens, fun herror => ?_, nofun, nofun, ?_, fun text ht => ?_⟩
      · have htwice := h.errors herror
        rw [hclient] at htwice
        exact absurd htwice nofun
      · simp only [hopen, if_true, hbytes, List.nil_append]
        rw [if_pos ⟨rfl, htext⟩]
      · exact absurd (htext.symm.trans ht) nofun
    · exact absurd ((howned.clientPort port).mpr (by rw [hclient]; rfl)) hno
  | closeHandle =>
    obtain ⟨x, port, hclient, rfl⟩ := client_closeHandle.mp hs
    rw [hclient] at howned
    refine h.clientMove howned.closeHandle (fun y hy => (HandleTable.holds_close.mp hy).1)
      (fun htwice => ?_) nofun (fun hno => absurd rfl hno) (by rw [hclient]; rfl)
    rw [hclient] at htwice
    exact absurd htwice nofun
  | closePipe =>
    obtain ⟨x, port, hclient, rfl⟩ := client_closePipe.mp hs
    rw [hclient] at howned
    obtain ⟨y, rfl, _⟩ := howned.reused x port rfl
    exact h.clientMove howned.closeAgain (fun y hy => (HandleTable.holds_close.mp hy).1)
      (fun _ => rfl) nofun (fun hno => absurd rfl hno) (by rw [hclient]; rfl)
  | closePort =>
    obtain ⟨port, hclient, rfl⟩ := client_closePort.mp hs
    rw [hclient] at howned
    exact h.clientMove howned.closeClientPort (fun y hy => (HandleTable.holds_close.mp hy).1)
      (fun _ => rfl) nofun (fun hno => absurd rfl hno) (by rw [hclient]; rfl)

theorem NamedPipe.Sound.step (h : w.Sound) {e : NamedPipeEvent} (hs : w.step e = some w') :
    w'.Sound := by
  cases e with
  | server e => exact h.serverStep (step_server.mp hs).2
  | client e => exact h.clientStep (step_client.mp hs).2

theorem NamedPipe.sound_start (data : Buffer Byte bufSize) : (start data).Sound where
  owned := ⟨fun _ => ⟨rfl, fun _ => HandleTable.holds_empty⟩, nofun,
    fun _ hno => absurd hno HandleTable.holds_empty, nofun,
    fun _ => iff_of_false HandleTable.holds_empty nofun,
    fun _ => iff_of_false HandleTable.holds_empty nofun, nofun⟩
  listens _ hno := absurd hno HandleTable.holds_empty
  errors := nofun
  unwritten hno := absurd rfl hno
  letIn := nofun
  bytes := rfl
  print := nofun

theorem namedPipe_sound (h : namedPipe.Reachable w) : w.Sound := by
  refine h.invariant ?_ fun w e w' hsound hs => hsound.step hs
  rintro w ⟨data, rfl⟩
  exact NamedPipe.sound_start data

/-- The second close of the client hits a handle that is open exactly when the
server has constructed its `io_context` with the value since the first close. -/
theorem named_pipe_closes_foreign_iff (h : namedPipe.Reachable w) {x : Option Nat} {port : Nat}
    (hc : w.client = .closingPipe x port) :
    ∃ y, x = some y ∧ ((∃ o, w.handles.Holds o y) ↔ w.server.port = some y) := by
  have howned := (namedPipe_sound h).owned
  obtain ⟨y, rfl, hall⟩ := howned.reused x port hc
  refine ⟨y, rfl, ?_⟩
  constructor
  · rintro ⟨o, ho⟩
    obtain rfl := (hall o ho).1
    exact howned.serverPort y ho
  · intro hport
    by_contra hno
    have hfree : ¬ w.handles.Holds .serverPort y := fun ho => hno ⟨_, ho⟩
    obtain ⟨_, htwice, _⟩ := howned.lost y hport hfree
    rw [hc] at htwice
    exact absurd htwice nofun

/-- The server's `io_context` gets the value that the client has just closed. -/
def reusedRun : List NamedPipeEvent :=
  [.server (.create (.ok 4)), .client (.open 8), .client (.construct 12), .client .assign,
    .client .write, .client .closeHandle, .server (.construct 8), .server .assign]

theorem named_pipe_closes_foreign_run :
    ∃ w o, namedPipe.Reachable w ∧ w.client = .closingPipe (some 8) 12 ∧ w.handles.Holds o 8 := by
  obtain ⟨w, hw, hq⟩ := namedPipe.exists_reachable_of_run (.start (.filled 7)) reusedRun
    (fun w => w.client = .closingPipe (some 8) 12 ∧ w.server.port = some 8) ⟨_, rfl⟩
    (by decide +kernel)
  obtain ⟨hclient, hport⟩ := of_decide_eq_true hq
  obtain ⟨y, hy, hiff⟩ := named_pipe_closes_foreign_iff hw hclient
  obtain rfl := Option.some.inj hy
  obtain ⟨o, ho⟩ := hiff.mpr hport
  exact ⟨w, o, hw, hclient, ho⟩

end

end ScratchServers
