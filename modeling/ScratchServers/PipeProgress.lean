import ScratchServers.Family
import ScratchServers.PipeRefinement

/-! The named-pipe server serves every client: among clients that stay until they
have their answer, each gets the answer to the whole of its text, unless one of its
messages is longer than the read that meets it. -/

namespace ScratchServers

/-- Nobody leaves, and no call of `CreateNamedPipe` fails. -/
def PipeWorldEvent.stays : PipeWorldEvent → Bool
  | .leave _ | .create (.error _) => false
  | _ => true

/-- The same, with no client arriving. -/
def PipeWorldEvent.serves (e : PipeWorldEvent) : Bool :=
  match e with
  | .arrive _ => false
  | e => e.stays

def PipePeer.text (p : PipePeer) : Bytes :=
  p.messages.flatten ++ p.unsent

/-- To write a byte takes at most one step, and so does to read the message that it is in. -/
def PipePeer.remaining (p : PipePeer) : Nat :=
  2 * p.unsent.length + p.inPipe.length + (if p.opened then 0 else 1) +
    if p.got.isSome then 0 else 6

def PipePhase.remaining : PipePhase → Nat
  | .looping => 5
  | .created _ _ => 4
  | .connecting _ _ => 3
  | .reading _ _ _ => 2
  | .writing _ _ _ _ => 1
  | .ended => 0

def PipeWorld.remaining (w : PipeWorld) : Nat :=
  total PipePeer.remaining w.peers + w.phase.remaining

section

variable (parse : Bytes → Option (Except BeastError Request)) (room : List Bytes → Nat)

/-- The parser is content with the whole of the client's text and with no less. -/
def PipePeer.Delimited (p : PipePeer) : Prop :=
  ∃ result, Delimits parse p.text result

structure PipeWorld.Calm (w : PipeWorld) : Prop where
  sound : w.Sound parse room
  serves : w.Serves parse room
  stays : ∀ (k : Nat) p, w.peers[k]? = some p → p.left = false
  delimited : ∀ (k : Nat) p, w.peers[k]? = some p → p.Delimited parse

/-- The client has the answer to the whole of its text, or a message of it did not fit
and the client has the response that nothing has filled in. -/
def PipePeer.Served (p : PipePeer) : Prop :=
  (∃ result, Delimits parse p.messages.flatten result ∧ p.unsent = [] ∧
    p.got = some (.onRead {} result)) ∨ (Overlong room p.messages ∧ p.got = some {})

/-- Every client is served, and the server waits for another one. -/
def PipeWorld.Served (w : PipeWorld) : Prop :=
  (∃ h, w.phase = .connecting h none) ∧
    ∀ (k : Nat) p, w.peers[k]? = some p → p.Served parse room

end

section

variable {parse : Bytes → Option (Except BeastError Request)} {room : List Bytes → Nat}
  {w w' : PipeWorld} {result : Except BeastError Request}

theorem parseTime_delimits : Delimits parseTime getTimeText (getTime getTimeText) := by
  refine ⟨by decide, rfl, fun xs hxs hne => ?_⟩
  simp [parseTime, hne, hxs]

/-- What the parser is content with is all that the client has to say. -/
theorem PipePeer.Delimited.whole {p : PipePeer} (h : p.Delimited parse) {read : List Bytes}
    (hread : read <+: p.messages) (hparse : parse read.flatten = some result) :
    Delimits parse p.messages.flatten result ∧ p.unsent = [] := by
  obtain ⟨r, hr⟩ := h
  obtain ⟨rest, hrest⟩ := hread
  have htext : p.text = read.flatten ++ (rest.flatten ++ p.unsent) := by
    rw [text, ← hrest, List.flatten_append, List.append_assoc]
  have hfront : read.flatten <+: p.text := by
    rw [htext]
    exact List.prefix_append _ _
  obtain ⟨hall, rfl⟩ := hr.of_prefix hfront hparse
  have hnone : rest.flatten ++ p.unsent = [] := by
    rw [htext] at hall
    exact List.self_eq_append_right.mp hall
  obtain ⟨_, hunsent⟩ := List.append_eq_nil_iff.mp hnone
  refine ⟨?_, hunsent⟩
  rwa [text, hunsent, List.append_nil] at hr

theorem PipeWorld.set_remaining {k : Nat} {p q : PipePeer} (hk : w.peers[k]? = some p)
    (phase : PipePhase) (server : PipeServer) :
    remaining ⟨w.peers.set k q, phase, server⟩ + p.remaining + w.phase.remaining =
      w.remaining + q.remaining + phase.remaining := by
  have hset := total_set (f := PipePeer.remaining) (t := q) hk
  simp only [remaining]
  omega

theorem PipeWorld.finish_peers {a : PipeAnswers} (h : w.finish result a = some w') :
    w'.peers = w.peers := by
  obtain ⟨v, _, rfl⟩ := Option.map_eq_some_iff.mp h
  rfl

theorem PipeWorld.finish_ends {a : PipeAnswers} (ha : ¬ a.Returns)
    (h : w.finish result a = some w') : w'.remaining = total PipePeer.remaining w.peers := by
  obtain ⟨_, hw'⟩ := finish_throws ha h
  rw [hw']
  rfl

theorem PipeWorld.finish_le {a : PipeAnswers} (h : w.finish result a = some w') :
    w'.remaining ≤ total PipePeer.remaining w.peers + 5 := by
  by_cases ha : a.Returns
  · obtain ⟨_, hw'⟩ := finish_returns ha h
    rw [hw']
    exact Nat.le_refl _
  · rw [finish_ends ha h]
    exact Nat.le_add_right _ _

theorem PipeWorld.step_remaining {e : PipeWorldEvent} (hsound : w.Sound parse room)
    (he : e.serves = true) (hs : w.step parse room e = some w') : w'.remaining < w.remaining := by
  cases e with
  | arrive text => exact absurd he nofun
  | leave k => exact absurd he nofun
  | «open» k =>
    obtain ⟨p, phase, hk, hopened, _, hphase, rfl⟩ := step_open.mp hs
    have hset := w.set_remaining (q := { p with opened := true }) hk phase w.server
    have hsame : phase.remaining = w.phase.remaining := by
      obtain ⟨hPipe, ⟨hw, rfl⟩ | ⟨hw, rfl⟩⟩ := PipePhase.openBy_eq_some.mp hphase
      · rw [hw]
        rfl
      · rw [hw]
        rfl
    simp only [PipePeer.remaining, hopened] at hset
    simp only [if_true, Bool.false_eq_true, if_false] at hset
    omega
  | send k n =>
    obtain ⟨p, hk, _, _, hpos, hn, rfl⟩ := step_send.mp hs
    have hset := w.set_remaining (q := { p with
      inPipe := p.inPipe ++ [p.unsent.take n], unsent := p.unsent.drop n }) hk w.phase w.server
    simp only [PipePeer.remaining, List.length_drop, List.length_append, List.length_singleton]
      at hset
    omega
  | create answer =>
    obtain ⟨hphase, ⟨hPipe, rfl, rfl⟩ | ⟨code, rfl, _⟩⟩ := step_create.mp hs
    · simp only [remaining, hphase, PipePhase.remaining]
      omega
    · exact absurd he nofun
  | connect =>
    obtain ⟨hPipe, ⟨hphase, rfl⟩ | ⟨k, p, hphase, _, _, rfl⟩ | ⟨k, p, hphase, _, _, hs⟩ |
      ⟨k, hphase, rfl⟩⟩ := step_connect.mp hs
    · simp only [remaining, hphase, PipePhase.remaining]
      omega
    · simp only [remaining, hphase, PipePhase.remaining]
      omega
    · have hbefore : w.phase.remaining = 4 := by rw [hphase, PipePhase.remaining]
      have hno : ¬ PipeAnswers.Returns ⟨.ok hPipe, .error errorNoData, [], .refused⟩ :=
        fun hreturns => absurd hreturns.2.2 nofun
      rw [finish_ends hno hs]
      simp only [remaining]
      omega
    · simp only [remaining, hphase, PipePhase.remaining]
      omega
  | read =>
    obtain ⟨hPipe, k, connect, p, hphase, hk, hs⟩ := step_read.mp hs
    have hbefore : w.phase.remaining = 2 := by rw [hphase, PipePhase.remaining]
    have htake : ∀ {message rest}, p.inPipe = message :: rest → ∀ phase : PipePhase,
        phase.remaining ≤ 2 → remaining ⟨w.peers.set k { p with
          read := p.read ++ [message], inPipe := rest }, phase, w.server⟩ < w.remaining := by
      intro message rest hpipe phase hphase'
      have hset := w.set_remaining (q := { p with read := p.read ++ [message], inPipe := rest })
        hk phase w.server
      simp only [PipePeer.remaining, hpipe, List.length_cons] at hset
      omega
    rcases readNext_cases hs with ⟨message, rest, hpipe, _, rfl⟩ |
      ⟨message, rest, _, hpipe, _, rfl⟩ | ⟨_, _, rfl⟩
    · exact htake hpipe _ (Nat.le_refl 2)
    · exact htake hpipe _ (Nat.le_succ 1)
    · simp only [remaining, hphase, PipePhase.remaining]
      omega
  | write outcome =>
    obtain ⟨hPipe, k, connect, result, p, hphase, hk, _, hs⟩ := step_write.mp hs
    have hbefore : w.phase.remaining = 1 := by rw [hphase, PipePhase.remaining]
    by_cases hw : outcome = .complete
    · subst hw
      have hplace := (hsound.peers k p hk).place
      simp only [hphase, PipePhase.view, if_true] at hplace
      have hnone : p.got.isSome = false := by rw [hplace.2.1, Option.isSome_none]
      rw [if_pos rfl] at hs
      have hset := total_set (f := PipePeer.remaining) (t := { p with
        got := (handleRequest (fun _ => result) p.read.flatten .complete).written }) hk
      have hsome : (handleRequest (fun _ => result) p.read.flatten .complete).written.isSome =
          true := rfl
      simp only [PipePeer.remaining, hnone, hsome, if_true, Bool.false_eq_true, if_false] at hset
      have hle := finish_le hs
      simp only [remaining] at hle ⊢
      omega
    · rw [if_neg hw] at hs
      rw [finish_ends (fun hreturns => hw hreturns.2.2) hs]
      simp only [remaining]
      omega

theorem PipeWorldEvent.stays_of_serves {e : PipeWorldEvent} (he : e.serves = true) :
    e.stays = true := by
  cases e with
  | arrive text => exact absurd he nofun
  | _ => exact he

theorem PipeWorldEvent.creates_of_stays {e : PipeWorldEvent} (he : e.stays = true) :
    e.creates = true := by
  cases e with
  | create answer =>
    cases answer with
    | error code => exact absurd he nofun
    | ok h => rfl
  | _ => rfl

/-- What a step of the server or of a client that stays leaves as it was. -/
def PipePeer.Same (p q : PipePeer) : Prop :=
  q.left = p.left ∧ q.text = p.text

theorem PipeWorld.same_set {k : Nat} {p q : PipePeer} (hk : w.peers[k]? = some p)
    (hq : p.Same q) : ∀ (j : Nat) r, (w.peers.set k q)[j]? = some r →
      ∃ s, w.peers[j]? = some s ∧ s.Same r := by
  intro j r hj
  rcases getElem?_set_cases hj with ⟨rfl, rfl⟩ | ⟨_, hj⟩
  · exact ⟨p, hk, hq⟩
  · exact ⟨r, hj, rfl, rfl⟩

theorem PipeWorld.step_same {e : PipeWorldEvent} (he : e.serves = true)
    (hs : w.step parse room e = some w') : ∀ (k : Nat) q, w'.peers[k]? = some q →
      ∃ p, w.peers[k]? = some p ∧ p.Same q := by
  have hkeep : w'.peers = w.peers → ∀ (k : Nat) q, w'.peers[k]? = some q →
      ∃ p, w.peers[k]? = some p ∧ p.Same q := by
    intro hpeers k q hk
    rw [hpeers] at hk
    exact ⟨q, hk, rfl, rfl⟩
  cases e with
  | arrive text => exact absurd he nofun
  | leave k => exact absurd he nofun
  | «open» k =>
    obtain ⟨p, phase, hk, _, _, _, rfl⟩ := step_open.mp hs
    exact same_set hk ⟨rfl, rfl⟩
  | send k n =>
    obtain ⟨p, hk, _, _, _, _, rfl⟩ := step_send.mp hs
    refine same_set hk ⟨rfl, ?_⟩
    simp only [PipePeer.text, PipePeer.messages, List.flatten_append, List.flatten_cons,
      List.flatten_nil, List.append_nil, List.append_assoc, List.take_append_drop]
  | create answer =>
    obtain ⟨_, ⟨_, _, rfl⟩ | ⟨_, _, hs⟩⟩ := step_create.mp hs
    · exact hkeep rfl
    · exact hkeep (finish_peers hs)
  | connect =>
    obtain ⟨_, ⟨_, rfl⟩ | ⟨_, _, _, _, _, rfl⟩ | ⟨_, _, _, _, _, hs⟩ | ⟨_, _, rfl⟩⟩ :=
      step_connect.mp hs
    · exact hkeep rfl
    · exact hkeep rfl
    · exact hkeep (finish_peers hs)
    · exact hkeep rfl
  | read =>
    obtain ⟨_, k, _, p, _, hk, hs⟩ := step_read.mp hs
    have htake : ∀ {message rest}, p.inPipe = message :: rest →
        p.Same { p with read := p.read ++ [message], inPipe := rest } := by
      intro message rest hpipe
      refine ⟨rfl, ?_⟩
      simp only [PipePeer.text, PipePeer.messages, hpipe, List.append_assoc,
        List.singleton_append]
    rcases readNext_cases hs with ⟨_, _, hpipe, _, rfl⟩ | ⟨_, _, _, hpipe, _, rfl⟩ | ⟨_, _, rfl⟩
    · exact same_set hk (htake hpipe)
    · exact same_set hk (htake hpipe)
    · exact hkeep rfl
  | write outcome =>
    obtain ⟨_, k, _, _, p, _, hk, _, hs⟩ := step_write.mp hs
    by_cases hw : outcome = .complete
    · rw [if_pos hw] at hs
      rw [finish_peers hs]
      exact same_set hk ⟨rfl, rfl⟩
    · rw [if_neg hw] at hs
      exact hkeep (finish_peers hs)

theorem PipeWorld.Calm.step (h : w.Calm parse room) {e : PipeWorldEvent} (he : e.serves = true)
    (hs : w.step parse room e = some w') : w'.Calm parse room := by
  have hsame := step_same he hs
  have hcreates := PipeWorldEvent.creates_of_stays (PipeWorldEvent.stays_of_serves he)
  refine ⟨h.sound.step hs, h.serves.step h.sound hcreates hs, ?_, ?_⟩
  · intro k q hk
    obtain ⟨p, hp, hleft, _⟩ := hsame k q hk
    rw [hleft]
    exact h.stays k p hp
  · intro k q hk
    obtain ⟨p, hp, _, htext⟩ := hsame k q hk
    obtain ⟨result, hresult⟩ := h.delimited k p hp
    exact ⟨result, by rwa [htext]⟩

theorem PipeWorld.Calm.reading (h : w.Calm parse room)
    (hstuck : ∀ e t, PipeWorldEvent.serves e = true → w.step parse room e ≠ some t) {hPipe k : Nat}
    {connect : Except Nat Unit} : w.phase ≠ .reading hPipe k connect := by
  intro hphase
  obtain ⟨p, hk⟩ : ∃ p, w.peers[k]? = some p := by
    have hlt := h.sound.inside k (by rw [hphase]; rfl)
    exact ⟨_, List.getElem?_eq_getElem hlt⟩
  have hplace := (h.sound.peers k p hk).place
  simp only [hphase, PipePhase.view, if_true] at hplace
  obtain ⟨hopened, _, hread⟩ := hplace
  by_cases hunsent : p.unsent = []
  · cases hpipe : p.inPipe with
    | cons message rest =>
      obtain ⟨t, ht⟩ : ∃ t, w.readNext parse room hPipe k connect p = some t := by
        simp [readNext, hpipe]
      exact hstuck .read t rfl (step_read.mpr ⟨hPipe, k, connect, p, hphase, hk, ht⟩)
    | nil =>
      -- The server has read the whole text, and yet the parser asks for more.
      obtain ⟨result, hresult⟩ := h.delimited k p hk
      have htext : p.text = p.read.flatten := by
        rw [PipePeer.text, PipePeer.messages, hpipe, hunsent, List.append_nil, List.append_nil]
      rw [htext] at hresult
      have hne : p.read ≠ [] := by
        intro hnil
        exact hresult.nonempty (by rw [hnil, List.flatten_nil])
      have hmore : parse p.read.flatten = none := readPipe_none hne hread
      exact absurd (hresult.whole.symm.trans hmore) (by simp)
  · have hpos := List.length_pos_of_ne_nil hunsent
    exact hstuck (.send k p.unsent.length) _ rfl (step_send.mpr
      ⟨p, hk, by rw [hphase]; rfl, h.stays k p hk, hpos, Nat.le_refl _, rfl⟩)

theorem PipeWorld.Calm.writing (h : w.Calm parse room)
    (hstuck : ∀ e t, PipeWorldEvent.serves e = true → w.step parse room e ≠ some t) {hPipe k : Nat}
    {connect : Except Nat Unit} : w.phase ≠ .writing hPipe k connect result := by
  intro hphase
  obtain ⟨p, hk⟩ : ∃ p, w.peers[k]? = some p := by
    have hlt := h.sound.inside k (by rw [hphase]; rfl)
    exact ⟨_, List.getElem?_eq_getElem hlt⟩
  have hlooping : w.server.status = .looping := h.sound.going.mpr (by rw [hphase]; nofun)
  have hleft := h.stays k p hk
  obtain ⟨t, ht⟩ : ∃ t, PipeWorld.finish { w with peers := w.peers.set k { p with
      got := (handleRequest (fun _ => result) p.read.flatten .complete).written } } result
      ⟨.ok hPipe, connect, p.read.flatten, .complete⟩ = some t := finish_isSome hlooping
  exact hstuck (.write .complete) t rfl (step_write.mpr
    ⟨hPipe, k, connect, result, p, hphase, hk, ⟨fun _ => hleft, fun _ => rfl⟩, ht⟩)

theorem PipeWorld.Calm.answered (h : w.Calm parse room) {k : Nat} {p : PipePeer}
    (hk : w.peers[k]? = some p) (hgot : p.got ≠ none) : p.Served parse room := by
  obtain ⟨response, hresponse⟩ := Option.ne_none_iff_exists'.mp hgot
  rcases (h.sound.peers k p hk).answered response hresponse with
    ⟨read, result, hread, hparse, hanswer⟩ | ⟨hlong, hdefault⟩
  · obtain ⟨hdelimits, hunsent⟩ := (h.delimited k p hk).whole hread hparse
    exact .inl ⟨result, hdelimits, hunsent, by rw [hresponse, hanswer]⟩
  · exact .inr ⟨hlong, by rw [hresponse, hdefault]⟩

theorem PipeWorld.Calm.served (h : w.Calm parse room)
    (hstuck : ∀ e t, PipeWorldEvent.serves e = true → w.step parse room e ≠ some t) :
    w.Served parse room := by
  have hclient : ∀ k, w.phase.peer = some k → ∃ p, w.peers[k]? = some p := by
    intro k hk
    exact ⟨_, List.getElem?_eq_getElem (h.sound.inside k hk)⟩
  rcases hphase : w.phase with _ | ⟨hPipe, _ | k⟩ | ⟨hPipe, _ | k⟩ | ⟨hPipe, k, connect⟩ |
    ⟨hPipe, k, connect, result⟩ | _
  · exact (hstuck (.create (.ok 0)) _ rfl (step_create.mpr ⟨hphase, .inl ⟨0, rfl, rfl⟩⟩)).elim
  · exact (hstuck .connect _ rfl (step_connect.mpr ⟨hPipe, .inl ⟨hphase, rfl⟩⟩)).elim
  · obtain ⟨p, hk⟩ := hclient k (by rw [hphase]; rfl)
    exact (hstuck .connect _ rfl (step_connect.mpr
      ⟨hPipe, .inr (.inl ⟨k, p, hphase, hk, h.stays k p hk, rfl⟩)⟩)).elim
  · refine ⟨⟨hPipe, hphase⟩, fun k p hk => ?_⟩
    have hplace := (h.sound.peers k p hk).place
    simp only [hphase, PipePhase.view, reduceCtorEq, if_false] at hplace
    have hopened : p.opened = true := by
      by_contra hno
      have hphase' : w.phase.openBy k = some (.connecting hPipe (some k)) := by
        rw [hphase]
        rfl
      exact hstuck (.open k) _ rfl (step_open.mpr ⟨p, _, hk, Bool.eq_false_iff.mpr hno,
        h.stays k p hk, hphase', rfl⟩)
    exact h.answered hk (hplace hopened)
  · exact (hstuck .connect _ rfl (step_connect.mpr
      ⟨hPipe, .inr (.inr (.inr ⟨k, hphase, rfl⟩))⟩)).elim
  · exact (h.reading hstuck hphase).elim
  · exact (h.writing hstuck hphase).elim
  · obtain ⟨k, p, hk, _, hleft, _⟩ := h.serves.lost hphase
    exact absurd ((h.stays k p hk).symm.trans hleft) (by simp)

end

section

variable {parse : Bytes → Option (Except BeastError Request)} {room : List Bytes → Nat}
  {w : PipeWorld}

theorem pipeWorld_stays (h : (pipeWorld parse room).ReachableBy (fun _ e => e.stays) w) :
    ∀ (k : Nat) p, w.peers[k]? = some p → p.left = false := by
  refine h.invariant (P := fun w => ∀ (k : Nat) p, w.peers[k]? = some p → p.left = false) ?_ ?_
  · intro w hstart
    subst hstart
    exact fun k p hk => absurd hk (by simp)
  · intro w e w' hall he hs k q hk
    by_cases hserves : e.serves = true
    · obtain ⟨p, hp, hleft, _⟩ := PipeWorld.step_same hserves hs k q hk
      rw [hleft]
      exact hall k p hp
    · cases e with
      | arrive text =>
        obtain rfl := Option.some.inj hs
        rcases getElem?_snoc_cases hk with ⟨_, rfl⟩ | ⟨_, hk⟩
        · rfl
        · exact hall k q hk
      | _ => exact absurd he hserves

/-- However the server and any number of clients take turns: after a bounded
number of steps every client that has come is served, and the server waits for the
next one. -/
theorem pipe_world_completes (h : (pipeWorld parse room).ReachableBy (fun _ e => e.stays) w)
    (htexts : ∀ (k : Nat) p, w.peers[k]? = some p → p.Delimited parse) :
    ((pipeWorld parse room).only fun _ e => e.serves).Completes (PipeWorld.Served parse room)
      w.remaining w := by
  have hcalm : w.Calm parse room := by
    obtain ⟨hsound, hserves⟩ := pipeWorld_serves
      (h.mono fun _ _ he => PipeWorldEvent.creates_of_stays he)
    exact ⟨hsound, hserves, pipeWorld_stays h, htexts⟩
  refine System.completes_of_measure (I := PipeWorld.Calm parse room) ?_ ?_ ?_ hcalm
  · intro w e w' hw hs
    obtain ⟨he, hs⟩ := System.step_only.mp hs
    exact hw.step he hs
  · intro w e w' hw hs
    obtain ⟨he, hs⟩ := System.step_only.mp hs
    exact PipeWorld.step_remaining hw.sound he hs
  · intro w hw hstuck
    exact hw.served (System.stuck_only.mp hstuck)

/-- Both clients ask for the time, and the first has written a part of its request. -/
def twoAskers : List PipeWorldEvent :=
  [.arrive getTimeText, .arrive getTimeText, .create (.ok 4), .open 0, .connect, .send 0 3, .read]

theorem pipe_world_completes_run : ∃ w : PipeWorld,
    (pipeWorld parseTime firstRead).ReachableBy (fun _ e => e.stays) w ∧ w.peers.length = 2 ∧
    ((pipeWorld parseTime firstRead).only fun _ e => e.serves).Completes
      (PipeWorld.Served parseTime firstRead) w.remaining w := by
  obtain ⟨w, hw, hq⟩ := (pipeWorld parseTime firstRead).exists_reachableBy_of_run
    (fun _ e => e.stays) ⟨[], .looping, .start⟩ twoAskers
    (fun w => w.peers.map PipePeer.text = [getTimeText, getTimeText]) rfl (by decide +kernel)
  have htexts := of_decide_eq_true hq
  have hlength : w.peers.length = 2 := by simpa using congrArg List.length htexts
  refine ⟨w, hw, hlength, pipe_world_completes hw fun k p hk => ?_⟩
  have htext : p.text ∈ w.peers.map PipePeer.text :=
    List.mem_map_of_mem (List.mem_of_getElem? hk)
  have hp : p.text = getTimeText := by
    rw [htexts] at htext
    simpa using htext
  exact ⟨_, hp ▸ parseTime_delimits⟩

end

end ScratchServers
