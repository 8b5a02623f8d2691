import ScratchServers.Selection

/-! Any number of instances of `winunix.cpp` in one directory: each call of each
instance is a step of its own, and `server.sock` is shared by all of them. -/

namespace ScratchServers

inductive UnixPhase where
  | startup
  | socket
  | bind
  | listen
  | accept
  | send
  | shutdown
  | closeListen
  | closeClient
  | delete
  | cleanup
  | ended
  deriving DecidableEq

/-- `bound` records that the instance's own `bind` has succeeded. -/
structure UnixInstance where
  phase : UnixPhase
  listenSocket : Bool
  clientSocket : Bool
  bound : Bool

def UnixInstance.main : UnixInstance :=
  ⟨.startup, false, false, false⟩

def UnixInstance.gotoExit (u : UnixInstance) : UnixInstance :=
  { u with phase := .closeListen }

/-- The calls that leave the path alone. What the calls of the cleanup return is
not looked at. -/
def UnixInstance.call (u : UnixInstance) (ok : Bool) : UnixInstance :=
  match u.phase with
  | .startup => if ok then { u with phase := .socket } else u.gotoExit
  | .socket => if ok then { u with phase := .bind, listenSocket := true } else u.gotoExit
  | .listen => if ok then { u with phase := .accept } else u.gotoExit
  | .accept => if ok then { u with phase := .send, clientSocket := true } else u.gotoExit
  | .send => if ok then { u with phase := .shutdown } else u.gotoExit
  | .shutdown => u.gotoExit
  | .closeListen => { u with phase := .closeClient, listenSocket := false }
  | .closeClient => { u with phase := .delete, clientSocket := false }
  | .cleanup => { u with phase := .ended }
  | .bind | .delete | .ended => u

/-- What the path names: the socket that an instance has bound, or a file that
was there before. -/
inductive PathEntry where
  | server (i : Nat)
  | other
  deriving DecidableEq

/-- `removed` records which instance has removed which file from the path. -/
structure PathWorld where
  path : Option PathEntry
  instances : List UnixInstance
  removed : List (Nat × PathEntry)

inductive PathEvent where
  | start
  | call (i : Nat) (ok : Bool)

/-- `bind` creates the file and fails if there is one. `DeleteFileA` removes
whatever the path names, unless the system refuses it; if there is nothing, it
changes nothing. -/
def PathWorld.step (w : PathWorld) : PathEvent → Option PathWorld
  | .start => some { w with instances := w.instances ++ [.main] }
  | .call i ok =>
    w.instances[i]?.bind fun u =>
      match u.phase, ok, w.path with
      | .ended, _, _ => none
      | .bind, true, none =>
        some { w with
          path := some (.server i)
          instances := w.instances.set i { u with phase := .listen, bound := true } }
      | .bind, true, some _ => none
      | .bind, false, _ => some { w with instances := w.instances.set i u.gotoExit }
      | .delete, true, some entry =>
        some { w with
          path := none
          instances := w.instances.set i { u with phase := .cleanup }
          removed := w.removed ++ [(i, entry)] }
      | .delete, _, _ =>
        some { w with instances := w.instances.set i { u with phase := .cleanup } }
      | _, _, _ => some { w with instances := w.instances.set i (u.call ok) }

def PathWorld.start (present : Bool) : PathWorld :=
  ⟨if present then some .other else none, [], []⟩

def pathWorld : System PathWorld PathEvent where
  start w := ∃ present, w = .start present
  step := PathWorld.step

/-- Between its successful `bind` and the end of its own cleanup of the path. -/
def UnixInstance.Holds (u : UnixInstance) : Prop :=
  u.bound = true ∧ u.phase ≠ .cleanup ∧ u.phase ≠ .ended

/-- An instance has only removed what its own `bind` created, and the path names
the socket of each instance that holds it. -/
structure PathWorld.Safe (w : PathWorld) : Prop where
  removed : ∀ i entry, (i, entry) ∈ w.removed → entry = .server i ∧
    ∃ u, w.instances[i]? = some u ∧ u.bound = true
  held : ∀ (i : Nat) u, w.instances[i]? = some u → u.Holds → w.path = some (.server i)

instance (u : UnixInstance) : Decidable u.Holds :=
  inferInstanceAs (Decidable (_ ∧ _))

/-- The path names a file that no instance holds: it was there before, or its
instance could not delete it. -/
def PathWorld.Older (w : PathWorld) : Prop :=
  match w.path with
  | none => False
  | some .other => True
  | some (.server i) => ∀ u ∈ w.instances[i]?, ¬ u.Holds

instance (w : PathWorld) : Decidable w.Older :=
  match hpath : w.path with
  | none => .isFalse (by simp [PathWorld.Older, hpath])
  | some .other => .isTrue (by simp [PathWorld.Older, hpath])
  | some (.server i) =>
    decidable_of_iff (∀ u ∈ w.instances[i]?, ¬ u.Holds) (by simp [PathWorld.Older, hpath])

/-- When an instance whose `WSAStartup`, `socket` or `bind` has failed comes to
`DeleteFileA`, no other one is between its `bind` and its own delete and no older
file is at the path, or the system refuses the call. -/
def FindsNothing (w : PathWorld) : PathEvent → Prop
  | .start => True
  | .call i ok => ∀ u ∈ w.instances[i]?, u.phase = .delete → u.bound = false →
      ok = false ∨ ((∀ v ∈ w.instances, ¬ v.Holds) ∧ ¬ w.Older)

instance (w : PathWorld) (e : PathEvent) : Decidable (FindsNothing w e) :=
  match e with
  | .start => .isTrue trivial
  | .call i ok => inferInstanceAs (Decidable (∀ u ∈ w.instances[i]?, u.phase = .delete →
      u.bound = false → ok = false ∨ ((∀ v ∈ w.instances, ¬ v.Holds) ∧ ¬ w.Older)))

section

variable {w w' : PathWorld}

theorem UnixInstance.call_bound (u : UnixInstance) (ok : Bool) : (u.call ok).bound = u.bound := by
  cases hp : u.phase <;> cases ok <;> simp [call, hp, gotoExit]

theorem UnixInstance.call_holds {u : UnixInstance} {ok : Bool} (h : (u.call ok).Holds) :
    u.Holds := by
  have hbound : u.bound = true := (u.call_bound ok).symm.trans h.1
  refine ⟨hbound, fun hp => ?_, fun hp => ?_⟩
  · apply h.2.2
    simp only [call, hp]
  · apply h.2.2
    simp only [call, hp]

theorem PathWorld.step_start (h : w.step .start = some w') :
    w' = { w with instances := w.instances ++ [.main] } :=
  (Option.some.inj h).symm

/-- A call binds the path, removes what it names, or leaves it alone. -/
theorem PathWorld.step_call {i : Nat} {ok : Bool} (h : w.step (.call i ok) = some w') :
    ∃ u, w.instances[i]? = some u ∧
      ((u.phase = .bind ∧ w.path = none ∧ w' = { w with
          path := some (.server i)
          instances := w.instances.set i { u with phase := .listen, bound := true } }) ∨
        (u.phase = .delete ∧ ok = true ∧ ∃ entry, w.path = some entry ∧ w' = { w with
          path := none
          instances := w.instances.set i { u with phase := .cleanup }
          removed := w.removed ++ [(i, entry)] }) ∨
        ((u.phase = .delete → ok = true → w.path = none) ∧ ∃ u', u'.bound = u.bound ∧
          (u'.Holds → u.Holds) ∧ w' = { w with instances := w.instances.set i u' })) := by
  obtain ⟨u, hu, hs⟩ := Option.bind_eq_some_iff.mp h
  refine ⟨u, hu, ?_⟩
  have hbound := u.call_bound ok
  have hholds : (u.call ok).Holds → u.Holds := UnixInstance.call_holds
  cases hp : u.phase with
  | bind =>
    cases ok with
    | true =>
      cases hpath : w.path with
      | none =>
        simp only [hp, hpath, Option.some.injEq] at hs
        exact .inl ⟨rfl, rfl, hs.symm⟩
      | some entry => simp [hp, hpath] at hs
    | false =>
      simp only [hp, Option.some.injEq] at hs
      refine .inr (.inr ⟨by simp, u.gotoExit, rfl, fun hu => ⟨hu.1, ?_, ?_⟩, hs.symm⟩)
      · simp [hp]
      · simp [hp]
  | delete =>
    have hleft {u' : UnixInstance} (hu' : u' = { u with phase := .cleanup }) :
        u'.bound = u.bound ∧ (u'.Holds → u.Holds) := by
      subst hu'
      exact ⟨rfl, fun hu => absurd rfl hu.2.1⟩
    cases ok with
    | true =>
      cases hpath : w.path with
      | none =>
        simp only [hp, hpath, Option.some.injEq] at hs
        exact .inr (.inr ⟨fun _ _ => rfl, _, (hleft rfl).1, (hleft rfl).2, hs.symm⟩)
      | some entry =>
        simp only [hp, hpath, Option.some.injEq] at hs
        exact .inr (.inl ⟨rfl, rfl, entry, rfl, hs.symm⟩)
    | false =>
      simp only [hp, Option.some.injEq] at hs
      exact .inr (.inr ⟨by simp, _, (hleft rfl).1, (hleft rfl).2, hs.symm⟩)
  | ended => simp [hp] at hs
  | _ =>
    simp only [hp, Option.some.injEq] at hs
    exact .inr (.inr ⟨by simp, u.call ok, hbound, hholds, hs.symm⟩)

/-- What the path names was bound by the instance that it names. -/
structure PathWorld.Owned (w : PathWorld) : Prop extends PathWorld.Safe w where
  owner : ∀ i, w.path = some (.server i) → ∃ u, w.instances[i]? = some u ∧ u.bound = true

theorem PathWorld.bound_set {instances : List UnixInstance} {i j : Nat} {u : UnixInstance}
    (u' : UnixInstance) (hu : instances[i]? = some u) (hb : u.bound = true → u'.bound = true)
    (h : ∃ v, instances[j]? = some v ∧ v.bound = true) :
    ∃ v, (instances.set i u')[j]? = some v ∧ v.bound = true := by
  obtain ⟨v, hv, hbound⟩ := h
  by_cases hij : i = j
  · subst j
    obtain rfl : u = v := Option.some.inj (hu.symm.trans hv)
    exact ⟨u', List.getElem?_set_self (lt_length_of_getElem? hu), hb hbound⟩
  · exact ⟨v, (List.getElem?_set_ne hij).trans hv, hbound⟩

theorem PathWorld.Owned.start (h : w.Owned) (hs : w.step .start = some w') : w'.Owned := by
  obtain rfl := step_start hs
  have hold {i : Nat} (hb : ∃ u, w.instances[i]? = some u ∧ u.bound = true) :
      ∃ u, (w.instances ++ [UnixInstance.main])[i]? = some u ∧ u.bound = true := by
    obtain ⟨u, hu, hbound⟩ := hb
    exact ⟨u, (List.getElem?_append_left (lt_length_of_getElem? hu)).trans hu, hbound⟩
  refine ⟨⟨fun i entry hmem => ?_, fun i u hu hholds => ?_⟩, fun i hpath => hold (h.owner i hpath)⟩
  · obtain ⟨hentry, hb⟩ := h.removed i entry hmem
    exact ⟨hentry, hold hb⟩
  · rcases getElem?_snoc_cases hu with ⟨_, rfl⟩ | ⟨_, hu⟩
    · exact absurd hholds.1 Bool.false_ne_true
    · exact h.held i u hu hholds

/-- A call that leaves the path alone. -/
theorem PathWorld.Owned.keep (h : w.Owned) {i : Nat} {u u' : UnixInstance}
    (hu : w.instances[i]? = some u) (hb : u'.bound = u.bound) (hholds : u'.Holds → u.Holds) :
    PathWorld.Owned { w with instances := w.instances.set i u' } := by
  have hset {j : Nat} := bound_set (j := j) u' hu (fun hbound => hb.trans hbound)
  refine ⟨⟨fun j entry hmem => ?_, fun j v hv hj => ?_⟩, fun j hpath => hset (h.owner j hpath)⟩
  · obtain ⟨hentry, hbound⟩ := h.removed j entry hmem
    exact ⟨hentry, hset hbound⟩
  · rcases getElem?_set_cases hv with ⟨rfl, rfl⟩ | ⟨_, hv⟩
    · exact h.held j u hu (hholds hj)
    · exact h.held j v hv hj

theorem PathWorld.Owned.bind (h : w.Owned) {i : Nat} {u : UnixInstance}
    (hu : w.instances[i]? = some u) (hpath : w.path = none) :
    PathWorld.Owned { w with
      path := some (.server i)
      instances := w.instances.set i { u with phase := .listen, bound := true } } := by
  have hset {j : Nat} := bound_set (j := j) { u with phase := .listen, bound := true } hu
    fun _ => rfl
  refine ⟨⟨fun j entry hmem => ?_, fun j v hv hj => ?_⟩, fun j he => ?_⟩
  · obtain ⟨hentry, hbound⟩ := h.removed j entry hmem
    exact ⟨hentry, hset hbound⟩
  · rcases getElem?_set_cases hv with ⟨rfl, rfl⟩ | ⟨_, hv⟩
    · rfl
    · have hheld := h.held j v hv hj
      exact absurd (hpath.symm.trans hheld) (by simp)
  · obtain rfl : i = j := by simpa using he
    exact ⟨_, List.getElem?_set_self (lt_length_of_getElem? hu), rfl⟩

theorem PathWorld.Owned.delete (h : w.Owned) {i : Nat} {u : UnixInstance} {entry : PathEntry}
    (hu : w.instances[i]? = some u) (hp : u.phase = .delete) (hbound : u.bound = true)
    (hpath : w.path = some entry) :
    PathWorld.Owned { w with
      path := none
      instances := w.instances.set i { u with phase := .cleanup }
      removed := w.removed ++ [(i, entry)] } := by
  have hheld := h.held i u hu ⟨hbound, by simp [hp], by simp [hp]⟩
  have hset {j : Nat} := bound_set (j := j) { u with phase := .cleanup } hu id
  refine ⟨⟨fun j e hmem => ?_, fun j v hv hj => ?_⟩, fun j he => absurd he (by simp)⟩
  · rcases List.mem_append.mp hmem with hmem | hmem
    · obtain ⟨hentry, hb⟩ := h.removed j e hmem
      exact ⟨hentry, hset hb⟩
    · obtain ⟨rfl, rfl⟩ : j = i ∧ e = entry := by simpa using hmem
      exact ⟨Option.some.inj (hpath.symm.trans hheld), hset ⟨u, hu, hbound⟩⟩
  · rcases getElem?_set_cases hv with ⟨rfl, rfl⟩ | ⟨hji, hv⟩
    · exact absurd rfl hj.2.1
    · have hother := h.held j v hv hj
      have hsame : i = j := by simpa using hheld.symm.trans hother
      exact absurd hsame.symm hji

theorem PathWorld.path_eq_none (hfree : ∀ v ∈ w.instances, ¬ v.Holds) (hold : ¬ w.Older) :
    w.path = none := by
  rcases hpath : w.path with _ | i | _
  · rfl
  · refine absurd ?_ hold
    simp only [Older, hpath]
    exact fun u hu => hfree u (List.mem_of_getElem? hu)
  · refine absurd ?_ hold
    simp only [Older, hpath]

theorem PathWorld.Owned.step {e : PathEvent} (h : w.Owned) (hs : w.step e = some w')
    (he : FindsNothing w e) : w'.Owned := by
  cases e with
  | start => exact h.start hs
  | call i ok =>
    obtain ⟨u, hu, ⟨_, hpath, rfl⟩ | ⟨hp, rfl, entry, hpath, rfl⟩ | ⟨_, u', hb, hholds, rfl⟩⟩ :=
      step_call hs
    · exact h.bind hu hpath
    · refine h.delete hu hp ?_ hpath
      by_contra hunbound
      rcases he u hu hp (Bool.eq_false_iff.mpr hunbound) with hrefused | ⟨hfree, hold⟩
      · exact absurd hrefused (by simp)
      · exact absurd (hpath.symm.trans (path_eq_none hfree hold)) (by simp)
    · exact h.keep hu hb hholds

/-- What is at the path is removed by an instance that has not bound it. -/
theorem PathWorld.Owned.not_safe (h : w.Owned) {e : PathEvent} (hs : w.step e = some w')
    (he : ¬ FindsNothing w e) : ¬ w'.Safe := by
  intro hsafe
  apply he
  cases e with
  | start => trivial
  | call i ok =>
    intro u hu hp hunbound
    by_contra hno
    obtain ⟨hok, hthere⟩ := not_or.mp hno
    have hpath : w.path ≠ none := by
      intro hnone
      refine hthere ⟨fun v hv hholds => ?_, by simp [Older, hnone]⟩
      obtain ⟨j, hj⟩ := List.mem_iff_getElem?.mp hv
      exact absurd (hnone.symm.trans (h.held j v hj hholds)) (by simp)
    obtain ⟨v, hv, hcase⟩ := step_call hs
    obtain rfl : u = v := Option.some.inj (Eq.trans (Eq.symm hu) hv)
    rcases hcase with ⟨hbind, _⟩ | ⟨_, _, entry, _, rfl⟩ | ⟨hnone, _⟩
    · exact absurd (hp.symm.trans hbind) (by simp)
    · obtain ⟨_, x, hx, hbound⟩ := hsafe.removed i entry (by simp)
      have hself := List.getElem?_set_self (a := { u with phase := .cleanup })
        (lt_length_of_getElem? hv)
      obtain rfl := Option.some.inj (hself.symm.trans hx)
      exact absurd (hunbound.symm.trans hbound) (by simp)
    · exact hpath (hnone hp (by simpa using hok))

end

theorem PathWorld.owned_start (present : Bool) : (PathWorld.start present).Owned := by
  refine ⟨⟨fun i entry hmem => ?_, fun i u hu => ?_⟩, fun i hpath => ?_⟩
  · simp [start] at hmem
  · simp [start] at hu
  · cases present <;> simp [start] at hpath

/-- Over all interleavings: no instance takes the socket of another away, nor a file
that it has not created, exactly when those that fail before or at `bind` come to
`DeleteFileA` while there is nothing to delete. -/
theorem instances_keep_path_iff {present : Bool} {ls : List PathEvent} {u : PathWorld}
    (hr : pathWorld.run (.start present) ls = some u) :
    pathWorld.StatesMeet PathWorld.Safe (.start present) ls ↔
      pathWorld.StepsMeet FindsNothing (.start present) ls := by
  refine System.statesMeet_iff_stepsMeet (J := PathWorld.Owned) (fun w hw => hw.toSafe) ?_ ?_
    (PathWorld.owned_start present) hr
  · intro w e w' hw he hs
    exact hw.step hs he
  · intro w e w' hw he hs
    exact hw.not_safe hs he

def callAll (i : Nat) (oks : List Bool) : List PathEvent :=
  oks.map (.call i)

/-- The second instance cannot bind the path that the first one listens on, and waits
with its own delete until the first one has removed it. -/
def deleteAfterDelete : List PathEvent :=
  .start :: .start :: callAll 0 (List.replicate 4 true) ++ callAll 1 [true, true, false] ++
    callAll 0 (List.replicate 7 true) ++ callAll 1 (List.replicate 4 true)

theorem instances_keep_path_run :
    pathWorld.StatesMeet PathWorld.Safe (.start false) deleteAfterDelete := by
  obtain ⟨u, hu⟩ : ∃ u, pathWorld.run (.start false) deleteAfterDelete = some u :=
    Option.isSome_iff_exists.mp (by decide)
  exact (instances_keep_path_iff hu).mpr (System.stepsMeet_of_runBy (by decide))

/-- The second instance cannot bind the path that the first one listens on, and
removes it on its way out. -/
theorem second_instance_removes_path :
    ¬ ∀ w : PathWorld, pathWorld.Reachable w → w.Safe := by
  intro h
  obtain ⟨w, hw, hq⟩ := pathWorld.exists_reachable_of_run (.start false)
    (.start :: callAll 0 [true, true, true, true] ++
      .start :: callAll 1 [true, true, false, true, true, true])
    (fun w => w.removed = [(1, .server 0)]) ⟨false, rfl⟩ (by decide)
  have hremoved := of_decide_eq_true hq
  obtain ⟨hentry, _⟩ := (h w hw).removed 1 (.server 0) (by simp [hremoved])
  exact absurd hentry (by decide)

end ScratchServers
