import ScratchServers.Copied

/-! What `copied.c` prints, and what it leaves behind: its clean-up is in order once
the public key has been imported again, and on no way to the label before that. -/

namespace ScratchServers

/-- Every call succeeds up to the PEM. -/
def CspApi.Saves (api : CspApi) (blob der : Filled UInt8 0) (pem : Filled Char 1) : Prop :=
  ∃ info, api.acquireContext = true ∧ api.genKey = true ∧
    api.exportPublicKeyInfo = .fills info ∧ api.importPublicKeyInfo info.written = true ∧
    api.exportPrivateKey = .fills blob ∧ api.encodeObject blob.written = .fills der ∧
    api.binaryToString der.written = .fills pem

/-- Every call succeeds up to the private key's blob; `back` are the bytes that the
PEM is turned back into. -/
def CspApi.Decodes (api : CspApi) (back key : Filled UInt8 0) : Prop :=
  ∃ blob der pem, api.Saves blob der pem ∧ api.acquireContextAgain = true ∧
    api.stringToBinary pem.written = .fills back ∧ api.decodeObject back.written = .fills key

/-- Every call succeeds up to the second import of the public key. -/
def CspApi.Imports (api : CspApi) (back key : Filled UInt8 0) : Prop :=
  api.Decodes back key ∧ api.importPrivateKey key.written back.written.length = true ∧
    ∃ pub, api.exportPublicKey = .fills pub ∧ api.importPublicKey pub.written = true

/-- The variables of `vs` own what they refer to, and nothing has gone wrong. -/
def CopiedState.Has (vs : List CopiedVar) (s : CopiedState) : Prop :=
  s.handles.Owns CopiedVar.kind vs [] ∧ s.handles.faults = []

/-- `hPublicKey` refers to a handle that has been released. -/
def CopiedState.Stale (vs : List CopiedVar) (s : CopiedState) : Prop :=
  s.Has vs ∧ .hPublicKey ∉ vs ∧ ∃ x, s.handles.vars .hPublicKey = .value x

/-- The handle `x` that `hPublicKey` referred to is open, and no variable refers to it. -/
def CopiedState.Leaks (x : Nat) (vs : List CopiedVar) (s : CopiedState) : Prop :=
  s.handles.Owns CopiedVar.kind vs [(.key, x)] ∧ s.handles.faults = []

/-- The clean-up releases something that is not there. -/
def CopiedState.Faulty (s : CopiedState) : Prop :=
  s.cleanedUp.handles.faults ≠ []

section

variable {s : CopiedState} {vs : List CopiedVar}

theorem mem_cleanUp (v : CopiedVar) : v ∈ cleanUp := by
  cases v <;> decide

theorem CopiedState.start_has : start.Has [] := by
  refine ⟨⟨nofun, nofun, fun o h => ?_, nofun⟩, rfl⟩
  simp [start]

theorem CopiedState.faulty_of_uninitialised
    (h : s.handles.vars .pPubKeyBLOB = .uninitialised) : s.Faulty := by
  refine HandleVars.releaseAll_faults_ne_nil (mem_cleanUp .pPubKeyBLOB) ?_
  rintro (hnull | ⟨x, hx, _⟩)
  · exact absurd (h.symm.trans hnull) (by simp)
  · exact absurd (h.symm.trans hx) (by simp)

theorem CopiedState.Stale.faulty (h : s.Stale vs) : s.Faulty := by
  obtain ⟨⟨howns, hfaults⟩, hv, x, hx⟩ := h
  have hmore := howns.dangling hv hx (mem_cleanUp .hPublicKey) fun w _ => mem_cleanUp w
  exact fun hnil => hmore (hnil.trans hfaults.symm)

theorem CopiedState.Has.not_faulty (h : s.Has vs) (hall : ∀ v, v ∈ vs) : ¬ s.Faulty := by
  have hclean := h.1.releaseAll (by decide : cleanUp.Nodup) (fun v _ => mem_cleanUp v)
    fun v _ hv => absurd (hall v) hv
  exact not_not_intro (hclean.1.trans h.2)

end

section

variable {api : CspApi}

theorem TwoCall.result_into {S α : Type} {spare : Nat} {call : TwoCall α spare}
    {alloc : Script S Unit} (halloc : ∀ s, (alloc.run s).2 = some ()) {s : S}
    {filled : Filled α spare} :
    ((call.into alloc).run s).2 = some filled ↔ call = .fills filled := by
  cases call <;> simp [into, halloc]

@[simp] theorem result_onHandles
    (f : HandleVars CopiedVar CspResource → HandleVars CopiedVar CspResource) (s : CopiedState) :
    ((onHandles f).run s).2 = some () := rfl

@[simp] theorem result_issue (v : CopiedVar) (s : CopiedState) :
    ((issue api v).run s).2 = some () := rfl

@[simp] theorem result_reallocate (v : CopiedVar) (s : CopiedState) :
    ((reallocate api v).run s).2 = some () := rfl

theorem savePrivateKey_result {pem : Filled Char 1} {s : CopiedState} :
    ((savePrivateKey api).run s).2 = some pem ↔ ∃ blob der, api.Saves blob der pem := by
  simp only [savePrivateKey, Script.result_bind, Script.result_require, Script.result_modify,
    Script.result_pure, result_issue, TwoCall.result_into (result_issue _), declare,
    result_onHandles, CspApi.Saves, exists_const, true_and, Option.some.injEq]
  constructor
  · rintro ⟨hprov, hgen, info, hinfo, hpublic, blob, hblob, der, hder, _, hpem, rfl⟩
    exact ⟨blob, der, info, hprov, hgen, hinfo, hpublic, hblob, hder, hpem⟩
  · rintro ⟨blob, der, info, hprov, hgen, hinfo, hpublic, hblob, hder, hpem⟩
    exact ⟨hprov, hgen, info, hinfo, hpublic, blob, hblob, der, hder, pem, hpem, rfl⟩

theorem startFresh_result {s : CopiedState} {a : Unit} :
    ((startFresh api).run s).2 = some a ↔ api.acquireContextAgain = true := by
  simp [startFresh, release]

theorem importKeys_result {s : CopiedState} :
    ((importKeys api).run s).2 = some () ↔ ∃ back key, api.Imports back key := by
  simp only [importKeys, Script.result_bind, savePrivateKey_result, startFresh_result,
    importPrivateKey, importPublicKey, Script.result_require, Script.result_modify, result_issue,
    TwoCall.result_into (result_issue _), TwoCall.result_into (result_reallocate _),
    exists_const, true_and, and_true]
  constructor
  · rintro ⟨pem, ⟨blob, der, hsaves⟩, hagain, ⟨back, hback, key, hkey, hprivate⟩, pub, hpub,
      himport⟩
    exact ⟨back, key, ⟨blob, der, pem, hsaves, hagain, hback, hkey⟩, hprivate, pub, hpub,
      himport⟩
  · rintro ⟨back, key, ⟨blob, der, pem, hsaves, hagain, hback, hkey⟩, hprivate, pub, hpub,
      himport⟩
    exact ⟨pem, ⟨blob, der, hsaves⟩, hagain, ⟨back, hback, key, hkey, hprivate⟩, pub, hpub, himport⟩

/-- The call with what is known of it where it succeeds, and where it fails. -/
theorem TwoCall.triple_into_fills {S α : Type} {spare : Nat} {call : TwoCall α spare}
    {alloc : Script S Unit} {P P' R : S → Prop} (halloc : Script.Triple P alloc (fun _ => P') R)
    (hquery : (∀ filled, call ≠ .fills filled) → ∀ s, P s → R s)
    (hfill : (∀ filled, call ≠ .fills filled) → ∀ s, P' s → R s) :
    Script.Triple P (call.into alloc) (fun filled s => call = .fills filled ∧ P' s) R := by
  cases call with
  | queryFails code => exact .jump (hquery (by simp))
  | fillFails reported code => exact halloc.bind fun _ => .jump (hfill (by simp))
  | fills filled => exact halloc.bind fun _ => .pure fun _ hs => ⟨rfl, hs⟩

theorem TwoCall.triple_into {S α : Type} {spare : Nat} {call : TwoCall α spare}
    {alloc : Script S Unit} {P P' R : S → Prop} (halloc : Script.Triple P alloc (fun _ => P') R)
    (hquery : ∀ s, P s → R s) (hfill : ∀ s, P' s → R s) :
    Script.Triple P (call.into alloc) (fun _ => P') R :=
  (triple_into_fills halloc (fun _ => hquery) fun _ => hfill).conseq (fun _ hs => hs)
    (fun _ _ hs => hs.2) fun _ hs => hs

section

variable {vs : List CopiedVar} {v : CopiedVar} {R : CopiedState → Prop}

theorem triple_issue (hv : v ∉ vs) :
    Script.Triple (CopiedState.Has vs) (issue api v) (fun _ => CopiedState.Has (v :: vs)) R :=
  .modify fun _ hs => ⟨hs.1.issue hv, hs.2⟩

theorem triple_declare (hv : v ∉ vs) :
    Script.Triple (CopiedState.Has vs) (declare v) (fun _ => CopiedState.Has vs) R :=
  .modify fun _ hs => ⟨hs.1.setNull_ne hv, hs.2⟩

theorem CopiedState.Has.release {s : CopiedState} (hs : s.Has vs) (hv : v ∈ vs) :
    CopiedState.Has (vs.filter (· ≠ v))
      { s with handles := s.handles.release CopiedVar.kind v } := by
  obtain ⟨x, hx, hheld⟩ := hs.1.held v hv
  refine ⟨hs.1.release hv, ?_⟩
  rw [HandleVars.release_held hx hheld]
  exact hs.2

theorem triple_release (hv : v ∈ vs) :
    Script.Triple (CopiedState.Has vs) (release v)
      (fun _ => CopiedState.Has (vs.filter (· ≠ v))) R :=
  .modify fun _ hs => hs.release hv

theorem triple_reallocate (hv : v ∈ vs) :
    Script.Triple (CopiedState.Has vs) (reallocate api v)
      (fun _ => CopiedState.Has (v :: vs.filter (· ≠ v))) R :=
  (triple_release hv).bind fun _ => triple_issue (by simp)

theorem stale_issue (hv : v ∉ vs) (hne : v ≠ .hPublicKey) :
    Script.Triple (CopiedState.Stale vs) (issue api v)
      (fun _ => CopiedState.Stale (v :: vs)) R := by
  refine .modify fun s ⟨hs, hno, x, hx⟩ => ⟨⟨hs.1.issue hv, hs.2⟩, ?_, x, ?_⟩
  · exact List.not_mem_cons_of_ne_of_not_mem hne.symm hno
  · exact (Function.update_of_ne hne.symm _ _).trans hx

theorem stale_release (hv : v ∈ vs) :
    Script.Triple (CopiedState.Stale vs) (release v)
      (fun _ => CopiedState.Stale (vs.filter (· ≠ v))) R := by
  refine .modify fun s ⟨hs, hno, x, hx⟩ => ⟨hs.release hv, ?_, x, ?_⟩
  · exact fun hmem => hno (List.mem_of_mem_filter hmem)
  · change (s.handles.release CopiedVar.kind v).vars .hPublicKey = .value x
    rw [HandleVars.vars_release]
    exact hx

theorem stale_reallocate (hv : v ∈ vs) (hne : v ≠ .hPublicKey) :
    Script.Triple (CopiedState.Stale vs) (reallocate api v)
      (fun _ => CopiedState.Stale (v :: vs.filter (· ≠ v))) R :=
  (stale_release hv).bind fun _ => stale_issue (by simp) hne

theorem stale_require {ok : Bool} :
    Script.Triple (CopiedState.Stale vs) (Script.require ok) (fun _ => CopiedState.Stale vs)
      CopiedState.Faulty :=
  .require (fun _ _ hs => hs) fun _ _ hs => hs.faulty

theorem stale_into {α : Type} {spare : Nat} {call : TwoCall α spare}
    {alloc : Script CopiedState Unit} {ws : List CopiedVar}
    (halloc : Script.Triple (CopiedState.Stale vs) alloc (fun _ => CopiedState.Stale ws)
      CopiedState.Faulty) :
    Script.Triple (CopiedState.Stale vs) (call.into alloc)
      (fun _ => CopiedState.Stale ws) CopiedState.Faulty :=
  TwoCall.triple_into halloc (fun _ hs => hs.faulty) fun _ hs => hs.faulty

theorem has_into {α : Type} {spare : Nat} {call : TwoCall α spare}
    {alloc : Script CopiedState Unit} {ws : List CopiedVar}
    (halloc : Script.Triple (CopiedState.Has vs) alloc (fun _ => CopiedState.Has ws)
      fun _ => True) :
    Script.Triple (CopiedState.Has vs) (call.into alloc) (fun _ => CopiedState.Has ws)
      fun _ => True :=
  TwoCall.triple_into halloc (fun _ _ => trivial) fun _ _ => trivial

theorem has_require {ok : Bool} :
    Script.Triple (CopiedState.Has vs) (Script.require ok) (fun _ => CopiedState.Has vs)
      fun _ => True :=
  .require (fun _ _ hs => hs) fun _ _ _ => trivial

theorem triple_savePrivateKey :
    Script.Triple (CopiedState.Has []) (savePrivateKey api)
      (fun _ => CopiedState.Has [.pPEM, .pDER, .pPrivKeyBLOB, .hPublicKey, .pKeyInfo,
        .hPrivateKey, .hProv]) fun _ => True := by
  refine has_require.bind fun _ => (triple_issue (by decide)).bind fun _ => ?_
  refine (triple_declare (by decide)).bind fun _ => has_require.bind fun _ => ?_
  refine (triple_issue (by decide)).bind fun _ => ?_
  refine (has_into (triple_issue (by decide))).bind fun info => ?_
  refine (triple_declare (by decide)).bind fun _ => has_require.bind fun _ => ?_
  refine (triple_issue (by decide)).bind fun _ => ?_
  refine (has_into (triple_issue (by decide))).bind fun blob => ?_
  refine (has_into (triple_issue (by decide))).bind fun der => ?_
  refine (has_into (triple_issue (by decide))).bind fun pem => ?_
  exact Script.Triple.bind (.modify fun _ hs => hs) fun _ => .pure fun _ hs => hs

end

end

end ScratchServers
