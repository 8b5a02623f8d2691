import ScratchServers.CopiedKeys

/-! What a run of `copied.c` prints and leaves behind: on every way to its label
before the public key has been imported again the clean-up there is not in order. -/

namespace ScratchServers

section

variable {api : CspApi} {I : CopiedState → Prop}

theorem keeps_require {ok : Bool} : (Script.require ok : Script CopiedState Unit).Keeps I :=
  .require (fun _ _ hs => hs) fun _ _ hs => hs

theorem keeps_into {α : Type} {spare : Nat} {call : TwoCall α spare}
    {alloc : Script CopiedState Unit} (halloc : alloc.Keeps I) : (call.into alloc).Keeps I :=
  TwoCall.triple_into halloc (fun _ hs => hs) fun _ hs => hs

/-- What is kept until the PEM is printed. -/
theorem savePrivateKey_keeps {J : Filled Char 1 → CopiedState → Prop}
    (hissue : ∀ v, v ≠ .pPubKeyBLOB → (issue api v).Keeps I)
    (hdeclare : ∀ v, v ≠ .pPubKeyBLOB → (declare v).Keeps I)
    (hprint : ∀ pem s, I s → J pem { s with printed := s.printed ++ [pem.cString] }) :
    Script.Triple I (savePrivateKey api) J I := by
  refine keeps_require.bind fun _ => (hissue _ (by decide)).bind fun _ => ?_
  refine (hdeclare _ (by decide)).bind fun _ => keeps_require.bind fun _ => ?_
  refine (hissue _ (by decide)).bind fun _ => ?_
  refine (keeps_into (hissue _ (by decide))).bind fun info => ?_
  refine (hdeclare _ (by decide)).bind fun _ => keeps_require.bind fun _ => ?_
  refine (hissue _ (by decide)).bind fun _ => ?_
  refine (keeps_into (hissue _ (by decide))).bind fun blob => ?_
  refine (keeps_into (hissue _ (by decide))).bind fun der => ?_
  refine (keeps_into (hissue _ (by decide))).bind fun pem => ?_
  exact Script.Triple.bind (.modify (hprint pem)) fun _ => .pure fun _ hs => hs

end

section

variable {api : CspApi} {R : CopiedState → Prop}

theorem clean_savePrivateKey :
    Script.Triple (fun s => s.Has [] ∧ s.handles.vars .pPubKeyBLOB = .uninitialised)
      (savePrivateKey api)
      (fun _ => CopiedState.Has [.pPEM, .pDER, .pPrivKeyBLOB, .hPublicKey, .pKeyInfo,
        .hPrivateKey, .hProv]) CopiedState.Faulty := by
  have hkeeps : (savePrivateKey api).Keeps
      fun s => s.handles.vars .pPubKeyBLOB = .uninitialised := by
    refine savePrivateKey_keeps (fun v hv => ?_) (fun v hv => ?_) fun _ _ hs => hs
    · exact .modify fun _ hs => (Function.update_of_ne hv.symm _ _).trans hs
    · exact .modify fun _ hs => (Function.update_of_ne hv.symm _ _).trans hs
  exact (triple_savePrivateKey.and hkeeps).conseq (fun _ hs => hs) (fun _ _ hs => hs.1)
    fun _ hs => CopiedState.faulty_of_uninitialised hs.2

theorem clean_startFresh :
    Script.Triple (CopiedState.Has [.pPEM, .pDER, .pPrivKeyBLOB, .hPublicKey, .pKeyInfo,
        .hPrivateKey, .hProv]) (startFresh api)
      (fun _ => CopiedState.Stale [.hProv, .pPEM, .pDER, .pPrivKeyBLOB, .pKeyInfo])
      CopiedState.Faulty := by
  have hpublic : Script.Triple (CopiedState.Has [.pPEM, .pDER, .pPrivKeyBLOB, .hPublicKey,
      .pKeyInfo, .hPrivateKey, .hProv]) (release .hPublicKey)
      (fun _ => CopiedState.Stale [.pPEM, .pDER, .pPrivKeyBLOB, .pKeyInfo, .hPrivateKey, .hProv])
      CopiedState.Faulty := by
    refine .modify fun s hs => ?_
    obtain ⟨x, hx, _⟩ := hs.1.held .hPublicKey (by decide)
    refine ⟨hs.release (by decide), by decide, x, ?_⟩
    change (s.handles.release CopiedVar.kind .hPublicKey).vars .hPublicKey = .value x
    rw [HandleVars.vars_release]
    exact hx
  refine hpublic.bind fun _ => (stale_release (by decide)).bind fun _ => ?_
  refine (stale_release (by decide)).bind fun _ => stale_require.bind fun _ => ?_
  exact stale_issue (by decide) (by decide)

theorem clean_importPrivateKey {pem : Filled Char 1} :
    Script.Triple (CopiedState.Stale [.hProv, .pPEM, .pDER, .pPrivKeyBLOB, .pKeyInfo])
      (importPrivateKey api pem)
      (fun _ => CopiedState.Stale [.hPrivateKey, .pPrivKeyBLOB, .pDER, .hProv, .pPEM, .pKeyInfo])
      CopiedState.Faulty := by
  refine (stale_into (stale_reallocate (by decide) (by decide))).bind fun back => ?_
  refine (stale_into (stale_reallocate (by decide) (by decide))).bind fun key => ?_
  refine Script.Triple.bind (Q := fun _ => CopiedState.Stale _) (.modify fun _ hs => hs) ?_
  exact fun _ => stale_require.bind fun _ => stale_issue (by decide) (by decide)

theorem clean_importPublicKey :
    Script.Triple (CopiedState.Stale [.hPrivateKey, .pPrivKeyBLOB, .pDER, .hProv, .pPEM, .pKeyInfo])
      (importPublicKey api)
      (fun _ => CopiedState.Has [.hPublicKey, .pPubKeyBLOB, .hPrivateKey, .pPrivKeyBLOB, .pDER,
        .hProv, .pPEM, .pKeyInfo]) CopiedState.Faulty := by
  refine (stale_into (stale_issue (by decide) (by decide))).bind fun pub => ?_
  refine stale_require.bind fun _ => ?_
  exact (triple_issue (by decide)).conseq (fun _ hs => hs.1) (fun _ _ hs => hs) fun _ hs => hs

theorem clean_importKeys (api : CspApi) :
    Script.Triple (fun s => s.Has [] ∧ s.handles.vars .pPubKeyBLOB = .uninitialised)
      (importKeys api)
      (fun _ => CopiedState.Has [.hPublicKey, .pPubKeyBLOB, .hPrivateKey, .pPrivKeyBLOB, .pDER,
        .hProv, .pPEM, .pKeyInfo]) CopiedState.Faulty :=
  clean_savePrivateKey.bind fun _ => clean_startFresh.bind fun _ =>
    clean_importPrivateKey.bind fun _ => clean_importPublicKey

theorem CopiedState.Leaks.not_faulty {s : CopiedState} {x : Nat} {vs : List CopiedVar}
    (h : s.Leaks x vs) (hnull : ∀ v, v ∉ vs → s.handles.vars v = .null) :
    ¬ s.Faulty ∧ s.cleanedUp.handles.Owns CopiedVar.kind [] [(.key, x)] := by
  have hclean := h.1.releaseAll (by decide : cleanUp.Nodup) (fun v _ => mem_cleanUp v)
    fun v _ hv => hnull v hv
  exact ⟨not_not_intro (hclean.1.trans h.2), hclean.2⟩

theorem reallocate_keeps_var (api : CspApi) {v w : CopiedVar} (hne : v ≠ w) {x : Nat} :
    Script.Triple (fun s => s.handles.vars w = .value x) (reallocate api v)
      (fun _ s => s.handles.vars w = .value x) R := by
  have hrelease : Script.Triple (fun s => s.handles.vars w = .value x) (release v)
      (fun _ s => s.handles.vars w = .value x) R := by
    refine .modify fun s hs => ?_
    change (s.handles.release CopiedVar.kind v).vars w = .value x
    rw [HandleVars.vars_release]
    exact hs
  exact hrelease.bind fun _ => .modify fun _ hs => (Function.update_of_ne hne.symm _ _).trans hs

theorem clean_importPublicKeyInfo (api : CspApi) (x : Nat) :
    Script.Triple (fun s => s.Has [.hPublicKey, .pPubKeyBLOB, .hPrivateKey, .pPrivKeyBLOB, .pDER,
        .hProv, .pPEM, .pKeyInfo] ∧ s.handles.vars .hPublicKey = .value x)
      (importPublicKeyInfo api)
      (fun _ => CopiedState.Leaks x [.hPublicKey, .pKeyInfo, .pPubKeyBLOB, .hPrivateKey,
        .pPrivKeyBLOB, .pDER, .hProv, .pPEM]) fun s => ¬ s.Faulty := by
  have hall : ∀ v, v ∈ [CopiedVar.hPublicKey, .pPubKeyBLOB, .hPrivateKey, .pPrivKeyBLOB, .pDER,
      .hProv, .pPEM, .pKeyInfo] := by
    intro v
    cases v <;> decide
  have hagain : ∀ v, v ∈ [CopiedVar.pKeyInfo, .hPublicKey, .pPubKeyBLOB, .hPrivateKey,
      .pPrivKeyBLOB, .pDER, .hProv, .pPEM] := by
    intro v
    cases v <;> decide
  have hreallocate : Script.Triple (fun s => s.Has [.hPublicKey, .pPubKeyBLOB, .hPrivateKey,
      .pPrivKeyBLOB, .pDER, .hProv, .pPEM, .pKeyInfo] ∧ s.handles.vars .hPublicKey = .value x)
      (reallocate api .pKeyInfo)
      (fun _ s => s.Has [.pKeyInfo, .hPublicKey, .pPubKeyBLOB, .hPrivateKey, .pPrivKeyBLOB, .pDER,
        .hProv, .pPEM] ∧ s.handles.vars .hPublicKey = .value x) fun s => ¬ s.Faulty := by
    have hvar := reallocate_keeps_var api (R := fun _ => True) (v := .pKeyInfo)
      (w := .hPublicKey) (x := x) (by decide)
    exact ((triple_reallocate (R := fun s => ¬ s.Faulty) (by decide)).and hvar).conseq
      (fun _ hs => hs) (fun _ _ hs => hs) fun _ hs => hs.1
  have hinto : Script.Triple _ (api.exportPublicKeyInfoAgain.into (reallocate api .pKeyInfo)) _ _ :=
    TwoCall.triple_into hreallocate (fun _ hs => hs.1.not_faulty hall)
      fun _ hs => hs.1.not_faulty hagain
  refine hinto.bind fun info => ?_
  have hnull : Script.Triple (fun s => s.Has [.pKeyInfo, .hPublicKey, .pPubKeyBLOB, .hPrivateKey,
      .pPrivKeyBLOB, .pDER, .hProv, .pPEM] ∧ s.handles.vars .hPublicKey = .value x)
      (declare .hPublicKey)
      (fun _ s => s.Leaks x [.pKeyInfo, .pPubKeyBLOB, .hPrivateKey, .pPrivKeyBLOB, .pDER, .hProv,
        .pPEM] ∧ s.handles.vars .hPublicKey = .null) fun s => ¬ s.Faulty := by
    refine .modify fun s ⟨hs, hx⟩ => ?_
    obtain ⟨y, hy, howns⟩ := hs.1.setNull (v := .hPublicKey) (by decide)
    obtain rfl := Slot.value.inj (hx.symm.trans hy)
    exact ⟨⟨howns, hs.2⟩, HandleVars.vars_setNull⟩
  refine hnull.bind fun _ => ?_
  refine Script.Triple.bind (Q := fun _ => CopiedState.Leaks x _)
    (.require (fun _ _ hs => hs.1) fun _ s hs => ?_) fun _ => ?_
  · refine (hs.1.not_faulty fun v hv => ?_).1
    cases v with
    | hPublicKey => exact hs.2
    | _ => exact absurd (by decide) hv
  · exact .modify fun s ⟨howns, hfaults⟩ => ⟨howns.issue (by decide), hfaults⟩

end

/-- What is printed is the PEM, once, where all calls up to it succeed, and nothing
otherwise. -/
structure CopiedState.PrintsPem (api : CspApi) (s : CopiedState) : Prop where
  saved : ∀ blob der pem, api.Saves blob der pem → s.printed = [pem.cString]
  failed : (∀ blob der pem, ¬ api.Saves blob der pem) → s.printed = []

/-- `CryptImportKey` is given the block that has been decoded, with the length of
what it was decoded from. -/
def CopiedState.ImportsDecoded (api : CspApi) (s : CopiedState) : Prop :=
  ∀ key n, (key, n) ∈ s.imported ↔ ∃ back, api.Decodes back key ∧ n = back.written.length

/-- The assertion says nothing about the handles. -/
def CopiedState.Aside (I : CopiedState → Prop) : Prop :=
  ∀ s (vars : HandleVars CopiedVar CspResource), I s → I { s with handles := vars }

section

variable {api : CspApi} {I R : CopiedState → Prop}

theorem CopiedState.Aside.onHandles (h : Aside I)
    (f : HandleVars CopiedVar CspResource → HandleVars CopiedVar CspResource) :
    Script.Triple I (onHandles f) (fun _ => I) R :=
  .modify fun s hs => h s _ hs

theorem CopiedState.Aside.reallocate (h : Aside I) (v : CopiedVar) :
    Script.Triple I (reallocate api v) (fun _ => I) R :=
  (h.onHandles _).bind fun _ => h.onHandles _

theorem CopiedState.Aside.startFresh (h : Aside I) : (startFresh api).Keeps I := by
  refine (h.onHandles _).bind fun _ => (h.onHandles _).bind fun _ => ?_
  exact (h.onHandles _).bind fun _ => keeps_require.bind fun _ => h.onHandles _

theorem CopiedState.Aside.importPrivateKey (h : Aside I)
    (himport : ∀ s block, I s → I { s with imported := s.imported ++ [block] })
    (pem : Filled Char 1) :
    (importPrivateKey api pem).Keeps I := by
  refine (keeps_into (h.reallocate _)).bind fun back => ?_
  refine (keeps_into (h.reallocate _)).bind fun key => ?_
  have hmodify : (Script.modify fun s : CopiedState =>
      { s with imported := s.imported ++ [(key, back.written.length)] }).Keeps I :=
    .modify fun s hs => himport s _ hs
  exact hmodify.bind fun _ => keeps_require.bind fun _ => h.onHandles _

theorem CopiedState.Aside.importPublicKey (h : Aside I) : (importPublicKey api).Keeps I :=
  (keeps_into (h.onHandles _)).bind fun _ => keeps_require.bind fun _ => h.onHandles _

theorem CopiedState.Aside.importPublicKeyInfo (h : Aside I) :
    (importPublicKeyInfo api).Keeps I := by
  refine (keeps_into (h.reallocate _)).bind fun _ => (h.onHandles _).bind fun _ => ?_
  exact keeps_require.bind fun _ => h.onHandles _

/-- The program ends in order, or it prints the message at the label. -/
theorem Copied.main_eq (api : CspApi) :
    ∃ s r, (importKeys api >>= fun _ => importPublicKeyInfo api).run .start = (s, r) ∧
      ((r = some () ∧ Copied.main api = (s.cleanedUp, 0)) ∨
        (r = none ∧ Copied.main api = ((s.report api).cleanedUp, -1))) := by
  rcases hrun : (importKeys api >>= fun _ => importPublicKeyInfo api).run .start with ⟨s, _ | _⟩
  · exact ⟨s, none, rfl, .inr ⟨rfl, by rw [Copied.main, hrun]⟩⟩
  · exact ⟨s, some (), rfl, .inl ⟨rfl, by rw [Copied.main, hrun]⟩⟩

/-- The end of the program keeps what holds where the keys have been imported. -/
theorem Copied.main_keeps {P : CopiedState → Prop} (h : CopiedState.Aside I)
    (hkeys : Script.Triple P (importKeys api) (fun _ => I) I) (hstart : P .start) :
    ∃ s, I s ∧ ((Copied.main api = (s.cleanedUp, 0) ∧ ∃ back key, api.Imports back key) ∨
      Copied.main api = ((s.report api).cleanedUp, -1)) := by
  have hend : (importPublicKeyInfo api).Keeps I := h.importPublicKeyInfo
  obtain ⟨hok, hbad⟩ := hkeys.bind (fun _ => hend) _ hstart
  obtain ⟨s, r, hrun, ⟨rfl, hmain⟩ | ⟨rfl, hmain⟩⟩ := Copied.main_eq api
  · have hresult := Script.result_bind.mp (congrArg Prod.snd hrun)
    obtain ⟨_, himports, _⟩ := hresult
    exact ⟨s, hok s () hrun, .inl ⟨hmain, importKeys_result.mp himports⟩⟩
  · exact ⟨s, hbad s hrun, .inr hmain⟩

theorem CspApi.Saves.unique {blob blob' der der' : Filled UInt8 0} {pem pem' : Filled Char 1}
    (h : api.Saves blob der pem) (h' : api.Saves blob' der' pem') : pem = pem' := by
  have hpem := (savePrivateKey_result (s := .start)).mpr ⟨blob, der, h⟩
  have hpem' := (savePrivateKey_result (s := .start)).mpr ⟨blob', der', h'⟩
  exact Option.some.inj (hpem.symm.trans hpem')

theorem CspApi.Decodes.unique {back key back' key' : Filled UInt8 0} (h : api.Decodes back key)
    (h' : api.Decodes back' key') : back = back' ∧ key = key' := by
  obtain ⟨blob, der, pem, hsaves, _, hback, hkey⟩ := h
  obtain ⟨blob', der', pem', hsaves', _, hback', hkey'⟩ := h'
  obtain rfl := hsaves.unique hsaves'
  obtain rfl := TwoCall.fills.inj (hback.symm.trans hback')
  exact ⟨rfl, TwoCall.fills.inj (hkey.symm.trans hkey')⟩

/-- What the first part leaves, beside an assertion that it keeps until it prints. -/
theorem savePrivateKey_saves {J : Filled Char 1 → CopiedState → Prop} (h : CopiedState.Aside I)
    (hprint : ∀ pem s, I s → J pem { s with printed := s.printed ++ [pem.cString] }) :
    Script.Triple I (savePrivateKey api)
      (fun pem s => (∃ blob der, api.Saves blob der pem) ∧ J pem s)
      fun s => (∀ blob der pem, ¬ api.Saves blob der pem) ∧ I s := by
  have hkeeps : Script.Triple I (savePrivateKey api) J I :=
    savePrivateKey_keeps (fun v _ => h.onHandles _) (fun v _ => h.onHandles _) hprint
  refine (Script.Triple.of_result (P := fun _ => True).and hkeeps).conseq
    (fun _ hs => ⟨trivial, hs⟩) (fun pem s hs => ⟨?_, hs.2⟩) fun s hs => ⟨?_, hs.2⟩
  · obtain ⟨t, ht⟩ := hs.1
    exact savePrivateKey_result.mp ht
  · obtain ⟨t, ht⟩ := hs.1
    intro blob der pem hsaves
    exact absurd (ht.symm.trans (savePrivateKey_result.mpr ⟨blob, der, hsaves⟩)) (by simp)

theorem Filled.cString_of_readsBack {text : Filled Char 1} {xs : List UInt8}
    (h : ReadsBack text.written xs) : text.cString = text.written := by
  have hne : ∀ c ∈ text.written, (decide (c ≠ nul)) = true := by
    intro c hc
    refine decide_eq_true fun hnul => not_readsBack_of_nul ?_ h
    rw [hnul] at hc
    exact hc
  rw [Filled.cString, List.takeWhile_append_of_pos hne]
  simp

theorem startFresh_again (h : CopiedState.Aside I) :
    Script.Triple I (startFresh api) (fun _ s => api.acquireContextAgain = true ∧ I s)
      fun s => api.acquireContextAgain ≠ true ∧ I s := by
  refine ((Script.Triple.of_result (P := fun _ => True)).and h.startFresh).conseq
    (fun _ hs => ⟨trivial, hs⟩) (fun _ s hs => ⟨?_, hs.2⟩) fun s hs => ⟨?_, hs.2⟩
  · obtain ⟨t, ht⟩ := hs.1
    exact startFresh_result.mp ht
  · obtain ⟨t, ht⟩ := hs.1
    intro hagain
    exact absurd (ht.symm.trans (startFresh_result (a := ()).mpr hagain)) (by simp)

theorem prints_savePrivateKey :
    Script.Triple (fun s => s.printed = []) (savePrivateKey api)
      (fun _ => CopiedState.PrintsPem api) (CopiedState.PrintsPem api) := by
  have hempty : CopiedState.Aside fun s => s.printed = [] := fun _ _ hs => hs
  have hsaves : Script.Triple _ (savePrivateKey api) _ _ :=
    savePrivateKey_saves (J := fun pem s => s.printed = [pem.cString]) hempty
      fun pem s hs => by rw [hs, List.nil_append]
  refine hsaves.conseq (fun _ hs => hs) ?_ ?_
  · rintro pem s ⟨⟨blob, der, hsaves⟩, hprinted⟩
    refine ⟨fun blob' der' pem' hsaves' => ?_, fun hno => absurd hsaves (hno blob der pem)⟩
    rw [hsaves'.unique hsaves]
    exact hprinted
  · rintro s ⟨hno, hprinted⟩
    exact ⟨fun blob der pem hsaves => absurd hsaves (hno blob der pem), fun _ => hprinted⟩

theorem prints_importKeys :
    Script.Triple (fun s => s.printed = []) (importKeys api)
      (fun _ => CopiedState.PrintsPem api) (CopiedState.PrintsPem api) := by
  have haside : CopiedState.Aside (CopiedState.PrintsPem api) := fun _ _ hs => ⟨hs.saved, hs.failed⟩
  refine prints_savePrivateKey.bind fun pem => haside.startFresh.bind fun _ => ?_
  refine (haside.importPrivateKey (fun _ _ hs => ⟨hs.saved, hs.failed⟩) pem).bind fun _ => ?_
  exact haside.importPublicKey

/-- Every call succeeds. The DER has a byte more than the block of the key that it
is decoded to. -/
def copiedApi : CspApi where
  acquireContext := true
  genKey := true
  exportPublicKeyInfo := exactly [48, 1, 0]
  importPublicKeyInfo _ := true
  exportPrivateKey := exactly [7, 2, 0, 0]
  encodeObject xs := if xs = [7, 2, 0, 0] then exactly [48, 3, 2, 1, 0] else .queryFails 13
  binaryToString xs :=
    if xs = [48, 3, 2, 1, 0] then
      exactly (Pem.ofBytes "CERTIFICATE".toList isLabel_certificate .crlf .crlf xs).text
    else .queryFails 13
  acquireContextAgain := true
  stringToBinary _ := exactly [48, 3, 2, 1, 0]
  decodeObject _ := exactly [7, 2, 0, 0]
  importPrivateKey _ _ := true
  exportPublicKey := exactly [6, 2, 0, 0]
  importPublicKey _ := true
  exportPublicKeyInfoAgain := exactly [48, 1, 0]
  importPublicKeyInfoAgain _ := true
  message := "(null)".toList
  fresh t := t.next

theorem copiedApi_binaryToString {xs : List UInt8} {text : Filled Char 1}
    (h : copiedApi.binaryToString xs = .fills text) : xs = [48, 3, 2, 1, 0] := by
  by_contra hne
  have hfails : copiedApi.binaryToString xs = .queryFails 13 := if_neg hne
  exact absurd (hfails.symm.trans h) (by simp)

theorem copiedApi_encodeObject {xs : List UInt8} {der : Filled UInt8 0}
    (h : copiedApi.encodeObject xs = .fills der) : xs = [7, 2, 0, 0] := by
  by_contra hne
  have hfails : copiedApi.encodeObject xs = .queryFails 13 := if_neg hne
  exact absurd (hfails.symm.trans h) (by simp)

theorem copiedApi_encodes : ∀ xs text, copiedApi.binaryToString xs = .fills text →
    ReadsBack text.written xs := by
  intro xs text htext
  obtain rfl := copiedApi_binaryToString htext
  obtain rfl := TwoCall.fills.inj htext
  exact ⟨_, rfl, Pem.content_ofBytes isLabel_certificate .crlf .crlf _⟩

/-- Where the PEM encoder's texts can be read back, the program prints one that is read
back as the DER of the private key, if all calls up to it succeed, and no other; what
follows, and what is printed otherwise, is the message for the call that has failed. -/
theorem copied_prints_key (api : CspApi)
    (hencodes : ∀ xs text, api.binaryToString xs = .fills text → ReadsBack text.written xs) :
    (∀ blob der pem, api.Saves blob der pem → ReadsBack pem.written der.written ∧
      (Copied.main api).1.printed =
        pem.written :: if (Copied.main api).2 = 0 then [] else [api.message]) ∧
    ((∀ blob der pem, ¬ api.Saves blob der pem) →
      (Copied.main api).1.printed = [api.message]) := by
  obtain ⟨s, hprints, hmain⟩ : ∃ s : CopiedState, s.PrintsPem api ∧ _ :=
    Copied.main_keeps (fun _ _ hs => ⟨hs.saved, hs.failed⟩) prints_importKeys rfl
  constructor
  · intro blob der pem hsaves
    have hback : ReadsBack pem.written der.written := by
      obtain ⟨_, _, _, _, _, _, _, hpem⟩ := hsaves
      exact hencodes _ _ hpem
    have hprinted := hprints.saved blob der pem hsaves
    rw [Filled.cString_of_readsBack hback] at hprinted
    refine ⟨hback, ?_⟩
    rcases hmain with ⟨hmain, _⟩ | hmain
    · rw [hmain, if_pos rfl]
      exact hprinted
    · rw [hmain, if_neg (by simp)]
      exact congrArg (· ++ [api.message]) hprinted
  · intro hno
    rcases hmain with ⟨_, back, key, ⟨blob, der, pem, hsaves, _⟩, _⟩ | hmain
    · exact absurd hsaves (hno blob der pem)
    · rw [hmain]
      exact congrArg (· ++ [api.message]) (hprints.failed hno)

theorem copied_prints_key_exact : ∃ pem, (Copied.main copiedApi).1.printed = [pem] ∧
    ReadsBack pem [48, 3, 2, 1, 0] := by
  have hsaves : copiedApi.Saves _ _ _ := ⟨_, rfl, rfl, rfl, rfl, rfl, rfl, rfl⟩
  obtain ⟨hback, hprinted⟩ := (copied_prints_key copiedApi copiedApi_encodes).1 _ _ _ hsaves
  have hzero : (Copied.main copiedApi).2 = 0 := rfl
  rw [hzero, if_pos rfl] at hprinted
  exact ⟨_, hprinted, hback⟩

theorem importsDecoded_of_none {s : CopiedState} (hno : ∀ back key, ¬ api.Decodes back key)
    (hs : s.imported = []) : s.ImportsDecoded api := by
  intro key n
  refine iff_of_false (by simp [hs]) ?_
  rintro ⟨back, hdecodes, _⟩
  exact hno back key hdecodes

theorem imports_importPrivateKey {pem : Filled Char 1} {blob der : Filled UInt8 0}
    (hsaves : api.Saves blob der pem) (hagain : api.acquireContextAgain = true) :
    Script.Triple (fun s => s.imported = []) (importPrivateKey api pem)
      (fun _ => CopiedState.ImportsDecoded api) (CopiedState.ImportsDecoded api) := by
  have hempty : CopiedState.Aside fun s => s.imported = [] := fun _ _ hs => hs
  have haside : CopiedState.Aside (CopiedState.ImportsDecoded api) := fun _ _ hs => hs
  have hback : (∀ back, api.stringToBinary pem.written ≠ .fills back) →
      ∀ s : CopiedState, s.imported = [] → s.ImportsDecoded api := by
    intro hno s
    apply importsDecoded_of_none
    rintro back key ⟨blob', der', pem', hsaves', _, hback, _⟩
    exact hno back (hsaves.unique hsaves' ▸ hback)
  refine (TwoCall.triple_into_fills (hempty.reallocate .pDER) hback hback).bind fun back => ?_
  refine Script.Triple.of_pure fun hfills => ?_
  have hkey : (∀ key, api.decodeObject back.written ≠ .fills key) →
      ∀ s : CopiedState, s.imported = [] → s.ImportsDecoded api := by
    intro hno s
    apply importsDecoded_of_none
    rintro back' key ⟨blob', der', pem', hsaves', _, hback', hkey⟩
    obtain rfl := hsaves.unique hsaves'
    obtain rfl := TwoCall.fills.inj (hfills.symm.trans hback')
    exact hno key hkey
  refine (TwoCall.triple_into_fills (hempty.reallocate .pPrivKeyBLOB) hkey hkey).bind
    fun key => ?_
  refine Script.Triple.of_pure fun hdecoded => ?_
  have hdecodes : api.Decodes back key := ⟨blob, der, pem, hsaves, hagain, hfills, hdecoded⟩
  refine Script.Triple.bind (Q := fun _ => CopiedState.ImportsDecoded api)
    (.modify fun s hs key' n => ?_) fun _ => keeps_require.bind fun _ => haside.onHandles _
  rw [hs, List.nil_append, List.mem_singleton, Prod.mk.injEq]
  constructor
  · rintro ⟨rfl, rfl⟩
    exact ⟨back, hdecodes, rfl⟩
  · rintro ⟨back', hdecodes', rfl⟩
    obtain ⟨rfl, rfl⟩ := hdecodes.unique hdecodes'
    exact ⟨rfl, rfl⟩

theorem imports_importKeys :
    Script.Triple (fun s => s.imported = []) (importKeys api)
      (fun _ => CopiedState.ImportsDecoded api) (CopiedState.ImportsDecoded api) := by
  have hempty : CopiedState.Aside fun s => s.imported = [] := fun _ _ hs => hs
  have haside : CopiedState.Aside (CopiedState.ImportsDecoded api) := fun _ _ hs => hs
  have hsave : Script.Triple _ (savePrivateKey api) _ _ :=
    savePrivateKey_saves (J := fun _ s => s.imported = []) hempty fun _ _ hs => hs
  refine (hsave.conseq (fun _ hs => hs) (fun _ _ hs => hs) fun s hs => ?_).bind fun pem => ?_
  · refine importsDecoded_of_none ?_ hs.2
    rintro back key ⟨blob, der, pem, hsaves, _⟩
    exact hs.1 blob der pem hsaves
  · refine Script.Triple.of_pure fun ⟨blob, der, hsaves⟩ => ?_
    refine ((startFresh_again hempty).conseq (fun _ hs => hs) (fun _ _ hs => hs)
      fun s hs => ?_).bind fun _ => Script.Triple.of_pure fun hagain => ?_
    · refine importsDecoded_of_none ?_ hs.2
      rintro back key ⟨_, _, _, _, hagain, _⟩
      exact hs.1 hagain
    · exact (imports_importPrivateKey hsaves hagain).bind fun _ => haside.importPublicKey

/-- Where the decoders undo what the encoders did, the private key that goes into
the new provider is the one that came out of the old one; but the length with which
it is imported is that of the DER, which the block need not have. -/
theorem copied_imports_exported (api : CspApi)
    (hstring : ∀ xs text back, api.binaryToString xs = .fills text →
      api.stringToBinary text.written = .fills back → back.written = xs)
    (hobject : ∀ xs der key, api.encodeObject xs = .fills der →
      api.decodeObject der.written = .fills key → key.written = xs)
    (key : Filled UInt8 0) (n : Nat) :
    (key, n) ∈ (Copied.main api).1.imported ↔
      ∃ blob der back, api.Decodes back key ∧ api.exportPrivateKey = .fills blob ∧
        api.encodeObject blob.written = .fills der ∧ key.written = blob.written ∧
        n = der.written.length := by
  have hmain : CopiedState.ImportsDecoded api (Copied.main api).1 := by
    obtain ⟨s, hs, ⟨hmain, _⟩ | hmain⟩ : ∃ s : CopiedState, s.ImportsDecoded api ∧ _ :=
      Copied.main_keeps (fun _ _ hs => hs) imports_importKeys rfl
    · rw [hmain]
      exact hs
    · rw [hmain]
      exact hs
  have hround : ∀ back, api.Decodes back key → ∃ blob der, api.exportPrivateKey = .fills blob ∧
      api.encodeObject blob.written = .fills der ∧ key.written = blob.written ∧
      back.written = der.written := by
    rintro back ⟨blob, der, pem, ⟨_, _, _, _, _, hblob, hder, hpem⟩, _, hback, hkey⟩
    have hder' := hstring _ _ _ hpem hback
    rw [hder'] at hkey
    exact ⟨blob, der, hblob, hder, hobject _ _ _ hder hkey, hder'⟩
  rw [hmain]
  constructor
  · rintro ⟨back, hdecodes, rfl⟩
    obtain ⟨blob, der, hblob, hder, hkey, hback⟩ := hround back hdecodes
    exact ⟨blob, der, back, hdecodes, hblob, hder, hkey, by rw [hback]⟩
  · rintro ⟨blob, der, back, hdecodes, hblob, hder, _, rfl⟩
    obtain ⟨blob', der', hblob', hder', _, hback⟩ := hround back hdecodes
    obtain rfl := TwoCall.fills.inj (hblob.symm.trans hblob')
    obtain rfl := TwoCall.fills.inj (hder.symm.trans hder')
    exact ⟨back, hdecodes, by rw [hback]⟩

/-- The block has four bytes, and the import is told five. -/
theorem copied_imports_exported_exact : ∃ key, key.reported = 4 ∧
    (key, 5) ∈ (Copied.main copiedApi).1.imported := by
  have hdecodes : copiedApi.Decodes _ _ :=
    ⟨_, _, _, ⟨_, rfl, rfl, rfl, rfl, rfl, rfl, rfl⟩, rfl, rfl, rfl⟩
  refine ⟨_, rfl, (copied_imports_exported copiedApi (fun xs text back htext hback => ?_)
    (fun xs der key hder hkey => ?_) _ 5).mpr ⟨_, _, _, hdecodes, rfl, rfl, rfl, rfl⟩⟩
  · obtain rfl := TwoCall.fills.inj hback
    exact (copiedApi_binaryToString htext).symm
  · obtain rfl := TwoCall.fills.inj hkey
    exact (copiedApi_encodeObject hder).symm

/-- The clean-up is reached from a part that has failed, or from the end of the
last one, or from its failure. -/
theorem Copied.main_cases (api : CspApi) :
    (∃ t : CopiedState, (Copied.main api).1 = t.cleanedUp ∧ t.Faulty ∧
        (Copied.main api).2 ≠ 0 ∧ ¬ ∃ back key, api.Imports back key) ∨
      ∃ t : CopiedState, (Copied.main api).1 = t.cleanedUp ∧ ¬ t.Faulty ∧
        (∃ back key, api.Imports back key) ∧ ((Copied.main api).2 = 0 →
          ∃ s x, (importKeys api).run .start = (s, some ()) ∧
            s.handles.vars .hPublicKey = .value x ∧
            t.cleanedUp.handles.Owns CopiedVar.kind [] [(.key, x)]) := by
  obtain ⟨hok, hbad⟩ := clean_importKeys api .start ⟨CopiedState.start_has, rfl⟩
  have hresult : ((importKeys api).run .start).2 = some () ↔ _ := importKeys_result
  rcases hkeys : (importKeys api).run .start with ⟨t, _ | _⟩
  · have hmain : Copied.main api = ((t.report api).cleanedUp, -1) := by
      rw [Copied.main, Script.run_bind_none hkeys]
    rw [hmain]
    refine .inl ⟨t.report api, rfl, hbad t hkeys, by simp, fun himports => ?_⟩
    exact absurd ((congrArg Prod.snd hkeys).symm.trans (hresult.mpr himports)) (by simp)
  · have himports := hresult.mp (congrArg Prod.snd hkeys)
    have hhas := hok t () hkeys
    obtain ⟨x, hx, _⟩ := hhas.1.held .hPublicKey (by decide)
    obtain ⟨hend, hlabel⟩ := clean_importPublicKeyInfo api x t ⟨hhas, hx⟩
    rcases hinfo : (importPublicKeyInfo api).run t with ⟨u, _ | _⟩
    · have hmain : Copied.main api = ((u.report api).cleanedUp, -1) := by
        rw [Copied.main, Script.run_bind_some hkeys, hinfo]
      rw [hmain]
      exact .inr ⟨u.report api, rfl, hlabel u hinfo, himports, fun hzero => absurd hzero (by simp)⟩
    · have hmain : Copied.main api = (u.cleanedUp, 0) := by
        rw [Copied.main, Script.run_bind_some hkeys, hinfo]
      rw [hmain]
      obtain ⟨hclean, hlost⟩ := (hend u () hinfo).not_faulty fun v hv => by
        cases v <;> exact absurd (by decide) hv
      exact .inr ⟨u, rfl, hclean, himports, fun _ => ⟨t, x, rfl, hx, hlost⟩⟩

/-- The clean-up at the end and the one at the label release only what is there, and
that once, exactly if the public key has been imported again: every failure before
that leaves a variable that is not initialised, or that refers to what has been
released. -/
theorem copied_cleans_up_iff (api : CspApi) :
    (Copied.main api).1.handles.faults = [] ↔ ∃ back key, api.Imports back key := by
  rcases Copied.main_cases api with ⟨t, ht, hfaulty, _, hno⟩ | ⟨t, ht, hclean, himports, _⟩
  · rw [ht]
    exact iff_of_false hfaulty hno
  · rw [ht]
    exact iff_of_true (not_not.mp hclean) himports

/-- `hPublicKey = 0` loses a handle: a run that returns 0 leaves the key open that
`hPublicKey` refers to once the keys have been imported, and nothing else. -/
theorem copied_leaves_key (api : CspApi) (h : (Copied.main api).2 = 0) :
    ∃ s x, (importKeys api).run .start = (s, some ()) ∧ s.handles.vars .hPublicKey = .value x ∧
      ∀ o y, (Copied.main api).1.handles.table.Holds o y ↔ o = .key ∧ y = x := by
  rcases Copied.main_cases api with ⟨_, _, _, hne, _⟩ | ⟨t, ht, _, _, hlost⟩
  · exact absurd h hne
  · obtain ⟨s, x, hkeys, hx, howns⟩ := hlost h
    refine ⟨s, x, hkeys, hx, fun o y => ?_⟩
    rw [ht, howns.covers]
    simp

theorem copied_leaves_key_exact : ∃ s x, (importKeys copiedApi).run .start = (s, some ()) ∧
    s.handles.vars .hPublicKey = .value x ∧
      ∀ o y, (Copied.main copiedApi).1.handles.table.Holds o y ↔ o = .key ∧ y = x :=
  copied_leaves_key copiedApi rfl

end

end ScratchServers
