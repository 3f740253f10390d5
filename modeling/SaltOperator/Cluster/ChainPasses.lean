import SaltOperator.Cluster.PassRules

/-!
# The chain after acceptance keeps the contract

One lemma a step of `reconcilePostAccept`, then the ways `checkReconvergence`
starts the chain again.
-/

namespace SaltOperator

variable {rt : Runtime} {crash : Prop} {k : NamespacedName}
  {P : Option (VirtualMachine × SaltKeyConfig)} {cfg : SaltKeyConfig} {m m' : VirtualMachine}
  {h : History} {conn : Connection} {minionID : String}

/-- The object of a pass after `clearPreseedKey`: as before but for the marker. -/
structure KeptBut (x : String) (m m' : VirtualMachine) : Prop where
  key : m'.key = m.key
  uid : m'.uid = m.uid
  annotationOf : ∀ a ∈ ownAnnotations, a ≠ x → m'.annotationOf a = m.annotationOf a

theorem KeptBut.refl (x : String) (m : VirtualMachine) : KeptBut x m m :=
  ⟨rfl, rfl, fun _ _ _ => rfl⟩

theorem Patched.keptBut {x v : String} (hp : Patched m [(x, v)] m') : KeptBut x m m' := by
  refine ⟨hp.key, hp.uid, fun a ha hax => ?_⟩
  rw [hp.annotationOf ha]
  simp [hax]

theorem KeptBut.inChain {s : String} (hk : KeptBut annotationKeyCleared m m')
    (hc : m.InChain s) : m'.InChain s := by
  unfold VirtualMachine.InChain
  rw [hk.annotationOf annotationKeyStatus (by decide) (by decide),
    hk.annotationOf annotationMinionID (by decide) (by decide),
    hk.annotationOf annotationSaltStatus (by decide) (by decide)]
  exact hc

/-- What `clearPreseedKey` and the `switch` of `reconcileCreate` leave. -/
def Cleared (P : Option (VirtualMachine × SaltKeyConfig)) (m : VirtualMachine) (h : History)
    (r : Except String VirtualMachine) : Prop :=
  match r with
  | .ok m' => At P m' h ∧ KeptBut annotationKeyCleared m m'
  | .error _ => h.passInputs = P ∧ h.startPending = none

/-- The Secret is cleared, or there is none. -/
theorem clearBootstrapKey_keeps (hat : At P m h)
    (hpre : m.annotationOf annotationMatchMethod = matchMethodPreseed) :
    (clearBootstrapKey m).Keeps rt crash k (fun h' r => At P m h' ∧
      (r = .ok () → h'.JustPatched m.bootstrapKey clearedEntries)) h := by
  refine keeps_perform ⟨m, hat.vm, hpre, rfl, rfl⟩ fun w a _ => ?_
  rcases a with e | u
  · cases e with
    | notFound t => exact ⟨⟨hat.inputs, hat.idle, hat.vm⟩, fun _ => ⟨rfl, rfl⟩⟩
    | _ => exact ⟨⟨hat.inputs, hat.idle, hat.vm⟩, nofun⟩
  · exact ⟨⟨hat.inputs, hat.idle, hat.vm⟩, fun _ => ⟨rfl, rfl⟩⟩

theorem clearPreseedKey_keeps (hat : At P m h) (trigger : String) :
    (clearPreseedKey m trigger).Keeps rt crash k (Cleared P m) h := by
  unfold clearPreseedKey
  split
  · exact ⟨hat, .refl _ _⟩
  · rename_i hm
    have hpre : m.annotationOf annotationMatchMethod = matchMethodPreseed := by
      by_contra hne
      exact hm (.inl hne)
    have quit : ∀ {m' : VirtualMachine} {h₁ h₂ : History}, At P m' h₁ → h₁.Quietly h₂ →
        Cleared P m h₂ (.error "") := fun hat hq => ⟨(hat.quietly hq).inputs, (hat.quietly hq).idle⟩
    refine Prog.Obeys.bind ((clearBootstrapKey_keeps hat hpre).mono fun h₁ r hr => ?_)
    obtain ⟨hat₁, hcleared⟩ := hr
    cases r with
    | error e => exact ⟨hat₁.inputs, hat₁.idle⟩
    | ok u =>
    refine hat₁.patch (.keyCleared hpre (hcleared rfl)) (fun m' h₂ hat₂ hp _ => ?_)
      fun _ _ hi hs => ⟨hi, hs⟩
    refine (logInfo_quiet (by decide) (by decide)).obeys_bind (fun _ h₃ hq₃ => ?_)
      fun _ _ hq₃ => quit hat₂ hq₃
    have hat₃ := hat₂.quietly hq₃
    refine recordEvent_quiet.obeys_bind (fun _ h₄ hq₄ => ?_) fun _ _ hq₄ => quit hat₃ hq₄
    exact ⟨hat₃.quietly hq₄, hp.keptBut⟩

theorem At.clear {p : M VirtualMachine} {f : VirtualMachine → M Result}
    (hp : p.Keeps rt crash k (Cleared P m) h)
    (hf : ∀ m' h', At P m' h' → KeptBut annotationKeyCleared m m' →
      (f m').Keeps rt crash k (Finishes P cfg) h') :
    (p >>= f).Keeps rt crash k (Finishes P cfg) h := by
  refine Prog.Obeys.bind (hp.mono fun h' r hr => ?_)
  cases r with
  | ok m' => exact hf m' h' hr.1 hr.2
  | error e => exact ⟨hr.1, hr.2, nofun⟩

/-! ## The steps -/

/-- A patch that takes the chain to a failure leaves nothing to requeue for. -/
theorem requeues_failed {additions : List (String × String)} {s : String} {res : Result}
    (hp : Patched m additions m') (hk : m.annotationOf annotationKeyStatus = keyStatusAccepted)
    (hl : additions.reverse.lookup annotationKeyStatus = none)
    (hs : additions.reverse.lookup annotationSaltStatus = some s)
    (hf : s ∉ ["", saltStatusPinged, saltStatusPillarRefreshed, saltStatusHighstateDispatched]) :
    Requeues cfg m' res := by
  intro hn
  have hk' : m'.annotationOf annotationKeyStatus = keyStatusAccepted := by
    rw [hp.annotationOf (by decide), hl]
    exact hk
  have hs' : m'.annotationOf annotationSaltStatus = s := by
    rw [hp.annotationOf (by decide), hs]
    rfl
  rcases hn with hn | hn | ⟨-, hn⟩
  · rw [hk'] at hn
    simp [keyStatusAccepted] at hn
  · rw [hk'] at hn
    simp [keyStatusAccepted, keyStatusPreseeded] at hn
  · rw [hs'] at hn
    exact absurd hn hf

theorem pingFailed_keeps (hat : At P m h) (hc : m.InChain "") {before : String} {started : Time}
    {outcome : Except String Bool} :
    (pingFailed rt m conn minionID before started outcome).Keeps rt crash k
      (Finishes P cfg) h := by
  refine hat.step masterSilence_quiet fun silent h₁ hat₁ _ => ?_
  refine hat₁.step (logError_quiet (by decide) (by decide)) fun _ h₂ hat₂ _ => ?_
  refine hat₂.step timeNow_quiet fun now h₃ hat₃ _ => ?_
  split
  · refine hat₃.step (logInfo_quiet (by decide) (by decide)) fun _ h₄ hat₄ _ => ?_
    refine hat₄.step recordEvent_quiet fun _ h₅ hat₅ _ => ?_
    exact hat₅.returns (requeues_pos (by decide))
  · refine At.clear (clearPreseedKey_keeps hat₃ _) fun m' h₄ hat₄ hkept => ?_
    have hc' := hkept.inChain hc
    exact hat₄.patch_report (.pingFailed hc') (fun _ => recordEvent_quiet)
      fun m'' hp => requeues_failed hp hc'.1 rfl rfl (by decide)

theorem runPing_keeps (hat : At P m h) (hc : m.InChain "") :
    (runPing rt m conn minionID cfg.requeueAfter).Keeps rt crash k (Finishes P cfg) h := by
  refine hat.step (logInfo_quiet (by decide) (by decide)) fun _ h₁ hat₁ _ => ?_
  refine hat₁.step masterLastSeen_quiet fun before h₂ hat₂ _ => ?_
  refine hat₂.step timeNow_quiet fun started h₃ hat₃ _ => ?_
  refine hat₃.step (Prog.quiet_perform rfl) fun outcome h₄ hat₄ _ => ?_
  split
  · refine hat₄.step (logInfo_quiet (by decide) (by decide)) fun _ h₅ hat₅ _ => ?_
    refine At.clear (clearPreseedKey_keeps hat₅ _) fun m' h₆ hat₆ hkept => ?_
    exact hat₆.patch_report (.pinged (hkept.inChain hc))
      (fun _ => recordEvent_quiet) fun _ _ => requeues_interval
  · exact pingFailed_keeps hat₄ hc

theorem refreshPillarFailed_keeps (hat : At P m h) (hc : m.InChain saltStatusPinged)
    {before : String} {started : Time} {outcome : Except String Bool} :
    (refreshPillarFailed rt m conn minionID before started outcome).Keeps rt crash k
      (Finishes P cfg) h := by
  refine hat.step masterSilence_quiet fun silent h₁ hat₁ _ => ?_
  refine hat₁.step (logError_quiet (by decide) (by decide)) fun _ h₂ hat₂ _ => ?_
  refine hat₂.step timeNow_quiet fun now h₃ hat₃ _ => ?_
  split
  · refine hat₃.step (logInfo_quiet (by decide) (by decide)) fun _ h₄ hat₄ _ => ?_
    refine hat₄.step recordEvent_quiet fun _ h₅ hat₅ _ => ?_
    exact hat₅.returns (requeues_pos (by decide))
  · exact hat₃.patch_report (.refreshFailed hc) (fun _ => recordEvent_quiet)
      fun m' hp => requeues_failed hp hc.1 rfl rfl (by decide)

theorem runRefreshPillar_keeps (hat : At P m h) (hc : m.InChain saltStatusPinged) :
    (runRefreshPillar rt m conn minionID cfg.requeueAfter).Keeps rt crash k
      (Finishes P cfg) h := by
  refine hat.step (logInfo_quiet (by decide) (by decide)) fun _ h₁ hat₁ _ => ?_
  refine hat₁.step masterLastSeen_quiet fun before h₂ hat₂ _ => ?_
  refine hat₂.step timeNow_quiet fun started h₃ hat₃ _ => ?_
  refine keeps_salt trivial fun w outcome _ => ?_
  have hat₄ : At P m (⟨w, .salt conn (.refreshPillar minionID), outcome⟩ :: h₃) :=
    ⟨hat₃.inputs, hat₃.idle, hat₃.vm⟩
  split
  · refine hat₄.step (logInfo_quiet (by decide) (by decide)) fun _ h₅ hat₅ hq => ?_
    have href : h₅.refreshPending = true := by
      rw [hq.refreshPending]
      rfl
    exact hat₅.patch_report (.refreshed hc href)
      (fun _ => recordEvent_quiet) fun _ _ => requeues_interval
  · exact refreshPillarFailed_keeps hat₄ hc

/-- The JID of a dispatched job is not empty. -/
theorem dispatched_jid {jid : String}
    (hp : (SaltCall.dispatchHighstate minionID).Returns rt (.ok jid)) : jid ≠ "" := by
  obtain ⟨p, q, hd⟩ := hp
  exact dispatch_ne_empty hd.symm

theorem runDispatchHighstate_keeps (hat : At P m h) (hc : m.InChain saltStatusPillarRefreshed) :
    (runDispatchHighstate rt m conn minionID cfg.requeueAfter).Keeps rt crash k
      (Finishes P cfg) h := by
  refine hat.step (logInfo_quiet (by decide) (by decide)) fun _ h₁ hat₁ _ => ?_
  refine keeps_salt trivial fun w outcome ha => ?_
  have hat₂ : At P m (⟨w, .salt conn (.dispatchHighstate minionID), outcome⟩ :: h₁) :=
    ⟨hat₁.inputs, hat₁.idle, hat₁.vm⟩
  cases outcome with
  | error e =>
    refine hat₂.step (logError_quiet (by decide) (by decide)) fun _ h₃ hat₃ _ => ?_
    exact hat₃.patch_report (.dispatchFailed hc)
      (fun _ => recordEvent_quiet) fun m' hp => requeues_failed hp hc.1 rfl rfl (by decide)
  | ok jid =>
    refine hat₂.patch
      (.dispatched jid hc (dispatched_jid ha) ⟨w, conn, minionID, h₁, rfl⟩)
      (fun m' h₃ hat₃ _ _ => ?_) fun _ _ hi hs => ⟨hi, hs, nofun⟩
    refine hat₃.step (logInfo_quiet (by decide) (by decide)) fun _ h₄ hat₄ _ => ?_
    refine hat₄.step recordEvent_quiet fun _ h₅ hat₅ _ => ?_
    exact hat₅.returns requeues_interval

theorem recordHighstate_keeps (hat : At P m h) (hc : m.InChain saltStatusHighstateDispatched)
    {jid : String} {result : JIDResult}
    (hr : result.highstateOK = true → h.ReportedOK (m.annotationOf annotationHighstateJID)) :
    (recordHighstate rt m minionID jid result cfg.requeueAfter).Keeps rt crash k
      (Finishes P cfg) h := by
  refine hat.step nowText_quiet fun now h₁ hat₁ hq₁ => ?_
  split
  · rename_i hok
    refine hat₁.step (logInfo_quiet (by decide) (by decide)) fun _ h₂ hat₂ hq₂ => ?_
    exact hat₂.patch_report
      (.highstateReady now hc (((hr hok).quietly hq₁).quietly hq₂))
      (fun _ => recordEvent_quiet) fun _ _ => requeues_interval
  · refine hat₁.step (logInfo_quiet (by decide) (by decide)) fun _ h₂ hat₂ _ => ?_
    exact hat₂.patch_report (.highstateFailed now _ _ hc)
      (fun _ => recordEvent_quiet) fun m' hp => requeues_failed hp hc.1 rfl rfl (by decide)

theorem runPollHighstate_keeps (hat : At P m h) (hc : m.InChain saltStatusHighstateDispatched) :
    (runPollHighstate rt m conn minionID (m.annotationOf annotationHighstateJID)
      cfg.requeueAfter).Keeps rt crash k (Finishes P cfg) h := by
  unfold runPollHighstate
  split
  · refine hat.step (logError_quiet (by decide) (by decide)) fun _ h₁ hat₁ _ => ?_
    exact hat₁.returns requeues_interval
  · refine keeps_salt (permitted_of_quiet rfl) fun w a _ => ?_
    have hat₁ : At P m
        (⟨w, .salt conn (.pollJID minionID (m.annotationOf annotationHighstateJID)), a⟩ :: h) :=
      ⟨hat.inputs, hat.idle, hat.vm⟩
    rcases a with e | _ | result
    · refine hat₁.step (logError_quiet (by decide) (by decide)) fun _ h₂ hat₂ _ => ?_
      exact hat₂.returns requeues_interval
    · refine hat₁.step (logInfo_quiet (by decide) (by decide)) fun _ h₂ hat₂ _ => ?_
      exact hat₂.returns requeues_interval
    · refine recordHighstate_keeps hat₁ hc fun hok => ?_
      have hok' : result.success = true ∧ result.retcode = 0 := by
        simpa [JIDResult.highstateOK] using hok
      exact ⟨w, conn, minionID, result, List.mem_cons_self, hok'⟩

/-! ## Starting the chain again -/

section start

variable {vm seen : VirtualMachine}

/-- Announce a chain start: from here on the pass owes its write. -/
theorem At.announce {message : String} {fields : List (String × String)} {f : Unit → M Result}
    (hat : At P m h) (hm : isStart message = true) (hs : Start rt h message)
    (hf : ∀ h', Owes P m h.dueJust h' →
      (∃ w, h' = ⟨w, .log none message fields, ()⟩ :: h) →
      (f ()).Keeps rt crash k (Finishes P cfg) h') :
    (logInfo message fields >>= f).Keeps rt crash k (Finishes P cfg) h := by
  refine ⟨fun _ => ⟨hat.idle, hs⟩, fun w a _ => hf _ ⟨hat.inputs, ?_, hat.vm⟩ ⟨w, rfl⟩⟩
  show (if isStart message = true then some h.dueJust else h.startPending) = some h.dueJust
  rw [if_pos hm]

/-- The object the worker holds is the first of those it was sent. -/
theorem served_of_lastVM (hvm : h.lastVM = some m) : ∃ rest, h.served = m :: rest := by
  have hhead : h.served.head? = some m := (List.head?_filterMap ..).trans hvm
  exact List.head?_eq_some_iff.mp hhead

theorem lastVM_mem_served (hvm : h.lastVM = some m) : m ∈ h.served := by
  obtain ⟨rest, hserved⟩ := served_of_lastVM hvm
  rw [hserved]
  exact List.mem_cons_self

theorem lastVM_mem_lastTwo (hvm : h.lastVM = some m) : m ∈ h.lastTwo := by
  obtain ⟨rest, hserved⟩ := served_of_lastVM hvm
  unfold History.lastTwo
  rw [hserved]
  exact List.mem_cons_self

/-- The object a worker held before it was sent another one. -/
theorem mem_lastTwo_cons {c : Made} (hvm : h.lastVM = some m) (hc : c.vm?.isSome = true) :
    m ∈ History.lastTwo (c :: h) := by
  obtain ⟨m', hm'⟩ := Option.isSome_iff_exists.mp hc
  obtain ⟨rest, hserved⟩ := served_of_lastVM hvm
  have hcons : History.served (c :: h) = m' :: h.served := List.filterMap_cons_some hm'
  unfold History.lastTwo
  rw [hcons, hserved]
  exact List.mem_cons_of_mem _ List.mem_cons_self

theorem restartFirstChain_keeps (hat : At (some (vm, cfg)) m h) (hr : m.AtRest)
    (hf : m.chainFailed = true) (hh : m.annotationOf annotationRolesHash = "") :
    (restartFirstChain m cfg minionID cfg.requeueAfter).Keeps rt crash k
      (Finishes (some (vm, cfg)) cfg) h := by
  unfold restartFirstChain
  split
  · exact hat.returns (requeues_atRest hr)
  · rename_i hnone
    have hcause : Cause rt m cfg := by
      simp only [Bool.and_eq_true, Bool.not_eq_true', not_and, Bool.not_eq_false] at hnone
      by_cases hq : retryRequested m = true
      · exact .inr (.inl hq)
      · exact .inr (.inr ⟨hnone (by simpa using hq), hf⟩)
    refine hat.announce (by decide) (.restart vm m cfg hat.vm hat.inputs hcause)
      fun h₁ ho _ => ?_
    exact keeps_patch_report ho.vm ho.inputs
      (.restart vm cfg hr hf hh ho.inputs (by rw [ho.pending]; rfl) hcause)
      (.inr ⟨m, cfg, _, ⟨.inl rfl, lastVM_mem_lastTwo ho.vm, ⟨vm, ho.inputs⟩, fun _ => hcause,
        (if_pos hh).symm, rfl, rfl⟩, rfl⟩)
      (fun _ => recordEvent_quiet) fun _ _ => requeues_interval

theorem resetChain_keeps (hat : At (some (vm, cfg)) m h) (hr : m.AtRest)
    (hf : m.chainFailed = true) (hh : m.annotationOf annotationRolesHash ≠ "")
    (hcause : Cause rt m cfg) :
    (resetChain rt m cfg minionID cfg.requeueAfter).Keeps rt crash k
      (Finishes (some (vm, cfg)) cfg) h := by
  refine hat.announce (by decide) (.reset vm m cfg hat.vm hat.inputs hcause) fun h₁ ho _ => ?_
  exact keeps_patch_report ho.vm ho.inputs
    (.reset vm cfg hr hf hh ho.inputs (by rw [ho.pending]; rfl) hcause)
    (.inr ⟨m, cfg, _, ⟨.inl rfl, lastVM_mem_lastTwo ho.vm, ⟨vm, ho.inputs⟩, fun _ => hcause,
      (if_neg hh).symm, rfl, rfl⟩, rfl⟩)
    (fun _ => recordEvent_quiet) fun _ _ => requeues_interval

end start

/-! ### Day-2 runs -/

section day2

variable {vm seen : VirtualMachine} {a : String}

/-- Markers touch only the three annotations that note what a start consumed. -/
theorem lookup_handledMarkers (h₁ : a ≠ annotationRetryHandled)
    (h₂ : a ≠ annotationBulkRetryHandled) : (handledMarkers m cfg).reverse.lookup a = none := by
  rw [List.lookup_eq_none_iff]
  intro e he
  unfold handledMarkers at he
  simp only [List.mem_reverse, List.mem_append] at he
  rcases he with he | he
  · split at he
    · simp only [List.mem_singleton] at he
      simp [he, h₁]
    · cases he
  · split at he
    · simp only [List.mem_singleton] at he
      simp [he, h₂]
    · cases he

theorem lookup_handledMarkers_retry : (handledMarkers m cfg).reverse.lookup annotationRetryHandled =
    if retryRequested m then some (m.annotationOf annotationRetryRequest) else none := by
  have hne : (annotationRetryHandled == annotationBulkRetryHandled) = false := by decide
  unfold handledMarkers
  split <;> split <;> simp [List.lookup, hne]

theorem lookup_handledMarkers_bulk :
    (handledMarkers m cfg).reverse.lookup annotationBulkRetryHandled =
      if bulkChanged m cfg then some cfg.spec.retryToken else none := by
  have hne : (annotationBulkRetryHandled == annotationRetryHandled) = false := by decide
  unfold handledMarkers
  split <;> split <;> simp [hne]

theorem lookup_append_handled (patch : List (String × String)) (h₁ : a ≠ annotationRetryHandled)
    (h₂ : a ≠ annotationBulkRetryHandled) :
    (patch ++ handledMarkers m cfg).reverse.lookup a = patch.reverse.lookup a := by
  rw [List.reverse_append, List.lookup_append, lookup_handledMarkers h₁ h₂, Option.none_or]

theorem lookup_withMarkers (patch : List (String × String)) (h₀ : a ≠ annotationRolesHash)
    (h₁ : a ≠ annotationRetryHandled) (h₂ : a ≠ annotationBulkRetryHandled) :
    (withMarkers (day2Markers rt seen cfg) patch).reverse.lookup a = patch.reverse.lookup a := by
  unfold withMarkers day2Markers
  rw [List.reverse_append, List.reverse_cons, List.lookup_append, List.lookup_append,
    lookup_handledMarkers h₁ h₂]
  simp [h₀]

theorem Day2.quietly {h' : History} (hd : Day2 rt h seen m cfg) (hq : h.Quietly h') :
    Day2 rt h' seen m cfg := by
  refine { hd with held := ?_, inputs := ?_, start := ?_ }
  · unfold History.lastTwo
    rw [hq.served]
    exact hd.held
  · rw [hq.passInputs]
    exact hd.inputs
  · rw [hq.startPending]
    exact hd.start

theorem Day2.salt {w : World} {c : SaltCall} {r : c.Ans} (hd : Day2 rt h seen m cfg) :
    Day2 rt (⟨w, .salt conn c, r⟩ :: h) seen m cfg :=
  { hd with }

/-- The failures of `runDay2` leave nothing to requeue for. -/
theorem requeues_day2Failed {patch : List (String × String)} {s : String} {res : Result}
    (hp : Patched m (withMarkers (day2Markers rt seen cfg) patch) m')
    (hk : m.annotationOf annotationKeyStatus = keyStatusAccepted)
    (hl : patch.reverse.lookup annotationKeyStatus = none)
    (hs : patch.reverse.lookup annotationSaltStatus = some s)
    (hf : s ∉ ["", saltStatusPinged, saltStatusPillarRefreshed, saltStatusHighstateDispatched]) :
    Requeues cfg m' res := by
  refine requeues_failed hp hk ?_ ?_ hf
  · rw [lookup_withMarkers _ (by decide) (by decide) (by decide), hl]
  · rw [lookup_withMarkers _ (by decide) (by decide) (by decide), hs]

theorem Snapshot.keyStatus (hs : Snapshot rt cfg seen m) (hr : seen.AtRest) :
    m.annotationOf annotationKeyStatus = keyStatusAccepted := by
  rcases hs with rfl | ⟨-, -, -, hown⟩
  · exact hr.1
  · rw [VirtualMachine.annotationOf_eq_getD, hown _ (by decide),
      ← VirtualMachine.annotationOf_eq_getD, VirtualMachine.annotationOf_withAnnotations]
    exact hr.1

/-- The patches of `runDay2` note what it was started for. -/
theorem Day2.consumes (hd : Day2 rt h seen m cfg) {patch : List (String × String)}
    (hr : patch.reverse.lookup annotationRetryHandled = none)
    (hb : patch.reverse.lookup annotationBulkRetryHandled = none) :
    Consumes rt h m (withMarkers (day2Markers rt seen cfg) patch) := by
  refine ⟨seen, cfg,
    patch ++ [(annotationRolesHash, computeIntentHash rt seen.annotations)], ?_, ?_⟩
  · obtain ⟨due, hpending, hcause⟩ := hd.start
    have hlookup : ∀ a, a ≠ annotationRolesHash →
        (patch ++ [(annotationRolesHash, computeIntentHash rt seen.annotations)]).reverse.lookup a =
          patch.reverse.lookup a := by
      intro a ha
      rw [List.reverse_append, List.lookup_append]
      simp [ha]
    refine ⟨hd.snapshot, hd.held, hd.inputs, fun hp => ?_, ?_, ?_, ?_⟩
    · rw [hpending] at hp
      exact hcause (Option.some.inj hp)
    · rw [if_neg hd.hash]
      simp
    · rw [hlookup _ (by decide), hr]
    · rw [hlookup _ (by decide), hb]
  · unfold withMarkers day2Markers
    simp

theorem runDay2_keeps (hd : Day2 rt h seen m cfg) (hvm : h.lastVM = some m)
    (hi : h.passInputs = some (vm, cfg)) :
    (runDay2 m conn minionID (day2Markers rt seen cfg) cfg.requeueAfter).Keeps rt crash k
      (Finishes (some (vm, cfg)) cfg) h := by
  have hk := hd.snapshot.keyStatus hd.rest
  refine masterLastSeen_quiet.obeys_bind_noFail masterLastSeen_noFail fun before h₁ hq₁ => ?_
  refine timeNow_quiet.obeys_bind_noFail timeNow_noFail fun started h₂ hq₂ => ?_
  have hd₂ := (hd.quietly hq₁).quietly hq₂
  have hvm₂ : h₂.lastVM = some m := by rw [hq₂.lastVM, hq₁.lastVM, hvm]
  have hi₂ : h₂.passInputs = some (vm, cfg) := by rw [hq₂.passInputs, hq₁.passInputs, hi]
  refine keeps_salt trivial fun w outcome _ => ?_
  split
  · refine keeps_salt trivial fun w' dispatched hret => ?_
    cases dispatched with
    | error e =>
      refine (logError_quiet (by decide) (by decide)).obeys_bind_noFail logError_noFail
        fun _ h₃ hq₃ => ?_
      refine keeps_patch_report (by rw [hq₃.lastVM]; exact hvm₂) (by rw [hq₃.passInputs]; exact hi₂)
        (.day2DispatchFailed seen cfg (hd₂.salt.salt.quietly hq₃))
        (.inr ((hd₂.salt.salt.quietly hq₃).consumes rfl rfl)) (fun _ => recordEvent_quiet) ?_
      exact fun m' hp => requeues_day2Failed hp hk rfl rfl (by decide)
    | ok jid =>
      refine keeps_patch (P := some (vm, cfg)) hvm₂ hi₂ (.day2Dispatched seen cfg jid hd₂.salt.salt
        (dispatched_jid hret) ⟨_, _, _, _, _, _, rfl, List.mem_of_mem_take hd₂.held⟩)
        (.inr (hd₂.salt.salt.consumes rfl rfl))
        (fun m' h₃ hat₃ _ _ => ?_) fun _ _ hi hs => ⟨hi, hs, nofun⟩
      refine hat₃.step (logInfo_quiet (by decide) (by decide)) fun _ h₄ hat₄ _ => ?_
      refine hat₄.step recordEvent_quiet fun _ h₅ hat₅ _ => ?_
      exact hat₅.returns requeues_interval
  · refine masterSilence_quiet.obeys_bind_noFail masterSilence_noFail fun silent h₃ hq₃ => ?_
    refine (logError_quiet (by decide) (by decide)).obeys_bind_noFail logError_noFail
      fun _ h₄ hq₄ => ?_
    refine keeps_patch_report (by rw [hq₄.lastVM, hq₃.lastVM]; exact hvm₂)
      (by rw [hq₄.passInputs, hq₃.passInputs]; exact hi₂)
      (.day2RefreshFailed seen cfg ((hd₂.salt.quietly hq₃).quietly hq₄))
      (.inr (((hd₂.salt.quietly hq₃).quietly hq₄).consumes rfl rfl)) (fun _ => recordEvent_quiet) ?_
    exact fun m' hp => requeues_day2Failed hp hk rfl rfl (by decide)

theorem startDay2_keeps (hat : At (some (vm, cfg)) m h) (hr : seen.AtRest)
    (hf : seen.chainFailed = false) (hh : seen.annotationOf annotationRolesHash ≠ "")
    (hs : Snapshot rt cfg seen m) (hseen : seen ∈ h.lastTwo)
    (hc : Cause rt seen cfg ∨ Due rt h seen cfg) :
    (startDay2 rt m seen conn cfg minionID cfg.requeueAfter).Keeps rt crash k
      (Finishes (some (vm, cfg)) cfg) h := by
  refine hat.announce (by decide) (.day2 vm seen m cfg hat.vm hs hseen hat.inputs hc)
    fun h₁ ho hh₁ => ?_
  obtain ⟨w, rfl⟩ := hh₁
  refine runDay2_keeps ⟨hr, hf, hh, hs, hseen, ⟨vm, ho.inputs⟩, _, ho.pending, ?_⟩ ho.vm ho.inputs
  intro hdue
  rcases hc with hc | ⟨-, w, fields, w', now, h', rfl, -⟩
  · exact hc
  · -- the line before is that of a due enforcement
    simp [History.dueJust] at hdue

theorem lastVM_of_served_nil (hserved : h.served = []) : h.lastVM = none := by
  cases hm : h.lastVM with
  | none => rfl
  | some m =>
    have hmem := lastVM_mem_served hm
    rw [hserved] at hmem
    cases hmem

/-- A worker that was sent anything holds an object. -/
theorem exists_lastVM (hm : m ∈ h.served) : ∃ m', h.lastVM = some m' := by
  cases hl : h.lastVM with
  | some m' => exact ⟨m', rfl⟩
  | none =>
    obtain ⟨c, hc, hv⟩ := List.mem_filterMap.mp hm
    have hnone := List.findSome?_eq_none_iff.mp hl c hc
    rw [hv] at hnone
    cases hnone

/-- What `noteBulkToken` leaves. -/
def TokenNoted (rt : Runtime) (P : Option (VirtualMachine × SaltKeyConfig)) (cfg : SaltKeyConfig)
    (seen : VirtualMachine) (h : History) (r : Except String VirtualMachine) : Prop :=
  match r with
  | .ok m => At P m h ∧ Snapshot rt cfg seen m ∧ m.uid = seen.uid ∧ seen ∈ h.lastTwo
  | .error _ => h.passInputs = P ∧ h.startPending = none

theorem noteBulkToken_keeps (hat : At (some (vm, cfg)) m h) (hr : m.AtRest)
    (hno : ¬ Cause rt m cfg) :
    (noteBulkToken m cfg).Keeps rt crash k (TokenNoted rt (some (vm, cfg)) cfg m) h := by
  unfold noteBulkToken
  split
  · rename_i hb
    refine ⟨⟨hat.vm, .inl ⟨_, rfl, .bulkNoted vm cfg hr hat.inputs hb hat.idle⟩, .inl hat.idle⟩,
      fun w a ha => ?_⟩
    cases a with
    | error e => exact ⟨hat.inputs, rfl⟩
    | ok m' =>
      exact ⟨⟨hat.inputs, rfl, rfl⟩, .inr ⟨hno, hb, ha.2.1, ha.2.2⟩, ha.2.1,
        mem_lastTwo_cons hat.vm rfl⟩
  · exact ⟨hat, .inl rfl, rfl, lastVM_mem_lastTwo hat.vm⟩

theorem Snapshot.atRest (hs : Snapshot rt cfg seen m) (hr : seen.AtRest) : m.AtRest := by
  rcases hs with rfl | ⟨-, -, -, hown⟩
  · exact hr
  · have keep : ∀ a ∈ ownAnnotations, a ≠ annotationBulkRetryHandled →
        m.annotationOf a = seen.annotationOf a := by
      intro a ha hne
      rw [VirtualMachine.annotationOf_eq_getD, hown a ha, ← VirtualMachine.annotationOf_eq_getD,
        VirtualMachine.annotationOf_withAnnotations]
      simp [hne]
    unfold VirtualMachine.AtRest
    rw [keep annotationKeyStatus (by decide) (by decide),
      keep annotationMinionID (by decide) (by decide),
      keep annotationSaltStatus (by decide) (by decide)]
    exact hr

theorem awaitEnforcement_keeps (hat : At (some (vm, cfg)) m h) (hr : m.AtRest)
    (hh : m.annotationOf annotationRolesHash ≠ "") (hno : ¬ Cause rt m cfg) :
    (awaitEnforcement rt m conn cfg minionID cfg.requeueAfter).Keeps rt crash k
      (Finishes (some (vm, cfg)) cfg) h := by
  refine Prog.Obeys.bind ((noteBulkToken_keeps hat hr hno).mono fun h₁ r hn => ?_)
  cases r with
  | error e => exact ⟨hn.1, hn.2, nofun⟩
  | ok m' =>
    obtain ⟨hat₁, hs, huid, hseen⟩ := hn
    have hr' := hs.atRest hr
    dsimp only
    split
    · exact hat₁.returns (requeues_atRest hr')
    · rename_i hready
      have hready' : m.annotationOf annotationSaltStatus = saltStatusReady := by
        simpa using hready
      refine keeps_perform (permitted_of_quiet rfl) fun w now _ => ?_
      have hat₂ : At (some (vm, cfg)) m' (⟨w, .now, now⟩ :: h₁) :=
        ⟨hat₁.inputs, hat₁.idle, hat₁.vm⟩
      split
      · exact hat₂.returns (requeues_atRest hr')
      · rename_i hdue
        refine keeps_perform (fun hst => absurd hst (by decide)) fun w' u _ => ?_
        refine startDay2_keeps ⟨hat₂.inputs, ?_, hat₂.vm⟩ hr ?_ hh hs hseen (.inr ⟨hready', ?_⟩)
        · show (if isStart logEnforcement = true then _ else _) = none
          rw [if_neg (by decide)]
          exact hat₂.idle
        · unfold VirtualMachine.chainFailed
          rw [hready']
          decide
        · refine ⟨w', _, w, now, h₁, rfl, ?_⟩
          rw [← huid]
          simpa using hdue

theorem reconverge_keeps (hat : At (some (vm, cfg)) m h) (hr : m.AtRest)
    (hh : m.annotationOf annotationRolesHash ≠ "") :
    (reconverge rt m conn cfg minionID cfg.requeueAfter).Keeps rt crash k
      (Finishes (some (vm, cfg)) cfg) h := by
  unfold reconverge
  split
  · rename_i hnone
    refine awaitEnforcement_keeps hat hr hh ?_
    simp only [Bool.and_eq_true, Bool.or_eq_true, Bool.not_eq_true'] at hnone
    obtain ⟨⟨hi, hq⟩, hb⟩ := hnone
    rintro (⟨-, hi'⟩ | hq' | ⟨hb', hf'⟩)
    · simp [hi] at hi'
    · simp [hq] at hq'
    · simp [hb', hf'] at hb
  · rename_i hnone
    split
    · rename_i hf
      have hc : Cause rt m cfg := by
        by_contra hno
        simp only [Cause, not_or, not_and, Bool.not_eq_true] at hno
        obtain ⟨hi, hq, hb⟩ := hno
        have hb' : bulkChanged m cfg = false := by
          by_contra hbt
          have := hb (by simpa using hbt)
          rw [hf] at this
          cases this
        exact hnone (by rw [hi hh, hq, hb']; rfl)
      exact resetChain_keeps hat hr hf hh hc
    · rename_i hf
      have hf' : m.chainFailed = false := by simpa using hf
      have hc : Cause rt m cfg := by
        by_contra hno
        simp only [Cause, not_or, not_and, Bool.not_eq_true] at hno
        obtain ⟨hi, hq, -⟩ := hno
        exact hnone (by rw [hi hh, hq, hf']; simp)
      exact startDay2_keeps hat hr hf' hh (.inl rfl) (lastVM_mem_lastTwo hat.vm) (.inl hc)

/-- What `adoptLegacyIntentHash` leaves. -/
def Adopted (P : Option (VirtualMachine × SaltKeyConfig)) (m : VirtualMachine) (h : History)
    (r : Except String Bool) : Prop :=
  match r with
  | .ok false => At P m h
  | .ok true => ∃ m', At P m' h ∧ m'.AtRest
  | .error _ => h.passInputs = P ∧ h.startPending = none

theorem adoptLegacyIntentHash_keeps (hat : At P m h) (hr : m.AtRest)
    (hh : m.annotationOf annotationRolesHash ≠ "")
    (hp : Go.hasPrefix (m.annotationOf annotationRolesHash) intentHashVersion = false) :
    (adoptLegacyIntentHash rt m (m.annotationOf annotationRolesHash)).Keeps rt crash k
      (Adopted P m) h := by
  unfold adoptLegacyIntentHash
  split
  · exact hat
  · refine (logInfo_quiet (by decide) (by decide)).obeys_bind (fun _ h₁ hq => ?_)
      fun _ _ hq => ⟨(hat.quietly hq).inputs, (hat.quietly hq).idle⟩
    have hat₁ := hat.quietly hq
    refine hat₁.patch (.hashAdopted hr hh hp) (fun m' h₂ hat₂ hpat _ => ?_)
      fun _ _ hi hs => ⟨hi, hs⟩
    have hk := hpat.keptBut
    refine ⟨m', hat₂, ?_⟩
    unfold VirtualMachine.AtRest
    rw [hk.annotationOf annotationKeyStatus (by decide) (by decide),
      hk.annotationOf annotationMinionID (by decide) (by decide),
      hk.annotationOf annotationSaltStatus (by decide) (by decide)]
    exact hr

theorem checkReconvergence_keeps (hat : At (some (vm, cfg)) m h) (hr : m.AtRest) :
    (checkReconvergence rt m conn cfg minionID cfg.requeueAfter).Keeps rt crash k
      (Finishes (some (vm, cfg)) cfg) h := by
  unfold checkReconvergence
  dsimp only
  split
  · rename_i hh
    split
    · exact hat.returns (requeues_atRest hr)
    · rename_i hf
      exact restartFirstChain_keeps hat hr (by simpa using hf) hh
  · rename_i hh
    split
    · rename_i hp
      refine Prog.Obeys.bind
        ((adoptLegacyIntentHash_keeps hat hr hh (by simpa using hp)).mono fun h₁ r ha => ?_)
      rcases r with e | _ | _
      · exact ⟨ha.1, ha.2, nofun⟩
      · exact reconverge_keeps ha hr hh
      · obtain ⟨m', hat', hr'⟩ := ha
        exact hat'.returns (requeues_atRest hr')
    · exact reconverge_keeps hat hr hh

theorem reconcilePostAccept_keeps (hat : At (some (vm, cfg)) m h)
    (hk : m.annotationOf annotationKeyStatus = keyStatusAccepted) :
    (reconcilePostAccept rt m conn cfg (m.annotationOf annotationMinionID)
      cfg.requeueAfter).Keeps rt crash k (Finishes (some (vm, cfg)) cfg) h := by
  unfold reconcilePostAccept
  split
  · rename_i hid
    refine hat.step (logError_quiet (by decide) (by decide)) fun _ h₁ hat₁ _ => ?_
    exact hat₁.returns fun _ => .inl ⟨hk, hid⟩
  · rename_i hid
    split
    · rename_i hs
      refine hat.step timeNow_quiet fun now h₁ hat₁ _ => ?_
      dsimp only
      split
      · rename_i hpos
        refine hat₁.step (logInfo_quiet (by decide) (by decide)) fun _ h₂ hat₂ _ => ?_
        exact hat₂.returns (requeues_pos hpos)
      · exact runPing_keeps hat₁ ⟨hk, hid, hs⟩
    · split
      · rename_i hs
        exact runRefreshPillar_keeps hat ⟨hk, hid, hs⟩
      · split
        · rename_i hs
          exact runDispatchHighstate_keeps hat ⟨hk, hid, hs⟩
        · split
          · rename_i hs
            exact runPollHighstate_keeps hat ⟨hk, hid, hs⟩
          · rename_i h₁ h₂ h₃ h₄
            refine checkReconvergence_keeps hat ⟨hk, hid, ?_⟩
            simp [h₁, h₂, h₃, h₄]

end day2

end SaltOperator
