import SaltOperator.Cluster.ChainPasses

/-!
# Every pass keeps the contract

The two ways to an accepted key, the deletion of a VM, and `Reconcile` itself.
The headline is `reconcile_keeps`: **a pass keeps the contract from its first
call to its last, whatever it is answered**.
-/

namespace SaltOperator

variable {rt : Runtime} {d : Default} {crash : Prop} {k : NamespacedName}
  {P : Option (VirtualMachine × SaltKeyConfig)} {cfg : SaltKeyConfig} {m m' : VirtualMachine}
  {h : History} {conn : Connection}

/-! ## Finalizers -/

/-- What `ensureFinalizer` leaves of the object, run after the calls `h₀`. -/
def Ensured (P : Option (VirtualMachine × SaltKeyConfig)) (m : VirtualMachine) (h₀ h : History)
    (r : Except String VirtualMachine) : Prop :=
  match r with
  | .ok m' => At P m' h ∧ Patched m [] m' ∧ h₀.Onward h
  | .error _ => h.passInputs = P ∧ h.startPending = none

theorem ensureFinalizer_keeps {wrap : String → String} (hat : At P m h)
    (hw : m.containsFinalizer saltFinalizer = false →
      FinalizerWrite h m (m.addFinalizer saltFinalizer)) :
    (ensureFinalizer wrap m).Keeps rt crash k (Ensured P m h) h := by
  unfold ensureFinalizer
  split
  · exact ⟨hat, ⟨rfl, rfl, fun _ _ => rfl⟩, ⟨fun _ hc => hc, fun _ hv => hv, rfl, rfl⟩⟩
  · rename_i hno
    have hno' : m.containsFinalizer saltFinalizer = false := by simpa using hno
    refine keeps_perform ⟨hat.vm, .inr (hw hno'), .inl hat.idle⟩ fun w a ha => ?_
    cases a with
    | error e => exact ⟨hat.inputs, rfl⟩
    | ok m' =>
      have hobj : (m.addFinalizer saltFinalizer).annotations = m.annotations := by
        unfold VirtualMachine.addFinalizer
        split <;> rfl
      refine ⟨⟨hat.inputs, rfl, rfl⟩, ⟨ha.1, ha.2.1, fun a hmem => ?_⟩,
        ⟨fun _ hc => hc, List.subset_cons_self _ _, rfl, rfl⟩⟩
      rw [ha.2.2 a hmem, hobj]
      rfl

theorem At.ensure {f : VirtualMachine → M Result} {wrap : String → String} (hat : At P m h)
    (hw : m.containsFinalizer saltFinalizer = false →
      FinalizerWrite h m (m.addFinalizer saltFinalizer))
    (hf : ∀ m' h', At P m' h' → Patched m [] m' → h.Onward h' →
      (f m').Keeps rt crash k (Finishes P cfg) h') :
    (ensureFinalizer wrap m >>= f).Keeps rt crash k (Finishes P cfg) h := by
  refine Prog.Obeys.bind ((ensureFinalizer_keeps hat hw).mono fun h' r hr => ?_)
  cases r with
  | ok m' => exact hf m' h' hr.1 hr.2.1 hr.2.2
  | error e => exact ⟨hr.1, hr.2, nofun⟩

/-- A patch of the finalizers leaves the operator's annotations. -/
theorem Patched.annotationOf_nil (hp : Patched m [] m') {a : String} (ha : a ∈ ownAnnotations) :
    m'.annotationOf a = m.annotationOf a := by
  rw [hp.annotationOf ha]
  rfl

theorem Patched.name {additions : List (String × String)} (hp : Patched m additions m') :
    m'.name = m.name := congrArg NamespacedName.name hp.key

theorem History.CheckedFree.congr (hu : m'.uid = m.uid) (hn : m'.name = m.name) :
    ∀ {h : History}, h.CheckedFree m → h.CheckedFree m'
  | [], hc => hc
  | ⟨w, o, a⟩ :: h, hc => by
    have howner : ∀ list, ownerIn m' m'.name list = ownerIn m m.name list := by
      intro list
      unfold ownerIn
      rw [hu, hn]
    cases o with
    | listVMs nspace =>
      cases nspace with
      | some ns => exact History.CheckedFree.congr hu hn (h := h) hc
      | none =>
        cases a with
        | error e => exact History.CheckedFree.congr hu hn (h := h) hc
        | ok list => exact (howner list).trans hc
    | getVM key => exact hc
    | _ => exact History.CheckedFree.congr hu hn (h := h) hc

theorem Patched.noKey (hp : Patched m [] m') (hk : m.NoKey) : m'.NoKey := by
  unfold VirtualMachine.NoKey
  rw [hp.annotationOf_nil (a := annotationKeyStatus) (by decide),
    hp.annotationOf_nil (a := annotationMatchMethod) (by decide)]
  exact hk

/-- The Secret for a VM depends on its name only. -/
theorem Patched.bootstrapSecret {additions : List (String × String)}
    (hp : Patched m additions m') (minionID : String) (pair : KeyPair) (masterPub : String) :
    bootstrapSecret m' minionID pair masterPub = bootstrapSecret m minionID pair masterPub := by
  have hns : m'.nspace = m.nspace := congrArg NamespacedName.nspace hp.key
  unfold SaltOperator.bootstrapSecret
  rw [hns, hp.name, hp.uid]

/-! ## Discovery -/

section key

variable {vm : VirtualMachine}

theorem acceptMatched_keeps (hat : At (some (vm, cfg)) m h) (hdel : vm.deleting = false)
    (hmode : cfg.spec.keyAcceptance ≠ keyAcceptancePreseed) (hk : m.NoKey) {found : MatchResult}
    (hf : found.minionID ≠ "") :
    (acceptMatched rt m conn found cfg.requeueAfter).Keeps rt crash k
      (Finishes (some (vm, cfg)) cfg) h := by
  have hmeth : found.method.text ≠ "" ∧ found.method.text ≠ matchMethodPreseed := by
    cases found.method <;> decide
  have discovers : ∀ {h' : History}, At (some (vm, cfg)) m h' → Discovers h' m :=
    fun hat' => ⟨hk, cfg, ⟨vm, hat'.inputs, hdel⟩, hmode⟩
  refine hat.step (logInfo_quiet (by decide) (by decide)) fun _ h₁ hat₁ _ => ?_
  refine keeps_salt ⟨m, hat₁.vm, discovers hat₁⟩ fun w r _ => ?_
  have hat₂ : At (some (vm, cfg)) m (⟨w, .salt conn (.acceptKey found.minionID), r⟩ :: h₁) :=
    ⟨hat₁.inputs, hat₁.idle, hat₁.vm⟩
  cases r with
  | error e => exact hat₂.fails
  | ok u =>
    refine hat₂.step nowText_quiet fun acceptedAt h₃ hat₃ hq₃ => ?_
    have hown : h₃.ownKey = some ⟨conn, found.minionID, none⟩ := hq₃.ownKey
    refine hat₃.patch (.keyAccepted _ _ _ _ (discovers hat₃) hf hmeth.1 hmeth.2 hown)
      (fun m' h₄ hat₄ hp _ => ?_) fun _ _ hi hs => ⟨hi, hs, nofun⟩
    have hacc : m'.annotationOf annotationKeyStatus = keyStatusAccepted := by
      rw [hp.annotationOf (by decide)]
      rfl
    refine hat₄.ensure (fun hno => .accepted hno hacc) fun m'' h₅ hat₅ _ _ => ?_
    refine hat₅.step recordEvent_quiet fun _ h₆ hat₆ _ => ?_
    exact hat₆.returns requeues_interval

theorem Patched.requeues_keyFailed {res : Result}
    (hp : Patched m [(annotationKeyStatus, keyStatusFailed)] m') : Requeues cfg m' res := by
  refine SaltOperator.requeues_keyFailed ?_
  rw [hp.annotationOf (by decide)]
  rfl

/-- A key that is given up for good. -/
theorem At.keyFailed_report (hat : At (some (vm, cfg)) m h) (hdel : vm.deleting = false)
    (hk : m.annotationOf annotationKeyStatus ≠ keyStatusAccepted) {res : Result}
    {report : VirtualMachine → M Unit} (hq : ∀ m', (report m').Quiet) :
    (patchAnnotations m [(annotationKeyStatus, keyStatusFailed)] >>= fun m' =>
      report m' >>= fun _ => pure res).Keeps rt crash k (Finishes (some (vm, cfg)) cfg) h :=
  hat.patch_report (.keyFailed cfg hk ⟨vm, hat.inputs, hdel⟩) hq fun _ hp => hp.requeues_keyFailed

theorem awaitPendingKey_keeps (hat : At (some (vm, cfg)) m h) (hdel : vm.deleting = false)
    (hk : m.annotationOf annotationKeyStatus ≠ keyStatusAccepted) {acceptTimeout : Duration} :
    (awaitPendingKey rt m acceptTimeout cfg.requeueAfter).Keeps rt crash k
      (Finishes (some (vm, cfg)) cfg) h := by
  refine hat.step timeNow_quiet fun now h₁ hat₁ _ => ?_
  dsimp only
  split
  · refine hat₁.step (logInfo_quiet (by decide) (by decide)) fun _ h₂ hat₂ _ => ?_
    exact hat₂.returns requeues_interval
  · split
    · rename_i hfail
      exact hat₁.returns (requeues_keyFailed hfail)
    · refine hat₁.step (logInfo_quiet (by decide) (by decide)) fun _ h₂ hat₂ _ => ?_
      exact hat₂.keyFailed_report hdel hk fun _ => recordEvent_quiet

theorem runAcceptKey_keeps (hat : At (some (vm, cfg)) m h) (hdel : vm.deleting = false)
    (hmode : cfg.spec.keyAcceptance ≠ keyAcceptancePreseed) (hk : m.NoKey)
    {acceptTimeout : Duration} :
    (runAcceptKey rt m conn acceptTimeout cfg.requeueAfter).Keeps rt crash k
      (Finishes (some (vm, cfg)) cfg) h := by
  refine keeps_salt (permitted_of_quiet rfl) fun w a ha => ?_
  have hat₁ : At (some (vm, cfg)) m (⟨w, .salt conn .listPendingKeys, a⟩ :: h) :=
    ⟨hat.inputs, hat.idle, hat.vm⟩
  cases a with
  | error e => exact hat₁.fails
  | ok keys =>
    obtain ⟨p, hkeys⟩ := ha
    dsimp only
    split
    · rename_i hmatch
      refine acceptMatched_keeps hat₁ hdel hmode hk ?_
      intro hempty
      refine listKeys_ne_empty hkeys.symm ?_
      rw [← hempty]
      exact findMinionID_mem hmatch
    · exact awaitPendingKey_keeps hat₁ hdel hk.1

/-! ## Preseeding -/

theorem writeBootstrapSecret_keeps {pair : KeyPair} {masterPub : String} (hat : At P m h)
    (hpre : ∀ {h' : History}, At P m h' → h'.CheckedFree m → Preseeds h' m)
    (hc : h.CheckedFree m) (hown : h.ownKey = some ⟨conn, m.name, some pair⟩) :
    (writeBootstrapSecret m m.name pair masterPub).Keeps rt crash k (fun h' r => At P m h' ∧
      (r = .ok () → h'.CheckedFree m ∧ h'.ownKey = h.ownKey ∧
        h'.stored = some (bootstrapSecret m m.name pair masterPub))) h := by
  have stores : ∀ {h' : History}, At P m h' → h'.CheckedFree m → h'.ownKey = h.ownKey →
      StoresKey h' (bootstrapSecret m m.name pair masterPub) := fun hat' hc' ho' =>
    ⟨m, conn, pair, masterPub, hat'.vm, hpre hat' hc', ho'.trans hown, rfl⟩
  refine keeps_perform (stores hat hc rfl) fun w a _ => ?_
  rcases a with e | u
  · cases e with
    | alreadyExists t =>
      have hat₁ : At P m (⟨w, .createSecret (bootstrapSecret m m.name pair masterPub),
          .error (.alreadyExists t)⟩ :: h) := ⟨hat.inputs, hat.idle, hat.vm⟩
      refine keeps_perform (stores hat₁ hc rfl) fun w' b _ => ?_
      cases b with
      | error e => exact ⟨⟨hat.inputs, hat.idle, hat.vm⟩, nofun⟩
      | ok u => exact ⟨⟨hat.inputs, hat.idle, hat.vm⟩, fun _ => ⟨hc, rfl, rfl⟩⟩
    | _ => exact ⟨⟨hat.inputs, hat.idle, hat.vm⟩, nofun⟩
  · exact ⟨⟨hat.inputs, hat.idle, hat.vm⟩, fun _ => ⟨hc, rfl, rfl⟩⟩

theorem deliverPreseedKey_keeps (hat : At (some (vm, cfg)) m h) (hdel : vm.deleting = false)
    (hmode : cfg.spec.keyAcceptance = keyAcceptancePreseed) (hk : m.NoKey) (hc : h.CheckedFree m)
    {force : Bool} {pair : KeyPair} (hown : h.ownKey = some ⟨conn, m.name, some pair⟩) :
    (deliverPreseedKey m conn m.name force pair cfg.requeueAfter).Keeps rt crash k
      (Finishes (some (vm, cfg)) cfg) h := by
  have preseeds : ∀ {m' : VirtualMachine} {h' : History}, At (some (vm, cfg)) m' h' → m'.NoKey →
      h'.CheckedFree m' → Preseeds h' m' :=
    fun hat' hk' hc' => ⟨hk', hc', cfg, ⟨vm, hat'.inputs, hdel⟩, hmode⟩
  refine hat.step (Prog.quiet_perform rfl) fun r h₁ hat₁ hq₁ => ?_
  cases r with
  | error e => exact hat₁.fails
  | ok masterPub =>
    refine Prog.Obeys.bind ((writeBootstrapSecret_keeps hat₁ (fun hat' => preseeds hat' hk)
      (hq₁.checkedFree.mpr hc) (hq₁.ownKey.trans hown)).mono fun h₂ r hr => ?_)
    obtain ⟨hat₂, hstored⟩ := hr
    cases r with
    | error e => exact hat₂.fails
    | ok u =>
      obtain ⟨hc₂, hown₂, hst₂⟩ := hstored rfl
      refine hat₂.ensure (fun hno => .preseed hno (preseeds hat₂ hk hc₂))
        fun m' h₃ hat₃ hp on₃ => ?_
      have hc₃ : h₃.CheckedFree m' := (on₃.checkedFree m hc₂).congr hp.uid hp.name
      have hdelivered : Delivered h₃ m' := by
        refine ⟨conn, pair, masterPub, ?_, ?_⟩
        · rw [on₃.ownKey, hown₂, hq₁.ownKey, hown, hp.name]
        · rw [on₃.stored, hst₂, hp.bootstrapSecret, hp.name]
      rw [← hp.name]
      refine hat₃.patch (.keyPreseeded (preseeds hat₃ (hp.noKey hk) hc₃) hdelivered)
        (fun m'' h₄ hat₄ _ _ => ?_) fun _ _ hi hs => ⟨hi, hs, nofun⟩
      refine hat₄.step (logInfo_quiet (by decide) (by decide)) fun _ h₅ hat₅ _ => ?_
      refine hat₅.step recordEvent_quiet fun _ h₆ hat₆ _ => ?_
      exact hat₆.returns requeues_interval

theorem generatePreseedKey_keeps (hat : At (some (vm, cfg)) m h) (hdel : vm.deleting = false)
    (hmode : cfg.spec.keyAcceptance = keyAcceptancePreseed) (hk : m.NoKey)
    (hc : h.CheckedFree m) :
    (generatePreseedKey m conn m.name cfg.requeueAfter).Keeps rt crash k
      (Finishes (some (vm, cfg)) cfg) h := by
  refine hat.step (Prog.quiet_perform rfl) fun r h₁ hat₁ hq₁ => ?_
  cases r with
  | error e => exact hat₁.fails
  | ok states =>
    refine hat₁.step warnForeignKey_quiet fun _ h₂ hat₂ hq₂ => ?_
    have hc₂ : h₂.CheckedFree m := hq₂.checkedFree.mpr (hq₁.checkedFree.mpr hc)
    refine keeps_salt ⟨m, hat₂.vm, rfl, hk, hc₂, cfg, ⟨vm, hat₂.inputs, hdel⟩, hmode⟩
      fun w a _ => ?_
    have hat₃ : At (some (vm, cfg)) m
        (⟨w, .salt conn (.genAcceptKey m.name (states.any (· ≠ "denied"))), a⟩ :: h₂) :=
      ⟨hat₂.inputs, hat₂.idle, hat₂.vm⟩
    rcases a with e | _ | pair
    · exact hat₃.fails
    · exact hat₃.fails
    · exact deliverPreseedKey_keeps hat₃ hdel hmode hk hc₂ rfl

theorem runPreseedKey_keeps (hat : At (some (vm, cfg)) m h) (hdel : vm.deleting = false)
    (hmode : cfg.spec.keyAcceptance = keyAcceptancePreseed) (hk : m.NoKey) :
    (runPreseedKey m conn cfg.requeueAfter).Keeps rt crash k
      (Finishes (some (vm, cfg)) cfg) h := by
  refine keeps_perform trivial fun w a _ => ?_
  have hat₁ : At (some (vm, cfg)) m (⟨w, .listVMs none, a⟩ :: h) :=
    ⟨hat.inputs, hat.idle, hat.vm⟩
  cases a with
  | error e => exact hat₁.fails
  | ok list =>
    dsimp only [Prog.bind, Prog.pure_eq]
    split
    · rename_i hfree
      exact generatePreseedKey_keeps hat₁ hdel hmode hk hfree
    · split
      · refine hat₁.step (logInfo_quiet (by decide) (by decide)) fun _ h₂ hat₂ _ => ?_
        exact hat₂.returns requeues_interval
      · exact hat₁.keyFailed_report hdel hk.1 fun _ => recordEvent_quiet

theorem markPreseedAccepted_keeps (hat : At P m h)
    (hk : m.annotationOf annotationKeyStatus = keyStatusPreseeded) :
    (markPreseedAccepted rt m cfg.requeueAfter).Keeps rt crash k (Finishes P cfg) h := by
  refine hat.step nowText_quiet fun acceptedAt h₁ hat₁ _ => ?_
  exact hat₁.patch_report (.preseedAccepted acceptedAt hk)
    (fun _ => recordEvent_quiet) fun _ _ => requeues_interval

theorem reconcileKey_keeps (hat : At (some (vm, cfg)) m h) (hdel : vm.deleting = false)
    (hk : m.annotationOf annotationKeyStatus ≠ keyStatusAccepted) {timedOut : Bool} :
    (reconcileKey rt d m cfg cfg.acceptTimeout cfg.requeueAfter timedOut).Keeps rt crash k
      (Finishes (some (vm, cfg)) cfg) h := by
  unfold reconcileKey
  dsimp only
  split
  · rename_i hfail
    exact hat.returns (requeues_keyFailed hfail.1)
  · rename_i hfail
    split
    · rename_i hpre
      refine hat.step saltClientFor_quiet fun conn h₁ hat₁ _ => ?_
      exact runPreseedKey_keeps hat₁ hdel hpre.1 ⟨hk, hpre.2, hfail⟩
    · rename_i hmode
      split
      · exact hat.keyFailed_report hdel hk fun _ => recordEvent_quiet
      · split
        · refine hat.step (logInfo_quiet (by decide) (by decide)) fun _ h₁ hat₁ _ => ?_
          exact hat₁.returns requeues_interval
        · split
          · rename_i hpre
            exact markPreseedAccepted_keeps hat hpre
          · rename_i hpre
            refine hat.step saltClientFor_quiet fun conn h₁ hat₁ _ => ?_
            exact runAcceptKey_keeps hat₁ hdel (fun hm => hmode ⟨hm, hpre⟩) ⟨hk, hpre, hfail⟩

end key

/-! ## `Reconcile` -/

section reconcile

variable {vm : VirtualMachine}

theorem reconcileAccepted_keeps (hat : At (some (vm, cfg)) m h)
    (hk : m.annotationOf annotationKeyStatus = keyStatusAccepted) :
    (reconcileAccepted rt d m cfg).Keeps rt crash k (Finishes (some (vm, cfg)) cfg) h := by
  refine hat.ensure (fun hno => .accepted hno hk) fun m' h₁ hat₁ hp _ => ?_
  refine hat₁.step saltClientFor_quiet fun conn h₂ hat₂ _ => ?_
  refine reconcilePostAccept_keeps hat₂ ?_
  rw [hp.annotationOf_nil (by decide)]
  exact hk

theorem clearSignalledKey_keeps (hat : At P m h) {timedOut : Bool} :
    (clearSignalledKey rt m cfg timedOut).Keeps rt crash k (Cleared P m) h := by
  unfold clearSignalledKey
  split
  · exact clearPreseedKey_keeps hat _
  · split
    · exact clearPreseedKey_keeps hat _
    · exact ⟨hat, .refl _ _⟩

theorem reconcileCreate_keeps (hat : At (some (vm, cfg)) m h) (hdel : vm.deleting = false) :
    (reconcileCreate rt d m cfg).Keeps rt crash k (Finishes (some (vm, cfg)) cfg) h := by
  refine hat.step timeNow_quiet fun now h₁ hat₁ _ => ?_
  refine At.clear (clearSignalledKey_keeps hat₁) fun m' h₂ hat₂ _ => ?_
  split
  · rename_i hk
    exact reconcileKey_keeps hat₂ hdel hk
  · rename_i hk
    exact reconcileAccepted_keeps hat₂ (by simpa using hk)

/-- The end of a pass that deletes. -/
def Deletes (vm : VirtualMachine) (cfg : SaltKeyConfig) (h : History)
    (_ : Except String Result) : Prop :=
  h.passInputs = some (vm, cfg) ∧ h.startPending = none

theorem removeSaltFinalizer_keeps (hkey : m.key = k) (hi : h.passInputs = some (vm, cfg))
    (hs : h.startPending = none) (hdel : vm.deleting = true) :
    (removeSaltFinalizer m).Keeps rt crash k (Deletes vm cfg) h := by
  refine keeps_perform ⟨hkey, .inr hs⟩ fun w a _ => ?_
  have hi₁ : History.passInputs (⟨w, .getVM m.key, a⟩ :: h) = some (vm, cfg) := by
    show (History.passInputs h).filter (fun i => i.1.deleting) = _
    rw [hi]
    simp [hdel]
  rcases a with e | latest
  · cases e <;> exact ⟨hi₁, rfl⟩
  · dsimp only
    split
    · rename_i hc
      refine keeps_perform ⟨rfl, .inr (.removed hc), .inl rfl⟩ fun w' a' _ => ?_
      rcases a' with e | latest'
      · cases e <;> exact ⟨hi₁, rfl⟩
      · exact ⟨hi₁, rfl⟩
    · exact ⟨hi₁, rfl⟩

theorem finishDelete_keeps {status reason message : String} {type : EventType}
    (hat : At (some (vm, cfg)) m h) (hkey : m.key = k) (hdel : vm.deleting = true)
    (hid : m.annotationOf annotationMinionID ≠ "")
    (hst : status = keyStatusDeleted ∨ status = keyStatusDeleteFailed) :
    (finishDelete m status type reason message).Keeps rt crash k (Deletes vm cfg) h := by
  have patch : ((patchAnnotations m [(annotationKeyStatus, status)]).attempt : M _).Keeps rt crash k
      (fun h' _ => h'.passInputs = some (vm, cfg) ∧ h'.startPending = none) h := by
    refine Prog.Obeys.attempt
      ⟨⟨hat.vm, .inl ⟨_, rfl, .keyDeleted vm cfg status hid hst hat.inputs hdel⟩, .inl hat.idle⟩,
        fun w a _ => ?_⟩
    cases a <;> exact ⟨hat.inputs, rfl⟩
  refine Prog.Obeys.bind (patch.mono fun h₁ r hr => ?_)
  cases r with
  | error e => exact hr
  | ok _ =>
    refine recordEvent_quiet.obeys_bind (fun _ h₂ hq => ?_) fun _ h₂ hq => ?_
    · exact removeSaltFinalizer_keeps hkey (hq.passInputs.trans hr.1)
        (hq.startPending.trans hr.2) hdel
    · exact ⟨hq.passInputs.trans hr.1, hq.startPending.trans hr.2⟩

theorem reconcileDelete_keeps (hat : At (some (vm, cfg)) m h) (hkey : m.key = k)
    (hdel : vm.deleting = true) :
    (reconcileDelete rt d m cfg).Keeps rt crash k (Deletes vm cfg) h := by
  have quit : ∀ {h' : History} {r : Except String Result}, h.Quietly h' → Deletes vm cfg h' r :=
    fun hq => ⟨(hat.quietly hq).inputs, (hat.quietly hq).idle⟩
  unfold reconcileDelete
  dsimp only
  split
  · exact quit (.refl h)
  · rename_i hid
    split
    · exact removeSaltFinalizer_keeps hkey hat.inputs hat.idle hdel
    · refine saltClientFromConfig_quiet.attempt.obeys_bind (fun r h₁ hq => ?_) fun _ _ => quit
      have hat₁ := hat.quietly hq
      cases r with
      | error e =>
        refine (logError_quiet (by decide) (by decide)).obeys_bind (fun _ h₂ hq₂ => ?_)
          fun _ h₂ hq₂ => ?_
        all_goals exact ⟨(hat₁.quietly hq₂).inputs, (hat₁.quietly hq₂).idle⟩
      | ok conn =>
        refine keeps_salt ⟨m, vm, cfg, hat₁.vm, rfl, hid, hat₁.inputs, hdel⟩ fun w a _ => ?_
        have hat₂ : At (some (vm, cfg)) m
            (⟨w, .salt conn (.deleteKey (m.annotationOf annotationMinionID)), a⟩ :: h₁) :=
          ⟨hat₁.inputs, hat₁.idle, hat₁.vm⟩
        cases a with
        | error e =>
          refine (logError_quiet (by decide) (by decide)).obeys_bind (fun _ h₃ hq₃ => ?_)
            fun _ h₃ hq₃ => ⟨(hat₂.quietly hq₃).inputs, (hat₂.quietly hq₃).idle⟩
          exact finishDelete_keeps (hat₂.quietly hq₃) hkey hdel hid (.inr rfl)
        | ok u =>
          refine (logInfo_quiet (by decide) (by decide)).obeys_bind (fun _ h₃ hq₃ => ?_)
            fun _ h₃ hq₃ => ⟨(hat₂.quietly hq₃).inputs, (hat₂.quietly hq₃).idle⟩
          exact finishDelete_keeps (hat₂.quietly hq₃) hkey hdel hid (.inl rfl)

theorem Finishes.ends {r : Except String Result} (hf : Finishes (some (vm, cfg)) cfg h r) :
    Ends rt crash h r := by
  refine ⟨.inr hf.idle, fun res hres vm' cfg' hi _ _ => ?_⟩
  obtain ⟨rfl, rfl⟩ : vm = vm' ∧ cfg = cfg' := by simpa [hf.inputs] using hi
  exact hf.requeues res hres

/-- A pass that does not get to choose a config. -/
theorem ends_of_unselected {r : Except String Result} (hs : h.startPending = none)
    (hi : ∀ i, h.passInputs = some i → i.1.deleting = true) : Ends rt crash h r := by
  refine ⟨.inr hs, fun res _ vm cfg hvm hdel _ => ?_⟩
  rw [hi _ hvm] at hdel
  cases hdel

/-- **A pass keeps the contract**, whatever it is answered. -/
theorem reconcile_keeps (hs : crash ∨ h.startPending = none) :
    (reconcile rt d k).Keeps rt crash k (Ends rt crash) h := by
  refine keeps_perform ⟨rfl, hs⟩ fun w a ha => ?_
  have hread : ∀ i, History.passInputs (⟨w, .getVM k, a⟩ :: h) = some i →
      i.1.deleting = true := by
    intro i hi
    exact (Option.filter_eq_some_iff.mp hi).2
  rcases a with e | vm
  · cases e <;> exact ends_of_unselected rfl hread
  · dsimp only
    split
    · exact ends_of_unselected rfl hread
    · refine keeps_perform trivial fun w₁ a₁ _ => ?_
      cases a₁ with
      | error e => exact ends_of_unselected rfl hread
      | ok configs =>
        dsimp only [Prog.bind, Prog.pure_eq]
        split
        · rename_i hnone
          refine ends_of_unselected rfl fun i hi => ?_
          simp [History.passInputs, hnone] at hi
        · rename_i cfg hsel
          have hat : At (some (vm, cfg)) vm
              (⟨w₁, .listConfigs (some k.nspace), .ok configs⟩ :: ⟨w, .getVM k, .ok vm⟩ :: h) := by
            exact ⟨History.passInputs_listConfigs.mpr ⟨rfl, hsel⟩, rfl, rfl⟩
          refine (logInfo_quiet (by decide) (by decide)).obeys_bind (fun _ h₂ hq => ?_)
            fun _ h₂ hq => Finishes.ends ((hat.quietly hq).fails : Finishes _ cfg _ _)
          have hat₂ := hat.quietly hq
          split
          · rename_i hdel
            refine (reconcileDelete_keeps hat₂ ha hdel).mono fun h' r hr => ?_
            refine ends_of_unselected hr.2 fun i hi => ?_
            obtain rfl : (vm, cfg) = i := by simpa [hr.1] using hi
            exact hdel
          · rename_i hdel
            split
            · rename_i hno
              have skip : ∀ {h' : History} {r : Except String Result}, h₂.Quietly h' →
                  Ends rt crash h' r := by
                intro h' r hq'
                refine ⟨.inr (hat₂.quietly hq').idle, fun res _ vm' cfg' hi _ hm => ?_⟩
                obtain ⟨rfl, rfl⟩ : vm = vm' ∧ cfg = cfg' := by
                  simpa [(hat₂.quietly hq').inputs] using hi
                rw [hm] at hno
                cases hno
              refine (logInfo_quiet (by decide) (by decide)).obeys_bind (fun _ h₃ hq₃ => skip hq₃)
                fun _ h₃ hq₃ => skip hq₃
            · exact (reconcileCreate_keeps hat₂ (by simpa using hdel)).mono
                fun h' r hf => hf.ends

end reconcile

end SaltOperator
