import SaltOperator.Cluster.PassRules
import SaltOperator.Cluster.Sound

/-!
# A walk over the reconciler

What `reconcileCreate` does, operation by operation, whatever it is answered: it
patches annotations of the operator's own and adds its finalizer, and it uses the
RaaS client it was given, without deleting keys (`Op.OfCreate`). The rules at the
end take a contract about single operations over a whole pass, and leave open only
what differs between contracts: how a client is got (`saltClientFromConfig`) and
how a VM is deleted (`reconcile_obeys`).
-/

namespace SaltOperator

/-- The operations of `reconcileCreate` with clients in `serves`, apart from those
that get a client. -/
def Op.OfCreate (serves : Connection → Prop) : Op → Prop
  | .getVM _ => False
  | .listConfigs _ => False
  | .getSecret _ => False
  | .cacheGet _ _ => False
  | .cacheSet _ _ _ => False
  | .patchVM base obj => Touches base obj ∧
      (saltFinalizer ∈ base.finalizers → saltFinalizer ∈ obj.finalizers)
  | .salt _ (.deleteKey _) => False
  | .salt conn _ => serves conn
  | _ => True

section walk

variable {rt : Runtime} {d : Default} {vm : VirtualMachine} {conn : Connection}
  {cfg : SaltKeyConfig} {minionID : String} {requeueAfter : Duration} {α : Type}
  {serves : Connection → Prop}

/-! ## The calls every step makes -/

theorem patchAnnotations_ofCreate {additions : List (String × String)}
    (hown : OwnKeys additions) :
    (patchAnnotations vm additions).Performs (Op.OfCreate serves) := by
  refine ⟨⟨⟨rfl, rfl, rfl, hown.tenantEq vm⟩, id⟩, fun a => ?_⟩
  cases a <;> exact trivial

theorem patch_bind_ofCreate {additions : List (String × String)} {f : VirtualMachine → M α}
    (hown : OwnKeys additions) (hf : ∀ m, (f m).Performs (Op.OfCreate serves)) :
    (patchAnnotations vm additions >>= f).Performs (Op.OfCreate serves) :=
  (patchAnnotations_ofCreate hown).bind hf

/-- A patch after which the pass reports one event and returns. -/
theorem patch_event_ofCreate {additions : List (String × String)} {type : EventType}
    {reason : String} {message : VirtualMachine → String} {res : Result}
    (hown : OwnKeys additions) :
    (patchAnnotations vm additions >>= fun m =>
      recordEvent m type reason (message m) >>= fun _ => pure res).Performs
      (Op.OfCreate serves) :=
  patch_bind_ofCreate hown fun _ => ⟨trivial, fun _ => trivial⟩

theorem ensureFinalizer_ofCreate {wrap : String → String} :
    (ensureFinalizer wrap vm).Performs (Op.OfCreate serves) := by
  unfold ensureFinalizer
  split
  · exact trivial
  · refine ⟨⟨touches_addFinalizer vm, fun hmem => ?_⟩, fun a => ?_⟩
    · unfold VirtualMachine.addFinalizer
      split
      · exact hmem
      · exact List.mem_append_left _ hmem
    · cases a <;> exact trivial

theorem clearPreseedKey_ofCreate {trigger : String} :
    (clearPreseedKey vm trigger).Performs (Op.OfCreate serves) := by
  unfold clearPreseedKey
  split
  · exact trivial
  · refine Prog.Performs.bind ?_ fun _ => patch_bind_ofCreate (ownKeys_of_all rfl) fun m => ?_
    · refine ⟨trivial, fun a => ?_⟩
      cases a with
      | error e => cases e <;> exact trivial
      | ok u => exact trivial
    · exact ⟨trivial, fun _ => ⟨trivial, fun _ => trivial⟩⟩

theorem timeNow_ofCreate : timeNow.Performs (Op.OfCreate serves) := ⟨trivial, fun _ => trivial⟩

theorem masterLastSeen_ofCreate (hc : serves conn) :
    (masterLastSeen conn).Performs (Op.OfCreate serves) := by
  refine ⟨hc, fun a => ?_⟩
  cases a <;> exact trivial

theorem masterSilence_ofCreate {before : String} {started : Time} (hc : serves conn) :
    (masterSilence conn before started).Performs (Op.OfCreate serves) := by
  unfold masterSilence
  split
  · exact trivial
  · refine ⟨trivial, fun now => ?_⟩
    show Prog.Performs (Op.OfCreate serves) (ite _ _ _)
    split
    · exact trivial
    · refine (masterLastSeen_ofCreate hc).bind fun seen => ?_
      split <;> exact trivial

/-! ## Getting a key accepted -/

theorem runAcceptKey_ofCreate {acceptTimeout : Duration} (hc : serves conn) :
    (runAcceptKey rt vm conn acceptTimeout requeueAfter).Performs (Op.OfCreate serves) := by
  refine ⟨hc, fun a => ?_⟩
  cases a with
  | error e => exact trivial
  | ok pendingKeys =>
    show Prog.Performs (Op.OfCreate serves) (ite _ _ _)
    split
    · refine ⟨trivial, fun _ => ⟨hc, fun a => ?_⟩⟩
      cases a with
      | error e => exact trivial
      | ok u =>
        refine ⟨trivial, fun now => patch_bind_ofCreate (ownKeys_of_all rfl) fun m => ?_⟩
        exact ensureFinalizer_ofCreate.bind fun m => ⟨trivial, fun _ => trivial⟩
    · refine ⟨trivial, fun now => ?_⟩
      show Prog.Performs (Op.OfCreate serves) (ite _ _ _)
      split
      · exact ⟨trivial, fun _ => trivial⟩
      · split
        · exact trivial
        · exact ⟨trivial, fun _ => patch_event_ofCreate (ownKeys_of_all rfl)⟩

theorem writeBootstrapSecret_ofCreate {pair : KeyPair} {masterPub : String} :
    (writeBootstrapSecret vm minionID pair masterPub).Performs (Op.OfCreate serves) := by
  refine ⟨trivial, fun a => ?_⟩
  cases a with
  | ok u => exact trivial
  | error e =>
    cases e with
    | alreadyExists text =>
      refine ⟨trivial, fun a => ?_⟩
      cases a <;> exact trivial
    | _ => exact trivial

theorem deliverPreseedKey_ofCreate {force : Bool} {pair : KeyPair} (hc : serves conn) :
    (deliverPreseedKey vm conn minionID force pair requeueAfter).Performs
      (Op.OfCreate serves) := by
  refine ⟨hc, fun a => ?_⟩
  cases a with
  | error e => exact trivial
  | ok masterPub =>
    refine writeBootstrapSecret_ofCreate.bind fun _ => ensureFinalizer_ofCreate.bind fun m => ?_
    refine patch_bind_ofCreate (ownKeys_of_all rfl) fun m => ?_
    exact ⟨trivial, fun _ => ⟨trivial, fun _ => trivial⟩⟩

theorem warnForeignKey_ofCreate {states : List String} :
    (warnForeignKey vm minionID states).Performs (Op.OfCreate serves) := by
  unfold warnForeignKey
  split
  · exact ⟨trivial, fun _ => trivial⟩
  · exact trivial

theorem runPreseedKey_ofCreate (hc : serves conn) :
    (runPreseedKey vm conn requeueAfter).Performs (Op.OfCreate serves) := by
  refine ⟨trivial, fun a => ?_⟩
  cases a with
  | error e => exact trivial
  | ok list =>
    dsimp only [Prog.bind, Prog.pure_eq]
    split
    · refine ⟨hc, fun a => ?_⟩
      cases a with
      | error e => exact trivial
      | ok states =>
        refine warnForeignKey_ofCreate.bind fun _ => ⟨hc, fun a => ?_⟩
        rcases a with e | _ | pair
        · exact trivial
        · exact trivial
        · exact deliverPreseedKey_ofCreate hc
    · split
      · exact ⟨trivial, fun _ => trivial⟩
      · exact patch_event_ofCreate (ownKeys_of_all rfl)

/-! ## The chain after acceptance -/

theorem pingFailed_ofCreate {masterBefore : String} {started : Time}
    {outcome : Except String Bool} (hc : serves conn) :
    (pingFailed rt vm conn minionID masterBefore started outcome).Performs
      (Op.OfCreate serves) := by
  refine (masterSilence_ofCreate hc).bind fun silent => ⟨trivial, fun _ => ⟨trivial, fun now => ?_⟩⟩
  show Prog.Performs (Op.OfCreate serves) (ite _ _ _)
  split
  · exact ⟨trivial, fun _ => ⟨trivial, fun _ => trivial⟩⟩
  · refine clearPreseedKey_ofCreate.bind fun m => ?_
    exact patch_event_ofCreate (ownKeys_of_all rfl)

theorem runPing_ofCreate (hc : serves conn) :
    (runPing rt vm conn minionID requeueAfter).Performs (Op.OfCreate serves) := by
  refine ⟨trivial, fun _ => (masterLastSeen_ofCreate hc).bind fun before => ?_⟩
  refine ⟨trivial, fun started => ⟨hc, fun a => ?_⟩⟩
  rcases a with e | _ | _
  · exact pingFailed_ofCreate hc
  · exact pingFailed_ofCreate hc
  · refine ⟨trivial, fun _ => clearPreseedKey_ofCreate.bind fun m => ?_⟩
    exact patch_event_ofCreate (ownKeys_of_all rfl)

theorem refreshPillarFailed_ofCreate {masterBefore : String} {started : Time}
    {outcome : Except String Bool} (hc : serves conn) :
    (refreshPillarFailed rt vm conn minionID masterBefore started outcome).Performs
      (Op.OfCreate serves) := by
  refine (masterSilence_ofCreate hc).bind fun silent => ⟨trivial, fun _ => ⟨trivial, fun now => ?_⟩⟩
  show Prog.Performs (Op.OfCreate serves) (ite _ _ _)
  split
  · exact ⟨trivial, fun _ => ⟨trivial, fun _ => trivial⟩⟩
  · exact patch_event_ofCreate (ownKeys_of_all rfl)

theorem runRefreshPillar_ofCreate (hc : serves conn) :
    (runRefreshPillar rt vm conn minionID requeueAfter).Performs (Op.OfCreate serves) := by
  refine ⟨trivial, fun _ => (masterLastSeen_ofCreate hc).bind fun before => ?_⟩
  refine ⟨trivial, fun started => ⟨hc, fun a => ?_⟩⟩
  rcases a with e | _ | _
  · exact refreshPillarFailed_ofCreate hc
  · exact refreshPillarFailed_ofCreate hc
  · exact ⟨trivial, fun _ => patch_event_ofCreate (ownKeys_of_all rfl)⟩

theorem runDispatchHighstate_ofCreate (hc : serves conn) :
    (runDispatchHighstate rt vm conn minionID requeueAfter).Performs (Op.OfCreate serves) := by
  refine ⟨trivial, fun _ => ⟨hc, fun a => ?_⟩⟩
  cases a with
  | error e => exact ⟨trivial, fun _ => patch_event_ofCreate (ownKeys_of_all rfl)⟩
  | ok jid =>
    refine patch_bind_ofCreate (ownKeys_of_all rfl) fun m => ?_
    exact ⟨trivial, fun _ => ⟨trivial, fun _ => trivial⟩⟩

theorem runPollHighstate_ofCreate {jid : String} (hc : serves conn) :
    (runPollHighstate rt vm conn minionID jid requeueAfter).Performs (Op.OfCreate serves) := by
  unfold runPollHighstate
  split
  · exact ⟨trivial, fun _ => trivial⟩
  · refine ⟨hc, fun a => ?_⟩
    rcases a with e | _ | result
    · exact ⟨trivial, fun _ => trivial⟩
    · exact ⟨trivial, fun _ => trivial⟩
    · refine ⟨trivial, fun now => ?_⟩
      show Prog.Performs (Op.OfCreate serves) (ite _ _ _)
      split
      · exact ⟨trivial, fun _ => patch_event_ofCreate (ownKeys_of_all rfl)⟩
      · exact ⟨trivial, fun _ => patch_event_ofCreate (ownKeys_of_all rfl)⟩

theorem runDay2_ofCreate {seen : VirtualMachine} (hc : serves conn) :
    (runDay2 vm conn minionID (day2Markers rt seen cfg) requeueAfter).Performs
      (Op.OfCreate serves) := by
  have hown {l : List (String × String)} (hl : l.all fun e => ownAnnotations.contains e.1) :
      OwnKeys (withMarkers (day2Markers rt seen cfg) l) := (ownKeys_of_all hl).withMarkers seen cfg
  refine (masterLastSeen_ofCreate hc).bind fun before => ⟨trivial, fun started => ⟨hc, fun a => ?_⟩⟩
  rcases a with e | _ | _
  · refine (masterSilence_ofCreate hc).bind fun silent => ⟨trivial, fun _ => ?_⟩
    exact patch_event_ofCreate (hown rfl)
  · refine (masterSilence_ofCreate hc).bind fun silent => ⟨trivial, fun _ => ?_⟩
    exact patch_event_ofCreate (hown rfl)
  · refine ⟨hc, fun a => ?_⟩
    cases a with
    | error e => exact ⟨trivial, fun _ => patch_event_ofCreate (hown rfl)⟩
    | ok jid =>
      exact patch_bind_ofCreate (hown rfl) fun m => ⟨trivial, fun _ => ⟨trivial, fun _ => trivial⟩⟩

theorem reconverge_ofCreate (hc : serves conn) :
    (reconverge rt vm conn cfg minionID requeueAfter).Performs (Op.OfCreate serves) := by
  unfold reconverge
  split
  · -- nothing to start at once
    refine Prog.Performs.bind ?_ fun m => ?_
    · unfold noteBulkToken
      split
      · exact patchAnnotations_ofCreate (ownKeys_of_all rfl)
      · exact trivial
    · show Prog.Performs (Op.OfCreate serves) (ite _ _ _)
      split
      · exact trivial
      · refine timeNow_ofCreate.bind fun now => ?_
        generalize enforcementDue rt cfg m.uid (vm.annotationOf annotationHighstateTime) now = e
        obtain ⟨due, wait⟩ := e
        dsimp only
        split
        · exact trivial
        · exact ⟨trivial, fun _ => ⟨trivial, fun _ => runDay2_ofCreate hc⟩⟩
  · split
    · refine ⟨trivial, fun _ => patch_event_ofCreate ?_⟩
      exact (ownKeys_of_all rfl).append (ownKeys_handledMarkers vm cfg)
    · exact ⟨trivial, fun _ => runDay2_ofCreate hc⟩

theorem checkReconvergence_ofCreate (hc : serves conn) :
    (checkReconvergence rt vm conn cfg minionID requeueAfter).Performs (Op.OfCreate serves) := by
  unfold checkReconvergence
  dsimp only
  split
  · split
    · exact trivial
    · unfold restartFirstChain
      split
      · exact trivial
      · refine ⟨trivial, fun _ => patch_event_ofCreate ?_⟩
        exact (ownKeys_of_all rfl).append (ownKeys_handledMarkers vm cfg)
  · split
    · refine Prog.Performs.bind ?_ fun adopted => ?_
      · unfold adoptLegacyIntentHash
        split
        · exact trivial
        · exact ⟨trivial, fun _ => patch_bind_ofCreate (ownKeys_of_all rfl) fun m => trivial⟩
      · split
        · exact trivial
        · exact reconverge_ofCreate hc
    · exact reconverge_ofCreate hc

theorem reconcilePostAccept_ofCreate (hc : serves conn) :
    (reconcilePostAccept rt vm conn cfg minionID requeueAfter).Performs (Op.OfCreate serves) := by
  unfold reconcilePostAccept
  split
  · exact ⟨trivial, fun _ => trivial⟩
  · split
    · refine ⟨trivial, fun now => ?_⟩
      show Prog.Performs (Op.OfCreate serves) (ite _ _ _)
      split
      · exact ⟨trivial, fun _ => trivial⟩
      · exact runPing_ofCreate hc
    · split
      · exact runRefreshPillar_ofCreate hc
      · split
        · exact runDispatchHighstate_ofCreate hc
        · split
          · exact runPollHighstate_ofCreate hc
          · exact checkReconvergence_ofCreate hc

theorem clearSignalledKey_ofCreate {timedOut : Bool} :
    (clearSignalledKey rt vm cfg timedOut).Performs (Op.OfCreate serves) := by
  unfold clearSignalledKey
  split
  · exact clearPreseedKey_ofCreate
  · split
    · exact clearPreseedKey_ofCreate
    · exact trivial

end walk

/-! ## Whole passes -/

section obeys

variable {rt : Runtime} {d : Default} {vm : VirtualMachine} {cfg : SaltKeyConfig}
  {serves : Connection → Prop} {E : History → Made → Prop} {Φ : History → Op → Prop}
  {I : History → Prop} {h : History}

/-- What it takes of a contract to be kept by the steps of `reconcileCreate`: `I`, a
property of the calls so far that those steps preserve, permits them, and a client
that is got under `I` is one of `serves`. -/
structure CreateRule (rt : Runtime) (d : Default) (cfg : SaltKeyConfig)
    (serves : Connection → Prop) (E : History → Made → Prop) (Φ : History → Op → Prop)
    (I : History → Prop) : Prop where
  step : ∀ h o, I h → o.OfCreate serves → Φ h o ∧ ∀ w a, I (⟨w, o, a⟩ :: h)
  client : ∀ h, I h → (saltClientFromConfig rt d cfg).Obeys E Φ
    (fun h' r => I h' ∧ ∀ conn, r = .ok conn → serves conn) h

namespace CreateRule

theorem obeys {α : Type} {p : M α} (R : CreateRule rt d cfg serves E Φ I)
    (hp : p.Performs (Op.OfCreate serves)) (hI : I h) : p.Obeys E Φ (fun h' _ => I h') h :=
  hp.obeys R.step hI

theorem obeys_bind {α β : Type} {p : M α} {f : α → M β} (R : CreateRule rt d cfg serves E Φ I)
    (hp : p.Performs (Op.OfCreate serves)) (hI : I h)
    (hf : ∀ a h', I h' → (f a).Obeys E Φ (fun h' _ => I h') h') :
    (p >>= f).Obeys E Φ (fun h' _ => I h') h := by
  refine Prog.Obeys.bind ((R.obeys hp hI).mono fun h' r hr => ?_)
  cases r with
  | ok a => exact hf a h' hr
  | error e => exact hr

/-- A step that needs a client. -/
theorem client_bind {f : Connection → M Result} (R : CreateRule rt d cfg serves E Φ I)
    (hI : I h) (hf : ∀ conn, serves conn → (f conn).Performs (Op.OfCreate serves)) :
    (saltClientFor rt d vm cfg >>= f).Obeys E Φ (fun h' _ => I h') h := by
  refine Prog.Obeys.bind (Prog.Obeys.bind (Prog.Obeys.attempt ?_))
  refine (R.client h hI).mono fun h' r hr => ?_
  cases r with
  | error e => exact hr.1
  | ok conn => exact R.obeys (hf conn (hr.2 conn rfl)) hr.1

theorem reconcileKey {acceptTimeout requeueAfter : Duration} {timedOut : Bool}
    (R : CreateRule rt d cfg serves E Φ I) (hI : I h) :
    (reconcileKey rt d vm cfg acceptTimeout requeueAfter timedOut).Obeys E Φ
      (fun h' _ => I h') h := by
  unfold SaltOperator.reconcileKey
  dsimp only
  split
  · exact hI
  · split
    · exact R.client_bind hI fun conn => runPreseedKey_ofCreate
    · split
      · exact R.obeys (patch_event_ofCreate (ownKeys_of_all rfl)) hI
      · split
        · refine R.obeys (p := logInfo _ _ >>= fun _ => pure _) ?_ hI
          exact ⟨trivial, fun _ => trivial⟩
        · split
          · refine R.obeys ?_ hI
            exact ⟨trivial, fun now => patch_event_ofCreate (ownKeys_of_all rfl)⟩
          · exact R.client_bind hI fun conn => runAcceptKey_ofCreate

theorem reconcileCreate (R : CreateRule rt d cfg serves E Φ I) (hI : I h) :
    (reconcileCreate rt d vm cfg).Obeys E Φ (fun h' _ => I h') h := by
  refine R.obeys_bind timeNow_ofCreate hI fun now h₁ hI₁ => ?_
  refine R.obeys_bind clearSignalledKey_ofCreate hI₁ fun m h₂ hI₂ => ?_
  split
  · exact R.reconcileKey hI₂
  · refine R.obeys_bind ensureFinalizer_ofCreate hI₂ fun m h₃ hI₃ => ?_
    exact R.client_bind hI₃ fun conn => reconcilePostAccept_ofCreate

end CreateRule

/-- The operations of `reconcileDelete` with clients in `serves`, apart from those that
get a client. -/
def Op.OfDelete (serves : Connection → Prop) : Op → Prop
  | .getVM _ => True
  | .patchVM base obj => Touches base obj
  | .salt conn (.deleteKey _) => serves conn
  | .log _ _ _ => True
  | .event _ _ _ _ => True
  | _ => False

theorem removeSaltFinalizer_ofDelete : (removeSaltFinalizer vm).Performs (Op.OfDelete serves) := by
  refine ⟨trivial, fun a => ?_⟩
  cases a with
  | error e => cases e <;> exact trivial
  | ok latest =>
    show Prog.Performs (Op.OfDelete serves) (ite _ _ _)
    split
    · refine ⟨⟨rfl, rfl, rfl, fun _ _ => rfl⟩, fun a => ?_⟩
      cases a with
      | error e => cases e <;> exact trivial
      | ok m => exact trivial
    · exact trivial

theorem finishDelete_ofDelete {status reason message : String} {type : EventType} :
    (finishDelete vm status type reason message).Performs (Op.OfDelete serves) := by
  refine Prog.Performs.bind (Prog.Performs.attempt ?_) fun _ => ?_
  · refine ⟨⟨rfl, rfl, rfl, OwnKeys.tenantEq (ownKeys_of_all rfl) vm⟩, fun a => ?_⟩
    cases a <;> exact trivial
  · exact ⟨trivial, fun _ => removeSaltFinalizer_ofDelete⟩

/-- The rule for a pass that deletes, under a contract about single operations. -/
theorem reconcileDelete_obeys (serves : Connection → Prop) (hΦ : ∀ h o, o.OfDelete serves → Φ h o)
    (hclient : (saltClientFromConfig rt d cfg).Obeys E Φ
      (fun _ r => ∀ conn, r = .ok conn → serves conn) h) :
    (reconcileDelete rt d vm cfg).Obeys E Φ (fun _ _ => True) h := by
  have obeys {p : M Result} {h : History} (hp : p.Performs (Op.OfDelete serves)) :
      p.Obeys E Φ (fun _ _ => True) h :=
    hp.obeys (I := fun _ => True) (fun h o _ ho => ⟨hΦ h o ho, fun _ _ => trivial⟩) trivial
  unfold reconcileDelete
  dsimp only
  split
  · exact trivial
  · split
    · exact obeys removeSaltFinalizer_ofDelete
    · refine Prog.Obeys.bind (Prog.Obeys.attempt (hclient.mono fun h' r hr => ?_))
      cases r with
      | error e => exact obeys (p := logError _ _ _ >>= fun _ => pure _) ⟨trivial, fun _ => trivial⟩
      | ok conn =>
        refine obeys ⟨hr conn rfl, fun a => ?_⟩
        cases a <;> exact ⟨trivial, fun _ => finishDelete_ofDelete⟩

/-- The calls of a pass up to the choice of a config. -/
def History.Chosen (E : History → Made → Prop) (k : NamespacedName) (vm : VirtualMachine)
    (cfg : SaltKeyConfig) (h h' : History) : Prop :=
  ∃ w w₁ w₂ fields configs, selectConfig configs = some cfg ∧
    E (⟨w, .getVM k, .ok vm⟩ :: h) ⟨w₁, .listConfigs (some k.nspace), .ok configs⟩ ∧
    h' = ⟨w₂, .log none "Reconciling VirtualMachine" fields, ()⟩ ::
      ⟨w₁, .listConfigs (some k.nspace), .ok configs⟩ :: ⟨w, .getVM k, .ok vm⟩ :: h

/-- They fix what the pass works on. -/
theorem History.Chosen.passInputs {k : NamespacedName} {h' : History}
    (hc : h.Chosen E k vm cfg h') : h'.passInputs = some (vm, cfg) := by
  obtain ⟨w, w₁, w₂, fields, configs, hsel, -, rfl⟩ := hc
  have hread : lastVM (⟨w, .getVM k, .ok vm⟩ :: h) = some vm := rfl
  show History.passInputs (⟨w₁, .listConfigs (some k.nspace), .ok configs⟩ :: _) = _
  exact passInputs_listConfigs.mpr ⟨hread, hsel⟩

theorem History.Chosen.lastVM {k : NamespacedName} {h' : History}
    (hc : h.Chosen E k vm cfg h') : h'.lastVM = some vm := by
  obtain ⟨w, w₁, w₂, fields, configs, -, -, rfl⟩ := hc
  rfl

theorem passInputs_of_ofCreate {w : World} {o : Op} {a : o.Ans} (ho : o.OfCreate serves) :
    History.passInputs (⟨w, o, a⟩ :: h) = h.passInputs := by
  cases o <;> first | rfl | cases ho

/-- A pass reads the VM and the configs, and logs, before it decides what to do. -/
def Op.surveys : Op → Bool
  | .getVM _ => true
  | .listConfigs _ => true
  | .log _ _ _ => true
  | _ => false

/-- The rule for a pass: reading the VM and the configs, and the log lines, are permitted
throughout, and keep `I`. -/
theorem reconcile_obeys_keeping {k : NamespacedName} {Ψ : History → Except String Result → Prop}
    (hI : I h) (hkeep : ∀ h w (o : Op) a, o.surveys = true → I h → I (⟨w, o, a⟩ :: h))
    (hend : ∀ h r, I h → Ψ h r)
    (hget : ∀ h, Φ h (.getVM k)) (hlist : ∀ h, Φ h (.listConfigs (some k.nspace)))
    (hlog : ∀ h message fields, Φ h (.log none message fields))
    (hdelete : ∀ vm cfg h', h.Chosen E k vm cfg h' → vm.deleting = true → I h' →
      (reconcileDelete rt d vm cfg).Obeys E Φ Ψ h')
    (hcreate : ∀ vm cfg h', h.Chosen E k vm cfg h' → vm.deleting = false → I h' →
      (reconcileCreate rt d vm cfg).Obeys E Φ Ψ h') :
    (reconcile rt d k).Obeys E Φ Ψ h := by
  refine ⟨hget h, fun w a _ => ?_⟩
  have hI₁ : I (⟨w, .getVM k, a⟩ :: h) := hkeep _ _ _ _ rfl hI
  cases a with
  | error e => cases e <;> exact hend _ _ hI₁
  | ok vm =>
    show Prog.Obeys E Φ Ψ (ite _ _ _) _
    split
    · exact hend _ _ hI₁
    · refine ⟨hlist _, fun w₁ a₁ ha => ?_⟩
      have hI₂ := hkeep _ w₁ (.listConfigs (some k.nspace)) a₁ rfl hI₁
      cases a₁ with
      | error e => exact hend _ _ hI₂
      | ok configs =>
        dsimp only [Prog.bind, Prog.pure_eq]
        split
        · exact hend _ _ hI₂
        · rename_i cfg hsel
          refine ⟨hlog _ _ _, fun w₂ _ _ => ?_⟩
          have hI₃ message fields := hkeep _ w₂ (.log none message fields) () rfl hI₂
          show Prog.Obeys E Φ Ψ (ite _ _ _) _
          split
          · exact hdelete vm cfg _ ⟨w, w₁, w₂, _, configs, hsel, ha, rfl⟩ ‹_› (hI₃ _ _)
          · rename_i hdel
            split
            · exact ⟨hlog _ _ _, fun _ _ _ => hend _ _ (hkeep _ _ _ _ rfl (hI₃ _ _))⟩
            · exact hcreate vm cfg _ ⟨w, w₁, w₂, _, configs, hsel, ha, rfl⟩ (by simpa using hdel)
                (hI₃ _ _)

/-- The same without a property to keep. -/
theorem reconcile_obeys {k : NamespacedName} (hget : ∀ h, Φ h (.getVM k))
    (hlist : ∀ h, Φ h (.listConfigs (some k.nspace)))
    (hlog : ∀ h message fields, Φ h (.log none message fields))
    (hdelete : ∀ vm cfg h', h.Chosen E k vm cfg h' → vm.deleting = true →
      (reconcileDelete rt d vm cfg).Obeys E Φ (fun _ _ => True) h')
    (hcreate : ∀ vm cfg h', h.Chosen E k vm cfg h' → vm.deleting = false →
      (reconcileCreate rt d vm cfg).Obeys E Φ (fun _ _ => True) h') :
    (reconcile rt d k).Obeys E Φ (fun _ _ => True) h :=
  reconcile_obeys_keeping (I := fun _ => True) trivial (fun _ _ _ _ _ _ => trivial)
    (fun _ _ _ => trivial) hget hlist hlog (fun vm cfg h' hc hdel _ => hdelete vm cfg h' hc hdel)
    (fun vm cfg h' hc hdel _ => hcreate vm cfg h' hc hdel)

end obeys

end SaltOperator
