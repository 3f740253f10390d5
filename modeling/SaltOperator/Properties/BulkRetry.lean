import SaltOperator.Cluster.Walk
import SaltOperator.Properties.ChainStarts
import SaltOperator.Properties.Reconvergence

/-!
# Whom a bulk retry token reaches

A bulk retry token is set in the config of a namespace and noted on each VM
(`bulk-retry-handled`) when the VM's worker gets to it: with the restart of a failed
chain that it is a reason for, with any other start, or by itself if the chain is
done. A chain under way does not look at it.

- `Permitted.token_noted`: a worker that takes a chain at rest anywhere notes the
  token of its config.
- `Marked`: from the setting of the token on, the VM records it or its chain is where
  it was.

**A token restarts only chains that had failed when it was set, and each of them
once** (`bulk_retry_aimed`), if the chain was at rest then, no pass over the VM was
going on, and its worker reads the token as it is. A VM that is created later is
restarted by it as well (`bulk_retry_of_new_vm`).
-/

namespace SaltOperator

/-- The patch from `base` to `obj` starts a failed chain over, and a token that the VM does
not record is a reason for it. -/
structure TokenRestart (h : History) (base obj : VirtualMachine) : Prop where
  failed : base.chainFailed = true
  restarted : obj.annotationOf annotationSaltStatus = ""
  token : ∃ vm cfg, h.passInputs = some (vm, cfg) ∧ bulkChanged base cfg = true

/-- The config that is selected from an answer has the token. -/
def Made.SaysToken (token : String) : Made → Prop
  | ⟨_, .listConfigs _, .ok configs⟩ =>
    ∀ cfg, selectConfig configs = some cfg → cfg.spec.retryToken = token
  | _ => True

/-- The token of the VM's namespace stays what it is, and the VM's worker is told so. -/
structure UntilSet (k : NamespacedName) (c : ClusterCfg) (act : ClusterAction) (c' : ClusterCfg) :
    Prop where
  same : c'.world.token k.nspace = c.world.token k.nspace
  read : ∀ o a, act = .call k o a → Made.SaysToken (c.world.token k.nspace) ⟨c.world, o, a⟩

section aim

variable {rt : Runtime} {d : Default} {crash : Prop} {c c' c₁ : ClusterCfg} {act : ClusterAction}
  {k : NamespacedName} {h : History} {base obj vm₁ vm' : VirtualMachine} {token : String}
  {rests : List String}

/-! ## What a pass works under -/

/-- The config the pass works under has the token. -/
def History.UnderToken (token : String) (h : History) : Prop :=
  ∀ vm cfg, h.passInputs = some (vm, cfg) → cfg.spec.retryToken = token

/-- A patch of anything but the record of the key is made under the token. -/
def Op.UnderToken (token : String) (h : History) : Op → Prop
  | .patchVM base obj => Op.SparesAnnotations (.patchVM base obj) ∨ h.UnderToken token
  | _ => True

theorem Op.SparesAnnotations.underToken {o : Op} (ho : o.SparesAnnotations) :
    o.UnderToken token h := by
  cases o with
  | patchVM base obj => exact .inl ho
  | _ => exact trivial

theorem History.UnderToken.op (hh : h.UnderToken token) (o : Op) : o.UnderToken token h := by
  cases o with
  | patchVM base obj => exact .inr hh
  | _ => exact trivial

/-- A pass that is told the token works under it. -/
theorem reconcile_underToken (k : NamespacedName) (token : String) (h : History) :
    (reconcile rt d k).Obeys (fun _ => Made.SaysToken token) (Op.UnderToken token)
      (fun _ _ => True) h := by
  refine reconcile_obeys (fun _ => trivial) (fun _ => trivial) (fun _ _ _ => trivial)
    (fun vm cfg h' _ _ => ?_) (fun vm cfg h' hc _ => ?_)
  · -- a pass that deletes writes nothing about the chain
    exact reconcileDelete_spares.obeys (I := fun _ => True)
      (fun _ _ _ ho => ⟨ho.underToken, fun _ _ => trivial⟩) trivial
  · -- any other pass keeps to the config it has read
    have rule : CreateRule rt d cfg (fun _ => True) (fun _ => Made.SaysToken token)
        (Op.UnderToken token) (History.UnderToken token) := by
      refine ⟨fun h o hh ho => ⟨hh.op o, fun w a => ?_⟩, fun h hh => ?_⟩
      · unfold History.UnderToken
        rwa [passInputs_of_ofCreate ho]
      · refine (saltClientFromConfig_quiet.performs.obeys (I := History.UnderToken token)
          (fun h o hh ho => ⟨History.UnderToken.op hh o, fun w a => ?_⟩) hh).mono
          fun _ _ hh => ⟨hh, fun _ _ => trivial⟩
        unfold History.UnderToken
        rwa [History.passInputs_of_quiet (c := ⟨w, o, a⟩) ho]
    refine (rule.reconcileCreate fun vm' cfg' hi => ?_).mono fun _ _ _ => trivial
    rw [hc.passInputs] at hi
    cases hi
    obtain ⟨w, w₁, w₂, fields, configs, hsel, hsays, -⟩ := hc
    exact hsays cfg hsel

/-- From the setting of the token on, the patches of a worker that was idle are made under
it. -/
theorem underToken (hidle : c₁.threads k = none)
    (hrun : (cluster rt d notOwn crash).StepsIf (UntilSet k) c₁ c) {a : Op.Ans (.patchVM base obj)}
    (hs : (cluster rt d notOwn crash).Step c (.call k (.patchVM base obj) a) c') :
    Op.UnderToken (c₁.world.token k.nspace) (c.hist k) (.patchVM base obj) := by
  obtain ⟨hrun, -⟩ := hrun.also
    (P := fun c => c.world.token k.nspace = c₁.world.token k.nspace)
    (fun _ _ _ _ hu heq => hu.same.trans heq) rfl
  -- the worker begins its passes after the setting, so each is told the token
  cases hs with
  | call _ hth hx =>
    refine (hrun.obeys (reconcile_underToken k _) (fun c o a c' _ hu => ?_) hidle hth).1
    exact hu.1 ▸ hu.2.read o a rfl

/-! ## What a patch notes -/

/-- A worker that has announced no start leaves a chain at rest. -/
theorem Write.keeps_rest {additions : List (String × String)} (hw : Write rt h base additions)
    (hidle : h.startPending = none) (hrest : base.annotationOf annotationSaltStatus ∉
      ["", saltStatusPinged, saltStatusPillarRefreshed, saltStatusHighstateDispatched]) :
    (base.withAnnotations additions).annotationOf annotationSaltStatus =
      base.annotationOf annotationSaltStatus := by
  have chain : ∀ s ∈ ["", saltStatusPinged, saltStatusPillarRefreshed,
      saltStatusHighstateDispatched], ¬ base.InChain s := fun s hs hc => hrest (hc.2.2 ▸ hs)
  have other : additions.reverse.lookup annotationSaltStatus = none →
      (base.withAnnotations additions).annotationOf annotationSaltStatus =
        base.annotationOf annotationSaltStatus := by
    intro hnone
    rw [VirtualMachine.annotationOf_withAnnotations, hnone]
    rfl
  cases hw with
  | pingFailed hc => exact absurd hc (chain _ (by decide))
  | pinged hc => exact absurd hc (chain _ (by decide))
  | refreshFailed hc => exact absurd hc (chain _ (by decide))
  | refreshed hc => exact absurd hc (chain _ (by decide))
  | dispatchFailed hc => exact absurd hc (chain _ (by decide))
  | dispatched jid hc => exact absurd hc (chain _ (by decide))
  | highstateReady time hc => exact absurd hc (chain _ (by decide))
  | highstateFailed time count states hc => exact absurd hc (chain _ (by decide))
  | reset vm cfg _ _ _ _ hpending =>
    rw [hidle] at hpending
    cases hpending
  | restart vm cfg _ _ _ _ hpending =>
    rw [hidle] at hpending
    cases hpending
  | day2RefreshFailed seen cfg hd => exact absurd hidle hd.pending
  | day2DispatchFailed seen cfg hd => exact absurd hidle hd.pending
  | day2Dispatched seen cfg jid hd => exact absurd hidle hd.pending
  | _ => exact other rfl

/-- The patch of a chain start notes the token of its config, if it was not noted before. -/
theorem Consumes.token_noted {additions : List (String × String)}
    (hc : Consumes rt h base additions) (htoken : h.UnderToken token) (hne : token ≠ "") :
    (base.withAnnotations additions).annotationOf annotationBulkRetryHandled = token := by
  obtain ⟨seen, cfg, patch, hp, rfl⟩ := hc
  obtain ⟨vm, hi⟩ := hp.inputs
  obtain rfl := htoken vm cfg hi
  have hn : StartNotes rt seen base _ cfg := hp.notes
  rw [hn.token]
  split
  · rfl
  · rename_i hno
    rcases hp.snapshot with rfl | ⟨-, hbulk, -⟩
    · simp only [bulkChanged, hne, ne_eq, not_false_eq_true, decide_true, Bool.true_and,
        decide_eq_true_eq, Decidable.not_not] at hno
      exact hno.symm
    · exact absurd hbulk hno

/-- **What a patch leaves**: the token noted, or the chain where it rests. -/
theorem Permitted.token_noted (hp : Permitted rt crash k h (.patchVM base obj))
    (hu : Op.UnderToken token h (.patchVM base obj)) (hne : token ≠ "")
    (hrest : base.annotationOf annotationSaltStatus ∉
      ["", saltStatusPinged, saltStatusPillarRefreshed, saltStatusHighstateDispatched]) :
    obj.annotationOf annotationBulkRetryHandled = token ∨
      obj.annotationOf annotationSaltStatus = base.annotationOf annotationSaltStatus := by
  rcases hu with hspares | hu
  · exact .inr (VirtualMachine.annotationOf_congr (hspares annotationSaltStatus (by decide)))
  obtain ⟨-, hw, hidle | ⟨additions, rfl, hc⟩⟩ := hp
  · rcases hw with ⟨additions, rfl, hw⟩ | hf
    · exact .inr (hw.keeps_rest hidle hrest)
    · exact .inr (hf.ownEq.annotationOf (by decide))
  · exact .inl (hc.token_noted hu hne)

/-- A patch leaves a note of the token. -/
theorem Permitted.token_kept (hp : Permitted rt crash k h (.patchVM base obj))
    (hu : Op.UnderToken token h (.patchVM base obj))
    (hnoted : base.annotationOf annotationBulkRetryHandled = token) :
    obj.annotationOf annotationBulkRetryHandled = token := by
  rcases hu with hspares | hu
  · rw [← hnoted]
    exact VirtualMachine.annotationOf_congr (hspares annotationBulkRetryHandled (by decide))
  · rcases hp.notes.token with hsame | ⟨vm, cfg, hi, hnew⟩
    · exact hsame.trans hnoted
    · exact hnew.trans (hu vm cfg hi)

/-! ## Since the token was set -/

/-- The name of the VM is taken, and the VM records the token or its chain stands at one of
`rests`. -/
structure Marked (k : NamespacedName) (token : String) (rests : List String) (w : World) :
    Prop where
  used : k ∈ w.names
  marked : ∀ vm, w.vms k = .live vm →
    vm.annotationOf annotationBulkRetryHandled = token ∨
      vm.annotationOf annotationSaltStatus ∈ rests

theorem Marked.step (h : (cluster rt d notOwn crash).Reach c)
    (hs : (cluster rt d notOwn crash).Step c act c') (hne : token ≠ "")
    (hrests : ∀ s ∈ rests, s ∉
      ["", saltStatusPinged, saltStatusPillarRefreshed, saltStatusHighstateDispatched])
    (hu : ∀ base obj a, act = .call k (.patchVM base obj) a →
      Op.UnderToken token (c.hist k) (.patchVM base obj))
    (hm : Marked k token rests c.world) : Marked k token rests c'.world := by
  refine ⟨names_step hs hm.used, fun vm' hvm' => ?_⟩
  obtain ⟨vm, hvm⟩ := live_before h hs hm.used hvm'
  rcases step_live h hs hvm hvm' with ⟨hown, -⟩ | ⟨base, obj, hp⟩
  · rw [hown.annotationOf (by decide), hown.annotationOf (by decide)]
    exact hm.marked vm hvm
  · have hu := hu base obj _ hp.action
    rw [hp.written.annotationOf (by decide), hp.written.annotationOf (by decide)]
    -- a note of the token is kept, and a chain is not taken from its rest without one
    rcases hm.marked vm hvm with hnoted | hrest
    · refine .inl (hp.permitted.token_kept hu ?_)
      rw [hp.copy.annotationOf (by decide), hnoted]
    · rw [← hp.copy.annotationOf (by decide)] at hrest
      refine (hp.permitted.token_noted hu hne (hrests _ hrest)).imp id fun hsame => ?_
      rwa [hsame]

/-- Once a VM is marked it stays so until the token is set again. -/
theorem Marked.run {c₂ : ClusterCfg} (h : (cluster rt d notOwn crash).Reach c₁)
    (hidle : c₁.threads k = none) (hne : c₁.world.token k.nspace ≠ "")
    (hrests : ∀ s ∈ rests, s ∉
      ["", saltStatusPinged, saltStatusPillarRefreshed, saltStatusHighstateDispatched])
    (hrun : (cluster rt d notOwn crash).StepsIf (UntilSet k) c₁ c)
    (hm : Marked k (c₁.world.token k.nspace) rests c.world)
    (hrun₂ : (cluster rt d notOwn crash).StepsIf (UntilSet k) c c₂) :
    Marked k (c₁.world.token k.nspace) rests c₂.world := by
  induction hrun₂ with
  | refl => exact hm
  | @step c act c' hrun' hs hallow ih =>
    have hfrom := hrun.trans hrun'
    refine Marked.step (hfrom.steps.reach h) hs hne hrests (fun base obj a hact => ?_) ih
    subst hact
    exact underToken hidle hfrom hs

/-- A restart is for a token that the VM does not record. -/
theorem TokenRestart.unnoted (hr : TokenRestart h base obj)
    (hu : Op.UnderToken token h (.patchVM base obj)) :
    token ≠ "" ∧ base.annotationOf annotationBulkRetryHandled ≠ token := by
  rcases hu with hspares | hu
  · have hsame := VirtualMachine.annotationOf_congr (hspares annotationSaltStatus (by decide))
    rw [hr.restarted] at hsame
    exact absurd hsame.symm (saltStatus_of_failed hr.failed (by decide))
  · obtain ⟨vm, cfg, hi, hbulk⟩ := hr.token
    obtain rfl := hu vm cfg hi
    simp only [bulkChanged, Bool.and_eq_true, decide_eq_true_eq] at hbulk
    exact ⟨hbulk.1, hbulk.2.symm⟩

/-- The restart notes the token. -/
theorem TokenRestart.noted (hr : TokenRestart h base obj)
    (hp : Permitted rt crash k h (.patchVM base obj))
    (hu : Op.UnderToken token h (.patchVM base obj)) :
    obj.annotationOf annotationBulkRetryHandled = token := by
  refine (hp.token_noted hu (hr.unnoted hu).1 fun hmem => ?_).resolve_right fun hsame => ?_
  · have hchain : ∀ s ∈ ["", saltStatusPinged, saltStatusPillarRefreshed,
        saltStatusHighstateDispatched], Go.hasPrefix s failedStatusPrefix = false := by decide
    exact saltStatus_of_failed hr.failed (hchain _ hmem) rfl
  · rw [hr.restarted] at hsame
    exact saltStatus_of_failed hr.failed (by decide) hsame.symm

/-- A patch neither sets the token nor says what it is. -/
theorem untilSet_patch {a : Op.Ans (.patchVM base obj)}
    (hs : (cluster rt d notOwn crash).Step c (.call k (.patchVM base obj) a) c') :
    UntilSet k c (.call k (.patchVM base obj) a) c' := by
  cases hs with
  | call _ hth hx =>
    obtain ⟨-, rfl⟩ := hx
    refine ⟨?_, ?_⟩
    · show World.token (effect c.world (.patchVM base obj) a) k.nspace = _
      unfold World.token World.config? World.configsIn
      rw [effect_configs]
    · rintro o a' heq
      cases heq
      exact trivial

/-- **A token restarts only a chain that had failed when it was set, and only once**: let
`c₁` be where the token of the VM's namespace has just been set, with the VM's worker idle
and its chain at rest. If the worker restarts the chain for the token before it is set
again, the chain had failed then, and there is no second such restart. -/
theorem bulk_retry_aimed (rt : Runtime) (d : Default) (crash : Prop)
    (h₁ : (cluster rt d notOwn crash).Reach c₁) (hidle : c₁.threads k = none)
    (hvm₁ : c₁.world.vms k = .live vm₁) (hrest : vm₁.AtRest)
    (hrun : (cluster rt d notOwn crash).StepsIf (UntilSet k) c₁ c)
    (hs : (cluster rt d notOwn crash).Step c (.call k (.patchVM base obj) (.ok vm')) c')
    (hr : TokenRestart (c.hist k) base obj) :
    vm₁.chainFailed = true ∧
    ∀ c₂ c₃ base₂ obj₂ vm₂, (cluster rt d notOwn crash).StepsIf (UntilSet k) c' c₂ →
      (cluster rt d notOwn crash).Step c₂ (.call k (.patchVM base₂ obj₂) (.ok vm₂)) c₃ →
      ¬ TokenRestart (c₂.hist k) base₂ obj₂ := by
  have hu := underToken hidle hrun hs
  obtain ⟨hne, hun⟩ := hr.unnoted hu
  have hc := hrun.steps.reach h₁
  obtain ⟨cur, hcur, hp, hvm'⟩ := patch_step hc hs
  have hused : k ∈ c₁.world.names := ((contract rt d crash).keeps h₁).1.mem_names hvm₁
  have hm : Marked k (c₁.world.token k.nspace) [vm₁.annotationOf annotationSaltStatus]
      c.world := by
    refine Marked.run h₁ hidle hne (fun s hs => ?_) .refl ⟨hused, fun vm hvm => .inr ?_⟩ hrun
    · rw [List.mem_singleton.mp hs]
      exact hrest.2.2
    · rw [hvm₁] at hvm
      cases hvm
      exact List.mem_singleton_self _
  refine ⟨?_, fun c₂ c₃ base₂ obj₂ vm₂ hrun₂ hs₂ hr₂ => ?_⟩
  · -- the VM does not record the token yet, so its chain is where it was
    rw [hp.copy.annotationOf (by decide)] at hun
    have hst := List.mem_singleton.mp ((hm.marked cur hcur).resolve_left hun)
    have hf := hr.failed
    unfold VirtualMachine.chainFailed at hf ⊢
    rwa [← hst, ← hp.copy.annotationOf (by decide)]
  · -- the restart has recorded it, and it stays recorded
    have hrun' := hrun.step hs (untilSet_patch hs)
    have hm' : Marked k (c₁.world.token k.nspace) [] c'.world := by
      refine ⟨names_step hs hm.used, fun vm hvm => .inl ?_⟩
      rw [settled_eq_live (hvm'.symm.trans hvm), hp.written.annotationOf (by decide)]
      exact hr.noted hp.permitted hu
    have hm₂ := Marked.run h₁ hidle hne (by simp) hrun' hm' hrun₂
    have hfrom := hrun'.trans hrun₂
    obtain ⟨cur₂, hcur₂, hp₂, -⟩ := patch_step (hfrom.steps.reach h₁) hs₂
    refine (hr₂.unnoted (underToken hidle hfrom hs₂)).2 ?_
    rw [hp₂.copy.annotationOf (by decide)]
    exact (hm₂.marked cur₂ hcur₂).resolve_right List.not_mem_nil

end aim

/-! ## A token after a failure, and one before there is a VM -/

instance (m : VirtualMachine) : Decidable m.AtRest := inferInstanceAs (Decidable (_ ∧ _ ∧ _))

/-- `UntilSet`, checked. -/
def untilSet (k : NamespacedName) (c : ClusterCfg) (act : ClusterAction) (c' : ClusterCfg) :
    Bool :=
  c'.world.token k.nspace = c.world.token k.nspace &&
  match act with
  | .call _ (.listConfigs _) (.ok configs) =>
    (selectConfig configs).all (·.spec.retryToken = c.world.token k.nspace)
  | _ => true

theorem untilSet_sound {k : NamespacedName} {c c' : ClusterCfg} {act : ClusterAction}
    (h : untilSet k c act c' = true) : UntilSet k c act c' := by
  obtain ⟨hsame, hread⟩ := (Bool.and_eq_true _ _).mp h
  refine ⟨of_decide_eq_true hsame, ?_⟩
  rintro o a rfl
  cases o with
  | listConfigs nspace =>
    cases a with
    | error e => exact trivial
    | ok configs =>
      intro cfg hsel
      have hall : (selectConfig configs).all (·.spec.retryToken = c.world.token k.nspace) = true :=
        hread
      rw [hsel] at hall
      exact of_decide_eq_true hall
  | _ => exact trivial

namespace Sample

/-- The config with a bulk retry token. -/
def retrying : SaltKeyConfig :=
  let cfg := config "a" keyAcceptanceDiscovery
  { cfg with spec := { cfg.spec with retryToken := "T1" } }

/-- The same RaaS under the token. -/
def told (s : Script runtime) : Script runtime := { s with configs := [retrying] }

/-- The VM's worker is about to restart its first chain for the token, and for nothing
else. -/
def restarts (c : ClusterCfg) : Bool :=
  (c.world.vms key).vm?.any (fun _ => true) && (c.pendingPatch key).any fun p =>
    p.2.key = key && p.1.chainFailed && p.2.annotationOf annotationSaltStatus = "" &&
    ((History.passInputs (c.hist key)).any fun i => bulkChanged p.1 i.2) &&
    p.1.annotationOf annotationRolesHash = "" && !retryRequested p.1

/-- What `restarts` has checked. -/
theorem exists_step_restarts {c : ClusterCfg} (h : restarts c = true) : ∃ c' base obj vm',
    (cluster runtime noDefault notOwn False).Step c (.call key (.patchVM base obj) (.ok vm')) c' ∧
    TokenRestart (c.hist key) base obj ∧ base.annotationOf annotationRolesHash = "" ∧
    retryRequested base = false := by
  obtain ⟨hvm, hpatch⟩ := (Bool.and_eq_true _ _).mp h
  obtain ⟨cur, hcur, -⟩ := Slot.vm?_any hvm
  obtain ⟨base, obj, next, hth, hcheck⟩ := ClusterCfg.pendingPatch_any hpatch
  simp only [Bool.and_eq_true, decide_eq_true_eq, Bool.not_eq_true'] at hcheck
  obtain ⟨⟨⟨⟨⟨hkey, hf⟩, hst⟩, hbulk⟩, hhash⟩, hretry⟩ := hcheck
  obtain ⟨⟨vm, cfg⟩, hi, hbulk⟩ := (Option.any_eq_true _ _).mp hbulk
  obtain ⟨c', hs⟩ := exists_step_patch hth hkey hcur
  exact ⟨c', base, obj, _, hs, ⟨hf, hst, vm, cfg, hi, hbulk⟩, hhash, hretry⟩

/-- The VM's worker is idle and its chain at rest, and the token is set. -/
def atRest (c : ClusterCfg) : Bool :=
  (c.threads key).isNone && c.world.token key.nspace = "T1" &&
    (c.world.vms key).vm?.any fun vm => decide vm.AtRest

/-- The namespace has one config, and no VM. -/
def configured (cfg : SaltKeyConfig) : ClusterCfg :=
  { ClusterCfg.start time secrets with
    world := { (ClusterCfg.start time secrets).world with configs := [cfg] } }

end Sample

/-- The first chain of a VM fails; then the token is set, and the next pass restarts the
chain. -/
theorem bulk_retry_aimed_failed : ∃ c₁ c c' vm₁ base obj vm',
    (cluster Sample.runtime Sample.noDefault notOwn False).Reach c₁ ∧
    c₁.threads Sample.key = none ∧ c₁.world.vms Sample.key = .live vm₁ ∧ vm₁.AtRest ∧
    c₁.world.token Sample.key.nspace = "T1" ∧
    (cluster Sample.runtime Sample.noDefault notOwn False).StepsIf (UntilSet Sample.key) c₁ c ∧
    (cluster Sample.runtime Sample.noDefault notOwn False).Step c
      (.call Sample.key (.patchVM base obj) (.ok vm')) c' ∧
    TokenRestart (c.hist Sample.key) base obj ∧ vm₁.chainFailed = true ∧
    ∀ c₂ c₃ base₂ obj₂ vm₂,
      (cluster Sample.runtime Sample.noDefault notOwn False).StepsIf (UntilSet Sample.key) c' c₂ →
      (cluster Sample.runtime Sample.noDefault notOwn False).Step c₂
        (.call Sample.key (.patchVM base₂ obj₂) (.ok vm₂)) c₃ →
      ¬ TokenRestart (c₂.hist Sample.key) base₂ obj₂ := by
  have hrun : (runActs Sample.noDefault notOwn False (fun _ _ _ => true)
      (Sample.failing Sample.noPing (Sample.time + 11 * Go.minute) 11 ++
        [.configs [Sample.retrying]]) (.start Sample.time Sample.secrets)).any (fun c₁ =>
      Sample.atRest c₁ && (runActs Sample.noDefault notOwn False (untilSet Sample.key)
        (work Sample.key (Sample.told Sample.noPing) 7) c₁).any Sample.restarts) = true := by
    decide +kernel
  obtain ⟨c₁, h₁, hcheck⟩ := exists_reach_of_run hrun
  obtain ⟨hrest, hnext⟩ := (Bool.and_eq_true _ _).mp hcheck
  obtain ⟨c, hacts, hpending⟩ := (Option.any_eq_true _ _).mp hnext
  obtain ⟨c', base, obj, vm', hs, hr, -⟩ := Sample.exists_step_restarts hpending
  unfold Sample.atRest at hrest
  simp only [Bool.and_eq_true, decide_eq_true_eq] at hrest
  obtain ⟨⟨hidle, htoken⟩, hvm⟩ := hrest
  obtain ⟨vm₁, hvm₁, hat⟩ := Slot.vm?_any hvm
  have hat := of_decide_eq_true hat
  have hidle := Option.isNone_iff_eq_none.mp hidle
  have hsteps : (cluster Sample.runtime Sample.noDefault notOwn False).StepsIf
      (UntilSet Sample.key) c₁ c :=
    closed_of_runActs (fun _ _ _ hs hok hrun => hrun.step hs (untilSet_sound hok)) hacts .refl
  obtain ⟨hf, honce⟩ := bulk_retry_aimed _ _ _ h₁ hidle hvm₁ hat hsteps hs hr
  exact ⟨c₁, c, c', vm₁, base, obj, vm', h₁, hidle, hvm₁, hat, htoken, hsteps, hs, hr, hf, honce⟩

/-- **A token restarts a VM that did not exist when it was set**, in a run in which every
write succeeds: the VM is created later and its first ping fails, and the token, which it
does not record, is the only reason to start again. -/
theorem bulk_retry_of_new_vm : ∃ c₀ c₁ c c' base obj vm',
    (cluster Sample.runtime Sample.noDefault notOwn False).Reach c₀ ∧
    (cluster Sample.runtime Sample.noDefault notOwn False).Step c₀ .env c₁ ∧
    c₀.world.token Sample.key.nspace = "" ∧ c₁.world.token Sample.key.nspace = "T1" ∧
    c₁.world.vms Sample.key = .unused ∧
    (cluster Sample.runtime Sample.noDefault notOwn False).StepsIf
      (fun c act c' => UntilSet Sample.key c act c' ∧ WritesSucceed c act c') c₁ c ∧
    (cluster Sample.runtime Sample.noDefault notOwn False).Step c
      (.call Sample.key (.patchVM base obj) (.ok vm')) c' ∧
    TokenRestart (c.hist Sample.key) base obj ∧ base.annotationOf annotationRolesHash = "" ∧
    retryRequested base = false := by
  have hrun : (runActs Sample.noDefault notOwn False
      (fun c act c' => untilSet Sample.key c act c' && writeSucceeds act)
      ([.create (Sample.vm "a" "u1")] ++ work Sample.key (Sample.told Sample.discovery) 40 ++
        [.clock (Sample.time + 11 * Go.minute)] ++
        work Sample.key (Sample.told Sample.noPing) 18)
      (Sample.configured Sample.retrying)).any Sample.restarts = true := by
    decide +kernel
  obtain ⟨c, hacts, hpending⟩ := (Option.any_eq_true _ _).mp hrun
  obtain ⟨c', base, obj, vm', hs, hr, hhash, hretry⟩ := Sample.exists_step_restarts hpending
  refine ⟨Sample.configured (Sample.config "a" keyAcceptanceDiscovery),
    Sample.configured Sample.retrying, c, c', base, obj, vm', ?_, ?_, by decide +kernel,
    by decide +kernel, rfl, ?_, hs, hr, hhash, hretry⟩
  · have hstart : (cluster Sample.runtime Sample.noDefault notOwn False).Reach
        (ClusterCfg.start Sample.time Sample.secrets) :=
      .init ⟨rfl, fun _ => rfl, fun _ => rfl, fun _ => rfl⟩
    exact hstart.next (.env (.configs _))
  · exact .env (.configs [Sample.retrying])
  · refine closed_of_runActs (fun _ _ _ hs hok hrun => ?_) hacts .refl
    obtain ⟨huntil, hok⟩ := (Bool.and_eq_true _ _).mp hok
    exact hrun.step hs ⟨untilSet_sound huntil, writeSucceeds_sound hok⟩

end SaltOperator
