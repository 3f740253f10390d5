import SaltOperator.Cluster.Lifecycle
import SaltOperator.Cluster.Run

/-!
# The cleanup finalizer

A VM with the operator's finalizer cannot go away before the operator has let it
go, and the operator does so only for a VM that records a minion ID. Two things
can go wrong with it.

- The finalizer may be there before the minion ID is. Discovery records the ID
  first; `runPreseedKey` adds the finalizer first, and **that patch is the only
  step of any run after which a VM has the finalizer and no minion ID**
  (`finalizer_minionID_iff`).
- The finalizers travel as a whole list. **A finalizer patch does what it says
  exactly when nobody else changed the list since the worker read it**
  (`finalizerPatch_exact_iff`).
-/

namespace SaltOperator

/-! ## What the patches do to the finalizers -/

/-- An annotation patch leaves the finalizers to the others. -/
theorem finalizers_patched_of_eq {version : Nat} {base obj cur : VirtualMachine}
    (h : obj.finalizers = base.finalizers) :
    (VirtualMachine.patched version base obj cur).finalizers = cur.finalizers := by
  show mergeWhole base.finalizers obj.finalizers cur.finalizers = _
  rw [h, mergeWhole_same]

/-- A finalizer patch puts the worker's list in place of the others'. -/
theorem finalizers_patched_of_ne {version : Nat} {base obj cur : VirtualMachine}
    (h : obj.finalizers ≠ base.finalizers) :
    (VirtualMachine.patched version base obj cur).finalizers = obj.finalizers :=
  mergeWhole_ne (fun he => h he.symm) _

theorem addFinalizer_finalizers {vm : VirtualMachine} {f : String}
    (h : vm.containsFinalizer f = false) :
    (vm.addFinalizer f).finalizers = vm.finalizers ++ [f] := by
  unfold VirtualMachine.addFinalizer
  rw [h]
  rfl

/-- What a permitted patch sends as finalizers: the worker's own list, that list
with the operator's finalizer, or without it. -/
theorem Permitted.finalizers {rt : Runtime} {crash : Prop} {k : NamespacedName} {h : History}
    {base obj : VirtualMachine} (hp : Permitted rt crash k h (.patchVM base obj)) :
    obj.finalizers = base.finalizers ∨
    (FinalizerWrite h base obj ∧ saltFinalizer ∉ base.finalizers ∧
      obj.finalizers = base.finalizers ++ [saltFinalizer]) ∨
    (FinalizerWrite h base obj ∧ saltFinalizer ∈ base.finalizers ∧
      obj.finalizers = base.finalizers.filter (· ≠ saltFinalizer)) := by
  obtain ⟨-, ⟨additions, rfl, -⟩ | hf⟩ := hp
  · exact .inl rfl
  · have absent : base.containsFinalizer saltFinalizer = false → saltFinalizer ∉ base.finalizers :=
      fun hno hmem => by rw [containsFinalizer_iff.mpr hmem] at hno; cases hno
    refine .inr ?_
    have hf' := hf
    cases hf with
    | accepted hno _ => exact .inl ⟨hf', absent hno, addFinalizer_finalizers hno⟩
    | preseed hno _ => exact .inl ⟨hf', absent hno, addFinalizer_finalizers hno⟩
    | removed hyes => exact .inr ⟨hf', containsFinalizer_iff.mp hyes, rfl⟩

/-! ## The finalizer and the minion ID -/

/-- The finalizer patch of `runPreseedKey` succeeds on a VM that records no
minion ID: the key of the worker's object is not accepted, and the finalizer is
new. -/
def preseedFinalizer : ClusterAction → Bool
  | .call _ (.patchVM base obj) (.ok _) =>
    !base.containsFinalizer saltFinalizer && obj.containsFinalizer saltFinalizer &&
      base.annotationOf annotationKeyStatus ≠ keyStatusAccepted &&
      base.annotationOf annotationMinionID = ""
  | _ => false

/-- Every VM with the finalizer records a minion ID. -/
def MinionIDRecorded (c : ClusterCfg) : Prop :=
  ∀ k vm, c.world.vms k = .live vm → saltFinalizer ∈ vm.finalizers →
    vm.annotationOf annotationMinionID ≠ ""

section minionID

variable {rt : Runtime} {d : Default} {crash : Prop}

/-- Every other step keeps it that way. -/
theorem minionID_invariant : VMInvariant rt d crash (fun _ act _ => preseedFinalizer act = false)
    (fun _ _ _ vm => saltFinalizer ∈ vm.finalizers → vm.annotationOf annotationMinionID ≠ "") := by
  constructor
  case fresh => exact fun h vm hf _ hmem => absurd hmem hf.finalizer
  case edit =>
    intro c c' k before after _ _ _ he _ _ _ hq hmem
    have hown : OwnEq after before := fun a ha => he.annotations a fun hno => hno ha
    rw [hown.annotationOf (by decide)]
    exact hq (he.finalizer hmem)
  case call => exact fun _ _ _ _ _ _ _ hq => hq
  case patch =>
    intro c c' k base obj cur version hr hs hcur _ hp hbase hnew hallow hq hmem
    rw [hnew.annotationOf (by decide)]
    have hkept : base.annotationOf annotationMinionID ≠ "" →
        obj.annotationOf annotationMinionID ≠ "" := fun h =>
      (hp.lifecycle (hs.base_named hp hcur)).minionID_ne_empty h
    rcases hp.finalizers with heq | ⟨hf, hno, hadd⟩ | ⟨-, hyes, hremove⟩
    · -- an annotation patch: the VM had the finalizer before, and keeps its minion ID
      rw [finalizers_patched_of_eq heq] at hmem
      have hid : base.annotationOf annotationMinionID = cur.annotationOf annotationMinionID :=
        hbase.annotationOf (by decide)
      exact hkept (hid ▸ hq hmem)
    · -- the finalizer is added: to an accepted VM, or by a preseed pass that is not allowed
      by_cases hid : base.annotationOf annotationMinionID = ""
      · exfalso
        have hcons := lifecycle_consistent hr hcur
        rw [← hbase.lifecycle] at hcons
        have hacc : base.annotationOf annotationKeyStatus ≠ keyStatusAccepted :=
          fun hk => hcons.minion (.inr (.inl hk)) hid
        have hobj : obj.containsFinalizer saltFinalizer = true :=
          containsFinalizer_iff.mpr (by rw [hadd]; simp)
        have hbno : base.containsFinalizer saltFinalizer = false := by
          rw [← Bool.not_eq_true, containsFinalizer_iff]
          exact hno
        simp [preseedFinalizer, hbno, hobj, hacc, hid] at hallow
      · exact hkept hid
    · have hgone : saltFinalizer ∉ obj.finalizers := by
        rw [hremove]
        simp
      rw [finalizers_patched_of_ne fun he => hgone (he.symm ▸ hyes)] at hmem
      exact absurd hmem hgone

/-- The patch of `runPreseedKey` leaves a VM with the finalizer and no minion
ID. -/
theorem preseedFinalizer_breaks {c c' : ClusterCfg} {act : ClusterAction}
    (h : (cluster rt d notOwn crash).Reach c) (hs : (cluster rt d notOwn crash).Step c act c')
    (ha : preseedFinalizer act = true) : ¬ MinionIDRecorded c' := by
  have hs' := hs
  cases hs with
  | @call w' k o next a hth hx =>
    -- only a successful patch is meant
    cases o with
    | patchVM base obj =>
      cases a with
      | error e => cases ha
      | ok vm =>
        obtain ⟨cur, -, hp, hset⟩ := patch_step h hs'
        obtain ⟨version, rfl⟩ := hp.patched
        simp only [preseedFinalizer, Bool.and_eq_true, Bool.not_eq_true', decide_eq_true_eq] at ha
        obtain ⟨⟨⟨hno, hyes⟩, -⟩, hid⟩ := ha
        rw [← Bool.not_eq_true, containsFinalizer_iff] at hno
        rw [containsFinalizer_iff] at hyes
        have hfin : (VirtualMachine.patched version base obj cur).finalizers = obj.finalizers :=
          finalizers_patched_of_ne fun he => hno (he ▸ hyes)
        have hobj : obj.annotationOf annotationMinionID = "" := by
          obtain ⟨-, ⟨additions, rfl, -⟩ | hf⟩ := hp.permitted
          · exact absurd hyes hno
          · rw [hf.ownEq.annotationOf (by decide), hid]
        intro hrec
        refine hrec k (.patched version base obj cur) ?_ (by rw [hfin]; exact hyes) ?_
        · refine hset.trans ?_
          unfold settled
          rw [if_neg]
          rintro ⟨-, hnil⟩
          rw [hfin] at hnil
          rw [hnil] at hyes
          cases hyes
        · rw [hp.written.annotationOf (by decide), hobj]
    | _ => cases ha
  | _ => cases ha

/-- Such a patch is made in a pass whose config has keys generated. -/
theorem preseedFinalizer_preseeds {c c' : ClusterCfg} {act : ClusterAction}
    (h : (cluster rt d notOwn crash).Reach c) (hs : (cluster rt d notOwn crash).Step c act c')
    (ha : preseedFinalizer act = true) : ∃ k o a cfg, act = .call k o a ∧
      History.Creates (c.hist k) cfg ∧ cfg.spec.keyAcceptance = keyAcceptancePreseed := by
  cases hs with
  | @call w' k o next a hth hx =>
    cases o with
    | patchVM base obj =>
      cases a with
      | error e => cases ha
      | ok vm =>
        simp only [preseedFinalizer, Bool.and_eq_true, Bool.not_eq_true', decide_eq_true_eq] at ha
        obtain ⟨⟨⟨hno, hyes⟩, hacc⟩, -⟩ := ha
        obtain ⟨-, ⟨additions, rfl, -⟩ | hf, -⟩ := (contract rt d crash).permitted h hth
        · -- annotations alone add no finalizer
          have hyes : base.containsFinalizer saltFinalizer = true := hyes
          rw [hno] at hyes
          cases hyes
        · cases hf with
          | accepted _ hst => exact absurd hst hacc
          | preseed _ hp =>
            obtain ⟨cfg, hcfg, hmode⟩ := hp.mode
            exact ⟨k, _, _, cfg, rfl, hcfg, hmode⟩
          | removed hin =>
            rw [hno] at hin
            cases hin
    | _ => cases ha
  | _ => cases ha

end minionID

/-- As long as no finalizer patch of `runPreseedKey` succeeds on a VM without
minion ID, every VM with the finalizer records one, and a step keeps it that way
exactly if it is not such a patch; whatever fails, and wherever the operator
stops. Such a patch is made only in a pass whose config is in preseed mode. -/
theorem finalizer_minionID_iff (rt : Runtime) (d : Default) {c : ClusterCfg}
    (h : (cluster rt d notOwn True).ReachIf (fun _ act _ => preseedFinalizer act = false) c) :
    MinionIDRecorded c ∧ ∀ act c', (cluster rt d notOwn True).Step c act c' →
      (MinionIDRecorded c' ↔ preseedFinalizer act = false) ∧
      (preseedFinalizer act = true → ∃ k o a cfg, act = .call k o a ∧
        History.Creates (c.hist k) cfg ∧ cfg.spec.keyAcceptance = keyAcceptancePreseed) := by
  refine ⟨fun k vm hvm => minionID_invariant.holds h hvm, fun act c' hs =>
    ⟨⟨fun hrec => ?_, ?_⟩, ?_⟩⟩
  · by_contra ha
    rw [Bool.not_eq_false] at ha
    exact preseedFinalizer_breaks h.reach hs ha hrec
  · intro ha k vm hvm
    exact minionID_invariant.holds (h.step hs ha) hvm
  · exact preseedFinalizer_preseeds h.reach hs

/-- A VM accepted by discovery gets the finalizer in such a run. -/
theorem finalizer_minionID_bootstrap : ∃ c vm,
    (cluster Sample.runtime Sample.noDefault notOwn True).ReachIf
      (fun _ act _ => preseedFinalizer act = false) c ∧
    c.world.vms Sample.key = .live vm ∧ saltFinalizer ∈ vm.finalizers ∧
    vm.annotationOf annotationMinionID ≠ "" := by
  have hrun : (runActs Sample.noDefault notOwn True (fun _ act _ => !preseedFinalizer act)
      Sample.bootstrap
      (.start Sample.time Sample.secrets)).any (fun c => (c.world.vms Sample.key).vm?.any
        fun vm => vm.containsFinalizer saltFinalizer) = true := by
    decide +kernel
  obtain ⟨c, hc, hcheck⟩ := exists_reachIf_of_run (fun _ _ _ _ h => by simpa using h) hrun
  obtain ⟨vm, hvm, hfin⟩ := Slot.vm?_any hcheck
  have hmem := containsFinalizer_iff.mp hfin
  exact ⟨c, vm, hc, hvm, hmem, (finalizer_minionID_iff _ _ hc).1 _ vm hvm hmem⟩

/-- A preseed pass that is cut off after its finalizer patch, and before the
annotation patch that follows. -/
theorem finalizer_without_minionID : ∃ c vm,
    (cluster Sample.runtime Sample.noDefault notOwn True).Reach c ∧
    c.world.vms Sample.key = .live vm ∧ saltFinalizer ∈ vm.finalizers ∧
    vm.annotationOf annotationMinionID = "" := by
  have hrun : (Sample.play ([.create (Sample.vm "a" "u1")] ++
      work Sample.key (Sample.preseed "a") 15 ++ [.stop Sample.key])).any
      (fun c => (c.world.vms Sample.key).vm?.any fun vm => vm.containsFinalizer saltFinalizer &&
        vm.annotationOf annotationMinionID = "") = true := by
    decide +kernel
  obtain ⟨c, hc, hcheck⟩ := Sample.exists_reach hrun
  obtain ⟨vm, hvm, hfin⟩ := Slot.vm?_any hcheck
  rw [Bool.and_eq_true, containsFinalizer_iff, decide_eq_true_eq] at hfin
  exact ⟨c, vm, hc, hvm, hfin.1, hfin.2⟩

/-! ## The finalizers of the others -/

/-- Whether the finalizers `after` are those of `cur` with the operator's added,
or removed, as the patch to `obj` meant it. -/
def ExactFinalizers (obj cur : VirtualMachine) (after : List String) : Prop :=
  (saltFinalizer ∈ obj.finalizers → ∀ f, f ∈ after ↔ f = saltFinalizer ∨ f ∈ cur.finalizers) ∧
  (saltFinalizer ∉ obj.finalizers → ∀ f, f ∈ after ↔ f ≠ saltFinalizer ∧ f ∈ cur.finalizers)

theorem exactFinalizers_add {base obj cur : VirtualMachine}
    (hadd : obj.finalizers = base.finalizers ++ [saltFinalizer]) :
    ExactFinalizers obj cur obj.finalizers ↔
      ∀ f, f ≠ saltFinalizer → (f ∈ base.finalizers ↔ f ∈ cur.finalizers) := by
  have hmem : ∀ f, f ∈ obj.finalizers ↔ f ∈ base.finalizers ∨ f = saltFinalizer := fun f => by
    rw [hadd, List.mem_append, List.mem_singleton]
  constructor
  · rintro ⟨hexact, -⟩ f hf
    have hf' := (hmem f).symm.trans (hexact ((hmem _).mpr (.inr rfl)) f)
    simpa [hf] using hf'
  · intro hagree
    refine ⟨fun _ f => ?_, fun hno => absurd ((hmem _).mpr (.inr rfl)) hno⟩
    rw [hmem f]
    by_cases hf : f = saltFinalizer
    · simp [hf]
    · simp [hf, hagree f hf]

theorem exactFinalizers_remove {base obj cur : VirtualMachine}
    (hremove : obj.finalizers = base.finalizers.filter (· ≠ saltFinalizer)) :
    ExactFinalizers obj cur obj.finalizers ↔
      ∀ f, f ≠ saltFinalizer → (f ∈ base.finalizers ↔ f ∈ cur.finalizers) := by
  have hmem : ∀ f, f ∈ obj.finalizers ↔ f ∈ base.finalizers ∧ f ≠ saltFinalizer := fun f => by
    rw [hremove, List.mem_filter, decide_eq_true_eq]
  have hgone : saltFinalizer ∉ obj.finalizers := fun h => ((hmem _).mp h).2 rfl
  constructor
  · rintro ⟨-, hexact⟩ f hf
    have hf' := (hmem f).symm.trans (hexact hgone f)
    simpa [hf] using hf'
  · intro hagree
    refine ⟨fun hyes => absurd hyes hgone, fun _ f => ?_⟩
    rw [hmem f]
    by_cases hf : f = saltFinalizer
    · simp [hf]
    · simp [hf, hagree f hf]

/-- In every run, a finalizer patch of the operator that changes `base` to `obj`
while the API server has `cur` makes the finalizers exactly what it should if and
only if `base` and `cur` agree on the finalizers of the others. -/
theorem finalizerPatch_exact_iff (rt : Runtime) (d : Default) (crash : Prop) {c c' : ClusterCfg}
    {k : NamespacedName} {base obj vm cur : VirtualMachine}
    (h : (cluster rt d notOwn crash).Reach c)
    (hs : (cluster rt d notOwn crash).Step c (.call k (.patchVM base obj) (.ok vm)) c')
    (hcur : c.world.vms k = .live cur) (hfin : obj.finalizers ≠ base.finalizers) :
    c'.world.vms k = settled vm ∧
    (ExactFinalizers obj cur vm.finalizers ↔
      ∀ f, f ≠ saltFinalizer → (f ∈ base.finalizers ↔ f ∈ cur.finalizers)) := by
  obtain ⟨cur', hcur', hp, hset⟩ := patch_step h hs
  obtain rfl : cur = cur' := Slot.live.inj (hcur.symm.trans hcur')
  obtain ⟨version, rfl⟩ := hp.patched
  refine ⟨hset, ?_⟩
  rw [finalizers_patched_of_ne hfin]
  rcases hp.permitted.finalizers with heq | ⟨-, -, hadd⟩ | ⟨-, -, hremove⟩
  · exact absurd heq hfin
  · exact exactFinalizers_add hadd
  · exact exactFinalizers_remove hremove

/-- VM Operator's finalizer, in these runs. -/
def vmOperatorFinalizer : String := "vmoperator.vmware.com/virtualmachine"

/-- The finalizer of the other controller is there when the worker reads the VM:
the finalizers are exactly as they should be. -/
theorem finalizerPatch_exact : ∃ c c' base obj vm cur,
    (cluster Sample.runtime Sample.noDefault notOwn True).Reach c ∧
    (cluster Sample.runtime Sample.noDefault notOwn True).Step c
      (.call Sample.key (.patchVM base obj) (.ok vm)) c' ∧
    c.world.vms Sample.key = .live cur ∧ obj.finalizers ≠ base.finalizers ∧
    cur.finalizers = [vmOperatorFinalizer] ∧ ExactFinalizers obj cur vm.finalizers := by
  have hrun : (Sample.play ([.create (Sample.vm "a" "u1"),
      .setFinalizers Sample.key [vmOperatorFinalizer]] ++
      work Sample.key Sample.discovery 14)).any (fun c =>
        (c.pendingPatch Sample.key).any (fun p => p.2.key = Sample.key &&
          p.1.finalizers = [vmOperatorFinalizer] && p.2.finalizers ≠ p.1.finalizers) &&
        (c.world.vms Sample.key).vm?.any fun vm => vm.finalizers = [vmOperatorFinalizer])
      = true := by
    decide +kernel
  obtain ⟨c, hc, hcheck⟩ := Sample.exists_reach hrun
  rw [Bool.and_eq_true] at hcheck
  obtain ⟨base, obj, next, hth, hpatch⟩ := ClusterCfg.pendingPatch_any hcheck.1
  obtain ⟨cur, hcur, hfin⟩ := Slot.vm?_any hcheck.2
  simp only [Bool.and_eq_true, decide_eq_true_eq] at hpatch hfin
  obtain ⟨⟨hkey, hbase⟩, hne⟩ := hpatch
  obtain ⟨c', hs⟩ := exists_step_patch hth hkey hcur
  have hagree : ∀ f, f ≠ saltFinalizer → (f ∈ base.finalizers ↔ f ∈ cur.finalizers) :=
    fun f _ => by rw [hbase, hfin]
  have hexact := (finalizerPatch_exact_iff _ _ _ hc hs hcur hne).2.mpr hagree
  exact ⟨c, c', base, obj, _, cur, hc, hs, hcur, hne, hfin, hexact⟩

/-- The other controller adds its finalizer while a preseed pass waits for RaaS:
the patch drops it. -/
theorem finalizerPatch_drops : ∃ c c' base obj vm cur,
    (cluster Sample.runtime Sample.noDefault notOwn True).Reach c ∧
    (cluster Sample.runtime Sample.noDefault notOwn True).Step c
      (.call Sample.key (.patchVM base obj) (.ok vm)) c' ∧
    c.world.vms Sample.key = .live cur ∧ obj.finalizers ≠ base.finalizers ∧
    cur.finalizers = [vmOperatorFinalizer] ∧ vm.finalizers = [saltFinalizer] ∧
    ¬ ExactFinalizers obj cur vm.finalizers := by
  have hrun : (Sample.play ([.create (Sample.vm "a" "u1")] ++
      work Sample.key (Sample.preseed "a") 11 ++
      [.setFinalizers Sample.key [vmOperatorFinalizer]] ++
      work Sample.key (Sample.preseed "a") 3)).any (fun c =>
        (c.pendingPatch Sample.key).any (fun p => p.2.key = Sample.key &&
          p.1.finalizers = [] && p.2.finalizers = [saltFinalizer]) &&
        (c.world.vms Sample.key).vm?.any fun vm => vm.finalizers = [vmOperatorFinalizer])
      = true := by
    decide +kernel
  obtain ⟨c, hc, hcheck⟩ := Sample.exists_reach hrun
  rw [Bool.and_eq_true] at hcheck
  obtain ⟨base, obj, next, hth, hpatch⟩ := ClusterCfg.pendingPatch_any hcheck.1
  obtain ⟨cur, hcur, hfin⟩ := Slot.vm?_any hcheck.2
  simp only [Bool.and_eq_true, decide_eq_true_eq] at hpatch hfin
  obtain ⟨⟨hkey, hbase⟩, hobj⟩ := hpatch
  obtain ⟨c', hs⟩ := exists_step_patch hth hkey hcur
  have hne : obj.finalizers ≠ base.finalizers := by rw [hobj, hbase]; simp
  refine ⟨c, c', base, obj, _, cur, hc, hs, hcur, hne, hfin, ?_, ?_⟩
  · rw [finalizers_patched_of_ne hne, hobj]
  · rw [finalizers_patched_of_ne hne]
    rintro ⟨hexact, -⟩
    have hmem := (hexact (by rw [hobj]; simp) vmOperatorFinalizer).mpr (.inr (by rw [hfin]; simp))
    rw [hobj] at hmem
    exact absurd hmem (by decide)

end SaltOperator
