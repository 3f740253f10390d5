import SaltOperator.Cluster.AloneChain
import SaltOperator.Cluster.KeyState
import SaltOperator.Cluster.Run

/-!
# Leaving a failure

A chain that failed stays where it is until something asks for another run: a
change of the intent, a retry request or a bulk retry. A change of the intent is
found by comparing the recorded hash with that of the annotations, and a VM whose
first chain fails before its highstate has no recorded hash.

**The next pass over a VM whose chain failed starts the chain again exactly when
RaaS can be reached and there is a cause: a recorded hash that is not that of the
intent, an unhandled retry request or an unhandled bulk token**
(`failure_restarted_iff`). A change of the intent alone does not get a VM out of a
failure before its first highstate (`failure_not_restarted`).
-/

namespace SaltOperator

section readied

variable {rt : Runtime} {vm m n : VirtualMachine} {cfg : SaltKeyConfig}

theorem Readied.tenantEq (hm : Readied vm m) : TenantEq m vm := by
  have hown : annotationKeyCleared ∈ ownAnnotations := by decide
  refine fun a ha => hm.annotations a ?_
  rintro rfl
  exact ha hown

theorem Readied.intentChanged (hm : Readied vm m) : intentChanged rt m = intentChanged rt vm := by
  unfold SaltOperator.intentChanged
  rw [hm.tenantEq.computeIntentHash, hm.annotationOf (by decide)]

theorem Readied.retryRequested (hm : Readied vm m) : retryRequested m = retryRequested vm := by
  unfold SaltOperator.retryRequested
  rw [hm.annotationOf (by decide), hm.annotationOf (by decide)]

theorem Readied.bulkChanged (hm : Readied vm m) : bulkChanged m cfg = bulkChanged vm cfg := by
  unfold SaltOperator.bulkChanged
  rw [hm.annotationOf (by decide)]

theorem Readied.chainFailed (hm : Readied vm m) : m.chainFailed = vm.chainFailed := by
  unfold VirtualMachine.chainFailed
  rw [hm.annotationOf (by decide)]

theorem Readied.cause (hm : Readied vm m) : Cause rt m cfg ↔ Cause rt vm cfg := by
  unfold Cause
  rw [hm.annotationOf (by decide), hm.intentChanged, hm.retryRequested, hm.bulkChanged,
    hm.chainFailed]

end readied

section failed

variable {rt : Runtime} {d : Default} {crash : Prop} {ok : AnswerCondition} {c : ClusterCfg}
  {k : NamespacedName} {vm m : VirtualMachine} {cfg : SaltKeyConfig} {conn : Connection}
  {minionID : String} {now : Time} {h' : History}
  {additions : List (String × String)} {res : Result}

/-- A failed chain does not stand at any other place. -/
theorem saltStatus_of_failed (hf : vm.chainFailed = true) {s : String}
    (hs : Go.hasPrefix s failedStatusPrefix = false) :
    vm.annotationOf annotationSaltStatus ≠ s := by
  rintro rfl
  unfold VirtualMachine.chainFailed at hf
  rw [hs] at hf
  cases hf

/-- Today's hashes are not adopted. -/
theorem not_adopts (hv : vm.annotationOf annotationRolesHash = "" ∨
    Go.hasPrefix (vm.annotationOf annotationRolesHash) intentHashVersion = true) :
    adopts rt vm = false := by
  unfold adopts
  rcases hv with hv | hv
  · simp [hv]
  · simp [hv]

theorem cause_iff_triggered (hhash : m.annotationOf annotationRolesHash ≠ "") :
    Cause rt m cfg ↔ triggered rt m cfg = true := by
  simp [Cause, triggered, hhash, or_assoc]

/-- What a pass does about a failed chain. -/
theorem Reconverges.restarts_iff (hf : m.chainFailed = true) (ha : adopts rt m = false)
    (hr : Reconverges rt ok m conn cfg minionID now h' additions res) (version : Nat) :
    (m.written additions version).annotationOf annotationSaltStatus = "" ↔ Cause rt m cfg := by
  have hready := saltStatus_of_failed hf (s := saltStatusReady) (by decide)
  have hempty := saltStatus_of_failed hf (s := "") (by decide)
  rw [VirtualMachine.annotationOf_written]
  cases hr with
  | idle _ hno => rw [hf] at hno; cases hno
  | unasked hhash _ hretry hbulk =>
    refine iff_of_false hempty ?_
    simp [Cause, hhash, hretry, hbulk]
  | restarted hhash _ hask =>
    rw [lookup_append_handled _ (by decide) (by decide)]
    refine iff_of_true rfl ?_
    rcases hask with hretry | hbulk
    · exact .inr (.inl hretry)
    · exact .inr (.inr ⟨hbulk, hf⟩)
  | adopted hyes => rw [ha] at hyes; cases hyes
  | settled hhash _ hno _ =>
    rw [cause_iff_triggered hhash, hno]
    refine iff_of_false ?_ (by simp)
    have hnone : (noting m cfg).reverse.lookup annotationSaltStatus = none := by
      unfold noting
      split <;> rfl
    rw [hnone]
    exact hempty
  | waits _ _ _ _ hst => exact absurd hst hready
  | enforced _ _ _ _ _ hst => exact absurd hst hready
  | reset hhash _ hyes _ =>
    rw [lookup_append_handled _ (by decide) (by decide), cause_iff_triggered hhash, hyes]
    exact iff_of_true rfl rfl
  | day2 _ _ _ _ _ hno => rw [hf] at hno; cases hno

/-- A pass over a VM that is being deleted starts no chain. -/
theorem not_restarted_of_deleting {w w' : World} {h h' : History} {r : Except String Result}
    (hfresh : Fresh ok) (hvm : w.vms k = .live vm) (hdel : vm.deleting = true)
    (hempty : vm.annotationOf annotationSaltStatus ≠ "")
    (hr : (reconcile rt d k).Runs (Served rt ok) w h r w' h') :
    ¬ ∃ vm', w'.vms k = .live vm' ∧ vm'.annotationOf annotationSaltStatus = "" := by
  rintro ⟨vm', hvm', hst⟩
  rcases runs_reconcile hfresh hvm hr with ⟨e, -, -, rfl⟩ | ⟨-, -, rfl⟩ | ⟨cfg, h₁, hg, hr⟩
  · obtain rfl := Slot.live.inj (hvm.symm.trans hvm')
    exact hempty hst
  · obtain rfl := Slot.live.inj (hvm.symm.trans hvm')
    exact hempty hst
  · rw [if_pos hdel] at hr
    rw [VirtualMachine.annotationOf_eq_getD,
      (runs_reconcileDelete_going hvm hr).annotations vm' hvm' _ (by decide),
      ← VirtualMachine.annotationOf_eq_getD] at hst
    exact hempty hst

/-- **In every reachable state, the next pass over a VM whose chain failed starts it
again exactly when the VM is not being deleted, there is a cause and RaaS can be
reached**, whatever RaaS answers and whatever the intent was when the failure was
recorded. -/
theorem failure_restarted_iff (rt : Runtime) (d : Default) (crash : Prop) {c : ClusterCfg}
    {k : NamespacedName} {vm : VirtualMachine} {cfg : SaltKeyConfig} {r : Except String Result}
    {w' : World} {h' : History} (h : (cluster rt d notOwn crash).Reach c)
    (hg : Governed c.world k vm cfg) (hsel : matchesVMSelector rt cfg vm = true)
    (hf : vm.chainFailed = true)
    (hr : (reconcile rt d k).Runs (Served rt KubernetesSucceeds) c.world (c.hist k) r w' h') :
    (∃ vm', w'.vms k = .live vm' ∧ vm'.annotationOf annotationSaltStatus = "") ↔
      vm.deleting = false ∧ c.world.Connects rt d cfg ∧ Cause rt vm cfg := by
  have hclean : Clean KubernetesSucceeds := fun _ _ _ hok => hok.2
  have hempty := saltStatus_of_failed hf (s := "") (by decide)
  cases hdel : vm.deleting with
  | true =>
    refine iff_of_false
      (not_restarted_of_deleting (fun _ _ _ hok => hok.1) hg.live hdel hempty hr) ?_
    exact fun hyes => Bool.noConfusion hyes.1
  | false =>
  rw [and_iff_right rfl]
  have hkey : vm.key = k := ((contract rt d crash).keeps h).1.key k vm hg.live
  have hacc := accepted_of_chain h hg.live hdel hempty
  rcases runs_accepted (fun _ _ _ hok => hok.1) hg hkey hdel hsel hacc hr with
    ⟨e, rfl, hfail⟩ | ⟨m, conn, additions, res, version, cache, secrets, hm, hconn, hstep, rfl, rfl⟩
  · obtain ⟨hno, m, cache, secrets, hm, rfl⟩ := hfail hclean
    refine iff_of_false ?_ fun hyes => hno hyes.1
    rintro ⟨vm', hvm', hst⟩
    obtain rfl : m = vm' := Slot.live.inj ((World.setVM_self ..).symm.trans hvm')
    rw [hm.annotationOf (by decide)] at hst
    exact hempty hst
  · have hfm : m.chainFailed = true := hm.chainFailed.trans hf
    have hstatus : ∀ s, Go.hasPrefix s failedStatusPrefix = false →
        m.annotationOf annotationSaltStatus ≠ s := fun s hs => saltStatus_of_failed hfm hs
    have hadopts : adopts rt m = false := by
      refine not_adopts ?_
      rw [hm.annotationOf (by decide)]
      exact rolesHash_version h hg.live
    have hid : m.annotationOf annotationMinionID ≠ "" := by
      rw [hm.annotationOf (by decide)]
      exact (lifecycle_consistent h hg.live).minion (.inl hempty)
    rw [← hm.cause, and_iff_right (hconn hclean)]
    have hlive : ∀ {Q : VirtualMachine → Prop}, (∃ vm', Function.update c.world.vms k
        (.live (m.written additions version)) k = .live vm' ∧ Q vm') ↔
          Q (m.written additions version) := by
      intro Q
      simp
    refine hlive.trans ?_
    cases hstep with
    | noMinion hno => exact absurd hno hid
    | connecting hst => exact absurd hst (hstatus _ (by decide))
    | pinged hst => exact absurd hst (hstatus _ (by decide))
    | pingFailed _ _ hst => exact absurd hst (hstatus _ (by decide))
    | refreshed hst => exact absurd hst (hstatus _ (by decide))
    | refreshFailed _ _ hst => exact absurd hst (hstatus _ (by decide))
    | dispatched _ hst => exact absurd hst (hstatus _ (by decide))
    | dispatchFailed _ _ hst => exact absurd hst (hstatus _ (by decide))
    | polled _ _ _ hst => exact absurd hst (hstatus _ (by decide))
    | unfinished hst => exact absurd hst (hstatus _ (by decide))
    | atRest _ _ _ _ hrest => exact hrest.restarts_iff hfm hadopts version

end failed

/-! ## A failed highstate and a failed ping -/

namespace Sample

/-- A RaaS where everything succeeds but the pings. -/
def noPing : Script runtime where
  configs := [config "a" keyAcceptanceDiscovery]
  salt
    | .testPing _ => .ok false
    | c => raas ["web"] c
  returns c := by
    cases c with
    | testPing id => trivial
    | _ => exact raas_returns ["web"] _

/-- A RaaS where everything succeeds but the highstates. -/
def noHighstate : Script runtime where
  configs := [config "a" keyAcceptanceDiscovery]
  salt
    | .pollJID minionID jid => pollJID minionID jid (response (.obj
        [(minionID, .obj [("success", .bool false), ("retcode", .num 2)])]))
    | c => raas ["web"] c
  returns c := by
    cases c with
    | pollJID id jid => exact ⟨_, rfl⟩
    | _ => exact raas_returns ["web"] _

/-- The chain of a new VM fails; then a tenant changes its roles. -/
def failing (s : Script runtime) (time : Time) (n : Nat) : List (Act runtime) :=
  [.configs [config "a" keyAcceptanceDiscovery], .create (vm "a" "u1")] ++
    work key discovery 40 ++ [.clock time] ++ work key s n ++
    [.annotate key annotationRoles "web"]

/-- The chain of the VM failed when it had another intent, and its worker is idle. -/
def failedBefore (c : ClusterCfg) : Bool :=
  (c.threads key).isNone && (c.world.vms key).vm?.any fun vm => vm.chainFailed && !vm.deleting &&
    vm.annotationOf annotationManaged = annotationTrue &&
    ((History.lastVM (c.hist key)).any fun m => m.chainFailed &&
      computeIntentHash runtime m.annotations ≠ computeIntentHash runtime vm.annotations) &&
    (c.world.config? key.nspace).any fun cfg => matchesVMSelector runtime cfg vm

/-- What `failedBefore` has checked. -/
theorem failedBefore_spec {c : ClusterCfg} (h : failedBefore c = true) : ∃ vm cfg m,
    c.threads key = none ∧ Governed c.world key vm cfg ∧ vm.deleting = false ∧
    matchesVMSelector runtime cfg vm = true ∧ vm.chainFailed = true ∧
    History.lastVM (c.hist key) = some m ∧ m.chainFailed = true ∧
    intentSet m.annotations ≠ intentSet vm.annotations := by
  unfold failedBefore at h
  obtain ⟨hidle, h⟩ := (Bool.and_eq_true _ _).mp h
  obtain ⟨vm, hvm, h⟩ := Slot.vm?_any h
  simp only [Bool.and_eq_true, Bool.not_eq_true', decide_eq_true_eq] at h
  obtain ⟨⟨⟨⟨hf, hdel⟩, hman⟩, hm⟩, hcfg⟩ := h
  obtain ⟨m, hlast, hm⟩ := (Option.any_eq_true _ _).mp hm
  obtain ⟨cfg, hcfg, hsel⟩ := (Option.any_eq_true _ _).mp hcfg
  simp only [Bool.and_eq_true, decide_eq_true_eq] at hm
  refine ⟨vm, cfg, m, Option.isNone_iff_eq_none.mp hidle, ⟨hvm, hman, hcfg⟩, hdel, hsel, hf, hlast,
    hm.1, fun heq => hm.2 ?_⟩
  unfold computeIntentHash intentText
  rw [heq]

end Sample

/-- A highstate fails, then a tenant changes the roles: the next pass starts the chain
again. -/
theorem failure_restarted_highstate : ∃ c vm cfg r w' h',
    (cluster Sample.runtime Sample.noDefault notOwn False).ReachIf WritesSucceed c ∧
    Governed c.world Sample.key vm cfg ∧ vm.chainFailed = true ∧
    (reconcile Sample.runtime Sample.noDefault Sample.key).Runs
      (Served Sample.runtime KubernetesSucceeds) c.world (c.hist Sample.key) r w' h' ∧
    ∃ vm', w'.vms Sample.key = .live vm' ∧ vm'.annotationOf annotationSaltStatus = "" := by
  obtain ⟨c, r, w', h', hc, hr, hcheck, -⟩ := Sample.exists_pass False
    (Sample.failing Sample.noHighstate (Sample.time + 60 * Go.second) 48)
    (s := Sample.discovery) (Sample.raas_succeeds _)
    (fun c => Sample.failedBefore c && (c.world.vms Sample.key).vm?.any fun vm =>
      vm.annotationOf annotationRolesHash ≠ "" && intentChanged Sample.runtime vm &&
      (c.world.config? Sample.key.nspace).any fun cfg =>
        decide (c.world.Connects Sample.runtime Sample.noDefault cfg))
    (fun _ => true) (by decide +kernel)
  obtain ⟨hfailed, hcheck⟩ := (Bool.and_eq_true _ _).mp hcheck
  obtain ⟨vm, cfg, m, -, hg, hdel, hsel, hf, -⟩ := Sample.failedBefore_spec hfailed
  rw [hg.live, hg.config] at hcheck
  simp only [Slot.vm?, Option.any_some, Bool.and_eq_true, decide_eq_true_eq] at hcheck
  have hr' : (reconcile Sample.runtime Sample.noDefault Sample.key).Runs
      (Served Sample.runtime KubernetesSucceeds) c.world (c.hist Sample.key) r w' h' :=
    hr.mono (Served.mono fun _ _ _ hok => ⟨hok.1, hok.2.1⟩)
  refine ⟨c, vm, cfg, r, w', h', hc, hg, hf, hr', ?_⟩
  exact (failure_restarted_iff _ _ _ hc.reach hg hsel hf hr').mpr
    ⟨hdel, hcheck.2, .inl hcheck.1⟩

/-- The first chain of a VM fails at the ping, then a tenant changes the roles: a pass in
which every call succeeds leaves the failure. -/
theorem failure_not_restarted : ∃ c vm cfg m r w' h',
    (cluster Sample.runtime Sample.noDefault notOwn False).ReachIf WritesSucceed c ∧
    c.threads Sample.key = none ∧ Governed c.world Sample.key vm cfg ∧ vm.deleting = false ∧
    matchesVMSelector Sample.runtime cfg vm = true ∧ vm.chainFailed = true ∧
    History.lastVM (c.hist Sample.key) = some m ∧ m.chainFailed = true ∧
    intentSet m.annotations ≠ intentSet vm.annotations ∧
    (reconcile Sample.runtime Sample.noDefault Sample.key).Runs
      (Served Sample.runtime AllSucceed) c.world (c.hist Sample.key) r w' h' ∧
    ∃ vm', w'.vms Sample.key = .live vm' ∧ vm'.chainFailed = true := by
  obtain ⟨c, r, w', h', hc, hr, hbefore, hafter⟩ := Sample.exists_pass False
    (Sample.failing Sample.noPing (Sample.time + 11 * Go.minute) 11)
    (s := Sample.discovery) (Sample.raas_succeeds _) Sample.failedBefore
    (fun out => (out.2.vms Sample.key).vm?.any fun vm => vm.chainFailed) (by decide +kernel)
  obtain ⟨vm, cfg, m, hidle, hg, hdel, hsel, hf, hlast, hm, hne⟩ := Sample.failedBefore_spec hbefore
  exact ⟨c, vm, cfg, m, r, w', h', hc, hidle, hg, hdel, hsel, hf, hlast, hm, hne, hr,
    Slot.vm?_any hafter⟩

end SaltOperator
