import SaltOperator.Cluster.Lifecycle
import SaltOperator.Cluster.Run

/-!
# The status annotations never contradict each other

More than ten places of the operator write some of the annotations that report on
a VM, and any write may fail. **In every run, the annotations of every VM fit
together** (`statusAnnotations_consistent`): what they say is what the abstract
lifecycle of `Cluster/Lifecycle.lean` preserves, and every patch is one of its
steps.
-/

namespace SaltOperator

/-- In every reachable state, for every VM:

- `ready` is true exactly when `salt-status` is Ready;
- `highstate-status` is InProgress exactly when `salt-status` is
  HighstateDispatched;
- a highstate that was dispatched or has ended has a JID and a hash;
- a chain that has begun and an accepted key have a minion ID;
- a Ready VM's job was reported done, with success and retcode 0. -/
theorem statusAnnotations_consistent (rt : Runtime) (d : Default) (crash : Prop) {c : ClusterCfg}
    (h : (cluster rt d notOwn crash).Reach c) {k : NamespacedName} {vm : VirtualMachine}
    (hvm : c.world.vms k = .live vm) :
    (vm.annotationOf annotationReady = annotationTrue ↔
      vm.annotationOf annotationSaltStatus = saltStatusReady) ∧
    (vm.annotationOf annotationHighstateStatus = highstateInProgress ↔
      vm.annotationOf annotationSaltStatus = saltStatusHighstateDispatched) ∧
    (vm.annotationOf annotationSaltStatus ∈
        [saltStatusHighstateDispatched, saltStatusReady, saltStatusFailedHighstate] →
      vm.annotationOf annotationHighstateJID ≠ "" ∧ vm.annotationOf annotationRolesHash ≠ "") ∧
    (vm.annotationOf annotationSaltStatus ≠ "" ∨
        vm.annotationOf annotationKeyStatus = keyStatusAccepted →
      vm.annotationOf annotationMinionID ≠ "") ∧
    (vm.annotationOf annotationSaltStatus = saltStatusReady →
      History.ReportedOK (c.hist k) (vm.annotationOf annotationHighstateJID)) := by
  have hc := lifecycle_consistent h hvm
  refine ⟨hc.ready, hc.inProgress, hc.job, ?_, hc.done⟩
  rintro (hs | hk)
  · exact hc.minion (.inl hs)
  · exact hc.minion (.inr (.inl hk))

/-- A VM that is created, gets its key accepted and is taken through the chain
ends Ready, with all of the above. -/
theorem statusAnnotations_bootstrap : ∃ c vm,
    (cluster Sample.runtime Sample.noDefault notOwn True).Reach c ∧
    c.world.vms Sample.key = .live vm ∧ vm.annotationOf annotationSaltStatus = saltStatusReady ∧
    vm.annotationOf annotationReady = annotationTrue ∧
    (vm.annotationOf annotationHighstateJID ≠ "" ∧ vm.annotationOf annotationRolesHash ≠ "") ∧
    vm.annotationOf annotationMinionID ≠ "" ∧
    History.ReportedOK (c.hist Sample.key) (vm.annotationOf annotationHighstateJID) := by
  have hrun : (Sample.play Sample.bootstrap).any (fun c => (c.world.vms Sample.key).vm?.any
      fun vm => vm.annotationOf annotationSaltStatus = saltStatusReady) = true := by
    decide +kernel
  obtain ⟨c, hc, hcheck⟩ := Sample.exists_reach hrun
  obtain ⟨vm, hvm, hready⟩ := Slot.vm?_any hcheck
  have hs : vm.annotationOf annotationSaltStatus = saltStatusReady := by simpa using hready
  obtain ⟨h₁, -, h₃, h₄, h₅⟩ := statusAnnotations_consistent _ _ _ hc hvm
  exact ⟨c, vm, hc, hvm, hs, h₁.mpr hs, h₃ (by rw [hs]; decide), h₄ (.inl (by rw [hs]; decide)),
    h₅ hs⟩

end SaltOperator
