import SaltOperator.Cluster.Run
import SaltOperator.Cluster.Walk

/-!
# What tenants wrote stays

The operator patches a VM from a copy that may be out of date by then. What it
sends is the difference between its copy and the copy with its additions, so that
a key it does not add is not mentioned. Here tenants may edit any annotation at
any time, those of the operator included, and nothing is assumed of the answers.

The walk over the reconciler (`reconcile_touches`) says that each of its patches
changes annotations of the operator's own only. **Every patch of the operator
leaves everybody else's annotations at the value, or absence, they have on the API
server when it arrives, and with them the hash of the intent**
(`patch_keeps_tenant`).
-/

namespace SaltOperator

/-- The operation is no patch of a VM, or one of the operator's annotations or
finalizers only. -/
def Op.Touching : Op → Prop
  | .patchVM base obj => Touches base obj
  | _ => True

section touches

variable {rt : Runtime} {d : Default} {vm : VirtualMachine} {cfg : SaltKeyConfig} {ε α : Type}

theorem Prog.Quiet.touches {p : Prog Op Op.Ans ε α} (hp : p.Quiet) : p.Performs Op.Touching := by
  refine hp.performs.mono fun o ho => ?_
  cases o <;> first | exact trivial | cases ho

theorem Op.OfCreate.touching {serves : Connection → Prop} {o : Op} (ho : o.OfCreate serves) :
    o.Touching := by
  cases o <;> first | exact trivial | exact ho.1

theorem Op.OfDelete.touching {serves : Connection → Prop} {o : Op} (ho : o.OfDelete serves) :
    o.Touching := by
  cases o <;> first | exact trivial | exact ho

/-- Whatever it is answered, the reconciler patches nothing of a VM but annotations of
its own and its finalizer. -/
theorem reconcile_touches (k : NamespacedName) (h : History) :
    (reconcile rt d k).Obeys (fun _ _ => True) (fun _ => Op.Touching) (fun _ _ => True) h := by
  have client {cfg : SaltKeyConfig} {h : History} :
      (saltClientFromConfig rt d cfg).Obeys (fun _ _ => True) (fun _ => Op.Touching)
        (fun _ _ => True) h :=
    saltClientFromConfig_quiet.touches.obeys (I := fun _ => True)
      (fun _ _ _ ho => ⟨ho, fun _ _ => trivial⟩) trivial
  refine reconcile_obeys (fun _ => trivial) (fun _ => trivial)
    (fun _ _ _ => trivial) (fun vm cfg h' _ _ => ?_) (fun vm cfg h' _ _ => ?_)
  · exact reconcileDelete_obeys (fun _ => True) (fun _ _ ho => ho.touching)
      (client.mono fun _ _ _ _ _ => trivial)
  · have rule : CreateRule rt d cfg (fun _ => True) (fun _ _ => True) (fun _ => Op.Touching)
        (fun _ => True) :=
      ⟨fun h o _ ho => ⟨ho.touching, fun _ _ => trivial⟩,
        fun h _ => client.mono fun _ _ _ => ⟨trivial, fun _ _ => trivial⟩⟩
    exact rule.reconcileCreate trivial

end touches

/-! ## Patches in the cluster -/

/-- What is not the operator's to write is in `after` as in `before`. -/
structure TenantKept (rt : Runtime) (before after : VirtualMachine) : Prop where
  annotations : ∀ a, ¬ (a ∈ nonIntentAnnotations ∧ a ≠ annotationRetryRequest) →
    after.annotations[a]? = before.annotations[a]?
  retryRequest : after.annotations[annotationRetryRequest]? =
    before.annotations[annotationRetryRequest]?
  intentHash : computeIntentHash rt after.annotations = computeIntentHash rt before.annotations

theorem TenantEq.kept {rt : Runtime} {m n : VirtualMachine} (h : TenantEq m n) :
    TenantKept rt m n where
  annotations a ha := by
    have hown : ∀ b ∈ ownAnnotations, b ∈ nonIntentAnnotations ∧ b ≠ annotationRetryRequest := by
      decide
    exact (h a fun hmem => ha (hown a hmem)).symm
  retryRequest := (h annotationRetryRequest (by decide)).symm
  intentHash := h.computeIntentHash.symm

/-- Tenants may edit the annotations in `may` at any time, and the operator may stop at
any point. When a patch of the operator arrives, its answer and every VM there is
afterwards have what tenants had on the API server right before. -/
theorem patch_keeps_tenant (rt : Runtime) (d : Default) (may : String → Prop) (crash : Prop)
    {c c' : ClusterCfg} {k : NamespacedName} {base obj : VirtualMachine}
    {answer : Except ApiErr VirtualMachine} (h : (cluster rt d may crash).Reach c)
    (hs : (cluster rt d may crash).Step c (.call k (.patchVM base obj) answer) c') :
    (∀ vm, answer = .ok vm → ∃ cur, c.world.vms obj.key = .live cur ∧ TenantKept rt cur vm) ∧
      ∀ k' vm, c'.world.vms k' = .live vm → ∃ cur, c.world.vms k' = .live cur ∧
        TenantKept rt cur vm := by
  have htouch : Touches base obj :=
    (cluster rt d may crash).performs (Φ := fun _ => Op.Touching) reconcile_touches h hs
  cases hs with
  | @call w' _ _ next _ hth hx =>
    obtain ⟨hans, rfl⟩ := hx
    have same (vm : VirtualMachine) : TenantKept rt vm vm := TenantEq.kept fun _ _ => rfl
    cases answer with
    | error e => exact ⟨nofun, fun k' vm hvm => ⟨vm, hvm, same vm⟩⟩
    | ok new =>
      obtain ⟨cur, version, hcur, -, rfl⟩ := hans
      have hkept : TenantKept rt cur (.patched version base obj cur) := (patched_tenant htouch).kept
      refine ⟨fun vm hvm => ⟨cur, hcur, Except.ok.inj hvm ▸ hkept⟩, fun k' vm hvm => ?_⟩
      rcases eq_or_ne k' obj.key with rfl | hne
      · have hvm' : settled (.patched version base obj cur) = .live vm :=
          (World.setVM_self ..).symm.trans hvm
        rw [settled_eq_live hvm']
        exact ⟨cur, hcur, hkept⟩
      · have hvm' : c.world.vms k' = .live vm := (Function.update_of_ne hne _ _).symm.trans hvm
        exact ⟨vm, hvm', same vm⟩

/-- A tenant sets the roles and asks for a retry while a pass is about to record that
the key was accepted: both are there afterwards. -/
theorem patch_keeps_roles : ∃ c c' base obj new vm,
    (cluster Sample.runtime Sample.noDefault notOwn True).Reach c ∧
    (cluster Sample.runtime Sample.noDefault notOwn True).Step c
      (.call Sample.key (.patchVM base obj) (.ok new)) c' ∧
    base.annotations[annotationRoles]? = none ∧ c'.world.vms Sample.key = .live vm ∧
    vm.annotations[annotationRoles]? = some "web" ∧
    vm.annotations[annotationRetryRequest]? = some "1" := by
  have hrun : (Sample.play ([.create (Sample.vm "a" "u1")] ++
      work Sample.key Sample.discovery 13 ++
      [.annotate Sample.key annotationRoles "web",
       .annotate Sample.key annotationRetryRequest "1"])).any (fun c =>
        (c.pendingPatch Sample.key).any (fun p => p.2.key = Sample.key &&
          p.1.annotations[annotationRoles]? = none) &&
        (c.world.vms Sample.key).vm?.any fun vm => !vm.deleting &&
          vm.annotations[annotationRoles]? = some "web" &&
          vm.annotations[annotationRetryRequest]? = some "1") = true := by
    decide +kernel
  obtain ⟨c, hc, hcheck⟩ := Sample.exists_reach hrun
  rw [Bool.and_eq_true] at hcheck
  obtain ⟨base, obj, next, hth, hpatch⟩ := ClusterCfg.pendingPatch_any hcheck.1
  obtain ⟨cur, hcur, hwritten⟩ := Slot.vm?_any hcheck.2
  simp only [Bool.and_eq_true, decide_eq_true_eq, Bool.not_eq_true'] at hpatch hwritten
  obtain ⟨hkey, hroles⟩ := hpatch
  obtain ⟨⟨hdel, hweb⟩, hretry⟩ := hwritten
  obtain ⟨c', hs⟩ : ∃ c', (cluster Sample.runtime Sample.noDefault notOwn True).Step c _ c' :=
    exists_step_patch hth hkey hcur
  have hafter : c'.world.vms Sample.key =
      .live (.patched (cur.resourceVersion + 1) base obj cur) := by
    cases hs with
    | call _ hth' hx =>
      rw [hx.2, ← hkey]
      exact (World.setVM_self ..).trans (settled_present hdel)
  obtain ⟨cur', hcur', hkept⟩ := (patch_keeps_tenant _ _ _ _ hc hs).2 _ _ hafter
  obtain rfl : cur = cur' := Slot.live.inj (hcur.symm.trans hcur')
  refine ⟨c, c', base, obj, _, _, hc, hs, hroles, hafter, ?_, ?_⟩
  · exact (hkept.annotations annotationRoles (by decide)).trans hweb
  · exact hkept.retryRequest.trans hretry

end SaltOperator
