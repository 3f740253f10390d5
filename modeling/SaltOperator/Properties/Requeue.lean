import SaltOperator.Cluster.Lifecycle
import SaltOperator.Cluster.Run

/-!
# A chain under way is taken further

The operator's own patches wake nobody, so a pass that leaves a VM before the end
of its chain has to ask for the next one. Every exit of every step does, with the
config's `requeueInterval`, with the rest of a wait, or with the pause before a
retry. Only the first of these comes from a user: **a pass under a config whose
interval is positive asks for the next one** (`reconcile_requeues`).

`validate` does not ask for a positive interval, only for one that parses, and
with `0s` a VM is left alone for good (`reconcile_stalls`).
-/

namespace SaltOperator

instance (m : VirtualMachine) : Decidable m.NonTerminal := inferInstanceAs (Decidable (_ ∨ _))

/-- In every run, a pass over a VM that is not being deleted, under a config that
selects it and has a positive interval: when it ends without an error and the VM
is before the end of its chain by then, it has asked for the next one. -/
theorem reconcile_requeues (rt : Runtime) (d : Default) (crash : Prop) {c : ClusterCfg}
    {k : NamespacedName} {res : Result} {vm cur : VirtualMachine} {cfg : SaltKeyConfig}
    (h : (cluster rt d notOwn crash).Reach c) (hret : c.threads k = some (.ret res))
    (hin : History.passInputs (c.hist k) = some (vm, cfg)) (hdel : vm.deleting = false)
    (hsel : matchesVMSelector rt cfg vm = true) (hcur : c.world.vms k = .live cur)
    (hnt : cur.NonTerminal) (hpos : 0 < cfg.requeueAfter) : 0 < res.requeueAfter := by
  have hends := (contract rt d crash).obeys h hret
  obtain ⟨m, hm, hrequeues⟩ := hends.2 res rfl vm cfg hin hdel hsel
  -- the worker's object and the server's agree on where the VM stands
  have hown : OwnEq m cur := ((contract rt d crash).keeps h).1.copy k m cur hm hcur
  have hcons := lifecycle_consistent h hcur
  rw [← hown.lifecycle] at hcons
  have hkey : m.annotationOf annotationKeyStatus = cur.annotationOf annotationKeyStatus :=
    hown.annotationOf (by decide)
  have hstatus : m.annotationOf annotationSaltStatus = cur.annotationOf annotationSaltStatus :=
    hown.annotationOf (by decide)
  have hnt' : m.NonTerminal := by
    unfold VirtualMachine.NonTerminal at hnt ⊢
    rwa [hkey, hstatus]
  rcases hrequeues hnt' with ⟨hacc, hid⟩ | hres | hres
  · exact absurd hid (hcons.minion (.inr (.inl hacc)))
  · exact hres
  · rw [hres]
    exact hpos

/-- The config of the namespace with another interval. -/
def Sample.configEvery (requeueInterval : String) : SaltKeyConfig :=
  let cfg := Sample.config "a" keyAcceptanceDiscovery
  { cfg with spec := { cfg.spec with requeueInterval } }

/-- RaaS with the key of no VM, under that config. -/
def Sample.noKey (requeueInterval : String) : Script Sample.runtime :=
  Sample.noPending [Sample.configEvery requeueInterval]

/-- A pass that looked for the key of a new VM in vain. -/
def Sample.keyMissing (requeueInterval : String) : Option ClusterCfg :=
  Sample.play ([.create (Sample.vm "a" "u1")] ++ work Sample.key (Sample.noKey requeueInterval) 12)

/-- A VM whose key is not there yet is looked at again, after the 30 s of its
config. -/
theorem reconcile_requeues_keyMissing : ∃ c res vm cfg cur,
    (cluster Sample.runtime Sample.noDefault notOwn True).Reach c ∧
    c.threads Sample.key = some (.ret res) ∧
    History.passInputs (c.hist Sample.key) = some (vm, cfg) ∧ cfg.requeueAfter = 30 * Go.second ∧
    c.world.vms Sample.key = .live cur ∧ cur.NonTerminal ∧ 0 < res.requeueAfter := by
  have hrun : (Sample.keyMissing "30s").any (fun c =>
      (c.returned Sample.key).any (fun _ => true) &&
      (History.passInputs (c.hist Sample.key)).any (fun i => !i.1.deleting &&
        matchesVMSelector Sample.runtime i.2 i.1 && i.2.requeueAfter = 30 * Go.second) &&
      (c.world.vms Sample.key).vm?.any fun vm => vm.NonTerminal) = true := by
    decide +kernel
  obtain ⟨c, hc, hcheck⟩ := Sample.exists_reach hrun
  simp only [Bool.and_eq_true] at hcheck
  obtain ⟨res, hret, -⟩ := ClusterCfg.returned_any hcheck.1.1
  obtain ⟨⟨vm, cfg⟩, hin, hok⟩ := (Option.any_eq_true _ _).mp hcheck.1.2
  obtain ⟨cur, hcur, hnt⟩ := Slot.vm?_any hcheck.2
  simp only [Bool.and_eq_true, Bool.not_eq_true', decide_eq_true_eq] at hok hnt
  obtain ⟨⟨hdel, hsel⟩, hinterval⟩ := hok
  have hpos : 0 < cfg.requeueAfter := by rw [hinterval]; decide
  exact ⟨c, res, vm, cfg, cur, hc, hret, hin, hinterval, hcur, hnt,
    reconcile_requeues _ _ _ hc hret hin hdel hsel hcur hnt hpos⟩

/-- A config with the interval `0s` is marked Ready, and under it the same pass
ends without asking for another one. -/
theorem reconcile_stalls : ∃ c res vm cfg cur,
    (((validate Sample.runtime Sample.noDefault (Sample.configEvery "0s")).run
      (fun w o => (serve (Sample.noKey "0s") w o, w))
      (ClusterCfg.start Sample.time Sample.secrets).world).1.toOption.any
        fun condition => condition.status = .true) = true ∧
    (cluster Sample.runtime Sample.noDefault notOwn True).Reach c ∧
    c.threads Sample.key = some (.ret res) ∧
    History.passInputs (c.hist Sample.key) = some (vm, cfg) ∧ vm.deleting = false ∧
    cfg.spec = (Sample.configEvery "0s").spec ∧
    matchesVMSelector Sample.runtime cfg vm = true ∧ c.world.vms Sample.key = .live cur ∧
    cur.NonTerminal ∧ res.requeueAfter = 0 := by
  have hrun : (Sample.keyMissing "0s").any (fun c =>
      (c.returned Sample.key).any (fun res => res.requeueAfter = 0) &&
      (History.passInputs (c.hist Sample.key)).any (fun i => !i.1.deleting &&
        matchesVMSelector Sample.runtime i.2 i.1 && i.2.spec = (Sample.configEvery "0s").spec) &&
      (c.world.vms Sample.key).vm?.any fun vm => vm.NonTerminal) = true := by
    decide +kernel
  obtain ⟨c, hc, hcheck⟩ := Sample.exists_reach hrun
  simp only [Bool.and_eq_true] at hcheck
  obtain ⟨res, hret, hres⟩ := ClusterCfg.returned_any hcheck.1.1
  obtain ⟨⟨vm, cfg⟩, hin, hok⟩ := (Option.any_eq_true _ _).mp hcheck.1.2
  obtain ⟨cur, hcur, hnt⟩ := Slot.vm?_any hcheck.2
  simp only [Bool.and_eq_true, Bool.not_eq_true', decide_eq_true_eq] at hok hnt hres
  obtain ⟨⟨hdel, hsel⟩, hspec⟩ := hok
  exact ⟨c, res, vm, cfg, cur, by decide +kernel, hc, hret, hin, hdel, hspec, hsel, hcur, hnt, hres⟩

end SaltOperator
