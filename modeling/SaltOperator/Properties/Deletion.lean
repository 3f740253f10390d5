import SaltOperator.Cluster.Run

/-!
# Letting a deleted VM go

A VM that is being deleted waits for the operator to take its finalizer away. The
branch of `Reconcile` that does comes after the same gates as the rest of a pass:
the VM has to be managed, and its namespace has to have a Ready config, when the
VM goes as when it came.

**A pass without failures over a VM that is being deleted takes the finalizer away
exactly when the VM is still managed, under a config, and its key is known to be
deleted or the config's RaaS can be reached** (`deletion_released_iff`). The
selector of the config does not matter. A VM that was taken out of management
first is stuck (`deletion_stuck_unmanaged`).

Deleting the key is best effort, and so is the note of its outcome: neither keeps
the VM. Getting a client is not. **Over a managed VM, a pass that can read the VM
and patch its finalizers takes the finalizer away exactly when the key is known to
be deleted, or a client is at hand, or the connection resolves and RaaS lets the
operator in** (`deletion_troubled_iff`); a RaaS that cannot be logged in to keeps
the VM (`deletion_stuck_login`).
-/

namespace SaltOperator

/-- In every reachable state, a pass by itself in which every call succeeds, over a
VM with the finalizer and a minion ID that is being deleted. -/
theorem deletion_released_iff (rt : Runtime) (d : Default) (crash : Prop) {c : ClusterCfg}
    {k : NamespacedName} {vm : VirtualMachine} {r : Except String Result}
    {w' : World} {h' : History}
    (h : (cluster rt d notOwn crash).Reach c) (hvm : c.world.vms k = .live vm)
    (hdel : vm.deleting = true) (hfin : saltFinalizer ∈ vm.finalizers)
    (hid : vm.annotationOf annotationMinionID ≠ "")
    (hr : (reconcile rt d k).Runs (Served rt AllSucceed) c.world (c.hist k) r w' h') :
    ¬ (w'.vms k).HasFinalizer ↔ ∃ cfg, Governed c.world k vm cfg ∧
      (vm.annotationOf annotationKeyStatus = keyStatusDeleted ∨ c.world.Connects rt d cfg) := by
  have hclean : Clean AllSucceed := fun _ _ _ hok => hok.2.1
  have hfresh : Fresh AllSucceed := fun _ _ _ hok => hok.1
  obtain rfl : vm.key = k := ((contract rt d crash).keeps h).1.key k vm hvm
  rcases runs_reconcile hfresh hvm hr with ⟨e, -, hbad, -⟩ | ⟨hno, -, rfl⟩ | ⟨cfg, h₁, hg, hr⟩
  · exact absurd hclean.reads hbad
  · refine iff_of_false (fun hgone => hgone ⟨vm, hvm, hfin⟩) ?_
    rintro ⟨cfg, hg, -⟩
    exact hno cfg hg
  · rw [if_pos hdel] at hr
    rw [runs_reconcileDelete hclean.releases hvm hfin hid (saltClientFromConfig_ok_iff hclean) hr]
    constructor
    · exact fun hcond => ⟨cfg, hg, hcond⟩
    · rintro ⟨cfg', hg', hcond⟩
      obtain rfl : cfg = cfg' := Option.some.inj (hg.config.symm.trans hg'.config)
      exact hcond

/-- From the creation of a VM to its highstate, then `edits`, then its deletion. -/
def Sample.deleted (edits : List (Act Sample.runtime)) : List (Act Sample.runtime) :=
  Sample.bootstrap ++ [.configs [Sample.config "a" keyAcceptanceDiscovery]] ++ edits ++
    [.delete Sample.key Sample.time]

/-- The VM has the finalizer and a minion ID, and is being deleted. -/
def Sample.awaitsRelease (vm : VirtualMachine) : Bool :=
  vm.deleting && saltFinalizer ∈ vm.finalizers && vm.annotationOf annotationMinionID ≠ ""

/-- A managed VM is let go. -/
theorem deletion_released_managed : ∃ c vm r w' h',
    (cluster Sample.runtime Sample.noDefault notOwn True).Reach c ∧
    c.world.vms Sample.key = .live vm ∧ saltFinalizer ∈ vm.finalizers ∧
    (reconcile Sample.runtime Sample.noDefault Sample.key).Runs
      (Served Sample.runtime AllSucceed) c.world (c.hist Sample.key) r w' h' ∧
    ¬ (w'.vms Sample.key).HasFinalizer := by
  obtain ⟨c, r, w', h', hc, hr, hcheck, -⟩ := Sample.exists_pass True (Sample.deleted [])
    (s := Sample.discovery) (Sample.raas_succeeds _)
    (fun c => (c.world.vms Sample.key).vm?.any fun vm => Sample.awaitsRelease vm &&
      vm.annotationOf annotationManaged = annotationTrue &&
      (c.world.config? "a").any fun cfg =>
        decide (c.world.Connects Sample.runtime Sample.noDefault cfg))
    (fun _ => true) (by decide +kernel)
  obtain ⟨vm, hvm, hcheck⟩ := Slot.vm?_any hcheck
  simp only [Sample.awaitsRelease, Bool.and_eq_true, decide_eq_true_eq] at hcheck
  obtain ⟨⟨⟨⟨hdel, hfin⟩, hid⟩, hman⟩, hcfg⟩ := hcheck
  obtain ⟨cfg, hcfg, hconn⟩ := (Option.any_eq_true _ _).mp hcfg
  refine ⟨c, vm, r, w', h', hc.reach, hvm, hfin, hr, ?_⟩
  refine (deletion_released_iff _ _ _ hc.reach hvm hdel hfin hid hr).mpr ?_
  exact ⟨cfg, ⟨hvm, hman, hcfg⟩, .inr (of_decide_eq_true hconn)⟩

/-- A VM that was taken out of management before its deletion is stuck: a pass in
which every call succeeds leaves the finalizer. -/
theorem deletion_stuck_unmanaged : ∃ c vm r w' h',
    (cluster Sample.runtime Sample.noDefault notOwn True).Reach c ∧
    c.world.vms Sample.key = .live vm ∧ vm.deleting = true ∧ saltFinalizer ∈ vm.finalizers ∧
    vm.annotationOf annotationMinionID ≠ "" ∧
    vm.annotationOf annotationManaged = annotationFalse ∧
    (reconcile Sample.runtime Sample.noDefault Sample.key).Runs
      (Served Sample.runtime AllSucceed) c.world (c.hist Sample.key) r w' h' ∧
    (w'.vms Sample.key).HasFinalizer := by
  obtain ⟨c, r, w', h', hc, hr, hbefore, hafter⟩ := Sample.exists_pass True
    (Sample.deleted [.annotate Sample.key annotationManaged annotationFalse])
    (s := Sample.discovery) (Sample.raas_succeeds _)
    (fun c => (c.world.vms Sample.key).vm?.any fun vm =>
      Sample.awaitsRelease vm && vm.annotationOf annotationManaged = annotationFalse)
    (fun out => (out.2.vms Sample.key).vm?.any fun vm => saltFinalizer ∈ vm.finalizers)
    (by decide +kernel)
  obtain ⟨vm, hvm, hbefore⟩ := Slot.vm?_any hbefore
  obtain ⟨vm', hvm', hafter⟩ := Slot.vm?_any hafter
  simp only [Sample.awaitsRelease, Bool.and_eq_true, decide_eq_true_eq] at hbefore hafter
  obtain ⟨⟨⟨hdel, hfin⟩, hid⟩, hman⟩ := hbefore
  exact ⟨c, vm, r, w', h', hc.reach, hvm, hdel, hfin, hid, hman, hr, vm', hvm', hafter⟩

/-! ## Trouble with RaaS -/

/-- What a pass meets on the way to RaaS: what reading a Secret gives, and how a login
ends. -/
structure Trouble where
  secret : NamespacedName → Except ApiErr StringMap
  login : Except String Unit

/-- Reads of Secrets are answered, and nothing else. -/
def Trouble.reads (t : Trouble) : (o : Op) → o.Ans
  | .getSecret key => t.secret key
  | o => o.refuse

/-- The VM and the configs are read as they are and finalizers can be patched. Secrets
and logins go as `t` says; `DeleteKey` may do anything, and annotations may fail to be
written. -/
def Trouble.Meets (t : Trouble) (w : World) : (o : Op) → o.Ans → Prop
  | .getVM key, .error _ => (w.vms key).vm? = none
  | .patchVM base obj, .error _ => obj.finalizers ≠ base.finalizers → (w.vms obj.key).vm? = none
  | .listConfigs _, .error _ => False
  | .listConfigs (some nspace), .ok configs => configs = w.configsIn nspace
  | .getSecret key, a => a = t.secret key
  | .salt _ .login, a => a = t.login
  | _, _ => True

/-- The operator gets to the RaaS of a config. -/
def Trouble.Passes (t : Trouble) (rt : Runtime) (d : Default) (w : World) (cfg : SaltKeyConfig) :
    Prop :=
  (w.cached ⟨cfg.nspace, cfg.name⟩ cfg.resourceVersion).isSome ∨
    (((resolve rt cfg d).eval t.reads).toOption.isSome ∧ t.login = .ok ())

theorem Trouble.releases (t : Trouble) : Releases t.Meets where
  vm _ _ _ hok := hok
  configs _ _ _ hok := hok
  patch _ _ _ _ hok := hok

theorem Trouble.fresh (t : Trouble) : Fresh t.Meets := by
  intro w o a hok
  unfold FreshConfigs
  split
  · exact hok
  · trivial

theorem Trouble.readSecret_determined (t : Trouble) {rt : Runtime} {w : World}
    (nspace name : String) :
    (readSecret nspace name).Determined (Served rt t.Meets) t.reads w := by
  intro h r w' h' hr
  obtain ⟨a, w₁, ⟨-, hok, hw₁⟩, hr⟩ := Prog.runs_perform_bind.mp hr
  have ha : t.reads (.getSecret ⟨nspace, name⟩) = a := Eq.symm hok
  show r = (readSecret nspace name).eval _ ∧ _
  cases a with
  | ok data =>
    obtain ⟨rfl, rfl, -⟩ := Prog.runs_ret.mp hr
    simp [readSecret, Prog.eval, ha, ← hw₁, effect]
  | error e =>
    -- every error ends the read, with a text of its own
    cases e
    all_goals
      obtain ⟨rfl, rfl, -⟩ := Prog.runs_fail.mp hr
      simp [readSecret, Prog.eval, ha, ← hw₁, effect]

/-- A pass by itself over a managed VM with the finalizer and a minion ID that is being
deleted, whatever happens on the way to RaaS and there. -/
theorem deletion_troubled_iff (rt : Runtime) (d : Default) (t : Trouble) {w w' : World}
    {h h' : History} {k : NamespacedName} {vm : VirtualMachine} {cfg : SaltKeyConfig}
    {r : Except String Result} (hg : Governed w k vm cfg) (hkey : vm.key = k)
    (hdel : vm.deleting = true) (hfin : saltFinalizer ∈ vm.finalizers)
    (hid : vm.annotationOf annotationMinionID ≠ "")
    (hr : (reconcile rt d k).Runs (Served rt t.Meets) w h r w' h') :
    ¬ (w'.vms k).HasFinalizer ↔
      vm.annotationOf annotationKeyStatus = keyStatusDeleted ∨ t.Passes rt d w cfg := by
  subst hkey
  rcases runs_reconcile t.fresh hg.live hr with ⟨e, -, hbad, -⟩ | ⟨hno, -, -⟩ | ⟨cfg', h₁, hg', hr⟩
  · exact absurd t.releases.toReads hbad
  · exact absurd hg (hno cfg)
  · obtain rfl : cfg = cfg' := Option.some.inj (hg.config.symm.trans hg'.config)
    rw [if_pos hdel] at hr
    refine runs_reconcileDelete t.releases hg.live hfin hid ?_ hr
    exact saltClientFromConfig_cases (fun _ => t.readSecret_determined) fun _ _ _ ha => ha

namespace Sample

/-- RaaS refuses logins, and deletions. -/
def outage : Script runtime where
  configs := [config "a" keyAcceptanceDiscovery]
  salt
    | .login => .error "401 Unauthorized"
    | .deleteKey minionID => SaltOperator.deleteKey minionID (.error "connection refused")
    | c => raas [] c
  returns c := by
    cases c with
    | login => trivial
    | deleteKey id => exact ⟨_, rfl⟩
    | _ => exact raas_returns [] _

/-- Secrets are read as they are in `w`, logins are refused. -/
def locked (w : World) : Trouble := ⟨fun key => readSlot (w.secrets key), .error "401 Unauthorized"⟩

/-- A cluster in which no Secret can be written, during the outage. -/
def lockedAnswer (w : World) : (o : Op) → o.Ans
  | .createSecret _ | .updateSecret _ | .patchSecret _ _ => .error (.other "forbidden")
  | o => serveFresh outage w o

theorem lockedAnswer_answers (w : World) (o : Op) : Answers runtime w o (lockedAnswer w o) := by
  cases o with
  | createSecret s => trivial
  | updateSecret s => trivial
  | patchSecret key data => trivial
  | listConfigs nspace =>
    cases nspace with
    | none => exact serve_answers outage w _
    | some nspace =>
      intro cfg hcfg
      simpa using (List.mem_filter.mp hcfg).2
  | _ => exact serve_answers outage w _

theorem lockedAnswer_meets {w₀ w : World} (hw : w.secrets = w₀.secrets) (o : Op) :
    (locked w₀).Meets w o (lockedAnswer w o) := by
  cases o with
  | getVM key =>
    show (locked w₀).Meets w (.getVM key) (w.vms key).read
    cases h : w.vms key with
    | live vm => trivial
    | unused => exact congrArg Slot.vm? h
    | removed => exact congrArg Slot.vm? h
  | patchVM base obj =>
    show (locked w₀).Meets w (.patchVM base obj) ((w.vms obj.key).patch base obj)
    cases h : w.vms obj.key with
    | live cur => trivial
    | unused => exact fun _ => congrArg Slot.vm? h
    | removed => exact fun _ => congrArg Slot.vm? h
  | listConfigs nspace =>
    cases nspace with
    | none => trivial
    | some nspace => rfl
  | getSecret key => exact congrArg (fun secrets => readSlot (secrets key)) hw
  | salt conn c =>
    cases c with
    | login => rfl
    | _ => trivial
  | _ => trivial

theorem lockedAnswer_secrets (w : World) (o : Op) :
    (effect w o (lockedAnswer w o)).secrets = w.secrets := by
  cases o with
  | createSecret s => rfl
  | updateSecret s => rfl
  | patchSecret key data => rfl
  | _ => exact funext fun key => effect_secrets (by simp [Op.secretOf])

/-- A pass over the VM during the outage. -/
def lockedPass (w : World) : Except String Result × World :=
  (reconcile runtime noDefault key).run
    (fun w o => (lockedAnswer w o, effect w o (lockedAnswer w o))) w

theorem runs_lockedPass (w : World) (h : History) :
    ∃ h', (reconcile runtime noDefault key).Runs (Served runtime (locked w).Meets) w h
      (lockedPass w).1 (lockedPass w).2 h' := by
  refine Prog.runs_run_of (I := fun v => v.secrets = w.secrets) (fun v o hv => ?_) _ w h rfl
  exact ⟨⟨lockedAnswer_answers v o, lockedAnswer_meets hv o, rfl⟩,
    (lockedAnswer_secrets v o).trans hv⟩

/-- A managed VM with the finalizer and a minion ID that is being deleted, its
namespace having a config. -/
def governedRelease (c : ClusterCfg) (check : SaltKeyConfig → Bool) : Bool :=
  (c.world.vms key).vm?.any fun vm => awaitsRelease vm && vm.key = key &&
    vm.annotationOf annotationManaged = annotationTrue && (c.world.config? "a").any check

theorem governedRelease_sound {c : ClusterCfg} {check : SaltKeyConfig → Bool}
    (h : governedRelease c check = true) : ∃ vm cfg, Governed c.world key vm cfg ∧ vm.key = key ∧
      vm.deleting = true ∧ saltFinalizer ∈ vm.finalizers ∧
      vm.annotationOf annotationMinionID ≠ "" ∧ check cfg = true := by
  obtain ⟨vm, hvm, h⟩ := Slot.vm?_any h
  simp only [awaitsRelease, Bool.and_eq_true, decide_eq_true_eq] at h
  obtain ⟨⟨⟨⟨⟨hdel, hfin⟩, hid⟩, hkey⟩, hman⟩, hcfg⟩ := h
  obtain ⟨cfg, hcfg, hcheck⟩ := (Option.any_eq_true _ _).mp hcfg
  exact ⟨vm, cfg, ⟨hvm, hman, hcfg⟩, hkey, hdel, hfin, hid, hcheck⟩

end Sample

/-- With a client at hand the VM is let go, though RaaS refuses to delete the key and
would refuse a login. -/
theorem deletion_troubled_cached : ∃ c vm cfg t r w' h',
    (cluster Sample.runtime Sample.noDefault notOwn True).Reach c ∧
    Governed c.world Sample.key vm cfg ∧ vm.deleting = true ∧ saltFinalizer ∈ vm.finalizers ∧
    t.login = .error "401 Unauthorized" ∧
    (reconcile Sample.runtime Sample.noDefault Sample.key).Runs
      (Served Sample.runtime (Trouble.Meets t)) c.world (c.hist Sample.key) r w' h' ∧
    ¬ (w'.vms Sample.key).HasFinalizer := by
  have hrun : (Sample.play (Sample.deleted [])).any (fun c => Sample.governedRelease c fun cfg =>
      (c.world.cached ⟨cfg.nspace, cfg.name⟩ cfg.resourceVersion).isSome) = true := by
    decide +kernel
  obtain ⟨c, hc, hcheck⟩ := Sample.exists_reach hrun
  obtain ⟨vm, cfg, hg, hkey, hdel, hfin, hid, hcached⟩ := Sample.governedRelease_sound hcheck
  obtain ⟨h', hr⟩ := Sample.runs_lockedPass c.world (c.hist Sample.key)
  refine ⟨c, vm, cfg, Sample.locked c.world, _, _, h', hc, hg, hdel, hfin, rfl, hr, ?_⟩
  exact (deletion_troubled_iff _ _ _ hg hkey hdel hfin hid hr).mpr (.inr (.inl hcached))

/-- RaaS refuses logins: a pass that can read the VM and patch its finalizers leaves the
finalizer, and does not fail. -/
theorem deletion_stuck_login : ∃ c vm cfg t r w' h',
    (cluster Sample.runtime Sample.noDefault notOwn True).Reach c ∧
    Governed c.world Sample.key vm cfg ∧ vm.deleting = true ∧ saltFinalizer ∈ vm.finalizers ∧
    vm.annotationOf annotationMinionID ≠ "" ∧ t.login = .error "401 Unauthorized" ∧
    (reconcile Sample.runtime Sample.noDefault Sample.key).Runs
      (Served Sample.runtime (Trouble.Meets t)) c.world (c.hist Sample.key) r w' h' ∧
    r = .ok {} ∧ (w'.vms Sample.key).HasFinalizer := by
  have hrun : (Sample.play (Sample.deleted [.clock (Sample.time + 3600 * Go.second)])).any
      (fun c => Sample.governedRelease c (fun _ => true) &&
        ((Sample.lockedPass c.world).1.toOption = some {} &&
          ((Sample.lockedPass c.world).2.vms Sample.key).vm?.any fun vm =>
            saltFinalizer ∈ vm.finalizers)) = true := by
    decide +kernel
  obtain ⟨c, hc, hcheck⟩ := Sample.exists_reach hrun
  obtain ⟨hbefore, hafter⟩ := (Bool.and_eq_true _ _).mp hcheck
  obtain ⟨hres, hafter⟩ := (Bool.and_eq_true _ _).mp hafter
  obtain ⟨vm, cfg, hg, hkey, hdel, hfin, hid, -⟩ := Sample.governedRelease_sound hbefore
  obtain ⟨vm', hvm', hfin'⟩ := Slot.vm?_any hafter
  obtain ⟨h', hr⟩ := Sample.runs_lockedPass c.world (c.hist Sample.key)
  refine ⟨c, vm, cfg, Sample.locked c.world, _, _, h', hc, hg, hdel, hfin, hid, rfl, hr, ?_, vm',
    hvm', of_decide_eq_true hfin'⟩
  cases hr : (Sample.lockedPass c.world).1 with
  | error e => simp [hr, Except.toOption] at hres
  | ok res =>
    rw [hr] at hres
    exact congrArg Except.ok (Option.some.inj (of_decide_eq_true hres))

end SaltOperator
