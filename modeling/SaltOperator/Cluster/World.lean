import SaltOperator.Lib.System
import SaltOperator.Controller.Reconcile

/-!
# The cluster the operator runs in

The API server's VMs, Secrets and configs, the keys RaaS knows of, the operator's
client cache and the clock; what tenants, the platform and other controllers may
do (`Tenant`), and how the operator's calls are answered (`Answers`, `effect`). The
worker for a VM is the thread with the VM's name: different VMs are reconciled
concurrently, each by at most one worker.

Reads of VMs and Secrets are answered by the API server; reads of
`SaltKeyConfig`s come from the informer cache, which may be behind, so that any
list of the namespace's configs is an answer. Any call may fail, and a write
that fails changes nothing. RaaS may answer whatever its client can return
(`SaltCall.Returns`), and its keys change with what it answers and by themselves.

One history variable: `versions` is what a VM looked like when it was created
and after each edit by somebody else than the operator, newest first.
-/

namespace SaltOperator

/-- What the API server has under a name. A name is not used again after its VM
is gone. -/
inductive Slot where
  | unused
  | live (vm : VirtualMachine)
  | removed

def Slot.vm? : Slot → Option VirtualMachine
  | .live vm => some vm
  | _ => none

/-- `saltCacheEntry`. -/
structure CacheEntry where
  conn : Connection
  configRV : String
  expiresAt : Time

/-- The keys one RaaS knows of. -/
structure Keys where
  /-- Minions that wait for acceptance, with their public keys. -/
  pending : List (String × String) := []
  /-- The accepted public key of a minion. -/
  accepted : String → Option String := fun _ => none

namespace Keys

/-- A pending key becomes the accepted one. -/
def accept (ks : Keys) (minionID : String) : Keys :=
  match ks.pending.lookup minionID with
  | none => ks
  | some pub =>
    { pending := ks.pending.filter (·.1 ≠ minionID)
      accepted := Function.update ks.accepted minionID (some pub) }

/-- A generated key replaces whatever was there. -/
def generate (ks : Keys) (minionID pub : String) : Keys :=
  { pending := ks.pending.filter (·.1 ≠ minionID)
    accepted := Function.update ks.accepted minionID (some pub) }

/-- A deleted key is unknown. -/
def delete (ks : Keys) (minionID : String) : Keys :=
  { pending := ks.pending.filter (·.1 ≠ minionID)
    accepted := Function.update ks.accepted minionID none }

end Keys

structure World where
  now : Time
  /-- The names VMs were created under, newest first. -/
  names : List NamespacedName
  vms : NamespacedName → Slot
  versions : NamespacedName → List VirtualMachine
  secrets : NamespacedName → Option Secret
  cache : NamespacedName → Option CacheEntry
  configs : List SaltKeyConfig := []
  /-- The keys of the RaaS at a URL. -/
  raas : String → Keys := fun _ => {}

namespace World

/-- The configs of a namespace. -/
def configsIn (w : World) (nspace : String) : List SaltKeyConfig :=
  w.configs.filter (·.nspace = nspace)

/-- The config the operator works under in a namespace. -/
def config? (w : World) (nspace : String) : Option SaltKeyConfig :=
  selectConfig (w.configsIn nspace)

/-- The bulk retry token of a namespace. -/
def token (w : World) (nspace : String) : String :=
  match w.config? nspace with
  | some cfg => cfg.spec.retryToken
  | none => ""

def setKeys (w : World) (url : String) (keys : Keys) : World :=
  { w with raas := Function.update w.raas url keys }

/-- The VMs a list returns, of one namespace or of all. -/
def vmList (w : World) (nspace : Option String) : List VirtualMachine :=
  (w.names.filterMap fun k => (w.vms k).vm?).filter fun vm => nspace.all (vm.nspace = ·)

theorem mem_vmList {w : World} {k : NamespacedName} {vm : VirtualMachine} (hk : k ∈ w.names)
    (hvm : w.vms k = .live vm) : vm ∈ w.vmList none := by
  refine List.mem_filter.mpr ⟨List.mem_filterMap.mpr ⟨k, hk, ?_⟩, rfl⟩
  rw [hvm]
  rfl

def setVM (w : World) (k : NamespacedName) (s : Slot) : World :=
  { w with vms := Function.update w.vms k s }

theorem setVM_self (w : World) (k : NamespacedName) (s : Slot) : (w.setVM k s).vms k = s :=
  Function.update_self ..

end World

/-! ## The others -/

/-- An edit of a VM by anybody but the operator: of annotations that satisfy
`may`, of labels, spec, status and other controllers' finalizers; also the
request to delete it. -/
structure VirtualMachine.Edit (may : String → Prop) (before after : VirtualMachine) : Prop where
  name : after.name = before.name
  nspace : after.nspace = before.nspace
  uid : after.uid = before.uid
  version : before.resourceVersion < after.resourceVersion
  annotations : ∀ a, ¬ may a → after.annotations[a]? = before.annotations[a]?
  finalizer : saltFinalizer ∈ after.finalizers → saltFinalizer ∈ before.finalizers
  deleting : before.deleting → after.deleting

/-- The annotations tenants edit: any that the operator does not own. -/
def notOwn (a : String) : Prop := a ∉ ownAnnotations

/-- A VM as it is created: nothing on it is from the operator. -/
structure VirtualMachine.Fresh (vm : VirtualMachine) : Prop where
  name : vm.name ≠ ""
  annotations : ∀ a ∈ ownAnnotations, vm.annotations[a]? = none
  finalizer : saltFinalizer ∉ vm.finalizers

/-- What the world does by itself. A VM is created under a name that none had before it. -/
inductive Tenant (may : String → Prop) : World → World → Prop where
  | create {w} (vm : VirtualMachine) : vm.Fresh → vm.key ∉ w.names →
      (∀ k ∈ w.names, ∀ v ∈ w.versions k, v.uid ≠ vm.uid) →
      Tenant may w { w.setVM vm.key (.live vm) with
        names := vm.key :: w.names
        versions := Function.update w.versions vm.key [vm] }
  | edit {w} (k : NamespacedName) (before after : VirtualMachine) : w.vms k = .live before →
      before.Edit may after →
      Tenant may w { w.setVM k (.live after) with
        versions := Function.update w.versions k (after :: w.versions k) }
  | remove {w} (k : NamespacedName) (vm : VirtualMachine) : w.vms k = .live vm →
      vm.finalizers = [] → Tenant may w (w.setVM k .removed)
  | clock {w} (now : Time) : w.now ≤ now → Tenant may w { w with now }
  | secrets {w} (secrets) : Tenant may w { w with secrets }
  | restart {w} : Tenant may w { w with cache := fun _ => none }
  | configs {w} (configs : List SaltKeyConfig) : Tenant may w { w with configs }
  /-- minions ask for acceptance, other users of RaaS handle keys -/
  | raas {w} (raas) : Tenant may w { w with raas }

/-! ## The operator's calls -/

/-- The entry of the cache that `get` returns. -/
def World.cached (w : World) (key : NamespacedName) (configRV : String) : Option Connection :=
  match w.cache key with
  | none => none
  | some e => if e.configRV ≠ configRV ∨ e.expiresAt < w.now then none else some e.conn

def saltClientCacheTTL : Duration := 20 * Go.minute

/-- The answers a call may get. -/
def Answers (rt : Runtime) (w : World) : (o : Op) → o.Ans → Prop
  | .now, t => t = w.now
  | .getVM k, .ok vm => w.vms k = .live vm
  | .getVM k, .error (.notFound _) => (w.vms k).vm? = none
  | .getVM _, .error _ => True
  | .listVMs nspace, .ok list => list.Perm (w.vmList nspace)
  | .listVMs _, .error _ => True
  | .patchVM base obj, .ok vm => ∃ cur version, w.vms obj.key = .live cur ∧
      cur.resourceVersion ≤ version ∧
      vm = .patched version base obj cur
  | .patchVM _ _, .error _ => True
  | .listConfigs nspace, .ok configs => ∀ cfg ∈ configs, nspace.all (cfg.nspace = ·)
  | .listConfigs _, .error _ => True
  | .getSecret k, .ok data => ∃ s, w.secrets k = some s ∧ data = StringMap.copy {} s.data
  | .getSecret k, .error (.notFound _) => w.secrets k = none
  | .getSecret _, .error _ => True
  | .createSecret s, .ok () => w.secrets ⟨s.nspace, s.name⟩ = none
  | .createSecret s, .error (.alreadyExists _) => w.secrets ⟨s.nspace, s.name⟩ ≠ none
  | .createSecret _, .error _ => True
  | .updateSecret s, .ok () => w.secrets ⟨s.nspace, s.name⟩ ≠ none
  | .updateSecret _, .error _ => True
  | .patchSecret k _, .ok () => w.secrets k ≠ none
  | .patchSecret k _, .error (.notFound _) => w.secrets k = none
  | .patchSecret _ _, .error _ => True
  | .event _ _ _ _, () => True
  | .log _ _ _, () => True
  | .cacheGet k configRV, a => a = w.cached k configRV
  | .cacheSet _ _ _, () => True
  | .salt _ c, a => c.Returns rt a

/-- The slot after a patch: an object without finalizers that is being deleted
goes away. -/
def settled (vm : VirtualMachine) : Slot :=
  if vm.deleting ∧ vm.finalizers = [] then .removed else .live vm

theorem settled_eq_live {vm cur : VirtualMachine} (h : settled vm = .live cur) : cur = vm := by
  unfold settled at h
  split at h
  · cases h
  · cases h
    rfl

theorem settled_present {vm : VirtualMachine} (h : vm.deleting = false) :
    settled vm = .live vm := by
  unfold settled
  rw [h]
  rfl

/-- A Secret with entries of its data replaced. -/
def Secret.patched (s : Secret) (data : List (String × String)) : Secret :=
  { s with data := s.data.filter (fun e => !(data.map Prod.fst).contains e.1) ++ data }

/-- An entry of a Secret. -/
def Secret.entry (s : Secret) (e : String) : Option String := (StringMap.copy {} s.data)[e]?

theorem Secret.entry_eq_lookup (s : Secret) (e : String) : s.entry e = s.data.reverse.lookup e := by
  unfold Secret.entry
  rw [StringMap.getElem?_copy]
  simp

/-- A patch replaces the entries it names and no others. -/
theorem Secret.entry_patched (s : Secret) (data : List (String × String)) (e : String) :
    (s.patched data).entry e = (data.reverse.lookup e).or (s.entry e) := by
  rw [Secret.entry_eq_lookup, Secret.entry_eq_lookup]
  show (s.data.filter _ ++ data).reverse.lookup e = _
  rw [List.reverse_append, List.lookup_append]
  cases hl : data.reverse.lookup e with
  | some v => rfl
  | none =>
    rw [Option.none_or, Option.none_or, ← List.filter_reverse]
    refine lookup_filter (fun v => ?_) _
    have habsent := List.lookup_eq_none_iff.mp hl
    simp only [Bool.not_eq_true', List.contains_eq_mem, decide_eq_false_iff_not, List.mem_map,
      not_exists, not_and]
    rintro x hx rfl
    exact absurd (habsent x (List.mem_reverse.mpr hx)) (by simp)

/-- The name of the Secret the preseeded key of a VM is left in. -/
def NamespacedName.bootstrap (k : NamespacedName) : NamespacedName :=
  ⟨k.nspace, k.name ++ bootstrapSecretSuffix⟩

theorem NamespacedName.bootstrap_injective {j k : NamespacedName} (h : j.bootstrap = k.bootstrap) :
    j = k := by
  obtain ⟨ns, name⟩ := j
  obtain ⟨ns', name'⟩ := k
  obtain ⟨rfl, hname⟩ := NamespacedName.mk.inj h
  obtain rfl := (String.append_left_inj _).mp hname
  rfl

/-- What a call that got this answer did to the world. -/
def effect (w : World) : (o : Op) → o.Ans → World
  | .patchVM _ obj, .ok vm => w.setVM obj.key (settled vm)
  | .createSecret s, .ok () =>
    { w with secrets := Function.update w.secrets ⟨s.nspace, s.name⟩ (some s) }
  | .updateSecret s, .ok () =>
    { w with secrets := Function.update w.secrets ⟨s.nspace, s.name⟩ (some s) }
  | .patchSecret k data, .ok () =>
    { w with secrets := Function.update w.secrets k ((w.secrets k).map (·.patched data)) }
  | .cacheGet k _, none => { w with cache := Function.update w.cache k none }
  | .cacheSet k configRV conn, () =>
    let entry : CacheEntry := ⟨conn, configRV, w.now + saltClientCacheTTL⟩
    { w with cache := Function.update w.cache k (some entry) }
  | .salt conn (.acceptKey minionID), .ok () =>
    w.setKeys conn.url ((w.raas conn.url).accept minionID)
  | .salt conn (.deleteKey minionID), .ok () =>
    w.setKeys conn.url ((w.raas conn.url).delete minionID)
  | .salt conn (.genAcceptKey minionID _), .ok (some pair) =>
    w.setKeys conn.url ((w.raas conn.url).generate minionID pair.pub)
  | _, _ => w

/-- A RaaS call changes at most the keys RaaS knows of. -/
theorem effect_salt (w : World) (conn : Connection) (c : SaltCall) (a : c.Ans) :
    ∃ raas, effect w (.salt conn c) a = { w with raas } := by
  cases c with
  | acceptKey id => cases a <;> exact ⟨_, rfl⟩
  | deleteKey id => cases a <;> exact ⟨_, rfl⟩
  | genAcceptKey id force => rcases a with e | _ | pair <;> exact ⟨_, rfl⟩
  | _ => exact ⟨w.raas, rfl⟩

/-- Only others create VMs, make new versions and change configs, and the time goes by
itself. -/
theorem effect_others (w : World) (o : Op) (a : o.Ans) :
    (effect w o a).versions = w.versions ∧ (effect w o a).configs = w.configs ∧
      (effect w o a).now = w.now ∧ (effect w o a).names = w.names := by
  cases o with
  | patchVM base obj => cases a <;> exact ⟨rfl, rfl, rfl, rfl⟩
  | createSecret s => cases a <;> exact ⟨rfl, rfl, rfl, rfl⟩
  | updateSecret s => cases a <;> exact ⟨rfl, rfl, rfl, rfl⟩
  | patchSecret k data => cases a <;> exact ⟨rfl, rfl, rfl, rfl⟩
  | cacheGet k rv => cases a <;> exact ⟨rfl, rfl, rfl, rfl⟩
  | salt conn c =>
    obtain ⟨raas, heff⟩ := effect_salt w conn c a
    rw [heff]
    exact ⟨rfl, rfl, rfl, rfl⟩
  | _ => exact ⟨rfl, rfl, rfl, rfl⟩

theorem effect_versions (w : World) (o : Op) (a : o.Ans) :
    (effect w o a).versions = w.versions := (effect_others w o a).1

theorem effect_configs (w : World) (o : Op) (a : o.Ans) : (effect w o a).configs = w.configs :=
  (effect_others w o a).2.1

theorem effect_names (w : World) (o : Op) (a : o.Ans) : (effect w o a).names = w.names :=
  (effect_others w o a).2.2.2

/-- The minion whose key a call acts on. -/
def Op.keyOf : Op → Option String
  | .salt _ (.acceptKey minionID) => some minionID
  | .salt _ (.deleteKey minionID) => some minionID
  | .salt _ (.genAcceptKey minionID _) => some minionID
  | _ => none

/-- The Secret a call writes. -/
def Op.secretOf : Op → Option NamespacedName
  | .createSecret s => some ⟨s.nspace, s.name⟩
  | .updateSecret s => some ⟨s.nspace, s.name⟩
  | .patchSecret key _ => some key
  | _ => none

section effect

variable {w : World} {o : Op} {a : o.Ans}

theorem setKeys_accepted {url url' minionID : String} {keys : Keys}
    (h : keys.accepted minionID = (w.raas url).accepted minionID) :
    ((w.setKeys url keys).raas url').accepted minionID = (w.raas url').accepted minionID := by
  unfold World.setKeys
  rcases eq_or_ne url' url with rfl | hne
  · simpa only [Function.update_self] using h
  · simp only [Function.update_of_ne hne]

/-- A call leaves the keys of other minions as they are. -/
theorem effect_accepted {url minionID : String} (ho : o.keyOf ≠ some minionID) :
    ((effect w o a).raas url).accepted minionID = (w.raas url).accepted minionID := by
  cases o with
  | salt conn c =>
    cases c with
    | acceptKey id =>
      have hne : minionID ≠ id := fun h => ho (congrArg some h.symm)
      cases a with
      | error e => rfl
      | ok u =>
        refine setKeys_accepted ?_
        unfold Keys.accept
        split
        · rfl
        · exact Function.update_of_ne hne _ _
    | deleteKey id =>
      have hne : minionID ≠ id := fun h => ho (congrArg some h.symm)
      cases a with
      | error e => rfl
      | ok u => exact setKeys_accepted (Function.update_of_ne hne _ _)
    | genAcceptKey id force =>
      have hne : minionID ≠ id := fun h => ho (congrArg some h.symm)
      rcases a with e | _ | pair
      · rfl
      · rfl
      · exact setKeys_accepted (Function.update_of_ne hne _ _)
    | _ => rfl
  | patchVM base obj => cases a <;> rfl
  | createSecret s => cases a <;> rfl
  | updateSecret s => cases a <;> rfl
  | patchSecret key data => cases a <;> rfl
  | cacheGet key rv => cases a <;> rfl
  | _ => rfl

/-- A call leaves the other Secrets as they are. -/
theorem effect_secrets {key : NamespacedName} (ho : o.secretOf ≠ some key) :
    (effect w o a).secrets key = w.secrets key := by
  cases o with
  | createSecret s =>
    have hne : key ≠ ⟨s.nspace, s.name⟩ := fun h => ho (congrArg some h.symm)
    cases a with
    | error e => rfl
    | ok u => exact Function.update_of_ne hne _ _
  | updateSecret s =>
    have hne : key ≠ ⟨s.nspace, s.name⟩ := fun h => ho (congrArg some h.symm)
    cases a with
    | error e => rfl
    | ok u => exact Function.update_of_ne hne _ _
  | patchSecret key' data =>
    have hne : key ≠ key' := fun h => ho (congrArg some h.symm)
    cases a with
    | error e => rfl
    | ok u => exact Function.update_of_ne hne _ _
  | patchVM base obj => cases a <;> rfl
  | cacheGet key rv => cases a <;> rfl
  | salt conn c =>
    obtain ⟨raas, heff⟩ := effect_salt w conn c a
    rw [heff]
  | _ => rfl

end effect

/-- A run of the operator begins with no VMs and no clients; whatever exists is
created later. -/
def World.Initial (w : World) : Prop :=
  w.names = [] ∧ (∀ k, w.vms k = .unused) ∧ (∀ k, w.versions k = []) ∧ ∀ k, w.cache k = none

/-- A configuration of the cluster. -/
abbrev ClusterCfg := Cfg NamespacedName Op Op.Ans World String Result

/-- A step of the cluster. -/
abbrev ClusterAction := Action NamespacedName Op Op.Ans

/-- The operator in its cluster. `may` are the annotations tenants edit, and
`crash` says whether the operator may stop after any call. -/
def cluster (rt : Runtime) (d : Default) (may : String → Prop) (crash : Prop) :
    System NamespacedName Op Op.Ans World String Result where
  exec _ w o a w' := Answers rt w o a ∧ w' = effect w o a
  env := Tenant may
  boot := reconcile rt d
  crash := crash
  init := World.Initial

end SaltOperator
