import SaltOperator.Cluster.Induction
import SaltOperator.Cluster.AlonePass

/-!
# Running the cluster

A cluster in which every call succeeds, as a function: `serve` answers the
operator's calls, `Act` are the things that happen in a run, and `runActs` plays
a list of them. Every configuration it gets to is reachable (`reachIf_runActs`),
so that a run can be exhibited by evaluating it. `Sample` is a small cluster to do
that in.
-/

namespace SaltOperator

/-- What the informer cache and RaaS answer. -/
structure Script (rt : Runtime) where
  configs : List SaltKeyConfig
  salt : (c : SaltCall) → c.Ans
  returns : ∀ c : SaltCall, c.Returns rt (salt c)

/-- The answer to a read of a VM. -/
def Slot.read : Slot → Except ApiErr VirtualMachine
  | .live vm => .ok vm
  | _ => .error (.notFound "virtualmachine not found")

/-- The answer to a patch of a VM. -/
def Slot.patch (base obj : VirtualMachine) : Slot → Except ApiErr VirtualMachine
  | .live cur => .ok (.patched (cur.resourceVersion + 1) base obj cur)
  | _ => .error (.notFound "virtualmachine not found")

/-- The answer to a read of a Secret. -/
def readSlot : Option Secret → Except ApiErr StringMap
  | some secret => .ok (StringMap.copy {} secret.data)
  | none => .error (.notFound "secret not found")

/-- The answer to the creation of a Secret. -/
def createSlot : Option Secret → Except ApiErr Unit
  | some _ => .error (.alreadyExists "secret already exists")
  | none => .ok ()

/-- The answer to an update or a patch of a Secret. -/
def updateSlot : Option Secret → Except ApiErr Unit
  | some _ => .ok ()
  | none => .error (.notFound "secret not found")

/-- The answer of a cluster without failures. -/
def serve {rt : Runtime} (s : Script rt) (w : World) : (o : Op) → o.Ans
  | .now => w.now
  | .getVM k => (w.vms k).read
  | .listVMs nspace => .ok (w.vmList nspace)
  | .patchVM base obj => (w.vms obj.key).patch base obj
  | .listConfigs nspace => .ok (s.configs.filter fun cfg => nspace.all (cfg.nspace = ·))
  | .getSecret k => readSlot (w.secrets k)
  | .createSecret secret => createSlot (w.secrets ⟨secret.nspace, secret.name⟩)
  | .updateSecret secret => updateSlot (w.secrets ⟨secret.nspace, secret.name⟩)
  | .patchSecret k _ => updateSlot (w.secrets k)
  | .event _ _ _ _ => ()
  | .log _ _ _ => ()
  | .cacheGet k configRV => w.cached k configRV
  | .cacheSet _ _ _ => ()
  | .salt _ c => s.salt c

theorem serve_answers {rt : Runtime} (s : Script rt) (w : World) (o : Op) :
    Answers rt w o (serve s w o) := by
  cases o with
  | getVM k =>
    show Answers rt w (.getVM k) (w.vms k).read
    cases h : w.vms k with
    | live vm => exact h
    | unused => exact congrArg Slot.vm? h
    | removed => exact congrArg Slot.vm? h
  | listVMs nspace => exact List.Perm.refl _
  | patchVM base obj =>
    show Answers rt w (.patchVM base obj) ((w.vms obj.key).patch base obj)
    cases h : w.vms obj.key with
    | live cur => exact ⟨cur, _, h, Nat.le_succ _, rfl⟩
    | unused => trivial
    | removed => trivial
  | listConfigs nspace => exact fun cfg hcfg => (List.mem_filter.mp hcfg).2
  | getSecret k =>
    show Answers rt w (.getSecret k) (readSlot (w.secrets k))
    cases h : w.secrets k with
    | some secret => exact ⟨secret, h, rfl⟩
    | none => exact h
  | createSecret secret =>
    show Answers rt w (.createSecret secret) (createSlot (w.secrets ⟨secret.nspace, secret.name⟩))
    cases h : w.secrets ⟨secret.nspace, secret.name⟩ with
    | some s' => exact fun hn => by rw [h] at hn; cases hn
    | none => exact h
  | updateSecret secret =>
    show Answers rt w (.updateSecret secret) (updateSlot (w.secrets ⟨secret.nspace, secret.name⟩))
    cases h : w.secrets ⟨secret.nspace, secret.name⟩ with
    | some s' => exact fun hn => by rw [h] at hn; cases hn
    | none => trivial
  | patchSecret k data =>
    show Answers rt w (.patchSecret k data) (updateSlot (w.secrets k))
    cases h : w.secrets k with
    | some s' => exact fun hn => by rw [h] at hn; cases hn
    | none => exact h
  | now => rfl
  | cacheGet k configRV => rfl
  | salt conn c => exact s.returns c
  | _ => trivial

/-- Things that happen in a run. -/
inductive Act (rt : Runtime) where
  | create (vm : VirtualMachine)
  | annotate (k : NamespacedName) (name value : String)
  | setStatus (k : NamespacedName) (json : Json)
  | setFinalizers (k : NamespacedName) (others : List String)
  | delete (k : NamespacedName) (time : Time)
  | clock (now : Time)
  | configs (configs : List SaltKeyConfig)
  | raas (raas : String → Keys)
  /-- the worker of `k` begins a pass, makes a call, or ends it -/
  | turn (k : NamespacedName) (s : Script rt)
  /-- the operator stops -/
  | stop (k : NamespacedName)

/-- The worker of `k` at work for a while. -/
def work {rt : Runtime} (k : NamespacedName) (s : Script rt) (n : Nat) : List (Act rt) :=
  List.replicate n (.turn k s)

/-- A new version of a VM. -/
def VirtualMachine.bump (vm : VirtualMachine) : VirtualMachine :=
  { vm with resourceVersion := vm.resourceVersion + 1 }

namespace ClusterCfg

/-- One step of the worker of `k`. -/
def turn {rt : Runtime} (d : Default) (s : Script rt) (k : NamespacedName) (c : ClusterCfg) :
    ClusterAction × ClusterCfg :=
  match c.threads k with
  | none =>
    (.start k, { c with threads := Function.update c.threads k (some (reconcile rt d k)) })
  | some (.call o next) =>
    let a := serve s c.world o
    (.call k o a, ⟨effect c.world o a, Function.update c.threads k (some (next a)),
      Function.update c.hist k (⟨c.world, o, a⟩ :: c.hist k)⟩)
  | some _ => (.done k, { c with threads := Function.update c.threads k none })

/-- An edit of a VM by somebody else. -/
def edit (k : NamespacedName) (f : VirtualMachine → VirtualMachine) (c : ClusterCfg) :
    Option (ClusterAction × ClusterCfg) :=
  match c.world.vms k with
  | .live vm => some (.env, { c with world :=
      { c.world.setVM k (.live (f vm).bump) with
        versions := Function.update c.world.versions k ((f vm).bump :: c.world.versions k) } })
  | _ => none

/-- Nothing has happened yet. -/
def start (now : Time) (secrets : NamespacedName → Option Secret) : ClusterCfg :=
  ⟨{ now, names := [], vms := fun _ => .unused, versions := fun _ => [], secrets,
     cache := fun _ => none }, fun _ => none, fun _ => []⟩

/-- One VM was created. -/
def created (now : Time) (secrets : NamespacedName → Option Secret) (vm : VirtualMachine) :
    ClusterCfg :=
  { start now secrets with
    world := { (start now secrets).world.setVM vm.key (.live vm) with
      names := [vm.key]
      versions := Function.update (start now secrets).world.versions vm.key [vm] } }

end ClusterCfg

/-- Whether nothing on a VM is from the operator. -/
def VirtualMachine.isFresh (vm : VirtualMachine) : Bool :=
  vm.name ≠ "" && (ownAnnotations.all fun a => vm.annotations[a]?.isNone) &&
    saltFinalizer ∉ vm.finalizers

theorem VirtualMachine.fresh_of_isFresh {vm : VirtualMachine} (h : vm.isFresh = true) :
    vm.Fresh := by
  simp only [VirtualMachine.isFresh, Bool.and_eq_true, decide_eq_true_eq] at h
  refine ⟨h.1.1, fun a ha => ?_, h.2⟩
  simpa using List.all_eq_true.mp h.1.2 a ha

instance : DecidablePred notOwn := fun a => inferInstanceAs (Decidable (a ∉ ownAnnotations))

section run

variable {rt : Runtime} (d : Default) (may : String → Prop) [DecidablePred may] (crash : Prop)
  [Decidable crash]

/-- Play one act, if it is possible. -/
def Act.step (c : ClusterCfg) : Act rt → Option (ClusterAction × ClusterCfg)
  | .create vm =>
    if vm.isFresh ∧ vm.key ∉ c.world.names ∧
        (c.world.names.all fun k => (c.world.versions k).all (·.uid ≠ vm.uid)) then
      some (.env, { c with world := { c.world.setVM vm.key (.live vm) with
        names := vm.key :: c.world.names
        versions := Function.update c.world.versions vm.key [vm] } })
    else none
  | .annotate k a v =>
    if may a then c.edit k fun vm => { vm with annotations := vm.annotations.insert a v } else none
  | .setStatus k json => c.edit k fun vm => { vm with status := json }
  | .setFinalizers k others =>
    if saltFinalizer ∈ others then none else c.edit k fun vm =>
      { vm with finalizers := others ++ vm.finalizers.filter (· = saltFinalizer) }
  | .delete k time => c.edit k fun vm => { vm with deletionTimestamp := some time }
  | .clock now =>
    if c.world.now ≤ now then some (.env, { c with world := { c.world with now } }) else none
  | .configs cfgs =>
    some (.env, { c with world := { c.world with configs := cfgs } })
  | .raas keys => some (.env, { c with world := { c.world with raas := keys } })
  | .turn k s => some (c.turn d s k)
  | .stop k =>
    if crash then some (.stop k, { c with threads := Function.update c.threads k none }) else none

/-- Play acts one after the other, as long as the steps pass `ok`. -/
def runActs (ok : ClusterCfg → ClusterAction → ClusterCfg → Bool) :
    List (Act rt) → ClusterCfg → Option ClusterCfg
  | [], c => some c
  | act :: rest, c =>
    match act.step d may crash c with
    | none => none
    | some (a, c') => if ok c a c' then runActs ok rest c' else none

end run

section reach

variable {rt : Runtime} {d : Default} {may : String → Prop} {crash : Prop} {c c' : ClusterCfg}
  {a : ClusterAction}

theorem step_turn {s : Script rt} {k : NamespacedName} :
    (cluster rt d may crash).Step c (c.turn d s k).1 (c.turn d s k).2 := by
  unfold ClusterCfg.turn
  split
  · rename_i hidle
    exact .start k hidle
  · rename_i o next hth
    exact .call k hth ⟨serve_answers s _ o, rfl⟩
  · rename_i p hno hth
    refine .done k hth ?_
    cases p with
    | call o next => exact absurd rfl (hno o next)
    | _ => rfl

/-- An edit that changes nothing it must not. -/
theorem step_edit {k : NamespacedName} {f : VirtualMachine → VirtualMachine}
    (he : c.edit k f = some (a, c')) (hf : ∀ vm : VirtualMachine, vm.Edit may (f vm).bump) :
    (cluster rt d may crash).Step c a c' := by
  unfold ClusterCfg.edit at he
  split at he
  · rename_i vm hvm
    cases he
    exact .env (.edit k vm _ hvm (hf vm))
  · cases he

/-- A patch that is about to be sent may succeed. -/
theorem exists_step_patch {k : NamespacedName} {base obj cur : VirtualMachine}
    {next : Except ApiErr VirtualMachine → Prog Op Op.Ans String Result}
    (hth : c.threads k = some (.call (.patchVM base obj) next)) (hkey : obj.key = k)
    (hcur : c.world.vms k = .live cur) :
    ∃ c', (cluster rt d may crash).Step c (.call k (.patchVM base obj)
      (.ok (.patched (cur.resourceVersion + 1) base obj cur))) c' := by
  rw [← hkey] at hcur
  exact ⟨_, .call k hth ⟨⟨cur, _, hcur, Nat.le_succ _, rfl⟩, rfl⟩⟩

variable [DecidablePred may] [Decidable crash]

/-- What an act does is a step of the cluster. -/
theorem Act.step_sound {act : Act rt}
    (ha : act.step d may crash c = some (a, c')) : (cluster rt d may crash).Step c a c' := by
  cases act with
  | create vm =>
    simp only [Act.step] at ha
    split at ha
    · rename_i hok
      obtain ⟨hfresh, hkey, huid⟩ := hok
      cases ha
      refine .env (.create vm (VirtualMachine.fresh_of_isFresh hfresh) hkey fun k hk v hv => ?_)
      have hall := List.all_eq_true.mp huid k hk
      simpa using List.all_eq_true.mp hall v hv
    · cases ha
  | annotate k x v =>
    simp only [Act.step] at ha
    split at ha
    · rename_i hmay
      refine step_edit ha fun vm => ⟨rfl, rfl, rfl, Nat.lt_succ_self _, fun b hb => ?_, id, id⟩
      show (vm.annotations.insert x v)[b]? = _
      have hne : compare x b ≠ .eq := by
        intro hc
        rw [Std.LawfulEqCmp.compare_eq_iff_eq.mp hc] at hmay
        exact hb hmay
      rw [Std.ExtTreeMap.getElem?_insert, if_neg hne]
    · cases ha
  | setStatus k json =>
    exact step_edit (f := fun vm => { vm with status := json }) ha
      fun vm => ⟨rfl, rfl, rfl, Nat.lt_succ_self _, fun _ _ => rfl, id, id⟩
  | setFinalizers k others =>
    simp only [Act.step] at ha
    split at ha
    · cases ha
    · rename_i hfs
      refine step_edit ha fun vm => ⟨rfl, rfl, rfl, Nat.lt_succ_self _, fun _ _ => rfl, ?_, id⟩
      intro hmem
      rcases List.mem_append.mp hmem with hmem | hmem
      · exact absurd hmem hfs
      · exact (List.mem_filter.mp hmem).1
  | delete k time =>
    exact step_edit (f := fun vm => { vm with deletionTimestamp := some time }) ha
      fun vm => ⟨rfl, rfl, rfl, Nat.lt_succ_self _, fun _ _ => rfl, id, fun _ => rfl⟩
  | clock now =>
    simp only [Act.step] at ha
    split at ha
    · rename_i hle
      cases ha
      exact .env (.clock now hle)
    · cases ha
  | configs cfgs =>
    cases ha
    exact .env (.configs cfgs)
  | raas keys =>
    cases ha
    exact .env (.raas keys)
  | turn k s =>
    have hturn : c.turn d s k = (a, c') := Option.some.inj ha
    have hstep : (cluster rt d may crash).Step c (c.turn d s k).1 (c.turn d s k).2 :=
      step_turn
    rw [hturn] at hstep
    exact hstep
  | stop k =>
    simp only [Act.step] at ha
    split at ha
    · rename_i hc
      cases ha
      exact .stop k hc
    · cases ha

/-- What steps that pass the check preserve, a run preserves. -/
theorem closed_of_runActs {ok : ClusterCfg → ClusterAction → ClusterCfg → Bool}
    {P : ClusterCfg → Prop} (hP : ∀ c a c', (cluster rt d may crash).Step c a c' →
      ok c a c' = true → P c → P c') :
    ∀ {acts : List (Act rt)} {c : ClusterCfg}, runActs d may crash ok acts c = some c' →
      P c → P c'
  | [], c, hr, h => by
    cases hr
    exact h
  | act :: rest, c, hr, h => by
    unfold runActs at hr
    split at hr
    · cases hr
    · rename_i a c₁ hact
      split at hr
      · rename_i hstep
        exact closed_of_runActs hP hr (hP _ _ _ (Act.step_sound hact) hstep h)
      · cases hr

/-- **What a run gets to is reachable**, by steps that meet the condition the run
was checked for. -/
theorem reachIf_runActs {ok : ClusterCfg → ClusterAction → ClusterCfg → Bool}
    {allow : StepCondition} (hok : ∀ c a c', (cluster rt d may crash).ReachIf allow c →
      ok c a c' = true → allow c a c') {acts : List (Act rt)} {c : ClusterCfg}
    (hr : runActs d may crash ok acts c = some c') (h : (cluster rt d may crash).ReachIf allow c) :
    (cluster rt d may crash).ReachIf allow c' :=
  closed_of_runActs (fun c a c' hs ha hc => .step hc hs (hok c a c' hc ha)) hr h

/-- A run whose end passes a check exhibits a reachable configuration that
does. -/
theorem exists_reachIf_of_run {ok : ClusterCfg → ClusterAction → ClusterCfg → Bool}
    {allow : StepCondition} (hok : ∀ c a c', (cluster rt d may crash).ReachIf allow c →
      ok c a c' = true → allow c a c')
    {acts : List (Act rt)} {now : Time} {secrets : NamespacedName → Option Secret}
    {check : ClusterCfg → Bool}
    (h : (runActs d may crash ok acts (.start now secrets)).any check = true) :
    ∃ c, (cluster rt d may crash).ReachIf allow c ∧ check c = true := by
  obtain ⟨c, hrun, hcheck⟩ := (Option.any_eq_true _ _).mp h
  refine ⟨c, reachIf_runActs hok hrun ?_, hcheck⟩
  exact .init ⟨rfl, fun _ => rfl, fun _ => rfl, fun _ => rfl⟩

/-- The same for runs of any steps. -/
theorem exists_reach_of_run {acts : List (Act rt)} {now : Time}
    {secrets : NamespacedName → Option Secret} {check : ClusterCfg → Bool}
    (h : (runActs d may crash (fun _ _ _ => true) acts (.start now secrets)).any check = true) :
    ∃ c, (cluster rt d may crash).Reach c ∧ check c = true :=
  exists_reachIf_of_run (fun _ _ _ _ _ => trivial) h

/-- The same for runs that begin with a VM. -/
theorem exists_reachIf_of_created {allow : StepCondition} (now : Time)
    (secrets : NamespacedName → Option Secret) (vm : VirtualMachine)
    (ok : ClusterCfg → ClusterAction → ClusterCfg → Bool) (acts : List (Act rt))
    (check : ClusterCfg → Bool) (hfresh : vm.isFresh = true)
    (hallow : allow (.start now secrets) .env (.created now secrets vm))
    (hok : ∀ c a c', (cluster rt d may crash).ReachIf allow c → ok c a c' = true → allow c a c')
    (h : (runActs d may crash ok acts (.created now secrets vm)).any check = true) :
    ∃ c, (cluster rt d may crash).ReachIf allow c ∧ check c = true := by
  obtain ⟨c, hrun, hcheck⟩ := (Option.any_eq_true _ _).mp h
  refine ⟨c, reachIf_runActs hok hrun
    (.step (.init ⟨rfl, fun _ => rfl, fun _ => rfl, fun _ => rfl⟩) ?_ hallow),
    hcheck⟩
  exact .env (.create vm (VirtualMachine.fresh_of_isFresh hfresh) List.not_mem_nil
    fun k hk => absurd hk List.not_mem_nil)

/-- `WritesSucceed`, checked. -/
def writeSucceeds : ClusterAction → Bool
  | .call _ (.patchVM _ _) (.error _) => false
  | _ => true

theorem writeSucceeds_sound {c c' : ClusterCfg} {act : ClusterAction}
    (h : writeSucceeds act = true) : WritesSucceed c act c' := by
  rintro k base obj e rfl
  cases h

/-- The patch the worker of `k` is about to send. -/
def ClusterCfg.pendingPatch (c : ClusterCfg) (k : NamespacedName) :
    Option (VirtualMachine × VirtualMachine) :=
  match c.threads k with
  | some (.call (.patchVM base obj) _) => some (base, obj)
  | _ => none

theorem ClusterCfg.pendingPatch_any {c : ClusterCfg} {k : NamespacedName}
    {check : VirtualMachine × VirtualMachine → Bool} (h : (c.pendingPatch k).any check = true) :
    ∃ base obj next, c.threads k = some (.call (.patchVM base obj) next) ∧
      check (base, obj) = true := by
  unfold ClusterCfg.pendingPatch at h
  split at h
  · rename_i base obj next hth
    exact ⟨base, obj, next, hth, h⟩
  · cases h

/-- The RaaS method the worker of `k` is about to call. -/
def ClusterCfg.pendingSalt (c : ClusterCfg) (k : NamespacedName) : Option (Connection × SaltCall) :=
  match c.threads k with
  | some (.call (.salt conn call) _) => some (conn, call)
  | _ => none

theorem ClusterCfg.pendingSalt_any {c : ClusterCfg} {k : NamespacedName}
    {check : Connection × SaltCall → Bool}
    (h : (c.pendingSalt k).any check = true) :
    ∃ conn call next, c.threads k = some (.call (.salt conn call) next) ∧
      check (conn, call) = true := by
  unfold ClusterCfg.pendingSalt at h
  split at h
  · rename_i conn call next hth
    exact ⟨conn, call, next, hth, h⟩
  · cases h

/-- What the worker of `k` has just returned. -/
def ClusterCfg.returned (c : ClusterCfg) (k : NamespacedName) : Option Result :=
  match c.threads k with
  | some (.ret res) => some res
  | _ => none

theorem ClusterCfg.returned_any {c : ClusterCfg} {k : NamespacedName} {check : Result → Bool}
    (h : (c.returned k).any check = true) :
    ∃ res, c.threads k = some (.ret res) ∧ check res = true := by
  unfold ClusterCfg.returned at h
  split at h
  · rename_i res hth
    exact ⟨res, hth, h⟩
  · cases h

theorem Slot.vm?_any {s : Slot} {check : VirtualMachine → Bool} (h : s.vm?.any check = true) :
    ∃ vm, s = .live vm ∧ check vm = true := by
  cases s with
  | live vm => exact ⟨vm, rfl, h⟩
  | _ => cases h

end reach

/-! ## Passes by themselves -/

/-- The answer of a cluster without failures, the configs being read as they are. -/
def serveFresh {rt : Runtime} (s : Script rt) (w : World) : (o : Op) → o.Ans
  | .listConfigs (some nspace) => .ok (w.configsIn nspace)
  | o => serve s w o

/-- The answer and its effect. -/
def Script.handle {rt : Runtime} (s : Script rt) (w : World) (o : Op) : o.Ans × World :=
  (serveFresh s w o, effect w o (serveFresh s w o))

/-- RaaS fails no call. -/
def Script.Succeeds {rt : Runtime} (s : Script rt) : Prop :=
  ∀ c : SaltCall, c.Succeeds (s.salt c)

theorem serve_admits {rt : Runtime} {s : Script rt} (hs : s.Succeeds) (w : World) (o : Op) :
    Admits w o (serve s w o) := by
  cases o with
  | getVM k =>
    show Admits w (.getVM k) (w.vms k).read
    cases h : w.vms k with
    | live vm => trivial
    | unused => exact congrArg Slot.vm? h
    | removed => exact congrArg Slot.vm? h
  | patchVM base obj =>
    show Admits w (.patchVM base obj) ((w.vms obj.key).patch base obj)
    cases h : w.vms obj.key with
    | live cur => trivial
    | unused => exact congrArg Slot.vm? h
    | removed => exact congrArg Slot.vm? h
  | getSecret k =>
    show Admits w (.getSecret k) (readSlot (w.secrets k))
    cases w.secrets k with
    | some secret => trivial
    | none => exact ⟨_, rfl⟩
  | createSecret secret =>
    show Admits w (.createSecret secret)
      (createSlot (w.secrets ⟨secret.nspace, secret.name⟩))
    cases w.secrets ⟨secret.nspace, secret.name⟩ with
    | some s' => exact ⟨_, rfl⟩
    | none => trivial
  | updateSecret secret =>
    show Admits w (.updateSecret secret)
      (updateSlot (w.secrets ⟨secret.nspace, secret.name⟩))
    cases h : w.secrets ⟨secret.nspace, secret.name⟩ with
    | some s' => trivial
    | none => exact h
  | patchSecret k data =>
    show Admits w (.patchSecret k data) (updateSlot (w.secrets k))
    cases w.secrets k with
    | some s' => trivial
    | none => exact ⟨_, rfl⟩
  | salt conn c =>
    cases c with
    | login => exact hs .login
    | _ => trivial
  | _ => trivial

theorem serve_succeeds {rt : Runtime} {s : Script rt} (hs : s.Succeeds) (w : World) (o : Op) :
    SaltOperator.Succeeds w o (serve s w o) := by
  refine ⟨serve_admits hs w o, ?_⟩
  cases o with
  | salt conn c => exact hs c
  | _ => trivial

theorem handle_served {rt : Runtime} {s : Script rt} (hs : s.Succeeds) (w : World) (o : Op) :
    Served rt AllSucceed w o (s.handle w o).1 (s.handle w o).2 := by
  cases o with
  | listConfigs nspace =>
    cases nspace with
    | none => exact ⟨serve_answers s w _, ⟨trivial, trivial, trivial⟩, rfl⟩
    | some nspace =>
      refine ⟨fun cfg hcfg => ?_, ⟨rfl, trivial, trivial⟩, rfl⟩
      simpa using (List.mem_filter.mp hcfg).2
  | _ => exact ⟨serve_answers s w _, ⟨trivial, serve_succeeds hs w _⟩, rfl⟩

/-! ## A cluster to run in -/

namespace Sample

/-- The instants the runs below take place at, from 1 January 2026 on. -/
def instants : List (Time × String) :=
  [(1767225600 * Go.second, "2026-01-01T00:00:00Z"),
    (1767225660 * Go.second, "2026-01-01T00:01:00Z")]

/-- SHA-256 of the texts that are hashed in the runs below, the first 8 bytes. -/
def digests : List (String × List UInt8) :=
  [("salt.vcf.io/managed=true\n", [0xd6, 0xb5, 0x99, 0x15, 0xb5, 0x14, 0x2a, 0xff]),
   ("salt.vcf.io/managed=true\nsalt.vcf.io/roles=web\n",
     [0xe4, 0x9b, 0xa5, 0xf6, 0x6e, 0xac, 0xe4, 0xcd]),
   ("salt.vcf.io/managed=true\nsalt.vcf.io/roles=db\n",
     [0x65, 0xa4, 0x05, 0x75, 0xac, 0x10, 0x4e, 0x06]),
   ("web", [0x4b, 0x5e, 0x57, 0xf6, 0xeb, 0x2f, 0x42, 0xb9])]

/-- The durations that are printed in the runs below. -/
def durations : List (Duration × String) :=
  [(0, "0s"), (30 * Go.second, "30s"), (10 * Go.minute, "10m0s")]

/-- The libraries, on what the runs below ask of them. -/
def runtime : Runtime where
  sha256 s := (digests.lookup s).getD []
  parseRFC3339 s := (instants.find? (·.2 = s)).map Prod.fst
  formatRFC3339 t := (instants.lookup t).getD ""
  durationString d := (durations.lookup d).getD ""
  lower := Char.toLower
  fold := Char.toLower
  selector sel := .ok fun labels => sel.matchLabels.all fun e => labels[e.1]? = some e.2

/-- The operator has no default connection. -/
def noDefault : Default := ⟨"", ""⟩

def time : Time := 1767225600 * Go.second

/-- A response of RaaS with this result. -/
def response (ret : Json) : Posted := .ok ⟨200, "", some (.obj [("ret", ret)])⟩

/-- A response of RaaS that lists these keys. -/
def keysResponse (ids : List String) : Posted :=
  response (.obj [("results", .arr (ids.map fun id => .obj [("minion", .str id)]))])

/-- A RaaS where everything succeeds, with these pending keys. -/
def raas (pending : List String) : (c : SaltCall) → c.Ans
  | .login => .ok ()
  | .listPendingKeys => listKeys "list_pending" (keysResponse pending)
  | .listAcceptedKeys => listKeys "list_accepted" (keysResponse [])
  | .acceptKey minionID => setKeyState ("accept key for " ++ Go.quote minionID) (response .null)
  | .deleteKey minionID => setKeyState ("delete key for " ++ Go.quote minionID) (response .null)
  | .testPing _ => .ok true
  | .refreshPillar _ => .ok true
  | .dispatchHighstate minionID =>
    dispatch runtime "state.highstate" minionID (response (.str "3f0d"))
      (response (.str "20260101"))
  | .pollJID minionID jid => pollJID minionID jid (response (.obj
      [(minionID, .obj [("success", .bool true), ("retcode", .num 0)])]))
  | .masterLastSeen => .ok ""
  | .keyStates _ => .ok []
  | .genAcceptKey _ _ => .ok (some ⟨"public", "private"⟩)
  | .masterPublicKey => .ok "master"

/-- Answers to the calls of one program that runs by itself: every call succeeds, there are
no VMs or configs, and every Secret has this content. -/
def answer (data : StringMap) : (o : Op) → o.Ans
  | .now => time
  | .getVM _ => .error (.notFound "")
  | .listVMs _ => .ok []
  | .patchVM _ obj => .ok obj
  | .listConfigs _ => .ok []
  | .getSecret _ => .ok data
  | .createSecret _ => .ok ()
  | .updateSecret _ => .ok ()
  | .patchSecret _ _ => .ok ()
  | .event _ _ _ _ => ()
  | .log _ _ _ => ()
  | .cacheGet _ _ => none
  | .cacheSet _ _ _ => ()
  | .salt _ c => raas [] c

theorem raas_returns (pending : List String) (c : SaltCall) :
    c.Returns runtime (raas pending c) := by
  cases c with
  | listPendingKeys => exact ⟨_, rfl⟩
  | listAcceptedKeys => exact ⟨_, rfl⟩
  | acceptKey id => exact ⟨_, rfl⟩
  | deleteKey id => exact ⟨_, rfl⟩
  | dispatchHighstate id => exact ⟨_, _, rfl⟩
  | pollJID id jid => exact ⟨_, rfl⟩
  | _ => trivial

theorem raas_succeeds (pending : List String) (c : SaltCall) : c.Succeeds (raas pending c) := by
  cases c with
  | acceptKey id => rfl
  | deleteKey id => rfl
  | pollJID id jid =>
    refine ⟨some ⟨id, jid, "", .null, 0, true⟩, ?_⟩
    simp [raas, pollJID, response, Posted.body, HttpResponse.isSuccess, HttpResponse.toMap,
      apiError, Json.get?, Json.nestedString, Json.path?, truncate, bind, Except.bind]
    rfl
  | login => rfl
  | _ => exact ⟨_, rfl⟩

/-- A namespace's config, with its own connection. -/
def config (nspace keyAcceptance : String) : SaltKeyConfig where
  name := "salt"
  nspace := nspace
  spec := { raasURL := "https://raas", credentialsSecret := "creds", masterID := "master"
            keyAcceptance := keyAcceptance }
  conditions := [{ type := "Ready", status := .true }]

/-- The credentials of the namespaces `a` and `b`. -/
def secrets : NamespacedName → Option Secret := fun k =>
  if k.name = "creds" then some ⟨"creds", k.nspace, [], [], [("username", "u"), ("password", "p")]⟩
  else none

/-- A managed VM `web`, running. -/
def vm (nspace uid : String) : VirtualMachine where
  name := "web"
  nspace := nspace
  uid := uid
  annotations := ({} : StringMap).insert annotationManaged annotationTrue
  status := .obj [("phase", .str "Running"), ("network", .obj [("primaryIP4", .str "10.0.0.1")])]

/-- The key of the VM in namespace `a`. -/
def key : NamespacedName := ⟨"a", "web"⟩

/-- The namespace's config accepts keys it discovers; the key `web` is pending. -/
def discovery : Script runtime :=
  ⟨[config "a" keyAcceptanceDiscovery], raas ["web"], raas_returns _⟩

/-- RaaS has no pending key. -/
def noPending (configs : List SaltKeyConfig) : Script runtime := ⟨configs, raas [], raas_returns _⟩

/-- The namespace's config has keys generated. -/
def preseed (nspace : String) : Script runtime := noPending [config nspace keyAcceptancePreseed]

/-- From the creation of the VM to its first highstate. -/
def bootstrap : List (Act runtime) :=
  [.create (vm "a" "u1")] ++ work key discovery 40 ++ [.clock (time + 60 * Go.second)] ++
    work key discovery 100

/-- A new VM is taken to Ready. -/
def toReady : List (Act runtime) :=
  [.create (vm "a" "u1")] ++ work key discovery 40 ++
    [.clock (time + 60 * Go.second)] ++ work key discovery 48

/-- Play acts in the sample cluster, where the operator may stop at any point. -/
def play (acts : List (Act runtime)) : Option ClusterCfg :=
  runActs noDefault notOwn True (fun _ _ _ => true) acts (.start time secrets)

theorem exists_reach {acts : List (Act runtime)} {check : ClusterCfg → Bool}
    (h : (play acts).any check = true) :
    ∃ c, (cluster runtime noDefault notOwn True).Reach c ∧ check c = true :=
  exists_reach_of_run h

/-- The next pass over the VM in namespace `a`, by itself. -/
def pass (s : Script runtime) (w : World) : Except String Result × World :=
  (reconcile runtime noDefault key).run s.handle w

theorem exists_runs_pass {s : Script runtime} (hs : s.Succeeds) (w : World) (h : History)
    (after : Except String Result × World → Bool) (hafter : after (pass s w) = true) :
    ∃ r w' h', (reconcile runtime noDefault key).Runs (Served runtime AllSucceed) w h r w' h' ∧
      after (r, w') = true := by
  obtain ⟨h', hr⟩ := Prog.runs_run (handle_served hs) (reconcile runtime noDefault key) w h
  exact ⟨_, _, h', hr, hafter⟩

/-- The next pass after a run without failed writes: what holds before it and what
holds after it. -/
theorem exists_pass (crash : Prop) [Decidable crash] (acts : List (Act runtime))
    {s : Script runtime} (hs : s.Succeeds) (before : ClusterCfg → Bool)
    (after : Except String Result × World → Bool)
    (h : (runActs noDefault notOwn crash (fun _ act _ => writeSucceeds act) acts
      (.start time secrets)).any (fun c => before c && after (pass s c.world)) = true) :
    ∃ c r w' h', (cluster runtime noDefault notOwn crash).ReachIf WritesSucceed c ∧
      (reconcile runtime noDefault key).Runs (Served runtime AllSucceed) c.world (c.hist key)
        r w' h' ∧ before c = true ∧ after (r, w') = true := by
  obtain ⟨c, hc, hcheck⟩ := exists_reachIf_of_run (fun _ _ _ _ h => writeSucceeds_sound h) h
  obtain ⟨hbefore, hafter⟩ := (Bool.and_eq_true _ _).mp hcheck
  obtain ⟨r, w', h', hr, hafter⟩ := exists_runs_pass hs c.world (c.hist key) after hafter
  exact ⟨c, r, w', h', hc, hr, hbefore, hafter⟩

end Sample

end SaltOperator
