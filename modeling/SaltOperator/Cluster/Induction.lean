import SaltOperator.Cluster.Sound

/-!
# Induction over the runs of the cluster

A property of one VM (its object on the API server, its versions and the calls
of its worker) holds in every run if a new VM has it and edits by others, calls
of its worker and patches by its worker preserve it (`VMInvariant.holds`). What is
known at each of these comes from the contract, so that such a proof looks at the
table of `Cluster/Contract.lean` and not at the programs.
-/

namespace SaltOperator

/-- A worker changes no VM but its own. -/
theorem Sound.effect_vms_of_ne {w : World} {H : NamespacedName → History} (hs : Sound w H)
    {rt : Runtime} {crash : Prop} {t k : NamespacedName} {o : Op} {a : o.Ans}
    (hp : Permitted rt crash t (H t) o) (hk : k ≠ t) : (effect w o a).vms k = w.vms k := by
  by_cases hpatch : ∃ base obj vm, (⟨w, o, a⟩ : Made) = ⟨w, .patchVM base obj, .ok vm⟩
  · obtain ⟨base, obj, vm, heq⟩ := hpatch
    cases heq
    show Function.update w.vms obj.key (settled vm) k = w.vms k
    rw [hs.patch_key hp, Function.update_of_ne hk]
  · rw [effect_vms fun base obj vm heq => hpatch ⟨base, obj, vm, heq⟩]

/-- A condition on the steps of a run. -/
abbrev StepCondition := ClusterCfg → ClusterAction → ClusterCfg → Prop

/-- Every VM patch succeeds. -/
def WritesSucceed (_ : ClusterCfg) (act : ClusterAction) (_ : ClusterCfg) : Prop :=
  ∀ k base obj e, act ≠ .call k (.patchVM base obj) (.error e)

/-- `P` holds of a VM with these versions, whose worker made these calls, at the
start, and the steps that meet `allow` preserve it. -/
structure VMInvariant (rt : Runtime) (d : Default) (crash : Prop) (allow : StepCondition)
    (P : NamespacedName → List VirtualMachine → History → VirtualMachine → Prop) : Prop where
  fresh : ∀ h vm, vm.Fresh → History.served h = [] → P vm.key [vm] h vm
  edit : ∀ {c c' : ClusterCfg} {k before after}, (cluster rt d notOwn crash).Reach c →
    Sound c.world c.hist →
    c.world.vms k = .live before → before.Edit notOwn after → c'.world.vms k = .live after →
    c'.hist = c.hist → allow c .env c' → P k (c.world.versions k) (c.hist k) before →
    P k (after :: c.world.versions k) (c.hist k) after
  /-- a call that changes no VM -/
  call : ∀ {c c' : ClusterCfg} {k o} {a : o.Ans} {vm}, (cluster rt d notOwn crash).Reach c →
    Sound c.world c.hist → c.world.vms k = .live vm → Permitted rt crash k (c.hist k) o →
    Answers rt c.world o a →
    (∀ base obj vm', (⟨c.world, o, a⟩ : Made) ≠ ⟨c.world, .patchVM base obj, .ok vm'⟩) →
    allow c (.call k o a) c' → P k (c.world.versions k) (c.hist k) vm →
    P k (c.world.versions k) (⟨c.world, o, a⟩ :: c.hist k) vm
  /-- a patch that succeeds -/
  patch : ∀ {c c' : ClusterCfg} {k base obj cur version}, (cluster rt d notOwn crash).Reach c →
    Sound c.world c.hist → c.world.vms k = .live cur → cur.resourceVersion ≤ version →
    Permitted rt crash k (c.hist k) (.patchVM base obj) → OwnEq base cur →
    OwnEq (.patched version base obj cur) obj →
    allow c (.call k (.patchVM base obj) (.ok (.patched version base obj cur))) c' →
    P k (c.world.versions k) (c.hist k) cur →
    P k (c.world.versions k)
      (⟨c.world, .patchVM base obj, .ok (.patched version base obj cur)⟩ :: c.hist k)
      (.patched version base obj cur)

section holds

variable {rt : Runtime} {d : Default} {crash : Prop} {allow : StepCondition}
  {P : NamespacedName → List VirtualMachine → History → VirtualMachine → Prop}

/-- What the others do keeps the property of every VM. -/
theorem VMInvariant.tenant (hP : VMInvariant rt d crash allow P) {c c' : ClusterCfg} {w' : World}
    (ha : allow c .env c') (hw : c'.world = w') (hhist : c'.hist = c.hist)
    (hr : (cluster rt d notOwn crash).Reach c) (hs : Sound c.world c.hist)
    (ht : Tenant notOwn c.world w')
    (hK : ∀ k vm, c.world.vms k = .live vm → P k (c.world.versions k) (c.hist k) vm)
    {k : NamespacedName} {vm : VirtualMachine} (hvm : w'.vms k = .live vm) :
    P k (w'.versions k) (c.hist k) vm := by
  cases ht with
  | create new hf hn hu =>
    rcases eq_or_ne k new.key with rfl | hk
    · simp only [World.setVM, Function.update_self] at hvm ⊢
      cases hvm
      refine hP.fresh _ _ hf (List.eq_nil_iff_forall_not_mem.mpr fun m hm => ?_)
      exact hs.used _ m hm ((hs.names _).mpr hn)
    · simp only [World.setVM, Function.update_of_ne hk] at hvm ⊢
      exact hK k vm hvm
  | edit j before after hb he =>
    rcases eq_or_ne k j with rfl | hk
    · have hlive : c'.world.vms k = .live vm := by rw [hw]; exact hvm
      simp only [World.setVM, Function.update_self] at hvm ⊢
      cases hvm
      exact hP.edit hr hs hb he hlive hhist ha (hK k before hb)
    · simp only [World.setVM, Function.update_of_ne hk] at hvm ⊢
      exact hK k vm hvm
  | remove j old _ _ =>
    rcases eq_or_ne k j with rfl | hk
    · simp only [World.setVM, Function.update_self] at hvm
      cases hvm
    · simp only [World.setVM, Function.update_of_ne hk] at hvm ⊢
      exact hK k vm hvm
  | clock now _ => exact hK k vm hvm
  | secrets s => exact hK k vm hvm
  | restart => exact hK k vm hvm
  | configs cfgs => exact hK k vm hvm
  | raas keys => exact hK k vm hvm

/-- A call of a worker keeps the property of every VM. -/
theorem VMInvariant.worker (hP : VMInvariant rt d crash allow P) {c c' : ClusterCfg}
    {t : NamespacedName} {o : Op} {a : o.Ans} (ha : allow c (.call t o a) c')
    (hhist : c'.hist = Function.update c.hist t (⟨c.world, o, a⟩ :: c.hist t))
    (hr : (cluster rt d notOwn crash).Reach c) (hs : Sound c.world c.hist)
    (hp : Permitted rt crash t (c.hist t) o) (hans : Answers rt c.world o a)
    (hK : ∀ k vm, c.world.vms k = .live vm → P k (c.world.versions k) (c.hist k) vm)
    {k : NamespacedName} {vm : VirtualMachine} (hvm : (effect c.world o a).vms k = .live vm) :
    P k ((effect c.world o a).versions k) (c'.hist k) vm := by
  rw [effect_versions, hhist]
  rcases eq_or_ne k t with rfl | hk
  · rw [Function.update_self]
    by_cases hpatch :
      ∃ base obj vm', (⟨c.world, o, a⟩ : Made) = ⟨c.world, .patchVM base obj, .ok vm'⟩
    · obtain ⟨base, obj, vm', heq⟩ := hpatch
      cases heq
      obtain ⟨cur, version, hcur, hver, rfl⟩ := hans
      have hown : OwnEq (.patched version base obj cur) obj := hs.patch_own hp hcur
      have hkey := hs.patch_key hp
      rw [hkey] at hcur
      simp only [effect, World.setVM, hkey, Function.update_self] at hvm
      rw [settled_eq_live hvm]
      exact hP.patch hr hs hcur hver hp (hs.copy k base cur hp.1 hcur) hown ha (hK k cur hcur)
    · have hno : ∀ base obj vm', (⟨c.world, o, a⟩ : Made) ≠ ⟨c.world, .patchVM base obj, .ok vm'⟩ :=
        fun base obj vm' heq => hpatch ⟨base, obj, vm', heq⟩
      rw [effect_vms hno] at hvm
      exact hP.call hr hs hvm hp hans hno ha (hK k vm hvm)
  · rw [Function.update_of_ne hk]
    rw [hs.effect_vms_of_ne hp hk] at hvm
    exact hK k vm hvm

/-- **An invariant of a VM holds of every VM in every run.** -/
theorem VMInvariant.holds (hP : VMInvariant rt d crash allow P) {c : ClusterCfg}
    (h : (cluster rt d notOwn crash).ReachIf allow c) {k : NamespacedName} {vm : VirtualMachine}
    (hvm : c.world.vms k = .live vm) : P k (c.world.versions k) (c.hist k) vm := by
  refine (contract rt d crash).invariantIf
    (K := fun w H => ∀ k vm, w.vms k = .live vm → P k (w.versions k) (H k) vm) ?_ ?_ ?_ h k vm hvm
  · intro w hw k vm hvm
    rw [hw.2.1 k] at hvm
    cases hvm
  · intro c w' hr ht ha hs hK k vm hvm
    exact hP.tenant ha rfl rfl hr hs ht hK hvm
  · intro c t o a w' next hr _ hx ha hs hp hK k vm hvm
    obtain ⟨hans, rfl⟩ := hx
    exact hP.worker ha rfl hr hs hp hans hK hvm

/-- The calls of a worker keep what the invariant of its VM says about them, also
when the VM is gone. -/
theorem VMInvariant.history (hP : VMInvariant rt d crash allow P) {L : History → Prop}
    (hL : ∀ {k vs h vm}, P k vs h vm → L h) (nil : L [])
    (call : ∀ {m : Made} {h : History}, m.vm? = none → L h → L (m :: h)) {c : ClusterCfg}
    (h : (cluster rt d notOwn crash).ReachIf allow c) (k : NamespacedName) : L (c.hist k) := by
  refine ((contract rt d crash).invariantIf
    (K := fun w H => (∀ k vm, w.vms k = .live vm → P k (w.versions k) (H k) vm) ∧ ∀ k, L (H k))
    ?_ ?_ ?_ h).2 k
  · intro w hw
    refine ⟨fun k vm hvm => ?_, fun _ => nil⟩
    rw [hw.2.1 k] at hvm
    cases hvm
  · intro c w' hr ht ha hs hK
    exact ⟨fun k vm hvm => hP.tenant ha rfl rfl hr hs ht hK.1 hvm, hK.2⟩
  · intro c t o a w' next hr _ hx ha hs hp hK
    obtain ⟨hans, rfl⟩ := hx
    refine ⟨fun k vm hvm => hP.worker ha rfl hr hs hp hans hK.1 hvm, fun k => ?_⟩
    rcases eq_or_ne k t with rfl | hk
    · rw [Function.update_self]
      by_cases hnone : Made.vm? ⟨c.world, o, a⟩ = none
      · exact call hnone (hK.2 k)
      · -- an object was sent, so the VM is there
        cases o with
        | getVM key =>
          cases a with
          | error e => exact absurd rfl hnone
          | ok vm =>
            obtain ⟨rfl, -⟩ := id hp
            exact hL (hP.call hr hs hans hp hans nofun ha (hK.1 _ vm hans))
        | patchVM base obj =>
          cases a with
          | error e => exact absurd rfl hnone
          | ok vm =>
            obtain ⟨cur, version, hcur, hver, rfl⟩ := hans
            have hown : OwnEq (.patched version base obj cur) obj := hs.patch_own hp hcur
            rw [hs.patch_key hp] at hcur
            exact hL (hP.patch hr hs hcur hver hp (hs.copy k base cur hp.1 hcur) hown ha
              (hK.1 k cur hcur))
        | _ => exact absurd rfl hnone
    · rw [Function.update_of_ne hk]
      exact hK.2 k

end holds

/-! ## Single steps -/

/-- Every call was answered as the world it was made in allows. -/
theorem answered {rt : Runtime} {d : Default} {may : String → Prop} {crash : Prop} {c : ClusterCfg}
    (h : (cluster rt d may crash).Reach c) {k : NamespacedName} {m : Made} (hm : m ∈ c.hist k) :
    Answers rt m.before m.op m.ans := by
  obtain ⟨c₀, c₁, -, hs, -, hw, -⟩ := System.ReachIf.of_mem_hist h hm
  cases hs with
  | call _ _ hx => exact hw ▸ hx.1

section step

variable {rt : Runtime} {d : Default} {crash : Prop} {c c' : ClusterCfg} {act : ClusterAction}
  {k : NamespacedName} {vm vm' : VirtualMachine}

/-- Others create a VM under a name that none had. -/
theorem Tenant.live_before {w w' : World} {H : NamespacedName → History} {may : String → Prop}
    (he : Tenant may w w') (hs : Sound w H) (hvm : w'.vms k = .live vm) :
    w.vms k = .unused ∨ ∃ vm, w.vms k = .live vm := by
  cases he with
  | create vm' _ hn =>
    by_cases hk : k = vm'.key
    · exact .inl ((hs.names k).mpr (hk ▸ hn))
    · exact .inr ⟨vm, (Function.update_of_ne hk _ _).symm.trans hvm⟩
  | edit k' before after hbefore =>
    by_cases hk : k = k'
    · exact .inr ⟨before, hk ▸ hbefore⟩
    · exact .inr ⟨vm, (Function.update_of_ne hk _ _).symm.trans hvm⟩
  | remove k' _ hlive =>
    by_cases hk : k = k'
    · exact .inr ⟨_, hk ▸ hlive⟩
    · exact .inr ⟨vm, (Function.update_of_ne hk _ _).symm.trans hvm⟩
  | _ => exact .inr ⟨vm, hvm⟩

/-- A call creates no VM. -/
theorem effect_live_before {w : World} {o : Op} {a : o.Ans} (ha : Answers rt w o a)
    (hvm : (effect w o a).vms k = .live vm) : ∃ vm, w.vms k = .live vm := by
  by_cases hpatch : ∃ base obj vm', (⟨w, o, a⟩ : Made) = ⟨w, .patchVM base obj, .ok vm'⟩
  · obtain ⟨base, obj, vm', heq⟩ := hpatch
    cases heq
    by_cases hk : k = obj.key
    · obtain ⟨cur, -, hcur, -⟩ := ha
      exact ⟨cur, hk ▸ hcur⟩
    · exact ⟨vm, (Function.update_of_ne hk _ _).symm.trans hvm⟩
  · rw [effect_vms fun base obj vm' heq => hpatch ⟨base, obj, vm', heq⟩] at hvm
    exact ⟨vm, hvm⟩

/-- The others leave the operator's annotations, and do not take a deletion
back. -/
theorem Tenant.live {w w' : World} {H : NamespacedName → History} (ht : Tenant notOwn w w')
    (hs : Sound w H) (hvm : w.vms k = .live vm) (hvm' : w'.vms k = .live vm') :
    OwnEq vm' vm ∧ (vm.deleting = true → vm'.deleting = true) := by
  have same : w'.vms k = w.vms k → OwnEq vm' vm ∧ (vm.deleting = true → vm'.deleting = true) := by
    intro heq
    rw [hvm, hvm'] at heq
    cases heq
    exact ⟨fun _ _ => rfl, id⟩
  cases ht with
  | create new hf hn hu =>
    refine same (Function.update_of_ne ?_ _ _)
    rintro rfl
    rw [(hs.names _).mpr hn] at hvm
    cases hvm
  | edit j before after hb he =>
    rcases eq_or_ne k j with rfl | hk
    · simp only [World.setVM, Function.update_self] at hvm'
      cases hvm'
      rw [hvm] at hb
      cases hb
      exact ⟨fun a ha => he.annotations a fun hno => hno ha, he.deleting⟩
    · exact same (Function.update_of_ne hk _ _)
  | remove j old _ _ =>
    rcases eq_or_ne k j with rfl | hk
    · simp only [World.setVM, Function.update_self] at hvm'
      cases hvm'
    · exact same (Function.update_of_ne hk _ _)
  | clock now _ => exact same rfl
  | secrets s => exact same rfl
  | restart => exact same rfl
  | configs cfgs => exact same rfl
  | raas keys => exact same rfl

/-- The step is a patch of the VM by its worker. -/
structure PatchStep (rt : Runtime) (crash : Prop) (c : ClusterCfg) (act : ClusterAction)
    (k : NamespacedName) (base obj : VirtualMachine) (vm vm' : VirtualMachine) : Prop where
  action : act = .call k (.patchVM base obj) (.ok vm')
  patched : ∃ version, vm' = .patched version base obj vm
  permitted : Permitted rt crash k (c.hist k) (.patchVM base obj)
  copy : OwnEq base vm
  written : OwnEq vm' obj

/-- What a patch that succeeds does. -/
theorem patch_step {base obj : VirtualMachine} (h : (cluster rt d notOwn crash).Reach c)
    (hs : (cluster rt d notOwn crash).Step c (.call k (.patchVM base obj) (.ok vm')) c') :
    ∃ vm, c.world.vms k = .live vm ∧
      PatchStep rt crash c (.call k (.patchVM base obj) (.ok vm')) k base obj vm vm' ∧
      c'.world.vms k = settled vm' := by
  have hsound := ((contract rt d crash).keeps h).1
  cases hs with
  | @call w' _ _ next _ hth hx =>
    obtain ⟨⟨cur, version, hcur, -, rfl⟩, rfl⟩ := hx
    have hp := (contract rt d crash).permitted h hth
    have hown : OwnEq (.patched version base obj cur) obj := hsound.patch_own hp hcur
    have hkey := hsound.patch_key hp
    rw [hkey] at hcur
    refine ⟨cur, hcur, ⟨rfl, ⟨version, rfl⟩, hp, hsound.copy k base cur hp.1 hcur, hown⟩, ?_⟩
    show Function.update c.world.vms obj.key _ k = _
    rw [hkey, Function.update_self]

/-- **What a step does to a VM that stays**: nothing to the operator's annotations,
unless it is a patch by the VM's worker. -/
theorem step_live (h : (cluster rt d notOwn crash).Reach c)
    (hs : (cluster rt d notOwn crash).Step c act c') (hvm : c.world.vms k = .live vm)
    (hvm' : c'.world.vms k = .live vm') :
    (OwnEq vm' vm ∧ (vm.deleting = true → vm'.deleting = true)) ∨
      ∃ base obj, PatchStep rt crash c act k base obj vm vm' := by
  have same : c'.world.vms k = c.world.vms k →
      OwnEq vm' vm ∧ (vm.deleting = true → vm'.deleting = true) := by
    intro heq
    rw [hvm, hvm'] at heq
    cases heq
    exact ⟨fun _ _ => rfl, id⟩
  have hsound := ((contract rt d crash).keeps h).1
  have hs' := hs
  cases hs with
  | env ht => exact .inl (ht.live hsound hvm hvm')
  | start t _ => exact .inl (same rfl)
  | done t _ _ => exact .inl (same rfl)
  | stop t _ => exact .inl (same rfl)
  | @call w' t o next a hth hx =>
    obtain ⟨hans, rfl⟩ := hx
    have hp := (contract rt d crash).permitted h hth
    rcases eq_or_ne k t with rfl | hk
    · by_cases hpatch : ∃ base obj vm'', (⟨c.world, o, a⟩ : Made) =
          ⟨c.world, .patchVM base obj, .ok vm''⟩
      · obtain ⟨base, obj, vm'', heq⟩ := hpatch
        cases heq
        obtain ⟨cur, hcur, hpatch, hset⟩ := patch_step h hs'
        obtain rfl : vm = cur := Slot.live.inj (hvm.symm.trans hcur)
        obtain rfl := settled_eq_live (hset.symm.trans hvm')
        exact .inr ⟨base, obj, hpatch⟩
      · exact .inl (same (congrFun (effect_vms fun base obj vm'' heq =>
          hpatch ⟨base, obj, vm'', heq⟩) k))
    · exact .inl (same (hsound.effect_vms_of_ne hp hk))

/-- A name that a VM has had is kept. -/
theorem names_step {may : String → Prop} (hs : (cluster rt d may crash).Step c act c')
    (hk : k ∈ c.world.names) : k ∈ c'.world.names := by
  cases hs with
  | env ht =>
    cases ht with
    | create vm _ _ _ => exact List.mem_cons_of_mem _ hk
    | _ => exact hk
  | call _ _ hx =>
    obtain ⟨-, rfl⟩ := hx
    exact (effect_names ..).symm ▸ hk
  | _ => exact hk

/-- A VM that is there after a step was there before it, if its name was taken. -/
theorem live_before (h : (cluster rt d notOwn crash).Reach c)
    (hs : (cluster rt d notOwn crash).Step c act c') (hk : k ∈ c.world.names)
    (hvm : c'.world.vms k = .live vm) : ∃ vm, c.world.vms k = .live vm := by
  have hsound := ((contract rt d crash).keeps h).1
  cases hs with
  | env ht =>
    refine (ht.live_before hsound hvm).resolve_left fun hun => ?_
    exact absurd hk ((hsound.names k).mp hun)
  | call _ _ hx =>
    obtain ⟨hans, rfl⟩ := hx
    exact effect_live_before hans hvm
  | _ => exact ⟨vm, hvm⟩

end step

end SaltOperator
