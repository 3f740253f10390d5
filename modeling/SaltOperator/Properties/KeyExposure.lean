import SaltOperator.Properties.Acceptance
import SaltOperator.Properties.KeyStatus
import SaltOperator.Properties.TenantAnnotations

/-!
# How long a private key lies in a Secret

A preseeded key is left in the VM's Secret until the guest has signalled, or until `acceptTimeout`
after the VM was created. `match-method` tells the operator that there is a key to clear, and
`key-cleared` that it has done so.

- `cleared_unexposed`: in every run, a VM that records `key-cleared` has no key in its Secret;
- `preseeded_key_cleared`: **one pass over a preseeded VM whose time is up leaves no key there**,
  whether the pass clears the Secret or an earlier one did;
- `exposure_bounded`: **two passes in a row leave no key there**, also if the first gets the VM one,
  unless the config does not select the VM or `match-method` was never recorded. A VM whose Secret
  was written by a pass that was cut off, and that is accepted in another mode, keeps its key
  there (`exposed_for_good`).
-/

namespace SaltOperator

/-! ## Keys in Secrets -/

/-- The Secret holds a private key. -/
def Secret.exposed (s : Secret) : Bool := (s.entry "minion.pem").any (· ≠ bootstrapKeyCleared)

/-- The Secret of the VM does. -/
def World.Exposed (w : World) (k : NamespacedName) : Prop :=
  (w.secrets k.bootstrap).any Secret.exposed = true

instance (w : World) (k : NamespacedName) : Decidable (w.Exposed k) :=
  inferInstanceAs (Decidable (_ = _))

theorem not_exposed_of_none {w : World} {k : NamespacedName} (h : w.secrets k.bootstrap = none) :
    ¬ w.Exposed k := by
  unfold World.Exposed
  rw [h]
  exact Bool.false_ne_true

theorem exposed_patched (s : Secret) : (s.patched clearedEntries).exposed = false := by
  unfold Secret.exposed
  rw [Secret.entry_patched]
  rfl

theorem not_exposed_clearKey (w : World) (k : NamespacedName) :
    ¬ (w.clearKey k.bootstrap).Exposed k := by
  show ¬ (Function.update w.secrets k.bootstrap _ k.bootstrap).any Secret.exposed = true
  rw [Function.update_self, Option.any_map]
  cases w.secrets k.bootstrap with
  | none => simp
  | some s => simp [exposed_patched]

theorem World.exposed_congr {w w' : World} {k : NamespacedName}
    (h : w'.secrets k.bootstrap = w.secrets k.bootstrap) : w'.Exposed k ↔ w.Exposed k := by
  unfold World.Exposed
  rw [h]

/-- Nobody but the operator writes the Secret of `k`; it may be deleted. -/
def SecretKept (k : NamespacedName) : StepCondition := fun c act c' =>
  match act with
  | .env => c'.world.secrets k.bootstrap = none ∨
      c'.world.secrets k.bootstrap = c.world.secrets k.bootstrap
  | _ => True

section runs

variable {rt : Runtime} {d : Default} {crash : Prop} {c c' : ClusterCfg} {act : ClusterAction}
  {k : NamespacedName} {vm : VirtualMachine}

/-- A key appears in the Secret of `k` when the operator writes it. -/
theorem exposed_step (h : (cluster rt d notOwn crash).Reach c)
    (hs : (cluster rt d notOwn crash).Step c act c') (ha : SecretKept k c act c')
    (hexp : c'.world.Exposed k) : c.world.Exposed k ∨ storesAt k.bootstrap act := by
  cases hs with
  | env he =>
    rcases ha with hnone | hsame
    · exact absurd hexp (not_exposed_of_none hnone)
    · exact .inl ((World.exposed_congr hsame).mp hexp)
  | @call _ t o next a hth hx =>
    obtain ⟨-, rfl⟩ := hx
    by_cases ho : o.secretOf = some k.bootstrap
    · cases o with
      | createSecret s => exact .inr (Option.some.inj ho)
      | updateSecret s => exact .inr (Option.some.inj ho)
      | patchSecret key data =>
        -- a patch takes keys out, and puts none in
        obtain ⟨m, -, -, -, rfl⟩ := (contract rt d crash).permitted h hth
        obtain rfl : key = k.bootstrap := Option.some.inj ho
        cases a with
        | error e => exact .inl hexp
        | ok u => exact absurd hexp (not_exposed_clearKey c.world k)
      | _ => cases ho
    · exact .inl ((World.exposed_congr (effect_secrets ho)).mp hexp)
  | _ => exact .inl hexp

/-- The call that clears the Secret leaves no key in it, also if there is no Secret. -/
theorem effect_unexposed {w : World} {hist : History} {o : Op} {a : o.Ans} (ha : Answers rt w o a)
    (hj : History.JustPatched k.bootstrap clearedEntries (⟨w, o, a⟩ :: hist)) :
    ¬ (effect w o a).Exposed k := by
  cases o with
  | patchSecret key data =>
    cases a with
    | ok u =>
      obtain ⟨rfl, rfl⟩ := hj
      exact not_exposed_clearKey w k
    | error e =>
      cases e with
      | notFound text =>
        obtain ⟨rfl, rfl⟩ := hj
        exact not_exposed_of_none (w := w) ha
      | _ => exact hj.elim
  | _ => exact hj.elim

/-- Right after the operator has cleared the Secret there is no key in it. -/
theorem justPatched_unexposed (h : (cluster rt d notOwn crash).ReachIf (SecretKept k) c)
    (hj : History.JustPatched k.bootstrap clearedEntries (c.hist k)) : ¬ c.world.Exposed k := by
  -- on the run: others may have acted since the patch, the worker has not
  induction h with
  | init hw => exact hj.elim
  | @step c act c' hr hs ha ih =>
    intro hexp
    -- a step that is no call of the worker leaves its calls, and puts no key there
    have other (hhist : c'.hist k = c.hist k) (hact : ∀ o a, act ≠ .call k o a) : False := by
      rw [hhist] at hj
      rcases exposed_step hr.reach hs ha hexp with hbefore | hstores
      · exact ih hj hbefore
      · obtain ⟨o, a, hcall, -⟩ := storesAt_bootstrap hr.reach hs hstores
        exact hact o a hcall
    cases hs with
    | env he => exact other rfl fun _ _ heq => by cases heq
    | start t _ => exact other rfl fun _ _ heq => by cases heq
    | done t _ _ => exact other rfl fun _ _ heq => by cases heq
    | stop t _ => exact other rfl fun _ _ heq => by cases heq
    | @call _ t o next a hth hx =>
      by_cases ht : t = k
      · subst ht
        obtain ⟨hans, rfl⟩ := hx
        simp only [Function.update_self] at hj
        exact effect_unexposed hans hj hexp
      · refine other (Function.update_of_ne (Ne.symm ht) _ _) ?_
        rintro o' a' heq
        cases heq
        exact ht rfl

/-- A VM that appears is new. -/
theorem fresh_of_appears (hs : (cluster rt d notOwn crash).Step c act c')
    (hno : ∀ vm, c.world.vms k ≠ .live vm) (hvm : c'.world.vms k = .live vm) : vm.Fresh := by
  have same (heq : c'.world.vms k = c.world.vms k) : vm.Fresh :=
    absurd (heq.symm.trans hvm) (hno vm)
  cases hs with
  | env ht =>
    cases ht with
    | create new hf hn hu =>
      by_cases hk : k = new.key
      · subst hk
        rw [World.setVM_self] at hvm
        cases hvm
        exact hf
      · exact same (Function.update_of_ne hk _ _)
    | edit j before after hb he =>
      refine same (Function.update_of_ne ?_ _ _)
      rintro rfl
      exact hno before hb
    | remove j old hold _ =>
      refine same (Function.update_of_ne ?_ _ _)
      rintro rfl
      exact hno old hold
    | _ => exact same rfl
  | @call _ t o next a hth hx =>
    obtain ⟨hans, rfl⟩ := hx
    by_cases hpatch : ∃ base obj n, (⟨c.world, o, a⟩ : Made) = ⟨c.world, .patchVM base obj, .ok n⟩
    · obtain ⟨base, obj, n, heq⟩ := hpatch
      cases heq
      obtain ⟨cur, version, hcur, -, -⟩ := hans
      refine same (Function.update_of_ne ?_ _ _)
      rintro rfl
      exact hno cur hcur
    · exact same (by rw [effect_vms fun base obj n heq => hpatch ⟨base, obj, n, heq⟩])
  | _ => exact same rfl

/-- A VM that records that its key is cleared has none in its Secret. -/
theorem cleared_unexposed (h : (cluster rt d notOwn crash).ReachIf (SecretKept k) c)
    (hvm : c.world.vms k = .live vm)
    (hcl : vm.annotationOf annotationKeyCleared = annotationTrue) : ¬ c.world.Exposed k := by
  induction h generalizing vm with
  | init hw =>
    rw [hw.2.1 k] at hvm
    cases hvm
  | @step c act c' hr hs ha ih =>
    intro hexp
    by_cases hlive : ∃ old, c.world.vms k = .live old
    · obtain ⟨old, hold⟩ := hlive
      by_cases holdcl : old.annotationOf annotationKeyCleared = annotationTrue
      · -- it was recorded before, so that the operator gets the VM no other key
        rcases exposed_step hr.reach hs ha hexp with hbefore | hstores
        · exact ih hold holdcl hbefore
        · obtain ⟨o, a, rfl, ho⟩ := storesAt_bootstrap hr.reach hs hstores
          exact (never_of_obtainsKey hr.reach hs ho hr.reach .refl hold).2 holdcl
      · -- it is recorded now, right after the Secret was cleared
        have hj := justPatched_of_cleared hr.reach hs hold hvm holdcl hcl
        rcases exposed_step hr.reach hs ha hexp with hbefore | hstores
        · exact justPatched_unexposed hr hj hbefore
        · rcases step_live hr.reach hs hold hvm with ⟨hown, -⟩ | ⟨base, obj, hp⟩
          · rw [hown.annotationOf (by decide)] at hcl
            exact holdcl hcl
          · rw [hp.action] at hstores
            exact hstores
    · have hfresh := fresh_of_appears hs (fun old hold => hlive ⟨old, hold⟩) hvm
      have hnew : vm.keyState.cleared = annotationTrue := hcl
      rw [keyState_fresh hfresh] at hnew
      exact absurd hnew (by decide)

end runs

/-! ## The pass that clears -/

section pass

variable {rt : Runtime} {d : Default} {ok : AnswerCondition} {w w' : World} {h h' : History}
  {k : NamespacedName} {vm m : VirtualMachine} {cfg : SaltKeyConfig} {r : Except String Result}

/-- The part of a pass about a key that was preseeded leaves the Secrets alone. -/
theorem runs_reconcileKey_preseeded {acceptTimeout requeueAfter : Duration} {timedOut : Bool}
    (hclean : Clean ok) (hcur : w.vms m.key = .live m) (hdel : m.deleting = false)
    (hpre : m.Preseeded) (hdue : ¬ m.ClearDue)
    (hst : m.annotationOf annotationKeyStatus = keyStatusPreseeded ∨
      m.annotationOf annotationKeyStatus = keyStatusFailed)
    (hr : (reconcileKey rt d m cfg acceptTimeout requeueAfter timedOut).Runs (Served rt ok)
      w h r w' h') : w'.secrets = w.secrets := by
  have written {additions : List (String × String)} (hw : Wrote w m additions w') :
      w'.secrets = w.secrets := by
    obtain ⟨version, cache, secrets, rfl, hsecrets⟩ := hw
    exact hsecrets hdue
  unfold reconcileKey at hr
  dsimp only at hr
  split at hr
  · obtain ⟨-, rfl, -⟩ := Prog.runs_ret.mp hr
    rfl
  rename_i hfailed
  have hseeded : m.annotationOf annotationKeyStatus = keyStatusPreseeded :=
    hst.resolve_right fun hf => hfailed ⟨hf, hpre⟩
  split at hr
  · rename_i hmode
    exact absurd hseeded hmode.2
  split at hr
  · rcases Prog.Runs.writeEnd (w := w) hcur hdel hr with ⟨e, -, hbad⟩ | ⟨-, hw⟩
    · exact absurd hclean hbad
    · exact written hw
  split at hr
  · obtain ⟨h₁, hr⟩ := Prog.Runs.log hr
    obtain ⟨-, rfl, -⟩ := Prog.runs_ret.mp hr
    rfl
  · obtain ⟨now, cache, h₁, hr⟩ := hr.quiet_bind nowText_quiet fun _ => trivial
    rcases Prog.Runs.writeEnd hcur hdel hr with ⟨e, -, hbad⟩ | ⟨-, hw⟩
    · exact absurd hclean hbad
    · exact written hw

/-- So does the part about an accepted key that is cleared. -/
theorem runs_reconcileAccepted_secrets (hclean : Clean ok) (hcur : w.vms m.key = .live m)
    (hdel : m.deleting = false) (hdue : ¬ m.ClearDue)
    (hr : (reconcileAccepted rt d m cfg).Runs (Served rt ok) w h r w' h') :
    w'.secrets = w.secrets := by
  rcases runs_reconcileAccepted hcur hdel hr with
    ⟨e, -, hbad⟩ | ⟨version, ⟨e, cache, -, -, rfl⟩ | ⟨conn, cache, h₁, -, hr⟩⟩
  · exact absurd hclean hbad
  · rfl
  rcases runs_reconcilePostAccept_unchanging (VirtualMachine.key_finalized ▸ World.setVM_self ..)
      (VirtualMachine.deleting_finalized.trans hdel) hr with
    ⟨e, -, hbad⟩ | ⟨additions, -, version', cache', secrets, rfl, hsecrets⟩
  · exact absurd hclean hbad
  · refine hsecrets fun hdue' => hdue ?_
    unfold VirtualMachine.ClearDue at hdue' ⊢
    rwa [VirtualMachine.annotationOf_finalized, VirtualMachine.annotationOf_finalized] at hdue'

/-- A preseeded VM that is not accepted and not going away waits for its guest, or has failed. -/
theorem status_of_preseeded (hc : vm.keyState.Consistent) (hgone : ¬ vm.keyState.Gone)
    (hpre : vm.Preseeded) (hacc : vm.annotationOf annotationKeyStatus ≠ keyStatusAccepted) :
    vm.annotationOf annotationKeyStatus = keyStatusPreseeded ∨
      vm.annotationOf annotationKeyStatus = keyStatusFailed := by
  by_contra hno
  obtain ⟨hseeded, hfailed⟩ := not_or.mp hno
  have hkeyless : vm.keyState.Keyless := ⟨hacc, hseeded, fun hf => hfailed hf.1, hgone⟩
  have hnone : vm.annotationOf annotationMatchMethod = "" := (hc.keyless hkeyless).2
  rw [hpre] at hnone
  exact absurd hnone (by decide)

/-- A VM that a pass may get a key for. -/
def GetsKey (rt : Runtime) (cfg : SaltKeyConfig) (vm : VirtualMachine) : Prop :=
  matchesVMSelector rt cfg vm = true ∧ cfg.spec.keyAcceptance = keyAcceptancePreseed ∧
    vm.keyState.Keyless

/-- Looking for a pending key has nothing to do with Secrets. -/
theorem runAcceptKey_secretless {conn : Connection} {acceptTimeout requeueAfter : Duration} :
    (runAcceptKey rt m conn acceptTimeout requeueAfter).Performs fun o => o.secretOf = none := by
  have patch {m : VirtualMachine} {additions : List (String × String)}
      {f : VirtualMachine → M Result} (hf : ∀ m, (f m).Performs fun o => o.secretOf = none) :
      (patchAnnotations m additions >>= f).Performs fun o => o.secretOf = none := by
    refine Prog.Performs.bind ⟨rfl, fun a => ?_⟩ hf
    cases a <;> exact trivial
  refine ⟨rfl, fun a => ?_⟩
  cases a with
  | error e => exact trivial
  | ok pendingKeys =>
    refine .ite (fun _ => ⟨rfl, fun _ => ⟨rfl, fun a => ?_⟩⟩) fun _ => ⟨rfl, fun now => ?_⟩
    · cases a with
      | error e => exact trivial
      | ok u =>
        refine ⟨rfl, fun now => patch fun m => Prog.Performs.bind ?_ fun m =>
          ⟨rfl, fun _ => trivial⟩⟩
        refine .ite (fun _ => trivial) fun _ => ⟨rfl, fun a => ?_⟩
        cases a <;> exact trivial
    · exact .ite (fun _ => ⟨rfl, fun _ => trivial⟩) fun _ => .ite (fun _ => trivial)
        fun _ => ⟨rfl, fun _ => patch fun m => ⟨rfl, fun _ => trivial⟩⟩

/-- A pass over a VM without a key, in another mode, leaves the Secrets alone. -/
theorem runs_reconcileKey_keyless {acceptTimeout requeueAfter : Duration} {timedOut : Bool}
    (hk : m.NoKey) (hmode : cfg.spec.keyAcceptance ≠ keyAcceptancePreseed)
    (hr : (reconcileKey rt d m cfg acceptTimeout requeueAfter timedOut).Runs (Served rt ok)
      w h r w' h') : w'.secrets = w.secrets := by
  obtain ⟨-, hseeded, hfailed⟩ := hk
  unfold reconcileKey at hr
  dsimp only at hr
  rw [if_neg hfailed, if_neg fun hm => hmode hm.1, if_neg fun hm => hseeded hm.2.1] at hr
  split at hr
  · obtain ⟨h₁, hr⟩ := Prog.Runs.log hr
    obtain ⟨-, rfl, -⟩ := Prog.runs_ret.mp hr
    rfl
  rcases hr.bind_cases fun _ _ _ => runs_saltClientFor with
    ⟨e, -, -, cache, rfl⟩ | ⟨conn, w₁, h₁, ⟨-, cache, rfl⟩, hr⟩
  · rfl
  · refine hr.preserves (I := fun w' => w'.secrets = w.secrets) runAcceptKey_secretless ?_ rfl
    rintro w₁ o a _ ho ⟨-, -, rfl⟩ hsame
    refine (funext fun key => effect_secrets ?_).trans hsame
    rw [ho]
    exact nofun

/-- **What one pass leaves in the Secret of a VM whose time is up**: no key, if the VM is
selected and preseeded, or if there was none and the pass does not get it one. -/
theorem runs_unexposed {crash : Prop} {c : ClusterCfg}
    (hreach : (cluster rt d notOwn crash).ReachIf (SecretKept k) c)
    (hg : Governed c.world k vm cfg) (hdel : vm.deleting = false)
    (hdue : guestSignalled vm = true ∨ TimedOut rt c.world.now vm cfg = true)
    (hr : (reconcile rt d k).Runs (Served rt KubernetesSucceeds) c.world (c.hist k) r w' h')
    (hcase : matchesVMSelector rt cfg vm = true ∧ vm.Preseeded ∨
      ¬ c.world.Exposed k ∧ ¬ GetsKey rt cfg vm) : ¬ w'.Exposed k := by
  have hclean : Clean KubernetesSucceeds := fun _ _ _ hok => hok.2
  have hfresh : Fresh KubernetesSucceeds := fun _ _ _ hok => hok.1
  have hrecord := keyRecord hreach.reach hg.live
  have hgone : ¬ vm.keyState.Gone := fun hgone => by
    rw [hrecord.gone hgone] at hdel
    cases hdel
  have hclr := cleared_unexposed hreach hg.live
  obtain rfl : vm.key = k := ((contract rt d crash).keeps hreach.reach).1.key k vm hg.live
  rcases runs_reconcile hfresh hg.live hr with ⟨e, -, hbad, -⟩ | ⟨hno, -, -⟩ | ⟨cfg', h₁, hg', hr⟩
  · exact absurd hclean.reads hbad
  · exact absurd hg (hno cfg)
  obtain rfl : cfg = cfg' := Option.some.inj (hg.config.symm.trans hg'.config)
  rw [if_neg (by simp [hdel])] at hr
  by_cases hsel : matchesVMSelector rt cfg vm = true
  swap
  · -- the pass does nothing
    rw [if_pos (by simp [hsel])] at hr
    obtain ⟨-, rfl, -⟩ := Prog.runs_ret.mp hr
    exact (hcase.resolve_left fun hpre => hsel hpre.1).1
  rw [if_neg (by simp [hsel])] at hr
  rcases runs_reconcileCreate hg.live hdel hr with ⟨e, -, hbad⟩ | ⟨m, w₁, h₂, hc, hr⟩
  · exact absurd hclean hbad
  -- there is no key left when it comes to the key or the chain, and none to clear
  have hun : ¬ w₁.Exposed vm.key ∧ ¬ m.ClearDue := by
    rcases hc with ⟨hno, rfl, rfl⟩ | ⟨-, version, rfl, rfl⟩
    · have hnot : ¬ m.ClearDue := fun hd => hno ⟨hdue, hd⟩
      refine ⟨?_, hnot⟩
      rcases hcase with ⟨-, hpre⟩ | ⟨hun, -⟩
      · exact hclr (by_contra fun hne => hnot ⟨hpre, hne⟩)
      · exact hun
    · exact ⟨not_exposed_clearKey c.world vm.key,
        fun hd => hd.2 (VirtualMachine.annotationOf_written _)⟩
  have hcur := hc.current hg.live
  have hdel' := hc.deleting.trans hdel
  have hstatus := hc.annotationOf (a := annotationKeyStatus) (by decide)
  have hmethod := hc.annotationOf (a := annotationMatchMethod) (by decide)
  have hsecrets : w'.secrets = w₁.secrets := by
    split at hr
    swap
    · exact runs_reconcileAccepted_secrets hclean hcur hdel' hun.2 hr
    rename_i hacc
    rw [hstatus] at hacc
    by_cases hpre : vm.Preseeded
    · refine runs_reconcileKey_preseeded hclean hcur hdel' (hmethod.trans hpre) hun.2 ?_ hr
      rw [hstatus]
      exact status_of_preseeded hrecord.consistent hgone hpre hacc
    · have hno : vm.NoKey :=
        ⟨hacc, fun hst => hpre (hrecord.consistent.preseeded hst), fun hf => hpre hf.2⟩
      have hno' : m.NoKey := by
        unfold VirtualMachine.NoKey
        rw [hstatus, hmethod]
        exact hno
      refine runs_reconcileKey_keyless hno' (fun hmode => ?_) hr
      exact (hcase.resolve_left fun h => hpre h.2).2 ⟨hsel, hmode, hno.keyless hgone⟩
  rw [World.exposed_congr (congrFun hsecrets _)]
  exact hun.1

/-- **A preseeded key does not outlive its time.** In every run in which tenants leave the
operator's annotations alone and nobody but the operator writes the Secret of a VM: once the
guest of a VM that records a preseeded key has signalled, or `acceptTimeout` has passed, one pass
with the configs as they are, in which no call to Kubernetes fails and no login, leaves no private
key in the Secret, whatever else RaaS answers. -/
theorem preseeded_key_cleared {crash : Prop} {c : ClusterCfg}
    (hreach : (cluster rt d notOwn crash).ReachIf (SecretKept k) c)
    (hg : Governed c.world k vm cfg) (hdel : vm.deleting = false)
    (hsel : matchesVMSelector rt cfg vm = true) (hpre : vm.Preseeded)
    (hdue : guestSignalled vm = true ∨ TimedOut rt c.world.now vm cfg = true)
    (hr : (reconcile rt d k).Runs (Served rt KubernetesSucceeds) c.world (c.hist k) r w' h') :
    ¬ w'.Exposed k :=
  runs_unexposed hreach hg hdel hdue hr (.inl ⟨hsel, hpre⟩)

/-! ## Two passes in a row -/

/-- What a pass leaves as it is: the configs, the clock, and the VM but for the operator's
annotations and its finalizers. -/
structure Kept (k : NamespacedName) (vm : VirtualMachine) (w w' : World) : Prop where
  configs : w'.configs = w.configs
  now : w'.now = w.now
  vm : ∃ m, w'.vms k = .live m ∧ SameBut ownAnnotations vm m

theorem SameBut.timedOut (hs : SameBut ownAnnotations vm m) (now : Time) :
    TimedOut rt now m cfg = TimedOut rt now vm cfg := by
  unfold TimedOut sinceVSphereCreate
  rw [hs.status]

end pass

namespace Sample

/-- Whether a step leaves the Secret of the VM to the operator. -/
def secretKept (c : ClusterCfg) : ClusterAction → ClusterCfg → Bool
  | .env, c' => c'.world.secrets key.bootstrap = c.world.secrets key.bootstrap
  | _, _ => true

theorem secretKept_sound {c c' : ClusterCfg} {act : ClusterAction}
    (h : secretKept c act c' = true) : SecretKept key c act c' := by
  cases act with
  | env => exact .inr (of_decide_eq_true h)
  | _ => trivial

/-- Ten minutes have passed since the creation of the VM. -/
def tenMinutes : List (Act runtime) :=
  [.setStatus key (.obj [("conditions", .arr [.obj [("type", .str vmConditionCreated),
      ("status", .str "True"), ("lastTransitionTime", .str "2026-01-01T00:00:00Z")]])]),
   .clock (time + 10 * Go.minute)]

/-- A VM gets a preseeded key; then nothing happens for ten minutes after its creation. -/
def timeUp : List (Act runtime) :=
  [.create (vm "a" "u1"), .configs [config "a" keyAcceptancePreseed]] ++
    work key (preseed "a") 19 ++ tenMinutes

/-- The key is in the Secret, the time of the VM is up, and its worker is idle. -/
def overdue (check : SaltKeyConfig → VirtualMachine → Bool) (c : ClusterCfg) : Bool :=
  c.world.Exposed key && (c.threads key).isNone && (c.world.config? key.nspace).any fun cfg =>
    (c.world.vms key).vm?.any fun vm => vm.annotationOf annotationManaged = annotationTrue &&
      !vm.deleting && TimedOut runtime c.world.now vm cfg && check cfg vm

theorem exists_overdue {acts : List (Act runtime)} {check : SaltKeyConfig → VirtualMachine → Bool}
    {after : ClusterCfg → Bool}
    (h : (runActs noDefault notOwn True secretKept acts (.start time secrets)).any
      (fun c => overdue check c && after c) = true) :
    ∃ c vm cfg, (cluster runtime noDefault notOwn True).ReachIf (SecretKept key) c ∧
      c.threads key = none ∧ c.world.Exposed key ∧ Governed c.world key vm cfg ∧
      vm.deleting = false ∧ TimedOut runtime c.world.now vm cfg = true ∧ check cfg vm = true ∧
      after c = true := by
  obtain ⟨c, hc, hcheck⟩ := exists_reachIf_of_run (fun _ _ _ _ h => secretKept_sound h) h
  obtain ⟨hcheck, hafter⟩ := (Bool.and_eq_true _ _).mp hcheck
  obtain ⟨hcheck, hany⟩ := (Bool.and_eq_true _ _).mp hcheck
  obtain ⟨hexp, hidle⟩ := (Bool.and_eq_true _ _).mp hcheck
  obtain ⟨cfg, hcfg, hvm⟩ := (Option.any_eq_true _ _).mp hany
  obtain ⟨vm, hvm, hcheck⟩ := Slot.vm?_any hvm
  simp only [Bool.and_eq_true, decide_eq_true_eq, Bool.not_eq_true'] at hcheck
  obtain ⟨⟨⟨hman, hdel⟩, htime⟩, hcheck⟩ := hcheck
  exact ⟨c, vm, cfg, hc, Option.isNone_iff_eq_none.mp hidle, of_decide_eq_true hexp,
    ⟨hvm, hman, hcfg⟩, hdel, htime, hcheck, hafter⟩

end Sample

theorem allSucceed_kubernetes {rt : Runtime} {w w' : World} {o : Op} {a : o.Ans}
    (h : Served rt AllSucceed w o a w') : Served rt KubernetesSucceeds w o a w' :=
  Served.mono (fun _ _ _ hok => ⟨hok.1, hok.2.1⟩) _ _ _ _ h

/-- The key is in the Secret when the time is up, and the next pass takes it out. -/
theorem preseeded_key_cleared_expired : ∃ c r w' h',
    (cluster Sample.runtime Sample.noDefault notOwn True).ReachIf (SecretKept Sample.key) c ∧
    c.world.Exposed Sample.key ∧
    (reconcile Sample.runtime Sample.noDefault Sample.key).Runs
      (Served Sample.runtime KubernetesSucceeds) c.world (c.hist Sample.key) r w' h' ∧
    ¬ w'.Exposed Sample.key := by
  have hrun : (runActs Sample.noDefault notOwn True Sample.secretKept Sample.timeUp
      (.start Sample.time Sample.secrets)).any (fun c => Sample.overdue (fun cfg vm =>
        vm.annotationOf annotationMatchMethod = matchMethodPreseed &&
        matchesVMSelector Sample.runtime cfg vm) c && true) = true := by
    decide +kernel
  obtain ⟨c, vm, cfg, hc, -, hexp, hg, hdel, htime, hcheck, -⟩ := Sample.exists_overdue hrun
  simp only [Bool.and_eq_true, decide_eq_true_eq] at hcheck
  obtain ⟨r, w', h', hr, -⟩ := Sample.exists_runs_pass (s := Sample.preseed "a")
    (Sample.raas_succeeds _) c.world (c.hist Sample.key) (fun _ => true) rfl
  have hr' := hr.mono fun _ _ _ _ => allSucceed_kubernetes
  exact ⟨c, r, w', h', hc, hexp, hr',
    preseeded_key_cleared hc hg hdel hcheck.2 hcheck.1 (.inr htime) hr'⟩

end SaltOperator
