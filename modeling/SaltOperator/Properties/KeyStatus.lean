import SaltOperator.Cluster.KeyState
import SaltOperator.Cluster.Run

/-!
# Keys are obtained once

Two properties of the record a VM keeps of its key, over every run with any mode
switches, edits, failures and crashes:

- `keyStatus_automaton`: `key-status` follows its automaton, a minion ID and a
  match method are recorded once and for all, and a key is accepted or generated
  only for a VM that never had one, each in its own mode;
- `cleared_stays_cleared`: once a private key is cleared no other takes its place.
-/

namespace SaltOperator

variable {rt : Runtime} {d : Default} {crash : Prop} {c c' : ClusterCfg} {act : ClusterAction}
  {k : NamespacedName} {vm vm' : VirtualMachine}

/-! ## The automaton -/

/-- A step of the cluster is a step of the automaton for every VM that stays. -/
theorem step_keyState (h : (cluster rt d notOwn crash).Reach c)
    (hs : (cluster rt d notOwn crash).Step c act c') (hvm : c.world.vms k = .live vm)
    (hvm' : c'.world.vms k = .live vm') :
    KeyState.Step (vm'.deleting = true) vm.keyState vm'.keyState := by
  have hr := keyRecord h hvm
  rcases step_live h hs hvm hvm' with ⟨hown, -⟩ | ⟨base, obj, hp⟩
  · rw [hown.keyState]
    exact .other
  · have hstep := hp.permitted.keyStep (hr.log.creating base hp.permitted.1)
    rw [hp.copy.keyState, ← hp.written.keyState] at hstep
    -- the object the pass works on was being deleted, so the VM still is
    refine hstep.imp fun ⟨pv, cfg, hi, hpv⟩ => ?_
    obtain ⟨version, rfl⟩ := hp.patched
    exact hr.deleting pv (passInputs_mem_served hi) hpv

/-- What was recorded of a VM before is among what its worker was sent. -/
theorem served_of_earlier {c₀ : ClusterCfg} (h₀ : (cluster rt d notOwn crash).Reach c₀)
    (hs : (cluster rt d notOwn crash).Steps c₀ c) (hvm : c₀.world.vms k = .live vm)
    (hne : vm.keyState ≠ .new) :
    ∃ m ∈ History.served (c.hist k), m.keyState = vm.keyState := by
  obtain ⟨m, hm, heq⟩ := exists_served_keyState h₀ hvm hne
  exact ⟨m, ((hs.hist_suffix k).sublist.filterMap _).subset hm, heq⟩

/-- What a VM records of its key is there for good. -/
theorem keyState_later {c₀ : ClusterCfg} {vm₀ : VirtualMachine}
    (h₀ : (cluster rt d notOwn crash).Reach c₀) (hs : (cluster rt d notOwn crash).Steps c₀ c)
    (hvm₀ : c₀.world.vms k = .live vm₀) (hvm : c.world.vms k = .live vm) :
    vm₀.keyState.Later vm.keyState := by
  have h := hs.reach h₀
  by_cases hnew : vm₀.keyState = .new
  · rw [hnew]
    refine ⟨fun hne => absurd rfl hne, fun hne => absurd rfl hne, ?_⟩
    rintro (h | h | h) <;> exact absurd h (by decide)
  · obtain ⟨m, hm, heq⟩ := served_of_earlier h₀ hs hvm₀ hnew
    obtain ⟨last, hlast⟩ := exists_lastVM hm
    have hcopy := ((contract rt d crash).keeps h).1.copy k last vm hlast hvm
    rw [← heq, ← hcopy.keyState]
    exact (keyLog h k).later m hm last hlast

/-- A call that gets a key is made for a VM that never had one. -/
theorem never_of_obtainsKey {o : Op} {a : o.Ans} (h : (cluster rt d notOwn crash).Reach c)
    (hs : (cluster rt d notOwn crash).Step c (.call k o a) c') (ho : o.obtainsKey = true)
    {c₀ : ClusterCfg} (h₀ : (cluster rt d notOwn crash).Reach c₀)
    (hs₀ : (cluster rt d notOwn crash).Steps c₀ c) (hvm : c₀.world.vms k = .live vm) :
    vm.keyState.status ≠ keyStatusAccepted ∧ vm.keyState.cleared ≠ annotationTrue := by
  cases hs with
  | call _ hth _ =>
    have hp := (contract rt d crash).permitted h hth
    obtain ⟨m, hm, hk⟩ := keyless_of_obtainsKey (keyLog h k) hp ho
    by_cases hnew : vm.keyState = .new
    · rw [hnew]
      decide
    · obtain ⟨m', hm', heq⟩ := served_of_earlier h₀ hs₀ hvm hnew
      obtain ⟨-, -, hcleared, hacc⟩ := (keyLog h k).keyless hm hk hm'
      rw [heq] at hcleared hacc
      exact ⟨hacc, hcleared⟩

/-- The VM `k` has not been accepted at any time up to `c`. -/
def NeverAccepted (rt : Runtime) (d : Default) (crash : Prop) (c : ClusterCfg)
    (k : NamespacedName) : Prop :=
  ∀ c₀ vm, (cluster rt d notOwn crash).Reach c₀ → (cluster rt d notOwn crash).Steps c₀ c →
    c₀.world.vms k = .live vm → vm.annotationOf annotationKeyStatus ≠ keyStatusAccepted

/-- **The automaton of `key-status`.** In every run, with any switches of the mode,
edits of others' annotations, answers of RaaS, failures and crashes: a minion ID and
a match method never change; `key-status` moves along its automaton; and a key is
accepted only under a config that discovers keys, generated only under one that
preseeds them, and neither for a VM that was accepted before. -/
theorem keyStatus_automaton (h : (cluster rt d notOwn crash).Reach c) :
    (∀ act c' k vm vm', (cluster rt d notOwn crash).Step c act c' →
      c.world.vms k = .live vm → c'.world.vms k = .live vm' →
      (vm.annotationOf annotationMinionID ≠ "" →
        vm'.annotationOf annotationMinionID = vm.annotationOf annotationMinionID) ∧
      (vm.annotationOf annotationMatchMethod ≠ "" →
        vm'.annotationOf annotationMatchMethod = vm.annotationOf annotationMatchMethod) ∧
      vm.keyState.Moves (vm'.deleting = true) vm'.keyState) ∧
    (∀ k conn minionID a c',
      (cluster rt d notOwn crash).Step c (.call k (.salt conn (.acceptKey minionID)) a) c' →
      NeverAccepted rt d crash c k ∧
      ∃ vm cfg, History.passInputs (c.hist k) = some (vm, cfg) ∧
        cfg.spec.keyAcceptance ≠ keyAcceptancePreseed) ∧
    (∀ k conn minionID force a c',
      (cluster rt d notOwn crash).Step c
        (.call k (.salt conn (.genAcceptKey minionID force)) a) c' →
      NeverAccepted rt d crash c k ∧
      ∃ vm cfg, History.passInputs (c.hist k) = some (vm, cfg) ∧
        cfg.spec.keyAcceptance = keyAcceptancePreseed) := by
  refine ⟨fun act c' k vm vm' hs hvm hvm' => ?_, fun k conn id a c' hs => ?_,
    fun k conn id force a c' hs => ?_⟩
  · have hcons := (keyRecord h hvm).consistent
    have hstep := step_keyState h hs hvm hvm'
    have hlater := hstep.later hcons
    exact ⟨hlater.minionID, hlater.method, hstep.moves hcons⟩
  · refine ⟨fun c₀ vm h₀ hs₀ hvm => (never_of_obtainsKey h hs rfl h₀ hs₀ hvm).1, ?_⟩
    cases hs with
    | call _ hth _ =>
      obtain ⟨m, -, hd⟩ := (contract rt d crash).permitted h hth
      obtain ⟨cfg, ⟨vm, hi, -⟩, hmode⟩ := hd.mode
      exact ⟨vm, cfg, hi, hmode⟩
  · refine ⟨fun c₀ vm h₀ hs₀ hvm => (never_of_obtainsKey h hs rfl h₀ hs₀ hvm).1, ?_⟩
    cases hs with
    | call _ hth _ =>
      obtain ⟨m, -, -, hpre⟩ := (contract rt d crash).permitted h hth
      obtain ⟨cfg, ⟨vm, hi, -⟩, hmode⟩ := hpre.mode
      exact ⟨vm, cfg, hi, hmode⟩

/-- A VM comes to the generation of its key, under a config that preseeds keys. -/
theorem keyStatus_automaton_preseed :
    ∃ (c : ClusterCfg) (conn : Connection) (next : _) (c' : ClusterCfg),
      (cluster Sample.runtime Sample.noDefault notOwn True).Reach c ∧
      c.threads Sample.key = some (.call (.salt conn (.genAcceptKey "web" false)) next) ∧
      (cluster Sample.runtime Sample.noDefault notOwn True).Step c
        (.call Sample.key (.salt conn (.genAcceptKey "web" false)) (.ok none)) c' ∧
      NeverAccepted Sample.runtime Sample.noDefault True c Sample.key := by
  have hrun : (Sample.play ([.create (Sample.vm "a" "u1")] ++
      work Sample.key (Sample.preseed "a") 11)).any (fun c =>
      (c.pendingSalt Sample.key).any fun p => p.2 = .genAcceptKey "web" false) = true := by
    decide +kernel
  obtain ⟨c, hr, hc⟩ := Sample.exists_reach hrun
  obtain ⟨conn, call, next, hth, hcall⟩ := ClusterCfg.pendingSalt_any hc
  obtain rfl : call = .genAcceptKey "web" false := by simpa using hcall
  have hstep : (cluster Sample.runtime Sample.noDefault notOwn True).Step c
      (.call Sample.key (.salt conn (.genAcceptKey "web" false)) (.ok none)) _ :=
    .call Sample.key hth ⟨trivial, rfl⟩
  exact ⟨c, conn, next, _, hr, hth, hstep,
    ((keyStatus_automaton hr).2.2 Sample.key conn "web" false (.ok none) _ hstep).1⟩

/-! ## Cleared keys -/

/-- Only `clearPreseedKey` writes the marker. -/
theorem Write.justPatched {h : History} {m : VirtualMachine} {additions : List (String × String)}
    (hw : Write rt h m additions) (hno : m.annotationOf annotationKeyCleared ≠ annotationTrue)
    (hyes : (m.withAnnotations additions).annotationOf annotationKeyCleared = annotationTrue) :
    h.JustPatched m.bootstrapKey clearedEntries := by
  rw [VirtualMachine.annotationOf_withAnnotations] at hyes
  cases hw with
  | keyCleared _ hj => exact hj
  | reset vm cfg =>
    rw [lookup_append_handled _ (by decide) (by decide)] at hyes
    exact absurd hyes hno
  | restart vm cfg =>
    rw [lookup_append_handled _ (by decide) (by decide)] at hyes
    exact absurd hyes hno
  | day2RefreshFailed seen cfg =>
    rw [lookup_withMarkers _ (by decide) (by decide) (by decide)] at hyes
    exact absurd hyes hno
  | day2DispatchFailed seen cfg =>
    rw [lookup_withMarkers _ (by decide) (by decide) (by decide)] at hyes
    exact absurd hyes hno
  | day2Dispatched seen cfg jid =>
    rw [lookup_withMarkers _ (by decide) (by decide) (by decide)] at hyes
    exact absurd hyes hno
  | _ => exact absurd hyes hno

theorem bootstrapKey_eq {m : VirtualMachine} (h : m.key = k) : m.bootstrapKey = k.bootstrap := by
  subst h
  rfl

/-- The operator writes a Secret with a key pair under this name. -/
def storesAt (key : NamespacedName) : ClusterAction → Prop
  | .call _ (.createSecret s) _ => ⟨s.nspace, s.name⟩ = key
  | .call _ (.updateSecret s) _ => ⟨s.nspace, s.name⟩ = key
  | _ => False

/-- The operator clears the Secret under this name. -/
def clearsAt (key : NamespacedName) : ClusterAction → Prop
  | .call _ (.patchSecret key' _) _ => key' = key
  | _ => False

/-- The operator has a key generated for the VM. -/
def generatesFor (k : NamespacedName) : ClusterAction → Prop
  | .call t (.salt _ (.genAcceptKey _ _)) _ => t = k
  | _ => False

/-- A worker writes no Secret but that of its own VM. -/
theorem storesAt_bootstrap (h : (cluster rt d notOwn crash).Reach c)
    (hs : (cluster rt d notOwn crash).Step c act c') (ha : storesAt k.bootstrap act) :
    ∃ o a, act = .call k o a ∧ o.obtainsKey = true := by
  have hsound := ((contract rt d crash).keeps h).1
  have own : ∀ t s, StoresKey (c.hist t) s → (⟨s.nspace, s.name⟩ : NamespacedName) = k.bootstrap →
      t = k := by
    rintro t s ⟨m, conn, pair, masterPub, hm, -, -, rfl⟩ hkey
    refine NamespacedName.bootstrap_injective (Eq.trans ?_ hkey)
    rw [← hsound.servedKey t m (lastVM_mem_served hm)]
    rfl
  cases hs with
  | @call _ t o next a hth hx =>
    have hp := (contract rt d crash).permitted h hth
    cases o with
    | createSecret s =>
      obtain rfl := own t s hp ha
      exact ⟨_, _, rfl, rfl⟩
    | updateSecret s =>
      obtain rfl := own t s hp ha
      exact ⟨_, _, rfl, rfl⟩
    | _ => exact ha.elim
  | _ => exact ha.elim

/-- A worker clears no Secret but that of its own VM, whose key it has had
generated. -/
theorem clearsAt_bootstrap (h : (cluster rt d notOwn crash).Reach c)
    (hs : (cluster rt d notOwn crash).Step c act c') (ha : clearsAt k.bootstrap act) :
    ∃ m, History.lastVM (c.hist k) = some m ∧ m.keyState.method = matchMethodPreseed := by
  have hsound := ((contract rt d crash).keeps h).1
  cases hs with
  | @call _ t o next a hth hx =>
    have hp := (contract rt d crash).permitted h hth
    cases o with
    | patchSecret key data =>
      obtain ⟨m, hm, hpre, hkey, -⟩ := hp
      have hown := bootstrapKey_eq (hsound.servedKey t m (lastVM_mem_served hm))
      obtain rfl : t = k :=
        NamespacedName.bootstrap_injective (hown.symm.trans (hkey.symm.trans ha))
      exact ⟨m, hm, hpre⟩
    | _ => exact ha.elim
  | _ => exact ha.elim

/-- The marker is written after the entries were replaced, or the Secret was
found to be gone. -/
theorem justPatched_of_cleared (h : (cluster rt d notOwn crash).Reach c)
    (hs : (cluster rt d notOwn crash).Step c act c') (hvm : c.world.vms k = .live vm)
    (hvm' : c'.world.vms k = .live vm')
    (hno : vm.annotationOf annotationKeyCleared ≠ annotationTrue)
    (hyes : vm'.annotationOf annotationKeyCleared = annotationTrue) :
    History.JustPatched k.bootstrap clearedEntries (c.hist k) := by
  have hsound := ((contract rt d crash).keeps h).1
  have hcleared : annotationKeyCleared ∈ ownAnnotations := by decide
  rcases step_live h hs hvm hvm' with ⟨hown, -⟩ | ⟨base, obj, hp⟩
  · rw [hown.annotationOf hcleared] at hyes
    exact absurd hyes hno
  · rw [hp.written.annotationOf hcleared] at hyes
    rw [← hp.copy.annotationOf hcleared] at hno
    have hkey := hsound.servedKey k base (lastVM_mem_served hp.permitted.1)
    obtain ⟨-, ⟨additions, rfl, hw⟩ | hf, -⟩ := hp.permitted
    · rw [← bootstrapKey_eq hkey]
      exact hw.justPatched hno hyes
    · rw [hf.ownEq.annotationOf hcleared] at hyes
      exact absurd hyes hno

/-- The last call of the worker of `k` replaced the key in the VM's Secret, or was
told that the Secret is gone. -/
def ClusterCfg.ClearedBefore (c : ClusterCfg) (k : NamespacedName) : Prop :=
  ∃ w a rest, c.hist k = ⟨w, .patchSecret k.bootstrap clearedEntries, a⟩ :: rest ∧
    (a = .ok () ∨ w.secrets k.bootstrap = none)

theorem clearedBefore_of_justPatched (h : (cluster rt d notOwn crash).Reach c)
    (hj : History.JustPatched k.bootstrap clearedEntries (c.hist k)) : c.ClearedBefore k := by
  have hans := fun m (hm : m ∈ c.hist k) => answered h hm
  unfold ClusterCfg.ClearedBefore
  generalize c.hist k = hist at hj hans
  match hist, hj, hans with
  | ⟨w, .patchSecret _ _, .ok ()⟩ :: rest, ⟨rfl, rfl⟩, _ => exact ⟨w, .ok (), rest, rfl, .inl rfl⟩
  | ⟨w, .patchSecret _ _, .error (.notFound t)⟩ :: rest, ⟨rfl, rfl⟩, hans =>
    exact ⟨w, .error (.notFound t), rest, rfl, .inr (hans _ List.mem_cons_self)⟩

/-- **Cleared stays cleared.** In every run, with any switches of the mode, edits,
answers of RaaS, failures and crashes: once a VM has recorded that its key is
cleared, no worker writes a key into its Secret or has one generated for it; it
records that only after the entries of the key were replaced or the Secret was gone;
clearing leaves the other entries alone; and once a key was accepted that the
operator discovered, the Secret of the VM is neither written nor cleared. -/
theorem cleared_stays_cleared (h : (cluster rt d notOwn crash).Reach c) :
    (∀ c₀ k vm act c', (cluster rt d notOwn crash).Reach c₀ →
      (cluster rt d notOwn crash).Steps c₀ c → c₀.world.vms k = .live vm →
      vm.annotationOf annotationKeyCleared = annotationTrue →
      (cluster rt d notOwn crash).Step c act c' →
      ¬ storesAt k.bootstrap act ∧ ¬ generatesFor k act) ∧
    (∀ act c' k vm vm', (cluster rt d notOwn crash).Step c act c' →
      c.world.vms k = .live vm → c'.world.vms k = .live vm' →
      vm.annotationOf annotationKeyCleared ≠ annotationTrue →
      vm'.annotationOf annotationKeyCleared = annotationTrue → c.ClearedBefore k) ∧
    (∀ t key data c',
      (cluster rt d notOwn crash).Step c (.call t (.patchSecret key data) (.ok ())) c' →
      ∃ s s', c.world.secrets key = some s ∧ c'.world.secrets key = some s' ∧
        s'.entry "minion.pem" = some bootstrapKeyCleared ∧
        s'.entry "minion.pub" = some bootstrapKeyCleared ∧
        ∀ e, e ≠ "minion.pem" → e ≠ "minion.pub" → s'.entry e = s.entry e) ∧
    (∀ c₀ k vm act c', (cluster rt d notOwn crash).Reach c₀ →
      (cluster rt d notOwn crash).Steps c₀ c → c₀.world.vms k = .live vm →
      vm.annotationOf annotationKeyStatus = keyStatusAccepted →
      vm.annotationOf annotationMatchMethod ≠ matchMethodPreseed →
      (cluster rt d notOwn crash).Step c act c' →
      ¬ storesAt k.bootstrap act ∧ ¬ clearsAt k.bootstrap act) := by
  refine ⟨fun c₀ k vm act c' h₀ hs₀ hvm hcl hs => ⟨fun ha => ?_, fun ha => ?_⟩,
    fun act c' k vm vm' hs hvm hvm' hno hyes => ?_, fun t key data c' hs => ?_,
    fun c₀ k vm act c' h₀ hs₀ hvm hacc hm hs => ⟨fun ha => ?_, fun ha => ?_⟩⟩
  · obtain ⟨o, a, rfl, ho⟩ := storesAt_bootstrap h hs ha
    exact (never_of_obtainsKey h hs ho h₀ hs₀ hvm).2 hcl
  · match act, ha, hs with
    | .call _ (.salt conn (.genAcceptKey id force)) a, rfl, hs =>
      exact (never_of_obtainsKey h hs rfl h₀ hs₀ hvm).2 hcl
  · exact clearedBefore_of_justPatched h (justPatched_of_cleared h hs hvm hvm' hno hyes)
  · cases hs with
    | call _ hth hx =>
      obtain ⟨m, -, -, rfl, rfl⟩ := (contract rt d crash).permitted h hth
      obtain ⟨hans, rfl⟩ := hx
      obtain ⟨s, hsec⟩ := Option.ne_none_iff_exists'.mp hans
      refine ⟨s, s.patched clearedEntries, hsec, ?_, ?_, ?_, fun e hpem hpub => ?_⟩
      · simp only [effect, Function.update_self, hsec]
        rfl
      · rw [Secret.entry_patched]
        rfl
      · rw [Secret.entry_patched]
        rfl
      · have hnone : clearedEntries.reverse.lookup e = none := by
          rw [List.lookup_eq_none_iff]
          simp [clearedEntries, hpem, hpub]
        rw [Secret.entry_patched, hnone, Option.none_or]
  · obtain ⟨o, a, rfl, ho⟩ := storesAt_bootstrap h hs ha
    exact (never_of_obtainsKey h hs ho h₀ hs₀ hvm).1 hacc
  · -- the method of an accepted key is the one the worker's object still has
    obtain ⟨m, hm', hpre⟩ := clearsAt_bootstrap h hs ha
    have hne : vm.keyState ≠ .new := fun hnew => by
      have hst : vm.keyState.status = keyStatusAccepted := hacc
      rw [hnew] at hst
      exact absurd hst (by decide)
    obtain ⟨x, hx, heq⟩ := served_of_earlier h₀ hs₀ hvm hne
    have hlater := (keyLog h k).later x hx m hm'
    rw [heq] at hlater
    have hmethod := hlater.method ((keyRecord h₀ hvm).consistent.accepted hacc)
    exact hm (hmethod.symm.trans hpre)

/-- A preseeded VM answers its first ping, and records that its key is cleared. -/
theorem cleared_stays_cleared_ping :
    ∃ (c : ClusterCfg) (vm : VirtualMachine),
      (cluster Sample.runtime Sample.noDefault notOwn True).Reach c ∧
      c.world.vms Sample.key = .live vm ∧
      vm.annotationOf annotationKeyCleared = annotationTrue ∧
      ∀ act c', (cluster Sample.runtime Sample.noDefault notOwn True).Step c act c' →
        ¬ storesAt Sample.key.bootstrap act ∧ ¬ generatesFor Sample.key act := by
  have hrun : (Sample.play ([.create (Sample.vm "a" "u1")] ++
      work Sample.key (Sample.preseed "a") 40 ++ [.clock (Sample.time + 60 * Go.second)] ++
      work Sample.key (Sample.preseed "a") 30)).any (fun c =>
      (c.world.vms Sample.key).vm?.any fun vm =>
        vm.annotationOf annotationKeyCleared = annotationTrue) = true := by
    decide +kernel
  obtain ⟨c, hr, hc⟩ := Sample.exists_reach hrun
  obtain ⟨vm, hvm, hcl⟩ := Slot.vm?_any hc
  have hcleared : vm.annotationOf annotationKeyCleared = annotationTrue := by simpa using hcl
  exact ⟨c, vm, hr, hvm, hcleared, fun act c' hs =>
    (cleared_stays_cleared hr).1 c Sample.key vm act c' hr .refl hvm hcleared hs⟩

end SaltOperator
