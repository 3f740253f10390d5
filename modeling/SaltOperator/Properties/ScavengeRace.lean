import SaltOperator.Cluster.Scavenged
import SaltOperator.Properties.KeyStatus

/-!
# Keys the scavenger deletes

The scavenger compares two lists that are not of one instant: the accepted keys, and then
the VMs of one namespace after the other. Meanwhile the operator accepts keys and records
them on their VMs, the record after the acceptance.

`operator_beside_jobs`: **the operator runs beside jobs as it runs without them**.

`deletes_recorded_later`: **a key that a VM of the group's namespaces records is deleted only
if the VM records it since that list**. The key was accepted before the accepted keys were
listed, and not on record when the VMs of its namespace were: between the acceptance of a
key and its record lies a window, and the whole of a job's listing has to fall into it.

`deleted_in_window` is a run in which it does.
-/

namespace SaltOperator

/-! ## A run of both -/

/-- One step of a job. -/
def ScavengedCfg.turn {J : Type} [DecidableEq J] {rt : Runtime} (jobs : J → ScavengeJob)
    (s : Script rt) (j : J) (c : ScavengedCfg J) : ScavengedCfg J :=
  match c.threads (.inr j) with
  | none => { c with threads := Function.update c.threads (.inr j) (some ((jobs j).run rt)) }
  | some (.call o next) =>
    let a := serve s c.world o
    ⟨effect c.world o a, Function.update c.threads (.inr j) (some (next a)),
      Function.update c.hist (.inr j) (⟨c.world, o, a⟩ :: c.hist (.inr j))⟩
  | some _ => { c with threads := Function.update c.threads (.inr j) none }

/-- The actions of a job. -/
def IsTurn {J : Type} (j : J) (act : Action (NamespacedName ⊕ J) Op Op.Ans) : Prop :=
  act = .start (.inr j) ∨ act = .done (.inr j) ∨ ∃ o a, act = .call (.inr j) o a

/-- Play acts and turns of jobs one after the other. -/
def runBoth {J : Type} [DecidableEq J] {rt : Runtime} (d : Default) (may : String → Prop)
    [DecidablePred may] (crash : Prop) [Decidable crash] (jobs : J → ScavengeJob) :
    List (Act rt ⊕ J × Script rt) → ScavengedCfg J → Option (ScavengedCfg J)
  | [], c => some c
  | .inl act :: rest, c =>
    match act.step d may crash c.left with
    | none => none
    | some (_, c₁) => runBoth d may crash jobs rest (c.withLeft c₁)
  | .inr (j, s) :: rest, c => runBoth d may crash jobs rest (ScavengedCfg.turn jobs s j c)

section run

variable {J : Type} [DecidableEq J] {rt : Runtime} {d : Default} {may : String → Prop}
  {crash : Prop} {jobs : J → ScavengeJob} {c c' : ScavengedCfg J}

/-- A turn of a job is a step of it. -/
theorem exists_step_turn (s : Script rt) (j : J) (c : ScavengedCfg J) :
    ∃ act, (scavengedCluster rt d may crash jobs).Step c act (ScavengedCfg.turn jobs s j c) ∧
      IsTurn j act := by
  unfold ScavengedCfg.turn
  split
  · rename_i hidle
    exact ⟨_, .start (Sum.inr j) hidle, .inl rfl⟩
  · rename_i o next hth
    exact ⟨_, .call (Sum.inr j) hth ⟨serve_answers s _ o, rfl⟩, .inr (.inr ⟨_, _, rfl⟩)⟩
  · rename_i p hno hth
    refine ⟨_, .done (Sum.inr j) hth ?_, .inr (.inl rfl)⟩
    cases p with
    | call o next => exact absurd rfl (hno o next)
    | _ => rfl

variable [DecidablePred may] [Decidable crash]

theorem reach_runBoth {acts : List (Act rt ⊕ J × Script rt)}
    (hrun : runBoth d may crash jobs acts c = some c')
    (h : (scavengedCluster rt d may crash jobs).Reach c) :
    (scavengedCluster rt d may crash jobs).Reach c' := by
  induction acts generalizing c with
  | nil =>
    cases hrun
    exact h
  | cons act rest ih =>
    rcases act with act | ⟨j, s⟩
    · unfold runBoth at hrun
      split at hrun
      · cases hrun
      · rename_i a c₁ hact
        obtain ⟨act', hstep⟩ := (Act.step_sound hact).beside
        exact ih hrun (h.next hstep)
    · obtain ⟨act, hstep, -⟩ := exists_step_turn s j c
      exact ih hrun (h.next hstep)

end run

/-- The key a job is about to delete. -/
def ScavengedCfg.pendingDelete {J : Type} (c : ScavengedCfg J) (j : J) :
    Option (Connection × String) :=
  match c.threads (.inr j) with
  | some (.call (.salt conn (.deleteKey id)) _) => some (conn, id)
  | _ => none

theorem ScavengedCfg.pendingDelete_any {J : Type} {c : ScavengedCfg J} {j : J}
    {check : Connection × String → Bool}
    (h : (ScavengedCfg.pendingDelete c j).any check = true) :
    ∃ conn id next, c.threads (.inr j) = some (.call (.salt conn (.deleteKey id)) next) ∧
      check (conn, id) = true := by
  unfold ScavengedCfg.pendingDelete at h
  split at h
  · rename_i conn id next hth
    exact ⟨conn, id, next, hth, h⟩
  · cases h

namespace Sample

/-- A job that deletes. -/
def job : ScavengeJob := ⟨scavenger, id, fun _ => .refl _⟩

/-- What the job is told: these keys are accepted. -/
def accepted (keys : List String) : Script runtime where
  configs := [config "a" keyAcceptanceDiscovery]
  salt
    | .listAcceptedKeys => listKeys "list_accepted" (keysResponse keys)
    | c => raas [] c
  returns c := by
    cases c with
    | listAcceptedKeys => exact ⟨_, rfl⟩
    | _ => exact raas_returns [] _

/-- The operator accepts the key of the VM, the job lists the keys and the VMs, and only then
the operator records the key. -/
def race : List (Act runtime ⊕ Unit × Script runtime) :=
  (.create (vm "a" "u1") :: work key discovery 12).map Sum.inl ++
    List.replicate 7 (.inr ((), accepted ["web"])) ++ (work key discovery 2).map Sum.inl

/-- Play in the sample cluster with one job. -/
def playRace : Option (ScavengedCfg Unit) :=
  runBoth noDefault notOwn True (fun _ => job) race
    ⟨(ClusterCfg.start time secrets).world, fun _ => none, fun _ => []⟩

theorem exists_reach_race {check : ScavengedCfg Unit → Bool} (h : playRace.any check = true) :
    ∃ c, (scavengedCluster runtime noDefault notOwn True fun _ : Unit => job).Reach c ∧
      check c = true := by
  obtain ⟨c, hrun, hcheck⟩ := (Option.any_eq_true _ _).mp h
  exact ⟨c, reach_runBoth hrun (.init ⟨rfl, fun _ => rfl, fun _ => rfl, fun _ => rfl⟩), hcheck⟩

end Sample

/-! ## The operator beside the jobs -/

/-- **The operator runs beside scavenge jobs as it runs without them.** What it makes of its
threads and of the world is a run of the operator by itself, in which its own calls are
answered as they were; and a job changes nothing of the world but the keys RaaS knows of. -/
theorem operator_beside_jobs {J : Type} [DecidableEq J] {rt : Runtime} {d : Default}
    {may : String → Prop} {crash : Prop} {jobs : J → ScavengeJob} {c c' : ScavengedCfg J}
    {act : Action (NamespacedName ⊕ J) Op Op.Ans}
    (h : (scavengedCluster rt d may crash jobs).Reach c)
    (hs : (scavengedCluster rt d may crash jobs).Step c act c') :
    (cluster rt d may crash).Reach c.left ∧ (cluster rt d may crash).Steps c.left c'.left ∧
    (∀ k o a, act = .call (.inl k) o a →
      (cluster rt d may crash).Step c.left (.call k o a) c'.left) ∧
    (∀ j o a, act = .call (.inr j) o a → ∃ raas, c'.world = { c.world with raas }) := by
  refine ⟨scavenged_reach h, scavenged_steps h (.single hs), ?_, ?_⟩
  · rintro k o a rfl
    cases hs with
    | call t hth hx =>
      unfold Cfg.left
      rw [System.update_inl, System.update_inl]
      exact .call k hth hx
  · rintro j o a rfl
    have ho : o.Scavenges := System.beside_performs (fun _ => scavengeJob_scavenges) h hs
    cases hs with
    | call t hth hx =>
      obtain ⟨-, rfl⟩ := hx
      rcases effect_scavenges (w := c.world) (a := a) ho with heq | heq
      · exact ⟨c.world.raas, heq⟩
      · exact heq

/-- A job deletes a key while the operator is at work. -/
theorem operator_beside_a_job :
    ∃ (c c' : ScavengedCfg Unit) (conn : Connection),
      (scavengedCluster Sample.runtime Sample.noDefault notOwn True fun _ => Sample.job).Step c
        (.call (.inr ()) (.salt conn (.deleteKey "web")) (.ok ())) c' ∧
      (c.left.threads Sample.key).isSome = true ∧
      (cluster Sample.runtime Sample.noDefault notOwn True).Reach c.left ∧
      (cluster Sample.runtime Sample.noDefault notOwn True).Steps c.left c'.left ∧
      ∃ raas, c'.world = { c.world with raas } := by
  have hrun : Sample.playRace.any (fun c =>
      (ScavengedCfg.pendingDelete c ()).any (fun p => p.2 = "web") &&
      (c.left.threads Sample.key).isSome) = true := by decide +kernel
  obtain ⟨c, h, hc⟩ := Sample.exists_reach_race hrun
  obtain ⟨hpend, hbusy⟩ := (Bool.and_eq_true _ _).mp hc
  obtain ⟨conn, id, next, hth, hid⟩ := ScavengedCfg.pendingDelete_any hpend
  obtain rfl : id = "web" := by simpa using hid
  have hstep : (scavengedCluster Sample.runtime Sample.noDefault notOwn True
      fun _ => Sample.job).Step c (.call (.inr ()) (.salt conn (.deleteKey "web")) (.ok ())) _ :=
    .call (Sum.inr ()) hth ⟨⟨Sample.response .null, rfl⟩, rfl⟩
  obtain ⟨hreach, hsteps, -, hraas⟩ := operator_beside_jobs h hstep
  exact ⟨c, _, conn, hstep, hbusy, hreach, hsteps, hraas () _ _ rfl⟩

/-! ## The window -/

section window

variable {J : Type} [DecidableEq J] {rt : Runtime} {d : Default} {crash : Prop}
  {jobs : J → ScavengeJob} {c c' : ScavengedCfg J} {j : J}

/-- A VM is in the list of its namespace. -/
theorem mem_listed {may : String → Prop} {nspace : String} {vms : List VirtualMachine}
    {t : NamespacedName ⊕ J} {k : NamespacedName} {vm : VirtualMachine}
    (hsound : Sound c.world c.left.hist) (hns : k.nspace = nspace)
    (hs : (scavengedCluster rt d may crash jobs).Step c
      (.call t (.listVMs (some nspace)) (.ok vms)) c')
    (hvm : c.world.vms k = .live vm) : vm ∈ vms := by
  have hperm : vms.Perm (c.world.vmList (some nspace)) := by
    cases hs with
    | call t _ hx =>
      rcases t with k | j
      · exact hx.1
      · exact hx.1
  refine hperm.mem_iff.mpr (List.mem_filter.mpr ⟨List.mem_filterMap.mpr ⟨k, ?_, ?_⟩, ?_⟩)
  · exact hsound.mem_names hvm
  · rw [hvm]
    rfl
  · have hkey : vm.nspace = k.nspace := congrArg NamespacedName.nspace (hsound.key k vm hvm)
    simpa using hkey.trans hns

/-- **A key that a VM records is deleted only if it was not on record when the VMs were
listed.** Let a job be about to delete a key on the RaaS of one of the configs its run
resolved, and let a VM of that config's namespace record the key. Then the job listed the key
as accepted, after that the VMs of the namespace, and at that time the VM recorded no key. -/
theorem deletes_recorded_later {conn : Connection} {id : String} {a : Except String Unit}
    (h : (scavengedCluster rt d notOwn crash jobs).Reach c)
    (hs : (scavengedCluster rt d notOwn crash jobs).Step c
      (.call (.inr j) (.salt conn (.deleteKey id)) a) c') :
    ∃ resolved, Resolved rt (jobs j) (c.hist (.inr j)) resolved ∧ (∃ r ∈ resolved, r.2 = conn) ∧
      ∀ r ∈ resolved, r.2.url = conn.url → ∀ k vm, k.nspace = r.1.nspace →
        c.world.vms k = .live vm → vm.annotationOf annotationMinionID = id →
        ∃ c₁ c₁' keys c₂ c₂' vms,
          (scavengedCluster rt d notOwn crash jobs).Reach c₁ ∧
          (scavengedCluster rt d notOwn crash jobs).Step c₁
            (.call (.inr j) (.salt conn .listAcceptedKeys) (.ok keys)) c₁' ∧ id ∈ keys ∧
          (scavengedCluster rt d notOwn crash jobs).Steps c₁' c₂ ∧
          (scavengedCluster rt d notOwn crash jobs).Step c₂
            (.call (.inr j) (.listVMs (some k.nspace)) (.ok vms)) c₂' ∧
          (scavengedCluster rt d notOwn crash jobs).Steps c₂' c ∧
          ∀ vm₂, c₂.world.vms k = .live vm₂ → vm₂.annotationOf annotationMinionID = "" := by
  cases hs with
  | call t hth hx =>
    obtain ⟨hne, resolved, hres, g, hg, rfl, newer, m, older, hhist, -, hlists, hmiss⟩ :=
      scavengedContract.permitted h hth
    have hgroup : g ∈ groupsOf resolved := ((jobs j).visits _).mem_iff.mp hg
    refine ⟨resolved, hres, (grouping_groupsOf resolved).made g hgroup,
      fun r hr hurl k vm hns hvm hid => ?_⟩
    -- the config's namespace is one of the group's
    have hmem : k.nspace ∈ g.namespaces := by
      rw [(grouping_groupsOf resolved).namespaces g hgroup, hns]
      exact List.mem_map.mpr ⟨r, List.mem_filter.mpr ⟨hr, by simpa using hurl⟩, rfl⟩
    obtain ⟨l, hl, w₂, vms, rfl, hall⟩ := hmiss k.nspace hmem
    obtain ⟨w₁, keys, rfl, hkeys⟩ := hlists
    -- the two lists were made one after the other
    obtain ⟨after, between, rfl⟩ := List.append_of_mem hl
    rw [List.append_assoc, List.cons_append] at hhist
    obtain ⟨c₂, c₂', hreach₂, hstep₂, hsteps₂, -, hhist₂, -⟩ := h.of_hist hhist
    obtain ⟨c₁, c₁', hreach₁, hstep₁, hsteps₁, -⟩ := hreach₂.of_hist hhist₂
    refine ⟨c₁, c₁', keys, c₂, c₂', vms, hreach₁, hstep₁, hkeys, hsteps₁, hstep₂, hsteps₂,
      fun vm₂ hvm₂ => ?_⟩
    by_contra hrec
    have hleft₂ := scavenged_reach hreach₂
    have hsteps := scavenged_steps hreach₂ ((System.Steps.single hstep₂).trans hsteps₂)
    have hkept := (keyState_later hleft₂ hsteps hvm₂ hvm).minionID hrec
    have hsound := ((contract rt d crash).keeps hleft₂).1
    refine hall vm₂ (mem_listed hsound rfl hstep₂ hvm₂) ?_
    exact hkept.symm.trans hid

end window

/-- Connections are resolved for configs of the list. -/
theorem resolvable_mem {rt : Runtime} {s : Scavenger} {configs : List SaltKeyConfig} {h : History} :
    (resolvable rt s configs).Obeys (fun _ _ => True) (fun _ _ => True)
      (fun _ r => ∀ resolved, r = .ok resolved → ∀ x ∈ resolved, x.1 ∈ configs) h := by
  have anyCalls {α ε : Type} (p : Prog Op Op.Ans ε α) (h : History) :
      p.Obeys (fun _ _ => True) (fun _ _ => True) (fun _ _ => True) h :=
    Prog.performs_true.obeys (I := fun _ => True)
      (fun _ _ _ _ => ⟨trivial, fun _ _ => trivial⟩) trivial
  induction configs generalizing h with
  | nil =>
    intro resolved hr x hx
    cases hr
    cases hx
  | cons cfg rest ih =>
    have later {h : History} : (resolvable rt s rest).Obeys (fun _ _ => True) (fun _ _ => True)
        (fun _ r => ∀ resolved, r = .ok resolved → ∀ x ∈ resolved, x.1 ∈ cfg :: rest) h :=
      ih.mono fun _ _ hr resolved heq x hx => List.mem_cons_of_mem _ (hr resolved heq x hx)
    unfold resolvable
    split
    · exact ⟨trivial, fun _ _ _ => later⟩
    · refine Prog.Obeys.bind ((anyCalls (resolve rt cfg s.defaultConnection).attempt h).mono
        fun h' r _ => ?_)
      rcases r with e | e | conn
      · intro resolved hr
        cases hr
      · exact ⟨trivial, fun _ _ _ => later⟩
      · refine Prog.Obeys.bind (p := resolvable rt s rest) (later.mono fun h'' r hr => ?_)
        rcases r with e | found
        · intro resolved heq
          cases heq
        · intro resolved heq x hx
          cases heq
          rcases List.mem_cons.mp hx with rfl | hx
          · exact List.mem_cons_self
          · exact hr found rfl x hx

/-- The configs a run came with were listed. -/
theorem Resolved.listed {rt : Runtime} {job : ScavengeJob} {h : History}
    {resolved : List (SaltKeyConfig × Connection)} (hr : Resolved rt job h resolved) :
    ∃ w configs, (⟨w, .listConfigs none, .ok configs⟩ : Made) ∈ h ∧
      ∀ r ∈ resolved, r.1 ∈ configs := by
  obtain ⟨w, configs, before, after, hrun, hmakes⟩ := hr
  refine ⟨w, configs, (hmakes.suffix.trans hrun.suffix).subset List.mem_cons_self, ?_⟩
  exact hmakes.ends resolvable_mem resolved rfl

/-- Whether the configs that the call listed are all of the namespace. -/
def Made.listsConfigsOf (nspace : String) : Made → Bool
  | ⟨_, .listConfigs none, .ok configs⟩ => configs.all (·.nspace = nspace)
  | _ => true

/-- The job deletes the key of a VM that records it, and had not when the job looked. -/
theorem deleted_in_window :
    ∃ (c c' c₁ c₂ : ScavengedCfg Unit) (conn : Connection) (vm : VirtualMachine),
      (scavengedCluster Sample.runtime Sample.noDefault notOwn True fun _ => Sample.job).Reach c ∧
      (scavengedCluster Sample.runtime Sample.noDefault notOwn True fun _ => Sample.job).Step c
        (.call (.inr ()) (.salt conn (.deleteKey "web")) (.ok ())) c' ∧
      c.world.vms Sample.key = .live vm ∧ vm.annotationOf annotationMinionID = "web" ∧
      (scavengedCluster Sample.runtime Sample.noDefault notOwn True
        fun _ => Sample.job).Steps c₁ c₂ ∧
      (scavengedCluster Sample.runtime Sample.noDefault notOwn True
        fun _ => Sample.job).Steps c₂ c ∧
      ∀ vm₂, c₂.world.vms Sample.key = .live vm₂ → vm₂.annotationOf annotationMinionID = "" := by
  have hrun : Sample.playRace.any (fun c =>
      (ScavengedCfg.pendingDelete c ()).any (fun p => p.2 = "web") &&
      (c.world.vms Sample.key).vm?.any (fun vm => vm.annotationOf annotationMinionID = "web") &&
      (c.hist (.inr ())).all (Made.listsConfigsOf "a")) = true := by decide +kernel
  obtain ⟨c, h, hc⟩ := Sample.exists_reach_race hrun
  simp only [Bool.and_eq_true] at hc
  obtain ⟨⟨hpend, hvm⟩, hlists⟩ := hc
  obtain ⟨conn, id, next, hth, hid⟩ := ScavengedCfg.pendingDelete_any hpend
  obtain rfl : id = "web" := by simpa using hid
  obtain ⟨vm, hvm, hrec⟩ := Slot.vm?_any hvm
  have hstep : (scavengedCluster Sample.runtime Sample.noDefault notOwn True
      fun _ => Sample.job).Step c (.call (.inr ()) (.salt conn (.deleteKey "web")) (.ok ())) _ :=
    .call (Sum.inr ()) hth ⟨⟨Sample.response .null, rfl⟩, rfl⟩
  obtain ⟨resolved, hres, ⟨r, hr, rfl⟩, hwindow⟩ := deletes_recorded_later h hstep
  -- every config the job listed is of the VM's namespace
  have hns : r.1.nspace = "a" := by
    obtain ⟨w, configs, hmem, hall⟩ := hres.listed
    have hcfgs := List.all_eq_true.mp hlists _ hmem
    simpa using List.all_eq_true.mp hcfgs r.1 (hall r hr)
  obtain ⟨c₁, c₁', keys, c₂, c₂', vms, -, hlist, -, hsteps, hlist', hsteps', hempty⟩ :=
    hwindow r hr rfl Sample.key vm hns.symm hvm (by simpa using hrec)
  exact ⟨c, _, c₁, c₂, r.2, vm, h, hstep, hvm, by simpa using hrec,
    (System.Steps.single hlist).trans hsteps, (System.Steps.single hlist').trans hsteps', hempty⟩

end SaltOperator
