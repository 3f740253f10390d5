import SaltOperator.Lib.Simulation
import SaltOperator.Cluster.KeyState
import SaltOperator.Properties.Scavenging

/-!
# The operator and the scavenger together

Scavenge jobs run in the cluster of the operator: they read its configs, Secrets and VMs
and delete keys on the RaaS it uses, at any time, call by call in between those of the
workers. Any number of jobs may be at work, each may be cut off and begun again.

A job writes nothing but keys on RaaS, where others do so too: **the operator runs beside
scavenge jobs as it runs without them** (`scavenged_reach`), so that everything that holds
in its runs still does.

What a job knows when it deletes a key is `Stale`: the key was listed as accepted, and
after that the VMs of each of the group's namespaces were listed without one that records
it (`scavenge_obeys`).
-/

namespace SaltOperator

/-- A scavenge job: its settings, and the order it visits the groups in. -/
structure ScavengeJob where
  settings : Scavenger
  order : List RaasGroup → List RaasGroup
  visits : ∀ groups, (order groups).Perm groups

def ScavengeJob.run (rt : Runtime) (job : ScavengeJob) : M Result := do
  scavenge rt job.settings job.order
  return {}

/-- The operator in its cluster, with scavenge jobs. -/
def scavengedCluster {J : Type} (rt : Runtime) (d : Default) (may : String → Prop) (crash : Prop)
    (jobs : J → ScavengeJob) : System (NamespacedName ⊕ J) Op Op.Ans World String Result :=
  (cluster rt d may crash).beside (fun _ w o a w' => Answers rt w o a ∧ w' = effect w o a)
    fun j => (jobs j).run rt

/-- A configuration of the two. -/
abbrev ScavengedCfg (J : Type) := Cfg (NamespacedName ⊕ J) Op Op.Ans World String Result

/-- The calls of a job. -/
def Op.Scavenges : Op → Prop
  | .listConfigs _ => True
  | .getSecret _ => True
  | .listVMs _ => True
  | .log _ _ _ => True
  | .salt _ _ => True
  | _ => False

section performs

variable {rt : Runtime} {s : Scavenger} {g : RaasGroup}

theorem resolvable_scavenges {configs : List SaltKeyConfig} :
    (resolvable rt s configs).Performs Op.Scavenges := by
  induction configs with
  | nil => trivial
  | cons cfg rest ih =>
    refine .ite (fun _ => .bind (p := logInfo _ _) ⟨trivial, fun _ => trivial⟩ fun _ => ih) fun _ =>
      .bind (resolve_reads.mono ?_).attempt fun r => ?_
    · rintro _ ⟨key, rfl⟩
      trivial
    · rcases r with e | conn
      · exact .bind (p := logError _ _ _) ⟨trivial, fun _ => trivial⟩ fun _ => ih
      · exact ih.bind fun _ => trivial

theorem liveMinions_scavenges {nspaces : List String} :
    (liveMinions g nspaces).Performs Op.Scavenges := by
  induction nspaces with
  | nil => exact trivial
  | cons nspace rest ih =>
    refine Prog.Performs.bind (p := (liveVMMinionIDs nspace).attempt) ?_ fun r => ?_
    · refine Prog.Performs.attempt ⟨trivial, fun r => ?_⟩
      cases r <;> exact trivial
    · cases r with
      | error e => exact ⟨trivial, fun _ => trivial⟩
      | ok ids => exact ih.bind fun _ => trivial

theorem deleteStaleKey_scavenges {key : String} :
    (deleteStaleKey g key).Performs Op.Scavenges := by
  refine ⟨trivial, fun _ => ⟨trivial, fun r => ?_⟩⟩
  cases r <;> exact ⟨trivial, fun _ => trivial⟩

theorem deleteStale_scavenges {live keys : List String} {counts : Counts} :
    (deleteStale s g live keys counts).Performs Op.Scavenges := by
  induction keys generalizing counts with
  | nil => exact trivial
  | cons key rest ih =>
    unfold deleteStale
    exact .ite (fun _ => ih) fun _ => .ite (fun _ => ih) fun _ => .ite
      (fun _ => .bind (p := logError _ _ _) ⟨trivial, fun _ => trivial⟩ fun _ => ih)
      fun _ => deleteStaleKey_scavenges.bind fun _ => ih

theorem scavengeRaasGroup_scavenges : (scavengeRaasGroup s g).Performs Op.Scavenges := by
  refine ⟨trivial, fun r => ?_⟩
  rcases r with e | u
  · exact trivial
  · refine ⟨trivial, fun r => ?_⟩
    rcases r with e | _ | ⟨key, keys⟩
    · exact trivial
    · exact ⟨trivial, fun _ => trivial⟩
    · refine liveMinions_scavenges.bind fun r => ?_
      cases r with
      | none => exact trivial
      | some live => exact deleteStale_scavenges.bind fun _ => ⟨trivial, fun _ => trivial⟩

theorem visitGroup_scavenges : (visitGroup s g).Performs Op.Scavenges := by
  refine scavengeRaasGroup_scavenges.attempt.bind fun r => ?_
  rcases r with e | u
  · exact ⟨trivial, fun _ => trivial⟩
  · exact trivial

theorem scavengeGroups_scavenges {groups : List RaasGroup} :
    (scavengeGroups s groups).Performs Op.Scavenges := by
  induction groups with
  | nil => exact trivial
  | cons g groups ih => exact visitGroup_scavenges.bind fun _ => ih

theorem scavengeJob_scavenges {job : ScavengeJob} : (job.run rt).Performs Op.Scavenges := by
  refine Prog.Performs.bind (p := scavenge rt job.settings job.order) ⟨trivial, fun r => ?_⟩
    fun _ => trivial
  rcases r with e | configs
  · exact trivial
  · exact resolvable_scavenges.bind fun _ => scavengeGroups_scavenges

end performs

/-- A job changes nothing but the keys RaaS knows of. -/
theorem effect_scavenges {w : World} {o : Op} {a : o.Ans} (ho : o.Scavenges) :
    effect w o a = w ∨ ∃ raas, effect w o a = { w with raas } := by
  cases o with
  | salt conn c => exact .inr (effect_salt w conn c a)
  | listConfigs nspace => exact .inl rfl
  | getSecret key => exact .inl rfl
  | listVMs nspace => exact .inl rfl
  | log err message fields => exact .inl rfl
  | _ => exact ho.elim

section reach

variable {J : Type} [DecidableEq J] {rt : Runtime} {d : Default} {may : String → Prop}
  {crash : Prop} {jobs : J → ScavengeJob} {c c' : ScavengedCfg J}

theorem simulates_scavenged : System.Simulates (scavengedCluster rt d may crash jobs)
    (cluster rt d may crash) fun c₁ c => c = c₁.left := by
  refine System.simulates_beside (fun _ => scavengeJob_scavenges) ?_
  rintro j w o a _ ho ⟨-, rfl⟩
  rcases effect_scavenges ho with heq | ⟨raas, heq⟩
  · exact .inl heq
  · rw [heq]
    exact .inr (.raas raas)

/-- **The operator runs beside scavenge jobs as it runs without them.** -/
theorem scavenged_reach (h : (scavengedCluster rt d may crash jobs).Reach c) :
    (cluster rt d may crash).Reach c.left := by
  obtain ⟨_, hreach, rfl⟩ := simulates_scavenged.reach h
  exact hreach

theorem scavenged_steps (h : (scavengedCluster rt d may crash jobs).Reach c)
    (hs : (scavengedCluster rt d may crash jobs).Steps c c') :
    (cluster rt d may crash).Steps c.left c'.left := by
  obtain ⟨_, hsteps, rfl⟩ := simulates_scavenged.steps h hs rfl
  exact hsteps

end reach

/-! ## What a job knows -/

/-- The call found the key of the minion accepted. -/
def Made.ListsKey (m : Made) (conn : Connection) (id : String) : Prop :=
  ∃ w keys, m = ⟨w, .salt conn .listAcceptedKeys, .ok keys⟩ ∧ id ∈ keys

/-- The call listed the VMs of the namespace and found none that records the minion. -/
def Made.Misses (m : Made) (nspace id : String) : Prop :=
  ∃ w vms, m = ⟨w, .listVMs (some nspace), .ok vms⟩ ∧
    ∀ vm ∈ vms, vm.annotationOf annotationMinionID ≠ id

/-- The call a run begins with. -/
def Op.beginsRun : Op → Bool
  | .listConfigs none => true
  | _ => false

/-- The calls after `h` are of the same run. -/
def SameRun (h h' : History) : Prop :=
  ∃ newer : History, h' = newer ++ h ∧ ∀ m ∈ newer, m.op.beginsRun = false

/-- The configs the run listed came with these connections. -/
def Resolved (rt : Runtime) (job : ScavengeJob) (h : History)
    (resolved : List (SaltKeyConfig × Connection)) : Prop :=
  ∃ w configs before after, SameRun after h ∧ (resolvable rt job.settings configs).Makes
    (⟨w, .listConfigs none, .ok configs⟩ :: before) (.ok resolved) after

/-- The key of the minion is one to delete: the run listed it as accepted, and after that no
VM of the group's namespaces was found to record it. -/
def Stale (g : RaasGroup) (h : History) (id : String) : Prop :=
  ∃ newer m older, h = newer ++ m :: older ∧ (∀ x ∈ newer, x.op.beginsRun = false) ∧
    m.ListsKey g.conn id ∧ ∀ nspace ∈ g.namespaces, ∃ l ∈ newer, l.Misses nspace id

theorem SameRun.refl (h : History) : SameRun h h := ⟨[], rfl, nofun⟩

theorem SameRun.trans {h h' h'' : History} (hr : SameRun h h') (hr' : SameRun h' h'') :
    SameRun h h'' := by
  obtain ⟨newer, rfl, hno⟩ := hr
  obtain ⟨newer', rfl, hno'⟩ := hr'
  refine ⟨newer' ++ newer, (List.append_assoc ..).symm, fun m hm => ?_⟩
  rcases List.mem_append.mp hm with hm | hm
  · exact hno' m hm
  · exact hno m hm

theorem SameRun.cons {h h' : History} (hr : SameRun h h') {m : Made}
    (hm : m.op.beginsRun = false) : SameRun h (m :: h') :=
  hr.trans ⟨[m], rfl, fun m' hm' => by rw [List.mem_singleton.mp hm']; exact hm⟩

theorem SameRun.suffix {h h' : History} (hr : SameRun h h') : h <:+ h' := by
  obtain ⟨newer, rfl, -⟩ := hr
  exact List.suffix_append _ _

theorem Resolved.mono {rt : Runtime} {job : ScavengeJob} {h h' : History}
    {resolved : List (SaltKeyConfig × Connection)} (hf : Resolved rt job h resolved)
    (hr : SameRun h h') : Resolved rt job h' resolved := by
  obtain ⟨w, configs, before, after, hrun, hmakes⟩ := hf
  exact ⟨w, configs, before, after, hrun.trans hr, hmakes⟩

theorem Stale.mono {g : RaasGroup} {h h' : History} {id : String} (hs : Stale g h id)
    (hr : SameRun h h') : Stale g h' id := by
  obtain ⟨newer, m, older, rfl, hrun, hm, hmiss⟩ := hs
  obtain ⟨more, rfl, hmore⟩ := hr
  refine ⟨more ++ newer, m, older, (List.append_assoc ..).symm, fun x hx => ?_, hm,
    fun nspace hns => ?_⟩
  · rcases List.mem_append.mp hx with hx | hx
    · exact hmore x hx
    · exact hrun x hx
  · obtain ⟨l, hl, hmiss⟩ := hmiss nspace hns
    exact ⟨l, List.mem_append_right _ hl, hmiss⟩

/-- What a job may do after the calls `h`: delete the stale keys of a group of the run. -/
def Scavengeable (rt : Runtime) (job : ScavengeJob) (h : History) : Op → Prop
  | .salt conn (.deleteKey id) => id ≠ "" ∧ ∃ resolved, Resolved rt job h resolved ∧
      ∃ g ∈ job.order (groupsOf resolved), g.conn = conn ∧ Stale g h id
  | _ => True

theorem scavengeable_of_noDeletion {rt : Runtime} {job : ScavengeJob} {o : Op} {h : History}
    (ho : o.NoDeletion) : Scavengeable rt job h o := by
  cases o with
  | salt conn c =>
    cases c with
    | deleteKey id => exact absurd rfl (ho conn id)
    | _ => trivial
  | _ => trivial

/-- The answers a job gets. -/
def Truthful (rt : Runtime) (_ : History) (m : Made) : Prop := Answers rt m.before m.op m.ans

section obeys

variable {rt : Runtime} {job : ScavengeJob} {g : RaasGroup} {h : History}
  {resolved : List (SaltKeyConfig × Connection)}

/-- Listing the namespaces: a minion that is not live was missed in each. -/
theorem liveMinions_obeys (nspaces : List String) : (liveMinions g nspaces).Obeys (Truthful rt)
    (Scavengeable rt job) (fun h' r => ∃ newer : History, h' = newer ++ h ∧
      (∀ m ∈ newer, m.op.beginsRun = false) ∧
      ∀ live, r = .ok (some live) → ∀ id, id ≠ "" → id ∉ live →
        ∀ nspace ∈ nspaces, ∃ l ∈ newer, l.Misses nspace id) h := by
  induction nspaces generalizing h with
  | nil => exact ⟨[], rfl, nofun, fun _ _ _ _ _ _ hns => absurd hns List.not_mem_nil⟩
  | cons nspace rest ih =>
    refine Prog.Obeys.bind (Prog.Obeys.attempt ⟨trivial, fun w r _ => ?_⟩)
    rcases r with e | vms
    · refine ⟨trivial, fun w' _ _ => ⟨[_, _], rfl, fun m hm => ?_, fun live hlive => ?_⟩⟩
      · rcases List.mem_pair.mp hm with rfl | rfl <;> rfl
      · cases hlive
    · refine Prog.Obeys.bind (p := liveMinions g rest) (ih.mono fun h' r hr => ?_)
      obtain ⟨newer, rfl, hrun, hmissed⟩ := hr
      have hrun' : ∀ m ∈ newer ++ [(⟨w, .listVMs (some nspace), .ok vms⟩ : Made)],
          m.op.beginsRun = false := by
        intro m hm
        rcases List.mem_append.mp hm with hm | hm
        · exact hrun m hm
        · rw [List.mem_singleton.mp hm]
          rfl
      rcases r with e | found
      · refine ⟨_, by simp, hrun', fun live hlive => ?_⟩
        cases hlive
      · refine ⟨_, by simp, hrun', fun live hlive id hid hno => ?_⟩
        obtain ⟨live', rfl, rfl⟩ := Option.map_eq_some_iff.mp (Except.ok.inj hlive)
        obtain ⟨hfirst, hothers⟩ := not_or.mp (mt List.mem_append.mpr hno)
        intro ns hns
        rcases List.mem_cons.mp hns with rfl | hns
        · refine ⟨_, List.mem_append_right _ (List.mem_singleton_self _), w, vms, rfl, ?_⟩
          intro vm hvm heq
          exact hfirst ((mem_recordedIDs hid).mpr ⟨vm, hvm, heq⟩)
        · obtain ⟨l, hl, hmiss⟩ := hmissed live' rfl id hid hothers ns hns
          exact ⟨l, List.mem_append_left _ hl, hmiss⟩

theorem deleteStaleKey_obeys {key : String} (hkey : key ≠ "") (hf : Resolved rt job h resolved)
    (hg : g ∈ job.order (groupsOf resolved)) (hstale : Stale g h key) :
    (deleteStaleKey g key).Obeys (Truthful rt) (Scavengeable rt job)
      (fun h' _ => SameRun h h') h := by
  have hlog {m : Made} (hm : m.op.beginsRun = false) : SameRun h (m :: h) :=
    (SameRun.refl h).cons hm
  refine ⟨trivial, fun w _ _ => ⟨⟨hkey, resolved, hf.mono (hlog rfl), g, hg, rfl,
    hstale.mono (hlog rfl)⟩, fun w' r _ => ?_⟩⟩
  rcases r with e | u
  · exact ⟨trivial, fun _ _ _ => ((hlog rfl).cons rfl).cons rfl⟩
  · exact ⟨trivial, fun _ _ _ => ((hlog rfl).cons rfl).cons rfl⟩

/-- The loop over the accepted keys. -/
theorem deleteStale_obeys {live keys : List String} {counts : Counts}
    (hf : Resolved rt job h resolved) (hg : g ∈ job.order (groupsOf resolved))
    (hstale : ∀ key ∈ keys, key ∉ live → key ≠ "" ∧ Stale g h key) :
    (deleteStale job.settings g live keys counts).Obeys (Truthful rt) (Scavengeable rt job)
      (fun h' _ => SameRun h h') h := by
  induction keys generalizing h counts with
  | nil => exact .refl h
  | cons key rest ih =>
    -- what was known of the other keys is known after further calls of the run
    have next {h' : History} {counts : Counts} (hr : SameRun h h') :
        (deleteStale job.settings g live rest counts).Obeys (Truthful rt) (Scavengeable rt job)
          (fun h' _ => SameRun h h') h' := by
      refine (ih (hf.mono hr) fun key' hmem hno => ?_).mono fun _ _ hr' => hr.trans hr'
      obtain ⟨hne, hs⟩ := hstale key' (List.mem_cons_of_mem _ hmem) hno
      exact ⟨hne, hs.mono hr⟩
    unfold deleteStale
    by_cases hlive : live.contains key = true
    · rw [if_pos hlive]
      exact next (.refl h)
    · rw [if_neg hlive]
      by_cases hex : matchesAny job.settings job.settings.exclude key = true
      · rw [if_pos hex]
        exact next (.refl h)
      · rw [if_neg hex]
        by_cases hdry : job.settings.dryRun = true
        · rw [if_pos hdry]
          exact ⟨trivial, fun _ _ _ => next ((SameRun.refl h).cons rfl)⟩
        · rw [if_neg hdry]
          obtain ⟨hne, hs⟩ := hstale key List.mem_cons_self
            fun hmem => hlive (List.contains_iff_mem.mpr hmem)
          refine Prog.Obeys.bind ((deleteStaleKey_obeys hne hf hg hs).mono fun h' r hr => ?_)
          rcases r with e | done
          · exact hr
          · exact next hr

theorem scavengeRaasGroup_obeys (hf : Resolved rt job h resolved)
    (hg : g ∈ job.order (groupsOf resolved)) :
    (scavengeRaasGroup job.settings g).Obeys (Truthful rt) (Scavengeable rt job)
      (fun h' _ => SameRun h h') h := by
  have hlog {h' : History} (hr : SameRun h h') {m : Made} (hm : m.op.beginsRun = false) :
      SameRun h (m :: h') := hr.cons hm
  refine ⟨trivial, fun w r _ => ?_⟩
  rcases r with e | u
  · exact hlog (.refl h) rfl
  · refine ⟨trivial, fun w' r hkeys => ?_⟩
    have hrun := hlog (hlog (.refl h) (m := ⟨w, .salt g.conn .login, .ok u⟩) rfl)
      (m := ⟨w', .salt g.conn .listAcceptedKeys, r⟩) rfl
    rcases r with e | _ | ⟨key, keys⟩
    · exact hrun
    · exact ⟨trivial, fun _ _ _ => hlog hrun rfl⟩
    · -- a key that RaaS lists has a name
      obtain ⟨p, hp⟩ := hkeys
      have hnamed : "" ∉ key :: keys := listKeys_ne_empty hp.symm
      refine Prog.Obeys.bind (p := liveMinions g g.namespaces)
        ((liveMinions_obeys g.namespaces).mono fun h' r hr => ?_)
      obtain ⟨newer, rfl, hruns, hmissed⟩ := hr
      have hrun' := hrun.trans ⟨newer, rfl, hruns⟩
      rcases r with e | _ | live
      · exact hrun'
      · exact hrun'
      · refine Prog.Obeys.bind ((deleteStale_obeys (hf.mono hrun') hg fun id hid hno => ?_).mono
          fun h' r hr => ?_)
        · have hne : id ≠ "" := fun heq => hnamed (heq ▸ hid)
          exact ⟨hne, newer, _, _, rfl, hruns, ⟨w', _, rfl, hid⟩, hmissed live rfl id hne hno⟩
        · rcases r with e | counts
          · exact hrun'.trans hr
          · exact ⟨trivial, fun _ _ _ => hlog (hrun'.trans hr) rfl⟩

theorem scavengeGroups_obeys {groups : List RaasGroup} (hf : Resolved rt job h resolved)
    (hg : ∀ g ∈ groups, g ∈ job.order (groupsOf resolved)) :
    (scavengeGroups job.settings groups).Obeys (Truthful rt) (Scavengeable rt job)
      (fun _ _ => True) h := by
  induction groups generalizing h with
  | nil => exact trivial
  | cons g groups ih =>
    have next {h' : History} (hr : SameRun h h') :
        (scavengeGroups job.settings groups).Obeys (Truthful rt) (Scavengeable rt job)
          (fun _ _ => True) h' :=
      ih (hf.mono hr) fun g' hg' => hg g' (List.mem_cons_of_mem _ hg')
    refine Prog.Obeys.bind (Prog.Obeys.bind (Prog.Obeys.attempt
      ((scavengeRaasGroup_obeys hf (hg g List.mem_cons_self)).mono fun h' r hr => ?_)))
    rcases r with e | u
    · exact ⟨trivial, fun _ _ _ => next (hr.cons rfl)⟩
    · exact next hr

/-- A job deletes stale keys only. -/
theorem scavenge_obeys : (job.run rt).Obeys (Truthful rt) (Scavengeable rt job)
    (fun _ _ => True) h := by
  have hscavenge : (scavenge rt job.settings job.order).Obeys (Truthful rt) (Scavengeable rt job)
      (fun _ _ => True) h := by
    refine ⟨trivial, fun w r _ => ?_⟩
    rcases r with e | configs
    · trivial
    · refine Prog.Obeys.bind (p := resolvable rt job.settings configs)
        ((resolvable_performs.makes fun _ _ ho => scavengeable_of_noDeletion ho).mono
          fun h' r hmakes => ?_)
      rcases r with e | resolved
      · trivial
      · exact scavengeGroups_obeys ⟨w, configs, h, h', .refl h', hmakes⟩ fun _ hg => hg
  refine Prog.Obeys.bind (hscavenge.mono fun h' r _ => ?_)
  rcases r with e | u <;> trivial

end obeys

section contract

variable {J : Type} [DecidableEq J] {rt : Runtime} {d : Default} {may : String → Prop}
  {crash : Prop} {jobs : J → ScavengeJob}

theorem scavengedContract : (scavengedCluster rt d may crash jobs).Contract (fun _ _ => True)
    (fun _ => Truthful rt) (Sum.elim (fun _ _ _ => True) fun j => Scavengeable rt (jobs j))
    (fun _ _ _ => True) (fun _ _ => True) where
  init _ _ := ⟨trivial, fun _ => trivial⟩
  env _ _ _ _ _ := trivial
  call t _ _ _ _ _ _ _ hx := by
    rcases t with k | j
    · exact ⟨hx.1, trivial⟩
    · exact ⟨hx.1, trivial⟩
  boot t h _ := by
    rcases t with k | j
    · exact Prog.performs_true.obeys (I := fun _ => True)
        (fun _ _ _ _ => ⟨trivial, fun _ _ => trivial⟩) trivial
    · exact scavenge_obeys
  done _ _ _ _ := trivial
  crash _ _ _ := trivial

end contract

end SaltOperator
