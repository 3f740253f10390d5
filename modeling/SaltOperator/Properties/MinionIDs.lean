import SaltOperator.Cluster.Lifecycle
import SaltOperator.Cluster.KeyState
import SaltOperator.Cluster.Run

/-!
# One VM for each preseeded minion ID

In preseed mode a VM's name becomes its minion ID, and VMs of one name in
different namespaces want the same. `runPreseedKey` lists all VMs first and goes
on if no other one records the ID, but records it only after several calls to
RaaS: two workers may both look before either has recorded.

A VM *claims* its name from the time its worker found it free until it is gone
(`Claims`). If no worker finds the name free while another VM of that name has
found it free too, or has a key pair it does not record (`SoleClaim`), then **at
most one VM claims a name** (`claims_apart`), and with it
`preseed_minionID_unique`: no two VMs record one preseeded ID, and no key pair is
generated for a VM while another one has one. Without the condition two VMs record
the same ID (`preseed_minionID_shared`).
-/

namespace SaltOperator

namespace History

/-- The worker looked for another owner of its minion ID in its last pass, and
found none. -/
def FoundFree (h : History) : Prop := ∃ m, h.lastVM = some m ∧ h.CheckedFree m

/-- Whether the call generated a key pair for `minionID`. -/
def generates (minionID : String) : Made → Bool
  | ⟨_, .salt _ (.genAcceptKey id _), .ok (some _)⟩ => id = minionID
  | _ => false

/-- Whether a key pair was generated for `minionID`. -/
def Generated (minionID : String) (h : History) : Prop := ∃ c ∈ h, generates minionID c = true

end History

/-- The VM of this name, slot and worker has a claim to its name as minion ID. -/
def Claims (name : String) (s : Slot) (h : History) : Prop :=
  h.FoundFree ∨ ∃ vm, s = .live vm ∧ (h.Generated name ∨ vm.Preseeded)

/-- No worker finds its minion ID free while another VM of the same name found it
free in its last pass, or exists and has a key pair. -/
def SoleClaim (c : ClusterCfg) (act : ClusterAction) (_ : ClusterCfg) : Prop :=
  ∀ k list m, act = .call k (.listVMs none) (.ok list) → History.lastVM (c.hist k) = some m →
    ownerIn m m.name list = none → ∀ j, j ≠ k → j.name = k.name →
      ¬ History.FoundFree (c.hist j) ∧
      ∀ vm, c.world.vms j = .live vm → ¬ History.Generated j.name (c.hist j)

section claims

variable {rt : Runtime} {d : Default} {crash : Prop}

/-! ## One step -/

theorem Claims.mono {name : String} {s s' : Slot} {h h' : History} (hc : Claims name s' h')
    (hfree : h'.FoundFree → h.FoundFree) (hgen : h'.Generated name → h.Generated name ∨ h.FoundFree)
    (hlive : ∀ vm', s' = .live vm' → ∃ vm, s = .live vm ∧ (vm'.Preseeded →
      vm.Preseeded ∨ h.FoundFree)) : Claims name s h := by
  rcases hc with hf | ⟨vm', hs', hg | hpre⟩
  · exact .inl (hfree hf)
  · obtain ⟨vm, hs, -⟩ := hlive vm' hs'
    rcases hgen hg with hg | hf
    · exact .inr ⟨vm, hs, .inl hg⟩
    · exact .inl hf
  · obtain ⟨vm, hs, hp⟩ := hlive vm' hs'
    rcases hp hpre with hpre | hf
    · exact .inr ⟨vm, hs, .inr hpre⟩
    · exact .inl hf

/-- A call that generates no key pair adds none. -/
theorem generated_cons {name : String} {m : Made} {h : History}
    (hm : History.generates name m = false) (hg : History.Generated name (m :: h)) :
    h.Generated name := by
  obtain ⟨c, hc, hgen⟩ := hg
  rcases List.mem_cons.mp hc with rfl | hc
  · rw [hm] at hgen
    cases hgen
  · exact ⟨c, hc, hgen⟩

/-- A call that hands the worker no object and is no look at the owners. -/
theorem foundFree_cons {m : Made} {h : History} (hv : m.vm? = none)
    (hc : ∀ vm, History.CheckedFree vm (m :: h) → h.CheckedFree vm)
    (hf : History.FoundFree (m :: h)) : h.FoundFree := by
  obtain ⟨vm, hlast, hfree⟩ := hf
  refine ⟨vm, ?_, hc vm hfree⟩
  unfold History.lastVM at hlast
  rwa [List.findSome?_cons, hv] at hlast

/-- Such a call that generates no key pair gives no claim. -/
theorem Claims.of_cons {name : String} {s : Slot} {m : Made} {h : History}
    (hc : Claims name s (m :: h)) (hfree : History.FoundFree (m :: h) → h.FoundFree)
    (hgen : History.generates name m = false) : Claims name s h :=
  hc.mono hfree (fun hg => .inl (generated_cons hgen hg)) fun vm hvm => ⟨vm, hvm, .inl⟩

/-- The only call by which a worker gets a claim is a look at the owners that
finds none. -/
theorem Claims.of_call {w : World} {H : NamespacedName → History} {t : NamespacedName} {o : Op}
    {a : o.Ans} (hs : Sound w H) (hp : Permitted rt crash t (H t) o) (ha : Answers rt w o a)
    (hc : Claims t.name ((effect w o a).vms t) (⟨w, o, a⟩ :: H t)) :
    Claims t.name (w.vms t) (H t) ∨ ∃ list m, (⟨w, o, a⟩ : Made) = ⟨w, .listVMs none, .ok list⟩ ∧
      (H t).lastVM = some m ∧ ownerIn m m.name list = none := by
  by_cases hpatch : ∃ base obj vm, (⟨w, o, a⟩ : Made) = ⟨w, .patchVM base obj, .ok vm⟩
  · -- a patch: the object has the UID and the name it had, and only a worker that found the ID
    -- free records it
    obtain ⟨base, obj, vm, heq⟩ := hpatch
    cases heq
    obtain ⟨cur, version, hcur, -, rfl⟩ := ha
    have hpromised : Promised rt ⟨w, .patchVM base obj, .ok (.patched version base obj cur)⟩ :=
      hs.patch_promised hp hcur
    obtain ⟨hkey', huid, hown⟩ := hpromised
    have hkey := hs.patch_key hp
    rw [hkey] at hcur
    have hbase := hs.copy t base cur hp.1 hcur
    refine .inl (hc.mono ?_ (fun hg => .inl (generated_cons rfl hg)) ?_)
    · rintro ⟨m, hm, hfree⟩
      cases hm
      exact ⟨base, hp.1, History.CheckedFree.congr huid.symm
        (congrArg NamespacedName.name hkey').symm (h := H t) hfree⟩
    · intro vm' hvm'
      refine ⟨cur, hcur, fun hpre => ?_⟩
      simp only [effect, World.setVM, hkey, Function.update_self] at hvm'
      rw [settled_eq_live hvm'] at hpre
      have hobj : obj.Preseeded := (OwnEq.preseeded hown).mp hpre
      rcases hp.preseeded hobj with ⟨hb, -⟩ | ⟨hfree, -⟩
      · exact .inl (hbase.preseeded.mp hb)
      · exact .inr ⟨base, hp.1, hfree⟩
  · have hno : ∀ base obj vm, (⟨w, o, a⟩ : Made) ≠ ⟨w, .patchVM base obj, .ok vm⟩ :=
      fun base obj vm heq => hpatch ⟨base, obj, vm, heq⟩
    rw [effect_vms hno] at hc
    cases o with
    | getVM key =>
      refine .inl (hc.of_cons ?_ rfl)
      rintro ⟨m, -, hfalse⟩
      exact hfalse.elim
    | listVMs nspace =>
      cases nspace with
      | some ns => exact .inl (hc.of_cons (foundFree_cons rfl fun _ => id) rfl)
      | none =>
        cases a with
        | error e => exact .inl (hc.of_cons (foundFree_cons rfl fun _ => id) rfl)
        | ok list =>
          by_cases hfree : ∃ m, (H t).lastVM = some m ∧ ownerIn m m.name list = none
          · obtain ⟨m, hm, hnone⟩ := hfree
            exact .inr ⟨list, m, rfl, hm, hnone⟩
          · refine .inl (hc.of_cons ?_ rfl)
            rintro ⟨m, hm, hnone⟩
            exact absurd ⟨m, hm, hnone⟩ hfree
    | patchVM base obj =>
      cases a with
      | error e => exact .inl (hc.of_cons (foundFree_cons rfl fun _ => id) rfl)
      | ok vm => exact absurd rfl (hno base obj vm)
    | salt conn call =>
      cases call with
      | genAcceptKey id force =>
        -- a key pair is generated by a worker that has found the ID free
        obtain ⟨m, hm, -, hpre⟩ := hp
        exact .inl (.inl ⟨m, hm, hpre.free⟩)
      | _ => exact .inl (hc.of_cons (foundFree_cons rfl fun _ => id) rfl)
    | _ => exact .inl (hc.of_cons (foundFree_cons rfl fun _ => id) rfl)

/-! ## Runs -/

/-- A key pair is generated for the name of a VM the worker was sent. -/
theorem generated_name {c : ClusterCfg} (h : (cluster rt d notOwn crash).Reach c)
    {j : NamespacedName} {id : String} (hg : History.Generated id (c.hist j)) :
    id = j.name ∧ History.served (c.hist j) ≠ [] := by
  refine (contract rt d crash).invariantIf (K := fun _ H => ∀ j id, History.Generated id (H j) →
    id = j.name ∧ History.served (H j) ≠ []) ?_ (fun _ _ _ _ _ _ hK => hK) ?_ h j id hg
  · rintro w - j id ⟨m, hm, -⟩
    cases hm
  · intro c t o a w' next _ _ _ _ hs hp hK j id hg
    rcases eq_or_ne j t with rfl | hj
    · rw [Function.update_self] at hg ⊢
      have grown : ∀ {m : Made}, History.served (c.hist j) ≠ [] →
          History.served (m :: c.hist j) ≠ [] := by
        intro m hne
        unfold History.served at hne ⊢
        rw [List.filterMap_cons]
        split
        · exact hne
        · exact List.cons_ne_nil _ _
      by_cases hnew : History.generates id ⟨c.world, o, a⟩ = true
      · -- the call is one that Permitted speaks about
        cases o with
        | salt conn call =>
          cases call with
          | genAcceptKey id' force =>
            obtain ⟨m, hm, rfl, -⟩ := hp
            have hmem := lastVM_mem_served hm
            cases a with
            | error e => cases hnew
            | ok pair =>
              cases pair with
              | none => cases hnew
              | some pair =>
                have hid : m.name = id := by simpa [History.generates] using hnew
                refine ⟨?_, grown (List.ne_nil_of_mem hmem)⟩
                rw [← hid]
                exact congrArg NamespacedName.name (hs.servedKey j m hmem)
          | _ => cases hnew
        | _ => cases hnew
      · rw [Bool.not_eq_true] at hnew
        obtain ⟨hid, hne⟩ := hK j id (generated_cons hnew hg)
        exact ⟨hid, grown hne⟩
    · rw [Function.update_of_ne hj] at hg ⊢
      exact hK j id hg

/-- A new VM has no claim. -/
theorem Sound.not_claims_fresh {w : World} {H : NamespacedName → History} (hs : Sound w H)
    {vm : VirtualMachine} (hf : vm.Fresh) (hn : vm.key ∉ w.names)
    (hgen : ∀ id, (H vm.key).Generated id → (H vm.key).served ≠ []) :
    ¬ Claims vm.key.name (.live vm) (H vm.key) := by
  have hunused : w.vms vm.key = .unused := (hs.names _).mpr hn
  rintro (⟨m, hm, -⟩ | ⟨vm', hvm', hg | hpre⟩)
  · exact hs.used _ m (lastVM_mem_served hm) hunused
  · obtain ⟨m, hm⟩ := List.exists_mem_of_ne_nil _ (hgen _ hg)
    exact hs.used _ m hm hunused
  · cases hvm'
    rw [VirtualMachine.Preseeded, VirtualMachine.annotationOf_eq_getD,
      hf.annotations _ (by decide)] at hpre
    exact absurd hpre (by decide)

/-- What the others do gives no claim. -/
theorem Claims.of_tenant {w w' : World} {H : NamespacedName → History} (hs : Sound w H)
    (ht : Tenant notOwn w w') (hgen : ∀ j id, (H j).Generated id → (H j).served ≠ [])
    {k : NamespacedName} (hc : Claims k.name (w'.vms k) (H k)) : Claims k.name (w.vms k) (H k) := by
  cases ht with
  | create vm hf hn hu =>
    rcases eq_or_ne k vm.key with rfl | hk
    · simp only [World.setVM, Function.update_self] at hc
      exact absurd hc (hs.not_claims_fresh hf hn (hgen _))
    · simpa only [World.setVM, Function.update_of_ne hk] using hc
  | edit j before after hb he =>
    rcases eq_or_ne k j with rfl | hk
    · have hown : OwnEq after before := fun a ha => he.annotations a fun hno => hno ha
      simp only [World.setVM, Function.update_self] at hc
      refine hc.mono id .inl fun vm hvm => ⟨before, hb, fun hpre => ?_⟩
      cases hvm
      exact .inl (hown.preseeded.mp hpre)
    · simpa only [World.setVM, Function.update_of_ne hk] using hc
  | remove j vm hvm _ =>
    rcases eq_or_ne k j with rfl | hk
    · simp only [World.setVM, Function.update_self] at hc
      refine hc.mono id .inl fun vm hvm => ?_
      cases hvm
    · simpa only [World.setVM, Function.update_of_ne hk] using hc
  | clock now _ => exact hc
  | secrets s => exact hc
  | restart => exact hc
  | configs cfgs => exact hc
  | raas keys => exact hc

/-- A look at the owners finds every VM that records the name as preseeded. -/
theorem ownerIn_ne_none {c : ClusterCfg} (h : (cluster rt d notOwn crash).Reach c)
    {j k : NamespacedName} (hjk : j ≠ k) (hname : j.name = k.name) {m vm : VirtualMachine}
    (hm : m ∈ History.served (c.hist k)) (hvm : c.world.vms j = .live vm) (hpre : vm.Preseeded)
    {list : List VirtualMachine} (hlist : list.Perm (c.world.vmList none)) :
    ownerIn m m.name list ≠ none := by
  have hs := ((contract rt d crash).keeps h).1
  have hmem : vm ∈ list := hlist.mem_iff.mpr (World.mem_vmList (hs.mem_names hvm) hvm)
  have hid : vm.annotationOf annotationMinionID = m.name := by
    rw [preseed_minionID h hvm hpre, hname]
    exact (congrArg NamespacedName.name (hs.servedKey k m hm)).symm
  unfold ownerIn
  rw [ne_eq, List.find?_eq_none]
  intro hnone
  exact hnone vm hmem (by simp [hs.served_uid_ne hm hvm hjk, hid])

/-- **At most one VM claims a name.** -/
theorem claims_apart {c : ClusterCfg} (h : (cluster rt d notOwn crash).ReachIf SoleClaim c)
    {j k : NamespacedName} (hjk : j ≠ k) (hname : j.name = k.name)
    (hj : Claims j.name (c.world.vms j) (c.hist j)) :
    ¬ Claims k.name (c.world.vms k) (c.hist k) := by
  refine (contract rt d crash).invariantIf (K := fun w H => ∀ j k, j ≠ k → j.name = k.name →
    Claims j.name (w.vms j) (H j) → ¬ Claims k.name (w.vms k) (H k)) ?_ ?_ ?_ h j k hjk hname hj
  · -- nobody has done anything yet
    rintro w ⟨-, hunused, -⟩ j k - - (⟨m, hm, -⟩ | ⟨vm, hvm, -⟩)
    · cases hm
    · rw [hunused j] at hvm
      cases hvm
  · intro c w' hr ht _ hs hK j k hjk hname hj hk
    have hgen : ∀ j id, History.Generated id (c.hist j) → History.served (c.hist j) ≠ [] :=
      fun _ _ hg => (generated_name hr hg).2
    exact hK j k hjk hname (hj.of_tenant hs ht hgen) (hk.of_tenant hs ht hgen)
  · intro c t o a w' next hr _ hx hallow hs hp hK
    obtain ⟨hans, rfl⟩ := hx
    have other : ∀ k, k ≠ t → (effect c.world o a).vms k = c.world.vms k :=
      fun k hk => hs.effect_vms_of_ne hp hk
    -- a worker that has just found its name free is the only one with a claim
    have sole : ∀ j, j ≠ t → j.name = t.name → Claims j.name (c.world.vms j) (c.hist j) →
        ¬ Claims t.name ((effect c.world o a).vms t) (⟨c.world, o, a⟩ :: c.hist t) := by
      intro j hj hname hclaim hnew
      rcases hnew.of_call hs hp hans with hold | ⟨list, m, heq, hm, hnone⟩
      · exact hK j t hj hname hclaim hold
      · cases heq
        obtain ⟨hfree, hgen⟩ := hallow t list m rfl hm hnone j hj hname
        rcases hclaim with hf | ⟨vm, hvm, hg | hpre⟩
        · exact hfree hf
        · exact hgen vm hvm hg
        · exact ownerIn_ne_none hr hj hname (lastVM_mem_served hm) hvm hpre hans hnone
    intro j k hjk hname hj hk
    rcases eq_or_ne j t with rfl | hjt
    · rw [other k hjk.symm, Function.update_of_ne hjk.symm] at hk
      rw [Function.update_self] at hj
      exact sole k hjk.symm hname.symm hk hj
    · rw [other j hjt, Function.update_of_ne hjt] at hj
      rcases eq_or_ne k t with rfl | hkt
      · rw [Function.update_self] at hk
        exact sole j hjt hname hj hk
      · rw [other k hkt, Function.update_of_ne hkt] at hk
        exact hK j k hjk hname hj hk

end claims

/-- In every run in which workers find their minion IDs free one at a time: no two
VMs record the same preseeded minion ID, and no key pair is generated for a minion
ID on behalf of one VM once there is one for another VM that exists. -/
theorem preseed_minionID_unique (rt : Runtime) (d : Default) (crash : Prop) {c : ClusterCfg}
    (h : (cluster rt d notOwn crash).ReachIf SoleClaim c) :
    (∀ j k a b, j ≠ k → c.world.vms j = .live a → c.world.vms k = .live b →
      a.annotationOf annotationMatchMethod = matchMethodPreseed →
      b.annotationOf annotationMatchMethod = matchMethodPreseed →
      a.annotationOf annotationMinionID ≠ b.annotationOf annotationMinionID) ∧
    ∀ k conn minionID force answer c', (cluster rt d notOwn crash).Step c
      (.call k (.salt conn (.genAcceptKey minionID force)) answer) c' →
      ∀ j vm, j ≠ k → c.world.vms j = .live vm → ¬ History.Generated minionID (c.hist j) := by
  refine ⟨fun j k a b hjk ha hb hpa hpb hid => ?_, ?_⟩
  · have hname : j.name = k.name := by
      rw [← preseed_minionID h.reach ha hpa, hid, preseed_minionID h.reach hb hpb]
    exact claims_apart h hjk hname (.inr ⟨a, ha, .inr hpa⟩) (.inr ⟨b, hb, .inr hpb⟩)
  · intro k conn minionID force answer c' hs j vm hjk hvm hg
    cases hs with
    | call _ hth _ =>
    have hsound := ((contract rt d crash).keeps h.reach).1
    obtain ⟨m, hm, rfl, hpre⟩ := (contract rt d crash).permitted h.reach hth
    have hk : m.name = k.name :=
      congrArg NamespacedName.name (hsound.servedKey k m (lastVM_mem_served hm))
    have hj : m.name = j.name := (generated_name h.reach hg).1
    exact claims_apart h hjk (hj.symm.trans hk) (.inr ⟨vm, hvm, .inl (hj ▸ hg)⟩)
      (.inl ⟨m, hm, hpre.free⟩)

/-- A worker looks when no other VM of its name exists, or finds one that records
it. -/
def Sample.lookAlone (c : ClusterCfg) : ClusterAction → Bool
  | .call k (.listVMs none) (.ok list) =>
    (History.lastVM (c.hist k)).all fun m => (ownerIn m m.name list).isSome ||
      c.world.names.all fun j => j = k || j.name ≠ k.name
  | _ => true

theorem Sample.soleClaim_of_lookAlone {rt : Runtime} {d : Default} {crash : Prop}
    {c c' : ClusterCfg} {act : ClusterAction} (h : (cluster rt d notOwn crash).Reach c)
    (hok : Sample.lookAlone c act = true) : SoleClaim c act c' := by
  rintro k list m rfl hm hnone j hj hname
  have hs := ((contract rt d crash).keeps h).1
  have hnames : j ∉ c.world.names := by
    simp only [Sample.lookAlone, hm, hnone, Option.all_some, Option.isSome_none, Bool.false_or,
      List.all_eq_true, Bool.or_eq_true, decide_eq_true_eq] at hok
    intro hmem
    rcases hok j hmem with heq | hne
    · exact hj heq
    · exact hne hname
  have hunused := (hs.names j).mpr hnames
  refine ⟨fun ⟨m', hm', _⟩ => hs.used j m' (lastVM_mem_served hm') hunused, fun vm hvm _ => ?_⟩
  rw [hunused] at hvm
  cases hvm

/-- VMs of one name in two namespaces, one after the other: the second is refused. -/
theorem preseed_minionID_one : ∃ c a b,
    (cluster Sample.runtime Sample.noDefault notOwn True).ReachIf SoleClaim c ∧
    c.world.vms ⟨"a", "web"⟩ = .live a ∧ c.world.vms ⟨"b", "web"⟩ = .live b ∧
    a.annotationOf annotationMatchMethod = matchMethodPreseed ∧
    a.annotationOf annotationMinionID = "web" ∧
    b.annotationOf annotationKeyStatus = keyStatusFailed ∧
    ¬ (b.annotationOf annotationMatchMethod = matchMethodPreseed ∧
      b.annotationOf annotationMinionID = "web") := by
  have hrun : (runActs Sample.noDefault notOwn True (fun c act _ => Sample.lookAlone c act)
      ([.create (Sample.vm "a" "u1")] ++ work ⟨"a", "web"⟩ (Sample.preseed "a") 18 ++
        [.create (Sample.vm "b" "u2")] ++ work ⟨"b", "web"⟩ (Sample.preseed "b") 14)
      (.start Sample.time Sample.secrets)).any (fun c =>
        (c.world.vms ⟨"a", "web"⟩).vm?.any (fun vm =>
          vm.annotationOf annotationMatchMethod = matchMethodPreseed &&
          vm.annotationOf annotationMinionID = "web") &&
        (c.world.vms ⟨"b", "web"⟩).vm?.any fun vm =>
          vm.annotationOf annotationKeyStatus = keyStatusFailed) = true := by
    decide +kernel
  obtain ⟨c, hc, hcheck⟩ := exists_reachIf_of_run
    (fun _ _ _ hr h => Sample.soleClaim_of_lookAlone hr.reach h) hrun
  rw [Bool.and_eq_true] at hcheck
  obtain ⟨a, ha, hra⟩ := Slot.vm?_any hcheck.1
  obtain ⟨b, hb, hrb⟩ := Slot.vm?_any hcheck.2
  simp only [Bool.and_eq_true, decide_eq_true_eq] at hra hrb
  refine ⟨c, a, b, hc, ha, hb, hra.1, hra.2, hrb, fun ⟨hpre, hid⟩ => ?_⟩
  exact (preseed_minionID_unique _ _ _ hc).1 _ _ a b (by decide) ha hb hra.1 hpre
    (hra.2.trans hid.symm)

/-- VMs of one name in two namespaces at the same time: the worker of the first
looks at the owners, the worker of the second makes its whole pass, and then the
first goes on. Both record the minion ID. -/
theorem preseed_minionID_shared : ∃ c a b,
    (cluster Sample.runtime Sample.noDefault notOwn True).Reach c ∧
    c.world.vms ⟨"a", "web"⟩ = .live a ∧ c.world.vms ⟨"b", "web"⟩ = .live b ∧
    a.annotationOf annotationMatchMethod = matchMethodPreseed ∧
    b.annotationOf annotationMatchMethod = matchMethodPreseed ∧
    a.annotationOf annotationMinionID = "web" ∧ b.annotationOf annotationMinionID = "web" := by
  have hrun : (Sample.play ([.create (Sample.vm "a" "u1"), .create (Sample.vm "b" "u2")] ++
      work ⟨"a", "web"⟩ (Sample.preseed "a") 10 ++ work ⟨"b", "web"⟩ (Sample.preseed "b") 18 ++
      work ⟨"a", "web"⟩ (Sample.preseed "a") 8)).any (fun c =>
        (c.world.vms ⟨"a", "web"⟩).vm?.any (fun vm =>
          vm.annotationOf annotationMatchMethod = matchMethodPreseed &&
          vm.annotationOf annotationMinionID = "web") &&
        (c.world.vms ⟨"b", "web"⟩).vm?.any fun vm =>
          vm.annotationOf annotationMatchMethod = matchMethodPreseed &&
          vm.annotationOf annotationMinionID = "web") = true := by
    decide +kernel
  obtain ⟨c, hc, hcheck⟩ := Sample.exists_reach hrun
  rw [Bool.and_eq_true] at hcheck
  obtain ⟨a, ha, hra⟩ := Slot.vm?_any hcheck.1
  obtain ⟨b, hb, hrb⟩ := Slot.vm?_any hcheck.2
  simp only [Bool.and_eq_true, decide_eq_true_eq] at hra hrb
  exact ⟨c, a, b, hc, ha, hb, hra.1, hrb.1, hra.2, hrb.2⟩

end SaltOperator
