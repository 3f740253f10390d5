import SaltOperator.Cluster.Lifecycle
import SaltOperator.Cluster.Run

/-!
# The pillar a highstate ran against

A dispatched highstate is recorded with a hash of the VM's intent annotations. The
hash should be of an intent the pillar could have: one that the VM carried when the
last refresh of the pillar was started.

- On the Day-2 path the hash is computed before the refresh, and this always holds.
- On the bootstrap path refresh and dispatch are two passes, and the hash is
  computed in the second. It holds if nobody changes the intent in between
  (`IntentSettled`).

**In every run in which the intent is settled between a refresh and its highstate,
no recorded intent is newer than the pillar** (`recorded_intent_in_pillar`). A role
that a tenant sets in between is recorded as applied and was not
(`recorded_intent_not_in_pillar`).
-/

namespace SaltOperator

/-! ## The intent of a version -/

/-- Every version after that of `srv` has its intent. -/
def SameIntentSince (versions : List VirtualMachine) (srv : VirtualMachine) : Prop :=
  ∀ v ∈ versions, srv.resourceVersion < v.resourceVersion →
    intentSet v.annotations = intentSet srv.annotations

/-- Then so has every object that was read later. -/
theorem SameIntentSince.intentSet_eq {versions : List VirtualMachine} {srv m : VirtualMachine}
    (hs : SameIntentSince versions srv) (hsrv : VersionOf versions srv) (hm : VersionOf versions m)
    (hle : srv.resourceVersion ≤ m.resourceVersion) :
    intentSet m.annotations = intentSet srv.annotations := by
  obtain ⟨u, rest, hu, htu⟩ := hm
  obtain ⟨u', rest', hu', htu'⟩ := hsrv
  rw [← htu.intentSet]
  by_cases hlt : srv.resourceVersion < u.resourceVersion
  · exact hs u (mem_of_upTo hu) hlt
  · -- no version between the two: both are read off the same one
    have heq : u = u' := by
      rw [← upTo_upTo hle, hu] at hu'
      unfold upTo at hu'
      rw [List.dropWhile_cons_of_neg (by simpa using hlt)] at hu'
      exact (List.cons.inj hu').1
    rw [heq, htu'.intentSet]

/-! ## The last refresh -/

/-- The calls before the last successful refresh. -/
def History.beforeRefresh : History → History
  | [] => []
  | ⟨_, .salt _ (.refreshPillar _), .ok true⟩ :: h => h
  | _ :: h => beforeRefresh h

theorem History.beforeRefresh_suffix : ∀ h : History, h.beforeRefresh <:+ h
  | [] => List.suffix_refl _
  | m :: h => by
    unfold beforeRefresh
    split
    · rename_i heq
      cases heq
    · rename_i heq
      cases heq
      exact List.suffix_cons _ _
    · rename_i heq
      cases heq
      exact (beforeRefresh_suffix h).trans (List.suffix_cons _ _)

/-- Whether the call is a successful refresh. -/
def Made.refreshes : Made → Bool
  | ⟨_, .salt _ (.refreshPillar _), .ok true⟩ => true
  | _ => false

theorem refresh_cons {m : Made} {h : History} (hm : m.refreshes = false) :
    History.lastRefresh (m :: h) = h.lastRefresh ∧
    History.beforeRefresh (m :: h) = h.beforeRefresh ∧
    (History.refreshPending (m :: h) = true → h.refreshPending = true) := by
  obtain ⟨w, o, a⟩ := m
  cases o with
  | salt conn c =>
    cases c with
    | refreshPillar minionID =>
      cases a with
      | error e => exact ⟨rfl, rfl, id⟩
      | ok b =>
        cases b with
        | false => exact ⟨rfl, rfl, id⟩
        | true => cases hm
    | _ => exact ⟨rfl, rfl, id⟩
  | getVM key => exact ⟨rfl, rfl, nofun⟩
  | patchVM base obj => exact ⟨rfl, rfl, nofun⟩
  | _ => exact ⟨rfl, rfl, id⟩

/-! ## What the patches do to the chain -/

/-- A highstate was dispatched by the calls `h` and is recorded by the patch from
`base` to `obj`: on the bootstrap path with the intent of `base`, on the Day-2 path
with the intent of an object that was read before the refresh. -/
inductive Dispatched (rt : Runtime) (h : History) (base obj : VirtualMachine) : Prop where
  | bootstrap : base.annotationOf annotationSaltStatus = saltStatusPillarRefreshed →
      obj.annotationOf annotationRolesHash = computeIntentHash rt base.annotations →
      Dispatched rt h base obj
  | day2 (seen : VirtualMachine) (w : World) :
      base.annotationOf annotationSaltStatus ≠ saltStatusPillarRefreshed →
      h.lastRefresh = some w → seen ∈ h.beforeRefresh.served →
      obj.annotationOf annotationRolesHash = computeIntentHash rt seen.annotations →
      Dispatched rt h base obj

/-- What a patch makes of the chain's status. -/
theorem Write.saltStatus {rt : Runtime} {h : History} {m : VirtualMachine}
    {additions : List (String × String)} (hw : Write rt h m additions) :
    (m.withAnnotations additions).annotationOf annotationSaltStatus =
      m.annotationOf annotationSaltStatus ∨
    (∃ s ∉ [saltStatusPillarRefreshed, saltStatusHighstateDispatched],
      (m.withAnnotations additions).annotationOf annotationSaltStatus = s) ∨
    ((m.withAnnotations additions).annotationOf annotationSaltStatus =
        saltStatusPillarRefreshed ∧
      m.annotationOf annotationSaltStatus = saltStatusPinged ∧ h.refreshPending = true) ∨
    ((m.withAnnotations additions).annotationOf annotationSaltStatus =
        saltStatusHighstateDispatched ∧ Dispatched rt h m (m.withAnnotations additions)) := by
  rw [VirtualMachine.annotationOf_withAnnotations]
  cases hw with
  | refreshed hc href => exact .inr (.inr (.inl ⟨rfl, hc.2.2, href⟩))
  | dispatched jid hc hj hh =>
    refine .inr (.inr (.inr ⟨rfl, .bootstrap hc.2.2 ?_⟩))
    rw [VirtualMachine.annotationOf_withAnnotations]
    rfl
  | day2Dispatched seen cfg jid hd hj hh =>
    obtain ⟨w, conn, id, w', conn', h', rfl, hseen⟩ := hh
    have hrest := hd.snapshot.atRest hd.rest
    refine .inr (.inr (.inr ⟨?_, .day2 seen w' (fun hs => ?_) rfl hseen ?_⟩))
    · rw [lookup_withMarkers _ (by decide) (by decide) (by decide)]
      rfl
    · exact hrest.2.2 (by rw [hs]; decide)
    · exact congrArg Lifecycle.rolesHash (lifecycle_marked _)
  | reset vm cfg =>
    rw [lookup_append_handled _ (by decide) (by decide)]
    exact .inr (.inl ⟨"", by decide, rfl⟩)
  | restart vm cfg =>
    rw [lookup_append_handled _ (by decide) (by decide)]
    exact .inr (.inl ⟨"", by decide, rfl⟩)
  | day2RefreshFailed seen cfg =>
    rw [lookup_withMarkers _ (by decide) (by decide) (by decide)]
    exact .inr (.inl ⟨saltStatusFailedPillarRefresh, by decide, rfl⟩)
  | day2DispatchFailed seen cfg =>
    rw [lookup_withMarkers _ (by decide) (by decide) (by decide)]
    exact .inr (.inl ⟨saltStatusFailedHighstateDispatch, by decide, rfl⟩)
  | pingFailed => exact .inr (.inl ⟨saltStatusFailedPing, by decide, rfl⟩)
  | pinged => exact .inr (.inl ⟨saltStatusPinged, by decide, rfl⟩)
  | refreshFailed => exact .inr (.inl ⟨saltStatusFailedPillarRefresh, by decide, rfl⟩)
  | dispatchFailed => exact .inr (.inl ⟨saltStatusFailedHighstateDispatch, by decide, rfl⟩)
  | highstateReady => exact .inr (.inl ⟨saltStatusReady, by decide, rfl⟩)
  | highstateFailed => exact .inr (.inl ⟨saltStatusFailedHighstate, by decide, rfl⟩)
  | _ => exact .inl rfl

/-- A patch takes a VM to PillarRefreshed only from Pinged, after a refresh. -/
theorem Permitted.refreshed {rt : Runtime} {crash : Prop} {k : NamespacedName} {h : History}
    {base obj : VirtualMachine} (hp : Permitted rt crash k h (.patchVM base obj))
    (hobj : obj.annotationOf annotationSaltStatus = saltStatusPillarRefreshed) :
    base.annotationOf annotationSaltStatus = saltStatusPillarRefreshed ∨
      (base.annotationOf annotationSaltStatus = saltStatusPinged ∧ h.refreshPending = true) := by
  obtain ⟨-, ⟨additions, rfl, hw⟩ | hf, -⟩ := hp
  · rcases hw.saltStatus with hsame | ⟨s, hs, hnew⟩ | ⟨-, hpinged⟩ | ⟨hnew, -⟩
    · exact .inl (hsame ▸ hobj)
    · rw [← hnew, hobj] at hs
      exact absurd hs (by decide)
    · exact .inr hpinged
    · rw [hnew] at hobj
      exact absurd hobj (by decide)
  · have hsame : obj.annotationOf annotationSaltStatus = base.annotationOf annotationSaltStatus :=
      hf.ownEq.annotationOf (by decide)
    exact .inl (hsame ▸ hobj)

/-- A patch takes a VM to HighstateDispatched only to record a dispatch. -/
theorem Permitted.dispatched {rt : Runtime} {crash : Prop} {k : NamespacedName} {h : History}
    {base obj : VirtualMachine} (hp : Permitted rt crash k h (.patchVM base obj))
    (hobj : obj.annotationOf annotationSaltStatus = saltStatusHighstateDispatched)
    (hbase : base.annotationOf annotationSaltStatus ≠ saltStatusHighstateDispatched) :
    Dispatched rt h base obj := by
  obtain ⟨-, ⟨additions, rfl, hw⟩ | hf, -⟩ := hp
  · rcases hw.saltStatus with hsame | ⟨s, hs, hnew⟩ | ⟨hnew, -⟩ | ⟨-, hd⟩
    · exact absurd (hsame ▸ hobj) hbase
    · rw [← hnew, hobj] at hs
      exact absurd hs (by decide)
    · rw [hnew] at hobj
      exact absurd hobj (by decide)
    · exact hd
  · have hsame : obj.annotationOf annotationSaltStatus = base.annotationOf annotationSaltStatus :=
      hf.ownEq.annotationOf (by decide)
    exact absurd (hsame ▸ hobj) hbase

/-! ## Runs -/

/-- The pillar of the VM is refreshed and its highstate not dispatched yet: its
status says so, or will when the worker has written what it got. -/
def AwaitsHighstate (h : History) (vm : VirtualMachine) : Prop :=
  vm.annotationOf annotationSaltStatus = saltStatusPillarRefreshed ∨
    (vm.annotationOf annotationSaltStatus = saltStatusPinged ∧ h.refreshPending = true)

/-- Nobody changes the intent of the VM `k` while its pillar is refreshed and its first
highstate is not dispatched yet. -/
def IntentSettled (k : NamespacedName) : StepCondition := fun c act c' =>
  act = .env → ∀ before after, c.world.vms k = .live before → c'.world.vms k = .live after →
    AwaitsHighstate (c.hist k) before →
    intentSet after.annotations = intentSet before.annotations

/-- What holds of a VM's last refresh: what the worker had read before was not
newer, and while the VM waits for its highstate, its intent is the one of then. -/
structure RefreshInvariant (k : NamespacedName) (versions : List VirtualMachine) (h : History)
    (vm : VirtualMachine) : Prop where
  before : ∀ w m, h.lastRefresh = some w → m ∈ h.beforeRefresh.served →
    ∃ srv, w.vms k = .live srv ∧ m.resourceVersion ≤ srv.resourceVersion
  since : AwaitsHighstate h vm → ∃ w srv, h.lastRefresh = some w ∧ w.vms k = .live srv ∧
    srv.resourceVersion ≤ vm.resourceVersion ∧ VersionOf versions srv ∧
    SameIntentSince versions srv

theorem refreshInvariant {rt : Runtime} {d : Default} {crash : Prop} (k : NamespacedName) :
    VMInvariant rt d crash (IntentSettled k) fun key versions h vm =>
      key = k → RefreshInvariant k versions h vm := by
  constructor
  case fresh =>
    rintro h vm hf hserved -
    constructor
    · intro w m _ hm
      have hmem : m ∈ History.served h :=
        (h.beforeRefresh_suffix.sublist.filterMap Made.vm?).subset hm
      rw [hserved] at hmem
      cases hmem
    · have hnone : vm.annotationOf annotationSaltStatus = "" :=
        congrArg Lifecycle.saltStatus (lifecycle_fresh hf)
      intro hawait
      unfold AwaitsHighstate at hawait
      rw [hnone] at hawait
      rcases hawait with h | ⟨h, -⟩
      · exact absurd h (by decide)
      · exact absurd h (by decide)
  case edit =>
    intro c c' j before after _ hs hb he hafter hhist hallow hq hj
    subst hj
    replace hq := hq rfl
    have hown : OwnEq after before := fun a ha => he.annotations a fun hno => hno ha
    refine ⟨hq.before, fun hawait => ?_⟩
    have hawait' : AwaitsHighstate (c.hist j) before := by
      unfold AwaitsHighstate at hawait ⊢
      rwa [hown.annotationOf (by decide)] at hawait
    obtain ⟨w, srv, hw, hsrv, hle, hver, hsame⟩ := hq.since hawait'
    refine ⟨w, srv, hw, hsrv, hle.trans he.version.le, hver.cons (hle.trans_lt he.version), ?_⟩
    intro v hv hlt
    rcases List.mem_cons.mp hv with rfl | hv
    · rw [hallow rfl before v hb hafter hawait']
      exact hsame.intentSet_eq hver (hs.versionOf hb) hle
    · exact hsame v hv hlt
  case call =>
    intro c c' j o a vm _ hs hvm hp hans hno _ hq hj
    subst hj
    replace hq := hq rfl
    by_cases href : Made.refreshes ⟨c.world, o, a⟩ = true
    · -- the refresh is started in this world: nothing is newer than what the server has
      have hcall : History.lastRefresh (⟨c.world, o, a⟩ :: c.hist j) = some c.world ∧
          History.beforeRefresh (⟨c.world, o, a⟩ :: c.hist j) = c.hist j := by
        unfold Made.refreshes at href
        split at href
        · rename_i heq
          cases heq
          exact ⟨rfl, rfl⟩
        · cases href
      constructor
      · intro w m hw hm
        rw [hcall.1] at hw
        rw [hcall.2] at hm
        cases hw
        exact ⟨vm, hvm, hs.older j m hm vm hvm⟩
      · refine fun _ => ⟨c.world, vm, hcall.1, hvm, le_rfl, hs.versionOf hvm, fun v hv hlt => ?_⟩
        exact absurd hlt (hs.bound j vm hvm v hv).not_gt
    · rw [Bool.not_eq_true] at href
      obtain ⟨hlast, hbefore, hpending⟩ := refresh_cons (h := c.hist j) href
      refine ⟨?_, fun hawait => ?_⟩
      · rw [hlast, hbefore]
        exact hq.before
      · rw [hlast]
        exact hq.since (hawait.imp id fun ⟨hs, hr⟩ => ⟨hs, hpending hr⟩)
  case patch =>
    intro c c' j base obj cur version _ hs hcur hv hp hbase hnew _ hq hj
    subst hj
    replace hq := hq rfl
    refine ⟨hq.before, fun hawait => ?_⟩
    have hstatus : base.annotationOf annotationSaltStatus = cur.annotationOf annotationSaltStatus :=
      hbase.annotationOf (by decide)
    have hawait' : AwaitsHighstate (c.hist j) cur := by
      rcases hawait with hawait | ⟨-, hpending⟩
      · rw [hnew.annotationOf (by decide)] at hawait
        unfold AwaitsHighstate
        rw [← hstatus]
        exact hp.refreshed hawait
      · cases hpending
    obtain ⟨w, srv, hw, hsrv, hle, hver, hsame⟩ := hq.since hawait'
    exact ⟨w, srv, hw, hsrv, hle.trans hv, hver, hsame⟩

/-- The intent recorded with a highstate is one the VM already had when the last
successful refresh of its pillar was started: on the bootstrap path the hash is of
the intent of the worker's object `base`, on the Day-2 path of an object that was
read before the refresh. -/
def InPillar (rt : Runtime) (k : NamespacedName) (h : History) (base obj : VirtualMachine) : Prop :=
  ∃ w srv seen, h.lastRefresh = some w ∧ w.vms k = .live srv ∧
    (if base.annotationOf annotationSaltStatus = saltStatusPillarRefreshed then seen = base
      else seen ∈ h.beforeRefresh.served) ∧
    obj.annotationOf annotationRolesHash = computeIntentHash rt seen.annotations ∧
    (seen.resourceVersion ≤ srv.resourceVersion ∨
      intentSet seen.annotations = intentSet srv.annotations)

/-- **In every run in which nobody changes the intent of a VM between the refresh of
its pillar and its first highstate**, a patch that records a new highstate of that VM
records an intent that was in the pillar. -/
theorem recorded_intent_in_pillar (rt : Runtime) (d : Default) (crash : Prop) {c c' : ClusterCfg}
    {k : NamespacedName} {base obj vm : VirtualMachine}
    (h : (cluster rt d notOwn crash).ReachIf (IntentSettled k) c)
    (hs : (cluster rt d notOwn crash).Step c (.call k (.patchVM base obj) (.ok vm)) c')
    (hobj : obj.annotationOf annotationSaltStatus = saltStatusHighstateDispatched)
    (hbase : base.annotationOf annotationSaltStatus ≠ saltStatusHighstateDispatched) :
    InPillar rt k (c.hist k) base obj := by
  obtain ⟨cur, hcur, hpatch, -⟩ := patch_step h.reach hs
  have hsound := ((contract rt d crash).keeps h.reach).1
  have hp := hpatch.permitted
  have hinv := (refreshInvariant k).holds h hcur rfl
  cases hp.dispatched hobj hbase with
  | bootstrap hstatus hhash =>
    -- the server still has the status the worker read, so the VM awaits its highstate
    have hown : base.annotationOf annotationSaltStatus = cur.annotationOf annotationSaltStatus :=
      hpatch.copy.annotationOf (by decide)
    obtain ⟨w, srv, hw, hsrv, -, hver, hsame⟩ := hinv.since (.inl (hown ▸ hstatus))
    refine ⟨w, srv, base, hw, hsrv, by rw [if_pos hstatus], hhash, ?_⟩
    rcases le_total base.resourceVersion srv.resourceVersion with hle | hle
    · exact .inl hle
    · have hbver := hsound.servedVersion k base (lastVM_mem_served hp.1)
      exact .inr (hsame.intentSet_eq hver hbver hle)
  | day2 seen w hstatus hw hseen hhash =>
    obtain ⟨srv, hsrv, hle⟩ := hinv.before w seen hw hseen
    exact ⟨w, srv, seen, hw, hsrv, by rwa [if_neg hstatus], hhash, .inl hle⟩

/-! ## An intent that changes before the refresh, and one that changes after it -/

instance (h : History) (vm : VirtualMachine) : Decidable (AwaitsHighstate h vm) :=
  inferInstanceAs (Decidable (_ ∨ _ ∧ _))

/-- A step is checked for `IntentSettled`. -/
def intentSettled (k : NamespacedName) (c : ClusterCfg) (act : ClusterAction) (c' : ClusterCfg) :
    Bool :=
  match act, c.world.vms k, c'.world.vms k with
  | .env, .live before, .live after => !decide (AwaitsHighstate (c.hist k) before) ||
      (intentSet after.annotations).toList = (intentSet before.annotations).toList
  | _, _, _ => true

theorem intentSettled_sound {k : NamespacedName} {c c' : ClusterCfg} {act : ClusterAction}
    (h : intentSettled k c act c' = true) : IntentSettled k c act c' := by
  rintro rfl before after hb ha hawait
  unfold intentSettled at h
  simp only [hb, ha, hawait, decide_true, Bool.not_true, Bool.false_or, decide_eq_true_eq] at h
  exact Std.ExtTreeMap.toList_inj.mp h

/-- A tenant gives the VM a role while it waits for its first ping. The highstate
is recorded with the new role, and the pillar had it. -/
theorem recorded_intent_in_pillar_bootstrap : ∃ c c' base obj vm,
    (cluster Sample.runtime Sample.noDefault notOwn False).ReachIf
      (IntentSettled Sample.key) c ∧
    (cluster Sample.runtime Sample.noDefault notOwn False).Step c
      (.call Sample.key (.patchVM base obj) (.ok vm)) c' ∧
    base.annotationOf "salt.vcf.io/roles" = "web" ∧
    InPillar Sample.runtime Sample.key (c.hist Sample.key) base obj := by
  have hrun : (runActs Sample.noDefault notOwn False (intentSettled Sample.key)
      ([.create (Sample.vm "a" "u1")] ++ work Sample.key Sample.discovery 40 ++
        [.annotate Sample.key "salt.vcf.io/roles" "web", .clock (Sample.time + 60 * Go.second)] ++
        work Sample.key Sample.discovery 32) (.start Sample.time Sample.secrets)).any (fun c =>
      (c.pendingPatch Sample.key).any (fun p => p.2.key = Sample.key &&
        p.1.annotationOf "salt.vcf.io/roles" = "web" &&
        p.1.annotationOf annotationSaltStatus = saltStatusPillarRefreshed &&
        p.2.annotationOf annotationSaltStatus = saltStatusHighstateDispatched) &&
      (c.world.vms Sample.key).vm?.any fun _ => true) = true := by
    decide +kernel
  obtain ⟨c, hc, hcheck⟩ := exists_reachIf_of_run
    (fun _ _ _ _ hok => intentSettled_sound hok) hrun
  rw [Bool.and_eq_true] at hcheck
  obtain ⟨base, obj, next, hth, hpatch⟩ := ClusterCfg.pendingPatch_any hcheck.1
  obtain ⟨cur, hcur, -⟩ := Slot.vm?_any hcheck.2
  simp only [Bool.and_eq_true, decide_eq_true_eq] at hpatch
  obtain ⟨⟨⟨hkey, hrole⟩, hbase⟩, hobj⟩ := hpatch
  obtain ⟨c', hs⟩ := exists_step_patch hth hkey hcur
  exact ⟨c, c', base, obj, _, hc, hs, hrole,
    recorded_intent_in_pillar _ _ _ hc hs hobj (by rw [hbase]; decide)⟩

/-- The VM of `k` at the last successful refresh by its worker. -/
def ClusterCfg.refreshedAt (c : ClusterCfg) (k : NamespacedName) : Option VirtualMachine :=
  (History.lastRefresh (c.hist k)).bind fun w => (w.vms k).vm?

/-- A tenant gives the VM a role right after its pillar was refreshed. The highstate
is recorded with the new role, and the pillar did not have it. -/
theorem recorded_intent_not_in_pillar : ∃ c c' base obj vm,
    (cluster Sample.runtime Sample.noDefault notOwn False).Reach c ∧
    (cluster Sample.runtime Sample.noDefault notOwn False).Step c
      (.call Sample.key (.patchVM base obj) (.ok vm)) c' ∧
    obj.annotationOf annotationSaltStatus = saltStatusHighstateDispatched ∧
    base.annotationOf annotationSaltStatus = saltStatusPillarRefreshed ∧
    ¬ InPillar Sample.runtime Sample.key (c.hist Sample.key) base obj := by
  have hrun : (runActs Sample.noDefault notOwn False (fun _ _ _ => true)
      ([.create (Sample.vm "a" "u1")] ++ work Sample.key Sample.discovery 40 ++
        [.clock (Sample.time + 60 * Go.second)] ++ work Sample.key Sample.discovery 23 ++
        [.annotate Sample.key "salt.vcf.io/roles" "web"] ++
        work Sample.key Sample.discovery 9) (.start Sample.time Sample.secrets)).any (fun c =>
      (c.pendingPatch Sample.key).any (fun p => p.2.key = Sample.key &&
        p.1.annotationOf annotationSaltStatus = saltStatusPillarRefreshed &&
        p.2.annotationOf annotationSaltStatus = saltStatusHighstateDispatched &&
        (c.refreshedAt Sample.key).any fun srv => srv.resourceVersion < p.1.resourceVersion &&
          intentText p.1.annotations ≠ intentText srv.annotations) &&
      (c.world.vms Sample.key).vm?.any fun _ => true) = true := by
    decide +kernel
  obtain ⟨c, hc, hcheck⟩ := exists_reach_of_run hrun
  rw [Bool.and_eq_true] at hcheck
  obtain ⟨base, obj, next, hth, hpatch⟩ := ClusterCfg.pendingPatch_any hcheck.1
  obtain ⟨cur, hcur, -⟩ := Slot.vm?_any hcheck.2
  simp only [Bool.and_eq_true, decide_eq_true_eq] at hpatch
  obtain ⟨⟨⟨hkey, hbase⟩, hobj⟩, hat⟩ := hpatch
  obtain ⟨c', hs⟩ := exists_step_patch hth hkey hcur
  refine ⟨c, c', base, obj, _, hc, hs, hobj, hbase, ?_⟩
  rintro ⟨w, srv, seen, hw, hsrv, hseen, -, hcarried⟩
  rw [if_pos hbase] at hseen
  subst hseen
  have hsrvAt : ClusterCfg.refreshedAt c Sample.key = some srv := by
    unfold ClusterCfg.refreshedAt
    rw [hw]
    simp only [Option.bind_some, hsrv, Slot.vm?]
  rw [hsrvAt] at hat
  simp only [Option.any_some, Bool.and_eq_true, decide_eq_true_eq] at hat
  rcases hcarried with hle | hsame
  · exact absurd hat.1 hle.not_gt
  · exact hat.2 (by unfold intentText; rw [hsame])

end SaltOperator
