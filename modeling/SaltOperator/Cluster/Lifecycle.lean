import SaltOperator.Cluster.Induction

/-!
# The life of a VM, as its annotations tell it

Seven annotations say where a VM stands: its key, its minion, and the chain of
ping, refresh, highstate and poll that the operator takes it through.
`Lifecycle` is that state and `Lifecycle.Step` what can happen to it, without
the worker, the patches or the cluster.

- `Write.lifecycle`: the operator refines it, **every annotation patch takes the
  VM one step along**, and nothing else moves it;
- `lifecycle_invariant`: what the steps preserve holds of every VM in every run;
- `Lifecycle.Step.consistent`: the annotations never contradict each other.
-/

namespace SaltOperator

/-- Where a VM stands. -/
structure Lifecycle where
  keyStatus : String
  minionID : String
  saltStatus : String
  ready : String
  jid : String
  highstateStatus : String
  rolesHash : String

namespace Lifecycle

/-- The chain of a known minion stands at `s`. -/
def InChain (l : Lifecycle) (s : String) : Prop :=
  l.keyStatus = keyStatusAccepted ∧ l.minionID ≠ "" ∧ l.saltStatus = s

/-- The chain of a known minion is not under way. -/
def AtRest (l : Lifecycle) : Prop :=
  l.keyStatus = keyStatusAccepted ∧ l.minionID ≠ "" ∧ l.saltStatus ∉
    ["", saltStatusPinged, saltStatusPillarRefreshed, saltStatusHighstateDispatched]

/-- What can happen to a VM; `reported` are the jobs that were reported done, with
success. -/
inductive Step (reported : String → Prop) : Lifecycle → Lifecycle → Prop where
  /-- a marker that says nothing about where the VM stands -/
  | noted {l} : Step reported l l
  | keyFailed {l} : l.keyStatus ≠ keyStatusAccepted →
      Step reported l { l with keyStatus := keyStatusFailed }
  | keyAccepted {l} (minionID : String) : l.keyStatus ≠ keyStatusAccepted → minionID ≠ "" →
      Step reported l { l with keyStatus := keyStatusAccepted, minionID }
  | keyPreseeded {l} (minionID : String) : l.keyStatus ≠ keyStatusAccepted → minionID ≠ "" →
      Step reported l { l with keyStatus := keyStatusPreseeded, minionID }
  | preseedAccepted {l} : l.keyStatus = keyStatusPreseeded →
      Step reported l { l with keyStatus := keyStatusAccepted }
  | keyDeleted {l} (status : String) : l.minionID ≠ "" →
      status = keyStatusDeleted ∨ status = keyStatusDeleteFailed →
      Step reported l { l with keyStatus := status }
  | pingFailed {l} : l.InChain "" →
      Step reported l { l with saltStatus := saltStatusFailedPing, ready := annotationFalse }
  | pinged {l} : l.InChain "" → Step reported l { l with saltStatus := saltStatusPinged }
  | refreshFailed {l} : l.InChain saltStatusPinged →
      Step reported l
        { l with saltStatus := saltStatusFailedPillarRefresh, ready := annotationFalse }
  | refreshed {l} : l.InChain saltStatusPinged →
      Step reported l { l with saltStatus := saltStatusPillarRefreshed }
  | dispatchFailed {l} : l.InChain saltStatusPillarRefreshed →
      Step reported l
        { l with saltStatus := saltStatusFailedHighstateDispatch, ready := annotationFalse }
  | dispatched {l} (jid rolesHash : String) : l.InChain saltStatusPillarRefreshed → jid ≠ "" →
      rolesHash ≠ "" →
      Step reported l { l with
        saltStatus := saltStatusHighstateDispatched, jid, highstateStatus := highstateInProgress
        ready := annotationFalse, rolesHash }
  | succeeded {l} : l.InChain saltStatusHighstateDispatched → reported l.jid →
      Step reported l { l with
        saltStatus := saltStatusReady, ready := annotationTrue
        highstateStatus := highstateSuccess }
  | failed {l} : l.InChain saltStatusHighstateDispatched →
      Step reported l { l with
        saltStatus := saltStatusFailedHighstate, ready := annotationFalse
        highstateStatus := highstateFailed }
  | reset {l} (rolesHash : String) : l.AtRest → rolesHash ≠ "" →
      Step reported l
        { l with saltStatus := "", ready := annotationFalse, highstateStatus := "", rolesHash }
  | restarted {l} : l.AtRest → Step reported l { l with saltStatus := "", ready := annotationFalse }
  | day2RefreshFailed {l} (rolesHash : String) : l.AtRest →
      Step reported l { l with
        saltStatus := saltStatusFailedPillarRefresh, ready := annotationFalse, rolesHash }
  | day2DispatchFailed {l} (rolesHash : String) : l.AtRest →
      Step reported l { l with
        saltStatus := saltStatusFailedHighstateDispatch, ready := annotationFalse, rolesHash }
  | day2Dispatched {l} (jid rolesHash : String) : l.AtRest → jid ≠ "" → rolesHash ≠ "" →
      Step reported l { l with
        saltStatus := saltStatusHighstateDispatched, jid, highstateStatus := highstateInProgress
        ready := annotationFalse, rolesHash }
  | hashAdopted {l} (rolesHash : String) : l.AtRest → rolesHash ≠ "" →
      Step reported l { l with rolesHash }

/-- Nothing is known of a new VM. -/
def new : Lifecycle := ⟨"", "", "", "", "", "", ""⟩

/-- The annotations do not contradict each other. -/
structure Consistent (reported : String → Prop) (l : Lifecycle) : Prop where
  ready : l.ready = annotationTrue ↔ l.saltStatus = saltStatusReady
  inProgress : l.highstateStatus = highstateInProgress ↔
    l.saltStatus = saltStatusHighstateDispatched
  job : l.saltStatus ∈ [saltStatusHighstateDispatched, saltStatusReady, saltStatusFailedHighstate] →
    l.jid ≠ "" ∧ l.rolesHash ≠ ""
  minion : l.saltStatus ≠ "" ∨ l.keyStatus = keyStatusAccepted ∨ l.keyStatus = keyStatusPreseeded →
    l.minionID ≠ ""
  done : l.saltStatus = saltStatusReady → reported l.jid

section consistent

variable {reported : String → Prop} {l l' : Lifecycle}

theorem consistent_new : new.Consistent reported := by
  constructor
  case done => exact fun h => absurd h (by decide)
  all_goals decide

theorem Consistent.mono {more : String → Prop} (hc : l.Consistent reported)
    (hm : ∀ jid, reported jid → more jid) : l.Consistent more :=
  { hc with done := fun h => hm _ (hc.done h) }

/-- A change of the key status leaves the chain alone. -/
theorem Consistent.key (hc : l.Consistent reported) {status minionID : String}
    (hm : minionID ≠ "" ∨ (minionID = l.minionID ∧ status ≠ keyStatusAccepted ∧
      status ≠ keyStatusPreseeded)) :
    Consistent reported { l with keyStatus := status, minionID } := by
  refine { hc with minion := fun h => ?_ }
  rcases hm with hm | ⟨rfl, hacc, hpre⟩
  · exact hm
  · rcases h with h | h | h
    · exact hc.minion (.inl h)
    · exact absurd h hacc
    · exact absurd h hpre

/-- Only a chain that waits for its highstate has one in progress. -/
theorem Consistent.not_inProgress (hc : l.Consistent reported)
    (hs : l.saltStatus ≠ saltStatusHighstateDispatched) :
    l.highstateStatus ≠ highstateInProgress := fun h => hs (hc.inProgress.mp h)

/-- The chain goes to a step before the highstate, or fails at it. -/
theorem Consistent.moved {status ready highstateStatus rolesHash : String} (hm : l.minionID ≠ "")
    (hto : status ∉ [saltStatusHighstateDispatched, saltStatusReady, saltStatusFailedHighstate])
    (hready : ready ≠ annotationTrue) (hprog : highstateStatus ≠ highstateInProgress) :
    Consistent reported { l with saltStatus := status, ready, highstateStatus, rolesHash } := by
  have hne := hto
  simp only [List.mem_cons, List.not_mem_nil, or_false, not_or] at hne
  constructor
  case ready => exact iff_of_false hready hne.2.1
  case inProgress => exact iff_of_false hprog hne.1
  case job => exact fun h => absurd h hto
  case minion => exact fun _ => hm
  case done => exact fun h => absurd h hne.2.1

/-- A highstate was dispatched, or has ended. -/
theorem Consistent.highstate {status ready jid highstateStatus rolesHash : String}
    (hm : l.minionID ≠ "") (hj : jid ≠ "") (hh : rolesHash ≠ "")
    (hready : ready = annotationTrue ↔ status = saltStatusReady)
    (hprog : highstateStatus = highstateInProgress ↔ status = saltStatusHighstateDispatched)
    (hdone : status = saltStatusReady → reported jid) :
    Consistent reported
      { l with saltStatus := status, ready, jid, highstateStatus, rolesHash } :=
  ⟨hready, hprog, fun _ => ⟨hj, hh⟩, fun _ => hm, hdone⟩

theorem AtRest.not_inProgress (h : l.AtRest) (hc : l.Consistent reported) :
    l.highstateStatus ≠ highstateInProgress :=
  hc.not_inProgress fun hs => h.2.2 (by rw [hs]; decide)

theorem InChain.not_inProgress {s : String} (h : l.InChain s)
    (hs : s ≠ saltStatusHighstateDispatched) (hc : l.Consistent reported) :
    l.highstateStatus ≠ highstateInProgress :=
  hc.not_inProgress (h.2.2 ▸ hs)

theorem InChain.not_ready {s : String} (h : l.InChain s) (hs : s ≠ saltStatusReady)
    (hc : l.Consistent reported) : l.ready ≠ annotationTrue :=
  fun hr => hs (h.2.2 ▸ hc.ready.mp hr)

/-- **No step makes the annotations contradict each other.** -/
theorem Step.consistent (hs : Step reported l l') (hc : l.Consistent reported) :
    l'.Consistent reported := by
  cases hs with
  | noted => exact hc
  | keyFailed _ => exact hc.key (.inr ⟨rfl, by decide, by decide⟩)
  | keyAccepted id _ hid => exact hc.key (.inl hid)
  | keyPreseeded id _ hid => exact hc.key (.inl hid)
  | preseedAccepted hk => exact hc.key (.inl (hc.minion (.inr (.inr hk))))
  | keyDeleted status hid _ => exact hc.key (.inl hid)
  | pingFailed h => exact .moved h.2.1 (by decide) (by decide) (h.not_inProgress (by decide) hc)
  | pinged h =>
    exact .moved h.2.1 (by decide) (h.not_ready (by decide) hc) (h.not_inProgress (by decide) hc)
  | refreshFailed h => exact .moved h.2.1 (by decide) (by decide) (h.not_inProgress (by decide) hc)
  | refreshed h =>
    exact .moved h.2.1 (by decide) (h.not_ready (by decide) hc) (h.not_inProgress (by decide) hc)
  | dispatchFailed h => exact .moved h.2.1 (by decide) (by decide) (h.not_inProgress (by decide) hc)
  | dispatched jid hash h hj hh =>
    exact .highstate h.2.1 hj hh (by decide) (by decide) fun h => absurd h (by decide)
  | succeeded h hok =>
    obtain ⟨hj, hh⟩ := hc.job (by rw [h.2.2]; decide)
    exact .highstate h.2.1 hj hh (by decide) (by decide) fun _ => hok
  | failed h =>
    obtain ⟨hj, hh⟩ := hc.job (by rw [h.2.2]; decide)
    exact .highstate h.2.1 hj hh (by decide) (by decide) fun h => absurd h (by decide)
  | reset hash h hh => exact .moved h.2.1 (by decide) (by decide) (by decide)
  | restarted h => exact .moved h.2.1 (by decide) (by decide) (h.not_inProgress hc)
  | day2RefreshFailed hash h => exact .moved h.2.1 (by decide) (by decide) (h.not_inProgress hc)
  | day2DispatchFailed hash h => exact .moved h.2.1 (by decide) (by decide) (h.not_inProgress hc)
  | day2Dispatched jid hash h hj hh =>
    exact .highstate h.2.1 hj hh (by decide) (by decide) fun h => absurd h (by decide)
  | hashAdopted hash h hh =>
    exact { hc with job := fun hs => ⟨(hc.job hs).1, hh⟩ }

/-- A recorded minion ID is never dropped. -/
theorem Step.minionID_ne_empty (hs : Step reported l l') (h : l.minionID ≠ "") :
    l'.minionID ≠ "" := by
  cases hs with
  | keyAccepted id _ hid => exact hid
  | keyPreseeded id _ hid => exact hid
  | _ => exact h

/-- The chain moves for minions whose key is accepted. -/
theorem Step.accepted_of_moves (hs : Step reported l l') (h : l'.saltStatus ≠ l.saltStatus) :
    l'.keyStatus = keyStatusAccepted := by
  cases hs with
  | pingFailed hc => exact hc.1
  | pinged hc => exact hc.1
  | refreshFailed hc => exact hc.1
  | refreshed hc => exact hc.1
  | dispatchFailed hc => exact hc.1
  | dispatched _ _ hc => exact hc.1
  | succeeded hc => exact hc.1
  | failed hc => exact hc.1
  | reset _ hc => exact hc.1
  | restarted hc => exact hc.1
  | day2RefreshFailed _ hc => exact hc.1
  | day2DispatchFailed _ hc => exact hc.1
  | day2Dispatched _ _ hc => exact hc.1
  | _ => exact absurd rfl h

end consistent

end Lifecycle

/-! ## The operator refines it -/

/-- Where the VM stands. -/
def VirtualMachine.lifecycle (vm : VirtualMachine) : Lifecycle where
  keyStatus := vm.annotationOf annotationKeyStatus
  minionID := vm.annotationOf annotationMinionID
  saltStatus := vm.annotationOf annotationSaltStatus
  ready := vm.annotationOf annotationReady
  jid := vm.annotationOf annotationHighstateJID
  highstateStatus := vm.annotationOf annotationHighstateStatus
  rolesHash := vm.annotationOf annotationRolesHash

theorem OwnEq.lifecycle {m n : VirtualMachine} (h : OwnEq m n) : m.lifecycle = n.lifecycle := by
  unfold VirtualMachine.lifecycle
  rw [h.annotationOf (a := annotationKeyStatus) (by decide),
    h.annotationOf (a := annotationMinionID) (by decide),
    h.annotationOf (a := annotationSaltStatus) (by decide),
    h.annotationOf (a := annotationReady) (by decide),
    h.annotationOf (a := annotationHighstateJID) (by decide),
    h.annotationOf (a := annotationHighstateStatus) (by decide),
    h.annotationOf (a := annotationRolesHash) (by decide)]

theorem computeIntentHash_ne_empty (rt : Runtime) (annotations : StringMap) :
    computeIntentHash rt annotations ≠ "" := by
  intro h
  have := congrArg String.length h
  simp [computeIntentHash, intentHashVersion] at this

section write

variable {rt : Runtime} {h : History} {m vm seen : VirtualMachine} {cfg : SaltKeyConfig}

/-- What a patch does to where the VM stands. -/
theorem lifecycle_withAnnotations (additions : List (String × String)) :
    (m.withAnnotations additions).lifecycle =
      { keyStatus := (additions.reverse.lookup annotationKeyStatus).getD m.lifecycle.keyStatus
        minionID := (additions.reverse.lookup annotationMinionID).getD m.lifecycle.minionID
        saltStatus := (additions.reverse.lookup annotationSaltStatus).getD m.lifecycle.saltStatus
        ready := (additions.reverse.lookup annotationReady).getD m.lifecycle.ready
        jid := (additions.reverse.lookup annotationHighstateJID).getD m.lifecycle.jid
        highstateStatus := (additions.reverse.lookup annotationHighstateStatus).getD
          m.lifecycle.highstateStatus
        rolesHash := (additions.reverse.lookup annotationRolesHash).getD
          m.lifecycle.rolesHash } := by
  simp only [VirtualMachine.lifecycle, VirtualMachine.annotationOf_withAnnotations]

/-- The markers of handled requests say nothing about where the VM stands. -/
theorem lifecycle_handled (patch : List (String × String)) :
    (m.withAnnotations (patch ++ handledMarkers vm cfg)).lifecycle =
      (m.withAnnotations patch).lifecycle := by
  rw [lifecycle_withAnnotations, lifecycle_withAnnotations,
    lookup_append_handled (a := annotationKeyStatus) _ (by decide) (by decide),
    lookup_append_handled (a := annotationMinionID) _ (by decide) (by decide),
    lookup_append_handled (a := annotationSaltStatus) _ (by decide) (by decide),
    lookup_append_handled (a := annotationReady) _ (by decide) (by decide),
    lookup_append_handled (a := annotationHighstateJID) _ (by decide) (by decide),
    lookup_append_handled (a := annotationHighstateStatus) _ (by decide) (by decide),
    lookup_append_handled (a := annotationRolesHash) _ (by decide) (by decide)]

/-- The markers of a Day-2 run record the hash. -/
theorem lifecycle_marked (patch : List (String × String)) :
    (m.withAnnotations (withMarkers (day2Markers rt seen cfg) patch)).lifecycle =
      { (m.withAnnotations patch).lifecycle with
        rolesHash := computeIntentHash rt seen.annotations } := by
  have hsplit : withMarkers (day2Markers rt seen cfg) patch =
      (patch ++ [(annotationRolesHash, computeIntentHash rt seen.annotations)]) ++
        handledMarkers seen cfg := by
    simp [withMarkers, day2Markers]
  have hhash : m.withAnnotations
      (patch ++ [(annotationRolesHash, computeIntentHash rt seen.annotations)]) =
      (m.withAnnotations patch).withAnnotations
        [(annotationRolesHash, computeIntentHash rt seen.annotations)] := by
    unfold VirtualMachine.withAnnotations
    rw [StringMap.copy_append]
  rw [hsplit, lifecycle_handled, hhash, lifecycle_withAnnotations]
  rfl

/-- Every annotation patch takes the VM one step along. -/
theorem Write.lifecycle {additions : List (String × String)} (hw : Write rt h m additions)
    (hn : m.name ≠ "") :
    Lifecycle.Step h.ReportedOK m.lifecycle (m.withAnnotations additions).lifecycle := by
  cases hw with
  | reset vm cfg hr =>
    rw [lifecycle_handled, lifecycle_withAnnotations]
    exact .reset _ hr (computeIntentHash_ne_empty _ _)
  | restart vm cfg hr =>
    rw [lifecycle_handled, lifecycle_withAnnotations]
    exact .restarted hr
  | day2RefreshFailed seen cfg hd =>
    rw [lifecycle_marked, lifecycle_withAnnotations]
    exact .day2RefreshFailed _ (hd.snapshot.atRest hd.rest)
  | day2DispatchFailed seen cfg hd =>
    rw [lifecycle_marked, lifecycle_withAnnotations]
    exact .day2DispatchFailed _ (hd.snapshot.atRest hd.rest)
  | day2Dispatched seen cfg jid hd hj =>
    rw [lifecycle_marked, lifecycle_withAnnotations]
    exact .day2Dispatched _ _ (hd.snapshot.atRest hd.rest) hj (computeIntentHash_ne_empty _ _)
  | keyCleared => rw [lifecycle_withAnnotations]; exact .noted
  | keyFailed cfg hk => rw [lifecycle_withAnnotations]; exact .keyFailed hk
  | keyAccepted conn id method t hk hid =>
    rw [lifecycle_withAnnotations]
    exact .keyAccepted _ hk.noKey.1 hid
  | keyPreseeded hk => rw [lifecycle_withAnnotations]; exact .keyPreseeded _ hk.noKey.1 hn
  | preseedAccepted t hk => rw [lifecycle_withAnnotations]; exact .preseedAccepted hk
  | pingFailed hc => rw [lifecycle_withAnnotations]; exact .pingFailed hc
  | pinged hc => rw [lifecycle_withAnnotations]; exact .pinged hc
  | refreshFailed hc => rw [lifecycle_withAnnotations]; exact .refreshFailed hc
  | refreshed hc => rw [lifecycle_withAnnotations]; exact .refreshed hc
  | dispatchFailed hc => rw [lifecycle_withAnnotations]; exact .dispatchFailed hc
  | dispatched jid hc hj =>
    rw [lifecycle_withAnnotations]
    exact .dispatched _ _ hc hj (computeIntentHash_ne_empty _ _)
  | highstateReady t hc hok => rw [lifecycle_withAnnotations]; exact .succeeded hc hok
  | highstateFailed t n ids hc => rw [lifecycle_withAnnotations]; exact .failed hc
  | bulkNoted => rw [lifecycle_withAnnotations]; exact .noted
  | hashAdopted hr =>
    rw [lifecycle_withAnnotations]
    exact .hashAdopted _ hr (computeIntentHash_ne_empty _ _)
  | keyDeleted vm cfg status hid hst => rw [lifecycle_withAnnotations]; exact .keyDeleted _ hid hst

/-- A patch leaves the recorded hash or records one of today's version. -/
theorem Write.rolesHash {additions : List (String × String)} (hw : Write rt h m additions) :
    (m.withAnnotations additions).lifecycle.rolesHash = m.lifecycle.rolesHash ∨
      ∃ annotations, (m.withAnnotations additions).lifecycle.rolesHash =
        computeIntentHash rt annotations := by
  cases hw with
  | reset vm cfg =>
    rw [lifecycle_handled, lifecycle_withAnnotations]
    exact .inr ⟨_, rfl⟩
  | restart vm cfg =>
    rw [lifecycle_handled, lifecycle_withAnnotations]
    exact .inl rfl
  | day2RefreshFailed seen cfg => rw [lifecycle_marked]; exact .inr ⟨_, rfl⟩
  | day2DispatchFailed seen cfg => rw [lifecycle_marked]; exact .inr ⟨_, rfl⟩
  | day2Dispatched seen cfg jid => rw [lifecycle_marked]; exact .inr ⟨_, rfl⟩
  | dispatched jid => rw [lifecycle_withAnnotations]; exact .inr ⟨_, rfl⟩
  | hashAdopted => rw [lifecycle_withAnnotations]; exact .inr ⟨_, rfl⟩
  | _ => rw [lifecycle_withAnnotations]; exact .inl rfl

theorem hasPrefix_computeIntentHash (annotations : StringMap) :
    Go.hasPrefix (computeIntentHash rt annotations) intentHashVersion = true := by
  unfold Go.hasPrefix computeIntentHash
  rw [String.toList_append, List.isPrefixOf_iff_prefix]
  exact List.prefix_append _ _

end write

/-! ## Runs -/

/-- A new VM stands at the beginning. -/
theorem lifecycle_fresh {vm : VirtualMachine} (hf : vm.Fresh) : vm.lifecycle = .new := by
  have unset : ∀ a ∈ ownAnnotations, vm.annotationOf a = "" := fun a ha => by
    rw [VirtualMachine.annotationOf_eq_getD, hf.annotations a ha]
    rfl
  unfold VirtualMachine.lifecycle
  rw [unset annotationKeyStatus (by decide), unset annotationMinionID (by decide),
    unset annotationSaltStatus (by decide), unset annotationReady (by decide),
    unset annotationHighstateJID (by decide), unset annotationHighstateStatus (by decide),
    unset annotationRolesHash (by decide)]
  rfl

/-- A permitted patch takes the VM one step along. -/
theorem Permitted.lifecycle {rt : Runtime} {crash : Prop} {k : NamespacedName} {h : History}
    {base obj : VirtualMachine} (hp : Permitted rt crash k h (.patchVM base obj))
    (hn : base.name ≠ "") : Lifecycle.Step h.ReportedOK base.lifecycle obj.lifecycle := by
  obtain ⟨-, ⟨additions, rfl, hw⟩ | hf, -⟩ := hp
  · exact hw.lifecycle hn
  · rw [hf.ownEq.lifecycle]
    exact .noted

/-- What holds of a new VM and is preserved by the steps holds of every VM. -/
theorem lifecycle_invariant {rt : Runtime} {d : Default} {crash : Prop}
    {Q : (String → Prop) → Lifecycle → Prop} (new : ∀ reported, Q reported .new)
    (mono : ∀ {reported more : String → Prop} {l}, (∀ jid, reported jid → more jid) →
      Q reported l → Q more l)
    (step : ∀ {reported l l'}, Lifecycle.Step reported l l' → Q reported l → Q reported l')
    {c : ClusterCfg} (h : (cluster rt d notOwn crash).Reach c) {k : NamespacedName}
    {vm : VirtualMachine} (hvm : c.world.vms k = .live vm) :
    Q (History.ReportedOK (c.hist k)) vm.lifecycle := by
  have later : ∀ {h : History} {m : Made} {l : Lifecycle}, Q h.ReportedOK l →
      Q (History.ReportedOK (m :: h)) l := by
    intro h m l hq
    refine mono ?_ hq
    rintro jid ⟨w, conn, id, r, hmem, hr⟩
    exact ⟨w, conn, id, r, List.mem_cons_of_mem _ hmem, hr⟩
  have hP : VMInvariant rt d crash (fun _ _ _ => True)
      (fun _ _ h vm => Q h.ReportedOK vm.lifecycle) := by
    constructor
    case fresh =>
      intro h vm hf _
      rw [lifecycle_fresh hf]
      exact new _
    case edit =>
      intro c c' k before after _ _ _ he _ _ _ hq
      have hown : OwnEq after before := fun a ha => he.annotations a fun hno => hno ha
      rw [hown.lifecycle]
      exact hq
    case call => exact fun _ _ _ _ _ _ _ hq => later hq
    case patch =>
      intro c c' k base obj cur version _ hs hcur _ hp hbase hnew _ hq
      rw [hnew.lifecycle]
      rw [← hbase.lifecycle] at hq
      exact later (step (hp.lifecycle (hs.base_named hp hcur)) hq)
  exact hP.holds h hvm

/-- The annotations of a VM never contradict each other. -/
theorem lifecycle_consistent {rt : Runtime} {d : Default} {crash : Prop} {c : ClusterCfg}
    (h : (cluster rt d notOwn crash).Reach c) {k : NamespacedName} {vm : VirtualMachine}
    (hvm : c.world.vms k = .live vm) :
    vm.lifecycle.Consistent (History.ReportedOK (c.hist k)) :=
  lifecycle_invariant (fun _ => Lifecycle.consistent_new) (fun hm hq => hq.mono hm)
    (fun hs hq => hs.consistent hq) h hvm

/-- A chain stands at one of its places, or failed. -/
def KnownStatus (s : String) : Prop :=
  s ∈ ["", saltStatusPinged, saltStatusPillarRefreshed, saltStatusHighstateDispatched,
    saltStatusReady] ∨ Go.hasPrefix s failedStatusPrefix = true

instance (s : String) : Decidable (KnownStatus s) := inferInstanceAs (Decidable (_ ∨ _))

theorem Lifecycle.Step.known {reported : String → Prop} {l l' : Lifecycle}
    (hs : Lifecycle.Step reported l l') (hl : KnownStatus l.saltStatus) :
    KnownStatus l'.saltStatus := by
  have hfailed : KnownStatus saltStatusFailedPing ∧ KnownStatus saltStatusFailedPillarRefresh ∧
      KnownStatus saltStatusFailedHighstateDispatch ∧ KnownStatus saltStatusFailedHighstate := by
    decide
  cases hs with
  | pingFailed => exact hfailed.1
  | refreshFailed => exact hfailed.2.1
  | dispatchFailed => exact hfailed.2.2.1
  | failed => exact hfailed.2.2.2
  | day2RefreshFailed => exact hfailed.2.1
  | day2DispatchFailed => exact hfailed.2.2.1
  | pinged => exact .inl (by simp)
  | refreshed => exact .inl (by simp)
  | dispatched => exact .inl (by simp)
  | succeeded => exact .inl (by simp)
  | reset => exact .inl (by simp)
  | restarted => exact .inl (by simp)
  | day2Dispatched => exact .inl (by simp)
  | _ => exact hl

theorem saltStatus_known {rt : Runtime} {d : Default} {crash : Prop} {c : ClusterCfg}
    (h : (cluster rt d notOwn crash).Reach c) {k : NamespacedName} {vm : VirtualMachine}
    (hvm : c.world.vms k = .live vm) : KnownStatus (vm.annotationOf annotationSaltStatus) :=
  lifecycle_invariant (Q := fun _ l => KnownStatus l.saltStatus) (fun _ => .inl (by decide))
    (fun _ hq => hq) (fun hs hq => hs.known hq) h hvm

/-- The hashes of VMs that came without one are of today's version. -/
theorem rolesHash_version {rt : Runtime} {d : Default} {crash : Prop} {c : ClusterCfg}
    (h : (cluster rt d notOwn crash).Reach c) {k : NamespacedName} {vm : VirtualMachine}
    (hvm : c.world.vms k = .live vm) : vm.lifecycle.rolesHash = "" ∨
      Go.hasPrefix vm.lifecycle.rolesHash intentHashVersion = true := by
  have hP : VMInvariant rt d crash (fun _ _ _ => True) (fun _ _ _ vm =>
      vm.lifecycle.rolesHash = "" ∨
        Go.hasPrefix vm.lifecycle.rolesHash intentHashVersion = true) := by
    constructor
    case fresh =>
      intro h vm hf _
      rw [lifecycle_fresh hf]
      exact .inl rfl
    case edit =>
      intro c c' k before after _ _ _ he _ _ _ hq
      have hown : OwnEq after before := fun a ha => he.annotations a fun hno => hno ha
      rw [hown.lifecycle]
      exact hq
    case call => exact fun _ _ _ _ _ _ _ hq => hq
    case patch =>
      intro c c' k base obj cur version _ _ _ _ hp hbase hnew _ hq
      rw [hnew.lifecycle]
      obtain ⟨-, ⟨additions, rfl, hw⟩ | hf, -⟩ := hp
      · rcases hw.rolesHash with heq | ⟨annotations, heq⟩
        · rw [heq, hbase.lifecycle]
          exact hq
        · rw [heq]
          exact .inr (hasPrefix_computeIntentHash annotations)
      · rw [hf.ownEq.lifecycle, hbase.lifecycle]
        exact hq
  exact hP.holds h hvm

end SaltOperator
