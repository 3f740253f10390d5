import SaltOperator.Cluster.Passes

/-!
# The promises hold in the cluster

`Sound` is what the workers and the cluster preserve together: names and UIDs
identify VMs, every object a worker was sent was a version of its VM, and the
last one agrees with the API server on the operator's own annotations. That is
what the merge patches need to do what they mean (`patched_own`,
`patched_tenant`), and what makes the contract of `Cluster/Contract.lean` hold of
every worker in every interleaving (`contract`).
-/

namespace SaltOperator

/-- Two objects agree on the annotations of the operator. -/
def OwnEq (m n : VirtualMachine) : Prop :=
  ∀ a ∈ ownAnnotations, m.annotations[a]? = n.annotations[a]?

/-- Two objects agree on everybody else's annotations. -/
def TenantEq (m n : VirtualMachine) : Prop :=
  ∀ a, a ∉ ownAnnotations → m.annotations[a]? = n.annotations[a]?

theorem OwnEq.annotationOf {m n : VirtualMachine} (h : OwnEq m n) {a : String}
    (ha : a ∈ ownAnnotations) : m.annotationOf a = n.annotationOf a :=
  VirtualMachine.annotationOf_congr (h a ha)

theorem TenantEq.annotationOf {m n : VirtualMachine} (h : TenantEq m n) {a : String}
    (ha : a ∉ ownAnnotations) : m.annotationOf a = n.annotationOf a :=
  VirtualMachine.annotationOf_congr (h a ha)

theorem not_own_of_isIntent {a : String} (h : isIntent a = true) : a ∉ ownAnnotations := by
  have hsub : ∀ b ∈ ownAnnotations, b ∈ nonIntentAnnotations := by decide
  intro ha
  unfold isIntent at h
  simp [hsub a ha] at h

/-- The intent is made of annotations that the operator does not write. -/
theorem TenantEq.intentSet {m n : VirtualMachine} (h : TenantEq m n) :
    intentSet m.annotations = intentSet n.annotations := by
  refine Std.ExtTreeMap.ext_getElem? fun a => ?_
  unfold SaltOperator.intentSet
  rw [Std.ExtTreeMap.getElem?_filter', Std.ExtTreeMap.getElem?_filter']
  cases hi : isIntent a with
  | false => simp
  | true => rw [h a (not_own_of_isIntent hi)]

theorem TenantEq.computeIntentHash {m n : VirtualMachine} {rt : Runtime} (h : TenantEq m n) :
    computeIntentHash rt m.annotations = computeIntentHash rt n.annotations := by
  unfold SaltOperator.computeIntentHash intentText
  rw [h.intentSet]

/-- The notes of a VM leave no cause for another run. -/
theorem not_cause_of_notes {rt : Runtime} {cfg : SaltKeyConfig} {m n : VirtualMachine}
    (ht : TenantEq m n)
    (hhash : n.annotationOf annotationRolesHash = "" ∨
      n.annotationOf annotationRolesHash = computeIntentHash rt m.annotations)
    (hretry : n.annotationOf annotationRetryHandled =
      if retryRequested m then m.annotationOf annotationRetryRequest
      else m.annotationOf annotationRetryHandled)
    (hbulk : n.annotationOf annotationBulkRetryHandled =
      if bulkChanged m cfg then cfg.spec.retryToken
      else m.annotationOf annotationBulkRetryHandled) : ¬ Cause rt n cfg := by
  rintro (⟨hne, hchanged⟩ | hreq | ⟨hchanged, -⟩)
  · rcases hhash with hhash | hhash
    · exact hne hhash
    · unfold intentChanged at hchanged
      rw [hhash, ht.computeIntentHash] at hchanged
      simp at hchanged
  · have hsame : n.annotationOf annotationRetryRequest = m.annotationOf annotationRetryRequest :=
      (ht.annotationOf (by decide)).symm
    unfold retryRequested at hreq hretry
    rw [hsame, hretry] at hreq
    split at hreq
    · simp at hreq
    · rename_i hno
      exact hno hreq
  · unfold bulkChanged at hchanged hbulk
    rw [hbulk] at hchanged
    split at hchanged
    · simp at hchanged
    · rename_i hno
      exact hno hchanged

/-- The versions of a VM up to `version`. -/
def upTo (version : Nat) (versions : List VirtualMachine) : List VirtualMachine :=
  versions.dropWhile fun v => version < v.resourceVersion

/-- `m` carries what the others had written up to its version. -/
def VersionOf (versions : List VirtualMachine) (m : VirtualMachine) : Prop :=
  ∃ v rest, upTo m.resourceVersion versions = v :: rest ∧ TenantEq v m

/-- A later version does not change what an object is a version of. -/
theorem VersionOf.cons {versions : List VirtualMachine} {m v : VirtualMachine}
    (h : VersionOf versions m) (hv : m.resourceVersion < v.resourceVersion) :
    VersionOf (v :: versions) m := by
  obtain ⟨u, rest, hu, ht⟩ := h
  refine ⟨u, rest, ?_, ht⟩
  unfold upTo at hu ⊢
  rw [List.dropWhile_cons_of_pos (by simpa using hv), hu]

theorem mem_of_upTo {version : Nat} {versions rest : List VirtualMachine} {v : VirtualMachine}
    (h : upTo version versions = v :: rest) : v ∈ versions := by
  have hmem : v ∈ upTo version versions := by
    rw [h]
    exact List.mem_cons_self
  exact (List.dropWhile_sublist _).subset hmem

theorem upTo_eq_self {version : Nat} {versions : List VirtualMachine}
    (h : ∀ v ∈ versions, v.resourceVersion ≤ version) : upTo version versions = versions := by
  cases versions with
  | nil => rfl
  | cons v rest =>
    have hv := h v List.mem_cons_self
    unfold upTo
    rw [List.dropWhile_cons_of_neg (by simpa using hv)]

/-- The versions up to an earlier version. -/
theorem upTo_upTo {i j : Nat} (hij : i ≤ j) :
    ∀ versions : List VirtualMachine, upTo i (upTo j versions) = upTo i versions
  | [] => rfl
  | v :: rest => by
    unfold upTo
    by_cases hj : j < v.resourceVersion
    · rw [List.dropWhile_cons_of_pos (by simpa using hj),
        List.dropWhile_cons_of_pos (a := v) (by simpa using hij.trans_lt hj)]
      exact upTo_upTo hij rest
    · rw [List.dropWhile_cons_of_neg (a := v) (by simpa using hj)]

theorem upTo_suffix (version : Nat) (versions : List VirtualMachine) :
    upTo version versions <:+ versions := List.dropWhile_suffix _

theorem upTo_mono {i j : Nat} (hij : i ≤ j) (versions : List VirtualMachine) :
    upTo i versions <:+ upTo j versions := by
  rw [← upTo_upTo hij versions]
  exact upTo_suffix i _

/-! ## What a patch does -/

/-- The keys are annotations of the operator. -/
def OwnKeys (additions : List (String × String)) : Prop := ∀ e ∈ additions, e.1 ∈ ownAnnotations

/-- The keys of a literal list of additions are looked up one by one. -/
theorem ownKeys_of_all {l : List (String × String)}
    (hl : l.all fun e => ownAnnotations.contains e.1) : OwnKeys l := by
  intro e he
  simpa using List.all_eq_true.mp hl e he

theorem OwnKeys.append {l l' : List (String × String)} (h : OwnKeys l) (h' : OwnKeys l') :
    OwnKeys (l ++ l') := by
  intro e he
  rcases List.mem_append.mp he with he | he
  · exact h e he
  · exact h' e he

theorem ownKeys_handledMarkers (vm : VirtualMachine) (cfg : SaltKeyConfig) :
    OwnKeys (handledMarkers vm cfg) := by
  unfold handledMarkers
  refine OwnKeys.append ?_ ?_
  all_goals
    split
    · exact ownKeys_of_all rfl
    · exact ownKeys_of_all rfl

theorem OwnKeys.withMarkers {rt : Runtime} {patch : List (String × String)} (hp : OwnKeys patch)
    (seen : VirtualMachine) (cfg : SaltKeyConfig) :
    OwnKeys (withMarkers (day2Markers rt seen cfg) patch) :=
  hp.append ((ownKeys_of_all (l := [(annotationRolesHash, _)]) rfl).append
    (ownKeys_handledMarkers seen cfg))

/-- Additions of the operator's own leave what others wrote. -/
theorem OwnKeys.tenantEq {additions : List (String × String)} (h : OwnKeys additions)
    (m : VirtualMachine) : TenantEq m (m.withAnnotations additions) := by
  intro a ha
  show _ = (StringMap.copy m.annotations additions)[a]?
  have hnone : additions.reverse.lookup a = none := by
    rw [List.lookup_eq_none_iff]
    intro e he
    have hown := h e (List.mem_reverse.mp he)
    simp only [bne_iff_ne, ne_eq]
    rintro rfl
    exact ha hown
  rw [StringMap.getElem?_copy, hnone, Option.none_or]

/-- The additions of a write are annotations of the operator. -/
theorem Write.own {rt : Runtime} {h : History} {m : VirtualMachine}
    {additions : List (String × String)} (hw : Write rt h m additions) : OwnKeys additions := by
  cases hw with
  | reset vm cfg => exact (ownKeys_of_all rfl).append (ownKeys_handledMarkers m cfg)
  | restart vm cfg => exact (ownKeys_of_all rfl).append (ownKeys_handledMarkers m cfg)
  | day2RefreshFailed seen cfg => exact (ownKeys_of_all rfl).withMarkers seen cfg
  | day2DispatchFailed seen cfg => exact (ownKeys_of_all rfl).withMarkers seen cfg
  | day2Dispatched seen cfg jid => exact (ownKeys_of_all rfl).withMarkers seen cfg
  | _ => exact ownKeys_of_all rfl

/-- What a worker may change of its object. -/
structure Touches (base obj : VirtualMachine) : Prop where
  key : obj.key = base.key
  uid : obj.uid = base.uid
  labels : obj.labels = base.labels
  tenant : TenantEq base obj

theorem Write.touches {rt : Runtime} {h : History} {m : VirtualMachine}
    {additions : List (String × String)} (hw : Write rt h m additions) :
    Touches m (m.withAnnotations additions) := ⟨rfl, rfl, rfl, hw.own.tenantEq m⟩

theorem containsFinalizer_iff {vm : VirtualMachine} {f : String} :
    vm.containsFinalizer f = true ↔ f ∈ vm.finalizers := List.contains_iff_mem

theorem touches_addFinalizer (m : VirtualMachine) : Touches m (m.addFinalizer saltFinalizer) := by
  unfold VirtualMachine.addFinalizer
  split
  · exact ⟨rfl, rfl, rfl, fun _ _ => rfl⟩
  · exact ⟨rfl, rfl, rfl, fun _ _ => rfl⟩

theorem FinalizerWrite.touches {h : History} {m obj : VirtualMachine}
    (hf : FinalizerWrite h m obj) : Touches m obj := by
  cases hf with
  | accepted => exact touches_addFinalizer m
  | preseed => exact touches_addFinalizer m
  | removed => exact ⟨rfl, rfl, rfl, fun _ _ => rfl⟩

theorem FinalizerWrite.ownEq {h : History} {m obj : VirtualMachine}
    (hf : FinalizerWrite h m obj) : OwnEq obj m := by
  have add : OwnEq (m.addFinalizer saltFinalizer) m := by
    unfold VirtualMachine.addFinalizer
    split <;> exact fun _ _ => rfl
  cases hf with
  | accepted => exact add
  | preseed => exact add
  | removed => exact fun _ _ => rfl

section patched

variable {version : Nat} {base obj cur : VirtualMachine}

/-- Where the worker's object is up to date, the patch does what it says. -/
theorem patched_own (h : OwnEq base cur) : OwnEq (.patched version base obj cur) obj :=
  fun a ha => getElem?_mergeMap_of_current (h a ha).symm

/-- A patch leaves everybody else's annotations as they are by then. -/
theorem patched_tenant (ht : Touches base obj) :
    TenantEq cur (.patched version base obj cur) :=
  fun a ha => (getElem?_mergeMap_of_eq (ht.tenant a ha) cur.annotations).symm

end patched

/-! ## The invariant -/

/-- What the workers, who made the calls `H`, and the cluster keep up together. -/
structure Sound (w : World) (H : NamespacedName → History) : Prop where
  names : ∀ k, w.vms k = .unused ↔ k ∉ w.names
  noVersions : ∀ k, w.vms k = .unused → w.versions k = []
  key : ∀ k cur, w.vms k = .live cur → cur.key = k
  named : ∀ k cur, w.vms k = .live cur → cur.name ≠ ""
  uid : ∀ j k, ∀ a ∈ w.versions j, ∀ b ∈ w.versions k, a.uid = b.uid → j = k
  sameUid : ∀ k, ∃ u, (∀ v ∈ w.versions k, v.uid = u) ∧ (∀ cur, w.vms k = .live cur → cur.uid = u) ∧
    ∀ m ∈ (H k).served, m.uid = u
  bound : ∀ k cur, w.vms k = .live cur → ∀ v ∈ w.versions k,
    v.resourceVersion ≤ cur.resourceVersion
  current : ∀ k cur, w.vms k = .live cur → ∃ v rest, w.versions k = v :: rest ∧ TenantEq v cur
  used : ∀ k, ∀ m ∈ (H k).served, w.vms k ≠ .unused
  servedKey : ∀ k, ∀ m ∈ (H k).served, m.key = k
  servedVersion : ∀ k, ∀ m ∈ (H k).served, VersionOf (w.versions k) m
  older : ∀ k, ∀ m ∈ (H k).served, ∀ cur, w.vms k = .live cur →
    m.resourceVersion ≤ cur.resourceVersion
  copy : ∀ k m cur, (H k).lastVM = some m → w.vms k = .live cur → OwnEq m cur

section sound

variable {w w' : World} {H : NamespacedName → History} {rt : Runtime} {crash : Prop}

theorem sound_init (hw : w.Initial) : Sound w fun _ => [] := by
  obtain ⟨hn, hv, hs, -⟩ := hw
  constructor
  case names =>
    intro k
    simp [hn, hv k]
  case noVersions => exact fun k _ => hs k
  case used => exact fun k m hm => absurd hm List.not_mem_nil
  case servedKey => exact fun k m hm => absurd hm List.not_mem_nil
  case servedVersion => exact fun k m hm => absurd hm List.not_mem_nil
  case older => exact fun k m hm => absurd hm List.not_mem_nil
  case copy => exact fun k m cur hm => by cases hm
  case uid =>
    intro j k a ha
    rw [hs j] at ha
    cases ha
  case sameUid =>
    refine fun k =>
      ⟨"", fun v hmem => ?_, fun cur hcur => ?_, fun m hm => absurd hm List.not_mem_nil⟩
    · rw [hs k] at hmem
      cases hmem
    · rw [hv k] at hcur
      cases hcur
  all_goals
    intro k cur hcur
    rw [hv k] at hcur
    cases hcur

/-- The versions a live VM is at. -/
theorem Sound.versionOf (hs : Sound w H) {k : NamespacedName} {cur : VirtualMachine}
    (hcur : w.vms k = .live cur) : VersionOf (w.versions k) cur := by
  obtain ⟨v, rest, hv, ht⟩ := hs.current k cur hcur
  exact ⟨v, rest, by rw [upTo_eq_self (hs.bound k cur hcur), hv], ht⟩

/-- What the invariant says of one name only depends on that name. -/
theorem Sound.of_eq (hs : Sound w H) (hn : w'.names = w.names) (hv : w'.vms = w.vms)
    (hver : w'.versions = w.versions) : Sound w' H := by
  constructor
  case names => exact fun k => by rw [hn, hv]; exact hs.names k
  case noVersions => exact fun k => by rw [hv, hver]; exact hs.noVersions k
  case key => exact fun k => by rw [hv]; exact hs.key k
  case named => exact fun k => by rw [hv]; exact hs.named k
  case uid => exact fun j k => by rw [hver]; exact hs.uid j k
  case sameUid => exact fun k => by rw [hv, hver]; exact hs.sameUid k
  case bound => exact fun k => by rw [hv, hver]; exact hs.bound k
  case current => exact fun k => by rw [hv, hver]; exact hs.current k
  case used => exact fun k => by rw [hv]; exact hs.used k
  case servedKey => exact hs.servedKey
  case servedVersion => exact fun k => by rw [hver]; exact hs.servedVersion k
  case older => exact fun k => by rw [hv]; exact hs.older k
  case copy => exact fun k => by rw [hv]; exact hs.copy k

/-- A call that hands the worker no object and leaves the VMs alone. -/
theorem Sound.of_quiet_call (hs : Sound w H) {t : NamespacedName} {c : Made}
    (hc : c.vm? = none) : Sound w (Function.update H t (c :: H t)) := by
  have hlast : ∀ k, (Function.update H t (c :: H t) k).lastVM = (H k).lastVM := by
    intro k
    rcases eq_or_ne k t with rfl | hk
    · rw [Function.update_self]
      unfold History.lastVM
      rw [List.findSome?_cons, hc]
    · rw [Function.update_of_ne hk]
  have hserved : ∀ k, (Function.update H t (c :: H t) k).served = (H k).served := by
    intro k
    rcases eq_or_ne k t with rfl | hk
    · rw [Function.update_self]
      unfold History.served
      rw [List.filterMap_cons, hc]
    · rw [Function.update_of_ne hk]
  refine { hs with
    sameUid := ?_, used := ?_, servedKey := ?_, servedVersion := ?_, older := ?_, copy := ?_ }
  · exact fun k => by rw [hserved]; exact hs.sameUid k
  · exact fun k => by rw [hserved]; exact hs.used k
  · exact fun k => by rw [hserved]; exact hs.servedKey k
  · exact fun k => by rw [hserved]; exact hs.servedVersion k
  · exact fun k => by rw [hserved]; exact hs.older k
  · exact fun k => by rw [hlast]; exact hs.copy k

/-- What has to hold of a name for its slot `s`, its versions `vs` and the calls
`h` of its worker. -/
structure SlotSound (k : NamespacedName) (s : Slot) (vs : List VirtualMachine) (h : History) :
    Prop where
  used : s ≠ .unused
  sameUid : ∃ u, (∀ v ∈ vs, v.uid = u) ∧ (∀ cur, s = .live cur → cur.uid = u) ∧
    ∀ m ∈ h.served, m.uid = u
  key : ∀ cur, s = .live cur → cur.key = k
  named : ∀ cur, s = .live cur → cur.name ≠ ""
  bound : ∀ cur, s = .live cur → ∀ v ∈ vs, v.resourceVersion ≤ cur.resourceVersion
  current : ∀ cur, s = .live cur → ∃ v rest, vs = v :: rest ∧ TenantEq v cur
  servedKey : ∀ m ∈ h.served, m.key = k
  servedVersion : ∀ m ∈ h.served, VersionOf vs m
  older : ∀ m ∈ h.served, ∀ cur, s = .live cur → m.resourceVersion ≤ cur.resourceVersion
  copy : ∀ m cur, h.lastVM = some m → s = .live cur → OwnEq m cur

/-- The invariant is kept by a step that concerns one name. -/
theorem Sound.put (hs : Sound w H) {H' : NamespacedName → History} {k : NamespacedName}
    {s : Slot} {vs : List VirtualMachine} (hslot : SlotSound k s vs (H' k))
    (hv : w'.vms = Function.update w.vms k s)
    (hver : w'.versions = Function.update w.versions k vs)
    (hn : ∀ j, j ∈ w'.names ↔ j = k ∨ j ∈ w.names) (hH : ∀ j, j ≠ k → H' j = H j)
    (huid : ∀ v ∈ vs, ∀ j, j ≠ k → ∀ b ∈ w.versions j, b.uid ≠ v.uid) : Sound w' H' := by
  have self : w'.vms k = s := by rw [hv, Function.update_self]
  have other : ∀ j, j ≠ k → w'.vms j = w.vms j := fun j hj => by
    rw [hv, Function.update_of_ne hj]
  have verSelf : w'.versions k = vs := by rw [hver, Function.update_self]
  have verOther : ∀ j, j ≠ k → w'.versions j = w.versions j := fun j hj => by
    rw [hver, Function.update_of_ne hj]
  constructor
  case names =>
    intro j
    rcases eq_or_ne j k with rfl | hj
    · rw [self]
      simp [hslot.used, hn]
    · rw [other j hj, hs.names j, hn j]
      simp [hj]
  case uid =>
    intro i j a ha b hb hab
    rcases eq_or_ne i k with rfl | hi
    · rcases eq_or_ne j i with rfl | hj
      · rfl
      · rw [verSelf] at ha
        rw [verOther j hj] at hb
        exact absurd hab.symm (huid a ha j hj b hb)
    · rcases eq_or_ne j k with rfl | hj
      · rw [verSelf] at hb
        rw [verOther i hi] at ha
        exact absurd hab (huid b hb i hi a ha)
      · rw [verOther i hi] at ha
        rw [verOther j hj] at hb
        exact hs.uid i j a ha b hb hab
  -- the other clauses speak of one name each
  all_goals
    intro j
    rcases eq_or_ne j k with rfl | hj
  case noVersions.inl => rw [self]; exact fun h => absurd h hslot.used
  case noVersions.inr => rw [other j hj, verOther j hj]; exact hs.noVersions j
  case sameUid.inl => rw [self, verSelf]; exact hslot.sameUid
  case sameUid.inr => rw [other j hj, verOther j hj, hH j hj]; exact hs.sameUid j
  case key.inl => rw [self]; exact hslot.key
  case key.inr => rw [other j hj]; exact hs.key j
  case named.inl => rw [self]; exact hslot.named
  case named.inr => rw [other j hj]; exact hs.named j
  case bound.inl => rw [self, verSelf]; exact hslot.bound
  case bound.inr => rw [other j hj, verOther j hj]; exact hs.bound j
  case current.inl => rw [self, verSelf]; exact hslot.current
  case current.inr => rw [other j hj, verOther j hj]; exact hs.current j
  case used.inl => rw [self]; exact fun _ _ => hslot.used
  case used.inr => rw [other j hj, hH j hj]; exact hs.used j
  case servedKey.inl => exact hslot.servedKey
  case servedKey.inr => rw [hH j hj]; exact hs.servedKey j
  case servedVersion.inl => rw [verSelf]; exact hslot.servedVersion
  case servedVersion.inr => rw [verOther j hj, hH j hj]; exact hs.servedVersion j
  case older.inl => rw [self]; exact hslot.older
  case older.inr => rw [other j hj, hH j hj]; exact hs.older j
  case copy.inl => rw [self]; exact hslot.copy
  case copy.inr => rw [other j hj, hH j hj]; exact hs.copy j

theorem Sound.mem_names (hs : Sound w H) {k : NamespacedName} {cur : VirtualMachine}
    (hcur : w.vms k = .live cur) : k ∈ w.names := by
  by_contra hk
  rw [← hs.names k, hcur] at hk
  cases hk

theorem Sound.names_of_version (hs : Sound w H) {k : NamespacedName} {v : VirtualMachine}
    (hv : v ∈ w.versions k) : k ∈ w.names := by
  by_contra hk
  rw [hs.noVersions k ((hs.names k).mpr hk)] at hv
  cases hv

theorem Sound.names_iff (hs : Sound w H) {k : NamespacedName} {cur : VirtualMachine}
    (hcur : w.vms k = .live cur) (j : NamespacedName) : j ∈ w.names ↔ j = k ∨ j ∈ w.names := by
  constructor
  · exact .inr
  · rintro (rfl | hj)
    · exact hs.mem_names hcur
    · exact hj

/-- The versions of another VM have other UIDs. -/
theorem Sound.uid_ne (hs : Sound w H) {k : NamespacedName} {v : VirtualMachine}
    (hv : v ∈ w.versions k) : ∀ j, j ≠ k → ∀ b ∈ w.versions j, b.uid ≠ v.uid :=
  fun j hj b hb h => hj (hs.uid j k b hb v hv h)

/-- An object a worker was sent has the UID of its VM. -/
theorem Sound.served_uid (hs : Sound w H) {k : NamespacedName} {m cur : VirtualMachine}
    (hm : m ∈ (H k).served) (hcur : w.vms k = .live cur) : m.uid = cur.uid := by
  obtain ⟨u, -, hlive, hserved⟩ := hs.sameUid k
  rw [hserved m hm, hlive cur hcur]

theorem VersionOf.exists_mem {versions : List VirtualMachine} {m : VirtualMachine}
    (h : VersionOf versions m) : ∃ v, v ∈ versions := by
  obtain ⟨v, rest, hv, -⟩ := h
  exact ⟨v, mem_of_upTo hv⟩

/-- An object a worker was sent has not the UID of another VM. -/
theorem Sound.served_uid_ne (hs : Sound w H) {j k : NamespacedName} {m vm : VirtualMachine}
    (hm : m ∈ (H k).served) (hvm : w.vms j = .live vm) (hjk : j ≠ k) : vm.uid ≠ m.uid := by
  obtain ⟨u, hver, -, hserved⟩ := hs.sameUid k
  obtain ⟨u', hver', hlive', -⟩ := hs.sameUid j
  obtain ⟨v, hv⟩ := (hs.servedVersion k m hm).exists_mem
  obtain ⟨v', hv'⟩ := (hs.versionOf hvm).exists_mem
  intro heq
  refine hjk (hs.uid j k v' hv' v hv ?_)
  rw [hver' v' hv', hver v hv, ← hlive' vm hvm, ← hserved m hm, heq]

theorem Sound.create (hs : Sound w H) {vm : VirtualMachine} (hf : vm.Fresh)
    (hn : vm.key ∉ w.names)
    (hu : ∀ k ∈ w.names, ∀ v ∈ w.versions k, v.uid ≠ vm.uid) :
    Sound { w.setVM vm.key (.live vm) with
      names := vm.key :: w.names
      versions := Function.update w.versions vm.key [vm] } H := by
  have hunused : w.vms vm.key = .unused := (hs.names _).mpr hn
  have hnone : ∀ m ∈ (H vm.key).served, False := fun m hm => hs.used _ m hm hunused
  have hlast : (H vm.key).lastVM = none := by
    cases hl : (H vm.key).lastVM with
    | none => rfl
    | some m => exact (hnone m (lastVM_mem_served hl)).elim
  have huid : ∀ v ∈ [vm], ∀ j, j ≠ vm.key → ∀ b ∈ w.versions j, b.uid ≠ v.uid := by
    intro v hv j _ b hb
    rw [List.mem_singleton.mp hv]
    exact hu j (hs.names_of_version hb) b hb
  refine hs.put (k := vm.key) ?_ rfl rfl (fun j => List.mem_cons) (fun _ _ => rfl) huid
  constructor
  case used => nofun
  case sameUid =>
    refine ⟨vm.uid, fun v hv => ?_, fun cur hcur => ?_, fun m hm => (hnone m hm).elim⟩
    · rw [List.mem_singleton.mp hv]
    · cases hcur
      rfl
  case key => intro cur hcur; cases hcur; rfl
  case named => intro cur hcur; cases hcur; exact hf.name
  case bound =>
    intro cur hcur v hv
    cases hcur
    rw [List.mem_singleton.mp hv]
  case current =>
    intro cur hcur
    cases hcur
    exact ⟨vm, [], rfl, fun _ _ => rfl⟩
  case servedKey => exact fun m hm => (hnone m hm).elim
  case servedVersion => exact fun m hm => (hnone m hm).elim
  case older => exact fun m hm => (hnone m hm).elim
  case copy =>
    intro m cur hm
    rw [hlast] at hm
    cases hm

theorem Sound.edit (hs : Sound w H) {k : NamespacedName} {before after : VirtualMachine}
    (hb : w.vms k = .live before) (he : before.Edit notOwn after) :
    Sound { w.setVM k (.live after) with
      versions := Function.update w.versions k (after :: w.versions k) } H := by
  obtain ⟨u, hver, hlive, hserved⟩ := hs.sameUid k
  have hafter : after.uid = u := he.uid.trans (hlive before hb)
  have huid : ∀ v ∈ after :: w.versions k, ∀ j, j ≠ k → ∀ b ∈ w.versions j, b.uid ≠ v.uid := by
    obtain ⟨v₀, rest, hv₀, -⟩ := hs.current k before hb
    have hmem : v₀ ∈ w.versions k := by rw [hv₀]; exact List.mem_cons_self
    intro v hv j hj b hbj
    have hvu : v.uid = v₀.uid := by
      rcases List.mem_cons.mp hv with rfl | hv
      · rw [hafter, hver v₀ hmem]
      · rw [hver v hv, hver v₀ hmem]
    rw [hvu]
    exact hs.uid_ne hmem j hj b hbj
  refine hs.put (k := k) ?_ rfl rfl (hs.names_iff hb) (fun _ _ => rfl) huid
  constructor
  case used => nofun
  case sameUid =>
    refine ⟨u, fun v hv => ?_, fun cur hcur => ?_, hserved⟩
    · rcases List.mem_cons.mp hv with rfl | hv
      · exact hafter
      · exact hver v hv
    · cases hcur
      exact hafter
  case key =>
    intro cur hcur
    cases hcur
    rw [← hs.key k before hb]
    unfold VirtualMachine.key
    rw [he.name, he.nspace]
  case named =>
    intro cur hcur
    cases hcur
    rw [he.name]
    exact hs.named k before hb
  case bound =>
    intro cur hcur v hv
    cases hcur
    rcases List.mem_cons.mp hv with rfl | hv
    · exact le_rfl
    · exact (hs.bound k before hb v hv).trans he.version.le
  case current =>
    intro cur hcur
    cases hcur
    exact ⟨after, _, rfl, fun _ _ => rfl⟩
  case servedKey => exact hs.servedKey k
  case servedVersion =>
    intro m hm
    exact (hs.servedVersion k m hm).cons ((hs.older k m hm before hb).trans_lt he.version)
  case older =>
    intro m hm cur hcur
    cases hcur
    exact (hs.older k m hm before hb).trans he.version.le
  case copy =>
    intro m cur hm hcur a ha
    cases hcur
    rw [hs.copy k m before hm hb a ha]
    exact (he.annotations a (fun hno => hno ha)).symm

theorem Sound.remove (hs : Sound w H) {k : NamespacedName} {vm : VirtualMachine}
    (hvm : w.vms k = .live vm) : Sound (w.setVM k .removed) H := by
  obtain ⟨u, hver, -, hserved⟩ := hs.sameUid k
  have hslot : SlotSound k .removed (w.versions k) (H k) :=
    ⟨nofun, ⟨u, hver, nofun, hserved⟩, nofun, nofun, nofun, nofun, hs.servedKey k,
      hs.servedVersion k, nofun, nofun⟩
  exact hs.put hslot rfl (Function.update_eq_self k _).symm (hs.names_iff hvm) (fun _ _ => rfl)
    fun v hv => hs.uid_ne hv

/-- The others keep the invariant as long as they leave the operator's
annotations alone. -/
theorem Sound.tenant (hs : Sound w H) (hw : Tenant notOwn w w') : Sound w' H := by
  cases hw with
  | create vm hf hn hu => exact hs.create hf hn hu
  | edit k before after hb he => exact hs.edit hb he
  | remove k vm hvm _ => exact hs.remove hvm
  | clock now _ => exact hs.of_eq rfl rfl rfl
  | secrets s => exact hs.of_eq rfl rfl rfl
  | restart => exact hs.of_eq rfl rfl rfl
  | configs cfgs => exact hs.of_eq rfl rfl rfl
  | raas keys => exact hs.of_eq rfl rfl rfl

theorem Permitted.touches {k : NamespacedName} {h : History} {base obj : VirtualMachine}
    (hp : Permitted rt crash k h (.patchVM base obj)) : Touches base obj := by
  obtain ⟨-, ⟨additions, rfl, hw⟩ | hf, -⟩ := hp
  · exact hw.touches
  · exact hf.touches

section patch

variable {t : NamespacedName} {base obj cur : VirtualMachine} {version : Nat}

/-- The object of the server, of the worker and of a permitted patch are one
VM's. -/
theorem Sound.patch_key (hs : Sound w H) (hp : Permitted rt crash t (H t) (.patchVM base obj)) :
    obj.key = t :=
  hp.touches.key.trans (hs.servedKey t base (lastVM_mem_served hp.1))

theorem Sound.base_named (hs : Sound w H) (hp : Permitted rt crash t (H t) (.patchVM base obj))
    (hcur : w.vms t = .live cur) : base.name ≠ "" := by
  have hkey : base.key = cur.key := by
    rw [hs.servedKey t base (lastVM_mem_served hp.1), hs.key t cur hcur]
  have hname : base.name = cur.name := congrArg NamespacedName.name hkey
  rw [hname]
  exact hs.named t cur hcur

/-- A permitted patch puts the operator's annotations of the worker's object on
the server. -/
theorem Sound.patch_own (hs : Sound w H) (hp : Permitted rt crash t (H t) (.patchVM base obj))
    (hcur : w.vms obj.key = .live cur) : OwnEq (.patched version base obj cur) obj := by
  rw [hs.patch_key hp] at hcur
  exact patched_own (hs.copy t base cur hp.1 hcur)

theorem Sound.patch_promised (hs : Sound w H)
    (hp : Permitted rt crash t (H t) (.patchVM base obj)) (hcur : w.vms obj.key = .live cur) :
    Promised rt ⟨w, .patchVM base obj,
      .ok (.patched version base obj cur)⟩ := by
  have hserved := lastVM_mem_served hp.1
  have hkey := hs.patch_key hp
  have hown : OwnEq (.patched version base obj cur) obj := hs.patch_own hp hcur
  rw [hkey] at hcur
  refine ⟨?_, ?_, hown⟩
  · show cur.key = base.key
    rw [hs.key t cur hcur, hs.servedKey t base hserved]
  · exact (hs.served_uid hserved hcur).symm

theorem settled_ne_unused (vm : VirtualMachine) : settled vm ≠ .unused := by
  unfold settled
  split <;> nofun

theorem Sound.patch (hs : Sound w H) (hp : Permitted rt crash t (H t) (.patchVM base obj))
    (hcur : w.vms obj.key = .live cur) (hv : cur.resourceVersion ≤ version) :
    Sound (w.setVM obj.key
        (settled (.patched version base obj cur)))
      (Function.update H t (⟨w, .patchVM base obj,
        .ok (.patched version base obj cur)⟩ :: H t)) := by
  have htouch := hp.touches
  have hkey := hs.patch_key hp
  rw [hkey] at hcur ⊢
  have hmem : ∀ vm m : VirtualMachine,
      m ∈ History.served (⟨w, .patchVM base obj, .ok vm⟩ :: H t) → m = vm ∨ m ∈ (H t).served :=
    fun vm m hm => List.mem_cons.mp hm
  refine hs.put (k := t) ?_ rfl (Function.update_eq_self t _).symm (hs.names_iff hcur)
    (fun j hj => Function.update_of_ne hj _ _) fun v hv => hs.uid_ne hv
  rw [Function.update_self]
  have htenant : TenantEq cur (.patched version base obj cur) := patched_tenant htouch
  have hversion : VersionOf (w.versions t) (.patched version base obj cur) := by
    obtain ⟨v, rest, hvr, ht⟩ := hs.current t cur hcur
    refine ⟨v, rest, ?_, fun a ha => (ht a ha).trans (htenant a ha)⟩
    show upTo version (w.versions t) = v :: rest
    rw [upTo_eq_self fun u hu => (hs.bound t cur hcur u hu).trans hv, hvr]
  constructor
  case used => exact settled_ne_unused _
  case sameUid =>
    obtain ⟨u, hver, hlive, hserved⟩ := hs.sameUid t
    refine ⟨u, hver, fun vm hvm => ?_, fun m hm => ?_⟩
    · rw [settled_eq_live hvm]
      exact hlive cur hcur
    · rcases hmem _ m hm with rfl | hm
      · exact hlive cur hcur
      · exact hserved m hm
  case key => intro vm hvm; rw [settled_eq_live hvm]; exact hs.key t cur hcur
  case named => intro vm hvm; rw [settled_eq_live hvm]; exact hs.named t cur hcur
  case bound =>
    intro vm hvm v hmemv
    rw [settled_eq_live hvm]
    exact (hs.bound t cur hcur v hmemv).trans hv
  case current =>
    intro vm hvm
    rw [settled_eq_live hvm]
    obtain ⟨v, rest, hvr, ht⟩ := hs.current t cur hcur
    exact ⟨v, rest, hvr, fun a ha => (ht a ha).trans (htenant a ha)⟩
  case servedKey =>
    intro m hm
    rcases hmem _ m hm with rfl | hm
    · exact hs.key t cur hcur
    · exact hs.servedKey t m hm
  case servedVersion =>
    intro m hm
    rcases hmem _ m hm with rfl | hm
    · exact hversion
    · exact hs.servedVersion t m hm
  case older =>
    intro m hm vm hvm
    rw [settled_eq_live hvm]
    rcases hmem _ m hm with rfl | hm
    · exact le_rfl
    · exact (hs.older t m hm cur hcur).trans hv
  case copy =>
    intro m vm hm hvm
    rw [settled_eq_live hvm]
    cases hm
    exact fun _ _ => rfl

end patch

theorem Sound.read (hs : Sound w H) {t : NamespacedName} {vm : VirtualMachine}
    (hvm : w.vms t = .live vm) :
    Sound w (Function.update H t (⟨w, .getVM t, .ok vm⟩ :: H t)) := by
  refine hs.put (k := t) ?_ (Function.update_eq_self t _).symm (Function.update_eq_self t _).symm
    (hs.names_iff hvm) (fun j hj => Function.update_of_ne hj _ _) fun v hv => hs.uid_ne hv
  rw [Function.update_self]
  have hmem : ∀ m, m ∈ History.served (⟨w, .getVM t, .ok vm⟩ :: H t) → m = vm ∨ m ∈ (H t).served :=
    fun m hm => List.mem_cons.mp hm
  obtain ⟨u, hver, hlive, hserved⟩ := hs.sameUid t
  refine ⟨by rw [hvm]; nofun, ⟨u, hver, hlive, ?_⟩, hs.key t, hs.named t, hs.bound t, hs.current t,
    ?_, ?_, ?_, ?_⟩
  · intro m hm
    rcases hmem m hm with rfl | hm
    · exact hlive m hvm
    · exact hserved m hm
  · intro m hm
    rcases hmem m hm with rfl | hm
    · exact hs.key t m hvm
    · exact hs.servedKey t m hm
  · intro m hm
    rcases hmem m hm with rfl | hm
    · exact hs.versionOf hvm
    · exact hs.servedVersion t m hm
  · intro m hm cur hcur
    rcases hmem m hm with rfl | hm
    · rw [hvm] at hcur
      cases hcur
      exact le_rfl
    · exact hs.older t m hm cur hcur
  · intro m cur hm hcur
    cases hm
    rw [hvm] at hcur
    cases hcur
    exact fun _ _ => rfl

/-- A permitted call keeps the invariant, and its answer is as promised. -/
theorem Sound.call (hs : Sound w H) {t : NamespacedName} {o : Op} {a : o.Ans}
    (hp : Permitted rt crash t (H t) o) (ha : Answers rt w o a) :
    Promised rt ⟨w, o, a⟩ ∧
      Sound (effect w o a) (Function.update H t (⟨w, o, a⟩ :: H t)) := by
  cases o with
  | getVM key =>
    obtain ⟨rfl, -⟩ := hp
    cases a with
    | error e => exact ⟨trivial, hs.of_quiet_call rfl⟩
    | ok vm => exact ⟨hs.key _ vm ha, hs.read ha⟩
  | patchVM base obj =>
    cases a with
    | error e => exact ⟨trivial, hs.of_quiet_call rfl⟩
    | ok vm =>
      obtain ⟨cur, version, hcur, hv, rfl⟩ := ha
      exact ⟨hs.patch_promised hp hcur, hs.patch hp hcur hv⟩
  | salt conn c =>
    obtain ⟨raas, heff⟩ := effect_salt w conn c a
    rw [heff]
    exact ⟨ha, (hs.of_quiet_call rfl).of_eq rfl rfl rfl⟩
  | createSecret s =>
    cases a with
    | error e => exact ⟨trivial, hs.of_quiet_call rfl⟩
    | ok u => exact ⟨trivial, (hs.of_quiet_call rfl).of_eq rfl rfl rfl⟩
  | updateSecret s =>
    cases a with
    | error e => exact ⟨trivial, hs.of_quiet_call rfl⟩
    | ok u => exact ⟨trivial, (hs.of_quiet_call rfl).of_eq rfl rfl rfl⟩
  | patchSecret key data =>
    cases a with
    | error e => exact ⟨trivial, hs.of_quiet_call rfl⟩
    | ok u => exact ⟨trivial, (hs.of_quiet_call rfl).of_eq rfl rfl rfl⟩
  | cacheGet key rv =>
    cases a with
    | none => exact ⟨trivial, (hs.of_quiet_call rfl).of_eq rfl rfl rfl⟩
    | some conn => exact ⟨trivial, hs.of_quiet_call rfl⟩
  | cacheSet key rv conn => exact ⟨trivial, (hs.of_quiet_call rfl).of_eq rfl rfl rfl⟩
  | _ => exact ⟨trivial, hs.of_quiet_call rfl⟩

/-- **The contract of the workers holds in the cluster**, in every interleaving
of any number of them with the others, with any failures, and with crashes if
`crash` allows them. -/
theorem contract (rt : Runtime) (d : Default) (crash : Prop) :
    (cluster rt d notOwn crash).Contract Sound (fun _ _ => Promised rt)
      (Permitted rt crash) (fun _ => Ends rt crash)
      (fun _ h => crash ∨ History.startPending h = none) where
  init w hw := ⟨sound_init hw, fun _ => .inr rfl⟩
  env w w' H hw hs := hs.tenant hw
  call t w o a w' H hs hp hx := by
    obtain ⟨ha, rfl⟩ := hx
    exact hs.call hp ha
  boot t h hj := reconcile_keeps hj
  done t h r he := he.1
  crash hc t h := .inl hc

end sound

end SaltOperator
