import SaltOperator.Cluster.Lifecycle

/-!
# What a VM records about its key

Four annotations say how a VM came to its key. `KeyState` is that record and
`KeyState.Step` what can happen to it: the automaton of `key-status`, with the
minion ID and the match method it goes with.

- `KeyState.Step.consistent`: a minion ID and a method are recorded only with a
  key, so that a VM without a key has neither;
- `KeyState.Step.later`: what is recorded once is never taken back;
- `Write.keyStep`: every annotation patch of a pass is a step, provided a pass that
  does not delete holds no object whose key is deleted;
- `KeyRecord`: that proviso, and what else the calls of a worker and the VM keep up
  together (`keyRecord`, `keyLog`).
-/

namespace SaltOperator

/-- What a VM records about its key. -/
structure KeyState where
  status : String
  minionID : String
  method : String
  cleared : String

namespace KeyState

/-- The key of a VM that is going away was deleted, or could not be. -/
def Gone (s : KeyState) : Prop := s.status = keyStatusDeleted ∨ s.status = keyStatusDeleteFailed

/-- The VM has no key, and may get one. -/
structure Keyless (s : KeyState) : Prop where
  accepted : s.status ≠ keyStatusAccepted
  preseeded : s.status ≠ keyStatusPreseeded
  failed : ¬ (s.status = keyStatusFailed ∧ s.method = matchMethodPreseed)
  gone : ¬ s.Gone

/-- What can happen to the record; `deleting` says whether the VM is being
deleted. -/
inductive Step (deleting : Prop) : KeyState → KeyState → Prop where
  | other {s} : Step deleting s s
  | cleared {s} : s.method = matchMethodPreseed →
      Step deleting s { s with cleared := annotationTrue }
  | failed {s} : s.status ≠ keyStatusAccepted → ¬ s.Gone →
      Step deleting s { s with status := keyStatusFailed }
  | accepted {s} (minionID method : String) : s.Keyless → method ≠ "" →
      method ≠ matchMethodPreseed →
      Step deleting s { s with status := keyStatusAccepted, minionID, method }
  | preseeded {s} (minionID : String) : s.Keyless →
      Step deleting s
        { s with status := keyStatusPreseeded, minionID, method := matchMethodPreseed }
  | preseedAccepted {s} : s.status = keyStatusPreseeded →
      Step deleting s { s with status := keyStatusAccepted }
  | deleted {s} (status : String) : deleting → s.minionID ≠ "" →
      status = keyStatusDeleted ∨ status = keyStatusDeleteFailed →
      Step deleting s { s with status }

/-- Nothing is recorded of a new VM. -/
def new : KeyState := ⟨"", "", "", ""⟩

/-- A minion ID and a method come with a key. -/
structure Consistent (s : KeyState) : Prop where
  known : s.status ∈ ["", keyStatusFailed, keyStatusPreseeded, keyStatusAccepted,
    keyStatusDeleted, keyStatusDeleteFailed]
  keyless : s.Keyless → s.minionID = "" ∧ s.method = ""
  preseeded : s.status = keyStatusPreseeded → s.method = matchMethodPreseed
  accepted : s.status = keyStatusAccepted → s.method ≠ ""
  cleared : s.cleared = annotationTrue → s.method = matchMethodPreseed

/-- `s'` was recorded after `s`, or is `s`. -/
structure Later (s s' : KeyState) : Prop where
  minionID : s.minionID ≠ "" → s'.minionID = s.minionID
  method : s.method ≠ "" → s'.method = s.method
  settled : s.status = keyStatusAccepted ∨ s.Gone → s'.status = keyStatusAccepted ∨ s'.Gone

/-- The moves of `key-status`: it gets a key or fails to, and loses it with the
VM. -/
def Moves (deleting : Prop) (s s' : KeyState) : Prop :=
  s'.status = s.status ∨
  (s.status = "" ∧ s'.status ∈ [keyStatusPreseeded, keyStatusAccepted, keyStatusFailed]) ∨
  (s.status = keyStatusFailed ∧ s.method ≠ matchMethodPreseed ∧
    s'.status ∈ [keyStatusAccepted, keyStatusPreseeded]) ∨
  (s.status = keyStatusPreseeded ∧ s'.status ∈ [keyStatusAccepted, keyStatusFailed]) ∨
  (s'.status ∈ [keyStatusDeleted, keyStatusDeleteFailed] ∧ deleting)

section step

variable {deleting : Prop} {s s' t : KeyState}

theorem consistent_new : new.Consistent where
  known := by decide
  keyless _ := ⟨rfl, rfl⟩
  preseeded h := absurd h (by decide)
  accepted h := absurd h (by decide)
  cleared h := absurd h (by decide)

theorem Later.refl (s : KeyState) : s.Later s := ⟨fun _ => rfl, fun _ => rfl, id⟩

theorem Later.trans (h : s.Later t) (h' : t.Later s') : s.Later s' where
  minionID hs := by
    have ht := h.minionID hs
    rw [← ht] at hs
    rw [h'.minionID hs, ht]
  method hs := by
    have ht := h.method hs
    rw [← ht] at hs
    rw [h'.method hs, ht]
  settled hs := h'.settled (h.settled hs)

/-- A VM without a key never had one. -/
theorem Later.keyless (h : s.Later s') (hc : s.Consistent) (hc' : s'.Consistent)
    (hk : s'.Keyless) : s.Keyless := by
  have settled (hs : s.status = keyStatusAccepted ∨ s.Gone) : False := by
    rcases h.settled hs with hacc | hgone
    · exact hk.accepted hacc
    · exact hk.gone hgone
  have seeded (hm : s.method = matchMethodPreseed) : False := by
    have hsame := h.method (by rw [hm]; decide)
    rw [(hc'.keyless hk).2, hm] at hsame
    exact absurd hsame (by decide)
  exact ⟨fun hs => settled (.inl hs), fun hs => seeded (hc.preseeded hs), fun hs => seeded hs.2,
    fun hs => settled (.inr hs)⟩

/-- **A minion ID and a method are recorded only with a key.** -/
theorem Step.consistent (hs : Step deleting s s') (hc : s.Consistent) : s'.Consistent := by
  cases hs with
  | other => exact hc
  | cleared hm =>
    exact ⟨hc.known, fun hk => hc.keyless ⟨hk.accepted, hk.preseeded, hk.failed, hk.gone⟩,
      hc.preseeded, hc.accepted, fun _ => hm⟩
  | failed hacc hgone =>
    have hne : keyStatusFailed ≠ keyStatusPreseeded ∧ keyStatusFailed ≠ keyStatusAccepted := by
      decide
    refine ⟨by simp, fun hk => ?_, fun h => absurd h hne.1, fun h => absurd h hne.2, hc.cleared⟩
    -- a failure after preseeding keeps the method, which a VM without a key has not
    have hnot : s.method ≠ matchMethodPreseed := fun hm => hk.failed ⟨rfl, hm⟩
    exact hc.keyless ⟨hacc, fun hp => hnot (hc.preseeded hp), fun hf => hnot hf.2, hgone⟩
  | accepted id method hk hm _ =>
    have hne : keyStatusAccepted ≠ keyStatusPreseeded := by decide
    refine ⟨by simp, fun h => absurd rfl h.accepted, fun h => absurd h hne,
      fun _ => hm, fun h => ?_⟩
    have hmethod := hc.cleared h
    rw [(hc.keyless hk).2] at hmethod
    exact absurd hmethod (by decide)
  | preseeded id hk =>
    have hmethod : matchMethodPreseed ≠ "" := by decide
    exact ⟨by simp, fun h => absurd rfl h.preseeded, fun _ => rfl, fun _ => hmethod, fun _ => rfl⟩
  | preseedAccepted hp =>
    refine ⟨by simp, fun h => absurd rfl h.accepted, fun _ => hc.preseeded hp, fun _ => ?_,
      hc.cleared⟩
    show s.method ≠ ""
    rw [hc.preseeded hp]
    decide
  | deleted status _ hid hst =>
    have hne : ∀ t ∈ [keyStatusPreseeded, keyStatusAccepted],
        keyStatusDeleted ≠ t ∧ keyStatusDeleteFailed ≠ t := by decide
    have absent : ∀ t ∈ [keyStatusPreseeded, keyStatusAccepted], status ≠ t := by
      intro t ht
      rcases hst with rfl | rfl
      · exact (hne t ht).1
      · exact (hne t ht).2
    exact ⟨by rcases hst with rfl | rfl <;> simp, fun h => absurd hst h.gone,
      fun h => absurd h (absent _ (by simp)), fun h => absurd h (absent _ (by simp)), hc.cleared⟩

/-- **What is recorded once is never taken back.** -/
theorem Step.later (hs : Step deleting s s') (hc : s.Consistent) : s.Later s' := by
  cases hs with
  | other => exact .refl s
  | cleared _ => exact ⟨fun _ => rfl, fun _ => rfl, id⟩
  | failed hacc hgone =>
    refine ⟨fun _ => rfl, fun _ => rfl, fun h => ?_⟩
    rcases h with h | h
    · exact absurd h hacc
    · exact absurd h hgone
  | accepted id method hk _ _ =>
    obtain ⟨hid, hm⟩ := hc.keyless hk
    exact ⟨fun h => absurd hid h, fun h => absurd hm h, fun _ => .inl rfl⟩
  | preseeded id hk =>
    obtain ⟨hid, hm⟩ := hc.keyless hk
    refine ⟨fun h => absurd hid h, fun h => absurd hm h, fun h => ?_⟩
    rcases h with h | h
    · exact absurd h hk.accepted
    · exact absurd h hk.gone
  | preseedAccepted _ => exact ⟨fun _ => rfl, fun _ => rfl, fun _ => .inl rfl⟩
  | deleted status _ _ hst => exact ⟨fun _ => rfl, fun _ => rfl, fun _ => .inr hst⟩

theorem Step.imp {more : Prop} (hs : Step deleting s s') (hd : deleting → more) :
    Step more s s' := by
  cases hs with
  | other => exact .other
  | cleared hm => exact .cleared hm
  | failed hacc hgone => exact .failed hacc hgone
  | accepted id method hk hne hm => exact .accepted id method hk hne hm
  | preseeded id hk => exact .preseeded id hk
  | preseedAccepted hp => exact .preseedAccepted hp
  | deleted status hdel hid hst => exact .deleted status (hd hdel) hid hst

/-- A key is deleted with its VM. -/
theorem Step.gone (hs : Step deleting s s') (hg : s'.Gone) : deleting ∨ s.Gone := by
  have kept : ∀ status ∈ [keyStatusFailed, keyStatusAccepted, keyStatusPreseeded],
      ¬ (status = keyStatusDeleted ∨ status = keyStatusDeleteFailed) := by decide
  cases hs with
  | other => exact .inr hg
  | cleared _ => exact .inr hg
  | failed _ _ => exact absurd hg (kept _ (by simp))
  | accepted id method _ _ _ => exact absurd hg (kept _ (by simp))
  | preseeded id _ => exact absurd hg (kept _ (by simp))
  | preseedAccepted _ => exact absurd hg (kept _ (by simp))
  | deleted status hdel _ _ => exact .inl hdel

/-- **`key-status` moves as its automaton says.** -/
theorem Step.moves (hs : Step deleting s s') (hc : s.Consistent) : s.Moves deleting s' := by
  -- a VM without a key is new, or failed to get one
  have unset : s.Keyless → s.status = "" ∨
      (s.status = keyStatusFailed ∧ s.method ≠ matchMethodPreseed) := by
    intro hk
    have hknown := hc.known
    simp only [List.mem_cons, List.not_mem_nil, or_false] at hknown
    rcases hknown with h | h | h | h | h | h
    · exact .inl h
    · exact .inr ⟨h, fun hm => hk.failed ⟨h, hm⟩⟩
    · exact absurd h hk.preseeded
    · exact absurd h hk.accepted
    · exact absurd (.inl h) hk.gone
    · exact absurd (.inr h) hk.gone
  cases hs with
  | other => exact .inl rfl
  | cleared _ => exact .inl rfl
  | failed hacc hgone =>
    have hknown := hc.known
    simp only [List.mem_cons, List.not_mem_nil, or_false] at hknown
    rcases hknown with h | h | h | h | h | h
    · exact .inr (.inl ⟨h, by simp⟩)
    · exact .inl h.symm
    · exact .inr (.inr (.inr (.inl ⟨h, by simp⟩)))
    · exact absurd h hacc
    · exact absurd (.inl h) hgone
    · exact absurd (.inr h) hgone
  | accepted id method hk _ _ =>
    rcases unset hk with h | h
    · exact .inr (.inl ⟨h, by simp⟩)
    · exact .inr (.inr (.inl ⟨h.1, h.2, by simp⟩))
  | preseeded id hk =>
    rcases unset hk with h | h
    · exact .inr (.inl ⟨h, by simp⟩)
    · exact .inr (.inr (.inl ⟨h.1, h.2, by simp⟩))
  | preseedAccepted hp => exact .inr (.inr (.inr (.inl ⟨hp, by simp⟩)))
  | deleted status hdel _ hst =>
    exact .inr (.inr (.inr (.inr ⟨by rcases hst with rfl | rfl <;> simp, hdel⟩)))

end step

end KeyState

/-! ## The operator refines it -/

/-- What the VM records about its key. -/
def VirtualMachine.keyState (vm : VirtualMachine) : KeyState where
  status := vm.annotationOf annotationKeyStatus
  minionID := vm.annotationOf annotationMinionID
  method := vm.annotationOf annotationMatchMethod
  cleared := vm.annotationOf annotationKeyCleared

/-- The VM records its minion ID as preseeded. -/
def VirtualMachine.Preseeded (vm : VirtualMachine) : Prop :=
  vm.annotationOf annotationMatchMethod = matchMethodPreseed

theorem OwnEq.keyState {m n : VirtualMachine} (h : OwnEq m n) : m.keyState = n.keyState := by
  unfold VirtualMachine.keyState
  rw [h.annotationOf (a := annotationKeyStatus) (by decide),
    h.annotationOf (a := annotationMinionID) (by decide),
    h.annotationOf (a := annotationMatchMethod) (by decide),
    h.annotationOf (a := annotationKeyCleared) (by decide)]

/-- Nothing is recorded of a new VM. -/
theorem keyState_fresh {vm : VirtualMachine} (hf : vm.Fresh) : vm.keyState = .new := by
  have unset : ∀ a ∈ ownAnnotations, vm.annotationOf a = "" := fun a ha => by
    rw [VirtualMachine.annotationOf_eq_getD, hf.annotations a ha]
    rfl
  unfold VirtualMachine.keyState
  rw [unset annotationKeyStatus (by decide), unset annotationMinionID (by decide),
    unset annotationMatchMethod (by decide), unset annotationKeyCleared (by decide)]
  rfl

section write

variable {rt : Runtime} {crash : Prop} {k : NamespacedName} {h : History}
  {m vm seen base obj : VirtualMachine} {cfg : SaltKeyConfig}

theorem keyState_withAnnotations (additions : List (String × String)) :
    (m.withAnnotations additions).keyState =
      { status := (additions.reverse.lookup annotationKeyStatus).getD m.keyState.status
        minionID := (additions.reverse.lookup annotationMinionID).getD m.keyState.minionID
        method := (additions.reverse.lookup annotationMatchMethod).getD m.keyState.method
        cleared := (additions.reverse.lookup annotationKeyCleared).getD m.keyState.cleared } := by
  simp only [VirtualMachine.keyState, VirtualMachine.annotationOf_withAnnotations]

theorem keyState_handled (patch : List (String × String)) :
    (m.withAnnotations (patch ++ handledMarkers vm cfg)).keyState =
      (m.withAnnotations patch).keyState := by
  rw [keyState_withAnnotations, keyState_withAnnotations,
    lookup_append_handled (a := annotationKeyStatus) _ (by decide) (by decide),
    lookup_append_handled (a := annotationMinionID) _ (by decide) (by decide),
    lookup_append_handled (a := annotationMatchMethod) _ (by decide) (by decide),
    lookup_append_handled (a := annotationKeyCleared) _ (by decide) (by decide)]

theorem keyState_marked (patch : List (String × String)) :
    (m.withAnnotations (withMarkers (day2Markers rt seen cfg) patch)).keyState =
      (m.withAnnotations patch).keyState := by
  rw [keyState_withAnnotations, keyState_withAnnotations,
    lookup_withMarkers (a := annotationKeyStatus) _ (by decide) (by decide) (by decide),
    lookup_withMarkers (a := annotationMinionID) _ (by decide) (by decide) (by decide),
    lookup_withMarkers (a := annotationMatchMethod) _ (by decide) (by decide) (by decide),
    lookup_withMarkers (a := annotationKeyCleared) _ (by decide) (by decide) (by decide)]

/-- The pass in progress works on a VM that was being deleted. -/
def History.Deletes (h : History) : Prop :=
  ∃ vm cfg, h.passInputs = some (vm, cfg) ∧ vm.deleting = true

/-- A pass for a VM that is not deleted holds no object whose key is. -/
def History.CreatesKeyed (h : History) (m : VirtualMachine) : Prop :=
  ∀ cfg, h.Creates cfg → ¬ m.keyState.Gone

theorem VirtualMachine.NoKey.keyless (hk : m.NoKey) (hg : ¬ m.keyState.Gone) :
    m.keyState.Keyless := ⟨hk.1, hk.2.1, hk.2.2, hg⟩

theorem Discovers.keyless (hd : Discovers h m) (hck : h.CreatesKeyed m) : m.keyState.Keyless := by
  obtain ⟨cfg, hcreates, -⟩ := hd.mode
  exact hd.noKey.keyless (hck cfg hcreates)

theorem Preseeds.keyless (hp : Preseeds h m) (hck : h.CreatesKeyed m) : m.keyState.Keyless := by
  obtain ⟨cfg, hcreates, -⟩ := hp.mode
  exact hp.noKey.keyless (hck cfg hcreates)

/-- Every annotation patch takes the record one step along. -/
theorem Write.keyStep {additions : List (String × String)} (hw : Write rt h m additions)
    (hck : h.CreatesKeyed m) :
    KeyState.Step h.Deletes m.keyState (m.withAnnotations additions).keyState := by
  cases hw with
  | reset vm cfg => rw [keyState_handled, keyState_withAnnotations]; exact .other
  | restart vm cfg => rw [keyState_handled, keyState_withAnnotations]; exact .other
  | day2RefreshFailed seen cfg => rw [keyState_marked, keyState_withAnnotations]; exact .other
  | day2DispatchFailed seen cfg => rw [keyState_marked, keyState_withAnnotations]; exact .other
  | day2Dispatched seen cfg jid => rw [keyState_marked, keyState_withAnnotations]; exact .other
  | keyCleared hm => rw [keyState_withAnnotations]; exact .cleared hm
  | keyFailed cfg hk hc => rw [keyState_withAnnotations]; exact .failed hk (hck cfg hc)
  | keyAccepted conn id method t hd _ hne hm =>
    rw [keyState_withAnnotations]
    exact .accepted id method (hd.keyless hck) hne hm
  | keyPreseeded hp => rw [keyState_withAnnotations]; exact .preseeded m.name (hp.keyless hck)
  | preseedAccepted t hk => rw [keyState_withAnnotations]; exact .preseedAccepted hk
  | keyDeleted vm cfg status hid hst hi hdel =>
    rw [keyState_withAnnotations]
    exact .deleted status ⟨vm, cfg, hi, hdel⟩ hid hst
  | _ => rw [keyState_withAnnotations]; exact .other

/-- The same for all permitted patches. -/
theorem Permitted.keyStep (hp : Permitted rt crash k h (.patchVM base obj))
    (hck : h.CreatesKeyed base) : KeyState.Step h.Deletes base.keyState obj.keyState := by
  obtain ⟨-, ⟨additions, rfl, hw⟩ | hf, -⟩ := hp
  · exact hw.keyStep hck
  · rw [hf.ownEq.keyState]
    exact .other

/-- A patch that records a preseeded minion ID follows a look at the owners and
the delivery of the pair. -/
theorem Write.preseeded {h : History} {m : VirtualMachine} {additions : List (String × String)}
    (hw : Write rt h m additions) (hp : (m.withAnnotations additions).Preseeded) :
    (m.Preseeded ∧ (m.withAnnotations additions).annotationOf annotationMinionID =
      m.annotationOf annotationMinionID) ∨
    (h.CheckedFree m ∧ Delivered h m ∧
      (m.withAnnotations additions).annotationOf annotationMinionID = m.name) := by
  unfold VirtualMachine.Preseeded at hp ⊢
  rw [VirtualMachine.annotationOf_withAnnotations] at hp ⊢
  cases hw with
  | keyPreseeded hk hd => exact .inr ⟨hk.free, hd, rfl⟩
  | keyAccepted conn id method t hk hid _ hm => exact absurd hp hm
  | reset vm cfg =>
    rw [lookup_append_handled _ (by decide) (by decide)] at hp ⊢
    exact .inl ⟨hp, rfl⟩
  | restart vm cfg =>
    rw [lookup_append_handled _ (by decide) (by decide)] at hp ⊢
    exact .inl ⟨hp, rfl⟩
  | day2RefreshFailed seen cfg =>
    rw [lookup_withMarkers _ (by decide) (by decide) (by decide)] at hp ⊢
    exact .inl ⟨hp, rfl⟩
  | day2DispatchFailed seen cfg =>
    rw [lookup_withMarkers _ (by decide) (by decide) (by decide)] at hp ⊢
    exact .inl ⟨hp, rfl⟩
  | day2Dispatched seen cfg jid =>
    rw [lookup_withMarkers _ (by decide) (by decide) (by decide)] at hp ⊢
    exact .inl ⟨hp, rfl⟩
  | _ => exact .inl ⟨hp, rfl⟩

/-- The same for all permitted patches. -/
theorem Permitted.preseeded {k : NamespacedName} {h : History} {base obj : VirtualMachine}
    (hp : Permitted rt crash k h (.patchVM base obj)) (hpre : obj.Preseeded) :
    (base.Preseeded ∧
      obj.annotationOf annotationMinionID = base.annotationOf annotationMinionID) ∨
    (h.CheckedFree base ∧ Delivered h base ∧ obj.annotationOf annotationMinionID = base.name) := by
  obtain ⟨-, ⟨additions, rfl, hw⟩ | hf, -⟩ := hp
  · exact hw.preseeded hpre
  · refine .inl ⟨?_, hf.ownEq.annotationOf (by decide)⟩
    unfold VirtualMachine.Preseeded at hpre ⊢
    rwa [← hf.ownEq.annotationOf (by decide)]

theorem OwnEq.preseeded {m n : VirtualMachine} (h : OwnEq m n) : m.Preseeded ↔ n.Preseeded := by
  unfold VirtualMachine.Preseeded
  rw [h.annotationOf (by decide)]

end write

/-- The Secret a worker writes is that of its VM. -/
theorem Sound.secretOf {rt : Runtime} {crash : Prop} {w : World} {H : NamespacedName → History}
    (hs : Sound w H)
    {t key : NamespacedName} {o : Op} (hp : Permitted rt crash t (H t) o)
    (ho : o.secretOf = some key) : key = t.bootstrap := by
  have stores : ∀ s, StoresKey (H t) s → (⟨s.nspace, s.name⟩ : NamespacedName) = t.bootstrap := by
    rintro s ⟨m, conn, pair, masterPub, hm, -, -, rfl⟩
    rw [← hs.servedKey t m (lastVM_mem_served hm)]
    rfl
  cases o with
  | createSecret s => cases ho; exact stores s hp
  | updateSecret s => cases ho; exact stores s hp
  | patchSecret key' data =>
    cases ho
    obtain ⟨m, hm, -, rfl, -⟩ := hp
    rw [← hs.servedKey t m (lastVM_mem_served hm)]
    rfl
  | _ => cases ho

/-! ## Runs -/

/-- What the objects a worker was sent say about the key, in the order it was sent
them. -/
structure KeyLog (h : History) : Prop where
  consistent : ∀ m ∈ h.served, m.keyState.Consistent
  gone : ∀ m ∈ h.served, m.keyState.Gone → m.deleting = true
  later : ∀ m ∈ h.served, ∀ m', h.lastVM = some m' → m.keyState.Later m'.keyState
  creating : ∀ m, h.lastVM = some m → h.CreatesKeyed m

/-- The log of a worker, and the VM as it is. -/
structure KeyRecord (h : History) (vm : VirtualMachine) : Prop where
  log : KeyLog h
  untouched : h.served = [] → vm.keyState = .new
  consistent : vm.keyState.Consistent
  gone : vm.keyState.Gone → vm.deleting = true
  deleting : ∀ m ∈ h.served, m.deleting = true → vm.deleting = true

section runs

variable {rt : Runtime} {d : Default} {crash : Prop} {k : NamespacedName} {h : History}
  {vm : VirtualMachine}

/-- The VM of the pass in progress was sent by the API server. -/
theorem passInputs_mem_served {cfg : SaltKeyConfig} :
    ∀ {h : History}, h.passInputs = some (vm, cfg) → vm ∈ h.served
  | [], hi => by cases hi
  | ⟨w, o, a⟩ :: h, hi => by
    have keep : History.served h ⊆ History.served (⟨w, o, a⟩ :: h) := by
      intro m hm
      unfold History.served at hm ⊢
      rw [List.filterMap_cons]
      split
      · exact hm
      · exact List.mem_cons_of_mem _ hm
    cases o with
    | getVM key =>
      have hf : (History.passInputs h).filter (fun i => i.1.deleting) = some (vm, cfg) := hi
      exact keep (passInputs_mem_served (Option.filter_eq_some_iff.mp hf).1)
    | listConfigs nspace =>
      cases a with
      | error e => exact keep (passInputs_mem_served (h := h) hi)
      | ok configs =>
        exact keep (lastVM_mem_served (History.passInputs_listConfigs.mp hi).1)
    | _ => exact keep (passInputs_mem_served (h := h) hi)

/-- A pass comes to work on the object it holds, which then is not being
deleted. -/
theorem Creates.of_cons {c : Made} {cfg : SaltKeyConfig} (hc : History.Creates (c :: h) cfg) :
    (∃ cfg, h.Creates cfg) ∨ ∃ m, h.lastVM = some m ∧ m.deleting = false := by
  obtain ⟨w, o, a⟩ := c
  obtain ⟨vm, hi, hdel⟩ := hc
  cases o with
  | getVM key =>
    have hf : (History.passInputs h).filter (fun i => i.1.deleting) = some (vm, cfg) := hi
    rw [(Option.filter_eq_some_iff.mp hf).2] at hdel
    cases hdel
  | listConfigs nspace =>
    cases a with
    | error e => exact .inl ⟨cfg, vm, hi, hdel⟩
    | ok configs =>
      exact .inr ⟨vm, (History.passInputs_listConfigs.mp hi).1, hdel⟩
  | _ => exact .inl ⟨cfg, vm, hi, hdel⟩

/-- A call that brings no object leaves the log as it is. -/
theorem KeyLog.call (hl : KeyLog h) {c : Made} (hc : c.vm? = none) : KeyLog (c :: h) := by
  have hserved : History.served (c :: h) = h.served := by
    unfold History.served
    rw [List.filterMap_cons, hc]
  have hlast : History.lastVM (c :: h) = h.lastVM := by
    unfold History.lastVM
    rw [List.findSome?_cons, hc]
  refine ⟨fun m hm => hl.consistent m (hserved ▸ hm), fun m hm => hl.gone m (hserved ▸ hm),
    fun m hm m' hm' => hl.later m (hserved ▸ hm) m' (hlast ▸ hm'), fun m hm cfg hcr hg => ?_⟩
  rw [hlast] at hm
  rcases Creates.of_cons hcr with ⟨cfg', hcr'⟩ | ⟨m', hm', hdel⟩
  · exact hl.creating m hm cfg' hcr' hg
  · rw [hm] at hm'
    cases hm'
    rw [hl.gone m (lastVM_mem_served hm) hg] at hdel
    cases hdel

/-- An object joins the log. -/
theorem KeyLog.serve (hl : KeyLog h) {c : Made} {m : VirtualMachine} (hc : c.vm? = some m)
    (hcons : m.keyState.Consistent) (hgone : m.keyState.Gone → m.deleting = true)
    (hlater : ∀ m', h.lastVM = some m' → m'.keyState.Later m.keyState)
    (hcreate : History.CreatesKeyed (c :: h) m) : KeyLog (c :: h) := by
  have hserved : ∀ x, x ∈ History.served (c :: h) ↔ x = m ∨ x ∈ h.served := by
    intro x
    unfold History.served
    rw [List.filterMap_cons, hc]
    exact List.mem_cons
  have hlast : History.lastVM (c :: h) = some m := by
    unfold History.lastVM
    rw [List.findSome?_cons, hc]
  refine ⟨fun x hx => ?_, fun x hx => ?_, fun x hx y hy => ?_, fun x hx => ?_⟩
  · rcases (hserved x).mp hx with rfl | hx
    · exact hcons
    · exact hl.consistent x hx
  · rcases (hserved x).mp hx with rfl | hx
    · exact hgone
    · exact hl.gone x hx
  · rw [hlast] at hy
    cases hy
    rcases (hserved x).mp hx with rfl | hx
    · exact .refl _
    · -- the last object of the log lies between the two
      obtain ⟨m', hm'⟩ := exists_lastVM hx
      exact (hl.later x hx m' hm').trans (hlater m' hm')
  · rw [hlast] at hx
    cases hx
    exact hcreate

/-- The object a worker is about to patch is a copy of the VM. -/
theorem KeyRecord.patch (hr : KeyRecord h vm) {base obj : VirtualMachine}
    {version : Nat} {w : World}
    (hp : Permitted rt crash k h (.patchVM base obj)) (hbase : OwnEq base vm)
    (hnew : OwnEq (.patched version base obj vm) obj) :
    KeyRecord (⟨w, .patchVM base obj, .ok (.patched version base obj vm)⟩ :: h)
      (.patched version base obj vm) := by
  have hck := hr.log.creating base hp.1
  have hstep := hp.keyStep hck
  have hstate : (VirtualMachine.patched version base obj vm).keyState = obj.keyState :=
    hnew.keyState
  have hcons : obj.keyState.Consistent := by
    refine hstep.consistent ?_
    rw [hbase.keyState]
    exact hr.consistent
  -- a key is deleted by a pass that deletes, or was before
  have hgone : obj.keyState.Gone → h.Deletes ∨ base.keyState.Gone := hstep.gone
  have hdel : obj.keyState.Gone → vm.deleting = true := by
    intro hg
    rcases hgone hg with ⟨pv, cfg, hi, hpv⟩ | hg
    · exact hr.deleting pv (passInputs_mem_served hi) hpv
    · rw [hbase.keyState] at hg
      exact hr.gone hg
  refine ⟨hr.log.serve rfl ?_ ?_ ?_ ?_, nofun, ?_, ?_, ?_⟩
  · rwa [hstate]
  · rw [hstate]
    exact hdel
  · intro m' hm'
    rw [hp.1] at hm'
    cases hm'
    rw [hstate]
    exact hstep.later (hbase.keyState ▸ hr.consistent)
  · rintro cfg ⟨pv, hi, hpv⟩ hg
    rw [hstate] at hg
    rcases hgone hg with ⟨pv', cfg', hi', hpv'⟩ | hg
    · have heq : some (pv, cfg) = some (pv', cfg') := hi.symm.trans hi'
      cases heq
      rw [hpv] at hpv'
      cases hpv'
    · exact hck cfg ⟨pv, hi, hpv⟩ hg
  · rwa [hstate]
  · rw [hstate]
    exact hdel
  · intro m hm hmdel
    rcases List.mem_cons.mp hm with rfl | hm
    · exact hmdel
    · exact hr.deleting m hm hmdel

/-- **The records of the keys hold together in every run.** -/
theorem keyRecord_invariant : VMInvariant rt d crash (fun _ _ _ => True)
    (fun _ _ h vm => KeyRecord h vm) := by
  constructor
  case fresh =>
    intro h vm hf hserved
    have hlast : h.lastVM = none := lastVM_of_served_nil hserved
    have hnone : ∀ m, m ∉ h.served := fun m hm => by rw [hserved] at hm; cases hm
    refine ⟨⟨fun m hm => absurd hm (hnone m), fun m hm => absurd hm (hnone m),
      fun m hm => absurd hm (hnone m), fun m hm => by rw [hlast] at hm; cases hm⟩,
      fun _ => keyState_fresh hf, ?_, ?_, fun m hm => absurd hm (hnone m)⟩
    · rw [keyState_fresh hf]
      exact KeyState.consistent_new
    · rw [keyState_fresh hf]
      exact fun hg => absurd hg (by unfold KeyState.Gone; decide)
  case edit =>
    intro c c' k before after _ _ _ he _ _ _ hr
    have hown : OwnEq after before := fun a ha => he.annotations a fun hno => hno ha
    refine ⟨hr.log, fun hs => ?_, ?_, ?_, fun m hm hd => he.deleting (hr.deleting m hm hd)⟩
    · rw [hown.keyState]
      exact hr.untouched hs
    · rw [hown.keyState]
      exact hr.consistent
    · rw [hown.keyState]
      exact fun hg => he.deleting (hr.gone hg)
  case call =>
    intro c c' k o a vm _ hs hvm hp hans hno _ hr
    by_cases hnone : Made.vm? ⟨c.world, o, a⟩ = none
    · have hserved : History.served (⟨c.world, o, a⟩ :: c.hist k) = History.served (c.hist k) := by
        unfold History.served
        rw [List.filterMap_cons, hnone]
      exact ⟨hr.log.call hnone, fun hs => hr.untouched (hserved ▸ hs), hr.consistent, hr.gone,
        fun m hm => hr.deleting m (hserved ▸ hm)⟩
    · cases o with
      | getVM key =>
        cases a with
        | error e => exact absurd rfl hnone
        | ok vm' =>
          obtain ⟨rfl, -⟩ := hp
          have hlive : c.world.vms _ = .live vm' := hans
          rw [hvm] at hlive
          cases hlive
          refine ⟨hr.log.serve rfl hr.consistent hr.gone (fun m' hm' => ?_) ?_, nofun,
            hr.consistent, hr.gone, fun m hm hd => ?_⟩
          · rw [(hs.copy _ m' vm hm' hvm).keyState]
            exact .refl _
          · rintro cfg ⟨pv, hi, hpv⟩
            rw [(Option.filter_eq_some_iff.mp hi).2] at hpv
            cases hpv
          · rcases List.mem_cons.mp hm with rfl | hm
            · exact hd
            · exact hr.deleting m hm hd
      | patchVM base obj =>
        cases a with
        | error e => exact absurd rfl hnone
        | ok vm' => exact absurd rfl (hno base obj vm')
      | _ => exact absurd rfl hnone
  case patch =>
    intro c c' k base obj cur version _ _ _ _ hp hbase hnew _ hr
    exact hr.patch hp hbase hnew

variable {c : ClusterCfg}

theorem keyRecord (h : (cluster rt d notOwn crash).Reach c) (hvm : c.world.vms k = .live vm) :
    KeyRecord (c.hist k) vm := keyRecord_invariant.holds h hvm

theorem keyLog (h : (cluster rt d notOwn crash).Reach c) (k : NamespacedName) :
    KeyLog (c.hist k) :=
  keyRecord_invariant.history (fun hr => hr.log) ⟨nofun, nofun, nofun, nofun⟩
    (fun hm hl => hl.call hm) h k

/-- A preseeded minion ID is the VM's name. -/
theorem preseed_minionID {c : ClusterCfg} (h : (cluster rt d notOwn crash).Reach c)
    {k : NamespacedName} {vm : VirtualMachine} (hvm : c.world.vms k = .live vm)
    (hpre : vm.Preseeded) : vm.annotationOf annotationMinionID = k.name := by
  have hP : VMInvariant rt d crash (fun _ _ _ => True)
      (fun k _ _ vm => vm.Preseeded → vm.annotationOf annotationMinionID = k.name) := by
    constructor
    case fresh =>
      intro h vm hf _ hpre
      rw [VirtualMachine.Preseeded, VirtualMachine.annotationOf_eq_getD,
        hf.annotations _ (by decide)] at hpre
      exact absurd hpre (by decide)
    case edit =>
      intro c c' k before after _ _ _ he _ _ _ hq hpre
      have hown : OwnEq after before := fun a ha => he.annotations a fun hno => hno ha
      rw [hown.annotationOf (by decide)]
      exact hq (hown.preseeded.mp hpre)
    case call => exact fun _ _ _ _ _ _ _ hq => hq
    case patch =>
      intro c c' k base obj cur version _ hs hcur _ hp hbase hnew _ hq hpre
      rw [hnew.annotationOf (by decide)]
      rcases hp.preseeded (hnew.preseeded.mp hpre) with ⟨hb, hid⟩ | ⟨-, -, hid⟩
      · rw [hid, hbase.annotationOf (by decide)]
        exact hq (hbase.preseeded.mp hb)
      · rw [hid]
        exact congrArg NamespacedName.name (hs.servedKey k base (lastVM_mem_served hp.1))
  exact hP.holds h hvm hpre

/-- A chain that has moved is that of a VM whose key was accepted, and is gone with the
VM. -/
theorem settled_of_chain (h : (cluster rt d notOwn crash).Reach c) (hvm : c.world.vms k = .live vm)
    (hst : vm.annotationOf annotationSaltStatus ≠ "") :
    vm.keyState.status = keyStatusAccepted ∨ vm.keyState.Gone := by
  have hP : VMInvariant rt d crash (fun _ _ _ => True) (fun _ _ _ vm =>
      vm.annotationOf annotationSaltStatus ≠ "" →
        vm.keyState.status = keyStatusAccepted ∨ vm.keyState.Gone) := by
    constructor
    case fresh =>
      intro h vm hf _ hst
      exact absurd (congrArg Lifecycle.saltStatus (lifecycle_fresh hf)) hst
    case edit =>
      intro c c' k before after _ _ _ he _ _ _ hq hst
      have hown : OwnEq after before := fun a ha => he.annotations a fun hno => hno ha
      rw [hown.keyState]
      rw [hown.annotationOf (by decide)] at hst
      exact hq hst
    case call => exact fun _ _ _ _ _ _ _ hq => hq
    case patch =>
      intro c c' k base obj cur version hreach hs hcur _ hp hbase hnew _ hq hst
      have hrec := keyRecord hreach hcur
      have hkey := hp.keyStep (hrec.log.creating base hp.1)
      rw [hnew.keyState]
      rw [hnew.annotationOf (by decide)] at hst
      by_cases hmoved :
        obj.annotationOf annotationSaltStatus = base.annotationOf annotationSaltStatus
      · -- the chain stands where it stood, and what is recorded of the key stays
        rw [hmoved, hbase.annotationOf (by decide)] at hst
        refine (hkey.later ?_).settled ?_
        · rw [hbase.keyState]
          exact hrec.consistent
        · rw [hbase.keyState]
          exact hq hst
      · exact .inl ((hp.lifecycle (hs.base_named hp hcur)).accepted_of_moves hmoved)
  exact hP.holds h hvm hst

/-- The key of a VM that stays is accepted if its chain has moved. -/
theorem accepted_of_chain (h : (cluster rt d notOwn crash).Reach c) (hvm : c.world.vms k = .live vm)
    (hdel : vm.deleting = false) (hst : vm.annotationOf annotationSaltStatus ≠ "") :
    vm.annotationOf annotationKeyStatus = keyStatusAccepted := by
  refine (settled_of_chain h hvm hst).resolve_right fun hgone => ?_
  rw [(keyRecord h hvm).gone hgone] at hdel
  cases hdel

/-- What is recorded of a VM was sent to its worker. -/
theorem exists_served_keyState (h : (cluster rt d notOwn crash).Reach c)
    (hvm : c.world.vms k = .live vm) (hne : vm.keyState ≠ .new) :
    ∃ m ∈ History.served (c.hist k), m.keyState = vm.keyState := by
  have hsound := ((contract rt d crash).keeps h).1
  obtain ⟨x, hx⟩ : ∃ x, x ∈ History.served (c.hist k) := by
    refine List.exists_mem_of_ne_nil _ fun hnil => hne ?_
    exact (keyRecord h hvm).untouched hnil
  obtain ⟨m, hm⟩ := exists_lastVM hx
  exact ⟨m, lastVM_mem_served hm, (hsound.copy k m vm hm hvm).keyState⟩

/-- Calls with which a worker gets a key for its VM, or hands it over. -/
def Op.obtainsKey : Op → Bool
  | .createSecret _ => true
  | .updateSecret _ => true
  | .salt _ (.acceptKey _) => true
  | .salt _ (.genAcceptKey _ _) => true
  | _ => false

/-- A worker gets a key for a VM that has none. -/
theorem keyless_of_obtainsKey {o : Op} (hl : KeyLog h) (hp : Permitted rt crash k h o)
    (ho : o.obtainsKey = true) : ∃ m, h.lastVM = some m ∧ m.keyState.Keyless := by
  have stores : ∀ s, StoresKey h s → ∃ m, h.lastVM = some m ∧ m.keyState.Keyless := by
    rintro s ⟨m, conn, pair, masterPub, hm, hpre, -⟩
    exact ⟨m, hm, hpre.keyless (hl.creating m hm)⟩
  cases o with
  | createSecret s => exact stores s hp
  | updateSecret s => exact stores s hp
  | salt conn call =>
    cases call with
    | acceptKey id =>
      obtain ⟨m, hm, hd⟩ := hp
      exact ⟨m, hm, hd.keyless (hl.creating m hm)⟩
    | genAcceptKey id force =>
      obtain ⟨m, hm, -, hpre⟩ := hp
      exact ⟨m, hm, hpre.keyless (hl.creating m hm)⟩
    | _ => cases ho
  | _ => cases ho

/-- **A VM whose worker looks for a key or has one generated never had one**: all
its worker was sent says so. -/
theorem KeyLog.keyless (hl : KeyLog h) {m : VirtualMachine} (hm : h.lastVM = some m)
    (hk : m.keyState.Keyless) {m' : VirtualMachine} (hm' : m' ∈ h.served) :
    m'.keyState.minionID = "" ∧ m'.keyState.method = "" ∧
      m'.keyState.cleared ≠ annotationTrue ∧ m'.keyState.status ≠ keyStatusAccepted := by
  obtain ⟨hid, hmethod⟩ := (hl.consistent m (lastVM_mem_served hm)).keyless hk
  have hlater := hl.later m' hm' m hm
  have hmethod' : m'.keyState.method = "" := by
    by_contra hne
    exact hne (hlater.method hne ▸ hmethod)
  refine ⟨?_, hmethod', fun hc => ?_, fun hacc => ?_⟩
  · by_contra hne
    exact hne (hlater.minionID hne ▸ hid)
  · rw [(hl.consistent m' hm').cleared hc] at hmethod'
    exact absurd hmethod' (by decide)
  · rcases hlater.settled (.inl hacc) with h | h
    · exact hk.accepted h
    · exact hk.gone h

end runs

end SaltOperator
