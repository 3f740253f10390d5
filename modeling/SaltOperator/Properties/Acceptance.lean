import SaltOperator.Lib.Interrupted
import SaltOperator.Cluster.AloneChain
import SaltOperator.Cluster.Induction
import SaltOperator.Cluster.Run

/-!
# Accepting a discovered key, and being interrupted

In discovery mode the operator looks for the key of a VM among the pending ones, has it
accepted, and then records that on the VM. RaaS and Kubernetes are told one after the other,
and the operator may stop, or be refused, in between.

**After a pass that stopped anywhere, the next pass in which every call succeeds accepts the
VM with the key that matched exactly when the key is still pending or the acceptance was
recorded** (`acceptance_resumed_iff`). An operator that stops after the key was accepted and
before that was recorded does not find it again (`acceptance_lost`).
-/

namespace SaltOperator

/-! ## The key of a VM that is to be discovered -/

/-- The operator looks for the key of the VM among the pending ones. -/
structure AwaitsKey (cfg : SaltKeyConfig) (vm : VirtualMachine) : Prop where
  mode : cfg.spec.keyAcceptance ≠ keyAcceptancePreseed
  running : vm.running = true
  address : vm.primaryIP ≠ ""
  unaccepted : vm.annotationOf annotationKeyStatus ≠ keyStatusAccepted
  unseeded : vm.annotationOf annotationKeyStatus ≠ keyStatusPreseeded
  untried : ¬ (vm.annotationOf annotationKeyStatus = keyStatusFailed ∧
    vm.annotationOf annotationMatchMethod = matchMethodPreseed)

/-- The minions that wait at the RaaS. -/
def World.pendingKeys (w : World) (url : String) : List String := (w.raas url).pending.map Prod.fst

/-- The calls to RaaS go to this one, and it lists the keys that are pending. -/
def AtRaas (url : String) (w : World) : (o : Op) → o.Ans → Prop
  | .salt conn .listPendingKeys, a =>
    conn.url = url ∧ ∀ keys, a = .ok keys → keys = w.pendingKeys url
  | .salt conn _, _ => conn.url = url
  | _, _ => True

/-- Any call may fail. -/
def Trying (url : String) : AnswerCondition := fun w o a => FreshConfigs w o a ∧ AtRaas url w o a

/-- No call fails. -/
def Succeeding (url : String) : AnswerCondition := fun w o a => AllSucceed w o a ∧ AtRaas url w o a

/-- The VM is the same, but for these annotations and its finalizers. -/
structure SameBut (names : List String) (vm m : VirtualMachine) : Prop where
  key : m.key = vm.key
  status : m.status = vm.status
  labels : m.labels = vm.labels
  deleting : m.deleting = vm.deleting
  annotations : ∀ a ∉ names, m.annotations[a]? = vm.annotations[a]?

section same

variable {names more : List String} {vm m n : VirtualMachine} {cfg : SaltKeyConfig} {rt : Runtime}

theorem SameBut.refl : SameBut names vm vm := ⟨rfl, rfl, rfl, rfl, fun _ _ => rfl⟩

theorem SameBut.trans (h : SameBut names vm m) (h' : SameBut names m n) : SameBut names vm n where
  key := h'.key.trans h.key
  status := h'.status.trans h.status
  labels := h'.labels.trans h.labels
  deleting := h'.deleting.trans h.deleting
  annotations := fun a ha => (h'.annotations a ha).trans (h.annotations a ha)

theorem SameBut.mono (h : SameBut names vm m) (hsub : names ⊆ more) : SameBut more vm m :=
  { h with annotations := fun a ha => h.annotations a fun hin => ha (hsub hin) }

theorem SameBut.annotationOf (h : SameBut names vm m) {a : String} (ha : a ∉ names) :
    m.annotationOf a = vm.annotationOf a :=
  VirtualMachine.annotationOf_congr (h.annotations a ha)

theorem SameBut.matchesVMSelector (h : SameBut names vm m) :
    matchesVMSelector rt cfg m = matchesVMSelector rt cfg vm := by
  unfold SaltOperator.matchesVMSelector
  rw [h.labels]

theorem SameBut.awaitsKey (h : SameBut [annotationKeyCleared] vm m) (hd : AwaitsKey cfg vm) :
    AwaitsKey cfg m where
  mode := hd.mode
  running := by
    unfold VirtualMachine.running
    rw [h.status]
    exact hd.running
  address := by
    unfold VirtualMachine.primaryIP
    rw [h.status]
    exact hd.address
  unaccepted := (h.annotationOf (by decide)).trans_ne hd.unaccepted
  unseeded := (h.annotationOf (by decide)).trans_ne hd.unseeded
  untried := by
    rw [h.annotationOf (by decide), h.annotationOf (by decide)]
    exact hd.untried

theorem sameBut_written (additions : List (String × String)) (version : Nat) :
    SameBut (additions.map Prod.fst) vm (vm.written additions version) := by
  refine ⟨rfl, rfl, rfl, rfl, fun a ha => ?_⟩
  have hnone : additions.reverse.lookup a = none := by
    rw [List.lookup_eq_none_iff]
    intro e he
    rw [bne_iff_ne]
    rintro rfl
    exact ha (List.mem_map_of_mem (List.mem_reverse.mp he))
  show (StringMap.copy vm.annotations additions)[a]? = _
  rw [StringMap.getElem?_copy, hnone]
  rfl

end same

/-- What `reconcileKey` does about such a VM. -/
theorem reconcileKey_awaits {rt : Runtime} {d : Default} {vm : VirtualMachine} {cfg : SaltKeyConfig}
    {acceptTimeout requeueAfter : Duration} {timedOut : Bool} (hd : AwaitsKey cfg vm) :
    reconcileKey rt d vm cfg acceptTimeout requeueAfter timedOut = (do
      let conn ← saltClientFor rt d vm cfg
      runAcceptKey rt vm conn acceptTimeout requeueAfter) := by
  have hrunning : (!vm.running || decide (vm.primaryIP = "")) = false := by
    simp [hd.running, hd.address]
  unfold reconcileKey
  dsimp only
  rw [if_neg hd.untried, if_neg fun h => hd.mode h.1, if_neg (by simp [hrunning]),
    if_neg (by simp [hrunning]), if_neg hd.unseeded]

/-! ## A pass that stops -/

section stops

variable {rt : Runtime} {ok : AnswerCondition} {d : Default} {w w₀ w' : World} {h h' : History}
  {k : NamespacedName} {vm m : VirtualMachine} {cfg : SaltKeyConfig} {url minionID : String}
  {α : Type}

/-- Nothing was done about the key so far. -/
structure Untouched (k : NamespacedName) (vm : VirtualMachine) (w w' : World) : Prop where
  configs : w'.configs = w.configs
  raas : w'.raas = w.raas
  vm : ∃ m, w'.vms k = .live m ∧ SameBut [annotationKeyCleared] vm m

/-- The operation does nothing about keys, and marks the VM at most as cleared. -/
def Op.Unkeyed : Op → Prop
  | .patchVM base obj => obj.key = base.key ∧ obj.labels = base.labels ∧
      ∀ a ≠ annotationKeyCleared, obj.annotations[a]? = base.annotations[a]?
  | .salt _ (.acceptKey _) => False
  | .salt _ (.deleteKey _) => False
  | .salt _ (.genAcceptKey _ _) => False
  | _ => True

theorem effect_unkeyed {o : Op} {a : o.Ans} (ho : o.Unkeyed) : (effect w o a).raas = w.raas := by
  cases o with
  | patchVM base obj => cases a <;> rfl
  | createSecret s => cases a <;> rfl
  | updateSecret s => cases a <;> rfl
  | patchSecret k data => cases a <;> rfl
  | cacheGet k rv => cases a <;> rfl
  | salt conn c => cases c <;> first | rfl | cases ho
  | _ => rfl

/-- What a patch leaves alone of the current object. -/
theorem sameBut_patched {names : List String} {base obj cur : VirtualMachine} {version : Nat}
    (hlabels : obj.labels = base.labels)
    (hann : ∀ a ∉ names, obj.annotations[a]? = base.annotations[a]?) :
    SameBut names cur (.patched version base obj cur) where
  key := rfl
  status := rfl
  labels := by
    show mergeMap base.labels obj.labels cur.labels = cur.labels
    exact Std.ExtTreeMap.ext_getElem? fun a => getElem?_mergeMap_of_eq (by rw [hlabels]) _
  deleting := rfl
  annotations := fun a ha => getElem?_mergeMap_of_eq (hann a ha).symm _

/-- A call leaves a VM that is not being deleted as it is, but for these annotations, if its
patch does. -/
theorem SameBut.call {names : List String} {o : Op} {a : o.Ans} (hdel : vm.deleting = false)
    (ho : ∀ base obj, o = .patchVM base obj → obj.labels = base.labels ∧
      ∀ a ∉ names, obj.annotations[a]? = base.annotations[a]?)
    (hx : Served rt ok w o a w') (hvm : ∃ m, w.vms k = .live m ∧ SameBut names vm m) :
    ∃ m, w'.vms k = .live m ∧ SameBut names vm m := by
  obtain ⟨ha, -, rfl⟩ := hx
  obtain ⟨m, hm, hsame⟩ := hvm
  by_cases hpatch : ∃ base obj n, (⟨w, o, a⟩ : Made) = ⟨w, .patchVM base obj, .ok n⟩
  · obtain ⟨base, obj, n, heq⟩ := hpatch
    cases heq
    obtain ⟨cur, version, hcur, -, rfl⟩ := ha
    obtain ⟨hlabels, hann⟩ := ho base obj rfl
    by_cases hk : k = obj.key
    · subst hk
      obtain rfl := Slot.live.inj (hm.symm.trans hcur)
      exact ⟨_, (World.setVM_self ..).trans (settled_present (hsame.deleting.trans hdel)),
        hsame.trans (sameBut_patched hlabels hann)⟩
    · exact ⟨m, (Function.update_of_ne hk ..).trans hm, hsame⟩
  · rw [effect_vms fun base obj n heq => hpatch ⟨base, obj, n, heq⟩]
    exact ⟨m, hm, hsame⟩

theorem Untouched.call {o : Op} {a : o.Ans} (hdel : vm.deleting = false) (ho : o.Unkeyed)
    (hx : Served rt ok w o a w') (hu : Untouched k vm w₀ w) : Untouched k vm w₀ w' := by
  have hvm := SameBut.call hdel (fun base obj heq => ?_) hx hu.vm
  · obtain ⟨-, -, rfl⟩ := hx
    exact ⟨(effect_configs ..).trans hu.configs, (effect_unkeyed ho).trans hu.raas, hvm⟩
  · subst heq
    exact ⟨ho.2.1, fun a ha => ho.2.2 a fun hcl => ha (List.mem_singleton.mpr hcl)⟩

/-- Such operations can be stopped anywhere. -/
theorem Untouched.stops {ε : Type} {p : Prog Op Op.Ans ε α} (hu : Untouched k vm w₀ w)
    (hdel : vm.deleting = false) (hp : p.Performs Op.Unkeyed)
    (hs : p.Stops (Served rt ok) w h w' h') : Untouched k vm w₀ w' :=
  hs.preserves hp (fun _ _ _ _ ho hx => Untouched.call hdel ho hx) hu

theorem unkeyed_of_quiet {o : Op} (ho : o.quiet = true) : o.Unkeyed := by
  cases o with
  | patchVM base obj => cases ho
  | salt conn c => cases c <;> trivial
  | _ => trivial

theorem clearSignalledKey_unkeyed {timedOut : Bool} :
    (clearSignalledKey rt vm cfg timedOut).Performs Op.Unkeyed := by
  have hclear {trigger : String} : (clearPreseedKey vm trigger).Performs Op.Unkeyed := by
    unfold clearPreseedKey
    split
    · trivial
    · refine Prog.Performs.bind ⟨trivial, fun a => ?_⟩ fun _ => Prog.Performs.bind
        ⟨⟨rfl, rfl, fun a ha => ?_⟩, fun a => ?_⟩ fun m =>
          ⟨trivial, fun _ => ⟨trivial, fun _ => trivial⟩⟩
      · cases a with
        | error e => cases e <;> exact trivial
        | ok u => exact trivial
      · show (vm.annotations.insert annotationKeyCleared annotationTrue)[a]? = _
        rw [Std.ExtTreeMap.getElem?_insert, if_neg]
        simpa [Std.LawfulEqCmp.compare_eq_iff_eq] using ha.symm
      · cases a <;> exact trivial
  unfold clearSignalledKey
  split
  · exact hclear
  · split
    · exact hclear
    · trivial

/-- The annotations a pass writes up to the acceptance. -/
def acceptanceNames : List String :=
  [annotationKeyCleared, annotationKeyStatus, annotationMinionID, annotationMatchMethod,
   annotationAcceptedAt]

/-- The acceptance of the minion's key is recorded on the VM. -/
structure Recorded (k : NamespacedName) (vm : VirtualMachine) (minionID : String) (w w' : World) :
    Prop where
  configs : w'.configs = w.configs
  vm : ∃ m, w'.vms k = .live m ∧ SameBut acceptanceNames vm m ∧
    m.annotationOf annotationKeyStatus = keyStatusAccepted ∧
    m.annotationOf annotationMinionID = minionID

/-- The operation changes at most the finalizers of a VM. -/
def Op.Finalizing : Op → Prop
  | .patchVM base obj => obj.labels = base.labels ∧ obj.annotations = base.annotations
  | _ => True

theorem Recorded.call {o : Op} {a : o.Ans} (hdel : vm.deleting = false) (ho : o.Finalizing)
    (hx : Served rt ok w o a w') (hu : Recorded k vm minionID w₀ w) :
    Recorded k vm minionID w₀ w' := by
  obtain ⟨ha, -, rfl⟩ := hx
  refine ⟨(effect_configs ..).trans hu.configs, ?_⟩
  obtain ⟨m, hm, hsame, hacc, hid⟩ := hu.vm
  by_cases hpatch : ∃ base obj n, (⟨w, o, a⟩ : Made) = ⟨w, .patchVM base obj, .ok n⟩
  · obtain ⟨base, obj, n, heq⟩ := hpatch
    cases heq
    obtain ⟨cur, version, hcur, -, rfl⟩ := ha
    by_cases hk : k = obj.key
    · subst hk
      obtain rfl := Slot.live.inj (hm.symm.trans hcur)
      have hnew : SameBut [] m (.patched version base obj m) :=
        sameBut_patched ho.1 fun a _ => by rw [ho.2]
      refine ⟨_, (World.setVM_self ..).trans (settled_present (hsame.deleting.trans hdel)),
        hsame.trans (hnew.mono (List.nil_subset _)), ?_, ?_⟩
      · rw [hnew.annotationOf (List.not_mem_nil), hacc]
      · rw [hnew.annotationOf (List.not_mem_nil), hid]
    · exact ⟨m, (Function.update_of_ne hk ..).trans hm, hsame, hacc, hid⟩
  · rw [effect_vms fun base obj n heq => hpatch ⟨base, obj, n, heq⟩]
    exact ⟨m, hm, hsame, hacc, hid⟩

theorem ensureFinalizer_finalizing {wrap : String → String} :
    (ensureFinalizer wrap vm).Performs Op.Finalizing := by
  unfold ensureFinalizer
  split
  · trivial
  · refine ⟨?_, fun a => ?_⟩
    · show (vm.addFinalizer saltFinalizer).labels = _ ∧
        (vm.addFinalizer saltFinalizer).annotations = _
      unfold VirtualMachine.addFinalizer
      split <;> exact ⟨rfl, rfl⟩
    · cases a <;> trivial

/-- What a pass that stops can leave: nothing done, the key accepted, or that recorded too. -/
def Left (k : NamespacedName) (vm : VirtualMachine) (url minionID : String) (w w' : World) : Prop :=
  Untouched k vm w w' ∨ Untouched k vm (w.setKeys url ((w.raas url).accept minionID)) w' ∨
    Recorded k vm minionID w w'

/-- The patch of `runAcceptKey`. -/
def acceptancePatch (found : MatchResult) (acceptedAt : String) : List (String × String) :=
  [(annotationKeyStatus, keyStatusAccepted), (annotationMinionID, found.minionID),
   (annotationMatchMethod, found.method.text), (annotationAcceptedAt, acceptedAt)]

theorem recorded_patch {found : MatchResult} (acceptedAt : String) (version : Nat)
    (hconfigs : w.configs = w₀.configs) (hdel : m.deleting = false)
    (hsame : SameBut [annotationKeyCleared] vm m)
    (hvm : w.vms k = settled (m.written (acceptancePatch found acceptedAt) version)) :
    Recorded k vm found.minionID w₀ w := by
  refine ⟨hconfigs, _, hvm.trans (settled_present hdel), ?_, ?_, ?_⟩
  · have hsub : [annotationKeyCleared] ⊆ acceptanceNames := by decide
    have hsub' : (acceptancePatch found acceptedAt).map Prod.fst ⊆ acceptanceNames := by
      show [annotationKeyStatus, annotationMinionID, annotationMatchMethod,
        annotationAcceptedAt] ⊆ acceptanceNames
      decide
    exact (hsame.mono hsub).trans ((sameBut_written _ version).mono hsub')
  · exact VirtualMachine.annotationOf_written _
  · exact VirtualMachine.annotationOf_written _

/-- The recording of an acceptance stops somewhere. -/
theorem stops_recording {wb : World} {found : MatchResult} {message : String} {res : Result}
    (hu : Untouched k vm wb w) (hb : wb.configs = w₀.configs) (hkey : vm.key = k)
    (hdel : vm.deleting = false) (hm : w.vms k = .live m)
    (hsame : SameBut [annotationKeyCleared] vm m)
    (hs : (do
      let acceptedAt ← nowText rt
      let m ← patchAnnotations m (acceptancePatch found acceptedAt)
      let m ← ensureFinalizer id m
      recordEvent m .normal "SaltKeyAccepted" message
      return res : M Result).Stops (Served rt ok) w h w' h') :
    Untouched k vm wb w' ∨ Recorded k vm found.minionID w₀ w' := by
  have hconfigs : w.configs = w₀.configs := hu.configs.trans hb
  rcases Prog.stops_bind hs with hs | ⟨now, w₂, h₂, hrun, hs⟩
  · exact .inl (hu.stops hdel (nowText_quiet.performs.mono fun o => unkeyed_of_quiet) hs)
  obtain ⟨cache, rfl⟩ := nowText_quiet.runs_world hrun
  have hmkey : m.key = k := hsame.key.trans hkey
  have hmdel : m.deleting = false := hsame.deleting.trans hdel
  have hcur : w.vms m.key = .live m := by rw [hmkey, hm]
  rcases Prog.stops_bind hs with hs | ⟨n, w₃, h₃, hrun, hs⟩
  · rcases Prog.stops_call hs with ⟨rfl, -⟩ | ⟨a, w₃, ⟨ha, -, rfl⟩, hs⟩
    · exact .inl ⟨hu.configs, hu.raas, hu.vm⟩
    cases a with
    | error e =>
      obtain ⟨rfl, -⟩ := Prog.stops_fail hs
      exact .inl ⟨hu.configs, hu.raas, hu.vm⟩
    | ok n =>
      obtain ⟨cur, version, hcur', -, rfl⟩ := ha
      obtain rfl := Slot.live.inj (hcur.symm.trans hcur')
      obtain ⟨rfl, -⟩ := Prog.stops_ret hs
      refine .inr (recorded_patch now version hconfigs hmdel hsame ?_)
      rw [VirtualMachine.patched_withAnnotations, ← hmkey]
      exact World.setVM_self ..
  · rcases runs_patchAnnotations (w := { w with cache }) hcur hrun with
      ⟨e, hbad, -⟩ | ⟨_, heq, version, rfl, rfl⟩
    · cases hbad
    cases heq
    refine .inr (hs.preserves (ensureFinalizer_finalizing.bind fun n => ?_)
      (fun _ _ _ _ ho hx => Recorded.call hdel ho hx) ?_)
    · exact ⟨trivial, fun _ => trivial⟩
    · refine recorded_patch now version hconfigs hmdel hsame ?_
      rw [← hmkey]
      exact World.setVM_self ..

/-- The acceptance stops somewhere. -/
theorem stops_acceptMatched {found : MatchResult} {conn : Connection} {requeueAfter : Duration}
    (hu : Untouched k vm w₀ w) (hkey : vm.key = k) (hdel : vm.deleting = false)
    (hm : w.vms k = .live m) (hsame : SameBut [annotationKeyCleared] vm m) (hurl : conn.url = url)
    (hs : (acceptMatched rt m conn found requeueAfter).Stops (Served rt ok) w h w' h') :
    Left k vm url found.minionID w₀ w' := by
  rcases Prog.stops_perform_bind hs with ⟨rfl, -⟩ | ⟨_, w₁, ⟨-, -, rfl⟩, hs⟩
  · exact .inl hu
  rcases Prog.stops_perform_bind hs with ⟨rfl, -⟩ | ⟨a, w₁, ⟨-, -, rfl⟩, hs⟩
  · exact .inl hu
  cases a with
  | error e =>
    obtain ⟨rfl, -⟩ := Prog.stops_fail hs
    exact .inl hu
  | ok u =>
    -- from here on RaaS has the key accepted
    have hb : Untouched k vm (w₀.setKeys url ((w₀.raas url).accept found.minionID))
        (w.setKeys conn.url ((w.raas conn.url).accept found.minionID)) := by
      refine ⟨hu.configs, ?_, m, hm, hsame⟩
      subst hurl
      show Function.update w.raas conn.url _ = Function.update w₀.raas conn.url _
      rw [hu.raas]
    exact .inr (stops_recording hb rfl hkey hdel hm hsame hs)

/-- What the operator looks for. -/
def matched (rt : Runtime) (url : String) (w : World) (vm : VirtualMachine) : MatchResult :=
  findMinionID rt vm.name vm.primaryIP (w.pendingKeys url)

theorem matched_congr (hsame : SameBut [annotationKeyCleared] vm m) (hraas : w'.raas = w.raas) :
    matched rt url w' m = matched rt url w vm := by
  have hname : m.name = vm.name := congrArg NamespacedName.name hsame.key
  unfold matched World.pendingKeys VirtualMachine.primaryIP
  rw [hname, hsame.status, hraas]

theorem ClearedIf.untouched {due : Prop} (hc : ClearedIf due w vm m w')
    (hcur : w.vms vm.key = .live vm) : Untouched vm.key vm w w' ∧ w'.vms vm.key = .live m ∧
      SameBut [annotationKeyCleared] vm m := by
  rcases hc with ⟨-, rfl, rfl⟩ | ⟨-, version, rfl, rfl⟩
  · exact ⟨⟨rfl, rfl, m, hcur, .refl⟩, hcur, .refl⟩
  · have hsame : SameBut [annotationKeyCleared] vm (vm.written clearedMarker version) :=
      sameBut_written clearedMarker version
    exact ⟨⟨rfl, rfl, _, World.setVM_self .., hsame⟩, World.setVM_self .., hsame⟩

/-- The search for a pending key stops somewhere. -/
theorem stops_runAcceptKey {conn : Connection} {acceptTimeout requeueAfter : Duration}
    (hu : Untouched k vm w₀ w) (hkey : vm.key = k) (hdel : vm.deleting = false)
    (hm : w.vms k = .live m) (hsame : SameBut [annotationKeyCleared] vm m)
    (hfound : (matched rt url w₀ vm).method ≠ .none)
    (hs : (runAcceptKey rt m conn acceptTimeout requeueAfter).Stops (Served rt (Trying url))
      w h w' h') : Left k vm url (matched rt url w₀ vm).minionID w₀ w' := by
  rcases Prog.stops_perform_bind hs with ⟨rfl, -⟩ | ⟨a, w₁, ⟨-, hok, rfl⟩, hs⟩
  · exact .inl hu
  obtain ⟨hurl, hkeys⟩ := hok.2
  cases a with
  | error e =>
    obtain ⟨rfl, -⟩ := Prog.stops_fail hs
    exact .inl hu
  | ok keys =>
    obtain rfl := hkeys keys rfl
    have heq : findMinionID rt m.name m.primaryIP (w.pendingKeys url) = matched rt url w₀ vm :=
      matched_congr hsame hu.raas
    replace hs : (ite _ _ _ : M Result).Stops (Served rt (Trying url)) w _ w' h' := hs
    rw [heq, if_pos hfound] at hs
    exact stops_acceptMatched hu hkey hdel hm hsame hurl hs

theorem stops_reconcileCreate_awaits (hcur : w.vms k = .live vm) (hkey : vm.key = k)
    (hdel : vm.deleting = false) (hd : AwaitsKey cfg vm)
    (hfound : (matched rt url w vm).method ≠ .none)
    (hs : (reconcileCreate rt d vm cfg).Stops (Served rt (Trying url)) w h w' h') :
    Left k vm url (matched rt url w vm).minionID w w' := by
  subst hkey
  have hu : Untouched vm.key vm w w := ⟨rfl, rfl, vm, hcur, .refl⟩
  rcases Prog.stops_perform_bind hs with ⟨rfl, -⟩ | ⟨now, w₁, ⟨-, -, rfl⟩, hs⟩
  · exact .inl hu
  rcases Prog.stops_bind hs with hs | ⟨m, w₁, h₁, hrun, hs⟩
  · exact .inl (hu.stops hdel clearSignalledKey_unkeyed hs)
  rcases runs_clearSignalledKey hcur hdel hrun with ⟨e, hbad, -⟩ | ⟨_, heq, hc⟩
  · cases hbad
  cases heq
  obtain ⟨hu₁, hm, hsame⟩ := hc.untouched hcur
  have hdm := hsame.awaitsKey hd
  rw [if_pos hdm.unaccepted, reconcileKey_awaits hdm] at hs
  rcases Prog.stops_bind hs with hs | ⟨conn, w₂, h₂, hrun, hs⟩
  · exact .inl (hu₁.stops hdel (saltClientFor_quiet.performs.mono fun o => unkeyed_of_quiet) hs)
  obtain ⟨cache, rfl⟩ := saltClientFor_quiet.runs_world hrun
  have hu₂ : Untouched vm.key vm w { w₁ with cache } := ⟨hu₁.configs, hu₁.raas, hu₁.vm⟩
  exact stops_runAcceptKey hu₂ rfl hdel hm hsame hfound hs

/-- **What a pass over such a VM leaves, wherever it stops.** -/
theorem stops_reconcile_awaits (hg : Governed w k vm cfg) (hkey : vm.key = k)
    (hdel : vm.deleting = false) (hsel : matchesVMSelector rt cfg vm = true)
    (hd : AwaitsKey cfg vm) (hfound : (matched rt url w vm).method ≠ .none)
    (hs : (reconcile rt d k).Stops (Served rt (Trying url)) w h w' h') :
    Left k vm url (matched rt url w vm).minionID w w' := by
  have hu : Untouched k vm w w := ⟨rfl, rfl, vm, hg.live, .refl⟩
  rcases Prog.stops_perform_bind hs with ⟨rfl, -⟩ | ⟨a, w₁, ⟨ha, -, rfl⟩, hs⟩
  · exact .inl hu
  cases a with
  | error e =>
    cases e with
    | notFound text =>
      obtain ⟨rfl, -⟩ := Prog.stops_ret hs
      exact .inl hu
    | _ =>
      obtain ⟨rfl, -⟩ := Prog.stops_fail hs
      exact .inl hu
  | ok m =>
    obtain rfl : vm = m := Slot.live.inj (hg.live.symm.trans ha)
    replace hs : (ite _ _ _ : M Result).Stops (Served rt (Trying url)) w _ w' h' := hs
    rw [if_neg (not_not.mpr hg.managed)] at hs
    rcases Prog.stops_bind hs with hs | ⟨c, w₁, h₁, hrun, hs⟩
    · have hread : (findSaltKeyConfig k.nspace).Performs Op.Unkeyed := by
        refine ⟨trivial, fun a => ?_⟩
        cases a <;> trivial
      exact .inl (hu.stops hdel hread hs)
    rcases runs_findSaltKeyConfig (fun _ _ _ hok => hok.1) hrun with
      ⟨e, hbad, -⟩ | ⟨_, heq, rfl, rfl⟩
    · cases hbad
    cases heq
    rw [hg.config] at hs
    rcases Prog.stops_perform_bind hs with ⟨rfl, -⟩ | ⟨_, w₂, ⟨-, -, rfl⟩, hs⟩
    · exact .inl hu
    rw [if_neg (by simp [hdel]), if_neg (by simp [hsel])] at hs
    exact stops_reconcileCreate_awaits hg.live hkey hdel hd hfound hs

end stops

/-! ## A pass that succeeds -/

/-- The VM is accepted with this minion's key, and has the finalizer. -/
def AcceptedAs (k : NamespacedName) (minionID : String) (w : World) : Prop :=
  ∃ vm, w.vms k = .live vm ∧ vm.annotationOf annotationKeyStatus = keyStatusAccepted ∧
    vm.annotationOf annotationMinionID = minionID ∧ saltFinalizer ∈ vm.finalizers

section succeeds

variable {rt : Runtime} {d : Default} {w w₀ w' : World} {h h' : History} {k : NamespacedName}
  {vm m : VirtualMachine} {cfg : SaltKeyConfig} {url minionID : String} {conn : Connection}
  {r : Except String Result} {acceptTimeout requeueAfter : Duration}

theorem succeeding_clean : Clean (Succeeding url) := fun _ _ _ hok => hok.1.2.1

theorem succeeding_fresh : Fresh (Succeeding url) := fun _ _ _ hok => hok.1.1

/-- A key that matches is accepted. -/
theorem runs_acceptMatched {found : MatchResult} (hcur : w.vms m.key = .live m)
    (hdel : m.deleting = false)
    (hr : (acceptMatched rt m conn found requeueAfter).Runs (Served rt (Succeeding url))
      w h r w' h') : AcceptedAs m.key found.minionID w' := by
  obtain ⟨h₁, hr⟩ := Prog.Runs.log hr
  obtain ⟨a, w₁, ⟨-, hok, rfl⟩, hr⟩ := Prog.runs_perform_bind.mp hr
  obtain rfl : a = .ok () := hok.1.2.2
  obtain ⟨now, cache, h₂, hr⟩ := hr.quiet_bind nowText_quiet fun _ => trivial
  rcases Prog.Runs.write (w := { w.setKeys conn.url ((w.raas conn.url).accept found.minionID) with
    cache }) hcur hdel hr with ⟨e, -, hbad⟩ | ⟨version, h₃, hr⟩
  · exact absurd succeeding_clean hbad
  have hcur' : (World.setVM { w.setKeys conn.url ((w.raas conn.url).accept found.minionID) with
      cache } m.key (.live (m.written (acceptancePatch found now) version))).vms m.key =
      .live (m.written (acceptancePatch found now) version) := World.setVM_self ..
  rcases hr.bind_cases fun _ _ _ => runs_ensureFinalizer hcur' hdel with
    ⟨e, -, hbad, -⟩ | ⟨n, w₂, h₄, ⟨version', rfl, rfl⟩, hr⟩
  · exact absurd succeeding_clean hbad
  obtain ⟨h₅, hr⟩ := Prog.Runs.event hr
  obtain ⟨-, rfl, -⟩ := Prog.runs_ret.mp hr
  refine ⟨_, World.setVM_self .., ?_, ?_, VirtualMachine.mem_finalized⟩
  · rw [VirtualMachine.annotationOf_finalized]
    exact VirtualMachine.annotationOf_written _
  · rw [VirtualMachine.annotationOf_finalized]
    exact VirtualMachine.annotationOf_written _

/-- Without a match the VM is not accepted. -/
theorem runs_awaitPendingKey (hcur : w.vms m.key = .live m) (hdel : m.deleting = false)
    (hacc : m.annotationOf annotationKeyStatus ≠ keyStatusAccepted)
    (hr : (awaitPendingKey rt m acceptTimeout requeueAfter).Runs (Served rt (Succeeding url))
      w h r w' h') : ¬ AcceptedAs m.key minionID w' := by
  have hno : ∀ {w : World} {n : VirtualMachine}, w.vms m.key = .live n →
      n.annotationOf annotationKeyStatus ≠ keyStatusAccepted → ¬ AcceptedAs m.key minionID w := by
    rintro w n hn hne ⟨n', hn', hacc', -⟩
    obtain rfl := Slot.live.inj (hn.symm.trans hn')
    exact hne hacc'
  obtain ⟨h₁, hr⟩ := Prog.Runs.now hr
  replace hr : (ite _ _ _ : M Result).Runs (Served rt (Succeeding url)) w _ r w' h' := hr
  split at hr
  · obtain ⟨h₂, hr⟩ := Prog.Runs.log hr
    obtain ⟨-, rfl, -⟩ := Prog.runs_ret.mp hr
    exact hno hcur hacc
  · split at hr
    · obtain ⟨-, rfl, -⟩ := Prog.runs_ret.mp hr
      exact hno hcur hacc
    · obtain ⟨h₂, hr⟩ := Prog.Runs.log hr
      rcases Prog.Runs.write hcur hdel hr with ⟨e, -, hbad⟩ | ⟨version, h₃, hr⟩
      · exact absurd succeeding_clean hbad
      · obtain ⟨h₄, hr⟩ := Prog.Runs.event hr
        obtain ⟨-, rfl, -⟩ := Prog.runs_ret.mp hr
        refine hno (World.setVM_self ..) ?_
        rw [VirtualMachine.annotationOf_written]
        show keyStatusFailed ≠ keyStatusAccepted
        decide

/-- The search for a pending key finds the one that matches. -/
theorem runs_runAcceptKey (hcur : w.vms m.key = .live m) (hdel : m.deleting = false)
    (hacc : m.annotationOf annotationKeyStatus ≠ keyStatusAccepted)
    (hr : (runAcceptKey rt m conn acceptTimeout requeueAfter).Runs (Served rt (Succeeding url))
      w h r w' h') : AcceptedAs m.key minionID w' ↔
        (matched rt url w m).method ≠ .none ∧ (matched rt url w m).minionID = minionID := by
  obtain ⟨a, w₁, ⟨-, hok, rfl⟩, hr⟩ := Prog.runs_perform_bind.mp hr
  obtain ⟨keys, rfl⟩ : ∃ keys, a = .ok keys := hok.1.2.2
  obtain rfl := hok.2.2 keys rfl
  replace hr : (ite _ _ _ : M Result).Runs (Served rt (Succeeding url)) w _ r w' h' := hr
  split at hr
  · rename_i hfound
    obtain ⟨vm', hvm', hacc', hid, hfin⟩ := runs_acceptMatched hcur hdel hr
    constructor
    · rintro ⟨vm'', hvm'', -, hid', -⟩
      obtain rfl := Slot.live.inj (hvm'.symm.trans hvm'')
      exact ⟨hfound, hid.symm.trans hid'⟩
    · rintro ⟨-, rfl⟩
      exact ⟨vm', hvm', hacc', hid, hfin⟩
  · rename_i hnone
    exact iff_of_false (runs_awaitPendingKey hcur hdel hacc hr) fun hyes => hnone hyes.1

/-- **A pass in which every call succeeds accepts a VM with the key that matches.** -/
theorem runs_reconcile_awaits (hg : Governed w k vm cfg) (hkey : vm.key = k)
    (hdel : vm.deleting = false) (hsel : matchesVMSelector rt cfg vm = true)
    (hd : AwaitsKey cfg vm) (hconn : w.Connects rt d cfg)
    (hr : (reconcile rt d k).Runs (Served rt (Succeeding url)) w h r w' h') :
    AcceptedAs k minionID w' ↔
      (matched rt url w vm).method ≠ .none ∧ (matched rt url w vm).minionID = minionID := by
  subst hkey
  rcases runs_reconcile succeeding_fresh hg.live hr with
    ⟨e, -, hbad, -⟩ | ⟨hno, -, -⟩ | ⟨cfg', h₁, hg', hr⟩
  · exact absurd succeeding_clean.reads hbad
  · exact absurd hg (hno cfg)
  obtain rfl : cfg = cfg' := Option.some.inj (hg.config.symm.trans hg'.config)
  rw [if_neg (by simp [hdel]), if_neg (by simp [hsel])] at hr
  rcases runs_reconcileCreate hg.live hdel hr with ⟨e, -, hbad⟩ | ⟨m, w₁, h₂, hc, hr⟩
  · exact absurd succeeding_clean hbad
  obtain ⟨hu, hm, hsame⟩ := hc.untouched hg.live
  have hdm := hsame.awaitsKey hd
  have hconn₁ : w₁.Connects rt d cfg := hc.connects.mpr hconn
  rw [if_pos hdm.unaccepted, reconcileKey_awaits hdm] at hr
  rcases hr.bind_cases fun _ _ _ => runs_saltClientFor with
    ⟨e, -, hno, -⟩ | ⟨conn, w₂, h₃, ⟨-, cache, rfl⟩, hr⟩
  · exact absurd hconn₁ (hno succeeding_clean)
  have heq : matched rt url { w₁ with cache } m = matched rt url w vm :=
    matched_congr hsame hu.raas
  rw [← hsame.key, ← heq]
  exact runs_runAcceptKey (w := { w₁ with cache }) (hsame.key ▸ hm) (hsame.deleting.trans hdel)
    hdm.unaccepted hr

/-- A pass in which every call succeeds leaves an accepted VM accepted, and sees to its
finalizer. -/
theorem runs_reconcile_accepted (hg : Governed w k vm cfg) (hkey : vm.key = k)
    (hdel : vm.deleting = false) (hsel : matchesVMSelector rt cfg vm = true)
    (hacc : vm.annotationOf annotationKeyStatus = keyStatusAccepted) (hconn : w.Connects rt d cfg)
    (hr : (reconcile rt d k).Runs (Served rt (Succeeding url)) w h r w' h') :
    AcceptedAs k (vm.annotationOf annotationMinionID) w' := by
  subst hkey
  rcases runs_reconcile succeeding_fresh hg.live hr with
    ⟨e, -, hbad, -⟩ | ⟨hno, -, -⟩ | ⟨cfg', h₁, hg', hr⟩
  · exact absurd succeeding_clean.reads hbad
  · exact absurd hg (hno cfg)
  obtain rfl : cfg = cfg' := Option.some.inj (hg.config.symm.trans hg'.config)
  rw [if_neg (by simp [hdel]), if_neg (by simp [hsel])] at hr
  rcases runs_reconcileCreate hg.live hdel hr with ⟨e, -, hbad⟩ | ⟨m, w₁, h₂, hc, hr⟩
  · exact absurd succeeding_clean hbad
  obtain ⟨hu, hm, hsame⟩ := hc.untouched hg.live
  have hmacc : m.annotationOf annotationKeyStatus = keyStatusAccepted := by
    rw [hsame.annotationOf (by decide), hacc]
  rw [if_neg (not_not.mpr hmacc)] at hr
  have hmdel := hsame.deleting.trans hdel
  rcases runs_reconcileAccepted (hc.current hg.live) hmdel hr with
    ⟨e, -, hbad⟩ | ⟨version, ⟨e, cache, -, hno, -⟩ | ⟨conn, cache, h₃, -, hr⟩⟩
  · exact absurd succeeding_clean hbad
  · exact absurd (hc.connects.mpr hconn) (hno succeeding_clean)
  rcases runs_reconcilePostAccept_unchanging (VirtualMachine.key_finalized ▸ World.setVM_self ..)
      (VirtualMachine.deleting_finalized.trans hmdel) hr with
    ⟨e, -, hbad⟩ | ⟨additions, hunch, version', cache', secrets, rfl, -⟩
  · exact absurd succeeding_clean hbad
  have hkept : ∀ a ∈ [annotationManaged, annotationKeyStatus, annotationMinionID,
      annotationRetryRequest], ((m.finalized version).written additions version').annotationOf a =
        m.annotationOf a := by
    intro a ha
    rw [VirtualMachine.annotationOf_written, hunch a ha, VirtualMachine.annotationOf_finalized]
    rfl
  have hfin : saltFinalizer ∈ (m.finalized version).finalizers := VirtualMachine.mem_finalized
  refine ⟨(m.finalized version).written additions version', ?_, ?_, ?_, hfin⟩
  · rw [← hsame.key, ← VirtualMachine.key_finalized]
    exact World.setVM_self ..
  · rw [hkept _ (by simp), hmacc]
  · rw [hkept _ (by simp), hsame.annotationOf (by decide)]

end succeeds

/-- An accepted key is not pending. -/
theorem not_pending_accept {ks : Keys} {minionID : String}
    (h : minionID ∈ ks.pending.map Prod.fst) :
    minionID ∉ (ks.accept minionID).pending.map Prod.fst := by
  have hsome : ∃ pub, ks.pending.lookup minionID = some pub := by
    rw [← Option.isSome_iff_exists, ← Option.ne_none_iff_isSome, Ne, List.lookup_eq_none_iff]
    intro hnone
    obtain ⟨e, he, rfl⟩ := List.mem_map.mp h
    simpa using hnone e he
  obtain ⟨pub, hpub⟩ := hsome
  unfold Keys.accept
  rw [hpub]
  simp

/-- **A pass over a VM whose key is pending stops anywhere; then one succeeds: the VM is
accepted with the key that matched, and has the finalizer, exactly when that acceptance was
recorded before, or the key is still pending.** -/
theorem acceptance_resumed_iff (rt : Runtime) (d : Default) {w w₁ w₂ : World} {k : NamespacedName}
    {vm : VirtualMachine} {cfg : SaltKeyConfig} {url : String} {h₁ h₂ : History} {now : Time}
    {r : Except String Result} (hg : Governed w k vm cfg) (hkey : vm.key = k)
    (hdel : vm.deleting = false) (hsel : matchesVMSelector rt cfg vm = true)
    (hd : AwaitsKey cfg vm) (hfound : (matched rt url w vm).method ≠ .none)
    (hfirst : (reconcile rt d k).Stops (Served rt (Trying url)) w [] w₁ h₁)
    (hconn : World.Connects rt d { w₁ with now } cfg)
    (hsecond : (reconcile rt d k).Runs (Served rt (Succeeding url)) { w₁ with now } [] r w₂ h₂) :
    AcceptedAs k (matched rt url w vm).minionID w₂ ↔
      (∃ m, w₁.vms k = .live m ∧ m.annotationOf annotationKeyStatus = keyStatusAccepted) ∨
        (matched rt url w vm).minionID ∈ w₁.pendingKeys url := by
  have hmem : (matched rt url w vm).minionID ∈ w.pendingKeys url := findMinionID_mem hfound
  have config_eq : ∀ {w' : World}, w'.configs = w.configs → w'.config? k.nspace = some cfg := by
    intro w' hw'
    rw [← hg.config]
    unfold World.config? World.configsIn
    rw [hw']
  rcases stops_reconcile_awaits hg hkey hdel hsel hd hfound hfirst with hu | hu | hrec
  · -- nothing was done: the second pass is like the first
    obtain ⟨m, hm, hsame⟩ := hu.vm
    have hgm : Governed { w₁ with now } k m cfg :=
      ⟨hm, (hsame.annotationOf (by decide)).trans hg.managed, config_eq hu.configs⟩
    have heq : matched rt url { w₁ with now } m = matched rt url w vm := matched_congr hsame hu.raas
    refine iff_of_true ?_ (.inr ?_)
    · rw [runs_reconcile_awaits hgm (hsame.key.trans hkey) (hsame.deleting.trans hdel)
        (hsame.matchesVMSelector.trans hsel) (hsame.awaitsKey hd) hconn hsecond, heq]
      exact ⟨hfound, rfl⟩
    · unfold World.pendingKeys at hmem ⊢
      rwa [hu.raas]
  · -- the key is accepted, and nobody knows
    obtain ⟨m, hm, hsame⟩ := hu.vm
    have hgm : Governed { w₁ with now } k m cfg :=
      ⟨hm, (hsame.annotationOf (by decide)).trans hg.managed, config_eq hu.configs⟩
    have hgone : (matched rt url w vm).minionID ∉ w₁.pendingKeys url := by
      unfold World.pendingKeys at hmem ⊢
      rw [hu.raas]
      show _ ∉ (Function.update w.raas url _ url).pending.map Prod.fst
      rw [Function.update_self]
      exact not_pending_accept hmem
    refine iff_of_false ?_ ?_
    · rw [runs_reconcile_awaits hgm (hsame.key.trans hkey) (hsame.deleting.trans hdel)
        (hsame.matchesVMSelector.trans hsel) (hsame.awaitsKey hd) hconn hsecond]
      rintro ⟨hother, heq⟩
      exact hgone (heq ▸ findMinionID_mem hother)
    · rintro (⟨n, hn, hacc⟩ | hin)
      · obtain rfl := Slot.live.inj (hm.symm.trans hn)
        exact (hsame.awaitsKey hd).unaccepted hacc
      · exact hgone hin
  · -- the acceptance is recorded
    obtain ⟨m, hm, hsame, hacc, hid⟩ := hrec.vm
    have hgm : Governed { w₁ with now } k m cfg :=
      ⟨hm, (hsame.annotationOf (by decide)).trans hg.managed, config_eq hrec.configs⟩
    refine iff_of_true ?_ (.inl ⟨m, hm, hacc⟩)
    rw [← hid]
    exact runs_reconcile_accepted hgm (hsame.key.trans hkey) (hsame.deleting.trans hdel)
      (hsame.matchesVMSelector.trans hsel) hacc hconn hsecond

/-! ## Stopping before and after the record -/

namespace Sample

/-- A VM of a namespace in discovery mode; its key is pending. -/
def waiting : World :=
  { (ClusterCfg.created time secrets (vm "a" "u1")).world with
    configs := [config "a" keyAcceptanceDiscovery]
    raas := fun _ => { pending := [("web", "pub")] } }

/-- `AtRaas`, as a check. -/
def atRaas (url : String) (w : World) : (o : Op) → o.Ans → Bool
  | .salt conn .listPendingKeys, a =>
    conn.url = url && decide (Except.toOption a = some (w.pendingKeys url))
  | .salt conn _, _ => conn.url = url
  | _, _ => true

theorem atRaas_sound {url : String} {w : World} {o : Op} {a : o.Ans} (h : atRaas url w o a = true) :
    AtRaas url w o a := by
  cases o with
  | salt conn c =>
    cases c with
    | listPendingKeys =>
      obtain ⟨hurl, hkeys⟩ := (Bool.and_eq_true _ _).mp h
      refine ⟨of_decide_eq_true hurl, ?_⟩
      rintro keys rfl
      exact Option.some.inj (of_decide_eq_true hkeys)
    | _ =>
      have hurl : conn.url = url := of_decide_eq_true h
      exact hurl
  | _ => trivial

/-- The first `n` calls of a pass over the VM, by a RaaS that lists its key. -/
def interrupted (n : Nat) : Option (World × History) :=
  (reconcile runtime noDefault key).runFor discovery.handle (atRaas "https://raas") n waiting []

/-- A pass later on, when no key is pending. -/
def resumed (w : World) : Option (Except String Result × World × History) :=
  (reconcile runtime noDefault key).runIf (preseed "a").handle (atRaas "https://raas")
    { w with now := time + 60 * Go.second } []

/-- The two passes, if both succeed. -/
theorem exists_resumed (n : Nat) (check : World → World → Bool)
    (h : (interrupted n).any (fun s => (resumed s.1).any fun e => check s.1 e.2.1) = true) :
    ∃ w₁ h₁ r w₂ h₂,
      (reconcile runtime noDefault key).Stops (Served runtime (Trying "https://raas")) waiting []
        w₁ h₁ ∧
      (reconcile runtime noDefault key).Runs (Served runtime (Succeeding "https://raas"))
        { w₁ with now := time + 60 * Go.second } [] r w₂ h₂ ∧ check w₁ w₂ = true := by
  obtain ⟨⟨w₁, h₁⟩, hs, h⟩ := (Option.any_eq_true _ _).mp h
  obtain ⟨⟨r, w₂, h₂⟩, hr, hcheck⟩ := (Option.any_eq_true _ _).mp h
  refine ⟨w₁, h₁, r, w₂, h₂, Prog.stops_runFor (fun w o hok => ?_) hs,
    Prog.runs_runIf (fun w o hok => ?_) hr, hcheck⟩
  · have hserved := handle_served (s := discovery) (raas_succeeds _) w o
    exact ⟨hserved.1, ⟨hserved.2.1.1, atRaas_sound hok⟩, hserved.2.2⟩
  · have hserved := handle_served (s := preseed "a") (raas_succeeds _) w o
    exact ⟨hserved.1, ⟨hserved.2.1, atRaas_sound hok⟩, hserved.2.2⟩

/-- The VM that waits. -/
theorem waiting_governed : Governed waiting key (vm "a" "u1") (config "a" keyAcceptanceDiscovery) :=
  ⟨rfl, by decide +kernel, rfl⟩

theorem waiting_awaitsKey : AwaitsKey (config "a" keyAcceptanceDiscovery) (vm "a" "u1") :=
  ⟨by decide, by decide +kernel, by decide +kernel, by decide +kernel, by decide +kernel,
    by decide +kernel⟩

end Sample

/-- The operator stops after it has recorded the acceptance and before it has added the
finalizer: the next pass adds it. -/
theorem acceptance_resumed_finalizer : ∃ w₁ h₁ r w₂ h₂ m,
    (reconcile Sample.runtime Sample.noDefault Sample.key).Stops
      (Served Sample.runtime (Trying "https://raas")) Sample.waiting [] w₁ h₁ ∧
    w₁.vms Sample.key = .live m ∧ saltFinalizer ∉ m.finalizers ∧
    (reconcile Sample.runtime Sample.noDefault Sample.key).Runs
      (Served Sample.runtime (Succeeding "https://raas"))
      { w₁ with now := Sample.time + 60 * Go.second } [] r w₂ h₂ ∧
    AcceptedAs Sample.key "web" w₂ := by
  obtain ⟨w₁, h₁, r, w₂, h₂, hs, hr, hcheck⟩ := Sample.exists_resumed 13
    (fun w₁ _ => ((w₁.vms Sample.key).vm?.any fun (m : VirtualMachine) =>
      decide (saltFinalizer ∉ m.finalizers) &&
      m.annotationOf annotationKeyStatus = keyStatusAccepted) &&
      decide (World.Connects Sample.runtime Sample.noDefault
        { w₁ with now := Sample.time + 60 * Go.second } (Sample.config "a" keyAcceptanceDiscovery)))
    (by decide +kernel)
  obtain ⟨hm, hconn⟩ := (Bool.and_eq_true _ _).mp hcheck
  obtain ⟨m, hm, hcheck⟩ := Slot.vm?_any hm
  obtain ⟨hfin, hacc⟩ := (Bool.and_eq_true _ _).mp hcheck
  refine ⟨w₁, h₁, r, w₂, h₂, m, hs, hm, of_decide_eq_true hfin, hr, ?_⟩
  exact (acceptance_resumed_iff Sample.runtime Sample.noDefault Sample.waiting_governed rfl rfl
    (by decide +kernel) Sample.waiting_awaitsKey (by decide +kernel) hs (of_decide_eq_true hconn)
    hr).mpr (.inl ⟨m, hm, of_decide_eq_true hacc⟩)

/-- The operator stops after RaaS has accepted the key and before it has recorded that: a pass
in which every call succeeds does not accept the VM. -/
theorem acceptance_lost : ∃ w₁ h₁ r w₂ h₂,
    (reconcile Sample.runtime Sample.noDefault Sample.key).Stops
      (Served Sample.runtime (Trying "https://raas")) Sample.waiting [] w₁ h₁ ∧
    ((w₁.raas "https://raas").accepted "web" = some "pub") ∧
    (reconcile Sample.runtime Sample.noDefault Sample.key).Runs
      (Served Sample.runtime (Succeeding "https://raas"))
      { w₁ with now := Sample.time + 60 * Go.second } [] r w₂ h₂ ∧
    (matched Sample.runtime "https://raas" Sample.waiting (Sample.vm "a" "u1")) = ⟨"web", .name⟩ ∧
    ¬ AcceptedAs Sample.key "web" w₂ := by
  obtain ⟨w₁, h₁, r, w₂, h₂, hs, hr, hcheck⟩ := Sample.exists_resumed 11
    (fun w₁ w₂ => ((w₁.raas "https://raas").accepted "web" = some "pub") &&
      ((w₂.vms Sample.key).vm?.any fun (m : VirtualMachine) =>
        m.annotationOf annotationKeyStatus ≠ keyStatusAccepted)) (by decide +kernel)
  obtain ⟨hkey, hm⟩ := (Bool.and_eq_true _ _).mp hcheck
  obtain ⟨m, hm, hne⟩ := Slot.vm?_any hm
  refine ⟨w₁, h₁, r, w₂, h₂, hs, of_decide_eq_true hkey, hr, by decide +kernel, ?_⟩
  rintro ⟨m', hm', hacc, -⟩
  obtain rfl := Slot.live.inj (hm.symm.trans hm')
  exact of_decide_eq_true hne hacc

end SaltOperator
