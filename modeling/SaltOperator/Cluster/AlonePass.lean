import SaltOperator.Cluster.Alone

/-!
# A pass by itself: the branches of `Reconcile`
-/

namespace SaltOperator

/-- The configs are read as they are. -/
def Fresh (ok : AnswerCondition) : Prop := ∀ w o a, ok w o a → FreshConfigs w o a

/-- No read of a VM or of configs fails. -/
structure Reads (ok : AnswerCondition) : Prop where
  vm : ∀ w key e, ok w (.getVM key) (.error e) → (w.vms key).vm? = none
  configs : ∀ w nspace e, ¬ ok w (.listConfigs nspace) (.error e)

/-- And no patch of finalizers. -/
structure Releases (ok : AnswerCondition) : Prop extends Reads ok where
  patch : ∀ w base obj e, ok w (.patchVM base obj) (.error e) →
    obj.finalizers ≠ base.finalizers → (w.vms obj.key).vm? = none

theorem Clean.releases {ok : AnswerCondition} (hclean : Clean ok) : Releases ok where
  vm _ _ _ hok := hclean _ _ _ hok
  configs _ _ _ hok := hclean _ _ _ hok
  patch _ _ _ _ hok _ := hclean _ _ _ hok

theorem Clean.reads {ok : AnswerCondition} (hclean : Clean ok) : Reads ok := hclean.releases.toReads

section passes

variable {rt : Runtime} {ok : AnswerCondition} {w w' : World} {h h' : History} {α : Type}
  {k : NamespacedName} {r : Except String Result} {vm : VirtualMachine} {cfg : SaltKeyConfig}
  {d : Default}

theorem runs_findSaltKeyConfig {r : Except String (Option SaltKeyConfig)} {nspace : String}
    (hfresh : Fresh ok) (hr : (findSaltKeyConfig nspace).Runs (Served rt ok) w h r w' h') :
    (∃ e, r = .error e ∧ ¬ Reads ok ∧ w' = w) ∨
      ∃ c, r = .ok c ∧ c = w.config? nspace ∧ w' = w := by
  obtain ⟨a, w₁, ⟨-, hok, rfl⟩, hr⟩ := Prog.runs_perform_bind.mp hr
  cases a with
  | error e =>
    obtain ⟨rfl, rfl, -⟩ := Prog.runs_fail.mp hr
    exact .inl ⟨_, rfl, fun hreads => hreads.configs _ _ _ hok, rfl⟩
  | ok configs =>
    have hconfigs : configs = w.configsIn nspace := hfresh _ _ _ hok
    obtain ⟨rfl, rfl, -⟩ := Prog.runs_ret.mp hr
    exact .inr ⟨_, rfl, congrArg selectConfig hconfigs, rfl⟩

/-- The VM is managed, under the config. -/
structure Governed (w : World) (k : NamespacedName) (vm : VirtualMachine) (cfg : SaltKeyConfig) :
    Prop where
  live : w.vms k = .live vm
  managed : vm.annotationOf annotationManaged = annotationTrue
  config : w.config? k.nspace = some cfg

/-- A pass over a VM fails in the beginning, or has nothing to do with it, or works
on it under the config. -/
theorem runs_reconcile (hfresh : Fresh ok) (hvm : w.vms k = .live vm)
    (hr : (reconcile rt d k).Runs (Served rt ok) w h r w' h') :
    (∃ e, r = .error e ∧ ¬ Reads ok ∧ w' = w) ∨
    ((∀ cfg, ¬ Governed w k vm cfg) ∧ r = .ok {} ∧ w' = w) ∨
    ∃ cfg h₁, Governed w k vm cfg ∧
      (if vm.deleting then reconcileDelete rt d vm cfg
        else if !matchesVMSelector rt cfg vm then pure {}
        else reconcileCreate rt d vm cfg).Runs (Served rt ok) w h₁ r w' h' := by
  obtain ⟨a, w₁, ⟨ha, hok, rfl⟩, hr⟩ := Prog.runs_perform_bind.mp hr
  cases a with
  | error e =>
    have hreads : ¬ Reads ok := by
      intro hreads
      have hnone := hreads.vm _ _ _ hok
      rw [hvm] at hnone
      cases hnone
    cases e with
    | notFound text =>
      have hnone : (w.vms k).vm? = none := ha
      rw [hvm] at hnone
      cases hnone
    | _ =>
      obtain ⟨rfl, rfl, -⟩ := Prog.runs_fail.mp hr
      exact .inl ⟨_, rfl, hreads, rfl⟩
  | ok m =>
    have hm : w.vms k = .live m := ha
    obtain rfl : vm = m := Slot.live.inj (hvm.symm.trans hm)
    replace hr : (ite _ _ _ : M Result).Runs (Served rt ok) w _ r w' h' := hr
    split at hr
    · rename_i hman
      obtain ⟨rfl, rfl, -⟩ := Prog.runs_ret.mp hr
      exact .inr (.inl ⟨fun cfg hg => hman hg.managed, rfl, rfl⟩)
    · rename_i hman
      rcases hr.bind_cases fun _ _ _ => runs_findSaltKeyConfig hfresh with
        ⟨e, rfl, hreads, rfl⟩ | ⟨c, w₁, h₁, ⟨rfl, rfl⟩, hr⟩
      · exact .inl ⟨_, rfl, hreads, rfl⟩
      · cases hc : w₁.config? k.nspace with
        | none =>
          rw [hc] at hr
          obtain ⟨rfl, rfl, -⟩ := Prog.runs_ret.mp hr
          refine .inr (.inl ⟨fun cfg hg => ?_, rfl, rfl⟩)
          rw [hg.config] at hc
          cases hc
        | some cfg =>
          rw [hc] at hr
          obtain ⟨h₂, hr⟩ := Prog.Runs.log hr
          have hg : Governed w₁ k vm cfg := ⟨hvm, not_not.mp hman, hc⟩
          refine .inr (.inr ⟨cfg, ?_⟩)
          by_cases hdel : vm.deleting = true
          · rw [if_pos hdel] at hr ⊢
            exact ⟨h₂, hg, hr⟩
          · rw [if_neg hdel] at hr ⊢
            by_cases hsel : (!matchesVMSelector rt cfg vm) = true
            · rw [if_pos hsel] at hr ⊢
              obtain ⟨h₃, hr⟩ := Prog.Runs.log hr
              exact ⟨h₃, hg, hr⟩
            · rw [if_neg hsel] at hr ⊢
              exact ⟨h₂, hg, hr⟩

/-! ## A VM that is going away -/

/-- The VM in the slot has the operator's finalizer. -/
def Slot.HasFinalizer (s : Slot) : Prop := ∃ vm, s = .live vm ∧ saltFinalizer ∈ vm.finalizers

theorem VirtualMachine.removeFinalizer_ne {cur : VirtualMachine}
    (hfin : cur.containsFinalizer saltFinalizer = true) :
    (cur.removeFinalizer saltFinalizer).finalizers ≠ cur.finalizers := by
  intro heq
  have hmem : saltFinalizer ∈ (cur.removeFinalizer saltFinalizer).finalizers := by
    rw [heq]
    simpa [VirtualMachine.containsFinalizer] using hfin
  exact absurd rfl (of_decide_eq_true (List.mem_filter.mp hmem).2)

/-- `removeSaltFinalizer` takes the finalizer away if its calls succeed. -/
theorem runs_removeSaltFinalizer (hrel : Releases ok) {cur : VirtualMachine}
    (hcur : w.vms vm.key = .live cur) (hkey : cur.key = vm.key)
    (hr : (removeSaltFinalizer vm).Runs (Served rt ok) w h r w' h') :
    ¬ (w'.vms vm.key).HasFinalizer := by
  obtain ⟨a, w₁, ⟨ha, hok, rfl⟩, hr⟩ := Prog.runs_perform_bind.mp hr
  cases a with
  | error e =>
    have hnone := hrel.vm _ _ _ hok
    rw [hcur] at hnone
    cases hnone
  | ok latest =>
    obtain rfl : cur = latest := Slot.live.inj (hcur.symm.trans ha)
    replace hr : (ite _ _ _ : M Result).Runs (Served rt ok) w _ r w' h' := hr
    split at hr
    · rename_i hhas
      have hobj : (cur.removeFinalizer saltFinalizer).key = vm.key := hkey
      rcases Prog.Runs.patchVM (cur.removeFinalizer saltFinalizer) (hobj ▸ hcur) hr with
        ⟨e, h₁, hok, -⟩ | ⟨version, h₁, hr⟩
      · have hnone := hrel.patch _ _ _ _ hok (VirtualMachine.removeFinalizer_ne hhas)
        rw [hobj, hcur] at hnone
        cases hnone
      · obtain ⟨-, rfl, -⟩ := Prog.runs_ret.mp hr
        rw [hobj, World.setVM_self, VirtualMachine.patched_current]
        rintro ⟨m, hm, hfin⟩
        rw [settled_eq_live hm] at hfin
        exact absurd rfl (of_decide_eq_true (List.mem_filter.mp hfin).2)
    · rename_i hno
      obtain ⟨-, rfl, -⟩ := Prog.runs_ret.mp hr
      rintro ⟨m, hm, hfin⟩
      rw [Slot.live.inj (hm.symm.trans hcur)] at hfin
      exact hno (by simpa [VirtualMachine.containsFinalizer] using hfin)

theorem settled_finalized (h : saltFinalizer ∈ vm.finalizers) : settled vm = .live vm := by
  unfold settled
  rw [if_neg]
  rintro ⟨-, hnil⟩
  rw [hnil] at h
  exact List.not_mem_nil h

/-- `finishDelete` ends with the finalizer gone, whether or not the outcome could be
noted. -/
theorem runs_finishDelete (hrel : Releases ok) (hcur : w.vms vm.key = .live vm)
    (hfin : saltFinalizer ∈ vm.finalizers) {status reason message : String} {type : EventType}
    (hr : (finishDelete vm status type reason message).Runs (Served rt ok) w h r w' h') :
    ¬ (w'.vms vm.key).HasFinalizer := by
  rcases Prog.runs_bind.mp hr with ⟨r₁, w₁, h₁, hr₁, hr⟩ | ⟨e, rfl, hr₁⟩
  · obtain ⟨r₂, hr₂, hpatch⟩ := Prog.runs_attempt.mp hr₁
    obtain ⟨h₂, hend⟩ := Prog.Runs.event hr
    rcases runs_patchAnnotations hcur hpatch with ⟨e, -, -, rfl⟩ | ⟨m, -, version, rfl, rfl⟩
    · exact runs_removeSaltFinalizer hrel hcur rfl hend
    · have hsettled : settled (vm.written [(annotationKeyStatus, status)] version) =
          .live (vm.written [(annotationKeyStatus, status)] version) := settled_finalized hfin
      exact runs_removeSaltFinalizer hrel ((World.setVM_self ..).trans hsettled) rfl hend
  · obtain ⟨_, hbad, -⟩ := Prog.runs_attempt.mp hr₁
    cases hbad

/-- A VM with a finalizer and a minion ID is let go exactly when its key is known to be
deleted, or the operator gets itself a client. -/
theorem runs_reconcileDelete (hrel : Releases ok) {gets : Prop} (hcur : w.vms vm.key = .live vm)
    (hfin : saltFinalizer ∈ vm.finalizers) (hid : vm.annotationOf annotationMinionID ≠ "")
    (hclient : ∀ {r : Except String Connection} {h h' w'},
      (saltClientFromConfig rt d cfg).Runs (Served rt ok) w h r w' h' →
        ((∃ conn, r = .ok conn) ↔ gets))
    (hr : (reconcileDelete rt d vm cfg).Runs (Served rt ok) w h r w' h') :
    ¬ (w'.vms vm.key).HasFinalizer ↔
      vm.annotationOf annotationKeyStatus = keyStatusDeleted ∨ gets := by
  unfold reconcileDelete at hr
  rw [if_neg hid] at hr
  split at hr
  · rename_i hst
    exact iff_of_true (runs_removeSaltFinalizer hrel hcur rfl hr) (.inl hst)
  · rename_i hst
    rcases Prog.runs_bind.mp hr with ⟨r₁, w₁, h₁, hr₁, hr⟩ | ⟨e, rfl, hr₁⟩
    · obtain ⟨r₂, hr₂, hrun⟩ := Prog.runs_attempt.mp hr₁
      cases hr₂
      have hconn := hclient hrun
      obtain ⟨cache, rfl⟩ := saltClientFromConfig_quiet.runs_world hrun
      cases r₁ with
      | error e =>
        obtain ⟨h₂, hr⟩ := Prog.Runs.log hr
        obtain ⟨-, rfl, -⟩ := Prog.runs_ret.mp hr
        refine iff_of_false (fun hno => hno ⟨vm, hcur, hfin⟩) ?_
        rintro (hdel | hc)
        · exact hst hdel
        · obtain ⟨conn, hbad⟩ := hconn.mpr hc
          cases hbad
      | ok conn =>
        refine iff_of_true ?_ (.inr (hconn.mp ⟨conn, rfl⟩))
        -- whatever RaaS answers, the VM is let go
        obtain ⟨a, w₂, ⟨-, -, rfl⟩, hr⟩ := Prog.runs_perform_bind.mp hr
        cases a with
        | error e =>
          obtain ⟨h₂, hr⟩ := Prog.Runs.log hr
          exact runs_finishDelete (w := { w with cache }) hrel hcur hfin hr
        | ok u =>
          obtain ⟨h₂, hr⟩ := Prog.Runs.log hr
          refine runs_finishDelete hrel ?_ hfin hr
          exact hcur
    · obtain ⟨_, hbad, -⟩ := Prog.runs_attempt.mp hr₁
      cases hbad

/-- Patches change no annotation but `key-status`. -/
def Op.SparesAnnotations : Op → Prop
  | .patchVM base obj => ∀ a ≠ annotationKeyStatus, obj.annotations[a]? = base.annotations[a]?
  | _ => True

theorem removeSaltFinalizer_spares : (removeSaltFinalizer vm).Performs Op.SparesAnnotations := by
  refine ⟨trivial, fun a => ?_⟩
  cases a with
  | error e => cases e <;> exact trivial
  | ok latest =>
    show Prog.Performs Op.SparesAnnotations (ite _ _ _)
    split
    · refine ⟨fun _ _ => rfl, fun a => ?_⟩
      cases a with
      | error e => cases e <;> exact trivial
      | ok m => exact trivial
    · exact trivial

theorem finishDelete_spares {status reason message : String} {type : EventType} :
    (finishDelete vm status type reason message).Performs Op.SparesAnnotations := by
  refine Prog.Performs.bind (Prog.Performs.attempt ⟨fun a ha => ?_, fun a => ?_⟩) fun _ =>
    ⟨trivial, fun _ => removeSaltFinalizer_spares⟩
  · show (vm.annotations.insert annotationKeyStatus status)[a]? = _
    rw [Std.ExtTreeMap.getElem?_insert, if_neg (by simpa using ha.symm)]
  · cases a <;> exact trivial

theorem reconcileDelete_spares : (reconcileDelete rt d vm cfg).Performs Op.SparesAnnotations := by
  have hquiet : ∀ {p : M Connection}, p.Quiet → p.Performs Op.SparesAnnotations := by
    intro p hp
    refine hp.performs.mono fun o ho => ?_
    cases o with
    | patchVM base obj => cases ho
    | _ => trivial
  unfold reconcileDelete
  dsimp only
  split
  · trivial
  split
  · exact removeSaltFinalizer_spares
  refine Prog.Performs.bind (hquiet saltClientFromConfig_quiet).attempt fun r => ?_
  cases r with
  | error e => exact ⟨trivial, fun _ => trivial⟩
  | ok conn =>
    refine ⟨trivial, fun a => ?_⟩
    cases a <;> exact ⟨trivial, fun _ => finishDelete_spares⟩

/-- The VM of `k` is gone, or what it was up to its finalizers and `key-status`. -/
structure Going (k : NamespacedName) (vm : VirtualMachine) (configs : List SaltKeyConfig)
    (w : World) : Prop where
  configs : w.configs = configs
  deleting : ∀ m, w.vms k = .live m → m.deleting = vm.deleting
  annotations : ∀ m, w.vms k = .live m → ∀ a ≠ annotationKeyStatus,
    m.annotations[a]? = vm.annotations[a]?

theorem Going.call {configs : List SaltKeyConfig} {o : Op} {a : o.Ans} (ho : o.SparesAnnotations)
    (hx : Served rt ok w o a w') (hg : Going k vm configs w) : Going k vm configs w' := by
  obtain ⟨ha, -, rfl⟩ := hx
  have hconfigs := (effect_configs w o a).trans hg.configs
  by_cases hpatch : ∃ base obj m, (⟨w, o, a⟩ : Made) = ⟨w, .patchVM base obj, .ok m⟩
  · obtain ⟨base, obj, m, heq⟩ := hpatch
    cases heq
    obtain ⟨cur, version, hcur, -, rfl⟩ := ha
    by_cases hk : k = obj.key
    · subst hk
      have hlive : ∀ {m}, (effect w (.patchVM base obj)
          (.ok (.patched version base obj cur))).vms obj.key = .live m →
          m = .patched version base obj cur :=
        fun hm => settled_eq_live ((World.setVM_self ..).symm.trans hm)
      refine ⟨hconfigs, fun m hm => ?_, fun m hm a ha => ?_⟩
      · rw [hlive hm]
        exact hg.deleting cur hcur
      · rw [hlive hm]
        exact (getElem?_mergeMap_of_eq (ho a ha).symm _).trans (hg.annotations cur hcur a ha)
    · have hother := Function.update_of_ne hk (settled (.patched version base obj cur)) w.vms
      exact ⟨hconfigs, fun m hm => hg.deleting m (hother.symm.trans hm),
        fun m hm => hg.annotations m (hother.symm.trans hm)⟩
  · have hvms := effect_vms fun base obj m heq => hpatch ⟨base, obj, m, heq⟩
    exact ⟨hconfigs, fun m hm => hg.deleting m (hvms ▸ hm),
      fun m hm => hg.annotations m (hvms ▸ hm)⟩

/-- A pass that deletes leaves the rest of the VM alone, whatever it is answered. -/
theorem runs_reconcileDelete_going {m : VirtualMachine} (hvm : w.vms k = .live vm)
    (hr : (reconcileDelete rt d m cfg).Runs (Served rt ok) w h r w' h') :
    Going k vm w.configs w' := by
  refine hr.preserves reconcileDelete_spares (fun _ _ _ _ ho hx => Going.call ho hx) ⟨rfl, ?_, ?_⟩
  · rintro m hm
    rw [Slot.live.inj (hvm.symm.trans hm)]
  · rintro m hm a -
    rw [Slot.live.inj (hvm.symm.trans hm)]

/-! ## Getting a client for a VM -/

theorem runs_saltClientFor {r : Except String Connection}
    (hr : (saltClientFor rt d vm cfg).Runs (Served rt ok) w h r w' h') :
    (∃ e, r = .error e ∧ (Clean ok → ¬ w.Connects rt d cfg) ∧ ∃ cache, w' = { w with cache }) ∨
      ∃ conn, r = .ok conn ∧ (Clean ok → w.Connects rt d cfg) ∧ ∃ cache, w' = { w with cache } := by
  have hcache := saltClientFor_quiet.runs_world hr
  rcases Prog.runs_bind.mp hr with ⟨r₁, w₁, h₁, hr₁, hr⟩ | ⟨e, rfl, hr₁⟩
  · obtain ⟨_, heq, hclient⟩ := Prog.runs_attempt.mp hr₁
    cases heq
    cases r₁ with
    | error e =>
      obtain ⟨rfl, -, -⟩ := Prog.runs_fail.mp hr
      refine .inl ⟨_, rfl, fun hclean hconn => ?_, hcache⟩
      obtain ⟨conn, hbad⟩ := (saltClientFromConfig_ok_iff hclean hclient).mpr hconn
      cases hbad
    | ok conn =>
      obtain ⟨rfl, -, -⟩ := Prog.runs_ret.mp hr
      exact .inr ⟨conn, rfl, fun hclean =>
        (saltClientFromConfig_ok_iff hclean hclient).mp ⟨conn, rfl⟩, hcache⟩
  · obtain ⟨_, hbad, -⟩ := Prog.runs_attempt.mp hr₁
    cases hbad

/-! ## The key in the Secret -/

/-- The Secret of the VM has not been cleared yet. -/
def VirtualMachine.ClearDue (vm : VirtualMachine) : Prop :=
  vm.annotationOf annotationMatchMethod = matchMethodPreseed ∧
    vm.annotationOf annotationKeyCleared ≠ annotationTrue

instance : Decidable vm.ClearDue := inferInstanceAs (Decidable (_ ∧ _))

/-- The key is taken out of a Secret, if there is one. -/
def World.clearKey (w : World) (k : NamespacedName) : World :=
  { w with secrets := Function.update w.secrets k ((w.secrets k).map (·.patched clearedEntries)) }

/-- A cleared Secret holds the credentials it held. -/
theorem connects_clearKey (w : World) (k : NamespacedName) :
    (w.clearKey k).Connects rt d cfg ↔ w.Connects rt d cfg := by
  have hconn : (w.clearKey k).connection? rt d cfg = w.connection? rt d cfg := by
    refine connection?_congr fun key e he => ?_
    rcases eq_or_ne key k with rfl | hne
    · have hnone : clearedEntries.reverse.lookup e = none := by
        fin_cases he <;> rfl
      simp [World.clearKey, Function.comp_def, Secret.entry_patched, hnone]
    · simp [World.clearKey, Function.update_of_ne hne]
  unfold World.Connects
  rw [hconn]
  exact Iff.rfl

theorem runs_clearBootstrapKey {r : Except String Unit}
    (hr : (clearBootstrapKey vm).Runs (Served rt ok) w h r w' h') :
    (∃ e, r = .error e ∧ ¬ Clean ok) ∨ ∃ a, r = .ok a ∧ w' = w.clearKey vm.key.bootstrap := by
  obtain ⟨a, w₁, ⟨ha, hok, rfl⟩, hr⟩ := Prog.runs_perform_bind.mp hr
  cases a with
  | ok u =>
    obtain ⟨rfl, rfl, -⟩ := Prog.runs_ret.mp hr
    exact .inr ⟨(), rfl, rfl⟩
  | error e =>
    cases e with
    | notFound text =>
      have hnone : w.secrets vm.key.bootstrap = none := ha
      obtain ⟨rfl, rfl, -⟩ := Prog.runs_ret.mp hr
      refine .inr ⟨(), rfl, ?_⟩
      unfold World.clearKey
      rw [hnone, Option.map_none, ← hnone, Function.update_eq_self]
    | _ =>
      obtain ⟨rfl, -, -⟩ := Prog.runs_fail.mp hr
      refine .inl ⟨_, rfl, fun hclean => ?_⟩
      obtain ⟨text, hbad⟩ := hclean _ _ _ hok
      cases hbad

/-- The marker of a cleared Secret. -/
def clearedMarker : List (String × String) := [(annotationKeyCleared, annotationTrue)]

/-- If `due`, the Secret was cleared and that was noted on the VM, which is `m` by
then; nothing happened otherwise. -/
def ClearedIf (due : Prop) (w : World) (vm m : VirtualMachine) (w' : World) : Prop :=
  (¬ due ∧ m = vm ∧ w' = w) ∨
    (due ∧ ∃ version, m = vm.written clearedMarker version ∧
      w' = (w.clearKey vm.key.bootstrap).setVM vm.key (.live m))

theorem runs_clearPreseedKey {r : Except String VirtualMachine} {trigger : String}
    (hcur : w.vms vm.key = .live vm) (hdel : vm.deleting = false)
    (hr : (clearPreseedKey vm trigger).Runs (Served rt ok) w h r w' h') :
    (∃ e, r = .error e ∧ ¬ Clean ok) ∨ ∃ m, r = .ok m ∧ ClearedIf vm.ClearDue w vm m w' := by
  unfold clearPreseedKey at hr
  split at hr
  · rename_i hno
    obtain ⟨rfl, rfl, -⟩ := Prog.runs_ret.mp hr
    refine .inr ⟨_, rfl, .inl ⟨fun hdue => ?_, rfl, rfl⟩⟩
    exact hno.elim (fun h => h hdue.1) hdue.2
  · rename_i hno
    have hdue : vm.ClearDue := by
      unfold VirtualMachine.ClearDue
      tauto
    rcases hr.bind_cases fun _ _ _ => runs_clearBootstrapKey with
      ⟨e, rfl, hbad⟩ | ⟨_, w₁, h₁, rfl, hr⟩
    · exact .inl ⟨e, rfl, hbad⟩
    · have hcur₁ : (w.clearKey vm.key.bootstrap).vms vm.key = .live vm := hcur
      rcases hr.bind_cases fun _ _ _ => runs_patchAnnotations hcur₁ with
        ⟨e, rfl, hbad, -⟩ | ⟨m, w₂, h₂, ⟨version, rfl, rfl⟩, hr⟩
      · exact .inl ⟨e, rfl, hbad⟩
      · obtain ⟨h₃, hr⟩ := Prog.Runs.log hr
        obtain ⟨h₄, hr⟩ := Prog.Runs.event hr
        obtain ⟨rfl, rfl, -⟩ := Prog.runs_ret.mp hr
        refine .inr ⟨_, rfl, .inr ⟨hdue, version, rfl, ?_⟩⟩
        rw [settled_present (VirtualMachine.deleting_written.trans hdel)]

/-- The acceptance timeout of a VM has passed. -/
def TimedOut (rt : Runtime) (now : Time) (vm : VirtualMachine) (cfg : SaltKeyConfig) : Bool :=
  (sinceVSphereCreate rt now vm).any (· ≥ cfg.acceptTimeout)

theorem runs_clearSignalledKey {r : Except String VirtualMachine} {timedOut : Bool}
    (hcur : w.vms vm.key = .live vm) (hdel : vm.deleting = false)
    (hr : (clearSignalledKey rt vm cfg timedOut).Runs (Served rt ok) w h r w' h') :
    (∃ e, r = .error e ∧ ¬ Clean ok) ∨ ∃ m, r = .ok m ∧
      ClearedIf ((guestSignalled vm ∨ timedOut) ∧ vm.ClearDue) w vm m w' := by
  unfold clearSignalledKey at hr
  split at hr
  · rename_i hsig
    have hdue : ((guestSignalled vm ∨ timedOut) ∧ vm.ClearDue) = vm.ClearDue := by simp [hsig]
    rw [hdue]
    exact runs_clearPreseedKey hcur hdel hr
  · split at hr
    · rename_i htime
      have hdue : ((guestSignalled vm ∨ timedOut) ∧ vm.ClearDue) = vm.ClearDue := by simp [htime]
      rw [hdue]
      exact runs_clearPreseedKey hcur hdel hr
    · rename_i hsig htime
      obtain ⟨rfl, rfl, -⟩ := Prog.runs_ret.mp hr
      exact .inr ⟨_, rfl, .inl ⟨fun hdue => hdue.1.elim hsig htime, rfl, rfl⟩⟩

/-- The Secret of a guest that has signalled or had its time is cleared, then the key
or the chain is taken further. -/
theorem runs_reconcileCreate (hcur : w.vms vm.key = .live vm) (hdel : vm.deleting = false)
    (hr : (reconcileCreate rt d vm cfg).Runs (Served rt ok) w h r w' h') :
    (∃ e, r = .error e ∧ ¬ Clean ok) ∨ ∃ m w₁ h₁,
      ClearedIf ((guestSignalled vm ∨ TimedOut rt w.now vm cfg) ∧ vm.ClearDue) w vm m w₁ ∧
      (if m.annotationOf annotationKeyStatus ≠ keyStatusAccepted then
        reconcileKey rt d m cfg cfg.acceptTimeout cfg.requeueAfter (TimedOut rt w.now vm cfg)
      else reconcileAccepted rt d m cfg).Runs (Served rt ok) w₁ h₁ r w' h' := by
  obtain ⟨h₁, hr⟩ := Prog.Runs.now hr
  rcases hr.bind_cases fun _ _ _ => runs_clearSignalledKey hcur hdel with
    ⟨e, rfl, hbad⟩ | ⟨m, w₁, h₁, hcleared, hr⟩
  · exact .inl ⟨e, rfl, hbad⟩
  · exact .inr ⟨m, w₁, h₁, hcleared, hr⟩

theorem ClearedIf.current {due : Prop} {m : VirtualMachine} (hc : ClearedIf due w vm m w')
    (hcur : w.vms vm.key = .live vm) : w'.vms m.key = .live m := by
  rcases hc with ⟨-, rfl, rfl⟩ | ⟨-, version, rfl, rfl⟩
  · exact hcur
  · exact World.setVM_self ..

theorem ClearedIf.key {due : Prop} {m : VirtualMachine} (hc : ClearedIf due w vm m w') :
    m.key = vm.key := by
  rcases hc with ⟨-, rfl, -⟩ | ⟨-, version, rfl, -⟩ <;> rfl

theorem ClearedIf.deleting {due : Prop} {m : VirtualMachine} (hc : ClearedIf due w vm m w') :
    m.deleting = vm.deleting := by
  rcases hc with ⟨-, rfl, -⟩ | ⟨-, version, rfl, -⟩ <;> rfl

/-- Clearing says nothing else about the VM. -/
theorem ClearedIf.annotationOf {due : Prop} {m : VirtualMachine} (hc : ClearedIf due w vm m w')
    {a : String} (ha : a ≠ annotationKeyCleared) : m.annotationOf a = vm.annotationOf a := by
  rcases hc with ⟨-, rfl, -⟩ | ⟨-, version, rfl, -⟩
  · rfl
  · rw [VirtualMachine.annotationOf_written]
    simp [clearedMarker, List.lookup_cons, beq_eq_false_iff_ne.mpr ha]

/-- A pass of an accepted VM: the finalizer is put back, the operator gets itself a
client, and the chain is taken further. -/
theorem runs_reconcileAccepted (hcur : w.vms vm.key = .live vm) (hdel : vm.deleting = false)
    (hr : (reconcileAccepted rt d vm cfg).Runs (Served rt ok) w h r w' h') :
    (∃ e, r = .error e ∧ ¬ Clean ok) ∨ ∃ version,
      ((∃ e cache, r = .error e ∧ (Clean ok → ¬ w.Connects rt d cfg) ∧
        w' = { w.setVM vm.key (.live (vm.finalized version)) with cache }) ∨
      ∃ conn cache h₁, (Clean ok → w.Connects rt d cfg) ∧
        (reconcilePostAccept rt (vm.finalized version) conn cfg
          (vm.annotationOf annotationMinionID) cfg.requeueAfter).Runs (Served rt ok)
          { w.setVM vm.key (.live (vm.finalized version)) with cache } h₁ r w' h') := by
  rcases hr.bind_cases fun _ _ _ => runs_ensureFinalizer hcur hdel with
    ⟨e, rfl, hbad, -⟩ | ⟨m, w₁, h₁, ⟨version, rfl, rfl⟩, hr⟩
  · exact .inl ⟨e, rfl, hbad⟩
  · refine .inr ⟨version, ?_⟩
    rcases hr.bind_cases fun _ _ _ => runs_saltClientFor with
      ⟨e, rfl, hno, cache, rfl⟩ | ⟨conn, w₂, h₂, ⟨hconn, cache, rfl⟩, hr⟩
    · exact .inl ⟨e, cache, rfl, hno, rfl⟩
    · rw [VirtualMachine.annotationOf_finalized] at hr
      exact .inr ⟨conn, cache, h₂, hconn, hr⟩

end passes

end SaltOperator
