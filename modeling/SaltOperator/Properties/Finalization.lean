import SaltOperator.Cluster.KeyState
import SaltOperator.Cluster.Walk
import SaltOperator.Properties.Deletion

/-!
# Finalization happens once

A VM that others hold finalizers on is reconciled again and again while it goes
away. What keeps the operator from deleting its key a second time is
`key-status: Deleted`, and the operator lets the VM go whether or not it could
write that.

A walk over `reconcileDelete` adds to the contract of the workers what it knows
about the record when it deletes a key, records an outcome or takes its finalizer
off (`Finalizes`), and that a deletion is on record when a pass ends
(`History.Settled`). **In every run in which no patch fails that records a VM's
`Deleted`, the operator does nothing to the key of a VM it has let go unless a
`DeleteKey` for it failed, and never records `DeleteFailed` after one that
succeeded** (`finalization_once`). One failed `DeleteKey` is enough for a second one
after the finalizer is off (`finalization_twice`).
-/

namespace SaltOperator

/-- The call deleted the key. -/
def Made.deletesKey : Made → Bool
  | ⟨_, .salt _ (.deleteKey _), .ok _⟩ => true
  | _ => false

/-- The call was to delete the key, and failed. -/
def Made.failsDeletion : Made → Bool
  | ⟨_, .salt _ (.deleteKey _), .error _⟩ => true
  | _ => false

/-- The call was to record that the key is deleted, and failed. -/
def Made.failsRecord : Made → Bool
  | ⟨_, .patchVM base obj, .error _⟩ =>
    base.annotationOf annotationKeyStatus ≠ keyStatusDeleted &&
      obj.annotationOf annotationKeyStatus = keyStatusDeleted
  | _ => false

/-- The call took the operator's finalizer off. -/
def Made.letsGo : Made → Bool
  | ⟨_, .patchVM base obj, .ok _⟩ =>
    base.containsFinalizer saltFinalizer && !obj.containsFinalizer saltFinalizer
  | _ => false

namespace History

/-- One of the calls is such. -/
def Has (p : Made → Bool) (h : History) : Prop := ∃ m ∈ h, p m = true

/-- An object that records the deletion was sent. -/
def KeyDeleted (h : History) : Prop :=
  ∃ m ∈ h.served, m.annotationOf annotationKeyStatus = keyStatusDeleted

/-- The deletion is on record, or could not be recorded. -/
def Recorded (h : History) : Prop := h.KeyDeleted ∨ h.Has Made.failsRecord

/-- No deletion that succeeded waits to be recorded. -/
def Settled (h : History) : Prop := h.Has Made.deletesKey → h.Recorded

variable {p : Made → Bool} {c : Made} {h : History}

theorem served_subset_cons : h.served ⊆ served (c :: h) := by
  unfold served
  rw [List.filterMap_cons]
  split
  · exact List.Subset.refl _
  · exact List.subset_cons_self _ _

theorem Has.cons (hp : h.Has p) : Has p (c :: h) := by
  obtain ⟨m, hm, hpm⟩ := hp
  exact ⟨m, List.mem_cons_of_mem _ hm, hpm⟩

theorem has_head (hc : p c = true) : Has p (c :: h) := ⟨c, List.mem_cons_self, hc⟩

theorem has_cons_iff (hc : p c = false) : Has p (c :: h) ↔ h.Has p := by
  refine ⟨fun ⟨m, hm, hpm⟩ => ?_, Has.cons⟩
  rcases List.mem_cons.mp hm with rfl | hm
  · rw [hc] at hpm
    cases hpm
  · exact ⟨m, hm, hpm⟩

theorem not_has_iff : ¬ h.Has p ↔ ∀ m ∈ h, p m = false := by
  simp [Has]

theorem KeyDeleted.cons (hk : h.KeyDeleted) : KeyDeleted (c :: h) := by
  obtain ⟨m, hm, hst⟩ := hk
  exact ⟨m, served_subset_cons hm, hst⟩

theorem Recorded.cons (hr : h.Recorded) : Recorded (c :: h) := hr.imp (·.cons) (·.cons)

theorem Recorded.settled (hr : h.Recorded) : h.Settled := fun _ => hr

/-- Only a deletion that succeeds is one to record. -/
theorem Settled.cons (hs : h.Settled) (hc : c.deletesKey = false) : Settled (c :: h) :=
  fun hdel => (hs ((has_cons_iff hc).mp hdel)).cons

end History

/-- What is known of the record when a pass patches the VM. -/
structure FinalizingPatch (crash : Prop) (h : History) (base obj : VirtualMachine) : Prop where
  failed : h.Deletes → obj.annotationOf annotationKeyStatus = keyStatusDeleteFailed →
    obj.annotationOf annotationKeyStatus ≠ base.annotationOf annotationKeyStatus →
    base.annotationOf annotationKeyStatus ≠ keyStatusDeleted ∧ h.Has Made.failsDeletion
  released : saltFinalizer ∈ base.finalizers → saltFinalizer ∉ obj.finalizers →
    h.Recorded ∨ h.Has Made.failsDeletion
  -- a pass that is stopped leaves its deletion to the next one, which may fail
  succeeded : ¬ crash → h.Has Made.deletesKey →
    h.Recorded ∨ obj.annotationOf annotationKeyStatus = keyStatusDeleted

/-- What is known of the record when a pass deletes the key, records the outcome or
takes the finalizer off. -/
def Finalizes (crash : Prop) (h : History) : Op → Prop
  | .salt _ (.deleteKey _) => ∃ m, h.lastVM = some m ∧
      m.annotationOf annotationKeyStatus ≠ keyStatusDeleted
  | .patchVM base obj => FinalizingPatch crash h base obj
  | _ => True

theorem finalizes_of_quiet {crash : Prop} {h : History} {o : Op} (ho : o.quiet = true) :
    Finalizes crash h o := by
  cases o with
  | salt conn c => cases c <;> first | exact trivial | cases ho
  | _ => first | exact trivial | cases ho

theorem deletesKey_eq_false {w : World} {o : Op} {a : o.Ans}
    (ho : ∀ conn minionID, o ≠ .salt conn (.deleteKey minionID)) :
    Made.deletesKey ⟨w, o, a⟩ = false := by
  cases o with
  | salt conn c =>
    cases c with
    | deleteKey minionID => exact absurd rfl (ho conn minionID)
    | _ => rfl
  | _ => rfl

/-! ## The walk -/

section walk

variable {rt : Runtime} {d : Default} {crash : Prop} {m : VirtualMachine} {cfg : SaltKeyConfig}
  {h : History}

/-- Getting a client deletes nothing. -/
theorem saltClientFromConfig_settled (hset : ¬ crash → h.Settled) :
    (saltClientFromConfig rt d cfg).Obeys (fun _ => Promised rt) (Finalizes crash)
      (fun (h' : History) _ => h.Quietly h' ∧ (¬ crash → h'.Settled)) h := by
  refine saltClientFromConfig_quiet.performs.obeys (fun h' o hI ho => ?_) ⟨.refl h, hset⟩
  refine ⟨finalizes_of_quiet ho, fun w a => ⟨hI.1.cons ho, fun hc => (hI.2 hc).cons ?_⟩⟩
  refine deletesKey_eq_false ?_
  rintro conn minionID rfl
  cases ho

theorem removeSaltFinalizer_finalizes (hdone : h.Recorded ∨ h.Has Made.failsDeletion)
    (hset : ¬ crash → h.Settled) :
    (removeSaltFinalizer m).Obeys (fun _ => Promised rt) (Finalizes crash)
      (fun (h' : History) _ => ¬ crash → h'.Settled) h := by
  refine ⟨trivial, fun w a _ => ?_⟩
  have hset₁ : ¬ crash → History.Settled (⟨w, .getVM m.key, a⟩ :: h) :=
    fun hc => (hset hc).cons rfl
  rcases a with e | latest
  · cases e <;> exact hset₁
  · show Prog.Obeys _ (Finalizes crash) _ (ite _ _ _) _
    split
    · refine ⟨⟨fun _ _ hne => absurd rfl hne, fun _ _ => ?_, fun hc hdel => ?_⟩, fun w' a' _ => ?_⟩
      · exact hdone.imp (·.cons) (·.cons)
      · exact .inl (hset₁ hc hdel)
      · rcases a' with e | latest'
        · cases e <;> exact fun hc => (hset₁ hc).cons rfl
        · exact fun hc => (hset₁ hc).cons rfl
    · exact hset₁

/-- Once an outcome is known the record says so, or a call has failed. -/
theorem finishDelete_finalizes {status reason message : String} {type : EventType}
    (hm : m.annotationOf annotationKeyStatus ≠ keyStatusDeleted)
    (hst : status = keyStatusDeleted ∨ (status = keyStatusDeleteFailed ∧
      h.Has Made.failsDeletion ∧ (¬ crash → h.Settled))) :
    (finishDelete m status type reason message).Obeys (fun _ => Promised rt) (Finalizes crash)
      (fun (h' : History) _ => ¬ crash → h'.Settled) h := by
  have hobj : (m.withAnnotations [(annotationKeyStatus, status)]).annotationOf
      annotationKeyStatus = status := by
    rw [VirtualMachine.annotationOf_withAnnotations]
    rfl
  have patch : ((patchAnnotations m [(annotationKeyStatus, status)]).attempt : M _).Obeys
      (fun _ => Promised rt) (Finalizes crash) (fun (h' : History) _ =>
        (h'.Recorded ∨ h'.Has Made.failsDeletion) ∧ (¬ crash → h'.Settled)) h := by
    refine Prog.Obeys.attempt ⟨⟨fun _ hfail _ => ?_, fun hin hout => absurd hin hout,
      fun hc hdel => ?_⟩, fun w a ha => ?_⟩
    · rw [hobj] at hfail
      refine ⟨hm, (hst.resolve_left fun h => ?_).2.1⟩
      rw [h] at hfail
      exact absurd hfail (by decide)
    · rw [hobj]
      exact hst.symm.imp (fun hf => hf.2.2 hc hdel) id
    · rcases hst with rfl | ⟨-, hfail, hset⟩
      · have hrec : History.Recorded (⟨w, .patchVM m (m.withAnnotations
            [(annotationKeyStatus, keyStatusDeleted)]), a⟩ :: h) := by
          cases a with
          | ok m' =>
            refine .inl ⟨m', List.mem_cons_self, ?_⟩
            rw [VirtualMachine.annotationOf_eq_getD, ha.2.2 _ (by decide),
              ← VirtualMachine.annotationOf_eq_getD]
            exact hobj
          | error e => exact .inr (History.has_head (by simp [Made.failsRecord, hm, hobj]))
        cases a <;> exact ⟨.inl hrec, fun _ => hrec.settled⟩
      · cases a <;> exact ⟨.inr hfail.cons, fun hc => (hset hc).cons rfl⟩
  refine Prog.Obeys.bind (patch.mono fun h₁ r hdone => ?_)
  cases r with
  | error e => exact hdone.2
  | ok _ =>
    refine ⟨trivial, fun w a _ => removeSaltFinalizer_finalizes ?_ ?_⟩
    · exact hdone.1.imp (·.cons) (·.cons)
    · exact fun hc => (hdone.2 hc).cons rfl

theorem reconcileDelete_finalizes (hvm : h.lastVM = some m) (hset : ¬ crash → h.Settled) :
    (reconcileDelete rt d m cfg).Obeys (fun _ => Promised rt) (Finalizes crash)
      (fun (h' : History) _ => ¬ crash → h'.Settled) h := by
  unfold reconcileDelete
  dsimp only
  split
  · exact hset
  · split
    · rename_i hst
      exact removeSaltFinalizer_finalizes (.inl (.inl ⟨m, lastVM_mem_served hvm, hst⟩)) hset
    · rename_i hst
      refine Prog.Obeys.bind (Prog.Obeys.attempt ?_)
      refine (saltClientFromConfig_settled hset).mono fun h₁ r hq => ?_
      obtain ⟨hq, hset₁⟩ := hq
      cases r with
      | error e => exact ⟨trivial, fun _ _ _ hc => (hset₁ hc).cons rfl⟩
      | ok conn =>
        refine ⟨⟨m, hq.lastVM.trans hvm, hst⟩, fun w a _ => ?_⟩
        cases a with
        | error e =>
          refine ⟨trivial, fun w' _ _ => finishDelete_finalizes hst (.inr ⟨rfl, ?_, fun hc => ?_⟩)⟩
          · exact (History.has_head rfl).cons
          · exact ((hset₁ hc).cons rfl).cons rfl
        | ok u => exact ⟨trivial, fun w' _ _ => finishDelete_finalizes hst (.inl rfl)⟩

/-- **A pass says what it knows of the record**, whatever it is answered, and leaves no
deletion to be recorded. -/
theorem reconcile_finalizes (k : NamespacedName) (hset : ¬ crash → h.Settled) :
    (reconcile rt d k).Obeys (fun _ => Promised rt) (Finalizes crash)
      (fun (h' : History) _ => ¬ crash → h'.Settled) h := by
  refine reconcile_obeys_keeping (I := fun h' => ¬ crash → h'.Settled) hset ?_
    (fun _ _ hI => hI) (fun _ => trivial) (fun _ => trivial) (fun _ _ _ => trivial) ?_ ?_
  · intro h' w o a ho hI hc
    refine (hI hc).cons (deletesKey_eq_false ?_)
    rintro conn minionID rfl
    cases ho
  · exact fun vm cfg h' hc _ hI => reconcileDelete_finalizes hc.lastVM hI
  · intro vm cfg h' hc hdel hI
    -- a pass for a VM that stays neither deletes the key nor takes the finalizer off
    have rule : CreateRule rt d cfg (fun _ => True) (fun _ => Promised rt) (Finalizes crash)
        (fun h => ¬ h.Deletes ∧ (¬ crash → h.Settled)) := by
      refine ⟨fun h o ⟨hno, hset⟩ ho =>
        ⟨?_, fun w a => ⟨?_, fun hc => ?_⟩⟩, fun h ⟨hno, hset⟩ => ?_⟩
      · cases o with
        | patchVM base obj =>
          exact ⟨fun hd => absurd hd hno, fun hin hout => absurd (ho.2 hin) hout,
            fun hc hdel => .inl (hset hc hdel)⟩
        | salt conn c => cases c <;> first | exact trivial | cases ho
        | _ => exact trivial
      · unfold History.Deletes
        rw [passInputs_of_ofCreate ho]
        exact hno
      · refine (hset hc).cons (deletesKey_eq_false ?_)
        rintro conn minionID rfl
        cases ho
      · refine (saltClientFromConfig_settled hset).mono fun h' r hq =>
          ⟨⟨?_, hq.2⟩, fun _ _ => trivial⟩
        unfold History.Deletes
        rw [hq.1.passInputs]
        exact hno
    refine (rule.reconcileCreate ⟨?_, hI⟩).mono fun _ _ hr => hr.2
    rintro ⟨vm', cfg', hi, hdel'⟩
    rw [hc.passInputs] at hi
    cases hi
    rw [hdel] at hdel'
    cases hdel'

end walk

/-- What is recorded as deleted stays so, unless a pass that deletes records a
failure. -/
theorem KeyState.Step.deleted_stays {deleting : Prop} {s s' : KeyState}
    (hs : KeyState.Step deleting s s') (hd : s.status = keyStatusDeleted) :
    s'.status = keyStatusDeleted ∨ (deleting ∧ s'.status = keyStatusDeleteFailed) := by
  cases hs with
  | other => exact .inl hd
  | cleared _ => exact .inl hd
  | failed _ hgone => exact absurd (.inl hd) hgone
  | accepted id method hk _ _ => exact absurd (.inl hd) hk.gone
  | preseeded id hk => exact absurd (.inl hd) hk.gone
  | preseedAccepted hp => exact absurd (hd.symm.trans hp) (by decide)
  | deleted status hdel _ hst => exact hst.imp id fun h => ⟨hdel, h⟩

/-- A failure is recorded by a pass that deletes. -/
theorem KeyState.Step.deleteFailed {deleting : Prop} {s s' : KeyState}
    (hs : KeyState.Step deleting s s') (hf : s'.status = keyStatusDeleteFailed) :
    s.status = keyStatusDeleteFailed ∨ deleting := by
  have others : ∀ status ∈ [keyStatusFailed, keyStatusAccepted, keyStatusPreseeded],
      status ≠ keyStatusDeleteFailed := by decide
  cases hs with
  | other => exact .inl hf
  | cleared _ => exact .inl hf
  | failed _ _ => exact absurd hf (others _ (by simp))
  | accepted id method _ _ _ => exact absurd hf (others _ (by simp))
  | preseeded id _ => exact absurd hf (others _ (by simp))
  | preseedAccepted _ => exact absurd hf (others _ (by simp))
  | deleted status hdel _ _ => exact .inr hdel

/-! ## Runs in which the deletion is recorded -/

/-- No patch of the worker of `k` fails that records a deletion. -/
def DeletionRecorded (k : NamespacedName) : StepCondition := fun c act _ =>
  ∀ o a, act = .call k o a → Made.failsRecord ⟨c.world, o, a⟩ = false

/-- What the calls of a worker say about the deletion of its VM's key. -/
structure DeletionLog (h : History) : Prop where
  recorded : ¬ h.Has Made.failsRecord
  final : h.KeyDeleted → ∀ m, h.lastVM = some m →
    m.annotationOf annotationKeyStatus = keyStatusDeleted
  notFailed : ¬ h.Has Made.failsDeletion →
    ∀ m ∈ h.served, m.annotationOf annotationKeyStatus ≠ keyStatusDeleteFailed
  released : h.Has Made.letsGo → h.KeyDeleted ∨ h.Has Made.failsDeletion

section log

variable {rt : Runtime} {d : Default} {crash : Prop} {k : NamespacedName} {h : History}
  {c : Made}

/-- A call that sends no object adds nothing to the record. -/
theorem DeletionLog.call (hl : DeletionLog h) (hnone : c.vm? = none)
    (hok : c.failsRecord = false) : DeletionLog (c :: h) := by
  have hserved : History.served (c :: h) = h.served := by
    unfold History.served
    rw [List.filterMap_cons, hnone]
  have hstays : c.letsGo = false := by
    obtain ⟨w, o, a⟩ := c
    cases o with
    | patchVM base obj =>
      cases a with
      | ok vm => cases hnone
      | error e => rfl
    | _ => rfl
  refine ⟨?_, fun hd m hm => ?_, fun hno m hm => ?_, fun hgo => ?_⟩
  · rw [History.has_cons_iff hok]
    exact hl.recorded
  · unfold History.KeyDeleted at hd
    rw [hserved] at hd
    refine hl.final hd m ?_
    unfold History.lastVM at hm
    rwa [List.findSome?_cons, hnone] at hm
  · exact hl.notFailed (fun hf => hno hf.cons) m (hserved ▸ hm)
  · exact (hl.released ((History.has_cons_iff hstays).mp hgo)).imp (·.cons) (·.cons)

/-- A call that sends the object `m`. -/
theorem DeletionLog.serve (hl : DeletionLog h) {m : VirtualMachine} (hc : c.vm? = some m)
    (hok : c.failsRecord = false)
    (hfinal : h.KeyDeleted → m.annotationOf annotationKeyStatus = keyStatusDeleted)
    (hnot : ¬ h.Has Made.failsDeletion →
      m.annotationOf annotationKeyStatus ≠ keyStatusDeleteFailed)
    (hgo : c.letsGo = true → h.KeyDeleted ∨ h.Has Made.failsDeletion) : DeletionLog (c :: h) := by
  have hserved : History.served (c :: h) = m :: h.served := by
    unfold History.served
    rw [List.filterMap_cons, hc]
  refine ⟨?_, fun hd m' hm' => ?_, fun hno m' hm' => ?_, fun hx => ?_⟩
  · rw [History.has_cons_iff hok]
    exact hl.recorded
  · obtain rfl : m = m' := by
      unfold History.lastVM at hm'
      rw [List.findSome?_cons, hc] at hm'
      exact Option.some.inj hm'
    obtain ⟨x, hx, hst⟩ := hd
    rw [hserved] at hx
    rcases List.mem_cons.mp hx with rfl | hx
    · exact hst
    · exact hfinal ⟨x, hx, hst⟩
  · have hno' : ¬ h.Has Made.failsDeletion := fun hf => hno hf.cons
    rw [hserved] at hm'
    rcases List.mem_cons.mp hm' with rfl | hm'
    · exact hnot hno'
    · exact hl.notFailed hno' m' hm'
  · refine Or.imp (·.cons) (·.cons) (?_ : h.KeyDeleted ∨ h.Has Made.failsDeletion)
    obtain ⟨x, hx, hx'⟩ := hx
    rcases List.mem_cons.mp hx with rfl | hx
    · exact hgo hx'
    · exact hl.released ⟨x, hx, hx'⟩

/-- A patch leaves a deletion on record, and records a failure after one only. -/
theorem DeletionLog.patch (hl : DeletionLog h) {base obj : VirtualMachine}
    (hp : Permitted rt crash k h (.patchVM base obj)) (hfin : FinalizingPatch crash h base obj)
    (hck : h.CreatesKeyed base) :
    (h.KeyDeleted → obj.annotationOf annotationKeyStatus = keyStatusDeleted) ∧
      (¬ h.Has Made.failsDeletion →
        obj.annotationOf annotationKeyStatus ≠ keyStatusDeleteFailed) := by
  have hstep := hp.keyStep hck
  refine ⟨fun hd => ?_, fun hno hf => ?_⟩
  · have hbase := hl.final hd base hp.1
    refine (hstep.deleted_stays hbase).resolve_right fun ⟨hdel, hf⟩ => ?_
    refine (hfin.failed hdel hf fun heq => ?_).1 hbase
    exact absurd (hf.symm.trans (heq.trans hbase)) (by decide)
  · have hbase := hl.notFailed hno base (lastVM_mem_served hp.1)
    rcases hstep.deleteFailed hf with hb | hdel
    · exact hbase hb
    · exact hno (hfin.failed hdel hf fun heq => hbase (heq ▸ hf)).2

/-- The contract of the workers, with what they know of the record. -/
theorem contract_finalizes (rt : Runtime) (d : Default) (crash : Prop) :
    (cluster rt d notOwn crash).Contract Sound (fun _ _ => Promised rt)
      (fun k h o => Permitted rt crash k h o ∧ Finalizes crash h o)
      (fun _ h r => Ends rt crash h r ∧ (¬ crash → History.Settled h))
      (fun _ h => (crash ∨ History.startPending h = none) ∧ (¬ crash → History.Settled h)) := by
  refine (contract rt d crash).refine ?_ (fun k h _ hset => reconcile_finalizes k hset)
    (fun _ _ _ hset => hset) (fun hc _ _ hno => absurd hc hno)
  rintro - - ⟨m, hm, -⟩
  cases hm

/-- **The log of the worker of `k` is in order** in a run in which its records are
written. -/
theorem deletionLog {c : ClusterCfg}
    (h : (cluster rt d notOwn crash).ReachIf (DeletionRecorded k) c) : DeletionLog (c.hist k) := by
  refine (contract_finalizes rt d crash).invariantIf (K := fun _ H => DeletionLog (H k)) ?_ ?_ ?_ h
  · have none {p : Made → Bool} : ¬ History.Has p [] := by
      rintro ⟨m, hm, -⟩
      cases hm
    exact fun w _ => ⟨none, fun ⟨m, hm, _⟩ => absurd hm List.not_mem_nil, fun _ => nofun,
      fun hgo => absurd hgo none⟩
  · exact fun c w' _ _ _ _ hK => hK
  · intro c t o a w' next hr hth hx ha hs hp hK
    obtain ⟨hp, hfin⟩ := hp
    obtain ⟨hans, rfl⟩ := hx
    rcases eq_or_ne k t with rfl | hne
    · rw [Function.update_self]
      have hok := ha o a rfl
      cases o with
      | getVM key =>
        cases a with
        | error e => exact hK.call rfl hok
        | ok vm =>
          -- the object on the API server is the one sent last, or new
          obtain ⟨rfl, -⟩ := hp
          have hlive : c.world.vms _ = .live vm := hans
          have hcopy : ∀ m, History.lastVM (c.hist _) = some m →
              vm.annotationOf annotationKeyStatus = m.annotationOf annotationKeyStatus :=
            fun m hm => ((hs.copy _ m vm hm hlive).annotationOf (by decide)).symm
          refine hK.serve rfl hok (fun hd => ?_) (fun hno hf => ?_) nofun
          · obtain ⟨m, hm⟩ := exists_lastVM hd.choose_spec.1
            exact (hcopy m hm).trans (hK.final hd m hm)
          · by_cases hnil : History.served (c.hist key) = []
            · have hnew := congrArg KeyState.status ((keyRecord hr hlive).untouched hnil)
              exact absurd (hf.symm.trans hnew) (by decide)
            · obtain ⟨x, hx⟩ := List.exists_mem_of_ne_nil _ hnil
              obtain ⟨m, hm⟩ := exists_lastVM hx
              exact hK.notFailed hno m (lastVM_mem_served hm) ((hcopy m hm).symm.trans hf)
      | patchVM base obj =>
        cases a with
        | error e => exact hK.call rfl hok
        | ok vm =>
          obtain ⟨cur, version, hcur, -, rfl⟩ := hans
          have hown : OwnEq (.patched version base obj cur) obj := hs.patch_own hp hcur
          obtain ⟨hfinal, hnot⟩ := hK.patch hp hfin ((keyLog hr k).creating base hp.1)
          rw [← hown.annotationOf (by decide)] at hfinal hnot
          refine hK.serve rfl hok hfinal hnot fun hgo => ?_
          simp only [Made.letsGo, Bool.and_eq_true, Bool.not_eq_true'] at hgo
          refine (hfin.released (containsFinalizer_iff.mp hgo.1) fun hin => ?_).imp_left
            fun hrec => hrec.resolve_right hK.recorded
          rw [containsFinalizer_iff.mpr hin] at hgo
          cases hgo.2
      | _ => exact hK.call rfl hok
    · rw [Function.update_of_ne hne]
      exact hK

end log

/-- In a run in which no patch for the VM fails that records `Deleted`. If no `DeleteKey`
for it failed, then once its worker has taken the operator's finalizer off, it neither
deletes the key again nor records another `key-status`, and it never records
`DeleteFailed`. Whatever failed: if the operator is not stopped, the worker does not
record `DeleteFailed` after a `DeleteKey` that succeeded. -/
theorem finalization_once {rt : Runtime} {d : Default} {crash : Prop} {c c' : ClusterCfg}
    {k : NamespacedName} {o : Op} {a : o.Ans}
    (h : (cluster rt d notOwn crash).ReachIf (DeletionRecorded k) c)
    (hs : (cluster rt d notOwn crash).Step c (.call k o a) c') :
    ((∀ m ∈ c.hist k, Made.failsDeletion m = false) →
      ((∃ m ∈ c.hist k, Made.letsGo m = true) →
        (∀ conn minionID, o ≠ .salt conn (.deleteKey minionID)) ∧
        ∀ base obj, o = .patchVM base obj →
          obj.annotationOf annotationKeyStatus = base.annotationOf annotationKeyStatus) ∧
      ∀ base obj, o = .patchVM base obj →
        obj.annotationOf annotationKeyStatus ≠ keyStatusDeleteFailed) ∧
    (¬ crash → (∃ m ∈ c.hist k, Made.deletesKey m = true) → ∀ base obj, o = .patchVM base obj →
      obj.annotationOf annotationKeyStatus ≠ keyStatusDeleteFailed) := by
  have hl := deletionLog h
  have hperm : Permitted rt crash k (c.hist k) o ∧ Finalizes crash (c.hist k) o := by
    cases hs with
    | call _ hth _ => exact (contract_finalizes rt d crash).permitted h.reach hth
  have patch {base obj : VirtualMachine} (ho : o = .patchVM base obj) :
      History.lastVM (c.hist k) = some base ∧ FinalizingPatch crash (c.hist k) base obj ∧
      (History.KeyDeleted (c.hist k) →
        obj.annotationOf annotationKeyStatus = keyStatusDeleted) ∧
      (¬ History.Has Made.failsDeletion (c.hist k) →
        obj.annotationOf annotationKeyStatus ≠ keyStatusDeleteFailed) := by
    subst ho
    exact ⟨hperm.1.1, hperm.2,
      hl.patch hperm.1 hperm.2 ((keyLog h.reach k).creating base hperm.1.1)⟩
  refine ⟨fun hno => ?_, fun hc hdel base obj ho => ?_⟩
  · have hno := History.not_has_iff.mpr hno
    refine ⟨fun hgo => ?_, fun base obj ho => (patch ho).2.2.2 hno⟩
    have hdeleted := (hl.released hgo).resolve_right hno
    refine ⟨fun conn minionID ho => ?_, fun base obj ho => ?_⟩
    · subst ho
      obtain ⟨m', hm', hne⟩ := hperm.2
      exact hne (hl.final hdeleted m' hm')
    · obtain ⟨hbase, -, hobj, -⟩ := patch ho
      rw [hobj hdeleted, hl.final hdeleted base hbase]
  · -- the deletion is on record, or this patch is the one that records it
    obtain ⟨-, hfin, hobj, -⟩ := patch ho
    have hst : obj.annotationOf annotationKeyStatus = keyStatusDeleted := by
      rcases hfin.succeeded hc hdel with hrec | hst
      · exact hobj (hrec.resolve_right hl.recorded)
      · exact hst
    rw [hst]
    decide

namespace Sample

/-- A VM that others hold a finalizer on is accepted, and deleted. -/
def heldDeletion : List (Act runtime) :=
  [.create (vm "a" "u1")] ++ work key discovery 40 ++
    [.setFinalizers key ["other"], .delete key time]

/-- Whether a step of a run records the deletion that it is to record. -/
def deletionRecorded (c : ClusterCfg) : ClusterAction → ClusterCfg → Bool
  | .call _ o a, _ => !Made.failsRecord ⟨c.world, o, a⟩
  | _, _ => true

theorem deletionRecorded_sound {c c' : ClusterCfg} {act : ClusterAction}
    (h : deletionRecorded c act c' = true) : DeletionRecorded key c act c' := by
  rintro o a rfl
  simpa [deletionRecorded] using h

end Sample

/-- RaaS deletes the key, the operator lets the VM go and comes by once more: its next
call deletes nothing. RaaS refuses first and deletes the key in the next pass: the
operator does not record that as a failure. -/
theorem finalization_once_held :
    (∃ c c' o a,
      (cluster Sample.runtime Sample.noDefault notOwn True).ReachIf
        (DeletionRecorded Sample.key) c ∧
      (∀ m ∈ c.hist Sample.key, Made.failsDeletion m = false) ∧
      (∃ m ∈ c.hist Sample.key, Made.letsGo m = true) ∧
      (cluster Sample.runtime Sample.noDefault notOwn True).Step c (.call Sample.key o a) c' ∧
      ∀ conn minionID, o ≠ .salt conn (.deleteKey minionID)) ∧
    ∃ c c' base obj a,
      (cluster Sample.runtime Sample.noDefault notOwn False).ReachIf
        (DeletionRecorded Sample.key) c ∧
      (∃ m ∈ c.hist Sample.key, Made.failsDeletion m = true) ∧
      (∃ m ∈ c.hist Sample.key, Made.deletesKey m = true) ∧
      (cluster Sample.runtime Sample.noDefault notOwn False).Step c
        (.call Sample.key (.patchVM base obj) a) c' ∧
      obj.annotationOf annotationKeyStatus ≠ keyStatusDeleteFailed := by
  constructor
  · have hrun : (runActs Sample.noDefault notOwn True Sample.deletionRecorded
        (Sample.heldDeletion ++ work Sample.key Sample.discovery 20)
        (.start Sample.time Sample.secrets)).any (fun c =>
          (c.hist Sample.key).all (fun m => !Made.failsDeletion m) &&
          (c.hist Sample.key).any Made.letsGo &&
          (c.threads Sample.key).any fun p => !p.isDone) = true := by
      decide +kernel
    obtain ⟨c, hc, hcheck⟩ :=
      exists_reachIf_of_run (fun _ _ _ _ h => Sample.deletionRecorded_sound h) hrun
    simp only [Bool.and_eq_true] at hcheck
    obtain ⟨⟨hno, hgo⟩, hpending⟩ := hcheck
    have hno : ∀ m ∈ c.hist Sample.key, Made.failsDeletion m = false := by
      simpa using hno
    have hgo := List.any_eq_true.mp hgo
    obtain ⟨p, hth, hp⟩ := (Option.any_eq_true _ _).mp hpending
    cases p with
    | ret res => cases hp
    | fail e => cases hp
    | call o next =>
      have hs : (cluster Sample.runtime Sample.noDefault notOwn True).Step c
          (.call Sample.key o (serve Sample.discovery c.world o)) _ :=
        .call Sample.key hth ⟨serve_answers _ _ _, rfl⟩
      exact ⟨c, _, o, _, hc, hno, hgo, hs, (((finalization_once hc hs).1 hno).1 hgo).1⟩
  · have hrun : (runActs Sample.noDefault notOwn False Sample.deletionRecorded
        (Sample.heldDeletion ++ work Sample.key Sample.outage 21 ++
          work Sample.key Sample.discovery 2)
        (.start Sample.time Sample.secrets)).any (fun c =>
          (c.hist Sample.key).any Made.failsDeletion &&
          (c.hist Sample.key).any Made.deletesKey &&
          (c.pendingPatch Sample.key).any fun _ => true) = true := by
      decide +kernel
    obtain ⟨c, hc, hcheck⟩ :=
      exists_reachIf_of_run (fun _ _ _ _ h => Sample.deletionRecorded_sound h) hrun
    simp only [Bool.and_eq_true] at hcheck
    obtain ⟨⟨hfailed, hdeleted⟩, hpending⟩ := hcheck
    have hdeleted := List.any_eq_true.mp hdeleted
    obtain ⟨base, obj, next, hth, -⟩ := ClusterCfg.pendingPatch_any hpending
    have hs : (cluster Sample.runtime Sample.noDefault notOwn False).Step c
        (.call Sample.key (.patchVM base obj)
          (serve Sample.discovery c.world (.patchVM base obj))) _ :=
      .call Sample.key hth ⟨serve_answers _ _ _, rfl⟩
    exact ⟨c, _, base, obj, _, hc, List.any_eq_true.mp hfailed, hdeleted, hs,
      (finalization_once hc hs).2 not_false hdeleted base obj rfl⟩

/-- RaaS refuses to delete the key: the operator lets the VM go all the same, and deletes
the key in its next pass. -/
theorem finalization_twice : ∃ c c' conn,
    (cluster Sample.runtime Sample.noDefault notOwn True).Reach c ∧
    (∃ m ∈ c.hist Sample.key, Made.letsGo m = true) ∧
    (cluster Sample.runtime Sample.noDefault notOwn True).Step c
      (.call Sample.key (.salt conn (.deleteKey "web")) (.ok ())) c' := by
  have hrun : (Sample.play (Sample.heldDeletion ++ work Sample.key Sample.outage 21)).any (fun c =>
        (c.hist Sample.key).any Made.letsGo &&
        (c.pendingSalt Sample.key).any fun p => p.2 = .deleteKey "web") = true := by
    decide +kernel
  obtain ⟨c, hc, hcheck⟩ := Sample.exists_reach hrun
  obtain ⟨hgo, hpending⟩ := (Bool.and_eq_true _ _).mp hcheck
  obtain ⟨m, hm, hgo⟩ := List.any_eq_true.mp hgo
  obtain ⟨conn, call, next, hth, hcall⟩ := ClusterCfg.pendingSalt_any hpending
  obtain rfl : call = .deleteKey "web" := by simpa using hcall
  have hdeleted : SaltCall.Returns Sample.runtime (.deleteKey "web") (.ok ()) :=
    Sample.raas_returns [] (.deleteKey "web")
  exact ⟨c, _, conn, hc, ⟨m, hm, hgo⟩, .call Sample.key hth ⟨hdeleted, rfl⟩⟩

end SaltOperator
