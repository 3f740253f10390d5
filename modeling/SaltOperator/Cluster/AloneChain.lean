import SaltOperator.Cluster.AlonePass
import SaltOperator.Cluster.ChainPasses

/-!
# A pass by itself: the chain

What the steps of the chain leave on their VM, when nobody else acts meanwhile.
Each lemma lists what a step can write and return, with the answers it takes to
get there: `Got ok o bad` says that the call `o` was answered, within `ok`, by one
of the `bad` answers. A step also leaves everything but its VM alone, the cache of
clients and a Secret that has to be cleared apart (`Wrote`).
-/

namespace SaltOperator

/-- A call can be answered, within `ok`, by one of the `bad` answers. -/
def Got (ok : AnswerCondition) (o : Op) (bad : o.Ans → Prop) : Prop := ∃ w a, ok w o a ∧ bad a

/-- The VM got these annotations, and nothing else happened that lasts. -/
def Wrote (w : World) (vm : VirtualMachine) (additions : List (String × String)) (w' : World) :
    Prop :=
  ∃ version cache secrets,
    w' = { w.setVM vm.key (.live (vm.written additions version)) with cache, secrets } ∧
      (¬ vm.ClearDue → secrets = w.secrets)

/-- What `clearPreseedKey` adds to a VM. -/
def clearing (vm : VirtualMachine) : List (String × String) :=
  if vm.ClearDue then clearedMarker else []

section chain

variable {rt : Runtime} {ok : AnswerCondition} {w w' : World} {h h' : History} {α : Type}
  {r : Except String Result} {vm : VirtualMachine} {cfg : SaltKeyConfig} {d : Default}
  {conn : Connection} {minionID : String} {requeueAfter : Duration}

theorem VirtualMachine.written_nil : vm.written [] vm.resourceVersion = vm := rfl

theorem VirtualMachine.written_written (more additions : List (String × String)) (v v' : Nat) :
    (vm.written additions v).written more v' = vm.written (additions ++ more) v' := by
  unfold VirtualMachine.written VirtualMachine.withAnnotations
  rw [StringMap.copy_append]

theorem wrote_nil {cache : NamespacedName → Option CacheEntry} (hcur : w.vms vm.key = .live vm) :
    Wrote w vm [] { w with cache } := by
  refine ⟨vm.resourceVersion, cache, w.secrets, ?_, fun _ => rfl⟩
  rw [VirtualMachine.written_nil, World.setVM, ← hcur, Function.update_eq_self]

theorem Wrote.of_cache {cache : NamespacedName → Option CacheEntry}
    {additions : List (String × String)} (hw : Wrote { w with cache } vm additions w') :
    Wrote w vm additions w' := by
  obtain ⟨version, cache', secrets, rfl, hs⟩ := hw
  exact ⟨version, cache', secrets, rfl, hs⟩

/-- A step that clears the Secret first. -/
theorem ClearedIf.wrote {m : VirtualMachine} {w₁ : World} {additions : List (String × String)}
    (hc : ClearedIf vm.ClearDue w vm m w₁) (hw : Wrote w₁ m additions w') :
    Wrote w vm (clearing vm ++ additions) w' := by
  rcases hc with ⟨hno, rfl, rfl⟩ | ⟨hdue, version, rfl, rfl⟩
  · rwa [clearing, if_neg hno]
  · obtain ⟨version', cache, secrets, rfl, -⟩ := hw
    refine ⟨version', cache, secrets, ?_, fun hno => absurd hdue hno⟩
    rw [clearing, if_pos hdue, VirtualMachine.written_written]
    simp only [World.setVM, World.clearKey, VirtualMachine.key_written, Function.update_idem]

/-- A patch in the middle of a step. -/
theorem Prog.Runs.write {additions : List (String × String)} {r : Except String α}
    {f : VirtualMachine → M α} (hcur : w.vms vm.key = .live vm) (hdel : vm.deleting = false)
    (hr : (patchAnnotations vm additions >>= f).Runs (Served rt ok) w h r w' h') :
    (∃ e, r = .error e ∧ ¬ Clean ok) ∨ ∃ version h₁,
      (f (vm.written additions version)).Runs (Served rt ok)
        (w.setVM vm.key (.live (vm.written additions version))) h₁ r w' h' := by
  rcases hr.bind_cases fun _ _ _ => runs_patchAnnotations hcur with
    ⟨e, rfl, hbad, -⟩ | ⟨m, w₁, h₁, ⟨version, rfl, rfl⟩, hr⟩
  · exact .inl ⟨e, rfl, hbad⟩
  · rw [settled_present (VirtualMachine.deleting_written.trans hdel)] at hr
    exact .inr ⟨version, h₁, hr⟩

/-- The usual end of a step: a patch, an event and a result. -/
theorem Prog.Runs.writeEnd {additions : List (String × String)} {type : EventType}
    {reason message : String} {res : Result} {cache : NamespacedName → Option CacheEntry}
    (hcur : w.vms vm.key = .live vm) (hdel : vm.deleting = false)
    (hr : (do
      let vm ← patchAnnotations vm additions
      recordEvent vm type reason message
      return res : M Result).Runs (Served rt ok) { w with cache } h r w' h') :
    (∃ e, r = .error e ∧ ¬ Clean ok) ∨ (r = .ok res ∧ Wrote w vm additions w') := by
  rcases Prog.Runs.write (w := { w with cache }) hcur hdel hr with hbad | ⟨version, h₁, hr⟩
  · exact .inl hbad
  · obtain ⟨h₂, hr⟩ := Prog.Runs.event hr
    obtain ⟨rfl, rfl, -⟩ := Prog.runs_ret.mp hr
    exact .inr ⟨rfl, version, cache, w.secrets, rfl, fun _ => rfl⟩

/-! ## The steps -/

theorem runs_refreshPillarFailed {masterBefore : String} {started : Time}
    {outcome : Except String Bool} (hcur : w.vms vm.key = .live vm) (hdel : vm.deleting = false)
    (hr : (refreshPillarFailed rt vm conn minionID masterBefore started outcome).Runs
      (Served rt ok) w h r w' h') :
    (∃ e, r = .error e ∧ ¬ Clean ok) ∨
    (r = .ok ⟨60 * Go.second⟩ ∧ Wrote w vm [] w') ∨
    (r = .ok {} ∧ Wrote w vm
      [(annotationSaltStatus, saltStatusFailedPillarRefresh), (annotationReady, annotationFalse)]
      w') := by
  obtain ⟨silent, cache, h₁, hr⟩ := hr.quiet_bind masterSilence_quiet masterSilence_noFail
  obtain ⟨h₂, hr⟩ := Prog.Runs.log hr
  obtain ⟨h₃, hr⟩ := Prog.Runs.now hr
  split at hr
  · obtain ⟨h₄, hr⟩ := Prog.Runs.log hr
    obtain ⟨h₅, hr⟩ := Prog.Runs.event hr
    obtain ⟨rfl, rfl, -⟩ := Prog.runs_ret.mp hr
    exact .inr (.inl ⟨rfl, wrote_nil hcur⟩)
  · rcases Prog.Runs.writeEnd hcur hdel hr with hbad | hend
    · exact .inl hbad
    · exact .inr (.inr hend)

theorem runs_pingFailed {masterBefore : String} {started : Time} {outcome : Except String Bool}
    (hcur : w.vms vm.key = .live vm) (hdel : vm.deleting = false)
    (hr : (pingFailed rt vm conn minionID masterBefore started outcome).Runs
      (Served rt ok) w h r w' h') :
    (∃ e, r = .error e ∧ ¬ Clean ok) ∨
    (r = .ok ⟨60 * Go.second⟩ ∧ Wrote w vm [] w') ∨
    (r = .ok {} ∧ Wrote w vm (clearing vm ++
      [(annotationSaltStatus, saltStatusFailedPing), (annotationReady, annotationFalse)]) w') := by
  obtain ⟨silent, cache, h₁, hr⟩ := hr.quiet_bind masterSilence_quiet masterSilence_noFail
  obtain ⟨h₂, hr⟩ := Prog.Runs.log hr
  obtain ⟨h₃, hr⟩ := Prog.Runs.now hr
  split at hr
  · obtain ⟨h₄, hr⟩ := Prog.Runs.log hr
    obtain ⟨h₅, hr⟩ := Prog.Runs.event hr
    obtain ⟨rfl, rfl, -⟩ := Prog.runs_ret.mp hr
    exact .inr (.inl ⟨rfl, wrote_nil hcur⟩)
  · rcases hr.bind_cases fun _ _ _ => runs_clearPreseedKey hcur hdel with
      ⟨e, rfl, hbad⟩ | ⟨m, w₁, h₄, hc, hr⟩
    · exact .inl ⟨e, rfl, hbad⟩
    · rcases Prog.Runs.writeEnd (hc.current hcur) (hc.deleting.trans hdel) hr with
        hbad | ⟨hres, hw⟩
      · exact .inl hbad
      · exact .inr (.inr ⟨hres, (hc.wrote hw).of_cache⟩)

theorem runs_runPing (hcur : w.vms vm.key = .live vm) (hdel : vm.deleting = false)
    (hr : (runPing rt vm conn minionID requeueAfter).Runs (Served rt ok) w h r w' h') :
    (∃ e, r = .error e ∧ ¬ Clean ok) ∨
    (r = .ok ⟨requeueAfter⟩ ∧
      Wrote w vm (clearing vm ++ [(annotationSaltStatus, saltStatusPinged)]) w') ∨
    (Got ok (.salt conn (.testPing minionID)) (fun a => a ≠ (Except.ok true : Except String Bool)) ∧
      ((r = .ok ⟨60 * Go.second⟩ ∧ Wrote w vm [] w') ∨
      (r = .ok {} ∧ Wrote w vm (clearing vm ++
        [(annotationSaltStatus, saltStatusFailedPing),
          (annotationReady, annotationFalse)]) w'))) := by
  obtain ⟨h₁, hr⟩ := Prog.Runs.log hr
  obtain ⟨seen, cache, h₂, hr⟩ := hr.quiet_bind masterLastSeen_quiet masterLastSeen_noFail
  obtain ⟨h₃, hr⟩ := Prog.Runs.now hr
  obtain ⟨a, w₁, ⟨-, hok, rfl⟩, hr⟩ := Prog.runs_perform_bind.mp hr
  have failed : a ≠ (Except.ok true : Except String Bool) →
      Got ok (.salt conn (.testPing minionID))
        (fun a => a ≠ (Except.ok true : Except String Bool)) :=
    fun ha => ⟨_, a, hok, ha⟩
  rcases a with e | _ | _
  case ok.true =>
    obtain ⟨h₄, hr⟩ := Prog.Runs.log hr
    rcases hr.bind_cases fun _ _ _ => runs_clearPreseedKey hcur hdel with
      ⟨e, rfl, hbad⟩ | ⟨m, w₁, h₄, hc, hr⟩
    · exact .inl ⟨e, rfl, hbad⟩
    · rcases Prog.Runs.writeEnd (hc.current hcur) (hc.deleting.trans hdel) hr with
        hbad | ⟨hres, hw⟩
      · exact .inl hbad
      · exact .inr (.inl ⟨hres, (hc.wrote hw).of_cache⟩)
  all_goals
    rcases runs_pingFailed (w := { w with cache }) hcur hdel hr with hbad | ⟨hres, hw⟩ | ⟨hres, hw⟩
    · exact .inl hbad
    · exact .inr (.inr ⟨failed nofun, .inl ⟨hres, hw.of_cache⟩⟩)
    · exact .inr (.inr ⟨failed nofun, .inr ⟨hres, hw.of_cache⟩⟩)

theorem runs_runRefreshPillar (hcur : w.vms vm.key = .live vm) (hdel : vm.deleting = false)
    (hr : (runRefreshPillar rt vm conn minionID requeueAfter).Runs (Served rt ok) w h r w' h') :
    (∃ e, r = .error e ∧ ¬ Clean ok) ∨
    (r = .ok ⟨requeueAfter⟩ ∧ Wrote w vm [(annotationSaltStatus, saltStatusPillarRefreshed)] w') ∨
    (Got ok (.salt conn (.refreshPillar minionID))
      (fun a => a ≠ (Except.ok true : Except String Bool)) ∧
      ((r = .ok ⟨60 * Go.second⟩ ∧ Wrote w vm [] w') ∨
      (r = .ok {} ∧ Wrote w vm
        [(annotationSaltStatus, saltStatusFailedPillarRefresh), (annotationReady, annotationFalse)]
        w'))) := by
  obtain ⟨h₁, hr⟩ := Prog.Runs.log hr
  obtain ⟨seen, cache, h₂, hr⟩ := hr.quiet_bind masterLastSeen_quiet masterLastSeen_noFail
  obtain ⟨h₃, hr⟩ := Prog.Runs.now hr
  obtain ⟨a, w₁, ⟨-, hok, rfl⟩, hr⟩ := Prog.runs_perform_bind.mp hr
  have failed : a ≠ (Except.ok true : Except String Bool) →
      Got ok (.salt conn (.refreshPillar minionID))
        (fun a => a ≠ (Except.ok true : Except String Bool)) :=
    fun ha => ⟨_, a, hok, ha⟩
  rcases a with e | _ | _
  case ok.true =>
    obtain ⟨h₄, hr⟩ := Prog.Runs.log hr
    rcases Prog.Runs.writeEnd hcur hdel hr with hbad | hend
    · exact .inl hbad
    · exact .inr (.inl hend)
  all_goals
    rcases runs_refreshPillarFailed (w := { w with cache }) hcur hdel hr with
      hbad | ⟨hres, hw⟩ | ⟨hres, hw⟩
    · exact .inl hbad
    · exact .inr (.inr ⟨failed nofun, .inl ⟨hres, hw.of_cache⟩⟩)
    · exact .inr (.inr ⟨failed nofun, .inr ⟨hres, hw.of_cache⟩⟩)

/-- A highstate was dispatched for the minion. -/
def History.Dispatched (h : History) (minionID jid : String) : Prop :=
  ∃ w conn, (⟨w, .salt conn (.dispatchHighstate minionID), .ok jid⟩ : Made) ∈ h

theorem runs_runDispatchHighstate (hcur : w.vms vm.key = .live vm) (hdel : vm.deleting = false)
    (hr : (runDispatchHighstate rt vm conn minionID requeueAfter).Runs (Served rt ok) w h r w' h') :
    (∃ e, r = .error e ∧ ¬ Clean ok) ∨
    (∃ jid, History.Dispatched h' minionID jid ∧ r = .ok ⟨requeueAfter⟩ ∧ Wrote w vm
      [(annotationSaltStatus, saltStatusHighstateDispatched), (annotationHighstateJID, jid),
       (annotationHighstateStatus, highstateInProgress), (annotationReady, annotationFalse),
       (annotationRolesHash, computeIntentHash rt vm.annotations)] w') ∨
    (Got ok (.salt conn (.dispatchHighstate minionID))
        (fun a => ∃ e, a = (Except.error e : Except String String)) ∧
      r = .ok {} ∧ Wrote w vm
        [(annotationSaltStatus, saltStatusFailedHighstateDispatch),
         (annotationReady, annotationFalse)] w') := by
  obtain ⟨h₁, hr⟩ := Prog.Runs.log hr
  obtain ⟨a, w₁, ⟨-, hok, rfl⟩, hr⟩ := Prog.runs_perform_bind.mp hr
  cases a with
  | error e =>
    obtain ⟨h₂, hr⟩ := Prog.Runs.log hr
    rcases Prog.Runs.writeEnd hcur hdel hr with hbad | ⟨hres, hw⟩
    · exact .inl hbad
    · exact .inr (.inr ⟨⟨_, _, hok, e, rfl⟩, hres, hw⟩)
  | ok jid =>
    have hcall : History.Dispatched h' minionID jid :=
      ⟨_, _, hr.suffix.subset (List.mem_cons_self ..)⟩
    rcases Prog.Runs.write hcur hdel hr with hbad | ⟨version, h₂, hr⟩
    · exact .inl hbad
    · obtain ⟨h₃, hr⟩ := Prog.Runs.log hr
      obtain ⟨h₄, hr⟩ := Prog.Runs.event hr
      obtain ⟨rfl, rfl, -⟩ := Prog.runs_ret.mp hr
      exact .inr (.inl ⟨jid, hcall, rfl, version, w.cache, w.secrets, rfl, fun _ => rfl⟩)

/-- What `runPollHighstate` writes about a job that is done. -/
def highstatePatch (rt : Runtime) (now : String) (result : JIDResult) : List (String × String) :=
  if result.highstateOK then
    [(annotationSaltStatus, saltStatusReady), (annotationReady, annotationTrue),
     (annotationHighstateStatus, highstateSuccess), (annotationHighstateTime, now),
     (annotationHighstateFailedCount, "0"), (annotationHighstateFailedStates, "")]
  else
    [(annotationSaltStatus, saltStatusFailedHighstate), (annotationReady, annotationFalse),
     (annotationHighstateStatus, highstateFailed), (annotationHighstateTime, now),
     (annotationHighstateFailedCount, toString (result.failedStateIDs rt).length),
     (annotationHighstateFailedStates, Go.join "," (result.failedStateIDs rt))]

theorem runs_recordHighstate {jid : String} {result : JIDResult}
    (hcur : w.vms vm.key = .live vm) (hdel : vm.deleting = false)
    (hr : (recordHighstate rt vm minionID jid result requeueAfter).Runs
      (Served rt ok) w h r w' h') :
    (∃ e, r = .error e ∧ ¬ Clean ok) ∨
    ∃ res now, r = .ok res ∧ Wrote w vm (highstatePatch rt now result) w' := by
  obtain ⟨now, cache, h₁, hr⟩ := hr.quiet_bind nowText_quiet fun _ => trivial
  unfold highstatePatch
  split at hr
  · rename_i hdone
    simp only [hdone, if_true]
    obtain ⟨h₂, hr⟩ := Prog.Runs.log hr
    rcases Prog.Runs.writeEnd hcur hdel hr with hbad | ⟨hres, hw⟩
    · exact .inl hbad
    · exact .inr ⟨_, now, hres, hw⟩
  · rename_i hdone
    simp only [hdone]
    obtain ⟨h₂, hr⟩ := Prog.Runs.log hr
    rcases Prog.Runs.writeEnd hcur hdel hr with hbad | ⟨hres, hw⟩
    · exact .inl hbad
    · exact .inr ⟨_, now, hres, hw⟩

theorem runs_runPollHighstate {jid : String} (hcur : w.vms vm.key = .live vm)
    (hdel : vm.deleting = false)
    (hr : (runPollHighstate rt vm conn minionID jid requeueAfter).Runs (Served rt ok) w h r w' h') :
    (∃ e, r = .error e ∧ ¬ Clean ok) ∨
    (∃ result now res, Got ok (.salt conn (.pollJID minionID jid))
        (fun a => a = (Except.ok (some result) : Except String (Option JIDResult))) ∧
      jid ≠ "" ∧ r = .ok res ∧ Wrote w vm (highstatePatch rt now result) w') ∨
    ((jid = "" ∨ Got ok (.salt conn (.pollJID minionID jid))
        (fun a => ∀ result, a ≠ (Except.ok (some result) : Except String (Option JIDResult)))) ∧
      r = .ok ⟨requeueAfter⟩ ∧ Wrote w vm [] w') := by
  unfold runPollHighstate at hr
  split at hr
  · rename_i hjid
    obtain ⟨h₁, hr⟩ := Prog.Runs.log hr
    obtain ⟨rfl, rfl, -⟩ := Prog.runs_ret.mp hr
    exact .inr (.inr ⟨.inl hjid, rfl, wrote_nil hcur⟩)
  · rename_i hjid
    obtain ⟨a, w₁, ⟨-, hok, rfl⟩, hr⟩ := Prog.runs_perform_bind.mp hr
    rcases a with e | _ | result
    · obtain ⟨h₁, hr⟩ := Prog.Runs.log hr
      obtain ⟨rfl, rfl, -⟩ := Prog.runs_ret.mp hr
      exact .inr (.inr ⟨.inr ⟨_, _, hok, nofun⟩, rfl, wrote_nil hcur⟩)
    · obtain ⟨h₁, hr⟩ := Prog.Runs.log hr
      obtain ⟨rfl, rfl, -⟩ := Prog.runs_ret.mp hr
      exact .inr (.inr ⟨.inr ⟨_, _, hok, nofun⟩, rfl, wrote_nil hcur⟩)
    · rcases runs_recordHighstate hcur hdel hr with hbad | ⟨res, now, hres, hw⟩
      · exact .inl hbad
      · exact .inr (.inl ⟨result, now, res, ⟨_, _, hok, rfl⟩, hjid, hres, hw⟩)

/-! ## Starting the chain again -/

/-- What `runDay2` can write and return, `markers` apart. -/
inductive Day2Patch (ok : AnswerCondition) (conn : Connection) (minionID : String)
    (requeueAfter : Duration) (h' : History) : List (String × String) → Result → Prop where
  | refreshFailed : Got ok (.salt conn (.refreshPillar minionID))
        (fun a => a ≠ (Except.ok true : Except String Bool)) →
      Day2Patch ok conn minionID requeueAfter h'
        [(annotationSaltStatus, saltStatusFailedPillarRefresh),
          (annotationReady, annotationFalse)] {}
  | dispatchFailed : Got ok (.salt conn (.dispatchHighstate minionID))
        (fun a => ∃ e, a = (Except.error e : Except String String)) →
      Day2Patch ok conn minionID requeueAfter h'
        [(annotationSaltStatus, saltStatusFailedHighstateDispatch),
         (annotationReady, annotationFalse)] {}
  | dispatched (jid : String) : History.Dispatched h' minionID jid →
      Day2Patch ok conn minionID requeueAfter h'
        [(annotationSaltStatus, saltStatusHighstateDispatched), (annotationHighstateJID, jid),
         (annotationHighstateStatus, highstateInProgress), (annotationReady, annotationFalse)]
        ⟨requeueAfter⟩

theorem runs_runDay2 {markers : List (String × String)} (hcur : w.vms vm.key = .live vm)
    (hdel : vm.deleting = false)
    (hr : (runDay2 vm conn minionID markers requeueAfter).Runs (Served rt ok) w h r w' h') :
    (∃ e, r = .error e ∧ ¬ Clean ok) ∨
    ∃ patch res, Day2Patch ok conn minionID requeueAfter h' patch res ∧ r = .ok res ∧
      Wrote w vm (withMarkers markers patch) w' := by
  obtain ⟨seen, cache, h₂, hr⟩ := hr.quiet_bind masterLastSeen_quiet masterLastSeen_noFail
  obtain ⟨h₃, hr⟩ := Prog.Runs.now hr
  obtain ⟨a, w₁, ⟨-, hok, rfl⟩, hr⟩ := Prog.runs_perform_bind.mp hr
  have failed : a ≠ (Except.ok true : Except String Bool) →
      Got ok (.salt conn (.refreshPillar minionID))
        (fun a => a ≠ (Except.ok true : Except String Bool)) :=
    fun ha => ⟨_, a, hok, ha⟩
  rcases a with e | _ | _
  case ok.true =>
    obtain ⟨a, w₁, ⟨-, hok, rfl⟩, hr⟩ := Prog.runs_perform_bind.mp hr
    cases a with
    | error e =>
      obtain ⟨h₄, hr⟩ := Prog.Runs.log hr
      rcases Prog.Runs.writeEnd hcur hdel hr with hbad | ⟨hres, hw⟩
      · exact .inl hbad
      · exact .inr ⟨_, _, .dispatchFailed ⟨_, _, hok, e, rfl⟩, hres, hw⟩
    | ok jid =>
      have hcall : History.Dispatched h' minionID jid :=
        ⟨_, _, hr.suffix.subset (List.mem_cons_self ..)⟩
      rcases Prog.Runs.write (w := { w with cache }) hcur hdel hr with hbad | ⟨version, h₄, hr⟩
      · exact .inl hbad
      · obtain ⟨h₅, hr⟩ := Prog.Runs.log hr
        obtain ⟨h₆, hr⟩ := Prog.Runs.event hr
        obtain ⟨rfl, rfl, -⟩ := Prog.runs_ret.mp hr
        exact .inr ⟨_, _, .dispatched jid hcall, rfl, version, cache, w.secrets, rfl, fun _ => rfl⟩
  all_goals
    obtain ⟨silent, cache', h₅, hr⟩ := hr.quiet_bind masterSilence_quiet masterSilence_noFail
    obtain ⟨h₆, hr⟩ := Prog.Runs.log hr
    rcases Prog.Runs.writeEnd hcur hdel hr with hbad | ⟨hres, hw⟩
    · exact .inl hbad
    · exact .inr ⟨_, _, .refreshFailed (failed nofun), hres, hw⟩

theorem runs_restartFirstChain (hcur : w.vms vm.key = .live vm) (hdel : vm.deleting = false)
    (hr : (restartFirstChain vm cfg minionID requeueAfter).Runs (Served rt ok) w h r w' h') :
    (∃ e, r = .error e ∧ ¬ Clean ok) ∨
    ((retryRequested vm = true ∨ bulkChanged vm cfg = true) ∧ r = .ok ⟨requeueAfter⟩ ∧
      Wrote w vm ([(annotationSaltStatus, ""), (annotationReady, annotationFalse)] ++
        handledMarkers vm cfg) w') ∨
    ((retryRequested vm = false ∧ bulkChanged vm cfg = false) ∧ r = .ok {} ∧ Wrote w vm [] w') := by
  unfold restartFirstChain at hr
  split at hr
  · rename_i hno
    obtain ⟨rfl, rfl, -⟩ := Prog.runs_ret.mp hr
    exact .inr (.inr ⟨by simpa using hno, rfl, wrote_nil hcur⟩)
  · rename_i hyes
    obtain ⟨h₁, hr⟩ := Prog.Runs.log hr
    rcases Prog.Runs.writeEnd hcur hdel hr with hbad | ⟨hres, hw⟩
    · exact .inl hbad
    · refine .inr (.inl ⟨?_, hres, hw⟩)
      cases hretry : retryRequested vm <;> simp_all

theorem runs_resetChain (hcur : w.vms vm.key = .live vm) (hdel : vm.deleting = false)
    (hr : (resetChain rt vm cfg minionID requeueAfter).Runs (Served rt ok) w h r w' h') :
    (∃ e, r = .error e ∧ ¬ Clean ok) ∨ (r = .ok ⟨requeueAfter⟩ ∧ Wrote w vm
      ([(annotationSaltStatus, ""), (annotationReady, annotationFalse),
        (annotationHighstateStatus, ""),
        (annotationRolesHash, computeIntentHash rt vm.annotations)] ++
          handledMarkers vm cfg) w') := by
  obtain ⟨h₁, hr⟩ := Prog.Runs.log hr
  exact Prog.Runs.writeEnd hcur hdel hr

theorem runs_startDay2 {seen : VirtualMachine} (hcur : w.vms vm.key = .live vm)
    (hdel : vm.deleting = false)
    (hr : (startDay2 rt vm seen conn cfg minionID requeueAfter).Runs (Served rt ok) w h r w' h') :
    (∃ e, r = .error e ∧ ¬ Clean ok) ∨
    ∃ patch res, Day2Patch ok conn minionID requeueAfter h' patch res ∧ r = .ok res ∧
      Wrote w vm (withMarkers (day2Markers rt seen cfg) patch) w' := by
  obtain ⟨h₁, hr⟩ := Prog.Runs.log hr
  exact runs_runDay2 hcur hdel hr

/-- What `noteBulkToken` adds to a VM. -/
def noting (vm : VirtualMachine) (cfg : SaltKeyConfig) : List (String × String) :=
  if bulkChanged vm cfg then [(annotationBulkRetryHandled, cfg.spec.retryToken)] else []

/-- One of the causes a chain start consumes is there. -/
def triggered (rt : Runtime) (vm : VirtualMachine) (cfg : SaltKeyConfig) : Bool :=
  intentChanged rt vm || retryRequested vm || bulkChanged vm cfg && vm.chainFailed

/-- `reconverge` asks for it the other way round. -/
theorem triggered_eq : triggered rt vm cfg = !(!intentChanged rt vm && !retryRequested vm &&
    (!bulkChanged vm cfg || !vm.chainFailed)) := by
  simp [triggered, Bool.not_and, Bool.not_or, Bool.or_assoc]

/-- The recorded hash is one of an older version, of the roles as they are. -/
def adopts (rt : Runtime) (vm : VirtualMachine) : Bool :=
  vm.annotationOf annotationRolesHash ≠ "" &&
    !Go.hasPrefix (vm.annotationOf annotationRolesHash) intentHashVersion &&
    computeLegacyRolesHash rt (vm.annotationOf annotationRoles) =
      vm.annotationOf annotationRolesHash

/-- What a pass over a VM whose chain is at rest can write and return, at the time
`now`. -/
inductive Reconverges (rt : Runtime) (ok : AnswerCondition) (vm : VirtualMachine)
    (conn : Connection)
    (cfg : SaltKeyConfig) (minionID : String) (now : Time) (h' : History) :
    List (String × String) → Result → Prop where
  /-- no highstate so far, and no failure -/
  | idle : vm.annotationOf annotationRolesHash = "" → vm.chainFailed = false →
      Reconverges rt ok vm conn cfg minionID now h' [] {}
  /-- a failure before the first highstate, and nothing asks for a retry -/
  | unasked : vm.annotationOf annotationRolesHash = "" → vm.chainFailed = true →
      retryRequested vm = false → bulkChanged vm cfg = false →
      Reconverges rt ok vm conn cfg minionID now h' [] {}
  | restarted : vm.annotationOf annotationRolesHash = "" → vm.chainFailed = true →
      retryRequested vm = true ∨ bulkChanged vm cfg = true →
      Reconverges rt ok vm conn cfg minionID now h'
        ([(annotationSaltStatus, ""), (annotationReady, annotationFalse)] ++ handledMarkers vm cfg)
        ⟨cfg.requeueAfter⟩
  | adopted : adopts rt vm = true →
      Reconverges rt ok vm conn cfg minionID now h'
        [(annotationRolesHash, computeIntentHash rt vm.annotations)] {}
  /-- nothing asks for another run, and none is scheduled -/
  | settled : vm.annotationOf annotationRolesHash ≠ "" → adopts rt vm = false →
      triggered rt vm cfg = false → vm.annotationOf annotationSaltStatus ≠ saltStatusReady →
      Reconverges rt ok vm conn cfg minionID now h' (noting vm cfg) {}
  | waits (wait : Duration) : vm.annotationOf annotationRolesHash ≠ "" → adopts rt vm = false →
      triggered rt vm cfg = false → vm.annotationOf annotationSaltStatus = saltStatusReady →
      enforcementDue rt cfg vm.uid (vm.annotationOf annotationHighstateTime) now = (false, wait) →
      Reconverges rt ok vm conn cfg minionID now h' (noting vm cfg) ⟨wait⟩
  | enforced (patch : List (String × String)) (res : Result) :
      vm.annotationOf annotationRolesHash ≠ "" → adopts rt vm = false →
      triggered rt vm cfg = false → vm.annotationOf annotationSaltStatus = saltStatusReady →
      (enforcementDue rt cfg vm.uid (vm.annotationOf annotationHighstateTime) now).1 = true →
      Day2Patch ok conn minionID cfg.requeueAfter h' patch res →
      Reconverges rt ok vm conn cfg minionID now h'
        (noting vm cfg ++ withMarkers (day2Markers rt vm cfg) patch) res
  | reset : vm.annotationOf annotationRolesHash ≠ "" → adopts rt vm = false →
      triggered rt vm cfg = true → vm.chainFailed = true →
      Reconverges rt ok vm conn cfg minionID now h'
        ([(annotationSaltStatus, ""), (annotationReady, annotationFalse),
          (annotationHighstateStatus, ""),
          (annotationRolesHash, computeIntentHash rt vm.annotations)] ++ handledMarkers vm cfg)
        ⟨cfg.requeueAfter⟩
  | day2 (patch : List (String × String)) (res : Result) :
      vm.annotationOf annotationRolesHash ≠ "" → adopts rt vm = false →
      triggered rt vm cfg = true → vm.chainFailed = false →
      Day2Patch ok conn minionID cfg.requeueAfter h' patch res →
      Reconverges rt ok vm conn cfg minionID now h' (withMarkers (day2Markers rt vm cfg) patch) res

theorem runs_noteBulkToken {r : Except String VirtualMachine} (hcur : w.vms vm.key = .live vm)
    (hdel : vm.deleting = false)
    (hr : (noteBulkToken vm cfg).Runs (Served rt ok) w h r w' h') :
    (∃ e, r = .error e ∧ ¬ Clean ok) ∨ ∃ m, r = .ok m ∧ ∃ version,
      m = vm.written (noting vm cfg) version ∧ w' = w.setVM vm.key (.live m) := by
  unfold noteBulkToken at hr
  unfold noting
  split at hr
  · rename_i hbulk
    rw [if_pos hbulk]
    rcases runs_patchAnnotations hcur hr with ⟨e, rfl, hbad, -⟩ | ⟨m, rfl, version, rfl, rfl⟩
    · exact .inl ⟨e, rfl, hbad⟩
    · refine .inr ⟨_, rfl, version, rfl, ?_⟩
      rw [settled_present (VirtualMachine.deleting_written.trans hdel)]
  · rename_i hbulk
    rw [if_neg hbulk]
    obtain ⟨rfl, rfl, -⟩ := Prog.runs_ret.mp hr
    refine .inr ⟨_, rfl, vm.resourceVersion, VirtualMachine.written_nil.symm, ?_⟩
    rw [World.setVM, ← hcur, Function.update_eq_self]

/-- A patch, and then another. -/
theorem Wrote.then {additions more : List (String × String)} {version : Nat}
    (hw : Wrote (w.setVM vm.key (.live (vm.written additions version)))
      (vm.written additions version) more w') (hdue : ∀ a ∈ [annotationMatchMethod,
        annotationKeyCleared], (additions.reverse.lookup a) = none) :
    Wrote w vm (additions ++ more) w' := by
  obtain ⟨version', cache, secrets, rfl, hs⟩ := hw
  refine ⟨version', cache, secrets, ?_, fun hno => hs ?_⟩
  · rw [VirtualMachine.written_written]
    simp only [World.setVM, VirtualMachine.key_written, Function.update_idem]
  · unfold VirtualMachine.ClearDue at hno ⊢
    rw [VirtualMachine.annotationOf_written, VirtualMachine.annotationOf_written,
      hdue _ (by simp), hdue _ (by simp)]
    exact hno

theorem runs_awaitEnforcement (hcur : w.vms vm.key = .live vm) (hdel : vm.deleting = false)
    (hhash : vm.annotationOf annotationRolesHash ≠ "") (hadopt : adopts rt vm = false)
    (hno : triggered rt vm cfg = false)
    (hr : (awaitEnforcement rt vm conn cfg minionID cfg.requeueAfter).Runs (Served rt ok)
      w h r w' h') :
    (∃ e, r = .error e ∧ ¬ Clean ok) ∨ ∃ additions res,
      Reconverges rt ok vm conn cfg minionID w.now h' additions res ∧ r = .ok res ∧
      Wrote w vm additions w' := by
  rcases hr.bind_cases fun _ _ _ => runs_noteBulkToken hcur hdel with
    ⟨e, rfl, hbad⟩ | ⟨m, w₁, h₁, ⟨version, rfl, rfl⟩, hr⟩
  · exact .inl ⟨e, rfl, hbad⟩
  · have hnoted : Wrote w vm (noting vm cfg)
        (w.setVM vm.key (.live (vm.written (noting vm cfg) version))) :=
      ⟨version, w.cache, w.secrets, rfl, fun _ => rfl⟩
    split at hr
    · rename_i hst
      obtain ⟨rfl, rfl, -⟩ := Prog.runs_ret.mp hr
      exact .inr ⟨_, _, .settled hhash hadopt hno hst, rfl, hnoted⟩
    · rename_i hst
      have hst' : vm.annotationOf annotationSaltStatus = saltStatusReady := not_not.mp hst
      obtain ⟨h₂, hr⟩ := Prog.Runs.now hr
      have hdue : enforcementDue rt cfg (vm.written (noting vm cfg) version).uid
          (vm.annotationOf annotationHighstateTime)
          (w.setVM vm.key (.live (vm.written (noting vm cfg) version))).now =
          enforcementDue rt cfg vm.uid (vm.annotationOf annotationHighstateTime) w.now := rfl
      rw [hdue] at hr
      cases hq : enforcementDue rt cfg vm.uid (vm.annotationOf annotationHighstateTime) w.now with
      | mk due wait =>
        rw [hq] at hr
        cases due with
        | false =>
          obtain ⟨rfl, rfl, -⟩ := Prog.runs_ret.mp hr
          exact .inr ⟨_, _, .waits wait hhash hadopt hno hst' hq, rfl, hnoted⟩
        | true =>
          obtain ⟨h₃, hr⟩ := Prog.Runs.log hr
          rcases runs_startDay2 (World.setVM_self ..)
            (VirtualMachine.deleting_written.trans hdel) hr
            with hbad | ⟨patch, res, hp, hres, hw⟩
          · exact .inl hbad
          · refine .inr
              ⟨_, res, .enforced patch res hhash hadopt hno hst' (by rw [hq]) hp, hres, ?_⟩
            refine hw.then fun a ha => ?_
            unfold noting
            split
            · fin_cases ha <;> rfl
            · rfl

theorem runs_reconverge (hcur : w.vms vm.key = .live vm) (hdel : vm.deleting = false)
    (hhash : vm.annotationOf annotationRolesHash ≠ "") (hadopt : adopts rt vm = false)
    (hr : (reconverge rt vm conn cfg minionID cfg.requeueAfter).Runs (Served rt ok) w h r w' h') :
    (∃ e, r = .error e ∧ ¬ Clean ok) ∨ ∃ additions res,
      Reconverges rt ok vm conn cfg minionID w.now h' additions res ∧ r = .ok res ∧
      Wrote w vm additions w' := by
  unfold reconverge at hr
  split at hr
  · rename_i hno
    refine runs_awaitEnforcement hcur hdel hhash hadopt ?_ hr
    rw [triggered_eq, hno]
    rfl
  · rename_i hyes
    have htrig : triggered rt vm cfg = true := by
      rw [triggered_eq, Bool.eq_false_iff.mpr hyes]
      rfl
    split at hr
    · rename_i hfailed
      rcases runs_resetChain hcur hdel hr with hbad | ⟨hres, hw⟩
      · exact .inl hbad
      · exact .inr ⟨_, _, .reset hhash hadopt htrig hfailed, hres, hw⟩
    · rename_i hfailed
      rcases runs_startDay2 hcur hdel hr with hbad | ⟨patch, res, hp, hres, hw⟩
      · exact .inl hbad
      · exact .inr ⟨_, _, .day2 patch res hhash hadopt htrig (by simpa using hfailed) hp, hres, hw⟩

theorem runs_adoptLegacyIntentHash {r : Except String Bool} {stored : String}
    (hcur : w.vms vm.key = .live vm) (hdel : vm.deleting = false)
    (hr : (adoptLegacyIntentHash rt vm stored).Runs (Served rt ok) w h r w' h') :
    (∃ e, r = .error e ∧ ¬ Clean ok) ∨ ∃ done, r = .ok done ∧
      ((computeLegacyRolesHash rt (vm.annotationOf annotationRoles) = stored ∧ done = true ∧
        Wrote w vm [(annotationRolesHash, computeIntentHash rt vm.annotations)] w') ∨
      (computeLegacyRolesHash rt (vm.annotationOf annotationRoles) ≠ stored ∧ done = false ∧
        w' = w)) := by
  unfold adoptLegacyIntentHash at hr
  split at hr
  · rename_i hne
    obtain ⟨rfl, rfl, -⟩ := Prog.runs_ret.mp hr
    exact .inr ⟨_, rfl, .inr ⟨hne, rfl, rfl⟩⟩
  · rename_i heq
    obtain ⟨h₁, hr⟩ := Prog.Runs.log hr
    rcases Prog.Runs.write hcur hdel hr with hbad | ⟨version, h₂, hr⟩
    · exact .inl hbad
    · obtain ⟨rfl, rfl, -⟩ := Prog.runs_ret.mp hr
      exact .inr ⟨_, rfl, .inl ⟨not_not.mp heq, rfl, version, w.cache, w.secrets, rfl,
        fun _ => rfl⟩⟩

/-- What a pass over a VM whose chain is at rest does. -/
theorem runs_checkReconvergence (hcur : w.vms vm.key = .live vm) (hdel : vm.deleting = false)
    (hr : (checkReconvergence rt vm conn cfg minionID cfg.requeueAfter).Runs (Served rt ok)
      w h r w' h') :
    (∃ e, r = .error e ∧ ¬ Clean ok) ∨ ∃ additions res,
      Reconverges rt ok vm conn cfg minionID w.now h' additions res ∧ r = .ok res ∧
      Wrote w vm additions w' := by
  unfold checkReconvergence at hr
  dsimp only at hr
  split at hr
  · rename_i hhash
    split at hr
    · rename_i hfailed
      obtain ⟨rfl, rfl, -⟩ := Prog.runs_ret.mp hr
      exact .inr ⟨_, _, .idle hhash (by simpa using hfailed), rfl, wrote_nil hcur⟩
    · rename_i hfailed
      have hfailed' : vm.chainFailed = true := by simpa using hfailed
      rcases runs_restartFirstChain hcur hdel hr with
        hbad | ⟨hask, hres, hw⟩ | ⟨⟨hretry, hbulk⟩, hres, hw⟩
      · exact .inl hbad
      · exact .inr ⟨_, _, .restarted hhash hfailed' hask, hres, hw⟩
      · exact .inr ⟨_, _, .unasked hhash hfailed' hretry hbulk, hres, hw⟩
  · rename_i hhash
    split at hr
    · rename_i hversion
      rcases hr.bind_cases fun _ _ _ => runs_adoptLegacyIntentHash hcur hdel with
        ⟨e, rfl, hbad⟩ | ⟨done, w₁, h₁, ⟨hlegacy, rfl, hw⟩ | ⟨hlegacy, rfl, rfl⟩, hrest⟩
      · exact .inl ⟨e, rfl, hbad⟩
      · obtain ⟨rfl, rfl, -⟩ := Prog.runs_ret.mp hrest
        refine .inr ⟨_, _, .adopted ?_, rfl, hw⟩
        unfold adopts
        rw [hversion, decide_eq_true hhash, decide_eq_true hlegacy]
        rfl
      · refine runs_reconverge hcur hdel hhash ?_ hrest
        simp [adopts, hlegacy]
    · rename_i hversion
      refine runs_reconverge hcur hdel hhash ?_ hr
      unfold adopts
      rw [Bool.eq_false_iff.mpr hversion, Bool.and_false, Bool.false_and]

/-- What a pass over an accepted VM can write and return, at the time `now`. -/
inductive ChainStep (rt : Runtime) (ok : AnswerCondition) (vm : VirtualMachine) (conn : Connection)
    (cfg : SaltKeyConfig) (now : Time) (h' : History) :
    List (String × String) → Result → Prop where
  | noMinion : vm.annotationOf annotationMinionID = "" → ChainStep rt ok vm conn cfg now h' [] {}
  | connecting : vm.annotationOf annotationSaltStatus = "" → 0 < connectDelay rt now vm →
      ChainStep rt ok vm conn cfg now h' [] ⟨connectDelay rt now vm⟩
  | pinged : vm.annotationOf annotationSaltStatus = "" →
      ChainStep rt ok vm conn cfg now h' (clearing vm ++ [(annotationSaltStatus, saltStatusPinged)])
        ⟨cfg.requeueAfter⟩
  | pingFailed (additions : List (String × String)) (res : Result) :
      vm.annotationOf annotationSaltStatus = "" →
      Got ok (.salt conn (.testPing (vm.annotationOf annotationMinionID)))
        (fun a => a ≠ (Except.ok true : Except String Bool)) →
      ChainStep rt ok vm conn cfg now h' additions res
  | refreshed : vm.annotationOf annotationSaltStatus = saltStatusPinged →
      ChainStep rt ok vm conn cfg now h' [(annotationSaltStatus, saltStatusPillarRefreshed)]
        ⟨cfg.requeueAfter⟩
  | refreshFailed (additions : List (String × String)) (res : Result) :
      vm.annotationOf annotationSaltStatus = saltStatusPinged →
      Got ok (.salt conn (.refreshPillar (vm.annotationOf annotationMinionID)))
        (fun a => a ≠ (Except.ok true : Except String Bool)) →
      ChainStep rt ok vm conn cfg now h' additions res
  | dispatched (jid : String) : vm.annotationOf annotationSaltStatus = saltStatusPillarRefreshed →
      History.Dispatched h' (vm.annotationOf annotationMinionID) jid →
      ChainStep rt ok vm conn cfg now h'
        [(annotationSaltStatus, saltStatusHighstateDispatched), (annotationHighstateJID, jid),
         (annotationHighstateStatus, highstateInProgress), (annotationReady, annotationFalse),
         (annotationRolesHash, computeIntentHash rt vm.annotations)] ⟨cfg.requeueAfter⟩
  | dispatchFailed (additions : List (String × String)) (res : Result) :
      vm.annotationOf annotationSaltStatus = saltStatusPillarRefreshed →
      Got ok (.salt conn (.dispatchHighstate (vm.annotationOf annotationMinionID)))
        (fun a => ∃ e, a = (Except.error e : Except String String)) →
      ChainStep rt ok vm conn cfg now h' additions res
  | polled (result : JIDResult) (time : String) (res : Result) :
      vm.annotationOf annotationSaltStatus = saltStatusHighstateDispatched →
      vm.annotationOf annotationHighstateJID ≠ "" →
      Got ok (.salt conn (.pollJID (vm.annotationOf annotationMinionID)
          (vm.annotationOf annotationHighstateJID)))
        (fun a => a = (Except.ok (some result) : Except String (Option JIDResult))) →
      ChainStep rt ok vm conn cfg now h' (highstatePatch rt time result) res
  | unfinished : vm.annotationOf annotationSaltStatus = saltStatusHighstateDispatched →
      vm.annotationOf annotationHighstateJID = "" ∨
        Got ok (.salt conn (.pollJID (vm.annotationOf annotationMinionID)
            (vm.annotationOf annotationHighstateJID)))
          (fun a => ∀ result, a ≠ (Except.ok (some result) : Except String (Option JIDResult))) →
      ChainStep rt ok vm conn cfg now h' [] ⟨cfg.requeueAfter⟩
  | atRest (additions : List (String × String)) (res : Result) :
      vm.annotationOf annotationMinionID ≠ "" → vm.annotationOf annotationSaltStatus ∉
        ["", saltStatusPinged, saltStatusPillarRefreshed, saltStatusHighstateDispatched] →
      Reconverges rt ok vm conn cfg (vm.annotationOf annotationMinionID) now h' additions res →
      ChainStep rt ok vm conn cfg now h' additions res

/-- **What a pass over an accepted VM does.** -/
theorem runs_reconcilePostAccept (hcur : w.vms vm.key = .live vm) (hdel : vm.deleting = false)
    (hr : (reconcilePostAccept rt vm conn cfg (vm.annotationOf annotationMinionID)
      cfg.requeueAfter).Runs (Served rt ok) w h r w' h') :
    (∃ e, r = .error e ∧ ¬ Clean ok) ∨ ∃ additions res,
      ChainStep rt ok vm conn cfg w.now h' additions res ∧ r = .ok res ∧
      Wrote w vm additions w' := by
  unfold reconcilePostAccept at hr
  split at hr
  · rename_i hid
    obtain ⟨h₁, hr⟩ := Prog.Runs.log hr
    obtain ⟨rfl, rfl, -⟩ := Prog.runs_ret.mp hr
    exact .inr ⟨_, _, .noMinion hid, rfl, wrote_nil hcur⟩
  rename_i hid
  split at hr
  · rename_i hst
    obtain ⟨h₁, hr⟩ := Prog.Runs.now hr
    dsimp only at hr
    split at hr
    · rename_i hwait
      obtain ⟨h₂, hr⟩ := Prog.Runs.log hr
      obtain ⟨rfl, rfl, -⟩ := Prog.runs_ret.mp hr
      exact .inr ⟨_, _, .connecting hst hwait, rfl, wrote_nil hcur⟩
    · rcases runs_runPing hcur hdel hr with
        hbad | ⟨hres, hw⟩ | ⟨hgot, ⟨hres, hw⟩ | ⟨hres, hw⟩⟩
      · exact .inl hbad
      · exact .inr ⟨_, _, .pinged hst, hres, hw⟩
      · exact .inr ⟨_, _, .pingFailed _ _ hst hgot, hres, hw⟩
      · exact .inr ⟨_, _, .pingFailed _ _ hst hgot, hres, hw⟩
  split at hr
  · rename_i hst
    rcases runs_runRefreshPillar hcur hdel hr with
      hbad | ⟨hres, hw⟩ | ⟨hgot, ⟨hres, hw⟩ | ⟨hres, hw⟩⟩
    · exact .inl hbad
    · exact .inr ⟨_, _, .refreshed hst, hres, hw⟩
    · exact .inr ⟨_, _, .refreshFailed _ _ hst hgot, hres, hw⟩
    · exact .inr ⟨_, _, .refreshFailed _ _ hst hgot, hres, hw⟩
  split at hr
  · rename_i hst
    rcases runs_runDispatchHighstate hcur hdel hr with
      hbad | ⟨jid, hcall, hres, hw⟩ | ⟨hgot, hres, hw⟩
    · exact .inl hbad
    · exact .inr ⟨_, _, .dispatched jid hst hcall, hres, hw⟩
    · exact .inr ⟨_, _, .dispatchFailed _ _ hst hgot, hres, hw⟩
  split at hr
  · rename_i hst
    rcases runs_runPollHighstate hcur hdel hr with
      hbad | ⟨result, time, res, hgot, hjid, hres, hw⟩ | ⟨hno, hres, hw⟩
    · exact .inl hbad
    · exact .inr ⟨_, _, .polled result time res hst hjid hgot, hres, hw⟩
    · exact .inr ⟨_, _, .unfinished hst hno, hres, hw⟩
  · rename_i hempty hpinged hrefreshed hdispatched
    rcases runs_checkReconvergence hcur hdel hr with hbad | ⟨additions, res, hstep, hres, hw⟩
    · exact .inl hbad
    · refine .inr ⟨_, _, .atRest additions res hid ?_ hstep, hres, hw⟩
      simp [hempty, hpinged, hrefreshed, hdispatched]

/-! ## What the chain leaves alone -/

/-- A patch leaves alone what makes the VM one the operator looks after. -/
def Unchanging (additions : List (String × String)) : Prop :=
  ∀ a ∈ [annotationManaged, annotationKeyStatus, annotationMinionID, annotationRetryRequest],
    additions.reverse.lookup a = none

theorem unchanging_append {patch more : List (String × String)} (hp : Unchanging patch)
    (hm : Unchanging more) : Unchanging (patch ++ more) := by
  intro a ha
  rw [List.reverse_append, List.lookup_append, hp a ha, hm a ha]
  rfl

theorem unchanging_handled : Unchanging (handledMarkers vm cfg) := by
  intro a ha
  have hne : ∀ a ∈ [annotationManaged, annotationKeyStatus, annotationMinionID,
      annotationRetryRequest], a ≠ annotationRetryHandled ∧ a ≠ annotationBulkRetryHandled := by
    decide
  exact lookup_handledMarkers (hne a ha).1 (hne a ha).2

theorem withMarkers_eq (patch : List (String × String)) :
    withMarkers (day2Markers rt vm cfg) patch =
    patch ++ [(annotationRolesHash, computeIntentHash rt vm.annotations)] ++
      handledMarkers vm cfg := by
  simp [withMarkers, day2Markers]

theorem Day2Patch.unchanging {patch : List (String × String)} {res : Result}
    (hp : Day2Patch ok conn minionID requeueAfter h' patch res) :
    Unchanging (withMarkers (day2Markers rt vm cfg) patch) := by
  rw [withMarkers_eq]
  refine unchanging_append (unchanging_append ?_ fun a ha => ?_) unchanging_handled
  · intro a ha
    cases hp with
    | refreshFailed => fin_cases ha <;> rfl
    | dispatchFailed => fin_cases ha <;> rfl
    | dispatched jid => fin_cases ha <;> rfl
  · fin_cases ha <;> rfl

theorem unchanging_noting : Unchanging (noting vm cfg) := by
  intro a ha
  unfold noting
  split
  · fin_cases ha <;> rfl
  · rfl

theorem unchanging_clearing {patch : List (String × String)} (hp : Unchanging patch) :
    Unchanging (clearing vm ++ patch) := by
  refine unchanging_append (fun a ha => ?_) hp
  unfold clearing clearedMarker
  split
  · fin_cases ha <;> rfl
  · rfl

theorem Reconverges.unchanging {now : Time} {additions : List (String × String)} {res : Result}
    (hstep : Reconverges rt ok vm conn cfg minionID now h' additions res) :
    Unchanging additions := by
  cases hstep with
  | idle => exact fun _ _ => rfl
  | unasked => exact fun _ _ => rfl
  | restarted =>
    refine unchanging_append (fun a ha => ?_) unchanging_handled
    fin_cases ha <;> rfl
  | adopted =>
    intro a ha
    fin_cases ha <;> rfl
  | settled => exact unchanging_noting
  | waits => exact unchanging_noting
  | enforced patch res _ _ _ _ _ hp => exact unchanging_append unchanging_noting hp.unchanging
  | reset =>
    refine unchanging_append (fun a ha => ?_) unchanging_handled
    fin_cases ha <;> rfl
  | day2 patch res _ _ _ _ hp => exact hp.unchanging

/-- A pass over an accepted VM leaves alone what made it one. -/
theorem runs_reconcilePostAccept_unchanging (hcur : w.vms vm.key = .live vm)
    (hdel : vm.deleting = false)
    (hr : (reconcilePostAccept rt vm conn cfg minionID cfg.requeueAfter).Runs (Served rt ok)
      w h r w' h') :
    (∃ e, r = .error e ∧ ¬ Clean ok) ∨ ∃ additions, Unchanging additions ∧
      Wrote w vm additions w' := by
  have hnil : Unchanging [] := fun _ _ => rfl
  unfold reconcilePostAccept at hr
  split at hr
  · obtain ⟨h₁, hr⟩ := Prog.Runs.log hr
    obtain ⟨-, rfl, -⟩ := Prog.runs_ret.mp hr
    exact .inr ⟨_, hnil, wrote_nil hcur⟩
  split at hr
  · obtain ⟨h₁, hr⟩ := Prog.Runs.now hr
    dsimp only at hr
    split at hr
    · obtain ⟨h₂, hr⟩ := Prog.Runs.log hr
      obtain ⟨-, rfl, -⟩ := Prog.runs_ret.mp hr
      exact .inr ⟨_, hnil, wrote_nil hcur⟩
    · rcases runs_runPing hcur hdel hr with hbad | ⟨-, hw⟩ | ⟨-, ⟨-, hw⟩ | ⟨-, hw⟩⟩
      · exact .inl hbad
      · refine .inr ⟨_, unchanging_clearing fun a ha => ?_, hw⟩
        fin_cases ha <;> rfl
      · exact .inr ⟨_, hnil, hw⟩
      · refine .inr ⟨_, unchanging_clearing fun a ha => ?_, hw⟩
        fin_cases ha <;> rfl
  split at hr
  · rcases runs_runRefreshPillar hcur hdel hr with hbad | ⟨-, hw⟩ | ⟨-, ⟨-, hw⟩ | ⟨-, hw⟩⟩
    · exact .inl hbad
    · refine .inr ⟨_, fun a ha => ?_, hw⟩
      fin_cases ha <;> rfl
    · exact .inr ⟨_, hnil, hw⟩
    · refine .inr ⟨_, fun a ha => ?_, hw⟩
      fin_cases ha <;> rfl
  split at hr
  · rcases runs_runDispatchHighstate hcur hdel hr with hbad | ⟨jid, -, -, hw⟩ | ⟨-, -, hw⟩
    · exact .inl hbad
    · refine .inr ⟨_, fun a ha => ?_, hw⟩
      fin_cases ha <;> rfl
    · refine .inr ⟨_, fun a ha => ?_, hw⟩
      fin_cases ha <;> rfl
  split at hr
  · rcases runs_runPollHighstate hcur hdel hr with
      hbad | ⟨result, time, res, -, -, -, hw⟩ | ⟨-, -, hw⟩
    · exact .inl hbad
    · refine .inr ⟨_, fun a ha => ?_, hw⟩
      unfold highstatePatch
      split <;> fin_cases ha <;> rfl
    · exact .inr ⟨_, hnil, hw⟩
  · rcases runs_checkReconvergence hcur hdel hr with hbad | ⟨additions, res, hstep, -, hw⟩
    · exact .inl hbad
    · exact .inr ⟨_, hstep.unchanging, hw⟩

/-! ## The whole pass -/

/-- What a pass has made of the VM when it comes to the chain: its Secret is cleared if
that was due, and it has the finalizer. -/
structure Readied (vm m : VirtualMachine) : Prop where
  key : m.key = vm.key
  uid : m.uid = vm.uid
  labels : m.labels = vm.labels
  deleting : m.deleting = vm.deleting
  annotations : ∀ a, a ≠ annotationKeyCleared → m.annotations[a]? = vm.annotations[a]?

theorem Readied.annotationOf {m : VirtualMachine} (hm : Readied vm m) {a : String}
    (ha : a ≠ annotationKeyCleared) : m.annotationOf a = vm.annotationOf a :=
  VirtualMachine.annotationOf_congr (hm.annotations a ha)

section cleared

variable {due : Prop} {m : VirtualMachine}

theorem ClearedIf.readied (hc : ClearedIf due w vm m w') (version : Nat) :
    Readied vm (m.finalized version) := by
  rcases hc with ⟨-, rfl, -⟩ | ⟨-, version', rfl, -⟩
  · exact ⟨VirtualMachine.key_finalized, VirtualMachine.uid_finalized,
      VirtualMachine.labels_finalized, VirtualMachine.deleting_finalized,
      fun a _ => by rw [VirtualMachine.annotations_finalized]⟩
  · refine ⟨VirtualMachine.key_finalized, VirtualMachine.uid_finalized,
      VirtualMachine.labels_finalized, VirtualMachine.deleting_finalized, fun a ha => ?_⟩
    rw [VirtualMachine.annotations_finalized]
    show (vm.annotations.insert annotationKeyCleared annotationTrue)[a]? = _
    rw [Std.ExtTreeMap.getElem?_insert, if_neg]
    simpa [Std.LawfulEqCmp.compare_eq_iff_eq] using ha.symm

theorem ClearedIf.connects (hc : ClearedIf due w vm m w') :
    w'.Connects rt d cfg ↔ w.Connects rt d cfg := by
  rcases hc with ⟨-, rfl, rfl⟩ | ⟨-, version', rfl, rfl⟩
  · exact Iff.rfl
  · exact connects_clearKey w vm.key.bootstrap

theorem ClearedIf.world (hc : ClearedIf due w vm m w') (hcur : w.vms vm.key = .live vm) :
    ∃ secrets, w' = { w.setVM vm.key (.live m) with secrets } := by
  rcases hc with ⟨-, rfl, rfl⟩ | ⟨-, version', rfl, rfl⟩
  · refine ⟨w'.secrets, ?_⟩
    rw [World.setVM, ← hcur, Function.update_eq_self]
  · exact ⟨_, rfl⟩

end cleared

/-- **What a pass over an accepted VM does**: it fails, for want of a client if no call
fails, or takes the chain one step further. -/
theorem runs_accepted {k : NamespacedName} (hfresh : Fresh ok) (hg : Governed w k vm cfg)
    (hkey : vm.key = k) (hdel : vm.deleting = false) (hsel : matchesVMSelector rt cfg vm = true)
    (hacc : vm.annotationOf annotationKeyStatus = keyStatusAccepted)
    (hr : (reconcile rt d k).Runs (Served rt ok) w h r w' h') :
    (∃ e, r = .error e ∧ (Clean ok → ¬ w.Connects rt d cfg ∧ ∃ m cache secrets, Readied vm m ∧
      w' = { w.setVM k (.live m) with cache, secrets })) ∨
    ∃ m conn additions res version cache secrets, Readied vm m ∧
      (Clean ok → w.Connects rt d cfg) ∧ ChainStep rt ok m conn cfg w.now h' additions res ∧
      r = .ok res ∧
      w' = { w.setVM k (.live (m.written additions version)) with cache, secrets } := by
  subst hkey
  rcases runs_reconcile hfresh hg.live hr with ⟨e, rfl, hbad, -⟩ | ⟨hno, -, -⟩ | ⟨cfg', h₁, hg', hr⟩
  · exact .inl ⟨e, rfl, fun hclean => absurd hclean.reads hbad⟩
  · exact absurd hg (hno cfg)
  obtain rfl : cfg = cfg' := Option.some.inj (hg.config.symm.trans hg'.config)
  rw [if_neg (by simp [hdel]), if_neg (by simp [hsel])] at hr
  rcases runs_reconcileCreate hg.live hdel hr with ⟨e, rfl, hbad⟩ | ⟨m, w₁, h₂, hc, hr⟩
  · exact .inl ⟨e, rfl, fun hclean => absurd hclean hbad⟩
  have hacc' : m.annotationOf annotationKeyStatus = keyStatusAccepted := by
    rw [hc.annotationOf (by decide), hacc]
  rw [if_neg (not_not.mpr hacc')] at hr
  have hconn : w₁.Connects rt d cfg ↔ w.Connects rt d cfg := hc.connects
  obtain ⟨secrets, hw₁⟩ := hc.world hg.live
  rcases runs_reconcileAccepted (hc.current hg.live) (hc.deleting.trans hdel) hr with
    ⟨e, rfl, hbad⟩ | ⟨version, ⟨e, cache, rfl, hno, rfl⟩ | ⟨conn, cache, h₃, hyes, hr⟩⟩
  · exact .inl ⟨e, rfl, fun hclean => absurd hclean hbad⟩
  · refine .inl ⟨e, rfl, fun hclean => ⟨fun hc' => hno hclean (hconn.mpr hc'), ?_⟩⟩
    refine ⟨_, cache, secrets, hc.readied version, ?_⟩
    rw [hw₁, hc.key]
    simp only [World.setVM, Function.update_idem]
  · have hid : m.annotationOf annotationMinionID =
        (m.finalized version).annotationOf annotationMinionID :=
      (VirtualMachine.annotationOf_finalized _).symm
    rw [hid] at hr
    rcases runs_reconcilePostAccept (VirtualMachine.key_finalized ▸ World.setVM_self ..)
        (VirtualMachine.deleting_finalized.trans (hc.deleting.trans hdel)) hr with
      ⟨e, rfl, hbad⟩ | ⟨additions, res, hstep, rfl, version', cache', secrets', rfl, -⟩
    · exact .inl ⟨e, rfl, fun hclean => absurd hclean hbad⟩
    · refine .inr ⟨_, conn, additions, res, version', cache', secrets', hc.readied version,
        fun hclean => hconn.mp (hyes hclean), ?_, rfl, ?_⟩
      · rw [hw₁] at hstep
        exact hstep
      · rw [hw₁]
        simp only [World.setVM, VirtualMachine.key_finalized, hc.key, Function.update_idem]

end chain

end SaltOperator
