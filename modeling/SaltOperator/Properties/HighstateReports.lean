import SaltOperator.Cluster.AloneChain
import SaltOperator.Cluster.Run

/-!
# What is recorded of a highstate

When a highstate is done, `runPollHighstate` records whether it succeeded from two
scalar fields of the result, `success` and `retcode`, and which states failed from
the map of states the job returned. `Reports` says that a VM shows what is in that
map.

**It does exactly when no state has failed if the scalars report a success, or if
the result of some state does not decode** (`highstate_reports_iff`): nothing makes
the two verdicts agree, and a map that does not decode counts as one without
failures.
-/

namespace SaltOperator

/-- Every poll of a job is answered with this response. -/
def Polled (response : HttpResponse) : AnswerCondition
  | _, .salt _ (.pollJID minionID jid), a => a = pollJID minionID jid (.ok response)
  | _, _, _ => True

/-- The state `id` of the map has a false, null or missing result. -/
def HasFailed (rt : Runtime) (ret : Json) (id : String) : Prop :=
  ∃ state, ret.get? id = some state ∧ stateResult rt state = some false

/-- The VM shows what is in the map of states. -/
structure Reports (rt : Runtime) (ret : Json) (vm : VirtualMachine) : Prop where
  ready : vm.annotationOf annotationSaltStatus = saltStatusReady →
    (∀ id, ¬ HasFailed rt ret id) ∧ vm.annotationOf annotationHighstateFailedCount = "0"
  failed : vm.annotationOf annotationSaltStatus ≠ saltStatusReady →
    vm.annotationOf annotationSaltStatus = saltStatusFailedHighstate ∧
      ∃ ids : List String, ids.Pairwise (· < ·) ∧ (∀ id, id ∈ ids ↔ HasFailed rt ret id) ∧
        vm.annotationOf annotationHighstateFailedCount = toString ids.length ∧
        vm.annotationOf annotationHighstateFailedStates = Go.join "," ids

/-- The result of every state decodes. -/
def Decodes (rt : Runtime) (ret : Json) : Prop :=
  ∀ id state, ret.get? id = some state → stateResult rt state ≠ none

section entries

variable {j : Json} {k : String} {v : Json}

theorem Json.mem_keys_of_get? {members : List (String × Json)}
    (h : (Json.obj members).get? k = some v) : k ∈ members.map Prod.fst := by
  obtain ⟨l₁, l₂, hl, -⟩ := List.lookup_eq_some_iff.mp h
  refine List.mem_map.mpr ⟨(k, v), ?_, rfl⟩
  rw [← List.mem_reverse, hl]
  exact List.mem_append_right l₁ List.mem_cons_self

/-- The entries of a map are what can be looked up in it. -/
theorem Json.mem_entries : (k, v) ∈ j.entries ↔ j.get? k = some v := by
  cases j with
  | obj members =>
    constructor
    · intro h
      obtain ⟨k', -, hk'⟩ := List.mem_filterMap.mp h
      obtain ⟨v', hv', heq⟩ := Option.map_eq_some_iff.mp hk'
      obtain ⟨rfl, rfl⟩ := Prod.mk.inj heq
      exact hv'
    · intro h
      refine List.mem_filterMap.mpr ⟨k, ?_, Option.map_eq_some_iff.mpr ⟨v, h, rfl⟩⟩
      rw [List.mem_insertionSort, List.mem_dedup]
      exact Json.mem_keys_of_get? h
  | _ => exact iff_of_false List.not_mem_nil fun h => by cases h

/-- The entries of a map are in the order of their keys, each key once. -/
theorem Json.entries_sorted (j : Json) : (j.entries.map Prod.fst).Pairwise (· < ·) := by
  cases j with
  | obj members =>
    have hkeys : (((members.map Prod.fst).dedup).insertionSort (· ≤ ·)).Pairwise (· < ·) := by
      have hle := List.pairwise_insertionSort (· ≤ ·) (members.map Prod.fst).dedup
      have hne : (((members.map Prod.fst).dedup).insertionSort (· ≤ ·)).Nodup :=
        (List.perm_insertionSort _ _).nodup_iff.mpr (List.nodup_dedup _)
      exact (hle.and hne).imp fun h => lt_of_le_of_ne h.1 h.2
    refine hkeys.sublist ?_
    show List.Sublist (List.map Prod.fst (List.filterMap _ _)) _
    induction ((members.map Prod.fst).dedup).insertionSort (· ≤ ·) with
    | nil => exact List.Sublist.slnil
    | cons a l ih =>
      cases ha : (Json.obj members).get? a with
      | none =>
        rw [List.filterMap_cons_none (by rw [ha]; rfl)]
        exact ih.cons a
      | some v =>
        rw [List.filterMap_cons_some (b := (a, v)) (by rw [ha]; rfl)]
        exact ih.cons_cons a
  | _ => exact List.Pairwise.nil

end entries

section reports

variable {rt : Runtime} {result : JIDResult}

theorem decodes_iff :
    (result.ret.entries.all fun s => (stateResult rt s.2).isSome) = true ↔
      Decodes rt result.ret := by
  rw [List.all_eq_true]
  constructor
  · intro h id state hstate hnone
    have hsome := h (id, state) (Json.mem_entries.mpr hstate)
    rw [hnone] at hsome
    cases hsome
  · rintro h ⟨id, state⟩ hmem
    exact Option.isSome_iff_ne_none.mpr (h id state (Json.mem_entries.mp hmem))

/-- `FailedStateIDs` lists the failed states of a map that decodes. -/
theorem failedStateIDs_of_decodes (h : Decodes rt result.ret) :
    (result.failedStateIDs rt).Pairwise (· < ·) ∧
      ∀ id, id ∈ result.failedStateIDs rt ↔ HasFailed rt result.ret id := by
  unfold JIDResult.failedStateIDs
  rw [if_pos (decodes_iff.mpr h)]
  have hsorted : ((result.ret.entries.filter fun s =>
      stateResult rt s.2 = some false).map Prod.fst).Pairwise (· < ·) :=
    result.ret.entries_sorted.sublist (List.filter_sublist.map Prod.fst)
  rw [(hsorted.imp le_of_lt).insertionSort_eq]
  refine ⟨hsorted, fun id => ?_⟩
  rw [List.mem_map]
  constructor
  · rintro ⟨⟨id', state⟩, hmem, rfl⟩
    obtain ⟨hentry, hfalse⟩ := List.mem_filter.mp hmem
    exact ⟨state, Json.mem_entries.mp hentry, of_decide_eq_true hfalse⟩
  · rintro ⟨state, hstate, hfalse⟩
    exact ⟨(id, state), List.mem_filter.mpr ⟨Json.mem_entries.mpr hstate, decide_eq_true hfalse⟩,
      rfl⟩

theorem failedStateIDs_of_not_decodes (h : ¬ Decodes rt result.ret) :
    result.failedStateIDs rt = [] := by
  unfold JIDResult.failedStateIDs
  rw [if_neg (mt decodes_iff.mp h)]

/-- What is written about a job. -/
theorem lookup_highstatePatch (rt : Runtime) (result : JIDResult) (now : String) :
    (highstatePatch rt now result).reverse.lookup annotationSaltStatus =
        some (if result.highstateOK then saltStatusReady else saltStatusFailedHighstate) ∧
      (highstatePatch rt now result).reverse.lookup annotationHighstateFailedCount =
        some (if result.highstateOK then "0" else toString (result.failedStateIDs rt).length) ∧
      (highstatePatch rt now result).reverse.lookup annotationHighstateFailedStates =
        some (if result.highstateOK then "" else Go.join "," (result.failedStateIDs rt)) := by
  unfold highstatePatch
  cases result.highstateOK <;> exact ⟨rfl, rfl, rfl⟩

/-- What is written about a job shows its states exactly when its verdicts agree. -/
theorem reports_written_iff (vm : VirtualMachine) (now : String) (version : Nat) :
    Reports rt result.ret (vm.written (highstatePatch rt now result) version) ↔
      (result.highstateOK = true ∨ ¬ Decodes rt result.ret →
        ∀ id, ¬ HasFailed rt result.ret id) := by
  obtain ⟨hstatus, hcount, hstates⟩ := lookup_highstatePatch rt result now
  set m := vm.written (highstatePatch rt now result) version with hm
  have hann : ∀ {a v : String}, (highstatePatch rt now result).reverse.lookup a = some v →
      m.annotationOf a = v := by
    intro a v hl
    rw [hm, VirtualMachine.annotationOf_written, hl]
    rfl
  replace hstatus := hann hstatus
  replace hcount := hann hcount
  replace hstates := hann hstates
  cases hok : result.highstateOK with
  | true =>
    simp only [hok, if_true] at hstatus hcount
    simp only [true_or, forall_const]
    exact ⟨fun h => (h.ready hstatus).1, fun h =>
      ⟨fun _ => ⟨h, hcount⟩, fun hne => absurd hstatus hne⟩⟩
  | false =>
    simp only [hok, Bool.false_eq_true, if_false] at hstatus hcount hstates
    simp only [Bool.false_eq_true, false_or]
    have hne : m.annotationOf annotationSaltStatus ≠ saltStatusReady := by
      rw [hstatus]
      decide
    constructor
    · intro h hdec id hid
      obtain ⟨-, ids, -, hmem, hlen, -⟩ := h.failed hne
      rw [hcount, failedStateIDs_of_not_decodes hdec] at hlen
      have hnil : ids = [] := List.length_eq_zero_iff.mp (Nat.repr_injective hlen).symm
      have hin := (hmem id).mpr hid
      rw [hnil] at hin
      cases hin
    · intro h
      refine ⟨fun heq => absurd heq hne, fun _ => ⟨hstatus, _, ?_, ?_, hcount, hstates⟩⟩
      · by_cases hdec : Decodes rt result.ret
        · exact (failedStateIDs_of_decodes hdec).1
        · rw [failedStateIDs_of_not_decodes hdec]
          exact List.Pairwise.nil
      · intro id
        by_cases hdec : Decodes rt result.ret
        · exact (failedStateIDs_of_decodes hdec).2 id
        · rw [failedStateIDs_of_not_decodes hdec]
          exact iff_of_false List.not_mem_nil (h hdec id)

end reports

/-- **`runPollHighstate` shows the failed states of a finished job exactly when there are
none if the job reports success and retcode 0 or some state's result does not decode.**
The response is any for which `PollJID` reports the job done, and the run is any that
writes its annotations. -/
theorem highstate_reports_iff (rt : Runtime) {w w' : World} {h h' : History} {vm : VirtualMachine}
    {conn : Connection} {minionID jid : String} {requeueAfter : Duration} {res : Result}
    {response : HttpResponse} {result : JIDResult} (hcur : w.vms vm.key = .live vm)
    (hdel : vm.deleting = false) (hjid : jid ≠ "")
    (hdone : pollJID minionID jid (.ok response) = .ok (some result))
    (hr : (runPollHighstate rt vm conn minionID jid requeueAfter).Runs
      (Served rt (Polled response)) w h (.ok res) w' h') :
    (∃ vm', w'.vms vm.key = .live vm' ∧ Reports rt result.ret vm') ↔
      (result.highstateOK = true ∨ ¬ Decodes rt result.ret →
        ∀ id, ¬ HasFailed rt result.ret id) := by
  rcases runs_runPollHighstate hcur hdel hr with
    ⟨e, he, -⟩ | ⟨result', now, res', ⟨_, a, ha, rfl⟩, -, -, version, cache, secrets, rfl, -⟩ |
      ⟨hempty | ⟨_, a, ha, hnot⟩, -⟩
  · cases he
  · have hres : pollJID minionID jid (.ok response) = .ok (some result') := ha.symm
    rw [hdone] at hres
    cases hres
    rw [← reports_written_iff vm now version]
    constructor
    · rintro ⟨vm', hvm', hrep⟩
      rw [← Slot.live.inj ((Function.update_self ..).symm.trans hvm')] at hrep
      exact hrep
    · exact fun hrep => ⟨_, Function.update_self .., hrep⟩
  · exact absurd hempty hjid
  · exact absurd (Eq.trans ha hdone) (hnot result)

/-! ## A job with a failed state -/

namespace Sample

/-- The response to a poll of a job that returned one state, with this result. -/
def jobResponse (success stateOK : Bool) : HttpResponse :=
  ⟨200, "", some (.obj [("ret", .obj [("web", .obj
    [("success", .bool success), ("retcode", .num 0),
     ("return", .obj [("pkg_|-nginx", .obj [("result", .bool stateOK)])])])])])⟩

/-- What `PollJID` makes of it. -/
def jobResult (success stateOK : Bool) : JIDResult :=
  ⟨"web", "20260101", "", .obj [("pkg_|-nginx", .obj [("result", .bool stateOK)])], 0, success⟩

theorem pollJID_jobResponse (success stateOK : Bool) :
    pollJID "web" "20260101" (.ok (jobResponse success stateOK)) =
      .ok (some (jobResult success stateOK)) := by
  simp [jobResponse, jobResult, pollJID, Posted.body, HttpResponse.isSuccess, HttpResponse.toMap,
    apiError, Json.get?, Json.nestedString, Json.path?, truncate, bind, Except.bind, List.lookup]

/-- A RaaS that answers polls with this response. -/
def polling (response : HttpResponse) : Script runtime where
  configs := []
  salt
    | .pollJID minionID jid => pollJID minionID jid (.ok response)
    | c => raas [] c
  returns c := by
    cases c with
    | pollJID minionID jid => exact ⟨_, rfl⟩
    | _ => exact raas_returns [] _

/-- Its answers and their effects. -/
def pollHandle (response : HttpResponse) (w : World) (o : Op) : o.Ans × World :=
  (serve (polling response) w o, effect w o (serve (polling response) w o))

theorem polling_served (response : HttpResponse) (w : World) (o : Op) :
    Served runtime (Polled response) w o (pollHandle response w o).1
      (pollHandle response w o).2 := by
  refine ⟨serve_answers _ w o, ?_, rfl⟩
  cases o with
  | salt conn c =>
    cases c with
    | pollJID minionID jid => rfl
    | _ => trivial
  | _ => trivial

/-- The poll of the job of the VM `web`. -/
def poll : M Result :=
  runPollHighstate runtime (vm "a" "u1") ⟨"https://raas", "master", "u", "p", false, ""⟩
    "web" "20260101" 0

/-- The cluster has the VM and no other. -/
def pollWorld : World := (ClusterCfg.created time secrets (vm "a" "u1")).world

theorem exists_runs_poll (response : HttpResponse) (after : Except String Result × World → Bool)
    (hafter : after (poll.run (pollHandle response) pollWorld) = true) :
    ∃ r w' h', poll.Runs (Served runtime (Polled response)) pollWorld [] r w' h' ∧
      after (r, w') = true := by
  obtain ⟨h', hr⟩ := Prog.runs_run (polling_served response) poll pollWorld []
  exact ⟨_, _, h', hr, hafter⟩

theorem pollWorld_vms : pollWorld.vms key = .live (vm "a" "u1") := by
  have hkey : (vm "a" "u1").key = key := rfl
  simp [pollWorld, ClusterCfg.created, World.setVM, hkey]

end Sample

/-- A job that failed together with its state. -/
theorem highstate_reports_failure : ∃ w' h' res vm',
    Sample.poll.Runs (Served Sample.runtime (Polled (Sample.jobResponse false false)))
      Sample.pollWorld [] (.ok res) w' h' ∧ w'.vms Sample.key = .live vm' ∧
    Reports Sample.runtime (Sample.jobResult false false).ret vm' := by
  obtain ⟨r, w', h', hr, hres⟩ := Sample.exists_runs_poll (Sample.jobResponse false false)
    (fun out => out.1.toOption.isSome) (by decide +kernel)
  cases r with
  | error e => cases hres
  | ok res =>
    have hdec : Decodes Sample.runtime (Sample.jobResult false false).ret :=
      decodes_iff.mp (by decide +kernel)
    obtain ⟨vm', hvm', hrep⟩ := (highstate_reports_iff Sample.runtime Sample.pollWorld_vms rfl
      (by decide) (Sample.pollJID_jobResponse false false) hr).mpr
        fun hor => hor.elim nofun fun hnot => absurd hdec hnot
    exact ⟨w', h', res, vm', hr, hvm', hrep⟩

/-- A job that reports success although its only state has failed: the VM is recorded
as Ready, without failed states. -/
theorem highstate_misreported : ∃ w' h' res vm',
    pollJID "web" "20260101" (.ok (Sample.jobResponse true false)) =
      .ok (some (Sample.jobResult true false)) ∧
    Sample.poll.Runs (Served Sample.runtime (Polled (Sample.jobResponse true false)))
      Sample.pollWorld [] (.ok res) w' h' ∧ w'.vms Sample.key = .live vm' ∧
    vm'.annotationOf annotationSaltStatus = saltStatusReady ∧
    vm'.annotationOf annotationHighstateFailedCount = "0" ∧
    HasFailed Sample.runtime (Sample.jobResult true false).ret "pkg_|-nginx" := by
  obtain ⟨r, w', h', hr, hcheck⟩ := Sample.exists_runs_poll (Sample.jobResponse true false)
    (fun out => out.1.toOption.isSome && (out.2.vms Sample.key).vm?.any fun vm =>
      vm.annotationOf annotationSaltStatus = saltStatusReady &&
        vm.annotationOf annotationHighstateFailedCount = "0") (by decide +kernel)
  obtain ⟨hres, hvm⟩ := (Bool.and_eq_true _ _).mp hcheck
  obtain ⟨vm', hvm', hready⟩ := Slot.vm?_any hvm
  simp only [Bool.and_eq_true, decide_eq_true_eq] at hready
  cases r with
  | error e => cases hres
  | ok res =>
    exact ⟨w', h', res, vm', Sample.pollJID_jobResponse true false, hr, hvm', hready.1, hready.2,
      _, rfl, by decide +kernel⟩

end SaltOperator
