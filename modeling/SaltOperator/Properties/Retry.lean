import SaltOperator.Lib.Convergence
import SaltOperator.Cluster.Place
import SaltOperator.Properties.Reconvergence

/-!
# Retrying while a job is out

A tenant asks for another run of the chain with the annotation `retry-request`, and the
operator notes in `retry-handled` which request it has followed. The request is looked at
when the chain is at rest. A chain that waits for a job is not, and it waits for as long as
RaaS does not report the job done: a minion that was rebooted by its own highstate never
reports it.

The passes below find Kubernetes and RaaS at work, apart from the one job `lost`, which no
poll finds done (`Loses`). **Whatever else happens in them, they follow the request sooner or
later exactly when the operator looks after the VM and its chain does not wait for the lost
job** (`retried_iff`). A VM whose chain waits for it is stuck for good (`retry_stuck`).
-/

namespace SaltOperator

/-! ## Passes that lose a job -/

/-- The minion is reached and given other jobs than `lost`, which it gets done; nothing is
heard of the job `lost`. -/
def SaltCall.LosesJob (lost : String) : (c : SaltCall) → c.Ans → Prop
  | .testPing _, a => a = .ok true
  | .refreshPillar _, a => a = .ok true
  | .dispatchHighstate _, a => ∃ jid, jid ≠ lost ∧ a = .ok jid
  | .pollJID _ jid, a => (jid = lost → ∀ result, a ≠ .ok (some result)) ∧
    (jid ≠ lost → ∃ result, a = .ok (some result))
  | _, _ => True

def Op.LosesJob (lost : String) : (o : Op) → o.Ans → Prop
  | .salt _ c, a => c.LosesJob lost a
  | _, _ => True

/-- Kubernetes does what it is asked to do, and so does RaaS, apart from the lost job. -/
def Loses (lost : String) : AnswerCondition := fun w o a =>
  KubernetesSucceeds w o a ∧ o.LosesJob lost a

/-- The connection of the namespace's config resolves with these Secrets. -/
def World.Resolves (rt : Runtime) (d : Default) (k : NamespacedName) (w : World)
    (secrets : NamespacedName → Option Secret) : Prop :=
  ∀ cfg, w.config? k.nspace = some cfg →
    (({ w with secrets } : World).connection? rt d cfg).isSome = true

/-- A pass over the VM some time after the last one, when the new minion had the time it
needs to connect. It leaves its own calls behind. -/
def RetryPass (rt : Runtime) (d : Default) (lost : String) (k : NamespacedName)
    (s s' : World × History) : Prop :=
  ∃ now secrets r, s.1.now ≤ now ∧ (∀ vm, s.1.vms k = .live vm → connectDelay rt now vm ≤ 0) ∧
    s.1.Resolves rt d k secrets ∧
    (reconcile rt d k).Runs (Served rt (Loses lost)) { s.1 with now, secrets } [] r s'.1 s'.2

/-- The request is noted, and the VM has a job that was dispatched in the last pass. -/
def Retried (k : NamespacedName) (request : String) (s : World × History) : Prop :=
  ∃ vm, s.1.vms k = .live vm ∧ vm.annotationOf annotationRetryHandled = request ∧
    s.2.Dispatched (vm.annotationOf annotationMinionID) (vm.annotationOf annotationHighstateJID)

section answers

variable {rt : Runtime} {d : Default} {lost : String} {k : NamespacedName} {s : World × History}

theorem loses_clean : Clean (Loses lost) := fun _ _ _ hok => hok.1.2

theorem loses_fresh : Fresh (Loses lost) := fun _ _ _ hok => hok.1.1

theorem retString_response {what missing text : String} (h : text ≠ "") :
    retString rt what missing (Sample.response (.str text)) = .ok text := by
  have hret : structField rt "ret" (.obj [("ret", .str text)]) = [.str text] := by
    simp [structField, Runtime.equalFold_self]
  have herror : structField rt "error" (.obj [("ret", .str text)]) = [] := by
    have hne : rt.equalFold "ret" "error" = false :=
      Runtime.equalFold_ne (by decide) (Runtime.equalFold_self "ret")
    simp [structField, hne]
  have hbody : (Sample.response (.str text)).body what =
      .ok ⟨200, "", some (.obj [("ret", .str text)])⟩ := rfl
  unfold retString
  rw [hbody]
  simp only [bind, Except.bind, HttpResponse.toMap, hret, herror]
  simp [stringField, objectField, h]

/-- A RaaS that loses a job. -/
def losing (rt : Runtime) (lost : String) : Script rt where
  configs := []
  salt
    | .dispatchHighstate minionID => dispatch rt "state.highstate" minionID
        (Sample.response (.str "3f0d")) (Sample.response (.str (lost ++ "1")))
    | .pollJID minionID jid => pollJID minionID jid
        (Sample.response (.obj (if jid = lost then [] else [(minionID, .obj [])])))
    | c => Sample.raas [] c
  returns c := by
    cases c with
    | listPendingKeys => exact ⟨_, rfl⟩
    | listAcceptedKeys => exact ⟨_, rfl⟩
    | acceptKey id => exact ⟨_, rfl⟩
    | deleteKey id => exact ⟨_, rfl⟩
    | dispatchHighstate id => exact ⟨_, _, rfl⟩
    | pollJID id jid => exact ⟨_, rfl⟩
    | _ => trivial

theorem losing_dispatch (minionID : String) :
    (losing rt lost).salt (.dispatchHighstate minionID) = .ok (lost ++ "1") := by
  show dispatch rt _ _ _ _ = _
  unfold dispatch saveJob routeCmd
  rw [retString_response (by decide), retString_response (by simp)]
  rfl

theorem losing_poll (rt : Runtime) (lost minionID jid : String) : if jid = lost
    then (losing rt lost).salt (.pollJID minionID jid) = .ok none
    else ∃ result, (losing rt lost).salt (.pollJID minionID jid) = .ok (some result) := by
  show if jid = lost then pollJID _ _ _ = _ else ∃ result, pollJID _ _ _ = _
  split
  · rfl
  · simp [pollJID, Sample.response, Posted.body, HttpResponse.isSuccess, HttpResponse.toMap,
      apiError, Json.get?, bind, Except.bind]
    exact ⟨_, rfl⟩

theorem losing_succeeds (rt : Runtime) (lost : String) : (losing rt lost).Succeeds := by
  intro c
  cases c with
  | dispatchHighstate id => exact ⟨_, losing_dispatch id⟩
  | pollJID id jid =>
    have hpoll := losing_poll rt lost id jid
    split at hpoll
    · exact ⟨_, hpoll⟩
    · obtain ⟨result, hres⟩ := hpoll
      exact ⟨_, hres⟩
  | acceptKey id => exact Sample.raas_succeeds [] (.acceptKey id)
  | deleteKey id => exact Sample.raas_succeeds [] (.deleteKey id)
  | login => rfl
  | _ => exact ⟨_, rfl⟩

theorem losing_losesJob (c : SaltCall) : c.LosesJob lost ((losing rt lost).salt c) := by
  cases c with
  | testPing id => rfl
  | refreshPillar id => rfl
  | dispatchHighstate id => exact ⟨lost ++ "1", by simp, losing_dispatch id⟩
  | pollJID id jid =>
    have hpoll := losing_poll rt lost id jid
    refine ⟨fun hjid result hres => ?_, fun hjid => ?_⟩
    · rw [if_pos hjid] at hpoll
      cases hpoll.symm.trans hres
    · rwa [if_neg hjid] at hpoll
  | _ => trivial

/-- Any call can be answered so. -/
theorem loses_answered (rt : Runtime) (lost : String) (w : World) (o : Op) :
    ∃ a w', Served rt (Loses lost) w o a w' := by
  have h := handle_served (losing_succeeds rt lost) w o
  refine ⟨_, _, h.1, ⟨⟨h.2.1.1, h.2.1.2.1⟩, ?_⟩, h.2.2⟩
  cases o with
  | salt conn c => exact losing_losesJob c
  | _ => trivial

/-- The time comes when a minion has had the time to connect. -/
theorem exists_connectDelay (rt : Runtime) (now : Time) (s : Slot) :
    ∃ now', now ≤ now' ∧ ∀ vm, s = .live vm → connectDelay rt now' vm ≤ 0 := by
  cases s with
  | live vm =>
    unfold connectDelay
    cases hp : rt.parseRFC3339 (vm.annotationOf annotationAcceptedAt) with
    | none =>
      refine ⟨now, le_rfl, ?_⟩
      rintro vm' ⟨⟩
      rw [hp]
    | some acceptedAt =>
      refine ⟨max now (acceptedAt + postAcceptDelay), le_max_left .., ?_⟩
      rintro vm' ⟨⟩
      rw [hp]
      have hlate : (30000000000 : Int) ≤ max now (acceptedAt + postAcceptDelay) - acceptedAt :=
        Int.le_sub_left_of_add_le (le_max_right ..)
      show Go.wrap64 ((30000000000 : Int) - Go.clamp64 _) ≤ 0
      generalize max now (acceptedAt + postAcceptDelay) - acceptedAt = elapsed at hlate ⊢
      have hcl := Go.clamp64_cases elapsed
      rw [Go.wrap64_of_lt] <;> omega
  | _ => exact ⟨now, le_rfl, nofun⟩

/-- There is always a next pass. -/
theorem exists_retryPass (lost : String) {secrets : NamespacedName → Option Secret}
    (h : s.1.Resolves rt d k secrets) : ∃ s', RetryPass rt d lost k s s' := by
  obtain ⟨now, hnow, hdelay⟩ := exists_connectDelay rt s.1.now (s.1.vms k)
  obtain ⟨r, w', h', hr⟩ := Prog.exists_runs (loses_answered rt lost) (reconcile rt d k)
    { s.1 with now, secrets } []
  exact ⟨(w', h'), now, secrets, r, hnow, hdelay, h, hr⟩

end answers

/-! ## VMs that are not looked after -/

section unattended

variable {rt : Runtime} {d : Default} {lost request : String} {k : NamespacedName}
  {ok : AnswerCondition} {w w' : World} {h h' : History} {r : Except String Result}
  {vm : VirtualMachine} {cfg : SaltKeyConfig} {s s' : World × History}

theorem World.Resolves.of_configs {secrets : NamespacedName → Option Secret}
    (hres : w.Resolves rt d k secrets) (hw : w'.configs = w.configs) :
    w'.Resolves rt d k secrets := by
  intro cfg hcfg
  refine hres cfg ?_
  unfold World.config? World.configsIn at hcfg ⊢
  rwa [hw] at hcfg

/-- The operator does not take the VM along its chain, and the request is not noted. -/
def Unattended (rt : Runtime) (k : NamespacedName) (request : String) (w : World) : Prop :=
  ∀ vm, w.vms k = .live vm → vm.annotationOf annotationRetryHandled ≠ request ∧
    (vm.deleting = true ∨ ∀ cfg, Governed w k vm cfg → matchesVMSelector rt cfg vm = false)

/-- A pass over a VM that is not there does nothing. -/
theorem runs_reconcile_gone (hno : ∀ vm, w.vms k ≠ .live vm)
    (hr : (reconcile rt d k).Runs (Served rt ok) w h r w' h') : w' = w := by
  obtain ⟨a, w₁, ⟨ha, -, rfl⟩, hr⟩ := Prog.runs_perform_bind.mp hr
  cases a with
  | ok vm => exact absurd ha (hno vm)
  | error e =>
    cases e with
    | notFound text => exact (Prog.runs_ret.mp hr).2.1
    | _ => exact (Prog.runs_fail.mp hr).2.1

/-- What a pass does about a VM that is not looked after: nothing, or it lets it go. -/
theorem Unattended.runs (hu : Unattended rt k request w) (hfresh : Fresh ok)
    (hr : (reconcile rt d k).Runs (Served rt ok) w h r w' h') :
    Unattended rt k request w' ∧ w'.configs = w.configs := by
  by_cases hlive : ∃ vm, w.vms k = .live vm
  · obtain ⟨vm, hvm⟩ := hlive
    rcases runs_reconcile hfresh hvm hr with ⟨e, -, -, rfl⟩ | ⟨-, -, rfl⟩ | ⟨cfg, h₁, hg, hr⟩
    · exact ⟨hu, rfl⟩
    · exact ⟨hu, rfl⟩
    · obtain ⟨hne, hwhy⟩ := hu vm hvm
      by_cases hdel : vm.deleting = true
      · rw [if_pos hdel] at hr
        have hend := runs_reconcileDelete_going hvm hr
        refine ⟨fun m hm => ⟨?_, .inl ((hend.deleting m hm).trans hdel)⟩, hend.configs⟩
        rw [VirtualMachine.annotationOf_eq_getD, hend.annotations m hm _ (by decide),
          ← VirtualMachine.annotationOf_eq_getD]
        exact hne
      · have hsel := hwhy.resolve_left hdel cfg hg
        rw [if_neg hdel, if_pos (by rw [hsel]; rfl)] at hr
        obtain ⟨-, rfl, -⟩ := Prog.runs_ret.mp hr
        exact ⟨hu, rfl⟩
  · have hgone := runs_reconcile_gone (fun vm hvm => hlive ⟨vm, hvm⟩) hr
    rw [hgone]
    exact ⟨hu, rfl⟩

/-- The request of such a VM is never followed. -/
theorem Unattended.not_inevitable {secrets : NamespacedName → Option Secret}
    (hu : Unattended rt k request s.1) (hres : s.1.Resolves rt d k secrets) (n : ℕ) :
    ¬ Inevitable (RetryPass rt d lost k) (Retried k request) n s := by
  refine SaltOperator.not_inevitable (I := fun s => Unattended rt k request s.1 ∧
    s.1.Resolves rt d k secrets) ?_ ⟨hu, hres⟩ n
  rintro s ⟨hu, hres⟩
  obtain ⟨s', hpass⟩ := exists_retryPass lost hres
  have hrun := hpass
  obtain ⟨now, secrets', r, -, -, -, hr⟩ := hrun
  have hu₀ : Unattended rt k request { s.1 with now, secrets := secrets' } :=
    fun vm hvm => ⟨(hu vm hvm).1, (hu vm hvm).2.imp_right fun hsel cfg hg =>
      hsel cfg ⟨hg.live, hg.managed, hg.config⟩⟩
  obtain ⟨hu', hconfigs⟩ := hu₀.runs loses_fresh hr
  refine ⟨s', hpass, ?_, hu', hres.of_configs hconfigs⟩
  rintro ⟨vm, hvm, hnoted, -⟩
  exact (hu' vm hvm).1 hnoted

end unattended

/-! ## VMs that are looked after -/

/-- The operator takes the VM along its chain, and its request is this one. -/
structure Attended (rt : Runtime) (k : NamespacedName) (cfg : SaltKeyConfig) (request : String)
    (vm : VirtualMachine) : Prop where
  key : vm.key = k
  managed : vm.annotationOf annotationManaged = annotationTrue
  deleting : vm.deleting = false
  selected : matchesVMSelector rt cfg vm = true
  accepted : vm.annotationOf annotationKeyStatus = keyStatusAccepted
  minion : vm.annotationOf annotationMinionID ≠ ""
  asked : vm.annotationOf annotationRetryRequest = request
  place : vm.place.Sound

section attended

variable {rt : Runtime} {d : Default} {lost request : String} {k : NamespacedName}
  {w : World} {h' : History} {vm m : VirtualMachine} {cfg : SaltKeyConfig} {conn : Connection}
  {now : Time} {additions : List (String × String)} {res : Result} {s s' : World × History}

/-- The minion answers pings, and refreshes its pillar. -/
theorem not_got_silence {conn : Connection} {minionID : String} :
    ¬ Got (Loses lost) (.salt conn (.testPing minionID))
        (fun a => a ≠ (Except.ok true : Except String Bool)) ∧
      ¬ Got (Loses lost) (.salt conn (.refreshPillar minionID))
        (fun a => a ≠ (Except.ok true : Except String Bool)) := by
  constructor
  all_goals
    rintro ⟨w, a, hok, hne⟩
    exact hne hok.2

theorem not_got_dispatch {conn : Connection} {minionID : String} :
    ¬ Got (Loses lost) (.salt conn (.dispatchHighstate minionID))
      (fun a => ∃ e, a = (Except.error e : Except String String)) := by
  rintro ⟨w, a, ⟨-, jid, -, hjid⟩, e, he⟩
  cases he.symm.trans hjid

theorem got_poll {conn : Connection} {minionID jid : String} {result : JIDResult}
    (hgot : Got (Loses lost) (.salt conn (.pollJID minionID jid))
      (fun a => a = (Except.ok (some result) : Except String (Option JIDResult)))) :
    jid ≠ lost := by
  rintro rfl
  obtain ⟨w, a, ⟨-, hok⟩, ha⟩ := hgot
  exact hok.1 rfl result ha

theorem got_no_poll {conn : Connection} {minionID jid : String}
    (hgot : Got (Loses lost) (.salt conn (.pollJID minionID jid))
      (fun a => ∀ result, a ≠ (Except.ok (some result) : Except String (Option JIDResult)))) :
    jid = lost := by
  obtain ⟨w, a, ⟨-, hok⟩, ha⟩ := hgot
  by_contra hne
  obtain ⟨result, hres⟩ := hok.2 hne
  exact ha result hres

theorem place_handled {patch : List (String × String)} (hreq : retryRequested m = true)
    (version : Nat) : (m.written (patch ++ handledMarkers m cfg) version).place =
      { (m.written patch version).place with
        handled := m.annotationOf annotationRetryRequest } := by
  have hhandled : ((patch ++ handledMarkers m cfg).reverse.lookup annotationRetryHandled) =
      some (m.annotationOf annotationRetryRequest) := by
    rw [List.reverse_append, List.lookup_append, lookup_handledMarkers_retry, if_pos hreq]
    rfl
  rw [place_written, place_written, lookup_append_handled _ (by decide) (by decide),
    lookup_append_handled _ (by decide) (by decide),
    lookup_append_handled _ (by decide) (by decide),
    hhandled]
  rfl

theorem Attended.retryRequested (ha : Attended rt k cfg request m) (hreq : request ≠ "") :
    retryRequested m = true ↔ m.place.handled ≠ request := by
  unfold SaltOperator.retryRequested
  rw [ha.asked]
  simp only [hreq, ne_eq, not_false_eq_true, decide_true, Bool.true_and, decide_eq_true_eq]
  exact not_congr eq_comm

/-- What a pass writes about a chain at rest, when there is a request to follow. -/
theorem Reconverges.place {minionID : String} (ha : Attended rt k cfg request m)
    (hask : retryRequested m = true) (hrest : m.place.status ∉
      ["", saltStatusPinged, saltStatusPillarRefreshed, saltStatusHighstateDispatched])
    (hstep : Reconverges rt (Loses lost) m conn cfg minionID now h' additions res) (version : Nat) :
    Unchanging additions ∧ Place.Step request lost (h'.Dispatched minionID) m.place
      (m.written additions version).place := by
  have hadopts : adopts rt m = false := not_adopts ha.place.version
  have htrig : triggered rt m cfg = true := by simp [triggered, hask]
  have hplace : ∀ patch, (m.written (patch ++ handledMarkers m cfg) version).place =
      { (m.written patch version).place with handled := request } := by
    intro patch
    rw [place_handled hask, ha.asked]
  -- a chain at rest is done, or failed
  have hready : m.chainFailed = false → m.place.status = saltStatusReady := by
    intro hno
    rcases ha.place.status with hin | hf
    · simp only [List.mem_cons, List.not_mem_nil, or_false, not_or] at hin hrest
      tauto
    · exact absurd (hno.symm.trans hf) (by decide)
  cases hstep with
  | idle hhash hno => exact absurd hhash (ha.place.job (by simp [hready hno])).2
  | unasked _ _ hno => rw [hask] at hno; cases hno
  | restarted _ hf =>
    refine ⟨unchanging_append (by unfold Unchanging; decide) unchanging_handled, ?_⟩
    rw [hplace, place_written]
    exact .restarted hf
  | adopted hyes => rw [hadopts] at hyes; cases hyes
  | settled _ _ hno => rw [htrig] at hno; cases hno
  | waits _ _ _ hno => rw [htrig] at hno; cases hno
  | enforced _ _ _ _ hno => rw [htrig] at hno; cases hno
  | reset _ _ _ hf =>
    refine ⟨unchanging_append (fun a ha => ?_) unchanging_handled, ?_⟩
    · fin_cases ha <;> rfl
    · rw [hplace, place_written]
      exact .reset _ hf (hasPrefix_computeIntentHash _)
  | day2 patch res _ _ _ hno hp =>
    cases hp with
    | refreshFailed hgot => exact absurd hgot not_got_silence.2
    | dispatchFailed hgot => exact absurd hgot not_got_dispatch
    | dispatched jid hd =>
      rw [withMarkers_eq]
      refine ⟨unchanging_append (fun a ha => ?_) unchanging_handled, ?_⟩
      · fin_cases ha <;> rfl
      · rw [hplace, place_written]
        exact .day2 jid _ (hready hno) hd (hasPrefix_computeIntentHash _)

/-- **What a pass writes about the chain of a VM with a request to follow.** -/
theorem ChainStep.place (ha : Attended rt k cfg request m) (hdelay : connectDelay rt now m ≤ 0)
    (hdue : retryRequested m = true ∨
      m.place.status ∈ ["", saltStatusPinged, saltStatusPillarRefreshed])
    (hstep : ChainStep rt (Loses lost) m conn cfg now h' additions res) (version : Nat) :
    Unchanging additions ∧ Place.Step request lost
      (h'.Dispatched (m.annotationOf annotationMinionID)) m.place
      (m.written additions version).place := by
  rw [place_written]
  cases hstep with
  | noMinion hno => exact absurd hno ha.minion
  | connecting _ hpos => exact absurd hpos (not_lt.mpr hdelay)
  | pinged hst =>
    have hclear : ∀ a, a ≠ annotationKeyCleared → (clearing m ++
        [(annotationSaltStatus, saltStatusPinged)]).reverse.lookup a =
        [(annotationSaltStatus, saltStatusPinged)].lookup a := by
      intro a ha
      unfold clearing clearedMarker
      split
      · simp [List.lookup, beq_false_of_ne ha]
      · rfl
    refine ⟨fun a ha => ?_, ?_⟩
    · fin_cases ha <;> rw [hclear _ (by decide)] <;> rfl
    · rw [hclear _ (by decide), hclear _ (by decide), hclear _ (by decide), hclear _ (by decide)]
      exact .pinged hst
  | pingFailed _ _ _ hgot => exact absurd hgot not_got_silence.1
  | refreshed hst => exact ⟨by unfold Unchanging; decide, .refreshed hst⟩
  | refreshFailed _ _ _ hgot => exact absurd hgot not_got_silence.2
  | dispatched jid hst hd =>
    refine ⟨fun a ha => ?_, .dispatched jid _ hst hd (hasPrefix_computeIntentHash _)⟩
    fin_cases ha <;> rfl
  | dispatchFailed _ _ _ hgot => exact absurd hgot not_got_dispatch
  | polled result time res hst hjid hgot =>
    unfold highstatePatch
    split
    · refine ⟨fun a ha => ?_, .succeeded hst (got_poll hgot)⟩
      fin_cases ha <;> rfl
    · refine ⟨fun a ha => ?_, .failed hst (got_poll hgot)⟩
      fin_cases ha <;> rfl
  | unfinished hst hgot =>
    have hjid := (ha.place.job (by simp [show m.place.status = _ from hst])).1
    exact ⟨by unfold Unchanging; decide, .stuck hst (got_no_poll (hgot.resolve_left hjid))⟩
  | atRest _ _ _ hrest hstep =>
    rw [← place_written]
    refine hstep.place ha (hdue.resolve_right fun hin => hrest ?_) hrest version
    simp only [List.mem_cons, List.not_mem_nil, or_false] at hin ⊢
    tauto

theorem Readied.place (hm : Readied vm m) : m.place = vm.place := by
  unfold VirtualMachine.place
  rw [hm.annotationOf (by decide), hm.annotationOf (by decide), hm.annotationOf (by decide),
    hm.annotationOf (by decide)]

theorem Readied.attended (hm : Readied vm m) (ha : Attended rt k cfg request vm) :
    Attended rt k cfg request m where
  key := hm.key.trans ha.key
  managed := (hm.annotationOf (by decide)).trans ha.managed
  deleting := hm.deleting.trans ha.deleting
  selected := by
    unfold matchesVMSelector
    rw [hm.labels]
    exact ha.selected
  accepted := (hm.annotationOf (by decide)).trans ha.accepted
  minion := (hm.annotationOf (by decide)).trans_ne ha.minion
  asked := (hm.annotationOf (by decide)).trans ha.asked
  place := hm.place ▸ ha.place

theorem Attended.written (ha : Attended rt k cfg request m) (hu : Unchanging additions)
    {version : Nat} (hp : (m.written additions version).place.Sound) :
    Attended rt k cfg request (m.written additions version) := by
  have hkept : ∀ a ∈ [annotationManaged, annotationKeyStatus, annotationMinionID,
      annotationRetryRequest], (m.written additions version).annotationOf a = m.annotationOf a := by
    intro a hin
    rw [VirtualMachine.annotationOf_written, hu a hin]
    rfl
  exact
    { key := ha.key
      managed := (hkept _ (by simp)).trans ha.managed
      deleting := ha.deleting
      selected := ha.selected
      accepted := (hkept _ (by simp)).trans ha.accepted
      minion := (hkept _ (by simp)).trans_ne ha.minion
      asked := (hkept _ (by simp)).trans ha.asked
      place := hp }

/-- The jobs of a pass are new ones. -/
theorem RetryPass.jobs (hpass : RetryPass rt d lost k s s') {minionID jid : String}
    (hd : s'.2.Dispatched minionID jid) : jid ≠ lost ∧ jid ≠ "" := by
  obtain ⟨now, secrets, r, -, -, -, hr⟩ := hpass
  obtain ⟨w, conn, hmem⟩ := hd
  rcases hr.answered hmem with hold | ⟨w₁, ha, ⟨-, jid', hne, hjid⟩, -⟩
  · cases hold
  · cases hjid
    exact ⟨hne, dispatched_jid ha⟩

/-- **A pass takes an attended VM one step further.** -/
theorem RetryPass.place (hpass : RetryPass rt d lost k s s') (hvm : s.1.vms k = .live vm)
    (hcfg : s.1.config? k.nspace = some cfg) (ha : Attended rt k cfg request vm)
    (hdue : retryRequested vm = true ∨
      vm.place.status ∈ ["", saltStatusPinged, saltStatusPillarRefreshed]) :
    ∃ vm', s'.1.vms k = .live vm' ∧ s'.1.configs = s.1.configs ∧
      Attended rt k cfg request vm' ∧
      Place.Step request lost (s'.2.Dispatched (vm'.annotationOf annotationMinionID))
        vm.place vm'.place := by
  have hjobs : ∀ {minionID jid : String}, s'.2.Dispatched minionID jid → jid ≠ lost ∧ jid ≠ "" :=
    hpass.jobs
  obtain ⟨now, secrets, r, -, hdelay, hres, hr⟩ := hpass
  have hconn : World.Connects rt d { s.1 with now, secrets } cfg := .inr (hres cfg hcfg)
  have hg : Governed { s.1 with now, secrets } k vm cfg := ⟨hvm, ha.managed, hcfg⟩
  rcases runs_accepted loses_fresh hg ha.key ha.deleting ha.selected ha.accepted hr with
    ⟨e, -, hno⟩ | ⟨m, conn, additions, res, version, cache, secrets', hm, -, hstep, -, hw'⟩
  · exact absurd hconn (hno loses_clean).1
  · have ham := hm.attended ha
    have hdelay' : connectDelay rt now m ≤ 0 := by
      have heq : connectDelay rt now m = connectDelay rt now vm := by
        unfold connectDelay
        rw [hm.annotationOf (by decide)]
      rw [heq]
      exact hdelay vm hvm
    have hdue' := hdue
    rw [← hm.retryRequested, ← hm.place] at hdue'
    obtain ⟨hu, hp⟩ := hstep.place ham hdelay' hdue' version
    have hid : (m.written additions version).annotationOf annotationMinionID =
        m.annotationOf annotationMinionID := by
      rw [VirtualMachine.annotationOf_written, hu _ (by simp)]
      rfl
    refine ⟨m.written additions version, ?_, ?_, ?_, ?_⟩
    · rw [hw']
      exact World.setVM_self ..
    · rw [hw']
      rfl
    · exact ham.written hu (hp.sound ham.place fun jid hd => (hjobs hd).2)
    · rw [hid, ← hm.place]
      exact hp

end attended

/-! ## Following a request -/

section retried

variable {rt : Runtime} {d : Default} {lost request : String} {k : NamespacedName}
  {vm : VirtualMachine} {cfg : SaltKeyConfig} {secrets : NamespacedName → Option Secret}
  {s s' : World × History}

/-- A VM the operator looks after, under a config whose connection resolves. -/
structure Cared (rt : Runtime) (d : Default) (k : NamespacedName) (cfg : SaltKeyConfig)
    (request : String) (secrets : NamespacedName → Option Secret) (s : World × History)
    (vm : VirtualMachine) : Prop where
  live : s.1.vms k = .live vm
  config : s.1.config? k.nspace = some cfg
  attended : Attended rt k cfg request vm
  resolves : s.1.Resolves rt d k secrets

/-- A pass takes it one step further, and it stays one. -/
theorem Cared.pass (hc : Cared rt d k cfg request secrets s vm) (hpass : RetryPass rt d lost k s s')
    (hdue : retryRequested vm = true ∨
      vm.place.status ∈ ["", saltStatusPinged, saltStatusPillarRefreshed]) :
    ∃ vm', Cared rt d k cfg request secrets s' vm' ∧
      Place.Step request lost (s'.2.Dispatched (vm'.annotationOf annotationMinionID))
        vm.place vm'.place := by
  obtain ⟨vm', hvm', hconfigs, ha', hstep⟩ := hpass.place hc.live hc.config hc.attended hdue
  refine ⟨vm', ⟨hvm', ?_, ha', hc.resolves.of_configs hconfigs⟩, hstep⟩
  have hcfg := hc.config
  unfold World.config? World.configsIn at hcfg ⊢
  rwa [hconfigs]

/-- How far off the highstate is that follows the VM's request. -/
def World.passesLeft (w : World) (k : NamespacedName) (request : String) : ℕ :=
  ((w.vms k).vm?.map fun vm => vm.place.passesLeft request).getD 0

theorem Cared.passesLeft (hc : Cared rt d k cfg request secrets s vm) :
    s.1.passesLeft k request = vm.place.passesLeft request := by
  unfold World.passesLeft
  rw [hc.live]
  rfl

/-- A request is followed within nine passes if the chain does not wait for the lost job. -/
theorem Cared.inevitable (hc : Cared rt d k cfg request secrets s vm) (hreq : request ≠ "")
    (hdue : vm.place.Due request lost) :
    Inevitable (RetryPass rt d lost k) (Retried k request) 9 s := by
  have hrank : ∀ p : Place, p.passesLeft request ≤ 8 := by
    intro p
    unfold Place.passesLeft Place.toDispatch
    split_ifs <;> omega
  have hinev : Inevitable (RetryPass rt d lost k) (Retried k request)
      (s.1.passesLeft k request + 1) s :=
    inevitable_of_rank (fun s => s.1.passesLeft k request) (I := fun s => ∃ vm,
      Cared rt d k cfg request secrets s vm ∧ vm.place.Due request lost) ?next ?step ⟨vm, hc, hdue⟩
  · refine hinev.mono ?_
    rw [hc.passesLeft]
    have hle := hrank vm.place
    omega
  case next =>
    rintro s ⟨vm, hc, -⟩
    exact exists_retryPass lost hc.resolves
  case step =>
    rintro s s' ⟨vm, hc, hdue⟩ hpass
    have hdue' : retryRequested vm = true ∨
        vm.place.status ∈ ["", saltStatusPinged, saltStatusPillarRefreshed] :=
      hdue.imp (fun hno => (hc.attended.retryRequested hreq).mpr hno.1) And.right
    obtain ⟨vm', hc', hstep⟩ := hc.pass hpass hdue'
    rcases hstep.closer hdue fun jid hd => (hpass.jobs hd).1 with ⟨hnoted, hd⟩ | ⟨hdue', hlt⟩
    · exact .inl ⟨vm', hc'.live, hnoted, hd⟩
    · refine .inr ⟨⟨vm', hc', hdue'⟩, ?_⟩
      rwa [hc.passesLeft, hc'.passesLeft]

/-- A chain that waits for the lost job does so for good. -/
theorem Cared.not_inevitable (hc : Cared rt d k cfg request secrets s vm) (hreq : request ≠ "")
    (hask : vm.place.handled ≠ request) (hst : vm.place.status = saltStatusHighstateDispatched)
    (hjid : vm.place.jid = lost) (n : ℕ) :
    ¬ Inevitable (RetryPass rt d lost k) (Retried k request) n s := by
  refine SaltOperator.not_inevitable (I := fun s => ∃ vm, Cared rt d k cfg request secrets s vm ∧
    vm.place.handled ≠ request ∧ vm.place.status = saltStatusHighstateDispatched ∧
    vm.place.jid = lost) ?_ ⟨vm, hc, hask, hst, hjid⟩ n
  rintro s ⟨vm, hc, hask, hst, hjid⟩
  obtain ⟨s', hpass⟩ := exists_retryPass lost hc.resolves
  obtain ⟨vm', hc', hstep⟩ :=
    hc.pass hpass (.inl ((hc.attended.retryRequested hreq).mpr hask))
  have hsame := hstep.eq_of_lost hst hjid
  refine ⟨s', hpass, ?_, vm', hc', hsame ▸ hask, hsame ▸ hst, hsame ▸ hjid⟩
  rintro ⟨vm'', hvm'', hnoted, -⟩
  obtain rfl := Slot.live.inj (hc'.live.symm.trans hvm'')
  exact (hsame ▸ hask : vm'.place.handled ≠ request) hnoted

/-- An accepted VM in a reachable state is cared for when it is governed and selected. -/
theorem cared_of_reach {crash : Prop} {c : ClusterCfg} (h : (cluster rt d notOwn crash).Reach c)
    (hg : Governed c.world k vm cfg) (hdel : vm.deleting = false)
    (hsel : matchesVMSelector rt cfg vm = true)
    (hacc : vm.annotationOf annotationKeyStatus = keyStatusAccepted)
    (hres : c.world.Resolves rt d k secrets) :
    Cared rt d k cfg (vm.annotationOf annotationRetryRequest) secrets (c.world, []) vm := by
  have hcons := lifecycle_consistent h hg.live
  have hplace : vm.place.Sound := by
    refine ⟨saltStatus_known h hg.live, fun hin => hcons.job ?_, rolesHash_version h hg.live⟩
    simp only [List.mem_cons, List.not_mem_nil, or_false] at hin ⊢
    exact hin.imp_right .inl
  exact
    { live := hg.live
      config := hg.config
      attended :=
        { key := ((contract rt d crash).keeps h).1.key k vm hg.live
          managed := hg.managed
          deleting := hdel
          selected := hsel
          accepted := hacc
          minion := hcons.minion (.inr (.inl hacc))
          asked := rfl
          place := hplace }
      resolves := hres }

end retried

/-- **In every reachable state, the next passes over an accepted VM with an unhandled retry
request follow it, whatever happens in them, exactly when the operator looks after the VM and
its chain does not wait for a job**: the job is lost, every other call succeeds and every
other job gets done. -/
theorem retried_iff (rt : Runtime) (d : Default) (crash : Prop) {c : ClusterCfg}
    {k : NamespacedName} {vm : VirtualMachine} (h : (cluster rt d notOwn crash).Reach c)
    (hvm : c.world.vms k = .live vm)
    (hacc : vm.annotationOf annotationKeyStatus = keyStatusAccepted)
    (hask : retryRequested vm = true) (hres : c.world.Resolves rt d k c.world.secrets) :
    (∃ n, Inevitable (RetryPass rt d (vm.annotationOf annotationHighstateJID) k)
      (Retried k (vm.annotationOf annotationRetryRequest)) n (c.world, [])) ↔
      vm.deleting = false ∧
      (∃ cfg, Governed c.world k vm cfg ∧ matchesVMSelector rt cfg vm = true) ∧
      vm.annotationOf annotationSaltStatus ≠ saltStatusHighstateDispatched := by
  obtain ⟨hreq, hne⟩ : vm.annotationOf annotationRetryRequest ≠ "" ∧
      vm.annotationOf annotationRetryHandled ≠ vm.annotationOf annotationRetryRequest := by
    simp only [retryRequested, Bool.and_eq_true, decide_eq_true_eq] at hask
    exact ⟨hask.1, hask.2.symm⟩
  by_cases hcare : vm.deleting = false ∧
      ∃ cfg, Governed c.world k vm cfg ∧ matchesVMSelector rt cfg vm = true
  · obtain ⟨hdel, cfg, hg, hsel⟩ := hcare
    have hcared := cared_of_reach h hg hdel hsel hacc hres
    by_cases hst : vm.annotationOf annotationSaltStatus = saltStatusHighstateDispatched
    · refine iff_of_false ?_ fun hyes => hyes.2.2 hst
      rintro ⟨n, hn⟩
      exact hcared.not_inevitable hreq hne hst rfl n hn
    · refine iff_of_true ⟨9, hcared.inevitable hreq ?_⟩ ⟨hdel, ⟨cfg, hg, hsel⟩, hst⟩
      exact .inl ⟨hne, fun hlost => hst hlost.1⟩
  · refine iff_of_false ?_ fun hyes => hcare ⟨hyes.1, hyes.2.1⟩
    rintro ⟨n, hn⟩
    have hun : Unattended rt k (vm.annotationOf annotationRetryRequest) c.world := by
      intro m hm
      obtain rfl := Slot.live.inj (hvm.symm.trans hm)
      refine ⟨hne, ?_⟩
      by_cases hdel : vm.deleting = true
      · exact .inl hdel
      · refine .inr fun cfg hg => ?_
        by_contra hsel
        exact hcare ⟨by simpa using hdel, cfg, hg, by simpa using hsel⟩
    exact hun.not_inevitable hres n hn

namespace Sample

/-- A VM is taken along its chain; then a tenant asks for a retry. -/
def asking (n : Nat) : List (Act runtime) :=
  [.configs [config "a" keyAcceptanceDiscovery], .create (vm "a" "u1")] ++
    work key discovery 40 ++ [.clock (time + 60 * Go.second)] ++ work key discovery n ++
    [.annotate key annotationRetryRequest "1"]

/-- The operator looks after the VM, which is accepted and has an unhandled request, its chain
being at `status`, and its worker is idle. -/
def asks (status : String) (c : ClusterCfg) : Bool :=
  (c.threads key).isNone && (c.world.vms key).vm?.any fun vm => !vm.deleting &&
    vm.annotationOf annotationManaged = annotationTrue &&
    vm.annotationOf annotationKeyStatus = keyStatusAccepted && retryRequested vm &&
    vm.annotationOf annotationSaltStatus = status &&
    (c.world.config? key.nspace).any fun cfg => matchesVMSelector runtime cfg vm &&
      (c.world.connection? runtime noDefault cfg).isSome

/-- What `asks` has checked. -/
theorem asks_spec {status : String} {c : ClusterCfg} (h : asks status c = true) : ∃ vm cfg,
    c.threads key = none ∧ Governed c.world key vm cfg ∧ vm.deleting = false ∧
    matchesVMSelector runtime cfg vm = true ∧
    vm.annotationOf annotationKeyStatus = keyStatusAccepted ∧ retryRequested vm = true ∧
    vm.annotationOf annotationSaltStatus = status ∧
    c.world.Resolves runtime noDefault key c.world.secrets := by
  unfold asks at h
  obtain ⟨hidle, h⟩ := (Bool.and_eq_true _ _).mp h
  obtain ⟨vm, hvm, h⟩ := Slot.vm?_any h
  simp only [Bool.and_eq_true, Bool.not_eq_true', decide_eq_true_eq] at h
  obtain ⟨⟨⟨⟨⟨hdel, hman⟩, hacc⟩, hask⟩, hst⟩, hcfg⟩ := h
  obtain ⟨cfg, hcfg, hsel⟩ := (Option.any_eq_true _ _).mp hcfg
  obtain ⟨hsel, hconn⟩ := (Bool.and_eq_true _ _).mp hsel
  refine ⟨vm, cfg, Option.isNone_iff_eq_none.mp hidle, ⟨hvm, hman, hcfg⟩, hdel, hsel, hacc, hask,
    hst, fun cfg' hcfg' => ?_⟩
  obtain rfl := Option.some.inj (hcfg.symm.trans hcfg')
  exact hconn

end Sample

/-- A VM is Ready when it is asked to retry: the request is followed. -/
theorem retried_ready : ∃ c vm, (cluster Sample.runtime Sample.noDefault notOwn False).Reach c ∧
    c.threads Sample.key = none ∧ c.world.vms Sample.key = .live vm ∧
    vm.annotationOf annotationSaltStatus = saltStatusReady ∧ retryRequested vm = true ∧
    ∃ n, Inevitable (RetryPass Sample.runtime Sample.noDefault
        (vm.annotationOf annotationHighstateJID) Sample.key)
      (Retried Sample.key (vm.annotationOf annotationRetryRequest)) n (c.world, []) := by
  have hrun : (runActs Sample.noDefault notOwn False (fun _ _ _ => true) (Sample.asking 48)
      (.start Sample.time Sample.secrets)).any (Sample.asks saltStatusReady) = true := by
    decide +kernel
  obtain ⟨c, hc, hcheck⟩ := exists_reach_of_run hrun
  obtain ⟨vm, cfg, hidle, hg, hdel, hsel, hacc, hask, hst, hres⟩ := Sample.asks_spec hcheck
  refine ⟨c, vm, hc, hidle, hg.live, hst, hask, ?_⟩
  refine (retried_iff _ _ _ hc hg.live hacc hask hres).mpr ⟨hdel, ⟨cfg, hg, hsel⟩, ?_⟩
  rw [hst]
  decide

/-- A VM has a job out when it is asked to retry: if the job is lost, no number of passes is
enough. -/
theorem retry_stuck : ∃ c vm, (cluster Sample.runtime Sample.noDefault notOwn False).Reach c ∧
    c.threads Sample.key = none ∧ c.world.vms Sample.key = .live vm ∧ vm.deleting = false ∧
    vm.annotationOf annotationKeyStatus = keyStatusAccepted ∧
    vm.annotationOf annotationSaltStatus = saltStatusHighstateDispatched ∧
    retryRequested vm = true ∧
    ∀ n, ¬ Inevitable (RetryPass Sample.runtime Sample.noDefault
        (vm.annotationOf annotationHighstateJID) Sample.key)
      (Retried Sample.key (vm.annotationOf annotationRetryRequest)) n (c.world, []) := by
  have hrun : (runActs Sample.noDefault notOwn False (fun _ _ _ => true) (Sample.asking 36)
      (.start Sample.time Sample.secrets)).any
        (Sample.asks saltStatusHighstateDispatched) = true := by
    decide +kernel
  obtain ⟨c, hc, hcheck⟩ := exists_reach_of_run hrun
  obtain ⟨vm, cfg, hidle, hg, hdel, hsel, hacc, hask, hst, hres⟩ := Sample.asks_spec hcheck
  refine ⟨c, vm, hc, hidle, hg.live, hdel, hacc, hst, hask, ?_⟩
  simp only [retryRequested, Bool.and_eq_true, decide_eq_true_eq] at hask
  exact (cared_of_reach hc hg hdel hsel hacc hres).not_inevitable hask.1 hask.2.symm hst rfl

end SaltOperator
