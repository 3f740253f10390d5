import SaltOperator.Properties.Reconvergence
import SaltOperator.Properties.Schedule

/-!
# Coming back to a settled VM

The operator's own writes raise no event, so a pass over a VM that has settled
(`Ready`, or in a failure) has to see to it that it is called again: soon if it
leaves a cause for another run, and in time for the next scheduled run. `WokenUp`
says so of what a pass returns and the VM it leaves.

**A pass over a settled VM does so exactly when it gets to look at the causes and
the schedule, or there are none, and the time until the next run fits a
`time.Duration`** (`settled_wokenUp_iff`). The pass that adopts the hash of an
older release returns before it has looked (`settled_forgotten`).
-/

namespace SaltOperator

/-- The VM has a highstate every `interval`, and had the last one at `last`. -/
structure Scheduled (rt : Runtime) (cfg : SaltKeyConfig) (vm : VirtualMachine)
    (interval : Duration) (last : Time) : Prop where
  parsed : Go.parseDuration cfg.spec.enforcementInterval = some interval
  positive : 0 < interval
  recorded : vm.annotationOf annotationHighstateTime ≠ ""
  time : rt.parseRFC3339 (vm.annotationOf annotationHighstateTime) = some last

/-- The interval, with the jitter of the VM. -/
def period (rt : Runtime) (vm : VirtualMachine) (interval : Duration) : Duration :=
  interval + enforcementJitter rt vm.uid interval

/-- A pass at `now` that leaves `vm` and returns `res` makes sure of the next one. -/
structure WokenUp (rt : Runtime) (cfg : SaltKeyConfig) (now : Time) (vm : VirtualMachine)
    (res : Result) : Prop where
  cause : Cause rt vm cfg → 0 < res.requeueAfter
  due : vm.annotationOf annotationSaltStatus = saltStatusReady →
    ∀ interval last, Scheduled rt cfg vm interval last →
      0 < res.requeueAfter ∧ now + res.requeueAfter ≤ last + period rt vm interval

/-- The VM is to have another highstate some time. -/
def Enforceable (rt : Runtime) (cfg : SaltKeyConfig) (vm : VirtualMachine) : Prop :=
  vm.annotationOf annotationSaltStatus = saltStatusReady ∧
    ∃ interval last, Scheduled rt cfg vm interval last

/-- A pass over the VM returns before it looks at its hash: the VM is not managed or
not selected, its minion is not known, or it is healthy without having a hash. -/
def Skipped (rt : Runtime) (cfg : SaltKeyConfig) (vm : VirtualMachine) : Prop :=
  vm.annotationOf annotationManaged ≠ annotationTrue ∨ matchesVMSelector rt cfg vm = false ∨
    vm.annotationOf annotationMinionID = "" ∨
    (vm.annotationOf annotationRolesHash = "" ∧ vm.chainFailed = false)

/-- What a VM has to be like for a pass at `now` to make sure of the next one. -/
structure KeepsAwake (rt : Runtime) (cfg : SaltKeyConfig) (now : Time) (vm : VirtualMachine) :
    Prop where
  /-- a pass that is over at once leaves nothing to be done -/
  skipped : Skipped rt cfg vm → ¬ Cause rt vm cfg ∧ ¬ Enforceable rt cfg vm
  /-- a pass that adopts the hash leaves nothing to be done -/
  adopted : ¬ Skipped rt cfg vm → adopts rt vm = true → retryRequested vm = false ∧
    (bulkChanged vm cfg && vm.chainFailed) = false ∧ ¬ Enforceable rt cfg vm
  /-- the time left until the next run is a duration -/
  inTime : ¬ Skipped rt cfg vm → adopts rt vm = false → ¬ Cause rt vm cfg →
    vm.annotationOf annotationSaltStatus = saltStatusReady →
    ∀ interval last, Scheduled rt cfg vm interval last → period rt vm interval < 2 ^ 63 →
      period rt vm interval - Go.since now last < 2 ^ 63

/-! ## The schedule -/

/-- What is left of a period `p` after the time from `last` to `now`, if anything is:
it is computed right unless it, but not the period, is too long. -/
theorem wrap64_wait_iff {p now last elapsed : Int} (hp : 0 < p) (hp' : p < 2 ^ 63 + 2 ^ 60)
    (he : Go.clamp64 (now - last) = elapsed) (hnot : elapsed < Go.wrap64 p) :
    (0 < Go.wrap64 (Go.wrap64 p - elapsed) ∧ now + Go.wrap64 (Go.wrap64 p - elapsed) ≤ last + p) ↔
      (p < 2 ^ 63 → p - elapsed < 2 ^ 63) := by
  have hsince := Go.clamp64_cases (now - last)
  rw [he] at hsince
  by_cases hfit : p < 2 ^ 63
  · have hwrap : Go.wrap64 p = p := Go.wrap64_of_lt (by omega) hfit
    rw [hwrap] at hnot ⊢
    by_cases hroom : p - elapsed < 2 ^ 63
    · rw [Go.wrap64_of_lt (by omega) hroom]
      omega
    · rw [Go.wrap64_of_ge (by omega) (by omega)]
      omega
  · -- the sum has wrapped around to a time long past
    have hwrap : Go.wrap64 p = p - 2 ^ 64 := Go.wrap64_of_ge (by omega) (by omega)
    rw [hwrap] at hnot ⊢
    rw [Go.wrap64_of_lt (by omega) (by omega)]
    omega

section schedule

variable {rt : Runtime} {cfg : SaltKeyConfig} {vm : VirtualMachine} {interval wait last now : Int}

theorem Scheduled.enforcementDue (hs : Scheduled rt cfg vm interval last) :
    enforcementDue rt cfg vm.uid (vm.annotationOf annotationHighstateTime) now =
      if Go.since now last ≥ Go.wrap64 (period rt vm interval) then (true, 0)
      else (false, Go.wrap64 (Go.wrap64 (period rt vm interval) - Go.since now last)) :=
  enforcementDue_eq vm.uid now hs.parsed hs.positive hs.recorded hs.time

/-- A pass that waits for the next run waits no longer than that, unless the time until
then does not fit. -/
theorem Scheduled.wait_iff (hs : Scheduled rt cfg vm interval last)
    (hd : SaltOperator.enforcementDue rt cfg vm.uid (vm.annotationOf annotationHighstateTime) now =
      (false, wait)) :
    (0 < wait ∧ now + wait ≤ last + period rt vm interval) ↔
      (period rt vm interval < 2 ^ 63 → period rt vm interval - Go.since now last < 2 ^ 63) := by
  have hpos : (0 : Int) < interval := hs.positive
  have hlt := Go.parseDuration_lt hs.parsed
  have hjitter := enforcementJitter_bounds rt vm.uid hpos
  have hperiod : ∃ p : Int, period rt vm interval = p ∧ 0 < p ∧ p < 2 ^ 63 + 2 ^ 60 :=
    ⟨_, rfl, by unfold period; omega, by unfold period; omega⟩
  obtain ⟨p, hp, hp₀, hp₁⟩ := hperiod
  rw [hs.enforcementDue, hp] at hd
  rw [hp]
  split at hd
  · cases hd
  · rename_i hnot
    obtain rfl : Go.wrap64 (Go.wrap64 p - Go.since now last) = wait := congrArg Prod.snd hd
    exact wrap64_wait_iff hp₀ hp₁ rfl (not_le.mp hnot)

/-- Nothing is left to wait for when a run is due. -/
theorem Scheduled.inTime_of_due (hs : Scheduled rt cfg vm interval last)
    (hd : (SaltOperator.enforcementDue rt cfg vm.uid (vm.annotationOf annotationHighstateTime)
      now).1 = true) (hfit : period rt vm interval < 2 ^ 63) :
    period rt vm interval - Go.since now last < 2 ^ 63 := by
  have hpos : (0 : Int) < interval := hs.positive
  have hjitter := enforcementJitter_bounds rt vm.uid hpos
  have hperiod : ∃ p : Int, period rt vm interval = p ∧ 0 < p := ⟨_, rfl, by unfold period; omega⟩
  obtain ⟨p, hp, hp₀⟩ := hperiod
  rw [hs.enforcementDue, hp] at hd
  rw [hp] at hfit ⊢
  have hwrap : Go.wrap64 p = p := Go.wrap64_of_lt (by omega) hfit
  rw [hwrap] at hd
  split at hd
  · rename_i hge
    exact lt_of_le_of_lt (sub_nonpos.mpr hge) (by decide)
  · cases hd

end schedule

/-! ## What a pass leaves -/

section wokenUp

variable {rt : Runtime} {cfg : SaltKeyConfig} {vm m n : VirtualMachine} {now : Time} {res : Result}
  {ok : AnswerCondition} {conn : Connection} {minionID : String} {h' : History}
  {additions : List (String × String)}

/-- A pass that does not ask for another one has to leave nothing to be done. -/
theorem wokenUp_zero_iff :
    WokenUp rt cfg now vm {} ↔ ¬ Cause rt vm cfg ∧ ¬ Enforceable rt cfg vm := by
  constructor
  · intro hw
    refine ⟨fun hc => absurd (hw.cause hc) (by decide), ?_⟩
    rintro ⟨hready, interval, last, hs⟩
    exact absurd (hw.due hready interval last hs).1 (by decide)
  · rintro ⟨hc, he⟩
    exact ⟨fun h => absurd h hc, fun hready interval last hs =>
      absurd ⟨hready, interval, last, hs⟩ he⟩

/-- Nothing is to be done about a VM that is under way. -/
theorem wokenUp_of_underway (hc : ¬ Cause rt vm cfg)
    (hst : vm.annotationOf annotationSaltStatus ≠ saltStatusReady) : WokenUp rt cfg now vm res :=
  ⟨fun h => absurd h hc, fun h => absurd h hst⟩

theorem scheduled_congr {interval : Duration} {last : Time}
    (htime : m.annotationOf annotationHighstateTime = vm.annotationOf annotationHighstateTime) :
    Scheduled rt cfg m interval last ↔ Scheduled rt cfg vm interval last := by
  constructor
  · rintro ⟨h₁, h₂, h₃, h₄⟩
    exact ⟨h₁, h₂, htime ▸ h₃, htime ▸ h₄⟩
  · rintro ⟨h₁, h₂, h₃, h₄⟩
    exact ⟨h₁, h₂, htime.symm ▸ h₃, htime.symm ▸ h₄⟩

theorem enforceable_congr
    (hst : m.annotationOf annotationSaltStatus = vm.annotationOf annotationSaltStatus)
    (htime : m.annotationOf annotationHighstateTime = vm.annotationOf annotationHighstateTime) :
    Enforceable rt cfg m ↔ Enforceable rt cfg vm := by
  unfold Enforceable
  simp only [scheduled_congr htime, hst]

/-- What a pass does before the chain changes nothing about the next one. -/
theorem Readied.keepsAwake (hm : Readied vm m) :
    KeepsAwake rt cfg now m ↔ KeepsAwake rt cfg now vm := by
  have hadopts : adopts rt m = adopts rt vm := by
    unfold adopts
    rw [hm.annotationOf (by decide), hm.annotationOf (by decide)]
  have hskipped : Skipped rt cfg m ↔ Skipped rt cfg vm := by
    unfold Skipped matchesVMSelector
    rw [hm.annotationOf (by decide), hm.annotationOf (by decide), hm.annotationOf (by decide),
      hm.chainFailed, hm.labels]
  have henf : Enforceable rt cfg m ↔ Enforceable rt cfg vm :=
    enforceable_congr (hm.annotationOf (by decide)) (hm.annotationOf (by decide))
  have hsched : ∀ interval last,
      Scheduled rt cfg m interval last ↔ Scheduled rt cfg vm interval last :=
    fun _ _ => scheduled_congr (hm.annotationOf (by decide))
  have hperiod : period rt m = period rt vm := by
    unfold period
    rw [hm.uid]
  constructor
  · rintro ⟨h₁, h₂, h₃⟩
    rw [hskipped, hm.cause, henf] at h₁
    rw [hskipped, hadopts, hm.retryRequested, hm.bulkChanged, hm.chainFailed, henf] at h₂
    rw [hskipped, hadopts, hm.cause, hm.annotationOf (by decide), hperiod] at h₃
    exact ⟨h₁, h₂, fun a b c d i l hs => h₃ a b c d i l ((hsched i l).mpr hs)⟩
  · rintro ⟨h₁, h₂, h₃⟩
    rw [← hskipped, ← hm.cause, ← henf] at h₁
    rw [← hskipped, ← hadopts, ← hm.retryRequested, ← hm.bulkChanged,
      ← hm.chainFailed, ← henf] at h₂
    rw [← hskipped, ← hadopts, ← hm.cause, ← hm.annotationOf (by decide), ← hperiod] at h₃
    exact ⟨h₁, h₂, fun a b c d i l hs => h₃ a b c d i l ((hsched i l).mp hs)⟩

/-- A pass that is over at once makes sure of the next one if that is not needed. -/
theorem wokenUp_skipped_iff (hs : Skipped rt cfg vm) (version : Nat) :
    WokenUp rt cfg now (vm.written [] version) {} ↔ KeepsAwake rt cfg now vm := by
  have hm : Readied vm (vm.written [] version) := ⟨rfl, rfl, rfl, rfl, fun _ _ => rfl⟩
  rw [← hm.keepsAwake, wokenUp_zero_iff]
  have hs' : Skipped rt cfg (vm.written [] version) := hs
  exact ⟨fun h => ⟨fun _ => h, fun hn => absurd hs' hn, fun hn => absurd hs' hn⟩,
    fun h => h.skipped hs'⟩

/-- A patch that ends with the markers, and brings the hash up to date if there is
one, leaves no cause. -/
theorem not_cause_of_handled {pre : List (String × String)} (hown : OwnKeys pre)
    (hretry : pre.reverse.lookup annotationRetryHandled = none)
    (hbulk : bulkChanged m cfg = false → pre.reverse.lookup annotationBulkRetryHandled = none)
    (hhash : ∀ hash, (pre.reverse.lookup annotationRolesHash).getD
      (m.annotationOf annotationRolesHash) = hash →
      hash = "" ∨ hash = computeIntentHash rt m.annotations) (version : Nat) :
    ¬ Cause rt (m.written (pre ++ handledMarkers m cfg) version) cfg := by
  refine not_cause_of_notes (m := m) ((hown.append (ownKeys_handledMarkers m cfg)).tenantEq m)
    ?_ ?_ ?_
  · rw [VirtualMachine.annotationOf_written, lookup_append_handled _ (by decide) (by decide)]
    exact hhash _ rfl
  · rw [VirtualMachine.annotationOf_written, List.reverse_append, List.lookup_append,
      lookup_handledMarkers_retry, hretry]
    split <;> rfl
  · rw [VirtualMachine.annotationOf_written, List.reverse_append, List.lookup_append,
      lookup_handledMarkers_bulk]
    split
    · rfl
    · rename_i hno
      rw [hbulk (by simpa using hno)]
      rfl

/-- When no retry is requested, the markers note the bulk token. -/
theorem noting_eq_handledMarkers (hretry : retryRequested m = false) :
    noting m cfg = handledMarkers m cfg := by
  unfold noting handledMarkers
  simp [hretry]

/-- Noting a token that starts nothing leaves no cause. -/
theorem not_cause_of_noted (hno : triggered rt m cfg = false) (version : Nat) :
    ¬ Cause rt (m.written (noting m cfg) version) cfg := by
  simp only [triggered, Bool.or_eq_false_iff] at hno
  obtain ⟨⟨hintent, hretry⟩, -⟩ := hno
  rw [noting_eq_handledMarkers hretry]
  refine not_cause_of_handled (ownKeys_of_all (l := []) rfl) rfl (fun _ => rfl) ?_ version
  rintro hash rfl
  refine .inr ?_
  exact (of_not_not (of_decide_eq_false hintent)).symm

theorem annotationOf_noted {a : String} (ha : a ≠ annotationBulkRetryHandled) (version : Nat) :
    (m.written (noting m cfg) version).annotationOf a = m.annotationOf a := by
  rw [VirtualMachine.annotationOf_written]
  unfold noting
  split
  · simp [beq_eq_false_iff_ne.mpr ha]
  · rfl

/-- What the patches of `runDay2` have in common. -/
structure Moving (patch : List (String × String)) : Prop where
  own : OwnKeys patch
  retry : patch.reverse.lookup annotationRetryHandled = none
  bulk : patch.reverse.lookup annotationBulkRetryHandled = none
  status : ∃ st, patch.reverse.lookup annotationSaltStatus = some st ∧ st ≠ saltStatusReady

theorem Day2Patch.moving {patch : List (String × String)} {requeueAfter : Duration}
    (hp : Day2Patch ok conn minionID requeueAfter h' patch res) : Moving patch := by
  cases hp with
  | refreshFailed => exact ⟨ownKeys_of_all rfl, rfl, rfl, _, rfl, by decide⟩
  | dispatchFailed => exact ⟨ownKeys_of_all rfl, rfl, rfl, _, rfl, by decide⟩
  | dispatched jid => exact ⟨ownKeys_of_all rfl, rfl, rfl, _, rfl, by decide⟩

/-- A Day-2 run leaves nothing to be done. -/
theorem Moving.wokenUp {patch pre : List (String × String)} (hp : Moving patch) (hown : OwnKeys pre)
    (hretry : pre.reverse.lookup annotationRetryHandled = none)
    (hbulk : bulkChanged m cfg = false → pre.reverse.lookup annotationBulkRetryHandled = none)
    (version : Nat) : WokenUp rt cfg now
      (m.written (pre ++ withMarkers (day2Markers rt m cfg) patch) version) res := by
  have hsplit : pre ++ withMarkers (day2Markers rt m cfg) patch =
      (pre ++ (patch ++ [(annotationRolesHash, computeIntentHash rt m.annotations)])) ++
        handledMarkers m cfg := by
    simp [withMarkers, day2Markers]
  have hother : ∀ a ∈ [annotationRetryHandled, annotationBulkRetryHandled, annotationSaltStatus],
      (a == annotationRolesHash) = false := by decide
  have hlookup : ∀ a ∈ [annotationRetryHandled, annotationBulkRetryHandled, annotationSaltStatus],
      (pre ++ (patch ++ [(annotationRolesHash, computeIntentHash rt m.annotations)])).reverse.lookup
        a = (patch.reverse.lookup a).or (pre.reverse.lookup a) := by
    intro a ha
    simp [List.lookup_append, List.lookup, hother a ha]
  refine wokenUp_of_underway ?_ ?_
  · rw [hsplit]
    refine not_cause_of_handled (hown.append (hp.own.append (ownKeys_of_all rfl))) ?_ ?_ ?_ version
    · rw [hlookup _ (by simp), hp.retry, hretry]
      rfl
    · intro hno
      rw [hlookup _ (by simp), hp.bulk, hbulk hno]
      rfl
    · rintro hash rfl
      exact .inr (by simp)
  · obtain ⟨st, hst, hne⟩ := hp.status
    rw [hsplit, VirtualMachine.annotationOf_written,
      lookup_append_handled _ (by decide) (by decide),
      hlookup _ (by simp), hst]
    exact hne

/-- The object after its hash was brought up to date. -/
def VirtualMachine.adopting (m : VirtualMachine) (rt : Runtime) (version : Nat) : VirtualMachine :=
  m.written [(annotationRolesHash, computeIntentHash rt m.annotations)] version

theorem annotationOf_adopting {a : String} (ha : a ≠ annotationRolesHash) (version : Nat) :
    (m.adopting rt version).annotationOf a = m.annotationOf a := by
  unfold VirtualMachine.adopting
  rw [VirtualMachine.annotationOf_written]
  simp [beq_eq_false_iff_ne.mpr ha]

/-- The hash of an older version is replaced: what else there is remains. -/
theorem cause_adopting {version : Nat} : Cause rt (m.adopting rt version) cfg ↔
    retryRequested m = true ∨ (bulkChanged m cfg = true ∧ m.chainFailed = true) := by
  have hintent : intentChanged rt (m.adopting rt version) = false := by
    have ht : TenantEq m (m.adopting rt version) :=
      (ownKeys_of_all rfl : OwnKeys [(annotationRolesHash, _)]).tenantEq m
    unfold intentChanged
    rw [← ht.computeIntentHash, VirtualMachine.adopting, VirtualMachine.annotationOf_written]
    simp
  have hretry : retryRequested (m.adopting rt version) = retryRequested m := by
    unfold retryRequested
    rw [annotationOf_adopting (by decide), annotationOf_adopting (by decide)]
  have hbulk : bulkChanged (m.adopting rt version) cfg = bulkChanged m cfg := by
    unfold bulkChanged
    rw [annotationOf_adopting (by decide)]
  have hfailed : (m.adopting rt version).chainFailed = m.chainFailed := by
    unfold VirtualMachine.chainFailed
    rw [annotationOf_adopting (by decide)]
  unfold Cause
  rw [hintent, hretry, hbulk, hfailed]
  simp only [Bool.false_eq_true, and_false, false_or]

theorem not_ready_of_failed (hf : m.chainFailed = true) :
    m.annotationOf annotationSaltStatus ≠ saltStatusReady := saltStatus_of_failed hf (by decide)

/-- **What a pass that comes to the causes leaves, and returns.** -/
theorem Reconverges.wokenUp_iff (hman : m.annotationOf annotationManaged = annotationTrue)
    (hsel : matchesVMSelector rt cfg m = true) (hid : m.annotationOf annotationMinionID ≠ "")
    (hset : m.annotationOf annotationSaltStatus = saltStatusReady ∨ m.chainFailed = true)
    (hr : Reconverges rt ok m conn cfg minionID now h' additions res) (version : Nat) :
    WokenUp rt cfg now (m.written additions version) res ↔ KeepsAwake rt cfg now m := by
  have hskipped : Skipped rt cfg m ↔
      m.annotationOf annotationRolesHash = "" ∧ m.chainFailed = false := by
    simp [Skipped, hman, hsel, hid]
  -- a failed chain has no schedule to keep
  have failed : m.chainFailed = true → adopts rt m = false → KeepsAwake rt cfg now m := by
    intro hf ha
    refine ⟨fun hs => ?_, fun _ hyes => ?_, fun _ _ _ hready =>
      absurd hready (not_ready_of_failed hf)⟩
    · rw [hskipped, hf] at hs
      cases hs.2
    · rw [ha] at hyes
      cases hyes
  have today : ∀ {hash}, m.annotationOf annotationRolesHash = hash →
      adopts rt m = true → hash ≠ "" := by
    rintro hash rfl ha hempty
    simp [adopts, hempty] at ha
  cases hr with
  | idle hhash hno =>
    exact wokenUp_skipped_iff (hskipped.mpr ⟨hhash, hno⟩) version
  | unasked hhash hf hretry hbulk =>
    refine iff_of_true (wokenUp_of_underway ?_ (not_ready_of_failed hf)) (failed hf ?_)
    · have hm : Readied m (m.written [] version) := ⟨rfl, rfl, rfl, rfl, fun _ _ => rfl⟩
      rw [hm.cause]
      simp [Cause, hhash, hretry, hbulk]
    · exact Bool.eq_false_iff.mpr fun ha => today hhash ha rfl
  | restarted hhash hf _ =>
    refine iff_of_true (wokenUp_of_underway ?_ ?_) (failed hf ?_)
    · refine not_cause_of_handled (ownKeys_of_all rfl) rfl (fun _ => rfl) ?_ version
      rintro hash rfl
      exact .inl hhash
    · rw [VirtualMachine.annotationOf_written, lookup_append_handled _ (by decide) (by decide)]
      show "" ≠ saltStatusReady
      decide
    · exact Bool.eq_false_iff.mpr fun ha => today hhash ha rfl
  | adopted hyes =>
    have hns : ¬ Skipped rt cfg m := fun hs => today (hskipped.mp hs).1 hyes rfl
    show WokenUp rt cfg now (m.adopting rt version) {} ↔ _
    rw [wokenUp_zero_iff, cause_adopting, enforceable_congr
      (annotationOf_adopting (by decide) version) (annotationOf_adopting (by decide) version)]
    constructor
    · rintro ⟨hc, he⟩
      refine ⟨fun hs => absurd hs hns, fun _ _ => ⟨?_, ?_, he⟩, fun _ hno => ?_⟩
      · exact Bool.eq_false_iff.mpr fun hretry => hc (.inl hretry)
      · refine Bool.eq_false_iff.mpr fun hbulk => hc (.inr ?_)
        simpa using hbulk
      · rw [hyes] at hno
        cases hno
    · intro hk
      obtain ⟨hretry, hbulk, he⟩ := hk.adopted hns hyes
      refine ⟨?_, he⟩
      rintro (hc | ⟨hb, hf⟩)
      · rw [hretry] at hc
        cases hc
      · rw [hb, hf] at hbulk
        cases hbulk
  | settled hhash ha hno hst =>
    have hf := hset.resolve_left hst
    refine iff_of_true (wokenUp_of_underway (not_cause_of_noted hno version) ?_) (failed hf ha)
    rw [annotationOf_noted (by decide)]
    exact hst
  | waits wait hhash ha hno hst hdue =>
    have hns : ¬ Skipped rt cfg m := fun hs => hhash (hskipped.mp hs).1
    have htime : (m.written (noting m cfg) version).annotationOf annotationHighstateTime =
        m.annotationOf annotationHighstateTime := annotationOf_noted (by decide) version
    constructor
    · intro hw
      refine ⟨fun hs => absurd hs hns, fun _ hyes => ?_, fun _ _ _ _ interval last hs => ?_⟩
      · rw [ha] at hyes
        cases hyes
      · refine (hs.wait_iff hdue).mp (hw.due ?_ interval last ((scheduled_congr htime).mpr hs))
        rw [annotationOf_noted (by decide)]
        exact hst
    · intro hk
      refine ⟨fun hc => absurd hc (not_cause_of_noted hno version), fun _ interval last hs => ?_⟩
      have hs' := (scheduled_congr htime).mp hs
      refine (hs'.wait_iff hdue).mpr (hk.inTime hns ha ?_ hst interval last hs')
      rw [cause_iff_triggered hhash, hno]
      simp
  | enforced patch res hhash ha hno hst hdue hp =>
    refine iff_of_true (hp.moving.wokenUp ?_ ?_ ?_ version) ⟨fun hs => ?_, fun _ hyes => ?_, ?_⟩
    · unfold noting
      split <;> exact ownKeys_of_all rfl
    · unfold noting
      split <;> rfl
    · intro hb
      unfold noting
      rw [hb]
      rfl
    · exact absurd (hskipped.mp hs).1 hhash
    · rw [ha] at hyes
      cases hyes
    · exact fun _ _ _ _ interval last hs hfit => hs.inTime_of_due hdue hfit
  | reset hhash ha hyes hf =>
    refine iff_of_true (wokenUp_of_underway ?_ ?_) (failed hf ha)
    · refine not_cause_of_handled (ownKeys_of_all rfl) rfl (fun _ => rfl) ?_ version
      rintro hash rfl
      exact .inr rfl
    · rw [VirtualMachine.annotationOf_written, lookup_append_handled _ (by decide) (by decide)]
      show "" ≠ saltStatusReady
      decide
  | day2 patch res hhash ha hyes hf hp =>
    refine iff_of_true ?_ ⟨fun hs => ?_, fun _ hyes => ?_, fun _ _ hno => absurd ?_ hno⟩
    · exact hp.moving.wokenUp (ownKeys_of_all (l := []) rfl) rfl (fun _ => rfl) version
    · exact absurd (hskipped.mp hs).1 hhash
    · rw [ha] at hyes
      cases hyes
    · exact (cause_iff_triggered hhash).mpr hyes

end wokenUp

/-- **A pass over a settled VM makes sure of the next one exactly when the VM and its
config meet `KeepsAwake`.** The VM is any that an API server can hold, whatever
release it is from; nobody else acts during the pass, and every call but the read of
the configs may be answered in any way that lets the pass return without an error. -/
theorem settled_wokenUp_iff (rt : Runtime) (d : Default) {w w' : World} {k : NamespacedName}
    {vm : VirtualMachine} {cfg : SaltKeyConfig} {h h' : History} {res : Result}
    (hvm : w.vms k = .live vm) (hkey : vm.key = k) (hcfg : w.config? k.nspace = some cfg)
    (hdel : vm.deleting = false)
    (hacc : vm.annotationOf annotationKeyStatus = keyStatusAccepted)
    (hset : vm.annotationOf annotationSaltStatus = saltStatusReady ∨ vm.chainFailed = true)
    (hr : (reconcile rt d k).Runs (Served rt FreshConfigs) w h (.ok res) w' h') :
    (∀ vm', w'.vms k = .live vm' → WokenUp rt cfg w.now vm' res) ↔
      KeepsAwake rt cfg w.now vm := by
  have hfresh : Fresh FreshConfigs := fun _ _ _ hok => hok
  -- a pass that is over at once leaves the VM as it is
  have early : Skipped rt cfg vm → res = {} → w' = w →
      ((∀ vm', w'.vms k = .live vm' → WokenUp rt cfg w.now vm' res) ↔
        KeepsAwake rt cfg w.now vm) := by
    rintro hs rfl rfl
    rw [← wokenUp_skipped_iff hs vm.resourceVersion, VirtualMachine.written_nil, hvm]
    simp
  by_cases hman : vm.annotationOf annotationManaged = annotationTrue
  swap
  · rcases runs_reconcile hfresh hvm hr with ⟨e, he, -⟩ | ⟨-, hres, rfl⟩ | ⟨cfg', h₁, hg, -⟩
    · cases he
    · exact early (.inl hman) (Except.ok.inj hres) rfl
    · exact absurd hg.managed hman
  have hg : Governed w k vm cfg := ⟨hvm, hman, hcfg⟩
  cases hsel : matchesVMSelector rt cfg vm with
  | false =>
    rcases runs_reconcile hfresh hvm hr with ⟨e, he, -⟩ | ⟨hno, -, -⟩ | ⟨cfg', h₁, hg', hr⟩
    · cases he
    · exact absurd hg (hno cfg)
    · obtain rfl : cfg = cfg' := Option.some.inj (hcfg.symm.trans hg'.config)
      rw [if_neg (by simp [hdel]), if_pos (by simp [hsel])] at hr
      obtain ⟨hres, rfl, -⟩ := Prog.runs_ret.mp hr
      exact early (.inr (.inl hsel)) (Except.ok.inj hres) rfl
  | true =>
    rcases runs_accepted hfresh hg hkey hdel hsel hacc hr with
      ⟨e, he, -⟩ | ⟨m, conn, additions, res', version, cache, secrets, hm, -, hstep, hres, rfl⟩
    · cases he
    · obtain rfl : res = res' := Except.ok.inj hres
      have hlive : (∀ vm', Function.update w.vms k (.live (m.written additions version)) k =
          .live vm' → WokenUp rt cfg w.now vm' res) ↔
            WokenUp rt cfg w.now (m.written additions version) res := by
        simp
      refine hlive.trans ?_
      have hstatus : ∀ s, Go.hasPrefix s failedStatusPrefix = false → s ≠ saltStatusReady →
          m.annotationOf annotationSaltStatus ≠ s := by
        intro s hs hne heq
        rw [hm.annotationOf (by decide)] at heq
        rcases hset with hready | hf
        · exact hne (heq.symm.trans hready)
        · exact saltStatus_of_failed hf hs heq
      cases hstep with
      | noMinion hno =>
        rw [← hm.keepsAwake]
        exact wokenUp_skipped_iff (.inr (.inr (.inl hno))) version
      | connecting hst => exact absurd hst (hstatus _ (by decide) (by decide))
      | pinged hst => exact absurd hst (hstatus _ (by decide) (by decide))
      | pingFailed _ _ hst => exact absurd hst (hstatus _ (by decide) (by decide))
      | refreshed hst => exact absurd hst (hstatus _ (by decide) (by decide))
      | refreshFailed _ _ hst => exact absurd hst (hstatus _ (by decide) (by decide))
      | dispatched _ hst => exact absurd hst (hstatus _ (by decide) (by decide))
      | dispatchFailed _ _ hst => exact absurd hst (hstatus _ (by decide) (by decide))
      | polled _ _ _ hst => exact absurd hst (hstatus _ (by decide) (by decide))
      | unfinished hst => exact absurd hst (hstatus _ (by decide) (by decide))
      | atRest _ _ hid _ hrest =>
        rw [← hm.keepsAwake]
        refine hrest.wokenUp_iff ?_ ?_ hid ?_ version
        · rw [hm.annotationOf (by decide), hman]
        · unfold matchesVMSelector at hsel ⊢
          rw [hm.labels]
          exact hsel
        · rw [hm.annotationOf (by decide), hm.chainFailed]
          exact hset

/-! ## A retry, asked of today's release and of an older one -/

namespace Sample

/-- A VM that is ready, with this hash, and asked for a retry. -/
def readyVM (hash : String) : VirtualMachine :=
  { vm "a" "u1" with
    annotations := StringMap.copy (vm "a" "u1").annotations
      [(annotationRoles, "web"), (annotationKeyStatus, keyStatusAccepted),
       (annotationMinionID, "web"), (annotationSaltStatus, saltStatusReady),
       (annotationRolesHash, hash), (annotationRetryRequest, "now")] }

/-- A cluster with that VM and no other. -/
def readyWorld (hash : String) : World :=
  { (ClusterCfg.created time secrets (readyVM hash)).world with
    configs := [config "a" keyAcceptanceDiscovery] }

theorem readyWorld_vms (hash : String) : (readyWorld hash).vms key = .live (readyVM hash) := by
  have hkey : (readyVM hash).key = key := rfl
  simp [readyWorld, ClusterCfg.created, World.setVM, hkey]

end Sample

/-- A pass over a ready VM with today's hash that is asked for a retry. -/
theorem settled_wokenUp_retry : ∃ res w' h',
    (reconcile Sample.runtime Sample.noDefault Sample.key).Runs
      (Served Sample.runtime FreshConfigs) (Sample.readyWorld "v2:e49ba5f66eace4cd") [] (.ok res)
      w' h' ∧
    ∀ vm', w'.vms Sample.key = .live vm' →
      WokenUp Sample.runtime (Sample.config "a" keyAcceptanceDiscovery) Sample.time vm' res := by
  obtain ⟨r, w', h', hr, hres⟩ := Sample.exists_runs_pass (s := Sample.discovery)
    (Sample.raas_succeeds _) (Sample.readyWorld "v2:e49ba5f66eace4cd") []
    (fun out => out.1.toOption.isSome) (by decide +kernel)
  cases r with
  | error e => cases hres
  | ok res =>
    have hr' : (reconcile Sample.runtime Sample.noDefault Sample.key).Runs
        (Served Sample.runtime FreshConfigs) (Sample.readyWorld "v2:e49ba5f66eace4cd") []
        (.ok res) w' h' := hr.mono (Served.mono fun _ _ _ hok => hok.1)
    refine ⟨res, w', h', hr', ?_⟩
    refine (settled_wokenUp_iff _ _ (Sample.readyWorld_vms _) rfl rfl rfl
      (by decide +kernel) (.inl (by decide +kernel)) hr').mpr ?_
    have hns : ¬ Skipped Sample.runtime (Sample.config "a" keyAcceptanceDiscovery)
        (Sample.readyVM "v2:e49ba5f66eace4cd") := by
      unfold Skipped
      decide +kernel
    have hno : adopts Sample.runtime (Sample.readyVM "v2:e49ba5f66eace4cd") = false := by
      decide +kernel
    refine ⟨fun hs => absurd hs hns, fun _ hyes => ?_, fun _ _ hc => absurd (.inr (.inl ?_)) hc⟩
    · rw [hno] at hyes
      cases hyes
    · decide +kernel

/-- A ready VM whose hash is from an older release is asked for a retry: the pass adopts
the hash, asks for no other pass, and leaves the request unhandled. -/
theorem settled_forgotten : ∃ w' h' vm',
    (reconcile Sample.runtime Sample.noDefault Sample.key).Runs
      (Served Sample.runtime AllSucceed) (Sample.readyWorld "4b5e57f6eb2f42b9") [] (.ok {}) w' h' ∧
    w'.vms Sample.key = .live vm' ∧ retryRequested vm' = true := by
  obtain ⟨r, w', h', hr, hcheck⟩ := Sample.exists_runs_pass (s := Sample.discovery)
    (Sample.raas_succeeds _) (Sample.readyWorld "4b5e57f6eb2f42b9") []
    (fun out => (out.1.toOption.any fun res => res.requeueAfter = 0) &&
      (out.2.vms Sample.key).vm?.any fun vm => retryRequested vm) (by decide +kernel)
  obtain ⟨hres, hvm⟩ := (Bool.and_eq_true _ _).mp hcheck
  obtain ⟨vm', hvm', hretry⟩ := Slot.vm?_any hvm
  cases r with
  | error e => cases hres
  | ok res =>
    obtain rfl : res = {} := by
      cases res
      simpa [Except.toOption] using hres
    exact ⟨w', h', vm', hr, hvm', hretry⟩

end SaltOperator
