import SaltOperator.Lib.Changes
import SaltOperator.Cluster.Run

/-!
# Why and how often a chain starts again

A chain that has come to rest is started again by a change of the intent, a retry
request, a bulk retry or the enforcement schedule. The first three are noted on the
VM when they are acted on: in `roles-hash`, `retry-handled` and
`bulk-retry-handled`.

- `Notes`: every patch of the operator leaves each of the three notes as it is or
  brings it up to date, and a patch that an unscheduled start is waiting for changes
  one of them.
- `Books`: the starts so far are paid for by the changes noted so far and the due
  enforcements.

**In every run without failed writes, a chain is started at most as often as the
intent, the retry request and the bulk token change and an enforcement is due**
(`chainStarts_bounded`), if tenants leave the notes alone.
-/

namespace SaltOperator

/-! ## What the worker knows -/

namespace History

/-- The retry tokens of the configs that were selected, newest first. -/
def tokens : History → List String
  | [] => []
  | ⟨_, .listConfigs _, .ok configs⟩ :: h =>
    match selectConfig configs with
    | some cfg => cfg.spec.retryToken :: tokens h
    | none => tokens h
  | _ :: h => tokens h

/-- The annotation as it was on the object the worker got last. -/
def recorded (h : History) (a : String) : String := (h.lastVM.map (·.annotationOf a)).getD ""

/-- The versions up to the object the worker got last. -/
def seenVersions (versions : List VirtualMachine) (h : History) : List VirtualMachine :=
  match h.lastVM with
  | none => []
  | some m => upTo m.resourceVersion versions

/-- The token of the config the pass works with is the newest one. -/
theorem tokens_of_passInputs {vm : VirtualMachine} {cfg : SaltKeyConfig} :
    ∀ {h : History}, h.passInputs = some (vm, cfg) → ∃ rest, h.tokens = cfg.spec.retryToken :: rest
  | [], hi => by cases hi
  | ⟨w, o, a⟩ :: h, hi => by
    cases o with
    | listConfigs nspace =>
      cases a with
      | error e => exact tokens_of_passInputs (h := h) hi
      | ok configs =>
        unfold passInputs at hi
        split at hi
        · rename_i vm' cfg' _ hsel
          cases hi
          refine ⟨tokens h, ?_⟩
          show (match selectConfig configs with
            | some cfg => cfg.spec.retryToken :: tokens h
            | none => tokens h) = _
          rw [hsel]
        · cases hi
    | getVM key =>
      obtain ⟨hi', -⟩ := Option.filter_eq_some_iff.mp hi
      exact tokens_of_passInputs (h := h) hi'
    | _ => exact tokens_of_passInputs (h := h) hi

theorem recorded_of_lastVM {h : History} {m : VirtualMachine} (hm : h.lastVM = some m)
    (a : String) : h.recorded a = m.annotationOf a := by
  unfold recorded
  rw [hm]
  rfl

theorem seenVersions_suffix (versions : List VirtualMachine) (h : History) :
    h.seenVersions versions <:+ versions := by
  unfold seenVersions
  split
  · exact List.nil_suffix
  · exact upTo_suffix _ _

end History

/-! ## What the patches note -/

section notes

variable {rt : Runtime} {crash : Prop} {k : NamespacedName} {h : History} {cfg : SaltKeyConfig}
  {m base obj seen : VirtualMachine}

/-- What a patch from `base` to `obj` does to the notes. -/
structure Notes (rt : Runtime) (h : History) (base obj : VirtualMachine) : Prop where
  intent : obj.annotationOf annotationRolesHash = base.annotationOf annotationRolesHash ∨
    obj.annotationOf annotationRolesHash = computeIntentHash rt base.annotations
  retry : obj.annotationOf annotationRetryHandled = base.annotationOf annotationRetryHandled ∨
    obj.annotationOf annotationRetryHandled = base.annotationOf annotationRetryRequest
  token : obj.annotationOf annotationBulkRetryHandled =
      base.annotationOf annotationBulkRetryHandled ∨
    ∃ vm cfg, h.passInputs = some (vm, cfg) ∧
      obj.annotationOf annotationBulkRetryHandled = cfg.spec.retryToken
  owed : h.startPending = some false →
    obj.annotationOf annotationRolesHash ≠ base.annotationOf annotationRolesHash ∨
    obj.annotationOf annotationRetryHandled ≠ base.annotationOf annotationRetryHandled ∨
    obj.annotationOf annotationBulkRetryHandled ≠ base.annotationOf annotationBulkRetryHandled

/-- What the patch of a chain start writes into the notes. -/
structure StartNotes (rt : Runtime) (seen base obj : VirtualMachine) (cfg : SaltKeyConfig) :
    Prop where
  intent : obj.annotationOf annotationRolesHash =
    if seen.annotationOf annotationRolesHash = "" then base.annotationOf annotationRolesHash
    else computeIntentHash rt seen.annotations
  retry : obj.annotationOf annotationRetryHandled =
    if retryRequested seen then seen.annotationOf annotationRetryRequest
    else base.annotationOf annotationRetryHandled
  token : obj.annotationOf annotationBulkRetryHandled =
    if bulkChanged seen cfg then cfg.spec.retryToken
    else base.annotationOf annotationBulkRetryHandled

theorem StartPatch.notes {patch : List (String × String)}
    (hp : StartPatch rt h m seen cfg patch) :
    StartNotes rt seen base (base.withAnnotations (patch ++ handledMarkers seen cfg)) cfg := by
  constructor
  · rw [VirtualMachine.annotationOf_withAnnotations,
      lookup_append_handled _ (by decide) (by decide), hp.hash]
    split <;> rfl
  · rw [VirtualMachine.annotationOf_withAnnotations, List.reverse_append, List.lookup_append,
      lookup_handledMarkers_retry, hp.retry]
    split <;> rfl
  · rw [VirtualMachine.annotationOf_withAnnotations, List.reverse_append, List.lookup_append,
      lookup_handledMarkers_bulk, hp.bulk]
    split <;> rfl

/-- A start that is not scheduled was decided on the object that is patched. -/
theorem StartPatch.unscheduled {patch : List (String × String)}
    (hp : StartPatch rt h m seen cfg patch) (hfalse : h.startPending = some false) :
    seen = m ∧ Cause rt m cfg := by
  have hcause := hp.cause hfalse
  rcases hp.snapshot with rfl | ⟨hno, -⟩
  · exact ⟨rfl, hcause⟩
  · exact absurd hcause hno

/-- A patch that notes the causes its object has leaves none. -/
theorem StartNotes.spent (hn : StartNotes rt base base obj cfg) (ht : TenantEq base obj) :
    ¬ Cause rt obj cfg := by
  refine not_cause_of_notes ht ?_ hn.retry hn.token
  by_cases hhash : base.annotationOf annotationRolesHash = ""
  · exact .inl (by rw [hn.intent, if_pos hhash, hhash])
  · exact .inr (by rw [hn.intent, if_neg hhash])

/-- The patch of a chain start notes the causes the start had. -/
theorem Consumes.notes {additions : List (String × String)} (hc : Consumes rt h base additions) :
    Notes rt h base (base.withAnnotations additions) := by
  obtain ⟨seen, cfg, patch, hp, rfl⟩ := hc
  obtain ⟨vm, hi⟩ := hp.inputs
  have hn : StartNotes rt seen base _ cfg := hp.notes
  rcases hp.snapshot with rfl | ⟨hno, hbulk, -, hown⟩
  · -- decided on the object that is patched
    constructor
    case intent =>
      rw [hn.intent]
      split
      · exact .inl rfl
      · exact .inr rfl
    case retry =>
      rw [hn.retry]
      split
      · exact .inr rfl
      · exact .inl rfl
    case token =>
      rw [hn.token]
      split
      · exact .inr ⟨vm, cfg, hi, rfl⟩
      · exact .inl rfl
    case owed =>
      intro hpending
      rcases hp.cause hpending with ⟨hhash, hi⟩ | hr | ⟨hb, -⟩
      · refine .inl ?_
        rw [hn.intent, if_neg hhash]
        simpa [intentChanged] using hi
      · refine .inr (.inl ?_)
        rw [hn.retry, if_pos hr]
        simp only [retryRequested, Bool.and_eq_true, decide_eq_true_eq] at hr
        exact hr.2
      · refine .inr (.inr ?_)
        rw [hn.token, if_pos hb]
        simp only [bulkChanged, Bool.and_eq_true, decide_eq_true_eq] at hb
        exact hb.2
  · -- decided before a bulk token was noted: there was no cause but the schedule
    have keep : ∀ a ∈ ownAnnotations, base.annotationOf a =
        (seen.withAnnotations
          [(annotationBulkRetryHandled, cfg.spec.retryToken)]).annotationOf a := by
      intro a ha
      rw [VirtualMachine.annotationOf_eq_getD, hown a ha, ← VirtualMachine.annotationOf_eq_getD]
    simp only [Cause, not_or, not_and, Bool.not_eq_true] at hno
    constructor
    case intent =>
      rw [hn.intent]
      refine .inl ?_
      split
      · rfl
      · rename_i hhash
        have hsame : computeIntentHash rt seen.annotations =
            seen.annotationOf annotationRolesHash := by
          simpa [intentChanged] using hno.1 hhash
        rw [hsame, keep annotationRolesHash (by decide),
          VirtualMachine.annotationOf_withAnnotations]
        rfl
    case retry =>
      rw [hn.retry, hno.2.1]
      exact .inl rfl
    case token =>
      rw [hn.token, if_pos hbulk]
      exact .inr ⟨vm, cfg, hi, rfl⟩
    case owed =>
      intro hpending
      rcases hp.cause hpending with ⟨hhash, hi⟩ | hr | ⟨hb, hf⟩
      · rw [hno.1 hhash] at hi
        cases hi
      · rw [hno.2.1] at hr
        cases hr
      · rw [hno.2.2 hb] at hf
        cases hf

/-- A worker that writes what a run on day 2 came to has announced it. -/
theorem Day2.pending (hd : Day2 rt h seen m cfg) : h.startPending ≠ none := by
  obtain ⟨due, hpending, -⟩ := hd.start
  rw [hpending]
  exact nofun

/-- The other patches, of a worker that owes nothing. -/
theorem Write.notes {additions : List (String × String)} (hw : Write rt h base additions)
    (hidle : h.startPending = none) : Notes rt h base (base.withAnnotations additions) := by
  -- additions that touch none of the notes
  have other : additions.reverse.lookup annotationRolesHash = none →
      additions.reverse.lookup annotationRetryHandled = none →
      additions.reverse.lookup annotationBulkRetryHandled = none →
      Notes rt h base (base.withAnnotations additions) := by
    intro h₁ h₂ h₃
    refine ⟨.inl ?_, .inl ?_, .inl ?_, fun hp => by rw [hidle] at hp; cases hp⟩
    · rw [VirtualMachine.annotationOf_withAnnotations, h₁]
      rfl
    · rw [VirtualMachine.annotationOf_withAnnotations, h₂]
      rfl
    · rw [VirtualMachine.annotationOf_withAnnotations, h₃]
      rfl
  cases hw with
  | dispatched jid =>
    refine ⟨.inr ?_, .inl ?_, .inl ?_, fun hp => by rw [hidle] at hp; cases hp⟩
    all_goals
      rw [VirtualMachine.annotationOf_withAnnotations]
      rfl
  | hashAdopted =>
    refine ⟨.inr ?_, .inl ?_, .inl ?_, fun hp => by rw [hidle] at hp; cases hp⟩
    all_goals
      rw [VirtualMachine.annotationOf_withAnnotations]
      rfl
  | bulkNoted vm cfg _ hi =>
    refine ⟨.inl ?_, .inl ?_, .inr ⟨vm, cfg, hi, ?_⟩, fun hp => by rw [hidle] at hp; cases hp⟩
    all_goals
      rw [VirtualMachine.annotationOf_withAnnotations]
      rfl
  | reset vm cfg _ _ _ _ hpending =>
    rw [hidle] at hpending
    cases hpending
  | restart vm cfg _ _ _ _ hpending =>
    rw [hidle] at hpending
    cases hpending
  | day2RefreshFailed seen cfg hd => exact absurd hidle hd.pending
  | day2DispatchFailed seen cfg hd => exact absurd hidle hd.pending
  | day2Dispatched seen cfg jid hd => exact absurd hidle hd.pending
  | _ => exact other rfl rfl rfl

theorem Permitted.notes (hp : Permitted rt crash k h (.patchVM base obj)) :
    Notes rt h base obj := by
  obtain ⟨-, hw, hidle | ⟨additions, rfl, hc⟩⟩ := hp
  · rcases hw with ⟨additions, rfl, hw⟩ | hf
    · exact hw.notes hidle
    · refine ⟨.inl ?_, .inl ?_, .inl ?_, fun hp => by rw [hidle] at hp; cases hp⟩
      all_goals exact hf.ownEq.annotationOf (by decide)
  · exact hc.notes

end notes

/-! ## The books -/

/-- The history of the intent's hash. -/
def intents (rt : Runtime) (versions : List VirtualMachine) : List String :=
  versions.map (fun v => computeIntentHash rt v.annotations) ++ [""]

/-- The history of the retry request. -/
def retries (versions : List VirtualMachine) : List String :=
  versions.map (·.annotationOf annotationRetryRequest) ++ [""]

/-- The changes there have been. -/
def changesSoFar (rt : Runtime) (versions : List VirtualMachine) (h : History) : Nat :=
  changes (intents rt versions) + changes (retries versions) + changes (h.tokens ++ [""])

/-- The worker has noted `n` changes. -/
def Ledger (rt : Runtime) (versions : List VirtualMachine) (h : History) (n : Nat) : Prop :=
  ∃ i r t, Noted (intents rt (h.seenVersions versions)) (h.recorded annotationRolesHash) i ∧
    Noted (retries (h.seenVersions versions)) (h.recorded annotationRetryHandled) r ∧
    Noted (h.tokens ++ [""]) (h.recorded annotationBulkRetryHandled) t ∧ i + r + t = n

section ledger

variable {rt : Runtime} {crash : Prop} {k : NamespacedName}
  {versions versions' : List VirtualMachine}
  {h h' : History} {n : Nat} {m base obj vm : VirtualMachine} {cfg : SaltKeyConfig}

theorem intents_suffix (rt : Runtime) (hv : versions <:+ versions') :
    intents rt versions <:+ intents rt versions' := by
  obtain ⟨l, rfl⟩ := hv
  exact ⟨l.map fun v => computeIntentHash rt v.annotations, by simp [intents]⟩

theorem retries_suffix (hv : versions <:+ versions') : retries versions <:+ retries versions' := by
  obtain ⟨l, rfl⟩ := hv
  exact ⟨l.map (·.annotationOf annotationRetryRequest), by simp [retries]⟩

theorem tokens_append_suffix (ht : h.tokens <:+ h'.tokens) :
    h.tokens ++ [""] <:+ h'.tokens ++ [""] := by
  obtain ⟨l, hl⟩ := ht
  exact ⟨l, by rw [← hl, List.append_assoc]⟩

theorem changesSoFar_mono (rt : Runtime) (hv : versions <:+ versions')
    (ht : h.tokens <:+ h'.tokens) :
    changesSoFar rt versions h ≤ changesSoFar rt versions' h' := by
  have hi := changes_le_of_suffix (intents_suffix rt hv)
  have hr := changes_le_of_suffix (retries_suffix hv)
  have ht' := changes_le_of_suffix (tokens_append_suffix ht)
  unfold changesSoFar
  omega

/-- Nothing noted yet. -/
theorem Ledger.nil : Ledger rt versions [] 0 := ⟨0, 0, 0, .first _, .first _, .first _, rfl⟩

/-- The notes stay as they are and the worker sees more. -/
theorem Ledger.mono (hl : Ledger rt versions h n)
    (hrec : ∀ a ∈ ownAnnotations, h'.recorded a = h.recorded a)
    (hv : h.seenVersions versions <:+ h'.seenVersions versions') (ht : h.tokens <:+ h'.tokens) :
    Ledger rt versions' h' n := by
  obtain ⟨i, r, t, hi, hr, ht', hn⟩ := hl
  refine ⟨i, r, t, ?_, ?_, ?_, hn⟩
  · rw [hrec annotationRolesHash (by decide)]
    exact hi.mono (intents_suffix rt hv)
  · rw [hrec annotationRetryHandled (by decide)]
    exact hr.mono (retries_suffix hv)
  · rw [hrec annotationBulkRetryHandled (by decide)]
    exact ht'.mono (tokens_append_suffix ht)

theorem Ledger.le_changes (hl : Ledger rt versions h n) : n ≤ changesSoFar rt versions h := by
  obtain ⟨i, r, t, hi, hr, ht, rfl⟩ := hl
  have hi' := (hi.mono (intents_suffix rt (h.seenVersions_suffix versions))).le_changes
  have hr' := (hr.mono (retries_suffix (h.seenVersions_suffix versions))).le_changes
  have ht' := ht.le_changes
  unfold changesSoFar
  omega

/-- The newest intent and retry request the worker has seen are those of its
object. -/
theorem seenVersions_head (rt : Runtime) (hm : h.lastVM = some m) (hv : VersionOf versions m) :
    (∃ l, intents rt (h.seenVersions versions) = computeIntentHash rt m.annotations :: l) ∧
    ∃ l, retries (h.seenVersions versions) = m.annotationOf annotationRetryRequest :: l := by
  obtain ⟨v, rest, hup, ht⟩ := hv
  have hseen : h.seenVersions versions = v :: rest := by
    unfold History.seenVersions
    rw [hm]
    exact hup
  rw [hseen]
  refine ⟨⟨intents rt rest, ?_⟩, ⟨retries rest, ?_⟩⟩
  · have hhash : computeIntentHash rt v.annotations = computeIntentHash rt m.annotations := by
      unfold computeIntentHash intentText
      rw [ht.intentSet]
    rw [← hhash]
    rfl
  · have hreq : v.annotationOf annotationRetryRequest = m.annotationOf annotationRetryRequest :=
      ht.annotationOf (by decide)
    rw [← hreq]
    rfl

/-- A patch brings the ledger on: by one change at least if a start waits for
it. -/
theorem Ledger.patch (hl : Ledger rt versions h n) (hm : h.lastVM = some base)
    (hv : VersionOf versions base) (hn : Notes rt h base obj) :
    ∃ i r t, Noted (intents rt (h.seenVersions versions)) (obj.annotationOf annotationRolesHash) i ∧
      Noted (retries (h.seenVersions versions)) (obj.annotationOf annotationRetryHandled) r ∧
      Noted (h.tokens ++ [""]) (obj.annotationOf annotationBulkRetryHandled) t ∧
      n ≤ i + r + t ∧ (h.startPending = some false → n < i + r + t) := by
  obtain ⟨i, r, t, hi, hr, ht, rfl⟩ := hl
  rw [History.recorded_of_lastVM hm] at hi hr ht
  obtain ⟨⟨l₁, h₁⟩, l₂, h₂⟩ := seenVersions_head rt hm hv
  rw [h₁] at hi ⊢
  rw [h₂] at hr ⊢
  obtain ⟨i', hi', hile, hilt⟩ := hi.refresh hn.intent
  obtain ⟨r', hr', hrle, hrlt⟩ := hr.refresh hn.retry
  obtain ⟨t', ht', htle, htlt⟩ : ∃ t', Noted (h.tokens ++ [""])
      (obj.annotationOf annotationBulkRetryHandled) t' ∧ t ≤ t' ∧
      (obj.annotationOf annotationBulkRetryHandled ≠
        base.annotationOf annotationBulkRetryHandled → t < t') := by
    rcases hn.token with hsame | ⟨vm, cfg, hin, hnew⟩
    · exact ⟨t, hsame ▸ ht, le_rfl, fun hne => absurd hsame hne⟩
    · obtain ⟨rest, htok⟩ := History.tokens_of_passInputs hin
      rw [htok] at ht ⊢
      exact ht.refresh (.inr hnew)
  refine ⟨i', r', t', hi', hr', ht', by omega, fun hpending => ?_⟩
  rcases hn.owed hpending with hne | hne | hne
  · have := hilt hne
    omega
  · have := hrlt hne
    omega
  · have := htlt hne
    omega

/-- A cause is a change that is not noted yet. -/
theorem Ledger.lt_of_cause (hl : Ledger rt versions h n) (hm : h.lastVM = some m)
    (hv : VersionOf versions m) (hin : h.passInputs = some (vm, cfg)) (hc : Cause rt m cfg) :
    n < changesSoFar rt versions h := by
  obtain ⟨i, r, t, hi, hr, ht, rfl⟩ := hl
  have hi' := (hi.mono (intents_suffix rt (h.seenVersions_suffix versions))).le_changes
  have hr' := (hr.mono (retries_suffix (h.seenVersions_suffix versions))).le_changes
  have ht' := ht.le_changes
  have hsi := changes_le_of_suffix (intents_suffix rt (h.seenVersions_suffix versions))
  have hsr := changes_le_of_suffix (retries_suffix (h.seenVersions_suffix versions))
  rw [History.recorded_of_lastVM hm] at hi hr ht
  obtain ⟨⟨l₁, h₁⟩, l₂, h₂⟩ := seenVersions_head rt hm hv
  unfold changesSoFar
  rcases hc with ⟨-, hintent⟩ | hretry | ⟨hbulk, -⟩
  · rw [h₁] at hi hsi
    have := hi.lt_changes (by simpa [intentChanged] using hintent)
    omega
  · rw [h₂] at hr hsr
    simp only [retryRequested, Bool.and_eq_true, decide_eq_true_eq] at hretry
    have := hr.lt_changes hretry.2
    omega
  · obtain ⟨rest, htok⟩ := History.tokens_of_passInputs hin
    simp only [bulkChanged, Bool.and_eq_true, decide_eq_true_eq] at hbulk
    rw [htok, List.cons_append] at ht ht' ⊢
    have := ht.lt_changes hbulk.2
    omega

end ledger

/-! ## Runs -/

/-- One if an unscheduled start waits for its patch. -/
def owed (h : History) : Nat := if h.startPending = some false then 1 else 0

/-- The books of a worker. -/
structure Books (rt : Runtime) (versions : List VirtualMachine) (slot : Slot) (h : History) :
    Prop where
  /-- a VM the worker has not seen has no notes -/
  untouched : h.served = [] → ∀ vm, slot = .live vm →
    ∀ a ∈ ownAnnotations, vm.annotations[a]? = none
  /-- the starts are paid for by what is noted, and a start that is not has a
  change to note -/
  balance : ∃ n, Ledger rt versions h n ∧
    h.starts + h.dueJust.toNat ≤ h.dues + n + owed h ∧ n + owed h ≤ changesSoFar rt versions h

section books

variable {rt : Runtime} {crash : Prop} {k : NamespacedName}
  {versions versions' : List VirtualMachine}
  {slot slot' : Slot} {h h' : History} {w : World}

/-- A step that leaves the notes alone and starts nothing. -/
theorem Books.step (hb : Books rt versions slot h)
    (huntouched : h'.served = [] → ∀ vm, slot' = .live vm →
      ∀ a ∈ ownAnnotations, vm.annotations[a]? = none)
    (hrec : ∀ a ∈ ownAnnotations, h'.recorded a = h.recorded a)
    (hseen : h.seenVersions versions <:+ h'.seenVersions versions')
    (hv : versions <:+ versions') (ht : h.tokens <:+ h'.tokens)
    (hcount : h'.starts + h'.dueJust.toNat + h.dues ≤ h.starts + h.dueJust.toNat + h'.dues)
    (howed : owed h' = owed h) : Books rt versions' slot' h' := by
  obtain ⟨n, hl, hpaid, hcover⟩ := hb.balance
  have hmono := changesSoFar_mono rt hv ht
  exact ⟨huntouched, n, hl.mono hrec hseen ht, by omega, by omega⟩

/-- Others do not touch the books. -/
theorem Books.tenant {w' : World} {H : NamespacedName → History} (hs : Sound w H)
    (ht : Tenant notOwn w w') (hb : ∀ k, Books rt (w.versions k) (w.vms k) (H k)) :
    ∀ k, Books rt (w'.versions k) (w'.vms k) (H k) := by
  intro k
  cases ht with
  | create new hf hn hu =>
    rcases eq_or_ne k new.key with rfl | hk
    · have hserved : (H new.key).served = [] := List.eq_nil_iff_forall_not_mem.mpr fun m hm =>
        hs.used _ m hm ((hs.names _).mpr hn)
      have hnone : w.versions new.key = [] := hs.noVersions _ ((hs.names _).mpr hn)
      simp only [World.setVM, Function.update_self]
      refine (hb new.key).step (fun _ vm hvm => ?_) (fun _ _ => rfl) ?_ ?_ (List.suffix_refl _)
        le_rfl rfl
      · cases hvm
        exact hf.annotations
      · unfold History.seenVersions
        rw [lastVM_of_served_nil hserved]
      · rw [hnone]
        exact List.nil_suffix
    · simp only [World.setVM, Function.update_of_ne hk]
      exact hb k
  | edit j before after hbefore he =>
    rcases eq_or_ne k j with rfl | hk
    · simp only [World.setVM, Function.update_self]
      refine (hb k).step (fun hserved vm hvm a ha => ?_) (fun _ _ => rfl) ?_ (List.suffix_cons _ _)
        (List.suffix_refl _) le_rfl rfl
      · cases hvm
        rw [he.annotations a fun hno => hno ha]
        exact (hb k).untouched hserved before hbefore a ha
      · -- the edit is newer than what the worker has
        unfold History.seenVersions
        cases hm : (H k).lastVM with
        | none => exact List.suffix_refl _
        | some m =>
          have hlt := (hs.older k m (lastVM_mem_served hm) before hbefore).trans_lt he.version
          show upTo _ _ <:+ upTo _ (after :: w.versions k)
          unfold upTo
          rw [List.dropWhile_cons_of_pos (by simpa using hlt)]
    · simp only [World.setVM, Function.update_of_ne hk]
      exact hb k
  | remove j old _ _ =>
    rcases eq_or_ne k j with rfl | hk
    · simp only [World.setVM, Function.update_self]
      refine (hb k).step (fun _ vm hvm => ?_) (fun _ _ => rfl) (List.suffix_refl _)
        (List.suffix_refl _) (List.suffix_refl _) le_rfl rfl
      cases hvm
    · simp only [World.setVM, Function.update_of_ne hk]
      exact hb k
  | clock now _ => exact hb k
  | secrets s => exact hb k
  | restart => exact hb k
  | configs cfgs => exact hb k
  | raas keys => exact hb k

/-- Calls that hand the worker nothing and announce nothing. -/
theorem Books.quiet {c : Made} (hb : Books rt versions slot h) (hvm : c.vm? = none)
    (ht : h.tokens <:+ History.tokens (c :: h)) (hstarts : History.starts (c :: h) = h.starts)
    (hdues : History.dues (c :: h) = h.dues) (hjust : History.dueJust (c :: h) = false)
    (howed : History.startPending (c :: h) = h.startPending) :
    Books rt versions slot (c :: h) := by
  have hlast : History.lastVM (c :: h) = h.lastVM := by
    unfold History.lastVM
    rw [List.findSome?_cons, hvm]
  have hserved : History.served (c :: h) = h.served := by
    unfold History.served
    rw [List.filterMap_cons, hvm]
  refine hb.step ?_ ?_ ?_ (List.suffix_refl _) ht ?_ ?_
  · rw [hserved]
    exact hb.untouched
  · intro a _
    unfold History.recorded
    rw [hlast]
  · unfold History.seenVersions
    rw [hlast]
  · rw [hstarts, hdues, hjust]
    show h.starts + 0 + h.dues ≤ _
    omega
  · unfold owed
    rw [howed]

/-- Reading the VM. -/
theorem Books.read {H : NamespacedName → History} {vm : VirtualMachine} (hs : Sound w H)
    (hvm : w.vms k = .live vm) (hidle : (H k).startPending = none)
    (hb : Books rt (w.versions k) (w.vms k) (H k)) :
    Books rt (w.versions k) (w.vms k) (⟨w, .getVM k, .ok vm⟩ :: H k) := by
  refine hb.step nofun ?_ ?_ (List.suffix_refl _) (List.suffix_refl _) ?_ ?_
  · intro a ha
    show vm.annotationOf a = _
    cases hm : (H k).lastVM with
    | none =>
      have hserved : (H k).served = [] := by
        refine List.eq_nil_iff_forall_not_mem.mpr fun m hmem => ?_
        obtain ⟨c, hc, hcm⟩ := List.mem_filterMap.mp hmem
        have hno := List.findSome?_eq_none_iff.mp hm c hc
        rw [hcm] at hno
        cases hno
      unfold History.recorded
      rw [hm, VirtualMachine.annotationOf_eq_getD, hb.untouched hserved vm hvm a ha]
      rfl
    | some m =>
      rw [History.recorded_of_lastVM hm]
      exact ((hs.copy k m vm hm hvm).annotationOf ha).symm
  · unfold History.seenVersions
    cases hm : (H k).lastVM with
    | none => exact List.nil_suffix
    | some m => exact upTo_mono (hs.older k m (lastVM_mem_served hm) vm hvm) _
  · show (H k).starts + 0 + (H k).dues ≤ _
    have : History.dues (⟨w, .getVM k, .ok vm⟩ :: H k) = (H k).dues := rfl
    omega
  · unfold owed
    rw [hidle]
    rfl

/-- Announcing a chain start: the books balance because there is a change to
note, or an enforcement was due. -/
theorem Books.start {H : NamespacedName → History} {err : Option String} {message : String}
    {fields : List (String × String)} (hs : Sound w H) (hm : isStart message = true)
    (hidle : (H k).startPending = none) (hst : Start rt (H k) message)
    (hb : Books rt (w.versions k) (w.vms k) (H k)) :
    Books rt (w.versions k) (w.vms k) (⟨w, .log err message fields, ()⟩ :: H k) := by
  obtain ⟨n, hl, hpaid, hcover⟩ := hb.balance
  have hnot : (message = logEnforcement) = False := by
    refine eq_false fun heq => ?_
    rw [heq] at hm
    cases hm
  have hpending : History.startPending (⟨w, .log err message fields, ()⟩ :: H k) =
      some (H k).dueJust := by
    show (if isStart message = true then some (H k).dueJust else _) = _
    rw [if_pos hm]
  have hjust : History.dueJust (⟨w, .log err message fields, ()⟩ :: H k) = false := by
    show decide (message = logEnforcement) = false
    simp [hnot]
  have hstarts : History.starts (⟨w, .log err message fields, ()⟩ :: H k) = 1 + (H k).starts := by
    show (if isStart message = true then 1 else 0) + (H k).starts = _
    rw [if_pos hm]
  have hdues : History.dues (⟨w, .log err message fields, ()⟩ :: H k) = (H k).dues := by
    show (if message = logEnforcement then 1 else 0) + (H k).dues = _
    simp [hnot]
  have hidle' : owed (H k) = 0 := by
    unfold owed
    rw [hidle]
    rfl
  have hl' : Ledger rt (w.versions k) (⟨w, .log err message fields, ()⟩ :: H k) n :=
    hl.mono (fun _ _ => rfl) (List.suffix_refl _) (List.suffix_refl _)
  have hsame : changesSoFar rt (w.versions k) (⟨w, .log err message fields, ()⟩ :: H k) =
      changesSoFar rt (w.versions k) (H k) := rfl
  -- unless an enforcement is due, there is a cause on the worker's object
  have hcause : (H k).dueJust = false → n < changesSoFar rt (w.versions k) (H k) := by
    intro hdue
    cases hst with
    | restart vm m cfg hvm hi hc =>
      exact hl.lt_of_cause hvm (hs.servedVersion k m (lastVM_mem_served hvm)) hi hc
    | reset vm m cfg hvm hi hc =>
      exact hl.lt_of_cause hvm (hs.servedVersion k m (lastVM_mem_served hvm)) hi hc
    | day2 vm seen m cfg hvm hsnap hseen hi hc =>
      rcases hc with hc | ⟨-, w₁, fields₁, w₂, now, h₁, heq, -⟩
      · rcases hsnap with rfl | ⟨hno, -⟩
        · exact hl.lt_of_cause hvm (hs.servedVersion k m (lastVM_mem_served hvm)) hi hc
        · exact absurd hc hno
      · rw [heq] at hdue
        simp [History.dueJust] at hdue
  refine ⟨hb.untouched, n, hl', ?_, ?_⟩
  all_goals
    unfold owed
    rw [hpending]
  · rw [hstarts, hdues, hjust]
    cases hdue : (H k).dueJust with
    | false =>
      rw [hdue] at hpaid
      simp only [Bool.toNat_false, if_true] at hpaid ⊢
      omega
    | true =>
      rw [hdue] at hpaid
      simp only [Bool.toNat_true, Bool.toNat_false, Option.some.injEq, Bool.true_eq_false,
        if_false] at hpaid ⊢
      omega
  · rw [hsame]
    cases hdue : (H k).dueJust with
    | false =>
      have := hcause hdue
      simp only [if_true]
      omega
    | true =>
      simp only [Option.some.injEq, Bool.true_eq_false, if_false]
      omega

/-- A log line that announces no start. -/
theorem Books.log {err : Option String} {message : String} {fields : List (String × String)}
    (hm : isStart message = false) (hb : Books rt versions slot h) :
    Books rt versions slot (⟨w, .log err message fields, ()⟩ :: h) := by
  refine hb.step hb.untouched (fun _ _ => rfl) (List.suffix_refl _) (List.suffix_refl _)
    (List.suffix_refl _) ?_ ?_
  · show (if isStart message = true then 1 else 0) + h.starts +
        (decide (message = logEnforcement)).toNat + h.dues ≤
      h.starts + h.dueJust.toNat + ((if message = logEnforcement then 1 else 0) + h.dues)
    rw [hm]
    by_cases he : message = logEnforcement
    · simp only [he, decide_true, Bool.toNat_true, if_true, Bool.false_eq_true, if_false]
      omega
    · simp only [he, decide_false, Bool.toNat_false, if_false, Bool.false_eq_true]
      omega
  · show (if (if isStart message = true then some h.dueJust else h.startPending) = some false
      then 1 else 0) = owed h
    rw [hm]
    rfl

/-- A patch that succeeds. -/
theorem Books.patch {H : NamespacedName → History} {base obj cur : VirtualMachine} {version : Nat}
    (hs : Sound w H) (hp : Permitted rt crash k (H k) (.patchVM base obj))
    (hcur : w.vms k = .live cur) (hver : cur.resourceVersion ≤ version)
    (hown : OwnEq (.patched version base obj cur) obj)
    (hb : Books rt (w.versions k) (w.vms k) (H k)) :
    Books rt (w.versions k) slot'
      (⟨w, .patchVM base obj, .ok (.patched version base obj cur)⟩ :: H k) := by
  have hserved := lastVM_mem_served hp.1
  obtain ⟨n, hl, hpaid, hcover⟩ := hb.balance
  obtain ⟨i, r, t, hi, hr, ht, hle, hlt⟩ :=
    hl.patch hp.1 (hs.servedVersion k base hserved) hp.notes
  have hseen : (H k).seenVersions (w.versions k) <:+ upTo version (w.versions k) := by
    unfold History.seenVersions
    rw [hp.1]
    exact upTo_mono ((hs.older k base hserved cur hcur).trans hver) _
  have hl' : Ledger rt (w.versions k)
      (⟨w, .patchVM base obj, .ok (.patched version base obj cur)⟩ :: H k) (i + r + t) := by
    have hrec : ∀ a ∈ ownAnnotations, History.recorded
        (⟨w, .patchVM base obj, .ok (.patched version base obj cur)⟩ :: H k) a =
          obj.annotationOf a := fun a ha => hown.annotationOf ha
    refine ⟨i, r, t, ?_, ?_, ?_, rfl⟩
    · rw [hrec annotationRolesHash (by decide)]
      exact hi.mono (intents_suffix rt hseen)
    · rw [hrec annotationRetryHandled (by decide)]
      exact hr.mono (retries_suffix hseen)
    · rw [hrec annotationBulkRetryHandled (by decide)]
      exact ht
  refine ⟨nofun, i + r + t, hl', ?_, hl'.le_changes⟩
  show (H k).starts + 0 ≤ (H k).dues + (i + r + t) + 0
  unfold owed at hpaid
  by_cases hpending : (H k).startPending = some false
  · have := hlt hpending
    rw [if_pos hpending] at hpaid
    omega
  · rw [if_neg hpending] at hpaid
    omega

/-- A call of the VM's worker. -/
theorem Books.call {H : NamespacedName → History} {o : Op} {a : o.Ans} (hs : Sound w H)
    (hp : Permitted rt False k (H k) o) (hans : Answers rt w o a)
    (hok : ∀ base obj e, (⟨w, o, a⟩ : Made) ≠ ⟨w, .patchVM base obj, .error e⟩)
    (hb : Books rt (w.versions k) (w.vms k) (H k)) :
    Books rt (w.versions k) ((effect w o a).vms k) (⟨w, o, a⟩ :: H k) := by
  by_cases hpatch : ∃ base obj vm, (⟨w, o, a⟩ : Made) = ⟨w, .patchVM base obj, .ok vm⟩
  · obtain ⟨base, obj, vm, heq⟩ := hpatch
    cases heq
    obtain ⟨cur, version, hcur, hver, rfl⟩ := hans
    have hown : OwnEq (.patched version base obj cur) obj := hs.patch_own hp hcur
    rw [hs.patch_key hp] at hcur
    exact hb.patch hs hp hcur hver hown
  · rw [effect_vms fun base obj vm heq => hpatch ⟨base, obj, vm, heq⟩]
    cases o with
    | patchVM base obj =>
      cases a with
      | error e => exact absurd rfl (hok base obj e)
      | ok vm => exact absurd ⟨base, obj, vm, rfl⟩ hpatch
    | getVM key =>
      obtain ⟨rfl, hidle⟩ := hp
      have hidle' := hidle.resolve_left id
      cases a with
      | error e =>
        exact hb.quiet rfl (List.suffix_refl _) rfl rfl rfl (by rw [hidle']; rfl)
      | ok vm => exact hb.read hs hans hidle'
    | listConfigs nspace =>
      have htokens : (H k).tokens <:+ History.tokens (⟨w, .listConfigs nspace, a⟩ :: H k) := by
        cases a with
        | error e => exact List.suffix_refl _
        | ok configs =>
          show _ <:+ (match selectConfig configs with
            | some cfg => cfg.spec.retryToken :: (H k).tokens
            | none => (H k).tokens)
          split
          · exact List.suffix_cons _ _
          · exact List.suffix_refl _
      exact hb.quiet rfl htokens rfl rfl rfl rfl
    | log err message fields =>
      by_cases hm : isStart message = true
      · obtain ⟨hidle, hst⟩ := hp hm
        exact hb.start hs hm hidle hst
      · exact hb.log (by simpa using hm)
    | _ => exact hb.quiet rfl (List.suffix_refl _) rfl rfl rfl rfl

end books

/-- **The books balance in every run without failed writes.** -/
theorem books_balance {rt : Runtime} {d : Default} {c : ClusterCfg}
    (h : (cluster rt d notOwn False).ReachIf WritesSucceed c) (k : NamespacedName) :
    Books rt (c.world.versions k) (c.world.vms k) (c.hist k) := by
  refine (contract rt d False).invariantIf
    (K := fun w H => ∀ k, Books rt (w.versions k) (w.vms k) (H k)) ?_ ?_ ?_ h k
  · intro w hw k
    refine ⟨fun _ vm hvm => ?_, 0, .nil, le_rfl, Nat.zero_le _⟩
    rw [hw.2.1 k] at hvm
    cases hvm
  · exact fun c w' _ ht _ hs hb => Books.tenant hs ht hb
  · intro c t o a w' next _ _ hx hallow hs hp hb j
    obtain ⟨hans, rfl⟩ := hx
    rw [effect_versions]
    rcases eq_or_ne j t with rfl | hj
    · rw [Function.update_self]
      refine (hb j).call hs hp hans fun base obj e heq => ?_
      cases heq
      exact hallow j base obj e rfl
    · rw [Function.update_of_ne hj, hs.effect_vms_of_ne hp hj]
      exact hb j

/-- The changes of the VM's intent, retry request and bulk token, what was there at
the beginning counting as one change each, and the due enforcements. -/
def startBudget (c : ClusterCfg) (k : NamespacedName) : Nat :=
  (1 + changes ((c.world.versions k).map fun v => (intentSet v.annotations).toList)) +
    changes ((c.world.versions k).map (·.annotationOf annotationRetryRequest) ++ [""]) +
    changes (History.tokens (c.hist k) ++ [""]) + History.dues (c.hist k)

theorem changes_intents_le (rt : Runtime) (versions : List VirtualMachine) :
    changes (intents rt versions) ≤
      1 + changes (versions.map fun v => (intentSet v.annotations).toList) := by
  have hmap : versions.map (fun v => computeIntentHash rt v.annotations) =
      (versions.map fun v => (intentSet v.annotations).toList).map fun entries =>
        intentHashVersion ++ Go.hexEncode ((rt.sha256
          (entries.foldl (fun b e => b ++ e.1 ++ "=" ++ e.2 ++ "\n") "")).take 8) := by
    rw [List.map_map]
    rfl
  have hle := changes_append_singleton_le ""
    (versions.map fun v => computeIntentHash rt v.annotations)
  unfold intents
  rw [hmap] at hle ⊢
  have hmono := changes_map_le (fun entries : List (String × String) =>
    intentHashVersion ++ Go.hexEncode ((rt.sha256
      (entries.foldl (fun b e => b ++ e.1 ++ "=" ++ e.2 ++ "\n") "")).take 8))
    (versions.map fun v => (intentSet v.annotations).toList)
  omega

/-- **In every run in which the operator's writes succeed and tenants leave its
annotations alone**:

- the line that announces a chain start is written only for one of the four causes;
- the patch that follows it notes every cause that can be consumed, whatever the
  chain came to in between: those of the config the pass works with and of the VM the
  start was decided on. This is the VM that is patched, unless a bulk token was noted in
  between, and then the start is a scheduled one;
- a patch that notes an unscheduled start leaves none of its causes;
- it does follow, before the pass ends;
- there are no more starts than changes of the intent, the retry request and the
  bulk token, and due enforcements. -/
theorem chainStarts_bounded (rt : Runtime) (d : Default) {c : ClusterCfg}
    (h : (cluster rt d notOwn False).ReachIf WritesSucceed c) (k : NamespacedName) :
    (∀ err message fields c', (cluster rt d notOwn False).Step c
      (.call k (.log err message fields) ()) c' → isStart message = true →
      Start rt (c.hist k) message) ∧
    (∀ base obj vm c', (cluster rt d notOwn False).Step c
      (.call k (.patchVM base obj) (.ok vm)) c' →
      History.startPending (c.hist k) ≠ none →
      ∃ seen vm cfg, History.passInputs (c.hist k) = some (vm, cfg) ∧
        seen ∈ History.lastTwo (c.hist k) ∧ Snapshot rt cfg seen base ∧
        StartNotes rt seen base obj cfg ∧
        (History.startPending (c.hist k) = some false →
          seen = base ∧ Cause rt base cfg ∧ ¬ Cause rt obj cfg)) ∧
    (c.threads k = none → History.startPending (c.hist k) = none) ∧
    History.starts (c.hist k) ≤ startBudget c k := by
  refine ⟨?_, ?_, ?_, ?_⟩
  · intro err message fields c' hs hm
    cases hs with
    | call _ hth _ => exact ((contract rt d False).permitted h.reach hth hm).2
  · intro base obj vm c' hs hpending
    cases hs with
    | call _ hth _ =>
      have hp := (contract rt d False).permitted h.reach hth
      have htouch := hp.touches
      obtain ⟨-, -, hidle | ⟨additions, rfl, hc⟩⟩ := hp
      · exact absurd hidle hpending
      · obtain ⟨seen, cfg, patch, hstart, rfl⟩ := hc
        obtain ⟨vm', hi⟩ := hstart.inputs
        refine ⟨seen, vm', cfg, hi, hstart.held, hstart.snapshot, hstart.notes, fun hfalse => ?_⟩
        obtain ⟨rfl, hcause⟩ := hstart.unscheduled hfalse
        exact ⟨rfl, hcause, hstart.notes.spent htouch.tenant⟩
  · intro hidle
    have hk := ((contract rt d False).keeps h.reach).2 k
    rw [hidle] at hk
    exact hk.resolve_left id
  · obtain ⟨n, -, hpaid, hcover⟩ := (books_balance h k).balance
    have hi := changes_intents_le rt (c.world.versions k)
    unfold changesSoFar retries at hcover
    unfold startBudget
    omega

/-! ## A retry that is requested, and notes that are overwritten -/

/-- A tenant asks a Ready VM to be run again: the chain starts once, which the
request pays for. -/
theorem chainStarts_bounded_retry : ∃ c,
    (cluster Sample.runtime Sample.noDefault notOwn False).ReachIf WritesSucceed c ∧
    c.threads Sample.key = none ∧ History.starts (c.hist Sample.key) = 1 ∧
    History.startPending (c.hist Sample.key) = none ∧
    History.starts (c.hist Sample.key) ≤ startBudget c Sample.key := by
  have hrun : (runActs Sample.noDefault notOwn False (fun _ act _ => writeSucceeds act)
      (Sample.toReady ++ [.annotate Sample.key annotationRetryRequest "now"] ++
        work Sample.key Sample.discovery 15) (.start Sample.time Sample.secrets)).any (fun c =>
      (c.threads Sample.key).isNone && History.starts (c.hist Sample.key) = 1) = true := by
    decide +kernel
  obtain ⟨c, hc, hcheck⟩ := exists_reachIf_of_run (fun _ _ _ _ h => writeSucceeds_sound h) hrun
  simp only [Bool.and_eq_true, Option.isNone_iff_eq_none, decide_eq_true_eq] at hcheck
  obtain ⟨-, -, hwritten, hbound⟩ := chainStarts_bounded _ _ hc Sample.key
  exact ⟨c, hc, hcheck.1, hcheck.2, hwritten hcheck.1, hbound⟩

/-- A tenant who overwrites `roles-hash` of a Ready VM starts the chain each time,
while the intent, the retry request and the bulk token stay as they are. -/
theorem chainStarts_unbounded : ∃ c,
    (cluster Sample.runtime Sample.noDefault (fun _ => True) False).ReachIf WritesSucceed c ∧
    startBudget c Sample.key < History.starts (c.hist Sample.key) := by
  have hrun : (runActs Sample.noDefault (fun _ => True) False (fun _ act _ => writeSucceeds act)
      (Sample.toReady ++ [.annotate Sample.key annotationRolesHash "v2:0"] ++
        work Sample.key Sample.discovery 27 ++ [.annotate Sample.key annotationRolesHash "v2:0"] ++
        work Sample.key Sample.discovery 7) (.start Sample.time Sample.secrets)).any (fun c =>
      startBudget c Sample.key < History.starts (c.hist Sample.key)) = true := by
    decide +kernel
  obtain ⟨c, hc, hcheck⟩ := exists_reachIf_of_run (fun _ _ _ _ h => writeSucceeds_sound h) hrun
  exact ⟨c, hc, by simpa using hcheck⟩

end SaltOperator
