import SaltOperator.Cluster.Quiet

/-!
# Rules for the passes of a worker

Inside a pass the worker stands at an object `m` (`At`), or owes a write for a
chain it has announced (`Owes`); a patch takes it to the object of the answer
(`keeps_patch`), quiet calls leave it where it is (`At.step`), and it ends with a
requeue where one is needed (`Finishes`). The second half of the file says which
parts of the reconciler are quiet.
-/

namespace SaltOperator

/-- Run after the calls `h`, the program keeps the contract of the worker of `k`
and ends in `Ψ`. -/
abbrev Prog.Keeps {α : Type} (rt : Runtime) (crash : Prop) (k : NamespacedName)
    (Ψ : History → Except String α → Prop) (p : M α) (h : History) : Prop :=
  p.Obeys (fun _ => Promised rt) (Permitted rt crash k) Ψ h

/-- The pass works on `P`, holds the object `m` and owes no write. -/
structure At (P : Option (VirtualMachine × SaltKeyConfig)) (m : VirtualMachine) (h : History) :
    Prop where
  inputs : h.passInputs = P
  idle : h.startPending = none
  vm : h.lastVM = some m

/-- The pass works on `P`, holds the object `m` and has announced a chain start
that it has not written yet. -/
structure Owes (P : Option (VirtualMachine × SaltKeyConfig)) (m : VirtualMachine) (due : Bool)
    (h : History) : Prop where
  inputs : h.passInputs = P
  pending : h.startPending = some due
  vm : h.lastVM = some m

/-- The end of a pass under `cfg`. -/
structure Finishes (P : Option (VirtualMachine × SaltKeyConfig)) (cfg : SaltKeyConfig)
    (h : History) (r : Except String Result) : Prop where
  inputs : h.passInputs = P
  idle : h.startPending = none
  requeues : ∀ res, r = .ok res → ∃ m, h.lastVM = some m ∧ Requeues cfg m res

/-- `m'` is the answer to a patch of `m` with `additions`. -/
structure Patched (m : VirtualMachine) (additions : List (String × String))
    (m' : VirtualMachine) : Prop where
  key : m'.key = m.key
  uid : m'.uid = m.uid
  own : ∀ a ∈ ownAnnotations,
    m'.annotations[a]? = (m.withAnnotations additions).annotations[a]?

theorem Patched.annotationOf {m m' : VirtualMachine} {additions : List (String × String)}
    (hp : Patched m additions m') {a : String} (ha : a ∈ ownAnnotations) :
    m'.annotationOf a = (additions.reverse.lookup a).getD (m.annotationOf a) := by
  rw [← VirtualMachine.annotationOf_withAnnotations, VirtualMachine.annotationOf_eq_getD,
    VirtualMachine.annotationOf_eq_getD, hp.own a ha]

section requeues

variable {cfg : SaltKeyConfig} {m : VirtualMachine} {res : Result}

theorem requeues_interval : Requeues cfg m ⟨cfg.requeueAfter⟩ := fun _ => .inr (.inr rfl)

theorem requeues_pos (h : 0 < res.requeueAfter) : Requeues cfg m res := fun _ => .inr (.inl h)

theorem requeues_keyFailed (h : m.annotationOf annotationKeyStatus = keyStatusFailed) :
    Requeues cfg m res := by
  intro hn
  simp [VirtualMachine.NonTerminal, h, keyStatusFailed, keyStatusPreseeded,
    keyStatusAccepted] at hn

theorem requeues_atRest (h : m.AtRest) : Requeues cfg m res := by
  intro hn
  obtain ⟨hk, -, hs⟩ := h
  rcases hn with hn | hn | ⟨-, hn⟩
  · rw [hk] at hn
    simp [keyStatusAccepted] at hn
  · rw [hk] at hn
    simp [keyStatusAccepted, keyStatusPreseeded] at hn
  · exact absurd hn hs

end requeues

section rules

variable {rt : Runtime} {d : Default} {crash : Prop} {k : NamespacedName}
  {P : Option (VirtualMachine × SaltKeyConfig)} {cfg : SaltKeyConfig} {m : VirtualMachine}
  {h : History} {α : Type}

theorem keeps_perform {o : Op} {f : o.Ans → M α} {Ψ : History → Except String α → Prop}
    (ho : Permitted rt crash k h o)
    (hf : ∀ w a, Promised rt ⟨w, o, a⟩ → (f a).Keeps rt crash k Ψ (⟨w, o, a⟩ :: h)) :
    (Prog.perform o >>= f).Keeps rt crash k Ψ h := ⟨ho, hf⟩

theorem keeps_salt {conn : Connection} {c : SaltCall} {f : c.Ans → M α}
    {Ψ : History → Except String α → Prop} (ho : Permitted rt crash k h (.salt conn c))
    (hf : ∀ w a, c.Returns rt a → (f a).Keeps rt crash k Ψ (⟨w, .salt conn c, a⟩ :: h)) :
    (salt conn c >>= f).Keeps rt crash k Ψ h := ⟨ho, hf⟩

theorem At.quietly {h' : History} (hat : At P m h) (hq : h.Quietly h') : At P m h' :=
  ⟨hq.passInputs.trans hat.inputs, hq.startPending.trans hat.idle, hq.lastVM.trans hat.vm⟩

theorem At.fails (hat : At P m h) {e : String} : Finishes P cfg h (.error e) :=
  ⟨hat.inputs, hat.idle, nofun⟩

theorem At.returns (hat : At P m h) {res : Result} (hr : Requeues cfg m res) :
    Finishes P cfg h (.ok res) :=
  ⟨hat.inputs, hat.idle, fun _ hres => ⟨m, hat.vm, by cases hres; exact hr⟩⟩

/-- Step over quiet calls whose failure ends the pass. -/
theorem At.step {β : Type} {p : M β} {f : β → M Result} (hat : At P m h) (hp : p.Quiet)
    (hf : ∀ b h', At P m h' → h.Quietly h' → (f b).Keeps rt crash k (Finishes P cfg) h') :
    (p >>= f).Keeps rt crash k (Finishes P cfg) h :=
  hp.obeys_bind (fun b h' hq => hf b h' (hat.quietly hq) hq) fun _ _ hq => (hat.quietly hq).fails

theorem Owes.quietly {due : Bool} {h' : History} (ho : Owes P m due h) (hq : h.Quietly h') :
    Owes P m due h' :=
  ⟨hq.passInputs.trans ho.inputs, hq.startPending.trans ho.pending, hq.lastVM.trans ho.vm⟩

/-- What a patch of the VM leaves of the earlier calls. -/
structure History.Onward (h h' : History) : Prop where
  checkedFree : ∀ vm, h.CheckedFree vm → h'.CheckedFree vm
  served : h.served ⊆ h'.served
  ownKey : h'.ownKey = h.ownKey
  stored : h'.stored = h.stored

theorem keeps_patch {additions : List (String × String)} {f : VirtualMachine → M α}
    {Ψ : History → Except String α → Prop} (hvm : h.lastVM = some m) (hi : h.passInputs = P)
    (hw : Write rt h m additions) (ho : h.startPending = none ∨ Consumes rt h m additions)
    (hok : ∀ m' h', At P m' h' → Patched m additions m' → h.Onward h' →
      (f m').Keeps rt crash k Ψ h')
    (herr : ∀ e h', h'.passInputs = P → h'.startPending = none → Ψ h' (.error e)) :
    (patchAnnotations m additions >>= f).Keeps rt crash k Ψ h := by
  refine ⟨⟨hvm, .inl ⟨additions, rfl, hw⟩, ho.imp_right fun hc => ⟨additions, rfl, hc⟩⟩,
    fun w a ha => ?_⟩
  cases a with
  | ok m' =>
    exact hok m' _ ⟨hi, rfl, rfl⟩ ⟨ha.1, ha.2.1, ha.2.2⟩
      ⟨fun _ hc => hc, List.subset_cons_self _ _, rfl, rfl⟩
  | error e => exact herr e.text _ hi rfl

/-- A patch after which the pass only reports and returns. -/
theorem keeps_patch_report {additions : List (String × String)}
    {report : VirtualMachine → M Unit} {res : Result} (hvm : h.lastVM = some m)
    (hi : h.passInputs = P) (hw : Write rt h m additions)
    (ho : h.startPending = none ∨ Consumes rt h m additions) (hq : ∀ m', (report m').Quiet)
    (hr : ∀ m', Patched m additions m' → Requeues cfg m' res) :
    (patchAnnotations m additions >>= fun m' => report m' >>= fun _ => pure res).Keeps rt crash k
      (Finishes P cfg) h := by
  refine keeps_patch hvm hi hw ho (fun m' h' hat hp _ => ?_) fun e h' hi' hs => ⟨hi', hs, nofun⟩
  exact hat.step (hq m') fun _ _ hat' _ => hat'.returns (hr m' hp)

/-- A patch of a pass that owes nothing. -/
theorem At.patch {additions : List (String × String)} {f : VirtualMachine → M α}
    {Ψ : History → Except String α → Prop} (hat : At P m h) (hw : Write rt h m additions)
    (hok : ∀ m' h', At P m' h' → Patched m additions m' → h.Onward h' →
      (f m').Keeps rt crash k Ψ h')
    (herr : ∀ e h', h'.passInputs = P → h'.startPending = none → Ψ h' (.error e)) :
    (patchAnnotations m additions >>= f).Keeps rt crash k Ψ h :=
  keeps_patch hat.vm hat.inputs hw (.inl hat.idle) hok herr

theorem At.patch_report {additions : List (String × String)}
    {report : VirtualMachine → M Unit} {res : Result} (hat : At P m h)
    (hw : Write rt h m additions) (hq : ∀ m', (report m').Quiet)
    (hr : ∀ m', Patched m additions m' → Requeues cfg m' res) :
    (patchAnnotations m additions >>= fun m' => report m' >>= fun _ => pure res).Keeps rt crash k
      (Finishes P cfg) h :=
  keeps_patch_report hat.vm hat.inputs hw (.inl hat.idle) hq hr

end rules

/-! ## The quiet parts -/

theorem logInfo_quiet {message : String} {fields : List (String × String)}
    (hm : isStart message = false) (hd : message ≠ logEnforcement) :
    (logInfo message fields).Quiet :=
  Prog.quiet_perform (by simp [Op.quiet, hm, hd])

theorem logError_quiet {err : Option String} {message : String} {fields : List (String × String)}
    (hm : isStart message = false) (hd : message ≠ logEnforcement) :
    (logError err message fields).Quiet :=
  Prog.quiet_perform (by simp [Op.quiet, hm, hd])

theorem recordEvent_quiet {vm : VirtualMachine} {type : EventType} {reason message : String} :
    (recordEvent vm type reason message).Quiet := Prog.quiet_perform rfl

theorem timeNow_quiet : timeNow.Quiet := Prog.quiet_perform rfl

theorem logError_noFail {err : Option String} {message : String}
    {fields : List (String × String)} : (logError err message fields).NoFail := fun _ => trivial

theorem timeNow_noFail : timeNow.NoFail := fun _ => trivial

theorem nowText_quiet {rt : Runtime} : (nowText rt).Quiet :=
  timeNow_quiet.bind fun _ => trivial

theorem readSecret_quiet {nspace name : String} : (readSecret nspace name).Quiet := by
  refine ⟨rfl, fun a => ?_⟩
  rcases a with e | data
  · cases e <;> exact trivial
  · exact trivial

theorem resolve_quiet {rt : Runtime} {cfg : SaltKeyConfig} {d : Default} :
    (resolve rt cfg d).Quiet := by
  unfold resolve
  split
  · unfold resolveNamespaceSecret
    split
    · exact trivial
    · refine readSecret_quiet.bind fun data => ?_
      split <;> exact trivial
  · unfold resolveDefault
    split
    · exact trivial
    · refine Prog.Quiet.bind ?_ fun conn => ?_
      · unfold Default.load
        refine readSecret_quiet.bind fun data => ?_
        split <;> exact trivial
      · split
        · exact trivial
        · split
          · exact trivial
          · split <;> exact trivial

theorem saltClientFromConfig_quiet {rt : Runtime} {d : Default} {cfg : SaltKeyConfig} :
    (saltClientFromConfig rt d cfg).Quiet := by
  refine ⟨rfl, fun a => ?_⟩
  cases a with
  | some conn => exact trivial
  | none =>
    refine resolve_quiet.attempt.bind fun r => ?_
    cases r with
    | error e => exact trivial
    | ok conn =>
      refine ⟨rfl, fun login => ?_⟩
      cases login with
      | error e => exact trivial
      | ok u => exact ⟨rfl, fun _ => trivial⟩

theorem saltClientFor_quiet {rt : Runtime} {d : Default} {vm : VirtualMachine}
    {cfg : SaltKeyConfig} : (saltClientFor rt d vm cfg).Quiet := by
  refine saltClientFromConfig_quiet.attempt.bind fun r => ?_
  cases r <;> exact trivial

theorem masterLastSeen_quiet {conn : Connection} : (masterLastSeen conn).Quiet := by
  refine ⟨rfl, fun a => ?_⟩
  cases a <;> exact trivial

theorem masterSilence_quiet {conn : Connection} {before : String} {started : Time} :
    (masterSilence conn before started).Quiet := by
  unfold masterSilence
  split
  · exact trivial
  · refine timeNow_quiet.bind fun now => ?_
    split
    · exact trivial
    · refine masterLastSeen_quiet.bind fun seen => ?_
      split <;> exact trivial

theorem masterLastSeen_noFail {conn : Connection} : (masterLastSeen conn).NoFail := by
  intro a
  cases a <;> exact trivial

theorem masterSilence_noFail {conn : Connection} {before : String} {started : Time} :
    (masterSilence conn before started).NoFail := by
  unfold masterSilence
  split
  · exact trivial
  · refine timeNow_noFail.bind fun now => ?_
    split
    · exact trivial
    · refine masterLastSeen_noFail.bind fun seen => ?_
      split <;> exact trivial

theorem warnForeignKey_quiet {vm : VirtualMachine} {minionID : String} {states : List String} :
    (warnForeignKey vm minionID states).Quiet := by
  unfold warnForeignKey
  split
  · exact recordEvent_quiet
  · exact trivial

end SaltOperator
