import SaltOperator.Lib.Runs
import SaltOperator.Cluster.PassRules

/-!
# A pass by itself

What one pass of the operator does to its VM when nobody else acts meanwhile, and
no time passes. `Served` says how its calls are answered: within `Answers`, and
within a further condition `ok` on the answers. Under `Succeeds` no call fails,
under `Admits` no call to Kubernetes and no login; an answer that an object does
not exist, or exists already, is no failure if it is true.

One lemma a function of the reconciler, about every run of it; a run of a caller
is taken apart with `Prog.runs_bind` and its callees' lemmas.
-/

namespace SaltOperator

/-- A condition on the answer to a call. -/
abbrev AnswerCondition := World → (o : Op) → o.Ans → Prop

/-- A call of a pass by itself gets an answer within `ok` and has its effect. -/
def Served (rt : Runtime) (ok : AnswerCondition) (w : World) (o : Op) (a : o.Ans)
    (w' : World) : Prop :=
  Answers rt w o a ∧ ok w o a ∧ effect w o a = w'

theorem Served.mono {rt : Runtime} {ok ok' : AnswerCondition} (h : ∀ w o a, ok w o a → ok' w o a)
    (w : World) (o : Op) (a : o.Ans) (w' : World) (hx : Served rt ok w o a w') :
    Served rt ok' w o a w' := ⟨hx.1, h w o a hx.2.1, hx.2.2⟩

/-- A read of the configs of a namespace is up to date. -/
def FreshConfigs (w : World) : (o : Op) → o.Ans → Prop
  | .listConfigs (some nspace), .ok configs => configs = w.configsIn nspace
  | _, _ => True

/-- A method of the RaaS client succeeds; `GenAcceptKey` with a pair. -/
def SaltCall.Succeeds : (c : SaltCall) → c.Ans → Prop
  | .login, a => a = .ok ()
  | .listPendingKeys, a => ∃ keys, a = .ok keys
  | .listAcceptedKeys, a => ∃ keys, a = .ok keys
  | .acceptKey _, a => a = .ok ()
  | .deleteKey _, a => a = .ok ()
  | .testPing _, a => ∃ b, a = .ok b
  | .refreshPillar _, a => ∃ b, a = .ok b
  | .dispatchHighstate _, a => ∃ jid, a = .ok jid
  | .pollJID _ _, a => ∃ result, a = .ok result
  | .masterLastSeen, a => ∃ seen, a = .ok seen
  | .keyStates _, a => ∃ states, a = .ok states
  | .genAcceptKey _ _, a => ∃ pair, a = .ok (some pair)
  | .masterPublicKey, a => ∃ pub, a = .ok pub

/-- Kubernetes does what it is asked to do, and RaaS lets the operator in. -/
def Admits (w : World) : (o : Op) → o.Ans → Prop
  | .getVM key, .error _ => (w.vms key).vm? = none
  | .listVMs _, .error _ => False
  | .patchVM _ obj, .error _ => (w.vms obj.key).vm? = none
  | .listConfigs _, .error _ => False
  | .getSecret _, .error e => ∃ text, e = .notFound text
  | .createSecret _, .error e => ∃ text, e = .alreadyExists text
  | .updateSecret s, .error _ => w.secrets ⟨s.nspace, s.name⟩ = none
  | .patchSecret _ _, .error e => ∃ text, e = .notFound text
  | .salt _ .login, a => a = .ok ()
  | _, _ => True

/-- RaaS does what it is asked to do. -/
def Op.SaltSucceeds : (o : Op) → o.Ans → Prop
  | .salt _ c, a => c.Succeeds a
  | _, _ => True

/-- A call does not fail. -/
def Succeeds (w : World) (o : Op) (a : o.Ans) : Prop := Admits w o a ∧ o.SaltSucceeds a

/-- No call to Kubernetes fails, and no login. -/
def Clean (ok : AnswerCondition) : Prop := ∀ w o a, ok w o a → Admits w o a

/-- Kubernetes does what it is asked to do, RaaS lets the operator in, and the configs
are read as they are. -/
def KubernetesSucceeds : AnswerCondition := fun w o a => FreshConfigs w o a ∧ Admits w o a

/-- Every call succeeds, and the configs are read as they are. -/
def AllSucceed : AnswerCondition := fun w o a => FreshConfigs w o a ∧ Succeeds w o a

/-! ## What the patches leave -/

/-- The object after an annotation patch. -/
def VirtualMachine.written (vm : VirtualMachine) (additions : List (String × String))
    (version : Nat) : VirtualMachine :=
  { vm.withAnnotations additions with resourceVersion := version }

/-- The object with the finalizer. -/
def VirtualMachine.finalized (vm : VirtualMachine) (version : Nat) : VirtualMachine :=
  { vm.addFinalizer saltFinalizer with resourceVersion := version }

namespace VirtualMachine

variable {vm : VirtualMachine} {additions : List (String × String)} {version : Nat}

theorem annotationOf_written (a : String) : (vm.written additions version).annotationOf a =
    (additions.reverse.lookup a).getD (vm.annotationOf a) :=
  vm.annotationOf_withAnnotations additions a

/-- A patch by somebody who has the current object makes it theirs. -/
theorem patched_current (obj : VirtualMachine) : VirtualMachine.patched version vm obj vm =
    { vm with
      resourceVersion := version, annotations := obj.annotations, labels := obj.labels
      finalizers := obj.finalizers } := by
  have hann : mergeMap vm.annotations obj.annotations vm.annotations = obj.annotations :=
    Std.ExtTreeMap.ext_getElem? fun a => getElem?_mergeMap_of_current rfl
  have hlab : mergeMap vm.labels obj.labels vm.labels = obj.labels :=
    Std.ExtTreeMap.ext_getElem? fun a => getElem?_mergeMap_of_current rfl
  simp only [VirtualMachine.patched, hann, hlab, mergeWhole_cur]

theorem patched_withAnnotations :
    VirtualMachine.patched version vm (vm.withAnnotations additions) vm =
      vm.written additions version :=
  patched_current _

theorem patched_addFinalizer :
    VirtualMachine.patched version vm (vm.addFinalizer saltFinalizer) vm =
      vm.finalized version := by
  rw [patched_current]
  unfold VirtualMachine.finalized VirtualMachine.addFinalizer
  split <;> rfl

@[simp] theorem key_written : (vm.written additions version).key = vm.key := rfl

@[simp] theorem deleting_written : (vm.written additions version).deleting = vm.deleting := rfl

@[simp] theorem key_addFinalizer (f : String) : (vm.addFinalizer f).key = vm.key := by
  unfold addFinalizer
  split <;> rfl

@[simp] theorem annotations_finalized : (vm.finalized version).annotations = vm.annotations := by
  unfold finalized addFinalizer
  split <;> rfl

@[simp] theorem annotationOf_finalized (a : String) :
    (vm.finalized version).annotationOf a = vm.annotationOf a := by
  unfold annotationOf
  rw [annotations_finalized]

@[simp] theorem key_finalized : (vm.finalized version).key = vm.key := key_addFinalizer _

@[simp] theorem deleting_finalized : (vm.finalized version).deleting = vm.deleting := by
  unfold finalized addFinalizer
  split <;> rfl

@[simp] theorem uid_finalized : (vm.finalized version).uid = vm.uid := by
  unfold finalized addFinalizer
  split <;> rfl

@[simp] theorem labels_finalized : (vm.finalized version).labels = vm.labels := by
  unfold finalized addFinalizer
  split <;> rfl

theorem mem_finalized : saltFinalizer ∈ (vm.finalized version).finalizers := by
  unfold finalized addFinalizer containsFinalizer
  split
  · rename_i hfin
    simpa using hfin
  · simp

end VirtualMachine

/-! ## Calls -/

section calls

variable {rt : Runtime} {ok : AnswerCondition} {w w' : World} {h h' : History} {α : Type}
  {r : Except String α} {vm : VirtualMachine} {cfg : SaltKeyConfig} {d : Default}

theorem Prog.Runs.log {err : Option String} {message : String} {fields : List (String × String)}
    {f : Unit → M α}
    (hr : ((Prog.perform (Op.log err message fields) : M Unit) >>= f).Runs
      (Served rt ok) w h r w' h') :
    ∃ h₁, (f ()).Runs (Served rt ok) w h₁ r w' h' := by
  obtain ⟨a, w₁, ⟨-, -, rfl⟩, hr⟩ := Prog.runs_call.mp hr
  exact ⟨_, hr⟩

theorem Prog.Runs.event {k : NamespacedName} {type : EventType} {reason message : String}
    {f : Unit → M α}
    (hr : ((Prog.perform (Op.event k type reason message) : M Unit) >>= f).Runs (Served rt ok)
      w h r w' h') : ∃ h₁, (f ()).Runs (Served rt ok) w h₁ r w' h' := by
  obtain ⟨a, w₁, ⟨-, -, rfl⟩, hr⟩ := Prog.runs_call.mp hr
  exact ⟨_, hr⟩

theorem Prog.Runs.now {f : Time → M α}
    (hr : ((Prog.perform Op.now : M Time) >>= f).Runs (Served rt ok) w h r w' h') :
    ∃ h₁, (f w.now).Runs (Served rt ok) w h₁ r w' h' := by
  obtain ⟨a, w₁, ⟨rfl, -, rfl⟩, hr⟩ := Prog.runs_call.mp hr
  exact ⟨_, hr⟩

/-- The patch of a VM that is there fails for a reason. -/
theorem not_clean_of_patchVM {base obj : VirtualMachine} {e : ApiErr}
    (hok : ok w (.patchVM base obj) (.error e)) (hcur : w.vms obj.key = .live vm) : ¬ Clean ok := by
  intro hclean
  have hnone : (w.vms obj.key).vm? = none := hclean _ _ _ hok
  rw [hcur] at hnone
  cases hnone

/-- A patch of the current object is refused, or its object becomes the current
one. -/
theorem Prog.Runs.patchVM (obj : VirtualMachine) {f : Except ApiErr VirtualMachine → M α}
    (hcur : w.vms obj.key = .live vm)
    (hr : ((Prog.perform (Op.patchVM vm obj) : M (Except ApiErr VirtualMachine)) >>= f).Runs
      (Served rt ok) w h r w' h') :
    (∃ e h₁, ok w (.patchVM vm obj) (.error e) ∧
      (f (.error e)).Runs (Served rt ok) w h₁ r w' h') ∨
      ∃ version h₁, (f (.ok (.patched version vm obj vm))).Runs (Served rt ok)
        (w.setVM obj.key (settled (.patched version vm obj vm))) h₁ r w' h' := by
  obtain ⟨a, w₁, ⟨ha, hok, rfl⟩, hr⟩ := Prog.runs_call.mp hr
  cases a with
  | error e => exact .inl ⟨e, _, hok, hr⟩
  | ok vm' =>
    obtain ⟨cur, version, hcur', -, rfl⟩ := ha
    rw [hcur] at hcur'
    cases hcur'
    exact .inr ⟨version, _, hr⟩

/-- `patchAnnotations` of the current object. -/
theorem runs_patchAnnotations {additions : List (String × String)}
    {r : Except String VirtualMachine}
    (hcur : w.vms vm.key = .live vm)
    (hr : (patchAnnotations vm additions).Runs (Served rt ok) w h r w' h') :
    (∃ e, r = .error e ∧ ¬ Clean ok ∧ w' = w) ∨
      ∃ m, r = .ok m ∧ ∃ version, m = vm.written additions version ∧
        w' = w.setVM vm.key (settled m) := by
  rcases Prog.Runs.patchVM (vm.withAnnotations additions) hcur hr with
    ⟨e, h₁, hok, hr⟩ | ⟨version, h₁, hr⟩
  · obtain ⟨rfl, rfl, -⟩ := Prog.runs_fail.mp hr
    exact .inl ⟨_, rfl, not_clean_of_patchVM hok hcur, rfl⟩
  · rw [VirtualMachine.patched_withAnnotations] at hr
    obtain ⟨rfl, rfl, -⟩ := Prog.runs_ret.mp hr
    exact .inr ⟨_, rfl, version, rfl, rfl⟩

/-- `ensureFinalizer` of a current object that is not being deleted. -/
theorem runs_ensureFinalizer {wrap : String → String} {r : Except String VirtualMachine}
    (hcur : w.vms vm.key = .live vm) (hdel : vm.deleting = false)
    (hr : (ensureFinalizer wrap vm).Runs (Served rt ok) w h r w' h') :
    (∃ e, r = .error e ∧ ¬ Clean ok ∧ w' = w) ∨
      ∃ m, r = .ok m ∧ ∃ version, m = vm.finalized version ∧ w' = w.setVM vm.key (.live m) := by
  unfold ensureFinalizer at hr
  split at hr
  · rename_i hfin
    obtain ⟨rfl, rfl, -⟩ := Prog.runs_ret.mp hr
    refine .inr ⟨_, rfl, vm.resourceVersion, ?_, ?_⟩
    · simp [VirtualMachine.finalized, VirtualMachine.addFinalizer, hfin]
    · rw [World.setVM, ← hcur, Function.update_eq_self]
  · have hkey : (vm.addFinalizer saltFinalizer).key = vm.key := VirtualMachine.key_addFinalizer _
    rcases Prog.Runs.patchVM (vm.addFinalizer saltFinalizer) (hkey ▸ hcur) hr with
      ⟨e, h₁, hok, hr⟩ | ⟨version, h₁, hr⟩
    · obtain ⟨rfl, rfl, -⟩ := Prog.runs_fail.mp hr
      exact .inl ⟨_, rfl, not_clean_of_patchVM hok (hkey ▸ hcur), rfl⟩
    · rw [VirtualMachine.patched_addFinalizer] at hr
      obtain ⟨rfl, rfl, -⟩ := Prog.runs_ret.mp hr
      refine .inr ⟨_, rfl, version, rfl, ?_⟩
      rw [hkey, settled_present (VirtualMachine.deleting_finalized.trans hdel)]

/-- A quiet program changes the cache of clients and nothing else. -/
theorem Prog.Quiet.runs_world {ε : Type} {p : Prog Op Op.Ans ε α} {r : Except ε α} (hp : p.Quiet)
    (hr : p.Runs (Served rt ok) w h r w' h') : ∃ cache, w' = { w with cache } := by
  induction hr with
  | ret => exact ⟨_, rfl⟩
  | fail => exact ⟨_, rfl⟩
  | @call o k w h a w₁ r w' h' hx _ ih =>
    obtain ⟨-, -, rfl⟩ := hx
    obtain ⟨cache, rfl⟩ := ih (hp.2 a)
    have heff : ∃ cache, effect w o a = { w with cache } := by
      have ho := hp.1
      cases o with
      | cacheGet key rv => cases a <;> exact ⟨_, rfl⟩
      | salt conn c => cases c <;> first | exact ⟨_, rfl⟩ | cases ho
      | _ => first | exact ⟨_, rfl⟩ | cases ho
    obtain ⟨cache', heff⟩ := heff
    exact ⟨cache, by rw [heff]⟩

/-- A program that cannot fail returns. -/
theorem Prog.NoFail.runs_ok {ε : Type} {p : Prog Op Op.Ans ε α} {r : Except ε α} (hp : p.NoFail)
    (hr : p.Runs (Served rt ok) w h r w' h') : ∃ a, r = .ok a := by
  induction hr with
  | ret => exact ⟨_, rfl⟩
  | fail => exact hp.elim
  | call _ _ ih => exact ih (hp _)

/-- A quiet program that cannot fail can be stepped over. -/
theorem Prog.Runs.quiet_bind {β : Type} {p : M β} {f : β → M α} (hp : p.Quiet) (hn : p.NoFail)
    (hr : (p >>= f).Runs (Served rt ok) w h r w' h') :
    ∃ a cache h₁, (f a).Runs (Served rt ok) { w with cache } h₁ r w' h' := by
  rcases Prog.runs_bind.mp hr with ⟨a, w₁, h₁, hpa, hf⟩ | ⟨e, rfl, hpe⟩
  · obtain ⟨cache, rfl⟩ := hp.runs_world hpa
    exact ⟨a, cache, h₁, hf⟩
  · obtain ⟨a, ha⟩ := hn.runs_ok hpe
    cases ha

/-! ## Getting a client -/

/-- The answer to any call by which it fails, or tells nothing. -/
def Op.refuse : (o : Op) → o.Ans
  | .now => (0 : Int)
  | .getVM _ | .listVMs _ | .patchVM _ _ | .listConfigs _ | .getSecret _ | .createSecret _
  | .updateSecret _ | .patchSecret _ _ => .error (.other "")
  | .event _ _ _ _ | .log _ _ _ | .cacheSet _ _ _ => ()
  | .cacheGet _ _ => none
  | .salt _ c => match c with
    | .login | .listPendingKeys | .listAcceptedKeys | .acceptKey _ | .deleteKey _ | .testPing _
    | .refreshPillar _ | .dispatchHighstate _ | .pollJID _ _ | .masterLastSeen | .keyStates _
    | .genAcceptKey _ _ | .masterPublicKey => .error ""

/-- Reads of Secrets are answered, and nothing else. -/
def readSecrets (secrets : NamespacedName → Option Secret) : (o : Op) → o.Ans
  | .getSecret key => match secrets key with
    | some s => .ok (StringMap.copy {} s.data)
    | none => .error (.notFound "")
  | o => o.refuse

/-- The connection a config resolves to with the Secrets there are. -/
def World.connection? (rt : Runtime) (d : Default) (w : World) (cfg : SaltKeyConfig) :
    Option Connection :=
  ((resolve rt cfg d).eval (readSecrets w.secrets)).toOption

/-- The operator can talk to the RaaS of a config: it has a client at hand, or the
connection resolves. -/
def World.Connects (rt : Runtime) (d : Default) (w : World) (cfg : SaltKeyConfig) : Prop :=
  (w.cached ⟨cfg.nspace, cfg.name⟩ cfg.resourceVersion).isSome ∨ (w.connection? rt d cfg).isSome

instance : Decidable (w.Connects rt d cfg) := inferInstanceAs (Decidable (_ ∨ _))

theorem readSecret_determined (hok : Clean ok) (nspace name : String) :
    (readSecret nspace name).Determined (Served rt ok) (readSecrets w.secrets) w := by
  intro h r w' h' hr
  obtain ⟨a, w₁, ⟨ha, hgood, hw₁⟩, hr⟩ := Prog.runs_perform_bind.mp hr
  show r = (readSecret nspace name).eval _ ∧ _
  cases hs : w.secrets ⟨nspace, name⟩ with
  | none =>
    cases a with
    | ok data =>
      obtain ⟨s, hs', -⟩ := ha
      rw [hs] at hs'
      cases hs'
    | error e =>
      obtain ⟨text, rfl⟩ := hok _ _ _ hgood
      obtain ⟨rfl, rfl, -⟩ := Prog.runs_fail.mp hr
      simp [readSecret, Prog.eval, readSecrets, hs, ← hw₁, effect]
  | some s =>
    cases a with
    | ok data =>
      obtain ⟨s', hs', rfl⟩ := ha
      rw [hs] at hs'
      cases hs'
      obtain ⟨rfl, rfl, -⟩ := Prog.runs_ret.mp hr
      simp [readSecret, Prog.eval, readSecrets, hs, ← hw₁, effect]
    | error e =>
      obtain ⟨text, rfl⟩ := hok _ _ _ hgood
      have hs' : w.secrets ⟨nspace, name⟩ = none := ha
      rw [hs] at hs'
      cases hs'

/-- What a config resolves to follows from what the reads of Secrets give. -/
theorem resolve_determined {f : (o : Op) → o.Ans}
    (hread : ∀ nspace name, (readSecret nspace name).Determined (Served rt ok) f w) :
    (resolve rt cfg d).Determined (Served rt ok) f w := by
  unfold resolve
  split
  · unfold resolveNamespaceSecret
    split
    · exact Prog.determined_fail _
    · refine (hread _ _).bind fun data => ?_
      split
      · exact Prog.determined_fail _
      · exact Prog.determined_ret _
  · unfold resolveDefault
    split
    · exact Prog.determined_fail _
    · refine Prog.Determined.bind ?_ fun conn => ?_
      · refine (hread _ _).bind fun data => ?_
        split
        · exact Prog.determined_fail _
        · exact Prog.determined_ret _
      · split
        · exact Prog.determined_fail _
        · split
          · exact Prog.determined_fail _
          · split
            · exact Prog.determined_fail _
            · exact Prog.determined_ret _

/-- The operator gets a client exactly when it has one, or the connection resolves and
RaaS lets it in. -/
theorem saltClientFromConfig_cases {f : (o : Op) → o.Ans} {login : Except String Unit}
    (hread : ∀ cache nspace name,
      (readSecret nspace name).Determined (Served rt ok) f { w with cache })
    (hlogin : ∀ w conn a, ok w (.salt conn .login) a → a = login) {r : Except String Connection}
    (hr : (saltClientFromConfig rt d cfg).Runs (Served rt ok) w h r w' h') :
    (∃ conn, r = .ok conn) ↔ (w.cached ⟨cfg.nspace, cfg.name⟩ cfg.resourceVersion).isSome ∨
      (((resolve rt cfg d).eval f).toOption.isSome ∧ login = .ok ()) := by
  obtain ⟨a, w₁, ⟨ha, -, hw₁⟩, hr⟩ := Prog.runs_perform_bind.mp hr
  have hcached : a = w.cached ⟨cfg.nspace, cfg.name⟩ cfg.resourceVersion := ha
  rw [← hcached]
  cases a with
  | some conn =>
    obtain ⟨rfl, -, -⟩ := Prog.runs_ret.mp hr
    simp
  | none =>
    -- looking it up has touched the cache, which the connection does not depend on
    have hcache : ∃ cache, w₁ = { w with cache } := ⟨_, hw₁.symm⟩
    obtain ⟨cache, rfl⟩ := hcache
    rcases Prog.runs_bind.mp hr with ⟨r₁, w₂, h₂, hr₁, hr⟩ | ⟨e, rfl, hr₁⟩
    · obtain ⟨_, hr₁', hrun⟩ := Prog.runs_attempt.mp hr₁
      cases hr₁'
      obtain ⟨hres, rfl⟩ := resolve_determined (hread cache) _ _ _ _ hrun
      rw [← hres]
      cases r₁ with
      | error e =>
        obtain ⟨rfl, -, -⟩ := Prog.runs_fail.mp hr
        simp [Except.toOption]
      | ok conn =>
        obtain ⟨a, w₃, ⟨-, ha, -⟩, hr⟩ := Prog.runs_perform_bind.mp hr
        obtain rfl : a = login := hlogin _ _ _ ha
        cases a with
        | error e =>
          obtain ⟨rfl, -, -⟩ := Prog.runs_fail.mp hr
          simp
        | ok u =>
          obtain ⟨_, _, -, hr⟩ := Prog.runs_perform_bind.mp hr
          obtain ⟨rfl, -, -⟩ := Prog.runs_ret.mp hr
          simp [Except.toOption]
    · obtain ⟨_, hbad, -⟩ := Prog.runs_attempt.mp hr₁
      cases hbad

/-- When no call fails, the operator gets a client exactly when it has one or the
connection resolves. -/
theorem saltClientFromConfig_ok_iff (hok : Clean ok) {r : Except String Connection}
    (hr : (saltClientFromConfig rt d cfg).Runs (Served rt ok) w h r w' h') :
    (∃ conn, r = .ok conn) ↔ w.Connects rt d cfg := by
  have hread (cache) (nspace name : String) : (readSecret nspace name).Determined (Served rt ok)
      (readSecrets w.secrets) { w with cache } := readSecret_determined hok nspace name
  rw [saltClientFromConfig_cases hread (fun _ _ _ ha => hok _ _ _ ha) hr]
  simp [World.Connects, World.connection?]

/-- The entries of a Secret a connection is made from. -/
def credentialEntries : List String := ["url", "masterID", "username", "password", "skipTLSVerify"]

/-- Two Secrets hold the same credentials. -/
def SameCredentials (s s' : Option Secret) : Prop :=
  ∀ e ∈ credentialEntries, s.map (·.entry e) = s'.map (·.entry e)

theorem SameCredentials.eval_readSecret {secrets secrets' : NamespacedName → Option Secret}
    (hs : ∀ key, SameCredentials (secrets key) (secrets' key)) (nspace name : String) :
    (∃ e, (readSecret nspace name).eval (readSecrets secrets) = .error e ∧
      (readSecret nspace name).eval (readSecrets secrets') = .error e) ∨
    ∃ data data', (readSecret nspace name).eval (readSecrets secrets) = .ok data ∧
      (readSecret nspace name).eval (readSecrets secrets') = .ok data' ∧
      ∀ e ∈ credentialEntries, StringMap.read data e = StringMap.read data' e := by
  have hkey := hs ⟨nspace, name⟩
  have hurl := hkey "url" (by decide)
  cases h : secrets ⟨nspace, name⟩ with
  | none =>
    cases h' : secrets' ⟨nspace, name⟩ with
    | none => exact .inl (by simp [readSecret, Prog.eval, readSecrets, h, h'])
    | some s' => simp [h, h'] at hurl
  | some s =>
    cases h' : secrets' ⟨nspace, name⟩ with
    | none => simp [h, h'] at hurl
    | some s' =>
      refine .inr ⟨StringMap.copy {} s.data, StringMap.copy {} s'.data, ?_, ?_, fun e he => ?_⟩
      · simp [readSecret, Prog.eval, readSecrets, h]
      · simp [readSecret, Prog.eval, readSecrets, h']
      · have hentry := hkey e he
        rw [h, h'] at hentry
        rw [StringMap.read_eq_getD, StringMap.read_eq_getD]
        exact congrArg (·.getD "") (Option.some.inj hentry)

/-- A connection depends on the credentials and on nothing else in the Secrets. -/
theorem connection?_congr (hs : ∀ key, SameCredentials (w.secrets key) (w'.secrets key)) :
    w.connection? rt d cfg = w'.connection? rt d cfg := by
  unfold World.connection?
  congr 1
  unfold resolve
  split
  · unfold resolveNamespaceSecret
    split
    · rfl
    · rw [Prog.eval_bind, Prog.eval_bind]
      rcases SameCredentials.eval_readSecret hs cfg.nspace cfg.spec.credentialsSecret with
        ⟨e, h, h'⟩ | ⟨data, data', h, h', hread⟩
      · rw [h, h']
        rfl
      · rw [h, h']
        simp only [hread "username" (by decide), hread "password" (by decide), bind, Except.bind]
        split <;> rfl
  · unfold resolveDefault
    split
    · rfl
    · have hload : (d.load rt).eval (readSecrets w.secrets) =
          (d.load rt).eval (readSecrets w'.secrets) := by
        unfold Default.load
        rw [Prog.eval_bind, Prog.eval_bind]
        rcases SameCredentials.eval_readSecret hs d.nspace d.secretName with
          ⟨e, h, h'⟩ | ⟨data, data', h, h', hread⟩
        · rw [h, h']
          rfl
        · rw [h, h']
          have hany : (["url", "masterID", "username", "password"].any fun k =>
              decide (StringMap.read data k = "")) =
              ["url", "masterID", "username", "password"].any fun k =>
                decide (StringMap.read data' k = "") := by
            simp [hread "username" (by decide), hread "password" (by decide),
              hread "url" (by decide), hread "masterID" (by decide)]
          simp only [hany, hread "username" (by decide), hread "password" (by decide),
            hread "url" (by decide), hread "masterID" (by decide),
            hread "skipTLSVerify" (by decide),
            bind, Except.bind]
          split <;> rfl
      rw [Prog.eval_bind, Prog.eval_bind, hload]
      congr 1
      funext conn
      split
      · rfl
      · split
        · rfl
        · split <;> rfl

end calls

end SaltOperator
