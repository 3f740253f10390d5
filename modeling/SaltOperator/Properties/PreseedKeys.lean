import SaltOperator.Cluster.KeyState
import SaltOperator.Cluster.Run

/-!
# The preseeded key of a VM, on the master and in its Secret

A preseeded key is in three places: the master has the public half accepted, the
VM's Secret holds the pair, and the VM records the minion ID. They are written by
separate calls, each of which may fail, and every retry has a new pair generated.

The calls of the worker tell which pair was generated last (`History.ownKey`) and
what its Secret holds (`History.stored`); both are what the master and the API
server have, as long as nobody else handles the key or the Secret (`kept_in_world`).
A VM records its key only when the two go together, and the worker touches neither
afterwards but to clear the Secret (`kept_invariant`). Hence
`preseed_key_agrees`: **Secret and master agree in every state**.
-/

namespace SaltOperator

variable {rt : Runtime} {d : Default} {crash : Prop} {k : NamespacedName} {h : History}
  {vm : VirtualMachine}

/-! ## What the calls say -/

/-- The Secret holds the pair for the minion, or had it cleared. -/
structure Secret.Holds (s : Secret) (minionID : String) (pair : KeyPair) : Prop where
  minionID : s.entry "minion_id" = some minionID
  keys : (s.entry "minion.pem" = some bootstrapKeyCleared ∧
      s.entry "minion.pub" = some bootstrapKeyCleared) ∨
    (s.entry "minion.pem" = some pair.priv ∧ s.entry "minion.pub" = some pair.pub)

theorem bootstrapSecret_holds (m : VirtualMachine) (minionID : String) (pair : KeyPair)
    (masterPub : String) : (bootstrapSecret m minionID pair masterPub).Holds minionID pair where
  minionID := by rw [Secret.entry_eq_lookup]; rfl
  keys := .inr ⟨by rw [Secret.entry_eq_lookup]; rfl, by rw [Secret.entry_eq_lookup]; rfl⟩

theorem Secret.Holds.clear {s : Secret} {minionID : String} {pair : KeyPair}
    (hs : s.Holds minionID pair) : (s.patched clearedEntries).Holds minionID pair where
  minionID := by
    rw [Secret.entry_patched, ← hs.minionID]
    rfl
  keys := .inl ⟨by rw [Secret.entry_patched]; rfl, by rw [Secret.entry_patched]; rfl⟩

/-- The pair generated last is for this minion, and the Secret goes with it. -/
def History.Kept (h : History) (minionID : String) : Prop :=
  ∃ conn pair s, h.ownKey = some ⟨conn, minionID, some pair⟩ ∧ h.stored = some s ∧
    s.Holds minionID pair

theorem ownKey_cons {c : Made} (hc : c.op.keyOf = none) : History.ownKey (c :: h) = h.ownKey := by
  obtain ⟨w, o, a⟩ := c
  cases o with
  | salt conn call => cases call <;> first | rfl | cases hc
  | _ => rfl

theorem stored_cons {c : Made} (hc : c.op.secretOf = none) :
    History.stored (c :: h) = h.stored := by
  obtain ⟨w, o, a⟩ := c
  cases o <;> first | rfl | cases hc

/-- The worker's last call asked RaaS to do something to a key, and failed. -/
def History.keyCallFailed : History → Bool
  | ⟨_, .salt _ (.acceptKey _), .error _⟩ :: _ => true
  | ⟨_, .salt _ (.genAcceptKey _ _), .error _⟩ :: _ => true
  | _ => false

theorem ownKey_of_keyCallFailed (hf : h.keyCallFailed = true) : h.ownKey = none := by
  match h, hf with
  | ⟨_, .salt _ (.acceptKey _), .error _⟩ :: _, _ => rfl
  | ⟨_, .salt _ (.genAcceptKey _ _), .error _⟩ :: _, _ => rfl

/-- Only the worker of `k` handles the key of the minion with the VM's name and
writes the VM's Secret, and it does not delete the key. What a call of the worker
asked RaaS for may have happened although the call failed. -/
def KeyUndisturbed (k : NamespacedName) : StepCondition := fun c act c' =>
  match act with
  | .env => c'.world.secrets k.bootstrap = c.world.secrets k.bootstrap ∧
      (History.keyCallFailed (c.hist k) = true ∨
        ∀ url, (c'.world.raas url).accepted k.name = (c.world.raas url).accepted k.name)
  | .call t o _ =>
    if t = k then ∀ conn minionID, o ≠ .salt conn (.deleteKey minionID)
    else o.keyOf ≠ some k.name
  | _ => True

/-! ## Runs -/

theorem kept_of_call {c : ClusterCfg} {o : Op} {a : o.Ans}
    (hr : (cluster rt d notOwn crash).Reach c) (hvm : c.world.vms k = .live vm)
    (hp : Permitted rt crash k (c.hist k) o) (hpre : vm.Preseeded)
    (hdel : ∀ conn minionID, o ≠ .salt conn (.deleteKey minionID)) {minionID : String}
    (hkept : History.Kept (c.hist k) minionID) :
    History.Kept (⟨c.world, o, a⟩ :: c.hist k) minionID := by
  obtain ⟨conn, pair, s, hown, hst, hs⟩ := hkept
  -- the VM has a key, so that its worker does not get it another one
  have hno : o.obtainsKey = false := by
    by_contra hyes
    obtain ⟨m, hm, hk⟩ := keyless_of_obtainsKey (keyLog hr k) hp (by simpa using hyes)
    have hne : vm.keyState ≠ .new := fun hnew => by
      have hmethod : vm.keyState.method = matchMethodPreseed := hpre
      rw [hnew] at hmethod
      exact absurd hmethod (by decide)
    obtain ⟨m', hm', heq⟩ := exists_served_keyState hr hvm hne
    have hempty := ((keyLog hr k).keyless hm hk hm').2.1
    rw [heq] at hempty
    exact absurd (hpre.symm.trans hempty) (by decide)
  have hkey : o.keyOf = none := by
    cases o with
    | salt conn call =>
      cases call with
      | deleteKey id => exact absurd rfl (hdel conn id)
      | _ => first | rfl | cases hno
    | _ => rfl
  refine ⟨conn, pair, ?_⟩
  rw [ownKey_cons hkey]
  cases o with
  | patchSecret key data =>
    obtain ⟨m, -, -, rfl, rfl⟩ := hp
    cases a with
    | error e => exact ⟨s, hown, hst, hs⟩
    | ok u =>
      refine ⟨s.patched clearedEntries, hown, ?_, hs.clear⟩
      show (History.stored (c.hist k)).map _ = _
      rw [hst]
      rfl
  | createSecret s' => cases hno
  | updateSecret s' => cases hno
  | _ => exact ⟨s, hown, (stored_cons rfl).trans hst, hs⟩

/-- **A VM records the pair that was generated last and is in its Secret**, and
keeps it. -/
theorem kept_invariant (k : NamespacedName) : VMInvariant rt d crash (KeyUndisturbed k)
    (fun j _ h vm => j = k → vm.Preseeded → h.Kept (vm.annotationOf annotationMinionID)) := by
  constructor
  case fresh =>
    intro h vm hf _ _ hpre
    have hmethod : vm.keyState.method = matchMethodPreseed := hpre
    rw [keyState_fresh hf] at hmethod
    exact absurd hmethod (by decide)
  case edit =>
    intro c c' j before after _ _ _ he _ _ _ hq hj hpre
    have hown : OwnEq after before := fun a ha => he.annotations a fun hno => hno ha
    rw [hown.annotationOf (by decide)]
    exact hq hj (hown.preseeded.mp hpre)
  case call =>
    intro c c' j o a vm hr _ hvm hp _ _ ha hq hj hpre
    subst hj
    have hallow : ∀ conn minionID, o ≠ .salt conn (.deleteKey minionID) := by
      simpa only [KeyUndisturbed, if_true] using ha
    exact kept_of_call hr hvm hp hpre hallow (hq rfl hpre)
  case patch =>
    intro c c' j base obj cur version hr hs hcur _ hp hbase hnew ha hq hj hpre
    subst hj
    have hid : annotationMinionID ∈ ownAnnotations := by decide
    rw [hnew.annotationOf hid]
    rcases hp.preseeded (hnew.preseeded.mp hpre) with ⟨hb, heq⟩ | ⟨-, hdel, heq⟩
    · rw [heq, hbase.annotationOf hid]
      obtain ⟨conn, pair, s, hown, hst, hholds⟩ := hq rfl (hbase.preseeded.mp hb)
      exact ⟨conn, pair, s, (ownKey_cons rfl).trans hown, (stored_cons rfl).trans hst, hholds⟩
    · obtain ⟨conn, pair, masterPub, hown, hst⟩ := hdel
      rw [heq]
      exact ⟨conn, pair, _, (ownKey_cons rfl).trans hown, (stored_cons rfl).trans hst,
        bootstrapSecret_holds base base.name pair masterPub⟩

/-- The calls of the worker tell what the master and the API server have. -/
structure KeptInWorld (k : NamespacedName) (w : World) (h : History) : Prop where
  master : ∀ conn pair, h.ownKey = some ⟨conn, k.name, some pair⟩ →
    (w.raas conn.url).accepted k.name = some pair.pub
  secret : ∀ s, h.stored = some s → w.secrets k.bootstrap = some s

/-- A call of the worker keeps the books right. -/
theorem KeptInWorld.own {w : World} {H : NamespacedName → History} (hs : Sound w H) {o : Op}
    {a : o.Ans} (hp : Permitted rt crash k (H k) o) (hk : KeptInWorld k w (H k)) :
    KeptInWorld k (effect w o a) (⟨w, o, a⟩ :: H k) := by
  constructor
  · intro conn pair hown
    by_cases hkey : o.keyOf = none
    · rw [ownKey_cons hkey] at hown
      rw [effect_accepted (by rw [hkey]; nofun)]
      exact hk.master conn pair hown
    · -- of the calls that act on a key only a generation leaves a pair
      cases o with
      | salt conn' call =>
        cases call with
        | acceptKey id => cases a <;> cases hown
        | deleteKey id => cases a <;> cases hown
        | genAcceptKey id force =>
          rcases a with e | _ | pair'
          · cases hown
          · cases hown
          · cases hown
            show Keys.accepted (Function.update w.raas conn.url _ conn.url) k.name = _
            rw [Function.update_self]
            exact Function.update_self _ _ _
        | _ => exact absurd rfl hkey
      | _ => exact absurd rfl hkey
  · intro s hst
    have hkey := fun key (ho : o.secretOf = some key) => hs.secretOf hp ho
    have same : o.secretOf = none → (effect w o a).secrets k.bootstrap = some s := by
      intro ho
      rw [stored_cons ho] at hst
      rw [effect_secrets (by rw [ho]; nofun)]
      exact hk.secret s hst
    cases o with
    | createSecret s' =>
      have hname : (⟨s'.nspace, s'.name⟩ : NamespacedName) = k.bootstrap := hkey _ rfl
      cases a with
      | error e => exact hk.secret s hst
      | ok u =>
        cases hst
        simp only [effect, hname, Function.update_self]
    | updateSecret s' =>
      have hname : (⟨s'.nspace, s'.name⟩ : NamespacedName) = k.bootstrap := hkey _ rfl
      cases a with
      | error e => exact hk.secret s hst
      | ok u =>
        cases hst
        simp only [effect, hname, Function.update_self]
    | patchSecret key data =>
      have hname : key = k.bootstrap := hkey _ rfl
      cases a with
      | error e => exact hk.secret s hst
      | ok u =>
        obtain ⟨s', hs', rfl⟩ := Option.map_eq_some_iff.mp hst
        simp only [effect, hname, Function.update_self, hk.secret s' hs']
        rfl
    | _ => exact same rfl

theorem kept_in_world {c : ClusterCfg}
    (h : (cluster rt d notOwn crash).ReachIf (KeyUndisturbed k) c) :
    KeptInWorld k c.world (c.hist k) := by
  refine (contract rt d crash).invariantIf (K := fun w H => KeptInWorld k w (H k)) ?_ ?_ ?_ h
  · exact fun _ _ => ⟨nofun, nofun⟩
  · intro c w' _ _ ha _ hk
    obtain ⟨hsec, hfail⟩ := ha
    refine ⟨fun conn pair hown => ?_, fun s hst => hsec.trans (hk.secret s hst)⟩
    rcases hfail with hfail | hsame
    · rw [ownKey_of_keyCallFailed hfail] at hown
      cases hown
    · exact (hsame conn.url).trans (hk.master conn pair hown)
  · intro c t o a w' next _ _ hx ha hs hp hk
    obtain ⟨-, rfl⟩ := hx
    rcases eq_or_ne t k with rfl | hne
    · rw [Function.update_self]
      exact hk.own hs hp
    · have hkey : o.keyOf ≠ some k.name := by
        simpa only [KeyUndisturbed, if_neg hne] using ha
      have hsec : o.secretOf ≠ some k.bootstrap := fun ho =>
        hne (NamespacedName.bootstrap_injective (hs.secretOf hp ho)).symm
      rw [Function.update_of_ne hne.symm]
      exact ⟨fun conn pair hown => (effect_accepted hkey).trans (hk.master conn pair hown),
        fun s hst => (effect_secrets hsec).trans (hk.secret s hst)⟩

/-- **Secret and master agree on the preseeded key.** In every run in which nobody
else handles the key or the Secret and the worker does not delete the key, with any
call failing and the operator stopping anywhere, a VM that records a preseeded minion
ID has the pair RaaS generated last for it: the master behind that connection has the
public half accepted, and the Secret of the VM names the ID and holds this pair, or no
pair any more. -/
theorem preseed_key_agrees {c : ClusterCfg}
    (h : (cluster rt d notOwn crash).ReachIf (KeyUndisturbed k) c)
    (hvm : c.world.vms k = .live vm)
    (hpre : vm.annotationOf annotationMatchMethod = matchMethodPreseed) :
    ∃ conn pair s,
      History.ownKey (c.hist k) = some ⟨conn, vm.annotationOf annotationMinionID, some pair⟩ ∧
      (c.world.raas conn.url).accepted (vm.annotationOf annotationMinionID) = some pair.pub ∧
      c.world.secrets k.bootstrap = some s ∧
      s.entry "minion_id" = some (vm.annotationOf annotationMinionID) ∧
      ((s.entry "minion.pem" = some bootstrapKeyCleared ∧
          s.entry "minion.pub" = some bootstrapKeyCleared) ∨
        (s.entry "minion.pem" = some pair.priv ∧ s.entry "minion.pub" = some pair.pub)) := by
  obtain ⟨conn, pair, s, hown, hst, hs⟩ := (kept_invariant k).holds h hvm rfl hpre
  have hw := kept_in_world h
  have hid := preseed_minionID h.reach hvm hpre
  refine ⟨conn, pair, s, hown, ?_, hw.secret s hst, hs.minionID, hs.keys⟩
  rw [hid] at hown ⊢
  exact hw.master conn pair hown

/-- Whether the step is of the worker of `k` and is no deletion of a key. -/
def ownSteps (k : NamespacedName) : ClusterAction → Bool
  | .env => false
  | .call _ (.salt _ (.deleteKey _)) _ => false
  | .call t _ _ => t = k
  | _ => true

theorem keyUndisturbed_of_ownSteps {c c' : ClusterCfg} {act : ClusterAction}
    (h : ownSteps k act = true) : KeyUndisturbed k c act c' := by
  cases act with
  | env => cases h
  | call t o a =>
    cases o with
    | salt conn call =>
      cases call with
      | deleteKey id => cases h
      | _ =>
        obtain rfl : t = k := by simpa [ownSteps] using h
        simp [KeyUndisturbed]
    | _ =>
      obtain rfl : t = k := by simpa [ownSteps] using h
      simp [KeyUndisturbed]
  | _ => trivial

/-- A VM has its key preseeded: the Secret holds the pair that was generated. -/
theorem preseed_key_agrees_delivered :
    ∃ (c : ClusterCfg) (vm : VirtualMachine) (s : Secret) (conn : Connection),
      (cluster Sample.runtime Sample.noDefault notOwn True).ReachIf (KeyUndisturbed Sample.key) c ∧
      c.world.vms Sample.key = .live vm ∧
      vm.annotationOf annotationMatchMethod = matchMethodPreseed ∧
      vm.annotationOf annotationKeyStatus = keyStatusPreseeded ∧
      History.ownKey (c.hist Sample.key) = some ⟨conn, "web", some ⟨"public", "private"⟩⟩ ∧
      (c.world.raas conn.url).accepted "web" = some "public" ∧
      c.world.secrets Sample.key.bootstrap = some s ∧ s.entry "minion_id" = some "web" ∧
      s.entry "minion.pem" = some "private" ∧ s.entry "minion.pub" = some "public" := by
  have hrun : ∃ c, (cluster Sample.runtime Sample.noDefault notOwn True).ReachIf
      (KeyUndisturbed Sample.key) c ∧ ((c.world.vms Sample.key).vm?.any fun vm =>
        vm.annotationOf annotationMatchMethod = matchMethodPreseed &&
          vm.annotationOf annotationKeyStatus = keyStatusPreseeded &&
          vm.annotationOf annotationMinionID = "web" &&
          (History.ownKey (c.hist Sample.key)).any
            (fun own => own.pair = some ⟨"public", "private"⟩) &&
          (c.world.secrets Sample.key.bootstrap).any
            (fun s => s.entry "minion.pem" = some "private")) = true :=
    exists_reachIf_of_created Sample.time Sample.secrets (Sample.vm "a" "u1")
      (fun _ act _ => ownSteps Sample.key act) (work Sample.key (Sample.preseed "a") 19) _
      (by decide) ⟨rfl, .inr fun _ => rfl⟩ (fun _ _ _ _ => keyUndisturbed_of_ownSteps)
      (by decide +kernel)
  obtain ⟨c, hr, hc⟩ := hrun
  obtain ⟨vm, hvm, hcheck⟩ := Slot.vm?_any hc
  simp only [Bool.and_eq_true, decide_eq_true_eq] at hcheck
  obtain ⟨⟨⟨⟨hmethod, hstatus⟩, hid⟩, hgenerated⟩, hdelivered⟩ := hcheck
  obtain ⟨conn, pair, s, hown, haccepted, hs, hminion, hkeys⟩ := preseed_key_agrees hr hvm hmethod
  rw [hid] at hown haccepted hminion
  obtain rfl : pair = ⟨"public", "private"⟩ := by simpa [hown] using hgenerated
  have hpem : s.entry "minion.pem" = some "private" := by simpa [hs] using hdelivered
  rcases hkeys with ⟨hcleared, -⟩ | ⟨-, hpub⟩
  · -- the entry is not the one of a cleared key
    rw [hpem] at hcleared
    exact absurd hcleared (by decide)
  · exact ⟨c, vm, s, conn, hr, hvm, hmethod, hstatus, hown, haccepted, hs, hminion, hpem, hpub⟩

end SaltOperator
