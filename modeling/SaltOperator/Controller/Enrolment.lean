import SaltOperator.Lib.MergePatch
import SaltOperator.Controller.SaltKeyConfig

/-!
# Automatic enrolment (internal/controller/enrolment_controller.go)

`EnrolmentReconciler` keeps one `SaltKeyConfig` of its own, labelled as such, in
every namespace that is enrolled and has no other, and none elsewhere. A pass makes
at most one write.

`Contents` are the configs of a namespace on the API server, and `Serves` how the
server answers a pass that nobody disturbs: a list is in any order, a new config
gets the defaults of the CRD. A deleted config is gone, since nothing in this
repository puts finalizers on them.
-/

namespace SaltOperator

def enrolledConfigName : String := "salt-config"

/-- `labels.Selector`, as far as it is used. -/
structure Selector where
  isEmpty : Bool
  accepts : StringMap → Bool

/-- `Enrolment`. -/
structure Enrolment where
  namespaces : List String
  all : Bool
  selector : Option Selector
  excludePrefixes : List String
  keyAcceptance : String

/-- `corev1.Namespace`. -/
structure Namespace where
  name : String
  labels : StringMap := {}
  deletionTimestamp : Option Time := none

/-- `Enrolment.matches`. -/
def Enrolment.matchesNamespace (e : Enrolment) (ns : Namespace) : Bool :=
  if e.excludePrefixes.any fun p => p ≠ "" && Go.hasPrefix ns.name p then false
  else if e.namespaces.contains ns.name || e.all then true
  else e.selector.any fun s => !s.isEmpty && s.accepts ns.labels

/-- The calls of the reconciler. -/
inductive EnrolmentOp where
  | getNamespace (name : String)
  | listConfigs (nspace : String)
  | createConfig (cfg : SaltKeyConfig)
  /-- `r.Patch(ctx, obj, client.MergeFrom(base))` -/
  | patchConfig (base obj : SaltKeyConfig)
  | deleteConfig (key : NamespacedName)
  | log (message : String) (fields : List (String × String))

def EnrolmentOp.Ans : EnrolmentOp → Type
  | .getNamespace _ => Except ApiErr Namespace
  | .listConfigs _ => Except ApiErr (List SaltKeyConfig)
  | .createConfig _ => Except ApiErr SaltKeyConfig
  | .patchConfig _ _ => Except ApiErr SaltKeyConfig
  | .deleteConfig _ => Except ApiErr Unit
  | .log _ _ => Unit

abbrev EnrolM (α : Type) := Prog EnrolmentOp EnrolmentOp.Ans String α

/-- `log.Info`. -/
def enrolmentLog (message : String) (fields : List (String × String)) : EnrolM Unit :=
  Prog.perform (EnrolmentOp.log message fields)

/-- The loop that looks for the operator's config: the last one in the list. -/
def ownConfig (configs : List SaltKeyConfig) : Option SaltKeyConfig :=
  configs.foldl (fun own cfg => if cfg.enrolled then some cfg else own) none

/-- The deletions of `Reconcile`. -/
def removeOwnConfig (ns : Namespace) (own : SaltKeyConfig) (message : String) : EnrolM Result := do
  enrolmentLog message [("namespace", ns.name)]
  match ← Prog.perform (EnrolmentOp.deleteConfig ⟨own.nspace, own.name⟩) with
  | .ok () => return {}
  | .error (.notFound _) => return {}
  | .error e => .fail e.text

/-- `own.Spec.KeyAcceptance = mode`. -/
def SaltKeyConfig.withKeyAcceptance (cfg : SaltKeyConfig) (mode : String) : SaltKeyConfig :=
  { cfg with spec := { cfg.spec with keyAcceptance := mode } }

/-- The branch of `Reconcile` for an enrolled config that is the only one. -/
def adjustOwnConfig (e : Enrolment) (ns : Namespace) (own : SaltKeyConfig) : EnrolM Result := do
  if e.keyAcceptance ≠ "" ∧ own.spec.keyAcceptance ≠ e.keyAcceptance then
    match ← Prog.perform (EnrolmentOp.patchConfig own
        (own.withKeyAcceptance e.keyAcceptance)) with
    | .error err => .fail err.text
    | .ok own =>
      enrolmentLog "Changed the key acceptance of the enrolled SaltKeyConfig"
        [("namespace", ns.name), ("keyAcceptance", own.spec.keyAcceptance)]
      return {}
  else return {}

/-- The config `Reconcile` creates. The fields it leaves out are empty. -/
def enrolledConfig (e : Enrolment) (ns : Namespace) : SaltKeyConfig where
  name := enrolledConfigName
  nspace := ns.name
  labels := ({} : StringMap).insert labelManagedBy managedByOperator
  spec := { keyAcceptance := e.keyAcceptance, acceptTimeout := "", requeueInterval := "" }

/-- The branch of `Reconcile` for an enrolled namespace without a config. -/
def enrolNamespace (e : Enrolment) (ns : Namespace) : EnrolM Result := do
  let cfg := enrolledConfig e ns
  let enrolled (cfg : SaltKeyConfig) : EnrolM Result := do
    enrolmentLog "Enrolled namespace with the default RaaS connection"
      [("namespace", ns.name), ("keyAcceptance", cfg.spec.keyAcceptance)]
    return {}
  match ← Prog.perform (EnrolmentOp.createConfig cfg) with
  | .ok cfg => enrolled cfg
  | .error (.alreadyExists _) => enrolled cfg
  | .error err => .fail err.text

/-- `Reconcile` once the configs are listed. -/
def reconcileEnrolment (e : Enrolment) (ns : Namespace) (configs : List SaltKeyConfig) :
    EnrolM Result :=
  match e.matchesNamespace ns, ownConfig configs with
  | false, none => pure {}
  | false, some own => removeOwnConfig ns own
      "Namespace left enrolment, removing the SaltKeyConfig the operator created"
  | true, some own =>
    if configs.length > 1 then removeOwnConfig ns own
      "Namespace has its own SaltKeyConfig, removing the one the operator created"
    else adjustOwnConfig e ns own
  | true, none => if configs.length > 0 then pure {} else enrolNamespace e ns

/-- `EnrolmentReconciler.Reconcile`. -/
def enrolmentReconcile (e : Enrolment) (name : String) : EnrolM Result := do
  match ← Prog.perform (EnrolmentOp.getNamespace name) with
  | .error (.notFound _) => return {}
  | .error err => .fail err.text
  | .ok ns =>
    if ns.deletionTimestamp.isSome then return {}
    else
      match ← Prog.perform (EnrolmentOp.listConfigs ns.name) with
      | .error err => .fail err.text
      | .ok configs => reconcileEnrolment e ns configs

/-! ## The configs of a namespace -/

/-- The defaults of the CRD. -/
def SaltKeyConfigSpec.defaulted (spec : SaltKeyConfigSpec) : SaltKeyConfigSpec :=
  { spec with
    keyAcceptance := if spec.keyAcceptance = "" then keyAcceptanceDiscovery else spec.keyAcceptance
    acceptTimeout := if spec.acceptTimeout = "" then "10m" else spec.acceptTimeout
    requeueInterval := if spec.requeueInterval = "" then "30s" else spec.requeueInterval }

/-- A config as the API server stores it on its creation. -/
def SaltKeyConfig.created (cfg : SaltKeyConfig) (version : String) : SaltKeyConfig :=
  { cfg with resourceVersion := version, generation := 1, spec := cfg.spec.defaulted }

/-- The stored config `cur` after a patch of its key acceptance. -/
def SaltKeyConfig.patchedFrom (base obj cur : SaltKeyConfig) (version : String) : SaltKeyConfig :=
  { cur with
    resourceVersion := version
    generation := cur.generation + 1
    spec := { cur.spec with
      keyAcceptance := mergeWhole base.spec.keyAcceptance obj.spec.keyAcceptance
        cur.spec.keyAcceptance } }

/-- The configs on the API server; a name occurs once. -/
@[ext] structure Contents (nspace : String) where
  configs : List SaltKeyConfig
  here : ∀ cfg ∈ configs, cfg.nspace = nspace
  names : (configs.map SaltKeyConfig.name).Nodup

namespace Contents

variable {nspace : String} (w : Contents nspace)

/-- A config of this name is there. -/
def Has (key : NamespacedName) : Prop :=
  key.nspace = nspace ∧ key.name ∈ w.configs.map SaltKeyConfig.name

instance (key : NamespacedName) : Decidable (w.Has key) := inferInstanceAs (Decidable (_ ∧ _))

/-- A config is created. -/
def add (cfg : SaltKeyConfig) (hns : cfg.nspace = nspace)
    (hname : cfg.name ∉ w.configs.map SaltKeyConfig.name) : Contents nspace where
  configs := w.configs ++ [cfg]
  here c hc := by
    rcases List.mem_append.mp hc with hc | hc
    · exact w.here c hc
    · rw [List.mem_singleton.mp hc, hns]
  names := by
    rw [List.map_append, List.map_singleton]
    exact w.names.append (List.nodup_singleton _) (List.disjoint_singleton.mpr hname)

/-- The config with the name of `obj` is patched. -/
def patchConfig (base obj : SaltKeyConfig) (version : String) : Contents nspace where
  configs := w.configs.map fun cfg =>
    if cfg.name = obj.name then .patchedFrom base obj cfg version else cfg
  here c hc := by
    obtain ⟨cfg, hcfg, rfl⟩ := List.mem_map.mp hc
    split
    · exact w.here cfg hcfg
    · exact w.here cfg hcfg
  names := by
    rw [List.map_map]
    have hname : w.configs.map (SaltKeyConfig.name ∘ fun cfg =>
        if cfg.name = obj.name then .patchedFrom base obj cfg version else cfg) =
        w.configs.map SaltKeyConfig.name := by
      refine List.map_congr_left fun cfg _ => ?_
      simp only [Function.comp_apply]
      split <;> rfl
    rw [hname]
    exact w.names

theorem patchConfig_singleton {base obj cur : SaltKeyConfig} {version : String}
    (hw : w.configs = [cur]) (hname : cur.name = obj.name) :
    (w.patchConfig base obj version).configs = [.patchedFrom base obj cur version] := by
  show w.configs.map _ = _
  rw [hw, List.map_singleton, if_pos hname]

/-- A config is deleted. -/
def remove (name : String) : Contents nspace where
  configs := w.configs.filter (·.name ≠ name)
  here c hc := w.here c (List.mem_filter.mp hc).1
  names := w.names.sublist (List.filter_sublist.map _)

end Contents

/-- How the API server answers a pass over `ns` by itself, and what becomes of the
configs there. -/
def Serves (ns : Namespace) (w : Contents ns.name) :
    (o : EnrolmentOp) → o.Ans → Contents ns.name → Prop
  | .getNamespace name, a, w' => (name = ns.name → a = .ok ns) ∧ w' = w
  | .listConfigs nspace, a, w' =>
      (nspace = ns.name → ∃ configs, configs.Perm w.configs ∧ a = .ok configs) ∧ w' = w
  | .createConfig cfg, a, w' =>
      if h : cfg.nspace = ns.name ∧ cfg.name ∉ w.configs.map SaltKeyConfig.name then
        ∃ version, a = .ok (cfg.created version) ∧ w' = w.add (cfg.created version) h.1 h.2
      else (∃ text, a = .error (.alreadyExists text)) ∧ w' = w
  | .patchConfig base obj, a, w' =>
      if w.Has ⟨obj.nspace, obj.name⟩ then
        ∃ cur ∈ w.configs, cur.name = obj.name ∧ ∃ version,
          a = .ok (.patchedFrom base obj cur version) ∧ w' = w.patchConfig base obj version
      else (∃ text, a = .error (.notFound text)) ∧ w' = w
  | .deleteConfig key, a, w' =>
      if w.Has key then a = .ok () ∧ w' = w.remove key.name
      else (∃ text, a = .error (.notFound text)) ∧ w' = w
  | .log _ _, _, w' => w' = w

/-- Every call gets an answer. -/
theorem exists_serves (ns : Namespace) (w : Contents ns.name) (o : EnrolmentOp) :
    ∃ a w', Serves ns w o a w' := by
  cases o with
  | getNamespace name => exact ⟨.ok ns, w, fun _ => rfl, rfl⟩
  | listConfigs nspace => exact ⟨.ok w.configs, w, fun _ => ⟨_, .refl _, rfl⟩, rfl⟩
  | log message fields => exact ⟨(), w, rfl⟩
  | createConfig cfg =>
    by_cases h : cfg.nspace = ns.name ∧ cfg.name ∉ w.configs.map SaltKeyConfig.name
    · exact ⟨.ok (cfg.created ""), w.add (cfg.created "") h.1 h.2, by
        show dite _ _ _
        rw [dif_pos h]
        exact ⟨"", rfl, rfl⟩⟩
    · exact ⟨.error (.alreadyExists ""), w, by
        show dite _ _ _
        rw [dif_neg h]
        exact ⟨⟨"", rfl⟩, rfl⟩⟩
  | patchConfig base obj =>
    by_cases h : w.Has ⟨obj.nspace, obj.name⟩
    · obtain ⟨cur, hcur, hname⟩ := List.mem_map.mp h.2
      exact ⟨.ok (.patchedFrom base obj cur ""), w.patchConfig base obj "", by
        show ite _ _ _
        rw [if_pos h]
        exact ⟨cur, hcur, hname, "", rfl, rfl⟩⟩
    · exact ⟨.error (.notFound ""), w, by
        show ite _ _ _
        rw [if_neg h]
        exact ⟨⟨"", rfl⟩, rfl⟩⟩
  | deleteConfig key =>
    by_cases h : w.Has key
    · exact ⟨.ok (), w.remove key.name, by
        show ite _ _ _
        rw [if_pos h]
        exact ⟨rfl, rfl⟩⟩
    · exact ⟨.error (.notFound ""), w, by
        show ite _ _ _
        rw [if_neg h]
        exact ⟨⟨"", rfl⟩, rfl⟩⟩

end SaltOperator
