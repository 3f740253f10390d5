import SaltOperator.Lib.ObjectStore
import SaltOperator.Lib.Simulation
import SaltOperator.Controller.ConfigVerdict

/-!
# The configs and their controllers

The `SaltKeyConfig`s on the API server, the controllers that judge, create and delete them, and
everybody else, who creates, edits and deletes configs and Secrets at any time. Passes are under
way over any number of configs and namespaces, with the settings of any start of the operator, and
may be cut off after any call.

Configs and namespaces are read from a cache that may be behind, so that a read returns some
version there has been, or nothing. Secrets are read from the API server (cmd/main.go:160–164).
Statuses are written by the operator only.
-/

namespace SaltOperator

/-- What the API server knows of a config. -/
def configKind : Kind StoredConfig NamespacedName SaltKeyConfigSpec where
  key v := v.toSaltKeyConfig.key
  uid := StoredConfig.uid
  generation v := v.generation
  spec v := v.spec

namespace StoredConfig

variable (cur : StoredConfig)

/-- The config after an edit of its labels and spec. -/
def edited (labels : StringMap) (spec : SaltKeyConfigSpec) (version : String) : StoredConfig :=
  { cur with
    labels
    spec
    resourceVersion := version
    generation := if spec = cur.spec then cur.generation else cur.generation + 1 }

/-- The config after a patch of its key acceptance. -/
def keyAcceptancePatched (base obj : SaltKeyConfig) (version : String) : StoredConfig :=
  cur.edited cur.labels { cur.spec with
    keyAcceptance := mergeWhole base.spec.keyAcceptance obj.spec.keyAcceptance
      cur.spec.keyAcceptance } version

/-- The config after a patch of its status. A list is patched as a whole. -/
def statusPatched (base obj : StoredConfig) (version : String) : StoredConfig :=
  { cur with
    resourceVersion := version
    conditions := mergeWhole base.conditions obj.conditions cur.conditions
    observedGeneration :=
      mergeWhole base.observedGeneration obj.observedGeneration cur.observedGeneration }

theorem edited_next (labels : StringMap) (spec : SaltKeyConfigSpec) (version : String) :
    configKind.Next cur (cur.edited labels spec version) := by
  refine ⟨rfl, rfl, ?_, fun h => ?_⟩
  · show cur.generation ≤ if spec = cur.spec then cur.generation else cur.generation + 1
    split <;> omega
  · by_cases hspec : spec = cur.spec
    · exact hspec
    · have hgen : (if spec = cur.spec then cur.generation else cur.generation + 1) =
          cur.generation := h
      rw [if_neg hspec] at hgen
      omega

theorem keyAcceptancePatched_next (base obj : SaltKeyConfig) (version : String) :
    configKind.Next cur (cur.keyAcceptancePatched base obj version) := cur.edited_next _ _ _

theorem statusPatched_next (base obj : StoredConfig) (version : String) :
    configKind.Next cur (cur.statusPatched base obj version) := ⟨rfl, rfl, le_rfl, fun _ => rfl⟩

end StoredConfig

/-- A config as it is stored on its creation, without a status. -/
def SaltKeyConfig.stored (cfg : SaltKeyConfig) (uid : Nat) (version : String) : StoredConfig :=
  { cfg.created version with conditions := [], uid }

/-- The configs and Secrets of the cluster. -/
structure ConfigWorld where
  store : Store configKind
  secrets : NamespacedName → Option StringMap

namespace ConfigWorld

variable (w : ConfigWorld)

/-- Some version of a config has been this. -/
def Seen (cfg : SaltKeyConfig) : Prop := ∃ v ∈ w.store.versions, v.toSaltKeyConfig = cfg

/-- A config is created. -/
def create (cfg : SaltKeyConfig) (version : String)
    (hkey : cfg.key ∉ w.store.objects.map configKind.key) : ConfigWorld :=
  { w with store := w.store.create (cfg.stored w.store.next version) hkey rfl }

/-- The config under a key is deleted. -/
def delete (key : NamespacedName) : ConfigWorld := { w with store := w.store.delete key }

/-- A config gets a new version. -/
def replace {cur v : StoredConfig} (hcur : cur ∈ w.store.objects) (hv : configKind.Next cur v) :
    ConfigWorld :=
  { w with store := w.store.replace hcur hv }

/-- What others may do. -/
inductive Edit : ConfigWorld → Prop where
  | secrets (secrets) : Edit { w with secrets }
  | create (cfg version hkey) : Edit (w.create cfg version hkey)
  | edit {cur} (hcur : cur ∈ w.store.objects) (labels spec version) :
      Edit (w.replace hcur (cur.edited_next labels spec version))
  | delete (key) : Edit (w.delete key)

end ConfigWorld

/-- How a call is answered and what it does. -/
def ConfigExec (w : ConfigWorld) : (o : ConfigOp) → o.Ans → ConfigWorld → Prop
  | .get k, .ok v, w' => (v ∈ w.store.versions ∧ configKind.key v = k) ∧ w' = w
  | .patchStatus base obj, .ok v, w' => ∃ cur version, ∃ hcur : cur ∈ w.store.objects,
      configKind.key cur = configKind.key obj ∧ v = cur.statusPatched base obj version ∧
        w' = w.replace hcur (cur.statusPatched_next base obj version)
  | .listEnrolled, .ok configs, w' =>
      (∀ cfg ∈ configs, cfg.enrolled = true ∧ w.Seen cfg) ∧ w' = w
  | .enrolment (.getNamespace name), .ok ns, w' => ns.name = name ∧ w' = w
  | .enrolment (.listConfigs nspace), .ok configs, w' =>
      (∀ cfg ∈ configs, cfg.nspace = nspace ∧ w.Seen cfg) ∧ w' = w
  | .enrolment (.createConfig cfg), .ok c, w' => ∃ version,
      ∃ hkey : cfg.key ∉ w.store.objects.map configKind.key,
        c = (cfg.stored w.store.next version).toSaltKeyConfig ∧ w' = w.create cfg version hkey
  | .enrolment (.patchConfig base obj), .ok c, w' => ∃ cur version,
      ∃ hcur : cur ∈ w.store.objects, configKind.key cur = obj.key ∧
        c = (cur.keyAcceptancePatched base obj version).toSaltKeyConfig ∧
        w' = w.replace hcur (cur.keyAcceptancePatched_next base obj version)
  | .enrolment (.deleteConfig key), .ok (), w' =>
      key ∈ w.store.objects.map configKind.key ∧ w' = w.delete key
  | .controller (.getSecret key), .ok data, w' => w.secrets key = some data ∧ w' = w
  | .controller (.getSecret key), .error (.notFound _), w' => w.secrets key = none ∧ w' = w
  | _, _, w' => w' = w

/-- The flags a start of the operator has. -/
structure OperatorFlags where
  default : Default
  enrolment : Enrolment

/-- The workers of a start: one for each config, one for each namespace, and the one that releases
configs. -/
inductive ConfigWorker (J : Type) where
  | config (j : J) (key : NamespacedName)
  | enrolment (j : J) (nspace : String)
  | release (j : J)
  deriving DecidableEq

/-- What a worker runs. -/
def ConfigWorker.program {J : Type} (rt : Runtime) (flags : J → OperatorFlags) :
    ConfigWorker J → ConfigM Result
  | .config j key => reconcileConfig rt (flags j).default key
  | .enrolment j nspace =>
    if (flags j).enrolment.enabled then enrolmentPass (flags j).enrolment nspace else pure {}
  | .release j => if (flags j).enrolment.enabled then pure {} else releaseRunnable

/-- The controllers of configs at work. -/
def configCluster {J : Type} (rt : Runtime) (flags : J → OperatorFlags) :
    System (ConfigWorker J) ConfigOp ConfigOp.Ans ConfigWorld String Result where
  exec _ := ConfigExec
  env := ConfigWorld.Edit
  boot := ConfigWorker.program rt flags
  crash := True
  init w := w.store = .empty

/-- A configuration of them. -/
abbrev ConfigCfg (J : Type) :=
  Cfg (ConfigWorker J) ConfigOp ConfigOp.Ans ConfigWorld String Result

/-- A call of theirs. -/
abbrev ConfigCall := Call ConfigOp ConfigOp.Ans ConfigWorld

/-! ## What a call does to the configs -/

/-- The ways the configs change. -/
inductive ConfigWorld.Change (w : ConfigWorld) : ConfigOp → ConfigWorld → Prop where
  | none {o} : Change w o w
  | judged {base obj cur version} (hcur : cur ∈ w.store.objects) :
      configKind.key cur = configKind.key obj →
      Change w (.patchStatus base obj) (w.replace hcur (cur.statusPatched_next base obj version))
  | created {cfg version} (hkey) :
      Change w (.enrolment (.createConfig cfg)) (w.create cfg version hkey)
  | patched {base obj cur version} (hcur : cur ∈ w.store.objects) : configKind.key cur = obj.key →
      Change w (.enrolment (.patchConfig base obj))
        (w.replace hcur (cur.keyAcceptancePatched_next base obj version))
  | deleted {key} : key ∈ w.store.objects.map configKind.key →
      Change w (.enrolment (.deleteConfig key)) (w.delete key)

theorem ConfigWorld.Change.of_eq {w w' : ConfigWorld} {o : ConfigOp} (h : w' = w) :
    w.Change o w' := by
  rw [h]
  exact .none

/-- **What a call can do.** -/
theorem ConfigExec.change {w w' : ConfigWorld} {o : ConfigOp} {a : o.Ans}
    (h : ConfigExec w o a w') : w.Change o w' := by
  cases o with
  | get k =>
    rcases a with e | v
    · exact .of_eq h
    · exact .of_eq h.2
  | patchStatus base obj =>
    rcases a with e | v
    · exact .of_eq h
    · obtain ⟨cur, version, hcur, hkey, -, rfl⟩ := h
      exact .judged hcur hkey
  | listEnrolled =>
    rcases a with e | configs
    · exact .of_eq h
    · exact .of_eq h.2
  | enrolment o =>
    cases o with
    | getNamespace name =>
      rcases a with e | ns
      · exact .of_eq h
      · exact .of_eq h.2
    | listConfigs nspace =>
      rcases a with e | configs
      · exact .of_eq h
      · exact .of_eq h.2
    | createConfig cfg =>
      rcases a with e | c
      · exact .of_eq h
      · obtain ⟨version, hkey, -, rfl⟩ := h
        exact .created hkey
    | patchConfig base obj =>
      rcases a with e | c
      · exact .of_eq h
      · obtain ⟨cur, version, hcur, hkey, -, rfl⟩ := h
        exact .patched hcur hkey
    | deleteConfig key =>
      rcases a with e | u
      · exact .of_eq h
      · obtain ⟨hkey, rfl⟩ := h
        exact .deleted hkey
    | log message fields => exact .of_eq h
  | controller o =>
    have hsame : w' = w := by
      cases o with
      | getSecret key =>
        rcases a with (e | e | e) | data
        · exact h.2
        · exact h
        · exact h
        · exact h.2
      | _ => exact h
    exact .of_eq hsame

end SaltOperator
