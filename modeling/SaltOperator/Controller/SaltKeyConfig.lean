import SaltOperator.Controller.Connection

/-!
# `SaltKeyConfig`s: validation and selection

`validate` decides the `Ready` condition (saltkeyconfig_controller.go), and
`selectConfig` is the choice `findSaltKeyConfig` makes among the configs of a
namespace (virtualmachine_controller.go:1198–1217): a team's own Ready config
before the one the operator enrolled.
-/

namespace SaltOperator

def labelManagedBy : String := "salt.vcf.io/managed-by"

def managedByOperator : String := "vcf-salt-operator"

/-- Whether the operator created the config. -/
def SaltKeyConfig.enrolled (cfg : SaltKeyConfig) : Bool :=
  StringMap.read cfg.labels labelManagedBy = managedByOperator

/-- The loop of `findSaltKeyConfig`, `own` being the enrolled config seen so
far. -/
def selectLoop (own : Option SaltKeyConfig) : List SaltKeyConfig → Option SaltKeyConfig
  | [] => own
  | cfg :: rest =>
    if !cfg.isReady then selectLoop own rest
    else if !cfg.enrolled then some cfg
    else selectLoop (own.orElse fun _ => some cfg) rest

/-- The config `findSaltKeyConfig` picks from the list. -/
def selectConfig (configs : List SaltKeyConfig) : Option SaltKeyConfig := selectLoop none configs

/-- `findSaltKeyConfig`. -/
def findSaltKeyConfig (nspace : String) : M (Option SaltKeyConfig) := do
  match ← Prog.perform (Op.listConfigs (some nspace)) with
  | .error e => .fail e.text
  | .ok configs => return selectConfig configs

theorem selectLoop_eq_some {own : Option SaltKeyConfig} {configs : List SaltKeyConfig}
    {cfg : SaltKeyConfig} (h : selectLoop own configs = some cfg) :
    own = some cfg ∨ (cfg ∈ configs ∧ cfg.isReady = true) := by
  induction configs generalizing own with
  | nil => exact .inl h
  | cons c rest ih =>
    have later (hc : cfg ∈ rest ∧ cfg.isReady = true) : cfg ∈ c :: rest ∧ cfg.isReady = true :=
      ⟨List.mem_cons_of_mem _ hc.1, hc.2⟩
    unfold selectLoop at h
    split at h
    · exact (ih h).imp_right later
    · rename_i hr
      have first (hc : c = cfg) : cfg ∈ c :: rest ∧ cfg.isReady = true :=
        ⟨hc ▸ List.mem_cons_self, hc ▸ by simpa using hr⟩
      split at h
      · exact .inr (first (Option.some.inj h))
      · rcases ih h with hown | hc
        · cases own with
          | none => exact .inr (first (Option.some.inj hown))
          | some o => exact .inl hown
        · exact .inr (later hc)

/-- The selected config is Ready. -/
theorem selectConfig_isReady {configs : List SaltKeyConfig} {cfg : SaltKeyConfig}
    (h : selectConfig configs = some cfg) : cfg.isReady :=
  ((selectLoop_eq_some h).resolve_left nofun).2

/-- The selected config is one of the list. -/
theorem selectConfig_mem {configs : List SaltKeyConfig} {cfg : SaltKeyConfig}
    (h : selectConfig configs = some cfg) : cfg ∈ configs :=
  ((selectLoop_eq_some h).resolve_left nofun).1

theorem selectLoop_eq_none {own : Option SaltKeyConfig} {configs : List SaltKeyConfig} :
    selectLoop own configs = none ↔ own = none ∧ ∀ cfg ∈ configs, cfg.isReady = false := by
  induction configs generalizing own with
  | nil => simp [selectLoop]
  | cons c rest ih =>
    unfold selectLoop
    cases hr : c.isReady
    · simp [ih, hr]
    · cases he : c.enrolled
      · simp [hr]
      · cases own <;> simp [ih, hr]

/-- No config is selected exactly when none is Ready. -/
theorem selectConfig_eq_none {configs : List SaltKeyConfig} :
    selectConfig configs = none ↔ ∀ cfg ∈ configs, cfg.isReady = false := by
  unfold selectConfig
  rw [selectLoop_eq_none]
  simp

def reasonReady : String := "Ready"
def reasonInvalidDuration : String := "InvalidDuration"
def reasonInvalidSelector : String := "InvalidSelector"

/-- A duration field of the spec: its name, its value and the error of a value that is no
duration. -/
def durationError (name val : String) : Option (String × String × String) :=
  if val = "" then none
  else match Go.readDuration val with
    | .error e => some (name, val, e)
    | .ok _ => none

/-- The first of the fields `validate` checks that is no duration, with its value and the error. -/
def invalidDuration (spec : SaltKeyConfigSpec) : Option (String × String × String) :=
  durationError "acceptTimeout" spec.acceptTimeout <|>
    durationError "requeueInterval" spec.requeueInterval

/-- `validate`: the `Ready` condition of a config. -/
def validate (rt : Runtime) (d : Default) (cfg : SaltKeyConfig) : M Condition := do
  let base : Condition :=
    { type := "Ready", status := .false, observedGeneration := cfg.generation }
  match invalidDuration cfg.spec with
  | some (name, val, e) =>
    return { base with
      reason := reasonInvalidDuration
      message := "spec." ++ name ++ " " ++ Go.quote val ++ " is not a valid duration: " ++ e }
  | none =>
    match cfg.spec.vmSelector.map rt.selector with
    | some (.error e) =>
      return { base with
        reason := reasonInvalidSelector
        message := "spec.vmSelector is not a valid label selector: " ++ e }
    | _ =>
      match ← (resolve rt cfg d).attempt with
      | .error e => return { base with reason := e.reason, message := e.message }
      | .ok conn =>
        return { base with
          status := .true
          reason := reasonReady
          message :=
            if conn.source ≠ sourceDefaultConnection then "Credentials Secret found and valid"
            else if conn.skipTLSVerify then
              "Using the operator's default RaaS connection, TLS verification skipped"
            else "Using the operator's default RaaS connection, TLS verification on" }

end SaltOperator
