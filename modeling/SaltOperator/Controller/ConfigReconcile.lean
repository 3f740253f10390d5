import SaltOperator.Lib.Relational
import SaltOperator.Controller.Enrolment

/-!
# The controllers of `SaltKeyConfig`s

`SaltKeyConfigReconciler.Reconcile` (internal/controller/saltkeyconfig_controller.go) writes the
verdict of `validate` on a config into its status, and comes back to it if a Secret may be at
fault. `EnrolmentReconciler` creates and deletes configs; where automatic enrolment is off,
`ReleaseEnrolled` deletes those it has created, once (cmd/main.go:216–235).
-/

namespace SaltOperator

/-- A `SaltKeyConfig` as it is stored, with the rest of its status. -/
structure StoredConfig extends SaltKeyConfig where
  uid : Nat
  observedGeneration : Int := 0

def SaltKeyConfig.key (cfg : SaltKeyConfig) : NamespacedName := ⟨cfg.nspace, cfg.name⟩

/-- The calls of the controllers. -/
inductive ConfigOp where
  /-- `r.Get` of a config. -/
  | get (key : NamespacedName)
  /-- `r.Status().Patch(ctx, obj, client.MergeFrom(base))`. -/
  | patchStatus (base obj : StoredConfig)
  /-- `c.List` of the configs with the operator's label. -/
  | listEnrolled
  /-- Those of the enrolment controller. -/
  | enrolment (o : EnrolmentOp)
  /-- Secrets and log lines. -/
  | controller (o : Op)

def ConfigOp.Ans : ConfigOp → Type
  | .get _ => Except ApiErr StoredConfig
  | .patchStatus _ _ => Except ApiErr StoredConfig
  | .listEnrolled => Except ApiErr (List SaltKeyConfig)
  | .enrolment o => o.Ans
  | .controller o => o.Ans

abbrev ConfigM (α : Type) := Prog ConfigOp ConfigOp.Ans String α

def configLog (message : String) (fields : List (String × String)) : ConfigM Unit :=
  Prog.perform (ConfigOp.controller (.log none message fields))

/-! ## The `Ready` condition -/

/-- `apimeta.SetStatusCondition`: the first condition of the type is replaced. -/
def setStatusCondition (new : Condition) : List Condition → List Condition
  | [] => [new]
  | c :: rest => if c.type = new.type then new :: rest else c :: setStatusCondition new rest

/-- Reasons that may go away when a Secret changes. -/
def secretReasons : List String :=
  [reasonSecretNotFound, reasonSecretInvalid, reasonGetSecretFailed, reasonConnectionMismatch]

def secretRetryInterval : Duration := 30 * Go.second

/-- The status that is written. -/
def StoredConfig.judged (cfg : StoredConfig) (cond : Condition) : StoredConfig :=
  { cfg with
    conditions := setStatusCondition cond cfg.conditions
    observedGeneration := cfg.generation }

/-- The end of `Reconcile`, once the status is written. -/
def reportVerdict (rt : Runtime) (cond : Condition) : ConfigM Result := do
  let fields := [("reason", cond.reason), ("message", cond.message)]
  if cond.status = .true then
    configLog "SaltKeyConfig is ready" []
    return {}
  else if secretReasons.contains cond.reason then
    configLog "SaltKeyConfig is not ready"
      (fields ++ [("retryAfter", rt.durationString secretRetryInterval)])
    return ⟨secretRetryInterval⟩
  else
    configLog "SaltKeyConfig is not ready" fields
    return {}

/-- The part of `Reconcile` after `validate`. -/
def writeVerdict (rt : Runtime) (cfg : StoredConfig) (cond : Condition) : ConfigM Result := do
  match ← Prog.perform (ConfigOp.patchStatus cfg (cfg.judged cond)) with
  | .error e => .fail e.text
  | .ok _ => reportVerdict rt cond

/-- `validate`, among the calls of the controllers. -/
def validateConfig (rt : Runtime) (d : Default) (cfg : SaltKeyConfig) : ConfigM Condition :=
  (validate rt d cfg).interp fun o => Prog.perform (ConfigOp.controller o)

/-- `SaltKeyConfigReconciler.Reconcile`. -/
def reconcileConfig (rt : Runtime) (d : Default) (key : NamespacedName) : ConfigM Result := do
  match ← Prog.perform (ConfigOp.get key) with
  | .error (.notFound _) => return {}
  | .error e => .fail e.text
  | .ok cfg =>
    writeVerdict rt cfg (← validateConfig rt d cfg.toSaltKeyConfig)

/-! ## Enrolment on and off -/

/-- `Enrolment.Enabled`. -/
def Enrolment.enabled (e : Enrolment) : Bool :=
  e.namespaces.length > 0 || e.all || e.selector.any fun s => !s.isEmpty

/-- The loop of `ReleaseEnrolled`: how many configs were deleted, and the error it stops at. -/
def releaseLoop (deleted : Nat) : List SaltKeyConfig → ConfigM (Nat × Option String)
  | [] => return (deleted, none)
  | cfg :: rest => do
    match ← Prog.perform (ConfigOp.enrolment (.deleteConfig cfg.key)) with
    | .error (.notFound _) => releaseLoop deleted rest
    | .error e => return (deleted, some e.text)
    | .ok () => releaseLoop (deleted + 1) rest

/-- `ReleaseEnrolled`. -/
def releaseEnrolled : ConfigM (Nat × Option String) := do
  match ← Prog.perform ConfigOp.listEnrolled with
  | .error e => return (0, some e.text)
  | .ok configs => releaseLoop 0 configs

/-- The `RunnableFunc` around it. -/
def releaseRunnable : ConfigM Result := do
  match ← releaseEnrolled with
  | (n, some e) =>
    Prog.perform (ConfigOp.controller (.log (some e)
      "Could not remove the SaltKeyConfigs automatic enrolment created" [("removed", toString n)]))
    return {}
  | (n, none) =>
    configLog "Automatic enrolment is off, removed the SaltKeyConfigs it created"
      [("removed", toString n)]
    return {}

/-- `EnrolmentReconciler.Reconcile`, among the calls of the controllers. -/
def enrolmentPass (e : Enrolment) (nspace : String) : ConfigM Result :=
  (enrolmentReconcile e nspace).interp fun o => Prog.perform (ConfigOp.enrolment o)

end SaltOperator
