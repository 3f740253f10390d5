import SaltOperator.Controller.Chain

/-!
# The VM reconciler: `Reconcile` (virtualmachine_controller.go:211–325, 1140–1196)

One pass over one VM: read it, pick the namespace's config, then delete the key
of a VM that is going away or take the next step of one that is not.
-/

namespace SaltOperator

/-- `removeSaltFinalizer`. -/
def removeSaltFinalizer (vm : VirtualMachine) : M Result := do
  match ← Prog.perform (Op.getVM vm.key) with
  | .error (.notFound _) => return {}
  | .error e => .fail e.text
  | .ok latest =>
    if latest.containsFinalizer saltFinalizer then
      match ← Prog.perform (Op.patchVM latest (latest.removeFinalizer saltFinalizer)) with
      | .ok _ => return {}
      | .error (.notFound _) => return {}
      | .error e => .fail e.text
    else return {}

/-- The end of `reconcileDelete`: note the outcome of the deletion, whether or
not the note can be written, and let the VM go. -/
def finishDelete (vm : VirtualMachine) (status : String) (type : EventType)
    (reason message : String) : M Result := do
  let _ ← ((patchAnnotations vm [(annotationKeyStatus, status)]).attempt : M _)
  recordEvent vm type reason message
  removeSaltFinalizer vm

/-- `reconcileDelete`. -/
def reconcileDelete (rt : Runtime) (d : Default) (vm : VirtualMachine) (cfg : SaltKeyConfig) :
    M Result := do
  let minionID := vm.annotationOf annotationMinionID
  if minionID = "" then return {}
  else if vm.annotationOf annotationKeyStatus = keyStatusDeleted then removeSaltFinalizer vm
  else
    match ← (saltClientFromConfig rt d cfg).attempt with
    | .error e =>
      logError (some e) "Could not get salt client for key deletion, skipping" [("name", vm.name)]
      return {}
    | .ok conn =>
      match ← salt conn (.deleteKey minionID) with
      | .error e =>
        logError (some e) "Could not delete Salt key (fire-and-forget)"
          [("name", vm.name), ("minionID", minionID)]
        finishDelete vm keyStatusDeleteFailed .warning "SaltKeyDeleteFailed"
          ("Salt key deletion failed for minion " ++ Go.quote minionID ++ ": " ++ e)
      | .ok () =>
        logInfo "Deleted Salt key" [("name", vm.name), ("minionID", minionID)]
        finishDelete vm keyStatusDeleted .normal "SaltKeyDeleted"
          ("Salt key deleted for minion " ++ Go.quote minionID)

/-- The interval between two passes of a VM under `cfg`. -/
def SaltKeyConfig.requeueAfter (cfg : SaltKeyConfig) : Duration :=
  parseDurationOrDefault cfg.spec.requeueInterval (30 * Go.second)

def SaltKeyConfig.acceptTimeout (cfg : SaltKeyConfig) : Duration :=
  parseDurationOrDefault cfg.spec.acceptTimeout (10 * Go.minute)

/-- The part of `reconcileCreate` for a VM whose key is accepted. -/
def reconcileAccepted (rt : Runtime) (d : Default) (vm : VirtualMachine) (cfg : SaltKeyConfig) :
    M Result := do
  let vm ← ensureFinalizer (fun e => "re-add finalizer to " ++ vm.name ++ ": " ++ e) vm
  let conn ← saltClientFor rt d vm cfg
  reconcilePostAccept rt vm conn cfg (vm.annotationOf annotationMinionID) cfg.requeueAfter

/-- The `switch` of `reconcileCreate`: clear the Secret of a guest that has
signalled, or that had its time. -/
def clearSignalledKey (rt : Runtime) (vm : VirtualMachine) (cfg : SaltKeyConfig)
    (timedOut : Bool) : M VirtualMachine :=
  if guestSignalled vm then clearPreseedKey vm "the guest signal"
  else if timedOut then
    clearPreseedKey vm ("acceptTimeout " ++ rt.durationString cfg.acceptTimeout)
  else pure vm

/-- `reconcileCreate`. -/
def reconcileCreate (rt : Runtime) (d : Default) (vm : VirtualMachine) (cfg : SaltKeyConfig) :
    M Result := do
  let now ← timeNow
  let timedOut := (sinceVSphereCreate rt now vm).any (· ≥ cfg.acceptTimeout)
  let vm ← clearSignalledKey rt vm cfg timedOut
  if vm.annotationOf annotationKeyStatus ≠ keyStatusAccepted then
    reconcileKey rt d vm cfg cfg.acceptTimeout cfg.requeueAfter timedOut
  else reconcileAccepted rt d vm cfg

/-- `Reconcile`. -/
def reconcile (rt : Runtime) (d : Default) (req : NamespacedName) : M Result := do
  match ← Prog.perform (Op.getVM req) with
  | .error (.notFound _) => return {}
  | .error e => .fail e.text
  | .ok vm =>
    if vm.annotationOf annotationManaged ≠ annotationTrue then return {}
    else
      match ← findSaltKeyConfig req.nspace with
      | none => return {}
      | some cfg =>
        logInfo "Reconciling VirtualMachine"
          [("name", vm.name), ("namespace", vm.nspace), ("saltConfig", cfg.name)]
        if vm.deleting then reconcileDelete rt d vm cfg
        else if !matchesVMSelector rt cfg vm then
          logInfo "VirtualMachine does not match the SaltKeyConfig vmSelector, skipping" []
          return {}
        else reconcileCreate rt d vm cfg

end SaltOperator
