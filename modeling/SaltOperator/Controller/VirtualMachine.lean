import SaltOperator.Controller.SaltKeyConfig

/-!
# The VM reconciler: what its steps share (virtualmachine_controller.go)

Constants of the state machine, the reads of a VM object, the intent hash, the
enforcement schedule, and the calls every step makes: `patchAnnotations`,
`saltClientFromConfig`, `clearPreseedKey`, `masterSilence`.

A Go function that mutates the VM it was handed returns the new object here; a
Go error is a failure of the program.
-/

namespace SaltOperator

def postAcceptDelay : Duration := 30 * Go.second
def maxBootstrapDuration : Duration := 10 * Go.minute
def minMasterSilence : Duration := Go.minute

def eventMasterSilent : String := "SaltMasterSilent"
def intentHashVersion : String := "v2:"
def failedStatusPrefix : String := "Failed/"

def keyStatusAccepted : String := "Accepted"
def keyStatusFailed : String := "Failed"
def keyStatusDeleted : String := "Deleted"
def keyStatusPreseeded : String := "Preseeded"
def keyStatusDeleteFailed : String := "DeleteFailed"
def matchMethodPreseed : String := "preseed"
def bootstrapSecretSuffix : String := "-salt-bootstrap"
def bootstrapKeyCleared : String := "cleared"
def guestSignalKey : String := "salt-key-written"

def saltStatusPinged : String := "Pinged"
def saltStatusPillarRefreshed : String := "PillarRefreshed"
def saltStatusHighstateDispatched : String := "HighstateDispatched"
def saltStatusReady : String := "Ready"
def saltStatusFailedPing : String := "Failed/Ping"
def saltStatusFailedPillarRefresh : String := "Failed/PillarRefresh"
def saltStatusFailedHighstateDispatch : String := "Failed/HighstateDispatch"
def saltStatusFailedHighstate : String := "Failed/Highstate"

def highstateInProgress : String := "InProgress"
def highstateSuccess : String := "Success"
def highstateFailed : String := "Failed"

def annotationTrue : String := "true"
def annotationFalse : String := "false"

def vmConditionReady : String := "Ready"
def vmConditionCreated : String := "VirtualMachineCreated"

/-- `virtualMachineGVK`. -/
def virtualMachineAPIVersion : String := "vmoperator.vmware.com/v1alpha4"
def virtualMachineKind : String := "VirtualMachine"

/-! ## Reading a VM -/

/-- `guestSignalled`. -/
def guestSignalled (vm : VirtualMachine) : Bool :=
  (vm.spec.nestedSlice ["readinessProbe", "guestInfo"]).any (Json.hasString "key" guestSignalKey) &&
  (vm.status.nestedSlice ["conditions"]).any fun c =>
    c.hasString "type" vmConditionReady && c.hasString "status" "True"

/-- `sinceVSphereCreate`, `none` for its second result `false`. -/
def sinceVSphereCreate (rt : Runtime) (now : Time) (vm : VirtualMachine) : Option Duration :=
  match (vm.status.nestedSlice ["conditions"]).find? fun c =>
      c.hasString "type" vmConditionCreated && c.hasString "status" "True" with
  | none => none
  | some c => (rt.parseRFC3339 (c.nestedString ["lastTransitionTime"])).map (Go.since now)

/-- `phase == "Running" || powerState == "PoweredOn"`. -/
def VirtualMachine.running (vm : VirtualMachine) : Bool :=
  vm.status.nestedString ["phase"] = "Running" ||
    vm.status.nestedString ["powerState"] = "PoweredOn"

def VirtualMachine.primaryIP (vm : VirtualMachine) : String :=
  vm.status.nestedString ["network", "primaryIP4"]

/-- `matchesVMSelector`. -/
def matchesVMSelector (rt : Runtime) (cfg : SaltKeyConfig) (vm : VirtualMachine) : Bool :=
  match cfg.spec.vmSelector with
  | none => true
  | some sel =>
    match rt.selector sel with
    | .error _ => false
    | .ok selects => selects vm.labels

/-! ## The intent -/

/-- Whether an annotation is part of what the tenant asks for. -/
def isIntent (k : String) : Bool :=
  Go.hasPrefix k "salt.vcf.io/" && !nonIntentAnnotations.contains k

/-- The intent annotations of a VM. -/
def intentSet (annotations : StringMap) : StringMap := annotations.filter fun k _ => isIntent k

/-- The text `computeIntentHash` hashes: one line a key, in the order of the
keys. -/
def intentText (annotations : StringMap) : String :=
  (intentSet annotations).toList.foldl (fun b e => b ++ e.1 ++ "=" ++ e.2 ++ "\n") ""

/-- `computeIntentHash`. -/
def computeIntentHash (rt : Runtime) (annotations : StringMap) : String :=
  intentHashVersion ++ Go.hexEncode ((rt.sha256 (intentText annotations)).take 8)

/-- `computeLegacyRolesHash`. -/
def computeLegacyRolesHash (rt : Runtime) (roles : String) : String :=
  Go.hexEncode ((rt.sha256 roles).take 8)

/-! ## Scheduled enforcement -/

/-- `binary.BigEndian.Uint64`. -/
def bigEndian64 (bs : List UInt8) : Nat := (bs.take 8).foldl (fun n b => n * 256 + b.toNat) 0

/-- `enforcementJitter`. -/
def enforcementJitter (rt : Runtime) (uid : String) (interval : Duration) : Duration :=
  let spread := interval.tdiv 10
  if spread ≤ 0 ∨ uid = "" then 0
  else (bigEndian64 (rt.sha256 uid) % spread.toNat : Nat)

/-- `enforcementDue`: whether a run is due, and how long to wait otherwise. -/
def enforcementDue (rt : Runtime) (cfg : SaltKeyConfig) (uid lastHighstate : String)
    (now : Time) : Bool × Duration :=
  if cfg.spec.enforcementInterval = "" then (false, 0)
  else match Go.parseDuration cfg.spec.enforcementInterval with
    | none => (false, 0)
    | some interval =>
      if interval ≤ 0 ∨ lastHighstate = "" then (false, 0)
      else match rt.parseRFC3339 lastHighstate with
        | none => (false, 0)
        | some last =>
          let elapsed := Go.since now last
          let effective := Go.wrap64 (interval + enforcementJitter rt uid interval)
          if elapsed ≥ effective then (true, 0)
          else (false, Go.wrap64 (effective - elapsed))

/-! ## Calls every step makes -/

/-- `patchAnnotations`; returns the object of the response. -/
def patchAnnotations (vm : VirtualMachine) (additions : List (String × String)) :
    M VirtualMachine := do
  match ← Prog.perform (Op.patchVM vm (vm.withAnnotations additions)) with
  | .error e => .fail e.text
  | .ok vm' => return vm'

/-- The finalizer patch of `reconcileCreate`, `runAcceptKey` and
`runPreseedKey`, skipped when the finalizer is there. -/
def ensureFinalizer (wrap : String → String) (vm : VirtualMachine) : M VirtualMachine := do
  if vm.containsFinalizer saltFinalizer then return vm
  else
    match ← Prog.perform (Op.patchVM vm (vm.addFinalizer saltFinalizer)) with
    | .error e => .fail (wrap e.text)
    | .ok vm' => return vm'

/-- `saltClientFromConfig`. A client is its connection, logged in. -/
def saltClientFromConfig (rt : Runtime) (d : Default) (cfg : SaltKeyConfig) : M Connection := do
  let key : NamespacedName := ⟨cfg.nspace, cfg.name⟩
  match ← Prog.perform (Op.cacheGet key cfg.resourceVersion) with
  | some conn => return conn
  | none =>
    match ← (resolve rt cfg d).attempt with
    | .error e => .fail e.text
    | .ok conn =>
      match ← salt conn .login with
      | .error e => .fail ("salt login for " ++ cfg.nspace ++ "/" ++ cfg.name ++ ": " ++ e)
      | .ok () =>
        Prog.perform (Op.cacheSet key cfg.resourceVersion conn)
        return conn

/-- `clearBootstrapKey`. -/
def clearBootstrapKey (vm : VirtualMachine) : M Unit := do
  let name := vm.name ++ bootstrapSecretSuffix
  match ← Prog.perform (Op.patchSecret ⟨vm.nspace, name⟩
      [("minion.pem", bootstrapKeyCleared), ("minion.pub", bootstrapKeyCleared)]) with
  | .ok () => return ()
  | .error (.notFound _) => return ()
  | .error e => .fail ("clear Secret " ++ vm.nspace ++ "/" ++ name ++ ": " ++ e.text)

/-- `clearPreseedKey`. -/
def clearPreseedKey (vm : VirtualMachine) (trigger : String) : M VirtualMachine := do
  if vm.annotationOf annotationMatchMethod ≠ matchMethodPreseed ∨
      vm.annotationOf annotationKeyCleared = annotationTrue then
    return vm
  else
    clearBootstrapKey vm
    let vm ← patchAnnotations vm [(annotationKeyCleared, annotationTrue)]
    let minionID := vm.annotationOf annotationMinionID
    logInfo "Cleared the private key from the bootstrap Secret"
      [("name", vm.name), ("minionID", minionID), ("trigger", trigger)]
    recordEvent vm .normal "SaltKeyCleared"
      ("Private key for minion " ++ Go.quote minionID ++ " removed from Secret " ++
        vm.name ++ bootstrapSecretSuffix ++ " after " ++ trigger)
    return vm

/-- `masterLastSeen`: an error reads as empty. -/
def masterLastSeen (conn : Connection) : M String := do
  match ← salt conn .masterLastSeen with
  | .error _ => return ""
  | .ok seen => return seen

/-- `masterSilence`: empty unless the master has said nothing for a while. -/
def masterSilence (conn : Connection) (before : String) (started : Time) : M String := do
  if before = "" then return ""
  else
    let now ← timeNow
    if Go.since now started < minMasterSilence then return ""
    else
      let seen ← masterLastSeen conn
      if seen ≠ before then return ""
      else return "the Salt master has not reported to RaaS since " ++ before ++
        ", it is down or cut off from RaaS"

end SaltOperator
