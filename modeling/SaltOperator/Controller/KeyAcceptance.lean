import SaltOperator.Controller.VirtualMachine
import SaltOperator.Salt.Matcher

/-!
# The VM reconciler: getting a key accepted (virtualmachine_controller.go:270–536)

Two ways to an accepted key. In discovery mode the operator waits until a
pending key matches the running VM and accepts it (`runAcceptKey`). In preseed
mode it has the master generate the key and leaves it in a Secret for the guest
(`runPreseedKey`), then waits for the VM to run (`markPreseedAccepted`).
-/

namespace SaltOperator

/-- `time.Now().UTC().Format(time.RFC3339)`. -/
def nowText (rt : Runtime) : M String := do
  return rt.formatRFC3339 (← timeNow)

/-- The branch of `runAcceptKey` for a matched pending key. -/
def acceptMatched (rt : Runtime) (vm : VirtualMachine) (conn : Connection) (found : MatchResult)
    (requeueAfter : Duration) : M Result := do
  logInfo "Matched pending Salt key"
    [("name", vm.name), ("minionID", found.minionID), ("matchMethod", found.method.text)]
  match ← salt conn (.acceptKey found.minionID) with
  | .error e =>
    .fail ("accept key " ++ Go.quote found.minionID ++ " for " ++ vm.name ++ ": " ++ e)
  | .ok () =>
    let acceptedAt ← nowText rt
    let vm ← patchAnnotations vm
      [(annotationKeyStatus, keyStatusAccepted),
       (annotationMinionID, found.minionID),
       (annotationMatchMethod, found.method.text),
       (annotationAcceptedAt, acceptedAt)]
    let vm ← ensureFinalizer id vm
    recordEvent vm .normal "SaltKeyAccepted"
      ("Salt key accepted for minion " ++ Go.quote found.minionID ++ " (match: " ++
        found.method.text ++ ")")
    return ⟨requeueAfter⟩

/-- The branch of `runAcceptKey` without a match. -/
def awaitPendingKey (rt : Runtime) (vm : VirtualMachine)
    (acceptTimeout requeueAfter : Duration) : M Result := do
  let now ← timeNow
  let elapsed := sinceVSphereCreate rt now vm
  if elapsed.all (· < acceptTimeout) then
    logInfo "No matching pending key yet, requeueing"
      [("name", vm.name), ("elapsed", rt.durationString (Go.round (elapsed.getD 0) Go.second)),
       ("timeout", rt.durationString acceptTimeout)]
    return ⟨requeueAfter⟩
  else if vm.annotationOf annotationKeyStatus = keyStatusFailed then return {}
  else
    logInfo "Accept timeout exceeded, marking as Failed"
      [("name", vm.name), ("elapsed", rt.durationString (Go.round (elapsed.getD 0) Go.second))]
    let vm ← patchAnnotations vm [(annotationKeyStatus, keyStatusFailed)]
    recordEvent vm .warning "SaltKeyTimeout"
      ("No pending Salt key found for " ++ Go.quote vm.name ++ " after " ++
        rt.durationString acceptTimeout)
    return {}

/-- `runAcceptKey`. -/
def runAcceptKey (rt : Runtime) (vm : VirtualMachine) (conn : Connection)
    (acceptTimeout requeueAfter : Duration) : M Result := do
  match ← salt conn .listPendingKeys with
  | .error e => .fail ("list pending keys for " ++ vm.name ++ ": " ++ e)
  | .ok pendingKeys =>
    let found := findMinionID rt vm.name vm.primaryIP pendingKeys
    if found.method ≠ .none then acceptMatched rt vm conn found requeueAfter
    else awaitPendingKey rt vm acceptTimeout requeueAfter

/-- The VM `minionIDOwner` finds in the list of all VMs: another one that
records the minion ID. -/
def ownerIn (vm : VirtualMachine) (minionID : String) (list : List VirtualMachine) :
    Option VirtualMachine :=
  list.find? fun other => other.uid ≠ vm.uid && other.annotationOf annotationMinionID = minionID

/-- `minionIDOwner`. -/
def minionIDOwner (vm : VirtualMachine) (minionID : String) : M (Option VirtualMachine) := do
  match ← Prog.perform (Op.listVMs none) with
  | .error e => .fail ("list VirtualMachines: " ++ e.text)
  | .ok list => return ownerIn vm minionID list

/-- The Secret `writeBootstrapSecret` writes. -/
def bootstrapSecret (vm : VirtualMachine) (minionID : String) (pair : KeyPair)
    (masterPub : String) : Secret :=
  { name := vm.name ++ bootstrapSecretSuffix
    nspace := vm.nspace
    labels := [(labelManagedBy, managedByOperator)]
    ownerReferences := [⟨virtualMachineAPIVersion, virtualMachineKind, vm.name, vm.uid⟩]
    data :=
      [("minion.pem", pair.priv), ("minion.pub", pair.pub), ("minion_master.pub", masterPub),
       ("minion_id", minionID)] }

/-- `writeBootstrapSecret`. -/
def writeBootstrapSecret (vm : VirtualMachine) (minionID : String) (pair : KeyPair)
    (masterPub : String) : M Unit := do
  let secret := bootstrapSecret vm minionID pair masterPub
  let wrap (e : ApiErr) : String :=
    "write Secret " ++ secret.nspace ++ "/" ++ secret.name ++ ": " ++ e.text
  match ← Prog.perform (Op.createSecret secret) with
  | .ok () => return ()
  | .error (.alreadyExists _) =>
    match ← Prog.perform (Op.updateSecret secret) with
    | .ok () => return ()
    | .error e => .fail (wrap e)
  | .error e => .fail (wrap e)

/-- The rest of `runPreseedKey` once a pair is generated: hand it to the guest
and record it. -/
def deliverPreseedKey (vm : VirtualMachine) (conn : Connection) (minionID : String)
    (force : Bool) (pair : KeyPair) (requeueAfter : Duration) : M Result := do
  match ← salt conn .masterPublicKey with
  | .error e => .fail ("master public key for " ++ minionID ++ ": " ++ e)
  | .ok masterPub =>
    writeBootstrapSecret vm minionID pair masterPub
    let vm ← ensureFinalizer id vm
    let vm ← patchAnnotations vm
      [(annotationKeyStatus, keyStatusPreseeded),
       (annotationMinionID, minionID),
       (annotationMatchMethod, matchMethodPreseed)]
    logInfo "Preseeded Salt key"
      [("name", vm.name), ("minionID", minionID), ("forced", toString force)]
    recordEvent vm .normal "SaltKeyPreseeded"
      ("Salt key generated and accepted for minion " ++ Go.quote minionID ++
        ", written to Secret " ++ vm.name ++ bootstrapSecretSuffix)
    return ⟨requeueAfter⟩

/-- The warning of `runPreseedKey` about a key somebody else put there. -/
def warnForeignKey (vm : VirtualMachine) (minionID : String) (states : List String) : M Unit :=
  if states.contains "pending" || states.contains "rejected" then
    recordEvent vm .warning "SaltForeignKeyReplaced"
      ("Key for minion " ++ Go.quote minionID ++ " in state " ++ Go.join "," states ++
        " was not generated by the operator and is replaced")
  else pure ()

/-- The part of `runPreseedKey` from the key's state on the master on. -/
def generatePreseedKey (vm : VirtualMachine) (conn : Connection) (minionID : String)
    (requeueAfter : Duration) : M Result := do
  match ← salt conn (.keyStates minionID) with
  | .error e => .fail ("key state for " ++ minionID ++ ": " ++ e)
  | .ok states =>
    let force := states.any (· ≠ "denied")
    warnForeignKey vm minionID states
    match ← salt conn (.genAcceptKey minionID force) with
    | .error e => .fail ("generate key for " ++ minionID ++ ": " ++ e)
    | .ok none => .fail ("generate key for " ++ minionID ++
        ": a key appeared on the master after the state check")
    | .ok (some pair) => deliverPreseedKey vm conn minionID force pair requeueAfter

/-- `runPreseedKey`. -/
def runPreseedKey (vm : VirtualMachine) (conn : Connection) (requeueAfter : Duration) :
    M Result := do
  let minionID := vm.name
  match ← minionIDOwner vm minionID with
  | none => generatePreseedKey vm conn minionID requeueAfter
  | some owner =>
    let ownerName := owner.nspace ++ "/" ++ owner.name
    if owner.deleting then
      logInfo "Minion ID still held by a VM being deleted, requeueing"
        [("name", vm.name), ("minionID", minionID), ("owner", ownerName)]
      return ⟨requeueAfter⟩
    else
      let vm ← patchAnnotations vm [(annotationKeyStatus, keyStatusFailed)]
      recordEvent vm .warning "SaltMinionIDInUse"
        ("Minion ID " ++ Go.quote minionID ++ " belongs to VirtualMachine " ++ ownerName ++
          ", no key generated")
      return {}

/-- `markPreseedAccepted`. -/
def markPreseedAccepted (rt : Runtime) (vm : VirtualMachine) (requeueAfter : Duration) :
    M Result := do
  let minionID := vm.annotationOf annotationMinionID
  let acceptedAt ← nowText rt
  let vm ← patchAnnotations vm
    [(annotationKeyStatus, keyStatusAccepted), (annotationAcceptedAt, acceptedAt)]
  recordEvent vm .normal "SaltKeyAccepted"
    ("VM running with the preseeded key for minion " ++ Go.quote minionID)
  return ⟨requeueAfter⟩

/-- `get salt client for ..` around the error of `saltClientFromConfig`. -/
def saltClientFor (rt : Runtime) (d : Default) (vm : VirtualMachine) (cfg : SaltKeyConfig) :
    M Connection := do
  match ← (saltClientFromConfig rt d cfg).attempt with
  | .error e => .fail ("get salt client for " ++ vm.name ++ ": " ++ e)
  | .ok conn => return conn

/-- The block of `reconcileCreate` for a VM whose key is not accepted. -/
def reconcileKey (rt : Runtime) (d : Default) (vm : VirtualMachine) (cfg : SaltKeyConfig)
    (acceptTimeout requeueAfter : Duration) (timedOut : Bool) : M Result := do
  let preseeded := vm.annotationOf annotationKeyStatus = keyStatusPreseeded
  if vm.annotationOf annotationKeyStatus = keyStatusFailed ∧
      vm.annotationOf annotationMatchMethod = matchMethodPreseed then
    return {}
  else if cfg.spec.keyAcceptance = keyAcceptancePreseed ∧ ¬ preseeded then
    let conn ← saltClientFor rt d vm cfg
    runPreseedKey vm conn requeueAfter
  else
    let waiting := !vm.running || vm.primaryIP = ""
    if waiting ∧ preseeded ∧ timedOut then
      let vm ← patchAnnotations vm [(annotationKeyStatus, keyStatusFailed)]
      recordEvent vm .warning "SaltKeyTimeout"
        ("VM not running with an IP " ++ rt.durationString acceptTimeout ++
          " after creation in vSphere, recreate it for a new key")
      return {}
    else if waiting then
      logInfo "Waiting for VM to be running with an IP"
        [("name", vm.name), ("phase", vm.status.nestedString ["phase"]),
         ("powerState", vm.status.nestedString ["powerState"]), ("primaryIP", vm.primaryIP)]
      return ⟨requeueAfter⟩
    else if preseeded then markPreseedAccepted rt vm requeueAfter
    else
      let conn ← saltClientFor rt d vm cfg
      runAcceptKey rt vm conn acceptTimeout requeueAfter

end SaltOperator
