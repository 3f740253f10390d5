import SaltOperator.Cluster.World

/-!
# What a worker may do

The contract of a worker as a predicate of the calls it has made so far, newest
first. It is a table of the places in virtualmachine_controller.go where the
operator writes to a VM, with what is known there:

- `Write`: the annotation patches, one constructor a place;
- `FinalizerWrite`: the finalizer patches;
- `Start`: the log lines with which a chain begins again, and their causes;
- `Permitted`: the operations a worker may perform after the calls `h`;
- `Ends`: how a pass may end.

`Promised` is what the worker takes for granted about the answers. That every
pass keeps the contract is shown in `Cluster/Passes.lean`, that the promises hold
in the cluster in `Cluster/Sound.lean`.
-/

namespace SaltOperator

/-- A call the operator made. -/
abbrev Made := Call Op Op.Ans World

/-- The calls of a worker, newest first. -/
abbrev History := List Made

/-- Calls other than patches leave the VMs alone. -/
theorem effect_vms {w : World} {o : Op} {a : o.Ans}
    (h : ∀ base obj vm, (⟨w, o, a⟩ : Made) ≠ ⟨w, .patchVM base obj, .ok vm⟩) :
    (effect w o a).vms = w.vms := by
  cases o with
  | patchVM base obj =>
    cases a with
    | error e => rfl
    | ok vm => exact absurd rfl (h base obj vm)
  | createSecret s => cases a <;> rfl
  | updateSecret s => cases a <;> rfl
  | patchSecret k data => cases a <;> rfl
  | cacheGet k rv => cases a <;> rfl
  | salt conn c =>
    obtain ⟨raas, heff⟩ := effect_salt w conn c a
    rw [heff]
  | _ => rfl

/-! ## What the calls tell -/

/-- The VM object a call handed to the operator. -/
def Made.vm? : Made → Option VirtualMachine
  | ⟨_, .getVM _, .ok vm⟩ => some vm
  | ⟨_, .patchVM _ _, .ok vm⟩ => some vm
  | _ => none

/-- The log lines with which a chain begins again. -/
def isStart (message : String) : Bool :=
  message = logRestart || message = logReset || message = logDay2

/-- Calls that tell nothing about the state of a pass. -/
def Op.quiet : Op → Bool
  | .getVM _ => false
  | .listVMs _ => false
  | .patchVM _ _ => false
  | .listConfigs _ => false
  | .createSecret _ => false
  | .updateSecret _ => false
  | .patchSecret _ _ => false
  | .log _ message _ => !isStart message && message ≠ logEnforcement
  | .salt _ (.acceptKey _) => false
  | .salt _ (.deleteKey _) => false
  | .salt _ (.refreshPillar _) => false
  | .salt _ (.dispatchHighstate _) => false
  | .salt _ (.genAcceptKey _ _) => false
  | _ => true

/-- A key that was accepted or generated for a VM; `pair` is there if it was
generated. -/
structure OwnKey where
  conn : Connection
  minionID : String
  pair : Option KeyPair
  deriving DecidableEq

namespace History

/-- The object the worker holds: the last one the API server sent. -/
def lastVM : History → Option VirtualMachine := List.findSome? Made.vm?

/-- All objects the API server sent. -/
def served : History → List VirtualMachine := List.filterMap Made.vm?

/-- The object the worker holds and the one it held before. -/
def lastTwo (h : History) : List VirtualMachine := h.served.take 2

/-- The VM and the config the pass in progress works on. A new pass begins by
reading the VM; a pass that deletes reads it a second time. -/
def passInputs : History → Option (VirtualMachine × SaltKeyConfig)
  | [] => none
  | ⟨_, .listConfigs _, .ok configs⟩ :: h =>
    match lastVM h, selectConfig configs with
    | some vm, some cfg => some (vm, cfg)
    | _, _ => none
  | ⟨_, .getVM _, _⟩ :: h => (passInputs h).filter fun i => i.1.deleting
  | _ :: h => passInputs h

/-- The pass in progress works under `cfg` on a VM that was not being deleted. -/
def Creates (h : History) (cfg : SaltKeyConfig) : Prop :=
  ∃ vm, h.passInputs = some (vm, cfg) ∧ vm.deleting = false

/-- The pass in progress has looked for another VM that records the minion ID of
`vm`, and found none. -/
def CheckedFree (vm : VirtualMachine) : History → Prop
  | [] => False
  | ⟨_, .listVMs none, .ok list⟩ :: _ => ownerIn vm vm.name list = none
  | ⟨_, .getVM _, _⟩ :: _ => False
  | _ :: h => CheckedFree vm h

/-- The key the worker last accepted or had generated, unless a later call may
have done something to it. -/
def ownKey : History → Option OwnKey
  | [] => none
  | ⟨_, .salt conn (.acceptKey minionID), .ok ()⟩ :: _ => some ⟨conn, minionID, none⟩
  | ⟨_, .salt conn (.genAcceptKey minionID _), .ok (some pair)⟩ :: _ =>
    some ⟨conn, minionID, some pair⟩
  | ⟨_, .salt _ (.acceptKey _), _⟩ :: _ => none
  | ⟨_, .salt _ (.genAcceptKey _ _), _⟩ :: _ => none
  | ⟨_, .salt _ (.deleteKey _), _⟩ :: _ => none
  | _ :: h => ownKey h

/-- The Secret the worker has written, as its calls left it. -/
def stored : History → Option Secret
  | [] => none
  | ⟨_, .createSecret s, .ok ()⟩ :: _ => some s
  | ⟨_, .updateSecret s, .ok ()⟩ :: _ => some s
  | ⟨_, .patchSecret _ data, .ok ()⟩ :: h => (stored h).map (·.patched data)
  | _ :: h => stored h

/-- The last call replaced these entries of a Secret, or found that it is gone. -/
def JustPatched (key : NamespacedName) (data : List (String × String)) : History → Prop
  | ⟨_, .patchSecret key' data', .ok ()⟩ :: _ => key' = key ∧ data' = data
  | ⟨_, .patchSecret key' data', .error (.notFound _)⟩ :: _ => key' = key ∧ data' = data
  | _ => False

/-- Whether the last call was the log line of a due enforcement. -/
def dueJust : History → Bool
  | ⟨_, .log _ message _, _⟩ :: _ => message = logEnforcement
  | _ => false

/-- A chain start that no patch has followed yet, and whether it is a scheduled
one. -/
def startPending : History → Option Bool
  | [] => none
  | ⟨_, .log _ message _, _⟩ :: h => if isStart message then some (dueJust h) else startPending h
  | ⟨_, .patchVM _ _, _⟩ :: _ => none
  | ⟨_, .getVM _, _⟩ :: _ => none
  | _ :: h => startPending h

/-- The world in which the last successful `RefreshPillar` was started. -/
def lastRefresh : History → Option World
  | [] => none
  | ⟨w, .salt _ (.refreshPillar _), .ok true⟩ :: _ => some w
  | _ :: h => lastRefresh h

/-- A refresh of the pillar has succeeded in this pass, and no patch has followed
it. -/
def refreshPending : History → Bool
  | [] => false
  | ⟨_, .salt _ (.refreshPillar _), .ok true⟩ :: _ => true
  | ⟨_, .getVM _, _⟩ :: _ => false
  | ⟨_, .patchVM _ _, _⟩ :: _ => false
  | _ :: h => refreshPending h

/-- The number of times the chain was started again. -/
def starts : History → Nat
  | [] => 0
  | ⟨_, .log _ message _, _⟩ :: h => (if isStart message then 1 else 0) + starts h
  | _ :: h => starts h

/-- The number of due enforcements. -/
def dues : History → Nat
  | [] => 0
  | ⟨_, .log _ message _, _⟩ :: h => (if message = logEnforcement then 1 else 0) + dues h
  | _ :: h => dues h

/-- `PollJID` reported the job done, with success and retcode 0. -/
def ReportedOK (h : History) (jid : String) : Prop :=
  ∃ w conn minionID r, (⟨w, .salt conn (.pollJID minionID jid), .ok (some r)⟩ : Made) ∈ h ∧
    r.success = true ∧ r.retcode = 0

end History

/-! ## The places where the operator writes -/

namespace VirtualMachine

variable (m : VirtualMachine)

/-- The key is accepted and the minion known, and the chain stands at `s`. -/
def InChain (s : String) : Prop :=
  m.annotationOf annotationKeyStatus = keyStatusAccepted ∧ m.annotationOf annotationMinionID ≠ "" ∧
    m.annotationOf annotationSaltStatus = s

/-- The key is accepted and the minion known, and the chain is not under way. -/
def AtRest : Prop :=
  m.annotationOf annotationKeyStatus = keyStatusAccepted ∧ m.annotationOf annotationMinionID ≠ "" ∧
    m.annotationOf annotationSaltStatus ∉
      ["", saltStatusPinged, saltStatusPillarRefreshed, saltStatusHighstateDispatched]

/-- The key is neither accepted nor handed to the guest, nor was it handed to a
guest that made nothing of it. -/
def NoKey : Prop :=
  m.annotationOf annotationKeyStatus ≠ keyStatusAccepted ∧
    m.annotationOf annotationKeyStatus ≠ keyStatusPreseeded ∧
    ¬ (m.annotationOf annotationKeyStatus = keyStatusFailed ∧
      m.annotationOf annotationMatchMethod = matchMethodPreseed)

/-- The name of the Secret a preseeded key is left in. -/
def bootstrapKey : NamespacedName := m.key.bootstrap

end VirtualMachine

/-- What `clearBootstrapKey` leaves of a key. -/
def clearedEntries : List (String × String) :=
  [("minion.pem", bootstrapKeyCleared), ("minion.pub", bootstrapKeyCleared)]

/-- What holds once a pass has found that no other VM has the minion ID of `m`. -/
structure Preseeds (h : History) (m : VirtualMachine) : Prop where
  noKey : m.NoKey
  free : h.CheckedFree m
  mode : ∃ cfg, h.Creates cfg ∧ cfg.spec.keyAcceptance = keyAcceptancePreseed

/-- What holds while a pass looks for a pending key for `m`. -/
structure Discovers (h : History) (m : VirtualMachine) : Prop where
  noKey : m.NoKey
  mode : ∃ cfg, h.Creates cfg ∧ cfg.spec.keyAcceptance ≠ keyAcceptancePreseed

/-- The pair that was generated for `m` last is the one in its Secret. -/
def Delivered (h : History) (m : VirtualMachine) : Prop :=
  ∃ conn pair masterPub, h.ownKey = some ⟨conn, m.name, some pair⟩ ∧
    h.stored = some (bootstrapSecret m m.name pair masterPub)

/-- Of the four causes of a chain start, those that the start consumes. -/
def Cause (rt : Runtime) (m : VirtualMachine) (cfg : SaltKeyConfig) : Prop :=
  (m.annotationOf annotationRolesHash ≠ "" ∧ intentChanged rt m = true) ∨ retryRequested m = true ∨
    (bulkChanged m cfg = true ∧ m.chainFailed = true)

/-- The object `seen` that the decision to start was made on is the one the
worker holds, or the one it held before it noted a bulk token that started
nothing. -/
def Snapshot (rt : Runtime) (cfg : SaltKeyConfig) (seen m : VirtualMachine) : Prop :=
  m = seen ∨ (¬ Cause rt seen cfg ∧ bulkChanged seen cfg = true ∧ m.uid = seen.uid ∧
    ∀ a ∈ ownAnnotations, m.annotations[a]? = (seen.withAnnotations
      [(annotationBulkRetryHandled, cfg.spec.retryToken)]).annotations[a]?)

/-- What holds at the patches of `runDay2`: `seen` is what the markers are
computed from. -/
structure Day2 (rt : Runtime) (h : History) (seen m : VirtualMachine) (cfg : SaltKeyConfig) :
    Prop where
  rest : seen.AtRest
  healthy : seen.chainFailed = false
  hash : seen.annotationOf annotationRolesHash ≠ ""
  snapshot : Snapshot rt cfg seen m
  held : seen ∈ h.lastTwo
  inputs : ∃ vm, h.passInputs = some (vm, cfg)
  start : ∃ due, h.startPending = some due ∧ (due = false → Cause rt seen cfg)

/-- The markers of `checkReconvergence`. -/
def day2Markers (rt : Runtime) (seen : VirtualMachine) (cfg : SaltKeyConfig) :
    List (String × String) :=
  (annotationRolesHash, computeIntentHash rt seen.annotations) :: handledMarkers seen cfg

/-- The annotation patches of a worker that made the calls `h` and holds the
object `m`. -/
inductive Write (rt : Runtime) (h : History) (m : VirtualMachine) :
    List (String × String) → Prop where
  /-- `clearPreseedKey` -/
  | keyCleared : m.annotationOf annotationMatchMethod = matchMethodPreseed →
      h.JustPatched m.bootstrapKey clearedEntries →
      Write rt h m [(annotationKeyCleared, annotationTrue)]
  /-- `reconcileCreate`, `runAcceptKey` and `runPreseedKey` -/
  | keyFailed (cfg : SaltKeyConfig) : m.annotationOf annotationKeyStatus ≠ keyStatusAccepted →
      h.Creates cfg →
      Write rt h m [(annotationKeyStatus, keyStatusFailed)]
  /-- `runAcceptKey` -/
  | keyAccepted (conn : Connection) (minionID method acceptedAt : String) : Discovers h m →
      minionID ≠ "" → method ≠ "" → method ≠ matchMethodPreseed →
      h.ownKey = some ⟨conn, minionID, none⟩ →
      Write rt h m
        [(annotationKeyStatus, keyStatusAccepted), (annotationMinionID, minionID),
         (annotationMatchMethod, method), (annotationAcceptedAt, acceptedAt)]
  /-- `runPreseedKey` -/
  | keyPreseeded : Preseeds h m → Delivered h m →
      Write rt h m
        [(annotationKeyStatus, keyStatusPreseeded), (annotationMinionID, m.name),
         (annotationMatchMethod, matchMethodPreseed)]
  /-- `markPreseedAccepted` -/
  | preseedAccepted (acceptedAt : String) :
      m.annotationOf annotationKeyStatus = keyStatusPreseeded →
      Write rt h m
        [(annotationKeyStatus, keyStatusAccepted), (annotationAcceptedAt, acceptedAt)]
  /-- `runPing`, failed -/
  | pingFailed : m.InChain "" →
      Write rt h m
        [(annotationSaltStatus, saltStatusFailedPing), (annotationReady, annotationFalse)]
  /-- `runPing` -/
  | pinged : m.InChain "" → Write rt h m [(annotationSaltStatus, saltStatusPinged)]
  /-- `runRefreshPillar`, failed -/
  | refreshFailed : m.InChain saltStatusPinged →
      Write rt h m
        [(annotationSaltStatus, saltStatusFailedPillarRefresh), (annotationReady, annotationFalse)]
  /-- `runRefreshPillar` -/
  | refreshed : m.InChain saltStatusPinged → h.refreshPending = true →
      Write rt h m [(annotationSaltStatus, saltStatusPillarRefreshed)]
  /-- `runDispatchHighstate`, failed -/
  | dispatchFailed : m.InChain saltStatusPillarRefreshed →
      Write rt h m
        [(annotationSaltStatus, saltStatusFailedHighstateDispatch),
         (annotationReady, annotationFalse)]
  /-- `runDispatchHighstate` -/
  | dispatched (jid : String) : m.InChain saltStatusPillarRefreshed → jid ≠ "" →
      (∃ w conn minionID h', h = ⟨w, .salt conn (.dispatchHighstate minionID), .ok jid⟩ :: h') →
      Write rt h m
        [(annotationSaltStatus, saltStatusHighstateDispatched), (annotationHighstateJID, jid),
         (annotationHighstateStatus, highstateInProgress), (annotationReady, annotationFalse),
         (annotationRolesHash, computeIntentHash rt m.annotations)]
  /-- `runPollHighstate`, the job succeeded -/
  | highstateReady (time : String) : m.InChain saltStatusHighstateDispatched →
      h.ReportedOK (m.annotationOf annotationHighstateJID) →
      Write rt h m
        [(annotationSaltStatus, saltStatusReady), (annotationReady, annotationTrue),
         (annotationHighstateStatus, highstateSuccess), (annotationHighstateTime, time),
         (annotationHighstateFailedCount, "0"), (annotationHighstateFailedStates, "")]
  /-- `runPollHighstate`, the job failed -/
  | highstateFailed (time count states : String) : m.InChain saltStatusHighstateDispatched →
      Write rt h m
        [(annotationSaltStatus, saltStatusFailedHighstate), (annotationReady, annotationFalse),
         (annotationHighstateStatus, highstateFailed), (annotationHighstateTime, time),
         (annotationHighstateFailedCount, count), (annotationHighstateFailedStates, states)]
  /-- `checkReconvergence`, a bulk token that starts nothing -/
  | bulkNoted (vm : VirtualMachine) (cfg : SaltKeyConfig) : m.AtRest →
      h.passInputs = some (vm, cfg) → bulkChanged m cfg = true → h.startPending = none →
      Write rt h m [(annotationBulkRetryHandled, cfg.spec.retryToken)]
  /-- `checkReconvergence`, the reset of a failed chain -/
  | reset (vm : VirtualMachine) (cfg : SaltKeyConfig) : m.AtRest → m.chainFailed = true →
      m.annotationOf annotationRolesHash ≠ "" → h.passInputs = some (vm, cfg) →
      h.startPending.isSome = true → Cause rt m cfg →
      Write rt h m
        ([(annotationSaltStatus, ""), (annotationReady, annotationFalse),
          (annotationHighstateStatus, ""),
          (annotationRolesHash, computeIntentHash rt m.annotations)] ++ handledMarkers m cfg)
  /-- `restartFirstChain` -/
  | restart (vm : VirtualMachine) (cfg : SaltKeyConfig) : m.AtRest → m.chainFailed = true →
      m.annotationOf annotationRolesHash = "" → h.passInputs = some (vm, cfg) →
      h.startPending.isSome = true → Cause rt m cfg →
      Write rt h m
        ([(annotationSaltStatus, ""), (annotationReady, annotationFalse)] ++ handledMarkers m cfg)
  /-- `runDay2`, the refresh failed -/
  | day2RefreshFailed (seen : VirtualMachine) (cfg : SaltKeyConfig) : Day2 rt h seen m cfg →
      Write rt h m (withMarkers (day2Markers rt seen cfg)
        [(annotationSaltStatus, saltStatusFailedPillarRefresh),
         (annotationReady, annotationFalse)])
  /-- `runDay2`, the dispatch failed -/
  | day2DispatchFailed (seen : VirtualMachine) (cfg : SaltKeyConfig) : Day2 rt h seen m cfg →
      Write rt h m (withMarkers (day2Markers rt seen cfg)
        [(annotationSaltStatus, saltStatusFailedHighstateDispatch),
         (annotationReady, annotationFalse)])
  /-- `runDay2` -/
  | day2Dispatched (seen : VirtualMachine) (cfg : SaltKeyConfig) (jid : String) :
      Day2 rt h seen m cfg → jid ≠ "" →
      (∃ w conn minionID w' conn' h',
        h = ⟨w, .salt conn (.dispatchHighstate minionID), .ok jid⟩ ::
          ⟨w', .salt conn' (.refreshPillar minionID), .ok true⟩ :: h' ∧ seen ∈ History.served h') →
      Write rt h m (withMarkers (day2Markers rt seen cfg)
        [(annotationSaltStatus, saltStatusHighstateDispatched), (annotationHighstateJID, jid),
         (annotationHighstateStatus, highstateInProgress), (annotationReady, annotationFalse)])
  /-- `adoptLegacyIntentHash` -/
  | hashAdopted : m.AtRest → m.annotationOf annotationRolesHash ≠ "" →
      Go.hasPrefix (m.annotationOf annotationRolesHash) intentHashVersion = false →
      Write rt h m [(annotationRolesHash, computeIntentHash rt m.annotations)]
  /-- `reconcileDelete` -/
  | keyDeleted (vm : VirtualMachine) (cfg : SaltKeyConfig) (status : String) :
      m.annotationOf annotationMinionID ≠ "" →
      status = keyStatusDeleted ∨ status = keyStatusDeleteFailed →
      h.passInputs = some (vm, cfg) → vm.deleting = true →
      Write rt h m [(annotationKeyStatus, status)]

/-- What a chain start writes apart from the markers of retries: the hash of the
intent it was decided on, if there was one before. `seen` is the object it was
decided on. -/
structure StartPatch (rt : Runtime) (h : History) (m seen : VirtualMachine) (cfg : SaltKeyConfig)
    (patch : List (String × String)) : Prop where
  snapshot : Snapshot rt cfg seen m
  held : seen ∈ h.lastTwo
  inputs : ∃ vm, h.passInputs = some (vm, cfg)
  cause : h.startPending = some false → Cause rt seen cfg
  hash : patch.reverse.lookup annotationRolesHash =
    if seen.annotationOf annotationRolesHash = "" then none
    else some (computeIntentHash rt seen.annotations)
  retry : patch.reverse.lookup annotationRetryHandled = none
  bulk : patch.reverse.lookup annotationBulkRetryHandled = none

/-- A patch that notes what a chain start was for. -/
def Consumes (rt : Runtime) (h : History) (m : VirtualMachine)
    (additions : List (String × String)) : Prop :=
  ∃ seen cfg patch, StartPatch rt h m seen cfg patch ∧ additions = patch ++ handledMarkers seen cfg

/-- The finalizer patches of a worker that holds `m`. -/
inductive FinalizerWrite (h : History) (m : VirtualMachine) : VirtualMachine → Prop where
  /-- `runAcceptKey` and `reconcileCreate` -/
  | accepted : m.containsFinalizer saltFinalizer = false →
      m.annotationOf annotationKeyStatus = keyStatusAccepted →
      FinalizerWrite h m (m.addFinalizer saltFinalizer)
  /-- `runPreseedKey` -/
  | preseed : m.containsFinalizer saltFinalizer = false → Preseeds h m →
      FinalizerWrite h m (m.addFinalizer saltFinalizer)
  /-- `removeSaltFinalizer` -/
  | removed : m.containsFinalizer saltFinalizer = true →
      FinalizerWrite h m (m.removeFinalizer saltFinalizer)

/-- A scheduled start: the line before says so, and the schedule did. -/
def Due (rt : Runtime) (h : History) (seen : VirtualMachine) (cfg : SaltKeyConfig) : Prop :=
  seen.annotationOf annotationSaltStatus = saltStatusReady ∧
  ∃ w fields w' now h', h = ⟨w, .log none logEnforcement fields, ()⟩ :: ⟨w', .now, now⟩ :: h' ∧
    (enforcementDue rt cfg seen.uid (seen.annotationOf annotationHighstateTime) now).1 = true

/-- The lines that say a chain begins again. -/
inductive Start (rt : Runtime) (h : History) : String → Prop where
  | restart (vm m : VirtualMachine) (cfg : SaltKeyConfig) : h.lastVM = some m →
      h.passInputs = some (vm, cfg) → Cause rt m cfg → Start rt h logRestart
  | reset (vm m : VirtualMachine) (cfg : SaltKeyConfig) : h.lastVM = some m →
      h.passInputs = some (vm, cfg) → Cause rt m cfg → Start rt h logReset
  | day2 (vm seen m : VirtualMachine) (cfg : SaltKeyConfig) : h.lastVM = some m →
      Snapshot rt cfg seen m → seen ∈ h.lastTwo → h.passInputs = some (vm, cfg) →
      Cause rt seen cfg ∨ Due rt h seen cfg → Start rt h logDay2

/-! ## The contract -/

/-- The Secret that hands a guest the pair generated for it. -/
def StoresKey (h : History) (s : Secret) : Prop :=
  ∃ m conn pair masterPub, h.lastVM = some m ∧ Preseeds h m ∧
    h.ownKey = some ⟨conn, m.name, some pair⟩ ∧ s = bootstrapSecret m m.name pair masterPub

/-- The operations the worker of `k` may perform after the calls `h`. A worker that
has announced a chain start writes what it was for before it writes anything else
and, unless the operator may stop at any point, before its next pass. -/
def Permitted (rt : Runtime) (crash : Prop) (k : NamespacedName) (h : History) : Op → Prop
  | .getVM key => key = k ∧ (crash ∨ h.startPending = none)
  | .patchVM base obj => h.lastVM = some base ∧
      ((∃ additions, obj = base.withAnnotations additions ∧ Write rt h base additions) ∨
        FinalizerWrite h base obj) ∧
      (h.startPending = none ∨
        ∃ additions, obj = base.withAnnotations additions ∧ Consumes rt h base additions)
  | .log _ message _ => isStart message = true → h.startPending = none ∧ Start rt h message
  | .salt _ (.genAcceptKey minionID _) =>
      ∃ m, h.lastVM = some m ∧ minionID = m.name ∧ Preseeds h m
  | .salt _ (.acceptKey _) => ∃ m, h.lastVM = some m ∧ Discovers h m
  | .salt _ (.deleteKey minionID) => ∃ m vm cfg, h.lastVM = some m ∧
      minionID = m.annotationOf annotationMinionID ∧ minionID ≠ "" ∧
      h.passInputs = some (vm, cfg) ∧ vm.deleting = true
  | .createSecret s => StoresKey h s
  | .updateSecret s => StoresKey h s
  | .patchSecret key data => ∃ m, h.lastVM = some m ∧
      m.annotationOf annotationMatchMethod = matchMethodPreseed ∧ key = m.bootstrapKey ∧
      data = clearedEntries
  | _ => True

/-- What the worker takes for granted about an answer. -/
def Promised (rt : Runtime) : Made → Prop
  | ⟨_, .getVM key, .ok vm⟩ => vm.key = key
  | ⟨_, .patchVM base obj, .ok vm⟩ => vm.key = base.key ∧ vm.uid = base.uid ∧
      ∀ a ∈ ownAnnotations, vm.annotations[a]? = obj.annotations[a]?
  | ⟨_, .salt _ c, a⟩ => c.Returns rt a
  | _ => True

/-- States from which the chain has to be taken further: the VM waits for an
address or a key, or its chain is under way. -/
def VirtualMachine.NonTerminal (m : VirtualMachine) : Prop :=
  m.annotationOf annotationKeyStatus = "" ∨
  m.annotationOf annotationKeyStatus = keyStatusPreseeded ∨
  (m.annotationOf annotationKeyStatus = keyStatusAccepted ∧ m.annotationOf annotationSaltStatus ∈
    ["", saltStatusPinged, saltStatusPillarRefreshed, saltStatusHighstateDispatched])

/-- The requeue of a pass under `cfg` that leaves the worker with `m`. -/
def Requeues (cfg : SaltKeyConfig) (m : VirtualMachine) (res : Result) : Prop :=
  m.NonTerminal →
    (m.annotationOf annotationKeyStatus = keyStatusAccepted ∧
      m.annotationOf annotationMinionID = "") ∨
    0 < res.requeueAfter ∨ res.requeueAfter = cfg.requeueAfter

/-- How a pass may end. -/
def Ends (rt : Runtime) (crash : Prop) (h : History) (r : Except String Result) : Prop :=
  (crash ∨ h.startPending = none) ∧
  ∀ res, r = .ok res → ∀ vm cfg, h.passInputs = some (vm, cfg) → vm.deleting = false →
    matchesVMSelector rt cfg vm = true → ∃ m, h.lastVM = some m ∧ Requeues cfg m res

end SaltOperator
