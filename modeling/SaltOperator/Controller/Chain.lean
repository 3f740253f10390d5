import SaltOperator.Controller.KeyAcceptance

/-!
# The VM reconciler: the chain after acceptance (virtualmachine_controller.go:538–1138)

`salt-status` is the program counter of the chain: empty, `Pinged`,
`PillarRefreshed`, `HighstateDispatched`, then `Ready` or `Failed/<step>`, one
step a reconcile (`reconcilePostAccept`). From `Ready` and `Failed/<step>`
`checkReconvergence` starts the chain again when it has a cause to: a reset to
the beginning from a failure, refresh and highstate in one go (`runDay2`) from
`Ready`.
-/

namespace SaltOperator

/-! ## The steps -/

/-- The message and the event reasons of a failed ping or refresh, `silent`
being what `masterSilence` returned. -/
def stepFailure (silent msg retryReason failReason : String) : String × String × String :=
  if silent ≠ "" then (silent ++ ", " ++ msg, eventMasterSilent, eventMasterSilent)
  else (msg, retryReason, failReason)

/-- Whether a failed first step is still retried: less than
`maxBootstrapDuration` since the key was accepted. -/
def bootstrapping (rt : Runtime) (now : Time) (vm : VirtualMachine) : Bool :=
  (rt.parseRFC3339 (vm.annotationOf annotationAcceptedAt)).any fun acceptedAt =>
    Go.since now acceptedAt < maxBootstrapDuration

/-- The outcome of a call that answers with a boolean, as a failure text. -/
def outcomeText (call : String) : Except String Bool → String
  | .error e => call ++ ": " ++ e
  | .ok _ => call ++ " returned false"

def outcomeError : Except String Bool → Option String
  | .error e => some e
  | .ok _ => none

/-- The failure branch of `runPing`. -/
def pingFailed (rt : Runtime) (vm : VirtualMachine) (conn : Connection)
    (minionID masterBefore : String) (started : Time) (outcome : Except String Bool) :
    M Result := do
  let silent ← masterSilence conn masterBefore started
  let (msg, retryReason, failReason) :=
    stepFailure silent (outcomeText "test.ping" outcome) "SaltPingRetry" "SaltPingFailed"
  logError (outcomeError outcome) "test.ping failed"
    [("name", vm.name), ("minionID", minionID), ("detail", msg)]
  let now ← timeNow
  if bootstrapping rt now vm then
    logInfo "test.ping transient failure — retrying in 60s"
      [("name", vm.name), ("minionID", minionID)]
    recordEvent vm .warning retryReason
      ("test.ping failed for minion " ++ Go.quote minionID ++ ", retrying: " ++ msg)
    return ⟨60 * Go.second⟩
  else
    let vm ← clearPreseedKey vm "the failed ping"
    let vm ← patchAnnotations vm
      [(annotationSaltStatus, saltStatusFailedPing), (annotationReady, annotationFalse)]
    recordEvent vm .warning failReason msg
    return {}

/-- `runPing`. -/
def runPing (rt : Runtime) (vm : VirtualMachine) (conn : Connection) (minionID : String)
    (requeueAfter : Duration) : M Result := do
  logInfo "Running test.ping" [("name", vm.name), ("minionID", minionID)]
  let masterBefore ← masterLastSeen conn
  let started ← timeNow
  match ← salt conn (.testPing minionID) with
  | .ok true =>
    logInfo "test.ping succeeded" [("name", vm.name), ("minionID", minionID)]
    let vm ← clearPreseedKey vm "the first ping"
    let vm ← patchAnnotations vm [(annotationSaltStatus, saltStatusPinged)]
    recordEvent vm .normal "SaltPingSucceeded"
      ("test.ping succeeded for minion " ++ Go.quote minionID)
    return ⟨requeueAfter⟩
  | outcome => pingFailed rt vm conn minionID masterBefore started outcome

/-- The failure branch of `runRefreshPillar`. -/
def refreshPillarFailed (rt : Runtime) (vm : VirtualMachine) (conn : Connection)
    (minionID masterBefore : String) (started : Time) (outcome : Except String Bool) :
    M Result := do
  let silent ← masterSilence conn masterBefore started
  let (msg, retryReason, failReason) :=
    stepFailure silent (outcomeText "refresh_pillar" outcome)
      "SaltPillarRefreshRetry" "SaltPillarRefreshFailed"
  logError (outcomeError outcome) "refresh_pillar failed"
    [("name", vm.name), ("minionID", minionID), ("detail", msg)]
  let now ← timeNow
  if bootstrapping rt now vm then
    logInfo "refresh_pillar transient failure — retrying in 60s"
      [("name", vm.name), ("minionID", minionID)]
    recordEvent vm .warning retryReason
      ("refresh_pillar failed for minion " ++ Go.quote minionID ++ ", retrying: " ++ msg)
    return ⟨60 * Go.second⟩
  else
    let vm ← patchAnnotations vm
      [(annotationSaltStatus, saltStatusFailedPillarRefresh), (annotationReady, annotationFalse)]
    recordEvent vm .warning failReason msg
    return {}

/-- `runRefreshPillar`. -/
def runRefreshPillar (rt : Runtime) (vm : VirtualMachine) (conn : Connection) (minionID : String)
    (requeueAfter : Duration) : M Result := do
  logInfo "Running saltutil.refresh_pillar" [("name", vm.name), ("minionID", minionID)]
  let masterBefore ← masterLastSeen conn
  let started ← timeNow
  match ← salt conn (.refreshPillar minionID) with
  | .ok true =>
    logInfo "refresh_pillar succeeded" [("name", vm.name), ("minionID", minionID)]
    let vm ← patchAnnotations vm [(annotationSaltStatus, saltStatusPillarRefreshed)]
    recordEvent vm .normal "SaltPillarRefreshed"
      ("refresh_pillar succeeded for minion " ++ Go.quote minionID)
    return ⟨requeueAfter⟩
  | outcome => refreshPillarFailed rt vm conn minionID masterBefore started outcome

/-- `runDispatchHighstate`. -/
def runDispatchHighstate (rt : Runtime) (vm : VirtualMachine) (conn : Connection)
    (minionID : String) (requeueAfter : Duration) : M Result := do
  logInfo "Dispatching state.highstate" [("name", vm.name), ("minionID", minionID)]
  match ← salt conn (.dispatchHighstate minionID) with
  | .error e =>
    logError (some e) "highstate dispatch failed" [("name", vm.name), ("minionID", minionID)]
    let vm ← patchAnnotations vm
      [(annotationSaltStatus, saltStatusFailedHighstateDispatch),
       (annotationReady, annotationFalse)]
    recordEvent vm .warning "SaltHighstateDispatchFailed"
      ("highstate dispatch failed for " ++ Go.quote minionID ++ ": " ++ e)
    return {}
  | .ok jid =>
    let intentHash := computeIntentHash rt vm.annotations
    let vm ← patchAnnotations vm
      [(annotationSaltStatus, saltStatusHighstateDispatched),
       (annotationHighstateJID, jid),
       (annotationHighstateStatus, highstateInProgress),
       (annotationReady, annotationFalse),
       (annotationRolesHash, intentHash)]
    logInfo "Highstate dispatched" [("name", vm.name), ("minionID", minionID), ("jid", jid)]
    recordEvent vm .normal "SaltHighstateDispatched"
      ("state.highstate dispatched for minion " ++ Go.quote minionID ++ " (JID: " ++ jid ++ ")")
    return ⟨requeueAfter⟩

/-- `runPollHighstate` once the job is done. -/
def recordHighstate (rt : Runtime) (vm : VirtualMachine) (minionID jid : String)
    (result : JIDResult) (requeueAfter : Duration) : M Result := do
  let now ← nowText rt
  let failedIDs := result.failedStateIDs rt
  let failedStates := Go.join "," failedIDs
  if result.highstateOK then
    logInfo "Highstate succeeded" [("name", vm.name), ("minionID", minionID), ("jid", jid)]
    let vm ← patchAnnotations vm
      [(annotationSaltStatus, saltStatusReady),
       (annotationReady, annotationTrue),
       (annotationHighstateStatus, highstateSuccess),
       (annotationHighstateTime, now),
       (annotationHighstateFailedCount, "0"),
       (annotationHighstateFailedStates, "")]
    recordEvent vm .normal "SaltHighstateSuccess"
      ("state.highstate succeeded for minion " ++ Go.quote minionID ++ " (JID: " ++ jid ++ ")")
    return ⟨requeueAfter⟩
  else
    logInfo "Highstate failed"
      [("name", vm.name), ("minionID", minionID), ("jid", jid),
       ("retcode", toString result.retcode), ("failedStates", failedStates)]
    let vm ← patchAnnotations vm
      [(annotationSaltStatus, saltStatusFailedHighstate),
       (annotationReady, annotationFalse),
       (annotationHighstateStatus, highstateFailed),
       (annotationHighstateTime, now),
       (annotationHighstateFailedCount, toString failedIDs.length),
       (annotationHighstateFailedStates, failedStates)]
    recordEvent vm .warning "SaltHighstateFailed"
      ("state.highstate failed for minion " ++ Go.quote minionID ++ " (JID: " ++ jid ++
        ", retcode: " ++ toString result.retcode ++ ", failed: " ++ failedStates ++ ")")
    return {}

/-- `runPollHighstate`. -/
def runPollHighstate (rt : Runtime) (vm : VirtualMachine) (conn : Connection)
    (minionID jid : String) (requeueAfter : Duration) : M Result := do
  if jid = "" then
    logError none "HighstateDispatched but no JID annotation — requeueing" [("name", vm.name)]
    return ⟨requeueAfter⟩
  else
    match ← salt conn (.pollJID minionID jid) with
    | .error e =>
      logError (some e) "PollJID transient error — requeueing" [("name", vm.name), ("jid", jid)]
      return ⟨requeueAfter⟩
    | .ok none =>
      logInfo "Highstate not yet complete" [("name", vm.name), ("jid", jid)]
      return ⟨requeueAfter⟩
    | .ok (some result) => recordHighstate rt vm minionID jid result requeueAfter

/-! ## Starting the chain again -/

/-- `withMarkers`: the markers win over the patch. -/
def withMarkers (markers patch : List (String × String)) : List (String × String) :=
  patch ++ markers

/-- `runDay2`. -/
def runDay2 (vm : VirtualMachine) (conn : Connection) (minionID : String)
    (markers : List (String × String)) (requeueAfter : Duration) : M Result := do
  let masterBefore ← masterLastSeen conn
  let started ← timeNow
  match ← salt conn (.refreshPillar minionID) with
  | .ok true =>
    match ← salt conn (.dispatchHighstate minionID) with
    | .error e =>
      logError (some e) "Day-2 highstate dispatch failed"
        [("name", vm.name), ("minionID", minionID)]
      let vm ← patchAnnotations vm <| withMarkers markers
        [(annotationSaltStatus, saltStatusFailedHighstateDispatch),
         (annotationReady, annotationFalse)]
      recordEvent vm .warning "SaltDay2HighstateFailed"
        ("Day-2 highstate dispatch failed: " ++ e)
      return {}
    | .ok jid =>
      let vm ← patchAnnotations vm <| withMarkers markers
        [(annotationSaltStatus, saltStatusHighstateDispatched),
         (annotationHighstateJID, jid),
         (annotationHighstateStatus, highstateInProgress),
         (annotationReady, annotationFalse)]
      logInfo "Day-2 highstate dispatched"
        [("name", vm.name), ("minionID", minionID), ("jid", jid)]
      recordEvent vm .normal "SaltDay2Dispatched"
        ("Day-2 state.highstate dispatched for minion " ++ Go.quote minionID ++
          " (JID: " ++ jid ++ ")")
      return ⟨requeueAfter⟩
  | outcome =>
    let silent ← masterSilence conn masterBefore started
    let (msg, _, failReason) :=
      stepFailure silent (outcomeText "Day-2 refresh_pillar" outcome) "" "SaltDay2PillarFailed"
    logError (outcomeError outcome) "Day-2 refresh_pillar failed"
      [("name", vm.name), ("minionID", minionID), ("detail", msg)]
    let vm ← patchAnnotations vm <| withMarkers markers
      [(annotationSaltStatus, saltStatusFailedPillarRefresh), (annotationReady, annotationFalse)]
    recordEvent vm .warning failReason msg
    return {}

/-- Whether the chain is in a terminal failure. -/
def VirtualMachine.chainFailed (vm : VirtualMachine) : Bool :=
  Go.hasPrefix (vm.annotationOf annotationSaltStatus) failedStatusPrefix

/-- `retryRequested` in `checkReconvergence` and `restartFirstChain`. -/
def retryRequested (vm : VirtualMachine) : Bool :=
  vm.annotationOf annotationRetryRequest ≠ "" &&
    vm.annotationOf annotationRetryRequest ≠ vm.annotationOf annotationRetryHandled

/-- `bulkChanged` in `checkReconvergence` and `restartFirstChain`. -/
def bulkChanged (vm : VirtualMachine) (cfg : SaltKeyConfig) : Bool :=
  cfg.spec.retryToken ≠ "" && cfg.spec.retryToken ≠ vm.annotationOf annotationBulkRetryHandled

/-- The markers of the causes a chain start consumes, apart from the intent
hash. -/
def handledMarkers (vm : VirtualMachine) (cfg : SaltKeyConfig) : List (String × String) :=
  (if retryRequested vm then [(annotationRetryHandled, vm.annotationOf annotationRetryRequest)]
    else []) ++
  (if bulkChanged vm cfg then [(annotationBulkRetryHandled, cfg.spec.retryToken)] else [])

/-- The log line of `restartFirstChain`. -/
def logRestart : String := "Retry requested before the first highstate, restarting the Salt chain"

/-- The log line of a reset by `checkReconvergence`. -/
def logReset : String := "Reconvergence triggered from a terminal state, resetting the Salt chain"

/-- The log line before `runDay2`. -/
def logDay2 : String := "Reconvergence triggered, running refresh_pillar + highstate"

/-- The log line of a due enforcement. -/
def logEnforcement : String := "Scheduled enforcement due, re-running refresh_pillar + highstate"

/-- `restartFirstChain`. -/
def restartFirstChain (vm : VirtualMachine) (cfg : SaltKeyConfig) (minionID : String)
    (requeueAfter : Duration) : M Result := do
  if !retryRequested vm && !bulkChanged vm cfg then return {}
  else
    logInfo logRestart
      [("name", vm.name), ("minionID", minionID), ("from", vm.annotationOf annotationSaltStatus),
       ("retryRequested", toString (retryRequested vm)),
       ("bulkRetry", toString (bulkChanged vm cfg))]
    let vm ← patchAnnotations vm <|
      [(annotationSaltStatus, ""), (annotationReady, annotationFalse)] ++ handledMarkers vm cfg
    recordEvent vm .normal "SaltReconvergenceRequested"
      ("Re-running the Salt chain for minion " ++ Go.quote minionID ++
        " after a failure before its first highstate")
    return ⟨requeueAfter⟩

/-- `adoptLegacyIntentHash`: whether the stored hash was one of an older
version, replaced by today's. -/
def adoptLegacyIntentHash (rt : Runtime) (vm : VirtualMachine) (storedHash : String) :
    M Bool := do
  if computeLegacyRolesHash rt (vm.annotationOf annotationRoles) ≠ storedHash then return false
  else
    logInfo "Migrating pre-upgrade intent hash without dispatching" [("name", vm.name)]
    let _ ← patchAnnotations vm [(annotationRolesHash, computeIntentHash rt vm.annotations)]
    return true

/-- `intentChanged` in `checkReconvergence`. -/
def intentChanged (rt : Runtime) (vm : VirtualMachine) : Bool :=
  computeIntentHash rt vm.annotations ≠ vm.annotationOf annotationRolesHash

/-- The part of `checkReconvergence` that resets a failed chain. -/
def resetChain (rt : Runtime) (vm : VirtualMachine) (cfg : SaltKeyConfig) (minionID : String)
    (requeueAfter : Duration) : M Result := do
  logInfo logReset
    [("name", vm.name), ("minionID", minionID), ("from", vm.annotationOf annotationSaltStatus),
     ("intentChanged", toString (intentChanged rt vm)),
     ("retryRequested", toString (retryRequested vm)),
     ("bulkRetry", toString (bulkChanged vm cfg))]
  let vm ← patchAnnotations vm <|
    [(annotationSaltStatus, ""),
     (annotationReady, annotationFalse),
     (annotationHighstateStatus, ""),
     (annotationRolesHash, computeIntentHash rt vm.annotations)] ++ handledMarkers vm cfg
  recordEvent vm .normal "SaltReconvergenceRequested"
    ("Re-running the Salt chain for minion " ++ Go.quote minionID ++ " after a terminal failure")
  return ⟨requeueAfter⟩

/-- The end of `checkReconvergence`: `vm` is the object in memory and `seen` the
one its decisions and markers are computed from. -/
def startDay2 (rt : Runtime) (vm seen : VirtualMachine) (conn : Connection) (cfg : SaltKeyConfig)
    (minionID : String) (requeueAfter : Duration) : M Result := do
  logInfo logDay2
    [("name", vm.name), ("minionID", minionID),
     ("intentChanged", toString (intentChanged rt seen)),
     ("retryRequested", toString (retryRequested seen))]
  runDay2 vm conn minionID
    ((annotationRolesHash, computeIntentHash rt seen.annotations) :: handledMarkers seen cfg)
    requeueAfter

/-- Note an unhandled bulk token that starts nothing. -/
def noteBulkToken (vm : VirtualMachine) (cfg : SaltKeyConfig) : M VirtualMachine :=
  if bulkChanged vm cfg then
    patchAnnotations vm [(annotationBulkRetryHandled, cfg.spec.retryToken)]
  else pure vm

/-- The branch of `checkReconvergence` with nothing to start at once: wait for
the next scheduled enforcement. -/
def awaitEnforcement (rt : Runtime) (vm : VirtualMachine) (conn : Connection)
    (cfg : SaltKeyConfig) (minionID : String) (requeueAfter : Duration) : M Result := do
  let seen := vm
  let vm ← noteBulkToken vm cfg
  if seen.annotationOf annotationSaltStatus ≠ saltStatusReady then return {}
  else
    let now ← timeNow
    let (due, wait) :=
      enforcementDue rt cfg vm.uid (seen.annotationOf annotationHighstateTime) now
    if !due then return ⟨wait⟩
    else
      logInfo logEnforcement
        [("name", vm.name), ("minionID", minionID),
         ("lastHighstate", seen.annotationOf annotationHighstateTime),
         ("interval", cfg.spec.enforcementInterval)]
      startDay2 rt vm seen conn cfg minionID requeueAfter

/-- `checkReconvergence` once a hash is recorded. -/
def reconverge (rt : Runtime) (vm : VirtualMachine) (conn : Connection) (cfg : SaltKeyConfig)
    (minionID : String) (requeueAfter : Duration) : M Result := do
  if !intentChanged rt vm && !retryRequested vm && (!bulkChanged vm cfg || !vm.chainFailed) then
    awaitEnforcement rt vm conn cfg minionID requeueAfter
  else if vm.chainFailed then resetChain rt vm cfg minionID requeueAfter
  else startDay2 rt vm vm conn cfg minionID requeueAfter

/-- `checkReconvergence`. -/
def checkReconvergence (rt : Runtime) (vm : VirtualMachine) (conn : Connection)
    (cfg : SaltKeyConfig) (minionID : String) (requeueAfter : Duration) : M Result := do
  let previousHash := vm.annotationOf annotationRolesHash
  if previousHash = "" then
    if !vm.chainFailed then return {}
    else restartFirstChain vm cfg minionID requeueAfter
  else if !Go.hasPrefix previousHash intentHashVersion then
    let done ← adoptLegacyIntentHash rt vm previousHash
    if done then return {}
    else reconverge rt vm conn cfg minionID requeueAfter
  else reconverge rt vm conn cfg minionID requeueAfter

/-- The wait `reconcilePostAccept` still has to give the minion before its first
ping. -/
def connectDelay (rt : Runtime) (now : Time) (vm : VirtualMachine) : Duration :=
  match rt.parseRFC3339 (vm.annotationOf annotationAcceptedAt) with
  | none => 0
  | some acceptedAt => Go.wrap64 (postAcceptDelay - Go.since now acceptedAt)

/-- `reconcilePostAccept`. -/
def reconcilePostAccept (rt : Runtime) (vm : VirtualMachine) (conn : Connection)
    (cfg : SaltKeyConfig) (minionID : String) (requeueAfter : Duration) : M Result := do
  if minionID = "" then
    logError none "Accepted VM has no minion-id annotation — skipping post-accept"
      [("name", vm.name)]
    return {}
  else if vm.annotationOf annotationSaltStatus = "" then
    let now ← timeNow
    let remaining := connectDelay rt now vm
    if remaining > 0 then
      logInfo "Waiting for minion to connect after key acceptance"
        [("name", vm.name), ("minionID", minionID),
         ("remaining", rt.durationString (Go.round remaining Go.second))]
      return ⟨remaining⟩
    else runPing rt vm conn minionID requeueAfter
  else if vm.annotationOf annotationSaltStatus = saltStatusPinged then
    runRefreshPillar rt vm conn minionID requeueAfter
  else if vm.annotationOf annotationSaltStatus = saltStatusPillarRefreshed then
    runDispatchHighstate rt vm conn minionID requeueAfter
  else if vm.annotationOf annotationSaltStatus = saltStatusHighstateDispatched then
    runPollHighstate rt vm conn minionID (vm.annotationOf annotationHighstateJID) requeueAfter
  else checkReconvergence rt vm conn cfg minionID requeueAfter

end SaltOperator
