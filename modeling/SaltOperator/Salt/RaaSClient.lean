import SaltOperator.Salt.Http

/-!
# The other methods of the RaaS client (pkg/salt/client.go)

The methods of `RaaSClient` that a chain of Salt jobs needs, down to their requests, as
`Salt/Http.lean` has those behind a preseeded key: the lists of keys, `AcceptKey` and
`DeleteKey`, `dispatch` with `saveJob` and `routeCmd`, `PollJID`, `TestPing` and
`RefreshPillar` with `waitBoolResult`, and `MasterLastSeen`. What they make of a response is
in `Salt/Client.lean`. `onWire` puts the whole client under a controller's program.
-/

namespace SaltOperator

/-- `JIDResult.BoolReturn`; the return of a job that has none is null, which leaves a bool
false. -/
def JIDResult.boolReturn (r : JIDResult) : Bool × Bool :=
  match r.ret with
  | .bool b => (b, true)
  | .null => (false, true)
  | _ => (false, false)

namespace RaaSClient

variable (cd : Codec) (rt : Runtime) (conn : Connection)

/-- A response as the decoders of the methods take it. -/
def response (r : WireResponse) : HttpResponse :=
  ⟨r.status, cd.text r.body, (cd.parse r.body).toOption⟩

/-- `rawPost`, for a decoder. -/
def posted (fields : Json) : WireM Posted := do
  match ← (rawPost cd conn fields).attempt with
  | .error e => return .error e
  | .ok r => return .ok (response cd r)

/-- `c.log.V(1).Info`. -/
def debug (message : String) (fields : List (String × String)) : WireM Unit :=
  Prog.perform (WireOp.debug message fields)

/-- The debug line with the body of a response that has a status of success. -/
def debugBody (message : String) (fields : List (String × String)) : Posted → WireM Unit
  | .error _ => return ()
  | .ok r =>
    if r.isSuccess then debug message (fields ++ [("body", r.text)])
    else return ()

/-- The request of `ListPendingKeys` and `ListAcceptedKeys`. -/
def keysIn (state : String) : Json :=
  rpc "minions" "get_minion_key_state"
    [("key_state", .str state), ("limit", .num 0), ("page", .num 0)]

/-- `ListPendingKeys`. -/
def listPendingKeys : WireM (List String) := do
  let p ← posted cd conn (keysIn "pending")
  debugBody "list_pending response" [] p
  Prog.orFail id (SaltOperator.listPendingKeys p)

/-- `ListAcceptedKeys`. -/
def listAcceptedKeys : WireM (List String) := do
  let p ← posted cd conn (keysIn "accepted")
  debugBody "list_accepted response" [] p
  Prog.orFail id (SaltOperator.listAcceptedKeys p)

/-- The request of `AcceptKey`. -/
def keyToAccept (minionID : String) : Json :=
  rpc "minions" "set_minion_key_state"
    [("include_denied", .bool true), ("include_rejected", .bool true),
     ("minions", .arr [.arr [.str conn.masterID, .str minionID]]), ("state", .str "accept")]

/-- `AcceptKey`. -/
def acceptKey (minionID : String) : WireM Unit := do
  let p ← posted cd conn (keyToAccept conn minionID)
  debugBody "accept response" [("minionID", minionID)] p
  Prog.orFail id (SaltOperator.acceptKey minionID p)

/-- The request of `DeleteKey`. -/
def keyToDelete (minionID : String) : Json :=
  rpc "minions" "set_minion_key_state"
    [("minions", .arr [.arr [.str conn.masterID, .str minionID]]), ("state", .str "delete")]

/-- `DeleteKey`. -/
def deleteKey (minionID : String) : WireM Unit := do
  let p ← posted cd conn (keyToDelete conn minionID)
  debugBody "delete response" [("minionID", minionID)] p
  Prog.orFail id (SaltOperator.deleteKey minionID p)

/-- `Call`. -/
def call (resource method : String) (kwarg : List (String × Json)) : WireM (List UInt8) := do
  let r ← rawPost cd conn (rpc resource method kwarg)
  if !r.isSuccess then .fail ("HTTP " ++ toString r.status ++ ": " ++ cd.text r.body)
  else return r.body

/-- The request of `saveJob`. -/
def jobToSave (name fn : String) (kwarg : List (String × Json)) : Json :=
  rpc "job" "save_job" [("arg", .obj [("arg", .arr []), ("kwarg", .obj kwarg)]),
    ("cmd", .str "local"), ("fun", .str fn), ("name", .str name)]

/-- `saveJob`. -/
def saveJob (name fn : String) (kwarg : List (String × Json)) : WireM String := do
  Prog.orFail id (SaltOperator.saveJob rt fn (← posted cd conn (jobToSave name fn kwarg)))

/-- The request of `routeCmd`: a saved job, for one minion. -/
def jobToRoute (jobUUID minionID : String) : Json :=
  rpc "cmd" "route_cmd" [("job_uuid", .str jobUUID),
    ("tgt", .obj [("salt",
      .obj [("tgt", .str ("L@" ++ minionID)), ("tgt_type", .str "compound")])])]

/-- `routeCmd`. -/
def routeCmd (jobUUID minionID : String) : WireM String := do
  Prog.orFail id
    (SaltOperator.routeCmd rt minionID (← posted cd conn (jobToRoute jobUUID minionID)))

/-- The name a job is saved under. -/
def jobName (fn : String) : String :=
  "op-" ++ String.ofList (fn.toList.map fun c => if c = '.' ∨ c = '_' then '-' else c)

/-- `dispatch`. -/
def dispatch (minionID fn : String) (kwarg : List (String × Json)) : WireM String := do
  let jobUUID ← saveJob cd rt conn (jobName fn) fn kwarg
  debug "saved job" [("fun", fn), ("jobUUID", jobUUID)]
  let jid ← routeCmd cd rt conn jobUUID minionID
  debug "dispatched job" [("fun", fn), ("minionID", minionID), ("jid", jid)]
  return jid

/-- `DispatchHighstate`. -/
def dispatchHighstate (minionID : String) : WireM String :=
  dispatch cd rt conn minionID "state.highstate" []

/-- `PollJID`; `none` is a job not done yet. -/
def pollJID (minionID jid : String) : WireM (Option JIDResult) := do
  let p ← posted cd conn (getJid jid)
  debugBody "poll_jid response" [("jid", jid), ("minionID", minionID)] p
  Prog.orFail id (SaltOperator.pollJID minionID jid p)

/-- `waitBoolResult`, which looks at the job every five seconds. -/
def waitBoolResult (minionID jid fn : String) : Nat → WireM Bool
  | 0 => .fail (fn ++ ": timed out waiting for result (jid=" ++ jid ++
      "): context deadline exceeded")
  | polls + 1 => do
    match ← pollJID cd conn minionID jid with
    | some result =>
      if result.boolReturn.2 then return result.boolReturn.1
      else .fail (fn ++ ": unexpected non-boolean return for " ++ minionID ++ " (raw: " ++
        cd.marshal result.ret ++ ")")
    | none =>
      match ← Prog.perform (WireOp.wait (5 * Go.second)) with
      | some e => .fail (fn ++ ": timed out waiting for result (jid=" ++ jid ++ "): " ++ e)
      | none => waitBoolResult minionID jid fn polls

/-- `TestPing` and `RefreshPillar`: dispatch a job and wait for the bool it returns. -/
def boolJob (polls : Nat) (fn minionID : String) : WireM Bool := do
  let jid ← dispatch cd rt conn minionID fn []
  waitBoolResult cd conn minionID jid fn polls

/-- `TestPing`. -/
def testPing (polls : Nat) (minionID : String) : WireM Bool :=
  boolJob cd rt conn polls "test.ping" minionID

/-- `RefreshPillar`. -/
def refreshPillar (polls : Nat) (minionID : String) : WireM Bool :=
  boolJob cd rt conn polls "saltutil.refresh_pillar" minionID

/-- One master of `get_master_presence`: its ID and when it was last seen. -/
def presence (j : Json) : Option (String × String) := do
  let m ← structValue j
  return (← stringField (structField rt "master_id" m),
    ← stringField (structField rt "last_seen" m))

/-- What `MasterLastSeen` reads of its response. -/
def presences (j : Json) : Option (List (String × String)) := do
  let ret ← nestedStruct (structField rt "ret" (← structValue j))
  match (structField rt "results" ret).getLast? with
  | none | some .null => return []
  | some (.arr items) => items.mapM (presence rt)
  | some _ => none

/-- `MasterLastSeen`. -/
def masterLastSeen : WireM String := do
  let what := "get_master_presence"
  let r ← orElse what (← (rawPost cd conn (rpc "master" "get_master_presence" [])).attempt)
  if !r.isSuccess then .fail (what ++ ": HTTP " ++ toString r.status ++ ": " ++ cd.text r.body)
  else
    orElse what (checkBodyError (response cd r))
    let masters ← orElse what (cd.unmarshal "struct { Ret }" (presences rt) r.body)
    match masters.find? fun m => m.1 = conn.masterID with
    | some m => return m.2
    | none => return ""

end RaaSClient

/-- A controller's calls, those of the client made over HTTP. -/
def onWire (cd : Codec) (rt : Runtime) (polls : Nat) : (o : Op) → WireM o.Ans
  | .salt conn .login => (login cd conn).attempt
  | .salt conn .listPendingKeys => (RaaSClient.listPendingKeys cd conn).attempt
  | .salt conn .listAcceptedKeys => (RaaSClient.listAcceptedKeys cd conn).attempt
  | .salt conn (.acceptKey minionID) => (RaaSClient.acceptKey cd conn minionID).attempt
  | .salt conn (.deleteKey minionID) => (RaaSClient.deleteKey cd conn minionID).attempt
  | .salt conn (.testPing minionID) => (RaaSClient.testPing cd rt conn polls minionID).attempt
  | .salt conn (.refreshPillar minionID) =>
    (RaaSClient.refreshPillar cd rt conn polls minionID).attempt
  | .salt conn (.dispatchHighstate minionID) =>
    (RaaSClient.dispatchHighstate cd rt conn minionID).attempt
  | .salt conn (.pollJID minionID jid) => (RaaSClient.pollJID cd conn minionID jid).attempt
  | .salt conn .masterLastSeen => (RaaSClient.masterLastSeen cd rt conn).attempt
  | o => overHttp cd rt polls o

end SaltOperator
