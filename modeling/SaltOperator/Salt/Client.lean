import SaltOperator.Api.Json
import SaltOperator.Runtime

/-!
# The RaaS client (pkg/salt/client.go)

`SaltCall` are the methods of the `Client` interface the controllers use and
`SaltCall.Ans` what each returns. What RaaS sends is open; what a method makes
of it is not: the decoders below are the code between an HTTP response and the
method's result, and `SaltCall.Returns` says which results a method can return
at all. Two facts about them carry over to every run of the operator: a
dispatched job has a JID (`dispatch_ne_empty`), and a listed key has a name
(`extractMinions_ne_empty`).
-/

namespace SaltOperator

/-- `JIDResult`; `ret` is its `Return`. -/
structure JIDResult where
  minionID : String
  jid : String
  fn : String
  ret : Json
  retcode : Int
  success : Bool

/-- `KeyPair`. -/
structure KeyPair where
  pub : String
  priv : String
  deriving DecidableEq, Repr

/-- The methods of `salt.Client`. -/
inductive SaltCall where
  | login
  | listPendingKeys
  | listAcceptedKeys
  | acceptKey (minionID : String)
  | deleteKey (minionID : String)
  | testPing (minionID : String)
  | refreshPillar (minionID : String)
  | dispatchHighstate (minionID : String)
  | pollJID (minionID jid : String)
  | masterLastSeen
  | keyStates (minionID : String)
  | genAcceptKey (minionID : String) (force : Bool)
  | masterPublicKey
  deriving DecidableEq, Repr

/-- What a method returns; `none` of `pollJID` is a job not done yet, `none` of
`genAcceptKey` a nil pair. -/
def SaltCall.Ans : SaltCall → Type
  | .login => Except String Unit
  | .listPendingKeys => Except String (List String)
  | .listAcceptedKeys => Except String (List String)
  | .acceptKey _ => Except String Unit
  | .deleteKey _ => Except String Unit
  | .testPing _ => Except String Bool
  | .refreshPillar _ => Except String Bool
  | .dispatchHighstate _ => Except String String
  | .pollJID _ _ => Except String (Option JIDResult)
  | .masterLastSeen => Except String String
  | .keyStates _ => Except String (List String)
  | .genAcceptKey _ _ => Except String (Option KeyPair)
  | .masterPublicKey => Except String String

/-- A response to a POST: its status and body, and the JSON value the body
parses to, if it does. -/
structure HttpResponse where
  status : Int
  text : String
  json : Option Json

/-- The outcome of `rawPost`. -/
abbrev Posted := Except String HttpResponse

/-- `200 <= status && status < 300`. -/
def HttpResponse.isSuccess (r : HttpResponse) : Bool := 200 ≤ r.status ∧ r.status < 300

/-- `rawPost` followed by the status check every method makes. -/
def Posted.body (what : String) : Posted → Except String HttpResponse
  | .error e => .error (what ++ ": " ++ e)
  | .ok r => if r.isSuccess then .ok r else .error s!"{what}: HTTP {r.status}: {r.text}"

/-- `json.Unmarshal` of a body into a `map[string]any`: an object or `null`. -/
def HttpResponse.toMap (r : HttpResponse) : Option Json :=
  match r.json with
  | some (.obj ms) => some (.obj ms)
  | some .null => some (.obj [])
  | _ => none

/-- The text of an error envelope; Go's rendering of one without a message is
left out. -/
def apiErrorText (e : Json) : String :=
  match e.get? "message" with
  | some (.str msg) => if msg = "" then "API error" else "API error: " ++ msg
  | _ => "API error"

/-- The error an `error` member stands for, if it is present and not null. -/
def apiError (m : Json) : Option String :=
  match m.get? "error" with
  | none => none
  | some .null => none
  | some e => some (apiErrorText e)

/-- `extractMinions`. -/
def extractMinions (r : HttpResponse) : Except String (List String) :=
  match r.toMap with
  | none => .error "response is not valid JSON"
  | some m =>
    match apiError m with
    | some e => .error ("RaaS " ++ e)
    | none =>
      match m.path? ["ret", "results"] with
      | some (.arr items) => .ok <| items.filterMap fun item =>
          match item.get? "minion" with
          | some (.str id) => if id = "" then none else some id
          | _ => none
      | _ => .ok []

/-- `checkBodyError`: a body that is not an object passes. -/
def checkBodyError (r : HttpResponse) : Except String Unit :=
  match r.toMap with
  | none => .ok ()
  | some m =>
    match apiError m with
    | some e => .error e
    | none => .ok ()

/-- `ListPendingKeys` and `ListAcceptedKeys` from the response to their
request. -/
def listKeys (what : String) (p : Posted) : Except String (List String) := do
  extractMinions (← p.body what)

def listPendingKeys (p : Posted) : Except String (List String) := listKeys "list_pending" p

def listAcceptedKeys (p : Posted) : Except String (List String) := listKeys "list_accepted" p

/-- `AcceptKey` and `DeleteKey` from the response to their request. -/
def setKeyState (what : String) (p : Posted) : Except String Unit := do
  match checkBodyError (← p.body what) with
  | .error e => .error (what ++ ": " ++ e)
  | .ok () => .ok ()

def acceptKey (minionID : String) (p : Posted) : Except String Unit :=
  setKeyState ("accept key for " ++ Go.quote minionID) p

def deleteKey (minionID : String) (p : Posted) : Except String Unit :=
  setKeyState ("delete key for " ++ Go.quote minionID) p

/-- The values `encoding/json` decodes into a struct field, in order: those of the
members with its name, matched without regard to case. -/
def structField (rt : Runtime) (name : String) : Json → List Json
  | .obj ms => (ms.filter fun m => rt.equalFold m.1 name).map Prod.snd
  | _ => []

/-- A string field of a response, `none` when a value has another type; null leaves
it as it is. -/
def stringField (values : List Json) : Option String :=
  values.foldlM (fun s v => match v with
    | .null => some s
    | .str t => some t
    | _ => none) ""

/-- A `map[string]any` field of a response, `none` when a value has another type; null
clears it, and a second object is merged into the first. -/
def objectField (values : List Json) : Option (Option Json) :=
  values.foldlM (fun m v => match v, m with
    | .null, _ => some none
    | .obj ms, some (Json.obj ms') => some (some (.obj (ms' ++ ms)))
    | .obj ms, _ => some (some (.obj ms))
    | _, _ => none) none

/-- `saveJob` and `routeCmd` from the response to their request: the non-empty
string in `ret`. -/
def retString (rt : Runtime) (what missing : String) (p : Posted) : Except String String := do
  let r ← p.body what
  let some m := r.toMap | .error (what ++ ": parse response")
  match stringField (structField rt "ret" m), objectField (structField rt "error" m) with
  | some s, some none =>
    if s = "" then .error (what ++ ": empty " ++ missing ++ " in response: " ++ r.text) else .ok s
  | some _, some (some e) => .error (what ++ ": " ++ apiErrorText e)
  | _, _ => .error (what ++ ": parse response")

def saveJob (rt : Runtime) (fn : String) (p : Posted) : Except String String :=
  retString rt ("save_job(" ++ fn ++ ")") "job UUID" p

def routeCmd (rt : Runtime) (minionID : String) (p : Posted) : Except String String :=
  retString rt ("route_cmd(" ++ minionID ++ ")") "JID" p

/-- `dispatch`: save the job, then route it. -/
def dispatch (rt : Runtime) (fn minionID : String) (saved routed : Posted) :
    Except String String := do
  let _ ← saveJob rt fn saved
  routeCmd rt minionID routed

/-- `int(rc)` of a number, truncating. -/
def truncate (q : ℚ) : Int := q.num.tdiv q.den

/-- `PollJID` from the response to its request. -/
def pollJID (minionID jid : String) (p : Posted) : Except String (Option JIDResult) := do
  let what := "poll_jid(" ++ jid ++ ")"
  let r ← p.body what
  let some m := r.toMap | .error (what ++ ": parse response")
  match apiError m with
  | some e => .error (what ++ ": " ++ e)
  | none => pure ()
  match m.get? "ret" with
  | some (.obj ms) =>
    match (Json.obj ms).get? minionID with
    | none => .ok none
    | some (.obj fields) =>
      let d := Json.obj fields
      .ok <| some
        { minionID, jid
          fn := d.nestedString ["fun"]
          ret := (d.get? "return").getD .null
          retcode := match d.get? "retcode" with
            | some (.num q) => truncate q
            | _ => 0
          success := match d.get? "success" with
            | some (.bool b) => b
            | _ => false }
    | some _ => .error (what ++ ": unexpected result shape for " ++ minionID)
  | _ => .ok none

/-- `HighstateOK`. -/
def JIDResult.highstateOK (r : JIDResult) : Bool := r.success && r.retcode = 0

/-- The `result` of one state, `none` when it does not decode; null leaves it false. -/
def stateResult (rt : Runtime) (state : Json) : Option Bool :=
  match state with
  | .null => some false
  | .obj _ => (structField rt "result" (.obj state.entries)).foldlM (fun b v => match v with
    | .null => some b
    | .bool b' => some b'
    | _ => none) false
  | _ => none

/-- `FailedStateIDs`. -/
def JIDResult.failedStateIDs (rt : Runtime) (r : JIDResult) : List String :=
  if r.ret.entries.all fun s => (stateResult rt s.2).isSome then
    ((r.ret.entries.filter fun s => stateResult rt s.2 = some false).map Prod.fst).insertionSort
      (· ≤ ·)
  else []

/-- The results a method of the client can return. Those left open wait for the
result of a job that runs on the minion or the master. -/
def SaltCall.Returns (rt : Runtime) : (c : SaltCall) → c.Ans → Prop
  | .listPendingKeys, a => ∃ p, a = SaltOperator.listPendingKeys p
  | .listAcceptedKeys, a => ∃ p, a = SaltOperator.listAcceptedKeys p
  | .acceptKey minionID, a => ∃ p, a = SaltOperator.acceptKey minionID p
  | .deleteKey minionID, a => ∃ p, a = SaltOperator.deleteKey minionID p
  | .dispatchHighstate minionID, a => ∃ p q, a = dispatch rt "state.highstate" minionID p q
  | .pollJID minionID jid, a => ∃ p, a = SaltOperator.pollJID minionID jid p
  | _, _ => True

theorem retString_ne_empty {rt : Runtime} {what missing : String} {p : Posted} {s : String}
    (h : retString rt what missing p = .ok s) : s ≠ "" := by
  unfold retString at h
  cases hb : p.body what with
  | error e => simp [hb, bind, Except.bind] at h
  | ok r =>
    cases hm : r.toMap with
    | none => simp [hb, hm, bind, Except.bind] at h
    | some m =>
      simp only [hb, hm, bind, Except.bind] at h
      split at h
      · split at h
        · cases h
        · cases h
          assumption
      all_goals cases h

/-- **A dispatched job has a JID.** -/
theorem dispatch_ne_empty {rt : Runtime} {fn minionID : String} {p q : Posted} {jid : String}
    (h : dispatch rt fn minionID p q = .ok jid) : jid ≠ "" := by
  unfold dispatch at h
  cases hs : saveJob rt fn p with
  | error e => simp [hs, bind, Except.bind] at h
  | ok u =>
    simp only [hs, bind, Except.bind] at h
    exact retString_ne_empty h

/-- **A listed key has a name.** -/
theorem extractMinions_ne_empty {r : HttpResponse} {keys : List String}
    (h : extractMinions r = .ok keys) : "" ∉ keys := by
  unfold extractMinions at h
  split at h
  · cases h
  · split at h
    · cases h
    · split at h
      · cases h
        simp only [List.mem_filterMap, not_exists, not_and]
        intro item _ hitem
        split at hitem
        · split at hitem
          · cases hitem
          · cases hitem
            contradiction
        · cases hitem
      · cases h
        exact List.not_mem_nil

theorem listKeys_ne_empty {what : String} {p : Posted} {keys : List String}
    (h : listKeys what p = .ok keys) : "" ∉ keys := by
  unfold listKeys at h
  cases hb : p.body what with
  | error e => simp [hb, bind, Except.bind] at h
  | ok r =>
    simp only [hb, bind, Except.bind] at h
    exact extractMinions_ne_empty h

end SaltOperator
