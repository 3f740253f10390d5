import SaltOperator.Controller.Effects
import SaltOperator.Lib.Relational

/-!
# The RaaS client over HTTP (pkg/salt/client.go)

The methods behind a preseeded key down to their requests: `doPost` and `rawPost`
with its login, `wheel` and its polling, `KeyStates`, `GenAcceptKey` and
`MasterPublicKey`. `WireOp` are the calls they make: requests, debug lines, the
client's own state and waiting. `overHttp` puts them under a controller's program.

The client's context has a deadline, so that `wheel` polls a bounded number of
times; the bound is a parameter.
-/

namespace SaltOperator

/-- What the client takes from `encoding/json` and `fmt` as it is. -/
structure Codec where
  /-- `json.Marshal`. -/
  marshal : Json → String
  /-- `json.Unmarshal` of a text, or its syntax error. -/
  parse : List UInt8 → Except String Json
  /-- The error of `json.Unmarshal` for a value that does not fit the type `target`. -/
  typeError : (target : String) → Json → String
  /-- A text under `%s`. -/
  text : List UInt8 → String
  /-- A value of type `any` under `%v`. -/
  display : Option Json → String

/-- The calls of the client, and those of the controller above it. -/
inductive WireOp where
  | controller (o : Op)
  /-- `c.log.V(1).Info`. -/
  | debug (message : String) (fields : List (String × String))
  /-- `http.NewRequestWithContext`. -/
  | newRequest (method url : String)
  | get (url : String) (headers : List (String × String))
  | post (url : String) (headers : List (String × String)) (body : Json)
  /-- The `_xsrf` cookie in the jar, empty if there is none. -/
  | cookie
  | jwt
  | setJwt (jwt : String)
  | masterPub
  | setMasterPub (pub : String)
  /-- Wait for this long, or for the end of the context. -/
  | wait (d : Duration)

/-- What they return. A POST has a status and a body, which may break off; waiting
returns the error of a context that has ended. -/
def WireOp.Ans : WireOp → Type
  | .controller o => o.Ans
  | .debug _ _ => Unit
  | .newRequest _ _ => Except String Unit
  | .get _ _ => Except String Int
  | .post _ _ _ => Except String (Int × Except String (List UInt8))
  | .cookie => String
  | .jwt => String
  | .setJwt _ => Unit
  | .masterPub => String
  | .setMasterPub _ => Unit
  | .wait _ => Option String

/-- A program of the client; it fails with the text of a Go error. -/
abbrev WireM (α : Type) := Prog WireOp WireOp.Ans String α

/-- A response as `doPost` hands it on. -/
structure WireResponse where
  status : Int
  body : List UInt8

/-- `200 <= status && status < 300`. -/
def WireResponse.isSuccess (r : WireResponse) : Bool := 200 ≤ r.status ∧ r.status < 300

/-- `strings.TrimRight(baseURL, "/")`. -/
def Connection.baseURL (conn : Connection) : String :=
  String.ofList (conn.url.toList.reverse.dropWhile (· = '/')).reverse

/-- `rpc`. -/
def rpc (resource method : String) (kwarg : List (String × Json)) : Json :=
  .obj [("kwarg", .obj kwarg), ("method", .str method), ("resource", .str resource)]

/-- The request for the return of a job. -/
def getJid (jid : String) : Json := rpc "ret" "get_jid" [("jid", .str jid)]

section client

variable (cd : Codec) (rt : Runtime) (conn : Connection)

/-- The value of a struct: an object, or null for an empty one. -/
def structValue : Json → Option Json
  | .obj ms => some (.obj ms)
  | .null => some (.obj [])
  | _ => none

/-- `json.Unmarshal` of a body into a Go type, `fit` saying what of a value fits it. -/
def Codec.unmarshal {α : Type} (target : String) (fit : Json → Option α) (body : List UInt8) :
    Except String α :=
  match cd.parse body with
  | .error e => .error e
  | .ok j =>
    match fit j with
    | none => .error (cd.typeError target j)
    | some v => .ok v

/-- Go on with a value, or fail with a wrapped error. -/
def orElse {α : Type} (what : String) : Except String α → WireM α
  | .ok a => pure a
  | .error e => .fail (what ++ ": " ++ e)

/-- The headers every request carries. -/
def baseHeaders : List (String × String) :=
  [("Accept", "application/json"), ("X-Requested-With", "XMLHttpRequest")]

/-- The headers of a POST to `/rpc`. -/
def rpcHeaders (xsrf jwt : String) : List (String × String) :=
  [("Content-Type", "application/json")] ++ baseHeaders ++
    (if xsrf ≠ "" then [("X-Xsrftoken", xsrf)] else []) ++
    (if jwt ≠ "" then [("Authorization", "Bearer " ++ jwt)] else [])

/-- `Do` and `ReadAll` of a POST, of whose body no more than `limit` bytes are read. -/
def sendPost (doFailed readFailed url : String) (headers : List (String × String)) (body : Json)
    (limit : Nat) : WireM WireResponse := do
  match ← Prog.perform (WireOp.post url headers body) with
  | .error e => .fail (doFailed ++ ": " ++ e)
  | .ok (_, .error e) => .fail (readFailed ++ ": " ++ e)
  | .ok (status, .ok bytes) => return ⟨status, bytes.take limit⟩

/-- `doPost`. -/
def doPost (fields : Json) : WireM WireResponse := do
  let url := conn.baseURL ++ "/rpc"
  orElse "build request" (← Prog.perform (WireOp.newRequest "POST" url))
  let xsrf : String ← Prog.perform WireOp.cookie
  let jwt : String ← Prog.perform WireOp.jwt
  Prog.perform (WireOp.debug "POST /rpc" [("payload", cd.marshal fields)])
  sendPost "POST /rpc" "read response body" url (rpcHeaders xsrf jwt) fields (10 * 2 ^ 20)

/-- `fetchCookies`. -/
def fetchCookies (path : String) : WireM Int := do
  let url := conn.baseURL ++ path
  orElse ("build GET " ++ path) (← Prog.perform (WireOp.newRequest "GET" url))
  match ← Prog.perform (WireOp.get url baseHeaders) with
  | .error e => .fail e
  | .ok status => return status

/-- The end of `Login`: the token in the response. -/
def readLogin (r : WireResponse) : WireM Unit := do
  if !r.isSuccess then
    .fail ("login failed: HTTP " ++ toString r.status ++ " (check username/password): " ++
      cd.text r.body)
  else
    let loginResp ← orElse "login: parse response"
      (cd.unmarshal "map[string]interface {}" structValue r.body)
    match loginResp.get? "jwt" with
    | some (.str jwt) =>
      if jwt = "" then .fail ("login failed: no JWT in response: " ++ cd.text r.body)
      else
        Prog.perform (WireOp.setJwt jwt)
        Prog.perform (WireOp.debug "Login successful" [])
    | _ => .fail ("login failed: no JWT in response: " ++ cd.text r.body)

/-- The payload of `Login`. -/
def credentials : Json :=
  .obj [("config_name", .str "internal"), ("password", .str conn.password),
    ("token_type", .str "jwt"), ("username", .str conn.username)]

/-- `Login`. -/
def login : WireM Unit := do
  let path := "/account/login"
  let url := conn.baseURL ++ path
  Prog.perform (WireOp.debug "Fetching _xsrf cookie" [("url", url)])
  let status ← orElse "login failed" (← (fetchCookies conn path).attempt)
  let xsrf : String ← Prog.perform WireOp.cookie
  if xsrf = "" then
    .fail ("login failed: no _xsrf cookie returned by " ++ url ++ " (HTTP " ++ toString status ++
      ", check that the URL is the RaaS API)")
  else
    orElse "login: build request" (← Prog.perform (WireOp.newRequest "POST" url))
    Prog.perform (WireOp.debug "POST /account/login" [("username", conn.username)])
    let headers := [("Content-Type", "application/json")] ++ baseHeaders ++ [("X-Xsrftoken", xsrf)]
    readLogin cd (← sendPost "login: POST /account/login" "login: read response" url headers
      (credentials conn) (2 ^ 20))

/-- `rawPost`. -/
def rawPost (fields : Json) : WireM WireResponse := do
  let r ← doPost cd conn fields
  if r.status ≠ 401 then return r
  else
    orElse "JWT expired; re-login failed" (← (login cd conn).attempt)
    doPost cd conn fields

/-- What `wheel` reads of the response to `route_cmd`: `ret` and `error`. -/
def routedFields (j : Json) : Option (String × Option Json) := do
  let m ← structValue j
  return (← stringField (structField rt "ret" m), ← objectField (structField rt "error" m))

/-- What `wheel` reads of the response to `get_jid`: `ret` and `error`. -/
def jobFields (j : Json) : Option (Option Json × Option Json) := do
  let m ← structValue j
  return (← objectField (structField rt "ret" m), ← objectField (structField rt "error" m))

/-- A bool field, `none` when a value has another type; null leaves it as it is. -/
def boolField (values : List Json) : Option Bool :=
  values.foldlM (fun b v => match v with
    | .null => some b
    | .bool b' => some b'
    | _ => none) false

/-- What `wheel` reads of the job's result on the master: `return`, as it stands, and
`success`. -/
def resultFields (j : Json) : Option (Option Json × Bool) := do
  let m ← structValue j
  return ((structField rt "return" m).getLast?, ← boolField (structField rt "success" m))

/-- One look at the job of `wheel`: its return, if there is one. -/
def pollOnce (fn jid : String) (r : WireResponse) : WireM (Option (Option Json)) := do
  let what := fn ++ ": get_jid(" ++ jid ++ ")"
  if !r.isSuccess then .fail (what ++ ": HTTP " ++ toString r.status)
  else
    let (ret, err) ← orElse (what ++ ": parse response")
      (cd.unmarshal "struct { Ret; Error }" (jobFields rt) r.body)
    match err with
    | some e => .fail (what ++ ": API error: " ++ cd.display (e.get? "message"))
    | none =>
      match ret.bind (·.get? conn.masterID) with
      | none => return none
      | some raw =>
        match resultFields rt raw with
        | none =>
          .fail (what ++ ": parse result: " ++ cd.typeError "struct { Return; Success }" raw)
        | some (value, success) =>
          if !success then
            .fail (fn ++ ": failed on master " ++ conn.masterID ++ " (jid " ++ jid ++ ")")
          else return some value

/-- The loop of `wheel`. -/
def pollWheel (fn jid : String) : Nat → WireM (Option Json)
  | 0 => .fail (fn ++ ": timed out waiting for result (jid=" ++ jid ++
      "): context deadline exceeded")
  | polls + 1 => do
    let r ← orElse (fn ++ ": get_jid(" ++ jid ++ ")") (← (rawPost cd conn (getJid jid)).attempt)
    match ← pollOnce cd rt conn fn jid r with
    | some value => return value
    | none =>
      match ← Prog.perform (WireOp.wait (2 * Go.second)) with
      | some e => .fail (fn ++ ": timed out waiting for result (jid=" ++ jid ++ "): " ++ e)
      | none => pollWheel fn jid polls

/-- The request with which `wheel` starts its job on the master. -/
def wheelToRoute (fn : String) (args : List Json) (kwarg : List (String × Json)) : Json :=
  rpc "cmd" "route_cmd" [("arg", .obj [("arg", .arr args), ("kwarg", .obj kwarg)]),
    ("cmd", .str "wheel"), ("fun", .str fn), ("masters", .arr [.str conn.masterID])]

/-- `wheel`: the return of the job, `none` for an absent one. -/
def wheel (polls : Nat) (fn : String) (args : List Json) (kwarg : List (String × Json)) :
    WireM (Option Json) := do
  let what := fn ++ ": route_cmd"
  let r ← orElse what (← (rawPost cd conn (wheelToRoute conn fn args kwarg)).attempt)
  if !r.isSuccess then .fail (what ++ ": HTTP " ++ toString r.status ++ ": " ++ cd.text r.body)
  else
    let (jid, err) ← orElse (what ++ ": parse response")
      (cd.unmarshal "struct { Ret; Error }" (routedFields rt) r.body)
    if err.isSome ∨ jid = "" then .fail (what ++ ": " ++ cd.text r.body)
    else
      Prog.perform (WireOp.debug "dispatched wheel job" [("fun", fn), ("jid", jid)])
      pollWheel cd rt conn fn jid polls

/-- `json.Unmarshal` of a job's return into a `KeyPair`; an absent return is no JSON. -/
def keyPair (ret : Option Json) : Option KeyPair := do
  let m ← structValue (← ret)
  return ⟨← stringField (structField rt "pub" m), ← stringField (structField rt "priv" m)⟩

/-- `GenAcceptKey`. -/
def genAcceptKey (polls : Nat) (minionID : String) (force : Bool) : WireM (Option KeyPair) := do
  let ret ← wheel cd rt conn polls "key.gen_accept" [.str minionID] [("force", .bool force)]
  match keyPair rt ret with
  | none => .fail ("key.gen_accept(" ++ minionID ++ "): unexpected return shape")
  | some pair =>
    if pair.pub = "" ∧ pair.priv = "" then return none
    else if pair.pub = "" ∨ pair.priv = "" then
      .fail ("key.gen_accept(" ++ minionID ++ "): incomplete key pair returned")
    else return some pair

/-- A `map[string]string` field, as the list of its entries; null is the empty string. -/
def stringMapField (values : List Json) : Option (List (String × String)) := do
  match ← objectField values with
  | none => return []
  | some m => m.entries.mapM fun e => match e.2 with
    | .null => some (e.1, "")
    | .str s => some (e.1, s)
    | _ => none

/-- The master keys in the return of `key.master_key_str`. -/
def masterKeys (ret : Json) : Option (List (String × String)) := do
  stringMapField (structField rt "local" (← structValue ret))

/-- The end of `MasterPublicKey`: the one key in the return. -/
def readMasterKey (ret : Option Json) : WireM String := do
  let what := "key.master_key_str"
  match ret with
  | none => .fail (what ++ ": parse return: unexpected end of JSON input")
  | some j =>
    match masterKeys rt j with
    | none => .fail (what ++ ": parse return: " ++ cd.typeError "struct { Local }" j)
    | some [(_, pub)] =>
      if (List.range (pub.length + 1)).any fun n =>
          "PUBLIC KEY".toList.isPrefixOf (pub.toList.drop n) then
        Prog.perform (WireOp.setMasterPub pub)
        return pub
      else .fail (what ++ ": return is not a public key")
    | some keys =>
      .fail (what ++ ": expected one master key, got " ++ toString keys.length)

/-- `MasterPublicKey`. -/
def masterPublicKey (polls : Nat) : WireM String := do
  let cached : String ← Prog.perform WireOp.masterPub
  if cached ≠ "" then return cached
  else readMasterKey cd rt (← wheel cd rt conn polls "key.master_key_str" [] [])

/-- The states of one result of `get_minion_key_state`, with its minion. -/
def keyStateResult (j : Json) : Option (String × List String) := do
  let m ← structValue j
  let minion ← stringField (structField rt "minion" m)
  match (structField rt "key_state" m).getLast? with
  | none | some .null => return (minion, [])
  | some (.arr items) => return (minion, ← items.mapM fun v => match v with
      | .null => some ""
      | .str s => some s
      | _ => none)
  | some _ => none

/-- A struct field: the members of its objects together, `none` when a value has another
type. -/
def nestedStruct (values : List Json) : Option Json :=
  values.foldlM (fun m v => match v, m with
    | .null, m => some m
    | .obj ms, .obj ms' => some (.obj (ms' ++ ms))
    | _, _ => none) (.obj [])

/-- What `KeyStates` reads of its response: the states of every result. -/
def keyStateResults (j : Json) : Option (List (String × List String)) := do
  let ret ← nestedStruct (structField rt "ret" (← structValue j))
  match (structField rt "results" ret).getLast? with
  | none | some .null => return []
  | some (.arr items) => items.mapM (keyStateResult rt)
  | some _ => none

/-- `KeyStates`. -/
def keyStates (minionID : String) : WireM (List String) := do
  let what := "key_state(" ++ minionID ++ ")"
  let r ← orElse what (← (rawPost cd conn (rpc "minions" "get_minion_key_state"
    [("minion_id", .str minionID)])).attempt)
  if !r.isSuccess then .fail (what ++ ": HTTP " ++ toString r.status ++ ": " ++ cd.text r.body)
  else
    orElse what (checkBodyError ⟨r.status, cd.text r.body, (cd.parse r.body).toOption⟩)
    let results ← orElse (what ++ ": parse response")
      (cd.unmarshal "struct { Ret }" (keyStateResults rt) r.body)
    return (results.filter (·.1 = minionID)).flatMap Prod.snd

end client

/-- A controller's calls, those of the client that a preseeded key needs made over
HTTP. -/
def overHttp (cd : Codec) (rt : Runtime) (polls : Nat) :
    (o : Op) → WireM o.Ans
  | .salt conn (.keyStates minionID) => (keyStates cd rt conn minionID).attempt
  | .salt conn (.genAcceptKey minionID force) =>
    (genAcceptKey cd rt conn polls minionID force).attempt
  | .salt conn .masterPublicKey => (masterPublicKey cd rt conn polls).attempt
  | o => Prog.perform (WireOp.controller o)

end SaltOperator
