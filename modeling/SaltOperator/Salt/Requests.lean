import SaltOperator.Salt.RaaSClient

/-!
# The requests of each method

A walk over the client (pkg/salt/client.go): what each of its methods sends. `SaltCall.Requests`
are the bodies a method POSTs to `/rpc`, and `onWire_performs` says that it makes no other calls
to others than its RaaS, apart from the login.
-/

namespace SaltOperator

/-- A call that the client makes without sending a body to RaaS. -/
def WireOp.Local : WireOp → Prop
  | .controller _ => False
  | .post _ _ _ => False
  | _ => True

/-- The requests of a job that is dispatched. -/
def DispatchRequest (fn minionID : String) (body : Json) : Prop :=
  body = RaaSClient.jobToSave (RaaSClient.jobName fn) fn [] ∨
    ∃ jobUUID, body = RaaSClient.jobToRoute jobUUID minionID

/-- The bodies a method POSTs to `/rpc`. -/
def SaltCall.Requests (conn : Connection) (body : Json) : SaltCall → Prop
  | .login => False
  | .listPendingKeys => body = RaaSClient.keysIn "pending"
  | .listAcceptedKeys => body = RaaSClient.keysIn "accepted"
  | .acceptKey minionID => body = RaaSClient.keyToAccept conn minionID
  | .deleteKey minionID => body = RaaSClient.keyToDelete conn minionID
  | .testPing minionID => DispatchRequest "test.ping" minionID body ∨ ∃ jid, body = getJid jid
  | .refreshPillar minionID =>
    DispatchRequest "saltutil.refresh_pillar" minionID body ∨ ∃ jid, body = getJid jid
  | .dispatchHighstate minionID => DispatchRequest "state.highstate" minionID body
  | .pollJID _ jid => body = getJid jid
  | .masterLastSeen => body = rpc "master" "get_master_presence" []
  | .keyStates minionID =>
    body = rpc "minions" "get_minion_key_state" [("minion_id", .str minionID)]
  | .genAcceptKey minionID force =>
    body = wheelToRoute conn "key.gen_accept" [.str minionID] [("force", .bool force)] ∨
      ∃ jid, body = getJid jid
  | .masterPublicKey =>
    body = wheelToRoute conn "key.master_key_str" [] [] ∨ ∃ jid, body = getJid jid

/-- Calls that are in `Φ` whatever a method does: the client's own, and its login. -/
structure Usual (conn : Connection) (Φ : WireOp → Prop) : Prop where
  isLocal : ∀ o : WireOp, o.Local → Φ o
  login : ∀ headers, Φ (.post (conn.baseURL ++ "/account/login") headers (credentials conn))

section walk

variable {cd : Codec} {rt : Runtime} {conn : Connection} {Φ : WireOp → Prop} {α : Type}

theorem orElse_usual {what : String} {r : Except String α} : (orElse what r).Performs Φ := by
  cases r <;> exact trivial

theorem orFail_usual {r : Except String α} : (Prog.orFail id r : WireM α).Performs Φ := by
  cases r <;> exact trivial

theorem sendPost_usual {e e' url : String} {headers : List (String × String)} {body : Json}
    {limit : Nat} (hpost : Φ (.post url headers body)) :
    (sendPost e e' url headers body limit).Performs Φ := by
  refine ⟨hpost, fun r => ?_⟩
  rcases r with e | ⟨status, e | bytes⟩ <;> exact trivial

/-- Looking at a response is no call. -/
theorem pollOnce_usual {fn jid : String} {r : WireResponse} :
    (pollOnce cd rt conn fn jid r).Performs Φ := by
  refine .ite (fun _ => trivial) fun _ => orElse_usual.bind fun fields => ?_
  obtain ⟨ret, err⟩ := fields
  dsimp only
  cases err with
  | some e => exact trivial
  | none =>
    dsimp only
    split
    · exact trivial
    · split
      · exact trivial
      · exact .ite (fun _ => trivial) fun _ => trivial

variable (hu : Usual conn Φ)
include hu

theorem fetchCookies_usual {path : String} : (fetchCookies conn path).Performs Φ := by
  refine ⟨hu.isLocal _ trivial, fun _ => orElse_usual.bind fun _ =>
    ⟨hu.isLocal _ trivial, fun r => ?_⟩⟩
  cases r <;> exact trivial

theorem readLogin_usual {r : WireResponse} : (readLogin cd r).Performs Φ := by
  refine .ite (fun _ => trivial) fun _ => orElse_usual.bind fun loginResp => ?_
  split
  · exact .ite (fun _ => trivial) fun _ =>
      ⟨hu.isLocal _ trivial, fun _ => ⟨hu.isLocal _ trivial, fun _ => trivial⟩⟩
  · exact trivial

theorem login_usual : (login cd conn).Performs Φ := by
  refine ⟨hu.isLocal _ trivial, fun _ => ?_⟩
  refine (fetchCookies_usual hu).attempt.bind fun r => orElse_usual.bind fun status => ?_
  refine ⟨hu.isLocal _ trivial, fun (xsrf : String) => .ite (fun _ => trivial) fun _ => ?_⟩
  refine ⟨hu.isLocal _ trivial, fun built => orElse_usual.bind fun _ => ?_⟩
  refine ⟨hu.isLocal _ trivial, fun _ => ?_⟩
  exact (sendPost_usual (hu.login _)).bind fun r => readLogin_usual hu

section rawPost

variable {fields : Json} (hpost : ∀ headers, Φ (.post (conn.baseURL ++ "/rpc") headers fields))
include hpost

theorem doPost_usual : (doPost cd conn fields).Performs Φ := by
  refine ⟨hu.isLocal _ trivial, fun built => orElse_usual.bind fun _ => ?_⟩
  refine ⟨hu.isLocal _ trivial, fun xsrf => ?_⟩
  refine ⟨hu.isLocal _ trivial, fun jwt => ?_⟩
  refine ⟨hu.isLocal _ trivial, fun _ => ?_⟩
  exact sendPost_usual (hpost _)

theorem rawPost_usual : (rawPost cd conn fields).Performs Φ := by
  refine (doPost_usual hu hpost).bind fun r => .ite (fun _ => trivial) fun _ => ?_
  -- the token has expired: a login, and the same request again
  refine (login_usual hu).attempt.bind fun relogin => orElse_usual.bind fun _ => ?_
  exact doPost_usual hu hpost

theorem posted_usual : (RaaSClient.posted cd conn fields).Performs Φ := by
  refine (rawPost_usual hu hpost).attempt.bind fun r => ?_
  cases r <;> exact trivial

/-- A method that makes one request and reports its body. -/
theorem decoded_usual {message : String} {more : List (String × String)}
    {decode : Posted → Except String α} :
    (RaaSClient.posted cd conn fields >>= fun p => RaaSClient.debugBody message more p >>= fun _ =>
      Prog.orFail id (decode p)).Performs Φ := by
  refine (posted_usual hu hpost).bind fun p => .bind ?_ fun _ => orFail_usual
  cases p with
  | error e => exact trivial
  | ok r => exact .ite (fun _ => ⟨hu.isLocal _ trivial, fun _ => trivial⟩) fun _ => trivial

end rawPost

section wheel

variable (hjid : ∀ jid headers, Φ (.post (conn.baseURL ++ "/rpc") headers (getJid jid)))
include hjid

theorem pollWheel_usual {fn jid : String} {polls : Nat} :
    (pollWheel cd rt conn fn jid polls).Performs Φ := by
  induction polls with
  | zero => exact trivial
  | succ polls ih =>
    refine (rawPost_usual hu (hjid jid)).attempt.bind fun _ => orElse_usual.bind fun _ =>
      pollOnce_usual.bind fun found => ?_
    cases found with
    | some value => exact trivial
    | none =>
      refine ⟨hu.isLocal _ trivial, fun r => ?_⟩
      cases r with
      | some e => exact trivial
      | none => exact ih

theorem wheel_usual {polls : Nat} {fn : String} {args : List Json} {kwarg : List (String × Json)}
    (hroute : ∀ headers, Φ (.post (conn.baseURL ++ "/rpc") headers
      (wheelToRoute conn fn args kwarg))) :
    (wheel cd rt conn polls fn args kwarg).Performs Φ := by
  refine (rawPost_usual hu hroute).attempt.bind fun _ => orElse_usual.bind fun _ =>
    .ite (fun _ => trivial) fun _ => orElse_usual.bind fun fields => ?_
  obtain ⟨jid, err⟩ := fields
  exact .ite (fun _ => trivial) fun _ => ⟨hu.isLocal _ trivial, fun _ => pollWheel_usual hu hjid⟩

theorem waitBoolResult_usual {minionID jid fn : String} {polls : Nat} :
    (RaaSClient.waitBoolResult cd conn minionID jid fn polls).Performs Φ := by
  induction polls with
  | zero => exact trivial
  | succ polls ih =>
    refine .bind (p := RaaSClient.pollJID cd conn minionID jid) (decoded_usual hu (hjid jid))
      fun found => ?_
    cases found with
    | some result => exact .ite (fun _ => trivial) fun _ => trivial
    | none =>
      refine ⟨hu.isLocal _ trivial, fun r => ?_⟩
      cases r with
      | some e => exact trivial
      | none => exact ih

end wheel

theorem dispatch_usual {minionID fn : String} (hreq : ∀ body, DispatchRequest fn minionID body →
    ∀ headers, Φ (.post (conn.baseURL ++ "/rpc") headers body)) :
    (RaaSClient.dispatch cd rt conn minionID fn []).Performs Φ := by
  refine .bind (p := RaaSClient.saveJob cd rt conn _ _ _)
    ((posted_usual hu (hreq _ (.inl rfl))).bind fun _ => orFail_usual) fun jobUUID =>
    ⟨hu.isLocal _ trivial, fun _ => .bind (p := RaaSClient.routeCmd cd rt conn jobUUID minionID)
      ((posted_usual hu (hreq _ (.inr ⟨jobUUID, rfl⟩))).bind fun _ => orFail_usual) fun _ =>
      ⟨hu.isLocal _ trivial, fun _ => trivial⟩⟩

/-- **A method of the client sends its own requests only**: to `/rpc` of its RaaS the bodies of
its requests, and apart from these nothing but a login there. -/
theorem onWire_performs {polls : Nat} {c : SaltCall} (hreq : ∀ body, c.Requests conn body →
    ∀ headers, Φ (.post (conn.baseURL ++ "/rpc") headers body)) :
    (onWire cd rt polls (.salt conn c)).Performs Φ := by
  cases c with
  | login => exact (login_usual hu).attempt
  | listPendingKeys => exact (decoded_usual hu (hreq _ rfl)).attempt
  | listAcceptedKeys => exact (decoded_usual hu (hreq _ rfl)).attempt
  | acceptKey id => exact (decoded_usual hu (hreq _ rfl)).attempt
  | deleteKey id => exact (decoded_usual hu (hreq _ rfl)).attempt
  | pollJID id jid => exact (decoded_usual hu (hreq _ rfl)).attempt
  | dispatchHighstate id => exact (dispatch_usual hu hreq).attempt
  | testPing id =>
    exact Prog.Performs.attempt (.bind (p := RaaSClient.dispatch cd rt conn id _ [])
      (dispatch_usual hu fun body hbody => hreq body (.inl hbody)) fun _ =>
      waitBoolResult_usual hu fun jid => hreq _ (.inr ⟨jid, rfl⟩))
  | refreshPillar id =>
    exact Prog.Performs.attempt (.bind (p := RaaSClient.dispatch cd rt conn id _ [])
      (dispatch_usual hu fun body hbody => hreq body (.inl hbody)) fun _ =>
      waitBoolResult_usual hu fun jid => hreq _ (.inr ⟨jid, rfl⟩))
  | masterLastSeen =>
    refine Prog.Performs.attempt ((rawPost_usual hu (hreq _ rfl)).attempt.bind fun _ =>
      orElse_usual.bind fun _ => .ite (fun _ => trivial) fun _ => orElse_usual.bind fun _ =>
      orElse_usual.bind fun masters => ?_)
    split <;> exact trivial
  | keyStates id =>
    exact Prog.Performs.attempt ((rawPost_usual hu (hreq _ rfl)).attempt.bind fun _ =>
      orElse_usual.bind fun _ => .ite (fun _ => trivial) fun _ => orElse_usual.bind fun _ =>
      orElse_usual.bind fun _ => trivial)
  | genAcceptKey id force =>
    refine Prog.Performs.attempt (.bind (wheel_usual hu (fun jid => hreq _ (.inr ⟨jid, rfl⟩))
      (hreq _ (.inl rfl))) fun ret => ?_)
    split
    · exact trivial
    · exact .ite (fun _ => trivial) fun _ => .ite (fun _ => trivial) fun _ => trivial
  | masterPublicKey =>
    refine Prog.Performs.attempt ⟨hu.isLocal _ trivial, fun (_ : String) =>
      .ite (fun _ => trivial) fun _ => .bind (wheel_usual hu
        (fun jid => hreq _ (.inr ⟨jid, rfl⟩)) (hreq _ (.inl rfl))) fun ret => ?_⟩
    unfold readMasterKey
    split
    · exact trivial
    · split
      · exact trivial
      · exact .ite (fun _ => ⟨hu.isLocal _ trivial, fun _ => trivial⟩) fun _ => trivial
      · exact trivial

end walk

end SaltOperator
