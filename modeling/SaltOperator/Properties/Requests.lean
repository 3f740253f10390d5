import SaltOperator.Lib.Count
import SaltOperator.Cluster.OverHttp

/-!
# Requests to RaaS

What the methods of the RaaS client make RaaS do. A request that is answered 401 was turned
away, because the token has expired; `rawPost` then logs in and sends it once more. A request
with any other answer, and one whose answer was lost, RaaS may have carried out: these are
`rpcs`.

- `dispatch_once`: **a job is saved and routed at most once**, and the JID returned is RaaS's
  own for the job that was saved, routed to the minion.
- `boolJob_answered`: **a ping succeeds only if RaaS says so of the job this ping dispatched.**
- `genAcceptKey_once`: **a key is generated at most once**, and the pair returned is that one.
-/

namespace SaltOperator

/-- The answer to a POST. -/
abbrev PostAnswer := Except String (Int × Except String (List UInt8))

/-- The request was turned away. -/
def refused : PostAnswer → Bool
  | .ok (status, _) => status = 401
  | .error _ => false

/-- A request that RaaS may have carried out, and what came back. -/
abbrev Rpc := Json × PostAnswer

section rpcs

variable {W : Type} (cd : Codec) (conn : Connection)

/-- The RPC a call is, if it was not turned away. -/
def rpcOf : Call WireOp WireOp.Ans W → Option Rpc
  | ⟨_, .post url _ body, a⟩ =>
    if url = conn.baseURL ++ "/rpc" ∧ refused a = false then some (body, a) else none
  | _ => none

/-- The RPCs among the calls, newest first. -/
def rpcs (h : List (Call WireOp WireOp.Ans W)) : List Rpc := h.filterMap (rpcOf conn)

/-- What `doPost` makes of an answer. -/
def rawAnswer : PostAnswer → Except String WireResponse
  | .error e => .error ("POST /rpc: " ++ e)
  | .ok (_, .error e) => .error ("read response body: " ++ e)
  | .ok (status, .ok bytes) => .ok ⟨status, bytes.take (10 * 2 ^ 20)⟩

/-- What a method's decoder is given of an answer. -/
def readAnswer (a : PostAnswer) : Posted := (rawAnswer a).map (RaaSClient.response cd)

/-- What became of the RPCs when a request was sent: it was not, or turned away, or it is the
last of them. -/
inductive Sent (fields : Json) (before after : List Rpc) : Except String WireResponse → Prop where
  | failed (e) : after = before → Sent fields before after (.error e)
  | refused (r) : after = before → r.status = 401 → Sent fields before after (.ok r)
  | taken (a) : after = (fields, a) :: before → SaltOperator.refused a = false →
      Sent fields before after (rawAnswer a)

/-- The call is no RPC. -/
def WireOp.NoRpc : WireOp → Prop
  | .post url _ _ => url ≠ conn.baseURL ++ "/rpc"
  | _ => True

end rpcs

/-! ## `rawPost` -/

section rawPost

variable {W α : Type} {cd : Codec} {rt : Runtime} {conn : Connection} {fields : Json}
  {h : List (Call WireOp WireOp.Ans W)}

theorem rpcs_cons_none {m : Call WireOp WireOp.Ans W} (hm : m.op.NoRpc conn) :
    rpcs conn (m :: h) = rpcs conn h := by
  refine List.filterMap_cons_none ?_
  obtain ⟨w, o, a⟩ := m
  cases o with
  | post url headers body => exact if_neg fun hurl => hm hurl.1
  | _ => rfl

theorem rpcs_post (w : W) (headers : List (String × String)) (a : PostAnswer) :
    rpcs conn ((⟨w, .post (conn.baseURL ++ "/rpc") headers fields, a⟩ :
      Call WireOp WireOp.Ans W) :: h) =
      if refused a then rpcs conn h else (fields, a) :: rpcs conn h := by
  cases ha : refused a with
  | true => exact List.filterMap_cons_none (if_neg fun hr => by simp [ha] at hr)
  | false => exact List.filterMap_cons_some (if_pos ⟨rfl, ha⟩)

theorem rpcs_of_performs {p : WireM α} (hp : p.Performs (WireOp.NoRpc conn)) :
    p.Obeys (fun _ _ => True) (fun _ _ => True) (fun h' _ => rpcs conn h' = rpcs conn h) h := by
  refine hp.obeys (I := fun h' => rpcs conn h' = rpcs conn h) (fun h' o hI ho => ?_) rfl
  exact ⟨trivial, fun w a => (rpcs_cons_none ho).trans hI⟩

/-- Logging in is no RPC. -/
theorem noRpc_usual (conn : Connection) : Usual conn (WireOp.NoRpc conn) where
  isLocal o ho := by
    cases o with
    | controller o => exact ho.elim
    | post url headers body => exact ho.elim
    | _ => exact trivial
  login headers heq := absurd ((String.append_right_inj _).mp heq) (by decide)

variable {before : List Rpc}

/-- A call that is no RPC leaves them as they are. -/
theorem rpcs_step {w : W} {o : WireOp} {a : o.Ans} (ho : o.NoRpc conn) (hb : rpcs conn h = before) :
    rpcs conn ((⟨w, o, a⟩ : Call WireOp WireOp.Ans W) :: h) = before :=
  (rpcs_cons_none ho).trans hb

theorem sendPost_sent {headers : List (String × String)} (hb : rpcs conn h = before) :
    (sendPost "POST /rpc" "read response body" (conn.baseURL ++ "/rpc") headers fields
      (10 * 2 ^ 20)).Obeys (fun _ _ => True) (fun _ _ => True)
      (fun h' r => Sent fields before (rpcs conn h') r) h := by
  refine ⟨trivial, fun w a _ => ?_⟩
  have hafter : rpcs conn ((⟨w, .post (conn.baseURL ++ "/rpc") headers fields, a⟩ :
      Call WireOp WireOp.Ans W) :: h) = _ := rpcs_post w headers a
  rw [hb] at hafter
  cases ha : refused a with
  | false =>
    rw [ha, if_neg Bool.false_ne_true] at hafter
    rcases a with e | ⟨status, e | bytes⟩
    · exact .taken (.error e) hafter ha
    · exact .taken (.ok (status, .error e)) hafter ha
    · exact .taken (.ok (status, .ok bytes)) hafter ha
  | true =>
    rw [ha, if_pos rfl] at hafter
    rcases a with e | ⟨status, e | bytes⟩
    · cases ha
    · exact .failed _ hafter
    · exact .refused _ hafter (of_decide_eq_true ha)

theorem doPost_sent (hb : rpcs conn h = before) :
    (doPost cd conn fields).Obeys (fun _ _ => True) (fun _ _ => True)
      (fun h' r => Sent fields before (rpcs conn h') r) h := by
  refine ⟨trivial, fun w built _ => ?_⟩
  rcases built with e | u
  · exact .failed _ (rpcs_step (o := .newRequest _ _) trivial hb)
  · refine ⟨trivial, fun w₁ xsrf _ => ⟨trivial, fun w₂ jwt _ => ⟨trivial, fun w₃ _ _ =>
      sendPost_sent ?_⟩⟩⟩
    exact rpcs_step (o := .debug _ _) trivial (rpcs_step (o := .jwt) trivial
      (rpcs_step (o := .cookie) trivial (rpcs_step (o := .newRequest _ _) trivial hb)))

/-- **`rawPost` has its request carried out at most once.** It is sent again only if it was
turned away. -/
theorem rawPost_sent (hb : rpcs conn h = before) :
    (rawPost cd conn fields).Obeys (fun _ _ => True) (fun _ _ => True)
      (fun h' r => Sent fields before (rpcs conn h') r) h := by
  refine Prog.Obeys.bind ((doPost_sent hb).mono fun h' r hr => ?_)
  rcases r with e | r
  · exact hr
  · dsimp only
    by_cases h401 : r.status = 401
    · rw [if_neg (not_not.mpr h401)]
      -- it was turned away, so that nothing has been carried out
      have hsame : rpcs conn h' = before := by
        generalize hp : Except.ok r = p at hr
        cases hr with
        | failed e hsame => exact hsame
        | refused r' hsame _ => exact hsame
        | taken a _ ha =>
          rcases a with e | ⟨status, e | bytes⟩
          · cases hp
          · cases hp
          · have hstatus : r.status = status := congrArg WireResponse.status (Except.ok.inj hp)
            exact absurd (hstatus.symm.trans h401) (of_decide_eq_false ha)
      refine Prog.Obeys.bind (Prog.Obeys.attempt ((rpcs_of_performs
        (login_usual (noRpc_usual conn))).mono fun h'' r' hr' => ?_))
      rcases r' with e | u
      · exact .failed _ (hr'.trans hsame)
      · exact doPost_sent (hr'.trans hsame)
    · rw [if_pos h401]
      exact hr

theorem posted_sent (hb : rpcs conn h = before) :
    (RaaSClient.posted cd conn fields).Obeys (fun _ _ => True) (fun _ _ => True)
      (fun h' r => ∃ x, r = .ok (x.map (RaaSClient.response cd)) ∧
        Sent fields before (rpcs conn h') x) h := by
  refine Prog.Obeys.bind (Prog.Obeys.attempt ((rawPost_sent hb).mono fun h' r hr => ?_))
  rcases r with e | r
  · exact ⟨_, rfl, hr⟩
  · exact ⟨_, rfl, hr⟩

/-- A request that was not carried out has no success. -/
theorem Sent.success {after : List Rpc} {x : Except String WireResponse}
    (hs : Sent fields before after x) :
    (after = before ∧ ∀ r, x = .ok r → r.isSuccess = false) ∨
      ∃ a, after = (fields, a) :: before ∧ x = rawAnswer a := by
  cases hs with
  | failed e hsame => exact .inl ⟨hsame, fun r hr => by cases hr⟩
  | refused r hsame h401 =>
    refine .inl ⟨hsame, fun r' hr' => ?_⟩
    obtain rfl := Except.ok.inj hr'
    unfold WireResponse.isSuccess
    rw [h401]
    decide
  | taken a htaken _ => exact .inr ⟨a, htaken, rfl⟩

theorem Sent.body {after : List Rpc} {x : Except String WireResponse}
    (hs : Sent fields before after x) (what : String) :
    (after = before ∧ ∃ e, Posted.body what (x.map (RaaSClient.response cd)) = .error e) ∨
      ∃ a, after = (fields, a) :: before ∧ x.map (RaaSClient.response cd) = readAnswer cd a := by
  rcases hs.success with ⟨hsame, hno⟩ | ⟨a, htaken, rfl⟩
  · refine .inl ⟨hsame, ?_⟩
    rcases x with e | r
    · exact ⟨_, rfl⟩
    · exact ⟨_, if_neg (ne_true_of_eq_false (hno r rfl))⟩
  · exact .inr ⟨a, htaken, rfl⟩

end rawPost

namespace Sample

/-- Bodies of one byte. -/
def bodies : Codec where
  marshal _ := ""
  parse
    | [1] => .ok (.obj [("jwt", .str "token")])
    | [2] => .ok (.obj [("ret", .str "3f0d")])
    | [3] => .ok (.obj [("ret", .str "20260101")])
    | [4] => .ok (.obj [("ret", .obj [
        ("web", .obj [("return", .bool true)]),
        ("master", .obj [("success", .bool true), ("return", .obj
          [("pub", .str "public"), ("priv", .str "private")])])])])
    | _ => .ok (.obj [])
  typeError _ _ := "cannot unmarshal"
  text _ := ""
  display _ := ""

/-- The body RaaS answers a request with. -/
def answerBody (url : String) (body : Json) : List UInt8 :=
  if url = "https://raas/account/login" then [1]
  else if body.nestedString ["method"] = "save_job" then [2]
  else if body.nestedString ["method"] = "route_cmd" then [3]
  else [4]

/-- RaaS, for whom the client's token has expired: the first request is turned away. -/
def expired (n : Nat) : (o : WireOp) → o.Ans
  | .controller o => answer {} o
  | .debug _ _ => ()
  | .newRequest _ _ => .ok ()
  | .get _ _ => .ok 200
  | .post url _ body => .ok (if n < 5 then 401 else 200, .ok (answerBody url body))
  | .cookie => "xsrf"
  | .jwt => "token"
  | .setJwt _ => ()
  | .masterPub => ""
  | .setMasterPub _ => ()
  | .wait _ => none

/-- The requests with a body. -/
def isPost : WireOp → Bool
  | .post _ _ _ => true
  | _ => false

/-- A run of a method against that RaaS. -/
theorem exists_makes {α : Type} (p : WireM α) (r : Except String α) (posts : Nat)
    (hr : (p.exec expired 0).2 = r) (hposts : (p.exec expired 0).1.countP isPost = posts) :
    ∃ h' : List (Call WireOp WireOp.Ans Unit), p.Makes [] r h' ∧
      h'.countP (fun m => isPost m.op) = posts := by
  obtain ⟨newer, hm, hops⟩ := Prog.makes_exec () expired 0 p []
  rw [hr, List.append_nil] at hm
  refine ⟨newer, hm, ?_⟩
  rw [← hposts, ← hops, List.countP_reverse, List.countP_map]
  rfl

end Sample

/-! ## Jobs -/

/-- How far a job got: it was not saved, or not routed, or it was both, as the job RaaS saved;
then the result is what RaaS said of it. -/
inductive JobRouted (cd : Codec) (rt : Runtime) (fn minionID : String)
    (kwarg : List (String × Json)) : List Rpc → Except String String → Prop where
  | none (e) : JobRouted cd rt fn minionID kwarg [] (.error e)
  | saved (a e) : JobRouted cd rt fn minionID kwarg
      [(RaaSClient.jobToSave (RaaSClient.jobName fn) fn kwarg, a)] (.error e)
  | routed (a jobUUID b) : saveJob rt fn (readAnswer cd a) = .ok jobUUID →
      JobRouted cd rt fn minionID kwarg [(RaaSClient.jobToRoute jobUUID minionID, b),
        (RaaSClient.jobToSave (RaaSClient.jobName fn) fn kwarg, a)]
        (routeCmd rt minionID (readAnswer cd b))

section jobs

variable {W : Type} {cd : Codec} {rt : Runtime} {conn : Connection} {fn minionID : String}
  {kwarg : List (String × Json)} {h h' : List (Call WireOp WireOp.Ans W)} {before : List Rpc}

theorem retString_error {what missing e : String} {p : Posted} (hp : p.body what = .error e) :
    retString rt what missing p = .error e := by
  unfold retString
  rw [hp]
  rfl

theorem dispatch_sent (hb : rpcs conn h = before) :
    (RaaSClient.dispatch cd rt conn minionID fn kwarg).Obeys (fun _ _ => True) (fun _ _ => True)
      (fun h' r => ∃ made, rpcs conn h' = made ++ before ∧
        JobRouted cd rt fn minionID kwarg made r) h := by
  refine Prog.Obeys.bind (p := RaaSClient.saveJob cd rt conn _ _ _)
    (Prog.Obeys.bind ((posted_sent hb).mono fun h₁ r hr => ?_))
  obtain ⟨x, rfl, hsent⟩ := hr
  dsimp only
  rcases hsent.body ("save_job(" ++ fn ++ ")") with ⟨hsame, e, he⟩ | ⟨a, htaken, hread⟩
  · have hfail : saveJob rt fn (x.map (RaaSClient.response cd)) = .error e := retString_error he
    rw [hfail]
    exact ⟨[], hsame, .none e⟩
  · rw [hread]
    cases hsaved : saveJob rt fn (readAnswer cd a) with
    | error e => exact ⟨[_], htaken, .saved a e⟩
    | ok jobUUID =>
      refine ⟨trivial, fun w _ _ => ?_⟩
      refine Prog.Obeys.bind (p := RaaSClient.routeCmd cd rt conn jobUUID minionID)
        (Prog.Obeys.bind ((posted_sent (rpcs_step (o := .debug _ _) trivial htaken)).mono
          fun h₂ r hr => ?_))
      obtain ⟨y, rfl, hsent⟩ := hr
      dsimp only
      rcases hsent.body ("route_cmd(" ++ minionID ++ ")") with ⟨hsame, e, he⟩ | ⟨b, htaken, hread⟩
      · have hfail : routeCmd rt minionID (y.map (RaaSClient.response cd)) = .error e :=
          retString_error he
        rw [hfail]
        exact ⟨[_], hsame, .saved a e⟩
      · rw [hread]
        have hdone : JobRouted cd rt fn minionID kwarg _ _ := .routed a jobUUID b hsaved
        cases hrouted : routeCmd rt minionID (readAnswer cd b) with
        | error e =>
          rw [hrouted] at hdone
          exact ⟨[_, _], htaken, hdone⟩
        | ok jid =>
          rw [hrouted] at hdone
          exact ⟨trivial, fun _ _ _ => ⟨[_, _], rpcs_step (o := .debug _ _) trivial htaken, hdone⟩⟩

/-- **A job is saved and routed at most once.** Whatever RaaS answers, and however often the
token expires: among the RPCs of a dispatch the job is saved once at most, it is routed once at
most and only as the job that RaaS saved, to the minion; and the JID is RaaS's own. -/
theorem dispatch_once {r : Except String String}
    (hm : (RaaSClient.dispatch cd rt conn minionID fn kwarg).Makes h r h') :
    ∃ made, rpcs conn h' = made ++ rpcs conn h ∧ JobRouted cd rt fn minionID kwarg made r :=
  hm.ends (dispatch_sent rfl)

/-- The token has expired: four requests with a body, of which two are carried out. -/
theorem dispatch_once_expired :
    ∃ h' : List (Call WireOp WireOp.Ans Unit),
      (RaaSClient.dispatch Sample.bodies Sample.runtime (Sample.connAt "https://raas") "web"
        "state.highstate" []).Makes [] (.ok "20260101") h' ∧
      h'.countP (fun m => Sample.isPost m.op) = 4 ∧
      ∃ made, rpcs (Sample.connAt "https://raas") h' = made ++ [] ∧
        JobRouted Sample.bodies Sample.runtime "state.highstate" "web" [] made
          (.ok "20260101") := by
  obtain ⟨h', hm, hposts⟩ := Sample.exists_makes (RaaSClient.dispatch Sample.bodies Sample.runtime
    (Sample.connAt "https://raas") "web" "state.highstate" [])
      (.ok "20260101") 4 (by decide +kernel)
    (by decide +kernel)
  exact ⟨h', hm, hposts, dispatch_once hm⟩

/-! ## Waiting for a job -/

/-- RaaS was asked for the job until it had a result, which is the bool returned. -/
def Awaited (cd : Codec) (minionID jid : String) (made : List Rpc) (b : Bool) : Prop :=
  ∃ a earlier result, made = (getJid jid, a) :: earlier ∧
    pollJID minionID jid (readAnswer cd a) = .ok (some result) ∧ result.boolReturn = (b, true) ∧
    ∀ x ∈ earlier, x.1 = getJid jid ∧ pollJID minionID jid (readAnswer cd x.2) = .ok none

theorem debugBody_rpcs {message : String} {more : List (String × String)} {p : Posted}
    (hb : rpcs conn h = before) :
    (RaaSClient.debugBody message more p).Obeys (fun _ _ => True) (fun _ _ => True)
      (fun h' r => r = .ok () ∧ rpcs conn h' = before) h := by
  cases p with
  | error e => exact ⟨rfl, hb⟩
  | ok r =>
    show Prog.Obeys _ _ _ (if r.isSuccess then RaaSClient.debug _ _ else pure ()) h
    by_cases hr : r.isSuccess = true
    · rw [if_pos hr]
      exact ⟨trivial, fun _ _ _ => ⟨rfl, rpcs_step (o := .debug _ _) trivial hb⟩⟩
    · rw [if_neg hr]
      exact ⟨rfl, hb⟩

/-- A method that makes one request has no success without it. -/
theorem decoded_sent {α : Type} {fields : Json} {message what : String}
    {more : List (String × String)} {decode : Posted → Except String α}
    (hdecode : ∀ p e, Posted.body what p = .error e → ∃ e', decode p = .error e')
    (hb : rpcs conn h = before) :
    (RaaSClient.posted cd conn fields >>= fun p => RaaSClient.debugBody message more p >>= fun _ =>
      Prog.orFail id (decode p)).Obeys (fun _ _ => True) (fun _ _ => True)
      (fun h' r => (∃ e, r = .error e ∧ rpcs conn h' = before) ∨
        ∃ a, rpcs conn h' = (fields, a) :: before ∧ r = decode (readAnswer cd a)) h := by
  refine Prog.Obeys.bind ((posted_sent hb).mono fun h₁ r hr => ?_)
  obtain ⟨x, rfl, hsent⟩ := hr
  refine Prog.Obeys.bind ((debugBody_rpcs (Eq.refl (rpcs conn h₁))).mono fun h₂ r hr => ?_)
  obtain ⟨rfl, hsame⟩ := hr
  dsimp only
  rw [← hsame] at hsent
  rcases hsent.body what with ⟨hno, e, he⟩ | ⟨a, htaken, hread⟩
  · obtain ⟨e', he'⟩ := hdecode _ e he
    rw [he']
    exact .inl ⟨e', rfl, hno⟩
  · rw [hread]
    cases hd : decode (readAnswer cd a) with
    | error e => exact .inr ⟨a, htaken, hd.symm⟩
    | ok v => exact .inr ⟨a, htaken, hd.symm⟩

theorem pollJID_error {jid e : String} {p : Posted}
    (hp : p.body ("poll_jid(" ++ jid ++ ")") = .error e) : pollJID minionID jid p = .error e := by
  show (Posted.body ("poll_jid(" ++ jid ++ ")") p >>= _) = _
  rw [hp]
  rfl

/-- The loop of `waitBoolResult`. -/
theorem waitBoolResult_sent {jid : String} {polls : Nat} (hb : rpcs conn h = before) :
    (RaaSClient.waitBoolResult cd conn minionID jid fn polls).Obeys (fun _ _ => True)
      (fun _ _ => True) (fun h' r => ∃ made, rpcs conn h' = made ++ before ∧
        ∀ b, r = .ok b → Awaited cd minionID jid made b) h := by
  induction polls generalizing h before with
  | zero => exact ⟨[], hb, fun b hb => by cases hb⟩
  | succ polls ih =>
    refine Prog.Obeys.bind (p := RaaSClient.pollJID cd conn minionID jid)
      ((decoded_sent (fun p e he => ⟨e, pollJID_error he⟩) hb).mono fun h₁ r hr => ?_)
    rcases hr with ⟨e, rfl, hsame⟩ | ⟨a, htaken, rfl⟩
    · exact ⟨[], hsame, fun b hb => by cases hb⟩
    · cases hpoll : pollJID minionID jid (readAnswer cd a) with
      | error e => exact ⟨[_], htaken, fun b hb => by cases hb⟩
      | ok found =>
        cases found with
        | some result =>
          dsimp only
          by_cases hbool : result.boolReturn.2 = true
          · rw [if_pos hbool]
            refine ⟨[_], htaken, fun b hb => ⟨a, [], result, rfl, hpoll, ?_, ?_⟩⟩
            · exact Prod.ext (Except.ok.inj hb) hbool
            · exact fun x hx => absurd hx List.not_mem_nil
          · rw [if_neg hbool]
            exact ⟨[_], htaken, fun b hb => by cases hb⟩
        | none =>
          refine ⟨trivial, fun w waited _ => ?_⟩
          have hstep : rpcs conn ((⟨w, .wait (5 * Go.second), waited⟩ :
              Call WireOp WireOp.Ans W) :: h₁) = _ := rpcs_step (o := .wait _) trivial htaken
          cases waited with
          | some e => exact ⟨[_], hstep, fun b hb => by cases hb⟩
          | none =>
            -- the looks that found no result are the first ones
            refine (ih hstep).mono fun h₂ r hr => ?_
            obtain ⟨made, hmade, hok⟩ := hr
            refine ⟨made ++ [(getJid jid, a)], by rw [hmade]; simp, fun b hb => ?_⟩
            obtain ⟨a', earlier, result, rfl, hres, hbool, hall⟩ := hok b hb
            refine ⟨a', earlier ++ [(getJid jid, a)], result, rfl, hres, hbool, fun x hx => ?_⟩
            rcases List.mem_append.mp hx with hx | hx
            · exact hall x hx
            · rw [List.mem_singleton.mp hx]
              exact ⟨rfl, hpoll⟩

/-- The job was saved, routed to the minion and awaited, and the bool is its return. -/
def Answered (cd : Codec) (rt : Runtime) (fn minionID : String) (before after : List Rpc)
    (b : Bool) : Prop :=
  ∃ saved jobUUID routed jid made,
    after = made ++ (RaaSClient.jobToRoute jobUUID minionID, routed) ::
      (RaaSClient.jobToSave (RaaSClient.jobName fn) fn [], saved) :: before ∧
    saveJob rt fn (readAnswer cd saved) = .ok jobUUID ∧
    routeCmd rt minionID (readAnswer cd routed) = .ok jid ∧ Awaited cd minionID jid made b

theorem boolJob_sent {polls : Nat} (hb : rpcs conn h = before) :
    (RaaSClient.boolJob cd rt conn polls fn minionID).Obeys (fun _ _ => True) (fun _ _ => True)
      (fun h' r => ∀ b, r = .ok b → Answered cd rt fn minionID before (rpcs conn h') b) h := by
  refine Prog.Obeys.bind ((dispatch_sent hb).mono fun h₁ r hr => ?_)
  obtain ⟨made, hmade, hd⟩ := hr
  rcases r with e | jid
  · exact fun b hb => by cases hb
  · generalize hr : Except.ok jid = r at hd
    cases hd with
    | none e => cases hr
    | saved a e => cases hr
    | routed a jobUUID a' hsaved =>
      rw [← hr]
      refine (waitBoolResult_sent hmade).mono fun h₂ r' hr' => ?_
      intro b hb
      obtain ⟨polled, hpolled, hok⟩ := hr'
      exact ⟨a, jobUUID, a', jid, polled, hpolled, hsaved, hr.symm, hok b hb⟩

/-- **A ping succeeds only if RaaS says so of the job it dispatched.** A bool that `TestPing` or
`RefreshPillar` returns is the return, on this minion, of the job that this very call had saved
and routed to it, the first one RaaS reported. -/
theorem boolJob_answered {polls : Nat} {b : Bool}
    (hm : (RaaSClient.boolJob cd rt conn polls fn minionID).Makes h (.ok b) h') :
    Answered cd rt fn minionID (rpcs conn h) (rpcs conn h') b :=
  hm.ends (boolJob_sent rfl) b rfl

/-- A ping that is answered, though the token has expired. -/
theorem boolJob_answered_expired :
    ∃ h' : List (Call WireOp WireOp.Ans Unit),
      (RaaSClient.testPing Sample.bodies Sample.runtime (Sample.connAt "https://raas") 3
        "web").Makes [] (.ok true) h' ∧
      Answered Sample.bodies Sample.runtime "test.ping" "web" []
        (rpcs (Sample.connAt "https://raas") h') true := by
  obtain ⟨h', hm, -⟩ := Sample.exists_makes (RaaSClient.testPing Sample.bodies Sample.runtime
    (Sample.connAt "https://raas") 3 "web") (.ok true) 5 (by decide +kernel) (by decide +kernel)
  exact ⟨h', hm, boolJob_answered hm⟩

/-! ## Wheel jobs -/

/-- The JID that RaaS gave a wheel job. -/
def wheelJid (cd : Codec) (rt : Runtime) (a : PostAnswer) : Option String :=
  match rawAnswer a with
  | .error _ => none
  | .ok r =>
    if !r.isSuccess then none
    else
      match cd.unmarshal "struct { Ret; Error }" (routedFields rt) r.body with
      | .ok (jid, err) => if err.isSome ∨ jid = "" then none else some jid
      | .error _ => none

/-- RaaS was asked for the wheel job until it had a return, which is the value. -/
def WheelAwaited (cd : Codec) (rt : Runtime) (conn : Connection) (fn jid : String) (made : List Rpc)
    (value : Option Json) : Prop :=
  ∃ a earlier r, made = (getJid jid, a) :: earlier ∧ rawAnswer a = .ok r ∧
    pollOnce cd rt conn fn jid r = .ret (some value)

/-- Looking at a response either fails or says what was found. -/
theorem pollOnce_cases (fn jid : String) (r : WireResponse) :
    (∃ e, pollOnce cd rt conn fn jid r = .fail e) ∨
      ∃ found, pollOnce cd rt conn fn jid r = .ret found := by
  have hno : (pollOnce cd rt conn fn jid r).Performs fun _ => False := pollOnce_usual
  cases hp : pollOnce cd rt conn fn jid r with
  | ret found => exact .inr ⟨found, rfl⟩
  | fail e => exact .inl ⟨e, rfl⟩
  | call o k =>
    rw [hp] at hno
    exact hno.1.elim

theorem pollWheel_sent {jid : String} {polls : Nat} (hb : rpcs conn h = before) :
    (pollWheel cd rt conn fn jid polls).Obeys (fun _ _ => True) (fun _ _ => True)
      (fun h' r => ∃ made, rpcs conn h' = made ++ before ∧ (∀ x ∈ made, x.1 = getJid jid) ∧
        ∀ value, r = .ok value → WheelAwaited cd rt conn fn jid made value) h := by
  induction polls generalizing h before with
  | zero => exact ⟨[], hb, fun x hx => absurd hx List.not_mem_nil, fun v hv => by cases hv⟩
  | succ polls ih =>
    refine Prog.Obeys.bind (Prog.Obeys.attempt ((rawPost_sent hb).mono fun h₁ r hr => ?_))
    have hend (e : String) : ∃ made, rpcs conn h₁ = made ++ before ∧
        (∀ x ∈ made, x.1 = getJid jid) ∧
        ∀ value, (.error e : Except String (Option Json)) = .ok value →
          WheelAwaited cd rt conn fn jid made value := by
      rcases hr.success with ⟨hsame, -⟩ | ⟨a, htaken, -⟩
      · exact ⟨[], hsame, fun x hx => absurd hx List.not_mem_nil, fun v hv => by cases hv⟩
      · refine ⟨[_], htaken, fun x hx => ?_, fun v hv => by cases hv⟩
        rw [List.mem_singleton.mp hx]
    rcases r with e | r
    · exact hend _
    · refine Prog.Obeys.bind (p := pollOnce cd rt conn fn jid r) ?_
      rcases pollOnce_cases fn jid r with ⟨e, hpoll⟩ | ⟨found, hpoll⟩
      · rw [hpoll]
        exact hend e
      · -- a response with a return is one to a request that was carried out
        obtain ⟨a, htaken, ha⟩ : ∃ a, rpcs conn h₁ = (getJid jid, a) :: before ∧
            .ok r = rawAnswer a := by
          rcases hr.success with ⟨-, hno⟩ | htaken
          · have hfail : ∃ e, pollOnce cd rt conn fn jid r = .fail e := by
              unfold pollOnce
              exact ⟨_, if_pos (by rw [hno r rfl]; rfl)⟩
            obtain ⟨e, he⟩ := hfail
            rw [hpoll] at he
            cases he
          · exact htaken
        have hone : ∀ x ∈ [(getJid jid, a)], x.1 = getJid jid := by
          intro x hx
          rw [List.mem_singleton.mp hx]
        rw [hpoll]
        cases found with
        | some value =>
          refine ⟨[_], htaken, hone, fun v hv => ⟨a, [], r, rfl, ha.symm, ?_⟩⟩
          rw [hpoll, ← Except.ok.inj hv]
        | none =>
          refine ⟨trivial, fun w waited _ => ?_⟩
          have hstep : rpcs conn ((⟨w, .wait (2 * Go.second), waited⟩ :
              Call WireOp WireOp.Ans W) :: h₁) = _ := rpcs_step (o := .wait _) trivial htaken
          cases waited with
          | some e => exact ⟨[_], hstep, hone, fun v hv => by cases hv⟩
          | none =>
            refine (ih hstep).mono fun h₂ r' hr' => ?_
            obtain ⟨made, hmade, hall, hok⟩ := hr'
            refine ⟨made ++ [(getJid jid, a)], by rw [hmade]; simp, fun x hx => ?_, fun v hv => ?_⟩
            · rcases List.mem_append.mp hx with hx | hx
              · exact hall x hx
              · exact hone x hx
            · obtain ⟨a', earlier, r, rfl, hr⟩ := hok v hv
              exact ⟨a', earlier ++ [(getJid jid, a)], r, rfl, hr⟩

/-- What became of a wheel job: it was not routed, or once, and then RaaS was asked for the job
it had made of it; a value is its return. -/
def WheelRouted (cd : Codec) (rt : Runtime) (conn : Connection) (fn : String) (route : Json)
    (before after : List Rpc) (r : Except String (Option Json)) : Prop :=
  (after = before ∧ ∃ e, r = .error e) ∨
    ∃ a made, after = made ++ (route, a) :: before ∧
      (∀ x ∈ made, ∃ jid, wheelJid cd rt a = some jid ∧ x.1 = getJid jid) ∧
      ∀ value, r = .ok value →
        ∃ jid, wheelJid cd rt a = some jid ∧ WheelAwaited cd rt conn fn jid made value

theorem wheel_sent {polls : Nat} {args : List Json} (hb : rpcs conn h = before) :
    (wheel cd rt conn polls fn args kwarg).Obeys (fun _ _ => True) (fun _ _ => True)
      (fun h' r => WheelRouted cd rt conn fn (wheelToRoute conn fn args kwarg) before
        (rpcs conn h') r) h := by
  refine Prog.Obeys.bind (Prog.Obeys.attempt ((rawPost_sent hb).mono fun h₁ r hr => ?_))
  -- an error before the first look at the job
  have hend (e : String) : WheelRouted cd rt conn fn (wheelToRoute conn fn args kwarg) before
      (rpcs conn h₁) (.error e) := by
    rcases hr.success with ⟨hsame, -⟩ | ⟨a, htaken, -⟩
    · exact .inl ⟨hsame, e, rfl⟩
    · exact .inr ⟨a, [], htaken, fun x hx => absurd hx List.not_mem_nil, fun v hv => by cases hv⟩
  rcases r with e | r
  · exact hend _
  · show Prog.Obeys _ _ _ (if (!r.isSuccess) = true then _ else _) h₁
    by_cases hsucc : r.isSuccess = true
    · rw [if_neg (by rw [hsucc]; decide)]
      cases hfields : cd.unmarshal "struct { Ret; Error }" (routedFields rt) r.body with
      | error e => exact hend _
      | ok fields =>
        obtain ⟨jid, err⟩ := fields
        show Prog.Obeys _ _ _ (if err.isSome = true ∨ jid = "" then _ else _) h₁
        by_cases hbad : err.isSome = true ∨ jid = ""
        · rw [if_pos hbad]
          exact hend _
        · rw [if_neg hbad]
          obtain ⟨a, htaken, ha⟩ :
            ∃ a, rpcs conn h₁ = (wheelToRoute conn fn args kwarg, a) :: before ∧
              .ok r = rawAnswer a := by
            rcases hr.success with ⟨-, hno⟩ | htaken
            · rw [hno r rfl] at hsucc
              cases hsucc
            · exact htaken
          have hjid : wheelJid cd rt a = some jid := by
            unfold wheelJid
            rw [← ha]
            dsimp only
            rw [if_neg (by rw [hsucc]; decide), hfields]
            exact if_neg hbad
          refine ⟨trivial, fun w _ _ => (pollWheel_sent (rpcs_step (o := .debug _ _) trivial
            htaken)).mono fun h₂ r' hr' => ?_⟩
          obtain ⟨made, hmade, hall, hok⟩ := hr'
          refine .inr ⟨a, made, hmade, fun x hx => ⟨jid, hjid, hall x hx⟩, fun value hv => ?_⟩
          exact ⟨jid, hjid, hok value hv⟩
    · rw [if_pos (by rw [Bool.eq_false_of_not_eq_true hsucc]; rfl)]
      exact hend _

/-- What became of the generation of a key: it was not routed, or once, and then RaaS was asked
for that job; a pair is its return. -/
def Generated (cd : Codec) (rt : Runtime) (conn : Connection) (minionID : String) (force : Bool)
    (before after : List Rpc) (r : Except String (Option KeyPair)) : Prop :=
  (after = before ∧ ∃ e, r = .error e) ∨
    ∃ a made, after = made ++
        (wheelToRoute conn "key.gen_accept" [.str minionID] [("force", .bool force)], a) :: before ∧
      (∀ x ∈ made, ∃ jid, wheelJid cd rt a = some jid ∧ x.1 = getJid jid) ∧
      ∀ pair, r = .ok (some pair) → ∃ jid value, wheelJid cd rt a = some jid ∧
        WheelAwaited cd rt conn "key.gen_accept" jid made value ∧ keyPair rt value = some pair

theorem genAcceptKey_sent {polls : Nat} {force : Bool} (hb : rpcs conn h = before) :
    (genAcceptKey cd rt conn polls minionID force).Obeys (fun _ _ => True) (fun _ _ => True)
      (fun h' r => Generated cd rt conn minionID force before (rpcs conn h') r) h := by
  refine Prog.Obeys.bind ((wheel_sent hb).mono fun h₁ r hr => ?_)
  rcases hr with ⟨hsame, e, rfl⟩ | ⟨a, made, hmade, hall, hok⟩
  · exact .inl ⟨hsame, e, rfl⟩
  · have hnone {r : Except String (Option KeyPair)} (hr : ∀ pair, r ≠ .ok (some pair)) :
        Generated cd rt conn minionID force before (rpcs conn h₁) r :=
      .inr ⟨a, made, hmade, hall, fun pair hp => absurd hp (hr pair)⟩
    rcases r with e | value
    · exact hnone fun pair hp => by cases hp
    · obtain ⟨jid, hjid, hwait⟩ := hok value rfl
      dsimp only
      cases hpair : keyPair rt value with
      | none => exact hnone fun pair hp => by cases hp
      | some pair =>
        dsimp only
        split
        · exact hnone fun pair hp => by cases hp
        · split
          · exact hnone fun pair hp => by cases hp
          · refine .inr ⟨a, made, hmade, hall, fun pair' hp => ⟨jid, value, hjid, hwait, ?_⟩⟩
            rw [hpair]
            exact Except.ok.inj hp

/-- **A key is generated at most once.** Whatever RaaS answers and however often the token
expires, a call of `GenAcceptKey` has the generation routed once at most, then asks for that job
only, and the pair it returns is the job's return. -/
theorem genAcceptKey_once {polls : Nat} {force : Bool} {r : Except String (Option KeyPair)}
    (hm : (genAcceptKey cd rt conn polls minionID force).Makes h r h') :
    Generated cd rt conn minionID force (rpcs conn h) (rpcs conn h') r :=
  hm.ends (genAcceptKey_sent rfl)

/-- A key is generated, though the token has expired. -/
theorem genAcceptKey_once_expired :
    ∃ h' : List (Call WireOp WireOp.Ans Unit),
      (genAcceptKey Sample.bodies Sample.runtime
        (Sample.connAt "https://raas") 3 "web" false).Makes []
        (.ok (some ⟨"public", "private"⟩)) h' ∧
      Generated Sample.bodies Sample.runtime (Sample.connAt "https://raas") "web" false []
        (rpcs (Sample.connAt "https://raas") h') (.ok (some ⟨"public", "private"⟩)) := by
  obtain ⟨h', hm, -⟩ := Sample.exists_makes (genAcceptKey Sample.bodies Sample.runtime
    (Sample.connAt "https://raas") 3 "web" false) (.ok (some ⟨"public", "private"⟩)) 4
    (by decide +kernel) (by decide +kernel)
  exact ⟨h', hm, genAcceptKey_once hm⟩

end jobs

end SaltOperator
