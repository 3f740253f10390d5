import SaltOperator.Properties.Requests
import SaltOperator.Cluster.PassRules

/-!
# One change of RaaS a pass

A pass of the reconciler changes at most one thing on RaaS: it accepts, generates or deletes one
key, or has one highstate run (`reconcile_changes`). Everything after that is left to the next
pass, which finds on the VM what this one has recorded.

`pass_changes_once`: **over HTTP, RaaS carries out at most one such request in a pass**, whatever
it answers and however often a token expires.
-/

namespace SaltOperator

/-- The calls that change something on RaaS. -/
def Op.changes : Op → Nat
  | .salt _ (.acceptKey _) => 1
  | .salt _ (.deleteKey _) => 1
  | .salt _ (.genAcceptKey _ _) => 1
  | .salt _ (.dispatchHighstate _) => 1
  | _ => 0

section walk

variable {rt : Runtime} {d : Default} {vm : VirtualMachine} {conn : Connection}
  {cfg : SaltKeyConfig} {minionID : String} {requeueAfter : Duration} {α ε : Type} {n : Nat}

theorem Prog.Quiet.unchanging {p : Prog Op Op.Ans ε α} (hp : p.Quiet) :
    p.Performs fun o => o.changes = 0 := by
  refine hp.performs.mono fun o ho => ?_
  cases o with
  | salt conn c => cases c <;> first | rfl | cases ho
  | _ => rfl

theorem patchAnnotations_unchanging {additions : List (String × String)} :
    (patchAnnotations vm additions).Performs fun o => o.changes = 0 := by
  refine ⟨rfl, fun a => ?_⟩
  cases a <;> exact trivial

theorem ensureFinalizer_unchanging {wrap : String → String} :
    (ensureFinalizer wrap vm).Performs fun o => o.changes = 0 := by
  refine .ite (fun _ => trivial) fun _ => ⟨rfl, fun a => ?_⟩
  cases a <;> exact trivial

theorem clearPreseedKey_unchanging {trigger : String} :
    (clearPreseedKey vm trigger).Performs fun o => o.changes = 0 := by
  refine .ite (fun _ => trivial) fun _ => .bind (p := clearBootstrapKey vm) ⟨rfl, fun a => ?_⟩
    fun _ => patchAnnotations_unchanging.bind fun _ => ⟨rfl, fun _ => ⟨rfl, fun _ => trivial⟩⟩
  rcases a with e | u
  · cases e <;> exact trivial
  · exact trivial

/-- A patch, and a report of it. -/
theorem patchReport_unchanging {additions : List (String × String)} {type : EventType}
    {reason : String} {message : VirtualMachine → String} {res : Result} :
    (patchAnnotations vm additions >>= fun m => recordEvent m type reason (message m) >>= fun _ =>
      pure res).Performs fun o => o.changes = 0 :=
  patchAnnotations_unchanging.bind fun _ => ⟨rfl, fun _ => trivial⟩

/-! ## Keys -/

theorem runAcceptKey_changes {acceptTimeout : Duration} :
    (runAcceptKey rt vm conn acceptTimeout requeueAfter).AtMost Op.changes 1 := by
  refine ⟨Nat.zero_le _, fun r => ?_⟩
  rcases r with e | pendingKeys
  · exact trivial
  · refine .ite (fun _ => ⟨Nat.zero_le _, fun _ => ⟨le_rfl, fun r => ?_⟩⟩) fun _ =>
      Prog.Performs.atMost
      ⟨rfl, fun now => .ite (fun _ => ⟨rfl, fun _ => trivial⟩) fun _ => .ite (fun _ => trivial)
        fun _ => ⟨rfl, fun _ => patchReport_unchanging⟩⟩
    -- the key is accepted: what follows is the record of it
    rcases r with e | u
    · exact trivial
    · exact Prog.Performs.atMost ⟨rfl, fun _ => patchAnnotations_unchanging.bind fun _ =>
        ensureFinalizer_unchanging.bind fun _ => ⟨rfl, fun _ => trivial⟩⟩

theorem writeBootstrapSecret_unchanging {pair : KeyPair} {masterPub : String} :
    (writeBootstrapSecret vm minionID pair masterPub).Performs fun o => o.changes = 0 := by
  refine ⟨rfl, fun a => ?_⟩
  rcases a with e | u
  · cases e with
    | alreadyExists e =>
      refine ⟨rfl, fun a => ?_⟩
      cases a <;> exact trivial
    | _ => exact trivial
  · exact trivial

theorem generatePreseedKey_changes :
    (generatePreseedKey vm conn minionID requeueAfter).AtMost Op.changes 1 := by
  refine ⟨Nat.zero_le _, fun r => ?_⟩
  rcases r with e | states
  · exact trivial
  · refine Prog.Performs.bind_atMost (p := warnForeignKey vm minionID states)
      (.ite (fun _ => ⟨rfl, fun _ => trivial⟩) fun _ => trivial) fun _ => ⟨le_rfl, fun r => ?_⟩
    rcases r with e | _ | pair
    · exact trivial
    · exact trivial
    · refine Prog.Performs.atMost ⟨rfl, fun r => ?_⟩
      rcases r with e | masterPub
      · exact trivial
      · exact writeBootstrapSecret_unchanging.bind fun _ => ensureFinalizer_unchanging.bind fun _ =>
          patchAnnotations_unchanging.bind fun _ => ⟨rfl, fun _ => ⟨rfl, fun _ => trivial⟩⟩

theorem minionIDOwner_unchanging : (minionIDOwner vm minionID).Performs fun o => o.changes = 0 := by
  refine ⟨rfl, fun r => ?_⟩
  cases r <;> exact trivial

theorem runPreseedKey_changes : (runPreseedKey vm conn requeueAfter).AtMost Op.changes 1 := by
  refine minionIDOwner_unchanging.bind_atMost fun r => ?_
  cases r with
  | none => exact generatePreseedKey_changes
  | some owner =>
    exact .ite (fun _ => ⟨Nat.zero_le _, fun _ => trivial⟩) fun _ =>
      Prog.Performs.atMost patchReport_unchanging

theorem saltClientFor_unchanging : (saltClientFor rt d vm cfg).Performs fun o => o.changes = 0 :=
  saltClientFor_quiet.unchanging

theorem reconcileKey_changes {acceptTimeout : Duration} {timedOut : Bool} :
    (reconcileKey rt d vm cfg acceptTimeout requeueAfter timedOut).AtMost Op.changes 1 := by
  refine .ite (fun _ => trivial) fun _ => .ite (fun _ =>
    saltClientFor_unchanging.bind_atMost fun _ => runPreseedKey_changes) fun _ => .ite
    (fun _ => patchReport_unchanging.atMost) fun _ =>
      .ite (fun _ => ⟨Nat.zero_le _, fun _ => trivial⟩)
    fun _ => .ite (fun _ => ?_) fun _ =>
    saltClientFor_unchanging.bind_atMost fun _ => runAcceptKey_changes
  exact Prog.Performs.atMost ⟨rfl, fun _ => patchReport_unchanging⟩

/-! ## The chain -/

theorem pingFailed_unchanging {masterBefore : String} {started : Time}
    {outcome : Except String Bool} :
    (pingFailed rt vm conn minionID masterBefore started outcome).Performs fun o => o.changes = 0 :=
  masterSilence_quiet.unchanging.bind fun _ => ⟨rfl, fun _ => ⟨rfl, fun _ => .ite
    (fun _ => ⟨rfl, fun _ => ⟨rfl, fun _ => trivial⟩⟩) fun _ =>
    clearPreseedKey_unchanging.bind fun _ => patchReport_unchanging⟩⟩

theorem runPing_unchanging :
    (runPing rt vm conn minionID requeueAfter).Performs fun o => o.changes = 0 := by
  refine ⟨rfl, fun _ => masterLastSeen_quiet.unchanging.bind fun _ =>
    ⟨rfl, fun _ => ⟨rfl, fun r => ?_⟩⟩⟩
  rcases r with e | _ | _
  · exact pingFailed_unchanging
  · exact pingFailed_unchanging
  · exact ⟨rfl, fun _ => clearPreseedKey_unchanging.bind fun _ => patchReport_unchanging⟩

theorem refreshPillarFailed_unchanging {masterBefore : String} {started : Time}
    {outcome : Except String Bool} : (refreshPillarFailed rt vm conn minionID masterBefore started
      outcome).Performs fun o => o.changes = 0 :=
  masterSilence_quiet.unchanging.bind fun _ => ⟨rfl, fun _ => ⟨rfl, fun _ => .ite
    (fun _ => ⟨rfl, fun _ => ⟨rfl, fun _ => trivial⟩⟩) fun _ => patchReport_unchanging⟩⟩

theorem runRefreshPillar_unchanging :
    (runRefreshPillar rt vm conn minionID requeueAfter).Performs fun o => o.changes = 0 := by
  refine ⟨rfl, fun _ => masterLastSeen_quiet.unchanging.bind fun _ =>
    ⟨rfl, fun _ => ⟨rfl, fun r => ?_⟩⟩⟩
  rcases r with e | _ | _
  · exact refreshPillarFailed_unchanging
  · exact refreshPillarFailed_unchanging
  · exact ⟨rfl, fun _ => patchReport_unchanging⟩

theorem runDispatchHighstate_changes :
    (runDispatchHighstate rt vm conn minionID requeueAfter).AtMost Op.changes 1 := by
  refine ⟨Nat.zero_le _, fun _ => ⟨le_rfl, fun r => ?_⟩⟩
  rcases r with e | jid
  · exact Prog.Performs.atMost ⟨rfl, fun _ => patchReport_unchanging⟩
  · exact Prog.Performs.atMost (patchAnnotations_unchanging.bind fun _ =>
      ⟨rfl, fun _ => ⟨rfl, fun _ => trivial⟩⟩)

theorem runPollHighstate_unchanging {jid : String} :
    (runPollHighstate rt vm conn minionID jid requeueAfter).Performs fun o => o.changes = 0 := by
  refine .ite (fun _ => ⟨rfl, fun _ => trivial⟩) fun _ => ⟨rfl, fun r => ?_⟩
  rcases r with e | _ | result
  · exact ⟨rfl, fun _ => trivial⟩
  · exact ⟨rfl, fun _ => trivial⟩
  · exact ⟨rfl, fun _ => .ite (fun _ => ⟨rfl, fun _ => patchReport_unchanging⟩)
      fun _ => ⟨rfl, fun _ => patchReport_unchanging⟩⟩

theorem runDay2_changes {markers : List (String × String)} :
    (runDay2 vm conn minionID markers requeueAfter).AtMost Op.changes 1 := by
  refine Prog.Performs.bind_atMost masterLastSeen_quiet.unchanging fun _ =>
    ⟨Nat.zero_le _, fun _ => ⟨Nat.zero_le _, fun r => ?_⟩⟩
  rcases r with e | _ | _
  · exact masterSilence_quiet.unchanging.bind_atMost fun _ =>
      Prog.Performs.atMost ⟨rfl, fun _ => patchReport_unchanging⟩
  · exact masterSilence_quiet.unchanging.bind_atMost fun _ =>
      Prog.Performs.atMost ⟨rfl, fun _ => patchReport_unchanging⟩
  · refine ⟨le_rfl, fun r => ?_⟩
    rcases r with e | jid
    · exact Prog.Performs.atMost ⟨rfl, fun _ => patchReport_unchanging⟩
    · exact Prog.Performs.atMost (patchAnnotations_unchanging.bind fun _ =>
        ⟨rfl, fun _ => ⟨rfl, fun _ => trivial⟩⟩)

theorem startDay2_changes {seen : VirtualMachine} :
    (startDay2 rt vm seen conn cfg minionID requeueAfter).AtMost Op.changes 1 :=
  ⟨Nat.zero_le _, fun _ => runDay2_changes⟩

theorem reconverge_changes :
    (reconverge rt vm conn cfg minionID requeueAfter).AtMost Op.changes 1 := by
  refine .ite (fun _ => ?_) fun _ => .ite (fun _ => Prog.Performs.atMost
    ⟨rfl, fun _ => patchReport_unchanging⟩) fun _ => startDay2_changes
  refine Prog.Performs.bind_atMost (p := noteBulkToken vm cfg)
    (.ite (fun _ => patchAnnotations_unchanging) fun _ => trivial) fun _ => .ite (fun _ => trivial)
    fun _ => ⟨Nat.zero_le _, fun _ => .ite (fun _ => trivial) fun _ =>
      ⟨Nat.zero_le _, fun _ => startDay2_changes⟩⟩

theorem checkReconvergence_changes :
    (checkReconvergence rt vm conn cfg minionID requeueAfter).AtMost Op.changes 1 := by
  refine .ite (fun _ => .ite (fun _ => trivial) fun _ => .ite (fun _ => trivial) fun _ =>
    Prog.Performs.atMost ⟨rfl, fun _ => patchReport_unchanging⟩) fun _ => .ite (fun _ => ?_)
    fun _ => reconverge_changes
  refine Prog.Performs.bind_atMost (p := adoptLegacyIntentHash rt vm _) (.ite (fun _ => trivial)
    fun _ => ⟨rfl, fun _ => patchAnnotations_unchanging.bind fun _ => trivial⟩) fun _ =>
    .ite (fun _ => trivial) fun _ => reconverge_changes

theorem reconcilePostAccept_changes :
    (reconcilePostAccept rt vm conn cfg minionID requeueAfter).AtMost Op.changes 1 :=
  .ite (fun _ => ⟨Nat.zero_le _, fun _ => trivial⟩) fun _ => .ite
    (fun _ => ⟨Nat.zero_le _, fun _ => .ite (fun _ => ⟨Nat.zero_le _, fun _ => trivial⟩)
      fun _ => runPing_unchanging.atMost⟩) fun _ => .ite
    (fun _ => runRefreshPillar_unchanging.atMost) fun _ => .ite
    (fun _ => runDispatchHighstate_changes) fun _ => .ite
    (fun _ => runPollHighstate_unchanging.atMost) fun _ => checkReconvergence_changes

/-! ## A pass -/

theorem removeSaltFinalizer_unchanging :
    (removeSaltFinalizer vm).Performs fun o => o.changes = 0 := by
  refine ⟨rfl, fun a => ?_⟩
  rcases a with e | current
  · cases e <;> exact trivial
  · refine .ite (fun _ => ⟨rfl, fun a => ?_⟩) fun _ => trivial
    rcases a with e | _
    · cases e <;> exact trivial
    · exact trivial

theorem finishDelete_unchanging {status reason message : String} {type : EventType} :
    (finishDelete vm status type reason message).Performs fun o => o.changes = 0 :=
  patchAnnotations_unchanging.attempt.bind fun _ => ⟨rfl, fun _ => removeSaltFinalizer_unchanging⟩

theorem reconcileDelete_changes : (reconcileDelete rt d vm cfg).AtMost Op.changes 1 := by
  refine .ite (fun _ => trivial) fun _ => .ite (fun _ => removeSaltFinalizer_unchanging.atMost)
    fun _ => Prog.Performs.bind_atMost saltClientFromConfig_quiet.unchanging.attempt fun r => ?_
  rcases r with e | conn
  · exact ⟨Nat.zero_le _, fun _ => trivial⟩
  · refine ⟨le_rfl, fun r => ?_⟩
    cases r <;> exact Prog.Performs.atMost ⟨rfl, fun _ => finishDelete_unchanging⟩

theorem reconcileCreate_changes : (reconcileCreate rt d vm cfg).AtMost Op.changes 1 := by
  have hclear (timedOut : Bool) :
      (clearSignalledKey rt vm cfg timedOut).Performs fun o => o.changes = 0 :=
    .ite (fun _ => clearPreseedKey_unchanging) fun _ =>
      .ite (fun _ => clearPreseedKey_unchanging) fun _ => trivial
  refine ⟨Nat.zero_le _, fun now => (hclear _).bind_atMost fun vm => .ite
    (fun _ => reconcileKey_changes) fun _ => ensureFinalizer_unchanging.bind_atMost fun _ =>
    saltClientFor_unchanging.bind_atMost fun _ => reconcilePostAccept_changes⟩

/-- **A pass changes at most one thing on RaaS.** -/
theorem reconcile_changes {k : NamespacedName} : (reconcile rt d k).AtMost Op.changes 1 := by
  refine ⟨Nat.zero_le _, fun r => ?_⟩
  rcases r with e | vm
  · cases e <;> exact trivial
  · refine .ite (fun _ => trivial) fun _ =>
      Prog.Performs.bind_atMost (p := findSaltKeyConfig k.nspace) ⟨rfl, fun a => ?_⟩ fun r => ?_
    · cases a <;> exact trivial
    cases r with
    | none => exact trivial
    | some cfg =>
      exact ⟨Nat.zero_le _, fun _ => .ite (fun _ => reconcileDelete_changes) fun _ => .ite
        (fun _ => ⟨Nat.zero_le _, fun _ => trivial⟩) fun _ => reconcileCreate_changes⟩

end walk

/-! ## Over HTTP -/

/-- A request that changes something on RaaS: the state of a key, a key that is generated, or a
highstate job to be run. -/
def changesRaas (body : Json) : Bool :=
  let method := body.nestedString ["method"]
  let fn := body.nestedString ["kwarg", "fun"]
  method = "set_minion_key_state" ∨ (method = "save_job" ∧ fn = "state.highstate") ∨
    (method = "route_cmd" ∧ fn = "key.gen_accept")

/-- A call over the wire that changes something on RaaS, unless it is turned away. -/
def changing : (o : WireOp) → o.Ans → Bool
  | .post _ _ body, a => changesRaas body && !refused a
  | _, _ => false

section wire

variable {W α : Type} {cd : Codec} {rt : Runtime} {conn : Connection} {fields : Json}

/-- Requests that change nothing. -/
theorem changing_eq_false {url : String} {headers : List (String × String)} {body : Json}
    (hbody : changesRaas body = false) (a : PostAnswer) :
    changing (.post url headers body) a = false := by
  show (changesRaas body && !refused a) = false
  rw [hbody, Bool.false_and]

theorem unchanging_usual (conn : Connection) :
    Usual conn fun o => ∀ a, changing o a = false where
  isLocal o ho := by
    cases o with
    | post url headers body => exact ho.elim
    | _ => exact fun _ => rfl
  login _ := changing_eq_false rfl

/-- What a POST spends depends on its answer: one that is turned away changes nothing. -/
theorem sendPost_spends {e e' url : String} {headers : List (String × String)} {limit : Nat} :
    (sendPost e e' url headers fields limit).Spends W changing
      (fun r => if r.toOption.any (·.status = 401) then 0 else 1) := by
  intro h
  refine ⟨trivial, fun w (a : PostAnswer) _ => ?_⟩
  have hone (b : Bool) : (if b = true then 1 else 0) ≤ 1 := by cases b <;> decide
  have hcount := List.countP_cons (l := h) (a := ⟨w, .post url headers fields, a⟩)
    (p := fun m => changing m.op m.ans)
  rcases a with e | ⟨status, e | bytes⟩
  · exact hcount.trans_le (Nat.add_le_add_left (hone _) _)
  · exact hcount.trans_le (Nat.add_le_add_left (hone _) _)
  · show _ ≤ _ + if decide (status = 401) = true then 0 else 1
    by_cases hstatus : status = 401
    · -- turned away, so the call is not counted
      have hfree : changing (.post url headers fields) (.ok (status, .ok bytes)) = false := by
        show (changesRaas fields && !decide (status = 401)) = false
        rw [decide_eq_true hstatus, Bool.not_true, Bool.and_false]
      rw [if_pos (decide_eq_true hstatus)]
      refine hcount.trans_le ?_
      rw [if_neg (ne_true_of_eq_false hfree)]
    · rw [if_neg fun hd => hstatus (of_decide_eq_true hd)]
      exact hcount.trans_le (Nat.add_le_add_left (hone _) _)

theorem doPost_spends : (doPost cd conn fields).Spends W changing
    (fun r => if r.toOption.any (·.status = 401) then 0 else 1) := by
  refine Prog.spends_free (fun _ => rfl) fun r => ?_
  cases r with
  | error e => exact Prog.Performs.spends (p := Prog.fail _) trivial
  | ok u =>
    exact Prog.spends_free (fun _ => rfl) fun _ => Prog.spends_free (fun _ => rfl) fun _ =>
      Prog.spends_free (fun _ => rfl) fun _ => sendPost_spends

/-- **A request is sent again only if the first did nothing.** -/
theorem rawPost_spends : (rawPost cd conn fields).Spends W changing fun _ => 1 := by
  refine doPost_spends.bind (c := fun r _ => if r.status = 401 then 1 else 0)
    (fun r => .ite (fun _ => Prog.Performs.spends (p := Prog.ret r) trivial) fun hstatus => ?_)
    (fun r _ => ?_) fun _ => le_rfl
  · refine (Prog.Performs.attempt (login_usual (unchanging_usual conn))).spends.bind
      (b := fun _ => 0) (c := fun _ _ => 1) (fun r => ?_) (fun _ _ => ?_) fun _ => Nat.zero_le _
    · exact Prog.Spends.bind (b := fun _ => 0) (c := fun _ _ => 1) orElse_usual.spends
        (fun _ => doPost_spends.mono fun r => by split <;> omega) (fun _ _ => le_rfl)
        fun _ => Nat.zero_le _
    · rw [if_pos (not_not.mp hstatus)]
  · show (if decide (r.status = 401) = true then 0 else 1) + (if r.status = 401 then 1 else 0) ≤ 1
    by_cases hstatus : r.status = 401
    · rw [if_pos (decide_eq_true hstatus), if_pos hstatus]
    · rw [if_neg fun hd => hstatus (of_decide_eq_true hd), if_neg hstatus]

theorem posted_spends : (RaaSClient.posted cd conn fields).Spends W changing fun _ => 1 :=
  Prog.Spends.bind_free (Prog.Spends.attempt rawPost_spends) fun r => by cases r <;> exact trivial

/-- A method that makes one request and reports its body. -/
theorem decoded_spends {message : String} {more : List (String × String)}
    {decode : Posted → Except String α} :
    (RaaSClient.posted cd conn fields >>= fun p => RaaSClient.debugBody message more p >>= fun _ =>
      Prog.orFail id (decode p)).Spends W changing fun _ => 1 := by
  refine posted_spends.bind_free fun p => .bind ?_ fun _ => orFail_usual
  cases p with
  | error e => exact trivial
  | ok r => exact .ite (fun _ => ⟨fun _ => rfl, fun _ => trivial⟩) fun _ => trivial

theorem wheel_spends {polls : Nat} {fn : String} {args : List Json} {kwarg : List (String × Json)} :
    (wheel cd rt conn polls fn args kwarg).Spends W changing fun _ => 1 := by
  refine (Prog.Spends.attempt rawPost_spends).bind_free fun _ => orElse_usual.bind fun _ =>
    .ite (fun _ => trivial) fun _ => orElse_usual.bind fun fields => ?_
  obtain ⟨jid, err⟩ := fields
  -- the job is routed; what is left is to ask for its result
  exact .ite (fun _ => trivial) fun _ => ⟨fun _ => rfl, fun _ =>
    pollWheel_usual (unchanging_usual conn) fun _ _ => changing_eq_false rfl⟩

/-- Each call of the controller spends no more than its weight. -/
theorem onWire_spends {polls : Nat} (o : Op) :
    (onWire cd rt polls o).Spends W changing fun _ => o.changes := by
  have hu := unchanging_usual
  have hquiet {conn : Connection} {c : SaltCall} {n : Nat}
      (hreq : ∀ body, c.Requests conn body → changesRaas body = false) :
      (onWire cd rt polls (.salt conn c)).Spends W changing fun _ => n :=
    (onWire_performs (hu conn) fun body hbody _ => changing_eq_false (hreq body hbody)).spends
  cases o with
  | salt conn c =>
    cases c with
    | acceptKey id => exact Prog.Spends.attempt decoded_spends
    | deleteKey id => exact Prog.Spends.attempt decoded_spends
    | dispatchHighstate id =>
      refine Prog.Spends.attempt (Prog.Spends.bind_free (p := RaaSClient.saveJob cd rt conn _ _ _)
        (posted_spends.bind_free fun _ => orFail_usual) fun jobUUID => ⟨fun _ => rfl, fun _ => ?_⟩)
      exact .bind (p := RaaSClient.routeCmd cd rt conn jobUUID id) ((posted_usual (hu conn)
        fun _ => changing_eq_false rfl).bind fun _ => orFail_usual) fun _ =>
          ⟨fun _ => rfl, fun _ => trivial⟩
    | genAcceptKey id force =>
      refine Prog.Spends.attempt (wheel_spends.bind_free fun ret => ?_)
      split
      · exact trivial
      · exact .ite (fun _ => trivial) fun _ => .ite (fun _ => trivial) fun _ => trivial
    | testPing id =>
      refine hquiet fun body hbody => ?_
      rcases hbody with (rfl | ⟨jobUUID, rfl⟩) | ⟨jid, rfl⟩ <;> rfl
    | refreshPillar id =>
      refine hquiet fun body hbody => ?_
      rcases hbody with (rfl | ⟨jobUUID, rfl⟩) | ⟨jid, rfl⟩ <;> rfl
    | masterPublicKey =>
      refine hquiet fun body hbody => ?_
      rcases hbody with rfl | ⟨jid, rfl⟩ <;> rfl
    | login => exact hquiet fun body hbody => hbody.elim
    | _ =>
      refine hquiet fun body hbody => ?_
      cases hbody
      rfl
  | _ =>
    exact Prog.spends_free (fun _ => rfl) fun a => Prog.Performs.spends (p := Prog.ret a) trivial

/-- **Over HTTP, a pass changes at most one thing on RaaS.** Of its requests that change the state
of a key, generate one or have a highstate run, RaaS carries out one at most: all others it has
turned away. -/
theorem pass_changes_once {d : Default} {k : NamespacedName} {polls : Nat}
    {h h' : List (Call WireOp WireOp.Ans W)} {r : Except String Result}
    (hm : ((reconcile rt d k).interp (onWire cd rt polls)).Makes h r h') :
    ∃ made, h' = made ++ h ∧ made.countP (fun m => changing m.op m.ans) ≤ 1 :=
  hm.countP_le (reconcile_changes.interp onWire_spends)

end wire

namespace Sample

/-- The VM of namespace `a`, under deletion, with an accepted key. -/
def leaving : VirtualMachine :=
  { vm "a" "u1" with
    deletionTimestamp := some time
    finalizers := [saltFinalizer]
    annotations := (((vm "a" "u1").annotations.insert annotationMinionID "web").insert
      annotationKeyStatus keyStatusAccepted) }

/-- A pass over it with a token that has expired. -/
def leavingExpired (n : Nat) : (o : WireOp) → o.Ans
  | .controller (.getVM _) => .ok leaving
  | .controller (.listConfigs _) => .ok [config "a" keyAcceptanceDiscovery]
  | .controller (.cacheGet _ _) => some (connAt "https://raas")
  | .post url _ body => .ok (if n < 15 then 401 else 200, .ok (answerBody url body))
  | o => expired n o

/-- A request that changes something on RaaS, if it is carried out. -/
def asksChange : WireOp → Bool
  | .post _ _ body => changesRaas body
  | _ => false

end Sample

/-- The request to delete the key is made twice, the first time with a token that has expired. -/
theorem pass_changes_once_expired :
    ∃ made : List (Call WireOp WireOp.Ans Unit),
      ((reconcile Sample.runtime Sample.noDefault Sample.key).interp
        (onWire Sample.bodies Sample.runtime 3)).Makes [] (.ok {}) made ∧
      made.countP (fun m => Sample.asksChange m.op) = 2 ∧
      ∃ made', made = made' ++ [] ∧ made'.countP (fun m => changing m.op m.ans) ≤ 1 := by
  have hrun := Prog.makes_exec () Sample.leavingExpired 0
    ((reconcile Sample.runtime Sample.noDefault Sample.key).interp
      (onWire Sample.bodies Sample.runtime 3)) []
  obtain ⟨made, hm, hops⟩ := hrun
  have hr : (((reconcile Sample.runtime Sample.noDefault Sample.key).interp
      (onWire Sample.bodies Sample.runtime 3)).exec Sample.leavingExpired 0).2 = .ok {} := by
    decide +kernel
  have hasked : (((reconcile Sample.runtime Sample.noDefault Sample.key).interp
      (onWire Sample.bodies Sample.runtime 3)).exec Sample.leavingExpired 0).1.countP
      Sample.asksChange = 2 := by
    decide +kernel
  rw [hr, List.append_nil] at hm
  rw [← hops, List.countP_reverse, List.countP_map] at hasked
  exact ⟨made, hm, hasked, pass_changes_once hm⟩

end SaltOperator
