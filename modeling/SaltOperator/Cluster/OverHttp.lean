import SaltOperator.Lib.Lowering
import SaltOperator.Salt.Requests
import SaltOperator.Cluster.Scavenged

/-!
# The operator over HTTP

In `cluster` a call of the RaaS client is one step. In fact it is a series of requests, with a
login when the token has expired, jobs that are dispatched and polled and waits of seconds, and
anything may happen in between: other workers and scavenge jobs go on, VMs are edited, the
operator stops. `httpCluster` is that system, the programs of the operator and of the scavenge
jobs being run on top of the client's own (`onWire`).

RaaS may answer a request in any way, fail to answer, and handle its keys as it likes.

`simulates_http`: **every run of it is a run with single steps**, in the same worlds and with
the same calls to Kubernetes. What is proved of the operator in all runs of `cluster` so holds
over HTTP.
-/

namespace SaltOperator

/-- What a call over the wire does. Requests go to RaaS, whose keys may change with each. -/
def wireExec (rt : Runtime) (w : World) : (o : WireOp) → o.Ans → World → Prop
  | .controller o, a, w' => Answers rt w o a ∧ w' = effect w o a
  | .get _ _, _, w' => ∃ raas, w' = { w with raas }
  | .post _ _ _, _, w' => ∃ raas, w' = { w with raas }
  | _, _, w' => w' = w

/-- The operator and scavenge jobs over HTTP. -/
def httpCluster {J : Type} (cd : Codec) (rt : Runtime) (polls : Nat) (d : Default)
    (may : String → Prop) (crash : Prop) (jobs : J → ScavengeJob) :
    System (NamespacedName ⊕ J) WireOp WireOp.Ans World String Result :=
  (scavengedCluster rt d may crash jobs).lower (fun _ => wireExec rt) (onWire cd rt polls)

/-- A configuration of it. -/
abbrev HttpCfg (J : Type) := Cfg (NamespacedName ⊕ J) WireOp WireOp.Ans World String Result

/-- A call to Kubernetes, or of the operator itself. -/
def Made.direct (m : Made) : Option Made :=
  match m.op with
  | .salt _ _ => none
  | _ => some m

/-- The same of a call over the wire. -/
def wireDirect : Call WireOp WireOp.Ans World → Option Made
  | ⟨w, .controller o, a⟩ => Made.direct ⟨w, o, a⟩
  | _ => none

/-- The calls of the client itself. -/
def WireOp.Client : WireOp → Prop
  | .controller _ => False
  | _ => True

theorem client_usual (conn : Connection) : Usual conn WireOp.Client where
  isLocal o ho := by
    cases o with
    | controller o => exact ho
    | _ => exact trivial
  login _ := trivial

/-! ## What its methods return -/

/-- The client makes its own calls and ends with `P`. -/
def Yields {α : Type} (P : Except String α → Prop) (p : WireM α) : Prop :=
  ∀ h : List (Call WireOp WireOp.Ans World),
    p.Obeys (fun _ _ => True) (fun _ => WireOp.Client) (fun _ r => P r) h

section yields

variable {α β : Type} {P : Except String β → Prop} {Q : Except String α → Prop} {p : WireM α}

theorem Yields.of_performs (hp : p.Performs WireOp.Client) : Yields (fun _ => True) p := fun _ =>
  hp.obeys (I := fun _ => True) (fun _ _ _ ho => ⟨ho, fun _ _ => trivial⟩) trivial

theorem Yields.bind {f : α → WireM β} (hp : Yields Q p) (hok : ∀ a, Q (.ok a) → Yields P (f a))
    (herr : ∀ e, Q (.error e) → P (.error e)) : Yields P (p >>= f) := fun h =>
  Prog.Obeys.bind ((hp h).mono fun h' r hr => by
    rcases r with e | a
    · exact herr e hr
    · exact hok a hr h')

theorem Yields.attempt {P : Except String (Except String α) → Prop}
    (hp : Yields (fun r => P (.ok r)) p) :
    Yields P (p.attempt : WireM (Except String α)) := fun h =>
  Prog.Obeys.attempt (hp h)

theorem orFail_yields (r : Except String α) :
    Yields (fun r' => r' = r) (Prog.orFail id r : WireM α) := by
  intro h
  cases r <;> exact rfl

end yields

section returns

variable {cd : Codec} {rt : Runtime} {conn : Connection}

/-- `rawPost` for a decoder does not fail. -/
theorem posted_yields (fields : Json) :
    Yields (fun r => ∃ p, r = .ok p) (RaaSClient.posted cd conn fields) := by
  have hraw : Yields (fun r => ∃ x : Except String WireResponse, r = .ok x)
      ((rawPost cd conn fields).attempt : WireM _) :=
    Yields.attempt fun h => (Yields.of_performs
      (rawPost_usual (client_usual conn) fun _ => trivial) h).mono fun _ r _ => ⟨r, rfl⟩
  refine hraw.bind (fun r _ h => ?_) fun e he => ?_
  · cases r <;> exact ⟨_, rfl⟩
  · obtain ⟨_, he⟩ := he
    cases he

theorem debugBody_yields (message : String) (fields : List (String × String)) (p : Posted) :
    Yields (fun r => r = .ok ()) (RaaSClient.debugBody message fields p) := by
  intro h
  cases p with
  | error e => exact rfl
  | ok r =>
    show Prog.Obeys _ _ _ (if r.isSuccess then RaaSClient.debug _ _ else pure ()) h
    by_cases hr : r.isSuccess = true
    · rw [if_pos hr]
      exact ⟨trivial, fun _ _ _ => rfl⟩
    · rw [if_neg hr]
      exact rfl

/-- A method that makes one request returns what its decoder makes of a response. -/
theorem decoded_yields {α : Type} (fields : Json) (message : String) (more : List (String × String))
    (decode : Posted → Except String α) :
    Yields (fun r => ∃ p, r = decode p) (RaaSClient.posted cd conn fields >>= fun p =>
      RaaSClient.debugBody message more p >>= fun _ => Prog.orFail id (decode p)) := by
  refine (posted_yields fields).bind (fun p _ => ?_) fun e he => ?_
  · refine (debugBody_yields message more p).bind (fun _ _ h => ?_) fun e he => ?_
    · exact (orFail_yields (decode p) h).mono fun _ _ hr => ⟨p, hr⟩
    · cases he
  · obtain ⟨_, he⟩ := he
    cases he

/-- `dispatch` makes two. -/
theorem dispatch_yields (minionID fn : String) (kwarg : List (String × Json)) :
    Yields (fun r => ∃ p q, r = dispatch rt fn minionID p q)
      (RaaSClient.dispatch cd rt conn minionID fn kwarg) := by
  have hsaved : Yields (fun r => ∃ p, r = saveJob rt fn p)
      (RaaSClient.saveJob cd rt conn (RaaSClient.jobName fn) fn kwarg) := by
    refine (posted_yields _).bind (fun p _ h => ?_) fun e he => ?_
    · exact (orFail_yields (saveJob rt fn p) h).mono fun _ _ hr => ⟨p, hr⟩
    · obtain ⟨_, he⟩ := he
      cases he
  have hrouted (jobUUID : String) : Yields (fun r => ∃ p, r = routeCmd rt minionID p)
      (RaaSClient.routeCmd cd rt conn jobUUID minionID) := by
    refine (posted_yields _).bind (fun p _ h => ?_) fun e he => ?_
    · exact (orFail_yields (routeCmd rt minionID p) h).mono fun _ _ hr => ⟨p, hr⟩
    · obtain ⟨_, he⟩ := he
      cases he
  -- a job that is not saved is not routed, whatever RaaS would have said
  refine hsaved.bind (fun jobUUID hp h => ⟨trivial, fun w a _ => ?_⟩) fun e he => ?_
  · obtain ⟨p, hp⟩ := hp
    refine Prog.Obeys.bind (p := RaaSClient.routeCmd cd rt conn jobUUID minionID)
      ((hrouted jobUUID _).mono fun h' r hr => ?_)
    obtain ⟨q, hq⟩ := hr
    have hdispatch : r = dispatch rt fn minionID p q := by
      unfold dispatch
      rw [← hp]
      exact hq
    rcases r with e | jid
    · exact ⟨p, q, hdispatch⟩
    · exact ⟨trivial, fun _ _ _ => ⟨p, q, hdispatch⟩⟩
  · obtain ⟨p, hp⟩ := he
    refine ⟨p, .error "", ?_⟩
    unfold dispatch
    rw [← hp]
    rfl

/-- **A method of the client returns what it can return.** -/
theorem onWire_yields (polls : Nat) (c : SaltCall) :
    Yields (fun r => ∃ a : c.Ans, r = .ok a ∧ c.Returns rt a)
      (onWire cd rt polls (.salt conn c)) := by
  -- no method fails: its error is its result
  have outcome {α : Type} {p : WireM α} {R : Except String α → Prop} (hp : Yields R p) :
      Yields (fun r => ∃ a : Except String α, r = .ok a ∧ R a) (p.attempt : WireM _) :=
    Yields.attempt fun h => (hp h).mono fun _ r hr => ⟨r, rfl, hr⟩
  have returnsAny {α : Type} {p : WireM α} (hp : (p.attempt : WireM (Except String α)).Performs
      WireOp.Client) :
      Yields (fun r => ∃ a : Except String α, r = .ok a ∧ True) (p.attempt : WireM _) :=
    outcome (Yields.of_performs hp.of_attempt)
  have hcalls : (onWire cd rt polls (.salt conn c)).Performs WireOp.Client :=
    onWire_performs (client_usual conn) fun _ _ _ => trivial
  cases c with
  | listPendingKeys => exact outcome (decoded_yields _ _ _ _)
  | listAcceptedKeys => exact outcome (decoded_yields _ _ _ _)
  | acceptKey id => exact outcome (decoded_yields _ _ _ _)
  | deleteKey id => exact outcome (decoded_yields _ _ _ _)
  | dispatchHighstate id => exact outcome (dispatch_yields _ _ _)
  | pollJID id jid => exact outcome (decoded_yields _ _ _ _)
  | login => exact returnsAny hcalls
  | testPing id => exact returnsAny hcalls
  | refreshPillar id => exact returnsAny hcalls
  | masterLastSeen => exact returnsAny hcalls
  | keyStates id => exact returnsAny hcalls
  | genAcceptKey id force => exact returnsAny hcalls
  | masterPublicKey => exact returnsAny hcalls

end returns

/-! ## The refinement -/

section refines

variable {J : Type} {cd : Codec} {rt : Runtime} {polls : Nat} {d : Default}
  {may : String → Prop} {crash : Prop} {jobs : J → ScavengeJob}

/-- What the client does by itself the environment could have done. -/
theorem wireExec_client {w w' : World} {o : WireOp} {a : o.Ans} (ho : o.Client)
    (hx : wireExec rt w o a w') :
    wireDirect ⟨w, o, a⟩ = none ∧ (w' = w ∨ Tenant may w w') := by
  cases o with
  | controller o => exact ho.elim
  | get url headers =>
    obtain ⟨raas, rfl⟩ := hx
    exact ⟨rfl, .inr (.raas raas)⟩
  | post url headers body =>
    obtain ⟨raas, rfl⟩ := hx
    exact ⟨rfl, .inr (.raas raas)⟩
  | _ => exact ⟨rfl, .inl hx⟩

/-- Everything but a call of the client is passed on. -/
theorem onWire_direct {o : Op} (ho : ∀ conn c, o ≠ .salt conn c) :
    onWire cd rt polls o = Prog.perform (WireOp.controller o) := by
  cases o with
  | salt conn c => exact absurd rfl (ho conn c)
  | _ => rfl

theorem realizes_onWire (t : NamespacedName ⊕ J) (o : Op) :
    (scavengedCluster rt d may crash jobs).Realizes
      (fun _ => wireExec rt) Made.direct wireDirect t o
      (onWire cd rt polls o) := by
  have hexec : (scavengedCluster rt d may crash jobs).exec t =
      fun w o a w' => Answers rt w o a ∧ w' = effect w o a := by
    rcases t with k | j <;> rfl
  by_cases ho : ∃ conn c, o = .salt conn c
  · obtain ⟨conn, c, rfl⟩ := ho
    refine System.realizes_of_obeys (Φ := WireOp.Client) (h := []) (fun _ _ => trivial)
      (fun o' w a' w' ho hx => wireExec_client ho hx) (fun a ha w => ?_) (onWire_yields polls c [])
    -- the keys of RaaS are as its requests left them
    obtain ⟨raas, heff⟩ := effect_salt w conn c a
    refine ⟨rfl, { w with raas }, ?_, .inr ?_⟩
    · rw [hexec]
      exact ⟨ha, heff.symm⟩
    · exact Tenant.raas (w := { w with raas }) w.raas
  · rw [onWire_direct fun conn c heq => ho ⟨conn, c, heq⟩]
    intro w a w' hx
    refine .inr ⟨a, rfl, ?_, rfl⟩
    rw [hexec]
    exact hx

theorem onWire_calls (o : Op) : (onWire cd rt polls o).isDone = false := by
  cases o with
  | salt conn c => cases c <;> rfl
  | _ => rfl

variable [DecidableEq J]

/-- **Every run over HTTP is a run with single steps.** -/
theorem simulates_http : System.Simulates (httpCluster cd rt polls d may crash jobs)
    (scavengedCluster rt d may crash jobs)
    (System.Lowered (scavengedCluster rt d may crash jobs) (fun _ => wireExec rt)
      (onWire cd rt polls) Made.direct wireDirect) :=
  System.simulates_lower realizes_onWire onWire_calls

/-- **The operator over HTTP refines the operator whose calls of the client are single steps.**
The world is the same at any time, the same passes and jobs are going on, and each has made the
same calls to Kubernetes, in the same worlds. -/
theorem http_refines : ∃ Rel : HttpCfg J → ScavengedCfg J → Prop,
    System.Simulates (httpCluster cd rt polls d may crash jobs)
      (scavengedCluster rt d may crash jobs) Rel ∧
    ∀ c₁ c, Rel c₁ c → c.world = c₁.world ∧ ∀ t, (c.threads t = none ↔ c₁.threads t = none) ∧
      (c.hist t).filterMap Made.direct = (c₁.hist t).filterMap wireDirect :=
  ⟨_, simulates_http, fun _ _ hrel => ⟨hrel.world, fun t => ⟨hrel.idle_iff t, hrel.seen t⟩⟩⟩

end refines

end SaltOperator
