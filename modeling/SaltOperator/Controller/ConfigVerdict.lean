import SaltOperator.Controller.ConfigReconcile

/-!
# What `validate` looks at

`validate` judges a config by its spec and by one Secret. `WellFormed` is what the spec has to be
by itself, `Suits` what the Secret has to contain for it, and `validate_eq` says that nothing else
counts: **a config whose spec is malformed is never Ready, and no Secret is read for it; any other
is Ready exactly if the one Secret that is read suits it.**

Every well-formed config can be served (`suits_suitable`), so that a malformed spec and an
unsuitable Secret are told apart by what could mend them.
-/

namespace SaltOperator

/-- What the spec has to be, whatever the Secrets contain. -/
structure WellFormed (rt : Runtime) (d : Default) (cfg : SaltKeyConfig) : Prop where
  durations : invalidDuration cfg.spec = none
  selector : ∀ sel e, cfg.spec.vmSelector = some sel → rt.selector sel ≠ .error e
  endpoint : if cfg.spec.credentialsSecret ≠ "" then cfg.spec.raasURL ≠ "" ∧ cfg.spec.masterID ≠ ""
    else d.configured = true

/-- The Secret a config takes its credentials from. -/
def credentialsKey (d : Default) (cfg : SaltKeyConfig) : NamespacedName :=
  if cfg.spec.credentialsSecret ≠ "" then ⟨cfg.nspace, cfg.spec.credentialsSecret⟩
  else ⟨d.nspace, d.secretName⟩

/-- The default connection, for a config that restates parts of it. -/
structure SuitsDefault (rt : Runtime) (cfg : SaltKeyConfig) (data : StringMap) : Prop where
  complete : ∀ k ∈ ["url", "masterID", "username", "password"], StringMap.read data k ≠ ""
  url : cfg.spec.raasURL = "" ∨ cfg.spec.raasURL = StringMap.read data "url"
  masterID : cfg.spec.masterID = "" ∨ cfg.spec.masterID = StringMap.read data "masterID"
  tls : cfg.spec.skipTLSVerify = true →
    rt.equalFold (StringMap.read data "skipTLSVerify") "true" = true

/-- What that Secret has to contain. -/
def Suits (rt : Runtime) (cfg : SaltKeyConfig) (data : StringMap) : Prop :=
  if cfg.spec.credentialsSecret ≠ "" then
    StringMap.read data "username" ≠ "" ∧ StringMap.read data "password" ≠ ""
  else SuitsDefault rt cfg data

/-- The verdict on a well-formed config whose Secret was read with this answer. -/
structure Judges (rt : Runtime) (cfg : SaltKeyConfig) (a : Except ApiErr StringMap)
    (cond : Condition) : Prop where
  type : cond.type = "Ready"
  generation : cond.observedGeneration = cfg.generation
  ready_iff : cond.status = .true ↔ ∃ data, a = .ok data ∧ Suits rt cfg data
  notReady : cond.status ≠ .true → cond.status = .false ∧ cond.reason ∈ secretReasons

/-- The verdict on a malformed one. -/
structure Refuses (cfg : SaltKeyConfig) (cond : Condition) : Prop where
  type : cond.type = "Ready"
  generation : cond.observedGeneration = cfg.generation
  status : cond.status = .false
  reason : cond.reason ∉ secretReasons

section resolve

variable {rt : Runtime} {d : Default} {cfg : SaltKeyConfig}

/-- What `resolve` makes of the answer about the Secret. -/
structure Resolves (rt : Runtime) (cfg : SaltKeyConfig) (a : Except ApiErr StringMap)
    (r : Except ConnError Connection) : Prop where
  ok_iff : (∃ conn, r = .ok conn) ↔ ∃ data, a = .ok data ∧ Suits rt cfg data
  reason : ∀ e, r = .error e → e.reason ∈ secretReasons

/-- A Secret that cannot be read. -/
theorem resolves_error {e : ApiErr} {e' : ConnError} (h : e'.reason ∈ secretReasons) :
    Resolves rt cfg (.error e) (.error e') := by
  refine ⟨⟨?_, ?_⟩, ?_⟩
  · rintro ⟨conn, hconn⟩
    cases hconn
  · rintro ⟨data, hdata, -⟩
    cases hdata
  · rintro e'' he
    cases he
    exact h

/-- One that does not suit. -/
theorem resolves_unsuited {data : StringMap} {e' : ConnError} (hdata : ¬ Suits rt cfg data)
    (h : e'.reason ∈ secretReasons) : Resolves rt cfg (.ok data) (.error e') := by
  refine ⟨⟨?_, ?_⟩, ?_⟩
  · rintro ⟨conn, hconn⟩
    cases hconn
  · rintro ⟨data', hdata', hs⟩
    cases hdata'
    exact absurd hs hdata
  · rintro e'' he
    cases he
    exact h

theorem resolves_suited {data : StringMap} {conn : Connection} (hdata : Suits rt cfg data) :
    Resolves rt cfg (.ok data) (.ok conn) := by
  refine ⟨⟨fun _ => ⟨data, rfl, hdata⟩, fun _ => ⟨conn, rfl⟩⟩, ?_⟩
  rintro e' he
  cases he

theorem mem_secretReasons : reasonSecretNotFound ∈ secretReasons ∧
    reasonGetSecretFailed ∈ secretReasons ∧ reasonSecretInvalid ∈ secretReasons ∧
    reasonConnectionMismatch ∈ secretReasons := by
  decide

/-- The end of a program that is past its calls. -/
def Prog.outcome {Op : Type} {Ans : Op → Type} {ε α : Type} : Prog Op Ans ε α → Option (Except ε α)
  | .ret a => some (.ok a)
  | .fail e => some (.error e)
  | .call _ _ => none

/-- `resolve` reads the one Secret and ends. How the API server puts it that the Secret is not
there makes no difference. -/
def ResolvesFrom (rt : Runtime) (cfg : SaltKeyConfig) (key : NamespacedName)
    (p : ConnM Connection) : Prop :=
  ∃ k, p = .call (.getSecret key) k ∧
    (∀ text, k (.error (.notFound text)) = k (.error (.notFound ""))) ∧
    ∀ a, ∃ r, (k a).outcome = some r ∧ Resolves rt cfg a r

theorem resolveNamespaceSecret_eq (hsecret : cfg.spec.credentialsSecret ≠ "")
    (hend : cfg.spec.raasURL ≠ "" ∧ cfg.spec.masterID ≠ "") :
    ResolvesFrom rt cfg ⟨cfg.nspace, cfg.spec.credentialsSecret⟩ (resolveNamespaceSecret cfg) := by
  have hsuits (data : StringMap) : Suits rt cfg data ↔
      StringMap.read data "username" ≠ "" ∧ StringMap.read data "password" ≠ "" := by
    unfold Suits
    rw [if_pos hsecret]
  obtain ⟨hnotFound, hgetFailed, hinvalid, -⟩ := mem_secretReasons
  unfold resolveNamespaceSecret
  rw [if_neg (not_or.mpr hend)]
  refine ⟨_, rfl, fun _ => rfl, fun a => ?_⟩
  rcases a with (e | e | e) | data
  · exact ⟨_, rfl, resolves_error hnotFound⟩
  · exact ⟨_, rfl, resolves_error hgetFailed⟩
  · exact ⟨_, rfl, resolves_error hgetFailed⟩
  · by_cases hdata : StringMap.read data "username" = "" ∨ StringMap.read data "password" = ""
    · refine ⟨.error _, congrArg Prog.outcome (if_pos hdata), resolves_unsuited ?_ hinvalid⟩
      rw [hsuits]
      exact fun h => hdata.elim h.1 h.2
    · refine ⟨.ok _, congrArg Prog.outcome (if_neg hdata), resolves_suited ?_⟩
      rw [hsuits]
      exact not_or.mp hdata

theorem resolveDefault_eq (hsecret : cfg.spec.credentialsSecret = "") (hd : d.configured = true) :
    ResolvesFrom rt cfg ⟨d.nspace, d.secretName⟩ (resolveDefault rt cfg d) := by
  have hsuits (data : StringMap) : Suits rt cfg data ↔ SuitsDefault rt cfg data := by
    unfold Suits
    rw [if_neg (not_not.mpr hsecret)]
  obtain ⟨hnotFound, hgetFailed, hinvalid, hmismatch⟩ := mem_secretReasons
  unfold resolveDefault
  rw [if_neg (by rw [hd]; decide)]
  refine ⟨_, rfl, fun _ => rfl, fun a => ?_⟩
  rcases a with (e | e | e) | data
  · exact ⟨_, rfl, resolves_error hnotFound⟩
  · exact ⟨_, rfl, resolves_error hgetFailed⟩
  · exact ⟨_, rfl, resolves_error hgetFailed⟩
  · -- the Secret is there: four things may still be wrong with it
    show ∃ r, Prog.outcome (Prog.bind (ite _ _ _) _) = some r ∧ _
    by_cases hmissing : ["url", "masterID", "username", "password"].any
        (fun k => StringMap.read data k = "") = true
    · rw [if_pos hmissing]
      refine ⟨_, rfl, resolves_unsuited (fun h => ?_) hinvalid⟩
      obtain ⟨k, hk, hempty⟩ := List.any_eq_true.mp hmissing
      exact ((hsuits data).mp h).complete k hk (of_decide_eq_true hempty)
    rw [if_neg hmissing]
    show ∃ r, Prog.outcome (ite _ _ (ite _ _ (ite _ _ _))) = some r ∧ _
    by_cases hurl : cfg.spec.raasURL ≠ "" ∧ cfg.spec.raasURL ≠ StringMap.read data "url"
    · rw [if_pos hurl]
      exact ⟨_, rfl, resolves_unsuited (fun h => ((hsuits data).mp h).url.elim hurl.1 hurl.2)
        hmismatch⟩
    rw [if_neg hurl]
    by_cases hmaster : cfg.spec.masterID ≠ "" ∧ cfg.spec.masterID ≠ StringMap.read data "masterID"
    · rw [if_pos hmaster]
      exact ⟨_, rfl, resolves_unsuited (fun h => ((hsuits data).mp h).masterID.elim hmaster.1
        hmaster.2) hmismatch⟩
    rw [if_neg hmaster]
    by_cases htls : (cfg.spec.skipTLSVerify &&
        !rt.equalFold (StringMap.read data "skipTLSVerify") "true") = true
    · rw [if_pos htls]
      refine ⟨_, rfl, resolves_unsuited (fun h => ?_) hmismatch⟩
      obtain ⟨hskip, hfold⟩ := (Bool.and_eq_true _ _).mp htls
      rw [((hsuits data).mp h).tls hskip] at hfold
      cases hfold
    rw [if_neg htls]
    refine ⟨_, rfl,
      resolves_suited ((hsuits data).mpr ⟨fun k hk hempty => ?_, ?_, ?_, fun hskip => ?_⟩)⟩
    · exact hmissing (List.any_eq_true.mpr ⟨k, hk, decide_eq_true hempty⟩)
    · by_contra hne
      exact hurl (not_or.mp hne)
    · by_contra hne
      exact hmaster (not_or.mp hne)
    · cases hfold : rt.equalFold (StringMap.read data "skipTLSVerify") "true" with
      | true => rfl
      | false => exact absurd (by rw [hskip, hfold]; rfl) htls

theorem resolve_eq (rt : Runtime) (hend : if cfg.spec.credentialsSecret ≠ "" then
    cfg.spec.raasURL ≠ "" ∧ cfg.spec.masterID ≠ "" else d.configured = true) :
    ResolvesFrom rt cfg (credentialsKey d cfg) (resolve rt cfg d) := by
  unfold resolve credentialsKey
  by_cases hsecret : cfg.spec.credentialsSecret ≠ ""
  · rw [if_pos hsecret] at hend
    rw [if_pos hsecret, if_pos hsecret]
    exact resolveNamespaceSecret_eq hsecret hend
  · rw [if_neg hsecret] at hend
    rw [if_neg hsecret, if_neg hsecret]
    exact resolveDefault_eq (not_not.mp hsecret) hend

/-- Without an endpoint no Secret is read. -/
theorem resolve_malformed (rt : Runtime) (hend : ¬ if cfg.spec.credentialsSecret ≠ "" then
    cfg.spec.raasURL ≠ "" ∧ cfg.spec.masterID ≠ "" else d.configured = true) :
    ∃ e : ConnError, resolve rt cfg d = .fail e ∧ e.reason ∉ secretReasons := by
  unfold resolve
  by_cases hsecret : cfg.spec.credentialsSecret ≠ ""
  · rw [if_pos hsecret] at hend
    rw [if_pos hsecret]
    refine ⟨_, if_pos ?_, (by decide : reasonIncompleteSpec ∉ secretReasons)⟩
    by_contra hne
    exact hend (not_or.mp hne)
  · rw [if_neg hsecret] at hend
    rw [if_neg hsecret]
    refine ⟨_, if_pos ?_, (by decide : reasonDefaultNotSet ∉ secretReasons)⟩
    rw [Bool.not_eq_true']
    exact Bool.eq_false_iff.mpr hend

end resolve

section validate

variable {rt : Runtime} {d : Default} {cfg : SaltKeyConfig}

theorem Prog.eq_of_outcome {Op : Type} {Ans : Op → Type} {ε α : Type} {p : Prog Op Ans ε α}
    {r : Except ε α} (h : p.outcome = some r) : p = Prog.orFail id r := by
  cases p with
  | ret a =>
    cases h
    rfl
  | fail e =>
    cases h
    rfl
  | call o k => cases h

/-- The condition that goes with an outcome of `resolve`. -/
def verdictOf (cfg : SaltKeyConfig) : Except ConnError Connection → Condition
  | .error e => {
      type := "Ready"
      status := .false
      observedGeneration := cfg.generation
      reason := e.reason
      message := e.message }
  | .ok conn => {
      type := "Ready"
      status := .true
      observedGeneration := cfg.generation
      reason := reasonReady
      message :=
        if conn.source ≠ sourceDefaultConnection then "Credentials Secret found and valid"
        else if conn.skipTLSVerify then
          "Using the operator's default RaaS connection, TLS verification skipped"
        else "Using the operator's default RaaS connection, TLS verification on" }

theorem Resolves.judges {a : Except ApiErr StringMap} {r : Except ConnError Connection}
    (h : Resolves rt cfg a r) : Judges rt cfg a (verdictOf cfg r) := by
  rcases r with e | conn
  · refine ⟨rfl, rfl, ⟨fun ht => ?_, fun hs => ?_⟩, fun _ => ⟨rfl, h.reason e rfl⟩⟩
    · cases ht
    · obtain ⟨conn, hconn⟩ := h.ok_iff.mpr hs
      cases hconn
  · exact ⟨rfl, rfl, ⟨fun _ => h.ok_iff.mp ⟨conn, rfl⟩, fun _ => rfl⟩, fun hne => absurd rfl hne⟩

/-- The part of `validate` after the checks of the spec alone. -/
theorem validate_resolve (hdur : invalidDuration cfg.spec = none)
    (hsel : ∀ sel e, cfg.spec.vmSelector = some sel → rt.selector sel ≠ .error e) :
    validate rt d cfg = (resolve rt cfg d).attempt >>= fun r => .ret (verdictOf cfg r) := by
  have hbind {f : Except ConnError Connection → M Condition}
      (hf : ∀ r, f r = .ret (verdictOf cfg r)) :
      ((resolve rt cfg d).attempt >>= f) =
        (resolve rt cfg d).attempt >>= fun r => .ret (verdictOf cfg r) :=
    congrArg (Bind.bind _) (funext hf)
  unfold validate
  rw [hdur]
  cases hvm : cfg.spec.vmSelector with
  | none =>
    rw [Option.map_none]
    refine hbind fun r => ?_
    cases r <;> rfl
  | some sel =>
    cases hs : rt.selector sel with
    | error e => exact absurd hs (hsel sel e hvm)
    | ok f =>
      rw [Option.map_some, hs]
      refine hbind fun r => ?_
      cases r <;> rfl

/-- **What `validate` looks at**: the spec, and the Secret if the spec is well formed. -/
theorem validate_eq (rt : Runtime) (d : Default) (cfg : SaltKeyConfig) :
    (¬ WellFormed rt d cfg ∧ ∃ cond, validate rt d cfg = .ret cond ∧ Refuses cfg cond) ∨
    (WellFormed rt d cfg ∧ ∃ judge : Except ApiErr StringMap → Condition,
      validate rt d cfg = .call (.getSecret (credentialsKey d cfg)) (fun a => .ret (judge a)) ∧
      (∀ text, judge (.error (.notFound text)) = judge (.error (.notFound ""))) ∧
      ∀ a, Judges rt cfg a (judge a)) := by
  cases hdur : invalidDuration cfg.spec with
  | some fd =>
    refine .inl ⟨fun h => ?_, ?_⟩
    · rw [h.durations] at hdur
      cases hdur
    · obtain ⟨name, val, e⟩ := fd
      unfold validate
      rw [hdur]
      exact ⟨_, rfl, rfl, rfl, rfl, (by decide : reasonInvalidDuration ∉ secretReasons)⟩
  | none =>
    by_cases hsel : ∀ sel e, cfg.spec.vmSelector = some sel → rt.selector sel ≠ .error e
    · rw [validate_resolve hdur hsel]
      by_cases hend : if cfg.spec.credentialsSecret ≠ "" then
          cfg.spec.raasURL ≠ "" ∧ cfg.spec.masterID ≠ "" else d.configured = true
      · obtain ⟨k, hres, htext, hk⟩ := resolve_eq rt hend
        choose r hr hresolves using hk
        refine .inr ⟨⟨hdur, hsel, hend⟩, fun a => verdictOf cfg (r a), ?_, fun text => ?_,
          fun a => (hresolves a).judges⟩
        swap
        · have hsame := (hr _).symm.trans ((congrArg Prog.outcome (htext text)).trans (hr _))
          exact congrArg (verdictOf cfg) (Option.some.inj hsame)
        rw [hres]
        refine congrArg (Prog.call _) (funext fun a => ?_)
        show Prog.bind ((k a).attempt) _ = Prog.ret (verdictOf cfg (r a))
        rw [Prog.eq_of_outcome (hr a)]
        cases r a <;> rfl
      · obtain ⟨e, hres, hreason⟩ := resolve_malformed rt hend
        refine .inl ⟨fun h => hend h.endpoint, verdictOf cfg (.error e), ?_, rfl, rfl, rfl, hreason⟩
        rw [hres]
        rfl
    · push Not at hsel
      obtain ⟨sel, e, hvm, hs⟩ := hsel
      refine .inl ⟨fun h => h.selector sel e hvm hs, ?_⟩
      unfold validate
      rw [hdur, hvm, Option.map_some, hs]
      exact ⟨_, rfl, rfl, rfl, rfl, (by decide : reasonInvalidSelector ∉ secretReasons)⟩

/-- A Secret for a config: its own endpoint, or any if it names none. -/
def suitable (cfg : SaltKeyConfig) : StringMap :=
  let orAny (s : String) := if s = "" then "any" else s
  ((((({} : StringMap).insert "username" "user").insert "password" "secret").insert
    "skipTLSVerify" "true").insert "url" (orAny cfg.spec.raasURL)).insert
    "masterID" (orAny cfg.spec.masterID)

/-- **Every config can be served**, by some content of its Secret. -/
theorem suits_suitable (rt : Runtime) (cfg : SaltKeyConfig) : Suits rt cfg (suitable cfg) := by
  have huser : StringMap.read (suitable cfg) "username" = "user" := by
    simp [suitable, StringMap.read_insert]
  have hpassword : StringMap.read (suitable cfg) "password" = "secret" := by
    simp [suitable, StringMap.read_insert]
  have htls : StringMap.read (suitable cfg) "skipTLSVerify" = "true" := by
    simp [suitable, StringMap.read_insert]
  have hurl : StringMap.read (suitable cfg) "url" =
      if cfg.spec.raasURL = "" then "any" else cfg.spec.raasURL := by
    simp [suitable, StringMap.read_insert]
  have hmaster : StringMap.read (suitable cfg) "masterID" =
      if cfg.spec.masterID = "" then "any" else cfg.spec.masterID := by
    simp [suitable, StringMap.read_insert]
  have hany (s : String) : (if s = "" then "any" else s) ≠ "" := by
    split
    · decide
    · assumption
  have hsame (s : String) : s = "" ∨ s = if s = "" then "any" else s := by
    by_cases hs : s = ""
    · exact .inl hs
    · exact .inr (if_neg hs).symm
  unfold Suits
  split
  · rw [huser, hpassword]
    decide
  · refine ⟨fun k hk => ?_, hurl ▸ hsame _, hmaster ▸ hsame _, fun _ => htls ▸ rt.equalFold_self _⟩
    simp only [List.mem_cons, List.not_mem_nil, or_false] at hk
    rcases hk with rfl | rfl | rfl | rfl
    · exact hurl ▸ hany _
    · exact hmaster ▸ hany _
    · rw [huser]
      decide
    · rw [hpassword]
      decide

end validate

end SaltOperator
