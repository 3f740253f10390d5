import SaltOperator.Properties.ConfigStatus

/-!
# The controllers of configs come to rest

The enrolment controller creates, patches and deletes configs; the controller of configs writes
their statuses. Each is woken by what the other writes, and by what it writes itself. Here passes of
both, over any configs and namespaces, follow one another in any order, each with fresh reads, and
nobody else does anything.

- `controllers_rest`: **no more than `2 * remaining + unjudged` passes ever change anything**, with
  what remains to be done in all namespaces that are not being deleted, and the passes are through
  exactly when the operator's configs are as they should be in these namespaces and every status
  tells the verdict on its config.
- `rest_serves`: **then a VM of the namespace finds a config exactly if there is one that can be
  served**, and the one it finds can be.
-/

namespace SaltOperator

/-! ## Passes without disturbance -/

/-- What is stored now is what is read, and what can be written is. `spaces` are the namespaces. -/
def FreshAnswer (spaces : List Namespace) (w : ConfigWorld) : (o : ConfigOp) → o.Ans → Prop
  | .get key, a => (∃ v ∈ w.store.objects, configKind.key v = key ∧ a = .ok v) ∨
      (key ∉ w.store.objects.map configKind.key ∧ ∃ text, a = .error (.notFound text))
  | .patchStatus _ obj, a =>
      configKind.key obj ∈ w.store.objects.map configKind.key → ∃ v, a = .ok v
  | .enrolment (.getNamespace name), a => (∃ ns ∈ spaces, ns.name = name ∧ a = .ok ns) ∨
      (name ∉ spaces.map Namespace.name ∧ ∃ text, a = .error (.notFound text))
  | .enrolment (.listConfigs nspace), a => ∃ configs, a = .ok configs ∧
      configs.Perm ((w.store.objects.map StoredConfig.toSaltKeyConfig).filter (·.nspace = nspace))
  | .enrolment (.createConfig cfg), a =>
      cfg.key ∉ w.store.objects.map configKind.key → ∃ c, a = .ok c
  | .enrolment (.patchConfig _ obj), a =>
      obj.key ∈ w.store.objects.map configKind.key → ∃ c, a = .ok c
  | .enrolment (.deleteConfig key), a =>
      key ∈ w.store.objects.map configKind.key → a = .ok ()
  | .controller (.getSecret key), a => (∀ data, w.secrets key = some data → a = .ok data) ∧
      (w.secrets key = none → ∃ text, a = .error (.notFound text))
  | _, _ => True

/-- Calls that nobody disturbs. -/
def FreshExec (spaces : List Namespace) (w : ConfigWorld) (o : ConfigOp) (a : o.Ans)
    (w' : ConfigWorld) : Prop :=
  ConfigExec w o a w' ∧ FreshAnswer spaces w o a

/-- A pass of one of the controllers. -/
inductive ConfigRound (rt : Runtime) (d : Default) (e : Enrolment) (spaces : List Namespace)
    (w w' : ConfigWorld) : Prop where
  | config (key r h) : (reconcileConfig rt d key).Runs (FreshExec spaces) w [] r w' h →
      ConfigRound rt d e spaces w w'
  | enrolment (name r h) : (enrolmentPass e name).Runs (FreshExec spaces) w [] r w' h →
      ConfigRound rt d e spaces w w'

/-- A config but for its resource version. -/
def StoredConfig.content (v : StoredConfig) : StoredConfig := { v with resourceVersion := "" }

namespace ConfigWorld

/-- The configs of a namespace. -/
def contents (w : ConfigWorld) (nspace : String) : Contents nspace where
  configs := (w.store.objects.map StoredConfig.toSaltKeyConfig).filter (·.nspace = nspace)
  here cfg hcfg := of_decide_eq_true (List.mem_filter.mp hcfg).2
  names := by
    have hkeys : (((w.store.objects.map StoredConfig.toSaltKeyConfig).filter
        (·.nspace = nspace)).map SaltKeyConfig.key).Nodup := by
      refine List.Nodup.sublist (List.filter_sublist.map _) ?_
      rw [List.map_map]
      exact w.store.keys
    have hname : ((w.store.objects.map StoredConfig.toSaltKeyConfig).filter
        (·.nspace = nspace)).map SaltKeyConfig.key =
        (((w.store.objects.map StoredConfig.toSaltKeyConfig).filter (·.nspace = nspace)).map
          SaltKeyConfig.name).map (NamespacedName.mk nspace) := by
      rw [List.map_map]
      refine List.map_congr_left fun cfg hcfg => ?_
      show (⟨cfg.nspace, cfg.name⟩ : NamespacedName) = ⟨nspace, cfg.name⟩
      rw [of_decide_eq_true (List.mem_filter.mp hcfg).2]
    rw [hname] at hkeys
    exact hkeys.of_map _

/-- Nothing is different but resource versions. -/
def SameContent (w w' : ConfigWorld) : Prop :=
  w'.store.objects.map StoredConfig.content = w.store.objects.map StoredConfig.content ∧
    w'.secrets = w.secrets

end ConfigWorld

/-! ## The verdict -/

/-- The answer about a Secret. -/
def readFrom (secrets : NamespacedName → Option StringMap) (key : NamespacedName) :
    Except ApiErr StringMap :=
  match secrets key with
  | some data => .ok data
  | none => .error (.notFound "")

/-- A program that reads Secrets only, run on these. -/
def Prog.evalSecrets {ε α : Type} (secrets : NamespacedName → Option StringMap) :
    Prog Op Op.Ans ε α → Option (Except ε α)
  | .ret a => some (.ok a)
  | .fail e => some (.error e)
  | .call (.getSecret key) k => (k (readFrom secrets key)).evalSecrets secrets
  | .call _ _ => none

/-- The verdict on a config by the Secrets there are. -/
def verdictIn (rt : Runtime) (d : Default) (secrets : NamespacedName → Option StringMap)
    (cfg : SaltKeyConfig) : Option Condition :=
  ((validate rt d cfg).evalSecrets secrets).bind Except.toOption

/-- The status tells it. -/
def judgedIn (rt : Runtime) (d : Default) (secrets : NamespacedName → Option StringMap)
    (cfg : StoredConfig) : Bool :=
  (verdictIn rt d secrets cfg.toSaltKeyConfig).all fun cond =>
    setStatusCondition cond cfg.conditions = cfg.conditions ∧
      cfg.observedGeneration = cfg.generation

/-- The configs whose status does not. -/
def unjudged (rt : Runtime) (d : Default) (w : ConfigWorld) : Nat :=
  w.store.objects.countP fun cfg => !judgedIn rt d w.secrets cfg

/-- The config can be served. -/
def Servable (rt : Runtime) (d : Default) (secrets : NamespacedName → Option StringMap)
    (cfg : SaltKeyConfig) : Prop :=
  WellFormed rt d cfg ∧ ∃ data, secrets (credentialsKey d cfg) = some data ∧ Suits rt cfg data

section verdict

variable {rt : Runtime} {d : Default} {secrets : NamespacedName → Option StringMap}
  {cfg : SaltKeyConfig} {spaces : List Namespace} {w w' : ConfigWorld} {h h' : List ConfigCall}

/-- There is a verdict, and it is that of a run. -/
theorem exists_verdictIn (rt : Runtime) (d : Default)
    (secrets : NamespacedName → Option StringMap) (cfg : SaltKeyConfig) :
    ∃ cond, verdictIn rt d secrets cfg = some cond ∧ cond.type = "Ready" ∧
      (cond.status = .true ↔ Servable rt d secrets cfg) := by
  unfold verdictIn
  rcases validate_eq rt d cfg with ⟨hno, cond, heq, hcond⟩ | ⟨hwf, judge, heq, -, hjudge⟩
  · rw [heq]
    refine ⟨cond, rfl, hcond.type, fun ht => ?_, fun hs => absurd hs.1 hno⟩
    rw [hcond.status] at ht
    cases ht
  · rw [heq]
    refine ⟨judge (readFrom secrets (credentialsKey d cfg)), rfl, (hjudge _).type, ?_⟩
    rw [(hjudge _).ready_iff]
    unfold readFrom Servable
    cases hdata : secrets (credentialsKey d cfg) with
    | none => simp
    | some data => simp [hwf]

theorem runs_validateConfig {r : Except String Condition}
    (hr : (validateConfig rt d cfg).Runs (FreshExec spaces) w h r w' h') :
    w' = w ∧ ∃ cond, r = .ok cond ∧ verdictIn rt d w.secrets cfg = some cond := by
  unfold validateConfig at hr
  unfold verdictIn
  rcases validate_eq rt d cfg with ⟨-, cond, heq, -⟩ | ⟨-, judge, heq, htext, -⟩
  · rw [heq] at hr ⊢
    obtain ⟨rfl, rfl, -⟩ := Prog.runs_ret.mp hr
    exact ⟨rfl, cond, rfl, rfl⟩
  · rw [heq] at hr ⊢
    obtain ⟨a, w₁, ⟨hx, hsome, hnone⟩, hr⟩ := Prog.runs_call.mp hr
    obtain ⟨rfl, rfl, -⟩ := Prog.runs_ret.mp hr
    have hsame : w' = w := by
      cases hx.change
      rfl
    refine ⟨hsame, judge a, rfl, ?_⟩
    show some (judge (readFrom w.secrets (credentialsKey d cfg))) = _
    unfold readFrom
    cases hdata : w.secrets (credentialsKey d cfg) with
    | some data => rw [hsome data hdata]
    | none =>
      obtain ⟨text, rfl⟩ := hnone hdata
      rw [htext text]

/-- Setting a condition twice is setting it once. -/
theorem setStatusCondition_idem (cond : Condition) (conditions : List Condition) :
    setStatusCondition cond (setStatusCondition cond conditions) =
      setStatusCondition cond conditions := by
  induction conditions with
  | nil => exact if_pos rfl
  | cons c rest ih =>
    by_cases hc : c.type = cond.type
    · have hset : setStatusCondition cond (c :: rest) = cond :: rest := if_pos hc
      rw [hset]
      exact if_pos rfl
    · have hset :
          setStatusCondition cond (c :: rest) = c :: setStatusCondition cond rest := if_neg hc
      rw [hset]
      exact (if_neg hc).trans (congrArg (List.cons c) ih)

/-- The config with its verdict written. -/
def StoredConfig.told (cfg : StoredConfig) (cond : Condition) (version : String) : StoredConfig :=
  { cfg with
    resourceVersion := version
    conditions := setStatusCondition cond cfg.conditions
    observedGeneration := cfg.generation }

/-- A status that is patched from what is stored is as it is meant to be. -/
theorem statusPatched_judged (cfg : StoredConfig) (cond : Condition) (version : String) :
    cfg.statusPatched cfg (cfg.judged cond) version = cfg.told cond version := by
  unfold StoredConfig.statusPatched StoredConfig.told
  rw [mergeWhole_cur, mergeWhole_cur]
  rfl

theorem judgedIn_told {cfg : StoredConfig} {cond : Condition} (version : String)
    (hcond : verdictIn rt d secrets cfg.toSaltKeyConfig = some cond) :
    judgedIn rt d secrets (cfg.told cond version) = true := by
  have hsame : verdictIn rt d secrets (cfg.told cond version).toSaltKeyConfig = some cond := hcond
  unfold judgedIn
  rw [hsame]
  exact decide_eq_true ⟨setStatusCondition_idem cond cfg.conditions, rfl⟩

/-- If the status tells the verdict already, nothing is changed. -/
theorem told_content {cfg : StoredConfig} {cond : Condition} (version : String)
    (hcond : verdictIn rt d secrets cfg.toSaltKeyConfig = some cond)
    (hj : judgedIn rt d secrets cfg = true) : (cfg.told cond version).content = cfg.content := by
  unfold judgedIn at hj
  rw [hcond] at hj
  obtain ⟨hset, hgen⟩ := of_decide_eq_true hj
  unfold StoredConfig.told StoredConfig.content
  rw [hset, ← hgen]

theorem runs_configLog {α : Type} {message : String} {fields : List (String × String)}
    {f : Unit → ConfigM α} {r : Except String α}
    (hr : (configLog message fields >>= f).Runs (FreshExec spaces) w h r w' h') :
    ∃ h₁, (f ()).Runs (FreshExec spaces) w h₁ r w' h' := by
  obtain ⟨a, w₁, ⟨hx, -⟩, hr⟩ := Prog.runs_perform_bind.mp hr
  obtain rfl : w₁ = w := hx
  exact ⟨_, hr⟩

theorem runs_reportVerdict {cond : Condition} {r : Except String Result}
    (hr : (reportVerdict rt cond).Runs (FreshExec spaces) w h r w' h') : w' = w := by
  unfold reportVerdict at hr
  dsimp only at hr
  split at hr
  · obtain ⟨h₁, hr⟩ := runs_configLog hr
    exact (Prog.runs_ret.mp hr).2.1
  · split at hr
    · obtain ⟨h₁, hr⟩ := runs_configLog hr
      exact (Prog.runs_ret.mp hr).2.1
    · obtain ⟨h₁, hr⟩ := runs_configLog hr
      exact (Prog.runs_ret.mp hr).2.1

/-- **What a pass over a config does**: nothing if there is none, and otherwise it writes the
verdict into its status. -/
theorem runs_reconcileConfig {key : NamespacedName} {r : Except String Result}
    (hr : (reconcileConfig rt d key).Runs (FreshExec spaces) w h r w' h') :
    (key ∉ w.store.objects.map configKind.key ∧ w' = w) ∨
    ∃ cfg, ∃ hcfg : cfg ∈ w.store.objects, ∃ cond version, configKind.key cfg = key ∧
      verdictIn rt d w.secrets cfg.toSaltKeyConfig = some cond ∧
      w' = w.replace hcfg (cfg.statusPatched_next cfg (cfg.judged cond) version) := by
  obtain ⟨a, w₁, ⟨hx, hfresh⟩, hr⟩ := Prog.runs_perform_bind.mp hr
  rcases hfresh with ⟨cfg, hcfg, hkey, rfl⟩ | ⟨hnone, text, rfl⟩
  · obtain ⟨-, rfl⟩ := hx
    right
    rcases Prog.runs_bind.mp hr with ⟨cond, w₂, h₂, hv, hwrite⟩ | ⟨e, -, hv⟩
    · obtain ⟨rfl, cond', hcond', hverdict⟩ := runs_validateConfig hv
      cases hcond'
      obtain ⟨a, w₃, ⟨hx, hfresh⟩, hreport⟩ := Prog.runs_perform_bind.mp hwrite
      obtain ⟨v, rfl⟩ := hfresh (List.mem_map.mpr ⟨cfg, hcfg, rfl⟩)
      obtain ⟨cur, version, hcur, hkey', -, rfl⟩ := hx
      obtain rfl := Store.eq_of_key hcur hcfg hkey'
      exact ⟨cur, hcur, cond, version, hkey, hverdict, runs_reportVerdict hreport⟩
    · obtain ⟨-, cond, hcond, -⟩ := runs_validateConfig hv
      cases hcond
  · obtain rfl : w₁ = w := hx
    exact .inl ⟨hnone, (Prog.runs_ret.mp hr).2.1⟩

end verdict

/-! ## What is left to do -/

section measure

variable {rt : Runtime} {d : Default} {e : Enrolment} {ns : Namespace} {spaces : List Namespace}
  {w w' : ConfigWorld}

/-- What the enrolment controller has still to do depends on whose the configs are, and on their
key acceptance. -/
theorem remaining_congr {a b : Contents ns.name}
    (h : a.configs.map (fun cfg => (cfg.enrolled, cfg.spec.keyAcceptance)) =
      b.configs.map (fun cfg => (cfg.enrolled, cfg.spec.keyAcceptance))) :
    remaining e ns a = remaining e ns b := by
  have hown : a.own.map (fun cfg => (cfg.enrolled, cfg.spec.keyAcceptance)) =
      b.own.map (fun cfg => (cfg.enrolled, cfg.spec.keyAcceptance)) := by
    have hfilter := congrArg (List.filter fun p : Bool × String => p.1) h
    rw [List.filter_map, List.filter_map] at hfilter
    exact hfilter
  have hteam : a.team = [] ↔ b.team = [] := by
    have hfilter := congrArg (List.filter fun p : Bool × String => !p.1) h
    rw [List.filter_map, List.filter_map] at hfilter
    have hlen := congrArg List.length hfilter
    rw [List.length_map, List.length_map] at hlen
    have hlen' : a.team.length = b.team.length := hlen
    rw [← List.length_eq_zero_iff, ← List.length_eq_zero_iff, hlen']
  have hlen : a.own.length = b.own.length := by
    have := congrArg List.length hown
    rwa [List.length_map, List.length_map] at this
  unfold remaining
  simp only [hteam]
  split
  · generalize a.own = xs at hown hlen
    generalize b.own = ys at hown hlen
    rcases xs with _ | ⟨x, _ | ⟨x', xs⟩⟩ <;> rcases ys with _ | ⟨y, _ | ⟨y', ys⟩⟩ <;>
      simp_all
  · exact hlen

/-- The writes still to be made in a namespace: none if it is being deleted. -/
def remainingIn (e : Enrolment) (w : ConfigWorld) (ns : Namespace) : Nat :=
  if ns.deletionTimestamp = none then remaining e ns (w.contents ns.name) else 0

/-- Everything that is left to do. -/
def leftToDo (rt : Runtime) (d : Default) (e : Enrolment) (spaces : List Namespace)
    (w : ConfigWorld) : Nat :=
  2 * (spaces.map (remainingIn e w)).sum + unjudged rt d w

/-- The controllers have this effect: nothing changes, or there is less left to do. -/
def Progress (rt : Runtime) (d : Default) (e : Enrolment) (spaces : List Namespace)
    (w w' : ConfigWorld) : Prop :=
  (w.SameContent w' ∧ leftToDo rt d e spaces w' = leftToDo rt d e spaces w) ∨
    leftToDo rt d e spaces w' < leftToDo rt d e spaces w

theorem Progress.refl : Progress rt d e spaces w w := .inl ⟨⟨rfl, rfl⟩, rfl⟩

/-- What the enrolment controller looks at. -/
def enrolmentView (v : StoredConfig) : String × Bool × String :=
  (v.nspace, v.enrolled, v.spec.keyAcceptance)

theorem remaining_eq_of_view (h : w'.store.objects.map enrolmentView =
    w.store.objects.map enrolmentView) :
    remaining e ns (w'.contents ns.name) = remaining e ns (w.contents ns.name) := by
  have hview (w : ConfigWorld) : (w.contents ns.name).configs.map
      (fun cfg => (cfg.enrolled, cfg.spec.keyAcceptance)) =
      ((w.store.objects.map enrolmentView).filter fun p => p.1 = ns.name).map Prod.snd := by
    show List.map _ (List.filter _ (List.map _ _)) = _
    rw [List.filter_map, List.filter_map, List.map_map, List.map_map]
    rfl
  refine remaining_congr ?_
  rw [hview, hview, h]

theorem config_progress {key : NamespacedName} {r : Except String Result} {h h' : List ConfigCall}
    (hr : (reconcileConfig rt d key).Runs (FreshExec spaces) w h r w' h') :
    Progress rt d e spaces w w' := by
  rcases runs_reconcileConfig hr with ⟨-, rfl⟩ | ⟨cfg, hcfg, cond, version, -, hcond, rfl⟩
  · exact .refl
  · have htold := statusPatched_judged cfg cond version
    have hobjects : (w.replace hcfg (cfg.statusPatched_next cfg (cfg.judged cond)
        version)).store.objects =
          Store.putIn configKind (cfg.told cond version) w.store.objects := by
      rw [← htold]
      rfl
    have hremaining : spaces.map (remainingIn e (w.replace hcfg (cfg.statusPatched_next cfg
        (cfg.judged cond) version))) = spaces.map (remainingIn e w) := by
      refine List.map_congr_left fun ns _ => if_congr Iff.rfl (remaining_eq_of_view ?_) rfl
      rw [hobjects]
      exact Store.map_putIn w.store.keys hcfg rfl rfl
    have hcount : unjudged rt d (w.replace hcfg (cfg.statusPatched_next cfg (cfg.judged cond)
        version)) + (!judgedIn rt d w.secrets cfg).toNat = unjudged rt d w := by
      have hput := Store.countP_putIn (v := cfg.told cond version)
        (p := fun cfg => !judgedIn rt d w.secrets cfg) w.store.keys hcfg rfl
      rw [judgedIn_told version hcond] at hput
      unfold unjudged
      rw [hobjects]
      exact hput
    unfold Progress leftToDo
    rw [hremaining]
    cases hj : judgedIn rt d w.secrets cfg with
    | true =>
      -- the status is as it was
      rw [hj] at hcount
      refine .inl ⟨⟨?_, rfl⟩, ?_⟩
      · rw [hobjects]
        exact Store.map_putIn w.store.keys hcfg rfl (told_content version hcond hj)
      · have : (!true).toNat = 0 := rfl
        omega
    | false =>
      rw [hj] at hcount
      have : (!false).toNat = 1 := rfl
      right
      omega

end measure

section enrolment

variable {rt : Runtime} {d : Default} {e : Enrolment} {ns : Namespace} {spaces : List Namespace}
  {w w' : ConfigWorld} {own : SaltKeyConfig}

/-- The calls of the enrolment controller that nobody disturbs. -/
def FreshEnrolment (spaces : List Namespace) (w : ConfigWorld) (o : EnrolmentOp) (a : o.Ans)
    (w' : ConfigWorld) : Prop :=
  FreshExec spaces w (.enrolment o) a w'

abbrev FreshCalls := List (Call EnrolmentOp EnrolmentOp.Ans ConfigWorld)

/-- A run among the calls of all is one among its own. -/
theorem runs_of_interp {α : Type} {p : EnrolM α} {r : Except String α} {h h' : List ConfigCall}
    (hr : (p.interp fun o => Prog.perform (ConfigOp.enrolment o) : ConfigM α).Runs
      (FreshExec spaces)
      w h r w' h') (g : FreshCalls) : ∃ g', p.Runs (FreshEnrolment spaces) w g r w' g' := by
  induction p generalizing w h g with
  | ret a =>
    obtain ⟨rfl, rfl, -⟩ := Prog.runs_ret.mp hr
    exact ⟨g, .ret⟩
  | fail err =>
    obtain ⟨rfl, rfl, -⟩ := Prog.runs_fail.mp hr
    exact ⟨g, .fail⟩
  | call o k ih =>
    obtain ⟨a, w₁, hx, hk⟩ := Prog.runs_call.mp hr
    obtain ⟨g', hg⟩ := ih a hk (⟨w, o, a⟩ :: g)
    exact ⟨g', .call hx hg⟩

/-- A config of the namespace, as it is stored. -/
theorem mem_contents {nspace : String} (h : own ∈ (w.contents nspace).configs) :
    own.nspace = nspace ∧ ∃ v ∈ w.store.objects, v.toSaltKeyConfig = own := by
  obtain ⟨hmem, hns⟩ := List.mem_filter.mp h
  exact ⟨of_decide_eq_true hns, List.mem_map.mp hmem⟩

theorem runs_freshLog {α : Type} {message : String} {fields : List (String × String)}
    {f : Unit → EnrolM α} {r : Except String α} {g g' : FreshCalls}
    (hr : (enrolmentLog message fields >>= f).Runs (FreshEnrolment spaces) w g r w' g') :
    ∃ g₁, (f ()).Runs (FreshEnrolment spaces) w g₁ r w' g' := by
  obtain ⟨a, w₁, ⟨hx, -⟩, hr⟩ := Prog.runs_perform_bind.mp hr
  obtain rfl : w₁ = w := hx
  exact ⟨_, hr⟩

/-- The effect of a pass over a namespace. -/
def EnrolmentProgress (rt : Runtime) (d : Default) (e : Enrolment) (ns : Namespace)
    (w w' : ConfigWorld) : Prop :=
  (w' = w ∧ Settled e ns (w.contents ns.name)) ∨
    (EnrolmentStep e ns (w.contents ns.name) (w'.contents ns.name) ∧
      w'.contents ns.name ≠ w.contents ns.name ∧ unjudged rt d w' ≤ unjudged rt d w + 1 ∧
      ∀ nspace ≠ ns.name, (w'.contents nspace).configs = (w.contents nspace).configs)

theorem EnrolmentProgress.progress (h : EnrolmentProgress rt d e ns w w')
    (hnames : (spaces.map Namespace.name).Nodup) (hmem : ns ∈ spaces)
    (hns : ns.deletionTimestamp = none) : Progress rt d e spaces w w' := by
  rcases h with ⟨rfl, -⟩ | ⟨hstep, hne, hcount, hothers⟩
  · exact .refl
  · rcases hstep.progress with hlt | ⟨-, heq⟩
    · -- there is less to do here, and as much as before elsewhere
      have hhere : remainingIn e w' ns < remainingIn e w ns := by
        unfold remainingIn
        rw [if_pos hns, if_pos hns]
        exact hlt
      have hsum : (spaces.map (remainingIn e w')).sum < (spaces.map (remainingIn e w)).sum := by
        refine List.sum_lt_sum _ _ (fun other hother => ?_) ⟨ns, hmem, hhere⟩
        by_cases hname : other.name = ns.name
        · rw [List.inj_on_of_nodup_map hnames hother hmem hname]
          exact hhere.le
        · refine (if_congr Iff.rfl (remaining_congr ?_) rfl).le
          rw [hothers _ hname]
      right
      unfold leftToDo
      omega
    · exact absurd heq hne

theorem contents_delete (w : ConfigWorld) (nspace name : String) :
    ((w.delete ⟨nspace, name⟩).contents nspace).configs =
      (w.contents nspace).configs.filter (·.name ≠ name) := by
  show List.filter _ (List.map _ (List.filter _ _)) = List.filter _ (List.filter _ (List.map _ _))
  rw [List.filter_map, List.filter_map, List.filter_map, List.filter_filter, List.filter_filter]
  refine congrArg _ (List.filter_congr fun v _ => ?_)
  show (decide (v.nspace = nspace) && decide (configKind.key v ≠ ⟨nspace, name⟩)) =
    (decide (v.name ≠ name) && decide (v.nspace = nspace))
  by_cases hns : v.nspace = nspace
  · have hkey : configKind.key v ≠ ⟨nspace, name⟩ ↔ v.name ≠ name := by
      show (⟨v.nspace, v.name⟩ : NamespacedName) ≠ _ ↔ _
      rw [hns]
      simp
    simp only [hns, hkey, decide_true, Bool.true_and, Bool.and_true]
  · simp only [hns, decide_false, Bool.false_and, Bool.and_false]

theorem contents_delete_of_ne (w : ConfigWorld) (name : String) {nspace other : String}
    (hne : other ≠ nspace) :
    ((w.delete ⟨nspace, name⟩).contents other).configs = (w.contents other).configs := by
  show List.filter _ (List.map _ (List.filter _ _)) = List.filter _ (List.map _ _)
  rw [List.filter_map, List.filter_map, List.filter_filter]
  refine congrArg _ (List.filter_congr fun v _ => ?_)
  show (decide (v.nspace = other) && decide (configKind.key v ≠ ⟨nspace, name⟩)) =
    decide (v.nspace = other)
  by_cases hns : v.nspace = other
  · have hkey : configKind.key v ≠ ⟨nspace, name⟩ := fun h =>
      hne (hns.symm.trans (congrArg NamespacedName.nspace h))
    rw [decide_eq_true hkey, Bool.and_true]
  · simp only [hns, decide_false, Bool.false_and]

theorem removeOwn_progress {message : String} {r : Except String Result} {g g' : FreshCalls}
    (hmem : own ∈ (w.contents ns.name).configs) (hown : own.enrolled = true)
    (hmany : e.matchesNamespace ns = true → 1 < (w.contents ns.name).configs.length)
    (hr : (removeOwnConfig ns own message).Runs (FreshEnrolment spaces) w g r w' g') :
    EnrolmentProgress rt d e ns w w' := by
  obtain ⟨hns, v, hv, hown'⟩ := mem_contents hmem
  obtain ⟨g₁, hr⟩ := runs_freshLog hr
  obtain ⟨a, w₁, ⟨hx, hfresh⟩, hr⟩ := Prog.runs_perform_bind.mp hr
  obtain rfl : a = .ok () := hfresh (List.mem_map.mpr ⟨v, hv, hown' ▸ rfl⟩)
  obtain ⟨-, rfl⟩ := hx
  obtain ⟨-, rfl, -⟩ := Prog.runs_ret.mp hr
  rw [hns]
  have hconfigs := contents_delete w ns.name own.name
  refine .inr ⟨.removed own hmem hown hmany hconfigs, fun heq => ?_, ?_,
    fun _ hne => contents_delete_of_ne w own.name hne⟩
  · rw [← heq, hconfigs] at hmem
    exact of_decide_eq_true (List.mem_filter.mp hmem).2 rfl
  · have hle : unjudged rt d (w.delete ⟨ns.name, own.name⟩) ≤ unjudged rt d w :=
      List.filter_sublist.countP_le
    omega

/-- The only config of the namespace is replaced. -/
theorem contents_replace {cur v : StoredConfig} {nspace : String} (hcur : cur ∈ w.store.objects)
    (hv : configKind.Next cur v) (hw : (w.contents nspace).configs = [cur.toSaltKeyConfig]) :
    ((w.replace hcur hv).contents nspace).configs = [v.toSaltKeyConfig] := by
  have hns : cur.nspace = nspace :=
    (w.contents nspace).here cur.toSaltKeyConfig (by rw [hw]; exact List.mem_singleton_self _)
  have honly : w.store.objects.filter (fun a => a.nspace = nspace) = [cur] := by
    have hmap : (w.store.objects.filter (fun a => a.nspace = nspace)).map
        StoredConfig.toSaltKeyConfig = [cur.toSaltKeyConfig] := by
      rw [← hw]
      exact (List.filter_map (f := StoredConfig.toSaltKeyConfig)
        (p := fun cfg : SaltKeyConfig => cfg.nspace = nspace)).symm
    have hlen := congrArg List.length hmap
    rw [List.length_map] at hlen
    obtain ⟨x, hx⟩ := List.length_eq_one_iff.mp hlen
    have hmem : cur ∈ w.store.objects.filter (fun a => a.nspace = nspace) :=
      List.mem_filter.mpr ⟨hcur, decide_eq_true hns⟩
    rw [hx] at hmem ⊢
    rw [List.mem_singleton.mp hmem]
  have hput : (Store.putIn configKind v w.store.objects).filter
      (fun a => a.nspace = nspace) = [v] := by
    have hq (a : StoredConfig) (ha : configKind.key a = configKind.key v) :
        decide (a.nspace = nspace) = decide (v.nspace = nspace) :=
      congrArg (fun k : NamespacedName => decide (k.nspace = nspace)) ha
    rw [Store.filter_putIn hq, honly]
    exact congrArg (fun x => [x]) (if_pos hv.key.symm)
  show List.filter _ (List.map _ (Store.putIn configKind v w.store.objects)) = _
  rw [List.filter_map]
  exact congrArg (List.map StoredConfig.toSaltKeyConfig) hput

theorem contents_replace_of_ne {cur v : StoredConfig} {other : String}
    (hcur : cur ∈ w.store.objects) (hv : configKind.Next cur v) (hne : other ≠ cur.nspace) :
    ((w.replace hcur hv).contents other).configs = (w.contents other).configs := by
  have hvns : v.nspace = cur.nspace := congrArg NamespacedName.nspace hv.key
  have hput : (Store.putIn configKind v w.store.objects).filter (fun a => a.nspace = other) =
      w.store.objects.filter (fun a => a.nspace = other) := by
    have hq (a : StoredConfig) (ha : configKind.key a = configKind.key v) :
        decide (a.nspace = other) = decide (v.nspace = other) :=
      congrArg (fun k : NamespacedName => decide (k.nspace = other)) ha
    rw [Store.filter_putIn hq]
    -- the config that is replaced is not among those of the other namespace
    refine (List.map_congr_left fun a ha => if_neg fun hkey => hne ?_).trans (List.map_id _)
    have hans : a.nspace = other := of_decide_eq_true (List.mem_filter.mp ha).2
    rw [← hans, ← hvns]
    exact congrArg NamespacedName.nspace hkey
  show List.filter _ (List.map _ (Store.putIn configKind v w.store.objects)) =
    List.filter _ (List.map _ w.store.objects)
  rw [List.filter_map, List.filter_map]
  exact congrArg (List.map StoredConfig.toSaltKeyConfig) hput

theorem adjustOwn_progress {r : Except String Result} {g g' : FreshCalls}
    (hkey : e.keyAcceptance ≠ "") (hmatch : e.matchesNamespace ns = true)
    (hw : (w.contents ns.name).configs = [own]) (hown : own.enrolled = true)
    (hr : (adjustOwnConfig e ns own).Runs (FreshEnrolment spaces) w g r w' g') :
    EnrolmentProgress rt d e ns w w' := by
  unfold adjustOwnConfig at hr
  split at hr
  · rename_i hne
    have hmem : own ∈ (w.contents ns.name).configs := by
      rw [hw]
      exact List.mem_singleton_self _
    obtain ⟨hns, v, hv, hown'⟩ := mem_contents hmem
    obtain ⟨a, w₁, ⟨hx, hfresh⟩, hr⟩ := Prog.runs_perform_bind.mp hr
    obtain ⟨c, rfl⟩ := hfresh (List.mem_map.mpr ⟨v, hv, hown' ▸ rfl⟩)
    obtain ⟨cur, version, hcur, hcurkey, -, rfl⟩ := hx
    obtain rfl : cur = v := Store.eq_of_key hcur hv (hcurkey.trans (hown' ▸ rfl))
    obtain ⟨g₁, hr⟩ := runs_freshLog hr
    obtain ⟨-, rfl, -⟩ := Prog.runs_ret.mp hr
    subst hown'
    -- the one config of the namespace is replaced by one with the right key acceptance
    have hnew := contents_replace hcur (cur.keyAcceptancePatched_next cur.toSaltKeyConfig
      (cur.toSaltKeyConfig.withKeyAcceptance e.keyAcceptance) version) hw
    have hacceptance : (cur.keyAcceptancePatched cur.toSaltKeyConfig
        (cur.toSaltKeyConfig.withKeyAcceptance e.keyAcceptance) version).spec.keyAcceptance =
        e.keyAcceptance := mergeWhole_ne hne.2 _
    refine .inr ⟨.adjusted _ _ hmatch hw hown hne.2 hnew hown hacceptance, fun heq => ?_, ?_,
      fun _ hother => contents_replace_of_ne hcur _ (hns ▸ hother)⟩
    · rw [heq, hw] at hnew
      have hspec := congrArg (fun l : List SaltKeyConfig => l.map (·.spec.keyAcceptance)) hnew
      exact hne.2 ((List.cons.inj hspec).1.trans hacceptance)
    · have hput := Store.countP_putIn (v := cur.keyAcceptancePatched cur.toSaltKeyConfig
        (cur.toSaltKeyConfig.withKeyAcceptance e.keyAcceptance) version)
        (p := fun cfg => !judgedIn rt d w.secrets cfg) w.store.keys hcur rfl
      have hone (b : Bool) : b.toNat ≤ 1 := Bool.toNat_le b
      have hv := hone (!judgedIn rt d w.secrets (cur.keyAcceptancePatched cur.toSaltKeyConfig
        (cur.toSaltKeyConfig.withKeyAcceptance e.keyAcceptance) version))
      show List.countP _ _ ≤ List.countP _ _ + 1
      exact le_trans (le_trans (Nat.le_add_right _ _) hput.le) (Nat.add_le_add_left hv _)
  · rename_i hno
    have hsame : own.spec.keyAcceptance = e.keyAcceptance := by
      by_contra hne
      exact hno ⟨hkey, hne⟩
    obtain ⟨-, rfl, -⟩ := Prog.runs_ret.mp hr
    refine .inl ⟨rfl, ?_⟩
    simp [Settled, Contents.team, Contents.own, hmatch, hw, hown, hsame]

theorem contents_create (w : ConfigWorld) (cfg : SaltKeyConfig) (version : String)
    (hkey : cfg.key ∉ w.store.objects.map configKind.key) :
    ((w.create cfg version hkey).contents cfg.nspace).configs =
      (cfg.stored w.store.next version).toSaltKeyConfig :: (w.contents cfg.nspace).configs :=
  List.filter_cons_of_pos (p := fun c : SaltKeyConfig => c.nspace = cfg.nspace) (decide_eq_true rfl)

theorem contents_create_of_ne (w : ConfigWorld) (cfg : SaltKeyConfig) (version : String)
    (hkey : cfg.key ∉ w.store.objects.map configKind.key) {other : String}
    (hne : other ≠ cfg.nspace) :
    ((w.create cfg version hkey).contents other).configs = (w.contents other).configs :=
  List.filter_cons_of_neg (p := fun c : SaltKeyConfig => c.nspace = other)
    fun h => hne (of_decide_eq_true h).symm

/-- In a namespace without configs the operator creates its own. -/
theorem enrolNamespace_creates {r : Except String Result} {g g' : FreshCalls}
    (hw : (w.contents ns.name).configs = [])
    (hr : (enrolNamespace e ns).Runs (FreshEnrolment spaces) w g r w' g') :
    ∃ version hkey, w' = w.create (enrolledConfig e ns) version hkey := by
  have hfree : (enrolledConfig e ns).key ∉ w.store.objects.map configKind.key := by
    intro hmem
    obtain ⟨v, hv, hkey'⟩ := List.mem_map.mp hmem
    have hin : v.toSaltKeyConfig ∈ (w.contents ns.name).configs :=
      List.mem_filter.mpr ⟨List.mem_map_of_mem hv,
        decide_eq_true (congrArg NamespacedName.nspace hkey')⟩
    rw [hw] at hin
    cases hin
  obtain ⟨a, w₁, ⟨hx, hfresh⟩, hr⟩ := Prog.runs_perform_bind.mp hr
  obtain ⟨c, rfl⟩ := hfresh hfree
  obtain ⟨version, hkey', -, rfl⟩ := hx
  obtain ⟨g₁, hr⟩ := runs_freshLog hr
  exact ⟨version, hkey', (Prog.runs_ret.mp hr).2.1⟩

theorem enrolNamespace_progress {r : Except String Result} {g g' : FreshCalls}
    (hkey : e.keyAcceptance ≠ "") (hmatch : e.matchesNamespace ns = true)
    (hw : (w.contents ns.name).configs = [])
    (hr : (enrolNamespace e ns).Runs (FreshEnrolment spaces) w g r w' g') :
    EnrolmentProgress rt d e ns w w' := by
  obtain ⟨version, hkey', rfl⟩ := enrolNamespace_creates hw hr
  have hnew : ((w.create (enrolledConfig e ns) version hkey').contents ns.name).configs =
      [((enrolledConfig e ns).stored w.store.next version).toSaltKeyConfig] := by
    exact (contents_create w (enrolledConfig e ns) version hkey').trans (congrArg (List.cons _) hw)
  refine .inr ⟨.created _ hmatch hw hnew ?_ ?_, fun heq => ?_, ?_,
    fun _ hne => contents_create_of_ne w (enrolledConfig e ns) version hkey' hne⟩
  · simp [SaltKeyConfig.enrolled, SaltKeyConfig.stored, SaltKeyConfig.created, enrolledConfig,
      StringMap.read]
  · simp [SaltKeyConfig.stored, SaltKeyConfig.created, SaltKeyConfigSpec.defaulted, enrolledConfig,
      hkey]
  · rw [heq, hw] at hnew
    cases hnew
  · show List.countP _ (_ :: w.store.objects) ≤ _
    rw [List.countP_cons]
    split <;> exact Nat.add_le_add_left (by omega) _

/-- `Reconcile` with the configs listed in any order. -/
theorem reconcileEnrolment_progress {configs : List SaltKeyConfig} {r : Except String Result}
    {g g' : FreshCalls} (hkey : e.keyAcceptance ≠ "")
    (hperm : configs.Perm (w.contents ns.name).configs)
    (hr : (reconcileEnrolment e ns configs).Runs (FreshEnrolment spaces) w g r w' g') :
    EnrolmentProgress rt d e ns w w' := by
  have hlen := hperm.length_eq
  unfold reconcileEnrolment at hr
  cases hown : ownConfig configs with
  | none =>
    -- the configs are all the team's
    have hteam : (w.contents ns.name).own = [] := List.filter_eq_nil_iff.mpr fun cfg hcfg => by
      simp [ownConfig_none hown cfg (hperm.mem_iff.mpr hcfg)]
    rw [hown] at hr
    cases hmatch : e.matchesNamespace ns with
    | false =>
      rw [hmatch] at hr
      obtain ⟨-, rfl, -⟩ := Prog.runs_ret.mp hr
      refine .inl ⟨rfl, ?_⟩
      rwa [Settled, if_neg (by simp [hmatch])]
    | true =>
      rw [hmatch] at hr
      replace hr : (ite _ _ _ : EnrolM Result).Runs (FreshEnrolment spaces) w g r w' g' := hr
      by_cases hsome : configs.length > 0
      · rw [if_pos hsome] at hr
        obtain ⟨-, rfl, -⟩ := Prog.runs_ret.mp hr
        refine .inl ⟨rfl, ?_⟩
        obtain ⟨cfg, hcfg⟩ := List.exists_mem_of_length_pos (hlen ▸ hsome)
        have hmem : cfg ∈ (w'.contents ns.name).team := List.mem_filter.mpr ⟨hcfg, by
          simp [ownConfig_none hown cfg (hperm.mem_iff.mpr hcfg)]⟩
        rwa [Settled, if_neg fun hcond => List.ne_nil_of_mem hmem hcond.2]
      · rw [if_neg hsome] at hr
        exact enrolNamespace_progress hkey hmatch (List.length_eq_zero_iff.mp (by omega)) hr
  | some own =>
    obtain ⟨hmem, henrolled⟩ := ownConfig_some hown
    have hmem := hperm.mem_iff.mp hmem
    rw [hown] at hr
    cases hmatch : e.matchesNamespace ns with
    | false =>
      rw [hmatch] at hr
      exact removeOwn_progress hmem henrolled (fun h => by rw [hmatch] at h; cases h) hr
    | true =>
      rw [hmatch] at hr
      replace hr : (ite _ _ _ : EnrolM Result).Runs (FreshEnrolment spaces) w g r w' g' := hr
      by_cases hmany : configs.length > 1
      · rw [if_pos hmany] at hr
        exact removeOwn_progress hmem henrolled (fun _ => hlen ▸ hmany) hr
      · rw [if_neg hmany] at hr
        -- it is the only one
        have hone : (w.contents ns.name).configs = [own] := by
          have hpos := List.length_pos_of_mem hmem
          obtain ⟨cfg, hcfg⟩ := List.length_eq_one_iff.mp
            (by omega : (w.contents ns.name).configs.length = 1)
          rw [hcfg] at hmem
          rw [hcfg, List.mem_singleton.mp hmem]
        exact adjustOwn_progress hkey hmatch hone henrolled hr

/-- A pass over a namespace that is not being deleted goes on to its configs. -/
theorem runs_enrolmentPass {r : Except String Result} {h h' : List ConfigCall}
    (hnames : (spaces.map Namespace.name).Nodup) (hmem : ns ∈ spaces)
    (hns : ns.deletionTimestamp = none)
    (hr : (enrolmentPass e ns.name).Runs (FreshExec spaces) w h r w' h') :
    ∃ configs g g', configs.Perm (w.contents ns.name).configs ∧
      (reconcileEnrolment e ns configs).Runs (FreshEnrolment spaces) w g r w' g' := by
  obtain ⟨g', hr⟩ := runs_of_interp hr []
  obtain ⟨a, w₁, ⟨hx, hfresh⟩, hr⟩ := Prog.runs_perform_bind.mp hr
  obtain rfl : a = .ok ns := by
    rcases hfresh with ⟨ns', hmem', hname, rfl⟩ | ⟨hnone, -⟩
    · rw [List.inj_on_of_nodup_map hnames hmem' hmem hname]
    · exact absurd (List.mem_map_of_mem hmem) hnone
  obtain ⟨-, rfl⟩ := hx
  replace hr : (ite _ _ _ : EnrolM Result).Runs (FreshEnrolment spaces) w₁ _ r w' g' := hr
  rw [if_neg (by simp [hns])] at hr
  obtain ⟨a, w₂, ⟨hx, hfresh⟩, hr⟩ := Prog.runs_perform_bind.mp hr
  obtain ⟨configs, rfl, hperm⟩ := hfresh
  obtain ⟨-, rfl⟩ := hx
  exact ⟨configs, _, _, hperm, hr⟩

/-- **What a pass over a namespace does**: nothing if the operator's configs are as they should be,
and otherwise one of the writes that are left. -/
theorem enrolment_progress {r : Except String Result} {h h' : List ConfigCall}
    (hkey : e.keyAcceptance ≠ "") (hnames : (spaces.map Namespace.name).Nodup) (hmem : ns ∈ spaces)
    (hns : ns.deletionTimestamp = none)
    (hr : (enrolmentPass e ns.name).Runs (FreshExec spaces) w h r w' h') :
    EnrolmentProgress rt d e ns w w' := by
  obtain ⟨configs, g, g', hperm, hr⟩ := runs_enrolmentPass hnames hmem hns hr
  exact reconcileEnrolment_progress hkey hperm hr

/-- A pass over a namespace that is being deleted, or not there, does nothing. -/
theorem enrolment_idle {name : String} {r : Except String Result} {h h' : List ConfigCall}
    (hgone : ∀ ns ∈ spaces, ns.name = name → ns.deletionTimestamp ≠ none)
    (hr : (enrolmentPass e name).Runs (FreshExec spaces) w h r w' h') : w' = w := by
  obtain ⟨g', hr⟩ := runs_of_interp hr []
  obtain ⟨a, w₁, ⟨hx, hfresh⟩, hr⟩ := Prog.runs_perform_bind.mp hr
  rcases hfresh with ⟨ns, hmem, hname, rfl⟩ | ⟨-, text, rfl⟩
  · obtain ⟨-, rfl⟩ := hx
    replace hr : (ite _ _ _ : EnrolM Result).Runs (FreshEnrolment spaces) w₁ _ r w' g' := hr
    rw [if_pos (Option.isSome_iff_ne_none.mpr (hgone ns hmem hname))] at hr
    exact (Prog.runs_ret.mp hr).2.1
  · obtain rfl : w₁ = w := hx
    exact (Prog.runs_ret.mp hr).2.1

end enrolment

/-! ## Rest -/

section rest

variable {rt : Runtime} {d : Default} {e : Enrolment} {ns : Namespace} {spaces : List Namespace}
  {w w' : ConfigWorld}

theorem ConfigRound.progress (hkey : e.keyAcceptance ≠ "")
    (hnames : (spaces.map Namespace.name).Nodup) (h : ConfigRound rt d e spaces w w') :
    Progress rt d e spaces w w' := by
  cases h with
  | config key r h hr => exact config_progress hr
  | enrolment name r h hr =>
    by_cases hlive : ∃ ns ∈ spaces, ns.name = name ∧ ns.deletionTimestamp = none
    · obtain ⟨ns, hmem, rfl, hns⟩ := hlive
      exact (enrolment_progress hkey hnames hmem hns hr).progress hnames hmem hns
    · rw [enrolment_idle (fun ns hmem hname hns => hlive ⟨ns, hmem, hname, hns⟩) hr]
      exact .refl

/-- No pass changes anything. -/
def AtRest (rt : Runtime) (d : Default) (e : Enrolment) (spaces : List Namespace)
    (w : ConfigWorld) : Prop :=
  ∀ w', ConfigRound rt d e spaces w w' → w.SameContent w'

theorem nonempty_ans (o : Op) : Nonempty o.Ans := by
  cases o with
  | now => exact ⟨(0 : Int)⟩
  | event | log | cacheSet => exact ⟨()⟩
  | cacheGet => exact ⟨none⟩
  | salt conn call => cases call <;> exact ⟨.error ""⟩
  | _ => exact ⟨.error (.notFound "")⟩

/-- Every call can be answered. -/
theorem exists_freshExec (spaces : List Namespace) (w : ConfigWorld) (o : ConfigOp) :
    ∃ a w', FreshExec spaces w o a w' := by
  have hseen (nspace : String) : ∀ cfg ∈ (w.store.objects.map StoredConfig.toSaltKeyConfig).filter
      (·.nspace = nspace), cfg.nspace = nspace ∧ w.Seen cfg := fun cfg hcfg => by
    obtain ⟨hmem, hns⟩ := List.mem_filter.mp hcfg
    obtain ⟨v, hv, rfl⟩ := List.mem_map.mp hmem
    exact ⟨of_decide_eq_true hns, v, w.store.stored v hv, rfl⟩
  cases o with
  | get key =>
    by_cases hkey : key ∈ w.store.objects.map configKind.key
    · obtain ⟨v, hv, rfl⟩ := List.mem_map.mp hkey
      exact ⟨.ok v, w, ⟨⟨w.store.stored v hv, rfl⟩, rfl⟩, .inl ⟨v, hv, rfl, rfl⟩⟩
    · exact ⟨.error (.notFound ""), w, rfl, .inr ⟨hkey, "", rfl⟩⟩
  | patchStatus base obj =>
    by_cases hkey : configKind.key obj ∈ w.store.objects.map configKind.key
    · obtain ⟨cur, hcur, hcurkey⟩ := List.mem_map.mp hkey
      exact ⟨.ok _, _, ⟨cur, "", hcur, hcurkey, rfl, rfl⟩, fun _ => ⟨_, rfl⟩⟩
    · exact ⟨.error (.notFound ""), w, rfl, fun h => absurd h hkey⟩
  | listEnrolled => exact ⟨.ok [], w, ⟨fun _ h => absurd h List.not_mem_nil, rfl⟩, trivial⟩
  | enrolment o =>
    cases o with
    | getNamespace name =>
      by_cases hname : name ∈ spaces.map Namespace.name
      · obtain ⟨ns, hmem, hname⟩ := List.mem_map.mp hname
        exact ⟨.ok ns, w, ⟨hname, rfl⟩, .inl ⟨ns, hmem, hname, rfl⟩⟩
      · exact ⟨.error (.notFound ""), w, rfl, .inr ⟨hname, "", rfl⟩⟩
    | listConfigs nspace => exact ⟨.ok _, w, ⟨hseen nspace, rfl⟩, _, rfl, .refl _⟩
    | createConfig cfg =>
      by_cases hkey : cfg.key ∈ w.store.objects.map configKind.key
      · exact ⟨.error (.notFound ""), w, rfl, fun h => absurd hkey h⟩
      · exact ⟨.ok _, _, ⟨"", hkey, rfl, rfl⟩, fun _ => ⟨_, rfl⟩⟩
    | patchConfig base obj =>
      by_cases hkey : obj.key ∈ w.store.objects.map configKind.key
      · obtain ⟨cur, hcur, hcurkey⟩ := List.mem_map.mp hkey
        exact ⟨.ok _, _, ⟨cur, "", hcur, hcurkey, rfl, rfl⟩, fun _ => ⟨_, rfl⟩⟩
      · exact ⟨.error (.notFound ""), w, rfl, fun h => absurd h hkey⟩
    | deleteConfig key =>
      by_cases hkey : key ∈ w.store.objects.map configKind.key
      · exact ⟨.ok (), _, ⟨hkey, rfl⟩, fun _ => rfl⟩
      · exact ⟨.error (.notFound ""), w, rfl, fun h => absurd h hkey⟩
    | log message fields => exact ⟨(), w, rfl, trivial⟩
  | controller o =>
    by_cases hsecret : ∃ key, o = .getSecret key
    · obtain ⟨key, rfl⟩ := hsecret
      cases hdata : w.secrets key with
      | none =>
        refine ⟨.error (.notFound ""), w, ⟨hdata, rfl⟩, fun data h => ?_, fun _ => ⟨"", rfl⟩⟩
        rw [hdata] at h
        cases h
      | some data =>
        refine ⟨.ok data, w, ⟨hdata, rfl⟩, fun data' h => ?_, fun h => ?_⟩
        · rw [hdata] at h
          rw [Option.some.inj h]
        · rw [hdata] at h
          cases h
    · obtain ⟨a⟩ := nonempty_ans o
      refine ⟨a, w, ?_⟩
      cases o with
      | getSecret key => exact absurd ⟨key, rfl⟩ hsecret
      | _ => exact ⟨rfl, trivial⟩

theorem ConfigWorld.SameContent.remaining (h : w.SameContent w') :
    remaining e ns (w'.contents ns.name) = remaining e ns (w.contents ns.name) := by
  refine remaining_eq_of_view ?_
  have hview := congrArg (List.map enrolmentView) h.1
  rwa [List.map_map, List.map_map] at hview

/-- At rest, the status of a config tells the verdict: a pass over it changes nothing. -/
theorem AtRest.judged (h : AtRest rt d e spaces w) {cfg : StoredConfig}
    (hcfg : cfg ∈ w.store.objects) :
    judgedIn rt d w.secrets cfg = true := by
  obtain ⟨r, w', h', hr⟩ := Prog.exists_runs (exists_freshExec spaces)
    (reconcileConfig rt d (configKind.key cfg)) w []
  have hsame := h w' (.config _ _ _ hr)
  rcases runs_reconcileConfig hr with ⟨hnone, -⟩ | ⟨cur, hcur, cond, version, hkey, hcond, rfl⟩
  · exact absurd (List.mem_map_of_mem hcfg) hnone
  · obtain rfl := Store.eq_of_key hcur hcfg hkey
    -- the config with its verdict is among the new contents, so among the old
    have htold : cur.told cond version ∈ Store.putIn configKind (cur.told cond version)
        w.store.objects := List.mem_map.mpr ⟨cur, hcur, if_pos rfl⟩
    have hmem : (cur.told cond version).content ∈ w.store.objects.map StoredConfig.content := by
      rw [← hsame.1]
      refine List.mem_map_of_mem ?_
      rw [← statusPatched_judged] at htold ⊢
      exact htold
    obtain ⟨v, hv, hcontent⟩ := List.mem_map.mp hmem
    have hvkey : configKind.key v.content = configKind.key (cur.told cond version).content := by
      rw [hcontent]
    obtain rfl : v = cur := Store.eq_of_key hv hcur hvkey
    have hj : judgedIn rt d w.secrets v.content = true := by
      rw [hcontent]
      exact judgedIn_told version hcond
    exact hj

/-- An enrolment pass over a namespace that is not settled changes something. -/
theorem EnrolmentProgress.settled (h : EnrolmentProgress rt d e ns w w')
    (hsame : w.SameContent w') : Settled e ns (w.contents ns.name) := by
  rcases h with ⟨-, hsettled⟩ | ⟨hstep, hne, -⟩
  · exact hsettled
  · rcases hstep.progress with hlt | ⟨-, heq⟩
    · have heq : remaining e ns (w'.contents ns.name) = remaining e ns (w.contents ns.name) :=
        hsame.remaining
      omega
    · exact absurd heq hne

theorem AtRest.settled (hkey : e.keyAcceptance ≠ "") (hnames : (spaces.map Namespace.name).Nodup)
    (h : AtRest rt d e spaces w) (hmem : ns ∈ spaces) (hns : ns.deletionTimestamp = none) :
    Settled e ns (w.contents ns.name) := by
  obtain ⟨r, w', h', hr⟩ :=
    Prog.exists_runs (exists_freshExec spaces) (enrolmentPass e ns.name) w []
  have hprogress : EnrolmentProgress rt d e ns w w' := enrolment_progress hkey hnames hmem hns hr
  exact hprogress.settled (h w' (.enrolment _ _ _ hr))

theorem atRest_iff (hkey : e.keyAcceptance ≠ "") (hnames : (spaces.map Namespace.name).Nodup) :
    AtRest rt d e spaces w ↔
      (∀ ns ∈ spaces, ns.deletionTimestamp = none → Settled e ns (w.contents ns.name)) ∧
      ∀ cfg ∈ w.store.objects, judgedIn rt d w.secrets cfg = true := by
  refine ⟨fun h =>
    ⟨fun ns hmem hns => h.settled hkey hnames hmem hns, fun cfg hcfg => h.judged hcfg⟩,
    fun h w' hround => ?_⟩
  rcases hround.progress hkey hnames with hsame | hlt
  · exact hsame.1
  · -- there is nothing left that could become less
    have hzero : leftToDo rt d e spaces w = 0 := by
      have hunjudged : unjudged rt d w = 0 :=
        List.countP_eq_zero.mpr fun cfg hcfg => by simp [h.2 cfg hcfg]
      have hremaining : (spaces.map (remainingIn e w)).sum = 0 := by
        refine List.sum_eq_zero fun n hn => ?_
        obtain ⟨ns, hmem, rfl⟩ := List.mem_map.mp hn
        unfold remainingIn
        split
        · next hns => exact remaining_eq_zero_iff.mpr (h.1 ns hmem hns)
        · rfl
      unfold leftToDo
      rw [hremaining, hunjudged]
    omega

open Classical in
/-- **The controllers come to rest.** In any sequence of passes over configs and namespaces, no more
than `leftToDo` of them change anything, and none does any more exactly when the operator's configs
are as they should be in every namespace that is not being deleted and every status tells the
verdict. -/
theorem controllers_rest (rt : Runtime) (d : Default) (e : Enrolment) (spaces : List Namespace)
    (hkey : e.keyAcceptance ≠ "") (hnames : (spaces.map Namespace.name).Nodup)
    (W : ℕ → ConfigWorld) (hW : ∀ i, ConfigRound rt d e spaces (W i) (W (i + 1))) (n : ℕ) :
    ((List.range n).countP fun i => ¬ (W i).SameContent (W (i + 1))) ≤
        2 * (spaces.map (remainingIn e (W 0))).sum + unjudged rt d (W 0) ∧
      (AtRest rt d e spaces (W n) ↔
        (∀ ns ∈ spaces, ns.deletionTimestamp = none → Settled e ns ((W n).contents ns.name)) ∧
        ∀ cfg ∈ (W n).store.objects, judgedIn rt d (W n).secrets cfg = true) := by
  refine ⟨?_, atRest_iff hkey hnames⟩
  have hstep (w w' : ConfigWorld) (hround : ConfigRound rt d e spaces w w') :
      (w.SameContent w' ∧ leftToDo rt d e spaces w' = leftToDo rt d e spaces w) ∨
        leftToDo rt d e spaces w' < leftToDo rt d e spaces w := hround.progress hkey hnames
  exact le_trans (Nat.le_add_right _ _) (changes_le_measure hstep hW n)

/-- Passes over a namespace and a config in turn, from `w` on. -/
theorem exists_rounds (rt : Runtime) (d : Default) (e : Enrolment) (spaces : List Namespace)
    (name : String) (key : NamespacedName) (w : ConfigWorld) : ∃ W : ℕ → ConfigWorld, W 0 = w ∧
      ∀ i, (∃ r h, (enrolmentPass e name).Runs (FreshExec spaces) (W (2 * i)) [] r
          (W (2 * i + 1)) h) ∧
        ∃ r h, (reconcileConfig rt d key).Runs (FreshExec spaces) (W (2 * i + 1)) [] r
          (W (2 * i + 2)) h := by
  have henrol (w : ConfigWorld) :=
    Prog.exists_runs (exists_freshExec spaces) (enrolmentPass e name) w []
  have hconfig (w : ConfigWorld) :=
    Prog.exists_runs (exists_freshExec spaces) (reconcileConfig rt d key) w []
  choose r₁ enrol h₁ henrol using henrol
  choose r₂ config h₂ hconfig using hconfig
  let W : ℕ → ConfigWorld := fun n =>
    if n % 2 = 0 then (config ∘ enrol)^[n / 2] w else enrol ((config ∘ enrol)^[n / 2] w)
  have heven (i : ℕ) : W (2 * i) = (config ∘ enrol)^[i] w := by
    show (if 2 * i % 2 = 0 then _ else _) = _
    rw [if_pos (by omega), show 2 * i / 2 = i by omega]
  have hodd (i : ℕ) : W (2 * i + 1) = enrol ((config ∘ enrol)^[i] w) := by
    show (if (2 * i + 1) % 2 = 0 then _ else _) = _
    rw [if_neg (by omega), show (2 * i + 1) / 2 = i by omega]
  refine ⟨W, rfl, fun i => ⟨?_, ?_⟩⟩
  · rw [heven, hodd]
    exact ⟨_, _, henrol _⟩
  · have hnext : W (2 * i + 2) = config (enrol ((config ∘ enrol)^[i] w)) := by
      rw [show 2 * i + 2 = 2 * (i + 1) by ring, heven, Function.iterate_succ_apply']
      rfl
    rw [hodd, hnext]
    exact ⟨_, _, hconfig _⟩

/-- A pass over the only config there is. -/
theorem reconcileConfig_tells {cfg : StoredConfig} {r : Except String Result}
    {h h' : List ConfigCall} (hw : w.store.objects = [cfg])
    (hr : (reconcileConfig rt d (configKind.key cfg)).Runs (FreshExec spaces) w h r w' h') :
    ∃ cond version, verdictIn rt d w.secrets cfg.toSaltKeyConfig = some cond ∧
      w'.store.objects = [cfg.told cond version] ∧ w'.secrets = w.secrets := by
  rcases runs_reconcileConfig hr with ⟨hnone, -⟩ | ⟨cur, hcur, cond, version, -, hcond, rfl⟩
  · rw [hw] at hnone
    exact absurd (List.mem_singleton_self _) hnone
  · obtain rfl : cur = cfg := by
      rw [hw] at hcur
      exact List.mem_singleton.mp hcur
    refine ⟨cond, version, hcond, ?_, rfl⟩
    show Store.putIn configKind _ w.store.objects = _
    rw [statusPatched_judged, hw]
    exact congrArg (fun v => [v]) (if_pos rfl)

/-- If it has no condition, the pass changes it. -/
theorem reconcileConfig_changes {cfg : StoredConfig} {r : Except String Result}
    {h h' : List ConfigCall} (hw : w.store.objects = [cfg]) (hnew : cfg.conditions = [])
    (hr : (reconcileConfig rt d (configKind.key cfg)).Runs (FreshExec spaces) w h r w' h') :
    ¬ w.SameContent w' := by
  intro hsame
  obtain ⟨cond, version, -, hobjects, -⟩ := reconcileConfig_tells hw hr
  have hcontent := hsame.1
  rw [hobjects, hw] at hcontent
  have hset : setStatusCondition cond cfg.conditions = cfg.conditions :=
    congrArg (fun v : StoredConfig => v.conditions) (List.cons.inj hcontent).1
  rw [hnew] at hset
  cases hset

namespace Sample

/-- Two namespaces, one of which is being deleted. -/
def twoSpaces : List Namespace := [{ name := "a" }, { name := "b", deletionTimestamp := some 0 }]

end Sample

open Classical in
/-- Passes over a namespace without a config and over the config that is created there, in turn:
the first two change something, the others nothing. -/
theorem controllers_rest_enrolled :
    ∃ W : ℕ → ConfigWorld, W 0 = Sample.noConfigs ∧
      (∀ i, ConfigRound Sample.runtime Sample.flags.default Sample.flags.enrolment Sample.twoSpaces
        (W i) (W (i + 1))) ∧
      (∃ r h, (enrolmentPass Sample.flags.enrolment "a").Runs
        (FreshExec Sample.twoSpaces) (W 0) [] r
        (W 1) h) ∧
      (∃ r h, (reconcileConfig Sample.runtime Sample.flags.default ⟨"a", enrolledConfigName⟩).Runs
        (FreshExec Sample.twoSpaces) (W 1) [] r (W 2) h) ∧
      ¬ (W 0).SameContent (W 1) ∧ ¬ (W 1).SameContent (W 2) ∧
      ∀ n, ((List.range n).countP fun i => ¬ (W i).SameContent (W (i + 1))) ≤ 2 := by
  obtain ⟨W, hzero, hW⟩ := exists_rounds Sample.runtime Sample.flags.default
    Sample.flags.enrolment Sample.twoSpaces "a" ⟨"a", enrolledConfigName⟩ Sample.noConfigs
  have hround (i : ℕ) : ConfigRound Sample.runtime Sample.flags.default Sample.flags.enrolment
      Sample.twoSpaces (W i) (W (i + 1)) := by
    obtain ⟨⟨r₁, h₁, hr₁⟩, r₂, h₂, hr₂⟩ := hW (i / 2)
    rcases Nat.mod_two_eq_zero_or_one i with hi | hi
    · rw [show 2 * (i / 2) = i by omega] at hr₁
      exact .enrolment _ _ _ hr₁
    · rw [show 2 * (i / 2) + 1 = i by omega, show 2 * (i / 2) + 2 = i + 1 by omega] at hr₂
      exact .config _ _ _ hr₂
  obtain ⟨⟨r₁, h₁, hr₁⟩, r₂, h₂, hr₂⟩ := hW 0
  have hmem : (⟨"a", {}, none⟩ : Namespace) ∈ Sample.twoSpaces := List.mem_cons_self
  have hnames : (Sample.twoSpaces.map Namespace.name).Nodup := by decide
  obtain ⟨configs, g, g', hperm, hrun⟩ := runs_enrolmentPass hnames hmem rfl hr₁
  -- the first pass creates the config
  rw [hzero] at hperm hrun
  obtain rfl : configs = [] := hperm.eq_nil
  obtain ⟨version, hkey, hcreated⟩ := enrolNamespace_creates (e := Sample.flags.enrolment) rfl hrun
  have hobjects : (W 1).store.objects =
      [(enrolledConfig Sample.flags.enrolment ⟨"a", {}, none⟩).stored 0 version] := by
    rw [show W 1 = _ from hcreated]
    rfl
  refine ⟨W, hzero, hround, ⟨r₁, h₁, hr₁⟩, ⟨r₂, h₂, hr₂⟩, fun hsame => ?_,
    reconcileConfig_changes hobjects rfl hr₂, fun n => ?_⟩
  · have hlen := congrArg List.length hsame.1
    rw [List.length_map, List.length_map, hobjects, hzero] at hlen
    cases hlen
  · have hle := (controllers_rest Sample.runtime Sample.flags.default Sample.flags.enrolment
      Sample.twoSpaces (by decide) hnames W hround n).1
    rw [hzero] at hle
    exact hle.trans (by decide +kernel)

/-! ## What a VM finds then -/

/-- A config that can be served gives a connection. -/
theorem Servable.resolve {secrets : NamespacedName → Option StringMap} {cfg : SaltKeyConfig}
    (h : Servable rt d secrets cfg) :
    ∃ conn, (resolve rt cfg d).evalSecrets secrets = some (.ok conn) := by
  obtain ⟨hwf, data, hdata, hsuits⟩ := h
  obtain ⟨k, heq, -, hk⟩ := resolve_eq rt hwf.endpoint
  obtain ⟨r, hr, hresolves⟩ := hk (readFrom secrets (credentialsKey d cfg))
  have hread : readFrom secrets (credentialsKey d cfg) = .ok data := by
    unfold readFrom
    rw [hdata]
  obtain ⟨conn, rfl⟩ := hresolves.ok_iff.mpr ⟨data, hread, hsuits⟩
  refine ⟨conn, ?_⟩
  rw [heq]
  show Prog.evalSecrets secrets (k (readFrom secrets (credentialsKey d cfg))) = _
  rw [Prog.eq_of_outcome hr]
  rfl

/-- A config whose status tells the verdict is Ready if it can be served. -/
theorem isReady_of_judgedIn {secrets : NamespacedName → Option StringMap} {cfg : StoredConfig}
    (h : judgedIn rt d secrets cfg = true) :
    cfg.isReady = true ↔ Servable rt d secrets cfg.toSaltKeyConfig := by
  obtain ⟨cond, hcond, htype, hstatus⟩ := exists_verdictIn rt d secrets cfg.toSaltKeyConfig
  unfold judgedIn at h
  rw [hcond] at h
  have hset := (of_decide_eq_true h).1
  have hready : cfg.ready? = some cond := by
    unfold SaltKeyConfig.ready?
    rw [← hset]
    exact find?_setStatusCondition htype _
  rw [isReady_iff, hready, ← hstatus]
  simp

/-- **At rest, a VM is served whenever it can be.** `findSaltKeyConfig` comes back without a config
only if no config of the namespace can be served, and with the one it comes back with a connection
is made. -/
theorem rest_serves (hrest : AtRest rt d e spaces w) {nspace : String}
    {configs : List SaltKeyConfig} (hlist : configs.Perm (w.contents nspace).configs)
    {σ : Nat → (o : Op) → o.Ans} {n : Nat} (hσ : σ n (.listConfigs (some nspace)) = .ok configs) :
    ∃ found, ((findSaltKeyConfig nspace).exec σ n).2 = .ok found ∧
      (found = none ↔ ∀ cfg ∈ (w.contents nspace).configs, ¬ Servable rt d w.secrets cfg) ∧
      ∀ cfg, found = some cfg → cfg ∈ (w.contents nspace).configs ∧
        ∃ conn, (resolve rt cfg d).evalSecrets w.secrets = some (.ok conn) := by
  have hready (cfg : SaltKeyConfig) (hcfg : cfg ∈ (w.contents nspace).configs) :
      cfg.isReady = true ↔ Servable rt d w.secrets cfg := by
    obtain ⟨-, v, hv, rfl⟩ := mem_contents hcfg
    exact isReady_of_judgedIn (hrest.judged hv)
  refine ⟨selectConfig configs, ?_, ?_, fun cfg hfound => ?_⟩
  · exact Prog.exec_bind_ok.mpr ⟨.ok configs, congrArg Except.ok hσ, rfl⟩
  · rw [selectConfig_eq_none]
    constructor
    · intro h cfg hcfg hs
      have := (hready cfg hcfg).mpr hs
      rw [h cfg (hlist.mem_iff.mpr hcfg)] at this
      cases this
    · intro h cfg hcfg
      rw [Bool.eq_false_iff]
      exact fun hr => h cfg (hlist.mem_iff.mp hcfg) ((hready cfg (hlist.mem_iff.mp hcfg)).mp hr)
  · have hmem := hlist.mem_iff.mp (selectConfig_mem hfound)
    exact ⟨hmem, ((hready cfg hmem).mp (selectConfig_isReady hfound)).resolve⟩

/-- The world after a pass over its only config. -/
theorem exists_judged (rt : Runtime) (d : Default) (ns : Namespace) {cfg : StoredConfig}
    (hw : w.store.objects = [cfg]) (hsettled : remaining e ns (w.contents ns.name) = 0)
    (hkey : e.keyAcceptance ≠ "") :
    ∃ w' cond version, AtRest rt d e [ns] w' ∧ w'.store.objects = [cfg.told cond version] ∧
      w'.secrets = w.secrets := by
  obtain ⟨r, w', h', hr⟩ := Prog.exists_runs (exists_freshExec [ns])
    (reconcileConfig rt d (configKind.key cfg)) w []
  obtain ⟨cond, version, hcond, hobjects, hsecrets⟩ := reconcileConfig_tells hw hr
  have hnames : ([ns].map Namespace.name).Nodup := List.nodup_singleton _
  refine ⟨w', cond, version, (atRest_iff hkey hnames).mpr
    ⟨fun ns' hns' _ => ?_, fun cfg' hcfg' => ?_⟩, hobjects, hsecrets⟩
  · rw [List.mem_singleton.mp hns', ← remaining_eq_zero_iff, ← hsettled]
    refine remaining_eq_of_view ?_
    rw [hobjects, hw]
    rfl
  · rw [hobjects] at hcfg'
    rw [List.mem_singleton.mp hcfg', hsecrets]
    exact judgedIn_told version hcond

end rest

namespace Sample

/-- The config of namespace `a`, before anyone has looked at it. -/
def oneConfig : ConfigWorld :=
  noConfigs.create (config "a" keyAcceptanceDiscovery) "" List.not_mem_nil

theorem oneConfig_objects : oneConfig.store.objects = [storedConfig] := rfl

theorem servable (cond : Condition) (version : String) : Servable runtime flags.default
    oneConfig.secrets (storedConfig.told cond version).toSaltKeyConfig := by
  have hsecret : storedConfig.spec.credentialsSecret ≠ "" := by decide
  have hend : storedConfig.spec.raasURL ≠ "" ∧ storedConfig.spec.masterID ≠ "" := by decide
  have hdur : invalidDuration storedConfig.spec = none := by decide +kernel
  refine ⟨⟨hdur, ?_, (if_pos hsecret).mpr hend⟩, _, rfl, (if_pos hsecret).mpr ?_⟩
  · intro sel e hsel
    cases hsel
  · simp [StringMap.read_insert]

end Sample

/-- With its Secret there, the config of namespace `a` is found. -/
theorem rest_serves_judged :
    ∃ (w : ConfigWorld) (σ : Nat → (o : Op) → o.Ans) (cfg : SaltKeyConfig),
      AtRest Sample.runtime Sample.flags.default Sample.flags.enrolment [{ name := "a" }] w ∧
      ((findSaltKeyConfig "a").exec σ 0).2 = .ok (some cfg) ∧
      ∃ conn, (resolve Sample.runtime cfg Sample.flags.default).evalSecrets w.secrets =
        some (.ok conn) := by
  classical
  obtain ⟨w, cond, version, hrest, hw, hsecrets⟩ := exists_judged Sample.runtime
    Sample.flags.default { name := "a" } (e := Sample.flags.enrolment) Sample.oneConfig_objects
    (by decide +kernel) (by decide)
  let cfg := (Sample.storedConfig.told cond version).toSaltKeyConfig
  have hcontents : (w.contents "a").configs = [cfg] := by
    show List.filter _ (List.map _ w.store.objects) = _
    rw [hw]
    exact List.filter_cons_of_pos (decide_eq_true rfl)
  have hservable : Servable Sample.runtime Sample.flags.default w.secrets cfg := by
    rw [hsecrets]
    exact Sample.servable cond version
  obtain ⟨found, hfound, hnone, hsome⟩ := rest_serves hrest
    (List.Perm.of_eq hcontents.symm) (n := 0)
    (σ := fun _ => Function.update (Sample.answer {}) (.listConfigs (some "a")) (.ok [cfg]))
    (Function.update_self ..)
  cases found with
  | none =>
    refine absurd hservable (hnone.mp rfl cfg ?_)
    rw [hcontents]
    exact List.mem_singleton_self _
  | some cfg' => exact ⟨w, _, cfg', hrest, hfound, (hsome cfg' rfl).2⟩

end SaltOperator
