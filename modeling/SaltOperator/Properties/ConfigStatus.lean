import SaltOperator.Lib.Play
import SaltOperator.Cluster.Configs
import SaltOperator.Properties.Enrolment
import SaltOperator.Cluster.Run

/-!
# What the status of a config tells

A pass reads a config, then its Secret, and then writes its verdict, without asking whether the
config is still the one it has read. Meanwhile others edit configs, delete them and create new ones
under the same name. `configContract` says what calls the controllers make, in any interleaving.

- `ready_validated`: **a config that is Ready was validated, in the generation its condition
  names.** If it still has that generation, and is still the same object, its spec was validated as
  it is. `ready_validated_recreated` shows that the generation alone does not tell.
- `config_retried_iff`: **a pass asks to be repeated exactly if a Secret can help.**
- `team_config_untouched`: **a config whose name never stood for one of the operator's is not
  touched**, but for its status.
-/

namespace SaltOperator

variable {J : Type}

/-! ## What the workers do -/

/-- The pass over `key` has read the version `v` and come to this verdict on it. -/
structure JudgedIn (rt : Runtime) (d : Default) (key : NamespacedName) (h : List ConfigCall)
    (v : StoredConfig) (cond : Condition) : Prop where
  under : configKind.key v = key
  read : ∃ w, (⟨w, .get key, .ok v⟩ : ConfigCall) ∈ h
  type : cond.type = "Ready"
  generation : cond.observedGeneration = v.generation
  ready : cond.status = .true → WellFormed rt d v.toSaltKeyConfig ∧ ∃ w data,
    (⟨w, .controller (.getSecret (credentialsKey d v.toSaltKeyConfig)), .ok data⟩ :
      ConfigCall) ∈ h ∧
      Suits rt v.toSaltKeyConfig data

/-- A list a worker was given. -/
def ConfigCall.Lists : ConfigCall → SaltKeyConfig → Prop
  | ⟨_, .listEnrolled, .ok configs⟩, cfg => cfg ∈ configs
  | ⟨_, .enrolment (.listConfigs _), .ok configs⟩, cfg => cfg ∈ configs
  | _, _ => False

/-- A config of the operator's was listed under this key. -/
def OwnListed (h : List ConfigCall) (key : NamespacedName) : Prop :=
  ∃ m ∈ h, ∃ cfg, ConfigCall.Lists m cfg ∧ cfg.enrolled = true ∧ cfg.key = key

/-- The calls of the workers. A status is written with the verdict of the pass; configs are deleted
and patched that were listed as the operator's. -/
def ConfigWorker.Permitted (rt : Runtime) (flags : J → OperatorFlags) :
    ConfigWorker J → List ConfigCall → ConfigOp → Prop
  | .config _ _, _, .get _ => True
  | .config _ _, _, .controller _ => True
  | .config j key, h, .patchStatus base obj =>
    ∃ cond, obj = base.judged cond ∧ JudgedIn rt (flags j).default key h base cond
  | .config _ _, _, _ => False
  | _, h, .enrolment (.deleteConfig key) => OwnListed h key
  | _, h, .enrolment (.patchConfig _ obj) => OwnListed h obj.key
  | _, _, .enrolment (.createConfig cfg) => cfg.enrolled = true
  | _, _, .patchStatus _ _ => False
  | _, _, _ => True

/-- Calls are answered as they may be. -/
def ConfigAnswered (_ : List ConfigCall) (m : ConfigCall) : Prop :=
  ∃ w', ConfigExec m.before m.op m.ans w'

section walk

variable {rt : Runtime} {flags : J → OperatorFlags} {h : List ConfigCall}

theorem reportVerdict_permitted {j : J} {key : NamespacedName} {cond : Condition} :
    (reportVerdict rt cond).Performs fun o =>
      ∀ h, (ConfigWorker.config j key).Permitted rt flags h o :=
  .ite (fun _ => ⟨fun _ => trivial, fun _ => trivial⟩) fun _ =>
    .ite (fun _ => ⟨fun _ => trivial, fun _ => trivial⟩) fun _ =>
      ⟨fun _ => trivial, fun _ => trivial⟩

theorem reconcileConfig_permitted (j : J) (key : NamespacedName) :
    (reconcileConfig rt (flags j).default key).Obeys ConfigAnswered
      ((ConfigWorker.config j key).Permitted rt flags) (fun _ _ => True) h := by
  -- with the evidence for the verdict at hand, it is written and reported
  have hwrite {v : StoredConfig} {cond : Condition} {h : List ConfigCall}
      (hj : JudgedIn rt (flags j).default key h v cond) :
      (writeVerdict rt v cond).Obeys ConfigAnswered
        ((ConfigWorker.config j key).Permitted rt flags) (fun _ _ => True) h := by
    refine ⟨⟨cond, rfl, hj⟩, fun w a _ => ?_⟩
    rcases a with e | v'
    · exact trivial
    · exact reportVerdict_permitted.obeys (I := fun _ => True)
        (fun h o _ ho => ⟨ho h, fun _ _ => trivial⟩) trivial
  refine ⟨trivial, fun w a ha => ?_⟩
  rcases a with (e | e | e) | v
  · exact trivial
  · exact trivial
  · exact trivial
  · obtain ⟨w', ⟨-, hkey⟩, -⟩ := ha
    show Prog.Obeys _ _ _ (validateConfig rt (flags j).default v.toSaltKeyConfig >>= _) _
    unfold validateConfig
    rcases validate_eq rt (flags j).default v.toSaltKeyConfig with
      ⟨-, cond, heq, hcond⟩ | ⟨hwf, judge, heq, -, hjudge⟩
    · rw [heq]
      refine hwrite ⟨hkey, ⟨w, List.mem_cons_self⟩, hcond.type, hcond.generation, fun hready => ?_⟩
      rw [hcond.status] at hready
      cases hready
    · rw [heq]
      refine ⟨trivial, fun w₁ a _ => hwrite ⟨hkey, ⟨w, .tail _ (.head _)⟩, (hjudge a).type,
        (hjudge a).generation, fun hready => ⟨hwf, ?_⟩⟩⟩
      obtain ⟨data, rfl, hsuits⟩ := (hjudge a).ready_iff.mp hready
      exact ⟨w₁, data, List.mem_cons_self, hsuits⟩

theorem OwnListed.cons {key : NamespacedName} (hl : OwnListed h key) (m : ConfigCall) :
    OwnListed (m :: h) key := by
  obtain ⟨m', hm', hcfg⟩ := hl
  exact ⟨m', List.mem_cons_of_mem _ hm', hcfg⟩

section enrolment

variable {e : Enrolment} {ns : Namespace} {j : J} {nspace : String}

/-- The enrolment controller's program, among the calls of all. -/
def PermittedEnrolment (rt : Runtime) (flags : J → OperatorFlags) (j : J) (nspace : String)
    (p : EnrolM Result) (h : List ConfigCall) : Prop :=
  (p.interp fun o => Prog.perform (ConfigOp.enrolment o) : ConfigM Result).Obeys ConfigAnswered
    ((ConfigWorker.enrolment j nspace).Permitted rt flags) (fun _ _ => True) h

theorem removeOwnConfig_permitted {own : SaltKeyConfig} {message : String}
    (hown : OwnListed h own.key) :
    PermittedEnrolment rt flags j nspace (removeOwnConfig ns own message) h := by
  refine ⟨trivial, fun w a _ => ⟨hown.cons _, fun w a _ => ?_⟩⟩
  rcases a with (err | err | err) | u <;> exact trivial

theorem adjustOwnConfig_permitted {own : SaltKeyConfig} (hown : OwnListed h own.key) :
    PermittedEnrolment rt flags j nspace (adjustOwnConfig e ns own) h := by
  unfold PermittedEnrolment adjustOwnConfig
  split
  · refine ⟨hown, fun w a _ => ?_⟩
    rcases a with err | own'
    · exact trivial
    · exact ⟨trivial, fun _ _ _ => trivial⟩
  · exact trivial

theorem enrolNamespace_permitted :
    PermittedEnrolment rt flags j nspace (enrolNamespace e ns) h := by
  have hown : (enrolledConfig e ns).enrolled = true := by
    have hread := StringMap.read_insert {} labelManagedBy managedByOperator labelManagedBy
    rw [if_pos rfl] at hread
    exact decide_eq_true hread
  refine ⟨hown, fun w a _ => ?_⟩
  rcases a with (err | err | err) | cfg
  · exact trivial
  · exact ⟨trivial, fun _ _ _ => trivial⟩
  · exact trivial
  · exact ⟨trivial, fun _ _ _ => trivial⟩

theorem reconcileEnrolment_permitted {configs : List SaltKeyConfig}
    (hlist : ∀ cfg ∈ configs, cfg.enrolled = true → OwnListed h cfg.key) :
    PermittedEnrolment rt flags j nspace (reconcileEnrolment e ns configs) h := by
  unfold reconcileEnrolment
  cases hown : ownConfig configs with
  | none =>
    cases e.matchesNamespace ns with
    | false => exact trivial
    | true =>
      show PermittedEnrolment _ _ _ _ (ite _ _ _) h
      split
      · exact trivial
      · exact enrolNamespace_permitted
  | some own =>
    obtain ⟨hmem, henrolled⟩ := ownConfig_some hown
    have hkey := hlist own hmem henrolled
    cases e.matchesNamespace ns with
    | false => exact removeOwnConfig_permitted hkey
    | true =>
      show PermittedEnrolment _ _ _ _ (ite _ _ _) h
      split
      · exact removeOwnConfig_permitted hkey
      · exact adjustOwnConfig_permitted hkey

theorem enrolmentPass_permitted : (enrolmentPass e nspace).Obeys ConfigAnswered
    ((ConfigWorker.enrolment j nspace).Permitted rt flags) (fun _ _ => True) h := by
  refine ⟨trivial, fun w a _ => ?_⟩
  rcases a with (err | err | err) | ns
  · exact trivial
  · exact trivial
  · exact trivial
  · show PermittedEnrolment _ _ _ _ (ite _ _ _) _
    split
    · exact trivial
    · refine ⟨trivial, fun w a _ => ?_⟩
      rcases a with err | configs
      · exact trivial
      · exact reconcileEnrolment_permitted fun cfg hcfg henrolled =>
          ⟨_, List.mem_cons_self, cfg, hcfg, henrolled, rfl⟩

end enrolment

section release

variable {j : J}

theorem releaseLoop_permitted {configs : List SaltKeyConfig} {deleted : Nat}
    (hlist : ∀ cfg ∈ configs, OwnListed h cfg.key) : (releaseLoop deleted configs).Obeys
      ConfigAnswered ((ConfigWorker.release j).Permitted rt flags) (fun _ _ => True) h := by
  induction configs generalizing deleted h with
  | nil => exact trivial
  | cons cfg rest ih =>
    have hrest (m : ConfigCall) : ∀ cfg ∈ rest, OwnListed (m :: h) cfg.key := fun c hc =>
      (hlist c (List.mem_cons_of_mem _ hc)).cons m
    refine ⟨hlist cfg List.mem_cons_self, fun w a _ => ?_⟩
    rcases a with (err | err | err) | u
    · exact ih (hrest _)
    · exact trivial
    · exact trivial
    · exact ih (hrest _)

theorem releaseRunnable_permitted : releaseRunnable.Obeys ConfigAnswered
    ((ConfigWorker.release j).Permitted rt flags) (fun _ _ => True) h := by
  refine Prog.Obeys.bind (Prog.Obeys.mono (Ψ := fun _ _ => True) ⟨trivial, fun w a ha => ?_⟩
    fun h' r _ => ?_)
  · rcases a with err | configs
    · exact trivial
    · obtain ⟨w', hlist, -⟩ := ha
      exact releaseLoop_permitted fun cfg hcfg =>
        ⟨_, List.mem_cons_self, cfg, hcfg, (hlist cfg hcfg).1, rfl⟩
  · rcases r with e | ⟨n, _ | err⟩
    · exact trivial
    · exact ⟨trivial, fun _ _ _ => trivial⟩
    · exact ⟨trivial, fun _ _ _ => trivial⟩

end release

variable [DecidableEq J]

/-- **The workers make no other calls**, in any interleaving. -/
theorem configContract (rt : Runtime) (flags : J → OperatorFlags) :
    (configCluster rt flags).Contract (fun _ _ => True) (fun _ => ConfigAnswered)
      (fun t => t.Permitted rt flags) (fun _ _ _ => True) (fun _ _ => True) where
  init _ _ := ⟨trivial, fun _ => trivial⟩
  env _ _ _ _ _ := trivial
  call t w o a w' H _ _ hx := ⟨⟨w', hx⟩, trivial⟩
  boot t h _ := by
    cases t with
    | config j key => exact reconcileConfig_permitted j key
    | enrolment j nspace =>
      show Prog.Obeys _ _ _ (ite _ _ _) h
      split
      · exact enrolmentPass_permitted
      · exact trivial
    | release j =>
      show Prog.Obeys _ _ _ (ite _ _ _) h
      split
      · exact trivial
      · exact releaseRunnable_permitted
  done _ _ _ _ := trivial
  crash _ _ _ := trivial

end walk

/-! ## Ready -/

/-- The condition that `IsReady` reads. -/
def SaltKeyConfig.ready? (cfg : SaltKeyConfig) : Option Condition :=
  cfg.conditions.find? fun c => c.type = "Ready"

theorem isReady_iff {cfg : SaltKeyConfig} :
    cfg.isReady = true ↔ ∃ cond, cfg.ready? = some cond ∧ cond.status = .true := by
  unfold SaltKeyConfig.isReady SaltKeyConfig.ready?
  cases cfg.conditions.find? fun c => c.type = "Ready" with
  | none => simp
  | some cond => simp

/-- The condition that is set is the one that is found. -/
theorem find?_setStatusCondition {cond : Condition} (htype : cond.type = "Ready")
    (conditions : List Condition) :
    (setStatusCondition cond conditions).find? (fun c => c.type = "Ready") = some cond := by
  induction conditions with
  | nil => exact List.find?_cons_of_pos (decide_eq_true htype)
  | cons c rest ih =>
    unfold setStatusCondition
    by_cases hc : c.type = cond.type
    · rw [if_pos hc]
      exact List.find?_cons_of_pos (decide_eq_true htype)
    · rw [if_neg hc, List.find?_cons_of_neg, ih]
      exact fun h => hc ((of_decide_eq_true h).trans htype.symm)

theorem JudgedIn.mono {rt : Runtime} {d : Default} {key : NamespacedName} {h h' : List ConfigCall}
    {v : StoredConfig} {cond : Condition} (hj : JudgedIn rt d key h v cond) (hh : h <:+ h') :
    JudgedIn rt d key h' v cond where
  under := hj.under
  read := by
    obtain ⟨w, hw⟩ := hj.read
    exact ⟨w, hh.subset hw⟩
  type := hj.type
  generation := hj.generation
  ready ht := by
    obtain ⟨hwf, w, data, hm, hs⟩ := hj.ready ht
    exact ⟨hwf, w, data, hh.subset hm, hs⟩

section reach

variable {rt : Runtime} {flags : J → OperatorFlags}

/-- A verdict that was come to in a pass. -/
def Vouched (rt : Runtime) (flags : J → OperatorFlags)
    (H : ConfigWorker J → List ConfigCall) (key : NamespacedName) (cond : Condition) : Prop :=
  ∃ j v, JudgedIn rt (flags j).default key (H (.config j key)) v cond

/-- Every config that is Ready is so by such a verdict. -/
def AllVouched (rt : Runtime) (flags : J → OperatorFlags) (w : ConfigWorld)
    (H : ConfigWorker J → List ConfigCall) : Prop :=
  ∀ cfg ∈ w.store.objects, ∀ cond, cfg.ready? = some cond →
    Vouched rt flags H (configKind.key cfg) cond

theorem Vouched.mono {H H' : ConfigWorker J → List ConfigCall} {key : NamespacedName}
    {cond : Condition} (h : Vouched rt flags H key cond) (hH : ∀ t, H t <:+ H' t) :
    Vouched rt flags H' key cond := by
  obtain ⟨j, v, hj⟩ := h
  exact ⟨j, v, hj.mono (hH _)⟩

/-- A new version with the conditions of the old. -/
theorem AllVouched.replace {w : ConfigWorld} {H : ConfigWorker J → List ConfigCall}
    (hw : AllVouched rt flags w H) {cur v : StoredConfig} (hcur : cur ∈ w.store.objects)
    (hv : configKind.Next cur v)
    (hready : ∀ cond, v.ready? = some cond → Vouched rt flags H (configKind.key cur) cond) :
    AllVouched rt flags (w.replace hcur hv) H := by
  intro cfg hcfg cond hcond
  rcases Store.mem_putIn hcfg with rfl | ⟨hold, -⟩
  · exact hv.key ▸ hready cond hcond
  · exact hw cfg hold cond hcond

theorem AllVouched.create {w : ConfigWorld} {H : ConfigWorker J → List ConfigCall}
    (hw : AllVouched rt flags w H) (cfg : SaltKeyConfig) (version : String)
    (hkey : cfg.key ∉ w.store.objects.map configKind.key) :
    AllVouched rt flags (w.create cfg version hkey) H := by
  intro v hv cond hcond
  rcases List.mem_cons.mp hv with rfl | hold
  · cases hcond
  · exact hw v hold cond hcond

theorem AllVouched.delete {w : ConfigWorld} {H : ConfigWorker J → List ConfigCall}
    (hw : AllVouched rt flags w H) (key : NamespacedName) :
    AllVouched rt flags (w.delete key) H := fun cfg hcfg =>
  hw cfg (List.mem_filter.mp hcfg).1

variable [DecidableEq J] {c c' : ConfigCfg J}

theorem allVouched (h : (configCluster rt flags).Reach c) :
    AllVouched rt flags c.world c.hist := by
  refine (configContract rt flags).invariantIf
    (K := fun w H => AllVouched rt flags w H) (fun w hw => ?_) (fun c w' _ he _ _ hK => ?_)
    (fun c t o a w' k _ _ hx _ _ hp hK => ?_) h
  · intro cfg hcfg
    rw [show w.store.objects = [] from congrArg Store.objects hw] at hcfg
    cases hcfg
  · cases he with
    | secrets secrets => exact hK
    | create cfg version hkey => exact hK.create cfg version hkey
    | @edit cur hcur labels spec version => exact hK.replace hcur _ fun cond => hK cur hcur cond
    | delete key => exact hK.delete key
  · -- the verdicts so far are in the longer histories too
    have hmore (s : ConfigWorker J) :
        c.hist s <:+ Function.update c.hist t (⟨c.world, o, a⟩ :: c.hist t) s := by
      rcases eq_or_ne s t with rfl | hne
      · rw [Function.update_self]
        exact List.suffix_cons _ _
      · rw [Function.update_of_ne hne]
    have hK' : AllVouched rt flags c.world
        (Function.update c.hist t (⟨c.world, o, a⟩ :: c.hist t)) :=
      fun cfg hcfg cond hcond => (hK cfg hcfg cond hcond).mono hmore
    cases hx.change with
    | none => exact hK'
    | @judged base obj cur version hcur hkey =>
      refine hK'.replace hcur _ fun cond hcond => ?_
      cases t with
      | enrolment j nspace => exact hp.elim
      | release j => exact hp.elim
      | config j key =>
        obtain ⟨verdict, rfl, hj⟩ := hp
        obtain rfl : configKind.key cur = key := hkey.trans hj.under
        -- the patch either has the conditions in it or leaves them as they are
        by_cases hsame : base.conditions = setStatusCondition verdict base.conditions
        · have hcur' : cur.ready? = some cond := by
            refine Eq.trans ?_ hcond
            refine congrArg (List.find? fun c : Condition => c.type = "Ready") ?_
            exact (if_pos hsame).symm
          exact hK' cur hcur cond hcur'
        · have hset : some verdict = some cond := by
            refine Eq.trans (find?_setStatusCondition hj.type base.conditions).symm ?_
            refine Eq.trans ?_ hcond
            refine congrArg (List.find? fun c : Condition => c.type = "Ready") ?_
            exact (if_neg hsame).symm
          cases hset
          exact ⟨j, base, hj.mono (hmore _)⟩
    | created hkey => exact hK'.create _ _ hkey
    | @patched base obj cur version hcur hkey =>
      exact hK'.replace hcur _ fun cond => hK' cur hcur cond
    | deleted hkey => exact hK'.delete _

/-- Versions are not forgotten. -/
theorem versions_step {act : Action (ConfigWorker J) ConfigOp ConfigOp.Ans}
    (hs : (configCluster rt flags).Step c act c') :
    ∀ v ∈ c.world.store.versions, v ∈ c'.world.store.versions := by
  intro v hv
  cases hs with
  | env he =>
    cases he with
    | create cfg version hkey => exact List.mem_cons_of_mem _ hv
    | edit hcur labels spec version => exact List.mem_cons_of_mem _ hv
    | _ => exact hv
  | call t hth hx =>
    cases hx.change with
    | none => exact hv
    | judged hcur hkey => exact List.mem_cons_of_mem _ hv
    | created hkey => exact List.mem_cons_of_mem _ hv
    | patched hcur hkey => exact List.mem_cons_of_mem _ hv
    | deleted hkey => exact hv
  | _ => exact hv

theorem versions_steps (hs : (configCluster rt flags).Steps c c') :
    ∀ v ∈ c.world.store.versions, v ∈ c'.world.store.versions := by
  induction hs with
  | refl => exact fun _ hv => hv
  | step _ hstep ih => exact fun v hv => versions_step hstep v (ih v hv)

/-- What was known when a call was made is known still, and the call was answered as it may be. -/
theorem call_since (hc : (configCluster rt flags).Reach c) {t : ConfigWorker J} {m : ConfigCall}
    (hm : m ∈ c.hist t) : (∃ w', ConfigExec m.before m.op m.ans w') ∧
      ∀ v ∈ m.before.store.versions, v ∈ c.world.store.versions := by
  obtain ⟨newer, older, hsplit⟩ := List.append_of_mem hm
  obtain ⟨c₀, c₁, -, hs, hsteps, hw, -, -⟩ := hc.of_hist hsplit
  refine ⟨?_, fun v hv => versions_steps hsteps v (versions_step hs v (hw ▸ hv))⟩
  rw [← hw]
  cases hs with
  | call t hth hx => exact ⟨_, hx⟩

/-- What a Ready condition of a config says: a version under its name, of the generation that was
observed, was well formed, and its Secret had the content it needs when it was read. -/
structure Validated (rt : Runtime) (d : Default) (c : ConfigCfg J) (cfg v : StoredConfig)
    (cond : Condition) : Prop where
  version : v ∈ c.world.store.versions
  key : configKind.key v = configKind.key cfg
  generation : v.generation = cond.observedGeneration
  wellFormed : WellFormed rt d v.toSaltKeyConfig
  served : ∃ t, ∃ m ∈ c.hist t, ∃ data,
    m.before.secrets (credentialsKey d v.toSaltKeyConfig) = some data ∧
      Suits rt v.toSaltKeyConfig data

/-- **A config that is Ready was validated**, in every run: by the settings of some start of the
operator, in the generation its condition names. If that is the generation it has, and it has not
been deleted and created anew since, then what it specifies now was validated. -/
theorem ready_validated {cfg : StoredConfig} (hc : (configCluster rt flags).Reach c)
    (hcfg : cfg ∈ c.world.store.objects) (hready : cfg.isReady = true) :
    ∃ cond j v, cfg.ready? = some cond ∧ Validated rt (flags j).default c cfg v cond ∧
      (v.uid = cfg.uid → cond.observedGeneration = cfg.generation → v.spec = cfg.spec) := by
  obtain ⟨cond, hcond, htrue⟩ := isReady_iff.mp hready
  obtain ⟨j, v, hj⟩ := allVouched hc cfg hcfg cond hcond
  obtain ⟨w, hread⟩ := hj.read
  obtain ⟨⟨w', ⟨hv, -⟩, -⟩, hsince⟩ := call_since hc hread
  have hversion : v ∈ c.world.store.versions := hsince v hv
  obtain ⟨hwf, w₁, data, hm, hsuits⟩ := hj.ready htrue
  obtain ⟨⟨w₂, hdata, -⟩, -⟩ := call_since hc hm
  refine ⟨cond, j, v, hcond, ⟨hversion, hj.under, hj.generation.symm, hwf, _, _, hm, data, hdata,
    hsuits⟩, fun huid hgen => ?_⟩
  exact Store.spec_eq hversion (c.world.store.stored cfg hcfg) huid (hj.generation.symm.trans hgen)

/-- A config listed as the operator's was one in some version. -/
theorem OwnListed.seen {t : ConfigWorker J} {key : NamespacedName}
    (hc : (configCluster rt flags).Reach c) (hl : OwnListed (c.hist t) key) :
    ∃ v ∈ c.world.store.versions, configKind.key v = key ∧ v.enrolled = true := by
  obtain ⟨⟨w, o, a⟩, hm, cfg, hlists, henrolled, rfl⟩ := hl
  obtain ⟨⟨w', hx⟩, hsince⟩ := call_since hc hm
  have hseen : w.Seen cfg := by
    cases o with
    | listEnrolled =>
      rcases a with e | configs
      · exact hlists.elim
      · exact (hx.1 cfg hlists).2
    | enrolment o =>
      cases o with
      | listConfigs nspace =>
        rcases a with e | configs
        · exact hlists.elim
        · exact (hx.1 cfg hlists).2
      | _ => exact hlists.elim
    | _ => exact hlists.elim
  obtain ⟨v, hv, rfl⟩ := hseen
  exact ⟨v, hsince v hv, rfl, henrolled⟩

/-- **A config whose name never stood for one of the operator's is not touched**, but for its
status, by any call in any run. -/
theorem team_config_untouched {t : ConfigWorker J} {o : ConfigOp} {a : o.Ans} {cfg : StoredConfig}
    (hc : (configCluster rt flags).Reach c) (hs : (configCluster rt flags).Step c (.call t o a) c')
    (hcfg : cfg ∈ c.world.store.objects)
    (hteam : ∀ v ∈ c.world.store.versions, configKind.key v = configKind.key cfg →
      v.enrolled = false) :
    ∃ version conditions observed, { cfg with
      resourceVersion := version
      conditions := conditions
      observedGeneration := observed } ∈ c'.world.store.objects := by
  have hsame {w : ConfigWorld} (h : cfg ∈ w.store.objects) : ∃ version conditions observed,
      { cfg with
        resourceVersion := version
        conditions := conditions
        observedGeneration := observed } ∈ w.store.objects :=
    ⟨cfg.resourceVersion, cfg.conditions, cfg.observedGeneration, h⟩
  -- a config that is deleted or patched has a name that stood for one of the operator's
  have hother {key : NamespacedName} (hl : OwnListed (c.hist t) key) :
      configKind.key cfg ≠ key := by
    rintro rfl
    obtain ⟨v, hv, hkey, henrolled⟩ := hl.seen hc
    rw [hteam v hv hkey] at henrolled
    cases henrolled
  have hputIn {v : StoredConfig} (hne : configKind.key cfg ≠ configKind.key v) :
      cfg ∈ Store.putIn configKind v c.world.store.objects :=
    List.mem_map.mpr ⟨cfg, hcfg, if_neg hne⟩
  cases hs with
  | call t hth hx =>
    have hp := (configContract rt flags).permitted hc hth
    cases hx.change with
    | none => exact hsame hcfg
    | @judged base obj cur version hcur hkey =>
      rcases eq_or_ne (configKind.key cfg) (configKind.key cur) with heq | hne
      · obtain rfl := Store.eq_of_key hcfg hcur heq
        exact ⟨version, _, _, List.mem_map.mpr ⟨cfg, hcfg, if_pos rfl⟩⟩
      · exact hsame (hputIn hne)
    | created hkey => exact hsame (List.mem_cons_of_mem _ hcfg)
    | @patched base obj cur version hcur hkey =>
      refine hsame (hputIn ?_)
      cases t with
      | config j key => exact hp.elim
      | enrolment j nspace => exact hkey ▸ hother hp
      | release j => exact hkey ▸ hother hp
    | @deleted key hkey =>
      refine hsame (List.mem_filter.mpr ⟨hcfg, decide_eq_true ?_⟩)
      cases t with
      | config j key => exact hp.elim
      | enrolment j nspace => exact hother hp
      | release j => exact hother hp

end reach

/-! ## Retries -/

section retries

variable {rt : Runtime} {d : Default} {key : NamespacedName} {cfg : StoredConfig} {cond : Condition}
  {r : Result} {σ : Nat → (o : ConfigOp) → o.Ans} {n : Nat}

/-- The verdict on a config, the calls being answered as `σ` says. -/
def readyUnder (rt : Runtime) (d : Default) (cfg : StoredConfig)
    (σ : Nat → (o : ConfigOp) → o.Ans) : Bool :=
  ((validateConfig rt d cfg.toSaltKeyConfig).exec σ 1).2.toOption.any (·.status = .true)

theorem exec_writeVerdict (h : ((writeVerdict rt cfg cond).exec σ n).2 = .ok r) :
    r = if cond.status = .true then {}
      else if secretReasons.contains cond.reason then ⟨secretRetryInterval⟩ else {} := by
  obtain ⟨a, -, h⟩ := Prog.exec_bind_ok.mp h
  rcases a with e | v
  · cases h
  · dsimp only at h
    unfold reportVerdict at h
    by_cases hready : cond.status = .true
    · rw [if_pos hready] at h ⊢
      exact (Except.ok.inj h).symm
    · rw [if_neg hready] at h ⊢
      by_cases hreason : secretReasons.contains cond.reason = true
      · rw [if_pos hreason] at h ⊢
        exact (Except.ok.inj h).symm
      · rw [if_neg hreason] at h ⊢
        exact (Except.ok.inj h).symm

theorem retry_ne : (⟨secretRetryInterval⟩ : Result) ≠ {} := by decide

/-- **A pass asks to be repeated exactly if a Secret can help**: the config is not Ready, and there
are answers with which it would be. -/
theorem config_retried_iff (hget : σ 0 (.get key) = .ok cfg)
    (hr : ((reconcileConfig rt d key).exec σ 0).2 = .ok r) :
    r = ⟨secretRetryInterval⟩ ↔ readyUnder rt d cfg σ = false ∧
      ∃ σ', readyUnder rt d cfg σ' = true := by
  have hpass : ((validateConfig rt d cfg.toSaltKeyConfig >>= writeVerdict rt cfg).exec σ 1).2 =
      .ok r := by
    obtain ⟨a, ha, h⟩ := Prog.exec_bind_ok.mp hr
    obtain rfl : a = .ok cfg := (Except.ok.inj ha).symm.trans hget
    exact h
  rcases validate_eq rt d cfg.toSaltKeyConfig with
    ⟨-, cond, heq, hcond⟩ | ⟨-, judge, heq, -, hjudge⟩
  · -- a malformed spec: no answers help, and nothing is asked for
    have hunder (σ : Nat → (o : ConfigOp) → o.Ans) : readyUnder rt d cfg σ = false := by
      unfold readyUnder validateConfig
      rw [heq]
      show decide (cond.status = .true) = false
      rw [hcond.status]
      rfl
    have hreason : secretReasons.contains cond.reason = false := by
      rw [Bool.eq_false_iff]
      exact fun h => hcond.reason (List.contains_iff_mem.mp h)
    unfold validateConfig at hpass
    rw [heq] at hpass
    have hres := exec_writeVerdict hpass
    rw [hcond.status, if_neg nofun, hreason, if_neg Bool.false_ne_true] at hres
    rw [hres]
    refine ⟨fun h => absurd h.symm retry_ne, ?_⟩
    rintro ⟨-, σ', hσ'⟩
    rw [hunder σ'] at hσ'
    cases hσ'
  · -- a well-formed one: the Secret that suits it helps
    classical
    have hunder (σ : Nat → (o : ConfigOp) → o.Ans) : readyUnder rt d cfg σ = decide ((judge
        (σ 1 (.controller (.getSecret (credentialsKey d cfg.toSaltKeyConfig))))).status =
          .true) := by
      unfold readyUnder validateConfig
      rw [heq]
      rfl
    have hhelp : ∃ σ', readyUnder rt d cfg σ' = true := by
      refine ⟨fun m => Function.update (σ m)
        (.controller (.getSecret (credentialsKey d cfg.toSaltKeyConfig)))
        (.ok (suitable cfg.toSaltKeyConfig)), ?_⟩
      rw [hunder]
      exact decide_eq_true
        ((hjudge _).ready_iff.mpr ⟨_, Function.update_self .., suits_suitable rt _⟩)
    unfold validateConfig at hpass
    rw [heq] at hpass
    have hres := exec_writeVerdict (n := 2) hpass
    rw [hunder σ]
    by_cases hready : (judge (σ 1 (.controller (.getSecret
        (credentialsKey d cfg.toSaltKeyConfig))))).status = .true
    · rw [if_pos hready] at hres
      rw [hres, decide_eq_true hready]
      refine ⟨fun h => absurd h.symm retry_ne, ?_⟩
      rintro ⟨h, -⟩
      cases h
    · have hreason := List.contains_iff_mem.mpr ((hjudge _).notReady hready).2
      rw [if_neg hready, if_pos hreason] at hres
      rw [hres, decide_eq_false hready]
      exact ⟨fun _ => ⟨rfl, hhelp⟩, fun _ => rfl⟩

end retries

/-! ## A run -/

namespace Sample

/-- The config under a key. -/
def storedAt (w : ConfigWorld) (key : NamespacedName) :
    Option { v // v ∈ w.store.objects ∧ configKind.key v = key } :=
  match h : w.store.objects.find? fun v => configKind.key v = key with
  | none => none
  | some v => some ⟨v, List.mem_of_find?_eq_some h, by simpa using List.find?_some h⟩

/-- Calls are answered from what is stored now. -/
def serveConfig (w : ConfigWorld) : (o : ConfigOp) → o.Ans × ConfigWorld
  | .get key =>
    match storedAt w key with
    | none => (.error (.notFound ""), w)
    | some v => (.ok v.1, w)
  | .patchStatus base obj =>
    match storedAt w (configKind.key obj) with
    | none => (.error (.notFound ""), w)
    | some cur => (.ok (cur.1.statusPatched base obj ""),
      w.replace cur.2.1 (cur.1.statusPatched_next base obj ""))
  | .listEnrolled => (.error (.other ""), w)
  | .enrolment (.getNamespace name) => (.ok { name }, w)
  | .enrolment (.listConfigs nspace) =>
    (.ok ((w.store.objects.map StoredConfig.toSaltKeyConfig).filter (·.nspace = nspace)), w)
  | .enrolment (.createConfig _) => (.error (.other ""), w)
  | .enrolment (.patchConfig _ _) => (.error (.other ""), w)
  | .enrolment (.deleteConfig key) =>
    match storedAt w key with
    | none => (.error (.notFound ""), w)
    | some _ => (.ok (), w.delete key)
  | .enrolment (.log _ _) => ((), w)
  | .controller (.getSecret key) =>
    match w.secrets key with
    | none => (.error (.notFound ""), w)
    | some data => (.ok data, w)
  | .controller o => (answer {} o, w)

theorem serveConfig_exec (w : ConfigWorld) (o : ConfigOp) :
    ConfigExec w o (serveConfig w o).1 (serveConfig w o).2 := by
  cases o with
  | get key =>
    simp only [serveConfig]
    cases storedAt w key with
    | none => exact rfl
    | some v => exact ⟨⟨w.store.stored _ v.2.1, v.2.2⟩, rfl⟩
  | patchStatus base obj =>
    simp only [serveConfig]
    cases storedAt w (configKind.key obj) with
    | none => exact rfl
    | some cur => exact ⟨cur.1, "", cur.2.1, cur.2.2, rfl, rfl⟩
  | listEnrolled => exact rfl
  | enrolment o =>
    cases o with
    | getNamespace name => exact ⟨rfl, rfl⟩
    | listConfigs nspace =>
      refine ⟨fun cfg hcfg => ?_, rfl⟩
      obtain ⟨hmem, hns⟩ := List.mem_filter.mp hcfg
      obtain ⟨v, hv, rfl⟩ := List.mem_map.mp hmem
      exact ⟨of_decide_eq_true hns, v, w.store.stored v hv, rfl⟩
    | createConfig cfg => exact rfl
    | patchConfig base obj => exact rfl
    | deleteConfig key =>
      simp only [serveConfig]
      cases storedAt w key with
      | none => exact rfl
      | some v => exact ⟨List.mem_map.mpr ⟨v.1, v.2⟩, rfl⟩
    | log message fields => exact rfl
  | controller o =>
    cases o with
    | getSecret key =>
      simp only [serveConfig]
      cases hdata : w.secrets key with
      | none => exact ⟨hdata, rfl⟩
      | some data => exact ⟨hdata, rfl⟩
    | _ => exact rfl

/-- What others do. -/
inductive ConfigMove where
  | create (cfg : SaltKeyConfig)
  | delete (key : NamespacedName)

def ConfigMove.make (w : ConfigWorld) : ConfigMove → Option ConfigWorld
  | .create cfg =>
    if h : cfg.key ∉ w.store.objects.map configKind.key then some (w.create cfg "" h) else none
  | .delete key => some (w.delete key)

theorem ConfigMove.make_edit {e : ConfigMove} {w w' : ConfigWorld} (h : e.make w = some w') :
    w.Edit w' := by
  cases e with
  | create cfg =>
    simp only [ConfigMove.make] at h
    split at h
    · cases h
      exact .create _ _ _
    · cases h
  | delete key =>
    cases h
    exact .delete key

/-- The operator in the cluster, with its flags. -/
def flags : OperatorFlags := ⟨noDefault, ⟨[], true, none, ["kube-"], keyAcceptancePreseed⟩⟩

/-- A world without configs. -/
def noConfigs : ConfigWorld :=
  ⟨.empty, fun key =>
    if key.name = "creds" then some (((({} : StringMap).insert "username" "u")).insert
    "password" "p") else none⟩

/-- Play a schedule from there. -/
def playConfigs (acts : List (ConfigWorker Unit ⊕ ConfigMove)) : Option (ConfigCfg Unit) :=
  Cfg.play (ConfigWorker.program runtime fun _ => flags) serveConfig (fun e w => e.make w) acts
    ⟨noConfigs, fun _ => none, fun _ => []⟩

theorem exists_reach_configs (acts : List (ConfigWorker Unit ⊕ ConfigMove))
    (check : ConfigCfg Unit → Bool) (h : (playConfigs acts).any check = true) :
    ∃ c, (configCluster runtime fun _ : Unit => flags).Reach c ∧ check c = true := by
  obtain ⟨c, hplay, hcheck⟩ := (Option.any_eq_true _ _).mp h
  exact ⟨c, System.reach_play (S := configCluster runtime fun _ : Unit => flags)
    (fun _ => serveConfig_exec) (fun _ _ _ => ConfigMove.make_edit)
      (.init (w := noConfigs) rfl) hplay, hcheck⟩

/-- The config of namespace `a`, with an `acceptTimeout`. -/
def timed (acceptTimeout : String) : SaltKeyConfig :=
  { config "a" keyAcceptanceDiscovery with
    spec := { (config "a" keyAcceptanceDiscovery).spec with acceptTimeout } }

/-- A pass up to the write of the status. -/
def judging : List (ConfigWorker Unit ⊕ ConfigMove) :=
  [.inr (.create (timed "5m")), .inl (.config () ⟨"a", "salt"⟩), .inl (.config () ⟨"a", "salt"⟩),
   .inl (.config () ⟨"a", "salt"⟩)]

/-- The config of namespace `a` as it is stored. -/
def storedConfig : StoredConfig := (config "a" keyAcceptanceDiscovery).stored 0 ""

/-- A pass over it, without its Secret. -/
def noSecret (_ : Nat) : (o : ConfigOp) → o.Ans
  | .get _ => .ok storedConfig
  | .patchStatus _ obj => .ok obj
  | .listEnrolled => .ok []
  | .enrolment (.getNamespace name) => .ok { name }
  | .enrolment (.listConfigs _) => .ok []
  | .enrolment (.createConfig cfg) => .ok cfg
  | .enrolment (.patchConfig _ obj) => .ok obj
  | .enrolment (.deleteConfig _) => .ok ()
  | .enrolment (.log _ _) => ()
  | .controller (.getSecret _) => .error (.notFound "")
  | .controller o => answer {} o

/-- The pass reads the config and its Secret. Before it writes the status, the config is deleted
and created anew, with a timeout that is no duration. -/
def recreated : List (ConfigWorker Unit ⊕ ConfigMove) :=
  [.inr (.create (timed "5m")), .inl (.config () ⟨"a", "salt"⟩), .inl (.config () ⟨"a", "salt"⟩),
   .inr (.delete ⟨"a", "salt"⟩), .inr (.create (timed "soon")),
   .inl (.config () ⟨"a", "salt"⟩), .inl (.config () ⟨"a", "salt"⟩)]

end Sample

/-- The generation alone does not tell: this config is Ready, in the generation it has, with a spec
that was never looked at. -/
theorem ready_validated_recreated :
    ∃ c cfg, (configCluster Sample.runtime fun _ : Unit => Sample.flags).Reach c ∧
      cfg ∈ c.world.store.objects ∧ cfg.isReady = true ∧
      cfg.ready?.map Condition.observedGeneration = some cfg.generation ∧
      (invalidDuration cfg.spec).isSome = true ∧
      ∃ cond, ∃ _ : Unit, ∃ v, cfg.ready? = some cond ∧
        Validated Sample.runtime Sample.flags.default c cfg v cond ∧
        (v.uid = cfg.uid → cond.observedGeneration = cfg.generation → v.spec = cfg.spec) := by
  obtain ⟨c, hc, hcheck⟩ := Sample.exists_reach_configs Sample.recreated (fun c =>
    c.world.store.objects.any fun cfg => cfg.isReady &&
      (cfg.ready?.map Condition.observedGeneration = some cfg.generation &&
        (invalidDuration cfg.spec).isSome)) (by decide +kernel)
  obtain ⟨cfg, hcfg, hcheck⟩ := List.any_eq_true.mp hcheck
  obtain ⟨hready, hcheck⟩ := (Bool.and_eq_true _ _).mp hcheck
  obtain ⟨hgen, hinvalid⟩ := (Bool.and_eq_true _ _).mp hcheck
  exact ⟨c, cfg, hc, hcfg, hready, of_decide_eq_true hgen, hinvalid, ready_validated hc hcfg hready⟩

/-- The pass over a config of a team, about to write the status. -/
theorem team_config_untouched_judged :
    ∃ c o a c' cfg, (configCluster Sample.runtime fun _ : Unit => Sample.flags).Reach c ∧
      (configCluster Sample.runtime fun _ : Unit => Sample.flags).Step c
        (.call (.config () ⟨"a", "salt"⟩) o a) c' ∧
      cfg ∈ c.world.store.objects ∧
      (∀ v ∈ c.world.store.versions, configKind.key v = configKind.key cfg → v.enrolled = false) ∧
      ∃ version conditions observed, { cfg with
        resourceVersion := version
        conditions := conditions
        observedGeneration := observed } ∈ c'.world.store.objects := by
  obtain ⟨c, hc, hcheck⟩ := Sample.exists_reach_configs Sample.judging (fun c =>
    (c.threads (.config () ⟨"a", "salt"⟩)).any (!·.isDone) &&
      (c.world.store.objects.any (fun _ => true) &&
        c.world.store.versions.all fun v => !v.enrolled))
    (by decide +kernel)
  obtain ⟨hbusy, hcheck⟩ := (Bool.and_eq_true _ _).mp hcheck
  obtain ⟨hsome, hteam⟩ := (Bool.and_eq_true _ _).mp hcheck
  obtain ⟨cfg, hcfg, -⟩ := List.any_eq_true.mp hsome
  obtain ⟨o, a, c', hs⟩ := System.exists_call_step (S := configCluster Sample.runtime
    fun _ : Unit => Sample.flags) (fun _ => Sample.serveConfig_exec) hbusy
  have hnone : ∀ v ∈ c.world.store.versions, configKind.key v = configKind.key cfg →
      v.enrolled = false := fun v hv _ => by
    simpa using List.all_eq_true.mp hteam v hv
  exact ⟨c, o, a, c', cfg, hc, hs, hcfg, hnone, team_config_untouched hc hs hcfg hnone⟩

/-- The Secret is not there yet: the pass is to be repeated. -/
theorem config_retried_missing :
    ((reconcileConfig Sample.runtime Sample.noDefault ⟨"a", "salt"⟩).exec Sample.noSecret 0).2 =
      .ok ⟨secretRetryInterval⟩ ∧
    readyUnder Sample.runtime Sample.noDefault Sample.storedConfig Sample.noSecret = false ∧
    ∃ σ', readyUnder Sample.runtime Sample.noDefault Sample.storedConfig σ' = true := by
  have hr : ((reconcileConfig Sample.runtime Sample.noDefault ⟨"a", "salt"⟩).exec
      Sample.noSecret 0).2 = .ok ⟨secretRetryInterval⟩ := by
    decide +kernel
  exact ⟨hr, (config_retried_iff rfl hr).mp rfl⟩

end SaltOperator
