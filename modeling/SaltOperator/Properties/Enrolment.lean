import SaltOperator.Lib.Convergence
import SaltOperator.Lib.Runs
import SaltOperator.Controller.Enrolment

/-!
# Enrolment comes to rest

A pass of `EnrolmentReconciler` deletes one config, changes one, creates one, or
does nothing, and looks at nothing but the configs that are there. What it has
still to do is `remaining`; each pass does some of it (`EnrolmentStep.progress`),
and a config without the operator's label is never written
(`EnrolmentStep.team`, `enrolmentPass_step`).

**Passes over a namespace, each listing the configs in an order of its own, come to
rest after at most one pass more than there were configs, with the configs of the
team as they were and the operator's own as they should be**
(`enrolment_converges`).
-/

namespace SaltOperator

theorem ownConfig_eq (configs : List SaltKeyConfig) :
    ownConfig configs = (configs.filter SaltKeyConfig.enrolled).getLast? := by
  unfold ownConfig
  induction configs using List.reverseRecOn with
  | nil => rfl
  | append_singleton configs cfg ih =>
    rw [List.foldl_append, List.filter_append]
    cases h : cfg.enrolled <;> simp [h, ih]

theorem ownConfig_some {configs : List SaltKeyConfig} {own : SaltKeyConfig}
    (h : ownConfig configs = some own) : own ∈ configs ∧ own.enrolled = true := by
  rw [ownConfig_eq] at h
  simpa using List.mem_of_getLast? h

theorem ownConfig_none {configs : List SaltKeyConfig} (h : ownConfig configs = none) :
    ∀ cfg ∈ configs, cfg.enrolled = false := by
  rw [ownConfig_eq, List.getLast?_eq_none_iff] at h
  simpa using List.filter_eq_nil_iff.mp h

namespace Contents

variable {nspace : String}

/-- The configs that are not the operator's. -/
def team (w : Contents nspace) : List SaltKeyConfig := w.configs.filter fun cfg => !cfg.enrolled

/-- The operator's own. -/
def own (w : Contents nspace) : List SaltKeyConfig := w.configs.filter SaltKeyConfig.enrolled

theorem eq_of_name (w : Contents nspace) {a b : SaltKeyConfig} (ha : a ∈ w.configs)
    (hb : b ∈ w.configs) (h : a.name = b.name) : a = b :=
  List.inj_on_of_nodup_map w.names ha hb h

end Contents

section steps

variable {e : Enrolment} {ns : Namespace} {w w' : Contents ns.name}

/-- The operator's configs are as they should be: none where there is nothing to
enrol, or exactly one with the right key acceptance. -/
def Settled (e : Enrolment) (ns : Namespace) (w : Contents ns.name) : Prop :=
  if e.matchesNamespace ns = true ∧ w.team = [] then
    ∃ cfg, w.own = [cfg] ∧ cfg.spec.keyAcceptance = e.keyAcceptance
  else w.own = []

/-- What a pass does. -/
inductive EnrolmentStep (e : Enrolment) (ns : Namespace) (w w' : Contents ns.name) : Prop where
  | removed (own : SaltKeyConfig) : own ∈ w.configs → own.enrolled = true →
      (e.matchesNamespace ns = true → 1 < w.configs.length) →
      w'.configs = w.configs.filter (·.name ≠ own.name) → EnrolmentStep e ns w w'
  | adjusted (own new : SaltKeyConfig) : e.matchesNamespace ns = true → w.configs = [own] →
      own.enrolled = true → own.spec.keyAcceptance ≠ e.keyAcceptance → w'.configs = [new] →
      new.enrolled = true → new.spec.keyAcceptance = e.keyAcceptance → EnrolmentStep e ns w w'
  | created (new : SaltKeyConfig) : e.matchesNamespace ns = true → w.configs = [] →
      w'.configs = [new] → new.enrolled = true → new.spec.keyAcceptance = e.keyAcceptance →
      EnrolmentStep e ns w w'
  | rested : Settled e ns w → w' = w → EnrolmentStep e ns w w'

/-- The configs of the team are as before. -/
theorem EnrolmentStep.team (h : EnrolmentStep e ns w w') : w'.team = w.team := by
  unfold Contents.team
  cases h with
  | removed own hmem hown _ hw =>
    rw [hw, List.filter_filter]
    refine List.filter_congr fun cfg hcfg => ?_
    -- the deleted name is the operator's config's and nobody else's
    cases henr : cfg.enrolled with
    | true => rfl
    | false =>
      have hne : cfg.name ≠ own.name := by
        intro hname
        rw [w.eq_of_name hcfg hmem hname, hown] at henr
        cases henr
      simp [hne]
  | adjusted own new _ hw hown _ hw' hnew _ => simp [hw, hw', hown, hnew]
  | created new _ hw hw' hnew _ => simp [hw, hw', hnew]
  | rested _ hw => rw [hw]

/-- The writes still to be made. -/
def remaining (e : Enrolment) (ns : Namespace) (w : Contents ns.name) : ℕ :=
  if e.matchesNamespace ns = true ∧ w.team = [] then
    match w.own with
    | [] => 1
    | [cfg] => if cfg.spec.keyAcceptance = e.keyAcceptance then 0 else 1
    | own => own.length
  else w.own.length

theorem remaining_eq_zero_iff : remaining e ns w = 0 ↔ Settled e ns w := by
  unfold remaining Settled
  split
  · rcases w.own with _ | ⟨cfg, _ | ⟨cfg', rest⟩⟩
    · simp
    · simp
    · simp
  · exact List.length_eq_zero_iff

theorem remaining_le : remaining e ns w ≤ max w.own.length 1 := by
  unfold remaining
  split
  · rcases w.own with _ | ⟨cfg, _ | ⟨cfg', rest⟩⟩
    · simp
    · dsimp only
      split <;> simp
    · exact le_max_left _ _
  · exact le_max_left _ _

/-- With several configs of its own, the operator has as many writes to make. -/
theorem remaining_of_many (h : 1 < w.own.length) : remaining e ns w = w.own.length := by
  unfold remaining
  split
  · rcases hown : w.own with _ | ⟨cfg, _ | ⟨cfg', rest⟩⟩
    · simp [hown] at h
    · simp [hown] at h
    · rfl
  · rfl

theorem remaining_of_team (h : ¬ (e.matchesNamespace ns = true ∧ w.team = [])) :
    remaining e ns w = w.own.length := if_neg h

/-- Without a team's config, the configs are the operator's. -/
theorem Contents.own_of_team_nil (h : w.team = []) : w.own = w.configs := by
  refine List.filter_eq_self.mpr fun cfg hcfg => ?_
  simpa using List.filter_eq_nil_iff.mp h cfg hcfg

/-- The deletion of a config of the operator's leaves fewer of them. -/
theorem Contents.own_lt_of_removed {own : SaltKeyConfig} (hmem : own ∈ w.configs)
    (hown : own.enrolled = true) (hw : w'.configs = w.configs.filter (·.name ≠ own.name)) :
    w'.own.length < w.own.length := by
  have heq : w'.own = w.own.filter (·.name ≠ own.name) := by
    unfold Contents.own
    rw [hw, List.filter_filter, List.filter_filter]
    exact List.filter_congr fun cfg _ => Bool.and_comm _ _
  rw [heq]
  refine List.length_filter_lt_length_iff_exists.mpr ⟨own, ?_, by simp⟩
  exact List.mem_filter.mpr ⟨hmem, hown⟩

/-- A pass makes one of the remaining writes, or there is none and it does nothing. -/
theorem EnrolmentStep.progress (h : EnrolmentStep e ns w w') :
    remaining e ns w' < remaining e ns w ∨ (remaining e ns w = 0 ∧ w' = w) := by
  have hteam := h.team
  cases h with
  | removed own hmem hown hmany hw =>
    have hlt : w'.own.length < w.own.length := Contents.own_lt_of_removed hmem hown hw
    left
    by_cases hcond : e.matchesNamespace ns = true ∧ w.team = []
    · have hlen : 1 < w.own.length := by
        rw [Contents.own_of_team_nil hcond.2]
        exact hmany hcond.1
      have hle := remaining_le (e := e) (w := w')
      rw [remaining_of_many hlen]
      omega
    · rw [remaining_of_team hcond, remaining_of_team (by rwa [hteam])]
      exact hlt
  | adjusted own new hmatch hw hown hne hw' hnew hkey =>
    left
    have hafter : remaining e ns w' = 0 := by
      simp [remaining, Contents.team, Contents.own, hmatch, hw', hnew, hkey]
    have hbefore : remaining e ns w = 1 := by
      simp [remaining, Contents.team, Contents.own, hmatch, hw, hown, hne]
    omega
  | created new hmatch hw hw' hnew hkey =>
    left
    have hafter : remaining e ns w' = 0 := by
      simp [remaining, Contents.team, Contents.own, hmatch, hw', hnew, hkey]
    have hbefore : remaining e ns w = 1 := by
      simp [remaining, Contents.team, Contents.own, hmatch, hw]
    omega
  | rested hset hw => exact .inr ⟨remaining_eq_zero_iff.mpr hset, hw⟩

end steps

/-! ## A pass -/

/-- The name of the config a call writes. -/
def EnrolmentOp.written : EnrolmentOp → Option String
  | .createConfig cfg => some cfg.name
  | .patchConfig _ obj => some obj.name
  | .deleteConfig key => some key.name
  | _ => none

/-- The calls of a pass, newest first. -/
abbrev EnrolmentCalls (ns : Namespace) := List (Call EnrolmentOp EnrolmentOp.Ans (Contents ns.name))

/-- A pass over `ns` by itself, with its calls. -/
def EnrolmentPass (e : Enrolment) (ns : Namespace) (w : Contents ns.name)
    (calls : EnrolmentCalls ns) (w' : Contents ns.name) : Prop :=
  ∃ r, (enrolmentReconcile e ns.name).Runs (Serves ns) w [] r w' calls

section passes

variable {e : Enrolment} {ns : Namespace} {w w' : Contents ns.name} {own : SaltKeyConfig}
  {r : Except String Result} {h h₁ h' : EnrolmentCalls ns} {name : String}

/-- The calls since `h` write at most the config `name`. -/
def OnlyWrites (name : String) (h h' : EnrolmentCalls ns) : Prop :=
  ∃ l, h' = l ++ h ∧ ∀ c ∈ l, ∀ n, c.op.written = some n → n = name

theorem OnlyWrites.refl (name : String) (h : EnrolmentCalls ns) : OnlyWrites name h h :=
  ⟨[], rfl, fun _ hc => absurd hc List.not_mem_nil⟩

theorem OnlyWrites.cons {c : Call EnrolmentOp EnrolmentOp.Ans (Contents ns.name)}
    (hw : OnlyWrites name h h₁) (hc : ∀ n, c.op.written = some n → n = name) :
    OnlyWrites name h (c :: h₁) := by
  obtain ⟨l, rfl, hl⟩ := hw
  refine ⟨c :: l, rfl, fun x hx => ?_⟩
  rcases List.mem_cons.mp hx with rfl | hx
  · exact hc
  · exact hl x hx

theorem runs_enrolmentLog {α : Type} {message : String} {fields : List (String × String)}
    {f : Unit → EnrolM α} {r : Except String α}
    (hr : (enrolmentLog message fields >>= f).Runs (Serves ns) w h r w' h') :
    ∃ c, c.op = .log message fields ∧ (f ()).Runs (Serves ns) w (c :: h) r w' h' := by
  obtain ⟨a, w₁, hs, hr⟩ := Prog.runs_perform_bind.mp hr
  obtain rfl : w₁ = w := hs
  exact ⟨_, rfl, hr⟩

theorem runs_removeOwnConfig {message : String} (hmem : own ∈ w.configs)
    (hr : (removeOwnConfig ns own message).Runs (Serves ns) w h r w' h') :
    w'.configs = w.configs.filter (·.name ≠ own.name) ∧ OnlyWrites own.name h h' := by
  obtain ⟨c, hc, hr⟩ := runs_enrolmentLog hr
  obtain ⟨a, w₁, hs, hr⟩ := Prog.runs_perform_bind.mp hr
  have hhas : w.Has ⟨own.nspace, own.name⟩ := ⟨w.here own hmem, List.mem_map_of_mem hmem⟩
  replace hs : ite _ _ _ := hs
  rw [if_pos hhas] at hs
  obtain ⟨rfl, rfl⟩ := hs
  obtain ⟨-, rfl, rfl⟩ := Prog.runs_ret.mp hr
  refine ⟨rfl, ((OnlyWrites.refl _ h).cons ?_).cons ?_⟩
  · rw [hc]
    exact nofun
  · exact fun n hn => (Option.some.inj hn).symm

theorem runs_adjustOwnConfig (hkey : e.keyAcceptance ≠ "") (hmatch : e.matchesNamespace ns = true)
    (hw : w.configs = [own]) (hown : own.enrolled = true)
    (hr : (adjustOwnConfig e ns own).Runs (Serves ns) w h r w' h') :
    EnrolmentStep e ns w w' ∧ OnlyWrites own.name h h' := by
  unfold adjustOwnConfig at hr
  split at hr
  · rename_i hne
    obtain ⟨a, w₁, hs, hr⟩ := Prog.runs_perform_bind.mp hr
    have hmem : own ∈ w.configs := by simp [hw]
    have hhas : w.Has ⟨(own.withKeyAcceptance e.keyAcceptance).nspace,
        (own.withKeyAcceptance e.keyAcceptance).name⟩ :=
      ⟨w.here own hmem, List.mem_map.mpr ⟨own, hmem, rfl⟩⟩
    replace hs : ite _ _ _ := hs
    rw [if_pos hhas] at hs
    obtain ⟨cur, hcur, -, version, rfl, rfl⟩ := hs
    obtain rfl : cur = own := by
      rw [hw] at hcur
      exact List.mem_singleton.mp hcur
    obtain ⟨c, hc, hr⟩ := runs_enrolmentLog hr
    obtain ⟨-, rfl, rfl⟩ := Prog.runs_ret.mp hr
    refine ⟨.adjusted cur _ hmatch hw hown hne.2 (w.patchConfig_singleton hw rfl) hown ?_,
      ((OnlyWrites.refl _ h).cons ?_).cons ?_⟩
    · exact mergeWhole_ne hne.2 _
    · exact fun n hn => (Option.some.inj hn).symm
    · rw [hc]
      exact nofun
  · rename_i hno
    have hsame : own.spec.keyAcceptance = e.keyAcceptance := by
      by_contra hne
      exact hno ⟨hkey, hne⟩
    obtain ⟨-, rfl, rfl⟩ := Prog.runs_ret.mp hr
    refine ⟨.rested ?_ rfl, .refl _ _⟩
    simp [Settled, Contents.team, Contents.own, hmatch, hw, hown, hsame]

theorem runs_enrolNamespace (hkey : e.keyAcceptance ≠ "") (hmatch : e.matchesNamespace ns = true)
    (hw : w.configs = []) (hr : (enrolNamespace e ns).Runs (Serves ns) w h r w' h') :
    EnrolmentStep e ns w w' := by
  obtain ⟨a, w₁, hs, hr⟩ := Prog.runs_perform_bind.mp hr
  have hnew : (enrolledConfig e ns).nspace = ns.name ∧
      (enrolledConfig e ns).name ∉ w.configs.map SaltKeyConfig.name := ⟨rfl, by simp [hw]⟩
  replace hs : dite _ _ _ := hs
  rw [dif_pos hnew] at hs
  obtain ⟨version, rfl, rfl⟩ := hs
  obtain ⟨c, -, hr⟩ := runs_enrolmentLog hr
  obtain ⟨-, rfl, -⟩ := Prog.runs_ret.mp hr
  refine .created ((enrolledConfig e ns).created version) hmatch hw ?_ ?_ ?_
  · show w.configs ++ _ = _
    rw [hw, List.nil_append]
  · simp [SaltKeyConfig.enrolled, SaltKeyConfig.created, enrolledConfig, StringMap.read]
  · simp [SaltKeyConfig.created, SaltKeyConfigSpec.defaulted, enrolledConfig, hkey]

/-- The calls since `h` write no config but the operator's. -/
def SparesTeam (w : Contents ns.name) (h h' : EnrolmentCalls ns) : Prop :=
  ∃ l, h' = l ++ h ∧ ∀ c ∈ l, ∀ cfg ∈ w.configs, c.op.written = some cfg.name → cfg.enrolled = true

theorem SparesTeam.refl (w : Contents ns.name) (h : EnrolmentCalls ns) : SparesTeam w h h :=
  ⟨[], rfl, fun _ hc => absurd hc List.not_mem_nil⟩

theorem OnlyWrites.spares (hmem : own ∈ w.configs) (hown : own.enrolled = true)
    (hw : OnlyWrites own.name h h') : SparesTeam w h h' := by
  obtain ⟨l, rfl, hl⟩ := hw
  refine ⟨l, rfl, fun c hc cfg hcfg hwritten => ?_⟩
  rw [w.eq_of_name hcfg hmem (hl c hc _ hwritten)]
  exact hown

theorem sparesTeam_of_nil (hw : w.configs = []) (hh : h <:+ h') : SparesTeam w h h' := by
  obtain ⟨l, rfl⟩ := hh
  refine ⟨l, rfl, fun c _ cfg hcfg => ?_⟩
  rw [hw] at hcfg
  exact absurd hcfg List.not_mem_nil

/-- `Reconcile` with the configs listed in any order. -/
theorem runs_reconcileEnrolment {configs : List SaltKeyConfig} (hkey : e.keyAcceptance ≠ "")
    (hperm : configs.Perm w.configs)
    (hr : (reconcileEnrolment e ns configs).Runs (Serves ns) w h r w' h') :
    EnrolmentStep e ns w w' ∧ SparesTeam w h h' := by
  have hlen := hperm.length_eq
  unfold reconcileEnrolment at hr
  split at hr
  · rename_i hmatch hnone
    obtain ⟨-, rfl, rfl⟩ := Prog.runs_ret.mp hr
    refine ⟨.rested ?_ rfl, .refl _ _⟩
    rw [Settled, if_neg (by simp [hmatch])]
    exact List.filter_eq_nil_iff.mpr fun cfg hcfg => by
      simp [ownConfig_none hnone cfg (hperm.mem_iff.mpr hcfg)]
  · rename_i own hmatch hown
    obtain ⟨hmem, henr⟩ := ownConfig_some hown
    have hmem := hperm.mem_iff.mp hmem
    obtain ⟨hw, hwrites⟩ := runs_removeOwnConfig hmem hr
    exact ⟨.removed own hmem henr (by simp [hmatch]) hw, hwrites.spares hmem henr⟩
  · rename_i own hmatch hown
    obtain ⟨hmem, henr⟩ := ownConfig_some hown
    have hmem := hperm.mem_iff.mp hmem
    split at hr
    · rename_i hmany
      obtain ⟨hw, hwrites⟩ := runs_removeOwnConfig hmem hr
      exact ⟨.removed own hmem henr (fun _ => hlen ▸ hmany) hw, hwrites.spares hmem henr⟩
    · rename_i hmany
      -- it is the only one
      have hone : w.configs = [own] := by
        have hpos := List.length_pos_of_mem hmem
        obtain ⟨cfg, hcfg⟩ := List.length_eq_one_iff.mp (by omega : w.configs.length = 1)
        rw [hcfg] at hmem
        rw [hcfg, List.mem_singleton.mp hmem]
      obtain ⟨hstep, hwrites⟩ := runs_adjustOwnConfig hkey hmatch hone henr hr
      exact ⟨hstep, hwrites.spares hmem henr⟩
  · rename_i hmatch hnone
    split at hr
    · rename_i hsome
      obtain ⟨-, rfl, rfl⟩ := Prog.runs_ret.mp hr
      refine ⟨.rested ?_ rfl, .refl _ _⟩
      have hnone' : ∀ cfg ∈ w'.configs, cfg.enrolled = false := fun cfg hcfg =>
        ownConfig_none hnone cfg (hperm.mem_iff.mpr hcfg)
      have hteam : w'.team ≠ [] := by
        obtain ⟨cfg, hcfg⟩ := List.exists_mem_of_length_pos (hlen ▸ hsome)
        exact List.ne_nil_of_mem (List.mem_filter.mpr ⟨hcfg, by simp [hnone' cfg hcfg]⟩)
      rw [Settled, if_neg fun hcond => hteam hcond.2]
      exact List.filter_eq_nil_iff.mpr fun cfg hcfg => by simp [hnone' cfg hcfg]
    · rename_i hempty
      have hnil : w.configs = [] := List.length_eq_zero_iff.mp (by omega)
      exact ⟨runs_enrolNamespace hkey hmatch hnil hr, sparesTeam_of_nil hnil hr.suffix⟩

/-- A pass is a step, and writes no config but the operator's. -/
theorem enrolmentPass_step {calls : EnrolmentCalls ns} (hkey : e.keyAcceptance ≠ "")
    (hns : ns.deletionTimestamp = none) (hp : EnrolmentPass e ns w calls w') :
    EnrolmentStep e ns w w' ∧ ∀ c ∈ calls, ∀ cfg ∈ w.configs,
      c.op.written = some cfg.name → cfg.enrolled = true := by
  obtain ⟨r, hr⟩ := hp
  obtain ⟨a, w₁, ⟨ha, rfl⟩, hr⟩ := Prog.runs_perform_bind.mp hr
  obtain rfl := ha rfl
  replace hr : (ite _ _ _ : EnrolM Result).Runs (Serves ns) w₁ _ r w' calls := hr
  rw [if_neg (by simp [hns])] at hr
  obtain ⟨a, w₂, ⟨ha, rfl⟩, hr⟩ := Prog.runs_perform_bind.mp hr
  obtain ⟨configs, hperm, rfl⟩ := ha rfl
  obtain ⟨hstep, l, rfl, hl⟩ := runs_reconcileEnrolment hkey hperm hr
  refine ⟨hstep, fun c hc => ?_⟩
  rcases List.mem_append.mp hc with hc | hc
  · exact hl c hc
  · -- the two reads
    rcases List.mem_cons.mp hc with rfl | hc
    · exact fun cfg _ => nofun
    · rw [List.mem_singleton.mp hc]
      exact fun cfg _ => nofun

theorem exists_enrolmentPass (e : Enrolment) (ns : Namespace) (w : Contents ns.name) :
    ∃ calls w', EnrolmentPass e ns w calls w' := by
  obtain ⟨r, w', calls, hr⟩ :=
    Prog.exists_runs (exists_serves ns) (enrolmentReconcile e ns.name) w []
  exact ⟨calls, w', r, hr⟩

end passes

theorem remaining_le_length {e : Enrolment} {ns : Namespace} {w : Contents ns.name} :
    remaining e ns w ≤ w.configs.length + 1 := by
  have hle := remaining_le (e := e) (w := w)
  have hown : w.own.length ≤ w.configs.length := List.length_filter_le _ _
  omega

/-- For every setting with a key acceptance and every namespace that is not being
deleted, passes are possible in every state, and every sequence of passes leaves the
configs of the team alone, writes none of them, and rests after one pass more than
there were configs. -/
theorem enrolment_converges (e : Enrolment) (ns : Namespace) (hkey : e.keyAcceptance ≠ "")
    (hns : ns.deletionTimestamp = none) :
    (∀ w : Contents ns.name, ∃ calls w', EnrolmentPass e ns w calls w') ∧
    ∀ (W : ℕ → Contents ns.name) (calls : ℕ → EnrolmentCalls ns),
      (∀ i, EnrolmentPass e ns (W i) (calls i) (W (i + 1))) →
      (∀ i, (W i).team = (W 0).team) ∧
      (∀ i, ∀ c ∈ calls i, ∀ cfg ∈ (W i).configs, c.op.written = some cfg.name →
        cfg.enrolled = true) ∧
      ∀ n, (W 0).configs.length + 1 ≤ n → W (n + 1) = W n ∧ Settled e ns (W n) := by
  refine ⟨exists_enrolmentPass e ns, fun W calls hW => ⟨fun i => ?_, fun i => ?_, fun n hn => ?_⟩⟩
  · induction i with
    | zero => rfl
    | succ i ih => exact (enrolmentPass_step hkey hns (hW i)).1.team.trans ih
  · exact (enrolmentPass_step hkey hns (hW i)).2
  · have hrest := settles (fun _ _ (hs : EnrolmentStep e ns _ _) => hs.progress)
      (fun i => (enrolmentPass_step hkey hns (hW i)).1) (remaining_le_length.trans hn)
    exact ⟨hrest.2, remaining_eq_zero_iff.mp hrest.1⟩

/-- All namespaces are enrolled, with preseeded keys. -/
def Sample.enrolment : Enrolment := ⟨[], true, none, ["kube-"], keyAcceptancePreseed⟩

/-- A namespace with two configs of the operator, none of them with preseeded keys. -/
def Sample.twice : Contents "team-a" where
  configs := ["salt-config", "salt-config-old"].map fun name =>
    { name, nspace := "team-a", labels := ({} : StringMap).insert labelManagedBy managedByOperator }
  here cfg hcfg := by
    obtain ⟨name, -, rfl⟩ := List.mem_map.mp hcfg
    rfl
  names := by decide

/-- Passes over that namespace come to rest at one config, with preseeded keys. -/
theorem enrolment_converges_twice : ∃ (W : ℕ → Contents "team-a") (cfg : SaltKeyConfig),
    W 0 = Sample.twice ∧
    (∀ i, ∃ calls, EnrolmentPass Sample.enrolment ⟨"team-a", {}, none⟩ (W i) calls (W (i + 1))) ∧
    W 4 = W 3 ∧ (W 3).own = [cfg] ∧ cfg.spec.keyAcceptance = keyAcceptancePreseed := by
  obtain ⟨hpass, hconv⟩ := enrolment_converges Sample.enrolment ⟨"team-a", {}, none⟩ (by decide) rfl
  choose calls next hnext using hpass
  let W : ℕ → Contents "team-a" := fun n => next^[n] Sample.twice
  have hW (i : ℕ) : EnrolmentPass Sample.enrolment ⟨"team-a", {}, none⟩ (W i) (calls (W i))
      (W (i + 1)) := by
    show EnrolmentPass _ _ _ _ (next^[i + 1] Sample.twice)
    rw [Function.iterate_succ_apply']
    exact hnext _
  obtain ⟨hteam, -, hrest⟩ := hconv W (fun i => calls (W i)) hW
  obtain ⟨heq, hsettled⟩ := hrest 3 (show Sample.twice.configs.length + 1 ≤ 3 by decide)
  have hnone : (W 3).team = [] := (hteam 3).trans (show Sample.twice.team = [] by decide)
  rw [Settled, if_pos ⟨by decide, hnone⟩] at hsettled
  obtain ⟨cfg, hown, hkey⟩ := hsettled
  exact ⟨W, cfg, rfl, fun i => ⟨_, hW i⟩, heq, hown, hkey⟩

end SaltOperator
