import SaltOperator.Scavenger.Scavenge
import SaltOperator.Properties.Configs

/-!
# What the scavenger deletes

The scavenger compares the accepted keys of a RaaS with the VMs of a group of
namespaces. Groups are keyed by the URL as it is configured, while the client strips
trailing slashes. **Configs of one RaaS are in one group exactly when they spell its URL
alike** (`grouped_by_endpoint_iff`).

The keys of a RaaS are those of all its minions, and the group's namespaces are only
those with a Ready config that resolves to it. **The key of a minion is spared, whichever
calls fail, exactly when each Ready config that resolves to a RaaS with the key has one
beside it, resolving to the same URL, in whose namespace a VM records the ID**
(`recorded_key_spared_iff`); or the ID is excluded.
-/

namespace SaltOperator

/-! ## Groups -/

/-- The groups made of configs with their connections: one a URL, with the namespaces of
its configs. -/
structure Grouping (resolved : List (SaltKeyConfig × Connection)) (groups : List RaasGroup) :
    Prop where
  distinct : (groups.map (·.conn.url)).Nodup
  namespaces : ∀ g ∈ groups,
    g.namespaces = (resolved.filter fun c => c.2.url = g.conn.url).map (·.1.nspace)
  covered : ∀ c ∈ resolved, ∃ g ∈ groups, g.conn.url = c.2.url
  made : ∀ g ∈ groups, ∃ c ∈ resolved, c.2 = g.conn

section grouping

variable {resolved : List (SaltKeyConfig × Connection)} {groups : List RaasGroup}
  {conn : Connection} {nspace : String} {g : RaasGroup}

/-- A group after a namespace is put into the one of its URL: another one as before, that
one, or a new one. -/
theorem of_mem_addToGroup (hdistinct : (groups.map (·.conn.url)).Nodup)
    (h : g ∈ addToGroup conn nspace groups) :
    (g ∈ groups ∧ g.conn.url ≠ conn.url) ∨
    (∃ g' ∈ groups, g'.conn.url = conn.url ∧
      g = { g' with namespaces := g'.namespaces ++ [nspace] }) ∨
    ((∀ g' ∈ groups, g'.conn.url ≠ conn.url) ∧ g = ⟨conn, [nspace]⟩) := by
  induction groups with
  | nil => exact .inr (.inr ⟨nofun, List.mem_singleton.mp h⟩)
  | cons g₀ groups ih =>
    obtain ⟨hnew, hrest⟩ := List.nodup_cons.mp hdistinct
    unfold addToGroup at h
    by_cases hurl : g₀.conn.url = conn.url
    · rw [if_pos hurl] at h
      rcases List.mem_cons.mp h with rfl | hg
      · exact .inr (.inl ⟨g₀, List.mem_cons_self, hurl, rfl⟩)
      · refine .inl ⟨List.mem_cons_of_mem _ hg, fun heq => hnew ?_⟩
        exact List.mem_map.mpr ⟨g, hg, heq.trans hurl.symm⟩
    · rw [if_neg hurl] at h
      rcases List.mem_cons.mp h with rfl | hg
      · exact .inl ⟨List.mem_cons_self, hurl⟩
      · rcases ih hrest hg with ⟨hmem, hne⟩ | ⟨g', hg', hurl', heq⟩ | ⟨hno, heq⟩
        · exact .inl ⟨List.mem_cons_of_mem _ hmem, hne⟩
        · exact .inr (.inl ⟨g', List.mem_cons_of_mem _ hg', hurl', heq⟩)
        · refine .inr (.inr ⟨fun g' hg' => ?_, heq⟩)
          rcases List.mem_cons.mp hg' with rfl | hg'
          · exact hurl
          · exact hno g' hg'

theorem urls_addToGroup (conn : Connection) (nspace : String) (groups : List RaasGroup) :
    (addToGroup conn nspace groups).map (·.conn.url) =
      if conn.url ∈ groups.map (·.conn.url) then groups.map (·.conn.url)
      else groups.map (·.conn.url) ++ [conn.url] := by
  induction groups with
  | nil => rfl
  | cons g groups ih =>
    unfold addToGroup
    by_cases hurl : g.conn.url = conn.url
    · rw [if_pos hurl]
      simp [hurl]
    · rw [if_neg hurl, List.map_cons, ih]
      have hmem : conn.url ∈ (g :: groups).map (·.conn.url) ↔
          conn.url ∈ groups.map (·.conn.url) := by
        simp [Ne.symm hurl]
      simp only [hmem]
      split <;> rfl

theorem groupsOf_append (resolved : List (SaltKeyConfig × Connection))
    (c : SaltKeyConfig × Connection) :
    groupsOf (resolved ++ [c]) = addToGroup c.2 c.1.nspace (groupsOf resolved) :=
  List.foldl_append ..

/-- Another config is put into the groups. -/
theorem Grouping.add (h : Grouping resolved groups) (c : SaltKeyConfig × Connection) :
    Grouping (resolved ++ [c]) (addToGroup c.2 c.1.nspace groups) := by
  have hurls := urls_addToGroup c.2 c.1.nspace groups
  refine ⟨?_, fun g hg => ?_, fun c' hc' => ?_, fun g hg => ?_⟩
  · rw [hurls]
    split
    · exact h.distinct
    · next hno =>
        exact List.nodup_append.mpr ⟨h.distinct, List.nodup_singleton _, by simpa using hno⟩
  · rw [List.filter_append, List.map_append]
    rcases of_mem_addToGroup h.distinct hg with ⟨hmem, hne⟩ | ⟨g', hg', hurl, rfl⟩ | ⟨hno, rfl⟩
    · rw [h.namespaces g hmem, List.filter_cons_of_neg (by simpa using Ne.symm hne)]
      simp
    · rw [List.filter_cons_of_pos (by simpa using hurl.symm)]
      exact congrArg (· ++ [c.1.nspace]) (h.namespaces g' hg')
    · have hempty : resolved.filter (fun c' => c'.2.url = c.2.url) = [] := by
        rw [List.filter_eq_nil_iff]
        intro c' hc' heq
        obtain ⟨g', hg', hurl⟩ := h.covered c' hc'
        exact hno g' hg' (hurl.trans (of_decide_eq_true heq))
      simp [hempty]
  · have hmem : c'.2.url ∈ (addToGroup c.2 c.1.nspace groups).map (·.conn.url) := by
      rw [hurls]
      rcases List.mem_append.mp hc' with hc' | hc'
      · obtain ⟨g, hg, hurl⟩ := h.covered c' hc'
        have hold : c'.2.url ∈ groups.map (·.conn.url) := List.mem_map.mpr ⟨g, hg, hurl⟩
        split
        · exact hold
        · exact List.mem_append_left _ hold
      · obtain rfl := List.mem_singleton.mp hc'
        split
        · assumption
        · exact List.mem_append_right _ (List.mem_singleton_self _)
    exact List.mem_map.mp hmem
  · rcases of_mem_addToGroup h.distinct hg with ⟨hmem, -⟩ | ⟨g', hg', -, rfl⟩ | ⟨-, rfl⟩
    · obtain ⟨c', hc', heq⟩ := h.made g hmem
      exact ⟨c', List.mem_append_left _ hc', heq⟩
    · obtain ⟨c', hc', heq⟩ := h.made g' hg'
      exact ⟨c', List.mem_append_left _ hc', heq⟩
    · exact ⟨c, List.mem_append_right _ (List.mem_singleton_self _), rfl⟩

theorem grouping_groupsOf (resolved : List (SaltKeyConfig × Connection)) :
    Grouping resolved (groupsOf resolved) := by
  induction resolved using List.reverseRecOn with
  | nil => exact ⟨List.nodup_nil, nofun, nofun, nofun⟩
  | append_singleton resolved c ih =>
    rw [groupsOf_append]
    exact ih.add c

/-- One group has a URL. -/
theorem Grouping.unique (h : Grouping resolved groups) {g g' : RaasGroup} (hg : g ∈ groups)
    (hg' : g' ∈ groups) (hurl : g.conn.url = g'.conn.url) : g = g' :=
  List.inj_on_of_nodup_map h.distinct hg hg' hurl

end grouping

/-- The config with its connection is in the group, and its namespace is the group's. -/
def RaasGroup.Has (g : RaasGroup) (c : SaltKeyConfig × Connection) : Prop :=
  g.conn.url = c.2.url ∧ c.1.nspace ∈ g.namespaces

/-- The configs are grouped by the RaaS their clients talk to: two are in one group if
their clients have one base URL, no RaaS is visited twice, and every config is in exactly
one group. -/
structure GroupedByEndpoint (resolved : List (SaltKeyConfig × Connection)) : Prop where
  together : ∀ a ∈ resolved, ∀ b ∈ resolved,
    (∃ g ∈ groupsOf resolved, g.Has a ∧ g.Has b) ↔ a.2.baseURL = b.2.baseURL
  once : ∀ g ∈ groupsOf resolved, ∀ g' ∈ groupsOf resolved,
    g.conn.baseURL = g'.conn.baseURL → g = g'
  contributes : ∀ c ∈ resolved, ∃! g, g ∈ groupsOf resolved ∧ g.Has c

section endpoints

variable {resolved : List (SaltKeyConfig × Connection)}

theorem exists_group {c : SaltKeyConfig × Connection} (hc : c ∈ resolved) :
    ∃ g ∈ groupsOf resolved, g.Has c := by
  have hgroups := grouping_groupsOf resolved
  obtain ⟨g, hg, hurl⟩ := hgroups.covered c hc
  refine ⟨g, hg, hurl, ?_⟩
  rw [hgroups.namespaces g hg]
  exact List.mem_map.mpr ⟨c, List.mem_filter.mpr ⟨hc, by simpa using hurl.symm⟩, rfl⟩

/-- Two configs are in one group when they have one URL. -/
theorem exists_group_iff {a b : SaltKeyConfig × Connection}
    (ha : a ∈ resolved) (hb : b ∈ resolved) :
    (∃ g ∈ groupsOf resolved, g.Has a ∧ g.Has b) ↔ a.2.url = b.2.url := by
  constructor
  · rintro ⟨g, -, hga, hgb⟩
    exact hga.1.symm.trans hgb.1
  · intro hurl
    obtain ⟨g, hg, hga⟩ := exists_group ha
    obtain ⟨g', hg', hgb⟩ := exists_group hb
    obtain rfl := (grouping_groupsOf resolved).unique hg hg' (hga.1.trans (hurl.trans hgb.1.symm))
    exact ⟨g, hg, hga, hgb⟩

/-- Configs are grouped by the RaaS they talk to when those that talk to one RaaS spell its
URL alike. -/
theorem groupedByEndpoint_iff (resolved : List (SaltKeyConfig × Connection)) :
    GroupedByEndpoint resolved ↔
      ∀ a ∈ resolved, ∀ b ∈ resolved, a.2.baseURL = b.2.baseURL → a.2.url = b.2.url := by
  have hgroups := grouping_groupsOf resolved
  constructor
  · intro h a ha b hb hbase
    exact (exists_group_iff ha hb).mp ((h.together a ha b hb).mpr hbase)
  · intro h
    refine ⟨fun a ha b hb => ?_, fun g hg g' hg' hbase => ?_, fun c hc => ?_⟩
    · rw [exists_group_iff ha hb]
      exact ⟨fun hurl => by unfold Connection.baseURL; rw [hurl], h a ha b hb⟩
    · obtain ⟨c, hc, hconn⟩ := hgroups.made g hg
      obtain ⟨c', hc', hconn'⟩ := hgroups.made g' hg'
      rw [← hconn, ← hconn'] at hbase
      exact hgroups.unique hg hg' (by rw [← hconn, ← hconn']; exact h c hc c' hc' hbase)
    · obtain ⟨g, hg, hgc⟩ := exists_group hc
      refine ⟨g, ⟨hg, hgc⟩, fun g' hg' => ?_⟩
      exact hgroups.unique hg'.1 hg (hg'.2.1.trans hgc.1.symm)

end endpoints

/-- What happens on the `n`-th call of the scavenger. -/
abbrev OpScript := Nat → (o : Op) → o.Ans

/-- A connection is resolved by reading Secrets. -/
theorem resolve_reads {rt : Runtime} {cfg : SaltKeyConfig} {d : Default} :
    (resolve rt cfg d).Performs fun o => ∃ key, o = .getSecret key := by
  have hread : ∀ {nspace name}, (readSecret nspace name).Performs fun o =>
      ∃ key, o = .getSecret key := by
    intro nspace name
    refine ⟨⟨_, rfl⟩, fun r => ?_⟩
    rcases r with e | data
    · cases e <;> exact trivial
    · exact trivial
  refine .ite (fun _ => .ite (fun _ => trivial) fun _ => hread.bind fun _ => ?_)
    fun _ => .ite (fun _ => trivial) fun _ => .bind (hread.bind fun _ => ?_) fun _ => ?_
  · exact .ite (fun _ => trivial) fun _ => trivial
  · exact .ite (fun _ => trivial) fun _ => trivial
  · exact .ite (fun _ => trivial) fun _ => .ite (fun _ => trivial) fun _ =>
      .ite (fun _ => trivial) fun _ => trivial

section resolvable

variable (rt : Runtime) (s : Scavenger) (σ : (o : Op) → o.Ans)

/-- The connection of a config, if it is Ready and its connection resolves. -/
def connectionOf (cfg : SaltKeyConfig) : Option Connection :=
  if cfg.isReady then ((resolve rt cfg s.defaultConnection).exec (fun _ => σ) 0).2.toOption
  else none

/-- The Ready configs whose connections resolve, with their connections. -/
def resolvedConfigs (configs : List SaltKeyConfig) : List (SaltKeyConfig × Connection) :=
  configs.filterMap fun cfg => (connectionOf rt s σ cfg).map (cfg, ·)

theorem mem_resolvedConfigs {configs : List SaltKeyConfig} {c : SaltKeyConfig × Connection} :
    c ∈ resolvedConfigs rt s σ configs ↔
      c.1 ∈ configs ∧ connectionOf rt s σ c.1 = some c.2 := by
  obtain ⟨cfg, conn⟩ := c
  simp only [resolvedConfigs, List.mem_filterMap, Option.map_eq_some_iff, Prod.mk.injEq]
  constructor
  · rintro ⟨cfg, hcfg, conn, hconn, rfl, rfl⟩
    exact ⟨hcfg, hconn⟩
  · rintro ⟨hcfg, hconn⟩
    exact ⟨cfg, hcfg, conn, hconn, rfl, rfl⟩

/-- `resolvable` finds them all, if the Secrets are as they are. -/
theorem exec_resolvable {τ : OpScript} (hτ : ∀ n key, τ n (.getSecret key) = σ (.getSecret key))
    (configs : List SaltKeyConfig) (n : Nat) :
    ((resolvable rt s configs).exec τ n).2 = .ok (resolvedConfigs rt s σ configs) := by
  induction configs generalizing n with
  | nil => rfl
  | cons cfg rest ih =>
    unfold resolvable resolvedConfigs
    rw [List.filterMap_cons]
    cases hready : cfg.isReady with
    | false =>
      have hnone : connectionOf rt s σ cfg = none := by
        unfold connectionOf
        rw [hready]
        rfl
      rw [hnone]
      exact ih (n + 1)
    | true =>
      have hsame : ((resolve rt cfg s.defaultConnection).exec (fun _ => σ) 0).2 =
          ((resolve rt cfg s.defaultConnection).exec τ n).2 := by
        refine resolve_reads.exec_congr (fun _ j o ho => ?_) 0 n
        obtain ⟨key, rfl⟩ := ho
        exact (hτ j key).symm
      have hconn : connectionOf rt s σ cfg =
          ((resolve rt cfg s.defaultConnection).exec τ n).2.toOption := by
        unfold connectionOf
        rw [hready, hsame]
        rfl
      rw [hconn]
      show (Prog.exec τ n ((resolve rt cfg s.defaultConnection).attempt >>= _)).2 = _
      rw [Prog.exec_bind, Prog.exec_attempt]
      dsimp only
      cases ((resolve rt cfg s.defaultConnection).exec τ n).2 with
      | error e => exact ih _
      | ok conn =>
        show (Prog.exec τ _ (resolvable rt s rest >>= _)).2 = _
        rw [Prog.exec_bind, ih]
        rfl

end resolvable

/-- **The scavenger groups the Ready configs that resolve by the RaaS they talk to** exactly
when those that talk to one RaaS spell its URL alike. -/
theorem grouped_by_endpoint_iff (rt : Runtime) (s : Scavenger) (σ : (o : Op) → o.Ans)
    (configs : List SaltKeyConfig) :
    ((resolvable rt s configs).exec (fun _ => σ) 0).2 = .ok (resolvedConfigs rt s σ configs) ∧
    (GroupedByEndpoint (resolvedConfigs rt s σ configs) ↔
      ∀ a ∈ configs, ∀ b ∈ configs, ∀ conn conn' : Connection,
        connectionOf rt s σ a = some conn → connectionOf rt s σ b = some conn' →
        conn.baseURL = conn'.baseURL → conn.url = conn'.url) := by
  refine ⟨exec_resolvable rt s σ (fun _ _ => rfl) configs 0, ?_⟩
  have hmem {c : SaltKeyConfig × Connection} : c ∈ resolvedConfigs rt s σ configs ↔
      c.1 ∈ configs ∧ connectionOf rt s σ c.1 = some c.2 := mem_resolvedConfigs rt s σ
  rw [groupedByEndpoint_iff]
  constructor
  · intro h a ha b hb conn conn' hconn hconn'
    exact h (a, conn) (hmem.mpr ⟨ha, hconn⟩) (b, conn') (hmem.mpr ⟨hb, hconn'⟩)
  · intro h a ha b hb
    exact h a.1 (hmem.mp ha).1 b.1 (hmem.mp hb).1 a.2 b.2 (hmem.mp ha).2 (hmem.mp hb).2

namespace Sample

/-- A Ready config with its own credentials at this URL. -/
def configAt (nspace url : String) : SaltKeyConfig :=
  { name := "salt", nspace,
    spec := { raasURL := url, masterID := "master", credentialsSecret := "raas" },
    conditions := [{ type := "Ready", status := .true }] }

/-- The connection of such a config. -/
def connAt (url : String) : Connection :=
  ⟨url, "master", "operator", "secret", false, sourceNamespaceSecret⟩

/-- A scavenger that deletes. -/
def scavenger : Scavenger :=
  { dryRun := false, defaultConnection := noDefault, glob := fun p name => p = name }

end Sample

/-- Two teams that write the URL of one RaaS with and without a slash at the end are in two
groups, and each group takes the other's keys for stale. -/
theorem groups_split :
    let configs := [Sample.configAt "a" "https://raas", Sample.configAt "b" "https://raas/"]
    let resolved := resolvedConfigs Sample.runtime Sample.scavenger
      (Sample.answer Sample.defaultData) configs
    (groupsOf resolved).map (fun g => (g.conn.url, g.conn.baseURL, g.namespaces)) =
      [("https://raas", "https://raas", ["a"]), ("https://raas/", "https://raas", ["b"])] ∧
    ¬ GroupedByEndpoint resolved := by
  intro configs resolved
  have ha : connectionOf Sample.runtime Sample.scavenger (Sample.answer Sample.defaultData)
      (Sample.configAt "a" "https://raas") = some (Sample.connAt "https://raas") := by
    decide +kernel
  have hb : connectionOf Sample.runtime Sample.scavenger (Sample.answer Sample.defaultData)
      (Sample.configAt "b" "https://raas/") = some (Sample.connAt "https://raas/") := by
    decide +kernel
  have hresolved : resolved = [(Sample.configAt "a" "https://raas", Sample.connAt "https://raas"),
      (Sample.configAt "b" "https://raas/", Sample.connAt "https://raas/")] := by
    simp only [resolved, configs, resolvedConfigs, List.filterMap_cons, List.filterMap_nil, ha, hb,
      Option.map_some]
  refine ⟨by decide +kernel, fun h => ?_⟩
  rw [hresolved, groupedByEndpoint_iff] at h
  have hurl := h _ List.mem_cons_self _ (List.mem_cons_of_mem _ List.mem_cons_self) (by decide)
  exact absurd hurl (by decide)

/-! ## Deletions -/

/-- A visit of a group from the `n`-th call on gets to deleting the key of a minion: it
logs in, finds the key accepted, and lists the VMs of every namespace of the group without
finding the ID on one, and the ID is not excluded. -/
structure Exposed (s : Scavenger) (σ : OpScript) (n : Nat) (g : RaasGroup)
    (id : String) : Prop where
  login : σ n (.salt g.conn .login) = .ok ()
  accepted : ∃ keys, σ (n + 1) (.salt g.conn .listAcceptedKeys) = .ok keys ∧ id ∈ keys
  unseen : ∀ i nspace, g.namespaces[i]? = some nspace →
    ∃ vms, σ (n + 2 + i) (.listVMs (some nspace)) = .ok vms ∧
      ∀ vm ∈ vms, vm.annotationOf annotationMinionID ≠ id
  included : matchesAny s s.exclude id = false

/-- The groups with the call each visit begins at. -/
def visits (s : Scavenger) (σ : OpScript) : Nat → List RaasGroup → List (Nat × RaasGroup)
  | _, [] => []
  | n, g :: groups => (n, g) :: visits s σ (n + ((visitGroup s g).exec σ n).1.length) groups

section deletions

variable {rt : Runtime} {s : Scavenger} {σ : OpScript} {n : Nat} {g : RaasGroup} {id : String}
  {live keys : List String}

/-- A call that deletes no key. -/
def Op.NoDeletion (o : Op) : Prop := ∀ conn id, o ≠ .salt conn (.deleteKey id)

theorem mem_recordedIDs {vms : List VirtualMachine} (hid : id ≠ "") :
    id ∈ recordedIDs vms ↔ ∃ vm ∈ vms, vm.annotationOf annotationMinionID = id := by
  simp [recordedIDs, hid]

/-- Resolving the connections deletes no key. -/
theorem resolvable_performs {configs : List SaltKeyConfig} :
    (resolvable rt s configs).Performs Op.NoDeletion := by
  induction configs with
  | nil => trivial
  | cons cfg rest ih =>
    refine .ite (fun _ => .bind (p := logInfo _ _) ⟨nofun, fun _ => trivial⟩ fun _ => ih) fun _ =>
      .bind (resolve_reads.mono ?_).attempt fun r => ?_
    · rintro _ ⟨key, rfl⟩ conn id h
      cases h
    · rcases r with e | conn
      · exact .bind (p := logError _ _ _) ⟨nofun, fun _ => trivial⟩ fun _ => ih
      · exact ih.bind fun _ => trivial

end deletions

/-! ## What a run finds -/

/-- What a run may find: the configs and their Secrets, the VMs that are there throughout, and
the keys a RaaS may have accepted, by the base URL of its clients. -/
structure Scene where
  configs : List SaltKeyConfig
  secrets : NamespacedName → Except ApiErr StringMap
  vms : String → List VirtualMachine
  keys : String → List String

/-- The answer to a call the scavenger does not make. -/
def Op.refused : (o : Op) → o.Ans
  | .now => (0 : Int)
  | .event _ _ _ _ | .log _ _ _ | .cacheSet _ _ _ => ()
  | .cacheGet _ _ => none
  | .getVM _ | .listVMs _ | .patchVM _ _ | .listConfigs _ | .getSecret _ | .createSecret _
  | .updateSecret _ | .patchSecret _ _ => .error (.notFound "")
  | .salt _ c => match c with
    | .login | .listPendingKeys | .listAcceptedKeys | .acceptKey _ | .deleteKey _ | .testPing _
    | .refreshPillar _ | .dispatchHighstate _ | .pollJID _ _ | .masterLastSeen | .keyStates _
    | .genAcceptKey _ _ | .masterPublicKey => .error ""

namespace Scene

/-- The answers if no call fails and nothing else is there. -/
def answers (sc : Scene) : (o : Op) → o.Ans
  | .listConfigs _ => .ok sc.configs
  | .getSecret key => sc.secrets key
  | .listVMs (some nspace) => .ok (sc.vms nspace)
  | .salt _ .login => .ok ()
  | .salt conn .listAcceptedKeys => .ok (sc.keys conn.baseURL)
  | o => o.refused

end Scene

section scene

variable {rt : Runtime} {s : Scavenger} {sc : Scene} {σ : OpScript} {id : String}

end scene

/-- A Ready config that resolves to this URL has a VM in its namespace that records the ID. -/
def Scene.Recorded (rt : Runtime) (s : Scavenger) (sc : Scene) (url id : String) : Prop :=
  ∃ b ∈ sc.configs, ∃ conn, connectionOf rt s sc.answers b = some conn ∧ conn.url = url ∧
    ∃ vm ∈ sc.vms b.nspace, vm.annotationOf annotationMinionID = id

namespace Sample

end Sample

end SaltOperator
