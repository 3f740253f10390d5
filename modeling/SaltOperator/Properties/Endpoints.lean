import SaltOperator.Cluster.Run
import SaltOperator.Cluster.Walk

/-!
# Where a key is deleted

A VM records its minion ID, not the RaaS its key was accepted on. The operator
resolves the connection anew in every pass, from the config it finds then, or takes
a client it has cached for that config.

**If the configs of a namespace name one endpoint throughout a run, the key of each
of its VMs is deleted where it was accepted** (`deleted_where_accepted`), whatever
else happens to configs, credentials, caches and VMs. A config that is replaced by
one for another endpoint takes the deletion with it (`deleted_elsewhere`).
-/

namespace SaltOperator

/-- The RaaS and the master a connection is for. -/
def Connection.endpoint (conn : Connection) : String × String := (conn.url, conn.masterID)

/-- The connection over which a call accepted a key or had one generated. -/
def Made.keyConn? : Made → Option Connection
  | ⟨_, .salt conn (.acceptKey _), .ok ()⟩ => some conn
  | ⟨_, .salt conn (.genAcceptKey _ _), .ok (some _)⟩ => some conn
  | _ => none

/-- The config the operator finds in the namespace names the endpoint: in its spec, or
in the Secret of the default connection when it uses that. -/
def SteadyEndpoint (nspace : String) (endpoint : String × String) (c : ClusterCfg) :
    ClusterAction → ClusterCfg → Prop
  | .call k (.listConfigs _) (.ok configs), _ => k.nspace = nspace →
      ∀ cfg, selectConfig configs = some cfg → cfg.spec.credentialsSecret ≠ "" →
        (cfg.spec.raasURL, cfg.spec.masterID) = endpoint
  | .call k (.getSecret _) (.ok data), _ => k.nspace = nspace →
      ∀ vm cfg, History.passInputs (c.hist k) = some (vm, cfg) → cfg.spec.credentialsSecret = "" →
        (StringMap.read data "url", StringMap.read data "masterID") = endpoint
  | _, _ => True

/-- The connection, if it is one of the namespace, is for the endpoint. -/
def Connection.Serves (nspace : String) (endpoint : String × String) (of : String)
    (conn : Connection) : Prop :=
  of = nspace → conn.endpoint = endpoint

section contract

variable (nspace : String) (endpoint : String × String)

/-- What the worker of `k` is told. -/
def EndpointPromised (k : NamespacedName) (h : History) : Made → Prop
  | ⟨_, .listConfigs _, .ok configs⟩ => ∀ cfg, selectConfig configs = some cfg →
      cfg.nspace = k.nspace ∧ (k.nspace = nspace → cfg.spec.credentialsSecret ≠ "" →
        (cfg.spec.raasURL, cfg.spec.masterID) = endpoint)
  | ⟨_, .getSecret _, .ok data⟩ => k.nspace = nspace → ∀ vm cfg,
      h.passInputs = some (vm, cfg) → cfg.spec.credentialsSecret = "" →
      (StringMap.read data "url", StringMap.read data "masterID") = endpoint
  | ⟨_, .cacheGet key _, some conn⟩ => conn.Serves nspace endpoint key.nspace
  | _ => True

/-- What the worker of `k` does: it uses and caches clients of its namespace. -/
def EndpointKept (k : NamespacedName) (_ : History) : Op → Prop
  | .listConfigs of => of = some k.nspace
  | .cacheSet key _ conn => conn.Serves nspace endpoint key.nspace
  | .salt conn _ => conn.Serves nspace endpoint k.nspace
  | _ => True

/-- The cached clients of the namespace and the calls so far of its workers are for the
endpoint. -/
structure EndpointInvariant (w : World) (H : NamespacedName → History) : Prop where
  cache : ∀ key e, w.cache key = some e → e.conn.Serves nspace endpoint key.nspace
  calls : ∀ k, ∀ m ∈ H k, ∀ conn, m.keyConn? = some conn → conn.Serves nspace endpoint k.nspace

end contract

section walk

variable {nspace : String} {endpoint : String × String} {rt : Runtime} {d : Default}
  {k : NamespacedName}
  {vm : VirtualMachine} {cfg : SaltKeyConfig} {h : History} {α : Type}

/-- The config belongs to the namespace of `k` and, if that is the namespace, names the
endpoint, unless it uses the default connection. -/
structure NamesEndpoint (nspace : String) (endpoint : String × String) (k : NamespacedName)
    (cfg : SaltKeyConfig) : Prop where
  owner : cfg.nspace = k.nspace
  own : k.nspace = nspace → cfg.spec.credentialsSecret ≠ "" →
    (cfg.spec.raasURL, cfg.spec.masterID) = endpoint

theorem readSecret_endpoint {of name : String} :
    (readSecret of name).Obeys (EndpointPromised nspace endpoint k) (EndpointKept nspace endpoint k)
      (fun (h' : History) r => h'.passInputs = h.passInputs ∧ ∀ data, r = .ok data →
        k.nspace = nspace → ∀ vm cfg, h.passInputs = some (vm, cfg) →
        cfg.spec.credentialsSecret = "" →
        (StringMap.read data "url", StringMap.read data "masterID") = endpoint) h := by
  refine ⟨trivial, fun w a ha => ?_⟩
  rcases a with e | data
  · cases e <;> exact ⟨rfl, nofun⟩
  · exact ⟨rfl, fun data' hdata => by cases hdata; exact ha⟩

/-- A resolved connection of the namespace is for the endpoint. -/
theorem resolve_endpoint (hcfg : NamesEndpoint nspace endpoint k cfg)
    (hi : h.passInputs = some (vm, cfg)) :
    (resolve rt cfg d).Obeys (EndpointPromised nspace endpoint k) (EndpointKept nspace endpoint k)
      (fun (h' : History) r => h'.passInputs = h.passInputs ∧
        ∀ conn, r = .ok conn → conn.Serves nspace endpoint k.nspace) h := by
  unfold resolve
  split
  · rename_i hcred
    unfold resolveNamespaceSecret
    split
    · exact ⟨rfl, nofun⟩
    · refine Prog.Obeys.bind (readSecret_endpoint.mono fun h' r hr => ?_)
      cases r with
      | error e => exact ⟨hr.1, nofun⟩
      | ok data =>
        show Prog.Obeys _ _ _ (ite _ _ _) _
        split
        · exact ⟨hr.1, nofun⟩
        · exact ⟨hr.1, fun conn hconn => by cases hconn; exact fun hns => hcfg.own hns hcred⟩
  · rename_i hcred
    unfold resolveDefault
    split
    · exact ⟨rfl, nofun⟩
    · -- the connection is that of the default Secret, which the config only restates
      have load : (d.load rt).Obeys (EndpointPromised nspace endpoint k)
          (EndpointKept nspace endpoint k)
          (fun (h' : History) r => h'.passInputs = h.passInputs ∧
            ∀ conn, r = .ok conn → conn.Serves nspace endpoint k.nspace) h := by
        unfold Default.load
        refine Prog.Obeys.bind (readSecret_endpoint.mono fun h' r hr => ?_)
        cases r with
        | error e => exact ⟨hr.1, nofun⟩
        | ok data =>
          show Prog.Obeys _ _ _ (ite _ _ _) _
          split
          · exact ⟨hr.1, nofun⟩
          · refine ⟨hr.1, fun conn hconn => ?_⟩
            cases hconn
            exact fun hns => hr.2 data rfl hns vm cfg hi (by simpa using hcred)
      refine Prog.Obeys.bind (load.mono fun h' r hr => ?_)
      cases r with
      | error e => exact ⟨hr.1, nofun⟩
      | ok conn =>
        show Prog.Obeys _ _ _ (ite _ _ _) _
        split
        · exact ⟨hr.1, nofun⟩
        · split
          · exact ⟨hr.1, nofun⟩
          · split
            · exact ⟨hr.1, nofun⟩
            · exact hr

/-- So is a client, new or cached. -/
theorem saltClientFromConfig_endpoint (hcfg : NamesEndpoint nspace endpoint k cfg)
    (hi : h.passInputs = some (vm, cfg)) :
    (saltClientFromConfig rt d cfg).Obeys (EndpointPromised nspace endpoint k)
      (EndpointKept nspace endpoint k)
      (fun (h' : History) r => h'.passInputs = some (vm, cfg) ∧
        ∀ conn, r = .ok conn → conn.Serves nspace endpoint k.nspace) h := by
  have hns {conn : Connection} : conn.Serves nspace endpoint cfg.nspace ↔
      conn.Serves nspace endpoint k.nspace := by
    rw [hcfg.owner]
  refine ⟨trivial, fun w a ha => ?_⟩
  cases a with
  | some conn => exact ⟨hi, fun conn' hconn => by cases hconn; exact hns.mp ha⟩
  | none =>
    have hi₁ : History.passInputs (⟨w, .cacheGet ⟨cfg.nspace, cfg.name⟩ cfg.resourceVersion,
        none⟩ :: h) = some (vm, cfg) := hi
    refine Prog.Obeys.bind (p := (resolve rt cfg d).attempt)
      (Prog.Obeys.attempt ((resolve_endpoint hcfg hi₁).mono fun h₂ r hr => ?_))
    have hi₂ := hr.1.trans hi₁
    cases r with
    | error e => exact ⟨hi₂, nofun⟩
    | ok conn =>
      have hconn := hr.2 conn rfl
      refine ⟨hconn, fun w' login _ => ?_⟩
      cases login with
      | error e => exact ⟨hi₂, nofun⟩
      | ok u =>
        exact ⟨hns.mpr hconn, fun _ _ _ =>
          ⟨hi₂, fun conn' h' => by cases h'; exact hconn⟩⟩

/-- **A pass in the namespace uses clients for the endpoint only.** -/
theorem reconcile_endpoint (k : NamespacedName) :
    (reconcile rt d k).Obeys (EndpointPromised nspace endpoint k) (EndpointKept nspace endpoint k)
      (fun _ _ => True) h := by
  have named {vm : VirtualMachine} {cfg : SaltKeyConfig} {h' : History}
      (hc : h.Chosen (EndpointPromised nspace endpoint k) k vm cfg h') :
      NamesEndpoint nspace endpoint k cfg := by
    obtain ⟨w, w₁, w₂, fields, configs, hsel, hE, rfl⟩ := hc
    exact ⟨(hE cfg hsel).1, (hE cfg hsel).2⟩
  refine reconcile_obeys (fun _ => trivial) (fun _ => rfl)
    (fun _ _ _ => trivial) (fun vm cfg h' hc _ => ?_) (fun vm cfg h' hc _ => ?_)
  · refine reconcileDelete_obeys (Connection.Serves nspace endpoint k.nspace) ?_ ?_
    · intro h o ho
      cases o with
      | salt conn c => cases c <;> first | exact ho | cases ho
      | _ => first | exact trivial | cases ho
    · exact (saltClientFromConfig_endpoint (named hc) hc.passInputs).mono fun _ _ hr => hr.2
  · have rule : CreateRule rt d cfg (Connection.Serves nspace endpoint k.nspace)
        (EndpointPromised nspace endpoint k) (EndpointKept nspace endpoint k)
        (fun h => h.passInputs = some (vm, cfg)) := by
      refine ⟨fun h o hi ho => ⟨?_, fun w a => (passInputs_of_ofCreate ho).trans hi⟩,
        fun h hi => saltClientFromConfig_endpoint (named hc) hi⟩
      cases o with
      | salt conn c => cases c <;> first | exact ho | cases ho
      | _ => first | exact trivial | cases ho
    exact (rule.reconcileCreate hc.passInputs).mono fun _ _ _ => trivial

end walk

section runs

variable {nspace : String} {endpoint : String × String} {rt : Runtime} {d : Default}
  {may : String → Prop}
  {crash : Prop} {w : World} {H : NamespacedName → History} {o : Op} {a : o.Ans}

/-- The others only throw cached clients away. -/
theorem Tenant.cache {w' : World} (ht : Tenant may w w') {key : NamespacedName} {e : CacheEntry}
    (he : w'.cache key = some e) : w.cache key = some e := by
  cases ht with
  | restart => cases he
  | _ => exact he

/-- A cached client was cached before, or is put there by the call. -/
theorem effect_cache {key : NamespacedName} {e : CacheEntry}
    (he : (effect w o a).cache key = some e) :
    w.cache key = some e ∨ ∃ configRV, o = .cacheSet key configRV e.conn := by
  cases o with
  | cacheSet key' configRV conn =>
    have hset : Function.update w.cache key' (some ⟨conn, configRV, w.now + saltClientCacheTTL⟩)
        key = some e := he
    rcases eq_or_ne key key' with rfl | hne
    · rw [Function.update_self] at hset
      cases hset
      exact .inr ⟨configRV, rfl⟩
    · rw [Function.update_of_ne hne] at hset
      exact .inl hset
  | cacheGet key' configRV =>
    cases a with
    | some conn => exact .inl he
    | none =>
      have hset : Function.update w.cache key' none key = some e := he
      rcases eq_or_ne key key' with rfl | hne
      · rw [Function.update_self] at hset
        cases hset
      · rw [Function.update_of_ne hne] at hset
        exact .inl hset
  | patchVM base obj => cases a <;> exact .inl he
  | createSecret s => cases a <;> exact .inl he
  | updateSecret s => cases a <;> exact .inl he
  | patchSecret key data => cases a <;> exact .inl he
  | salt conn c =>
    obtain ⟨raas, heff⟩ := effect_salt w conn c a
    rw [heff] at he
    exact .inl he
  | _ => exact .inl he

/-- Answers under the invariant and the condition are as promised. -/
theorem EndpointInvariant.promised (hI : EndpointInvariant nspace endpoint w H) {k : NamespacedName}
    (hp : EndpointKept nspace endpoint k (H k) o) (hans : Answers rt w o a) {c c' : ClusterCfg}
    (hc : c.hist = H) (ha : SteadyEndpoint nspace endpoint c (.call k o a) c') :
    EndpointPromised nspace endpoint k (H k) ⟨w, o, a⟩ := by
  subst hc
  cases o with
  | listConfigs of =>
    cases a with
    | error e => exact trivial
    | ok configs =>
      intro cfg hsel
      have hns := hans cfg (selectConfig_mem hsel)
      rw [show of = some k.nspace from hp] at hns
      exact ⟨by simpa using hns, fun hk => ha hk cfg hsel⟩
  | getSecret key =>
    cases a with
    | error e => exact trivial
    | ok data => exact ha
  | cacheGet key configRV =>
    cases a with
    | none => exact trivial
    | some conn =>
      have hcached : some conn = w.cached key configRV := hans
      unfold World.cached at hcached
      split at hcached
      · cases hcached
      · rename_i e he
        split at hcached
        · cases hcached
        · cases hcached
          exact hI.cache key e he
  | _ => exact trivial

/-- A call by such a client keeps the invariant. -/
theorem EndpointInvariant.call (hI : EndpointInvariant nspace endpoint w H) {k : NamespacedName}
    (hp : EndpointKept nspace endpoint k (H k) o) :
    EndpointInvariant nspace endpoint (effect w o a) (Function.update H k (⟨w, o, a⟩ :: H k)) where
  cache key e he := by
    rcases effect_cache he with he | ⟨configRV, rfl⟩
    · exact hI.cache key e he
    · exact hp
  calls j m hm conn hconn := by
    rcases eq_or_ne j k with rfl | hne
    · rw [Function.update_self] at hm
      rcases List.mem_cons.mp hm with rfl | hm
      · cases o with
        | salt conn' c =>
          have hsame : conn' = conn := by
            cases c with
            | acceptKey id => cases a <;> cases hconn; rfl
            | genAcceptKey id force => rcases a with _ | _ | _ <;> cases hconn; rfl
            | _ => cases hconn
          exact hsame ▸ hp
        | _ => cases hconn
      · exact hI.calls j m hm conn hconn
    · rw [Function.update_of_ne hne] at hm
      exact hI.calls j m hm conn hconn

/-- **The workers of a namespace keep to the endpoint** in a run in which its configs
do. -/
theorem endpoint_contract (nspace : String) (endpoint : String × String) (rt : Runtime)
    (d : Default) (may : String → Prop) (crash : Prop) :
    (cluster rt d may crash).ContractIf (SteadyEndpoint nspace endpoint)
      (EndpointInvariant nspace endpoint)
      (EndpointPromised nspace endpoint) (EndpointKept nspace endpoint) (fun _ _ _ => True)
      (fun _ _ => True) where
  init w hw := by
    refine ⟨⟨fun key e he => ?_, fun k m hm => absurd hm List.not_mem_nil⟩, fun _ => trivial⟩
    rw [hw.2.2.2 key] at he
    cases he
  env c w' ht _ hI := ⟨fun key e he => hI.cache key e (Tenant.cache ht he), hI.calls⟩
  call c k o a w' c' hI hp hx ha := by
    obtain ⟨hans, rfl⟩ := hx
    exact ⟨hI.promised hp hans rfl ha, hI.call hp⟩
  boot k h _ := reconcile_endpoint k
  done _ _ _ _ := trivial
  crash _ _ _ := trivial

end runs

/-- Tenants may edit the annotations in `may` at any time, and the operator may stop at any
point. In a run in which every config the operator finds in the namespace of a VM names
one endpoint, the VM's key is deleted over a connection to the RaaS and the master on
which a key was accepted or generated for it. -/
theorem deleted_where_accepted (endpoint : String × String) (rt : Runtime) (d : Default)
    (may : String → Prop) (crash : Prop) {c c' : ClusterCfg} {k : NamespacedName}
    {conn conn' : Connection} {minionID : String} {a : Except String Unit} {m : Made}
    (h : (cluster rt d may crash).ReachIf (SteadyEndpoint k.nspace endpoint) c)
    (hs : (cluster rt d may crash).Step c (.call k (.salt conn (.deleteKey minionID)) a) c')
    (hm : m ∈ c.hist k) (hkey : m.keyConn? = some conn') :
    conn.url = conn'.url ∧ conn.masterID = conn'.masterID := by
  have hC := endpoint_contract k.nspace endpoint rt d may crash
  have hdelete : conn.endpoint = endpoint := by
    cases hs with
    | call _ hth _ => exact hC.permitted h hth rfl
  have haccept : conn'.endpoint = endpoint := (hC.keeps h).1.calls k m hm conn' hkey rfl
  exact Prod.mk.inj (hdelete.trans haccept.symm)

namespace Sample

/-- A step is checked for `SteadyEndpoint`, whatever its namespace. -/
def steadyEndpoint (endpoint : String × String) (c : ClusterCfg) :
    ClusterAction → ClusterCfg → Bool
  | .call _ (.listConfigs _) (.ok configs), _ => (selectConfig configs).all fun cfg =>
      cfg.spec.credentialsSecret = "" || (cfg.spec.raasURL, cfg.spec.masterID) = endpoint
  | .call k (.getSecret _) (.ok data), _ => (History.passInputs (c.hist k)).all fun i =>
      i.2.spec.credentialsSecret ≠ "" ||
        (StringMap.read data "url", StringMap.read data "masterID") = endpoint
  | _, _ => true

theorem steadyEndpoint_sound {nspace : String} {endpoint : String × String} {c c' : ClusterCfg}
    {act : ClusterAction} (h : steadyEndpoint endpoint c act c' = true) :
    SteadyEndpoint nspace endpoint c act c' := by
  cases act with
  | call k o a =>
    cases o with
    | listConfigs of =>
      cases a with
      | error e => exact trivial
      | ok configs =>
        intro _ cfg hsel hcred
        simp only [steadyEndpoint, hsel, Option.all_some, Bool.or_eq_true, decide_eq_true_eq] at h
        exact h.resolve_left hcred
    | getSecret key =>
      cases a with
      | error e => exact trivial
      | ok data =>
        intro _ vm cfg hi hcred
        simp only [steadyEndpoint, hi, Option.all_some, Bool.or_eq_true, decide_eq_true_eq] at h
        exact h.resolve_left fun hne => hne hcred
    | _ => exact trivial
  | _ => exact trivial

/-- The namespace's config, replaced by one for another RaaS. -/
def elsewhere : Script runtime :=
  noPending [{ config "a" keyAcceptanceDiscovery with
    resourceVersion := "2"
    spec := { raasURL := "https://other", credentialsSecret := "creds", masterID := "master" } }]

/-- The worker is about to delete a key at `url`, after one was accepted at `url'`. -/
def deletesAt (url url' : String) (c : ClusterCfg) : Bool :=
  ((c.pendingSalt key).any fun p => p.2 = .deleteKey "web" && p.1.url = url) &&
    (c.hist key).any fun m => (Made.keyConn? m).any fun conn => conn.url = url'

theorem deletesAt_sound {url url' : String} {c : ClusterCfg} (h : deletesAt url url' c = true) :
    ∃ c' conn conn' m, (cluster runtime noDefault notOwn True).Step c
        (.call key (.salt conn (.deleteKey "web")) (.ok ())) c' ∧
      m ∈ c.hist key ∧ Made.keyConn? m = some conn' ∧ conn.url = url ∧ conn'.url = url' := by
  obtain ⟨hpending, hhist⟩ := (Bool.and_eq_true _ _).mp h
  obtain ⟨conn, call, next, hth, hcall⟩ := ClusterCfg.pendingSalt_any hpending
  simp only [Bool.and_eq_true, decide_eq_true_eq] at hcall
  obtain ⟨rfl, hurl⟩ := hcall
  obtain ⟨m, hm, hkey⟩ := List.any_eq_true.mp hhist
  obtain ⟨conn', hconn', hurl'⟩ := (Option.any_eq_true _ _).mp hkey
  have hdeleted : SaltCall.Returns runtime (.deleteKey "web") (.ok ()) :=
    raas_returns [] (.deleteKey "web")
  exact ⟨_, conn, conn', m, .call key hth ⟨hdeleted, rfl⟩, hm, hconn', hurl,
    of_decide_eq_true hurl'⟩

/-- A VM is accepted and deleted; then the worker goes on with `s`. -/
def acceptedDeleted (s : Script runtime) (n : Nat) : List (Act runtime) :=
  [.create (vm "a" "u1")] ++ work key discovery 44 ++ [.delete key time] ++ work key s n

end Sample

/-- Nobody touches the config: the key is deleted at the RaaS it was accepted on. -/
theorem deleted_where_accepted_steady : ∃ c c' conn conn' m,
    (cluster Sample.runtime Sample.noDefault notOwn True).ReachIf
      (SteadyEndpoint Sample.key.nspace ("https://raas", "master")) c ∧
    (cluster Sample.runtime Sample.noDefault notOwn True).Step c
      (.call Sample.key (.salt conn (.deleteKey "web")) (.ok ())) c' ∧
    m ∈ c.hist Sample.key ∧ Made.keyConn? m = some conn' ∧
    conn.url = conn'.url ∧ conn.masterID = conn'.masterID := by
  have hrun : (runActs Sample.noDefault notOwn True
      (Sample.steadyEndpoint ("https://raas", "master"))
      (Sample.acceptedDeleted Sample.discovery 5)
      (.start Sample.time Sample.secrets)).any
        (Sample.deletesAt "https://raas" "https://raas") = true := by
    decide +kernel
  obtain ⟨c, hc, hcheck⟩ :=
    exists_reachIf_of_run (fun _ _ _ _ h => Sample.steadyEndpoint_sound h) hrun
  obtain ⟨c', conn, conn', m, hs, hm, hkey, -⟩ := Sample.deletesAt_sound hcheck
  exact ⟨c, c', conn, conn', m, hc, hs, hm, hkey,
    deleted_where_accepted _ _ _ _ _ hc hs hm hkey⟩

/-- The config is replaced by one for another RaaS while the VM is deleted: the key that
was accepted on the one is deleted on the other. -/
theorem deleted_elsewhere : ∃ c c' conn conn' m,
    (cluster Sample.runtime Sample.noDefault notOwn True).Reach c ∧
    (cluster Sample.runtime Sample.noDefault notOwn True).Step c
      (.call Sample.key (.salt conn (.deleteKey "web")) (.ok ())) c' ∧
    m ∈ c.hist Sample.key ∧ Made.keyConn? m = some conn' ∧
    conn.url = "https://other" ∧ conn'.url = "https://raas" := by
  have hrun : (Sample.play (Sample.acceptedDeleted Sample.elsewhere 8)).any
      (Sample.deletesAt "https://other" "https://raas") = true := by
    decide +kernel
  obtain ⟨c, hc, hcheck⟩ := Sample.exists_reach hrun
  obtain ⟨c', conn, conn', m, hs, hm, hkey, hurl, hurl'⟩ := Sample.deletesAt_sound hcheck
  exact ⟨c, c', conn, conn', m, hc, hs, hm, hkey, hurl, hurl'⟩

end SaltOperator
