import SaltOperator.Cluster.Run
import SaltOperator.Lib.Relational

/-!
# What a config gives a VM: which one is used, and with whose credentials

`findSaltKeyConfig` goes through the configs of a namespace in the order of the list,
which the informer's cache leaves open. **The choice is one and the same for every
order exactly when no two configs compete for it** (`selection_stable_iff`): two
different Ready configs of the team, or two different Ready enrolled ones where the
team has none.

`Resolve` has two ways to credentials, and the operator's own Secret can be reached
by both. **Its credentials stay with the endpoint it names exactly when a config that
names the Secret itself restates that endpoint** (`default_credentials_kept_iff`); a
config on the default connection always does.
-/

namespace SaltOperator

/-! ## Selection -/

/-- A Ready config that is not the operator's. -/
def SaltKeyConfig.isTeam (cfg : SaltKeyConfig) : Bool := cfg.isReady && !cfg.enrolled

theorem selectLoop_eq (own : Option SaltKeyConfig) (configs : List SaltKeyConfig) :
    selectLoop own configs =
      (configs.find? SaltKeyConfig.isTeam).or (own.or (configs.find? SaltKeyConfig.isReady)) := by
  induction configs generalizing own with
  | nil => cases own <;> rfl
  | cons cfg rest ih =>
    unfold selectLoop
    cases hr : cfg.isReady with
    | false => simp [SaltKeyConfig.isTeam, hr, ih]
    | true =>
      cases he : cfg.enrolled with
      | false => simp [SaltKeyConfig.isTeam, hr, he]
      | true => cases own <;> simp [SaltKeyConfig.isTeam, hr, he, ih]

/-- The selected config is the first of the team's, or the first Ready one. -/
theorem selectConfig_eq (configs : List SaltKeyConfig) :
    selectConfig configs =
      (configs.find? SaltKeyConfig.isTeam).or (configs.find? SaltKeyConfig.isReady) := by
  unfold selectConfig
  rw [selectLoop_eq, Option.none_or]

/-- `findSaltKeyConfig` over the list of a namespace: it finds a config if there is a Ready
one, the team's before the operator's, and the order of the list does not matter. -/
structure StableSelection (configs : List SaltKeyConfig) : Prop where
  none_iff : selectConfig configs = none ↔ ∀ cfg ∈ configs, cfg.isReady = false
  team : (∃ cfg ∈ configs, cfg.isTeam = true) → ∃ cfg, selectConfig configs = some cfg ∧
    cfg.isReady = true ∧ cfg.enrolled = false
  stable : ∀ configs', configs'.Perm configs → selectConfig configs' = selectConfig configs

/-- No two configs compete: the team has at most one Ready config, and where it has none,
neither does the operator have two. -/
structure Unrivalled (configs : List SaltKeyConfig) : Prop where
  team : ∀ a ∈ configs, ∀ b ∈ configs, a.isTeam = true → b.isTeam = true → a = b
  enrolled : (∀ cfg ∈ configs, cfg.isTeam = false) →
    ∀ a ∈ configs, ∀ b ∈ configs, a.isReady = true → b.isReady = true → a = b

section selection

variable {α : Type} {l l' : List α} {p : α → Bool}

/-- Where at most one element fits, every order finds the same. -/
theorem find?_perm (hp : l'.Perm l) (huniq : ∀ a ∈ l, ∀ b ∈ l, p a = true → p b = true → a = b) :
    l'.find? p = l.find? p := by
  cases h : l.find? p with
  | none =>
    rw [List.find?_eq_none] at h ⊢
    exact fun a ha => h a (hp.subset ha)
  | some a =>
    have ha := List.mem_of_find?_eq_some h
    cases h' : l'.find? p with
    | none =>
      rw [List.find?_eq_none] at h'
      exact absurd (List.find?_some h) (h' a (hp.symm.subset ha))
    | some b =>
      have hb := hp.subset (List.mem_of_find?_eq_some h')
      exact congrArg some (huniq b hb a ha (List.find?_some h') (List.find?_some h))

/-- Any element can come first. -/
theorem exists_perm_cons {a : α} (ha : a ∈ l) : ∃ rest, (a :: rest).Perm l := by
  obtain ⟨s, t, rfl⟩ := List.append_of_mem ha
  exact ⟨s ++ t, List.perm_middle.symm⟩

end selection

variable {configs : List SaltKeyConfig}

theorem selectConfig_team (h : ∃ cfg ∈ configs, cfg.isTeam = true) :
    ∃ cfg, selectConfig configs = some cfg ∧ cfg.isReady = true ∧ cfg.enrolled = false := by
  obtain ⟨c, hc, hteam⟩ := h
  obtain ⟨cfg, hcfg⟩ := Option.isSome_iff_exists.mp (List.find?_isSome.mpr ⟨c, hc, hteam⟩)
  have hfound := List.find?_some hcfg
  simp only [SaltKeyConfig.isTeam, Bool.and_eq_true, Bool.not_eq_true'] at hfound
  exact ⟨cfg, by rw [selectConfig_eq, hcfg, Option.some_or], hfound⟩

theorem Unrivalled.stable (h : Unrivalled configs) {configs' : List SaltKeyConfig}
    (hp : configs'.Perm configs) : selectConfig configs' = selectConfig configs := by
  rw [selectConfig_eq, selectConfig_eq, find?_perm hp h.team]
  cases hfind : configs.find? SaltKeyConfig.isTeam with
  | some cfg => rw [Option.some_or, Option.some_or]
  | none =>
    have hno : ∀ cfg ∈ configs, cfg.isTeam = false := by simpa using List.find?_eq_none.mp hfind
    rw [Option.none_or, Option.none_or, find?_perm hp (h.enrolled hno)]

/-- A config that comes first and is the team's is selected. -/
theorem selectConfig_cons_team {cfg : SaltKeyConfig} {rest : List SaltKeyConfig}
    (h : cfg.isTeam = true) : selectConfig (cfg :: rest) = some cfg := by
  rw [selectConfig_eq, List.find?_cons_of_pos h, Option.some_or]

/-- So is a Ready one, where the team has none. -/
theorem selectConfig_cons_ready {cfg : SaltKeyConfig} {rest : List SaltKeyConfig}
    (h : cfg.isReady = true) (hno : ∀ c ∈ cfg :: rest, c.isTeam = false) :
    selectConfig (cfg :: rest) = some cfg := by
  have hnone : (cfg :: rest).find? SaltKeyConfig.isTeam = none := by
    rw [List.find?_eq_none]
    simpa using hno
  rw [selectConfig_eq, hnone, Option.none_or, List.find?_cons_of_pos h]

/-- **The order of the list does not matter exactly when no two configs compete.** -/
theorem selection_stable_iff (configs : List SaltKeyConfig) :
    StableSelection configs ↔ Unrivalled configs := by
  constructor
  · intro h
    -- whichever of the two comes first is selected
    refine ⟨fun a ha b hb hta htb => ?_, fun hno a ha b hb hra hrb => ?_⟩
    · obtain ⟨rest, hp⟩ := exists_perm_cons ha
      obtain ⟨rest', hp'⟩ := exists_perm_cons hb
      have hsel := (h.stable _ hp).trans (h.stable _ hp').symm
      rw [selectConfig_cons_team hta, selectConfig_cons_team htb] at hsel
      exact Option.some.inj hsel
    · obtain ⟨rest, hp⟩ := exists_perm_cons ha
      obtain ⟨rest', hp'⟩ := exists_perm_cons hb
      have hsel := (h.stable _ hp).trans (h.stable _ hp').symm
      rw [selectConfig_cons_ready hra fun c hc => hno c (hp.subset hc),
        selectConfig_cons_ready hrb fun c hc => hno c (hp'.subset hc)] at hsel
      exact Option.some.inj hsel
  · intro h
    exact ⟨selectConfig_eq_none, selectConfig_team, fun _ hp => h.stable hp⟩

namespace Sample

/-- A Ready config of the team. -/
def teamConfig (name url : String) : SaltKeyConfig :=
  { name, nspace := "team", spec := { raasURL := url, masterID := "master" },
    conditions := [{ type := "Ready", status := .true }] }

end Sample

/-- A namespace with two Ready configs of the team: the VMs go to one RaaS or the other,
depending on the order of the list. -/
theorem selection_alternates :
    let a := Sample.teamConfig "a" "https://raas-a"
    let b := Sample.teamConfig "b" "https://raas-b"
    [b, a].Perm [a, b] ∧ (selectConfig [a, b]).map (·.spec.raasURL) = some "https://raas-a" ∧
      (selectConfig [b, a]).map (·.spec.raasURL) = some "https://raas-b" ∧
      ¬ StableSelection [a, b] := by
  refine ⟨.swap _ _ _, by decide, by decide, fun h => ?_⟩
  have hsel := h.stable [_, _] (.swap _ _ _)
  have hname := congrArg (Option.map SaltKeyConfig.name) hsel
  exact absurd hname (by decide)

/-! ## Connections -/

/-- `Resolve` returns `conn` with credentials that it has read from the default connection
Secret, which contains `data`. -/
structure FromDefault (rt : Runtime) (cfg : SaltKeyConfig) (d : Default) (σ : (o : Op) → o.Ans)
    (conn : Connection) (data : StringMap) : Prop where
  returned : ((resolve rt cfg d).exec (fun _ => σ) 0).2 = .ok conn
  read : Op.getSecret ⟨d.nspace, d.secretName⟩ ∈ ((resolve rt cfg d).exec (fun _ => σ) 0).1
  content : σ (.getSecret ⟨d.nspace, d.secretName⟩) = .ok data

/-- The connection goes where the Secret says, and skips TLS verification only if it says
so. -/
structure StaysAtDefault (rt : Runtime) (data : StringMap) (conn : Connection) : Prop where
  url : conn.url = StringMap.read data "url"
  masterID : conn.masterID = StringMap.read data "masterID"
  tls : conn.skipTLSVerify = true → rt.equalFold (StringMap.read data "skipTLSVerify") "true" = true

/-- The config names the endpoint of the Secret, and does not ask for less than it. -/
structure Restates (rt : Runtime) (data : StringMap) (cfg : SaltKeyConfig) : Prop where
  url : cfg.spec.raasURL = StringMap.read data "url"
  masterID : cfg.spec.masterID = StringMap.read data "masterID"
  tls : cfg.spec.skipTLSVerify = true →
    rt.equalFold (StringMap.read data "skipTLSVerify") "true" = true

section connections

variable {rt : Runtime} {cfg : SaltKeyConfig} {d : Default} {σ : (o : Op) → o.Ans}
  {conn : Connection} {data : StringMap}

theorem exec_readSecret {nspace name : String} {n : Nat} :
    ((readSecret nspace name).exec (fun _ => σ) n).2 = .ok data ↔
      σ (.getSecret ⟨nspace, name⟩) = .ok data := by
  refine Prog.exec_bind_ok.trans ⟨?_, ?_⟩
  · rintro ⟨r, hr, h⟩
    rcases r with (text | text | text) | found
    · cases h
    · cases h
    · cases h
    · exact (Except.ok.inj hr).trans (congrArg Except.ok (Except.ok.inj h))
  · intro h
    exact ⟨.ok data, congrArg Except.ok h, rfl⟩

/-- A config on the default connection gets what the Secret says. -/
theorem exec_resolveDefault (h : ((resolveDefault rt cfg d).exec (fun _ => σ) 0).2 = .ok conn) :
    ∃ data, σ (.getSecret ⟨d.nspace, d.secretName⟩) = .ok data ∧ StaysAtDefault rt data conn := by
  unfold resolveDefault at h
  split at h
  · cases h
  · obtain ⟨loaded, hload, h⟩ := Prog.exec_bind_ok.mp h
    have hconn : loaded = conn := by
      split at h
      · cases h
      · split at h
        · cases h
        · split at h
          · cases h
          · exact Except.ok.inj h
    subst hconn
    obtain ⟨data, hread, h⟩ := Prog.exec_bind_ok.mp hload
    refine ⟨data, exec_readSecret.mp hread, ?_⟩
    split at h
    · cases h
    · cases h
      exact ⟨rfl, rfl, id⟩

/-- A config with its own Secret names its endpoint itself. -/
theorem exec_resolveNamespaceSecret
    (h : ((resolveNamespaceSecret cfg).exec (fun _ => σ) 0).2 = .ok conn) :
    conn.url = cfg.spec.raasURL ∧ conn.masterID = cfg.spec.masterID ∧
      conn.skipTLSVerify = cfg.spec.skipTLSVerify := by
  unfold resolveNamespaceSecret at h
  split at h
  · cases h
  · obtain ⟨found, -, h⟩ := Prog.exec_bind_ok.mp h
    split at h
    · cases h
    · cases h
      exact ⟨rfl, rfl, rfl⟩

end connections

/-- **The operator's credentials stay at its endpoint** exactly when the config uses the
default connection as such, or restates it while it names the Secret as its own. -/
theorem default_credentials_kept_iff (rt : Runtime) (cfg : SaltKeyConfig) (d : Default)
    (σ : (o : Op) → o.Ans) (conn : Connection) (data : StringMap)
    (h : FromDefault rt cfg d σ conn data) :
    StaysAtDefault rt data conn ↔ cfg.spec.credentialsSecret = "" ∨ Restates rt data cfg := by
  have hreturned := h.returned
  unfold resolve at hreturned
  by_cases hsecret : cfg.spec.credentialsSecret = ""
  · rw [if_neg (not_not.mpr hsecret)] at hreturned
    obtain ⟨data', hdata, hstays⟩ := exec_resolveDefault hreturned
    obtain rfl : data = data' := Except.ok.inj (h.content.symm.trans hdata)
    exact ⟨fun _ => .inl hsecret, fun _ => hstays⟩
  · rw [if_pos hsecret] at hreturned
    obtain ⟨hurl, hmaster, htls⟩ := exec_resolveNamespaceSecret hreturned
    constructor
    · exact fun hs => .inr ⟨hurl ▸ hs.url, hmaster ▸ hs.masterID, htls ▸ hs.tls⟩
    · intro hc
      have hr := hc.resolve_left hsecret
      exact ⟨hurl.trans hr.url, hmaster.trans hr.masterID, htls ▸ hr.tls⟩

namespace Sample

/-- The content of the operator's Secret. -/
def defaultData : StringMap :=
  [("url", "https://raas"), ("masterID", "master"), ("username", "operator"),
   ("password", "secret"), ("skipTLSVerify", "false")].foldl (fun m e => m.insert e.1 e.2) ∅

/-- The operator's Secret, in its own namespace. -/
def operatorDefault : Default := ⟨"svc-salt", "raas-connection"⟩

end Sample

/-- A config that restates the operator's endpoint gets the operator's credentials, for that
endpoint. -/
theorem default_credentials_kept_restated :
    let cfg : SaltKeyConfig :=
      { name := "default", nspace := "team",
        spec := { raasURL := "https://raas", masterID := "master" } }
    let conn : Connection := ⟨"https://raas", "master", "operator", "secret", false, "default"⟩
    FromDefault Sample.runtime cfg Sample.operatorDefault (Sample.answer Sample.defaultData) conn
        Sample.defaultData ∧
      StaysAtDefault Sample.runtime Sample.defaultData conn := by
  intro cfg conn
  have hfrom : FromDefault Sample.runtime cfg Sample.operatorDefault
      (Sample.answer Sample.defaultData) conn Sample.defaultData :=
    ⟨by decide +kernel, .head _, rfl⟩
  exact ⟨hfrom, (default_credentials_kept_iff _ _ _ _ _ _ hfrom).mpr (.inl rfl)⟩

/-- A config in the operator's namespace that names the operator's Secret as its own takes
the credentials to another endpoint, without TLS verification. -/
theorem default_credentials_taken :
    let cfg : SaltKeyConfig :=
      { name := "mine", nspace := "svc-salt",
        spec := { raasURL := "https://attacker", masterID := "m",
                  credentialsSecret := "raas-connection", skipTLSVerify := true } }
    let conn : Connection := ⟨"https://attacker", "m", "operator", "secret", true, "namespace"⟩
    FromDefault Sample.runtime cfg Sample.operatorDefault (Sample.answer Sample.defaultData) conn
        Sample.defaultData ∧
      ¬ StaysAtDefault Sample.runtime Sample.defaultData conn :=
  ⟨⟨by decide +kernel, .head _, rfl⟩, fun h => absurd h.url (by decide +kernel)⟩

end SaltOperator
