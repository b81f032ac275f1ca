import CircuitBreaker.AgentScope

/-! The server's registry of agent capabilities (services/agent_capabilities.py): what a grant
may be configured with, and what of it is stored and sent. -/

namespace CircuitBreaker.CapabilityGrants
open IpText AgentScope List

abbrev Config := Dict String Json

inductive Capability where
  | hostTelemetry | remoteProbe | localDiscovery
  deriving DecidableEq

def Capability.name : Capability → String
  | .hostTelemetry => "host_telemetry"
  | .remoteProbe => "remote_probe"
  | .localDiscovery => "local_discovery"

def scopeModeDirectPrivate : Text := "direct_private".toList

def hostTelemetryDefaultConfig : Config where
  items := [
    ("interval_s",.int 30),
    ("include_filesystems",.bool true),
    ("include_disks",.bool true),
    ("include_network",.bool true),
    ("include_temperatures",.bool true),
    ("include_virtual",.bool false),
    ("include_docker",.bool false)]
  nodup := by decide

def remoteProbeDefaultConfig : Config where
  items := [
    ("max_concurrent",.int 20),
    ("scope_mode",.str scopeModeDirectPrivate),
    ("excluded_cidrs",.list []),
    ("additional_cidrs",.list []),
    ("additional_hostnames",.list [])]
  nodup := by decide

def localDiscoveryDefaultConfig : Config where
  items := [
    ("scope_mode",.str scopeModeDirectPrivate),
    ("excluded_cidrs",.list []),
    ("additional_cidrs",.list []),
    ("max_addresses_per_job",.int 1024),
    ("max_concurrent_hosts",.int 64),
    ("tcp_ports",.list ([22,53,80,443,445,3389,8000,8080,8443].map .int)),
    ("host_timeout_ms",.int 1500),
    ("job_timeout_seconds",.int 300),
    ("auto_discovery_paused",.bool false)]
  nodup := by decide

def Capability.defaultConfig : Capability → Config
  | .hostTelemetry => hostTelemetryDefaultConfig
  | .remoteProbe => remoteProbeDefaultConfig
  | .localDiscovery => localDiscoveryDefaultConfig

/-- `a | b` -/
def merge (a b : Config) : Config := a.update b.items

def rejectUnknown (what : String) (defaults config : Config) : Except String Unit :=
  match config.keys.filter (· ∉ defaults.keys) with
  | [] => .ok ()
  | unknown => .error (what ++ ", ".intercalate (unknown.insertionSort (· ≤ ·)))

/-- A setting of a config that the defaults are merged into, so that it is always there. -/
def setting (config : Config) (key : String) : Json := (config.get key).getD .null

def requireInt (low high : Int) (message : String) : Json → Except String Unit
  | .int n => if low ≤ n ∧ n ≤ high then .ok () else .error message
  | _ => .error message

def requireBool (message : String) : Json → Except String Unit
  | .bool _ => .ok ()
  | _ => .error message

def requireScopeMode (what : String) : Json → Except String Unit
  | .str mode => if mode = scopeModeDirectPrivate then .ok ()
    else .error (what ++ " scope_mode must be one of: direct_private")
  | _ => .error (what ++ " scope_mode must be one of: direct_private")

def texts (l : List Text) : Json := .list (l.map .str)

/-! A normalizer refuses settings it does not know, and checks the rest with its defaults
merged in. -/

def checkHostTelemetry (normalized : Config) : Except String Config := do
  requireInt 10 900 "host telemetry interval must be between 10 and 900 seconds"
    (setting normalized "interval_s")
  (normalized.keys.filter (· ≠ "interval_s")).forM fun name =>
    requireBool "host telemetry include settings must be booleans" (setting normalized name)
  return normalized

def normalizeHostTelemetryConfig (config : Config) : Except String Config := do
  rejectUnknown "unknown host telemetry settings: " hostTelemetryDefaultConfig config
  checkHostTelemetry (merge hostTelemetryDefaultConfig config)

section Order
variable (order : List Network → List Network)

/-- The step of both normalizers with a scope that stores one of its lists of prefixes. -/
def storeCidrs (field : String) (config : Config) : Except String Config := do
  let cidrs ← normalizeScopeCidrs order field (setting config field)
  return config.set field (texts cidrs)

def storeHostnames (config : Config) : Except String Config := do
  let names ← normalizeHostnames (setting config "additional_hostnames")
  return config.set "additional_hostnames" (texts names)

def checkRemoteProbe (normalized : Config) : Except String Config := do
  requireInt 1 100 "remote probe max_concurrent must be between 1 and 100"
    (setting normalized "max_concurrent")
  requireScopeMode "remote probe" (setting normalized "scope_mode")
  let normalized ← storeCidrs order "excluded_cidrs" normalized
  let normalized ← storeCidrs order "additional_cidrs" normalized
  storeHostnames normalized

def normalizeRemoteProbeConfig (config : Config) : Except String Config := do
  rejectUnknown "unknown remote probe settings: " remoteProbeDefaultConfig config
  checkRemoteProbe order (merge remoteProbeDefaultConfig config)

def localDiscoveryBounds : List (String × String × Int × Int) := [
  ("max_addresses_per_job","max addresses per job",1,4096),
  ("max_concurrent_hosts","max concurrent hosts",1,256),
  ("host_timeout_ms","host timeout ms",100,10000),
  ("job_timeout_seconds","job timeout seconds",30,1800)]

def maxTcpPorts : Nat := 32

def requirePort : Json → Except String Int
  | .int port =>
    if 1 ≤ port ∧ port ≤ 65535 then .ok port
    else .error "local discovery tcp ports must be integers between 1 and 65535"
  | _ => .error "local discovery tcp ports must be integers between 1 and 65535"

def normalizePorts : Json → Except String (List Int)
  | .list ports =>
    if maxTcpPorts < ports.length then
      .error ("local discovery tcp ports must name at most " ++ toString maxTcpPorts ++ " ports")
    else do
      let ports ← ports.mapM requirePort
      return ports.dedup.insertionSort (· ≤ ·)
  | _ => .error "local discovery tcp ports must be a list of port numbers"

def storePorts (config : Config) : Except String Config := do
  let ports ← normalizePorts (setting config "tcp_ports")
  return config.set "tcp_ports" (.list (ports.map .int))

def checkLocalDiscovery (normalized : Config) : Except String Config := do
  localDiscoveryBounds.forM fun (field,spoken,low,high) =>
    requireInt low high ("local discovery " ++ spoken ++ " must be between " ++ toString low ++
      " and " ++ toString high) (setting normalized field)
  requireBool "local discovery auto_discovery_paused must be a boolean"
    (setting normalized "auto_discovery_paused")
  let normalized ← storePorts normalized
  requireScopeMode "local discovery" (setting normalized "scope_mode")
  let normalized ← storeCidrs order "excluded_cidrs" normalized
  storeCidrs order "additional_cidrs" normalized

def normalizeLocalDiscoveryConfig (config : Config) : Except String Config := do
  rejectUnknown "unknown local discovery settings: " localDiscoveryDefaultConfig config
  checkLocalDiscovery order (merge localDiscoveryDefaultConfig config)

def Capability.normalize : Capability → Config → Except String Config
  | .hostTelemetry => normalizeHostTelemetryConfig
  | .remoteProbe => normalizeRemoteProbeConfig order
  | .localDiscovery => normalizeLocalDiscoveryConfig order

/-- `CAPABILITY_DEFINITIONS.get`. -/
def Capability.ofName (name : String) : Option Capability :=
  [Capability.hostTelemetry,.remoteProbe,.localDiscovery].find? (·.name = name)

def truthy : Json → Bool
  | .null => false
  | .bool b => b
  | .int n => n ≠ 0
  | .real zero => !zero
  | .str s => !s.isEmpty
  | .list vs => !vs.isEmpty
  | .object fields => !fields.isEmpty

def grantParts : Json → Except String (Bool × Config)
  | .bool enabled => .ok (enabled,Dict.empty)
  | .object fields =>
    let value := Dict.ofPairs fields
    match setting value "enabled" with
    | .bool enabled =>
      let config := setting value "config"
      if truthy config then
        match config with
        | .object settings => .ok (enabled,Dict.ofPairs settings)
        | _ => .error "capability grant config must be an object"
      else .ok (enabled,Dict.empty)
    | _ => .error "capability grant must be a boolean or \x7benabled, config\x7d object"
  | _ => .error "capability grant must be a boolean or \x7benabled, config\x7d object"

def normalizeGrant (name : String) (value : Json) (currentConfig : Config) :
    Except String (Bool × Config) :=
  match Capability.ofName name with
  | none => .error ("unknown capability '" ++ name ++
      "' (known: host_telemetry, local_discovery, remote_probe)")
  | some capability => do
    let (enabled,supplied) ← grantParts value
    let merged := merge (merge capability.defaultConfig currentConfig) supplied
    let config ← capability.normalize order merged
    return (enabled,config)

end Order

def structuredGrant (capability : Capability) (enabled : Bool) (stored : Config) : Json :=
  .object [("enabled",.bool enabled),("config",.object (merge capability.defaultConfig stored).items)]

theorem ofName_name (c : Capability) : Capability.ofName c.name = some c := by
  cases c <;> decide

theorem rejectUnknown_ok {what : String} {defaults config : Config} :
    rejectUnknown what defaults config = .ok () ↔ ∀ k ∈ config.keys, k ∈ defaults.keys := by
  have none : config.keys.filter (· ∉ defaults.keys) = [] ↔
      ∀ k ∈ config.keys, k ∈ defaults.keys := by
    simp [filter_eq_nil_iff]
  rw [←none,rejectUnknown]
  split
  case h_1 he => exact iff_of_true rfl he
  case h_2 hne => exact iff_of_false nofun fun he => hne he

theorem merge_keys {defaults config : Config} (h : ∀ k ∈ config.keys, k ∈ defaults.keys) :
    (merge defaults config).keys = defaults.keys :=
  Dict.keys_update fun p hp => h p.1 (mem_map_of_mem hp)

theorem merge_get (defaults config : Config) (k : String) :
    (merge defaults config).get k = (config.get k).or (defaults.get k) :=
  Dict.get_update_items defaults config k

theorem setting_get {config : Config} {key : String} {v : Json} (h : setting config key = v)
    (hv : v ≠ .null) : config.get key = some v := by
  unfold setting at h
  cases hg : config.get key with rw [hg] at h
  | none =>
    exact absurd h.symm hv
  | some w =>
    rw [←h]
    rfl

theorem setting_set_other (config : Config) {key other : String} (v : Json) (h : other ≠ key) :
    setting (config.set key v) other = setting config other := by
  rw [setting,setting,Dict.get_set_other config v h]

variable {j : Json}

theorem requireInt_ok {low high : Int} {message : String} :
    requireInt low high message j = .ok () ↔ ∃ n, j = .int n ∧ low ≤ n ∧ n ≤ high := by
  cases j with
  | int n =>
    simp only [requireInt,Json.int.injEq,exists_eq_left']
    split <;> simp_all
  | _ => simp [requireInt]

theorem requireBool_ok {message : String} :
    requireBool message j = .ok () ↔ ∃ b, j = .bool b := by
  cases j <;> simp [requireBool]

theorem requireScopeMode_ok {what : String} :
    requireScopeMode what j = .ok () ↔ j = .str scopeModeDirectPrivate := by
  cases j with
  | str mode =>
    simp only [requireScopeMode,Json.str.injEq]
    split <;> simp_all
  | _ => simp [requireScopeMode]

/-! The stored configurations, setting by setting. -/

structure HostSettings where
  intervalS : Int
  filesystems : Bool
  disks : Bool
  network : Bool
  temperatures : Bool
  virtual : Bool
  docker : Bool

def HostSettings.config (s : HostSettings) : Config where
  items := [
    ("interval_s",.int s.intervalS),
    ("include_filesystems",.bool s.filesystems),
    ("include_disks",.bool s.disks),
    ("include_network",.bool s.network),
    ("include_temperatures",.bool s.temperatures),
    ("include_virtual",.bool s.virtual),
    ("include_docker",.bool s.docker)]
  nodup := hostTelemetryDefaultConfig.nodup

structure HostSettings.Valid (s : HostSettings) : Prop where
  interval : 10 ≤ s.intervalS ∧ s.intervalS ≤ 900

theorem then_ok {ε β : Type} {x : Except ε Unit} {f : Unit → Except ε β} {b : β} :
    (x >>= f) = .ok b ↔ x = .ok () ∧ f () = .ok b := by
  cases x <;> simp [bind,Except.bind]

theorem forM_cons_ok {α ε : Type} {f : α → Except ε Unit} {a : α} {l : List α} :
    (a :: l).forM f = .ok () ↔ f a = .ok () ∧ l.forM f = .ok () :=
  then_ok (f := fun _ => l.forM f)

theorem checkHostTelemetry_ok {m c : Config} (hk : m.keys = hostTelemetryDefaultConfig.keys) :
    checkHostTelemetry m = .ok c ↔ c = m ∧ ∃ s : HostSettings, s.Valid ∧ m = s.config := by
  have names : m.keys.filter (· ≠ "interval_s") = ["include_filesystems","include_disks",
      "include_network","include_temperatures","include_virtual","include_docker"] := by
    rw [hk]
    decide
  unfold checkHostTelemetry
  simp only [then_ok,names,requireInt_ok,pure,Except.pure]
  constructor
  · rintro ⟨⟨n,hn,hr⟩,hb,h⟩
    simp only [forM_cons_ok,requireBool_ok] at hb
    obtain ⟨⟨b1,h1⟩,⟨b2,h2⟩,⟨b3,h3⟩,⟨b4,h4⟩,⟨b5,h5⟩,⟨b6,h6⟩,_⟩ := hb
    cases h
    refine ⟨rfl,⟨n,b1,b2,b3,b4,b5,b6⟩,⟨hr⟩,?_⟩
    refine Dict.ext_keys hk fun k hm => ?_
    rw [hk] at hm
    simp only [Dict.keys,hostTelemetryDefaultConfig,map_cons,map_nil,mem_cons,
      not_mem_nil,or_false] at hm
    obtain rfl | rfl | rfl | rfl | rfl | rfl | rfl := hm
    · rw [setting_get hn (by simp)]; rfl
    · rw [setting_get h1 (by simp)]; rfl
    · rw [setting_get h2 (by simp)]; rfl
    · rw [setting_get h3 (by simp)]; rfl
    · rw [setting_get h4 (by simp)]; rfl
    · rw [setting_get h5 (by simp)]; rfl
    · rw [setting_get h6 (by simp)]; rfl
  · rintro ⟨rfl,s,hv,rfl⟩
    refine ⟨⟨s.intervalS,rfl,hv.interval⟩,?_,rfl⟩
    simp only [forM_cons_ok,requireBool_ok]
    exact ⟨⟨_,rfl⟩,⟨_,rfl⟩,⟨_,rfl⟩,⟨_,rfl⟩,⟨_,rfl⟩,⟨_,rfl⟩,rfl⟩

theorem keys_stored {m : Config} {ks : List String} (hk : m.keys = ks) {k : String} {v : Json}
    (h : k ∈ ks) : (m.set k v).keys = ks := by
  rw [←hk] at h
  exact (Dict.keys_set v h).trans hk

structure ProbeSettings where
  maxConcurrent : Int
  excluded : List Text
  additional : List Text
  hostnames : List Text

def ProbeSettings.config (s : ProbeSettings) : Config where
  items := [
    ("max_concurrent",.int s.maxConcurrent),
    ("scope_mode",.str scopeModeDirectPrivate),
    ("excluded_cidrs",texts s.excluded),
    ("additional_cidrs",texts s.additional),
    ("additional_hostnames",texts s.hostnames)]
  nodup := remoteProbeDefaultConfig.nodup

section Order
variable {order : List Network → List Network}

theorem storeCidrs_ok {field : String} {c c' : Config} : storeCidrs order field c = .ok c' ↔
    ∃ cidrs, normalizeScopeCidrs order field (setting c field) = .ok cidrs ∧
      c.set field (texts cidrs) = c' := by
  simp only [storeCidrs,bind_ok,pure,Except.pure,Except.ok.injEq]

theorem storeHostnames_ok {c c' : Config} : storeHostnames c = .ok c' ↔
    ∃ names, normalizeHostnames (setting c "additional_hostnames") = .ok names ∧
      c.set "additional_hostnames" (texts names) = c' := by
  simp only [storeHostnames,bind_ok,pure,Except.pure,Except.ok.injEq]

/-- What the settings of a merged `remote_probe` config are stored as. -/
structure ProbeSettings.Stores (order : List Network → List Network) (m : Config)
    (s : ProbeSettings) : Prop where
  limit : setting m "max_concurrent" = .int s.maxConcurrent
  bound : 1 ≤ s.maxConcurrent ∧ s.maxConcurrent ≤ 100
  mode : setting m "scope_mode" = .str scopeModeDirectPrivate
  excluded : normalizeScopeCidrs order "excluded_cidrs" (setting m "excluded_cidrs") =
    .ok s.excluded
  additional : normalizeScopeCidrs order "additional_cidrs" (setting m "additional_cidrs") =
    .ok s.additional
  hostnames : normalizeHostnames (setting m "additional_hostnames") = .ok s.hostnames

theorem ProbeSettings.config_eq {m : Config} {s : ProbeSettings}
    (hk : m.keys = remoteProbeDefaultConfig.keys) (h : s.Stores order m) :
    ((m.set "excluded_cidrs" (texts s.excluded)).set "additional_cidrs" (texts s.additional)).set
      "additional_hostnames" (texts s.hostnames) = s.config := by
  have k1 := keys_stored hk (v := texts s.excluded) (k := "excluded_cidrs") (by decide)
  have k2 := keys_stored k1 (v := texts s.additional) (k := "additional_cidrs") (by decide)
  have keys := keys_stored k2 (v := texts s.hostnames) (k := "additional_hostnames") (by decide)
  refine Dict.ext_keys keys fun k hm => ?_
  rw [keys] at hm
  simp only [Dict.keys,remoteProbeDefaultConfig,map_cons,map_nil,mem_cons,
    not_mem_nil,or_false] at hm
  obtain rfl | rfl | rfl | rfl | rfl := hm
  · rw [Dict.get_set_other _ _ (by decide),Dict.get_set_other _ _ (by decide),
      Dict.get_set_other _ _ (by decide),setting_get h.limit (by simp)]
    rfl
  · rw [Dict.get_set_other _ _ (by decide),Dict.get_set_other _ _ (by decide),
      Dict.get_set_other _ _ (by decide),setting_get h.mode (by simp)]
    rfl
  · rw [Dict.get_set_other _ _ (by decide),Dict.get_set_other _ _ (by decide),Dict.get_set_self]
    rfl
  · rw [Dict.get_set_other _ _ (by decide),Dict.get_set_self]
    rfl
  · rw [Dict.get_set_self]
    rfl

theorem checkRemoteProbe_ok {m c : Config} (hk : m.keys = remoteProbeDefaultConfig.keys) :
    checkRemoteProbe order m = .ok c ↔ ∃ s : ProbeSettings, s.Stores order m ∧ c = s.config := by
  rw [checkRemoteProbe,then_ok,requireInt_ok,then_ok,requireScopeMode_ok]
  simp only [bind_ok,storeCidrs_ok,storeHostnames_ok]
  constructor
  · rintro ⟨⟨n,hn,hr⟩,hm,_,⟨e,he,rfl⟩,_,⟨a,ha,rfl⟩,names,hs,rfl⟩
    rw [setting_set_other _ _ (by decide)] at ha
    rw [setting_set_other _ _ (by decide),setting_set_other _ _ (by decide)] at hs
    have stores : ProbeSettings.Stores order m ⟨n,e,a,names⟩ := ⟨hn,hr,hm,he,ha,hs⟩
    have stored := ProbeSettings.config_eq hk stores
    dsimp only at stored
    exact ⟨_,stores,stored⟩
  · rintro ⟨s,hs,rfl⟩
    refine ⟨⟨_,hs.limit,hs.bound⟩,hs.mode,_,⟨_,hs.excluded,rfl⟩,_,⟨s.additional,?_,rfl⟩,
      s.hostnames,?_,ProbeSettings.config_eq hk hs⟩
    · rw [setting_set_other _ _ (by decide)]
      exact hs.additional
    · rw [setting_set_other _ _ (by decide),setting_set_other _ _ (by decide)]
      exact hs.hostnames

end Order

structure DiscoverySettings where
  excluded : List Text
  additional : List Text
  maxAddressesPerJob : Int
  maxConcurrentHosts : Int
  tcpPorts : List Int
  hostTimeoutMs : Int
  jobTimeoutSeconds : Int
  autoDiscoveryPaused : Bool

def DiscoverySettings.config (s : DiscoverySettings) : Config where
  items := [
    ("scope_mode",.str scopeModeDirectPrivate),
    ("excluded_cidrs",texts s.excluded),
    ("additional_cidrs",texts s.additional),
    ("max_addresses_per_job",.int s.maxAddressesPerJob),
    ("max_concurrent_hosts",.int s.maxConcurrentHosts),
    ("tcp_ports",.list (s.tcpPorts.map .int)),
    ("host_timeout_ms",.int s.hostTimeoutMs),
    ("job_timeout_seconds",.int s.jobTimeoutSeconds),
    ("auto_discovery_paused",.bool s.autoDiscoveryPaused)]
  nodup := localDiscoveryDefaultConfig.nodup

section Order
variable {order : List Network → List Network}

/-- What the settings of a merged `local_discovery` config are stored as. -/
structure DiscoverySettings.Stores (order : List Network → List Network) (m : Config)
    (s : DiscoverySettings) : Prop where
  addresses : setting m "max_addresses_per_job" = .int s.maxAddressesPerJob
  addressBound : 1 ≤ s.maxAddressesPerJob ∧ s.maxAddressesPerJob ≤ 4096
  hosts : setting m "max_concurrent_hosts" = .int s.maxConcurrentHosts
  hostBound : 1 ≤ s.maxConcurrentHosts ∧ s.maxConcurrentHosts ≤ 256
  timeout : setting m "host_timeout_ms" = .int s.hostTimeoutMs
  timeoutBound : 100 ≤ s.hostTimeoutMs ∧ s.hostTimeoutMs ≤ 10000
  job : setting m "job_timeout_seconds" = .int s.jobTimeoutSeconds
  jobBound : 30 ≤ s.jobTimeoutSeconds ∧ s.jobTimeoutSeconds ≤ 1800
  paused : setting m "auto_discovery_paused" = .bool s.autoDiscoveryPaused
  ports : normalizePorts (setting m "tcp_ports") = .ok s.tcpPorts
  mode : setting m "scope_mode" = .str scopeModeDirectPrivate
  excluded : normalizeScopeCidrs order "excluded_cidrs" (setting m "excluded_cidrs") =
    .ok s.excluded
  additional : normalizeScopeCidrs order "additional_cidrs" (setting m "additional_cidrs") =
    .ok s.additional

theorem storePorts_ok {c c' : Config} : storePorts c = .ok c' ↔
    ∃ ports, normalizePorts (setting c "tcp_ports") = .ok ports ∧
      c.set "tcp_ports" (.list (ports.map .int)) = c' := by
  simp only [storePorts,bind_ok,pure,Except.pure,Except.ok.injEq]

theorem DiscoverySettings.config_eq {m : Config} {s : DiscoverySettings}
    (hk : m.keys = localDiscoveryDefaultConfig.keys) (h : s.Stores order m) :
    ((m.set "tcp_ports" (.list (s.tcpPorts.map .int))).set "excluded_cidrs" (texts s.excluded)).set
      "additional_cidrs" (texts s.additional) = s.config := by
  have k1 := keys_stored hk (v := .list (s.tcpPorts.map .int)) (k := "tcp_ports") (by decide)
  have k2 := keys_stored k1 (v := texts s.excluded) (k := "excluded_cidrs") (by decide)
  have keys := keys_stored k2 (v := texts s.additional) (k := "additional_cidrs") (by decide)
  -- a setting none of the three writes touches
  have other : ∀ {k : String} {v : Json}, k ≠ "tcp_ports" → k ≠ "excluded_cidrs" →
      k ≠ "additional_cidrs" → setting m k = v → v ≠ .null →
      (((m.set "tcp_ports" (.list (s.tcpPorts.map .int))).set "excluded_cidrs"
        (texts s.excluded)).set "additional_cidrs" (texts s.additional)).get k = some v := by
    intro k v h1 h2 h3 hv hn
    rw [Dict.get_set_other _ _ h3,Dict.get_set_other _ _ h2,Dict.get_set_other _ _ h1]
    exact setting_get hv hn
  refine Dict.ext_keys keys fun k hm => ?_
  rw [keys] at hm
  simp only [Dict.keys,localDiscoveryDefaultConfig,map_cons,map_nil,mem_cons,
    not_mem_nil,or_false] at hm
  obtain rfl | rfl | rfl | rfl | rfl | rfl | rfl | rfl | rfl := hm
  · exact other (by decide) (by decide) (by decide) h.mode (by simp)
  · rw [Dict.get_set_other _ _ (by decide),Dict.get_set_self]
    rfl
  · rw [Dict.get_set_self]
    rfl
  · exact other (by decide) (by decide) (by decide) h.addresses (by simp)
  · exact other (by decide) (by decide) (by decide) h.hosts (by simp)
  · rw [Dict.get_set_other _ _ (by decide),Dict.get_set_other _ _ (by decide),Dict.get_set_self]
    rfl
  · exact other (by decide) (by decide) (by decide) h.timeout (by simp)
  · exact other (by decide) (by decide) (by decide) h.job (by simp)
  · exact other (by decide) (by decide) (by decide) h.paused (by simp)

theorem checkLocalDiscovery_ok {m c : Config} (hk : m.keys = localDiscoveryDefaultConfig.keys) :
    checkLocalDiscovery order m = .ok c ↔
      ∃ s : DiscoverySettings, s.Stores order m ∧ c = s.config := by
  rw [checkLocalDiscovery,then_ok,then_ok]
  simp only [localDiscoveryBounds,forM_cons_ok,requireInt_ok,requireBool_ok]
  constructor
  · rintro ⟨⟨⟨a,ha,ba⟩,⟨b,hb,bb⟩,⟨t,ht,bt⟩,⟨j,hj,bj⟩,_⟩,⟨p,hp⟩,h⟩
    obtain ⟨_,h1,h⟩ := bind_ok.mp h
    obtain ⟨ports,hports,rfl⟩ := storePorts_ok.mp h1
    obtain ⟨hm,h⟩ := then_ok.mp h
    obtain ⟨_,h2,h⟩ := bind_ok.mp h
    obtain ⟨e,he,rfl⟩ := storeCidrs_ok.mp h2
    obtain ⟨d,hd,rfl⟩ := storeCidrs_ok.mp h
    rw [requireScopeMode_ok,setting_set_other _ _ (by decide)] at hm
    rw [setting_set_other _ _ (by decide)] at he
    rw [setting_set_other _ _ (by decide),setting_set_other _ _ (by decide)] at hd
    have stores : DiscoverySettings.Stores order m ⟨e,d,a,b,ports,t,j,p⟩ :=
      ⟨ha,ba,hb,bb,ht,bt,hj,bj,hp,hports,hm,he,hd⟩
    have stored := DiscoverySettings.config_eq hk stores
    dsimp only at stored
    exact ⟨_,stores,stored⟩
  · rintro ⟨s,hs,rfl⟩
    refine ⟨⟨⟨_,hs.addresses,hs.addressBound⟩,⟨_,hs.hosts,hs.hostBound⟩,
      ⟨_,hs.timeout,hs.timeoutBound⟩,⟨_,hs.job,hs.jobBound⟩,rfl⟩,⟨_,hs.paused⟩,?_⟩
    refine bind_ok.mpr ⟨_,storePorts_ok.mpr ⟨_,hs.ports,rfl⟩,then_ok.mpr ⟨?_,?_⟩⟩
    · rw [requireScopeMode_ok,setting_set_other _ _ (by decide)]
      exact hs.mode
    · refine bind_ok.mpr ⟨_,storeCidrs_ok.mpr ⟨s.excluded,?_,rfl⟩,storeCidrs_ok.mpr
        ⟨s.additional,?_,DiscoverySettings.config_eq hk hs⟩⟩
      · rw [setting_set_other _ _ (by decide)]
        exact hs.excluded
      · rw [setting_set_other _ _ (by decide),setting_set_other _ _ (by decide)]
        exact hs.additional

end Order

/-! Storing again what is stored. -/

theorem requirePort_ok {n : Int} :
    requirePort j = .ok n ↔ j = .int n ∧ 1 ≤ n ∧ n ≤ 65535 := by
  cases j with
  | int p =>
    simp only [requirePort,Json.int.injEq]
    split
    case isTrue hp =>
      simp only [Except.ok.injEq]
      constructor
      · rintro rfl
        exact ⟨rfl,hp⟩
      · exact And.left
    case isFalse hp =>
      simp only [reduceCtorEq,false_iff,not_and]
      rintro rfl
      simpa using hp
  | _ => simp [requirePort]

theorem normalizePorts_ok {out : List Int} : normalizePorts j = .ok out ↔
    ∃ values ports, j = .list values ∧ values.length ≤ 32 ∧
      List.Forall₂ (fun v n => v = .int n ∧ 1 ≤ n ∧ n ≤ 65535) values ports ∧
      out = ports.dedup.insertionSort (· ≤ ·) := by
  cases j with
  | list values =>
    simp only [normalizePorts,Json.list.injEq]
    split
    case isTrue hl =>
      simp only [reduceCtorEq,false_iff,not_exists,not_and]
      rintro _ _ rfl hs
      rw [maxTcpPorts] at hl
      omega
    case isFalse hl =>
      rw [maxTcpPorts] at hl
      simp only [bind_ok,mapM_ok,requirePort_ok]
      constructor
      · rintro ⟨ports,hf,h⟩
        cases h
        exact ⟨values,ports,rfl,by omega,hf,rfl⟩
      · rintro ⟨_,ports,rfl,_,hf,rfl⟩
        exact ⟨ports,hf,rfl⟩
  | _ => simp [normalizePorts]

structure Ports (ports : List Int) : Prop where
  few : ports.length ≤ 32
  range : ∀ n ∈ ports, 1 ≤ n ∧ n ≤ 65535
  nodup : ports.Nodup
  sorted : ports.Pairwise (· ≤ ·)

theorem normalizePorts_ports {out : List Int} (h : normalizePorts j = .ok out) :
    Ports out := by
  obtain ⟨values,ports,_,hl,hf,rfl⟩ := normalizePorts_ok.mp h
  have hlen := hf.length_eq
  have few : ports.dedup.length ≤ ports.length := (dedup_sublist ports).length_le
  refine ⟨?_,fun n hn => ?_,?_,pairwise_insertionSort _ _⟩
  · rw [length_insertionSort]
    omega
  · rw [mem_insertionSort,mem_dedup] at hn
    obtain ⟨_,_,_,hr⟩ := forall₂_mem hf.flip hn
    exact hr
  · exact (perm_insertionSort _ _).nodup_iff.mpr (nodup_dedup ports)

theorem Ports.canonical {ports : List Int} (h : Ports ports) :
    ports.dedup.insertionSort (· ≤ ·) = ports := by
  rw [h.nodup.dedup]
  exact h.sorted.insertionSort_eq

theorem Ports.again {ports : List Int} (h : Ports ports) :
    normalizePorts (.list (ports.map .int)) = .ok ports := by
  refine normalizePorts_ok.mpr ⟨_,ports,rfl,by simpa using h.few,?_,h.canonical.symm⟩
  rw [forall₂_map_left_iff,forall₂_same]
  exact fun n hn => ⟨rfl,h.range n hn⟩

def CleanCidrs (j : Json) : Prop :=
  ∀ values, j = .list values → ∀ v ∈ values, ∀ w ∈ values, ∀ a b, entryNetwork v = some a →
    entryNetwork w = some b → sortKey a = sortKey b → a = b

/-- No entry of a list of hostnames ends in a line end once its dots are gone. -/
def CleanNames (j : Json) : Prop :=
  ∀ values, j = .list values → ∀ t, .str t ∈ values → endsPlain (canonicalHostname t)

theorem cleanCidrs_apart {values : List Json} {nets : List Network}
    (hf : List.Forall₂ (fun v n => entryNetwork v = some n ∧ n.prefixLen ≠ 0) values nets) :
    CleanCidrs (.list values) ↔ ZonesApart nets := by
  constructor
  · intro h a ha b hb hk
    obtain ⟨v,hv,hva,_⟩ := forall₂_mem hf.flip ha
    obtain ⟨w,hw,hwb,_⟩ := forall₂_mem hf.flip hb
    exact h values rfl v hv w hw a b hva hwb hk
  · intro h values' hv v hvm w hwm a b ha hb hk
    cases hv
    obtain ⟨n,hn,hvn,_⟩ := forall₂_mem hf hvm
    obtain ⟨m,hm,hwm,_⟩ := forall₂_mem hf hwm
    rw [hvn] at ha
    rw [hwm] at hb
    cases ha
    cases hb
    exact h _ hn _ hm hk

section Order
variable {order : List Network → List Network}

theorem entries_proper {values : List Json} {nets : List Network}
    (hf : List.Forall₂ (fun v n => entryNetwork v = some n ∧ n.prefixLen ≠ 0) values nets) :
    ∀ n ∈ nets, n.prefixLen ≠ 0 := fun n hn => by
  obtain ⟨_,_,_,hz⟩ := forall₂_mem hf.flip hn
  exact hz

variable {out : List Text}

theorem cidrs_again (ho : Iterates order) {field : String} {j : Json}
    (h : normalizeScopeCidrs order field j = .ok out) (hc : CleanCidrs j) :
    normalizeScopeCidrs order field (texts out) = .ok out := by
  obtain ⟨values,nets,rfl,hf,rfl⟩ := normalizeScopeCidrs_ok.mp h
  rw [texts,normalizeScopeCidrs_again ho (entries_proper hf),
    canonical_stable ho ((cleanCidrs_apart hf).mp hc)]

theorem cidrs_backwards {field : String} {j : Json}
    (h : normalizeScopeCidrs backwards field j = .ok out)
    (again : normalizeScopeCidrs backwards field (texts out) = .ok out) : CleanCidrs j := by
  obtain ⟨values,nets,rfl,hf,rfl⟩ := normalizeScopeCidrs_ok.mp h
  rw [texts,normalizeScopeCidrs_again backwards_iterates (entries_proper hf)] at again
  rw [cleanCidrs_apart hf]
  by_contra hz
  exact backwards_unstable hz (texts_injective (Except.ok.inj again))

theorem cidrs_any_order (order' : List Network → List Network) {field : String} {j : Json} (h : normalizeScopeCidrs order field j = .ok out) :
    ∃ out', normalizeScopeCidrs order' field j = .ok out' := by
  obtain ⟨values,nets,rfl,hf,_⟩ := normalizeScopeCidrs_ok.mp h
  exact ⟨_,normalizeScopeCidrs_ok.mpr ⟨values,nets,rfl,hf,rfl⟩⟩

theorem names_again {j : Json} (h : normalizeHostnames j = .ok out) :
    normalizeHostnames (texts out) = .ok out ↔ CleanNames j := by
  obtain ⟨values,names,rfl,hf,rfl⟩ := normalizeHostnames_ok.mp h
  have proper : ∀ n ∈ names, isHostname n = true := fun n hn => by
    obtain ⟨_,_,_,_,_,hh⟩ := forall₂_mem hf.flip hn
    exact hh
  rw [texts,normalizeHostnames_again proper]
  constructor
  · intro plain values' hv t ht
    cases hv
    obtain ⟨n,hn,t',htt,hc,_⟩ := forall₂_mem hf ht
    rw [Json.str.inj htt,hc]
    exact plain n hn
  · intro clean n hn
    obtain ⟨v,hv,t,rfl,rfl,_⟩ := forall₂_mem hf.flip hn
    exact clean values rfl t hv

end Order

end CircuitBreaker.CapabilityGrants
