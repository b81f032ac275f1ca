import CircuitBreaker.CapabilityGrants
import Mathlib.Algebra.Ring.Int.Defs

/-! The agent's side of a capability grant (internal/capability): the payload the server sends
is decoded into the snapshot the agent runs with, one capability apart from the other. -/

namespace CircuitBreaker.CapabilityGate
open IpText AgentScope CapabilityGrants List

structure HostConfig where
  intervalS : Int
  includeFilesystems : Bool
  includeDisks : Bool
  includeNetwork : Bool
  includeTemperatures : Bool
  includeVirtual : Bool
  includeDocker : Bool

def defaultHostConfig : HostConfig := ⟨30,true,true,true,true,false,false⟩

/-- `netscope.Config`. A nil slice and an empty one are told apart by nothing the agent does
with them: both are left out of the JSON and both list nothing. -/
structure ScopeConfig where
  scopeMode : Text
  additionalCidrs : List Text := []
  excludedCidrs : List Text := []
  additionalHostnames : List Text := []

structure RemoteProbeConfig where
  maxConcurrent : Int
  scope : ScopeConfig

def defaultRemoteProbeConfig : RemoteProbeConfig := ⟨20,{scopeMode := scopeModeDirectPrivate}⟩

structure LocalDiscoveryConfig where
  maxAddressesPerJob : Int
  maxConcurrentHosts : Int
  tcpPorts : List Int
  hostTimeoutMs : Int
  jobTimeoutSeconds : Int
  autoDiscoveryPaused : Bool
  scope : ScopeConfig

def defaultLocalDiscoveryConfig : LocalDiscoveryConfig :=
  ⟨1024,64,[22,53,80,443,445,3389,8000,8080,8443],1500,300,false,
    {scopeMode := scopeModeDirectPrivate}⟩

inductive ConfigError where
  | notAnObject (capability : String)
  | invalid (capability key : String)
  | outOfRange (capability key : String) (low high : Int)
  | scopeMode (capability : String) (mode : Text)
  | tooManyPorts
  | notAPort (port : Int)

/-! `json.Unmarshal` into a field: null leaves it as it is, and clears a slice. -/

def readInt (old : Int) : Json → Option Int
  | .null => some old
  | .int n => if -2^63 ≤ n ∧ n < 2^63 then some n else none
  | _ => none

def readBool (old : Bool) : Json → Option Bool
  | .null => some old
  | .bool b => some b
  | _ => none

def readText (old : Text) : Json → Option Text
  | .null => some old
  | .str s => some s
  | _ => none

def readTexts : Json → Option (List Text)
  | .null => some []
  | .list vs => vs.mapM (readText [])
  | _ => none

def readInts : Json → Option (List Int)
  | .null => some []
  | .list vs => vs.mapM (readInt 0)
  | _ => none

/-- `apply`: a setting that is not there keeps its default. -/
def apply {α : Type} (capability : String) (fields : Config) (key : String) (old : α)
    (read : Json → Option α) : Except ConfigError α :=
  match fields.get key with
  | none => .ok old
  | some v => match read v with
    | some a => .ok a
    | none => .error (.invalid capability key)

def fieldsOf (capability : String) : Option Json → Except ConfigError Config
  | none | some .null => .ok Dict.empty
  | some (.object fields) => .ok (Dict.ofPairs fields)
  | some _ => .error (.notAnObject capability)

def within (capability key : String) (low high value : Int) : Except ConfigError Unit :=
  if value < low ∨ high < value then .error (.outOfRange capability key low high) else .ok ()

def evaluable (capability : String) (mode : Text) : Except ConfigError Unit :=
  if mode = scopeModeDirectPrivate then .ok () else .error (.scopeMode capability mode)

section Fields
variable (capability : String) (fields : Config) (key : String)

def applyInt (old : Int) : Except ConfigError Int := apply capability fields key old (readInt old)
def applyBool (old : Bool) : Except ConfigError Bool := apply capability fields key old (readBool old)
def applyText (old : Text) : Except ConfigError Text := apply capability fields key old (readText old)

def applyTexts (old : List Text) : Except ConfigError (List Text) :=
  apply capability fields key old readTexts

def applyInts (old : List Int) : Except ConfigError (List Int) :=
  apply capability fields key old readInts

end Fields

def normalizeHostConfig (raw : Option Json) : Except ConfigError HostConfig := do
  let name := "host_telemetry"
  let cfg := defaultHostConfig
  let fields ← fieldsOf name raw
  let intervalS ← applyInt name fields "interval_s" cfg.intervalS
  let filesystems ← applyBool name fields "include_filesystems" cfg.includeFilesystems
  let disks ← applyBool name fields "include_disks" cfg.includeDisks
  let network ← applyBool name fields "include_network" cfg.includeNetwork
  let temperatures ← applyBool name fields "include_temperatures" cfg.includeTemperatures
  let virtual ← applyBool name fields "include_virtual" cfg.includeVirtual
  let docker ← applyBool name fields "include_docker" cfg.includeDocker
  within name "interval_s" 10 900 intervalS
  return ⟨intervalS,filesystems,disks,network,temperatures,virtual,docker⟩

def normalizeRemoteProbeConfig (raw : Option Json) : Except ConfigError RemoteProbeConfig := do
  let name := "remote_probe"
  let cfg := defaultRemoteProbeConfig
  let fields ← fieldsOf name raw
  let maxConcurrent ← applyInt name fields "max_concurrent" cfg.maxConcurrent
  let scopeMode ← applyText name fields "scope_mode" cfg.scope.scopeMode
  let additionalCidrs ← applyTexts name fields "additional_cidrs" cfg.scope.additionalCidrs
  let excludedCidrs ← applyTexts name fields "excluded_cidrs" cfg.scope.excludedCidrs
  let hostnames ← applyTexts name fields "additional_hostnames" cfg.scope.additionalHostnames
  within name "max_concurrent" 1 100 maxConcurrent
  evaluable name scopeMode
  return ⟨maxConcurrent,scopeMode,additionalCidrs,excludedCidrs,hostnames⟩

def sortedUniqueInts (values : List Int) : List Int := values.dedup.insertionSort (· ≤ ·)

def checkPorts (ports : List Int) : Except ConfigError Unit :=
  if 32 < ports.length then .error .tooManyPorts
  else match ports.find? fun port => port < 1 || 65535 < port with
    | some port => .error (.notAPort port)
    | none => .ok ()

def normalizeLocalDiscoveryConfig (raw : Option Json) :
    Except ConfigError LocalDiscoveryConfig := do
  let name := "local_discovery"
  let cfg := defaultLocalDiscoveryConfig
  let fields ← fieldsOf name raw
  let maxAddresses ← applyInt name fields "max_addresses_per_job" cfg.maxAddressesPerJob
  let maxHosts ← applyInt name fields "max_concurrent_hosts" cfg.maxConcurrentHosts
  let hostTimeout ← applyInt name fields "host_timeout_ms" cfg.hostTimeoutMs
  let jobTimeout ← applyInt name fields "job_timeout_seconds" cfg.jobTimeoutSeconds
  let paused ← applyBool name fields "auto_discovery_paused" cfg.autoDiscoveryPaused
  let scopeMode ← applyText name fields "scope_mode" cfg.scope.scopeMode
  let additionalCidrs ← applyTexts name fields "additional_cidrs" cfg.scope.additionalCidrs
  let excludedCidrs ← applyTexts name fields "excluded_cidrs" cfg.scope.excludedCidrs
  let ports ← applyInts name fields "tcp_ports" cfg.tcpPorts
  within name "max_addresses_per_job" 1 4096 maxAddresses
  within name "max_concurrent_hosts" 1 256 maxHosts
  within name "host_timeout_ms" 100 10000 hostTimeout
  within name "job_timeout_seconds" 30 1800 jobTimeout
  checkPorts ports
  evaluable name scopeMode
  return ⟨maxAddresses,maxHosts,sortedUniqueInts ports,hostTimeout,jobTimeout,paused,
    ⟨scopeMode,additionalCidrs,excludedCidrs,[]⟩⟩

/-! `json.Marshal` of a normalized config. -/

def HostConfig.json (cfg : HostConfig) : List (String × Json) := [
  ("interval_s",.int cfg.intervalS),
  ("include_filesystems",.bool cfg.includeFilesystems),
  ("include_disks",.bool cfg.includeDisks),
  ("include_network",.bool cfg.includeNetwork),
  ("include_temperatures",.bool cfg.includeTemperatures),
  ("include_virtual",.bool cfg.includeVirtual),
  ("include_docker",.bool cfg.includeDocker)]

/-- A list with `omitempty`. -/
def unlessEmpty (key : String) (l : List Text) : List (String × Json) :=
  if l = [] then [] else [(key,texts l)]

def ScopeConfig.json (cfg : ScopeConfig) : List (String × Json) :=
  (if cfg.scopeMode = [] then [] else [("scope_mode",.str cfg.scopeMode)]) ++
    (unlessEmpty "additional_cidrs" cfg.additionalCidrs ++
      (unlessEmpty "excluded_cidrs" cfg.excludedCidrs ++
        unlessEmpty "additional_hostnames" cfg.additionalHostnames))

def RemoteProbeConfig.json (cfg : RemoteProbeConfig) : List (String × Json) :=
  ("max_concurrent",.int cfg.maxConcurrent)::cfg.scope.json

def LocalDiscoveryConfig.json (cfg : LocalDiscoveryConfig) : List (String × Json) :=
  ("max_addresses_per_job",.int cfg.maxAddressesPerJob) ::
  ("max_concurrent_hosts",.int cfg.maxConcurrentHosts) ::
  ("tcp_ports",.list (cfg.tcpPorts.map .int)) ::
  ("host_timeout_ms",.int cfg.hostTimeoutMs) ::
  ("job_timeout_seconds",.int cfg.jobTimeoutSeconds) ::
  ("auto_discovery_paused",.bool cfg.autoDiscoveryPaused)::cfg.scope.json

/-- `configNormalizers`. -/
def configNormalizer : Capability → Option Json → Except ConfigError Json
  | .hostTelemetry,raw => (normalizeHostConfig raw).map fun cfg => .object cfg.json
  | .remoteProbe,raw => (normalizeRemoteProbeConfig raw).map fun cfg => .object cfg.json
  | .localDiscovery,raw => (normalizeLocalDiscoveryConfig raw).map fun cfg => .object cfg.json

/-! The settings an agent runs with, under the names the server gives them. -/

def HostConfig.effective (cfg : HostConfig) : Config where
  items := cfg.json
  nodup := hostTelemetryDefaultConfig.nodup

def RemoteProbeConfig.effective (cfg : RemoteProbeConfig) : Config where
  items := [ ("max_concurrent",.int cfg.maxConcurrent), ("scope_mode",.str cfg.scope.scopeMode),
    ("excluded_cidrs",texts cfg.scope.excludedCidrs),
    ("additional_cidrs",texts cfg.scope.additionalCidrs),
    ("additional_hostnames",texts cfg.scope.additionalHostnames)]
  nodup := remoteProbeDefaultConfig.nodup

def LocalDiscoveryConfig.effective (cfg : LocalDiscoveryConfig) : Config where
  items := [ ("scope_mode",.str cfg.scope.scopeMode),
    ("excluded_cidrs",texts cfg.scope.excludedCidrs),
    ("additional_cidrs",texts cfg.scope.additionalCidrs),
    ("max_addresses_per_job",.int cfg.maxAddressesPerJob),
    ("max_concurrent_hosts",.int cfg.maxConcurrentHosts),
    ("tcp_ports",.list (cfg.tcpPorts.map .int)),
    ("host_timeout_ms",.int cfg.hostTimeoutMs),
    ("job_timeout_seconds",.int cfg.jobTimeoutSeconds),
    ("auto_discovery_paused",.bool cfg.autoDiscoveryPaused)]
  nodup := localDiscoveryDefaultConfig.nodup

def effective (capability : Capability) (raw : Option Json) : Except ConfigError Config :=
  match capability with
  | .hostTelemetry => (normalizeHostConfig raw).map HostConfig.effective
  | .remoteProbe => (normalizeRemoteProbeConfig raw).map RemoteProbeConfig.effective
  | .localDiscovery => (normalizeLocalDiscoveryConfig raw).map LocalDiscoveryConfig.effective

/-! The grant payload. -/

structure Grant where
  enabled : Bool := false
  config : Option Json := none

abbrev Snapshot := Dict String Grant

structure GrantFault where
  capability : String
  reason : Option ConfigError

/-- A field name as `encoding/json` matches it. -/
def eqFold (a b : String) : Bool := a.toList.map Char.toLower = b.toList.map Char.toLower

/-- `json.Unmarshal` into a `Grant`, field by field in the order of the text. -/
def readGrant (fields : List (String × Json)) : Option Grant :=
  fields.foldlM (fun grant (key,value) =>
    if eqFold key "enabled" then
      (readBool grant.enabled value).map fun b => {grant with enabled := b}
    else if eqFold key "config" then some {grant with config := some value}
    else some grant) {}

def retainedConfig (capability : Capability) (previous : Snapshot) : Option Json :=
  let default := (configNormalizer capability none).toOption
  match (previous.get capability.name).bind Grant.config with
  | some old => match configNormalizer capability (some old) with
    | .ok cfg => some cfg
    | .error _ => default
  | none => default

/-- `normalize`: the bare boolean takes the capability's defaults. -/
def normalize (name : String) (enabled : Bool) : Grant :=
  match Capability.ofName name with
  | some capability => ⟨enabled,(configNormalizer capability none).toOption⟩
  | none => ⟨enabled,none⟩

def decodeGrant (previous : Snapshot) (name : String) (value : Json) : Grant × Option GrantFault :=
  match value with
  | .bool enabled => (normalize name enabled,none)
  | .null => (normalize name false,none)
  | .object fields =>
    match readGrant fields with
    | none => ({},some ⟨name,none⟩)
    | some grant =>
      match Capability.ofName name with
      | none => (grant,none)
      | some capability =>
        match configNormalizer capability grant.config with
        | .ok cfg => ({grant with config := some cfg},none)
        | .error e =>
          ({grant with config := retainedConfig capability previous},some ⟨name,some e⟩)
  | _ => ({},some ⟨name,none⟩)

/-- `decode` of a payload that is a grant map: one entry for each name, the last one sent. -/
def decode (payload : List (String × Json)) (previous : Snapshot) : Snapshot × List GrantFault :=
  let raw := (Dict.ofPairs payload).items
  (Dict.ofPairs (raw.map fun p => (p.1,(decodeGrant previous p.1 p.2).1)),
    (raw.filterMap fun p => (decodeGrant previous p.1 p.2).2).insertionSort
      fun a b => a.capability ≤ b.capability)

/-! Reading back what the server stores. -/

variable {key : String} {fields : Config} {l : List Text}

theorem within_ok {capability : String} {low high value : Int}
    (h : low ≤ value ∧ value ≤ high) : within capability key low high value = .ok () := by
  rw [within,if_neg (by omega)]

section Fields
variable {capability : String} {fields : Config} {key : String}

theorem applyInt_some {old n : Int} (h : fields.get key = some (.int n)) (hl : -2^63 ≤ n)
    (hu : n < 2^63) : applyInt capability fields key old = .ok n := by
  simp only [applyInt,apply,h,readInt,hl,hu,and_self,if_true]

theorem applyBool_some {old b : Bool} (h : fields.get key = some (.bool b)) :
    applyBool capability fields key old = .ok b := by
  simp only [applyBool,apply,h,readBool]

theorem applyText_some {old s : Text} (h : fields.get key = some (.str s)) :
    applyText capability fields key old = .ok s := by
  simp only [applyText,apply,h,readText]

def Lists (fields : Config) (key : String) (l : List Text) : Prop :=
  fields.get key = some (texts l) ∨ l = [] ∧ fields.get key = none

theorem readTexts_texts (l : List Text) : readTexts (texts l) = some l :=
  mapM_reads fun _ _ => rfl

theorem applyTexts_lists {l : List Text} (h : Lists fields key l) :
    applyTexts capability fields key [] = .ok l := by
  rcases h with h | ⟨rfl,h⟩
  · simp only [applyTexts,apply,h,readTexts_texts]
  · simp only [applyTexts,apply,h]

theorem applyInts_some {old l : List Int} (h : fields.get key = some (.list (l.map .int)))
    (hr : ∀ n ∈ l, 1 ≤ n ∧ n ≤ 65535) : applyInts capability fields key old = .ok l := by
  have read : readInts (.list (l.map .int)) = some l := mapM_reads fun n hn => by
    have bound := hr n hn
    rw [readInt,if_pos (by omega)]
  simp only [applyInts,apply,h,read]

end Fields

def hostConfigOf (s : HostSettings) : HostConfig :=
  ⟨s.intervalS,s.filesystems,s.disks,s.network,s.temperatures,s.virtual,s.docker⟩

theorem normalizeHostConfig_stored {s : HostSettings} (hv : s.Valid) :
    normalizeHostConfig (some (.object s.config.items)) = .ok (hostConfigOf s) := by
  have fields : fieldsOf "host_telemetry" (some (.object s.config.items)) = .ok s.config := by
    rw [fieldsOf,Dict.ofPairs_items]
  have bound := hv.interval
  rw [normalizeHostConfig,fields]
  simp only [bind,Except.bind]
  rw [applyInt_some (n := s.intervalS) rfl (by omega) (by omega),applyBool_some rfl,
    applyBool_some rfl,applyBool_some rfl,applyBool_some rfl,applyBool_some rfl,applyBool_some rfl]
  simp only [within_ok bound]
  rfl

def scopeConfigOf (additional excluded hostnames : List Text) : ScopeConfig :=
  ⟨scopeModeDirectPrivate,additional,excluded,hostnames⟩

def probeConfigOf (s : ProbeSettings) : RemoteProbeConfig :=
  ⟨s.maxConcurrent,scopeConfigOf s.additional s.excluded s.hostnames⟩

/-- Fields that say what a stored `remote_probe` config says. -/
structure ProbeFields (fields : Config) (s : ProbeSettings) : Prop where
  limit : fields.get "max_concurrent" = some (.int s.maxConcurrent)
  mode : fields.get "scope_mode" = some (.str scopeModeDirectPrivate)
  additional : Lists fields "additional_cidrs" s.additional
  excluded : Lists fields "excluded_cidrs" s.excluded
  hostnames : Lists fields "additional_hostnames" s.hostnames

theorem normalizeRemoteProbeConfig_reads {s : ProbeSettings} {pairs : List (String × Json)}
    (h : ProbeFields (Dict.ofPairs pairs) s) (bound : 1 ≤ s.maxConcurrent ∧ s.maxConcurrent ≤ 100) :
    normalizeRemoteProbeConfig (some (.object pairs)) = .ok (probeConfigOf s) := by
  rw [normalizeRemoteProbeConfig,fieldsOf]
  simp only [bind,Except.bind]
  rw [applyInt_some h.limit (by omega) (by omega),applyText_some h.mode]
  simp only [defaultRemoteProbeConfig]
  rw [applyTexts_lists h.additional,applyTexts_lists h.excluded,applyTexts_lists h.hostnames]
  simp only [within_ok bound,evaluable,if_true]
  rfl

theorem probeFields_config (s : ProbeSettings) : ProbeFields (Dict.ofPairs s.config.items) s := by
  rw [Dict.ofPairs_items]
  exact ⟨rfl,rfl,.inl rfl,.inl rfl,.inl rfl⟩

theorem filter_unlessEmpty (key k : String) (l : List Text) :
    (unlessEmpty key l).filter (fun p => p.1 = k) = if key = k then unlessEmpty key l else [] := by
  unfold unlessEmpty
  by_cases hl : l = [] <;> by_cases hk : key = k <;> simp [hl,hk]

theorem lists_unlessEmpty
    (h : fields.get key = (unlessEmpty key l).getLast?.map Prod.snd) : Lists fields key l := by
  unfold unlessEmpty at h
  split at h
  case isTrue hl =>
    exact .inr ⟨hl,h⟩
  case isFalse =>
    exact .inl h

theorem scope_json (additional excluded hostnames : List Text) :
    (scopeConfigOf additional excluded hostnames).json =
      ("scope_mode",.str scopeModeDirectPrivate)::(unlessEmpty "additional_cidrs" additional ++
        (unlessEmpty "excluded_cidrs" excluded++unlessEmpty "additional_hostnames" hostnames)) := by
  have mode : scopeModeDirectPrivate ≠ [] := by decide
  rw [ScopeConfig.json,scopeConfigOf,if_neg mode]
  rfl

theorem probeFields_json (s : ProbeSettings) :
    ProbeFields (Dict.ofPairs (probeConfigOf s).json) s := by
  have get : ∀ k, (Dict.ofPairs (probeConfigOf s).json).get k = _ := fun k =>
    Dict.get_ofPairs (probeConfigOf s).json k
  rw [RemoteProbeConfig.json,probeConfigOf,scope_json] at get
  refine ⟨?_,?_,lists_unlessEmpty ?_,lists_unlessEmpty ?_,lists_unlessEmpty ?_⟩
  all_goals
    rw [RemoteProbeConfig.json,probeConfigOf,scope_json,get]
    simp [filter_append,filter_unlessEmpty]

theorem keys_unlessEmpty {p : String × Json}
    (h : p ∈ unlessEmpty key l) : p.1 = key := by
  unfold unlessEmpty at h
  split at h
  · cases h
  · rw [mem_singleton.mp h]

theorem keys_ofPairs {pairs : List (String × Json)} {k : String}
    (h : k ∈ (Dict.ofPairs pairs).keys) : ∃ p ∈ pairs, p.1 = k := by
  obtain ⟨v,hv⟩ := Dict.mem_keys.mp h
  rw [Dict.get_ofPairs,Option.map_eq_some_iff] at hv
  obtain ⟨p,hp,_⟩ := hv
  have hm := mem_filter.mp (mem_of_mem_getLast? hp)
  exact ⟨p,hm.1,by simpa using hm.2⟩

theorem probe_known (s : ProbeSettings) :
    ∀ k ∈ (Dict.ofPairs (probeConfigOf s).json).keys, k ∈ remoteProbeDefaultConfig.keys := by
  have names : remoteProbeDefaultConfig.keys = ["max_concurrent","scope_mode","excluded_cidrs",
    "additional_cidrs","additional_hostnames"] := rfl
  intro k hk
  obtain ⟨p,hp,rfl⟩ := keys_ofPairs hk
  rw [RemoteProbeConfig.json,probeConfigOf,scope_json] at hp
  simp only [mem_cons,mem_append] at hp
  rw [names]
  obtain rfl | rfl | hp | hp | hp := hp
  · simp
  · simp
  all_goals
    rw [keys_unlessEmpty hp]
    simp

theorem Lists.or_default (h : Lists fields key l) :
    (fields.get key).or (some (.list [])) = some (texts l) := by
  rcases h with h | ⟨rfl,h⟩
  · rw [h]
    rfl
  · rw [h]
    rfl

theorem probe_merge {s : ProbeSettings} (h : ProbeFields fields s)
    (known : ∀ k ∈ fields.keys, k ∈ remoteProbeDefaultConfig.keys) :
    merge remoteProbeDefaultConfig fields = s.config := by
  have keys := merge_keys known
  refine Dict.ext_keys keys fun k hm => ?_
  rw [keys] at hm
  rw [merge_get]
  simp only [Dict.keys,remoteProbeDefaultConfig,map_cons,map_nil,mem_cons,
    not_mem_nil,or_false] at hm
  obtain rfl | rfl | rfl | rfl | rfl := hm
  · rw [h.limit]
    rfl
  · rw [h.mode]
    rfl
  · exact h.excluded.or_default
  · exact h.additional.or_default
  · exact h.hostnames.or_default

def discoveryConfigOf (s : DiscoverySettings) : LocalDiscoveryConfig :=
  ⟨s.maxAddressesPerJob,s.maxConcurrentHosts,s.tcpPorts,s.hostTimeoutMs,s.jobTimeoutSeconds,
    s.autoDiscoveryPaused,scopeConfigOf s.additional s.excluded []⟩

/-- Fields that say what a stored `local_discovery` config says. -/
structure DiscoveryFields (fields : Config) (s : DiscoverySettings) : Prop where
  addresses : fields.get "max_addresses_per_job" = some (.int s.maxAddressesPerJob)
  hosts : fields.get "max_concurrent_hosts" = some (.int s.maxConcurrentHosts)
  timeout : fields.get "host_timeout_ms" = some (.int s.hostTimeoutMs)
  job : fields.get "job_timeout_seconds" = some (.int s.jobTimeoutSeconds)
  paused : fields.get "auto_discovery_paused" = some (.bool s.autoDiscoveryPaused)
  mode : fields.get "scope_mode" = some (.str scopeModeDirectPrivate)
  additional : Lists fields "additional_cidrs" s.additional
  excluded : Lists fields "excluded_cidrs" s.excluded
  ports : fields.get "tcp_ports" = some (.list (s.tcpPorts.map .int))

/-- The bounds both sides put on a `local_discovery` config. -/
structure DiscoveryBounds (s : DiscoverySettings) : Prop where
  addresses : 1 ≤ s.maxAddressesPerJob ∧ s.maxAddressesPerJob ≤ 4096
  hosts : 1 ≤ s.maxConcurrentHosts ∧ s.maxConcurrentHosts ≤ 256
  timeout : 100 ≤ s.hostTimeoutMs ∧ s.hostTimeoutMs ≤ 10000
  job : 30 ≤ s.jobTimeoutSeconds ∧ s.jobTimeoutSeconds ≤ 1800
  ports : Ports s.tcpPorts

theorem checkPorts_ok {ports : List Int} (h : Ports ports) : checkPorts ports = .ok () := by
  have none : ports.find? (fun port => port < 1 || 65535 < port) = none := by
    rw [find?_eq_none]
    intro n hn
    have bound := h.range n hn
    simp only [Bool.or_eq_true,decide_eq_true_eq]
    omega
  have few := h.few
  rw [checkPorts,if_neg (by omega),none]

theorem normalizeLocalDiscoveryConfig_reads {s : DiscoverySettings}
    {pairs : List (String × Json)} (h : DiscoveryFields (Dict.ofPairs pairs) s)
    (b : DiscoveryBounds s) :
    normalizeLocalDiscoveryConfig (some (.object pairs)) = .ok (discoveryConfigOf s) := by
  have ha := b.addresses
  have hh := b.hosts
  have ht := b.timeout
  have hj := b.job
  rw [normalizeLocalDiscoveryConfig,fieldsOf]
  simp only [bind,Except.bind]
  rw [applyInt_some h.addresses (by omega) (by omega),applyInt_some h.hosts (by omega) (by omega),
    applyInt_some h.timeout (by omega) (by omega),applyInt_some h.job (by omega) (by omega),
    applyBool_some h.paused,applyText_some h.mode]
  simp only [defaultLocalDiscoveryConfig]
  rw [applyTexts_lists h.additional,applyTexts_lists h.excluded,applyInts_some h.ports b.ports.range]
  simp only [within_ok ha,within_ok hh,within_ok ht,within_ok hj,checkPorts_ok b.ports,evaluable,
    if_true,sortedUniqueInts,b.ports.canonical]
  rfl

theorem discoveryFields_config (s : DiscoverySettings) :
    DiscoveryFields (Dict.ofPairs s.config.items) s := by
  rw [Dict.ofPairs_items]
  exact ⟨rfl,rfl,rfl,rfl,rfl,rfl,.inl rfl,.inl rfl,rfl⟩

theorem discoveryFields_json (s : DiscoverySettings) :
    DiscoveryFields (Dict.ofPairs (discoveryConfigOf s).json) s := by
  have get : ∀ k, (Dict.ofPairs (discoveryConfigOf s).json).get k = _ := fun k =>
    Dict.get_ofPairs (discoveryConfigOf s).json k
  rw [LocalDiscoveryConfig.json,discoveryConfigOf,scope_json] at get
  refine ⟨?_,?_,?_,?_,?_,?_,lists_unlessEmpty ?_,lists_unlessEmpty ?_,?_⟩
  all_goals
    rw [LocalDiscoveryConfig.json,discoveryConfigOf,scope_json,get]
    simp [filter_append,filter_unlessEmpty]

theorem discovery_known (s : DiscoverySettings) :
    ∀ k ∈ (Dict.ofPairs (discoveryConfigOf s).json).keys, k ∈ localDiscoveryDefaultConfig.keys := by
  have names : localDiscoveryDefaultConfig.keys = ["scope_mode","excluded_cidrs",
    "additional_cidrs","max_addresses_per_job","max_concurrent_hosts","tcp_ports",
    "host_timeout_ms","job_timeout_seconds","auto_discovery_paused"] := rfl
  intro k hk
  obtain ⟨p,hp,rfl⟩ := keys_ofPairs hk
  rw [LocalDiscoveryConfig.json,discoveryConfigOf,scope_json] at hp
  simp only [mem_cons,mem_append] at hp
  rw [names]
  obtain rfl | rfl | rfl | rfl | rfl | rfl | rfl | hp | hp | hp := hp
  case inr.inr.inr.inr.inr.inr.inr.inl =>
    rw [keys_unlessEmpty hp]
    simp
  case inr.inr.inr.inr.inr.inr.inr.inr.inl =>
    rw [keys_unlessEmpty hp]
    simp
  case inr.inr.inr.inr.inr.inr.inr.inr.inr => cases hp
  all_goals simp

theorem discovery_merge {s : DiscoverySettings} (h : DiscoveryFields fields s)
    (known : ∀ k ∈ fields.keys, k ∈ localDiscoveryDefaultConfig.keys) :
    merge localDiscoveryDefaultConfig fields = s.config := by
  have keys := merge_keys known
  refine Dict.ext_keys keys fun k hm => ?_
  rw [keys] at hm
  rw [merge_get]
  simp only [Dict.keys,localDiscoveryDefaultConfig,map_cons,map_nil,mem_cons,
    not_mem_nil,or_false] at hm
  obtain rfl | rfl | rfl | rfl | rfl | rfl | rfl | rfl | rfl := hm
  · rw [h.mode]
    rfl
  · exact h.excluded.or_default
  · exact h.additional.or_default
  · rw [h.addresses]
    rfl
  · rw [h.hosts]
    rfl
  · rw [h.ports]
    rfl
  · rw [h.timeout]
    rfl
  · rw [h.job]
    rfl
  · rw [h.paused]
    rfl

/-! What reaches the snapshot. -/

theorem decode_get (payload : List (String × Json)) (previous : Snapshot) (name : String) :
    (decode payload previous).1.get name =
      ((Dict.ofPairs payload).get name).map fun v => (decodeGrant previous name v).1 := by
  have nodup : (((Dict.ofPairs payload).items.map fun p =>
      (p.1,(decodeGrant previous p.1 p.2).1)).map Prod.fst).Nodup := by
    rw [map_map]
    exact (Dict.ofPairs payload).nodup
  apply Option.ext
  intro g
  rw [decode,Dict.get_ofPairs_iff nodup,Option.map_eq_some_iff]
  simp only [mem_map,Prod.mk.injEq,Prod.exists,Dict.get_eq_some_iff]
  constructor
  · rintro ⟨_,v,hm,rfl,hg⟩
    exact ⟨v,hm,hg⟩
  · rintro ⟨v,hm,hg⟩
    exact ⟨name,v,hm,rfl,hg⟩

theorem decodeGrant_fault {previous : Snapshot} {name : String} {value : Json} {f : GrantFault}
    (h : (decodeGrant previous name value).2 = some f) : f.capability = name := by
  unfold decodeGrant at h
  split at h
  · cases h
  · cases h
  · split at h
    · cases h
      rfl
    · split at h
      · cases h
      · split at h <;> cases h
        rfl
  · cases h
    rfl

theorem readGrant_structured (enabled : Bool) (config : Json) :
    readGrant [("enabled",.bool enabled),("config",config)] = some ⟨enabled,some config⟩ := by
  have h1 : eqFold "enabled" "enabled" = true := by decide
  have h2 : eqFold "config" "enabled" = false := by decide
  have h3 : eqFold "config" "config" = true := by decide
  simp [readGrant,h1,h2,h3,readBool]

theorem decodeGrant_structured {previous : Snapshot} {capability : Capability} {enabled : Bool}
    {stored : Config} {raw : Json}
    (h : configNormalizer capability
      (some (.object (merge capability.defaultConfig stored).items)) = .ok raw) :
    decodeGrant previous capability.name (structuredGrant capability enabled stored) =
      (⟨enabled,some raw⟩,none) := by
  simp only [decodeGrant,structuredGrant,readGrant_structured,ofName_name,h]

/-- The two ends agree on a grant row: the agent takes it without a fault, runs with the
settings the server sends, and what it keeps goes unchanged through either normalizer. -/
def Agrees (order : List Network → List Network) (capability : Capability) (enabled : Bool)
    (stored : Config) : Prop :=
  ∀ payload previous, (Dict.ofPairs payload).get capability.name =
      some (structuredGrant capability enabled stored) →
    (∀ f ∈ (decode payload previous).2, f.capability ≠ capability.name) ∧
    ∃ fields, (decode payload previous).1.get capability.name =
        some ⟨enabled,some (.object fields)⟩ ∧
      effective capability (some (.object fields)) = .ok (merge capability.defaultConfig stored) ∧
      configNormalizer capability (some (.object fields)) = .ok (.object fields) ∧
      capability.normalize order (Dict.ofPairs fields) = .ok (merge capability.defaultConfig stored)

theorem agrees_iff {order : List Network → List Network} {capability : Capability} {enabled : Bool}
    {stored : Config} (fields : List (String × Json))
    (read : configNormalizer capability
      (some (.object (merge capability.defaultConfig stored).items)) = .ok (.object fields))
    (runs : effective capability (some (.object fields)) =
      .ok (merge capability.defaultConfig stored))
    (again : configNormalizer capability (some (.object fields)) = .ok (.object fields)) :
    Agrees order capability enabled stored ↔ capability.normalize order (Dict.ofPairs fields) =
      .ok (merge capability.defaultConfig stored) := by
  have got : ∀ payload previous, (Dict.ofPairs payload).get capability.name =
      some (structuredGrant capability enabled stored) →
      (decode payload previous).1.get capability.name = some ⟨enabled,some (.object fields)⟩ := by
    intro payload previous hp
    rw [decode_get,hp,Option.map_some,decodeGrant_structured read]
  constructor
  · intro h
    let payload := [(capability.name,structuredGrant capability enabled stored)]
    have hp : (Dict.ofPairs payload).get capability.name =
        some (structuredGrant capability enabled stored) := by
      rw [Dict.get_ofPairs]
      simp [payload]
    obtain ⟨_,fields',hd,_,_,hn⟩ := h payload Dict.empty hp
    rw [got payload Dict.empty hp] at hd
    cases hd
    exact hn
  · intro hn payload previous hp
    refine ⟨fun f hf hc => ?_,fields,got payload previous hp,runs,again,hn⟩
    rw [decode,mem_insertionSort,mem_filterMap] at hf
    obtain ⟨⟨name,value⟩,hm,hf⟩ := hf
    have hname : name = capability.name := (decodeGrant_fault hf).symm.trans hc
    subst hname
    have hv := Dict.get_eq_some_iff.mpr hm
    rw [hp] at hv
    cases hv
    rw [decodeGrant_structured read] at hf
    cases hf

section Rows
variable {order : List Network → List Network} {enabled : Bool} {stored : Config}

theorem host_self (s : HostSettings) : merge hostTelemetryDefaultConfig s.config = s.config := by
  have keys : (merge hostTelemetryDefaultConfig s.config).keys = hostTelemetryDefaultConfig.keys :=
    merge_keys fun k hk => hk
  refine Dict.ext_keys keys fun k hk => ?_
  rw [keys] at hk
  obtain ⟨v,hg⟩ := Dict.mem_keys.mp (show k ∈ s.config.keys from hk)
  rw [merge_get,hg]
  rfl

theorem host_agrees {s : HostSettings} (sent : merge hostTelemetryDefaultConfig stored = s.config)
    (hv : s.Valid) : Agrees order .hostTelemetry enabled stored := by
  have known : ∀ k ∈ s.config.keys, k ∈ hostTelemetryDefaultConfig.keys := fun k hk => hk
  have sent' : merge Capability.hostTelemetry.defaultConfig stored = s.config := sent
  refine (agrees_iff s.config.items ?_ ?_ ?_).mpr ?_
  · rw [sent',configNormalizer,normalizeHostConfig_stored hv]
    rfl
  · rw [sent',effective,normalizeHostConfig_stored hv]
    rfl
  · rw [configNormalizer,normalizeHostConfig_stored hv]
    rfl
  · rw [sent',Dict.ofPairs_items]
    change normalizeHostTelemetryConfig s.config = _
    rw [normalizeHostTelemetryConfig,then_ok,rejectUnknown_ok,host_self,
      checkHostTelemetry_ok (m := s.config) rfl]
    exact ⟨known,rfl,s,hv,rfl⟩

theorem probe_agrees {s : ProbeSettings} (sent : merge remoteProbeDefaultConfig stored = s.config)
    (bound : 1 ≤ s.maxConcurrent ∧ s.maxConcurrent ≤ 100) :
    Agrees order .remoteProbe enabled stored ↔ checkRemoteProbe order s.config = .ok s.config := by
  have sent' : merge Capability.remoteProbe.defaultConfig stored = s.config := sent
  have read := normalizeRemoteProbeConfig_reads (probeFields_json s) bound
  rw [agrees_iff (probeConfigOf s).json,sent']
  · change CapabilityGrants.normalizeRemoteProbeConfig order _ = _ ↔ _
    rw [CapabilityGrants.normalizeRemoteProbeConfig,then_ok,rejectUnknown_ok,
      probe_merge (probeFields_json s) (probe_known s)]
    exact and_iff_right (probe_known s)
  · rw [sent',configNormalizer,normalizeRemoteProbeConfig_reads (probeFields_config s) bound]
    rfl
  · rw [sent',effective,read]
    rfl
  · rw [configNormalizer,read]
    rfl

theorem discovery_agrees {s : DiscoverySettings}
    (sent : merge localDiscoveryDefaultConfig stored = s.config) (bounds : DiscoveryBounds s) :
    Agrees order .localDiscovery enabled stored ↔
      checkLocalDiscovery order s.config = .ok s.config := by
  have sent' : merge Capability.localDiscovery.defaultConfig stored = s.config := sent
  have read := normalizeLocalDiscoveryConfig_reads (discoveryFields_json s) bounds
  rw [agrees_iff (discoveryConfigOf s).json,sent']
  · change CapabilityGrants.normalizeLocalDiscoveryConfig order _ = _ ↔ _
    rw [CapabilityGrants.normalizeLocalDiscoveryConfig,then_ok,rejectUnknown_ok,
      discovery_merge (discoveryFields_json s) (discovery_known s)]
    exact and_iff_right (discovery_known s)
  · rw [sent',configNormalizer,normalizeLocalDiscoveryConfig_reads (discoveryFields_config s) bounds]
    rfl
  · rw [sent',effective,read]
    rfl
  · rw [configNormalizer,read]
    rfl

end Rows

/-- What an update asks for: the defaults, under the stored config, under what is supplied. -/
def requested (capability : Capability) (current : Config) (value : Json) : Config :=
  merge (merge capability.defaultConfig current)
    (match grantParts value with
      | .ok (_,supplied) => supplied
      | .error _ => Dict.empty)

/-- The lists of a requested config that a second pass of the normalizer would leave alone. -/
def Clean : Capability → Config → Prop
  | .hostTelemetry,_ => True
  | .remoteProbe,m => CleanCidrs (setting m "excluded_cidrs") ∧
      CleanCidrs (setting m "additional_cidrs") ∧ CleanNames (setting m "additional_hostnames")
  | .localDiscovery,m => CleanCidrs (setting m "excluded_cidrs") ∧
      CleanCidrs (setting m "additional_cidrs")

section Updates
variable {order : List Network → List Network} (capability : Capability) {value : Json}
  {current config : Config} {enabled : Bool}

theorem normalizeGrant_ok : normalizeGrant order capability.name value current =
    .ok (enabled,config) ↔ ∃ supplied, grantParts value = .ok (enabled,supplied) ∧
      capability.normalize order (requested capability current value) = .ok config := by
  simp only [normalizeGrant,ofName_name,bind_ok,requested]
  constructor
  · rintro ⟨⟨e,supplied⟩,hp,c,hn,h⟩
    cases h
    rw [hp]
    exact ⟨supplied,rfl,hn⟩
  · rintro ⟨supplied,hp,hn⟩
    rw [hp] at hn
    exact ⟨(enabled,supplied),hp,config,hn,rfl⟩

theorem merge_requested (capability : Capability) (current : Config) (value : Json) (k : String) :
    setting (merge capability.defaultConfig (requested capability current value)) k =
      setting (requested capability current value) k := by
  rw [setting,setting,merge_get,requested,merge_get,merge_get]
  cases Dict.get capability.defaultConfig k with
  | none => simp
  | some d => simp

end Updates

theorem probeSettings_injective {s s' : ProbeSettings} (h : s.config = s'.config) : s = s' := by
  have items := congrArg Dict.items h
  simp only [ProbeSettings.config,texts,List.cons.injEq,Prod.mk.injEq,Json.int.injEq,
    Json.list.injEq,true_and,and_true] at items
  have inj : Function.Injective (List.map Json.str) :=
    map_injective_iff.mpr fun _ _ => Json.str.inj
  obtain ⟨n,e,a,n'⟩ := s
  obtain ⟨hn,he,ha,hh⟩ := items
  rw [ProbeSettings.mk.injEq]
  exact ⟨hn,inj he,inj ha,inj hh⟩

theorem discoverySettings_injective {s s' : DiscoverySettings} (h : s.config = s'.config) :
    s = s' := by
  have items := congrArg Dict.items h
  simp only [DiscoverySettings.config,texts,List.cons.injEq,Prod.mk.injEq,Json.int.injEq,
    Json.list.injEq,Json.bool.injEq,true_and,and_true] at items
  have inj : Function.Injective (List.map Json.str) :=
    map_injective_iff.mpr fun _ _ => Json.str.inj
  have ints : Function.Injective (List.map Json.int) :=
    map_injective_iff.mpr fun _ _ => Json.int.inj
  obtain ⟨e,a,n,c,p,t,j,b⟩ := s
  obtain ⟨he,ha,hn,hc,hp,ht,hj,hb⟩ := items
  rw [DiscoverySettings.mk.injEq]
  exact ⟨inj he,inj ha,hn,hc,ints hp,ht,hj,hb⟩

section Again
variable {order : List Network → List Network}

theorem probe_again {s : ProbeSettings} :
    checkRemoteProbe order s.config = .ok s.config ↔ s.Stores order s.config := by
  rw [checkRemoteProbe_ok (m := s.config) rfl]
  constructor
  · rintro ⟨s',hs,he⟩
    have same := probeSettings_injective he
    subst same
    exact hs
  · exact fun hs => ⟨s,hs,rfl⟩

variable {s : DiscoverySettings} {m : Config}

theorem discovery_again :
    checkLocalDiscovery order s.config = .ok s.config ↔ s.Stores order s.config := by
  rw [checkLocalDiscovery_ok (m := s.config) rfl]
  constructor
  · rintro ⟨s',hs,he⟩
    have same := discoverySettings_injective he
    subst same
    exact hs
  · exact fun hs => ⟨s,hs,rfl⟩

theorem probe_self (s : ProbeSettings) : merge remoteProbeDefaultConfig s.config = s.config := by
  have fields := probeFields_config s
  rw [Dict.ofPairs_items] at fields
  exact probe_merge fields fun k hk => hk

theorem discovery_self (s : DiscoverySettings) :
    merge localDiscoveryDefaultConfig s.config = s.config := by
  have fields := discoveryFields_config s
  rw [Dict.ofPairs_items] at fields
  exact discovery_merge fields fun k hk => hk

theorem DiscoverySettings.bounds (h : s.Stores order m) :
    DiscoveryBounds s :=
  ⟨h.addressBound,h.hostBound,h.timeoutBound,h.jobBound,normalizePorts_ports h.ports⟩

theorem probe_stored {c : Config}
    (h : CapabilityGrants.normalizeRemoteProbeConfig order m = .ok c) :
    ∃ s : ProbeSettings, s.Stores order (merge remoteProbeDefaultConfig m) ∧ c = s.config ∧
      ∀ k ∈ m.keys, k ∈ remoteProbeDefaultConfig.keys := by
  rw [CapabilityGrants.normalizeRemoteProbeConfig,then_ok,rejectUnknown_ok] at h
  obtain ⟨known,h⟩ := h
  obtain ⟨s,hs,hc⟩ := (checkRemoteProbe_ok (merge_keys known)).mp h
  exact ⟨s,hs,hc,known⟩

theorem discovery_stored {c : Config}
    (h : CapabilityGrants.normalizeLocalDiscoveryConfig order m = .ok c) :
    ∃ s : DiscoverySettings, s.Stores order (merge localDiscoveryDefaultConfig m) ∧
      c = s.config ∧ ∀ k ∈ m.keys, k ∈ localDiscoveryDefaultConfig.keys := by
  rw [CapabilityGrants.normalizeLocalDiscoveryConfig,then_ok,rejectUnknown_ok] at h
  obtain ⟨known,h⟩ := h
  obtain ⟨s,hs,hc⟩ := (checkLocalDiscovery_ok (merge_keys known)).mp h
  exact ⟨s,hs,hc,known⟩

theorem probe_clean_again (ho : Iterates order) {s : ProbeSettings}
    (hs : s.Stores order m) (he : CleanCidrs (setting m "excluded_cidrs"))
    (ha : CleanCidrs (setting m "additional_cidrs"))
    (hn : CleanNames (setting m "additional_hostnames")) : s.Stores order s.config :=
  ⟨rfl,hs.bound,rfl,cidrs_again ho hs.excluded he,cidrs_again ho hs.additional ha,
    (names_again hs.hostnames).mpr hn⟩

theorem discovery_clean_again (ho : Iterates order)
    (hs : s.Stores order m) (he : CleanCidrs (setting m "excluded_cidrs"))
    (ha : CleanCidrs (setting m "additional_cidrs")) : s.Stores order s.config :=
  ⟨rfl,hs.addressBound,rfl,hs.hostBound,rfl,hs.timeoutBound,rfl,hs.jobBound,rfl,
    (normalizePorts_ports hs.ports).again,rfl,cidrs_again ho hs.excluded he,
    cidrs_again ho hs.additional ha⟩

end Again

section Updates
variable {order : List Network → List Network} {value : Json} {current config : Config}
  {enabled : Bool}

theorem probe_update_agrees_iff
    (accepted : normalizeGrant order "remote_probe" value current = .ok (enabled,config)) :
    (∀ order, Iterates order → ∀ config,
      normalizeGrant order "remote_probe" value current = .ok (enabled,config) →
        Agrees order .remoteProbe enabled config) ↔
      Clean .remoteProbe (requested .remoteProbe current value) := by
  have same := merge_requested .remoteProbe current value
  obtain ⟨supplied,hp,hn⟩ := (normalizeGrant_ok .remoteProbe).mp accepted
  obtain ⟨s,hs,rfl,known⟩ := probe_stored hn
  constructor
  · intro h
    -- walked backwards, a set of networks shows every pair of zones
    obtain ⟨e,he⟩ := cidrs_any_order backwards hs.excluded
    obtain ⟨a,ha⟩ := cidrs_any_order backwards hs.additional
    let s' : ProbeSettings := ⟨s.maxConcurrent,e,a,s.hostnames⟩
    have hs' : s'.Stores backwards _ := ⟨hs.limit,hs.bound,hs.mode,he,ha,hs.hostnames⟩
    have stored : normalizeGrant backwards "remote_probe" value current = .ok (enabled,s'.config) := by
      refine (normalizeGrant_ok .remoteProbe).mpr ⟨supplied,hp,?_⟩
      change CapabilityGrants.normalizeRemoteProbeConfig backwards _ = _
      rw [CapabilityGrants.normalizeRemoteProbeConfig,then_ok,rejectUnknown_ok]
      exact ⟨known,(checkRemoteProbe_ok (merge_keys known)).mpr ⟨s',hs',rfl⟩⟩
    have agrees := h backwards backwards_iterates _ stored
    have again := probe_again.mp ((probe_agrees (probe_self s') hs'.bound).mp agrees)
    refine ⟨?_,?_,?_⟩
    · rw [←same]
      exact cidrs_backwards he again.excluded
    · rw [←same]
      exact cidrs_backwards ha again.additional
    · rw [←same]
      exact (names_again hs.hostnames).mp again.hostnames
  · rintro ⟨he,ha,hh⟩ order ho config h
    obtain ⟨_,_,hn⟩ := (normalizeGrant_ok .remoteProbe).mp h
    obtain ⟨s,hs,rfl,_⟩ := probe_stored hn
    rw [←same] at he ha hh
    exact (probe_agrees (probe_self s) hs.bound).mpr
      (probe_again.mpr (probe_clean_again ho hs he ha hh))

theorem discovery_update_agrees_iff
    (accepted : normalizeGrant order "local_discovery" value current = .ok (enabled,config)) :
    (∀ order, Iterates order → ∀ config,
      normalizeGrant order "local_discovery" value current = .ok (enabled,config) →
        Agrees order .localDiscovery enabled config) ↔
      Clean .localDiscovery (requested .localDiscovery current value) := by
  have same := merge_requested .localDiscovery current value
  obtain ⟨supplied,hp,hn⟩ := (normalizeGrant_ok .localDiscovery).mp accepted
  obtain ⟨s,hs,rfl,known⟩ := discovery_stored hn
  constructor
  · intro h
    obtain ⟨e,he⟩ := cidrs_any_order backwards hs.excluded
    obtain ⟨a,ha⟩ := cidrs_any_order backwards hs.additional
    let s' : DiscoverySettings := {s with excluded := e, additional := a}
    have hs' : s'.Stores backwards _ := {hs with excluded := he, additional := ha}
    have stored :
        normalizeGrant backwards "local_discovery" value current = .ok (enabled,s'.config) := by
      refine (normalizeGrant_ok .localDiscovery).mpr ⟨supplied,hp,?_⟩
      change CapabilityGrants.normalizeLocalDiscoveryConfig backwards _ = _
      rw [CapabilityGrants.normalizeLocalDiscoveryConfig,then_ok,rejectUnknown_ok]
      exact ⟨known,(checkLocalDiscovery_ok (merge_keys known)).mpr ⟨s',hs',rfl⟩⟩
    have agrees := h backwards backwards_iterates _ stored
    have again := discovery_again.mp
      ((discovery_agrees (discovery_self s') (DiscoverySettings.bounds hs')).mp agrees)
    refine ⟨?_,?_⟩
    · rw [←same]
      exact cidrs_backwards he again.excluded
    · rw [←same]
      exact cidrs_backwards ha again.additional
  · rintro ⟨he,ha⟩ order ho config h
    obtain ⟨_,_,hn⟩ := (normalizeGrant_ok .localDiscovery).mp h
    obtain ⟨s,hs,rfl,_⟩ := discovery_stored hn
    rw [←same] at he ha
    exact (discovery_agrees (discovery_self s) (DiscoverySettings.bounds hs)).mpr
      (discovery_again.mpr (discovery_clean_again ho hs he ha))

theorem host_update_agrees
    (accepted : normalizeGrant order "host_telemetry" value current = .ok (enabled,config)) :
    Agrees order .hostTelemetry enabled config := by
  obtain ⟨_,_,hn⟩ := (normalizeGrant_ok .hostTelemetry).mp accepted
  change normalizeHostTelemetryConfig _ = _ at hn
  rw [normalizeHostTelemetryConfig,then_ok,rejectUnknown_ok] at hn
  obtain ⟨known,hn⟩ := hn
  obtain ⟨rfl,s,hv,hc⟩ := (checkHostTelemetry_ok (merge_keys known)).mp hn
  refine host_agrees (s := s) ?_ hv
  rw [hc]
  exact host_self s

end Updates

/-! Rows that were never configured. -/

def defaultProbe : ProbeSettings := ⟨20,[],[],[]⟩

def defaultDiscovery : DiscoverySettings where
  excluded := []
  additional := []
  maxAddressesPerJob := 1024
  maxConcurrentHosts := 64
  tcpPorts := [22,53,80,443,445,3389,8000,8080,8443]
  hostTimeoutMs := 1500
  jobTimeoutSeconds := 300
  autoDiscoveryPaused := false

def defaultHost : HostSettings := ⟨30,true,true,true,true,false,false⟩

theorem merge_empty (defaults : Config) : merge defaults Dict.empty = defaults := rfl

section Defaults
variable {order : List Network → List Network}

theorem cidrs_empty (ho : Iterates order) (field : String) :
    normalizeScopeCidrs order field (.list []) = .ok [] := by
  refine normalizeScopeCidrs_ok.mpr ⟨[],[],rfl,.nil,?_⟩
  have none_left : canonicalNetworks order [] = [] :=
    eq_nil_iff_forall_not_mem.mpr fun n hn => by
      rw [mem_canonical ho] at hn
      cases hn
  rw [none_left]
  rfl

theorem names_empty : normalizeHostnames (.list []) = .ok [] :=
  normalizeHostnames_ok.mpr ⟨[],[],rfl,.nil,rfl⟩

theorem defaultProbe_stores (ho : Iterates order) : defaultProbe.Stores order defaultProbe.config :=
  ⟨rfl,by decide,rfl,cidrs_empty ho _,cidrs_empty ho _,names_empty⟩

theorem defaultDiscovery_stores (ho : Iterates order) :
    defaultDiscovery.Stores order defaultDiscovery.config :=
  ⟨rfl,by decide,rfl,by decide,rfl,by decide,rfl,by decide,rfl,by decide,rfl,
    cidrs_empty ho _,cidrs_empty ho _⟩

theorem unconfigured_agrees (ho : Iterates order) (capability : Capability) (enabled : Bool) :
    Agrees order capability enabled Dict.empty := by
  cases capability with
  | hostTelemetry => exact host_agrees (s := defaultHost) (merge_empty _) ⟨by decide⟩
  | remoteProbe =>
    have stores := defaultProbe_stores ho
    exact (probe_agrees (s := defaultProbe) (merge_empty _) stores.bound).mpr (probe_again.mpr stores)
  | localDiscovery =>
    have stores := defaultDiscovery_stores ho
    exact (discovery_agrees (s := defaultDiscovery) (merge_empty _)
      (DiscoverySettings.bounds stores)).mpr (discovery_again.mpr stores)

end Defaults

/-- Whatever a set of networks is walked like, an update that is accepted leaves a row both ends
agree on exactly when its lists are clean; a row without settings is always agreed on. -/
theorem grants_agree_iff {order : List Network → List Network} {capability : Capability}
    {value : Json} {current config : Config} {enabled : Bool}
    (accepted : normalizeGrant order capability.name value current = .ok (enabled,config)) :
    ((∀ order, Iterates order → ∀ config,
      normalizeGrant order capability.name value current = .ok (enabled,config) →
        Agrees order capability enabled config) ↔
      Clean capability (requested capability current value)) ∧
    ∀ order, Iterates order → ∀ enabled, Agrees order capability enabled Dict.empty := by
  refine ⟨?_,fun order ho enabled => unconfigured_agrees ho capability enabled⟩
  cases capability with
  | hostTelemetry =>
    constructor
    · exact fun _ => trivial
    · exact fun _ order _ config h => host_update_agrees h
  | remoteProbe => exact probe_update_agrees_iff accepted
  | localDiscovery => exact discovery_update_agrees_iff accepted

theorem grants_agree_enabled : normalizeGrant backwards "remote_probe" (.bool true) Dict.empty =
      .ok (true,remoteProbeDefaultConfig) ∧
    ((∀ order, Iterates order → ∀ config,
      normalizeGrant order "remote_probe" (.bool true) Dict.empty = .ok (true,config) →
        Agrees order .remoteProbe true config) ↔
      Clean .remoteProbe (requested .remoteProbe Dict.empty (.bool true))) ∧
    ∀ order, Iterates order → ∀ enabled, Agrees order .remoteProbe enabled Dict.empty := by
  have accepted : normalizeGrant backwards Capability.remoteProbe.name (.bool true) Dict.empty =
      .ok (true,remoteProbeDefaultConfig) := by
    refine (normalizeGrant_ok .remoteProbe).mpr ⟨Dict.empty,rfl,?_⟩
    change CapabilityGrants.normalizeRemoteProbeConfig backwards remoteProbeDefaultConfig = _
    rw [CapabilityGrants.normalizeRemoteProbeConfig,then_ok,rejectUnknown_ok]
    exact ⟨fun k hk => hk,probe_again.mpr (defaultProbe_stores backwards_iterates)⟩
  exact ⟨accepted,grants_agree_iff accepted⟩

/-- A name whose line end hides behind a dot is stored with it, and loses it when it comes back. -/
def lineEndName : Json :=
  .object [("enabled",.bool true),("config",.object [("additional_hostnames",
    .list [.str ['a','\n','.']])])]

theorem line_end_disagrees : ∃ order, Iterates order ∧ ∃ config,
    normalizeGrant order "remote_probe" lineEndName Dict.empty = .ok (true,config) ∧
      ¬ Agrees order .remoteProbe true config := by
  let s : ProbeSettings := ⟨20,[],[],[['a','\n']]⟩
  have merged : merge remoteProbeDefaultConfig (requested .remoteProbe Dict.empty lineEndName) =
      (⟨20,[],[],[['a','\n','.']]⟩ : ProbeSettings).config := rfl
  have names : normalizeHostnames (texts [['a','\n','.']]) = .ok [['a','\n']] := by decide
  have stores : s.Stores backwards
      (merge remoteProbeDefaultConfig (requested .remoteProbe Dict.empty lineEndName)) := by
    rw [merged]
    exact ⟨rfl,by decide,rfl,cidrs_empty backwards_iterates _,cidrs_empty backwards_iterates _,
      names⟩
  refine ⟨backwards,backwards_iterates,s.config,?_,?_⟩
  · refine (normalizeGrant_ok .remoteProbe).mpr ⟨_,rfl,?_⟩
    change CapabilityGrants.normalizeRemoteProbeConfig backwards _ = _
    rw [CapabilityGrants.normalizeRemoteProbeConfig,then_ok,rejectUnknown_ok]
    have known : ∀ k ∈ (requested .remoteProbe Dict.empty lineEndName).keys,
        k ∈ remoteProbeDefaultConfig.keys := fun k hk => hk
    exact ⟨known,(checkRemoteProbe_ok (merge_keys known)).mpr ⟨s,stores,rfl⟩⟩
  · intro agrees
    have again := probe_again.mp ((probe_agrees (probe_self s) stores.bound).mp agrees)
    have shorter : normalizeHostnames (texts [['a','\n']]) = .ok [['a']] := by decide
    have kept : normalizeHostnames (texts [['a','\n']]) = .ok [['a','\n']] := again.hostnames
    rw [shorter] at kept
    cases kept

end CircuitBreaker.CapabilityGate
