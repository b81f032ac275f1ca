import CircuitBreaker.CapabilityGate

/-! The agent's cache of its grants (internal/capability): each payload of the server is decoded
over the snapshot before it, installed and stored in grants.json, and a restarted agent decodes
what was stored. -/

namespace CircuitBreaker.GrantCache
open CapabilityGate CapabilityGrants AgentScope IpText List

/-- A `Gate` with its grants.json. -/
structure Gate where
  grants : Snapshot := Dict.empty
  file : Option (List (String × Json)) := none

def grantMap : Json → Option (List (String × Json))
  | .object fields => some fields
  | .null => some []
  | _ => none

def grantJson (g : Grant) : Json :=
  .object (("enabled",.bool g.enabled)::(g.config.map fun config => ("config",config)).toList)

/-- `json.Marshal` of a snapshot. -/
def marshal (grants : Snapshot) : List (String × Json) :=
  (grants.items.map fun p => (p.1,grantJson p.2)).insertionSort fun a b => a.1 ≤ b.1

/-- `ApplyGrants`, with the faults it returns unless it returns an error. There is no payload
where it is no JSON; `stored` says whether the file could be replaced. -/
def applyGrants (g : Gate) (payload : Option Json) (stored : Bool) : Gate × Option (List GrantFault) :=
  match payload.bind grantMap with
  | none => (g,none)
  | some fields =>
    let decoded := decode fields g.grants
    if stored then (⟨decoded.1,some (marshal decoded.1)⟩,some decoded.2) else (g,none)

/-- `LoadCached` of a new `Gate`. -/
def loadCached (file : Option (List (String × Json))) : Gate × List GrantFault :=
  match file with
  | none => ({},[])
  | some fields =>
    let decoded := decode fields Dict.empty
    (⟨decoded.1,file⟩,decoded.2)

inductive Act where
  | apply (payload : Option Json) (stored : Bool)
  | restart

def Gate.step (g : Gate) : Act → Gate
  | .apply payload stored => (applyGrants g payload stored).1
  | .restart => (loadCached g.file).1

def run (acts : List Act) : Gate := acts.foldl Gate.step {}

/-! What the agent asks the gate. -/

def Gate.allowed (g : Gate) (name : String) : Bool := (g.grants.get name).any Grant.enabled

/-- `json.Unmarshal` into a struct. -/
def unmarshal {α : Type} (field : α → String → Json → Option α) (cfg : α) : Json → Option α
  | .object fields => fields.foldlM (fun cfg p => field cfg p.1 p.2) cfg
  | .null => some cfg
  | _ => none

/-- The stored config over the default, or the default where it does not decode; none without an
enabled grant. -/
def Gate.config {α : Type} (g : Gate) (capability : Capability) (default : α)
    (field : α → String → Json → Option α) : Option α :=
  match g.grants.get capability.name with
  | none => none
  | some grant =>
    if grant.enabled then
      some ((grant.config.bind fun raw => unmarshal field default raw).getD default)
    else none

def hostField (cfg : HostConfig) (key : String) (value : Json) : Option HostConfig :=
  if eqFold key "interval_s" then
    (readInt cfg.intervalS value).map fun v => { cfg with intervalS := v }
  else if eqFold key "include_filesystems" then
    (readBool cfg.includeFilesystems value).map fun v => { cfg with includeFilesystems := v }
  else if eqFold key "include_disks" then
    (readBool cfg.includeDisks value).map fun v => { cfg with includeDisks := v }
  else if eqFold key "include_network" then
    (readBool cfg.includeNetwork value).map fun v => { cfg with includeNetwork := v }
  else if eqFold key "include_temperatures" then
    (readBool cfg.includeTemperatures value).map fun v => { cfg with includeTemperatures := v }
  else if eqFold key "include_virtual" then
    (readBool cfg.includeVirtual value).map fun v => { cfg with includeVirtual := v }
  else if eqFold key "include_docker" then
    (readBool cfg.includeDocker value).map fun v => { cfg with includeDocker := v }
  else some cfg

def scopeField (cfg : ScopeConfig) (key : String) (value : Json) : Option ScopeConfig :=
  if eqFold key "scope_mode" then
    (readText cfg.scopeMode value).map fun v => { cfg with scopeMode := v }
  else if eqFold key "additional_cidrs" then
    (readTexts value).map fun v => { cfg with additionalCidrs := v }
  else if eqFold key "excluded_cidrs" then
    (readTexts value).map fun v => { cfg with excludedCidrs := v }
  else if eqFold key "additional_hostnames" then
    (readTexts value).map fun v => { cfg with additionalHostnames := v }
  else some cfg

def probeField (cfg : RemoteProbeConfig) (key : String) (value : Json) :
    Option RemoteProbeConfig :=
  if eqFold key "max_concurrent" then
    (readInt cfg.maxConcurrent value).map fun v => { cfg with maxConcurrent := v }
  else (scopeField cfg.scope key value).map fun v => { cfg with scope := v }

def discoveryField (cfg : LocalDiscoveryConfig) (key : String) (value : Json) :
    Option LocalDiscoveryConfig :=
  if eqFold key "max_addresses_per_job" then
    (readInt cfg.maxAddressesPerJob value).map fun v => { cfg with maxAddressesPerJob := v }
  else if eqFold key "max_concurrent_hosts" then
    (readInt cfg.maxConcurrentHosts value).map fun v => { cfg with maxConcurrentHosts := v }
  else if eqFold key "tcp_ports" then
    (readInts value).map fun v => { cfg with tcpPorts := v }
  else if eqFold key "host_timeout_ms" then
    (readInt cfg.hostTimeoutMs value).map fun v => { cfg with hostTimeoutMs := v }
  else if eqFold key "job_timeout_seconds" then
    (readInt cfg.jobTimeoutSeconds value).map fun v => { cfg with jobTimeoutSeconds := v }
  else if eqFold key "auto_discovery_paused" then
    (readBool cfg.autoDiscoveryPaused value).map fun v => { cfg with autoDiscoveryPaused := v }
  else (scopeField cfg.scope key value).map fun v => { cfg with scope := v }

def Gate.hostConfig (g : Gate) : Option HostConfig :=
  g.config .hostTelemetry defaultHostConfig hostField

def Gate.remoteProbeConfig (g : Gate) : Option RemoteProbeConfig :=
  g.config .remoteProbe defaultRemoteProbeConfig probeField

def Gate.localDiscoveryConfig (g : Gate) : Option LocalDiscoveryConfig :=
  g.config .localDiscovery defaultLocalDiscoveryConfig discoveryField

/-! A normalized config is normalized already. -/

theorem within_bounds {capability key : String} {low high value : Int} {u : Unit}
    (h : within capability key low high value = .ok u) : low ≤ value ∧ value ≤ high := by
  unfold within at h
  split at h
  · cases h
  case isFalse inside => omega

theorem evaluable_mode {capability : String} {mode : Text} {u : Unit}
    (h : evaluable capability mode = .ok u) : mode = scopeModeDirectPrivate := by
  unfold evaluable at h
  split at h
  case isTrue same => exact same
  · cases h

variable {raw : Option Json}

theorem host_normalized {cfg : HostConfig}
    (h : normalizeHostConfig raw = .ok cfg) :
    normalizeHostConfig (some (.object cfg.json)) = .ok cfg := by
  have bound : 10 ≤ cfg.intervalS ∧ cfg.intervalS ≤ 900 := by
    simp only [normalizeHostConfig,bind_ok] at h
    obtain ⟨_,-,_,-,_,-,_,-,_,-,_,-,_,-,_,-,_,bounds,made⟩ := h
    cases made
    exact within_bounds bounds
  exact @normalizeHostConfig_stored ⟨cfg.intervalS,cfg.includeFilesystems,cfg.includeDisks,
    cfg.includeNetwork,cfg.includeTemperatures,cfg.includeVirtual,cfg.includeDocker⟩ ⟨bound⟩

theorem probe_normalized {cfg : RemoteProbeConfig}
    (h : normalizeRemoteProbeConfig raw = .ok cfg) :
    normalizeRemoteProbeConfig (some (.object cfg.json)) = .ok cfg := by
  simp only [CapabilityGate.normalizeRemoteProbeConfig,bind_ok] at h
  obtain ⟨_,-,limit,-,mode,-,additional,-,excluded,-,hostnames,-,_,bounds,_,known,made⟩ := h
  cases made
  cases evaluable_mode known
  let s : ProbeSettings := ⟨limit,excluded,additional,hostnames⟩
  exact @normalizeRemoteProbeConfig_reads s _ (probeFields_json s) (within_bounds bounds)

theorem ports_sortedUnique {ports : List Int} {u : Unit} (h : checkPorts ports = .ok u) :
    Ports (sortedUniqueInts ports) := by
  unfold checkPorts at h
  split at h
  · cases h
  case isFalse few =>
    split at h
    · cases h
    case h_2 inside =>
      rw [find?_eq_none] at inside
      have fewer : ports.dedup.length ≤ ports.length := (dedup_sublist ports).length_le
      refine ⟨?_,fun n hn => ?_,?_,pairwise_insertionSort _ _⟩
      · rw [sortedUniqueInts,length_insertionSort]
        omega
      · rw [sortedUniqueInts,mem_insertionSort,mem_dedup] at hn
        have bounds := inside n hn
        simp only [Bool.or_eq_true,decide_eq_true_eq] at bounds
        omega
      · exact (perm_insertionSort _ _).nodup_iff.mpr (nodup_dedup ports)

theorem discovery_normalized {cfg : LocalDiscoveryConfig}
    (h : normalizeLocalDiscoveryConfig raw = .ok cfg) :
    normalizeLocalDiscoveryConfig (some (.object cfg.json)) = .ok cfg := by
  simp only [CapabilityGate.normalizeLocalDiscoveryConfig,bind_ok] at h
  obtain ⟨_,-,addresses,-,hosts,-,timeout,-,job,-,paused,-,mode,-,additional,-,excluded,-,ports,-,
    _,ha,_,hh,_,ht,_,hj,_,hp,_,known,made⟩ := h
  cases made
  cases evaluable_mode known
  let s : DiscoverySettings := ⟨excluded,additional,addresses,hosts,sortedUniqueInts ports,timeout,
    job,paused⟩
  exact @normalizeLocalDiscoveryConfig_reads s _ (discoveryFields_json s)
    ⟨within_bounds ha,within_bounds hh,within_bounds ht,within_bounds hj,ports_sortedUnique hp⟩

variable {capability : Capability}

theorem normalized {cfg : Json}
    (h : configNormalizer capability raw = .ok cfg) :
    configNormalizer capability (some cfg) = .ok cfg := by
  cases capability with
  | hostTelemetry =>
    cases hc : normalizeHostConfig raw with
    | error => simp [configNormalizer,hc,Except.map] at h
    | ok made =>
      simp only [configNormalizer,hc,Except.map,Except.ok.injEq] at h
      subst h
      simp only [configNormalizer,host_normalized hc,Except.map]
  | remoteProbe =>
    cases hc : normalizeRemoteProbeConfig raw with
    | error => simp [configNormalizer,hc,Except.map] at h
    | ok made =>
      simp only [configNormalizer,hc,Except.map,Except.ok.injEq] at h
      subst h
      simp only [configNormalizer,probe_normalized hc,Except.map]
  | localDiscovery =>
    cases hc : normalizeLocalDiscoveryConfig raw with
    | error => simp [configNormalizer,hc,Except.map] at h
    | ok made =>
      simp only [configNormalizer,hc,Except.map,Except.ok.injEq] at h
      subst h
      simp only [configNormalizer,discovery_normalized hc,Except.map]

def defaultConfig : Capability → Json
  | .hostTelemetry => .object defaultHostConfig.json
  | .remoteProbe => .object defaultRemoteProbeConfig.json
  | .localDiscovery => .object defaultLocalDiscoveryConfig.json

theorem normalizer_none (capability : Capability) :
    configNormalizer capability none = .ok (defaultConfig capability) := by
  cases capability <;> rfl

/-! The snapshot an agent runs with and what it is after a restart. -/

variable {previous : Snapshot}

theorem retainedConfig_eq
    (valid : ∀ grant cfg, previous.get capability.name = some grant → grant.config = some cfg →
      configNormalizer capability (some cfg) = .ok cfg) :
    retainedConfig capability previous = some
      (((previous.get capability.name).bind Grant.config).getD (defaultConfig capability)) := by
  unfold retainedConfig
  simp only [normalizer_none,Except.toOption]
  cases hg : previous.get capability.name with
  | none => rfl
  | some grant =>
    cases hc : grant.config with
    | none => simp [hc]
    | some cfg =>
      simp only [Option.bind_some,hc,valid grant cfg hg hc]
      rfl

def Normal (grants : Snapshot) : Prop :=
  ∀ (capability : Capability) grant cfg, grants.get capability.name = some grant →
    grant.config = some cfg → configNormalizer capability (some cfg) = .ok cfg

/-- What a grant offers: its state with a config of its own or without. -/
inductive Offer where
  | unreadable
  | bare (enabled : Bool)
  | grant (enabled : Bool) (config : Option Json)

def offer : Json → Offer
  | .bool enabled => .bare enabled
  | .null => .bare false
  | .object fields =>
    match readGrant fields with
    | none => .unreadable
    | some grant => .grant grant.enabled grant.config
  | _ => .unreadable

theorem decodeGrant_offer (previous : Snapshot) (capability : Capability) (value : Json) :
    decodeGrant previous capability.name value = match offer value with
      | .unreadable => ({},some ⟨capability.name,none⟩)
      | .bare enabled => (⟨enabled,some (defaultConfig capability)⟩,none)
      | .grant enabled raw =>
        match configNormalizer capability raw with
        | .ok cfg => (⟨enabled,some cfg⟩,none)
        | .error e =>
          (⟨enabled,retainedConfig capability previous⟩,some ⟨capability.name,some e⟩) := by
  have bare (enabled : Bool) : CapabilityGate.normalize capability.name enabled =
      ⟨enabled,some (defaultConfig capability)⟩ := by
    simp only [CapabilityGate.normalize,ofName_name,normalizer_none,Except.toOption]
  cases value with
  | null | bool enabled => simp only [decodeGrant,offer,bare]
  | object fields =>
    simp only [decodeGrant,offer]
    cases hr : readGrant fields with
    | none => rfl
    | some grant =>
      cases hn : configNormalizer capability grant.config with
      | ok cfg | error e => simp only [ofName_name,hn]
  | _ => rfl

def Configured (grants : Snapshot) : Prop :=
  ∀ (capability : Capability) grant, grants.get capability.name = some grant →
    grant.enabled = true → grant.config.isSome = true

variable {fields : List (String × Json)}

theorem decode_configured
    (h : Normal previous) : Configured (decode fields previous).1 := by
  intro capability grant hg on
  rw [decode_get,Option.map_eq_some_iff] at hg
  obtain ⟨value,-,rfl⟩ := hg
  rw [decodeGrant_offer] at on ⊢
  cases ho : offer value with
  | unreadable =>
    rw [ho] at on
    cases on
  | bare enabled => rfl
  | grant enabled raw =>
    cases hn : configNormalizer capability raw with
    | ok made => simp [hn]
    | error e => simp [hn,retainedConfig_eq (h capability)]

theorem decode_normal (h : Normal previous) :
    Normal (decode fields previous).1 := by
  intro capability grant cfg hg hc
  rw [decode_get,Option.map_eq_some_iff] at hg
  obtain ⟨value,-,rfl⟩ := hg
  rw [decodeGrant_offer] at hc
  cases ho : offer value with rw [ho] at hc
  | unreadable =>
    cases hc
  | bare enabled =>
    cases hc
    exact normalized (normalizer_none capability)
  | grant enabled raw =>
    cases hn : configNormalizer capability raw with
    | ok made =>
      simp only [hn,Option.some.injEq] at hc
      subst hc
      exact normalized hn
    | error e =>
      simp only [hn,retainedConfig_eq (h capability),Option.some.injEq] at hc
      subst hc
      cases hp : (previous.get capability.name).bind Grant.config with
      | none => exact normalized (normalizer_none capability)
      | some old =>
        obtain ⟨before,hb,hold⟩ := Option.bind_eq_some_iff.1 hp
        exact h capability before old hb hold

def refresh (name : String) (grant : Grant) : Grant :=
  match Capability.ofName name,grant.config with
  | some capability,none => { grant with config := some (defaultConfig capability) }
  | _,_ => grant

theorem ofName_eq {name : String}
    (h : Capability.ofName name = some capability) : name = capability.name := by
  unfold Capability.ofName at h
  have found := find?_some h
  exact (of_decide_eq_true found).symm

theorem readGrant_json (grant : Grant) : ∃ fields, grantJson grant = .object fields ∧
    readGrant fields = some grant := by
  obtain ⟨enabled,config⟩ := grant
  have h : eqFold "enabled" "enabled" = true := by decide
  cases config with
  | none => exact ⟨_,rfl,by simp [readGrant,h,readBool]⟩
  | some config => exact ⟨_,rfl,readGrant_structured enabled config⟩

variable {grants : Snapshot}

theorem decodeGrant_stored (normal : Normal grants) {name : String}
    {grant : Grant} (h : grants.get name = some grant) :
    decodeGrant Dict.empty name (grantJson grant) = (refresh name grant,none) := by
  obtain ⟨fields,json,read⟩ := readGrant_json grant
  rw [json]
  simp only [decodeGrant,read,refresh]
  cases hn : Capability.ofName name with
  | none => rfl
  | some capability =>
    obtain rfl := ofName_eq hn
    cases hc : grant.config with
    | none => simp only [normalizer_none]
    | some cfg =>
      simp only [normal capability grant cfg h hc]
      rw [←hc]

theorem marshal_get (grants : Snapshot) (name : String) :
    (Dict.ofPairs (marshal grants)).get name = (grants.get name).map grantJson := by
  have perm := perm_insertionSort (fun a b : String × Json => a.1 ≤ b.1)
    (grants.items.map fun p => (p.1,grantJson p.2))
  have nodup : ((marshal grants).map Prod.fst).Nodup := by
    rw [marshal,(perm.map Prod.fst).nodup_iff,map_map]
    exact grants.nodup
  apply Option.ext
  intro value
  rw [Dict.get_ofPairs_iff nodup,marshal,perm.mem_iff,Option.map_eq_some_iff]
  simp only [mem_map,Prod.mk.injEq,Prod.exists,Dict.get_eq_some_iff]
  constructor
  · rintro ⟨_,grant,hm,rfl,hv⟩
    exact ⟨grant,hm,hv⟩
  · rintro ⟨grant,hm,hv⟩
    exact ⟨name,grant,hm,rfl,hv⟩

def reload (grants : Snapshot) : Snapshot := (decode (marshal grants) Dict.empty).1

theorem reload_get (normal : Normal grants) (name : String) :
    (reload grants).get name = (grants.get name).map (refresh name) := by
  rw [reload,decode_get,marshal_get]
  cases hg : grants.get name with
  | none => rfl
  | some grant => simp only [Option.map_some,decodeGrant_stored normal hg]

theorem reload_faults (normal : Normal grants) :
    (decode (marshal grants) Dict.empty).2 = [] := by
  have none : ((Dict.ofPairs (marshal grants)).items.filterMap fun p =>
      (decodeGrant Dict.empty p.1 p.2).2) = [] := by
    refine filterMap_eq_nil_iff.2 fun p hp => ?_
    have stored : (Dict.ofPairs (marshal grants)).get p.1 = some p.2 := Dict.get_eq_some_iff.2 hp
    rw [marshal_get,Option.map_eq_some_iff] at stored
    obtain ⟨grant,hg,json⟩ := stored
    rw [←json,decodeGrant_stored normal hg]
  rw [decode]
  simp only [none]
  rfl

/-! Whole runs. -/

/-- The config that was accepted for a capability and is to be kept, once the grants of a payload
are installed: none after a grant without one, an unreadable one, or none at all. -/
def keep (capability : Capability) (kept : Option Json) : Option Json → Option Json
  | none => none
  | some value =>
    match offer value with
    | .unreadable | .bare _ => none
    | .grant _ raw =>
      match configNormalizer capability raw with
      | .ok cfg => some cfg
      | .error _ => kept

def keepAct (capability : Capability) (kept : Option Json) : Act → Option Json
  | .restart => kept
  | .apply payload stored =>
    match payload.bind grantMap with
    | none => kept
    | some fields =>
      if stored then keep capability kept ((Dict.ofPairs fields).get capability.name) else kept

def keptAfter (capability : Capability) (acts : List Act) : Option Json :=
  acts.foldl (keepAct capability) none

/-- What is kept is what is stored; otherwise nothing is stored, or the default. -/
structure Keeps (capability : Capability) (grants : Snapshot) (kept : Option Json) : Prop where
  stored : ∀ cfg, kept = some cfg → ∃ grant, grants.get capability.name = some grant ∧
    grant.config = some cfg
  absent : kept = none → ∀ grant cfg, grants.get capability.name = some grant →
    grant.config = some cfg → cfg = defaultConfig capability

theorem Keeps.config {kept : Option Json}
    (h : Keeps capability grants kept) :
    ((grants.get capability.name).bind Grant.config).getD (defaultConfig capability) =
      kept.getD (defaultConfig capability) := by
  cases kept with
  | some cfg =>
    obtain ⟨grant,hg,hc⟩ := h.stored cfg rfl
    rw [hg,Option.bind_some,hc]
  | none =>
    cases hg : grants.get capability.name with
    | none => rfl
    | some grant =>
      cases hc : grant.config with
      | none => simp [hc]
      | some cfg =>
        have same := h.absent rfl grant cfg hg hc
        simp [hc,same]

structure Sound (acts : List Act) (g : Gate) : Prop where
  normal : Normal g.grants
  cached : (g.file = none ∧ g.grants = Dict.empty) ∨ ∃ s, Normal s ∧ Configured s ∧
    g.file = some (marshal s) ∧ (g.grants = s ∨ g.grants = reload s)
  keeps : ∀ capability, Keeps capability g.grants (keptAfter capability acts)

theorem keptAfter_snoc (capability : Capability) (acts : List Act) (act : Act) :
    keptAfter capability (acts++[act]) = keepAct capability (keptAfter capability acts) act := by
  simp [keptAfter]

theorem Keeps.decode {kept : Option Json}
    (normal : Normal previous) (h : Keeps capability previous kept) (fields : List (String × Json)) :
    Keeps capability (CapabilityGate.decode fields previous).1
      (keep capability kept ((Dict.ofPairs fields).get capability.name)) := by
  have get := decode_get fields previous capability.name
  cases hv : (Dict.ofPairs fields).get capability.name with
  | none =>
    rw [hv] at get
    refine ⟨(by intros; contradiction),fun _ grant cfg hg => ?_⟩
    rw [get] at hg
    cases hg
  | some value =>
    rw [hv,Option.map_some,decodeGrant_offer] at get
    cases ho : offer value with simp only [ho] at get
    | unreadable =>
      have none : keep capability kept (some value) = none := by simp only [keep,ho]
      rw [none]
      refine ⟨(by intros; contradiction),fun _ grant cfg hg hc => ?_⟩
      rw [get] at hg
      cases hg
      cases hc
    | bare enabled =>
      have none : keep capability kept (some value) = none := by simp only [keep,ho]
      rw [none]
      refine ⟨(by intros; contradiction),fun _ grant cfg hg hc => ?_⟩
      rw [get] at hg
      cases hg
      exact (Option.some.inj hc).symm
    | grant enabled raw =>
      cases hn : configNormalizer capability raw with
      | ok made =>
        simp only [hn] at get
        have some : keep capability kept (some value) = some made := by simp only [keep,ho,hn]
        rw [some]
        exact ⟨fun cfg hk => ⟨_,get,hk⟩,(by intros; contradiction)⟩
      | error e =>
        simp only [hn,retainedConfig_eq (normal capability),h.config] at get
        have stays : keep capability kept (some value) = kept := by simp only [keep,ho,hn]
        rw [stays]
        refine ⟨fun cfg hk => ⟨_,get,by rw [hk]; rfl⟩,fun hk grant cfg hg hc => ?_⟩
        rw [get] at hg
        cases hg
        rw [hk] at hc
        exact (Option.some.inj hc).symm

theorem reload_normal : Normal (reload grants) :=
  decode_normal fun _ _ _ hg => by cases hg

theorem Keeps.reload {kept : Option Json}
    (normal : Normal grants) (h : Keeps capability grants kept) :
    Keeps capability (GrantCache.reload grants) kept := by
  have get := reload_get normal capability.name
  refine ⟨fun cfg hk => ?_,fun hk grant cfg hg hc => ?_⟩
  · obtain ⟨grant,hg,hc⟩ := h.stored cfg hk
    rw [hg,Option.map_some] at get
    refine ⟨_,get,?_⟩
    simp only [refresh,ofName_name,hc]
  · rw [get,Option.map_eq_some_iff] at hg
    obtain ⟨before,hb,rfl⟩ := hg
    cases hbc : before.config with simp only [refresh,ofName_name,hbc,Option.some.injEq] at hc
    | none =>
      exact hc.symm
    | some old =>
      rw [←hc]
      exact h.absent hk before old hb hbc

theorem Sound.step {acts : List Act} {g : Gate} (h : Sound acts g) (act : Act) :
    Sound (acts++[act]) (g.step act) := by
  cases act with
  | restart =>
    have keeps : ∀ capability, Keeps capability g.grants (keptAfter capability (acts++[.restart])) :=
      fun capability => by rw [keptAfter_snoc]; exact h.keeps capability
    obtain ⟨file,empty⟩ | ⟨s,hs,configured,file,same⟩ := h.cached
    · have new : g.step .restart = {} := by simp only [Gate.step,file,loadCached]
      rw [new]
      exact ⟨nofun,.inl ⟨rfl,rfl⟩,empty ▸ keeps⟩
    · have new : g.step .restart = ⟨reload s,some (marshal s)⟩ := by
        simp only [Gate.step,file,loadCached]
        rfl
      rw [new]
      refine ⟨reload_normal,.inr ⟨s,hs,configured,rfl,.inr rfl⟩,fun capability => ?_⟩
      cases same with
      | inl same => exact (same ▸ keeps capability).reload hs
      | inr same => exact same ▸ keeps capability
  | apply payload stored =>
    cases hp : payload.bind grantMap with
    | none =>
      have same : g.step (.apply payload stored) = g := by simp only [Gate.step,applyGrants,hp]
      rw [same]
      exact ⟨h.normal,h.cached,fun capability => by
        rw [keptAfter_snoc]
        simpa only [keepAct,hp] using h.keeps capability⟩
    | some fields =>
      cases stored with
      | false =>
        have same : g.step (.apply payload false) = g := by
          simp [Gate.step,applyGrants,hp]
        rw [same]
        exact ⟨h.normal,h.cached,fun capability => by
          rw [keptAfter_snoc]
          simpa [keepAct,hp] using h.keeps capability⟩
      | true =>
        have new : g.step (.apply payload true) =
            ⟨(decode fields g.grants).1,some (marshal (decode fields g.grants).1)⟩ := by
          simp [Gate.step,applyGrants,hp]
        rw [new]
        refine ⟨decode_normal h.normal,.inr ⟨_,decode_normal h.normal,decode_configured h.normal,
          rfl,.inl rfl⟩,fun capability => ?_⟩
        rw [keptAfter_snoc]
        simpa [keepAct,hp] using (h.keeps capability).decode h.normal fields

theorem run_sound (acts : List Act) : Sound acts (run acts) := by
  induction acts using List.reverseRecOn with
  | nil =>
    refine ⟨nofun,.inl ⟨rfl,rfl⟩,fun capability => ⟨fun _ hk => ?_,?_⟩⟩
    · cases hk
    · intro _ _ _ hg
      cases hg
  | append_singleton acts act ih =>
    rw [run,foldl_append]
    exact ih.step act

/-! What holds after every run. -/

structure Faithful (acts : List Act) (g : Gate) : Prop where
  normalized : Normal g.grants
  faultless : (loadCached g.file).2 = []
  allowed : ∀ name, (loadCached g.file).1.allowed name = g.allowed name
  host : (loadCached g.file).1.hostConfig = g.hostConfig
  probe : (loadCached g.file).1.remoteProbeConfig = g.remoteProbeConfig
  discovery : (loadCached g.file).1.localDiscoveryConfig = g.localDiscoveryConfig
  rejected : ∀ capability payload fields value enabled raw e, payload.bind grantMap = some fields →
    (Dict.ofPairs fields).get (Capability.name capability) = some value →
    offer value = .grant enabled raw → configNormalizer capability raw = .error e →
    (applyGrants g payload true).1.grants.get capability.name =
      some ⟨enabled,some ((keptAfter capability acts).getD (defaultConfig capability))⟩
  isolated : ∀ (other : Gate) name fields fields', other.grants.get name = g.grants.get name →
    (Dict.ofPairs fields').get name = (Dict.ofPairs fields).get name →
    (decode fields' other.grants).1.get name = (decode fields g.grants).1.get name ∧
    ∀ f : GrantFault, f.capability = name →
      (f ∈ (decode fields' other.grants).2 ↔ f ∈ (decode fields g.grants).2)
  untouched : ∀ payload stored, (applyGrants g payload stored).2 = none →
    (applyGrants g payload stored).1 = g

theorem decodeGrant_congr {previous' : Snapshot} {name : String}
    (h : previous'.get name = previous.get name) (value : Json) :
    decodeGrant previous' name value = decodeGrant previous name value := by
  unfold decodeGrant
  cases value with
  | object fields =>
    simp only []
    cases readGrant fields with
    | none => rfl
    | some grant =>
      simp only []
      cases hn : Capability.ofName name with
      | none => rfl
      | some capability =>
        have retained : retainedConfig capability previous' = retainedConfig capability previous := by
          rw [retainedConfig,retainedConfig,←ofName_eq hn,h]
        simp only [retained]
  | _ => rfl

theorem mem_faults {f : GrantFault} :
    f ∈ (decode fields previous).2 ↔ ∃ value,
      (Dict.ofPairs fields).get f.capability = some value ∧
        (decodeGrant previous f.capability value).2 = some f := by
  rw [decode,mem_insertionSort,mem_filterMap]
  constructor
  · rintro ⟨⟨name,value⟩,hp,hf⟩
    obtain rfl := decodeGrant_fault hf
    exact ⟨value,Dict.get_eq_some_iff.2 hp,hf⟩
  · rintro ⟨value,hv,hf⟩
    exact ⟨(f.capability,value),Dict.get_eq_some_iff.1 hv,hf⟩

theorem refresh_enabled (name : String) (grant : Grant) :
    (refresh name grant).enabled = grant.enabled := by
  unfold refresh
  split <;> rfl

theorem reload_allowed (normal : Normal grants) (file : Option (List (String × Json)))
    (name : String) : (⟨reload grants,file⟩ : Gate).allowed name = (⟨grants,file⟩ : Gate).allowed name := by
  simp only [Gate.allowed,reload_get normal]
  cases grants.get name with
  | none => rfl
  | some grant => exact refresh_enabled name grant

theorem reload_config (normal : Normal grants) (configured : Configured grants)
    (file : Option (List (String × Json))) {α : Type} (capability : Capability) (default : α)
    (field : α → String → Json → Option α) :
    (⟨reload grants,file⟩ : Gate).config capability default field =
      (⟨grants,file⟩ : Gate).config capability default field := by
  simp only [Gate.config,reload_get normal]
  cases hg : grants.get capability.name with
  | none => rfl
  | some grant =>
    simp only [Option.map_some,refresh_enabled]
    by_cases on : grant.enabled = true
    · obtain ⟨cfg,hc⟩ := Option.isSome_iff_exists.1 (configured capability grant hg on)
      have same : (refresh capability.name grant).config = grant.config := by
        simp only [refresh,ofName_name,hc]
      rw [same]
    · rw [if_neg on,if_neg on]

/-- After any payloads and restarts the cache is faithful. -/
theorem cache_faithful (acts : List Act) : Faithful acts (run acts) := by
  have h := run_sound acts
  generalize run acts = g at h
  have restart : (loadCached g.file).2 = [] ∧
      (∀ name, (loadCached g.file).1.allowed name = g.allowed name) ∧
      ∀ {α : Type} (capability : Capability) (default : α) (field : α → String → Json → Option α),
        (loadCached g.file).1.config capability default field = g.config capability default field := by
    obtain ⟨grants,file⟩ := g
    obtain ⟨none,empty⟩ | ⟨s,normal,configured,stored,same⟩ := h.cached
    · simp only at none empty
      subst none empty
      exact ⟨rfl,fun _ => rfl,fun _ _ _ => rfl⟩
    · simp only at stored same
      subst stored
      have new : (loadCached (some (marshal s))).1 = ⟨reload s,some (marshal s)⟩ := rfl
      rw [new]
      refine ⟨reload_faults normal,?_⟩
      obtain rfl | rfl := same
      · exact ⟨reload_allowed normal _,fun capability default field =>
          reload_config normal configured _ capability default field⟩
      · exact ⟨fun _ => rfl,fun _ _ _ => rfl⟩
  obtain ⟨faultless,allowed,config⟩ := restart
  refine ⟨h.normal,faultless,allowed,config _ _ _,config _ _ _,config _ _ _,?_,?_,?_⟩
  · intro capability payload fields value enabled raw e hp hv ho hn
    have new : (applyGrants g payload true).1.grants = (decode fields g.grants).1 := by
      simp [applyGrants,hp]
    rw [new,decode_get,hv,Option.map_some,decodeGrant_offer]
    simp only [ho,hn,retainedConfig_eq (h.normal capability),(h.keeps capability).config]
  · intro other name fields fields' previous same
    refine ⟨?_,fun f hf => ?_⟩
    · simp only [decode_get,same,decodeGrant_congr previous]
    · subst hf
      simp only [mem_faults,same,decodeGrant_congr previous]
  · intro payload stored error
    unfold applyGrants at error ⊢
    cases hp : payload.bind grantMap with
    | none => rfl
    | some fields =>
      simp only [hp] at error ⊢
      split at error
      · cases error
      case isFalse off => rw [if_neg off]

/-! A bare grant between an accepted config and a rejected one. -/

def sent (grant : Json) : Act := .apply (some (.object [("host_telemetry",grant)])) true

def interval (seconds : Int) : Json :=
  .object [("enabled",.bool true),("config",.object [("interval_s",.int seconds)])]

/-- The config that was accepted last is not the one that is kept. -/
theorem bare_grant_forgets :
    (run [sent (interval 60)]).hostConfig.map HostConfig.intervalS = some 60 ∧
    (run [sent (interval 60),sent (interval 1)]).hostConfig.map HostConfig.intervalS = some 60 ∧
    (run [sent (interval 60),sent (.bool true),sent (interval 1)]).hostConfig.map
      HostConfig.intervalS = some 30 := by
  decide

end CircuitBreaker.GrantCache
