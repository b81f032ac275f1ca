import CircuitBreaker.NetScope

/-! Whole prefixes against the agent's scope (internal/netscope, NetworkInScope), and what the
answer says about their addresses one by one. -/

namespace CircuitBreaker.NetScope
open IpText GoNetip

def minScopePrefix : Version → Nat
  | .v4 => 16
  | .v6 => 48

def overlapsAny (networks : List Prefix) (candidate : Prefix) : Bool :=
  networks.any fun network => network.version = candidate.version && network.overlaps candidate

def containsNetwork (outer inner : Prefix) : Bool :=
  outer.version = inner.version && outer.bits ≤ inner.bits && outer.contains inner.masked.addr

def parsePrefix (value : Text) : Option Prefix :=
  let text := trimSpace value
  match GoNetip.parsePrefix text with
  | some p => some p.masked
  | none => (parseAddress text).map Addr.full

def networkInScope (scope : Scope) (cidr : Text) : Decision :=
  match parsePrefix cidr with
  | none => {reason := .invalidDestination}
  | some network =>
    let refuse (reason : Reason) : Decision := {reason := reason, address := network.text}
    if network.bits < minScopePrefix network.version then refuse .prefixTooWide
    else if overlapsAny blockedNetworks network then refuse .specialUse
    else if overlapsAny (parseCidrs scope.excludedNetworks) network then refuse .excluded
    else
      let networks := parseCidrs scope.networks
      if networks.length = 0 then refuse .emptyScope
      else if networks.any (containsNetwork · network) then
        {allowed := true, reason := .inScope, address := network.text}
      else refuse .outOfScope

theorem overlapsAny_of_covers {networks : List Prefix} {n p : Prefix} {a : Addr}
    (mem : n ∈ networks) (hn : n.Covers a) (hp : p.Covers a) : overlapsAny networks p = true := by
  refine List.any_eq_true.mpr ⟨n,mem,?_⟩
  simp only [Bool.and_eq_true,decide_eq_true_eq]
  exact ⟨hn.1.symm.trans hp.1,overlaps_of_covers hn hp⟩

theorem containsNetwork_covers {outer inner : Prefix} {a : Addr}
    (h : containsNetwork outer inner = true) (ha : inner.Covers a) : outer.Covers a := by
  simp only [containsNetwork,Bool.and_eq_true,decide_eq_true_eq] at h
  obtain ⟨⟨-,shorter⟩,first⟩ := h
  exact (contains_iff.mp first).2.within shorter ha

/-- What an allowed prefix is: all of it is in one network of the scope, none of it is blocked
or excluded. -/
structure Admitted (scope : Scope) (p : Prefix) : Prop where
  within : ∃ n ∈ parseCidrs scope.networks, ∀ a, p.Covers a → n.Covers a
  kept : ∀ n ∈ parseCidrs scope.excludedNetworks, ∀ a, p.Covers a → ¬n.Covers a
  ordinary : ∀ n ∈ blockedNetworks, ∀ a, p.Covers a → ¬n.Covers a

theorem networkInScope_admitted {scope : Scope} {cidr : Text} {p : Prefix}
    (read : parsePrefix cidr = some p) (h : (networkInScope scope cidr).allowed = true) :
    Admitted scope p := by
  unfold networkInScope at h
  rw [read] at h
  simp only at h
  split at h
  · cases h
  split at h
  · cases h
  case isFalse ordinary =>
  split at h
  · cases h
  case isFalse kept =>
  split at h
  · cases h
  split at h
  case isTrue inside =>
    obtain ⟨n,mem,contains⟩ := List.any_eq_true.mp inside
    exact ⟨⟨n,mem,fun a => containsNetwork_covers contains⟩,
      fun n mem a hp hn => kept (overlapsAny_of_covers mem hn hp),
      fun n mem a hp hn => ordinary (overlapsAny_of_covers mem hn hp)⟩
  · cases h

section Evaluate
variable {toLower sha256 : Text → Text} {facts : List InterfaceFacts} {cfg : Config}

theorem Safe.allowed {a : Addr}
    (h : Safe (direct toLower facts cfg ++ approved cfg) (parseCidrs cfg.excludedCidrs) a) :
    (evaluateAddress (derive toLower sha256 facts cfg) a).allowed = true := by
  obtain ⟨n,mem,covers⟩ := h.within
  have ordinary : containsAny blockedNetworks a = false := by
    refine Bool.eq_false_iff.mpr fun blocked => ?_
    obtain ⟨-,m,hm,hc⟩ := containsAny_iff.mp blocked
    exact h.ordinary m hm hc
  have single : (parseCidrs (sortedNetworks (direct toLower facts cfg ++ approved cfg))).any
      (isDirectedBroadcast · a) = false := by
    refine Bool.eq_false_iff.mpr fun some_ => ?_
    obtain ⟨m,hm,hb⟩ := List.any_eq_true.mp some_
    obtain ⟨q,hq,rfl⟩ := mem_parseCidrs_sorted.mp hm
    exact h.single q hq (broadcast_masked.mp (isDirectedBroadcast_iff.mp hb))
  have kept : containsAny (parseCidrs cfg.excludedCidrs) a = false := by
    refine Bool.eq_false_iff.mpr fun excluded => ?_
    obtain ⟨-,m,hm,hc⟩ := containsAny_iff.mp excluded
    exact h.kept m hm hc
  have some_ : (parseCidrs (sortedNetworks (direct toLower facts cfg ++ approved cfg))).length ≠ 0 := by
    intro none
    have : n.masked ∈ parseCidrs (sortedNetworks (direct toLower facts cfg ++ approved cfg)) :=
      mem_parseCidrs_sorted.mpr ⟨n,mem,rfl⟩
    rw [List.length_eq_zero_iff.mp none] at this
    cases this
  have within : (containsAny (direct toLower facts cfg) a || containsAny (approved cfg) a) = true := by
    rcases List.mem_append.mp mem with mem | mem
    · rw [containsAny_iff.mpr ⟨h.zoneless,n,mem,covers⟩,Bool.true_or]
    · rw [containsAny_iff.mpr ⟨h.zoneless,n,mem,covers⟩,Bool.or_true]
  simp only [evaluateAddress,derive,containsAny_sorted,ordinary,single,kept,some_,within,
    Bool.false_eq_true,if_false,if_true]

theorem evaluate_text (scope : Scope) {a : Addr} (zoneless : a.zone = []) (resolved : List Text) :
    evaluate scope a.text resolved = evaluateAddress scope a.unmap := by
  have text : a.text = valueText a.version a.value := by simp [Addr.text,zoneless]
  have trimmed : trimSpace a.text = a.text := by
    rw [text]
    exact trimSpace_self fun c hc => address_not_space (valueText_char hc)
  have read : parseAddress a.text = some a.unmap := by
    rw [parseAddress,trimmed,text,parseAddr_text a.small]
    obtain ⟨version,value,zone,small,plain⟩ := a
    cases zoneless
    rfl
  have some_ : a.text ≠ [] := by
    intro empty
    have none : parseAddress [] = none := by decide
    rw [empty,none] at read
    cases read
  simp only [evaluate,trimmed,some_,if_false,read]

end Evaluate

def ScopeBroadcast (scope : Scope) (a : Addr) : Prop :=
  ∃ n ∈ parseCidrs scope.networks, Broadcast n a

structure Speaks (scope : Scope) (cidr : Text) : Prop where
  allows : (networkInScope scope cidr).allowed = true → ∀ p, parsePrefix cidr = some p →
    ∀ a : Addr, a.zone = [] → p.Covers a →
      (evaluate scope a.text []).allowed = true ∨ ScopeBroadcast scope a.unmap
  refuses : ∀ p, parsePrefix cidr = some p → ∀ a : Addr, a.zone = [] → p.Covers a →
    (evaluate scope a.text []).allowed = false → ¬ScopeBroadcast scope a.unmap →
      (networkInScope scope cidr).allowed = false

/-- Every IPv4-mapped address of the prefix stands for an IPv4 address that is itself in a
network of the scope and neither excluded nor of special use, or is a broadcast there. -/
def MappedSafe (networks excluded : List Prefix) (cidr : Text) : Prop :=
  ∀ p, parsePrefix cidr = some p → ∀ a : Addr, p.Covers a → mapped a.version a.value = true →
    Safe networks excluded a.unmap ∨ ∃ n ∈ networks, Broadcast n a.unmap

section Derived
variable {toLower sha256 : Text → Text} {facts : List InterfaceFacts} {cfg : Config}

theorem scopeBroadcast_iff {a : Addr} : ScopeBroadcast (derive toLower sha256 facts cfg) a ↔
    ∃ n ∈ direct toLower facts cfg ++ approved cfg, Broadcast n a := by
  unfold ScopeBroadcast
  simp only [derive,mem_parseCidrs_sorted]
  constructor
  · rintro ⟨_,⟨n,mem,rfl⟩,h⟩
    exact ⟨n,mem,broadcast_masked.mp h⟩
  · rintro ⟨n,mem,h⟩
    exact ⟨n.masked,⟨n,mem,rfl⟩,broadcast_masked.mpr h⟩

theorem Admitted.safe {p : Prefix} {a : Addr} (h : Admitted (derive toLower sha256 facts cfg) p)
    (covers : p.Covers a) (zoneless : a.zone = []) (native : mapped a.version a.value = false)
    (single : ¬∃ n ∈ direct toLower facts cfg ++ approved cfg, Broadcast n a) :
    Safe (direct toLower facts cfg ++ approved cfg) (parseCidrs cfg.excludedCidrs) a := by
  obtain ⟨n,mem,inside⟩ := h.within
  obtain ⟨q,hq,rfl⟩ := mem_parseCidrs_sorted.mp mem
  have kept : ∀ n ∈ parseCidrs cfg.excludedCidrs, ¬n.Covers a := fun n mem hn =>
    h.kept n.masked (mem_parseCidrs_sorted.mpr ⟨n,mem,rfl⟩) a covers (covers_masked.mpr hn)
  exact ⟨⟨q,hq,covers_masked.mp (inside a covers)⟩,kept,fun n mem => h.ordinary n mem a covers,
    fun n mem hn => single ⟨n,mem,hn⟩,native,zoneless⟩

theorem unmap_native {a : Addr} (h : mapped a.version a.value = false) : a.unmap = a := by
  simp [Addr.unmap,h]

theorem speaks_of_mappedSafe {cidr : Text} (h : MappedSafe (direct toLower facts cfg ++ approved cfg)
    (parseCidrs cfg.excludedCidrs) cidr)
    (allowed : (networkInScope (derive toLower sha256 facts cfg) cidr).allowed = true)
    {p : Prefix} (read : parsePrefix cidr = some p) {a : Addr} (zoneless : a.zone = [])
    (covers : p.Covers a) :
    (evaluate (derive toLower sha256 facts cfg) a.text []).allowed = true ∨
      ScopeBroadcast (derive toLower sha256 facts cfg) a.unmap := by
  rw [evaluate_text _ zoneless,scopeBroadcast_iff]
  by_cases single : ∃ n ∈ direct toLower facts cfg ++ approved cfg, Broadcast n a.unmap
  · exact .inr single
  · refine .inl ?_
    cases native : mapped a.version a.value with
    | true => exact ((h p read a covers native).resolve_right single).allowed
    | false =>
      rw [unmap_native native] at single ⊢
      exact ((networkInScope_admitted read allowed).safe covers zoneless native single).allowed

end Derived

/-- Whatever scope an agent derives: the answer about a prefix is the answer about its
addresses, directed broadcasts apart, exactly when it refuses the prefix or the IPv4-mapped
addresses of the prefix stand for addresses that are themselves in scope. -/
theorem network_admission_iff (toLower sha256 : Text → Text) (facts : List InterfaceFacts)
    (cfg : Config) (cidr : Text) :
    Speaks (derive toLower sha256 facts cfg) cidr ↔
      (networkInScope (derive toLower sha256 facts cfg) cidr).allowed = false ∨
        MappedSafe (direct toLower facts cfg ++ approved cfg) (parseCidrs cfg.excludedCidrs) cidr := by
  constructor
  · intro h
    by_cases refused : (networkInScope (derive toLower sha256 facts cfg) cidr).allowed = false
    · exact .inl refused
    · have allowed := Bool.not_eq_false _ ▸ refused
      refine .inr fun p read a covers hm => ?_
      -- the zone of the address plays no part in what it unmaps to
      let bare : Addr := {a with zone := [], zoneless := fun _ => rfl}
      have same : bare.unmap = a.unmap := by
        have hb : mapped bare.version bare.value = true := hm
        simp only [Addr.unmap,hm,hb,if_true]
        rfl
      rcases h.allows allowed p read bare rfl covers with h | h
      · rw [evaluate_text _ rfl,same] at h
        exact .inl (evaluateAddress_safe (unmap_unmapped a) h)
      · rw [scopeBroadcast_iff,same] at h
        exact .inr h
  · rintro (refused | safe)
    · exact ⟨fun allowed => absurd (refused.symm.trans allowed) (by decide),fun _ _ _ _ _ _ _ => refused⟩
    · refine ⟨fun allowed p read a zoneless covers => speaks_of_mappedSafe safe allowed read zoneless covers,
        fun p read a zoneless covers refused single => ?_⟩
      refine Bool.eq_false_iff.mpr fun allowed => ?_
      rcases speaks_of_mappedSafe safe allowed read zoneless covers with h | h
      · rw [h] at refused
        cases refused
      · exact single h

def mappedGrant : Config := {additionalCidrs := ["::ffff:0:0/96".toList]}

/-- Mapped loopback addresses are allowed as a prefix and refused one by one. -/
theorem mapped_loopback_admitted :
    ¬Speaks (derive id oneDigest [] mappedGrant) "::ffff:127.0.0.0/104".toList := by
  intro h
  let a : Addr := ⟨.v6,0xffff7f000001,[],by decide,fun _ => rfl⟩
  have allowed : (networkInScope (derive id oneDigest [] mappedGrant)
      "::ffff:127.0.0.0/104".toList).allowed = true := by decide
  have read : parsePrefix "::ffff:127.0.0.0/104".toList =
      some ⟨.v6,0xffff7f000000,104,by decide,by decide⟩ := by decide
  have refused : (evaluate (derive id oneDigest [] mappedGrant) a.text []).allowed = false := by
    decide
  have single : ¬ScopeBroadcast (derive id oneDigest [] mappedGrant) a.unmap := by
    rw [scopeBroadcast_iff]
    have grant : direct id [] mappedGrant ++ approved mappedGrant =
        [⟨.v6,0xffff00000000,96,by decide,by decide⟩] := by decide
    rw [grant]
    rintro ⟨n,mem,hb⟩
    rw [List.mem_singleton.mp mem] at hb
    exact absurd hb.1 (by decide)
  have := h.refuses _ read a rfl (by decide) refused single
  rw [allowed] at this
  cases this

end CircuitBreaker.NetScope
