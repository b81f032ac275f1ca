import CircuitBreaker.IpCollapse
import CircuitBreaker.ScopeTexts

/-! How many addresses a set of targets covers: the agent's count in 64 bits
(internal/netscope, AddressCount) and the backend's (core/agent_scope.py, address_count), against
the union of the prefixes. -/

namespace CircuitBreaker.NetScope
open BinaryBlocks IpText GoNetip

/-- Whether the prefix at index `i` lies in another; of two equal ones the later does. -/
def covered (networks : List Prefix) (candidate : Prefix) (i : Nat) : Bool :=
  networks.zipIdx.any fun (other,j) =>
    j ≠ i && !(candidate = other && i < j) && containsNetwork other candidate

def deduplicated (networks : List Prefix) : List Prefix :=
  (networks.zipIdx.filter fun (candidate,i) => !covered networks candidate i).map Prod.fst

def maxUint64 : Nat := 2^64-1

def hostBits (p : Prefix) : Nat := p.version.width-p.bits

def sumCounts : Nat → List Prefix → Nat
  | total, [] => total
  | total, network :: rest =>
    if 64 ≤ hostBits network then maxUint64
    else sumCounts ((total+2^hostBits network)%2^64) rest

attribute [local simp] sumCounts

def addressCount (cidrs : List Text) : Nat := sumCounts 0 (deduplicated (parseCidrs cidrs))

def addresses (networks : List Prefix) : Finset (Version × Nat) := cover (networks.map Prefix.range)

theorem containsNetwork_iff {outer inner : Prefix} : containsNetwork outer inner = true ↔
    outer.version = inner.version ∧ outer.bits ≤ inner.bits ∧
      inner.range.start/outer.block = outer.value/outer.block := by
  simp only [containsNetwork,Bool.and_eq_true,decide_eq_true_eq,contains_iff,and_assoc]
  refine and_congr_right fun same => and_congr_right fun _ => ?_
  change _ ∧ inner.version = outer.version ∧ inner.range.start/outer.block = _ ↔ _
  simp [same,Prefix.addr]

theorem containsNetwork_subset {outer inner : Prefix} (h : containsNetwork outer inner = true) :
    inner.range.members ⊆ outer.range.members := by
  obtain ⟨same,shorter,first⟩ := containsNetwork_iff.mp h
  intro x hx
  rw [mem_members_div] at hx
  have wider : x.2/outer.block = inner.range.start/outer.block := by
    refine div_block hx.2 ?_
    change inner.version.width-inner.bits ≤ outer.version.width-outer.bits
    rw [same]
    omega
  exact GoNetip.mem_range.mpr ⟨hx.1.trans same.symm,wider.trans first⟩

theorem containsNetwork_of_common {outer inner : Prefix} (shorter : outer.bits ≤ inner.bits)
    {x : Version × Nat} (ho : x ∈ outer.range.members) (hi : x ∈ inner.range.members) :
    containsNetwork outer inner = true := by
  have hx := GoNetip.mem_range.mp ho
  rw [mem_members_div] at hi
  have same : outer.version = inner.version := hx.1.symm.trans hi.1
  have wider : x.2/outer.block = inner.range.start/outer.block := by
    refine div_block hi.2 ?_
    change inner.version.width-inner.bits ≤ outer.version.width-outer.bits
    rw [same]
    omega
  exact containsNetwork_iff.mpr ⟨same,shorter,wider.symm.trans hx.2⟩

theorem start_mem (p : Prefix) : (p.version,p.range.start) ∈ p.range.members :=
  mem_members.mpr ⟨rfl,le_rfl,Nat.lt_add_of_pos_right (Nat.two_pow_pos _)⟩

theorem containsNetwork_refl (p : Prefix) : containsNetwork p p = true :=
  containsNetwork_of_common le_rfl (start_mem p) (start_mem p)

variable {p : Prefix}

theorem eq_of_containsNetwork {q : Prefix} (hp : p.masked = p) (hq : q.masked = q)
    (h : containsNetwork p q = true) (bits : p.bits = q.bits) : p = q := by
  obtain ⟨same,-,first⟩ := containsNetwork_iff.mp h
  have start : ∀ r : Prefix, r.masked = r → r.value = r.value/r.block*r.block := fun r hr =>
    (congrArg Prefix.value hr).symm
  have block : p.block = q.block := by
    rw [Prefix.block,Prefix.block,same,bits]
  have value : p.value = q.value := by
    have first : q.value/q.block*q.block/p.block = p.value/p.block := first
    rw [block,Nat.mul_div_cancel _ (block_pos q)] at first
    rw [start p hp,start q hq,block,first]
  obtain ⟨pv,pn,pb,_,_⟩ := p
  obtain ⟨qv,qn,qb,_,_⟩ := q
  cases same
  cases bits
  cases value
  rfl

variable {networks : List Prefix}

theorem covered_iff {candidate : Prefix} {i : Nat} :
    covered networks candidate i = true ↔ ∃ other j, networks[j]? = some other ∧ j ≠ i ∧
      ¬(candidate = other ∧ i < j) ∧ containsNetwork other candidate = true := by
  simp only [covered,List.any_eq_true,Prod.exists,List.mem_zipIdx_iff_getElem?]
  simp only [Bool.and_eq_true,decide_eq_true_eq,Bool.not_eq_true',Bool.and_eq_false_iff,
    decide_eq_false_iff_not,not_and_or,and_assoc,ne_eq]

theorem deduplicated_apart (networks : List Prefix) :
    Apart ((deduplicated networks).map Prefix.range) := by
  have order : networks.zipIdx.Pairwise fun a b => a.2 < b.2 := by
    refine List.Pairwise.of_map Prod.snd (fun _ _ h => h) ?_
    rw [List.zipIdx_map_snd]
    exact List.pairwise_lt_range'
  rw [Apart,List.pairwise_map,deduplicated,List.pairwise_map]
  refine List.Pairwise.imp_of_mem ?_ (order.sublist List.filter_sublist)
  rintro ⟨p,i⟩ ⟨q,j⟩ hp hq hij
  simp only [List.mem_filter,List.mem_zipIdx_iff_getElem?,Bool.not_eq_true',Bool.eq_false_iff,
    ne_eq,covered_iff] at hp hq hij
  refine Finset.disjoint_left.mpr fun x hxp hxq => ?_
  -- the later one is not inside the earlier, so the earlier is inside the later and the same
  have later : containsNetwork p q ≠ true := fun h =>
    hq.2 ⟨p,i,hp.1,ne_of_lt hij,fun both => Nat.lt_asymm hij both.2,h⟩
  have shorter : q.bits ≤ p.bits := by
    by_contra longer
    exact later (containsNetwork_of_common (by omega) hxp hxq)
  have earlier := containsNetwork_of_common shorter hxq hxp
  by_cases same : p = q
  · exact later (same ▸ containsNetwork_refl p)
  · exact hp.2 ⟨q,j,hq.1,ne_of_gt hij,fun both => same both.1,earlier⟩

theorem exists_kept (masked : ∀ p ∈ networks, p.masked = p)
    {i : Nat} (hp : networks[i]? = some p) :
    ∃ q ∈ deduplicated networks, p.range.members ⊆ q.range.members := by
  -- along the covering ones the length goes down, or the index of equal ones does
  induction h : p.bits*(networks.length+1)+i using Nat.strong_induction_on generalizing p i with
  | _ measure ih =>
    cases hc : covered networks p i with
    | false =>
      refine ⟨p,List.mem_map.mpr ⟨(p,i),List.mem_filter.mpr ⟨?_,?_⟩,rfl⟩,Finset.Subset.refl _⟩
      · exact List.mem_zipIdx_iff_getElem?.mpr hp
      · simp [hc]
    | true =>
      obtain ⟨q,j,hq,hne,hnot,inside⟩ := covered_iff.mp hc
      have shorter := (containsNetwork_iff.mp inside).2.1
      have bound : j < networks.length := (List.getElem?_eq_some_iff.mp hq).1
      have less : q.bits*(networks.length+1)+j < measure := by
        rcases Nat.lt_or_eq_of_le shorter with shorter | same
        · have : (q.bits+1)*(networks.length+1) ≤ p.bits*(networks.length+1) :=
            Nat.mul_le_mul_right _ shorter
          rw [Nat.add_mul] at this
          omega
        · have eq := eq_of_containsNetwork (masked q (List.mem_of_getElem? hq))
            (masked p (List.mem_of_getElem? hp)) inside same
          have : j < i := by
            by_contra hge
            exact hnot ⟨eq.symm,by omega⟩
          rw [same]
          omega
      obtain ⟨r,kept,within⟩ := ih _ less hq rfl
      exact ⟨r,kept,Finset.Subset.trans (containsNetwork_subset inside) within⟩

theorem deduplicated_subset (h : p ∈ deduplicated networks) :
    p ∈ networks := by
  obtain ⟨⟨q,i⟩,mem,rfl⟩ := List.mem_map.mp h
  exact List.mem_of_getElem? (List.mem_zipIdx_iff_getElem?.mp (List.mem_filter.mp mem).1)

theorem mem_addresses {x : Version × Nat} :
    x ∈ addresses networks ↔ ∃ p ∈ networks, x ∈ p.range.members := by
  simp [addresses,mem_cover]

theorem addresses_deduplicated (masked : ∀ p ∈ networks, p.masked = p) :
    addresses (deduplicated networks) = addresses networks := by
  ext x
  rw [mem_addresses,mem_addresses]
  constructor
  · rintro ⟨p,mem,hx⟩
    exact ⟨p,deduplicated_subset mem,hx⟩
  · rintro ⟨p,mem,hx⟩
    obtain ⟨i,hi⟩ := List.mem_iff_getElem?.mp mem
    obtain ⟨q,kept,within⟩ := exists_kept masked hi
    exact ⟨q,kept,within hx⟩

theorem sum_deduplicated (masked : ∀ p ∈ networks, p.masked = p) :
    ((deduplicated networks).map fun p => 2^hostBits p).sum = (addresses networks).card := by
  rw [←addresses_deduplicated masked,addresses,card_cover (deduplicated_apart networks),List.map_map]
  rfl

theorem parseCidr_masked {t : Text} (h : parseCidr t = some p) : p.masked = p := by
  unfold parseCidr at h
  split at h
  · cases h
    exact masked_masked _
  · obtain ⟨a,-,rfl⟩ := Option.map_eq_some_iff.mp h
    exact full_masked a

theorem parseCidrs_masked {cidrs : List Text} : ∀ p ∈ parseCidrs cidrs, p.masked = p := by
  intro p mem
  obtain ⟨t,-,read⟩ := List.mem_filterMap.mp mem
  exact parseCidr_masked read

theorem sumCounts_wide (h : ∃ p ∈ networks, 64 ≤ hostBits p) (total : Nat) :
    sumCounts total networks = maxUint64 := by
  induction networks generalizing total with
  | nil => simp at h
  | cons p rest ih =>
    simp only [sumCounts]
    split
    · rfl
    · rename_i narrow
      obtain ⟨q,mem,wide⟩ := h
      rcases List.mem_cons.mp mem with rfl | mem
      · exact absurd wide narrow
      · exact ih ⟨q,mem,wide⟩ _

theorem sumCounts_narrow (h : ∀ p ∈ networks, hostBits p < 64) {total : Nat}
    (small : total < 2^64) :
    sumCounts total networks = (total+(networks.map fun p => 2^hostBits p).sum)%2^64 := by
  induction networks generalizing total with
  | nil => exact (Nat.mod_eq_of_lt small).symm
  | cons p rest ih =>
    have hp := h p (by simp)
    have wrap : (total+2^hostBits p)%2^64 < 2^64 := Nat.mod_lt _ (Nat.two_pow_pos 64)
    rw [sumCounts,if_neg (by omega),ih (fun q hq => h q (by simp [hq])) wrap,Nat.mod_add_mod,
      List.map_cons,List.sum_cons,add_assoc]

/-- The count is exact or saturates: a single prefix has 64 host bits or more, or the sum
does not wrap, or it wraps to the very bound. -/
def Fits (networks : List Prefix) : Prop :=
  (∃ p ∈ networks, 64 ≤ hostBits p) ∨ (addresses networks).card < 2^64 ∨
    (addresses networks).card%2^64 = maxUint64

theorem hostBits_le {q : Prefix} (h : p.range.members ⊆ q.range.members) :
    hostBits p ≤ hostBits q := by
  have := Finset.card_le_card h
  rw [card_members,card_members] at this
  exact (Nat.pow_le_pow_iff_right (by decide)).mp this

theorem wide_card (mem : p ∈ networks)
    (wide : 64 ≤ hostBits p) : 2^64 ≤ (addresses networks).card := by
  have inside : p.range.members ⊆ addresses networks := fun x hx => mem_addresses.mpr ⟨p,mem,hx⟩
  calc 2^64 ≤ 2^hostBits p := Nat.pow_le_pow_right (by decide) wide
    _ = p.range.members.card := (card_members p.range).symm
    _ ≤ _ := Finset.card_le_card inside

theorem addressCount_iff (cidrs : List Text) :
    addressCount cidrs = min (addresses (parseCidrs cidrs)).card maxUint64 ↔
      Fits (parseCidrs cidrs) := by
  have bound : maxUint64+1 = 2^64 := rfl
  by_cases wide : ∃ p ∈ parseCidrs cidrs, 64 ≤ hostBits p
  · refine iff_of_true ?_ (.inl wide)
    obtain ⟨p,mem,hp⟩ := wide
    obtain ⟨i,hi⟩ := List.mem_iff_getElem?.mp mem
    obtain ⟨q,kept,within⟩ := exists_kept parseCidrs_masked hi
    have many := wide_card mem hp
    rw [addressCount,sumCounts_wide ⟨q,kept,le_trans hp (hostBits_le within)⟩,
      Nat.min_eq_right (by omega)]
  · have narrow : ∀ p ∈ deduplicated (parseCidrs cidrs), hostBits p < 64 := fun p mem => by
      by_contra h
      exact wide ⟨p,deduplicated_subset mem,by omega⟩
    have count : addressCount cidrs = (addresses (parseCidrs cidrs)).card%2^64 := by
      rw [addressCount,sumCounts_narrow narrow (Nat.two_pow_pos 64),
        sum_deduplicated parseCidrs_masked,zero_add]
    rw [count,Fits,or_iff_right wide]
    by_cases small : (addresses (parseCidrs cidrs)).card < 2^64
    · refine iff_of_true ?_ (.inl small)
      rw [Nat.mod_eq_of_lt small,Nat.min_eq_left (by omega)]
    · rw [Nat.min_eq_right (by omega),or_iff_right small]

def defaultMaxAddresses : Int := 1024

def ceiling (maxAddressesPerJob : Int) : Int :=
  if maxAddressesPerJob ≤ 0 then defaultMaxAddresses else maxAddressesPerJob

def overLimit (maxAddressesPerJob : Int) (targets : List Text) : Bool :=
  (ceiling maxAddressesPerJob).toNat < addressCount targets

end CircuitBreaker.NetScope

namespace CircuitBreaker.AgentScope
open BinaryBlocks IpText GoNetip ScopeTexts

def parseCidrs (values : List Text) : List Network :=
  values.filterMap fun value => ipNetwork false (strip value)

def addressCount (cidrs : List Text) : Nat :=
  let v4 := (parseCidrs cidrs).filter (·.address.version = .v4)
  let v6 := (parseCidrs cidrs).filter (·.address.version = .v6)
  ((collapseAddresses v4).map Network.numAddresses).sum +
    ((collapseAddresses v6).map Network.numAddresses).sum

theorem range_same {p : Prefix} {n : Network} (masked : p.masked = p) (h : Same p n) :
    n.range = p.range := by
  have start : p.value/p.block*p.block = p.value := congrArg Prefix.value masked
  unfold Network.range Prefix.range
  congr 1
  · exact h.version
  · rw [h.value,start]
  · rw [h.version,h.bits]

theorem ranges_same {cidrs : List Text} (accepted : ∀ t ∈ cidrs, (NetScope.parseCidr t).isSome = true)
    (unzoned : ∀ t ∈ cidrs, '%' ∉ t) :
    (parseCidrs cidrs).map Network.range = (NetScope.parseCidrs cidrs).map Prefix.range ∧
      ∀ n ∈ parseCidrs cidrs, n.address.zone = [] := by
  induction cidrs with
  | nil => exact ⟨rfl,nofun⟩
  | cons t rest ih =>
    obtain ⟨p,hp⟩ := Option.isSome_iff_exists.mp (accepted t (by simp))
    obtain ⟨n,hn,same⟩ := parseCidr_same hp (unzoned t (by simp))
    obtain ⟨ranges,zones⟩ := ih (fun u hu => accepted u (by simp [hu])) fun u hu => unzoned u (by simp [hu])
    have left : parseCidrs (t :: rest) = n :: parseCidrs rest := List.filterMap_cons_some hn
    have right : NetScope.parseCidrs (t :: rest) = p :: NetScope.parseCidrs rest :=
      List.filterMap_cons_some hp
    rw [left,right,List.map_cons,List.map_cons,ranges,range_same (NetScope.parseCidr_masked hp) same]
    refine ⟨rfl,fun m mem => ?_⟩
    rcases List.mem_cons.mp mem with rfl | mem
    · exact same.zoneless
    · exact zones m mem

theorem covers_families (nets : List Network) :
    covers nets = covers (nets.filter (·.address.version = .v4)) ∪
      covers (nets.filter (·.address.version = .v6)) := by
  ext x
  simp only [Finset.mem_union,mem_covers,List.mem_filter,decide_eq_true_eq]
  constructor
  · rintro ⟨n,mem,hx⟩
    cases hv : n.address.version with
    | v4 => exact .inl ⟨n,⟨mem,hv⟩,hx⟩
    | v6 => exact .inr ⟨n,⟨mem,hv⟩,hx⟩
  · rintro (⟨n,⟨mem,-⟩,hx⟩ | ⟨n,⟨mem,-⟩,hx⟩)
    · exact ⟨n,mem,hx⟩
    · exact ⟨n,mem,hx⟩

theorem addressCount_eq {cidrs : List Text}
    (accepted : ∀ t ∈ cidrs, (NetScope.parseCidr t).isSome = true) (unzoned : ∀ t ∈ cidrs, '%' ∉ t) :
    addressCount cidrs = (NetScope.addresses (NetScope.parseCidrs cidrs)).card := by
  obtain ⟨ranges,zones⟩ := ranges_same accepted unzoned
  have plain : ∀ v : Version, ∀ n ∈ (parseCidrs cidrs).filter (·.address.version = v), Plain v n :=
    fun v n mem => by
      obtain ⟨mem,hv⟩ := List.mem_filter.mp mem
      exact ⟨of_decide_eq_true hv,zones n mem⟩
  have apart : Disjoint (covers ((parseCidrs cidrs).filter (·.address.version = .v4)))
      (covers ((parseCidrs cidrs).filter (·.address.version = .v6))) := by
    refine Finset.disjoint_left.mpr fun x h4 h6 => ?_
    obtain ⟨m,hm,h4⟩ := mem_covers.mp h4
    obtain ⟨n,hn,h6⟩ := mem_covers.mp h6
    have := (IpText.mem_range.mp h4).1.symm.trans (IpText.mem_range.mp h6).1
    rw [(plain _ m hm).1,(plain _ n hn).1] at this
    cases this
  have whole : NetScope.addresses (NetScope.parseCidrs cidrs) = covers (parseCidrs cidrs) := by
    rw [NetScope.addresses,←ranges]
    rfl
  rw [whole,covers_families,Finset.card_union_of_disjoint apart,addressCount,
    sum_collapseAddresses (plain .v4),sum_collapseAddresses (plain .v6)]

end CircuitBreaker.AgentScope

namespace CircuitBreaker.NetScope
open BinaryBlocks IpText GoNetip

structure Agrees (cidrs : List Text) : Prop where
  exact_ : addressCount cidrs = min (addresses (parseCidrs cidrs)).card maxUint64
  backend : addressCount cidrs = min (AgentScope.addressCount cidrs) maxUint64
  refused : ∀ maxAddressesPerJob : Int, maxAddressesPerJob < 2^63 →
    ceiling maxAddressesPerJob < (addresses (parseCidrs cidrs)).card →
      overLimit maxAddressesPerJob cidrs = true

theorem overLimit_of_exact {cidrs : List Text} {maxAddressesPerJob : Int}
    (h : addressCount cidrs = min (addresses (parseCidrs cidrs)).card maxUint64)
    (small : maxAddressesPerJob < 2^63)
    (more : ceiling maxAddressesPerJob < (addresses (parseCidrs cidrs)).card) :
    overLimit maxAddressesPerJob cidrs = true := by
  have bound : (2 : Int)^63 ≤ maxUint64 := by decide
  simp only [overLimit,decide_eq_true_eq,h]
  unfold ceiling defaultMaxAddresses at *
  split at more
  · rename_i hle
    omega
  · omega

def mixedTargets : List Text :=
  ["10.0.0.0/24".toList," 10.0.0.128/25".toList,"fd00::/120".toList]

def halvesOfSubnet : List Text := ["fd00::/65".toList,"fd00:0:0:0:8000::/65".toList]

end CircuitBreaker.NetScope
