import CircuitBreaker.BinaryBlocks
import CircuitBreaker.IpText
import CircuitBreaker.PyDict
import Mathlib.Data.List.Dedup
import Mathlib.Data.List.Sort
import Mathlib.Data.Nat.Find

/-! Networks put together as Python's `ipaddress.collapse_addresses` does it: single addresses in
ranges, two halves into the whole, and no network inside another. What comes out covers what went
in, and no address twice. -/

namespace IpText
open BinaryBlocks CircuitBreaker List

def Network.numAddresses (n : Network) : Nat := 2^(n.address.version.width-n.prefixLen)

def Network.broadcast (n : Network) : Nat := n.address.value+n.numAddresses-1

/-- The network of a number and a prefix length, host bits cleared. -/
def netAt (v : Version) (value len : Nat) : Network :=
  ⟨⟨v,value%2^v.width/2^(v.width-min len v.width)*2^(v.width-min len v.width),[],
      Nat.lt_of_le_of_lt (Nat.div_mul_le_self ..) (Nat.mod_lt _ (Nat.two_pow_pos _)),zoneless_none v,plain_none⟩,
    min len v.width,Nat.min_le_right ..,Nat.mul_mod_left ..⟩

def Network.supernet (n : Network) : Network :=
  if n.prefixLen = 0 then n else netAt n.address.version n.address.value (n.prefixLen-1)

/-- The runs of consecutive addresses. -/
def findAddressRange (first last : Address) : List Address → List (Address × Address)
  | [] => [(first,last)]
  | ip::rest =>
    if ip.value ≠ last.value+1 then (first,last)::findAddressRange ip ip rest
    else findAddressRange first ip rest

def countRighthandZeroBits (number bits : Nat) : Nat :=
  Nat.findGreatest (fun k => 2^k ∣ number) bits

/-- The networks from the number `first` to the number `last`, each as large as it can be. -/
def summarizeAddressRange (v : Version) (first last : Nat) : List Network :=
  if first ≤ last then
    let nbits := min (countRighthandZeroBits first v.width) (Nat.log2 (last-first+1))
    netAt v first (v.width-nbits)::summarizeAddressRange v (first+2^nbits) last
  else []
termination_by last+1-first
decreasing_by
  have := Nat.two_pow_pos (min (countRighthandZeroBits first v.width) (Nat.log2 (last-first+1)))
  omega

variable {subnets : Dict Network Network}

variable {existing m net : Network}

theorem length_delete {k : Network} (h : subnets.get k = some existing) :
    (subnets.restrict (· ≠ k)).items.length < subnets.items.length := by
  refine length_filter_lt_length_iff_exists.mpr ⟨_,Dict.get_eq_some_iff.mp h,?_⟩
  simp

/-- `toMerge` from its end on; `subnets` has one of the two halves of each network in it. -/
def mergeNetworks (toMerge : List Network) (subnets : Dict Network Network) : Dict Network Network :=
  match toMerge with
  | [] => subnets
  | net::rest =>
    match _h : subnets.get net.supernet with
    | none => mergeNetworks rest (subnets.set net.supernet net)
    | some existing =>
      if existing = net then mergeNetworks rest subnets
      else mergeNetworks (net.supernet::rest) (subnets.restrict (· ≠ net.supernet))
termination_by 2*toMerge.length+subnets.items.length
decreasing_by
  · simp only [Dict.items_set_new net _h,length_append,length_cons,length_nil]
    omega
  · simp only [length_cons]
    omega
  · have := length_delete _h
    simp only [length_cons]
    omega

/-- The order of networks of one family: by number, of one number the wider first. -/
def networkLe (m n : Network) : Prop :=
  m.address.value < n.address.value ∨ m.address.value = n.address.value ∧ m.prefixLen ≤ n.prefixLen

instance : DecidableRel networkLe := fun _ _ => inferInstanceAs (Decidable (_ ∨ _))

/-- Of sorted networks, those that reach beyond the last one taken. -/
def skipSubsumed : Option Network → List Network → List Network
  | _, [] => []
  | none, net::rest => net::skipSubsumed (some net) rest
  | some last, net::rest =>
    if net.broadcast ≤ last.broadcast then skipSubsumed (some last) rest
    else net::skipSubsumed (some net) rest

def collapseInternal (addresses : List Network) : List Network :=
  let subnets := mergeNetworks addresses.reverse .empty
  skipSubsumed none ((subnets.items.map Prod.snd).insertionSort networkLe)

/-- The networks of single addresses, summed up by runs. -/
def summarized (ips : List Address) : List Network :=
  match ips.dedup.insertionSort (·.value ≤ ·.value) with
  | [] => []
  | first::rest => (findAddressRange first first rest).flatMap fun (a,b) =>
      summarizeAddressRange a.version a.value b.value

/-- `ipaddress.collapse_addresses` of networks of one family. -/
def collapseAddresses (nets : List Network) : List Network :=
  let single (n : Network) : Bool := n.prefixLen = n.address.version.width
  collapseInternal (summarized ((nets.filter single).map Network.address) ++
    nets.filter fun n => !single n)

/-! What they cover. -/

def Network.range (n : Network) : Block Version :=
  ⟨n.address.version,n.address.value,n.address.version.width-n.prefixLen,
    Nat.dvd_of_mod_eq_zero n.aligned⟩

/-- The addresses of any of the networks. -/
def covers (nets : List Network) : Finset (Version × Nat) := cover (nets.map Network.range)

variable {nets : List Network} {x : Version × Nat}

theorem mem_covers :
    x ∈ covers nets ↔ ∃ n ∈ nets, x ∈ n.range.members := by
  simp [covers,mem_cover]

theorem covers_append (ms ns : List Network) : covers (ms++ns) = covers ms ∪ covers ns := by
  rw [covers,map_append,cover_append]
  rfl

theorem covers_cons (n : Network) (ns : List Network) :
    covers (n::ns) = n.range.members ∪ covers ns := rfl

variable {n : Network}

theorem mem_range : x ∈ n.range.members ↔
    x.1 = n.address.version ∧ n.address.value ≤ x.2 ∧ x.2 < n.address.value+n.numAddresses :=
  mem_members

theorem numAddresses_pos (n : Network) : 0 < n.numAddresses := Nat.two_pow_pos _

/-- A network of one family without a zone. -/
def Plain (v : Version) (n : Network) : Prop := n.address.version = v ∧ n.address.zone = []

theorem netAt_plain (v : Version) (value len : Nat) : Plain v (netAt v value len) := ⟨rfl,rfl⟩

variable {v : Version}

theorem supernet_plain (h : Plain v n) : Plain v n.supernet := by
  unfold Network.supernet
  split
  · exact h
  · exact ⟨h.1,rfl⟩

/-- A network at an aligned number. -/
theorem netAt_aligned {value k : Nat} (small : value < 2^v.width) (hk : k ≤ v.width)
    (aligned : 2^k ∣ value) :
    (netAt v value (v.width-k)).address.value = value ∧
      (netAt v value (v.width-k)).numAddresses = 2^k := by
  have width : v.width-min (v.width-k) v.width = k := by omega
  constructor
  · change value%2^v.width/2^(v.width-min (v.width-k) v.width)*
      2^(v.width-min (v.width-k) v.width) = value
    rw [width,Nat.mod_eq_of_lt small,Nat.div_mul_cancel aligned]
  · exact congrArg (2^·) width

/-- The networks of a range of numbers cover it. -/
theorem mem_summarize {first last : Nat} (small : last < 2^v.width) : x ∈ covers (summarizeAddressRange v first last) ↔
      x.1 = v ∧ first ≤ x.2 ∧ x.2 ≤ last := by
  induction h : last+1-first using Nat.strong_induction_on generalizing first with
  | _ size ih =>
    rw [summarizeAddressRange]
    split
    · rename_i hle
      simp only
      generalize hk : min (countRighthandZeroBits first v.width) (Nat.log2 (last-first+1)) = k
      have bits : k ≤ v.width := by
        have := @Nat.findGreatest_le (fun k => 2^k ∣ first) _ v.width
        simp only [countRighthandZeroBits] at hk
        omega
      have aligned : 2^k ∣ first := by
        have divides : 2^countRighthandZeroBits first v.width ∣ first :=
          @Nat.findGreatest_spec 0 (fun k => 2^k ∣ first) _ v.width (Nat.zero_le _) (by simp)
        exact Nat.dvd_trans (Nat.pow_dvd_pow 2 (by omega)) divides
      have fits : 2^k ≤ last-first+1 :=
        le_trans (Nat.pow_le_pow_right (by decide) (by omega)) (Nat.log2_self_le (by omega))
      obtain ⟨value,count⟩ := netAt_aligned (by omega : first < 2^v.width) bits aligned
      have pos := Nat.two_pow_pos k
      have rest := ih (last+1-(first+2^k)) (by omega) rfl
      rw [covers,map_cons,cover,Finset.mem_union,mem_range,value,count]
      change _ ∨ x ∈ covers _ ↔ _
      rw [rest]
      change x.1 = v ∧ _ ∨ _ ↔ _
      constructor
      · rintro (⟨hv,hl,hu⟩ | ⟨hv,hl,hu⟩)
        · exact ⟨hv,hl,by omega⟩
        · exact ⟨hv,by omega,hu⟩
      · rintro ⟨hv,hl,hu⟩
        by_cases hx : x.2 < first+2^k
        · exact .inl ⟨hv,hl,hx⟩
        · exact .inr ⟨hv,by omega,hu⟩
    · constructor
      · intro hx
        simp [covers,cover] at hx
      · rintro ⟨-,hl,hu⟩
        omega

/-- The runs hold the addresses they were made of, and no others. -/
theorem mem_findAddressRange {first last : Address} {rest : List Address} {x : Nat}
    (h : first.value ≤ last.value) :
    (∃ r ∈ findAddressRange first last rest, r.1.value ≤ x ∧ x ≤ r.2.value) ↔
      first.value ≤ x ∧ x ≤ last.value ∨ ∃ ip ∈ rest, ip.value = x := by
  induction rest generalizing first last with
  | nil => simp [findAddressRange]
  | cons ip rest ih =>
    simp only [findAddressRange]
    split
    · rw [exists_mem_cons_iff,ih le_rfl,exists_mem_cons_iff]
      refine or_congr_right (or_congr_left ?_)
      omega
    · rename_i next
      rw [not_not] at next
      rw [ih (by omega),exists_mem_cons_iff,←or_assoc]
      refine or_congr_left ?_
      omega

theorem findAddressRange_version {first last : Address} {rest : List Address}
    (hf : first.version = v) (hl : last.version = v) (hr : ∀ ip ∈ rest, ip.version = v) :
    ∀ r ∈ findAddressRange first last rest, r.1.version = v ∧ r.2.version = v := by
  induction rest generalizing first last with
  | nil =>
    intro r mem
    rw [mem_singleton.mp mem]
    exact ⟨hf,hl⟩
  | cons ip rest ih =>
    have hip := hr ip (by simp)
    have hrest : ∀ jp ∈ rest, jp.version = v := fun jp mem => hr jp (by simp [mem])
    simp only [findAddressRange]
    split
    · intro r mem
      rcases mem_cons.mp mem with rfl | mem
      · exact ⟨hf,hl⟩
      · exact ih hip hip hrest r mem
    · exact ih hf hip hrest

/-- Summed up, single addresses cover themselves. -/
theorem mem_summarized {ips : List Address} (h : ∀ ip ∈ ips, ip.version = v) : x ∈ covers (summarized ips) ↔ x.1 = v ∧ ∃ ip ∈ ips, ip.value = x.2 := by
  have same : ∀ {ip : Address}, ip ∈ ips.dedup.insertionSort (·.value ≤ ·.value) ↔ ip ∈ ips := by
    simp
  unfold summarized
  cases hs : ips.dedup.insertionSort (·.value ≤ ·.value) with rw [hs] at same
  | nil =>
    have none : ∀ ip, ip ∉ ips := fun ip mem => by simpa using same.mpr mem
    simp [covers,cover,none]
  | cons first rest =>
    have versions : ∀ ip ∈ first::rest, ip.version = v := fun ip mem => h ip (same.mp mem)
    have hf := versions first (by simp)
    have ranges := findAddressRange_version hf hf fun ip mem => versions ip (mem_cons_of_mem _ mem)
    simp only
    rw [mem_covers]
    have runs := @mem_findAddressRange first first rest x.2 le_rfl
    have members : (first.value ≤ x.2 ∧ x.2 ≤ first.value ∨ ∃ ip ∈ rest, ip.value = x.2) ↔
        ∃ ip ∈ ips, ip.value = x.2 := by
      simp only [←same,exists_mem_cons_iff]
      refine or_congr_left ?_
      omega
    rw [←members,←runs]
    constructor
    · rintro ⟨n,mem,hx⟩
      obtain ⟨r,hr,hn⟩ := mem_flatMap.mp mem
      obtain ⟨h1,h2⟩ := ranges r hr
      have small : r.2.value < 2^r.1.version.width := by
        rw [h1,←h2]
        exact r.2.small
      obtain ⟨hv,inside⟩ := (mem_summarize small).mp (mem_covers.mpr ⟨n,hn,hx⟩)
      exact ⟨hv.trans h1,r,hr,inside⟩
    · rintro ⟨hv,r,hr,inside⟩
      obtain ⟨h1,h2⟩ := ranges r hr
      have small : r.2.value < 2^r.1.version.width := by
        rw [h1,←h2]
        exact r.2.small
      obtain ⟨n,hn,hx⟩ := mem_covers.mp ((mem_summarize small).mpr ⟨hv.trans h1.symm,inside⟩)
      exact ⟨n,mem_flatMap.mpr ⟨r,hr,hn⟩,hx⟩

theorem summarizeAddressRange_plain {first last : Nat} :
    ∀ n ∈ summarizeAddressRange v first last, Plain v n := by
  induction h : last+1-first using Nat.strong_induction_on generalizing first with
  | _ size ih =>
    rw [summarizeAddressRange]
    split
    · have pos := Nat.two_pow_pos
        (min (countRighthandZeroBits first v.width) (Nat.log2 (last-first+1)))
      intro n mem
      rcases mem_cons.mp mem with rfl | mem
      · exact netAt_plain ..
      · exact ih _ (by omega) rfl n mem
    · exact nofun

theorem summarized_plain {ips : List Address} (h : ∀ ip ∈ ips, ip.version = v) :
    ∀ n ∈ summarized ips, Plain v n := by
  have same : ∀ {ip : Address}, ip ∈ ips.dedup.insertionSort (·.value ≤ ·.value) ↔ ip ∈ ips := by
    simp
  unfold summarized
  split
  · exact nofun
  · rename_i first rest hs
    rw [hs] at same
    have versions : ∀ ip ∈ first::rest, ip.version = v := fun ip mem => h ip (same.mp mem)
    have hf := versions first (by simp)
    have ranges := findAddressRange_version hf hf fun ip mem => versions ip (mem_cons_of_mem _ mem)
    intro n mem
    obtain ⟨r,hr,hn⟩ := mem_flatMap.mp mem
    have := summarizeAddressRange_plain n hn
    rwa [(ranges r hr).1] at this

/-- The bits that number the addresses of a network. -/
def Network.hostBits (n : Network) : Nat := n.address.version.width-n.prefixLen

theorem mem_range_div : x ∈ n.range.members ↔
    x.1 = n.address.version ∧ x.2/2^n.hostBits = n.address.value/2^n.hostBits :=
  mem_members_div

theorem supernet_prefixLen (h : n.prefixLen ≠ 0) :
    n.supernet.prefixLen = n.prefixLen-1 := by
  rw [Network.supernet,if_neg h]
  have := n.short
  exact Nat.min_eq_left (by omega)

theorem mem_supernet (h : n.prefixLen ≠ 0) : x ∈ n.supernet.range.members ↔
      x.1 = n.address.version ∧ x.2/2^(n.hostBits+1) = n.address.value/2^(n.hostBits+1) := by
  have short := n.short
  have width : n.address.version.width-min (n.prefixLen-1) n.address.version.width =
      n.hostBits+1 := by
    rw [Network.hostBits]
    omega
  rw [mem_range_div,Network.supernet,if_neg h]
  change x.1 = n.address.version ∧
    x.2/2^(n.address.version.width-min (n.prefixLen-1) n.address.version.width) =
      n.address.value%2^n.address.version.width/
        2^(n.address.version.width-min (n.prefixLen-1) n.address.version.width)*
        2^(n.address.version.width-min (n.prefixLen-1) n.address.version.width)/
        2^(n.address.version.width-min (n.prefixLen-1) n.address.version.width) ↔ _
  rw [width,Nat.mul_div_cancel _ (Nat.two_pow_pos _),Nat.mod_eq_of_lt n.address.small]

theorem range_supernet (n : Network) : n.range.members ⊆ n.supernet.range.members := by
  by_cases h : n.prefixLen = 0
  · rw [Network.supernet,if_pos h]
  · intro x hx
    rw [mem_range_div] at hx
    exact (mem_supernet h).mpr ⟨hx.1,div_block hx.2 (Nat.le_succ _)⟩

theorem eq_of_fields (hm : Plain v m) (hn : Plain v n)
    (value : m.address.value = n.address.value) (len : m.prefixLen = n.prefixLen) : m = n := by
  obtain ⟨⟨mv,mn,mz,_,_,_⟩,ml,_,_⟩ := m
  obtain ⟨⟨nv,nn,nz,_,_,_⟩,nl,_,_⟩ := n
  obtain ⟨rfl,rfl⟩ := hm
  obtain ⟨rfl,rfl⟩ := hn
  cases value
  cases len
  rfl

/-- Two networks with one supernet make it up. -/
theorem siblings (hm : Plain v m) (hn : Plain v n) (ne : m ≠ n) (same : m.supernet = n.supernet) :
    m.range.members ∪ n.range.members = n.supernet.range.members := by
  by_cases zm : m.prefixLen = 0
  · have own : m.supernet = m := by rw [Network.supernet,if_pos zm]
    rw [←same,own]
    refine Finset.union_eq_left.mpr ?_
    have := range_supernet n
    rwa [←same,own] at this
  by_cases zn : n.prefixLen = 0
  · have own : n.supernet = n := by rw [Network.supernet,if_pos zn]
    rw [own]
    refine Finset.union_eq_right.mpr ?_
    have := range_supernet m
    rwa [same,own] at this
  · have len : m.prefixLen = n.prefixLen := by
      have := congrArg Network.prefixLen same
      rw [supernet_prefixLen zm,supernet_prefixLen zn] at this
      omega
    have bits : m.hostBits = n.hostBits := by
      rw [Network.hostBits,Network.hostBits,hm.1,hn.1,len]
    have half : ∀ k : Nat, k/2^(n.hostBits+1) = k/2^n.hostBits/2 := fun k => by
      rw [Nat.pow_succ,Nat.div_div_eq_div_mul]
    -- the halves are numbered `2q` and `2q+1`
    have apart : m.address.value/2^n.hostBits ≠ n.address.value/2^n.hostBits := by
      intro eq
      refine ne (eq_of_fields hm hn ?_ len)
      rw [←Nat.div_mul_cancel (Nat.dvd_of_mod_eq_zero m.aligned),
        ←Nat.div_mul_cancel (Nat.dvd_of_mod_eq_zero n.aligned)]
      change m.address.value/2^m.hostBits*2^m.hostBits = n.address.value/2^n.hostBits*2^n.hostBits
      rw [bits,eq]
    have whole : m.address.value/2^n.hostBits/2 = n.address.value/2^n.hostBits/2 := by
      have inside : (v,m.address.value) ∈ m.supernet.range.members :=
        range_supernet m (mem_range_div.mpr ⟨hm.1.symm,rfl⟩)
      rw [same,mem_supernet zn] at inside
      rw [←half,←half]
      exact inside.2
    ext x
    rw [Finset.mem_union,mem_range_div,mem_range_div,mem_supernet zn,bits,half,half,hm.1,hn.1]
    constructor
    · rintro (⟨hv,hx⟩ | ⟨hv,hx⟩)
      · exact ⟨hv,by omega⟩
      · exact ⟨hv,by omega⟩
    · rintro ⟨hv,hx⟩
      by_cases hn : x.2/2^n.hostBits = n.address.value/2^n.hostBits
      · exact .inr ⟨hv,hn⟩
      · exact .inl ⟨hv,by omega⟩

/-- Every half waits under the network it is a half of. -/
structure Waiting (v : Version) (subnets : Dict Network Network) : Prop where
  plain : ∀ e ∈ subnets.items, Plain v e.2
  key : ∀ e ∈ subnets.items, e.1 = e.2.supernet

def values (subnets : Dict Network Network) : List Network := subnets.items.map Prod.snd

theorem Waiting.set (h : Waiting v subnets) (hn : Plain v net) (free : subnets.get net.supernet = none) :
    Waiting v (subnets.set net.supernet net) := by
  have items := Dict.items_set_new net free
  constructor
  · intro e mem
    rw [items,mem_append,mem_singleton] at mem
    rcases mem with mem | rfl
    · exact h.plain e mem
    · exact hn
  · intro e mem
    rw [items,mem_append,mem_singleton] at mem
    rcases mem with mem | rfl
    · exact h.key e mem
    · rfl

theorem Waiting.delete (h : Waiting v subnets)
    (k : Network) : Waiting v (subnets.restrict (· ≠ k)) :=
  ⟨fun e mem => h.plain e (mem_filter.mp mem).1,fun e mem => h.key e (mem_filter.mp mem).1⟩

theorem covers_delete {k : Network} (h : subnets.get k = some existing) : covers (values subnets) =
      existing.range.members ∪ covers (values (subnets.restrict (· ≠ k))) := by
  ext x
  simp only [Finset.mem_union,mem_covers,values,mem_map,Prod.exists,exists_eq_right,Dict.restrict,
    mem_filter,decide_eq_true_eq]
  constructor
  · rintro ⟨n,⟨key,mem⟩,hx⟩
    by_cases hk : key = k
    · rw [←Dict.get_eq_some_iff,hk,h] at mem
      cases mem
      exact .inl hx
    · exact .inr ⟨n,⟨key,mem,hk⟩,hx⟩
  · rintro (hx | ⟨n,⟨key,mem,-⟩,hx⟩)
    · exact ⟨existing,⟨k,Dict.get_eq_some_iff.mp h⟩,hx⟩
    · exact ⟨n,⟨key,mem⟩,hx⟩

theorem mergeNetworks_free (h : subnets.get net.supernet = none) (rest : List Network) :
    mergeNetworks (net::rest) subnets = mergeNetworks rest (subnets.set net.supernet net) := by
  rw [mergeNetworks]
  split
  · rfl
  · rename_i taken
    rw [h] at taken
    cases taken

theorem mergeNetworks_taken (h : subnets.get net.supernet = some existing) (rest : List Network) :
    mergeNetworks (net::rest) subnets =
      if existing = net then mergeNetworks rest subnets
      else mergeNetworks (net.supernet::rest) (subnets.restrict (· ≠ net.supernet)) := by
  rw [mergeNetworks]
  split
  · rename_i free
    rw [h] at free
    cases free
  · rename_i taken
    cases h.symm.trans taken
    rfl

/-- Merging keeps what is covered. -/
theorem covers_mergeNetworks (toMerge : List Network)
    (subnets : Dict Network Network) (plain : ∀ n ∈ toMerge, Plain v n) (waiting : Waiting v subnets) :
    covers (values (mergeNetworks toMerge subnets)) = covers toMerge ∪ covers (values subnets) ∧
      Waiting v (mergeNetworks toMerge subnets) := by
  induction toMerge, subnets using mergeNetworks.induct with
  | case1 subnets =>
    rw [mergeNetworks]
    exact ⟨by simp [covers,cover],waiting⟩
  | case2 subnets net rest free ih =>
    have hn := plain net (by simp)
    obtain ⟨same,after⟩ := ih (fun n mem => plain n (by simp [mem])) (waiting.set hn free)
    rw [mergeNetworks_free free]
    refine ⟨?_,after⟩
    have stored : values (subnets.set net.supernet net) = values subnets++[net] := by
      rw [values,Dict.items_set_new net free,map_append]
      rfl
    have single : covers [net] = net.range.members := by rw [covers_cons]; exact Finset.union_empty _
    rw [same,stored,covers_append,single,covers_cons]
    ext x
    simp only [Finset.mem_union]
    tauto
  | case3 subnets net rest taken ih =>
    obtain ⟨same,after⟩ := ih (fun n mem => plain n (by simp [mem])) waiting
    rw [mergeNetworks_taken taken,if_pos rfl]
    refine ⟨?_,after⟩
    have inside := covers_delete taken
    rw [same,inside,covers_cons]
    ext x
    simp only [Finset.mem_union]
    tauto
  | case4 subnets net rest existing taken other ih =>
    have hn := plain net (by simp)
    have entry := Dict.get_eq_some_iff.mp taken
    have merged : ∀ n ∈ net.supernet::rest, Plain v n := fun n mem => by
      rcases mem_cons.mp mem with rfl | mem
      · exact supernet_plain hn
      · exact plain n (by simp [mem])
    obtain ⟨same,after⟩ := ih merged (waiting.delete _)
    rw [mergeNetworks_taken taken,if_neg other]
    refine ⟨?_,after⟩
    have whole := siblings (waiting.plain _ entry) hn other (waiting.key _ entry).symm
    rw [same,covers_cons,covers_cons,covers_delete taken,←whole]
    ext x
    simp only [Finset.mem_union]
    tauto

theorem broadcast_lt (n : Network) : n.broadcast+1 = n.address.value+n.numAddresses := by
  have := numAddresses_pos n
  rw [Network.broadcast]
  omega

/-- Of two networks of one family, the later in order reaches further only when they are apart. -/
theorem after_of_broadcast (hm : Plain v m) (hn : Plain v n)
    (order : networkLe m n) (further : m.broadcast < n.broadcast) :
    m.broadcast < n.address.value := by
  by_contra overlap
  have bm := broadcast_lt m
  have bn := broadcast_lt n
  have first : m.address.value ≤ n.address.value := by
    rcases order with h | h
    · omega
    · omega
  have inside : (v,n.address.value) ∈ m.range.members := mem_range.mpr ⟨hm.1.symm,first,by omega⟩
  have own : (v,n.address.value) ∈ n.range.members :=
    mem_range.mpr ⟨hn.1.symm,le_rfl,Nat.lt_add_of_pos_right (numAddresses_pos n)⟩
  have last : (v,n.broadcast) ∈ n.range.members := mem_range.mpr ⟨hn.1.symm,by omega,by omega⟩
  rcases le_total n.range.bits m.range.bits with larger | larger
  · rcases nested_or_disjoint larger with nested | apart
    · have := (mem_range.mp (nested last)).2.2
      simp only at this
      omega
    · exact Finset.disjoint_left.mp apart own inside
  · rcases nested_or_disjoint larger with nested | apart
    · -- the wider network would start no later, and then come first
      have start : (v,m.address.value) ∈ m.range.members :=
        mem_range.mpr ⟨hm.1.symm,le_rfl,Nat.lt_add_of_pos_right (numAddresses_pos m)⟩
      have := (mem_range.mp (nested start)).2.1
      simp only at this
      have len : m.prefixLen ≤ n.prefixLen := by
        rcases order with h | h
        · omega
        · exact h.2
      have count : n.numAddresses ≤ m.numAddresses := by
        rw [Network.numAddresses,Network.numAddresses,hm.1,hn.1]
        exact Nat.pow_le_pow_right (by decide) (by omega)
      omega
    · exact Finset.disjoint_left.mp apart inside own

/-- In order, none reaching the next. -/
def Spaced (nets : List Network) : Prop := nets.Pairwise fun m n => m.broadcast < n.address.value

/-- Sorted networks without the subsumed: nothing twice, nothing lost. -/
theorem skipSubsumed_spec {last : Network} (hl : Plain v last)
    (plain : ∀ n ∈ nets, Plain v n) (sorted : (last::nets).Pairwise networkLe) :
    Spaced (last::skipSubsumed (some last) nets) ∧
      covers (last::skipSubsumed (some last) nets) = covers (last::nets) := by
  induction nets generalizing last with
  | nil => exact ⟨pairwise_singleton ..,rfl⟩
  | cons net rest ih =>
    have hn := plain net (by simp)
    have hrest : ∀ n ∈ rest, Plain v n := fun n mem => plain n (by simp [mem])
    obtain ⟨before,later⟩ := pairwise_cons.mp sorted
    have order := before net (by simp)
    simp only [skipSubsumed]
    split
    · rename_i subsumed
      obtain ⟨spaced,same⟩ := ih hl hrest
        (pairwise_cons.mpr ⟨fun n mem => before n (by simp [mem]),(pairwise_cons.mp later).2⟩)
      refine ⟨spaced,?_⟩
      have inside : net.range.members ⊆ last.range.members := by
        intro x hx
        obtain ⟨hv,hlo,hhi⟩ := mem_range.mp hx
        have first : last.address.value ≤ net.address.value := by
          rcases order with h | h
          · omega
          · omega
        have bl := broadcast_lt last
        have bn := broadcast_lt net
        exact mem_range.mpr ⟨hv.trans (hn.1.trans hl.1.symm),by omega,by omega⟩
      rw [same,covers_cons,covers_cons,covers_cons,←Finset.union_assoc,Finset.union_eq_left.mpr inside]
    · rename_i further
      have gap := after_of_broadcast hl hn order (by omega)
      obtain ⟨spaced,same⟩ := ih hn hrest later
      refine ⟨pairwise_cons.mpr ⟨fun n mem => ?_,spaced⟩,?_⟩
      · rcases mem_cons.mp mem with rfl | mem
        · exact gap
        · have next := (pairwise_cons.mp spaced).1 n mem
          have := broadcast_lt net
          have := numAddresses_pos net
          omega
      · rw [covers_cons,same,covers_cons last]

theorem apart_of_spaced (h : Spaced nets) : Apart (nets.map Network.range) := by
  rw [Apart,pairwise_map]
  refine h.imp fun {m n} gap => Finset.disjoint_left.mpr fun x hm hn => ?_
  have bm := broadcast_lt m
  have := (mem_range.mp hm).2.2
  have := (mem_range.mp hn).2.1
  omega

instance : Std.Total networkLe := ⟨fun m n => by unfold networkLe; omega⟩

instance : IsTrans Network networkLe := ⟨fun l m n h1 h2 => by unfold networkLe at *; omega⟩

theorem collapseInternal_spec (plain : ∀ n ∈ nets, Plain v n) :
    Spaced (collapseInternal nets) ∧ covers (collapseInternal nets) = covers nets := by
  have start : Waiting v (.empty : Dict Network Network) :=
    ⟨nofun,nofun⟩
  obtain ⟨same,waiting⟩ := covers_mergeNetworks nets.reverse .empty
    (fun n mem => plain n (mem_reverse.mp mem)) start
  have merged : covers (values (mergeNetworks nets.reverse .empty)) = covers nets := by
    rw [same]
    ext x
    simp [mem_covers,values,Dict.empty]
  have sorted := pairwise_insertionSort networkLe (values (mergeNetworks nets.reverse .empty))
  have mem : ∀ {n : Network}, n ∈ (values (mergeNetworks nets.reverse .empty)).insertionSort networkLe ↔
      n ∈ values (mergeNetworks nets.reverse .empty) := mem_insertionSort _
  have all : ∀ n ∈ values (mergeNetworks nets.reverse .empty), Plain v n := fun n hn => by
    obtain ⟨e,he,rfl⟩ := mem_map.mp hn
    exact waiting.plain e he
  have ordered : covers ((values (mergeNetworks nets.reverse .empty)).insertionSort networkLe) =
      covers nets := by
    rw [←merged]
    ext x
    simp only [mem_covers,mem]
  rw [collapseInternal]
  change Spaced (skipSubsumed none ((values (mergeNetworks nets.reverse .empty)).insertionSort networkLe)) ∧
    covers (skipSubsumed none ((values (mergeNetworks nets.reverse .empty)).insertionSort networkLe)) = _
  generalize (values (mergeNetworks nets.reverse .empty)).insertionSort networkLe = l at sorted mem ordered
  cases l with
  | nil => exact ⟨List.Pairwise.nil,ordered⟩
  | cons first rest =>
    obtain ⟨spaced,same⟩ := skipSubsumed_spec (all first (mem.mp (by simp)))
      (fun n hn => all n (mem.mp (by simp [hn]))) sorted
    exact ⟨spaced,same.trans ordered⟩

theorem range_single (h : n.prefixLen = n.address.version.width) :
    x ∈ n.range.members ↔ x.1 = n.address.version ∧ n.address.value = x.2 := by
  have one : n.numAddresses = 1 := by simp [Network.numAddresses,h]
  rw [mem_range,one]
  refine and_congr_right fun _ => ?_
  omega

/-- What comes out covers what went in, and the sizes add up to its addresses. -/
theorem sum_collapseAddresses (plain : ∀ n ∈ nets, Plain v n) :
    ((collapseAddresses nets).map Network.numAddresses).sum = (covers nets).card := by
  let single (n : Network) : Bool := n.prefixLen = n.address.version.width
  have hips : ∀ ip ∈ (nets.filter single).map Network.address, ip.version = v := fun ip mem => by
    obtain ⟨n,hn,rfl⟩ := mem_map.mp mem
    exact (plain n (mem_filter.mp hn).1).1
  have all : ∀ n ∈ summarized ((nets.filter single).map Network.address) ++
      nets.filter fun n => !single n, Plain v n := fun n mem => by
    rcases mem_append.mp mem with mem | mem
    · exact summarized_plain hips n mem
    · exact plain n (mem_filter.mp mem).1
  obtain ⟨spaced,same⟩ := collapseInternal_spec all
  have whole : covers (summarized ((nets.filter single).map Network.address) ++
      nets.filter fun n => !single n) = covers nets := by
    rw [covers_append]
    ext x
    rw [Finset.mem_union,mem_summarized hips,mem_covers,mem_covers]
    constructor
    · rintro (⟨hv,ip,mem,value⟩ | ⟨n,mem,hx⟩)
      · obtain ⟨n,hn,rfl⟩ := mem_map.mp mem
        obtain ⟨hn,hs⟩ := mem_filter.mp hn
        exact ⟨n,hn,(range_single (of_decide_eq_true hs)).mpr ⟨hv.trans (plain n hn).1.symm,value⟩⟩
      · exact ⟨n,(mem_filter.mp mem).1,hx⟩
    · rintro ⟨n,hn,hx⟩
      cases hs : single n with
      | true =>
        obtain ⟨hv,value⟩ := (range_single (of_decide_eq_true hs)).mp hx
        exact .inl ⟨hv.trans (plain n hn).1,n.address,
          mem_map.mpr ⟨n,mem_filter.mpr ⟨hn,hs⟩,rfl⟩,value⟩
      | false => exact .inr ⟨n,mem_filter.mpr ⟨hn,by simp [hs]⟩,hx⟩
  have count := card_cover (apart_of_spaced spaced)
  rw [map_map] at count
  rw [collapseAddresses,←whole,←same]
  exact count.symm

end IpText
