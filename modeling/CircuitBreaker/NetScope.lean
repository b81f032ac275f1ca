import CircuitBreaker.GoNetip
import Mathlib.Data.Char
import Mathlib.Data.List.Dedup
import Mathlib.Data.List.Lex
import Mathlib.Data.List.Sort

/-! The agent's own scope: what networks it may reach, from the networks it is attached to and
its grant, and whether a destination lies in them. -/

namespace CircuitBreaker.NetScope
open IpText GoNetip List

/-- The characters `strings.TrimSpace` removes. -/
def isSpace (c : Char) : Bool :=
  let n := c.toNat
  9 ≤ n && n ≤ 13 || n == 32 || n == 0x85 || n == 0xA0 || n == 0x1680 ||
    0x2000 ≤ n && n ≤ 0x200A || n == 0x2028 || n == 0x2029 || n == 0x202F || n == 0x205F ||
    n == 0x3000

def trimSpace (t : Text) : Text := ((t.dropWhile isSpace).reverse.dropWhile isSpace).reverse

inductive Reason where
  | inScope | specialUse | excluded | emptyScope | outOfScope | invalidDestination
  | unresolvedHostname | prefixTooWide | notDirectlyConnected

structure InterfaceFacts where
  name : Text
  flags : List Text := []
  addrs : List Text := []

structure Config where
  scopeMode : Text := []
  additionalCidrs : List Text := []
  excludedCidrs : List Text := []
  additionalHostnames : List Text := []

structure Scope where
  networks : List Text
  directNetworks : List Text
  approvedNetworks : List Text
  excludedNetworks : List Text
  hostnames : List Text
  version : Text

structure Decision where
  allowed : Bool := false
  reason : Reason
  address : Text := []

def scopeModeDirectPrivate : Text := "direct_private".toList

def ulaV6 : Prefix := ⟨.v6,0xfc000000000000000000000000000000,7,by decide,by decide⟩

def rfc1918 : List Prefix :=
  [⟨.v4,0x0a000000,8,by decide,by decide⟩,⟨.v4,0xac100000,12,by decide,by decide⟩,
    ⟨.v4,0xc0a80000,16,by decide,by decide⟩]

def blockedNetworks : List Prefix :=
  [⟨.v4,0x00000000,8,by decide,by decide⟩,⟨.v4,0x7f000000,8,by decide,by decide⟩,
    ⟨.v4,0xa9fe0000,16,by decide,by decide⟩,⟨.v4,0xe0000000,4,by decide,by decide⟩,
    ⟨.v4,0xf0000000,4,by decide,by decide⟩,⟨.v6,0,128,by decide,by decide⟩,
    ⟨.v6,1,128,by decide,by decide⟩,
    ⟨.v6,0xfe800000000000000000000000000000,10,by decide,by decide⟩,
    ⟨.v6,0xff000000000000000000000000000000,8,by decide,by decide⟩,
    ⟨.v6,0xfd000ec2000000000000000000000254,128,by decide,by decide⟩]

example : blockedNetworks.map (fun p => String.ofList p.text) =
    ["0.0.0.0/8","127.0.0.0/8","169.254.0.0/16","224.0.0.0/4","240.0.0.0/4","::/128","::1/128",
      "fe80::/10","ff00::/8","fd00:ec2::254/128"] := by decide

def parseAddress (value : Text) : Option Addr := (parseAddr (trimSpace value)).map Addr.unmap

def parseCidr (value : Text) : Option Prefix :=
  match parsePrefix (trimSpace value) with
  | some p => some p.masked
  | none => (parseAddr (trimSpace value)).map Addr.full

def parseCidrs (values : List Text) : List Prefix := values.filterMap parseCidr

def isSubnetOf (network outer : Prefix) : Bool :=
  outer.bits ≤ network.bits && outer.contains network.addr

def isPrivateNetwork (network : Prefix) : Bool :=
  match network.version with
  | .v4 => rfc1918.any (isSubnetOf network)
  | .v6 => isSubnetOf network ulaV6

/-- The order of addresses: families first, then numbers; of one address the wider prefix first. -/
def prefixLe (p q : Prefix) : Prop :=
  p.version.width < q.version.width ∨ p.version.width = q.version.width ∧
    (p.value < q.value ∨ p.value = q.value ∧ p.bits ≤ q.bits)

instance : DecidableRel prefixLe := fun _ _ => inferInstanceAs (Decidable (_ ∨ _))

def appendNew (out : List Text) (t : Text) : List Text :=
  if out.getLast? = some t then out else out++[t]

def sortedNetworks (networks : List Prefix) : List Text :=
  ((networks.insertionSort prefixLe).map Prefix.text).foldl appendNew []

section Derive
-- What lower case is and what SHA-256 makes of a text, in hexadecimal.
variable (toLower sha256 : Text → Text)

def hasExcludedFlag (flags : List Text) : Bool :=
  flags.any fun flag => toLower flag ∈ ["loopback".toList,"pointtopoint".toList]

def directNetworks (facts : List InterfaceFacts) : List Prefix :=
  facts.flatMap fun entry =>
    if hasExcludedFlag toLower entry.flags then []
    else (parseCidrs entry.addrs).filter isPrivateNetwork

def canonicalHostname (host : Text) : Text :=
  ((toLower (trimSpace host)).reverse.dropWhile (· = '.')).reverse

def sortedHostnames (hostnames : List Text) : List Text :=
  (hostnames.map (canonicalHostname toLower)).dedup.insertionSort (· ≤ ·)

def version (networks direct excluded hostnames : List Text) : Text :=
  let payload := ['|'].intercalate ["agent-scope/v1".toList,[','].intercalate networks,
    [','].intercalate direct,[','].intercalate excluded,[','].intercalate hostnames]
  (sha256 payload).take 16

def direct (facts : List InterfaceFacts) (cfg : Config) : List Prefix :=
  let mode := if cfg.scopeMode = [] then scopeModeDirectPrivate else cfg.scopeMode
  if mode = scopeModeDirectPrivate then directNetworks toLower facts else []

def approved (cfg : Config) : List Prefix :=
  (parseCidrs cfg.additionalCidrs).filter fun p => 0 < p.bits

def derive (facts : List InterfaceFacts) (cfg : Config) : Scope :=
  let direct := direct toLower facts cfg
  let approved := approved cfg
  let networks := sortedNetworks (direct++approved)
  let directNets := sortedNetworks direct
  let excluded := sortedNetworks (parseCidrs cfg.excludedCidrs)
  let hostnames := sortedHostnames toLower cfg.additionalHostnames
  ⟨networks,directNets,sortedNetworks approved,excluded,hostnames,
    version sha256 networks directNets excluded hostnames⟩

end Derive

def containsAny (networks : List Prefix) (address : Addr) : Bool := networks.any (·.contains address)

def isDirectedBroadcast (network : Prefix) (address : Addr) : Bool :=
  if network.version ≠ .v4 ∨ 30 < network.bits ∨ address.version ≠ .v4 then false
  else address.value = network.masked.value ||| 0xffffffff >>> network.bits

def evaluateAddress (scope : Scope) (address : Addr) : Decision :=
  let refuse (reason : Reason) : Decision := {reason := reason, address := address.text}
  if containsAny blockedNetworks address then refuse .specialUse
  else
    let networks := parseCidrs scope.networks
    if networks.any (isDirectedBroadcast · address) then refuse .specialUse
    else if containsAny (parseCidrs scope.excludedNetworks) address then refuse .excluded
    else if networks.length = 0 then refuse .emptyScope
    else if containsAny (parseCidrs scope.directNetworks) address ||
        containsAny (parseCidrs scope.approvedNetworks) address then
      {allowed := true, reason := .inScope, address := address.text}
    else if containsAny networks address then refuse .notDirectlyConnected
    else refuse .outOfScope

def evaluateResolved (scope : Scope) : List Text → Decision
  | [] => {allowed := true, reason := .inScope}
  | candidate::rest =>
    match parseAddress candidate with
    | none => {reason := .invalidDestination, address := candidate}
    | some address =>
      let decision := evaluateAddress scope address
      if decision.allowed then evaluateResolved scope rest else decision

def evaluate (scope : Scope) (destination : Text) (resolved : List Text) : Decision :=
  let host := trimSpace destination
  if host = [] then {reason := .invalidDestination}
  else
    match parseAddress host with
    | some literal => evaluateAddress scope literal
    | none =>
      if resolved.length = 0 then {reason := .unresolvedHostname}
      else evaluateResolved scope resolved

/-! What an allowed destination is. -/

/-- The texts that decide about a destination: an address decides by itself, a hostname by what
it resolves to. -/
def judged (destination : Text) (resolved : List Text) : List Text :=
  if (parseAddress (trimSpace destination)).isSome then [trimSpace destination] else resolved

def Broadcast (network : Prefix) (a : Addr) : Prop :=
  network.version = .v4 ∧ network.bits ≤ 30 ∧ a.version = .v4 ∧
    a.value = network.value/network.block*network.block+(network.block-1)

structure Safe (networks excluded : List Prefix) (a : Addr) : Prop where
  within : ∃ n ∈ networks, n.Covers a
  kept : ∀ n ∈ excluded, ¬n.Covers a
  ordinary : ∀ n ∈ blockedNetworks, ¬n.Covers a
  single : ∀ n ∈ networks, ¬Broadcast n a
  native : mapped a.version a.value = false
  zoneless : a.zone = []

variable {t : Text} {nets : List Prefix} {n : Prefix} {a : Addr}

theorem mem_appendNew {out l : List Text} :
    t ∈ l.foldl appendNew out ↔ t ∈ out ∨ t ∈ l := by
  induction l generalizing out with
  | nil => simp
  | cons u l ih =>
    rw [foldl_cons,ih,appendNew]
    split
    case isTrue last =>
      have inside : u ∈ out := mem_of_mem_getLast? last
      constructor
      · rintro (h | h)
        · exact .inl h
        · exact .inr (.tail _ h)
      · rintro (h | h)
        · exact .inl h
        · rcases mem_cons.mp h with rfl | h
          · exact .inl inside
          · exact .inr h
    · rw [mem_append,mem_singleton,mem_cons,or_assoc]

theorem mem_sortedNetworks :
    t ∈ sortedNetworks nets ↔ ∃ p ∈ nets, p.text = t := by
  rw [sortedNetworks,mem_appendNew,mem_map]
  simp only [not_mem_nil,false_or,mem_insertionSort]

theorem address_not_space {c : Char} (h : isAddressChar c = true) : isSpace c = false := by
  simp only [isAddressChar,isHex,Char.isDigit,Bool.or_eq_true,Bool.and_eq_true,
    decide_eq_true_eq] at h
  have small : c.toNat = 58 ∨ c.toNat = 46 ∨ (48 ≤ c.toNat ∧ c.toNat ≤ 57) ∨
      (97 ≤ c.toNat ∧ c.toNat ≤ 102) ∨ (65 ≤ c.toNat ∧ c.toNat ≤ 70) := by
    obtain (rfl | rfl) | (⟨hl,hu⟩ | h) | h := h
    · exact .inl rfl
    · exact .inr (.inl rfl)
    · exact .inr (.inr (.inl ⟨hl,hu⟩))
    · exact .inr (.inr (.inr (.inl h)))
    · exact .inr (.inr (.inr (.inr h)))
  simp only [isSpace,Bool.or_eq_false_iff,Bool.and_eq_false_iff,decide_eq_false_iff_not,
    beq_eq_false_iff_ne,ne_eq]
  omega

theorem trimSpace_self (h : ∀ c ∈ t, isSpace c = false) : trimSpace t = t := by
  have unspaced : ∀ u : Text, (∀ c ∈ u, isSpace c = false) → u.dropWhile isSpace = u := by
    intro u hu
    cases u with
    | nil => rfl
    | cons c cs => rw [dropWhile_cons_of_neg (by simp [hu c (.head _)])]
  rw [trimSpace,unspaced t h,unspaced t.reverse fun c hc => h c (mem_reverse.mp hc),
    reverse_reverse]

theorem trimSpace_text (p : Prefix) : trimSpace p.text = p.text := by
  refine trimSpace_self fun c hc => ?_
  rcases mem_append.mp hc with hc | hc
  · exact address_not_space (valueText_char hc)
  · rcases mem_cons.mp hc with rfl | hc
    · rfl
    · exact address_not_space (digit_isAddressChar
        (Nat.isDigit_of_mem_toDigits (by decide) (by decide) hc))

theorem mem_parseCidrs_sorted :
    n ∈ parseCidrs (sortedNetworks nets) ↔ ∃ p ∈ nets, p.masked = n := by
  have read : ∀ p : Prefix, parseCidr p.text = some p.masked := fun p => by
    rw [parseCidr,trimSpace_text,parsePrefix_text]
  simp only [parseCidrs,mem_filterMap,mem_sortedNetworks]
  constructor
  · rintro ⟨_,⟨p,mem,rfl⟩,h⟩
    rw [read] at h
    exact ⟨p,mem,Option.some.inj h⟩
  · rintro ⟨p,mem,rfl⟩
    exact ⟨p.text,⟨p,mem,rfl⟩,read p⟩

theorem containsAny_iff :
    containsAny nets a = true ↔ a.zone = [] ∧ ∃ n ∈ nets, n.Covers a := by
  simp only [containsAny,any_eq_true,contains_iff]
  constructor
  · rintro ⟨n,mem,zone,covers⟩
    exact ⟨zone,n,mem,covers⟩
  · rintro ⟨zone,n,mem,covers⟩
    exact ⟨n,mem,zone,covers⟩

theorem containsAny_sorted :
    containsAny (parseCidrs (sortedNetworks nets)) a = containsAny nets a := by
  rw [Bool.eq_iff_iff,containsAny_iff,containsAny_iff]
  refine and_congr_right fun _ => ?_
  simp only [mem_parseCidrs_sorted]
  constructor
  · rintro ⟨_,⟨p,mem,rfl⟩,covers⟩
    exact ⟨p,mem,covers_masked.mp covers⟩
  · rintro ⟨p,mem,covers⟩
    exact ⟨p.masked,⟨p,mem,rfl⟩,covers_masked.mpr covers⟩

theorem mask_eq {b : Nat} (h : b ≤ 32) : 0xffffffff >>> b = 2^(32-b)-1 := by
  have all : ∀ b : Fin 33, 0xffffffff >>> b.val = 2^(32-b.val)-1 := by decide
  exact all ⟨b,by omega⟩

theorem isDirectedBroadcast_iff :
    isDirectedBroadcast n a = true ↔ Broadcast n a := by
  unfold isDirectedBroadcast Broadcast
  split
  case isTrue other =>
    constructor
    · nofun
    · rintro ⟨v4,bits,a4,-⟩
      rcases other with h | h | h
      · exact absurd v4 h
      · omega
      · exact absurd a4 h
  case isFalse both =>
    simp only [not_or,not_not,not_lt] at both
    obtain ⟨v4,bits,a4⟩ := both
    have block : n.block = 2^(32-n.bits) := by
      rw [Prefix.block,v4]
      rfl
    have value : n.masked.value ||| 0xffffffff >>> n.bits =
        n.value/n.block*n.block+(n.block-1) := by
      have apart : ∀ q, 2^(32-n.bits)*q+(2^(32-n.bits)-1) = 2^(32-n.bits)*q ||| 2^(32-n.bits)-1 :=
        Nat.two_pow_add_eq_or_of_lt (Nat.sub_lt (Nat.two_pow_pos _) Nat.zero_lt_one)
      change n.value/n.block*n.block ||| 0xffffffff >>> n.bits = _
      rw [mask_eq (by omega),block,mul_comm,apart]
    simp only [decide_eq_true_eq,value,v4,bits,a4,true_and]

theorem broadcast_masked : Broadcast n.masked a ↔ Broadcast n a := by
  have value : n.masked.value/n.masked.block*n.masked.block = n.value/n.block*n.block := by
    change n.value/n.block*n.block/n.block*n.block = _
    rw [Nat.mul_div_cancel _ (block_pos n)]
  unfold Broadcast
  rw [value]
  rfl

section Evaluate
variable {toLower sha256 : Text → Text} {facts : List InterfaceFacts} {cfg : Config}

theorem evaluateAddress_safe {a : Addr} (native : mapped a.version a.value = false)
    (h : (evaluateAddress (derive toLower sha256 facts cfg) a).allowed = true) :
    Safe (direct toLower facts cfg++approved cfg) (parseCidrs cfg.excludedCidrs) a := by
  unfold evaluateAddress at h
  simp only [derive,containsAny_sorted] at h
  split at h
  · cases h
  case isFalse ordinary =>
  split at h
  · cases h
  case isFalse single =>
  split at h
  · cases h
  case isFalse kept =>
  split at h
  · cases h
  split at h
  case isTrue within =>
    have found : a.zone = [] ∧ ∃ n ∈ direct toLower facts cfg++approved cfg, n.Covers a := by
      rcases Bool.or_eq_true_iff.mp within with h | h
      · obtain ⟨zone,n,mem,covers⟩ := containsAny_iff.mp h
        exact ⟨zone,n,mem_append_left _ mem,covers⟩
      · obtain ⟨zone,n,mem,covers⟩ := containsAny_iff.mp h
        exact ⟨zone,n,mem_append_right _ mem,covers⟩
    obtain ⟨zone,inside⟩ := found
    refine ⟨inside,fun n mem covers => kept ?_,fun n mem covers => ordinary ?_,
      fun n mem broadcast => single ?_,native,zone⟩
    · exact containsAny_iff.mpr ⟨zone,n,mem,covers⟩
    · exact containsAny_iff.mpr ⟨zone,n,mem,covers⟩
    · exact any_eq_true.mpr ⟨n.masked,mem_parseCidrs_sorted.mpr ⟨n,mem,rfl⟩,
        isDirectedBroadcast_iff.mpr (broadcast_masked.mpr broadcast)⟩
  · split at h <;> cases h

theorem parseAddress_native {t : Text} {a : Addr} (h : parseAddress t = some a) :
    ∃ a₀, parseAddr (trimSpace t) = some a₀ ∧ a = a₀.unmap ∧ mapped a.version a.value = false := by
  obtain ⟨a₀,read,rfl⟩ := Option.map_eq_some_iff.mp h
  exact ⟨a₀,read,rfl,unmap_unmapped a₀⟩

theorem evaluateResolved_safe {resolved : List Text}
    (h : (evaluateResolved (derive toLower sha256 facts cfg) resolved).allowed = true) :
    ∀ t ∈ resolved, ∃ a, parseAddr (trimSpace t) = some a ∧
      Safe (direct toLower facts cfg++approved cfg) (parseCidrs cfg.excludedCidrs) a.unmap := by
  induction resolved with
  | nil => exact nofun
  | cons candidate rest ih =>
    rw [evaluateResolved] at h
    split at h
    · cases h
    case h_2 a read =>
      simp only at h
      split at h
      case isTrue allowed =>
        intro t mem
        rcases mem_cons.mp mem with rfl | mem
        · obtain ⟨a₀,parsed,rfl,native⟩ := parseAddress_native read
          exact ⟨a₀,parsed,evaluateAddress_safe native allowed⟩
        · exact ih h t mem
      case isFalse refused => exact absurd h refused

end Evaluate

/-- Whatever the facts, the grant and the resolver say: where a destination is allowed, every
address that decided about it is in a network the agent is attached to or was approved for, in no
excluded network, in no special-use range and no broadcast. -/
theorem evaluate_safe (toLower sha256 : Text → Text) (facts : List InterfaceFacts) (cfg : Config)
    (destination : Text) (resolved : List Text)
    (h : (evaluate (derive toLower sha256 facts cfg) destination resolved).allowed = true) :
    judged destination resolved ≠ [] ∧ ∀ t ∈ judged destination resolved,
      ∃ a, parseAddr (trimSpace t) = some a ∧
        Safe (direct toLower facts cfg++approved cfg) (parseCidrs cfg.excludedCidrs) a.unmap := by
  unfold evaluate at h
  simp only at h
  split at h
  · cases h
  split at h
  case h_1 literal read =>
    have decides : judged destination resolved = [trimSpace destination] := by
      rw [judged,read]
      rfl
    rw [decides]
    refine ⟨nofun,fun t mem => ?_⟩
    rw [mem_singleton.mp mem]
    obtain ⟨a₀,parsed,rfl,native⟩ := parseAddress_native read
    exact ⟨a₀,parsed,evaluateAddress_safe native h⟩
  case h_2 name =>
    have decides : judged destination resolved = resolved := by
      rw [judged,name]
      rfl
    rw [decides]
    split at h
    · cases h
    case isFalse some_ =>
      exact ⟨fun none => some_ (by rw [none]; rfl),evaluateResolved_safe h⟩

def oneSegment : List InterfaceFacts :=
  [{name := "eth0".toList, flags := ["up".toList], addrs := ["192.168.1.10/24".toList]}]

def oneExclusion : Config := {excludedCidrs := ["192.168.1.64/26".toList]}

def oneDigest (_ : Text) : Text :=
  "7d1c9dd23653a9fb262599916994bbb0413c665e325b6de3db92f595074691ab".toList

theorem resolved_on_segment_safe :
    (evaluate (derive id oneDigest oneSegment oneExclusion) "nas.lan".toList
      ["192.168.1.20".toList,"::ffff:192.168.1.21".toList]).allowed = true ∧
    ∃ a, parseAddr "::ffff:192.168.1.21".toList = some a ∧
      Safe (direct id oneSegment oneExclusion++approved oneExclusion)
        (parseCidrs oneExclusion.excludedCidrs) a.unmap := by
  have allowed : (evaluate (derive id oneDigest oneSegment oneExclusion) "nas.lan".toList
      ["192.168.1.20".toList,"::ffff:192.168.1.21".toList]).allowed = true := by decide
  have decides : judged "nas.lan".toList ["192.168.1.20".toList,"::ffff:192.168.1.21".toList] =
      ["192.168.1.20".toList,"::ffff:192.168.1.21".toList] := by decide
  have trimmed : trimSpace "::ffff:192.168.1.21".toList = "::ffff:192.168.1.21".toList := by
    decide
  have safe := (evaluate_safe id oneDigest oneSegment oneExclusion _ _ allowed).2
  rw [decides] at safe
  have second := safe _ (.tail _ (.head _))
  rw [trimmed] at second
  exact ⟨allowed,second⟩

end CircuitBreaker.NetScope
