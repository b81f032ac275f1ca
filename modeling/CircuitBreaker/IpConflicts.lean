import CircuitBreaker.PyDict
import Mathlib.Data.List.Dedup
import Mathlib.Data.List.Perm.Subperm

/-! The detectors of conflicting addresses (services/ip_reservation.py): one pass over the whole
inventory, and one query for a page of hardware. -/

namespace CircuitBreaker
open List

namespace IpConflicts

/-- The tables of the texts' functions: Python's `str.lower` and white space, and SQL's `lower`. -/
structure Texts where
  lower : String → String
  isSpace : Char → Bool
  sqlLower : String → String

/-- `strip` of the characters of a kind. -/
def stripOf (p : Char → Bool) (s : String) : String :=
  String.ofList (((s.toList.dropWhile p).reverse.dropWhile p).reverse)

/-- `services.ports_json`: null, a list, or a text with the list that is read from it, if any. -/
structure PortEntry where
  ip : Option String
  port : Option Int
  protocol : Option String

inductive PortsJson where
  | null
  | list (entries : List PortEntry)
  | text (decoded : Option (List PortEntry))

structure Hardware where
  id : Nat
  ipAddress : Option String

structure ComputeUnit where
  id : Nat
  hardwareId : Option Nat
  ipAddress : Option String

structure Service where
  id : Nat
  computeId : Option Nat
  hardwareId : Option Nat
  ipAddress : Option String
  portsJson : PortsJson

structure Inventory where
  hardware : List Hardware
  computeUnits : List ComputeUnit
  services : List Service
  hardwareIds : (hardware.map (·.id)).Nodup
  computeIds : (computeUnits.map (·.id)).Nodup
  serviceIds : (services.map (·.id)).Nodup

inductive EntityType where
  | hardware
  | computeUnit
  | service
  deriving DecidableEq

abbrev Binding := String × Int × String

/-- The keys the result maps to True; it maps none to anything else. -/
abbrev ConflictMap := List (EntityType × Nat)

def parsePortsJson : PortsJson → List PortEntry
  | .null => []
  | .list entries => entries
  | .text decoded => decoded.getD []

def truthy (ip : Option String) : Option String := ip.filter (· ≠ "")

def truthyId (id : Option Nat) : Option Nat := id.filter (· ≠ 0)

section
variable (texts : Texts)

/-- `_norm` -/
def norm (ip : Option String) : Option String :=
  ip.map fun s => texts.lower (stripOf texts.isSpace s)

/-- `lower(btrim(ip_address))`: `btrim` takes spaces only. -/
def sqlNorm (ip : Option String) : Option String :=
  ip.map fun s => texts.sqlLower (stripOf (· = ' ') s)

variable (inv : Inventory)

def hwIdToIp : Dict Nat (Option String) :=
  Dict.ofPairs (inv.hardware.map fun hw => (hw.id,norm texts hw.ipAddress))

def cuIdToIp : Dict Nat (Option String) :=
  Dict.ofPairs (inv.computeUnits.map fun cu => (cu.id,norm texts cu.ipAddress))

def cuIdToHwId : Dict Nat (Option Nat) :=
  Dict.ofPairs (inv.computeUnits.map fun cu => (cu.id,cu.hardwareId))

/-- Own address, then the compute unit's, then that of the unit's hardware or of its own. -/
def svcEffectiveIp (svc : Service) : Option String :=
  match truthy (norm texts svc.ipAddress) with
  | some own => some own
  | none =>
    match truthyId svc.computeId with
    | some cu =>
      match truthy ((cuIdToIp texts inv).get cu).join with
      | some ip => some ip
      | none =>
        match truthyId ((cuIdToHwId inv).get cu).join with
        | some hw => ((hwIdToIp texts inv).get hw).join
        | none => none
    | none =>
      match truthyId svc.hardwareId with
      | some hw => ((hwIdToIp texts inv).get hw).join
      | none => none

/-- `(pe.get("protocol") or "tcp").lower()` -/
def protocolOf (pe : PortEntry) : String := texts.lower ((truthy pe.protocol).getD "tcp")

def bindingOf (svcEffIp : Option String) (pe : PortEntry) : Option Binding :=
  match pe.port with
  | none => none
  | some port =>
    match (truthy (norm texts pe.ip)).or (truthy svcEffIp) with
    | some effIp => some (effIp,port,protocolOf texts pe)
    | none => none

def bindings (svc : Service) : List Binding :=
  (parsePortsJson svc.portsJson).filterMap (bindingOf texts (svcEffectiveIp texts inv svc))

/-- `ip_to_hw` and `ip_to_cu` -/
def ipTo (rows : List (Nat × Option String)) : Dict String (List Nat) :=
  Dict.gather (rows.filterMap fun r => (truthy r.2).map fun ip => (ip,r.1))

def hwRows : List (Nat × Option String) :=
  inv.hardware.map fun hw => (hw.id,norm texts hw.ipAddress)

def cuRows : List (Nat × Option String) :=
  inv.computeUnits.map fun cu => (cu.id,norm texts cu.ipAddress)

def listed (d : Dict String (List Nat)) (ip : String) : List Nat := (d.get ip).getD []

def shared (rows : List (Nat × Option String)) : List Nat :=
  (rows.filter fun r => (truthy r.2).any fun ip => 1 < (listed (ipTo rows) ip).length).map Prod.fst

def bindingToSvc : Dict Binding (List Nat) :=
  Dict.gather (inv.services.flatMap fun svc => (bindings texts inv svc).map fun b => (b,svc.id))

def portMarked : List Nat :=
  (bindingToSvc texts inv).items.flatMap fun g => if 1 < g.2.length then g.2 else []

def allowedHw (svc : Service) : List Nat :=
  (((truthyId svc.computeId).bind fun cu => truthyId ((cuIdToHwId inv).get cu).join).toList)++
    (truthyId svc.hardwareId).toList

def portless (svc : Service) : Bool :=
  match truthy (norm texts svc.ipAddress) with
  | none => false
  | some ownIp =>
    if parsePortsJson svc.portsJson ≠ [] then false
    else
      (listed (ipTo (hwRows texts inv)) ownIp).any (· ∉ allowedHw inv svc) ||
        (listed (ipTo (cuRows texts inv)) ownIp).any (· ∉ (truthyId svc.computeId).toList)

def bulkConflictMap : ConflictMap :=
  (shared (hwRows texts inv)).map (Prod.mk .hardware)++
    (shared (cuRows texts inv)).map (Prod.mk .computeUnit)++
    (portMarked texts inv).map (Prod.mk .service)++
    (inv.services.filter (portless texts inv)).map fun svc => (.service,svc.id)

def duplicates (targetIps : List String) : List String :=
  (inv.hardware.filterMap fun hw => (sqlNorm texts hw.ipAddress).filter (· ∈ targetIps)).dedup.filter
    fun ip => 1 < (inv.hardware.filter fun hw => sqlNorm texts hw.ipAddress = some ip).length

def hardwareConflictMap (page : List Hardware) : ConflictMap :=
  let targetIps := page.filterMap fun row => truthy (norm texts row.ipAddress)
  if targetIps = [] then []
  else (page.filter fun row => (norm texts row.ipAddress).any
    (· ∈ duplicates texts inv targetIps)).map fun row => (.hardware,row.id)

/-- Two places of one list of `binding_to_svc`. -/
def Clashes (a b : Nat) : Prop :=
  ∃ g ∈ (bindingToSvc texts inv).items, ∃ i j : Nat, i ≠ j ∧ g.2[i]? = some a ∧ g.2[j]? = some b

/-- The detectors agree: a service is marked for its bindings when another has one of them, the
relation between services is symmetric and irreflexive, and every page of hardware is marked as in
the full map. -/
structure Agrees : Prop where
  marks : ∀ svc ∈ inv.services, svc.id ∈ portMarked texts inv ↔
    ∃ other ∈ inv.services, other.id ≠ svc.id ∧
      ∃ b ∈ bindings texts inv svc, b ∈ bindings texts inv other
  symmetric : ∀ a b, Clashes texts inv a b → Clashes texts inv b a
  irreflexive : ∀ a, ¬Clashes texts inv a a
  pages : ∀ page, page ⊆ inv.hardware → ∀ key, key ∈ hardwareConflictMap texts inv page ↔
    key ∈ bulkConflictMap texts inv ∧ ∃ row ∈ page, key = (.hardware,row.id)

/-- Some two rows of the hardware table have the address, as it is written by `f`. -/
def Twice (f : Option String → Option String) (ip : String) : Prop :=
  1 < (inv.hardware.filter fun hw => f hw.ipAddress = some ip).length

end

theorem truthy_eq_some {ip : Option String} {s : String} :
    truthy ip = some s ↔ ip = some s ∧ s ≠ "" := by
  simp [truthy,Option.filter_eq_some_iff]

theorem nodup_iff_places {l : List Nat} :
    l.Nodup ↔ ∀ a, ¬∃ i j : Nat, i ≠ j ∧ l[i]? = some a ∧ l[j]? = some a := by
  rw [nodup_iff_getElem?_ne_getElem?]
  constructor
  · rintro h a ⟨i,j,hij,hi,hj⟩
    rcases Nat.lt_or_gt_of_ne hij with lt | lt
    · exact h i j lt (List.getElem?_eq_some_iff.1 hj).1 (hi.trans hj.symm)
    · exact h j i lt (List.getElem?_eq_some_iff.1 hi).1 (hj.trans hi.symm)
  · intro h i j lt hj he
    exact h l[j] ⟨i,j,Nat.ne_of_lt lt,he.trans (List.getElem?_eq_getElem hj),
      List.getElem?_eq_getElem hj⟩

theorem exists_other {l : List Nat} (h : l.Nodup) (two : 1 < l.length) (a : Nat) :
    ∃ b ∈ l, b ≠ a := by
  match l,h,two with
  | x::y::_,h,_ =>
    have apart : x ≠ y := fun he => (nodup_cons.1 h).1 (he ▸ mem_cons_self)
    by_cases hx : x = a
    · exact ⟨y,by simp,fun hy => apart (hx.trans hy.symm)⟩
    · exact ⟨x,by simp,hx⟩

theorem two_members {l : List Nat} {a b : Nat} (ha : a ∈ l) (hb : b ∈ l) (h : b ≠ a) :
    1 < l.length := by
  match l,ha,hb with
  | [x],ha,hb => exact absurd ((mem_singleton.1 hb).trans (mem_singleton.1 ha).symm) h
  | _::_::_,_,_ => simp

section
variable {texts : Texts} {inv : Inventory}

/-- The pairs `binding_to_svc` is filled with. -/
def bindingPairs (texts : Texts) (inv : Inventory) : List (Binding × Nat) :=
  inv.services.flatMap fun svc => (bindings texts inv svc).map fun b => (b,svc.id)

theorem mem_bindingPairs {b : Binding} {id : Nat} :
    (b,id) ∈ bindingPairs texts inv ↔
      ∃ svc ∈ inv.services, svc.id = id ∧ b ∈ bindings texts inv svc := by
  simp only [bindingPairs,mem_flatMap,mem_map,Prod.mk.injEq]
  constructor
  · rintro ⟨svc,hs,b',hb,rfl,rfl⟩
    exact ⟨svc,hs,rfl,hb⟩
  · rintro ⟨svc,hs,rfl,hb⟩
    exact ⟨svc,hs,b,hb,rfl,rfl⟩

theorem mem_gathered {b : Binding} {ids : List Nat} {id : Nat}
    (hg : (b,ids) ∈ (bindingToSvc texts inv).items) :
    id ∈ ids ↔ (b,id) ∈ bindingPairs texts inv := by
  obtain ⟨rfl,-⟩ := Dict.mem_gather.1 hg
  simp only [mem_map,mem_filter,decide_eq_true_eq]
  constructor
  · rintro ⟨⟨b',id'⟩,⟨hp,rfl⟩,rfl⟩
    exact hp
  · exact fun hp => ⟨(b,id),⟨hp,rfl⟩,rfl⟩

theorem exists_gathered {b : Binding} {id : Nat} (h : (b,id) ∈ bindingPairs texts inv) :
    ∃ ids, (b,ids) ∈ (bindingToSvc texts inv).items := by
  have there : id ∈ ((bindingPairs texts inv).filter (·.1 = b)).map Prod.snd :=
    mem_map.2 ⟨(b,id),mem_filter.2 ⟨h,decide_eq_true rfl⟩,rfl⟩
  exact ⟨_,Dict.mem_gather.2 ⟨rfl,ne_nil_of_mem there⟩⟩

theorem same_service {svc other : Service} (hs : svc ∈ inv.services) (ho : other ∈ inv.services)
    (he : svc.id = other.id) : svc = other :=
  inj_on_of_nodup_map inv.serviceIds hs ho he

theorem bindingPairs_nodup (h : ∀ svc ∈ inv.services, (bindings texts inv svc).Nodup) :
    (bindingPairs texts inv).Nodup := by
  rw [bindingPairs,nodup_flatMap]
  constructor
  · exact fun svc hs => (h svc hs).map fun _ _ he => (Prod.mk.inj he).1
  · have apart : inv.services.Pairwise fun svc other => svc.id ≠ other.id :=
      pairwise_map.1 inv.serviceIds
    refine apart.imp fun {svc other} hne => ?_
    intro p hp hq
    obtain ⟨b,-,rfl⟩ := mem_map.1 hp
    obtain ⟨b',-,he⟩ := mem_map.1 hq
    exact hne (Prod.mk.inj he).2.symm

theorem gathered_nodup (h : ∀ svc ∈ inv.services, (bindings texts inv svc).Nodup)
    {g : Binding × List Nat} (hg : g ∈ (bindingToSvc texts inv).items) : g.2.Nodup := by
  obtain ⟨b,ids⟩ := g
  obtain ⟨rfl,-⟩ := Dict.mem_gather.1 hg
  refine List.Nodup.map_on ?_ ((bindingPairs_nodup h).filter _)
  rintro ⟨b₁,x⟩ hx ⟨b₂,y⟩ hy he
  have hb₁ : b₁ = b := of_decide_eq_true (mem_filter.1 hx).2
  have hb₂ : b₂ = b := of_decide_eq_true (mem_filter.1 hy).2
  exact Prod.ext (hb₁.trans hb₂.symm) he

theorem irreflexive_iff : (∀ a, ¬Clashes texts inv a a) ↔
    ∀ svc ∈ inv.services, (bindings texts inv svc).Nodup := by
  have places : (∀ a, ¬Clashes texts inv a a) ↔
      ∀ g ∈ (bindingToSvc texts inv).items, g.2.Nodup := by
    constructor
    · exact fun h g hg => nodup_iff_places.2 fun a ha => h a ⟨g,hg,ha⟩
    · exact fun h a ⟨g,hg,ha⟩ => nodup_iff_places.1 (h g hg) a ha
  rw [places]
  constructor
  · intro h svc hs
    rw [nodup_iff_sublist]
    intro b twice
    have there : (b,svc.id) ∈ bindingPairs texts inv :=
      mem_bindingPairs.2 ⟨svc,hs,rfl,twice.subset mem_cons_self⟩
    obtain ⟨ids,hg⟩ := exists_gathered there
    obtain ⟨hids,-⟩ := Dict.mem_gather.1 hg
    have inside : [(b,svc.id),(b,svc.id)].Sublist (bindingPairs texts inv) :=
      (twice.map fun b => (b,svc.id)).trans
        (sublist_flatten_of_mem (mem_map.2 ⟨svc,hs,rfl⟩))
    have pair : [svc.id,svc.id].Sublist ids := by
      rw [hids]
      have kept : [svc.id,svc.id].Sublist (((bindingPairs texts inv).filter (·.1 = b)).map Prod.snd) := by
        simpa using (inside.filter (·.1 = b)).map Prod.snd
      exact kept
    exact nodup_iff_sublist.1 (h _ hg) _ pair
  · exact fun h g hg => gathered_nodup h hg

theorem clashes_symm {a b : Nat} (h : Clashes texts inv a b) : Clashes texts inv b a := by
  obtain ⟨g,hg,i,j,hij,hi,hj⟩ := h
  exact ⟨g,hg,j,i,hij.symm,hj,hi⟩

theorem mem_portMarked {id : Nat} : id ∈ portMarked texts inv ↔
    ∃ g ∈ (bindingToSvc texts inv).items, 1 < g.2.length ∧ id ∈ g.2 := by
  simp only [portMarked,mem_flatMap]
  refine exists_congr fun g => and_congr_right fun _ => ?_
  by_cases h : 1 < g.2.length
  · simp only [h,if_true,true_and]
  · simp only [h,if_false,false_and,not_mem_nil]

theorem portMarked_iff (h : ∀ svc ∈ inv.services, (bindings texts inv svc).Nodup)
    {svc : Service} (hs : svc ∈ inv.services) : svc.id ∈ portMarked texts inv ↔
      ∃ other ∈ inv.services, other.id ≠ svc.id ∧
        ∃ b ∈ bindings texts inv svc, b ∈ bindings texts inv other := by
  rw [mem_portMarked]
  constructor
  · rintro ⟨⟨b,ids⟩,hg,two,hid⟩
    obtain ⟨id',hid',hne⟩ := exists_other (gathered_nodup h hg) two svc.id
    obtain ⟨other,ho,rfl,hb'⟩ := mem_bindingPairs.1 ((mem_gathered hg).1 hid')
    obtain ⟨svc',hs',he,hb⟩ := mem_bindingPairs.1 ((mem_gathered hg).1 hid)
    exact ⟨other,ho,hne,b,same_service hs' hs he ▸ hb,hb'⟩
  · rintro ⟨other,ho,hne,b,hb,hb'⟩
    have mine : (b,svc.id) ∈ bindingPairs texts inv := mem_bindingPairs.2 ⟨svc,hs,rfl,hb⟩
    have theirs : (b,other.id) ∈ bindingPairs texts inv := mem_bindingPairs.2 ⟨other,ho,rfl,hb'⟩
    obtain ⟨ids,hg⟩ := exists_gathered mine
    have hid := (mem_gathered hg).2 mine
    exact ⟨_,hg,two_members hid ((mem_gathered hg).2 theirs) hne,hid⟩

theorem listed_ipTo (rows : List (Nat × Option String)) (ip : String) :
    listed (ipTo rows) ip = (rows.filter fun r => truthy r.2 = some ip).map Prod.fst := by
  have values : (((rows.filterMap fun r => (truthy r.2).map fun ip => (ip,r.1)).filter
      (·.1 = ip)).map Prod.snd) = (rows.filter fun r => truthy r.2 = some ip).map Prod.fst := by
    induction rows with
    | nil => rfl
    | cons r rest ih =>
      cases ht : truthy r.2 with
      | none => simp [ht,ih]
      | some v =>
        by_cases hv : v = ip
        · simp [ht,hv,ih]
        · simp [ht,hv,ih]
  rw [listed,ipTo,Dict.get_gather,values]
  split
  case isTrue hn =>
    rw [←values,hn]
    rfl
  case isFalse =>
    rfl

theorem shared_iff {hw : Hardware} (hh : hw ∈ inv.hardware) :
    hw.id ∈ shared (hwRows texts inv) ↔
      ∃ ip, truthy (norm texts hw.ipAddress) = some ip ∧ Twice inv (norm texts) ip := by
  have rows : ∀ ip, ip ≠ "" → ((listed (ipTo (hwRows texts inv)) ip).length =
      (inv.hardware.filter fun hw => norm texts hw.ipAddress = some ip).length) := by
    intro ip nonempty
    rw [listed_ipTo,hwRows,filter_map,length_map,length_map]
    congr 1
    refine filter_congr fun r _ => decide_eq_decide.2 ?_
    exact truthy_eq_some.trans (and_iff_left nonempty)
  constructor
  · intro marked
    obtain ⟨r,hr,he⟩ := mem_map.1 marked
    obtain ⟨hr,found⟩ := mem_filter.1 hr
    obtain ⟨hw',hh',rfl⟩ := mem_map.1 hr
    have same : hw' = hw := inj_on_of_nodup_map inv.hardwareIds hh' hh he
    subst same
    obtain ⟨ip,hip,two⟩ := (Option.any_eq_true _ _).1 found
    have two := of_decide_eq_true two
    rw [rows ip (truthy_eq_some.1 hip).2] at two
    exact ⟨ip,hip,two⟩
  · rintro ⟨ip,hip,two⟩
    rw [Twice,←rows ip (truthy_eq_some.1 hip).2] at two
    exact mem_map.2 ⟨_,mem_filter.2 ⟨mem_map.2 ⟨hw,hh,rfl⟩,
      (Option.any_eq_true _ _).2 ⟨ip,hip,decide_eq_true two⟩⟩,rfl⟩

theorem mem_duplicates {targetIps : List String} {ip : String} :
    ip ∈ duplicates texts inv targetIps ↔ ip ∈ targetIps ∧ Twice inv (sqlNorm texts) ip := by
  simp only [duplicates,mem_filter,mem_dedup,mem_filterMap,decide_eq_true_eq,
    Option.filter_eq_some_iff]
  constructor
  · rintro ⟨⟨_,_,-,target⟩,two⟩
    exact ⟨target,two⟩
  · rintro ⟨target,two⟩
    have some_row := length_pos_iff.1 (Nat.lt_trans Nat.zero_lt_one two)
    obtain ⟨hw,hh⟩ := exists_mem_of_ne_nil _ some_row
    obtain ⟨hh,he⟩ := mem_filter.1 hh
    exact ⟨⟨hw,hh,of_decide_eq_true he,target⟩,two⟩

theorem mem_hardwareConflictMap {page : List Hardware} {key : EntityType × Nat} :
    key ∈ hardwareConflictMap texts inv page ↔ ∃ row ∈ page, key = (.hardware,row.id) ∧
      ∃ ip, truthy (norm texts row.ipAddress) = some ip ∧ Twice inv (sqlNorm texts) ip := by
  have body : key ∈ hardwareConflictMap texts inv page ↔ ∃ row ∈ page,
      key = (.hardware,row.id) ∧ ∃ ip, norm texts row.ipAddress = some ip ∧
        ip ∈ page.filterMap (fun row => truthy (norm texts row.ipAddress)) ∧
        Twice inv (sqlNorm texts) ip := by
    rw [hardwareConflictMap]
    split
    case isTrue hn =>
      simp [hn]
    case isFalse =>
      simp only [mem_map,mem_filter,Option.any_eq_true,decide_eq_true_eq,mem_duplicates]
      constructor
      · rintro ⟨row,⟨hr,ip,h⟩,rfl⟩
        exact ⟨row,hr,rfl,ip,h⟩
      · rintro ⟨row,hr,rfl,ip,h⟩
        exact ⟨row,⟨hr,ip,h⟩,rfl⟩
  rw [body]
  refine exists_congr fun row => and_congr_right fun hr => and_congr_right fun _ =>
    exists_congr fun ip => ?_
  constructor
  · rintro ⟨he,target,two⟩
    obtain ⟨_,-,ht⟩ := mem_filterMap.1 target
    exact ⟨truthy_eq_some.2 ⟨he,(truthy_eq_some.1 ht).2⟩,two⟩
  · rintro ⟨ht,two⟩
    exact ⟨(truthy_eq_some.1 ht).1,mem_filterMap.2 ⟨row,hr,ht⟩,two⟩

theorem mem_bulk_hardware {id : Nat} :
    (EntityType.hardware,id) ∈ bulkConflictMap texts inv ↔ id ∈ shared (hwRows texts inv) := by
  simp [bulkConflictMap]

theorem pages_iff : (∀ page, page ⊆ inv.hardware → ∀ key,
    key ∈ hardwareConflictMap texts inv page ↔
      key ∈ bulkConflictMap texts inv ∧ ∃ row ∈ page, key = (.hardware,row.id)) ↔
    ∀ hw ∈ inv.hardware, ∀ ip, truthy (norm texts hw.ipAddress) = some ip →
      (Twice inv (norm texts) ip ↔ Twice inv (sqlNorm texts) ip) := by
  constructor
  · intro h hw hh ip hip
    have one := h [hw] (by simpa using hh) (.hardware,hw.id)
    rw [mem_hardwareConflictMap,mem_bulk_hardware,shared_iff hh] at one
    simpa [hip] using one.symm
  · intro h page sub key
    rw [mem_hardwareConflictMap]
    constructor
    · rintro ⟨row,hr,rfl,ip,hip,two⟩
      refine ⟨mem_bulk_hardware.2 ((shared_iff (sub hr)).2 ⟨ip,hip,?_⟩),row,hr,rfl⟩
      exact (h row (sub hr) ip hip).2 two
    · rintro ⟨marked,row,hr,rfl⟩
      obtain ⟨ip,hip,two⟩ := (shared_iff (sub hr)).1 (mem_bulk_hardware.1 marked)
      exact ⟨row,hr,rfl,ip,hip,(h row (sub hr) ip hip).1 two⟩

end

/-- The detectors agree exactly when no service lists a binding twice and, of each address of a
hardware, Python's spelling and SQL's are both repeated in the table or neither is. -/
theorem detectors_agree_iff (texts : Texts) (inv : Inventory) : Agrees texts inv ↔
    (∀ svc ∈ inv.services, (bindings texts inv svc).Nodup) ∧
      ∀ hw ∈ inv.hardware, ∀ ip, truthy (norm texts hw.ipAddress) = some ip →
        (Twice inv (norm texts) ip ↔ Twice inv (sqlNorm texts) ip) := by
  constructor
  · exact fun h => ⟨irreflexive_iff.1 h.irreflexive,pages_iff.1 h.pages⟩
  · rintro ⟨once,repeated⟩
    exact ⟨fun svc hs => portMarked_iff once hs,fun _ _ => clashes_symm,irreflexive_iff.2 once,
      pages_iff.2 repeated⟩

def ascii : Texts where
  lower := String.toLower
  isSpace c := c = ' ' ∨ ('\t' ≤ c ∧ c ≤ '\r') ∨ ('\x1c' ≤ c ∧ c ≤ '\x1f')
  sqlLower := String.toLower

/-- One service with a port listed twice, and two hardware one of which has a tab in its address. -/
def repeats : Inventory where
  hardware := [⟨1,some "10.0.0.5"⟩,⟨2,some "10.0.0.5\t"⟩]
  computeUnits := []
  services := [⟨7,none,none,some "10.0.0.9",.list [⟨none,some 443,some "tcp"⟩,
    ⟨none,some 443,none⟩]⟩]
  hardwareIds := by decide
  computeIds := nodup_nil
  serviceIds := nodup_singleton _

theorem own_binding_clashes :
    portMarked ascii repeats = [7,7] ∧ Clashes ascii repeats 7 7 ∧
      bulkConflictMap ascii repeats = [(.hardware,1),(.hardware,2),(.service,7),(.service,7)] ∧
      hardwareConflictMap ascii repeats repeats.hardware = [] ∧ ¬Agrees ascii repeats := by
  have clash : Clashes ascii repeats 7 7 :=
    ⟨(("10.0.0.9",443,"tcp"),[7,7]),by decide +kernel,0,1,by decide,rfl,rfl⟩
  exact ⟨by decide +kernel,clash,by decide +kernel,by decide +kernel,fun h => h.irreflexive 7 clash⟩

end IpConflicts
end CircuitBreaker
