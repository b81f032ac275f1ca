import CircuitBreaker.JsonText
import CircuitBreaker.PyDict
import CircuitBreaker.TextWords
import Mathlib.Data.Char
import Mathlib.Data.List.Lex
import Mathlib.Data.List.Sort
import Mathlib.Data.Prod.Lex

/-! The dependency edges that the inventory's tables hold, and the adjacency an impact traversal
walks along. -/

namespace CircuitBreaker.DependencyEdges

open JsonText List

abbrev Text := List Char

inductive AssetType where
  | hardware | computeUnit | service | storage | network
  deriving DecidableEq

def AssetType.text : AssetType → Text
  | .hardware => "hardware".toList
  | .computeUnit => "compute_unit".toList
  | .service => "service".toList
  | .storage => "storage".toList
  | .network => "network".toList

abbrev AssetKey := AssetType × Int

inductive EdgeType where
  | hosting | dependency | connectivity | inferredDependency
  deriving DecidableEq

inductive Provenance where
  | confirmed | inferred
  deriving DecidableEq

structure DependencyEdge where
  provider : AssetKey
  dependent : AssetKey
  edgeType : EdgeType
  sourceKind : Text
  sourceId : Int
  provenance : Provenance
  label : Option Text

/-- `f"{first}:{part}:{part}"` -/
def colons (first : Text) (parts : List Text) : Text :=
  parts.foldl (fun text part => text++ ':'::part) first

def DependencyEdge.identity (e : DependencyEdge) : Text :=
  colons e.sourceKind [decimal e.sourceId,e.provider.1.text,decimal e.provider.2,
    e.dependent.1.text,decimal e.dependent.2]

structure EdgeSet where
  dependencies : List DependencyEdge
  connectivity : List DependencyEdge

/-! ### The tables -/

structure Hardware where
  id : Int
  name : Text
  status : Option Text
  telemetryStatus : Option Text

structure ComputeUnit where
  id : Int
  name : Text
  status : Option Text
  hardwareId : Option Int

structure Service where
  id : Int
  name : Text
  status : Option Text
  hardwareId : Option Int
  computeId : Option Int

structure Storage where
  id : Int
  name : Text
  hardwareId : Option Int

structure ServiceDependency where
  id : Int
  serviceId : Int
  dependsOnId : Int
  connectionType : Option Text

structure ServiceStorage where
  id : Int
  serviceId : Int
  storageId : Int
  purpose : Option Text
  connectionType : Option Text

structure HardwareConnection where
  id : Int
  sourceHardwareId : Int
  targetHardwareId : Int
  connectionType : Option Text

structure HardwareNetwork where
  id : Int
  networkId : Int
  hardwareId : Int

structure ComputeNetwork where
  id : Int
  networkId : Int
  computeId : Int

structure Table {α : Type} (id : α → Int) where
  rows : List α
  primary : (rows.map id).Nodup

structure Database where
  hardware : Table Hardware.id
  computeUnits : Table ComputeUnit.id
  services : Table Service.id
  storage : Table Storage.id
  serviceDependencies : Table ServiceDependency.id
  serviceStorage : Table ServiceStorage.id
  hardwareConnections : Table HardwareConnection.id
  hardwareNetworks : Table HardwareNetwork.id
  computeNetworks : Table ComputeNetwork.id

structure Reordered (d e : Database) : Prop where
  hardware : d.hardware.rows.Perm e.hardware.rows
  computeUnits : d.computeUnits.rows.Perm e.computeUnits.rows
  services : d.services.rows.Perm e.services.rows
  storage : d.storage.rows.Perm e.storage.rows
  serviceDependencies : d.serviceDependencies.rows.Perm e.serviceDependencies.rows
  serviceStorage : d.serviceStorage.rows.Perm e.serviceStorage.rows
  hardwareConnections : d.hardwareConnections.rows.Perm e.hardwareConnections.rows
  hardwareNetworks : d.hardwareNetworks.rows.Perm e.hardwareNetworks.rows
  computeNetworks : d.computeNetworks.rows.Perm e.computeNetworks.rows

/-! ### Loading -/

/-- Python's `a or b` on texts that may be missing. -/
def orElse (a b : Option Text) : Option Text :=
  match a with
  | some (c::t) => some (c::t)
  | _ => b

section

variable {α β : Type} [LinearOrder β]

def sortBy (key : α → β) (l : List α) : List α := l.insertionSort fun a b => key a ≤ key b

theorem perm_sortBy (key : α → β) (l : List α) : (sortBy key l).Perm l :=
  perm_insertionSort _ l

theorem sortBy_congr {key : α → β} {l l' : List α} (h : l.Perm l')
    (distinct : ∀ a ∈ l,∀ b ∈ l,key a = key b → a = b) : sortBy key l = sortBy key l' := by
  have total : Std.Total fun a b : α => key a ≤ key b := ⟨fun a b => le_total _ _⟩
  have trans : IsTrans α fun a b => key a ≤ key b := ⟨fun _ _ _ => le_trans⟩
  have same := ((perm_sortBy key l).trans h).trans (perm_sortBy key l').symm
  refine same.eq_of_pairwise (fun a b ha hb hab hba => ?_)
    (pairwise_insertionSort _ l) (pairwise_insertionSort _ l')
  exact distinct a ((perm_sortBy key l).mem_iff.1 ha) b
    (h.mem_iff.2 ((perm_sortBy key l').mem_iff.1 hb)) (le_antisymm hab hba)

end

def computeUnitEdges (compute : ComputeUnit) : List DependencyEdge :=
  (compute.hardwareId.map fun hardwareId =>
    ⟨(.hardware,hardwareId),(.computeUnit,compute.id),.hosting,
      "compute_units.hardware_id".toList,compute.id,.confirmed,some "hosted by".toList⟩).toList

def serviceEdges (service : Service) : List DependencyEdge :=
  (service.hardwareId.map fun hardwareId =>
    ⟨(.hardware,hardwareId),(.service,service.id),.hosting,
      "services.hardware_id".toList,service.id,.confirmed,some "runs on".toList⟩).toList++
  (service.computeId.map fun computeId =>
    ⟨(.computeUnit,computeId),(.service,service.id),.hosting,
      "services.compute_id".toList,service.id,.confirmed,some "runs on".toList⟩).toList

def serviceDependencyEdges (dependency : ServiceDependency) : List DependencyEdge :=
  [⟨(.service,dependency.dependsOnId),(.service,dependency.serviceId),.dependency,
    "service_dependencies".toList,dependency.id,.confirmed,
    orElse dependency.connectionType (some "depends on".toList)⟩]

def storageEdges (storage : Storage) : List DependencyEdge :=
  (storage.hardwareId.map fun hardwareId =>
    ⟨(.hardware,hardwareId),(.storage,storage.id),.hosting,
      "storage.hardware_id".toList,storage.id,.confirmed,some "hosted by".toList⟩).toList

def serviceStorageEdges (link : ServiceStorage) : List DependencyEdge :=
  [⟨(.storage,link.storageId),(.service,link.serviceId),.dependency,
    "service_storage".toList,link.id,.confirmed,
    orElse link.purpose (orElse link.connectionType (some "uses storage".toList))⟩]

def hardwareConnectionEdges (connection : HardwareConnection) : List DependencyEdge :=
  [⟨(.hardware,connection.sourceHardwareId),(.hardware,connection.targetHardwareId),.connectivity,
    "hardware_connections".toList,connection.id,.confirmed,connection.connectionType⟩]

def hardwareNetworkEdges (membership : HardwareNetwork) : List DependencyEdge :=
  [⟨(.network,membership.networkId),(.hardware,membership.hardwareId),.connectivity,
    "hardware_networks".toList,membership.id,.confirmed,some "network membership".toList⟩]

def computeNetworkEdges (membership : ComputeNetwork) : List DependencyEdge :=
  [⟨(.network,membership.networkId),(.computeUnit,membership.computeId),.connectivity,
    "compute_networks".toList,membership.id,.confirmed,some "network membership".toList⟩]

def dependencyRows (db : Database) : List DependencyEdge :=
  db.computeUnits.rows.flatMap computeUnitEdges++(db.services.rows.flatMap serviceEdges++
    (db.serviceDependencies.rows.flatMap serviceDependencyEdges++
      (db.storage.rows.flatMap storageEdges++
        db.serviceStorage.rows.flatMap serviceStorageEdges)))

def connectivityRows (db : Database) : List DependencyEdge :=
  db.hardwareConnections.rows.flatMap hardwareConnectionEdges++
    (db.hardwareNetworks.rows.flatMap hardwareNetworkEdges++
      db.computeNetworks.rows.flatMap computeNetworkEdges)

def loadDependencyEdges (db : Database) : EdgeSet where
  dependencies := sortBy DependencyEdge.identity (dependencyRows db)
  connectivity := sortBy DependencyEdge.identity (connectivityRows db)

def Selected (includeInferred : Bool) (e : DependencyEdge) : Prop :=
  e.edgeType ≠ .connectivity ∧ (e.provenance = .inferred → includeInferred = true)

/-- `build_impact_adjacency` on its way through the edges. -/
structure Building where
  seen : List Text
  adjacency : Dict AssetKey (List DependencyEdge)

def addEdge (includeInferred : Bool) (b : Building) (edge : DependencyEdge) : Building :=
  if edge.edgeType = .connectivity then b
  else if edge.provenance = .inferred ∧ includeInferred = false then b
  else if edge.identity ∈ b.seen then b
  else
    { seen := b.seen++[edge.identity]
      adjacency := b.adjacency.set edge.provider
        ((b.adjacency.get edge.provider).getD []++[edge]) }

def outgoingKey (e : DependencyEdge) : Text ×ₗ Int ×ₗ Text :=
  toLex (e.dependent.1.text,toLex (e.dependent.2,e.identity))

def buildImpactAdjacency (edges : List DependencyEdge) (includeInferred : Bool) :
    Dict AssetKey (List DependencyEdge) :=
  Dict.ofPairs ((edges.foldl (addEdge includeInferred) ⟨[],.empty⟩).adjacency.items.map fun p =>
    (p.1,sortBy outgoingKey p.2))

/-- `adjacency.get(provider, [])` -/
def outgoing (adjacency : Dict AssetKey (List DependencyEdge)) (provider : AssetKey) :
    List DependencyEdge := (adjacency.get provider).getD []

/-! ### What an identity says of its edge -/

theorem split_last {c : Char} {a b s t : Text} (h : a++c::s = b++c::t) (hs : c ∉ s) (ht : c ∉ t) :
    a = b ∧ s = t := by
  rcases append_eq_append_iff.1 h with ⟨m,hb,hm⟩ | ⟨m,ha,hm⟩
  · cases m with
    | nil => exact ⟨(append_nil a ▸ hb).symm,(List.cons.inj hm).2⟩
    | cons d m => exact absurd ((List.cons.inj hm).2 ▸ by simp) hs
  · cases m with
    | nil => exact ⟨append_nil b ▸ ha,(List.cons.inj hm).2.symm⟩
    | cons d m => exact absurd ((List.cons.inj hm).2 ▸ by simp) ht

theorem colons_determine {first first' : Text} {parts parts' : List Text}
    (h : colons first parts = colons first' parts') (len : parts.length = parts'.length)
    (hp : ∀ part ∈ parts,':' ∉ part) (hp' : ∀ part ∈ parts',':' ∉ part) :
    first = first' ∧ parts = parts' := by
  induction parts generalizing first first' parts' with
  | nil =>
    obtain rfl := length_eq_zero_iff.1 len.symm
    exact ⟨h,rfl⟩
  | cons part parts ih =>
    cases parts' with
    | nil => cases len
    | cons part' parts' =>
      have next : colons (first++ ':'::part) parts = colons (first'++ ':'::part') parts' := h
      obtain ⟨before,rfl⟩ := ih next (by simpa using len) (fun p hm => hp p (by simp [hm]))
        fun p hm => hp' p (by simp [hm])
      obtain ⟨rfl,rfl⟩ := split_last before (hp part (by simp)) (hp' part' (by simp))
      exact ⟨rfl,rfl⟩

theorem text_plain (t : AssetType) : ':' ∉ t.text := by
  cases t <;> decide

theorem text_injective {t u : AssetType} (h : t.text = u.text) : t = u := by
  revert h
  cases t <;> cases u <;> decide

theorem digits_plain (n : Nat) : ':' ∉ Nat.toDigits 10 n := fun h =>
  absurd (Nat.isDigit_of_mem_toDigits (b := 10) (n := n) (by decide) (by decide) h) (by decide)

theorem decimal_plain (n : Int) : ':' ∉ decimal n := by
  cases n with
  | ofNat n => exact digits_plain n
  | negSucc n => simpa [decimal] using digits_plain (n+1)

theorem decimal_injective {a b : Int} (h : decimal a = decimal b) : a = b :=
  (decimal_determines a b [] [] (by rw [h]) nofun nofun).1

theorem identity_determines {a b : DependencyEdge} (h : a.identity = b.identity) :
    a.sourceKind = b.sourceKind ∧ a.sourceId = b.sourceId ∧ a.provider = b.provider ∧
      a.dependent = b.dependent := by
  have plain : ∀ e : DependencyEdge,∀ part ∈ [decimal e.sourceId,e.provider.1.text,
      decimal e.provider.2,e.dependent.1.text,decimal e.dependent.2],':' ∉ part := by
    simp [decimal_plain,text_plain]
  obtain ⟨kind,parts⟩ := colons_determine h rfl (plain a) (plain b)
  simp only [List.cons.injEq,and_true] at parts
  obtain ⟨sid,pt,pid,dt,did⟩ := parts
  exact ⟨kind,decimal_injective sid,Prod.ext (text_injective pt) (decimal_injective pid),
    Prod.ext (text_injective dt) (decimal_injective did)⟩

/-! ### What the adjacency holds -/

/-- After these edges the adjacency holds those it kept, one of each identity. -/
structure Built (includeInferred : Bool) (edges : List DependencyEdge) (b : Building)
    (kept : List DependencyEdge) : Prop where
  seen : b.seen = kept.map DependencyEdge.identity
  once : (kept.map DependencyEdge.identity).Nodup
  lists : ∀ u,outgoing b.adjacency u = kept.filter (·.provider = u)
  inside : ∀ e ∈ kept,e ∈ edges ∧ Selected includeInferred e
  all : ∀ e ∈ edges,Selected includeInferred e → e.identity ∈ b.seen

theorem Built.skip {inc : Bool} {edges kept : List DependencyEdge} {b : Building}
    {e : DependencyEdge} (h : Built inc edges b kept)
    (known : Selected inc e → e.identity ∈ b.seen) : Built inc (edges++[e]) b kept := by
  refine ⟨h.seen,h.once,h.lists,fun a ha => ?_,fun a ha hs => ?_⟩
  · exact ⟨mem_append_left _ (h.inside a ha).1,(h.inside a ha).2⟩
  · rcases mem_append.1 ha with ha | ha
    · exact h.all a ha hs
    · obtain rfl := mem_singleton.1 ha
      exact known hs

theorem Built.add {inc : Bool} {edges kept : List DependencyEdge} {b : Building}
    {e : DependencyEdge} (h : Built inc edges b kept) :
    ∃ kept',Built inc (edges++[e]) (addEdge inc b e) kept' := by
  unfold addEdge
  split
  case isTrue hc => exact ⟨kept,h.skip fun hs => absurd hc hs.1⟩
  case isFalse hc =>
    split
    case isTrue hi => exact ⟨kept,h.skip fun hs => absurd (hs.2 hi.1) (by simp [hi.2])⟩
    case isFalse hi =>
      split
      case isTrue known => exact ⟨kept,h.skip fun _ => known⟩
      case isFalse new =>
        refine ⟨kept++[e],?_,?_,fun u => ?_,fun a ha => ?_,fun a ha hs => ?_⟩
        · change b.seen++[e.identity] = _
          rw [h.seen,map_append]
          rfl
        · rw [map_append,map_singleton]
          refine nodup_append.2 ⟨h.once,nodup_singleton _,fun a ha c hc eq => ?_⟩
          rw [mem_singleton.1 hc] at eq
          exact new (h.seen ▸ eq ▸ ha)
        · rw [filter_append,←h.lists u]
          change ((b.adjacency.set _ _).get u).getD [] = _
          rw [Dict.get_set]
          by_cases hu : u = e.provider
          · subst hu
            simp [outgoing]
          · simp [outgoing,hu,Ne.symm hu]
        · rcases mem_append.1 ha with ha | ha
          · exact ⟨mem_append_left _ (h.inside a ha).1,(h.inside a ha).2⟩
          · obtain rfl := mem_singleton.1 ha
            refine ⟨by simp,hc,fun inferred => ?_⟩
            by_contra off
            exact hi ⟨inferred,by simpa using off⟩
        · change a.identity ∈ b.seen++[e.identity]
          rcases mem_append.1 ha with ha | ha
          · exact mem_append_left _ (h.all a ha hs)
          · obtain rfl := mem_singleton.1 ha
            simp

theorem built (inc : Bool) (edges : List DependencyEdge) :
    ∃ kept,Built inc edges (edges.foldl (addEdge inc) ⟨[],.empty⟩) kept := by
  induction edges using List.reverseRecOn with
  | nil => exact ⟨[],rfl,nodup_nil,fun _ => rfl,(fun _ h => nomatch h),(fun _ h => nomatch h)⟩
  | append_singleton edges e ih =>
    obtain ⟨kept,h⟩ := ih
    rw [foldl_append]
    exact h.add

theorem outgoing_spec (inc : Bool) (edges : List DependencyEdge) :
    (∀ u,(outgoing (buildImpactAdjacency edges inc) u).Nodup) ∧
    (∀ u,∀ e ∈ outgoing (buildImpactAdjacency edges inc) u,
      e.provider = u ∧ e ∈ edges ∧ Selected inc e) ∧
    ∀ e ∈ edges,Selected inc e →
      ∃ a ∈ outgoing (buildImpactAdjacency edges inc) e.provider,a.dependent = e.dependent := by
  obtain ⟨kept,h⟩ := built inc edges
  have perm : ∀ u,(outgoing (buildImpactAdjacency edges inc) u).Perm
      (kept.filter (·.provider = u)) := by
    intro u
    rw [←h.lists u,outgoing,buildImpactAdjacency,Dict.get_mapped,outgoing]
    cases (edges.foldl (addEdge inc) ⟨[],.empty⟩).adjacency.get u with
    | none => exact .refl _
    | some l => exact perm_sortBy _ l
  refine ⟨fun u => ?_,fun u e he => ?_,fun e he hs => ?_⟩
  · exact (perm u).nodup_iff.2 (h.once.of_map.filter _)
  · obtain ⟨hk,hp⟩ := mem_filter.1 ((perm u).mem_iff.1 he)
    exact ⟨of_decide_eq_true hp,h.inside e hk⟩
  · obtain ⟨a,ha,same⟩ := mem_map.1 (h.seen ▸ h.all e he hs)
    obtain ⟨-,-,provider,dependent⟩ := identity_determines same
    exact ⟨a,(perm _).mem_iff.2 (mem_filter.2 ⟨ha,by simpa using provider⟩),dependent⟩

/-! ### Rows in another order -/

variable {db db' : Database}

def Identified (edges : List DependencyEdge) : Prop :=
  ∀ a ∈ edges,∀ b ∈ edges,a.identity = b.identity → a = b

theorem row_of_id {α : Type} {id : α → Int} (t : Table id) {r s : α} (hr : r ∈ t.rows)
    (hs : s ∈ t.rows) (h : id r = id s) : r = s :=
  inj_on_of_nodup_map t.primary hr hs h

def KindsIn (kinds : List Text) (edges : List DependencyEdge) : Prop :=
  ∀ e ∈ edges,e.sourceKind ∈ kinds

/-- What a row yields: edges that carry its id, one for each of these kinds at most. -/
structure Yields {α : Type} (id : α → Int) (kinds : List Text) (edges : α → List DependencyEdge) :
    Prop where
  carries : ∀ r,∀ e ∈ edges r,e.sourceId = id r
  kinds : ∀ r,KindsIn kinds (edges r)
  once : ∀ r,((edges r).map DependencyEdge.sourceKind).Nodup

theorem Yields.identified {α : Type} {id : α → Int} {kinds : List Text}
    {edges : α → List DependencyEdge} (h : Yields id kinds edges) (t : Table id) :
    Identified (t.rows.flatMap edges) := by
  intro a ha b hb same
  obtain ⟨r,hr,ha⟩ := mem_flatMap.1 ha
  obtain ⟨s,hs,hb⟩ := mem_flatMap.1 hb
  obtain ⟨kind,sid,-,-⟩ := identity_determines same
  rw [h.carries r a ha,h.carries s b hb] at sid
  obtain rfl := row_of_id t hr hs sid
  exact inj_on_of_nodup_map (h.once r) ha hb kind

theorem Yields.table {α : Type} {id : α → Int} {kinds : List Text}
    {edges : α → List DependencyEdge} (h : Yields id kinds edges) (rows : List α) :
    KindsIn kinds (rows.flatMap edges) := by
  intro e he
  obtain ⟨r,-,he⟩ := mem_flatMap.1 he
  exact h.kinds r e he

theorem kinds_append {ks ks' : List Text} {l l' : List DependencyEdge} (h : KindsIn ks l)
    (h' : KindsIn ks' l') : KindsIn (ks++ks') (l++l') := by
  intro e he
  rcases mem_append.1 he with he | he
  · exact mem_append_left _ (h e he)
  · exact mem_append_right _ (h' e he)

theorem identified_append {ks ks' : List Text} {l l' : List DependencyEdge} (h : Identified l)
    (h' : Identified l') (hk : KindsIn ks l) (hk' : KindsIn ks' l') (apart : ∀ k ∈ ks,k ∉ ks') :
    Identified (l++l') := by
  have other : ∀ a ∈ l,∀ b ∈ l',a.sourceKind ≠ b.sourceKind :=
    fun a ha b hb same => apart _ (hk a ha) (same ▸ hk' b hb)
  intro a ha b hb same
  have kinds := (identity_determines same).1
  rcases mem_append.1 ha with ha | ha
  · rcases mem_append.1 hb with hb | hb
    · exact h a ha b hb same
    · exact absurd kinds (other a ha b hb)
  · rcases mem_append.1 hb with hb | hb
    · exact absurd kinds.symm (other b hb a ha)
    · exact h' a ha b hb same

theorem yields_one {α : Type} {id : α → Int} {kind : Text} {edge : α → DependencyEdge}
    (carries : ∀ r,(edge r).sourceId = id r) (kinds : ∀ r,(edge r).sourceKind = kind) :
    Yields id [kind] fun r => [edge r] := by
  constructor
  case carries => simpa using carries
  case kinds => simpa [KindsIn] using kinds
  case once => simp

theorem yields_host {α : Type} {id : α → Int} {kind : Text} {host : α → Option Int}
    {edge : α → Int → DependencyEdge} (carries : ∀ r h,(edge r h).sourceId = id r)
    (kinds : ∀ r h,(edge r h).sourceKind = kind) :
    Yields id [kind] fun r => ((host r).map (edge r)).toList := by
  constructor
  all_goals
    intro r
    cases hh : host r with
    | none => simp [KindsIn]
    | some h => simp [KindsIn,carries,kinds]

theorem computeUnit_yields :
    Yields ComputeUnit.id ["compute_units.hardware_id".toList] computeUnitEdges :=
  yields_host (fun _ _ => rfl) fun _ _ => rfl

theorem service_yields : Yields Service.id
    ["services.hardware_id".toList,"services.compute_id".toList] serviceEdges := by
  constructor
  all_goals
    intro r
    obtain ⟨id,name,status,_ | hardwareId,_ | computeId⟩ := r
    all_goals simp [serviceEdges,KindsIn]

theorem serviceDependency_yields :
    Yields ServiceDependency.id ["service_dependencies".toList] serviceDependencyEdges :=
  yields_one (fun _ => rfl) fun _ => rfl

theorem storage_yields : Yields Storage.id ["storage.hardware_id".toList] storageEdges :=
  yields_host (fun _ _ => rfl) fun _ _ => rfl

theorem serviceStorage_yields :
    Yields ServiceStorage.id ["service_storage".toList] serviceStorageEdges :=
  yields_one (fun _ => rfl) fun _ => rfl

theorem hardwareConnection_yields :
    Yields HardwareConnection.id ["hardware_connections".toList] hardwareConnectionEdges :=
  yields_one (fun _ => rfl) fun _ => rfl

theorem hardwareNetwork_yields :
    Yields HardwareNetwork.id ["hardware_networks".toList] hardwareNetworkEdges :=
  yields_one (fun _ => rfl) fun _ => rfl

theorem computeNetwork_yields :
    Yields ComputeNetwork.id ["compute_networks".toList] computeNetworkEdges :=
  yields_one (fun _ => rfl) fun _ => rfl

theorem dependencies_identified (db : Database) : Identified (dependencyRows db) := by
  have storageKinds := storage_yields.table db.storage.rows
  have linkKinds := serviceStorage_yields.table db.serviceStorage.rows
  have links := identified_append (storage_yields.identified db.storage)
    (serviceStorage_yields.identified db.serviceStorage) storageKinds linkKinds (by decide)
  have linked := kinds_append storageKinds linkKinds
  have dependencyKinds := serviceDependency_yields.table db.serviceDependencies.rows
  have dependencies := identified_append
    (serviceDependency_yields.identified db.serviceDependencies) links dependencyKinds linked
    (by decide)
  have depended := kinds_append dependencyKinds linked
  have serviceKinds := service_yields.table db.services.rows
  have services := identified_append (service_yields.identified db.services) dependencies
    serviceKinds depended (by decide)
  exact identified_append (computeUnit_yields.identified db.computeUnits) services
    (computeUnit_yields.table db.computeUnits.rows) (kinds_append serviceKinds depended)
    (by decide)

theorem connectivity_identified (db : Database) : Identified (connectivityRows db) := by
  have networkKinds := hardwareNetwork_yields.table db.hardwareNetworks.rows
  have computeKinds := computeNetwork_yields.table db.computeNetworks.rows
  have networks := identified_append (hardwareNetwork_yields.identified db.hardwareNetworks)
    (computeNetwork_yields.identified db.computeNetworks) networkKinds computeKinds (by decide)
  exact identified_append (hardwareConnection_yields.identified db.hardwareConnections) networks
    (hardwareConnection_yields.table db.hardwareConnections.rows)
    (kinds_append networkKinds computeKinds) (by decide)

theorem load_reordered (h : Reordered db db') : loadDependencyEdges db = loadDependencyEdges db' := by
  have dependencies : (dependencyRows db).Perm (dependencyRows db') :=
    (h.computeUnits.flatMap_right _).append ((h.services.flatMap_right _).append
      ((h.serviceDependencies.flatMap_right _).append
        ((h.storage.flatMap_right _).append (h.serviceStorage.flatMap_right _))))
  have connectivity : (connectivityRows db).Perm (connectivityRows db') :=
    (h.hardwareConnections.flatMap_right _).append
      ((h.hardwareNetworks.flatMap_right _).append (h.computeNetworks.flatMap_right _))
  rw [loadDependencyEdges,sortBy_congr dependencies (dependencies_identified db),
    sortBy_congr connectivity (connectivity_identified db),loadDependencyEdges]

end CircuitBreaker.DependencyEdges
