import CircuitBreaker.TopologyInference
import Mathlib.Data.List.Flatten

/-! Replacing the inferred connections of a map (topology_inference_service.py): the batch is widened
by the subnet peers on the map, the connections within the batch are deleted, and those inferred for
all of them are added. -/

namespace CircuitBreaker.TopologyInference
open ParentTrees List

structure Hardware where
  id : Nat
  ipAddress : Option String
  role : Option String
  deriving DecidableEq

structure Connection where
  sourceHardwareId : Nat
  targetHardwareId : Nat
  connectionType : Option String
  source : String
  deriving DecidableEq

def Connection.pair (c : Connection) : Nat × Nat := (c.sourceHardwareId,c.targetHardwareId)

def discoveryInferred : String := "discovery_inferred"

/-- The rows, with the constraints there are. A topology node is a map and a hardware id. -/
structure Db where
  hardware : List Hardware
  topologyNodes : List (Nat × Nat)
  connections : List Connection
  ids_nodup : (hardware.map (·.id)).Nodup
  pairs_nodup : (connections.map Connection.pair).Nodup
  ends : ∀ x ∈ connections, x.sourceHardwareId ∈ hardware.map (·.id) ∧
    x.targetHardwareId ∈ hardware.map (·.id)

inductive Failure where
  | multipleResultsFound
  deriving DecidableEq

structure Call where
  hwIds : List Nat
  mapId : Nat
  replaceExistingInferred : Bool := true
  roleOverrides : Option (Nat → Option String) := none
  connectionType : String := "ethernet"
  rankMap : Option (String → Option Int) := none
  int : String → Option Int

namespace Call
variable (c : Call)

def arguments : Arguments := { roleOverrides := c.roleOverrides, rankMap := c.rankMap, int := c.int }

def enforce (hw : Hardware) : Hardware :=
  if hw.id ∈ c.hwIds then
    { hw with role := (orText ((c.roleOverrides.getD fun _ => none) hw.id)).or hw.role }
  else hw

def rows (db : Db) : List Hardware := db.hardware.map c.enforce

def batch (db : Db) : List Hardware := (c.rows db).filter (·.id ∈ c.hwIds)

def subnetPrefixes (db : Db) : List String :=
  (((c.batch db).filter fun hw => (orText hw.ipAddress).isSome).map fun hw =>
    subnetKey hw.ipAddress).filter (· ≠ noIp)

def onMap (db : Db) (hw : Hardware) : Except Failure Bool :=
  match db.topologyNodes.countP (· = (c.mapId,hw.id)) with
  | 0 => .ok false
  | 1 => .ok true
  | _ => .error .multipleResultsFound

def candidates (db : Db) : List Hardware :=
  (c.rows db).filter fun hw =>
    hw.ipAddress.isSome && hw.id ∉ c.hwIds && subnetKey hw.ipAddress ∈ c.subnetPrefixes db

def onMapOf (db : Db) : List Hardware → Except Failure (List Hardware)
  | [] => .ok []
  | hw::rest =>
    match c.onMap db hw,onMapOf db rest with
    | .ok here,.ok more => .ok (if here then hw::more else more)
    | .error e,_ | _,.error e => .error e

def peers (db : Db) : Except Failure (List Hardware) := c.onMapOf db (c.candidates db)

def node (hw : Hardware) : Node := ⟨hw.id,hw.ipAddress,hw.role,none⟩

def nodes (db : Db) : Except Failure (List Node) := do
  let peers ← c.peers db
  return (c.batch db++peers).map node

def stale (x : Connection) : Bool :=
  c.replaceExistingInferred && x.sourceHardwareId ∈ c.hwIds && x.targetHardwareId ∈ c.hwIds &&
    x.source = discoveryInferred

def kept (db : Db) : List Connection := db.connections.filter fun x => !c.stale x

def missing (db : Db) (pairs : List (Nat × Nat)) : List (Nat × Nat) :=
  pairs.filter fun p => p ∉ (c.kept db).map Connection.pair

def create (p : Nat × Nat) : Connection := ⟨p.1,p.2,some c.connectionType,discoveryInferred⟩

/-! No node is there twice. -/

variable {c} {db : Db}

theorem rows_ids : (c.rows db).map (·.id) = db.hardware.map (·.id) := by
  rw [rows,map_map]
  refine map_congr_left fun hw _ => ?_
  show (c.enforce hw).id = hw.id
  rw [enforce]
  split <;> rfl

theorem onMapOf_sublist {l out : List Hardware} (h : c.onMapOf db l = .ok out) : out.Sublist l := by
  induction l generalizing out with
  | nil =>
    cases h
    exact .slnil
  | cons hw rest ih =>
    rw [onMapOf] at h
    cases hm : c.onMap db hw with
    | error e =>
      rw [hm] at h
      cases h
    | ok here =>
      cases hr : c.onMapOf db rest with rw [hm,hr] at h
      | error e =>
        cases h
      | ok more =>
        cases h
        cases here with
        | true => exact (ih hr).cons_cons hw
        | false => exact (ih hr).cons hw

theorem nodes_ok {ns : List Node} (h : c.nodes db = .ok ns) : ∃ out, c.peers db = .ok out ∧
    ns = (c.batch db++out).map node := by
  rw [nodes] at h
  cases hp : c.peers db with rw [hp] at h
  | error e =>
    cases h
  | ok out =>
    cases h
    exact ⟨out,rfl,rfl⟩

theorem nodes_nodup {ns : List Node} (h : c.nodes db = .ok ns) : (ids ns).Nodup := by
  obtain ⟨out,hp,rfl⟩ := nodes_ok h
  have sub := onMapOf_sublist hp
  have distinct : ((c.rows db).map (·.id)).Nodup := rows_ids ▸ db.ids_nodup
  have same : ids ((c.batch db++out).map node) = (c.batch db).map (·.id)++out.map (·.id) := by
    rw [ids,map_map,←map_append]
    rfl
  rw [same,nodup_append]
  refine ⟨distinct.sublist (filter_sublist.map _),
    distinct.sublist ((sub.trans filter_sublist).map _),fun i hi j hj eq => ?_⟩
  obtain ⟨b,hb,rfl⟩ := mem_map.1 hi
  obtain ⟨p,hpeer,rfl⟩ := mem_map.1 hj
  have inside := (mem_filter.1 hb).2
  have outside := (mem_filter.1 (sub.subset hpeer)).2
  simp only [Bool.and_eq_true,decide_eq_true_eq] at inside outside
  exact outside.1.2 (eq ▸ inside)

end Call

theorem infer_nodup {a : Arguments} {nodes : List Node} (nodup : (ids nodes).Nodup) :
    (inferConnections a nodes).Nodup := by
  rw [inferConnections,nodup_flatMap]
  constructor
  · intro item hitem
    have here := (@mem_subnets nodes item.1 item.2).1 hitem
    obtain ⟨root,-,tree,-⟩ := group_tree (a := a) here.2 (here.1 ▸ group_nodup nodup item.1)
    exact tree.nodup
  · refine (pairwise_map.1 (nodup_iff_pairwise_ne.1 (subnets nodes).nodup)).imp_of_mem ?_
    intro x y hx hy other
    refine disjoint_left.2 fun e he he' => ?_
    have he : e ∈ a.groupEdges x.2 := he
    have he' : e ∈ a.groupEdges y.2 := he'
    rw [(@mem_subnets nodes x.1 x.2).1 hx |>.1] at he
    rw [(@mem_subnets nodes y.1 y.2).1 hy |>.1] at he'
    exact other (group_of_id nodup (group_inside nodup he).1 (group_inside nodup he').1)

variable {c : Call} {db : Db} {ns : List Node}

theorem Call.pairs_nodup (h : c.nodes db = .ok ns) :
    ((c.kept db++(c.missing db (inferConnections c.arguments ns)).map c.create).map
      Connection.pair).Nodup := by
  have created : ∀ l : List (Nat × Nat), (l.map c.create).map Connection.pair = l := fun l => by
    rw [map_map]
    exact map_id l
  rw [map_append,created,nodup_append]
  refine ⟨db.pairs_nodup.sublist (filter_sublist.map _),
    (infer_nodup (Call.nodes_nodup h)).sublist filter_sublist,fun p hp q hq same => ?_⟩
  rw [←same] at hq
  exact of_decide_eq_true (mem_filter.1 hq).2 hp

theorem Call.mem_ids (h : c.nodes db = .ok ns) {i : Nat}
    (hi : i ∈ ids ns) : i ∈ db.hardware.map (·.id) := by
  obtain ⟨out,hp,rfl⟩ := Call.nodes_ok h
  rw [ids,map_map] at hi
  obtain ⟨hw,hhw,rfl⟩ := mem_map.1 hi
  rw [←@Call.rows_ids c db]
  refine mem_map.2 ⟨hw,?_,rfl⟩
  rcases mem_append.1 hhw with hb | hq
  · exact mem_of_mem_filter hb
  · exact mem_of_mem_filter ((Call.onMapOf_sublist hp).subset hq)

theorem infer_ends {a : Arguments} {nodes : List Node} (nodup : (ids nodes).Nodup) {p : Nat × Nat}
    (hp : p ∈ inferConnections a nodes) : p.1 ∈ ids nodes ∧ p.2 ∈ ids nodes := by
  obtain ⟨g,hg⟩ := mem_inferConnections.1 hp
  obtain ⟨source,target⟩ := group_inside nodup hg
  have sub : ∀ i ∈ ids (inGroup nodes g), i ∈ ids nodes := fun i hi =>
    (filter_sublist.map _).subset hi
  exact ⟨sub _ source,sub _ target⟩

theorem Call.ends (h : c.nodes db = .ok ns) :
    ∀ x ∈ c.kept db++(c.missing db (inferConnections c.arguments ns)).map c.create,
      x.sourceHardwareId ∈ (c.rows db).map (·.id) ∧ x.targetHardwareId ∈ (c.rows db).map (·.id) := by
  intro x hx
  rw [Call.rows_ids]
  rcases mem_append.1 hx with hx | hx
  · exact db.ends x (mem_of_mem_filter hx)
  · obtain ⟨p,hp,rfl⟩ := mem_map.1 hx
    obtain ⟨source,target⟩ := infer_ends (Call.nodes_nodup h) (mem_of_mem_filter hp)
    exact ⟨Call.mem_ids h source,Call.mem_ids h target⟩

def applyInferredTopology (c : Call) (db : Db) : Except Failure (Nat × Db) :=
  if c.hwIds = [] then .ok (0,db)
  else
    match h : c.nodes db with
    | .error e => .error e
    | .ok ns =>
      let new := c.missing db (inferConnections c.arguments ns)
      .ok (new.length,
        { db with
          hardware := c.rows db
          connections := c.kept db++new.map c.create
          ids_nodup := Call.rows_ids ▸ db.ids_nodup
          pairs_nodup := Call.pairs_nodup h
          ends := Call.ends h })

/-! What a call leaves. -/

structure Applied (c : Call) (db db' : Db) (ns : List Node) : Prop where
  nodes : c.nodes db = .ok ns
  hardware : db'.hardware = c.rows db
  topologyNodes : db'.topologyNodes = db.topologyNodes
  connections : db'.connections =
    c.kept db++(c.missing db (inferConnections c.arguments ns)).map c.create

theorem applied_empty (db : Db) (none : c.hwIds = []) : Applied c db db [] := by
  have batch : c.batch db = [] := by simp [Call.batch,none]
  have enforce : ∀ hw, c.enforce hw = hw := fun hw => by simp [Call.enforce,none]
  have candidates : c.candidates db = [] := by
    simp [Call.candidates,Call.subnetPrefixes,batch]
  refine ⟨?_,?_,rfl,?_⟩
  · simp [Call.nodes,Call.peers,candidates,Call.onMapOf,batch]
  · rw [Call.rows,map_congr_left fun hw _ => enforce hw,map_id']
  · have fresh : ∀ x, c.stale x = false := fun x => by simp [Call.stale,none]
    have all : c.kept db = db.connections := filter_eq_self.2 fun x _ => by rw [fresh x]; rfl
    rw [all]
    exact (append_nil _).symm

theorem applied {db' : Db} {n : Nat}
    (h : applyInferredTopology c db = .ok (n,db')) : ∃ ns, Applied c db db' ns := by
  rw [applyInferredTopology] at h
  split at h
  case isTrue none =>
    cases h
    exact ⟨[],applied_empty db none⟩
  case isFalse =>
    split at h <;> cases h
    rename_i ns hns
    exact ⟨ns,hns,rfl,rfl,rfl⟩

theorem applies (h : c.nodes db = .ok ns) :
    ∃ n db', applyInferredTopology c db = .ok (n,db') := by
  rw [applyInferredTopology]
  split
  · exact ⟨0,db,rfl⟩
  · split
    · rename_i e he
      rw [h] at he
      cases he
    · exact ⟨_,_,rfl⟩

theorem enforce_twice (c : Call) (hw : Hardware) : c.enforce (c.enforce hw) = c.enforce hw := by
  have id : (c.enforce hw).id = hw.id := by
    rw [Call.enforce]
    split <;> rfl
  by_cases inside : hw.id ∈ c.hwIds
  · have once : c.enforce hw =
        { hw with role := (orText ((c.roleOverrides.getD fun _ => none) hw.id)).or hw.role } :=
      if_pos inside
    rw [Call.enforce,if_pos (id ▸ inside),once]
    cases orText ((c.roleOverrides.getD fun _ => none) hw.id) <;> rfl
  · have once : c.enforce hw = hw := if_neg inside
    rw [once,once]

theorem Applied.same_nodes {db' : Db} (h : Applied c db db' ns) :
    c.nodes db' = .ok ns := by
  have rows : c.rows db' = c.rows db := by
    rw [Call.rows,h.hardware,Call.rows,map_map]
    exact map_congr_left fun hw _ => enforce_twice c hw
  have batch : c.batch db' = c.batch db := by rw [Call.batch,rows,Call.batch]
  have candidates : c.candidates db' = c.candidates db := by
    rw [Call.candidates,rows,Call.subnetPrefixes,batch,Call.candidates,Call.subnetPrefixes]
  have onMap : c.onMap db' = c.onMap db := by
    funext hw
    rw [Call.onMap,h.topologyNodes,Call.onMap]
  have onMapOf : ∀ l, c.onMapOf db' l = c.onMapOf db l := by
    intro l
    induction l with
    | nil => rfl
    | cons hw rest ih => rw [Call.onMapOf,onMap,ih,Call.onMapOf]
  rw [←h.nodes,Call.nodes,Call.peers,onMapOf,candidates,batch,Call.nodes,Call.peers]

/-! What is there afterwards. -/

/-- The inferred connections within the cohort are those inferred for it that no other connection has
the pair of, the rest is as before, and the same call again changes nothing. -/
structure Replaced (c : Call) (db db' : Db) (ns : List Node) : Prop where
  exact : ∀ p, (∃ x ∈ db'.connections, x.pair = p ∧ x.source = discoveryInferred ∧
      p.1 ∈ ids ns ∧ p.2 ∈ ids ns) ↔
    p ∈ inferConnections c.arguments ns ∧
      ∀ x ∈ db'.connections, x.pair = p → x.source = discoveryInferred
  others : ∀ x : Connection, (x.source = discoveryInferred → ¬(x.sourceHardwareId ∈ ids ns ∧
    x.targetHardwareId ∈ ids ns)) → (x ∈ db'.connections ↔ x ∈ db.connections)
  again : ∃ n db'', applyInferredTopology c db' = .ok (n,db'') ∧
    ∀ x, x ∈ db''.connections ↔ x ∈ db'.connections

section
variable {c : Call} {db db' : Db} {ns : List Node}

variable {x : Connection}

theorem mem_kept : x ∈ c.kept db ↔ x ∈ db.connections ∧ c.stale x = false := by
  simp [Call.kept]

theorem mem_missing {pairs : List (Nat × Nat)} {p : Nat × Nat} :
    p ∈ c.missing db pairs ↔ p ∈ pairs ∧ ∀ x ∈ c.kept db, x.pair ≠ p := by
  simp [Call.missing]

theorem stale_iff (replace : c.replaceExistingInferred = true) :
    c.stale x = true ↔ (x.sourceHardwareId ∈ c.hwIds ∧ x.targetHardwareId ∈ c.hwIds) ∧
      x.source = discoveryInferred := by
  simp [Call.stale,replace]

theorem Applied.mem (h : Applied c db db' ns) :
    x ∈ db'.connections ↔ x ∈ c.kept db ∨ ∃ p ∈ inferConnections c.arguments ns,
      (∀ y ∈ c.kept db, y.pair ≠ p) ∧ c.create p = x := by
  rw [h.connections,mem_append,mem_map]
  refine or_congr_right ⟨fun there => ?_,fun there => ?_⟩
  · obtain ⟨p,hp,same⟩ := there
    exact ⟨p,(mem_missing.1 hp).1,(mem_missing.1 hp).2,same⟩
  · obtain ⟨p,hp,free,same⟩ := there
    exact ⟨p,mem_missing.2 ⟨hp,free⟩,same⟩

theorem Applied.batch_inside (h : Applied c db db' ns) {i : Nat} (row : i ∈ db.hardware.map (·.id))
    (hi : i ∈ c.hwIds) : i ∈ ids ns := by
  obtain ⟨out,-,rfl⟩ := Call.nodes_ok h.nodes
  rw [←@Call.rows_ids c db] at row
  obtain ⟨hw,hhw,rfl⟩ := mem_map.1 row
  have inside : hw ∈ c.batch db := mem_filter.2 ⟨hhw,decide_eq_true hi⟩
  exact mem_map.2 ⟨Call.node hw,mem_map.2 ⟨hw,mem_append_left _ inside,rfl⟩,rfl⟩

theorem same_pair (db : Db) {y : Connection} (hx : x ∈ db.connections) (hy : y ∈ db.connections)
    (same : x.pair = y.pair) : x = y :=
  inj_on_of_nodup_map db.pairs_nodup hx hy same

theorem Applied.others (h : Applied c db db' ns)
    (apart : x.source = discoveryInferred → ¬(x.sourceHardwareId ∈ ids ns ∧
      x.targetHardwareId ∈ ids ns)) : x ∈ db'.connections ↔ x ∈ db.connections := by
  rw [h.mem]
  constructor
  · intro there
    rcases there with kept | created
    · exact (mem_kept.1 kept).1
    · obtain ⟨p,hp,-,rfl⟩ := created
      exact absurd (infer_ends (Call.nodes_nodup h.nodes) hp) (apart rfl)
  · intro there
    refine .inl (mem_kept.2 ⟨there,Bool.eq_false_iff.2 fun stale => ?_⟩)
    simp only [Call.stale,Bool.and_eq_true,decide_eq_true_eq] at stale
    obtain ⟨source,target⟩ := db.ends x there
    exact apart stale.2 ⟨h.batch_inside source stale.1.1.2,h.batch_inside target stale.1.2⟩

theorem Applied.again (h : Applied c db db' ns) : ∃ n db'', applyInferredTopology c db' = .ok (n,db'') ∧
    ∀ x, x ∈ db''.connections ↔ x ∈ db'.connections := by
  obtain ⟨n,db'',call⟩ := applies h.same_nodes
  obtain ⟨ns',second⟩ := applied call
  have same : ns' = ns := Except.ok.inj (second.nodes.symm.trans h.same_nodes)
  subst same
  refine ⟨n,db'',call,fun x => ?_⟩
  rw [second.mem]
  constructor
  · intro there
    rcases there with kept | created
    · exact (mem_kept.1 kept).1
    · obtain ⟨p,hp,free,rfl⟩ := created
      refine h.mem.2 (.inr ⟨p,hp,fun y hy => free y (mem_kept.2 ?_),rfl⟩)
      exact ⟨h.mem.2 (.inl hy),(mem_kept.1 hy).2⟩
  · intro there
    by_cases stale : c.stale x = true
    · rcases h.mem.1 there with kept | created
      · rw [(mem_kept.1 kept).2] at stale
        cases stale
      · obtain ⟨p,hp,-,rfl⟩ := created
        refine .inr ⟨p,hp,fun y hy same => ?_,rfl⟩
        rw [same_pair db' (mem_kept.1 hy).1 there same] at hy
        rw [(mem_kept.1 hy).2] at stale
        cases stale
    · exact .inl (mem_kept.2 ⟨there,Bool.eq_false_iff.2 stale⟩)

end

def lan : Db where
  hardware := [⟨1,some "10.0.0.1",some "router"⟩,⟨2,some "10.0.0.30",some "server"⟩,
    ⟨3,some "10.0.0.2",some "switch"⟩]
  topologyNodes := [(7,1),(7,2)]
  connections := []
  ids_nodup := by decide
  pairs_nodup := by decide
  ends := by decide

def callFor (hwIds : List Nat) : Call := { hwIds, mapId := 7, int := lastPart }

def uplink (source target : Nat) : Connection := ⟨source,target,some "ethernet",discoveryInferred⟩

def lanSwitched : Db where
  hardware := lan.hardware
  topologyNodes := [(7,1),(7,2),(7,3)]
  connections := [uplink 1 2]
  ids_nodup := lan.ids_nodup
  pairs_nodup := by decide
  ends := by decide

def Db.place (db : Db) (i : Nat) : Db := { db with topologyNodes := db.topologyNodes++[(7,i)] }

theorem lan_connected : ∃ n db, applyInferredTopology (callFor [1,2]) lan = .ok (n,db) ∧
    db.hardware = lan.hardware ∧ db.topologyNodes = lan.topologyNodes ∧
    db.connections = [uplink 1 2] := by
  have nodes : (callFor [1,2]).nodes lan =
      .ok [⟨1,some "10.0.0.1",some "router",none⟩,⟨2,some "10.0.0.30",some "server",none⟩] := by
    decide
  obtain ⟨n,db,call⟩ := applies nodes
  obtain ⟨ns,done⟩ := applied call
  have same := Except.ok.inj (done.nodes.symm.trans nodes)
  subst same
  have rows : (callFor [1,2]).rows lan = lan.hardware := by decide
  refine ⟨n,db,call,done.hardware.trans rows,done.topologyNodes,done.connections.trans ?_⟩
  decide

theorem place_switch (hardware : db.hardware = lan.hardware)
    (topologyNodes : db.topologyNodes = lan.topologyNodes)
    (connections : db.connections = [uplink 1 2]) : db.place 3 = lanSwitched := by
  cases db
  cases hardware
  cases topologyNodes
  cases connections
  rfl

end CircuitBreaker.TopologyInference
