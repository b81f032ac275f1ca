import CircuitBreaker.ParentTrees
import CircuitBreaker.PyDict
import Mathlib.Data.List.Sort
import Mathlib.Data.Option.Basic

/-! Uplinks inferred from roles and addresses (topology_inference_service.py): the nodes of a subnet
are connected to a tree. -/

namespace CircuitBreaker.TopologyInference
open ParentTrees List

def roleRanks : List (String × Int) :=
  [("firewall",1),("router",2),("switch",3),("access_point",4),("server",5),("hypervisor",5),
    ("storage",5),("compute",5),("sbc",5),("ups",5),("pdu",5),("misc",5)]

def roleRank (role : String) : Option Int := roleRanks.lookup role

def noIp : String := "__no_ip__"

def subnetKey : Option String → String
  | none => noIp
  | some ip =>
    let parts := ip.toList.splitOn '.'
    if ip ≠ "" ∧ parts.length = 4 then String.ofList (List.intercalate ['.'] (parts.take 3)) else noIp

structure Node where
  id : Nat
  ipAddress : Option String
  role : Option String
  subnet : Option String := none
  deriving DecidableEq

def orText (text : Option String) : Option String := text.filter (· ≠ "")

/-- The arguments next to the nodes, and Python's `int` of a text. -/
structure Arguments where
  roleOverrides : Option (Nat → Option String) := none
  rankMap : Option (String → Option Int) := none
  int : String → Option Int

namespace Arguments
variable (a : Arguments)

def gatewayScore : Option String → Nat
  | none => 0
  | some ip =>
    if ip = "" then 0 else
      match a.int (String.ofList ((ip.toList.splitOn '.').getLastD [])) with
      | none => 0
      | some last =>
        if last = 1 then 10 else if last = 254 then 5 else if last = 2 then 2
        else if last = 126 then 1 else 0

def effectiveRole (n : Node) : String :=
  ((orText ((a.roleOverrides.getD fun _ => none) n.id)).or (orText n.role)).getD "misc"

def rank (n : Node) : Int := ((a.rankMap.getD roleRank) (a.effectiveRole n)).getD 5

def score (n : Node) : Nat := a.gatewayScore n.ipAddress

/-- `key=lambda n: (rank, -score)` -/
def keyLe (m n : Node) : Prop := a.rank m < a.rank n ∨ (a.rank m = a.rank n ∧ a.score n ≤ a.score m)

instance : DecidableRel a.keyLe := fun m n => by
  unfold keyLe
  infer_instance

def sortedNodes (nodes : List Node) : List Node := nodes.insertionSort a.keyLe

def isChain (n : Node) : Bool := a.rank n ≤ 3

def chainEdges (last : Node) (earlier : List Node) : List Node → List (Nat × Nat)
  | [] => []
  | cur::rest =>
    ((((last::earlier).find? fun n => a.rank n < a.rank cur).getD last).id,cur.id)::
      chainEdges cur (last::earlier) rest

end Arguments

def followEdges (last : Node) : List Node → List (Nat × Nat)
  | [] => []
  | cur::rest => (last.id,cur.id)::followEdges cur rest

def endpointEdges (anchors : List Node) (last : Node) (endpoints : List Node) : List (Nat × Nat) :=
  endpoints.zipIdx.map fun ep => ((anchors[ep.2 % anchors.length]?.getD last).id,ep.1.id)

namespace Arguments
variable (a : Arguments)

def groupEdges (subnetNodes : List Node) : List (Nat × Nat) :=
  let sorted := a.sortedNodes subnetNodes
  let endpoints := sorted.filter fun n => !a.isChain n
  match sorted.filter a.isChain with
  | first::rest =>
    let last := (first::rest).getLast (cons_ne_nil _ _)
    let switches := (first::rest).filter fun n => a.effectiveRole n = "switch"
    let anchors := if switches = [] then [last] else switches
    a.chainEdges first [] rest++endpointEdges anchors last endpoints
  | [] =>
    match sorted.filter fun n => 0 < a.score n with
    | first::rest =>
      let anchor := (first::rest).getLast (cons_ne_nil _ _)
      followEdges first rest++
        (sorted.filter fun n => a.score n = 0).map fun ep => (anchor.id,ep.id)
    | [] =>
      match sorted with
      | hub::rest => rest.map fun ep => (hub.id,ep.id)
      | [] => []

end Arguments

def Node.group (n : Node) : String :=
  match n.ipAddress with
  | none => (orText n.subnet).getD noIp
  | some ip => subnetKey (some ip)

def subnets (nodes : List Node) : Dict String (List Node) :=
  Dict.gather (nodes.map fun n => (n.group,n))

def inferConnections (a : Arguments) (nodes : List Node) : List (Nat × Nat) :=
  (subnets nodes).items.flatMap fun g => a.groupEdges g.2

/-! The tree of one subnet. -/

section
variable {a : Arguments}

instance : Std.Total a.keyLe := ⟨fun m n => by
  unfold Arguments.keyLe
  omega⟩

instance : IsTrans Node a.keyLe := ⟨fun l m n hlm hmn => by
  unfold Arguments.keyLe at *
  omega⟩

theorem sorted_perm (nodes : List Node) : (a.sortedNodes nodes).Perm nodes :=
  perm_insertionSort a.keyLe nodes

theorem sorted_pairwise (nodes : List Node) : (a.sortedNodes nodes).Pairwise a.keyLe :=
  pairwise_insertionSort a.keyLe nodes

def ids (nodes : List Node) : List Nat := nodes.map (·.id)

theorem map_snd_endpointEdges (anchors : List Node) (last : Node) (endpoints : List Node) :
    (endpointEdges anchors last endpoints).map Prod.snd = ids endpoints := by
  rw [endpointEdges,map_map]
  have same : (Prod.snd ∘ fun ep : Node × Nat =>
      ((anchors[ep.2 % anchors.length]?.getD last).id,ep.1.id)) = (·.id) ∘ Prod.fst := rfl
  rw [same,←map_map,zipIdx_map_fst]
  rfl

theorem chain_parent (last : Node) (earlier : List Node) (cur : Node) :
    ((last::earlier).find? fun n => a.rank n < a.rank cur).getD last ∈ last::earlier := by
  cases h : (last::earlier).find? fun n => a.rank n < a.rank cur with
  | none => exact mem_cons_self
  | some n => exact mem_of_find?_eq_some h

variable {rest : List Node}

theorem grown_chain {root : Nat} {last : Node} {earlier : List Node}
    {nodes : List Nat} {edges : List (Nat × Nat)} (h : Grown root nodes edges)
    (before : ∀ n ∈ last::earlier, n.id ∈ nodes) (nodup : (nodes++ids rest).Nodup) :
    Grown root (nodes++ids rest) (edges++a.chainEdges last earlier rest) := by
  induction rest generalizing last earlier nodes edges with
  | nil => simpa [ids,Arguments.chainEdges] using h
  | cons cur rest ih =>
    have fresh : cur.id ∉ nodes := fun hin =>
      (nodup_append.1 nodup).2.2 _ hin _ mem_cons_self rfl
    have grown := h.child (before _ (chain_parent (a := a) last earlier cur)) fresh
    have more := @ih cur (last::earlier) _ _ grown (fun n hn => by
      rcases mem_cons.1 hn with rfl | hn
      · exact mem_append_right _ mem_cons_self
      · exact mem_append_left _ (before n hn)) (by simpa [ids] using nodup)
    simpa [ids,Arguments.chainEdges] using more

theorem grown_follow {root : Nat} {last : Node} {nodes : List Nat}
    {edges : List (Nat × Nat)} (h : Grown root nodes edges) (before : last.id ∈ nodes)
    (nodup : (nodes++ids rest).Nodup) :
    Grown root (nodes++ids rest) (edges++followEdges last rest) := by
  induction rest generalizing last nodes edges with
  | nil => simpa [ids,followEdges] using h
  | cons cur rest ih =>
    have fresh : cur.id ∉ nodes := fun hin =>
      (nodup_append.1 nodup).2.2 _ hin _ mem_cons_self rfl
    have more := @ih cur _ _ (h.child before fresh) (mem_append_right _ mem_cons_self)
      (by simpa [ids] using nodup)
    simpa [ids,followEdges] using more

def Arguments.byScore (a : Arguments) (nodes : List Node) : Bool :=
  (nodes.all fun n => !a.isChain n) && nodes.any fun n => 0 < a.score n

/-- The root that the code chooses: the first in the order of the nodes, or of those that have a
score. -/
structure Chosen (a : Arguments) (nodes : List Node) (root : Node) : Prop where
  scored : a.byScore nodes = true →
    0 < a.score root ∧ ∀ n ∈ nodes, 0 < a.score n → a.keyLe root n
  first : a.byScore nodes = false → ∀ n ∈ nodes, a.keyLe root n

theorem tree_of_parts {nodes : List Node} (nodup : (ids nodes).Nodup) {root : Node}
    {rest others : List Node} (parts : (root::rest++others).Perm nodes)
    {chain leaves : List (Nat × Nat)} (leaf_ids : leaves.map Prod.snd = ids others)
    (grown : (ids (root::rest)).Nodup → Grown root.id (ids (root::rest)) chain)
    (anchored : ∀ e ∈ leaves, e.1 ∈ ids (root::rest)) :
    RootedTree (ids nodes) (chain++leaves) root.id := by
  have perm : (ids (root::rest)++ids others).Perm (ids nodes) := by
    have := parts.map (·.id)
    rwa [map_append] at this
  have distinct := perm.symm.nodup nodup
  have whole := (grown (nodup_append.1 distinct).1).leaves anchored (by rwa [leaf_ids])
  rw [leaf_ids] at whole
  exact whole.tree.perm perm

theorem keyLe_refl (n : Node) : a.keyLe n n := .inr ⟨rfl,le_rfl⟩

variable {nodes : List Node}

theorem head_le {first : Node} (sorted : a.sortedNodes nodes = first::rest) :
    ∀ n ∈ nodes, a.keyLe first n := by
  intro n hn
  have pairwise := sorted_pairwise (a := a) nodes
  have there := (sorted_perm (a := a) nodes).symm.subset hn
  rw [sorted] at pairwise there
  rcases mem_cons.1 there with rfl | hin
  · exact keyLe_refl n
  · exact (pairwise_cons.1 pairwise).1 n hin

theorem filter_head_le {first : Node} {p : Node → Bool}
    (sorted : (a.sortedNodes nodes).filter p = first::rest) :
    p first = true ∧ ∀ n ∈ nodes, p n = true → a.keyLe first n := by
  have pairwise := (sorted_pairwise (a := a) nodes).filter p
  have there : ∀ n, n ∈ (a.sortedNodes nodes).filter p ↔ n ∈ a.sortedNodes nodes ∧ p n = true :=
    fun n => mem_filter
  rw [sorted] at pairwise there
  refine ⟨((there first).1 mem_cons_self).2,fun n hn hp => ?_⟩
  have hin := (there n).2 ⟨(sorted_perm (a := a) nodes).symm.subset hn,hp⟩
  rcases mem_cons.1 hin with rfl | hin
  · exact keyLe_refl n
  · exact (pairwise_cons.1 pairwise).1 n hin

theorem parts_perm {nodes : List Node} (p : Node → Bool) :
    ((a.sortedNodes nodes).filter p++(a.sortedNodes nodes).filter fun n => !p n).Perm nodes :=
  (filter_append_perm p _).trans (sorted_perm nodes)

theorem anchored {first : Node} {n : Node} (h : n ∈ first::rest) :
    n.id ∈ ids (first::rest) := mem_map.2 ⟨n,h,rfl⟩

theorem group_tree (some_ : nodes ≠ []) (nodup : (ids nodes).Nodup) :
    ∃ root ∈ nodes, RootedTree (ids nodes) (a.groupEdges nodes) root.id ∧ Chosen a nodes root := by
  cases chain : (a.sortedNodes nodes).filter a.isChain with
  | cons first rest =>
    have parts := @parts_perm a nodes a.isChain
    rw [chain] at parts
    have facts := filter_head_le chain
    have mem : first ∈ nodes := parts.subset (mem_append_left _ mem_cons_self)
    refine ⟨first,mem,?_,⟨fun scored => ?_,fun _ n hn => ?_⟩⟩
    · rw [Arguments.groupEdges,chain]
      refine tree_of_parts nodup parts (map_snd_endpointEdges _ _ _)
        (fun distinct => grown_chain .root (fun n hn => ?_) distinct) fun e he => ?_
      · rw [mem_singleton.1 hn]
        exact mem_cons_self
      · obtain ⟨ep,-,rfl⟩ := mem_map.1 he
        refine anchored ?_
        have last := getLast_mem (cons_ne_nil first rest)
        generalize hs : ((first::rest).filter fun n => a.effectiveRole n = "switch") = switches
        split
        case isTrue none =>
          cases hg : [(first::rest).getLast (cons_ne_nil _ _)][ep.2 % 1]? with
          | none => simp
          | some n =>
            have here := mem_of_getElem? hg
            rw [mem_singleton.1 here] at hg ⊢
            simp
        case isFalse none =>
          cases hg : switches[ep.2 % switches.length]? with
          | none => exact last
          | some n =>
            have here := mem_of_getElem? hg
            rw [←hs] at here
            exact mem_of_mem_filter here
    · rw [Arguments.byScore,Bool.and_eq_true] at scored
      have chainless := all_eq_true.1 scored.1 first mem
      rw [facts.1] at chainless
      cases chainless
    · by_cases hc : a.isChain n = true
      · exact facts.2 n hn hc
      · have low : a.rank first ≤ 3 := of_decide_eq_true facts.1
        have high : ¬a.rank n ≤ 3 := fun h => hc (decide_eq_true h)
        exact .inl (by omega)
  | nil =>
    have chainless : ∀ n ∈ nodes, a.isChain n = false := fun n hn =>
      Bool.eq_false_iff.2 (filter_eq_nil_iff.1 chain n ((sorted_perm nodes).symm.subset hn))
    cases scored : (a.sortedNodes nodes).filter fun n => 0 < a.score n with
    | cons first rest =>
      have parts := @parts_perm a nodes fun n => 0 < a.score n
      rw [scored] at parts
      have facts := filter_head_le scored
      have mem : first ∈ nodes := parts.subset (mem_append_left _ mem_cons_self)
      refine ⟨first,mem,?_,⟨fun _ => ⟨of_decide_eq_true facts.1,fun n hn hs =>
        facts.2 n hn (decide_eq_true hs)⟩,fun none => ?_⟩⟩
      · rw [Arguments.groupEdges,chain,scored]
        have zero : ((a.sortedNodes nodes).filter fun n => !decide (0 < a.score n)) =
            (a.sortedNodes nodes).filter fun n => a.score n = 0 := by
          refine filter_congr fun n _ => ?_
          by_cases h : a.score n = 0
          · simp [h]
          · simp [h,Nat.pos_of_ne_zero h]
        rw [zero] at parts
        refine tree_of_parts nodup parts (by rw [map_map]; rfl)
          (fun distinct => grown_follow .root mem_cons_self distinct) fun e he => ?_
        obtain ⟨ep,-,rfl⟩ := mem_map.1 he
        exact anchored (getLast_mem (cons_ne_nil first rest))
      · have yes : a.byScore nodes = true := by
          rw [Arguments.byScore,Bool.and_eq_true,all_eq_true,any_eq_true]
          exact ⟨fun n hn => by rw [chainless n hn]; rfl,first,mem,facts.1⟩
        rw [yes] at none
        cases none
    | nil =>
      have scoreless : a.byScore nodes = false := by
        refine Bool.eq_false_iff.2 fun yes => ?_
        rw [Arguments.byScore,Bool.and_eq_true,any_eq_true] at yes
        obtain ⟨-,n,hn,hs⟩ := yes
        exact filter_eq_nil_iff.1 scored n ((sorted_perm nodes).symm.subset hn) hs
      cases sorted : a.sortedNodes nodes with have perm := sorted_perm (a := a) nodes
      | nil =>
        rw [sorted] at perm
        exact absurd perm.symm.eq_nil some_
      | cons hub rest =>
        rw [sorted] at perm
        refine ⟨hub,perm.subset mem_cons_self,?_,⟨fun yes => ?_,fun _ => head_le sorted⟩⟩
        · have edges : a.groupEdges nodes = []++rest.map fun ep => (hub.id,ep.id) := by
            rw [Arguments.groupEdges,chain,scored,sorted]
            rfl
          rw [edges]
          refine @tree_of_parts nodes nodup hub [] rest perm [] _ ?_ (fun _ => .root) fun e he => ?_
          · rw [map_map]
            rfl
          · obtain ⟨ep,-,rfl⟩ := mem_map.1 he
            exact mem_cons_self
        · rw [scoreless] at yes
          cases yes

/-! What the edges of all subnets are together. -/

theorem same_node (nodup : (ids nodes).Nodup) {u v : Node} (hu : u ∈ nodes)
    (hv : v ∈ nodes) (h : u.id = v.id) : u = v :=
  inj_on_of_nodup_map nodup hu hv h

theorem chain_rising {last : Node} {earlier : List Node}
    (before : ∀ p ∈ last::earlier, ∀ c ∈ rest, a.rank p ≤ a.rank c)
    (sorted : rest.Pairwise fun p c => a.rank p ≤ a.rank c) :
    ∀ e ∈ a.chainEdges last earlier rest, ∃ p c, e = (p.id,c.id) ∧
      (p ∈ last::earlier ∨ p ∈ rest) ∧ c ∈ rest ∧ a.rank p ≤ a.rank c := by
  induction rest generalizing last earlier with
  | nil => exact fun e he => absurd he not_mem_nil
  | cons cur rest ih =>
    intro e he
    obtain ⟨first,later⟩ := pairwise_cons.1 sorted
    rcases mem_cons.1 he with rfl | he
    · have parent := chain_parent (a := a) last earlier cur
      exact ⟨_,cur,rfl,.inl parent,mem_cons_self,before _ parent cur mem_cons_self⟩
    · have wider : ∀ p ∈ cur::last::earlier, ∀ c ∈ rest, a.rank p ≤ a.rank c := by
        intro p hp c hc
        rcases mem_cons.1 hp with rfl | hp
        · exact first c hc
        · exact before p hp c (mem_cons_of_mem _ hc)
      obtain ⟨p,c,rfl,hp,hc,le⟩ := ih wider later e he
      refine ⟨p,c,rfl,?_,mem_cons_of_mem _ hc,le⟩
      rcases hp with hp | hp
      · rcases mem_cons.1 hp with rfl | hp
        · exact .inr mem_cons_self
        · exact .inl hp
      · exact .inr (mem_cons_of_mem _ hp)

theorem group_rising (nodup : (ids nodes).Nodup) {u v : Node} (hu : u ∈ nodes)
    (hv : v ∈ nodes) (chain_u : a.isChain u = true) (chain_v : a.isChain v = true)
    (edge : (u.id,v.id) ∈ a.groupEdges nodes) : a.rank u ≤ a.rank v := by
  cases chain : (a.sortedNodes nodes).filter a.isChain with
  | nil =>
    have none := filter_eq_nil_iff.1 chain u ((sorted_perm nodes).symm.subset hu)
    exact absurd chain_u none
  | cons first rest =>
    have inside : ∀ n ∈ first::rest, n ∈ nodes := fun n hn => by
      rw [←chain] at hn
      exact (sorted_perm nodes).subset (mem_of_mem_filter hn)
    rw [Arguments.groupEdges,chain] at edge
    rcases mem_append.1 edge with edge | edge
    · have pairwise := (sorted_pairwise (a := a) nodes).filter a.isChain
      rw [chain] at pairwise
      have rising : (first::rest).Pairwise fun p c => a.rank p ≤ a.rank c :=
        pairwise.imp fun h => by
          rcases h with h | h
          · exact Int.le_of_lt h
          · exact Int.le_of_eq h.1
      obtain ⟨least,later⟩ := pairwise_cons.1 rising
      obtain ⟨p,c,same,hp,hc,le⟩ := chain_rising
        (fun p hp c hc => mem_singleton.1 hp ▸ least c hc) later _ edge
      obtain ⟨hup,hvc⟩ := Prod.mk.inj same
      have there : p ∈ first::rest := by
        rcases hp with hp | hp
        · rw [mem_singleton.1 hp]
          exact mem_cons_self
        · exact mem_cons_of_mem _ hp
      rw [same_node nodup hu (inside p there) hup,
        same_node nodup hv (inside c (mem_cons_of_mem _ hc)) hvc]
      exact le
    · have child : v.id ∈ ids ((a.sortedNodes nodes).filter fun n => !a.isChain n) := by
        have := mem_map_of_mem (f := Prod.snd) edge
        rwa [map_snd_endpointEdges] at this
      obtain ⟨ep,hep,same⟩ := mem_map.1 child
      obtain ⟨mem,endpoint⟩ := mem_filter.1 hep
      rw [same_node nodup ((sorted_perm nodes).subset mem) hv same,chain_v] at endpoint
      cases endpoint

def inGroup (nodes : List Node) (g : String) : List Node := nodes.filter (·.group = g)

theorem mem_subnets {nodes : List Node} {g : String} {l : List Node} :
    (g,l) ∈ (subnets nodes).items ↔ l = inGroup nodes g ∧ l ≠ [] := by
  have values : (((nodes.map fun n => (n.group,n)).filter (·.1 = g)).map Prod.snd) =
      inGroup nodes g := by
    rw [filter_map,map_map,inGroup]
    exact map_id _
  rw [subnets,Dict.mem_gather,values]

def Arguments.Fits (a : Arguments) (nodes : List Node) (root : Node) : Prop :=
  if a.byScore nodes then ∀ n ∈ nodes, a.score n ≤ a.score root
  else ∀ n ∈ nodes, a.rank root ≤ a.rank n

/-- The edges stay within the subnets, which they make rooted trees with ranks that do not fall from
one node of the chain to the next. -/
structure Spans (a : Arguments) (nodes : List Node) (edges : List (Nat × Nat)) : Prop where
  together : ∀ e ∈ edges, ∃ u ∈ nodes, ∃ v ∈ nodes, e = (u.id,v.id) ∧ u.group = v.group
  tree : ∀ g, inGroup nodes g ≠ [] → ∃ root ∈ inGroup nodes g,
    RootedTree (ids (inGroup nodes g))
      (edges.filter fun e => e.1 ∈ ids (inGroup nodes g) ∧ e.2 ∈ ids (inGroup nodes g)) root.id ∧
    a.Fits (inGroup nodes g) root
  rising : ∀ u ∈ nodes, ∀ v ∈ nodes, a.isChain u = true → a.isChain v = true →
    (u.id,v.id) ∈ edges → a.rank u ≤ a.rank v

section
variable {nodes : List Node}

theorem group_nodup (nodup : (ids nodes).Nodup) (g : String) : (ids (inGroup nodes g)).Nodup :=
  nodup.sublist (filter_sublist.map _)

theorem group_inside (nodup : (ids nodes).Nodup) {g : String} {e : Nat × Nat}
    (he : e ∈ a.groupEdges (inGroup nodes g)) :
    e.1 ∈ ids (inGroup nodes g) ∧ e.2 ∈ ids (inGroup nodes g) := by
  by_cases none : inGroup nodes g = []
  · rw [none] at he
    cases he
  · obtain ⟨root,-,tree,-⟩ := group_tree (a := a) none (group_nodup nodup g)
    exact tree.inside e he

theorem mem_inferConnections {e : Nat × Nat} :
    e ∈ inferConnections a nodes ↔ ∃ g, e ∈ a.groupEdges (inGroup nodes g) := by
  simp only [inferConnections,mem_flatMap,Prod.exists]
  constructor
  · intro there
    obtain ⟨g,l,hl,he⟩ := there
    rw [(mem_subnets.1 hl).1] at he
    exact ⟨g,he⟩
  · intro there
    obtain ⟨g,he⟩ := there
    refine ⟨g,inGroup nodes g,mem_subnets.2 ⟨rfl,fun none => ?_⟩,he⟩
    rw [none] at he
    cases he

theorem group_of_id (nodup : (ids nodes).Nodup) {g g' : String} {i : Nat}
    (h : i ∈ ids (inGroup nodes g)) (h' : i ∈ ids (inGroup nodes g')) : g = g' := by
  obtain ⟨u,hu,rfl⟩ := mem_map.1 h
  obtain ⟨v,hv,same⟩ := mem_map.1 h'
  obtain ⟨mem,gu⟩ := mem_filter.1 hu
  obtain ⟨mem',gv⟩ := mem_filter.1 hv
  rw [same_node nodup mem' mem same] at gv
  exact (of_decide_eq_true gu).symm.trans (of_decide_eq_true gv)

theorem edges_within (nodup : (ids nodes).Nodup) {g : String} (some_ : inGroup nodes g ≠ []) :
    ((inferConnections a nodes).filter fun e =>
      e.1 ∈ ids (inGroup nodes g) ∧ e.2 ∈ ids (inGroup nodes g)) =
      a.groupEdges (inGroup nodes g) := by
  have mine := mem_subnets.2 ⟨rfl,some_⟩
  obtain ⟨before,after,parts⟩ := append_of_mem mine
  have keys := (subnets nodes).nodup
  rw [parts,map_append,map_cons] at keys
  have others : ∀ p ∈ before++after, p.1 ≠ g := by
    have apart := (nodup_cons.1 (perm_middle.nodup_iff.1 keys)).1
    intro p hp same
    rw [←map_append] at apart
    exact apart (mem_map.2 ⟨p,hp,same⟩)
  have none : ∀ part : List (String × List Node), (∀ p ∈ part, p ∈ before++after) →
      (part.flatMap fun p => a.groupEdges p.2).filter (fun e =>
        e.1 ∈ ids (inGroup nodes g) ∧ e.2 ∈ ids (inGroup nodes g)) = [] := by
    intro part sub
    refine filter_eq_nil_iff.2 fun e he within => ?_
    obtain ⟨p,hp,hep⟩ := mem_flatMap.1 he
    have item : (p.1,p.2) ∈ (subnets nodes).items := by
      rw [parts]
      rcases mem_append.1 (sub p hp) with hp | hp
      · exact mem_append_left _ hp
      · exact mem_append_right _ (mem_cons_of_mem _ hp)
    rw [(mem_subnets.1 item).1] at hep
    have here := (of_decide_eq_true within).1
    exact others p (sub p hp) (group_of_id nodup (group_inside nodup hep).1 here)
  have all : (a.groupEdges (inGroup nodes g)).filter (fun e =>
      e.1 ∈ ids (inGroup nodes g) ∧ e.2 ∈ ids (inGroup nodes g)) =
      a.groupEdges (inGroup nodes g) :=
    filter_eq_self.2 fun e he => decide_eq_true (group_inside nodup he)
  rw [inferConnections,parts,flatMap_append,flatMap_cons,filter_append,
    filter_append,none before fun p hp => mem_append_left _ hp,
    none after fun p hp => mem_append_right _ hp,all,nil_append,append_nil]

/-- The edges are as they should be just when, in each subnet that is ordered by scores, some node of
maximal score has no greater rank than another that has a score. -/
theorem infer_spans_iff (nodup : (ids nodes).Nodup) :
    Spans a nodes (inferConnections a nodes) ↔
      ∀ g, a.byScore (inGroup nodes g) = true → ∃ n ∈ inGroup nodes g,
        (∀ m ∈ inGroup nodes g, a.score m ≤ a.score n) ∧
        ∀ m ∈ inGroup nodes g, 0 < a.score m → a.rank n ≤ a.rank m := by
  constructor
  · intro h g scored
    have some_ : inGroup nodes g ≠ [] := fun none => by
      rw [none] at scored
      cases scored
    obtain ⟨root,hroot,tree,fits⟩ := h.tree g some_
    obtain ⟨chosen,hchosen,tree',choice⟩ := group_tree (a := a) some_ (group_nodup nodup g)
    rw [edges_within nodup some_] at tree
    have same := same_node (group_nodup nodup g) hroot hchosen (tree'.root_unique tree)
    rw [Arguments.Fits,if_pos scored,same] at fits
    refine ⟨chosen,hchosen,fits,fun m hm positive => ?_⟩
    rcases (choice.scored scored).2 m hm positive with less | equal
    · exact Int.le_of_lt less
    · exact Int.le_of_eq equal.1
  · intro h
    refine ⟨fun e he => ?_,fun g some_ => ?_,fun u hu v hv chain_u chain_v edge => ?_⟩
    · obtain ⟨g,he⟩ := mem_inferConnections.1 he
      obtain ⟨source,target⟩ := group_inside nodup he
      obtain ⟨u,hu,eu⟩ := mem_map.1 source
      obtain ⟨v,hv,ev⟩ := mem_map.1 target
      obtain ⟨hu,gu⟩ := mem_filter.1 hu
      obtain ⟨hv,gv⟩ := mem_filter.1 hv
      exact ⟨u,hu,v,hv,Prod.ext eu.symm ev.symm,
        (of_decide_eq_true gu).trans (of_decide_eq_true gv).symm⟩
    · obtain ⟨root,hroot,tree,choice⟩ := group_tree (a := a) some_ (group_nodup nodup g)
      refine ⟨root,hroot,by rwa [edges_within nodup some_],?_⟩
      rw [Arguments.Fits]
      split
      case isTrue scored =>
        obtain ⟨n,hn,highest,least⟩ := h g scored
        obtain ⟨positive,first⟩ := choice.scored scored
        have top := highest root hroot
        have below := least root hroot positive
        have lead := first n hn (lt_of_lt_of_le positive top)
        intro m hm
        have upper := highest m hm
        rcases lead with less | equal
        · omega
        · omega
      case isFalse scored =>
        intro n hn
        rcases choice.first (Bool.eq_false_iff.2 scored) n hn with less | equal
        · exact Int.le_of_lt less
        · exact Int.le_of_eq equal.1
    · obtain ⟨g,edge⟩ := mem_inferConnections.1 edge
      obtain ⟨source,target⟩ := group_inside nodup edge
      have inside : ∀ n ∈ nodes, n.id ∈ ids (inGroup nodes g) → n ∈ inGroup nodes g := by
        intro n hn hid
        obtain ⟨m,hm,same⟩ := mem_map.1 hid
        exact same_node nodup (mem_of_mem_filter hm) hn same ▸ hm
      exact group_rising (group_nodup nodup g) (inside u hu source) (inside v hv target) chain_u
        chain_v edge

end

end

/-- `int` of the last parts below. -/
def lastPart (text : String) : Option Int :=
  if text = "1" then some 1 else if text = "2" then some 2 else if text = "30" then some 30 else none

def lanServers : List Node :=
  [⟨1,some "10.0.0.1",some "server",none⟩,⟨2,some "10.0.0.30",some "server",none⟩]

theorem servers_span : Spans { int := lastPart } lanServers [(1,2)] := by
  have edges : inferConnections { int := lastPart } lanServers = [(1,2)] := by decide
  rw [←edges]
  refine (infer_spans_iff (by decide)).2 fun g scored => ?_
  by_cases lan : g = "10.0.0"
  · subst lan
    exact ⟨⟨1,some "10.0.0.1",some "server",none⟩,by decide,by decide,
      by decide⟩
  · have first : (⟨1,some "10.0.0.1",some "server",none⟩ : Node).group = "10.0.0" := by decide
    have second : (⟨2,some "10.0.0.30",some "server",none⟩ : Node).group = "10.0.0" := by
      decide
    have none : inGroup lanServers g = [] := by
      simp [inGroup,lanServers,first,second,Ne.symm lan]
    rw [none] at scored
    cases scored

def lanPoint : List Node :=
  [⟨1,some "10.0.0.2",some "access_point",none⟩,⟨2,some "10.0.0.1",some "server",none⟩]

/-- An access point at .2 is put above the server at .1, which has the greater score. -/
theorem point_above_gateway :
    ¬Spans { int := lastPart } lanPoint (inferConnections { int := lastPart } lanPoint) := by
  intro h
  obtain ⟨root,hroot,tree,fits⟩ := h.tree "10.0.0" (by decide)
  have edge : (1,2) ∈ (inferConnections { int := lastPart } lanPoint).filter fun e =>
      e.1 ∈ ids (inGroup lanPoint "10.0.0") ∧ e.2 ∈ ids (inGroup lanPoint "10.0.0") := by
    decide
  have other : 2 ≠ root.id := tree.no_parent _ edge
  have group : inGroup lanPoint "10.0.0" = lanPoint := by rfl
  rw [group] at hroot fits
  rw [Arguments.Fits,if_pos (by decide)] at fits
  have least := fits ⟨2,some "10.0.0.1",some "server",none⟩ (by simp [lanPoint])
  rcases mem_cons.1 hroot with rfl | hroot
  · exact absurd least (by decide)
  · rw [mem_singleton.1 hroot] at other
    exact other rfl

end CircuitBreaker.TopologyInference
