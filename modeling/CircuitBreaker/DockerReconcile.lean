import CircuitBreaker.PyDict
import Mathlib.Data.List.Perm.Subperm

/-! Planning a Docker reconciliation (services/docker_reconcile.py): each observed container is matched
with an existing row by its native id, or else by its workload key. -/

namespace CircuitBreaker.DockerReconcile
open List

structure ExistingContainer where
  id : Nat
  nativeId : String
  workloadKey : Option String
  status : Option String := none

structure ExistingNetwork where
  id : Nat
  nativeId : String

structure ContainerObservation where
  nativeId : String
  name : String := ""
  workloadKey : Option String
  status : String := "running"
  deriving DecidableEq

structure NetworkObservation where
  nativeId : String
  name : String := ""

structure Enumeration where
  containers : List ContainerObservation
  containersComplete : Bool := true
  networks : List NetworkObservation := []

structure Plan where
  createContainers : List ContainerObservation := []
  updateContainers : List (Nat × ContainerObservation) := []
  stopContainerIds : List Nat := []
  createNetworks : List NetworkObservation := []
  updateNetworks : List (Nat × NetworkObservation) := []
  conflicts : List String := []

def keyOf (key : Option String) : Option String := key.filter (· ≠ "")

def byNative (existing : List ExistingContainer) : Dict String ExistingContainer :=
  Dict.ofPairs (existing.map fun item => (item.nativeId,item))

def byWorkload (existing : List ExistingContainer) : Dict String (List ExistingContainer) :=
  Dict.gather (existing.filterMap fun item => (keyOf item.workloadKey).map fun key => (key,item))

section
variable (existing : List ExistingContainer)

def exact (observed : ContainerObservation) : Option ExistingContainer :=
  (byNative existing).get observed.nativeId

def candidates (observed : ContainerObservation) : List ExistingContainer :=
  match keyOf observed.workloadKey with
  | some key => ((byWorkload existing).get key).getD []
  | none => []

def unmatched (matched : List Nat) (observed : ContainerObservation) : List ExistingContainer :=
  (candidates existing observed).filter (·.id ∉ matched)

end

inductive Placement where
  | update (id : Nat)
  | create
  | conflict
  deriving DecidableEq

section
variable (existing : List ExistingContainer)

def placement (matched : List Nat) (observed : ContainerObservation) : Placement :=
  match exact existing observed with
  | some item => .update item.id
  | none =>
    match unmatched existing matched observed with
    | [] => .create
    | [candidate] => .update candidate.id
    | _ => .conflict

def marks (matched : List Nat) (observed : ContainerObservation) : List Nat :=
  match exact existing observed with
  | some item => [item.id]
  | none => (unmatched existing matched observed).map (·.id)

end

def conflictText (observed : ContainerObservation) : String :=
  "ambiguous_workload:"++observed.workloadKey.getD "None"

def Plan.place (plan : Plan) (observed : ContainerObservation) : Placement → Plan
  | .update id => { plan with updateContainers := plan.updateContainers++[(id,observed)] }
  | .create => { plan with createContainers := plan.createContainers++[observed] }
  | .conflict => { plan with conflicts := plan.conflicts++[conflictText observed] }

def placeAll (existing : List ExistingContainer) (plan : Plan) (matched : List Nat) :
    List ContainerObservation → Plan × List Nat
  | [] => (plan,matched)
  | observed::rest =>
    placeAll existing (plan.place observed (placement existing matched observed))
      (matched++marks existing matched observed) rest

def Plan.placeNetwork (existing : Dict String ExistingNetwork) (plan : Plan)
    (observed : NetworkObservation) : Plan :=
  match existing.get observed.nativeId with
  | none => { plan with createNetworks := plan.createNetworks++[observed] }
  | some network => { plan with updateNetworks := plan.updateNetworks++[(network.id,observed)] }

def planReconciliation (existing : List ExistingContainer) (existingNetworks : List ExistingNetwork)
    (enumeration : Enumeration) : Plan :=
  let placed := placeAll existing {} [] enumeration.containers
  let stopped := if enumeration.containersComplete then
      (existing.filter fun item => item.id ∉ placed.2 && item.status ≠ some "stopped").map (·.id)
    else []
  enumeration.networks.foldl
    (Plan.placeNetwork (Dict.ofPairs (existingNetworks.map fun item => (item.nativeId,item))))
    { placed.1 with stopContainerIds := stopped }

/-! The placements one after another. -/

section
variable {existing : List ExistingContainer}

variable {observed : ContainerObservation}

theorem exact_of_some {item : ExistingContainer}
    (h : exact existing observed = some item) :
    item ∈ existing ∧ item.nativeId = observed.nativeId := by
  rw [exact,byNative,Dict.get_ofPairs,Option.map_eq_some_iff] at h
  obtain ⟨p,last,rfl⟩ := h
  obtain ⟨there,native⟩ := mem_filter.1 (mem_of_getLast? last)
  obtain ⟨r,hr,rfl⟩ := mem_map.1 there
  exact ⟨hr,of_decide_eq_true native⟩

theorem exact_of_none (h : exact existing observed = none) :
    ∀ item ∈ existing, item.nativeId ≠ observed.nativeId := by
  intro item hitem native
  rw [exact,byNative,Dict.get_ofPairs,Option.map_eq_none_iff,getLast?_eq_none_iff] at h
  refine filter_eq_nil_iff.1 h (item.nativeId,item) ?_ (decide_eq_true native)
  exact mem_map.2 ⟨item,hitem,rfl⟩

theorem exact_some (natives : (existing.map (·.nativeId)).Nodup)
    {item : ExistingContainer} (hitem : item ∈ existing) (native : item.nativeId = observed.nativeId) :
    exact existing observed = some item := by
  cases h : exact existing observed with
  | none => exact absurd native (exact_of_none h item hitem)
  | some other =>
    obtain ⟨hother,same⟩ := exact_of_some h
    rw [inj_on_of_nodup_map natives hother hitem (same.trans native.symm)]

theorem candidates_filter (observed : ContainerObservation) : candidates existing observed =
    existing.filter fun item => (keyOf observed.workloadKey).isSome &&
      keyOf item.workloadKey = keyOf observed.workloadKey := by
  rw [candidates]
  cases hk : keyOf observed.workloadKey with
  | none => simp
  | some key =>
    have values : (((existing.filterMap fun item => (keyOf item.workloadKey).map fun key =>
        (key,item)).filter (·.1 = key)).map Prod.snd) =
        existing.filter fun item => keyOf item.workloadKey = some key := by
      induction existing with
      | nil => rfl
      | cons r rest ih =>
        cases hr : keyOf r.workloadKey with
        | none => simp [hr,ih]
        | some k =>
          by_cases same : k = key
          · simp [hr,same,ih]
          · simp [hr,same,ih]
    have got : ((byWorkload existing).get key).getD [] =
        existing.filter fun item => keyOf item.workloadKey = some key := by
      rw [byWorkload,Dict.get_gather,values]
      split
      · rename_i none
        rw [←values,none]
        rfl
      · rfl
    show ((byWorkload existing).get key).getD [] = _
    rw [got]
    simp

theorem mem_candidates {item : ExistingContainer} :
    item ∈ candidates existing observed ↔ item ∈ existing ∧
      ∃ key, keyOf observed.workloadKey = some key ∧ keyOf item.workloadKey = some key := by
  rw [candidates_filter,mem_filter,Bool.and_eq_true,decide_eq_true_eq,Option.isSome_iff_exists]
  constructor
  · intro there
    obtain ⟨hitem,⟨key,hk⟩,same⟩ := there
    exact ⟨hitem,key,hk,same.trans hk⟩
  · intro there
    obtain ⟨hitem,key,hk,hi⟩ := there
    exact ⟨hitem,⟨key,hk⟩,hi.trans hk.symm⟩

end

def trace (existing : List ExistingContainer) (matched : List Nat) :
    List ContainerObservation → List (ContainerObservation × Placement)
  | [] => []
  | observed::rest => (observed,placement existing matched observed)::
      trace existing (matched++marks existing matched observed) rest

def matchedAfter (existing : List ExistingContainer) (matched : List Nat) :
    List ContainerObservation → List Nat
  | [] => matched
  | observed::rest => matchedAfter existing (matched++marks existing matched observed) rest

def Placement.updates (observed : ContainerObservation) :
    Placement → Option (Nat × ContainerObservation)
  | .update id => some (id,observed)
  | _ => none

section
variable {existing : List ExistingContainer}

theorem placeAll_trace (l : List ContainerObservation) (plan : Plan) (matched : List Nat) :
    placeAll existing plan matched l =
      ({ plan with
          createContainers := plan.createContainers++
            ((trace existing matched l).filter (·.2 = .create)).map Prod.fst
          updateContainers := plan.updateContainers++
            (trace existing matched l).filterMap fun p => p.2.updates p.1
          conflicts := plan.conflicts++
            ((trace existing matched l).filter (·.2 = .conflict)).map (conflictText ∘ Prod.fst) },
        matchedAfter existing matched l) := by
  induction l generalizing plan matched with
  | nil => simp [placeAll,trace,matchedAfter]
  | cons observed rest ih =>
    rw [placeAll,ih,trace,matchedAfter]
    cases placement existing matched observed <;> simp [Plan.place,Placement.updates]

theorem foldl_networks (dict : Dict String ExistingNetwork) (l : List NetworkObservation) (plan : Plan) :
    (l.foldl (Plan.placeNetwork dict) plan).createContainers = plan.createContainers ∧
    (l.foldl (Plan.placeNetwork dict) plan).updateContainers = plan.updateContainers ∧
    (l.foldl (Plan.placeNetwork dict) plan).stopContainerIds = plan.stopContainerIds ∧
    (l.foldl (Plan.placeNetwork dict) plan).conflicts = plan.conflicts := by
  induction l generalizing plan with
  | nil => exact ⟨rfl,rfl,rfl,rfl⟩
  | cons observed rest ih =>
    rw [foldl_cons]
    obtain ⟨creates,updates,stops,conflicts⟩ := ih (plan.placeNetwork dict observed)
    rw [creates,updates,stops,conflicts,Plan.placeNetwork]
    split <;> exact ⟨rfl,rfl,rfl,rfl⟩

structure PlanParts (existing : List ExistingContainer) (enumeration : Enumeration) (plan : Plan) :
    Prop where
  creates : plan.createContainers =
    ((trace existing [] enumeration.containers).filter (·.2 = .create)).map Prod.fst
  updates : plan.updateContainers =
    (trace existing [] enumeration.containers).filterMap fun p => p.2.updates p.1
  conflicts : plan.conflicts =
    ((trace existing [] enumeration.containers).filter (·.2 = .conflict)).map (conflictText ∘ Prod.fst)
  stops : plan.stopContainerIds = if enumeration.containersComplete then
      (existing.filter fun item => item.id ∉ matchedAfter existing [] enumeration.containers &&
        item.status ≠ some "stopped").map (·.id)
    else []

theorem plan_parts (networks : List ExistingNetwork) (enumeration : Enumeration) :
    PlanParts existing enumeration (planReconciliation existing networks enumeration) := by
  have placed := @placeAll_trace existing enumeration.containers {} []
  rw [planReconciliation,placed]
  obtain ⟨creates,updates,stops,conflicts⟩ := foldl_networks
    (Dict.ofPairs (networks.map fun item => (item.nativeId,item))) enumeration.networks _
  exact ⟨creates,updates,conflicts,stops⟩

theorem trace_fst (l : List ContainerObservation) (matched : List Nat) :
    (trace existing matched l).map Prod.fst = l := by
  induction l generalizing matched with
  | nil => rfl
  | cons observed rest ih => rw [trace,map_cons,ih]

variable {matched : List Nat}

theorem mem_trace {l : List ContainerObservation} {o : ContainerObservation}
    {p : Placement} : (o,p) ∈ trace existing matched l ↔ ∃ before after, l = before++o::after ∧
      p = placement existing (matchedAfter existing matched before) o := by
  induction l generalizing matched with
  | nil =>
    refine ⟨fun h => absurd h not_mem_nil,fun h => ?_⟩
    obtain ⟨before,after,eq,-⟩ := h
    simp at eq
  | cons observed rest ih =>
    rw [trace,mem_cons,ih]
    constructor
    · intro there
      rcases there with here | later
      · obtain ⟨rfl,rfl⟩ := Prod.mk.inj here
        exact ⟨[],rest,rfl,rfl⟩
      · obtain ⟨before,after,rfl,rfl⟩ := later
        exact ⟨observed::before,after,rfl,rfl⟩
    · intro there
      obtain ⟨before,after,eq,rfl⟩ := there
      cases before with obtain ⟨rfl,rfl⟩ := List.cons.inj eq
      | nil =>
        exact .inl rfl
      | cons first before =>
        exact .inr ⟨before,after,rfl,rfl⟩

/-- The row is the observation's by its native id, or else one that its workload key may mean. -/
def Marked (existing : List ExistingContainer) (observed : ContainerObservation) (i : Nat) : Prop :=
  (∃ item, exact existing observed = some item ∧ item.id = i) ∨
    (exact existing observed = none ∧ ∃ item ∈ candidates existing observed, item.id = i)

theorem mem_unmatched {observed : ContainerObservation}
    {item : ExistingContainer} : item ∈ unmatched existing matched observed ↔
      item ∈ candidates existing observed ∧ item.id ∉ matched := by
  rw [unmatched,mem_filter,decide_eq_true_eq]

theorem mem_marks {observed : ContainerObservation} {i : Nat} :
    (i ∈ matched ∨ i ∈ marks existing matched observed) ↔ i ∈ matched ∨ Marked existing observed i := by
  rw [marks,Marked]
  cases exact existing observed with
  | some item => simp [eq_comm]
  | none =>
    simp only [mem_map,mem_unmatched,reduceCtorEq,false_and,exists_false,true_and,false_or]
    constructor
    · intro there
      rcases there with there | ⟨item,⟨hitem,-⟩,rfl⟩
      · exact .inl there
      · exact .inr ⟨item,hitem,rfl⟩
    · intro there
      rcases there with there | ⟨item,hitem,rfl⟩
      · exact .inl there
      · by_cases before : item.id ∈ matched
        · exact .inl before
        · exact .inr ⟨item,⟨hitem,before⟩,rfl⟩

theorem mem_matchedAfter {l : List ContainerObservation} {i : Nat} :
    i ∈ matchedAfter existing matched l ↔ i ∈ matched ∨ ∃ v ∈ l, Marked existing v i := by
  induction l generalizing matched with
  | nil => simp [matchedAfter]
  | cons observed rest ih =>
    rw [matchedAfter,ih,mem_append,mem_marks,or_assoc]
    simp

end

/-! Where the order does not matter. -/

def Observed (l : List ContainerObservation) (item : ExistingContainer) : Prop :=
  ∃ o ∈ l, o.nativeId = item.nativeId

instance (l : List ContainerObservation) (item : ExistingContainer) : Decidable (Observed l item) :=
  inferInstanceAs (Decidable (∃ o ∈ l, o.nativeId = item.nativeId))

/-- An observation that no native id is known of, with candidates by its key, is alone with the key, and
none of the candidates is observed by its native id, or at least two are not. -/
structure Clear (existing : List ExistingContainer) (l : List ContainerObservation) : Prop where
  alone : ∀ u ∈ l, exact existing u = none → candidates existing u ≠ [] →
    ∀ v ∈ l, exact existing v = none → keyOf v.workloadKey = keyOf u.workloadKey → v = u
  apart : ∀ u ∈ l, exact existing u = none → candidates existing u ≠ [] →
    (∀ item ∈ candidates existing u, ¬Observed l item) ∨
      2 ≤ (candidates existing u).countP fun item => ¬Observed l item

section
variable {existing : List ExistingContainer} {l : List ContainerObservation}

theorem Clear.perm {l' : List ContainerObservation} (h : Clear existing l) (perm : l'.Perm l) :
    Clear existing l' := by
  have same : ∀ item, Observed l' item ↔ Observed l item := fun item =>
    ⟨fun ⟨o,ho,eq⟩ => ⟨o,perm.subset ho,eq⟩,fun ⟨o,ho,eq⟩ => ⟨o,perm.symm.subset ho,eq⟩⟩
  refine ⟨fun u hu unknown some_ v hv => h.alone u (perm.subset hu) unknown some_ v (perm.subset hv),
    fun u hu unknown some_ => ?_⟩
  rcases h.apart u (perm.subset hu) unknown some_ with none | two
  · exact .inl fun item hitem => fun there => none item hitem ((same item).1 there)
  · refine .inr (Nat.le_trans two (Nat.le_of_eq (countP_congr fun item _ => ?_)))
    simp [same]

theorem Clear.matched_observed (h : Clear existing l) (ids : (existing.map (·.id)).Nodup)
    (nodup : l.Nodup)
    {before after : List ContainerObservation} {u : ContainerObservation} (split : l = before++u::after)
    (unknown : exact existing u = none) {item : ExistingContainer}
    (hitem : item ∈ candidates existing u) (matched : item.id ∈ matchedAfter existing [] before) :
    Observed l item := by
  have hu : u ∈ l := split ▸ mem_append_right _ mem_cons_self
  have inside := (mem_candidates.1 hitem).1
  rcases mem_matchedAfter.1 matched with none | ⟨v,hv,marked⟩
  · cases none
  have hvl : v ∈ l := split ▸ mem_append_left _ hv
  rcases marked with ⟨e,found,same⟩ | ⟨unknown',r,hr,same⟩
  · obtain ⟨he,native⟩ := exact_of_some found
    have eq : e = item := inj_on_of_nodup_map ids he inside same
    exact ⟨v,hvl,by rw [←native,eq]⟩
  · have eq : r = item := inj_on_of_nodup_map ids (mem_candidates.1 hr).1 inside same
    obtain ⟨key,hku,hki⟩ := (mem_candidates.1 hitem).2
    obtain ⟨key',hkv,hki'⟩ := (mem_candidates.1 hr).2
    have keys : keyOf v.workloadKey = keyOf u.workloadKey := by
      rw [hkv,hku,←hki,←hki',eq]
    have same := h.alone u hu unknown (ne_nil_of_mem hitem) v hvl unknown' keys
    subst same
    rw [split] at nodup
    exact absurd rfl ((nodup_append.1 nodup).2.2 v hv v mem_cons_self)

theorem Clear.settled (h : Clear existing l) (ids : (existing.map (·.id)).Nodup)
    (nodup : l.Nodup)
    {before after : List ContainerObservation} {u : ContainerObservation}
    (split : l = before++u::after) :
    placement existing (matchedAfter existing [] before) u = placement existing [] u := by
  rw [placement,placement]
  cases unknown : exact existing u with
  | some item => rfl
  | none =>
    have all : unmatched existing [] u = candidates existing u :=
      filter_eq_self.2 fun item _ => by simp
    have hu : u ∈ l := split ▸ mem_append_right _ mem_cons_self
    by_cases none : candidates existing u = []
    · rw [unmatched,unmatched,none]
      rfl
    rcases h.apart u hu unknown none with unobserved | two
    · have same : unmatched existing (matchedAfter existing [] before) u = candidates existing u := by
        refine filter_eq_self.2 fun item hitem => decide_eq_true fun matched => ?_
        exact unobserved item hitem
          (h.matched_observed ids nodup split unknown hitem matched)
      rw [same,all]
    · have left : 2 ≤ (unmatched existing (matchedAfter existing [] before) u).length := by
        rw [unmatched,←countP_eq_length_filter]
        refine Nat.le_trans two (countP_mono_left fun item hitem unobserved => ?_)
        refine decide_eq_true fun matched => of_decide_eq_true unobserved ?_
        exact h.matched_observed ids nodup split unknown hitem matched
      have whole : 2 ≤ (candidates existing u).length :=
        Nat.le_trans two countP_le_length
      rw [all]
      match hm : unmatched existing (matchedAfter existing [] before) u,hc : candidates existing u with
      | _::_::_,_::_::_ => rfl
      | [],_ => simp [hm] at left
      | [_],_ => simp [hm] at left
      | _,[] => simp [hc] at whole
      | _,[_] => simp [hc] at whole

theorem Clear.mem_trace (h : Clear existing l) (ids : (existing.map (·.id)).Nodup)
    (nodup : l.Nodup) {o : ContainerObservation}
    {p : Placement} : (o,p) ∈ trace existing [] l ↔ o ∈ l ∧ p = placement existing [] o := by
  rw [DockerReconcile.mem_trace]
  constructor
  · intro there
    obtain ⟨before,after,split,rfl⟩ := there
    exact ⟨split ▸ mem_append_right _ mem_cons_self,h.settled ids nodup split⟩
  · intro there
    obtain ⟨ho,rfl⟩ := there
    obtain ⟨before,after,split⟩ := append_of_mem ho
    exact ⟨before,after,split,(h.settled ids nodup split).symm⟩

end

end CircuitBreaker.DockerReconcile
