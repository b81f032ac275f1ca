import CircuitBreaker.DockerReconcile
import Mathlib.Data.List.Flatten

/-! What a Docker reconciliation's plan is worth (services/docker_reconcile.py): which plans do not
depend on the order of the enumeration, and what planning again after they are applied finds. -/

namespace CircuitBreaker.DockerReconcile
open List

/-! Applying a plan. -/

def statuses : List (String × String) :=
  [("running","running"),("healthy","running"),("starting","degraded"),("restarting","degraded"),
    ("exited","stopped"),("paused","stopped"),("dead","stopped"),("created","stopped"),
    ("removing","stopped")]

/-- `_status`; `lower` is Python's. -/
def statusOf (lower : String → String) (value : String) : String :=
  (statuses.lookup (lower value)).getD "unknown"

/-- `_apply_container`, as far as the planner reads the row. -/
def observe (lower : String → String) (item : ExistingContainer) (o : ContainerObservation) :
    ExistingContainer :=
  { item with
    nativeId := o.nativeId
    workloadKey := o.workloadKey
    status := some (statusOf lower o.status) }

def updated (lower : String → String) (plan : Plan) (item : ExistingContainer) : ExistingContainer :=
  plan.updateContainers.foldl
    (fun row u => if u.1 = item.id then observe lower row u.2 else row) item

def stopped (plan : Plan) (item : ExistingContainer) : ExistingContainer :=
  if item.id ∈ plan.stopContainerIds ∧ item.status ≠ some "stopped" then
    { item with status := some "stopped" }
  else item

def created (lower : String → String) (newId : ContainerObservation → Nat)
    (o : ContainerObservation) : ExistingContainer :=
  observe lower ⟨newId o,"",none,none⟩ o

/-- The rows after a plan was applied; `newId` gives the ids of the new ones. -/
def applied (lower : String → String) (newId : ContainerObservation → Nat)
    (existing : List ExistingContainer) (plan : Plan) : List ExistingContainer :=
  existing.map (fun item => stopped plan (updated lower plan item))++
    plan.createContainers.map (created lower newId)

/-! What a plan should do. -/

def Plan.leaves (plan : Plan) (o : ContainerObservation) : Bool :=
  o ∉ plan.createContainers && o ∉ plan.updateContainers.map Prod.snd

structure Reconciles (existing : List ExistingContainer) (networks : List ExistingNetwork)
    (enumeration : Enumeration) : Prop where
  placed : ((planReconciliation existing networks enumeration).updateContainers.map Prod.snd++
      (planReconciliation existing networks enumeration).createContainers).Nodup ∧
    (∀ o ∈ (planReconciliation existing networks enumeration).updateContainers.map Prod.snd++
      (planReconciliation existing networks enumeration).createContainers,
      o ∈ enumeration.containers) ∧
    (planReconciliation existing networks enumeration).conflicts =
      (enumeration.containers.filter
        (planReconciliation existing networks enumeration).leaves).map conflictText
  single : ((planReconciliation existing networks enumeration).updateContainers.map Prod.fst).Nodup
  native : ∀ o ∈ enumeration.containers, ∀ item ∈ existing, item.nativeId = o.nativeId →
    ∀ o', (item.id,o') ∈ (planReconciliation existing networks enumeration).updateContainers ↔ o' = o
  order : ∀ l : List ContainerObservation, l.Perm enumeration.containers →
    (∀ i, i ∈ (planReconciliation existing networks
      { enumeration with containers := l }).updateContainers.map Prod.fst ↔
      i ∈ (planReconciliation existing networks enumeration).updateContainers.map Prod.fst) ∧
    (∀ o, o ∈ (planReconciliation existing networks
      { enumeration with containers := l }).createContainers ↔
      o ∈ (planReconciliation existing networks enumeration).createContainers) ∧
    ∀ i, i ∈ (planReconciliation existing networks
      { enumeration with containers := l }).stopContainerIds ↔
      i ∈ (planReconciliation existing networks enumeration).stopContainerIds
  stops : ∀ i ∈ (planReconciliation existing networks enumeration).stopContainerIds,
    enumeration.containersComplete = true ∧
    (∀ o, (i,o) ∉ (planReconciliation existing networks enumeration).updateContainers) ∧
    ∀ o ∈ enumeration.containers,
      (planReconciliation existing networks enumeration).leaves o = true →
      ∀ item ∈ candidates existing o, item.id ≠ i
  again : enumeration.containersComplete = true → ∀ lower newId,
    (existing.map (·.id)++
      (planReconciliation existing networks enumeration).createContainers.map newId).Nodup →
    (planReconciliation (applied lower newId existing
      (planReconciliation existing networks enumeration)) networks enumeration).createContainers = [] ∧
    (planReconciliation (applied lower newId existing
      (planReconciliation existing networks enumeration)) networks enumeration).stopContainerIds = []

/-! What holds of every plan. -/

section
variable {existing : List ExistingContainer} {networks : List ExistingNetwork}
variable {enumeration : Enumeration}

variable {matched : List Nat} {o : ContainerObservation}

theorem placement_update {i : Nat} :
    placement existing matched o = .update i ↔ (∃ item, exact existing o = some item ∧ item.id = i) ∨
      (exact existing o = none ∧ ∃ item, unmatched existing matched o = [item] ∧ item.id = i) := by
  rw [placement]
  cases exact existing o with
  | some item => simp
  | none =>
    rcases unmatched existing matched o with _ | ⟨item,_ | ⟨_,_⟩⟩
    · simp
    · simp
    · simp

theorem placement_create :
    placement existing matched o = .create ↔
      exact existing o = none ∧ unmatched existing matched o = [] := by
  rw [placement]
  cases exact existing o with
  | some item => simp
  | none =>
    rcases unmatched existing matched o with _ | ⟨item,_ | ⟨_,_⟩⟩
    · simp
    · simp
    · simp

theorem placement_conflict :
    placement existing matched o = .conflict ↔
      exact existing o = none ∧ 2 ≤ (unmatched existing matched o).length := by
  rw [placement]
  cases exact existing o with
  | some item => simp
  | none =>
    rcases unmatched existing matched o with _ | ⟨item,_ | ⟨_,_⟩⟩
    · simp
    · simp
    · simp

theorem update_marked {i : Nat}
    (h : placement existing matched o = .update i) : Marked existing o i := by
  rcases placement_update.1 h with exact_ | ⟨unknown,item,only,rfl⟩
  · exact .inl exact_
  · have mem : item ∈ unmatched existing matched o := by
      rw [only]
      exact mem_singleton_self _
    exact .inr ⟨unknown,item,(mem_unmatched.1 mem).1,rfl⟩

theorem mem_creates :
    o ∈ (planReconciliation existing networks enumeration).createContainers ↔
      (o,Placement.create) ∈ trace existing [] enumeration.containers := by
  rw [(plan_parts networks enumeration).creates,mem_map]
  constructor
  · intro there
    obtain ⟨⟨o',p⟩,hp,rfl⟩ := there
    obtain ⟨hp,created⟩ := mem_filter.1 hp
    rw [←of_decide_eq_true created]
    exact hp
  · intro there
    exact ⟨_,mem_filter.2 ⟨there,rfl⟩,rfl⟩

theorem mem_updates {i : Nat} :
    (i,o) ∈ (planReconciliation existing networks enumeration).updateContainers ↔
      (o,Placement.update i) ∈ trace existing [] enumeration.containers := by
  rw [(plan_parts networks enumeration).updates,mem_filterMap]
  constructor
  · intro there
    obtain ⟨⟨o',p⟩,hp,eq⟩ := there
    cases p with
    | update j =>
      cases eq
      exact hp
    | create => cases eq
    | conflict => cases eq
  · intro there
    exact ⟨_,there,rfl⟩

theorem mem_stops {i : Nat} :
    i ∈ (planReconciliation existing networks enumeration).stopContainerIds ↔
      enumeration.containersComplete = true ∧ ∃ item ∈ existing, item.status ≠ some "stopped" ∧
        (∀ v ∈ enumeration.containers, ¬Marked existing v item.id) ∧ item.id = i := by
  rw [(plan_parts networks enumeration).stops]
  cases enumeration.containersComplete with
  | false => simp
  | true =>
    have unmarked : ∀ item : ExistingContainer,
        item.id ∉ matchedAfter existing [] enumeration.containers ↔
          ∀ v ∈ enumeration.containers, ¬Marked existing v item.id := fun item => by
      rw [mem_matchedAfter]
      simp
    rw [if_pos rfl,mem_map]
    constructor
    · intro there
      obtain ⟨item,hitem,same⟩ := there
      obtain ⟨hitem,left⟩ := mem_filter.1 hitem
      rw [Bool.and_eq_true,decide_eq_true_eq,decide_eq_true_eq] at left
      exact ⟨rfl,item,hitem,left.2,(unmarked item).1 left.1,same⟩
    · intro there
      obtain ⟨-,item,hitem,status,none,same⟩ := there
      refine ⟨item,mem_filter.2 ⟨hitem,?_⟩,same⟩
      rw [Bool.and_eq_true,decide_eq_true_eq,decide_eq_true_eq]
      exact ⟨(unmarked item).2 none,status⟩

variable {l : List ContainerObservation}

theorem trace_unique (nodup : l.Nodup)
    {p p' : Placement} (h : (o,p) ∈ trace existing [] l) (h' : (o,p') ∈ trace existing [] l) :
    p = p' := by
  have distinct : ((trace existing [] l).map Prod.fst).Nodup := by rwa [trace_fst]
  exact (Prod.mk.inj (inj_on_of_nodup_map distinct h h' rfl)).2

theorem mem_of_trace {p : Placement}
    (h : (o,p) ∈ trace existing [] l) : o ∈ l := by
  have := mem_map_of_mem (f := Prod.fst) h
  rwa [trace_fst] at this

theorem trace_of_mem {l : List ContainerObservation} {o : ContainerObservation} (h : o ∈ l) :
    ∃ p, (o,p) ∈ trace existing [] l := by
  rw [←@trace_fst existing l []] at h
  obtain ⟨⟨o',p⟩,hp,rfl⟩ := mem_map.1 h
  exact ⟨p,hp⟩

theorem leaves_iff (nodup : enumeration.containers.Nodup) {p : Placement}
    (h : (o,p) ∈ trace existing [] enumeration.containers) :
    (planReconciliation existing networks enumeration).leaves o = true ↔ p = .conflict := by
  rw [Plan.leaves,Bool.and_eq_true,decide_eq_true_eq,decide_eq_true_eq,mem_creates,mem_map]
  constructor
  · intro neither
    cases p with
    | update i => exact absurd ⟨(i,o),mem_updates.2 h,rfl⟩ neither.2
    | create => exact absurd h neither.1
    | conflict => rfl
  · intro conflict
    subst conflict
    refine ⟨fun there => ?_,fun there => ?_⟩
    · cases trace_unique nodup h there
    · obtain ⟨⟨i,o'⟩,hu,rfl⟩ := there
      cases trace_unique nodup h (mem_updates.1 hu)

theorem updates_snd : (planReconciliation existing networks enumeration).updateContainers.map Prod.snd =
    ((trace existing [] enumeration.containers).filter fun p => (p.2.updates p.1).isSome).map
      Prod.fst := by
  rw [(plan_parts networks enumeration).updates]
  generalize trace existing [] enumeration.containers = t
  induction t with
  | nil => rfl
  | cons p t ih =>
    obtain ⟨o,p⟩ := p
    cases p <;> simp_all [Placement.updates]

theorem plan_placed (nodup : enumeration.containers.Nodup) :
    ((planReconciliation existing networks enumeration).updateContainers.map Prod.snd++
      (planReconciliation existing networks enumeration).createContainers).Nodup ∧
    (∀ o ∈ (planReconciliation existing networks enumeration).updateContainers.map Prod.snd++
      (planReconciliation existing networks enumeration).createContainers,
      o ∈ enumeration.containers) ∧
    (planReconciliation existing networks enumeration).conflicts =
      (enumeration.containers.filter
        (planReconciliation existing networks enumeration).leaves).map conflictText := by
  have distinct : ((trace existing [] enumeration.containers).map Prod.fst).Nodup := by rwa [trace_fst]
  refine ⟨nodup_append.2 ⟨?_,?_,fun o ho o' ho' same => ?_⟩,fun o ho => ?_,?_⟩
  · rw [updates_snd]
    exact distinct.sublist (filter_sublist.map _)
  · rw [(plan_parts networks enumeration).creates]
    exact distinct.sublist (filter_sublist.map _)
  · subst same
    obtain ⟨⟨i,_⟩,hu,rfl⟩ := mem_map.1 ho
    cases trace_unique nodup (mem_updates.1 hu) (mem_creates.1 ho')
  · rcases mem_append.1 ho with ho | ho
    · obtain ⟨⟨i,_⟩,hu,rfl⟩ := mem_map.1 ho
      exact mem_of_trace (mem_updates.1 hu)
    · exact mem_of_trace (mem_creates.1 ho)
  · have same : (trace existing [] enumeration.containers).filter (·.2 = .conflict) =
        (trace existing [] enumeration.containers).filter
          ((planReconciliation existing networks enumeration).leaves ∘ Prod.fst) := by
      refine filter_congr fun p hp => ?_
      rw [Bool.eq_iff_iff,decide_eq_true_eq]
      exact (leaves_iff nodup hp).symm
    rw [(plan_parts networks enumeration).conflicts,same,←map_map,←filter_map,trace_fst]

theorem plan_stops (nodup : enumeration.containers.Nodup) {i : Nat}
    (h : i ∈ (planReconciliation existing networks enumeration).stopContainerIds) :
    enumeration.containersComplete = true ∧
    (∀ o, (i,o) ∉ (planReconciliation existing networks enumeration).updateContainers) ∧
    ∀ o ∈ enumeration.containers,
      (planReconciliation existing networks enumeration).leaves o = true →
      ∀ item ∈ candidates existing o, item.id ≠ i := by
  obtain ⟨complete,item,-,-,unmarked,rfl⟩ := mem_stops.1 h
  refine ⟨complete,fun o there => ?_,fun o ho leaves other hother same => ?_⟩
  · have placed := mem_updates.1 there
    obtain ⟨before,after,split,eq⟩ := mem_trace.1 placed
    exact unmarked o (mem_of_trace placed) (update_marked eq.symm)
  · obtain ⟨p,hp⟩ := @trace_of_mem existing enumeration.containers o ho
    have conflict := (leaves_iff nodup hp).1 leaves
    subst conflict
    obtain ⟨before,after,split,eq⟩ := mem_trace.1 hp
    exact unmarked o ho (.inr ⟨(placement_conflict.1 eq.symm).1,other,hother,same⟩)

theorem stops_order (perm : l.Perm enumeration.containers) (i : Nat) :
    i ∈ (planReconciliation existing networks { enumeration with containers := l }).stopContainerIds ↔
      i ∈ (planReconciliation existing networks enumeration).stopContainerIds := by
  rw [mem_stops,mem_stops]
  simp only [perm.mem_iff]

/-! Where the order matters: an observation put first, or behind others, fares differently. -/

/-- The same enumeration in another order. -/
abbrev reordered (enumeration : Enumeration) (l : List ContainerObservation) : Enumeration :=
  { enumeration with containers := l }

theorem first_not_created (nodup : enumeration.containers.Nodup) {u : ContainerObservation} (perm : (u::l).Perm enumeration.containers)
    (some_ : candidates existing u ≠ []) :
    u ∉ (planReconciliation existing networks (reordered enumeration (u::l))).createContainers := by
  intro there
  have first : (u,placement existing [] u) ∈ trace existing [] (u::l) := mem_cons_self
  have created := trace_unique (perm.nodup_iff.2 nodup) first (mem_creates.1 there)
  have none := (placement_create.1 created).2
  have all : unmatched existing [] u = candidates existing u :=
    filter_eq_self.2 fun item _ => by simp
  exact some_ (all ▸ none)

theorem created_after {before l : List ContainerObservation} {u : ContainerObservation}
    (unknown : exact existing u = none)
    (gone : ∀ item ∈ candidates existing u, ∃ v ∈ before, Marked existing v item.id) :
    u ∈ (planReconciliation existing networks (reordered enumeration (before++u::l))).createContainers := by
  refine mem_creates.2 (mem_trace.2 ⟨before,l,rfl,(placement_create.2 ⟨unknown,?_⟩).symm⟩)
  refine filter_eq_nil_iff.2 fun item hitem left => of_decide_eq_true left ?_
  exact mem_matchedAfter.2 (.inr (gone item hitem))

theorem Reconciles.alone (h : Reconciles existing networks enumeration)
    (nodup : enumeration.containers.Nodup) {u v : ContainerObservation}
    (hu : u ∈ enumeration.containers) (unknown : exact existing u = none)
    (some_ : candidates existing u ≠ []) (hv : v ∈ enumeration.containers)
    (unknown' : exact existing v = none) (same : keyOf v.workloadKey = keyOf u.workloadKey) :
    v = u := by
  by_contra other
  have first : (u::enumeration.containers.erase u).Perm enumeration.containers :=
    (perm_cons_erase hu).symm
  have second : ([v]++u::(enumeration.containers.erase v).erase u).Perm enumeration.containers := by
    have there : u ∈ enumeration.containers.erase v := (mem_erase_of_ne (Ne.symm other)).2 hu
    exact (((perm_cons_erase there).symm.cons v).trans (perm_cons_erase hv).symm)
  have candidates_same : candidates existing v = candidates existing u := by
    rw [candidates_filter,candidates_filter,same]
  have created := @created_after existing networks enumeration [v]
    ((enumeration.containers.erase v).erase u) u unknown fun item hitem =>
      ⟨v,mem_singleton_self v,.inr ⟨unknown',item,candidates_same ▸ hitem,rfl⟩⟩
  have left := ((h.order _ second).2.1 u).1 created
  exact first_not_created nodup first some_ (((h.order _ first).2.1 u).2 left)

theorem unmatched_after {l : List ContainerObservation} (natives : (existing.map (·.nativeId)).Nodup)
    (ids : (existing.map (·.id)).Nodup) (u : ContainerObservation) :
    unmatched existing (matchedAfter existing [] (l.filter fun o => (exact existing o).isSome)) u =
      (candidates existing u).filter fun item => ¬Observed l item := by
  refine filter_congr fun item hitem => ?_
  have inside := (mem_candidates.1 hitem).1
  refine decide_eq_decide.2 (not_congr ⟨fun matched => ?_,fun seen => ?_⟩)
  · rcases mem_matchedAfter.1 matched with none | ⟨v,hv,marked⟩
    · cases none
    · obtain ⟨hv,known⟩ := mem_filter.1 hv
      rcases marked with ⟨e,found,same⟩ | ⟨unknown,-⟩
      · obtain ⟨he,native⟩ := exact_of_some found
        have eq : e = item := inj_on_of_nodup_map ids he inside same
        exact ⟨v,hv,by rw [←native,eq]⟩
      · rw [unknown] at known
        cases known
  · obtain ⟨o,ho,native⟩ := seen
    have found := exact_some natives inside native.symm
    refine mem_matchedAfter.2 (.inr ⟨o,mem_filter.2 ⟨ho,?_⟩,.inl ⟨item,found,rfl⟩⟩)
    rw [found]
    rfl

theorem Reconciles.apart (h : Reconciles existing networks enumeration)
    (natives : (existing.map (·.nativeId)).Nodup) (ids : (existing.map (·.id)).Nodup)
    (nodup : enumeration.containers.Nodup) {u : ContainerObservation}
    (hu : u ∈ enumeration.containers) (unknown : exact existing u = none)
    (some_ : candidates existing u ≠ []) :
    (∀ item ∈ candidates existing u, ¬Observed enumeration.containers item) ∨
      2 ≤ (candidates existing u).countP fun item => ¬Observed enumeration.containers item := by
  by_contra neither
  rw [not_or,not_forall] at neither
  obtain ⟨⟨seen,hseen⟩,few⟩ := neither
  rw [Classical.not_imp,not_not] at hseen
  have first : (u::enumeration.containers.erase u).Perm enumeration.containers :=
    (perm_cons_erase hu).symm
  have unseen := @unmatched_after existing enumeration.containers natives ids u
  have count : ((candidates existing u).filter fun item =>
      ¬Observed enumeration.containers item).length < 2 := by
    rw [←countP_eq_length_filter]
    omega
  -- the known observations first, and then this one
  have later : u ∈ enumeration.containers.filter fun o => !(exact existing o).isSome :=
    mem_filter.2 ⟨hu,by rw [unknown]; rfl⟩
  have second : ((enumeration.containers.filter fun o => (exact existing o).isSome)++
      u::(enumeration.containers.filter fun o => !(exact existing o).isSome).erase u).Perm
        enumeration.containers :=
    ((perm_cons_erase later).symm.append_left _).trans
      (filter_append_perm (fun o => (exact existing o).isSome) _)
  have behind : ∀ p, placement existing (matchedAfter existing []
      (enumeration.containers.filter fun o => (exact existing o).isSome)) u = p →
      (u,p) ∈ trace existing [] ((enumeration.containers.filter fun o => (exact existing o).isSome)++
        u::(enumeration.containers.filter fun o => !(exact existing o).isSome).erase u) :=
    fun p eq => mem_trace.2 ⟨_,_,rfl,eq.symm⟩
  match hm : (candidates existing u).filter fun item => ¬Observed enumeration.containers item with
  | _::_::_ =>
    rw [hm,length_cons,length_cons] at count
    omega
  | [] =>
    have created := behind .create (placement_create.2 ⟨unknown,unseen.trans hm⟩)
    have left := ((h.order _ second).2.1 u).1 (mem_creates.2 created)
    exact first_not_created nodup first some_ (((h.order _ first).2.1 u).2 left)
  | [item] =>
    have last : item ∈ (candidates existing u).filter fun item =>
        ¬Observed enumeration.containers item := by
      rw [hm]
      exact mem_singleton_self _
    obtain ⟨hitem,unobserved⟩ := mem_filter.1 last
    have unobserved : ¬Observed enumeration.containers item := of_decide_eq_true unobserved
    have taken := behind (.update item.id)
      (placement_update.2 (.inr ⟨unknown,item,unseen.trans hm,rfl⟩))
    have target := ((h.order _ second).1 item.id).1 (mem_map.2 ⟨_,mem_updates.2 taken,rfl⟩)
    obtain ⟨⟨_,o⟩,hupdate,rfl⟩ := mem_map.1 (((h.order _ first).1 item.id).2 target)
    obtain ⟨before,after,split,eq⟩ := mem_trace.1 (mem_updates.1 hupdate)
    rcases placement_update.1 eq.symm with ⟨e,found,same⟩ | ⟨-,e,only,same⟩
    · -- by its native id, which is not observed
      obtain ⟨he,native⟩ := exact_of_some found
      have ho : o ∈ enumeration.containers := first.subset (mem_of_trace (mem_updates.1 hupdate))
      have eq : e = item := inj_on_of_nodup_map ids he (mem_candidates.1 hitem).1 same
      exact unobserved ⟨o,ho,by rw [←native,eq]⟩
    · have mem : e ∈ unmatched existing (matchedAfter existing [] before) o := by
        rw [only]
        exact mem_singleton_self _
      obtain ⟨-,free⟩ := mem_unmatched.1 mem
      cases before with
      | nil =>
        -- the first has the observed candidate too
        obtain ⟨rfl,-⟩ := List.cons.inj split
        have all : unmatched existing [] u = candidates existing u :=
          filter_eq_self.2 fun item _ => by simp
        have single : candidates existing u = [e] := all.symm.trans only
        rw [single] at hitem hseen
        rw [mem_singleton.1 hitem,←mem_singleton.1 hseen.1] at unobserved
        exact unobserved hseen.2
      | cons other before =>
        obtain ⟨rfl,-⟩ := List.cons.inj split
        refine free (mem_matchedAfter.2 (.inr ⟨u,mem_cons_self,.inr ⟨unknown,item,hitem,same.symm⟩⟩))

end

end CircuitBreaker.DockerReconcile
