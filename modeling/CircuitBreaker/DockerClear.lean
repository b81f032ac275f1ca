import CircuitBreaker.DockerReplan

/-! Docker reconciliations that go as they should (services/docker_reconcile.py): those in which no
observation competes with another for a row. -/

namespace CircuitBreaker.DockerReconcile
open List

section
variable {existing : List ExistingContainer} {networks : List ExistingNetwork}
variable {enumeration : Enumeration}

theorem unmatched_nil (o : ContainerObservation) : unmatched existing [] o = candidates existing o :=
  filter_eq_self.2 fun item _ => by simp

section
variable (clear : Clear existing enumeration.containers) (ids : (existing.map (·.id)).Nodup)
variable (nodup : enumeration.containers.Nodup)
include clear ids nodup

theorem clear_updates {o : ContainerObservation} {i : Nat} :
    (i,o) ∈ (planReconciliation existing networks enumeration).updateContainers ↔
      o ∈ enumeration.containers ∧ placement existing [] o = .update i := by
  rw [mem_updates,clear.mem_trace ids nodup,eq_comm]

theorem clear_creates {o : ContainerObservation} :
    o ∈ (planReconciliation existing networks enumeration).createContainers ↔
      o ∈ enumeration.containers ∧ placement existing [] o = .create := by
  rw [mem_creates,clear.mem_trace ids nodup,eq_comm]

end

variable {o : ContainerObservation}

theorem Clear.sole (clear : Clear existing enumeration.containers) (ids : (existing.map (·.id)).Nodup)
    (observed : (enumeration.containers.map (·.nativeId)).Nodup) {o' : ContainerObservation} {i : Nat}
    (ho : o ∈ enumeration.containers) (ho' : o' ∈ enumeration.containers)
    (h : placement existing [] o = .update i) (h' : placement existing [] o' = .update i) : o = o' := by
  have row : ∀ {e e' : ExistingContainer}, e ∈ existing → e' ∈ existing → e.id = i → e'.id = i →
      e = e' := fun he he' hi hi' => inj_on_of_nodup_map ids he he' (hi.trans hi'.symm)
  -- an observation by key has no candidate that another observes
  have mixed : ∀ {a b : ContainerObservation} {e e' : ExistingContainer}, a ∈ enumeration.containers →
      b ∈ enumeration.containers → exact existing a = some e → e.id = i → exact existing b = none →
      unmatched existing [] b = [e'] → e'.id = i → False := by
    intro a b e e' ha hb found hi unknown only hi'
    rw [unmatched_nil] at only
    have mem : e' ∈ candidates existing b := by
      rw [only]
      exact mem_singleton_self _
    obtain ⟨he,native⟩ := exact_of_some found
    have eq := row he (mem_candidates.1 mem).1 hi hi'
    subst eq
    rcases clear.apart b hb unknown (ne_nil_of_mem mem) with none | two
    · exact none e mem ⟨a,ha,native.symm⟩
    · have few : ((candidates existing b).countP fun item =>
          ¬Observed enumeration.containers item) ≤ (candidates existing b).length := countP_le_length
      rw [only] at few two
      simp only [length_singleton] at few
      omega
  rcases placement_update.1 h with ⟨e,found,hi⟩ | ⟨unknown,e,only,hi⟩
  · rcases placement_update.1 h' with ⟨e',found',hi'⟩ | ⟨unknown',e',only',hi'⟩
    · obtain ⟨he,native⟩ := exact_of_some found
      obtain ⟨he',native'⟩ := exact_of_some found'
      have eq := row he he' hi hi'
      subst eq
      exact inj_on_of_nodup_map observed ho ho' (native.symm.trans native')
    · exact (mixed ho ho' found hi unknown' only' hi').elim
  · rcases placement_update.1 h' with ⟨e',found',hi'⟩ | ⟨unknown',e',only',hi'⟩
    · exact (mixed ho' ho found' hi' unknown only hi).elim
    · rw [unmatched_nil] at only only'
      have mem : e ∈ candidates existing o := by
        rw [only]
        exact mem_singleton_self _
      have mem' : e' ∈ candidates existing o' := by
        rw [only']
        exact mem_singleton_self _
      have eq := row (mem_candidates.1 mem).1 (mem_candidates.1 mem').1 hi hi'
      subst eq
      obtain ⟨key,hk,hi⟩ := (mem_candidates.1 mem).2
      obtain ⟨key',hk',hi'⟩ := (mem_candidates.1 mem').2
      have same : keyOf o.workloadKey = keyOf o'.workloadKey := by rw [hk,hk',←hi,←hi']
      exact clear.alone o' ho' unknown' (ne_nil_of_mem mem') o ho unknown same

/-! The rows after the plan is applied. -/

theorem updated_id (lower : String → String) (plan : Plan) (item : ExistingContainer) :
    (updated lower plan item).id = item.id := by
  rw [updated]
  generalize hi : item.id = i
  generalize plan.updateContainers = updates
  induction updates generalizing item with
  | nil => exact hi
  | cons u rest ih =>
    rw [foldl_cons]
    refine ih _ ?_
    split
    · exact hi
    · exact hi

theorem stopped_id (plan : Plan) (item : ExistingContainer) : (stopped plan item).id = item.id := by
  rw [stopped]
  split <;> rfl

variable {item : ExistingContainer}

theorem updated_none {lower : String → String} {plan : Plan}
    (none : ∀ o, (item.id,o) ∉ plan.updateContainers) : updated lower plan item = item := by
  rw [updated]
  generalize hu : plan.updateContainers = updates at none
  clear hu
  induction updates with
  | nil => rfl
  | cons u rest ih =>
    have other : u.1 ≠ item.id := fun eq => none u.2 (by rw [←eq]; exact mem_cons_self)
    rw [foldl_cons,if_neg other]
    exact ih fun o there => none o (mem_cons_of_mem _ there)

theorem updated_sole {lower : String → String} {plan : Plan} (there : (item.id,o) ∈ plan.updateContainers)
    (sole : ∀ o', (item.id,o') ∈ plan.updateContainers → o' = o) :
    updated lower plan item = observe lower item o := by
  rw [updated]
  generalize plan.updateContainers = updates at there sole
  have kept : ∀ (l : List (Nat × ContainerObservation)), (∀ o', (item.id,o') ∈ l → o' = o) →
      l.foldl (fun row u => if u.1 = item.id then observe lower row u.2 else row)
        (observe lower item o) = observe lower item o := by
    intro l all
    induction l with
    | nil => rfl
    | cons u rest ih =>
      have same : (if u.1 = item.id then observe lower (observe lower item o) u.2
          else observe lower item o) = observe lower item o := by
        by_cases mine : u.1 = item.id
        · rw [if_pos mine,all u.2 (by rw [←mine]; exact mem_cons_self)]
          rfl
        · exact if_neg mine
      rw [foldl_cons,same]
      exact ih fun o' ho' => all o' (mem_cons_of_mem _ ho')
  have first : ∀ (l : List (Nat × ContainerObservation)) row, observe lower
      (l.foldl (fun row u => if u.1 = item.id then observe lower row u.2 else row) row) o =
        observe lower row o := by
    intro l
    induction l with
    | nil => exact fun row => rfl
    | cons u rest ih =>
      intro row
      rw [foldl_cons,ih]
      by_cases mine : u.1 = item.id
      · rw [if_pos mine]
        rfl
      · rw [if_neg mine]
  obtain ⟨before,after,rfl⟩ := append_of_mem there
  rw [foldl_append,foldl_cons,if_pos rfl,first]
  exact kept after fun o' ho' => sole o' (mem_append_right _ (mem_cons_of_mem _ ho'))

/-- The enumeration's observations do not compete, and all ids are unique. -/
structure Settled (existing : List ExistingContainer) (enumeration : Enumeration) : Prop where
  clear : Clear existing enumeration.containers
  ids : (existing.map (·.id)).Nodup
  natives : (existing.map (·.nativeId)).Nodup
  observed : (enumeration.containers.map (·.nativeId)).Nodup

theorem Settled.nodup (h : Settled existing enumeration) : enumeration.containers.Nodup :=
  .of_map _ h.observed

variable {lower : String → String} {newId : ContainerObservation → Nat}

/-- A row that no observation is for. -/
def Kept (existing : List ExistingContainer) (enumeration : Enumeration) (item : ExistingContainer) :
    Prop := ∀ o ∈ enumeration.containers, placement existing [] o ≠ .update item.id

theorem Settled.row_updated (h : Settled existing enumeration) (ho : o ∈ enumeration.containers)
    (mine : placement existing [] o = .update item.id) :
    stopped (planReconciliation existing networks enumeration)
      (updated lower (planReconciliation existing networks enumeration) item) =
        observe lower item o := by
  have there := (@clear_updates existing networks enumeration h.clear h.ids h.nodup o item.id).2 ⟨ho,mine⟩
  rw [updated_sole there fun o' ho' => ?_,stopped,if_neg]
  · intro stops
    exact (plan_stops h.nodup stops.1).2.1 o there
  · obtain ⟨hl,hp⟩ := (clear_updates h.clear h.ids h.nodup).1 ho'
    exact h.clear.sole h.ids h.observed hl ho hp mine

theorem Settled.row_kept (h : Settled existing enumeration)
    (kept : Kept existing enumeration item) :
    updated lower (planReconciliation existing networks enumeration) item = item :=
  updated_none fun o there =>
    have ⟨ho,hp⟩ := (clear_updates h.clear h.ids h.nodup).1 there
    kept o ho hp

inductive Origin (existing : List ExistingContainer) (networks : List ExistingNetwork)
    (enumeration : Enumeration) (lower : String → String) (newId : ContainerObservation → Nat)
    (row : ExistingContainer) : Prop where
  | updated (item : ExistingContainer) (o : ContainerObservation) : item ∈ existing →
      o ∈ enumeration.containers → placement existing [] o = .update item.id →
      row = observe lower item o → Origin existing networks enumeration lower newId row
  | kept (item : ExistingContainer) : item ∈ existing → Kept existing enumeration item →
      row = stopped (planReconciliation existing networks enumeration) item →
      Origin existing networks enumeration lower newId row
  | created (o : ContainerObservation) : o ∈ enumeration.containers →
      placement existing [] o = .create → row = created lower newId o →
      Origin existing networks enumeration lower newId row

theorem Settled.origin (h : Settled existing enumeration) {row : ExistingContainer} :
    row ∈ applied lower newId existing (planReconciliation existing networks enumeration) ↔
      Origin existing networks enumeration lower newId row := by
  rw [applied,mem_append,mem_map,mem_map]
  constructor
  · intro there
    rcases there with ⟨item,hitem,rfl⟩ | ⟨o,ho,rfl⟩
    · by_cases kept : Kept existing enumeration item
      · exact .kept item hitem kept (by rw [h.row_kept kept])
      · rw [Kept,not_forall] at kept
        obtain ⟨o,some_⟩ := kept
        rw [Classical.not_imp,not_not] at some_
        exact .updated item o hitem some_.1 some_.2 (h.row_updated some_.1 some_.2)
    · obtain ⟨ho,hp⟩ := (clear_creates h.clear h.ids h.nodup).1 ho
      exact .created o ho hp rfl
  · intro origin
    cases origin with
    | updated item o hitem ho hp eq => exact .inl ⟨item,hitem,eq ▸ h.row_updated ho hp⟩
    | kept item hitem kept eq => exact .inl ⟨item,hitem,by rw [h.row_kept kept,eq]⟩
    | created o ho hp eq => exact .inr ⟨o,(clear_creates h.clear h.ids h.nodup).2 ⟨ho,hp⟩,eq.symm⟩

theorem stopped_native (plan : Plan) (item : ExistingContainer) :
    (stopped plan item).nativeId = item.nativeId ∧
      (stopped plan item).workloadKey = item.workloadKey := by
  rw [stopped]
  split <;> exact ⟨rfl,rfl⟩

theorem Settled.origin_observed (h : Settled existing enumeration) {row : ExistingContainer} (ho : o ∈ enumeration.containers)
    (origin : Origin existing networks enumeration lower newId row) (native : row.nativeId = o.nativeId) :
    (∃ item ∈ existing, placement existing [] o = .update item.id ∧ row = observe lower item o) ∨
      (placement existing [] o = .create ∧ row = created lower newId o) := by
  cases origin with
  | updated item o' hitem ho' hp eq =>
    subst eq
    have same : o' = o := inj_on_of_nodup_map h.observed ho' ho native
    subst same
    exact .inl ⟨item,hitem,hp,rfl⟩
  | kept item hitem kept eq =>
    rw [eq,(stopped_native _ item).1] at native
    have found := exact_some h.natives hitem native
    exact absurd (placement_update.2 (.inl ⟨item,found,rfl⟩)) (kept o ho)
  | created o' ho' hp eq =>
    subst eq
    have same : o' = o := inj_on_of_nodup_map h.observed ho' ho native
    subst same
    exact .inr ⟨hp,rfl⟩

theorem Settled.found_again (h : Settled existing enumeration)
    (ho : o ∈ enumeration.containers) :
    (placement existing [] o = .conflict ↔ exact (applied lower newId existing
      (planReconciliation existing networks enumeration)) o = none) ∧
    ∀ row, row ∈ applied lower newId existing (planReconciliation existing networks enumeration) →
      row.nativeId = o.nativeId → ∃ e, exact (applied lower newId existing
        (planReconciliation existing networks enumeration)) o = some e ∧ e.id = row.id := by
  constructor
  · constructor
    · intro conflict
      cases found : exact (applied lower newId existing
        (planReconciliation existing networks enumeration)) o with
      | none => rfl
      | some e =>
        obtain ⟨he,native⟩ := exact_of_some found
        rcases h.origin_observed ho (h.origin.1 he) native with ⟨item,-,hp,-⟩ | ⟨hp,-⟩
        · rw [hp] at conflict
          cases conflict
        · rw [hp] at conflict
          cases conflict
    · intro none
      cases hp : placement existing [] o with
      | conflict => rfl
      | create =>
        have row := h.origin.2 (@Origin.created existing networks enumeration lower newId _ o ho hp rfl)
        exact absurd rfl (exact_of_none none _ row)
      | update i =>
        obtain ⟨item,hitem,rfl⟩ : ∃ item ∈ existing, item.id = i := by
          rcases update_marked hp with ⟨item,found,eq⟩ | ⟨-,item,hitem,eq⟩
          · exact ⟨item,(exact_of_some found).1,eq⟩
          · exact ⟨item,(mem_candidates.1 hitem).1,eq⟩
        have row := h.origin.2
          (@Origin.updated existing networks enumeration lower newId _ item o hitem ho hp rfl)
        exact absurd rfl (exact_of_none none _ row)
  · intro row hrow native
    cases found : exact (applied lower newId existing
      (planReconciliation existing networks enumeration)) o with
    | none => exact absurd native (exact_of_none found row hrow)
    | some e =>
      refine ⟨e,rfl,?_⟩
      obtain ⟨he,native'⟩ := exact_of_some found
      rcases h.origin_observed ho (h.origin.1 he) native' with ⟨item,-,hp,rfl⟩ | ⟨hp,rfl⟩
      · rcases h.origin_observed ho (h.origin.1 hrow) native with ⟨item',-,hp',rfl⟩ | ⟨hp',-⟩
        · exact Placement.update.inj (hp.symm.trans hp')
        · cases hp.symm.trans hp'
      · rcases h.origin_observed ho (h.origin.1 hrow) native with ⟨item',-,hp',-⟩ | ⟨-,rfl⟩
        · cases hp.symm.trans hp'
        · rfl

theorem Settled.many (h : Settled existing enumeration) {u : ContainerObservation}
    (hu : u ∈ enumeration.containers) (conflict : placement existing [] u = .conflict) :
    2 ≤ (candidates existing u).countP fun item => ¬Observed enumeration.containers item := by
  obtain ⟨unknown,many⟩ := placement_conflict.1 conflict
  rw [unmatched_nil] at many
  have some_ : candidates existing u ≠ [] := fun none => by
    rw [none] at many
    exact absurd many (by decide)
  rcases h.clear.apart u hu unknown some_ with none | two
  · rwa [countP_eq_length.2 fun item hitem => decide_eq_true (none item hitem)]
  · exact two

theorem Settled.ambiguous_kept (h : Settled existing enumeration) {u : ContainerObservation}
    (hu : u ∈ enumeration.containers) (conflict : placement existing [] u = .conflict) (hitem : item ∈ candidates existing u)
    (unobserved : ¬Observed enumeration.containers item) : Kept existing enumeration item := by
  intro o ho mine
  obtain ⟨inside,key,hku,hki⟩ := mem_candidates.1 hitem
  rcases placement_update.1 mine with ⟨e,found,same⟩ | ⟨unknown,e,only,same⟩
  · obtain ⟨he,native⟩ := exact_of_some found
    have eq : e = item := inj_on_of_nodup_map h.ids he inside same
    exact unobserved ⟨o,ho,by rw [←native,eq]⟩
  · have mem : e ∈ candidates existing o := by
      rw [←unmatched_nil,only]
      exact mem_singleton_self _
    obtain ⟨he,key',hko,hke⟩ := mem_candidates.1 mem
    have eq : e = item := inj_on_of_nodup_map h.ids he inside same
    have keys : keyOf o.workloadKey = keyOf u.workloadKey := by rw [hko,hku,←hke,←hki,eq]
    have alone := h.clear.alone u hu (placement_conflict.1 conflict).1 (ne_nil_of_mem hitem) o ho
      unknown keys
    rw [alone,conflict] at mine
    cases mine

theorem applied_ids {plan : Plan} : (applied lower newId existing plan).map (·.id) =
    existing.map (·.id)++plan.createContainers.map newId := by
  rw [applied,map_append,map_map,map_map]
  refine congrArg₂ _ (map_congr_left fun item _ => ?_) rfl
  exact (stopped_id plan _).trans (updated_id lower plan item)

theorem Settled.clear_again (h : Settled existing enumeration) :
    Clear (applied lower newId existing (planReconciliation existing networks enumeration))
      enumeration.containers := by
  have left : ∀ u ∈ enumeration.containers, exact (applied lower newId existing
      (planReconciliation existing networks enumeration)) u = none →
      placement existing [] u = .conflict := fun u hu none => (h.found_again hu).1.2 none
  refine ⟨fun u hu unknown _ v hv unknown' same => ?_,fun u hu unknown _ => .inr ?_⟩
  · have conflict := left u hu unknown
    have some_ : candidates existing u ≠ [] := fun none => by
      have many := h.many hu conflict
      rw [none] at many
      cases many
    exact h.clear.alone u hu (placement_conflict.1 conflict).1 some_ v hv
      (placement_conflict.1 (left v hv unknown')).1 same
  · have conflict := left u hu unknown
    have many := h.many hu conflict
    rw [candidates_filter,countP_filter] at many ⊢
    rw [applied,countP_append,countP_map]
    refine Nat.le_trans (Nat.le_trans many (countP_mono_left fun item hitem passes => ?_))
      (Nat.le_add_right _ _)
    rw [Bool.and_eq_true,decide_eq_true_eq] at passes
    have candidate : item ∈ candidates existing u := by
      rw [candidates_filter]
      exact mem_filter.2 ⟨hitem,passes.2⟩
    have kept := h.ambiguous_kept hu conflict candidate passes.1
    obtain ⟨native,key⟩ :=
      stopped_native (planReconciliation existing networks enumeration) item
    simp only [Function.comp,h.row_kept kept,Observed,native,key,Bool.and_eq_true,decide_eq_true_eq]
    exact ⟨passes.1,by simpa using passes.2⟩

theorem Settled.candidate_again (h : Settled existing enumeration) {u : ContainerObservation}
    {item : ExistingContainer} (hitem : item ∈ candidates existing u)
    (kept : Kept existing enumeration item) :
    stopped (planReconciliation existing networks enumeration) item ∈
      candidates (applied lower newId existing
        (planReconciliation existing networks enumeration)) u := by
  obtain ⟨inside,key,hku,hki⟩ := mem_candidates.1 hitem
  refine mem_candidates.2 ⟨h.origin.2 (.kept item inside kept rfl),key,hku,?_⟩
  rw [(stopped_native _ item).2]
  exact hki

theorem Settled.preserved (h : Settled existing enumeration)
    (complete : enumeration.containersComplete = true)
    (hitem : item ∈ existing) (kept : Kept existing enumeration item)
    (status : (stopped (planReconciliation existing networks enumeration) item).status ≠
      some "stopped") :
    ∃ v ∈ enumeration.containers, placement existing [] v = .conflict ∧
      item ∈ candidates existing v := by
  have running : item.status ≠ some "stopped" := fun already => status (by
    rw [stopped,if_neg fun stops => stops.2 already]
    exact already)
  have spared : item.id ∉ (planReconciliation existing networks enumeration).stopContainerIds :=
    fun stops => status (by rw [stopped,if_pos ⟨stops,running⟩])
  have marked : ∃ v ∈ enumeration.containers, Marked existing v item.id := by
    by_contra none
    exact spared (mem_stops.2 ⟨complete,item,hitem,running,
      fun v hv there => none ⟨v,hv,there⟩,rfl⟩)
  obtain ⟨v,hv,⟨e,found,same⟩ | ⟨unknown,e,he,same⟩⟩ := marked
  · exact absurd (placement_update.2 (.inl ⟨e,found,same⟩)) (kept v hv)
  · have eq : e = item := inj_on_of_nodup_map h.ids (mem_candidates.1 he).1 hitem same
    subst eq
    refine ⟨v,hv,?_,he⟩
    cases hp : placement existing [] v with
    | conflict => rfl
    | create =>
      have none := (placement_create.1 hp).2
      rw [unmatched_nil] at none
      rw [none] at he
      cases he
    | update i =>
      rcases placement_update.1 hp with ⟨e',found,-⟩ | ⟨-,e',only,same'⟩
      · rw [unknown] at found
        cases found
      · rw [unmatched_nil] at only
        rw [only] at he
        rw [mem_singleton.1 he] at kept
        exact absurd (hp.trans (congrArg Placement.update same'.symm)) (kept v hv)

theorem Settled.again (h : Settled existing enumeration)
    (complete : enumeration.containersComplete = true)
    (fresh : (existing.map (·.id)++
      (planReconciliation existing networks enumeration).createContainers.map newId).Nodup) :
    (planReconciliation (applied lower newId existing
      (planReconciliation existing networks enumeration)) networks enumeration).createContainers = [] ∧
    (planReconciliation (applied lower newId existing
      (planReconciliation existing networks enumeration)) networks enumeration).stopContainerIds = [] := by
  have clear := @Settled.clear_again existing networks enumeration lower newId h
  have ids : ((applied lower newId existing
      (planReconciliation existing networks enumeration)).map (·.id)).Nodup := by rwa [applied_ids]
  constructor
  · refine eq_nil_iff_forall_not_mem.2 fun o there => ?_
    obtain ⟨ho,create⟩ := (clear_creates clear ids h.nodup).1 there
    obtain ⟨unknown,none⟩ := placement_create.1 create
    rw [unmatched_nil] at none
    have conflict := (h.found_again ho).1.2 unknown
    have some_ := countP_pos_iff.1 (Nat.lt_of_lt_of_le Nat.zero_lt_two (h.many ho conflict))
    obtain ⟨item,hitem,unobserved⟩ := some_
    have kept := h.ambiguous_kept ho conflict hitem (of_decide_eq_true unobserved)
    have again := @Settled.candidate_again existing networks enumeration lower newId h o item hitem kept
    rw [none] at again
    cases again
  · refine eq_nil_iff_forall_not_mem.2 fun i there => ?_
    obtain ⟨-,row,hrow,status,unmarked,-⟩ := mem_stops.1 there
    cases h.origin.1 hrow with
    | updated item o hitem ho hp eq | created o ho hp eq =>
      obtain ⟨e,found,same⟩ := (h.found_again ho).2 row hrow (by rw [eq]; rfl)
      exact unmarked o ho (.inl ⟨e,found,same⟩)
    | kept item hitem kept eq =>
      subst eq
      obtain ⟨v,hv,conflict,candidate⟩ := h.preserved complete hitem kept status
      refine unmarked v hv (.inr ⟨(h.found_again hv).1.1 conflict,_,?_,rfl⟩)
      exact h.candidate_again candidate kept

theorem Settled.single (h : Settled existing enumeration) :
    ((planReconciliation existing networks enumeration).updateContainers.map Prod.fst).Nodup := by
  have distinct : (planReconciliation existing networks enumeration).updateContainers.Nodup :=
    .of_map Prod.snd (nodup_append.1 (plan_placed h.nodup).1).1
  refine distinct.map_on fun u hu v hv same => ?_
  obtain ⟨i,o⟩ := u
  obtain ⟨j,o'⟩ := v
  obtain ⟨ho,hp⟩ := (clear_updates h.clear h.ids h.nodup).1 hu
  obtain ⟨ho',hp'⟩ := (clear_updates h.clear h.ids h.nodup).1 hv
  have eq : i = j := same
  subst eq
  rw [h.clear.sole h.ids h.observed ho ho' hp hp']

section
variable {l : List ContainerObservation}

theorem Settled.order_updates (h : Settled existing enumeration) (perm : l.Perm enumeration.containers)
    (i : Nat) :
    i ∈ (planReconciliation existing networks
      { enumeration with containers := l }).updateContainers.map Prod.fst ↔
    i ∈ (planReconciliation existing networks enumeration).updateContainers.map Prod.fst := by
  have clear : Clear existing (reordered enumeration l).containers := h.clear.perm perm
  have nodup : (reordered enumeration l).containers.Nodup := perm.nodup_iff.2 h.nodup
  have same : ∀ u : Nat × ContainerObservation,
      u ∈ (planReconciliation existing networks (reordered enumeration l)).updateContainers ↔
        u ∈ (planReconciliation existing networks enumeration).updateContainers := by
    intro u
    obtain ⟨j,o⟩ := u
    rw [clear_updates clear h.ids nodup,clear_updates h.clear h.ids h.nodup]
    exact and_congr_left fun _ => perm.mem_iff
  rw [mem_map,mem_map]
  exact exists_congr fun u => and_congr_left fun _ => same u

theorem Settled.order_creates (h : Settled existing enumeration) (perm : l.Perm enumeration.containers)
    (o : ContainerObservation) :
    o ∈ (planReconciliation existing networks { enumeration with containers := l }).createContainers ↔
    o ∈ (planReconciliation existing networks enumeration).createContainers := by
  have clear : Clear existing (reordered enumeration l).containers := h.clear.perm perm
  have nodup : (reordered enumeration l).containers.Nodup := perm.nodup_iff.2 h.nodup
  have same := @clear_creates existing networks (reordered enumeration l) clear h.ids nodup o
  rw [same,clear_creates h.clear h.ids h.nodup]
  exact and_congr_left fun _ => perm.mem_iff

end

/-- A plan is as it should be just when no observation that is to be matched by its key competes with
another, by the key or by a candidate's native id. -/
theorem reconciles_iff (ids : (existing.map (·.id)).Nodup)
    (natives : (existing.map (·.nativeId)).Nodup)
    (observed : (enumeration.containers.map (·.nativeId)).Nodup) :
    Reconciles existing networks enumeration ↔ Clear existing enumeration.containers := by
  have nodup : enumeration.containers.Nodup := .of_map _ observed
  constructor
  · intro h
    exact ⟨fun u hu unknown some_ v hv unknown' same => h.alone nodup hu unknown some_ hv unknown' same,
      fun u hu unknown some_ => h.apart natives ids nodup hu unknown some_⟩
  · intro clear
    have settled : Settled existing enumeration := ⟨clear,ids,natives,observed⟩
    refine ⟨plan_placed nodup,settled.single,fun o ho item hitem native o' => ?_,
      fun l perm => ⟨settled.order_updates perm,settled.order_creates perm,stops_order perm⟩,
      fun i hi => plan_stops nodup hi,fun complete lower newId fresh => settled.again complete fresh⟩
    have found := exact_some natives hitem native
    have mine : placement existing [] o = .update item.id :=
      placement_update.2 (.inl ⟨item,found,rfl⟩)
    rw [clear_updates clear ids nodup]
    constructor
    · intro there
      exact clear.sole ids observed there.1 ho there.2 mine
    · intro same
      subst same
      exact ⟨ho,mine⟩

end

/-- One row, of the container "a" of a workload. -/
def surviving : List ExistingContainer := [⟨1,"a",some "web",none⟩]

theorem reconciles_surviving : Reconciles surviving [] ⟨[⟨"a","web",some "web","running"⟩,
    ⟨"b","cache",some "cache","running"⟩],true,[]⟩ :=
  (reconciles_iff (by decide) (by decide) (by decide)).2 ⟨by decide,by decide⟩

/-- A recreated container is listed before the one whose key it has: both update the one row. -/
theorem recreated_twice : ¬Reconciles surviving [] ⟨[⟨"b","web-1",some "web","running"⟩,
    ⟨"a","web",some "web","running"⟩],true,[]⟩ := by
  intro h
  exact absurd h.single (by decide)

end CircuitBreaker.DockerReconcile
