import Mathlib
import CircuitBreaker.InventoryApply


/-! What an accepted plan without conflicts holds, said of the document and the decisions. -/

namespace CircuitBreaker.InventoryTransfer
open List

def TransferResolution.names (item : TransferResolution) (owner : String) (id : Int) : Prop :=
  item.entityType = owner ∧ item.sourceId = id

instance (item : TransferResolution) (owner : String) (id : Int) :
    Decidable (item.names owner id) := inferInstanceAs (Decidable (_ ∧ _))

/-- A reassign decision of a record's field. -/
def Reassigned (resolutions : List TransferResolution) (owner : String) (id : Int) (field : String)
    (targetId : Int) : Prop :=
  ∃ item ∈ resolutions,item.names owner id ∧ item.action = .reassign field targetId

def Matched (resolutions : List TransferResolution) (owner : String) (id targetId : Int) : Prop :=
  ∃ item ∈ resolutions,item.names owner id ∧ item.action = .matched targetId

def onlyReassigned (resolutions : List TransferResolution) (owner : String) (id : Int) : Bool :=
  resolutions.any (fun item => item.names owner id) &&
    resolutions.all fun item => decide (item.names owner id → item.slot ≠ identitySlot)

def lastReassigned (resolutions : List TransferResolution) (owner : String) (ids : List Int) :
    Option Int :=
  (ids.filter (onlyReassigned resolutions owner)).getLast?

def Document.ids (doc : Document) (t : EntityType) : List Int := (doc.rows t).map sourceId

/-! The buckets. -/

section Buckets

variable {resolutions : List TransferResolution} {buckets : Buckets}

theorem at_addResolution {b b' : Buckets} {item : TransferResolution}
    (h : addResolution b item = .ok b') (owner : String) (id : Int) (slot : String) :
    ((b.at owner id).get slot = none ∨ ¬(item.names owner id ∧ item.slot = slot)) ∧
    (b'.at owner id).get slot =
      if item.names owner id ∧ item.slot = slot then some item else (b.at owner id).get slot := by
  unfold addResolution at h
  simp only at h
  split at h <;> cases h
  rename_i absent
  simp only [Buckets.at,Dict.get_set]
  by_cases hn : item.names owner id
  · obtain ⟨rfl,rfl⟩ := hn
    simp only [TransferResolution.names,true_and,if_true,Option.getD_some,Dict.get_set]
    by_cases hs : item.slot = slot
    · subst hs
      refine ⟨.inl ?_,by simp⟩
      cases hg : ((Dict.get b (item.entityType,item.sourceId)).getD Dict.empty).get item.slot with
      | none => rfl
      | some x => simp [Dict.contains,hg] at absent
    · simp [hs,Ne.symm hs]
  · have other : (owner,id) ≠ (item.entityType,item.sourceId) := fun he => by
      cases he
      exact hn ⟨rfl,rfl⟩
    simp [hn,other]

theorem at_foldlM {b b' : Buckets} (h : resolutions.foldlM addResolution b = .ok b')
    (owner : String) (id : Int) (slot : String) (x : TransferResolution) :
    (b'.at owner id).get slot = some x ↔
      (b.at owner id).get slot = some x ∨ x ∈ resolutions ∧ x.names owner id ∧ x.slot = slot := by
  induction resolutions generalizing b with
  | nil =>
    cases h
    simp
  | cons item rest ih =>
    obtain ⟨m,hm,hrest⟩ := foldlM_cons_ok.1 h
    obtain ⟨absent,now⟩ := at_addResolution hm owner id slot
    rw [ih hrest,now]
    by_cases hc : item.names owner id ∧ item.slot = slot
    · have gone : (b.at owner id).get slot = none := absent.resolve_right (not_not_intro hc)
      rw [if_pos hc,gone]
      simp only [Option.some.injEq,reduceCtorEq,false_or,mem_cons]
      constructor
      · rintro (rfl | hx)
        · exact ⟨.inl rfl,hc⟩
        · exact ⟨.inr hx.1,hx.2⟩
      · rintro ⟨rfl | hx,hn⟩
        · exact .inl rfl
        · exact .inr ⟨hx,hn⟩
    · rw [if_neg hc]
      simp only [mem_cons]
      constructor
      · rintro (hb | hx)
        · exact .inl hb
        · exact .inr ⟨.inr hx.1,hx.2⟩
      · rintro (hb | ⟨rfl | hx,hn⟩)
        · exact .inl hb
        · exact absurd hn hc
        · exact .inr ⟨hx,hn⟩

theorem resolutionBuckets_ok (h : resolutionBuckets resolutions = .ok buckets) :
    resolutions.foldlM addResolution Dict.empty = .ok buckets ∧
      ∀ p ∈ buckets.items,crowdedMatch p.2 = false := by
  unfold resolutionBuckets at h
  cases hf : resolutions.foldlM addResolution Dict.empty with
  | error e => simp [hf,bind,Except.bind] at h
  | ok b =>
    simp only [hf,bind,Except.bind] at h
    split at h <;> cases h
    rename_i none
    refine ⟨rfl,fun p hp => ?_⟩
    by_contra hc
    exact none (any_eq_true.2 ⟨p,hp,by simpa using hc⟩)

variable {owner : String} {id : Int}

theorem bucket_get (h : resolutionBuckets resolutions = .ok buckets)
    {slot : String} {x : TransferResolution} :
    (buckets.at owner id).get slot = some x ↔
      x ∈ resolutions ∧ x.names owner id ∧ x.slot = slot := by
  rw [at_foldlM (resolutionBuckets_ok h).1]
  simp [Buckets.at]

variable {field : String} {a b : Int}

theorem reassigned_bucket (h : resolutionBuckets resolutions = .ok buckets) {targetId : Int} :
    Reassigned resolutions owner id field targetId ↔
      ∃ x,(buckets.at owner id).get field = some x ∧ x.action = .reassign field targetId := by
  constructor
  · rintro ⟨x,hx,hn,ha⟩
    exact ⟨x,(bucket_get h).2 ⟨hx,hn,by simp [TransferResolution.slot,ha]⟩,ha⟩
  · rintro ⟨x,hx,ha⟩
    obtain ⟨hm,hn,-⟩ := (bucket_get h).1 hx
    exact ⟨x,hm,hn,ha⟩

theorem matched_bucket (h : resolutionBuckets resolutions = .ok buckets)
    {targetId : Int} :
    Matched resolutions owner id targetId ↔
      ((buckets.at owner id).get identitySlot).map TransferResolution.action =
        some (.matched targetId) := by
  constructor
  · rintro ⟨x,hx,hn,ha⟩
    rw [(bucket_get h).2 ⟨hx,hn,by simp [TransferResolution.slot,ha]⟩]
    simp [ha]
  · intro hm
    obtain ⟨x,hx,ha⟩ := Option.map_eq_some_iff.1 hm
    obtain ⟨mem,hn,-⟩ := (bucket_get h).1 hx
    exact ⟨x,mem,hn,ha⟩

theorem Reassigned.unique (h : resolutionBuckets resolutions = .ok buckets) (ha : Reassigned resolutions owner id field a)
    (hb : Reassigned resolutions owner id field b) : a = b := by
  obtain ⟨x,hx,hxa⟩ := (reassigned_bucket h).1 ha
  obtain ⟨y,hy,hyb⟩ := (reassigned_bucket h).1 hb
  rw [hx] at hy
  cases hy
  rw [hxa] at hyb
  cases hyb
  rfl

theorem Matched.unique (h : resolutionBuckets resolutions = .ok buckets) (ha : Matched resolutions owner id a) (hb : Matched resolutions owner id b) :
    a = b := by
  have hm := (matched_bucket h).1 ha
  rw [(matched_bucket h).1 hb] at hm
  cases hm
  rfl

theorem Matched.not_reassigned (h : resolutionBuckets resolutions = .ok buckets) (ha : Matched resolutions owner id a) :
    ¬Reassigned resolutions owner id field b := by
  intro hb
  obtain ⟨y,hy,hyb⟩ := (reassigned_bucket h).1 hb
  have hm := (matched_bucket h).1 ha
  obtain ⟨x,hx,hxa⟩ := Option.map_eq_some_iff.1 hm
  have bucket : Dict.get buckets (owner,id) = some (buckets.at owner id) := by
    cases hg : Dict.get buckets (owner,id) with
    | none => simp [Buckets.at,hg] at hx
    | some b => simp [Buckets.at,hg]
  have calm := (resolutionBuckets_ok h).2 _ (Dict.get_eq_some_iff.1 bucket)
  simp only [crowdedMatch,hm,decide_eq_false_iff_not,Nat.not_lt] at calm
  have mx := Dict.get_eq_some_iff.1 hx
  have my := Dict.get_eq_some_iff.1 hy
  have same : (identitySlot,x) = (field,y) := by
    cases hi : (buckets.at owner id).items with
    | nil => simp [hi] at mx
    | cons p ps =>
      have alone : ps = [] := by simpa [hi] using calm
      rw [hi,alone,mem_singleton] at mx my
      rw [mx,my]
  cases same
  rw [hxa] at hyb
  cases hyb

theorem onlyReassigned_bucket (h : resolutionBuckets resolutions = .ok buckets) (owner : String)
    (id : Int) :
    onlyReassigned resolutions owner id = true ↔
      (buckets.at owner id).get identitySlot = none ∧ 0 < (buckets.at owner id).items.length := by
  have free : (∀ item ∈ resolutions,item.names owner id → item.slot ≠ identitySlot) ↔
      (buckets.at owner id).get identitySlot = none := by
    constructor
    · intro hf
      cases hg : (buckets.at owner id).get identitySlot with
      | none => rfl
      | some x =>
        obtain ⟨hx,hn,hs⟩ := (bucket_get h).1 hg
        exact absurd hs (hf x hx hn)
    · intro hg item hi hn hs
      rw [(bucket_get h).2 ⟨hi,hn,hs⟩] at hg
      cases hg
  have some : (∃ item ∈ resolutions,item.names owner id) ↔
      0 < (buckets.at owner id).items.length := by
    constructor
    · rintro ⟨item,hi,hn⟩
      exact length_pos_of_mem (Dict.get_eq_some_iff.1 ((bucket_get h).2 ⟨hi,hn,rfl⟩))
    · intro hl
      obtain ⟨p,hp⟩ := exists_mem_of_length_pos hl
      obtain ⟨hx,hn,-⟩ := (bucket_get h).1 (Dict.get_eq_some_iff.2 hp)
      exact ⟨p.2,hx,hn⟩
  simp only [onlyReassigned,Bool.and_eq_true,any_eq_true,all_eq_true,decide_eq_true_eq, free,some]
  exact and_comm

end Buckets

/-! The overrides of one record. -/

section Overrides

variable {inv : Inventory} {owner : Owner} {row : Record}

variable {overrides : Overrides}

theorem addOverride_ok {overrides' : Overrides} {e : String × TransferResolution}
    (h : addOverride inv owner row overrides e = .ok overrides') (free : e.1 ≠ identitySlot)
    (slot : e.2.slot = e.1) :
    ∃ targetId,e.2.action = .reassign e.1 targetId ∧ overrides' = overrides.set e.1 targetId := by
  unfold addOverride at h
  rw [if_neg free] at h
  cases ha : e.2.action with
  | matched targetId | rename newValue => simp [ha] at h
  | reassign field targetId =>
    have hf : field = e.1 := by simpa [TransferResolution.slot,ha] using slot
    subst hf
    refine ⟨targetId,rfl,?_⟩
    simp only [ha] at h
    cases ht : referenceTargetType owner e.1 row with
    | error err => simp [ht,bind,Except.bind] at h
    | ok target =>
      simp only [ht,bind,Except.bind] at h
      split at h <;> cases h
      rfl

theorem foldlM_addOverride {l : List (String × TransferResolution)} {d : Overrides}
    (h : l.foldlM (addOverride inv owner row) d = .ok overrides)
    (free : ∀ e ∈ l,e.1 ≠ identitySlot) (slots : ∀ e ∈ l,e.2.slot = e.1)
    (nodup : (l.map Prod.fst).Nodup) (field : String) (targetId : Int) :
    overrides.get field = some targetId ↔
      (∃ x,(field,x) ∈ l ∧ x.action = .reassign field targetId) ∨
        (∀ x,(field,x) ∉ l) ∧ d.get field = some targetId := by
  induction l generalizing d with
  | nil =>
    cases h
    simp
  | cons e rest ih =>
    obtain ⟨m,hm,hrest⟩ := foldlM_cons_ok.1 h
    obtain ⟨mine,ha,rfl⟩ := addOverride_ok hm (free e (by simp)) (slots e (by simp))
    obtain ⟨new,nodup⟩ := nodup_cons.1 nodup
    rw [ih hrest (fun e he => free e (by simp [he])) (fun e he => slots e (by simp [he])) nodup,
      Dict.get_set]
    by_cases hf : field = e.1
    · subst hf
      have absent : ∀ x,(e.1,x) ∉ rest := fun x hx => new (mem_map.2 ⟨_,hx,rfl⟩)
      have here : ∀ x,(e.1,x) ∈ e::rest ↔ x = e.2 := fun x => by
        rw [mem_cons,or_iff_left (absent x),Prod.ext_iff]
        exact and_iff_right rfl
      rw [if_pos rfl]
      constructor
      · rintro (⟨x,hx,-⟩ | ⟨-,ht⟩)
        · exact absurd hx (absent x)
        · exact .inl ⟨e.2,(here e.2).2 rfl,by rw [ha,Option.some.inj ht]⟩
      · rintro (⟨x,hx,hxa⟩ | ⟨none,-⟩)
        · rw [(here x).1 hx,ha] at hxa
          cases hxa
          exact .inr ⟨absent,rfl⟩
        · exact absurd ((here e.2).2 rfl) (none e.2)
    · have same : ∀ x,(field,x) ∈ e::rest ↔ (field,x) ∈ rest := fun x => by
        simp [Prod.ext_iff,hf]
      simp only [same,if_neg hf]

theorem reassignOverrides_get (owner : Owner) {resolutions : List TransferResolution}
    {buckets : Buckets} {id : Int} (hb : resolutionBuckets resolutions = .ok buckets)
    (h : reassignOverrides inv owner row (buckets.at owner.name id) = .ok overrides)
    (free : (buckets.at owner.name id).get identitySlot = none) (field : String) (targetId : Int) :
    overrides.get field = some targetId ↔
      Reassigned resolutions owner.name id field targetId := by
  have slots : ∀ e ∈ (buckets.at owner.name id).items,e.2.slot = e.1 := fun e he =>
    ((bucket_get hb).1 (Dict.get_eq_some_iff.2 he)).2.2
  have clear : ∀ e ∈ (buckets.at owner.name id).items,e.1 ≠ identitySlot := fun e he hs =>
    Dict.get_eq_none_iff.1 free e.2 (hs ▸ he)
  rw [foldlM_addOverride h clear slots (Dict.nodup _),reassigned_bucket hb]
  simp [Dict.get_eq_some_iff]

end Overrides

/-! The overrides of a section. -/

section Gathered

variable {resolutions : List TransferResolution} {owner : String} {ids : List Int}
  {d : Dict Int Overrides}

/-- The overrides of the records that have reassign decisions only, in the order of the section. -/
structure Gathered (resolutions : List TransferResolution) (owner : String) (ids : List Int)
    (d : Dict Int Overrides) : Prop where
  keys : d.items.map Prod.fst = ids.filter (onlyReassigned resolutions owner)
  targets : ∀ id overrides,d.get id = some overrides → ∀ field targetId,
    overrides.get field = some targetId ↔ Reassigned resolutions owner id field targetId

theorem gathered_nil : Gathered resolutions owner [] Dict.empty where
  keys := rfl
  targets := fun _ _ h => by cases h

theorem Gathered.skip (h : Gathered resolutions owner ids d) {id : Int}
    (plain : onlyReassigned resolutions owner id = false) :
    Gathered resolutions owner (ids++[id]) d where
  keys := by simp [h.keys,plain]
  targets := h.targets

theorem Gathered.take (h : Gathered resolutions owner ids d) {id : Int} {overrides : Overrides}
    (new : id ∉ ids) (only : onlyReassigned resolutions owner id = true)
    (targets : ∀ field targetId,overrides.get field = some targetId ↔
      Reassigned resolutions owner id field targetId) :
    Gathered resolutions owner (ids++[id]) (d.set id overrides) where
  keys := by
    have absent : d.get id = none := Dict.get_eq_none_iff.2 fun v hv => by
      have hk := mem_map_of_mem (f := Prod.fst) hv
      rw [h.keys] at hk
      exact new (mem_filter.1 hk).1
    simp [Dict.items_set_new overrides absent,h.keys,only]
  targets := fun id' overrides' hg => by
    rw [Dict.get_set] at hg
    split at hg
    · rename_i he
      cases hg
      rw [he]
      exact targets
    · exact h.targets id' overrides' hg

theorem Gathered.get_isSome (h : Gathered resolutions owner ids d) {id : Int} :
    (∃ overrides,d.get id = some overrides) ↔
      id ∈ ids ∧ onlyReassigned resolutions owner id = true := by
  rw [←mem_filter,←h.keys,mem_map]
  constructor
  · rintro ⟨overrides,hg⟩
    exact ⟨(id,overrides),Dict.get_eq_some_iff.1 hg,rfl⟩
  · rintro ⟨⟨a,overrides⟩,hp,rfl⟩
    exact ⟨overrides,Dict.get_eq_some_iff.2 hp⟩

theorem Gathered.last (h : Gathered resolutions owner ids d) :
    lastReassigned resolutions owner ids = d.items.getLast?.map Prod.fst := by
  rw [lastReassigned,←h.keys,getLast?_map]

end Gathered

section Json

variable {κ : Type} [DecidableEq κ]

theorem overridesJson_get (table : Dict κ (Dict Int Overrides)) (k : κ) :
    (overridesJson table).get k = ((table.get k).bind fun d => d.items.getLast?).map
        fun q => Dict.ofPairs [(toString q.1,q.2)] := by
  obtain ⟨items,nodup⟩ := table
  rw [overridesJson,Dict.get_ofPairs]
  simp only [Dict.get]
  induction items with
  | nil => rfl
  | cons p ps ih =>
    obtain ⟨new,nodup⟩ := nodup_cons.1 nodup
    rw [flatMap_cons,filter_append,find?_cons]
    by_cases hk : p.1 = k
    · have rest : (ps.flatMap fun p => p.2.items.map fun q =>
          (p.1,(Dict.ofPairs [(toString q.1,q.2)] : Dict String Overrides))).filter (·.1 = k) = [] := by
        rw [filter_eq_nil_iff]
        intro x hx
        obtain ⟨q,hq,hx⟩ := mem_flatMap.1 hx
        obtain ⟨y,-,rfl⟩ := mem_map.1 hx
        simp only [decide_eq_true_eq]
        exact fun he => new (hk ▸ he ▸ mem_map_of_mem hq)
      have mine : (p.2.items.map fun q =>
          (p.1,(Dict.ofPairs [(toString q.1,q.2)] : Dict String Overrides))).filter (·.1 = k) =
          p.2.items.map fun q => (p.1,Dict.ofPairs [(toString q.1,q.2)]) := by
        rw [filter_eq_self]
        intro x hx
        obtain ⟨y,-,rfl⟩ := mem_map.1 hx
        simpa using hk
      rw [rest,mine,append_nil]
      simp [hk,getLast?_map,Function.comp_def]
    · have mine : (p.2.items.map fun q =>
          (p.1,(Dict.ofPairs [(toString q.1,q.2)] : Dict String Overrides))).filter (·.1 = k) = [] := by
        rw [filter_eq_nil_iff]
        intro x hx
        obtain ⟨y,-,rfl⟩ := mem_map.1 hx
        simpa using hk
      rw [mine,nil_append,ih nodup]
      simp [hk]

theorem overridesOfJson_get (table : Dict κ (Dict Int Overrides)) (k : κ) (id : Int)
    (overrides : Overrides) :
    (overridesOfJson (overridesJson table) k).get id = some overrides ↔
      ((table.get k).bind fun d => d.items.getLast?) = some (id,overrides) := by
  rw [overridesOfJson,overridesJson_get]
  cases (table.get k).bind fun d => d.items.getLast? with
  | none => exact iff_of_false nofun nofun
  | some q =>
    have items : (Dict.ofPairs [(toString q.1,q.2)]).items = [(toString q.1,q.2)] :=
      Dict.items_ofPairs (by simp)
    have back : (toString q.1).toInt? = some q.1 := Int.toInt?_repr q.1
    simp only [Option.map_some,Option.getD_some,items,filterMap_cons,back,
      filterMap_nil,Option.some.injEq]
    rw [Dict.get_ofPairs_iff (by simp),mem_singleton,eq_comm]

theorem stored_overrides {resolutions : List TransferResolution} {owner : String} {ids : List Int}
    {table : Dict κ (Dict Int Overrides)} {k : κ} {d : Dict Int Overrides}
    (hk : table.get k = some d) (h : Gathered resolutions owner ids d) (id : Int) (field : String)
    (targetId : Int) :
    (((overridesOfJson (overridesJson table) k).get id).getD .empty).get field = some targetId ↔
      Reassigned resolutions owner id field targetId ∧
        lastReassigned resolutions owner ids = some id := by
  rw [h.last]
  cases hg : (overridesOfJson (overridesJson table) k).get id with
  | some overrides =>
    have last := (overridesOfJson_get table k id overrides).1 hg
    rw [hk,Option.bind_some] at last
    have got : d.get id = some overrides := Dict.get_eq_some_iff.2 (mem_of_getLast? last)
    simp [last,h.targets id overrides got]
  | none =>
    constructor
    · intro hn
      cases hn
    · rintro ⟨-,hl⟩
      obtain ⟨⟨a,overrides⟩,hq,rfl⟩ := Option.map_eq_some_iff.1 hl
      have found := (overridesOfJson_get table k a overrides).2 (by rw [hk]; exact hq)
      rw [hg] at found
      cases found

end Json

/-! What parsing has checked. -/

theorem foldlM_validateRow {group : String} {allowed : List String} {rows : List Record}
    {seen seen' : List Int} (h : rows.foldlM (validateRow true group allowed) seen = .ok seen')
    (nodup : seen.Nodup) : seen' = (rows.map sourceId).reverse++seen ∧ seen'.Nodup := by
  induction rows generalizing seen with
  | nil =>
    cases h
    exact ⟨rfl,nodup⟩
  | cons row rows ih =>
    obtain ⟨m,hm,rest⟩ := foldlM_cons_ok.1 h
    unfold validateRow at hm
    simp only [if_true] at hm
    split at hm
    · cases hm
    · split at hm
      · rename_i n hn
        split at hm <;> cases hm
        rename_i new
        have id : sourceId row = n := by simp [sourceId,hn]
        obtain ⟨same,all⟩ := ih rest (nodup_cons.2 ⟨fun hs => new (.inr hs),nodup⟩)
        exact ⟨by rw [same,map_cons,reverse_cons,append_assoc,id]; rfl,all⟩
      · cases hm

theorem Document.ids_nodup (doc : Document) (t : EntityType) : (doc.ids t).Nodup := by
  unfold Document.ids Document.rows
  cases hg : doc.entities.get t with
  | none => exact nodup_nil
  | some rows =>
    obtain ⟨m,m',hm⟩ := foldlM_ok_mem doc.entitiesValid (Dict.get_eq_some_iff.1 hg)
    simp only at hm
    cases hr : rows.foldlM (validateRow true t.name (entityFields t)) [] with
    | error e => simp [hr,bind,Except.bind] at hm
    | ok seen =>
      obtain ⟨same,nodup⟩ := foldlM_validateRow hr nodup_nil
      rw [same,append_nil,nodup_reverse] at nodup
      exact nodup

/-! Planning the records of a type. -/

section Rows

variable {py : Runtime} {inv : Inventory} {buckets : Buckets} {t : EntityType}
  {resolutions : List TransferResolution}

def decided (t : EntityType) (bucket : Bucket) : MappingAction :=
  match (bucket.get identitySlot).map TransferResolution.action with
  | some (.matched targetId) => .matched targetId
  | some (.rename newValue) => .create [((uniqueField t).getD "",newValue)]
  | _ => .create []

def Plans (plan plan' : TypePlan) (id : Int) (action : MappingAction) : Prop :=
  plan'.refOverrides = plan.refOverrides ∧
    (plan'.conflicts = [] → plan.conflicts = [] ∧ plan'.mappings = plan.mappings++[⟨id,action⟩])

theorem plans_conflict (plan : TypePlan) (c : Conflict) (id : Int) (action : MappingAction) :
    Plans plan (plan.conflict c) id action :=
  ⟨rfl,fun h => absurd h (by simp [TypePlan.conflict])⟩

theorem plans_create (plan : TypePlan) (claimed : List Value) (id : Int)
    (overrides : List (String × String)) :
    Plans plan ({plan with claimed := claimed}.create id overrides) id (.create overrides) :=
  ⟨rfl,fun h => ⟨h,rfl⟩⟩

theorem planMatch_plans (plan : TypePlan) (id targetId : Int) :
    Plans plan (planMatch inv t id targetId plan) id (.matched targetId) := by
  unfold planMatch
  split
  · exact ⟨rfl,fun h => ⟨h,rfl⟩⟩
  · exact plans_conflict _ _ _ _

variable {plan : TypePlan}

variable {plan' : TypePlan} {row : Record}

theorem planRename_plans {id : Int} {newValue : String}
    (h : planRename py inv t id newValue plan = .ok plan') :
    Plans plan plan' id (.create [((uniqueField t).getD "",newValue)]) := by
  unfold planRename at h
  cases hu : uniqueField t with
  | none => simp [hu] at h
  | some unique =>
    simp only [hu] at h
    split at h
    · cases h
    · split at h <;> cases h
      exact plans_create plan _ id _

theorem planIncoming_plans (h : planIncoming py inv t row plan = .ok plan') :
    Plans plan plan' (sourceId row) (.create []) := by
  unfold planIncoming at h
  split at h
  · cases h
    exact plans_create plan plan.claimed _ _
  · split at h
    · cases h
      exact plans_create plan plan.claimed _ _
    · cases h
      exact plans_create plan plan.claimed _ _
    · unfold planUnique at h
      split at h
      · cases h
      · simp only at h
        split at h
        · cases h
          exact plans_conflict _ _ _ _
        · split at h
          · cases h
          · split at h
            · cases h
              exact plans_conflict _ _ _ _
            · cases h
              exact plans_create plan _ _ _

theorem planRow_plans (h : planRow py inv buckets t plan row = .ok plan') :
    ∃ mid,planReassigns inv t row (buckets.at t.name (sourceId row)) plan = .ok mid ∧
      Plans mid plan' (sourceId row) (decided t (buckets.at t.name (sourceId row))) := by
  unfold planRow at h
  simp only at h
  cases hr : planReassigns inv t row (buckets.at t.name (sourceId row)) plan with
  | error e => simp [hr,bind,Except.bind] at h
  | ok mid =>
    refine ⟨mid,rfl,?_⟩
    simp only [hr,bind,Except.bind] at h
    unfold decided
    generalize ((buckets.at t.name (sourceId row)).get identitySlot).map TransferResolution.action =
      decision at h ⊢
    cases decision with
    | none => exact planIncoming_plans h
    | some action =>
      cases action with
      | matched targetId =>
        cases h
        exact planMatch_plans mid _ _
      | rename newValue => exact planRename_plans h
      | reassign _ _ => exact planIncoming_plans h

theorem planReassigns_gathers (hb : resolutionBuckets resolutions = .ok buckets)
    {mid : TypePlan} {ids : List Int}
    (h : planReassigns inv t row (buckets.at t.name (sourceId row)) plan = .ok mid)
    (g : Gathered resolutions t.name ids plan.refOverrides) (new : sourceId row ∉ ids) :
    mid.conflicts = plan.conflicts ∧ mid.mappings = plan.mappings ∧
      Gathered resolutions t.name (ids++[sourceId row]) mid.refOverrides := by
  unfold planReassigns at h
  by_cases only : onlyReassigned resolutions t.name (sourceId row) = true
  · have bucket := (onlyReassigned_bucket hb t.name (sourceId row)).1 only
    rw [if_pos bucket] at h
    cases ho : reassignOverrides inv (.entity t) row (buckets.at t.name (sourceId row)) with
    | error e => simp [ho,bind,Except.bind] at h
    | ok overrides =>
      simp only [ho,bind,Except.bind] at h
      cases h
      have targets := reassignOverrides_get (.entity t) hb ho bucket.1
      exact ⟨rfl,rfl,g.take new only targets⟩
  · rw [if_neg (mt (onlyReassigned_bucket hb t.name (sourceId row)).2 only)] at h
    cases h
    exact ⟨rfl,rfl,g.skip (by simpa using only)⟩

theorem planRows_gathers (hb : resolutionBuckets resolutions = .ok buckets) {rows : List Record} (h : planRows py inv buckets t rows = .ok plan)
    (nodup : (rows.map sourceId).Nodup) :
    Gathered resolutions t.name (rows.map sourceId) plan.refOverrides ∧
      (plan.conflicts = [] → plan.mappings = rows.map fun row =>
        ⟨sourceId row,decided t (buckets.at t.name (sourceId row))⟩) := by
  unfold planRows at h
  induction rows using List.reverseRecOn generalizing plan with
  | nil =>
    cases h
    exact ⟨gathered_nil,fun _ => rfl⟩
  | append_singleton rows row ih =>
    obtain ⟨m,hm,hrow⟩ := foldlM_append_ok.1 h
    obtain ⟨m',hrow,hlast⟩ := foldlM_cons_ok.1 hrow
    cases hlast
    rw [map_append,nodup_append] at nodup
    obtain ⟨before,made⟩ := ih hm nodup.1
    have new : sourceId row ∉ rows.map sourceId := fun hr =>
      nodup.2.2 _ hr (sourceId row) (by simp) rfl
    obtain ⟨mid,hmid,same,planned⟩ := planRow_plans hrow
    obtain ⟨conflicts,mappings,now⟩ := planReassigns_gathers hb hmid before new
    refine ⟨?_,fun clear => ?_⟩
    · rw [map_append,same]
      exact now
    · obtain ⟨hc,hmap⟩ := planned clear
      rw [hmap,mappings,made (conflicts ▸ hc),map_append]
      rfl

end Rows

/-! The references. -/

/-- A reference that is missing, null, or to a record of the document. -/
def Known (doc : Document) (target : EntityType) (value : Option Value) : Prop :=
  ∀ v,value = some v → v ≠ .null → ∃ n,v.asInt = some n ∧ n ∈ doc.ids target

variable {doc : Document}

theorem requireRef_eq_nil {owner : Owner} {ownerId : Int} {field : String}
    {target : EntityType} {value : Option Value} {overrides : Overrides}
    (h : requireRef doc.ids owner ownerId field target value overrides = [])
    (free : overrides.get field = none) : Known doc target value := by
  intro v hv nonNull
  subst hv
  unfold requireRef at h
  split at h
  · rename_i he
    cases he
  · rename_i he
    cases he
    exact absurd rfl nonNull
  · rename_i w _ he
    cases he
    split at h
    · rename_i found
      rw [Dict.contains,free] at found
      obtain ⟨n,hn,hm⟩ := (Option.any_eq_true _ _).1 (found.resolve_left (by simp))
      exact ⟨n,hn,by simpa using hm⟩
    · cases h

def linkRefs (r : RelationType) (row : Record) : List (String × EntityType) :=
  match attachmentField r with
  | some attached => ((attachmentType row).map (("entity_id",·))).toList++[attached]
  | none => relationRefs r

theorem relationConflicts_eq_nil {r : RelationType} {index : Int} {row : Record}
    {overrides : Overrides} (h : relationConflicts doc.ids r index row overrides = []) :
    (attachmentField r ≠ none → attachmentType row ≠ none) ∧
      ∀ ref ∈ linkRefs r row,overrides.get ref.1 = none → Known doc ref.2 (row.get ref.1) := by
  unfold relationConflicts at h
  unfold linkRefs
  cases ha : attachmentField r with
  | none =>
    simp only [ha] at h
    refine ⟨fun hn => absurd rfl hn,fun ref hr free => ?_⟩
    exact requireRef_eq_nil (flatMap_eq_nil_iff.1 h ref hr) free
  | some attached =>
    simp only [ha,append_eq_nil_iff] at h
    cases ht : attachmentType row with
    | none => simp [ht] at h
    | some target =>
      simp only [ht] at h
      refine ⟨fun _ => by simp,fun ref hr free => ?_⟩
      simp only [Option.map_some,Option.toList_some,singleton_append,mem_cons,
        not_mem_nil,or_false] at hr
      obtain rfl | rfl := hr
      · exact requireRef_eq_nil h.1 free
      · exact requireRef_eq_nil h.2 free

/-! Planning the records of a relationship section. -/

section Relations

variable {inv : Inventory} {buckets : Buckets} {r : RelationType} {doc : Document}
  {resolutions : List TransferResolution}

/-- What the planner found for one relationship record. -/
def Checked (doc : Document) (resolutions : List TransferResolution) (r : RelationType)
    (entry : Int × Record) : Prop :=
  (attachmentField r ≠ none → attachmentType entry.2 ≠ none) ∧
    ∀ ref ∈ linkRefs r entry.2,(∀ targetId,¬Reassigned resolutions r.name entry.1 ref.1 targetId) →
      Known doc ref.2 (entry.2.get ref.1)

theorem planRelation_gathers (hb : resolutionBuckets resolutions = .ok buckets)
    {plan plan' : RelationPlan} {entry : Int × Record} {ids : List Int}
    (h : planRelation inv buckets doc.ids r plan entry = .ok plan')
    (g : Gathered resolutions r.name ids plan.overrides) (new : entry.1 ∉ ids) :
    Gathered resolutions r.name (ids++[entry.1]) plan'.overrides ∧
      (plan'.conflicts = [] → plan.conflicts = [] ∧ Checked doc resolutions r entry) := by
  unfold planRelation at h
  simp only at h
  split at h
  · cases h
  · rename_i free
    have free : (buckets.at r.name entry.1).get identitySlot = none := not_not.1 free
    simp only [bind,Except.bind,pure,Except.pure] at h
    split at h
    · rename_i some
      have only := (onlyReassigned_bucket hb r.name entry.1).2 ⟨free,some⟩
      cases ho : reassignOverrides inv (.relation r) entry.2 (buckets.at r.name entry.1) with
      | error e => simp [ho] at h
      | ok overrides =>
        simp only [ho] at h
        cases h
        have targets := reassignOverrides_get (.relation r) hb ho free
        refine ⟨g.take new only targets,fun clear => ?_⟩
        obtain ⟨before,mine⟩ := append_eq_nil_iff.1 clear
        rw [Dict.get_set_self,Option.getD_some] at mine
        obtain ⟨portable,known⟩ := relationConflicts_eq_nil mine
        refine ⟨before,portable,fun ref hr never => known ref hr ?_⟩
        cases hg : overrides.get ref.1 with
        | none => rfl
        | some targetId => exact absurd ((targets ref.1 targetId).1 hg) (never targetId)
    · rename_i empty
      cases h
      have plain : onlyReassigned resolutions r.name entry.1 = false := by
        rw [←Bool.not_eq_true,onlyReassigned_bucket hb]
        exact fun hc => empty hc.2
      refine ⟨g.skip plain,fun clear => ?_⟩
      obtain ⟨before,mine⟩ := append_eq_nil_iff.1 clear
      have absent : plan.overrides.get entry.1 = none := by
        cases hg : plan.overrides.get entry.1 with
        | none => rfl
        | some overrides => exact absurd (g.get_isSome.1 ⟨overrides,hg⟩).1 new
      rw [absent,Option.getD_none] at mine
      obtain ⟨portable,known⟩ := relationConflicts_eq_nil mine
      exact ⟨before,portable,fun ref hr _ => known ref hr rfl⟩

theorem numbered_nodup (rows : List Record) : ((numbered rows).map Prod.fst).Nodup := by
  have keys : (numbered rows).map Prod.fst = (List.range' 0 rows.length).map
      fun n : Nat => (n : Int)+1 := by
    rw [numbered,map_map,←zipIdx_map_snd 0 rows,map_map]
    rfl
  rw [keys]
  exact List.Nodup.map (fun a b h => by simpa using h) (nodup_range' _)

theorem foldlM_planRelation (hb : resolutionBuckets resolutions = .ok buckets)
    {entries : List (Int × Record)} {plan : RelationPlan}
    (h : entries.foldlM (planRelation inv buckets doc.ids r) {} = .ok plan)
    (nodup : (entries.map Prod.fst).Nodup) :
    Gathered resolutions r.name (entries.map Prod.fst) plan.overrides ∧
      (plan.conflicts = [] → ∀ entry ∈ entries,Checked doc resolutions r entry) := by
  induction entries using List.reverseRecOn generalizing plan with
  | nil =>
    cases h
    exact ⟨gathered_nil,nofun⟩
  | append_singleton entries entry ih =>
    obtain ⟨m,hm,hentry⟩ := foldlM_append_ok.1 h
    obtain ⟨m',hentry,hlast⟩ := foldlM_cons_ok.1 hentry
    cases hlast
    rw [map_append,nodup_append] at nodup
    obtain ⟨before,checked⟩ := ih hm nodup.1
    have new : entry.1 ∉ entries.map Prod.fst := fun he =>
      nodup.2.2 _ he entry.1 (by simp) rfl
    obtain ⟨now,mine⟩ := planRelation_gathers hb hentry before new
    refine ⟨by rw [map_append]; exact now,fun clear other ho => ?_⟩
    obtain ⟨hc,last⟩ := mine clear
    obtain ho | ho := mem_append.1 ho
    · exact checked hc other ho
    · rw [mem_singleton.1 ho]
      exact last

end Relations

/-! The plan as a whole. -/

theorem mapValues_ok {κ α β ε : Type} [DecidableEq κ] {d : Dict κ α} {f : κ → α → Except ε β}
    {e : Dict κ β} (h : mapValues d f = .ok e) {k : κ} {a : α} (ha : d.get k = some a) :
    ∃ b,f k a = .ok b ∧ e.get k = some b := by
  unfold mapValues at h
  cases hm : d.items.mapM fun p => (p.1,·) <$> f p.1 p.2 with rw [hm] at h
  | error err =>
    cases h
  | ok pairs =>
    cases h
    have parts : List.Forall₂ (fun p q => q.1 = p.1 ∧ f p.1 p.2 = .ok q.2) d.items pairs :=
      (mapM_ok.1 hm).imp fun p q hq => by
        cases hf : f p.1 p.2 with
        | error err =>
          rw [hf] at hq
          cases hq
        | ok b =>
          rw [hf] at hq
          cases hq
          exact ⟨rfl,rfl⟩
    have keys : pairs.map Prod.fst = d.items.map Prod.fst := by
      have same := forall₂_map_left_iff.2 (forall₂_map_right_iff.2
        (parts.imp fun p q hq => (hq.1.symm : Prod.fst p = Prod.fst q)))
      exact (forall₂_eq_eq_eq ▸ same : _ = _).symm
    obtain ⟨⟨k',b⟩,hq,hk,hf⟩ := forall₂_mem parts (Dict.get_eq_some_iff.1 ha)
    obtain rfl : k' = k := hk
    exact ⟨b,hf,(Dict.get_ofPairs_iff (keys ▸ d.nodup)).2 hq⟩

/-- What the planner settled for an entity record. -/
def Settled (resolutions : List TransferResolution) (t : EntityType) (id : Int) (m : Mapping) :
    Prop :=
  (∃ targetId,m.action = .matched targetId ∧ Matched resolutions t.name id targetId) ∨
    ∃ renamed,m.action = .create renamed ∧ (∀ targetId,¬Matched resolutions t.name id targetId) ∧
      ∀ p ∈ renamed,∀ ref ∈ internalRefs t,p.1 ≠ ref.1

theorem uniqueField_ne_ref (t : EntityType) (ref : String × EntityType) (h : ref ∈ internalRefs t) :
    (uniqueField t).getD "" ≠ ref.1 := by
  cases t <;> simp only [internalRefs,mem_cons,not_mem_nil,or_false] at h
  case services =>
    obtain rfl | rfl := h <;> decide
  all_goals
    subst h
    decide

theorem decided_settled {resolutions : List TransferResolution} {buckets : Buckets}
    (hb : resolutionBuckets resolutions = .ok buckets) (t : EntityType) (id : Int) :
    Settled resolutions t id ⟨id,decided t (buckets.at t.name id)⟩ := by
  unfold Settled decided
  split
  · rename_i targetId hi
    exact .inl ⟨targetId,rfl,(matched_bucket hb).2 hi⟩
  · rename_i newValue hi
    refine .inr ⟨_,rfl,fun targetId hm => ?_,fun p hp ref hr => ?_⟩
    · rw [matched_bucket hb,hi] at hm
      cases hm
    · rw [mem_singleton.1 hp]
      exact uniqueField_ne_ref t ref hr
  · rename_i notMatched _
    refine .inr ⟨_,rfl,fun targetId hm => notMatched targetId ((matched_bucket hb).1 hm),?_⟩
    exact nofun

/-- An accepted plan without conflicts, said of the document and the decisions. -/
structure Planned (doc : Document) (resolutions : List TransferResolution) (plan : PlanJson) :
    Prop where
  buckets : ∃ b,resolutionBuckets resolutions = .ok b
  clear : plan.conflictCount = 0
  actions : ∀ t,∀ row ∈ doc.rows t,∃ m,(actionsOf plan t).get (sourceId row) = some m ∧
    Settled resolutions t (sourceId row) m
  refOverrides : ∀ t,∀ row ∈ doc.rows t,∀ field targetId,
    (((overridesOfJson plan.refOverrides t).get (sourceId row)).getD .empty).get field =
        some targetId ↔
      Reassigned resolutions t.name (sourceId row) field targetId ∧
        lastReassigned resolutions t.name (doc.ids t) = some (sourceId row)
  refs : ∀ t,∀ row ∈ doc.rows t,∀ ref ∈ internalRefs t,
    (∀ targetId,¬Reassigned resolutions t.name (sourceId row) ref.1 targetId) →
      Known doc ref.2 (row.get ref.1)
  relationOverrides : ∀ r rows,(r,rows) ∈ doc.relationships.items → ∀ index field targetId,
    (((overridesOfJson plan.relationOverrides r).get index).getD .empty).get field = some targetId ↔
      Reassigned resolutions r.name index field targetId ∧
        lastReassigned resolutions r.name ((numbered rows).map Prod.fst) = some index
  relations : ∀ r rows,(r,rows) ∈ doc.relationships.items → ∀ entry ∈ numbered rows,
    Checked doc resolutions r entry

theorem Document.get_of_mem_rows {t : EntityType} {row : Record}
    (h : row ∈ doc.rows t) : doc.entities.get t = some (doc.rows t) := by
  unfold Document.rows at h ⊢
  cases hg : doc.entities.get t with
  | none => simp [hg] at h
  | some rows => rfl

theorem buildImportPlan_planned {py : Runtime} {inv : Inventory}
    {resolutions : List TransferResolution} {built : BuiltImportPlan}
    (h : buildImportPlan py inv doc resolutions = .ok built) (clear : built.conflicts = []) :
    built.inventoryDigest = inventoryFingerprint py inv ∧ Planned doc resolutions built.plan := by
  unfold buildImportPlan at h
  cases hb : resolutionBuckets resolutions with
  | error e => simp [hb,bind,Except.bind] at h
  | ok buckets =>
  cases hp : mapValues doc.entities (planRows py inv buckets) with
  | error e => simp [hb,hp,bind,Except.bind] at h
  | ok plans =>
  cases hr : mapValues doc.relationships (planRelations inv buckets doc.ids) with
  | error e =>
    have hr' : mapValues doc.relationships (planRelations inv buckets
        fun t => (doc.rows t).map sourceId) = .error e := hr
    simp [hb,hp,hr',bind,Except.bind] at h
  | ok relations =>
  have hr' : mapValues doc.relationships (planRelations inv buckets
      fun t => (doc.rows t).map sourceId) = .ok relations := hr
  simp only [hb,hp,hr',bind,Except.bind,pure,Except.pure,Except.ok.injEq] at h
  subst h
  simp only [append_eq_nil_iff] at clear
  obtain ⟨⟨quiet,internal⟩,linked⟩ := clear
  have typed : ∀ t,∀ row ∈ doc.rows t,∃ plan,plans.get t = some plan ∧
      Gathered resolutions t.name (doc.ids t) plan.refOverrides ∧
      plan.mappings = (doc.rows t).map fun row =>
        ⟨sourceId row,decided t (buckets.at t.name (sourceId row))⟩ := fun t row hrow => by
    obtain ⟨plan,hplan,got⟩ := mapValues_ok hp (Document.get_of_mem_rows hrow)
    obtain ⟨gathered,mappings⟩ := planRows_gathers hb hplan (doc.ids_nodup t)
    exact ⟨plan,got,gathered,mappings
      (flatMap_eq_nil_iff.1 quiet (t,plan) (Dict.get_eq_some_iff.1 got))⟩
  have related : ∀ r rows,(r,rows) ∈ doc.relationships.items → ∃ plan, relations.get r = some plan ∧
      Gathered resolutions r.name ((numbered rows).map Prod.fst) plan.overrides ∧
      ∀ entry ∈ numbered rows,Checked doc resolutions r entry := fun r rows hrows => by
    obtain ⟨plan,hplan,got⟩ := mapValues_ok hr (Dict.get_eq_some_iff.2 hrows)
    obtain ⟨gathered,checked⟩ := foldlM_planRelation hb hplan (numbered_nodup rows)
    exact ⟨plan,got,gathered,checked
      (flatMap_eq_nil_iff.1 linked (r,plan) (Dict.get_eq_some_iff.1 got))⟩
  refine ⟨rfl,⟨buckets,hb⟩,?_,fun t row hrow => ?_,fun t row hrow field targetId => ?_,
    fun t row hrow ref href never => ?_,fun r rows hrows index field targetId => ?_,
    fun r rows hrows entry he => ?_⟩
  · simp only [quiet,internal,linked]
    rfl
  · obtain ⟨plan,got,-,mappings⟩ := typed t row hrow
    refine ⟨_,?_,decided_settled hb t (sourceId row)⟩
    have keys : (plan.mappings.map fun m => (m.sourceId,m)).map Prod.fst = doc.ids t := by
      rw [mappings,map_map,map_map]
      rfl
    rw [actionsOf,Dict.get_mapped,got,Option.map_some,Option.getD_some,
      Dict.get_ofPairs_iff (keys ▸ doc.ids_nodup t),mappings,map_map]
    exact mem_map.2 ⟨row,hrow,rfl⟩
  · obtain ⟨plan,got,gathered,-⟩ := typed t row hrow
    exact stored_overrides (by rw [Dict.get_mapped,got]; rfl) gathered _ field targetId
  · obtain ⟨plan,got,gathered,-⟩ := typed t row hrow
    have among : t ∈ internalRefTypes := by
      cases t <;> first | decide | cases href
    have mine := flatMap_eq_nil_iff.1
      (flatMap_eq_nil_iff.1 (flatMap_eq_nil_iff.1 internal t among) row hrow) ref href
    refine requireRef_eq_nil mine ?_
    rw [Dict.get_mapped,got,Option.map_some,Option.bind_some]
    cases hg : plan.refOverrides.get (sourceId row) with
    | none => rfl
    | some overrides =>
      rw [Option.getD_some]
      cases ho : overrides.get ref.1 with
      | none => rfl
      | some targetId =>
        exact absurd ((gathered.targets _ _ hg _ _).1 ho) (never targetId)
  · obtain ⟨plan,got,gathered,-⟩ := related r rows hrows
    exact stored_overrides (by rw [Dict.get_mapped,got]; rfl) gathered index field targetId
  · obtain ⟨plan,-,-,checked⟩ := related r rows hrows
    exact checked entry he

end CircuitBreaker.InventoryTransfer
