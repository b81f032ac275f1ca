import CircuitBreaker.InventoryPlanned


/-! Which of the operator's decisions an applied transfer honours. -/

namespace CircuitBreaker.InventoryTransfer
open List

/-- The local row a record of the document was matched or created as. -/
def LocalOf (resolutions : List TransferResolution) (rows : List CreatedRow) (target : EntityType)
    (n m : Int) : Prop :=
  Matched resolutions target.name n m ∨
    ∃ row ∈ rows,row.entityType = target ∧ row.sourceId = n ∧ row.id = m

/-- A reference points to the target the operator chose for it, and without such a choice
to what its source reference became. -/
structure PointsTo (doc : Document) (resolutions : List TransferResolution)
    (rows : List CreatedRow) (owner : String) (id : Int) (ref : String × EntityType)
    (source value : Option Value) : Prop where
  chosen : ∀ targetId,Reassigned resolutions owner id ref.1 targetId →
    value = some (.int targetId)
  followed : (∀ targetId,¬Reassigned resolutions owner id ref.1 targetId) →
    source.getD .null = .null ∧ value.getD .null = .null ∨
      ∃ v n m,source = some v ∧ v.asInt = some n ∧ n ∈ doc.ids ref.2 ∧
        LocalOf resolutions rows ref.2 n m ∧ value = some (.int m)

/-- Every record is matched or made, and every reference of what is made points where
the confirmed plan says. -/
structure Honoured (doc : Document) (resolutions : List TransferResolution)
    (result : TransferResult) : Prop where
  records : ∀ t,∀ row ∈ doc.rows t,(∃ targetId,Matched resolutions t.name (sourceId row) targetId) ∨
    ∃ made ∈ result.rows,made.entityType = t ∧ made.sourceId = sourceId row
  refs : ∀ made ∈ result.rows,∃ row ∈ doc.rows made.entityType,sourceId row = made.sourceId ∧
    ∀ ref ∈ internalRefs made.entityType,
      PointsTo doc resolutions result.rows made.entityType.name made.sourceId ref (row.get ref.1)
        (made.values.get ref.1)
  relations : ∀ r rows,(r,rows) ∈ doc.relationships.items → ∀ entry ∈ numbered rows,
    ∃ link ∈ result.links,link.relationType = r ∧ link.index = entry.1
  linkRefs : ∀ link ∈ result.links,∃ rows row,(link.relationType,rows) ∈ doc.relationships.items ∧
    (link.index,row) ∈ numbered rows ∧ ∀ ref ∈ linkRefs link.relationType row,
      PointsTo doc resolutions result.rows link.relationType.name link.index ref (row.get ref.1)
        (link.values.get ref.1)

/-- The source reference leads to the chosen target by itself, through a match. -/
def Coincides (py : Runtime) (doc : Document) (resolutions : List TransferResolution)
    (target : EntityType) (source : Option Value) (targetId : Int) : Prop :=
  ∃ v n,source = some v ∧ py.int v = some n ∧ n ∈ doc.ids target ∧
    Matched resolutions target.name n targetId

/-- The decisions the stored plan does not lose: a reassign decision belongs to the last
record of its section that has reassign decisions only, and the record has the field; or
its target is where the source reference leads anyway. An attachment carries the reference
fields nobody reassigned. -/
structure Effective (py : Runtime) (doc : Document) (resolutions : List TransferResolution) :
    Prop where
  refs : ∀ t,∀ row ∈ doc.rows t,∀ ref ∈ internalRefs t,∀ targetId,
    Reassigned resolutions t.name (sourceId row) ref.1 targetId →
      row.get ref.1 ≠ none ∧ lastReassigned resolutions t.name (doc.ids t) = some (sourceId row) ∨
        Coincides py doc resolutions ref.2 (row.get ref.1) targetId
  links : ∀ r rows,(r,rows) ∈ doc.relationships.items → ∀ entry ∈ numbered rows,
    ∀ ref ∈ linkRefs r entry.2,∀ targetId,
      Reassigned resolutions r.name entry.1 ref.1 targetId →
        lastReassigned resolutions r.name ((numbered rows).map Prod.fst) = some entry.1 ∨
          Coincides py doc resolutions ref.2 (entry.2.get ref.1) targetId
  attachments : ∀ r rows,(r,rows) ∈ doc.relationships.items → attachmentField r ≠ none →
    ∀ entry ∈ numbered rows,∀ ref ∈ linkRefs r entry.2,
      (∀ targetId,¬Reassigned resolutions r.name entry.1 ref.1 targetId) →
        entry.2.get ref.1 ≠ none

section

variable {py : Runtime} {inv : Inventory} {doc : Document} {plan : PlanJson}
  {resolutions : List TransferResolution} {db : Database inv}

/-! Where the code puts one reference. -/

/-- Where a reference went: to the override the stored plan has for it, or nowhere, or to
what its source reference became. -/
inductive Placed (py : Runtime) (doc : Document) (resolutions : List TransferResolution)
    (rows : List CreatedRow) (target : EntityType) (override : Option Int) :
    Option Value → Option Value → Prop
  | chosen {source : Option Value} {id : Int} (h : override = some id) :
      Placed py doc resolutions rows target override source (some (.int id))
  | blank {source value : Option Value} (h : override = none) (hs : source.getD .null = .null)
      (hv : value.getD .null = .null) :
      Placed py doc resolutions rows target override source value
  | followed {v : Value} {n m : Int} (h : override = none) (hn : py.int v = some n)
      (known : n ∈ doc.ids target) (found : LocalOf resolutions rows target n m) :
      Placed py doc resolutions rows target override (some v) (some (.int m))

variable {rows : List CreatedRow} {target : EntityType}

theorem LocalOf.mono {rows' : List CreatedRow} {n m : Int}
    (h : LocalOf resolutions rows target n m) (sub : rows ⊆ rows') :
    LocalOf resolutions rows' target n m :=
  h.imp id fun ⟨row,hr,found⟩ => ⟨row,sub hr,found⟩

variable {source : Option Value}

theorem Placed.mono {rows' : List CreatedRow} {override : Option Int}
    {value : Option Value} (h : Placed py doc resolutions rows target override source value)
    (sub : rows ⊆ rows') : Placed py doc resolutions rows' target override source value := by
  cases h with
  | chosen h => exact .chosen h
  | blank h hs hv => exact .blank h hs hv
  | followed h hn known found => exact .followed h hn known (found.mono sub)

theorem Placed.column {override : Option Int}
    {value : Option Value}
    (h : Placed py doc resolutions rows target override source value) :
    Placed py doc resolutions rows target override source (some (value.getD .null)) := by
  cases h with
  | chosen h => exact .chosen h
  | blank h hs hv => exact .blank h hs hv
  | followed h hn known found => exact .followed h hn known found

theorem int_of_asInt {v : Value} {n : Int} (h : v.asInt = some n) : py.int v = some n := by
  cases v <;> first | exact h | cases h

def Follows (py : Runtime) (doc : Document) (target : EntityType) (source : Option Value) : Prop :=
  ∀ v,source = some v → v ≠ .null → ∃ n,py.int v = some n ∧ n ∈ doc.ids target

theorem Known.follows
    (h : Known doc target source) : Follows py doc target source := fun v hv nonNull => by
  obtain ⟨n,hn,known⟩ := h v hv nonNull
  exact ⟨n,int_of_asInt hn,known⟩

theorem Coincides.follows {targetId : Int}
    (h : Coincides py doc resolutions target source targetId) : Follows py doc target source := by
  obtain ⟨v,n,rfl,hn,known,-⟩ := h
  intro w hw _
  cases hw
  exact ⟨n,hn,known⟩

/-- An error of the code's own, in a transfer that does not meet `P`. -/
def Misses (P : Prop) (e : ApplyError) : Prop := ¬P ∧ e ≠ .integrity

def Database.Lenient (db : Database inv) : Prop :=
  (∀ rows t values,db.accepts rows t values = true) ∧ ∀ rows links,db.acceptsLinks rows links = true

def Refuses (P : Prop) (db : Database inv) (e : ApplyError) : Prop :=
  Misses P e ∨ e = .integrity ∧ ¬db.Lenient

/-- The mapping leads from records of the document to their local rows. -/
def Leads (doc : Document) (resolutions : List TransferResolution) (rows : List CreatedRow)
    (mapping : EntityType → Dict Int Int) : Prop :=
  ∀ t n m,(mapping t).get n = some m → n ∈ doc.ids t ∧ LocalOf resolutions rows t n m

def Complete (doc : Document) (mapping : EntityType → Dict Int Int) (t : EntityType) : Prop :=
  ∀ n ∈ doc.ids t,∃ m,(mapping t).get n = some m

variable {mapping : EntityType → Dict Int Int}

theorem remap_ends {P : Prop} (leads : Leads doc resolutions rows mapping)
    (complete : Complete doc mapping target) (follows : P → Follows py doc target source) :
    Ends (remap py (source.getD .null) target mapping) (Misses P) fun value =>
      Placed py doc resolutions rows target none source (some value) := by
  unfold remap
  split
  · rename_i null
    exact .blank rfl null rfl
  · rename_i nonNull
    obtain ⟨v,rfl⟩ : ∃ v,source = some v := by
      cases source with
      | none => exact absurd rfl nonNull
      | some v => exact ⟨v,rfl⟩
    cases hn : py.int v with
    | none =>
      simp only [Option.getD_some,hn]
      refine ⟨fun p => ?_,by decide⟩
      obtain ⟨n,hn',-⟩ := follows p v rfl nonNull
      rw [hn] at hn'
      cases hn'
    | some n =>
      cases hm : (mapping target).get n with simp only [Option.getD_some,hn,hm]
      | none =>
        refine ⟨fun p => ?_,by decide⟩
        obtain ⟨n',hn',known⟩ := follows p v rfl nonNull
        rw [hn] at hn'
        cases hn'
        obtain ⟨m,found⟩ := complete n known
        rw [hm] at found
        cases found
      | some m =>
        obtain ⟨known,found⟩ := leads target n m hm
        exact .followed rfl hn known found

/-! The loops over the reference fields of one record. -/

/-- After the fields of `done`, each of them is placed and the others are as they were. -/
def FieldsPlaced (py : Runtime) (doc : Document) (resolutions : List TransferResolution)
    (rows : List CreatedRow) (override : String → Option Int) (source : Record)
    (done : List (String × EntityType)) (values : Record) : Prop :=
  (∀ ref ∈ done,Placed py doc resolutions rows ref.2 (override ref.1) (source.get ref.1)
      (values.get ref.1)) ∧
    ∀ field,field ∉ done.map Prod.fst → values.get field = source.get field

theorem FieldsPlaced.next {rows : List CreatedRow} {override : String → Option Int}
    {source values values' : Record} {done : List (String × EntityType)} {ref : String × EntityType}
    (h : FieldsPlaced py doc resolutions rows override source done values)
    (new : ref.1 ∉ done.map Prod.fst)
    (mine : Placed py doc resolutions rows ref.2 (override ref.1) (source.get ref.1)
      (values'.get ref.1))
    (others : ∀ field,field ≠ ref.1 → values'.get field = values.get field) :
    FieldsPlaced py doc resolutions rows override source (done ++ [ref]) values' := by
  refine ⟨fun other ho => ?_,fun field hf => ?_⟩
  · obtain ho | ho := mem_append.1 ho
    · have ne : other.1 ≠ ref.1 := fun he => new (he ▸ mem_map_of_mem ho)
      rw [others _ ne]
      exact h.1 other ho
    · rw [mem_singleton.1 ho]
      exact mine
  · rw [map_append,mem_append,not_or] at hf
    rw [others field fun he => hf.2 (by simp [he])]
    exact h.2 field hf.1

section Fields

variable {P : Prop} {rows : List CreatedRow} {mapping : EntityType → Dict Int Int}
  {overrides : Overrides} {source : Record}

theorem placeLink_ends {done : List (String × EntityType)} {ref : String × EntityType}
    {values : Record} (leads : Leads doc resolutions rows mapping)
    (complete : Complete doc mapping ref.2) (new : ref.1 ∉ done.map Prod.fst)
    (follows : P → overrides.get ref.1 = none → Follows py doc ref.2 (source.get ref.1))
    (h : FieldsPlaced py doc resolutions rows overrides.get source done values) :
    Ends (placeLink py mapping overrides values ref) (Misses P)
      (FieldsPlaced py doc resolutions rows overrides.get source (done ++ [ref])) := by
  unfold placeLink
  rw [h.2 ref.1 new]
  cases ho : overrides.get ref.1 with
  | some id =>
    refine h.next new ?_ fun field hf => Dict.get_set_other _ _ hf
    rw [ho,Dict.get_set_self]
    exact .chosen rfl
  | none =>
    refine (remap_ends leads complete fun p => follows p ho).bind fun value placed => ?_
    refine h.next new ?_ fun field hf => Dict.get_set_other _ _ hf
    rw [ho,Dict.get_set_self]
    exact placed

theorem placeRef_ends {done : List (String × EntityType)} {ref : String × EntityType}
    {values : Record} (leads : Leads doc resolutions rows mapping)
    (complete : Complete doc mapping ref.2) (new : ref.1 ∉ done.map Prod.fst)
    (follows : P → overrides.get ref.1 = none → Follows py doc ref.2 (source.get ref.1))
    (h : FieldsPlaced py doc resolutions rows
      (fun f => (source.get f).bind fun _ => overrides.get f) source done values) :
    Ends (placeRef py mapping overrides values ref) (Misses P)
      (FieldsPlaced py doc resolutions rows
        (fun f => (source.get f).bind fun _ => overrides.get f) source (done ++ [ref])) := by
  unfold placeRef
  rw [h.2 ref.1 new]
  cases hs : source.get ref.1 with
  | none =>
    refine h.next new ?_ fun _ _ => rfl
    rw [h.2 ref.1 new,hs]
    exact .blank rfl rfl rfl
  | some v =>
    cases ho : overrides.get ref.1 with
    | some id =>
      refine h.next new ?_ fun field hf => Dict.get_set_other _ _ hf
      rw [hs,ho,Dict.get_set_self]
      exact .chosen rfl
    | none =>
      have follows : P → Follows py doc ref.2 (some v) := fun p => hs ▸ follows p ho
      refine (remap_ends leads complete follows).bind fun value placed => ?_
      refine h.next new ?_ fun field hf => Dict.get_set_other _ _ hf
      rw [hs,ho,Dict.get_set_self]
      exact placed

theorem fields_ends (also : String × EntityType → Prop)
    {place : Record → String × EntityType → Except ApplyError Record}
    {override : String → Option Int} {refs : List (String × EntityType)} (nodup : (refs.map Prod.fst).Nodup)
    (step : ∀ done,∀ ref ∈ refs,ref.1 ∉ done.map Prod.fst → ∀ values,
      FieldsPlaced py doc resolutions rows override source done values →
        Ends (place values ref) (Misses P) fun values' =>
          FieldsPlaced py doc resolutions rows override source (done ++ [ref]) values' ∧ also ref) :
    Ends (refs.foldlM place source) (Misses P) fun values =>
      FieldsPlaced py doc resolutions rows override source refs values ∧ ∀ ref ∈ refs,also ref := by
  refine ends_foldlM (I := fun done values => FieldsPlaced py doc resolutions rows override source
    done values ∧ ∀ ref ∈ done,also ref) ?_ ?_
  · exact ⟨⟨nofun,fun _ _ => rfl⟩,nofun⟩
  · intro pre ref post values hl ⟨h,found⟩
    have new : ref.1 ∉ pre.map Prod.fst := fun hr => by
      rw [hl,map_append,nodup_append] at nodup
      exact nodup.2.2 _ hr ref.1 (by simp) rfl
    refine (step pre ref (by simp [hl]) new values h).mono fun values' ⟨h',mine⟩ => ?_
    refine ⟨h',fun other ho => ?_⟩
    obtain ho | ho := mem_append.1 ho
    · exact found other ho
    · rw [mem_singleton.1 ho]
      exact mine

theorem internalRefs_nodup (t : EntityType) : ((internalRefs t).map Prod.fst).Nodup := by
  cases t <;> decide

theorem internalRef_ne_id (t : EntityType) : ∀ ref ∈ internalRefs t,ref.1 ≠ "id" := by
  cases t <;> decide

theorem rowValues_ends {t : EntityType} {row : Record} (leads : Leads doc resolutions rows mapping)
    (complete : ∀ ref ∈ internalRefs t,Complete doc mapping ref.2)
    (follows : P → ∀ ref ∈ internalRefs t,overrides.get ref.1 = none →
      Follows py doc ref.2 (row.get ref.1)) :
    Ends (rowValues py mapping t overrides row) (Misses P) fun values =>
      ∀ ref ∈ internalRefs t,Placed py doc resolutions rows ref.2
        ((row.get ref.1).bind fun _ => overrides.get ref.1) (row.get ref.1) (values.get ref.1) := by
  have same : ∀ ref ∈ internalRefs t,(row.restrict (· ≠ "id")).get ref.1 = row.get ref.1 :=
    fun ref hr => by simp [Dict.get_restrict,internalRef_ne_id t ref hr]
  refine (fields_ends (fun _ => True) (internalRefs_nodup t)
    fun done ref hr new values h => (placeRef_ends leads (complete ref hr) new (fun p ho => ?_)
      h).mono fun _ h => ⟨h,trivial⟩).mono fun values h ref hr => ?_
  · rw [same ref hr]
    exact follows p ref hr ho
  · have placed := h.1.1 ref hr
    simp only [same ref hr] at placed
    exact placed

end Fields

/-! The loop over the entity records. -/

def storedOverrides {κ : Type} [DecidableEq κ] (table : Dict κ (Dict String Overrides)) (owner : κ)
    (id : Int) : Overrides :=
  ((overridesOfJson table owner).get id).getD .empty

structure Applied.Sound (py : Runtime) (doc : Document) (resolutions : List TransferResolution)
    (plan : PlanJson) (db : Database inv) (st : Applied) : Prop where
  leads : Leads doc resolutions st.rows st.mapping
  ids : ∀ made ∈ st.rows,∃ k,made.id = db.next made.entityType k
  unmatched : ∀ made ∈ st.rows,∀ targetId,
    ¬Matched resolutions made.entityType.name made.sourceId targetId
  placed : ∀ made ∈ st.rows,∃ row ∈ doc.rows made.entityType,sourceId row = made.sourceId ∧
    ∀ ref ∈ internalRefs made.entityType,Placed py doc resolutions st.rows ref.2
      ((row.get ref.1).bind fun _ =>
        (storedOverrides plan.refOverrides made.entityType made.sourceId).get ref.1)
      (row.get ref.1) (made.values.get ref.1)

structure Accounted (resolutions : List TransferResolution) (st : Applied) (t : EntityType)
    (row : Record) : Prop where
  mapped : ∃ m,(st.mapping t).get (sourceId row) = some m
  made : (∃ targetId,Matched resolutions t.name (sourceId row) targetId) ∨
    ∃ made ∈ st.rows,made.entityType = t ∧ made.sourceId = sourceId row

structure Grows (st st' : Applied) : Prop where
  mapping : ∀ t n,(∃ m,(st.mapping t).get n = some m) → ∃ m,(st'.mapping t).get n = some m
  rows : st.rows ⊆ st'.rows

variable {st : Applied} {t : EntityType} {row : Record}

theorem Accounted.grows {st' : Applied}
    (h : Accounted resolutions st t row) (g : Grows st st') : Accounted resolutions st' t row where
  mapped := g.mapping t _ h.mapped
  made := h.made.imp id fun ⟨made,hm,found⟩ => ⟨made,g.rows hm,found⟩

theorem mapping_update (mapping : EntityType → Dict Int Int) (t t' : EntityType) (id new n : Int) :
    (Function.update mapping t ((mapping t).set id new) t').get n =
      if t' = t ∧ n = id then some new else (mapping t').get n := by
  by_cases ht : t' = t
  · subst ht
    simp [Dict.get_set]
  · simp [ht]

theorem mapping_grows {id new : Int}
    (t' : EntityType) (n : Int) (h : ∃ m,(mapping t').get n = some m) :
    ∃ m,(Function.update mapping t ((mapping t).set id new) t').get n = some m := by
  rw [mapping_update]
  split
  · exact ⟨new,rfl⟩
  · exact h

theorem Leads.update {rows rows' : List CreatedRow} {mapping : EntityType → Dict Int Int}
    {t : EntityType} {id new : Int} (h : Leads doc resolutions rows mapping) (sub : rows ⊆ rows')
    (known : id ∈ doc.ids t) (found : LocalOf resolutions rows' t id new) :
    Leads doc resolutions rows' (Function.update mapping t ((mapping t).set id new)) := by
  intro t' n m hm
  rw [mapping_update] at hm
  split at hm
  · rename_i hc
    obtain ⟨rfl,rfl⟩ := hc
    cases hm
    exact ⟨known,found⟩
  · obtain ⟨known,found⟩ := h t' n m hm
    exact ⟨known,found.mono sub⟩

theorem matchRow_sound {targetId : Int}
    (h : st.Sound py doc resolutions plan db) (hr : row ∈ doc.rows t)
    (hm : Matched resolutions t.name (sourceId row) targetId) :
    (st.matchRow t (sourceId row) targetId).Sound py doc resolutions plan db ∧
      Grows st (st.matchRow t (sourceId row) targetId) ∧
      Accounted resolutions (st.matchRow t (sourceId row) targetId) t row := by
  refine ⟨{h with leads := h.leads.update (fun _ hx => hx) (mem_map_of_mem hr) (.inl hm)},
    ⟨fun t' n hn => mapping_grows t' n hn,fun _ hx => hx⟩,⟨⟨targetId,?_⟩,.inl ⟨targetId,hm⟩⟩⟩
  rw [Applied.matchRow,mapping_update,if_pos ⟨rfl,rfl⟩]

theorem createRow_ends {P : Prop} {values : Record}
    (h : st.Sound py doc resolutions plan db) (hr : row ∈ doc.rows t)
    (unmatched : ∀ targetId,¬Matched resolutions t.name (sourceId row) targetId)
    (placed : ∀ ref ∈ internalRefs t,Placed py doc resolutions st.rows ref.2
      ((row.get ref.1).bind fun _ =>
        (storedOverrides plan.refOverrides t (sourceId row)).get ref.1)
      (row.get ref.1) (values.get ref.1)) :
    Ends (st.createRow db t (sourceId row) values) (Refuses P db) fun st' =>
      st'.Sound py doc resolutions plan db ∧ Grows st st' ∧ Accounted resolutions st' t row := by
  unfold Applied.createRow
  split
  · have sub : st.rows ⊆ st.rows ++ [⟨t,sourceId row,db.next t (st.created t),values⟩] :=
      subset_append_left _ _
    have last : (⟨t,sourceId row,db.next t (st.created t),values⟩ : CreatedRow) ∈
        st.rows ++ [⟨t,sourceId row,db.next t (st.created t),values⟩] := by simp
    refine ⟨⟨?_,fun made hm => ?_,fun made hm => ?_,fun made hm => ?_⟩,
      ⟨fun t' n hn => mapping_grows t' n hn,sub⟩,?_,.inr ⟨_,last,rfl,rfl⟩⟩
    · exact h.leads.update sub (mem_map_of_mem hr) (.inr ⟨_,last,rfl,rfl,rfl⟩)
    · obtain hm | hm := mem_append.1 hm
      · exact h.ids made hm
      · rw [mem_singleton.1 hm]
        exact ⟨_,rfl⟩
    · obtain hm | hm := mem_append.1 hm
      · exact h.unmatched made hm
      · rw [mem_singleton.1 hm]
        exact unmatched
    · obtain hm | hm := mem_append.1 hm
      · obtain ⟨source,hs,hid,refs⟩ := h.placed made hm
        exact ⟨source,hs,hid,fun ref href => (refs ref href).mono sub⟩
      · rw [mem_singleton.1 hm]
        exact ⟨row,hr,rfl,fun ref href => (placed ref href).mono sub⟩
    · exact ⟨_,(mapping_update _ _ _ _ _ _).trans (if_pos ⟨rfl,rfl⟩)⟩
  · rename_i refused
    exact .inr ⟨rfl,fun lenient => refused (lenient.1 _ _ _)⟩

theorem ref_follows (hp : Planned doc resolutions plan) (he : Effective py doc resolutions) (hr : row ∈ doc.rows t) {ref : String × EntityType}
    (href : ref ∈ internalRefs t)
    (free : (storedOverrides plan.refOverrides t (sourceId row)).get ref.1 = none) :
    Follows py doc ref.2 (row.get ref.1) := by
  by_cases chosen : ∃ targetId,Reassigned resolutions t.name (sourceId row) ref.1 targetId
  · obtain ⟨targetId,chosen⟩ := chosen
    obtain ⟨-,last⟩ | same := he.refs t row hr ref href targetId chosen
    · rw [storedOverrides,(hp.refOverrides t row hr ref.1 targetId).2 ⟨chosen,last⟩] at free
      cases free
    · exact same.follows
  · exact (hp.refs t row hr ref href (not_exists.1 chosen)).follows

theorem applyRow_ends (hp : Planned doc resolutions plan) (h : st.Sound py doc resolutions plan db) (hr : row ∈ doc.rows t)
    (complete : ∀ ref ∈ internalRefs t,Complete doc st.mapping ref.2) :
    Ends (applyRow py db t (actionsOf plan t) (overridesOfJson plan.refOverrides t) st row)
      (Refuses (Effective py doc resolutions) db) fun st' =>
        st'.Sound py doc resolutions plan db ∧ Grows st st' ∧ Accounted resolutions st' t row := by
  obtain ⟨m,hm,settled⟩ := hp.actions t row hr
  unfold applyRow
  rw [hm,Option.map_some]
  obtain ⟨targetId,ha,matched⟩ | ⟨renamed,ha,unmatched,apart⟩ := settled
  · rw [ha]
    exact matchRow_sound h hr matched
  · rw [ha]
    refine ((rowValues_ends h.leads complete fun he ref href free =>
      ref_follows hp he hr href free).raises fun _ => .inl).bind fun values placed => ?_
    refine createRow_ends h hr unmatched fun ref href => ?_
    have same : (values.update (renamed.map fun p => (p.1,Value.str p.2))).get ref.1 =
        values.get ref.1 := Dict.get_update_other _ fun p hp => by
      obtain ⟨q,hq,rfl⟩ := mem_map.1 hp
      exact apart q hq ref href
    rw [same]
    exact placed ref href

theorem entityOrder_refs {pre post : List EntityType}
    (h : entityOrder = pre ++ t::post) : ∀ ref ∈ internalRefs t,ref.2 ∈ pre := by
  have order : ∀ n : Fin entityOrder.length,∀ ref ∈ internalRefs entityOrder[n],
      ref.2 ∈ entityOrder.take n := by decide
  have bound : pre.length < entityOrder.length := by simp [h]
  have at_ : entityOrder[pre.length] = t := by simp [h]
  have before : entityOrder.take pre.length = pre := by simp [h]
  intro ref hr
  rw [←at_] at hr
  have found := order ⟨pre.length,bound⟩ ref hr
  exact before ▸ found

theorem Grows.trans {a b c : Applied} (h : Grows a b) (h' : Grows b c) : Grows a c where
  mapping := fun t n hn => h'.mapping t n (h.mapping t n hn)
  rows := fun _ hx => h'.rows (h.rows hx)

theorem applyRows_ends (hp : Planned doc resolutions plan)
    (h : st.Sound py doc resolutions plan db)
    (complete : ∀ ref ∈ internalRefs t,Complete doc st.mapping ref.2) :
    Ends ((doc.rows t).foldlM (applyRow py db t (actionsOf plan t)
        (overridesOfJson plan.refOverrides t)) st)
      (Refuses (Effective py doc resolutions) db) fun st' =>
        st'.Sound py doc resolutions plan db ∧ Grows st st' ∧
          ∀ row ∈ doc.rows t,Accounted resolutions st' t row := by
  refine ends_foldlM (I := fun rows st' => st'.Sound py doc resolutions plan db ∧ Grows st st' ∧
    ∀ row ∈ rows,Accounted resolutions st' t row) ?_ ?_
  · exact ⟨h,⟨fun _ _ hn => hn,fun _ hx => hx⟩,nofun⟩
  · intro pre row post st' hl ⟨sound,grown,before⟩
    have ready : ∀ ref ∈ internalRefs t,Complete doc st'.mapping ref.2 := fun ref href n hn =>
      grown.mapping _ _ (complete ref href n hn)
    refine (applyRow_ends hp sound (by simp [hl]) ready).mono fun st'' ⟨sound',step,mine⟩ => ?_
    refine ⟨sound',grown.trans step,fun other ho => ?_⟩
    obtain ho | ho := mem_append.1 ho
    · exact (before other ho).grows step
    · rw [mem_singleton.1 ho]
      exact mine

theorem applyEntities_ends (hp : Planned doc resolutions plan) :
    Ends (applyEntities py db plan doc) (Refuses (Effective py doc resolutions) db)
      fun st => st.Sound py doc resolutions plan db ∧
        ∀ t,∀ row ∈ doc.rows t,Accounted resolutions st t row := by
  have all : ∀ t,t ∈ entityOrder := fun t => by cases t <;> decide
  have loop : Ends (applyEntities py db plan doc)
      (Refuses (Effective py doc resolutions) db) fun st =>
        st.Sound py doc resolutions plan db ∧
          ∀ t ∈ entityOrder,∀ row ∈ doc.rows t,Accounted resolutions st t row := by
    refine ends_foldlM (I := fun done st => st.Sound py doc resolutions plan db ∧
      ∀ t ∈ done,∀ row ∈ doc.rows t,Accounted resolutions st t row) ?_ ?_
    · refine ⟨⟨?_,?_,?_,?_⟩,by simp⟩
      all_goals simp [Leads,Dict.get,Dict.empty]
    · rintro pre t post st hl ⟨sound,done⟩
      have complete : ∀ ref ∈ internalRefs t,Complete doc st.mapping ref.2 := fun ref href n hn => by
        obtain ⟨row,hrow,rfl⟩ := mem_map.1 hn
        exact (done ref.2 (entityOrder_refs hl ref href) row hrow).mapped
      refine (applyRows_ends hp sound complete).mono ?_
      rintro st' ⟨sound',grown,now⟩
      refine ⟨sound',fun t' ht' row hrow => ?_⟩
      obtain ht' | ht' := mem_append.1 ht'
      · exact (done t' ht' row hrow).grows grown
      · rw [mem_singleton.1 ht'] at hrow ⊢
        exact now row hrow
  refine loop.mono ?_
  rintro st ⟨sound,done⟩
  exact ⟨sound,fun t row hrow => done t (all t) row hrow⟩

/-! The relationship records. -/

theorem linkRefs_nodup (r : RelationType) (row : Record) : ((linkRefs r row).map Prod.fst).Nodup := by
  unfold linkRefs
  cases attachmentType row with
  | none => cases r <;> decide
  | some target => cases r <;> simp [attachmentField,relationRefs]

theorem linkRef_field (r : RelationType) (row : Record) :
    ∀ ref ∈ linkRefs r row,ref.1 ∈ relationshipFields r := by
  unfold linkRefs
  cases attachmentType row with
  | none => cases r <;> decide
  | some target => cases r <;> simp [attachmentField,relationRefs,relationshipFields]

theorem relationshipFields_nodup (r : RelationType) : (relationshipFields r).Nodup := by
  cases r <;> decide

theorem linkRow_get {r : RelationType} {values : Record} {field : String}
    (h : field ∈ relationshipFields r) :
    (linkRow r values).get field = some ((values.get field).getD .null) := by
  have keys : ((relationshipFields r).map fun key => (key,(values.get key).getD .null)).map
      Prod.fst = relationshipFields r := by
    rw [map_map]
    exact map_id _
  rw [linkRow,Dict.get_ofPairs_iff (keys.symm ▸ relationshipFields_nodup r)]
  exact mem_map.2 ⟨field,h,rfl⟩

section Links

variable {P : Prop} {rows : List CreatedRow} {mapping : EntityType → Dict Int Int}
  {overrides : Overrides} {row : Record}

theorem placeAttachment_ends {done : List (String × EntityType)} {ref : String × EntityType}
    {values : Record} (leads : Leads doc resolutions rows mapping)
    (complete : Complete doc mapping ref.2) (new : ref.1 ∉ done.map Prod.fst)
    (follows : P → overrides.get ref.1 = none →
      Follows py doc ref.2 (row.get ref.1) ∧ row.get ref.1 ≠ none)
    (h : FieldsPlaced py doc resolutions rows overrides.get row done values) :
    Ends (placeAttachment py mapping overrides values ref) (Misses P)
      fun values' =>
        FieldsPlaced py doc resolutions rows overrides.get row (done ++ [ref]) values' ∧
          (overrides.get ref.1 = none → row.get ref.1 ≠ none) := by
  unfold placeAttachment
  split
  · rename_i present
    refine (placeLink_ends leads complete new (fun p ho => (follows p ho).1) h).mono
      fun values' placed => ⟨placed,fun ho hn => ?_⟩
    simp [Dict.contains,ho,h.2 ref.1 new,hn] at present
  · rename_i absent
    refine ⟨fun p => ?_,by decide⟩
    rw [not_or,Dict.contains,Dict.contains,h.2 ref.1 new] at absent
    have ho : overrides.get ref.1 = none := by simpa using absent.1
    exact absurd (by simpa using absent.2) (follows p ho).2

theorem linkValues_ends {r : RelationType} (leads : Leads doc resolutions rows mapping)
    (complete : ∀ t,Complete doc mapping t)
    (portable : attachmentField r ≠ none → attachmentType row ≠ none)
    (follows : P → ∀ ref ∈ linkRefs r row,overrides.get ref.1 = none →
      Follows py doc ref.2 (row.get ref.1))
    (present : P → attachmentField r ≠ none → ∀ ref ∈ linkRefs r row,
      overrides.get ref.1 = none → row.get ref.1 ≠ none) :
    Ends (linkValues py mapping r overrides row) (Misses P) fun values =>
      (∀ ref ∈ linkRefs r row,Placed py doc resolutions rows ref.2 (overrides.get ref.1)
        (row.get ref.1) (values.get ref.1)) ∧
      (attachmentField r ≠ none → ∀ ref ∈ linkRefs r row,
        overrides.get ref.1 = none → row.get ref.1 ≠ none) := by
  have nodup := linkRefs_nodup r row
  unfold linkValues
  unfold linkRefs at nodup follows present ⊢
  cases ha : attachmentField r with
  | none =>
    simp only [ha] at nodup follows ⊢
    refine (fields_ends (fun _ => True) nodup fun done ref hr new values h =>
      (placeLink_ends leads (complete ref.2) new (fun p ho => follows p ref hr ho) h).mono
        fun _ h => ⟨h,trivial⟩).mono fun values h => ⟨h.1.1,fun hn => absurd rfl hn⟩
  | some attached =>
    simp only [ha] at nodup follows present portable ⊢
    cases ht : attachmentType row with
    | none => exact absurd ht (portable (by simp))
    | some target =>
      have named : row.contains "entity_type" = true := by
        cases hg : row.get "entity_type" with
        | none => simp [attachmentType,hg] at ht
        | some v => simp [Dict.contains,hg]
      simp only [ht,Option.map_some,Option.toList_some,singleton_append] at nodup follows
      simp only [ht,Option.map_some,Option.toList_some,singleton_append] at present ⊢
      rw [if_neg (by simp [named])]
      refine (fields_ends (fun ref => overrides.get ref.1 = none → row.get ref.1 ≠ none)
        nodup fun done ref hr new values h =>
          placeAttachment_ends leads (complete ref.2) new (fun p ho =>
            ⟨follows p ref hr ho,present p (by simp) ref hr ho⟩) h).mono
        fun values h => ⟨h.1.1,fun _ => h.2⟩

end Links

structure Linked (py : Runtime) (doc : Document) (resolutions : List TransferResolution)
    (plan : PlanJson) (rows : List CreatedRow) (r : RelationType) (entry : Int × Record)
    (link : CreatedLink) : Prop where
  relationType : link.relationType = r
  index : link.index = entry.1
  placed : ∀ ref ∈ linkRefs r entry.2,Placed py doc resolutions rows ref.2
    ((storedOverrides plan.relationOverrides r entry.1).get ref.1) (entry.2.get ref.1)
    (link.values.get ref.1)
  present : attachmentField r ≠ none → ∀ ref ∈ linkRefs r entry.2,
    (storedOverrides plan.relationOverrides r entry.1).get ref.1 = none → entry.2.get ref.1 ≠ none

theorem applyLink_ends (hp : Planned doc resolutions plan) (leads : Leads doc resolutions rows mapping)
    (complete : ∀ t,Complete doc mapping t) {r : RelationType} {records : List Record}
    (hs : (r,records) ∈ doc.relationships.items) {entry : Int × Record}
    (hentry : entry ∈ numbered records) :
    Ends (applyLink py mapping r (overridesOfJson plan.relationOverrides r) entry)
      (Misses (Effective py doc resolutions))
      (Linked py doc resolutions plan rows r entry) := by
  obtain ⟨portable,known⟩ := hp.relations r records hs entry hentry
  have stored := hp.relationOverrides r records hs entry.1
  have follows : Effective py doc resolutions → ∀ ref ∈ linkRefs r entry.2,
      (storedOverrides plan.relationOverrides r entry.1).get ref.1 = none →
        Follows py doc ref.2 (entry.2.get ref.1) ∧
          (attachmentField r ≠ none → entry.2.get ref.1 ≠ none) := fun he ref href free => by
    by_cases chosen : ∃ targetId,Reassigned resolutions r.name entry.1 ref.1 targetId
    · obtain ⟨targetId,chosen⟩ := chosen
      obtain last | same := he.links r records hs entry hentry ref href targetId chosen
      · rw [storedOverrides,(stored ref.1 targetId).2 ⟨chosen,last⟩] at free
        cases free
      · obtain ⟨v,n,hv,-⟩ := id same
        exact ⟨same.follows,fun _ hn => by rw [hv] at hn; cases hn⟩
    · have never := not_exists.1 chosen
      exact ⟨(known ref href never).follows,fun attached =>
        he.attachments r records hs attached entry hentry ref href never⟩
  refine (linkValues_ends leads complete portable (fun he ref href free =>
    (follows he ref href free).1) fun he attached ref href free =>
      (follows he ref href free).2 attached).bind fun values h => ?_
  refine ⟨rfl,rfl,fun ref href => ?_,h.2⟩
  rw [linkRow_get (linkRef_field r entry.2 ref href)]
  exact (h.1 ref href).column

structure Landed (py : Runtime) (doc : Document) (resolutions : List TransferResolution)
    (plan : PlanJson) (db : Database inv) (result : TransferResult) : Prop where
  ids : ∀ made ∈ result.rows,∃ k,made.id = db.next made.entityType k
  unmatched : ∀ made ∈ result.rows,∀ targetId,
    ¬Matched resolutions made.entityType.name made.sourceId targetId
  placed : ∀ made ∈ result.rows,∃ row ∈ doc.rows made.entityType,sourceId row = made.sourceId ∧
    ∀ ref ∈ internalRefs made.entityType,Placed py doc resolutions result.rows ref.2
      ((row.get ref.1).bind fun _ =>
        (storedOverrides plan.refOverrides made.entityType made.sourceId).get ref.1)
      (row.get ref.1) (made.values.get ref.1)
  records : ∀ t,∀ row ∈ doc.rows t,(∃ targetId,Matched resolutions t.name (sourceId row) targetId) ∨
    ∃ made ∈ result.rows,made.entityType = t ∧ made.sourceId = sourceId row
  relations : ∀ r records,(r,records) ∈ doc.relationships.items → ∀ entry ∈ numbered records,
    ∃ link ∈ result.links,Linked py doc resolutions plan result.rows r entry link
  links : ∀ link ∈ result.links,∃ r records entry,(r,records) ∈ doc.relationships.items ∧
    entry ∈ numbered records ∧ Linked py doc resolutions plan result.rows r entry link

theorem applyLinks_ends (hp : Planned doc resolutions plan) (leads : Leads doc resolutions rows mapping)
    (complete : ∀ t,Complete doc mapping t) :
    Ends (applyLinks py mapping plan doc) (Misses (Effective py doc resolutions))
      (List.Forall₂ (fun p links => List.Forall₂
        (Linked py doc resolutions plan rows p.1) (numbered p.2) links) doc.relationships.items) :=
  ends_mapM fun _ hs => ends_mapM fun _ he => applyLink_ends hp leads complete hs he

theorem applyImport_ends (db : Database inv) {built : BuiltImportPlan} (hp : Planned doc resolutions built.plan)
    (same : built.inventoryDigest = inventoryFingerprint py inv) :
    Ends (applyImport py inv db built doc) (Refuses (Effective py doc resolutions) db)
      (Landed py doc resolutions built.plan db) := by
  unfold applyImport
  rw [if_neg (by simp [same]),if_neg (by simp [hp.clear])]
  refine (applyEntities_ends hp).bind fun st ⟨sound,accounted⟩ => ?_
  have complete : ∀ t,Complete doc st.mapping t := fun t n hn => by
    obtain ⟨row,hrow,rfl⟩ := mem_map.1 hn
    exact (accounted t row hrow).mapped
  refine ((applyLinks_ends hp sound.leads complete).raises fun _ => .inl).bind fun links linked => ?_
  split
  · refine ⟨sound.ids,sound.unmatched,sound.placed,fun t row hrow => (accounted t row hrow).made,
      fun r records hs entry he => ?_,fun link hl => ?_⟩
    · obtain ⟨part,hpart,made⟩ := forall₂_mem linked hs
      obtain ⟨link,hlink,found⟩ := forall₂_mem made he
      exact ⟨link,mem_flatten.2 ⟨part,hpart,hlink⟩,found⟩
    · obtain ⟨part,hpart,hlink⟩ := mem_flatten.1 hl
      obtain ⟨p,hs,made⟩ := forall₂_mem linked.flip hpart
      obtain ⟨entry,he,found⟩ := forall₂_mem made.flip hlink
      exact ⟨p.1,p.2,entry,hs,he,found⟩
  · rename_i refused
    exact .inr ⟨rfl,fun lenient => refused (lenient.2 _ _)⟩

/-! From where a reference went to where it should go, and back. -/

section Reference

variable {b : Buckets} {rows : List CreatedRow} {owner : String} {id : Int}
  {ref : String × EntityType} {override : Option Int} {source value : Option Value}

theorem Placed.pointsTo (hb : resolutionBuckets resolutions = .ok b)
    (placed : Placed py doc resolutions rows ref.2 override source value)
    (unmatched : ∀ made ∈ rows,∀ targetId,
      ¬Matched resolutions made.entityType.name made.sourceId targetId)
    (decided : ∀ targetId,override = some targetId →
      Reassigned resolutions owner id ref.1 targetId)
    (kept : ∀ targetId,Reassigned resolutions owner id ref.1 targetId →
      override = some targetId ∨ Coincides py doc resolutions ref.2 source targetId)
    (known : (∀ targetId,¬Reassigned resolutions owner id ref.1 targetId) →
      Known doc ref.2 source) :
    PointsTo doc resolutions rows owner id ref source value where
  chosen := fun targetId chosen => by
    cases placed with
    | chosen h => rw [(decided _ h).unique hb chosen]
    | blank h hs hv =>
      obtain ho | ⟨v,n,rfl,hn,-⟩ := kept targetId chosen
      · rw [h] at ho
        cases ho
      · obtain rfl : v = .null := hs
        cases hn
    | followed h hn hk found =>
      obtain ho | ⟨w,n',hw,hn',-,matched⟩ := kept targetId chosen
      · rw [h] at ho
        cases ho
      · cases hw
        rw [hn] at hn'
        cases hn'
        obtain matched' | ⟨made,hm,ht,hs,-⟩ := found
        · rw [matched'.unique hb matched]
        · rw [←ht,←hs] at matched
          exact absurd matched (unmatched made hm targetId)
  followed := fun never => by
    cases placed with
    | chosen h => exact absurd (decided _ h) (never _)
    | blank h hs hv => exact .inl ⟨hs,hv⟩
    | @followed v n m h hn hk found =>
      by_cases null : v = .null
      · subst null
        cases hn
      · obtain ⟨n',hn',known'⟩ := known never v rfl null
        have same : n = n' := Option.some.inj (hn.symm.trans (int_of_asInt hn'))
        exact .inr ⟨v,n,m,rfl,same ▸ hn',hk,found,rfl⟩

theorem PointsTo.kept (points : PointsTo doc resolutions rows owner id ref source value)
    (placed : Placed py doc resolutions rows ref.2 override source value) {targetId : Int}
    (away : ∀ made ∈ rows,made.id ≠ targetId)
    (chosen : Reassigned resolutions owner id ref.1 targetId) :
    override = some targetId ∨ Coincides py doc resolutions ref.2 source targetId := by
  have aimed := points.chosen targetId chosen
  cases placed with
  | chosen h =>
    cases aimed
    exact .inl h
  | blank h hs hv =>
    rw [aimed] at hv
    cases hv
  | @followed v n m h hn hk found =>
    obtain rfl : m = targetId := by simpa using aimed
    obtain matched | ⟨made,hm,-,-,hid⟩ := found
    · exact .inr ⟨v,n,rfl,hn,hk,matched⟩
    · exact absurd hid (away made hm)

end Reference

theorem Landed.honoured {result : TransferResult} (hp : Planned doc resolutions plan)
    (he : Effective py doc resolutions) (h : Landed py doc resolutions plan db result) :
    Honoured doc resolutions result := by
  obtain ⟨b,hb⟩ := hp.buckets
  refine ⟨h.records,fun made hm => ?_,fun r records hs entry hentry => ?_,fun link hl => ?_⟩
  · obtain ⟨row,hrow,hid,placed⟩ := h.placed made hm
    rw [←hid] at placed ⊢
    refine ⟨row,hrow,rfl,fun ref href => (placed ref href).pointsTo hb h.unmatched
      (fun targetId ho => ?_) (fun targetId chosen => ?_) (hp.refs _ row hrow ref href)⟩
    · obtain ⟨v,-,ho⟩ := Option.bind_eq_some_iff.1 ho
      exact ((hp.refOverrides _ row hrow ref.1 targetId).1 ho).1
    · refine (he.refs _ row hrow ref href targetId chosen).imp (fun ⟨present,last⟩ => ?_) id
      obtain ⟨v,hv⟩ := Option.ne_none_iff_exists'.1 present
      rw [hv,Option.bind_some]
      exact (hp.refOverrides _ row hrow ref.1 targetId).2 ⟨chosen,last⟩
  · obtain ⟨link,hl,linked⟩ := h.relations r records hs entry hentry
    exact ⟨link,hl,linked.relationType,linked.index⟩
  · obtain ⟨r,records,entry,hs,hentry,linked⟩ := h.links link hl
    obtain ⟨rfl,index⟩ := And.intro linked.relationType linked.index
    refine ⟨records,entry.2,hs,index ▸ hentry,fun ref href => ?_⟩
    rw [index]
    have stored := hp.relationOverrides _ records hs entry.1 ref.1
    refine (linked.placed ref href).pointsTo hb h.unmatched
      (fun targetId ho => ((stored targetId).1 ho).1) (fun targetId chosen => ?_)
      ((hp.relations _ records hs entry hentry).2 ref href)
    exact (he.links _ records hs entry hentry ref href targetId chosen).imp
      (fun last => (stored targetId).2 ⟨chosen,last⟩) id

theorem Landed.effective {result : TransferResult} (hp : Planned doc resolutions plan)
    (h : Landed py doc resolutions plan db result) (honoured : Honoured doc resolutions result)
    (away : ∀ owner id field targetId,Reassigned resolutions owner id field targetId →
      ∀ made ∈ result.rows,made.id ≠ targetId) : Effective py doc resolutions := by
  obtain ⟨b,hb⟩ := hp.buckets
  refine ⟨fun t row hrow ref href targetId chosen => ?_,
    fun r records hs entry hentry ref href targetId chosen => ?_,
    fun r records hs attached entry hentry ref href never => ?_⟩
  · obtain ⟨other,matched⟩ | ⟨made,hm,rfl,hid⟩ := h.records t row hrow
    · exact absurd chosen (matched.not_reassigned hb)
    · obtain ⟨row',hrow',hid',points⟩ := honoured.refs made hm
      obtain ⟨row'',hrow'',hid'',placed⟩ := h.placed made hm
      have unique := inj_on_of_nodup_map (doc.ids_nodup made.entityType)
      obtain rfl := unique hrow' hrow (hid'.trans hid)
      obtain rfl := unique hrow'' hrow (hid''.trans hid)
      rw [hid] at points placed
      obtain stored | same := (points ref href).kept (placed ref href) (away _ _ _ _ chosen) chosen
      · obtain ⟨v,hv,stored⟩ := Option.bind_eq_some_iff.1 stored
        exact .inl ⟨by simp [hv],((hp.refOverrides _ _ hrow ref.1 targetId).1 stored).2⟩
      · exact .inr same
  · obtain ⟨link,hl,linked⟩ := h.relations r records hs entry hentry
    obtain ⟨records',row,hs',hrow,points⟩ := honoured.linkRefs link hl
    obtain rfl := linked.relationType
    rw [linked.index] at hrow points
    obtain rfl : records' = records := Option.some.inj
      ((Dict.get_eq_some_iff.2 hs').symm.trans (Dict.get_eq_some_iff.2 hs))
    have unique := inj_on_of_nodup_map (numbered_nodup records')
    obtain rfl : row = entry.2 := congrArg Prod.snd (unique hrow hentry rfl)
    obtain stored | same :=
      (points ref href).kept (linked.placed ref href) (away _ _ _ _ chosen) chosen
    · exact .inl ((hp.relationOverrides _ records' hs _ ref.1 targetId).1 stored).2
    · exact .inr same
  · obtain ⟨link,hl,linked⟩ := h.relations r records hs entry hentry
    refine linked.present attached ref href ?_
    cases ho : (storedOverrides plan.relationOverrides r entry.1).get ref.1 with
    | none => rfl
    | some targetId =>
      exact absurd ((hp.relationOverrides r records hs entry.1 ref.1 targetId).1 ho).1
        (never targetId)

def spareId (taken : List Int) (k : Nat) : Int := ((taken.map Int.natAbs).sum : Int)+1+k

theorem spareId_notMem (taken : List Int) (k : Nat) : spareId taken k ∉ taken := fun h => by
  have le : (spareId taken k).natAbs ≤ (taken.map Int.natAbs).sum :=
    single_le_sum (fun _ _ => Nat.zero_le _) _ (mem_map_of_mem h)
  unfold spareId at le
  omega

def chosenTargets (resolutions : List TransferResolution) : List Int :=
  resolutions.filterMap fun item => match item.action with
    | .reassign _ targetId => some targetId
    | _ => none

/-- A database that lets everything in, and numbers its new rows above the chosen targets. -/
def spareDatabase (inv : Inventory) (resolutions : List TransferResolution) : Database inv where
  next := fun t k => spareId (inv.ids t ++ chosenTargets resolutions) k
  fresh := fun t k h => spareId_notMem _ k (mem_append_left _ h)
  once := fun t a b h => by
    simp only [spareId] at h
    omega
  accepts := fun _ _ _ => true
  acceptsLinks := fun _ _ => true

/-- For every accepted plan without conflicts: whatever ids the database hands out and
whichever rows it refuses, applying the plan to the same inventory raises nothing of its
own and every reference points where the plan says, exactly when no decision is lost. -/
theorem import_honours_plan_iff {built : BuiltImportPlan}
    (accepted : buildImportPlan py inv doc resolutions = .ok built)
    (clear : built.conflicts = []) :
    (∀ db : Database inv,applyImport py inv db built doc = .error .integrity ∨
        ∃ result,applyImport py inv db built doc = .ok result ∧
          Honoured doc resolutions result) ↔
      Effective py doc resolutions := by
  obtain ⟨same,hp⟩ := buildImportPlan_planned accepted clear
  constructor
  · intro all
    have ends := applyImport_ends (spareDatabase inv resolutions) hp same
    obtain refused | ⟨result,ok,honoured⟩ := all (spareDatabase inv resolutions)
    · rw [refused] at ends
      obtain ⟨-,other⟩ | ⟨-,strict⟩ := ends
      · exact absurd rfl other
      · exact absurd ⟨fun _ _ _ => rfl,fun _ _ => rfl⟩ strict
    · rw [ok] at ends
      refine ends.effective hp honoured fun owner id field targetId chosen made hm => ?_
      obtain ⟨k,hk⟩ := ends.ids made hm
      obtain ⟨item,hi,-,ha⟩ := chosen
      rintro rfl
      have target : made.id ∈ chosenTargets resolutions :=
        mem_filterMap.2 ⟨item,hi,by rw [ha]⟩
      rw [hk] at target
      exact spareId_notMem _ k (mem_append_right _ target)
  · intro he db
    have ends := applyImport_ends db hp same
    cases hr : applyImport py inv db built doc with rw [hr] at ends
    | error e =>
      obtain ⟨missed,-⟩ | ⟨rfl,-⟩ := ends
      · exact absurd he missed
      · exact .inl rfl
    | ok result =>
      exact .inr ⟨result,rfl,ends.honoured hp he⟩

end

def plainRuntime : Runtime where
  intOfText := fun _ => none
  repr := fun _ => ""
  bound := fun v => match v with
    | .str s => some s
    | _ => none
  bound_str := fun _ => rfl
  stableDigest := fun _ => ""

def twoHosts : Inventory where
  rows := fun t => match t with
    | .hardware => [⟨10,none⟩,⟨11,none⟩]
    | _ => []

def twoUnits : Document where
  entities := .ofPairs
    [(.hardware,[.ofPairs [("id",.int 7),("name",.str "rack")]]),
      (.computeUnits,[.ofPairs [("id",.int 1),("name",.str "a"),("hardware_id",.int 7)],
        .ofPairs [("id",.int 2),("name",.str "b"),("hardware_id",.int 7)]])]
  relationships := .empty
  entityCount := 3
  relationCount := 0
  entitiesValid := by decide
  relationsValid := no_relations
  bounded := by decide

def oneReassigned : List TransferResolution := [⟨"compute_units",1,.reassign "hardware_id" 10⟩]

theorem oneReassigned_effective : Effective plainRuntime twoUnits oneReassigned where
  refs := fun t row hrow ref href targetId chosen => by
    obtain ⟨item,hi,⟨ht,hid⟩,ha⟩ := chosen
    obtain rfl := mem_singleton.1 hi
    obtain rfl : t = .computeUnits := by
      cases t <;> first | rfl | exact absurd ht (by decide)
    obtain rfl := mem_singleton.1 href
    have fields : ∀ row ∈ twoUnits.rows .computeUnits,row.get "hardware_id" ≠ none := by
      decide
    have last : lastReassigned oneReassigned "compute_units" (twoUnits.ids .computeUnits) =
        some 1 := by decide
    exact .inl ⟨fields row hrow,last.trans (congrArg some hid)⟩
  links := fun _ _ hs => by cases hs
  attachments := fun _ _ hs => by cases hs

theorem import_honours_plan_iff_one : ∃ built,
    buildImportPlan plainRuntime twoHosts twoUnits oneReassigned = .ok built ∧
      built.conflicts = [] ∧ ∀ db : Database twoHosts,
        applyImport plainRuntime twoHosts db built twoUnits = .error .integrity ∨
          ∃ result,applyImport plainRuntime twoHosts db built twoUnits = .ok result ∧
            Honoured twoUnits oneReassigned result := by
  have quiet : (buildImportPlan plainRuntime twoHosts twoUnits oneReassigned).toOption.map
      BuiltImportPlan.conflicts = some [] := by decide
  cases hb : buildImportPlan plainRuntime twoHosts twoUnits oneReassigned with rw [hb] at quiet
  | error e =>
    cases quiet
  | ok built =>
    have clear : built.conflicts = [] := Option.some.inj quiet
    exact ⟨built,rfl,clear,(import_honours_plan_iff hb clear).2 oneReassigned_effective⟩

def bothReassigned : List TransferResolution :=
  [⟨"compute_units",1,.reassign "hardware_id" 10⟩,⟨"compute_units",2,.reassign "hardware_id" 11⟩]

def bothPlan : BuiltImportPlan where
  inventoryDigest := ""
  plan :=
    { mappings := .ofPairs [(.hardware,[⟨7,.create []⟩]),
        (.computeUnits,[⟨1,.create []⟩,⟨2,.create []⟩])]
      creates := .ofPairs [(.hardware,1),(.computeUnits,2)]
      matches_ := .ofPairs [(.hardware,0),(.computeUnits,0)]
      relationships := .empty
      resolutions := bothReassigned
      refOverrides := .ofPairs [(.computeUnits,.ofPairs [("2",.ofPairs [("hardware_id",11)])])]
      relationOverrides := .empty
      conflictCount := 0 }
  conflicts := []

theorem bothPlan_built :
    buildImportPlan plainRuntime twoHosts twoUnits bothReassigned = .ok bothPlan := by
  decide

theorem bothPlan_overrides : overridesOfJson bothPlan.plan.refOverrides =
    fun t => if t = .computeUnits then .ofPairs [(2,.ofPairs [("hardware_id",11)])] else .empty := by
  have key : "2".toInt? = some 2 := Int.toInt?_repr 2
  funext t
  by_cases ht : t = .computeUnits
  · subst ht
    have items : ((bothPlan.plan.refOverrides.get .computeUnits).getD .empty).items =
        [("2",.ofPairs [("hardware_id",11)])] := by decide
    rw [overridesOfJson,items,filterMap_cons,key]
    rfl
  · have items : ((bothPlan.plan.refOverrides.get t).getD .empty).items = [] := by
      cases t <;> first | decide | exact absurd rfl ht
    rw [overridesOfJson,items,if_neg ht]
    rfl

/-- The first unit is put on the server of the document, not on the one chosen for it. -/
theorem reassign_lost_between_records :
    buildImportPlan plainRuntime twoHosts twoUnits bothReassigned = .ok bothPlan ∧
      bothPlan.conflicts = [] ∧
      ∃ result,applyImport plainRuntime twoHosts (spareDatabase twoHosts bothReassigned) bothPlan
          twoUnits = .ok result ∧
        (∃ made ∈ result.rows,made.entityType = .computeUnits ∧ made.sourceId = 1 ∧
          made.values.get "hardware_id" = some (.int 43)) ∧
        ¬Honoured twoUnits bothReassigned result := by
  have rows : (applyImport plainRuntime twoHosts (spareDatabase twoHosts bothReassigned) bothPlan
      twoUnits).toOption.map (fun result => result.rows.map fun made =>
        (made.entityType,made.sourceId,made.values.get "hardware_id")) =
      some [(.hardware,7,none),(.computeUnits,1,some (.int 43)),(.computeUnits,2,some (.int 11))] := by
    unfold applyImport applyEntities
    rw [bothPlan_overrides]
    decide
  refine ⟨bothPlan_built,rfl,?_⟩
  cases hr : applyImport plainRuntime twoHosts (spareDatabase twoHosts bothReassigned) bothPlan
      twoUnits with
  | error e =>
    rw [hr] at rows
    cases rows
  | ok result =>
    rw [hr] at rows
    have rows := Option.some.inj rows
    simp only at rows
    have second : ((.computeUnits,1,some (.int 43)) : EntityType × Int × Option Value) ∈
        result.rows.map fun made => (made.entityType,made.sourceId,made.values.get "hardware_id") := by
      rw [rows]
      simp
    obtain ⟨made,hm,he⟩ := mem_map.1 second
    simp only [Prod.mk.injEq] at he
    obtain ⟨ht,hid,hv⟩ := he
    refine ⟨result,rfl,⟨made,hm,ht,hid,hv⟩,fun honoured => ?_⟩
    obtain ⟨row,-,-,points⟩ := honoured.refs made hm
    have ref : ("hardware_id",EntityType.hardware) ∈ internalRefs made.entityType := by
      rw [ht]
      decide
    have chosen : Reassigned bothReassigned made.entityType.name made.sourceId "hardware_id" 10 :=
      ⟨_,mem_cons_self,⟨by rw [ht]; rfl,by rw [hid]⟩,rfl⟩
    have aimed := (points _ ref).chosen 10 chosen
    rw [hv] at aimed
    cases aimed

end CircuitBreaker.InventoryTransfer
