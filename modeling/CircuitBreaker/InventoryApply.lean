import CircuitBreaker.InventoryTransfer


/-! Applying a confirmed preview (services/inventory_transfer/apply.py), from the check of
the inventory's fingerprint on. -/

namespace CircuitBreaker.InventoryTransfer

inductive ApplyError where
  | previewStale
  | unresolvedTransfer
  | missingReference
  | unsupportedAttachment
  /-- Python's own errors: `int()` of what is no number, a key that is not there -/
  | notANumber
  | keyError
  | integrity
  deriving DecidableEq

/-- A row made for an entity record, with the id the database gave it. -/
structure CreatedRow where
  entityType : EntityType
  sourceId : Int
  id : Int
  values : Record

/-- A row made for the record of a relationship section, by its number there. -/
structure CreatedLink where
  relationType : RelationType
  index : Int
  values : Record

/-- The database the rows go to: which id the next row of a type gets, and which rows
its constraints let in. -/
structure Database (inv : Inventory) where
  next : EntityType → Nat → Int
  fresh : ∀ t k, next t k ∉ inv.ids t
  once : ∀ t, Function.Injective (next t)
  accepts : List CreatedRow → EntityType → Record → Bool
  acceptsLinks : List CreatedRow → List CreatedLink → Bool

structure Applied where
  mapping : EntityType → Dict Int Int
  created : EntityType → Nat
  matched : EntityType → Nat
  rows : List CreatedRow

def remap (py : Runtime) (value : Value) (target : EntityType) (mapping : EntityType → Dict Int Int) :
    Except ApplyError Value :=
  if value = .null then .ok .null
  else
    match py.int value with
    | none => .error .notANumber
    | some n =>
        match (mapping target).get n with
        | none => .error .missingReference
        | some id => .ok (.int id)

/-- One reference field of an entity record; a field the record leaves out stays out. -/
def placeRef (py : Runtime) (mapping : EntityType → Dict Int Int) (overrides : Overrides)
    (values : Record) (ref : String × EntityType) : Except ApplyError Record :=
  match values.get ref.1 with
  | none => .ok values
  | some value =>
      match overrides.get ref.1 with
      | some id => .ok (values.set ref.1 (.int id))
      | none => do
          let found ← remap py value ref.2 mapping
          pure (values.set ref.1 found)

def rowValues (py : Runtime) (mapping : EntityType → Dict Int Int) (t : EntityType)
    (overrides : Overrides) (row : Record) : Except ApplyError Record :=
  (internalRefs t).foldlM (placeRef py mapping overrides) (row.restrict (· ≠ "id"))

def Applied.createRow {inv : Inventory} (db : Database inv) (st : Applied) (t : EntityType)
    (id : Int) (values : Record) : Except ApplyError Applied :=
  if db.accepts st.rows t values then
    let new := db.next t (st.created t)
    .ok { mapping := Function.update st.mapping t ((st.mapping t).set id new)
          created := Function.update st.created t (st.created t+1)
          matched := st.matched
          rows := st.rows ++ [⟨t,id,new,values⟩] }
  else .error .integrity

def Applied.matchRow (st : Applied) (t : EntityType) (id targetId : Int) : Applied :=
  {st with mapping := Function.update st.mapping t ((st.mapping t).set id targetId)
           matched := Function.update st.matched t (st.matched t+1)}

def applyRow (py : Runtime) {inv : Inventory} (db : Database inv) (t : EntityType)
    (actions : Dict Int Mapping) (overrides : Dict Int Overrides) (st : Applied) (row : Record) :
    Except ApplyError Applied :=
  match (actions.get (sourceId row)).map Mapping.action with
  | none => .error .unresolvedTransfer
  | some (.matched targetId) => .ok (st.matchRow t (sourceId row) targetId)
  | some (.create renamed) => do
      let values ← rowValues py st.mapping t ((overrides.get (sourceId row)).getD .empty) row
      st.createRow db t (sourceId row)
        (values.update (renamed.map fun p => (p.1,Value.str p.2)))

/-- One reference field of a relationship record; `values.get(field)` when it is missing. -/
def placeLink (py : Runtime) (mapping : EntityType → Dict Int Int) (overrides : Overrides)
    (values : Record) (ref : String × EntityType) : Except ApplyError Record :=
  match overrides.get ref.1 with
  | some id => .ok (values.set ref.1 (.int id))
  | none => do
      let found ← remap py ((values.get ref.1).getD .null) ref.2 mapping
      pure (values.set ref.1 found)

/-- One reference field of an attachment; `values[field]` raises when it is missing. -/
def placeAttachment (py : Runtime) (mapping : EntityType → Dict Int Int) (overrides : Overrides)
    (values : Record) (ref : String × EntityType) : Except ApplyError Record :=
  if overrides.contains ref.1 ∨ values.contains ref.1 then placeLink py mapping overrides values ref
  else .error .keyError

def linkValues (py : Runtime) (mapping : EntityType → Dict Int Int) (r : RelationType)
    (overrides : Overrides) (row : Record) : Except ApplyError Record :=
  match attachmentField r with
  | some attached =>
      if ¬row.contains "entity_type" then .error .keyError
      else
        match attachmentType row with
        | none => .error .unsupportedAttachment
        | some target =>
            [("entity_id",target),attached].foldlM (placeAttachment py mapping overrides) row
  | none => (relationRefs r).foldlM (placeLink py mapping overrides) row

/-- `{key: values.get(key) for key in RELATIONSHIP_FIELDS[r]}` -/
def linkRow (r : RelationType) (values : Record) : Record :=
  .ofPairs ((relationshipFields r).map fun key => (key,(values.get key).getD .null))

def applyLink (py : Runtime) (mapping : EntityType → Dict Int Int) (r : RelationType)
    (overrides : Dict Int Overrides) (entry : Int × Record) : Except ApplyError CreatedLink := do
  let values ← linkValues py mapping r ((overrides.get entry.1).getD .empty) entry.2
  pure ⟨r,entry.1,linkRow r values⟩

structure TransferResult where
  created : EntityType → Nat
  matched : EntityType → Nat
  relationshipsCreated : Dict RelationType Nat
  rows : List CreatedRow
  links : List CreatedLink

/-- `{owner: {int(id): overrides for id, overrides in rows.items()} for owner, rows in …}` -/
def overridesOfJson {κ : Type} [DecidableEq κ] (table : Dict κ (Dict String Overrides)) (owner : κ) :
    Dict Int Overrides :=
  .ofPairs (((table.get owner).getD .empty).items.filterMap fun p => p.1.toInt?.map (·,p.2))

def actionsOf (plan : PlanJson) (t : EntityType) : Dict Int Mapping :=
  .ofPairs (((plan.mappings.get t).getD []).map fun m => (m.sourceId,m))

def applyEntities (py : Runtime) {inv : Inventory} (db : Database inv) (plan : PlanJson)
    (doc : Document) : Except ApplyError Applied :=
  entityOrder.foldlM (fun st t =>
    (doc.rows t).foldlM (applyRow py db t (actionsOf plan t) (overridesOfJson plan.refOverrides t))
      st)
    ⟨fun _ => .empty,fun _ => 0,fun _ => 0,[]⟩

def applyLinks (py : Runtime) (mapping : EntityType → Dict Int Int) (plan : PlanJson)
    (doc : Document) : Except ApplyError (List (List CreatedLink)) :=
  doc.relationships.items.mapM fun p =>
    (numbered p.2).mapM (applyLink py mapping p.1 (overridesOfJson plan.relationOverrides p.1))

def applyImport (py : Runtime) (inv : Inventory) (db : Database inv) (built : BuiltImportPlan)
    (doc : Document) : Except ApplyError TransferResult :=
  if inventoryFingerprint py inv ≠ built.inventoryDigest then .error .previewStale
  else if built.plan.conflictCount ≠ 0 then .error .unresolvedTransfer
  else do
    let st ← applyEntities py db built.plan doc
    let links ← applyLinks py st.mapping built.plan doc
    if db.acceptsLinks st.rows links.flatten then
      pure ⟨st.created,st.matched,
        .ofPairs (doc.relationships.items.map fun p => (p.1,p.2.length)),st.rows,links.flatten⟩
    else .error .integrity

end CircuitBreaker.InventoryTransfer
