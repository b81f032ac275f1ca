import CircuitBreaker.PyDict


/-! Portable inventory transfer (services/inventory_transfer): the document a
preview plans, and the plan the operator confirms. -/

namespace CircuitBreaker.InventoryTransfer

inductive EntityType where
  | hardware
  | computeUnits
  | services
  | storage
  | networks
  | miscItems
  | docs
  | tags
  | hardwareClusters
  | externalNodes
  deriving DecidableEq

def EntityType.name : EntityType → String
  | .hardware => "hardware"
  | .computeUnits => "compute_units"
  | .services => "services"
  | .storage => "storage"
  | .networks => "networks"
  | .miscItems => "misc_items"
  | .docs => "docs"
  | .tags => "tags"
  | .hardwareClusters => "hardware_clusters"
  | .externalNodes => "external_nodes"

inductive RelationType where
  | entityTags
  | entityDocs
  | serviceDependencies
  | serviceStorage
  | serviceMisc
  | hardwareNetworks
  | computeNetworks
  | hardwareConnections
  | hardwareClusterMembers
  | externalNodeNetworks
  | serviceExternalNodes
  deriving DecidableEq

def RelationType.name : RelationType → String
  | .entityTags => "entity_tags"
  | .entityDocs => "entity_docs"
  | .serviceDependencies => "service_dependencies"
  | .serviceStorage => "service_storage"
  | .serviceMisc => "service_misc"
  | .hardwareNetworks => "hardware_networks"
  | .computeNetworks => "compute_networks"
  | .hardwareConnections => "hardware_connections"
  | .hardwareClusterMembers => "hardware_cluster_members"
  | .externalNodeNetworks => "external_node_networks"
  | .serviceExternalNodes => "service_external_nodes"

def entityFields : EntityType → List String
  | .hardware => ["id","name","hostname","role","vendor","model","cpu","memory_gb","location",
      "notes","ip_address","wan_uplink","cpu_brand","os_version","software_platform","status"]
  | .computeUnits => ["id","name","kind","hardware_id","os","icon_slug","cpu_cores","cpu_brand",
      "memory_mb","disk_gb","ip_address","environment","notes","status"]
  | .services => ["id","name","slug","compute_id","hardware_id","icon_slug","category","url",
      "ports","description","environment","status","ip_address"]
  | .storage => ["id","name","kind","hardware_id","capacity_gb","used_gb","path","protocol","notes"]
  | .networks => ["id","name","cidr","vlan_id","gateway","description","gateway_hardware_id"]
  | .miscItems => ["id","name","kind","url","description"]
  | .docs => ["id","title","body_md","body_html"]
  | .tags => ["id","name","color"]
  | .hardwareClusters => ["id","name","description","environment","location"]
  | .externalNodes => ["id","name","provider","kind","region","ip_address","icon_slug","notes",
      "environment"]

def relationshipFields : RelationType → List String
  | .entityTags => ["entity_type","entity_id","tag_id"]
  | .entityDocs => ["entity_type","entity_id","doc_id"]
  | .serviceDependencies => ["service_id","depends_on_id","connection_type","bandwidth_mbps"]
  | .serviceStorage => ["service_id","storage_id","purpose","connection_type","bandwidth_mbps"]
  | .serviceMisc => ["service_id","misc_id","purpose","connection_type","bandwidth_mbps"]
  | .hardwareNetworks => ["hardware_id","network_id","ip_address","connection_type",
      "bandwidth_mbps"]
  | .computeNetworks => ["compute_id","network_id","ip_address","connection_type","bandwidth_mbps"]
  | .hardwareConnections => ["source_hardware_id","target_hardware_id","connection_type",
      "bandwidth_mbps","source_port","target_port","source"]
  | .hardwareClusterMembers => ["cluster_id","hardware_id","role"]
  | .externalNodeNetworks => ["external_node_id","network_id","link_type","notes"]
  | .serviceExternalNodes => ["service_id","external_node_id","purpose"]

def uniqueField : EntityType → Option String
  | .services => some "slug"
  | .tags => some "name"
  | .hardwareClusters => some "name"
  | _ => none

def internalRefs : EntityType → List (String × EntityType)
  | .computeUnits => [("hardware_id",.hardware)]
  | .storage => [("hardware_id",.hardware)]
  | .services => [("hardware_id",.hardware),("compute_id",.computeUnits)]
  | .networks => [("gateway_hardware_id",.hardware)]
  | _ => []

def internalRefTypes : List EntityType := [.computeUnits,.storage,.services,.networks]

def relationRefs : RelationType → List (String × EntityType)
  | .entityTags | .entityDocs => []
  | .serviceDependencies => [("service_id",.services),("depends_on_id",.services)]
  | .serviceStorage => [("service_id",.services),("storage_id",.storage)]
  | .serviceMisc => [("service_id",.services),("misc_id",.miscItems)]
  | .hardwareNetworks => [("hardware_id",.hardware),("network_id",.networks)]
  | .computeNetworks => [("compute_id",.computeUnits),("network_id",.networks)]
  | .hardwareConnections => [("source_hardware_id",.hardware),("target_hardware_id",.hardware)]
  | .hardwareClusterMembers => [("cluster_id",.hardwareClusters),("hardware_id",.hardware)]
  | .externalNodeNetworks => [("external_node_id",.externalNodes),("network_id",.networks)]
  | .serviceExternalNodes => [("service_id",.services),("external_node_id",.externalNodes)]

/-- The field and the type of the thing attached; `none` for the other relations. -/
def attachmentField : RelationType → Option (String × EntityType)
  | .entityTags => some ("tag_id",.tags)
  | .entityDocs => some ("doc_id",.docs)
  | _ => none

def attachmentTypes : List (String × EntityType) :=
  [("hardware",.hardware),("compute",.computeUnits),("compute_unit",.computeUnits),
    ("service",.services),("storage",.storage),("network",.networks),("misc",.miscItems),
    ("misc_item",.miscItems),("external",.externalNodes),("external_node",.externalNodes)]

def entityOrder : List EntityType :=
  [.tags,.docs,.hardware,.networks,.miscItems,.hardwareClusters,.externalNodes,.computeUnits,
    .storage,.services]

/-- A JSON value as Python holds it; arrays and objects by their text. -/
inductive Value where
  | null
  | bool (b : Bool)
  | int (n : Int)
  | float (q : Rat)
  | str (s : String)
  | composite (text : String)
  deriving DecidableEq

abbrev Record := Dict String Value

structure Runtime where
  /-- `int(s)` of a string, when it does not raise -/
  intOfText : String → Option Int
  repr : Value → String
  bound : Value → Option String
  bound_str : ∀ s, bound (.str s) = some s
  stableDigest : List (EntityType × List (Int × Option String)) → String

/-- `isinstance(value, int)`, which a Boolean passes too. -/
def Value.asInt : Value → Option Int
  | .bool b => some (if b then 1 else 0)
  | .int n => some n
  | _ => none

/-- `int(value)`, when it does not raise. -/
def Runtime.int (py : Runtime) : Value → Option Int
  | .float q => some (q.num.tdiv q.den)
  | .str s => py.intOfText s
  | v => v.asInt

/-- `value in claimed`, for a value that can be hashed. -/
def Value.same : Value → Value → Bool
  | .float q,.float r => q = r
  | .float q,v | v,.float q => v.asInt.any fun n => q = n
  | v,w => match v.asInt,w.asInt with
    | some n,some m => n = m
    | _,_ => v = w

def Value.hashable : Value → Bool
  | .composite _ => false
  | _ => true

/-- `int(row["id"])` of an entity record -/
def sourceId (row : Record) : Int := ((row.get "id").bind Value.asInt).getD 0

/-- `_ATTACHMENT_TYPES.get(str(row.get("entity_type")))`; no portable name is the text
of a value that is not a string. -/
def attachmentType (row : Record) : Option EntityType :=
  match row.get "entity_type" with
  | some (.str s) => attachmentTypes.lookup s
  | _ => none

/-! Parsing. -/

def validateRow (withIds : Bool) (group : String) (allowed : List String) (seen : List Int)
    (row : Record) : Except String (List Int) :=
  let unknown := (row.items.map Prod.fst).filter fun f => !allowed.contains f
  if unknown ≠ [] then
    .error ("Unsupported fields in " ++ group ++ ": " ++
      ", ".intercalate (unknown.mergeSort fun a b => decide (a ≤ b)))
  else if withIds then
    match (row.get "id").bind Value.asInt with
    | some n =>
        if n < 1 ∨ n ∈ seen then
          .error ("Every " ++ group ++ " record needs a unique positive integer id")
        else .ok (n::seen)
    | none => .error ("Every " ++ group ++ " record needs a unique positive integer id")
  else .ok seen

/-- `_validate_records`; a section that is not in the allowlist has no key type. -/
def validateRecords {κ : Type} (withIds : Bool) (name : κ → String) (allowed : κ → List String)
    (groups : Dict κ (List Record)) : Except String Nat :=
  groups.items.foldlM (fun count g => do
    let _ ← g.2.foldlM (validateRow withIds (name g.1) (allowed g.1)) []
    pure (count+g.2.length)) 0

def maxRecords : Nat := 10000

/-- What `parse_inventory_document` returns: the sections, checked. -/
structure Document where
  entities : Dict EntityType (List Record)
  relationships : Dict RelationType (List Record)
  entityCount : Nat
  relationCount : Nat
  entitiesValid : validateRecords true EntityType.name entityFields entities = .ok entityCount
  relationsValid :
    validateRecords false RelationType.name relationshipFields relationships = .ok relationCount
  bounded : entityCount+relationCount ≤ maxRecords

theorem no_relations :
    validateRecords false RelationType.name relationshipFields .empty = .ok 0 := rfl

/-- `document.entities.get(t, [])` -/
def Document.rows (doc : Document) (t : EntityType) : List Record := (doc.entities.get t).getD []

/-! The operator's decisions. -/

/-- The decisions a `TransferResolution` can hold, each with the fields its validator asks for. -/
inductive Action where
  | matched (targetId : Int)
  | rename (newValue : String)
  | reassign (field : String) (targetId : Int)
  deriving DecidableEq

structure TransferResolution where
  entityType : String
  sourceId : Int
  action : Action
  deriving DecidableEq

def identitySlot : String := "identity"

def TransferResolution.slot (item : TransferResolution) : String :=
  match item.action with
  | .matched _ | .rename _ => identitySlot
  | .reassign field _ => field

inductive PlanError where
  | valueError (message : String)
  | typeError
  | driver
  deriving DecidableEq

abbrev Bucket := Dict String TransferResolution

abbrev Buckets := Dict (String × Int) Bucket

def Buckets.at (buckets : Buckets) (owner : String) (id : Int) : Bucket :=
  (Dict.get buckets (owner,id)).getD .empty

def addResolution (buckets : Buckets) (item : TransferResolution) : Except PlanError Buckets :=
  let key := (item.entityType,item.sourceId)
  let bucket := (Dict.get buckets key).getD .empty
  if bucket.contains item.slot then
    .error (.valueError "Duplicate conflict resolutions were supplied")
  else .ok (Dict.set buckets key (bucket.set item.slot item))

def crowdedMatch (bucket : Bucket) : Bool :=
  match (bucket.get identitySlot).map TransferResolution.action with
  | some (.matched _) => decide (1 < bucket.items.length)
  | _ => false

def resolutionBuckets (resolutions : List TransferResolution) : Except PlanError Buckets := do
  let buckets ← resolutions.foldlM addResolution Dict.empty
  if buckets.items.any fun p => crowdedMatch p.2 then
    .error (.valueError "A record matched to an existing asset cannot also be reassigned")
  else pure buckets

/-! The local inventory, as far as planning reads it. -/

structure LocalRow where
  id : Int
  identity : Option String

structure Inventory where
  rows : EntityType → List LocalRow

def Inventory.ids (inv : Inventory) (t : EntityType) : List Int := (inv.rows t).map LocalRow.id

/-- The types in the order of `_ENTITY_MODELS`. -/
def entityModels : List EntityType :=
  [.hardware,.computeUnits,.services,.storage,.networks,.miscItems,.docs,.tags,.hardwareClusters,
    .externalNodes]

def inventoryFingerprint (py : Runtime) (inv : Inventory) : String :=
  py.stableDigest (entityModels.map fun t => (t,(inv.rows t).map fun row =>
    (row.id,if (uniqueField t).isSome then row.identity else none)))

def Inventory.using (inv : Inventory) (t : EntityType) (text : String) : List LocalRow :=
  (inv.rows t).filter fun row => row.identity = some text

/-! Planning. -/

inductive Owner where
  | entity (t : EntityType)
  | relation (r : RelationType)

def Owner.name : Owner → String
  | .entity t => t.name
  | .relation r => r.name

def noReference (owner : Owner) (field : String) : PlanError :=
  .valueError (owner.name ++ " has no portable " ++ field ++ " reference to reassign")

def referenceTargetType (owner : Owner) (field : String) (row : Record) :
    Except PlanError EntityType :=
  match owner with
  | .entity t =>
      match (internalRefs t).lookup field with
      | some target => .ok target
      | none => .error (noReference owner field)
  | .relation r =>
      match (relationRefs r).lookup field with
      | some target => .ok target
      | none =>
          match attachmentField r with
          | none => .error (noReference owner field)
          | some attached =>
              if field = "entity_id" then
                match attachmentType row with
                | some target => .ok target
                | none => .error (noReference owner field)
              else if field = attached.1 then .ok attached.2
              else .error (noReference owner field)

abbrev Overrides := Dict String Int

def addOverride (inv : Inventory) (owner : Owner) (row : Record) (overrides : Overrides)
    (entry : String × TransferResolution) : Except PlanError Overrides :=
  if entry.1 = identitySlot then .ok overrides
  else
    match entry.2.action with
    | .reassign field targetId => do
        let target ← referenceTargetType owner field row
        if targetId ∈ inv.ids target then pure (overrides.set field targetId)
        else .error (.valueError
          ("The selected " ++ target.name ++ " for " ++ field ++ " no longer exists."))
    | .matched _ =>
        .error (.valueError ("Unsupported resolution action 'match' for " ++ owner.name))
    | .rename _ =>
        .error (.valueError ("Unsupported resolution action 'rename' for " ++ owner.name))

def reassignOverrides (inv : Inventory) (owner : Owner) (row : Record) (bucket : Bucket) :
    Except PlanError Overrides :=
  bucket.items.foldlM (addOverride inv owner row) Dict.empty

structure Conflict where
  entityType : String
  sourceId : Int
  reasonCode : String
  message : String
  candidates : List Int := []
  candidateLabels : List String := []
  field : Option String := none
  deriving DecidableEq

inductive MappingAction where
  | matched (targetId : Int)
  | create (overrides : List (String × String))
  deriving DecidableEq

structure Mapping where
  sourceId : Int
  action : MappingAction
  deriving DecidableEq

structure TypePlan where
  mappings : List Mapping := []
  conflicts : List Conflict := []
  creates : Nat := 0
  matches_ : Nat := 0
  claimed : List Value := []
  refOverrides : Dict Int Overrides := Dict.empty

def TypePlan.conflict (plan : TypePlan) (c : Conflict) : TypePlan :=
  {plan with conflicts := plan.conflicts ++ [c]}

def TypePlan.create (plan : TypePlan) (id : Int) (overrides : List (String × String)) : TypePlan :=
  {plan with mappings := plan.mappings ++ [⟨id,.create overrides⟩]
             creates := plan.creates+1}

def planMatch (inv : Inventory) (t : EntityType) (id targetId : Int) (plan : TypePlan) : TypePlan :=
  if targetId ∈ inv.ids t then
    {plan with mappings := plan.mappings ++ [⟨id,.matched targetId⟩]
               matches_ := plan.matches_+1}
  else plan.conflict
    { entityType := t.name, sourceId := id, reasonCode := "match_not_found"
      message := "The selected local match no longer exists." }

def planRename (py : Runtime) (inv : Inventory) (t : EntityType) (id : Int) (newValue : String)
    (plan : TypePlan) : Except PlanError TypePlan :=
  match uniqueField t with
  | none => .error (.valueError (t.name ++ " records have no renamable identity field"))
  | some unique =>
      if inv.using t newValue ≠ [] then
        .error (.valueError ("The proposed " ++ unique ++ " " ++ py.repr (.str newValue) ++
          " is already used by an existing record."))
      else if plan.claimed.any (Value.same (.str newValue)) then
        .error (.valueError ("Two incoming records both use the proposed " ++ unique ++ " " ++
          py.repr (.str newValue) ++ "."))
      else .ok ({plan with claimed := .str newValue::plan.claimed}.create id [(unique,newValue)])

def planUnique (py : Runtime) (inv : Inventory) (t : EntityType) (id : Int) (unique : String)
    (value : Value) (plan : TypePlan) : Except PlanError TypePlan :=
  match py.bound value with
  | none => .error .driver
  | some text =>
      let found := (inv.using t text).take 20
      if found ≠ [] then
        .ok (plan.conflict
          { entityType := t.name, sourceId := id, reasonCode := "unique_identity_conflict"
            message := "A local " ++ t.name ++ " record uses the same " ++ unique ++
              "; choose it explicitly or revise the source inventory."
            candidates := found.map LocalRow.id
            candidateLabels := found.filterMap LocalRow.identity
            field := some unique })
      else if ¬value.hashable then .error .typeError
      else if plan.claimed.any (Value.same value) then
        .ok (plan.conflict
          { entityType := t.name, sourceId := id, reasonCode := "duplicate_source_identity"
            message := "Another incoming record already uses the " ++ unique ++ " " ++
              py.repr value ++ "; keep one or rename the other."
            field := some unique })
      else .ok ({plan with claimed := value::plan.claimed}.create id [])

def planIncoming (py : Runtime) (inv : Inventory) (t : EntityType) (row : Record)
    (plan : TypePlan) : Except PlanError TypePlan :=
  match uniqueField t with
  | none => .ok (plan.create (sourceId row) [])
  | some unique =>
      match row.get unique with
      | none | some .null => .ok (plan.create (sourceId row) [])
      | some value => planUnique py inv t (sourceId row) unique value plan

def planReassigns (inv : Inventory) (t : EntityType) (row : Record) (bucket : Bucket)
    (plan : TypePlan) : Except PlanError TypePlan :=
  if bucket.get identitySlot = none ∧ 0 < bucket.items.length then do
    let overrides ← reassignOverrides inv (.entity t) row bucket
    pure {plan with refOverrides := plan.refOverrides.set (sourceId row) overrides}
  else pure plan

def planRow (py : Runtime) (inv : Inventory) (buckets : Buckets) (t : EntityType) (plan : TypePlan)
    (row : Record) : Except PlanError TypePlan := do
  let bucket := buckets.at t.name (sourceId row)
  let plan ← planReassigns inv t row bucket plan
  match (bucket.get identitySlot).map TransferResolution.action with
  | some (.matched targetId) => pure (planMatch inv t (sourceId row) targetId plan)
  | some (.rename newValue) => planRename py inv t (sourceId row) newValue plan
  | _ => planIncoming py inv t row plan

def planRows (py : Runtime) (inv : Inventory) (buckets : Buckets) (t : EntityType)
    (rows : List Record) : Except PlanError TypePlan :=
  rows.foldlM (planRow py inv buckets t) {}

def requireRef (ids : EntityType → List Int) (owner : Owner) (ownerId : Int) (field : String)
    (target : EntityType) (value : Option Value) (overrides : Overrides) : List Conflict :=
  match value with
  | none | some .null => []
  | some v =>
      if overrides.contains field ∨ v.asInt.any (· ∈ ids target) then []
      else [{ entityType := owner.name, sourceId := ownerId, reasonCode := "missing_reference"
              message := field ++ " refers to a source entity that is not in the document."
              field := some field }]

def internalConflicts (doc : Document) (refOverrides : Dict EntityType (Dict Int Overrides))
    (ids : EntityType → List Int) (t : EntityType) : List Conflict :=
  (doc.rows t).flatMap fun row =>
    let overrides := (((refOverrides.get t).bind (·.get (sourceId row))).getD .empty)
    (internalRefs t).flatMap fun ref =>
      requireRef ids (.entity t) (sourceId row) ref.1 ref.2 (row.get ref.1) overrides

def relationConflicts (ids : EntityType → List Int) (r : RelationType) (index : Int) (row : Record)
    (overrides : Overrides) : List Conflict :=
  match attachmentField r with
  | some attached =>
      (match attachmentType row with
        | none => [{ entityType := r.name, sourceId := index
                     reasonCode := "unsupported_reference_type"
                     message := "The attachment entity type is not portable." }]
        | some target =>
            requireRef ids (.relation r) index "entity_id" target (row.get "entity_id") overrides) ++
      requireRef ids (.relation r) index attached.1 attached.2 (row.get attached.1) overrides
  | none => (relationRefs r).flatMap fun ref =>
      requireRef ids (.relation r) index ref.1 ref.2 (row.get ref.1) overrides

structure RelationPlan where
  overrides : Dict Int Overrides := Dict.empty
  conflicts : List Conflict := []

def numbered (rows : List Record) : List (Int × Record) :=
  rows.zipIdx.map fun p => ((p.2 : Int)+1,p.1)

def planRelation (inv : Inventory) (buckets : Buckets) (ids : EntityType → List Int)
    (r : RelationType) (plan : RelationPlan) (entry : Int × Record) :
    Except PlanError RelationPlan := do
  let bucket := buckets.at r.name entry.1
  if bucket.get identitySlot ≠ none then
    throw (.valueError ("Relationship rows cannot be matched or renamed (" ++ r.name ++ ")."))
  let rows ← if 0 < bucket.items.length then do
      let overrides ← reassignOverrides inv (.relation r) entry.2 bucket
      pure (plan.overrides.set entry.1 overrides)
    else pure plan.overrides
  let overrides := (rows.get entry.1).getD .empty
  pure ⟨rows,plan.conflicts ++ relationConflicts ids r entry.1 entry.2 overrides⟩

def planRelations (inv : Inventory) (buckets : Buckets) (ids : EntityType → List Int)
    (r : RelationType) (rows : List Record) : Except PlanError RelationPlan :=
  (numbered rows).foldlM (planRelation inv buckets ids r) {}

structure PlanJson where
  mappings : Dict EntityType (List Mapping)
  creates : Dict EntityType Nat
  matches_ : Dict EntityType Nat
  relationships : Dict RelationType Nat
  resolutions : List TransferResolution
  refOverrides : Dict EntityType (Dict String Overrides)
  relationOverrides : Dict RelationType (Dict String Overrides)
  conflictCount : Nat
  deriving DecidableEq

structure BuiltImportPlan where
  inventoryDigest : String
  plan : PlanJson
  conflicts : List Conflict
  deriving DecidableEq

/-- `{owner: {str(id): overrides} for owner, rows in table.items() for id, overrides in rows.items()}` -/
def overridesJson {κ : Type} [DecidableEq κ] (table : Dict κ (Dict Int Overrides)) :
    Dict κ (Dict String Overrides) :=
  .ofPairs (table.items.flatMap fun p => p.2.items.map fun q =>
    (p.1,Dict.ofPairs [(toString q.1,q.2)]))

def mapValues {κ α β ε : Type} [DecidableEq κ] (d : Dict κ α) (f : κ → α → Except ε β) :
    Except ε (Dict κ β) :=
  Dict.ofPairs <$> d.items.mapM fun p => (p.1,·) <$> f p.1 p.2

def buildImportPlan (py : Runtime) (inv : Inventory) (doc : Document)
    (resolutions : List TransferResolution) : Except PlanError BuiltImportPlan := do
  let buckets ← resolutionBuckets resolutions
  let plans ← mapValues doc.entities (planRows py inv buckets)
  let ids := fun t => (doc.rows t).map sourceId
  let refOverrides := Dict.ofPairs (plans.items.map fun p => (p.1,p.2.refOverrides))
  let relations ← mapValues doc.relationships (planRelations inv buckets ids)
  let conflicts := plans.items.flatMap (fun p => p.2.conflicts) ++
    internalRefTypes.flatMap (internalConflicts doc refOverrides ids) ++
    relations.items.flatMap fun p => p.2.conflicts
  pure
    { inventoryDigest := inventoryFingerprint py inv
      plan :=
        { mappings := .ofPairs (plans.items.map fun p => (p.1,p.2.mappings))
          creates := .ofPairs (plans.items.map fun p => (p.1,p.2.creates))
          matches_ := .ofPairs (plans.items.map fun p => (p.1,p.2.matches_))
          relationships := .ofPairs (doc.relationships.items.map fun p => (p.1,p.2.length))
          resolutions := resolutions
          refOverrides := overridesJson refOverrides
          relationOverrides :=
            overridesJson (.ofPairs (relations.items.map fun p => (p.1,p.2.overrides)))
          conflictCount := conflicts.length }
      conflicts := conflicts }

end CircuitBreaker.InventoryTransfer
