import CircuitBreaker.BreadthFirst
import CircuitBreaker.DependencyEdges

/-! Bounded, explainable potential-impact traversal over operational dependencies. -/

namespace CircuitBreaker.BlastRadius

open BreadthFirst DependencyEdges JsonText

structure AssetRef where
  assetType : AssetType
  assetId : Int
  name : Text
  status : Option Text
  deriving DecidableEq

def AssetRef.key (ref : AssetRef) : AssetKey := (ref.assetType,ref.assetId)

structure ImpactPath where
  asset : AssetRef
  edges : List DependencyEdge
  provenance : Provenance

structure ImpactLimits where
  maxNodes : Int
  maxDepth : Int
  maxEdges : Int

/-- `DEFAULT_MAX_NODES`, `DEFAULT_MAX_DEPTH`, `DEFAULT_MAX_EDGES` -/
def defaultLimits : ImpactLimits := ⟨500,12,5000⟩

inductive TruncationReason where
  | nodeLimit | depthLimit | edgeLimit

inductive Completeness where
  | complete | truncated
  deriving DecidableEq

structure BlastRadiusResult where
  rootAsset : AssetRef
  impactedHardware : List AssetRef
  impactedComputeUnits : List AssetRef
  impactedServices : List AssetRef
  impactedStorage : List AssetRef
  totalImpactCount : Nat
  summary : Text
  paths : List ImpactPath
  edges : List DependencyEdge
  connectivity : List DependencyEdge
  evaluatedAt : Nat
  completeness : Completeness
  truncationReason : Option TruncationReason
  limits : ImpactLimits
  inferredAvailable : Bool

def BlastRadiusResult.impacted (r : BlastRadiusResult) : List AssetRef :=
  r.impactedHardware++(r.impactedComputeUnits++(r.impactedServices++r.impactedStorage))

inductive Raised where
  | unknownAssetType (assetType : Text)
  | valueError (message : Text)
  | notFound (message : Text)

/-- `VALID_ASSET_TYPES` -/
def validAssetTypes : List AssetType := [.hardware,.computeUnit,.service,.storage]

/-- The rows of an asset type's model, as references; `network` is in no `_MODEL_MAP`. A model
without the column has no status. -/
def modelRows (db : Database) : AssetType → Option (List AssetRef)
  | .hardware => some (db.hardware.rows.map fun obj =>
      ⟨.hardware,obj.id,obj.name,orElse obj.status obj.telemetryStatus⟩)
  | .computeUnit => some (db.computeUnits.rows.map fun obj =>
      ⟨.computeUnit,obj.id,obj.name,orElse obj.status none⟩)
  | .service => some (db.services.rows.map fun obj =>
      ⟨.service,obj.id,obj.name,orElse obj.status none⟩)
  | .storage => some (db.storage.rows.map fun obj => ⟨.storage,obj.id,obj.name,none⟩)
  | .network => none

def resolveMany (db : Database) (keys : List AssetKey) : Dict AssetKey AssetRef :=
  let grouped := Dict.gather (keys.filter fun key => (modelRows db key.1).isSome)
  Dict.ofPairs (grouped.items.flatMap fun group =>
    (((modelRows db group.1).getD []).filter fun ref => ref.assetId ∈ group.2).map fun ref =>
      ((group.1,ref.assetId),ref))

/-! ### The traversal -/

/-- What the loop carries from asset to asset. `explored` has the edges whose dependents were
looked up; it is kept for the statements and read by nothing. -/
structure Traversal where
  search : Search AssetKey DependencyEdge
  truncationReason : Option TruncationReason
  examinedEdges : Nat
  explored : List DependencyEdge

def Traversal.truncate (t : Traversal) (reason : TruncationReason) : Traversal :=
  { t with truncationReason := some reason }

def Traversal.explore (t : Traversal) (edge : DependencyEdge) : Traversal :=
  { t with
    examinedEdges := t.examinedEdges+1
    explored := t.explored++[edge] }

/-- `queue.popleft()` -/
def Traversal.pop (t : Traversal) (queue : List AssetKey) : Traversal :=
  { t with search := { t.search with queue := queue } }

/-- `for edge in outgoing` -/
def examine (limits : ImpactLimits) (provider : AssetKey) :
    List DependencyEdge → Traversal → Traversal
  | [],t => t
  | edge::rest,t =>
    if limits.maxEdges < (t.examinedEdges : Int)+1 then
      { t.truncate .edgeLimit with examinedEdges := t.examinedEdges+1 }
    else if edge.dependent ∈ t.search.visited then
      examine limits provider rest (t.explore edge)
    else if limits.maxNodes ≤ (t.search.visited.length : Int)-1 then
      { t.truncate .nodeLimit with examinedEdges := t.examinedEdges+1 }
    else
      examine limits provider rest
        { t.explore edge with
          search := t.search.visit DependencyEdge.dependent provider edge }

/-- `while queue and truncation_reason is None`; no turn comes without a queued asset. -/
def traverse (limits : ImpactLimits) (adjacency : Dict AssetKey (List DependencyEdge)) :
    Nat → Traversal → Traversal
  | 0,t => t
  | n+1,t =>
    if t.truncationReason.isSome then t
    else
      match t.search.queue with
      | [] => t
      | provider::queue =>
        if limits.maxDepth ≤ (t.search.depth provider : Int) ∧
            outgoing adjacency provider ≠ [] then
          (t.pop queue).truncate .depthLimit
        else traverse limits adjacency n
          (examine limits provider (outgoing adjacency provider) (t.pop queue))

def begin (root : AssetKey) : Traversal := ⟨start root,none,0,[]⟩

/-- At most `max_nodes` assets are found beside the root, so there are no more turns than this. -/
def traversal (limits : ImpactLimits) (adjacency : Dict AssetKey (List DependencyEdge))
    (root : AssetKey) : Traversal :=
  traverse limits adjacency (limits.maxNodes+1).toNat (begin root)

/-- `_path_for`: as many steps back as edges were used reach the root. -/
def pathFor (key root : AssetKey) (search : Search AssetKey DependencyEdge) :
    List DependencyEdge :=
  (backtrack DependencyEdge.provider search.predecessor root search.used.length key).reverse

/-! ### The result -/

def refKey (ref : AssetRef) : Text ×ₗ Int := toLex (ref.assetType.text,ref.assetId)

def pathProvenance (path : List DependencyEdge) : Provenance :=
  if path.any (·.provenance = .inferred) then .inferred else .confirmed

def summaryParts : List (Text × List AssetRef) → List Text
  | [] => []
  | (label,refs)::rest =>
    if refs = [] then summaryParts rest
    else (decimal refs.length++ ' '::label++(if refs.length ≠ 1 then ['s'] else []))::
      summaryParts rest

def summaryText (name : Text) (parts : List Text) (truncated : Bool) : Text :=
  let suffix := if truncated then " Results are truncated.".toList else []
  if parts ≠ [] then
    "Potential impact if ".toList++name++" is unavailable: ".toList++
      (", ".toList).intercalate parts++" affected.".toList++suffix
  else
    "No confirmed downstream dependencies were found for ".toList++name++ '.'::suffix

/-- `calculate_blast_radius` once the root is resolved and the edges are loaded. -/
def impactOf (edgeSet : EdgeSet) (db : Database) (rootKey : AssetKey) (rootResolved : AssetRef)
    (includeInferred : Bool) (limits : ImpactLimits) (now : Nat) : BlastRadiusResult :=
  let adjacency := buildImpactAdjacency edgeSet.dependencies includeInferred
  let t := traversal limits adjacency rootKey
  let impactedKeys := t.search.visited.filter (· ≠ rootKey)
  let refs := resolveMany db impactedKeys
  let impacted := sortBy refKey (refs.items.map Prod.snd)
  let ofType := fun assetType => impacted.filter (·.assetType = assetType)
  let parts := summaryParts
    [("VM".toList,ofType .computeUnit),("service".toList,ofType .service),
      ("downstream device".toList,ofType .hardware),("storage item".toList,ofType .storage)]
  { rootAsset := rootResolved
    impactedHardware := ofType .hardware
    impactedComputeUnits := ofType .computeUnit
    impactedServices := ofType .service
    impactedStorage := ofType .storage
    totalImpactCount := impacted.length
    summary := summaryText rootResolved.name parts t.truncationReason.isSome
    paths := impacted.map fun ref =>
      let path := pathFor ref.key rootKey t.search
      ⟨ref,path,pathProvenance path⟩
    edges := t.search.used.filter fun edge => refs.contains edge.dependent
    connectivity := edgeSet.connectivity.filter fun edge =>
      (refs.contains edge.provider || edge.provider = rootKey) ||
        (refs.contains edge.dependent || edge.dependent = rootKey)
    evaluatedAt := now
    completeness := if t.truncationReason.isSome then .truncated else .complete
    truncationReason := t.truncationReason
    limits := limits
    inferredAvailable := edgeSet.dependencies.any (·.provenance = .inferred) }

/-- `calculate_blast_radius` over edges that were loaded already. -/
def calculateOver (edgeSet : EdgeSet) (db : Database) (assetType : Text) (assetId : Int)
    (includeInferred : Bool) (limits : ImpactLimits) (now : Nat) :
    Except Raised BlastRadiusResult :=
  match validAssetTypes.find? (·.text = assetType) with
  | none => .error (.unknownAssetType assetType)
  | some kind =>
    if limits.maxNodes < 1 ∨ limits.maxDepth < 1 ∨ limits.maxEdges < 1 then
      .error (.valueError "Impact traversal limits must be positive".toList)
    else
      match (resolveMany db [(kind,assetId)]).get (kind,assetId) with
      | none => .error (.notFound "Asset not found.".toList)
      | some rootResolved =>
        .ok (impactOf edgeSet db (kind,assetId) rootResolved includeInferred limits now)

def calculateBlastRadius (db : Database) (assetType : Text) (assetId : Int)
    (includeInferred : Bool) (limits : ImpactLimits) (now : Nat) :
    Except Raised BlastRadiusResult :=
  calculateOver (loadDependencyEdges db) db assetType assetId includeInferred limits now

end CircuitBreaker.BlastRadius
