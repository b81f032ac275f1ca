import CircuitBreaker.CveMatching
import CircuitBreaker.StepRuns
import CircuitBreaker.TextWords
import Mathlib.Algebra.Order.Ring.Rat
import Mathlib.Data.List.Induction
import Mathlib.Data.List.Perm.Basic

/-! The vulnerability assessment of one entity and of the whole fleet. The first asks the feed for
the records of one identity; the second groups entities by identity, selects the records of all
their products in one statement and keeps outcomes in a memo that later passes use. -/

namespace CircuitBreaker.VulnerabilityAssessment
open StepRuns CveMatching List

def maxCandidates : Nat := 1000
def maxFindings : Nat := 50
def cacheMaxEntries : Nat := 512

/-! The inventory. -/

inductive EntityType where
  | hardware | computeUnit | service

structure Hardware where
  id : Nat
  name : Text
  vendor : Option Text := none
  vendorCatalogKey : Option Text := none
  model : Option Text := none
  modelCatalogKey : Option Text := none
  softwarePlatform : Option Text := none
  osVersion : Option Text := none

structure ComputeUnit where
  id : Nat
  name : Text
  os : Option Text := none

structure Service where
  id : Nat
  name : Text

structure Override where
  vendor : Option Text
  product : Option Text
  version : Option Text
  versionScheme : Option Scheme
  revision : Nat

structure Inventory where
  hardware : List Hardware := []
  computeUnits : List ComputeUnit := []
  services : List Service := []
  overrides : EntityType → Nat → Option Override := fun _ _ => none
  hardwareIds : (hardware.map Hardware.id).Nodup := by simp
  computeIds : (computeUnits.map ComputeUnit.id).Nodup := by simp
  serviceIds : (services.map Service.id).Nodup := by simp

/-- `a or b` of texts that may be missing. -/
def orElse (a b : Option Text) : Option Text := if a.getD [] = [] then b else a

def Hardware.values (h : Hardware) : Option Text × Option Text × Option Text :=
  (orElse h.vendorCatalogKey h.vendor,
    orElse (orElse h.modelCatalogKey h.model) h.softwarePlatform,h.osVersion)

def ComputeUnit.values (c : ComputeUnit) : Option Text × Option Text × Option Text := (none,c.os,none)

def Service.values (s : Service) : Option Text × Option Text × Option Text := (none,some s.name,none)

/-- What the inventory says about one entity; `none` is an entity that is not found. -/
def Inventory.entityValues (inv : Inventory) :
    EntityType → Nat → Option (Option Text × Option Text × Option Text)
  | .hardware,id => (inv.hardware.find? (·.id = id)).map Hardware.values
  | .computeUnit,id => (inv.computeUnits.find? (·.id = id)).map ComputeUnit.values
  | .service,id => (inv.services.find? (·.id = id)).map Service.values

/-! The feed. -/

structure Applicability where
  vendor : Option Text
  product : Option Text

structure Record where
  id : Nat
  cveId : Text
  severity : Option Text
  cvssScore : Option ℚ
  configurations : List Configuration
  applicability : List Applicability

structure Generation where
  id : Nat
  completedAt : Option Nat
  complete : Bool
  records : List Record
  recordIds : (records.map Record.id).Nodup

inductive FeedStatus where
  | unavailable | incomplete | ready | stale
  deriving DecidableEq

/-- The reasons of a feed's state, `ready` among them, and of an assessment. -/
inductive Reason where
  | feedMissing | feedIncomplete | feedStale | ready | identityMissing | versionMissing
  | versionUnsupported | candidateLimit | fleetLimit | completed
  deriving DecidableEq

inductive State where
  | unavailable | unassessed | partial_ | completed | stale
  deriving DecidableEq

inductive Completeness where
  | none_ | partial_ | complete
  deriving DecidableEq

structure FeedState where
  state : FeedStatus
  reasonCode : Reason
  generation : Option Generation := none
  ageSeconds : Option Nat := none

def activeFeedGeneration (feed : List Generation) : Option Generation :=
  ((feed.filter Generation.complete).insertionSort fun a b =>
    b.completedAt.getD 0 ≤ a.completedAt.getD 0).head?

/-- `interval` is the settings' hours between syncs, if there are settings. -/
def getFeedState (feed : List Generation) (interval : Option Nat) (now : Nat) : FeedState :=
  match activeFeedGeneration feed with
  | none =>
    if feed = [] then {state := .unavailable, reasonCode := .feedMissing}
    else {state := .incomplete, reasonCode := .feedIncomplete}
  | some generation =>
    let age := generation.completedAt.map fun completed => (now-completed)/1000000
    let staleAfter := max 24 (interval.getD 24*2)*3600
    if age.all (· ≤ staleAfter) && age.isSome then ⟨.ready,.ready,some generation,age⟩
    else ⟨.stale,.feedStale,some generation,age⟩

structure Finding where
  cveId : Text
  severity : Option Text
  cvssScore : Option ℚ
  evidence : List Evidence

structure AssessmentResult where
  state : State
  reasonCode : Reason
  identity : AssessmentIdentity
  feedGeneration : Option Nat
  feedAgeSeconds : Option Nat
  assessedAt : Nat
  findings : List Finding
  total : Nat
  completeness : Completeness
  limitations : List Text

def blocked (identity : AssessmentIdentity) (feed : FeedState) (assessedAt : Nat) (state : State)
    (reason : Reason) (limitation : String) : AssessmentResult :=
  ⟨state,reason,identity,feed.generation.map Generation.id,feed.ageSeconds,assessedAt,[],0,.none_,
    [limitation.toList]⟩

def readinessResult (identity : AssessmentIdentity) (feed : FeedState) (assessedAt : Nat) :
    Option AssessmentResult :=
  let blocked := blocked identity feed assessedAt
  if feed.state = .unavailable ∨ feed.state = .incomplete then
    some (blocked .unavailable feed.reasonCode "A complete vulnerability feed is not available.")
  else if identity.product.getD [] = [] then
    some (blocked .unassessed .identityMissing "A product identity is required before matching.")
  else if identity.version.getD [] = [] then
    some (blocked .unassessed .versionMissing "A product version is required before matching.")
  else if identity.versionScheme = none then
    some (blocked .unassessed .versionUnsupported
      "This version format does not have a supported comparator.")
  else none

def scoreLe (a b : Record) : Bool :=
  match a.cvssScore, b.cvssScore with
  | _, none => true
  | none, some _ => false
  | some x, some y => y ≤ x

/-- The order of the window function: scores, and of one score the older record first. -/
def rankLe (a b : Record) : Prop :=
  scoreLe a b = true ∧ (scoreLe b a = true → a.id ≤ b.id)

instance : DecidableRel rankLe := fun _ _ => inferInstanceAs (Decidable (_ ∧ _))

structure Arrangement where
  arrange : List Record → List Record
  perm : ∀ l, (arrange l).Perm l
  sorted : ∀ l, (arrange l).Pairwise fun a b => scoreLe a b = true

abbrev PairKey := Option Text × Text

abbrev IdentityKey := Option Text × Option Text × Option Text × Option Scheme

structure PairOrder where
  order : List PairKey → List PairKey
  perm : ∀ l, (order l).Perm l

section Assess
variable (u : Tables)

def Applicability.pair (a : Applicability) : Option PairKey :=
  a.product.map fun product => (a.vendor.map u.sqlLower,u.sqlLower product)

def resolveAssessmentIdentity (inv : Inventory) (type : EntityType) (id : Nat) :
    Option AssessmentIdentity :=
  (inv.entityValues type id).map fun (vendor,product,version) =>
    match inv.overrides type id with
    | some o => ⟨o.vendor,o.product,o.version,o.versionScheme,.operator,o.revision⟩
    | none => ⟨vendor,product,version,inferVersionScheme u version,.inventory,0⟩

def finding (identity : AssessmentIdentity) (candidate : Record) : Finding :=
  ⟨candidate.cveId,candidate.severity,candidate.cvssScore,
    (evaluateApplicability u candidate.configurations identity).evidence⟩

def having (truth : Truth) (identity : AssessmentIdentity) (candidates : List Record) : List Record :=
  candidates.filter fun c => (evaluateApplicability u c.configurations identity).result = truth

def evaluateCandidates (candidates : List Record) (identity : AssessmentIdentity) (feed : FeedState)
    (assessedAt : Nat) (candidateLimited : Bool) : AssessmentResult :=
  let unknown := having u .unknown identity candidates ≠ []
  let all := (having u .yes identity candidates).map (finding u identity)
  let findingLimited := maxFindings < all.length
  let findings := all.take maxFindings
  let partial_ := candidateLimited ∨ findingLimited ∨ unknown
  {state := if partial_ then .partial_ else if feed.state = .stale then .stale else .completed
   reasonCode :=
    if candidateLimited then .candidateLimit
    else if feed.state = .stale then .feedStale
    else if unknown then .versionUnsupported else .completed
   identity := identity
   feedGeneration := feed.generation.map Generation.id
   feedAgeSeconds := feed.ageSeconds
   assessedAt := assessedAt
   findings := findings
   total := findings.length
   completeness := if partial_ then .partial_ else .complete
   limitations := sortedSet (candidates.flatMap (fun c =>
      (evaluateApplicability u c.configurations identity).limitations) ++
    (if candidateLimited then ["Candidate limit reached; coverage is partial.".toList] else []) ++
    if findingLimited then ["Only the first 50 findings are returned.".toList] else [])}

/-- Whether an applicability row is one of an identity's, as the query for one identity filters. -/
def Applicability.matchesKey (a : Applicability) (key : IdentityKey) : Bool :=
  (a.product.map u.sqlLower = key.2.1 && key.2.1.isSome) &&
    (key.1 = none || a.vendor.map u.sqlLower = key.1)

def matching (generation : Generation) (key : IdentityKey) : List Record :=
  generation.records.filter fun r => r.applicability.any fun a => a.matchesKey u key

def assessIdentity (arrangement : Arrangement) (identity : AssessmentIdentity) (feed : FeedState)
    (assessedAt : Nat) : AssessmentResult :=
  match readinessResult identity feed assessedAt with
  | some result => result
  | none =>
    let found := match feed.generation with
      | some generation => matching u generation (identityKey u identity)
      | none => []
    let candidates := (arrangement.arrange found).take (maxCandidates+1)
    evaluateCandidates u (candidates.take maxCandidates) identity feed assessedAt
      (maxCandidates < candidates.length)

def assessEntity (arrangement : Arrangement) (inv : Inventory) (feed : List Generation)
    (interval : Option Nat) (type : EntityType) (id now : Nat) : Option AssessmentResult :=
  (resolveAssessmentIdentity u inv type id).map fun identity =>
    assessIdentity u arrangement identity (getFeedState feed interval now) now

/-! The fleet. -/

structure FleetEntity where
  entityType : EntityType
  entityId : Nat
  name : Text
  identity : AssessmentIdentity

def inventoryIdentity (values : Option Text × Option Text × Option Text) : AssessmentIdentity :=
  ⟨values.1,values.2.1,values.2.2,inferVersionScheme u values.2.2,.inventory,0⟩

def fleetEntity (inv : Inventory) (type : EntityType) (id : Nat) (name : Text)
    (base : AssessmentIdentity) : FleetEntity :=
  ⟨type,id,name,match inv.overrides type id with
    | some o => ⟨o.vendor,o.product,o.version,o.versionScheme,.operator,o.revision⟩
    | none => base⟩

def resolveFleetIdentities (inv : Inventory) : List FleetEntity :=
  inv.hardware.map (fun h => fleetEntity inv .hardware h.id h.name (inventoryIdentity u h.values)) ++
  inv.computeUnits.map (fun c =>
    fleetEntity inv .computeUnit c.id c.name (inventoryIdentity u c.values)) ++
  inv.services.map fun s => fleetEntity inv .service s.id s.name (inventoryIdentity u s.values)

/-- The records that the applicability rows of one pair name, a record as often as it has rows. -/
def rowsOf (generation : Generation) (pair : PairKey) : List Record :=
  generation.records.flatMap fun r =>
    (r.applicability.filter fun a => a.pair u = some pair).map fun _ => r

/-- Candidates by pair: the pairs in the order of the answer, the records of each by rank, and
whether there were more. -/
structure CandidatePool where
  pairs : List PairKey := []
  byPair : PairKey → List Record := fun _ => []
  capped : PairKey → Bool := fun _ => false

def selectCandidates (order : PairOrder) (generation : Generation) (products : List Text) :
    CandidatePool where
  pairs := order.order ((generation.records.flatMap fun r =>
    r.applicability.filterMap (Applicability.pair u)).filter (·.2 ∈ products)).eraseDups
  byPair := fun pair =>
    if pair.2 ∈ products then ((rowsOf u generation pair).insertionSort rankLe).take maxCandidates
    else []
  capped := fun pair => pair.2 ∈ products && maxCandidates < (rowsOf u generation pair).length

def addNew (records : List Record) (more : List Record) : List Record :=
  more.foldl (fun out r => if r.id ∈ out.map Record.id then out else out ++ [r]) records

def candidatesFor (pool : CandidatePool) (identity : AssessmentIdentity) : List Record × Bool :=
  match (identityKey u identity).2.1 with
  | none => ([],false)
  | some product =>
    let pairs := match (identityKey u identity).1 with
      | some vendor => [(some vendor,product)]
      | none => pool.pairs.filter (·.2 = product)
    let records := (pairs.map pool.byPair).foldl addNew []
    (records.take maxCandidates,pairs.any pool.capped || maxCandidates < records.length)

structure CacheKey where
  generation : Nat
  feedState : FeedStatus
  identity : IdentityKey
  deriving DecidableEq

/-- The memo; the most recently used entry is the last. -/
abbrev Cache := List (CacheKey × AssessmentResult)

def cachedOutcome (cache : Cache) (key : CacheKey) : Option AssessmentResult × Cache :=
  match cache.find? (·.1 = key) with
  | some entry => (some entry.2,cache.filter (·.1 ≠ key) ++ [entry])
  | none => (none,cache)

def rememberOutcome (cache : Cache) (key : CacheKey) (result : AssessmentResult) : Cache :=
  let entries := cache.filter (·.1 ≠ key) ++ [(key,result)]
  entries.drop (entries.length-cacheMaxEntries)

def assessGroup (feed : FeedState) (pool : CandidatePool) (assessedAt : Nat) (cache : Cache)
    (identity : AssessmentIdentity) : AssessmentResult × Cache :=
  match readinessResult identity feed assessedAt with
  | some result => (result,cache)
  | none =>
    let (candidates,limited) := candidatesFor u pool identity
    let evaluated := evaluateCandidates u candidates identity feed assessedAt limited
    match feed.generation with
    | none => (evaluated,cache)
    | some generation =>
      let key : CacheKey := ⟨generation.id,feed.state,identityKey u identity⟩
      match cachedOutcome cache key with
      | (some result,cache) =>
        ({result with assessedAt := assessedAt, feedAgeSeconds := feed.ageSeconds},cache)
      | (none,cache) => (evaluated,rememberOutcome cache key evaluated)

def assessGroups (feed : FeedState) (pool : CandidatePool) (assessedAt : Nat) :
    List (List FleetEntity) → Cache → List (List FleetEntity × AssessmentResult) × Cache
  | [],cache => ([],cache)
  | [] :: groups,cache => assessGroups feed pool assessedAt groups cache
  | (first :: members) :: groups,cache =>
    let (result,cache) := assessGroup u feed pool assessedAt cache first.identity
    let (rest,cache) := assessGroups feed pool assessedAt groups cache
    ((first :: members,result) :: rest,cache)

end Assess

structure FleetRow where
  entityType : EntityType
  entityId : Nat
  name : Text
  state : State
  reasonCode : Reason
  identity : AssessmentIdentity
  findingCount : Nat
  maxSeverity : Option Text
  maxCvss : Option ℚ
  completeness : Completeness

structure FleetSummary where
  totalEntities : Nat
  byState : State → Nat
  entitiesWithFindings : Nat
  findingsTotal : Nat
  bySeverity : Text → Nat

structure FleetLimits where
  identityLimit : Nat
  identitiesTotal : Nat
  identitiesAssessed : Nat
  identityLimitReached : Bool
  candidateLimitedProducts : List Text

structure FleetAssessment where
  feed : FeedState
  assessedAt : Nat
  summary : FleetSummary
  rows : List FleetRow
  limits : FleetLimits

def severityRank (severity : Text) : Nat :=
  if severity = "critical".toList then 4
  else if severity = "high".toList then 3
  else if severity = "medium".toList then 2
  else if severity = "low".toList then 1
  else 0

section Fleet
variable (u : Tables)

def worstOf (worst : Option Text × Option ℚ) (f : Finding) : Option Text × Option ℚ :=
  let current := u.casefold (f.severity.getD [])
  (if severityRank (worst.1.getD []) < severityRank current then some current else worst.1,
    match f.cvssScore, worst.2 with
    | none, score => score
    | some x, none => some x
    | some x, some y => if y < x then some x else some y)

def worst (findings : List Finding) : Option Text × Option ℚ :=
  findings.foldl (worstOf u) (none,none)

def fleetRow (entity : FleetEntity) (result : AssessmentResult) : FleetRow :=
  ⟨entity.entityType,entity.entityId,entity.name,result.state,result.reasonCode,entity.identity,
    result.total,(worst u result.findings).1,(worst u result.findings).2,result.completeness⟩

def overBudget (entity : FleetEntity) (assessedAt : Nat) : AssessmentResult :=
  ⟨.unassessed,.fleetLimit,entity.identity,none,none,assessedAt,[],0,.none_,
    ["The fleet pass reached its per-request identity budget.".toList]⟩

def sortKey (key : IdentityKey) : List Text :=
  [key.1.getD [],key.2.1.getD [],key.2.2.1.getD [],if key.2.2.2 = none then [] else
    "dotted_numeric".toList]

def orderedKeys (entities : List FleetEntity) : List IdentityKey :=
  (entities.map fun e => identityKey u e.identity).eraseDups.insertionSort fun a b =>
    sortKey a ≤ sortKey b

def members (entities : List FleetEntity) (key : IdentityKey) : List FleetEntity :=
  entities.filter fun e => identityKey u e.identity = key

def summarize (rows : List FleetRow) : FleetSummary :=
  ⟨rows.length,fun state => rows.countP (·.state = state),rows.countP (0 < ·.findingCount),
    (rows.map FleetRow.findingCount).sum,fun severity => rows.countP (·.maxSeverity = some severity)⟩

def readyProducts (entities : List FleetEntity) (feed : FeedState) (assessedAt : Nat)
    (keys : List IdentityKey) : List Text :=
  (keys.filter fun key => ((members u entities key).head?.bind fun e =>
    readinessResult e.identity feed assessedAt).isNone).filterMap fun key => key.2.1

def assessFleet (order : PairOrder) (cache : Cache) (inv : Inventory) (feed : List Generation)
    (interval : Option Nat) (now identityLimit : Nat) : FleetAssessment × Cache :=
  let feedState := getFeedState feed interval now
  let entities := resolveFleetIdentities u inv
  let keys := orderedKeys u entities
  let assessed := keys.take identityLimit
  let deferred := keys.drop identityLimit
  let pool := match feedState.generation with
    | some generation =>
      selectCandidates u order generation (readyProducts u entities feedState now assessed)
    | none => {}
  let (groups,cache) := assessGroups u feedState pool now (assessed.map (members u entities)) cache
  let rows := groups.flatMap (fun g => g.1.map (fleetRow u · g.2)) ++
    (deferred.flatMap (members u entities)).map fun e => fleetRow u e (overBudget e now)
  let capped := groups.filterMap fun g =>
    if g.2.reasonCode = .candidateLimit then g.1.head?.bind fun e => e.identity.product else none
  (⟨feedState,now,summarize rows,rows,
    ⟨identityLimit,keys.length,assessed.length,deferred.length ≠ 0,sortedSet capped⟩⟩,cache)

end Fleet

/-! The feed and the memo over time. -/

structure World where
  feed : List Generation := []
  cache : Cache := []

/-- A sync stores a generation, page by page, until it is complete; from then on it stays. -/
inductive Act where
  | store (generation : Generation)
  | clearIdentityCache
  | assessFleet (order : PairOrder) (inv : Inventory) (interval : Option Nat) (now limit : Nat)

def next (u : Tables) (w : World) : Act → Option World
  | .store generation =>
    if ∀ g ∈ w.feed, g.complete → g.id ≠ generation.id then
      some {w with feed := generation :: w.feed.filter (·.id ≠ generation.id)}
    else none
  | .clearIdentityCache => some {w with cache := []}
  | .assessFleet order inv interval now limit =>
    some {w with cache := (assessFleet u order w.cache inv w.feed interval now limit).2}

def Step (u : Tables) (w : World) (act : Act) (w' : World) : Prop := next u w act = some w'

structure Worst (u : Tables) (findings : List Finding) (severity : Option Text) (score : Option ℚ) :
    Prop where
  severe : ∀ f ∈ findings, severityRank (u.casefold (f.severity.getD [])) ≤ severityRank (severity.getD [])
  severity : severity = none ∨ ∃ f ∈ findings, severity = some (u.casefold (f.severity.getD []))
  high : ∀ f ∈ findings, ∀ x ∈ f.cvssScore, ∃ y ∈ score, x ≤ y
  score : score = none ∨ ∃ f ∈ findings, score = f.cvssScore

structure Agrees (u : Tables) (row : FleetRow) (result : AssessmentResult) : Prop where
  state : row.state = result.state
  reasonCode : row.reasonCode = result.reasonCode
  completeness : row.completeness = result.completeness
  findingCount : row.findingCount = result.findings.length
  worst : Worst u result.findings row.maxSeverity row.maxCvss

def PairOf (key : IdentityKey) (pair : PairKey) : Prop :=
  some pair.2 = key.2.1 ∧ (key.1 = none ∨ pair.1 = key.1)

section Proofs
variable {u : Tables} {generation : Generation} {key : IdentityKey} {pair : PairKey}

theorem worst_spec (findings : List Finding) :
    Worst u findings (worst u findings).1 (worst u findings).2 := by
  unfold worst
  induction findings using List.reverseRecOn with
  | nil => exact ⟨by simp,.inl rfl,by simp,.inl rfl⟩
  | append_singleton fs f ih =>
    rw [foldl_append]
    generalize fs.foldl (worstOf u) (none,none) = before at ih
    simp only [foldl_cons,foldl_nil,worstOf]
    constructor
    · intro g mem
      rcases mem_append.mp mem with mem | mem
      · have old := ih.severe g mem
        split
        · simp only [Option.getD_some]
          omega
        · exact old
      · rw [mem_singleton.mp mem]
        split
        · exact le_rfl
        · omega
    · split
      · exact .inr ⟨f,by simp,rfl⟩
      · rcases ih.severity with none | ⟨g,mem,eq⟩
        · exact .inl none
        · exact .inr ⟨g,by simp [mem],eq⟩
    · intro g mem x hx
      rcases mem_append.mp mem with mem | mem
      · obtain ⟨y,hy,le⟩ := ih.high g mem x hx
        split
        · exact ⟨y,hy,le⟩
        · rename_i hz
          rw [hz] at hy
          cases hy
        · rename_i z y' _ hz
          rw [hz] at hy
          cases hy
          split
          · exact ⟨_,rfl,le.trans (le_of_lt ‹_›)⟩
          · exact ⟨_,rfl,le⟩
      · rw [mem_singleton.mp mem] at hx
        split
        · rename_i hf
          rw [hf] at hx
          cases hx
        · rename_i hf _
          rw [hf] at hx
          cases hx
          exact ⟨x,rfl,le_refl x⟩
        · rename_i hf _
          rw [hf] at hx
          cases hx
          split
          · exact ⟨x,rfl,le_refl x⟩
          · exact ⟨_,rfl,le_of_not_gt ‹_›⟩
    · have old : before.2 = none ∨ ∃ g ∈ fs ++ [f], before.2 = g.cvssScore := by
        rcases ih.score with none | ⟨g,mem,eq⟩
        · exact .inl none
        · exact .inr ⟨g,by simp [mem],eq⟩
      have new : ∃ g ∈ fs ++ [f], f.cvssScore = g.cvssScore := ⟨f,by simp,rfl⟩
      split
      · exact old
      · rename_i hf _
        rw [←hf]
        exact .inr new
      · rename_i hf hb
        split
        · rw [←hf]
          exact .inr new
        · rw [←hb]
          exact old

theorem Worst.of_mem {fs gs : List Finding} {severity : Option Text} {score : Option ℚ}
    (mem : ∀ f, f ∈ fs ↔ f ∈ gs) (h : Worst u fs severity score) : Worst u gs severity score where
  severe := fun f hf => h.severe f ((mem f).mpr hf)
  severity := h.severity.imp id fun ⟨f,hf,eq⟩ => ⟨f,(mem f).mp hf,eq⟩
  high := fun f hf => h.high f ((mem f).mpr hf)
  score := h.score.imp id fun ⟨f,hf,eq⟩ => ⟨f,(mem f).mp hf,eq⟩

/-! Which records are candidates. -/

theorem matchesKey_iff {a : Applicability} :
    a.matchesKey u key = true ↔ ∃ pair, a.pair u = some pair ∧ PairOf key pair := by
  obtain ⟨vendor,product⟩ := a
  simp only [Applicability.matchesKey,Applicability.pair,PairOf]
  cases product with
  | none =>
    simp only [Option.map_none,Bool.and_eq_true,decide_eq_true_eq]
    constructor
    · rintro ⟨⟨eq,some_⟩,-⟩
      rw [←eq] at some_
      cases some_
    · rintro ⟨_,eq,-⟩
      cases eq
  | some product =>
    simp only [Option.map_some,Option.some.injEq,Bool.and_eq_true,Bool.or_eq_true,decide_eq_true_eq]
    constructor
    · rintro ⟨⟨eq,-⟩,vendors⟩
      exact ⟨_,rfl,eq,vendors⟩
    · rintro ⟨_,rfl,eq,vendors⟩
      exact ⟨⟨eq,by rw [←eq]; rfl⟩,vendors⟩

theorem mem_rowsOf {r : Record} : r ∈ rowsOf u generation pair ↔
    r ∈ generation.records ∧ ∃ a ∈ r.applicability, a.pair u = some pair := by
  simp only [rowsOf,mem_flatMap,mem_map,mem_filter,decide_eq_true_eq]
  constructor
  · rintro ⟨r',mem,a,⟨ha,eq⟩,rfl⟩
    exact ⟨mem,a,ha,eq⟩
  · rintro ⟨mem,a,ha,eq⟩
    exact ⟨r,mem,a,⟨ha,eq⟩,rfl⟩

theorem mem_matching {r : Record} : r ∈ matching u generation key ↔
    ∃ pair, PairOf key pair ∧ r ∈ rowsOf u generation pair := by
  simp only [matching,mem_filter,any_eq_true,matchesKey_iff,mem_rowsOf]
  constructor
  · rintro ⟨mem,a,ha,pair,eq,of⟩
    exact ⟨pair,of,mem,a,ha,eq⟩
  · rintro ⟨pair,of,mem,a,ha,eq⟩
    exact ⟨mem,a,ha,pair,eq,of⟩

theorem matching_nodup : (matching u generation key).Nodup :=
  (List.Nodup.of_map _ generation.recordIds).filter _

theorem record_ext {a b : Record} (ha : a ∈ generation.records) (hb : b ∈ generation.records)
    (h : a.id = b.id) : a = b :=
  inj_on_of_nodup_map generation.recordIds ha hb h

/-- Lists of records of one generation, each once, and what adding more makes of them. -/
structure Gathered (generation : Generation) (records : List Record) (P : Record → Prop) : Prop where
  within : ∀ r ∈ records, r ∈ generation.records
  nodup : records.Nodup
  mem : ∀ r, r ∈ records ↔ P r

theorem gathered_nil : Gathered generation [] fun _ => False where
  within := fun _ mem => by cases mem
  nodup := nodup_nil
  mem := fun _ => ⟨nofun,False.elim⟩

theorem Gathered.add {records more : List Record} {P : Record → Prop}
    (h : Gathered generation records P) (within : ∀ r ∈ more, r ∈ generation.records) :
    Gathered generation (addNew records more) fun r => P r ∨ r ∈ more := by
  unfold addNew
  induction more generalizing records P with
  | nil => exact ⟨h.within,h.nodup,fun r => by simp [h.mem r]⟩
  | cons r rest ih =>
    rw [foldl_cons]
    have here := within r (.head _)
    have rest_ : ∀ r ∈ rest, r ∈ generation.records := fun r mem => within r (.tail _ mem)
    split
    case isTrue known =>
      obtain ⟨r',mem',eq⟩ := mem_map.mp known
      obtain rfl := record_ext (h.within r' mem') here eq
      have kept := ih h rest_
      refine ⟨kept.within,kept.nodup,fun s => (kept.mem s).trans ?_⟩
      rw [mem_cons]
      constructor
      · rintro (h | h)
        · exact .inl h
        · exact .inr (.inr h)
      · rintro (h' | rfl | h')
        · exact .inl h'
        · exact .inl ((h.mem s).mp mem')
        · exact .inr h'
    case isFalse new =>
      have absent : r ∉ records := fun mem => new (mem_map.mpr ⟨r,mem,rfl⟩)
      have added : Gathered generation (records ++ [r]) fun s => P s ∨ s = r := by
        refine ⟨fun s mem => ?_,?_,fun s => by simp [h.mem s]⟩
        · rcases mem_append.mp mem with mem | mem
          · exact h.within s mem
          · rw [mem_singleton.mp mem]
            exact here
        · exact nodup_append.mpr ⟨h.nodup,nodup_singleton r,fun a ha b hb eq => by
            rw [mem_singleton.mp hb] at eq
            exact absent (eq ▸ ha)⟩
      have kept := ih added rest_
      refine ⟨kept.within,kept.nodup,fun s => (kept.mem s).trans ?_⟩
      rw [mem_cons,or_assoc]

theorem gathered_fold {lists : List (List Record)} {records : List Record} {P : Record → Prop}
    (h : Gathered generation records P)
    (within : ∀ l ∈ lists, ∀ r ∈ l, r ∈ generation.records) :
    Gathered generation (lists.foldl addNew records) fun r => P r ∨ ∃ l ∈ lists, r ∈ l := by
  induction lists generalizing records P with
  | nil => exact ⟨h.within,h.nodup,fun r => by simp [h.mem r]⟩
  | cons l rest ih =>
    have kept := ih (h.add (within l (.head _))) fun l' mem => within l' (.tail _ mem)
    refine ⟨kept.within,kept.nodup,fun r => (kept.mem r).trans ?_⟩
    simp only [mem_cons,exists_eq_or_imp,or_assoc]

/-- What the records selected for an identity have to do with those of its own query. -/
structure Selected (u : Tables) (generation : Generation) (key : IdentityKey)
    (candidates : List Record) (limited : Bool) : Prop where
  same : (∀ pair, PairOf key pair → (rowsOf u generation pair).length ≤ maxCandidates) →
    (matching u generation key).length ≤ maxCandidates →
    limited = false ∧ candidates.Perm (matching u generation key)
  capped : ∀ pair, PairOf key pair → maxCandidates < (rowsOf u generation pair).length → limited = true

theorem mem_pairs {order : PairOrder} {products : List Text} :
    pair ∈ (selectCandidates u order generation products).pairs ↔
      pair.2 ∈ products ∧ ∃ r, r ∈ rowsOf u generation pair := by
  simp only [selectCandidates,(order.perm _).mem_iff,mem_eraseDups,mem_filter,
    mem_flatMap,mem_filterMap,decide_eq_true_eq,mem_rowsOf]
  constructor
  · rintro ⟨⟨r,mem,a,ha,eq⟩,product⟩
    exact ⟨product,r,mem,a,ha,eq⟩
  · rintro ⟨product,r,mem,a,ha,eq⟩
    exact ⟨⟨r,mem,a,ha,eq⟩,product⟩

theorem selected {order : PairOrder} {products : List Text} {identity : AssessmentIdentity}
    {product : Text} (hp : (identityKey u identity).2.1 = some product) (wanted : product ∈ products) :
    Selected u generation (identityKey u identity)
      (candidatesFor u (selectCandidates u order generation products) identity).1
      (candidatesFor u (selectCandidates u order generation products) identity).2 := by
  -- The pairs that are looked up are the identity's pairs, as far as they have rows.
  obtain ⟨pairs,eq,mem,all⟩ : ∃ pairs : List PairKey,
      candidatesFor u (selectCandidates u order generation products) identity =
        (((pairs.map (selectCandidates u order generation products).byPair).foldl addNew []).take
          maxCandidates,
          pairs.any (selectCandidates u order generation products).capped ||
          maxCandidates < ((pairs.map
            (selectCandidates u order generation products).byPair).foldl addNew []).length) ∧
      (∀ pair ∈ pairs, PairOf (identityKey u identity) pair) ∧
      ∀ pair, PairOf (identityKey u identity) pair → (∃ r, r ∈ rowsOf u generation pair) →
        pair ∈ pairs := by
    cases hv : (identityKey u identity).1 with
    | some vendor =>
      refine ⟨[(some vendor,product)],by simp only [candidatesFor,hp,hv],?_,?_⟩
      · intro pair mem
        rw [mem_singleton.mp mem]
        exact ⟨hp.symm,.inr hv.symm⟩
      · rintro ⟨v,p⟩ ⟨second,first⟩ -
        rw [hp] at second
        rw [hv] at first
        cases second
        rcases first with none | rfl
        · cases none
        · exact .head _
    | none =>
      refine ⟨_,by simp only [candidatesFor,hp,hv]; rfl,?_,?_⟩
      · intro pair mem
        have second := (mem_filter.mp mem).2
        simp only [decide_eq_true_eq] at second
        exact ⟨by rw [second,hp],.inl hv⟩
      · intro pair of has
        have second : pair.2 = product := Option.some.inj (of.1.trans hp)
        refine mem_filter.mpr ⟨mem_pairs.mpr ⟨second ▸ wanted,has⟩,by simpa using second⟩
  rw [eq]
  have second : ∀ pair, PairOf (identityKey u identity) pair → pair.2 ∈ products := by
    intro pair of
    rw [Option.some.inj (of.1.trans hp)]
    exact wanted
  constructor
  · intro few small
    have byPair : ∀ pair ∈ pairs, ∀ r,
        r ∈ (selectCandidates u order generation products).byPair pair ↔
          r ∈ rowsOf u generation pair := by
      intro pair inside r
      have short := few pair (mem pair inside)
      simp only [selectCandidates,if_pos (second pair (mem pair inside))]
      rw [take_of_length_le (by rw [length_insertionSort]; exact short),
        mem_insertionSort]
    have within : ∀ l ∈ pairs.map (selectCandidates u order generation products).byPair, ∀ r ∈ l,
        r ∈ generation.records := by
      intro l listed r mem'
      obtain ⟨pair,inside,rfl⟩ := mem_map.mp listed
      exact (mem_rowsOf.mp ((byPair pair inside r).mp mem')).1
    have gathered := gathered_fold gathered_nil within
    have perm : ((pairs.map (selectCandidates u order generation products).byPair).foldl addNew
        []).Perm (matching u generation (identityKey u identity)) := by
      refine (perm_ext_iff_of_nodup gathered.nodup matching_nodup).mpr fun r => ?_
      rw [gathered.mem,mem_matching]
      constructor
      · rintro (none | ⟨l,listed,mem'⟩)
        · exact none.elim
        · obtain ⟨pair,inside,rfl⟩ := mem_map.mp listed
          exact ⟨pair,mem pair inside,(byPair pair inside r).mp mem'⟩
      · rintro ⟨pair,of,mem'⟩
        have inside := all pair of ⟨r,mem'⟩
        exact .inr ⟨_,mem_map_of_mem inside,(byPair pair inside r).mpr mem'⟩
    have short := perm.length_eq
    refine ⟨?_,?_⟩
    · rw [Bool.or_eq_false_iff]
      refine ⟨any_eq_false.mpr fun pair inside => ?_,decide_eq_false (by omega)⟩
      have rows := few pair (mem pair inside)
      simp only [selectCandidates,Bool.and_eq_true,decide_eq_true_eq,not_and]
      omega
    · rw [take_of_length_le (by omega)]
      exact perm
  · intro pair of capped
    have has : ∃ r, r ∈ rowsOf u generation pair :=
      exists_mem_of_length_pos (by omega)
    refine Bool.or_eq_true_iff.mpr (.inl (any_eq_true.mpr ⟨pair,all pair of has,?_⟩))
    simp only [selectCandidates,Bool.and_eq_true,decide_eq_true_eq]
    exact ⟨second pair of,capped⟩

/-! What is made of the candidates. -/

theorem having_key {truth : Truth} {i j : AssessmentIdentity} {candidates : List Record}
    (h : identityKey u i = identityKey u j) :
    having u truth i candidates = having u truth j candidates := by
  simp only [having,evaluateApplicability_key u h]

theorem having_perm {truth : Truth} {i : AssessmentIdentity} {cs ds : List Record}
    (perm : cs.Perm ds) : (having u truth i cs).Perm (having u truth i ds) := perm.filter _

structure Alike (a b : AssessmentResult) : Prop where
  state : a.state = b.state
  reasonCode : a.reasonCode = b.reasonCode
  completeness : a.completeness = b.completeness
  total : a.total = b.findings.length
  findings : ∀ f, f ∈ a.findings ↔ f ∈ b.findings

theorem evaluateCandidates_alike {i j : AssessmentIdentity} {cs ds : List Record}
    {feed feed' : FeedState} {now now' : Nat} (h : identityKey u i = identityKey u j)
    (perm : cs.Perm ds) (states : feed.state = feed'.state)
    (few : (having u .yes j ds).length ≤ maxFindings) :
    Alike (evaluateCandidates u cs i feed now false) (evaluateCandidates u ds j feed' now' false) := by
  have yes : (having u .yes i cs).Perm (having u .yes j ds) := by
    rw [having_key h]
    exact having_perm perm
  have unknown : having u .unknown i cs = [] ↔ having u .unknown j ds = [] := by
    rw [having_key h,←length_eq_zero_iff,(having_perm perm).length_eq,length_eq_zero_iff]
  have found : finding u i = finding u j := by
    funext c
    simp only [finding,evaluateApplicability_key u h]
  have length := yes.length_eq
  constructor
  · simp only [evaluateCandidates,length_map,length,unknown,states,ne_eq]
  · simp only [evaluateCandidates,unknown,states,ne_eq]
  · simp only [evaluateCandidates,length_map,length,unknown,ne_eq]
  · simp only [evaluateCandidates,length_take,length_map,length]
  · intro f
    simp only [evaluateCandidates]
    rw [take_of_length_le (by rw [length_map]; omega),
      take_of_length_le (by rw [length_map]; omega),found]
    exact (yes.map _).mem_iff

theorem Alike.agrees {entity : FleetEntity} {a b : AssessmentResult} (h : Alike a b) :
    Agrees u (fleetRow u entity a) b :=
  ⟨h.state,h.reasonCode,h.completeness,h.total,(worst_spec a.findings).of_mem h.findings⟩

variable {identity : AssessmentIdentity}

theorem limited_reason {candidates : List Record} {feed : FeedState}
    {now : Nat} {limited : Bool} :
    (evaluateCandidates u candidates identity feed now limited).reasonCode = .candidateLimit ↔
      limited = true := by
  simp only [evaluateCandidates]
  cases limited with
  | true => simp
  | false =>
    simp only [Bool.false_eq_true,if_false,iff_false]
    split
    · nofun
    · split <;> nofun

def core (r : AssessmentResult) : State × Reason × Completeness × Nat × List Finding :=
  (r.state,r.reasonCode,r.completeness,r.total,r.findings)

theorem agrees_core {entity : FleetEntity} {a b c : AssessmentResult} (h : core a = core b) :
    Agrees u (fleetRow u entity a) c ↔ Agrees u (fleetRow u entity b) c := by
  simp only [core,Prod.mk.injEq] at h
  obtain ⟨state,reason,completeness,total,findings⟩ := h
  simp only [fleetRow,state,reason,completeness,total,findings]

/-- What a pass may find for an identity, with the feed in a state: its candidates were selected
from the generation, in this pass or in an earlier one. -/
def Outcome (u : Tables) (generation : Generation) (status : FeedStatus) (key : IdentityKey)
    (result : AssessmentResult) : Prop :=
  ∃ candidates identity feed now limited, identityKey u identity = key ∧ feed.state = status ∧
    Selected u generation key candidates limited ∧
    core result = core (evaluateCandidates u candidates identity feed now limited)

/-- What is remembered was found for a generation that is there to stay. -/
def Remembered (u : Tables) (feed : List Generation) (cache : Cache) : Prop :=
  ∀ entry ∈ cache, ∃ g ∈ feed, g.complete = true ∧ g.id = entry.1.generation ∧
    Outcome u g entry.1.feedState entry.1.identity entry.2

/-- What is found for an identity. -/
def Found (u : Tables) (feed : FeedState) (now : Nat) (identity : AssessmentIdentity)
    (result : AssessmentResult) : Prop :=
  (∀ blocked, readinessResult identity feed now = some blocked → result = blocked) ∧
  (readinessResult identity feed now = none → ∀ g, feed.generation = some g →
    Outcome u g feed.state (identityKey u identity) result)

theorem cachedOutcome_mem {cache : Cache} {k : CacheKey} {result : AssessmentResult}
    (h : (cachedOutcome cache k).1 = some result) : (k,result) ∈ cache := by
  unfold cachedOutcome at h
  split at h
  case h_1 entry found =>
    obtain ⟨key,value⟩ := entry
    cases h
    have same := find?_some found
    simp only [decide_eq_true_eq] at same
    exact same ▸ mem_of_find?_eq_some found
  · cases h

theorem cachedOutcome_subset {cache : Cache} {k : CacheKey} :
    ∀ entry ∈ (cachedOutcome cache k).2, entry ∈ cache := by
  unfold cachedOutcome
  split
  case h_1 entry found =>
    intro e mem
    rcases mem_append.mp mem with mem | mem
    · exact (mem_filter.mp mem).1
    · rw [mem_singleton.mp mem]
      exact mem_of_find?_eq_some found
  · exact fun _ mem => mem

theorem rememberOutcome_subset {cache : Cache} {k : CacheKey} {result : AssessmentResult} :
    ∀ entry ∈ rememberOutcome cache k result, entry ∈ cache ∨ entry = (k,result) := by
  intro entry mem
  rcases mem_append.mp (mem_of_mem_drop mem) with mem | mem
  · exact .inl (mem_filter.mp mem).1
  · exact .inr (mem_singleton.mp mem)

section Pass
variable {feed : List Generation} {status : FeedState} {order : PairOrder} {products : List Text}
  {now : Nat} {g : Generation}

structure Active (feed : List Generation) (status : FeedState) (g : Generation) : Prop where
  here : status.generation = some g
  mem : g ∈ feed
  complete : g.complete = true
  unique : (feed.map Generation.id).Nodup

theorem Active.of_id {g' : Generation} (h : Active feed status g) (mem : g' ∈ feed)
    (eq : g'.id = g.id) : g' = g :=
  inj_on_of_nodup_map h.unique mem h.mem eq

theorem assessGroup_found {cache : Cache} {identity : AssessmentIdentity} (h : Active feed status g)
    (remembered : Remembered u feed cache)
    (wanted : readinessResult identity status now = none →
      ∃ product ∈ products, (identityKey u identity).2.1 = some product) :
    Found u status now identity (assessGroup u status (selectCandidates u order g products) now cache
      identity).1 ∧
    Remembered u feed (assessGroup u status (selectCandidates u order g products) now cache
      identity).2 := by
  unfold assessGroup
  split
  case h_1 blocked ready =>
    refine ⟨⟨fun other eq => ?_,fun none => ?_⟩,remembered⟩
    · exact Option.some.inj (ready.symm.trans eq)
    · rw [ready] at none
      cases none
  case h_2 ready =>
    obtain ⟨product,mem,hp⟩ := wanted ready
    have chosen := @selected u g order products identity product hp mem
    generalize candidatesFor u (selectCandidates u order g products) identity = pick at chosen ⊢
    have evaluated : Outcome u g status.state (identityKey u identity)
        (evaluateCandidates u pick.1 identity status now pick.2) :=
      ⟨pick.1,identity,status,now,pick.2,rfl,rfl,chosen,rfl⟩
    have found : ∀ result, Outcome u g status.state (identityKey u identity) result →
        Found u status now identity result := by
      refine fun result outcome => ⟨fun blocked eq => ?_,fun _ g' eq => ?_⟩
      · rw [ready] at eq
        cases eq
      · cases h.here.symm.trans eq
        exact outcome
    simp only [h.here]
    split
    case h_1 result rest eq =>
      have inside := cachedOutcome_mem (congrArg Prod.fst eq)
      obtain ⟨g',mem',_,same,outcome⟩ := remembered _ inside
      obtain rfl := h.of_id mem' same
      refine ⟨found _ outcome,fun entry mem => remembered entry ?_⟩
      have kept := @cachedOutcome_subset cache ⟨g'.id,status.state,identityKey u identity⟩
      rw [eq] at kept
      exact kept entry mem
    case h_2 rest eq =>
      refine ⟨found _ evaluated,fun entry mem => ?_⟩
      dsimp only at mem
      rcases rememberOutcome_subset entry mem with mem | rfl
      · refine remembered entry ?_
        have kept := @cachedOutcome_subset cache ⟨g.id,status.state,identityKey u identity⟩
        rw [eq] at kept
        exact kept entry mem
      · exact ⟨g,h.mem,h.complete,rfl,evaluated⟩

theorem assessGroups_found {pool : CandidatePool} {groups : List (List FleetEntity)} {cache : Cache}
    (remembered : Remembered u feed cache)
    (each : ∀ group ∈ groups, ∀ e ∈ group.head?, ∀ cache, Remembered u feed cache →
      Found u status now e.identity (assessGroup u status pool now cache e.identity).1 ∧
      Remembered u feed (assessGroup u status pool now cache e.identity).2) :
    Remembered u feed (assessGroups u status pool now groups cache).2 ∧
    (∀ group result, (group,result) ∈ (assessGroups u status pool now groups cache).1 →
      group ∈ groups ∧ ∃ e ∈ group.head?, Found u status now e.identity result) ∧
    ∀ group ∈ groups, group ≠ [] →
      ∃ result, (group,result) ∈ (assessGroups u status pool now groups cache).1 := by
  induction groups generalizing cache with
  | nil => exact ⟨remembered,(fun _ _ mem => by cases mem),(fun _ mem => by cases mem)⟩
  | cons group groups ih =>
    have later := fun group (mem : group ∈ groups) => each group (.tail _ mem)
    cases group with
    | nil =>
      obtain ⟨kept,sound,complete⟩ := ih remembered later
      refine ⟨kept,fun group result mem => ?_,fun group mem nonempty => ?_⟩
      · exact ⟨.tail _ (sound group result mem).1,(sound group result mem).2⟩
      · rcases mem_cons.mp mem with rfl | mem
        · exact absurd rfl nonempty
        · exact complete group mem nonempty
    | cons first members =>
      obtain ⟨found,kept⟩ := each _ (.head _) first rfl cache remembered
      obtain ⟨kept,sound,complete⟩ := ih kept later
      refine ⟨kept,fun group result mem => ?_,fun group mem nonempty => ?_⟩
      · rcases mem_cons.mp mem with eq | mem
        · cases eq
          exact ⟨.head _,first,rfl,found⟩
        · exact ⟨.tail _ (sound group result mem).1,(sound group result mem).2⟩
      · rcases mem_cons.mp mem with rfl | mem
        · exact ⟨_,.head _⟩
        · obtain ⟨result,mem⟩ := complete group mem nonempty
          exact ⟨result,.tail _ mem⟩

end Pass

theorem key_product :
    identity.product.getD [] = [] ↔ (identityKey u identity).2.1 = none := by
  simp only [identityKey]
  cases identity.product with
  | none => simp
  | some t => by_cases empty : t = [] <;> simp [Option.filter,empty]

theorem readiness_key {i j : AssessmentIdentity} {status : FeedState} {now : Nat}
    (h : identityKey u i = identityKey u j) :
    (readinessResult i status now).map core = (readinessResult j status now).map core := by
  have product : (i.product.getD [] = []) = (j.product.getD [] = []) := by
    rw [key_product (u := u),key_product (u := u),h]
  have version : i.version = j.version := congrArg (fun k => k.2.2.1) h
  have scheme : i.versionScheme = j.versionScheme := congrArg (fun k => k.2.2.2) h
  simp only [readinessResult,product,version,scheme]
  split
  · rfl
  split
  · rfl
  split
  · rfl
  split <;> rfl

theorem readiness_none {status : FeedState} {now : Nat}
    (h : readinessResult identity status now = none) :
    status.state ≠ .unavailable ∧ status.state ≠ .incomplete ∧
      ∃ product, (identityKey u identity).2.1 = some product := by
  unfold readinessResult at h
  simp only at h
  split at h
  · cases h
  case isFalse state =>
  split at h
  · cases h
  case isFalse product =>
    rw [key_product (u := u)] at product
    rw [not_or] at state
    exact ⟨state.1,state.2,Option.ne_none_iff_exists'.mp product⟩

theorem getFeedState_active {feed : List Generation} {interval : Option Nat} {now : Nat} :
    (∃ g ∈ feed, g.complete = true ∧ (getFeedState feed interval now).generation = some g) ∨
    (getFeedState feed interval now).generation = none ∧
      ((getFeedState feed interval now).state = .unavailable ∨
        (getFeedState feed interval now).state = .incomplete) := by
  unfold getFeedState
  split
  · right
    split
    · exact ⟨rfl,.inl rfl⟩
    · exact ⟨rfl,.inr rfl⟩
  case h_2 g active =>
    left
    have mem := mem_of_mem_head? active
    rw [mem_insertionSort,mem_filter] at mem
    refine ⟨g,mem.1,mem.2,?_⟩
    simp only
    split <;> rfl

theorem find_id {α : Type} {l : List α} {id : α → Nat} (nodup : (l.map id).Nodup) {a : α}
    (mem : a ∈ l) : l.find? (fun b => decide (id b = id a)) = some a := by
  cases found : l.find? (fun b => decide (id b = id a)) with
  | none =>
    have no := find?_eq_none.mp found a mem
    simp at no
  | some b =>
    have same := find?_some found
    simp only [decide_eq_true_eq] at same
    rw [inj_on_of_nodup_map nodup (mem_of_find?_eq_some found) mem same]

theorem resolve_fleet {inv : Inventory} {e : FleetEntity} (h : e ∈ resolveFleetIdentities u inv) :
    resolveAssessmentIdentity u inv e.entityType e.entityId = some e.identity := by
  simp only [resolveFleetIdentities,mem_append,mem_map] at h
  obtain (⟨a,mem,rfl⟩ | ⟨a,mem,rfl⟩) | ⟨a,mem,rfl⟩ := h
  · simp only [resolveAssessmentIdentity,fleetEntity,Inventory.entityValues,
      find_id inv.hardwareIds mem,Option.map_some,inventoryIdentity]
  · simp only [resolveAssessmentIdentity,fleetEntity,Inventory.entityValues,
      find_id inv.computeIds mem,Option.map_some,inventoryIdentity]
  · simp only [resolveAssessmentIdentity,fleetEntity,Inventory.entityValues,
      find_id inv.serviceIds mem,Option.map_some,inventoryIdentity]

theorem fleet_complete {inv : Inventory} {type : EntityType} {id : Nat} (h : resolveAssessmentIdentity u inv type id = some identity) :
    ∃ e ∈ resolveFleetIdentities u inv, e.entityType = type ∧ e.entityId = id := by
  obtain ⟨values,found,-⟩ := Option.map_eq_some_iff.mp h
  simp only [resolveFleetIdentities,mem_append]
  cases type with obtain ⟨a,found,-⟩ := Option.map_eq_some_iff.mp found
  | hardware =>
    have same := find?_some found
    simp only [decide_eq_true_eq] at same
    exact ⟨_,.inl (.inl (mem_map_of_mem (mem_of_find?_eq_some found))),rfl,same⟩
  | computeUnit =>
    have same := find?_some found
    simp only [decide_eq_true_eq] at same
    exact ⟨_,.inl (.inr (mem_map_of_mem (mem_of_find?_eq_some found))),rfl,same⟩
  | service =>
    have same := find?_some found
    simp only [decide_eq_true_eq] at same
    exact ⟨_,.inr (mem_map_of_mem (mem_of_find?_eq_some found)),rfl,same⟩

/-! A pass. -/

/-- Generations are told apart by their ids, and what is remembered is good. -/
structure Kept (u : Tables) (w : World) : Prop where
  unique : (w.feed.map Generation.id).Nodup
  remembered : Remembered u w.feed w.cache

section Rows
variable {w : World} {order : PairOrder} {inv : Inventory} {interval : Option Nat} {now limit : Nat}

theorem mem_members {entities : List FleetEntity} {e : FleetEntity} :
    e ∈ members u entities key ↔ e ∈ entities ∧ identityKey u e.identity = key := by
  simp only [members,mem_filter,decide_eq_true_eq]

theorem nodup_eraseDups {α : Type} [BEq α] [LawfulBEq α] (l : List α) : l.eraseDups.Nodup := by
  induction n : l.length using Nat.strongRecOn generalizing l with
  | ind n ih =>
    cases l with
    | nil => exact nodup_nil
    | cons a l =>
      rw [eraseDups_cons]
      refine nodup_cons.mpr ⟨fun mem => ?_,ih _ ?_ _ rfl⟩
      · have kept := (mem_filter.mp (mem_eraseDups.mp mem)).2
        simp at kept
      · have short := length_filter_le (fun b => !b == a) l
        rw [length_cons] at n
        omega

theorem orderedKeys_nodup {entities : List FleetEntity} : (orderedKeys u entities).Nodup :=
  (perm_insertionSort _ _).nodup_iff.mpr (nodup_eraseDups _)

theorem pass_each (h : Kept u w) {pool : CandidatePool}
    (hpool : pool = match (getFeedState w.feed interval now).generation with
      | some generation => selectCandidates u order generation
          (readyProducts u (resolveFleetIdentities u inv) (getFeedState w.feed interval now) now
            ((orderedKeys u (resolveFleetIdentities u inv)).take limit))
      | none => {}) :
    ∀ group ∈ ((orderedKeys u (resolveFleetIdentities u inv)).take limit).map
        (members u (resolveFleetIdentities u inv)), ∀ e ∈ group.head?, ∀ cache,
      Remembered u w.feed cache →
      Found u (getFeedState w.feed interval now) now e.identity
        (assessGroup u (getFeedState w.feed interval now) pool now cache e.identity).1 ∧
      Remembered u w.feed
        (assessGroup u (getFeedState w.feed interval now) pool now cache e.identity).2 := by
  intro group listed e first cache remembered
  obtain ⟨key,taken,rfl⟩ := mem_map.mp listed
  rcases @getFeedState_active w.feed interval now with ⟨g,mem,complete,here⟩ | ⟨none,down⟩
  · rw [hpool]
    simp only [here]
    refine assessGroup_found ⟨here,mem,complete,h.unique⟩ remembered fun ready => ?_
    obtain ⟨product,hp⟩ := (readiness_none (u := u) ready).2.2
    have same : identityKey u e.identity = key := (mem_members.mp (mem_of_mem_head? first)).2
    refine ⟨product,?_,hp⟩
    rw [same] at hp
    refine mem_filterMap.mpr ⟨key,mem_filter.mpr ⟨taken,?_⟩,hp⟩
    have head : (members u (resolveFleetIdentities u inv) key).head? = some e := first
    simp only [head,Option.bind_some,ready,Option.isNone_none]
  · cases ready : readinessResult e.identity (getFeedState w.feed interval now) now with
    | none =>
      obtain ⟨up,running,-⟩ := readiness_none (u := u) ready
      exact absurd down (not_or.mpr ⟨up,running⟩)
    | some blocked =>
      simp only [assessGroup,ready]
      refine ⟨⟨fun other eq => ?_,fun none => ?_⟩,remembered⟩
      · exact Option.some.inj (ready.symm.trans eq)
      · rw [ready] at none
        cases none

theorem assessFleet_rows (h : Kept u w) :
    Remembered u w.feed (assessFleet u order w.cache inv w.feed interval now limit).2 ∧
    ∀ e ∈ resolveFleetIdentities u inv,
      identityKey u e.identity ∈ (orderedKeys u (resolveFleetIdentities u inv)).take limit →
      (∃ row ∈ (assessFleet u order w.cache inv w.feed interval now limit).1.rows,
        row.entityType = e.entityType ∧ row.entityId = e.entityId) ∧
      ∀ row ∈ (assessFleet u order w.cache inv w.feed interval now limit).1.rows,
        row.entityType = e.entityType → row.entityId = e.entityId →
        ∃ member first result, row = fleetRow u member result ∧
          identityKey u first = identityKey u e.identity ∧
          Found u (getFeedState w.feed interval now) now first result := by
  obtain ⟨kept,sound,complete⟩ :=
    assessGroups_found h.remembered (@pass_each u w order inv interval now limit h _ rfl)
  refine ⟨kept,fun e mem budget => ⟨?_,fun row listed type id => ?_⟩⟩
  · have inside : e ∈ members u (resolveFleetIdentities u inv) (identityKey u e.identity) :=
      mem_members.mpr ⟨mem,rfl⟩
    obtain ⟨result,grouped⟩ := complete _ (mem_map_of_mem budget) (ne_nil_of_mem inside)
    refine ⟨fleetRow u e result,mem_append_left _ ?_,rfl,rfl⟩
    exact mem_flatMap.mpr ⟨_,grouped,mem_map_of_mem inside⟩
  · have same : ∀ e' ∈ resolveFleetIdentities u inv, e'.entityType = e.entityType →
        e'.entityId = e.entityId → e'.identity = e.identity := by
      intro e' mem' type id
      have one := resolve_fleet mem'
      rw [type,id,resolve_fleet mem] at one
      exact (Option.some.inj one).symm
    rcases mem_append.mp listed with listed | listed
    · obtain ⟨⟨group,result⟩,grouped,row_⟩ := mem_flatMap.mp listed
      obtain ⟨member,inside,rfl⟩ := mem_map.mp row_
      obtain ⟨known,first,head,found⟩ := sound group result grouped
      obtain ⟨key,-,rfl⟩ := mem_map.mp known
      have ours := mem_members.mp inside
      have theirs := (mem_members.mp (mem_of_mem_head? head)).2
      refine ⟨member,first.identity,result,rfl,?_,found⟩
      rw [theirs,←ours.2,same member ours.1 type id]
    · obtain ⟨member,deferred,rfl⟩ := mem_map.mp listed
      obtain ⟨key,late,inside⟩ := mem_flatMap.mp deferred
      obtain ⟨ours,eq⟩ := mem_members.mp inside
      rw [same member ours type id] at eq
      subst eq
      exact absurd late (disjoint_take_drop orderedKeys_nodup (le_refl limit) budget)

end Rows

theorem Kept.step {w w' : World} {act : Act} (h : Kept u w) (step : Step u w act w') : Kept u w' := by
  unfold Step at step
  cases act with
  | store generation =>
    simp only [next] at step
    split at step <;> cases step
    rename_i new
    constructor
    · rw [map_cons]
      refine nodup_cons.mpr ⟨fun mem => ?_,h.unique.sublist (filter_sublist.map _)⟩
      obtain ⟨g,kept,eq⟩ := mem_map.mp mem
      have ne := (mem_filter.mp kept).2
      simp only [ne_eq,decide_not,Bool.not_eq_true',decide_eq_false_iff_not] at ne
      exact ne eq
    · intro entry mem
      obtain ⟨g,known,complete,rest⟩ := h.remembered entry mem
      refine ⟨g,.tail _ (mem_filter.mpr ⟨known,?_⟩),complete,rest⟩
      exact decide_eq_true (new g known complete)
  | clearIdentityCache =>
    cases step
    exact ⟨h.unique,fun entry mem => by cases mem⟩
  | assessFleet order inv interval now limit =>
    cases step
    exact ⟨h.unique,(assessFleet_rows h).1⟩

theorem kept_start : Kept u {} := ⟨nodup_nil,fun _ mem => by cases mem⟩

end Proofs

/-- The identity has no more records and findings than an assessment returns. -/
def Bounded (u : Tables) (status : FeedState) (now : Nat) (identity : AssessmentIdentity) : Prop :=
  readinessResult identity status now = none → ∀ g ∈ status.generation,
    (matching u g (identityKey u identity)).length ≤ maxCandidates ∧
    (having u .yes identity (matching u g (identityKey u identity))).length ≤ maxFindings

/-- None of the identity's pairs has more applicability rows than the pass selects. -/
def Uncapped (u : Tables) (status : FeedState) (now : Nat) (identity : AssessmentIdentity) : Prop :=
  readinessResult identity status now = none → ∀ g ∈ status.generation, ∀ pair,
    PairOf (identityKey u identity) pair → (rowsOf u g pair).length ≤ maxCandidates

section Agreement
variable {u : Tables} {status : FeedState} {now : Nat} {arrangement : Arrangement}

variable {identity : AssessmentIdentity}

theorem blocked_agrees {blocked : AssessmentResult}
    (h : readinessResult identity status now = some blocked) (entity : FleetEntity) :
    Agrees u (fleetRow u entity blocked) blocked := by
  have total : blocked.total = blocked.findings.length := by
    unfold readinessResult at h
    simp only at h
    split at h
    · cases h
      rfl
    split at h
    · cases h
      rfl
    split at h
    · cases h
      rfl
    split at h <;> cases h
    rfl
  exact ⟨rfl,rfl,rfl,total,worst_spec _⟩

theorem assessIdentity_all {g : Generation}
    (ready : readinessResult identity status now = none) (here : status.generation = some g)
    (few : (matching u g (identityKey u identity)).length ≤ maxCandidates) :
    assessIdentity u arrangement identity status now = evaluateCandidates u
      (arrangement.arrange (matching u g (identityKey u identity))) identity status now false := by
  have length := (arrangement.perm (matching u g (identityKey u identity))).length_eq
  have whole : (arrangement.arrange (matching u g (identityKey u identity))).take (maxCandidates+1) =
      arrangement.arrange (matching u g (identityKey u identity)) :=
    take_of_length_le (by omega)
  simp only [assessIdentity,ready,here]
  rw [whole,take_of_length_le (by omega),decide_eq_false (by omega)]

theorem found_agrees {first : AssessmentIdentity} {result : AssessmentResult}
    {member : FleetEntity} (key : identityKey u first = identityKey u identity)
    (found : Found u status now first result) (bounded : Bounded u status now identity)
    (active : readinessResult identity status now = none → ∃ g, status.generation = some g) :
    Agrees u (fleetRow u member result) (assessIdentity u arrangement identity status now) ↔
      Uncapped u status now identity := by
  have ready_key := @readiness_key u first identity status now key
  cases ready : readinessResult identity status now with
  | some blocked =>
    rw [ready] at ready_key
    obtain ⟨other,hother,same⟩ := Option.map_eq_some_iff.mp ready_key
    rw [found.1 other hother,agrees_core same,show assessIdentity u arrangement identity status now =
      blocked by simp only [assessIdentity,ready]]
    exact iff_of_true (blocked_agrees ready member) fun none => by
      rw [ready] at none
      cases none
  | none =>
    obtain ⟨g,here⟩ := active ready
    obtain ⟨few,small⟩ := bounded ready g here
    have first_ready : readinessResult first status now = none := by
      rw [ready] at ready_key
      exact Option.map_eq_none_iff.mp ready_key
    obtain ⟨candidates,other,feed,then_,limited,okey,state,selected,eq⟩ := found.2 first_ready g here
    rw [key] at okey selected
    rw [agrees_core eq,assessIdentity_all ready here few]
    have arranged := arrangement.perm (matching u g (identityKey u identity))
    constructor
    · intro agrees _ g' here' pair of
      cases here.symm.trans here'
      refine Nat.le_of_not_lt fun capped => ?_
      have cut : (evaluateCandidates u candidates other feed then_ limited).reasonCode =
          .candidateLimit := limited_reason.mpr (selected.capped pair of capped)
      cases limited_reason.mp (agrees.reasonCode.symm.trans cut)
    · intro uncapped
      obtain ⟨rfl,perm⟩ := selected.same (uncapped ready g here) few
      refine (evaluateCandidates_alike okey (perm.trans arranged.symm) state ?_).agrees
      rw [(having_perm arranged).length_eq]
      exact small

end Agreement

theorem fleet_row_agrees {u : Tables} {w : World} (kept : Kept u w) {order : PairOrder}
    {arrangement : Arrangement} {inv : Inventory} {interval : Option Nat} {now limit : Nat}
    {type : EntityType} {id : Nat} {identity : AssessmentIdentity}
    (resolved : resolveAssessmentIdentity u inv type id = some identity)
    (budget : identityKey u identity ∈ (orderedKeys u (resolveFleetIdentities u inv)).take limit)
    (bounded : Bounded u (getFeedState w.feed interval now) now identity) :
    (∃ row ∈ (assessFleet u order w.cache inv w.feed interval now limit).1.rows,
      row.entityType = type ∧ row.entityId = id) ∧
    ∀ row ∈ (assessFleet u order w.cache inv w.feed interval now limit).1.rows,
      row.entityType = type → row.entityId = id →
      (Agrees u row (assessIdentity u arrangement identity (getFeedState w.feed interval now) now) ↔
        Uncapped u (getFeedState w.feed interval now) now identity) := by
  obtain ⟨e,mem,rfl,rfl⟩ := fleet_complete resolved
  have same := resolve_fleet mem
  rw [resolved] at same
  cases same
  obtain ⟨exists_,all⟩ := (@assessFleet_rows u w order inv interval now limit kept).2 e mem budget
  refine ⟨exists_,fun row listed type id => ?_⟩
  obtain ⟨member,first,result,rfl,key,found⟩ := all row listed type id
  refine found_agrees key found bounded fun ready => ?_
  rcases @getFeedState_active w.feed interval now with ⟨g,-,-,here⟩ | ⟨-,down⟩
  · exact ⟨g,here⟩
  · obtain ⟨up,running,-⟩ := readiness_none (u := u) ready
    exact absurd down (not_or.mpr ⟨up,running⟩)

def ascii : Tables where
  fold := fun c => [c.toLower]
  upper := fun c => [c.toUpper]
  digit := fun c => if c.isDigit then some (c.toNat-48) else none
  unquote := id
  sqlLower := List.map Char.toLower

instance : Std.Total fun a b : Record => scoreLe a b = true := ⟨fun a b => by
  unfold scoreLe
  cases a.cvssScore <;> cases b.cvssScore <;> simp [le_total]⟩

instance : IsTrans Record fun a b => scoreLe a b = true := ⟨fun a b c hab hbc => by
  unfold scoreLe at *
  cases ha : a.cvssScore <;> cases hb : b.cvssScore <;> cases hc : c.cvssScore <;>
    simp only [ha,hb,hc,decide_eq_true_eq,Bool.false_eq_true] at hab hbc ⊢
  exact hbc.trans hab⟩

def byScore : Arrangement where
  arrange := List.insertionSort fun a b => scoreLe a b = true
  perm := perm_insertionSort _
  sorted := pairwise_insertionSort _

def asGiven : PairOrder := ⟨id,List.Perm.refl⟩

def router : Hardware where
  id := 1
  name := "core".toList
  vendor := some "ACME".toList
  model := some "Router".toList
  osVersion := some "1.0".toList

def oneRouter : Inventory where
  hardware := [router]

def routerIdentity : AssessmentIdentity :=
  ⟨some "ACME".toList,some "Router".toList,some "1.0".toList,some .dottedNumeric,.inventory,0⟩

def routerRecord (rows : Nat) : Record where
  id := 1
  cveId := "CVE-2024-0001".toList
  severity := some "high".toList
  cvssScore := some (15/2)
  configurations := [{nodes := [.node [] false
    [{criteria := "cpe:2.3:o:acme:router:*".toList, versionEndExcluding := "1.1".toList}] []]}]
  applicability := List.replicate rows ⟨some "acme".toList,some "router".toList⟩

def routerFeed (rows : Nat) : Generation where
  id := 1
  completedAt := some 0
  complete := true
  records := [routerRecord rows]
  recordIds := nodup_singleton _

theorem routerFeed_active (rows now : Nat) :
    (getFeedState [routerFeed rows] none now).generation = some (routerFeed rows) := by
  simp only [getFeedState]
  split
  case h_1 none => cases none
  case h_2 g eq =>
    cases eq
    split <;> rfl

theorem routerFeed_bounded (rows now : Nat) :
    Bounded ascii (getFeedState [routerFeed rows] none now) now routerIdentity := by
  intro _ g here
  cases (routerFeed_active rows now).symm.trans here
  have one : (matching ascii (routerFeed rows) (identityKey ascii routerIdentity)).length ≤ 1 :=
    length_filter_le _ _
  have found : (having ascii .yes routerIdentity
      (matching ascii (routerFeed rows) (identityKey ascii routerIdentity))).length ≤ 1 :=
    (length_filter_le _ _).trans one
  exact ⟨one.trans (by decide),found.trans (by decide)⟩

theorem routerFeed_rows (rows : Nat) :
    (rowsOf ascii (routerFeed rows) (some "acme".toList,"router".toList)).length = rows := by
  have named : Applicability.pair ascii ⟨some "acme".toList,some "router".toList⟩ =
      some (some "acme".toList,"router".toList) := by decide
  rw [rowsOf,routerFeed,flatMap_singleton,length_map,routerRecord,filter_replicate,
    named,if_pos (decide_eq_true rfl),length_replicate]

theorem router_budget : identityKey ascii routerIdentity ∈
    (orderedKeys ascii (resolveFleetIdentities ascii oneRouter)).take 250 := by decide

theorem router_resolved :
    resolveAssessmentIdentity ascii oneRouter .hardware 1 = some routerIdentity := rfl

end CircuitBreaker.VulnerabilityAssessment
