import CircuitBreaker.ApplicabilityLogic
import CircuitBreaker.VulnerabilityAssessment
import Mathlib.Algebra.Order.BigOperators.Group.List
import Mathlib.Algebra.Order.Group.Nat

/-! What a complete assessment leaves out: the records of a generation are looked up by the vendors
and products of their leaves, and only those found are evaluated. -/

namespace CircuitBreaker.AssessmentCoverage
open CveMatching ApplicabilityLogic List
open VulnerabilityAssessment hiding ascii

/-- A record as `parse_nvd_record` leaves it. -/
structure NormalizedCVE where
  cveId : Text
  severity : Option Text
  cvssScore : Option ℚ
  configurations : List Configuration

section
variable (u : Tables)

def flattenMatch (m : CpeMatch) : Applicability :=
  let parsed := parseCpe u m.criteria
  ⟨parsed.vendor,parsed.product⟩

def flattenApplicability (configurations : List Configuration) : List Applicability :=
  (configurations.flatMap fun config => nodesLeaves config.nodes).map (flattenMatch u)

def nextId (records : List Record) : Nat := (records.map Record.id).sum+1

theorem below_nextId {records : List Record} {r : Record} (h : r ∈ records) :
    r.id < nextId records :=
  Nat.lt_succ_of_le (single_le_sum (fun _ _ => Nat.zero_le _) _ (mem_map_of_mem h))

def stored (id : Nat) (cve : NormalizedCVE) : Record :=
  ⟨id,cve.cveId,cve.severity,cve.cvssScore,cve.configurations,
    flattenApplicability u cve.configurations⟩

def ingestRecord (g : Generation) (cve : NormalizedCVE) : Generation :=
  if cve.cveId ∈ g.records.map Record.cveId then
    { g with
      records := g.records.map fun r => if r.cveId = cve.cveId then stored u r.id cve else r
      recordIds := by
        have same : (fun r : Record => r.id) ∘
            (fun r => if r.cveId = cve.cveId then stored u r.id cve else r) = Record.id := by
          funext r
          by_cases h : r.cveId = cve.cveId
          · simp [h,stored]
          · simp [h]
        rw [map_map]
        exact (congrArg (fun f => (g.records.map f).Nodup) same).mpr g.recordIds }
  else
    { g with
      records := g.records++[stored u (nextId g.records) cve]
      recordIds := by
        rw [map_append,nodup_append]
        refine ⟨g.recordIds,nodup_singleton _,fun a ha b hb hab => ?_⟩
        obtain ⟨r,hr,rfl⟩ := mem_map.1 ha
        rw [map_singleton,mem_singleton] at hb
        have below := below_nextId hr
        have id : (stored u (nextId g.records) cve).id = nextId g.records := rfl
        omega }

def ingestFeedPage (g : Generation) (page : List (Option NormalizedCVE)) : Generation :=
  (page.filterMap id).foldl (ingestRecord u) g

def ingested (id : Nat) (completedAt : Option Nat) (pages : List (List (Option NormalizedCVE))) :
    Generation :=
  pages.foldl (ingestFeedPage u) ⟨id,completedAt,true,[],nodup_nil⟩

def truthOf (identity : AssessmentIdentity) (r : Record) : Truth :=
  (evaluateApplicability u r.configurations identity).result

def candidates (identity : AssessmentIdentity) (g : Generation) : List Record :=
  matching u g (identityKey u identity)

/-- A complete result has just the applicable records for its findings and leaves none unknown, and
what is not a candidate is rejected. -/
structure Covers (arrangement : Arrangement) (identity : AssessmentIdentity) (feed : FeedState)
    (now : Nat) (g : Generation) : Prop where
  findings : (assessIdentity u arrangement identity feed now).completeness = .complete →
    (assessIdentity u arrangement identity feed now).findings.Perm
      ((having u .yes identity g.records).map (finding u identity))
  known : (assessIdentity u arrangement identity feed now).completeness = .complete →
    ∀ r ∈ g.records, truthOf u identity r ≠ .unknown
  selected : ∀ r ∈ g.records, truthOf u identity r ≠ .no → r ∈ candidates u identity g

def foreignLeaf (m : CpeMatch) : MatchEvidence := ⟨if m.vulnerable then .no else .unknown,[],[]⟩

def foreignTruth (configurations : List Configuration) : Truth :=
  combine (configurations.map fun config => (evaluateConfiguration u foreignLeaf config).result)
    "OR".toList

def PassedOver (identity : AssessmentIdentity) (configurations : List Configuration) : Prop :=
  ∀ config ∈ configurations, ∀ m ∈ nodesLeaves config.nodes,
    (flattenMatch u m).matchesKey u (identityKey u identity) = false

/-- A tree that the query passes over has no leaf that the evaluator takes for the product. -/
def Unnamed (identity : AssessmentIdentity) (configurations : List Configuration) : Prop :=
  PassedOver u identity configurations → ∀ config ∈ configurations,
    ∀ m ∈ nodesLeaves config.nodes, ¬NamesProduct u identity m

instance (identity : AssessmentIdentity) (m : CpeMatch) : Decidable (NamesProduct u identity m) :=
  inferInstanceAs (Decidable (_ ∧ _))

instance (identity : AssessmentIdentity) (configurations : List Configuration) :
    Decidable (PassedOver u identity configurations) :=
  inferInstanceAs (Decidable (∀ config ∈ configurations, ∀ m ∈ nodesLeaves config.nodes,
    (flattenMatch u m).matchesKey u (identityKey u identity) = false))

instance (identity : AssessmentIdentity) (configurations : List Configuration) :
    Decidable (Unnamed u identity configurations) :=
  inferInstanceAs (Decidable (_ → ∀ config ∈ configurations, ∀ m ∈ nodesLeaves config.nodes,
    ¬NamesProduct u identity m))

end

section
variable {u : Tables}

/-! The rows of a generation. -/

def Flattened (u : Tables) (g : Generation) : Prop :=
  ∀ r ∈ g.records, r.applicability = flattenApplicability u r.configurations

theorem Flattened.record {g : Generation} (h : Flattened u g) (cve : NormalizedCVE) :
    Flattened u (ingestRecord u g cve) := by
  intro r hr
  rw [ingestRecord] at hr
  split at hr
  · obtain ⟨r',hr',rfl⟩ := mem_map.1 hr
    by_cases same : r'.cveId = cve.cveId
    · rw [if_pos same]
      rfl
    · rw [if_neg same]
      exact h r' hr'
  · rcases mem_append.1 hr with hr | hr
    · exact h r hr
    · rw [mem_singleton.1 hr]
      rfl

theorem Flattened.page {g : Generation} (h : Flattened u g) (page : List (Option NormalizedCVE)) :
    Flattened u (ingestFeedPage u g page) := by
  rw [ingestFeedPage]
  induction page.filterMap id generalizing g with
  | nil => exact h
  | cons cve rest ih => exact ih (h.record cve)

theorem ingested_flattened (id : Nat) (completedAt : Option Nat)
    (pages : List (List (Option NormalizedCVE))) : Flattened u (ingested u id completedAt pages) := by
  have start : Flattened u ⟨id,completedAt,true,[],nodup_nil⟩ := fun _ => nofun
  rw [ingested]
  generalize (⟨id,completedAt,true,[],nodup_nil⟩ : Generation) = g at start
  induction pages generalizing g with
  | nil => exact start
  | cons page rest ih => exact ih _ (start.page page)

theorem mem_candidates {g : Generation} (h : Flattened u g) {identity : AssessmentIdentity}
    {r : Record} (hr : r ∈ g.records) :
    r ∈ candidates u identity g ↔ ¬PassedOver u identity r.configurations := by
  simp only [candidates,matching,mem_filter,hr,true_and,h r hr,flattenApplicability,
    any_map,any_eq_true,mem_flatMap,Function.comp_apply,PassedOver]
  constructor
  · rintro ⟨m,⟨config,hc,hm⟩,found⟩ over_
    rw [over_ config hc m hm] at found
    cases found
  · intro found
    by_contra none_found
    refine found fun config hc m hm => ?_
    cases hk : (flattenMatch u m).matchesKey u (identityKey u identity) with
    | false => rfl
    | true => exact absurd ⟨m,⟨config,hc,hm⟩,hk⟩ none_found

/-! The evaluation of a tree that does not name the product. -/

section
variable {f g : CpeMatch → MatchEvidence}

mutual
theorem evaluateNode_congr : ∀ node : Node, (∀ m ∈ nodeLeaves node, (f m).result = (g m).result) →
    (evaluateNode u f node).result = (evaluateNode u g node).result
  | .node operator negate cpeMatch children, h => by
    have leaves : cpeMatch.map (MatchEvidence.result ∘ f) = cpeMatch.map (MatchEvidence.result ∘ g) :=
      map_congr_left fun m hm => h m (by rw [nodeLeaves]; exact mem_append_left _ hm)
    have below := evaluateNodes_congr children fun m hm =>
      h m (by rw [nodeLeaves]; exact mem_append_right _ hm)
    simp only [evaluateNode,gather,map_append,map_map,leaves,below]
theorem evaluateNodes_congr : ∀ nodes : List Node,
    (∀ m ∈ nodesLeaves nodes, (f m).result = (g m).result) →
    (evaluateNodes u f nodes).map MatchEvidence.result =
      (evaluateNodes u g nodes).map MatchEvidence.result
  | [],_ => rfl
  | node::rest,h => by
    have first := evaluateNode_congr node fun m hm =>
      h m (by rw [nodesLeaves]; exact mem_append_left _ hm)
    have later := evaluateNodes_congr rest fun m hm =>
      h m (by rw [nodesLeaves]; exact mem_append_right _ hm)
    simp only [evaluateNodes,map_cons,first,later]
end

end

theorem foreign_leaf {identity : AssessmentIdentity} {m : CpeMatch}
    (h : ¬NamesProduct u identity m) : (evaluateCpe u identity m).result = (foreignLeaf m).result := by
  simp only [NamesProduct] at h
  simp only [evaluateCpe,foreignLeaf]
  rw [if_neg h]
  cases m.vulnerable <;> rfl

theorem truthOf_foreign {identity : AssessmentIdentity} {r : Record}
    (h : ∀ config ∈ r.configurations, ∀ m ∈ nodesLeaves config.nodes, ¬NamesProduct u identity m) :
    truthOf u identity r = foreignTruth u r.configurations := by
  simp only [truthOf,evaluateApplicability,gather,map_map,foreignTruth]
  congr 1
  refine map_congr_left fun config hc => ?_
  simp only [Function.comp_apply,evaluateConfiguration,gather]
  rw [evaluateNodes_congr config.nodes fun m hm => foreign_leaf (h config hc m hm)]

/-! A complete assessment. -/

section
variable {arrangement : Arrangement} {identity : AssessmentIdentity} {feed : FeedState} {now : Nat}
  {g : Generation}

theorem assessIdentity_complete (ready : readinessResult identity feed now = none)
    (here : feed.generation = some g)
    (complete : (assessIdentity u arrangement identity feed now).completeness = .complete) :
    (assessIdentity u arrangement identity feed now).findings.Perm
        ((having u .yes identity (candidates u identity g)).map (finding u identity)) ∧
      having u .unknown identity (candidates u identity g) = [] := by
  have perm := arrangement.perm (candidates u identity g)
  by_cases few : (candidates u identity g).length ≤ maxCandidates
  · rw [assessIdentity_all ready here few] at complete ⊢
    have whole : evaluateCandidates u (arrangement.arrange (candidates u identity g)) identity feed
        now false = evaluateCandidates u (arrangement.arrange (matching u g (identityKey u identity)))
          identity feed now false := rfl
    rw [←whole] at complete ⊢
    simp only [evaluateCandidates] at complete ⊢
    by_cases limited : maxFindings < ((having u .yes identity
        (arrangement.arrange (candidates u identity g))).map (finding u identity)).length
    · rw [if_pos (.inr (.inl limited))] at complete
      cases complete
    · by_cases unknown : having u .unknown identity
          (arrangement.arrange (candidates u identity g)) = []
      · refine ⟨?_,?_⟩
        · rw [take_of_length_le (not_lt.1 limited)]
          exact (perm.filter _).map _
        · exact List.Perm.nil_eq ((perm.filter _).symm.trans (List.Perm.of_eq unknown)).symm |>.symm
      · rw [if_pos (.inr (.inr unknown))] at complete
        cases complete
  · have cut : maxCandidates < ((arrangement.arrange (candidates u identity g)).take
        (maxCandidates+1)).length := by
      rw [length_take,perm.length_eq]
      omega
    simp only [assessIdentity,ready,here] at complete
    rw [evaluateCandidates] at complete
    simp only at complete
    rw [if_pos (.inl (decide_eq_true cut))] at complete
    cases complete

theorem having_candidates (selected : ∀ r ∈ g.records, truthOf u identity r ≠ .no →
    r ∈ candidates u identity g) {truth : Truth} (h : truth ≠ .no) :
    having u truth identity (candidates u identity g) = having u truth identity g.records := by
  simp only [having,candidates,matching,filter_filter]
  refine filter_congr fun r hr => ?_
  by_cases he : (evaluateApplicability u r.configurations identity).result = truth
  · have said : truthOf u identity r = truth := he
    have found := (mem_filter.1 (selected r hr (by rw [said]; exact h))).2
    simp [he,found]
  · simp [he]

theorem covers_iff (ready : readinessResult identity feed now = none)
    (here : feed.generation = some g) : Covers u arrangement identity feed now g ↔
      ∀ r ∈ g.records, truthOf u identity r ≠ .no → r ∈ candidates u identity g := by
  refine ⟨Covers.selected,fun selected => ⟨fun complete => ?_,fun complete r hr unknown => ?_,selected⟩⟩
  · obtain ⟨findings,-⟩ := assessIdentity_complete ready here complete
    rwa [having_candidates selected (by decide)] at findings
  · obtain ⟨-,none_unknown⟩ := assessIdentity_complete ready here complete
    rw [having_candidates selected (by decide)] at none_unknown
    have there : r ∈ having u .unknown identity g.records :=
      mem_filter.2 ⟨hr,decide_eq_true unknown⟩
    rw [none_unknown] at there
    cases there

/-- Where the query finds each leaf that the evaluator takes for the product, a complete assessment
is complete exactly when every tree it passes over is false for a product that it does not name. -/
theorem coverage_iff (u : Tables) (arrangement : Arrangement) (identity : AssessmentIdentity)
    (feed : FeedState) (now id : Nat) (completedAt : Option Nat)
    (pages : List (List (Option NormalizedCVE)))
    (here : feed.generation = some (ingested u id completedAt pages))
    (ready : readinessResult identity feed now = none)
    (unnamed : ∀ r ∈ (ingested u id completedAt pages).records,
      Unnamed u identity r.configurations) :
    Covers u arrangement identity feed now (ingested u id completedAt pages) ↔
      ∀ r ∈ (ingested u id completedAt pages).records, PassedOver u identity r.configurations →
        foreignTruth u r.configurations = .no := by
  have flattened := ingested_flattened (u := u) id completedAt pages
  rw [covers_iff ready here]
  refine forall₂_congr fun r hr => ?_
  rw [mem_candidates flattened hr]
  constructor
  · intro selected over_
    rw [←truthOf_foreign (unnamed r hr over_)]
    by_contra not_rejected
    exact selected not_rejected over_
  · intro rejected not_rejected over_
    rw [truthOf_foreign (unnamed r hr over_)] at not_rejected
    exact not_rejected (rejected over_)

end

end

/-! One feed of ASCII texts. -/

def ready (generation : Generation) : FeedState := ⟨.ready,.ready,some generation,some 0⟩

def cveOf (cveId : String) (configurations : List Configuration) : NormalizedCVE :=
  ⟨cveId.toList,none,none,configurations⟩

def leafFor (criteria : String) : Configuration :=
  { nodes := [.node "OR".toList false [{ criteria := criteria.toList }] []] }

def twoProducts : List (List (Option NormalizedCVE)) :=
  [[some (cveOf "CVE-1" [leafFor "cpe:2.3:a:acme:router:1.0:*"]),none],
    [some (cveOf "CVE-2" [leafFor "cpe:2.3:a:acme:switch:*:*"])]]

theorem coverage_iff_two : Covers ascii byScore routerIdentity
    (ready (ingested ascii 1 (some 0) twoProducts)) 0 (ingested ascii 1 (some 0) twoProducts) :=
  (coverage_iff ascii byScore routerIdentity _ 0 1 (some 0) twoProducts rfl rfl
    (by decide)).2 (by decide)

def everyProduct : List (List (Option NormalizedCVE)) :=
  [[some (cveOf "CVE-3" [leafFor "cpe:2.3:a:acme:*:1.0:*"]),some (cveOf "CVE-4" [])]]

theorem wildcard_passed_over :
    (assessIdentity ascii byScore routerIdentity (ready (ingested ascii 1 (some 0) everyProduct))
      0).completeness = .complete ∧
    (assessIdentity ascii byScore routerIdentity (ready (ingested ascii 1 (some 0) everyProduct))
      0).findings.length = 0 ∧
    ((ingested ascii 1 (some 0) everyProduct).records.map (truthOf ascii routerIdentity)) =
      [.yes,.unknown] ∧
    ¬Covers ascii byScore routerIdentity (ready (ingested ascii 1 (some 0) everyProduct)) 0
      (ingested ascii 1 (some 0) everyProduct) := by
  have complete : (assessIdentity ascii byScore routerIdentity
      (ready (ingested ascii 1 (some 0) everyProduct)) 0).completeness = .complete := by
    decide
  have truths : ((ingested ascii 1 (some 0) everyProduct).records.map
      (truthOf ascii routerIdentity)) = [.yes,.unknown] := by decide
  refine ⟨complete,by decide,truths,fun h => ?_⟩
  have there : Truth.unknown ∈ (ingested ascii 1 (some 0) everyProduct).records.map
      (truthOf ascii routerIdentity) := by
    rw [truths]
    exact mem_cons_of_mem _ mem_cons_self
  obtain ⟨r,hr,unknown⟩ := mem_map.1 there
  exact h.known complete r hr unknown

end CircuitBreaker.AssessmentCoverage
