import Mathlib.Data.List.Chain
import Mathlib.Data.List.TakeWhile
import CircuitBreaker.MetricAlerts

/-! What one run of `evaluate_due_rules` (workers/metric_alert_worker.py) reads of the stored
samples (services/monitoring/metric_catalog.py), against their complete history. -/

namespace CircuitBreaker.MetricWindows
open MetricAlerts List

inductive Gauge where
  | cpuPct
  | memPct
  | diskPct
  | tempC
  | powerW

def Gauge.key : Gauge → String
  | .cpuPct => "cpu_pct"
  | .memPct => "mem_pct"
  | .diskPct => "disk_pct"
  | .tempC => "temp_c"
  | .powerW => "power_w"

/-- A row of hardware_live_metrics. A gauge is null or a number, which is none where it is not
finite. -/
structure MetricRow where
  id : Nat
  hardwareId : Nat
  collectedAt : Int
  agentSampleId : Option String
  source : Option String
  gauges : Gauge → Option (Option ℚ)

/-- A rule with its source; `validate_metric_rule` lets no key in that the catalog has not. -/
structure RuleRow extends Rule where
  source : Option String
  gauge : Gauge
  key : fields.metricKey = gauge.key

def RuleRow.config (rule : RuleRow) : RuleConfig := rule.fields.config

/-- The tables, the samples as `ORDER BY collected_at DESC` lists them and the rules by id. -/
structure Tables where
  rows : List MetricRow
  newestFirst : rows.Pairwise fun a b => b.collectedAt ≤ a.collectedAt
  rules : List RuleRow
  byId : rules.Pairwise fun a b => a.id < b.id
  states : Nat → Option AlertState

def rowLimit : Nat := 5000
def dueLimit : Nat := 100

def hourlyAgg : String := "hourly_agg"

/-- `if source:` takes an empty text for none. -/
def ofSource (source : Option String) (row : MetricRow) : Bool :=
  match source with
  | none => true
  | some s => s = "" ∨ row.source = some s

/-- The query's conditions but for the time. A null source is not unequal to any text. -/
def rawRow (rule : RuleRow) (row : MetricRow) : Bool :=
  row.hardwareId = rule.fields.targetId ∧ (row.gauges rule.gauge).isSome = true ∧
    row.source.any (· ≠ hourlyAgg) = true ∧ ofSource rule.source row = true

section
variable (iso : Int → String)

def MetricRow.sampleId (row : MetricRow) : String :=
  match row.agentSampleId with
  | none => toString row.id ++ ":" ++ iso row.collectedAt
  | some s => if s = "" then toString row.id ++ ":" ++ iso row.collectedAt else s

def MetricRow.sample (gauge : Gauge) (row : MetricRow) : MetricSample :=
  ⟨row.collectedAt,(row.gauges gauge).join,row.sampleId iso⟩

def readMetricWindow (rows : List MetricRow) (rule : RuleRow) (since : Int) (limit : Nat) :
    List MetricSample :=
  let found := (rows.filter fun row => rawRow rule row && decide (since ≤ row.collectedAt)).take limit
  found.reverse.map (MetricRow.sample iso rule.gauge)

def RuleRow.windowS (rule : RuleRow) : Nat :=
  max (max rule.config.breachDurationS rule.config.recoveryDurationS+rule.config.maxGapS)
    rule.config.freshnessS

def RuleRow.since (rule : RuleRow) (now : Int) : Int := now-(rule.windowS : Int)*1000000

def evaluatePersistedRule (rows : List MetricRow) (rule : RuleRow) (state : Option AlertState)
    (now : Int) (fresh : Incident) : AlertState × Option Event :=
  let samples := readMetricWindow iso rows rule (rule.since now) rowLimit
  let prior : PriorState :=
    ⟨(state.map AlertState.assessment).getD .unknown,state.bind AlertState.openIncidentId⟩
  let decision := evaluateRule rule.config prior samples now
  persistTransition rule.toRule (state.getD (.fresh rule.revision)) decision now fresh

def evaluateRules (rows : List MetricRow) (now : Int) (fresh : Nat → Incident) :
    List RuleRow → (Nat → Option AlertState) → (Nat → Option AlertState) × List Event
  | [], states => (states,[])
  | rule::rest, states =>
      let out := evaluatePersistedRule iso rows rule (states rule.id) now (fresh rule.id)
      let after := evaluateRules rows now fresh rest (Function.update states rule.id (some out.1))
      (after.1,out.2.toList++after.2)

def Tables.due (t : Tables) : List RuleRow := (t.rules.filter (·.config.enabled)).take dueLimit

def evaluateDueRules (t : Tables) (now : Int) (fresh : Nat → Incident) :
    (Nat → Option AlertState) × List Event :=
  evaluateRules iso t.rows now fresh t.due t.states

/-! The complete history. -/

def latestOfEach : List MetricSample → List MetricSample
  | [] => []
  | s::rest => if rest.any (·.sampleId = s.sampleId) then latestOfEach rest else s::latestOfEach rest

def Tables.raw (t : Tables) (rule : RuleRow) : List MetricRow := t.rows.filter (rawRow rule)

def Tables.seen (t : Tables) (rule : RuleRow) (now : Int) : List MetricRow :=
  ((t.raw rule).take rowLimit).filter fun row => decide (rule.since now ≤ row.collectedAt)

def finite (gauge : Gauge) (rows : List MetricRow) : List MetricSample :=
  (rows.reverse.map (MetricRow.sample iso gauge)).filter (·.value.isSome)

def Tables.history (t : Tables) (rule : RuleRow) : List MetricSample :=
  latestOfEach (finite iso rule.gauge (t.raw rule))

end

def condition (config : RuleConfig) : EventType → ℚ → Bool
  | .firing => (compare · config.comparator config.threshold)
  | .recovered => (recovered · config)

def durationS (config : RuleConfig) : EventType → Nat
  | .firing => config.breachDurationS
  | .recovered => config.recoveryDurationS

structure Shows (config : RuleConfig) (now : Int) (type : EventType)
    (history run : List MetricSample) : Prop where
  ends : run <:+ history
  fresh : ∃ latest, history.getLast? = some latest ∧
    now-latest.timestamp ≤ (config.freshnessS : Int)*1000000
  all : ∀ s ∈ run, s.holds (condition config type) = true
  near : run.IsChain fun a b => b.timestamp-a.timestamp ≤ (config.maxGapS : Int)*1000000
  spans : ∃ first last, run.head? = some first ∧ run.getLast? = some last ∧
    (durationS config type : Int)*1000000 ≤ last.timestamp-first.timestamp

def nextEvent (incident : Option Incident) : EventType :=
  if incident.isSome then .recovered else .firing

def Tables.openOf (t : Tables) (rule : RuleRow) : Option Incident :=
  (t.states rule.id).bind AlertState.openIncidentId

/-! The evaluator on a list of samples in order. -/

def Near (config : RuleConfig) (a b : MetricSample) : Prop :=
  b.timestamp-a.timestamp ≤ (config.maxGapS : Int)*1000000

theorem exceeds_gap {config : RuleConfig} {a b : MetricSample} :
    exceeds (b.timestamp-a.timestamp) config.maxGapS = true ↔ ¬Near config a b := by
  rw [exceeds,decide_eq_true_iff,Near,Int.not_le]

theorem dropWhile_to {seg rest : List MetricSample} {y : MetricSample}
    (h : y ∉ seg) : (seg++y::rest).dropWhile (· ≠ y) = y::rest := by
  have other : ∀ s ∈ seg, decide (s ≠ y) = true :=
    fun s hs => decide_eq_true fun (he : s = y) => h (he ▸ hs)
  rw [dropWhile_append_of_pos other]
  simp

theorem gaps_from (config : RuleConfig) (l : List MetricSample) :
    ∀ (seg : List MetricSample) (x : MetricSample), (seg++x::l).Nodup →
      (seg++[x]).IsChain (Near config) →
      ∃ r, ((x::l).zip l).foldl (fun rest pair =>
          if exceeds (pair.2.timestamp-pair.1.timestamp) config.maxGapS then
            rest.dropWhile (· ≠ pair.2) else rest) (seg++x::l) = r ∧
        r <:+ seg++x::l ∧ r.IsChain (Near config) ∧
        ∀ run, run <:+ seg++x::l → run.IsChain (Near config) → run <:+ r := by
  induction l with
  | nil => exact fun seg x _ chain => ⟨_,rfl,suffix_refl _,chain,fun run hr _ => hr⟩
  | cons y l ih =>
    intro seg x nodup chain
    simp only [zip_cons_cons,foldl_cons]
    have assoc : seg++x::y::l = (seg++[x])++y::l := by simp
    by_cases gap : exceeds (y.timestamp-x.timestamp) config.maxGapS = true
    · have apart := exceeds_gap.mp gap
      have absent : y ∉ seg++[x] := by
        rw [assoc,nodup_append] at nodup
        exact fun hy => nodup.2.2 y hy y mem_cons_self rfl
      have rest : (y::l).Nodup := by
        rw [assoc,nodup_append] at nodup
        exact nodup.2.1
      obtain ⟨r,eq,ends,near,longest⟩ := ih [] y rest (isChain_singleton y)
      rw [if_pos gap,assoc,dropWhile_to absent]
      refine ⟨r,eq,ends.trans (suffix_append _ _),near,fun run hr hn => ?_⟩
      -- a run that reached back to x would hold the gap
      refine longest run ?_ hn
      rcases lt_or_ge (y::l).length run.length with long | short
      · have whole : x::y::l <:+ run :=
          suffix_of_suffix_length_le (by simp) hr (by simp only [length_cons] at long ⊢; omega)
        exact absurd (isChain_cons_cons.mp (hn.suffix whole)).1 apart
      · exact suffix_of_suffix_length_le hr (suffix_append _ _) short
    · have close : Near config x y := by
        rw [exceeds_gap] at gap
        exact not_not.mp gap
      rw [if_neg gap,assoc]
      refine ih (seg++[x]) y (assoc ▸ nodup) ?_
      rw [append_assoc,singleton_append]
      exact isChain_append_cons_cons.mpr ⟨chain,close,isChain_singleton y⟩

theorem afterGaps_spec (config : RuleConfig) {ordered : List MetricSample} (h : ordered.Nodup) :
    afterGaps config ordered <:+ ordered ∧ (afterGaps config ordered).IsChain (Near config) ∧
      ∀ run, run <:+ ordered → run.IsChain (Near config) → run <:+ afterGaps config ordered := by
  cases ordered with
  | nil => exact ⟨suffix_refl _,isChain_nil,fun run hr _ => hr⟩
  | cons x l =>
    obtain ⟨r,rfl,spec⟩ := gaps_from config l [] x h (isChain_singleton x)
    exact spec

theorem tailOf_spec (p : ℚ → Bool) (ordered : List MetricSample) :
    tailOf p ordered <:+ ordered ∧ (∀ s ∈ tailOf p ordered, s.holds p = true) ∧
      ∀ run, run <:+ ordered → (∀ s ∈ run, s.holds p = true) → run <:+ tailOf p ordered := by
  unfold tailOf
  refine ⟨?_,fun s hs => ?_,fun run hr all => ?_⟩
  · have := takeWhile_prefix (fun s : MetricSample => s.holds p) (l := ordered.reverse)
    rwa [←reverse_suffix,reverse_reverse] at this
  · have mem : s ∈ ordered.reverse.takeWhile (·.holds p) := mem_reverse.mp hs
    exact mem_takeWhile_imp (p := fun s : MetricSample => s.holds p) mem
  · obtain ⟨front,rfl⟩ := hr
    rw [reverse_append,takeWhile_append_of_pos (by simpa using all),reverse_append,
      reverse_reverse]
    exact suffix_append _ _

theorem tail_spans {config : RuleConfig} {type : EventType} {ordered : List MetricSample}
    (sorted : ordered.Pairwise fun a b => a.timestamp ≤ b.timestamp) (nodup : ordered.Nodup)
    {seconds : Int} :
    (∃ first last, (tailOf (condition config type) (afterGaps config ordered)).head? = some first ∧
      (tailOf (condition config type) (afterGaps config ordered)).getLast? = some last ∧
        seconds ≤ last.timestamp-first.timestamp) ↔
    ∃ run, run <:+ ordered ∧ (∀ s ∈ run, s.holds (condition config type) = true) ∧
      run.IsChain (Near config) ∧ ∃ first last, run.head? = some first ∧
        run.getLast? = some last ∧ seconds ≤ last.timestamp-first.timestamp := by
  obtain ⟨cut,near,longest⟩ := afterGaps_spec config nodup
  obtain ⟨ends,all,whole⟩ := tailOf_spec (condition config type) (afterGaps config ordered)
  generalize tailOf (condition config type) (afterGaps config ordered) = tail at *
  constructor
  · exact fun spans => ⟨tail,ends.trans cut,all,near.suffix ends,spans⟩
  · rintro ⟨run,suffix,holds,chain,first,last,hf,hl,span⟩
    obtain ⟨front,rfl⟩ := whole run (longest run suffix chain) holds
    have some : run ≠ [] := fun none => by simp [none] at hf
    rw [getLast?_append_of_ne_nil front some,hl]
    cases front with
    | nil => exact ⟨first,last,hf,rfl,span⟩
    | cons x front =>
      refine ⟨x,last,rfl,rfl,?_⟩
      have older := (pairwise_cons.mp (sorted.sublist (ends.trans cut).sublist)).1 first
        (mem_append_right front (mem_of_mem_head? hf))
      omega

theorem orderedSamples_sorted (samples : List MetricSample) :
    (orderedSamples samples).Pairwise fun a b => a.timestamp ≤ b.timestamp := by
  have total : Std.Total fun a b : MetricSample => a.timestamp ≤ b.timestamp :=
    ⟨fun a b => Int.le_total a.timestamp b.timestamp⟩
  have trans : IsTrans MetricSample fun a b => a.timestamp ≤ b.timestamp :=
    ⟨fun a b c => Int.le_trans⟩
  exact pairwise_insertionSort _ _

variable {samples : List MetricSample}

theorem mem_unique {p : String × MetricSample}
    (h : p ∈ (Dict.ofPairs (samples.map fun s => (s.sampleId,s))).items) :
    p.1 = p.2.sampleId ∧ p.2 ∈ samples := by
  have found := Dict.get_eq_some_iff.mpr h
  rw [Dict.get_ofPairs] at found
  obtain ⟨q,last,same⟩ := Option.map_eq_some_iff.mp found
  obtain ⟨mem,key⟩ := mem_filter.mp (mem_of_getLast? last)
  obtain ⟨s,hs,rfl⟩ := mem_map.mp mem
  have key : s.sampleId = p.1 := of_decide_eq_true key
  have same : s = p.2 := same
  exact ⟨same ▸ key.symm,same ▸ hs⟩

theorem orderedSamples_ids (samples : List MetricSample) :
    ((orderedSamples samples).map MetricSample.sampleId).Nodup := by
  let unique := Dict.ofPairs ((samples.filter (·.value.isSome)).map fun s => (s.sampleId,s))
  have perm : (orderedSamples samples).Perm (unique.items.map Prod.snd) :=
    perm_insertionSort _ _
  refine (perm.map _).nodup_iff.mpr ?_
  have keys : (unique.items.map Prod.snd).map MetricSample.sampleId = unique.items.map Prod.fst := by
    rw [map_map]
    exact map_congr_left fun p hp => (mem_unique hp).1.symm
  rw [keys]
  exact unique.nodup

theorem orderedSamples_nodup (samples : List MetricSample) : (orderedSamples samples).Nodup :=
  .of_map _ (orderedSamples_ids samples)

theorem decided {first last : Option MetricSample} {seconds : Int} {type : EventType}
    {yes : EvaluationDecision} {no : MetricSample → EvaluationDecision} {without : EvaluationDecision}
    (emits : yes.eventType = some type) (quiet : ∀ s, (no s).eventType = none)
    (still : without.eventType = none) (t : EventType) :
    (match first,last with
      | some first,some last => if seconds ≤ last.timestamp-first.timestamp then yes else no first
      | _,_ => without).eventType = some t ↔
    t = type ∧ ∃ f l, first = some f ∧ last = some l ∧ seconds ≤ l.timestamp-f.timestamp := by
  cases first with
  | none => simp [still]
  | some f =>
    cases last with
    | none => simp [still]
    | some l =>
      by_cases long : seconds ≤ l.timestamp-f.timestamp
      · simp only [if_pos long,emits,Option.some.injEq]
        exact ⟨fun same => ⟨same.symm,f,l,rfl,rfl,long⟩,fun h => h.1.symm⟩
      · simp only [if_neg long,quiet]
        constructor
        · exact nofun
        · rintro ⟨-,f',l',hf,hl,h⟩
          cases hf
          cases hl
          exact absurd h long

theorem evaluateRule_event {config : RuleConfig} (on : config.enabled = true) (prior : PriorState)
    (samples : List MetricSample) (now : Int) (type : EventType) :
    (evaluateRule config prior samples now).eventType = some type ↔
      type = nextEvent prior.openIncidentId ∧
        ∃ run, Shows config now type (orderedSamples samples) run := by
  have spans (type : EventType) := @tail_spans config type _ (orderedSamples_sorted samples)
    (orderedSamples_nodup samples) ((durationS config type : Int)*1000000)
  unfold evaluateRule
  rw [if_neg (by simp [on])]
  cases hlast : (orderedSamples samples).getLast? with
  | none =>
    simp only [reduceCtorEq,false_iff]
    rintro ⟨-,run,h⟩
    obtain ⟨latest,some,-⟩ := h.fresh
    simp [hlast] at some
  | some latest =>
    dsimp only
    split
    case isTrue old =>
      simp only [reduceCtorEq,false_iff]
      rintro ⟨-,run,h⟩
      obtain ⟨newest,some,fresh⟩ := h.fresh
      cases hlast.symm.trans some
      simp only [exceeds,decide_eq_true_iff] at old
      omega
    case isFalse old =>
      have fresh : now-latest.timestamp ≤ (config.freshnessS : Int)*1000000 := by
        simp only [exceeds,decide_eq_true_iff] at old
        omega
      have shown (type : EventType) : (∃ run, Shows config now type (orderedSamples samples) run) ↔
          ∃ run, run <:+ orderedSamples samples ∧
            (∀ s ∈ run, s.holds (condition config type) = true) ∧ run.IsChain (Near config) ∧
            ∃ first last, run.head? = some first ∧ run.getLast? = some last ∧
              (durationS config type : Int)*1000000 ≤ last.timestamp-first.timestamp :=
        ⟨fun ⟨run,h⟩ => ⟨run,h.ends,h.all,h.near,h.spans⟩,
          fun ⟨run,ends,all,near,spans⟩ => ⟨run,ends,⟨latest,hlast,fresh⟩,all,near,spans⟩⟩
      cases hp : prior.openIncidentId with
          refine (decided rfl (fun _ => rfl) rfl type).trans (and_congr_right fun same => ?_)
      | some incident =>
        rw [same,shown]
        exact spans .recovered
      | none =>
        rw [same,shown]
        exact spans .firing

/-! The samples a run reads, and the history they end. -/

theorem latestOfEach_sublist (l : List MetricSample) : (latestOfEach l).Sublist l := by
  induction l with
  | nil => exact List.Sublist.refl _
  | cons s rest ih =>
    unfold latestOfEach
    split
    · exact ih.cons s
    · exact ih.cons_cons s

theorem latestOfEach_suffix (older newer : List MetricSample) :
    latestOfEach newer <:+ latestOfEach (older++newer) := by
  induction older with
  | nil => exact suffix_refl _
  | cons s older ih =>
    rw [cons_append,latestOfEach]
    split
    · exact ih
    · exact ih.trans (suffix_cons s _)

variable {l : List MetricSample}

variable {s : MetricSample}

theorem mem_latestOfEach :
    s ∈ latestOfEach l ↔ (l.filter (·.sampleId = s.sampleId)).getLast? = some s := by
  induction l with
  | nil => simp [latestOfEach]
  | cons x rest ih =>
    unfold latestOfEach
    by_cases same : x.sampleId = s.sampleId
    · rw [filter_cons_of_pos (by simpa using same),same]
      split
      case isTrue again =>
        rw [ih]
        have some : rest.filter (·.sampleId = s.sampleId) ≠ [] := by
          obtain ⟨y,hy,key⟩ := any_eq_true.mp again
          exact ne_nil_of_mem (mem_filter.mpr ⟨hy,key⟩)
        rw [getLast?_cons_of_ne_nil some]
      case isFalse again =>
        have none : rest.filter (·.sampleId = s.sampleId) = [] := by
          refine filter_eq_nil_iff.mpr fun y hy key => again ?_
          exact any_eq_true.mpr ⟨y,hy,key⟩
        rw [none] at ih ⊢
        simp only [mem_cons,ih]
        simp [eq_comm]
    · rw [filter_cons_of_neg (by simpa using same),←ih]
      split
      · rfl
      · simp only [mem_cons,or_iff_right_iff_imp]
        exact fun h => absurd (h ▸ rfl) same

theorem latestOfEach_ids (l : List MetricSample) :
    ((latestOfEach l).map MetricSample.sampleId).Nodup := by
  induction l with
  | nil => exact nodup_nil
  | cons s rest ih =>
    unfold latestOfEach
    split
    · exact ih
    case isFalse new =>
      refine nodup_cons.mpr ⟨fun mem => new ?_,ih⟩
      obtain ⟨y,hy,key⟩ := mem_map.mp mem
      exact any_eq_true.mpr ⟨y,(latestOfEach_sublist rest).subset hy,by simpa using key⟩

theorem exists_latestOfEach (h : s ∈ l) :
    ∃ y ∈ latestOfEach l, y.sampleId = s.sampleId := by
  have some : l.filter (·.sampleId = s.sampleId) ≠ [] :=
    ne_nil_of_mem (mem_filter.mpr ⟨h,by simp⟩)
  have hy := getLast?_eq_some_getLast some
  generalize (l.filter (·.sampleId = s.sampleId)).getLast some = y at hy
  have key : y.sampleId = s.sampleId := by
    simpa using (mem_filter.mp (mem_of_getLast? hy)).2
  exact ⟨y,mem_latestOfEach.mpr (key ▸ hy),key⟩

def Distinct (samples : List MetricSample) : Prop :=
  (samples.map MetricSample.sampleId).Nodup ∨ (samples.map MetricSample.timestamp).Nodup

theorem Distinct.sublist {l' : List MetricSample} (h : Distinct l) (sub : l'.Sublist l) :
    Distinct l' :=
  h.imp (fun ids => ids.sublist (sub.map _)) fun times => times.sublist (sub.map _)

theorem mem_orderedSamples :
    s ∈ orderedSamples samples ↔ s ∈ latestOfEach (samples.filter (·.value.isSome)) := by
  rw [orderedSamples,mem_insertionSort,mem_latestOfEach]
  generalize samples.filter (·.value.isSome) = l
  have found : s ∈ (Dict.ofPairs (l.map fun s => (s.sampleId,s))).items.map Prod.snd ↔
      (Dict.ofPairs (l.map fun s => (s.sampleId,s))).get s.sampleId = some s := by
    rw [Dict.get_eq_some_iff]
    constructor
    · intro mem
      obtain ⟨p,hp,rfl⟩ := mem_map.mp mem
      rw [←(mem_unique hp).1]
      exact hp
    · exact fun mem => mem_map.mpr ⟨_,mem,rfl⟩
  rw [found,Dict.get_ofPairs,filter_map,getLast?_map,Option.map_map]
  simp [Function.comp_def]

theorem latestOfEach_of_ids (h : (l.map MetricSample.sampleId).Nodup) :
    latestOfEach l = l := by
  induction l with
  | nil => rfl
  | cons s rest ih =>
    obtain ⟨new,ids⟩ := nodup_cons.mp h
    have once : ¬rest.any (·.sampleId = s.sampleId) = true := by
      intro again
      obtain ⟨y,hy,key⟩ := any_eq_true.mp again
      exact new (mem_map.mpr ⟨y,hy,by simpa using key⟩)
    rw [latestOfEach,if_neg once,ih ids]

theorem strictly_sorted (sorted : l.Pairwise fun a b => a.timestamp ≤ b.timestamp)
    (times : (l.map MetricSample.timestamp).Nodup) :
    l.Pairwise fun a b => a.timestamp < b.timestamp := by
  have apart : l.Pairwise fun a b => a.timestamp ≠ b.timestamp := pairwise_map.mp times
  refine (sorted.and apart).imp fun both => ?_
  have := both.1
  have := both.2
  omega

theorem orderedSamples_eq (sorted : samples.Pairwise fun a b => a.timestamp ≤ b.timestamp)
    (distinct : Distinct (samples.filter (·.value.isSome))) :
    orderedSamples samples = latestOfEach (samples.filter (·.value.isSome)) := by
  have inOrder := sorted.sublist (filter_sublist (p := fun s => s.value.isSome))
  rcases distinct with ids | times
  · have keys : ((samples.filter (·.value.isSome)).map fun s => (s.sampleId,s)).map Prod.fst =
        (samples.filter (·.value.isSome)).map MetricSample.sampleId := by
      rw [map_map]
      rfl
    rw [latestOfEach_of_ids ids,orderedSamples,Dict.items_ofPairs (keys ▸ ids),map_map]
    have same : Prod.snd ∘ (fun s : MetricSample => (s.sampleId,s)) = id := rfl
    rw [same,map_id]
    exact inOrder.insertionSort_eq
  · have sub := latestOfEach_sublist (samples.filter (·.value.isSome))
    have strict := (strictly_sorted inOrder times).sublist sub
    have irrefl : Std.Irrefl fun a b : MetricSample => a.timestamp < b.timestamp :=
      ⟨fun a => Int.lt_irrefl a.timestamp⟩
    have antisymm : Std.Antisymm fun a b : MetricSample => a.timestamp < b.timestamp :=
      ⟨fun a b h h' => absurd (Int.lt_trans h h') (Int.lt_irrefl _)⟩
    -- the dict's samples are among the stored ones, so no two of them share a time either
    have own : (orderedSamples samples).Perm (latestOfEach (samples.filter (·.value.isSome))) :=
      (perm_ext_iff_of_nodup (orderedSamples_nodup samples)
        (.of_map _ (latestOfEach_ids _))).mpr fun s => mem_orderedSamples
    refine List.Pairwise.eq_of_mem_iff (strictly_sorted (orderedSamples_sorted samples) ?_) strict
      fun s => mem_orderedSamples
    exact (own.map _).nodup_iff.mpr (times.sublist (sub.map _))

theorem filter_since {rows : List MetricRow} (since : Int)
    (newest : rows.Pairwise fun a b => b.collectedAt ≤ a.collectedAt) :
    rows.filter (fun row => decide (since ≤ row.collectedAt)) =
      rows.takeWhile fun row => decide (since ≤ row.collectedAt) := by
  induction rows with
  | nil => rfl
  | cons row rest ih =>
    obtain ⟨older,newest⟩ := pairwise_cons.mp newest
    by_cases late : since ≤ row.collectedAt
    · rw [filter_cons_of_pos (by simpa using late),
        takeWhile_cons_of_pos (by simpa using late),ih newest]
    · rw [takeWhile_cons_of_neg (by simpa using late)]
      refine filter_eq_nil_iff.mpr fun r hr hs => late ?_
      rcases mem_cons.mp hr with rfl | hr
      · exact of_decide_eq_true hs
      · exact Int.le_trans (of_decide_eq_true hs) (older r hr)

theorem Tables.raw_newest (t : Tables) (rule : RuleRow) :
    (t.raw rule).Pairwise fun a b => b.collectedAt ≤ a.collectedAt :=
  t.newestFirst.sublist filter_sublist

theorem Tables.seen_eq (t : Tables) (rule : RuleRow) (now : Int) :
    (t.rows.filter fun row =>
      rawRow rule row && decide (rule.since now ≤ row.collectedAt)).take rowLimit =
        t.seen rule now := by
  have split : (t.rows.filter fun row =>
      rawRow rule row && decide (rule.since now ≤ row.collectedAt)) =
      (t.raw rule).filter fun row => decide (rule.since now ≤ row.collectedAt) := by
    rw [Tables.raw,filter_filter]
    simp only [Bool.and_comm]
  have newest := t.raw_newest rule
  rw [split,Tables.seen,filter_since _ newest,
    filter_since _ (newest.sublist (take_sublist _ _)),take_takeWhile]

theorem Tables.seen_prefix (t : Tables) (rule : RuleRow) (now : Int) :
    t.seen rule now <+: t.raw rule := by
  have newest := (t.raw_newest rule).sublist (take_sublist rowLimit _)
  rw [Tables.seen,filter_since _ newest]
  exact ( takeWhile_prefix _).trans ( take_prefix _ _)

section
variable {iso : Int → String}

theorem readMetricWindow_eq (t : Tables) (rule : RuleRow) (now : Int) :
    readMetricWindow iso t.rows rule (rule.since now) rowLimit =
      (t.seen rule now).reverse.map (MetricRow.sample iso rule.gauge) := by
  rw [readMetricWindow,t.seen_eq]

theorem Tables.seen_history (t : Tables) (rule : RuleRow) (now : Int) :
    finite iso rule.gauge (t.seen rule now) <:+ finite iso rule.gauge (t.raw rule) := by
  have rows := reverse_suffix.mpr (t.seen_prefix rule now)
  exact (rows.map _).filter _

theorem finite_sorted {rows : List MetricRow} (gauge : Gauge)
    (newest : rows.Pairwise fun a b => b.collectedAt ≤ a.collectedAt) :
    (rows.reverse.map (MetricRow.sample iso gauge)).Pairwise fun a b => a.timestamp ≤ b.timestamp :=
  pairwise_map.mpr (pairwise_reverse.mpr newest)

variable {t : Tables} {rule : RuleRow} {now : Int} {type : EventType}

theorem read_samples (distinct : Distinct (finite iso rule.gauge (t.raw rule))) (now : Int) :
    orderedSamples (readMetricWindow iso t.rows rule (rule.since now) rowLimit) =
      latestOfEach (finite iso rule.gauge (t.seen rule now)) := by
  rw [readMetricWindow_eq]
  refine orderedSamples_eq (finite_sorted _ ?_) ?_
  · exact (t.raw_newest rule).sublist (t.seen_prefix rule now).sublist
  · exact distinct.sublist (t.seen_history rule now).sublist

theorem Shows.of_suffix {config : RuleConfig}
    {history view run : List MetricSample} (h : Shows config now type view run)
    (suffix : view <:+ history) : Shows config now type history run := by
  obtain ⟨latest,last,fresh⟩ := h.fresh
  obtain ⟨older,rfl⟩ := suffix
  have some : view ≠ [] := fun none => by simp [none] at last
  refine ⟨h.ends.trans (suffix_append _ _),⟨latest,?_,fresh⟩,h.all,h.near,h.spans⟩
  rw [getLast?_append_of_ne_nil older some,last]

theorem shows_seen_iff
    {run : List MetricSample} :
    Shows rule.config now type (latestOfEach (finite iso rule.gauge (t.seen rule now))) run ↔
      Shows rule.config now type (t.history iso rule) run ∧
        ∀ s ∈ run, s ∈ (t.seen rule now).map (MetricRow.sample iso rule.gauge) := by
  obtain ⟨older,split⟩ := @Tables.seen_history iso t rule now
  have suffix : latestOfEach (finite iso rule.gauge (t.seen rule now)) <:+ t.history iso rule := by
    rw [Tables.history,←split]
    exact latestOfEach_suffix older _
  constructor
  · refine fun h => ⟨h.of_suffix suffix,fun s hs => ?_⟩
    have mem := (latestOfEach_sublist _).subset (h.ends.subset hs)
    have stored := (mem_filter.mp mem).1
    rwa [map_reverse,mem_reverse] at stored
  · rintro ⟨h,seen⟩
    obtain ⟨front,whole⟩ := suffix
    have ids : ((t.history iso rule).map MetricSample.sampleId).Nodup := latestOfEach_ids _
    rw [←whole,map_append,nodup_append] at ids
    -- a sample before those seen would have another of its id among them
    have ends : run <:+ latestOfEach (finite iso rule.gauge (t.seen rule now)) := by
      have both := h.ends
      rw [←whole] at both
      refine suffix_of_suffix_length_le both (suffix_append _ _) ?_
      by_contra long
      obtain ⟨mid,hmid⟩ := suffix_of_suffix_length_le (suffix_append front _) both (by omega)
      cases mid with
      | nil => simp [←hmid] at long
      | cons x mid =>
        have mem : x ∈ run := by simp [←hmid]
        have early : x ∈ front := by
          obtain ⟨a,ha⟩ := both
          rw [←hmid,←append_assoc] at ha
          rw [←append_cancel_right ha]
          simp
        have stored : x ∈ finite iso rule.gauge (t.raw rule) :=
          (latestOfEach_sublist _).subset (h.ends.subset mem)
        have read : x ∈ finite iso rule.gauge (t.seen rule now) := by
          refine mem_filter.mpr ⟨?_,(mem_filter.mp stored).2⟩
          rw [map_reverse,mem_reverse]
          exact seen x mem
        obtain ⟨y,hy,key⟩ := exists_latestOfEach read
        exact ids.2.2 _ (mem_map_of_mem early) _ (mem_map_of_mem hy) key.symm
    obtain ⟨first,-,head,-,-⟩ := h.spans
    obtain ⟨latest,newest,fresh⟩ := h.fresh
    have some : latestOfEach (finite iso rule.gauge (t.seen rule now)) ≠ [] :=
      ne_nil_of_mem (ends.subset (mem_of_mem_head? head))
    rw [←whole,getLast?_append_of_ne_nil front some] at newest
    exact ⟨ends,⟨latest,newest,fresh⟩,h.all,h.near,h.spans⟩

/-! One run over the rules. -/

def ruleDecision (iso : Int → String) (rows : List MetricRow) (rule : RuleRow)
    (state : Option AlertState) (now : Int) : Option EventType :=
  (evaluateRule rule.config
    ⟨(state.map AlertState.assessment).getD .unknown,state.bind AlertState.openIncidentId⟩
    (readMetricWindow iso rows rule (rule.since now) rowLimit) now).eventType

theorem ruleDecision_iff (on : rule.config.enabled = true)
    (distinct : Distinct (finite iso rule.gauge (t.raw rule))) :
    ruleDecision iso t.rows rule (t.states rule.id) now = some type ↔
      type = nextEvent (t.openOf rule) ∧
        ∃ run, Shows rule.config now type (t.history iso rule) run ∧
          ∀ s ∈ run, s ∈ (t.seen rule now).map (MetricRow.sample iso rule.gauge) := by
  rw [ruleDecision,evaluateRule_event on,read_samples distinct]
  simp only [shows_seen_iff,Tables.openOf]

def mark (e : Event) : Nat × EventType := (e.ruleId,e.eventType)

theorem persistTransition_mark (rule : Rule) (state : AlertState) (decision : EvaluationDecision)
    (now : Int) (fresh : Incident)
    (fits : decision.eventType = some .recovered → state.openIncidentId ≠ none) :
    (persistTransition rule state decision now fresh).2.map mark =
      decision.eventType.map fun type => (rule.id,type) := by
  have same : (state.atRevision rule.revision).openIncidentId = state.openIncidentId := by
    unfold AlertState.atRevision
    split <;> rfl
  unfold persistTransition
  cases decided : decision.eventType with
  | none => simp
  | some type =>
    cases type with
    | firing => simp [mark]
    | recovered =>
      obtain ⟨incident,ho⟩ := Option.ne_none_iff_exists'.mp (fits decided)
      simp [same,ho,mark]

theorem evaluatePersistedRule_mark {rule : RuleRow} (on : rule.config.enabled = true)
    (rows : List MetricRow) (state : Option AlertState) (now : Int) (fresh : Incident) :
    (evaluatePersistedRule iso rows rule state now fresh).2.map mark =
      (ruleDecision iso rows rule state now).map fun type => (rule.id,type) := by
  refine persistTransition_mark _ _ _ _ _ fun recovers => ?_
  have next := ((evaluateRule_event on _ _ _ _).mp recovers).1
  cases state with
  | none => cases next
  | some state =>
    intro closed
    simp only [Option.getD_some] at closed
    simp [closed,nextEvent] at next

theorem evaluateRules_marks (rows : List MetricRow) (now : Int) (fresh : Nat → Incident)
    {rules : List RuleRow} (on : ∀ rule ∈ rules, rule.config.enabled = true)
    (ids : (rules.map (·.id)).Nodup) (states : Nat → Option AlertState) :
    (evaluateRules iso rows now fresh rules states).2.map mark =
      rules.filterMap fun rule =>
        (ruleDecision iso rows rule (states rule.id) now).map fun type => (rule.id,type) := by
  induction rules generalizing states with
  | nil => rfl
  | cons rule rest ih =>
    obtain ⟨new,ids⟩ := nodup_cons.mp ids
    have own := @evaluatePersistedRule_mark iso rule (on rule mem_cons_self) rows
      (states rule.id) now (fresh rule.id)
    have others := ih (fun r hr => on r (mem_cons_of_mem rule hr)) ids
      (Function.update states rule.id (some (evaluatePersistedRule iso rows rule (states rule.id)
        now (fresh rule.id)).1))
    have untouched : ∀ r ∈ rest, Function.update states rule.id
        (some (evaluatePersistedRule iso rows rule (states rule.id) now (fresh rule.id)).1) r.id =
          states r.id := by
      intro r hr
      refine Function.update_of_ne (fun same => new ?_) _ _
      exact mem_map.mpr ⟨r,hr,same⟩
    have rest' := filterMap_congr (fun r hr => by rw [untouched r hr] :
      ∀ r ∈ rest, (ruleDecision iso rows r (Function.update states rule.id
        (some (evaluatePersistedRule iso rows rule (states rule.id) now (fresh rule.id)).1) r.id)
          now).map (fun type => (r.id,type)) =
        (ruleDecision iso rows r (states r.id) now).map fun type => (r.id,type))
    simp only [evaluateRules,map_append,others,rest']
    rw [←Option.toList_map,own]
    cases hd : ruleDecision iso rows rule (states rule.id) now with
    | none => simp [hd]
    | some type => simp [hd]

end

structure Agrees (iso : Int → String) (t : Tables) (now : Int) (fresh : Nat → Incident) : Prop where
  emitted : ∀ rule ∈ t.rules, ∀ type,
    (∃ e ∈ (evaluateDueRules iso t now fresh).2, e.ruleId = rule.id ∧ e.eventType = type) ↔
      rule.config.enabled = true ∧ type = nextEvent (t.openOf rule) ∧
        ∃ run, Shows rule.config now type (t.history iso rule) run
  known : ∀ e ∈ (evaluateDueRules iso t now fresh).2, ∃ rule ∈ t.rules, e.ruleId = rule.id
  once : ((evaluateDueRules iso t now fresh).2.map Event.ruleId).Nodup

section
variable {iso : Int → String} {t : Tables} {now : Int}

theorem Tables.rule_ids (t : Tables) : (t.rules.map (·.id)).Nodup := by
  refine pairwise_map.mpr (t.byId.imp fun lt => ?_)
  exact ne_of_lt lt

theorem Tables.due_sublist (t : Tables) : t.due.Sublist t.rules :=
  (take_sublist _ _).trans filter_sublist

theorem Tables.due_enabled {rule : RuleRow} (h : rule ∈ t.due) : rule.config.enabled = true :=
  (mem_filter.mp ((take_sublist _ _).subset h)).2

theorem marks (t : Tables) (now : Int) (fresh : Nat → Incident) :
    (evaluateDueRules iso t now fresh).2.map mark = t.due.filterMap fun rule =>
      (ruleDecision iso t.rows rule (t.states rule.id) now).map fun type => (rule.id,type) :=
  evaluateRules_marks t.rows now fresh (fun _ hr => t.due_enabled hr)
    (t.rule_ids.sublist (t.due_sublist.map _)) t.states

theorem emitted_iff {fresh : Nat → Incident} {rule : RuleRow} (hr : rule ∈ t.rules)
    {type : EventType} :
    (∃ e ∈ (evaluateDueRules iso t now fresh).2, e.ruleId = rule.id ∧ e.eventType = type) ↔
      rule ∈ t.due ∧ ruleDecision iso t.rows rule (t.states rule.id) now = some type := by
  have listed : (∃ e ∈ (evaluateDueRules iso t now fresh).2,
      e.ruleId = rule.id ∧ e.eventType = type) ↔
      (rule.id,type) ∈ (evaluateDueRules iso t now fresh).2.map mark := by
    simp only [mem_map,mark,Prod.mk.injEq]
  rw [listed,marks,mem_filterMap]
  constructor
  · rintro ⟨r,hd,emits⟩
    obtain ⟨type',decided,same⟩ := Option.map_eq_some_iff.mp emits
    obtain ⟨id,rfl⟩ := Prod.mk.inj same
    obtain rfl := inj_on_of_nodup_map t.rule_ids (t.due_sublist.subset hd) hr id
    exact ⟨hd,decided⟩
  · rintro ⟨hd,decided⟩
    exact ⟨rule,hd,by rw [decided]; rfl⟩

/-- One run agrees with the complete histories exactly when every enabled rule whose history
calls for an event is among the first hundred, and the newest samples that show it lie in the
rule's window and among its newest five thousand rows. -/
theorem windowed_agrees_iff {fresh : Nat → Incident}
    (distinct : ∀ rule ∈ t.rules, Distinct (finite iso rule.gauge (t.raw rule))) :
    Agrees iso t now fresh ↔ ∀ rule ∈ t.rules, rule.config.enabled = true →
        (∃ run, Shows rule.config now (nextEvent (t.openOf rule)) (t.history iso rule) run) →
          rule ∈ t.due ∧
          ∃ run, Shows rule.config now (nextEvent (t.openOf rule)) (t.history iso rule) run ∧
            ∀ s ∈ run, s ∈ (t.seen rule now).map (MetricRow.sample iso rule.gauge) := by
  constructor
  · intro h rule hr on called
    obtain ⟨hd,decided⟩ := (emitted_iff hr).mp ((h.emitted rule hr _).mpr ⟨on,rfl,called⟩)
    exact ⟨hd,((ruleDecision_iff on (distinct rule hr)).mp decided).2⟩
  · intro h
    refine ⟨fun rule hr type => ?_,fun e he => ?_,?_⟩
    · rw [emitted_iff hr]
      constructor
      · rintro ⟨hd,decided⟩
        have on := t.due_enabled hd
        obtain ⟨rfl,run,shown,-⟩ := (ruleDecision_iff on (distinct rule hr)).mp decided
        exact ⟨on,rfl,run,shown⟩
      · rintro ⟨on,rfl,called⟩
        obtain ⟨hd,seen⟩ := h rule hr on called
        exact ⟨hd,(ruleDecision_iff on (distinct rule hr)).mpr ⟨rfl,seen⟩⟩
    · have mem := mem_map_of_mem (f := mark) he
      rw [marks,mem_filterMap] at mem
      obtain ⟨rule,hd,emits⟩ := mem
      obtain ⟨type,-,same⟩ := Option.map_eq_some_iff.mp emits
      exact ⟨rule,t.due_sublist.subset hd,(congrArg Prod.fst same).symm⟩
    · have ids : (evaluateDueRules iso t now fresh).2.map Event.ruleId =
          ((evaluateDueRules iso t now fresh).2.map mark).map Prod.fst := by
        rw [map_map]
        rfl
      rw [ids,marks]
      have sub : ((t.due.filterMap fun rule => (ruleDecision iso t.rows rule (t.states rule.id)
          now).map fun type => (rule.id,type)).map Prod.fst).Sublist (t.due.map (·.id)) := by
        generalize t.due = due
        induction due with
        | nil => exact List.Sublist.refl _
        | cons rule rest ih =>
          cases hd : ruleDecision iso t.rows rule (t.states rule.id) now with
          | none => simpa [hd] using ih.cons rule.id
          | some type => simpa [hd] using ih.cons_cons rule.id
      exact (t.rule_ids.sublist (t.due_sublist.map _)).sublist sub

end

/-- CPU above ninety percent for five minutes, with the catalog's freshness and gap. -/
def sustainedHot : RuleRow where
  id := 1
  fields := ⟨"CPU hot",7,"cpu_pct",⟨true,.gt,90,300,80,300,180,180⟩,"warning",some 1⟩
  revision := 1
  source := none
  gauge := .cpuPct
  key := rfl

def hotRow (id : Nat) (seconds : Int) : MetricRow :=
  ⟨id,7,seconds*1000000,none,some "agent",fun _ => some (some 95)⟩

def hotTables (newest middle oldest : Int) (h : middle ≤ newest ∧ oldest ≤ middle) : Tables where
  rows := [hotRow 3 newest,hotRow 2 middle,hotRow 1 oldest]
  newestFirst := by
    simp only [pairwise_cons,mem_cons,not_mem_nil,or_false,forall_eq_or_imp,
      forall_eq,hotRow,false_imp_iff,implies_true,List.Pairwise.nil,and_true]
    omega
  rules := [sustainedHot]
  byId := pairwise_singleton _ _
  states := fun _ => none

def isoSeconds (time : Int) : String := toString time

/-- A breach of 340 seconds whose first sample is older than the window. -/
theorem late_sample_hides_breach :
    ¬Agrees isoSeconds (hotTables 850 680 510 (by decide)) 1000000000 fun _ => "a1" := by
  intro h
  have shown : Shows sustainedHot.config 1000000000 .firing
      ((hotTables 850 680 510 (by decide)).history isoSeconds sustainedHot)
      ((hotTables 850 680 510 (by decide)).history isoSeconds sustainedHot) :=
    ⟨suffix_refl _,⟨⟨850000000,some 95,"3:850000000"⟩,by decide,by decide⟩,
      by decide,by decide,⟨510000000,some 95,"1:510000000"⟩,
      ⟨850000000,some 95,"3:850000000"⟩,by decide,by decide,by decide⟩
  obtain ⟨e,he,-⟩ := (h.emitted sustainedHot (mem_singleton_self _) .firing).mpr ⟨rfl,rfl,_,shown⟩
  have none : (evaluateDueRules isoSeconds (hotTables 850 680 510 (by decide)) 1000000000
      fun _ => "a1").2.length = 0 := by decide
  rw [length_eq_zero_iff] at none
  rw [none] at he
  exact nomatch he

theorem windowed_agrees_prompt :
    Agrees isoSeconds (hotTables 990 840 690 (by decide)) 1000000000 fun _ => "a1" := by
  refine (windowed_agrees_iff fun rule hr => ?_).mpr fun rule hr _ _ => ?_
  · cases mem_singleton.mp hr
    exact .inl (by decide)
  · cases mem_singleton.mp hr
    refine ⟨mem_singleton_self _,
      (hotTables 990 840 690 (by decide)).history isoSeconds sustainedHot,?_,by decide⟩
    exact ⟨suffix_refl _,⟨⟨990000000,some 95,"3:990000000"⟩,by decide,
      by decide⟩,by decide,by decide,⟨690000000,some 95,"1:690000000"⟩,
      ⟨990000000,some 95,"3:990000000"⟩,by decide,by decide,by decide⟩

end CircuitBreaker.MetricWindows
