import CircuitBreaker.PyDict
import CircuitBreaker.StepRuns
import Mathlib.Algebra.BigOperators.Group.List.Basic
import Mathlib.Algebra.Order.Ring.Rat
import Mathlib.Data.List.Dedup
import Mathlib.Data.List.Sort

/-! The retention executor: warm raw rows become hourly averages, for the hardware table in
place and for the agent samples in a table of their own. -/

namespace CircuitBreaker
open List

namespace TelemetryRollup

open StepRuns

/-- The columns `_avg` is taken of. -/
inductive HardwareField where
  | cpuPct
  | memPct
  | diskPct
  | memUsedMb
  | tempC
  | powerW

/-- `_AGENT_SUMMARY_FIELDS` -/
inductive SummaryField where
  | cpuPct
  | memPct
  | rootDiskPct
  | netRxBps
  | netTxBps
  | maxTempC
  | load1
  | uptimeS

/-- A row of hardware_live_metrics. Times are microseconds since the epoch. -/
structure HardwareLiveMetric where
  id : Nat
  hardwareId : Nat
  collectedAt : Int
  value : HardwareField → Option ℚ
  status : String
  source : Option String

structure AgentHostSample where
  id : Nat
  agentId : Nat
  collectedAt : Int
  value : SummaryField → Option ℚ

structure AgentHostSampleHourly where
  agentId : Nat
  bucketAt : Int
  sampleCount : Nat
  summary : SummaryField → Option ℚ

def hourlyAgg : String := "hourly_agg"
def defaultHotDays : Int := 7
def defaultWarmDays : Int := 30
def bucketUs : Int := 3600*1000000
def dayUs : Int := 24*bucketUs

/-- The start of the hour, for `replace(minute=0, …)` as for `to_timestamp(floor(…))`. -/
def bucketOf (at' : Int) : Int := at'/bucketUs*bucketUs

/-- `_avg`, and SQL's `avg`: null values are not counted. -/
def avg (vals : List (Option ℚ)) : Option ℚ :=
  let clean := vals.filterMap id
  if clean = [] then none else some (clean.sum/clean.length)

def resolveDays (arg : Option Int) (settings : Option (Option Int)) (default' : Int) : Int :=
  match arg with
  | some days => days
  | none =>
    match settings with
    | some (some days) => if days = 0 then default' else days
    | _ => default'

structure Cutoffs where
  hot : Int
  warm : Int

def Cutoffs.inWindow (c : Cutoffs) (at' : Int) : Bool := c.warm ≤ at' && at' < c.hot

/-- `setdefault(bucket, []).append(row)`, and the rows of each group of a GROUP BY. -/
def grouped {κ S : Type} [DecidableEq κ] (key : S → κ) (rows : List S) : Dict κ (List S) :=
  Dict.gather (rows.map fun s => (key s,s))

def warmRaw (c : Cutoffs) (r : HardwareLiveMetric) : Bool :=
  c.inWindow r.collectedAt && r.source.any (· ≠ hourlyAgg)

def ofHardware (c : Cutoffs) (hw : Nat) (r : HardwareLiveMetric) : Bool :=
  r.hardwareId = hw && warmRaw c r

def byTime (a b : HardwareLiveMetric) : Prop := a.collectedAt ≤ b.collectedAt

instance : DecidableRel byTime := fun a b => inferInstanceAs (Decidable (a.collectedAt ≤ b.collectedAt))

/-- The averaged rows of one hardware, one for each bucket; the table's sequence gives the ids. -/
def averaged (hw : Nat) : List (Int × List HardwareLiveMetric) → Nat → List HardwareLiveMetric
  | [],_ => []
  | (bucket,rows)::rest,id =>
    ⟨id,hw,bucket,fun f => avg (rows.map (·.value f)),(rows.getLast?.map (·.status)).getD "",
      some hourlyAgg⟩::averaged hw rest (id+1)

structure LiveTable where
  rows : List HardwareLiveMetric
  nextId : Nat

def collapse (c : Cutoffs) (acc : LiveTable × Nat) (hw : Nat) : LiveTable × Nat :=
  let t := acc.1
  let raw := (t.rows.filter (ofHardware c hw)).insertionSort byTime
  if raw = [] then acc
  else
    let buckets := (grouped (fun r => bucketOf r.collectedAt) raw).items
    let kept := t.rows.filter fun r => r.id ∉ raw.map (·.id)
    (⟨kept++averaged hw buckets t.nextId,t.nextId+buckets.length⟩,acc.2+buckets.length)

/-- `SELECT DISTINCT hardware_id` -/
def hardwareIds (c : Cutoffs) (t : LiveTable) : List Nat :=
  ((t.rows.filter (warmRaw c)).map (·.hardwareId)).dedup

def downsampleLive (c : Cutoffs) (t : LiveTable) : LiveTable × Nat :=
  (hardwareIds c t).foldl (collapse c) (t,0)

def sampleKey (s : AgentHostSample) : Nat × Int := (s.agentId,bucketOf s.collectedAt)

def hourlyKey (r : AgentHostSampleHourly) : Nat × Int := (r.agentId,r.bucketAt)

def hourlyOf (g : (Nat × Int) × List AgentHostSample) : AgentHostSampleHourly :=
  ⟨g.1.1,g.1.2,g.2.length,fun f => avg (g.2.map (·.value f))⟩

def aggSelect (c : Cutoffs) (samples : List AgentHostSample) : List AgentHostSampleHourly :=
  (grouped sampleKey (samples.filter (c.inWindow ·.collectedAt))).items.map hourlyOf

/-- `on_conflict_do_update`: the present row takes the excluded row's count and summary. -/
def upsert (table : List AgentHostSampleHourly) (row : AgentHostSampleHourly) :
    List AgentHostSampleHourly :=
  if hourlyKey row ∈ table.map hourlyKey then
    table.map fun r =>
      if hourlyKey r = hourlyKey row then
        { r with sampleCount := row.sampleCount, summary := row.summary }
      else r
  else table++[row]

structure Report where
  downsampled : Nat
  deleted : Nat
  hardwareDownsampled : Nat
  hardwareDeleted : Nat
  agentDownsampled : Nat
  agentDeleted : Nat
  agentHourlyDeleted : Nat

/-- The three tables. The last four fields are kept for the statements and read by nothing: the
time and the cutoffs of the runs so far, and the raw rows these removed from their warm windows. -/
structure Tables where
  live : LiveTable
  samples : List AgentHostSample
  nextSample : Nat
  hourly : List AgentHostSampleHourly
  now : Int
  past : List Cutoffs
  liveRemoved : List HardwareLiveMetric
  samplesRemoved : List AgentHostSample

def isRaw (r : HardwareLiveMetric) : Bool := r.source ≠ some hourlyAgg

def cutoffs (now hotDays warmDays : Int) : Cutoffs := ⟨now-hotDays*dayUs,now-warmDays*dayUs⟩

def liveAfter (c : Cutoffs) (t : LiveTable) : LiveTable :=
  let t' := (downsampleLive c t).1
  ⟨t'.rows.filter fun r => ¬r.collectedAt < c.warm,t'.nextId⟩

def samplesAfter (c : Cutoffs) (samples : List AgentHostSample) : List AgentHostSample :=
  samples.filter fun s => ¬s.collectedAt < c.hot

def upserted (c : Cutoffs) (t : Tables) : List AgentHostSampleHourly :=
  (aggSelect c t.samples).foldl upsert t.hourly

def hourlyAfter (c : Cutoffs) (t : Tables) : List AgentHostSampleHourly :=
  (upserted c t).filter fun r => ¬r.bucketAt < c.warm

def runRetentionExecutor (now hotDays warmDays : Int) (t : Tables) : Tables × Report :=
  let c := cutoffs now hotDays warmDays
  let live := downsampleLive c t.live
  let deleted := (live.1.rows.filter fun r => r.collectedAt < c.warm).length
  let agentDownsampled := (aggSelect c t.samples).length
  let agentDeleted := (t.samples.filter fun s => s.collectedAt < c.hot).length
  let hourlyDeleted := ((upserted c t).filter fun r => r.bucketAt < c.warm).length
  ({ t with
      live := liveAfter c t.live
      samples := samplesAfter c t.samples
      hourly := hourlyAfter c t
      now := now
      past := t.past++[c]
      liveRemoved := t.liveRemoved++t.live.rows.filter fun r =>
        isRaw r && c.inWindow r.collectedAt && decide (r.id ∉ (liveAfter c t.live).rows.map (·.id))
      samplesRemoved := t.samplesRemoved++t.samples.filter fun s =>
        c.inWindow s.collectedAt && decide (s.id ∉ (samplesAfter c t.samples).map (·.id)) },
    ⟨live.2+agentDownsampled,deleted+agentDeleted+hourlyDeleted,live.2,deleted,agentDownsampled,
      agentDeleted,hourlyDeleted⟩)

def Tables.empty (now : Int) : Tables := ⟨⟨[],0⟩,[],0,[],now,[],[],[]⟩

inductive Event where
  | live (hardwareId : Nat) (collectedAt : Int) (value : HardwareField → Option ℚ)
      (status : String) (source : Option String)
  | sample (agentId : Nat) (collectedAt : Int) (value : SummaryField → Option ℚ)
  | retention (now : Int) (hotArg warmArg : Option Int)
      (hotSetting warmSetting : Option (Option Int))

def hotDays (arg : Option Int) (settings : Option (Option Int)) : Int :=
  resolveDays arg settings defaultHotDays

def warmDays (arg : Option Int) (settings : Option (Option Int)) : Int :=
  resolveDays arg settings defaultWarmDays

/-- A raw row of any time may come in; a run's hot window is no longer than its warm one. -/
inductive Step : Tables → Event → Tables → Prop where
  | live {t : Tables} {hw : Nat} {at' : Int} {value : HardwareField → Option ℚ} {status : String}
      {source : Option String} (raw : source ≠ some hourlyAgg) :
      Step t (.live hw at' value status source)
        { t with
          live := ⟨t.live.rows++[⟨t.live.nextId,hw,at',value,status,source⟩],t.live.nextId+1⟩ }
  | sample {t : Tables} {agent : Nat} {at' : Int} {value : SummaryField → Option ℚ} :
      Step t (.sample agent at' value)
        { t with
          samples := t.samples++[⟨t.nextSample,agent,at',value⟩]
          nextSample := t.nextSample+1 }
  | retention {t : Tables} {now : Int} {hot warm : Option Int} {hotSet warmSet : Option (Option Int)}
      (later : t.now < now) (window : hotDays hot hotSet ≤ warmDays warm warmSet) :
      Step t (.retention now hot warm hotSet warmSet)
        (runRetentionExecutor now (hotDays hot hotSet) (warmDays warm warmSet) t).1

def liveKey (r : HardwareLiveMetric) : Nat × Int := (r.hardwareId,bucketOf r.collectedAt)

def Tables.hourlyLive (t : Tables) : List HardwareLiveMetric :=
  t.live.rows.filter fun r => r.source = some hourlyAgg

def Tables.cold (t : Tables) (bucket : Int) : Prop := ∃ c ∈ t.past, bucket < c.warm

/-- Each hour has at most one row, which averages all that was removed of the hour, and what was
removed has a row until its hour is cold. -/
structure HourlyLaw {S R : Type} (key : S → Nat × Int) (rowKey : R → Nat × Int)
    (Agrees : R → List S → Prop) (removed : List S) (rows : List R) (cold : Int → Prop) :
    Prop where
  sole : (rows.map rowKey).Nodup
  agrees : ∀ r ∈ rows, Agrees r (removed.filter (key · = rowKey r))
  counted : ∀ s ∈ removed, (∃ r ∈ rows, rowKey r = key s) ∨ cold (key s).2

def LiveAverages (r : HardwareLiveMetric) (removed : List HardwareLiveMetric) : Prop :=
  ∀ f, r.value f = avg (removed.map (·.value f))

def HourlyAverages (r : AgentHostSampleHourly) (removed : List AgentHostSample) : Prop :=
  r.sampleCount = removed.length ∧ ∀ f, r.summary f = avg (removed.map (·.value f))

structure Faithful (t : Tables) : Prop where
  live : HourlyLaw liveKey liveKey LiveAverages t.liveRemoved t.hourlyLive t.cold
  agent : HourlyLaw sampleKey hourlyKey HourlyAverages t.samplesRemoved t.hourly t.cold

/-- No run aggregates an hour that outlives it when an earlier run removed samples of the hour. -/
def OneRun (t : Tables) (c : Cutoffs) : Prop :=
  (∀ r ∈ t.live.rows, warmRaw c r → c.warm ≤ bucketOf r.collectedAt →
    ∀ s ∈ t.liveRemoved, liveKey s ≠ liveKey r) ∧
  ∀ r ∈ t.samples, c.inWindow r.collectedAt → c.warm ≤ bucketOf r.collectedAt →
    ∀ s ∈ t.samplesRemoved, sampleKey s ≠ sampleKey r

def Meets (t : Tables) : Event → Prop
  | .retention now hot warm hotSet warmSet =>
    OneRun t (cutoffs now (hotDays hot hotSet) (warmDays warm warmSet))
  | _ => True

theorem bucketOf_bucketOf (at' : Int) : bucketOf (bucketOf at') = bucketOf at' := by
  simp only [bucketOf,bucketUs]
  omega

theorem mem_grouped {κ S : Type} [DecidableEq κ] (key : S → κ) {rows : List S} {k : κ} {g : List S} :
    (k,g) ∈ (grouped key rows).items ↔ g = rows.filter (key · = k) ∧ g ≠ [] := by
  have values : ((rows.map fun s => (key s,s)).filter (·.1 = k)).map Prod.snd =
      rows.filter (key · = k) := by
    rw [filter_map,map_map]
    exact map_id _
  rw [grouped,Dict.mem_gather,values]

theorem avg_perm {l l' : List (Option ℚ)} (h : l.Perm l') : avg l = avg l' := by
  have clean : (l.filterMap id).Perm (l'.filterMap id) := h.filterMap id
  have empty : l.filterMap id = [] ↔ l'.filterMap id = [] := by
    rw [←length_eq_zero_iff,←length_eq_zero_iff,clean.length_eq]
  simp only [avg]
  rw [if_congr empty rfl rfl,clean.sum_eq,clean.length_eq]

/-! One rollup, for any table: rows whose hours are fed for the first time are added and the
hours below the warm cutoff are dropped. -/

section
variable {S R : Type} {key : S → Nat × Int} {rowKey : R → Nat × Int} {Agrees : R → List S → Prop}
  {removed gone : List S} {rows new : List R} {cold : Int → Prop} {warm : Int}

structure Rollup (key : S → Nat × Int) (rowKey : R → Nat × Int) (Agrees : R → List S → Prop)
    (gone : List S) (new : List R) : Prop where
  sole : (new.map rowKey).Nodup
  agrees : ∀ r ∈ new, Agrees r (gone.filter (key · = rowKey r))
  fed : ∀ r ∈ new, ∃ s ∈ gone, key s = rowKey r
  counted : ∀ s ∈ gone, ∃ r ∈ new, rowKey r = key s

def Fed (key : S → Nat × Int) (rowKey : R → Nat × Int) (removed : List S) (rows : List R) : Prop :=
  ∀ r ∈ rows, ∃ s ∈ removed, key s = rowKey r

theorem HourlyLaw.rollup (law : HourlyLaw key rowKey Agrees removed rows cold)
    (fed : Fed key rowKey removed rows) (roll : Rollup key rowKey Agrees gone new)
    (once : ∀ s ∈ gone, warm ≤ (key s).2 → ∀ s' ∈ removed, key s' ≠ key s) :
    HourlyLaw key rowKey Agrees (removed++gone)
      ((rows++new).filter fun r => warm ≤ (rowKey r).2) fun b => cold b ∨ b < warm where
  sole := by
    rw [filter_append,map_append,nodup_append]
    refine ⟨law.sole.sublist (filter_sublist.map _),
      roll.sole.sublist (filter_sublist.map _),fun a ha b hb hab => ?_⟩
    obtain ⟨r,hr,rfl⟩ := mem_map.1 ha
    obtain ⟨n,hn,rfl⟩ := mem_map.1 hb
    obtain ⟨hn,warmed⟩ := mem_filter.1 hn
    obtain ⟨s',hs',same'⟩ := fed r (mem_filter.1 hr).1
    obtain ⟨s,hs,same⟩ := roll.fed n hn
    have warmed : warm ≤ (key s).2 := by simpa [same] using warmed
    exact once s hs warmed s' hs' (same'.trans (hab.trans same.symm))
  agrees := by
    intro r hr
    obtain ⟨hr,warmed⟩ := mem_filter.1 hr
    have warmed : warm ≤ (rowKey r).2 := of_decide_eq_true warmed
    rw [filter_append]
    rcases mem_append.1 hr with hr | hr
    · -- an old row's hour is fed by no sample of this run
      obtain ⟨s',hs',same'⟩ := fed r hr
      have none_gone : gone.filter (key · = rowKey r) = [] := by
        rw [filter_eq_nil_iff]
        intro s hs he
        have he : key s = rowKey r := of_decide_eq_true he
        exact once s hs (he ▸ warmed) s' hs' (same'.trans he.symm)
      rw [none_gone,append_nil]
      exact law.agrees r hr
    · -- a new row's hour was fed by no earlier run
      obtain ⟨s,hs,same⟩ := roll.fed r hr
      have none_removed : removed.filter (key · = rowKey r) = [] := by
        rw [filter_eq_nil_iff]
        intro s' hs' he
        exact once s hs (same ▸ warmed) s' hs' ((of_decide_eq_true he).trans same.symm)
      rw [none_removed,nil_append]
      exact roll.agrees r hr
  counted := by
    intro s hs
    have kept : (∃ r ∈ rows++new, rowKey r = key s) ∨ cold (key s).2 := by
      rcases mem_append.1 hs with hs | hs
      · rcases law.counted s hs with ⟨r,hr,he⟩ | hc
        · exact .inl ⟨r,mem_append_left _ hr,he⟩
        · exact .inr hc
      · obtain ⟨r,hr,he⟩ := roll.counted s hs
        exact .inl ⟨r,mem_append_right _ hr,he⟩
    rcases kept with ⟨r,hr,he⟩ | hc
    · by_cases hw : warm ≤ (key s).2
      · exact .inl ⟨r,mem_filter.2 ⟨hr,by simpa [he] using hw⟩,he⟩
      · exact .inr (.inr (Int.not_le.1 hw))
    · exact .inr (.inl hc)

theorem Rollup.union {l : List S} {p q : S → Bool} {new' : List R}
    (first : Rollup key rowKey Agrees (l.filter p) new)
    (second : Rollup key rowKey Agrees (l.filter q) new')
    (apart : ∀ s s', p s → q s' → key s ≠ key s') :
    Rollup key rowKey Agrees (l.filter fun s => p s || q s) (new++new') where
  sole := by
    rw [map_append,nodup_append]
    refine ⟨first.sole,second.sole,fun a ha b hb hab => ?_⟩
    obtain ⟨r,hr,rfl⟩ := mem_map.1 ha
    obtain ⟨r',hr',rfl⟩ := mem_map.1 hb
    obtain ⟨s,hs,same⟩ := first.fed r hr
    obtain ⟨s',hs',same'⟩ := second.fed r' hr'
    exact apart s s' (mem_filter.1 hs).2 (mem_filter.1 hs').2 (same.trans (hab.trans same'.symm))
  agrees := by
    intro r hr
    rcases mem_append.1 hr with hr | hr
    · obtain ⟨s,hs,same⟩ := first.fed r hr
      have mine : (l.filter fun s => p s || q s).filter (key · = rowKey r) =
          (l.filter p).filter (key · = rowKey r) := by
        rw [filter_filter,filter_filter]
        refine filter_congr fun s' _ => ?_
        by_cases he : key s' = rowKey r
        · have out : q s' = false := by
            cases hq : q s' with
            | false => rfl
            | true => exact absurd (same.trans he.symm) (apart s s' (mem_filter.1 hs).2 hq)
          rw [out,Bool.or_false]
        · simp [he]
      rw [mine]
      exact first.agrees r hr
    · obtain ⟨s,hs,same⟩ := second.fed r hr
      have mine : (l.filter fun s => p s || q s).filter (key · = rowKey r) =
          (l.filter q).filter (key · = rowKey r) := by
        rw [filter_filter,filter_filter]
        refine filter_congr fun s' _ => ?_
        by_cases he : key s' = rowKey r
        · have out : p s' = false := by
            cases hp : p s' with
            | false => rfl
            | true => exact absurd (he.trans same.symm) (apart s' s hp (mem_filter.1 hs).2)
          rw [out,Bool.false_or]
        · simp [he]
      rw [mine]
      exact second.agrees r hr
  fed := by
    intro r hr
    rcases mem_append.1 hr with hr | hr
    · obtain ⟨s,hs,same⟩ := first.fed r hr
      obtain ⟨hs,hp⟩ := mem_filter.1 hs
      exact ⟨s,mem_filter.2 ⟨hs,by simp [hp]⟩,same⟩
    · obtain ⟨s,hs,same⟩ := second.fed r hr
      obtain ⟨hs,hq⟩ := mem_filter.1 hs
      exact ⟨s,mem_filter.2 ⟨hs,by simp [hq]⟩,same⟩
  counted := by
    intro s hs
    obtain ⟨hs,hpq⟩ := mem_filter.1 hs
    rcases Bool.or_eq_true_iff.1 hpq with hp | hq
    · obtain ⟨r,hr,same⟩ := first.counted s (mem_filter.2 ⟨hs,hp⟩)
      exact ⟨r,mem_append_left _ hr,same⟩
    · obtain ⟨r,hr,same⟩ := second.counted s (mem_filter.2 ⟨hs,hq⟩)
      exact ⟨r,mem_append_right _ hr,same⟩

theorem HourlyLaw.mono {cold' : Int → Prop} (law : HourlyLaw key rowKey Agrees removed rows cold)
    (h : ∀ b, cold b → cold' b) : HourlyLaw key rowKey Agrees removed rows cold' :=
  ⟨law.sole,law.agrees,fun s hs => (law.counted s hs).imp_right (h _)⟩

theorem Fed.rollup (fed : Fed key rowKey removed rows) (roll : Rollup key rowKey Agrees gone new) :
    Fed key rowKey (removed++gone) ((rows++new).filter fun r => warm ≤ (rowKey r).2) := by
  intro r hr
  rcases mem_append.1 (mem_filter.1 hr).1 with hr | hr
  · obtain ⟨s,hs,he⟩ := fed r hr
    exact ⟨s,mem_append_left _ hs,he⟩
  · obtain ⟨s,hs,he⟩ := roll.fed r hr
    exact ⟨s,mem_append_right _ hs,he⟩

end

/-! The agent samples. -/

theorem aggSelect_rollup (c : Cutoffs) (samples : List AgentHostSample) :
    Rollup sampleKey hourlyKey HourlyAverages (samples.filter (c.inWindow ·.collectedAt))
      (aggSelect c samples) where
  sole := by
    have keys : (aggSelect c samples).map hourlyKey =
        (grouped sampleKey (samples.filter (c.inWindow ·.collectedAt))).items.map Prod.fst := by
      simp only [aggSelect,map_map]
      rfl
    rw [keys]
    exact Dict.nodup _
  agrees := by
    intro r hr
    obtain ⟨⟨k,g⟩,hg,rfl⟩ := mem_map.1 hr
    obtain ⟨rfl,-⟩ := (mem_grouped sampleKey).1 hg
    exact ⟨rfl,fun f => rfl⟩
  fed := by
    intro r hr
    obtain ⟨⟨k,g⟩,hg,rfl⟩ := mem_map.1 hr
    obtain ⟨rfl,some_row⟩ := (mem_grouped sampleKey).1 hg
    obtain ⟨s,hs⟩ := exists_mem_of_ne_nil _ some_row
    exact ⟨s,(mem_filter.1 hs).1,of_decide_eq_true (mem_filter.1 hs).2⟩
  counted := by
    intro s hs
    have mine : s ∈ (samples.filter (c.inWindow ·.collectedAt)).filter (sampleKey · = sampleKey s) :=
      mem_filter.2 ⟨hs,decide_eq_true rfl⟩
    exact ⟨_,mem_map.2 ⟨(sampleKey s,_),
      (mem_grouped sampleKey).2 ⟨rfl,ne_nil_of_mem mine⟩,rfl⟩,rfl⟩

theorem filter_upsert {table : List AgentHostSampleHourly} {row : AgentHostSampleHourly}
    {p : Nat × Int → Bool} (fresh : p (hourlyKey row) → hourlyKey row ∉ table.map hourlyKey) :
    (upsert table row).filter (p ∘ hourlyKey) = (table++[row]).filter (p ∘ hourlyKey) := by
  by_cases hk : hourlyKey row ∈ table.map hourlyKey
  · have out : p (hourlyKey row) = false := by
      cases hp : p (hourlyKey row) with
      | false => rfl
      | true => exact absurd hk (fresh hp)
    have skipped : [row].filter (p ∘ hourlyKey) = [] := by simp [out]
    rw [upsert,if_pos hk,filter_append,skipped,append_nil]
    clear hk fresh
    induction table with
    | nil => rfl
    | cons r rest ih =>
      by_cases he : hourlyKey r = hourlyKey row
      · have updated : hourlyKey { r with sampleCount := row.sampleCount, summary := row.summary } =
            hourlyKey row := he
        simp [he,updated,out,ih]
      · simp [he,filter_cons,ih]
  · rw [upsert,if_neg hk]

theorem filter_upserts {new table : List AgentHostSampleHourly} {p : Nat × Int → Bool}
    (sole : (new.map hourlyKey).Nodup)
    (fresh : ∀ row ∈ new, p (hourlyKey row) → hourlyKey row ∉ table.map hourlyKey) :
    (new.foldl upsert table).filter (p ∘ hourlyKey) = (table++new).filter (p ∘ hourlyKey) := by
  induction new generalizing table with
  | nil => rw [append_nil]; rfl
  | cons row rest ih =>
    obtain ⟨alone,rest_sole⟩ := nodup_cons.1 sole
    have first : (upsert table row).filter (p ∘ hourlyKey) = (table++[row]).filter (p ∘ hourlyKey) :=
      filter_upsert (fresh row mem_cons_self)
    have still : ∀ r ∈ rest, p (hourlyKey r) → hourlyKey r ∉ (upsert table row).map hourlyKey := by
      intro r hr hp hin
      obtain ⟨q,hq,he⟩ := mem_map.1 hin
      have hq : q ∈ (upsert table row).filter (p ∘ hourlyKey) :=
        mem_filter.2 ⟨hq,by simpa [he] using hp⟩
      rw [first] at hq
      rcases mem_append.1 (mem_filter.1 hq).1 with hq | hq
      · exact fresh r (mem_cons_of_mem _ hr) hp (mem_map.2 ⟨q,hq,he⟩)
      · rw [mem_singleton.1 hq] at he
        exact alone (mem_map.2 ⟨r,hr,he.symm⟩)
    have later := ih rest_sole still
    rw [filter_append,first] at later
    rw [foldl_cons,later,←filter_append,append_assoc]
    rfl

/-! The hardware rows. -/

def bucketKey (r : HardwareLiveMetric) : Int := bucketOf r.collectedAt

variable {r : HardwareLiveMetric}

variable {hw : Nat} {t' : LiveTable} {ids : List Nat}

theorem mem_averaged {groups : List (Int × List HardwareLiveMetric)} {id : Nat} (h : r ∈ averaged hw groups id) :
    (∃ g ∈ groups, r.collectedAt = g.1 ∧ ∀ f, r.value f = avg (g.2.map (·.value f))) ∧
      r.hardwareId = hw ∧ r.source = some hourlyAgg := by
  induction groups generalizing id with
  | nil => cases h
  | cons g rest ih =>
    rcases mem_cons.1 h with rfl | h
    · exact ⟨⟨g,mem_cons_self,rfl,fun _ => rfl⟩,rfl,rfl⟩
    · obtain ⟨⟨g',hg',hr⟩,hk⟩ := ih h
      exact ⟨⟨g',mem_cons_of_mem _ hg',hr⟩,hk⟩

theorem averaged_ids (hw : Nat) (groups : List (Int × List HardwareLiveMetric)) (id : Nat) :
    (averaged hw groups id).map (·.id) = List.range' id groups.length := by
  induction groups generalizing id with
  | nil => rfl
  | cons g rest ih => rw [averaged,map_cons,ih,length_cons,range'_succ]

theorem averaged_keys (hw : Nat) (groups : List (Int × List HardwareLiveMetric)) (id : Nat) :
    (averaged hw groups id).map (fun r => (r.hardwareId,r.collectedAt)) =
      groups.map fun g => (hw,g.1) := by
  induction groups generalizing id with
  | nil => rfl
  | cons g rest ih => rw [averaged,map_cons,ih,map_cons]

def collapsed (hw : Nat) (raw : List HardwareLiveMetric) (id : Nat) : List HardwareLiveMetric :=
  averaged hw (grouped bucketKey (raw.insertionSort byTime)).items id

theorem collapsed_aligned {raw : List HardwareLiveMetric} {id : Nat} (h : r ∈ collapsed hw raw id) :
    bucketOf r.collectedAt = r.collectedAt := by
  obtain ⟨⟨⟨b,g⟩,hg,hb,-⟩,-⟩ := mem_averaged h
  obtain ⟨rfl,some_row⟩ := (mem_grouped bucketKey).1 hg
  obtain ⟨s,hs⟩ := exists_mem_of_ne_nil _ some_row
  have he : bucketKey s = b := of_decide_eq_true (mem_filter.1 hs).2
  rw [hb]
  dsimp only
  rw [←he,bucketKey,bucketOf_bucketOf]

theorem collapsed_rollup {raw : List HardwareLiveMetric} (id : Nat)
    (mine : ∀ s ∈ raw, s.hardwareId = hw) :
    Rollup liveKey liveKey LiveAverages raw (collapsed hw raw id) := by
  have sorted : (raw.insertionSort byTime).Perm raw := perm_insertionSort _ _
  have keyed : ∀ r ∈ collapsed hw raw id, liveKey r = (r.hardwareId,r.collectedAt) := fun r hr => by
    rw [liveKey,collapsed_aligned hr]
  have group : ∀ r ∈ collapsed hw raw id, ∃ g, g = (raw.insertionSort byTime).filter
      (bucketKey · = r.collectedAt) ∧ g ≠ [] ∧ ∀ f, r.value f = avg (g.map (·.value f)) := by
    intro r hr
    obtain ⟨⟨⟨b,g⟩,hg,hb,averages⟩,-⟩ := mem_averaged hr
    obtain ⟨hg,some_row⟩ := (mem_grouped bucketKey).1 hg
    exact ⟨g,by rw [hb]; exact hg,some_row,averages⟩
  constructor
  case sole =>
    rw [map_congr_left keyed,collapsed,averaged_keys]
    have buckets := (grouped bucketKey (raw.insertionSort byTime)).nodup
    have paired := buckets.map (f := fun b => (hw,b)) fun _ _ h => (Prod.mk.inj h).2
    rwa [map_map] at paired
  case agrees =>
    intro r hr f
    obtain ⟨g,rfl,-,averages⟩ := group r hr
    have ofRow : r.hardwareId = hw := (mem_averaged hr).2.1
    have same : raw.filter (liveKey · = liveKey r) = raw.filter (bucketKey · = r.collectedAt) := by
      refine filter_congr fun s hs => ?_
      rw [keyed r hr,ofRow,liveKey,mine s hs]
      exact decide_eq_decide.2 (by simp [bucketKey])
    rw [same,averages f]
    exact avg_perm ((sorted.filter _).map _)
  case fed =>
    intro r hr
    obtain ⟨g,rfl,some_row,-⟩ := group r hr
    obtain ⟨s,hs⟩ := exists_mem_of_ne_nil _ some_row
    obtain ⟨hs,he⟩ := mem_filter.1 hs
    have hs : s ∈ raw := sorted.mem_iff.1 hs
    refine ⟨s,hs,?_⟩
    rw [keyed r hr,liveKey,mine s hs,(mem_averaged hr).2.1]
    exact congrArg _ (of_decide_eq_true he)
  case counted =>
    intro s hs
    have there : s ∈ (raw.insertionSort byTime).filter (bucketKey · = bucketKey s) :=
      mem_filter.2 ⟨sorted.mem_iff.2 hs,decide_eq_true rfl⟩
    have item := (mem_grouped bucketKey).2 ⟨rfl,ne_nil_of_mem there⟩
    have key : (hw,bucketKey s) ∈ (collapsed hw raw id).map fun r => (r.hardwareId,r.collectedAt) := by
      rw [collapsed,averaged_keys]
      exact mem_map.2 ⟨_,item,rfl⟩
    obtain ⟨r,hr,he⟩ := mem_map.1 key
    refine ⟨r,hr,?_⟩
    rw [keyed r hr,he,liveKey,mine s hs]
    rfl

structure Numbered (t : LiveTable) : Prop where
  nodup : (t.rows.map (·.id)).Nodup
  below : ∀ r ∈ t.rows, r.id < t.nextId

variable {t : LiveTable}

theorem Numbered.same (h : Numbered t) {s : HardwareLiveMetric} (hr : r ∈ t.rows)
    (hs : s ∈ t.rows) (he : r.id = s.id) : r = s :=
  inj_on_of_nodup_map h.nodup hr hs he

theorem kept_rows (h : Numbered t) {p : HardwareLiveMetric → Bool}
    {taken : List HardwareLiveMetric} (mem : ∀ r, r ∈ taken ↔ r ∈ t.rows.filter p) :
    t.rows.filter (fun r => decide (r.id ∉ taken.map (·.id))) = t.rows.filter fun r => !p r := by
  refine filter_congr fun r hr => ?_
  cases hp : p r with
  | true =>
    have there : r.id ∈ taken.map (·.id) :=
      mem_map.2 ⟨r,(mem r).2 (mem_filter.2 ⟨hr,hp⟩),rfl⟩
    exact decide_eq_false fun absent => absent there
  | false =>
    refine decide_eq_true fun there => ?_
    obtain ⟨s,hs,he⟩ := mem_map.1 there
    obtain ⟨hs,hps⟩ := mem_filter.1 ((mem s).1 hs)
    rw [h.same hs hr he,hp] at hps
    cases hps

variable {c : Cutoffs}

theorem collapse_rows (h : Numbered t) (n hw : Nat) :
    (collapse c (t,n) hw).1.rows = t.rows.filter (fun r => !ofHardware c hw r)++
      collapsed hw (t.rows.filter (ofHardware c hw)) t.nextId := by
  have same : ∀ r, r ∈ (t.rows.filter (ofHardware c hw)).insertionSort byTime ↔
      r ∈ t.rows.filter (ofHardware c hw) := fun r => mem_insertionSort _
  have kept := kept_rows h same
  rw [←kept,collapse]
  by_cases hn : (t.rows.filter (ofHardware c hw)).insertionSort byTime = []
  · simp [hn,collapsed,grouped,Dict.gather,Dict.empty,averaged]
  · rw [if_neg hn]
    rfl

theorem collapse_numbered (h : Numbered t) (n hw : Nat) :
    Numbered (collapse c (t,n) hw).1 ∧ t.nextId ≤ (collapse c (t,n) hw).1.nextId ∧
      ∀ r ∈ collapsed hw (t.rows.filter (ofHardware c hw)) t.nextId, t.nextId ≤ r.id := by
  have ids := averaged_ids hw (grouped bucketKey
    ((t.rows.filter (ofHardware c hw)).insertionSort byTime)).items t.nextId
  have between : ∀ r ∈ collapsed hw (t.rows.filter (ofHardware c hw)) t.nextId, t.nextId ≤ r.id ∧
      r.id < t.nextId+(grouped bucketKey
        ((t.rows.filter (ofHardware c hw)).insertionSort byTime)).items.length := by
    intro r hr
    have there : r.id ∈ (collapsed hw (t.rows.filter (ofHardware c hw)) t.nextId).map (·.id) :=
      mem_map.2 ⟨r,hr,rfl⟩
    rw [collapsed,ids,mem_range'_1] at there
    exact there
  have next : (collapse c (t,n) hw).1.nextId = t.nextId+(grouped bucketKey
      ((t.rows.filter (ofHardware c hw)).insertionSort byTime)).items.length := by
    rw [collapse]
    by_cases hn : (t.rows.filter (ofHardware c hw)).insertionSort byTime = []
    · simp [hn,grouped,Dict.gather,Dict.empty]
    · rw [if_neg hn]
      rfl
  refine ⟨⟨?_,?_⟩,by omega,fun r hr => (between r hr).1⟩
  · rw [collapse_rows h,map_append,nodup_append]
    refine ⟨h.nodup.sublist (filter_sublist.map _),?_,fun a ha b hb hab => ?_⟩
    · rw [collapsed,ids]
      exact nodup_range' ..
    · obtain ⟨r,hr,rfl⟩ := mem_map.1 ha
      obtain ⟨s,hs,rfl⟩ := mem_map.1 hb
      have below := h.below r (mem_filter.1 hr).1
      have above := (between s hs).1
      omega
  · intro r hr
    rw [collapse_rows h] at hr
    rcases mem_append.1 hr with hr | hr
    · have below := h.below r (mem_filter.1 hr).1
      omega
    · have above := (between r hr).2
      omega

def taken (c : Cutoffs) (ids : List Nat) (r : HardwareLiveMetric) : Bool :=
  decide (r.hardwareId ∈ ids) && warmRaw c r

structure Collapsed (c : Cutoffs) (t : LiveTable) (ids : List Nat) (t' : LiveTable)
    (new : List HardwareLiveMetric) : Prop where
  rows : t'.rows = t.rows.filter (fun r => !taken c ids r)++new
  numbered : Numbered t'
  next : t.nextId ≤ t'.nextId
  later : ∀ r ∈ new, t.nextId ≤ r.id
  hourly : ∀ r ∈ new, r.source = some hourlyAgg ∧ bucketOf r.collectedAt = r.collectedAt
  roll : Rollup liveKey liveKey LiveAverages (t.rows.filter (taken c ids)) new

theorem warmRaw_hourly (h : r.source = some hourlyAgg) :
    warmRaw c r = false := by
  simp [warmRaw,h]

variable {new : List HardwareLiveMetric}

theorem Collapsed.snoc (h : Collapsed c t ids t' new) (fresh : hw ∉ ids)
    (n : Nat) : ∃ new', Collapsed c t (ids++[hw]) (collapse c (t',n) hw).1 (new++new') := by
  have untouched : ∀ r, ofHardware c hw r → taken c ids r = false := by
    intro r hr
    have mine : r.hardwareId = hw := by
      simp only [ofHardware,Bool.and_eq_true,decide_eq_true_eq] at hr
      exact hr.1
    simp [taken,mine,fresh]
  have hourly : ∀ r ∈ new, ofHardware c hw r = false := fun r hr => by
    rw [ofHardware,warmRaw_hourly (h.hourly r hr).1,Bool.and_false]
  have raw : t'.rows.filter (ofHardware c hw) = t.rows.filter (ofHardware c hw) := by
    have none_new : new.filter (ofHardware c hw) = [] :=
      filter_eq_nil_iff.2 fun r hr => by simp [hourly r hr]
    rw [h.rows,filter_append,none_new,append_nil,filter_filter]
    refine filter_congr fun r _ => ?_
    cases hr : ofHardware c hw r with
    | false => rfl
    | true => rw [untouched r hr]; rfl
  have both : ∀ r, taken c (ids++[hw]) r = (taken c ids r || ofHardware c hw r) := by
    intro r
    simp only [taken,ofHardware,mem_append,mem_singleton,Bool.decide_or]
    exact Bool.and_or_distrib_right ..
  obtain ⟨numbered,next,above⟩ := collapse_numbered (c := c) h.numbered n hw
  refine ⟨collapsed hw (t'.rows.filter (ofHardware c hw)) t'.nextId,?_,numbered,h.next.trans next,
    ?_,?_,?_⟩
  · have all_new : new.filter (fun r => !ofHardware c hw r) = new :=
      filter_eq_self.2 fun r hr => by simp [hourly r hr]
    rw [collapse_rows h.numbered,h.rows,filter_append,all_new,filter_filter, append_assoc]
    congr 1
    refine filter_congr fun r _ => ?_
    rw [both,Bool.not_or,Bool.and_comm]
  · intro r hr
    rcases mem_append.1 hr with hr | hr
    · exact h.later r hr
    · exact h.next.trans (above r hr)
  · intro r hr
    rcases mem_append.1 hr with hr | hr
    · exact h.hourly r hr
    · exact ⟨(mem_averaged hr).2.2,collapsed_aligned hr⟩
  · have second : Rollup liveKey liveKey LiveAverages (t.rows.filter (ofHardware c hw))
        (collapsed hw (t'.rows.filter (ofHardware c hw)) t'.nextId) := by
      rw [raw]
      refine collapsed_rollup _ fun s hs => ?_
      have hs := (mem_filter.1 hs).2
      simp only [ofHardware,Bool.and_eq_true,decide_eq_true_eq] at hs
      exact hs.1
    have union := h.roll.union second fun s s' hs hs' he => by
      simp only [taken,ofHardware,Bool.and_eq_true,decide_eq_true_eq] at hs hs'
      have owner : s.hardwareId = s'.hardwareId := congrArg Prod.fst he
      rw [hs'.1] at owner
      exact fresh (owner ▸ hs.1)
    rw [filter_congr fun r _ => both r]
    exact union

theorem collapsed_fold (h : Numbered t)
    (nodup : ids.Nodup) : ∃ new, Collapsed c t ids (ids.foldl (collapse c) (t,0)).1 new := by
  induction ids using List.reverseRecOn with
  | nil =>
    have none_taken : ∀ r, taken c [] r = false := fun r => rfl
    refine ⟨[],?_,h,le_rfl,fun _ => nofun,fun _ => nofun,?_⟩
    · simp [none_taken]
    · rw [filter_eq_nil_iff.2 fun r _ => by simp [none_taken r]]
      exact ⟨nodup_nil,fun _ => nofun,fun _ => nofun,fun _ => nofun⟩
  | append_singleton ids hw ih =>
    obtain ⟨nodup,-,apart⟩ := nodup_append.1 nodup
    obtain ⟨new,before⟩ := ih nodup
    have fresh : hw ∉ ids := fun hin => apart hw hin hw mem_cons_self rfl
    obtain ⟨new',after⟩ := before.snoc fresh (ids.foldl (collapse c) (t,0)).2
    rw [foldl_append]
    exact ⟨new++new',after⟩

/-- The law with what keeps it: ids are the tables' own, averaged rows stand at the start of their
hour, and each is there for a sample that was removed. -/
structure Sound (t : Tables) : Prop where
  faithful : Faithful t
  numbered : Numbered t.live
  aligned : ∀ r ∈ t.hourlyLive, bucketOf r.collectedAt = r.collectedAt
  liveFed : Fed liveKey liveKey t.liveRemoved t.hourlyLive
  agentFed : Fed sampleKey hourlyKey t.samplesRemoved t.hourly
  samplesNodup : (t.samples.map (·.id)).Nodup
  samplesBelow : ∀ s ∈ t.samples, s.id < t.nextSample

theorem Sound.empty (start : Int) : Sound (Tables.empty start) where
  faithful := ⟨⟨nodup_nil,fun _ => nofun,fun _ => nofun⟩,
    ⟨nodup_nil,fun _ => nofun,fun _ => nofun⟩⟩
  numbered := ⟨nodup_nil,fun _ => nofun⟩
  aligned _ := nofun
  liveFed _ := nofun
  agentFed _ := nofun
  samplesNodup := nodup_nil
  samplesBelow _ := nofun

theorem Sound.live {t : Tables} (h : Sound t) {r : HardwareLiveMetric} (hid : r.id = t.live.nextId)
    (raw : r.source ≠ some hourlyAgg) :
    Sound { t with live := ⟨t.live.rows++[r],t.live.nextId+1⟩ } := by
  have same : (t.live.rows++[r]).filter (fun r => decide (r.source = some hourlyAgg)) =
      t.hourlyLive := by
    rw [filter_append,filter_singleton,decide_eq_false raw]
    exact append_nil _
  have numbered : Numbered ⟨t.live.rows++[r],t.live.nextId+1⟩ := by
    constructor
    · rw [map_append,nodup_append]
      refine ⟨h.numbered.nodup,nodup_singleton _,fun a ha b hb hab => ?_⟩
      obtain ⟨s,hs,rfl⟩ := mem_map.1 ha
      rw [map_singleton,mem_singleton] at hb
      have below := h.numbered.below s hs
      omega
    · intro s hs
      rcases mem_append.1 hs with hs | hs
      · exact Nat.lt_succ_of_lt (h.numbered.below s hs)
      · rw [mem_singleton.1 hs,hid]
        exact Nat.lt_succ_self _
  refine ⟨⟨?_,h.faithful.agent⟩,numbered,?_,?_,h.agentFed,h.samplesNodup,h.samplesBelow⟩
  · have law := h.faithful.live
    rw [←same] at law
    exact law
  · have aligned := h.aligned
    rw [←same] at aligned
    exact aligned
  · have fed := h.liveFed
    rw [←same] at fed
    exact fed

theorem Sound.sample {t : Tables} (h : Sound t) {s : AgentHostSample} (hid : s.id = t.nextSample) :
    Sound { t with
      samples := t.samples++[s]
      nextSample := t.nextSample+1 } := by
  refine ⟨⟨h.faithful.live,h.faithful.agent⟩,h.numbered,h.aligned,h.liveFed,h.agentFed,?_,?_⟩
  · dsimp only
    rw [map_append,nodup_append]
    refine ⟨h.samplesNodup,nodup_singleton _,fun a ha b hb hab => ?_⟩
    obtain ⟨q,hq,rfl⟩ := mem_map.1 ha
    rw [map_singleton,mem_singleton] at hb
    have below := h.samplesBelow q hq
    omega
  · intro q hq
    rcases mem_append.1 hq with hq | hq
    · exact Nat.lt_succ_of_lt (h.samplesBelow q hq)
    · rw [mem_singleton.1 hq,hid]
      exact Nat.lt_succ_self _

theorem gone_live (h : Numbered t) (done : Collapsed c t ids t' new) :
    (t.rows.filter fun r => isRaw r && c.inWindow r.collectedAt &&
      decide (r.id ∉ (t'.rows.filter fun r => ¬r.collectedAt < c.warm).map (·.id))) =
      t.rows.filter (taken c ids) := by
  refine filter_congr fun r hr => ?_
  cases ht : taken c ids r with
  | true =>
    have raw : isRaw r = true ∧ c.inWindow r.collectedAt = true := by
      simp only [taken,warmRaw,Bool.and_eq_true] at ht
      obtain ⟨-,window,named⟩ := ht
      refine ⟨decide_eq_true fun he => ?_,window⟩
      rw [he] at named
      simp at named
    have absent : r.id ∉ (t'.rows.filter fun r => ¬r.collectedAt < c.warm).map (·.id) := by
      intro there
      obtain ⟨s,hs,he⟩ := mem_map.1 there
      have hs := (mem_filter.1 hs).1
      rw [done.rows] at hs
      rcases mem_append.1 hs with hs | hs
      · obtain ⟨hs,kept⟩ := mem_filter.1 hs
        rw [h.same hs hr he,ht] at kept
        cases kept
      · have above := done.later s hs
        have below := h.below r hr
        omega
    simp only [raw.1,raw.2,absent,not_false_eq_true,decide_true,Bool.and_self]
  | false =>
    cases hw : c.inWindow r.collectedAt with
    | false => simp
    | true =>
      have there : r.id ∈ (t'.rows.filter fun r => ¬r.collectedAt < c.warm).map (·.id) := by
        refine mem_map.2 ⟨r,mem_filter.2 ⟨?_,?_⟩,rfl⟩
        · rw [done.rows]
          exact mem_append_left _ (mem_filter.2 ⟨hr,by simp [ht]⟩)
        · simp only [Cutoffs.inWindow,Bool.and_eq_true,decide_eq_true_eq] at hw
          exact decide_eq_true (Int.not_lt.2 hw.1)
      simp only [there,not_true_eq_false,decide_false,Bool.and_false]

theorem hourlyLive_after (done : Collapsed c t ids t' new)
    (aligned : ∀ r ∈ t.rows.filter (fun r => decide (r.source = some hourlyAgg)),
      bucketOf r.collectedAt = r.collectedAt) :
    (t'.rows.filter fun r => ¬r.collectedAt < c.warm).filter
        (fun r => decide (r.source = some hourlyAgg)) =
      (t.rows.filter (fun r => decide (r.source = some hourlyAgg))++new).filter
        fun r => c.warm ≤ (liveKey r).2 := by
  have hourly : t'.rows.filter (fun r => decide (r.source = some hourlyAgg)) =
      t.rows.filter (fun r => decide (r.source = some hourlyAgg))++new := by
    have all_new : new.filter (fun r => decide (r.source = some hourlyAgg)) = new :=
      filter_eq_self.2 fun r hr => decide_eq_true (done.hourly r hr).1
    rw [done.rows,filter_append,all_new,filter_filter]
    congr 1
    refine filter_congr fun r _ => ?_
    by_cases hs : r.source = some hourlyAgg
    · simp [taken,warmRaw_hourly hs]
    · simp [hs]
  rw [filter_filter,←hourly,filter_filter]
  refine filter_congr fun r hr => ?_
  by_cases hs : r.source = some hourlyAgg
  · have there : r ∈ t.rows.filter (fun r => decide (r.source = some hourlyAgg))++new := by
      rw [←hourly]
      exact mem_filter.2 ⟨hr,decide_eq_true hs⟩
    have here : bucketOf r.collectedAt = r.collectedAt := by
      rcases mem_append.1 there with hin | hin
      · exact aligned r hin
      · exact (done.hourly r hin).2
    simp [hs,liveKey,here]
  · simp [hs]

theorem gone_samples {samples : List AgentHostSample} (nodup : (samples.map (·.id)).Nodup) :
    (samples.filter fun s => c.inWindow s.collectedAt &&
      decide (s.id ∉ (samplesAfter c samples).map (·.id))) =
      samples.filter (c.inWindow ·.collectedAt) := by
  refine filter_congr fun s hs => ?_
  cases hw : c.inWindow s.collectedAt with
  | false => rfl
  | true =>
    have absent : s.id ∉ (samplesAfter c samples).map (·.id) := by
      intro there
      obtain ⟨q,hq,he⟩ := mem_map.1 there
      obtain ⟨hq,kept⟩ := mem_filter.1 hq
      rw [inj_on_of_nodup_map nodup hq hs he] at kept
      simp only [Cutoffs.inWindow,Bool.and_eq_true,decide_eq_true_eq] at hw
      exact of_decide_eq_true kept hw.2
    simp only [absent,not_false_eq_true,decide_true,Bool.and_self]

theorem hourlyAfter_eq {t : Tables}
    (fed : Fed sampleKey hourlyKey t.samplesRemoved t.hourly) (once : OneRun t c) :
    hourlyAfter c t =
      (t.hourly++aggSelect c t.samples).filter fun r => c.warm ≤ (hourlyKey r).2 := by
  have roll := aggSelect_rollup c t.samples
  let warmed : Nat × Int → Bool := fun k => decide (c.warm ≤ k.2)
  have fresh : ∀ row ∈ aggSelect c t.samples, warmed (hourlyKey row) →
      hourlyKey row ∉ t.hourly.map hourlyKey := by
    intro row hrow warm there
    obtain ⟨s,hs,same⟩ := roll.fed row hrow
    obtain ⟨hs,window⟩ := mem_filter.1 hs
    obtain ⟨q,hq,he⟩ := mem_map.1 there
    obtain ⟨s',hs',same'⟩ := fed q hq
    have warm : c.warm ≤ (hourlyKey row).2 := of_decide_eq_true warm
    rw [←same] at warm
    exact once.2 s hs window warm s' hs' (same'.trans (he.trans same.symm))
  refine (filter_congr fun r _ => ?_).trans (filter_upserts roll.sole fresh)
  exact decide_eq_decide.2 Int.not_lt

theorem Sound.retention {t : Tables} (h : Sound t) (now hotDays warmDays : Int)
    (once : OneRun t (cutoffs now hotDays warmDays)) :
    Sound (runRetentionExecutor now hotDays warmDays t).1 := by
  generalize hc : cutoffs now hotDays warmDays = c at once
  obtain ⟨new,done⟩ := collapsed_fold (c := c) h.numbered (nodup_dedup (t.live.rows.filter
    (warmRaw c) |>.map (·.hardwareId)))
  have gone := gone_live (c := c) h.numbered done
  have hourly := hourlyLive_after done h.aligned
  have agents := hourlyAfter_eq h.agentFed once
  have goneSamples := gone_samples (c := c) h.samplesNodup
  have roll := aggSelect_rollup c t.samples
  have coldNow : ∀ b, t.cold b ∨ b < c.warm → ∃ c' ∈ t.past++[c], b < c'.warm := by
    rintro b (⟨c',hc',hb⟩ | hb)
    · exact ⟨c',mem_append_left _ hc',hb⟩
    · exact ⟨c,mem_append_right _ mem_cons_self,hb⟩
  have onceLive : ∀ s ∈ t.live.rows.filter (taken c (hardwareIds c t.live)),
      c.warm ≤ (liveKey s).2 → ∀ s' ∈ t.liveRemoved, liveKey s' ≠ liveKey s := by
    intro s hs
    obtain ⟨hs,ht⟩ := mem_filter.1 hs
    exact once.1 s hs (Bool.and_eq_true_iff.1 ht).2
  have onceAgent : ∀ s ∈ t.samples.filter (c.inWindow ·.collectedAt),
      c.warm ≤ (sampleKey s).2 → ∀ s' ∈ t.samplesRemoved, sampleKey s' ≠ sampleKey s := by
    intro s hs
    obtain ⟨hs,hw⟩ := mem_filter.1 hs
    exact once.2 s hs hw
  have liveLaw := (h.faithful.live.rollup h.liveFed done.roll onceLive).mono coldNow
  have agentLaw := (h.faithful.agent.rollup h.agentFed roll onceAgent).mono coldNow
  have liveFed : Fed liveKey liveKey _ ((t.hourlyLive++new).filter fun r => c.warm ≤ (liveKey r).2) :=
    h.liveFed.rollup done.roll
  have agentFed : Fed sampleKey hourlyKey _
      ((t.hourly++aggSelect c t.samples).filter fun r => c.warm ≤ (hourlyKey r).2) :=
    h.agentFed.rollup roll
  have aligned : ∀ r ∈ (t.hourlyLive++new).filter fun r => c.warm ≤ (liveKey r).2,
      bucketOf r.collectedAt = r.collectedAt := by
    intro r hr
    rcases mem_append.1 (mem_filter.1 hr).1 with hin | hin
    · exact h.aligned r hin
    · exact (done.hourly r hin).2
  rw [Tables.hourlyLive,←hourly] at aligned
  rw [Tables.hourlyLive,←hourly,←gone] at liveLaw liveFed
  rw [←agents,←goneSamples] at agentLaw agentFed
  subst hc
  refine ⟨⟨liveLaw,agentLaw⟩,⟨?_,?_⟩,aligned,liveFed,agentFed,?_,?_⟩
  · exact done.numbered.nodup.sublist (filter_sublist.map _)
  · exact fun r hr => done.numbered.below r (mem_filter.1 hr).1
  · exact h.samplesNodup.sublist (filter_sublist.map _)
  · exact fun s hs => h.samplesBelow s (mem_filter.1 hs).1

theorem step_sound {t t' : Tables} {e : Event} (h : Sound t) (hs : Guarded Step Meets t e t') :
    Sound t' := by
  obtain ⟨once,step⟩ := hs
  cases step with
  | live raw => exact h.live rfl raw
  | sample => exact h.sample rfl
  | retention _ _ => exact h.retention _ _ _ once

/-- While each hour is aggregated by one run only, both tables tell the truth of their hours. -/
theorem rollup_law {start : Int} {t : Tables} {es : List Event}
    (h : Run (Guarded Step Meets) (Tables.empty start) es t) : Faithful t :=
  (h.invariant (I := Sound) (fun _ _ _ hi hs => step_sound hi hs) (Sound.empty start)).faithful

def at10 : Int := 600*1000000
def at50 : Int := 3000*1000000

def gauge (x : ℚ) : HardwareField → Option ℚ
  | .cpuPct => some x
  | _ => none

def series (x : ℚ) : SummaryField → Option ℚ
  | .cpuPct => some x
  | _ => none

def sampled : Tables :=
  { Tables.empty 0 with
    live := ⟨[⟨0,1,at10,gauge 10,"up",some "snmp"⟩,⟨1,1,at50,gauge 30,"up",some "snmp"⟩],2⟩
    samples := [⟨0,5,at10,series 10⟩,⟨1,5,at50,series 30⟩]
    nextSample := 2 }

def samplings : List Event :=
  [.live 1 at10 (gauge 10) "up" (some "snmp"),.live 1 at50 (gauge 30) "up" (some "snmp"),
    .sample 5 at10 (series 10),.sample 5 at50 (series 30)]

def runAt (now : Int) : Event := .retention now (some 7) (some 30) none none

theorem sampled_run : Run (Guarded Step Meets) (Tables.empty 0) samplings sampled := by
  have start : Run (Guarded Step Meets) (Tables.empty 0) [] (Tables.empty 0) := .nil _
  have metrics := (start.also (@Step.live _ 1 at10 (gauge 10) "up" (some "snmp") (by decide))
    trivial).also (@Step.live _ 1 at50 (gauge 30) "up" (some "snmp") (by decide)) trivial
  exact (metrics.also (@Step.sample _ 5 at10 (series 10)) trivial).also
    (@Step.sample _ 5 at50 (series 30)) trivial

theorem rollup_law_whole_hour : Faithful (runRetentionExecutor (7*dayUs+bucketUs) 7 30 sampled).1 ∧
      ((runRetentionExecutor (7*dayUs+bucketUs) 7 30 sampled).1.hourly.map fun r =>
        (r.sampleCount,r.summary .cpuPct)) = [(2,some 20)] :=
  ⟨@rollup_law 0 _ (samplings++[runAt (7*dayUs+bucketUs)])
    (sampled_run.also (.retention (by decide) (by decide))
      ⟨fun _ _ _ _ _ => nofun,fun _ _ _ _ _ => nofun⟩),by decide +kernel⟩

def rolledTwice : Tables :=
  (runRetentionExecutor (7*dayUs+bucketUs) 7 30
    (runRetentionExecutor (7*dayUs+bucketUs/2) 7 30 sampled).1).1

/-- The second run puts another row beside the hardware's, and the agent's row in the place of the
one that counted the first sample. -/
theorem split_hour_loses :
    Run Step (Tables.empty 0) (samplings++[runAt (7*dayUs+bucketUs/2)]++[runAt (7*dayUs+bucketUs)])
      rolledTwice ∧
    (rolledTwice.hourlyLive.map fun r => (liveKey r,r.value .cpuPct)) =
      [((1,0),some 10),((1,0),some 30)] ∧
    (rolledTwice.hourly.map fun r => (hourlyKey r,r.sampleCount,r.summary .cpuPct)) =
      [((5,0),1,some 30)] ∧
    rolledTwice.samplesRemoved.length = 2 ∧ ¬Faithful rolledTwice := by
  have two : (rolledTwice.hourlyLive.map fun r => (liveKey r,r.value .cpuPct)) =
      [((1,0),some 10),((1,0),some 30)] := by decide +kernel
  refine ⟨.snoc (.snoc sampled_run.unguarded (.retention (by decide) (by decide)))
    (.retention (by decide) (by decide)),two,by decide +kernel,by decide +kernel,fun h => ?_⟩
  have keys : rolledTwice.hourlyLive.map liveKey = [(1,0),(1,0)] := by
    have := congrArg (List.map Prod.fst) two
    rwa [map_map] at this
  have sole := h.live.sole
  rw [keys] at sole
  exact absurd sole (by decide)

end TelemetryRollup
end CircuitBreaker
