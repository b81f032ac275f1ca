import CircuitBreaker.ProbeRuns
import Mathlib.Data.Rat.Defs
import Mathlib.Data.List.Nodup

/-! Ingest of an agent's host samples. A delivery inserts the sample under a uniqueness
constraint, derives a live metric from it and, if the sample is not older than what the
hardware row shows, writes the row; all of it shows when the transaction commits. Every
statement is a step, and any number of deliveries overlap. -/

namespace CircuitBreaker.HostTelemetry
open StepRuns List Function
open ProbeRuns (written written_value)

/-- A value of the summary: a finite number, or one of the others a JSON reader lets through. -/
inductive Number where
  | finite (value : ℚ) | infinity (negative : Bool) | nan

def Number.negative : Number → Bool
  | .finite value => value < 0
  | .infinity negative => negative
  | .nan => false

/-- `0 <= value <= 100`. -/
def Number.isPercent : Number → Bool
  | .finite value => 0 ≤ value && value ≤ 100
  | _ => false

/-- The payload of a sample; `E` stands for the entries of its lists. -/
structure HostTelemetryPayload (E : Type) where
  schemaVersion : Int
  sampleId : String
  status : String
  summary : List (String × Number)
  filesystems : List E
  disks : List E
  interfaces : List E
  temperatures : List E

def maxPayload : Nat := 262144

def percentFields : List String := ["cpu_pct","mem_pct","swap_pct","root_disk_pct"]

def listLimits {E : Type} (sample : HostTelemetryPayload E) : List (String × List E × Nat) :=
  [("filesystems",sample.filesystems,128),("disks",sample.disks,128),
    ("interfaces",sample.interfaces,128),("temperatures",sample.temperatures,256)]

/-- `^[0-9a-f]{32}$`, matched in full. -/
def isSampleId (s : String) : Bool :=
  s.toList.length == 32 &&
    s.toList.all fun c => (48 ≤ c.toNat && c.toNat ≤ 57) || (97 ≤ c.toNat && c.toNat ≤ 102)

def checkList {E : Type} : String × List E × Nat → Except String Unit
  | (field,entries,limit) =>
    if limit < entries.length then .error s!"{field} exceeds {limit} entries" else .ok ()

def checkSummary : String × Number → Except String Unit
  | (name,value) =>
    if name ∈ percentFields then
      if value.isPercent then .ok () else .error s!"summary.{name} is outside 0..100"
    else if value.negative then .error s!"summary.{name} is negative"
    else .ok ()

def microsecond : Int := 1000000

/-- The checks of a decoded payload; `size` is the length of its JSON text in bytes, and times
are microseconds. -/
def validateHostPayload {E : Type} (size : Nat) (sample : HostTelemetryPayload E)
    (collectedAt now : Int) : Except String Unit := do
  if maxPayload < size then throw "payload exceeds 256 KiB"
  if sample.schemaVersion ≠ 1 ∨ ¬ (sample.status = "healthy" ∨ sample.status = "degraded") then
    throw "unsupported schema or status"
  if ¬ isSampleId sample.sampleId then throw "sample_id must be 128-bit lowercase hex"
  (listLimits sample).forM checkList
  sample.summary.forM checkSummary
  if now+60*microsecond < collectedAt then throw "collection timestamp is in the future"
  if collectedAt < now-30*86400*microsecond then throw "collection timestamp is outside retention"

/-- The statuses `_NON_LIVE_STATUSES` lists. -/
def nonLiveStatuses : List String := ["unknown","unreachable","error","unconfigured"]

abbrev Key := String × Int

/-- A row of `agent_host_samples` of the one agent. -/
structure AgentHostSample (E : Type) where
  collectedAt : Int
  raw : HostTelemetryPayload E

def AgentHostSample.key {E : Type} (row : AgentHostSample E) : Key := (row.raw.sampleId,row.collectedAt)

structure HardwareLiveMetric (D : Type) where
  agentSampleId : String
  collectedAt : Int
  status : String
  raw : D

def HardwareLiveMetric.key {D : Type} (metric : HardwareLiveMetric D) : Key :=
  (metric.agentSampleId,metric.collectedAt)

structure Hardware (D : Type) where
  telemetryData : Option D := none
  telemetryStatus : Option String := some "unknown"
  telemetryLastPolled : Option Int := none
  lastSeen : Option Int := none

section Model
variable {E D : Type} [DecidableEq D] (agentSummaryToPlatform : List (String × Number) → List E → D)

def platform (row : AgentHostSample E) : D :=
  agentSummaryToPlatform row.raw.summary row.raw.filesystems

def liveMetric (row : AgentHostSample E) : HardwareLiveMetric D where
  agentSampleId := row.raw.sampleId
  collectedAt := row.collectedAt
  status := row.raw.status
  raw := platform agentSummaryToPlatform row

def projectLive (row : AgentHostSample E) (loaded : Hardware D) : Bool :=
  match loaded.telemetryLastPolled with
  | none => true
  | some polled => polled ≤ row.collectedAt

def Hardware.project (row : AgentHostSample E) (loaded : Hardware D) : Hardware D where
  telemetryData := some (platform agentSummaryToPlatform row)
  telemetryStatus := some row.raw.status
  telemetryLastPolled := some row.collectedAt
  lastSeen := if row.raw.status ∈ nonLiveStatuses then loaded.lastSeen else some row.collectedAt

/-- The `UPDATE` of a flush: the columns whose value is not the loaded one. -/
def Hardware.flush (loaded changed current : Hardware D) : Hardware D where
  telemetryData := written loaded.telemetryData changed.telemetryData current.telemetryData
  telemetryStatus := written loaded.telemetryStatus changed.telemetryStatus current.telemetryStatus
  telemetryLastPolled :=
    written loaded.telemetryLastPolled changed.telemetryLastPolled current.telemetryLastPolled
  lastSeen := written loaded.lastSeen changed.lastSeen current.lastSeen

inductive Stage (E D : Type) where
  | idle
  | selecting (row : AgentHostSample E)
  | inserting (row : AgentHostSample E)
  | recovering (row : AgentHostSample E)
  | reading (row : AgentHostSample E)
  | flushing (row : AgentHostSample E) (loaded : Hardware D)
  | committing (row : AgentHostSample E) (loaded : Hardware D)
  | done (row : AgentHostSample E)
  | refused (reason : String)
  | failed

structure World (E D : Type) where
  samples : List (AgentHostSample E) := []
  metrics : List (HardwareLiveMetric D) := []
  hardware : Hardware D := {}
  inserter : Key → Option Nat := fun _ => none
  updater : Option Nat := none
  stage : Nat → Stage E D := fun _ => .idle

inductive Act (E : Type) where
  | deliver (d size : Nat) (payload : HostTelemetryPayload E) (collectedAt now : Int)
  | select (d : Nat)
  | insert (d : Nat)
  | recover (d : Nat)
  | read (d : Nat)
  | flush (d : Nat)
  | commit (d : Nat)
  | abort (d : Nat)

def World.to (w : World E D) (d : Nat) (stage : Stage E D) : World E D :=
  {w with stage := update w.stage d stage}

def World.stored (w : World E D) (key : Key) : Bool := w.samples.any fun row => row.key = key

def World.release (w : World E D) (d : Nat) (key : Key) : World E D :=
  {w with
    inserter := if w.inserter key = some d then update w.inserter key none else w.inserter
    updater := if w.updater = some d then none else w.updater}

def World.publish (w : World E D) (row : AgentHostSample E) (loaded : Hardware D) : World E D :=
  {w with
    samples := w.samples ++ [row]
    metrics := w.metrics ++ [liveMetric agentSummaryToPlatform row]
    hardware :=
      if projectLive row loaded then
        Hardware.flush loaded (loaded.project agentSummaryToPlatform row) w.hardware
      else w.hardware}

def next (w : World E D) : Act E → Option (World E D)
  | .deliver d size payload collectedAt now =>
    match w.stage d with
    | .idle =>
      match validateHostPayload size payload collectedAt now with
      | .ok _ => some (w.to d (.selecting ⟨collectedAt,payload⟩))
      | .error reason => some (w.to d (.refused reason))
    | _ => none
  | .select d =>
    match w.stage d with
    | .selecting row => some (w.to d (if w.stored row.key then .done row else .inserting row))
    | _ => none
  | .insert d =>
    match w.stage d with
    | .inserting row =>
      if w.stored row.key then some (w.to d (.recovering row))
      -- the other insert of the key has not committed: the statement waits for it
      else if (w.inserter row.key).isSome then none
      else
        let held : World E D := {w with inserter := update w.inserter row.key (some d)}
        some (held.to d (.reading row))
    | _ => none
  | .recover d =>
    match w.stage d with
    | .recovering row => some (w.to d (if w.stored row.key then .done row else .failed))
    | _ => none
  | .read d =>
    match w.stage d with
    | .reading row => some (w.to d (.flushing row w.hardware))
    | _ => none
  | .flush d =>
    match w.stage d with
    | .flushing row loaded =>
      -- the unique index of `hardware_live_metrics`
      if w.metrics.any fun metric => metric.key = row.key then
        some ((w.release d row.key).to d .failed)
      else if projectLive row loaded then
        -- another update of the row has not committed: the statement waits for it
        if w.updater.isSome then none
        else
          let held : World E D := {w with updater := some d}
          some (held.to d (.committing row loaded))
      else some (w.to d (.committing row loaded))
    | _ => none
  | .commit d =>
    match w.stage d with
    | .committing row loaded =>
      some (((w.publish agentSummaryToPlatform row loaded).release d row.key).to d (.done row))
    | _ => none
  | .abort d =>
    match w.stage d with
    | .selecting row | .inserting row | .recovering row | .reading row | .flushing row _
    | .committing row _ => some ((w.release d row.key).to d .failed)
    | _ => none

def Step (w : World E D) (act : Act E) (w' : World E D) : Prop :=
  next agentSummaryToPlatform w act = some w'

/-- The hardware row shows a stored sample that no stored sample is newer than. -/
def Latest (w : World E D) : Prop :=
  (w.samples = [] ∧ w.hardware.telemetryData = none ∧ w.hardware.telemetryLastPolled = none) ∨
  ∃ row ∈ w.samples, w.hardware.telemetryData = some (platform agentSummaryToPlatform row) ∧
    w.hardware.telemetryLastPolled = some row.collectedAt ∧
    ∀ other ∈ w.samples, other.collectedAt ≤ row.collectedAt

/-- When a delivery writes the hardware row, the row shows nothing newer than its sample and,
where the flush leaves `telemetry_data` out, still the data that was loaded. -/
def Current (w : World E D) : Act E → Prop
  | .commit d => ∀ row loaded, w.stage d = .committing row loaded → projectLive row loaded = true →
    (∀ polled, w.hardware.telemetryLastPolled = some polled → polled ≤ row.collectedAt) ∧
    (loaded.telemetryData = some (platform agentSummaryToPlatform row) →
      w.hardware.telemetryData = loaded.telemetryData)
  | _ => True

/-- What every state of a run should show of the deliveries that are done. -/
structure Ingested (w : World E D) : Prop where
  once : ∀ d row, w.stage d = .done row →
    w.samples.countP (fun r => r.key = row.key) = 1 ∧
      w.metrics.countP (fun m => m.key = row.key) = 1
  only : ∀ row ∈ w.samples, ∃ d r, w.stage d = .done r ∧ r.key = row.key
  derived : w.metrics = w.samples.map (liveMetric agentSummaryToPlatform)
  latest : Latest agentSummaryToPlatform w

end Model

section Proofs
variable {E D : Type} {agentSummaryToPlatform : List (String × Number) → List E → D}
  {w w' : World E D} {d : Nat} {row : AgentHostSample E} {loaded current later : Hardware D}

theorem World.stored_iff {key : Key} :
    w.stored key = true ↔ ∃ row ∈ w.samples, row.key = key := by
  simp [World.stored]

def Behind (loaded current : Hardware D) : Prop :=
  ∀ t, loaded.telemetryLastPolled = some t →
    ∃ t', current.telemetryLastPolled = some t' ∧ t ≤ t'

theorem Behind.refl (loaded : Hardware D) : Behind loaded loaded := fun t h => ⟨t,h,Int.le_refl t⟩

theorem Behind.trans (h : Behind loaded current) (h' : Behind current later) :
    Behind loaded later := by
  intro t ht
  obtain ⟨u,hu,le⟩ := h t ht
  obtain ⟨v,hv,le'⟩ := h' u hu
  exact ⟨v,hv,Int.le_trans le le'⟩

def Placed (w : World E D) (d : Nat) : Stage E D → Prop
  | .recovering row | .done row => w.stored row.key = true
  | .reading row => w.inserter row.key = some d
  | .flushing row loaded | .committing row loaded =>
    w.inserter row.key = some d ∧ Behind loaded w.hardware
  | _ => True

theorem Placed.mono {stage : Stage E D} (h : Placed w d stage)
    (stored : ∀ key, w.stored key = true → w'.stored key = true)
    (held : ∀ key, w.inserter key = some d → w'.inserter key = some d)
    (grown : Behind w.hardware w'.hardware) : Placed w' d stage := by
  cases stage with
  | recovering row | done row => exact stored _ h
  | reading row => exact held _ h
  | flushing row loaded | committing row loaded => exact ⟨held _ h.1,h.2.trans grown⟩
  | _ => trivial

structure Sound (agentSummaryToPlatform : List (String × Number) → List E → D)
    (w : World E D) : Prop where
  placed : ∀ d, Placed w d (w.stage d)
  fresh : ∀ key d, w.inserter key = some d → w.stored key = false
  nodup : (w.samples.map AgentHostSample.key).Nodup
  derived : w.metrics = w.samples.map (liveMetric agentSummaryToPlatform)
  only : ∀ row ∈ w.samples, ∃ d r, w.stage d = .done r ∧ r.key = row.key
  latest : Latest agentSummaryToPlatform w

theorem sound_start : Sound agentSummaryToPlatform ({} : World E D) where
  placed := fun _ => trivial
  fresh := fun _ _ h => nomatch h
  nodup := .nil
  derived := rfl
  only := fun _ h => nomatch h
  latest := .inl ⟨rfl,rfl,rfl⟩

theorem Sound.to (h : Sound agentSummaryToPlatform w) {stage : Stage E D}
    (before : ∀ row, w.stage d ≠ .done row) (after : Placed w d stage) :
    Sound agentSummaryToPlatform (w.to d stage) where
  placed := by
    intro e
    change Placed w e (update w.stage d stage e)
    by_cases he : e = d
    · subst he
      rw [update_self]
      exact after
    · rw [update_of_ne he]
      exact h.placed e
  fresh := h.fresh
  nodup := h.nodup
  derived := h.derived
  only := by
    intro row hr
    obtain ⟨e,r,he,hk⟩ := h.only row hr
    have ne : e ≠ d := fun eq => before r (eq ▸ he)
    exact ⟨e,r,(update_of_ne ne _ _).trans he,hk⟩
  latest := h.latest

theorem release_inserter_other {key k : Key} {e : Nat} (ne : e ≠ d)
    (h : w.inserter k = some e) : (w.release d key).inserter k = some e := by
  simp only [World.release]
  split
  case isTrue held =>
    have other : k ≠ key := fun eq => ne (Option.some.inj (h.symm.trans (eq ▸ held)))
    rw [update_of_ne other]
    exact h
  case isFalse => exact h

theorem release_inserter_of {key k : Key} {e : Nat}
    (h : (w.release d key).inserter k = some e) :
    w.inserter k = some e ∧ (w.inserter key = some d → k ≠ key) := by
  simp only [World.release] at h
  split at h
  case isTrue held =>
    by_cases eq : k = key
    · rw [eq,update_self] at h
      cases h
    · rw [update_of_ne eq] at h
      exact ⟨h,fun _ => eq⟩
  case isFalse free => exact ⟨h,fun held => absurd held free⟩

theorem Sound.leave (h : Sound agentSummaryToPlatform w) {key : Key} {stage : Stage E D}
    (before : ∀ row, w.stage d ≠ .done row) (after : ∀ v : World E D, Placed v d stage) :
    Sound agentSummaryToPlatform ((w.release d key).to d stage) where
  placed := by
    intro e
    change Placed (w.release d key) e (update w.stage d stage e)
    by_cases he : e = d
    · subst he
      rw [update_self]
      exact after _
    · rw [update_of_ne he]
      exact (h.placed e).mono (fun _ hs => hs) (fun _ hi => release_inserter_other he hi) (.refl _)
  fresh := fun k e hi => h.fresh k e (release_inserter_of hi).1
  nodup := h.nodup
  derived := h.derived
  only := (h.to before (after w)).only
  latest := h.latest

theorem Sound.insert (h : Sound agentSummaryToPlatform w) (hs : w.stage d = .inserting row)
    (new : w.stored row.key = false) (free : w.inserter row.key = none) :
    Sound agentSummaryToPlatform (World.to
      {w with inserter := update w.inserter row.key (some d)} d (.reading row)) := by
  have held : Sound agentSummaryToPlatform
      {w with inserter := update w.inserter row.key (some d)} := by
    refine ⟨fun e => ?_,?_,h.nodup,h.derived,h.only,h.latest⟩
    · refine (h.placed e).mono (fun _ hk => hk) (fun k hi => ?_) (.refl _)
      have ne : k ≠ row.key := fun eq => by
        rw [eq,free] at hi
        cases hi
      exact (update_of_ne ne _ _).trans hi
    · intro k e hi
      change update w.inserter row.key (some d) k = some e at hi
      by_cases eq : k = row.key
      · rw [eq]
        exact new
      · rw [update_of_ne eq] at hi
        exact h.fresh k e hi
  refine held.to (fun r hr => ?_) (update_self ..)
  have stage : w.stage d = .done r := hr
  rw [hs] at stage
  cases stage

theorem Sound.ingested (h : Sound agentSummaryToPlatform w) : Ingested agentSummaryToPlatform w := by
  refine ⟨fun e row hs => ?_,h.only,h.derived,h.latest⟩
  have placed : Placed w e (.done row) := hs ▸ h.placed e
  obtain ⟨r,hr,hk⟩ := World.stored_iff.mp placed
  have one : (w.samples.map AgentHostSample.key).count row.key = 1 :=
    count_eq_one_of_mem h.nodup (hk ▸ mem_map_of_mem hr)
  have rows : w.samples.countP (fun r => r.key = row.key) = 1 := by
    rw [←one,List.count,countP_map]
    exact countP_congr fun r _ => by simp
  refine ⟨rows,?_⟩
  rw [h.derived,countP_map]
  exact rows

variable [DecidableEq D]

theorem flush_project
    (behind : Behind loaded w.hardware)
    (below : ∀ polled, w.hardware.telemetryLastPolled = some polled → polled ≤ row.collectedAt)
    (same : loaded.telemetryData = some (platform agentSummaryToPlatform row) →
      w.hardware.telemetryData = loaded.telemetryData) :
    let shown := Hardware.flush loaded (loaded.project agentSummaryToPlatform row) w.hardware
    shown.telemetryData = some (platform agentSummaryToPlatform row) ∧
      shown.telemetryLastPolled = some row.collectedAt := by
  constructor
  · exact written_value fun eq => (same eq.symm).trans eq.symm
  · refine written_value fun eq => ?_
    -- the column is left out, and the row still shows the time that was loaded
    obtain ⟨t,ht,le⟩ := behind row.collectedAt eq.symm
    have same : t = row.collectedAt := Int.le_antisymm (below t ht) le
    rw [ht,same]
    rfl

theorem publish_hardware (behind : Behind loaded w.hardware)
    (latest : Latest agentSummaryToPlatform w)
    (below : projectLive row loaded = true → ∀ polled,
      w.hardware.telemetryLastPolled = some polled → polled ≤ row.collectedAt)
    (same : projectLive row loaded = true →
      loaded.telemetryData = some (platform agentSummaryToPlatform row) →
      w.hardware.telemetryData = loaded.telemetryData) :
    Behind w.hardware (w.publish agentSummaryToPlatform row loaded).hardware ∧
      Latest agentSummaryToPlatform (w.publish agentSummaryToPlatform row loaded) := by
  cases live : projectLive row loaded with
  | true =>
    obtain ⟨data,polled⟩ := flush_project behind (below live) (same live)
    have shown : (w.publish agentSummaryToPlatform row loaded).hardware =
        Hardware.flush loaded (loaded.project agentSummaryToPlatform row) w.hardware := by
      simp only [World.publish,live,if_true]
    refine ⟨fun t ht => ⟨_,by rw [shown]; exact polled,below live t ht⟩,.inr ⟨row,?_,?_,?_,?_⟩⟩
    · exact mem_append_right _ (mem_singleton_self row)
    · rw [shown]
      exact data
    · rw [shown]
      exact polled
    · intro other ho
      rcases mem_append.mp ho with ho | ho
      · obtain ⟨empty,_⟩ | ⟨top,_,_,ht,greatest⟩ := latest
        · rw [empty] at ho
          cases ho
        · exact Int.le_trans (greatest other ho) (below live _ ht)
      · exact Int.le_of_eq (congrArg (·.1) (mem_singleton.mp ho))
  | false =>
    have shown : (w.publish agentSummaryToPlatform row loaded).hardware = w.hardware := by
      simp [World.publish,live]
    refine ⟨by rw [shown]; exact .refl _,?_⟩
    -- what was loaded is newer than the sample, and the row has not gone back since
    obtain ⟨t,ht,older⟩ : ∃ t, loaded.telemetryLastPolled = some t ∧ row.collectedAt < t := by
      unfold projectLive at live
      split at live
      · cases live
      case h_2 t ht => exact ⟨t,ht,by simpa using live⟩
    obtain ⟨t',ht',le⟩ := behind t ht
    obtain ⟨_,_,none⟩ | ⟨top,hm,data,polled,greatest⟩ := latest
    · rw [none] at ht'
      cases ht'
    · rw [polled] at ht'
      cases ht'
      refine .inr ⟨top,mem_append_left _ hm,by rw [shown]; exact data,by rw [shown]; exact polled,?_⟩
      intro other ho
      rcases mem_append.mp ho with ho | ho
      · exact greatest other ho
      · rw [mem_singleton.mp ho]
        omega

theorem stored_publish {key : Key} :
    (w.publish agentSummaryToPlatform row loaded).stored key = true ↔
      w.stored key = true ∨ row.key = key := by
  simp [World.stored,World.publish]

theorem Sound.commit (h : Sound agentSummaryToPlatform w)
    (hs : w.stage d = .committing row loaded) (hm : Current agentSummaryToPlatform w (.commit d)) :
    Sound agentSummaryToPlatform
      (((w.publish agentSummaryToPlatform row loaded).release d row.key).to d (.done row)) := by
  obtain ⟨held,behind⟩ : Placed w d (.committing row loaded) := hs ▸ h.placed d
  obtain ⟨grown,latest⟩ := publish_hardware behind h.latest (fun live => (hm row loaded hs live).1)
    (fun live => (hm row loaded hs live).2)
  have new := h.fresh row.key d held
  have kept : ∀ key, w.stored key = true →
      (w.publish agentSummaryToPlatform row loaded).stored key = true :=
    fun _ hk => stored_publish.mpr (.inl hk)
  refine ⟨?_,?_,?_,?_,?_,latest⟩
  · intro e
    change Placed ((w.publish agentSummaryToPlatform row loaded).release d row.key) e
      (update w.stage d (.done row) e)
    by_cases he : e = d
    · subst he
      rw [update_self]
      change (w.publish agentSummaryToPlatform row loaded).stored row.key = true
      exact stored_publish.mpr (.inr rfl)
    · rw [update_of_ne he]
      exact (h.placed e).mono kept (fun _ hi => release_inserter_other he hi) grown
  · intro k e hi
    obtain ⟨hi,ne⟩ := release_inserter_of hi
    change (w.publish agentSummaryToPlatform row loaded).stored k = false
    rw [Bool.eq_false_iff]
    intro stored
    rcases stored_publish.mp stored with stored | eq
    · rw [h.fresh k e hi] at stored
      cases stored
    · exact ne held eq.symm
  · change ((w.samples ++ [row]).map AgentHostSample.key).Nodup
    rw [map_append,nodup_append]
    refine ⟨h.nodup,nodup_singleton _,fun a ha b hb eq => ?_⟩
    obtain ⟨r,hr,rfl⟩ := mem_map.mp ha
    have stored : w.stored row.key = true :=
      World.stored_iff.mpr ⟨r,hr,eq.trans (mem_singleton.mp hb)⟩
    rw [new] at stored
    cases stored
  · change w.metrics ++ [_] = (w.samples ++ [row]).map _
    rw [h.derived,map_append]
    rfl
  · intro r hr
    rcases mem_append.mp hr with hr | hr
    · obtain ⟨e,r',he,hk⟩ := h.only r hr
      have ne : e ≠ d := fun eq => by
        rw [eq,hs] at he
        cases he
      exact ⟨e,r',(update_of_ne ne _ _).trans he,hk⟩
    · rw [mem_singleton.mp hr]
      exact ⟨d,row,update_self ..,rfl⟩

theorem Sound.step {act : Act E} (h : Sound agentSummaryToPlatform w)
    (hm : Current agentSummaryToPlatform w act) (step : Step agentSummaryToPlatform w act w') :
    Sound agentSummaryToPlatform w' := by
  unfold Step at step
  -- a delivery whose stage is known has not returned
  have before : ∀ {e : Nat} {stage : Stage E D}, w.stage e = stage →
      (∀ r, stage ≠ .done r) → ∀ r, w.stage e ≠ .done r := fun eq h r => eq ▸ h r
  cases act with simp only [next] at step
  | deliver e size payload collectedAt now =>
    split at step
    case h_1 hs =>
      split at step
      · cases step
        exact h.to (before hs (by simp)) trivial
      · cases step
        exact h.to (before hs (by simp)) trivial
    case h_2 => cases step
  | select e | recover e =>
    split at step <;> cases step
    rename_i row hs
    refine h.to (before hs (by simp)) ?_
    split
    case isTrue stored => exact stored
    case isFalse => trivial
  | insert e =>
    split at step
    case h_1 row hs =>
      split at step
      case isTrue stored =>
        cases step
        exact h.to (before hs (by simp)) stored
      case isFalse new =>
        split at step <;> cases step
        rename_i free
        exact h.insert hs (by simpa using new) (by simpa using free)
    case h_2 => cases step
  | read e =>
    split at step <;> cases step
    rename_i row hs
    have placed : Placed w e (.reading row) := hs ▸ h.placed e
    exact h.to (before hs (by simp)) ⟨placed,.refl _⟩
  | flush e =>
    split at step
    case h_1 row loaded hs =>
      have placed : Placed w e (.flushing row loaded) := hs ▸ h.placed e
      split at step
      · cases step
        exact h.leave (before hs (by simp)) fun _ => trivial
      · split at step
        · split at step <;> cases step
          have held : Sound agentSummaryToPlatform {w with updater := some e} :=
            ⟨h.placed,h.fresh,h.nodup,h.derived,h.only,h.latest⟩
          exact held.to (before hs (by simp)) placed
        · cases step
          exact h.to (before hs (by simp)) placed
    case h_2 => cases step
  | commit e =>
    split at step <;> cases step
    rename_i row loaded hs
    exact h.commit hs hm
  | abort e =>
    split at step
    case h_7 => cases step
    all_goals
      cases step
      exact h.leave (before (by assumption) (by simp)) fun _ => trivial

/-- While no delivery overwrites what it has not seen, a sample is stored once and measured once
however often it is delivered, and the hardware row shows the newest stored sample. -/
theorem ingest_sound {es : List (Act E)}
    (run : Run (Guarded (Step agentSummaryToPlatform) (Current agentSummaryToPlatform)) {} es w) :
    Ingested agentSummaryToPlatform w :=
  (run.invariant (fun _ _ _ h hs => h.step hs.1 hs.2) sound_start).ingested

end Proofs

/-! One sample at a time, and two that overlap. The data shown is the sample's first value. -/

def firstValue : List (String × Number) → List Unit → Option ℚ
  | (_,.finite value) :: _,_ => some value
  | _,_ => none

def reading (cpu : ℚ) : HostTelemetryPayload Unit where
  schemaVersion := 1
  sampleId := "00000000000000000000000000000000"
  status := "healthy"
  summary := [("cpu_pct",.finite cpu)]
  filesystems := []
  disks := []
  interfaces := []
  temperatures := []

theorem Step.of {w w' : World Unit (Option ℚ)} (act : Act Unit)
    (h : next firstValue w act = some w') : Step firstValue w act w' := h

theorem ingest_sound_once : ∃ es w,
    Run (Guarded (Step firstValue) (Current firstValue)) ({} : World Unit (Option ℚ)) es w ∧
      w.stage 0 = .done ⟨10,reading 1⟩ ∧ Ingested firstValue w := by
  have start : Run (Guarded (Step firstValue) (Current firstValue)) {} [] {} := .nil _
  have run := ((((start.also
    (.of (.deliver 0 100 (reading 1) 10 10) rfl) trivial).also
    (.of (.select 0) rfl) trivial).also
    (.of (.insert 0) rfl) trivial).also
    (.of (.read 0) rfl) trivial).also
    (.of (.flush 0) rfl) trivial
  have last := run.also (.of (.commit 0) rfl) (by
    intro row loaded hs _
    cases hs
    exact ⟨nofun,nofun⟩)
  exact ⟨_,_,last,rfl,ingest_sound last⟩

/-- The older sample loads the hardware row before the newer one commits and writes it after. -/
theorem projection_goes_back : ∃ es w,
    Run (Step firstValue) ({} : World Unit (Option ℚ)) es w ∧ ¬ Latest firstValue w := by
  have start : Run (Step firstValue) {} [] {} := .nil _
  have run := ((((((((((((start.snoc
    (.of (.deliver 0 100 (reading 1) 10 20) rfl)).snoc
    (.of (.deliver 1 100 (reading 2) 20 20) rfl)).snoc
    (.of (.select 0) rfl)).snoc
    (.of (.insert 0) rfl)).snoc
    (.of (.read 0) rfl)).snoc
    (.of (.select 1) rfl)).snoc
    (.of (.insert 1) rfl)).snoc
    (.of (.read 1) rfl)).snoc
    (.of (.flush 1) rfl)).snoc
    (.of (.commit 1) rfl)).snoc
    (.of (.flush 0) rfl)).snoc
    (.of (.commit 0) rfl))
  refine ⟨_,_,run,?_⟩
  rintro (⟨empty,_⟩ | ⟨row,_,_,polled,greatest⟩)
  · cases empty
  · have older : row.collectedAt = 10 := (Option.some.inj polled).symm
    have newer : (20 : Int) ≤ row.collectedAt := greatest ⟨20,reading 2⟩ (.head _)
    omega

end CircuitBreaker.HostTelemetry
