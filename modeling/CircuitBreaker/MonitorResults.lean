import CircuitBreaker.ProbeRuns
import CircuitBreaker.VaultKey
import Mathlib.Algebra.Field.Rat
import Mathlib.Data.List.Chain

/-! The one path from a check's outcome to its monitor (services/monitoring/result_service.py
with state.py and proxmox_override.py): a batch of results becomes samples, states, events
and closed runs in one transaction, and only then the alerts are published. Next to it the
operator's changes of a monitor (monitor_service.py). -/

namespace CircuitBreaker.MonitorResults
open StepRuns List Function
open ProbeRuns (RunStatus Outcome MonitorProbeRun MonitorStatus EventType MonitorEvent
  ExecutionStatus MonitorItem Notify upTo)

/-- A JSON value: what an agent's details and a monitor's configuration hold. -/
inductive Value where
  | null
  | bool (b : Bool)
  | num (n : ℚ)
  | str (s : String)
  | arr (values : List Value)
  | obj (fields : List (String × Value))

structure Sample where
  metric : String
  value : ℚ
  errorReason : Option String := none

structure MonitorResult where
  itemId : Nat
  targetType : Option String
  targetId : Option Nat
  checkType : Option String
  samples : List Sample
  up : Bool
  msg : String
  checkedAt : Nat
  outcome : Outcome := .completed
  details : Option (List (String × Value)) := none
  runId : Option String := none
  executionReason : Option String := none

/-- A row of `monitor_items`. -/
structure Monitor extends MonitorItem where
  name : String
  targetType : Option String
  targetId : Option Nat
  checkType : String
  params : Value
  enabled : Bool := true

structure Event extends MonitorEvent where
  itemId : Nat
  durationSecs : Option Int := none

structure ProbeRun extends MonitorProbeRun where
  resultMetadata : Option Value := none

structure SampleRow where
  itemId : Nat
  entityType : String
  entityId : Nat
  metric : String
  value : ℚ
  ts : Nat

structure Hardware where
  proxmoxNodeName : Option String
  telemetryLastPolled : Option Nat
  telemetryStatus : Option String

structure ComputeUnit where
  proxmoxVmid : Option Nat
  telemetryLastPolled : Option Nat
  kind : String
  status : Option String

/-- A completed result that reached its monitor: the limit in force, and the alert it led to. -/
structure Check where
  up : Bool
  limit : Nat
  alert : Option Notify

/-- The tables. `checks` are every monitor's completed results, kept for the statements and
read by nothing. -/
structure Db where
  monitors : Nat → Option Monitor
  events : List Event
  samples : List SampleRow
  runs : String → Option ProbeRun
  hardware : Nat → Option Hardware
  computeUnits : Nat → Option ComputeUnit
  checks : Nat → List Check

def Db.setMonitor (db : Db) (id : Nat) (monitor : Monitor) : Db :=
  {db with monitors := update db.monitors id (some monitor)}

def Db.setRun (db : Db) (id : String) (run : ProbeRun) : Db :=
  {db with runs := update db.runs id (some run)}

/-! The hypervisor's word. -/

def freshnessWindow : Nat := 300

def nonLiveStatuses : List String := ["unknown","unreachable","error","unconfigured"]

def isFresh (polled : Option Nat) (now : Nat) : Bool :=
  polled.any fun time => now ≤ time+freshnessWindow

/-- Whether the target runs, where its hypervisor was heard lately, and what to call it. -/
def proxmoxOpinion (db : Db) (now : Nat) (targetType : Option String) (targetId : Option Nat) :
    Option Bool × String :=
  match targetId with
  | none => (none,"")
  | some id =>
    if targetType = some "hardware" then
      match db.hardware id with
      | none => (none,"node")
      | some hw =>
        if hw.proxmoxNodeName.any (· ≠ "") && isFresh hw.telemetryLastPolled now &&
            hw.telemetryStatus.all (· ∉ nonLiveStatuses) then (some true,"node")
        else (none,"node")
    else if targetType = some "compute_unit" then
      match db.computeUnits id with
      | none => (none,"")
      | some cu =>
        if cu.proxmoxVmid.isSome && isFresh cu.telemetryLastPolled now then
          (some (cu.status = some "active"),if cu.kind = "vm" then "VM" else "container")
        else (none,"")
    else (none,"")

def overrideNote (label : String) (up : Bool) : String :=
  " (overridden: Proxmox reports " ++ label ++ " " ++ (if up then "running" else "stopped") ++ ")"

/-- `_apply_one`: the item it looks at is the last of the batch with the result's id. -/
def applyOne (db : Db) (now : Nat) (batch : List MonitorResult) (r : MonitorResult) :
    MonitorResult :=
  match batch.reverse.find? (·.itemId = r.itemId) with
  | none => r
  | some item =>
    if item.checkType = some "icmp" ∨ item.checkType = some "tcp" then
      match proxmoxOpinion db now item.targetType item.targetId with
      | (none,_) => r
      | (some up,label) =>
        if up = r.up then r
        else {r with
          up := up
          msg := String.ofList (Vault.strip (r.msg++overrideNote label up).toList)
          samples := r.samples.map fun s =>
            if s.metric = "avail" then ⟨"avail",if up then 1 else 0,none⟩ else s
          executionReason := none}
    else r

/-- `_apply_proxmox_overrides`, over the completed results of a batch and no others. -/
def applyProxmoxOverrides (db : Db) (now : Nat) (results : List MonitorResult) :
    List MonitorResult :=
  let completed := results.filter (·.outcome = .completed)
  results.map fun r => if r.outcome = .completed then applyOne db now completed r else r

/-! The monitor's state. -/

structure AppliedTransition where
  itemId : Nat
  name : String
  statusFrom : Option MonitorStatus
  statusTo : MonitorStatus
  msg : String
  notify : Option Notify
  occurredAt : Nat

/-- `apply_result`: the state machine on the locked row, with an event on every transition. -/
def applyResult (db : Db) (itemId : Nat) (up : Bool) (msg : String) (checkedAt : Nat) :
    Db × Option AppliedTransition :=
  match db.monitors itemId with
  | none => (db,none)
  | some monitor =>
    let moved := ProbeRuns.applyResult monitor.toMonitorItem up checkedAt
    let check : Check := ⟨up,monitor.maxRetries,moved.2.bind (·.2.notify)⟩
    let saved : Db := {db.setMonitor itemId {monitor with toMonitorItem := moved.1} with
      checks := update db.checks itemId (db.checks itemId++[check])}
    match moved.2 with
    | none => (saved,none)
    | some (eventType,t) =>
      let event : Event := {
        itemId := itemId
        eventType := eventType
        statusFrom := t.statusFrom
        statusTo := t.statusTo
        msg := upTo 2000 msg
        durationSecs := monitor.lastStatusChangeAt.map fun since : Nat => (checkedAt : Int)-since}
      ({saved with events := saved.events++[event]},
        some ⟨itemId,monitor.name,t.statusFrom,t.statusTo,msg,t.notify,checkedAt⟩)

/-! The run a result answers. -/

def Sample.errorEntry (s : Sample) : Option Value :=
  match s.errorReason with
  | none | some "" => none
  | some reason => some (.obj [("metric",.str s.metric),("error_reason",.str reason)])

/-- `_result_metadata`: the details, and why single samples are missing. -/
def resultMetadata (result : MonitorResult) : Option Value :=
  let details := match result.details with
    | none | some [] => []
    | some fields => [("details",Value.obj fields)]
  let errorReasons := result.samples.filterMap Sample.errorEntry
  let metadata := details++if errorReasons = [] then [] else [("error_reasons",.arr errorReasons)]
  if metadata = [] then none else some (.obj metadata)

/-- `_complete_run`, a no-op for a check of the server's own. -/
def completeRun (db : Db) (result : MonitorResult) : Db :=
  match result.runId with
  | none => db
  | some id =>
    match db.runs id with
    | none => db
    | some run =>
      let closed := db.setRun id {run with
        status := .completed
        outcome := some result.outcome
        completedAt := some result.checkedAt
        msg := some (upTo 2000 result.msg)
        resultMetadata := resultMetadata result}
      match db.monitors result.itemId with
      | none => closed
      | some monitor => closed.setMonitor result.itemId {monitor with
          probeLastResultAt := some result.checkedAt
          probeExecutionStatus := some .ready
          probeExecutionReason := none}

/-- `_close_failed_run`: the lease an execution error answers. -/
def closeFailedRun (db : Db) (result : MonitorResult) (reason : String) : Db :=
  match result.runId with
  | none => db
  | some id =>
    match db.runs id with
    | none => db
    | some run => db.setRun id {run with
        status := .executionError
        outcome := some result.outcome
        errorCode := some (upTo 64 reason)
        completedAt := some result.checkedAt
        msg := ProbeRuns.auditMsg result.msg
        resultMetadata := resultMetadata result}

def alreadyReported (db : Db) (id : Nat) (reason : String) : Bool :=
  (db.events.filter (·.itemId = id)).getLast?.any fun event =>
    event.eventType = .execution ∧ event.msg = reason

/-- `_record_execution_event`: one event per change of reason, remembered by the latest event. -/
def recordExecutionEvent (db : Db) (id : Nat) (monitor : Monitor) (reason : Option String) : Db :=
  match reason with
  | none => db
  | some reason =>
    if alreadyReported db id reason then db
    else {db with events := db.events++[{
      itemId := id
      eventType := .execution
      statusFrom := monitor.lastStatus
      statusTo := monitor.lastStatus.getD .pending
      msg := reason}]}

/-- `reason[:128] if reason else None`. -/
def trimReason : Option String → Option String
  | none | some "" => none
  | some reason => some (upTo 128 reason)

inductive LiveStatus where
  | checked (monitorId : Nat) (up : Bool) (msg : String) (ts : Nat)
  | condition (monitorId : Nat) (status : ExecutionStatus) (reason : Option String) (ts : Nat)

/-- `record_execution_condition`: the vantage's condition moves, the target's state does not. -/
def recordExecutionCondition (db : Db) (id : Nat) (status : ExecutionStatus)
    (reason : Option String) (occurredAt : Nat) : Db × Option LiveStatus :=
  match db.monitors id with
  | none => (db,none)
  | some monitor =>
    let trimmed := trimReason reason
    ((recordExecutionEvent db id monitor trimmed).setMonitor id {monitor with
        probeExecutionStatus := some status
        probeExecutionReason := trimmed},
      some (.condition id status trimmed occurredAt))

def Outcome.word : Outcome → String
  | .completed => "completed"
  | .executionError => "execution_error"
  | .cancelled => "cancelled"
  | .rejected => "rejected"

/-- `execution_reason or outcome`. -/
def MonitorResult.reason (result : MonitorResult) : String :=
  match result.executionReason with
  | none | some "" => Outcome.word result.outcome
  | some reason => reason

def applyExecutionError (db : Db) (result : MonitorResult) : Db × Option LiveStatus :=
  recordExecutionCondition (closeFailedRun db result result.reason) result.itemId .unavailable
    (some result.reason) result.checkedAt

structure PersistedResults where
  db : Db
  written : Nat
  transitions : List AppliedTransition
  liveStatus : List LiveStatus

/-- `write_samples`. -/
def sampleRows (result : MonitorResult) : List SampleRow :=
  result.samples.map fun s => {
    itemId := result.itemId
    entityType := match result.targetType with
      | none | some "" => "monitor"
      | some targetType => targetType
    entityId := result.targetId.getD 0
    metric := s.metric
    value := s.value
    ts := result.checkedAt}

def persistOne (p : PersistedResults) (result : MonitorResult) : PersistedResults :=
  if result.outcome = .completed then
    let applied := applyResult p.db result.itemId result.up result.msg result.checkedAt
    {p with
      db := completeRun applied.1 result
      transitions := p.transitions++applied.2.toList
      liveStatus := p.liveStatus++[.checked result.itemId result.up result.msg result.checkedAt]}
  else
    let inert := applyExecutionError p.db result
    {p with db := inert.1, liveStatus := p.liveStatus++inert.2.toList}

/-- `persist_results`: samples, states, events and runs of a batch, in one transaction. -/
def persistResults (db : Db) (now : Nat) (results : List MonitorResult) : PersistedResults :=
  let results := applyProxmoxOverrides db now results
  let rows := (results.filter (·.outcome = .completed)).flatMap sampleRows
  results.foldl persistOne ⟨{db with samples := db.samples++rows},rows.length,[],[]⟩

def MonitorStatus.word : MonitorStatus → String
  | .up => "up"
  | .down => "down"
  | .pending => "pending"
  | .maintenance => "maintenance"

/-- A published alert, with the payload of `monitor_alert_payload`. -/
structure Alert where
  kind : Notify
  itemId : Nat
  title : String
  message : String
  severity : String
  name : String
  status : MonitorStatus
  occurredAt : Nat

def AppliedTransition.alert (t : AppliedTransition) : Option Alert :=
  t.notify.map fun kind => {
    kind := kind
    itemId := t.itemId
    title := "Monitor " ++ t.name ++ " is " ++ (MonitorStatus.word t.statusTo).toUpper
    message := t.msg
    severity := if t.statusTo = .down then "critical" else "info"
    name := t.name
    status := t.statusTo
    occurredAt := t.occurredAt}

structure World where
  db : Db
  alerts : List Alert

/-- `process_results`: nothing is published of a batch that was rolled back. -/
def processResults (w : World) (now : Nat) (results : List MonitorResult) (commits : Bool) : World :=
  if commits then
    let persisted := persistResults w.db now results
    ⟨persisted.db,w.alerts++persisted.transitions.filterMap (·.alert)⟩
  else w

/-! The operator's changes. -/

/-- `cancel_monitor_probe_runs` for one monitor. -/
def cancelMonitorProbeRuns (db : Db) (id : Nat) (reason : String) (now : Nat) : Db :=
  {db with runs := fun run => (db.runs run).map fun row =>
    if row.monitorId = id ∧ row.status.isOpen then {row with
      status := .cancelled
      errorCode := some (upTo 64 reason)
      completedAt := some now}
    else row}

def setPaused (db : Db) (id : Nat) (paused : Bool) (now : Nat) : Db :=
  match db.monitors id with
  | none => db
  | some monitor =>
    let moved := {monitor with
      enabled := !paused
      nextDueAt := if paused then monitor.nextDueAt else some now}
    let cancelled :=
      if paused then cancelMonitorProbeRuns db id "monitor_paused" now else db
    {cancelled.setMonitor id moved with
      events := db.events++[{
        itemId := id
        eventType := if paused then .paused else .resumed
        statusFrom := monitor.lastStatus
        statusTo := monitor.lastStatus.getD .pending
        msg := if paused then "paused by user" else "resumed by user"}]}

/-- The fields a request set; an explicit null is `some none`. -/
structure MonitorUpdate where
  name : Option (Option String) := none
  params : Option Value := none
  intervalSecs : Option (Option Nat) := none
  maxRetries : Option (Option Nat) := none
  retryIntervalSecs : Option (Option Nat) := none
  enabled : Option (Option Bool) := none
  targetType : Option (Option String) := none
  targetId : Option (Option Nat) := none
  probeAgentId : Option (Option Nat) := none

def MonitorUpdate.refused (u : MonitorUpdate) : Bool :=
  u.name = some none || u.intervalSecs = some none || u.maxRetries = some none ||
    u.enabled = some none

def MonitorUpdate.reassigns (u : MonitorUpdate) (monitor : Monitor) : Bool :=
  u.probeAgentId.any (· ≠ monitor.probeAgentId)

def MonitorUpdate.apply (u : MonitorUpdate) (monitor : Monitor) : Monitor :=
  let moved := if u.reassigns monitor then {monitor with
      probeAgentId := u.probeAgentId.getD monitor.probeAgentId
      probeExecutionStatus := none
      probeExecutionReason := none}
    else monitor
  {moved with
    name := (u.name.bind id).getD monitor.name
    params := u.params.getD monitor.params
    intervalSecs := (u.intervalSecs.bind id).getD monitor.intervalSecs
    maxRetries := (u.maxRetries.bind id).getD monitor.maxRetries
    retryIntervalSecs := u.retryIntervalSecs.getD monitor.retryIntervalSecs
    enabled := (u.enabled.bind id).getD monitor.enabled
    targetType := u.targetType.getD monitor.targetType
    targetId := u.targetId.getD monitor.targetId}

/-- `update_monitor`; `assignable` is what `validate_probe_assignment` says of a new vantage. -/
def updateMonitor (db : Db) (id : Nat) (u : MonitorUpdate) (assignable : Bool) (now : Nat) : Db :=
  match db.monitors id with
  | none => db
  | some monitor =>
    if u.reassigns monitor && !assignable || u.refused then db
    else
      let cancelled := if u.reassigns monitor then
          cancelMonitorProbeRuns db id "monitor_reassigned" now else db
      cancelled.setMonitor id (u.apply monitor)

inductive Act where
  | processResults (now : Nat) (results : List MonitorResult) (commits : Bool)
  | recordExecutionCondition (id : Nat) (status : ExecutionStatus) (reason : Option String)
      (now : Nat)
  | setPaused (id : Nat) (paused : Bool) (now : Nat)
  | updateMonitor (id : Nat) (update : MonitorUpdate) (assignable : Bool) (now : Nat)

def next (w : World) : Act → World
  | .processResults now results commits => processResults w now results commits
  | .recordExecutionCondition id status reason now =>
    {w with db := (recordExecutionCondition w.db id status reason now).1}
  | .setPaused id paused now => {w with db := setPaused w.db id paused now}
  | .updateMonitor id update assignable now =>
    {w with db := updateMonitor w.db id update assignable now}

def Step (w : World) (act : Act) (w' : World) : Prop := next w act = w'

/-! What the results of one monitor call for. -/

/-- The consecutive failing results at the end, `before` of them older than the list. -/
def failures (before : Nat) (checks : List Check) : Nat :=
  checks.foldl (fun n c => if c.up then 0 else n+1) before

def outage (checks : List Check) : Bool :=
  checks.foldl (fun o c => !c.up && (o || c.alert = some .down)) false

/-- The alert of one result is the one the results before it call for. -/
structure Called (before : Nat) (earlier : List Check) (c : Check) : Prop where
  down : c.alert = some .down ↔
    c.up = false ∧ c.limit < failures before (earlier++[c]) ∧ outage earlier = false
  recovered : c.alert = some .recovered ↔ c.up = true ∧ outage earlier = true

def Lawful (before : Nat) (checks : List Check) : Prop :=
  ∀ earlier c later, checks = earlier++c::later → Called before earlier c

@[simp] theorem failures_snoc (before : Nat) (checks : List Check) (c : Check) :
    failures before (checks++[c]) = if c.up then 0 else failures before checks+1 := by
  simp [failures]

@[simp] theorem outage_snoc (checks : List Check) (c : Check) :
    outage (checks++[c]) = (!c.up && (outage checks || c.alert = some .down)) := by
  simp [outage]

theorem Lawful.nil (before : Nat) : Lawful before [] := by
  intro earlier c later h
  simp at h

theorem Lawful.snoc {before : Nat} {checks : List Check} {c : Check} (h : Lawful before checks)
    (hc : Called before checks c) : Lawful before (checks++[c]) := by
  intro earlier d later eq
  rcases eq_nil_or_concat' later with rfl | ⟨rest,x,rfl⟩
  · obtain ⟨rfl,same⟩ := append_inj' eq rfl
    cases same
    exact hc
  · have eq' : checks++[c] = (earlier++d::rest)++[x] := by simpa using eq
    exact h earlier d rest (append_inj' eq' rfl).1

theorem Lawful.init {before : Nat} {checks : List Check} {c : Check}
    (h : Lawful before (checks++[c])) : Lawful before checks ∧ Called before checks c := by
  refine ⟨fun earlier d later eq => h earlier d (later++[c]) ?_,h checks c [] rfl⟩
  rw [eq]
  simp

def TakeTurns (kinds : List Notify) : Prop :=
  kinds.IsChain (· ≠ ·) ∧ kinds.head? ≠ some .recovered

theorem TakeTurns.snoc {kinds : List Notify} {kind : Notify} (h : TakeTurns kinds)
    (turn : kinds.getLast? = some .down ↔ kind = .recovered) : TakeTurns (kinds++[kind]) := by
  refine ⟨isChain_append.mpr ⟨h.1,.singleton _,?_⟩,?_⟩
  · intro x hx y hy
    cases (by simpa using hy : kind = y)
    cases x <;> cases kind <;> simp_all
  · cases kinds with
    | nil => cases kind <;> simp_all
    | cons first rest => exact h.2

theorem Lawful.alternate {before : Nat} {checks : List Check} (h : Lawful before checks) :
    TakeTurns (checks.filterMap (·.alert)) ∧
      ((checks.filterMap (·.alert)).getLast? = some .down ↔ outage checks = true) := by
  induction checks using List.reverseRecOn with
  | nil => simp [TakeTurns,outage]
  | append_singleton checks c ih =>
    obtain ⟨hl,hc⟩ := h.init
    obtain ⟨turns,last⟩ := ih hl
    cases ha : c.alert with
    | none =>
      have hd := hc.down
      have hr := hc.recovered
      simp only [ha,filterMap_append,filterMap_cons,filterMap_nil,
        append_nil,outage_snoc]
      refine ⟨turns,last.trans ?_⟩
      simp only [ha] at hr
      cases hu : c.up <;> simp_all
    | some kind =>
      simp only [ha,filterMap_append,filterMap_cons,filterMap_nil,outage_snoc]
      have hd := hc.down
      have hr := hc.recovered
      rw [ha] at hd hr
      cases kind with
      | down =>
        obtain ⟨hu,-,ho⟩ := hd.mp rfl
        exact ⟨turns.snoc (by rw [last,ho]; simp),by simp [hu]⟩
      | recovered =>
        obtain ⟨hu,ho⟩ := hr.mp rfl
        exact ⟨turns.snoc (by rw [last,ho]; simp),by simp [hu]⟩

/-! What the other writers leave alone. -/

def Event.alert (event : Event) : Option (Nat × Notify × String) :=
  match event.eventType with
  | .down => some (event.itemId,.down,event.msg)
  | .up => if event.statusFrom = some .down then some (event.itemId,.recovered,event.msg) else none
  | _ => none

def Alert.key (a : Alert) : Nat × Notify × String := (a.itemId,a.kind,upTo 2000 a.message)

def Monitor.vitals (monitor : Monitor) : Option MonitorStatus × Nat :=
  (monitor.lastStatus,monitor.consecutiveFailures)

structure Inert (db db' : Db) : Prop where
  vitals : ∀ id, (db'.monitors id).map Monitor.vitals = (db.monitors id).map Monitor.vitals
  checks : db'.checks = db.checks
  events : ∃ added, db'.events = db.events++added ∧ added.filterMap Event.alert = []

theorem Inert.refl (db : Db) : Inert db db :=
  ⟨fun _ => rfl,rfl,[],by simp,rfl⟩

theorem Inert.trans {db₁ db₂ db₃ : Db} (h : Inert db₁ db₂) (h' : Inert db₂ db₃) :
    Inert db₁ db₃ := by
  obtain ⟨first,eq,none₁⟩ := h.events
  obtain ⟨second,eq',none₂⟩ := h'.events
  refine ⟨fun id => (h'.vitals id).trans (h.vitals id),h'.checks.trans h.checks,first++second,?_,?_⟩
  · rw [eq',eq,append_assoc]
  · rw [filterMap_append,none₁,none₂]
    rfl

variable {id : Nat}

theorem Inert.setMonitor {db db' : Db} (h : Inert db db') {monitor monitor' : Monitor}
    (hm : db.monitors id = some monitor) (same : monitor'.vitals = monitor.vitals) :
    Inert db (db'.setMonitor id monitor') where
  vitals other := by
    by_cases eq : other = id
    · subst eq
      simp [Db.setMonitor,hm,same]
    · simpa [Db.setMonitor,eq] using h.vitals other
  checks := h.checks
  events := h.events

theorem Inert.setRun (db : Db) (id : String) (run : ProbeRun) : Inert db (db.setRun id run) :=
  ⟨fun _ => rfl,rfl,[],by simp [Db.setRun],rfl⟩

theorem completeRun_inert (db : Db) (result : MonitorResult) : Inert db (completeRun db result) := by
  unfold completeRun
  cases result.runId with
  | none => exact .refl db
  | some id =>
    dsimp only
    cases db.runs id with
    | none => exact .refl db
    | some run =>
      dsimp only
      cases hm : db.monitors result.itemId with
      | none => exact .setRun db id _
      | some monitor => exact (Inert.setRun db id _).setMonitor hm rfl

theorem closeFailedRun_inert (db : Db) (result : MonitorResult) (reason : String) :
    Inert db (closeFailedRun db result reason) := by
  unfold closeFailedRun
  cases result.runId with
  | none => exact .refl db
  | some id =>
    dsimp only
    cases db.runs id with
    | none => exact .refl db
    | some run => exact .setRun db id _

theorem recordExecutionEvent_inert (db : Db) (id : Nat) (monitor : Monitor)
    (reason : Option String) : Inert db (recordExecutionEvent db id monitor reason) := by
  unfold recordExecutionEvent
  cases reason with
  | none => exact .refl db
  | some reason =>
    dsimp only
    split
    · exact .refl db
    · exact ⟨fun _ => rfl,rfl,_,rfl,rfl⟩

theorem recordExecutionCondition_inert (db : Db) (id : Nat) (status : ExecutionStatus)
    (reason : Option String) (occurredAt : Nat) :
    Inert db (recordExecutionCondition db id status reason occurredAt).1 := by
  unfold recordExecutionCondition
  cases hm : db.monitors id with
  | none => exact .refl db
  | some monitor => exact (recordExecutionEvent_inert db id monitor _).setMonitor hm rfl

theorem applyExecutionError_inert (db : Db) (result : MonitorResult) :
    Inert db (applyExecutionError db result).1 :=
  (closeFailedRun_inert db result result.reason).trans
    (recordExecutionCondition_inert _ result.itemId .unavailable _ result.checkedAt)

theorem cancelMonitorProbeRuns_inert (db : Db) (id : Nat) (reason : String) (now : Nat) :
    Inert db (cancelMonitorProbeRuns db id reason now) :=
  ⟨fun _ => rfl,rfl,[],by simp [cancelMonitorProbeRuns],rfl⟩

theorem setPaused_inert (db : Db) (id : Nat) (paused : Bool) (now : Nat) :
    Inert db (setPaused db id paused now) := by
  unfold setPaused
  cases hm : db.monitors id with
  | none => exact .refl db
  | some monitor =>
    have moved : Inert db ((if paused then cancelMonitorProbeRuns db id "monitor_paused" now
        else db).setMonitor id {monitor with
          enabled := !paused
          nextDueAt := if paused then monitor.nextDueAt else some now}) := by
      refine Inert.setMonitor ?_ hm rfl
      cases paused
      · exact .refl db
      · exact cancelMonitorProbeRuns_inert db id _ now
    refine ⟨moved.vitals,moved.checks,_,rfl,?_⟩
    cases paused <;> rfl

theorem updateMonitor_inert (db : Db) (id : Nat) (u : MonitorUpdate) (assignable : Bool)
    (now : Nat) : Inert db (updateMonitor db id u assignable now) := by
  unfold updateMonitor
  cases hm : db.monitors id with
  | none => exact .refl db
  | some monitor =>
    dsimp only
    split
    · exact .refl db
    · refine Inert.setMonitor ?_ hm ?_
      · split
        · exact cancelMonitorProbeRuns_inert db id _ now
        · exact .refl db
      · unfold MonitorUpdate.apply
        dsimp only
        split <;> rfl

/-! The state machine answers to the results. -/

def Db.before (start : Db) (id : Nat) : Nat :=
  ((start.monitors id).map (·.consecutiveFailures)).getD 0

/-- Rows, results, events and raised alerts agree. `raised` are the alerts raised since the
start, those of the batch under way included. -/
structure Sound (start db : Db) (raised : List (Nat × Notify × String)) : Prop where
  vitals : ∀ id v, (db.monitors id).map Monitor.vitals = some v →
    (v.1 = some .down ↔ outage (db.checks id) = true) ∧
      v.2 = failures (start.before id) (db.checks id)
  lawful : ∀ id, Lawful (start.before id) (db.checks id)
  emitted : ∀ id, (raised.filter (·.1 = id)).map (·.2.1) = (db.checks id).filterMap (·.alert)
  recorded : ∃ added, db.events = start.events++added ∧ added.filterMap Event.alert = raised

variable {start : Db} {raised : List (Nat × Notify × String)}

theorem Sound.inert {db db' : Db}
    (h : Sound start db raised) (hi : Inert db db') : Sound start db' raised := by
  obtain ⟨added,eq,log⟩ := h.recorded
  obtain ⟨more,eq',log'⟩ := hi.events
  refine ⟨fun id v hv => ?_,fun id => ?_,fun id => ?_,added++more,?_,?_⟩
  · rw [hi.checks]
    exact h.vitals id v ((hi.vitals id).symm.trans hv)
  · rw [hi.checks]
    exact h.lawful id
  · rw [hi.checks]
    exact h.emitted id
  · rw [eq',eq,append_assoc]
  · rw [filterMap_append,log,log',append_nil]

theorem decide_called (before : Nat) {earlier : List Check} {status : Option MonitorStatus}
    (hs : status = some .down ↔ outage earlier = true) (up : Bool) (limit : Nat) :
    let d := ProbeRuns.decide status (failures before earlier) up limit
    let c : Check := ⟨up,limit,d.notify⟩
    Called before earlier c ∧
      (some d.newStatus = some .down ↔ outage (earlier++[c]) = true) ∧
      d.retries = failures before (earlier++[c]) := by
  cases ho : outage earlier with
  | true =>
    cases hs.mpr ho
    cases up with
    | true | false =>
      refine ⟨⟨?_,?_⟩,?_,?_⟩ <;> simp [ProbeRuns.decide,ho]
  | false =>
    have other : status ≠ some .down := fun down => by simp [hs.mp down] at ho
    cases up with
    | true =>
      by_cases hu : status = some .up
      · refine ⟨⟨?_,?_⟩,?_,?_⟩ <;> simp [ProbeRuns.decide,hu,ho]
      · refine ⟨⟨?_,?_⟩,?_,?_⟩ <;> simp [ProbeRuns.decide,hu,other,ho]
    | false =>
      by_cases within : failures before earlier+1 ≤ limit
      · have answer : ProbeRuns.decide status (failures before earlier) false limit =
            ⟨.pending,failures before earlier+1,
              if status ≠ some .pending then some .pending else none,none⟩ := by
          simp only [ProbeRuns.decide,Bool.false_eq_true,if_false,if_pos (And.intro other within)]
        rw [answer]
        refine ⟨⟨iff_of_false (by simp) fun called => ?_,by simp⟩,by simp [ho],by simp⟩
        have more : limit < failures before earlier+1 := by
          simpa only [failures_snoc,Bool.false_eq_true,if_false] using called.2.1
        omega
      · have many : limit < failures before earlier+1 := by omega
        refine ⟨⟨?_,?_⟩,?_,?_⟩ <;> simp [ProbeRuns.decide,other,within,many,ho]

theorem decide_logged (status : Option MonitorStatus) (retries : Nat) (up : Bool) (limit : Nat) :
    let d := ProbeRuns.decide status retries up limit
    match d.eventType with
    | none => d.notify = none
    | some eventType => ∀ event : Event, event.eventType = eventType → event.statusFrom = status →
        event.alert = d.notify.map fun kind => (event.itemId,kind,event.msg) := by
  unfold ProbeRuns.decide
  cases up with
  | true =>
    by_cases hu : status = some .up
    · simp [hu]
    · by_cases hd : status = some .down
      · simp +contextual [hd,Event.alert]
      · simp +contextual [hu,hd,Event.alert]
  | false =>
    by_cases hd : status = some .down
    · simp [hd]
    · by_cases within : retries+1 ≤ limit
      · by_cases hp : status = some .pending
        · simp [within,hp]
        · simp +contextual [hd,within,hp,Event.alert]
      · simp +contextual [hd,within,Event.alert]

def AppliedTransition.key (t : AppliedTransition) : Option (Nat × Notify × String) :=
  t.alert.map Alert.key

theorem AppliedTransition.key_eq (t : AppliedTransition) :
    t.key = t.notify.map fun kind => (t.itemId,kind,upTo 2000 t.msg) := by
  unfold key alert
  cases t.notify <;> rfl

theorem Sound.checked {start db db' : Db} {raised : List (Nat × Notify × String)} {id : Nat}
    {monitor monitor' : Monitor} {d : ProbeRuns.StateDecision} (up : Bool) (msg : String)
    (added : List Event) (h : Sound start db raised) (hm : db.monitors id = some monitor)
    (hd : d = ProbeRuns.decide monitor.lastStatus monitor.consecutiveFailures up monitor.maxRetries)
    (hv : monitor'.vitals = (some d.newStatus,d.retries))
    (monitors : db'.monitors = update db.monitors id (some monitor'))
    (checks : db'.checks = update db.checks id
      (db.checks id++[⟨up,monitor.maxRetries,d.notify⟩]))
    (events : db'.events = db.events++added)
    (logged : added.filterMap Event.alert = (d.notify.map fun kind => (id,kind,msg)).toList) :
    Sound start db' (raised++(d.notify.map fun kind => (id,kind,msg)).toList) := by
  obtain ⟨known,count⟩ : (monitor.lastStatus = some .down ↔ outage (db.checks id) = true) ∧
      monitor.consecutiveFailures = failures (start.before id) (db.checks id) :=
    h.vitals id monitor.vitals (by rw [hm]; rfl)
  have hd' : d = ProbeRuns.decide monitor.lastStatus (failures (start.before id) (db.checks id)) up
      monitor.maxRetries := by
    rw [hd,count]
  obtain ⟨called,status,retries⟩ := decide_called (start.before id) known up monitor.maxRetries
  rw [← hd'] at called status retries
  obtain ⟨older,eq,log⟩ := h.recorded
  refine ⟨fun other v hv' => ?_,fun other => ?_,fun other => ?_,older++added,?_,?_⟩
  · rw [monitors] at hv'
    rw [checks]
    by_cases same : other = id
    · subst same
      simp only [update_self,Option.map_some,Option.some.injEq] at hv' ⊢
      rw [← hv',hv]
      exact ⟨status,retries⟩
    · rw [update_of_ne same] at hv' ⊢
      exact h.vitals other v hv'
  · rw [checks]
    by_cases same : other = id
    · subst same
      rw [update_self]
      exact (h.lawful other).snoc called
    · rw [update_of_ne same]
      exact h.lawful other
  · rw [checks,filter_append,map_append,h.emitted other]
    by_cases same : other = id
    · subst same
      rw [update_self,filterMap_append]
      cases d.notify <;> simp
    · rw [update_of_ne same]
      cases d.notify <;> simp [Ne.symm same]
  · rw [events,eq,append_assoc]
  · rw [filterMap_append,log,logged]

theorem item_applyResult (item : MonitorItem) (up : Bool) (checkedAt : Nat) :
    let d := ProbeRuns.decide item.lastStatus item.consecutiveFailures up item.maxRetries
    let moved := ProbeRuns.applyResult item up checkedAt
    (moved.1.lastStatus = some d.newStatus ∧ moved.1.consecutiveFailures = d.retries) ∧
      moved.2 = d.eventType.map fun eventType =>
        (eventType,⟨item.lastStatus,d.newStatus,d.notify,checkedAt⟩) := by
  unfold ProbeRuns.applyResult
  cases h : (ProbeRuns.decide item.lastStatus item.consecutiveFailures up item.maxRetries).eventType
  <;> simp [h]

theorem applyResult_sound {db : Db}
    (h : Sound start db raised) (id : Nat) (up : Bool) (msg : String) (checkedAt : Nat) :
    let applied := applyResult db id up msg checkedAt
    Sound start applied.1 (raised++(applied.2.bind AppliedTransition.key).toList) := by
  unfold applyResult
  cases hm : db.monitors id with
  | none => simpa using h
  | some monitor =>
    have logged := decide_logged monitor.lastStatus monitor.consecutiveFailures up monitor.maxRetries
    obtain ⟨⟨status,retries⟩,moves⟩ := item_applyResult monitor.toMonitorItem up checkedAt
    generalize hd : ProbeRuns.decide monitor.lastStatus monitor.consecutiveFailures up
      monitor.maxRetries = d at logged status retries moves
    dsimp only at logged ⊢
    generalize ProbeRuns.applyResult monitor.toMonitorItem up checkedAt = moved
      at status retries moves ⊢
    obtain ⟨row,transition⟩ := moved
    have vitals : Monitor.vitals {monitor with toMonitorItem := row} =
        (some d.newStatus,d.retries) := by
      rw [← status,← retries]
      rfl
    cases he : d.eventType with rw [he] at logged moves
    | none =>
      obtain rfl : transition = none := moves
      have silent : d.notify = none := logged
      have quiet : ((none : Option AppliedTransition).bind AppliedTransition.key).toList =
          (d.notify.map fun kind => (id,kind,upTo 2000 msg)).toList := by rw [silent]; rfl
      rw [quiet]
      refine h.checked up (upTo 2000 msg) [] hm hd.symm vitals rfl ?_ (append_nil _).symm ?_
      · rw [silent]
        rfl
      · rw [silent]
        rfl
    | some eventType =>
      obtain rfl := moves
      simp only [Option.map_some,Option.bind_some,AppliedTransition.key_eq]
      refine h.checked up (upTo 2000 msg) _ hm hd.symm vitals rfl rfl rfl ?_
      rw [filterMap_cons,logged _ rfl rfl]
      cases d.notify <;> rfl

variable {p : PersistedResults}

theorem persistOne_sound
    (h : Sound start p.db (raised++p.transitions.filterMap AppliedTransition.key))
    (result : MonitorResult) :
    Sound start (persistOne p result).db
      (raised++(persistOne p result).transitions.filterMap AppliedTransition.key) := by
  unfold persistOne
  split
  · have applied := applyResult_sound h result.itemId result.up result.msg result.checkedAt
    dsimp only at applied ⊢
    rw [filterMap_append,← append_assoc]
    have one (t : Option AppliedTransition) :
        t.toList.filterMap AppliedTransition.key = (t.bind AppliedTransition.key).toList := by
      cases t with
      | none => rfl
      | some t => cases h : t.key <;> simp [h]
    rw [one]
    exact applied.inert (completeRun_inert _ result)
  · exact h.inert (applyExecutionError_inert p.db result)

theorem foldl_persistOne_sound
    (results : List MonitorResult)
    (h : Sound start p.db (raised++p.transitions.filterMap AppliedTransition.key)) :
    Sound start (results.foldl persistOne p).db
      (raised++(results.foldl persistOne p).transitions.filterMap AppliedTransition.key) := by
  induction results generalizing p with
  | nil => exact h
  | cons result rest ih => exact ih (persistOne_sound h result)

theorem persistResults_sound {db : Db}
    (h : Sound start db raised) (now : Nat) (results : List MonitorResult) :
    Sound start (persistResults db now results).db
      (raised++(persistResults db now results).transitions.filterMap AppliedTransition.key) := by
  refine foldl_persistOne_sound _ ?_
  rw [filterMap_nil,append_nil]
  exact h.inert ⟨fun _ => rfl,rfl,[],(append_nil _).symm,rfl⟩

theorem step_sound (w : World) (act : Act) (w' : World)
    (h : Sound start w.db (w.alerts.map Alert.key)) (hs : Step w act w') :
    Sound start w'.db (w'.alerts.map Alert.key) := by
  subst hs
  cases act with
  | processResults now results commits =>
    cases commits with
    | false => exact h
    | true =>
      have sound := persistResults_sound h now results
      have keys : (persistResults w.db now results).transitions.filterMap AppliedTransition.key =
          ((persistResults w.db now results).transitions.filterMap (·.alert)).map Alert.key := by
        rw [map_filterMap]
        rfl
      rw [keys,← map_append] at sound
      exact sound
  | recordExecutionCondition id status reason now =>
    exact h.inert (recordExecutionCondition_inert w.db id status reason now)
  | setPaused id paused now => exact h.inert (setPaused_inert w.db id paused now)
  | updateMonitor id update assignable now =>
    exact h.inert (updateMonitor_inert w.db id update assignable now)

/-! Which results a monitor hears of. -/

def MonitorResult.speaksOf (result : MonitorResult) (id : Nat) : Bool :=
  result.outcome = .completed && result.itemId = id

def Act.completed (id : Nat) : Act → List MonitorResult
  | .processResults _ results true => results.filter (·.speaksOf id)
  | _ => []

theorem applyOne_speaksOf (db : Db) (now : Nat) (batch : List MonitorResult) (r : MonitorResult)
    (id : Nat) : (applyOne db now batch r).speaksOf id = r.speaksOf id := by
  unfold applyOne
  split
  · rfl
  · split
    · split
      · rfl
      · split
        · rfl
        · rfl
    · rfl

theorem applyProxmoxOverrides_speaksOf (db : Db) (now : Nat) {results : List MonitorResult} (h : results.filter (·.speaksOf id) = []) :
    (applyProxmoxOverrides db now results).filter (·.speaksOf id) = [] := by
  simp only [applyProxmoxOverrides,filter_map,map_eq_nil_iff]
  refine filter_eq_nil_iff.mpr fun r hr => ?_
  have silent := filter_eq_nil_iff.mp h r hr
  dsimp only [comp_apply]
  split
  · rwa [applyOne_speaksOf]
  · exact silent

structure Unmoved (id : Nat) (p p' : PersistedResults) : Prop where
  vitals : (p'.db.monitors id).map Monitor.vitals = (p.db.monitors id).map Monitor.vitals
  checks : p'.db.checks id = p.db.checks id
  transitions : p'.transitions.filter (·.itemId = id) = p.transitions.filter (·.itemId = id)

theorem applyResult_other {itemId : Nat} (ne : id ≠ itemId) (db : Db) (up : Bool) (msg : String)
    (checkedAt : Nat) :
    let applied := applyResult db itemId up msg checkedAt
    applied.1.monitors id = db.monitors id ∧ applied.1.checks id = db.checks id ∧
      applied.2.toList.filter (·.itemId = id) = [] := by
  unfold applyResult
  cases db.monitors itemId with
  | none => exact ⟨rfl,rfl,rfl⟩
  | some monitor =>
    dsimp only
    cases (ProbeRuns.applyResult monitor.toMonitorItem up checkedAt).2 with
    | none => simp [Db.setMonitor,ne]
    | some moved => simp [Db.setMonitor,ne,Ne.symm ne]

theorem persistOne_unmoved {result : MonitorResult} (silent : result.speaksOf id = false)
    (p : PersistedResults) : Unmoved id p (persistOne p result) := by
  unfold persistOne
  split
  case isTrue completed =>
    have ne : id ≠ result.itemId := by
      intro eq
      simp [MonitorResult.speaksOf,completed,eq] at silent
    obtain ⟨monitors,checks,none⟩ :=
      applyResult_other ne p.db result.up result.msg result.checkedAt
    have inert := completeRun_inert
      (applyResult p.db result.itemId result.up result.msg result.checkedAt).1 result
    refine ⟨(inert.vitals id).trans (by rw [monitors]),?_,?_⟩
    · dsimp only
      rw [inert.checks,checks]
    · dsimp only
      rw [filter_append,none,append_nil]
  case isFalse =>
    have inert := applyExecutionError_inert p.db result
    exact ⟨inert.vitals id,by dsimp only; rw [inert.checks],rfl⟩

theorem foldl_persistOne_unmoved {results : List MonitorResult}
    (silent : results.filter (·.speaksOf id) = []) (p : PersistedResults) :
    Unmoved id p (results.foldl persistOne p) := by
  induction results generalizing p with
  | nil => exact ⟨rfl,rfl,rfl⟩
  | cons result rest ih =>
    have all := filter_eq_nil_iff.mp silent
    have first := persistOne_unmoved
      (Bool.eq_false_iff.mpr (all result mem_cons_self)) p
    have others := ih (filter_eq_nil_iff.mpr fun r hr => all r (mem_cons_of_mem _ hr))
      (persistOne p result)
    exact ⟨others.vitals.trans first.vitals,others.checks.trans first.checks,
      others.transitions.trans first.transitions⟩

theorem persistOne_heard (there : (p.db.monitors id).isSome)
    (result : MonitorResult) :
    ((persistOne p result).db.monitors id).isSome ∧
      ((persistOne p result).db.checks id).map (·.up) =
        (p.db.checks id).map (·.up)++([result].filter (·.speaksOf id)).map (·.up) := by
  cases speaks : result.speaksOf id with
  | false =>
    have unmoved := persistOne_unmoved speaks p
    refine ⟨?_,by rw [unmoved.checks]; simp [speaks]⟩
    have same := congrArg Option.isSome unmoved.vitals
    rw [Option.isSome_map,Option.isSome_map] at same
    rw [same,there]
  | true =>
    obtain ⟨completed,rfl⟩ : result.outcome = .completed ∧ result.itemId = id := by
      simpa [MonitorResult.speaksOf] using speaks
    obtain ⟨monitor,hm⟩ := Option.isSome_iff_exists.mp there
    unfold persistOne
    rw [if_pos completed]
    have inert := completeRun_inert
      (applyResult p.db result.itemId result.up result.msg result.checkedAt).1 result
    have same := congrArg Option.isSome (inert.vitals result.itemId)
    rw [Option.isSome_map,Option.isSome_map] at same
    dsimp only
    rw [same,inert.checks]
    unfold applyResult
    rw [hm]
    dsimp only
    cases (ProbeRuns.applyResult monitor.toMonitorItem result.up result.checkedAt).2 with
    | none | some moved => simp [Db.setMonitor,speaks]

theorem foldl_persistOne_heard (results : List MonitorResult)
    (there : (p.db.monitors id).isSome) :
    ((results.foldl persistOne p).db.checks id).map (·.up) =
      (p.db.checks id).map (·.up)++(results.filter (·.speaksOf id)).map (·.up) := by
  induction results generalizing p with
  | nil => simp
  | cons result rest ih =>
    obtain ⟨still,heard⟩ := persistOne_heard there result
    rw [foldl_cons,ih still,heard,append_assoc,← map_append,← filter_append]
    rfl

theorem filter_alert (id : Nat) (transitions : List AppliedTransition) :
    (transitions.filterMap (·.alert)).filter (·.itemId = id) =
      (transitions.filter (·.itemId = id)).filterMap (·.alert) := by
  induction transitions with
  | nil => rfl
  | cons t rest ih =>
    have own : ∀ a, t.alert = some a → a.itemId = t.itemId := by
      intro a ha
      obtain ⟨kind,-,rfl⟩ := Option.map_eq_some_iff.mp ha
      rfl
    rw [filterMap_cons,filter_cons]
    cases ha : t.alert with
    | none => by_cases mine : t.itemId = id <;> simp [ha,ih,mine]
    | some a =>
      have eq := own a ha
      by_cases mine : t.itemId = id <;> simp [ha,ih,eq,mine]

theorem step_unmoved {w w' : World} {act : Act} (hs : Step w act w')
    (silent : act.completed id = []) :
    (w'.db.monitors id).map Monitor.vitals = (w.db.monitors id).map Monitor.vitals ∧
      w'.alerts.filter (·.itemId = id) = w.alerts.filter (·.itemId = id) := by
  subst hs
  cases act with
  | processResults now results commits =>
    cases commits with
    | false => exact ⟨rfl,rfl⟩
    | true =>
      have unmoved := foldl_persistOne_unmoved
        (applyProxmoxOverrides_speaksOf w.db now silent)
        ⟨{w.db with samples := w.db.samples++((applyProxmoxOverrides w.db now results).filter
          (·.outcome = .completed)).flatMap sampleRows},
          (((applyProxmoxOverrides w.db now results).filter
            (·.outcome = .completed)).flatMap sampleRows).length,[],[]⟩
      refine ⟨unmoved.vitals,?_⟩
      change (w.alerts++(persistResults w.db now results).transitions.filterMap (·.alert)).filter
        (·.itemId = id) = _
      rw [filter_append,filter_alert,persistResults,unmoved.transitions]
      simp
  | recordExecutionCondition other status reason now =>
    exact ⟨(recordExecutionCondition_inert w.db other status reason now).vitals id,rfl⟩
  | setPaused other paused now => exact ⟨(setPaused_inert w.db other paused now).vitals id,rfl⟩
  | updateMonitor other update assignable now =>
    exact ⟨(updateMonitor_inert w.db other update assignable now).vitals id,rfl⟩

/-- A start: no monitor has an open outage, and nothing was heard or published yet. -/
structure Start (w : World) : Prop where
  noOutage : ∀ id monitor, w.db.monitors id = some monitor → monitor.lastStatus ≠ some .down
  noChecks : ∀ id, w.db.checks id = []
  noAlerts : w.alerts = []

theorem Start.sound {start : World} (h : Start start) :
    Sound start.db start.db (start.alerts.map Alert.key) := by
  refine ⟨fun id v hv => ?_,fun id => ?_,fun id => ?_,[],(append_nil _).symm,?_⟩
  · obtain ⟨monitor,hm,rfl⟩ := Option.map_eq_some_iff.mp hv
    rw [h.noChecks]
    refine ⟨iff_of_false (h.noOutage id monitor hm) (by simp [outage]),?_⟩
    simp [failures,Db.before,hm,Monitor.vitals]
  · rw [h.noChecks]
    exact .nil _
  · simp [h.noChecks,h.noAlerts]
  · simp [h.noAlerts]

theorem run_sound {start w : World} {acts : List Act} (h : Start start)
    (run : Run Step start acts w) : Sound start.db w.db (w.alerts.map Alert.key) :=
  run.invariant (I := fun w => Sound start.db w.db (w.alerts.map Alert.key))
    (fun w act w' => step_sound w act w') h.sound

structure Alerting (start w : World) (id : Nat) : Prop where
  called : Lawful (start.db.before id) (w.db.checks id)
  emitted : (w.alerts.filter (·.itemId = id)).map (·.kind) =
    (w.db.checks id).filterMap (·.alert)
  turns : TakeTurns ((w.alerts.filter (·.itemId = id)).map (·.kind))
  recorded : ∃ added, w.db.events = start.db.events++added ∧
    added.filterMap Event.alert = w.alerts.map Alert.key
  counted : ∀ monitor, w.db.monitors id = some monitor →
    (monitor.lastStatus = some .down ↔ outage (w.db.checks id) = true) ∧
      monitor.consecutiveFailures = failures (start.db.before id) (w.db.checks id)
  heard : ∀ now results w', (w.db.monitors id).isSome →
    Step w (.processResults now results true) w' → (w'.db.checks id).map (·.up) = (w.db.checks id).map (·.up)++
      ((applyProxmoxOverrides w.db now results).filter (·.speaksOf id)).map (·.up)
  unmoved : ∀ act w', Step w act w' → act.completed id = [] →
    (w'.db.monitors id).map Monitor.vitals = (w.db.monitors id).map Monitor.vitals ∧
      w'.alerts.filter (·.itemId = id) = w.alerts.filter (·.itemId = id)

def oneRetry : World where
  db := {
    monitors := fun id => if id = 7 then some {
      maxRetries := 1, intervalSecs := 60, retryIntervalSecs := none, probeAgentId := none,
      lastStatus := some .pending, name := "gateway", targetType := none, targetId := none,
      checkType := "http", params := .null} else none
    events := []
    samples := []
    runs := fun _ => none
    hardware := fun _ => none
    computeUnits := fun _ => none
    checks := fun _ => []}
  alerts := []

def checkAt (time : Nat) (up : Bool) : MonitorResult :=
  ⟨7,none,none,some "http",[],up,"",time,.completed,none,none,none⟩

end CircuitBreaker.MonitorResults
