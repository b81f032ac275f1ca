import CircuitBreaker.StepRuns
import Mathlib.Logic.Function.Basic

/-! Remote probe runs. A run is the lease behind one check an agent carries out: the
scheduler opens it, the dispatcher hands it to the agent, and a result, its deadline or a
cancellation closes it. Every transaction shows its writes when it commits, so it is a step
for what it reads and one for the commit; in between, others commit. -/

namespace CircuitBreaker.ProbeRuns
open StepRuns Function Option

inductive RunStatus where
  | queued | dispatched | completed | executionError | expired | cancelled
  deriving DecidableEq

/-- The two statuses that still accept a result, and that the partial unique index covers. -/
def RunStatus.isOpen : RunStatus → Bool
  | .queued | .dispatched => true
  | _ => false

inductive Outcome where
  | completed | executionError | cancelled | rejected
  deriving DecidableEq

structure MonitorProbeRun where
  monitorId : Nat
  agentId : Nat
  status : RunStatus
  scheduledAt : Nat
  deadlineAt : Option Nat
  dispatchedAt : Option Nat := none
  startedAt : Option Nat := none
  completedAt : Option Nat := none
  outcome : Option Outcome := none
  errorCode : Option String := none
  msg : Option String := none
  attemptCount : Nat := 0

inductive MonitorStatus where
  | up | down | pending | maintenance
  deriving DecidableEq

inductive EventType where
  | up | down | pending | execution | paused | resumed
  deriving DecidableEq

structure MonitorEvent where
  eventType : EventType
  statusFrom : Option MonitorStatus
  statusTo : MonitorStatus
  msg : String

inductive ExecutionStatus where
  | ready | unavailable | stale | queued | running
  deriving DecidableEq

structure MonitorItem where
  maxRetries : Nat
  intervalSecs : Nat
  retryIntervalSecs : Option Nat
  probeAgentId : Option Nat
  lastStatus : Option MonitorStatus := none
  consecutiveFailures : Nat := 0
  lastPolledAt : Option Nat := none
  lastStatusChangeAt : Option Nat := none
  nextDueAt : Option Nat := none
  probeExecutionStatus : Option ExecutionStatus := none
  probeExecutionReason : Option String := none
  probeLastDispatchedAt : Option Nat := none
  probeLastResultAt : Option Nat := none

/-- A column after a flush: only a value that differs from the one loaded is written. -/
def written {α : Type} [DecidableEq α] (loaded value current : α) : α :=
  if value = loaded then current else value

theorem written_value {α : Type} [DecidableEq α] {loaded value current : α}
    (h : value = loaded → current = value) : written loaded value current = value := by
  unfold written
  split
  case isTrue eq => exact h eq
  case isFalse => rfl

theorem written_cases {α : Type} [DecidableEq α] (loaded value current : α) :
    written loaded value current = current ∨ written loaded value current = value := by
  unfold written
  split
  case isTrue => exact .inl rfl
  case isFalse => exact .inr rfl

def MonitorProbeRun.flush (loaded row current : MonitorProbeRun) : MonitorProbeRun where
  monitorId := current.monitorId
  agentId := current.agentId
  status := written loaded.status row.status current.status
  scheduledAt := current.scheduledAt
  deadlineAt := current.deadlineAt
  dispatchedAt := written loaded.dispatchedAt row.dispatchedAt current.dispatchedAt
  startedAt := written loaded.startedAt row.startedAt current.startedAt
  completedAt := written loaded.completedAt row.completedAt current.completedAt
  outcome := written loaded.outcome row.outcome current.outcome
  errorCode := written loaded.errorCode row.errorCode current.errorCode
  msg := written loaded.msg row.msg current.msg
  attemptCount := written loaded.attemptCount row.attemptCount current.attemptCount

def MonitorItem.flush (loaded item current : MonitorItem) : MonitorItem where
  maxRetries := current.maxRetries
  intervalSecs := current.intervalSecs
  retryIntervalSecs := current.retryIntervalSecs
  probeAgentId := current.probeAgentId
  lastStatus := written loaded.lastStatus item.lastStatus current.lastStatus
  consecutiveFailures :=
    written loaded.consecutiveFailures item.consecutiveFailures current.consecutiveFailures
  lastPolledAt := written loaded.lastPolledAt item.lastPolledAt current.lastPolledAt
  lastStatusChangeAt :=
    written loaded.lastStatusChangeAt item.lastStatusChangeAt current.lastStatusChangeAt
  nextDueAt := written loaded.nextDueAt item.nextDueAt current.nextDueAt
  probeExecutionStatus :=
    written loaded.probeExecutionStatus item.probeExecutionStatus current.probeExecutionStatus
  probeExecutionReason :=
    written loaded.probeExecutionReason item.probeExecutionReason current.probeExecutionReason
  probeLastDispatchedAt :=
    written loaded.probeLastDispatchedAt item.probeLastDispatchedAt current.probeLastDispatchedAt
  probeLastResultAt :=
    written loaded.probeLastResultAt item.probeLastResultAt current.probeLastResultAt

inductive Notify where
  | down | recovered
  deriving DecidableEq

structure StateDecision where
  newStatus : MonitorStatus
  retries : Nat
  eventType : Option EventType
  notify : Option Notify

def decide (prevStatus : Option MonitorStatus) (prevRetries : Nat) (up : Bool) (maxRetries : Nat) :
    StateDecision :=
  if up then
    if prevStatus = some .up then ⟨.up,0,none,none⟩
    else ⟨.up,0,some .up,if prevStatus = some .down then some .recovered else none⟩
  else
    let retries := prevRetries+1
    if prevStatus ≠ some .down ∧ retries ≤ maxRetries then
      ⟨.pending,retries,if prevStatus ≠ some .pending then some .pending else none,none⟩
    else if prevStatus = some .down then ⟨.down,retries,none,none⟩
    else ⟨.down,retries,some .down,some .down⟩

structure AppliedTransition where
  statusFrom : Option MonitorStatus
  statusTo : MonitorStatus
  notify : Option Notify
  occurredAt : Nat

/-- `text[:length]`. -/
def upTo (length : Nat) (text : String) : String := String.ofList (text.toList.take length)

/-- `retry_interval_secs or interval_secs`. -/
def MonitorItem.retryIn (item : MonitorItem) : Nat :=
  match item.retryIntervalSecs with
  | some (secs+1) => secs+1
  | _ => item.intervalSecs

def applyResult (item : MonitorItem) (up : Bool) (checkedAt : Nat) :
    MonitorItem × Option (EventType × AppliedTransition) :=
  let decision := decide item.lastStatus item.consecutiveFailures up item.maxRetries
  let polled := {item with
    lastPolledAt := some checkedAt
    consecutiveFailures := decision.retries
    lastStatus := some decision.newStatus
    nextDueAt :=
      if decision.newStatus = .pending then some (checkedAt+item.retryIn) else item.nextDueAt}
  match decision.eventType with
  | none => (polled,none)
  | some eventType =>
    ({polled with lastStatusChangeAt := some checkedAt},
      some (eventType,⟨item.lastStatus,decision.newStatus,decision.notify,checkedAt⟩))

/-- A `probe.result`, past its schema and with the secrets taken out. -/
structure ProbeResult (Sample : Type) where
  runId : String
  monitorId : Nat
  outcome : Outcome
  samples : List Sample
  up : Bool
  msg : String
  startedAt : Nat
  finishedAt : Nat

inductive Cancellation where
  | paused (monitors : List Nat)
  | reassigned (monitor : Nat) (agent : Option Nat)
  | deleted (monitor : Nat)
  | capabilityDisabled (agent : Nat)
  | agentRevoked (agent : Nat)

def Cancellation.reason : Cancellation → String
  | .paused _ => "monitor_paused"
  | .reassigned _ _ => "monitor_reassigned"
  | .deleted _ => "monitor_deleted"
  | .capabilityDisabled _ => "capability_disabled"
  | .agentRevoked _ => "agent_revoked"

def Cancellation.covers (run : MonitorProbeRun) : Cancellation → Bool
  | .paused monitors => run.monitorId ∈ monitors
  | .reassigned monitor _ | .deleted monitor => run.monitorId = monitor
  | .capabilityDisabled agent | .agentRevoked agent => run.agentId = agent

/-- A transaction that has read and not yet committed, with the rows it loaded. -/
inductive Task (Sample : Type) where
  | idle
  | dispatching (run : String) (row : MonitorProbeRun) (item : MonitorItem)
  | ingesting (result : ProbeResult Sample) (row : MonitorProbeRun) (item : MonitorItem)
  | cancelling (why : Cancellation) (runs : List String)

/-- One check that reached a monitor: who ran it, and what it left there. -/
structure Application (Sample : Type) where
  runId : Option String
  monitorId : Nat
  samples : List Sample
  transition : Option AppliedTransition

/-- The tables, the open transactions, and the runs whose announcement is under way.
`minted` are the tokens used so far, `applied` every check that moved a monitor. -/
structure World (Sample : Type) where
  runs : String → Option MonitorProbeRun
  minted : List String
  monitors : Nat → Option MonitorItem
  events : Nat → List MonitorEvent
  samples : Nat → List (List Sample × Nat)
  tasks : Nat → Task Sample
  publishing : List String
  applied : List (Application Sample)

variable {Sample : Type}

def World.fresh : World Sample :=
  ⟨fun _ => none,[],fun _ => none,fun _ => [],fun _ => [],fun _ => .idle,[],[]⟩

def World.otherOpen (w : World Sample) (monitor : Nat) (run : String) : Bool :=
  w.minted.any fun other => other ≠ run &&
    (w.runs other).any fun row => row.monitorId = monitor && row.status.isOpen

def World.setTask (w : World Sample) (task : Nat) (state : Task Sample) : World Sample :=
  {w with tasks := update w.tasks task state}

def World.setRun (w : World Sample) (run : String) (row : MonitorProbeRun) : World Sample :=
  {w with runs := update w.runs run (some row)}

def World.onMonitor (w : World Sample) (monitor : Nat) (f : MonitorItem → MonitorItem) :
    World Sample :=
  {w with monitors := update w.monitors monitor ((w.monitors monitor).map f)}

/-- The vantage's condition; an event is recorded only when the reason is a new one. -/
def recordExecutionCondition (w : World Sample) (monitor : Nat) (status : ExecutionStatus)
    (reason : String) : World Sample :=
  match w.monitors monitor with
  | none => w
  | some item =>
    let trimmed := upTo 128 reason
    let reported := (w.events monitor).getLast?.any fun latest =>
      latest.eventType = .execution ∧ latest.msg = trimmed
    let event : MonitorEvent :=
      ⟨.execution,item.lastStatus,item.lastStatus.getD .pending,trimmed⟩
    {w with
      monitors := update w.monitors monitor (some {item with
        probeExecutionStatus := some status
        probeExecutionReason := some trimmed})
      events :=
        if reported then w.events
        else update w.events monitor (w.events monitor++[event])}

inductive Delivery where
  | ineligible (reason : String) (detail : Option String)
  | undelivered
  | delivered

def closeUnavailable (w : World Sample) (run : String) (loaded current : MonitorProbeRun)
    (item : MonitorItem) (reason : String) (detail : Option String) (now : Nat) : World Sample :=
  let row := {loaded with
    status := .executionError
    errorCode := some reason
    completedAt := some now
    msg := detail.elim loaded.msg fun text => some (upTo 2000 text)}
  (w.setRun run (loaded.flush row current)).onMonitor current.monitorId (item.flush {item with
    probeExecutionStatus := some .unavailable
    probeExecutionReason := some (upTo 128 reason)})

/-- The end of `dispatch_run`, once the eligibility check and the publication have answered.
The unique index turns back a run that another one has replaced. -/
def commitDispatch (w : World Sample) (run : String) (loaded current : MonitorProbeRun)
    (item : MonitorItem) (answer : Delivery) (now : Nat) : World Sample :=
  match answer with
  | .ineligible reason detail => closeUnavailable w run loaded current item reason detail now
  | .undelivered =>
    closeUnavailable w run loaded current item
      (if loaded.deadlineAt.isNone then "invalid_run" else "dispatch_failed") none now
  | .delivered =>
    if loaded.deadlineAt.isNone then
      closeUnavailable w run loaded current item "invalid_run" none now
    else if w.otherOpen current.monitorId run then w
    else
      let row := {loaded with
        status := .dispatched
        dispatchedAt := some now
        attemptCount := loaded.attemptCount+1}
      (w.setRun run (loaded.flush row current)).onMonitor current.monitorId (item.flush {item with
        probeExecutionStatus := some .running
        probeExecutionReason := none
        probeLastDispatchedAt := some now})

def lateResultGrace : Nat := 30

def errorForOutcome : Outcome → Option String
  | .completed => none
  | .executionError => some "agent_execution_error"
  | .rejected => some "agent_rejected"
  | .cancelled => some "agent_cancelled"

/-- `msg[:2000] or None`. -/
def auditMsg (msg : String) : Option String := if msg = "" then none else some (upTo 2000 msg)

/-- `persist_results` for one completed result: the samples, the state machine on the item as
it was loaded, the event of a transition and the end of the run, in one commit. -/
def persistCompleted (w : World Sample) (result : ProbeResult Sample)
    (loaded current : MonitorProbeRun) (item : MonitorItem) (samples : List Sample) (up : Bool) :
    World Sample :=
  let monitor := current.monitorId
  let answer := applyResult item up result.finishedAt
  let row := {loaded with
    startedAt := some result.startedAt
    status := .completed
    outcome := some result.outcome
    completedAt := some result.finishedAt
    msg := some (upTo 2000 result.msg)}
  let moved := (w.setRun result.runId (loaded.flush row current)).onMonitor monitor
    (item.flush {answer.1 with
      probeLastResultAt := some result.finishedAt
      probeExecutionStatus := some .ready
      probeExecutionReason := none})
  {moved with
    samples := update w.samples monitor (w.samples monitor++[(samples,result.finishedAt)])
    events := update w.events monitor (w.events monitor++
      answer.2.toList.map fun (eventType,transition) =>
        ⟨eventType,transition.statusFrom,transition.statusTo,upTo 2000 result.msg⟩)
    applied := w.applied++[⟨some result.runId,monitor,samples,answer.2.map (·.2)⟩]}

/-- The end of `ingest_probe_result`; `up` and the samples are the ones the hypervisor's
override left. -/
def commitResult (w : World Sample) (result : ProbeResult Sample)
    (loaded current : MonitorProbeRun) (item : MonitorItem) (now : Nat) (samples : List Sample)
    (up : Bool) : World Sample :=
  let close (status : RunStatus) (errorCode : Option String) (completedAt : Nat) : World Sample :=
    w.setRun result.runId (loaded.flush {loaded with
      startedAt := some result.startedAt
      status := status
      outcome := some result.outcome
      errorCode := errorCode
      completedAt := some completedAt
      msg := auditMsg result.msg} current)
  if loaded.deadlineAt.any fun deadline => deadline+lateResultGrace < now then
    close .expired (some "late_result") now
  else
    match result.outcome with
    | .cancelled => close .cancelled (errorForOutcome .cancelled) result.finishedAt
    | .completed => persistCompleted w result loaded current item samples up
    | outcome =>
      let reason := (errorForOutcome outcome).getD ""
      recordExecutionCondition (close .executionError (some (upTo 64 reason)) result.finishedAt)
        current.monitorId .unavailable reason

def World.assigned (w : World Sample) (agent monitor : Nat) : Bool :=
  (w.monitors monitor).any fun item => item.probeAgentId = some agent

/-- `_close_active_runs` and what its caller writes in the same transaction. `fleet` are the
monitors there are. -/
def commitCancel (w : World Sample) (why : Cancellation) (runs : List String) (fleet : List Nat)
    (now : Nat) : World Sample :=
  let cancelled : World Sample := {w with
    runs := fun run =>
      if run ∈ runs then
        (w.runs run).map fun row => {row with
          status := .cancelled
          errorCode := some (upTo 64 why.reason)
          completedAt := some now}
      else w.runs run}
  match why with
  | .paused monitors => {cancelled with
      events := fun monitor =>
        match w.monitors monitor with
        | some item =>
          if monitor ∈ monitors then
            w.events monitor++
              [⟨.paused,item.lastStatus,item.lastStatus.getD .pending,"paused by user"⟩]
          else w.events monitor
        | none => w.events monitor}
  | .reassigned monitor agent => cancelled.onMonitor monitor fun item => {item with
      probeAgentId := agent
      probeExecutionStatus := none
      probeExecutionReason := none}
  | .deleted monitor => {w with
      runs := fun run => (w.runs run).filter fun row => row.monitorId ≠ monitor
      monitors := update w.monitors monitor none}
  | .capabilityDisabled agent | .agentRevoked agent =>
    (fleet.filter (w.assigned agent)).foldl
      (fun w monitor => recordExecutionCondition w monitor .unavailable why.reason) cancelled

inductive Act (Sample : Type) where
  | createMonitor (monitor : Nat) (item : MonitorItem)
  | createRun (run : String) (monitor agent deadlineSecs now : Nat)
  | published (run : String)
  | publishFailed (run : String) (now : Nat)
  | readDispatch (task : Nat) (run : String)
  | commitDispatch (task : Nat) (answer : Delivery) (now : Nat)
  | receive (task agent : Nat) (result : ProbeResult Sample)
  | commitResult (task now : Nat) (samples : List Sample) (up : Bool)
  | expire (run : String) (now : Nat)
  | readCancel (task : Nat) (why : Cancellation)
  | commitCancel (task now : Nat) (fleet : List Nat)
  | rollback (task : Nat)
  | purge (run : String)
  | serverCheck (monitor : Nat) (samples : List Sample) (up : Bool) (msg : String) (now : Nat)

/-- One statement or commit. A commit that names a row deleted meanwhile is rolled back. -/
def next (w : World Sample) : Act Sample → Option (World Sample)
  | .createMonitor monitor item =>
    if (w.monitors monitor).isSome then none
    else some {w with monitors := update w.monitors monitor (some item)}
  | .createRun run monitor agent deadlineSecs now =>
    -- the token is random, so it is a new one; the insert fails on the unique index
    if run ∈ w.minted ∨ w.otherOpen monitor run ∨ (w.monitors monitor).isNone then none
    else
      let row : MonitorProbeRun := {
        monitorId := monitor
        agentId := agent
        status := .queued
        scheduledAt := now
        deadlineAt := some (now+deadlineSecs)}
      let queued := ({w with
        minted := w.minted++[run]
        publishing := w.publishing++[run]}.setRun run row)
      some (queued.onMonitor monitor fun item => {item with
        probeExecutionStatus := some .queued
        probeExecutionReason := none})
  | .published run =>
    if run ∈ w.publishing then some {w with publishing := w.publishing.erase run} else none
  | .publishFailed run now =>
    if run ∈ w.publishing then
      let rest := {w with publishing := w.publishing.erase run}
      some (match w.runs run with
        | none => rest
        | some row => (rest.setRun run {row with
            status := .executionError
            errorCode := some "dispatch_failed"
            completedAt := some now}).onMonitor row.monitorId fun item => {item with
              probeExecutionStatus := some .unavailable
              probeExecutionReason := some "dispatch_failed"})
    else none
  | .readDispatch task run => do
    let row ← w.runs run
    let item ← w.monitors row.monitorId
    match w.tasks task with
    | .idle => if row.status = .queued then w.setTask task (.dispatching run row item) else none
    | _ => none
  | .commitDispatch task answer now =>
    match w.tasks task with
    | .dispatching run row item =>
      let rest := w.setTask task .idle
      some (match w.runs run with
        | none => rest
        | some current => commitDispatch rest run row current item answer now)
    | _ => none
  | .receive task agent result => do
    let row ← w.runs result.runId
    let item ← w.monitors row.monitorId
    match w.tasks task with
    | .idle =>
      if row.agentId = agent ∧ row.monitorId = result.monitorId ∧ row.status.isOpen then
        w.setTask task (.ingesting result row item)
      else none
    | _ => none
  | .commitResult task now samples up =>
    match w.tasks task with
    | .ingesting result row item =>
      let rest := w.setTask task .idle
      some (match w.runs result.runId with
        | none => rest
        | some current => commitResult rest result row current item now samples up)
    | _ => none
  | .expire run now => do
    let row ← w.runs run
    if row.status.isOpen ∧ row.deadlineAt.getD row.scheduledAt+lateResultGrace < now then
      recordExecutionCondition (w.setRun run {row with
        status := .expired
        errorCode := some "result_timeout"
        completedAt := some now}) row.monitorId .unavailable "result_timeout"
    else none
  | .readCancel task why =>
    match w.tasks task with
    | .idle =>
      some (w.setTask task (.cancelling why (w.minted.filter fun run =>
        (w.runs run).any fun row => row.status.isOpen && why.covers row)))
    | _ => none
  | .commitCancel task now fleet =>
    match w.tasks task with
    | .cancelling why runs =>
      let rest := w.setTask task .idle
      some (if runs.all fun run => (w.runs run).isSome then commitCancel rest why runs fleet now
        else rest)
    | _ => none
  | .rollback task => some (w.setTask task .idle)
  | .purge run => some {w with runs := update w.runs run none}
  | .serverCheck monitor samples up msg now => do
    let item ← w.monitors monitor
    let answer := applyResult item up now
    some {w with
      monitors := update w.monitors monitor (some answer.1)
      samples := update w.samples monitor (w.samples monitor++[(samples,now)])
      events := update w.events monitor (w.events monitor++
        answer.2.toList.map fun (eventType,transition) =>
          ⟨eventType,transition.statusFrom,transition.statusTo,upTo 2000 msg⟩)
      applied := w.applied++[⟨none,monitor,samples,answer.2.map (·.2)⟩]}

def Step (w : World Sample) (act : Act Sample) (w' : World Sample) : Prop := next w act = some w'

theorem Step.of {w w' : World Sample} (act : Act Sample) (h : next w act = some w') :
    Step w act w' := h

/-- The condition: no transaction writes a run that has been closed since it was read. -/
def StillOpen (w : World Sample) (run : String) : Prop :=
  ∀ row, w.runs run = some row → row.status.isOpen = true

def Meets (w : World Sample) : Act Sample → Prop
  | .publishFailed run _ => StillOpen w run
  | .commitDispatch task _ _ => ∀ run row item,
      w.tasks task = .dispatching run row item → StillOpen w run
  | .commitResult task _ _ _ => ∀ result row item,
      w.tasks task = .ingesting result row item → StillOpen w result.runId
  | .commitCancel task _ _ => ∀ why runs,
      w.tasks task = .cancelling why runs →
        (∃ monitor, why = .deleted monitor) ∨ ∀ run ∈ runs, StillOpen w run
  | _ => True

def contributions (w : World Sample) (run : String) : List (Application Sample) :=
  w.applied.filter fun application => application.runId = some run

/-- What a step that opens no run does to the runs: a row stays, is deleted, or was open; and
a check that names a run is the end of that run. -/
structure Changed (w w' : World Sample) : Prop where
  minted : w'.minted = w.minted
  rows : ∀ run, w'.runs run = w.runs run ∨ w'.runs run = none ∨
    ∃ row row', w.runs run = some row ∧ w'.runs run = some row' ∧ row.status.isOpen = true ∧
      row'.monitorId = row.monitorId
  applied : w'.applied = w.applied ∨ ∃ application, w'.applied = w.applied++[application] ∧
    ∀ run, application.runId = some run → ∃ row row', w.runs run = some row ∧
      row.status.isOpen = true ∧ w'.runs run = some row' ∧ row'.status = .completed

/-- A run is opened under a new token, for a monitor that has none open. -/
def Opened (w w' : World Sample) : Prop :=
  ∃ run row, run ∉ w.minted ∧ w'.minted = w.minted++[run] ∧
    w'.runs = update w.runs run (some row) ∧ w'.applied = w.applied ∧
    row.status = .queued ∧ w.otherOpen row.monitorId run = false

/-- A result is only taken up for a run that was open when it was loaded. -/
def Loaded (w : World Sample) : Prop :=
  ∀ task result row item, w.tasks task = .ingesting result row item → row.status.isOpen = true

theorem recordExecutionCondition_eq (w : World Sample) (monitor : Nat) (status : ExecutionStatus)
    (reason : String) : ∃ monitors events, recordExecutionCondition w monitor status reason =
        {w with monitors := monitors, events := events} := by
  unfold recordExecutionCondition
  split
  · exact ⟨_,_,rfl⟩
  · exact ⟨_,_,rfl⟩

theorem foldl_condition_eq (status : ExecutionStatus) (reason : String) (fleet : List Nat)
    (w : World Sample) : ∃ monitors events,
      fleet.foldl (fun w monitor => recordExecutionCondition w monitor status reason) w =
        {w with monitors := monitors, events := events} := by
  induction fleet generalizing w with
  | nil => exact ⟨_,_,rfl⟩
  | cons monitor fleet ih =>
    obtain ⟨monitors,events,he⟩ := recordExecutionCondition_eq w monitor status reason
    obtain ⟨monitors',events',he'⟩ := ih (recordExecutionCondition w monitor status reason)
    refine ⟨monitors',events',?_⟩
    rw [List.foldl_cons,he',he]

section Changes
variable {w w' : World Sample}

theorem Changed.same (hm : w'.minted = w.minted) (hr : w'.runs = w.runs)
    (ha : w'.applied = w.applied) : Changed w w' :=
  ⟨hm,fun run => .inl (by rw [hr]),.inl ha⟩

variable {run : String} {current : MonitorProbeRun}

theorem rows_written {row row' : MonitorProbeRun} (hrow : w.runs run = some row)
    (hopen : row.status.isOpen = true)
    (hr : w'.runs = update w.runs run (some row')) (hmonitor : row'.monitorId = row.monitorId)
    (other : String) :
    w'.runs other = w.runs other ∨ w'.runs other = none ∨
      ∃ row row', w.runs other = some row ∧ w'.runs other = some row' ∧ row.status.isOpen = true ∧
        row'.monitorId = row.monitorId := by
  rw [hr]
  by_cases ho : other = run
  · subst ho
    exact .inr (.inr ⟨row,row',hrow,by simp,hopen,hmonitor⟩)
  · exact .inl (update_of_ne ho ..)

theorem Changed.written {row row' : MonitorProbeRun} (hrow : w.runs run = some row)
    (hopen : row.status.isOpen = true) (hr : w'.runs = update w.runs run (some row'))
    (hmonitor : row'.monitorId = row.monitorId) (hm : w'.minted = w.minted)
    (ha : w'.applied = w.applied) : Changed w w' :=
  ⟨hm,rows_written hrow hopen hr hmonitor,.inl ha⟩

theorem closeUnavailable_changed
    (loaded : MonitorProbeRun) (hrow : w.runs run = some current) (hopen : current.status.isOpen = true) (item : MonitorItem)
    (reason : String) (detail : Option String) (now : Nat) :
    Changed w (closeUnavailable w run loaded current item reason detail now) :=
  .written hrow hopen rfl rfl rfl rfl

theorem commitDispatch_changed
    (loaded : MonitorProbeRun) (hrow : w.runs run = some current) (hopen : current.status.isOpen = true) (item : MonitorItem)
    (answer : Delivery) (now : Nat) :
    Changed w (commitDispatch w run loaded current item answer now) := by
  unfold commitDispatch
  split
  · exact closeUnavailable_changed _ hrow hopen ..
  · exact closeUnavailable_changed _ hrow hopen ..
  · split
    · exact closeUnavailable_changed _ hrow hopen ..
    · split
      · exact .same rfl rfl rfl
      · exact .written hrow hopen rfl rfl rfl rfl

theorem persistCompleted_changed {result : ProbeResult Sample} {loaded : MonitorProbeRun}
    (hrow : w.runs result.runId = some current) (hopen : current.status.isOpen = true)
    (hloaded : loaded.status.isOpen = true) (item : MonitorItem) (samples : List Sample)
    (up : Bool) : Changed w (persistCompleted w result loaded current item samples up) := by
  refine ⟨rfl,rows_written hrow hopen rfl rfl,.inr ⟨_,rfl,?_⟩⟩
  rintro run ⟨⟩
  refine ⟨current,_,hrow,hopen,update_self ..,?_⟩
  have hne : RunStatus.completed ≠ loaded.status := by
    intro he
    rw [←he] at hloaded
    cases hloaded
  simp [MonitorProbeRun.flush,written,hne]

theorem commitResult_changed {result : ProbeResult Sample} {loaded : MonitorProbeRun}
    (hrow : w.runs result.runId = some current) (hopen : current.status.isOpen = true)
    (hloaded : loaded.status.isOpen = true) (item : MonitorItem) (now : Nat)
    (samples : List Sample) (up : Bool) :
    Changed w (commitResult w result loaded current item now samples up) := by
  unfold commitResult
  split
  · exact .written hrow hopen rfl rfl rfl rfl
  · split
    · exact .written hrow hopen rfl rfl rfl rfl
    · exact persistCompleted_changed hrow hopen hloaded ..
    · obtain ⟨monitors,events,he⟩ := recordExecutionCondition_eq
        (w.setRun result.runId _) current.monitorId .unavailable _
      rw [he]
      exact .written hrow hopen rfl rfl rfl rfl

theorem commitCancel_changed {why : Cancellation} {runs : List String}
    (hopen : (∃ monitor, why = .deleted monitor) ∨ ∀ run ∈ runs, StillOpen w run)
    (fleet : List Nat) (now : Nat) : Changed w (commitCancel w why runs fleet now) := by
  have hrows (h : ∀ run ∈ runs, StillOpen w run) (row' : MonitorProbeRun → MonitorProbeRun)
      (hmonitor : ∀ row, (row' row).monitorId = row.monitorId) (run : String) :
      (if run ∈ runs then (w.runs run).map row' else w.runs run) = w.runs run ∨
      (if run ∈ runs then (w.runs run).map row' else w.runs run) = none ∨
      ∃ row row'', w.runs run = some row ∧
        (if run ∈ runs then (w.runs run).map row' else w.runs run) = some row'' ∧
        row.status.isOpen = true ∧ row''.monitorId = row.monitorId := by
    by_cases hi : run ∈ runs
    · simp only [hi,if_true]
      cases hr : w.runs run with
      | none => exact .inl rfl
      | some row => exact .inr (.inr ⟨row,_,rfl,rfl,h run hi row hr,hmonitor row⟩)
    · simp [hi]
  cases why with
  | deleted monitor =>
    refine ⟨rfl,fun run => ?_,.inl rfl⟩
    simp only [commitCancel]
    cases hr : w.runs run with
    | none => exact .inl rfl
    | some row =>
      by_cases hm : row.monitorId = monitor
      · exact .inr (.inl (by simp [Option.filter,hm]))
      · exact .inl (by simp [Option.filter,hm])
  | paused monitors | reassigned monitor agent =>
    exact ⟨rfl,hrows (hopen.resolve_left (by simp)) _ fun _ => rfl,.inl rfl⟩
  | capabilityDisabled agent =>
    obtain ⟨monitors,events,he⟩ := foldl_condition_eq .unavailable
      (Cancellation.capabilityDisabled agent).reason (fleet.filter (w.assigned agent)) _
    simp only [commitCancel]
    rw [he]
    exact ⟨rfl,hrows (hopen.resolve_left (by simp)) _ fun _ => rfl,.inl rfl⟩
  | agentRevoked agent =>
    obtain ⟨monitors,events,he⟩ := foldl_condition_eq .unavailable
      (Cancellation.agentRevoked agent).reason (fleet.filter (w.assigned agent)) _
    simp only [commitCancel]
    rw [he]
    exact ⟨rfl,hrows (hopen.resolve_left (by simp)) _ fun _ => rfl,.inl rfl⟩

end Changes

theorem step_changed {w w' : World Sample} {act : Act Sample} (hl : Loaded w) (hm : Meets w act)
    (hs : Step w act w') : Changed w w' ∨ Opened w w' := by
  unfold Step at hs
  cases act with simp only [next] at hs
  | createMonitor monitor item =>
    split at hs <;> cases hs
    exact .inl (.same rfl rfl rfl)
  | createRun run monitor agent deadlineSecs now =>
    split at hs <;> cases hs
    rename_i hfree
    simp only [not_or,Bool.not_eq_true] at hfree
    exact .inr ⟨run,_,hfree.1,rfl,rfl,rfl,rfl,hfree.2.1⟩
  | published run | readCancel task why =>
    split at hs <;> cases hs
    exact .inl (.same rfl rfl rfl)
  | publishFailed run now =>
    split at hs
    · cases hr : w.runs run with
      | none =>
        rw [hr] at hs
        cases hs
        exact .inl (.same rfl rfl rfl)
      | some row =>
        rw [hr] at hs
        cases hs
        exact .inl (.written hr (hm row hr) rfl rfl rfl rfl)
    · cases hs
  | readDispatch task run | receive task agent result =>
    simp only [bind_eq_bind,bind_eq_some_iff] at hs
    obtain ⟨row,-,item,-,hs⟩ := hs
    split at hs
    · split at hs <;> cases hs
      exact .inl (.same rfl rfl rfl)
    · cases hs
  | commitDispatch task answer now =>
    split at hs
    · rename_i run row item ht
      cases hr : w.runs run with
      | none =>
        rw [hr] at hs
        cases hs
        exact .inl (.same rfl rfl rfl)
      | some current =>
        rw [hr] at hs
        cases hs
        have hc := commitDispatch_changed (w := w.setTask task .idle) row hr
          (hm run row item ht current hr) item answer now
        exact .inl ⟨hc.minted,hc.rows,hc.applied⟩
    · cases hs
  | commitResult task now samples up =>
    split at hs
    · rename_i result row item ht
      cases hr : w.runs result.runId with
      | none =>
        rw [hr] at hs
        cases hs
        exact .inl (.same rfl rfl rfl)
      | some current =>
        rw [hr] at hs
        cases hs
        have hc := commitResult_changed (w := w.setTask task .idle) hr
          (hm result row item ht current hr) (hl task result row item ht) item now samples up
        exact .inl ⟨hc.minted,hc.rows,hc.applied⟩
    · cases hs
  | expire run now =>
    simp only [bind_eq_bind,bind_eq_some_iff] at hs
    obtain ⟨row,hr,hs⟩ := hs
    split at hs <;> cases hs
    rename_i hopen
    obtain ⟨monitors,events,he⟩ := recordExecutionCondition_eq
      (w.setRun run _) row.monitorId .unavailable _
    rw [he]
    exact .inl (.written hr hopen.1 rfl rfl rfl rfl)
  | commitCancel task now fleet =>
    split at hs <;> cases hs
    rename_i why runs ht
    split
    · have hc := commitCancel_changed (w := w.setTask task .idle) (hm why runs ht) fleet now
      exact .inl ⟨hc.minted,hc.rows,hc.applied⟩
    · exact .inl (.same rfl rfl rfl)
  | rollback task =>
    cases hs
    exact .inl (.same rfl rfl rfl)
  | purge run =>
    cases hs
    refine .inl ⟨rfl,fun other => ?_,.inl rfl⟩
    by_cases ho : other = run
    · subst ho
      exact .inr (.inl (update_self ..))
    · exact .inl (update_of_ne ho ..)
  | serverCheck monitor samples up msg now =>
    simp only [bind_eq_bind,bind_eq_some_iff] at hs
    obtain ⟨item,-,hs⟩ := hs
    cases hs
    exact .inl ⟨rfl,fun _ => .inl rfl,.inr ⟨_,rfl,nofun⟩⟩

section Tasks
variable {w w' : World Sample}

theorem commitDispatch_tasks (run : String) (loaded current : MonitorProbeRun) (item : MonitorItem)
    (answer : Delivery) (now : Nat) :
    (commitDispatch w run loaded current item answer now).tasks = w.tasks := by
  unfold commitDispatch
  split
  · rfl
  · rfl
  · split
    · rfl
    · split <;> rfl

theorem commitResult_tasks (result : ProbeResult Sample) (loaded current : MonitorProbeRun)
    (item : MonitorItem) (now : Nat) (samples : List Sample) (up : Bool) :
    (commitResult w result loaded current item now samples up).tasks = w.tasks := by
  unfold commitResult
  split
  · rfl
  · split
    · rfl
    · rfl
    · obtain ⟨monitors,events,he⟩ := recordExecutionCondition_eq
        (w.setRun result.runId _) current.monitorId .unavailable _
      rw [he]
      rfl

theorem commitCancel_tasks (why : Cancellation) (runs : List String) (fleet : List Nat)
    (now : Nat) : (commitCancel w why runs fleet now).tasks = w.tasks := by
  cases why with
  | paused | reassigned | deleted => rfl
  | capabilityDisabled agent =>
    obtain ⟨monitors,events,he⟩ := foldl_condition_eq .unavailable
      (Cancellation.capabilityDisabled agent).reason (fleet.filter (w.assigned agent)) _
    simp only [commitCancel]
    rw [he]
  | agentRevoked agent =>
    obtain ⟨monitors,events,he⟩ := foldl_condition_eq .unavailable
      (Cancellation.agentRevoked agent).reason (fleet.filter (w.assigned agent)) _
    simp only [commitCancel]
    rw [he]

theorem Loaded.of_tasks (h : Loaded w) (ht : w'.tasks = w.tasks) : Loaded w' := by
  unfold Loaded
  rw [ht]
  exact h

theorem Loaded.setTask (h : Loaded w) (task : Nat) {state : Task Sample}
    (hs : ∀ result row item, state = .ingesting result row item → row.status.isOpen = true) :
    Loaded (w.setTask task state) := by
  intro other result row item ho
  by_cases he : other = task
  · subst he
    exact hs result row item (by simpa [World.setTask] using ho)
  · exact h other result row item (by simpa [World.setTask,he] using ho)

theorem step_loaded {act : Act Sample} (h : Loaded w) (hs : Step w act w') : Loaded w' := by
  unfold Step at hs
  have idle (task : Nat) : Loaded (w.setTask task .idle) :=
    h.setTask task fun _ _ _ he => (by cases he)
  cases act with simp only [next] at hs
  | createMonitor | createRun | published =>
    split at hs <;> cases hs
    exact h
  | publishFailed run now =>
    split at hs <;> cases hs
    split <;> exact h
  | readDispatch task run =>
    simp only [bind_eq_bind,bind_eq_some_iff] at hs
    obtain ⟨row,-,item,-,hs⟩ := hs
    split at hs
    · split at hs <;> cases hs
      exact h.setTask task fun _ _ _ he => (by cases he)
    · cases hs
  | commitDispatch task answer now =>
    split at hs <;> cases hs
    split
    · exact idle task
    · exact (idle task).of_tasks (commitDispatch_tasks ..)
  | receive task agent result =>
    simp only [bind_eq_bind,bind_eq_some_iff] at hs
    obtain ⟨row,-,item,-,hs⟩ := hs
    split at hs
    · split at hs <;> cases hs
      rename_i hopen
      refine h.setTask task ?_
      rintro _ _ _ ⟨⟩
      exact hopen.2.2
    · cases hs
  | commitResult task now samples up =>
    split at hs <;> cases hs
    split
    · exact idle task
    · exact (idle task).of_tasks (commitResult_tasks ..)
  | expire run now =>
    simp only [bind_eq_bind,bind_eq_some_iff] at hs
    obtain ⟨row,-,hs⟩ := hs
    split at hs <;> cases hs
    obtain ⟨monitors,events,he⟩ := recordExecutionCondition_eq
      (w.setRun run _) row.monitorId .unavailable _
    rw [he]
    exact h
  | readCancel task why =>
    split at hs <;> cases hs
    exact h.setTask task fun _ _ _ he => (by cases he)
  | commitCancel task now fleet =>
    split at hs <;> cases hs
    split
    · exact (idle task).of_tasks (commitCancel_tasks ..)
    · exact idle task
  | rollback task =>
    cases hs
    exact idle task
  | purge run =>
    cases hs
    exact h
  | serverCheck monitor samples up msg now =>
    simp only [bind_eq_bind,bind_eq_some_iff] at hs
    obtain ⟨item,-,hs⟩ := hs
    cases hs
    exact h

end Tasks

def Over (w : World Sample) (run : String) : Prop :=
  run ∈ w.minted ∧ ∀ row, w.runs run = some row → row.status.isOpen = false

structure Sound (w : World Sample) : Prop where
  loaded : Loaded w
  minted : ∀ run row, w.runs run = some row → run ∈ w.minted
  spent : ∀ run, contributions w run ≠ [] → run ∈ w.minted
  once : ∀ run, (contributions w run).length ≤ 1
  answered : ∀ run row, w.runs run = some row → contributions w run ≠ [] → row.status = .completed
  single : ∀ run run' row row', w.runs run = some row → w.runs run' = some row' →
    row.status.isOpen = true → row'.status.isOpen = true → row.monitorId = row'.monitorId → run = run'

theorem fresh_sound : Sound (World.fresh : World Sample) where
  loaded _ _ _ _ h := by cases h
  minted _ _ h := by cases h
  spent _ h := absurd rfl h
  once _ := Nat.zero_le _
  answered _ _ h := by cases h
  single _ _ _ _ h := by cases h

section StepLemmas
variable {w w' : World Sample}

theorem Changed.contributions (hc : Changed w w') (run : String) :
    contributions w' run = contributions w run ∨
      ∃ application row row', contributions w' run = contributions w run++[application] ∧
        w.runs run = some row ∧ row.status.isOpen = true ∧ w'.runs run = some row' ∧
        row'.status = .completed := by
  rcases hc.applied with ha | ⟨application,ha,hrun⟩
  · exact .inl (by simp [ProbeRuns.contributions,ha])
  · by_cases hr : application.runId = some run
    · obtain ⟨row,row',hrow,hopen,hrow',hstatus⟩ := hrun run hr
      exact .inr ⟨application,row,row',by simp [ProbeRuns.contributions,ha,hr],hrow,hopen,hrow',hstatus⟩
    · exact .inl (by simp [ProbeRuns.contributions,ha,hr])

variable {run : String}

theorem Sound.unanswered (h : Sound w) {row : MonitorProbeRun}
    (hr : w.runs run = some row) (hopen : row.status.isOpen = true) : contributions w run = [] := by
  by_contra hne
  rw [h.answered run row hr hne] at hopen
  cases hopen

theorem Changed.wasOpen (hc : Changed w w') {row' : MonitorProbeRun}
    (hr : w'.runs run = some row') (hopen : row'.status.isOpen = true) :
    ∃ row, w.runs run = some row ∧ row.status.isOpen = true ∧ row.monitorId = row'.monitorId := by
  rcases hc.rows run with he | hnone | ⟨row,row'',hrow,hrow',ho,hm⟩
  · exact ⟨row',he.symm.trans hr,hopen,rfl⟩
  · cases hnone.symm.trans hr
  · cases hrow'.symm.trans hr
    exact ⟨row,hrow,ho,hm.symm⟩

theorem Sound.changed (h : Sound w) (hl : Loaded w') (hc : Changed w w') : Sound w' where
  loaded := hl
  minted run row hr := by
    rw [hc.minted]
    rcases hc.rows run with he | hnone | ⟨row,row',hrow,-,-,-⟩
    · exact h.minted run row (he.symm.trans hr)
    · cases hnone.symm.trans hr
    · exact h.minted run row hrow
  spent run hne := by
    rw [hc.minted]
    rcases hc.contributions run with he | ⟨_,row,_,_,hrow,_⟩
    · exact h.spent run (he ▸ hne)
    · exact h.minted run row hrow
  once run := by
    rcases hc.contributions run with he | ⟨_,row,_,he,hrow,hopen,_,_⟩
    · rw [he]
      exact h.once run
    · rw [he,h.unanswered hrow hopen]
      exact Nat.le_refl 1
  answered run row' hr hne := by
    rcases hc.contributions run with he | ⟨_,_,row'',_,_,_,hrow',hstatus⟩
    · rw [he] at hne
      rcases hc.rows run with hsame | hnone | ⟨row,_,hrow,_,hopen,_⟩
      · exact h.answered run row' (hsame.symm.trans hr) hne
      · cases hnone.symm.trans hr
      · exact absurd (h.unanswered hrow hopen) hne
    · cases hrow'.symm.trans hr
      exact hstatus
  single run run' row row' hr hr' ho ho' hm := by
    obtain ⟨old,hold,hopen,hmon⟩ := hc.wasOpen hr ho
    obtain ⟨old',hold',hopen',hmon'⟩ := hc.wasOpen hr' ho'
    exact h.single run run' old old' hold hold' hopen hopen' (hmon.trans (hm.trans hmon'.symm))

theorem otherOpen_false {monitor : Nat} (h : Sound w)
    (hf : w.otherOpen monitor run = false) {other : String} {row : MonitorProbeRun}
    (hr : w.runs other = some row) (hopen : row.status.isOpen = true)
    (hm : row.monitorId = monitor) : other = run := by
  by_contra hne
  have ht : w.otherOpen monitor run = true := by
    simp only [World.otherOpen,List.any_eq_true]
    exact ⟨other,h.minted other row hr,by simp [hne,hr,hm,hopen]⟩
  exact absurd (hf.symm.trans ht) (by simp)

theorem Sound.opened (h : Sound w) (hl : Loaded w') (ho : Opened w w') : Sound w' := by
  obtain ⟨run,row,hnew,hminted,hruns,happlied,hqueued,hfree⟩ := ho
  have hcontributions (other : String) : contributions w' other = contributions w other := by
    simp [contributions,happlied]
  have hother {other : String} (hne : other ≠ run) : w'.runs other = w.runs other := by
    rw [hruns,update_of_ne hne]
  have hself : w'.runs run = some row := by rw [hruns,update_self]
  have hunused : contributions w run = [] := by
    by_contra hne
    exact hnew (h.spent run hne)
  refine ⟨hl,fun other row' hr => ?_,fun other hne => ?_,fun other => ?_,fun other row' hr hne => ?_,
    fun a b rowa rowb ha hb hoa hob hm => ?_⟩
  · rw [hminted]
    by_cases he : other = run
    · simp [he]
    · exact List.mem_append_left _ (h.minted other row' (hother he ▸ hr))
  · rw [hcontributions] at hne
    rw [hminted]
    exact List.mem_append_left _ (h.spent other hne)
  · rw [hcontributions]
    exact h.once other
  · rw [hcontributions] at hne
    by_cases he : other = run
    · subst he
      exact absurd hunused hne
    · exact h.answered other row' (hother he ▸ hr) hne
  · by_cases hea : a = run
    · by_cases heb : b = run
      · rw [hea,heb]
      · rw [hea,hself] at ha
        cases ha
        rw [hother heb] at hb
        exact absurd (otherOpen_false h hfree hb hob hm.symm) heb
    · rw [hother hea] at ha
      by_cases heb : b = run
      · rw [heb,hself] at hb
        cases hb
        exact absurd (otherOpen_false h hfree ha hoa hm) hea
      · rw [hother heb] at hb
        exact h.single a b rowa rowb ha hb hoa hob hm

theorem step_sound (w : World Sample) (act : Act Sample) (w' : World Sample) (h : Sound w)
    (hs : Guarded Step Meets w act w') : Sound w' := by
  have hl := step_loaded h.loaded hs.2
  rcases step_changed h.loaded hs.1 hs.2 with hc | ho
  · exact h.changed hl hc
  · exact h.opened hl ho

def Settled (w w' : World Sample) : Prop :=
  ∀ run, Over w run → Over w' run ∧ contributions w' run = contributions w run ∧
    ∀ row', w'.runs run = some row' → ∃ row, w.runs run = some row ∧ row'.status = row.status

theorem step_settled (w : World Sample) (act : Act Sample) (w' : World Sample) (h : Sound w)
    (hs : Guarded Step Meets w act w') : Settled w w' := by
  intro run hover
  rcases step_changed h.loaded hs.1 hs.2 with hc | ⟨new,row,hnew,hminted,hruns,happlied,-,-⟩
  · have hrows : w'.runs run = w.runs run ∨ w'.runs run = none := by
      rcases hc.rows run with he | he | ⟨row,_,hrow,_,hopen,_⟩
      · exact .inl he
      · exact .inr he
      · exact absurd (hover.2 row hrow) (by simp [hopen])
    refine ⟨⟨hc.minted ▸ hover.1,fun row' hr => ?_⟩,?_,fun row' hr => ?_⟩
    · rcases hrows with he | he
      · exact hover.2 row' (he.symm.trans hr)
      · cases he.symm.trans hr
    · rcases hc.contributions run with he | ⟨_,row,_,_,hrow,hopen,_⟩
      · exact he
      · exact absurd (hover.2 row hrow) (by simp [hopen])
    · rcases hrows with he | he
      · exact ⟨row',he.symm.trans hr,rfl⟩
      · cases he.symm.trans hr
  · have hne : run ≠ new := by
      rintro rfl
      exact hnew hover.1
    have hsame : w'.runs run = w.runs run := by rw [hruns,update_of_ne hne]
    refine ⟨⟨by simp [hminted,hover.1],fun row' hr => hover.2 row' (hsame.symm.trans hr)⟩,
      by simp [contributions,happlied],fun row' hr => ⟨row',hsame.symm.trans hr,rfl⟩⟩

theorem Settled.refl (w : World Sample) : Settled w w :=
  fun _ h => ⟨h,rfl,fun row hr => ⟨row,hr,rfl⟩⟩

theorem Settled.trans (w₁ w₂ w₃ : World Sample) (h : Settled w₁ w₂) (h' : Settled w₂ w₃) :
    Settled w₁ w₃ := by
  intro run hover
  obtain ⟨hover₂,hcon,hrow⟩ := h run hover
  obtain ⟨hover₃,hcon',hrow'⟩ := h' run hover₂
  refine ⟨hover₃,hcon'.trans hcon,fun row₃ hr => ?_⟩
  obtain ⟨row₂,hr₂,hs₂⟩ := hrow' row₃ hr
  obtain ⟨row₁,hr₁,hs₁⟩ := hrow row₂ hr₂
  exact ⟨row₁,hr₁,hs₂.trans hs₁⟩

end StepLemmas

def EventType.isTransition : EventType → Bool
  | .up | .down | .pending => true
  | _ => false

def transitions (w : World Sample) (monitor : Nat) : List MonitorStatus :=
  ((w.events monitor).filter fun event => event.eventType.isTransition).map (·.statusTo)

def checks (w : World Sample) (monitor : Nat) : List (Application Sample) :=
  w.applied.filter fun application => application.monitorId = monitor

/-- A monitor has the samples and the transitions of the checks applied to it, each once. -/
structure Logged (w : World Sample) : Prop where
  samples : ∀ monitor, (w.samples monitor).map (·.1) = (checks w monitor).map (·.samples)
  moves : ∀ monitor, transitions w monitor =
    (checks w monitor).filterMap fun application => application.transition.map (·.statusTo)

theorem fresh_logged : Logged (World.fresh : World Sample) := ⟨fun _ => rfl,fun _ => rfl⟩

section Log
variable {w w' : World Sample}

theorem Logged.same (h : Logged w) (hs : w'.samples = w.samples)
    (ht : ∀ monitor, transitions w' monitor = transitions w monitor)
    (ha : w'.applied = w.applied) : Logged w' := by
  refine ⟨fun monitor => ?_,fun monitor => ?_⟩
  · rw [hs]
    simpa [checks,ha] using h.samples monitor
  · rw [ht]
    simpa [checks,ha] using h.moves monitor

variable {up : Bool}

theorem decide_isTransition {prevStatus : Option MonitorStatus} {prevRetries maxRetries : Nat} {eventType : EventType}
    (h : (decide prevStatus prevRetries up maxRetries).eventType = some eventType) :
    eventType.isTransition = true := by
  cases up with
  | true =>
    by_cases hup : prevStatus = some .up
    · simp [decide,hup] at h
    · simp only [decide,hup,if_true,if_false,Option.some.injEq] at h
      subst h
      rfl
  | false =>
    by_cases hretry : prevStatus ≠ some .down ∧ prevRetries+1 ≤ maxRetries
    · by_cases hpending : prevStatus = some .pending
      · simp [decide,hretry,hpending] at h
      · simp [decide,hretry.1,hretry.2,hpending] at h
        subst h
        rfl
    · by_cases hdown : prevStatus = some .down
      · simp [decide,hdown] at h
      · simp only [decide,hretry,hdown,Bool.false_eq_true,if_false,Option.some.injEq] at h
        subst h
        rfl

theorem applyResult_isTransition {item : MonitorItem} {checkedAt : Nat}
    {eventType : EventType} {transition : AppliedTransition}
    (h : (applyResult item up checkedAt).2 = some (eventType,transition)) :
    eventType.isTransition = true := by
  unfold applyResult at h
  simp only at h
  split at h <;> cases h
  rename_i hd
  exact decide_isTransition hd

theorem Logged.applied (h : Logged w) {item : MonitorItem} {checkedAt : Nat}
    {monitor : Nat} {runId : Option String} {samples : List Sample} (msg : String)
    (hs : w'.samples = update w.samples monitor (w.samples monitor++[(samples,checkedAt)]))
    (he : w'.events = update w.events monitor (w.events monitor++
      (applyResult item up checkedAt).2.toList.map fun (eventType,transition) =>
        ⟨eventType,transition.statusFrom,transition.statusTo,upTo 2000 msg⟩))
    (ha : w'.applied = w.applied++
      [⟨runId,monitor,samples,(applyResult item up checkedAt).2.map (·.2)⟩]) : Logged w' := by
  refine ⟨fun other => ?_,fun other => ?_⟩
  · by_cases ho : other = monitor
    · subst ho
      have hold := h.samples other
      simp only [checks] at hold
      simp [hs,checks,ha,hold]
    · rw [hs,update_of_ne ho,h.samples other]
      simp [checks,ha,Ne.symm ho]
  · by_cases ho : other = monitor
    · subst ho
      have hold := h.moves other
      unfold transitions checks at hold ⊢
      rw [he,ha,update_self,List.filter_append,List.map_append,hold,List.filter_append,
        List.filterMap_append]
      cases hr : (applyResult item up checkedAt).2 with
      | none => simp
      | some answer =>
        obtain ⟨eventType,transition⟩ := answer
        simp [applyResult_isTransition hr]
    · have hold := h.moves other
      unfold transitions checks at hold ⊢
      rw [he,ha,update_of_ne ho,hold]
      simp [Ne.symm ho]

theorem recordExecutionCondition_transitions (monitor : Nat) (status : ExecutionStatus)
    (reason : String) (other : Nat) :
    transitions (recordExecutionCondition w monitor status reason) other = transitions w other := by
  unfold recordExecutionCondition
  split
  · rfl
  · simp only [transitions]
    split
    · rfl
    · by_cases ho : other = monitor
      · subst ho
        simp [EventType.isTransition]
      · simp [ho]

theorem Logged.condition (h : Logged w) (monitor : Nat) (status : ExecutionStatus)
    (reason : String) : Logged (recordExecutionCondition w monitor status reason) := by
  obtain ⟨monitors,events,he⟩ := recordExecutionCondition_eq w monitor status reason
  exact h.same (by rw [he]) (recordExecutionCondition_transitions monitor status reason)
    (by rw [he])

theorem Logged.conditions (h : Logged w) (status : ExecutionStatus) (reason : String)
    (fleet : List Nat) :
    Logged (fleet.foldl (fun w monitor => recordExecutionCondition w monitor status reason) w) := by
  induction fleet generalizing w with
  | nil => exact h
  | cons monitor fleet ih => exact ih (h.condition monitor status reason)

theorem Logged.committedDispatch (h : Logged w) (run : String) (loaded current : MonitorProbeRun)
    (item : MonitorItem) (answer : Delivery) (now : Nat) :
    Logged (commitDispatch w run loaded current item answer now) := by
  unfold commitDispatch
  split
  · exact h.same rfl (fun _ => rfl) rfl
  · exact h.same rfl (fun _ => rfl) rfl
  · split
    · exact h.same rfl (fun _ => rfl) rfl
    · split
      · exact h
      · exact h.same rfl (fun _ => rfl) rfl

theorem Logged.committedResult (h : Logged w) (result : ProbeResult Sample)
    (loaded current : MonitorProbeRun) (item : MonitorItem) (now : Nat) (samples : List Sample)
    (up : Bool) : Logged (commitResult w result loaded current item now samples up) := by
  unfold commitResult
  split
  · exact h.same rfl (fun _ => rfl) rfl
  · split
    · exact h.same rfl (fun _ => rfl) rfl
    · exact h.applied result.msg rfl rfl rfl
    · refine Logged.condition ?_ ..
      exact h.same rfl (fun _ => rfl) rfl

theorem Logged.committedCancel (h : Logged w) (why : Cancellation) (runs : List String)
    (fleet : List Nat) (now : Nat) : Logged (commitCancel w why runs fleet now) := by
  cases why with
  | paused monitors =>
    refine h.same rfl (fun monitor => ?_) rfl
    simp only [commitCancel,transitions]
    split
    · split
      · simp [EventType.isTransition]
      · rfl
    · rfl
  | reassigned | deleted => exact h.same rfl (fun _ => rfl) rfl
  | capabilityDisabled | agentRevoked =>
    refine Logged.conditions ?_ ..
    exact h.same rfl (fun _ => rfl) rfl

theorem step_logged (w : World Sample) (act : Act Sample) (w' : World Sample) (h : Logged w)
    (hs : Step w act w') : Logged w' := by
  unfold Step at hs
  have idle (task : Nat) : Logged (w.setTask task .idle) := h.same rfl (fun _ => rfl) rfl
  cases act with simp only [next] at hs
  | createMonitor | createRun | published =>
    split at hs <;> cases hs
    exact h.same rfl (fun _ => rfl) rfl
  | publishFailed run now =>
    split at hs <;> cases hs
    split <;> exact h.same rfl (fun _ => rfl) rfl
  | readDispatch task run | receive task agent result =>
    simp only [bind_eq_bind,bind_eq_some_iff] at hs
    obtain ⟨row,-,item,-,hs⟩ := hs
    split at hs
    · split at hs <;> cases hs
      exact h.same rfl (fun _ => rfl) rfl
    · cases hs
  | commitDispatch task answer now =>
    split at hs <;> cases hs
    split
    · exact idle task
    · exact (idle task).committedDispatch ..
  | commitResult task now samples up =>
    split at hs <;> cases hs
    split
    · exact idle task
    · exact (idle task).committedResult ..
  | expire run now =>
    simp only [bind_eq_bind,bind_eq_some_iff] at hs
    obtain ⟨row,-,hs⟩ := hs
    split at hs <;> cases hs
    refine Logged.condition ?_ ..
    exact h.same rfl (fun _ => rfl) rfl
  | readCancel task why =>
    split at hs <;> cases hs
    exact h.same rfl (fun _ => rfl) rfl
  | commitCancel task now fleet =>
    split at hs <;> cases hs
    split
    · exact (idle task).committedCancel ..
    · exact idle task
  | rollback task =>
    cases hs
    exact idle task
  | purge run =>
    cases hs
    exact h.same rfl (fun _ => rfl) rfl
  | serverCheck monitor samples up msg now =>
    simp only [bind_eq_bind,bind_eq_some_iff] at hs
    obtain ⟨item,-,hs⟩ := hs
    cases hs
    exact h.applied msg rfl rfl rfl

end Log

/-- Every monitor of the second world is one of the first, with its status and its retry
counter. -/
structure Kept (w w' : World Sample) : Prop where
  origin : ∀ monitor item', w'.monitors monitor = some item' →
    ∃ item, w.monitors monitor = some item ∧ item'.lastStatus = item.lastStatus ∧
      item'.consecutiveFailures = item.consecutiveFailures

section Counters
variable {w w' : World Sample}

theorem Kept.same (h : w'.monitors = w.monitors) : Kept w w' :=
  ⟨fun _ item' hi => ⟨item',h ▸ hi,rfl,rfl⟩⟩

theorem Kept.written {monitor : Nat} {f : MonitorItem → MonitorItem}
    (hw : w'.monitors = update w.monitors monitor ((w.monitors monitor).map f))
    (hf : ∀ item, (f item).lastStatus = item.lastStatus ∧
      (f item).consecutiveFailures = item.consecutiveFailures) : Kept w w' := by
  refine ⟨fun other item' hi => ?_⟩
  rw [hw] at hi
  by_cases ho : other = monitor
  · subst ho
    obtain ⟨item,hitem,rfl⟩ : ∃ item, w.monitors other = some item ∧ f item = item' := by
      simpa using hi
    exact ⟨item,hitem,hf item⟩
  · exact ⟨item',by simpa [ho] using hi,rfl,rfl⟩

theorem Kept.condition (h : Kept w w') (monitor : Nat) (status : ExecutionStatus)
    (reason : String) : Kept w (recordExecutionCondition w' monitor status reason) := by
  unfold recordExecutionCondition
  split
  · exact h
  · rename_i item hitem
    refine ⟨fun other item' hi => ?_⟩
    by_cases ho : other = monitor
    · subst ho
      simp only [update_self,Option.some.injEq] at hi
      subst hi
      exact h.origin other item hitem
    · exact h.origin other item' (by simpa [ho] using hi)

theorem Kept.conditions (h : Kept w w') (status : ExecutionStatus) (reason : String)
    (fleet : List Nat) :
    Kept w (fleet.foldl
      (fun w monitor => recordExecutionCondition w monitor status reason) w') := by
  induction fleet generalizing w' with
  | nil => exact h
  | cons monitor fleet ih => exact ih (h.condition monitor status reason)

theorem MonitorItem.flush_kept {loaded item : MonitorItem} (hs : item.lastStatus = loaded.lastStatus)
    (hc : item.consecutiveFailures = loaded.consecutiveFailures) (current : MonitorItem) :
    (loaded.flush item current).lastStatus = current.lastStatus ∧
      (loaded.flush item current).consecutiveFailures = current.consecutiveFailures := by
  simp [MonitorItem.flush,written,hs,hc]

theorem commitDispatch_kept (run : String) (loaded current : MonitorProbeRun) (item : MonitorItem)
    (answer : Delivery) (now : Nat) :
    Kept w (commitDispatch w run loaded current item answer now) := by
  have close (reason : String) (detail : Option String) :
      Kept w (closeUnavailable w run loaded current item reason detail now) :=
    .written rfl (MonitorItem.flush_kept rfl rfl)
  unfold commitDispatch
  split
  · exact close ..
  · exact close ..
  · split
    · exact close ..
    · split
      · exact .same rfl
      · exact .written rfl (MonitorItem.flush_kept rfl rfl)

theorem commitCancel_kept (why : Cancellation) (runs : List String) (fleet : List Nat) (now : Nat) :
    Kept w (commitCancel w why runs fleet now) := by
  cases why with
  | paused monitors => exact .same rfl
  | reassigned monitor agent => exact .written rfl fun _ => ⟨rfl,rfl⟩
  | deleted monitor =>
    refine ⟨fun other item' hi => ?_⟩
    by_cases ho : other = monitor
    · simp [commitCancel,ho] at hi
    · exact ⟨item',by simpa [commitCancel,ho] using hi,rfl,rfl⟩
  | capabilityDisabled | agentRevoked =>
    refine Kept.conditions ?_ ..
    exact .same rfl

theorem commitResult_kept (result : ProbeResult Sample) (loaded current : MonitorProbeRun)
    (item : MonitorItem) (now : Nat) (samples : List Sample) (up : Bool)
    (ha : (commitResult w result loaded current item now samples up).applied = w.applied) :
    Kept w (commitResult w result loaded current item now samples up) := by
  unfold commitResult at ha ⊢
  split
  · exact .same rfl
  · rename_i hlate
    simp only [hlate] at ha
    split
    · exact .same rfl
    · rename_i hcompleted
      simp [hcompleted,persistCompleted] at ha
    · refine Kept.condition ?_ ..
      exact .same rfl

theorem step_kept {act : Act Sample} (hs : Step w act w') (ha : w'.applied = w.applied)
    {monitor : Nat} {item item' : MonitorItem} (hi : w.monitors monitor = some item)
    (hi' : w'.monitors monitor = some item') :
    item'.lastStatus = item.lastStatus ∧ item'.consecutiveFailures = item.consecutiveFailures := by
  have kept (h : Kept w w') : item'.lastStatus = item.lastStatus ∧
      item'.consecutiveFailures = item.consecutiveFailures := by
    obtain ⟨old,ho,hkept⟩ := h.origin monitor item' hi'
    cases ho.symm.trans hi
    exact hkept
  unfold Step at hs
  cases act with simp only [next] at hs
  | createMonitor new item'' =>
    split at hs <;> cases hs
    rename_i hnone
    have hne : monitor ≠ new := by
      rintro rfl
      simp [hi] at hnone
    have hsame : item = item' := by simpa [hne,hi] using hi'
    rw [hsame]
    exact ⟨rfl,rfl⟩
  | createRun run new agent deadlineSecs now =>
    split at hs <;> cases hs
    exact kept (.written rfl fun _ => ⟨rfl,rfl⟩)
  | published run | readCancel task why =>
    split at hs <;> cases hs
    exact kept (.same rfl)
  | publishFailed run now =>
    split at hs <;> cases hs
    split at kept
    · exact kept (.same rfl)
    · exact kept (.written rfl fun _ => ⟨rfl,rfl⟩)
  | readDispatch task run | receive task agent result =>
    simp only [bind_eq_bind,bind_eq_some_iff] at hs
    obtain ⟨row,-,loaded,-,hs⟩ := hs
    split at hs
    · split at hs <;> cases hs
      exact kept (.same rfl)
    · cases hs
  | commitDispatch task answer now =>
    split at hs <;> cases hs
    split at kept
    · exact kept (.same rfl)
    · exact kept ⟨(commitDispatch_kept ..).origin⟩
  | commitResult task now samples up =>
    split at hs
    · rename_i result row loaded ht
      cases hr : w.runs result.runId with
      | none =>
        rw [hr] at hs
        cases hs
        exact kept (.same rfl)
      | some current =>
        rw [hr] at hs
        cases hs
        exact kept ⟨(commitResult_kept _ _ _ _ _ _ _ ha).origin⟩
    · cases hs
  | expire run now =>
    simp only [bind_eq_bind,bind_eq_some_iff] at hs
    obtain ⟨row,-,hs⟩ := hs
    split at hs <;> cases hs
    refine kept (Kept.condition ?_ ..)
    exact .same rfl
  | commitCancel task now fleet =>
    split at hs <;> cases hs
    split at kept
    · exact kept ⟨(commitCancel_kept ..).origin⟩
    · exact kept (.same rfl)
  | rollback task | purge run =>
    cases hs
    exact kept (.same rfl)
  | serverCheck new samples up msg now =>
    simp only [bind_eq_bind,bind_eq_some_iff] at hs
    obtain ⟨loaded,-,hs⟩ := hs
    cases hs
    simp at ha

end Counters

/-- Along every run that meets the condition, in every state and from any earlier one: a probe
run reaches its monitor at most once, and not at all unless it is completed; a monitor has the
samples and transitions of the checks that reached it, and its status and retry counter move
with one of them only; what is over is neither reopened nor closed again, and adds nothing;
and a monitor has at most one open run. -/
theorem probe_run_moves_monitor_once {w w' : World Sample} {acts more : List (Act Sample)}
    (run : Run (Guarded Step Meets) .fresh acts w) (later : Run (Guarded Step Meets) w more w') :
    (∀ id, (contributions w' id).length ≤ 1) ∧
    (∀ id row, w'.runs id = some row → row.status ≠ .completed → contributions w' id = []) ∧
    Logged w' ∧
    (∀ act w'', Step w' act w'' → w''.applied = w'.applied →
      ∀ monitor item item', w'.monitors monitor = some item → w''.monitors monitor = some item' →
        item'.lastStatus = item.lastStatus ∧ item'.consecutiveFailures = item.consecutiveFailures) ∧
    Settled w w' ∧
    ∀ id id' row row', w'.runs id = some row → w'.runs id' = some row' →
      row.status.isOpen = true → row'.status.isOpen = true → row.monitorId = row'.monitorId →
      id = id' := by
  have hw := run.invariant step_sound fresh_sound
  have h := later.invariant step_sound hw
  refine ⟨h.once,fun id row hr hne => ?_,?_,fun act w'' hs ha monitor item item' hi hi' => ?_,?_,
    h.single⟩
  · by_contra hc
    exact hne (h.answered id row hr hc)
  · exact ((run.append later).unguarded).invariant step_logged fresh_logged
  · exact step_kept hs ha hi hi'
  · exact later.relates Settled.refl Settled.trans step_sound step_settled hw

theorem probe_run_moves_monitor_once_answered :
    let result : ProbeResult Nat := ⟨"run",1,.completed,[0],false,"timeout",2,3⟩
    ∃ (acts : List (Act Nat)) (w : World Nat), Run (Guarded Step Meets) .fresh acts w ∧
      (contributions w "run").length = 1 ∧ Settled w w ∧
      next w (.receive 1 7 result) = none := by
  intro result
  have start : Run (Guarded Step Meets) (.fresh : World Nat) [] .fresh := .nil _
  have answered := (((((start.also (.of (.createMonitor 1 {
      maxRetries := 0
      intervalSecs := 60
      retryIntervalSecs := none
      probeAgentId := some 7}) rfl) trivial).also
    (.of (.createRun "run" 1 7 30 0) rfl) trivial).also
    (.of (.readDispatch 0 "run") rfl) trivial).also
    (.of (.commitDispatch 0 .delivered 1) rfl) (by rintro _ _ _ ⟨⟩ _ ⟨⟩; rfl)).also
    (.of (.receive 0 7 result) rfl) trivial).also
    (.of (.commitResult 0 4 [0] false) rfl) (by rintro _ _ _ ⟨⟩ _ ⟨⟩; rfl)
  have once := probe_run_moves_monitor_once answered (.nil _)
  exact ⟨_,_,answered,rfl,once.2.2.2.2.1,rfl⟩

/-- Two deliveries of one result have both read the run as dispatched: both reach the monitor,
with the samples and a transition to DOWN each. -/
theorem redelivered_result_counts_twice :
    let result : ProbeResult Nat := ⟨"run",1,.completed,[0],false,"timeout",2,3⟩
    ∃ (acts : List (Act Nat)) (w : World Nat), Run Step .fresh acts w ∧
      (contributions w "run").length = 2 ∧ w.samples 1 = [([0],3),([0],3)] ∧
      transitions w 1 = [.down,.down] ∧ .receive 0 7 result ∈ acts ∧ .receive 1 7 result ∈ acts := by
  intro result
  have start : Run Step (.fresh : World Nat) [] .fresh := .nil _
  have twice := (((((((start.snoc (.of (.createMonitor 1 {
      maxRetries := 0
      intervalSecs := 60
      retryIntervalSecs := none
      probeAgentId := some 7}) rfl)).snoc
    (.of (.createRun "run" 1 7 30 0) rfl)).snoc
    (.of (.readDispatch 0 "run") rfl)).snoc
    (.of (.commitDispatch 0 .delivered 1) rfl)).snoc
    (.of (.receive 0 7 result) rfl)).snoc
    (.of (.receive 1 7 result) rfl)).snoc
    (.of (.commitResult 0 4 [0] false) rfl)).snoc
    (.of (.commitResult 1 5 [0] false) rfl)
  exact ⟨_,_,twice,rfl,rfl,rfl,by simp,by simp⟩

end CircuitBreaker.ProbeRuns
