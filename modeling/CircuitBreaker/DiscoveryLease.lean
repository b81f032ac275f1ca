import CircuitBreaker.StepRuns
import Mathlib.Data.List.Nodup
import Mathlib.Logic.Function.Basic

/-! The lease of an agent discovery job. The lease lives on the job row, so every writer of
it, a dispatcher, a cancellation, the agent's findings and summary or the reconcile pass, is
guarded by the statement it writes with. A statement and the commit that follows it under
the row's lock are one step; what a writer read before is kept with the writer. -/

namespace CircuitBreaker.DiscoveryLease
open StepRuns

inductive JobStatus where
  | queued | running | completed | failed | cancelled
  deriving DecidableEq

/-- The statuses `finalize_agent_job` and `_transition_terminal` still close. -/
def JobStatus.isOpen : JobStatus → Bool
  | .queued | .running => true
  | _ => false

inductive DispatchStatus where
  | queued | dispatched | running | completed | executionError | expired | cancelled
  deriving DecidableEq

inductive Phase where
  | queued | waitingForAgent | dispatched | done | failed | cancelled
  deriving DecidableEq

inductive ErrorReason where
  | agentUnavailable | agentDisconnected | agentExecutionError | agentRejected
  | dispatchFailed | scopeChanged | capabilityDisabled | profileDisabled

def ErrorReason.text : ErrorReason → String
  | .agentUnavailable => "agent_unavailable"
  | .agentDisconnected => "agent_disconnected"
  | .agentExecutionError => "agent_execution_error"
  | .agentRejected => "agent_rejected"
  | .dispatchFailed => "dispatch_failed"
  | .scopeChanged => "scope_changed"
  | .capabilityDisabled => "capability_disabled"
  | .profileDisabled => "profile_disabled"

/-- Why `evaluate_eligibility` turns a dispatch down. -/
inductive Denial where
  | agentMissing | agentInactive | capabilityDisabled | agentOffline | noLinkOwner
  | readinessUnknown | readinessDegraded | readinessUnavailable | tenantMismatch | outOfScope

def Denial.text : Denial → String
  | .agentMissing => "agent_missing"
  | .agentInactive => "agent_inactive"
  | .capabilityDisabled => "capability_disabled"
  | .agentOffline => "agent_offline"
  | .noLinkOwner => "no_link_owner"
  | .readinessUnknown => "readiness_unknown"
  | .readinessDegraded => "readiness_degraded"
  | .readinessUnavailable => "readiness_unavailable"
  | .tenantMismatch => "tenant_mismatch"
  | .outOfScope => "out_of_scope"

/-- The denials that mean "not now" and park the job. -/
def Denial.waits : Denial → Bool
  | .agentOffline | .noLinkOwner => true
  | _ => false

def Denial.errorReason : Denial → ErrorReason
  | .capabilityDisabled => .capabilityDisabled
  | .outOfScope => .scopeChanged
  | _ => .agentUnavailable

/-- A value of the grant's `config`, as far as the readers of limits tell values apart. -/
inductive Setting where
  | missing | bool (b : Bool) | int (n : Int) | other

structure GrantConfig where
  maxAddressesPerJob : Setting
  jobTimeoutSeconds : Setting

def summaryFindingAllowance : Nat := 4
def maxAddressesPerJob : Nat := 4096
def maxDiscoveryTargets : Nat := 16
def lateFindingGrace : Nat := 30
def dispatchDeadlineS : Nat := 900

def maxFindingsPerDispatch (config : GrantConfig) : Nat :=
  match config.maxAddressesPerJob with
  | .int raw =>
    if raw ≤ 0 then maxAddressesPerJob+summaryFindingAllowance
    else min raw.toNat maxAddressesPerJob+summaryFindingAllowance
  | _ => maxAddressesPerJob+summaryFindingAllowance

def grantedAddressCeiling (config : GrantConfig) : Nat :=
  match config.maxAddressesPerJob with
  | .int raw => if raw ≤ 0 then 1024 else min raw.toNat maxAddressesPerJob
  | _ => 1024

def jobTimeoutSeconds (config : GrantConfig) : Nat :=
  match config.jobTimeoutSeconds with
  | .int raw => (max 30 (min raw 1800)).toNat
  | _ => 300

abbrev Token := Nat

/-- The columns of `scan_jobs` an agent's lease reads or writes. `targets` and `addresses`
are the counts of `target_cidr`'s prefixes and of the addresses they cover. -/
structure ScanJob where
  targets : Nat
  addresses : Nat
  createdAt : Option Nat
  status : JobStatus := .queued
  dispatchId : Option Token := none
  dispatchStatus : Option DispatchStatus := none
  dispatchDeadlineAt : Option Nat := none
  scopeVersion : Option String := none
  startedAt : Option Nat := none
  completedAt : Option Nat := none
  errorReason : Option ErrorReason := none
  errorText : Option String := none
  progressPhase : Phase := .queued
  progressMessage : String := ""
  findingCount : Nat := 0
  hostsFound : Nat := 0
  hostsNew : Nat := 0
  hostsUpdated : Nat := 0
  hostsConflict : Nat := 0
  lastFindingAt : Option Nat := none

def dispatchFindingCeiling (job : ScanJob) (config : GrantConfig) : Nat :=
  min (maxFindingsPerDispatch config) (job.addresses+summaryFindingAllowance)

inductive Terminal where
  | completed | failed | cancelled

def Terminal.status : Terminal → JobStatus
  | .completed => .completed
  | .failed => .failed
  | .cancelled => .cancelled

def dispatchStatusForJobStatus : Terminal → DispatchStatus
  | .completed => .completed
  | .failed => .executionError
  | .cancelled => .cancelled

def progressPhaseForJobStatus : Terminal → Phase
  | .completed => .done
  | .failed => .failed
  | .cancelled => .cancelled

/-- The UPDATE of `finalize_agent_job`; a row that is no longer open is left alone. -/
def finalizeAgentJob (job : ScanJob) (status : Terminal) (errorReason : Option ErrorReason)
    (errorText : Option String) (now : Nat) : ScanJob :=
  if job.status.isOpen then {job with
    status := status.status
    completedAt := some now
    dispatchStatus := some (dispatchStatusForJobStatus status)
    errorReason := errorReason
    errorText := errorText
    progressPhase := progressPhaseForJobStatus status
    progressMessage := errorText.getD ""}
  else job

/-- The UPDATE of `_transition_terminal`: an error that is not named is not nulled. -/
def transitionTerminal (job : ScanJob) (status : Terminal) (errorReason : Option ErrorReason)
    (errorText : Option String) (progressMessage : String) (closedAt : Nat) : ScanJob :=
  if job.status.isOpen then {job with
    status := status.status
    completedAt := some closedAt
    dispatchStatus := some (dispatchStatusForJobStatus status)
    errorReason := errorReason.or job.errorReason
    errorText := errorText.or job.errorText
    progressPhase := progressPhaseForJobStatus status
    progressMessage := progressMessage}
  else job

/-- What `_claim`'s WHERE asks, and the check before it. -/
def ScanJob.claimable (job : ScanJob) : Bool :=
  job.status = .queued && (job.dispatchStatus = none || job.dispatchStatus = some .queued)

/-- `_lease_clause`. -/
def ScanJob.leased (job : ScanJob) (t : Token) : Bool :=
  job.dispatchId = some t && job.dispatchStatus = some .dispatched && job.status = .running

def ScanJob.claim (job : ScanJob) (t : Token) (scopeVersion : String) (deadlineAt now : Nat) :
    ScanJob :=
  {job with
    dispatchId := some t
    dispatchStatus := some .dispatched
    dispatchDeadlineAt := some deadlineAt
    scopeVersion := some scopeVersion
    status := .running
    startedAt := some now
    progressPhase := .dispatched
    progressMessage := ""}

def ScanJob.release (job : ScanJob) (now : Nat) : ScanJob :=
  {job with
    status := .queued
    progressPhase := .waitingForAgent
    progressMessage := ""
    dispatchStatus := some .queued
    dispatchId := none
    scopeVersion := none
    startedAt := none
    dispatchDeadlineAt := some (now+dispatchDeadlineS)}

inductive Classification where
  | new | matched | conflict

/-- The counter UPDATE of `_record_host_finding`. -/
def ScanJob.count (job : ScanJob) (c : Classification) (now : Nat) : ScanJob :=
  let counted : ScanJob := {job with
    findingCount := job.findingCount+1
    hostsFound := job.hostsFound+1
    lastFindingAt := some now}
  match c with
  | .new => {counted with hostsNew := job.hostsNew+1}
  | .matched => {counted with hostsUpdated := job.hostsUpdated+1}
  | .conflict => {counted with hostsConflict := job.hostsConflict+1}

inductive Outcome where
  | completed | executionError | cancelled | rejected | unknown

def statusForOutcome : Outcome → Terminal
  | .completed => .completed
  | .cancelled => .cancelled
  | .rejected | .executionError | .unknown => .failed

def errorReasonForOutcome : Outcome → Option ErrorReason
  | .completed | .cancelled => none
  | .rejected => some .agentRejected
  | .executionError | .unknown => some .agentExecutionError

/-- An agent's `error_code`, as it was sent and as `safe_log_fragment` leaves it. -/
structure ErrorCode where
  sent : String
  shown : String

/-- `_summary_error_text`; `findings` is the count on the row the summary was read with. -/
def summaryErrorText (findings : Nat) (reason : Option ErrorReason) (errorCode : Option ErrorCode) :
    Option String :=
  reason.map fun r => match errorCode with
    | none => r.text
    | some code =>
      if code.sent = "" then r.text
      else if code.sent = "deadline_exceeded" then
        r.text ++ ": " ++ code.shown ++ "; partial_results_retained=" ++ toString findings
      else r.text ++ ": " ++ code.shown

/-- A rejection's code with the detail `safe_log_fragment` left of it. -/
def reasonText (code : String) (detail : Option String) : String :=
  match detail with
  | none => code
  | some d => code ++ ": " ++ d

/-- A stored finding, with the dispatch it quoted and the ceiling its frame was judged by. -/
structure ScanResult where
  findingId : String
  classification : Classification
  dispatch : Token
  ceiling : Nat

/-- Where one call of `dispatch_discovery_job` stands. From the claim on it carries the
token it minted, and the grant it read before the claim. -/
inductive Dispatcher where
  | idle
  | read
  | claimed (t : Token) (config : GrantConfig)
  | eligible (t : Token) (config : GrantConfig)
  | built (t : Token)
  | held (t : Token)
  | done

def Dispatcher.token : Dispatcher → Option Token
  | .claimed t _ | .eligible t _ | .built t | .held t => some t
  | .idle | .read | .done => none

/-- Where one `ingest_discovery_finding` stands, with what it read when it was let in. -/
inductive Ingest where
  | idle
  | host (findingId : String) (dispatch : Token) (ceiling : Nat)
  | overCeiling (ceiling : Nat)
  | summary (outcome : Outcome) (errorCode : Option ErrorCode) (findings : Nat)
  | done

inductive Reconciler where
  | idle
  | expiring (reason : ErrorReason)
  | stamping
  | done

structure World where
  job : ScanJob
  results : List ScanResult := []
  published : List Token := []
  dispatchers : Nat → Dispatcher := fun _ => .idle
  ingests : Nat → Ingest := fun _ => .idle
  reconcilers : Nat → Reconciler := fun _ => .idle

/-- `_assert_dispatch_open` for a frame that quotes the row's token. -/
def ScanJob.accepts (job : ScanJob) (now : Nat) : Bool :=
  (job.dispatchStatus = some .dispatched || job.dispatchStatus = some .running) &&
    job.status.isOpen &&
    (match job.dispatchDeadlineAt with
      | some deadline => now ≤ deadline+lateFindingGrace
      | none => true)

def horizon (job : ScanJob) (moment : Nat) : Nat :=
  match job.dispatchDeadlineAt with
  | some deadline => deadline
  | none => match job.createdAt with
    | some created => created+dispatchDeadlineS
    | none => moment+dispatchDeadlineS

inductive Act where
  | read (d : Nat)
  | targetLimit (d now : Nat)
  | claim (d : Nat) (t : Token) (scopeVersion : String) (config : GrantConfig) (now : Nat)
  | release (d : Nat) (denial : Denial) (now : Nat)
  | deny (d : Nat) (denial : Denial) (detail : Option String) (now : Nat)
  | qualify (d : Nat)
  | portNotGranted (d port now : Nat)
  | addressLimit (d now : Nat)
  | build (d : Nat)
  | check (d : Nat)
  | publish (d : Nat)
  | publishFailed (d now : Nat)
  | host (i : Nat) (t : Token) (findingId scopeVersion : String) (config : GrantConfig) (now : Nat)
  | summary (i : Nat) (t : Token) (outcome : Outcome) (errorCode : Option ErrorCode) (now : Nat)
  | record (i : Nat) (c : Classification) (now : Nat)
  | closeOverCeiling (i now : Nat)
  | finalizeFromSummary (i now : Nat)
  | cancel (reason : Option ErrorReason) (now : Nat)
  | expireDeadLease (r moment : Nat)
  | expireParked (r moment : Nat)
  | expire (r now : Nat)
  | stamp (r : Nat)

def World.setDispatcher (w : World) (d : Nat) (v : Dispatcher) : World :=
  {w with dispatchers := Function.update w.dispatchers d v}

def World.setIngest (w : World) (i : Nat) (v : Ingest) : World :=
  {w with ingests := Function.update w.ingests i v}

def World.setReconciler (w : World) (r : Nat) (v : Reconciler) : World :=
  {w with reconcilers := Function.update w.reconcilers r v}

def World.failBy (w : World) (d : Nat) (reason : ErrorReason) (text : Option String) (now : Nat) :
    World :=
  {w with job := finalizeAgentJob w.job .failed (some reason) text now}.setDispatcher d .done

def next (w : World) : Act → Option World
  | .read d => match w.dispatchers d with
    | .idle => some (w.setDispatcher d (if w.job.claimable then .read else .done))
    | _ => none
  | .targetLimit d now => match w.dispatchers d with
    | .read =>
      if w.job.targets > maxDiscoveryTargets then
        some (w.failBy d .dispatchFailed (some (reasonText "target_limit_exceeded"
          (some (toString w.job.targets ++ ">" ++ toString maxDiscoveryTargets)))) now)
      else none
    | _ => none
  | .claim d t scopeVersion config now => match w.dispatchers d with
    | .read =>
      if w.job.targets > maxDiscoveryTargets then none
      else if w.job.claimable then
        some ({w with
          job := w.job.claim t scopeVersion (now+jobTimeoutSeconds config) now}.setDispatcher d
            (.claimed t config))
      else some (w.setDispatcher d .done)
    | _ => none
  | .release d denial now => match w.dispatchers d with
    | .claimed t _ =>
      if denial.waits then
        let job := if w.job.leased t then w.job.release now else w.job
        some ({w with job := job}.setDispatcher d .done)
      else none
    | _ => none
  | .deny d denial detail now => match w.dispatchers d with
    | .claimed _ _ =>
      if denial.waits then none
      else some (w.failBy d denial.errorReason (some (reasonText denial.text detail)) now)
    | _ => none
  | .qualify d => match w.dispatchers d with
    | .claimed t config => some (w.setDispatcher d (.eligible t config))
    | _ => none
  | .portNotGranted d port now => match w.dispatchers d with
    | .eligible _ _ =>
      some (w.failBy d .dispatchFailed
        (some (reasonText "port_not_granted" (some (toString port)))) now)
    | _ => none
  | .addressLimit d now => match w.dispatchers d with
    | .eligible _ config =>
      if w.job.addresses > grantedAddressCeiling config then
        some (w.failBy d .dispatchFailed (some (reasonText "address_limit_exceeded"
          (some (toString w.job.addresses ++ ">" ++ toString (grantedAddressCeiling config))))) now)
      else none
    | _ => none
  | .build d => match w.dispatchers d with
    | .eligible t config =>
      if w.job.addresses > grantedAddressCeiling config then none
      else some (w.setDispatcher d (.built t))
    | _ => none
  | .check d => match w.dispatchers d with
    | .built t => some (w.setDispatcher d (if w.job.leased t then .held t else .done))
    | _ => none
  | .publish d => match w.dispatchers d with
    | .held t => some ({w with published := t :: w.published}.setDispatcher d .done)
    | _ => none
  | .publishFailed d now => match w.dispatchers d with
    | .held _ => some (w.failBy d .dispatchFailed none now)
    | _ => none
  | .host i t findingId scopeVersion config now => match w.ingests i with
    | .idle =>
      if w.job.dispatchId = some t ∧ w.job.accepts now ∧ w.job.scopeVersion = some scopeVersion then
        some (w.setIngest i (.host findingId t (dispatchFindingCeiling w.job config)))
      else none
    | _ => none
  | .summary i t outcome errorCode now => match w.ingests i with
    | .idle =>
      if w.job.dispatchId = some t ∧ w.job.accepts now then
        some (w.setIngest i (.summary outcome errorCode w.job.findingCount))
      else none
    | _ => none
  | .record i c now => match w.ingests i with
    | .host findingId t ceiling =>
      -- the insert fails on the unique key of the job and the finding
      if findingId ∈ w.results.map ScanResult.findingId then some (w.setIngest i .done)
      else if w.job.findingCount < ceiling then
        some ({w with
          job := w.job.count c now
          results := w.results ++ [(⟨findingId,c,t,ceiling⟩ : ScanResult)]}.setIngest i .done)
      else some (w.setIngest i (.overCeiling ceiling))
    | _ => none
  | .closeOverCeiling i now => match w.ingests i with
    | .overCeiling ceiling =>
      let text := reasonText "finding_ceiling_exceeded" (some (toString ceiling))
      let job := transitionTerminal w.job .failed (some .agentExecutionError) (some text) text now
      some ({w with job := job}.setIngest i .done)
    | _ => none
  | .finalizeFromSummary i now => match w.ingests i with
    | .summary outcome errorCode findings =>
      let reason := errorReasonForOutcome outcome
      let job := finalizeAgentJob w.job (statusForOutcome outcome) reason
        (summaryErrorText findings reason errorCode) now
      some ({w with job := job}.setIngest i .done)
    | _ => none
  | .cancel reason now =>
    some {w with
      job := transitionTerminal w.job .cancelled reason (reason.map ErrorReason.text) "" now}
  | .expireDeadLease r moment => match w.reconcilers r with
    | .idle =>
      if w.job.status.isOpen ∧ (w.job.dispatchStatus = some .dispatched ∨
          w.job.dispatchStatus = some .running) ∧ horizon w.job moment+lateFindingGrace < moment then
        some (w.setReconciler r (.expiring .agentDisconnected))
      else none
    | _ => none
  | .expireParked r moment => match w.reconcilers r with
    | .idle =>
      if w.job.status = .queued ∧ w.job.progressPhase = .waitingForAgent ∧
          horizon w.job moment < moment then
        some (w.setReconciler r (.expiring .agentUnavailable))
      else none
    | _ => none
  | .expire r now => match w.reconcilers r with
    | .expiring reason =>
      let job := finalizeAgentJob w.job .failed (some reason) (some reason.text) now
      some ({w with job := job}.setReconciler r
        (if w.job.status.isOpen then .stamping else .done))
    | _ => none
  | .stamp r => match w.reconcilers r with
    | .stamping =>
      let job := {w.job with dispatchStatus := some DispatchStatus.expired}
      some ({w with job := job}.setReconciler r .done)
    | _ => none

def Step (w : World) (act : Act) (w' : World) : Prop := next w act = some w'

variable {w w' : World}

theorem Step.of (act : Act) (h : next w act = some w') : Step w act w' := h

/-- A job as `create_scan_job` inserts it, and nobody at work on it. -/
def start (targets addresses : Nat) (createdAt : Option Nat) : World where
  job := {targets := targets, addresses := addresses, createdAt := createdAt}

theorem count_addresses (job : ScanJob) (c : Classification) (now : Nat) :
    (job.count c now).addresses = job.addresses := by
  cases c <;> rfl

theorem count_status (job : ScanJob) (c : Classification) (now : Nat) :
    (job.count c now).status = job.status := by
  cases c <;> rfl

theorem count_leased (job : ScanJob) (c : Classification) (now : Nat) (t : Token) :
    (job.count c now).leased t = job.leased t := by
  cases c <;> rfl

def ScanJob.tally (job : ScanJob) : Nat × Nat × Nat × Nat × Nat × Option Nat :=
  (job.findingCount,job.hostsFound,job.hostsNew,job.hostsUpdated,job.hostsConflict,job.lastFindingAt)

/-- A write of a terminal status: the row is closed after it, and a row that was closed
before it is left as it was. -/
structure Shut (job job' : ScanJob) : Prop where
  closed : job'.status.isOpen = false
  inert : job.status.isOpen = false → job' = job
  tally : job'.tally = job.tally
  addresses : job'.addresses = job.addresses

theorem Terminal.closed (status : Terminal) : status.status.isOpen = false := by
  cases status <;> rfl

theorem finalizeAgentJob_shut (job : ScanJob) (status : Terminal) (reason : Option ErrorReason)
    (text : Option String) (now : Nat) : Shut job (finalizeAgentJob job status reason text now) := by
  unfold finalizeAgentJob
  split
  case isTrue ho => exact ⟨status.closed,fun hc => by simp [ho] at hc,rfl,rfl⟩
  case isFalse hc => exact ⟨by simpa using hc,fun _ => rfl,rfl,rfl⟩

theorem transitionTerminal_shut (job : ScanJob) (status : Terminal) (reason : Option ErrorReason)
    (text : Option String) (message : String) (now : Nat) :
    Shut job (transitionTerminal job status reason text message now) := by
  unfold transitionTerminal
  split
  case isTrue ho => exact ⟨status.closed,fun hc => by simp [ho] at hc,rfl,rfl⟩
  case isFalse hc => exact ⟨by simpa using hc,fun _ => rfl,rfl,rfl⟩

/-- What a step leaves alone unless it stores a finding, claims or gives a claim back. -/
structure Frame (w w' : World) : Prop where
  results : w'.results = w.results
  tokens : ∀ d t, (w'.dispatchers d).token = some t → (w.dispatchers d).token = some t
  hosts : ∀ i f t c, w'.ingests i = .host f t c →
    w.ingests i = .host f t c ∨ ∃ config, c = dispatchFindingCeiling w.job config

theorem Frame.setDispatcher (w : World) (d : Nat) (v : Dispatcher) (job : ScanJob)
    (hv : v.token = none ∨ v.token = (w.dispatchers d).token) :
    Frame w ({w with job := job}.setDispatcher d v) where
  results := rfl
  tokens e t he := by
    change (Function.update w.dispatchers d v e).token = some t at he
    by_cases hd : e = d
    · subst e
      rw [Function.update_self] at he
      cases hv with
      | inl hn => simp [hn] at he
      | inr hs => rwa [←hs]
    · rwa [Function.update_of_ne hd] at he
  hosts _ _ _ _ h := .inl h

theorem Frame.setIngest (w : World) (i : Nat) (v : Ingest) (job : ScanJob)
    (hv : ∀ f t c, v = .host f t c → ∃ config, c = dispatchFindingCeiling w.job config) :
    Frame w ({w with job := job}.setIngest i v) where
  results := rfl
  tokens _ _ h := h
  hosts j f t c h := by
    change Function.update w.ingests i v j = _ at h
    by_cases hj : j = i
    · subst j
      rw [Function.update_self] at h
      exact .inr (hv f t c h)
    · rw [Function.update_of_ne hj] at h
      exact .inl h

theorem Frame.setReconciler (w : World) (r : Nat) (v : Reconciler) (job : ScanJob) :
    Frame w ({w with job := job}.setReconciler r v) :=
  ⟨rfl,fun _ _ h => h,fun _ _ _ _ h => .inl h⟩

theorem setReconciler_stamping {r : Nat} {v : Reconciler} (hv : v ≠ .stamping) {q : Nat}
    (h : (w.setReconciler r v).reconcilers q = .stamping) : w.reconcilers q = .stamping := by
  change Function.update w.reconcilers r v q = _ at h
  by_cases hq : q = r
  · subst q
    rw [Function.update_self] at h
    exact absurd h hv
  · rwa [Function.update_of_ne hq] at h

inductive Moved (w : World) (act : Act) (w' : World) : Prop where
  | quiet (job : w'.job = w.job) (frame : Frame w w')
      (stamps : ∀ r, w'.reconcilers r = .stamping → w.reconcilers r = .stamping)
  | shut (job : Shut w.job w'.job) (frame : Frame w w')
  | claimed {d : Nat} {t : Token} {config : GrantConfig} {scopeVersion : String}
      {deadlineAt now : Nat} (free : w.job.claimable = true)
      (world : w' = {w with
        job := w.job.claim t scopeVersion deadlineAt now}.setDispatcher d (.claimed t config))
  | released {d : Nat} {t : Token} {now : Nat} (holder : (w.dispatchers d).token = some t)
      (lease : w.job.leased t = true)
      (world : w' = {w with job := w.job.release now}.setDispatcher d .done)
  | recorded {i : Nat} {f : String} {t : Token} {ceiling now : Nat} {c : Classification}
      (label : act = .record i c now) (frame : w.ingests i = .host f t ceiling)
      (new : f ∉ w.results.map ScanResult.findingId) (room : w.job.findingCount < ceiling)
      (world : w' = {w with
        job := w.job.count c now
        results := w.results ++ [(⟨f,c,t,ceiling⟩ : ScanResult)]}.setIngest i .done)
  | stamped {r : Nat} (label : act = .stamp r) (closer : w.reconcilers r = .stamping)
      (world : w' = {w with
        job := {w.job with dispatchStatus := some .expired}}.setReconciler r .done)

variable {act : Act}

theorem Moved.dispatcher {d : Nat} {v : Dispatcher}
    (hv : v.token = none ∨ v.token = (w.dispatchers d).token) : Moved w act (w.setDispatcher d v) :=
  .quiet rfl (.setDispatcher w d v w.job hv) fun _ h => h

theorem Moved.failBy (w : World) (act : Act) (d : Nat) (reason : ErrorReason) (text : Option String)
    (now : Nat) : Moved w act (w.failBy d reason text now) :=
  .shut (finalizeAgentJob_shut ..) (.setDispatcher w d .done _ (.inl rfl))

theorem Moved.ingest {w : World} {act : Act} {i : Nat} {v : Ingest}
    (hv : ∀ f t c, v = .host f t c → ∃ config, c = dispatchFindingCeiling w.job config) :
    Moved w act (w.setIngest i v) :=
  .quiet rfl (.setIngest w i v w.job hv) fun _ h => h

theorem Moved.reconciler {r : Nat} {v : Reconciler}
    (hv : v ≠ .stamping) : Moved w act (w.setReconciler r v) :=
  .quiet rfl (.setReconciler w r v w.job) fun _ h => setReconciler_stamping hv h

theorem step_moved (h : next w act = some w') : Moved w act w' := by
  cases act with simp only [next] at h
  | read d =>
    split at h <;> cases h
    refine .dispatcher (.inl ?_)
    split <;> rfl
  | targetLimit d now | addressLimit d now =>
    split at h
    · split at h <;> cases h
      exact .failBy ..
    · cases h
  | claim d t scopeVersion config now =>
    split at h
    · split at h
      · cases h
      · split at h
        case isTrue hf =>
          cases h
          exact .claimed hf rfl
        · cases h
          exact .dispatcher (.inl rfl)
    · cases h
  | release d denial now =>
    split at h
    case h_1 t config hd =>
      split at h <;> cases h
      split
      case isTrue hl =>
        exact .released (by rw [hd]; rfl) hl rfl
      case isFalse =>
        exact .dispatcher (.inl rfl)
    · cases h
  | deny d denial detail now =>
    split at h
    · split at h <;> cases h
      exact .failBy ..
    · cases h
  | qualify d =>
    split at h <;> cases h
    rename_i hd
    exact .dispatcher (.inr (by rw [hd]; rfl))
  | portNotGranted d port now | publishFailed d now =>
    split at h <;> cases h
    exact .failBy ..
  | build d =>
    split at h
    case h_1 hd =>
      split at h <;> cases h
      exact .dispatcher (.inr (by rw [hd]; rfl))
    · cases h
  | check d =>
    split at h <;> cases h
    rename_i hd
    refine .dispatcher ?_
    split
    · exact .inr (by rw [hd]; rfl)
    · exact .inl rfl
  | publish d =>
    split at h <;> cases h
    exact .quiet rfl ⟨rfl,(Frame.setDispatcher w d .done w.job (.inl rfl)).tokens,
      fun _ _ _ _ hi => .inl hi⟩ fun _ hr => hr
  | host i t findingId scopeVersion config now =>
    split at h
    · split at h <;> cases h
      refine .ingest fun f t c hv => ?_
      cases hv
      exact ⟨config,rfl⟩
    · cases h
  | summary i t outcome errorCode now =>
    split at h
    · split at h <;> cases h
      exact .ingest fun _ _ _ hv => by cases hv
    · cases h
  | record i c now =>
    split at h
    case h_1 f t ceiling hi =>
      split at h
      · cases h
        exact .ingest fun _ _ _ hv => by cases hv
      case isFalse hn =>
        split at h
        case isTrue hc =>
          cases h
          exact .recorded rfl hi hn hc rfl
        · cases h
          exact .ingest fun _ _ _ hv => by cases hv
    · cases h
  | closeOverCeiling i now =>
    split at h <;> cases h
    exact .shut (transitionTerminal_shut ..) (.setIngest w i .done _ fun _ _ _ hv => by cases hv)
  | finalizeFromSummary i now =>
    split at h <;> cases h
    exact .shut (finalizeAgentJob_shut ..) (.setIngest w i .done _ fun _ _ _ hv => by cases hv)
  | cancel reason now =>
    cases h
    exact .shut (transitionTerminal_shut ..) ⟨rfl,fun _ _ ht => ht,fun _ _ _ _ hi => .inl hi⟩
  | expireDeadLease r moment | expireParked r moment =>
    split at h
    · split at h <;> cases h
      exact .reconciler (by simp)
    · cases h
  | expire r now =>
    split at h <;> cases h
    exact .shut (finalizeAgentJob_shut ..) (.setReconciler ..)
  | stamp r =>
    split at h <;> cases h
    rename_i hr
    exact .stamped rfl hr rfl

/-- No two dispatchers past their claim share a token, and while the job is open the lease
is theirs. -/
structure Leases (w : World) : Prop where
  apart : ∀ d e t, (w.dispatchers d).token = some t → (w.dispatchers e).token = some t → d = e
  lease : ∀ d t, (w.dispatchers d).token = some t → w.job.status.isOpen = true →
    w.job.leased t = true
  stamped : ∀ r, w.reconcilers r = .stamping → w.job.status.isOpen = false

variable {t : Token}

theorem leased_dispatchId {job : ScanJob} (h : job.leased t = true) :
    job.dispatchId = some t := by
  simp [ScanJob.leased] at h
  exact h.1.1

theorem claimable_open {job : ScanJob} (h : job.claimable = true) : job.status = .queued := by
  simp [ScanJob.claimable] at h
  exact h.1

theorem Leases.unheld (h : Leases w) (hf : w.job.claimable = true) (d : Nat) :
    (w.dispatchers d).token = none := by
  cases ht : (w.dispatchers d).token with
  | none => rfl
  | some t =>
    have hq := claimable_open hf
    have hl := h.lease d t ht (by rw [hq]; rfl)
    simp [ScanJob.leased,hq] at hl

theorem Leases.sole (h : Leases w) {d e : Nat} {s : Token}
    (ht : (w.dispatchers d).token = some t) (hl : w.job.leased t = true)
    (hs : (w.dispatchers e).token = some s) : e = d := by
  have ho : w.job.status.isOpen = true := by
    simp [ScanJob.leased] at hl
    rw [hl.2]
    rfl
  have hst := leased_dispatchId (h.lease e s hs ho)
  rw [leased_dispatchId hl] at hst
  cases hst
  exact h.apart e d t hs ht

theorem Leases.framed (h : Leases w) (hf : Frame w w')
    (lease : ∀ d t, (w.dispatchers d).token = some t → w'.job.status.isOpen = true →
      w'.job.leased t = true)
    (stamped : ∀ r, w'.reconcilers r = .stamping → w'.job.status.isOpen = false) : Leases w' where
  apart d e t hd he := h.apart d e t (hf.tokens d t hd) (hf.tokens e t he)
  lease d t ht := lease d t (hf.tokens d t ht)
  stamped := stamped

theorem update_token {f : Nat → Dispatcher} {d e : Nat} {v : Dispatcher}
    (h : (Function.update f d v e).token = some t) :
    (e = d ∧ v.token = some t) ∨ (e ≠ d ∧ (f e).token = some t) := by
  by_cases he : e = d
  · subst e
    rw [Function.update_self] at h
    exact .inl ⟨rfl,h⟩
  · rw [Function.update_of_ne he] at h
    exact .inr ⟨he,h⟩

theorem Leases.claim (h : Leases w) {d : Nat} (config : GrantConfig)
    (scopeVersion : String) (deadlineAt now : Nat) (free : w.job.claimable = true) :
    Leases ({w with
      job := w.job.claim t scopeVersion deadlineAt now}.setDispatcher d (.claimed t config)) := by
  have only : ∀ e s, (Function.update w.dispatchers d (.claimed t config) e).token = some s →
      e = d ∧ s = t := by
    intro e s hs
    obtain ⟨he,hv⟩ | ⟨_,hv⟩ := update_token hs
    · cases hv
      exact ⟨he,rfl⟩
    · simp [h.unheld free e] at hv
  refine ⟨fun e e' s hs hs' => ?_,fun e s hs _ => ?_,fun r hr => ?_⟩
  · rw [(only e s hs).1,(only e' s hs').1]
  · rw [(only e s hs).2]
    simp [World.setDispatcher,ScanJob.claim,ScanJob.leased]
  · have hc := h.stamped r hr
    rw [claimable_open free] at hc
    cases hc

theorem Leases.release {w : World} (h : Leases w) {d : Nat} {t : Token} (now : Nat)
    (holder : (w.dispatchers d).token = some t) (lease : w.job.leased t = true) :
    Leases ({w with job := w.job.release now}.setDispatcher d .done) := by
  have none' : ∀ e s, (Function.update w.dispatchers d .done e).token ≠ some s := by
    intro e s hs
    obtain ⟨_,hv⟩ | ⟨he,hv⟩ := update_token hs
    · cases hv
    · exact he (h.sole holder lease hv)
  refine ⟨fun e _ s hs _ => absurd hs (none' e s),
    fun e s hs _ => absurd hs (none' e s),fun r hr => ?_⟩
  have hc := h.stamped r hr
  simp [ScanJob.leased] at lease
  rw [lease.2] at hc
  cases hc

theorem Leases.step (h : Leases w) (hs : Step w act w') : Leases w' := by
  cases step_moved hs with
  | quiet job frame stamps =>
    refine h.framed frame (fun d t ht ho => ?_) fun r hr => ?_
    · rw [job] at ho ⊢
      exact h.lease d t ht ho
    · rw [job]
      exact h.stamped r (stamps r hr)
  | shut job frame =>
    exact h.framed frame (fun d t _ ho => by simp [job.closed] at ho) fun _ _ => job.closed
  | claimed free world =>
    subst world
    exact h.claim _ _ _ _ free
  | released holder lease world =>
    subst world
    exact h.release _ holder lease
  | recorded _ _ _ _ world =>
    subst world
    refine ⟨h.apart,fun d t ht ho => ?_,fun r hr => ?_⟩
    · rw [World.setIngest,count_status] at ho
      rw [World.setIngest,count_leased]
      exact h.lease d t ht ho
    · rw [World.setIngest,count_status]
      exact h.stamped r hr
  | stamped _ closer world =>
    have hc := h.stamped _ closer
    subst world
    exact h.framed (.setReconciler ..) (fun d t _ ho => by simp [World.setReconciler,hc] at ho)
      fun _ _ => hc

def Judged (job : ScanJob) (ceiling : Nat) : Prop :=
  ∃ config, ceiling = dispatchFindingCeiling job config

/-- The counters and the stored rows say the same, and no row was stored past the ceiling
its frame was judged by. -/
structure Tallied (w : World) : Prop where
  counted : w.job.findingCount = w.results.length
  hosts : w.job.hostsFound = w.job.hostsNew+w.job.hostsUpdated+w.job.hostsConflict
  once : (w.results.map ScanResult.findingId).Nodup
  room : ∀ k (r : ScanResult), w.results[k]? = some r → k < r.ceiling
  judged : ∀ r ∈ w.results, Judged w.job r.ceiling
  frames : ∀ i f t c, w.ingests i = .host f t c → Judged w.job c

theorem judged_congr {job job' : ScanJob} (h : job'.addresses = job.addresses) {c : Nat}
    (hc : Judged job c) : Judged job' c := by
  obtain ⟨config,hc⟩ := hc
  exact ⟨config,by rw [hc,dispatchFindingCeiling,dispatchFindingCeiling,h]⟩

theorem Tallied.framed (h : Tallied w) (hf : Frame w w')
    (ht : w'.job.tally = w.job.tally) (ha : w'.job.addresses = w.job.addresses) : Tallied w' := by
  simp only [ScanJob.tally,Prod.mk.injEq] at ht
  obtain ⟨hn,hh,hw,hu,hc,_⟩ := ht
  refine ⟨by rw [hn,hf.results,h.counted],by rw [hh,hw,hu,hc,h.hosts],by rw [hf.results]; exact h.once,
    by rw [hf.results]; exact h.room,fun r hr => ?_,fun i f t c hi => ?_⟩
  · rw [hf.results] at hr
    exact judged_congr ha (h.judged r hr)
  · cases hf.hosts i f t c hi with
    | inl hi => exact judged_congr ha (h.frames i f t c hi)
    | inr hj => exact judged_congr ha hj

theorem Tallied.record (h : Tallied w) {i : Nat} {f : String}
    {ceiling : Nat} (c : Classification) (now : Nat) (frame : w.ingests i = .host f t ceiling)
    (new : f ∉ w.results.map ScanResult.findingId) (room : w.job.findingCount < ceiling) :
    Tallied ({w with
      job := w.job.count c now
      results := w.results ++ [(⟨f,c,t,ceiling⟩ : ScanResult)]}.setIngest i .done) := by
  have judged := h.frames i f t ceiling frame
  refine ⟨?_,?_,?_,fun k r hr => ?_,fun r hr => ?_,fun j g s b hj => ?_⟩
  · change (w.job.count c now).findingCount = (w.results ++ [_]).length
    rw [List.length_append,←h.counted]
    cases c <;> rfl
  · change (w.job.count c now).hostsFound = _
    have hh := h.hosts
    cases c <;> simp only [World.setIngest,ScanJob.count] <;> omega
  · change ((w.results ++ [_]).map ScanResult.findingId).Nodup
    rw [List.map_append]
    refine h.once.append (List.nodup_singleton f) ?_
    simpa using new
  · change (w.results ++ [_])[k]? = some r at hr
    rw [List.getElem?_append] at hr
    split at hr
    · exact h.room k r hr
    · obtain ⟨hz,hr⟩ := List.getElem?_eq_some_iff.mp hr
      rw [List.getElem_singleton] at hr
      subst hr
      have hc := h.counted
      rw [List.length_singleton] at hz
      change k < ceiling
      omega
  · change r ∈ w.results ++ [_] at hr
    change Judged (w.job.count c now) r.ceiling
    refine judged_congr (count_addresses ..) ?_
    rcases List.mem_append.mp hr with hr | hr
    · exact h.judged r hr
    · rw [List.mem_singleton.mp hr]
      exact judged
  · change Judged (w.job.count c now) b
    change Function.update w.ingests i .done j = _ at hj
    by_cases hi : j = i
    · subst j
      rw [Function.update_self] at hj
      cases hj
    · rw [Function.update_of_ne hi] at hj
      exact judged_congr (count_addresses ..) (h.frames j g s b hj)

theorem Tallied.step (h : Tallied w) (hs : Step w act w') :
    Tallied w' := by
  cases step_moved hs with
  | quiet job frame _ => exact h.framed frame (by rw [job]) (by rw [job])
  | shut job frame => exact h.framed frame job.tally job.addresses
  | claimed _ world | released _ _ world =>
    subst world
    exact ⟨h.counted,h.hosts,h.once,h.room,h.judged,h.frames⟩
  | recorded _ frame new room world =>
    subst world
    exact h.record _ _ frame new room
  | stamped _ _ world =>
    subst world
    exact h.framed (.setReconciler ..) rfl rfl

theorem Tallied.bounded (h : Tallied w) {c : Nat}
    (hc : ∀ r ∈ w.results, r.ceiling ≤ c) : w.results.length ≤ c := by
  cases hn : w.results.length with
  | zero => omega
  | succ n =>
    have hl : n < w.results.length := by omega
    have hr := List.getElem?_eq_getElem hl
    have hk := h.room n _ hr
    have hb := hc _ (List.getElem_mem hl)
    omega

/-- A finding that would be stored: it is no replay, and its ceiling is not reached. -/
def World.admits (w : World) (i : Nat) : Bool :=
  match w.ingests i with
  | .host f _ ceiling =>
    decide (f ∉ w.results.map ScanResult.findingId) && decide (w.job.findingCount < ceiling)
  | _ => false

/-- The condition the counter UPDATE leaves out: a finding still to be stored is stored
only while the job is open. -/
def Meets (w : World) : Act → Prop
  | .record i _ _ => w.admits i = true → w.job.status.isOpen = true
  | _ => True

structure Settled (w w' : World) : Prop where
  status : w'.job.status = w.job.status
  results : w'.results = w.results
  tally : w'.job.tally = w.job.tally

theorem step_status (hs : Step w act w')
    (hc : w.job.status.isOpen = false) : w'.job.status = w.job.status := by
  cases step_moved hs with
  | quiet job => rw [job]
  | shut job => rw [job.inert hc]
  | claimed free =>
    rw [claimable_open free] at hc
    cases hc
  | released _ lease =>
    simp [ScanJob.leased] at lease
    rw [lease.2] at hc
    cases hc
  | recorded _ _ _ _ world =>
    subst world
    exact count_status ..
  | stamped _ _ world =>
    subst world
    rfl

theorem admits_host {i : Nat} {f : String} {ceiling : Nat}
    (frame : w.ingests i = .host f t ceiling) (new : f ∉ w.results.map ScanResult.findingId)
    (room : w.job.findingCount < ceiling) : w.admits i = true := by
  simp only [World.admits,frame,Bool.and_eq_true,decide_eq_true_eq]
  exact ⟨new,room⟩

theorem step_settled (hs : Guarded Step Meets w act w')
    (hc : w.job.status.isOpen = false) : Settled w w' := by
  have status := step_status hs.2 hc
  cases step_moved hs.2 with
  | quiet job frame => exact ⟨status,frame.results,by rw [job]⟩
  | shut job frame => exact ⟨status,frame.results,job.tally⟩
  | claimed _ world | released _ _ world | stamped _ _ world =>
    subst world
    exact ⟨status,rfl,rfl⟩
  | recorded label frame new room _ =>
    subst label
    have ho := hs.1 (admits_host frame new room)
    rw [hc] at ho
    cases ho

theorem run_settled {es : List Act} (h : Run (Guarded Step Meets) w es w')
    (hc : w.job.status.isOpen = false) : Settled w w' := by
  induction h with
  | nil => exact ⟨rfl,rfl,rfl⟩
  | snoc _ hs ih =>
    have step := step_settled hs (by rw [ih.status]; exact hc)
    exact ⟨step.status.trans ih.status,step.results.trans ih.results,step.tally.trans ih.tally⟩

def Act.claimant : Act → Option Nat
  | .release d _ _ | .deny d _ _ _ | .qualify d | .portNotGranted d _ _ | .addressLimit d _
  | .build d | .check d | .publish d | .publishFailed d _ => some d
  | _ => none

theorem step_owned {d : Nat} (hl : Leases w)
    (hs : Step w act w') (ha : act.claimant = some d) (ht : (w.dispatchers d).token = some t)
    (hw : w'.job ≠ w.job) : w.job.leased t = true := by
  refine hl.lease d t ht ?_
  by_contra hc
  have hc : w.job.status.isOpen = false := by simpa using hc
  cases step_moved hs with
  | quiet job => exact hw job
  | shut job => exact hw (job.inert hc)
  | claimed free =>
    rw [claimable_open free] at hc
    cases hc
  | released _ lease =>
    simp [ScanJob.leased] at lease
    rw [lease.2] at hc
    cases hc
  | recorded label | stamped label =>
    subst label
    cases ha

theorem start_leases (targets addresses : Nat) (createdAt : Option Nat) :
    Leases (start targets addresses createdAt) where
  apart _ _ _ h := by cases h
  lease _ _ h := by cases h
  stamped _ h := by cases h

theorem start_tallied (targets addresses : Nat) (createdAt : Option Nat) :
    Tallied (start targets addresses createdAt) where
  counted := rfl
  hosts := rfl
  once := List.nodup_nil
  room _ _ h := by simp [start] at h
  judged _ h := by cases h
  frames _ _ _ _ h := by cases h

/-- A dispatcher's writes after its claim reach the job only under the token it claimed. -/
def Fenced (w : World) : Prop :=
  ∀ act w' d t, Step w act w' → act.claimant = some d → (w.dispatchers d).token = some t →
    w'.job ≠ w.job → w.job.dispatchId = some t

/-- Each finding is stored once, each while the rows were fewer than its frame's ceiling. -/
structure Stored (w : World) : Prop where
  once : (w.results.map ScanResult.findingId).Nodup
  room : ∀ k (r : ScanResult), w.results[k]? = some r → k < r.ceiling
  judged : ∀ r ∈ w.results, ∃ config, r.ceiling = dispatchFindingCeiling w.job config
  bounded : ∀ c, (∀ r ∈ w.results, r.ceiling ≤ c) → w.results.length ≤ c

theorem discovery_lease_holds {targets addresses : Nat} {createdAt : Option Nat} {w : World}
    {es : List Act} (h : Run (Guarded Step Meets) (start targets addresses createdAt) es w) :
    (∀ fs w', Run (Guarded Step Meets) w fs w' → w.job.status.isOpen = false →
      w'.job.status = w.job.status ∧ w'.results = w.results ∧ w'.job.tally = w.job.tally) ∧
    Fenced w ∧ Stored w ∧ w.job.findingCount = w.results.length ∧
    w.job.hostsFound = w.job.hostsNew+w.job.hostsUpdated+w.job.hostsConflict := by
  have leases : Leases w :=
    h.unguarded.invariant (fun _ _ _ hl hs => Leases.step hl hs) (start_leases ..)
  have tallied : Tallied w :=
    h.unguarded.invariant (fun _ _ _ ht hs => Tallied.step ht hs) (start_tallied ..)
  refine ⟨fun fs w' hr hc => ?_,fun act w' d t hs ha ht hw => ?_,?_,tallied.counted,tallied.hosts⟩
  · obtain ⟨status,results,tally⟩ := run_settled hr hc
    exact ⟨status,results,tally⟩
  · exact leased_dispatchId (step_owned leases hs ha ht hw)
  · exact ⟨tallied.once,tallied.room,tallied.judged,fun _ hb => tallied.bounded hb⟩

theorem discovery_lease_holds_summary : ∃ w, w.job.status = .completed ∧
    (∀ fs w', Run (Guarded Step Meets) w fs w' → w.job.status.isOpen = false →
      w'.job.status = w.job.status ∧ w'.results = w.results ∧ w'.job.tally = w.job.tally) ∧
    Fenced w ∧ Stored w ∧ w.job.findingCount = w.results.length ∧
    w.job.hostsFound = w.job.hostsNew+w.job.hostsUpdated+w.job.hostsConflict := by
  let config : GrantConfig := ⟨.int 16,.missing⟩
  have run : Run (Guarded Step Meets) (start 1 1 (some 0)) _ _ :=
    .also (.also (.also (.also (.also (.also (.also (.also (.also (.also (.nil _)
      (.of (.read 0) rfl) trivial)
      (.of (.claim 0 7 "v1" config 10) rfl) trivial)
      (.of (.qualify 0) rfl) trivial)
      (.of (.build 0) rfl) trivial)
      (.of (.check 0) rfl) trivial)
      (.of (.publish 0) rfl) trivial)
      (.of (.host 0 7 "f1" "v1" config 11) rfl) trivial)
      (.of (.record 0 .new 12) rfl) fun _ => rfl)
      (.of (.summary 1 7 .completed none 13) rfl) trivial)
      (.of (.finalizeFromSummary 1 14) rfl) trivial
  exact ⟨_,rfl,discovery_lease_holds run⟩

/-- A finding is let in, the job is cancelled, and the finding is stored and counted. -/
theorem finding_stored_after_cancel : ∃ es fs w w',
    Run Step (start 1 1 (some 0)) es w ∧ Run Step w fs w' ∧
    w.job.status = .cancelled ∧ w.results = [] ∧ w.job.findingCount = 0 ∧
    w'.results.length = 1 ∧ w'.job.findingCount = 1 ∧ w'.job.hostsFound = 1 := by
  let config : GrantConfig := ⟨.int 16,.missing⟩
  have before : Run Step (start 1 1 (some 0)) _ _ :=
    .snoc (.snoc (.snoc (.snoc (.snoc (.snoc (.snoc (.snoc (.nil _)
      (.of (.read 0) rfl))
      (.of (.claim 0 7 "v1" config 10) rfl))
      (.of (.qualify 0) rfl))
      (.of (.build 0) rfl))
      (.of (.check 0) rfl))
      (.of (.publish 0) rfl))
      (.of (.host 0 7 "f1" "v1" config 11) rfl))
      (.of (.cancel none 12) rfl)
  exact ⟨_,_,_,_,before,.snoc (.nil _) (.of (.record 0 .new 13) rfl),rfl,rfl,rfl,rfl,rfl,rfl⟩

end CircuitBreaker.DiscoveryLease
