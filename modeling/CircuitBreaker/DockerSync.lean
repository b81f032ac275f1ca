import CircuitBreaker.ProbeRuns
import Mathlib.Data.List.Basic

/-! Docker sync runs of one source. A run is admitted under the source's row lock, claimed
under its own, applied under both, and failed or interrupted by whoever finds it so. Every
statement is a step; a locked row waits for its holder, and a plain read sees what is
committed. Lease tokens are the numbers of the workers, and runs are numbered as they are
inserted. -/

namespace CircuitBreaker.DockerSync
open StepRuns
open ProbeRuns (written written_cases)

inductive RunStatus where
  | queued | running | succeeded | partially | failed | interrupted
  deriving DecidableEq

def RunStatus.isActive : RunStatus → Bool
  | .queued | .running => true
  | _ => false

structure DockerReconciliationResult where
  containersCreated : Nat := 0
  containersUpdated : Nat := 0
  containersStopped : Nat := 0
  networksCreated : Nat := 0
  networksUpdated : Nat := 0
  conflicts : Nat := 0

structure DockerSyncRun where
  sourceRevision : Int
  triggeredBy : String
  createdAt : Nat
  status : RunStatus := .queued
  leaseToken : Option Nat := none
  leaseExpiresAt : Option Nat := none
  startedAt : Option Nat := none
  completedAt : Option Nat := none
  containersComplete : Bool := false
  networksComplete : Bool := false
  containersObserved : Nat := 0
  networksObserved : Nat := 0
  result : DockerReconciliationResult := {}
  reasonCode : Option String := none
  safeMessage : Option String := none

structure DockerSource where
  enabled : Bool := true
  revision : Int := 1
  lastAttemptAt : Option Nat := none
  lastSuccessAt : Option Nat := none

inductive Outcome where
  | success | partially | failed
  deriving DecidableEq

/-- What a worker saw of the daemon; `X` stands for the observations. -/
structure DockerEnumeration (X : Type) where
  outcome : Outcome
  containersComplete : Bool
  networksComplete : Bool
  containersObserved : Nat
  networksObserved : Nat
  reasonCode : Option String
  safeMessage : Option String
  completedAt : Nat
  observations : X

def runLease : Nat := 120

def DockerSyncRun.expired (run : DockerSyncRun) (now : Nat) : Bool :=
  match run.leaseExpiresAt with
  | some expires => run.status.isActive && expires ≤ now
  | none => false

/-- `_interrupt_expired_runs` on one of the rows it selects. -/
def DockerSyncRun.interrupt (run : DockerSyncRun) (now : Nat) : DockerSyncRun :=
  {run with
    status := .interrupted
    completedAt := some now
    reasonCode := some "lease_expired"
    safeMessage := some "The Docker sync worker stopped before completing the run."
    leaseToken := none
    leaseExpiresAt := none}

def DockerSyncRun.lapse (run : DockerSyncRun) (now : Nat) : DockerSyncRun :=
  {run with
    status := .interrupted
    completedAt := some now
    reasonCode := some "lease_expired"
    safeMessage := some "The Docker sync worker stopped before completing the run."
    leaseExpiresAt := none}

def DockerSyncRun.claim (run : DockerSyncRun) (token now : Nat) : DockerSyncRun :=
  {run with
    status := .running
    startedAt := some now
    leaseToken := some token
    leaseExpiresAt := some (now+120)}

/-- Why `_fail_run` is called. -/
inductive Failure where
  | sourceChanged | runStartFailed | staleRun | reconciliationFailed

def Failure.reasonCode : Failure → String
  | .sourceChanged => "source_changed"
  | .runStartFailed => "run_start_failed"
  | .staleRun => "stale_run"
  | .reconciliationFailed => "reconciliation_failed"

def Failure.safeMessage : Failure → String
  | .sourceChanged => "Docker source configuration changed before this run started."
  | .runStartFailed => "The Docker sync could not be started."
  | .staleRun => "A newer source change or sync superseded this Docker run."
  | .reconciliationFailed => "Docker observations could not be reconciled safely."

def DockerSyncRun.fail (run : DockerSyncRun) (failure : Failure) (now : Nat) : DockerSyncRun :=
  {run with
    status := .failed
    reasonCode := some failure.reasonCode
    safeMessage := some failure.safeMessage
    completedAt := some now
    leaseToken := none
    leaseExpiresAt := none}

/-- The `UPDATE` of `_fail_run`: the columns whose value is not the loaded one. -/
def DockerSyncRun.flushFailed (loaded failed current : DockerSyncRun) : DockerSyncRun :=
  {current with
    status := written loaded.status failed.status current.status
    reasonCode := written loaded.reasonCode failed.reasonCode current.reasonCode
    safeMessage := written loaded.safeMessage failed.safeMessage current.safeMessage
    completedAt := written loaded.completedAt failed.completedAt current.completedAt
    leaseToken := written loaded.leaseToken failed.leaseToken current.leaseToken
    leaseExpiresAt := written loaded.leaseExpiresAt failed.leaseExpiresAt current.leaseExpiresAt}

section Model
variable {T X : Type}

def DockerSyncRun.finish (run : DockerSyncRun) (seen : DockerEnumeration X)
    (result : DockerReconciliationResult) : DockerSyncRun :=
  {run with
    containersComplete := seen.containersComplete
    networksComplete := seen.networksComplete
    containersObserved := seen.containersObserved
    networksObserved := seen.networksObserved
    reasonCode := seen.reasonCode
    safeMessage := seen.safeMessage
    result := if seen.outcome = .failed then run.result else result
    status :=
      match seen.outcome with
      | .failed => .failed
      | .success => .succeeded
      | .partially => .partially
    completedAt := some seen.completedAt
    leaseToken := none
    leaseExpiresAt := none}

inductive Stage (X : Type) where
  | idle
  | locked (run : Nat)
  | claiming (run now : Nat)
  | lapsing (run now : Nat)
  | enumerating (run : Nat)
  | enumerated (run : Nat) (seen : DockerEnumeration X)
  | sourceLocked (run : Nat) (seen : DockerEnumeration X)
  | runLocked (run : Nat) (seen : DockerEnumeration X)
  | applying (run : Nat) (seen : DockerEnumeration X)
  | emitting (run : Nat)
  | failing (run : Nat) (failure : Failure)
  | failLoaded (run : Nat) (failure : Failure) (loaded : DockerSyncRun) (now : Nat)
  | failTouched (run : Nat) (failure : Failure) (loaded : DockerSyncRun) (now : Nat)
  | done

inductive Owner where
  | worker (k : Nat) | call (c : Nat)
  deriving DecidableEq

/-- A `start_sync` that holds the source row, with the time it took when it was called. -/
structure StartCall where
  current : Nat
  actor : String

structure World (T X : Type) where
  source : DockerSource := {}
  runs : List DockerSyncRun := []
  tables : T
  sourceLock : Option Owner := none
  runLock : Nat → Option Nat := fun _ => none
  calls : Nat → Option StartCall := fun _ => none
  stage : Nat → Stage X := fun _ => .idle
  /-- The worker that claimed a run; kept for the statement, read by nothing. -/
  claimed : Nat → Option Nat := fun _ => none

inductive Act (X : Type) where
  | startLock (c current : Nat) (actor : String)
  | startFinish (c : Nat)
  | startAbort (c : Nat)
  | claimLock (k run : Nat)
  | claimCheck (k now : Nat) (sameIdentity : Bool)
  | claimCommit (k : Nat)
  | claimFault (k run : Nat)
  | enumerate (k : Nat) (seen : DockerEnumeration X)
  | applyLockSource (k : Nat)
  | applyLockRun (k : Nat)
  | applyCheck (k : Nat)
  | applyCommit (k : Nat)
  | applyFault (k : Nat)
  | emit (k : Nat)
  | failLoad (k now : Nat)
  | failTouch (k : Nat)
  | failCommit (k : Nat)
  | crash (k : Nat)
  | interrupt (now : Nat)
  | assign (expectedRevision : Int)
  | revise (revision : Int) (enabled : Bool)

def World.to (w : World T X) (k : Nat) (stage : Stage X) : World T X :=
  {w with stage := Function.update w.stage k stage}

def World.release (w : World T X) (k : Nat) : World T X :=
  {w with
    sourceLock := if w.sourceLock = some (.worker k) then none else w.sourceLock
    runLock := fun i => if w.runLock i = some k then none else w.runLock i}

def World.active (w : World T X) : Bool := w.runs.any fun run => run.status.isActive

/-- A selected row is locked by a transaction that has not ended: the statement waits. -/
def World.expiredLocked (w : World T X) (now : Nat) : Bool :=
  (List.range w.runs.length).any fun i =>
    (w.runLock i).isSome && ((w.runs[i]?).any fun run => run.expired now)

def World.newer (w : World T X) (run : DockerSyncRun) : Bool :=
  w.runs.any fun other => run.createdAt < other.createdAt

def World.store (w : World T X) (i : Nat) (run : DockerSyncRun) : World T X :=
  {w with runs := w.runs.set i run}

/-- The checks of `apply_reconciliation`. -/
def World.owns (w : World T X) (k i : Nat) : Bool :=
  match w.runs[i]? with
  | none => false
  | some run => run.status = .running && run.leaseToken = some k &&
      run.sourceRevision = w.source.revision && !w.newer run

variable (reconcile : T → DockerSource → DockerEnumeration X → T × DockerReconciliationResult)

def World.apply (w : World T X) (i : Nat) (run : DockerSyncRun) (seen : DockerEnumeration X) :
    World T X :=
  let planned := reconcile w.tables w.source seen
  {w.store i (run.finish seen planned.2) with
    tables := if seen.outcome = .failed then w.tables else planned.1
    source := {w.source with
      lastAttemptAt := some seen.completedAt
      lastSuccessAt :=
        if seen.outcome = .success then some seen.completedAt else w.source.lastSuccessAt}}

def next (w : World T X) : Act X → Option (World T X)
  | .startLock c current actor =>
    match w.calls c,w.sourceLock with
    | none,none =>
      if w.source.enabled then
        some {w with
          sourceLock := some (.call c)
          calls := Function.update w.calls c (some ⟨current,actor⟩)}
      else some w
    | _,_ => none
  | .startFinish c =>
    match w.calls c with
    | none => none
    | some call =>
      if w.expiredLocked call.current then none
      else
        let ended : World T X :=
          {w with sourceLock := none, calls := Function.update w.calls c none}
        -- the session does not flush by itself, so the query sees the expired runs as they were,
        -- and the conflict rolls their interruption back
        if w.active then some ended
        else some {ended with runs := w.runs ++ [{
          sourceRevision := w.source.revision
          triggeredBy := String.ofList (call.actor.toList.take 200)
          createdAt := call.current
          leaseExpiresAt := some (call.current+runLease)}]}
  | .startAbort c =>
    match w.calls c with
    | none => none
    | some _ => some {w with sourceLock := none, calls := Function.update w.calls c none}
  | .claimLock k i =>
    match w.stage k with
    | .idle =>
      if i < w.runs.length ∧ w.runLock i = none then
        let held : World T X := {w with runLock := Function.update w.runLock i (some k)}
        some (held.to k (.locked i))
      else none
    | _ => none
  | .claimCheck k now sameIdentity =>
    match w.stage k with
    | .locked i =>
      match w.runs[i]? with
      | none => none
      | some run =>
        if run.status ≠ .queued then some ((w.release k).to k .done)
        else if run.expired now then some (w.to k (.lapsing i now))
        else if ¬ sameIdentity ∨ run.sourceRevision ≠ w.source.revision then
          some ((w.release k).to k (.failing i .sourceChanged))
        else some (w.to k (.claiming i now))
    | _ => none
  | .claimCommit k =>
    match w.stage k with
    | .claiming i now =>
      match w.runs[i]?,w.sourceLock with
      | some run,none =>
        let stored : World T X := {w.store i (run.claim k now) with
          source := {w.source with lastAttemptAt := some now}
          claimed := Function.update w.claimed i (some k)}
        some ((stored.release k).to k (.enumerating i))
      | _,_ => none
    | .lapsing i now =>
      match w.runs[i]? with
      | some run => some (((w.store i (run.lapse now)).release k).to k .done)
      | none => none
    | _ => none
  | .claimFault k i =>
    match w.stage k with
    | .idle => some (w.to k (.failing i .runStartFailed))
    | .locked j | .claiming j _ | .lapsing j _ =>
      some ((w.release k).to k (.failing j .runStartFailed))
    | _ => none
  | .enumerate k seen =>
    match w.stage k with
    | .enumerating i => some (w.to k (.enumerated i seen))
    | _ => none
  | .applyLockSource k =>
    match w.stage k,w.sourceLock with
    | .enumerated i seen,none =>
      let held : World T X := {w with sourceLock := some (.worker k)}
      some (held.to k (.sourceLocked i seen))
    | _,_ => none
  | .applyLockRun k =>
    match w.stage k with
    | .sourceLocked i seen =>
      if w.runLock i = none then
        let held : World T X := {w with runLock := Function.update w.runLock i (some k)}
        some (held.to k (.runLocked i seen))
      else none
    | _ => none
  | .applyCheck k =>
    match w.stage k with
    | .runLocked i seen =>
      if w.owns k i then some (w.to k (.applying i seen))
      else some ((w.release k).to k (.failing i .staleRun))
    | _ => none
  | .applyCommit k =>
    match w.stage k with
    | .applying i seen =>
      match w.runs[i]? with
      | some run => some (((w.apply reconcile i run seen).release k).to k (.emitting i))
      | none => none
    | _ => none
  | .applyFault k =>
    match w.stage k with
    -- what follows the commit is under the same handler
    | .enumerated i _ | .sourceLocked i _ | .runLocked i _ | .applying i _ | .emitting i =>
      some ((w.release k).to k (.failing i .reconciliationFailed))
    | _ => none
  | .emit k =>
    match w.stage k with
    | .emitting _ => some (w.to k .done)
    | _ => none
  | .failLoad k now =>
    match w.stage k with
    | .failing i failure =>
      match w.runs[i]? with
      | none => some (w.to k .done)
      | some run =>
        if run.status.isActive then some (w.to k (.failLoaded i failure run now))
        else some (w.to k .done)
    | _ => none
  | .failTouch k =>
    match w.stage k,w.sourceLock with
    | .failLoaded i failure loaded now,none =>
      let held : World T X := {w with sourceLock := some (.worker k)}
      some (held.to k (.failTouched i failure loaded now))
    | _,_ => none
  | .failCommit k =>
    match w.stage k with
    | .failTouched i failure loaded now =>
      match w.runs[i]?,w.runLock i with
      | some run,none =>
        let stored : World T X :=
          {w.store i (loaded.flushFailed (loaded.fail failure now) run) with
            source := {w.source with lastAttemptAt := some now}}
        some ((stored.release k).to k .done)
      | _,_ => none
    | _ => none
  | .crash k => some ((w.release k).to k .done)
  | .interrupt now =>
    if w.expiredLocked now then none
    else some {w with runs := w.runs.map fun run => if run.expired now then run.interrupt now else run}
  | .assign expectedRevision =>
    match w.sourceLock with
    | some _ => none
    | none =>
      if w.source.revision = expectedRevision then
        some {w with source := {w.source with revision := w.source.revision+1}}
      else some w
  | .revise revision enabled =>
    match w.sourceLock with
    | some _ => none
    | none => some {w with source := {w.source with revision := revision, enabled := enabled}}

def Step (w : World T X) (act : Act X) (w' : World T X) : Prop := next reconcile w act = some w'

def Act.worker : Act X → Option Nat
  | .claimLock k _ | .claimCheck k _ _ | .claimCommit k | .claimFault k _ | .enumerate k _
  | .applyLockSource k | .applyLockRun k | .applyCheck k | .applyCommit k | .applyFault k
  | .emit k | .failLoad k _ | .failTouch k | .failCommit k | .crash k => some k
  | _ => none

/-- When `_fail_run` writes, the run is still active and no other worker has claimed it. -/
def StillOpen (w : World T X) : Act X → Prop
  | .failCommit k => ∀ i failure loaded now run, w.stage k = .failTouched i failure loaded now →
    w.runs[i]? = some run →
      run.status.isActive = true ∧ ∀ other, w.claimed i = some other → other = k
  | _ => True

def OneActive (w : World T X) : Prop :=
  ∀ (i j : Nat) (r s : DockerSyncRun), w.runs[i]? = some r → w.runs[j]? = some s →
    r.status.isActive = true → s.status.isActive = true → i = j

structure Exclusive (w : World T X) (act : Act X) (w' : World T X) : Prop where
  applied : w'.tables ≠ w.tables → ∃ (k i : Nat) (run : DockerSyncRun), act = .applyCommit k ∧ w.runs[i]? = some run ∧
    run.status = .running ∧ run.leaseToken = some k ∧ run.sourceRevision = w.source.revision ∧
    ∀ other ∈ w.runs, other.createdAt ≤ run.createdAt
  final : ∀ (i : Nat) (run : DockerSyncRun), w.runs[i]? = some run →
    run.status.isActive = false → w'.runs[i]? = some run
  claimant : ∀ (i : Nat) (run : DockerSyncRun) (k : Nat), w.runs[i]? = some run →
    w.claimed i = some k → w'.runs[i]? = some run ∨ act.worker = some k ∨
      ∃ now, act = .interrupt now ∧ run.expired now = true

end Model

section Proofs
variable {T X : Type} {w w' w₁ : World T X} {k : Nat}

def Placed (w : World T X) (k : Nat) : Stage X → Prop
  | .locked i => w.runLock i = some k
  | .claiming i _ | .lapsing i _ =>
    w.runLock i = some k ∧ ∃ run, w.runs[i]? = some run ∧ run.status = .queued
  | .sourceLocked _ _ => w.sourceLock = some (.worker k)
  | .failLoaded _ _ loaded _ => loaded.status.isActive = true
  | .failTouched _ _ loaded _ =>
    w.sourceLock = some (.worker k) ∧ loaded.status.isActive = true
  | .runLocked i _ => w.sourceLock = some (.worker k) ∧ w.runLock i = some k
  | .applying i _ =>
    w.sourceLock = some (.worker k) ∧ w.runLock i = some k ∧ w.owns k i = true
  | _ => True

structure Respects (w w' : World T X) (k : Nat) : Prop where
  rows : ∀ i, w.runLock i = some k → w'.runLock i = some k ∧
    ∀ run, w.runs[i]? = some run → w'.runs[i]? = some run
  source : w.sourceLock = some (.worker k) → w'.sourceLock = some (.worker k) ∧
    w'.source.revision = w.source.revision ∧ ∀ run, w'.newer run = w.newer run

variable {stage : Stage X}

theorem Placed.mono (h : Placed w k stage) (respects : Respects w w' k) :
    Placed w' k stage := by
  cases stage with
  | locked i => exact (respects.rows i h).1
  | claiming i now | lapsing i now =>
    obtain ⟨held,run,hr,queued⟩ := h
    obtain ⟨lock,row⟩ := respects.rows i held
    exact ⟨lock,run,row run hr,queued⟩
  | sourceLocked => exact (respects.source h).1
  | failLoaded => exact h
  | failTouched => exact ⟨(respects.source h.1).1,h.2⟩
  | runLocked i seen => exact ⟨(respects.source h.1).1,(respects.rows i h.2).1⟩
  | applying i seen =>
    obtain ⟨hsource,hrun,owns⟩ := h
    obtain ⟨source,revision,newer⟩ := respects.source hsource
    obtain ⟨lock,row⟩ := respects.rows i hrun
    refine ⟨source,lock,?_⟩
    unfold World.owns at owns ⊢
    split at owns
    case h_1 => cases owns
    case h_2 run hr =>
      rw [row run hr]
      simp only [revision,newer]
      exact owns
  | _ => trivial

structure Rows (w : World T X) : Prop where
  single : ∀ (i j : Nat) (r s : DockerSyncRun), w.runs[i]? = some r → w.runs[j]? = some s →
    r.status.isActive = true → s.status.isActive = true → i = j
  token : ∀ (i : Nat) (r : DockerSyncRun) (k : Nat), w.runs[i]? = some r →
    r.leaseToken = some k → w.claimed i = some k
  fresh : ∀ (i : Nat) (r : DockerSyncRun) (k : Nat), w.runs[i]? = some r →
    w.claimed i = some k → r.status ≠ .queued
  known : ∀ i k, w.claimed i = some k → i < w.runs.length

structure Sound (w : World T X) : Prop where
  placed : ∀ k, Placed w k (w.stage k)
  calls : ∀ c call, w.calls c = some call → w.sourceLock = some (.call c)
  rows : Rows w

theorem sound_start (tables : T) : Sound ({tables := tables} : World T X) where
  placed := fun _ => trivial
  calls := fun _ _ h => nomatch h
  rows := {
    single := fun _ _ _ _ h => nomatch h
    token := fun _ _ _ h => nomatch h
    fresh := fun _ _ _ h => nomatch h
    known := fun _ _ h => nomatch h}

theorem Sound.move (h : Sound w) (stages : w₁.stage = w.stage)
    (respects : ∀ j, j ≠ k → Respects w w₁ j) (placed : Placed w₁ k stage)
    (calls : ∀ c call, w₁.calls c = some call → w₁.sourceLock = some (.call c)) (rows : Rows w₁) :
    Sound (w₁.to k stage) where
  placed := by
    intro j
    change Placed w₁ j (Function.update w₁.stage k stage j)
    by_cases hj : j = k
    · subst hj
      rw [Function.update_self]
      exact placed
    · rw [Function.update_of_ne hj,stages]
      exact (h.placed j).mono (respects j hj)
  calls := calls
  rows := ⟨rows.single,rows.token,rows.fresh,rows.known⟩

theorem Respects.refl (w : World T X) (k : Nat) : Respects w w k :=
  ⟨fun _ h => ⟨h,fun _ hr => hr⟩,fun h => ⟨h,rfl,fun _ => rfl⟩⟩

theorem Respects.release (h : Respects w w₁ k) {j : Nat} (ne : k ≠ j) :
    Respects w (w₁.release j) k where
  rows := by
    intro i hi
    obtain ⟨lock,row⟩ := h.rows i hi
    refine ⟨?_,row⟩
    simp only [World.release,lock,Option.some.injEq,ne,if_false]
  source := by
    intro hs
    obtain ⟨lock,revision,newer⟩ := h.source hs
    refine ⟨?_,revision,newer⟩
    simp only [World.release,lock,Option.some.injEq,Owner.worker.injEq,ne,if_false]

theorem Sound.to (h : Sound w) (placed : Placed w k stage) : Sound (w.to k stage) :=
  h.move rfl (fun j _ => .refl w j) placed h.calls h.rows

theorem calls_release
    (calls : ∀ c call, w.calls c = some call → w.sourceLock = some (.call c)) :
    ∀ c call, (w.release k).calls c = some call → (w.release k).sourceLock = some (.call c) := by
  intro c call hc
  have lock := calls c call hc
  simp only [World.release,lock,Option.some.injEq,reduceCtorEq,if_false]

theorem Sound.leave (h : Sound w) (placed : ∀ v : World T X, Placed v k stage) :
    Sound ((w.release k).to k stage) :=
  h.move rfl (fun j hj => (Respects.refl w j).release hj) (placed _) (calls_release h.calls)
    ⟨h.rows.single,h.rows.token,h.rows.fresh,h.rows.known⟩

theorem Rows.replace (h : Rows w) (length : w'.runs.length = w.runs.length)
    (claimed : ∀ i k, w'.claimed i = some k → i < w.runs.length)
    (old : ∀ (i : Nat) (r' : DockerSyncRun), w'.runs[i]? = some r' → ∃ r, w.runs[i]? = some r ∧
      (r'.status.isActive = true → r.status.isActive = true) ∧
      (∀ k, r'.leaseToken = some k → w'.claimed i = some k) ∧
      ∀ k, w'.claimed i = some k → r'.status ≠ .queued) : Rows w' where
  single := by
    intro i j r s hr hs ar as
    obtain ⟨r₀,hr₀,har,_⟩ := old i r hr
    obtain ⟨s₀,hs₀,has,_⟩ := old j s hs
    exact h.single i j r₀ s₀ hr₀ hs₀ (har ar) (has as)
  token := fun i r k hr => (old i r hr).choose_spec.2.2.1 k
  fresh := fun i r k hr => (old i r hr).choose_spec.2.2.2 k
  known := fun i k hk => length ▸ claimed i k hk

section Store
variable {i : Nat} {r r' : DockerSyncRun}

theorem getElem?_store (hr : w.runs[i]? = some r) {j : Nat} {s : DockerSyncRun}
    (h : (w.runs.set i r')[j]? = some s) : (j = i ∧ s = r') ∨ (j ≠ i ∧ w.runs[j]? = some s) := by
  by_cases eq : j = i
  · subst eq
    obtain ⟨inside,_⟩ := List.getElem?_eq_some_iff.mp hr
    rw [List.getElem?_set_self inside] at h
    exact .inl ⟨rfl,(Option.some.inj h).symm⟩
  · rw [List.getElem?_set_ne (Ne.symm eq)] at h
    exact .inr ⟨eq,h⟩

theorem newer_of_times (h : w₁.runs.map (·.createdAt) = w.runs.map (·.createdAt))
    (run : DockerSyncRun) : w₁.newer run = w.newer run := by
  have any : ∀ l : List DockerSyncRun, (l.any fun other => run.createdAt < other.createdAt) =
      (l.map (·.createdAt)).any fun t => run.createdAt < t := fun l => by
    rw [List.any_map]
    rfl
  rw [World.newer,World.newer,any,any,h]

theorem Respects.store (hr : w.runs[i]? = some r) (runs : w₁.runs = w.runs.set i r')
    (same : r'.createdAt = r.createdAt) (lock : w₁.runLock = w.runLock)
    (source : w₁.sourceLock = w.sourceLock) (revision : w₁.source.revision = w.source.revision)
    (free : w.runLock i ≠ some k) : Respects w w₁ k where
  rows := by
    intro j hj
    have ne : i ≠ j := fun eq => free (eq ▸ hj)
    rw [lock,runs,List.getElem?_set_ne ne]
    exact ⟨hj,fun _ hr => hr⟩
  source := by
    intro hs
    refine ⟨source.trans hs,revision,newer_of_times ?_⟩
    rw [runs,List.map_set,same]
    refine List.ext_getElem? fun j => ?_
    by_cases eq : i = j
    · subst eq
      obtain ⟨inside,_⟩ := List.getElem?_eq_some_iff.mp hr
      rw [List.getElem?_set_self (by simpa using inside),List.getElem?_map,hr]
      rfl
    · rw [List.getElem?_set_ne eq]

theorem Rows.store (h : Rows w) (hr : w.runs[i]? = some r) (runs : w₁.runs = w.runs.set i r')
    (others : ∀ j, j ≠ i → w₁.claimed j = w.claimed j)
    (active : r'.status.isActive = true → r.status.isActive = true)
    (token : ∀ k, r'.leaseToken = some k → w₁.claimed i = some k)
    (fresh : ∀ k, w₁.claimed i = some k → r'.status ≠ .queued) : Rows w₁ := by
  obtain ⟨inside,_⟩ := List.getElem?_eq_some_iff.mp hr
  refine h.replace (by rw [runs,List.length_set]) (fun j k hk => ?_) (fun j s hs => ?_)
  · by_cases eq : j = i
    · rw [eq]
      exact inside
    · rw [others j eq] at hk
      exact h.known j k hk
  · rw [runs] at hs
    obtain ⟨rfl,rfl⟩ | ⟨ne,hs⟩ := getElem?_store hr hs
    · exact ⟨r,hr,active,token,fresh⟩
    · rw [others j ne]
      exact ⟨s,hs,id,fun k => h.token j s k hs,fun k => h.fresh j s k hs⟩

theorem Sound.store (h : Sound w) {stage : Stage X} (placed : ∀ v : World T X, Placed v k stage)
    (hr : w.runs[i]? = some r) (runs : w₁.runs = w.runs.set i r') (same : r'.createdAt = r.createdAt)
    (lock : w₁.runLock = w.runLock) (source : w₁.sourceLock = w.sourceLock)
    (revision : w₁.source.revision = w.source.revision) (stages : w₁.stage = w.stage)
    (calls : w₁.calls = w.calls) (free : ∀ j, j ≠ k → w.runLock i ≠ some j) (rows : Rows w₁) :
    Sound ((w₁.release k).to k stage) := by
  refine h.move stages (fun j hj => ?_) (placed _) ?_ ⟨rows.single,rows.token,rows.fresh,rows.known⟩
  · exact (Respects.store hr runs same lock source revision (free j hj)).release hj
  · refine calls_release fun c call hc => ?_
    rw [calls] at hc
    rw [source]
    exact h.calls c call hc

end Store

variable {i : Nat}

theorem locked_alone {j : Nat} (h : w.runLock i = some k) (ne : j ≠ k) : w.runLock i ≠ some j :=
  fun eq => ne (Option.some.inj (eq.symm.trans h))

variable {now : Nat} {r : DockerSyncRun}

theorem interrupted_row (hr : w.runs[i]? = some r) :
    (w.runs.map fun run => if run.expired now then run.interrupt now else run)[i]? =
      some (if r.expired now then r.interrupt now else r) := by
  rw [List.getElem?_map,hr]
  rfl

theorem expiredLocked_free (h : ¬ w.expiredLocked now = true)
    (hr : w.runs[i]? = some r) (expired : r.expired now = true) : w.runLock i = none := by
  simp only [World.expiredLocked,List.any_eq_true,List.mem_range,not_exists,not_and] at h
  obtain ⟨inside,_⟩ := List.getElem?_eq_some_iff.mp hr
  have free := h i inside
  rw [hr] at free
  simpa [expired] using free

theorem expired_active (h : r.expired now = true) :
    r.status.isActive = true := by
  unfold DockerSyncRun.expired at h
  split at h
  · exact (Bool.and_eq_true_iff.mp h).1
  · cases h

theorem Sound.shared (h : Sound w) (stages : w₁.stage = w.stage) (respects : ∀ j, Respects w w₁ j)
    (calls : ∀ c call, w₁.calls c = some call → w₁.sourceLock = some (.call c)) (rows : Rows w₁) :
    Sound w₁ where
  placed := by
    intro j
    rw [stages]
    exact (h.placed j).mono (respects j)
  calls := calls
  rows := rows

theorem Respects.called {c : Nat} (held : w.sourceLock = some (.call c)) (lock : w₁.runLock = w.runLock)
    (runs : ∀ (i : Nat) (run : DockerSyncRun), w.runs[i]? = some run → w₁.runs[i]? = some run) :
    Respects w w₁ k where
  rows := fun i hi => ⟨lock ▸ hi,runs i⟩
  source := by
    intro hs
    rw [held] at hs
    cases hs

theorem Rows.added (h : Rows w) (idle : ¬ w.active = true) {run : DockerSyncRun}
    (runs : w₁.runs = w.runs ++ [run]) (claimed : w₁.claimed = w.claimed)
    (token : run.leaseToken = none) : Rows w₁ := by
  have split : ∀ (i : Nat) (r : DockerSyncRun), w₁.runs[i]? = some r →
      w.runs[i]? = some r ∨ (i = w.runs.length ∧ r = run) := by
    intro i r hr
    rw [runs] at hr
    rcases Nat.lt_trichotomy i w.runs.length with lt | rfl | gt
    · rw [List.getElem?_append_left lt] at hr
      exact .inl hr
    · rw [List.getElem?_concat_length] at hr
      exact .inr ⟨rfl,(Option.some.inj hr).symm⟩
    · rw [List.getElem?_eq_none (by simp; omega)] at hr
      cases hr
  have quiet : ∀ (i : Nat) (r : DockerSyncRun), w.runs[i]? = some r → ¬ r.status.isActive = true :=
    fun i r hr active => idle (List.any_eq_true.mpr ⟨r,List.mem_of_getElem? hr,active⟩)
  refine ⟨?_,?_,?_,?_⟩
  · intro i j r s hr hs ar as
    obtain hr | ⟨rfl,_⟩ := split i r hr
    · exact absurd ar (quiet i r hr)
    · obtain hs | ⟨rfl,_⟩ := split j s hs
      · exact absurd as (quiet j s hs)
      · rfl
  · intro i r k hr ht
    rw [claimed]
    obtain hr | ⟨_,rfl⟩ := split i r hr
    · exact h.token i r k hr ht
    · rw [token] at ht
      cases ht
  · intro i r k hr hk
    rw [claimed] at hk
    obtain hr | ⟨rfl,_⟩ := split i r hr
    · exact h.fresh i r k hr hk
    · exact absurd (h.known _ k hk) (Nat.lt_irrefl _)
  · intro i k hk
    rw [claimed] at hk
    have inside := h.known i k hk
    rw [runs,List.length_append]
    omega

theorem Sound.interrupt (h : Sound w) (free : ¬ w.expiredLocked now = true) :
    Sound {w with
      runs := w.runs.map fun run => if run.expired now then run.interrupt now else run} := by
  refine h.shared rfl (fun j => ⟨fun i hi => ⟨hi,fun run hr => ?_⟩,fun hs => ⟨hs,rfl,?_⟩⟩)
    h.calls ?_
  · refine (interrupted_row hr).trans ?_
    rw [if_neg]
    intro expired
    rw [expiredLocked_free free hr expired] at hi
    cases hi
  · refine newer_of_times ?_
    rw [List.map_map]
    refine List.map_congr_left fun run _ => ?_
    simp only [Function.comp]
    split <;> rfl
  · refine h.rows.replace (by simp) (fun i k hk => h.rows.known i k hk) (fun i r' hr' => ?_)
    rw [List.getElem?_map] at hr'
    obtain ⟨r,hr,rfl⟩ := Option.map_eq_some_iff.mp hr'
    refine ⟨r,hr,?_⟩
    split
    case isTrue expired =>
      exact ⟨nofun,nofun,nofun⟩
    case isFalse =>
      exact ⟨id,fun k => h.rows.token i r k hr,fun k => h.rows.fresh i r k hr⟩

variable {reconcile : T → DockerSource → DockerEnumeration X → T × DockerReconciliationResult}

variable {run : DockerSyncRun}

theorem Sound.claim (h : Sound w)
    (hs : w.stage k = .claiming i now) (hr : w.runs[i]? = some run) :
    Sound (({w.store i (run.claim k now) with
      source := {w.source with lastAttemptAt := some now}
      claimed := Function.update w.claimed i (some k)} : World T X).release k |>.to k
        (.enumerating i)) := by
  obtain ⟨held,_,hq,queued⟩ : Placed w k (.claiming i now) := hs ▸ h.placed k
  rw [hr] at hq
  cases hq
  refine h.store (fun _ => trivial) hr rfl rfl rfl rfl rfl rfl rfl
    (fun j hj => locked_alone held hj) ?_
  refine h.rows.store hr rfl (fun j hj => Function.update_of_ne hj _ _) (fun _ => ?_)
    (fun j ht => ?_) nofun
  · rw [queued]
    rfl
  · cases ht
    exact Function.update_self ..

theorem Sound.lapse (h : Sound w)
    (hs : w.stage k = .lapsing i now) (hr : w.runs[i]? = some run) :
    Sound (((w.store i (run.lapse now)).release k).to k .done) := by
  obtain ⟨held,_,hq,queued⟩ : Placed w k (.lapsing i now) := hs ▸ h.placed k
  refine h.store (fun _ => trivial) hr rfl rfl rfl rfl rfl rfl rfl
    (fun j hj => locked_alone held hj) ?_
  exact h.rows.store hr rfl (fun _ _ => rfl) nofun
    (fun j ht => h.rows.token i run j hr ht) nofun

theorem Sound.applied (h : Sound w) {seen : DockerEnumeration X}
    (hs : w.stage k = .applying i seen) (hr : w.runs[i]? = some run) :
    Sound (((w.apply reconcile i run seen).release k).to k (.emitting i)) := by
  obtain ⟨_,held,_⟩ : Placed w k (.applying i seen) := hs ▸ h.placed k
  refine h.store (fun _ => trivial) hr rfl rfl rfl rfl rfl rfl rfl
    (fun j hj => locked_alone held hj) ?_
  have inactive : ¬ (run.finish seen (reconcile w.tables w.source seen).2).status.isActive = true := by
    simp only [DockerSyncRun.finish]
    cases seen.outcome <;> simp [RunStatus.isActive]
  refine h.rows.store hr rfl (fun _ _ => rfl) (fun a => absurd a inactive) nofun
    (fun _ _ q => inactive ?_)
  rw [q]
  rfl

theorem flushFailed_status {loaded current : DockerSyncRun} {failure : Failure} {now : Nat}
    (active : loaded.status.isActive = true) :
    (loaded.flushFailed (loaded.fail failure now) current).status = .failed := by
  have ne : RunStatus.failed ≠ loaded.status := fun eq => by
    rw [←eq] at active
    cases active
  exact if_neg ne

theorem flushFailed_token {loaded current : DockerSyncRun} {failure : Failure} {token : Nat}
    (h : (loaded.flushFailed (loaded.fail failure now) current).leaseToken = some token) :
    current.leaseToken = some token := by
  change written loaded.leaseToken none current.leaseToken = some token at h
  rcases written_cases loaded.leaseToken none current.leaseToken with eq | eq
  · exact eq.symm.trans h
  · rw [eq] at h
    cases h

theorem Sound.failed (h : Sound w) {i now : Nat} {run loaded : DockerSyncRun} {failure : Failure}
    (hs : w.stage k = .failTouched i failure loaded now) (hr : w.runs[i]? = some run)
    (free : w.runLock i = none) :
    Sound (({w.store i (loaded.flushFailed (loaded.fail failure now) run) with
      source := {w.source with lastAttemptAt := some now}} : World T X).release k |>.to k .done) := by
  obtain ⟨_,active⟩ : Placed w k (.failTouched i failure loaded now) := hs ▸ h.placed k
  have status := @flushFailed_status loaded run failure now active
  refine h.store (fun _ => trivial) hr rfl rfl rfl rfl rfl rfl rfl (fun j _ => ?_) ?_
  · rw [free]
    exact nofun
  · refine h.rows.store hr rfl (fun _ _ => rfl) (fun a => ?_)
      (fun j ht => h.rows.token i run j hr (flushFailed_token ht)) (fun _ _ q => ?_)
    · rw [status] at a
      cases a
    · rw [status] at q
      cases q

theorem Respects.lockRun (free : w.runLock i = none) (j : Nat) :
    Respects w {w with runLock := Function.update w.runLock i (some k)} j where
  rows := by
    intro e he
    have ne : e ≠ i := fun eq => by
      rw [eq,free] at he
      cases he
    exact ⟨(Function.update_of_ne ne _ _).trans he,fun _ hr => hr⟩
  source := fun hs => ⟨hs,rfl,fun _ => rfl⟩

theorem Respects.unlockedSource (free : w.sourceLock = none) (source : DockerSource)
    (lock : Option Owner) (calls : Nat → Option StartCall) (j : Nat) :
    Respects w {w with source := source, sourceLock := lock, calls := calls} j where
  rows := fun _ hi => ⟨hi,fun _ hr => hr⟩
  source := by
    intro hs
    rw [free] at hs
    cases hs

theorem Sound.lockRun (h : Sound w) (free : w.runLock i = none)
    (placed : Placed {w with runLock := Function.update w.runLock i (some k)} k stage) :
    Sound (World.to {w with runLock := Function.update w.runLock i (some k)} k stage) :=
  h.move rfl (fun j _ => .lockRun free j) placed h.calls
    ⟨h.rows.single,h.rows.token,h.rows.fresh,h.rows.known⟩

theorem Sound.lockSource (h : Sound w) (free : w.sourceLock = none)
    (placed : Placed {w with sourceLock := some (.worker k)} k stage) :
    Sound (World.to {w with sourceLock := some (.worker k)} k stage) := by
  refine h.move rfl (fun j _ => .unlockedSource free _ _ _ j) placed (fun c call hc => ?_)
    ⟨h.rows.single,h.rows.token,h.rows.fresh,h.rows.known⟩
  have held := h.calls c call hc
  rw [free] at held
  cases held

theorem Sound.ended (h : Sound w) {c : Nat} {call : StartCall} (hc : w.calls c = some call)
    {runs : List DockerSyncRun}
    (kept : ∀ (i : Nat) (run : DockerSyncRun), w.runs[i]? = some run → runs[i]? = some run)
    (rows : Rows {w with runs := runs}) :
    Sound {w with sourceLock := none, calls := Function.update w.calls c none, runs := runs} := by
  have held := h.calls c call hc
  refine h.shared rfl (fun j => .called held rfl kept) (fun e call' he => ?_)
    ⟨rows.single,rows.token,rows.fresh,rows.known⟩
  by_cases eq : e = c
  · subst eq
    change Function.update w.calls e none e = some call' at he
    rw [Function.update_self] at he
    cases he
  · change Function.update w.calls c none e = some call' at he
    rw [Function.update_of_ne eq] at he
    have other := h.calls e call' he
    rw [held] at other
    exact absurd (Owner.call.inj (Option.some.inj other)).symm eq

theorem Sound.revised (h : Sound w) (free : w.sourceLock = none) (source : DockerSource) :
    Sound {w with source := source} :=
  h.shared rfl (fun j => .unlockedSource free _ _ _ j) h.calls
    ⟨h.rows.single,h.rows.token,h.rows.fresh,h.rows.known⟩

variable {act : Act X}

attribute [local simp] next

theorem Sound.step (h : Sound w) (step : Step reconcile w act w') : Sound w' := by
  unfold Step at step
  cases act with simp only [next] at step
  | startLock c current actor =>
    split at step
    case h_1 hc free =>
      split at step
      · cases step
        refine h.shared rfl (fun j => .unlockedSource free _ _ _ j) (fun e call he => ?_)
          ⟨h.rows.single,h.rows.token,h.rows.fresh,h.rows.known⟩
        by_cases eq : e = c
        · rw [eq]
        · change Function.update w.calls c _ e = some call at he
          rw [Function.update_of_ne eq] at he
          have held := h.calls e call he
          rw [free] at held
          cases held
      · cases step
        exact h
    case h_2 => cases step
  | startFinish c =>
    split at step
    · cases step
    case h_2 call hc =>
      split at step
      · cases step
      · split at step
        · cases step
          exact h.ended hc (fun _ _ hr => hr) h.rows
        case isFalse idle =>
          cases step
          refine h.ended hc (fun i run hr => ?_) (h.rows.added idle rfl rfl rfl)
          exact List.getElem?_append_left (List.getElem?_eq_some_iff.mp hr).1 ▸ hr
  | startAbort c =>
    split at step <;> cases step
    rename_i call hc
    exact h.ended hc (fun _ _ hr => hr) h.rows
  | claimLock k i =>
    split at step
    · split at step <;> cases step
      rename_i free
      exact h.lockRun free.2 (Function.update_self ..)
    · cases step
  | claimCheck k now sameIdentity =>
    split at step
    case h_1 i hs =>
      have held : Placed w k (.locked i) := hs ▸ h.placed k
      split at step
      · cases step
      case h_2 run hr =>
        split at step
        · cases step
          exact h.leave fun _ => trivial
        case isFalse queued =>
          have waiting : ∃ run, w.runs[i]? = some run ∧ run.status = .queued :=
            ⟨run,hr,not_not.mp queued⟩
          split at step
          · cases step
            exact h.to ⟨held,waiting⟩
          · split at step
            · cases step
              exact h.leave fun _ => trivial
            · cases step
              exact h.to ⟨held,waiting⟩
    · cases step
  | claimCommit k =>
    split at step
    case h_1 i now hs =>
      split at step <;> cases step
      rename_i run hr free
      exact h.claim hs hr
    case h_2 i now hs =>
      split at step <;> cases step
      rename_i run hr
      exact h.lapse hs hr
    · cases step
  | claimFault k i =>
    split at step
    · cases step
      exact h.to trivial
    case h_5 => cases step
    all_goals
      cases step
      exact h.leave fun _ => trivial
  | enumerate k seen | emit k =>
    split at step <;> cases step
    exact h.to trivial
  | applyLockSource k =>
    split at step <;> cases step
    rename_i hs free
    exact h.lockSource free rfl
  | applyLockRun k =>
    split at step
    case h_1 i seen hs =>
      have held : Placed w k (.sourceLocked i seen) := hs ▸ h.placed k
      split at step <;> cases step
      rename_i free
      exact h.lockRun free ⟨held,Function.update_self ..⟩
    · cases step
  | applyCheck k =>
    split at step
    case h_1 i seen hs =>
      have held : Placed w k (.runLocked i seen) := hs ▸ h.placed k
      split at step
      case isTrue owns =>
        cases step
        exact h.to ⟨held.1,held.2,owns⟩
      case isFalse =>
        cases step
        exact h.leave fun _ => trivial
    · cases step
  | applyCommit k =>
    split at step
    case h_1 i seen hs =>
      split at step <;> cases step
      rename_i run hr
      exact h.applied hs hr
    · cases step
  | applyFault k =>
    split at step
    case h_6 => cases step
    all_goals
      cases step
      exact h.leave fun _ => trivial
  | failLoad k now =>
    split at step
    · split at step
      · cases step
        exact h.to trivial
      · split at step
        case isTrue active =>
          cases step
          exact h.to active
        case isFalse =>
          cases step
          exact h.to trivial
    · cases step
  | failTouch k =>
    split at step
    case h_1 i failure loaded now hs free =>
      have active : Placed w k (.failLoaded i failure loaded now) := hs ▸ h.placed k
      cases step
      exact h.lockSource free ⟨rfl,active⟩
    · cases step
  | failCommit k =>
    split at step
    case h_1 i failure loaded now hs =>
      split at step <;> cases step
      rename_i run hr free
      exact h.failed hs hr free
    · cases step
  | crash k =>
    cases step
    exact h.leave fun _ => trivial
  | interrupt now =>
    split at step <;> cases step
    rename_i free
    exact h.interrupt free
  | assign expectedRevision =>
    split at step
    · cases step
    case h_2 free =>
      split at step
      · cases step
        exact h.revised free _
      · cases step
        exact h
  | revise revision enabled =>
    split at step <;> cases step
    rename_i free
    exact h.revised free _

def MayWrite (w : World T X) (act : Act X) (i : Nat) (run : DockerSyncRun) : Prop :=
  run.status.isActive = true ∧ ((∃ now, act = .interrupt now ∧ run.expired now = true) ∨
    ∃ k, act.worker = some k ∧ ∀ j, w.claimed i = some j → j = k)

theorem store_writes {r' : DockerSyncRun} (hr : w.runs[i]? = some r)
    (may : MayWrite w act i r) {j : Nat} {s : DockerSyncRun} (hs : w.runs[j]? = some s) :
    (w.runs.set i r')[j]? = some s ∨ MayWrite w act j s := by
  by_cases eq : j = i
  · subst eq
    rw [hr] at hs
    cases hs
    exact .inr may
  · rw [List.getElem?_set_ne (Ne.symm eq)]
    exact .inl hs

theorem queued_unclaimed (h : Sound w) (hr : w.runs[i]? = some run)
    (queued : run.status = .queued) (worker : act.worker = some k) :
    MayWrite w act i run := by
  refine ⟨by rw [queued]; rfl,.inr ⟨k,worker,fun j hj => ?_⟩⟩
  exact absurd queued (h.rows.fresh i run j hr hj)

theorem owns_iff : w.owns k i = true ↔ ∃ run, w.runs[i]? = some run ∧
    run.status = .running ∧ run.leaseToken = some k ∧ run.sourceRevision = w.source.revision ∧
    ∀ other ∈ w.runs, other.createdAt ≤ run.createdAt := by
  unfold World.owns
  split
  case h_1 none => simp [none]
  case h_2 run hr =>
    rw [hr]
    simp [World.newer,and_assoc]

theorem step_writes (h : Sound w) (hm : StillOpen w act)
    (step : Step reconcile w act w') {j : Nat} {s : DockerSyncRun} (hj : w.runs[j]? = some s) :
    w'.runs[j]? = some s ∨ MayWrite w act j s := by
  unfold Step at step
  cases act with
  | startFinish c =>
    simp only [next] at step
    split at step
    · cases step
    · split at step
      · cases step
      · split at step
        · cases step
          exact .inl hj
        · cases step
          exact .inl ((List.getElem?_append_left (List.getElem?_eq_some_iff.mp hj).1).trans hj)
  | claimCommit k =>
    simp only [next] at step
    split at step
    case h_1 i now hs =>
      split at step
      case h_1 run hr _ =>
        obtain ⟨_,_,hq,queued⟩ : Placed w k (.claiming i now) := hs ▸ h.placed k
        rw [hr] at hq
        cases hq
        cases step
        exact store_writes hr (queued_unclaimed h hr queued rfl) hj
      · cases step
    case h_2 i now hs =>
      split at step
      case h_1 run hr =>
        obtain ⟨_,_,hq,queued⟩ : Placed w k (.lapsing i now) := hs ▸ h.placed k
        rw [hr] at hq
        cases hq
        cases step
        exact store_writes hr (queued_unclaimed h hr queued rfl) hj
      · cases step
    · cases step
  | applyCommit k =>
    simp only [next] at step
    split at step
    case h_1 i seen hs =>
      split at step
      case h_1 run hr =>
        obtain ⟨_,_,owns⟩ : Placed w k (.applying i seen) := hs ▸ h.placed k
        obtain ⟨_,hq,running,token,_⟩ := owns_iff.mp owns
        rw [hr] at hq
        cases hq
        cases step
        refine store_writes hr ⟨by rw [running]; rfl,.inr ⟨k,rfl,fun e he => ?_⟩⟩ hj
        exact Option.some.inj (he.symm.trans (h.rows.token i run k hr token))
      · cases step
    · cases step
  | failCommit k =>
    simp only [next] at step
    split at step
    case h_1 i failure loaded now hs =>
      split at step
      case h_1 run hr _ =>
        obtain ⟨active,alone⟩ := hm i failure loaded now run hs hr
        cases step
        exact store_writes hr ⟨active,.inr ⟨k,rfl,alone⟩⟩ hj
      · cases step
    · cases step
  | interrupt now =>
    simp only [next] at step
    split at step <;> cases step
    by_cases expired : s.expired now = true
    · exact .inr ⟨expired_active expired,.inl ⟨now,rfl,expired⟩⟩
    · refine .inl ((interrupted_row hj).trans ?_)
      rw [if_neg expired]
  | crash k =>
    cases step
    exact .inl hj
  | _ =>
    -- the other steps move a stage, take a lock or change the source
    simp only [next] at step
    (repeat' split at step) <;> first | cases step; done | (cases step; exact .inl hj)

theorem step_tables (h : Sound w) (step : Step reconcile w act w') :
    w'.tables = w.tables ∨ ∃ k i, act = .applyCommit k ∧ w.owns k i = true := by
  unfold Step at step
  cases act with simp only [next] at step
  | applyCommit k =>
    split at step
    case h_1 i seen hs =>
      obtain ⟨_,_,owns⟩ : Placed w k (.applying i seen) := hs ▸ h.placed k
      exact .inr ⟨k,i,rfl,owns⟩
    · cases step
  | crash k =>
    cases step
    exact .inl rfl
  | _ =>
    (repeat' split at step) <;> first | cases step; done | (cases step; exact .inl rfl)

theorem step_exclusive (h : Sound w) (hm : StillOpen w act)
    (step : Step reconcile w act w') : Exclusive w act w' where
  applied := by
    intro changed
    obtain same | ⟨k,i,rfl,owns⟩ := step_tables h step
    · exact absurd same changed
    · obtain ⟨run,hr⟩ := owns_iff.mp owns
      exact ⟨k,i,run,rfl,hr⟩
  final := by
    intro i run hr inactive
    obtain kept | ⟨active,_⟩ := step_writes h hm step hr
    · exact kept
    · rw [inactive] at active
      cases active
  claimant := by
    intro i run k hr hk
    obtain kept | ⟨_,expired | ⟨j,worker,alone⟩⟩ := step_writes h hm step hr
    · exact .inl kept
    · exact .inr (.inr expired)
    · rw [alone k hk]
      exact .inr (.inl worker)

/-- While `_fail_run` only writes runs that are open and its own, one run at most is active,
a run is applied by its owner alone, ends once, and is its claimant's until its lease runs out. -/
theorem sync_runs_exclusive {tables : T} {es : List (Act X)}
    (run : Run (Guarded (Step reconcile) StillOpen) {tables := tables} es w) :
    OneActive w ∧ ∀ act w', Guarded (Step reconcile) StillOpen w act w' → Exclusive w act w' := by
  have sound : Sound w := run.invariant (fun _ _ _ h hs => h.step hs.2) (sound_start tables)
  exact ⟨sound.rows.single,fun act w' hs => step_exclusive sound hs.1 hs.2⟩

end Proofs

/-! A sync that counts the containers it saw, run to its end and interrupted. -/

def countSeen (tables : Nat) (_ : DockerSource) (seen : DockerEnumeration Unit) :
    Nat × DockerReconciliationResult :=
  (tables+seen.containersObserved,{containersCreated := seen.containersObserved})

def twoSeen : DockerEnumeration Unit where
  outcome := .success
  containersComplete := true
  networksComplete := true
  containersObserved := 2
  networksObserved := 0
  reasonCode := none
  safeMessage := none
  completedAt := 3
  observations := ()

theorem Step.of {w w' : World Nat Unit} (act : Act Unit) (h : next countSeen w act = some w') :
    Step countSeen w act w' := h

theorem sync_runs_exclusive_applied : ∃ es w,
    Run (Guarded (Step countSeen) StillOpen) ({tables := 0} : World Nat Unit) es w ∧
      w.tables = 2 ∧ OneActive w ∧
      ∀ act w', Guarded (Step countSeen) StillOpen w act w' → Exclusive w act w' := by
  have start : Run (Guarded (Step countSeen) StillOpen) {tables := 0} [] {tables := 0} := .nil _
  have run := (((((((((start.also
    (.of (.startLock 0 0 "operator") rfl) trivial).also
    (.of (.startFinish 0) rfl) trivial).also
    (.of (.claimLock 0 0) rfl) trivial).also
    (.of (.claimCheck 0 1 true) rfl) trivial).also
    (.of (.claimCommit 0) rfl) trivial).also
    (.of (.enumerate 0 twoSeen) rfl) trivial).also
    (.of (.applyLockSource 0) rfl) trivial).also
    (.of (.applyLockRun 0) rfl) trivial).also
    (.of (.applyCheck 0) rfl) trivial).also
    (.of (.applyCommit 0) rfl) trivial
  exact ⟨_,_,run,rfl,sync_runs_exclusive run⟩

/-- A worker whose reconciliation failed loads its run, the lease runs out and the run is
interrupted, and the worker's write makes the interrupted run a failed one. -/
theorem interrupted_run_fails : ∃ es w act w',
    Run (Step countSeen) ({tables := 0} : World Nat Unit) es w ∧ Step countSeen w act w' ∧
      ¬ Exclusive w act w' := by
  have start : Run (Step countSeen) {tables := 0} [] {tables := 0} := .nil _
  have run := (((((((((start.snoc
    (.of (.startLock 0 0 "operator") rfl)).snoc
    (.of (.startFinish 0) rfl)).snoc
    (.of (.claimLock 0 0) rfl)).snoc
    (.of (.claimCheck 0 1 true) rfl)).snoc
    (.of (.claimCommit 0) rfl)).snoc
    (.of (.enumerate 0 twoSeen) rfl)).snoc
    (.of (.applyFault 0) rfl)).snoc
    (.of (.failLoad 0 130) rfl)).snoc
    (.of (.interrupt 130) rfl)).snoc
    (.of (.failTouch 0) rfl)
  refine ⟨_,_,.failCommit 0,_,run,.of (.failCommit 0) rfl,fun exclusive => ?_⟩
  have kept := exclusive.final 0 _ rfl rfl
  have status := congrArg (Option.map DockerSyncRun.status) kept
  exact absurd status (by decide)

end CircuitBreaker.DockerSync
