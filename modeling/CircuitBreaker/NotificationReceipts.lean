import CircuitBreaker.StepRuns
import Mathlib.Logic.Function.Basic
import Mathlib.Data.List.Nodup

/-! Delivery receipts of one alert. Every run that dispatches the alert selects the
destinations, claims their receipts one by one under a lease, sends to them side by side and
records what came of each. Every transaction is a step, and so is every answer of a provider;
in between, routes and sinks are edited, leases run out and workers die. Owner tokens are the
numbers of the runs, and times are microseconds. -/

namespace CircuitBreaker.NotificationReceipts
open StepRuns List Option

inductive DeliveryState where
  | accepted | terminal | retryable
  deriving DecidableEq

inductive ReceiptState where
  | pending | claimed | recorded (state : DeliveryState)
  deriving DecidableEq

structure DeliveryOutcome where
  state : DeliveryState
  reasonCode : String
  safeMessage : String
  provider : String
  sinkId : Option Nat
  attemptCount : Nat
  httpStatus : Option Nat := none
  retryAfter : Option Nat := none
  acceptedAt : Option Nat := none

/-- A row of `notification_deliveries`; its `sink_key` is where it is kept. -/
structure NotificationDelivery where
  sinkId : Option Nat
  provider : String
  state : ReceiptState := .pending
  attempts : Nat := 0
  reasonCode : Option String := none
  safeMessage : Option String := none
  httpStatus : Option Nat := none
  retryAfterSeconds : Option Nat := none
  acceptedAt : Option Nat := none
  claimOwner : Option Nat := none
  claimExpiresAt : Option Nat := none
  nextRetryAt : Option Nat := none
  createdAt : Nat
  updatedAt : Nat

def NotificationDelivery.isFinal (receipt : NotificationDelivery) : Bool :=
  receipt.state = .recorded .accepted || receipt.state = .recorded .terminal

structure NotificationSink where
  id : Nat
  enabled : Bool
  provider : String

structure NotificationRoute where
  sinkId : Nat
  enabled : Bool
  alertSeverity : String

structure AlertEnvelope where
  sinkId : Option Nat
  severity : String

structure TargetSnapshot where
  sinkId : Nat
  provider : String

structure DispatchSummary where
  state : DeliveryState
  targetCount : Nat
  acceptedCount : Nat
  terminalCount : Nat
  retryableCount : Nat
  outcomes : List DeliveryOutcome

def second : Nat := 1000000
def claimLease : Nat := 30*second
def noRouteSinkKey : Nat := 0

/-- `math.ceil` of a span in seconds. -/
def ceilSeconds (span : Nat) : Nat := (span+(second-1))/second

def cut (n : Nat) (s : String) : String := String.ofList (s.toList.take n)

def receiptOutcome (receipt : NotificationDelivery) : DeliveryOutcome where
  state :=
    match receipt.state with
    | .recorded .accepted => .accepted
    | .recorded .terminal => .terminal
    | _ => .retryable
  reasonCode := receipt.reasonCode.getD "delivery_in_progress"
  safeMessage := receipt.safeMessage.getD "Delivery is already being processed."
  provider := receipt.provider
  sinkId := receipt.sinkId
  attemptCount := receipt.attempts
  httpStatus := receipt.httpStatus
  retryAfter := receipt.retryAfterSeconds
  acceptedAt := receipt.acceptedAt

inductive ClaimStatus where
  | claimed | completed | busy

structure DeliveryClaim where
  status : ClaimStatus
  existing : Option DeliveryOutcome

def newReceipt (provider : String) (sinkId : Option Nat) (now : Nat) : NotificationDelivery where
  sinkId := sinkId
  provider := provider
  createdAt := now
  updatedAt := now

/-- The moment a receipt has to wait for: the end of its lease, else its next retry. -/
def NotificationDelivery.busyUntil (receipt : NotificationDelivery) (now : Nat) : Option Nat :=
  (receipt.claimExpiresAt.filter (now < ·)).or (receipt.nextRetryAt.filter (now < ·))

def NotificationDelivery.claim (receipt : NotificationDelivery) (owner now : Nat) :
    NotificationDelivery :=
  {receipt with
    state := .claimed
    claimOwner := some owner
    claimExpiresAt := some (now+claimLease)
    updatedAt := now}

def claimReceipt (receipt : NotificationDelivery) (owner now : Nat) :
    NotificationDelivery × DeliveryClaim :=
  if receipt.isFinal then (receipt,⟨.completed,some (receiptOutcome receipt)⟩)
  else
    match receipt.busyUntil now with
    | some moment =>
      (receipt,⟨.busy,some {receiptOutcome receipt with retryAfter := some (ceilSeconds (moment-now))}⟩)
    | none => (receipt.claim owner now,⟨.claimed,none⟩)

/-- What `claim_delivery` leaves of a receipt, which it inserts where there is none, and
returns. -/
def claimDelivery (stored : Option NotificationDelivery) (provider : String) (sinkId : Option Nat)
    (owner now : Nat) : NotificationDelivery × DeliveryClaim :=
  claimReceipt (stored.getD (newReceipt provider sinkId now)) owner now

/-- What `record_delivery_outcome` writes on a receipt its caller owns. -/
def recordOutcome (receipt : NotificationDelivery) (outcome : DeliveryOutcome) (now : Nat) :
    NotificationDelivery :=
  {receipt with
    state := .recorded outcome.state
    attempts := receipt.attempts+outcome.attemptCount
    reasonCode := some (cut 64 outcome.reasonCode)
    safeMessage := some (cut 300 outcome.safeMessage)
    httpStatus := outcome.httpStatus
    retryAfterSeconds := outcome.retryAfter
    acceptedAt := outcome.acceptedAt
    nextRetryAt :=
      if outcome.state = .retryable then some (now+outcome.retryAfter.getD 0*second) else none
    claimOwner := none
    claimExpiresAt := none
    updatedAt := now}

def summarize (outcomes : List DeliveryOutcome) : DispatchSummary where
  state :=
    if outcomes.any (·.state = .retryable) then .retryable
    else if outcomes.any (·.state = .accepted) then .accepted
    else .terminal
  targetCount := outcomes.countP (·.provider ≠ "routing")
  acceptedCount := outcomes.countP (·.state = .accepted)
  terminalCount := outcomes.countP (·.state = .terminal)
  retryableCount := outcomes.countP (·.state = .retryable)
  outcomes := outcomes

/-- How the send to one destination ends: what the sender returns, or what it raises. -/
inductive SendResult where
  | outcome (outcome : DeliveryOutcome) | error | cancelled

inductive Progress where
  | claimed | eligible | sent (result : SendResult)

/-- A destination a run has claimed and not yet recorded, with the end of its lease. -/
structure Pending where
  target : TargetSnapshot
  expires : Nat
  progress : Progress

structure Dispatch where
  targets : List TargetSnapshot
  todo : List TargetSnapshot
  pending : List Pending := []
  outcomes : List DeliveryOutcome := []

inductive Stage where
  | idle
  | running (d : Dispatch)
  | routing
  | noRoute (expires : Nat)
  | returned (targets : List TargetSnapshot) (summary : DispatchSummary)
  | crashed

structure World where
  now : Nat := 0
  sinks : List NotificationSink
  routes : List NotificationRoute
  receipts : Nat → Option NotificationDelivery := fun _ => none
  stage : Nat → Stage := fun _ => .idle
  /-- How often the provider of a sink accepted the alert; kept for the statement, read by
  nothing. -/
  accepted : Nat → Nat := fun _ => 0

inductive Act where
  | select (r : Nat)
  | claim (r now : Nat)
  | check (r i : Nat)
  | send (r i : Nat) (result : SendResult)
  | record (r now : Nat)
  | finish (r : Nat)
  | claimRoute (r now : Nat)
  | recordRoute (r now : Nat)
  | crash (r : Nat)
  | edit (sinks : List NotificationSink) (routes : List NotificationRoute)
  | tick (now : Nat)

section Model
variable (event : AlertEnvelope) (routeMatches : String → String → Bool)

/-- `selected.setdefault`: the first row of a sink stands. -/
def setDefault (selected : List TargetSnapshot) (target : TargetSnapshot) : List TargetSnapshot :=
  if selected.any (·.sinkId = target.sinkId) then selected else selected ++ [target]

def selectDeliveryTargets (sinks : List NotificationSink) (routes : List NotificationRoute) :
    List TargetSnapshot :=
  match event.sinkId with
  | some id =>
    match sinks.find? fun sink => sink.id = id && sink.enabled with
    | some sink => [⟨sink.id,sink.provider⟩]
    | none => []
  | none =>
    let rows := routes.flatMap fun route =>
      (sinks.filter fun sink => sink.id = route.sinkId && sink.enabled && route.enabled &&
        routeMatches route.alertSeverity event.severity).map fun sink =>
          (⟨sink.id,sink.provider⟩ : TargetSnapshot)
    rows.foldl setDefault []

def isEligible (sinks : List NotificationSink) (routes : List NotificationRoute)
    (target : TargetSnapshot) : Bool :=
  (sinks.any fun sink => sink.id = target.sinkId && sink.enabled) &&
    (event.sinkId = some target.sinkId || routes.any fun route => route.sinkId = target.sinkId &&
      route.enabled && routeMatches route.alertSeverity event.severity)

def destinationUnavailable (target : TargetSnapshot) : DeliveryOutcome where
  state := .terminal
  reasonCode := "destination_unavailable"
  safeMessage := "The destination was disabled or removed before delivery."
  provider := target.provider
  sinkId := some target.sinkId
  attemptCount := 0

def deliveryError (target : TargetSnapshot) : DeliveryOutcome where
  state := .retryable
  reasonCode := "delivery_error"
  safeMessage := "Delivery failed before the provider accepted it."
  provider := target.provider
  sinkId := some target.sinkId
  attemptCount := 1

def claimLost (target : TargetSnapshot) (result : DeliveryOutcome) : DeliveryOutcome where
  state := .retryable
  reasonCode := "claim_lost"
  safeMessage := "Delivery ownership expired before its result was recorded."
  provider := target.provider
  sinkId := some target.sinkId
  attemptCount := result.attemptCount

def noRouteOutcome : DeliveryOutcome where
  state := .terminal
  reasonCode := "no_route"
  safeMessage := "No enabled notification destination matched this alert."
  provider := "routing"
  sinkId := none
  attemptCount := 0

def World.to (w : World) (r : Nat) (stage : Stage) : World :=
  {w with stage := Function.update w.stage r stage}

def World.store (w : World) (key : Nat) (receipt : NotificationDelivery) : World :=
  {w with receipts := Function.update w.receipts key (some receipt)}

/-- Whether `record_delivery_outcome` finds the receipt under its owner. -/
def World.owned (w : World) (key r : Nat) : Option NotificationDelivery :=
  (w.receipts key).filter fun receipt => receipt.claimOwner = some r

def World.record (w : World) (key r : Nat) (outcome : DeliveryOutcome) (now : Nat) : World :=
  match w.owned key r with
  | some receipt => w.store key (recordOutcome receipt outcome now)
  | none => w

def Pending.result? (p : Pending) : Option SendResult :=
  match p.progress with
  | .sent result => some result
  | _ => none

def World.claimNext (w : World) (r now : Nat) (d : Dispatch) (target : TargetSnapshot)
    (todo : List TargetSnapshot) : World :=
  let stored := w.receipts target.sinkId
  -- a new receipt refers to its sink, which may be gone
  if stored.isNone && !w.sinks.any (·.id = target.sinkId) then w.to r .crashed
  else
    let claimed := claimDelivery stored target.provider (some target.sinkId) r now
    let written := w.store target.sinkId claimed.1
    match claimed.2.status,claimed.2.existing with
    | .claimed,_ => written.to r (.running {d with
        todo := todo
        pending := d.pending ++ [⟨target,now+claimLease,.claimed⟩]})
    | _,some existing =>
      written.to r (.running {d with todo := todo, outcomes := d.outcomes ++ [existing]})
    | _,none => written.to r (.running {d with todo := todo})

def World.recordNext (w : World) (r now : Nat) (d : Dispatch) (p : Pending) (pending : List Pending)
    (outcome : DeliveryOutcome) : World :=
  let persisted := (w.owned p.target.sinkId r).isSome
  (w.record p.target.sinkId r outcome now).to r (.running {d with
    pending := pending
    outcomes := d.outcomes ++ [if persisted then outcome else claimLost p.target outcome]})

def next (w : World) : Act → Option World
  | .select r =>
    match w.stage r with
    | .idle =>
      match selectDeliveryTargets event routeMatches w.sinks w.routes with
      | [] => some (w.to r .routing)
      | targets => some (w.to r (.running {targets := targets, todo := targets}))
    | _ => none
  | .claim r now =>
    match w.stage r with
    | .running d =>
      match d.todo with
      | [] => none
      | target :: todo => if now ≤ w.now then some (w.claimNext r now d target todo) else none
    | _ => none
  | .check r i =>
    match w.stage r with
    | .running d =>
      match d.todo,d.pending[i]? with
      | [],some ⟨target,expires,.claimed⟩ =>
        let progress : Progress :=
          if isEligible event routeMatches w.sinks w.routes target then .eligible
          else .sent (.outcome (destinationUnavailable target))
        some (w.to r (.running {d with pending := d.pending.set i ⟨target,expires,progress⟩}))
      | _,_ => none
    | _ => none
  | .send r i result =>
    match w.stage r with
    | .running d =>
      match d.todo,d.pending[i]? with
      | [],some ⟨target,expires,.eligible⟩ =>
        let answered : World :=
          match result with
          | .outcome outcome =>
            if outcome.state = .accepted then
              {w with accepted :=
                Function.update w.accepted target.sinkId (w.accepted target.sinkId+1)}
            else w
          | _ => w
        some (answered.to r
          (.running {d with pending := d.pending.set i ⟨target,expires,.sent result⟩}))
      | _,_ => none
    | _ => none
  | .record r now =>
    match w.stage r with
    | .running d =>
      match d.todo,d.pending with
      | [],p :: pending =>
        -- the results are looked at when all of them are in
        if (p :: pending).all (·.result?.isSome) ∧ now ≤ w.now then
          match p.result? with
          | some .cancelled | none => some (w.to r .crashed)
          | some .error => some (w.recordNext r now d p pending (deliveryError p.target))
          | some (.outcome outcome) => some (w.recordNext r now d p pending outcome)
        else none
      | _,_ => none
    | _ => none
  | .finish r =>
    match w.stage r with
    | .running d =>
      match d.todo,d.pending with
      | [],[] => some (w.to r (.returned d.targets (summarize d.outcomes)))
      | _,_ => none
    | _ => none
  | .claimRoute r now =>
    match w.stage r with
    | .routing =>
      if now ≤ w.now then
        let claimed := claimDelivery (w.receipts noRouteSinkKey) "routing" none r now
        let written := w.store noRouteSinkKey claimed.1
        match claimed.2.existing with
        | some existing => some (written.to r (.returned [] (summarize [existing])))
        | none => some (written.to r (.noRoute (now+claimLease)))
      else none
    | _ => none
  | .recordRoute r now =>
    match w.stage r with
    | .noRoute _ =>
      if now ≤ w.now then
        some ((w.record noRouteSinkKey r noRouteOutcome now).to r
          (.returned [] (summarize [noRouteOutcome])))
      else none
    | _ => none
  | .crash r =>
    match w.stage r with
    | .idle | .returned _ _ | .crashed => none
    | _ => some (w.to r .crashed)
  | .edit sinks routes =>
    -- a sink that is deleted leaves its receipts behind, without the reference
    some {w with
      sinks := sinks
      routes := routes
      receipts := fun key => (w.receipts key).map fun receipt =>
        {receipt with sinkId := receipt.sinkId.filter fun id => sinks.any (·.id = id)}}
  | .tick now => if w.now ≤ now then some {w with now := now} else none

def Step (w : World) (act : Act) (w' : World) : Prop := next event routeMatches w act = some w'

end Model

def Stage.held : Stage → List (Nat × Nat)
  | .running d => d.pending.map fun p => (p.target.sinkId,p.expires)
  | .noRoute expires => [(noRouteSinkKey,expires)]
  | _ => []

def Stage.pending : Stage → List Pending
  | .running d => d.pending
  | _ => []

def World.isFinal (w : World) (key : Nat) : Prop :=
  ∃ receipt, w.receipts key = some receipt ∧ receipt.isFinal = true

def Act.recorder : Act → Option Nat
  | .record r _ | .recordRoute r _ => some r
  | _ => none

def NotificationDelivery.disposition (receipt : NotificationDelivery) :=
  (receipt.attempts,receipt.reasonCode,receipt.safeMessage,receipt.httpStatus,
    receipt.retryAfterSeconds,receipt.acceptedAt,receipt.nextRetryAt)

inductive Change (w : World) (act : Act) :
    Option NotificationDelivery → Option NotificationDelivery → Prop where
  | same (stored : Option NotificationDelivery) : Change w act stored stored
  | claimed {stored : Option NotificationDelivery} (receipt : NotificationDelivery) (r now : Nat)
      (stood : ∀ old, stored = some old → old = receipt) (fresh : receipt.isFinal = false)
      (lapsed : ∀ e, receipt.claimExpiresAt = some e → e ≤ now) (past : now ≤ w.now)
      (claimer : act = .claim r now ∨ act = .claimRoute r now) :
      Change w act stored (some (receipt.claim r now))
  | recorded (receipt : NotificationDelivery) (r now : Nat) (outcome : DeliveryOutcome)
      (recorder : act.recorder = some r) (owner : receipt.claimOwner = some r) :
      Change w act (some receipt) (some (recordOutcome receipt outcome now))
  | unlinked (receipt : NotificationDelivery) (sinks : List NotificationSink)
      (routes : List NotificationRoute) (edit : act = .edit sinks routes) :
      Change w act (some receipt)
        (some {receipt with sinkId := receipt.sinkId.filter fun id => sinks.any (·.id = id)})

def Progress.accepted : Progress → Bool
  | .sent (.outcome outcome) => outcome.state = .accepted
  | _ => false

def Progress.isSent : Progress → Bool
  | .sent _ => true
  | _ => false

inductive Effect (event : AlertEnvelope) (routeMatches : String → String → Bool) (w : World) :
    Act → World → Prop where
  | routed (r : Nat) (hs : w.stage r = .idle) :
      Effect event routeMatches w (.select r) (w.to r .routing)
  | started (r : Nat) (hs : w.stage r = .idle) :
      Effect event routeMatches w (.select r) (w.to r (.running
        {targets := selectDeliveryTargets event routeMatches w.sinks w.routes
         todo := selectDeliveryTargets event routeMatches w.sinks w.routes}))
  | claimed (r now : Nat) (d : Dispatch) (target : TargetSnapshot) (todo : List TargetSnapshot)
      (hs : w.stage r = .running d) (first : d.todo = target :: todo) (past : now ≤ w.now) :
      Effect event routeMatches w (.claim r now) (w.claimNext r now d target todo)
  | progressed (act : Act) (r i : Nat) (d : Dispatch) (target : TargetSnapshot) (expires : Nat)
      (old new : Progress) (quiet : act.recorder = none) (hs : w.stage r = .running d)
      (entry : d.pending[i]? = some ⟨target,expires,old⟩) (unsent : old.isSent = false) :
      Effect event routeMatches w act
        ({w with accepted := if new.accepted
          then Function.update w.accepted target.sinkId (w.accepted target.sinkId+1)
          else w.accepted}.to r
          (.running {d with pending := d.pending.set i ⟨target,expires,new⟩}))
  | recorded (r now : Nat) (d : Dispatch) (p : Pending) (pending : List Pending)
      (outcome : DeliveryOutcome) (hs : w.stage r = .running d) (done : d.todo = [])
      (first : d.pending = p :: pending)
      (result : p.progress.accepted = true → outcome.state = .accepted) :
      Effect event routeMatches w (.record r now) (w.recordNext r now d p pending outcome)
  | finished (r : Nat) (d : Dispatch) (hs : w.stage r = .running d) (done : d.todo = [])
      (all : d.pending = []) :
      Effect event routeMatches w (.finish r) (w.to r (.returned d.targets (summarize d.outcomes)))
  | routeSettled (r now : Nat) (summary : DispatchSummary) :
      Effect event routeMatches w (.claimRoute r now) (w.to r (.returned [] summary))
  | routeClaimed (r now : Nat) (receipt : NotificationDelivery)
      (stood : ∀ old, w.receipts noRouteSinkKey = some old → old = receipt)
      (fresh : receipt.isFinal = false) (lapsed : ∀ e, receipt.claimExpiresAt = some e → e ≤ now)
      (past : now ≤ w.now) :
      Effect event routeMatches w (.claimRoute r now)
        ((w.store noRouteSinkKey (receipt.claim r now)).to r (.noRoute (now+claimLease)))
  | routeRecorded (r now : Nat) (summary : DispatchSummary) :
      Effect event routeMatches w (.recordRoute r now)
        ((w.record noRouteSinkKey r noRouteOutcome now).to r (.returned [] summary))
  | crashed (act : Act) (r : Nat) (others : ∀ e, e ≠ r → act.recorder ≠ some e) :
      Effect event routeMatches w act (w.to r .crashed)
  | edited (sinks : List NotificationSink) (routes : List NotificationRoute) :
      Effect event routeMatches w (.edit sinks routes) {w with
        sinks := sinks
        routes := routes
        receipts := fun key => (w.receipts key).map fun receipt =>
          {receipt with sinkId := receipt.sinkId.filter fun id => sinks.any (·.id = id)}}
  | ticked (now : Nat) (later : w.now ≤ now) :
      Effect event routeMatches w (.tick now) {w with now := now}

def Dispatch.Distinct (d : Dispatch) : Prop :=
  (d.pending.map (·.target.sinkId) ++ d.todo.map (·.sinkId)).Nodup

/-- Every destination a run selected is still to do, has a final receipt, or makes its summary
one to retry. -/
def Covered (w : World) : Stage → Prop
  | .running d => d.Distinct ∧ ∀ t ∈ d.targets, t ∈ d.todo ∨ (∃ p ∈ d.pending, p.target = t) ∨
      w.isFinal t.sinkId ∨ ∃ o ∈ d.outcomes, o.state = .retryable
  | .returned targets summary => summary.state = .retryable ∨ ∀ t ∈ targets, w.isFinal t.sinkId
  | _ => True

def Leased (w : World) (r key expires : Nat) : Prop :=
  ∃ receipt, w.receipts key = some receipt ∧ receipt.claimOwner = some r ∧
    receipt.claimExpiresAt = some expires

structure Sound (w : World) : Prop where
  final : ∀ key receipt, w.receipts key = some receipt → receipt.isFinal = true →
    receipt.claimOwner = none
  held : ∀ r key expires, (key,expires) ∈ (w.stage r).held → w.now < expires →
    Leased w r key expires
  covered : ∀ r, Covered w (w.stage r)

structure Kept (w : World) (act : Act) (w' : World) : Prop where
  final : ∀ key receipt, w.receipts key = some receipt → receipt.isFinal = true →
    w'.receipts key = some receipt ∨ ∃ sinks routes id, act = .edit sinks routes ∧
      receipt.sinkId = some id ∧ sinks.any (·.id = id) = false ∧
      w'.receipts key = some {receipt with sinkId := none}
  leased : ∀ key receipt owner expires, w.receipts key = some receipt →
    receipt.claimOwner = some owner → receipt.claimExpiresAt = some expires → w.now < expires →
    act.recorder ≠ some owner → Leased w' owner key expires
  recorder : ∀ key receipt receipt', w.receipts key = some receipt →
    w'.receipts key = some receipt' →
    receipt'.disposition ≠ receipt.disposition ∨
      (receipt'.state ≠ receipt.state ∧ receipt'.state ≠ .claimed) →
    ∃ r, act.recorder = some r ∧ receipt.claimOwner = some r
  new : ∀ key receipt, w.receipts key = none → w'.receipts key = some receipt →
    receipt.state = .claimed

/-- No lease runs out before the outcome it was taken for is recorded. A worker that dies never
records, so time stops short of the end of its leases. -/
def InTime (w : World) : Act → Prop
  | .claim _ now | .claimRoute _ now => w.now < now+claimLease
  | .tick now => ∀ key receipt expires, w.receipts key = some receipt →
      receipt.claimOwner.isSome = true → receipt.claimExpiresAt = some expires → now < expires
  | _ => True

def Taken (w : World) (key : Nat) : Prop :=
  ∃ receipt, w.receipts key = some receipt ∧
    (receipt.isFinal = true ∨ receipt.claimOwner.isSome = true)

/-- A sink that has accepted the alert is sent nothing more: its receipt is taken, and a run that
is about to record it was the one that was accepted. -/
def Settled (w : World) (key : Nat) : Prop :=
  w.accepted key = 1 ∧ Taken w key ∧
    ∀ r, ∀ p ∈ (w.stage r).pending, p.target.sinkId = key → p.progress.accepted = true

structure Timely (w : World) : Prop where
  lease : ∀ key receipt, w.receipts key = some receipt → receipt.claimOwner.isSome = true →
    ∃ expires, receipt.claimExpiresAt = some expires ∧ w.now < expires
  held : ∀ r key expires, (key,expires) ∈ (w.stage r).held → w.now < expires
  counted : ∀ key, w.accepted key = 0 ∨ Settled w key

section Proofs
variable {event : AlertEnvelope} {routeMatches : String → String → Bool} {w w' w₁ : World}
  {r key : Nat}

variable {receipt : NotificationDelivery}

theorem receiptOutcome_final
    (h : (receiptOutcome receipt).state ≠ .retryable) : receipt.isFinal = true := by
  unfold receiptOutcome at h
  unfold NotificationDelivery.isFinal
  split at h
  case h_1 hs => simp [hs]
  case h_2 hs => simp [hs]
  case h_3 => exact absurd rfl h

theorem claimReceipt_cases (receipt : NotificationDelivery) (owner now : Nat) :
    (∃ status existing, claimReceipt receipt owner now = (receipt,⟨status,some existing⟩) ∧
      status ≠ .claimed ∧ (existing.state ≠ .retryable → receipt.isFinal = true)) ∨
    (receipt.isFinal = false ∧ (∀ e, receipt.claimExpiresAt = some e → e ≤ now) ∧
      claimReceipt receipt owner now = (receipt.claim owner now,⟨.claimed,none⟩)) := by
  unfold claimReceipt
  split
  case isTrue final => exact .inl ⟨_,_,rfl,nofun,fun _ => final⟩
  case isFalse open_ =>
    split
    case h_1 moment _ => exact .inl ⟨_,_,rfl,nofun,receiptOutcome_final⟩
    case h_2 free =>
      refine .inr ⟨by simpa using open_,fun e he => ?_,rfl⟩
      simp only [NotificationDelivery.busyUntil,or_eq_none_iff,he,filter_some] at free
      by_contra later
      simp only [Nat.not_le] at later
      simp [later] at free

theorem claimDelivery_cases (w : World) (key r now : Nat) (provider : String) (sinkId : Option Nat) :
    (∃ receipt status existing, w.receipts key = some receipt ∧
      claimDelivery (w.receipts key) provider sinkId r now = (receipt,⟨status,some existing⟩) ∧
      status ≠ .claimed ∧ (existing.state ≠ .retryable → receipt.isFinal = true)) ∨
    ∃ receipt, (∀ old, w.receipts key = some old → old = receipt) ∧ receipt.isFinal = false ∧
      (∀ e, receipt.claimExpiresAt = some e → e ≤ now) ∧
      claimDelivery (w.receipts key) provider sinkId r now =
        (receipt.claim r now,⟨.claimed,none⟩) := by
  cases stored : w.receipts key with
  | some receipt =>
    obtain ⟨status,existing,eq,ne,final⟩ | ⟨fresh,lapsed,eq⟩ := claimReceipt_cases receipt r now
    · exact .inl ⟨receipt,status,existing,rfl,eq,ne,final⟩
    · exact .inr ⟨receipt,fun _ h => (some.inj h).symm,fresh,lapsed,eq⟩
  | none =>
    refine .inr ⟨newReceipt provider sinkId now,fun _ h => ?_,rfl,fun _ h => ?_,rfl⟩
    · cases h
    · cases h

theorem store_same (h : w.receipts key = some receipt) :
    w.store key receipt = w := by
  unfold World.store
  rw [←h,Function.update_eq_self]

theorem store_self (w : World) (key : Nat) (receipt : NotificationDelivery) :
    (w.store key receipt).receipts key = some receipt := Function.update_self ..

theorem claimNext_cases (w : World) (r now : Nat) (d : Dispatch) (target : TargetSnapshot)
    (todo : List TargetSnapshot) :
    w.claimNext r now d target todo = w.to r .crashed ∨
    (∃ receipt existing, w.receipts target.sinkId = some receipt ∧
      (existing.state ≠ .retryable → receipt.isFinal = true) ∧
      w.claimNext r now d target todo =
        w.to r (.running {d with todo := todo, outcomes := d.outcomes ++ [existing]})) ∨
    ∃ receipt, (∀ old, w.receipts target.sinkId = some old → old = receipt) ∧
      receipt.isFinal = false ∧ (∀ e, receipt.claimExpiresAt = some e → e ≤ now) ∧
      w.claimNext r now d target todo = (w.store target.sinkId (receipt.claim r now)).to r
        (.running {d with
          todo := todo
          pending := d.pending ++ [⟨target,now+claimLease,.claimed⟩]}) := by
  unfold World.claimNext
  simp only
  split
  · exact .inl rfl
  · obtain ⟨receipt,status,existing,stored,eq,ne,final⟩ | ⟨receipt,stood,fresh,lapsed,eq⟩ :=
      claimDelivery_cases w target.sinkId r now target.provider (some target.sinkId)
    · refine .inr (.inl ⟨receipt,existing,stored,final,?_⟩)
      rw [eq]
      cases status with
      | claimed => exact absurd rfl ne
      | completed | busy => simp only [store_same stored]
    · exact .inr (.inr ⟨receipt,stood,fresh,lapsed,by rw [eq]⟩)

theorem owned_iff :
    w.owned key r = some receipt ↔ w.receipts key = some receipt ∧ receipt.claimOwner = some r := by
  simp [World.owned,filter_eq_some_iff]

theorem record_cases (w : World) (key r now : Nat) (outcome : DeliveryOutcome) :
    (w.owned key r = none ∧ w.record key r outcome now = w) ∨
    ∃ receipt, w.receipts key = some receipt ∧ receipt.claimOwner = some r ∧
      w.owned key r = some receipt ∧
      w.record key r outcome now = w.store key (recordOutcome receipt outcome now) := by
  unfold World.record
  cases owned : w.owned key r with
  | none => exact .inl ⟨rfl,rfl⟩
  | some receipt =>
    obtain ⟨stored,owner⟩ := owned_iff.mp owned
    exact .inr ⟨receipt,stored,owner,rfl,rfl⟩

variable {act : Act}

theorem Change.store
    (h : Change w act (w.receipts key) (some receipt)) (k : Nat) :
    Change w act (w.receipts k) ((w.store key receipt).receipts k) := by
  unfold World.store
  by_cases eq : k = key
  · subst eq
    simp only [Function.update_self]
    exact h
  · simp only [Function.update_of_ne eq]
    exact .same _

theorem no_recorder (h : act.recorder = none) (e : Nat) : act.recorder ≠ some e := by
  rw [h]
  exact nofun

theorem step_effect (step : Step event routeMatches w act w') :
    Effect event routeMatches w act w' := by
  unfold Step at step
  cases act with simp only [next] at step
  | select r =>
    split at step
    case h_1 hs =>
      split at step
      · cases step
        exact .routed r hs
      · cases step
        exact .started r hs
    case h_2 => cases step
  | claim r now =>
    split at step
    case h_1 d hs =>
      split at step
      · cases step
      case h_2 target todo first =>
        split at step <;> cases step
        rename_i past
        exact .claimed r now d target todo hs first past
    case h_2 => cases step
  | check r i =>
    split at step
    case h_1 d hs =>
      split at step <;> cases step
      rename_i target expires _ entry
      have plain : ∀ new : Progress, new.accepted = false → Effect event routeMatches w
          (.check r i) (w.to r (.running {d with
            pending := d.pending.set i ⟨target,expires,new⟩})) := by
        intro new plain
        have effect : Effect event routeMatches w (.check r i) _ :=
          .progressed (.check r i) r i d target expires .claimed new rfl hs entry rfl
        rw [plain] at effect
        exact effect
      split
      · exact plain _ rfl
      · exact plain _ rfl
    case h_2 => cases step
  | send r i result =>
    split at step
    case h_1 d hs =>
      split at step <;> cases step
      rename_i target expires _ entry
      have effect : Effect event routeMatches w (.send r i result) _ :=
        .progressed (.send r i result) r i d target expires .eligible (.sent result) rfl hs entry rfl
      cases result with
      | outcome outcome =>
        simp only [Progress.accepted,decide_eq_true_eq] at effect ⊢
        split
        case isTrue accepted =>
          rw [if_pos accepted] at effect
          exact effect
        case isFalse declined =>
          rw [if_neg declined] at effect
          exact effect
      | error | cancelled => exact effect
    case h_2 => cases step
  | record r now =>
    split at step
    case h_1 d hs =>
      split at step
      case h_1 p pending done first =>
        split at step
        · split at step
          · cases step
            exact .crashed _ r fun e ne eq => ne (some.inj eq).symm
          · cases step
            exact .crashed _ r fun e ne eq => ne (some.inj eq).symm
          case h_3 failed =>
            cases step
            refine .recorded r now d p pending _ hs done first fun accepted => ?_
            unfold Pending.result? at failed
            split at failed <;> cases failed
            rename_i result sent
            rw [sent] at accepted
            cases accepted
          case h_4 outcome answered =>
            cases step
            refine .recorded r now d p pending _ hs done first fun accepted => ?_
            unfold Pending.result? at answered
            split at answered <;> cases answered
            rename_i result sent
            rw [sent] at accepted
            exact of_decide_eq_true accepted
        · cases step
      case h_2 => cases step
    case h_2 => cases step
  | finish r =>
    split at step
    case h_1 d hs =>
      split at step <;> cases step
      rename_i done all
      exact .finished r d hs done all
    case h_2 => cases step
  | claimRoute r now =>
    split at step
    · split at step
      case isTrue past =>
        obtain ⟨receipt,status,existing,stored,eq,_,_⟩ | ⟨receipt,stood,fresh,lapsed,eq⟩ :=
          claimDelivery_cases w noRouteSinkKey r now "routing" none
        · rw [eq] at step
          simp only [store_same stored] at step
          cases step
          exact .routeSettled r now _
        · rw [eq] at step
          cases step
          exact .routeClaimed r now receipt stood fresh lapsed past
      case isFalse => cases step
    · cases step
  | recordRoute r now =>
    split at step
    · split at step <;> cases step
      exact .routeRecorded r now _
    · cases step
  | crash r =>
    split at step
    · cases step
    · cases step
    · cases step
    · cases step
      exact .crashed _ r fun e _ => no_recorder rfl e
  | edit sinks routes =>
    cases step
    exact .edited sinks routes
  | tick now =>
    split at step <;> cases step
    rename_i later
    exact .ticked now later

variable {now : Nat} {outcome : DeliveryOutcome}

theorem record_change
    (recorder : act.recorder = some r) (k : Nat) :
    Change w act (w.receipts k) ((w.record key r outcome now).receipts k) := by
  obtain ⟨_,eq⟩ | ⟨receipt,stored,owner,_,eq⟩ := record_cases w key r now outcome
  · rw [eq]
    exact .same _
  · rw [eq]
    refine Change.store ?_ k
    rw [stored]
    exact .recorded receipt r now outcome recorder owner

theorem record_stays (w : World) (key r now : Nat) (outcome : DeliveryOutcome) :
    (w.record key r outcome now).now = w.now ∧ (w.record key r outcome now).stage = w.stage ∧
      (w.record key r outcome now).accepted = w.accepted := by
  obtain ⟨_,eq⟩ | ⟨_,_,_,_,eq⟩ := record_cases w key r now outcome
  · rw [eq]
    exact ⟨rfl,rfl,rfl⟩
  · rw [eq]
    exact ⟨rfl,rfl,rfl⟩

theorem Effect.change (h : Effect event routeMatches w act w') (k : Nat) :
    Change w act (w.receipts k) (w'.receipts k) := by
  cases h with
  | claimed r now d target todo _ _ past =>
    obtain eq | ⟨_,_,_,_,eq⟩ | ⟨receipt,stood,fresh,lapsed,eq⟩ :=
      claimNext_cases w r now d target todo
    · rw [eq]
      exact .same _
    · rw [eq]
      exact .same _
    · rw [eq]
      exact Change.store (.claimed receipt r now stood fresh lapsed past (.inl rfl)) k
  | recorded r now | routeRecorded r now => exact record_change rfl k
  | routeClaimed r now receipt stood fresh lapsed past =>
    exact Change.store (.claimed receipt r now stood fresh lapsed past (.inr rfl)) k
  | edited sinks routes =>
    change Change w _ (w.receipts k) ((w.receipts k).map _)
    cases w.receipts k with
    | none => exact .same _
    | some receipt => exact .unlinked receipt sinks routes rfl
  | _ => exact .same _

theorem Change.kept {act : Act} {receipt : NotificationDelivery} {o : Option NotificationDelivery}
    (h : Change w act (some receipt) o) (final : receipt.isFinal = true)
    (free : receipt.claimOwner = none) : o = some receipt ∨
      ∃ sinks routes id, act = .edit sinks routes ∧ receipt.sinkId = some id ∧
        sinks.any (·.id = id) = false ∧ o = some {receipt with sinkId := none} := by
  cases h with
  | same => exact .inl rfl
  | claimed receipt' r now stood fresh =>
    cases stood receipt rfl
    rw [final] at fresh
    cases fresh
  | recorded _ r now outcome recorder owner =>
    rw [free] at owner
    cases owner
  | unlinked _ sinks routes edit =>
    cases link : receipt.sinkId with
    | none =>
      refine .inl ?_
      rw [filter_none,←link]
    | some id =>
      rw [filter_some]
      split
      · refine .inl ?_
        rw [←link]
      case isFalse gone => exact .inr ⟨sinks,routes,id,edit,rfl,by simpa using gone,rfl⟩

variable {o : Option NotificationDelivery}

theorem Change.leased
    {expires : Nat} (h : Change w act (some receipt) o) (owner : receipt.claimOwner = some r)
    (lease : receipt.claimExpiresAt = some expires) (late : w.now < expires)
    (other : act.recorder ≠ some r) : ∃ receipt', o = some receipt' ∧
      receipt'.claimOwner = some r ∧ receipt'.claimExpiresAt = some expires := by
  cases h with
  | same => exact ⟨receipt,rfl,owner,lease⟩
  | claimed receipt' r' now stood fresh lapsed past =>
    cases stood receipt rfl
    have ended := lapsed expires lease
    omega
  | recorded _ r' now outcome recorder owner' =>
    exact absurd (recorder.trans (owner'.symm.trans owner)) other
  | unlinked _ sinks routes => exact ⟨_,rfl,owner,lease⟩

variable {receipt' : NotificationDelivery}

theorem Change.clean
    (h : Change w act o (some receipt'))
    (clean : ∀ receipt, o = some receipt → receipt.isFinal = true → receipt.claimOwner = none)
    (final : receipt'.isFinal = true) : receipt'.claimOwner = none := by
  cases h with
  | same => exact clean receipt' rfl final
  | claimed receipt r now => cases final
  | recorded receipt r now outcome => rfl
  | unlinked receipt sinks routes => exact clean receipt rfl final

theorem isFinal_mono (h : Sound w)
    (change : ∀ k, Change w act (w.receipts k) (w'.receipts k)) {k : Nat} (final : w.isFinal k) :
    w'.isFinal k := by
  obtain ⟨receipt,stored,final⟩ := final
  have step := change k
  rw [stored] at step
  obtain eq | ⟨_,_,_,_,_,_,eq⟩ := step.kept final (h.final k receipt stored final)
  · exact ⟨_,eq,final⟩
  · exact ⟨_,eq,final⟩

variable {stage : Stage}

theorem Covered.mono (h : Covered w stage)
    (final : ∀ k, w.isFinal k → w'.isFinal k) : Covered w' stage := by
  cases stage with
  | running d =>
    refine ⟨h.1,fun t ht => ?_⟩
    obtain todo | pending | settled | retry := h.2 t ht
    · exact .inl todo
    · exact .inr (.inl pending)
    · exact .inr (.inr (.inl (final _ settled)))
    · exact .inr (.inr (.inr retry))
  | returned targets summary =>
    obtain retry | settled := h
    · exact .inl retry
    · exact .inr fun t ht => final _ (settled t ht)
  | _ => trivial

theorem Sound.move (h : Sound w) (act : Act)
    (change : ∀ k, Change w act (w.receipts k) (w₁.receipts k)) (later : w.now ≤ w₁.now) (stages : w₁.stage = w.stage)
    (others : ∀ e, e ≠ r → act.recorder ≠ some e)
    (held : ∀ key expires, (key,expires) ∈ stage.held → w₁.now < expires →
      Leased w₁ r key expires)
    (covered : Covered w₁ stage) : Sound (w₁.to r stage) where
  final := fun key receipt stored final =>
    (stored ▸ change key : Change w act (w.receipts key) (some receipt)).clean (h.final key) final
  held := by
    intro e key expires
    change (key,expires) ∈ (Function.update w₁.stage r stage e).held → w₁.now < expires →
      Leased w₁ e key expires
    by_cases eq : e = r
    · subst eq
      rw [Function.update_self]
      exact held key expires
    · rw [Function.update_of_ne eq,stages]
      intro mem late
      obtain ⟨receipt,stored,owner,lease⟩ := h.held e key expires mem (by omega)
      have step := change key
      rw [stored] at step
      exact step.leased owner lease (by omega) (others e eq)
  covered := by
    intro e
    change Covered w₁ (Function.update w₁.stage r stage e)
    by_cases eq : e = r
    · subst eq
      rw [Function.update_self]
      exact covered
    · rw [Function.update_of_ne eq,stages]
      exact (h.covered e).mono fun k => isFinal_mono h change

theorem Sound.shared (h : Sound w) (act : Act)
    (change : ∀ k, Change w act (w.receipts k) (w'.receipts k)) (later : w.now ≤ w'.now)
    (stages : w'.stage = w.stage) (quiet : act.recorder = none) : Sound w' where
  final := fun key receipt stored final =>
    (stored ▸ change key).clean (h.final key) final
  held := by
    intro e key expires
    rw [stages]
    intro mem late
    obtain ⟨receipt,stored,owner,lease⟩ := h.held e key expires mem (by omega)
    have step := change key
    rw [stored] at step
    refine step.leased owner lease (by omega) ?_
    rw [quiet]
    exact nofun
  covered := fun e => stages ▸ (h.covered e).mono fun k => isFinal_mono h change

variable {target : TargetSnapshot}

theorem setDefault_nodup {selected : List TargetSnapshot}
    (h : (selected.map (·.sinkId)).Nodup) : ((setDefault selected target).map (·.sinkId)).Nodup := by
  unfold setDefault
  split
  case isTrue => exact h
  case isFalse new =>
    rw [map_append,nodup_append]
    refine ⟨h,nodup_singleton _,fun a ha b hb eq => new ?_⟩
    obtain ⟨t,ht,rfl⟩ := mem_map.mp ha
    rw [map_singleton,mem_singleton] at hb
    exact any_eq_true.mpr ⟨t,ht,by simpa using eq.trans hb⟩

theorem selectDeliveryTargets_nodup (event : AlertEnvelope) (routeMatches : String → String → Bool)
    (sinks : List NotificationSink) (routes : List NotificationRoute) :
    ((selectDeliveryTargets event routeMatches sinks routes).map (·.sinkId)).Nodup := by
  have fold : ∀ (rows selected : List TargetSnapshot), (selected.map (·.sinkId)).Nodup →
      ((rows.foldl setDefault selected).map (·.sinkId)).Nodup := by
    intro rows
    induction rows with
    | nil => exact fun _ h => h
    | cons row rows ih => exact fun selected h => ih _ (setDefault_nodup h)
  unfold selectDeliveryTargets
  split
  · split
    · exact nodup_singleton _
    · exact .nil
  · exact fold _ [] .nil

theorem map_set_same {α β : Type} {f : α → β} {l : List α} {i : Nat} {a b : α} (h : l[i]? = some a)
    (same : f b = f a) : (l.set i b).map f = l.map f := by
  refine ext_getElem? fun j => ?_
  rw [map_set,same]
  by_cases eq : i = j
  · subst eq
    obtain ⟨inside,_⟩ := List.getElem?_eq_some_iff.mp h
    rw [List.getElem?_set_self (by simpa using inside),List.getElem?_map,h]
    rfl
  · rw [List.getElem?_set_ne eq]

variable {d : Dispatch}

theorem Sound.progress (h : Sound w) (act : Act) {i : Nat}
    {expires : Nat} {old new : Progress} (hs : w.stage r = .running d)
    (entry : d.pending[i]? = some ⟨target,expires,old⟩) (receipts : w₁.receipts = w.receipts)
    (now : w₁.now = w.now) (stages : w₁.stage = w.stage) (quiet : act.recorder = none) :
    Sound (w₁.to r (.running {d with pending := d.pending.set i ⟨target,expires,new⟩})) := by
  have leases := map_set_same (f := fun p : Pending => (p.target.sinkId,p.expires))
    (b := ⟨target,expires,new⟩) entry rfl
  have targets := map_set_same (f := fun p : Pending => p.target) (b := ⟨target,expires,new⟩) entry rfl
  have keys := map_set_same (f := fun p : Pending => p.target.sinkId)
    (b := ⟨target,expires,new⟩) entry rfl
  have change : ∀ k, Change w act (w.receipts k) (w₁.receipts k) := fun k => by
    rw [receipts]
    exact .same _
  have covered := (h.covered r).mono fun k => isFinal_mono h change
  rw [hs] at covered
  refine h.move act change (Nat.le_of_eq now.symm) stages ?_ (fun k e mem late => ?_)
    ⟨?_,fun t ht => ?_⟩
  · intro e _
    rw [quiet]
    exact nofun
  · have mem' : (k,e) ∈ (w.stage r).held := by
      rw [hs]
      change _ ∈ d.pending.map _
      rw [←leases]
      exact mem
    obtain ⟨receipt,stored,rest⟩ := h.held r k e mem' (now ▸ late)
    exact ⟨receipt,(congrFun receipts k).trans stored,rest⟩
  · change ((d.pending.set i _).map _ ++ _).Nodup
    rw [keys]
    exact covered.1
  · obtain todo | ⟨p,hp,rfl⟩ | rest := covered.2 t ht
    · exact .inl todo
    · have mem : p.target ∈ (d.pending.set i ⟨target,expires,new⟩).map (·.target) := by
        rw [targets]
        exact mem_map_of_mem hp
      obtain ⟨p',hp',eq⟩ := mem_map.mp mem
      exact .inr (.inl ⟨p',hp',eq⟩)
    · exact .inr (.inr rest)

theorem Sound.rest (h : Sound w) (act : Act)
    (change : ∀ k, Change w act (w.receipts k) (w₁.receipts k)) (now : w₁.now = w.now)
    (stages : w₁.stage = w.stage) (others : ∀ e, e ≠ r → act.recorder ≠ some e)
    (nothing : stage.held = []) (covered : Covered w₁ stage) : Sound (w₁.to r stage) := by
  refine h.move act change (Nat.le_of_eq now.symm) stages others
    (fun k e mem => ?_) covered
  rw [nothing] at mem
  cases mem

variable {p : Pending}

theorem Sound.leases (h : Sound w) (hs : w.stage r = .running d)
    (hp : p ∈ d.pending) (late : w.now < p.expires) : Leased w r p.target.sinkId p.expires := by
  refine h.held r _ _ ?_ late
  rw [hs]
  exact mem_map_of_mem hp

theorem Leased.store {k e : Nat} (h : Leased w r k e)
    (ne : k ≠ key) : Leased (w.store key receipt) r k e := by
  obtain ⟨rc,stored,rest⟩ := h
  exact ⟨rc,(Function.update_of_ne ne _ _).trans stored,rest⟩

theorem Sound.claimNext (h : Sound w)
    {todo : List TargetSnapshot} (hs : w.stage r = .running d) (next_ : d.todo = target :: todo)
    (past : now ≤ w.now) : Sound (w.claimNext r now d target todo) := by
  have covered := h.covered r
  rw [hs] at covered
  obtain ⟨distinct,targets⟩ := covered
  rw [Dispatch.Distinct,next_,map_cons,nodup_append_comm,cons_append] at distinct
  have new : ∀ p ∈ d.pending, p.target.sinkId ≠ target.sinkId := fun p hp eq =>
    (nodup_cons.mp distinct).1
      (mem_append_right _ (mem_map.mpr ⟨p,hp,eq⟩))
  have quiet : (Act.claim r now).recorder = none := rfl
  obtain eq | ⟨receipt,existing,stored,settled,eq⟩ | ⟨receipt,stood,fresh,lapsed,eq⟩ :=
    NotificationReceipts.claimNext_cases w r now d target todo
  · rw [eq]
    exact h.rest (.claim r now) (fun _ => .same _) rfl rfl (fun e _ => no_recorder quiet e)
      rfl trivial
  · rw [eq]
    refine h.move (.claim r now) (fun _ => .same _) (Nat.le_refl _) rfl
      (fun e _ => no_recorder quiet e) (fun k e mem late => ?_) ⟨?_,fun t ht => ?_⟩
    · exact h.held r k e (by rw [hs]; exact mem) late
    · have rest := (nodup_cons.mp distinct).2
      rw [nodup_append_comm] at rest
      exact rest
    · obtain mem | pending | final | ⟨o,ho,retry⟩ := targets t ht
      · rw [next_,mem_cons] at mem
        obtain rfl | mem := mem
        · by_cases retry : existing.state = .retryable
          · exact .inr (.inr (.inr ⟨existing,mem_append_right _ (.head _),retry⟩))
          · exact .inr (.inr (.inl ⟨receipt,stored,settled retry⟩))
        · exact .inl mem
      · exact .inr (.inl pending)
      · exact .inr (.inr (.inl final))
      · exact .inr (.inr (.inr ⟨o,mem_append_left _ ho,retry⟩))
  · rw [eq]
    have change : ∀ k, Change w (.claim r now) (w.receipts k)
        ((w.store target.sinkId (receipt.claim r now)).receipts k) :=
      Change.store (.claimed receipt r now stood fresh lapsed past (.inl rfl))
    refine h.move (.claim r now) change (Nat.le_refl _) rfl
      (fun e _ => no_recorder quiet e) (fun k e mem late => ?_) ⟨?_,fun t ht => ?_⟩
    · change (k,e) ∈ (d.pending ++ [_]).map _ at mem
      rw [map_append,mem_append] at mem
      obtain mem | mem := mem
      · obtain ⟨p,hp,eq⟩ := mem_map.mp mem
        cases eq
        exact (h.leases hs hp late).store (new p hp)
      · cases mem_singleton.mp mem
        exact ⟨_,store_self ..,rfl,rfl⟩
    · change ((d.pending ++ [_]).map _ ++ todo.map _).Nodup
      rw [map_append,append_assoc]
      refine (List.Perm.nodup_iff ?_).mpr distinct
      exact (perm_append_comm).trans (by simp)
    · obtain mem | ⟨p,hp,rfl⟩ | final | retry := targets t ht
      · rw [next_,mem_cons] at mem
        obtain rfl | mem := mem
        · exact .inr (.inl ⟨_,mem_append_right _ (.head _),rfl⟩)
        · exact .inl mem
      · exact .inr (.inl ⟨p,mem_append_left _ hp,rfl⟩)
      · exact .inr (.inr (.inl (isFinal_mono h change final)))
      · exact .inr (.inr (.inr retry))

theorem Sound.recordNext (h : Sound w)
    {pending : List Pending} (hs : w.stage r = .running d)
    (first : d.pending = p :: pending) : Sound (w.recordNext r now d p pending outcome) := by
  have covered := h.covered r
  rw [hs] at covered
  obtain ⟨distinct,targets⟩ := covered
  rw [Dispatch.Distinct,first,map_cons,cons_append,nodup_cons] at distinct
  have apart : ∀ q ∈ pending, q.target.sinkId ≠ p.target.sinkId := fun q hq eq =>
    distinct.1 (mem_append_left _ (mem_map.mpr ⟨q,hq,eq⟩))
  have change : ∀ k, Change w (.record r now) (w.receipts k)
      ((w.record p.target.sinkId r outcome now).receipts k) := record_change rfl
  have settled : ∀ k, w.isFinal k → (w.record p.target.sinkId r outcome now).isFinal k :=
    fun k => isFinal_mono h change
  -- what is not persisted is retried, and what is persisted and not retried is final
  have noted : (w.record p.target.sinkId r outcome now).isFinal p.target.sinkId ∨
      (if (w.owned p.target.sinkId r).isSome then outcome
        else claimLost p.target outcome).state = .retryable := by
    obtain ⟨owned,_⟩ | ⟨receipt,_,_,owned,eq⟩ := record_cases w p.target.sinkId r now outcome
    · rw [owned]
      exact .inr rfl
    · rw [owned,eq]
      by_cases retry : outcome.state = .retryable
      · exact .inr retry
      · refine .inl ⟨_,store_self ..,?_⟩
        unfold NotificationDelivery.isFinal recordOutcome
        cases state : outcome.state with
        | accepted | terminal => simp
        | retryable => exact absurd state retry
  obtain ⟨clock,stages,_⟩ := record_stays w p.target.sinkId r now outcome
  refine h.move (.record r now) change (Nat.le_of_eq clock.symm) stages
    (fun e ne eq => ne (some.inj eq).symm) (fun k e mem late => ?_) ⟨?_,fun t ht => ?_⟩
  · obtain ⟨q,hq,eq⟩ := mem_map.mp mem
    cases eq
    have lease := h.leases hs (first ▸ mem_cons_of_mem _ hq) (clock ▸ late)
    obtain ⟨_,eq⟩ | ⟨_,_,_,_,eq⟩ := record_cases w p.target.sinkId r now outcome
    · rw [eq]
      exact lease
    · rw [eq]
      exact lease.store (apart q hq)
  · exact distinct.2
  · obtain todo | ⟨q,hq,rfl⟩ | final | ⟨o,ho,retry⟩ := targets t ht
    · exact .inl todo
    · rw [first,mem_cons] at hq
      obtain rfl | hq := hq
      · obtain final | retry := noted
        · exact .inr (.inr (.inl final))
        · exact .inr (.inr (.inr ⟨_,mem_append_right _ (.head _),retry⟩))
      · exact .inr (.inl ⟨q,hq,rfl⟩)
    · exact .inr (.inr (.inl (settled _ final)))
    · exact .inr (.inr (.inr ⟨o,mem_append_left _ ho,retry⟩))

theorem summarize_retryable {outcomes : List DeliveryOutcome} {o : DeliveryOutcome}
    (ho : o ∈ outcomes) (retry : o.state = .retryable) :
    (summarize outcomes).state = .retryable := by
  unfold summarize
  rw [if_pos (any_eq_true.mpr ⟨o,ho,decide_eq_true retry⟩)]

theorem Sound.finish (h : Sound w) (hs : w.stage r = .running d)
    (done : d.todo = []) (all : d.pending = []) :
    Sound (w.to r (.returned d.targets (summarize d.outcomes))) := by
  have covered := h.covered r
  rw [hs] at covered
  refine h.rest (.finish r) (fun _ => .same _) rfl rfl (fun e _ => no_recorder rfl e) rfl ?_
  by_cases retry : ∃ o ∈ d.outcomes, o.state = .retryable
  · obtain ⟨o,ho,retry⟩ := retry
    exact .inl (summarize_retryable ho retry)
  · refine .inr fun t ht => ?_
    obtain mem | ⟨p,hp,_⟩ | final | retry' := covered.2 t ht
    · rw [done] at mem
      cases mem
    · rw [all] at hp
      cases hp
    · exact final
    · exact absurd retry' retry

theorem Sound.step (h : Sound w) (step : Step event routeMatches w act w') :
    Sound w' := by
  have effect := step_effect step
  have change := effect.change
  cases effect with
  | routed r => exact h.rest (.select r) change rfl rfl (fun e _ => no_recorder rfl e) rfl trivial
  | started r =>
    exact h.rest (.select r) change rfl rfl (fun e _ => no_recorder rfl e) rfl
      ⟨selectDeliveryTargets_nodup ..,fun t ht => .inl ht⟩
  | claimed r now d target todo hs first past => exact h.claimNext hs first past
  | progressed act r i d target expires old new quiet hs entry =>
    exact h.progress act hs entry rfl rfl rfl quiet
  | recorded r now d p pending outcome hs _ first => exact h.recordNext hs first
  | finished r d hs done all => exact h.finish hs done all
  | routeSettled r now summary =>
    exact h.rest (.claimRoute r now) change rfl rfl (fun e _ => no_recorder rfl e) rfl (.inr nofun)
  | routeClaimed r now receipt =>
    have claimed : ∀ k, Change w (.claimRoute r now) (w.receipts k)
        ((w.store noRouteSinkKey (receipt.claim r now)).receipts k) := change
    refine h.move (.claimRoute r now) claimed (Nat.le_refl _) rfl (fun e _ => no_recorder rfl e)
      (fun k e mem _ => ?_) trivial
    cases mem_singleton.mp mem
    exact ⟨receipt.claim r now,store_self ..,rfl,rfl⟩
  | routeRecorded r now summary =>
    obtain ⟨clock,stages,_⟩ := record_stays w noRouteSinkKey r now noRouteOutcome
    exact h.rest (.recordRoute r now) (record_change rfl) clock stages
      (fun e ne eq => ne (some.inj eq).symm) rfl (.inr nofun)
  | crashed act r others => exact h.rest act change rfl rfl others rfl trivial
  | edited sinks routes => exact h.shared (.edit sinks routes) change (Nat.le_refl _) rfl rfl
  | ticked now later => exact h.shared (.tick now) change later rfl rfl

theorem sound_start (sinks : List NotificationSink) (routes : List NotificationRoute) (now : Nat) :
    Sound {now := now, sinks := sinks, routes := routes} where
  final := fun _ _ stored => by cases stored
  held := fun _ _ _ mem => by cases mem
  covered := fun _ => trivial

theorem Change.recorder
    (h : Change w act (some receipt) (some receipt'))
    (changed : receipt'.disposition ≠ receipt.disposition ∨
      (receipt'.state ≠ receipt.state ∧ receipt'.state ≠ .claimed)) :
    ∃ r, act.recorder = some r ∧ receipt.claimOwner = some r := by
  cases h with
  | same => simp at changed
  | claimed receipt r now stood =>
    cases stood _ rfl
    obtain moved | ⟨_,moved⟩ := changed
    · exact absurd rfl moved
    · exact absurd rfl moved
  | recorded _ r now outcome recorder owner => exact ⟨r,recorder,owner⟩
  | unlinked _ sinks routes =>
    obtain moved | ⟨moved,_⟩ := changed
    · exact absurd rfl moved
    · exact absurd rfl moved

theorem Sound.kept (h : Sound w) {act : Act} (step : Step event routeMatches w act w') :
    Kept w act w' where
  final := by
    intro key receipt stored final
    have change := (step_effect step).change key
    rw [stored] at change
    exact change.kept final (h.final key receipt stored final)
  leased := by
    intro key receipt owner expires stored owned lease late other
    have change := (step_effect step).change key
    rw [stored] at change
    exact change.leased owned lease late other
  recorder := by
    intro key receipt receipt' stored left changed
    have change := (step_effect step).change key
    rw [stored,left] at change
    exact change.recorder changed
  new := by
    intro key receipt stored left
    have change := (step_effect step).change key
    rw [stored,left] at change
    cases change with
    | claimed => rfl

theorem Sound.sole (h : Sound w) {r' e e' : Nat} (one : (key,e) ∈ (w.stage r).held)
    (other : (key,e') ∈ (w.stage r').held) (late : w.now < e) (late' : w.now < e') : r = r' := by
  obtain ⟨receipt,stored,owner,_⟩ := h.held r key e one late
  obtain ⟨receipt',stored',owner',_⟩ := h.held r' key e' other late'
  cases stored.symm.trans stored'
  exact some.inj (owner.symm.trans owner')

theorem Change.timely
    (h : Change w act o (some receipt')) (meets : InTime w act)
    (lease : ∀ receipt, o = some receipt → receipt.claimOwner.isSome = true →
      ∃ expires, receipt.claimExpiresAt = some expires ∧ w.now < expires)
    (owned : receipt'.claimOwner.isSome = true) :
    ∃ expires, receipt'.claimExpiresAt = some expires ∧ w.now < expires := by
  cases h with
  | same => exact lease receipt' rfl owned
  | claimed receipt r now stood fresh lapsed past claimer =>
    refine ⟨_,rfl,?_⟩
    obtain rfl | rfl := claimer
    · exact meets
    · exact meets
  | recorded => cases owned
  | unlinked receipt sinks routes => exact lease receipt rfl owned

theorem Timely.unclaimed (h : Timely w)
    (stood : ∀ old, w.receipts key = some old → old = receipt) (fresh : receipt.isFinal = false)
    (lapsed : ∀ e, receipt.claimExpiresAt = some e → e ≤ now) (past : now ≤ w.now) :
    ¬Taken w key := by
  intro ⟨old,stored,taken⟩
  cases stood old stored
  obtain final | owned := taken
  · rw [final] at fresh
    cases fresh
  · obtain ⟨e,expires,late⟩ := h.lease key _ stored owned
    have ended := lapsed e expires
    omega

theorem Timely.taken (h : Timely w)
    (change : Change w act (w.receipts key) (w₁.receipts key)) (quiet : act.recorder = none)
    (taken : Taken w key) : Taken w₁ key := by
  have ⟨receipt,stored,claim⟩ := taken
  generalize before : w.receipts key = o at change
  generalize after : w₁.receipts key = o' at change
  cases change with
  | same => exact ⟨receipt,after.trans (before.symm.trans stored),claim⟩
  | claimed receipt' r now stood fresh lapsed past =>
    rw [←before] at stood
    exact absurd taken (h.unclaimed stood fresh lapsed past)
  | recorded _ r now outcome recorder => exact absurd recorder (no_recorder quiet r)
  | unlinked receipt' sinks routes =>
    cases before.symm.trans stored
    exact ⟨_,after,claim⟩

theorem Timely.move (h : Timely w) (act : Act) (meets : InTime w act)
    (change : ∀ k, Change w act (w.receipts k) (w₁.receipts k)) (now : w₁.now = w.now)
    (stages : w₁.stage = w.stage) (accepted : w₁.accepted = w.accepted)
    (held : ∀ key expires, (key,expires) ∈ stage.held → w.now < expires)
    (taken : ∀ k, Settled w k → Taken w₁ k)
    (pending : ∀ p ∈ stage.pending, Settled w p.target.sinkId → p.progress.accepted = true) :
    Timely (w₁.to r stage) where
  lease := by
    intro key receipt stored owned
    change ∃ expires, _ ∧ w₁.now < expires
    rw [now]
    exact (stored ▸ change key : Change w act (w.receipts key) (some receipt)).timely meets
      (h.lease key) owned
  held := by
    intro e key expires
    change (key,expires) ∈ (Function.update w₁.stage r stage e).held → w₁.now < expires
    rw [now]
    by_cases eq : e = r
    · subst eq
      rw [Function.update_self]
      exact held key expires
    · rw [Function.update_of_ne eq,stages]
      exact h.held e key expires
  counted := by
    intro key
    obtain none_ | settled := h.counted key
    · exact .inl ((congrFun accepted key).trans none_)
    · refine .inr ⟨(congrFun accepted key).trans settled.1,taken key settled,fun e p => ?_⟩
      change p ∈ (Function.update w₁.stage r stage e).pending → _
      by_cases eq : e = r
      · subst eq
        rw [Function.update_self]
        intro hp same
        exact pending p hp (same ▸ settled)
      · rw [Function.update_of_ne eq,stages]
        exact settled.2.2 e p

theorem Timely.rest (h : Timely w) (nothing : stage.held = [])
    (idle : stage.pending = []) : Timely (w.to r stage) := by
  refine h.move (.finish r) trivial (fun _ => .same _) rfl rfl rfl (fun k e mem => ?_)
    (fun _ settled => settled.2.1) (fun p hp => ?_)
  · rw [nothing] at mem
    cases mem
  · rw [idle] at hp
    cases hp

theorem Timely.claimNext (h : Timely w)
    {todo : List TargetSnapshot} (hs : w.stage r = .running d) (past : now ≤ w.now)
    (meets : w.now < now+claimLease) : Timely (w.claimNext r now d target todo) := by
  have before := h.held r
  rw [hs] at before
  have sent : ∀ p ∈ d.pending, Settled w p.target.sinkId → p.progress.accepted = true :=
    fun p hp settled => settled.2.2 r p (hs ▸ hp) rfl
  obtain eq | ⟨_,existing,_,_,eq⟩ | ⟨receipt,stood,fresh,lapsed,eq⟩ :=
    NotificationReceipts.claimNext_cases w r now d target todo
  · rw [eq]
    exact h.rest rfl rfl
  · rw [eq]
    exact h.move (.claim r now) meets (fun _ => .same _) rfl rfl rfl before
      (fun _ settled => settled.2.1) sent
  · rw [eq]
    have change : ∀ k, Change w (.claim r now) (w.receipts k)
        ((w.store target.sinkId (receipt.claim r now)).receipts k) :=
      Change.store (.claimed receipt r now stood fresh lapsed past (.inl rfl))
    refine h.move (.claim r now) meets change rfl rfl rfl (fun k e mem => ?_)
      (fun k settled => h.taken (change k) rfl settled.2.1) (fun p hp settled => ?_)
    · change (k,e) ∈ (d.pending ++ [_]).map _ at mem
      rw [map_append,mem_append] at mem
      obtain mem | mem := mem
      · exact before k e mem
      · cases mem_singleton.mp mem
        exact meets
    · obtain old | new := mem_append.mp hp
      · exact sent p old settled
      · cases mem_singleton.mp new
        exact absurd settled.2.1 (h.unclaimed stood fresh lapsed past)

theorem Timely.owned (h : Timely w) (sound : Sound w) {e : Nat}
    (mem : (key,e) ∈ (w.stage r).held) : Leased w r key e :=
  sound.held r key e mem (h.held r key e mem)

theorem Leased.taken {e : Nat} (h : Leased w r key e) : Taken w key := by
  obtain ⟨receipt,stored,owner,_⟩ := h
  exact ⟨receipt,stored,.inr (by rw [owner]; rfl)⟩

theorem held_of_pending (hs : w.stage r = .running d)
    (hp : p ∈ d.pending) : (p.target.sinkId,p.expires) ∈ (w.stage r).held := by
  rw [hs]
  exact mem_map_of_mem hp

theorem set_sole {i : Nat} {old new : Pending} (distinct : d.Distinct)
    (entry : d.pending[i]? = some old) (hp : p ∈ d.pending.set i new) :
    p = new ∨ p ∈ d.pending ∧ p.target.sinkId ≠ old.target.sinkId := by
  obtain ⟨j,inside,eq⟩ := mem_iff_getElem.mp hp
  rw [List.getElem_set] at eq
  split at eq
  · exact .inl eq.symm
  case isFalse apart =>
    rw [length_set] at inside
    refine .inr ⟨eq ▸ List.getElem_mem _,fun keys => apart ?_⟩
    obtain ⟨inside',at_⟩ := List.getElem?_eq_some_iff.mp entry
    have nodup := (nodup_append.mp distinct).1
    refine (@List.Nodup.getElem_inj_iff _ _ nodup i (by simpa using inside') j
      (by simpa using inside)).mp ?_
    rw [List.getElem_map,List.getElem_map,at_,eq,keys]

theorem Timely.unsent (h : Timely w) (hs : w.stage r = .running d)
    (hp : p ∈ d.pending) (unsent : p.progress.accepted = false) :
    w.accepted p.target.sinkId = 0 := by
  obtain none_ | ⟨_,_,sent⟩ := h.counted p.target.sinkId
  · exact none_
  · rw [sent r p (hs ▸ hp) rfl] at unsent
    cases unsent

theorem accepted_of_unsent {progress : Progress} (h : progress.isSent = false) :
    progress.accepted = false := by
  cases progress with
  | sent result => cases h
  | _ => rfl

theorem Timely.answered (h : Timely w) (sound : Sound w) {i : Nat} {d : Dispatch}
    {old new : Pending} (hs : w.stage r = .running d) (entry : d.pending[i]? = some old)
    (same : new.target = old.target) (lease : new.expires = old.expires)
    (unsent : old.progress.isSent = false) (accepted : new.progress.accepted = true) :
    Timely ({w with accepted :=
      Function.update w.accepted old.target.sinkId (w.accepted old.target.sinkId+1)}.to r
        (.running {d with pending := d.pending.set i new})) where
  lease := h.lease
  held := by
    intro e key expires
    change (key,expires) ∈ (Function.update w.stage r _ e).held → w.now < expires
    by_cases eq : e = r
    · subst eq
      rw [Function.update_self]
      change (key,expires) ∈ (d.pending.set i new).map _ → _
      have leases := map_set_same (f := fun p : Pending => (p.target.sinkId,p.expires))
        (b := new) entry (by rw [same,lease])
      rw [leases]
      intro mem
      exact h.held e key expires (hs ▸ mem)
    · rw [Function.update_of_ne eq]
      exact h.held e key expires
  counted := by
    have listed : old ∈ d.pending := mem_of_getElem? entry
    have owned := h.owned sound (held_of_pending hs listed)
    have distinct : d.Distinct := by
      have covered := sound.covered r
      rw [hs] at covered
      exact covered.1
    have zero := h.unsent hs listed (accepted_of_unsent unsent)
    intro key
    change Function.update w.accepted old.target.sinkId _ key = 0 ∨ _
    by_cases here : key = old.target.sinkId
    · subst here
      refine .inr ⟨(Function.update_self ..).trans (by rw [zero]),owned.taken,fun e p => ?_⟩
      change p ∈ (Function.update w.stage r _ e).pending → _
      by_cases eq : e = r
      · subst eq
        rw [Function.update_self]
        intro hp key
        obtain rfl | ⟨_,apart⟩ := set_sole distinct entry hp
        · exact accepted
        · exact absurd key apart
      · -- another run would own the same receipt
        rw [Function.update_of_ne eq]
        intro hp key
        obtain ⟨d',hs'⟩ : ∃ d', w.stage e = .running d' := by
          cases stage : w.stage e with
          | running d' => exact ⟨d',rfl⟩
          | _ =>
            rw [stage] at hp
            cases hp
        rw [hs'] at hp
        have mem := held_of_pending hs' hp
        rw [key] at mem
        exact absurd (sound.sole mem (held_of_pending hs listed) (h.held e _ _ mem)
          (h.held r _ _ (held_of_pending hs listed))) eq
    · rw [Function.update_of_ne here]
      obtain none_ | ⟨one,taken,sent⟩ := h.counted key
      · exact .inl none_
      · refine .inr ⟨(Function.update_of_ne here ..).trans one,taken,fun e p => ?_⟩
        change p ∈ (Function.update w.stage r _ e).pending → _
        by_cases eq : e = r
        · subst eq
          rw [Function.update_self]
          intro hp key
          obtain rfl | ⟨hp,_⟩ := set_sole distinct entry hp
          · exact absurd (key.symm.trans (congrArg _ same)) here
          · exact sent e p (hs ▸ hp) key
        · rw [Function.update_of_ne eq]
          exact sent e p

theorem Timely.progressed (h : Timely w) (sound : Sound w) {i : Nat} {expires : Nat} {old new : Progress} (hs : w.stage r = .running d)
    (entry : d.pending[i]? = some ⟨target,expires,old⟩) (unsent : old.isSent = false) :
    Timely ({w with accepted := if new.accepted
      then Function.update w.accepted target.sinkId (w.accepted target.sinkId+1)
      else w.accepted}.to r
        (.running {d with pending := d.pending.set i ⟨target,expires,new⟩})) := by
  cases accepted : new.accepted with
  | true => exact h.answered sound hs entry rfl rfl unsent accepted
  | false =>
    have listed := mem_of_getElem? entry
    have leases := map_set_same (f := fun p : Pending => (p.target.sinkId,p.expires))
      (b := ⟨target,expires,new⟩) entry rfl
    refine h.move (.finish r) trivial (fun _ => .same _) rfl rfl rfl (fun k e mem => ?_)
      (fun _ settled => settled.2.1) (fun p hp settled => ?_)
    · change (k,e) ∈ (d.pending.set i _).map _ at mem
      rw [leases] at mem
      exact h.held r k e (hs ▸ mem)
    · obtain hp | rfl := mem_or_eq_of_mem_set hp
      · exact settled.2.2 r p (hs ▸ hp) rfl
      · have zero := h.unsent hs listed (accepted_of_unsent unsent)
        have one := settled.1
        change w.accepted target.sinkId = 0 at zero
        change w.accepted target.sinkId = 1 at one
        omega

theorem record_taken {k : Nat} (taken : Taken w k)
    (final : k = key → outcome.state ≠ .retryable) : Taken (w.record key r outcome now) k := by
  obtain ⟨_,eq⟩ | ⟨receipt,_,_,_,eq⟩ := record_cases w key r now outcome
  · rw [eq]
    exact taken
  · rw [eq]
    by_cases here : k = key
    · subst here
      refine ⟨_,store_self ..,.inl ?_⟩
      unfold NotificationDelivery.isFinal recordOutcome
      cases state : outcome.state with
      | accepted | terminal => simp
      | retryable => exact absurd state (final rfl)
    · obtain ⟨old,stored,claim⟩ := taken
      exact ⟨old,(Function.update_of_ne here ..).trans stored,claim⟩

theorem Timely.recordNext (h : Timely w)
    {pending : List Pending} (hs : w.stage r = .running d)
    (first : d.pending = p :: pending)
    (result : p.progress.accepted = true → outcome.state = .accepted) :
    Timely (w.recordNext r now d p pending outcome) := by
  obtain ⟨clock,stages,counts⟩ := record_stays w p.target.sinkId r now outcome
  have sent : ∀ q ∈ d.pending, Settled w q.target.sinkId → q.progress.accepted = true :=
    fun q hq settled => settled.2.2 r q (hs ▸ hq) rfl
  refine h.move (.record r now) trivial (record_change rfl) clock stages counts
    (fun k e mem => ?_) (fun k settled => record_taken settled.2.1 fun here retry => ?_)
    (fun q hq => sent q (first ▸ mem_cons_of_mem _ hq))
  · refine h.held r k e ?_
    rw [hs]
    change _ ∈ d.pending.map _
    rw [first,map_cons]
    exact mem_cons_of_mem _ mem
  · subst here
    rw [result (sent p (first ▸ mem_cons_self ..) settled)] at retry
    cases retry

theorem Timely.step (h : Timely w) (sound : Sound w) (meets : InTime w act)
    (step : Step event routeMatches w act w') : Timely w' := by
  have effect := step_effect step
  have change := effect.change
  cases effect with
  | claimed r now d target todo hs first past => exact h.claimNext hs past meets
  | progressed act r i d target expires old new quiet hs entry unsent =>
    exact h.progressed sound hs entry unsent
  | recorded r now d p pending outcome hs _ first result => exact h.recordNext hs first result
  | routeClaimed r now receipt =>
    have claimed : ∀ k, Change w (.claimRoute r now) (w.receipts k)
        ((w.store noRouteSinkKey (receipt.claim r now)).receipts k) := change
    refine h.move (.claimRoute r now) meets claimed rfl rfl rfl (fun k e mem => ?_)
      (fun k settled => h.taken (claimed k) rfl settled.2.1) nofun
    cases mem_singleton.mp mem
    exact meets
  | routeRecorded r now summary =>
    obtain ⟨clock,stages,counts⟩ := record_stays w noRouteSinkKey r now noRouteOutcome
    exact h.move (.recordRoute r now) trivial (record_change rfl) clock stages counts
      nofun (fun k settled => record_taken settled.2.1 nofun)
      nofun
  | edited sinks routes =>
    exact {h with
      lease := fun key receipt stored owned => (stored ▸ change key).timely meets (h.lease key) owned
      counted := fun key => (h.counted key).imp id fun settled =>
        ⟨settled.1,h.taken (change key) rfl settled.2.1,settled.2.2⟩}
  | ticked now later =>
    exact {h with
      lease := fun key receipt stored owned => by
        obtain ⟨e,expires,_⟩ := h.lease key receipt stored owned
        exact ⟨e,expires,meets key receipt e stored owned expires⟩
      held := fun r key e mem => by
        obtain ⟨receipt,stored,owner,expires⟩ := h.owned sound mem
        exact meets key receipt e stored (by rw [owner]; rfl) expires}
  | _ => exact h.rest rfl rfl

theorem timely_start (sinks : List NotificationSink) (routes : List NotificationRoute) (now : Nat) :
    Timely {now := now, sinks := sinks, routes := routes} where
  lease := fun _ _ stored => by cases stored
  held := fun _ _ _ mem => by cases mem
  counted := fun _ => .inl rfl

/-- Over every order of the steps of every number of runs: one run at a time holds a claim, a
summary that is not retried stands for final receipts, receipts are kept, and a provider accepts
the alert once when no lease runs out on an outcome. -/
theorem receipts_hold (event : AlertEnvelope) (routeMatches : String → String → Bool)
    (sinks : List NotificationSink) (routes : List NotificationRoute) (now : Nat) (acts : List Act)
    (w : World) :
    (Run (Step event routeMatches) {now := now, sinks := sinks, routes := routes} acts w →
      (∀ key r r' e e', (key,e) ∈ (w.stage r).held → (key,e') ∈ (w.stage r').held →
        w.now < e → w.now < e' → r = r') ∧
      (∀ r targets summary, w.stage r = .returned targets summary →
        summary.state ≠ .retryable → ∀ t ∈ targets, w.isFinal t.sinkId) ∧
      ∀ act w', Step event routeMatches w act w' → Kept w act w') ∧
    (Run (Guarded (Step event routeMatches) InTime)
      {now := now, sinks := sinks, routes := routes} acts w → ∀ key, w.accepted key ≤ 1) := by
  refine ⟨fun run => ?_,fun run key => ?_⟩
  · have sound : Sound w := run.invariant (fun _ _ _ h step => h.step step)
      (sound_start sinks routes now)
    refine ⟨fun key r r' e e' => sound.sole,fun r targets summary hs answered => ?_,
      fun act w' step => sound.kept step⟩
    have covered := sound.covered r
    rw [hs] at covered
    exact covered.resolve_left answered
  · have both : Sound w ∧ Timely w := run.invariant (I := fun w => Sound w ∧ Timely w)
      (fun _ _ _ h step => ⟨h.1.step step.2,h.2.step h.1 step.1 step.2⟩)
      ⟨sound_start sinks routes now,timely_start sinks routes now⟩
    obtain none_ | settled := both.2.counted key
    · exact none_ ▸ Nat.zero_le 1
    · exact Nat.le_of_eq settled.1

end Proofs

theorem Step.of {event : AlertEnvelope} {routeMatches : String → String → Bool} {w w' : World}
    (act : Act) (h : next event routeMatches w act = some w') : Step event routeMatches w act w' := h

section Alert

def slackSink : NotificationSink := ⟨1,true,"slack"⟩

def testAlert : AlertEnvelope := ⟨some 1,"info"⟩

def slackAccepted : DeliveryOutcome where
  state := .accepted
  reasonCode := "accepted"
  safeMessage := "Provider accepted the notification."
  provider := "slack"
  sinkId := some 1
  attemptCount := 1
  httpStatus := some 200
  acceptedAt := some 0

theorem alert_run : ∃ acts w, Run (Guarded (Step testAlert fun _ _ => true) InTime)
    {sinks := [slackSink], routes := []} acts w ∧ w.accepted 1 = 1 ∧
    (∃ receipt, w.receipts 1 = some receipt ∧ receipt.isFinal = true ∧ receipt.sinkId = some 1) ∧
    ∃ summary, w.stage 0 = .returned [⟨1,"slack"⟩] summary ∧ summary.state = .accepted := by
  have start : Run (Guarded (Step testAlert fun _ _ => true) InTime)
    {sinks := [slackSink], routes := []} [] {sinks := [slackSink], routes := []} := .nil _
  have claimed := (start.also (.of (.select 0) rfl) trivial).also (.of (.claim 0 0) rfl)
    (show 0 < 0+claimLease by decide)
  have sent := (claimed.also (.of (.check 0 0) rfl) trivial).also
    (.of (.send 0 0 (.outcome slackAccepted)) rfl) trivial
  have finished := (sent.also (.of (.record 0 0) rfl) trivial).also (.of (.finish 0) rfl) trivial
  exact ⟨_,_,finished,rfl,⟨_,rfl,rfl,rfl⟩,_,rfl,rfl⟩

theorem receipts_hold_slack : ∃ acts w, Run (Guarded (Step testAlert fun _ _ => true) InTime)
    {sinks := [slackSink], routes := []} acts w ∧ w.isFinal 1 ∧ w.accepted 1 = 1 ∧
    w.accepted 1 ≤ 1 ∧ ∃ w', Step testAlert (fun _ _ => true) w (.edit [] []) w' ∧
      Kept w (.edit [] []) w' := by
  obtain ⟨acts,w,run,once,_,summary,hs,answered⟩ := alert_run
  have hold := receipts_hold testAlert (fun _ _ => true) [slackSink] [] 0 acts w
  obtain ⟨_,returned,kept⟩ := hold.1 run.unguarded
  have final := returned 0 _ summary hs (by rw [answered]; decide) ⟨1,"slack"⟩ (.head _)
  exact ⟨acts,w,run,final,once,hold.2 run 1,_,rfl,kept _ _ rfl⟩

/-- A receipt that is accepted changes once more when its sink is deleted. -/
theorem final_receipt_unlinked : ¬∀ (acts : List Act) (w w' : World) (act : Act),
    Run (Step testAlert fun _ _ => true) {sinks := [slackSink], routes := []} acts w →
    Step testAlert (fun _ _ => true) w act w' → ∀ key receipt, w.receipts key = some receipt →
      receipt.isFinal = true → w'.receipts key = some receipt := by
  intro unchanged
  obtain ⟨acts,w,run,_,⟨receipt,stored,final,link⟩,_⟩ := alert_run
  have same := unchanged acts w _ (.edit [] []) run.unguarded rfl 1 receipt stored final
  have gone := congrArg (fun o : Option NotificationDelivery => o.bind (·.sinkId)) same
  change (w.receipts 1 |>.map _).bind _ = receipt.sinkId at gone
  rw [stored,link] at gone
  change receipt.sinkId.filter _ = some 1 at gone
  rw [link] at gone
  cases gone

end Alert

end CircuitBreaker.NotificationReceipts
