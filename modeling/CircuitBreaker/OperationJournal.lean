import CircuitBreaker.Redaction

/-! One operation's journal: its records, the rules J1-J10 that walk them
(`_checkpoint_rules`, `_journal_rules`) and the next journal a checkpoint request
makes (`_next_journal`). -/

namespace CircuitBreaker.Lifecycle
open TextPattern

inductive State where
  | planned | staged | verified | recoverySaved | applying | checking | committed
  | recovering | recovered | recoveryRequired | interrupted
  deriving DecidableEq

def State.name : State → String
  | .planned => "planned"
  | .staged => "staged"
  | .verified => "verified"
  | .recoverySaved => "recovery_saved"
  | .applying => "applying"
  | .checking => "checking"
  | .committed => "committed"
  | .recovering => "recovering"
  | .recovered => "recovered"
  | .recoveryRequired => "recovery_required"
  | .interrupted => "interrupted"

inductive Kind where
  | transaction | legacy
  deriving DecidableEq

def Kind.name : Kind → String
  | .transaction => "transaction"
  | .legacy => "legacy"

inductive Cause where
  | interrupted | abandoned | applyFailed | checkFailed | recoveryFailed
  deriving DecidableEq

def Cause.name : Cause → String
  | .interrupted => "interrupted"
  | .abandoned => "abandoned"
  | .applyFailed => "apply_failed"
  | .checkFailed => "check_failed"
  | .recoveryFailed => "recovery_failed"

inductive Outcome where
  | committed | recovered | refused | interrupted | manual
  deriving DecidableEq

def Outcome.name : Outcome → String
  | .committed => "committed"
  | .recovered => "recovered"
  | .refused => "refused"
  | .interrupted => "interrupted"
  | .manual => "manual"

inductive ExitName where
  | usage | unsupported | network | trust | permission | preflight | recovered | manual
  | locked | interrupted
  deriving DecidableEq

def ExitName.name : ExitName → String
  | .usage => "USAGE"
  | .unsupported => "UNSUPPORTED"
  | .network => "NETWORK"
  | .trust => "TRUST"
  | .permission => "PERMISSION"
  | .preflight => "PREFLIGHT"
  | .recovered => "RECOVERED"
  | .manual => "MANUAL"
  | .locked => "LOCKED"
  | .interrupted => "INTERRUPTED"

inductive Action where
  | install | update | downgrade | rollback | recover | uninstall | restore | migrate
  | backup | vaultRecover | restart
  deriving DecidableEq

def Action.name : Action → String
  | .install => "install"
  | .update => "update"
  | .downgrade => "downgrade"
  | .rollback => "rollback"
  | .recover => "recover"
  | .uninstall => "uninstall"
  | .restore => "restore"
  | .migrate => "migrate"
  | .backup => "backup"
  | .vaultRecover => "vault_recover"
  | .restart => "restart"

inductive Adapter where
  | native | mono | package | proxmox
  deriving DecidableEq

def Adapter.name : Adapter → String
  | .native => "native"
  | .mono => "mono"
  | .package => "package"
  | .proxmox => "proxmox"

inductive EvidenceCheck where
  | signature | provenance | digest | archive | compatibility | recoveryPoint | health
  | version | schema | identity
  deriving DecidableEq

def EvidenceCheck.name : EvidenceCheck → String
  | .signature => "signature"
  | .provenance => "provenance"
  | .digest => "digest"
  | .archive => "archive"
  | .compatibility => "compatibility"
  | .recoveryPoint => "recovery_point"
  | .health => "health"
  | .version => "version"
  | .schema => "schema"
  | .identity => "identity"

inductive EvidenceResult where
  | passed | failed | skipped
  deriving DecidableEq

def EvidenceResult.name : EvidenceResult → String
  | .passed => "passed"
  | .failed => "failed"
  | .skipped => "skipped"

structure JournalError where
  code : ExitName
  reason : String
  deriving DecidableEq

/-- One record of a journal; `time` is its `at`. -/
structure Checkpoint where
  sequence : Nat
  state : State
  time : String
  step : Option String := none
  cause : Option Cause := none
  checkpoint : Option State := none
  outcome : Option Outcome := none
  error : Option JournalError := none
  deriving DecidableEq

structure Release where
  version : String
  artifactDigest : Option String
  deriving DecidableEq

structure RecoveryRef where
  operationId : String
  manifestDigest : String
  deriving DecidableEq

structure Evidence where
  check : EvidenceCheck
  result : EvidenceResult
  detail : Option String
  deriving DecidableEq

structure Journal where
  operationId : String
  kind : Kind
  action : Action
  adapter : Adapter
  generation : Nat
  planDigest : Option String
  identityDigest : Option String
  source : Option Release
  target : Option Release
  recovery : Option RecoveryRef
  evidence : List Evidence
  startedAt : String
  updatedAt : String
  checkpoints : List Checkpoint
  deriving DecidableEq

/-! The documents they are written as. -/

def Json.member {α : Type} (key : String) (f : α → Json) : Option α → List (String × Json)
  | some x => [(key,f x)]
  | none => []

def Json.orNull {α : Type} (f : α → Json) : Option α → Json
  | some x => f x
  | none => .lit .null

def JournalError.toJson (e : JournalError) : Json :=
  .obj [("code",.str e.code.name),("reason",.str e.reason)]

def Checkpoint.toJson (c : Checkpoint) : Json :=
  .obj ([("sequence",.int c.sequence),("state",.str c.state.name),("at",.str c.time)] ++
    Json.member "step" .str c.step ++
    Json.member "cause" (fun x => .str x.name) c.cause ++
    Json.member "checkpoint" (fun x => .str x.name) c.checkpoint ++
    Json.member "outcome" (fun x => .str x.name) c.outcome ++
    Json.member "error" JournalError.toJson c.error)

def Release.toJson (r : Release) : Json :=
  .obj [("version",.str r.version),("artifact_digest",Json.orNull .str r.artifactDigest)]

def RecoveryRef.toJson (r : RecoveryRef) : Json :=
  .obj [("operation_id",.str r.operationId),("manifest_digest",.str r.manifestDigest)]

def Evidence.toJson (e : Evidence) : Json :=
  .obj [("check",.str e.check.name),("result",.str e.result.name),
    ("detail",Json.orNull .str e.detail)]

def Journal.members (j : Journal) : List (String × Json) :=
  [("schema_version",.int 1),("operation_id",.str j.operationId),("kind",.str j.kind.name),
    ("action",.str j.action.name),("adapter",.str j.adapter.name),("generation",.int j.generation),
    ("plan_digest",Json.orNull .str j.planDigest),
    ("identity_digest",Json.orNull .str j.identityDigest),
    ("source",Json.orNull Release.toJson j.source),("target",Json.orNull Release.toJson j.target),
    ("recovery",Json.orNull RecoveryRef.toJson j.recovery),
    ("evidence",.arr (j.evidence.map Evidence.toJson)),
    ("started_at",.str j.startedAt),("updated_at",.str j.updatedAt),
    ("checkpoints",.arr (j.checkpoints.map Checkpoint.toJson))]

def Journal.toJson (j : Journal) : Json := .obj j.members

/-! The state machine, `x-lifecycle`. -/

def initialState : Kind → State
  | .transaction => .planned
  | .legacy => .applying

def preMutation : List State := [.planned,.staged,.verified,.recoverySaved]
def progressStates : List State := [.applying,.checking,.recovering]
def maxRecoveryAttempts : Nat := 3

def allowedCauses : State → Option (List Cause)
  | .interrupted => some [.interrupted,.abandoned]
  | .recoveryRequired => some [.interrupted,.applyFailed,.checkFailed,.recoveryFailed]
  | _ => none

def transitions : Kind → State → List State
  | .transaction, .planned => [.staged,.interrupted]
  | .transaction, .staged => [.verified,.interrupted]
  | .transaction, .verified => [.recoverySaved,.applying,.interrupted]
  | .transaction, .recoverySaved => [.applying,.interrupted]
  | .transaction, .applying => [.checking,.recovering,.recoveryRequired,.interrupted]
  | .transaction, .checking => [.committed,.recovering,.recoveryRequired,.interrupted]
  | .transaction, .committed => []
  | .transaction, .recovering => [.recovered,.recoveryRequired,.interrupted]
  | .transaction, .recovered => []
  | .transaction, .recoveryRequired => [.recovering]
  | .transaction, .interrupted => [.recovering,.recoveryRequired]
  | .legacy, .applying => [.checking,.committed,.recovering,.recoveryRequired,.interrupted]
  | .legacy, .checking => [.committed,.recovering,.recoveryRequired,.interrupted]
  | .legacy, .recovering => [.recovered,.recoveryRequired,.interrupted]
  | .legacy, _ => []

def isTransition (kind : Kind) (source target : State) : Bool :=
  (transitions kind source).contains target

/-! The rules. -/

def failIf (bad : Bool) (path reason : String) : Option ContractError :=
  if bad then some ⟨path,reason,false⟩ else none

@[simp] theorem failIf_eq_none {bad : Bool} {path reason : String} :
    failIf bad path reason = none ↔ bad = false := by
  cases bad <;> simp [failIf]

/-- `outcome` is a result's outcome, or what a record's error stands for. -/
def errorCodeProblem (outcome : String) (code : ExitName) : Option String :=
  if outcome = "recovered" then
    if code = .recovered then none else some "a recovered result uses code RECOVERED"
  else if outcome = "recovery_required" then
    if code = .manual ∨ code = .interrupted then none
    else some "recovery_required uses code MANUAL, or INTERRUPTED when a signal caused it"
  else if outcome = "interrupted" then
    if code = .interrupted then none else some "an interruption uses code INTERRUPTED"
  else if code = .recovered ∨ code = .interrupted then
    some "a refusal uses the code of the check that refused, not RECOVERED or INTERRUPTED"
  else none

def Checkpoint.errorAs (c : Checkpoint) : String :=
  if c.outcome = some .refused then "refused" else c.state.name

def Checkpoint.needsError (c : Checkpoint) : Bool :=
  ["refused","recovered","recovery_required"].contains c.errorAs

def Checkpoint.early (c : Checkpoint) : Bool := c.checkpoint.any preMutation.contains

def causeRules (c : Checkpoint) (pos : String) : Option ContractError :=
  match allowedCauses c.state with
  | some causes =>
      failIf c.cause.isNone (pos ++ "/cause") (c.state.name ++ " records need a cause") <|>
      failIf (!c.cause.any causes.contains) (pos ++ "/cause")
        (c.state.name ++ " takes cause " ++ ", ".intercalate (causes.map Cause.name))
  | none =>
      failIf c.cause.isSome (pos ++ "/cause")
        "only interrupted and recovery_required records carry a cause"

def closingRule (c : Checkpoint) (pos : String) (state : State) (outcome : Outcome) :
    Option ContractError :=
  failIf ((c.state == state) != (c.outcome == some outcome)) (pos ++ "/outcome")
    ("a " ++ outcome.name ++ " record closes with outcome " ++ outcome.name ++ ", and only it does")

def outcomeRules (c : Checkpoint) (pos : String) : Option ContractError :=
  closingRule c pos .committed .committed <|>
  closingRule c pos .recovered .recovered <|>
  failIf (c.outcome == some .refused && !preMutation.contains c.state) (pos ++ "/outcome")
    "refused only closes an operation before mutation" <|>
  failIf (c.outcome == some .interrupted && !(c.state == .interrupted && c.early))
    (pos ++ "/outcome") "interrupted only closes an operation interrupted before mutation" <|>
  failIf (c.state == .interrupted && c.early && c.outcome != some .interrupted)
    (pos ++ "/outcome") ("an interruption before mutation changed nothing, so it closes the " ++
      "operation with outcome interrupted") <|>
  failIf (c.state == .interrupted && !c.early && c.cause != some .abandoned) (pos ++ "/cause")
    ("after mutation a trap records recovery_required with cause interrupted; " ++
      "an interrupted record after mutation is only abandoned (no trap ran)") <|>
  failIf (c.outcome == some .manual && c.state != .recoveryRequired) (pos ++ "/outcome")
    "manual only closes a recovery_required operation"

def errorRules (c : Checkpoint) (pos : String) : Option ContractError :=
  failIf (c.needsError && c.error.isNone) (pos ++ "/error")
    ("a " ++ c.errorAs ++ " record carries an error") <|>
  failIf (c.error.isSome && !c.needsError && c.errorAs != "interrupted") (pos ++ "/error")
    "only refused, recovered, recovery_required and interrupted records carry an error" <|>
  (match c.error.bind fun e => errorCodeProblem c.errorAs e.code with
    | some problem => some ⟨pos ++ "/error/code",problem,false⟩
    | none => none) <|>
  failIf (c.state == .recoveryRequired &&
      (c.cause == some .interrupted) != (c.error.any fun e => e.code == .interrupted))
    (pos ++ "/error/code") "recovery_required uses INTERRUPTED exactly when its cause is interrupted"

def checkpointRules (c : Checkpoint) (pos : String) : Option ContractError :=
  failIf (c.step.isSome && !progressStates.contains c.state) (pos ++ "/step")
    ("a step only marks progress within " ++ ", ".intercalate (progressStates.map State.name)) <|>
  causeRules c pos <|>
  failIf ((c.state == .interrupted) != c.checkpoint.isSome) (pos ++ "/checkpoint")
    (if c.state = .interrupted then "an interrupted record names its last durable checkpoint"
      else "only an interrupted record names a checkpoint") <|>
  outcomeRules c pos <|>
  errorRules c pos

/-- Into `recovering` from another state. -/
def startsAttempt (prev c : Checkpoint) : Bool := c.state == .recovering && prev.state != .recovering

def repeatRules (prev c : Checkpoint) (pos : String) : Option ContractError :=
  let progress := c.step.isSome && progressStates.contains c.state
  let closing := c.outcome == some .refused || c.outcome == some .manual
  failIf (progress && prev.step.isSome) (pos ++ "/state")
    ("a later " ++ c.state.name ++
      " step replaces the earlier stepped record in place; it is not appended") <|>
  failIf (!progress && !closing) (pos ++ "/state")
    (prev.state.name ++ " -> " ++ c.state.name ++ " repeats a state without a step")

/-- What record `i` owes the one before it, `attempts` counted up to it. -/
def followRules (kind : Kind) (action : Action) (i : Nat) (prev c : Checkpoint) (attempts : Nat) :
    Option ContractError :=
  let pos := "/checkpoints/" ++ toString i
  failIf prev.outcome.isSome pos ("the operation was closed by an outcome at record " ++
    toString (i-1) ++ "; nothing may follow") <|>
  failIf (c.sequence ≤ prev.sequence) (pos ++ "/sequence") "sequences must increase" <|>
  failIf (c.state == .interrupted && c.checkpoint != some prev.state) (pos ++ "/checkpoint")
    ("the last durable checkpoint is " ++ prev.state.name ++ ", not " ++
      (c.checkpoint.map State.name).getD "") <|>
  failIf (c.outcome == some .manual && prev.state != .recoveryRequired) (pos ++ "/outcome")
    "manual closes an operation on a record that repeats its recovery_required record" <|>
  failIf (startsAttempt prev c && attempts > maxRecoveryAttempts) (pos ++ "/state")
    ("recovery attempts exhausted (at most " ++ toString maxRecoveryAttempts ++
      " per operation); close it with outcome manual once resolved by hand") <|>
  if prev.state = c.state then repeatRules prev c pos
  else
    failIf (!isTransition kind prev.state c.state) (pos ++ "/state")
      (prev.state.name ++ " -> " ++ c.state.name ++ " is not a " ++ kind.name ++ " transition") <|>
    failIf (prev.state == .verified && c.state == .applying && action != .install) (pos ++ "/state")
      "verified -> applying skips the recovery point, which only an install may do"

def nextAttempts (prev c : Checkpoint) (attempts : Nat) : Nat :=
  if startsAttempt prev c then attempts+1 else attempts

/-- The loop over the records from record `i` on. -/
def walk (kind : Kind) (action : Action) : Nat → Option Checkpoint → Nat → List Checkpoint →
    Option ContractError
  | _, _, _, [] => none
  | i, none, attempts, c::cs =>
      checkpointRules c ("/checkpoints/" ++ toString i) <|>
      walk kind action (i+1) (some c) attempts cs
  | i, some prev, attempts, c::cs =>
      checkpointRules c ("/checkpoints/" ++ toString i) <|>
      followRules kind action i prev c (nextAttempts prev c attempts) <|>
      walk kind action (i+1) (some c) (nextAttempts prev c attempts) cs

def resolvedActions : List Action := [.install,.update,.downgrade]

def isRelease (version : String) : Bool :=
  versionShape.pattern.search version.toList && version.toList.length ≤ 64

/-- `_journal_rules`; the schema leaves no journal without a record. -/
def journalRules (j : Journal) : Option ContractError :=
  failIf (!j.checkpoints.head?.any fun c => c.state == initialState j.kind) "/checkpoints/0/state"
    ("a " ++ (if j.kind = .legacy then "legacy record" else "transaction") ++ " starts at " ++
      (initialState j.kind).name) <|>
  failIf (j.kind == .transaction && j.planDigest.isNone) "/plan_digest"
    "a transaction binds its plan_digest" <|>
  failIf (j.kind == .legacy && j.planDigest.isSome) "/plan_digest"
    "a legacy record has no plan_digest" <|>
  failIf (j.generation < j.checkpoints.length) "/generation"
    "generation counts durable writes and cannot be below the number of checkpoints" <|>
  failIf (j.kind == .transaction && resolvedActions.contains j.action &&
      j.target.any fun r => !isRelease r.version) "/target/version"
    ("a " ++ j.action.name ++ " transaction targets a resolved release, named like 0.4.7") <|>
  walk j.kind j.action 0 none 0 j.checkpoints <|>
  failIf ((j.checkpoints.any fun c => c.state == .recoverySaved) && j.recovery.isNone) "/recovery"
    "a journal past recovery_saved references its recovery point"

/-- `validate_document("journal", j)`: none, or the first refusal. -/
def Journal.validate (j : Journal) : Option ContractError :=
  assertValid .journal j.toJson (journalRules j)

def Journal.last (j : Journal) : Option Checkpoint := j.checkpoints.getLast?

def Journal.finished (j : Journal) : Bool := j.last.any fun c => c.outcome.isSome

/-- Unfinished and not settled into recovery_required or a post-mutation interrupted record. -/
def Journal.inProgress (j : Journal) : Bool :=
  !j.finished && j.last.any fun c => c.state != .recoveryRequired && c.state != .interrupted

/-! The clock. -/

structure Moment where
  year : Nat
  month : Nat
  day : Nat
  hour : Nat
  minute : Nat
  second : Nat
  micro : Nat
  inYear : year ≤ 9999
  real : realDate year month day = true
  inHour : hour ≤ 23
  inMinute : minute ≤ 59
  inSecond : second ≤ 59
  inMicro : micro ≤ 999999

/-- The last `width` decimal digits of `n`. -/
def padded : Nat → Nat → List Char
  | 0, _ => []
  | width+1, n => padded width (n/10) ++ [Char.ofNat (48+n%10)]

def Moment.stampChars (m : Moment) : List Char :=
  padded 4 m.year ++ '-' :: (padded 2 m.month ++ '-' :: (padded 2 m.day ++
    'T' :: (padded 2 m.hour ++ ':' :: (padded 2 m.minute ++ ':' :: (padded 2 m.second ++
      '.' :: (padded 6 m.micro ++ ['Z']))))))

/-- `_now`: `%Y-%m-%dT%H:%M:%S.%fZ`. -/
def Moment.stamp (m : Moment) : String := String.ofList m.stampChars

/-- `stamp[:10].replace("-", "")`. -/
def Moment.dayName (m : Moment) : List Char := padded 4 m.year ++ padded 2 m.month ++ padded 2 m.day

/-! The next journal. -/

/-- A refused request: the exit code, the message and the lines it still prints. -/
structure StateError where
  code : ExitName
  message : String
  lines : List String := []

structure EvidenceRequest where
  check : Option EvidenceCheck := none
  result : Option EvidenceResult := none
  detail : Option String := none

structure RecoveryRequest where
  operationId : Option String := none
  manifestDigest : Option String := none

structure CheckpointRequest where
  operationId : String
  expectedGeneration : Nat
  state : State
  step : Option String := none
  cause : Option Cause := none
  outcome : Option Outcome := none
  errorCode : Option ExitName := none
  errorReason : Option String := none
  recovery : RecoveryRequest := {}
  evidence : EvidenceRequest := {}

/-- `_evidence`. -/
def EvidenceRequest.read (r : EvidenceRequest) : Except StateError (Option Evidence) :=
  match r.check, r.result with
  | none, none =>
      if r.detail.isNone then .ok none
      else .error ⟨.usage,"evidence needs evidence_check and evidence_result",[]⟩
  | some check, some result =>
      .ok (some ⟨check,result,r.detail.map fun d => redactText d 256 false⟩)
  | _, _ => .error ⟨.usage,"evidence needs evidence_check and evidence_result",[]⟩

/-- `_recovery`. -/
def RecoveryRequest.read (r : RecoveryRequest) : Except StateError (Option RecoveryRef) :=
  match r.operationId, r.manifestDigest with
  | none, none => .ok none
  | some op, some digest => .ok (some ⟨op,digest⟩)
  | _, _ => .error ⟨.usage,
      "a recovery reference needs recovery_operation_id and recovery_manifest_digest",[]⟩

def validOrUsage (refusal : Option ContractError) : Except StateError Unit :=
  match refusal with
  | none => .ok ()
  | some e => .error ⟨.usage,"the record would break the lifecycle contract: " ++ e.path ++ ": " ++
      e.reason,[]⟩

def Journal.durable (j : Journal) : Nat := (j.checkpoints.map Checkpoint.sequence).foldl max 0

/-- `_next_sequence`: above both the counter and the journal's durable sequence. -/
def Journal.nextSequence (j : Journal) (counter : Nat) : Nat := max counter j.durable+1

def entryError (r : CheckpointRequest) : Except StateError (Option JournalError) :=
  match r.errorCode, r.errorReason with
  | none, none => .ok none
  | some code, some reason => .ok (some ⟨code,redactText reason 256 false⟩)
  | _, _ => .error ⟨.usage,"an error needs error_code and error_reason",[]⟩

/-- A later step replaces the stepped record it continues; any other record is appended. -/
def Journal.place (j : Journal) (entry : Checkpoint) : List Checkpoint :=
  if j.last.any fun previous => entry.step.isSome && previous.step.isSome &&
      previous.state == entry.state
  then j.checkpoints.dropLast ++ [entry]
  else j.checkpoints ++ [entry]

def Journal.append (j : Journal) (d : Checkpoint) (stamp : String) : Journal :=
  { j with checkpoints := j.checkpoints ++ [d], generation := j.generation+1, updatedAt := stamp }

def Journal.nextRecovery (j : Journal) (wanted : Option RecoveryRef) :
    Except StateError (Option RecoveryRef) :=
  match wanted, j.recovery with
  | none, recovery => .ok recovery
  | some ref, some held =>
      if held = ref then .ok (some ref)
      else .error ⟨.usage,j.operationId ++ " references another recovery point already",[]⟩
  | some ref, none => .ok (some ref)

def Journal.entry (j : Journal) (counter : Nat) (stamp : String) (r : CheckpointRequest)
    (error : Option JournalError) : Checkpoint where
  sequence := j.nextSequence counter
  state := r.state
  time := stamp
  step := r.step
  cause := r.cause
  outcome := r.outcome
  checkpoint := if r.state = .interrupted then j.last.map Checkpoint.state else none
  error := error

/-- `_next_journal`, under the counter the operation's directory holds. -/
def nextJournal (counter : Nat) (stamp : String) (j : Journal) (r : CheckpointRequest) :
    Except StateError (Journal × Checkpoint) := do
  let error ← entryError r
  let entry := j.entry counter stamp r error
  let wanted ← r.recovery.read
  let recovery ← j.nextRecovery wanted
  let item ← r.evidence.read
  let updated := { j with checkpoints := j.place entry, generation := j.generation+1,
                          updatedAt := stamp, recovery := recovery,
                          evidence := j.evidence ++ item.toList }
  validOrUsage updated.validate
  pure (updated,entry)

end CircuitBreaker.Lifecycle
