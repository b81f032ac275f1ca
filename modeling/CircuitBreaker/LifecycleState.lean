import CircuitBreaker.ContractRules
import CircuitBreaker.DiskProgram

/-! The state utility, deploy/scripts/lifecycle-state.py: the operation directories
under private/operations, and the requests that read and write them under the
writer lock. An atomic replace is one action; the disk answers every action with
what it then holds. -/

namespace CircuitBreaker.Lifecycle
open DiskProgram

/-- A directory of private/operations: the `sequence` file and the journal. -/
structure OpDir where
  sequence : Option Nat := none
  journal : Option Journal := none
  deriving DecidableEq

structure Disk where
  operations : List (String × OpDir) := []
  index : Option Json := none

def Disk.dir (d : Disk) (name : String) : Option OpDir := d.operations.lookup name
def Disk.names (d : Disk) : List String := d.operations.map Prod.fst

def Disk.change (d : Disk) (name : String) (f : OpDir → OpDir) : Disk :=
  { d with operations := d.operations.map fun e => if e.1 = name then (e.1,f e.2) else e }

/-- The actions that can be told apart after a kill. What `_remove_staging` unlinks is
never read again, so it is one action. -/
inductive Act where
  | look
  | removeStaging (name : String)
  | mkdir (name : String)
  | writeSequence (name : String) (n : Nat)
  | writeJournal (name : String) (j : Journal)
  | replace (source target : String)
  | writeIndex (index : Json)
  | writeEvent (op : String) (sequence : Nat) (event : Json)

def Act.apply : Act → Disk → Disk
  | .look, d => d
  | .removeStaging name, d => { d with operations := d.operations.filter fun e => e.1 != name }
  | .mkdir name, d => { d with operations := d.operations ++ [(name,{})] }
  | .writeSequence name n, d => d.change name fun dir => { dir with sequence := some n }
  | .writeJournal name j, d => d.change name fun dir => { dir with journal := some j }
  | .replace source target, d =>
      { d with operations := d.operations.map fun e => if e.1 = source then (target,e.2) else e }
  | .writeIndex index, d => { d with index := some index }
  | .writeEvent .., d => d

/-! Reading. -/

/-- Names `read_records` skips. -/
def hidden (name : String) : Bool := name.toList.head? == some '.'
def staging (name : String) : Bool := ".new-".toList.isPrefixOf name.toList

def validOperationId (name : String) : Bool := operationIdNode.valid (.str name)

/-- One entry of private/operations: a journal, or a record that requires inspection. -/
structure Record where
  name : String
  journal : Option Journal := none
  reason : String := ""
  unsupported : Bool := false

def ContractError.text (e : ContractError) : String :=
  if e.path = "" then e.reason else e.path ++ ": " ++ e.reason

/-- `parse_document` of the file a journal is written as: its canonical text and a newline. -/
def Journal.refusedAsFile (j : Journal) : Option ContractError :=
  (match canonicalize j.toJson with
    | .ok text => sizeCheck .journal (utf8Size text+1)
    | .error e => some e) <|> j.validate

def Disk.readRecord (d : Disk) (name : String) : Record :=
  if !validOperationId name then { name, reason := "is not an operation directory" }
  else
    match d.dir name with
    | none => { name, reason := "cannot be opened as a directory (No such file or directory)" }
    | some dir =>
        match dir.journal with
        | none => { name, reason := "has no journal" }
        | some j =>
            match j.refusedAsFile with
            | some e => { name, reason := "journal " ++ e.text, unsupported := e.unsupported }
            | none =>
                if j.operationId ≠ name then
                  { name, reason := "journal names another operation (" ++ j.operationId ++ ")" }
                else { name, journal := some j }

def Disk.readRecords (d : Disk) : List Record :=
  ((d.names.filter fun name => !hidden name).insertionSort (· ≤ ·)).map d.readRecord

/-- `_read_counter`: one to sixteen digits without a leading zero, else 0. -/
def Disk.readCounter (d : Disk) (name : String) : Nat :=
  match (d.dir name).bind OpDir.sequence with
  | some n => if 1 ≤ n ∧ n < 10^16 then n else 0
  | none => 0

/-! The history index. -/

def Journal.summary (j : Journal) : Json :=
  .obj [("inspection_required",.lit (.bool false)),("operation_id",.str j.operationId),
    ("kind",.str j.kind.name),("action",.str j.action.name),("adapter",.str j.adapter.name),
    ("state",Json.orNull (fun c => .str c.state.name) j.last),
    ("outcome",Json.orNull (fun o => .str o.name) (j.last.bind Checkpoint.outcome)),
    ("checkpoint",Json.orNull (fun s => .str s.name) (j.last.bind Checkpoint.checkpoint)),
    ("started_at",.str j.startedAt),("updated_at",.str j.updatedAt),
    ("source_version",Json.orNull (fun r => .str r.version) j.source),
    ("target_version",Json.orNull (fun r => .str r.version) j.target),
    ("recovery_available",.lit (.bool j.recovery.isSome))]

/-- Newest first by a time and the operation's id, as Python's stable `sorted`. -/
def newestFirst (key : Journal → String) (js : List Journal) : List Journal :=
  js.insertionSort fun a b => key b < key a ∨ key b = key a ∧ b.operationId ≤ a.operationId

def unfinishedJournals (records : List Record) : List Journal :=
  (records.filterMap Record.journal).filter fun j => !j.finished

section
/-! `shown` is `display_name`: an entry's name as printable text on one line. -/
variable (shown : String → String)

def Record.inspection (r : Record) : Json :=
  .obj [("inspection_required",.lit (.bool true)),
    ("record",if shown r.name = r.name ∧ fileNameNode.valid (.str r.name) = true then .str r.name
      else .lit .null),
    ("reason",.str (redactText (shown r.name ++ ": " ++ r.reason) 256 false))]

def indexEntries (records : List Record) : List Json :=
  (newestFirst Journal.startedAt (unfinishedJournals records)).map Journal.summary ++
    (records.filter fun r => r.journal.isNone).map (Record.inspection shown) ++
    (newestFirst Journal.updatedAt ((records.filterMap Record.journal).filter Journal.finished)).map
      Journal.summary

def indexLimit : Nat := 100

/-- `build_index`: the index and how many entries it leaves out. -/
def buildIndex (now : Moment) (records : List Record) : Except StateError (Json × Nat) := do
  let entries := indexEntries shown records
  let index : Json := .obj [("schema_version",.int 1),("generated_at",.str now.stamp),
    ("operations",.arr (entries.take indexLimit))]
  validOrUsage (assertValid .history index none)
  pure (index,entries.length-indexLimit)

abbrev Step (α : Type) : Type := Prog Act Disk α
abbrev Reply : Type := Except StateError (List String)

def writeIndex (now : Moment) (records : List Record) : Step (Except StateError Nat) :=
  match buildIndex shown now records with
  | .error e => pure (.error e)
  | .ok (index,omitted) => do
      let _ ← perform (.writeIndex index)
      pure (.ok omitted)

/-- `_index_quietly`: the journal is authoritative, so a failure only warns. -/
def indexQuietly (now : Moment) (records : List Record) : Step (List String) := do
  match ← writeIndex shown now records with
  | .error e => pure ["history.json was not updated (" ++ e.message ++ "); the journals are intact"]
  | .ok omitted => pure (if omitted = 0 then [] else
      ["history.json lists the first " ++ toString (records.length-omitted) ++ " operations"])

/-! Reconciliation. -/

/-- The `interrupted` record that closes a killed operation after `previous`. -/
def Journal.abandonment (j : Journal) (previous : Checkpoint) (counter : Nat) (stamp : String) :
    Checkpoint where
  sequence := j.nextSequence counter
  state := .interrupted
  time := stamp
  cause := some .abandoned
  checkpoint := some previous.state
  outcome := if preMutation.contains previous.state then some .interrupted else none

/-- `_abandon` of a journal whose last record is `previous`. -/
def abandon (now : Moment) (record : Record) (j : Journal) (previous : Checkpoint) :
    Step (Record × Option String) := do
  let disk ← perform .look
  let entry := j.abandonment previous (disk.readCounter record.name) now.stamp
  let updated := j.append entry now.stamp
  match updated.validate with
  | some _ => pure (record,some (record.name ++
      ": its process is gone, and its journal has no legal interrupted record"))
  | none =>
      let _ ← perform (.writeSequence record.name entry.sequence)
      let _ ← perform (.writeJournal record.name updated)
      pure ({ name := record.name, journal := some updated },none)

/-- The journal `reconcile` has to close, with its last record. -/
def Record.leftover (r : Record) (bound : String) : Option (Journal × Checkpoint) :=
  r.journal.bind fun j => j.last.bind fun c =>
    if r.name ≠ bound ∧ j.inProgress = true then some (j,c) else none

/-- `reconcile`, from the `i`-th clock reading on. -/
def reconcile (clock : Nat → Moment) (bound : String) : Nat → List Record →
    Step (List Record × List String)
  | _, [] => pure ([],[])
  | i, record::rest => do
      let (record,warning) ←
        match record.leftover bound with
        | some (j,previous) => abandon (clock i) record j previous
        | none => pure (record,none)
      let (records,warnings) ← reconcile clock bound (i+1) rest
      pure (record::records,warning.toList ++ warnings)

/-! Begin. -/

structure BeginRequest where
  kind : Kind
  action : Action
  adapter : Adapter
  planDigest : Option String := none
  identityDigest : Option String := none
  sourceVersion : Option String := none
  sourceArtifactDigest : Option String := none
  targetVersion : Option String := none
  targetArtifactDigest : Option String := none
  recovery : RecoveryRequest := {}
  evidence : EvidenceRequest := {}

/-- `_version`: a legacy producer records null for a text that is no installed version. -/
def readVersion (value : Option String) (key : String) (kind : Kind) :
    Except StateError (Option String) :=
  match value with
  | none => .ok none
  | some v =>
      if installedVersionNode.valid (.str v) then .ok (some v)
      else if kind = .legacy then .ok none
      else .error ⟨.usage,key ++
        " is not an installed version (1-64 characters, no control character)",[]⟩

/-- `_release`. -/
def release (version digest : Option String) : Option Release := version.map fun v => ⟨v,digest⟩

def firstJournal (op stamp : String) (r : BeginRequest) : Except StateError Journal := do
  let source ← readVersion r.sourceVersion "source_version" r.kind
  let target ← readVersion r.targetVersion "target_version" r.kind
  let recovery ← r.recovery.read
  let item ← r.evidence.read
  let journal : Journal :=
    { operationId := op, kind := r.kind, action := r.action, adapter := r.adapter,
      generation := 1, planDigest := r.planDigest, identityDigest := r.identityDigest,
      source := release source r.sourceArtifactDigest,
      target := release target r.targetArtifactDigest, recovery := recovery,
      evidence := item.toList, startedAt := stamp, updatedAt := stamp,
      checkpoints := [{ sequence := 1, state := initialState r.kind, time := stamp }] }
  validOrUsage journal.validate
  pure journal

/-- `_checkpoint_event` of a journal that ends in `record`. -/
def checkpointEvent (j : Journal) (record : Checkpoint) : Except StateError Json := do
  let event : Json := .obj [("schema_version",.int 1),("operation_id",.str j.operationId),
    ("sequence",.int record.sequence),("at",.str record.time),("source",.str "native"),
    ("type",.str EventType.checkpoint.name),("state",.str record.state.name),
    ("generation",.int j.generation)]
  validOrUsage (validateEvent event)
  pure event

/-- `int` of a text of digits. -/
def digitsNumber (ds : List Char) : Nat := ds.foldl (fun n c => 10*n+(c.toNat-48)) 0

/-- The number of a name that matches `op-DAY-[0-9]{3,9}`. -/
def idNumber (day : List Char) (name : String) : Option Nat :=
  let head := "op-".toList ++ day ++ ['-']
  let ds := name.toList.drop head.length
  if head.isPrefixOf name.toList ∧ 3 ≤ ds.length ∧ ds.length ≤ 9 ∧ ds.all Char.isDigit then
    some (digitsNumber ds)
  else none

/-- `_today_ids`. -/
def todayIds (names : List String) (day : List Char) : Nat :=
  (names.filterMap (idNumber day)).foldl max 0

/-- `op-DAY-NUMBER`, the number at least three digits wide. -/
def idName (day : List Char) (number : Nat) : String :=
  String.ofList ("op-".toList ++ day ++ '-' :: padded (max 3 (toString number).length) number)

/-- What a begin is about to publish: the operation's id, its journal and its event. -/
def prepare (now : Moment) (names : List String) (r : BeginRequest) :
    Except StateError (String × Journal × Json) := do
  let number := todayIds names now.dayName+1
  if number > 999999999 then .error ⟨.preflight,"no operation ID is left for today",[]⟩
  else
    let op := idName now.dayName number
    let journal ← firstJournal op now.stamp r
    let event ← checkpointEvent journal { sequence := 1, state := initialState r.kind, time := now.stamp }
    pure (op,journal,event)

def warningLines (warnings : List String) : List String :=
  warnings.map fun w => "warning=" ++ redactText w 900 true

/-- Transactions that are not finished; with a transaction asked for, also records in doubt. -/
def blocking (kind : Kind) (records : List Record) : List String :=
  (records.filter fun r => r.journal.any fun j => j.kind == .transaction && !j.finished).map
      Record.name ++
    if kind = .transaction then (records.filter fun r => r.journal.isNone).map fun r => shown r.name
    else []

def beginWarnings (kind : Kind) (records : List Record) : List String :=
  (if kind = .transaction ∧ records.any (fun r => r.journal.isNone) then []
    else (records.filter fun r => r.journal.isNone).map fun r =>
      shown r.name ++ " requires inspection: " ++ r.reason) ++
    records.filterMap fun r => r.journal.bind fun j =>
      if j.kind = .legacy ∧ j.finished = false then
        some (r.name ++ " (" ++ j.action.name ++ ") is unfinished")
      else none

def removeAll : List String → Step Unit
  | [] => pure ()
  | name::names => do
      let _ ← perform (.removeStaging name)
      removeAll names

def eventLine (event : Json) : String :=
  "event=" ++ match canonicalize event with
    | .ok text => String.ofList text
    | .error _ => ""

def publish (later : Moment) (suffix op : String) (journal : Journal) (event : Json)
    (records : List Record) (warnings : List String) : Step Reply := do
  let name := ".new-" ++ suffix
  let _ ← perform (.mkdir name)
  let _ ← perform (.writeSequence name 1)
  let _ ← perform (.writeJournal name journal)
  let _ ← perform (.replace name op)
  let _ ← perform (.writeEvent op 1 event)
  let more ← indexQuietly shown later (records ++ [{ name := op, journal := some journal }])
  pure (.ok (["operation_id=" ++ op,"generation=1","sequence=1",
      "state=" ++ (initialState journal.kind).name] ++
    warningLines (warnings ++ more) ++ [eventLine event]))

/-- `handle_begin`. `suffix` is its random suffix. -/
def handleBegin (clock : Nat → Moment) (suffix bound : String) (r : BeginRequest) : Step Reply := do
  if bound ≠ "" then
    pure (.error ⟨.usage,"the host lock is bound to " ++ bound ++
      " already; one lock holds one operation",[]⟩)
  else
    let disk ← perform .look
    removeAll (disk.names.filter staging)
    let disk ← perform .look
    let (records,abandoned) ← reconcile clock bound 0 disk.readRecords
    let warnings := abandoned ++ beginWarnings shown r.kind records
    let blocked := blocking shown r.kind records
    if blocked ≠ [] then
      let _ ← indexQuietly shown (clock records.length) records
      pure (.error ⟨.manual,"an unfinished lifecycle operation must be reconciled first: " ++
        ", ".intercalate (blocked.take 5),warningLines warnings⟩)
    else
      let disk ← perform .look
      match prepare (clock records.length) disk.names r with
      | .error e => pure (.error e)
      | .ok (op,journal,event) =>
          publish shown (clock (records.length+1)) suffix op journal event records warnings

/-! Checkpoint and emit. -/

/-- What both ask of the operation they name: that the lock is bound to it, that it
exists, and that its journal can be read. -/
def Disk.operation (d : Disk) (op : String) : Except StateError Journal :=
  if !d.names.contains op then .error ⟨.usage,"no operation " ++ op ++ " exists",[]⟩
  else
    let record := d.readRecord op
    match record.journal with
    | some j => .ok j
    | none => .error ⟨if record.unsupported then .unsupported else .manual,
        op ++ " requires inspection: " ++ redactText record.reason 256 true,[]⟩

def notBound (bound op : String) : StateError :=
  ⟨.usage,"the host lock is bound to " ++ (if bound = "" then "no operation" else bound) ++
    ", not " ++ op,[]⟩

def stale (op : String) (generation expected : Nat) : StateError :=
  ⟨.manual,op ++ " is at generation " ++ toString generation ++ ", not " ++ toString expected ++
    ": another writer recorded a checkpoint since, so this one is stale; " ++
    "inspect it before changing anything",[]⟩

/-- The record a checkpoint request makes of journal `j`, with its event. -/
def nextCheckpoint (counter : Nat) (stamp : String) (j : Journal) (r : CheckpointRequest) :
    Except StateError (Journal × Checkpoint × Json) := do
  if r.expectedGeneration ≠ j.generation then
    .error (stale r.operationId j.generation r.expectedGeneration)
  else
    let (updated,entry) ← nextJournal counter stamp j r
    let event ← checkpointEvent updated entry
    pure (updated,entry,event)

/-- `handle_checkpoint`. -/
def handleCheckpoint (clock : Nat → Moment) (bound : String) (r : CheckpointRequest) :
    Step Reply := do
  let op := r.operationId
  if bound ≠ op then pure (.error (notBound bound op))
  else
    let disk ← perform .look
    match (disk.operation op).bind fun j =>
        nextCheckpoint (disk.readCounter op) (clock 0).stamp j r with
    | .error e => pure (.error e)
    | .ok (updated,entry,event) =>
        let _ ← perform (.writeSequence op entry.sequence)
        let _ ← perform (.writeJournal op updated)
        let disk ← perform (.writeEvent op entry.sequence event)
        let warnings ← indexQuietly shown (clock 1) (disk.readRecords.map fun record =>
          if record.name ≠ op then record else { name := op, journal := some updated })
        pure (.ok (["operation_id=" ++ op,"generation=" ++ toString updated.generation,
            "sequence=" ++ toString entry.sequence,"state=" ++ entry.state.name] ++
          warningLines warnings ++ [eventLine event]))

/-- `members` are the request's own that are not null, in its order. Checkpoint events
come only from checkpoints. -/
structure EmitRequest where
  operationId : String
  type : EventType
  members : List (String × Json)
  own : type ≠ .checkpoint

def redactMessage (m : String × Json) : String × Json :=
  match m with
  | ("message",.lit (.str s)) => ("message",.str (redactText s 900 false))
  | m => m

def emittedMembers (r : EmitRequest) : List (String × Json) :=
  match r.type with
  | .progress => if (r.members.lookup "total").isSome then r.members
      else r.members ++ [("total",.lit .null)]
  | .diagnostic => r.members.map redactMessage
  | _ => r.members

def usageOf (problem : Option String) : Except StateError Unit :=
  match problem with
  | some message => .error ⟨.usage,message,[]⟩
  | none => .ok ()

def EmitRequest.event (r : EmitRequest) (sequence : Nat) (now : Moment) : Json :=
  .obj ([("schema_version",.int 1),("operation_id",.str r.operationId),
    ("sequence",.int sequence),("at",.str now.stamp),("source",.str "native"),
    ("type",.str r.type.name)] ++ emittedMembers r)

/-- `_emitted_event`. -/
def emittedEvent (r : EmitRequest) (sequence : Nat) (now : Moment) : Except StateError Json := do
  let allowed := r.type.required ++ r.type.optional
  usageOf ((r.members.map Prod.fst).findSome? fun key => if allowed.contains key then none
    else some (key ++ " is not a member of a " ++ r.type.name ++ " event"))
  usageOf (r.type.required.findSome? fun key =>
    if (r.members.lookup key).isSome ∨ key = "total" then none
    else some ("a " ++ r.type.name ++ " event needs " ++ key))
  let event := r.event sequence now
  usageOf ((validateEvent event).map fun e =>
    "the event would break the lifecycle contract: " ++ e.path ++ ": " ++ e.reason)
  pure event

/-- `handle_emit`: only the counter is written. -/
def handleEmit (clock : Nat → Moment) (bound : String) (r : EmitRequest) : Step Reply := do
  let op := r.operationId
  if bound ≠ op then pure (.error (notBound bound op))
  else
    let disk ← perform .look
    match (disk.operation op).bind fun j =>
        let sequence := j.nextSequence (disk.readCounter op)
        (emittedEvent r sequence (clock 0)).map fun event => (sequence,event) with
    | .error e => pure (.error e)
    | .ok (sequence,event) =>
        let _ ← perform (.writeSequence op sequence)
        let _ ← perform (.writeEvent op sequence event)
        pure (.ok ["operation_id=" ++ op,"sequence=" ++ toString sequence,eventLine event])

/-! List. -/

def RecoveryRef.text (r : RecoveryRef) : String := r.operationId ++ ":" ++ r.manifestDigest

/-- `retention`: references to keep, references no record needs, and whether that is all. -/
def retention (records : List Record) : List String × List String × Bool :=
  let held := (records.filterMap Record.journal).filter fun j => j.recovery.isSome
  let refs := fun js : List Journal => js.filterMap fun j => j.recovery.map RecoveryRef.text
  let committed := held.filter fun j => (j.last.bind Checkpoint.outcome) == some .committed
  let newest := (newestFirst Journal.updatedAt committed).take 1
  let kept := (refs (held.filter fun j => !j.finished) ++ refs newest).dedup
  let complete := records.all fun r => r.journal.isSome
  let releasable := if complete then (refs held).dedup.filter fun ref => !kept.contains ref else []
  (kept.insertionSort (· ≤ ·),releasable.insertionSort (· ≤ ·),complete)

/-- `handle_list`. -/
def handleList (clock : Nat → Moment) (bound : String) : Step Reply := do
  let disk ← perform .look
  let (records,warnings) ← reconcile clock bound 0 disk.readRecords
  match ← writeIndex shown (clock records.length) records with
  | .error e => pure (.error e)
  | .ok omitted =>
      let (kept,releasable,complete) := retention records
      pure (.ok (["operations=" ++ toString records.length,
          "indexed=" ++ toString (records.length-omitted),"omitted=" ++ toString omitted] ++
        (records.filter fun r => r.journal.any fun j => !j.finished).map
          (fun r => "unfinished=" ++ r.name) ++
        (records.filter fun r => r.journal.isNone).map (fun r => "inspection=" ++ shown r.name) ++
        kept.map ("protected=" ++ ·) ++ releasable.map ("releasable=" ++ ·) ++
        ["retention=" ++ if complete then "complete" else "blocked"] ++ warningLines warnings))

inductive Request where
  | begin (r : BeginRequest)
  | checkpoint (r : CheckpointRequest)
  | emit (r : EmitRequest)
  | list

/-- A request, the operation the host lock is bound to (`""` for none), the clock
readings it makes and the suffix it draws. -/
structure Call where
  request : Request
  bound : String
  clock : Nat → Moment
  suffix : String

def Call.steps (c : Call) : Step Reply :=
  match c.request with
  | .begin r => handleBegin shown c.clock c.suffix c.bound r
  | .checkpoint r => handleCheckpoint shown c.clock c.bound r
  | .emit r => handleEmit c.clock c.bound r
  | .list => handleList shown c.clock c.bound

end

end CircuitBreaker.Lifecycle
