import CircuitBreaker.MonitorResults
import CircuitBreaker.TextReplace
import CircuitBreaker.TextWords
import Mathlib.Data.List.Dedup
import Mathlib.Data.List.Sort

/-! What a `probe.result` leaves in the database of the monitor's own secrets
(services/agent_probe.py): the message and the details are redacted before they are stored,
the reasons of single samples and the keys that stay are not. -/

namespace CircuitBreaker.ProbeRedaction
open MonitorResults TextReplace List
open ProbeRuns (RunStatus Outcome upTo auditMsg errorForOutcome lateResultGrace)

abbrev Text := List Char

/-- What the code takes from Python: how a text is lowered, the order a set is read in, and the
length of a serialized object, if it can be serialized. -/
structure Python where
  lower : Text → Text
  setOrder : List Text → List Text
  setOrder_perm : ∀ l, (setOrder l).Perm l
  detailsBytes : List (String × Value) → Option Nat

/-! The secrets of a configuration. -/

def secretKeyHints : List Text :=
  ["password","passwd","secret","token","authorization","credential","cookie","api_key","apikey",
    "private_key","bearer"].map String.toList

def secretConfigKeys : List Text :=
  ["password","token","secret","api_key","apikey"].map String.toList

def secretHeaderKeys : List Text :=
  ["authorization","proxy-authorization","cookie","x-api-key","x-auth-token"].map String.toList

def minRedactableSecret : Nat := 6

/-- `value.split()`. -/
def words (t : Text) : List Text := (t.splitOnP Vault.isSpace).filter (· ≠ [])

/-- The values under the configuration's secret keys, and in its headers the credential behind
a scheme as well. -/
def ownSecrets (py : Python) : Value → List Text
  | .obj fields =>
    let own := fields.filterMap fun
      | (key,.str value) =>
        if py.lower key.toList ∈ secretConfigKeys then some value.toList else none
      | _ => none
    let inHeaders := match (fields.find? (·.1 = "headers")).map (·.2) with
      | some (.obj headers) => headers.flatMap fun
        | (key,.str value) =>
          if py.lower key.toList ∈ secretHeaderKeys then
            value.toList::match words value.toList with
              | [_,credential] => [credential]
              | _ => []
          else []
        | _ => []
      | _ => []
    own++inHeaders
  | _ => []

/-- `_secret_values`: each once, the longest first. -/
def secretValues (py : Python) (params : Value) : List Text :=
  let unique := (ownSecrets py params).dedup.filter (minRedactableSecret ≤ ·.length)
  (py.setOrder unique).insertionSort fun a b => b.length ≤ a.length

/-! Redaction. -/

def redacted : Text := "[redacted]".toList

def redactText (secrets : List Text) (text : Text) : Text :=
  secrets.foldl (fun t s => if s ≠ [] ∧ s <:+: t then replace s redacted t else t) text

def redactString (secrets : List Text) (text : String) : String :=
  String.ofList (redactText secrets text.toList)

def isSecretKey (py : Python) (key : String) : Bool :=
  secretKeyHints.any fun hint => decide (hint <:+: py.lower key.toList)

mutual

/-- `_scrub`: secret-shaped keys are dropped, known secrets redacted, at every depth. -/
def scrub (py : Python) (secrets : List Text) : Value → Value
  | .obj fields => .obj (scrubFields py secrets fields)
  | .arr values => .arr (scrubAll py secrets values)
  | .str text => .str (redactString secrets text)
  | .null => .null
  | .bool b => .bool b
  | .num n => .num n

def scrubAll (py : Python) (secrets : List Text) : List Value → List Value
  | [] => []
  | value::values => scrub py secrets value::scrubAll py secrets values

def scrubFields (py : Python) (secrets : List Text) : List (String × Value) → List (String × Value)
  | [] => []
  | (key,value)::fields =>
    if isSecretKey py key then scrubFields py secrets fields
    else (key,scrub py secrets value)::scrubFields py secrets fields

end

/-! One `probe.result`. -/

structure ProbeResultPayload where
  runId : String
  monitorId : Nat
  outcome : String
  up : Bool
  startedAt : Nat
  finishedAt : Nat
  samples : List Sample := []
  msg : String := ""
  details : Option (List (String × Value)) := none

structure Agent where
  id : Nat
  status : String

inductive InvalidProbeResult where
  | inactiveAgent
  | detailsNotSerializable
  | detailsTooLarge
  | tooManySamples
  | unsupportedOutcome (outcome : String)
  | unknownRun (runId : String)
  | otherAgent
  | otherMonitor
  | monitorGone

inductive Disposition where
  | accepted | auditOnly | late | duplicate
  deriving DecidableEq

def maxDetailsBytes : Nat := 65536
def maxMsgChars : Nat := 2000
def maxSamples : Nat := 64

def parseOutcome : String → Option Outcome
  | "completed" => some .completed
  | "execution_error" => some .executionError
  | "cancelled" => some .cancelled
  | "rejected" => some .rejected
  | _ => none

def detailsFault (py : Python) (payload : ProbeResultPayload) : Option InvalidProbeResult :=
  match payload.details with
  | none => none
  | some details =>
    match py.detailsBytes details with
    | none => some .detailsNotSerializable
    | some bytes => if maxDetailsBytes < bytes then some .detailsTooLarge else none

def ProbeResultPayload.cut (payload : ProbeResultPayload) : ProbeResultPayload :=
  {payload with msg := upTo maxMsgChars payload.msg}

/-- `validate_probe_payload`: a long message is cut, everything else over its limit refused. -/
def validateProbePayload (py : Python) (payload : ProbeResultPayload) :
    Except InvalidProbeResult (ProbeResultPayload × Outcome) :=
  match detailsFault py payload with
  | some fault => .error fault
  | none =>
    if maxSamples < payload.samples.length then .error .tooManySamples
    else
      match parseOutcome payload.outcome with
      | none => .error (.unsupportedOutcome payload.outcome)
      | some outcome => .ok (payload.cut,outcome)

/-- `_close_run`: what arrived is recorded and does not reach the monitor. -/
def closeRun (run : ProbeRun) (outcome : Outcome) (status : RunStatus) (errorCode msg : String)
    (details : Option (List (String × Value))) (completedAt : Nat) : ProbeRun :=
  {run with
    status := status
    outcome := some outcome
    errorCode := some errorCode
    completedAt := some completedAt
    msg := auditMsg msg
    resultMetadata := match details with
      | none | some [] => none
      | some fields => some (.obj [("details",.obj fields)])}

def record (py : Python) (monitor : Monitor) (payload : ProbeResultPayload) (outcome : Outcome) :
    MonitorResult :=
  let secrets := secretValues py monitor.params
  {itemId := payload.monitorId
   targetType := monitor.targetType
   targetId := monitor.targetId
   checkType := some monitor.checkType
   samples := payload.samples
   up := payload.up
   msg := redactString secrets payload.msg
   checkedAt := payload.finishedAt
   outcome := outcome
   details := payload.details.map (scrubFields py secrets)
   runId := some payload.runId
   executionReason := errorForOutcome outcome}

def isLate (run : ProbeRun) (now : Nat) : Bool :=
  run.deadlineAt.any fun deadline => deadline+lateResultGrace < now

/-- The end of `ingest_probe_result`, for the run the result answers. -/
def acceptResult (py : Python) (db : Db) (run : ProbeRun) (monitor : Monitor)
    (result : ProbeResultPayload) (outcome : Outcome) (now : Nat) : Db × Disposition :=
  let record := record py monitor result outcome
  let started := {run with startedAt := some result.startedAt}
  if isLate run now then
    (db.setRun result.runId
      (closeRun started outcome .expired "late_result" record.msg record.details now),.late)
  else if outcome = .cancelled then
    (db.setRun result.runId (closeRun started outcome .cancelled "agent_cancelled"
      record.msg record.details result.finishedAt),.auditOnly)
  else
    ((persistResults (db.setRun result.runId started) now [record]).db,
      if outcome = .completed then .accepted else .auditOnly)

/-- `ingest_probe_result`. -/
def ingestProbeResult (py : Python) (db : Db) (agent : Agent) (payload : ProbeResultPayload)
    (now : Nat) : Except InvalidProbeResult (Db × Disposition) :=
  if agent.status ≠ "active" then .error .inactiveAgent
  else
    match validateProbePayload py payload with
    | .error fault => .error fault
    | .ok (result,outcome) =>
      match db.runs result.runId with
      | none => .error (.unknownRun result.runId)
      | some run =>
        if run.agentId ≠ agent.id then .error .otherAgent
        else if run.monitorId ≠ result.monitorId then .error .otherMonitor
        else
          match db.monitors run.monitorId with
          | none => .error .monitorGone
          | some monitor =>
            if run.status.isOpen = false then .ok (db,.duplicate)
            else .ok (acceptResult py db run monitor result outcome now)

/-! The strings of a value, and what becomes of them. -/

mutual

def texts : Value → List String
  | .obj fields => fieldTexts fields
  | .arr values => allTexts values
  | .str text => [text]
  | .null | .bool _ | .num _ => []

def allTexts : List Value → List String
  | [] => []
  | value::values => texts value++allTexts values

def fieldTexts : List (String × Value) → List String
  | [] => []
  | (key,value)::fields => key::texts value++fieldTexts fields

end

/-- A string of a value that stays in it: as a key it is kept, as a value it is redacted. -/
inductive Piece where
  | key (text : String)
  | value (text : String)

mutual

def pieces (py : Python) : Value → List Piece
  | .obj fields => fieldPieces py fields
  | .arr values => allPieces py values
  | .str text => [.value text]
  | .null | .bool _ | .num _ => []

def allPieces (py : Python) : List Value → List Piece
  | [] => []
  | value::values => pieces py value++allPieces py values

def fieldPieces (py : Python) : List (String × Value) → List Piece
  | [] => []
  | (key,value)::fields =>
    if isSecretKey py key then fieldPieces py fields
    else .key key::pieces py value++fieldPieces py fields

end

def Piece.after (secrets : List Text) : Piece → String
  | .key text => text
  | .value text => redactString secrets text

mutual

theorem texts_scrub (py : Python) (secrets : List Text) (value : Value) :
    texts (scrub py secrets value) = (pieces py value).map (Piece.after secrets) := by
  cases value with
  | obj fields => exact texts_scrubFields py secrets fields
  | arr values => exact texts_scrubAll py secrets values
  | str text | null | bool b | num n => rfl

theorem texts_scrubAll (py : Python) (secrets : List Text) (values : List Value) :
    allTexts (scrubAll py secrets values) = (allPieces py values).map (Piece.after secrets) := by
  cases values with
  | nil => rfl
  | cons value values =>
    rw [scrubAll,allTexts,allPieces,map_append,texts_scrub py secrets value,
      texts_scrubAll py secrets values]

theorem texts_scrubFields (py : Python) (secrets : List Text) (fields : List (String × Value)) :
    fieldTexts (scrubFields py secrets fields) =
      (fieldPieces py fields).map (Piece.after secrets) := by
  cases fields with
  | nil => rfl
  | cons field fields =>
    obtain ⟨key,value⟩ := field
    have rest := texts_scrubFields py secrets fields
    rw [scrubFields,fieldPieces]
    split
    · exact rest
    · rw [fieldTexts,map_append,map_cons,texts_scrub py secrets value,rest]
      rfl

end

def Free (secrets : List Text) (text : String) : Prop := ∀ s ∈ secrets, ¬s <:+: text.toList

variable {secrets : List Text}

theorem redactText_free {text : Text}
    (h : ∀ s ∈ secrets, ¬s <:+: text) : redactText secrets text = text := by
  unfold redactText
  induction secrets with
  | nil => rfl
  | cons s secrets ih =>
    have miss : ¬(s ≠ [] ∧ s <:+: text) := fun found => h s mem_cons_self found.2
    rw [foldl_cons,if_neg miss]
    exact ih fun s hs => h s (mem_cons_of_mem _ hs)

variable {text id : String} {params : Value} {db : Db} {run : ProbeRun} {monitor : Monitor}

theorem redactString_free (h : Free secrets text) :
    redactString secrets text = text := by
  rw [redactString,redactText_free h,String.ofList_toList]

mutual

theorem scrub_scrub {py : Python} (value : Value)
    (h : ∀ text ∈ texts (scrub py secrets value), Free secrets text) :
    scrub py secrets (scrub py secrets value) = scrub py secrets value := by
  cases value with
  | obj fields => exact congrArg Value.obj (scrubFields_scrubFields fields h)
  | arr values => exact congrArg Value.arr (scrubAll_scrubAll values h)
  | str text => exact congrArg Value.str (redactString_free (h _ (mem_singleton_self _)))
  | null | bool b | num n => rfl

theorem scrubAll_scrubAll {py : Python} (values : List Value)
    (h : ∀ text ∈ allTexts (scrubAll py secrets values), Free secrets text) :
    scrubAll py secrets (scrubAll py secrets values) = scrubAll py secrets values := by
  cases values with
  | nil => rfl
  | cons value values =>
    rw [scrubAll,allTexts] at h
    rw [scrubAll,scrubAll, scrub_scrub value fun text ht => h text (mem_append_left _ ht),
      scrubAll_scrubAll values fun text ht => h text (mem_append_right _ ht)]

theorem scrubFields_scrubFields {py : Python} (fields : List (String × Value))
    (h : ∀ text ∈ fieldTexts (scrubFields py secrets fields), Free secrets text) :
    scrubFields py secrets (scrubFields py secrets fields) = scrubFields py secrets fields := by
  cases fields with
  | nil => rfl
  | cons field fields =>
    obtain ⟨key,value⟩ := field
    rw [scrubFields] at h ⊢
    split at h
    case isTrue dropped =>
      rw [if_pos dropped]
      exact scrubFields_scrubFields fields h
    case isFalse stays =>
      rw [fieldTexts] at h
      rw [if_neg stays,scrubFields,if_neg stays,
        scrub_scrub value fun text ht => h text (by simp [ht]),
        scrubFields_scrubFields fields fun text ht => h text (by simp [ht])]

end

/-! Replacements that spell a secret. -/

theorem redactText_cut (h : ∀ s ∈ secrets, s ≠ []) (text : Text)
    {s : Text} (apart : ¬Touches s redacted) (found : s <:+: redactText secrets text) :
    s <:+: text := by
  induction secrets generalizing text with
  | nil => exact found
  | cons first secrets ih =>
    have rest := ih (fun s hs => h s (mem_cons_of_mem _ hs)) _ found
    dsimp only at rest
    split at rest
    · exact (replace_cut (h first mem_cons_self) redacted text).spells apart rest
    · exact rest

theorem redactText_clears (h : ∀ s ∈ secrets, s ≠ []) {s : Text}
    (hs : s ∈ secrets) (apart : ¬Touches s redacted) (text : Text) :
    ¬s <:+: redactText secrets text := by
  induction secrets generalizing text with
  | nil => cases hs
  | cons first secrets ih =>
    have others : ∀ s ∈ secrets, s ≠ [] := fun s hs => h s (mem_cons_of_mem _ hs)
    rcases mem_cons.mp hs with rfl | later
    · intro found
      have left : s <:+: if s ≠ [] ∧ s <:+: text then replace s redacted text else text :=
        redactText_cut others _ apart found
      split at left
      case isTrue => exact not_infix_replace (h s mem_cons_self) apart text left
      case isFalse miss => exact miss ⟨h s mem_cons_self,left⟩
    · exact ih others later _

variable {py : Python}

theorem secretValues_ne_nil :
    ∀ s ∈ secretValues py params, s ≠ [] := by
  intro s hs empty
  have member := (mem_insertionSort _).mp hs
  have kept := (mem_filter.mp ((py.setOrder_perm _).mem_iff.mp member)).2
  rw [empty] at kept
  exact absurd kept (by decide)

/-! What an acceptance stores. -/

/-- The run's message, every key and string of its metadata, and the messages of new events. -/
def stored (before after : Db) (runId : String) : List String :=
  ((after.runs runId).elim [] fun run => run.msg.toList++run.resultMetadata.elim [] texts)++
    (after.events.drop before.events.length).map (·.msg)

/-- No secret is stored, and redacting what is stored once more changes nothing. -/
structure Clean (py : Python) (secrets : List Text) (before after : Db) (runId : String) :
    Prop where
  free : ∀ text ∈ stored before after runId, Free secrets text
  stable : ∀ text ∈ stored before after runId, redactString secrets text = text
  scrubbed : ∀ run fields details, after.runs runId = some run →
    run.resultMetadata = some (.obj fields) → ("details",.obj details) ∈ fields →
    scrubFields py secrets details = details

/-- The record as it is stored: a completed one in time is first put to the hypervisor. -/
def seen (py : Python) (db : Db) (run : ProbeRun) (monitor : Monitor) (payload : ProbeResultPayload)
    (outcome : Outcome) (now : Nat) : MonitorResult :=
  let r := record py monitor payload outcome
  if outcome = .completed ∧ isLate run now = false then applyOne db now [r] r else r

/-- A kept key holds no secret; what the marker leaves of a value spells none it overlaps. -/
def Piece.Safe (secrets : List Text) : Piece → Prop
  | .key text => Free secrets text
  | .value text => ∀ s ∈ secrets, Touches s redacted → ¬s <:+: redactText secrets text.toList

structure Meets (py : Python) (db : Db) (run : ProbeRun) (monitor : Monitor)
    (payload : ProbeResultPayload) (outcome : Outcome) (now : Nat) : Prop where
  details : ∀ piece ∈ fieldPieces py (payload.details.getD []),
    piece.Safe (secretValues py monitor.params)
  message : ∀ s ∈ secretValues py monitor.params,
    Touches s redacted ∨ (seen py db run monitor payload outcome now).up ≠ payload.up →
    ¬s <:+: (upTo 2000 (seen py db run monitor payload outcome now).msg).toList
  reasons : isLate run now = false → outcome ≠ .cancelled →
    ∀ sample ∈ (seen py db run monitor payload outcome now).samples,
      ∀ reason, sample.errorReason = some reason → reason ≠ "" →
        ∀ word ∈ [sample.metric,reason,"error_reasons","metric","error_reason"],
          Free (secretValues py monitor.params) word
  detailsWord : fieldPieces py (payload.details.getD []) ≠ [] →
    Free (secretValues py monitor.params) "details"
  reasonWord : isLate run now = false → ∀ reason, errorForOutcome outcome = some reason →
    outcome ≠ .cancelled → alreadyReported db run.monitorId reason = false →
    Free (secretValues py monitor.params) reason

variable {fields : List (String × Value)}

theorem scrubFields_eq_nil :
    scrubFields py secrets fields = [] ↔ fieldPieces py fields = [] := by
  induction fields with
  | nil => exact ⟨fun _ => rfl,fun _ => rfl⟩
  | cons field fields ih =>
    obtain ⟨key,value⟩ := field
    rw [scrubFields,fieldPieces]
    split
    · exact ih
    · simp

theorem upTo_toList (length : Nat) (text : String) :
    (upTo length text).toList = text.toList.take length := by
  rw [upTo,String.toList_ofList]

theorem free_redacted (length : Nat) : (∀ s ∈ secretValues py params, Touches s redacted →
      ¬s <:+: (upTo length (redactString (secretValues py params) text)).toList) ↔
    Free (secretValues py params) (upTo length (redactString (secretValues py params) text)) := by
  refine ⟨fun h s hs found => ?_,fun h s hs _ => h s hs⟩
  by_cases touches : Touches s redacted
  · exact h s hs touches found
  · rw [upTo_toList,redactString,String.toList_ofList] at found
    exact redactText_clears secretValues_ne_nil hs touches text.toList
      (found.trans ( take_prefix length _).isInfix)

theorem Piece.safe_iff (piece : Piece) : piece.Safe (secretValues py params) ↔
      Free (secretValues py params) (piece.after (secretValues py params)) := by
  cases piece with
  | key text => rfl
  | value text =>
    refine ⟨fun h s hs found => ?_,fun h s hs _ found => ?_⟩
    · rw [after,redactString,String.toList_ofList] at found
      by_cases touches : Touches s redacted
      · exact h s hs touches found
      · exact redactText_clears secretValues_ne_nil hs touches _ found
    · refine h s hs ?_
      rwa [after,redactString,String.toList_ofList]

/-! The metadata of a run. -/

theorem mem_allTexts {values : List Value} :
    text ∈ allTexts values ↔ ∃ value ∈ values, text ∈ texts value := by
  induction values with
  | nil => simp [allTexts]
  | cons value values ih => simp [allTexts,ih]

theorem mem_fieldTexts_append {more : List (String × Value)} :
    text ∈ fieldTexts (fields++more) ↔ text ∈ fieldTexts fields ∨ text ∈ fieldTexts more := by
  induction fields with
  | nil => simp [fieldTexts]
  | cons field fields ih => simp [fieldTexts,ih,or_assoc]

theorem errorEntry_eq_some {s : Sample} {value : Value} :
    s.errorEntry = some value ↔ ∃ reason, s.errorReason = some reason ∧ reason ≠ "" ∧
      value = .obj [("metric",.str s.metric),("error_reason",.str reason)] := by
  unfold Sample.errorEntry
  split
  case h_1 none => simp [none]
  case h_2 empty => simp [empty]
  case h_3 reason _ given =>
    rw [given]
    constructor
    · intro eq
      exact ⟨reason,rfl,by assumption,(Option.some.inj eq).symm⟩
    · rintro ⟨_,same,-,rfl⟩
      cases same
      rfl

theorem reasons_texts (P : String → Prop) (samples : List Sample) :
    (∀ text ∈ fieldTexts (if samples.filterMap Sample.errorEntry = [] then []
        else [("error_reasons",.arr (samples.filterMap Sample.errorEntry))]),P text) ↔
      ∀ sample ∈ samples, ∀ reason, sample.errorReason = some reason → reason ≠ "" →
        ∀ word ∈ [sample.metric,reason,"error_reasons","metric","error_reason"], P word := by
  split
  case isTrue silent =>
    refine iff_of_true (by simp [fieldTexts]) fun sample hs reason given stated => ?_
    have entry := filterMap_eq_nil_iff.mp silent sample hs
    rw [errorEntry_eq_some.mpr ⟨reason,given,stated,rfl⟩] at entry
    cases entry
  case isFalse spoken =>
    simp only [fieldTexts,texts,append_nil,mem_cons,mem_allTexts,mem_filterMap]
    constructor
    · intro h sample hs reason given stated word hw
      have entry := errorEntry_eq_some.mpr ⟨reason,given,stated,rfl⟩
      by_cases outer : word = "error_reasons"
      · exact h word (.inl outer)
      · refine h word (.inr ⟨_,⟨sample,hs,entry⟩,?_⟩)
        simp only [texts,fieldTexts,append_nil,mem_cons,mem_append, not_mem_nil,or_false]
        tauto
    · intro h text ht
      rcases ht with rfl | ⟨entry,⟨sample,hs,listed⟩,ht⟩
      · obtain ⟨entry,he⟩ := exists_mem_of_ne_nil _ spoken
        obtain ⟨sample,hs,listed⟩ := mem_filterMap.mp he
        obtain ⟨reason,given,stated,-⟩ := errorEntry_eq_some.mp listed
        exact h sample hs reason given stated _ (by simp)
      · obtain ⟨reason,given,stated,rfl⟩ := errorEntry_eq_some.mp listed
        refine h sample hs reason given stated text ?_
        simp only [texts,fieldTexts,append_nil,mem_cons,mem_append, not_mem_nil,or_false] at ht
        tauto

theorem metadata_texts (P : String → Prop) (r : MonitorResult) :
    (∀ text ∈ (resultMetadata r).elim [] texts, P text) ↔
      (∀ fields, r.details = some fields → fields ≠ [] →
        P "details" ∧ ∀ text ∈ fieldTexts fields, P text) ∧
      ∀ sample ∈ r.samples, ∀ reason, sample.errorReason = some reason → reason ≠ "" →
        ∀ word ∈ [sample.metric,reason,"error_reasons","metric","error_reason"], P word := by
  have given : (∀ text ∈ fieldTexts (match r.details with
        | none | some [] => []
        | some fields => [("details",Value.obj fields)]),P text) ↔
      ∀ fields, r.details = some fields → fields ≠ [] →
        P "details" ∧ ∀ text ∈ fieldTexts fields, P text := by
    cases r.details with
    | none => simp [fieldTexts]
    | some fields => cases fields <;> simp [fieldTexts,texts]
  have both (metadata : List (String × Value)) :
      (if metadata = [] then none else some (Value.obj metadata)).elim [] texts =
        fieldTexts metadata := by
    split
    case isTrue empty => rw [empty]; rfl
    case isFalse => rfl
  rw [←given,←reasons_texts,resultMetadata,both]
  constructor
  · intro all
    exact ⟨fun text mem => all text (mem_fieldTexts_append.mpr (.inl mem)),
      fun text mem => all text (mem_fieldTexts_append.mpr (.inr mem))⟩
  · intro parts text mem
    exact (mem_fieldTexts_append.mp mem).elim (parts.1 text) (parts.2 text)

/-! What each branch stores. -/

/-- The row a record leaves of its run, and the messages of the events that came with it. -/
structure Stores (before after : Db) (id : String) (r : MonitorResult) (messages : List String) :
    Prop where
  row : ∃ row, after.runs id = some row ∧
    (row.msg = some (upTo 2000 r.msg) ∨ row.msg = auditMsg r.msg) ∧
    row.resultMetadata = resultMetadata r
  events : ∃ added, after.events = before.events++added ∧ added.map (·.msg) = messages

theorem applyResult_stores (db : Db) (id : Nat) (up : Bool) (msg : String) (checkedAt : Nat) :
    (applyResult db id up msg checkedAt).1.runs = db.runs ∧
      ∃ added, (applyResult db id up msg checkedAt).1.events = db.events++added ∧
        (added.map (·.msg) = [] ∨ added.map (·.msg) = [upTo 2000 msg]) := by
  unfold applyResult
  cases db.monitors id with
  | none => exact ⟨rfl,[],(append_nil _).symm,.inl rfl⟩
  | some monitor =>
    dsimp only
    cases (ProbeRuns.applyResult monitor.toMonitorItem up checkedAt).2 with
    | none => exact ⟨rfl,[],(append_nil _).symm,.inl rfl⟩
    | some moved => exact ⟨rfl,_,rfl,.inr rfl⟩

variable {r : MonitorResult}

theorem completeRun_stores (hid : r.runId = some id) (hrun : db.runs id = some run) :
    Stores db (completeRun db r) id r [] := by
  unfold completeRun
  rw [hid]
  dsimp only
  rw [hrun]
  dsimp only
  cases db.monitors r.itemId with
  | none | some monitor =>
    exact ⟨⟨_,Function.update_self ..,.inl rfl,rfl⟩,[],(append_nil _).symm,rfl⟩

theorem persistResults_completed (now : Nat) (ho : r.outcome = .completed)
    (hid : (applyOne db now [r] r).runId = some id)
    (still : (applyOne db now [r] r).outcome = .completed) (hrun : db.runs id = some run) :
    ∃ messages, (messages = [] ∨ messages = [upTo 2000 (applyOne db now [r] r).msg]) ∧
      Stores db (persistResults db now [r]).db id (applyOne db now [r] r) messages := by
  have batch : applyProxmoxOverrides db now [r] = [applyOne db now [r] r] := by
    simp [applyProxmoxOverrides,ho]
  unfold persistResults
  rw [batch]
  generalize applyOne db now [r] r = seen at hid still ⊢
  simp only [foldl_cons,foldl_nil,persistOne,if_pos still]
  generalize hdb : ({db with samples := db.samples++
    ([seen].filter (·.outcome = .completed)).flatMap sampleRows} : Db) = sampled
  have events : sampled.events = db.events := by rw [←hdb]
  have runs : sampled.runs = db.runs := by rw [←hdb]
  obtain ⟨same,added,eq,messages⟩ :=
    applyResult_stores sampled seen.itemId seen.up seen.msg seen.checkedAt
  have closed := completeRun_stores hid (by rw [same,runs,hrun] :
    (applyResult sampled seen.itemId seen.up seen.msg seen.checkedAt).1.runs id = some run)
  obtain ⟨more,eq',none⟩ := closed.events
  refine ⟨_,messages,closed.row,added++more,?_,?_⟩
  · rw [eq',eq,events,append_assoc]
  · rw [map_append,none,append_nil]

theorem recordExecutionCondition_stores {id : Nat} {reason : String}
    (hm : db.monitors id = some monitor) (hr : reason ≠ "") (short : upTo 128 reason = reason)
    (status : ProbeRuns.ExecutionStatus) (occurredAt : Nat) :
    (recordExecutionCondition db id status (some reason) occurredAt).1.runs = db.runs ∧ ∃ added,
        (recordExecutionCondition db id status (some reason) occurredAt).1.events =
          db.events++added ∧
        added.map (·.msg) = if alreadyReported db id reason then [] else [reason] := by
  have trimmed : trimReason (some reason) = some reason := by
    unfold trimReason
    split
    case h_1 eq => cases eq
    case h_2 eq => exact absurd (Option.some.inj eq) hr
    case h_3 _ _ eq => rw [←Option.some.inj eq,short]
  unfold recordExecutionCondition
  rw [hm]
  dsimp only
  rw [trimmed]
  unfold recordExecutionEvent
  dsimp only
  by_cases reported : alreadyReported db id reason
  · rw [if_pos reported,if_pos reported]
    exact ⟨rfl,[],(append_nil _).symm,rfl⟩
  · rw [if_neg reported,if_neg reported]
    exact ⟨rfl,_,rfl,rfl⟩

theorem persistResults_failed (now : Nat) (ho : r.outcome ≠ .completed) (hid : r.runId = some id)
    (hrun : db.runs id = some run) (hm : db.monitors r.itemId = some monitor)
    (hr : r.reason ≠ "") (short : upTo 128 r.reason = r.reason) :
    Stores db (persistResults db now [r]).db id r
      (if alreadyReported db r.itemId r.reason then [] else [r.reason]) := by
  have batch : applyProxmoxOverrides db now [r] = [r] := by
    simp [applyProxmoxOverrides,ho]
  have none : [r].filter (fun r : MonitorResult => r.outcome = .completed) = [] := by simp [ho]
  obtain ⟨row,closed,msg,metadata⟩ : ∃ row : ProbeRun,
      closeFailedRun db r r.reason = db.setRun id row ∧
        row.msg = auditMsg r.msg ∧ row.resultMetadata = resultMetadata r := by
    unfold closeFailedRun
    rw [hid]
    dsimp only
    rw [hrun]
    exact ⟨_,rfl,rfl,rfl⟩
  unfold persistResults
  dsimp only
  rw [batch,none]
  simp only [foldl_cons,foldl_nil,persistOne,if_neg ho,applyExecutionError, flatMap_nil,append_nil]
  rw [closed]
  have there : (db.setRun id row).monitors r.itemId = some monitor := hm
  obtain ⟨runs,added,events,messages⟩ :=
    recordExecutionCondition_stores there hr short .unavailable r.checkedAt
  refine ⟨⟨row,?_,.inr msg,metadata⟩,added,events,messages⟩
  rw [runs]
  exact Function.update_self ..

theorem resultMetadata_details {details : List (String × Value)}
    (h : resultMetadata r = some (.obj fields)) (hd : ("details",.obj details) ∈ fields) :
    r.details = some details := by
  unfold resultMetadata at h
  dsimp only at h
  obtain ⟨-,same⟩ := Option.ite_none_left_eq_some.mp h
  rw [←Value.obj.inj (Option.some.inj same)] at hd
  rcases mem_append.mp hd with own | other
  · cases hr : r.details with
    | none => simp [hr] at own
    | some given =>
      cases given with
      | nil => simp [hr] at own
      | cons first rest =>
        have eq : details = first::rest := by simpa [hr] using own
        rw [eq]
  · split at other
    · cases other
    · simp at other

theorem auditMsg_free (h : ∀ s ∈ secrets, s ≠ []) (msg : String) :
    (∀ text ∈ (auditMsg msg).toList, Free secrets text) ↔ Free secrets (upTo 2000 msg) := by
  unfold auditMsg
  split
  case isTrue empty =>
    refine iff_of_true (by simp) fun s hs found => ?_
    rw [empty,upTo_toList] at found
    exact h s hs (by simpa using found)
  case isFalse => simp

theorem Stores.clean_iff {after : Db} {messages : List String} (h : Stores db after id r messages)
    (hs : ∀ s ∈ secrets, s ≠ [])
    (scrubbed : ∀ details, r.details = some details → ∃ raw, details = scrubFields py secrets raw) :
    Clean py secrets db after id ↔ Free secrets (upTo 2000 r.msg) ∧
      (∀ text ∈ (resultMetadata r).elim [] texts, Free secrets text) ∧
      ∀ text ∈ messages, Free secrets text := by
  obtain ⟨row,hrow,hmsg,hmeta⟩ := h.row
  obtain ⟨added,events,eq⟩ := h.events
  have kept : stored db after id = row.msg.toList++(resultMetadata r).elim [] texts++messages := by
    rw [stored,hrow,events,drop_left,eq,Option.elim_some,hmeta]
  have message : (∀ text ∈ row.msg.toList, Free secrets text) ↔ Free secrets (upTo 2000 r.msg) := by
    rcases hmsg with eq | eq
    · simp [eq]
    · rw [eq]
      exact auditMsg_free hs r.msg
  have all : (∀ text ∈ stored db after id, Free secrets text) ↔ Free secrets (upTo 2000 r.msg) ∧
      (∀ text ∈ (resultMetadata r).elim [] texts, Free secrets text) ∧
      ∀ text ∈ messages, Free secrets text := by
    rw [kept,←message]
    simp only [mem_append,or_imp,forall_and,and_assoc]
  rw [←all]
  refine ⟨Clean.free,fun free => ⟨free,fun text ht => redactString_free (free text ht),?_⟩⟩
  intro run fields details hrun metadata member
  rw [hrow] at hrun
  cases hrun
  rw [hmeta] at metadata
  have own := resultMetadata_details metadata member
  obtain ⟨raw,rfl⟩ := scrubbed details own
  refine scrubFields_scrubFields raw fun text ht => ?_
  have given := ((metadata_texts (Free secrets) r).mp (all.mp free).2.1).1 _ own
  refine (given fun empty => ?_).2 text ht
  rw [empty] at ht
  cases ht

theorem validateProbePayload_ok {payload result : ProbeResultPayload}
    {outcome : Outcome} (h : validateProbePayload py payload = .ok (result,outcome)) :
    result = payload.cut ∧ parseOutcome payload.outcome = some outcome := by
  unfold validateProbePayload at h
  split at h
  · cases h
  · split at h
    · cases h
    · split at h <;> cases h
      rename_i given
      exact ⟨rfl,given⟩

theorem ingestProbeResult_ok {after : Db} {agent : Agent}
    {payload : ProbeResultPayload} {now : Nat} {d : Disposition} {outcome : Outcome}
    (h : ingestProbeResult py db agent payload now = .ok (after,d)) (hd : d ≠ .duplicate)
    (hrun : db.runs payload.runId = some run) (hm : db.monitors run.monitorId = some monitor)
    (ho : parseOutcome payload.outcome = some outcome) :
    run.monitorId = payload.monitorId ∧
      acceptResult py db run monitor payload.cut outcome now = (after,d) := by
  unfold ingestProbeResult at h
  split at h
  · cases h
  · split at h
    · cases h
    case h_2 result outcome' valid =>
      obtain ⟨rfl,same⟩ := validateProbePayload_ok valid
      cases ho.symm.trans same
      have there : db.runs payload.cut.runId = some run := hrun
      rw [there] at h
      dsimp only at h
      split at h
      · cases h
      · split at h
        · cases h
        case isFalse mine =>
          rw [hm] at h
          dsimp only at h
          split at h
          · cases h
            exact absurd rfl hd
          · exact ⟨not_not.mp mine,Except.ok.inj h⟩

theorem applyOne_cases (db : Db) (now : Nat) (batch : List MonitorResult) (r : MonitorResult) :
    applyOne db now batch r = r ∨ (applyOne db now batch r).up ≠ r.up := by
  unfold applyOne
  split
  · exact .inl rfl
  · split
    · split
      · exact .inl rfl
      · split
        · exact .inl rfl
        case isFalse other => exact .inr other
    · exact .inl rfl

theorem applyOne_keeps (db : Db) (now : Nat) (batch : List MonitorResult) (r : MonitorResult) :
    (applyOne db now batch r).runId = r.runId ∧ (applyOne db now batch r).outcome = r.outcome ∧
      (applyOne db now batch r).details = r.details := by
  unfold applyOne
  split
  · exact ⟨rfl,rfl,rfl⟩
  · split
    · split
      · exact ⟨rfl,rfl,rfl⟩
      · split
        · exact ⟨rfl,rfl,rfl⟩
        · exact ⟨rfl,rfl,rfl⟩
    · exact ⟨rfl,rfl,rfl⟩

section Accepted

variable {py : Python} {db : Db} {run : ProbeRun} {monitor : Monitor} {payload : ProbeResultPayload}
  {outcome : Outcome} {now : Nat}

theorem seen_keeps : (seen py db run monitor payload outcome now).runId = some payload.runId ∧
    (seen py db run monitor payload outcome now).outcome = outcome ∧
    (seen py db run monitor payload outcome now).details =
      payload.details.map (scrubFields py (secretValues py monitor.params)) := by
  unfold seen
  dsimp only
  split
  · exact applyOne_keeps db now _ _
  · exact ⟨rfl,rfl,rfl⟩

theorem message_iff : (∀ s ∈ secretValues py monitor.params,
      Touches s redacted ∨ (seen py db run monitor payload outcome now).up ≠ payload.up →
      ¬s <:+: (upTo 2000 (seen py db run monitor payload outcome now).msg).toList) ↔
    Free (secretValues py monitor.params)
      (upTo 2000 (seen py db run monitor payload outcome now).msg) := by
  refine ⟨fun h => ?_,fun h s hs _ => h s hs⟩
  have plain (eq : seen py db run monitor payload outcome now =
      record py monitor payload outcome) : Free (secretValues py monitor.params)
        (upTo 2000 (seen py db run monitor payload outcome now).msg) := by
    rw [eq] at h ⊢
    exact (free_redacted 2000).mp fun s hs touches => h s hs (.inl touches)
  by_cases asked : outcome = .completed ∧ isLate run now = false
  · have same : seen py db run monitor payload outcome now =
        applyOne db now [record py monitor payload outcome] (record py monitor payload outcome) :=
      if_pos asked
    rcases applyOne_cases db now [record py monitor payload outcome]
        (record py monitor payload outcome) with left | turned
    · exact plain (same.trans left)
    · rw [←same] at turned
      exact fun s hs => h s hs (.inr turned)
  · exact plain (if_neg asked)

theorem details_iff (secrets : List Text) (hs : secrets = secretValues py monitor.params) :
    (∀ fields, payload.details.map (scrubFields py secrets) = some fields → fields ≠ [] →
      Free secrets "details" ∧ ∀ text ∈ fieldTexts fields, Free secrets text) ↔
    (∀ piece ∈ fieldPieces py (payload.details.getD []), piece.Safe secrets) ∧
      (fieldPieces py (payload.details.getD []) ≠ [] → Free secrets "details") := by
  subst hs
  cases payload.details with
  | none => simp [fieldPieces]
  | some raw =>
    simp only [Option.map_some,Option.some.injEq,Option.getD_some,forall_eq']
    rw [Ne,scrubFields_eq_nil,texts_scrubFields]
    simp only [forall_mem_map,←Piece.safe_iff]
    constructor
    · intro h
      refine ⟨fun piece hp => ?_,fun some => (h some).1⟩
      exact (h (ne_nil_of_mem hp)).2 piece hp
    · exact fun h some => ⟨h.2 some,h.1⟩

theorem closed_stores (status : RunStatus) (errorCode : String) (completedAt : Nat) :
    Stores db (db.setRun payload.runId (closeRun {run with startedAt := some payload.startedAt}
        outcome status errorCode (record py monitor payload outcome).msg
        (record py monitor payload outcome).details completedAt)) payload.runId
      {record py monitor payload outcome with samples := []} [] := by
  refine ⟨⟨_,Function.update_self ..,.inr rfl,?_⟩,[],(append_nil _).symm,rfl⟩
  unfold closeRun resultMetadata
  cases (record py monitor payload outcome).details with
  | none => rfl
  | some fields => cases fields <;> rfl

theorem Stores.meets_iff {after : Db} {r : MonitorResult} {messages : List String}
    (h : Stores db after payload.runId r messages)
    (details : r.details = payload.details.map (scrubFields py (secretValues py monitor.params)))
    (msg : r.msg = (seen py db run monitor payload outcome now).msg)
    (samples : (∀ sample ∈ r.samples, ∀ reason, sample.errorReason = some reason → reason ≠ "" →
        ∀ word ∈ [sample.metric,reason,"error_reasons","metric","error_reason"],
          Free (secretValues py monitor.params) word) ↔
      (isLate run now = false → outcome ≠ .cancelled →
        ∀ sample ∈ (seen py db run monitor payload outcome now).samples,
          ∀ reason, sample.errorReason = some reason → reason ≠ "" →
            ∀ word ∈ [sample.metric,reason,"error_reasons","metric","error_reason"],
              Free (secretValues py monitor.params) word))
    (events : Free (secretValues py monitor.params)
        (upTo 2000 (seen py db run monitor payload outcome now).msg) →
      ((∀ text ∈ messages, Free (secretValues py monitor.params) text) ↔
        (isLate run now = false → ∀ reason, errorForOutcome outcome = some reason →
          outcome ≠ .cancelled → alreadyReported db run.monitorId reason = false →
          Free (secretValues py monitor.params) reason))) :
    Clean py (secretValues py monitor.params) db after payload.runId ↔
      Meets py db run monitor payload outcome now := by
  have scrubbed : ∀ fields, r.details = some fields →
      ∃ raw, fields = scrubFields py (secretValues py monitor.params) raw := by
    intro fields hf
    rw [details] at hf
    obtain ⟨raw,-,rfl⟩ := Option.map_eq_some_iff.mp hf
    exact ⟨raw,rfl⟩
  rw [h.clean_iff secretValues_ne_nil scrubbed,metadata_texts,msg,details,
    details_iff _ rfl,samples]
  constructor
  · rintro ⟨free,⟨⟨given,word⟩,reasons⟩,told⟩
    exact ⟨given,message_iff.mpr free,reasons,word,(events free).mp told⟩
  · intro m
    have free := message_iff.mp m.message
    exact ⟨free,⟨⟨m.details,m.detailsWord⟩,m.reasons⟩,(events free).mpr m.reasonWord⟩

theorem failure_reason (py : Python) (monitor : Monitor) (payload : ProbeResultPayload)
    (hc : outcome ≠ .completed) (going : outcome ≠ .cancelled) :
    ∃ reason, errorForOutcome outcome = some reason ∧
      (record py monitor payload outcome).reason = reason ∧
      reason ≠ "" ∧ upTo 128 reason = reason := by
  cases outcome with
  | completed => exact absurd rfl hc
  | cancelled => exact absurd rfl going
  | executionError => exact ⟨"agent_execution_error",rfl,rfl,by decide,by decide⟩
  | rejected => exact ⟨"agent_rejected",rfl,rfl,by decide,by decide⟩

theorem acceptResult_clean_iff
    (hm : db.monitors run.monitorId = some monitor) (hid : run.monitorId = payload.monitorId) :
    Clean py (secretValues py monitor.params) db
        (acceptResult py db run monitor payload outcome now).1 payload.runId ↔
      Meets py db run monitor payload outcome now := by
  unfold acceptResult
  dsimp only
  split
  case isTrue late =>
    have plain : seen py db run monitor payload outcome now = record py monitor payload outcome :=
      if_neg fun asked => by simp [late] at asked
    refine (closed_stores .expired "late_result" now).meets_iff rfl (by rw [plain]) ?_ fun _ => ?_
    · exact iff_of_true nofun fun early => by simp [late] at early
    · exact iff_of_true nofun fun early => by simp [late] at early
  case isFalse early =>
    have early : isLate run now = false := Bool.eq_false_iff.mpr early
    split
    case isTrue stopped =>
      have plain : seen py db run monitor payload outcome now =
          record py monitor payload outcome := if_neg fun asked => by simp [stopped] at asked
      refine (closed_stores .cancelled "agent_cancelled" payload.finishedAt).meets_iff rfl
        (by rw [plain]) ?_ fun _ => ?_
      · exact iff_of_true nofun fun _ going => absurd stopped going
      · exact iff_of_true nofun fun _ _ _ going => absurd stopped going
    case isFalse going =>
      have there : (db.setRun payload.runId
          {run with startedAt := some payload.startedAt}).runs payload.runId =
            some {run with startedAt := some payload.startedAt} := Function.update_self ..
      by_cases completed : outcome = .completed
      · have same : applyOne
            (db.setRun payload.runId {run with startedAt := some payload.startedAt}) now
            [record py monitor payload outcome] (record py monitor payload outcome) =
            seen py db run monitor payload outcome now :=
          (if_pos ⟨completed,early⟩ : seen py db run monitor payload outcome now = _).symm
        obtain ⟨runId,still,details⟩ := @seen_keeps py db run monitor payload outcome now
        obtain ⟨messages,told,stores⟩ := persistResults_completed now
          (show (record py monitor payload outcome).outcome = .completed from completed)
          (by rw [same]; exact runId) (by rw [same,still]; exact completed) there
        rw [same] at told stores
        refine Stores.meets_iff ⟨stores.row,stores.events⟩ details rfl ?_ fun free => ?_
        · exact ⟨fun h _ _ => h,fun h => h early going⟩
        · refine iff_of_true ?_ ?_
          · rcases told with none | one
            · rw [none]
              exact nofun
            · rw [one]
              intro text ht
              rw [mem_singleton.mp ht]
              exact free
          · intro _ reason why
            rw [completed] at why
            cases why
      · have plain : seen py db run monitor payload outcome now =
            record py monitor payload outcome := if_neg fun asked => completed asked.1
        obtain ⟨reason,why,named,long,short⟩ := failure_reason py monitor payload completed going
        have stores := persistResults_failed now
          (show (record py monitor payload outcome).outcome ≠ .completed from completed) rfl there
          (show (db.setRun payload.runId _).monitors payload.monitorId = some monitor from hid ▸ hm)
          (by rw [named]; exact long) (by rw [named]; exact short)
        rw [named] at stores
        refine Stores.meets_iff ⟨stores.row,stores.events⟩ rfl (by rw [plain]) ?_ fun _ => ?_
        · rw [plain]
          exact ⟨fun h _ _ => h,fun h => h early going⟩
        · have same : alreadyReported (db.setRun payload.runId
              {run with startedAt := some payload.startedAt})
              (record py monitor payload outcome).itemId reason =
              alreadyReported db run.monitorId reason := by
            rw [hid]
            rfl
          rw [same,why]
          cases reported : alreadyReported db run.monitorId reason with
          | true => simp [reported]
          | false => simp [early,going,reported]

end Accepted

def asciiPython : Python where
  lower t := t.map Char.toLower
  setOrder l := l
  setOrder_perm := fun _ => .refl _
  detailsBytes _ := some 0

def tokenMonitor : Monitor where
  maxRetries := 0
  intervalSecs := 60
  retryIntervalSecs := none
  probeAgentId := some 3
  lastStatus := some .up
  name := "gateway"
  targetType := none
  targetId := none
  checkType := "http"
  params := .obj [("token",.str "hunter2")]

def tokenDb : Db where
  monitors id := if id = 7 then some tokenMonitor else none
  events := []
  samples := []
  runs id := if id = "r1" then some {
    monitorId := 7, agentId := 3, status := .dispatched, scheduledAt := 0,
    deadlineAt := some 60} else none
  hardware _ := none
  computeUnits _ := none
  checks _ := []

def echoes (msg : String) (reason : Option String) : ProbeResultPayload where
  runId := "r1"
  monitorId := 7
  outcome := "completed"
  up := false
  startedAt := 1
  finishedAt := 2
  samples := [⟨"avail",0,reason⟩]
  msg := msg

theorem secretValues_token :
    secretValues asciiPython tokenMonitor.params = ["hunter2".toList] := by
  decide

end CircuitBreaker.ProbeRedaction
