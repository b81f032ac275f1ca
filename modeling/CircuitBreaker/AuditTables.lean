import CircuitBreaker.AuditChain
import CircuitBreaker.StepRuns

/-! The transactions that touch the audit tables, statement by statement at READ
COMMITTED: log_service.write_log, audit_spool.defer and drain, one batch of
log_purge.purge_old_audit_logs, and audit_chain.repair_audit_chain.

A statement sees the rows committed when it starts. A locking read fixes its rows
then and reads them again once no other transaction holds them, without those
deleted meanwhile. Locks last to the end of the transaction, and a transaction may
be rolled back anywhere. The sequences behind the ids are not transactional. -/

namespace CircuitBreaker.Audit
open StepRuns

/-! ### The spool's payload -/

def pad (width n : Nat) : List Char :=
  List.replicate (width-(Nat.toDigits 10 n).length) '0' ++ Nat.toDigits 10 n

/-- `datetime.isoformat` of a UTC time. -/
def isoformat (t : DateTime) : String :=
  String.ofList (pad 4 t.year ++ '-'::(pad 2 t.month ++ '-'::(pad 2 t.day ++ 'T'::(pad 2 t.hour ++
    ':'::(pad 2 t.minute ++ ':'::(pad 2 t.second ++
      ((if t.microsecond = 0 then [] else '.'::pad 6 t.microsecond) ++ "+00:00".toList)))))))

def readNumber (width : Nat) (cs : List Char) : Option (Nat × List Char) :=
  if (cs.take width).length = width ∧ (cs.take width).all Char.isDigit then
    some (Nat.ofDigitChars 10 (cs.take width) 0,cs.drop width)
  else none

def readChar (c : Char) : List Char → Option (List Char)
  | [] => none
  | d::cs => if d = c then some cs else none

def readFraction (cs : List Char) : Option (Nat × List Char) :=
  match readChar '.' cs with
  | none => some (0,cs)
  | some cs => readNumber 6 cs

def readThree (width : Nat) (sep : Char) (cs : List Char) : Option ((Nat × Nat × Nat) × List Char) := do
  let (a,cs) ← readNumber width cs
  let cs ← readChar sep cs
  let (b,cs) ← readNumber 2 cs
  let cs ← readChar sep cs
  let (c,cs) ← readNumber 2 cs
  some ((a,b,c),cs)

def toDateTime (date clock : Nat × Nat × Nat) (microsecond : Nat) : Option DateTime :=
  let (year,month,day) := date
  let (hour,minute,second) := clock
  if real : (1 ≤ year ∧ year ≤ 9999) ∧ (1 ≤ month ∧ month ≤ 12) ∧
      (1 ≤ day ∧ day ≤ daysIn year month) ∧
      hour < 24 ∧ minute < 60 ∧ second < 60 ∧ microsecond < 1000000 then
    some ⟨year,month,day,hour,minute,second,microsecond,real⟩
  else none

/-- `datetime.fromisoformat` on the form `isoformat` writes. -/
def fromisoformat (s : String) : Option DateTime := do
  let (date,cs) ← readThree 4 '-' s.toList
  let cs ← readChar 'T' cs
  let (clock,cs) ← readThree 2 ':' cs
  let (microsecond,cs) ← readFraction cs
  if cs = "+00:00".toList then toDateTime date clock microsecond else none

def LogFields.retime {τ υ : Type} (f : LogFields τ) (t : υ) : LogFields υ where
  timestamp := t
  createdAtUtc := f.createdAtUtc
  level := f.level
  category := f.category
  action := f.action
  actor := f.actor
  actorGravatarHash := f.actorGravatarHash
  entityType := f.entityType
  entityId := f.entityId
  oldValue := f.oldValue
  newValue := f.newValue
  userAgent := f.userAgent
  ipAddress := f.ipAddress
  details := f.details
  statusCode := f.statusCode
  actorId := f.actorId
  actorName := f.actorName
  entityName := f.entityName
  diff := f.diff
  severity := f.severity
  sessionId := f.sessionId
  roleAtTime := f.roleAtTime

/-- `_encode`: the timestamp crosses into the JSON payload as a text. -/
def encode (f : LogFields DateTime) : LogFields String := f.retime (isoformat f.timestamp)

/-- `_decode`; a text that is no time raises. -/
def decode (payload : LogFields String) : Option (LogFields DateTime) :=
  (fromisoformat payload.timestamp).map payload.retime

theorem readNumber_pad {w n : Nat} (h : n < 10^w) (pos : 0 < w) (cs : List Char) :
    readNumber w (pad w n ++ cs) = some (n,cs) := by
  have short : (Nat.toDigits 10 n).length ≤ w :=
    (Nat.length_toDigits_le_iff (by decide) pos).mpr h
  have length : (pad w n).length = w := by
    simp only [pad,List.length_append,List.length_replicate]
    omega
  have digits : ∀ c ∈ pad w n, c.isDigit := by
    intro c hc
    simp only [pad,List.mem_append,List.mem_replicate] at hc
    rcases hc with ⟨-,rfl⟩ | hc
    · decide
    · exact Nat.isDigit_of_mem_toDigits (by decide) (by decide) hc
  have value : Nat.ofDigitChars 10 (pad w n) 0 = n := by
    rw [pad,Nat.ofDigitChars_append,Nat.ofDigitChars_replicate_zero]
    simp [Nat.ofDigitChars_ten_toDigits]
  have take : (pad w n ++ cs).take w = pad w n := by
    rw [List.take_append_of_le_length (by omega),List.take_of_length_le (by omega)]
  have drop : (pad w n ++ cs).drop w = cs := by
    rw [List.drop_append_of_le_length (by omega),List.drop_of_length_le (by omega)]
    rfl
  simp only [readNumber,take,drop,length,value]
  simpa using digits

theorem readChar_cons (c : Char) (cs : List Char) : readChar c (c::cs) = some cs := by simp [readChar]

theorem readFraction_written (t : DateTime) :
    readFraction ((if t.microsecond = 0 then [] else '.'::pad 6 t.microsecond) ++ "+00:00".toList) =
      some (t.microsecond,"+00:00".toList) := by
  by_cases zero : t.microsecond = 0
  · simp [zero,readFraction,readChar]
  · have below := t.real.2.2.2.2.2.2
    simp only [zero,if_false,List.cons_append,readFraction,readChar_cons]
    exact readNumber_pad (by omega) (by decide) _

theorem readThree_written {w a b c : Nat} (sep : Char) (pos : 0 < w) (ha : a < 10^w) (hb : b < 100)
    (hc : c < 100) (cs : List Char) :
    readThree w sep (pad w a ++ sep::(pad 2 b ++ sep::(pad 2 c ++ cs))) = some ((a,b,c),cs) := by
  have first := readNumber_pad ha pos
  have second := readNumber_pad (n := b) (w := 2) hb (by decide)
  have third := readNumber_pad (n := c) (w := 2) hc (by decide)
  simp only [readThree,first,second,third,readChar_cons,Option.bind_eq_bind,Option.bind_some]

theorem fromisoformat_isoformat (t : DateTime) : fromisoformat (isoformat t) = some t := by
  obtain ⟨⟨-,year⟩,⟨-,month⟩,⟨-,day⟩,hour,minute,second,-⟩ := t.real
  have days : daysIn t.year t.month ≤ 31 := by
    unfold daysIn
    split
    · split <;> omega
    · split <;> omega
  have date := readThree_written (w := 4) (a := t.year) (b := t.month) (c := t.day) '-'
    (by decide) (by omega) (by omega) (by omega)
  have clock := readThree_written (w := 2) (a := t.hour) (b := t.minute) (c := t.second) ':'
    (by decide) (by omega) (by omega) (by omega)
  simp only [fromisoformat,isoformat,String.toList_ofList,date,readChar_cons,clock,
    readFraction_written,Option.bind_eq_bind,Option.bind_some,if_true]
  exact dif_pos t.real

@[simp] theorem decode_encode (f : LogFields DateTime) : decode (encode f) = some f := by
  simp [decode,encode,LogFields.retime,fromisoformat_isoformat]

/-! ### Tables -/

structure PendingAuditLog where
  id : Int
  payload : LogFields String

/-- What is committed, the tables in id order. `settings` is the checkpoint of the
first app_settings row, if there is such a row. -/
structure Db where
  logs : List Log
  settings : Option (Option String)
  pending : List PendingAuditLog
  nextLogId : Int
  nextPendingId : Int

def chainSeedHash (db : Db) : Option String := db.settings.getD none

def rows (logs : List Log) : List Entry := logs.map Log.entry

structure Relink where
  id : Int
  previousHash : Option String
  logHash : Option String

def Log.relink (changed : List Relink) (log : Log) : Log :=
  match changed.find? (·.id = log.id) with
  | none => log
  | some c => {log with entry := {log.entry with previousHash := c.previousHash, logHash := c.logHash}}

def relinked (changed : List Relink) (logs : List Log) : List Log := logs.map (Log.relink changed)

def lastHash (logs : List Log) : Option String := logs.getLast?.bind (·.entry.logHash)

/-- `log_hash` of the row with an id, none for a NULL or for no row. -/
def hashOf (logs : List Log) (id : Int) : Option String :=
  (logs.find? (·.id = id)).bind (·.entry.logHash)

/-! ### Transactions -/

/-- What a transaction that calls write_log has done to the chain so far: nothing
in a plain one, its relinking in a repair. -/
structure Job where
  locked : List Int
  changed : List Relink
  repairing : Bool

def Job.none : Job := ⟨[],[],false⟩

/-- How far a transaction is, and the values it has read. `entry` makes the audit
entry a repair appends from its first failure and the number of rows it changed. -/
inductive Txn where
  | done
  | write (fields : LogFields DateTime)
  | writeLocked (fields : LogFields DateTime) (job : Job)
  | writeTip (fields : LogFields DateTime) (job : Job) (tip : Option Int)
  | writeRead (fields : LogFields DateTime) (job : Job) (previousHash : Option String)
  | writeInserted (job : Job) (row : Log)
  | defer (fields : LogFields DateTime)
  | deferInserted (fields : LogFields DateTime) (row : PendingAuditLog)
  | drain (limit : Nat)
  | drainRead (pending : List PendingAuditLog)
  | drainLocked (pending : List PendingAuditLog)
  | drainTip (pending : List PendingAuditLog) (previousHash : Option String)
  | drainFlushed (pending : List PendingAuditLog) (chained : List Log)
  | purge (kept : Log → Bool)
  | purgeSettings (kept : Log → Bool)
  | purgeMax (kept : Log → Bool) (maxId : Int)
  | purgeBound (bound : Int)
  | purgeIds (tipId : Int)
  | purgeHash (tipId : Int) (tipHash : Option String)
  | purgeDeleted (tipId : Int) (tipHash : Option String)
  | repair (entry : Int → Nat → LogFields DateTime)
  | repairSeed (entry : Int → Nat → LogFields DateTime) (seed : Option String)
  | repairVerified (entry : Int → Nat → LogFields DateTime) (firstFailureId : Int)
  | repairLocked (entry : Int → Nat → LogFields DateTime) (firstFailureId : Int)
  | repairPrior (entry : Int → Nat → LogFields DateTime) (firstFailureId : Int)
  | repairWalk (entry : Int → Nat → LogFields DateTime) (firstFailureId nextId : Int)
      (previousHash : Option String) (locked : List Int) (changed : List Relink)
  | repairWindow (entry : Int → Nat → LogFields DateTime) (firstFailureId nextId : Int)
      (previousHash : Option String) (locked : List Int) (changed : List Relink) (ids : List Int)

def Txn.opening : Txn → Bool
  | .write _ | .defer _ | .drain _ | .purge _ | .repair _ => true
  | _ => false

def Txn.holdsChain : Txn → Bool
  | .writeLocked .. | .writeTip .. | .writeRead .. | .writeInserted ..
  | .drainLocked .. | .drainTip .. | .drainFlushed ..
  | .repairLocked .. | .repairPrior .. | .repairWalk .. | .repairWindow .. => true
  | _ => false

def Txn.holdsSettings : Txn → Bool
  | .purgeSettings .. | .purgeMax .. | .purgeBound .. | .purgeIds .. | .purgeHash ..
  | .purgeDeleted .. => true
  | _ => false

def Txn.locks : Txn → Int → Prop
  | .writeLocked _ job,id | .writeTip _ job _,id | .writeRead _ job _,id | .writeInserted job _,id =>
      id ∈ job.locked
  | .purgeDeleted tipId _,id => id ≤ tipId
  | .repairWalk _ _ _ _ locked _,id | .repairWindow _ _ _ _ locked _ _,id => id ∈ locked
  | _,_ => False

def purgeBatchRows : Nat := 1000
def repairBatchRows : Nat := 500

structure World where
  db : Db
  txns : Nat → Txn
  chainLock : Option Nat
  settingsLock : Option Nat

def World.set (w : World) (p : Nat) (t : Txn) : World :=
  {w with txns := Function.update w.txns p t}

def World.finish (w : World) (p : Nat) (db : Db) : World where
  db := db
  txns := Function.update w.txns p .done
  chainLock := if w.chainLock = some p then none else w.chainLock
  settingsLock := if w.settingsLock = some p then none else w.settingsLock

def World.free (w : World) (p : Nat) (id : Int) : Prop := ∀ q, q ≠ p → ¬(w.txns q).locks id

section chain
variable (sha256 : String → String)

def chainEntry (fields : LogFields DateTime) (previousHash : Option String) : Entry :=
  ⟨fields,previousHash,some (computeLogHash sha256 fields previousHash)⟩

/-- The loop of `_drain_within` over decoded rows, ids from the sequence. -/
def chainAll : Int → Option String → List (LogFields DateTime) → List Log
  | _,_,[] => []
  | id,previousHash,f::fs =>
      ⟨id,chainEntry sha256 f previousHash⟩::chainAll (id+1) (chainEntry sha256 f previousHash).logHash fs

def relinkWindow : Option String → List Log → Option String × List Relink
  | previousHash,[] => (previousHash,[])
  | previousHash,log::rest =>
      let expected := some (computeLogHash sha256 log.entry.fields previousHash)
      let (last,changed) := relinkWindow expected rest
      if log.entry.previousHash ≠ previousHash ∨ log.entry.logHash ≠ expected then
        (last,⟨log.id,previousHash,expected⟩::changed)
      else (last,changed)

end chain

inductive Event where
  | began (t : Txn)
  | read
  | chainLocked (p : Nat)
  | appended (fields : LogFields DateTime)
  | deferred (fields : LogFields DateTime)
  | drained
  | cut
  | repaired
  | rolledBack

/-- One statement, commit or rollback of one transaction. A path of the source
that ends a transaction without a commit is a rollback. -/
inductive Step (sha256 : String → String) : World → Event → World → Prop where
  | begin {w : World} {p : Nat} {t : Txn} :
      w.txns p = .done → t.opening → Step sha256 w (.began t) (w.set p t)
  | rollback {w : World} (p : Nat) : Step sha256 w .rolledBack (w.finish p w.db)
  -- write_log._do_write
  | writeLock {w : World} {p : Nat} {f : LogFields DateTime} :
      w.txns p = .write f → w.chainLock = none →
      Step sha256 w (.chainLocked p) {w.set p (.writeLocked f .none) with chainLock := some p}
  | writeSelect {w : World} {p : Nat} {f : LogFields DateTime} {job : Job} :
      w.txns p = .writeLocked f job →
      Step sha256 w .read (w.set p (.writeTip f job (w.db.logs.getLast?.map Log.id)))
  | writeRead {w : World} {p : Nat} {f : LogFields DateTime} {job : Job} {tip : Option Int} :
      w.txns p = .writeTip f job tip → (∀ id ∈ tip, w.free p id) →
      Step sha256 w .read (w.set p (.writeRead f {job with locked := tip.toList++job.locked}
        (tip.bind (hashOf (relinked job.changed w.db.logs)))))
  | writeInsert {w : World} {p : Nat} {f : LogFields DateTime} {job : Job} {h : Option String} :
      w.txns p = .writeRead f job h →
      Step sha256 w .read
        {w.set p (.writeInserted job ⟨w.db.nextLogId,chainEntry sha256 f h⟩) with
          db := {w.db with nextLogId := w.db.nextLogId+1}}
  | writeCommit {w : World} {p : Nat} {job : Job} {row : Log} :
      w.txns p = .writeInserted job row → job.repairing = false →
      Step sha256 w (.appended row.entry.fields)
        (w.finish p {w.db with logs := relinked job.changed w.db.logs++[row]})
  | repairCommit {w : World} {p : Nat} {job : Job} {row : Log} :
      w.txns p = .writeInserted job row → job.repairing = true →
      Step sha256 w .repaired
        (w.finish p {w.db with logs := relinked job.changed w.db.logs++[row]})
  -- Loading the settings inside write_log may commit the session it is given.
  | repairEarly {w : World} {p : Nat} {f : LogFields DateTime} {job : Job} :
      w.txns p = .writeLocked f job → job.repairing = true →
      Step sha256 w .repaired
        ((w.finish p {w.db with logs := relinked job.changed w.db.logs}).set p (.write f))
  -- audit_spool.defer
  | deferInsert {w : World} {p : Nat} {f : LogFields DateTime} :
      w.txns p = .defer f →
      Step sha256 w .read
        {w.set p (.deferInserted f ⟨w.db.nextPendingId,encode f⟩) with
          db := {w.db with nextPendingId := w.db.nextPendingId+1}}
  | deferCommit {w : World} {p : Nat} {f : LogFields DateTime} {row : PendingAuditLog} :
      w.txns p = .deferInserted f row →
      Step sha256 w (.deferred f) (w.finish p {w.db with
        pending := w.db.pending.orderedInsert (fun a b => a.id ≤ b.id) row})
  -- audit_spool._drain_within
  | drainSelect {w : World} {p : Nat} {limit : Nat} :
      w.txns p = .drain limit → w.db.pending.take limit ≠ [] →
      Step sha256 w .read (w.set p (.drainRead (w.db.pending.take limit)))
  | drainLock {w : World} {p : Nat} {pending : List PendingAuditLog} :
      w.txns p = .drainRead pending → w.chainLock = none →
      Step sha256 w (.chainLocked p) {w.set p (.drainLocked pending) with chainLock := some p}
  | drainTip {w : World} {p : Nat} {pending : List PendingAuditLog} :
      w.txns p = .drainLocked pending →
      Step sha256 w .read (w.set p (.drainTip pending (lastHash w.db.logs)))
  | drainFlush {w : World} {p : Nat} {pending : List PendingAuditLog} {h : Option String}
      {fs : List (LogFields DateTime)} :
      w.txns p = .drainTip pending h → pending.mapM (fun r => decode r.payload) = some fs →
      Step sha256 w .read
        {w.set p (.drainFlushed pending (chainAll sha256 w.db.nextLogId h fs)) with
          db := {w.db with nextLogId := w.db.nextLogId+fs.length}}
  | drainCommit {w : World} {p : Nat} {pending : List PendingAuditLog} {chained : List Log} :
      w.txns p = .drainFlushed pending chained →
      Step sha256 w .drained
        (w.finish p {w.db with
          logs := w.db.logs++chained
          pending := w.db.pending.filter fun r => !pending.any (·.id = r.id)})
  -- one batch of purge_old_audit_logs
  | purgeLock {w : World} {p : Nat} {kept : Log → Bool} :
      w.txns p = .purge kept → w.settingsLock = none → w.db.settings.isSome →
      Step sha256 w .read {w.set p (.purgeSettings kept) with settingsLock := some p}
  | purgeMax {w : World} {p : Nat} {kept : Log → Bool} {log : Log} :
      w.txns p = .purgeSettings kept → w.db.logs.getLast? = some log →
      Step sha256 w .read (w.set p (.purgeMax kept log.id))
  | purgeBound {w : World} {p : Nat} {kept : Log → Bool} {maxId : Int} :
      w.txns p = .purgeMax kept maxId →
      Step sha256 w .read
        (w.set p (.purgeBound (((w.db.logs.find? kept).map Log.id).getD maxId)))
  | purgeIds {w : World} {p : Nat} {bound : Int} {log : Log} :
      w.txns p = .purgeBound bound →
      ((w.db.logs.filter (·.id < bound)).take purgeBatchRows).getLast? = some log →
      Step sha256 w .read (w.set p (.purgeIds log.id))
  | purgeHash {w : World} {p : Nat} {tipId : Int} :
      w.txns p = .purgeIds tipId →
      Step sha256 w .read (w.set p (.purgeHash tipId (hashOf w.db.logs tipId)))
  | purgeDelete {w : World} {p : Nat} {tipId : Int} {tipHash : Option String} :
      w.txns p = .purgeHash tipId tipHash →
      (∀ log ∈ w.db.logs, log.id ≤ tipId → w.free p log.id) →
      Step sha256 w .read (w.set p (.purgeDeleted tipId tipHash))
  | purgeCommit {w : World} {p : Nat} {tipId : Int} {tipHash : Option String} :
      w.txns p = .purgeDeleted tipId tipHash →
      Step sha256 w .cut
        (w.finish p {w.db with
          settings := some tipHash
          logs := w.db.logs.filter (tipId < ·.id)})
  -- repair_audit_chain
  | repairSeed {w : World} {p : Nat} {entry : Int → Nat → LogFields DateTime} :
      w.txns p = .repair entry →
      Step sha256 w .read (w.set p (.repairSeed entry (chainSeedHash w.db)))
  | repairVerify {w : World} {p : Nat} {entry : Int → Nat → LogFields DateTime}
      {seed : Option String} {id : Int} :
      w.txns p = .repairSeed entry seed →
      (verifyAuditChain sha256 seed w.db.logs).firstFailureId = some id →
      Step sha256 w .read (w.set p (.repairVerified entry id))
  | repairLock {w : World} {p : Nat} {entry : Int → Nat → LogFields DateTime} {id : Int} :
      w.txns p = .repairVerified entry id → w.chainLock = none →
      Step sha256 w (.chainLocked p) {w.set p (.repairLocked entry id) with chainLock := some p}
  | repairFrom {w : World} {p : Nat} {entry : Int → Nat → LogFields DateTime} {id : Int} {h : String} :
      w.txns p = .repairLocked entry id →
      lastHash (w.db.logs.filter (·.id < id)) = some h →
      Step sha256 w .read (w.set p (.repairWalk entry id id (some h) [] []))
  | repairPrior {w : World} {p : Nat} {entry : Int → Nat → LogFields DateTime} {id : Int} :
      w.txns p = .repairLocked entry id →
      lastHash (w.db.logs.filter (·.id < id)) = none →
      Step sha256 w .read (w.set p (.repairPrior entry id))
  | repairAnchor {w : World} {p : Nat} {entry : Int → Nat → LogFields DateTime} {id : Int} :
      w.txns p = .repairPrior entry id →
      Step sha256 w .read (w.set p (.repairWalk entry id id (chainSeedHash w.db) [] []))
  | repairSelect {w : World} {p : Nat} {entry : Int → Nat → LogFields DateTime} {id nextId : Int}
      {h : Option String} {locked : List Int} {changed : List Relink} :
      w.txns p = .repairWalk entry id nextId h locked changed →
      Step sha256 w .read (w.set p (.repairWindow entry id nextId h locked changed
        (((w.db.logs.filter (nextId ≤ ·.id)).take repairBatchRows).map Log.id)))
  | repairFetch {w : World} {p : Nat} {entry : Int → Nat → LogFields DateTime} {id nextId : Int}
      {h : Option String} {locked ids : List Int} {changed : List Relink} {last : Log} :
      w.txns p = .repairWindow entry id nextId h locked changed ids →
      (∀ i ∈ ids, w.free p i) →
      ((relinked changed w.db.logs).filter (·.id ∈ ids)).getLast? = some last →
      Step sha256 w .read (w.set p (.repairWalk entry id (last.id+1)
        (relinkWindow sha256 h ((relinked changed w.db.logs).filter (·.id ∈ ids))).1
        (ids++locked)
        (changed++(relinkWindow sha256 h ((relinked changed w.db.logs).filter (·.id ∈ ids))).2)))
  | repairEnd {w : World} {p : Nat} {entry : Int → Nat → LogFields DateTime} {id nextId : Int}
      {h : Option String} {locked ids : List Int} {changed : List Relink} :
      w.txns p = .repairWindow entry id nextId h locked changed ids →
      (relinked changed w.db.logs).filter (·.id ∈ ids) = [] →
      Step sha256 w .read
        (w.set p (.writeLocked (entry id changed.length) ⟨locked,changed,true⟩))

end CircuitBreaker.Audit
