import CircuitBreaker.JournalFinish
import CircuitBreaker.LifecycleRuns

/-! Sequence numbers, generations and the one operation in progress, over every run. -/

namespace CircuitBreaker.Lifecycle
open DiskProgram StepRuns

theorem run_answered (shown : String → String) (p : Step Reply) (s : Store) :
    ∃ es, Run (Moves shown) ⟨s,some p⟩ es ⟨(p.run device s).2,none⟩ := by
  induction p generalizing s with
  | done reply => exact ⟨_,.snoc (.nil _) .answered⟩
  | act a k ih =>
    obtain ⟨es,run⟩ := ih (s.after a).disk (s.after a)
    exact ⟨_,Run.append (.snoc (.nil _) .acted) run⟩

theorem run_call (shown : String → String) (c : Call) (s : Store) :
    ∃ es, Run (Moves shown) ⟨s,none⟩ es ⟨((c.steps shown).run device s).2,none⟩ := by
  obtain ⟨es,run⟩ := run_answered shown (c.steps shown) s
  exact ⟨_,Run.append (.snoc (.nil _) (.locked c)) run⟩

/-- The store a request leaves that is killed after `n` actions. -/
def cut : Nat → Step Reply → Store → Store
  | n+1, .act a k, s => cut n (k (s.after a).disk) (s.after a)
  | _, _, s => s

theorem run_cut (shown : String → String) : ∀ (n : Nat) (p : Step Reply) (s : Store),
    ∃ es, Run (Moves shown) ⟨s,some p⟩ es ⟨cut n p s,none⟩
  | 0, p, s => ⟨_,.snoc (.nil _) .killed⟩
  | _+1, .done _, s => ⟨_,.snoc (.nil _) .answered⟩
  | n+1, .act a k, s => by
    obtain ⟨es,run⟩ := run_cut shown n (k (s.after a).disk) (s.after a)
    exact ⟨_,Run.append (.snoc (.nil _) .acted) run⟩

theorem run_begin (shown : String → String) (c : Call) (s : Store) :
    ∃ es, Run (Moves shown) ⟨s,none⟩ es ⟨cut 8 (c.steps shown) s,none⟩ := by
  obtain ⟨es,run⟩ := run_cut shown 8 (c.steps shown) s
  exact ⟨_,Run.append (.snoc (.nil _) (.locked c)) run⟩

/-! Sequence numbers and generations. -/

/-- The number of an event of operation `op`. -/
def Use.eventNumber (op : String) : Use → Option Nat
  | .event op' n _ => if op' = op then some n else none
  | .record .. => none

/-- The number of a durable record of operation `op`. -/
def Use.recordNumber (op : String) : Use → Option Nat
  | .record op' n => if op' = op then some n else none
  | .event .. => none

theorem eventNumbers_increase {used : List Use} (h : used.Pairwise Use.Before) (op : String) :
    (used.filterMap (Use.eventNumber op)).Pairwise (· < ·) := by
  refine List.pairwise_filterMap.2 (h.imp fun {u v} before m hm n hn => ?_)
  cases u with
  | record => simp [Use.eventNumber] at hm
  | event opu _ _ =>
    cases v with
    | record => simp [Use.eventNumber] at hn
    | event opv _ _ =>
      simp only [Use.eventNumber,Option.ite_none_right_eq_some,Option.some.injEq] at hm hn
      obtain ⟨rfl,rfl⟩ := hm
      obtain ⟨rfl,rfl⟩ := hn
      simpa [Use.Before,Use.op,Use.sequence,Use.isEvent] using before

theorem recordNumbers_increase {used : List Use} (h : used.Pairwise Use.Before) (op : String) :
    (used.filterMap (Use.recordNumber op)).Pairwise (· < ·) := by
  refine List.pairwise_filterMap.2 (h.imp fun {u v} before m hm n hn => ?_)
  cases u with
  | event => simp [Use.recordNumber] at hm
  | record opu _ =>
    cases v with
    | event => simp [Use.recordNumber] at hn
    | record opv _ =>
      simp only [Use.recordNumber,Option.ite_none_right_eq_some,Option.some.injEq] at hm hn
      obtain ⟨rfl,rfl⟩ := hm
      obtain ⟨rfl,rfl⟩ := hn
      simpa [Use.Before,Use.op,Use.sequence,Use.isEvent] using before

theorem holds_operation {s : Store} {op : String} {n : Nat} {j : Journal} (inv : s.Inv)
    (hold : s.disk.Holds op n j) : s.disk.operation op = .ok j := by
  have listed : s.disk.names.contains op = true := by simpa using hold.mem
  simp only [Disk.operation,listed,Bool.not_true,Bool.false_eq_true,if_false,
    readRecord_holds hold (inv.holds_sound hold)]

theorem stale_refused {shown : String → String} {s : Store} {n : Nat} {j : Journal}
    {clock : Nat → Moment} {r : CheckpointRequest} (inv : s.Inv)
    (hold : s.disk.Holds r.operationId n j) (hg : r.expectedGeneration ≠ j.generation) :
    (handleCheckpoint shown clock r.operationId r).run device s =
        (.error (stale r.operationId j.generation r.expectedGeneration),s) ∧
      (handleCheckpoint shown clock r.operationId r).points device s = [(s,.look)] := by
  have same : s.after .look = s := by simp [Store.after,device,Act.apply,Act.uses]
  have found := holds_operation inv hold
  have refused : ∀ counter stamp, nextCheckpoint counter stamp j r =
      .error (stale r.operationId j.generation r.expectedGeneration) := by
    intro counter stamp
    simp [nextCheckpoint,hg]
  have steps : ∃ k : Disk → Step Reply, handleCheckpoint shown clock r.operationId r =
      .act .look k ∧ k s.disk = .done (.error (stale r.operationId j.generation r.expectedGeneration)) := by
    simp only [handleCheckpoint,ne_eq,not_true_eq_false,if_false,Prog.bind_eq,perform_bind]
    refine ⟨_,rfl,?_⟩
    simp only [found,Except.bind,refused]
    rfl
  obtain ⟨k,hs,hk⟩ := steps
  have next : k (device .look s).1 = .done (.error (stale r.operationId j.generation
      r.expectedGeneration)) := hk
  rw [hs]
  refine ⟨?_,?_⟩
  · rw [Prog.run,next]
    exact congrArg (Prod.mk _) same
  · rw [Prog.points,next]
    rfl

/-! One legacy operation, begun on a day of its own, and an event of it. -/

def legacyBegin : Call where
  request := .begin { kind := .legacy, action := .restart, adapter := .native }
  bound := ""
  clock := fun _ => someDay
  suffix := "0"

def firstId : String := "op-20260726-001"

def phaseEmit : EmitRequest where
  operationId := firstId
  type := .phase
  members := [("phase",.str "apply"),("status",.str "started")]
  own := by decide

def emitCall : Call where
  request := .emit phaseEmit
  bound := firstId
  clock := fun _ => someDay
  suffix := ""

def firstLegacy : Journal where
  operationId := firstId
  kind := .legacy
  action := .restart
  adapter := .native
  generation := 1
  planDigest := none
  identityDigest := none
  source := none
  target := none
  recovery := none
  evidence := []
  startedAt := someDay.stamp
  updatedAt := someDay.stamp
  checkpoints := [{ sequence := 1, state := .applying, time := someDay.stamp }]

/-- The disk with the first operation's directory, its counter at `n`. -/
def firstDisk (n : Nat) : Disk := ⟨[(firstId,⟨some n,some firstLegacy⟩)],none⟩

theorem firstDisk_holds (n : Nat) : (firstDisk n).Holds firstId n firstLegacy :=
  ⟨by decide,by simp [Disk.dir,firstDisk]⟩

theorem cut_look (n : Nat) (k : Disk → Step Reply) (s : Store) :
    cut (n+1) (.act .look k) s = cut n (k s.disk) s := by
  have same : s.after .look = s := by simp [Store.after,device,Act.apply,Act.uses]
  rw [cut,same]

section
variable {r : BeginRequest} {s : Store} {found records : List Record} {warnings : List String}
  {op : String} {j : Journal} {event : Json}

variable (records warnings) in
/-- A begin that is free to go on, as far as what it publishes. -/
theorem cut_begin {m : Nat} (clean : s.disk.names.filter staging = [])
    (read : s.disk.readRecords = found)
    (back : ∀ n f, cut (n+m) ((reconcile (fun _ => someDay) "" 0 found).bind f) s =
      cut n (f (records,warnings)) s)
    (free : blocking id r.kind records = [])
    (prepared : prepare someDay s.disk.names r = .ok (op,j,event)) (n : Nat) :
    cut (n+1+m+1+1) (Call.steps id ⟨.begin r,"",fun _ => someDay,"0"⟩) s =
      cut n (publish id someDay "0" op j event records
        (warnings ++ beginWarnings id r.kind records)) s := by
  simp only [Call.steps,handleBegin,ne_eq,not_true_eq_false,if_false,Prog.bind_eq,perform_bind]
  rw [cut_look,clean,removeAll,Prog.pure_eq,Prog.done_bind,cut_look,read,back]
  simp only [free,not_true_eq_false,if_false]
  rw [cut_look,prepared]

end

/-- What a begin publishes, where its journal and its event are valid. -/
theorem prepare_valid {r : BeginRequest} (op : String) (names : List String) {j : Journal}
    (named : idName someDay.dayName (todayIds names someDay.dayName+1) = op ∧
      todayIds names someDay.dayName+1 ≤ 999999999)
    (first : firstJournal op someDay.stamp r = .ok j)
    (told : (checkpointEvent j
      { sequence := 1, state := initialState r.kind, time := someDay.stamp }).toOption.isSome = true) :
    ∃ event, prepare someDay names r = .ok (op,j,event) := by
  cases event : checkpointEvent j
      { sequence := 1, state := initialState r.kind, time := someDay.stamp } with
  | error e => simp [event,Except.toOption] at told
  | ok e =>
    refine ⟨e,?_⟩
    simp only [prepare,named.1,if_neg (Nat.not_lt.2 named.2),first]
    simp [bind,Except.bind,event,pure,Except.pure]

/-- The request of the begins here. -/
def bareRequest (kind : Kind) (plan : Option String) : BeginRequest :=
  { kind := kind, action := .restart, adapter := .native, planDigest := plan }

def bareJournal (op stamp : String) (kind : Kind) (plan : Option String) : Journal :=
  { firstLegacy with operationId := op, kind := kind, planDigest := plan, startedAt := stamp,
                     updatedAt := stamp,
                     checkpoints := [{ sequence := 1, state := initialState kind, time := stamp }] }

theorem first_bare {op stamp : String} {kind : Kind} {plan : Option String}
    (valid : (bareJournal op stamp kind plan).validate = none) :
    firstJournal op stamp (bareRequest kind plan) = .ok (bareJournal op stamp kind plan) := by
  simp only [firstJournal,bareRequest,readVersion,release,RecoveryRequest.read,EvidenceRequest.read,
    bind,Except.bind,pure,Except.pure,Option.isNone_none,if_true,Option.toList,Option.map]
  simp only [bareJournal,firstLegacy] at valid ⊢
  rw [valid]
  rfl

theorem bareJournal_valid {op : String} (kind : Kind) (plan : Option String)
    (named : operationIdNode.valid (.str op) = true)
    (planned : ∀ d, plan = some d → digestNode.valid (.str d) = true)
    (rules : journalRules (bareJournal op someDay.stamp kind plan) = none) :
    (bareJournal op someDay.stamp kind plan).validate = none := by
  refine bare_valid (⟨rfl,rfl,rfl,rfl,rfl,rfl,rfl,?_,?_,?_,?_⟩ : Journal.Bare _ someDay) named planned
    rules <;>
    simp [bareJournal,firstLegacy,maxSafe]

theorem legacy_prepared (op : String) (names : List String)
    (named : idName someDay.dayName (todayIds names someDay.dayName+1) = op ∧
      todayIds names someDay.dayName+1 ≤ 999999999)
    (valid : operationIdNode.valid (.str op) = true)
    (told : (checkpointEvent (bareJournal op someDay.stamp .legacy none)
      { sequence := 1, state := .applying, time := someDay.stamp }).toOption.isSome = true) :
    ∃ event, prepare someDay names (bareRequest .legacy none) =
      .ok (op,bareJournal op someDay.stamp .legacy none,event) :=
  prepare_valid op names named (first_bare (bareJournal_valid .legacy none valid nofun rfl)) told

set_option maxRecDepth 4000

theorem first_begun : ∃ es s, Run (Moves id) {} es ⟨s,none⟩ ∧ s.disk = firstDisk 1 ∧
    s.used.map Use.sequence = [1,1] := by
  obtain ⟨es,run⟩ := run_begin id legacyBegin {}
  obtain ⟨event,prepared⟩ := legacy_prepared firstId [] (by decide)
    (by decide) (by decide)
  have published := cut_begin [] [] (m := 0) (s := {}) rfl rfl (fun _ _ => rfl) rfl prepared
    5
  refine ⟨es,_,run,?_,?_⟩
  · exact (congrArg Store.disk published).trans rfl
  · exact (congrArg (fun s : Store => s.used.map Use.sequence) published).trans rfl

theorem phaseEvent_valid {n : Nat} (pos : 1 ≤ n) (safe : (n : Int) ≤ maxSafe) :
    validateEvent (phaseEmit.event n someDay) = none := by
  have plain : (phaseEmit.event n someDay).plain 0 = true := by
    have keys : ["schema_version","operation_id","sequence","at","source","type","phase","status"].all
        keyOk = true := by decide
    simp only [List.all_cons,List.all_nil,Bool.and_true,Bool.and_eq_true] at keys
    simp [EmitRequest.event,emittedMembers,phaseEmit,Json.plain,plainMembers,plain_str,keys,
      safe,Scalar.safe,maxDepth,Json.int]
    decide
  obtain ⟨text,ht⟩ := plain_canonical "" plain
  have size := (canonical_plain ht).2
  have bytes : (phaseEmit.event n someDay).bytes ≤ 4096 := by
    have number := nat_size safe
    have rest : (phaseEmit.event 0 someDay).bytes ≤ 1000 := by decide
    simp only [EmitRequest.event,Json.bytes,List.cons_append,memberBytes] at rest ⊢
    omega
  have schema : eventNode.valid (phaseEmit.event n someDay) = true := by
    have fixed : (nullable operationIdNode).valid (.str firstId) = true ∧
        (enumOf ["coordinator","native"]).valid (.str "native") = true ∧
        (enumOf ["phase","progress","checkpoint","diagnostic"]).valid (.str "phase") = true ∧
        (enumOf ["preflight","resolve","download","verify","stage","backup","stop","apply",
          "migrate","start","health","commit","recover","remove","cleanup"]).valid
            (.str "apply") = true ∧
        (enumOf ["started","completed","failed","skipped"]).valid (.str "started") = true ∧
        (constNode (.int 1)).valid (.int 1) = true := by decide
    have sequence : (integerFrom 1).valid (.int n) = true := valid_integerFrom.2 (by omega)
    rw [eventNode,EmitRequest.event,valid_closedObject (by simp)]
    simp [List.lookup_cons,emittedMembers,phaseEmit,EventType.name,fixed,stamp_valid someDay,sequence,
      eventRequired]
  have rules : eventRules (phaseEmit.event n someDay) = none := by rfl
  exact assertValid_eq_none.2 ⟨text,ht,Nat.le_trans size bytes,by rfl,schema,rules⟩

theorem phaseEvent_emitted {n : Nat} (pos : 1 ≤ n) (safe : (n : Int) ≤ maxSafe) :
    emittedEvent phaseEmit n someDay = .ok (phaseEmit.event n someDay) := by
  have valid := phaseEvent_valid pos safe
  dsimp only [emittedEvent]
  rw [valid]
  rfl

theorem emit_first {s : Store} {n : Nat} (inv : s.Inv) (h : s.disk = firstDisk n)
    (safe : ((n+1 : Nat) : Int) ≤ maxSafe) :
    ((emitCall.steps id).run device s).2.disk = firstDisk (n+1) ∧
      ((emitCall.steps id).run device s).2.used =
        s.used ++ [.event firstId (n+1) (phaseEmit.event (n+1) someDay)] := by
  have hold : s.disk.Holds firstId n firstLegacy := h ▸ firstDisk_holds n
  have sound := inv.holds_sound hold
  have found := holds_operation inv hold
  have counter := readCounter_holds hold sound
  have emitted := phaseEvent_emitted (Nat.le_add_left 1 n) safe
  have steps : ∃ k : Disk → Step Reply, emitCall.steps id = .act .look k ∧ ∃ reply,
      k s.disk = .act (.writeSequence firstId (n+1)) fun _ =>
        .act (.writeEvent firstId (n+1) (phaseEmit.event (n+1) someDay)) fun _ => .done reply := by
    have named : phaseEmit.operationId = firstId := rfl
    simp only [Call.steps,emitCall,handleEmit,named,ne_eq,not_true_eq_false,if_false,
      Prog.bind_eq,perform_bind]
    refine ⟨_,rfl,.ok ["operation_id=" ++ firstId,"sequence=" ++ toString (n+1),
      eventLine (phaseEmit.event (n+1) someDay)],?_⟩
    simp only [found,Except.bind,counter,nextSequence_eq sound,emitted]
    rfl
  obtain ⟨k,hs,reply,hk⟩ := steps
  have next : k (device .look s).1 = _ := hk
  rw [hs,Prog.run,next]
  simp [Prog.run,device,firstDisk,Act.apply,Act.uses,Disk.change,h]

/-- No sequence number of an operation is spent twice, whatever the order of the requests
and wherever they are killed: the numbers of its records and events increase, an event
sharing a number only with the record it tells of; nothing a journal holds is lost later,
and a checkpoint of a stale generation changes nothing. -/
theorem sequence_numbers_spent_once {shown : String → String} {es : List Happening} {h : Host}
    (run : Run (Moves shown) {} es h) :
    h.store.used.Pairwise Use.Before ∧
    (∀ op, (h.store.used.filterMap (Use.eventNumber op)).Pairwise (· < ·) ∧
      (h.store.used.filterMap (Use.recordNumber op)).Pairwise (· < ·)) ∧
    (∀ fs h', Run (Moves shown) h fs h' →
      h.store.disk.Grows h'.store.disk ∧ h.store.used <+: h'.store.used) ∧
    (∀ clock bound r, Recorded r ((handleCheckpoint shown clock bound r).run device h.store).1
      ((handleCheckpoint shown clock bound r).run device h.store).2) ∧
    ∀ clock (r : CheckpointRequest) n j, h.store.disk.Holds r.operationId n j →
      r.expectedGeneration ≠ j.generation →
      (handleCheckpoint shown clock r.operationId r).run device h.store =
          (.error (stale r.operationId j.generation r.expectedGeneration),h.store) ∧
        (handleCheckpoint shown clock r.operationId r).points device h.store =
          [(h.store,.look)] := by
  have safe := run_safe run
  refine ⟨safe.inv.ordered,fun op => ?_,fun fs h' => run_grows safe,fun clock bound r => ?_,
    fun clock r n j hold hg => stale_refused safe.inv hold hg⟩
  · exact ⟨eventNumbers_increase safe.inv.ordered op,recordNumbers_increase safe.inv.ordered op⟩
  · exact ((Prog.wp_iff device Allowed _ _ _).1 (handleCheckpoint_wp (Q := Recorded r)
      safe.inv fun _ _ _ recorded => recorded)).2

theorem sequence_numbers_spent_once_emitting : ∃ es h, Run (Moves id) {} es h ∧
    h.store.used.map Use.sequence = [1,1,2] ∧
    (h.store.used.filterMap (Use.eventNumber firstId)).Pairwise (· < ·) := by
  obtain ⟨es,s,run,hd,hu⟩ := first_begun
  obtain ⟨fs,run'⟩ := run_call id emitCall s
  have whole := Run.append run run'
  have used := (emit_first (run_safe run).inv hd (by decide)).2
  refine ⟨_,_,whole,?_,((sequence_numbers_spent_once whole).2.1 firstId).1⟩
  rw [used,List.map_append,hu]
  rfl

/-! The operation in progress. -/

/-- At most one record in progress has sequence numbers left; a begin is refused while a
transaction is unfinished, unless it had changed nothing and the begin closed it first; and
an operation is only issued under an id that nothing has used, with no other one live. -/
theorem one_operation_in_progress {shown : String → String} {es : List Happening} {h : Host}
    (run : Run (Moves shown) {} es h) :
    (∀ a b, h.store.disk.Live a → h.store.disk.Live b → a = b) ∧
    (∀ (c : Call) (r : BeginRequest), c.request = .begin r → h.store.disk.Blocked →
      ∃ e, ((c.steps shown).run device h.store).1 = .error e) ∧
    (∀ source op k, h.holder = some (.act (.replace source op) k) →
      op ∉ h.store.disk.names ∧ (∀ u ∈ h.store.used, u.op ≠ op) ∧
        (∀ m, ¬h.store.disk.Live m) ∧ ∀ m, ¬h.store.disk.Pending m) ∧
    ∀ fs h', Run (Moves shown) h fs h' → ∀ op n j, h.store.disk.Holds op n j →
      op ∈ h'.store.disk.names := by
  have safe := run_safe run
  refine ⟨safe.inv.single,fun c r hr blocked => ?_,fun source op k hk => ?_,
    fun fs h' further op n j hold => ?_⟩
  · have wp : (c.steps shown).wp device Allowed (fun out _ => ∃ e, out = .error e) h.store := by
      simp only [Call.steps,hr]
      exact handleBegin_wp safe.inv fun out s' _ refused => refused blocked
    exact ((Prog.wp_iff device Allowed _ _ _).1 wp).2
  · obtain ⟨fresh,idle,clear⟩ := (safe.holder _ hk).1.issues source op rfl
    refine ⟨fresh,fun u hu he => ?_,idle,clear⟩
    obtain ⟨n,j,hold,-⟩ := safe.inv.spent u hu
    exact fresh (he ▸ hold.mem)
  · obtain ⟨m,t,hold',-⟩ := (run_grows safe further).1 op n j hold
    exact hold'.mem

theorem one_operation_in_progress_legacy : ∃ es h, Run (Moves id) {} es h ∧
    h.store.disk.Live firstId ∧ ∀ b, h.store.disk.Live b → b = firstId := by
  obtain ⟨es,s,run,hd,-⟩ := first_begun
  have live : s.disk.Live firstId :=
    ⟨1,firstLegacy,hd ▸ firstDisk_holds 1,by decide,by decide⟩
  exact ⟨es,⟨s,none⟩,run,live,fun b hb => (one_operation_in_progress run).1 b firstId hb live⟩

/-! Two in progress: an operation whose numbers are used up cannot be closed. -/

theorem reach_first {n : Nat} (pos : 1 ≤ n) (safe : (n : Int) ≤ maxSafe) :
    ∃ es s, Run (Moves id) {} es ⟨s,none⟩ ∧ s.disk = firstDisk n := by
  induction n, pos using Nat.le_induction with
  | base =>
    obtain ⟨es,s,run,hd,-⟩ := first_begun
    exact ⟨es,s,run,hd⟩
  | succ n pos ih =>
    obtain ⟨es,s,run,first⟩ := ih (by omega)
    obtain ⟨fs,run'⟩ := run_call id emitCall s
    exact ⟨_,_,Run.append run run',(emit_first (run_safe run).inv first safe).1⟩

/-! What a request makes of the disk does not depend on what has been used. -/

theorem cut_disk : ∀ (n : Nat) (p : Step Reply) (s : Store),
    (cut n p s).disk = (cut n p ⟨s.disk,[]⟩).disk
  | 0, _, _ => rfl
  | _+1, .done _, _ => rfl
  | n+1, .act a k, s => by
    have left := cut_disk n (k (s.after a).disk) (s.after a)
    have right := cut_disk n (k (s.after a).disk) (Store.after ⟨s.disk,[]⟩ a)
    exact left.trans right.symm

theorem run_reply {α : Type} (p : Step α) (s : Store) :
    (p.run device s).1 = (p.run device ⟨s.disk,[]⟩).1 := by
  induction p generalizing s with
  | done a => rfl
  | act a k ih => exact (ih _ (s.after a)).trans (ih _ (Store.after ⟨s.disk,[]⟩ a)).symm

def Disk.InProgress (d : Disk) (name : String) : Prop :=
  ∃ n j, d.Holds name n j ∧ j.inProgress = true

def secondId : String := "op-20260726-002"

def secondLegacy : Journal := { firstLegacy with operationId := secondId }

theorem firstDisk_sound {n : Nat} (pos : 1 ≤ n) (safe : (n : Int) ≤ maxSafe) :
    Sound firstId n firstLegacy :=
  ⟨bareJournal_valid .legacy none (by decide) nofun rfl,rfl,by decide,pos,safe⟩

theorem readRecords_single {n : Nat} {j : Journal} (sound : Sound firstId n j) :
    Disk.readRecords ⟨[(firstId,⟨some n,some j⟩)],none⟩ = [{ name := firstId, journal := some j }] := by
  have hold : Disk.Holds ⟨[(firstId,⟨some n,some j⟩)],none⟩ firstId n j :=
    ⟨by decide,by simp [Disk.dir]⟩
  have visible : hidden firstId = false := hold.1
  simp [Disk.readRecords,Disk.names,visible,readRecord_holds hold sound]

section
variable {record : Record} {j : Journal} {c : Checkpoint} {s : Store} {n : Nat} {e : ContractError}

theorem cut_refused (left : record.leftover "" = some (j,c))
    (counter : s.disk.readCounter record.name = n)
    (refused : (j.append (j.abandonment c n someDay.stamp) someDay.stamp).validate = some e) (m : Nat)
    (f : List Record × List String → Step Reply) :
    cut (m+1) ((reconcile (fun _ => someDay) "" 0 [record]).bind f) s = cut m (f ([record],
      [record.name ++ ": its process is gone, and its journal has no legal interrupted record"])) s := by
  simp only [reconcile,left,abandon,Prog.bind_eq,perform_bind,Prog.act_bind,cut_look,counter]
  rw [refused]
  rfl

theorem run_look (k : Disk → Step Reply) (s : Store) :
    (Prog.act .look k).run device s = (k s.disk).run device s := by
  have same : device .look s = (s.disk,s) := by simp [device,Act.apply,Act.uses]
  rw [Prog.run,same]

theorem run_closed (left : record.leftover "" = some (j,c))
    (counter : s.disk.readCounter record.name = n)
    (valid : (j.append (j.abandonment c n someDay.stamp) someDay.stamp).validate = none)
    (f : List Record × List String → Step Reply) :
    ∃ s', s'.disk.names = s.disk.names ∧
      ((reconcile (fun _ => someDay) "" 0 [record]).bind f).run device s =
        (f ([{ name := record.name,
               journal := some (j.append (j.abandonment c n someDay.stamp) someDay.stamp) }],[])).run
          device s' := by
  refine ⟨(s.after (.writeSequence record.name (j.abandonment c n someDay.stamp).sequence)).after
    (.writeJournal record.name (j.append (j.abandonment c n someDay.stamp) someDay.stamp)),?_,?_⟩
  · simp only [Store.after,device,Act.apply,names_change]
  · simp only [reconcile,left,abandon,Prog.bind_eq,perform_bind,Prog.act_bind,run_look,counter]
    rw [valid]
    rfl

end

theorem firstId_kept : [firstId].filter staging = [] := by decide

theorem second_begun {n : Nat} (full : (n : Int) = maxSafe) :
    (cut 8 (legacyBegin.steps id) ⟨firstDisk n,[]⟩).disk.operations =
      [(firstId,⟨some n,some firstLegacy⟩),(secondId,⟨some 1,some secondLegacy⟩)] := by
  have sound : Sound firstId n firstLegacy :=
    firstDisk_sound (by simp only [maxSafe] at full; omega) (Int.le_of_eq full)
  have counter := readCounter_holds (firstDisk_holds n) sound
  have read : (firstDisk n).readRecords = _ := readRecords_single sound
  have names : (firstDisk n).names = [firstId] := rfl
  have clean : (firstDisk n).names.filter staging = [] := names ▸ firstId_kept
  obtain ⟨event,prepared⟩ := legacy_prepared secondId [firstId]
    (by decide) (by decide) (by decide)
  have left : Record.leftover { name := firstId, journal := some firstLegacy } "" =
      some (firstLegacy,{ sequence := 1, state := .applying, time := someDay.stamp }) := rfl
  cases refused : (firstLegacy.append (firstLegacy.abandonment
      { sequence := 1, state := .applying, time := someDay.stamp } n someDay.stamp)
        someDay.stamp).validate with
  | none => exact absurd refused (abandonment_refused sound (by omega) _)
  | some e =>
    rw [←names] at prepared
    have published := cut_begin _ _ (s := ⟨firstDisk n,[]⟩) clean read
      (cut_refused left counter refused) rfl prepared 4
    exact (congrArg (fun s : Store => s.disk.operations) published).trans rfl

def somePlan : String := String.ofList ("sha256:".toList ++ List.replicate 64 '0')

def transactionBegin : Call where
  request := .begin { kind := .transaction, action := .restart, adapter := .native,
                      planDigest := some somePlan }
  bound := ""
  clock := fun _ => someDay
  suffix := "0"

def firstTransaction : Journal :=
  { firstLegacy with kind := .transaction, planDigest := some somePlan,
                     checkpoints := [{ sequence := 1, state := .planned, time := someDay.stamp }] }

theorem always_of {A R α : Type} {Q : α → Prop} (h : ∀ a, Q a) (p : Prog A R α) : p.Always Q := by
  induction p with
  | done a => exact h a
  | act a k ih => exact fun r => ih r

theorem publish_answers (shown : String → String) (later : Moment) (suffix op : String) (j : Journal)
    (event : Json) (records : List Record) (warnings : List String) :
    (publish shown later suffix op j event records warnings).Always
      fun reply => reply.toOption.isSome = true := by
  simp only [publish,Prog.bind_eq,perform_bind,Prog.Always,Prog.always_bind]
  intro _ _ _ _ _
  exact always_of (fun _ => rfl) _

theorem begin_answers {r : BeginRequest} {s : Store} {found records : List Record} {warnings : List String}
    {op : String} {j : Journal} {event : Json} (clean : s.disk.names.filter staging = [])
    (read : s.disk.readRecords = found)
    (back : ∀ f : List Record × List String → Step Reply, ∃ s', s'.disk.names = s.disk.names ∧
      ((reconcile (fun _ => someDay) "" 0 found).bind f).run device s =
        (f (records,warnings)).run device s')
    (free : blocking id r.kind records = [])
    (prepared : prepare someDay s.disk.names r = .ok (op,j,event)) :
    ((Call.steps id ⟨.begin r,"",fun _ => someDay,"0"⟩).run device s).1.toOption.isSome = true := by
  simp only [Call.steps,handleBegin,ne_eq,not_true_eq_false,if_false,Prog.bind_eq,perform_bind]
  rw [run_look,clean,removeAll,Prog.pure_eq,Prog.done_bind,run_look,read]
  obtain ⟨s',names,eq⟩ := back _
  rw [eq]
  simp only [free,not_true_eq_false,if_false]
  rw [run_look,names,prepared]
  have answers := publish_answers id someDay "0" op j event records
    (warnings ++ beginWarnings id r.kind records)
  exact answers.run device s'

theorem transaction_sound : Sound firstId 1 firstTransaction := by
  refine ⟨bareJournal_valid .transaction (some somePlan) (by decide)
    (fun d hd => ?_) rfl,rfl,by decide,by decide,by decide⟩
  obtain rfl := Option.some.inj hd
  decide

theorem transaction_begun : ∃ es s, Run (Moves id) {} es ⟨s,none⟩ ∧
    s.disk = ⟨[(firstId,⟨some 1,some firstTransaction⟩)],none⟩ := by
  obtain ⟨es,run⟩ := run_begin id transactionBegin {}
  obtain ⟨event,prepared⟩ := prepare_valid (r := bareRequest .transaction (some somePlan))
    firstId [] (by decide) (first_bare transaction_sound.valid)
    (by decide)
  have published := cut_begin [] [] (m := 0) (s := {}) rfl rfl (fun _ _ => rfl) rfl prepared
    5
  exact ⟨es,_,run,(congrArg Store.disk published).trans rfl⟩

theorem begun_after_planned :
    ((legacyBegin.steps id).run device
      ⟨⟨[(firstId,⟨some 1,some firstTransaction⟩)],none⟩,[]⟩).1.toOption.isSome = true := by
  obtain ⟨event,prepared⟩ := legacy_prepared secondId [firstId]
    (by decide) (by decide) (by decide)
  have hold : Disk.Holds ⟨[(firstId,⟨some 1,some firstTransaction⟩)],none⟩ firstId 1 firstTransaction :=
    ⟨by decide,by simp [Disk.dir]⟩
  have counter := readCounter_holds hold transaction_sound
  have left : Record.leftover { name := firstId, journal := some firstTransaction } "" =
      some (firstTransaction,{ sequence := 1, state := .planned, time := someDay.stamp }) := rfl
  have valid := (abandonment_next transaction_sound
    (c := { sequence := 1, state := .planned, time := someDay.stamp }) rfl rfl (by decide) someDay).sound.valid
  have back := run_closed (s := ⟨⟨[(firstId,⟨some 1,some firstTransaction⟩)],none⟩,[]⟩) left counter valid
  have free : blocking id .legacy [{ name := firstId, journal := some (firstTransaction.append
      (firstTransaction.abandonment { sequence := 1, state := .planned, time := someDay.stamp } 1
        someDay.stamp) someDay.stamp) }] = [] := by
    simp [blocking,Journal.finished,Journal.last,Journal.append,Journal.abandonment,preMutation]
  have call : legacyBegin = ⟨.begin (bareRequest .legacy none),"",fun _ => someDay,"0"⟩ := rfl
  have read := readRecords_single transaction_sound
  have answers := begin_answers (r := bareRequest .legacy none)
    (s := ⟨⟨[(firstId,⟨some 1,some firstTransaction⟩)],none⟩,[]⟩) firstId_kept read back free prepared
  rw [call]
  exact answers

/-- Two operations in progress, and a begin that is accepted while a transaction is
unfinished: it is closed first. -/
theorem two_operations_in_progress :
    (∃ es h, Run (Moves id) {} es h ∧ firstId ≠ secondId ∧
      h.store.disk.InProgress firstId ∧ h.store.disk.InProgress secondId) ∧
    ∃ es h, Run (Moves id) {} es h ∧ h.holder = none ∧ h.store.disk.Pending firstId ∧
      ∃ lines, ((legacyBegin.steps id).run device h.store).1 = .ok lines := by
  refine ⟨?_,?_⟩
  · obtain ⟨es,s,run,hs⟩ := reach_first (n := 9007199254740991) (by decide) (by decide)
    obtain ⟨fs,run'⟩ := run_begin id legacyBegin s
    have listed := second_begun (n := 9007199254740991) rfl
    rw [←hs,←cut_disk] at listed
    generalize cut 8 (legacyBegin.steps id) s = t at run' listed
    have first : t.disk.Holds firstId 9007199254740991 firstLegacy :=
      ⟨by decide,by simp [Disk.dir,listed]⟩
    have second : t.disk.Holds secondId 1 secondLegacy :=
      ⟨by decide,by simp only [Disk.dir,listed]; rfl⟩
    exact ⟨_,_,Run.append run run',by decide,⟨_,_,first,by decide⟩,⟨_,_,second,by decide⟩⟩
  · obtain ⟨es,s,run,hs⟩ := transaction_begun
    have hold : s.disk.Holds firstId 1 firstTransaction := ⟨by decide,by simp [Disk.dir,hs]⟩
    have accepted := begun_after_planned
    rw [←hs,←run_reply] at accepted
    refine ⟨es,⟨s,none⟩,run,rfl,⟨1,firstTransaction,hold,by decide⟩,?_⟩
    cases hr : ((legacyBegin.steps id).run device s).1 with
    | ok lines => exact ⟨lines,rfl⟩
    | error e => simp [hr,Except.toOption] at accepted

end CircuitBreaker.Lifecycle
