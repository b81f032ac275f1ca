import CircuitBreaker.JournalRules
import CircuitBreaker.StepRuns

/-! Whether an open journal can still be closed. -/

namespace CircuitBreaker.Lifecycle
open StepRuns List

/-! Closing an open journal. -/

variable {j : Journal}

theorem nextJournal_append {counter : Nat} {stamp : String} {r : CheckpointRequest}
    {error : Option JournalError} (he : entryError r = .ok error) (hr : r.recovery = {})
    (hv : r.evidence = {})
    (place : j.place (j.entry counter stamp r error) =
      j.checkpoints ++ [j.entry counter stamp r error]) :
    nextJournal counter stamp j r =
      (validOrUsage (j.append (j.entry counter stamp r error) stamp).validate).map fun _ =>
        (j.append (j.entry counter stamp r error) stamp,j.entry counter stamp r error) := by
  simp only [nextJournal,he,hr,hv,bind,Except.bind,RecoveryRequest.read,EvidenceRequest.read,
    Journal.nextRecovery,place,pure,Except.pure,Option.isNone_none,if_true,Option.toList_none,
    append_nil,Journal.append]
  generalize validOrUsage _ = verdict
  cases verdict <;> rfl

def someDay : Moment where
  year := 2026
  month := 7
  day := 26
  hour := 12
  minute := 0
  second := 0
  micro := 0
  inYear := by decide
  real := by decide
  inHour := by decide
  inMinute := by decide
  inSecond := by decide
  inMicro := by decide

def byHand : String := "resolved by hand"

theorem byHand_kept : redactText byHand 256 false = byHand ∧
    briefTextNode.valid (.str byHand) = true := by
  decide

def closing (state : State) (cause : Option Cause) (outcome : Option Outcome)
    (code : Option ExitName) : CheckpointRequest where
  operationId := ""
  expectedGeneration := 0
  state := state
  cause := cause
  outcome := outcome
  errorCode := code
  errorReason := code.map fun _ => byHand

/-- The record it makes after a record of sequence `n`. -/
def closingRecord (n : Nat) (stamp : String) (state : State) (cause : Option Cause)
    (outcome : Option Outcome) (code : Option ExitName) : Checkpoint where
  sequence := n+1
  state := state
  time := stamp
  cause := cause
  outcome := outcome
  error := code.map fun x => ⟨x,byHand⟩

variable {c : Checkpoint}

theorem closing_accepted (now : Moment) {state : State}
    {cause : Option Cause} {outcome : Option Outcome} {code : Option ExitName}
    (valid : j.validate = none) (last : j.last = some c) (opened : c.outcome = none)
    (safe : ((c.sequence+1 : Nat) : Int) ≤ maxSafe)
    (room : ((j.generation+1 : Nat) : Int) ≤ maxSafe)
    (plain : state ≠ .interrupted ∧ state ≠ .recovering)
    (rules : checkpointRules (closingRecord c.sequence now.stamp state cause outcome code) "" = none)
    (manual : outcome = some .manual → c.state = .recoveryRequired)
    (legal : c.state = state ∧ (outcome = some .refused ∨ outcome = some .manual) ∨
      state ∈ transitions j.kind c.state ∧ c.state ≠ state ∧ state ≠ .applying ∧
        state ≠ .recoverySaved) :
    let d := closingRecord c.sequence now.stamp state cause outcome code
    checkpointStep j ⟨0,now,closing state cause outcome code⟩ (j.append d now.stamp) ∧
      (j.append d now.stamp).validate = none := by
  intro d
  have ruled := journalRules_ruled (validate_sound valid).2.2 last
  have follows : Follows j.kind j.action c d
      (nextAttempts c d (attemptsAfter none 0 j.checkpoints)) := by
    refine ⟨opened,Nat.lt_succ_self _,fun h => absurd h plain.1,manual,?_,?_,?_⟩
    · intro h
      simp [startsAttempt,d,closingRecord,plain.2] at h
    · intro same
      rcases legal with ⟨-,h|h⟩|⟨-,h,-⟩
      · exact .inr (.inl ⟨h,rfl⟩)
      · exact .inr (.inr ⟨h,rfl⟩)
      · exact absurd same h
    · intro ne
      rcases legal with ⟨h,-⟩|⟨h,-,h',-⟩
      · exact absurd h ne
      · exact ⟨h,fun _ ha => absurd ha h'⟩
  have conforms : d.Conforms := by
    refine ⟨by simp [d,closingRecord],stamp_valid now,by simp [d,closingRecord],?_⟩
    cases code <;> simp [d,closingRecord,byHand_kept.2]
  have saved : d.state = .recoverySaved → c.state = .recoverySaved := by
    intro h
    rcases legal with ⟨hs,-⟩|⟨-,-,-,hs⟩
    · exact hs.trans h
    · exact absurd h hs
  have updated := append_validate valid last rules follows conforms safe room saved (stamp_valid now)
  have error : entryError (closing state cause outcome code) = .ok (code.map fun x => ⟨x,byHand⟩) := by
    cases code <;> simp [entryError,closing,byHand_kept.1]
  have entry : j.entry 0 now.stamp (closing state cause outcome code) (code.map fun x => ⟨x,byHand⟩) =
      d := by
    simp [Journal.entry,closing,d,closingRecord,Journal.nextSequence,durable_eq ruled,plain.1]
  have place : j.place d = j.checkpoints ++ [d] := by
    simp [Journal.place,d,closingRecord]
  refine ⟨⟨d,?_⟩,updated⟩
  rw [nextJournal_append (r := closing state cause outcome code) error rfl rfl (entry ▸ place),entry,
    updated]
  rfl

def closingRecords : List (State × Option Cause × Option Outcome × Option ExitName) :=
  (preMutation.map fun s => (s,none,some .refused,some .preflight)) ++
    [(.checking,none,none,none),(.committed,none,some .committed,none),
      (.recovered,none,some .recovered,some .recovered),
      (.recoveryRequired,some .applyFailed,none,some .manual),
      (.recoveryRequired,some .applyFailed,some .manual,some .manual)]

theorem closingRecord_rules {n : Nat} {stamp : String} {state : State} {cause : Option Cause}
    {outcome : Option Outcome} {code : Option ExitName}
    (h : (state,cause,outcome,code) ∈ closingRecords) :
    checkpointRules (closingRecord n stamp state cause outcome code) "" = none := by
  simp only [closingRecords,preMutation,map_cons,map_nil,cons_append,
    nil_append,mem_cons,not_mem_nil,or_false,Prod.mk.injEq] at h
  rcases h with ⟨rfl,rfl,rfl,rfl⟩|⟨rfl,rfl,rfl,rfl⟩|⟨rfl,rfl,rfl,rfl⟩|⟨rfl,rfl,rfl,rfl⟩|
      ⟨rfl,rfl,rfl,rfl⟩|⟨rfl,rfl,rfl,rfl⟩|⟨rfl,rfl,rfl,rfl⟩|⟨rfl,rfl,rfl,rfl⟩|⟨rfl,rfl,rfl,rfl⟩ <;>
    simp [checkpointRules,causeRules,allowedCauses,outcomeRules,closingRule,errorRules,
      closingRecord,Checkpoint.needsError,Checkpoint.errorAs,State.name,errorCodeProblem,
      Checkpoint.early,preMutation,failIf]

theorem append_finished (j : Journal) (d : Checkpoint) (stamp : String) :
    (j.append d stamp).finished = d.outcome.isSome := by
  simp [Journal.finished,Journal.last,Journal.append]

/-- The records an open journal in `state` still needs: a transaction that is applying
is first checked, and an interrupted one first requires recovery. -/
def recordsToClose (kind : Kind) (state : State) : Nat :=
  if state = .interrupted ∨ kind = .transaction ∧ state = .applying then 2 else 1

structure Journal.Room (j : Journal) (c : Checkpoint) : Prop where
  sequence : ((c.sequence+recordsToClose j.kind c.state : Nat) : Int) ≤ maxSafe
  generation : ((j.generation+recordsToClose j.kind c.state : Nat) : Int) ≤ maxSafe

section
variable {j : Journal} {c : Checkpoint} (valid : j.validate = none) (last : j.last = some c)
  (opened : c.outcome = none)
include valid last opened

theorem closes_at_once (state : State) (cause : Option Cause) (outcome : Outcome)
    (code : Option ExitName) (safe : ((c.sequence+1 : Nat) : Int) ≤ maxSafe)
    (room : ((j.generation+1 : Nat) : Int) ≤ maxSafe)
    (plain : state ≠ .interrupted ∧ state ≠ .recovering)
    (rules : (state,cause,some outcome,code) ∈ closingRecords)
    (manual : outcome = .manual → c.state = .recoveryRequired)
    (legal : c.state = state ∧ (outcome = .refused ∨ outcome = .manual) ∨
      state ∈ transitions j.kind c.state ∧ c.state ≠ state ∧ state ≠ .applying ∧
        state ≠ .recoverySaved) : ∃ es t, Run checkpointStep j es t ∧ t.finished = true := by
  have step := closing_accepted someDay valid last opened safe room plain
    (closingRecord_rules rules) (by simpa using manual) (by simpa using legal)
  exact ⟨_,_,.snoc (.nil j) step.1,by simp [append_finished,closingRecord]⟩

theorem opens_next (state : State) (cause : Option Cause) (code : Option ExitName)
    (safe : ((c.sequence+1 : Nat) : Int) ≤ maxSafe)
    (room : ((j.generation+1 : Nat) : Int) ≤ maxSafe)
    (plain : state ≠ .interrupted ∧ state ≠ .recovering)
    (rules : (state,cause,none,code) ∈ closingRecords)
    (legal : state ∈ transitions j.kind c.state ∧ c.state ≠ state ∧ state ≠ .applying ∧
        state ≠ .recoverySaved) : ∃ e t d, checkpointStep j e t ∧ t.validate = none ∧
      t.last = some d ∧ d.outcome = none ∧ d.state = state ∧ d.sequence = c.sequence+1 ∧
      t.generation = j.generation+1 ∧ t.kind = j.kind := by
  have step := closing_accepted someDay valid last opened safe room plain
    (closingRecord_rules rules) (by simp) (.inr legal)
  exact ⟨_,_,closingRecord c.sequence someDay.stamp state cause none code,step.1,step.2,
    by simp [Journal.last,Journal.append],rfl,rfl,rfl,rfl,rfl⟩

theorem closes_checking (hc : c.state = .checking) (safe : ((c.sequence+1 : Nat) : Int) ≤ maxSafe)
    (room : ((j.generation+1 : Nat) : Int) ≤ maxSafe) :
    ∃ es t, Run checkpointStep j es t ∧ t.finished = true := by
  refine closes_at_once valid last opened .committed none .committed none safe room (by decide) (by decide) (by simp) (.inr ?_)
  rw [hc]
  cases j.kind <;> decide

theorem closes_required (hc : c.state = .recoveryRequired)
    (safe : ((c.sequence+1 : Nat) : Int) ≤ maxSafe)
    (room : ((j.generation+1 : Nat) : Int) ≤ maxSafe) :
    ∃ es t, Run checkpointStep j es t ∧ t.finished = true :=
  closes_at_once valid last opened .recoveryRequired (some .applyFailed) .manual (some .manual)
    safe room (by decide) (by decide) (fun _ => hc) (.inl ⟨hc,.inr rfl⟩)

theorem closes (alive : j.kind = .transaction ∨ c.state ≠ .interrupted) (room : j.Room c) :
    ∃ es t, Run checkpointStep j es t ∧ t.finished = true := by
  have lawful := (journalRules_ruled (validate_sound valid).2.2 last).walked.lawful
  obtain ⟨hs,hg⟩ := room
  have one : 1 ≤ recordsToClose j.kind c.state := by unfold recordsToClose; split <;> omega
  have s₁ : ((c.sequence+1 : Nat) : Int) ≤ maxSafe := by omega
  have g₁ : ((j.generation+1 : Nat) : Int) ≤ maxSafe := by omega
  have refuse : c.state ∈ preMutation → ∃ es t, Run checkpointStep j es t ∧ t.finished = true := by
    intro h
    have h' := h
    simp only [preMutation,mem_cons,not_mem_nil,or_false] at h'
    refine closes_at_once valid last opened c.state none .refused (some .preflight) s₁ g₁ ?_ ?_ (by simp) (.inl ⟨rfl,.inl rfl⟩)
    · rcases h' with h|h|h|h <;> simp [h]
    · exact mem_append_left _ (mem_map.2 ⟨_,h,rfl⟩)
  cases hc : c.state with
  | planned | staged | verified | recoverySaved => exact refuse (by simp [hc,preMutation])
  | committed => simp [lawful.committed.1 hc] at opened
  | recovered => simp [lawful.recovered.1 hc] at opened
  | checking => exact closes_checking valid last opened hc s₁ g₁
  | recoveryRequired => exact closes_required valid last opened hc s₁ g₁
  | recovering =>
    refine closes_at_once valid last opened .recovered none .recovered (some .recovered) s₁ g₁ (by decide) (by decide) (by simp)
      (.inr ?_)
    rw [hc]
    cases j.kind <;> decide
  | applying =>
    cases hk : j.kind with
    | legacy =>
      refine closes_at_once valid last opened .committed none .committed none s₁ g₁ (by decide) (by decide) (by simp) (.inr ?_)
      rw [hc,hk]
      decide
    | transaction =>
      -- A transaction is checked before it commits.
      have two : recordsToClose j.kind c.state = 2 := by simp [recordsToClose,hk,hc]
      obtain ⟨e,t,d,step,tv,tl,td,ts,tn,tg,tk⟩ := opens_next valid last opened
        .checking none none s₁ g₁ (by decide) (by decide)
        (by rw [hc,hk]; decide)
      obtain ⟨es,u,run,fin⟩ := closes_checking tv tl td ts (by rw [tn]; omega) (by rw [tg]; omega)
      exact ⟨_,u,Run.append (.snoc (.nil j) step) run,fin⟩
  | interrupted =>
    have hk : j.kind = .transaction := alive.resolve_right (by simp [hc])
    have two : recordsToClose j.kind c.state = 2 := by simp [recordsToClose,hc]
    obtain ⟨e,t,d,step,tv,tl,td,ts,tn,tg,tk⟩ := opens_next valid last opened
      .recoveryRequired (some .applyFailed) (some .manual) s₁ g₁
      (by decide) (by decide) (by rw [hc,hk]; decide)
    obtain ⟨es,u,run,fin⟩ := closes_required tv tl td ts (by rw [tn]; omega) (by rw [tg]; omega)
    exact ⟨_,u,Run.append (.snoc (.nil j) step) run,fin⟩

end

variable {t : Journal}

theorem legacy_interrupted_stuck {e : CheckpointCall}
    (valid : j.validate = none) (last : j.last = some c) (legacy : j.kind = .legacy)
    (interrupted : c.state = .interrupted) : ¬checkpointStep j e t := by
  intro h
  obtain ⟨d,step⟩ := checkpointStep_stepped last h
  have lawful := (journalRules_ruled (validate_sound valid).2.2 last).walked.lawful
  rcases step.placed with ⟨hs,-,-⟩|⟨n,follows⟩
  · have := lawful.step hs
    simp [interrupted,progressStates] at this
  · by_cases same : c.state = d.state
    · have state : d.state = .interrupted := same ▸ interrupted
      rcases follows.repeats same with ⟨-,hp,-⟩|⟨ho,-⟩|⟨ho,-⟩
      · simp [state,progressStates] at hp
      · have := step.lawful.refused ho
        simp [state,preMutation] at this
      · have := step.lawful.manual ho
        simp [state] at this
    · have := (follows.moves same).1
      simp [legacy,interrupted,transitions] at this

theorem legacy_interrupted_stays {es : List CheckpointCall}
    (valid : j.validate = none) (last : j.last = some c) (legacy : j.kind = .legacy)
    (interrupted : c.state = .interrupted) (run : Run checkpointStep j es t) : t = j :=
  run.invariant (I := fun t => t = j)
    (fun _ _ _ hs step => absurd (hs ▸ step) (legacy_interrupted_stuck valid last legacy interrupted))
    rfl

theorem first_of_two_open {d : Checkpoint} (step : Stepped j t c d)
    (two : c.state = .interrupted ∨ c.state = .applying ∧ j.kind = .transaction)
    (alive : j.kind = .transaction ∨ c.state ≠ .interrupted) : d.outcome = none := by
  have kind : j.kind = .transaction := by
    rcases two with h|⟨-,h⟩
    · exact alive.resolve_right (by simp [h])
    · exact h
  have lawful := step.lawful
  rcases step.placed with ⟨-,hs,-⟩|⟨n,follows⟩
  · exact lawful.progress_open (lawful.step hs)
  · have moved : d.state ∉ preMutation ∧ d.state ≠ .committed ∧ d.state ≠ .recovered := by
      by_cases same : c.state = d.state
      · rw [←same]
        rcases two with h|⟨h,-⟩ <;> simp [h,preMutation]
      · have := (follows.moves same).1
        rcases two with h|⟨h,-⟩
        · simp only [kind,h,transitions,mem_cons,not_mem_nil,or_false] at this
          rcases this with h|h <;> simp [h,preMutation]
        · simp only [kind,h,transitions,mem_cons,not_mem_nil,or_false] at this
          rcases this with h|h|h|h <;> simp [h,preMutation]
    cases ho : d.outcome with
    | none => rfl
    | some o =>
      exfalso
      cases o with
      | committed => exact moved.2.1 (lawful.committed.2 ho)
      | recovered => exact moved.2.2 (lawful.recovered.2 ho)
      | refused => exact moved.1 (lawful.refused ho)
      | manual =>
        have := follows.manual ho
        rcases two with h|⟨h,-⟩ <;> simp [h] at this
      | interrupted =>
        obtain ⟨hd,he⟩ := lawful.interrupted ho
        simp only [Checkpoint.early,follows.interrupted hd,Option.any_some] at he
        rcases two with h|⟨h,-⟩ <;> simp [h,preMutation] at he

structure Reached (j t : Journal) (c : Checkpoint) (steps : Nat) : Prop where
  last : ∃ d, t.last = some d ∧ c.sequence+steps ≤ d.sequence
  valid : t.validate = none
  generation : t.generation = j.generation+steps

theorem run_reached {es : List CheckpointCall}
    (valid : j.validate = none) (last : j.last = some c) (run : Run checkpointStep j es t) :
    Reached j t c es.length := by
  induction run with
  | nil => exact ⟨⟨c,last,by simp⟩,valid,rfl⟩
  | snoc run step ih =>
    obtain ⟨d,hd,hs⟩ := ih.last
    obtain ⟨d',next⟩ := checkpointStep_stepped hd step
    have above := next.sequence
    refine ⟨⟨d',next.last,?_⟩,next.valid,?_⟩
    · simp only [length_append,length_singleton]
      omega
    · rw [next.generation,ih.generation]
      simp only [length_append,length_singleton]
      omega

theorem finishing_length {es : List CheckpointCall}
    (last : j.last = some c) (opened : c.outcome = none)
    (alive : j.kind = .transaction ∨ c.state ≠ .interrupted)
    (run : Run checkpointStep j es t) (finished : t.finished = true) :
    recordsToClose j.kind c.state ≤ es.length := by
  have unfinished : j.finished = false := by simp [Journal.finished,last,opened]
  have positive : 1 ≤ es.length := by
    cases run with
    | nil => simp [unfinished] at finished
    | snoc => simp
  unfold recordsToClose
  split
  · rename_i two
    by_contra short
    rcases run.short (by omega) with rfl|⟨e,step⟩
    · simp [unfinished] at finished
    · obtain ⟨d,step⟩ := checkpointStep_stepped last step
      have opened := first_of_two_open step (two.imp_right And.symm) alive
      simp [Journal.finished,step.last,opened] at finished
  · exact positive

/-- An accepted journal without an outcome can be brought to one exactly when it is not a
legacy journal left `interrupted`, and the numbers its last records need are not used up. -/
theorem journal_finishes_iff {j : Journal} {c : Checkpoint} (valid : j.validate = none)
    (last : j.last = some c) (opened : c.outcome = none) :
    (∃ es t, Run checkpointStep j es t ∧ t.finished = true) ↔
      (j.kind = .transaction ∨ c.state ≠ .interrupted) ∧ j.Room c := by
  constructor
  · rintro ⟨es,t,run,finished⟩
    have alive : j.kind = .transaction ∨ c.state ≠ .interrupted := by
      by_contra dead
      push Not at dead
      have legacy : j.kind = .legacy := by
        cases hk : j.kind with
        | transaction => exact absurd hk dead.1
        | legacy => rfl
      have same := legacy_interrupted_stays valid last legacy dead.2 run
      simp [same,Journal.finished,last,opened] at finished
    have length := finishing_length last opened alive run finished
    have reached := run_reached valid last run
    obtain ⟨d,hd,hs⟩ := reached.last
    obtain ⟨-,safe,-⟩ := validate_sound reached.valid
    have sequence := safe.sequences d (mem_of_getLast? hd)
    have generation := safe.generation
    rw [reached.generation] at generation
    exact ⟨alive,by omega,by omega⟩
  · rintro ⟨alive,room⟩
    exact closes valid last opened alive room

structure Journal.Bare (j : Journal) (now : Moment) : Prop where
  identityDigest : j.identityDigest = none
  source : j.source = none
  target : j.target = none
  recovery : j.recovery = none
  evidence : j.evidence = []
  startedAt : j.startedAt = now.stamp
  updatedAt : j.updatedAt = now.stamp
  checkpoints : ∀ c ∈ j.checkpoints, c.time = now.stamp ∧ c.step = none ∧ c.error = none
  generation : 1 ≤ j.generation ∧ (j.generation : Int) ≤ maxSafe
  sequences : ∀ c ∈ j.checkpoints, 1 ≤ c.sequence ∧ (c.sequence : Int) ≤ maxSafe
  count : 1 ≤ j.checkpoints.length ∧ j.checkpoints.length ≤ 23

theorem bare_valid {now : Moment} (bare : j.Bare now)
    (operation : operationIdNode.valid (.str j.operationId) = true)
    (plan : ∀ d, j.planDigest = some d → digestNode.valid (.str d) = true)
    (rules : journalRules j = none) : j.validate = none := by
  have records : ∀ c ∈ j.checkpoints, c.Conforms := by
    intro c hc
    obtain ⟨time,step,error⟩ := bare.checkpoints c hc
    exact ⟨(bare.sequences c hc).1,time ▸ stamp_valid now,by simp [step],by simp [error]⟩
  have conforms : j.Conforms :=
    { operationId := operation
      generation := bare.generation.1
      planDigest := plan
      identityDigest := by simp [bare.identityDigest]
      source := by simp [bare.source]
      target := by simp [bare.target]
      recovery := by simp [bare.recovery]
      evidenceCount := by simp [bare.evidence]
      evidence := by simp [bare.evidence]
      startedAt := bare.startedAt ▸ stamp_valid now
      updatedAt := bare.updatedAt ▸ stamp_valid now
      nonempty := bare.count.1
      count := le_trans bare.count.2 (by decide)
      checkpoints := records }
  exact validate_complete conforms ⟨bare.generation.2,fun c hc => (bare.sequences c hc).2⟩
    bare.count.2 rules

def freshJournal : Journal where
  operationId := "op-20260726-001"
  kind := .transaction
  action := .uninstall
  adapter := .native
  generation := 1
  planDigest := some ("sha256:" ++ String.ofList (List.replicate 64 'a'))
  identityDigest := none
  source := none
  target := none
  recovery := none
  evidence := []
  startedAt := someDay.stamp
  updatedAt := someDay.stamp
  checkpoints := [{ sequence := 1, state := .planned, time := someDay.stamp }]

set_option maxRecDepth 8000 in
theorem freshJournal_valid : freshJournal.validate = none := by
  refine bare_valid ⟨rfl,rfl,rfl,rfl,rfl,rfl,rfl,?_,by decide,?_,by decide⟩
    (by decide) (fun d hd => ?_) (by decide)
  · simp [freshJournal]
  · simp [freshJournal,maxSafe]
  · obtain rfl := Option.some.inj hd
    decide

theorem freshJournal_finishes :
    ∃ es t, Run checkpointStep freshJournal es t ∧ t.finished = true :=
  (journal_finishes_iff (c := { sequence := 1, state := .planned, time := someDay.stamp })
    freshJournal_valid rfl rfl).2 ⟨.inl rfl,by decide,by decide⟩

/-- A legacy operation whose process was killed while it was applying, as the next
writer's reconciliation leaves it. -/
def strandedJournal : Journal where
  operationId := "op-20260726-001"
  kind := .legacy
  action := .backup
  adapter := .native
  generation := 2
  planDigest := none
  identityDigest := none
  source := none
  target := none
  recovery := none
  evidence := []
  startedAt := someDay.stamp
  updatedAt := someDay.stamp
  checkpoints := [{ sequence := 1, state := .applying, time := someDay.stamp },
    { sequence := 2, state := .interrupted, time := someDay.stamp, cause := some .abandoned,
      checkpoint := some .applying }]

theorem strandedJournal_never_finishes :
    ¬∀ j : Journal, j.validate = none → j.finished = false →
      ∃ es t, Run checkpointStep j es t ∧ t.finished = true := by
  intro h
  have valid : strandedJournal.validate = none := by
    refine bare_valid ⟨rfl,rfl,rfl,rfl,rfl,rfl,rfl,?_,by decide,?_,by decide⟩
      (by decide) nofun (by decide)
    · simp [strandedJournal]
    · simp [strandedJournal,maxSafe]
  obtain ⟨es,t,run,finished⟩ := h strandedJournal valid rfl
  have same := legacy_interrupted_stays valid rfl rfl rfl run
  simp [same,Journal.finished,Journal.last,strandedJournal] at finished

end CircuitBreaker.Lifecycle
