import Mathlib.Data.Rat.Defs
import Mathlib.Algebra.Order.Ring.Rat
import Mathlib.Data.List.Sort
import Mathlib.Logic.Function.Basic
import CircuitBreaker.StepRuns
import CircuitBreaker.PyDict


/-! Metric alert rules (services/monitoring/metric_evaluator.py and metric_rules.py): the
evaluator, the transition it is persisted with, and the transactions both run in. -/

namespace CircuitBreaker.MetricAlerts
open StepRuns List Option

inductive Comparator where
  | gt
  | ge
  | lt
  | le
  deriving DecidableEq

inductive Assessment where
  | disabled
  | unknown
  | normal
  | pending
  | firing
  | recovering
  deriving DecidableEq

inductive EventType where
  | firing
  | recovered
  deriving DecidableEq

def Assessment.word : Assessment → String
  | .disabled => "disabled"
  | .unknown => "unknown"
  | .normal => "normal"
  | .pending => "pending"
  | .firing => "firing"
  | .recovering => "recovering"

def EventType.word : EventType → String
  | .firing => "firing"
  | .recovered => "recovered"

structure RuleConfig where
  enabled : Bool
  comparator : Comparator
  threshold : ℚ
  breachDurationS : Nat
  recoveryThreshold : ℚ
  recoveryDurationS : Nat
  maxGapS : Nat
  freshnessS : Nat
  deriving DecidableEq

/-- A sample; the time is in microseconds, and a value that is not finite is none. -/
structure MetricSample where
  timestamp : Int
  value : Option ℚ
  sampleId : String
  deriving DecidableEq

/-- An incident's id is 32 hexadecimal digits, so never the empty text. -/
abbrev Incident := String

structure PriorState where
  assessment : Assessment
  openIncidentId : Option Incident

structure EvaluationDecision where
  assessment : Assessment
  reasonCode : String
  pendingSince : Option Int
  recoverySince : Option Int
  openIncidentId : Option Incident
  lastSampleAt : Option Int
  eventType : Option EventType

def compare (value : ℚ) (c : Comparator) (threshold : ℚ) : Bool :=
  match c with
  | .gt => threshold < value
  | .ge => threshold ≤ value
  | .lt => value < threshold
  | .le => value ≤ threshold

def recovered (value : ℚ) (config : RuleConfig) : Bool :=
  match config.comparator with
  | .gt | .ge => value ≤ config.recoveryThreshold
  | .lt | .le => config.recoveryThreshold ≤ value

def exceeds (span : Int) (seconds : Nat) : Bool := (seconds : Int)*1000000 < span

def MetricSample.holds (s : MetricSample) (p : ℚ → Bool) : Bool := s.value.any p

def orderedSamples (samples : List MetricSample) : List MetricSample :=
  let unique := Dict.ofPairs ((samples.filter (·.value.isSome)).map fun s => (s.sampleId,s))
  (unique.items.map Prod.snd).insertionSort fun a b => a.timestamp ≤ b.timestamp

/-- What is left after the last gap. The loop runs over the pairs of the list as it was. -/
def afterGaps (config : RuleConfig) (ordered : List MetricSample) : List MetricSample :=
  (ordered.zip ordered.tail).foldl (fun rest pair =>
    if exceeds (pair.2.timestamp-pair.1.timestamp) config.maxGapS then rest.dropWhile (· ≠ pair.2)
    else rest) ordered

def tailOf (p : ℚ → Bool) (ordered : List MetricSample) : List MetricSample :=
  (ordered.reverse.takeWhile (·.holds p)).reverse

def evaluateRule (config : RuleConfig) (prior : PriorState) (samples : List MetricSample)
    (now : Int) : EvaluationDecision :=
  if config.enabled = false then
    ⟨.disabled,"disabled",none,none,prior.openIncidentId,none,none⟩
  else
    match (orderedSamples samples).getLast? with
    | none => ⟨.unknown,"no_samples",none,none,prior.openIncidentId,none,none⟩
    | some latest =>
        if exceeds (now-latest.timestamp) config.freshnessS then
          ⟨.unknown,"stale_samples",none,none,prior.openIncidentId,some latest.timestamp,none⟩
        else
          match prior.openIncidentId with
          | some incident =>
              let tail := tailOf (recovered · config) (afterGaps config (orderedSamples samples))
              match tail.head?,tail.getLast? with
              | some first,some last =>
                  if (config.recoveryDurationS : Int)*1000000 ≤ last.timestamp-first.timestamp then
                    ⟨.normal,"recovered",none,none,none,some latest.timestamp,some .recovered⟩
                  else
                    ⟨.recovering,"recovery_duration",none,some first.timestamp,some incident,
                      some latest.timestamp,none⟩
              | _,_ =>
                  ⟨.firing,"condition_not_met",none,none,some incident,some latest.timestamp,none⟩
          | none =>
              let tail := tailOf (compare · config.comparator config.threshold)
                (afterGaps config (orderedSamples samples))
              match tail.head?,tail.getLast? with
              | some first,some last =>
                  if (config.breachDurationS : Int)*1000000 ≤ last.timestamp-first.timestamp then
                    ⟨.firing,"threshold_duration",none,none,none,some latest.timestamp,
                      some .firing⟩
                  else
                    ⟨.pending,"breach_duration",some first.timestamp,none,none,
                      some latest.timestamp,none⟩
              | _,_ =>
                  ⟨.normal,"condition_not_met",none,none,none,some latest.timestamp,none⟩

/-! The tables. -/

/-- What `update_rule` and `create_rule` set. -/
structure RuleFields where
  name : String
  targetId : Nat
  metricKey : String
  config : RuleConfig
  severity : String
  sinkId : Option Nat
  deriving DecidableEq

structure Rule where
  id : Nat
  fields : RuleFields
  revision : Nat
  deriving DecidableEq

structure AlertState where
  ruleRevision : Nat
  assessment : Assessment
  reasonCode : Option String
  pendingSince : Option Int
  recoverySince : Option Int
  openIncidentId : Option Incident
  lastSampleAt : Option Int
  lastEvaluatedAt : Option Int

structure Event where
  transitionKey : String
  ruleId : Nat
  ruleRevision : Nat
  incidentId : Incident
  eventType : EventType
  occurredAt : Int
  title : String
  message : String
  severity : String
  sinkId : Option Nat

def AlertState.fresh (revision : Nat) : AlertState :=
  ⟨revision,.unknown,none,none,none,none,none,none⟩

def AlertState.write (loaded changed row : AlertState) : AlertState where
  ruleRevision := if changed.ruleRevision = loaded.ruleRevision then row.ruleRevision
    else changed.ruleRevision
  assessment := if changed.assessment = loaded.assessment then row.assessment
    else changed.assessment
  reasonCode := if changed.reasonCode = loaded.reasonCode then row.reasonCode
    else changed.reasonCode
  pendingSince := if changed.pendingSince = loaded.pendingSince then row.pendingSince
    else changed.pendingSince
  recoverySince := if changed.recoverySince = loaded.recoverySince then row.recoverySince
    else changed.recoverySince
  openIncidentId := if changed.openIncidentId = loaded.openIncidentId then row.openIncidentId
    else changed.openIncidentId
  lastSampleAt := if changed.lastSampleAt = loaded.lastSampleAt then row.lastSampleAt
    else changed.lastSampleAt
  lastEvaluatedAt := if changed.lastEvaluatedAt = loaded.lastEvaluatedAt then row.lastEvaluatedAt
    else changed.lastEvaluatedAt

def AlertState.atRevision (state : AlertState) (revision : Nat) : AlertState :=
  if state.ruleRevision = revision then state
  else {state with ruleRevision := revision,pendingSince := none,recoverySince := none}

/-- `persist_rule_transition` on a state row: the row it leaves and the event it adds. -/
def persistTransition (rule : Rule) (state : AlertState) (decision : EvaluationDecision)
    (now : Int) (fresh : Incident) : AlertState × Option Event :=
  let state := state.atRevision rule.revision
  let incident :=
    if decision.eventType = some .firing then some fresh else state.openIncidentId
  if decision.eventType = some .recovered ∧ incident = none then (state,none)
  else
    let state := {state with
      assessment := decision.assessment
      reasonCode := some decision.reasonCode
      pendingSince := decision.pendingSince
      recoverySince := decision.recoverySince
      openIncidentId := if decision.assessment = .normal then none else incident
      lastSampleAt := decision.lastSampleAt
      lastEvaluatedAt := some now}
    match decision.eventType,incident with
    | some type,some incident =>
        (state,some
          { transitionKey := "metric:" ++ toString rule.id ++ ":" ++ toString rule.revision ++ ":" ++
              incident ++ ":" ++ type.word
            ruleId := rule.id
            ruleRevision := rule.revision
            incidentId := incident
            eventType := type
            occurredAt := now
            title := "Metric alert " ++ rule.fields.name ++ " " ++ type.word
            message := rule.fields.metricKey ++ " on hardware:" ++ toString rule.fields.targetId ++
              " is " ++ decision.assessment.word ++ "."
            severity := if type = .firing then rule.fields.severity else "info"
            sinkId := rule.fields.sinkId})
    | _,_ => (state,none)

/-- What `update_rule` makes of the state row. -/
def resetState (revision : Nat) (enabled : Bool) (state : AlertState) : AlertState :=
  {state with
    ruleRevision := revision
    assessment := if enabled then .unknown else .disabled
    reasonCode := if enabled then none else some "disabled"
    pendingSince := none
    recoverySince := none
    lastSampleAt := none}

/-! The transactions. -/

/-- What an evaluation is to write for one rule: the rule as it was loaded, the state row as it
was loaded (none where it is to be inserted), the row it is to be, and the event. -/
structure Change where
  rule : Rule
  loaded : Option AlertState
  row : AlertState
  event : Option Event

/-- One call of `evaluate_due_rules`: the rules still to be evaluated, the state of the first of
them once it is read, and what is to be written. -/
structure Evaluation where
  now : Int
  rest : List Rule
  read : Option (Option AlertState)
  done : List Change

/-- One call of `update_rule` that holds its rule's row. -/
structure Update where
  rule : Rule
  fields : RuleFields
  read : Option (Option AlertState)
  flushed : Bool

structure World where
  rules : Nat → Option Rule
  states : Nat → Option AlertState
  events : List (Event × Rule)
  evaluation : Option Evaluation
  updates : Nat → Option Update

inductive Act where
  | create (id : Nat) (fields : RuleFields)
  | load (ids : List Nat) (now : Int)
  | read
  | persist (samples : List MetricSample) (fresh : Incident)
  | commit
  | abort
  | lock (id : Nat) (fields : RuleFields) (revision : Nat)
  | readState (id : Nat)
  | flush (id : Nat)
  | commitUpdate (id : Nat)
  | abortUpdate (id : Nat)

/-- The statement for one state row: an insert where none was loaded, else an update. None where
it fails. -/
def applied (loaded : Option AlertState) (row : AlertState) (committed : Option AlertState) :
    Option AlertState :=
  match loaded,committed with
  | none,none => some row
  | some l,some c => some (l.write row c)
  | _,_ => none

def World.dueRules (w : World) (ids : List Nat) : Option (List Rule) :=
  ids.mapM fun id => (w.rules id).filter (·.fields.config.enabled)

def World.change (w : World) (e : Evaluation) (rule : Rule) (loaded : Option AlertState)
    (samples : List MetricSample) (fresh : Incident) : Change :=
  let prior : PriorState :=
    ⟨(loaded.map AlertState.assessment).getD .unknown,loaded.bind AlertState.openIncidentId⟩
  let decision := evaluateRule rule.fields.config prior samples e.now
  -- a row the session has loaded is not loaded again by the query that locks it
  let base := loaded.or (w.states rule.id)
  let out := persistTransition rule (base.getD (.fresh rule.revision)) decision e.now fresh
  ⟨rule,base,out.1,out.2⟩

def World.evaluating (w : World) (id : Nat) : Bool :=
  w.evaluation.any fun e => e.done.any (·.rule.id = id)

def World.updating (w : World) (id : Nat) : Bool := (w.updates id).any Update.flushed

def World.commit (w : World) (done : List Change) : World :=
  {w with
    states := fun id =>
      match done.find? (·.rule.id = id) with
      | some c => applied c.loaded c.row (w.states id)
      | none => w.states id
    events := w.events ++ done.filterMap fun c =>
      c.event.bind fun event => (w.rules c.rule.id).map fun rule => (event,rule)
    evaluation := none}

def Update.change (u : Update) (loaded : Option AlertState) : AlertState :=
  resetState (u.rule.revision+1) u.fields.config.enabled
    (loaded.getD (.fresh (u.rule.revision+1)))

def World.commitUpdate (w : World) (id : Nat) (u : Update) (state : AlertState) : World :=
  {w with
    rules := Function.update w.rules id (some ⟨id,u.fields,u.rule.revision+1⟩)
    states := Function.update w.states id (some state)
    updates := Function.update w.updates id none}

def next (w : World) : Act → Option World
  | .create id fields =>
      if w.rules id = none then
        some {w with
          rules := Function.update w.rules id (some ⟨id,fields,1⟩)
          states := Function.update w.states id (some
            {AlertState.fresh 1 with
              assessment := if fields.config.enabled then .unknown else .disabled
              reasonCode := if fields.config.enabled then none else some "disabled"})}
      else none
  | .load ids now =>
      if w.evaluation.isNone ∧ ids.Nodup then
        (w.dueRules ids).map fun rules => {w with evaluation := some ⟨now,rules,none,[]⟩}
      else none
  | .read =>
      match w.evaluation with
      | some ⟨now,rule::rest,none,done⟩ =>
          some {w with evaluation := some ⟨now,rule::rest,some (w.states rule.id),done⟩}
      | _ => none
  | .persist samples fresh =>
      match w.evaluation with
      | some ⟨now,rule::rest,some loaded,done⟩ =>
          if w.updating rule.id then none
          else
            let change := w.change ⟨now,rule::rest,some loaded,done⟩ rule loaded samples fresh
            some {w with evaluation := some ⟨now,rest,none,done ++ [change]⟩}
      | _ => none
  | .commit =>
      match w.evaluation with
      | some ⟨_,[],_,done⟩ =>
          -- an event's reference to its rule waits for the update that holds the rule
          if done.all fun c => (applied c.loaded c.row (w.states c.rule.id)).isSome &&
              (c.event.isNone || (w.updates c.rule.id).isNone) then some (w.commit done)
          else none
      | _ => none
  | .abort => some {w with evaluation := none}
  | .lock id fields revision =>
      match w.rules id,w.updates id with
      | some rule,none =>
          if rule.revision = revision then
            some {w with updates := Function.update w.updates id (some ⟨rule,fields,none,false⟩)}
          else none
      | _,_ => none
  | .readState id =>
      match w.updates id with
      | some ⟨rule,fields,none,flushed⟩ =>
          some {w with
            updates := Function.update w.updates id
              (some ⟨rule,fields,some (w.states id),flushed⟩)}
      | _ => none
  | .flush id =>
      match w.updates id with
      | some ⟨rule,fields,some loaded,false⟩ =>
          if w.evaluating id then none
          else
            some {w with
              updates := Function.update w.updates id (some ⟨rule,fields,some loaded,true⟩)}
      | _ => none
  | .commitUpdate id =>
      match w.updates id with
      | some ⟨rule,fields,some loaded,true⟩ =>
          let u : Update := ⟨rule,fields,some loaded,true⟩
          (applied loaded (u.change loaded) (w.states id)).map (w.commitUpdate id u)
      | _ => none
  | .abortUpdate id => some {w with updates := Function.update w.updates id none}

def Step (w : World) (a : Act) (w' : World) : Prop := next w a = some w'

def World.openOf (w : World) (id : Nat) : Option Incident :=
  (w.states id).bind AlertState.openIncidentId

def World.eventsOf (w : World) (id : Nat) : List Event :=
  (w.events.map Prod.fst).filter (·.ruleId = id)

/-- Events that alternate, each recovery with the incident of the firing before it, and the
incident they leave open. -/
inductive Alternating : List Event → Option Incident → Prop where
  | nil : Alternating [] none
  | firing {es : List Event} {e : Event} : Alternating es none → e.eventType = .firing →
      Alternating (es ++ [e]) (some e.incidentId)
  | recovered {es : List Event} {e : Event} : Alternating es (some e.incidentId) →
      e.eventType = .recovered → Alternating (es ++ [e]) none

structure Initial (w : World) : Prop where
  ids : ∀ id rule,w.rules id = some rule → rule.id = id
  states : ∀ id,w.openOf id = none
  events : w.events = []
  evaluation : w.evaluation = none
  updates : ∀ id,w.updates id = none

/-- The evaluation that decides on an event decides by the rule's committed revision. -/
def Meets (w : World) : Act → Prop
  | .persist samples fresh => ∀ now rule rest loaded done,
      w.evaluation = some ⟨now,rule::rest,some loaded,done⟩ →
        (w.change ⟨now,rule::rest,some loaded,done⟩ rule loaded samples fresh).event ≠ none →
          (w.rules rule.id).map Rule.revision = some rule.revision
  | _ => True

/-! What one evaluation can do to the open incident. -/

def EvaluationDecision.Fits (d : EvaluationDecision) (incident : Option Incident) : Prop :=
  match d.eventType with
  | some .firing => incident = none ∧ d.assessment ≠ .normal
  | some .recovered => incident ≠ none ∧ d.assessment = .normal
  | none => d.assessment = .normal → incident = none

theorem evaluateRule_fits (config : RuleConfig) (prior : PriorState) (samples : List MetricSample)
    (now : Int) : (evaluateRule config prior samples now).Fits prior.openIncidentId := by
  have quiet : ∀ d : EvaluationDecision,d.eventType = none → d.assessment ≠ .normal →
      d.Fits prior.openIncidentId := by
    intro d hd ha
    unfold EvaluationDecision.Fits
    rw [hd]
    exact fun hn => absurd hn ha
  unfold evaluateRule
  split
  · exact quiet _ rfl (by simp)
  split
  · exact quiet _ rfl (by simp)
  split
  · exact quiet _ rfl (by simp)
  cases hp : prior.openIncidentId with
  | some incident =>
    dsimp only
    rw [← hp]
    split
    · split
      · exact ⟨by simp [hp],rfl⟩
      · exact quiet _ rfl (by simp)
    · exact quiet _ rfl (by simp)
  | none =>
    dsimp only
    rw [← hp]
    split
    · split
      · exact ⟨hp,by simp⟩
      · exact quiet _ rfl (by simp)
    · exact fun _ => hp

/-- How the open incident goes on: as it was, opened by a firing, or closed by a recovery. -/
def Follows (rule : Rule) (before : Option Incident) (event : Option Event)
    (after : Option Incident) : Prop :=
  match event with
  | none => after = before
  | some e =>
      e.ruleId = rule.id ∧ e.ruleRevision = rule.revision ∧
        (e.eventType = .firing ∧ before = none ∧ after = some e.incidentId ∨
          e.eventType = .recovered ∧ before = some e.incidentId ∧ after = none)

theorem persistTransition_follows (rule : Rule) (state : AlertState) (d : EvaluationDecision)
    (now : Int) (fresh : Incident) (fits : d.Fits state.openIncidentId) :
    Follows rule state.openIncidentId (persistTransition rule state d now fresh).2
      (persistTransition rule state d now fresh).1.openIncidentId := by
  have same : (state.atRevision rule.revision).openIncidentId = state.openIncidentId := by
    unfold AlertState.atRevision
    split <;> rfl
  unfold persistTransition
  unfold EvaluationDecision.Fits at fits
  dsimp only
  rw [same]
  cases he : d.eventType with
  | none =>
    rw [he] at fits
    simp only [reduceCtorEq,if_false,false_and]
    change (if d.assessment = .normal then none else state.openIncidentId) = state.openIncidentId
    split
    · rename_i normal
      exact (fits normal).symm
    · rfl
  | some type =>
    cases type with rw [he] at fits
    | firing =>
      simp only [if_true,Option.some.injEq,reduceCtorEq,false_and,if_false,if_neg fits.2]
      exact ⟨rfl,rfl,.inl ⟨rfl,fits.1,rfl⟩⟩
    | recovered =>
      obtain ⟨incident,hi⟩ := Option.ne_none_iff_exists'.1 fits.1
      simp only [hi,Option.some.injEq,reduceCtorEq,if_false,and_false,if_pos fits.2]
      exact ⟨rfl,rfl,.inr ⟨rfl,rfl,rfl⟩⟩

theorem change_follows {w : World} {rule : Rule} {loaded : Option AlertState} (e : Evaluation)
    (samples : List MetricSample) (fresh : Incident)
    (read : loaded.bind AlertState.openIncidentId = w.openOf rule.id) :
    (w.change e rule loaded samples fresh).loaded.bind AlertState.openIncidentId =
        w.openOf rule.id ∧
      Follows rule (w.openOf rule.id) (w.change e rule loaded samples fresh).event
        (w.change e rule loaded samples fresh).row.openIncidentId := by
  have base : ((loaded.or (w.states rule.id)).getD (.fresh rule.revision)).openIncidentId =
      w.openOf rule.id ∧
      (loaded.or (w.states rule.id)).bind AlertState.openIncidentId = w.openOf rule.id := by
    cases loaded with
    | some l => exact ⟨read,read⟩
    | none =>
      rw [none_or]
      unfold World.openOf
      cases w.states rule.id with
      | none | some c => exact ⟨rfl,rfl⟩
  refine ⟨base.2,?_⟩
  have fits : (evaluateRule rule.fields.config
      ⟨(loaded.map AlertState.assessment).getD .unknown,loaded.bind AlertState.openIncidentId⟩
      samples e.now).Fits
        ((loaded.or (w.states rule.id)).getD (.fresh rule.revision)).openIncidentId := by
    rw [base.1,← read]
    exact evaluateRule_fits _ _ _ _
  have follows := persistTransition_follows rule _ _ e.now fresh fits
  rw [base.1] at follows
  exact follows

/-! What holds in every state of a run that meets the condition. -/

/-- A rule as an evaluation loaded it: enabled, and the committed row where that has the same
revision. -/
def Loaded (w : World) (rule : Rule) : Prop :=
  rule.fields.config.enabled = true ∧
    ∃ c,w.rules rule.id = some c ∧ rule.revision ≤ c.revision ∧ (rule.revision = c.revision → c = rule)

structure Change.Due (c : Change) (w : World) : Prop where
  loaded : c.loaded.bind AlertState.openIncidentId = w.openOf c.rule.id
  follows : Follows c.rule (w.openOf c.rule.id) c.event c.row.openIncidentId
  current : c.event ≠ none → w.rules c.rule.id = some c.rule ∧ c.rule.fields.config.enabled = true

structure Evaluation.Sound (e : Evaluation) (w : World) : Prop where
  nodup : (e.done.map (·.rule.id) ++ e.rest.map Rule.id).Nodup
  rest : ∀ rule ∈ e.rest,Loaded w rule
  read : ∀ loaded rule rest,e.read = some loaded → e.rest = rule::rest →
    loaded.bind AlertState.openIncidentId = w.openOf rule.id
  done : ∀ c ∈ e.done,c.Due w
  exclusive : ∀ c ∈ e.done,w.updating c.rule.id = false

structure Sound (w : World) : Prop where
  alternates : ∀ id,Alternating (w.eventsOf id) (w.openOf id)
  current : ∀ x ∈ w.events,x.1.ruleRevision = x.2.revision ∧ x.2.fields.config.enabled = true
  known : ∀ x ∈ w.events,w.rules x.1.ruleId ≠ none
  ids : ∀ id rule,w.rules id = some rule → rule.id = id
  evaluation : ∀ e,w.evaluation = some e → e.Sound w
  updates : ∀ id u,w.updates id = some u → w.rules id = some u.rule

section

variable {w : World}

theorem Initial.sound (h : Initial w) : Sound w where
  __ := h
  alternates := fun id => by
    rw [World.eventsOf,h.events,h.states id]
    exact .nil
  current := fun x hx => by simp [h.events] at hx
  known := fun x hx => by simp [h.events] at hx
  evaluation := fun e he => by simp [h.evaluation] at he
  updates := fun id u hu => by simp [h.updates id] at hu

theorem Evaluation.Sound.carry {w' : World} {e : Evaluation} (h : e.Sound w)
    (opens : ∀ id,w'.openOf id = w.openOf id)
    (rules : ∀ rule ∈ e.rest,Loaded w rule → Loaded w' rule)
    (current : ∀ c ∈ e.done,w.rules c.rule.id = some c.rule → w'.rules c.rule.id = some c.rule)
    (updating : ∀ c ∈ e.done,w.updating c.rule.id = false → w'.updating c.rule.id = false) :
    e.Sound w' where
  nodup := h.nodup
  rest := fun rule hr => rules rule hr (h.rest rule hr)
  read := fun loaded rule rest hl hr => by
    rw [opens]
    exact h.read loaded rule rest hl hr
  done := fun c hc => by
    obtain ⟨loaded,follows,cur⟩ := h.done c hc
    refine ⟨?_,?_,fun he => ⟨current c hc (cur he).1,(cur he).2⟩⟩
    · rw [opens]
      exact loaded
    · rw [opens]
      exact follows
  exclusive := fun c hc => updating c hc (h.exclusive c hc)

theorem Sound.under {evaluation : Option Evaluation} {updates : Nat → Option Update} (h : Sound w)
    (he : ∀ e,evaluation = some e → e.Sound {w with evaluation,updates})
    (hu : ∀ id u,updates id = some u → w.rules id = some u.rule) :
    Sound {w with evaluation,updates} where
  alternates := h.alternates
  current := h.current
  known := h.known
  ids := h.ids
  evaluation := he
  updates := hu

theorem create_sound {id : Nat} {fields : RuleFields} {state : AlertState} (h : Sound w)
    (free : w.rules id = none) (hs : state.openIncidentId = none) :
    Sound {w with
      rules := Function.update w.rules id (some ⟨id,fields,1⟩)
      states := Function.update w.states id (some state)} := by
  have none : w.eventsOf id = [] := by
    rw [World.eventsOf,filter_eq_nil_iff]
    intro e he
    obtain ⟨x,hx,rfl⟩ := mem_map.1 he
    intro hid
    have := h.known x hx
    rw [of_decide_eq_true hid] at this
    exact this free
  have closed : w.openOf id = .none := by
    have alternates := h.alternates id
    rw [none] at alternates
    generalize w.openOf id = o at alternates
    generalize hl : ([] : List Event) = l at alternates
    cases alternates with
    | nil | recovered => rfl
    | firing => simp at hl
  have opens : ∀ id',World.openOf {w with
      rules := Function.update w.rules id (some ⟨id,fields,1⟩)
      states := Function.update w.states id (some state)} id' = w.openOf id' := by
    intro id'
    by_cases hid : id' = id
    · subst hid
      rw [closed]
      simp [World.openOf,hs]
    · simp [World.openOf,hid]
  have kept : ∀ id' rule,w.rules id' = some rule →
      Function.update w.rules id (some ⟨id,fields,1⟩) id' = some rule := by
    intro id' rule hr
    have hid : id' ≠ id := fun hid => by simp [hid,free] at hr
    rw [Function.update_of_ne hid,hr]
  refine ⟨fun id' => ?_,h.current,fun x hx => ?_,fun id' rule hr => ?_,fun e he => ?_,
    fun id' u hu => kept id' _ (h.updates id' u hu)⟩
  · rw [opens]
    exact h.alternates id'
  · obtain ⟨rule,hr⟩ := Option.ne_none_iff_exists'.1 (h.known x hx)
    have := kept _ rule hr
    exact fun hn => by simp [this] at hn
  · by_cases hid : id' = id
    · subst hid
      have hr : (⟨id',fields,1⟩ : Rule) = rule := by simpa using hr
      rw [← hr]
    · exact h.ids id' rule (by simpa [hid] using hr)
  · refine (h.evaluation e he).carry opens (fun rule _ ⟨on,c,hc,hl⟩ => ⟨on,c,kept _ c hc,hl⟩)
      (fun c _ hc => kept _ _ hc) fun c _ hu => hu

theorem dueRules_loaded {ids : List Nat} {rules : List Rule} (h : Sound w)
    (hr : w.dueRules ids = some rules) :
    rules.map Rule.id = ids ∧ ∀ rule ∈ rules,Loaded w rule := by
  induction ids generalizing rules with
  | nil =>
    cases (some.inj hr : [] = rules)
    exact ⟨rfl,fun _ hm => by cases hm⟩
  | cons id ids ih =>
    unfold World.dueRules at hr
    rw [mapM_cons] at hr
    simp only [bind_eq_bind,bind_eq_some_iff,filter_eq_some_iff] at hr
    obtain ⟨rule,⟨hrule,on⟩,rest,hrest,hr⟩ := hr
    cases hr
    obtain ⟨same,loaded⟩ := ih hrest
    have hid : rule.id = id := h.ids id rule hrule
    refine ⟨by rw [map_cons,same,hid],fun rule' hm => ?_⟩
    obtain rfl | hm := mem_cons.1 hm
    · exact ⟨on,rule',by rw [hid,hrule],le_rfl,fun _ => rfl⟩
    · exact loaded rule' hm

variable {loaded : Option AlertState} {done : List Change}

theorem persist_sound {now : Int} {rule : Rule} {rest : List Rule} {samples : List MetricSample} {fresh : Incident} {change : Change}
    (h : Sound w) (he : w.evaluation = some ⟨now,rule::rest,some loaded,done⟩)
    (free : w.updating rule.id = false)
    (hc : change = w.change ⟨now,rule::rest,some loaded,done⟩ rule loaded samples fresh)
    (meets : change.event ≠ none → (w.rules rule.id).map Rule.revision = some rule.revision) :
    Sound {w with evaluation := some ⟨now,rest,none,done ++ [change]⟩} := by
  have sound := h.evaluation _ he
  have read := sound.read loaded rule rest rfl rfl
  have same : change.rule = rule := by rw [hc]; rfl
  have due : change.Due w := by
    obtain ⟨base,follows⟩ := change_follows ⟨now,rule::rest,some loaded,done⟩ samples fresh read
    rw [← hc] at base follows
    refine ⟨by rw [same]; exact base,by rw [same]; exact follows,fun hev => ?_⟩
    obtain ⟨on,c,hr,_,equal⟩ := sound.rest rule mem_cons_self
    have revision := meets hev
    rw [hr] at revision
    rw [same,hr,equal (some.inj revision).symm]
    exact ⟨rfl,on⟩
  refine h.under (fun e he' => ?_) h.updates
  cases he'
  have nodup := sound.nodup
  refine ⟨?_,fun rule' hr => ?_,fun _ _ _ hl => (by cases hl),fun c hm => ?_,
    fun c hm => ?_⟩
  · simpa [same] using nodup
  · exact sound.rest rule' (mem_cons_of_mem _ hr)
  · obtain hm | hm := mem_append.1 hm
    · exact ⟨(sound.done c hm).loaded,(sound.done c hm).follows,(sound.done c hm).current⟩
    · rw [mem_singleton.1 hm]
      exact ⟨due.loaded,due.follows,due.current⟩
  · obtain hm | hm := mem_append.1 hm
    · exact sound.exclusive c hm
    · rw [mem_singleton.1 hm,same]
      exact free

theorem applied_open {c : Change} {state : AlertState} (due : c.Due w)
    (ha : applied c.loaded c.row (w.states c.rule.id) = some state) :
    state.openIncidentId = c.row.openIncidentId := by
  have loaded := due.loaded
  unfold World.openOf at loaded
  unfold applied at ha
  split at ha
  · cases ha
    rfl
  · rename_i l r hl hr
    cases ha
    rw [hl,hr] at loaded
    have loaded : l.openIncidentId = r.openIncidentId := loaded
    unfold AlertState.write
    dsimp only
    split
    · rename_i unchanged
      rw [unchanged,loaded]
    · rfl
  · cases ha

theorem eventsOf_commit (done : List Change) (id : Nat) :
    (w.commit done).eventsOf id = w.eventsOf id ++
      ((done.filterMap fun c => c.event.bind fun event =>
        (w.rules c.rule.id).map fun rule => (event,rule)).map Prod.fst).filter (·.ruleId = id) := by
  unfold World.eventsOf World.commit
  rw [map_append,filter_append]

theorem filter_find (nodup : (done.map (·.rule.id)).Nodup) (id : Nat) :
    done.filter (·.rule.id = id) = (done.find? (·.rule.id = id)).toList := by
  induction done with
  | nil => rfl
  | cons c done ih =>
    rw [map_cons,nodup_cons] at nodup
    by_cases hid : c.rule.id = id
    · have none : done.filter (·.rule.id = id) = [] := by
        rw [filter_eq_nil_iff]
        intro c' hc' hid'
        refine nodup.1 (mem_map.2 ⟨c',hc',?_⟩)
        rw [of_decide_eq_true hid',hid]
      simp [hid,none]
    · simp [hid,ih nodup.2]

theorem added_events (id : Nat)
    (h : ∀ c ∈ done,∀ event,c.event = some event →
      event.ruleId = c.rule.id ∧ w.rules c.rule.id ≠ none) :
    ((done.filterMap fun c => c.event.bind fun event =>
        (w.rules c.rule.id).map fun rule => (event,rule)).map Prod.fst).filter (·.ruleId = id) =
      (done.filter (·.rule.id = id)).filterMap Change.event := by
  induction done with
  | nil => rfl
  | cons c done ih =>
    have rest := ih fun c' hc' => h c' (mem_cons_of_mem _ hc')
    cases hev : c.event with
    | none =>
      rw [filterMap_cons_none (by simp [hev]),rest]
      by_cases hid : c.rule.id = id <;> simp [hid,hev]
    | some event =>
      obtain ⟨same,known⟩ := h c mem_cons_self event hev
      obtain ⟨rule,hr⟩ := Option.ne_none_iff_exists'.1 known
      rw [filterMap_cons_some (b := (event,rule)) (by simp [hev,hr])]
      by_cases hid : c.rule.id = id <;> simp [hid,hev,same,rest]

theorem Follows.alternates {rule : Rule} {before after : Option Incident} {event : Option Event}
    {es : List Event} (h : Follows rule before event after) (hes : Alternating es before) :
    Alternating (es ++ event.toList) after := by
  cases event with
  | none =>
    rw [toList_none,append_nil,(h : after = before)]
    exact hes
  | some e =>
    obtain ⟨_,_,⟨type,hb,ha⟩ | ⟨type,hb,ha⟩⟩ := h
    · rw [ha]
      exact .firing (hb ▸ hes) type
    · rw [ha]
      exact .recovered (hb ▸ hes) type

theorem commit_sound {now : Int} {read : Option (Option AlertState)}
    (h : Sound w) (he : w.evaluation = some ⟨now,[],read,done⟩)
    (all : ∀ c ∈ done,(applied c.loaded c.row (w.states c.rule.id)).isSome = true) :
    Sound (w.commit done) := by
  have sound := h.evaluation _ he
  have nodup : (done.map (·.rule.id)).Nodup := by simpa using sound.nodup
  have added : ∀ x ∈ done.filterMap (fun c => c.event.bind fun event =>
      (w.rules c.rule.id).map fun rule => (event,rule)),∃ c ∈ done,c.event = some x.1 ∧
        x.2 = c.rule ∧ c.rule.fields.config.enabled = true := by
    intro x hx
    obtain ⟨c,hc,hx⟩ := mem_filterMap.1 hx
    obtain ⟨event,hev,hx⟩ := Option.bind_eq_some_iff.1 hx
    obtain ⟨hr,on⟩ := (sound.done c hc).current (by simp [hev])
    rw [hr] at hx
    cases hx
    exact ⟨c,hc,hev,rfl,on⟩
  refine ⟨fun id => ?_,fun x hx => ?_,fun x hx => ?_,h.ids,fun e he => (by cases he),h.updates⟩
  · have follows : ∀ c ∈ done,∀ event,c.event = some event →
        event.ruleId = c.rule.id ∧ w.rules c.rule.id ≠ none := by
      intro c hc event hev
      have follows := (sound.done c hc).follows
      rw [hev] at follows
      rw [((sound.done c hc).current (by simp [hev])).1]
      exact ⟨follows.1,some_ne_none _⟩
    rw [eventsOf_commit,added_events id follows,filter_find nodup]
    have before := h.alternates id
    cases hf : done.find? (·.rule.id = id) with
    | none =>
      have same : (w.commit done).openOf id = w.openOf id := by
        simp only [World.openOf,World.commit,hf]
      rw [same]
      simpa using before
    | some c =>
      have hc := mem_of_find?_eq_some hf
      have hid : c.rule.id = id := by simpa using find?_some hf
      obtain ⟨state,ha⟩ := Option.isSome_iff_exists.1 (all c hc)
      have after : (w.commit done).openOf id = c.row.openIncidentId := by
        rw [← applied_open (sound.done c hc) ha]
        simp only [World.openOf,World.commit,hf]
        rw [← hid,ha]
        rfl
      have follows := (sound.done c hc).follows
      rw [hid] at follows
      rw [after]
      exact follows.alternates before
  · obtain hx | hx := mem_append.1 hx
    · exact h.current x hx
    · obtain ⟨c,hc,hev,hr,on⟩ := added x hx
      have follows := (sound.done c hc).follows
      rw [hev] at follows
      rw [hr]
      exact ⟨follows.2.1,on⟩
  · obtain hx | hx := mem_append.1 hx
    · exact h.known x hx
    · obtain ⟨c,hc,hev,hr,on⟩ := added x hx
      have follows := (sound.done c hc).follows
      rw [hev] at follows
      change w.rules x.1.ruleId ≠ none
      rw [follows.1,((sound.done c hc).current (by simp [hev])).1]
      exact some_ne_none _

theorem updates_sound {id : Nat} {u : Option Update} (h : Sound w)
    (rule : ∀ v,u = some v → w.rules id = some v.rule)
    (free : w.evaluating id = true → u.any Update.flushed = true → w.updating id = true) :
    Sound {w with updates := Function.update w.updates id u} := by
  refine h.under (fun e he => (h.evaluation e he).carry (fun _ => rfl) (fun _ _ hl => hl)
    (fun _ _ hc => hc) fun c hc hu => ?_) fun id' v hv => ?_
  · change (Function.update w.updates id u c.rule.id).any Update.flushed = false
    by_cases hid : c.rule.id = id
    · have held : w.evaluating id = true := by
        rw [World.evaluating,he]
        exact any_eq_true.2 ⟨c,hc,decide_eq_true hid⟩
      rw [hid,Function.update_self]
      rw [hid] at hu
      by_contra flushed
      have := free held (Bool.not_eq_false _ ▸ flushed)
      rw [hu] at this
      cases this
    · rw [Function.update_of_ne hid]
      exact hu
  · by_cases hid : id' = id
    · subst hid
      exact rule v (by simpa using hv)
    · exact h.updates id' v (by simpa [hid] using hv)

theorem update_open {u : Update} {state : Option AlertState} {row : AlertState}
    (ha : applied loaded (u.change loaded) state = some row) :
    row.openIncidentId = state.bind AlertState.openIncidentId := by
  unfold applied at ha
  split at ha
  · cases ha
    rfl
  · cases ha
    unfold AlertState.write Update.change resetState
    simp
  · cases ha

theorem commitUpdate_sound {id : Nat} {u : Update} {row : AlertState}
    (h : Sound w) (hu : w.updates id = some u) (flushed : u.flushed = true)
    (ha : applied loaded (u.change loaded) (w.states id) = some row) :
    Sound (w.commitUpdate id u row) := by
  have rule := h.updates id u hu
  have opens : ∀ id',(w.commitUpdate id u row).openOf id' = w.openOf id' := by
    intro id'
    change (Function.update w.states id (some row) id').bind AlertState.openIncidentId =
      w.openOf id'
    by_cases hid : id' = id
    · subst hid
      rw [Function.update_self]
      exact update_open ha
    · rw [Function.update_of_ne hid]
      rfl
  -- the state row is the update's, so no evaluation has a change for the rule
  have others : ∀ e,w.evaluation = some e → ∀ c ∈ e.done,c.rule.id ≠ id := by
    intro e he c hc hid
    have free := (h.evaluation e he).exclusive c hc
    rw [World.updating,hid,hu,any_some,flushed] at free
    cases free
  refine ⟨fun id' => ?_,h.current,fun x hx => ?_,fun id' r hr => ?_,fun e he => ?_,
    fun id' v hv => ?_⟩
  · rw [opens]
    exact h.alternates id'
  · change Function.update w.rules id _ x.1.ruleId ≠ none
    by_cases hid : x.1.ruleId = id
    · rw [hid,Function.update_self]
      exact some_ne_none _
    · rw [Function.update_of_ne hid]
      exact h.known x hx
  · change Function.update w.rules id _ id' = some r at hr
    by_cases hid : id' = id
    · subst hid
      rw [Function.update_self] at hr
      cases hr
      rfl
    · rw [Function.update_of_ne hid] at hr
      exact h.ids id' r hr
  · refine (h.evaluation e he).carry opens (fun r _ ⟨on,c,hc,le,equal⟩ => ⟨on,?_⟩)
      (fun c hc hr => ?_) fun c hc hfree => ?_
    · change ∃ c,Function.update w.rules id _ r.id = some c ∧ _
      by_cases hid : r.id = id
      · rw [hid] at hc
        cases hc.symm.trans rule
        rw [hid,Function.update_self]
        exact ⟨_,rfl,le.trans (Nat.le_succ _),fun hr => by
          have hr : r.revision = u.rule.revision+1 := hr
          omega⟩
      · rw [Function.update_of_ne hid]
        exact ⟨c,hc,le,equal⟩
    · change Function.update w.rules id _ c.rule.id = some c.rule
      rw [Function.update_of_ne (others e he c hc)]
      exact hr
    · change (Function.update w.updates id none c.rule.id).any Update.flushed = false
      rw [Function.update_of_ne (others e he c hc)]
      exact hfree
  · change Function.update w.updates id none id' = some v at hv
    change Function.update w.rules id _ id' = some v.rule
    by_cases hid : id' = id
    · rw [hid,Function.update_self] at hv
      cases hv
    · rw [Function.update_of_ne hid] at hv ⊢
      exact h.updates id' v hv

theorem step_sound {w' : World} {act : Act} (h : Sound w)
    (step : Guarded Step Meets w act w') : Sound w' := by
  obtain ⟨meets,step⟩ := step
  unfold Step next at step
  cases act with dsimp only at step
  | create id fields =>
    split at step <;> cases step
    rename_i free
    exact create_sound h free rfl
  | load ids now =>
    split at step
    · rename_i idle
      obtain ⟨rules,hr,rfl⟩ := Option.map_eq_some_iff.1 step
      obtain ⟨same,loaded⟩ := dueRules_loaded h hr
      refine h.under (fun e he => ?_) h.updates
      cases he
      refine ⟨?_,loaded,fun _ _ _ hl => (by cases hl),fun c hc => (by cases hc),
        fun c hc => (by cases hc)⟩
      change (rules.map Rule.id).Nodup
      rw [same]
      exact idle.2
    · cases step
  | read =>
    split at step <;> cases step
    rename_i now rule rest done he
    have sound := h.evaluation _ he
    refine h.under (fun e he' => ?_) h.updates
    cases he'
    refine ⟨sound.nodup,sound.rest,fun loaded rule' rest' hl hr => ?_,fun c hc => ?_,
      sound.exclusive⟩
    · cases hl
      cases hr
      rfl
    · exact ⟨(sound.done c hc).loaded,(sound.done c hc).follows,(sound.done c hc).current⟩
  | persist samples fresh =>
    split at step
    · rename_i now rule rest loaded done he
      split at step <;> cases step
      rename_i free
      exact persist_sound h he (Bool.not_eq_true _ ▸ free) rfl
        (meets now rule rest loaded done he)
    · cases step
  | commit =>
    split at step
    · rename_i now read done he
      split at step <;> cases step
      rename_i all
      exact commit_sound h he fun c hc => (Bool.and_eq_true _ _ ▸ all_eq_true.1 all c hc).1
    · cases step
  | abort =>
    cases step
    exact h.under (fun _ he => by cases he) h.updates
  | lock id fields revision =>
    split at step
    · rename_i rule hr hu
      split at step <;> cases step
      exact updates_sound h (fun v hv => by cases hv; exact hr) fun _ hf => by cases hf
    · cases step
  | readState id =>
    split at step <;> cases step
    rename_i rule fields flushed hu
    have held := h.updates id _ hu
    exact updates_sound h (fun v hv => by cases hv; exact held)
      fun _ hf => by rw [World.updating,hu]; exact hf
  | flush id =>
    split at step
    · rename_i rule fields loaded hu
      split at step <;> cases step
      rename_i free
      have held := h.updates id _ hu
      exact updates_sound h (fun v hv => by cases hv; exact held)
        fun busy => absurd busy free
    · cases step
  | commitUpdate id =>
    split at step
    · rename_i rule fields loaded hu
      obtain ⟨row,ha,rfl⟩ := Option.map_eq_some_iff.1 step
      exact commitUpdate_sound h hu rfl ha
    · cases step
  | abortUpdate id =>
    cases step
    exact updates_sound h (fun v hv => by cases hv) fun _ hf => by cases hf

theorem run_sound {w' : World} {acts : List Act} (h : Sound w)
    (run : Run (Guarded Step Meets) w acts w') : Sound w' :=
  run.invariant (fun _ _ _ h step => step_sound h step) h

/-- In every run in which an evaluation that decides on an event has loaded the rule's committed
revision, the events of a rule alternate and leave its open incident open, and none of them was
committed under another revision than the rule's or for a rule that was disabled. -/
theorem incidents_well_formed {w' : World} {acts : List Act} (h : Initial w)
    (run : Run (Guarded Step Meets) w acts w') :
    (∀ id,Alternating (w'.eventsOf id) (w'.openOf id)) ∧
      ∀ x ∈ w'.events,x.1.ruleRevision = x.2.revision ∧ x.2.fields.config.enabled = true :=
  ⟨(run_sound h.sound run).alternates,(run_sound h.sound run).current⟩

end

theorem Step.of {w w' : World} (act : Act) (h : next w act = some w') : Step w act w' := h

def cpuHot (enabled : Bool) : RuleFields where
  name := "CPU hot"
  targetId := 7
  metricKey := "cpu_pct"
  config := ⟨enabled,.gt,90,0,80,0,180,180⟩
  severity := "warning"
  sinkId := some 1

def oneRule : World where
  rules := fun id => if id = 1 then some ⟨1,cpuHot true,1⟩ else none
  states := fun id => if id = 1 then some (.fresh 1) else none
  events := []
  evaluation := none
  updates := fun _ => none

def hotSample : MetricSample := ⟨1000000,some 95,"s1"⟩

theorem oneRule_initial : Initial oneRule where
  ids := fun id rule hr => by
    unfold oneRule at hr
    dsimp only at hr
    split at hr <;> cases hr
    rename_i hid
    exact hid.symm
  states := fun id => by
    unfold World.openOf oneRule
    dsimp only
    split <;> rfl
  events := rfl
  evaluation := rfl
  updates := fun _ => rfl

theorem incidents_well_formed_firing : ∃ acts w,
    Run (Guarded Step Meets) oneRule acts w ∧ w.openOf 1 = some "a1" ∧
      Alternating (w.eventsOf 1) (w.openOf 1) := by
  have loaded : Run (Guarded Step Meets) oneRule _ _ :=
    (Run.nil oneRule).also (.of (.load [1] 1000000) rfl) trivial
  have read := loaded.also (.of .read rfl) trivial
  have fired := read.also (.of (.persist [hotSample] "a1") rfl) (fun _ _ _ _ _ he _ => by
    cases he
    rfl)
  have committed := fired.also (.of .commit rfl) trivial
  exact ⟨_,_,committed,rfl,(incidents_well_formed oneRule_initial committed).1 1⟩

/-- The rule is disabled after the evaluation has loaded it: the event is committed all the same,
under the revision that is no longer the rule's. -/
theorem firing_committed_for_disabled_rule : ∃ acts w x,
    Initial oneRule ∧ Run Step oneRule acts w ∧ x ∈ w.events ∧ x.1.eventType = .firing ∧
      x.1.ruleRevision < x.2.revision ∧ x.2.fields.config.enabled = false := by
  have loaded : Run Step oneRule _ _ := (Run.nil oneRule).snoc (.of (.load [1] 1000000) rfl)
  have locked := loaded.snoc (.of (.lock 1 (cpuHot false) 1) rfl)
  have flushed := (locked.snoc (.of (.readState 1) rfl)).snoc (.of (.flush 1) rfl)
  have disabled := flushed.snoc (.of (.commitUpdate 1) rfl)
  have fired := (disabled.snoc (.of .read rfl)).snoc (.of (.persist [hotSample] "a1") rfl)
  have committed := fired.snoc (.of .commit rfl)
  exact ⟨_,_,_,oneRule_initial,committed,mem_singleton_self _,rfl,by decide,rfl⟩

end CircuitBreaker.MetricAlerts
