import Mathlib.Logic.Function.Basic
import Mathlib.Data.List.Basic
import CircuitBreaker.StepRuns


/-! The JetStream consumers (workers/dead_letter.py, monitor_poll_worker.py,
telemetry_ingest_worker.py, notification_worker.py): a stream that delivers a message so many
times and then never again, and the workers that ack, nak, park and terminate what they fetch. -/

namespace CircuitBreaker.Workers
open StepRuns List Function

abbrev Bytes := List UInt8

inductive Consumer where
  | monitorPoll
  | telemetryIngest
  | notification

def Consumer.stream : Consumer → String
  | .monitorPoll => "MONITOR_POLL"
  | .telemetryIngest => "TELEMETRY"
  | .notification => "CB_EVENTS"

def Consumer.durable : Consumer → String
  | .monitorPoll => "monitor_pollers"
  | .telemetryIngest => "telemetry_ingest"
  | .notification => "notification_dispatch"

/-- `_MAX_DELIVER`, the same in all three workers. -/
def maxDeliver : Nat := 5

/-! dead_letter.py -/

structure FailedMessage where
  stream : String
  subject : String
  consumer : String
  payload : Bytes
  error : String
  deliveredCount : Nat

def numDelivered (metadata : Option Nat) : Nat := metadata.getD 0

inductive Disposition where
  | nak
  | park
  deriving DecidableEq

/-- What `handle_failed_delivery` does with a message; `parks` says that the row commits. -/
def handleFailedDelivery (delivered limit : Nat) (parks : Bool) : Disposition :=
  if delivered < limit then .nak else if parks then .park else .nak

/-! The workers. -/

/-- A message as a worker holds it: its place in the stream and the number of its delivery. -/
structure Delivery where
  seq : Nat
  delivered : Nat

/-- What `_num_delivered` returns of it. -/
def Delivery.count (d : Delivery) (metadata : Bool) : Nat :=
  numDelivered (if metadata then some d.delivered else none)

/-- `json.loads(m.data.decode())` in the monitor worker. -/
inductive Decoded where
  | item
  | jsonError (text : String)
  | unicodeError

structure Setup where
  consumer : Consumer
  subject : Nat → String
  data : Nat → Bytes
  decode : Bytes → Decoded
  envelope : Bytes → Bool

inductive Stage where
  | idle
  | parsing (rest parsed : List Delivery)
  | batch (ds : List Delivery)
  | single (rest : List Delivery)
  /-- the telemetry worker goes through the batch that failed; the mark says that the message
  fails on its own -/
  | failing (rest : List (Delivery × Bool)) (error : String)
  /-- in `handle_failed_delivery`; the mark says that the failure is the message's own -/
  | handling (d : Delivery) (limit : Nat) (own : Bool) (error : String) (back : Stage)
  /-- the row is committed and `term()` not yet sent -/
  | terming (d : Delivery) (back : Stage)
  | acking (rest : List Delivery) (back : Stage)

def Stage.held : Stage → List Nat
  | .idle => []
  | .parsing rest parsed => rest.map Delivery.seq++parsed.map Delivery.seq
  | .batch ds => ds.map Delivery.seq
  | .single rest => rest.map Delivery.seq
  | .failing rest _ => rest.map fun x => x.1.seq
  | .handling d _ _ _ back => d.seq::back.held
  | .terming d back => d.seq::back.held
  | .acking rest back => rest.map Delivery.seq++back.held

def Consumer.start (ds : List Delivery) : Consumer → Stage
  | .monitorPoll => .parsing ds []
  | .telemetryIngest => .batch ds
  | .notification => .single ds

inductive Status where
  | waiting
  | outstanding
  | gone
  deriving DecidableEq

/-- A committed row, the message it is of, and whether that message failed on its own. -/
structure Parked where
  seq : Nat
  own : Bool
  row : FailedMessage

structure State where
  delivered : Nat → Nat
  status : Nat → Status
  workers : Nat → Stage
  processed : Nat → Bool
  failed : List Parked

def State.moved (s : State) (w : Nat) (stage : Stage) : State :=
  {s with workers := update s.workers w stage}

def State.release (s : State) (seq : Nat) : State :=
  if s.status seq = .outstanding then
    {s with
      status := update s.status seq
        (if s.delivered seq < maxDeliver then .waiting else .gone)}
  else s

def State.remove (s : State) (seq : Nat) : State :=
  {s with status := update s.status seq .gone}

def State.process (s : State) (p : Nat → Bool) : State :=
  {s with processed := fun seq => s.processed seq || p seq}

def State.park (s : State) (p : Parked) : State := {s with failed := p::s.failed}

def State.deliver (s : State) (seqs : List Nat) : State :=
  {s with
    delivered := fun seq => if seq ∈ seqs then s.delivered seq+1 else s.delivered seq
    status := fun seq => if seq ∈ seqs then .outstanding else s.status seq}

inductive Outcome where
  | processed
  | raised (error : String)
  /-- `in_progress()` raised before the notification worker looked at the message -/
  | inProgressRaised (error : String)
  /-- `ack()` raised after the notification worker had processed it -/
  | ackRaised (error : String)

inductive Act where
  | fetch (w : Nat) (seqs : List Nat)
  | expire (seq : Nat)
  | crash (w : Nat)
  | decode (w : Nat)
  | batch (w : Nat) (fails : Nat → Bool) (error : String)
  | single (w : Nat) (outcome : Outcome)
  | handle (w : Nat) (metadata parks sent : Bool)
  | term (w : Nat) (sent : Bool)
  | ack (w : Nat) (sent : Bool)
  | next (w : Nat)

section

variable (u : Setup)

def Setup.row (d : Delivery) (error : String) (delivered : Nat) : FailedMessage where
  stream := u.consumer.stream
  subject := u.subject d.seq
  consumer := u.consumer.durable
  payload := u.data d.seq
  error := error
  deliveredCount := delivered

def State.fetched (s : State) (seqs : List Nat) : List Delivery :=
  seqs.map fun seq => ⟨seq,s.delivered seq+1⟩

def State.sent (s : State) (reached : Bool) (f : State → State) : State :=
  if reached then f s else s

inductive Step : State → Act → State → Prop where
  | fetch {s : State} {w : Nat} {seqs : List Nat} (h : s.workers w = .idle) (hd : seqs.Nodup)
      (hs : ∀ seq ∈ seqs,s.status seq = .waiting) :
      Step s (.fetch w seqs) ((s.deliver seqs).moved w (u.consumer.start (s.fetched seqs)))
  | expire {s : State} (seq : Nat) : Step s (.expire seq) (s.release seq)
  | crash {s : State} (w : Nat) : Step s (.crash w) (s.moved w .idle)
  | decodeItem {s : State} {w : Nat} {d : Delivery} {rest parsed : List Delivery}
      (h : s.workers w = .parsing (d::rest) parsed) (hd : u.decode (u.data d.seq) = .item) :
      Step s (.decode w) (s.moved w (.parsing rest (parsed++[d])))
  | decodeJson {s : State} {w : Nat} {d : Delivery} {rest parsed : List Delivery} {text : String}
      (h : s.workers w = .parsing (d::rest) parsed)
      (hd : u.decode (u.data d.seq) = .jsonError text) :
      Step s (.decode w)
        (s.moved w (.handling d 1 true ("JSONDecodeError: " ++ text) (.parsing rest parsed)))
  | decodeUnicode {s : State} {w : Nat} {d : Delivery} {rest parsed : List Delivery}
      (h : s.workers w = .parsing (d::rest) parsed)
      (hd : u.decode (u.data d.seq) = .unicodeError) : Step s (.decode w) (s.moved w .idle)
  | pollBatch {s : State} {w : Nat} {ds : List Delivery} {fails : Nat → Bool} (error : String)
      (hu : u.consumer = .monitorPoll) (h : s.workers w = .batch ds)
      (hf : ∀ d ∈ ds,fails d.seq = false) :
      Step s (.batch w fails error)
        ((s.process fun seq => seq ∈ ds.map Delivery.seq).moved w (.acking ds .idle))
  | pollBatchRaised {s : State} {w : Nat} {ds : List Delivery} {fails : Nat → Bool}
      (error : String) (hu : u.consumer = .monitorPoll) (h : s.workers w = .batch ds)
      (hf : ∃ d ∈ ds,fails d.seq = true) :
      Step s (.batch w fails error) (s.moved w (.single ds))
  | ingestBatch {s : State} {w : Nat} {ds : List Delivery} {fails : Nat → Bool} (error : String)
      (hu : u.consumer = .telemetryIngest) (h : s.workers w = .batch ds)
      (hf : ∀ d ∈ ds,fails d.seq = false) :
      Step s (.batch w fails error)
        ((s.process fun seq => seq ∈ ds.map Delivery.seq && u.envelope (u.data seq)).moved w
          (.acking ds .idle))
  | ingestBatchRaised {s : State} {w : Nat} {ds : List Delivery} {fails : Nat → Bool}
      (error : String) (hu : u.consumer = .telemetryIngest) (h : s.workers w = .batch ds)
      (hf : ∃ d ∈ ds,fails d.seq = true)
      (he : ∀ d ∈ ds,fails d.seq = true → u.envelope (u.data d.seq) = true) :
      Step s (.batch w fails error) (s.moved w (.failing (ds.map fun d => (d,fails d.seq)) error))
  | pollOne {s : State} {w : Nat} {d : Delivery} {rest : List Delivery}
      (hu : u.consumer = .monitorPoll) (h : s.workers w = .single (d::rest)) :
      Step s (.single w .processed)
        ((s.process fun seq => seq = d.seq).moved w (.acking [d] (.single rest)))
  | notifyOne {s : State} {w : Nat} {d : Delivery} {rest : List Delivery}
      (hu : u.consumer = .notification) (h : s.workers w = .single (d::rest)) :
      Step s (.single w .processed)
        (((s.process fun seq => seq = d.seq).remove d.seq).moved w (.single rest))
  | oneRaised {s : State} {w : Nat} {d : Delivery} {rest : List Delivery} (error : String)
      (h : s.workers w = .single (d::rest)) :
      Step s (.single w (.raised error))
        (s.moved w (.handling d maxDeliver true error (.single rest)))
  | inProgressRaised {s : State} {w : Nat} {d : Delivery} {rest : List Delivery} (error : String)
      (hu : u.consumer = .notification) (h : s.workers w = .single (d::rest)) :
      Step s (.single w (.inProgressRaised error))
        (s.moved w (.handling d maxDeliver false error (.single rest)))
  | ackRaised {s : State} {w : Nat} {d : Delivery} {rest : List Delivery} (error : String)
      (hu : u.consumer = .notification) (h : s.workers w = .single (d::rest)) :
      Step s (.single w (.ackRaised error)) ((s.process fun seq => seq = d.seq).moved w
          (.handling d maxDeliver false error (.single rest)))
  | handleNak {s : State} {w : Nat} {d : Delivery} {limit : Nat} {own : Bool} {error : String}
      {back : Stage} (metadata parks sent : Bool)
      (h : s.workers w = .handling d limit own error back)
      (hd : handleFailedDelivery (d.count metadata) limit parks = .nak) :
      Step s (.handle w metadata parks sent) ((s.sent sent (·.release d.seq)).moved w back)
  | handlePark {s : State} {w : Nat} {d : Delivery} {limit : Nat} {own : Bool} {error : String}
      {back : Stage} (metadata parks sent : Bool)
      (h : s.workers w = .handling d limit own error back)
      (hd : handleFailedDelivery (d.count metadata) limit parks = .park) :
      Step s (.handle w metadata parks sent)
        ((s.park ⟨d.seq,own,u.row d error (d.count metadata)⟩).moved w (.terming d back))
  | term {s : State} {w : Nat} {d : Delivery} {back : Stage} (sent : Bool)
      (h : s.workers w = .terming d back) :
      Step s (.term w sent) ((s.sent sent (·.remove d.seq)).moved w back)
  | ack {s : State} {w : Nat} {d : Delivery} {rest : List Delivery} {back : Stage} (sent : Bool)
      (h : s.workers w = .acking (d::rest) back) :
      Step s (.ack w sent) ((s.sent sent (·.remove d.seq)).moved w (.acking rest back))
  | parsed {s : State} {w : Nat} {ds : List Delivery} (h : s.workers w = .parsing [] ds) :
      Step s (.next w) (s.moved w (if ds = [] then .idle else .batch ds))
  | nextFailing {s : State} {w : Nat} {d : Delivery} {own : Bool} {rest : List (Delivery × Bool)}
      {error : String} (h : s.workers w = .failing ((d,own)::rest) error) :
      Step s (.next w) (s.moved w (.handling d maxDeliver own error (.failing rest error)))
  | failingDone {s : State} {w : Nat} {error : String} (h : s.workers w = .failing [] error) :
      Step s (.next w) (s.moved w .idle)
  | singleDone {s : State} {w : Nat} (h : s.workers w = .single []) :
      Step s (.next w) (s.moved w .idle)
  | acked {s : State} {w : Nat} {back : Stage} (h : s.workers w = .acking [] back) :
      Step s (.next w) (s.moved w back)

def Settled (s : State) (seq : Nat) : Prop :=
  s.processed seq = true ∨ ∃ p ∈ s.failed,p.seq = seq ∧ p.row.payload = u.data seq

def Left (s : State) (seq : Nat) : Prop :=
  s.status seq = .gone ∧ ∀ w,seq ∉ (s.workers w).held

def Deliverable (s : State) (seq : Nat) : Prop :=
  s.status seq ≠ .gone ∧ s.delivered seq < maxDeliver

/-- A worker may let go of a message: it is settled, it will be delivered again, or another
worker holds it. -/
def Spared (s : State) (w seq : Nat) : Prop :=
  Settled u s seq ∨ Deliverable s seq ∨ ∃ v,v ≠ w ∧ seq ∈ (s.workers v).held

def Meets (s : State) : Act → Prop
  | .crash w => ∀ seq ∈ (s.workers w).held,Spared u s w seq
  | .decode w => ∀ d rest parsed,s.workers w = .parsing (d::rest) parsed →
      u.decode (u.data d.seq) = .unicodeError → ∀ seq ∈ (s.workers w).held,Spared u s w seq
  | .batch w fails _ => ∀ ds,u.consumer = .telemetryIngest → s.workers w = .batch ds →
      if ds.any (fails ·.seq) then ∀ d ∈ ds,fails d.seq = true ∨ d.delivered < maxDeliver
      else ∀ d ∈ ds,u.envelope (u.data d.seq) = true
  | .single w (.inProgressRaised _) => ∀ d rest,s.workers w = .single (d::rest) →
      d.delivered < maxDeliver
  | .single w (.ackRaised _) => ∀ d rest,s.workers w = .single (d::rest) → d.delivered < maxDeliver
  | .handle w metadata parks _ => ∀ d limit own error back,
      s.workers w = .handling d limit own error back →
        handleFailedDelivery (d.count metadata) limit parks = .nak → Spared u s w d.seq
  | _ => True

structure Initial (s : State) : Prop where
  delivered : ∀ seq,s.delivered seq = 0
  status : ∀ seq,s.status seq = .waiting
  workers : ∀ w,s.workers w = .idle
  failed : s.failed = []

end

/-! What holds in every state of a run whose steps meet the condition. -/

def Stage.Ready (settled : Nat → Prop) : Stage → Prop
  | .failing rest _ => ∀ x ∈ rest,x.2 = true ∨ x.1.delivered < maxDeliver
  | .handling d limit own _ back => (own = true ∨ d.delivered < limit) ∧ back.Ready settled
  | .terming d back => settled d.seq ∧ back.Ready settled
  | .acking rest back => (∀ d ∈ rest,settled d.seq) ∧ back.Ready settled
  | _ => True

section

variable {u : Setup} {s : State}

def Safe (u : Setup) (s : State) (seq : Nat) : Prop :=
  Settled u s seq ∨ (∃ w,seq ∈ (s.workers w).held) ∨ Deliverable s seq

structure Sound (u : Setup) (s : State) : Prop where
  safe : ∀ seq,Safe u s seq
  stages : ∀ w,(s.workers w).Ready (Settled u s)
  own : ∀ p ∈ s.failed,p.own = true

variable {stage : Stage} {seq' : Nat} {p : Nat → Bool}

theorem Stage.Ready.mono {p q : Nat → Prop} (h : ∀ seq,p seq → q seq)
    (ready : stage.Ready p) : stage.Ready q := by
  induction stage with
  | idle | parsing | batch | single => trivial
  | failing rest error => exact ready
  | handling d limit own error back ih => exact ⟨ready.1,ih ready.2⟩
  | terming d back ih => exact ⟨h _ ready.1,ih ready.2⟩
  | acking rest back ih => exact ⟨fun d hd => h _ (ready.1 d hd),ih ready.2⟩

theorem Initial.sound (h : Initial s) : Sound u s where
  safe := fun seq => .inr (.inr ⟨by simp [h.status seq],by simp [h.delivered seq,maxDeliver]⟩)
  stages := fun w => by
    rw [h.workers w]
    trivial
  own := fun p hp => by
    rw [h.failed] at hp
    cases hp

theorem Sound.moved {t : State} {w : Nat} {stage : Stage} (h : Sound u s)
    (workers : t.workers = s.workers) (settled : ∀ seq,Settled u s seq → Settled u t seq)
    (deliverable : ∀ seq,Deliverable s seq → Settled u t seq ∨ Deliverable t seq ∨ seq ∈ stage.held)
    (own : ∀ p ∈ t.failed,p.own = true) (ready : stage.Ready (Settled u t))
    (lets : ∀ seq ∈ (s.workers w).held,seq ∈ stage.held ∨ Spared u s w seq ∨ Settled u t seq) :
    Sound u (t.moved w stage) where
  safe := fun seq => by
    have here : seq ∈ stage.held → Safe u (t.moved w stage) seq := fun hs =>
      .inr (.inl ⟨w,by simpa [State.moved] using hs⟩)
    have deliver : Deliverable s seq → Safe u (t.moved w stage) seq := fun hd => by
      obtain hs | hd | hs := deliverable seq hd
      · exact .inl hs
      · exact .inr (.inr hd)
      · exact here hs
    have there : ∀ v,v ≠ w → seq ∈ (s.workers v).held → Safe u (t.moved w stage) seq :=
      fun v hv hs => .inr (.inl ⟨v,by simpa [State.moved,workers,hv] using hs⟩)
    obtain hs | ⟨v,hs⟩ | hd := h.safe seq
    · exact .inl (settled seq hs)
    · by_cases hv : v = w
      · subst hv
        obtain hs | (hs | hd | ⟨v',hv',hs⟩) | hs := lets seq hs
        · exact here hs
        · exact .inl (settled seq hs)
        · exact deliver hd
        · exact there v' hv' hs
        · exact .inl hs
      · exact there v hv hs
    · exact deliver hd
  stages := fun v => by
    change Stage.Ready (Settled u t) (update t.workers w stage v)
    by_cases hv : v = w
    · subst hv
      rw [update_self]
      exact ready
    · rw [update_of_ne hv,workers]
      exact (h.stages v).mono settled
  own := own

variable {w : Nat}

theorem Sound.moves (h : Sound u s) (ready : stage.Ready (Settled u s))
    (lets : ∀ seq ∈ (s.workers w).held,seq ∈ stage.held ∨ Spared u s w seq) :
    Sound u (s.moved w stage) :=
  h.moved rfl (fun _ hs => hs) (fun _ hd => .inr (.inl hd)) h.own ready
    fun seq hs => (lets seq hs).imp_right .inl

variable {seq : Nat}

theorem held_same {old new : Stage} (hw : s.workers w = old)
    (same : new.held = old.held) (hs : seq ∈ (s.workers w).held) : seq ∈ new.held := by
  rw [hw] at hs
  rw [same]
  exact hs

theorem deliverable_release (h : Deliverable s seq) :
    Deliverable (s.release seq') seq := by
  unfold State.release
  split
  · refine ⟨?_,h.2⟩
    by_cases hs : seq = seq'
    · subst hs
      simp [h.2]
    · simpa [hs] using h.1
  · exact h

theorem deliverable_remove (h : Deliverable s seq) (hs : seq ≠ seq') :
    Deliverable (s.remove seq') seq :=
  ⟨by simpa [State.remove,hs] using h.1,h.2⟩

theorem settled_process (h : Settled u s seq) : Settled u (s.process p) seq :=
  h.imp_left fun h => by simp [State.process,h]

theorem settled_processed (h : p seq = true) : Settled u (s.process p) seq :=
  .inl (by simp [State.process,h])

theorem settled_remove (h : Settled u s seq) : Settled u (s.remove seq') seq := h

theorem fetch_sound {seqs : List Nat} (h : Sound u s) (hw : s.workers w = .idle) :
    Sound u ((s.deliver seqs).moved w (u.consumer.start (s.fetched seqs))) := by
  have held : (u.consumer.start (s.fetched seqs)).held = seqs := by
    cases u.consumer <;> simp [Consumer.start,Stage.held,State.fetched,comp_def]
  refine h.moved rfl (fun _ hs => hs) (fun seq hd => ?_) h.own ?_ fun seq hs => ?_
  · by_cases hs : seq ∈ seqs
    · exact .inr (.inr (held.symm ▸ hs))
    · exact .inr (.inl (by simpa [Deliverable,State.deliver,hs] using hd))
  · cases u.consumer <;> trivial
  · rw [hw] at hs
    cases hs

theorem expire_sound (h : Sound u s) : Sound u (s.release seq) := by
  have same : (s.release seq).workers = s.workers ∧ (s.release seq).failed = s.failed ∧
      Settled u (s.release seq) = Settled u s := by
    unfold State.release
    split <;> exact ⟨rfl,rfl,rfl⟩
  refine ⟨fun seq' => ?_,fun w => ?_,fun p hp => ?_⟩
  · unfold Safe
    rw [same.2.2,same.1]
    exact (h.safe seq').imp_right fun h => h.imp_right deliverable_release
  · rw [same.2.2,same.1]
    exact h.stages w
  · rw [same.2.1] at hp
    exact h.own p hp

theorem Sound.removes {sent : Bool} (h : Sound u s)
    (settled : Settled u s seq) (ready : stage.Ready (Settled u s))
    (lets : ∀ seq' ∈ (s.workers w).held,seq' = seq ∨ seq' ∈ stage.held) :
    Sound u ((s.sent sent (·.remove seq)).moved w stage) := by
  have lets : ∀ seq' ∈ (s.workers w).held,seq' ∈ stage.held ∨ Spared u s w seq' :=
    fun seq' hs => (lets seq' hs).elim (fun hq => .inr (.inl (hq ▸ settled))) .inl
  cases sent with
  | false => exact h.moves ready lets
  | true =>
    refine h.moved rfl (fun _ hs => hs) (fun seq' hd => ?_) h.own ready fun seq' hs =>
      (lets seq' hs).imp_right .inl
    by_cases hs : seq' = seq
    · subst hs
      exact .inl settled
    · exact .inr (.inl (deliverable_remove hd hs))

theorem nak_sound {sent : Bool} {back : Stage} (h : Sound u s) (ready : back.Ready (Settled u s))
    (lets : ∀ seq' ∈ (s.workers w).held,seq' = seq ∨ seq' ∈ back.held)
    (spared : Spared u s w seq) :
    Sound u ((s.sent sent (·.release seq)).moved w back) := by
  have moved := h.moves ready fun seq' hs =>
    (lets seq' hs).elim (fun hq => .inr (hq ▸ spared)) .inl
  cases sent with
  | false => exact moved
  | true =>
    have same : (s.release seq).moved w back = (s.moved w back).release seq := by
      unfold State.release
      change (State.moved (if s.status seq = _ then _ else _) w back) =
        if s.status seq = _ then _ else _
      split <;> rfl
    change Sound u ((s.release seq).moved w back)
    rw [same]
    exact expire_sound moved

theorem count_lt {d : Delivery} {limit : Nat} {metadata : Bool} (h : d.delivered < limit) :
    d.count metadata < limit := by
  cases metadata with
  | true => exact h
  | false => exact Nat.zero_lt_of_lt h

theorem park_sound {limit : Nat} {d : Delivery} {own metadata parks : Bool} {error : String}
    {back : Stage} (h : Sound u s) (hw : s.workers w = .handling d limit own error back)
    (hd : handleFailedDelivery (d.count metadata) limit parks = .park) :
    Sound u ((s.park ⟨d.seq,own,u.row d error (d.count metadata)⟩).moved w (.terming d back)) := by
  have ready := h.stages w
  rw [hw] at ready
  have parked : Settled u (s.park ⟨d.seq,own,u.row d error (d.count metadata)⟩) d.seq :=
    .inr ⟨_,mem_cons_self,rfl,rfl⟩
  have settled : ∀ seq,Settled u s seq →
      Settled u (s.park ⟨d.seq,own,u.row d error (d.count metadata)⟩) seq :=
    fun seq hs => hs.imp_right fun ⟨p,hp,hq⟩ => ⟨p,mem_cons_of_mem _ hp,hq⟩
  refine h.moved rfl settled (fun _ hd => .inr (.inl hd)) (fun p hp => ?_)
    ⟨parked,ready.2.mono settled⟩ fun seq hs => ?_
  · obtain rfl | hp := mem_cons.1 hp
    · obtain own | left := ready.1
      · exact own
      · rw [handleFailedDelivery,if_pos (count_lt left)] at hd
        cases hd
    · exact h.own p hp
  · rw [hw] at hs
    exact .inl hs

theorem batch_sound {ds : List Delivery} (h : Sound u s)
    (hw : s.workers w = .batch ds) (hp : ∀ d ∈ ds,p d.seq = true) :
    Sound u ((s.process p).moved w (.acking ds .idle)) :=
  h.moved rfl (fun _ hs => settled_process hs) (fun _ hd => .inr (.inl hd)) h.own
    ⟨fun d hd => settled_processed (hp d hd),trivial⟩ fun seq hs => .inl (by
      rw [hw] at hs
      simpa [Stage.held] using hs)

theorem step_sound {t : State} {act : Act} (h : Sound u s)
    (step : Guarded (Step u) (Meets u) s act t) : Sound u t := by
  obtain ⟨meets,step⟩ := step
  cases step with
  | fetch hw hd hs => exact fetch_sound h hw
  | expire seq => exact expire_sound h
  | crash w => exact h.moves trivial fun seq hs => .inr (meets seq hs)
  | @decodeItem w d rest parsed hw hd =>
    refine h.moves trivial fun seq hs => .inl ?_
    rw [hw] at hs
    simp only [Stage.held,map_cons,cons_append,mem_cons,mem_append, map_append,map_nil] at hs ⊢
    tauto
  | decodeJson hw hd =>
    refine h.moves ⟨.inl rfl,trivial⟩ fun seq hs => .inl ?_
    rw [hw] at hs
    exact hs
  | decodeUnicode hw hd =>
    exact h.moves trivial fun seq hs => .inr (meets _ _ _ hw hd seq hs)
  | pollBatch error hu hw hf => exact batch_sound h hw fun d hd => by simpa using ⟨d,hd,rfl⟩
  | pollBatchRaised error hu hw hf | failingDone hw | singleDone hw =>
    exact h.moves trivial fun seq hs => .inl (held_same hw rfl hs)
  | @ingestBatch w ds fails error hu hw hf =>
    have none : ds.any (fun d => fails d.seq) = false := any_eq_false.2 fun d hd => by
      simp [hf d hd]
    have meets := meets ds hu hw
    rw [none] at meets
    exact batch_sound h hw fun d hd => by
      rw [Bool.and_eq_true]
      exact ⟨by simpa using ⟨d,hd,rfl⟩,meets d hd⟩
  | @ingestBatchRaised w ds fails error hu hw hf he =>
    have some : ds.any (fun d => fails d.seq) = true := any_eq_true.2 hf
    have meets := meets ds hu hw
    rw [some] at meets
    refine h.moves (fun x hx => ?_) fun seq hs => .inl ?_
    · obtain ⟨d,hd,rfl⟩ := mem_map.1 hx
      exact meets d hd
    · rw [hw] at hs
      simpa [Stage.held,comp_def] using hs
  | @pollOne w d rest hu hw =>
    refine h.moved rfl (fun _ hs => settled_process hs) (fun _ hd => .inr (.inl hd)) h.own
      ⟨fun d' hd' => ?_,trivial⟩ fun seq hs => .inl (held_same hw rfl hs)
    rw [mem_singleton.1 hd']
    exact settled_processed (by simp)
  | @notifyOne w d rest hu hw =>
    have settled : Settled u ((s.process fun seq => seq = d.seq).remove d.seq) d.seq :=
      settled_remove (settled_processed (by simp))
    refine h.moved rfl (fun _ hs => settled_remove (settled_process hs)) (fun seq hd => ?_) h.own trivial
      fun seq hs => ?_
    · by_cases hs : seq = d.seq
      · exact .inl (hs ▸ settled)
      · exact .inr (.inl (deliverable_remove (s := s.process _) hd hs))
    · rw [hw] at hs
      obtain rfl | hs := mem_cons.1 hs
      · exact .inr (.inr settled)
      · exact .inl hs
  | oneRaised error hw =>
    exact h.moves ⟨.inl rfl,trivial⟩ fun seq hs => .inl (held_same hw rfl hs)
  | inProgressRaised error hu hw =>
    exact h.moves ⟨.inr (meets _ _ hw),trivial⟩ fun seq hs => .inl (held_same hw rfl hs)
  | ackRaised error hu hw =>
    exact h.moved rfl (fun _ hs => settled_process hs) (fun _ hd => .inr (.inl hd)) h.own
      ⟨.inr (meets _ _ hw),trivial⟩ fun seq hs => .inl (held_same hw rfl hs)
  | @handleNak w d limit own error back metadata parks sent hw hd =>
    have ready := h.stages w
    rw [hw] at ready
    refine nak_sound h ready.2 (fun seq hs => ?_) (meets _ _ _ _ _ hw hd)
    rw [hw] at hs
    exact mem_cons.1 hs
  | handlePark metadata parks sent hw hd => exact park_sound h hw hd
  | @term w d back sent hw =>
    have ready := h.stages w
    rw [hw] at ready
    refine h.removes ready.1 ready.2 fun seq hs => ?_
    rw [hw] at hs
    exact mem_cons.1 hs
  | @ack w d rest back sent hw =>
    have ready := h.stages w
    rw [hw] at ready
    refine h.removes (ready.1 d mem_cons_self)
      ⟨fun d' hd' => ready.1 d' (mem_cons_of_mem _ hd'),ready.2⟩ fun seq hs => ?_
    rw [hw] at hs
    exact mem_cons.1 hs
  | @parsed w ds hw =>
    refine h.moves (by split <;> trivial) fun seq hs => .inl ?_
    rw [hw] at hs
    split
    · rename_i empty
      simp [empty,Stage.held] at hs
    · exact hs
  | @nextFailing w d own rest error hw =>
    have ready := h.stages w
    rw [hw] at ready
    exact h.moves ⟨ready _ mem_cons_self,fun x hx => ready x (mem_cons_of_mem _ hx)⟩
      fun seq hs => .inl (held_same hw rfl hs)
  | @acked w back hw =>
    have ready := h.stages w
    rw [hw] at ready
    exact h.moves ready.2 fun seq hs => .inl (held_same hw rfl hs)

theorem run_sound {t : State} {acts : List Act} (h : Sound u s)
    (run : Run (Guarded (Step u) (Meets u)) s acts t) : Sound u t :=
  run.invariant (fun _ _ _ h step => step_sound h step) h

/-- In every run whose steps meet the condition, a message that has left was processed or is
parked with its payload, and what is parked failed on its own. -/
theorem no_work_lost {t : State} {acts : List Act} (h : Initial s)
    (run : Run (Guarded (Step u) (Meets u)) s acts t) :
    (∀ seq,Left t seq → t.processed seq = true ∨
        ∃ p ∈ t.failed,p.seq = seq ∧ p.row.payload = u.data seq) ∧
      ∀ p ∈ t.failed,p.own = true := by
  have sound := run_sound h.sound run
  refine ⟨fun seq left => ?_,sound.own⟩
  obtain settled | ⟨w,held⟩ | deliverable := sound.safe seq
  · exact settled
  · exact absurd held (left.2 w)
  · exact absurd left.1 deliverable.1

end

def alerts : Setup where
  consumer := .notification
  subject := fun _ => "alert.monitor"
  data := fun _ => [123,125]
  decode := fun _ => .item
  envelope := fun _ => true

def deliveredTimes (n : Nat) : State where
  delivered := fun seq => if seq = 0 then n else 0
  status := fun _ => .waiting
  workers := fun _ => .idle
  processed := fun _ => false
  failed := []

theorem deliveredTimes_initial : Initial (deliveredTimes 0) :=
  ⟨fun _ => ite_self _,fun _ => rfl,fun _ => rfl,rfl⟩

theorem fetch_first {s : State} (h : s.workers 0 = .idle) (hs : s.status 0 = .waiting) :
    Step alerts s (.fetch 0 [0]) ((s.deliver [0]).moved 0 (.single [⟨0,s.delivered 0+1⟩])) :=
  .fetch h (by simp) (by simpa using hs)

theorem left_of_moved {s : State} {w seq : Nat} {stage : Stage} (gone : s.status seq = .gone)
    (others : ∀ v,v ≠ w → (s.workers v).held = []) (h : stage.held = []) :
    Left (s.moved w stage) seq := by
  refine ⟨gone,fun v => ?_⟩
  change seq ∉ (update s.workers w stage v).held
  by_cases hv : v = w
  · subst hv
    rw [update_self,h]
    exact not_mem_nil
  · rw [update_of_ne hv,others v hv]
    exact not_mem_nil

theorem no_work_lost_alert : ∃ acts t,
    Run (Guarded (Step alerts) (Meets alerts)) (deliveredTimes 0) acts t ∧ Left t 0 ∧
      (t.processed 0 = true ∨ ∃ p ∈ t.failed,p.seq = 0 ∧ p.row.payload = alerts.data 0) := by
  have fetched : Run (Guarded (Step alerts) (Meets alerts)) (deliveredTimes 0) _ _ :=
    (Run.nil _).also (fetch_first rfl rfl) trivial
  have done := fetched.also (.notifyOne (w := 0) rfl rfl) trivial
  have left : Left ((((((deliveredTimes 0).deliver [0]).moved 0 (.single [⟨0,1⟩])).process
      fun seq => seq = 0).remove 0).moved 0 (.single [])) 0 :=
    left_of_moved rfl (fun v hv => by
      simp [State.moved,State.remove,State.process,State.deliver,deliveredTimes,hv,Stage.held]) rfl
  exact ⟨_,_,done,left,(no_work_lost deliveredTimes_initial done).1 0 left⟩

theorem deliveredTimes_crash {n : Nat} (h : n+1 < maxDeliver) : ∃ acts,
    Run (Step alerts) (deliveredTimes n) acts (deliveredTimes (n+1)) := by
  have fetched : Run (Step alerts) (deliveredTimes n) _ _ :=
    (Run.nil _).snoc (fetch_first rfl rfl)
  have expired := (fetched.snoc (.crash 0)).snoc (.expire 0)
  have same : (((deliveredTimes n).deliver [0]).moved 0 .idle).release 0 =
      deliveredTimes (n+1) := by
    rw [State.release,if_pos (by simp [State.moved,State.deliver])]
    unfold State.moved State.deliver deliveredTimes
    congr 1
    · funext seq
      by_cases hs : seq = 0 <;> simp [hs]
    · funext seq
      by_cases hs : seq = 0 <;> simp [hs,h]
    · funext w
      by_cases hw : w = 0 <;> simp [hw]
  have idle : (((deliveredTimes n).deliver [0]).moved 0
      (.single [⟨0,(deliveredTimes n).delivered 0+1⟩])).moved 0 .idle =
      ((deliveredTimes n).deliver [0]).moved 0 .idle := by
    unfold State.moved
    simp
  rw [idle,same] at expired
  exact ⟨_,expired⟩

/-- The database fails while the last delivery is parked: the message is naked, is not delivered
again, and no row holds it. -/
theorem failed_parking_loses_alert : ∃ acts t,
    Initial (deliveredTimes 0) ∧ Run (Step alerts) (deliveredTimes 0) acts t ∧ Left t 0 ∧
      t.processed 0 = false ∧ t.failed = [] := by
  obtain ⟨_,first⟩ := deliveredTimes_crash (n := 0) (by decide)
  obtain ⟨_,second⟩ := deliveredTimes_crash (n := 1) (by decide)
  obtain ⟨_,third⟩ := deliveredTimes_crash (n := 2) (by decide)
  obtain ⟨_,fourth⟩ := deliveredTimes_crash (n := 3) (by decide)
  have fetched := (((first.append second).append third).append fourth).snoc (fetch_first rfl rfl)
  have raised := fetched.snoc (.oneRaised (w := 0) "the sink is down" rfl)
  have naked := raised.snoc (.handleNak (w := 0) true false true rfl (by decide))
  refine ⟨_,_,deliveredTimes_initial,naked,left_of_moved rfl (fun v hv => ?_) rfl,rfl,rfl⟩
  simp [State.sent,State.release,State.moved,State.deliver,deliveredTimes,hv,Stage.held]

end CircuitBreaker.Workers
