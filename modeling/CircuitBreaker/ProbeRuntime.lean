import CircuitBreaker.StepRuns
import Mathlib.Data.List.Nodup
import Mathlib.Data.List.Perm.Basic
import Mathlib.Logic.Function.Basic

/-! The agent's probe runtime (collect/probe/runtime.go): assignments wait in a channel, and in a map
by their ids, until a dispatcher has a slot for them. A step is what one goroutine does under one
lock or to one channel. -/

namespace CircuitBreaker.ProbeRuntime
open StepRuns List

def queueCapacity : Nat := 100
def resultBufferSize : Nat := 2*queueCapacity
def defaultMaxConcurrent : Nat := 20

def clampConcurrency (n : Int) : Nat := if n ≤ 0 then defaultMaxConcurrent else n.toNat

inductive RunState where
  | queued
  | running
  | done
  deriving DecidableEq

inductive Outcome where
  | completed
  | executionError
  | cancelled
  | rejected
  deriving DecidableEq

variable {ι : Type}

/-- A run, or an assignment that is refused. The last three fields are kept for the statements and
read by nothing: whether its Assign has put it into the channel, whether it is refused, and
whether its worker has reported. -/
structure Entry (ι : Type) where
  runId : ι
  state : RunState := .queued
  cancelled : Bool := false
  cancelReason : String := ""
  accepted : Bool := false
  refused : Bool := false
  reported : Bool := false

/-- Where a goroutine stands within Assign, or within the loop of cancellations. -/
inductive Caller where
  | push (e : Nat)
  | full (e : Nat)
  | refuse (e : Nat)
  | snapshot (reason : String)
  | cancel (es : List Nat) (reason : String)
  | forget (e : Nat) (es : List Nat) (reason : String)
  | finish (e : Nat) (es : List Nat) (reason : String)

inductive Dispatcher where
  | waiting
  | slot
  | taken (e : Nat)
  | stopped

inductive Phase where
  | begin
  | check
  | judge (outcome : Outcome)
  | report (outcome : Outcome)
  | forget
  | release
  deriving DecidableEq

/-- The last field is kept for the statements: the largest limit in force since it was started. -/
structure Worker where
  entry : Nat
  phase : Phase
  peak : Nat

inductive Frame where
  | result (e : Nat) (outcome : Outcome)
  | capabilityViolation

/-- The fields below `results` are kept for the statements: all frames the buffer has taken, and
whether it was ever full. -/
structure Runtime (ι : Type) where
  entries : List (Entry ι) := []
  runs : ι → Option Nat := fun _ => none
  queue : List Nat := []
  enabled : Bool := true
  maxConcurrent : Nat
  inFlight : Nat := 0
  callers : List Caller := []
  dispatcher : Dispatcher := .waiting
  workers : List Worker := []
  stopped : Bool := false
  results : List Frame := []
  sent : List Frame := []
  brimful : Bool := false

def start (maxConcurrent : Int) : Runtime ι := { maxConcurrent := clampConcurrency maxConcurrent }

/-- `emit`: a frame is dropped when the buffer is full. -/
def Runtime.emit (s : Runtime ι) (f : Frame) : Runtime ι :=
  if s.results.length < resultBufferSize then
    { s with
      results := s.results++[f]
      sent := s.sent++[f]
      brimful := s.brimful || s.results.length+1 = resultBufferSize }
  else s

def Runtime.put (s : Runtime ι) (e : Nat) (x : Entry ι) : Runtime ι :=
  { s with entries := s.entries.set e x }

/-- The worker's `finish`. -/
def Runtime.reportOf (s : Runtime ι) (e : Nat) (x : Entry ι) (outcome : Outcome) : Runtime ι :=
  (s.put e { x with reported := true }).emit (.result e outcome)

/-- `forget` -/
def Runtime.drop [DecidableEq ι] (s : Runtime ι) (id : ι) : Runtime ι := { s with runs := Function.update s.runs id none }

def Dispatcher.held : Dispatcher → List Nat
  | .taken e => [e]
  | _ => []

inductive Act (ι : Type) where
  | assign (id : ι) (wellFormed : Bool)
  | cancel (id : ι) (reason : String)
  | disable (reason : String)
  | configure (maxConcurrent : Int)
  | stop
  | caller
  | dispatcher
  | worker
  | pump

/-- An assignment without a usable run id changes nothing and is no step. -/
inductive Step [DecidableEq ι] : Runtime ι → Act ι → Runtime ι → Prop where
  | refuse {s : Runtime ι} {id : ι} {wellFormed : Bool}
      (h : wellFormed = false ∨ s.enabled = false) :
      Step s (.assign id wellFormed) { s with
        entries := s.entries++[{ runId := id, refused := true }]
        callers := s.callers++[.refuse s.entries.length] }
  | duplicate {s : Runtime ι} {id : ι} (on : s.enabled = true) (there : s.runs id ≠ none) :
      Step s (.assign id true) s
  | register {s : Runtime ι} {id : ι} (on : s.enabled = true) (fresh : s.runs id = none) :
      Step s (.assign id true) { s with
        entries := s.entries++[{ runId := id }]
        runs := Function.update s.runs id (some s.entries.length)
        callers := s.callers++[.push s.entries.length] }
  | pushed {s : Runtime ι} {before after : List Caller} {e : Nat} {x : Entry ι}
      (hc : s.callers = before++.push e::after) (hx : s.entries[e]? = some x)
      (room : s.queue.length < queueCapacity) :
      Step s .caller { s.put e { x with accepted := true } with
        queue := s.queue++[e]
        callers := before++after }
  | overflow {s : Runtime ι} {before after : List Caller} {e : Nat} {x : Entry ι}
      (hc : s.callers = before++.push e::after) (hx : s.entries[e]? = some x)
      (full : ¬s.queue.length < queueCapacity) :
      Step s .caller { s.put e { x with refused := true } with callers := before++.full e::after }
  | fullForget {s : Runtime ι} {before after : List Caller} {e : Nat} {x : Entry ι}
      (hc : s.callers = before++.full e::after) (hx : s.entries[e]? = some x) :
      Step s .caller { s.drop x.runId with callers := before++.refuse e::after }
  | refused {s : Runtime ι} {before after : List Caller} {e : Nat}
      (hc : s.callers = before++.refuse e::after) :
      Step s .caller { s.emit (.result e .rejected) with callers := before++after }
  | cancelUnknown {s : Runtime ι} {id : ι} {reason : String} (absent : s.runs id = none) :
      Step s (.cancel id reason) s
  | cancelFound {s : Runtime ι} {id : ι} {e : Nat} {reason : String} (there : s.runs id = some e) :
      Step s (.cancel id reason) { s with callers := s.callers++[.cancel [e] reason] }
  | disable {s : Runtime ι} {reason : String} :
      Step s (.disable reason) { s with
        enabled := false
        callers := s.callers++[.snapshot reason] }
  | configure {s : Runtime ι} {n : Int} :
      Step s (.configure n) { s with
        maxConcurrent := clampConcurrency n
        enabled := true
        workers := s.workers.map fun w => { w with peak := max w.peak (clampConcurrency n) } }
  | stop {s : Runtime ι} :
      Step s .stop { s with
        stopped := true
        callers := s.callers++[.snapshot "agent_stopping"] }
  | snapshot {s : Runtime ι} {before after : List Caller} {reason : String} {es : List Nat}
      (hc : s.callers = before++.snapshot reason::after) (nodup : es.Nodup)
      (all : ∀ e, e ∈ es ↔ ∃ id, s.runs id = some e) :
      Step s .caller { s with callers := before++.cancel es reason::after }
  | cancelQueued {s : Runtime ι} {before after : List Caller} {e : Nat} {es : List Nat}
      {reason : String} {x : Entry ι} (hc : s.callers = before++.cancel (e::es) reason::after)
      (hx : s.entries[e]? = some x) (queued : x.state = .queued) :
      Step s .caller { s.put e { x with cancelled := true, cancelReason := reason, state := .done }
        with callers := before++.forget e es reason::after }
  | cancelOther {s : Runtime ι} {before after : List Caller} {e : Nat} {es : List Nat}
      {reason : String} {x : Entry ι} (hc : s.callers = before++.cancel (e::es) reason::after)
      (hx : s.entries[e]? = some x) (other : x.state ≠ .queued) :
      Step s .caller { s.put e { x with cancelled := true, cancelReason := reason } with
        callers := before++.cancel es reason::after }
  | cancelEnd {s : Runtime ι} {before after : List Caller} {reason : String}
      (hc : s.callers = before++.cancel [] reason::after) :
      Step s .caller { s with callers := before++after }
  | cancelForget {s : Runtime ι} {before after : List Caller} {e : Nat} {es : List Nat}
      {reason : String} {x : Entry ι} (hc : s.callers = before++.forget e es reason::after)
      (hx : s.entries[e]? = some x) :
      Step s .caller { s.drop x.runId with callers := before++.finish e es reason::after }
  | cancelFinish {s : Runtime ι} {before after : List Caller} {e : Nat} {es : List Nat}
      {reason : String} (hc : s.callers = before++.finish e es reason::after) :
      Step s .caller { s.emit (.result e .cancelled) with
        callers := before++.cancel es reason::after }
  | slot {s : Runtime ι} (hd : s.dispatcher = .waiting) (free : s.inFlight < s.maxConcurrent) :
      Step s .dispatcher { s with dispatcher := .slot }
  | take {s : Runtime ι} {e : Nat} {rest : List Nat} (hd : s.dispatcher = .slot)
      (hq : s.queue = e::rest) :
      Step s .dispatcher { s with
        dispatcher := .taken e
        queue := rest }
  | spawn {s : Runtime ι} {e : Nat} (hd : s.dispatcher = .taken e) :
      Step s .dispatcher { s with
        dispatcher := .waiting
        inFlight := s.inFlight+1
        workers := s.workers++[⟨e,.begin,s.maxConcurrent⟩] }
  | halt {s : Runtime ι} (stopped : s.stopped = true) (idle : s.dispatcher.held = []) :
      Step s .dispatcher { s with dispatcher := .stopped }
  | begin {s : Runtime ι} {before after : List Worker} {w : Worker} {x : Entry ι}
      (hw : s.workers = before++w::after) (phase : w.phase = .begin)
      (hx : s.entries[w.entry]? = some x) (queued : x.state = .queued) :
      Step s .worker { s.put w.entry { x with state := .running } with
        workers := before++{ w with phase := .check }::after }
  | skip {s : Runtime ι} {before after : List Worker} {w : Worker} {x : Entry ι}
      (hw : s.workers = before++w::after) (phase : w.phase = .begin)
      (hx : s.entries[w.entry]? = some x) (other : x.state ≠ .queued) :
      Step s .worker { s with workers := before++{ w with phase := .release }::after }
  | checked {s : Runtime ι} {before after : List Worker} {w : Worker} {outcome : Outcome}
      (hw : s.workers = before++w::after) (phase : w.phase = .check) :
      Step s .worker { s with workers := before++{ w with phase := .judge outcome }::after }
  | violation {s : Runtime ι} {before after : List Worker} {w : Worker}
      (hw : s.workers = before++w::after) (phase : w.phase = .check) :
      Step s .worker { s.emit .capabilityViolation with
        workers := before++{ w with phase := .judge .rejected }::after }
  | judge {s : Runtime ι} {before after : List Worker} {w : Worker} {x : Entry ι}
      {outcome : Outcome} (hw : s.workers = before++w::after) (phase : w.phase = .judge outcome)
      (hx : s.entries[w.entry]? = some x) :
      Step s .worker { s with workers := before++
        { w with phase := .report (if x.cancelled then .cancelled else outcome) }::after }
  | report {s : Runtime ι} {before after : List Worker} {w : Worker} {x : Entry ι}
      {outcome : Outcome} (hw : s.workers = before++w::after) (phase : w.phase = .report outcome)
      (hx : s.entries[w.entry]? = some x) :
      Step s .worker { s.reportOf w.entry x outcome with
        workers := before++{ w with phase := .forget }::after }
  | forgetRun {s : Runtime ι} {before after : List Worker} {w : Worker} {x : Entry ι}
      (hw : s.workers = before++w::after) (phase : w.phase = .forget)
      (hx : s.entries[w.entry]? = some x) :
      Step s .worker { s.drop x.runId with
        workers := before++{ w with phase := .release }::after }
  | release {s : Runtime ι} {before after : List Worker} {w : Worker}
      (hw : s.workers = before++w::after) (phase : w.phase = .release) :
      Step s .worker { s with
        inFlight := s.inFlight-1
        workers := before++after }
  | pump {s : Runtime ι} {f : Frame} {rest : List Frame} (hr : s.results = f::rest) :
      Step s .pump { s with results := rest }

def Entry.isOpen (x : Entry ι) : Bool :=
  (x.state = .queued && !x.cancelled) || (x.state = .running && !x.reported)

def Runtime.openAccepted (s : Runtime ι) (e : Nat) : Bool :=
  (s.entries[e]?).any fun x => x.accepted && x.isOpen

def Runtime.openOthers (s : Runtime ι) (e : Nat) : List Nat :=
  (List.range s.entries.length).filter fun i => s.openAccepted i && i ≠ e

def Runtime.cancelledQueued (s : Runtime ι) : List Nat :=
  s.queue.filter fun i => (s.entries[i]?).any fun x => x.cancelled

def Runtime.openOutside (s : Runtime ι) : List Nat :=
  (List.range s.entries.length).filter fun i => s.openAccepted i && i ∉ s.queue

/-! What holds of the channel, the dispatcher and the workers in every run. -/

def Caller.pushing : Caller → List Nat
  | .push e => [e]
  | _ => []

def Runtime.places (s : Runtime ι) : List Nat :=
  s.queue++s.dispatcher.held++s.workers.map (·.entry)

def Entry.Coherent (x : Entry ι) : Prop :=
  (x.state = .queued → x.cancelled = false) ∧ (x.state = .done → x.cancelled = true)

structure Channel (s : Runtime ι) : Prop where
  coherent : ∀ x ∈ s.entries, x.Coherent
  bounded : s.queue.length ≤ queueCapacity
  nodup : s.places.Nodup
  accepted : ∀ e ∈ s.places, ∃ x, s.entries[e]? = some x ∧ x.accepted = true
  waiting : ∀ e ∈ s.queue, ∀ x, s.entries[e]? = some x → x.state ≠ .running
  pushing : (s.callers.flatMap Caller.pushing).Nodup
  unaccepted : ∀ e ∈ s.callers.flatMap Caller.pushing,
    ∃ x, s.entries[e]? = some x ∧ x.accepted = false ∧ x.state ≠ .running

variable {s t : Runtime ι}

theorem Channel.same (h : Channel s) (he : t.entries = s.entries)
    (hq : t.queue = s.queue) (hp : t.places = s.places)
    (hc : t.callers.flatMap Caller.pushing = s.callers.flatMap Caller.pushing) : Channel t where
  coherent := he ▸ h.coherent
  bounded := hq ▸ h.bounded
  nodup := hp ▸ h.nodup
  accepted := by
    rw [he,hp]
    exact h.accepted
  waiting := by
    rw [he,hq]
    exact h.waiting
  pushing := hc ▸ h.pushing
  unaccepted := by
    rw [he,hc]
    exact h.unaccepted

theorem get_set {l : List (Entry ι)} {e : Nat} {x x' : Entry ι} (hx : l[e]? = some x) (i : Nat) :
    (l.set e x')[i]? = if i = e then some x' else l[i]? := by
  have inside : e < l.length := (List.getElem?_eq_some_iff.1 hx).1
  by_cases hi : i = e
  · subst hi
    rw [if_pos rfl,List.getElem?_set_self inside]
  · rw [if_neg hi,List.getElem?_set_ne (Ne.symm hi)]

theorem get_append {l : List (Entry ι)} {y : Entry ι} {i : Nat} {x : Entry ι} (hx : l[i]? = some x) :
    (l++[y])[i]? = some x := by
  rw [List.getElem?_append_left (List.getElem?_eq_some_iff.1 hx).1,hx]

theorem Channel.put (h : Channel s) {e : Nat} {x x' : Entry ι}
    (hx : s.entries[e]? = some x) (he : t.entries = s.entries.set e x') (hq : t.queue = s.queue)
    (hp : t.places = s.places)
    (hc : (t.callers.flatMap Caller.pushing).Sublist (s.callers.flatMap Caller.pushing))
    (coherent : x'.Coherent) (accepted : x'.accepted = x.accepted)
    (started : x'.state = .running → x.state = .running ∨
      (e ∉ s.queue ∧ e ∉ s.callers.flatMap Caller.pushing)) : Channel t where
  coherent := by
    intro y hy
    rw [he] at hy
    rcases mem_or_eq_of_mem_set hy with hy | rfl
    · exact h.coherent y hy
    · exact coherent
  bounded := hq ▸ h.bounded
  nodup := hp ▸ h.nodup
  accepted := by
    intro i hi
    rw [hp] at hi
    obtain ⟨y,hy,ha⟩ := h.accepted i hi
    rw [he,get_set hx]
    by_cases hie : i = e
    · subst hie
      rw [hx] at hy
      cases hy
      exact ⟨x',if_pos rfl,accepted.trans ha⟩
    · rw [if_neg hie]
      exact ⟨y,hy,ha⟩
  waiting := by
    intro i hi y hy running
    rw [hq] at hi
    rw [he,get_set hx] at hy
    by_cases hie : i = e
    · subst hie
      rw [if_pos rfl] at hy
      cases hy
      rcases started running with still | left
      · exact h.waiting i hi x hx still
      · exact left.1 hi
    · rw [if_neg hie] at hy
      exact h.waiting i hi y hy running
  pushing := h.pushing.sublist hc
  unaccepted := by
    intro i hi
    have hi := hc.subset hi
    obtain ⟨y,hy,ha,hr⟩ := h.unaccepted i hi
    rw [he,get_set hx]
    by_cases hie : i = e
    · subst hie
      rw [hx] at hy
      cases hy
      refine ⟨x',if_pos rfl,accepted.trans ha,fun running => ?_⟩
      rcases started running with still | left
      · exact hr still
      · exact left.2 hi
    · rw [if_neg hie]
      exact ⟨y,hy,ha,hr⟩

theorem Channel.append (h : Channel s) {x : Entry ι}
    (he : t.entries = s.entries++[x]) (hq : t.queue = s.queue) (hp : t.places = s.places)
    (hc : t.callers.flatMap Caller.pushing = s.callers.flatMap Caller.pushing ∨
      t.callers.flatMap Caller.pushing = s.callers.flatMap Caller.pushing++[s.entries.length])
    (coherent : x.Coherent) (unaccepted : x.accepted = false) (idle : x.state ≠ .running) :
    Channel t where
  coherent := by
    intro y hy
    rw [he] at hy
    rcases mem_append.1 hy with hy | hy
    · exact h.coherent y hy
    · rw [mem_singleton.1 hy]
      exact coherent
  bounded := hq ▸ h.bounded
  nodup := hp ▸ h.nodup
  accepted := by
    intro i hi
    rw [hp] at hi
    obtain ⟨y,hy,ha⟩ := h.accepted i hi
    exact ⟨y,by rw [he,get_append hy],ha⟩
  waiting := by
    intro i hi y hy
    rw [hq] at hi
    obtain ⟨z,hz,-⟩ := h.accepted i (mem_append_left _ (mem_append_left _ hi))
    rw [he,get_append hz] at hy
    cases hy
    exact h.waiting i hi _ hz
  pushing := by
    rcases hc with hc | hc
    · rw [hc]
      exact h.pushing
    · rw [hc,nodup_append]
      refine ⟨h.pushing,nodup_singleton _,fun a ha b hb hab => ?_⟩
      obtain ⟨y,hy,-⟩ := h.unaccepted a ha
      have inside := (List.getElem?_eq_some_iff.1 hy).1
      rw [mem_singleton.1 hb] at hab
      omega
  unaccepted := by
    intro i hi
    have old : i ∈ s.callers.flatMap Caller.pushing ∨ i = s.entries.length := by
      rcases hc with hc | hc
      · rw [hc] at hi
        exact .inl hi
      · rw [hc] at hi
        exact (mem_append.1 hi).imp_right mem_singleton.1
    rcases old with hi | rfl
    · obtain ⟨y,hy,ha⟩ := h.unaccepted i hi
      exact ⟨y,by rw [he,get_append hy],ha⟩
    · refine ⟨x,?_,unaccepted,idle⟩
      rw [he,List.getElem?_append_right (Nat.le_refl _),Nat.sub_self]
      rfl

theorem Channel.move (h : Channel s) (he : t.entries = s.entries)
    (hq : t.queue.Sublist s.queue) (hp : ∃ l, t.places.Perm l ∧ l.Sublist s.places)
    (hc : t.callers = s.callers) : Channel t := by
  obtain ⟨l,perm,sub⟩ := hp
  constructor
  case coherent => exact he ▸ h.coherent
  case bounded => exact Nat.le_trans hq.length_le h.bounded
  case nodup => exact perm.nodup_iff.2 (h.nodup.sublist sub)
  case accepted =>
    rw [he]
    exact fun e hin => h.accepted e (sub.subset (perm.subset hin))
  case waiting =>
    rw [he]
    exact fun e hin => h.waiting e (hq.subset hin)
  case pushing => exact hc ▸ h.pushing
  case unaccepted =>
    rw [he,hc]
    exact h.unaccepted

structure Emitted (s t : Runtime ι) : Prop where
  entries : t.entries = s.entries
  queue : t.queue = s.queue
  callers : t.callers = s.callers
  dispatcher : t.dispatcher = s.dispatcher
  runs : t.runs = s.runs
  workers : t.workers = s.workers

theorem Emitted.places (h : Emitted s t) : t.places = s.places := by
  rw [Runtime.places,Runtime.places,h.queue,h.dispatcher,h.workers]

theorem emitted (s : Runtime ι) (f : Frame) : Emitted s (s.emit f) := by
  rw [Runtime.emit]
  split
  · exact ⟨rfl,rfl,rfl,rfl,rfl,rfl⟩
  · exact ⟨rfl,rfl,rfl,rfl,rfl,rfl⟩

theorem pushing_swap {before after : List Caller} {c c' : Caller} (h : c'.pushing = c.pushing) :
    (before++c'::after).flatMap Caller.pushing = (before++c::after).flatMap Caller.pushing := by
  simp only [flatMap_append,flatMap_cons,h]

theorem pushing_remove {before after : List Caller} {c : Caller} (h : c.pushing = []) :
    (before++after).flatMap Caller.pushing = (before++c::after).flatMap Caller.pushing := by
  simp only [flatMap_append,flatMap_cons,h,nil_append]

theorem worker_places {before after : List Worker} {w w' : Worker} (h : w'.entry = w.entry) :
    (before++w'::after).map (·.entry) = (before++w::after).map (·.entry) := by
  simp only [map_append,map_cons,h]

theorem Channel.apart (h : Channel s) {e : Nat}
    (hp : e ∈ s.callers.flatMap Caller.pushing) : e ∉ s.places := by
  intro hin
  obtain ⟨x,hx,ha⟩ := h.accepted e hin
  obtain ⟨y,hy,hn,-⟩ := h.unaccepted e hp
  rw [hx] at hy
  cases hy
  rw [ha] at hn
  cases hn

theorem Channel.pushed {s : Runtime ι} (h : Channel s) {before after : List Caller} {e : Nat}
    {x : Entry ι} (hc : s.callers = before++.push e::after) (hx : s.entries[e]? = some x)
    (room : s.queue.length < queueCapacity) :
    Channel { s.put e { x with accepted := true } with
      queue := s.queue++[e]
      callers := before++after } := by
  have callers : s.callers.flatMap Caller.pushing =
      before.flatMap Caller.pushing++e::after.flatMap Caller.pushing := by
    simp [hc,Caller.pushing]
  have mine : e ∈ s.callers.flatMap Caller.pushing := by
    rw [callers]
    exact mem_append_right _ mem_cons_self
  have fewer : ((before++after).flatMap Caller.pushing).Sublist
      (s.callers.flatMap Caller.pushing) := by
    rw [callers,flatMap_append]
    exact List.Sublist.append_left (sublist_cons_self _ _) _
  have moved : (s.queue++[e]++s.dispatcher.held++s.workers.map (·.entry)).Perm (e::s.places) := by
    simp only [Runtime.places,append_assoc]
    exact perm_middle
  obtain ⟨y,hy,-,idle⟩ := h.unaccepted e mine
  rw [hx] at hy
  cases hy
  constructor
  case coherent =>
    intro y hy
    rcases mem_or_eq_of_mem_set hy with hy | rfl
    · exact h.coherent y hy
    · exact h.coherent x (mem_of_getElem? hx)
  case bounded =>
    rw [length_append]
    exact room
  case nodup => exact moved.nodup_iff.2 (nodup_cons.2 ⟨h.apart mine,h.nodup⟩)
  case accepted =>
    intro i hi
    rw [Runtime.put,get_set hx]
    by_cases hie : i = e
    · exact ⟨_,if_pos hie,rfl⟩
    · rw [if_neg hie]
      rcases mem_cons.1 (moved.subset hi) with hi | hi
      · exact absurd hi hie
      · exact h.accepted i hi
  case waiting =>
    intro i hi y hy
    rw [Runtime.put,get_set hx] at hy
    split at hy
    case isTrue =>
      cases hy
      exact idle
    case isFalse hie =>
      rcases mem_append.1 hi with hi | hi
      · exact h.waiting i hi y hy
      · exact absurd (mem_singleton.1 hi) hie
  case pushing => exact h.pushing.sublist fewer
  case unaccepted =>
    intro i hi
    have once := h.pushing
    rw [callers] at once
    have other : i ≠ e := by
      rintro rfl
      rw [flatMap_append] at hi
      exact (nodup_cons.1 (perm_middle.nodup_iff.1 once)).1 hi
    rw [Runtime.put,get_set hx,if_neg other]
    exact h.unaccepted i (fewer.subset hi)

section
variable [DecidableEq ι]

theorem Channel.step {s t : Runtime ι} {act : Act ι} (h : Channel s) (step : Step s act t) :
    Channel t := by
  cases step with
  | refuse =>
    refine h.append rfl rfl rfl (.inl ?_) ⟨fun _ => rfl,nofun⟩ rfl nofun
    simp [Caller.pushing]
  | duplicate | cancelUnknown => exact h
  | register =>
    refine h.append rfl rfl rfl (.inr ?_) ⟨fun _ => rfl,nofun⟩ rfl nofun
    simp [Caller.pushing]
  | pushed hc hx room => exact h.pushed hc hx room
  | @overflow before after e x hc hx full =>
    refine h.put hx rfl rfl rfl ?_ (h.coherent x (mem_of_getElem? hx)) rfl .inl
    rw [hc,flatMap_append,flatMap_append]
    exact List.Sublist.append_left (sublist_append_right _ _) _
  | fullForget hc hx | snapshot hc nodup all | cancelForget hc hx =>
    exact h.same rfl rfl rfl (by rw [hc]; exact pushing_swap rfl)
  | @refused before after e hc =>
    have kept := emitted s (.result e .rejected)
    exact h.same kept.entries kept.queue kept.places (by rw [hc]; exact pushing_remove rfl)
  | cancelFound | disable | stop => exact h.same rfl rfl rfl (by simp [Caller.pushing])
  | configure => exact h.same rfl rfl (by simp [Runtime.places]) rfl
  | @cancelQueued before after e es reason x hc hx queued =>
    have kept : (before++.forget e es reason::after).flatMap Caller.pushing =
        s.callers.flatMap Caller.pushing := by rw [hc]; exact pushing_swap rfl
    exact h.put hx rfl rfl rfl (kept ▸ .refl _) ⟨nofun,fun _ => rfl⟩ rfl nofun
  | @cancelOther before after e es reason x hc hx other =>
    have kept : (before++.cancel es reason::after).flatMap Caller.pushing =
        s.callers.flatMap Caller.pushing := by rw [hc]; exact pushing_swap rfl
    exact h.put hx rfl rfl rfl (kept ▸ .refl _) ⟨fun hq => absurd hq other,fun _ => rfl⟩ rfl .inl
  | cancelEnd hc => exact h.same rfl rfl rfl (by rw [hc]; exact pushing_remove rfl)
  | @cancelFinish before after e es reason hc =>
    have kept := emitted s (.result e .cancelled)
    exact h.same kept.entries kept.queue kept.places (by rw [hc]; exact pushing_swap rfl)
  | slot hd free => exact h.same rfl rfl (by simp [Runtime.places,Dispatcher.held,hd]) rfl
  | @take e rest hd hq =>
    refine h.move rfl (by rw [hq]; exact sublist_cons_self _ _) ⟨s.places,?_,.refl _⟩ rfl
    rw [Runtime.places,Runtime.places,hd,hq]
    have turned : (rest++[e]).Perm (e::rest) := perm_append_comm
    simp only [Dispatcher.held,append_nil]
    exact turned.append_right _
  | @spawn e hd =>
    refine h.move rfl (.refl _) ⟨s.places,?_,.refl _⟩ rfl
    rw [Runtime.places,Runtime.places,hd]
    simp only [Dispatcher.held,append_nil,map_append,map_singleton,append_assoc]
    exact List.Perm.append_left _ perm_append_comm
  | halt stopped idle =>
    refine h.same rfl rfl ?_ rfl
    rw [Runtime.places,Runtime.places,idle]
    rfl
  | @begin before after w x hw phase hx queued =>
    have here : w.entry ∈ s.workers.map (·.entry) :=
      mem_map.2 ⟨w,hw ▸ mem_append_right _ mem_cons_self,rfl⟩
    have placed : w.entry ∈ s.places := mem_append_right _ here
    refine h.put hx rfl rfl ?_ (.refl _) ⟨nofun,nofun⟩ rfl fun _ => .inr ⟨fun hin => ?_,fun hin =>
      h.apart hin placed⟩
    · rw [Runtime.places,Runtime.places,hw]
      exact congrArg _ (worker_places rfl)
    · exact (nodup_append.1 h.nodup).2.2 _ (mem_append_left _ hin) _ here rfl
  | skip hw phase hx other | checked hw phase | judge hw phase hx | forgetRun hw phase hx =>
    refine h.same rfl rfl ?_ rfl
    rw [Runtime.places,Runtime.places,hw]
    exact congrArg _ (worker_places rfl)
  | @violation before after w hw phase =>
    have kept := emitted s .capabilityViolation
    have same : (before++{ w with phase := .judge .rejected }::after).map (·.entry) =
        s.workers.map (·.entry) := by rw [hw]; exact worker_places rfl
    refine h.same kept.entries kept.queue ?_ (congrArg _ kept.callers)
    rw [Runtime.places,Runtime.places,←same]
    exact congrArg₂ _ (congrArg₂ _ kept.queue (congrArg _ kept.dispatcher)) rfl
  | @report before after w x outcome hw phase hx =>
    have kept := emitted (s.put w.entry { x with reported := true }) (.result w.entry outcome)
    have same : (before++{ w with phase := .forget }::after).map (·.entry) =
        s.workers.map (·.entry) := by rw [hw]; exact worker_places rfl
    have calls : (s.reportOf w.entry x outcome).callers = s.callers := kept.callers
    have entries : (s.reportOf w.entry x outcome).entries =
        s.entries.set w.entry { x with reported := true } := kept.entries
    refine h.put hx entries kept.queue ?_ (calls ▸ .refl _)
      (h.coherent x (mem_of_getElem? hx)) rfl .inl
    rw [Runtime.places,Runtime.places,←same]
    exact congrArg₂ _ (congrArg₂ _ kept.queue (congrArg _ kept.dispatcher)) rfl
  | @release before after w hw phase =>
    refine h.move rfl (.refl _) ⟨_,.refl _,?_⟩ rfl
    rw [Runtime.places,Runtime.places,hw]
    exact List.Sublist.append_left ((sublist_cons_self _ _).append_left before |>.map _) _
  | pump hr => exact h.same rfl rfl rfl rfl

theorem channel_of_run {n : Int} {acts : List (Act ι)} {s : Runtime ι}
    (run : Run Step (start n) acts s) : Channel s := by
  refine run.invariant (I := Channel) (fun _ _ _ h step => h.step step) ?_
  exact ⟨fun _ => nofun,Nat.zero_le _,nodup_nil,fun _ => nofun,fun _ => nofun,nodup_nil,
    fun _ => nofun⟩

end

theorem Channel.open_or_cancelled (h : Channel s) {e : Nat} (he : e ∈ s.queue) :
    s.openAccepted e = !((s.entries[e]?).any fun x => x.cancelled) := by
  obtain ⟨x,hx,accepted⟩ := h.accepted e (mem_append_left _ (mem_append_left _ he))
  have coherent := h.coherent x (mem_of_getElem? hx)
  have idle := h.waiting e he x hx
  simp only [Runtime.openAccepted,hx,Option.any_some,accepted,Bool.true_and,Entry.isOpen]
  cases hs : x.state with
  | queued => simp [coherent.1 hs]
  | running => exact absurd hs idle
  | done => simp [coherent.2 hs]

theorem Channel.count (h : Channel s) {e : Nat}
    (pushing : e ∈ s.callers.flatMap Caller.pushing) :
    (s.openOthers e).length+s.cancelledQueued.length = s.queue.length+s.openOutside.length := by
  have others : s.openOthers e = (List.range s.entries.length).filter s.openAccepted := by
    refine filter_congr fun i _ => ?_
    by_cases hie : i = e
    · obtain ⟨x,hx,unaccepted,-⟩ := h.unaccepted e pushing
      simp [hie,Runtime.openAccepted,hx,unaccepted]
    · simp [hie]
  have inside : ((List.range s.entries.length).filter fun i => s.openAccepted i && i ∈ s.queue).Perm
      (s.queue.filter s.openAccepted) := by
    have distinct : s.queue.Nodup :=
      (nodup_append.1 (nodup_append.1 h.nodup).1).1
    refine (perm_ext_iff_of_nodup (nodup_range.filter _) (distinct.filter _)).2 fun i => ?_
    simp only [mem_filter,mem_range,Bool.and_eq_true,decide_eq_true_eq]
    constructor
    · exact fun hi => ⟨hi.2.2,hi.2.1⟩
    · rintro ⟨hq,ho⟩
      obtain ⟨x,hx,-⟩ := h.accepted i (mem_append_left _ (mem_append_left _ hq))
      exact ⟨(List.getElem?_eq_some_iff.1 hx).1,ho,hq⟩
  have parts : ((List.range s.entries.length).filter s.openAccepted).length =
      ((List.range s.entries.length).filter fun i => s.openAccepted i && i ∈ s.queue).length+
        s.openOutside.length := by
    rw [Runtime.openOutside,length_eq_length_filter_add
      (l := (List.range s.entries.length).filter s.openAccepted) (fun i => decide (i ∈ s.queue)),
      filter_filter,filter_filter]
    simp only [Bool.and_comm,decide_not]
  have channel : s.queue.length = (s.queue.filter s.openAccepted).length+s.cancelledQueued.length := by
    have cancelled : s.cancelledQueued = s.queue.filter fun i => !s.openAccepted i :=
      filter_congr fun i hi => by rw [h.open_or_cancelled hi,Bool.not_not]
    rw [cancelled]
    exact length_eq_length_filter_add _
  rw [others,parts,inside.length_eq]
  omega

/-- An assignment that finds the channel full is refused with as many open others as the capacity
just when the cancelled runs in the channel are no more than the open ones that have left it. -/
theorem queue_full_iff [DecidableEq ι] {n : Int} {acts : List (Act ι)} {s : Runtime ι}
    (run : Run Step (start n) acts s) {before after : List Caller} {e : Nat}
    (pushing : s.callers = before++.push e::after) (full : ¬s.queue.length < queueCapacity) :
    queueCapacity ≤ (s.openOthers e).length ↔ s.cancelledQueued.length ≤ s.openOutside.length := by
  have h := channel_of_run run
  have here : e ∈ s.callers.flatMap Caller.pushing := by
    rw [pushing]
    simp [Caller.pushing]
  have count := h.count here
  have bounded := h.bounded
  omega

/-! One slot, which a run executes in, and the runs behind it, the first of which are cancelled. -/

def waitingRun (cancelled i : Nat) : Entry Nat :=
  if i < cancelled then
    { runId := i+1, state := .done, cancelled := true, accepted := true }
  else { runId := i+1, accepted := true }

def behind (waiting cancelled : Nat) : Runtime Nat where
  entries := { runId := 0, state := .running, accepted := true }::
    (List.range waiting).map (waitingRun cancelled)
  runs id := if id = 0 ∨ (cancelled < id ∧ id ≤ waiting) then some id else none
  queue := (List.range waiting).map (·+1)
  maxConcurrent := 1
  inFlight := 1
  workers := [⟨0,.check,1⟩]
  results := (List.range cancelled).map fun i => .result (i+1) .cancelled
  sent := (List.range cancelled).map fun i => .result (i+1) .cancelled

variable {n k : Nat}

theorem set_range_map {f : Nat → Entry Nat} {y : Entry Nat} :
    ((List.range n).map f).set k y = (List.range n).map fun i => if i = k then y else f i := by
  refine ext_getElem (by simp) fun i hi _ => ?_
  simp only [List.getElem_set,List.getElem_map,List.getElem_range]
  by_cases h : k = i
  · simp [h]
  · simp [h,Ne.symm h]

def firstRun (x : Entry Nat) (callers : List Caller) (queue : List Nat) (dispatcher : Dispatcher)
    (inFlight : Nat) (workers : List Worker) : Runtime Nat where
  entries := [x]
  runs := Function.update (fun _ => none) 0 (some 0)
  queue := queue
  maxConcurrent := 1
  inFlight := inFlight
  callers := callers
  dispatcher := dispatcher
  workers := workers

theorem run_behind_none : ∃ acts, Run Step (start 1) acts (behind 0 0) := by
  let fresh : Entry Nat := { runId := 0 }
  let queued : Entry Nat := { runId := 0, accepted := true }
  let running : Entry Nat := { runId := 0, state := .running, accepted := true }
  have assign : Step (start 1) (.assign 0 true) (firstRun fresh [.push 0] [] .waiting 0 []) :=
    .register rfl rfl
  have push : Step (firstRun fresh [.push 0] [] .waiting 0 []) .caller
      (firstRun queued [] [0] .waiting 0 []) :=
    @Step.pushed Nat _ _ [] [] 0 fresh rfl rfl (by decide)
  have slot : Step (firstRun queued [] [0] .waiting 0 []) .dispatcher
      (firstRun queued [] [0] .slot 0 []) := .slot rfl (by decide)
  have take : Step (firstRun queued [] [0] .slot 0 []) .dispatcher
      (firstRun queued [] [] (.taken 0) 0 []) := .take rfl rfl
  have spawn : Step (firstRun queued [] [] (.taken 0) 0 []) .dispatcher
      (firstRun queued [] [] .waiting 1 [⟨0,.begin,1⟩]) := .spawn rfl
  have begin : Step (firstRun queued [] [] .waiting 1 [⟨0,.begin,1⟩]) .worker
      (firstRun running [] [] .waiting 1 [⟨0,.check,1⟩]) :=
    @Step.begin Nat _ _ [] [] ⟨0,.begin,1⟩ queued rfl rfl rfl rfl
  have ends : firstRun running [] [] .waiting 1 [⟨0,.check,1⟩] = behind 0 0 := by
    have runs : Function.update (fun _ => none) 0 (some 0) = (behind 0 0).runs := by
      funext id
      by_cases h : id = 0 <;> simp [behind,h]
    simp [firstRun,behind,runs,running]
  exact ⟨_,ends ▸ ((((((Run.nil (start 1)).snoc assign).snoc push).snoc slot).snoc take).snoc
    spawn).snoc begin⟩

def assigning (n k : Nat) : Runtime Nat :=
  { behind n k with
    entries := (behind n k).entries++[{ runId := n+1 }]
    runs := Function.update (behind n k).runs (n+1) (some (n+1))
    callers := [.push (n+1)] }

theorem entries_length (n k : Nat) : (behind n k).entries.length = n+1 := by simp [behind]

theorem assign_behind (n k : Nat) :
    Step (behind n k) (.assign (n+1) true) (assigning n k) := by
  have fresh : (behind n k).runs (n+1) = none := by simp [behind]
  have registered := @Step.register Nat _ (behind n k) (n+1) rfl fresh
  rw [entries_length] at registered
  exact registered

theorem fill (room : n < queueCapacity) :
    ∃ acts, Run Step (behind n 0) acts (behind (n+1) 0) := by
  have there : (assigning n 0).entries[n+1]? = some { runId := n+1 } := by
    have := List.getElem?_concat_length (l := (behind n 0).entries) (a := { runId := n+1 })
    rwa [entries_length] at this
  have push := @Step.pushed Nat _ (assigning n 0) [] [] (n+1) _ rfl there
    (by simpa [assigning,behind] using room)
  have ends : { (assigning n 0).put (n+1) { runId := n+1, accepted := true } with
      queue := (assigning n 0).queue++[n+1]
      callers := [] } = behind (n+1) 0 := by
    have runs : (assigning n 0).runs = (behind (n+1) 0).runs := by
      funext id
      by_cases h : id = n+1
      · simp [assigning,behind,h]
      · simp only [assigning,behind,Function.update_of_ne h]
        congr 1
        simp only [eq_iff_iff]
        omega
    have entries : ((assigning n 0).entries.set (n+1) { runId := n+1, accepted := true }) =
        (behind (n+1) 0).entries := by
      simp [assigning,behind,range_succ,waitingRun]
    have queue : (assigning n 0).queue++[n+1] = (behind (n+1) 0).queue := by
      simp [assigning,behind,range_succ]
    rw [queue]
    simp only [Runtime.put,entries,runs]
    rfl
  refine ⟨[.assign (n+1) true,.caller],?_⟩
  rw [←ends]
  exact ((Run.nil _).snoc (assign_behind n 0)).snoc push

theorem run_behind (room : n ≤ queueCapacity) :
    ∃ acts, Run Step (start 1) acts (behind n 0) := by
  induction n with
  | zero => exact run_behind_none
  | succ n ih =>
    obtain ⟨acts,run⟩ := ih (Nat.le_of_succ_le room)
    obtain ⟨more,filled⟩ := fill (Nat.lt_of_succ_le room)
    exact ⟨_,run.append filled⟩

theorem waiting_entry (hk : k < n) :
    (behind n k).entries[k+1]? = some { runId := k+1, accepted := true } := by
  simp [behind,waitingRun,hk]

theorem cancelled_entries :
    (behind n k).entries.set (k+1) (waitingRun (k+1) k) = (behind n (k+1)).entries := by
  simp only [behind,set_cons_succ,set_range_map]
  refine congrArg _ (map_congr_left fun i _ => ?_)
  by_cases h : i = k
  · simp [h]
  · have : i < k ↔ i < k+1 := by omega
    simp [h,waitingRun,this]

theorem cancelled_runs :
    Function.update (behind n k).runs (k+1) none = (behind n (k+1)).runs := by
  funext id
  by_cases h : id = k+1
  · simp [behind,h]
  · simp only [behind,Function.update_of_ne h]
    congr 1
    simp only [eq_iff_iff]
    omega

theorem cancelled_results :
    (behind n k).results++[.result (k+1) .cancelled] = (behind n (k+1)).results := by
  simp [behind,range_succ]

theorem cancel_behind (hk : k < n) (hn : n ≤ queueCapacity) :
    ∃ acts, Run Step (behind n k) acts (behind n (k+1)) := by
  let found : Runtime Nat := { behind n k with callers := [.cancel [k+1] ""] }
  let marked : Runtime Nat := { behind n k with
    entries := (behind n k).entries.set (k+1) (waitingRun (k+1) k)
    callers := [.forget (k+1) [] ""] }
  let forgotten : Runtime Nat := { marked with
    runs := Function.update (behind n k).runs (k+1) none
    callers := [.finish (k+1) [] ""] }
  let told : Runtime Nat := { forgotten with
    results := (behind n k).results++[.result (k+1) .cancelled]
    sent := (behind n k).results++[.result (k+1) .cancelled]
    callers := [.cancel [] ""] }
  have find : Step (behind n k) (.cancel (k+1) "") found :=
    .cancelFound (by simp only [behind]; rw [if_pos (by omega)])
  have mark : Step found .caller marked := by
    have step := @Step.cancelQueued Nat _ found [] [] (k+1) [] "" _ rfl (waiting_entry hk) rfl
    have entry : ({ runId := k+1, accepted := true, cancelled := true, state := .done } : Entry Nat) =
        waitingRun (k+1) k := by simp [waitingRun]
    simp only [entry] at step
    exact step
  have forget : Step marked .caller forgotten := by
    have there : marked.entries[k+1]? = some (waitingRun (k+1) k) := by simp [marked,behind,hk]
    have step := @Step.cancelForget Nat _ marked [] [] (k+1) [] "" _ rfl there
    have id : (waitingRun (k+1) k).runId = k+1 := by simp [waitingRun]
    rw [id] at step
    exact step
  have tell : Step forgotten .caller told := by
    have step := @Step.cancelFinish Nat _ forgotten [] [] (k+1) [] "" rfl
    have room : forgotten.results.length+1 < resultBufferSize := by
      simp only [forgotten,marked,behind,length_map,length_range]
      have : queueCapacity+queueCapacity = resultBufferSize := rfl
      have : 2 ≤ queueCapacity := by decide
      omega
    have spare : decide (forgotten.results.length+1 = resultBufferSize) = false :=
      decide_eq_false (Nat.ne_of_lt room)
    simp only [Runtime.emit,if_pos (Nat.lt_of_succ_lt room),spare] at step
    exact step
  have finish : Step told .caller { told with callers := [] } :=
    @Step.cancelEnd Nat _ told [] [] "" rfl
  have ends : { told with callers := [] } = behind n (k+1) := by
    simp only [told,forgotten,marked,cancelled_entries,cancelled_runs,cancelled_results]
    rfl
  refine ⟨[.cancel (k+1) "",.caller,.caller,.caller,.caller],?_⟩
  rw [←ends]
  exact (((((Run.nil _).snoc find).snoc mark).snoc forget).snoc tell).snoc finish

theorem run_cancelled (hk : k ≤ n) (hn : n ≤ queueCapacity) :
    ∃ acts, Run Step (start 1) acts (behind n k) := by
  induction k with
  | zero => exact run_behind hn
  | succ k ih =>
    obtain ⟨acts,run⟩ := ih (Nat.le_of_succ_le hk)
    obtain ⟨more,cancelled⟩ := cancel_behind hk hn
    exact ⟨_,run.append cancelled⟩

theorem run_assigning (hk : k ≤ queueCapacity) :
    ∃ acts, Run Step (start 1) acts (assigning queueCapacity k) := by
  obtain ⟨acts,run⟩ := run_cancelled hk (Nat.le_refl _)
  exact ⟨_,run.snoc (assign_behind queueCapacity k)⟩

theorem assigning_full (n k : Nat) : (assigning n k).queue.length = n := by simp [assigning,behind]

theorem queue_full_none_cancelled :
    queueCapacity ≤ ((assigning queueCapacity 0).openOthers (queueCapacity+1)).length := by
  obtain ⟨acts,run⟩ := run_assigning (Nat.zero_le _)
  have full : ¬(assigning queueCapacity 0).queue.length < queueCapacity := by
    rw [assigning_full]
    exact Nat.lt_irrefl _
  exact (@queue_full_iff Nat _ 1 acts _ run [] [] (queueCapacity+1) rfl full).2 (by decide)

/-- With every queued run cancelled, it is refused all the same: one run is open. -/
theorem full_of_cancelled_runs : ∃ (acts : List (Act Nat)) (s t : Runtime Nat),
    Run Step (start 1) acts s ∧
    s.callers = [.push (queueCapacity+1)] ∧ (s.openOthers (queueCapacity+1)).length = 1 ∧
    s.queue.all (fun e => e ∈ s.cancelledQueued) = true ∧
    Step s .caller t ∧ t.callers = [.full (queueCapacity+1)] := by
  obtain ⟨acts,run⟩ := run_assigning (Nat.le_refl _)
  have there : (assigning queueCapacity queueCapacity).entries[queueCapacity+1]? =
      some { runId := queueCapacity+1 } := by rfl
  have full : ¬(assigning queueCapacity queueCapacity).queue.length < queueCapacity := by
    rw [assigning_full]
    exact Nat.lt_irrefl _
  exact ⟨_,_,_,run,rfl,by decide,by decide,
    @Step.overflow Nat _ _ [] [] (queueCapacity+1) _ rfl there full,rfl⟩

end CircuitBreaker.ProbeRuntime
