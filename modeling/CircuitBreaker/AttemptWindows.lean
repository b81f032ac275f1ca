import CircuitBreaker.ExpiringCounters
import CircuitBreaker.StepRuns

/-! The attempt limits of agent enrollment (services/agent_enrollment.py). A counter's window is started
by a command of its own, which only the caller that made the counter sends. -/

namespace CircuitBreaker.AttemptWindows
open StepRuns ExpiringCounters List Function

structure Counter where
  key : String
  limit : Nat
  window : Nat

def missCounter (ip : String) : Counter := ⟨"agent_pairing_miss:" ++ ip,10,15*60⟩

def missGlobal : Counter := ⟨"agent_pairing_miss:global",50,15*60⟩

def attemptCounter (endpoint ip : String) : Counter :=
  ⟨"agent_ws_attempt:" ++ endpoint ++ ":" ++ ip,20,60⟩

def attemptGlobal (endpoint : String) : Counter :=
  ⟨"agent_ws_attempt:" ++ endpoint ++ ":global",200,60⟩

inductive Call where
  | recordPairingMiss (ip : String)
  | isPairingLockedOut (ip : String)
  | checkAndRecordWsAttempt (endpoint ip : String)

def Call.own : Call → Counter
  | .recordPairingMiss ip => missCounter ip
  | .isPairingLockedOut ip => missCounter ip
  | .checkAndRecordWsAttempt endpoint ip => attemptCounter endpoint ip

def Call.shared : Call → Counter
  | .recordPairingMiss _ => missGlobal
  | .isPairingLockedOut _ => missGlobal
  | .checkAndRecordWsAttempt endpoint _ => attemptGlobal endpoint

inductive Phase where
  | incr
  | window (own : Ticket)
  | incrShared (own : Ticket)
  | windowShared (own shared : Ticket)
  | counted (own shared : Ticket)
  | get
  | getShared
  | locked (answer : Bool)

def Call.first : Call → Phase
  | .isPairingLockedOut _ => .get
  | _ => .incr

def Call.unreachable : Call → Option Bool
  | .recordPairingMiss _ => none
  | .isPairingLockedOut _ => some false
  | .checkAndRecordWsAttempt _ _ => some false

def Phase.command (call : Call) (phase : Phase) (s : Store String) : Store String :=
  match phase with
  | .incr => s.incr call.own.key
  | .window _ => s.expire call.own.key call.own.window
  | .incrShared _ => s.incr call.shared.key
  | .windowShared _ _ => s.expire call.shared.key call.shared.window
  | _ => s

/-- Whether a `GET` shows a count at the limit. -/
def Counter.reached (c : Counter) (s : Store String) : Bool :=
  (s.keys c.key).any fun e => c.limit ≤ e.count

def Phase.next (call : Call) (phase : Phase) (s : Store String) : Phase :=
  match phase with
  | .incr =>
      if (s.ticket call.own.key).count = 1 then .window (s.ticket call.own.key)
      else .incrShared (s.ticket call.own.key)
  | .window own => .incrShared own
  | .incrShared own =>
      if (s.ticket call.shared.key).count = 1 then .windowShared own (s.ticket call.shared.key)
      else .counted own (s.ticket call.shared.key)
  | .windowShared own shared => .counted own shared
  | .get => if call.own.reached s then .locked true else .getShared
  | .getShared => .locked (call.shared.reached s)
  | .counted own shared => .counted own shared
  | .locked answer => .locked answer

def Phase.answer (call : Call) : Phase → Option (Option Bool)
  | .counted own shared =>
      match call with
      | .checkAndRecordWsAttempt _ _ =>
          some (some (own.count ≤ call.own.limit && shared.count ≤ call.shared.limit))
      | _ => some none
  | .locked answer => some (some answer)
  | _ => none

/-- An attempt that was admitted, with the numbers its two counters answered. -/
structure Admission where
  endpoint : String
  ip : String
  own : Ticket
  shared : Ticket

def Phase.admission (call : Call) : Phase → List Admission
  | .counted own shared =>
      match call with
      | .checkAndRecordWsAttempt endpoint ip =>
          if own.count ≤ call.own.limit ∧ shared.count ≤ call.shared.limit then
            [⟨endpoint,ip,own,shared⟩]
          else []
      | _ => []
  | _ => []

variable {κ : Type} [DecidableEq κ]

/-- `returned` and `admitted`, what the calls have answered, are kept for the statements and read by
nothing. -/
structure State (κ : Type) where
  store : Store String := ⟨0,fun _ => none,fun _ => 0⟩
  calls : κ → Option (Call × Phase) := fun _ => none
  returned : List (Call × Option Bool) := []
  admitted : List Admission := []

inductive Act (κ : Type) where
  | start (i : κ) (call : Call) (redis : Bool)
  | command (i : κ)
  | answer (i : κ)
  | pass (seconds : Nat)
  | fail (i : κ)
  | lose (i : κ)

def State.move (s : State κ) (i : κ) (call : Call) (phase : Phase) : State κ :=
  { s with calls := update s.calls i (some (call,phase)) }

def State.leave (s : State κ) (i : κ) : State κ :=
  { s with calls := update s.calls i none }

/-- Calls of any number of processes, one command at a time. A call may end at any point (its process
dies, it is cancelled, a command fails), also with a command carried out that it hears nothing of. -/
inductive Step : State κ → Act κ → State κ → Prop where
  | unreachable {s : State κ} {i : κ} {call : Call} (idle : s.calls i = none) :
      Step s (.start i call false) { s with returned := s.returned++[(call,call.unreachable)] }
  | started {s : State κ} {i : κ} {call : Call} (idle : s.calls i = none) :
      Step s (.start i call true) (s.move i call call.first)
  | commanded {s : State κ} {i : κ} {call : Call} {phase : Phase} (here : s.calls i = some (call,phase))
      (more : phase.answer call = none) :
      Step s (.command i)
        { s.move i call (phase.next call s.store) with store := phase.command call s.store }
  | answered {s : State κ} {i : κ} {call : Call} {phase : Phase} {answer : Option Bool}
      (here : s.calls i = some (call,phase)) (done : phase.answer call = some answer) :
      Step s (.answer i)
        { s.leave i with
          returned := s.returned++[(call,answer)]
          admitted := s.admitted++phase.admission call }
  | passed {s : State κ} {seconds : Nat} :
      Step s (.pass seconds) { s with store := s.store.pass seconds }
  | failed {s : State κ} {i : κ} {call : Call} {phase : Phase}
      (here : s.calls i = some (call,phase)) : Step s (.fail i) (s.leave i)
  | lost {s : State κ} {i : κ} {call : Call} {phase : Phase} (here : s.calls i = some (call,phase)) :
      Step s (.lose i) { s.leave i with store := phase.command call s.store }

def Phase.opens (call : Call) : Phase → Option String
  | .window _ => some call.own.key
  | .windowShared _ _ => some call.shared.key
  | _ => none

def State.reads {α : Type} (s : State κ) (f : Call × Phase → Option α) (i : κ) : Option α :=
  (s.calls i).bind f

def State.opens (s : State κ) : κ → Option String := s.reads fun c => c.2.opens c.1

/-- No call ends between the increment that makes a counter and the command that gives it its end. -/
def Completes (s : State κ) : Act κ → Prop
  | .fail i => s.opens i = none
  | .lose i => ∀ call phase, s.calls i = some (call,phase) →
      (phase = .incr → s.store.count call.own.key ≠ 0) ∧
      ∀ own, phase = .incrShared own → s.store.count call.shared.key ≠ 0
  | _ => True

def windowOf (key : String) : Nat := if (key.toList.drop 6).head? = some 'p' then 15*60 else 60

theorem letters_append (a b c d : String) :
    (a++b++c++d).toList = a.toList++(b++c++d).toList := by
  simp only [String.toList_append,append_assoc]

theorem windowOf_miss (ip : String) : windowOf (missCounter ip).key = 15*60 := by
  have letters : (missCounter ip).key.toList = "agent_pairing_miss:".toList++ip.toList :=
    String.toList_append
  rw [windowOf,letters]
  rfl

theorem windowOf_missGlobal : windowOf missGlobal.key = 15*60 := by decide

theorem windowOf_attempt (endpoint ip : String) : windowOf (attemptCounter endpoint ip).key = 60 := by
  have letters : (attemptCounter endpoint ip).key.toList =
      "agent_ws_attempt:".toList++(endpoint ++ ":" ++ ip).toList := letters_append _ _ _ _
  rw [windowOf,letters]
  rfl

theorem windowOf_attemptGlobal (endpoint : String) : windowOf (attemptGlobal endpoint).key = 60 := by
  have letters : (attemptGlobal endpoint).key.toList =
      "agent_ws_attempt:".toList++(endpoint ++ ":global").toList := by
    have parts : "agent_ws_attempt:" ++ endpoint ++ ":global" =
        "agent_ws_attempt:" ++ (endpoint ++ ":global") := String.append_assoc
    exact (congrArg String.toList parts).trans String.toList_append
  rw [windowOf,letters]
  rfl

theorem own_window (call : Call) : call.own.window = windowOf call.own.key := by
  cases call with
  | recordPairingMiss ip | isPairingLockedOut ip => exact (windowOf_miss ip).symm
  | checkAndRecordWsAttempt endpoint ip => exact (windowOf_attempt endpoint ip).symm

theorem shared_window (call : Call) : call.shared.window = windowOf call.shared.key := by
  cases call with
  | recordPairingMiss ip | isPairingLockedOut ip => exact windowOf_missGlobal.symm
  | checkAndRecordWsAttempt endpoint ip => exact (windowOf_attemptGlobal endpoint).symm

theorem window_pos (key : String) : 0 < windowOf key := by
  unfold windowOf
  split <;> decide

theorem reads_move {α : Type} (s : State κ) (i : κ) (call : Call) (phase : Phase)
    (f : Call × Phase → Option α) :
    (s.move i call phase).reads f = update (s.reads f) i (f (call,phase)) :=
  comp_update (fun c : Option (Call × Phase) => c.bind f) s.calls i (some (call,phase))

theorem reads_leave {α : Type} (s : State κ) (i : κ) (f : Call × Phase → Option α) :
    (s.leave i).reads f = update (s.reads f) i none :=
  comp_update (fun c : Option (Call × Phase) => c.bind f) s.calls i none

def Phase.own : Phase → Option Ticket
  | .window own => some own
  | .incrShared own => some own
  | .windowShared own _ => some own
  | .counted own _ => some own
  | _ => none

def Phase.shared : Phase → Option Ticket
  | .windowShared _ shared => some shared
  | .counted _ shared => some shared
  | _ => none

def State.heldOwn (s : State κ) : κ → Option (String × Ticket) :=
  s.reads fun c => c.2.own.map fun t => (c.1.own.key,t)

def State.heldShared (s : State κ) : κ → Option (String × Ticket) :=
  s.reads fun c => c.2.shared.map fun t => (c.1.shared.key,t)

def Admission.ownTicket (m : Admission) : String × Ticket := ((attemptCounter m.endpoint m.ip).key,m.own)

def Admission.sharedTicket (m : Admission) : String × Ticket := ((attemptGlobal m.endpoint).key,m.shared)

/-- Every answer is held by one call or spent on one admission, and none above the limits is. -/
structure Counted (s : State κ) : Prop where
  own : Distinct s.store s.heldOwn (s.admitted.map Admission.ownTicket)
  shared : Distinct s.store s.heldShared (s.admitted.map Admission.sharedTicket)
  limits : ∀ m ∈ s.admitted, m.own.count ≤ 20 ∧ m.shared.count ≤ 200

theorem Counted.moved {s : State κ} (h : Counted s) {i : κ} {call : Call} {phase : Phase}
    {store : Store String}
    (own : Distinct store (update s.heldOwn i (phase.own.map fun t => (call.own.key,t)))
      (s.admitted.map Admission.ownTicket))
    (shared : Distinct store (update s.heldShared i (phase.shared.map fun t => (call.shared.key,t)))
      (s.admitted.map Admission.sharedTicket)) :
    Counted { s.move i call phase with store := store } where
  own := by
    have held := reads_move s i call phase fun c => c.2.own.map fun t => (c.1.own.key,t)
    exact (congrArg (fun h => Distinct store h _) held).mpr own
  shared := by
    have held := reads_move s i call phase fun c => c.2.shared.map fun t => (c.1.shared.key,t)
    exact (congrArg (fun h => Distinct store h _) held).mpr shared
  limits := h.limits

variable {s t : State κ} {a : Act κ} {i : κ}

theorem Counted.left (h : Counted s) (i : κ) {store : Store String}
    (issued : ∀ k t, s.store.Issued k t → store.Issued k t) :
    Counted { s.leave i with store := store } where
  own := by
    have held := reads_leave s i fun c => c.2.own.map fun t => (c.1.own.key,t)
    exact (congrArg (fun h => Distinct store h _) held).mpr ((h.own.dropped i).later issued)
  shared := by
    have held := reads_leave s i fun c => c.2.shared.map fun t => (c.1.shared.key,t)
    exact (congrArg (fun h => Distinct store h _) held).mpr ((h.shared.dropped i).later issued)
  limits := h.limits

theorem command_issued (call : Call) (phase : Phase) (s : Store String) :
    ∀ k t, s.Issued k t → (phase.command call s).Issued k t := by
  intro k t issued
  cases phase with
  | incr | incrShared own => exact issued.incr
  | window own | windowShared own shared => exact issued.expire
  | counted own shared | get | getShared | locked answer => exact issued

theorem Counted.commanded {s : State κ} (h : Counted s) {i : κ} {call : Call} {phase : Phase}
    (here : s.calls i = some (call,phase)) (more : phase.answer call = none) :
    Counted { s.move i call (phase.next call s.store) with store := phase.command call s.store } := by
  have issued := command_issued call phase s.store
  have ownHere : s.heldOwn i = phase.own.map fun t => (call.own.key,t) := by
    simp [State.heldOwn,State.reads,here]
  have sharedHere : s.heldShared i = phase.shared.map fun t => (call.shared.key,t) := by
    simp [State.heldShared,State.reads,here]
  -- what the call holds it goes on holding, but for what the command answers
  have keepOwn : ∀ phase' : Phase, phase'.own = phase.own → Distinct (phase.command call s.store)
        (update s.heldOwn i (phase'.own.map fun t => (call.own.key,t)))
        (s.admitted.map Admission.ownTicket) := by
    intro phase' same
    rw [same,←ownHere,update_eq_self]
    exact h.own.later issued
  have keepShared : ∀ phase' : Phase, phase'.shared = phase.shared →
      Distinct (phase.command call s.store)
        (update s.heldShared i (phase'.shared.map fun t => (call.shared.key,t)))
        (s.admitted.map Admission.sharedTicket) := by
    intro phase' same
    rw [same,←sharedHere,update_eq_self]
    exact h.shared.later issued
  cases phase with
  | incr =>
    have next : ∀ t, (if (s.store.ticket call.own.key).count = 1 then Phase.window t
        else .incrShared t).own = some t ∧ (if (s.store.ticket call.own.key).count = 1 then
          Phase.window t else .incrShared t).shared = none := by
      intro t
      split <;> exact ⟨rfl,rfl⟩
    refine h.moved ?_ (keepShared _ (next _).2)
    rw [Phase.next,(next _).1]
    exact h.own.take i call.own.key
  | window own | windowShared own shared | getShared =>
    exact h.moved (keepOwn _ rfl) (keepShared _ rfl)
  | incrShared own =>
    have next : ∀ t, (if (s.store.ticket call.shared.key).count = 1 then Phase.windowShared own t
        else .counted own t).own = some own ∧ (if (s.store.ticket call.shared.key).count = 1 then
          Phase.windowShared own t else .counted own t).shared = some t := by
      intro t
      split <;> exact ⟨rfl,rfl⟩
    refine h.moved (keepOwn _ (next _).1) ?_
    rw [Phase.next,(next _).2]
    exact h.shared.take i call.shared.key
  | get =>
    have next : (if call.own.reached s.store then Phase.locked true else .getShared).own = none ∧
        (if call.own.reached s.store then Phase.locked true else .getShared).shared = none := by
      split <;> exact ⟨rfl,rfl⟩
    exact h.moved (keepOwn _ next.1) (keepShared _ next.2)
  | counted own shared => cases call <;> simp [Phase.answer] at more
  | locked answer => simp [Phase.answer] at more

theorem Counted.answered {s : State κ} (h : Counted s) {i : κ} {call : Call} {phase : Phase}
    (here : s.calls i = some (call,phase)) {returned : List (Call × Option Bool)} :
    Counted { s.leave i with returned := returned, admitted := s.admitted++phase.admission call } := by
  have left : Counted { s.leave i with store := s.store } := h.left i fun _ _ issued => issued
  by_cases admitted : ∃ endpoint ip own shared, call = .checkAndRecordWsAttempt endpoint ip ∧
      phase = .counted own shared ∧ own.count ≤ 20 ∧ shared.count ≤ 200
  · obtain ⟨endpoint,ip,own,shared,rfl,rfl,few,fewShared⟩ := admitted
    have entry : (Phase.counted own shared).admission (.checkAndRecordWsAttempt endpoint ip) =
        [⟨endpoint,ip,own,shared⟩] := if_pos ⟨few,fewShared⟩
    rw [entry]
    have heldOwn : s.heldOwn i = some ((attemptCounter endpoint ip).key,own) := by
      simp [State.heldOwn,State.reads,here,Phase.own,Call.own]
    have heldShared : s.heldShared i = some ((attemptGlobal endpoint).key,shared) := by
      simp [State.heldShared,State.reads,here,Phase.shared,Call.shared]
    have spentOwn := h.own.spend heldOwn
    have spentShared := h.shared.spend heldShared
    refine ⟨?_,?_,fun m hm => ?_⟩
    · have held := reads_leave s i fun c => c.2.own.map fun t => (c.1.own.key,t)
      rw [map_append]
      exact (congrArg (fun h => Distinct s.store h _) held).mpr spentOwn
    · have held := reads_leave s i fun c => c.2.shared.map fun t => (c.1.shared.key,t)
      rw [map_append]
      exact (congrArg (fun h => Distinct s.store h _) held).mpr spentShared
    · obtain hm | hm := mem_append.1 hm
      · exact h.limits m hm
      · obtain rfl := mem_singleton.1 hm
        exact ⟨few,fewShared⟩
  · have entry : phase.admission call = [] := by
      cases phase with
      | counted own shared =>
        cases call with
        | checkAndRecordWsAttempt endpoint ip =>
          exact if_neg fun few => admitted ⟨endpoint,ip,own,shared,rfl,rfl,few⟩
        | _ => rfl
      | _ => rfl
    rw [entry,append_nil]
    exact ⟨left.own,left.shared,left.limits⟩

theorem Counted.step (h : Counted s) (step : Step s a t) : Counted t := by
  cases step with
  | unreachable => exact ⟨h.own,h.shared,h.limits⟩
  | @started i call =>
    have none : call.first.own = none ∧ call.first.shared = none := by
      cases call <;> exact ⟨rfl,rfl⟩
    refine @Counted.moved _ _ s h _ _ _ s.store ?_ ?_
    · rw [none.1]
      exact h.own.dropped _
    · rw [none.2]
      exact h.shared.dropped _
  | commanded here more => exact h.commanded here more
  | answered here => exact h.answered here
  | passed =>
    exact ⟨h.own.later fun _ _ issued => issued.pass _,h.shared.later fun _ _ issued => issued.pass _,
      h.limits⟩
  | failed => exact h.left _ fun _ _ issued => issued
  | lost => exact h.left _ (command_issued _ _ _)

/-! The end of every counter. -/

def Ends (s : State κ) : Prop := Ending windowOf s.store s.opens

theorem Ends.moved {s : State κ} {i : κ} {call : Call} {phase : Phase} {store : Store String}
    (h : Ending windowOf store (update s.opens i (phase.opens call))) :
    Ends { s.move i call phase with store := store } :=
  (congrArg (Ending windowOf store) (reads_move s i call phase fun c => c.2.opens c.1)).mpr h

theorem Ends.left {store : Store String} (h : Ending windowOf store (update s.opens i none)) :
    Ends { s.leave i with store := store } :=
  (congrArg (Ending windowOf store) (reads_leave s i fun c => c.2.opens c.1)).mpr h

theorem ticket_first {s : Store String} {k : String} : (s.ticket k).count = 1 ↔ s.count k = 0 := by
  simp [Store.ticket]

theorem Ends.counts (h : Ends s) (closed : s.opens i = none) (k : String) :
    Ending windowOf (s.store.incr k)
      (update s.opens i (if (s.store.ticket k).count = 1 then some k else none)) := by
  by_cases absent : s.store.count k = 0
  · rw [if_pos (ticket_first.2 absent)]
    exact h.opened absent closed
  · rw [if_neg (mt ticket_first.1 absent),←closed,update_eq_self]
    exact h.counted absent

theorem Ends.commanded {s : State κ} (h : Ends s) {i : κ} {call : Call} {phase : Phase}
    (here : s.calls i = some (call,phase)) (more : phase.answer call = none) :
    Ends { s.move i call (phase.next call s.store) with store := phase.command call s.store } := by
  have opens : s.opens i = phase.opens call := by simp [State.opens,State.reads,here]
  have idle : ∀ phase' : Phase, phase'.opens call = none → phase.opens call = none →
      update s.opens i (phase'.opens call) = s.opens := by
    intro phase' after before
    rw [after,←before,←opens,update_eq_self]
  refine Ends.moved ?_
  cases phase with
  | incr =>
    have next : ∀ t, (if (s.store.ticket call.own.key).count = 1 then Phase.window t
        else .incrShared t).opens call = if (s.store.ticket call.own.key).count = 1 then
          some call.own.key else none := by
      intro t
      split <;> rfl
    rw [Phase.next,next]
    exact h.counts opens call.own.key
  | window own =>
    have closed := h.closed opens (window_pos call.own.key)
    rw [←own_window] at closed
    exact closed
  | incrShared own =>
    have next : ∀ t, (if (s.store.ticket call.shared.key).count = 1 then Phase.windowShared own t
        else .counted own t).opens call = if (s.store.ticket call.shared.key).count = 1 then
          some call.shared.key else none := by
      intro t
      split <;> rfl
    rw [Phase.next,next]
    exact h.counts opens call.shared.key
  | windowShared own shared =>
    have closed := h.closed opens (window_pos call.shared.key)
    rw [←shared_window] at closed
    exact closed
  | get =>
    have next : (if call.own.reached s.store then Phase.locked true else .getShared).opens call =
        none := by
      split <;> rfl
    rw [Phase.next,idle _ next rfl]
    exact h
  | getShared =>
    rw [idle (Phase.next call .getShared s.store) rfl rfl]
    exact h
  | counted own shared => cases call <;> simp [Phase.answer] at more
  | locked answer => simp [Phase.answer] at more

theorem Ends.lost (h : Ends s) {call : Call} {phase : Phase} (here : s.calls i = some (call,phase))
    (there : (phase = .incr → s.store.count call.own.key ≠ 0) ∧
      ∀ own, phase = .incrShared own → s.store.count call.shared.key ≠ 0) :
    Ends { s.leave i with store := phase.command call s.store } := by
  have opens : s.opens i = phase.opens call := by simp [State.opens,State.reads,here]
  have idle : phase.opens call = none → update s.opens i none = s.opens := by
    intro before
    rw [←before,←opens,update_eq_self]
  refine Ends.left ?_
  cases phase with
  | incr =>
    rw [idle rfl]
    exact h.counted (there.1 rfl)
  | window own =>
    have closed := h.closed opens (window_pos call.own.key)
    rw [←own_window] at closed
    exact closed
  | incrShared own =>
    rw [idle rfl]
    exact h.counted (there.2 own rfl)
  | windowShared own shared =>
    have closed := h.closed opens (window_pos call.shared.key)
    rw [←shared_window] at closed
    exact closed
  | counted own shared | get | getShared | locked answer =>
    rw [idle rfl]
    exact h

theorem answer_opens {call : Call} {phase : Phase} {answer : Option Bool}
    (done : phase.answer call = some answer) : phase.opens call = none := by
  cases phase <;> first | rfl | simp [Phase.answer] at done

theorem Ends.step (h : Ends s) (step : Guarded Step Completes s a t) :
    Ends t := by
  obtain ⟨completes,step⟩ := step
  cases step with
  | unreachable => exact h
  | @started i call idle =>
    have first : call.first.opens call = none := by cases call <;> rfl
    have opens : s.opens i = none := by simp [State.opens,State.reads,idle]
    refine @Ends.moved _ _ s i call call.first s.store ?_
    rw [first,←opens,update_eq_self]
    exact h
  | commanded here more => exact h.commanded here more
  | @answered i call phase answer here done =>
    have opens : s.opens i = none := by
      simpa [State.opens,State.reads,here] using answer_opens done
    have left : Ends { s.leave i with store := s.store } := by
      refine Ends.left ?_
      rw [←opens,update_eq_self]
      exact h
    exact left
  | passed => exact h.pass _
  | @failed i call phase here =>
    have left : Ends { s.leave i with store := s.store } := by
      refine Ends.left ?_
      rw [←show s.opens i = none from completes,update_eq_self]
      exact h
    exact left
  | lost here => exact h.lost here (completes _ _ here)

theorem Ends.lasting (h : Ends s) (step : Step s a t) :
    s.store.Lasting t.store := by
  have command : ∀ {i : κ} {call : Call} {phase : Phase}, s.calls i = some (call,phase) →
      s.store.Lasting (phase.command call s.store) := by
    intro i call phase here
    have opens : s.opens i = phase.opens call := by simp [State.opens,State.reads,here]
    cases phase with
    | incr | incrShared own => exact s.store.lasting_incr _
    | window own | windowShared own shared =>
      obtain ⟨e,found,never⟩ := h.endless i _ opens
      exact Store.lasting_expire found never _
    | counted own shared | get | getShared | locked answer => exact .refl _
  cases step with
  | unreachable | started | answered | failed => exact .refl _
  | commanded here | lost here => exact command here
  | passed => exact s.store.lasting_pass _

omit [DecidableEq κ] in
theorem start_ends : Ends ({} : State κ) :=
  ⟨nofun,nofun,nofun, nofun⟩

omit [DecidableEq κ] in
theorem start_counted : Counted ({} : State κ) :=
  ⟨⟨nofun,nofun,nofun, nofun,.nil⟩, ⟨nofun,nofun,nofun, nofun,.nil⟩, nofun⟩

theorem life_le {admitted : List Admission} {ticket : Admission → String × Ticket}
    (once : (admitted.map ticket).Nodup) {k : String} {life limit : Nat} {chosen : Admission → Bool}
    (of : ∀ m, chosen m = true → (ticket m).1 = k ∧ (ticket m).2.life = life)
    (bound : ∀ m ∈ admitted, 1 ≤ (ticket m).2.count ∧ (ticket m).2.count ≤ limit) :
    (admitted.filter chosen).length ≤ limit := by
  have each : ∀ p ∈ admitted.map ticket, p.1 = k → p.2.life = life →
      1 ≤ p.2.count ∧ p.2.count ≤ limit := by
    intro p hp _ _
    obtain ⟨m,hm,rfl⟩ := mem_map.1 hp
    exact bound m hm
  have spent := spent_le once each
  rw [filter_map,length_map] at spent
  refine Nat.le_trans ?_ spent
  rw [←countP_eq_length_filter,←countP_eq_length_filter]
  exact countP_mono_left fun m _ hm => by simpa using of m hm

/-- Where every call that makes a counter gives it its end, each counter that nobody is about to give
one has one, at most its window ahead; by then it is gone; and of one life of a counter no more
attempts are admitted than its limit. -/
theorem attempt_windows_end {as : List (Act κ)} {s : State κ}
    (run : Run (Guarded Step Completes) {} as s) :
    (∀ k e, s.store.keys k = some e → (∀ i, s.opens i ≠ some k) →
      ∃ x, e.expiry = some x ∧ s.store.now < x ∧ x ≤ s.store.now+windowOf k) ∧
    (∀ bs t, Run (Guarded Step Completes) s bs t → ∀ k e x, s.store.keys k = some e →
      e.expiry = some x → x ≤ t.store.now → s.store.life k < t.store.life k) ∧
    (∀ endpoint ip life, (s.admitted.filter fun m =>
      m.endpoint = endpoint ∧ m.ip = ip ∧ m.own.life = life).length ≤ 20) ∧
    ∀ endpoint life, (s.admitted.filter fun m =>
      m.endpoint = endpoint ∧ m.shared.life = life).length ≤ 200 := by
  have keeps : ∀ (s : State κ) a t, Ends s → Guarded Step Completes s a t → Ends t :=
    fun _ _ _ h step => h.step step
  have ends : Ends s := run.invariant keeps start_ends
  have counted : Counted s := run.invariant (fun _ _ _ h step => h.step step.2) start_counted
  refine ⟨fun k e found idle => ?_,fun bs t further k e x found hx due => ?_,fun endpoint ip life => ?_,
    fun endpoint life => ?_⟩
  · exact (ends.ends k e found).resolve_right fun ⟨i,hi⟩ => idle i hi
  · have lasting : s.store.Lasting t.store :=
      further.relates (R := fun s t => s.store.Lasting t.store) (fun _ => .refl _)
        (fun _ _ _ h g => h.trans g) keeps (fun _ _ _ h step => h.lasting step.2) ends
    have after : Ends t := further.invariant keeps ends
    by_contra alive
    have same : t.store.life k = s.store.life k := Nat.le_antisymm (by omega) (lasting.1 k)
    obtain ⟨e',found',hx'⟩ := lasting.2 k e x found hx same
    obtain ⟨y,hy,later,-⟩ | ⟨i,hi⟩ := after.ends k e' found'
    · obtain rfl : x = y := Option.some.inj (hx'.symm.trans hy)
      omega
    · obtain ⟨e₂,found₂,never⟩ := after.endless i k hi
      obtain rfl : e' = e₂ := Option.some.inj (found'.symm.trans found₂)
      simp [never] at hx'
  · refine @life_le _ _ counted.own.once (attemptCounter endpoint ip).key life _ _
      (fun m hm => ?_) fun m hm => ?_
    · obtain ⟨rfl,rfl,rfl⟩ : m.endpoint = endpoint ∧ m.ip = ip ∧ m.own.life = life := by simpa using hm
      exact ⟨rfl,rfl⟩
    · exact ⟨(counted.own.given _ (mem_map_of_mem hm)).1,(counted.limits m hm).1⟩
  · refine @life_le _ _ counted.shared.once (attemptGlobal endpoint).key life _ _
      (fun m hm => ?_) fun m hm => ?_
    · obtain ⟨rfl,rfl⟩ : m.endpoint = endpoint ∧ m.shared.life = life := by simpa using hm
      exact ⟨rfl,rfl⟩
    · exact ⟨(counted.shared.given _ (mem_map_of_mem hm)).1,(counted.limits m hm).2⟩

def oneAttempt : Call := .checkAndRecordWsAttempt "enroll" "192.0.2.1"

theorem attempt_windows_end_one : ∃ as s, Run (Guarded Step Completes) ({} : State Unit) as s ∧
    s.store.keys "agent_ws_attempt:enroll:192.0.2.1" = some ⟨1,some 60⟩ ∧ s.admitted.length = 1 ∧
    ∀ life, (s.admitted.filter fun m => m.endpoint = "enroll" ∧ m.shared.life = life).length ≤ 200 := by
  have begun : Run (Guarded Step Completes) ({} : State Unit) _ _ :=
    (Run.nil _).also (@Step.started _ _ _ () oneAttempt rfl) trivial
  have made := begun.also (@Step.commanded _ _ _ () oneAttempt .incr rfl rfl) trivial
  have ended := made.also (@Step.commanded _ _ _ () oneAttempt (.window ⟨0,1⟩) rfl rfl) trivial
  have shared := ended.also (@Step.commanded _ _ _ () oneAttempt (.incrShared ⟨0,1⟩) rfl rfl) trivial
  have both := shared.also
    (@Step.commanded _ _ _ () oneAttempt (.windowShared ⟨0,1⟩ ⟨0,1⟩) rfl rfl) trivial
  have run := both.also
    (@Step.answered _ _ _ () oneAttempt (.counted ⟨0,1⟩ ⟨0,1⟩) (some true) rfl rfl) trivial
  exact ⟨_,_,run,by decide,rfl,(attempt_windows_end run).2.2.2 "enroll"⟩

/-- A call that ends after it has made its counter leaves one that never ends. -/
theorem endless_counter : ¬∀ (as : List (Act Unit)) (s : State Unit), Run Step {} as s →
    ∀ k e, s.store.keys k = some e → (∀ i, s.opens i ≠ some k) → ∃ x, e.expiry = some x := by
  intro all
  have begun : Run Step ({} : State Unit) _ _ :=
    (Run.nil _).snoc (@Step.started _ _ _ () oneAttempt rfl)
  have made := begun.snoc (@Step.commanded _ _ _ () oneAttempt .incr rfl rfl)
  have run := made.snoc (@Step.failed _ _ _ () oneAttempt (.window ⟨0,1⟩) rfl)
  obtain ⟨x,hx⟩ := all _ _ run "agent_ws_attempt:enroll:192.0.2.1" ⟨1,none⟩ (by decide)
    nofun
  exact nomatch hx

end CircuitBreaker.AttemptWindows
