import CircuitBreaker.StepRuns
import Mathlib.Logic.Function.Basic

/-! Jobs that one process at a time may run (core/job_lock.py): a session advisory lock on a connection
of the call's own, taken and given back in worker threads that a cancelled caller does not wait for. -/

namespace CircuitBreaker.JobLocks
open StepRuns Option

/-! The lock. -/

/-- The connection that holds the lock, and how often. -/
abbrev Lock := Option (Nat × Nat)

/-- `pg_try_advisory_lock`, which a connection that holds the lock takes once more. -/
def Lock.acquire (l : Lock) (conn : Nat) : Lock × Bool :=
  match l with
  | none => (some (conn,1),true)
  | some (c,n) => if c = conn then (some (c,n+1),true) else (some (c,n),false)

/-- `pg_advisory_unlock` -/
def Lock.release (l : Lock) (conn : Nat) : Lock :=
  match l with
  | none => none
  | some (c,n) => if c = conn then (if n = 1 then none else some (c,n-1)) else some (c,n)

def Lock.close (l : Lock) (conn : Nat) : Lock :=
  match l with
  | none => none
  | some (c,n) => if c = conn then none else some (c,n)

def Lock.heldBy (l : Lock) (conn : Nat) : Prop := ∃ n, l = some (conn,n)

variable {l : Lock}

theorem Lock.heldBy_unique {a b : Nat} (ha : l.heldBy a) (hb : l.heldBy b) : a = b := by
  obtain ⟨n,rfl⟩ := ha
  obtain ⟨m,hm⟩ := hb
  exact congrArg Prod.fst (some.inj hm)

variable {conn : Nat}

theorem Lock.acquire_granted (h : (l.acquire conn).2 = true) :
    (l.acquire conn).1.heldBy conn ∧ ∀ c, l.heldBy c → c = conn := by
  cases l with
  | none => exact ⟨⟨1,rfl⟩,fun c ⟨n,hn⟩ => (nomatch hn)⟩
  | some holder =>
    obtain ⟨c,n⟩ := holder
    by_cases same : c = conn
    · subst same
      exact ⟨⟨n+1,by simp [acquire]⟩,fun d ⟨m,hm⟩ => (congrArg Prod.fst (some.inj hm)).symm⟩
    · simp [acquire,same] at h

theorem Lock.acquire_refused (h : (l.acquire conn).2 = false) :
    (l.acquire conn).1 = l ∧ ¬l.heldBy conn := by
  cases l with
  | none => simp [acquire] at h
  | some holder =>
    obtain ⟨c,n⟩ := holder
    by_cases same : c = conn
    · simp [acquire,same] at h
    · refine ⟨by simp [acquire,same],fun ⟨m,hm⟩ => same ?_⟩
      exact congrArg Prod.fst (some.inj hm)

theorem Lock.close_heldBy {c : Nat} :
    (l.close conn).heldBy c ↔ l.heldBy c ∧ c ≠ conn := by
  cases l with
  | none => exact ⟨fun ⟨n,hn⟩ => (nomatch hn),fun ⟨⟨n,hn⟩,_⟩ => (nomatch hn)⟩
  | some holder =>
    obtain ⟨d,n⟩ := holder
    by_cases same : d = conn
    · subst same
      refine ⟨fun ⟨m,hm⟩ => by simp [close] at hm,fun ⟨⟨m,hm⟩,ne⟩ => ?_⟩
      exact absurd (congrArg Prod.fst (some.inj hm)).symm ne
    · have kept : Lock.close (some (d,n)) conn = some (d,n) := by simp [close,same]
      rw [kept]
      refine ⟨fun held => ⟨held,fun ne => ?_⟩,fun held => held.1⟩
      obtain ⟨m,hm⟩ := held
      exact same ((congrArg Prod.fst (some.inj hm)).trans ne)

theorem Lock.release_heldBy {c : Nat} (ne : c ≠ conn) :
    (l.release conn).heldBy c ↔ l.heldBy c := by
  cases l with
  | none => exact Iff.rfl
  | some holder =>
    obtain ⟨d,n⟩ := holder
    by_cases same : d = conn
    · subst same
      refine ⟨fun ⟨m,hm⟩ => ?_,fun ⟨m,hm⟩ => absurd (congrArg Prod.fst (some.inj hm)).symm ne⟩
      by_cases one : n = 1
      · simp [release,one] at hm
      · simp only [release,one,if_true,if_false] at hm
        exact absurd (congrArg Prod.fst (some.inj hm)).symm ne
    · simp [release,same]

theorem Lock.release_held {c : Nat} (h : (l.release conn).heldBy c) : l.heldBy c := by
  by_cases same : c = conn
  · subst same
    cases l with
    | none => exact h
    | some holder =>
      obtain ⟨d,n⟩ := holder
      by_cases mine : d = c
      · exact ⟨n,by rw [mine]⟩
      · simpa [release,mine] using h
  · exact (Lock.release_heldBy same).1 h

/-! The calls. -/

/-- Where a call is. Asynchronous calls acquire and release in a worker thread, for which they may
have to wait. -/
inductive Phase where
  | queued
  | trying
  | refused
  | taken
  | running
  | releaseQueued
  | unlocking
  | closing

/-- `orphan`: the caller was cancelled, and the worker thread goes on. -/
structure Call where
  async : Bool
  conn : Nat
  phase : Phase
  orphan : Bool := false

variable {κ : Type} [DecidableEq κ]

/-- `lost`, whether a connection that held the lock has been lost, is kept for the statements and read
by nothing. -/
structure State (κ : Type) where
  lock : Lock := none
  calls : κ → Option Call := fun _ => none
  next : Nat := 0
  lost : Bool := false

inductive Act (κ : Type) where
  | start (i : κ) (async : Bool)
  | begin (i : κ)
  | tryLock (i : κ)
  | trouble (i : κ) (took : Bool)
  | enter (i : κ)
  | drop (i : κ)
  | finish (i : κ)
  | unlock (i : κ) (fails : Bool)
  | close (i : κ)
  | cancel (i : κ)
  | lose (conn : Nat)
  | collect (conn : Nat)

def State.move (s : State κ) (i : κ) (call : Call) (phase : Phase) : State κ :=
  { s with calls := Function.update s.calls i (some { call with phase := phase }) }

def State.leave (s : State κ) (i : κ) : State κ :=
  { s with calls := Function.update s.calls i none }

def State.orphan (s : State κ) (i : κ) (call : Call) : State κ :=
  { s with calls := Function.update s.calls i (some { call with orphan := true }) }

/-- One step of one call of a wrapped job or of `run_with_advisory_lock`, all with one lock id.
`finish` is the body's end, whichever it is. -/
inductive Step : State κ → Act κ → State κ → Prop where
  | started {s : State κ} {i : κ} {async : Bool} (idle : s.calls i = none) :
      Step s (.start i async)
        { s.move i ⟨async,s.next,.queued,false⟩ (if async then .queued else .trying) with
          next := s.next+1 }
  | begun {s : State κ} {i : κ} {call : Call} (here : s.calls i = some call)
      (phase : call.phase = .queued) : Step s (.begin i) (s.move i call .trying)
  | released {s : State κ} {i : κ} {call : Call} (here : s.calls i = some call)
      (phase : call.phase = .releaseQueued) : Step s (.begin i) (s.move i call .unlocking)
  | tried {s : State κ} {i : κ} {call : Call} (here : s.calls i = some call)
      (phase : call.phase = .trying) :
      Step s (.tryLock i)
        { s.move i call (if (s.lock.acquire call.conn).2 then .taken else .refused) with
          lock := (s.lock.acquire call.conn).1 }
  -- the statement fails, carried out or not, which counts as a refusal
  | troubled {s : State κ} {i : κ} {call : Call} {took : Bool} (here : s.calls i = some call)
      (phase : call.phase = .trying) :
      Step s (.trouble i took)
        { s.move i call .refused with
          lock := if took then (s.lock.acquire call.conn).1 else s.lock }
  | declined {s : State κ} {i : κ} {call : Call} (here : s.calls i = some call)
      (phase : call.phase = .refused) :
      Step s (.close i) { s.leave i with lock := s.lock.close call.conn }
  | entered {s : State κ} {i : κ} {call : Call} (here : s.calls i = some call)
      (phase : call.phase = .taken) (heard : call.orphan = false) :
      Step s (.enter i) (s.move i call .running)
  -- nobody is there for the session, which goes out of use with the lock on its connection
  | dropped {s : State κ} {i : κ} {call : Call} (here : s.calls i = some call)
      (phase : call.phase = .taken) (unheard : call.orphan = true) : Step s (.drop i) (s.leave i)
  | finished {s : State κ} {i : κ} {call : Call} (here : s.calls i = some call)
      (phase : call.phase = .running) :
      Step s (.finish i) (s.move i call (if call.async then .releaseQueued else .unlocking))
  | unlocked {s : State κ} {i : κ} {call : Call} {fails : Bool} (here : s.calls i = some call)
      (phase : call.phase = .unlocking) :
      Step s (.unlock i fails)
        { s.move i call .closing with
          lock := if fails then s.lock else s.lock.release call.conn }
  | closed {s : State κ} {i : κ} {call : Call} (here : s.calls i = some call)
      (phase : call.phase = .closing) :
      Step s (.close i) { s.leave i with lock := s.lock.close call.conn }
  -- work that waits for a thread is withdrawn, and the release with it
  | withdrawn {s : State κ} {i : κ} {call : Call} (here : s.calls i = some call)
      (async : call.async = true) (phase : call.phase = .queued ∨ call.phase = .releaseQueued) :
      Step s (.cancel i) (s.leave i)
  | orphaned {s : State κ} {i : κ} {call : Call} (here : s.calls i = some call)
      (async : call.async = true)
      (phase : call.phase = .trying ∨ call.phase = .refused ∨ call.phase = .taken ∨
        call.phase = .unlocking ∨ call.phase = .closing) :
      Step s (.cancel i) (s.orphan i call)
  | interrupted {s : State κ} {i : κ} {call : Call} (here : s.calls i = some call)
      (async : call.async = true) (phase : call.phase = .running) :
      Step s (.cancel i) (s.move i call .releaseQueued)
  | lost {s : State κ} {conn : Nat} :
      Step s (.lose conn) { s with lock := s.lock.close conn, lost := true }
  -- a connection that no call has any more may be closed some day
  | collected {s : State κ} {conn : Nat} (unused : ∀ i call, s.calls i = some call → call.conn ≠ conn) :
      Step s (.collect conn) { s with lock := s.lock.close conn }

/-- No call that is cancelled while it acquires comes to hold the lock, and none is cancelled while
its release waits for a thread. -/
def Heard (s : State κ) : Act κ → Prop
  | .cancel i => ∀ call, s.calls i = some call →
      call.phase ≠ .taken ∧ call.phase ≠ .releaseQueued
  | .tryLock i => ∀ call, s.calls i = some call → call.orphan = true →
      (s.lock.acquire call.conn).2 = false
  | _ => True

def Idle (s : State κ) : Prop := ∀ i, s.calls i = none

def Phase.holding : Phase → Bool
  | .taken => true
  | .running => true
  | .releaseQueued => true
  | .unlocking => true
  | _ => false

def Phase.early : Phase → Bool
  | .queued => true
  | .trying => true
  | _ => false

structure Sound (s : State κ) : Prop where
  conns : ∀ i call, s.calls i = some call → call.conn < s.next
  apart : ∀ i j call other, s.calls i = some call → s.calls j = some other →
    call.conn = other.conn → i = j
  known : ∀ c, s.lock.heldBy c → c < s.next
  early : ∀ i call, s.calls i = some call → call.phase.early = true → ¬s.lock.heldBy call.conn
  held : ∀ i call, s.calls i = some call → call.phase.holding = true → s.lost = false →
    s.lock.heldBy call.conn

theorem update_some {α : Type} {f : κ → Option α} {i j : κ} {v : Option α} {a : α}
    (h : Function.update f i v j = some a) : (j = i ∧ v = some a) ∨ (j ≠ i ∧ f j = some a) := by
  by_cases ji : j = i
  · subst ji
    exact .inl ⟨rfl,by simpa using h⟩
  · rw [Function.update_of_ne ji] at h
    exact .inr ⟨ji,h⟩

variable {s : State κ}

theorem Sound.set (sound : Sound s) {i : κ} {call call' : Call} {lock : Lock}
    (here : s.calls i = some call) (same : call'.conn = call.conn)
    (others : ∀ c, c ≠ call.conn → (lock.heldBy c ↔ s.lock.heldBy c))
    (early : call'.phase.early = true → ¬lock.heldBy call.conn)
    (held : call'.phase.holding = true → s.lost = false → lock.heldBy call.conn) :
    Sound { s with calls := Function.update s.calls i (some call'), lock := lock } := by
  have conn : ∀ j other, Function.update s.calls i (some call') j = some other →
      ∃ old, s.calls j = some old ∧ old.conn = other.conn := by
    intro j other hj
    obtain ⟨rfl,ho⟩ | ⟨-,hj⟩ := update_some hj
    · exact ⟨call,here,(some.inj ho) ▸ same.symm⟩
    · exact ⟨other,hj,rfl⟩
  refine ⟨fun j other hj => ?_,fun j k a b hj hk hab => ?_,fun c hc => ?_,fun j other hj he => ?_,
    fun j other hj hh kept => ?_⟩
  · obtain ⟨old,ho,hc⟩ := conn j other hj
    exact hc ▸ sound.conns j old ho
  · obtain ⟨a',ha,hca⟩ := conn j a hj
    obtain ⟨b',hb,hcb⟩ := conn k b hk
    exact sound.apart j k a' b' ha hb (hca.trans (hab.trans hcb.symm))
  · by_cases mine : c = call.conn
    · exact mine ▸ sound.conns i call here
    · exact sound.known c ((others c mine).1 hc)
  · obtain ⟨-,ho⟩ | ⟨ji,hj⟩ := update_some hj
    · obtain rfl := some.inj ho
      exact same ▸ early he
    · have ne : other.conn ≠ call.conn := fun h => ji (sound.apart j i other call hj here h)
      exact fun h => sound.early j other hj he ((others _ ne).1 h)
  · obtain ⟨-,ho⟩ | ⟨ji,hj⟩ := update_some hj
    · obtain rfl := some.inj ho
      exact same ▸ held hh kept
    · have ne : other.conn ≠ call.conn := fun h => ji (sound.apart j i other call hj here h)
      exact (others _ ne).2 (sound.held j other hj hh kept)

theorem Sound.unset (sound : Sound s) {i : κ} {call : Call} {lock : Lock}
    (here : s.calls i = some call)
    (others : ∀ c, c ≠ call.conn → (lock.heldBy c ↔ s.lock.heldBy c)) :
    Sound { s.leave i with lock := lock } := by
  have old : ∀ j other, Function.update s.calls i none j = some other →
      s.calls j = some other ∧ other.conn ≠ call.conn := by
    intro j other hj
    obtain ⟨-,ho⟩ | ⟨ji,hj⟩ := update_some hj
    · exact nomatch ho
    · exact ⟨hj,fun h => ji (sound.apart j i other call hj here h)⟩
  refine ⟨fun j other hj => sound.conns j other (old j other hj).1,fun j k a b hj hk =>
    sound.apart j k a b (old j a hj).1 (old k b hk).1,fun c hc => ?_,fun j other hj he h => ?_,
    fun j other hj hh kept => ?_⟩
  · by_cases mine : c = call.conn
    · exact mine ▸ sound.conns i call here
    · exact sound.known c ((others c mine).1 hc)
  · obtain ⟨hj,ne⟩ := old j other hj
    exact sound.early j other hj he ((others _ ne).1 h)
  · obtain ⟨hj,ne⟩ := old j other hj
    exact (others _ ne).2 (sound.held j other hj hh kept)

theorem Sound.started {s : State κ} (sound : Sound s) (i : κ) (async : Bool)
    (idle : s.calls i = none) :
    Sound { s.move i ⟨async,s.next,.queued,false⟩ (if async then .queued else .trying) with
      next := s.next+1 } := by
  have fresh : ¬s.lock.heldBy s.next := fun h => Nat.lt_irrefl _ (sound.known _ h)
  have phase : (if async then Phase.queued else .trying).early = true ∧
      (if async then Phase.queued else .trying).holding = false := by
    cases async <;> exact ⟨rfl,rfl⟩
  have old : ∀ j other, Function.update s.calls i
      (some ⟨async,s.next,if async then .queued else .trying,false⟩) j = some other →
      (j = i ∧ other = ⟨async,s.next,if async then .queued else .trying,false⟩) ∨
        (j ≠ i ∧ s.calls j = some other ∧ other.conn < s.next) := by
    intro j other hj
    obtain ⟨ji,ho⟩ | ⟨ji,hj⟩ := update_some hj
    · exact .inl ⟨ji,(some.inj ho).symm⟩
    · exact .inr ⟨ji,hj,sound.conns j other hj⟩
  refine ⟨fun j other hj => ?_,fun j k a b hj hk hab => ?_,fun c hc => ?_,fun j other hj he => ?_,
    fun j other hj hh kept => ?_⟩
  · obtain ⟨-,rfl⟩ | ⟨-,-,less⟩ := old j other hj
    · exact Nat.lt_succ_self _
    · exact Nat.lt_succ_of_lt less
  · obtain ⟨rfl,rfl⟩ | ⟨ji,hj,less⟩ := old j a hj <;> obtain ⟨rfl,rfl⟩ | ⟨ki,hk,less'⟩ := old k b hk
    · rfl
    · exact absurd (hab ▸ less') (Nat.lt_irrefl _)
    · exact absurd (hab ▸ less) (Nat.lt_irrefl _)
    · exact sound.apart j k a b hj hk hab
  · exact Nat.lt_succ_of_lt (sound.known c hc)
  · obtain ⟨-,rfl⟩ | ⟨-,hj,-⟩ := old j other hj
    · exact fresh
    · exact sound.early j other hj he
  · obtain ⟨-,rfl⟩ | ⟨-,hj,-⟩ := old j other hj
    · exact absurd hh (by simp [phase.2])
    · exact sound.held j other hj hh kept

theorem Sound.step {t : State κ} {a : Act κ} (sound : Sound s) (step : Step s a t) : Sound t := by
  cases step with
  | started idle => exact sound.started _ _ idle
  | begun here phase =>
    exact sound.set here rfl (fun _ _ => Iff.rfl) (fun _ => sound.early _ _ here (by rw [phase]; rfl))
      nofun
  | released here phase | entered here phase heard | interrupted here async phase =>
    exact sound.set here rfl (fun _ _ => Iff.rfl) nofun
      fun _ => sound.held _ _ here (by rw [phase]; rfl)
  | @tried i call here phase =>
    cases got : (s.lock.acquire call.conn).2 with
    | true =>
      obtain ⟨mine,sole⟩ := Lock.acquire_granted got
      exact sound.set here rfl (fun c ne => ⟨fun h => absurd (Lock.heldBy_unique h mine) ne,
        fun h => absurd (sole c h) ne⟩) nofun fun _ _ => mine
    | false =>
      rw [(Lock.acquire_refused got).1]
      exact sound.set here rfl (fun _ _ => Iff.rfl) nofun nofun
  | @troubled i call took here phase =>
    refine sound.set here rfl (fun c ne => ?_) nofun nofun
    cases took with
    | false => exact Iff.rfl
    | true =>
      cases got : (s.lock.acquire call.conn).2 with
      | true =>
        obtain ⟨mine,sole⟩ := Lock.acquire_granted got
        exact ⟨fun h => absurd (Lock.heldBy_unique h mine) ne,fun h => absurd (sole c h) ne⟩
      | false => exact iff_of_eq (congrArg (fun l : Lock => l.heldBy c) (Lock.acquire_refused got).1)
  | declined here phase | closed here phase =>
    exact sound.unset here fun c ne => Lock.close_heldBy.trans (and_iff_left ne)
  | dropped here phase unheard | withdrawn here => exact sound.unset here fun _ _ => Iff.rfl
  | @finished i call here phase =>
    have held := sound.held _ _ here (by rw [phase]; rfl)
    cases async : call.async with
    | true | false => exact sound.set here rfl (fun _ _ => Iff.rfl) nofun fun _ => held
  | @unlocked i call fails here phase =>
    refine sound.set here rfl (fun c ne => ?_) nofun nofun
    cases fails with
    | true => exact Iff.rfl
    | false => exact Lock.release_heldBy ne
  | @orphaned i call here async phase =>
    exact sound.set here rfl (fun _ _ => Iff.rfl) (sound.early i call here) (sound.held i call here)
  | lost =>
    exact ⟨sound.conns,sound.apart,fun c hc => sound.known c (Lock.close_heldBy.1 hc).1,
      fun i call here he h => sound.early i call here he (Lock.close_heldBy.1 h).1,
      nofun⟩
  | collected unused =>
    exact ⟨sound.conns,sound.apart,fun c hc => sound.known c (Lock.close_heldBy.1 hc).1,
      fun i call here he h => sound.early i call here he (Lock.close_heldBy.1 h).1,
      fun i call here hh kept =>
        Lock.close_heldBy.2 ⟨sound.held i call here hh kept,unused i call here⟩⟩

structure Owned (s : State κ) : Prop where
  owner : ∀ c, s.lock.heldBy c → ∃ i call, s.calls i = some call ∧ call.conn = c
  heard : ∀ i call, s.calls i = some call → call.phase = .taken → call.orphan = false

theorem Owned.set (owned : Owned s) {i : κ} {call call' : Call} {lock : Lock}
    (here : s.calls i = some call) (same : call'.conn = call.conn)
    (others : ∀ c, c ≠ call.conn → lock.heldBy c → s.lock.heldBy c)
    (heard : call'.phase = .taken → call'.orphan = false) :
    Owned { s with calls := Function.update s.calls i (some call'), lock := lock } := by
  refine ⟨fun c hc => ?_,fun j other hj ht => ?_⟩
  · by_cases mine : c = call.conn
    · exact ⟨i,call',by simp,same.trans mine.symm⟩
    · obtain ⟨j,other,hj,conn⟩ := owned.owner c (others c mine hc)
      have ji : j ≠ i := by
        rintro rfl
        exact mine (conn.symm.trans (congrArg Call.conn (some.inj (hj.symm.trans here))))
      exact ⟨j,other,(Function.update_of_ne ji _ _).trans hj,conn⟩
  · obtain ⟨-,ho⟩ | ⟨-,hj⟩ := update_some hj
    · obtain rfl := some.inj ho
      exact heard ht
    · exact owned.heard j other hj ht

theorem Owned.unset (owned : Owned s) {i : κ} {call : Call} {lock : Lock}
    (here : s.calls i = some call)
    (others : ∀ c, lock.heldBy c → s.lock.heldBy c ∧ c ≠ call.conn) :
    Owned { s.leave i with lock := lock } := by
  refine ⟨fun c hc => ?_,fun j other hj ht => ?_⟩
  · obtain ⟨held,ne⟩ := others c hc
    obtain ⟨j,other,hj,conn⟩ := owned.owner c held
    have ji : j ≠ i := by
      rintro rfl
      exact ne (conn.symm.trans (congrArg Call.conn (some.inj (hj.symm.trans here))))
    exact ⟨j,other,(Function.update_of_ne ji _ _).trans hj,conn⟩
  · obtain ⟨-,ho⟩ | ⟨-,hj⟩ := update_some hj
    · exact nomatch ho
    · exact owned.heard j other hj ht

theorem Owned.step {t : State κ} {a : Act κ} (owned : Owned s) (sound : Sound s)
    (step : Guarded Step Heard s a t) : Owned t := by
  obtain ⟨guard,step⟩ := step
  cases step with
  | @started i async idle =>
    refine ⟨fun c hc => ?_,fun j other hj ht => ?_⟩
    · obtain ⟨j,other,hj,conn⟩ := owned.owner c hc
      have ji : j ≠ i := by
        rintro rfl
        exact nomatch hj.symm.trans idle
      exact ⟨j,other,(Function.update_of_ne ji _ _).trans hj,conn⟩
    · obtain ⟨-,ho⟩ | ⟨-,hj⟩ := update_some hj
      · obtain rfl := some.inj ho
        rfl
      · exact owned.heard j other hj ht
  | begun here | released here | entered here | interrupted here =>
    exact owned.set here rfl (fun _ _ h => h) nofun
  | @tried i call here phase =>
    cases got : (s.lock.acquire call.conn).2 with
    | true =>
      obtain ⟨mine,-⟩ := Lock.acquire_granted got
      have heard : call.orphan = false := by
        by_contra orphan
        exact nomatch got.symm.trans (guard call here (by simpa using orphan))
      exact owned.set here rfl (fun c ne h => absurd (Lock.heldBy_unique h mine) ne) fun _ => heard
    | false =>
      rw [(Lock.acquire_refused got).1]
      exact owned.set here rfl (fun _ _ h => h) nofun
  | @troubled i call took here phase =>
    refine owned.set here rfl (fun c ne h => ?_) nofun
    cases took with
    | false => exact h
    | true =>
      cases got : (s.lock.acquire call.conn).2 with
      | true => exact absurd (Lock.heldBy_unique h (Lock.acquire_granted got).1) ne
      | false => exact (congrArg (fun l : Lock => l.heldBy c) (Lock.acquire_refused got).1).mp h
  | declined here | closed here => exact owned.unset here fun c h => Lock.close_heldBy.1 h
  | dropped here phase unheard => exact nomatch unheard.symm.trans (owned.heard _ _ here phase)
  | @finished i call here =>
    refine owned.set here rfl (fun _ _ h => h) fun h => ?_
    cases async : call.async <;> simp [async] at h
  | @unlocked i call fails here =>
    refine owned.set here rfl (fun c _ h => ?_) nofun
    cases fails with
    | true => exact h
    | false => exact Lock.release_held h
  | @withdrawn i call here async phase =>
    obtain queued | released := phase
    · have none := sound.early i call here (by rw [queued]; rfl)
      exact owned.unset here fun c h => ⟨h,fun mine => none (mine ▸ h)⟩
    · exact absurd released (guard call here).2
  | @orphaned i call here async phase =>
    exact owned.set here rfl (fun _ _ h => h) fun taken => absurd taken (guard call here).1
  | lost | collected => exact ⟨fun c h => owned.owner c (Lock.close_heldBy.1 h).1,owned.heard⟩

omit [DecidableEq κ] in
theorem start_sound : Sound ({} : State κ) :=
  ⟨by simp,by simp,by simp [Lock.heldBy],by simp,by simp⟩

omit [DecidableEq κ] in
theorem start_owned : Owned ({} : State κ) :=
  ⟨by simp [Lock.heldBy],by simp⟩

theorem next_tick (idle : Idle s) (free : s.lock = none) (i : κ) (async : Bool) :
    ∃ as t call, Run (Guarded Step Heard) s as t ∧ t.calls i = some call ∧ call.async = async ∧
      call.phase = .running := by
  have begun : ∃ as t, Run (Guarded Step Heard) s as t ∧ t.lock = none ∧
      t.calls i = some ⟨async,s.next,.trying,false⟩ := by
    have started : Run (Guarded Step Heard) s _ _ :=
      (Run.nil s).also (@Step.started _ _ _ i async (idle i)) trivial
    cases async with
    | false => exact ⟨_,_,started,free,by simp [State.move]⟩
    | true =>
      have here : (s.move i ⟨true,s.next,.queued,false⟩ .queued).calls i =
          some ⟨true,s.next,.queued,false⟩ := by simp [State.move]
      exact ⟨_,_,started.also (.begun here rfl) trivial,free,by simp [State.move]⟩
  obtain ⟨as,t,run,unheld,trying⟩ := begun
  have heard : Heard t (.tryLock i) := by
    intro call here orphan
    obtain rfl := some.inj (trying.symm.trans here)
    exact nomatch orphan
  have tried := run.also (.tried trying rfl) heard
  have granted : (t.lock.acquire s.next).2 = true := by
    rw [unheld]
    rfl
  have taken : (t.move i ⟨async,s.next,.trying,false⟩
      (if (t.lock.acquire s.next).2 then .taken else .refused)).calls i =
        some ⟨async,s.next,.taken,false⟩ := by simp [State.move,granted]
  exact ⟨_,_,_,tried.also (.entered taken rfl rfl) trivial,by simp [State.move]; rfl,rfl,rfl⟩

/-- Where no call that is cancelled while it acquires comes to hold the lock, and none is cancelled
while its release waits for a thread, the body never runs twice at once as long as no connection is
lost; and when no call is in progress, nobody holds the lock, so that the next one runs the body. -/
theorem single_owner_runs_once {as : List (Act κ)} {s : State κ}
    (run : Run (Guarded Step Heard) {} as s) :
    (s.lost = false → ∀ i j call other, s.calls i = some call → s.calls j = some other →
      call.phase = .running → other.phase = .running → i = j) ∧
    (Idle s → s.lock = none ∧ ∀ i async, ∃ bs t call, Run (Guarded Step Heard) s bs t ∧
      t.calls i = some call ∧ call.async = async ∧ call.phase = .running) := by
  obtain ⟨sound,owned⟩ := Run.invariant (I := fun s => Sound s ∧ Owned s)
    (fun _ _ _ h step => ⟨h.1.step step.2,h.2.step h.1 step⟩) run ⟨start_sound,start_owned⟩
  refine ⟨fun kept i j call other hi hj ri rj => ?_,fun idle => ?_⟩
  · have mine := sound.held i call hi (by rw [ri]; rfl) kept
    have theirs := sound.held j other hj (by rw [rj]; rfl) kept
    exact sound.apart i j call other hi hj (Lock.heldBy_unique mine theirs)
  · have free : s.lock = none := by
      cases held : s.lock with
      | none => rfl
      | some holder =>
        obtain ⟨i,call,hi,-⟩ := owned.owner holder.1 ⟨holder.2,held⟩
        exact nomatch hi.symm.trans (idle i)
    exact ⟨free,fun i async => next_tick idle free i async⟩

theorem single_owner_runs_once_sync : ∃ as s, Run (Guarded Step Heard) ({} : State Bool) as s ∧
    as.length = 6 ∧ Idle s ∧ s.lock = none := by
  have started : Run (Guarded Step Heard) ({} : State Bool) _ _ :=
    (Run.nil _).also (@Step.started _ _ _ true false rfl) trivial
  have tried := started.also (@Step.tried _ _ _ true ⟨false,0,.trying,false⟩ rfl rfl) fun call h o => by
    obtain rfl := some.inj h
    exact nomatch o
  have entered := tried.also (@Step.entered _ _ _ true ⟨false,0,.taken,false⟩ rfl rfl rfl) trivial
  have finished := entered.also (@Step.finished _ _ _ true ⟨false,0,.running,false⟩ rfl rfl) trivial
  have unlocked := finished.also
    (@Step.unlocked _ _ _ true ⟨false,0,.unlocking,false⟩ false rfl rfl) trivial
  have run := unlocked.also (@Step.closed _ _ _ true ⟨false,0,.closing,false⟩ rfl rfl) trivial
  refine ⟨_,_,run,rfl,?_,((single_owner_runs_once run).2 ?_).1⟩ <;> (intro i; cases i <;> rfl)

/-- A call that is cancelled while its thread acquires leaves the lock to nobody. -/
theorem lock_leaks : ¬∀ (as : List (Act Bool)) (s : State Bool), Run Step {} as s → Idle s →
    s.lock = none := by
  intro all
  have started : Run Step ({} : State Bool) _ _ := (Run.nil _).snoc (@Step.started _ _ _ true true rfl)
  have begun := started.snoc (@Step.begun _ _ _ true ⟨true,0,.queued,false⟩ rfl rfl)
  have cancelled := begun.snoc
    (@Step.orphaned _ _ _ true ⟨true,0,.trying,false⟩ rfl rfl (.inl rfl))
  have tried := cancelled.snoc (@Step.tried _ _ _ true ⟨true,0,.trying,true⟩ rfl rfl)
  have run := tried.snoc (@Step.dropped _ _ _ true ⟨true,0,.taken,true⟩ rfl rfl rfl)
  have free := all _ _ run fun i => by cases i <;> rfl
  exact nomatch free

end CircuitBreaker.JobLocks
