import CircuitBreaker.StepRuns
import Mathlib.Logic.Function.Basic

/-! A parked message and the operators' calls on it (services/failed_message_service.py): each call
reads the row, and later updates it under its lock, with the publish in between. -/

namespace CircuitBreaker.ParkedMessages
open StepRuns

structure FailedMessage where
  requeuedAt : Option Nat := none
  discardedAt : Option Nat := none

def FailedMessage.isResolved (row : FailedMessage) : Bool :=
  row.requeuedAt.isSome || row.discardedAt.isSome

inductive Refusal where
  | messageAlreadyResolved
  | republishFailed

inductive Phase where
  | idle
  | requeueCalled
  | requeueLoaded
  | requeueConnected
  /-- `requeued_at` is flushed, and the row locked -/
  | requeueMarked (now : Nat)
  | requeueSending (now : Nat)
  /-- the publisher returned; whether it handed the message over is kept for the statements -/
  | requeuePublished (now : Nat) (handed : Bool)
  | discardCalled
  | discardLoaded
  | discardMarked (now : Nat)
  | resolved
  | refused (reason : Refusal)

def Phase.holds : Phase → Bool
  | .requeueMarked _ | .requeueSending _ | .requeuePublished _ _ | .discardMarked _ => true
  | _ => false

/-- What a commit did; a requeue with whether the message had been handed to the connection. -/
inductive Resolution where
  | requeued (handed : Bool)
  | discarded
  deriving DecidableEq

structure World where
  row : FailedMessage := {}
  phases : Nat → Phase := fun _ => .idle
  connected : Nat → Bool
  buffered : Nat → Nat := fun _ => 0
  /-- how often the message was handed to a connection; this and the next are kept for the statements -/
  handed : Nat := 0
  resolutions : List Resolution := []

namespace World
variable (w : World)

def goes (i : Nat) (p : Phase) : World := { w with phases := Function.update w.phases i p }

def Free : Prop := ∀ i, (w.phases i).holds = false

def append (process : Nat) : World :=
  { w with buffered := Function.update w.buffered process (w.buffered process+1) }

def hand : World := { w with handed := w.handed+1 }

def resolve (row : FailedMessage) (r : Resolution) : World :=
  { w with
    row := row
    resolutions := w.resolutions++[r] }

/-- `_load_actionable` -/
def load (i : Nat) (loaded : Phase) : World :=
  w.goes i (if w.row.isResolved then .refused .messageAlreadyResolved else loaded)

def checkConnected (i process : Nat) : World :=
  w.goes i (if w.connected process then .requeueConnected else .refused .republishFailed)

/-- The client's `publish`, up to where it returns or awaits. -/
def publish (i process now : Nat) : World :=
  if w.connected process then w.goes i (.requeueSending now)
  else (w.append process).goes i (.requeuePublished now false)

end World

inductive Act where
  | callRequeue (i : Nat)
  | callDiscard (i : Nat)
  | load (i : Nat)
  | check (i : Nat)
  | mark (i now : Nat)
  | publish (i : Nat)
  | publishRaises (i : Nat)
  | sent (i : Nat)
  | sendFails (i : Nat)
  | commit (i : Nat)
  | drop (process : Nat)
  | reconnect (process : Nat)
  | unbuffer (process : Nat) (handed : Bool)

section
variable (process : Nat → Nat)

inductive Step : World → Act → World → Prop where
  | callRequeue {w : World} {i : Nat} : w.phases i = .idle →
      Step w (.callRequeue i) (w.goes i .requeueCalled)
  | callDiscard {w : World} {i : Nat} : w.phases i = .idle →
      Step w (.callDiscard i) (w.goes i .discardCalled)
  | loadRequeue {w : World} {i : Nat} : w.phases i = .requeueCalled →
      Step w (.load i) (w.load i .requeueLoaded)
  | loadDiscard {w : World} {i : Nat} : w.phases i = .discardCalled →
      Step w (.load i) (w.load i .discardLoaded)
  | check {w : World} {i : Nat} : w.phases i = .requeueLoaded →
      Step w (.check i) (w.checkConnected i (process i))
  | markRequeue {w : World} {i : Nat} (now : Nat) : w.phases i = .requeueConnected → w.Free →
      Step w (.mark i now) (w.goes i (.requeueMarked now))
  | markDiscard {w : World} {i : Nat} (now : Nat) : w.phases i = .discardLoaded → w.Free →
      Step w (.mark i now) (w.goes i (.discardMarked now))
  | publish {w : World} {i now : Nat} : w.phases i = .requeueMarked now →
      Step w (.publish i) (w.publish i (process i) now)
  | publishRaises {w : World} {i now : Nat} : w.phases i = .requeueMarked now →
      Step w (.publishRaises i) (w.goes i (.refused .republishFailed))
  | sent {w : World} {i now : Nat} : w.phases i = .requeueSending now →
      Step w (.sent i) (w.hand.goes i (.requeuePublished now true))
  | sendFails {w : World} {i now : Nat} : w.phases i = .requeueSending now →
      Step w (.sendFails i) ((w.append (process i)).goes i (.requeuePublished now false))
  | commitRequeue {w : World} {i now : Nat} {handed : Bool} :
      w.phases i = .requeuePublished now handed →
      Step w (.commit i)
        ((w.resolve { w.row with requeuedAt := some now } (.requeued handed)).goes i .resolved)
  | commitDiscard {w : World} {i now : Nat} : w.phases i = .discardMarked now →
      Step w (.commit i)
        ((w.resolve { w.row with discardedAt := some now } .discarded).goes i .resolved)
  | drop (w : World) (p : Nat) :
      Step w (.drop p) { w with connected := Function.update w.connected p false }
  | reconnect (w : World) (p : Nat) :
      Step w (.reconnect p) { w with connected := Function.update w.connected p true }
  | unbuffer {w : World} {p : Nat} (handed : Bool) : 0 < w.buffered p →
      Step w (.unbuffer p handed)
        { w with
          buffered := Function.update w.buffered p (w.buffered p-1)
          handed := if handed then w.handed+1 else w.handed }

/-- The row is marked only while no resolution of it is committed, and the connection stays from the
check to the end of the send. -/
def Meets (w : World) : Act → Prop
  | .mark _ _ => w.row.isResolved = false
  | .publish i => w.connected (process i) = true
  | .sendFails _ => False
  | _ => True

end

/-- The message is resolved at most once and put back at most once, and what is committed as requeued
was handed to the connection. -/
structure Once (w : World) : Prop where
  resolved : w.resolutions.length ≤ 1
  either : w.row.requeuedAt = none ∨ w.row.discardedAt = none
  back : w.handed ≤ 1
  live : ∀ r ∈ w.resolutions, r ≠ .requeued false

/-! What holds between the steps. -/

def Phase.published : Phase → Bool
  | .requeuePublished _ _ => true
  | _ => false

/-- At most one call holds the lock, and none once the message is resolved; as long as it is not, the
message is handed over only by a call that has yet to commit. -/
structure Sound (w : World) : Prop where
  sole : ∀ i j, (w.phases i).holds = true → (w.phases j).holds = true → i = j
  sent : ∀ i now b, w.phases i = .requeuePublished now b → b = true
  dry : ∀ p, w.buffered p = 0
  closed : w.row.isResolved = true → w.Free
  fresh : w.row.isResolved = false → w.resolutions = []
  waiting : w.row.isResolved = false → (∀ i, (w.phases i).published = false) → w.handed = 0
  once : Once w

section
variable {w : World}

theorem Sound.unresolved (h : Sound w) {i : Nat} (holds : (w.phases i).holds = true) :
    w.row.isResolved = false := by
  refine Bool.eq_false_iff.2 fun resolved => ?_
  rw [h.closed resolved i] at holds
  cases holds

theorem goes_phases (w : World) (i j : Nat) (p : Phase) :
    (w.goes i p).phases j = if j = i then p else w.phases j :=
  Function.update_apply w.phases i p j

theorem Sound.goes (h : Sound w) {i : Nat} {p : Phase} (was : (w.phases i).published = false)
    (published : p.published = false)
    (lock : p.holds = true → w.row.isResolved = false ∧ ((w.phases i).holds = true ∨ w.Free)) :
    Sound (w.goes i p) where
  sole j k hj hk := by
    rw [goes_phases] at hj hk
    by_cases ji : j = i
    · by_cases ki : k = i
      · rw [ji,ki]
      · rw [if_pos ji] at hj
        rw [if_neg ki] at hk
        rcases (lock hj).2 with mine | free
        · exact ji.trans (h.sole i k mine hk)
        · rw [free k] at hk
          cases hk
    · rw [if_neg ji] at hj
      split at hk
      case isTrue ki =>
        rcases (lock hk).2 with mine | free
        · exact (h.sole j i hj mine).trans ki.symm
        · rw [free j] at hj
          cases hj
      case isFalse =>
        exact h.sole j k hj hk
  sent j now b there := by
    rw [goes_phases] at there
    split at there
    · rw [there] at published
      cases published
    · exact h.sent j now b there
  dry := h.dry
  closed resolved j := by
    rw [goes_phases]
    split
    · refine Bool.eq_false_iff.2 fun holds => ?_
      have unresolved := (lock holds).1
      exact absurd (resolved.symm.trans unresolved) (by decide)
    · exact h.closed resolved j
  fresh := h.fresh
  waiting unresolved none := by
    refine h.waiting unresolved fun j => ?_
    by_cases ji : j = i
    · rw [ji]
      exact was
    · have := none j
      rwa [goes_phases,if_neg ji] at this
  once := ⟨h.once.resolved,h.once.either,h.once.back,h.once.live⟩

theorem Sound.hand (h : Sound w) {i now : Nat} (phase : w.phases i = .requeueSending now) :
    Sound (w.hand.goes i (.requeuePublished now true)) := by
  have holds : (w.phases i).holds = true := by rw [phase]; rfl
  have unresolved := h.unresolved holds
  have none : w.handed = 0 := by
    refine h.waiting unresolved fun j => Bool.eq_false_iff.2 fun published => ?_
    have same : j = i := by
      refine h.sole j i ?_ holds
      cases hp : w.phases j <;> rw [hp] at published <;> first | rfl | cases published
    rw [same,phase] at published
    cases published
  have locked : ∀ j, ((w.hand.goes i (.requeuePublished now true)).phases j).holds = true → j = i := by
    intro j hj
    by_contra ji
    rw [goes_phases,if_neg ji] at hj
    exact ji (h.sole j i hj holds)
  refine ⟨fun j k hj hk => (locked j hj).trans (locked k hk).symm,fun j now' b there => ?_,h.dry,
    fun resolved => ?_,h.fresh,fun _ published => ?_,h.once.resolved,h.once.either,?_,h.once.live⟩
  · by_cases ji : j = i
    · rw [goes_phases,if_pos ji] at there
      cases there
      rfl
    · rw [goes_phases,if_neg ji] at there
      exact h.sent j now' b there
  · exact absurd (resolved.symm.trans unresolved) (by decide)
  · have mine := published i
    rw [goes_phases,if_pos rfl] at mine
    cases mine
  · show w.handed+1 ≤ 1
    omega

theorem Sound.commit (h : Sound w) {i : Nat} (holds : (w.phases i).holds = true)
    {row : FailedMessage} {r : Resolution} (resolved : row.isResolved = true)
    (either : row.requeuedAt = none ∨ row.discardedAt = none) (live : r ≠ .requeued false) :
    Sound ((w.resolve row r).goes i .resolved) := by
  have free : ((w.resolve row r).goes i .resolved).Free := by
    intro j
    rw [goes_phases]
    split
    case isTrue =>
      rfl
    case isFalse ji =>
      exact Bool.eq_false_iff.2 fun hj => ji (h.sole j i hj holds)
  have none := h.fresh (h.unresolved holds)
  have only : w.resolutions++[r] = [r] := by rw [none,List.nil_append]
  refine ⟨fun j k hj => ?_,fun j now b there => ?_,h.dry,fun _ => free,fun unresolved => ?_,
    fun unresolved => ?_,?_,either,h.once.back,fun r' hr => ?_⟩
  · rw [free j] at hj
    cases hj
  · by_cases ji : j = i
    · rw [goes_phases,if_pos ji] at there
      cases there
    · rw [goes_phases,if_neg ji] at there
      exact h.sent j now b there
  · exact absurd (resolved.symm.trans unresolved) (by decide)
  · exact absurd (resolved.symm.trans unresolved) (by decide)
  · show (w.resolutions++[r]).length ≤ 1
    rw [only]
    exact Nat.le_refl 1
  · have mem : r' ∈ w.resolutions++[r] := hr
    rw [only,List.mem_singleton] at mem
    rw [mem]
    exact live

variable {process : Nat → Nat}

theorem Sound.step {act : Act} {v : World} (h : Sound w)
    (s : Guarded (Step process) (Meets process) w act v) : Sound v := by
  obtain ⟨meets,s⟩ := s
  have idle : ∀ {i p}, w.phases i = p → p.published = false → (w.phases i).published = false :=
    fun eq none => by rw [eq,none]
  cases s with
  | callRequeue phase | callDiscard phase | publishRaises phase =>
    exact h.goes (idle phase rfl) rfl nofun
  | loadRequeue phase | loadDiscard phase =>
    rw [World.load]
    split
    · exact h.goes (idle phase rfl) rfl nofun
    · exact h.goes (idle phase rfl) rfl nofun
  | check phase =>
    rw [World.checkConnected]
    split
    · exact h.goes (idle phase rfl) rfl nofun
    · exact h.goes (idle phase rfl) rfl nofun
  | markRequeue now phase free | markDiscard now phase free =>
    exact h.goes (idle phase rfl) rfl fun _ => ⟨meets,.inr free⟩
  | @publish i now phase =>
    have holds : (w.phases i).holds = true := by rw [phase]; rfl
    have live : w.connected (process i) = true := meets
    rw [World.publish,if_pos live]
    exact h.goes (idle phase rfl) rfl fun _ => ⟨h.unresolved holds,.inl holds⟩
  | sent phase => exact h.hand phase
  | sendFails phase => exact meets.elim
  | @commitRequeue i now handed phase =>
    have holds : (w.phases i).holds = true := by rw [phase]; rfl
    have unresolved := h.unresolved holds
    rw [h.sent i now handed phase]
    refine h.commit holds rfl (.inr ?_) (by decide)
    rw [FailedMessage.isResolved,Bool.or_eq_false_iff] at unresolved
    exact Option.not_isSome_iff_eq_none.1 (by simp [unresolved.2])
  | @commitDiscard i now phase =>
    have holds : (w.phases i).holds = true := by rw [phase]; rfl
    have unresolved := h.unresolved holds
    refine h.commit holds (by simp [FailedMessage.isResolved]) (.inl ?_) (by decide)
    rw [FailedMessage.isResolved,Bool.or_eq_false_iff] at unresolved
    exact Option.not_isSome_iff_eq_none.1 (by simp [unresolved.1])
  | drop p | reconnect p =>
    exact ⟨h.sole,h.sent,h.dry,h.closed,h.fresh,h.waiting,h.once.1,h.once.2,h.once.3,h.once.4⟩
  | unbuffer handed some_ =>
    rw [h.dry] at some_
    cases some_

end

theorem parked_sound (connected : Nat → Bool) : Sound { connected } :=
  ⟨nofun,nofun,fun _ => rfl,nofun,fun _ => rfl,fun _ _ => rfl,Nat.zero_le 1,.inl rfl,Nat.zero_le 1,nofun⟩

theorem requeued_once {process : Nat → Nat} {connected : Nat → Bool} {acts : List Act} {w : World}
    (run : Run (Guarded (Step process) (Meets process)) { connected } acts w) : Once w :=
  (run.invariant (fun _ _ _ h s => h.step s) (parked_sound connected)).once

theorem World.Free.goes {w : World} (free : w.Free) {p : Phase} (i : Nat) (without : p.holds = false) :
    (w.goes i p).Free := by
  intro j
  rw [goes_phases]
  split
  · rw [without]
  · exact free j

def ownProcess (i : Nat) : Nat := i

def parked : World := { connected := fun _ => true }

def bothLoaded : World :=
  (((parked.goes 0 .requeueCalled).goes 1 .requeueCalled).goes 0 .requeueLoaded).goes 1 .requeueLoaded

def bothChecked : World := (bothLoaded.goes 0 .requeueConnected).goes 1 .requeueConnected

theorem bothChecked_free : bothChecked.Free := by
  have start : parked.Free := fun _ => rfl
  have called := (start.goes (p := .requeueCalled) 0 rfl).goes (p := .requeueCalled) 1 rfl
  have loaded := (called.goes (p := .requeueLoaded) 0 rfl).goes (p := .requeueLoaded) 1 rfl
  exact (loaded.goes (p := .requeueConnected) 0 rfl).goes (p := .requeueConnected) 1 rfl

def firstDone : World :=
  let marked := bothChecked.goes 0 (.requeueMarked 5)
  let published := (marked.goes 0 (.requeueSending 5)).hand.goes 0 (.requeuePublished 5 true)
  (published.resolve { requeuedAt := some 5 } (.requeued true)).goes 0 .resolved

theorem first_done : ∃ acts,
    Run (Guarded (Step ownProcess) (Meets ownProcess)) { connected := fun _ => true } acts firstDone := by
  have start : Run (Guarded (Step ownProcess) (Meets ownProcess)) parked [] parked := .nil _
  have first := start.also (@Step.callRequeue _ parked 0 rfl) trivial
  have second := first.also (@Step.callRequeue _ _ 1 rfl) trivial
  have firstRead := second.also (@Step.loadRequeue _ _ 0 rfl) trivial
  have loaded := firstRead.also (@Step.loadRequeue _ _ 1 rfl) trivial
  have firstChecked := loaded.also (@Step.check _ _ 0 rfl) trivial
  have checked := firstChecked.also (@Step.check _ _ 1 rfl) trivial
  have marked := checked.also (@Step.markRequeue _ bothChecked 0 5 rfl bothChecked_free) rfl
  have sending := marked.also (@Step.publish _ _ 0 5 rfl) rfl
  have published := sending.also (@Step.sent _ _ 0 5 rfl) trivial
  have committed := published.also (@Step.commitRequeue _ _ 0 5 true rfl) trivial
  exact ⟨_,committed⟩

theorem first_once : ∃ acts,
    Run (Guarded (Step ownProcess) (Meets ownProcess)) { connected := fun _ => true } acts firstDone ∧
    firstDone.resolutions = [.requeued true] ∧ Once firstDone := by
  obtain ⟨acts,run⟩ := first_done
  exact ⟨acts,run,rfl,requeued_once run⟩

/-- The other goes on with what it read before, and the message is put back twice. -/
theorem requeued_twice : ∃ acts w,
    Run (Step ownProcess) { connected := fun _ => true } acts w ∧ w.handed = 2 ∧ ¬Once w := by
  obtain ⟨acts,run⟩ := first_done
  have unlocked : firstDone.Free := by
    intro j
    by_cases j0 : j = 0
    · rw [j0]
      rfl
    by_cases j1 : j = 1
    · rw [j1]
      rfl
    simp [firstDone,bothChecked,bothLoaded,parked,World.goes,World.hand,World.resolve,j0,j1,Phase.holds]
  have marked := run.unguarded.snoc (@Step.markRequeue ownProcess firstDone 1 6 rfl unlocked)
  have sending := marked.snoc (@Step.publish _ _ 1 6 rfl)
  have published := sending.snoc (@Step.sent _ _ 1 6 rfl)
  have committed := published.snoc (@Step.commitRequeue _ _ 1 6 true rfl)
  exact ⟨_,_,committed,rfl,fun once => absurd once.back (by decide)⟩

end CircuitBreaker.ParkedMessages
