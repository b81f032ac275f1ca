import CircuitBreaker.BreakerWindow

/-! Concurrent calls through one circuit breaker (`call_with_circuit_breaker`): each asks `is_open`,
makes its call and records how it went, with any number of others in between. -/

namespace CircuitBreaker.BreakerTrial
open StepRuns BreakerWindow

/-- Where a caller stands; a circuit that is open sends it away at once. -/
inductive Phase where
  | before
  | calling
  | left
  deriving DecidableEq

/-- `trials` lists the calls let through as the trial since the circuit last left half-open; it is
kept for the statements and read by nothing. -/
structure World where
  breaker : Breaker
  phase : Nat → Phase
  trials : List Nat

def World.fresh : World := ⟨{},fun _ => .before,[]⟩

/-- `abandon` is a call cancelled from outside, which records nothing. -/
inductive Act where
  | ask (k : Nat) (now : ℚ)
  | succeed (k : Nat) (now : ℚ)
  | fail (k : Nat) (now : ℚ)
  | abandon (k : Nat)

def World.to (w : World) (k : Nat) (p : Phase) : World :=
  {w with phase := Function.update w.phase k p}

/-- The answer of `is_open` to caller `k`. -/
def World.ask (w : World) (k : Nat) (now : ℚ) : World :=
  let answer := w.breaker.isOpen now
  let w := {w with breaker := answer.2}
  if answer.1 = true then w.to k .left
  else if answer.2.state = .halfOpen then {w with trials := w.trials++[k]}.to k .calling
  else w.to k .calling

/-- The breaker after a record; a circuit that is no longer half-open has had its trial. -/
def World.record (w : World) (k : Nat) (b : Breaker) : World :=
  World.to ⟨b,w.phase,if b.state = .halfOpen then w.trials else []⟩ k .left

inductive Step (cfg : Config) : World → Act → World → Prop where
  | ask {w : World} (k : Nat) (now : ℚ) (h : w.phase k = .before) :
      Step cfg w (.ask k now) (w.ask k now)
  | succeed {w : World} (k : Nat) (now : ℚ) (h : w.phase k = .calling) :
      Step cfg w (.succeed k now) (w.record k w.breaker.recordSuccess)
  | fail {w : World} (k : Nat) (now : ℚ) (h : w.phase k = .calling) :
      Step cfg w (.fail k now) (w.record k (w.breaker.recordFailure cfg now))
  | abandon {w : World} (k : Nat) (h : w.phase k = .calling) :
      Step cfg w (.abandon k) (w.to k .left)

/-- One trial at a time, and nothing but its success closes an open circuit. -/
structure TrialLaw (w : World) (act : Act) (w' : World) : Prop where
  single : w'.trials.length ≤ 1
  closes : w.breaker.state ≠ .closed → w'.breaker.state = .closed →
    ∃ k now, act = .succeed k now ∧ k ∈ w.trials

/-- Nobody asks while a trial is under way, and no other call succeeds until the circuit is
closed. -/
def Meets (w : World) : Act → Prop
  | .ask _ _ => w.breaker.state ≠ .halfOpen
  | .succeed k _ => w.breaker.state = .closed ∨ k ∈ w.trials
  | .fail _ _ => True
  | .abandon _ => True

instance (w : World) (act : Act) : Decidable (Meets w act) :=
  match act with
  | .ask _ _ => inferInstanceAs (Decidable (_ ≠ _))
  | .succeed _ _ => inferInstanceAs (Decidable (_ ∨ _))
  | .fail _ _ => inferInstanceAs (Decidable True)
  | .abandon _ => inferInstanceAs (Decidable True)

structure Sound (w : World) : Prop where
  trying : w.breaker.state = .halfOpen → ∃ k, w.trials = [k]
  idle : w.breaker.state ≠ .halfOpen → w.trials = []

theorem fresh_sound : Sound .fresh := ⟨nofun,fun _ => rfl⟩

theorem Sound.single {w : World} (h : Sound w) : w.trials.length ≤ 1 := by
  by_cases half : w.breaker.state = .halfOpen
  · obtain ⟨k,eq⟩ := h.trying half
    simp [eq]
  · simp [h.idle half]

theorem isOpen_state (b : Breaker) (now : ℚ) :
    ((b.isOpen now).2.state = .halfOpen → (b.isOpen now).1 = false) ∧
      ((b.isOpen now).2.state ≠ .halfOpen → (b.isOpen now).2 = b ∧ b.state ≠ .halfOpen) := by
  unfold Breaker.isOpen
  cases hs : b.state with
  | closed => simp [hs]
  | halfOpen => simp [hs]
  | opened =>
    simp only
    split
    · simp
    · simp [hs]

theorem recordFailure_state (b : Breaker) (cfg : Config) (now : ℚ) :
    (b.recordFailure cfg now).state = .opened ∨
      (b.recordFailure cfg now).state = b.state ∧ b.state ≠ .halfOpen := by
  unfold Breaker.recordFailure
  split
  · exact .inl rfl
  · rename_i half
    dsimp only
    split
    · split
      · exact .inl rfl
      · exact .inr ⟨rfl,half⟩
    · exact .inr ⟨rfl,half⟩

section
variable {cfg : Config} {w w' : World} {act : Act}

theorem ask_trials (k : Nat) (now : ℚ) : (w.ask k now).trials =
    if (w.breaker.isOpen now).2.state = .halfOpen then w.trials++[k] else w.trials := by
  unfold World.ask
  by_cases half : (w.breaker.isOpen now).2.state = .halfOpen
  · simp [half,(isOpen_state w.breaker now).1 half,World.to]
  · simp only [half,if_false]
    split <;> rfl

theorem ask_breaker (k : Nat) (now : ℚ) : (w.ask k now).breaker = (w.breaker.isOpen now).2 := by
  unfold World.ask
  dsimp only
  split
  · rfl
  · split <;> rfl

theorem Sound.ask (h : Sound w) (k : Nat) (now : ℚ) (quiet : w.breaker.state ≠ .halfOpen) :
    Sound (w.ask k now) := by
  constructor
  · intro half
    rw [ask_breaker] at half
    refine ⟨k,?_⟩
    rw [ask_trials,if_pos half,h.idle quiet]
    rfl
  · intro other
    rw [ask_breaker] at other
    rw [ask_trials,if_neg other]
    exact h.idle quiet

theorem Sound.record (h : Sound w) (k : Nat) {b : Breaker}
    (kept : b.state = .halfOpen → w.breaker.state = .halfOpen) : Sound (w.record k b) := by
  constructor
  · intro half
    obtain ⟨j,eq⟩ := h.trying (kept half)
    exact ⟨j,(if_pos half).trans eq⟩
  · intro other
    exact if_neg other

theorem step_sound (h : Sound w) (hs : Guarded (Step cfg) Meets w act w') : Sound w' := by
  obtain ⟨meets,hs⟩ := hs
  cases hs with
  | ask k now hk => exact h.ask k now meets
  | succeed k now hk => exact h.record k nofun
  | fail k now hk =>
    refine h.record k fun half => ?_
    rcases recordFailure_state w.breaker cfg now with opened | ⟨same,-⟩
    · rw [opened] at half
      cases half
    · exact same.symm.trans half
  | abandon k hk => exact ⟨h.trying,h.idle⟩

theorem Sound.law_iff (h : Sound w) (hs : Step cfg w act w') : TrialLaw w act w' ↔ Meets w act := by
  have fine (meets : Meets w act) : w'.trials.length ≤ 1 := (step_sound h ⟨meets,hs⟩).single
  cases hs with
  | ask k now hk =>
    constructor
    · intro law half
      have same : (w.breaker.isOpen now).2 = w.breaker := by simp [Breaker.isOpen,half]
      obtain ⟨j,eq⟩ := h.trying half
      have single := law.single
      rw [ask_trials,same,if_pos half,eq] at single
      simp at single
    · intro quiet
      refine ⟨fine quiet,fun shut closed => ?_⟩
      rw [ask_breaker] at closed
      obtain ⟨same,-⟩ := (isOpen_state w.breaker now).2 (by rw [closed]; simp)
      rw [same] at closed
      exact absurd closed shut
  | succeed k now hk =>
    constructor
    · intro law
      by_cases closed : w.breaker.state = .closed
      · exact .inl closed
      · obtain ⟨j,t,same,mem⟩ := law.closes closed rfl
        cases same
        exact .inr mem
    · intro meets
      exact ⟨fine meets,fun shut _ => ⟨k,now,rfl,meets.resolve_left shut⟩⟩
  | fail k now hk =>
    refine iff_of_true ⟨fine trivial,fun shut closed => ?_⟩ trivial
    rcases recordFailure_state w.breaker cfg now with opened | ⟨same,-⟩
    · cases opened.symm.trans closed
    · exact absurd (same.symm.trans closed) shut
  | abandon k hk =>
    exact iff_of_true ⟨fine trivial,fun shut closed => absurd closed shut⟩ trivial

end

/-- In every run of concurrent calls in which nobody asks during a trial and no other call succeeds
until the circuit is closed, the next step keeps the law just where it does the same. -/
theorem trial_law_iff {cfg : Config} {acts : List Act} {w : World}
    (run : Run (Guarded (Step cfg) Meets) .fresh acts w) :
    w.trials.length ≤ 1 ∧ ∀ act w', Step cfg w act w' → (TrialLaw w act w' ↔ Meets w act) := by
  have sound : Sound w := run.invariant (fun _ _ _ h hs => step_sound h hs) fresh_sound
  exact ⟨sound.single,fun act w' hs => sound.law_iff hs⟩

theorem TrialLaw.untried {w w' : World} {act : Act} (law : TrialLaw w act w') (none : w.trials = [])
    (shut : w.breaker.state ≠ .closed) : w'.breaker.state ≠ .closed := by
  intro closed
  obtain ⟨k,now,-,mem⟩ := law.closes shut closed
  rw [none] at mem
  cases mem

def strict : Config := ⟨1,60,90⟩

theorem trial_law_recovery : ∃ w w', Run (Guarded (Step strict) Meets) .fresh
    [.ask 0 0,.fail 0 1,.ask 1 91] w ∧ w.trials = [1] ∧ Step strict w (.succeed 1 92) w' ∧
      w'.breaker.state = .closed ∧ TrialLaw w (.succeed 1 92) w' := by
  have asked : Run (Guarded (Step strict) Meets) .fresh _ _ :=
    (Run.nil _).also (.ask 0 0 rfl) (by decide)
  have failed := asked.also (.fail 0 1 rfl) (by decide)
  have trying := failed.also (.ask 1 91 (by decide +kernel)) (by decide +kernel)
  refine ⟨_,_,trying,by decide +kernel,.succeed 1 92 (by decide +kernel),rfl,?_⟩
  exact ((trial_law_iff trying).2 _ _ (.succeed 1 92 (by decide +kernel))).mpr (by decide +kernel)

/-- A call made before the circuit opened succeeds and closes it at once; and of two callers that
ask an expired circuit both are let through as its trial. -/
theorem late_success_closes :
    (∃ w w', Run (Step strict) .fresh [.ask 0 0,.ask 1 0,.fail 0 1] w ∧ w.breaker.state = .opened ∧
      Step strict w (.succeed 1 2) w' ∧ w'.breaker.state = .closed ∧ w.trials = [] ∧
      ¬TrialLaw w (.succeed 1 2) w') ∧
    ∃ w w', Run (Step strict) .fresh [.ask 0 0,.fail 0 1,.ask 1 91] w ∧
      Step strict w (.ask 2 91) w' ∧ w'.trials = [1,2] ∧ ¬TrialLaw w (.ask 2 91) w' := by
  have asked : Run (Step strict) .fresh _ _ := (Run.nil _).snoc (.ask 0 0 rfl)
  constructor
  · have both := asked.snoc (.ask 1 0 (by decide))
    have failed := both.snoc (.fail 0 1 (by decide))
    refine ⟨_,_,failed,by decide +kernel,.succeed 1 2 (by decide +kernel),rfl,by decide +kernel,?_⟩
    exact fun law => law.untried (by decide +kernel) (by decide +kernel) rfl
  · have failed := asked.snoc (.fail 0 1 rfl)
    have trying := failed.snoc (.ask 1 91 (by decide))
    refine ⟨_,_,trying,.ask 2 91 (by decide +kernel),by decide +kernel,fun law => ?_⟩
    exact absurd law.single (by decide +kernel)

end CircuitBreaker.BreakerTrial
