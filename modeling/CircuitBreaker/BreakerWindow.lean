import Mathlib.Algebra.Order.Field.Rat
import Mathlib.Tactic.Linarith
import Mathlib.Tactic.NormNum
import CircuitBreaker.StepRuns

/-! The circuit breaker around calls to external services (core/circuit_breaker.py).
It keeps a count of failures and the time of the first one it counts; the law
its documentation states is about any burst of failures inside the window. -/

namespace CircuitBreaker.BreakerWindow
open StepRuns List

structure Config where
  failureThreshold : Int
  failureWindowSec : Int
  openDurationSec : Int

inductive State where
  | closed | opened | halfOpen
  deriving DecidableEq

structure Breaker where
  failures : Nat := 0
  firstFailureTime : ℚ := 0
  state : State := .closed
  openUntil : ℚ := 0

/-- The answer, and the breaker after it: asking an expired circuit starts the trial. -/
def Breaker.isOpen (b : Breaker) (now : ℚ) : Bool × Breaker :=
  match b.state with
  | .closed => (false,b)
  | .opened => if b.openUntil ≤ now then (false,{b with state := .halfOpen}) else (true,b)
  | .halfOpen => (false,b)

def Breaker.recordSuccess (b : Breaker) : Breaker := {b with failures := 0, state := .closed}

/-- The breaker tripped at `now`. -/
def Breaker.trip (b : Breaker) (cfg : Config) (now : ℚ) : Breaker :=
  {b with state := .opened, openUntil := now+cfg.openDurationSec}

def Breaker.count (b : Breaker) (now : ℚ) : Breaker :=
  { b with
    firstFailureTime := if b.failures = 0 then now else b.firstFailureTime
    failures := b.failures+1 }

def Breaker.recordFailure (b : Breaker) (cfg : Config) (now : ℚ) : Breaker :=
  if b.state = .halfOpen then b.trip cfg now
  else
    let b := b.count now
    if cfg.failureThreshold ≤ b.failures then
      if now-b.firstFailureTime ≤ cfg.failureWindowSec then b.trip cfg now
      else {b with failures := 1, firstFailureTime := now}
    else b

inductive Call where
  | recordFailure (now : ℚ)
  | recordSuccess (now : ℚ)
  | isOpen (now : ℚ)

def Call.time : Call → ℚ
  | .recordFailure now => now
  | .recordSuccess now => now
  | .isOpen now => now

/-- `since` lists the failures recorded since the last success, oldest first; it
is kept for the statement and read by nothing. -/
structure World where
  breaker : Breaker := {}
  clock : ℚ
  since : List ℚ := []

def World.take (w : World) (cfg : Config) : Call → World
  | .recordFailure now => ⟨w.breaker.recordFailure cfg now,now,w.since++[now]⟩
  | .recordSuccess now => ⟨w.breaker.recordSuccess,now,[]⟩
  | .isOpen now => ⟨(w.breaker.isOpen now).2,now,w.since⟩

def Step (cfg : Config) (w : World) (call : Call) (w' : World) : Prop :=
  w.clock ≤ call.time ∧ w' = w.take cfg call

/-- A failure at `now` is the last of `failureThreshold` failures inside some span
of `failureWindowSec`, the earlier ones among those since the last success. -/
def Burst (cfg : Config) (since : List ℚ) (now : ℚ) : Prop :=
  ∃ start : ℚ, start ≤ now ∧ now ≤ start+cfg.failureWindowSec ∧
    cfg.failureThreshold ≤
      ((since.filter fun t => start ≤ t ∧ t ≤ start+cfg.failureWindowSec).length : Int)+1

/-- What is said of a failure recorded at `now` between `w` and `w'`, with any
`step` taking the calls that follow. -/
structure WindowLaw (step : World → Call → World → Prop) (cfg : Config) (w w' : World) (now : ℚ) :
    Prop where
  opens_iff : (w'.breaker.isOpen now).1 = true ↔
    Burst cfg w.since now ∨ w.breaker.state = .halfOpen
  stays : (w'.breaker.isOpen now).1 = true → ∀ (later : List Call) (v : World) (u : ℚ),
    Run step w' later v → v.clock ≤ u → u < now+cfg.openDurationSec →
    (v.breaker.isOpen u).1 = true

/-- The failure reaches the threshold when the first counted one is out of the window. -/
def Breaker.Exceeds (b : Breaker) (cfg : Config) (now : ℚ) : Prop :=
  cfg.failureThreshold ≤ ((b.failures : Int)+1) ∧
    (cfg.failureWindowSec : ℚ) < now-(b.count now).firstFailureTime

def Meets (cfg : Config) (w : World) : Call → Prop
  | .recordFailure now =>
      -- an opened circuit is open for some time
      0 < cfg.openDurationSec ∧
      -- a count that restarts forgets no failure of the window, and does not do for the burst itself
      (w.breaker.state = .closed → w.breaker.Exceeds cfg now →
        (∀ t ∈ w.since, t+cfg.failureWindowSec < now) ∧
          (1 < cfg.failureThreshold ∨ cfg.failureWindowSec < 0)) ∧
      -- a failure that finds the circuit open belongs to the burst that opened it
      (w.breaker.state = .opened →
        now-(w.breaker.count now).firstFailureTime ≤ cfg.failureWindowSec)
  -- no call that was under way succeeds while the circuit is open
  | .recordSuccess now => (w.breaker.isOpen now).1 = false
  | .isOpen _ => True

def World.dated (w : World) : List ℚ := w.since.filter (w.breaker.firstFailureTime ≤ ·)

/-- Every counted failure is among those since the last success; while the circuit
is closed the others are too old to be in one window with the count, and once it
has opened the count has reached the threshold. -/
structure Sound (cfg : Config) (w : World) : Prop where
  past : ∀ t ∈ w.since, t ≤ w.clock
  first_le : 0 < w.breaker.failures → w.breaker.firstFailureTime ≤ w.clock
  counted : w.breaker.failures ≤ w.dated.length
  none_yet : w.breaker.state = .closed → w.breaker.failures = 0 → w.since = []
  complete : w.breaker.state = .closed → 0 ≤ cfg.failureWindowSec →
    w.dated.length ≤ w.breaker.failures
  forgotten : w.breaker.state = .closed → ∀ t ∈ w.since, w.breaker.firstFailureTime ≤ t ∨
    t+cfg.failureWindowSec < w.breaker.firstFailureTime
  reached : w.breaker.state ≠ .closed → cfg.failureThreshold ≤ w.breaker.failures

theorem isOpen_iff (b : Breaker) (now : ℚ) :
    (b.isOpen now).1 = true ↔ b.state = .opened ∧ now < b.openUntil := by
  unfold Breaker.isOpen
  cases h : b.state with
  | closed | halfOpen => simp
  | opened =>
    by_cases hle : b.openUntil ≤ now
    · simp [hle]
    · simp [hle,not_le.mp hle]

variable {cfg : Config}

theorem trip_isOpen (b : Breaker) (now : ℚ) (h : 0 < cfg.openDurationSec) :
    ((b.trip cfg now).isOpen now).1 = true := by
  have : (0 : ℚ) < cfg.openDurationSec := by exact_mod_cast h
  rw [isOpen_iff]
  exact ⟨rfl,by simp only [Breaker.trip]; linarith⟩

variable {w : World} {now : ℚ}

theorem Sound.burst (h : Sound cfg w)
    (later : w.clock ≤ now) (reaches : cfg.failureThreshold ≤ (w.breaker.failures : Int)+1)
    (inside : now-(w.breaker.count now).firstFailureTime ≤ cfg.failureWindowSec) :
    Burst cfg w.since now := by
  by_cases hz : w.breaker.failures = 0
  · simp only [Breaker.count,hz,if_true] at inside
    refine ⟨now,le_refl _,by linarith,?_⟩
    rw [hz] at reaches
    have := Int.natCast_nonneg
      (w.since.filter fun t => now ≤ t ∧ t ≤ now+cfg.failureWindowSec).length
    push_cast at reaches
    linarith
  · simp only [Breaker.count,hz,if_false] at inside
    have first := h.first_le (pos_of_ne_zero hz)
    refine ⟨w.breaker.firstFailureTime,by linarith,by linarith,?_⟩
    have same : w.dated = w.since.filter fun t => w.breaker.firstFailureTime ≤ t ∧
        t ≤ w.breaker.firstFailureTime+cfg.failureWindowSec := by
      refine filter_congr fun t ht => ?_
      have : t ≤ w.breaker.firstFailureTime+cfg.failureWindowSec := by linarith [h.past t ht]
      simp [this]
    have := h.counted
    rw [same] at this
    have cast : (w.breaker.failures : Int) ≤ _ := Int.ofNat_le.mpr this
    linarith

theorem length_filter_le {p q : ℚ → Bool} {ts : List ℚ} (h : ∀ t ∈ ts, p t = true → q t = true) :
    (ts.filter p).length ≤ (ts.filter q).length := by
  simpa only [countP_eq_length_filter] using countP_mono_left h

theorem Burst.window {since : List ℚ} (h : Burst cfg since now) :
    0 ≤ cfg.failureWindowSec := by
  obtain ⟨start,hstart,hend,-⟩ := h
  have : (0 : ℚ) ≤ cfg.failureWindowSec := by linarith
  exact_mod_cast this

theorem Sound.no_burst (h : Sound cfg w)
    (closed : w.breaker.state = .closed) (later : w.clock ≤ now)
    (below : (w.breaker.failures : Int)+1 < cfg.failureThreshold) : ¬Burst cfg w.since now := by
  intro burst
  have wide := h.complete closed burst.window
  obtain ⟨start,-,hend,hcount⟩ := burst
  have within : (w.since.filter fun t => start ≤ t ∧ t ≤ start+cfg.failureWindowSec).length ≤
      w.dated.length := by
    refine length_filter_le fun t ht hspan => ?_
    simp only [decide_eq_true_eq] at hspan ⊢
    -- a failure forgotten by the count is out of every window that reaches `now`
    refine (h.forgotten closed t ht).resolve_right fun old => ?_
    have positive : 0 < w.breaker.failures := by
      refine pos_of_ne_zero fun hz => ?_
      rw [h.none_yet closed hz] at ht
      exact absurd ht (not_mem_nil)
    linarith [h.first_le positive,hspan.1]
  omega

theorem not_burst_alone {since : List ℚ}
    (alone : ∀ t ∈ since, t+cfg.failureWindowSec < now)
    (more : 1 < cfg.failureThreshold ∨ cfg.failureWindowSec < 0) : ¬Burst cfg since now := by
  intro burst
  have wide := burst.window
  obtain ⟨start,-,hend,hcount⟩ := burst
  have empty : (since.filter fun t => start ≤ t ∧ t ≤ start+cfg.failureWindowSec) = [] := by
    refine filter_eq_nil_iff.mpr fun t ht => ?_
    simp only [decide_eq_true_eq]
    intro hspan
    linarith [alone t ht,hspan.1]
  rw [empty] at hcount
  simp only [length_nil] at hcount
  omega

inductive Failed (cfg : Config) (w : World) (now : ℚ) : Breaker → Prop where
  | retried (h : w.breaker.state = .halfOpen) : Failed cfg w now (w.breaker.trip cfg now)
  | tripped (h : w.breaker.state ≠ .halfOpen)
      (reaches : cfg.failureThreshold ≤ (w.breaker.failures : Int)+1)
      (inside : now-(w.breaker.count now).firstFailureTime ≤ cfg.failureWindowSec) :
      Failed cfg w now ((w.breaker.count now).trip cfg now)
  | restarted (h : w.breaker.state ≠ .halfOpen) (exceeds : w.breaker.Exceeds cfg now) :
      Failed cfg w now {w.breaker with failures := 1, firstFailureTime := now}
  | counted (h : w.breaker.state ≠ .halfOpen)
      (below : (w.breaker.failures : Int)+1 < cfg.failureThreshold) :
      Failed cfg w now (w.breaker.count now)

theorem failed (cfg : Config) (w : World) (now : ℚ) :
    Failed cfg w now (w.breaker.recordFailure cfg now) := by
  unfold Breaker.recordFailure
  split
  · rename_i half
    exact .retried half
  · rename_i half
    dsimp only
    split
    · rename_i reaches
      have reaches : cfg.failureThreshold ≤ (w.breaker.failures : Int)+1 := by
        simpa [Breaker.count] using reaches
      split
      · rename_i inside
        exact .tripped half reaches inside
      · rename_i outside
        exact .restarted half ⟨reaches,not_le.mp outside⟩
    · rename_i below
      refine .counted half ?_
      simpa [Breaker.count] using below

theorem dated_push {first : ℚ} (since : List ℚ) (h : first ≤ now) :
    ((since++[now]).filter (first ≤ ·)).length = (since.filter (first ≤ ·)).length+1 := by
  simp [filter_append,h]

theorem past_push (h : ∀ t ∈ w.since, t ≤ w.clock) (later : w.clock ≤ now) :
    ∀ t ∈ w.since++[now], t ≤ now := by
  intro t ht
  rcases mem_append.mp ht with ht | ht
  · exact le_trans (h t ht) later
  · exact le_of_eq (mem_singleton.mp ht)

theorem Sound.count_first_le (h : Sound cfg w)
    (later : w.clock ≤ now) : (w.breaker.count now).firstFailureTime ≤ now := by
  simp only [Breaker.count]
  split
  · exact le_refl _
  · rename_i hz
    exact le_trans (h.first_le (pos_of_ne_zero hz)) later

theorem Sound.counted_push (h : Sound cfg w)
    (later : w.clock ≤ now) :
    w.breaker.failures+1 ≤
      ((w.since++[now]).filter ((w.breaker.count now).firstFailureTime ≤ ·)).length := by
  rw [dated_push _ (h.count_first_le later)]
  simp only [Breaker.count]
  split
  · rename_i hz
    omega
  · exact Nat.add_le_add_right h.counted 1

theorem Sound.fail {cfg : Config} {w : World} {now : ℚ} (h : Sound cfg w)
    (later : w.clock ≤ now) (meets : Meets cfg w (.recordFailure now)) :
    Sound cfg ⟨w.breaker.recordFailure cfg now,now,w.since++[now]⟩ := by
  obtain ⟨-,closed,opened⟩ := meets
  have past := past_push h.past later
  have after := failed cfg w now
  generalize w.breaker.recordFailure cfg now = b at after ⊢
  cases after with
  | retried half =>
    have dated : w.breaker.failures ≤
        ((w.since++[now]).filter (w.breaker.firstFailureTime ≤ ·)).length := by
      rw [filter_append,length_append]
      exact le_trans h.counted (Nat.le_add_right _ _)
    exact ⟨past,fun hp => le_trans (h.first_le hp) later,dated,nofun,nofun,nofun,
      fun _ => h.reached (by rw [half]; nofun)⟩
  | tripped half reaches inside =>
    exact ⟨past,fun _ => h.count_first_le later,h.counted_push later,nofun,nofun,nofun,
      fun _ => by simpa [Breaker.trip,Breaker.count] using reaches⟩
  | restarted half exceeds =>
    cases hs : w.breaker.state with
    | halfOpen => exact absurd hs half
    | opened => exact absurd (opened hs) (not_le.mpr exceeds.2)
    | closed =>
      obtain ⟨alone,-⟩ := closed hs exceeds
      refine ⟨past,fun _ => le_refl _,?_,nofun,fun _ wide => ?_,fun _ t ht => ?_,
        fun other => absurd hs other⟩
      · simp only [World.dated]
        rw [dated_push _ (le_refl _)]
        exact Nat.le_add_left 1 _
      · have wide : (0 : ℚ) ≤ cfg.failureWindowSec := by exact_mod_cast wide
        have none_left : w.since.filter (now ≤ ·) = [] := by
          refine filter_eq_nil_iff.mpr fun t ht => ?_
          simp only [decide_eq_true_eq,not_le]
          linarith [alone t ht]
        simp only [World.dated]
        rw [dated_push _ (le_refl _),none_left]
        exact le_refl _
      · rcases mem_append.mp ht with ht | ht
        · exact .inr (alone t ht)
        · exact .inl (le_of_eq (mem_singleton.mp ht).symm)
  | counted half below =>
    have hs : w.breaker.state = .closed := by
      by_contra other
      have := h.reached other
      omega
    refine ⟨past,fun _ => h.count_first_le later,h.counted_push later,nofun,fun _ wide => ?_,
      fun _ t ht => ?_,fun open_ => absurd hs open_⟩
    · simp only [World.dated]
      rw [dated_push _ (h.count_first_le later)]
      simp only [Breaker.count]
      split
      · rename_i hz
        simp [h.none_yet hs hz]
      · exact Nat.add_le_add_right (h.complete hs wide) 1
    · rcases mem_append.mp ht with ht | ht
      · have hz : w.breaker.failures ≠ 0 := by
          intro hz
          rw [h.none_yet hs hz] at ht
          exact absurd ht (not_mem_nil)
        simp only [Breaker.count,hz,if_false]
        exact h.forgotten hs t ht
      · rw [mem_singleton.mp ht]
        exact .inl (h.count_first_le later)

theorem Sound.ask (h : Sound cfg w) (later : w.clock ≤ now) :
    Sound cfg ⟨(w.breaker.isOpen now).2,now,w.since⟩ := by
  have past : ∀ t ∈ w.since, t ≤ now := fun t ht => le_trans (h.past t ht) later
  have first : 0 < w.breaker.failures → w.breaker.firstFailureTime ≤ now :=
    fun hp => le_trans (h.first_le hp) later
  have same : Sound cfg ⟨w.breaker,now,w.since⟩ :=
    ⟨past,first,h.counted,h.none_yet,h.complete,h.forgotten,h.reached⟩
  unfold Breaker.isOpen
  split
  · exact same
  · rename_i opened
    split
    · exact ⟨past,first,h.counted,nofun,nofun,nofun,fun _ => h.reached (by rw [opened]; nofun)⟩
    · exact same
  · exact same

theorem Sound.step {w' : World} {call : Call} (h : Sound cfg w)
    (step : Guarded (Step cfg) (Meets cfg) w call w') : Sound cfg w' := by
  obtain ⟨meets,later,rfl⟩ := step
  cases call with
  | recordFailure now => exact h.fail later meets
  | recordSuccess now =>
    exact ⟨nofun,fun hp => absurd hp (Nat.lt_irrefl 0),Nat.zero_le _,fun _ _ => rfl,
      fun _ _ => Nat.le_refl 0,fun _ => nofun,fun hs => absurd rfl hs⟩
  | isOpen now => exact h.ask later

theorem fresh_sound (cfg : Config) (clock : ℚ) : Sound cfg {clock := clock} :=
  ⟨nofun,fun hp => absurd hp (Nat.lt_irrefl 0),Nat.zero_le _,fun _ _ => rfl,
    fun _ _ => Nat.le_refl 0,fun _ => nofun,fun hs => absurd rfl hs⟩

theorem Sound.opens_iff (h : Sound cfg w)
    (later : w.clock ≤ now) (meets : Meets cfg w (.recordFailure now)) :
    ((w.breaker.recordFailure cfg now).isOpen now).1 = true ↔
      Burst cfg w.since now ∨ w.breaker.state = .halfOpen := by
  obtain ⟨duration,closed,opened⟩ := meets
  have after := failed cfg w now
  generalize w.breaker.recordFailure cfg now = b at after ⊢
  cases after with
  | retried half => exact iff_of_true (trip_isOpen _ _ duration) (.inr half)
  | tripped half reaches inside =>
    exact iff_of_true (trip_isOpen _ _ duration) (.inl (h.burst later reaches inside))
  | restarted half exceeds =>
    cases hs : w.breaker.state with
    | halfOpen => exact absurd hs half
    | opened => exact absurd (opened hs) (not_le.mpr exceeds.2)
    | closed =>
      obtain ⟨alone,more⟩ := closed hs exceeds
      refine iff_of_false ?_ (not_or.mpr ⟨not_burst_alone alone more,nofun⟩)
      rw [isOpen_iff]
      simp [hs]
  | counted half below =>
    have hs : w.breaker.state = .closed := by
      by_contra other
      have := h.reached other
      omega
    refine iff_of_false ?_ (not_or.mpr ⟨h.no_burst hs later below,half⟩)
    rw [isOpen_iff]
    simp [Breaker.count,hs]

/-- The circuit is open until `limit`, if the clock has not come to it. -/
def OpenTill (limit : ℚ) (w : World) : Prop :=
  w.clock < limit → w.breaker.state = .opened ∧ limit ≤ w.breaker.openUntil

theorem OpenTill.step {limit : ℚ} {w' : World} {call : Call}
    (h : OpenTill limit w) (due : limit ≤ w.clock+cfg.openDurationSec)
    (step : Guarded (Step cfg) (Meets cfg) w call w') :
    OpenTill limit w' ∧ limit ≤ w'.clock+cfg.openDurationSec := by
  obtain ⟨meets,later,rfl⟩ := step
  cases call with
      refine ⟨fun early => ?_,by simp only [Call.time] at later; simp only [World.take]; linarith⟩
  | recordFailure now =>
    obtain ⟨opened,bound⟩ := h (lt_of_le_of_lt later early)
    have after := failed cfg w now
    simp only [World.take] at early ⊢
    generalize w.breaker.recordFailure cfg now = b at after ⊢
    cases after with
    | retried half => rw [opened] at half; nomatch half
    | tripped => exact ⟨rfl,by simp only [Call.time] at later; simp only [Breaker.trip]; linarith⟩
    | restarted | counted => exact ⟨opened,bound⟩
  | recordSuccess now =>
    obtain ⟨opened,bound⟩ := h (lt_of_le_of_lt later early)
    have refused : (w.breaker.isOpen now).1 = false := meets
    rw [(isOpen_iff w.breaker now).mpr ⟨opened,lt_of_lt_of_le early bound⟩] at refused
    nomatch refused
  | isOpen now =>
    obtain ⟨opened,bound⟩ := h (lt_of_le_of_lt later early)
    have unexpired : ¬w.breaker.openUntil ≤ now := not_le.mpr (lt_of_lt_of_le early bound)
    have same : (w.breaker.isOpen now).2 = w.breaker := by
      simp only [Breaker.isOpen,opened,unexpired,if_false]
    simp only [World.take,same]
    exact ⟨opened,bound⟩

theorem Sound.open_till (h : Sound cfg w)
    (meets : Meets cfg w (.recordFailure now))
    (isOpen : ((w.breaker.recordFailure cfg now).isOpen now).1 = true) :
    OpenTill (now+cfg.openDurationSec) (w.take cfg (.recordFailure now)) := by
  intro _
  obtain ⟨opened,-⟩ := (isOpen_iff _ _).mp isOpen
  have after := failed cfg w now
  simp only [World.take] at opened ⊢
  generalize w.breaker.recordFailure cfg now = b at after opened ⊢
  cases after with
  | retried | tripped => exact ⟨rfl,le_refl _⟩
  | restarted _ exceeds => exact absurd (meets.2.2 opened) (not_le.mpr exceeds.2)
  | counted _ below =>
    have := h.reached (by rw [show w.breaker.state = .opened from opened]; nofun)
    omega

/-- In every run of calls that meet the conditions, from a new breaker: right after
a failure the circuit is open exactly when a burst ends there or a trial failed, and
it then stays open for its duration. -/
theorem breaker_window_law {cfg : Config} {clock now : ℚ} {calls : List Call} {w w' : World}
    (run : Run (Guarded (Step cfg) (Meets cfg)) {clock := clock} calls w)
    (fails : Guarded (Step cfg) (Meets cfg) w (.recordFailure now) w') :
    WindowLaw (Guarded (Step cfg) (Meets cfg)) cfg w w' now := by
  have sound : Sound cfg w := run.invariant (fun _ _ _ h step => h.step step) (fresh_sound cfg clock)
  obtain ⟨meets,later,rfl⟩ := fails
  refine ⟨sound.opens_iff later meets,fun isOpen after v u rest hv hu => ?_⟩
  have till := sound.open_till meets isOpen
  have due : now+(cfg.openDurationSec : ℚ) ≤
      (w.take cfg (.recordFailure now)).clock+cfg.openDurationSec := le_refl _
  obtain ⟨still,-⟩ := rest.invariant
    (I := fun v => OpenTill (now+cfg.openDurationSec) v ∧ now+(cfg.openDurationSec : ℚ) ≤
      v.clock+cfg.openDurationSec)
    (fun _ _ _ h step => h.1.step h.2 step) ⟨till,due⟩
  obtain ⟨opened,bound⟩ := still (lt_of_le_of_lt hv hu)
  exact (isOpen_iff _ _).mpr ⟨opened,lt_of_lt_of_le hu bound⟩

def standard : Config := ⟨3,60,90⟩

theorem Step.of (call : Call) (h : w.clock ≤ call.time) :
    Step cfg w call (w.take cfg call) := ⟨h,rfl⟩

theorem breaker_window_law_standard :
    ∃ w w' : World, (w'.breaker.isOpen 20).1 = true ∧
      WindowLaw (Guarded (Step standard) (Meets standard)) standard w w' 20 := by
  have run : Run (Guarded (Step standard) (Meets standard)) {clock := 0} [] {clock := 0} := .nil _
  have early {w : World} {now : ℚ} (hs : w.breaker.state = .closed)
      (hn : now-(w.breaker.count now).firstFailureTime ≤ (standard.failureWindowSec : ℚ)) :
      Meets standard w (.recordFailure now) :=
    ⟨by decide,fun _ exceeds => absurd hn (not_le.mpr exceeds.2),fun opened => by
      rw [hs] at opened
      nomatch opened⟩
  have one := run.also (.of (.recordFailure 0) (by decide)) (early rfl (by decide +kernel))
  have two := one.also (.of (.recordFailure 10) (by decide)) (early (by decide +kernel) (by decide +kernel))
  have law := breaker_window_law two
    ⟨early (by decide +kernel) (by decide +kernel),.of (.recordFailure 20) (by decide)⟩
  exact ⟨_,_,by decide +kernel,law⟩

/-- Failures at 0, 50, 70 and 100 seconds: the third restarts the count, and the
last three, all inside 50 seconds, leave the circuit closed. -/
theorem straddling_burst_missed :
    ∃ (calls : List Call) (w w' : World), Run (Step standard) {clock := 0} calls w ∧
      Step standard w (.recordFailure 100) w' ∧
      ¬WindowLaw (Step standard) standard w w' 100 := by
  have run : Run (Step standard) {clock := 0} [] {clock := 0} := .nil _
  have one := run.snoc (.of (.recordFailure 0) (by decide))
  have two := one.snoc (.of (.recordFailure 50) (by decide))
  have three := two.snoc (.of (.recordFailure 70) (by decide))
  refine ⟨_,_,_,three,.of (.recordFailure 100) (by decide),fun law => ?_⟩
  have burst := law.opens_iff.mpr (.inl ⟨50,by decide,by decide +kernel,by decide +kernel⟩)
  exact absurd burst (by decide +kernel)

end CircuitBreaker.BreakerWindow
