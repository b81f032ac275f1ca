import CircuitBreaker.StepRuns
import Mathlib.Logic.Function.Basic

/-! The lockout of an account (services/user_service.py, `login` of auth_service.py). An attempt counts
in the row it has loaded before it checks the password, and writes the columns it has changed. -/

namespace CircuitBreaker.LoginLockout
open StepRuns

structure User where
  loginAttempts : Nat := 0
  lockedUntil : Option Int := none

def User.locked (u : User) (now : Int) : Bool := u.lockedUntil.any fun x => now < x

/-- `login_lockout_attempts` and `login_lockout_minutes`. -/
structure Config where
  threshold : Nat
  duration : Int

/-- What a flush makes of a column: an attribute with the value that was loaded is not written. -/
def flush {α : Type} [DecidableEq α] (loaded value stored : α) : α :=
  if value = loaded then stored else value

/-- Where an attempt to log in or an unlock is: the password is being checked, or the transaction that
counts a failure at a time or resets the row is to be committed, or the attempt is refused. -/
inductive Phase where
  | checking
  | counting (at_ : Int)
  | resetting
  | refused

/-- A call, with the row as it has it. `began`, whether the account was locked when it loaded the row,
is kept for the statements. -/
structure Call where
  login : Bool
  right : Bool
  seen : User
  phase : Phase
  began : Bool

structure Returned where
  began : Bool
  success : Bool
  wrote : Bool

variable {κ : Type} [DecidableEq κ]

/-- `failures` and `latest`, the wrong passwords that were refused and counted since the last success
or unlock and the time of the last of them, and `returned` are kept for the statements. -/
structure State (κ : Type) where
  user : User := {}
  now : Int := 0
  calls : κ → Option Call := fun _ => none
  failures : Nat := 0
  latest : Int := 0
  returned : List Returned := []

inductive Act (κ : Type) where
  | login (i : κ) (right : Bool)
  | unlock (i : κ)
  | migrate (i : κ)
  | judge (i : κ)
  | commit (i : κ)
  | answer (i : κ)
  | pass (d : Nat)

def State.put (s : State κ) (i : κ) (call : Call) : State κ :=
  { s with calls := Function.update s.calls i (some call) }

def State.leave (s : State κ) (i : κ) : State κ :=
  { s with calls := Function.update s.calls i none }

def Call.judged (call : Call) (now : Int) : Phase :=
  if call.seen.locked now then .refused
  else if call.right then .resetting
  else .counting now

/-- `record_failed_login`, as it is flushed. -/
def recordFailedLogin (cfg : Config) (seen stored : User) (at_ : Int) : User where
  loginAttempts := flush seen.loginAttempts (seen.loginAttempts+1) stored.loginAttempts
  lockedUntil :=
    if cfg.threshold ≤ seen.loginAttempts+1 then
      flush seen.lockedUntil (some (at_+cfg.duration)) stored.lockedUntil
    else stored.lockedUntil

/-- `reset_login_attempts`, and what `unlock_user` does, as it is flushed. -/
def resetLoginAttempts (seen stored : User) : User where
  loginAttempts := flush seen.loginAttempts 0 stored.loginAttempts
  lockedUntil := flush seen.lockedUntil none stored.lockedUntil

inductive Step (cfg : Config) : State κ → Act κ → State κ → Prop where
  | loaded {s : State κ} {i : κ} {right : Bool} (idle : s.calls i = none) :
      Step cfg s (.login i right) (s.put i ⟨true,right,s.user,.checking,s.user.locked s.now⟩)
  | loadedUnlock {s : State κ} {i : κ} (idle : s.calls i = none) :
      Step cfg s (.unlock i) (s.put i ⟨false,true,s.user,.resetting,false⟩)
  -- a legacy hash that matches is stored anew, and the row is loaded again
  | migrated {s : State κ} {i : κ} {call : Call} (here : s.calls i = some call)
      (phase : call.phase = .checking) (right : call.right = true) :
      Step cfg s (.migrate i) (s.put i { call with seen := s.user })
  | judged {s : State κ} {i : κ} {call : Call} (here : s.calls i = some call)
      (phase : call.phase = .checking) :
      Step cfg s (.judge i) (s.put i { call with phase := call.judged s.now })
  | counted {s : State κ} {i : κ} {call : Call} {at_ : Int} (here : s.calls i = some call)
      (phase : call.phase = .counting at_) :
      Step cfg s (.commit i)
        { s.leave i with
          user := recordFailedLogin cfg call.seen s.user at_
          failures := s.failures+1
          latest := at_
          returned := s.returned ++ [⟨call.began,false,true⟩] }
  | reset {s : State κ} {i : κ} {call : Call} (here : s.calls i = some call)
      (phase : call.phase = .resetting) :
      Step cfg s (.commit i)
        { s.leave i with
          user := resetLoginAttempts call.seen s.user
          failures := 0
          returned := s.returned ++ [⟨call.began,call.login,true⟩] }
  | refused {s : State κ} {i : κ} {call : Call} (here : s.calls i = some call)
      (phase : call.phase = .refused) :
      Step cfg s (.answer i)
        { s.leave i with returned := s.returned ++ [⟨call.began,false,false⟩] }
  | passed {s : State κ} {d : Nat} : Step cfg s (.pass d) { s with now := s.now+d }

/-- Calls take turns, and no lock comes to its end while an attempt that began under it checks its
password. -/
def Orderly (s : State κ) : Act κ → Prop
  | .login _ _ => ∀ j, s.calls j = none
  | .unlock _ => ∀ j, s.calls j = none
  | .pass d => ∀ j call, s.calls j = some call → call.phase = .checking → call.began = true →
      call.seen.locked (s.now+d) = true
  | _ => True

structure Sound (cfg : Config) (s : State κ) : Prop where
  attempts : s.user.loginAttempts = s.failures
  locked : s.user.lockedUntil =
    if cfg.threshold ≤ s.failures then some (s.latest+cfg.duration) else none
  alone : ∀ i j call other, s.calls i = some call → s.calls j = some other → i = j
  call : ∀ i call, s.calls i = some call → call.seen = s.user ∧ (call.began = true →
    call.phase = .refused ∨ call.phase = .checking ∧ call.seen.locked s.now = true)
  returned : ∀ r ∈ s.returned, r.began = true → r.success = false ∧ r.wrote = false

theorem flush_same {α : Type} [DecidableEq α] (value stored : α) : flush stored value stored = value := by
  unfold flush
  split
  case isTrue same => exact same.symm
  case isFalse => rfl

variable {cfg : Config}

theorem Sound.put {s : State κ} (h : Sound cfg s) {i : κ} {call : Call}
    (sole : ∀ j other, s.calls j = some other → j = i) (seen : call.seen = s.user)
    (still : call.began = true →
      call.phase = .refused ∨ call.phase = .checking ∧ call.seen.locked s.now = true) :
    Sound cfg (s.put i call) := by
  have only : ∀ j other, Function.update s.calls i (some call) j = some other →
      j = i ∧ other = call := by
    intro j other hj
    by_cases ji : j = i
    · subst ji
      exact ⟨rfl,by simpa using hj.symm⟩
    · rw [Function.update_of_ne ji] at hj
      exact absurd (sole j other hj) ji
  refine ⟨h.attempts,h.locked,fun j k a b hj hk => ?_,fun j other hj => ?_,h.returned⟩
  · rw [(only j a hj).1,(only k b hk).1]
  · obtain ⟨-,rfl⟩ := only j other hj
    exact ⟨seen,still⟩

theorem Sound.left {s : State κ} (h : Sound cfg s) {i : κ} {call : Call} {user : User} {failures : Nat}
    {latest : Int} {r : Returned} (here : s.calls i = some call)
    (attempts : user.loginAttempts = failures)
    (locked : user.lockedUntil =
      if cfg.threshold ≤ failures then some (latest+cfg.duration) else none)
    (fair : r.began = true → r.success = false ∧ r.wrote = false) :
    Sound cfg
      { s.leave i with
        user := user
        failures := failures
        latest := latest
        returned := s.returned ++ [r] } := by
  have none : ∀ j other, Function.update s.calls i none j ≠ some other := by
    intro j other hj
    by_cases ji : j = i
    · subst ji
      simp at hj
    · rw [Function.update_of_ne ji] at hj
      exact ji (h.alone j i other call hj here)
  refine ⟨attempts,locked,fun j _ a _ hj => absurd hj (none j a),fun j a hj => absurd hj (none j a),
    fun q hq => ?_⟩
  obtain hq | hq := List.mem_append.1 hq
  · exact h.returned q hq
  · obtain rfl := List.mem_singleton.1 hq
    exact fair

theorem Sound.step (positive : 1 ≤ cfg.threshold) {s t : State κ} {a : Act κ} (h : Sound cfg s)
    (step : Guarded (Step cfg) Orderly s a t) : Sound cfg t := by
  obtain ⟨orderly,step⟩ := step
  cases step with
  | loaded idle =>
    exact h.put (fun j _ hj => nomatch hj.symm.trans (orderly j)) rfl fun began => .inr ⟨rfl,began⟩
  | loadedUnlock idle =>
    exact h.put (fun j _ hj => nomatch hj.symm.trans (orderly j)) rfl nofun
  | migrated here phase right =>
    obtain ⟨seen,still⟩ := h.call _ _ here
    exact h.put (fun j other hj => h.alone j _ other _ hj here) rfl fun began => seen ▸ still began
  | @judged i call here phase =>
    obtain ⟨seen,still⟩ := h.call _ _ here
    refine h.put (fun j other hj => h.alone j _ other _ hj here) seen fun began => .inl ?_
    obtain refused | ⟨-,locked⟩ := still began
    · exact nomatch phase.symm.trans refused
    · exact if_pos locked
  | @counted i call at_ here phase =>
    obtain ⟨seen,still⟩ := h.call _ _ here
    have fair : call.began = true → False := by
      intro began
      obtain refused | ⟨checking,-⟩ := still began
      · exact nomatch phase.symm.trans refused
      · exact nomatch phase.symm.trans checking
    refine h.left here ?_ ?_ fun began => absurd began fair
    · rw [recordFailedLogin,seen,flush_same,h.attempts]
    · rw [recordFailedLogin,seen,flush_same,h.attempts]
      by_cases full : cfg.threshold ≤ s.failures+1
      · rw [if_pos full,if_pos full]
        exact flush_same _ _
      · rw [if_neg full,if_neg full,h.locked,if_neg (by omega)]
  | @reset i call here phase =>
    obtain ⟨seen,still⟩ := h.call _ _ here
    have fair : call.began = true → False := by
      intro began
      obtain refused | ⟨checking,-⟩ := still began
      · exact nomatch phase.symm.trans refused
      · exact nomatch phase.symm.trans checking
    refine h.left here ?_ ?_ fun began => absurd began fair
    · rw [resetLoginAttempts,seen,flush_same]
    · rw [resetLoginAttempts,seen,flush_same,if_neg (by omega)]
      exact flush_same _ _
  | refused here => exact h.left here h.attempts h.locked fun _ => ⟨rfl,rfl⟩
  | @passed d =>
    refine ⟨h.attempts,h.locked,h.alone,fun i call here => ⟨(h.call i call here).1,fun began => ?_⟩,
      h.returned⟩
    obtain refused | ⟨checking,-⟩ := (h.call i call here).2 began
    · exact .inl refused
    · exact .inr ⟨checking,orderly i call here checking began⟩

/-- Where calls take turns and no lock ends while an attempt that began under it is checked: once
`threshold` failures have been counted since the last success or unlock the account is locked until
the lockout after the last of them, before that it is not locked and all its failures are counted;
and no attempt that began while it was locked succeeds or writes. -/
theorem lockout_counts {as : List (Act κ)} {s : State κ} (positive : 1 ≤ cfg.threshold)
    (run : Run (Guarded (Step cfg) Orderly) {} as s) :
    (cfg.threshold ≤ s.failures → s.user.lockedUntil = some (s.latest+cfg.duration)) ∧
    (s.failures < cfg.threshold → s.user = ⟨s.failures,none⟩) ∧
    ∀ r ∈ s.returned, r.began = true → r.success = false ∧ r.wrote = false := by
  have start : Sound cfg ({} : State κ) :=
    ⟨rfl,(if_neg (by simp; omega)).symm,fun _ _ _ _ h => (nomatch h),fun _ _ h => (nomatch h),
      fun _ h => (nomatch h)⟩
  have sound : Sound cfg s := run.invariant (fun _ _ _ h step => h.step positive step) start
  refine ⟨fun full => sound.locked.trans (if_pos full),fun room => ?_,sound.returned⟩
  have unlocked := sound.locked.trans (if_neg (Nat.not_le.2 room))
  cases hu : s.user with
  | mk attempts lockedUntil =>
    have counted := sound.attempts
    rw [hu] at counted unlocked
    obtain rfl : attempts = s.failures := counted
    obtain rfl : lockedUntil = none := unlocked
    rfl

def twoFailures : Config := ⟨2,60000000⟩

theorem lockout_counts_two : ∃ as s, Run (Guarded (Step twoFailures) Orderly) ({} : State Unit) as s ∧
    s.failures = 2 ∧ s.user.lockedUntil = some 60000000 := by
  have loaded : Run (Guarded (Step twoFailures) Orderly) ({} : State Unit) _ _ :=
    (Run.nil _).also (@Step.loaded _ _ _ _ () false rfl) fun _ => rfl
  have judged := loaded.also
    (@Step.judged _ _ _ _ () ⟨true,false,⟨0,none⟩,.checking,false⟩ rfl rfl) trivial
  have once := judged.also
    (@Step.counted _ _ _ _ () ⟨true,false,⟨0,none⟩,.counting 0,false⟩ 0 rfl rfl) trivial
  have again := once.also (@Step.loaded _ _ _ _ () false rfl) fun _ => rfl
  have judged := again.also
    (@Step.judged _ _ _ _ () ⟨true,false,⟨1,none⟩,.checking,false⟩ rfl rfl) trivial
  have run := judged.also
    (@Step.counted _ _ _ _ () ⟨true,false,⟨1,none⟩,.counting 0,false⟩ 0 rfl rfl) trivial
  exact ⟨_,_,run,rfl,(lockout_counts (by decide) run).1 (by decide)⟩

/-- Of two wrong passwords at once one is counted. -/
theorem parallel_failures_lost : ¬∀ (as : List (Act Bool)) (s : State Bool),
    Run (Step twoFailures) {} as s → twoFailures.threshold ≤ s.failures →
      s.user.lockedUntil = some (s.latest+twoFailures.duration) := by
  intro all
  have one : Run (Step twoFailures) ({} : State Bool) _ _ :=
    (Run.nil _).snoc (@Step.loaded _ _ _ _ true false rfl)
  have two := one.snoc (@Step.loaded _ _ _ _ false false rfl)
  have judged := two.snoc (@Step.judged _ _ _ _ true ⟨true,false,⟨0,none⟩,.checking,false⟩ rfl rfl)
  have both := judged.snoc (@Step.judged _ _ _ _ false ⟨true,false,⟨0,none⟩,.checking,false⟩ rfl rfl)
  have once := both.snoc
    (@Step.counted _ _ _ _ true ⟨true,false,⟨0,none⟩,.counting 0,false⟩ 0 rfl rfl)
  have run := once.snoc
    (@Step.counted _ _ _ _ false ⟨true,false,⟨0,none⟩,.counting 0,false⟩ 0 rfl rfl)
  exact nomatch all _ _ run (by decide)

end CircuitBreaker.LoginLockout
