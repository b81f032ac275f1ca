import Mathlib.Data.List.Basic
import Mathlib.Logic.Function.Basic
import CircuitBreaker.StepRuns


/-! Rotation of the server's identity key (core/agent_crypto.py, with `serverKeyCandidates` and
`handleKeyRotate` of internal/link/link.go): the settings row, server processes that read it and
write it back, and agents that remember one advertised successor. -/

namespace CircuitBreaker.ServerKey
open StepRuns Option

variable {κ : Type} [DecidableEq κ]

/-! The settings row. -/

/-- The columns of AppSettings the rotation uses; the successor stands with the end of its
overlap, with which it is set and cleared. -/
structure Row (κ : Type) where
  current : Option κ
  pending : Option (κ × Nat)

/-- `_settle_expired_server_key_rotation` finds something to settle. -/
def Row.expired (row : Row κ) (now : Nat) : Option κ :=
  match row.pending with
  | some (key,expiry) => if now < expiry then none else some key
  | none => none

/-- The keys `complete_ik_handshake` tries, as a load at this moment returns them. -/
def Row.accepted (row : Row κ) (now : Nat) : List κ :=
  match row.expired now with
  | some key => [key]
  | none => row.current.toList ++ (row.pending.map Prod.fst).toList

def Row.latest (row : Row κ) : Option κ := (row.pending.map Prod.fst).or row.current

/-! An agent. -/

structure Agent (κ : Type) where
  configured : κ
  successor : Option κ
  converged : Option (Nat × κ)

/-- `serverKeyCandidates` -/
def Agent.candidates (a : Agent κ) : List κ :=
  a.configured::(a.successor.filter (· ≠ a.configured)).toList

/-- `handleKeyRotate` -/
def Agent.handleKeyRotate (a : Agent κ) (key : κ) : Agent κ := {a with successor := some key}

/-! The server. -/

/-- Where a call of `load_server_key_rotation_state` is; the number is the time it was called
with. -/
inductive Call (κ : Type) where
  | idle
  | called (reference : Nat)
  | read (reference : Nat) (row : Row κ)
  | generated (reference : Nat)
  | checking (reference : Nat) (row : Row κ)
  | settled (reference : Nat)
  | loaded (reference : Nat) (row : Row κ)

structure World (κ : Type) where
  row : Row κ
  clock : Nat
  calls : Nat → Call κ
  agents : Nat → Agent κ
  /-- the `key.rotate` frames on an agent's connection -/
  inFlight : Nat → List κ
  rotations : Nat

inductive Act (κ : Type) where
  | tick (n : Nat)
  | call (p : Nat)
  | read (p : Nat)
  | generate (p : Nat) (key : κ)
  | check (p : Nat)
  | settle (p : Nat)
  | load (p : Nat)
  | start (p : Nat) (key : κ) (window : Nat)
  | handshake (p agent : Nat) (key : κ)
  | send (p agent : Nat)
  | deliver (agent : Nat)
  | leave (p : Nat)

def World.at (w : World κ) (p : Nat) (c : Call κ) : World κ :=
  {w with calls := Function.update w.calls p c}

def World.agent (w : World κ) (i : Nat) (a : Agent κ) : World κ :=
  {w with agents := Function.update w.agents i a}

def World.see (w : World κ) (a : Agent κ) : Agent κ :=
  match w.row.latest with
  | some key =>
      if key ∈ a.candidates then {a with converged := some (w.rotations,key)} else a
  | none => a

def next (w : World κ) : Act κ → Option (World κ)
  | .tick n => some {w with clock := w.clock+n}
  | .call p => some (w.at p (.called w.clock))
  | .read p =>
      match w.calls p with
      | .called reference => some (w.at p (.read reference w.row))
      | .generated reference => some (w.at p (.checking reference w.row))
      | .settled reference => some (w.at p (.loaded reference w.row))
      | _ => none
  | .generate p key =>
      match w.calls p with
      | .read reference row =>
          if row.current = none then
            some ({w with row := {w.row with current := some key}}.at p (.generated reference))
          else none
      | _ => none
  | .check p =>
      match w.calls p with
      | .read reference row =>
          if row.current = none then none else some (w.at p (.checking reference row))
      | _ => none
  | .settle p =>
      match w.calls p with
      | .checking reference row =>
          -- the attributes the session assigned are written, whatever the row holds by now
          (row.expired reference).map fun key =>
            {w with row := ⟨some key,none⟩}.at p (.settled reference)
      | _ => none
  | .load p =>
      match w.calls p with
      | .checking reference row =>
          if row.expired reference = none then some (w.at p (.loaded reference row)) else none
      | _ => none
  | .start p key window =>
      match w.calls p with
      | .loaded reference row =>
          if row.pending = none then
            if w.row.pending = none then
              some ({w with
                row := {w.row with pending := some (key,reference+window)}
                rotations := w.rotations+1}.at p (.called reference))
            else some (w.at p .idle)
          else none
      | _ => none
  | .handshake p i key =>
      match w.calls p with
      | .loaded _ row =>
          if key ∈ row.current.toList ++ (row.pending.map Prod.fst).toList ∧
              key ∈ (w.agents i).candidates then
            -- a connection that is opened takes the place of the one before
            some ({w with inFlight := Function.update w.inFlight i []}.agent i
              (w.see (w.agents i)))
          else none
      | _ => none
  | .send p i =>
      match w.calls p with
      | .loaded _ ⟨_,some (key,_)⟩ =>
          some {w with inFlight := Function.update w.inFlight i (w.inFlight i ++ [key])}
      | _ => none
  | .deliver i =>
      match w.inFlight i with
      | key::rest =>
          some ({w with inFlight := Function.update w.inFlight i rest}.agent i
            (w.see ((w.agents i).handleKeyRotate key)))
      | [] => none
  | .leave p => some (w.at p .idle)

def Step (w : World κ) (a : Act κ) (w' : World κ) : Prop := next w a = some w'

structure Initial (w : World κ) : Prop where
  pending : w.row.pending = none
  rotations : w.rotations = 0
  calls : ∀ p,w.calls p = .idle
  agents : ∀ i,(w.agents i).converged = none

/-- A write of the row finds it as the call read it, or settled already; a `key.rotate` that
reaches an agent that knows the latest key carries that key. -/
def Meets (w : World κ) : Act κ → Prop
  | .generate _ _ => w.row.current = none
  | .settle p => ∀ reference row,w.calls p = .checking reference row →
      w.row.pending = row.pending ∨
        w.row.pending = none ∧ w.row.current = row.pending.map Prod.fst
  | .deliver i => ∀ key rest,w.inFlight i = key::rest → (w.agents i).converged ≠ none →
      w.row.latest = some key
  | _ => True

/-- An agent that knew the latest key of its rotation has a key the server accepts, as long as no
later rotation's overlap has ended. -/
def Reaches (w : World κ) : Prop :=
  ∀ i n key,(w.agents i).converged = some (n,key) →
    (w.rotations = n ∨ w.rotations = n+1 ∧ ∃ k expiry,
      w.row.pending = some (k,expiry) ∧ w.clock < expiry) →
    ∃ c ∈ (w.agents i).candidates,c ∈ w.row.accepted w.clock

/-- What one step does to the row: a successor leaves it only by becoming the current key after
its overlap, and the current key changes only from unset or to the successor. -/
structure Kept (w w' : World κ) : Prop where
  successor : ∀ key expiry,w.row.pending = some (key,expiry) →
    w'.row.pending = some (key,expiry) ∨
      w'.row.pending = none ∧ w'.row.current = some key ∧ expiry ≤ w.clock
  current : w'.row.current = w.row.current ∨
    (w.row.current = none ∧ ∃ key,w'.row.current = some key) ∨
      ∃ key expiry,w.row.pending = some (key,expiry) ∧ w'.row.current = some key

omit [DecidableEq κ] in
theorem Kept.same {w w' : World κ} (h : w'.row = w.row) : Kept w w' := by
  refine ⟨fun key expiry hp => .inl ?_,.inl ?_⟩
  · rw [h]
    exact hp
  · rw [h]

/-! What holds in every state of a run that meets the condition. -/

def Call.reference : Call κ → Nat
  | .idle => 0
  | .called reference => reference
  | .read reference _ => reference
  | .generated reference => reference
  | .checking reference _ => reference
  | .settled reference => reference
  | .loaded reference _ => reference

def Call.Based (current : Option κ) : Call κ → Prop
  | .idle => True
  | .called _ => True
  | .read _ row => row.current ≠ none → current ≠ none
  | _ => current ≠ none

def Agent.Knows (a : Agent κ) (row : Row κ) (rotations : Nat) : Prop :=
  ∀ n key,a.converged = some (n,key) →
    key ∈ a.candidates ∧ n ≤ rotations ∧ (n = rotations → row.latest = some key) ∧
      (n+1 = rotations → row.pending ≠ none → row.current = some key)

structure Sound (w : World κ) : Prop where
  unset : w.row.current = none → w.row.pending = none ∧ w.rotations = 0
  reference : ∀ p,(w.calls p).reference ≤ w.clock
  based : ∀ p,(w.calls p).Based w.row.current
  agents : ∀ i,(w.agents i).Knows w.row w.rotations

section

variable {w : World κ}

theorem Initial.sound (h : Initial w) : Sound w where
  unset := fun _ => ⟨h.pending,h.rotations⟩
  reference := fun p => by
    rw [h.calls p]
    exact Nat.zero_le _
  based := fun p => by
    rw [h.calls p]
    trivial
  agents := fun i n key hc => by
    rw [h.agents i] at hc
    cases hc

theorem Sound.at {p : Nat} {c : Call κ} (h : Sound w) (reference : c.reference ≤ w.clock)
    (based : c.Based w.row.current) : Sound (w.at p c) where
  unset := h.unset
  reference := fun q => by
    change (Function.update w.calls p c q).reference ≤ w.clock
    by_cases hq : q = p
    · subst hq
      rw [Function.update_self]
      exact reference
    · rw [Function.update_of_ne hq]
      exact h.reference q
  based := fun q => by
    change (Function.update w.calls p c q).Based w.row.current
    by_cases hq : q = p
    · subst hq
      rw [Function.update_self]
      exact based
    · rw [Function.update_of_ne hq]
      exact h.based q
  agents := h.agents

omit [DecidableEq κ] in
theorem Call.Based.mono {current current' : Option κ} {c : Call κ} (h : c.Based current)
    (set : current ≠ none → current' ≠ none) : c.Based current' := by
  cases c with
  | idle | called => trivial
  | read reference row => exact fun hr => set (h hr)
  | generated | checking | settled | loaded => exact set h

theorem Sound.row {row : Row κ} {rotations : Nat} (h : Sound w) (set : row.current ≠ none)
    (agents : ∀ i,(w.agents i).Knows row rotations) : Sound {w with row,rotations} where
  unset := fun hn => absurd hn set
  reference := h.reference
  based := fun p => (h.based p).mono fun _ => set
  agents := agents

theorem generate_sound {key : κ} (h : Sound w) (free : w.row.current = none) :
    Sound {w with row := {w.row with current := some key}} := by
  obtain ⟨pending,rotations⟩ := h.unset free
  refine h.row (some_ne_none _) fun i n k hc => ?_
  obtain ⟨_,le,latest,_⟩ := h.agents i n k hc
  have none : w.row.latest = none := by rw [Row.latest,pending,free]; rfl
  have := latest (by omega)
  rw [none] at this
  cases this

omit [DecidableEq κ] in
theorem settle_row {row : Row κ} {reference : Nat} {key : κ}
    (expired : row.expired reference = some key)
    (meets : w.row.pending = row.pending ∨
      w.row.pending = none ∧ w.row.current = row.pending.map Prod.fst) :
    (∃ expiry,w.row.pending = some (key,expiry) ∧ expiry ≤ reference) ∨
      w.row = ⟨some key,none⟩ := by
  unfold Row.expired at expired
  split at expired
  · rename_i key' expiry hp
    split at expired <;> cases expired
    rename_i late
    rw [hp] at meets
    obtain same | ⟨none,current⟩ := meets
    · exact .inl ⟨expiry,same,Nat.le_of_not_lt late⟩
    · refine .inr ?_
      rw [show w.row = ⟨w.row.current,w.row.pending⟩ from rfl,none,current]
      rfl
  · cases expired

theorem settle_sound {key : κ} (h : Sound w)
    (pending : (∃ expiry,w.row.pending = some (key,expiry)) ∨ w.row = ⟨some key,none⟩) :
    Sound {w with row := ⟨some key,none⟩} := by
  have latest : w.row.latest = some key := by
    obtain ⟨expiry,hp⟩ | same := pending
    · rw [Row.latest,hp]
      rfl
    · rw [same]
      rfl
  refine h.row (some_ne_none _) fun i n k hc => ?_
  obtain ⟨mem,le,last,_⟩ := h.agents i n k hc
  refine ⟨mem,le,fun hn => ?_,fun _ hp => absurd rfl hp⟩
  rw [← last hn,latest]
  rfl

theorem start_sound {key : κ} {expiry : Nat} (h : Sound w) (set : w.row.current ≠ none)
    (free : w.row.pending = none) :
    Sound {w with row := {w.row with pending := some (key,expiry)},rotations := w.rotations+1} := by
  refine h.row set fun i n k hc => ?_
  obtain ⟨mem,le,last,_⟩ := h.agents i n k hc
  refine ⟨mem,Nat.le_succ_of_le le,fun hn => ?_,fun hn _ => ?_⟩
  · omega
  · have last := last (by omega)
    rw [Row.latest,free] at last
    exact last

theorem see_knows {a : Agent κ} (h : a.Knows w.row w.rotations ∨
    ∃ key,w.row.latest = some key ∧ key ∈ a.candidates) :
    (w.see a).Knows w.row w.rotations := by
  have seen : ∀ key,w.row.latest = some key → key ∈ a.candidates →
      Agent.Knows {a with converged := some (w.rotations,key)} w.row w.rotations := by
    intro key latest mem n k hc
    cases hc
    exact ⟨mem,Nat.le_refl _,fun _ => latest,fun hn => absurd hn (Nat.succ_ne_self _)⟩
  unfold World.see
  split
  · rename_i key latest
    split
    · rename_i mem
      exact seen key latest mem
    · rename_i absent
      refine h.resolve_right fun ⟨k,hk,mem⟩ => absent ?_
      cases latest.symm.trans hk
      exact mem
  · rename_i latest
    refine h.resolve_right fun ⟨k,hk,_⟩ => ?_
    rw [latest] at hk
    cases hk

theorem mem_handleKeyRotate (a : Agent κ) (key : κ) : key ∈ (a.handleKeyRotate key).candidates := by
  by_cases h : key = a.configured
  · simp [Agent.handleKeyRotate,Agent.candidates,h]
  · simp [Agent.handleKeyRotate,Agent.candidates,h]

theorem Sound.agent {i : Nat} {a : Agent κ} (h : Sound w) (knows : a.Knows w.row w.rotations)
    (inFlight : Nat → List κ) : Sound ({w with inFlight}.agent i a) where
  unset := h.unset
  reference := h.reference
  based := h.based
  agents := fun j => by
    change (Function.update w.agents i a j).Knows w.row w.rotations
    by_cases hj : j = i
    · subst hj
      rw [Function.update_self]
      exact knows
    · rw [Function.update_of_ne hj]
      exact h.agents j

theorem step_sound {w' : World κ} {act : Act κ} (h : Sound w)
    (step : Guarded Step Meets w act w') : Sound w' ∧ Kept w w' := by
  obtain ⟨meets,step⟩ := step
  unfold Step next at step
  have called := h.reference
  have based := h.based
  cases act with
  | tick n =>
    cases step
    exact ⟨⟨h.unset,fun p => Nat.le_add_right_of_le (h.reference p),h.based,h.agents⟩,
      .same rfl⟩
  | call p =>
    cases step
    exact ⟨h.at (Nat.le_refl _) trivial,.same rfl⟩
  | read p =>
    have called := called p
    have based := based p
    dsimp only at step
    split at step
    · rename_i reference hc
      rw [hc] at called
      cases step
      exact ⟨h.at called fun hr => hr,.same rfl⟩
    · rename_i reference hc
      rw [hc] at called based
      cases step
      exact ⟨h.at called based,.same rfl⟩
    · rename_i reference hc
      rw [hc] at called based
      cases step
      exact ⟨h.at called based,.same rfl⟩
    · cases step
  | generate p key =>
    have called := called p
    dsimp only at step
    split at step
    · rename_i reference row hc
      rw [hc] at called
      split at step <;> cases step
      have meets : w.row.current = none := meets
      refine ⟨(generate_sound h meets).at called (some_ne_none key),fun _ _ hp => .inl hp,
        .inr (.inl ⟨meets,key,rfl⟩)⟩
    · cases step
  | check p =>
    have called := called p
    have based := based p
    dsimp only at step
    split at step
    · rename_i reference row hc
      rw [hc] at called based
      split at step <;> cases step
      rename_i set
      exact ⟨h.at called (based set),.same rfl⟩
    · cases step
  | settle p =>
    have called := called p
    dsimp only at step
    split at step
    · rename_i reference row hc
      rw [hc] at called
      obtain ⟨key,expired,rfl⟩ := Option.map_eq_some_iff.1 step
      have found := settle_row expired (meets reference row hc)
      refine ⟨(settle_sound h (found.imp_left fun ⟨expiry,hp,_⟩ => ⟨expiry,hp⟩)).at called
        (some_ne_none key),fun k expiry hp => .inr ?_,?_⟩
      · obtain ⟨expiry',hp',late⟩ | same := found
        · cases hp.symm.trans hp'
          exact ⟨rfl,rfl,Nat.le_trans late called⟩
        · rw [same] at hp
          cases hp
      · obtain ⟨expiry',hp',_⟩ | same := found
        · exact .inr (.inr ⟨key,expiry',hp',rfl⟩)
        · refine .inl ?_
          rw [same]
          rfl
    · cases step
  | load p =>
    have called := called p
    have based := based p
    dsimp only at step
    split at step
    · rename_i reference row hc
      rw [hc] at called based
      split at step <;> cases step
      exact ⟨h.at called based,.same rfl⟩
    · cases step
  | start p key window =>
    have called := called p
    have based := based p
    dsimp only at step
    split at step
    · rename_i reference row hc
      rw [hc] at called based
      split at step
      · split at step
        · rename_i free
          cases step
          refine ⟨(start_sound h based free).at called trivial,fun k expiry hp => ?_,.inl rfl⟩
          rw [free] at hp
          cases hp
        · cases step
          exact ⟨h.at (Nat.zero_le _) trivial,.same rfl⟩
      · cases step
    · cases step
  | handshake p i key =>
    dsimp only at step
    split at step
    · split at step <;> cases step
      exact ⟨h.agent (see_knows (.inl (h.agents i))) _,.same rfl⟩
    · cases step
  | send p i =>
    dsimp only at step
    split at step <;> cases step
    exact ⟨⟨h.unset,h.reference,h.based,h.agents⟩,.same rfl⟩
  | deliver i =>
    dsimp only at step
    split at step <;> cases step
    rename_i key rest hf
    refine ⟨h.agent (see_knows ?_) _,.same rfl⟩
    by_cases hc : (w.agents i).converged = none
    · refine .inl fun n k hk => ?_
      rw [Agent.handleKeyRotate,hc] at hk
      cases hk
    · exact .inr ⟨key,meets key rest hf hc,mem_handleKeyRotate _ key⟩
  | leave p =>
    cases step
    exact ⟨h.at (Nat.zero_le _) trivial,.same rfl⟩

theorem run_sound {w' : World κ} {acts : List (Act κ)} (h : Sound w)
    (run : Run (Guarded Step Meets) w acts w') : Sound w' :=
  run.invariant (I := Sound) (fun _ _ _ h step => (step_sound h step).1) h

omit [DecidableEq κ] in
theorem Row.latest_accepted {row : Row κ} {key : κ} (h : row.latest = some key) (now : Nat) :
    key ∈ row.accepted now := by
  unfold Row.latest at h
  unfold Row.accepted Row.expired
  cases hp : row.pending with rw [hp] at h
  | none =>
    simp only [map_none,none_or] at h
    simp [h]
  | some pending =>
    cases h
    dsimp only
    split
    · rename_i k hk
      split at hk <;> cases hk
      exact List.mem_singleton_self _
    · simp

omit [DecidableEq κ] in
theorem Row.current_accepted {row : Row κ} {key : κ} {expiry now : Nat} {k : κ}
    (h : row.current = some key) (hp : row.pending = some (k,expiry)) (left : now < expiry) :
    key ∈ row.accepted now := by
  unfold Row.accepted Row.expired
  rw [hp,h]
  simp [left]

theorem Sound.reaches (h : Sound w) : Reaches w := by
  intro i n key hc left
  obtain ⟨mem,_,latest,current⟩ := h.agents i n key hc
  obtain same | ⟨later,k,expiry,hp,open_⟩ := left
  · exact ⟨key,mem,Row.latest_accepted (latest same.symm) _⟩
  · have current := current later.symm (by simp [hp])
    exact ⟨key,mem,Row.current_accepted current hp open_⟩

/-- In every run that meets the condition, every step leaves a successor in the row until it
becomes the current key after its overlap, the current key changes only from unset or to the
successor, and no agent that knew the latest key is stranded before another overlap ends. -/
theorem rotation_never_strands {w' w'' : World κ} {acts : List (Act κ)} {act : Act κ}
    (h : Initial w) (run : Run (Guarded Step Meets) w acts w')
    (step : Guarded Step Meets w' act w'') : Kept w' w'' ∧ Reaches w'' := by
  have sound := step_sound (run_sound h.sound run) step
  exact ⟨sound.2,sound.1.reaches⟩

end

theorem Step.of {w w' : World κ} (act : Act κ) (h : next w act = some w') : Step w act w' := h

theorem tick_step (w : World κ) (n : Nat) :
    Guarded Step Meets w (.tick n) {w with clock := w.clock+n} :=
  ⟨trivial,rfl⟩

def firstKey : World Nat where
  row := ⟨some 0,none⟩
  clock := 0
  calls := fun _ => .idle
  agents := fun _ => ⟨0,none,none⟩
  inFlight := fun _ => []
  rotations := 0

theorem firstKey_initial : Initial firstKey := ⟨rfl,rfl,fun _ => rfl,fun _ => rfl⟩

theorem rotation_never_strands_told : ∃ acts w act w',
    Run (Guarded Step Meets) firstKey acts w ∧ Guarded Step Meets w act w' ∧
      (w'.agents 0).converged = some (1,1) ∧ Kept w w' ∧ Reaches w' := by
  have loaded : Run (Guarded Step Meets) firstKey _ _ :=
    ((((Run.nil firstKey).also (.of (.call 0) rfl) trivial).also (.of (.read 0) rfl) trivial).also
      (.of (.check 0) rfl) trivial).also (.of (.load 0) rfl) trivial
  have started := loaded.also (.of (.start 0 1 10) rfl) trivial
  have again := ((started.also (.of (.read 0) rfl) trivial).also (.of (.check 0) rfl) trivial).also
    (.of (.load 0) rfl) trivial
  have told := (again.also (.of (.handshake 0 0 0) rfl) trivial).also (.of (.send 0 0) rfl) trivial
  have saved := told.also (.of (.deliver 0) rfl) fun _ _ _ hc => absurd rfl hc
  exact ⟨_,_,_,_,saved,tick_step _ 20,rfl,
    rotation_never_strands firstKey_initial saved (tick_step _ 20)⟩

/-- A process that has read an expired rotation settles it after another has settled it and a
new rotation was started: the new successor is gone before its overlap has ended. -/
theorem late_settle_drops_successor : ∃ acts w act w',
    Initial firstKey ∧ Run Step firstKey acts w ∧ Step w act w' ∧
      w.row.pending = some (2,15) ∧ w'.row.pending = none ∧ w'.row.current = some 1 ∧
      w.clock < 15 ∧ ¬Kept w w' := by
  have loaded : Run Step firstKey _ _ :=
    ((((Run.nil firstKey).snoc (.of (.call 0) rfl)).snoc (.of (.read 0) rfl)).snoc
      (.of (.check 0) rfl)).snoc (.of (.load 0) rfl)
  have expired := (loaded.snoc (.of (.start 0 1 5) rfl)).snoc (.of (.tick 5) rfl)
  have late := ((expired.snoc (.of (.call 1) rfl)).snoc (.of (.read 1) rfl)).snoc
    (.of (.check 1) rfl)
  have settled := (((late.snoc (.of (.call 2) rfl)).snoc (.of (.read 2) rfl)).snoc
    (.of (.check 2) rfl)).snoc (.of (.settle 2) rfl)
  have started := (settled.snoc (.of (.read 2) rfl)).snoc (.of (.start 2 2 10) rfl)
  refine ⟨_,_,.settle 1,_,firstKey_initial,started,rfl,rfl,rfl,rfl,by decide,fun kept => ?_⟩
  obtain stays | ⟨_,current,_⟩ := kept.successor 2 15 rfl
  · cases stays
  · cases current

end CircuitBreaker.ServerKey
