import CircuitBreaker.JournalSound
import Mathlib.Data.List.Induction

/-! What the journal rules allow: one record after another, at most twenty-three of
them, and everything an accepted checkpoint request changes. -/

namespace CircuitBreaker.Lifecycle
open List

/-! What the rules ask of one record and of a record after another. -/

structure Checkpoint.Lawful (c : Checkpoint) : Prop where
  step : c.step.isSome → c.state ∈ progressStates
  committed : c.state = .committed ↔ c.outcome = some .committed
  recovered : c.state = .recovered ↔ c.outcome = some .recovered
  refused : c.outcome = some .refused → c.state ∈ preMutation
  interrupted : c.outcome = some .interrupted → c.state = .interrupted ∧ c.early = true
  early : c.state = .interrupted → c.early = true → c.outcome = some .interrupted
  manual : c.outcome = some .manual → c.state = .recoveryRequired

theorem bne_eq_false {a b : Bool} : (a != b) = false ↔ (a = true ↔ b = true) := by
  cases a <;> cases b <;> simp

variable {c : Checkpoint}

theorem checkpointRules_lawful {pos : String}
    (h : checkpointRules c pos = none) : c.Lawful := by
  simp only [checkpointRules,outcomeRules,closingRule,orElse_eq_none,failIf_eq_none,
    bne_eq_false,beq_iff_eq] at h
  obtain ⟨h₁,-,-,⟨h₂,h₃,h₄,h₅,h₆,-,h₇⟩,-⟩ := h
  exact ⟨by simpa using h₁,h₂,h₃,by simpa using h₄,by simpa using h₅,by simpa using h₆,
    by simpa using h₇⟩

theorem Checkpoint.Lawful.progress_open {d : Checkpoint} (h : d.Lawful)
    (hs : d.state ∈ progressStates) : d.outcome = none := by
  have states : d.state ≠ .committed ∧ d.state ≠ .recovered ∧ d.state ∉ preMutation ∧
      d.state ≠ .interrupted ∧ d.state ≠ .recoveryRequired := by
    revert hs
    cases d.state <;> decide
  obtain ⟨h₁,h₂,h₃,h₄,h₅⟩ := states
  cases ho : d.outcome with
  | none => rfl
  | some o =>
    cases o with
    | committed => exact absurd (h.committed.2 ho) h₁
    | recovered => exact absurd (h.recovered.2 ho) h₂
    | refused => exact absurd (h.refused ho) h₃
    | interrupted => exact absurd (h.interrupted ho).1 h₄
    | manual => exact absurd (h.manual ho) h₅

/-- What a record owes the one before it, with `attempts` counted up to it. -/
structure Follows (kind : Kind) (action : Action) (prev c : Checkpoint) (attempts : Nat) : Prop where
  opened : prev.outcome = none
  sequence : prev.sequence < c.sequence
  interrupted : c.state = .interrupted → c.checkpoint = some prev.state
  manual : c.outcome = some .manual → prev.state = .recoveryRequired
  attempt : startsAttempt prev c = true → attempts ≤ maxRecoveryAttempts
  repeats : prev.state = c.state →
    c.step.isSome ∧ c.state ∈ progressStates ∧ prev.step = none ∨
      c.outcome = some .refused ∧ c.step = none ∨ c.outcome = some .manual ∧ c.step = none
  moves : prev.state ≠ c.state → c.state ∈ transitions kind prev.state ∧
    (prev.state = .verified → c.state = .applying → action = .install)

variable {kind : Kind} {action : Action} {attempts : Nat}

theorem followRules_eq_none {i : Nat}
    {prev : Checkpoint} (hc : c.Lawful) : followRules kind action i prev c attempts = none ↔
      Follows kind action prev c attempts := by
  have repeats : repeatRules prev c ("/checkpoints/" ++ toString i) = none ↔
      (c.step.isSome ∧ c.state ∈ progressStates ∧ prev.step = none ∨
        c.outcome = some .refused ∧ c.step = none ∨ c.outcome = some .manual ∧ c.step = none) := by
    simp only [repeatRules,orElse_eq_none,failIf_eq_none]
    cases hs : c.step with
    | none =>
      simp
      tauto
    | some t =>
      have state : c.state ∈ progressStates := hc.step (by simp [hs])
      cases hp : prev.step <;> simp [state]
  simp only [followRules,orElse_eq_none,failIf_eq_none]
  constructor
  · rintro ⟨h₁,h₂,h₃,h₄,h₅,h₆⟩
    refine ⟨by simpa using h₁,by simpa using h₂,by simpa using h₃,by simpa using h₄,
      by simpa using h₅,fun he => ?_,fun hne => ?_⟩
    · rw [if_pos he] at h₆
      exact repeats.1 h₆
    · rw [if_neg hne] at h₆
      simpa [orElse_eq_none,isTransition] using h₆
  · rintro ⟨h₁,h₂,h₃,h₄,h₅,h₆,h₇⟩
    refine ⟨by simpa using h₁,by simpa using h₂,by simpa using h₃,by simpa using h₄,
      by simpa using h₅,?_⟩
    split
    case isTrue he =>
      exact repeats.2 (h₆ he)
    case isFalse he =>
      simpa [orElse_eq_none,isTransition] using h₇ he

theorem checkpointRules_pos {pos pos' : String}
    (h : checkpointRules c pos = none) : checkpointRules c pos' = none := by
  have causes : causeRules c pos = none ↔ causeRules c pos' = none := by
    unfold causeRules
    cases allowedCauses c.state <;> simp
  have errors : errorRules c pos = none ↔ errorRules c pos' = none := by
    unfold errorRules
    cases c.error.bind fun e => errorCodeProblem c.errorAs e.code <;> simp
  simp only [checkpointRules,outcomeRules,closingRule,orElse_eq_none,failIf_eq_none,causes,
    errors] at h ⊢
  exact h

/-! The walk, by its last record. -/

/-- The journal's records `cs` end in `c`, with `attempts` recoveries begun. -/
inductive Walked (kind : Kind) (action : Action) : List Checkpoint → Checkpoint → Nat → Prop where
  | first {c : Checkpoint} (rules : checkpointRules c "" = none) : Walked kind action [c] c 0
  | next {cs : List Checkpoint} {prev c : Checkpoint} {attempts : Nat}
      (before : Walked kind action cs prev attempts) (rules : checkpointRules c "" = none)
      (follows : Follows kind action prev c (nextAttempts prev c attempts)) :
      Walked kind action (cs++[c]) c (nextAttempts prev c attempts)

def attemptsAfter : Option Checkpoint → Nat → List Checkpoint → Nat
  | _, n, [] => n
  | none, n, c::cs => attemptsAfter (some c) n cs
  | some prev, n, c::cs => attemptsAfter (some c) (nextAttempts prev c n) cs

attribute [local simp] walk attemptsAfter

theorem walk_snoc :
    ∀ {cs : List Checkpoint} {i n : Nat} {prev : Option Checkpoint},
      walk kind action i prev n (cs++[c]) = none ↔ walk kind action i prev n cs = none ∧
        walk kind action (i+cs.length) (cs.getLast?.or prev) (attemptsAfter prev n cs) [c] = none
  | [], i, n, prev => by simp [walk,attemptsAfter]
  | d::cs, i, n, none => by
    have last : ((d::cs).getLast?).or none = cs.getLast?.or (some d) := by
      cases cs <;> simp [getLast?_cons]
    have index : i+(d::cs).length = i+1+cs.length := by simp; omega
    rw [cons_append,walk,walk,orElse_eq_none,orElse_eq_none,walk_snoc,last,index,attemptsAfter,
      and_assoc]
  | d::cs, i, n, some prev => by
    have last : ((d::cs).getLast?).or (some prev) = cs.getLast?.or (some d) := by
      cases cs <;> simp [getLast?_cons]
    have index : i+(d::cs).length = i+1+cs.length := by simp; omega
    simp only [cons_append,walk,orElse_eq_none,walk_snoc,last,index,attemptsAfter,and_assoc]

theorem attemptsAfter_snoc : ∀ {cs : List Checkpoint} {n : Nat}
    {prev : Option Checkpoint}, attemptsAfter prev n (cs++[c]) =
      (cs.getLast?.or prev).elim (attemptsAfter prev n cs) fun p =>
        nextAttempts p c (attemptsAfter prev n cs)
  | [], n, none => by simp [attemptsAfter]
  | [], n, some p => by simp [attemptsAfter]
  | d::cs, n, none => by
    have last : ((d::cs).getLast?).or none = cs.getLast?.or (some d) := by
      cases cs <;> simp [getLast?_cons]
    rw [cons_append,attemptsAfter,attemptsAfter_snoc,last,attemptsAfter]
  | d::cs, n, some p => by
    have last : ((d::cs).getLast?).or (some p) = cs.getLast?.or (some d) := by
      cases cs <;> simp [getLast?_cons]
    rw [cons_append,attemptsAfter,attemptsAfter_snoc,last,attemptsAfter]

variable {cs : List Checkpoint}

theorem walk_walked
    (h : walk kind action 0 none 0 cs = none) (hl : cs.getLast? = some c) :
    Walked kind action cs c (attemptsAfter none 0 cs) := by
  induction cs using List.reverseRecOn generalizing c with
  | nil => simp at hl
  | append_singleton cs d ih =>
    have hd : d = c := by simpa using hl
    subst hd
    obtain ⟨before,last⟩ := walk_snoc.1 h
    rw [attemptsAfter_snoc]
    cases hp : cs.getLast? with
    | none =>
      have : cs = [] := getLast?_eq_none_iff.1 hp
      subst this
      simp only [walk,getLast?_nil,Option.or_none,orElse_eq_none] at last
      exact .first (checkpointRules_pos last.1)
    | some p =>
      simp only [hp,Option.or_none,walk,orElse_eq_none] at last
      have rules : checkpointRules d "" = none := checkpointRules_pos last.1
      exact .next (ih before hp) rules
        ((followRules_eq_none (checkpointRules_lawful rules)).1 last.2.1)

theorem Walked.walk_eq_none (h : Walked kind action cs c attempts) :
    walk kind action 0 none 0 cs = none ∧ cs.getLast? = some c ∧
      attempts = attemptsAfter none 0 cs := by
  induction h with
  | first rules => simp [walk,checkpointRules_pos rules,attemptsAfter]
  | next before rules follows ih =>
    obtain ⟨hw,hl,ha⟩ := ih
    refine ⟨walk_snoc.2 ⟨hw,?_⟩,by simp,?_⟩
    · have lawful := checkpointRules_lawful rules
      simp only [hl,Option.or_none,walk,orElse_eq_none,checkpointRules_pos rules,←ha,true_and,
        and_true]
      exact (followRules_eq_none lawful).2 follows
    · rw [attemptsAfter_snoc,hl,ha]
      rfl

/-! How many records there can be. -/

theorem Walked.lawful (h : Walked kind action cs c attempts) : c.Lawful := by
  cases h with
  | first rules | next _ rules _ => exact checkpointRules_lawful rules

theorem Walked.attempts_le (h : Walked kind action cs c attempts) : attempts ≤ maxRecoveryAttempts := by
  induction h with
  | first => exact Nat.zero_le _
  | @next cs prev c attempts before rules follows ih =>
    by_cases hs : startsAttempt prev c = true
    · exact follows.attempt hs
    · simpa [nextAttempts,hs] using ih

/-- The last position an unfinished record in state `s` can have, `stepped` or not, with
`attempts` recoveries begun. -/
def State.rank : State → Nat → Nat → Nat
  | .planned, _, _ | .committed, _, _ | .recovered, _, _ => 1
  | .staged, _, _ => 2
  | .verified, _, _ => 3
  | .recoverySaved, _, _ => 4
  | .applying, stepped, _ => 5+stepped
  | .checking, stepped, _ => 7+stepped
  | .recovering, stepped, attempts => 4*attempts+7+stepped
  | .interrupted, _, attempts => 4*attempts+9
  | .recoveryRequired, _, attempts => 4*attempts+10

theorem rank_transition {s t : State} {stepped stepped' : Nat}
    (h : t ∈ transitions kind s) (hc : t ≠ .committed) (hr : t ≠ .recovered) (hs : stepped ≤ 1) :
    s.rank stepped attempts+1 ≤ t.rank stepped' (if t = .recovering then attempts+1 else attempts) := by
  cases kind <;> cases s <;> cases t <;> simp [transitions] at h hc hr <;>
    simp [State.rank] <;> omega

def Checkpoint.stepped (c : Checkpoint) : Nat := if c.step.isSome then 1 else 0

theorem stepped_le (c : Checkpoint) : c.stepped ≤ 1 := by
  unfold Checkpoint.stepped
  split <;> omega

theorem rank_follows {prev : Checkpoint}
    (lawful : c.Lawful) (unfinished : c.outcome = none)
    (follows : Follows kind action prev c (nextAttempts prev c attempts)) :
    prev.state.rank prev.stepped attempts+1 ≤
      c.state.rank c.stepped (nextAttempts prev c attempts) := by
  have hc : c.state ≠ .committed := fun h => by simp [lawful.committed.1 h] at unfinished
  have hr : c.state ≠ .recovered := fun h => by simp [lawful.recovered.1 h] at unfinished
  by_cases same : prev.state = c.state
  · have progress := follows.repeats same
    simp only [unfinished,reduceCtorEq,false_and,or_self,or_false] at progress
    obtain ⟨hs,hp,hn⟩ := progress
    have start : startsAttempt prev c = false := by simp [startsAttempt,same]
    simp only [progressStates,mem_cons,not_mem_nil,or_false] at hp
    rcases hp with h|h|h <;> simp [Checkpoint.stepped,nextAttempts,start,same,hs,hn,h,State.rank]
  · have start : nextAttempts prev c attempts =
        if c.state = .recovering then attempts+1 else attempts := by
      by_cases h : c.state = .recovering
      · have : prev.state ≠ .recovering := h ▸ same
        simp [nextAttempts,startsAttempt,h,this]
      · simp [nextAttempts,startsAttempt,h]
    rw [start]
    exact rank_transition (follows.moves same).1 hc hr (stepped_le prev)

theorem rank_le (s : State) {stepped : Nat} (hs : stepped ≤ 1)
    (ha : attempts ≤ maxRecoveryAttempts) : s.rank stepped attempts ≤ 22 := by
  simp only [maxRecoveryAttempts] at ha
  cases s <;> simp only [State.rank] <;> omega

theorem Walked.length_le_rank (h : Walked kind action cs c attempts)
    (unfinished : c.outcome = none) : cs.length ≤ c.state.rank c.stepped attempts := by
  induction h with
  | @first c rules => cases hs : c.state <;> simp [State.rank] <;> omega
  | next before rules follows ih =>
    have hp := ih follows.opened
    have hr := rank_follows (checkpointRules_lawful rules) unfinished follows
    simp only [length_append,length_singleton]
    omega

theorem Walked.length_le (h : Walked kind action cs c attempts) : cs.length ≤ 23 := by
  cases h with
  | first => simp
  | @next cs prev _ attempts before rules follows =>
    have hp := before.length_le_rank follows.opened
    have hr := rank_le prev.state (stepped_le prev) before.attempts_le
    simp only [length_append,length_singleton]
    omega

/-! One more record. -/

/-- The rules' side of an accepted journal that ends in `c`. -/
structure Journal.Ruled (j : Journal) (c : Checkpoint) (attempts : Nat) : Prop where
  initial : ∃ d, j.checkpoints.head? = some d ∧ d.state = initialState j.kind
  plan : j.kind = .transaction ↔ j.planDigest.isSome
  generation : j.checkpoints.length ≤ j.generation
  release : j.kind = .transaction → j.action ∈ resolvedActions →
    ∀ r, j.target = some r → isRelease r.version = true
  walked : Walked j.kind j.action j.checkpoints c attempts
  recovery : (∃ d ∈ j.checkpoints, d.state = .recoverySaved) → j.recovery.isSome

variable {j : Journal}

theorem journalRules_ruled (h : journalRules j = none)
    (hl : j.last = some c) : j.Ruled c (attemptsAfter none 0 j.checkpoints) := by
  simp only [journalRules,orElse_eq_none,failIf_eq_none] at h
  obtain ⟨h₁,h₂,h₃,h₄,h₅,h₆,h₇⟩ := h
  refine ⟨?_,?_,by simpa using h₄,?_,walk_walked h₆ hl,?_⟩
  · cases hh : j.checkpoints.head? with
    | none => simp [hh] at h₁
    | some d => exact ⟨d,rfl,by simpa [hh] using h₁⟩
  · cases hk : j.kind <;> cases hd : j.planDigest <;> simp [hk,hd] at h₂ h₃ ⊢
  · intro hk ha r hr
    simpa [hk,ha,hr] using h₅
  · rintro ⟨d,hd,hs⟩
    cases hr : j.recovery with
    | some ref => rfl
    | none =>
      simp only [hr,Option.isNone_none,Bool.and_true,any_eq_false] at h₇
      exact absurd (by simpa using hs) (h₇ d hd)

theorem Journal.Ruled.rules
    (h : j.Ruled c attempts) : journalRules j = none := by
  obtain ⟨⟨d,hd,hs⟩,plan,generation,release,walked,recovery⟩ := h
  simp only [journalRules,orElse_eq_none,failIf_eq_none]
  refine ⟨by simp [hd,hs],?_,?_,by simpa using generation,?_,walked.walk_eq_none.1,?_⟩
  · cases hk : j.kind <;> cases hp : j.planDigest <;> simp [hk,hp] at plan ⊢
  · cases hk : j.kind <;> cases hp : j.planDigest <;> simp [hk,hp] at plan ⊢
  · cases ht : j.target with
    | none => simp
    | some r =>
      by_cases hk : j.kind = .transaction
      · by_cases ha : j.action ∈ resolvedActions
        · simp [release hk ha r ht]
        · simp [ha]
      · simp [hk]
  · cases hr : j.recovery with
    | some ref => simp
    | none =>
      simp only [hr,Option.isSome_none,Bool.false_eq_true,imp_false,not_exists,not_and] at recovery
      simpa using recovery

theorem Walked.sequence_le (h : Walked kind action cs c attempts) :
    ∀ d ∈ cs, d.sequence ≤ c.sequence := by
  induction h with
  | first => simp
  | next before rules follows ih =>
    intro d hd
    simp only [mem_append,mem_singleton] at hd
    rcases hd with hd|rfl
    · exact le_trans (ih d hd) (le_of_lt follows.sequence)
    · exact le_rfl

theorem foldl_max_le {l : List Nat} {m b : Nat} (hm : m ≤ b) (h : ∀ n ∈ l, n ≤ b) :
    l.foldl max m ≤ b := by
  induction l generalizing m with
  | nil => exact hm
  | cons n l ih =>
    exact ih (Nat.max_le.2 ⟨hm,h n (by simp)⟩) fun k hk => h k (by simp [hk])

theorem le_foldl_max {l : List Nat} {m : Nat} : m ≤ l.foldl max m ∧ ∀ n ∈ l, n ≤ l.foldl max m := by
  induction l generalizing m with
  | nil => simp
  | cons n l ih =>
    obtain ⟨h₁,h₂⟩ := ih (m := max m n)
    simp only [foldl_cons,mem_cons,forall_eq_or_imp]
    exact ⟨by omega,by omega,h₂⟩

theorem le_durable (h : c ∈ j.checkpoints) :
    c.sequence ≤ j.durable :=
  le_foldl_max.2 _ (mem_map_of_mem h)

theorem durable_eq (h : j.Ruled c attempts) :
    j.durable = c.sequence := by
  have last := mem_of_getLast? h.walked.walk_eq_none.2.1
  refine Nat.le_antisymm (foldl_max_le (Nat.zero_le _) ?_) (le_durable last)
  simp only [mem_map,forall_exists_index,and_imp,forall_apply_eq_imp_iff₂]
  exact h.walked.sequence_le

theorem append_validate {d : Checkpoint} {stamp : String}
    (valid : j.validate = none) (last : j.last = some c) (rules : checkpointRules d "" = none)
    (follows : Follows j.kind j.action c d
      (nextAttempts c d (attemptsAfter none 0 j.checkpoints)))
    (conforms : d.Conforms) (safe : (d.sequence : Int) ≤ maxSafe)
    (room : ((j.generation+1 : Nat) : Int) ≤ maxSafe)
    (saved : d.state = .recoverySaved → c.state = .recoverySaved)
    (time : timestampNode.valid (.str stamp) = true) : (j.append d stamp).validate = none := by
  obtain ⟨hc,hs,hr⟩ := validate_sound valid
  have ruled := journalRules_ruled hr last
  have walked := Walked.next ruled.walked rules follows
  have count : (j.append d stamp).checkpoints.length ≤ 23 := walked.length_le
  have ruled' : (j.append d stamp).Ruled d
      (nextAttempts c d (attemptsAfter none 0 j.checkpoints)) := by
    refine ⟨?_,ruled.plan,?_,ruled.release,walked,?_⟩
    · obtain ⟨e,he,hi⟩ := ruled.initial
      exact ⟨e,by simp [Journal.append,he],hi⟩
    · have := ruled.generation
      simp only [Journal.append,length_append,length_singleton]
      omega
    · simp only [Journal.append,mem_append,mem_singleton]
      rintro ⟨e,he|rfl,hi⟩
      · exact ruled.recovery ⟨e,he,hi⟩
      · exact ruled.recovery ⟨c,mem_of_getLast? last,saved hi⟩
  refine validate_complete ?_ ⟨room,?_⟩ count ruled'.rules
  · refine { hc with generation := ?_, updatedAt := time, nonempty := ?_, count := ?_, checkpoints := ?_ }
    · simp [Journal.append]
    · simp [Journal.append]
    · exact le_trans count (by omega)
    · simp only [Journal.append,mem_append,mem_singleton]
      rintro e (he|rfl)
      · exact hc.checkpoints e he
      · exact conforms
  · simp only [Journal.append,mem_append,mem_singleton]
    rintro e (he|rfl)
    · exact hs.sequences e he
    · exact safe

/-! What a request can do. -/

structure CheckpointCall where
  counter : Nat
  now : Moment
  request : CheckpointRequest

/-- A request that `_next_journal` accepts. -/
def checkpointStep (j : Journal) (e : CheckpointCall) (t : Journal) : Prop :=
  ∃ entry, nextJournal e.counter e.now.stamp j e.request = .ok (t,entry)

theorem except_bind {ε α β : Type} {x : Except ε α} {f : α → Except ε β} {b : β}
    (h : x >>= f = .ok b) : ∃ a, x = .ok a ∧ f a = .ok b := by
  cases x with
  | error e => simp [bind,Except.bind] at h
  | ok a => exact ⟨a,rfl,h⟩

theorem nextJournal_cases {counter : Nat} {stamp : String} {t : Journal} {r : CheckpointRequest}
    {entry : Checkpoint} (h : nextJournal counter stamp j r = .ok (t,entry)) :
    ∃ error recovery item, entryError r = .ok error ∧ entry = j.entry counter stamp r error ∧
      (∀ ref, j.recovery = some ref → recovery = some ref) ∧ t.validate = none ∧
      t = { j with checkpoints := j.place entry, generation := j.generation+1, updatedAt := stamp,
                   recovery := recovery, evidence := j.evidence ++ item } := by
  obtain ⟨error,he,h⟩ := except_bind h
  obtain ⟨wanted,hw,h⟩ := except_bind h
  obtain ⟨recovery,hr,h⟩ := except_bind h
  obtain ⟨item,hi,h⟩ := except_bind h
  obtain ⟨_,hv,h⟩ := except_bind h
  simp only [pure,Except.pure,Except.ok.injEq,Prod.mk.injEq] at h
  obtain ⟨rfl,rfl⟩ := h
  refine ⟨error,recovery,item.toList,he,rfl,?_,?_,rfl⟩
  · intro ref href
    unfold Journal.nextRecovery at hr
    cases wanted with
    | none => simpa [href] using hr.symm
    | some w =>
      by_cases hw : ref = w
      · simpa [href,hw] using hr.symm
      · simp [href,hw] at hr
  · generalize Journal.validate _ = refusal at hv
    cases refusal with
    | none => rfl
    | some e => simp [validOrUsage] at hv

theorem Walked.last_step {d : Checkpoint} (h : Walked kind action (cs++[d]) d attempts) (hl : cs.getLast? = some c) :
    ∃ before, Walked kind action cs c before ∧
      Follows kind action c d (nextAttempts c d before) := by
  generalize hcs : cs++[d] = all at h
  cases h with
  | first =>
    have : cs = [] := by simpa using hcs
    simp [this] at hl
  | next before rules follows =>
    obtain ⟨rfl,-⟩ := append_inj' hcs rfl
    have : some c = some _ := hl.symm.trans before.walk_eq_none.2.1
    obtain rfl := Option.some.inj this
    exact ⟨_,before,follows⟩

/-- What one accepted request makes of a journal that ends in `c`. -/
structure Stepped (j t : Journal) (c d : Checkpoint) : Prop where
  valid : t.validate = none
  last : t.last = some d
  kind : t.kind = j.kind
  generation : t.generation = j.generation+1
  sequence : c.sequence < d.sequence
  lawful : d.Lawful
  placed : (c.step.isSome ∧ d.step.isSome ∧ c.state = d.state) ∨
    ∃ attempts, Follows j.kind j.action c d attempts

theorem checkpointStep_stepped {t : Journal} {e : CheckpointCall}
    (last : j.last = some c) (h : checkpointStep j e t) : ∃ d, Stepped j t c d := by
  obtain ⟨entry,h⟩ := h
  obtain ⟨error,recovery,item,-,he,-,hv,ht⟩ := nextJournal_cases h
  have above : c.sequence < entry.sequence := by
    have := le_durable (mem_of_getLast? last)
    simp only [he,Journal.entry,Journal.nextSequence]
    omega
  have tlast : t.last = some entry := by
    rw [ht]
    unfold Journal.last Journal.place
    split <;> simp
  have ruled := journalRules_ruled (validate_sound hv).2.2 tlast
  refine ⟨entry,hv,tlast,by rw [ht],by rw [ht],above,ruled.walked.lawful,?_⟩
  have walked := ruled.walked
  by_cases stepped : (entry.step.isSome && c.step.isSome && c.state == entry.state) = true
  · simp only [Bool.and_eq_true,beq_iff_eq] at stepped
    exact .inl ⟨stepped.1.2,stepped.1.1,stepped.2⟩
  · have place : j.place entry = j.checkpoints ++ [entry] := by
      simp [Journal.place,last,stepped]
    right
    rw [ht] at walked
    simp only [place] at walked
    obtain ⟨n,-,follows⟩ := walked.last_step last
    exact ⟨_,follows⟩

end CircuitBreaker.Lifecycle
