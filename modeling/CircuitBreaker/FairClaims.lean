import CircuitBreaker.RoundRobin
import CircuitBreaker.StepRuns

/-! Claiming due monitors (services/monitoring/scheduler.py): the most overdue rows are locked, ranked
by vantage, and of them a batch is claimed in rounds. -/

namespace CircuitBreaker.FairClaims
open RoundRobin StepRuns List

structure MonitorItem where
  id : Nat
  enabled : Bool := true
  nextDueAt : Int
  intervalSecs : Nat := 60
  probeAgentId : Option Nat := none
  deriving DecidableEq

/-- `coalesce(probe_agent_id, 0)` -/
def vantage (m : MonitorItem) : Nat := m.probeAgentId.getD 0

/-- The statement's parameters, its `now()` and `random()`, and how rows that are due at one time are
ordered, which SQL leaves open at each of the three sorts. -/
structure Query where
  now : Int
  batch : Nat := 200
  perVantage : Nat := 50
  oversample : Nat := 1000
  jitter : Nat → Int := fun _ => 0
  lockTie : Nat → Nat := id
  rankTie : Nat → Nat := id
  cutTie : Nat → Nat := id

/-- `ORDER BY next_due_at` -/
def dueLe (tie : Nat → Nat) (m n : MonitorItem) : Prop :=
  m.nextDueAt < n.nextDueAt ∨ (m.nextDueAt = n.nextDueAt ∧ tie m.id ≤ tie n.id)

instance (tie : Nat → Nat) : DecidableRel (dueLe tie) := fun m n => by
  unfold dueLe
  infer_instance

namespace Query
variable (q : Query) (rows : List MonitorItem) (held : Nat → Bool)

def available : List MonitorItem :=
  rows.filter fun m => m.enabled && m.nextDueAt ≤ q.now && !held m.id

def locked : List MonitorItem :=
  ((q.available rows held).insertionSort (dueLe q.lockTie)).take q.oversample

/-- `row_number()` counts from one, so that `rn <= :per_vantage` is a rank below it. -/
def claimed : List MonitorItem :=
  shares vantage (dueLe q.rankTie) (dueLe q.cutTie) q.perVantage q.batch (q.locked rows held)

def postponed (m : MonitorItem) : MonitorItem :=
  { m with nextDueAt := q.now+m.intervalSecs+q.jitter m.id }

end Query

/-- A claimer's transaction: the rows it locked and the rows it wrote. -/
structure Transaction where
  locked : List Nat
  updated : List MonitorItem

def Transaction.apply (t : Transaction) (m : MonitorItem) : MonitorItem :=
  (t.updated.find? (·.id = m.id)).getD m

/-- The rows as they are committed, and the transactions that are open. -/
structure State where
  rows : List MonitorItem
  open_ : List Transaction := []
  nodup : (rows.map (·.id)).Nodup

def State.held (s : State) (i : Nat) : Bool := s.open_.any (i ∈ ·.locked)

theorem apply_id (t : Transaction) (m : MonitorItem) : (t.apply m).id = m.id := by
  rw [Transaction.apply]
  cases h : t.updated.find? (·.id = m.id) with
  | none => rfl
  | some u => simpa using find?_some h

theorem apply_ids (t : Transaction) (rows : List MonitorItem) :
    (rows.map t.apply).map (·.id) = rows.map (·.id) := by
  rw [map_map]
  exact map_congr_left fun m _ => apply_id t m

def State.begin (s : State) (q : Query) : State :=
  { s with
    open_ := s.open_++[⟨(q.locked s.rows s.held).map (·.id),
      (q.claimed s.rows s.held).map q.postponed⟩] }

inductive Act where
  | claim (q : Query)
  | commit
  | rollback
  | edit

inductive Step : State → Act → State → Prop where
  | claim (s : State) (q : Query) : Step s (.claim q) (s.begin q)
  | commit {s : State} {before after : List Transaction} {t : Transaction} :
      s.open_ = before++t::after →
      Step s .commit ⟨s.rows.map t.apply,before++after,by rw [apply_ids]; exact s.nodup⟩
  | rollback {s : State} {before after : List Transaction} {t : Transaction} :
      s.open_ = before++t::after → Step s .rollback ⟨s.rows,before++after,s.nodup⟩
  | edit (s : State) {rows : List MonitorItem} (nodup : (rows.map (·.id)).Nodup) :
      Step s .edit ⟨rows,s.open_,nodup⟩

/-- What a claim takes: due rows that nobody else has locked; of each vantage the most overdue; of the
rows it locks, which are the most overdue of all, something of every vantage if the batch has room, and
no vantage's next before every other's turn. -/
structure Fair (q : Query) (rows : List MonitorItem) (held : Nat → Bool) : Prop where
  batch : (q.claimed rows held).length ≤ q.batch
  share : ∀ v, ((q.claimed rows held).filter (vantage · = v)).length ≤ q.perVantage
  free : ∀ m ∈ q.claimed rows held, m ∈ q.locked rows held ∧ held m.id = false
  overdue : ∀ m ∈ q.claimed rows held, ∀ n ∈ q.available rows held, vantage n = vantage m →
    n.nextDueAt < m.nextDueAt → n ∈ q.claimed rows held
  oldest : ∀ m ∈ q.locked rows held, ∀ n ∈ q.available rows held, n.nextDueAt < m.nextDueAt →
    n ∈ q.locked rows held
  whole : (q.available rows held).length ≤ q.oversample →
    ∀ n ∈ q.available rows held, n ∈ q.locked rows held
  served : ((q.locked rows held).map vantage).dedup.length ≤ q.batch → 0 < q.perVantage →
    ∀ n ∈ q.locked rows held, ∃ m ∈ q.claimed rows held, vantage m = vantage n
  rounds : ∀ k v w, k < ((q.claimed rows held).filter (vantage · = v)).length →
    min k ((q.locked rows held).filter (vantage · = w)).length ≤
      ((q.claimed rows held).filter (vantage · = w)).length

instance (tie : Nat → Nat) : Std.Total (dueLe tie) := ⟨fun m n => by
  unfold dueLe
  omega⟩

instance (tie : Nat → Nat) : IsTrans MonitorItem (dueLe tie) := ⟨fun l m n hlm hmn => by
  unfold dueLe at *
  omega⟩

theorem not_dueLe {tie : Nat → Nat} {m n : MonitorItem} (h : n.nextDueAt < m.nextDueAt) :
    ¬dueLe tie m n := by
  unfold dueLe
  omega

section
variable {q : Query} {rows : List MonitorItem} {held : Nat → Bool}

theorem mem_available {m : MonitorItem} : m ∈ q.available rows held ↔
    m ∈ rows ∧ (m.enabled = true ∧ m.nextDueAt ≤ q.now) ∧ held m.id = false := by
  simp [Query.available]

theorem locked_available {m : MonitorItem} (h : m ∈ q.locked rows held) :
    m ∈ q.available rows held :=
  (mem_insertionSort _).1 (mem_of_mem_take h)

theorem locked_oldest {m n : MonitorItem} (hm : m ∈ q.locked rows held)
    (hn : n ∈ q.available rows held) (older : n.nextDueAt < m.nextDueAt) :
    n ∈ q.locked rows held :=
  take_closed (pairwise_insertionSort (dueLe q.lockTie) _) hm ((mem_insertionSort _).2 hn)
    (not_dueLe older)

theorem locked_nodup (nodup : (rows.map (·.id)).Nodup) : (q.locked rows held).Nodup := by
  have distinct : (q.available rows held).Nodup := (List.Nodup.of_map _ nodup).filter _
  exact ((perm_insertionSort _ _).nodup_iff.2 distinct).sublist (take_sublist _ _)

theorem claim_fair (nodup : (rows.map (·.id)).Nodup) : Fair q rows held := by
  have distinct := @locked_nodup q rows held nodup
  refine ⟨length_shares,class_shares distinct,fun m hm => ?_,fun m hm n hn same older => ?_,
    fun m hm n hn => locked_oldest hm hn,fun few n hn => ?_,fun few some_ n hn => ?_,
    fun k v w many => rounds_of_count distinct many⟩
  · have inside := (mem_of_shares hm).1
    exact ⟨inside,(mem_available.1 (locked_available inside)).2.2⟩
  · have inside := (mem_of_shares hm).1
    have also := locked_oldest inside hn older
    exact shares_closed hm also (rank_lt inside also same.symm (not_dueLe older))
  · rw [Query.locked,take_of_length_le]
    · exact (mem_insertionSort _).2 hn
    · rwa [length_insertionSort]
  · exact all_served distinct few some_ hn

end

/-! Claimers side by side. -/

/-- Open transactions have locked different rows, and written only what they locked. -/
structure Apart (s : State) : Prop where
  pairwise : s.open_.Pairwise fun t u => ∀ i ∈ t.locked, i ∉ u.locked
  inside : ∀ t ∈ s.open_, ∀ m ∈ t.updated, m.id ∈ t.locked

theorem Apart.fewer {s t : State} (h : Apart s) (sub : t.open_.Sublist s.open_) : Apart t where
  pairwise := h.pairwise.sublist sub
  inside u hu := h.inside u (sub.subset hu)

theorem Apart.begin {s : State} (h : Apart s) (q : Query) : Apart (s.begin q) where
  pairwise := by
    refine pairwise_append.2 ⟨h.pairwise,pairwise_singleton _ _,fun t ht u hu i hi => ?_⟩
    rw [mem_singleton.1 hu]
    intro there
    obtain ⟨m,hm,rfl⟩ := mem_map.1 there
    have free := (mem_available.1 (locked_available hm)).2.2
    have taken : s.held m.id = true := any_eq_true.2 ⟨t,ht,decide_eq_true hi⟩
    rw [taken] at free
    cases free
  inside t ht m hm := by
    rcases mem_append.1 ht with ht | ht
    · exact h.inside t ht m hm
    · rw [mem_singleton.1 ht] at hm ⊢
      obtain ⟨n,hn,rfl⟩ := mem_map.1 hm
      exact mem_map.2 ⟨n,(mem_of_shares hn).1,rfl⟩

theorem Apart.step {s t : State} {act : Act} (h : Apart s) (step : Step s act t) : Apart t := by
  cases step with
  | claim q => exact h.begin q
  | @commit before after u eq | @rollback before after u eq =>
    refine h.fewer ?_
    rw [eq]
    exact (List.Sublist.refl before).append (sublist_cons_self u after)
  | edit nodup => exact ⟨h.pairwise,h.inside⟩

/-- Whatever claimers and others have done, open claimers have claimed different monitors, and the next
claim is fair. -/
theorem claims_fair {start s : State} {acts : List Act} (none : start.open_ = [])
    (run : Run Step start acts s) (q : Query) :
    (s.open_.Pairwise fun t u => ∀ m ∈ t.updated, ∀ n ∈ u.updated, m.id ≠ n.id) ∧
      Fair q s.rows s.held := by
  have initial : Apart start := ⟨by rw [none]; exact .nil,by rw [none]; exact nofun⟩
  have apart := run.invariant (fun _ _ _ h step => h.step step) initial
  refine ⟨apart.pairwise.imp_of_mem fun ht hu different m hm n hn same => ?_,claim_fair s.nodup⟩
  exact different _ (apart.inside _ ht m hm) (same ▸ apart.inside _ hu n hn)

def threeDue : State where
  rows := [{ id := 1, nextDueAt := 1 },{ id := 2, nextDueAt := 2 },
    { id := 3, nextDueAt := 3, probeAgentId := some 7 }]
  nodup := by decide

theorem second_fair : ∃ acts s, Run Step threeDue acts s ∧
    s.open_.map (·.locked) = [[1,2],[3]] ∧
    (s.open_.Pairwise fun t u => ∀ m ∈ t.updated, ∀ n ∈ u.updated, m.id ≠ n.id) ∧
    Fair { now := 10 } s.rows s.held := by
  have first := (Run.nil threeDue).snoc (Step.claim _ { now := 10, oversample := 2 })
  have second := first.snoc (Step.claim _ { now := 10 })
  exact ⟨_,_,second,by decide,claims_fair rfl second { now := 10 }⟩

def fourDue : List MonitorItem :=
  [{ id := 1, nextDueAt := 1 },{ id := 2, nextDueAt := 2 },
    { id := 3, nextDueAt := 3, probeAgentId := some 7 },
    { id := 4, nextDueAt := 4, probeAgentId := some 7 }]

/-- Two vantages and room for two, but the two most overdue rows are the server's. And with room for
three, the server gets its second while the agent, with two due, has got one. -/
theorem vantage_left_out :
    (threeDue.rows.map vantage).dedup.length ≤ 2 ∧
    ¬(∀ n ∈ threeDue.rows, ∃ m ∈ { now := 10, batch := 2, oversample := 2 : Query }.claimed
      threeDue.rows fun _ => false, vantage m = vantage n) ∧
    ¬(∀ k v w,
      k ≤ (({ now := 10, batch := 3 : Query }.claimed fourDue fun _ => false).filter
        (vantage · = v)).length →
      min k (fourDue.filter (vantage · = w)).length ≤
        (({ now := 10, batch := 3 : Query }.claimed fourDue fun _ => false).filter
          (vantage · = w)).length) := by
  refine ⟨by decide,fun served => ?_,fun rounds => ?_⟩
  · exact absurd (served { id := 3, nextDueAt := 3, probeAgentId := some 7 } (by decide))
      (by decide)
  · exact absurd (rounds 2 0 7 (by decide)) (by decide)

end CircuitBreaker.FairClaims
