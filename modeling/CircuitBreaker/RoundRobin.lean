import Mathlib.Data.List.Sort
import Mathlib.Data.List.Dedup
import Mathlib.Data.List.Nodup
import Mathlib.Data.List.Perm.Subperm

/-! Round-robin shares: the items of each class are ranked, of each class the first `per` are kept,
and of these the first `batch` are taken, by rank and then by an order of their own. -/

namespace RoundRobin
open List

section
variable {α : Type} {R : α → α → Prop} {l : List α} {n : Nat} {a b : α}

/-- What is strictly before a taken item is taken. -/
theorem take_closed (sorted : l.Pairwise R) (ha : a ∈ l.take n) (hb : b ∈ l) (before : ¬R a b) :
    b ∈ l.take n := by
  rw [←take_append_drop n l] at sorted hb
  rcases mem_append.1 hb with hb | hb
  · exact hb
  · exact absurd ((pairwise_append.1 sorted).2.2 a ha b hb) before

theorem before_left_out (sorted : l.Pairwise R) (ha : a ∈ l.take n) (hb : b ∈ l)
    (out : b ∉ l.take n) : R a b := by
  rw [←take_append_drop n l] at sorted hb
  rcases mem_append.1 hb with hb | hb
  · exact absurd hb out
  · exact (pairwise_append.1 sorted).2.2 a ha b hb

theorem idxOf_lt [DecidableEq α] (sorted : l.Pairwise R) (ha : a ∈ l) (hb : b ∈ l)
    (before : ¬R a b) (other : a ≠ b) : l.idxOf b < l.idxOf a := by
  by_contra later
  have ha' := idxOf_lt_length_of_mem ha
  have hb' := idxOf_lt_length_of_mem hb
  rcases lt_or_ge (l.idxOf a) (l.idxOf b) with lt | ge
  · have := pairwise_iff_getElem.1 sorted _ _ ha' hb' lt
    rw [getElem_idxOf,getElem_idxOf] at this
    exact before this
  · have same : l.idxOf a = l.idxOf b := by omega
    exact other ((idxOf_inj ha).1 same)

end

section
variable {α κ : Type} [DecidableEq α] [DecidableEq κ]
variable (cls : α → κ) (le : α → α → Prop) [DecidableRel le]

/-- The items of a class, in order. -/
def column (l : List α) (k : κ) : List α := (l.filter (cls · = k)).insertionSort le

/-- An item's place among those of its class. -/
def rank (l : List α) (a : α) : Nat := (column cls le l (cls a)).idxOf a

variable (cut : α → α → Prop) [DecidableRel cut]

/-- By rank, and by `cut` within a rank. -/
def Before (l : List α) (a b : α) : Prop :=
  rank cls le l a < rank cls le l b ∨ (rank cls le l a = rank cls le l b ∧ cut a b)

instance (l : List α) : DecidableRel (Before cls le cut l) := fun a b => by
  unfold Before
  infer_instance

/-- The items that can be taken, in the order they are. -/
def queue (per : Nat) (l : List α) : List α :=
  (l.filter fun a => rank cls le l a < per).insertionSort (Before cls le cut l)

def shares (per batch : Nat) (l : List α) : List α := (queue cls le cut per l).take batch

end

section
variable {α κ : Type} [DecidableEq α] [DecidableEq κ]
variable {cls : α → κ} {le : α → α → Prop} [DecidableRel le] {cut : α → α → Prop} [DecidableRel cut]
variable {per batch : Nat} {l : List α} {a b : α} {k : κ}

omit [DecidableEq α] in
theorem column_perm (l : List α) (k : κ) : (column cls le l k).Perm (l.filter (cls · = k)) :=
  perm_insertionSort _ _

omit [DecidableEq α] in
theorem mem_column : a ∈ column cls le l k ↔ a ∈ l ∧ cls a = k := by
  rw [(column_perm l k).mem_iff,mem_filter,decide_eq_true_eq]

omit [DecidableEq α] in
theorem mem_own (ha : a ∈ l) : a ∈ column cls le l (cls a) := mem_column.2 ⟨ha,rfl⟩

theorem rank_inj (ha : a ∈ l) (same : cls a = cls b)
    (equal : rank cls le l a = rank cls le l b) : a = b := by
  rw [rank,rank,←same] at equal
  exact (idxOf_inj (mem_own ha)).1 equal

theorem mem_queue : a ∈ queue cls le cut per l ↔ a ∈ l ∧ rank cls le l a < per := by
  rw [queue,mem_insertionSort,mem_filter,decide_eq_true_eq]

theorem mem_of_shares (ha : a ∈ shares cls le cut per batch l) : a ∈ l ∧ rank cls le l a < per :=
  mem_queue.1 (mem_of_mem_take ha)

theorem queue_nodup (nodup : l.Nodup) : (queue cls le cut per l).Nodup :=
  (perm_insertionSort _ _).nodup_iff.2 (nodup.filter _)

theorem shares_nodup (nodup : l.Nodup) : (shares cls le cut per batch l).Nodup :=
  (queue_nodup nodup).sublist (take_sublist _ _)

theorem length_shares : (shares cls le cut per batch l).length ≤ batch := length_take_le _ _

/-- Of a class no more are taken than there are ranks that they have. -/
theorem class_le (nodup : l.Nodup) {n : Nat}
    (below : ∀ a ∈ shares cls le cut per batch l, cls a = k → rank cls le l a < n) :
    ((shares cls le cut per batch l).filter (cls · = k)).length ≤ n := by
  have ranks : (((shares cls le cut per batch l).filter (cls · = k)).map (rank cls le l)).Nodup := by
    refine ((shares_nodup nodup).filter _).map_on fun a ha b hb equal => ?_
    obtain ⟨ha,ka⟩ := mem_filter.1 ha
    obtain ⟨hb,kb⟩ := mem_filter.1 hb
    have same : cls a = cls b := (of_decide_eq_true ka).trans (of_decide_eq_true kb).symm
    exact rank_inj (mem_of_shares ha).1 same equal
  have small := subperm_of_subset ranks fun r hr => by
    obtain ⟨a,ha,rfl⟩ := mem_map.1 hr
    obtain ⟨ha,ka⟩ := mem_filter.1 ha
    exact mem_range.2 (below a ha (of_decide_eq_true ka))
  have := small.length_le
  rwa [length_map,length_range] at this

/-- At most `per` of a class are taken. -/
theorem class_shares (nodup : l.Nodup) (k : κ) :
    ((shares cls le cut per batch l).filter (cls · = k)).length ≤ per :=
  class_le nodup fun _ ha _ => (mem_of_shares ha).2

section
variable [Std.Total cut] [IsTrans α cut]

instance : Std.Total (Before cls le cut l) := ⟨fun a b => by
  rcases Nat.lt_trichotomy (rank cls le l a) (rank cls le l b) with less | equal | more
  · exact .inl (.inl less)
  · rcases Std.Total.total (r := cut) a b with ab | ba
    · exact .inl (.inr ⟨equal,ab⟩)
    · exact .inr (.inr ⟨equal.symm,ba⟩)
  · exact .inr (.inl more)⟩

instance : IsTrans α (Before cls le cut l) := ⟨fun a b c hab hbc => by
  rcases hab with hab | ⟨hab,cab⟩
  · rcases hbc with hbc | ⟨hbc,-⟩
    · exact .inl (Nat.lt_trans hab hbc)
    · exact .inl (hbc ▸ hab)
  · rcases hbc with hbc | ⟨hbc,cbc⟩
    · exact .inl (hab ▸ hbc)
    · exact .inr ⟨hab.trans hbc,IsTrans.trans _ _ _ cab cbc⟩⟩

theorem queue_sorted : (queue cls le cut per l).Pairwise (Before cls le cut l) :=
  pairwise_insertionSort _ _

/-- An item of a lower rank than a taken one is taken. -/
theorem shares_closed (ha : a ∈ shares cls le cut per batch l) (hb : b ∈ l)
    (lower : rank cls le l b < rank cls le l a) : b ∈ shares cls le cut per batch l := by
  have within := (mem_of_shares ha).2
  refine take_closed queue_sorted ha (mem_queue.2 ⟨hb,lt_trans lower within⟩) fun before => ?_
  rcases before with less | ⟨equal,-⟩
  · omega
  · omega

/-- When an item of a rank is taken, every class has had its turns of the lower ranks. -/
theorem rounds (nodup : l.Nodup) (ha : a ∈ shares cls le cut per batch l) (k : κ) :
    min (rank cls le l a) (l.filter (cls · = k)).length ≤
      ((shares cls le cut per batch l).filter (cls · = k)).length := by
  have perm := @column_perm _ _ _ cls le _ l k
  have distinct : (column cls le l k).Nodup := perm.nodup_iff.2 (nodup.filter _)
  have turns : (column cls le l k).take (rank cls le l a) ⊆
      (shares cls le cut per batch l).filter (cls · = k) := by
    intro b hb
    obtain ⟨i,hi,rfl⟩ := mem_iff_getElem.1 hb
    rw [getElem_take]
    rw [length_take] at hi
    have inside : i < (column cls le l k).length := by omega
    obtain ⟨hl,hk⟩ := mem_column.1 (getElem_mem inside)
    have place : rank cls le l (column cls le l k)[i] = i := by
      rw [rank,hk]
      exact distinct.idxOf_getElem i inside
    refine mem_filter.2 ⟨shares_closed ha hl ?_,decide_eq_true hk⟩
    omega
  have := (subperm_of_subset (distinct.sublist (take_sublist _ _)) turns).length_le
  rwa [length_take,perm.length_eq] at this

/-- While one class has fewer than `n` and could have more, none has more than `n`. -/
theorem rounds_of_count (nodup : l.Nodup) {n : Nat} {k k' : κ}
    (many : n < ((shares cls le cut per batch l).filter (cls · = k)).length) :
    min n (l.filter (cls · = k')).length ≤
      ((shares cls le cut per batch l).filter (cls · = k')).length := by
  have late : ∃ a ∈ shares cls le cut per batch l, n ≤ rank cls le l a := by
    by_contra none
    have := class_le (k := k) nodup fun a ha _ =>
      lt_of_not_ge fun late => none ⟨a,ha,late⟩
    omega
  obtain ⟨a,ha,late⟩ := late
  have turns := rounds nodup ha k'
  omega

/-- With no more classes than places, every class gets a share. -/
theorem all_served (nodup : l.Nodup) (few : (l.map cls).dedup.length ≤ batch) (some_ : 0 < per)
    (hb : b ∈ l) : ∃ a ∈ shares cls le cut per batch l, cls a = cls b := by
  by_contra none
  have filled : 0 < (column cls le l (cls b)).length := length_pos_of_mem (mem_own hb)
  have distinct : (column cls le l (cls b)).Nodup := (column_perm l _).nodup_iff.2 (nodup.filter _)
  obtain ⟨hx,kx⟩ := mem_column.1 (getElem_mem filled)
  generalize hfirst : (column cls le l (cls b))[0] = x at hx kx
  have first : rank cls le l x = 0 := by
    rw [rank,kx,←hfirst]
    exact distinct.idxOf_getElem 0 filled
  have waits : x ∈ queue cls le cut per l := mem_queue.2 ⟨hx,by omega⟩
  have out : x ∉ shares cls le cut per batch l := fun there => none ⟨x,there,kx⟩
  have firsts : ∀ a ∈ shares cls le cut per batch l, rank cls le l a = 0 := by
    intro a ha
    rcases before_left_out queue_sorted ha waits out with less | ⟨equal,-⟩
    · omega
    · omega
  have full : (shares cls le cut per batch l).length = batch := by
    rw [shares,length_take]
    refine Nat.min_eq_left (Nat.le_of_not_lt fun short => out ?_)
    rw [shares,take_of_length_le (Nat.le_of_lt short)]
    exact waits
  have classes : (cls x::(shares cls le cut per batch l).map cls).Nodup := by
    refine nodup_cons.2 ⟨fun there => ?_,(shares_nodup nodup).map_on fun a ha a' ha' same => ?_⟩
    · obtain ⟨a,ha,same⟩ := mem_map.1 there
      exact none ⟨a,ha,same.trans kx⟩
    · exact rank_inj (mem_of_shares ha).1 same ((firsts a ha).trans (firsts a' ha').symm)
  have inside := @List.subperm_of_subset _ _ (l.map cls).dedup classes fun k hk => by
    rw [mem_dedup]
    rcases mem_cons.1 hk with rfl | hk
    · exact mem_map_of_mem hx
    · obtain ⟨a,ha,rfl⟩ := mem_map.1 hk
      exact mem_map_of_mem (mem_of_shares ha).1
  have := inside.length_le
  rw [length_cons,length_map,full] at this
  omega

end

section
variable [Std.Total le] [IsTrans α le]

/-- An item strictly before another of its class has a lower rank. -/
theorem rank_lt (ha : a ∈ l) (hb : b ∈ l) (same : cls a = cls b) (before : ¬le a b) :
    rank cls le l b < rank cls le l a := by
  have other : a ≠ b := fun eq => before (eq ▸ (Std.Total.total a a).elim id id)
  have sorted : (column cls le l (cls a)).Pairwise le := pairwise_insertionSort _ _
  have there : b ∈ column cls le l (cls a) := mem_column.2 ⟨hb,same.symm⟩
  rw [rank,rank,←same]
  exact idxOf_lt sorted (mem_own ha) there before other

end

end

end RoundRobin
