import Mathlib.Data.Finset.Prod
import Mathlib.Data.List.Basic
import Mathlib.Order.Interval.Finset.Nat
import Mathlib.Algebra.GroupWithZero.Nat

/-! Blocks of `2^k` numbers that start at a multiple of `2^k`: two of them are nested or
disjoint, and the numbers in disjoint ones are counted by adding their sizes. Blocks belong to
families, and blocks of two families share nothing. -/

namespace BinaryBlocks

/-- Numbers of one block are in one block of any larger size. -/
theorem div_block {a b j k : Nat} (h : a/2^j = b/2^j) (hle : j ≤ k) : a/2^k = b/2^k := by
  have split : ∀ n : Nat, n/2^k = n/2^j/2^(k-j) := fun n => by
    rw [Nat.div_div_eq_div_mul,←Nat.pow_add,Nat.add_sub_cancel' hle]
  rw [split a,split b,h]

structure Block (κ : Type) where
  family : κ
  start : Nat
  bits : Nat
  aligned : 2^bits ∣ start

variable {κ : Type}

def Block.members (b : Block κ) : Finset (κ × Nat) :=
  {b.family} ×ˢ Finset.Ico b.start (b.start+2^b.bits)

theorem mem_members {b : Block κ} {x : κ × Nat} :
    x ∈ b.members ↔ x.1 = b.family ∧ b.start ≤ x.2 ∧ x.2 < b.start+2^b.bits := by
  rw [Block.members,Finset.mem_product,Finset.mem_singleton,Finset.mem_Ico]

theorem card_members (b : Block κ) : b.members.card = 2^b.bits := by
  simp [Block.members]

theorem mem_members_div {b : Block κ} {x : κ × Nat} :
    x ∈ b.members ↔ x.1 = b.family ∧ x.2/2^b.bits = b.start/2^b.bits := by
  have pos := Nat.two_pow_pos b.bits
  obtain ⟨q,hq⟩ := b.aligned
  rw [mem_members,hq,Nat.mul_div_cancel_left _ pos,Nat.div_eq_iff pos,Nat.mul_comm]
  refine and_congr_right fun _ => and_congr_right fun _ => ?_
  omega

/-- A block is inside a larger one or apart from it. -/
theorem nested_or_disjoint {b c : Block κ} (h : b.bits ≤ c.bits) :
    b.members ⊆ c.members ∨ Disjoint b.members c.members := by
  by_cases common : ∃ x, x ∈ b.members ∧ x ∈ c.members
  · obtain ⟨x,hb,hc⟩ := common
    rw [mem_members_div] at hb hc
    refine .inl fun y hy => ?_
    rw [mem_members_div] at hy ⊢
    have same : y.2/2^c.bits = x.2/2^c.bits := div_block (hy.2.trans hb.2.symm) h
    exact ⟨hy.1.trans (hb.1.symm.trans hc.1),same.trans hc.2⟩
  · exact .inr (Finset.disjoint_left.mpr fun x hb hc => common ⟨x,hb,hc⟩)

variable [DecidableEq κ]

/-- What is in any block of a list. -/
def cover : List (Block κ) → Finset (κ × Nat)
  | [] => ∅
  | b :: bs => b.members ∪ cover bs

theorem mem_cover {bs : List (Block κ)} {x : κ × Nat} : x ∈ cover bs ↔ ∃ b ∈ bs, x ∈ b.members := by
  induction bs with
  | nil => simp [cover]
  | cons b bs ih => simp [cover,ih]

theorem cover_append (bs cs : List (Block κ)) : cover (bs++cs) = cover bs ∪ cover cs := by
  induction bs with
  | nil => simp [cover]
  | cons b bs ih => rw [List.cons_append,cover,cover,ih,Finset.union_assoc]

/-- The blocks of a list have nothing in common. -/
def Apart (bs : List (Block κ)) : Prop := bs.Pairwise fun b c => Disjoint b.members c.members

theorem disjoint_cover {b : Block κ} {bs : List (Block κ)}
    (h : ∀ c ∈ bs, Disjoint b.members c.members) : Disjoint b.members (cover bs) := by
  refine Finset.disjoint_left.mpr fun x hb hc => ?_
  obtain ⟨c,mem,hc⟩ := mem_cover.mp hc
  exact Finset.disjoint_left.mp (h c mem) hb hc

/-- Blocks apart from each other hold as many numbers as their sizes add up to. -/
theorem card_cover {bs : List (Block κ)} (h : Apart bs) :
    (cover bs).card = (bs.map fun b => 2^b.bits).sum := by
  induction bs with
  | nil => rfl
  | cons b bs ih =>
    obtain ⟨hb,rest⟩ := List.pairwise_cons.mp h
    rw [cover,Finset.card_union_of_disjoint (disjoint_cover hb),card_members,ih rest,List.map_cons,
      List.sum_cons]

end BinaryBlocks
