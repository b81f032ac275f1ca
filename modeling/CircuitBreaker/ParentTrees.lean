import Mathlib.Data.List.Nodup
import Mathlib.Data.List.Perm.Basic
import Mathlib.Logic.Relation

/-! Rooted trees given by the list of their edges, from parent to child, and how they grow. -/

namespace ParentTrees
open List

variable {α : Type}

/-- Along an edge, from parent to child. -/
def Child (edges : List (α × α)) (u v : α) : Prop := (u,v) ∈ edges

section
variable [DecidableEq α]

/-- One edge fewer than nodes, none into the root, one into every other node, all reached from the
root, and no cycle. -/
structure RootedTree (nodes : List α) (edges : List (α × α)) (root : α) : Prop where
  root_mem : root ∈ nodes
  count : edges.length+1 = nodes.length
  inside : ∀ e ∈ edges, e.1 ∈ nodes ∧ e.2 ∈ nodes
  no_parent : ∀ e ∈ edges, e.2 ≠ root
  one_parent : ∀ v ∈ nodes, v ≠ root → (edges.filter (·.2 = v)).length = 1
  reached : ∀ v ∈ nodes, Relation.ReflTransGen (Child edges) root v
  acyclic : ∀ v, ¬Relation.TransGen (Child edges) v v

variable {nodes : List α} {edges : List (α × α)} {root : α}

theorem RootedTree.perm {nodes' : List α}
    (h : RootedTree nodes edges root) (perm : nodes.Perm nodes') : RootedTree nodes' edges root where
  root_mem := perm.subset h.root_mem
  count := perm.length_eq ▸ h.count
  inside e he := ⟨perm.subset (h.inside e he).1,perm.subset (h.inside e he).2⟩
  no_parent := h.no_parent
  one_parent v hv := h.one_parent v (perm.symm.subset hv)
  reached v hv := h.reached v (perm.symm.subset hv)
  acyclic := h.acyclic

theorem RootedTree.nodup
    (h : RootedTree nodes edges root) : edges.Nodup := by
  refine nodup_iff_count_le_one.2 fun e => ?_
  by_cases he : e ∈ edges
  · have one := h.one_parent e.2 (h.inside e he).2 (h.no_parent e he)
    rw [←one,←countP_eq_length_filter]
    refine countP_mono_left fun f _ same => ?_
    rw [eq_of_beq same]
    exact decide_eq_true rfl
  · rw [count_eq_zero_of_not_mem he]
    exact Nat.zero_le _

theorem RootedTree.root_unique {root' : α}
    (h : RootedTree nodes edges root) (h' : RootedTree nodes edges root') : root' = root := by
  by_contra other
  have one := h.one_parent root' h'.root_mem other
  obtain ⟨e,he⟩ := exists_mem_of_length_pos (lt_of_lt_of_eq Nat.zero_lt_one one.symm)
  obtain ⟨mem,into⟩ := mem_filter.1 he
  exact h'.no_parent e mem (of_decide_eq_true into)

end

/-- Nodes and edges in the order in which children are added to nodes there are. -/
inductive Grown (root : α) : List α → List (α × α) → Prop where
  | root : Grown root [root] []
  | child {nodes : List α} {edges : List (α × α)} {u v : α} :
      Grown root nodes edges → u ∈ nodes → v ∉ nodes → Grown root (nodes++[v]) (edges++[(u,v)])

variable {root : α} {nodes : List α} {edges : List (α × α)}

theorem Grown.inside
    (h : Grown root nodes edges) : ∀ e ∈ edges, e.1 ∈ nodes ∧ e.2 ∈ nodes := by
  induction h with
  | root => exact fun e he => absurd he not_mem_nil
  | @child nodes edges u v grown hu hv ih =>
    intro e he
    rcases mem_append.1 he with he | he
    · exact ⟨mem_append_left _ (ih e he).1,mem_append_left _ (ih e he).2⟩
    · rw [mem_singleton.1 he]
      exact ⟨mem_append_left _ hu,mem_append_right _ mem_cons_self⟩

theorem Grown.root_mem
    (h : Grown root nodes edges) : root ∈ nodes := by
  induction h with
  | root => exact mem_cons_self
  | child _ _ _ ih => exact mem_append_left _ ih

section
variable [DecidableEq α]

/-- A parent is there before its child. -/
theorem Grown.earlier {root : α} {nodes : List α} {edges : List (α × α)}
    (h : Grown root nodes edges) : ∀ u v, Child edges u v → nodes.idxOf u < nodes.idxOf v := by
  induction h with
  | root => exact fun _ _ he => absurd he not_mem_nil
  | @child nodes edges u v grown hu hv ih =>
    intro a b he
    rcases mem_append.1 he with he | he
    · obtain ⟨ha,hb⟩ := grown.inside _ he
      rw [idxOf_append_of_mem ha,idxOf_append_of_mem hb]
      exact ih a b he
    · obtain ⟨rfl,rfl⟩ := Prod.mk.inj (mem_singleton.1 he)
      rw [idxOf_append_of_mem hu,idxOf_append_of_notMem hv]
      exact Nat.lt_of_lt_of_le (idxOf_lt_length_iff.2 hu) (Nat.le_add_right _ _)

theorem Grown.tree {root : α} {nodes : List α} {edges : List (α × α)}
    (h : Grown root nodes edges) : RootedTree nodes edges root := by
  have rising : ∀ u v, Relation.TransGen (Child edges) u v → nodes.idxOf u < nodes.idxOf v := by
    intro u v path
    induction path with
    | single last => exact h.earlier _ _ last
    | tail _ last ih => exact Nat.lt_trans ih (h.earlier _ _ last)
  refine ⟨h.root_mem,?_,h.inside,?_,?_,?_,fun v path => Nat.lt_irrefl _ (rising v v path)⟩
  · clear rising
    induction h with
    | root => rfl
    | child _ _ _ ih =>
      rw [length_append,length_append,length_singleton,length_singleton,ih]
  · clear rising
    induction h with
    | root => exact fun _ he => absurd he not_mem_nil
    | @child nodes edges u v grown hu hv ih =>
      intro e he
      rcases mem_append.1 he with he | he
      · exact ih e he
      · rw [mem_singleton.1 he]
        intro same
        rw [←same] at grown
        exact hv grown.root_mem
  · clear rising
    induction h with
    | root => exact fun v hv other => absurd (mem_singleton.1 hv) other
    | @child nodes edges u w grown hu hw ih =>
      intro v hv other
      rw [filter_append]
      rcases mem_append.1 hv with old | new
      · have differs : w ≠ v := fun same => hw (same ▸ old)
        rw [filter_singleton,decide_eq_false differs]
        simpa using ih v old other
      · have none : edges.filter (·.2 = w) = [] := filter_eq_nil_iff.2 fun e he into =>
          hw (of_decide_eq_true into ▸ (grown.inside e he).2)
        rw [mem_singleton.1 new,none]
        simp
  · clear rising
    induction h with
    | root =>
      intro v hv
      rw [mem_singleton.1 hv]
    | @child nodes edges u w grown hu hw ih =>
      have wider : ∀ a b, Child edges a b → Child (edges++[(u,w)]) a b := fun _ _ he =>
        mem_append_left _ he
      intro v hv
      rcases mem_append.1 hv with old | new
      · exact Relation.ReflTransGen.mono wider _ _ (ih v old)
      · rw [mem_singleton.1 new]
        exact (Relation.ReflTransGen.mono wider _ _ (ih u hu)).tail (mem_append_right _ mem_cons_self)

end

/-- Children of nodes there are, one after the other. -/
theorem Grown.leaves {new : List (α × α)}
    (h : Grown root nodes edges) (parents : ∀ e ∈ new, e.1 ∈ nodes)
    (nodup : (nodes++new.map Prod.snd).Nodup) :
    Grown root (nodes++new.map Prod.snd) (edges++new) := by
  induction new generalizing nodes edges with
  | nil => simpa using h
  | cons e new ih =>
    have fresh : e.2 ∉ nodes := fun hin =>
      (nodup_append.1 nodup).2.2 _ hin _ mem_cons_self rfl
    have grown := h.child (parents e mem_cons_self) fresh
    have more := @ih (nodes++[e.2]) (edges++[(e.1,e.2)]) grown
      (fun f hf => mem_append_left _ (parents f (mem_cons_of_mem _ hf)))
      (by simpa using nodup)
    simpa using more

end ParentTrees
