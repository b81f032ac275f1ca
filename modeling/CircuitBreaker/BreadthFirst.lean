import Mathlib.Data.List.Nodup
import Mathlib.Data.List.Induction
import Mathlib.Logic.Function.Basic

/-! Breadth-first search over edges that may be looped, parallel or dangling. The search may be
left off at any edge: what holds of it holds of every state it passes. -/

namespace BreadthFirst
open List

variable {V E : Type}

/-- `p` leads from `u` to `v`, each edge from where the one before it ended. -/
def Chain (src tgt : E → V) : V → List E → V → Prop
  | u,[],v => u = v
  | u,e::p,v => src e = u ∧ Chain src tgt (tgt e) p v

theorem chain_snoc {src tgt : E → V} {p : List E} {e : E} {u v : V} :
    Chain src tgt u (p++[e]) v ↔ Chain src tgt u p (src e) ∧ tgt e = v := by
  induction p generalizing u with
  | nil => simp [Chain,eq_comm]
  | cons a p ih => simp [Chain,ih,and_assoc]

/-- What a search has found: every vertex but the root by an edge. -/
structure Search (V E : Type) where
  visited : List V
  queue : List V
  predecessor : V → Option E
  depth : V → Nat
  used : List E

def start (root : V) : Search V E where
  visited := [root]
  queue := [root]
  predecessor := fun _ => none
  depth := fun _ => 0
  used := []

variable [DecidableEq V]

/-- The search leaves `u` by `e`, for a vertex that is new. -/
def Search.visit (s : Search V E) (tgt : E → V) (u : V) (e : E) : Search V E where
  visited := s.visited++[tgt e]
  queue := s.queue++[tgt e]
  predecessor := Function.update s.predecessor (tgt e) (some e)
  depth := Function.update s.depth (tgt e) (s.depth u+1)
  used := s.used++[e]

/-- The edges by which `current` was found, the last one first. -/
def backtrack (src : E → V) (predecessor : V → Option E) (root : V) : Nat → V → List E
  | 0,_ => []
  | n+1,current =>
    if current = root then [] else
      match predecessor current with
      | none => []
      | some e => e :: backtrack src predecessor root n (src e)

/-- The vertices visited are the closed ones, all whose edges were looked at, and the frontier,
of which only the first may have been looked at in part. -/
structure Sound (src tgt : E → V) (out : V → List E) (root : V) (s : Search V E)
    (closed frontier : List V) : Prop where
  split : s.visited = closed++frontier
  once : s.visited.Nodup
  found : s.visited = root::s.used.map tgt
  top : s.depth root = 0
  done : ∀ u ∈ closed,∀ e ∈ out u,tgt e ∈ s.visited ∧ s.depth (tgt e) ≤ s.depth u+1
  sorted : frontier.Pairwise fun x y => s.depth x ≤ s.depth y
  spread : ∀ x ∈ s.visited,∀ y ∈ frontier,s.depth x ≤ s.depth y+1
  back : ∀ x ∈ s.visited,x ≠ root → ∃ e,s.predecessor x = some e ∧ tgt e = x ∧ e ∈ out (src e) ∧
    src e ∈ s.visited ∧ s.depth x = s.depth (src e)+1
  bounded : ∀ x ∈ s.visited,s.depth x ≤ s.used.length

section

variable {src tgt : E → V} {out : V → List E} {root : V} {s : Search V E} {closed frontier : List V}

omit [DecidableEq V] in
theorem start_sound : Sound src tgt out root (start root : Search V E) [] [root] where
  split := rfl
  once := nodup_singleton root
  found := rfl
  top := rfl
  done := nofun
  sorted := pairwise_singleton _ _
  spread := fun _ _ _ _ => Nat.zero_le _
  back := fun _ hx ne => absurd (mem_singleton.1 hx) ne
  bounded := fun _ _ => Nat.zero_le _

omit [DecidableEq V] in
theorem Sound.root_visited (h : Sound src tgt out root s closed frontier) : root ∈ s.visited := by
  rw [h.found]
  exact mem_cons_self

/-- One more vertex is found from the head of the frontier. -/
theorem Sound.visit {u : V} {e : E} (h : Sound src tgt out root s closed (u::frontier))
    (leaves : src e = u) (he : e ∈ out u) (new : tgt e ∉ s.visited) :
    Sound src tgt out root (s.visit tgt u e) closed (u::(frontier++[tgt e])) := by
  have hu : u ∈ s.visited := by simp [h.split]
  have other : ∀ x ∈ s.visited,x ≠ tgt e := fun x hx eq => new (eq ▸ hx)
  have same : ∀ x ∈ s.visited,(s.visit tgt u e).depth x = s.depth x := fun x hx =>
    Function.update_of_ne (other x hx) _ _
  have last : (s.visit tgt u e).depth (tgt e) = s.depth u+1 := Function.update_self _ _ _
  have inside : ∀ y ∈ u::frontier,y ∈ s.visited := fun y hy => by
    rw [h.split]
    exact mem_append_right _ hy
  have above : ∀ y ∈ u::frontier,s.depth u ≤ s.depth y := fun y hy => by
    cases hy with
    | head => exact Nat.le_refl _
    | tail _ hy => exact (pairwise_cons.1 h.sorted).1 y hy
  constructor
  case split =>
    change s.visited++[tgt e] = _
    rw [h.split]
    simp
  case once =>
    refine nodup_append.2 ⟨h.once,nodup_singleton _,fun a ha b hb => ?_⟩
    rw [mem_singleton.1 hb]
    exact other a ha
  case found =>
    change s.visited++[tgt e] = root::(s.used++[e]).map tgt
    rw [h.found]
    simp
  case top => rw [same root h.root_visited,h.top]
  case done =>
    intro w hw a ha
    have hwv : w ∈ s.visited := by
      rw [h.split]
      exact mem_append_left _ hw
    obtain ⟨seen,near⟩ := h.done w hw a ha
    rw [same _ seen,same w hwv]
    exact ⟨mem_append_left _ seen,near⟩
  case sorted =>
    rw [←cons_append]
    refine pairwise_append.2 ⟨?_,pairwise_singleton _ _,fun a ha b hb => ?_⟩
    · refine h.sorted.imp_of_mem fun {a b} ha hb hab => ?_
      rw [same a (inside a ha),same b (inside b hb)]
      exact hab
    · rw [mem_singleton.1 hb,last,same a (inside a ha)]
      exact h.spread a (inside a ha) u mem_cons_self
  case spread =>
    intro x hx y hy
    rw [←cons_append] at hy
    have shallow : (s.visit tgt u e).depth x ≤ s.depth u+1 := by
      rcases mem_append.1 hx with hx | hx
      · rw [same x hx]
        exact h.spread x hx u mem_cons_self
      · exact Nat.le_of_eq (mem_singleton.1 hx ▸ last)
    rcases mem_append.1 hy with hy | hy
    · rw [same y (inside y hy)]
      have := above y hy
      omega
    · rw [mem_singleton.1 hy,last]
      omega
  case back =>
    intro x hx ne
    rcases mem_append.1 hx with hx | hx
    · obtain ⟨a,hp,ht,ha,hs,hd⟩ := h.back x hx ne
      refine ⟨a,?_,ht,ha,mem_append_left _ hs,?_⟩
      · exact (Function.update_of_ne (other x hx) _ _).trans hp
      · rw [same x hx,same _ hs,hd]
    · obtain rfl := mem_singleton.1 hx
      refine ⟨e,Function.update_self _ _ _,rfl,leaves.symm ▸ he,?_,?_⟩
      · exact mem_append_left _ (leaves.symm ▸ hu)
      · rw [last,leaves,same u hu]
  case bounded =>
    intro x hx
    have size : (s.visit tgt u e).used.length = s.used.length+1 := length_append
    rcases mem_append.1 hx with hx | hx
    · have := h.bounded x hx
      rw [same x hx]
      omega
    · have := h.bounded u hu
      rw [mem_singleton.1 hx,last]
      omega

omit [DecidableEq V] in
/-- The head of the frontier is closed once every edge out of it leads to a visited vertex. -/
theorem Sound.finish {u : V} (h : Sound src tgt out root s closed (u::frontier))
    (seen : ∀ e ∈ out u,tgt e ∈ s.visited) : Sound src tgt out root s (closed++[u]) frontier := by
  refine ⟨?_,h.once,h.found,h.top,fun w hw e he => ?_,(pairwise_cons.1 h.sorted).2,
    fun x hx y hy => h.spread x hx y (mem_cons_of_mem _ hy),h.back,h.bounded⟩
  · rw [h.split]
    simp
  · rcases mem_append.1 hw with hw | hw
    · exact h.done w hw e he
    · rw [mem_singleton.1 hw] at he ⊢
      exact ⟨seen e he,h.spread _ (seen e he) u mem_cons_self⟩

omit [DecidableEq V] in
/-- A vertex at the end of a chain is no deeper than the chain is long, and while it is not
visited some vertex of the frontier is less deep than that. -/
theorem Sound.near (h : Sound src tgt out root s closed frontier) {p : List E} {v : V}
    (hc : Chain src tgt root p v) (hp : ∀ e ∈ p,e ∈ out (src e)) :
    (v ∈ s.visited → s.depth v ≤ p.length) ∧
      (v ∉ s.visited → ∃ y ∈ frontier,s.depth y+1 ≤ p.length) := by
  induction p using List.reverseRecOn generalizing v with
  | nil =>
    obtain rfl : root = v := hc
    exact ⟨fun _ => Nat.le_of_eq h.top,fun hv => absurd h.root_visited hv⟩
  | append_singleton p e ih =>
    obtain ⟨before,rfl⟩ := chain_snoc.1 hc
    obtain ⟨inside,outside⟩ := ih before fun a ha => hp a (mem_append_left _ ha)
    have size : (p++[e]).length = p.length+1 := length_append
    rw [size]
    by_cases hw : src e ∈ s.visited
    · have hd := inside hw
      have place := hw
      rw [h.split,mem_append] at place
      cases place with
      | inl hk =>
        obtain ⟨seen,near⟩ := h.done _ hk e (hp e (by simp))
        exact ⟨fun _ => by omega,fun hv => absurd seen hv⟩
      | inr hk =>
        refine ⟨fun hv => ?_,fun _ => ⟨src e,hk,by omega⟩⟩
        have := h.spread _ hv _ hk
        omega
    · obtain ⟨y,hy,hd⟩ := outside hw
      refine ⟨fun hv => ?_,fun _ => ⟨y,hy,by omega⟩⟩
      have := h.spread _ hv _ hy
      omega

/-- The edges by which a vertex was found are a chain to it, as long as it is deep. -/
theorem Sound.backtrack (h : Sound src tgt out root s closed frontier) {n : Nat} {x : V}
    (hx : x ∈ s.visited) (hn : s.depth x ≤ n) :
    Chain src tgt root (backtrack src s.predecessor root n x).reverse x ∧
      (backtrack src s.predecessor root n x).length = s.depth x ∧
      ∀ e ∈ backtrack src s.predecessor root n x,e ∈ out (src e) := by
  induction n generalizing x with
  | zero =>
    obtain rfl | ne := eq_or_ne x root
    · exact ⟨rfl,h.top.symm,nofun⟩
    · obtain ⟨e,-,-,-,-,hd⟩ := h.back x hx ne
      omega
  | succ n ih =>
    obtain rfl | ne := eq_or_ne x root
    · simp [BreadthFirst.backtrack,Chain,h.top]
    · obtain ⟨e,hp,ht,he,hs,hd⟩ := h.back x hx ne
      obtain ⟨chain,size,edges⟩ := ih hs (by omega)
      have unfolded : BreadthFirst.backtrack src s.predecessor root (n+1) x =
          e::BreadthFirst.backtrack src s.predecessor root n (src e) := by
        simp [BreadthFirst.backtrack,ne,hp]
      rw [unfolded]
      refine ⟨?_,?_,?_⟩
      · rw [reverse_cons]
        exact chain_snoc.2 ⟨chain,ht⟩
      · rw [length_cons,size,hd]
      · intro a ha
        cases ha with
        | head => exact he
        | tail _ ha => exact edges a ha

/-- With nothing left in the frontier the search has found what chains lead to. -/
theorem Sound.exhausted (h : Sound src tgt out root s closed []) {v : V} :
    v ∈ s.visited ↔ ∃ p,Chain src tgt root p v ∧ ∀ e ∈ p,e ∈ out (src e) := by
  constructor
  · intro hv
    obtain ⟨chain,-,edges⟩ := h.backtrack hv (Nat.le_refl _)
    exact ⟨_,chain,fun e he => edges e (mem_reverse.1 he)⟩
  · rintro ⟨p,hc,hp⟩
    by_contra hv
    obtain ⟨y,hy,-⟩ := (h.near hc hp).2 hv
    cases hy

end

end BreadthFirst
