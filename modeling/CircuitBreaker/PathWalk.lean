import Mathlib.Data.List.Basic
import Mathlib.Logic.Function.Basic
import Mathlib.Logic.Relation

/-! Walking paths through a tree of files that may hold symbolic links, and unpacking entries into
a directory of it, when every walk has to stay inside that directory. -/

namespace PathWalk

open Relation List

variable {N : Type}

/-- A component of a path, apart from those that stay where they are. -/
inductive Comp (N : Type) where
  | up
  | down (name : N)

structure Target (N : Type) where
  absolute : Bool
  comps : List (Comp N)

inductive Node (N : Type) where
  | file
  | dir
  | link (target : Target N)

/-- What is at each path from the top. -/
abbrev Tree (N : Type) := List N → Option (Node N)

/-- Where a walk is, and what it still has to go. -/
structure State (N : Type) where
  at_ : List N
  rest : List (Comp N)

/-- A name that is not there counts as a directory: it may be made on the way. -/
inductive Step (fs : Tree N) : State N → State N → Prop where
  | up {d : List N} {cs : List (Comp N)} : Step fs ⟨d,.up::cs⟩ ⟨d.dropLast,cs⟩
  | down {d : List N} {n : N} {cs : List (Comp N)} (plain : ∀ t,fs (d++[n]) ≠ some (.link t)) :
      Step fs ⟨d,.down n::cs⟩ ⟨d++[n],cs⟩
  | follow {d : List N} {n : N} {cs : List (Comp N)} {t : Target N}
      (link : fs (d++[n]) = some (.link t)) :
      Step fs ⟨d,.down n::cs⟩ ⟨if t.absolute then [] else d,t.comps++cs⟩

abbrev Walk (fs : Tree N) : State N → State N → Prop := ReflTransGen (Step fs)

def downs (path : List N) : List (Comp N) := path.map .down

/-! ### Walks that stay inside -/

/-- Where a walk without links would end. -/
def landing : List N → List (Comp N) → List N
  | s,[] => s
  | s,.up::cs => landing s.dropLast cs
  | s,.down n::cs => landing (s++[n]) cs

/-- From `s` below the root the walk never leaves the root, and only where it ends may be one of
the places that are links. -/
def Confined (linked : List N → Prop) : List N → List (Comp N) → Prop
  | _,[] => True
  | s,.up::cs => s ≠ [] ∧ (cs ≠ [] → ¬linked s.dropLast) ∧ Confined linked s.dropLast cs
  | s,.down n::cs => (cs ≠ [] → ¬linked (s++[n])) ∧ Confined linked (s++[n]) cs

/-- The links below the root are where links may be, and each is confined. -/
structure Kept (linked : List N → Prop) (root : List N) (fs : Tree N) : Prop where
  top : fs root = some .dir
  links : ∀ s t,fs (root++s) = some (.link t) →
    linked s ∧ t.absolute = false ∧ Confined linked s.dropLast t.comps

section

variable {linked : List N → Prop} {root : List N} {fs : Tree N}

variable {s : List N} {cs : List (Comp N)} {st : State N}

theorem confined_snoc {c : Comp N} (h : Confined linked s (cs++[c])) :
    Confined linked s cs ∧ (cs ≠ [] → ¬linked (landing s cs)) := by
  induction cs generalizing s with
  | nil => exact ⟨trivial,fun ne => absurd rfl ne⟩
  | cons a cs ih =>
    have more : cs++[c] ≠ [] := by simp
    cases a with
    | up =>
      obtain ⟨inside,plain,rest⟩ := h
      obtain ⟨confined,last⟩ := ih rest
      refine ⟨⟨inside,fun _ => plain more,confined⟩,fun _ => ?_⟩
      cases cs with
      | nil => exact plain more
      | cons b cs => exact last (by simp)
    | down n =>
      obtain ⟨plain,rest⟩ := h
      obtain ⟨confined,last⟩ := ih rest
      refine ⟨⟨fun _ => plain more,confined⟩,fun _ => ?_⟩
      cases cs with
      | nil => exact plain more
      | cons b cs => exact last (by simp)

theorem landing_downs (s path : List N) : landing s (downs path) = s++path := by
  induction path generalizing s with
  | nil => simp [downs,landing]
  | cons n path ih =>
    have next := ih (s++[n])
    simpa [downs,landing] using next

/-- One step keeps a confined walk confined: only its last component can be a link, and that goes
on with a target that is confined itself. -/
theorem Step.confined (kept : Kept linked root fs)
    (h : Confined linked s cs) (step : Step fs ⟨root++s,cs⟩ st) :
    ∃ s',st.at_ = root++s' ∧ Confined linked s' st.rest := by
  cases step with
  | up =>
    obtain ⟨inside,-,rest⟩ := h
    exact ⟨s.dropLast,dropLast_append_of_ne_nil inside,rest⟩
  | down plain => exact ⟨s++[_],append_assoc _ _ _,h.2⟩
  | @follow _ n cs t link =>
    rw [append_assoc] at link
    obtain ⟨isLink,relative,confined⟩ := kept.links _ t link
    have last : cs = [] := by
      by_contra more
      exact h.1 more isLink
    subst last
    rw [dropLast_concat] at confined
    exact ⟨s,by simp [relative],by simpa using confined⟩

theorem Walk.confined (kept : Kept linked root fs)
    (h : Confined linked s cs) (walk : Walk fs ⟨root++s,cs⟩ st) :
    ∃ s',st.at_ = root++s' ∧ Confined linked s' st.rest := by
  induction walk with
  | refl => exact ⟨s,rfl,h⟩
  | tail _ step ih =>
    obtain ⟨s',at',confined⟩ := ih
    rename_i b c _
    obtain ⟨d,rest⟩ := b
    obtain rfl : d = root++s' := at'
    exact step.confined kept confined

/-- A confined walk that does not end in a link goes by its names alone. -/
theorem Walk.plain (kept : Kept linked root fs)
    (h : Confined linked s cs) (last : cs ≠ [] → ¬linked (landing s cs))
    (walk : Walk fs ⟨root++s,cs⟩ st) :
    ∃ s',st.at_ = root++s' ∧ Confined linked s' st.rest ∧
      (st.rest ≠ [] → ¬linked (landing s' st.rest)) ∧ landing s' st.rest = landing s cs := by
  induction walk with
  | refl => exact ⟨s,rfl,h,last,rfl⟩
  | tail _ step ih =>
    obtain ⟨s',at',confined,clear,same⟩ := ih
    rename_i b c _
    obtain ⟨d,rest⟩ := b
    obtain rfl : d = root++s' := at'
    cases step with
    | @up _ cs =>
      obtain ⟨inside,-,rest⟩ := confined
      refine ⟨s'.dropLast,dropLast_append_of_ne_nil inside,rest,fun _ => ?_,same⟩
      exact clear (by simp)
    | @down _ n cs plain =>
      exact ⟨s'++[n],append_assoc _ _ _,confined.2,fun _ => clear (by simp),same⟩
    | @follow _ n cs t link =>
      rw [append_assoc] at link
      have isLink := (kept.links _ t link).1
      cases cs with
      | nil => exact absurd isLink (clear (by simp))
      | cons a cs => exact absurd isLink (confined.1 (by simp))

end

/-! ### Unpacking -/

inductive Kind where
  | file | dir | symlink | hardlink
  deriving DecidableEq

structure Entry (N : Type) where
  kind : Kind
  path : List N
  target : Target N

/-- The tree, and every path at which something was made. -/
structure World (N : Type) where
  fs : Tree N
  made : List (List N)

variable [DecidableEq N]

def World.put (w : World N) (p : List N) (node : Node N) : World N where
  fs := Function.update w.fs p (some node)
  made := w.made++[p]

@[simp] theorem World.put_self (w : World N) (p : List N) (node : Node N) :
    (w.put p node).fs p = some node := Function.update_self _ _ _

theorem World.put_other (w : World N) {p q : List N} (node : Node N) (h : q ≠ p) :
    (w.put p node).fs q = w.fs q := Function.update_of_ne h _ _

/-- One act of an extractor on one of the entries: it may take them in any order, follow the links
it finds, make missing directories, write through a link or put a new file in its place, and clear
what is in its way. A hard link shares what its target has, from the root. -/
inductive Unpack (root : List N) (entries : List (Entry N)) : World N → World N → Prop where
  | mkdir {w : World N} {e : Entry N} {d : List N} {n : N} {cs : List (Comp N)} (mem : e ∈ entries)
      (walk : Walk w.fs ⟨root,downs e.path⟩ ⟨d,.down n::cs⟩) (new : w.fs (d++[n]) = none) :
      Unpack root entries w (w.put (d++[n]) .dir)
  | write {w : World N} {e : Entry N} {d : List N} {n : N} (mem : e ∈ entries)
      (kind : e.kind = .file) (walk : Walk w.fs ⟨root,downs e.path⟩ ⟨d,[.down n]⟩)
      (room : w.fs (d++[n]) ≠ some .dir) :
      Unpack root entries w (w.put (d++[n]) .file)
  | symlink {w : World N} {e : Entry N} {parent d : List N} {n : N} (mem : e ∈ entries)
      (kind : e.kind = .symlink) (path : e.path = parent++[n])
      (walk : Walk w.fs ⟨root,downs parent⟩ ⟨d,[]⟩) (room : w.fs (d++[n]) ≠ some .dir) :
      Unpack root entries w (w.put (d++[n]) (.link e.target))
  | hardlink {w : World N} {e : Entry N} {parent d d' : List N} {n n' : N} {node : Node N}
      (mem : e ∈ entries) (kind : e.kind = .hardlink) (path : e.path = parent++[n])
      (walk : Walk w.fs ⟨root,downs parent⟩ ⟨d,[]⟩)
      (source : Walk w.fs ⟨root,e.target.comps⟩ ⟨d',[.down n']⟩)
      (found : w.fs (d'++[n']) = some node) (plain : node ≠ .dir)
      (room : w.fs (d++[n]) ≠ some .dir) :
      Unpack root entries w (w.put (d++[n]) node)
  | remove {w : World N} {s : List N} (inside : s ≠ []) :
      Unpack root entries w { w with fs := Function.update w.fs (root++s) none }

/-- A set of entries none of which can lead out, however they are combined. -/
structure Checked (linked : List N → Prop) (entries : List (Entry N)) : Prop where
  top : ¬linked []
  paths : ∀ e ∈ entries,Confined linked [] (downs e.path)
  symlinks : ∀ e ∈ entries,e.kind = .symlink → (e.path ≠ [] → linked e.path) ∧
    e.target.absolute = false ∧ Confined linked e.path.dropLast e.target.comps
  hardlinks : ∀ e ∈ entries,e.kind = .hardlink → e.target.absolute = false ∧
    Confined linked [] e.target.comps ∧ ¬linked (landing [] e.target.comps)

section

variable {linked : List N → Prop} {root : List N} {entries : List (Entry N)}

/-- Links stay confined, and nothing was made outside the root. -/
structure Contained (linked : List N → Prop) (root : List N) (w : World N) : Prop where
  kept : Kept linked root w.fs
  made : ∀ p ∈ w.made,∃ s,s ≠ [] ∧ p = root++s

variable {w : World N}

theorem Contained.put {s : List N} {node : Node N} (h : Contained linked root w)
    (inside : s ≠ []) (link : ∀ t,node = .link t →
      linked s ∧ t.absolute = false ∧ Confined linked s.dropLast t.comps) :
    Contained linked root (w.put (root++s) node) := by
  refine ⟨⟨?_,fun s' t hl => ?_⟩,fun p hp => ?_⟩
  · have other : root ≠ root++s := fun eq => inside (append_right_eq_self.1 eq.symm)
    exact (w.put_other node other).trans h.kept.top
  · by_cases same : s' = s
    · subst same
      rw [World.put_self] at hl
      exact link t (Option.some.inj hl)
    · have other : root++s' ≠ root++s := fun eq => same (append_cancel_left eq)
      exact h.kept.links s' t ((w.put_other node other).symm.trans hl)
  · rcases mem_append.1 hp with hp | hp
    · exact h.made p hp
    · exact ⟨s,inside,mem_singleton.1 hp⟩

omit [DecidableEq N] in
/-- The directory of an entry is where its names say. -/
theorem Contained.parent {e : Entry N} {parent d : List N} {n : N}
    (h : Contained linked root w) (checked : Checked linked entries) (mem : e ∈ entries)
    (path : e.path = parent++[n]) (walk : Walk w.fs ⟨root,downs parent⟩ ⟨d,[]⟩) :
    d++[n] = root++e.path := by
  have whole := checked.paths e mem
  rw [path,downs,map_append] at whole
  obtain ⟨confined,last⟩ := confined_snoc whole
  have start : Walk w.fs ⟨root++[],downs parent⟩ ⟨d,[]⟩ := by rwa [append_nil]
  obtain ⟨s,hd,-,-,same⟩ := start.plain h.kept confined last
  have ends : s = parent := same.trans (landing_downs [] parent)
  rw [show d = root++s from hd,ends,path,append_assoc]

theorem Contained.step {w' : World N} (h : Contained linked root w)
    (checked : Checked linked entries) (step : Unpack root entries w w') :
    Contained linked root w' := by
  have from_root : ∀ {cs : List (Comp N)} {st : State N},Confined linked [] cs →
      Walk w.fs ⟨root,cs⟩ st → ∃ s,st.at_ = root++s ∧ Confined linked s st.rest := by
    intro cs st confined walk
    have start : Walk w.fs ⟨root++[],cs⟩ st := by rwa [append_nil]
    exact start.confined h.kept confined
  cases step with
  | @mkdir e d n cs mem walk new | @write e d n mem kind walk room =>
    obtain ⟨s,hd,-⟩ := from_root (checked.paths e mem) walk
    rw [show d = root++s from hd,append_assoc]
    exact h.put (by simp) nofun
  | @symlink e parent d n mem kind path walk room =>
    obtain ⟨isLink,relative,confined⟩ := checked.symlinks e mem kind
    have inside : e.path ≠ [] := by simp [path]
    rw [h.parent checked mem path walk]
    refine h.put inside fun t ht => ?_
    cases ht
    exact ⟨isLink inside,relative,confined⟩
  | @hardlink e parent d d' n n' node mem kind path walk source found plain room =>
    obtain ⟨-,confined,last⟩ := checked.hardlinks e mem kind
    rw [h.parent checked mem path walk]
    refine h.put (by simp [path]) fun t ht => ?_
    -- the target ends where no link may be, so what it shares is no link
    have start : Walk w.fs ⟨root++[],e.target.comps⟩ ⟨d',[.down n']⟩ := by rwa [append_nil]
    obtain ⟨s,hd,-,clear,-⟩ := start.plain h.kept confined fun _ => last
    rw [show d' = root++s from hd,append_assoc,ht] at found
    exact absurd (h.kept.links _ t found).1 (clear (by simp))
  | @remove s inside =>
    refine ⟨⟨?_,fun s' t hl => ?_⟩,h.made⟩
    · have other : root ≠ root++s := fun eq => inside (append_right_eq_self.1 eq.symm)
      exact (Function.update_of_ne other _ _).trans h.kept.top
    · by_cases same : s' = s
      · rw [same] at hl
        cases (Function.update_self _ _ _).symm.trans hl
      · have other : root++s' ≠ root++s := fun eq => same (append_cancel_left eq)
        exact h.kept.links s' t ((Function.update_of_ne other _ _).symm.trans hl)

/-- However a checked set of entries is unpacked into an empty directory, nothing is made outside
of it. -/
theorem unpack_contained {w' : World N} (checked : Checked linked entries)
    (start : Contained linked root w) (run : ReflTransGen (Unpack root entries) w w') :
    Contained linked root w' := by
  induction run with
  | refl => exact start
  | tail _ step ih => exact ih.step checked step

omit [DecidableEq N] in
theorem empty_contained (dir : w.fs root = some .dir)
    (empty : ∀ s,s ≠ [] → w.fs (root++s) = none) (made : w.made = []) :
    Contained linked root w := by
  refine ⟨⟨dir,fun s t hl => ?_⟩,by simp [made]⟩
  by_cases hs : s = []
  · rw [hs,append_nil,dir] at hl
    cases hl
  · rw [empty s hs] at hl
    cases hl

end

end PathWalk
