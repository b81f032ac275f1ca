import CircuitBreaker.StepRuns
import CircuitBreaker.PyDict
import Mathlib.Data.List.Sort
import Mathlib.Logic.Function.Basic

/-! The snapshots in the backup directory. A build assembles a staging tree of its own, packs it
into a file under a scratch name and renames that file to its final name; both names come from a
clock with a resolution of one second. Prunes delete the oldest archives, sweeps delete what
killed builds left. Every file is an inode with names: an open descriptor keeps writing to its
inode whatever becomes of the name. Names are the seconds they are derived from, and times are
microseconds. -/

namespace CircuitBreaker.SnapshotFiles
open StepRuns List Function

abbrev Path := List String

inductive Node where
  | dir | file (content : String)

/-- A staging tree, rooted at the empty path. -/
abbrev Tree := List (Path × Node)

def Tree.get (tree : Tree) (path : Path) : Option Node := (tree.find? (·.1 = path)).map Prod.snd

/-- `sorted(os.listdir(path))`, as paths. -/
def Tree.children (tree : Tree) (path : Path) : List Path :=
  ((tree.map Prod.fst).filter fun p => p.dropLast = path && p ≠ []).insertionSort
    fun a b => a.getLast?.getD "" ≤ b.getLast?.getD ""

inductive Block where
  | member (path : Path) (node : Node) | trailer | hole

structure File where
  content : List Block := []
  mtime : Nat := 0

def writeAt (content : List Block) (offset : Nat) (block : Block) : List Block :=
  if offset < content.length then content.set offset block
  else content++List.replicate (offset-content.length) .hole++[block]

inductive Stage where
  | idle
  | staging
  | packing (fd offset : Nat) (todo : List Path)
  | packed (fd : Nat)
  | published
  | cleaning (ok : Bool)
  | removing (ok : Bool)
  | returned
  | failed
  | killed

structure Build where
  stage : Stage := .idle
  stamp : Nat := 0
  started : Nat := 0

/-- A prune under way: how many archives it keeps and which it has still to delete. -/
structure Prune where
  keep : Nat
  todo : List Nat

structure World where
  now : Nat := 0
  files : Nat → File := fun _ => {}
  nextFile : Nat := 0
  parts : Nat → Option Nat := fun _ => none
  dests : Dict Nat Nat := .empty
  builds : Nat → Build := fun _ => {}
  trees : Nat → Tree := fun _ => []
  prunes : Nat → Option Prune := fun _ => none
  sweeps : Nat → Option Nat := fun _ => none
  /-- The tree a build packed and what it published; kept for the statement, read by
  nothing. -/
  assembled : Nat → Tree := fun _ => []
  archives : Nat → Option (List Block) := fun _ => none

inductive Act where
  | start (b : Nat)
  | write (b : Nat) (path : Path) (node : Node)
  | openPart (b : Nat)
  | pack (b : Nat)
  | close (b : Nat)
  | publish (b : Nat)
  | report (b : Nat)
  | fail (b : Nat)
  | unlinkPart (b : Nat)
  | remove (b : Nat) (path : Path)
  | finish (b : Nat)
  | kill (b : Nat)
  | sweepTree (b : Nat) (path : Path)
  | seePart (q stamp : Nat)
  | sweepPart (q : Nat)
  | list (p keep : Nat) (names : List Nat)
  | unlink (p : Nat)
  | endPrune (p : Nat)
  | tick (now : Nat)

def second : Nat := 1000000
def stagingOrphanMaxAge : Nat := 6*3600*second

def World.to (w : World) (b : Nat) (stage : Stage) : World :=
  {w with builds := update w.builds b {w.builds b with stage := stage}}

def World.writes (w : World) (fd offset : Nat) (block : Block) : World :=
  {w with files := update w.files fd ⟨writeAt (w.files fd).content offset block,w.now⟩}

/-- `os.open(part, O_WRONLY | O_CREAT | O_TRUNC)`: the descriptor, and the file emptied. -/
def World.truncate (w : World) (stamp : Nat) : Nat × World :=
  match w.parts stamp with
  | some i => (i,{w with files := update w.files i ⟨[],w.now⟩})
  | none => (w.nextFile,{w with
      files := update w.files w.nextFile ⟨[],w.now⟩
      nextFile := w.nextFile+1
      parts := update w.parts stamp (some w.nextFile)})

def Tree.remove (tree : Tree) (path : Path) : Tree := tree.filter (·.1 ≠ path)

/-- `path.stat().st_mtime` -/
def World.stat (w : World) (stamp : Nat) : Nat :=
  ((w.dests.get stamp).map fun i => (w.files i).mtime).getD 0

/-- `sorted(.., key=mtime)` without the newest `keep`. -/
def World.toDelete (w : World) (keep : Nat) (names : List Nat) : List Nat :=
  let snapshots := names.insertionSort fun a b => w.stat a ≤ w.stat b
  snapshots.take (snapshots.length-keep)

def next (w : World) : Act → Option World
  | .start b =>
    match (w.builds b).stage with
    | .idle => some {w with
        builds := update w.builds b ⟨.staging,w.now/second,w.now⟩
        trees := update w.trees b [([],.dir)]}
    | _ => none
  | .write b path node =>
    match (w.builds b).stage with
    | .staging => some {w with
        trees := update w.trees b ((w.trees b).remove path++[(path,node)])}
    | _ => none
  | .openPart b =>
    match (w.builds b).stage with
    | .staging =>
      let opened := w.truncate (w.builds b).stamp
      some {opened.2.to b (.packing opened.1 0 [[]]) with
        assembled := update w.assembled b (w.trees b)}
    | _ => none
  | .pack b =>
    match (w.builds b).stage with
    | .packing fd offset (path::todo) =>
      match (w.trees b).get path with
      | some .dir => some ((w.writes fd offset (.member path .dir)).to b
          (.packing fd (offset+1) ((w.trees b).children path++todo)))
      | some (.file content) => some ((w.writes fd offset (.member path (.file content))).to b
          (.packing fd (offset+1) todo))
      -- `lstat` of what is gone raises
      | none => some (w.to b (.cleaning false))
    | _ => none
  | .close b =>
    match (w.builds b).stage with
    | .packing fd offset [] => some ((w.writes fd offset .trailer).to b (.packed fd))
    | _ => none
  | .publish b =>
    match (w.builds b).stage with
    | .packed _ =>
      match w.parts (w.builds b).stamp with
      | some i => some {w.to b .published with
          parts := update w.parts (w.builds b).stamp none
          dests := w.dests.set (w.builds b).stamp i
          archives := update w.archives b (some (w.files i).content)}
      | none => some (w.to b (.cleaning false))
    | _ => none
  | .report b =>
    match (w.builds b).stage with
    | .published => some (w.to b (.cleaning (w.dests.get (w.builds b).stamp).isSome))
    | _ => none
  | .fail b =>
    match (w.builds b).stage with
    | .staging | .packing _ _ _ | .packed _ => some (w.to b (.cleaning false))
    | _ => none
  | .unlinkPart b =>
    match (w.builds b).stage with
    | .cleaning ok => some {w.to b (.removing ok) with
        parts := update w.parts (w.builds b).stamp none}
    | _ => none
  | .remove b path =>
    match (w.builds b).stage with
    | .removing _ => some {w with trees := update w.trees b ((w.trees b).remove path)}
    | _ => none
  | .finish b =>
    match (w.builds b).stage with
    | .removing ok => some (w.to b (if ok then .returned else .failed))
    | _ => none
  | .kill b =>
    match (w.builds b).stage with
    | .idle | .returned | .failed | .killed => none
    | _ => some (w.to b .killed)
  | .sweepTree b path =>
    if (w.builds b).started+stagingOrphanMaxAge < w.now then
      some {w with trees := update w.trees b ((w.trees b).remove path)}
    else none
  | .seePart q stamp =>
    match w.parts stamp with
    | some i =>
      if (w.files i).mtime+stagingOrphanMaxAge < w.now then
        some {w with sweeps := update w.sweeps q (some stamp)}
      else none
    | none => none
  | .sweepPart q =>
    match w.sweeps q with
    | some stamp => some {w with
        sweeps := update w.sweeps q none
        parts := update w.parts stamp none}
    | none => none
  | .list p keep names =>
    if (w.prunes p).isNone ∧ 0 < keep ∧ names.Perm w.dests.keys then
      some {w with prunes := update w.prunes p (some ⟨keep,w.toDelete keep names⟩)}
    else none
  | .unlink p =>
    match w.prunes p with
    | some ⟨keep,stamp::todo⟩ => some {w with
        prunes := update w.prunes p (some ⟨keep,todo⟩)
        dests := w.dests.restrict (· ≠ stamp)}
    | _ => none
  | .endPrune p => some {w with prunes := update w.prunes p none}
  | .tick now => if w.now ≤ now then some {w with now := now} else none

def Step (w : World) (act : Act) (w' : World) : Prop := next w act = some w'

/-- A tar walk from what is still to visit: directories before what is in them. -/
inductive Walked (tree : Tree) : List Path → List Block → Prop where
  | done : Walked tree [] []
  | file {path : Path} {content : String} {todo : List Path} {rest : List Block} :
      tree.get path = some (.file content) → Walked tree todo rest →
      Walked tree (path::todo) (.member path (.file content)::rest)
  | dir {path : Path} {todo : List Path} {rest : List Block} : tree.get path = some .dir →
      Walked tree (tree.children path++todo) rest →
      Walked tree (path::todo) (.member path .dir::rest)

def Complete (tree : Tree) (content : List Block) : Prop :=
  ∃ members, Walked tree [[]] members ∧ content = members++[.trailer]

def Stage.building : Stage → Bool
  | .staging | .packing _ _ _ | .packed _ => true
  | _ => false

def Stage.live : Stage → Bool
  | .published | .cleaning _ => true
  | stage => stage.building

def Stage.fd? : Stage → Option Nat
  | .packing fd _ _ | .packed fd => some fd
  | _ => none

def World.mtime (w : World) (i : Nat) : Nat := (w.files i).mtime

def World.newer (w : World) (moment : Nat) : Nat :=
  w.dests.items.countP fun p => moment < w.mtime p.2

structure Packs (w : World) (b fd : Nat) : Prop where
  named : ∀ i, w.parts (w.builds b).stamp = some i → i = fd
  sole : ∀ s, w.parts s = some fd → s = (w.builds b).stamp
  hidden : ∀ s, w.dests.get s ≠ some fd
  young : (w.builds b).started ≤ w.mtime fd
  past : w.mtime fd ≤ w.now
  known : fd < w.nextFile
  first : w.archives b = none

def Published (w : World) (b : Nat) : Prop :=
  ∃ content, w.archives b = some content ∧ Complete (w.assembled b) content

def Placed (w : World) (b : Nat) : Stage → Prop
  | .idle | .staging => w.archives b = none
  | .packing fd offset todo => Packs w b fd ∧ w.trees b = w.assembled b ∧
      offset = (w.files fd).content.length ∧ ∀ rest, Walked (w.assembled b) todo rest →
        Walked (w.assembled b) [[]] ((w.files fd).content++rest)
  | .packed fd => Packs w b fd ∧ Complete (w.assembled b) (w.files fd).content
  | .published | .cleaning true | .removing true | .returned => Published w b
  | _ => True

structure Sound (w : World) : Prop where
  apart : ∀ b b', (w.builds b).stage.live = true → (w.builds b').stage.live = true →
    (w.builds b).stamp = (w.builds b').stamp → b = b'
  fds : ∀ b b' fd, (w.builds b).stage.fd? = some fd → (w.builds b').stage.fd? = some fd → b = b'
  placed : ∀ b, Placed w b (w.builds b).stage
  parts : ∀ s i, w.parts s = some i → i < w.nextFile ∧ ∀ s', w.dests.get s' ≠ some i
  names : ∀ s s' i, w.parts s = some i → w.parts s' = some i → s = s'
  whole : ∀ s i, w.dests.get s = some i → i < w.nextFile ∧ w.mtime i ≤ w.now ∧
    ∃ b, w.archives b = some (w.files i).content ∧ Complete (w.assembled b) (w.files i).content
  ages : ∀ s s' i i', w.dests.get s = some i → w.dests.get s' = some i' →
    w.mtime i = w.mtime i' → s = s'
  begun : ∀ b, (w.builds b).stage.live = true → (w.builds b).started ≤ w.now
  older : ∀ b i, (w.builds b).stage.building = true → w.dests.get (w.builds b).stamp = some i →
    w.mtime i ≤ (w.builds b).started
  prunes : ∀ p prune, w.prunes p = some prune → ∀ s ∈ prune.todo, ∀ i, w.dests.get s = some i →
    prune.keep ≤ w.newer (w.mtime i)
  keeps : ∀ p p' prune prune', w.prunes p = some prune → w.prunes p' = some prune' →
    prune.todo ≠ [] → prune'.todo ≠ [] → prune.keep = prune'.keep

def Meets (w : World) : Act → Prop
  -- builds that overlap have names of their own
  | .start _ => ∀ b', (w.builds b').stage.live = true → (w.builds b').stamp ≠ w.now/second
  -- no build is so old that its tree is swept under it
  | .sweepTree b _ => (w.builds b).stage.building = false
  -- an archive gets a name no prune is about to delete, and an age of its own
  | .publish b => (∀ p prune, w.prunes p = some prune → (w.builds b).stamp ∉ prune.todo) ∧
      ∀ s i j, s ≠ (w.builds b).stamp → w.dests.get s = some i →
        w.parts (w.builds b).stamp = some j → w.mtime i ≠ w.mtime j
  -- prunes that overlap keep the same number
  | .list _ keep _ => ∀ p prune, w.prunes p = some prune → prune.todo ≠ [] → prune.keep = keep
  | _ => True

structure Kept (w : World) (act : Act) (w' : World) : Prop where
  /-- An archive stays as it is until a prune deletes it or a later build with its name is
  published. -/
  archive : ∀ s i, w.dests.get s = some i → (w'.dests.get s = some i ∧ w'.files i = w.files i) ∨
    (∃ p keep todo, act = .unlink p ∧ w.prunes p = some ⟨keep,s::todo⟩) ∨
    ∃ b, act = .publish b ∧ (w.builds b).stamp = s ∧ (w'.builds b).stage = .published
  pruned : ∀ p keep s todo i, act = .unlink p → w.prunes p = some ⟨keep,s::todo⟩ →
    w.dests.get s = some i → keep ≤ w'.newer (w.mtime i)
  published : ∀ b, act = .publish b → (w'.builds b).stage = .published →
    ∃ i, w'.dests.get (w.builds b).stamp = some i ∧ Complete (w'.assembled b) (w'.files i).content

section Proofs
variable {w w' : World} {b fd : Nat}

theorem to_self (w : World) (b : Nat) (stage : Stage) :
    (w.to b stage).builds b = {w.builds b with stage := stage} := update_self ..

variable {b' i offset m stamp s keep p : Nat}

theorem to_other (ne : b' ≠ b) (stage : Stage) :
    (w.to b stage).builds b' = w.builds b' := update_of_ne ne ..

theorem to_stamp (w : World) (b b' : Nat) (stage : Stage) :
    ((w.to b stage).builds b').stamp = (w.builds b').stamp ∧
      ((w.to b stage).builds b').started = (w.builds b').started := by
  by_cases eq : b' = b
  · subst eq
    rw [to_self]
    exact ⟨rfl,rfl⟩
  · rw [to_other eq]
    exact ⟨rfl,rfl⟩

theorem to_was {stage : Stage} (p : Stage → Bool)
    (back : p stage = true → p (w.builds b).stage = true)
    (h : p ((w.to b stage).builds b').stage = true) : p (w.builds b').stage = true := by
  by_cases eq : b' = b
  · subst eq
    rw [to_self] at h
    exact back h
  · rw [to_other eq] at h
    exact h

theorem Packs.frame (h : Packs w b fd) (stamp : (w'.builds b).stamp = (w.builds b).stamp)
    (started : (w'.builds b).started = (w.builds b).started)
    (parts : ∀ s i, w'.parts s = some i → w.parts s = some i)
    (dests : ∀ s, w'.dests.get s ≠ some fd) (files : w'.mtime fd = w.mtime fd)
    (clock : w.now ≤ w'.now) (next_ : w.nextFile ≤ w'.nextFile)
    (archives : w'.archives b = w.archives b) : Packs w' b fd where
  named := fun i hi => h.named i (parts _ i (stamp ▸ hi))
  sole := fun s hs => stamp ▸ h.sole s (parts s fd hs)
  hidden := dests
  young := by
    rw [started,files]
    exact h.young
  past := by
    rw [files]
    exact le_trans h.past clock
  known := lt_of_lt_of_le h.known next_
  first := archives.trans h.first

theorem Packs.same (h : Packs w b fd) (builds : w'.builds b = w.builds b) (parts : w'.parts = w.parts)
    (dests : w'.dests = w.dests) (files : w'.files fd = w.files fd) (clock : w'.now = w.now)
    (next_ : w'.nextFile = w.nextFile) (archives : w'.archives b = w.archives b) :
    Packs w' b fd ∧ (w'.files fd).content = (w.files fd).content :=
  ⟨h.frame (congrArg _ builds) (congrArg _ builds) (fun s _ => (congrFun parts s).symm.trans)
    (dests ▸ h.hidden) (congrArg _ files) clock.ge next_.ge archives,congrArg _ files⟩

variable {stage : Stage}

theorem Placed.frame (h : Placed w b stage) (packs : ∀ fd, stage.fd? = some fd → Packs w b fd →
      Packs w' b fd ∧ (w'.files fd).content = (w.files fd).content)
    (tree : ∀ fd, stage.fd? = some fd → w'.trees b = w.trees b)
    (assembled : w'.assembled b = w.assembled b) (archives : w'.archives b = w.archives b) :
    Placed w' b stage := by
  cases stage with
  | packing fd offset todo =>
    obtain ⟨held,same,rest⟩ := h
    obtain ⟨held',content⟩ := packs fd rfl held
    refine ⟨held',?_,?_⟩
    · rw [tree fd rfl,assembled]
      exact same
    · rw [content,assembled]
      exact rest
  | packed fd =>
    obtain ⟨held,whole⟩ := h
    obtain ⟨held',content⟩ := packs fd rfl held
    refine ⟨held',?_⟩
    rw [content,assembled]
    exact whole
  | cleaning ok | removing ok =>
    cases ok with
    | false => trivial
    | true =>
      obtain ⟨content,stored,whole⟩ := h
      exact ⟨content,archives.trans stored,assembled ▸ whole⟩
  | published | returned =>
    obtain ⟨content,stored,whole⟩ := h
    exact ⟨content,archives.trans stored,assembled ▸ whole⟩
  | idle | staging => exact archives.trans h
  | failed | killed => trivial

theorem Sound.other_fd (h : Sound w) (hs : (w.builds b).stage.fd? = some fd)
    (ne : b' ≠ b) : (w.builds b').stage.fd? ≠ some fd := fun eq => ne (h.fds b' b fd eq hs)

theorem newer_touch {file : File} {moment : Nat} (hidden : ∀ s, w.dests.get s ≠ some fd) :
    {w with files := update w.files fd file}.newer moment = w.newer moment := by
  unfold World.newer
  refine countP_congr fun p hp => ?_
  have apart : p.2 ≠ fd := fun eq => hidden p.1 (Dict.get_eq_some_iff.mpr (eq ▸ hp))
  change decide (moment < (update w.files fd file p.2).mtime) = true ↔ _
  rw [update_of_ne apart]
  rfl

theorem Sound.here (h : Sound w) (hs : (w.builds b).stage = stage) : Placed w b stage :=
  hs ▸ h.placed b

theorem Sound.touch (h : Sound w) (file : File) (hidden : ∀ s, w.dests.get s ≠ some fd)
    (others : ∀ b', b' ≠ b → (w.builds b').stage.fd? ≠ some fd)
    (live : stage.live = true → (w.builds b).stage.live = true)
    (building : stage.building = true → (w.builds b).stage.building = true)
    (fds : ∀ fd', stage.fd? = some fd' → fd' = fd)
    (placed : Placed {w with files := update w.files fd file} b stage) :
    Sound ({w with files := update w.files fd file}.to b stage) := by
  have files : ∀ i, i ≠ fd → ({w with files := update w.files fd file}.to b stage).files i =
      w.files i := fun i ne => update_of_ne ne ..
  have archive : ∀ s i, w.dests.get s = some i → i ≠ fd := fun s i hi eq => hidden s (eq ▸ hi)
  have mtimes : ∀ s i, w.dests.get s = some i →
      ({w with files := update w.files fd file}.to b stage).mtime i = w.mtime i :=
    fun s i hi => congrArg File.mtime (files i (archive s i hi))
  exact {h with
    apart := by
      intro b₁ b₂ live₁ live₂ stamp
      rw [(to_stamp _ b b₁ stage).1,(to_stamp _ b b₂ stage).1] at stamp
      exact h.apart b₁ b₂ (to_was _ live live₁) (to_was _ live live₂) stamp
    fds := by
      intro b₁ b₂ fd' h₁ h₂
      by_cases eq₁ : b₁ = b
      · subst eq₁
        by_cases eq₂ : b₂ = b₁
        · exact eq₂.symm
        · rw [to_self] at h₁
          rw [to_other eq₂] at h₂
          exact absurd ((fds fd' h₁) ▸ h₂) (others b₂ eq₂)
      · rw [to_other eq₁] at h₁
        by_cases eq₂ : b₂ = b
        · subst eq₂
          rw [to_self] at h₂
          exact absurd ((fds fd' h₂) ▸ h₁) (others b₁ eq₁)
        · rw [to_other eq₂] at h₂
          exact h.fds b₁ b₂ fd' h₁ h₂
    placed := by
      intro b'
      by_cases eq : b' = b
      · subst eq
        rw [to_self]
        refine placed.frame (fun _ _ packs => ⟨?_,rfl⟩) (fun _ _ => rfl) rfl rfl
        exact packs.frame (to_stamp _ b' b' stage).1 (to_stamp _ b' b' stage).2 (fun _ _ => id)
          packs.hidden rfl le_rfl le_rfl rfl
      · rw [to_other eq]
        refine (h.placed b').frame (fun fd' hfd packs => ?_) (fun _ _ => rfl) rfl rfl
        have ne : fd' ≠ fd := fun same => others b' eq (same ▸ hfd)
        exact ⟨packs.frame (to_stamp _ b b' stage).1 (to_stamp _ b b' stage).2 (fun _ _ => id)
          packs.hidden (congrArg File.mtime (files fd' ne)) le_rfl le_rfl rfl,
          congrArg File.content (files fd' ne)⟩
    whole := by
      intro s i hi
      obtain ⟨known,past,whole⟩ := h.whole s i hi
      refine ⟨known,?_,?_⟩
      · rw [mtimes s i hi]
        exact past
      · rw [files i (archive s i hi)]
        exact whole
    ages := by
      intro s s' i i' hi hi'
      rw [mtimes s i hi,mtimes s' i' hi']
      exact h.ages s s' i i' hi hi'
    begun := by
      intro b' live'
      rw [(to_stamp _ b b' stage).2]
      exact h.begun b' (to_was _ live live')
    older := by
      intro b' i building' hi
      rw [(to_stamp _ b b' stage).1] at hi
      rw [(to_stamp _ b b' stage).2,mtimes _ i hi]
      exact h.older b' i (to_was _ building building') hi
    prunes := by
      intro p prune hp s hs i hi
      rw [mtimes s i hi]
      change _ ≤ {w with files := update w.files fd file}.newer _
      rw [newer_touch hidden]
      exact h.prunes p prune hp s hs i hi}

theorem Placed.packs (h : Placed w b stage) (hfd : stage.fd? = some fd) :
    Packs w b fd := by
  cases stage with
  | packing fd' offset todo | packed fd' =>
    cases hfd
    exact h.1
  | _ => cases hfd

theorem Sound.packs (h : Sound w) (hfd : (w.builds b).stage.fd? = some fd) : Packs w b fd :=
  (h.placed b).packs hfd

theorem live_of_fd (h : stage.fd? = some fd) : stage.live = true := by
  cases stage with
  | packing | packed => rfl
  | _ => cases h

theorem live_of_building (h : stage.building = true) : stage.live = true := by
  cases stage with
  | published | cleaning => rfl
  | _ => exact h

theorem Sound.to (h : Sound w) (live : stage.live = true → (w.builds b).stage.live = true)
    (building : stage.building = true → (w.builds b).stage.building = true)
    (closed : stage.fd? = none) (placed : Placed w b stage) : Sound (w.to b stage) := by
  have same : {w with files := update w.files w.nextFile (w.files w.nextFile)} = w := by
    rw [update_eq_self]
  have sound : Sound
      ({w with files := update w.files w.nextFile (w.files w.nextFile)}.to b stage) :=
    h.touch (w.files w.nextFile) (fun s hs => lt_irrefl _ (h.whole s _ hs).1)
    (fun b' _ hfd => lt_irrefl _ (h.packs hfd).known) live building
    (fun fd' hfd => by
      rw [closed] at hfd
      cases hfd)
    (by
      rw [same]
      exact placed)
  rw [same] at sound
  exact sound

theorem Sound.assemble (h : Sound w) (hs : (w.builds b).stage = .staging) :
    Sound {w with assembled := update w.assembled b (w.trees b)} := by
  have unpublished : w.archives b = none := h.here hs
  exact {h with
    placed := by
      intro b'
      by_cases eq : b' = b
      · subst eq
        change Placed _ b' (w.builds b').stage
        rw [hs]
        exact unpublished
      · exact (h.placed b').frame (fun _ _ packs => packs.same rfl rfl rfl rfl rfl rfl rfl) (fun _ _ => rfl)
          (update_of_ne eq ..) rfl
    whole := by
      intro s i hi
      obtain ⟨known,past,b',stored,whole⟩ := h.whole s i hi
      have ne : b' ≠ b := by
        rintro rfl
        rw [unpublished] at stored
        cases stored
      refine ⟨known,past,b',stored,?_⟩
      change Complete (update w.assembled b (w.trees b) b') _
      rw [update_of_ne ne]
      exact whole}

theorem Sound.create (h : Sound w) (hs : (w.builds b).stage = .staging) :
    Sound {w with
      nextFile := w.nextFile+1
      parts := update w.parts (w.builds b).stamp (some w.nextFile)} := by
  have hidden : ∀ s, w.dests.get s ≠ some w.nextFile :=
    fun s hs => lt_irrefl _ (h.whole s _ hs).1
  have unnamed : ∀ s, w.parts s ≠ some w.nextFile :=
    fun s hs => lt_irrefl _ (h.parts s _ hs).1
  have live : (w.builds b).stage.live = true := by
    rw [hs]
    rfl
  exact {
    apart := h.apart
    fds := h.fds
    placed := by
      intro b'
      refine (h.placed b').frame (fun fd' hfd packs => ⟨?_,rfl⟩) (fun _ _ => rfl) rfl rfl
      -- the new name is not that of a build with a file
      have ne : (w.builds b').stamp ≠ (w.builds b).stamp := by
        intro same
        have eq := h.apart b' b (live_of_fd hfd) live same
        rw [eq,hs] at hfd
        cases hfd
      exact {
        named := fun i hi => packs.named i ((update_of_ne ne ..).symm.trans hi)
        sole := by
          intro s
          change update w.parts _ _ s = some fd' → _
          by_cases eq : s = (w.builds b).stamp
          · subst eq
            rw [update_self]
            intro hi
            cases hi
            exact absurd packs.known (lt_irrefl _)
          · rw [update_of_ne eq]
            exact packs.sole s
        hidden := packs.hidden
        young := packs.young
        past := packs.past
        known := Nat.lt_succ_of_lt packs.known
        first := packs.first}
    parts := by
      intro s i
      change update w.parts _ _ s = some i → _
      by_cases eq : s = (w.builds b).stamp
      · subst eq
        rw [update_self]
        intro hi
        cases hi
        exact ⟨Nat.lt_succ_self _,hidden⟩
      · rw [update_of_ne eq]
        intro hi
        obtain ⟨known,apart⟩ := h.parts s i hi
        exact ⟨Nat.lt_succ_of_lt known,apart⟩
    names := by
      intro s s' i
      change update w.parts _ _ s = some i → update w.parts _ _ s' = some i → _
      by_cases eq : s = (w.builds b).stamp
      · by_cases eq' : s' = (w.builds b).stamp
        · exact fun _ _ => eq.trans eq'.symm
        · rw [eq,update_self,update_of_ne eq']
          intro hi hi'
          cases hi
          exact absurd hi' (unnamed s')
      · by_cases eq' : s' = (w.builds b).stamp
        · rw [eq',update_self,update_of_ne eq]
          intro hi hi'
          cases hi'
          exact absurd hi (unnamed s)
        · rw [update_of_ne eq,update_of_ne eq']
          exact h.names s s' i
    whole := by
      intro s i hi
      obtain ⟨known,rest⟩ := h.whole s i hi
      exact ⟨Nat.lt_succ_of_lt known,rest⟩
    ages := h.ages
    begun := h.begun
    older := h.older
    prunes := h.prunes
    keeps := h.keeps}

theorem Sound.opens (h : Sound w) (hs : (w.builds b).stage = .staging)
    (part : w.parts (w.builds b).stamp = some i) (tree : w.trees b = w.assembled b) :
    Sound ({w with files := update w.files i ⟨[],w.now⟩}.to b (.packing i 0 [[]])) := by
  obtain ⟨known,hidden⟩ := h.parts _ i part
  have live : (w.builds b).stage.live = true := by
    rw [hs]
    rfl
  refine h.touch ⟨[],w.now⟩ hidden (fun b' ne hfd => ?_) (fun _ => live) (fun _ => by rw [hs]; rfl)
    (fun fd' hfd => by cases hfd; rfl) ⟨?_,tree,?_,?_⟩
  · have stamp := (h.packs hfd).sole _ part
    exact ne (h.apart b' b (live_of_fd hfd) live stamp.symm)
  · exact {
      named := fun j hj => (Option.some.inj (part.symm.trans hj)).symm
      sole := fun s hi => h.names s _ i hi part
      hidden := hidden
      young := by
        change (w.builds b).started ≤ (update w.files i ⟨[],w.now⟩ i).mtime
        rw [update_self]
        exact h.begun b live
      past := by
        change (update w.files i ⟨[],w.now⟩ i).mtime ≤ w.now
        rw [update_self]
      known := known
      first := h.here hs}
  · change 0 = (update w.files i ⟨[],w.now⟩ i).content.length
    rw [update_self]
    rfl
  · intro rest walked
    change Walked _ _ ((update w.files i ⟨[],w.now⟩ i).content++rest)
    rw [update_self]
    exact walked

theorem Sound.openPart (h : Sound w) (hs : (w.builds b).stage = .staging) :
    Sound {(w.truncate (w.builds b).stamp).2.to b
      (.packing (w.truncate (w.builds b).stamp).1 0 [[]]) with
        assembled := update w.assembled b (w.trees b)} := by
  have sound := h.assemble hs
  have tree : w.trees b = update w.assembled b (w.trees b) b := by
    rw [update_self]
  cases part : w.parts (w.builds b).stamp with
  | some i =>
    have opened := sound.opens (b := b) hs part tree
    unfold World.truncate
    rw [part]
    exact opened
  | none =>
    have created := sound.create (b := b) hs
    have opened := created.opens (b := b) hs (update_self ..) tree
    unfold World.truncate
    rw [part]
    exact opened

theorem writeAt_end (content : List Block) (block : Block) :
    writeAt content content.length block = content++[block] := by
  unfold writeAt
  rw [if_neg (lt_irrefl _),Nat.sub_self]
  simp

theorem Packs.write (h : Packs w b fd) (offset : Nat) (block : Block) :
    Packs (w.writes fd offset block) b fd where
  named := h.named
  sole := h.sole
  hidden := h.hidden
  young := by
    change (w.builds b).started ≤ (update w.files fd _ fd).mtime
    rw [update_self]
    exact le_trans h.young h.past
  past := by
    change (update w.files fd _ fd).mtime ≤ w.now
    rw [update_self]
  known := h.known
  first := h.first

theorem writes_content (w : World) (fd : Nat) (block : Block) :
    ((w.writes fd (w.files fd).content.length block).files fd).content =
      (w.files fd).content++[block] := by
  change (update w.files fd _ fd).content = _
  rw [update_self]
  exact writeAt_end ..

theorem Sound.writes (h : Sound w) {block : Block}
    (hfd : (w.builds b).stage.fd? = some fd) (building : (w.builds b).stage.building = true)
    (hfd' : stage.fd? = some fd) (placed : Placed (w.writes fd offset block) b stage) :
    Sound ((w.writes fd offset block).to b stage) := by
  refine h.touch _ (h.packs hfd).hidden (fun b' ne => h.other_fd hfd ne)
    (fun _ => live_of_fd hfd) (fun _ => building) (fun fd' same => ?_) placed
  exact Option.some.inj (same.symm.trans hfd')

theorem Sound.pack (h : Sound w) {path : Path} {todo todo' : List Path} {node : Node}
    (hs : (w.builds b).stage = .packing fd offset (path::todo))
    (walks : ∀ rest, Walked (w.assembled b) todo' rest →
      Walked (w.assembled b) (path::todo) (.member path node::rest)) :
    Sound ((w.writes fd offset (.member path node)).to b (.packing fd (offset+1) todo')) := by
  have placed := h.here hs
  obtain ⟨packs,tree,length,walked⟩ := placed
  subst length
  refine h.writes (by rw [hs]; rfl) (by rw [hs]; rfl) rfl ⟨packs.write _ _,tree,?_,?_⟩
  · rw [writes_content,length_append]
    rfl
  · intro rest rest_
    rw [writes_content,append_assoc]
    exact walked _ (walks rest rest_)

theorem Sound.close (h : Sound w) (hs : (w.builds b).stage = .packing fd offset []) :
    Sound ((w.writes fd offset .trailer).to b (.packed fd)) := by
  have placed := h.here hs
  obtain ⟨packs,tree,length,walked⟩ := placed
  subst length
  refine h.writes (by rw [hs]; rfl) (by rw [hs]; rfl) rfl
    ⟨packs.write _ _,(w.files fd).content,?_,writes_content ..⟩
  have whole := walked [] .done
  rw [append_nil] at whole
  exact whole

theorem newer_mono {m' : Nat} (h : m ≤ m') : w.newer m' ≤ w.newer m := by
  refine countP_mono_left fun p _ later => ?_
  exact decide_eq_true (lt_of_le_of_lt h (of_decide_eq_true later))

theorem newer_set (newer : ∀ j, w.dests.get stamp = some j → m < w.mtime j → m < w.mtime i) :
    w.newer m ≤ {w with dests := w.dests.set stamp i}.newer m := by
  unfold World.newer
  change _ ≤ (w.dests.set stamp i).items.countP fun p => m < w.mtime p.2
  unfold Dict.set
  split
  case isTrue =>
    simp only
    rw [countP_map]
    refine countP_mono_left fun p hp later => ?_
    change decide (m < w.mtime (if p.1 = stamp then (stamp,i) else p).2) = true
    split
    case isTrue here =>
      refine decide_eq_true (newer p.2 ?_ (of_decide_eq_true later))
      exact Dict.get_eq_some_iff.mpr (here ▸ hp)
    case isFalse => exact later
  case isFalse =>
    simp only
    rw [countP_append]
    exact Nat.le_add_right _ _

theorem newer_restrict (old : ∀ j, w.dests.get stamp = some j → w.mtime j ≤ m) :
    {w with dests := w.dests.restrict (· ≠ stamp)}.newer m = w.newer m := by
  unfold World.newer
  change (w.dests.items.filter fun p => decide (p.1 ≠ stamp)).countP _ = _
  rw [countP_filter]
  refine countP_congr fun p hp => ?_
  simp only [Bool.and_eq_true,decide_eq_true_eq]
  refine ⟨fun both => both.1,fun later => ⟨later,fun here => ?_⟩⟩
  have earlier := old p.2 (Dict.get_eq_some_iff.mpr (here ▸ hp))
  exact absurd later (not_lt.mpr earlier)

theorem Placed.same (h : Placed w b (w.builds b).stage) (prunes : Nat → Option Prune)
    (sweeps : Nat → Option Nat) :
    Placed {w with prunes := prunes, sweeps := sweeps} b (w.builds b).stage :=
  h.frame (fun _ _ packs => packs.same rfl rfl rfl rfl rfl rfl rfl) (fun _ _ => rfl) rfl rfl

theorem Sound.unname (h : Sound w) (stamp : Nat) :
    Sound {w with parts := update w.parts stamp none} := by
  have parts : ∀ s i, update w.parts stamp none s = some i → w.parts s = some i := by
    intro s i
    by_cases eq : s = stamp
    · subst eq
      rw [update_self]
      exact nofun
    · rw [update_of_ne eq]
      exact id
  exact {h with
    placed := fun b => (h.placed b).frame (fun _ _ packs => ⟨packs.frame rfl rfl parts
      packs.hidden rfl le_rfl le_rfl rfl,rfl⟩) (fun _ _ => rfl) rfl rfl
    parts := fun s i hi => h.parts s i (parts s i hi)
    names := fun s s' i hi hi' => h.names s s' i (parts s i hi) (parts s' i hi')}

theorem Sound.plant (h : Sound w) (tree : Tree) (closed : (w.builds b).stage.fd? = none) :
    Sound {w with trees := update w.trees b tree} := by
  refine {h with placed := fun b' => ?_}
  refine (h.placed b').frame (fun _ _ packs => packs.same rfl rfl rfl rfl rfl rfl rfl) (fun fd' hfd => ?_) rfl rfl
  refine update_of_ne ?_ ..
  rintro rfl
  rw [closed] at hfd
  cases hfd

theorem Sound.publish (h : Sound w) {i : Nat} (hs : (w.builds b).stage = .packed fd)
    (part : w.parts (w.builds b).stamp = some i) (meets : Meets w (.publish b)) :
    Sound {w.to b .published with
      parts := update w.parts (w.builds b).stamp none
      dests := w.dests.set (w.builds b).stamp i
      archives := update w.archives b (some (w.files i).content)} := by
  obtain ⟨unlisted,aged⟩ := meets
  have hfd : (w.builds b).stage.fd? = some fd := by
    rw [hs]
    rfl
  have placed := h.here hs
  obtain ⟨packs,whole⟩ := placed
  obtain rfl : i = fd := packs.named i part
  have parts : ∀ s j, update w.parts (w.builds b).stamp none s = some j →
      w.parts s = some j ∧ s ≠ (w.builds b).stamp := by
    intro s j
    by_cases eq : s = (w.builds b).stamp
    · rw [eq,update_self]
      exact nofun
    · rw [update_of_ne eq]
      exact fun hj => ⟨hj,eq⟩
  have dests : ∀ s j, (w.dests.set (w.builds b).stamp i).get s = some j →
      (s = (w.builds b).stamp ∧ j = i) ∨ (s ≠ (w.builds b).stamp ∧ w.dests.get s = some j) := by
    intro s j
    rw [Dict.get_set]
    split
    case isTrue eq => exact fun hj => .inl ⟨eq,(Option.some.inj hj).symm⟩
    case isFalse ne => exact fun hj => .inr ⟨ne,hj⟩
  have live : (w.builds b).stage.live = true := live_of_fd hfd
  have unfinished : (w.builds b).stage.building = true := by
    rw [hs]
    rfl
  exact {h with
    apart := by
      intro b₁ b₂ live₁ live₂ stamp
      change ((w.to b .published).builds b₁).stamp = ((w.to b .published).builds b₂).stamp at stamp
      rw [(to_stamp w b b₁ _).1,(to_stamp w b b₂ _).1] at stamp
      exact h.apart b₁ b₂ (to_was _ (fun _ => live) live₁) (to_was _ (fun _ => live) live₂) stamp
    fds := by
      intro b₁ b₂ fd' h₁ h₂
      change ((w.to b .published).builds b₁).stage.fd? = some fd' at h₁
      change ((w.to b .published).builds b₂).stage.fd? = some fd' at h₂
      by_cases eq₁ : b₁ = b
      · subst eq₁
        rw [to_self] at h₁
        cases h₁
      · by_cases eq₂ : b₂ = b
        · subst eq₂
          rw [to_self] at h₂
          cases h₂
        · rw [to_other eq₁] at h₁
          rw [to_other eq₂] at h₂
          exact h.fds b₁ b₂ fd' h₁ h₂
    placed := by
      intro b'
      change Placed _ b' ((w.to b .published).builds b').stage
      by_cases eq : b' = b
      · subst eq
        rw [to_self]
        exact ⟨_,update_self ..,whole⟩
      · rw [to_other eq]
        refine (h.placed b').frame (fun fd' hfd' packs' => ⟨?_,rfl⟩) (fun _ _ => rfl) rfl
          (update_of_ne eq ..)
        refine packs'.frame (to_stamp w b b' _).1 (to_stamp w b b' _).2
          (fun s j hj => (parts s j hj).1) (fun s hj => ?_) rfl le_rfl le_rfl
          (update_of_ne eq ..)
        obtain ⟨_,same⟩ | ⟨_,old⟩ := dests s fd' hj
        · subst same
          exact eq (h.fds b' b fd' hfd' hfd)
        · exact packs'.hidden s old
    parts := by
      intro s j hj
      obtain ⟨old,ne⟩ := parts s j hj
      refine ⟨(h.parts s j old).1,fun s' hj' => ?_⟩
      obtain ⟨_,same⟩ | ⟨_,old'⟩ := dests s' j hj'
      · subst same
        exact ne (h.names s _ j old part)
      · exact (h.parts s j old).2 s' old'
    names := fun s s' j hj hj' => h.names s s' j (parts s j hj).1 (parts s' j hj').1
    whole := by
      intro s j hj
      obtain ⟨_,same⟩ | ⟨_,old⟩ := dests s j hj
      · subst same
        exact ⟨packs.known,packs.past,b,update_self ..,whole⟩
      · obtain ⟨known,past,b',stored,whole'⟩ := h.whole s j old
        have ne : b' ≠ b := by
          rintro rfl
          rw [packs.first] at stored
          cases stored
        exact ⟨known,past,b',(update_of_ne ne ..).trans stored,whole'⟩
    ages := by
      intro s s' j j' hj hj' same
      obtain ⟨here,eq⟩ | ⟨away,old⟩ := dests s j hj
      · obtain ⟨here',_⟩ | ⟨away',old'⟩ := dests s' j' hj'
        · exact here.trans here'.symm
        · subst eq
          exact absurd same.symm (aged s' j' j away' old' part)
      · obtain ⟨_,eq⟩ | ⟨_,old'⟩ := dests s' j' hj'
        · subst eq
          exact absurd same (aged s j j' away old part)
        · exact h.ages s s' j j' old old' same
    begun := by
      intro b' live'
      change ((w.to b .published).builds b').started ≤ w.now
      rw [(to_stamp w b b' _).2]
      exact h.begun b' (to_was _ (fun _ => live) live')
    older := by
      intro b' j building hj
      change ((w.to b .published).builds b').stage.building = true at building
      have ne : b' ≠ b := by
        rintro rfl
        rw [to_self] at building
        cases building
      rw [to_other ne] at building
      change (w.dests.set _ i).get ((w.to b .published).builds b').stamp = some j at hj
      rw [to_other ne] at hj
      change w.mtime j ≤ ((w.to b .published).builds b').started
      rw [to_other ne]
      obtain ⟨here,_⟩ | ⟨_,old⟩ := dests _ j hj
      · exact absurd (h.apart b' b (live_of_building building) live here) ne
      · exact h.older b' j building old
    prunes := by
      intro p prune hp s hs j hj
      obtain ⟨here,_⟩ | ⟨_,old⟩ := dests s j hj
      · exact absurd (here ▸ hs) (unlisted p prune hp)
      · refine le_trans (h.prunes p prune hp s hs j old) (newer_set fun k hk later => ?_)
        have before := h.older b k unfinished hk
        exact lt_of_lt_of_le later (le_trans before packs.young)}

theorem stat_eq (h : w.dests.get s = some i) : w.stat s = w.mtime i := by
  unfold World.stat
  rw [h]
  rfl

theorem Sound.toDelete_old (h : Sound w) {names : List Nat}
    (listing : names.Perm w.dests.keys) (hs : s ∈ w.toDelete keep names)
    (hi : w.dests.get s = some i) : keep ≤ w.newer (w.mtime i) := by
  unfold World.toDelete at hs
  simp only at hs
  have total : Std.Total fun a b => w.stat a ≤ w.stat b := ⟨fun a b => le_total _ _⟩
  have trans : IsTrans Nat fun a b => w.stat a ≤ w.stat b := ⟨fun a b c => le_trans⟩
  have sorted := pairwise_insertionSort (fun a b => w.stat a ≤ w.stat b) names
  have perm := (perm_insertionSort (fun a b => w.stat a ≤ w.stat b) names).trans listing
  generalize names.insertionSort (fun a b => w.stat a ≤ w.stat b) = snapshots at hs sorted perm
  have nodup : snapshots.Nodup := perm.nodup_iff.mpr w.dests.nodup
  have parts := take_append_drop (snapshots.length-keep) snapshots
  rw [←parts,pairwise_append] at sorted
  rw [←parts,nodup_append] at nodup
  have kept : (snapshots.drop (snapshots.length-keep)).length = keep := by
    have some_ : 0 < (snapshots.take (snapshots.length-keep)).length := length_pos_of_mem hs
    rw [length_take] at some_
    rw [length_drop]
    omega
  -- every name that is kept is counted
  have counted : snapshots.drop (snapshots.length-keep) ⊆
      (w.dests.items.filter fun p => w.mtime i < w.mtime p.2).map Prod.fst := by
    intro t ht
    have stored : t ∈ w.dests.keys := perm.mem_iff.mp (mem_of_mem_drop ht)
    obtain ⟨j,hj⟩ := Dict.mem_keys.mp stored
    have order := sorted.2.2 s hs t ht
    rw [stat_eq hi,stat_eq hj] at order
    have apart : w.mtime i ≠ w.mtime j := by
      intro same
      exact nodup.2.2 s hs t ht (h.ages s t i j hi hj same)
    refine mem_map.mpr ⟨(t,j),mem_filter.mpr ⟨Dict.get_eq_some_iff.mp hj,?_⟩,rfl⟩
    exact decide_eq_true (lt_of_le_of_ne order apart)
  have fits := (subperm_of_subset nodup.2.1 counted).length_le
  rw [kept,length_map,←countP_eq_length_filter] at fits
  exact fits

theorem Sound.list (h : Sound w) {names : List Nat}
    (listing : names.Perm w.dests.keys) (meets : Meets w (.list p keep names)) :
    Sound {w with prunes := update w.prunes p (some ⟨keep,w.toDelete keep names⟩)} := by
  have prunes : ∀ p' prune, update w.prunes p (some ⟨keep,w.toDelete keep names⟩) p' =
      some prune → prune = ⟨keep,w.toDelete keep names⟩ ∨ w.prunes p' = some prune := by
    intro p' prune
    by_cases eq : p' = p
    · rw [eq,update_self]
      exact fun hp => .inl (Option.some.inj hp).symm
    · rw [update_of_ne eq]
      exact .inr
  exact {h with
    placed := fun b => (h.placed b).same _ w.sweeps
    prunes := by
      intro p' prune hp s hs i hi
      obtain rfl | old := prunes p' prune hp
      · exact h.toDelete_old listing hs hi
      · exact h.prunes p' prune old s hs i hi
    keeps := by
      intro p₁ p₂ prune₁ prune₂ h₁ h₂ some₁ some₂
      obtain rfl | old₁ := prunes p₁ prune₁ h₁
      · obtain rfl | old₂ := prunes p₂ prune₂ h₂
        · rfl
        · exact (meets p₂ prune₂ old₂ some₂).symm
      · obtain rfl | old₂ := prunes p₂ prune₂ h₂
        · exact meets p₁ prune₁ old₁ some₁
        · exact h.keeps p₁ p₂ prune₁ prune₂ old₁ old₂ some₁ some₂}

theorem Sound.dwindle (h : Sound w) {prune? : Option Prune}
    (less : ∀ prune', prune? = some prune' → ∃ prune, w.prunes p = some prune ∧
      prune'.keep = prune.keep ∧ prune'.todo ⊆ prune.todo) :
    Sound {w with prunes := update w.prunes p prune?} := by
  have prunes : ∀ p' prune', update w.prunes p prune? p' = some prune' →
      ∃ prune, w.prunes p' = some prune ∧ prune'.keep = prune.keep ∧ prune'.todo ⊆ prune.todo := by
    intro p' prune'
    by_cases eq : p' = p
    · rw [eq,update_self]
      exact less prune'
    · rw [update_of_ne eq]
      exact fun hp => ⟨prune',hp,rfl,fun _ => id⟩
  exact {h with
    placed := fun b => (h.placed b).same _ w.sweeps
    prunes := by
      intro p' prune' hp s hs i hi
      obtain ⟨prune,old,keep,todo⟩ := prunes p' prune' hp
      rw [keep]
      exact h.prunes p' prune old s (todo hs) i hi
    keeps := by
      intro p₁ p₂ prune₁ prune₂ h₁ h₂ some₁ some₂
      obtain ⟨old₁,stored₁,keep₁,todo₁⟩ := prunes p₁ prune₁ h₁
      obtain ⟨old₂,stored₂,keep₂,todo₂⟩ := prunes p₂ prune₂ h₂
      rw [keep₁,keep₂]
      refine h.keeps p₁ p₂ old₁ old₂ stored₁ stored₂ (fun none_ => ?_) (fun none_ => ?_)
      · rw [none_] at todo₁
        exact some₁ (subset_nil.mp todo₁)
      · rw [none_] at todo₂
        exact some₂ (subset_nil.mp todo₂)}

theorem get_restrict_ne
    (h : (w.dests.restrict (· ≠ stamp)).get s = some i) : w.dests.get s = some i ∧ s ≠ stamp := by
  rw [Dict.get_restrict] at h
  split at h
  case isTrue ne => exact ⟨h,of_decide_eq_true ne⟩
  case isFalse => cases h

theorem Sound.delete (h : Sound w) {todo : List Nat} (hp : w.prunes p = some ⟨keep,stamp::todo⟩) :
    Sound {w with dests := w.dests.restrict (· ≠ stamp)} := by
  exact {h with
    placed := fun b => (h.placed b).frame (fun _ _ packs => ⟨packs.frame rfl rfl (fun _ _ => id)
      (fun s hs => packs.hidden s (get_restrict_ne hs).1) rfl le_rfl le_rfl rfl,
      rfl⟩) (fun _ _ => rfl) rfl rfl
    parts := fun s i hi => ⟨(h.parts s i hi).1,fun s' hs' =>
      (h.parts s i hi).2 s' (get_restrict_ne hs').1⟩
    whole := fun s i hi => h.whole s i (get_restrict_ne hi).1
    ages := fun s s' i i' hi hi' => h.ages s s' i i' (get_restrict_ne hi).1 (get_restrict_ne hi').1
    older := fun b i building hi => h.older b i building (get_restrict_ne hi).1
    prunes := by
      intro p' prune hp' s hs j hj
      obtain ⟨stored,_⟩ := get_restrict_ne hj
      change prune.keep ≤ {w with dests := w.dests.restrict (· ≠ stamp)}.newer (w.mtime j)
      cases gone : w.dests.get stamp with
      | none =>
        rw [newer_restrict fun i hi => by rw [gone] at hi; cases hi]
        exact h.prunes p' prune hp' s hs j stored
      | some i =>
        by_cases later : w.mtime i ≤ w.mtime j
        · rw [newer_restrict fun i' hi' => by rw [gone] at hi'; cases hi'; exact later]
          exact h.prunes p' prune hp' s hs j stored
        · -- what is newer than the deleted one is newer than this one, too
          have same : prune.keep = keep := h.keeps p' p prune _ hp' hp (ne_nil_of_mem hs)
            (cons_ne_nil _ _)
          rw [same]
          have many : keep ≤ w.newer (w.mtime i) := h.prunes p _ hp stamp (.head _) i gone
          rw [←newer_restrict fun i' hi' => by rw [gone] at hi'; cases hi'; exact le_rfl]
            at many
          exact le_trans many (newer_mono (le_of_lt (lt_of_not_ge later)))}

theorem Sound.tick (h : Sound w) {now : Nat} (later : w.now ≤ now) : Sound {w with now := now} where
  __ := h
  placed := fun b => (h.placed b).frame (fun _ _ packs => ⟨packs.frame rfl rfl (fun _ _ => id)
    packs.hidden rfl later le_rfl rfl,rfl⟩) (fun _ _ => rfl) rfl rfl
  whole := fun s i hi => ⟨(h.whole s i hi).1,le_trans (h.whole s i hi).2.1 later,
    (h.whole s i hi).2.2⟩
  begun := fun b live => le_trans (h.begun b live) later

theorem Sound.start (h : Sound w) (hs : (w.builds b).stage = .idle) (meets : Meets w (.start b)) :
    Sound {w with builds := update w.builds b ⟨.staging,w.now/second,w.now⟩} := by
  have own : update w.builds b ⟨.staging,w.now/second,w.now⟩ b =
    ⟨.staging,w.now/second,w.now⟩ := update_self ..
  have other : ∀ b', b' ≠ b → update w.builds b ⟨.staging,w.now/second,w.now⟩ b' =
    w.builds b' := fun b' ne => update_of_ne ne ..
  exact {h with
    apart := by
      intro b₁ b₂
      change (update w.builds b _ b₁).stage.live = true →
        (update w.builds b _ b₂).stage.live = true →
        (update w.builds b _ b₁).stamp = (update w.builds b _ b₂).stamp → _
      by_cases eq₁ : b₁ = b
      · by_cases eq₂ : b₂ = b
        · exact fun _ _ _ => eq₁.trans eq₂.symm
        · rw [eq₁,own,other b₂ eq₂]
          exact fun _ live stamp => absurd stamp.symm (meets b₂ live)
      · by_cases eq₂ : b₂ = b
        · rw [eq₂,own,other b₁ eq₁]
          exact fun live _ stamp => absurd stamp (meets b₁ live)
        · rw [other b₁ eq₁,other b₂ eq₂]
          exact h.apart b₁ b₂
    fds := by
      intro b₁ b₂ fd'
      change (update w.builds b _ b₁).stage.fd? = some fd' →
        (update w.builds b _ b₂).stage.fd? = some fd' → _
      by_cases eq₁ : b₁ = b
      · rw [eq₁,own]
        exact nofun
      · by_cases eq₂ : b₂ = b
        · rw [eq₂,own]
          exact nofun
        · rw [other b₁ eq₁,other b₂ eq₂]
          exact h.fds b₁ b₂ fd'
    placed := by
      intro b'
      change Placed _ b' (update w.builds b _ b').stage
      by_cases eq : b' = b
      · have placed := h.here hs
        rw [eq,own]
        exact placed
      · rw [other b' eq]
        exact (h.placed b').frame (fun _ _ packs => ⟨packs.frame (congrArg Build.stamp (other b' eq))
          (congrArg Build.started (other b' eq)) (fun _ _ => id) packs.hidden rfl le_rfl
          le_rfl rfl,rfl⟩) (fun _ _ => rfl) rfl rfl
    begun := by
      intro b'
      change (update w.builds b _ b').stage.live = true →
        (update w.builds b _ b').started ≤ w.now
      by_cases eq : b' = b
      · rw [eq,own]
        exact fun _ => le_rfl
      · rw [other b' eq]
        exact h.begun b'
    older := by
      intro b' i
      change (update w.builds b _ b').stage.building = true →
        w.dests.get (update w.builds b _ b').stamp = some i →
        w.mtime i ≤ (update w.builds b _ b').started
      by_cases eq : b' = b
      · rw [eq,own]
        exact fun _ hi => (h.whole _ i hi).2.1
      · rw [other b' eq]
        exact h.older b' i}

theorem Sound.sweeps (h : Sound w) (sweeps : Nat → Option Nat) :
    Sound {w with sweeps := sweeps} where
  apart := h.apart
  fds := h.fds
  placed := fun b => (h.placed b).same w.prunes sweeps
  parts := h.parts
  names := h.names
  whole := h.whole
  ages := h.ages
  begun := h.begun
  older := h.older
  prunes := h.prunes
  keeps := h.keeps

theorem closed_of_done (h : stage.building = false) : stage.fd? = none := by
  cases stage with
  | packing | packed => cases h
  | _ => rfl

attribute [local simp] next

theorem Sound.step {act : Act} (h : Sound w) (meets : Meets w act) (step : Step w act w') :
    Sound w' := by
  unfold Step at step
  cases act with simp only [next] at step
  | start b =>
    split at step <;> cases step
    rename_i hs
    refine (h.start hs meets).plant [([],.dir)] ?_
    change (update w.builds b _ b).stage.fd? = none
    rw [update_self]
    rfl
  | write b path node | remove b path =>
    split at step <;> cases step
    rename_i hs
    exact h.plant _ (by rw [hs]; rfl)
  | openPart b =>
    split at step <;> cases step
    rename_i hs
    exact h.openPart hs
  | pack b =>
    split at step
    case h_1 fd offset path todo hs =>
      have placed := h.here hs
      split at step
      case h_1 found =>
        cases step
        rw [placed.2.1] at found ⊢
        exact h.pack hs fun rest walked => .dir found walked
      case h_2 content found =>
        cases step
        rw [placed.2.1] at found
        exact h.pack hs fun rest walked => .file found walked
      case h_3 =>
        cases step
        exact h.to (fun _ => by rw [hs]; rfl) (by intros; contradiction) rfl trivial
    case h_2 => cases step
  | close b =>
    split at step <;> cases step
    rename_i fd offset hs
    exact h.close hs
  | publish b =>
    split at step
    case h_1 fd hs =>
      split at step
      case h_1 i part =>
        cases step
        exact h.publish hs part meets
      case h_2 =>
        cases step
        exact h.to (fun _ => by rw [hs]; rfl) (by intros; contradiction) rfl trivial
    case h_2 => cases step
  | report b =>
    split at step <;> cases step
    rename_i hs
    have placed := h.here hs
    refine h.to (fun _ => by rw [hs]; rfl) (by intros; contradiction) rfl ?_
    cases (w.dests.get (w.builds b).stamp).isSome with
    | false => trivial
    | true => exact placed
  | fail b =>
    split at step
    case h_1 hs | h_2 hs | h_3 hs =>
      cases step
      exact h.to (fun _ => by rw [hs]; rfl) (by intros; contradiction) rfl trivial
    case h_4 => cases step
  | unlinkPart b =>
    split at step <;> cases step
    rename_i ok hs
    have placed := h.here hs
    have moved : Sound (w.to b (.removing ok)) := by
      refine h.to (by intros; contradiction) (by intros; contradiction) rfl ?_
      cases ok with
      | false => trivial
      | true => exact placed
    exact moved.unname _
  | finish b =>
    split at step <;> cases step
    rename_i ok hs
    have placed := h.here hs
    cases ok with
    | false =>
      change Sound (w.to b .failed)
      exact h.to (by intros; contradiction) (by intros; contradiction) rfl trivial
    | true =>
      change Sound (w.to b .returned)
      exact h.to (by intros; contradiction) (by intros; contradiction) rfl placed
  | kill b =>
    (repeat' split at step) <;> first
      | cases step; done
      | (cases step; exact h.to (by intros; contradiction) (by intros; contradiction) rfl trivial)
  | sweepTree b path =>
    split at step <;> cases step
    exact h.plant _ (closed_of_done meets)
  | seePart q stamp =>
    split at step
    · split at step <;> cases step
      exact h.sweeps _
    · cases step
  | sweepPart q =>
    split at step <;> cases step
    rename_i stamp _
    exact (h.unname stamp).sweeps _
  | list p keep names =>
    split at step <;> cases step
    rename_i listing
    exact h.list listing.2.2 meets
  | unlink p =>
    split at step <;> cases step
    rename_i keep stamp todo hp
    refine (h.delete hp).dwindle fun prune' eq => ⟨_,hp,?_⟩
    cases eq
    exact ⟨rfl,subset_cons_self ..⟩
  | endPrune p =>
    cases step
    exact h.dwindle (by intros; contradiction)
  | tick now =>
    split at step <;> cases step
    rename_i later
    exact h.tick later

theorem Sound.stays (h : Sound w) {act : Act} (step : Step w act w')
    (kept : ∀ p, act ≠ .unlink p) (old : ∀ b, act ≠ .publish b)
    (hi : w.dests.get s = some i) : w'.dests.get s = some i ∧ w'.files i = w.files i := by
  have written : ∀ {b fd offset : Nat} {block : Block}, (w.builds b).stage.fd? = some fd →
      (w.writes fd offset block).files i = w.files i := by
    intro b fd offset block hfd
    refine update_of_ne ?_ ..
    rintro rfl
    exact (h.packs hfd).hidden s hi
  unfold Step at step
  cases act with simp only [next] at step
  | unlink p => exact absurd rfl (kept p)
  | publish b => exact absurd rfl (old b)
  | openPart b =>
    split at step <;> cases step
    change (w.truncate (w.builds b).stamp).2.dests.get s = some i ∧
      (w.truncate (w.builds b).stamp).2.files i = w.files i
    unfold World.truncate
    split
    case h_1 j part =>
      refine ⟨hi,update_of_ne ?_ ..⟩
      rintro rfl
      exact (h.parts _ i part).2 s hi
    case h_2 =>
      refine ⟨hi,update_of_ne ?_ ..⟩
      rintro rfl
      exact lt_irrefl _ (h.whole s _ hi).1
  | pack b =>
    split at step
    case h_1 fd offset path todo hs =>
      have hfd : (w.builds b).stage.fd? = some fd := by
        rw [hs]
        rfl
      split at step
      · cases step
        exact ⟨hi,written hfd⟩
      · cases step
        exact ⟨hi,written hfd⟩
      · cases step
        exact ⟨hi,rfl⟩
    case h_2 => cases step
  | close b =>
    split at step <;> cases step
    rename_i fd offset hs
    refine ⟨hi,written (b := b) ?_⟩
    rw [hs]
    rfl
  | _ =>
    (repeat' split at step) <;> first | cases step; done | (cases step; exact ⟨hi,rfl⟩)

theorem Sound.kept {act : Act} (h : Sound w) (step : Step w act w') : Kept w act w' := by
  cases act with have taken := step
  | unlink p =>
    unfold Step at taken
    simp only [next] at taken
    split at taken <;> cases taken
    rename_i keep stamp todo hp
    exact {
      archive := by
        intro s i hi
        by_cases eq : s = stamp
        · exact .inr (.inl ⟨p,keep,todo,rfl,eq ▸ hp⟩)
        · refine .inl ⟨?_,rfl⟩
          change (w.dests.restrict _).get s = some i
          rw [Dict.get_restrict,if_pos (decide_eq_true eq)]
          exact hi
      pruned := by
        intro p' keep' s todo' i eq hp' hi
        cases eq
        cases hp.symm.trans hp'
        have many := h.prunes p _ hp _ (.head _) i hi
        rw [←newer_restrict fun j hj => by
          rw [hi] at hj
          cases hj
          exact le_rfl] at many
        exact many
      published := fun _ eq => by cases eq}
  | publish b =>
    unfold Step at taken
    simp only [next] at taken
    split at taken
    case h_1 fd hs =>
      have placed := h.here hs
      split at taken
      case h_1 i part =>
        cases taken
        exact {
          archive := by
            intro s j hj
            by_cases eq : s = (w.builds b).stamp
            · refine .inr (.inr ⟨b,rfl,eq.symm,?_⟩)
              change ((w.to b .published).builds b).stage = _
              rw [to_self]
            · refine .inl ⟨?_,rfl⟩
              change (w.dests.set _ i).get s = some j
              rw [Dict.get_set_other _ _ eq]
              exact hj
          pruned := fun _ _ _ _ _ eq => by cases eq
          published := by
            intro b' eq _
            cases eq
            refine ⟨i,Dict.get_set_self ..,?_⟩
            rw [placed.1.named i part]
            exact placed.2}
      case h_2 =>
        cases taken
        exact {
          archive := fun s j hj => .inl ⟨hj,rfl⟩
          pruned := fun _ _ _ _ _ eq => by cases eq
          published := by
            intro b' eq stage
            cases eq
            rw [to_self] at stage
            cases stage}
    case h_2 => cases taken
  | _ =>
    exact {
      archive := fun s i hi => .inl (h.stays step (fun _ => nofun) (fun _ => nofun) hi)
      pruned := fun _ _ _ _ _ eq => by cases eq
      published := fun _ eq => by cases eq}

theorem sound_start : Sound {} where
  apart := fun _ _ live => by cases live
  fds := fun _ _ _ hfd => by cases hfd
  placed := fun _ => rfl
  parts := fun _ _ hi => by cases hi
  names := fun _ _ _ hi => by cases hi
  whole := fun _ _ hi => by cases hi
  ages := fun _ _ _ _ hi => by cases hi
  begun := fun _ live => by cases live
  older := fun _ _ building => by cases building
  prunes := fun _ _ hp => by cases hp
  keeps := fun _ _ _ _ hp => by cases hp

end Proofs

theorem Step.of {w w' : World} (act : Act) (h : next w act = some w') : Step w act w' := h

end CircuitBreaker.SnapshotFiles
