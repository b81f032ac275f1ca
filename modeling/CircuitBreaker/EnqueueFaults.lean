import CircuitBreaker.TornTail

/-! Enqueue on a disk whose actions fail: which errors leave the frame out of the backlog and the
directory as it was. -/

namespace CircuitBreaker.EnqueueFaults
open DiskProgram ByteLines StepRuns SpoolQueue List Option

variable {F : Type}

/-- How an action ends: as it should, before it has any effect, or with an error after so many
bytes. -/
inductive Fault where
  | fine
  | refused
  | after (k : Nat)
  deriving DecidableEq

/-- The disk under an action that stops midway. A sync or close that fails comes after the last
byte; the rename of evicted.json is followed by a sync of its directory. -/
def partly : Act → Nat → Disk → Disk
  | .append f data, k, d => d.set f (some ((d f).getD []++data.take k))
  | .write f data, k, d => d.set f (some (data.take k))
  | .rename source target, _, d =>
      if target = .evicted then (device (.rename source target) d).2 else d
  | .read _, _, d => d
  | .remove _, _, d => d

def next (faults : List Fault) : Fault := faults.headD .fine

def faulty (a : Act) (w : Disk × List Fault) : Answer × Disk × List Fault :=
  match next w.2 with
  | .fine => ((device a w.1).1,(device a w.1).2,w.2.tail)
  | .refused => (.failed,w.1,w.2.tail)
  | .after k => (.failed,partly a k w.1,w.2.tail)

def afterPersist (faults : List Fault) : List Fault :=
  if next faults = .fine then faults.tail.tail else faults.tail

def Spared (faults : List Fault) : Prop :=
  next faults = .fine ∧ next faults.tail = .fine ∧ next faults.tail.tail = .fine

instance (faults : List Fault) : Decidable (Spared faults) :=
  inferInstanceAs (Decidable (_ ∧ _ ∧ _))

/-- What holds after a call. -/
def Ends {α : Type} (p : SpoolProg α) (d : Disk) (faults : List Fault)
    (Q : α → Disk × List Fault → Prop) : Prop := p.wp faulty (fun _ _ => True) Q (d,faults)

theorem Ends.run {α : Type} {p : SpoolProg α} {d : Disk} {faults : List Fault}
    {Q : α → Disk × List Fault → Prop} (h : Ends p d faults Q) :
    Q (p.run faulty (d,faults)).1 (p.run faulty (d,faults)).2 := ((Prog.wp_iff ..).mp h).2

theorem Ends.mono {α : Type} {p : SpoolProg α} {d : Disk} {faults : List Fault}
    {Q Q' : α → Disk × List Fault → Prop} (h : Ends p d faults Q) (hq : ∀ a w, Q a w → Q' a w) :
    Ends p d faults Q' := Prog.wp_mono h (fun _ _ h => h) hq

theorem ends_bind {α β : Type} (p : SpoolProg α) (g : α → SpoolProg β) (d : Disk)
    (faults : List Fault) (Q : β → Disk × List Fault → Prop) :
    Ends (p.bind g) d faults Q ↔ Ends p d faults fun a w => Ends (g a) w.1 w.2 Q :=
  Prog.wp_bind ..

theorem ends_attempt {a : Act} {d : Disk} {faults : List Fault}
    {Q : Option SpoolError → Disk × List Fault → Prop}
    (fine : next faults = .fine → Q none ((device a d).2,faults.tail))
    (refused : next faults = .refused → Q (some (.io a)) (d,faults.tail))
    (after : ∀ k, next faults = .after k → Q (some (.io a)) (partly a k d,faults.tail)) :
    Ends (attempt a) d faults Q := by
  have works : (device a d).1 ≠ .failed := by
    cases a with
    | read f => cases hf : d f <;> simp [device,hf]
    | append f data | write f data | rename source target => simp [device]
    | remove f => by_cases hf : d f = none <;> simp [device,hf]
  simp only [Ends,attempt,Prog.bind_eq,perform_bind,Prog.wp,faulty]
  refine ⟨trivial,?_⟩
  cases hx : next faults with
  | fine =>
    simp only
    generalize (device a d).1 = answer at works
    cases answer with
    | failed => exact absurd rfl works
    | ok | missing | content data => exact fine hx
  | refused => exact refused hx
  | after k => exact after k hx

section
variable {c : Codec F} {s : Spool F} {d : Disk} {faults : List Fault}

theorem persistEvictionsLocked_faulty (stats : ∃ e, StatsStored c e d) :
    Ends (persistEvictionsLocked c s) d faults fun _ w => (∃ e, StatsStored c e w.1) ∧
      w.1 .queue = d .queue ∧ w.1 .head = d .head ∧ w.2 = afterPersist faults := by
  simp only [persistEvictionsLocked,Prog.bind_eq,ends_bind]
  refine ends_attempt (fun fine => ?_) (fun refused => ?_) (fun k after => ?_)
  · simp only
    refine ends_attempt (fun _ => ?_) (fun _ => ?_) (fun k _ => ?_)
    · exact ⟨⟨s.evicted,.inr rfl⟩,rfl,rfl,(if_pos fine).symm⟩
    · exact ⟨stats,rfl,rfl,(if_pos fine).symm⟩
    · exact ⟨⟨s.evicted,.inr rfl⟩,rfl,rfl,(if_pos fine).symm⟩
  · exact ⟨stats,rfl,rfl,(if_neg (by simp [refused])).symm⟩
  · exact ⟨stats,rfl,rfl,(if_neg (by simp [after])).symm⟩

theorem compactLocked_faulty (h : ∀ e ∈ s.live, e.Encoded c) :
    Ends (compactLocked c s) d faults fun r w =>
      (Spared faults → r = (s.compacted,none) ∧ w.1 .queue = some (unlines (linesOf c s.live)) ∧
        w.1 .head = none ∧ w.1 .evicted = d .evicted) ∧
      (¬Spared faults → r.2 ≠ none ∧ r.1.origin = s.origin ∧ r.1.live.length = s.live.length) := by
  simp only [compactLocked,encodeAll_encoded h,Prog.bind_eq,ends_bind]
  have failed {a : Act} {w : Disk × List Fault} (bad : ¬Spared faults) :
      (Spared faults → (s,some (SpoolError.io a)) = (s.compacted,none) ∧
        w.1 .queue = some (unlines (linesOf c s.live)) ∧ w.1 .head = none ∧
        w.1 .evicted = d .evicted) ∧
      (¬Spared faults → some (SpoolError.io a) ≠ none ∧ s.origin = s.origin ∧
        s.live.length = s.live.length) := ⟨fun spared => absurd spared bad,fun _ => ⟨by simp,rfl,rfl⟩⟩
  refine ends_attempt (fun first => ?_) (fun bad => failed (by simp [Spared,bad]))
    (fun k bad => failed (by simp [Spared,bad]))
  simp only [ends_bind]
  refine ends_attempt (fun second => ?_) (fun bad => failed (by simp [Spared,bad]))
    (fun k bad => failed (by simp [Spared,bad]))
  simp only [removeHeadMarker,ends_bind]
  have late {w : Disk × List Fault} (bad : ¬Spared faults) :
      (Spared faults → (s.compacted,some (SpoolError.io (.remove .head))) = (s.compacted,none) ∧
        w.1 .queue = some (unlines (linesOf c s.live)) ∧ w.1 .head = none ∧
        w.1 .evicted = d .evicted) ∧
      (¬Spared faults → some (SpoolError.io (.remove .head)) ≠ none ∧
        s.compacted.origin = s.origin ∧ s.compacted.live.length = s.live.length) :=
    ⟨fun spared => absurd spared bad,fun _ => ⟨by simp,rfl,rfl⟩⟩
  refine ends_attempt (fun third => ?_) (fun bad => late (by simp only [Spared,bad]; simp))
    (fun k bad => late (by simp only [Spared,bad]; simp))
  exact ⟨fun _ => ⟨rfl,rfl,rfl,rfl⟩,fun bad => absurd ⟨first,second,third⟩ bad⟩

/-- The queue and its marker in step with the memory; the record of losses may lag behind. -/
def InStep (c : Codec F) (s : Spool F) (d : Disk) : Prop := ∃ e, Stored c {s with evicted := e} d

theorem InStep.inMemory (h : InStep c s d) : InMemory c s := by
  obtain ⟨e,stored⟩ := h
  exact ⟨stored.encoded,stored.head_le,stored.bytes_eq⟩

theorem InStep.stats (h : InStep c s d) : ∃ e, StatsStored c e d := by
  obtain ⟨e,stored⟩ := h
  exact ⟨e,stored.stats⟩

def Entered (s s' : Spool F) : Prop := s.origin+s.live.length < s'.origin+s'.live.length

def Spool.roomy (c : Codec F) (s : Spool F) (now : Int) : Spool F :=
  s.dropOldest (s.evictions c) now

theorem roomy_live (c : Codec F) (s : Spool F) (now : Int) :
    (Spool.roomy c s now).live = s.live.drop (s.evictions c).1 := by
  simp [Spool.roomy,Spool.dropOldest,Spool.live]

theorem makeRoom_faulty (h : InMemory c s) (stats : ∃ e, StatsStored c e d) (now : Int) :
    Ends (makeRoom c s now) d faults fun r w =>
      ((s.evictions c).1 = 0 → r = (s,none) ∧ w.1 = d) ∧
      ((s.evictions c).1 ≠ 0 → Spared (afterPersist faults) → r.2 = none ∧ InStep c r.1 w.1 ∧
        r.1.live = s.live.drop (s.evictions c).1) ∧
      (¬((s.evictions c).1 = 0 ∨ Spared (afterPersist faults)) → r.2 ≠ none) ∧
      r.1.origin+r.1.live.length = s.origin+s.live.length := by
  have few : (s.evictions c).1 ≤ s.live.length := by
    have := (evictLoop_spec c s.capBytes s.live s.bytes .empty).1
    simp only [Spool.evictions]
    omega
  unfold makeRoom
  simp only
  split
  · rename_i none
    have none : (s.evictions c).1 = 0 := none
    exact ⟨fun _ => ⟨rfl,rfl⟩,fun some => absurd none some,fun bad => absurd (.inl none) bad,rfl⟩
  · rename_i some
    have some : (s.evictions c).1 ≠ 0 := some
    have live := roomy_live c s now
    have encoded : ∀ e ∈ (Spool.roomy c s now).live, e.Encoded c := by
      intro e mem
      rw [live] at mem
      exact h.encoded e (mem_of_mem_drop (mem_of_mem_drop mem))
    have len : (Spool.roomy c s now).origin+(Spool.roomy c s now).live.length =
        s.origin+s.live.length := by
      rw [live,length_drop]
      simp only [Spool.roomy,Spool.dropOldest]
      omega
    simp only [Prog.bind_eq,ends_bind]
    refine (persistEvictionsLocked_faulty stats).mono fun _ w hw => ?_
    obtain ⟨⟨e,he⟩,queue,head,rest⟩ := hw
    rw [rest]
    refine (compactLocked_faulty encoded).mono fun r w' hr => ?_
    by_cases spared : Spared (afterPersist faults)
    · obtain ⟨rfl,queue',head',evicted⟩ := hr.1 spared
      refine ⟨fun none => absurd none some,fun _ _ => ⟨rfl,⟨e,?_⟩,live⟩,
        fun bad => absurd (.inr spared) bad,len⟩
      refine ⟨encoded,Nat.zero_le _,rfl,?_,⟨Nat.two_pow_pos 63,.inl ⟨head',rfl⟩⟩,?_⟩
      · rw [Holds,queue']
        rfl
      · rw [StatsStored] at he ⊢
        rwa [evicted]
    · obtain ⟨err,origin,length⟩ := hr.2 spared
      refine ⟨fun none => absurd none some,fun _ fine => absurd fine spared,fun _ => err,?_⟩
      rw [origin,length]
      exact len

/-! Enqueue. -/

theorem enqueue_unencodable {f : F} (he : c.encode f = none) (now : Int) :
    (enqueue c s f now).run faulty (d,faults) = ((s,some .encode),d,faults) := by
  simp [enqueue,he,Prog.run]

theorem enqueue_refused {f : F} {data : Bytes} (he : c.encode f = some data) (now : Int)
    (refused : next faults = .refused) : (enqueue c s f now).run faulty (d,faults) =
      ((s,some (.io (.append .queue (data++[newline])))),d,faults.tail) := by
  simp [enqueue,he,attempt,perform,Prog.run,faulty,refused]

theorem enqueue_partly {f : F} {data : Bytes} (he : c.encode f = some data) (now : Int) {k : Nat}
    (after : next faults = .after k) : (enqueue c s f now).run faulty (d,faults) =
      ((s,some (.io (.append .queue (data++[newline])))),
        d.appended ((data++[newline]).take k),faults.tail) := by
  simp [enqueue,he,attempt,perform,Prog.run,faulty,after,partly,Disk.appended]

def Room (s : Spool F) (data : Bytes) : Prop :=
  s.bytes+((data.length : Int)+1) ≤ s.capBytes ∨ s.live = []

theorem room_iff (h : InMemory c s) (f : F) (data : Bytes) :
    Room s data ↔ ((s.push f data).evictions c).1 = 0 := by
  rw [evictions_eq_zero_iff,Spool.live_push h.head_le,length_append,length_singleton,Room,
    ← length_eq_zero_iff]
  simp only [Spool.push]
  omega

theorem enqueue_whole (h : InMemory c s) (stats : ∃ e, StatsStored c e d) {f : F} {data : Bytes}
    (he : c.encode f = some data) (now : Int) (fine : next faults = .fine) :
    Ends (enqueue c s f now) d faults fun r w =>
      (Room s data → r = (s.push f data,none) ∧ w.1 = d.appended (data++[newline])) ∧
      (¬Room s data → Spared (afterPersist faults.tail) → r.2 = none ∧ InStep c r.1 w.1 ∧
        r.1.live = (s.push f data).live.drop ((s.push f data).evictions c).1) ∧
      (¬(Room s data ∨ Spared (afterPersist faults.tail)) → r.2 ≠ none) ∧ Entered s r.1 := by
  simp only [enqueue,he,Prog.bind_eq,ends_bind]
  refine ends_attempt (fun _ => ?_) (fun bad => ?_) (fun k bad => ?_)
  · simp only
    have stats : ∃ e, StatsStored c e (device (.append .queue (data++[newline])) d).2 := stats
    refine (makeRoom_faulty (h.push he) stats now).mono fun r w hr => ?_
    rw [room_iff h f data]
    refine ⟨hr.1,hr.2.1,hr.2.2.1,?_⟩
    rw [Entered,hr.2.2.2,Spool.live_push h.head_le,length_append]
    simp only [Spool.push,length_singleton]
    omega
  · rw [fine] at bad
    cases bad
  · rw [fine] at bad
    cases bad

/-! Later frames. -/

/-- Calls of Enqueue one after another, each on a disk with faults of its own, none of which
returns an error. -/
def enqueueAll (c : Codec F) : List (F × Int × List Fault) → Spool F → Disk → Option (Spool F × Disk)
  | [], s, d => some (s,d)
  | (f,now,faults) :: rest, s, d =>
      let out := (enqueue c s f now).run faulty (d,faults)
      if out.1.2 = none then enqueueAll c rest out.1.1 out.2.1 else none

attribute [local simp] enqueueAll

def framesOf (later : List (F × Int × List Fault)) : List (F × Int) :=
  later.map fun x => (x.1,x.2.1)

theorem enqueue_succeeded (h : InMemory c s) (stats : ∃ e, StatsStored c e d) {f : F} {now : Int}
    (ok : ((enqueue c s f now).run faulty (d,faults)).1.2 = none) :
    ∃ data, c.encode f = some data ∧
      (((s.push f data).evictions c).1 = 0 →
        ((enqueue c s f now).run faulty (d,faults)).1.1 = s.push f data ∧
        ((enqueue c s f now).run faulty (d,faults)).2.1 = d.appended (data++[newline])) ∧
      (((s.push f data).evictions c).1 ≠ 0 →
        InStep c ((enqueue c s f now).run faulty (d,faults)).1.1
          ((enqueue c s f now).run faulty (d,faults)).2.1 ∧
        ((enqueue c s f now).run faulty (d,faults)).1.1.live =
          (s.push f data).live.drop ((s.push f data).evictions c).1) := by
  cases he : c.encode f with
  | none =>
    rw [enqueue_unencodable he] at ok
    cases ok
  | some data =>
    refine ⟨data,rfl,?_⟩
    have room := room_iff h f data
    cases hx : next faults with
    | refused =>
      rw [enqueue_refused he now hx] at ok
      cases ok
    | after k =>
      rw [enqueue_partly he now hx] at ok
      cases ok
    | fine =>
      obtain ⟨roomy,evicting,failing,-⟩ := (enqueue_whole h stats he now hx).run
      refine ⟨fun none => ?_,fun some => ?_⟩
      · obtain ⟨same,disk⟩ := roomy (room.mpr none)
        rw [same]
        exact ⟨rfl,disk⟩
      · have full : ¬Room s data := fun left => some (room.mp left)
        by_cases spared : Spared (afterPersist faults.tail)
        · exact (evicting full spared).2
        · exact absurd ok (failing (not_or.mpr ⟨full,spared⟩))

theorem InStep.push (h : InStep c s d) {f : F} {data : Bytes} (he : c.encode f = some data) :
    InStep c (s.push f data) (d.appended (data++[newline])) := by
  obtain ⟨e,stored⟩ := h
  exact ⟨e,stored.push he⟩

theorem enqueueAll_encodable {later : List (F × Int × List Fault)} {s' : Spool F} {d' : Disk}
    (ok : enqueueAll c later s d = some (s',d')) : ∀ x ∈ framesOf later, c.encode x.1 ≠ none := by
  induction later generalizing s d with
  | nil => exact nofun
  | cons x later ih =>
    obtain ⟨f,now,faults⟩ := x
    simp only [enqueueAll] at ok
    split at ok
    · rename_i fine
      intro y hy
      rcases mem_cons.mp hy with rfl | hy
      · intro none
        rw [enqueue_unencodable none] at fine
        cases fine
      · exact ih ok y hy
    · cases ok

theorem enqueueAll_inStep {later : List (F × Int × List Fault)} {s' : Spool F} {d' : Disk}
    (h : InStep c s d) (ok : enqueueAll c later s d = some (s',d')) :
    InStep c s' d' ∧ s'.live.length ≤ s.live.length+later.length := by
  induction later generalizing s d with
  | nil =>
    cases ok
    exact ⟨h,le_rfl⟩
  | cons x later ih =>
    obtain ⟨f,now,faults⟩ := x
    simp only [enqueueAll] at ok
    split at ok
    · rename_i fine
      obtain ⟨data,he,roomy,evicting⟩ := enqueue_succeeded h.inMemory h.stats fine
      have live : (s.push f data).live.length = s.live.length+1 := by
        simp [Spool.live_push h.inMemory.head_le]
      by_cases none : ((s.push f data).evictions c).1 = 0
      · obtain ⟨hs,hd⟩ := roomy none
        rw [hs,hd] at ok
        obtain ⟨step,len⟩ := ih (h.push he) ok
        exact ⟨step,by simp only [length_cons]; omega⟩
      · obtain ⟨step,dropped⟩ := evicting none
        obtain ⟨step',len⟩ := ih step ok
        rw [dropped,length_drop] at len
        exact ⟨step',by simp only [length_cons]; omega⟩
    · cases ok

theorem enqueueAll_outcome {later : List (F × Int × List Fault)} {s' : Spool F} {d' : Disk}
    (h : InMemory c s) (stats : ∃ e, StatsStored c e d)
    (ok : enqueueAll c later s d = some (s',d')) :
    (Fits c s (framesOf later) → Appended c (framesOf later) s d s' d') ∧
      (¬Fits c s (framesOf later) → InStep c s' d' ∧
        s'.live.length < s.live.length+(framesOf later).length) := by
  induction later generalizing s d with
  | nil =>
    cases ok
    refine ⟨fun _ => ?_,fun full => absurd (.inl rfl) full⟩
    exact ⟨by simp [framesOf,entriesOf],rfl,rfl,h,by simp [framesOf,entriesOf,linesOf],rfl,rfl⟩
  | cons x later ih =>
    obtain ⟨f,now,faults⟩ := x
    simp only [enqueueAll] at ok
    split at ok
    · rename_i fine
      obtain ⟨data,he,roomy,evicting⟩ := enqueue_succeeded h stats fine
      have live : (s.push f data).live.length = s.live.length+1 := by
        simp [Spool.live_push h.head_le]
      have cons : framesOf ((f,now,faults) :: later) = (f,now) :: framesOf later := rfl
      rw [cons]
      by_cases none : ((s.push f data).evictions c).1 = 0
      · obtain ⟨hs,hd⟩ := roomy none
        rw [hs,hd] at ok
        obtain ⟨appended,full⟩ := @ih (s.push f data) (d.appended (data++[newline]))
          (h.push he) stats ok
        refine ⟨fun all => ?_,fun some => ?_⟩
        · exact (appended ((fits_cons h he).mp all).2).cons he
        · have some := full fun all => some ((fits_cons h he).mpr ⟨none,all⟩)
          refine ⟨some.1,?_⟩
          have := some.2
          simp only [length_cons]
          omega
      · obtain ⟨step,dropped⟩ := evicting none
        obtain ⟨step',len⟩ := enqueueAll_inStep step ok
        rw [dropped,length_drop,live] at len
        refine ⟨fun all => absurd ((fits_cons h he).mp all).1 none,fun _ => ⟨step',?_⟩⟩
        simp only [framesOf,length_cons,length_map]
        omega
    · cases ok

end

/-! The reopened queue. -/

def textsOf (c : Codec F) (s : Spool F) (more : List (F × Int)) : List (Option Bytes) :=
  s.live.map (fun e => c.encode e.f)++more.map fun x => c.encode x.1

/-- Nothing of the backlog or of the further frames is evicted, and the scanner holds their lines. -/
structure Reopens (c : Codec F) (s : Spool F) (more : List (F × Int)) : Prop where
  room : Fits c s more
  short : ∀ e ∈ s.entries, e.n ≤ maxLine
  lines : ∀ e ∈ entriesOf c more, e.n ≤ maxLine

section
variable {c : Codec F} {s s₂ : Spool F} {d d₂ : Disk} {later : List (F × Int × List Fault)}

theorem InStep.yields_iff (h : InStep c s d) (capBytes : Int) (texts : List (Option Bytes)) :
    Yields c capBytes d texts ↔
      (∀ e ∈ s.entries, e.n ≤ maxLine) ∧ s.live.map (fun e => c.encode e.f) = texts := by
  obtain ⟨e,stored⟩ := h
  exact stored.yields_iff capBytes texts

theorem length_textsOf (c : Codec F) (s : Spool F) (more : List (F × Int)) :
    (textsOf c s more).length = s.live.length+more.length := by simp [textsOf]

theorem evicted_not_yields (step : InStep c s₂ d₂)
    (fewer : s₂.live.length < s.live.length+(framesOf later).length) (cap₂ : Int) :
    ¬Yields c cap₂ d₂ (textsOf c s (framesOf later)) := by
  intro yields
  have len := congrArg List.length ((step.yields_iff cap₂ _).mp yields).2
  rw [length_textsOf,length_map] at len
  omega

theorem InStep.reopens_iff (h : InStep c s d) (ok : enqueueAll c later s d = some (s₂,d₂))
    (cap₂ : Int) : Yields c cap₂ d₂ (textsOf c s (framesOf later)) ↔ Reopens c s (framesOf later) := by
  obtain ⟨fits,full⟩ := enqueueAll_outcome h.inMemory h.stats ok
  by_cases room : Fits c s (framesOf later)
  · have appended := fits room
    have step : InStep c s₂ d₂ := by
      obtain ⟨e,stored⟩ := h
      exact ⟨e,Appended.stored stored ⟨appended.entries,appended.head,rfl,
        ⟨appended.memory.encoded,appended.memory.head_le,appended.memory.bytes_eq⟩,appended.queue,
        appended.marker,appended.stats⟩⟩
    have texts : s₂.live.map (fun e => c.encode e.f) = textsOf c s (framesOf later) := by
      rw [appended.live h.inMemory,map_append,entriesOf_texts,textsOf]
    rw [step.yields_iff,and_iff_left texts,appended.entries]
    constructor
    · intro all
      exact ⟨room,fun e he => all e (mem_append_left _ he),
        fun e he => all e (mem_append_right _ he)⟩
    · intro reopens e he
      exact (mem_append.mp he).elim (reopens.short e) (reopens.lines e)
  · exact ⟨fun yields => absurd yields (evicted_not_yields (full room).1 (full room).2 cap₂),
      fun reopens => absurd reopens.room room⟩

theorem InStep.behind (h : InStep c s d) {t : Bytes}
    (ok : enqueueAll c later s (d.appended t) = some (s₂,d₂)) {cap₂ : Int}
    (yields : Yields c cap₂ d₂ (textsOf c s (framesOf later))) :
    (d₂ .queue).getD [] = unlines (linesOf c s.entries)++
      (t++unlines (linesOf c (entriesOf c (framesOf later)))) ∧ Marker d₂ s.head ∧
      ∃ e, StatsStored c e d₂ := by
  obtain ⟨fits,full⟩ := @enqueueAll_outcome F c s (d.appended t) later s₂ d₂ h.inMemory h.stats ok
  by_cases room : Fits c s (framesOf later)
  · obtain ⟨e,stored⟩ := h
    have appended := fits room
    have queue := stored.queue
    have marker := stored.marker
    have stats := stored.stats
    rw [Holds] at queue
    rw [Marker] at marker ⊢
    rw [StatsStored] at stats
    refine ⟨?_,?_,e,?_⟩
    · rw [appended.queue,Disk.appended,Disk.set_same,getD_some,queue,append_assoc]
    · rwa [appended.marker]
    · rw [StatsStored]
      rwa [appended.stats]
  · exact absurd yields (evicted_not_yields (full room).1 (full room).2 cap₂)

end

section
variable {c : StrictCodec F} {s s₂ : Spool F} {d d₂ : Disk} {later : List (F × Int × List Fault)}
  {f : F} {data : Bytes}

theorem linesOf_short_iff {c : Codec F} {es : List (Entry F)} (h : ∀ e ∈ es, e.Encoded c) :
    (∀ l ∈ linesOf c es, l.length < maxLine) ↔ ∀ e ∈ es, e.n ≤ maxLine := by
  rw [linesOf,List.forall_mem_map]
  refine forall₂_congr fun e he => ?_
  obtain ⟨data,hd,hn⟩ := h e he
  rw [hd,getD_some,hn]
  omega

theorem InStep.torn_iff (h : InStep c.toCodec s d) (he : c.encode f = some data) {k : Nat}
    (some : 0 < k) (part : k < data.length)
    (ok : enqueueAll c.toCodec later s (d.appended ((data++[newline]).take k)) = .some (s₂,d₂))
    (cap₂ : Int) : Yields c.toCodec cap₂ d₂ (textsOf c.toCodec s (framesOf later)) ↔
      k < maxLine ∧ later = [] ∧ ∀ e ∈ s.entries, e.n ≤ maxLine := by
  have encoded := h.inMemory.encoded
  have head_le := h.inMemory.head_le
  have cut : (data++[newline]).take k = data.take k :=
    take_append_of_le_length (le_of_lt part)
  have piece : (data.take k).length = k := by
    rw [length_take]
    omega
  have nonempty : data.take k ≠ [] := by
    intro none
    rw [none] at piece
    simp only [length_nil] at piece
    omega
  have torn : Torn c.toCodec (data.take k) := by
    refine ⟨f,data,he, take_prefix _ _,fun all => ?_,nonempty⟩
    have := congrArg List.length all
    omega
  rw [cut] at ok
  cases later with
  | nil =>
    cases ok
    obtain ⟨e,stored⟩ := h
    have reads := reads_tail encoded (.inr torn)
    have content : ((d.appended (data.take k)) .queue).getD [] =
        unlines (linesOf c.toCodec s.entries)++data.take k := by
      have queue := stored.queue
      rw [Holds] at queue
      rw [Disk.appended,Disk.set_same,getD_some,queue]
    have texts := linesOf_texts encoded
    have raw := rawLines_tail (linesOf c.toCodec s.entries) (fun l hl => (texts l hl).1)
      (text_plain he ( take_prefix k data)).1
    have same : (s.entries.drop s.head).map (fun e => c.encode e.f) =
        textsOf c.toCodec s (framesOf []) := by simp [textsOf,framesOf,Spool.live]
    have marker : Marker (d.appended (data.take k)) s.head := stored.marker
    have stats : StatsStored c.toCodec e (d.appended (data.take k)) := stored.stats
    rw [reads.yields_iff content encoded marker stats,and_iff_left same,raw,if_neg nonempty,
      forall_mem_append,linesOf_short_iff encoded]
    simp only [forall_mem_singleton,piece,true_and]
    exact And.comm
  | cons x rest =>
    refine ⟨fun yields => ?_,fun all => by cases all.2.1⟩
    obtain ⟨content,marker,e,stats⟩ := h.behind ok yields
    have new := entriesOf_encoded (enqueueAll_encodable ok)
    have others : ∀ e ∈ entriesOf c.toCodec (framesOf rest), e.Encoded c.toCodec :=
      fun e he => new e (mem_cons_of_mem _ he)
    have reads := reads_fused encoded he ( take_prefix k data) nonempty
      (new _ mem_cons_self) others
    have found := ((reads.yields_iff content (fun e he => (mem_append.mp he).elim
      (encoded e) (others e)) marker stats cap₂ _).mp yields).2
    have len := congrArg List.length found
    rw [length_textsOf] at len
    simp only [framesOf,entriesOf,Spool.live,length_drop,length_append,length_map,
      length_cons] at len
    omega

theorem InStep.phantom (h : InStep c.toCodec s d) (he : c.encode f = some data) {k : Nat}
    (whole : data.length ≤ k)
    (ok : enqueueAll c.toCodec later s (d.appended ((data++[newline]).take k)) = some (s₂,d₂))
    (cap₂ : Int) : ¬Yields c.toCodec cap₂ d₂ (textsOf c.toCodec s (framesOf later)) := by
  intro yields
  obtain ⟨content,marker,e,stats⟩ := h.behind ok yields
  have encoded := h.inMemory.encoded
  have head_le := h.inMemory.head_le
  have new := entriesOf_encoded (enqueueAll_encodable ok)
  have frame : (entryOf c.toCodec f).Encoded c.toCodec :=
    ⟨data,he,by rw [entryOf_encoded he]⟩
  -- the number of frames Open finds is off by one, whichever way
  have miscounted {es : List (Entry F)} {torn : Bool} {text : Bytes}
      (reads : Reads c.toCodec text es torn) (same : (d₂ .queue).getD [] = text)
      (all : ∀ e ∈ es, e.Encoded c.toCodec) : (es.drop s.head).length =
        s.live.length+(framesOf later).length := by
    have found := ((reads.yields_iff same all marker stats cap₂ _).mp yields).2
    have len := congrArg List.length found
    rwa [length_textsOf,length_map] at len
  rcases Nat.eq_or_lt_of_le whole with rfl | longer
  · have cut : (data++[newline]).take data.length = data := take_left
    rw [cut] at content
    cases later with
    | nil =>
      have all : ∀ e ∈ s.entries++[entryOf c.toCodec f], e.Encoded c.toCodec := by
        intro e he
        rcases mem_append.mp he with he | he
        · exact encoded e he
        · rw [mem_singleton.mp he]
          exact frame
      simp only [framesOf,entriesOf,linesOf,map_nil,unlines_nil,append_nil] at content
      have len := miscounted (@reads_bare F c s.entries (entryOf c.toCodec f) data all he) content all
      simp only [framesOf,Spool.live,length_drop,length_append,length_map,
        length_nil,length_singleton] at len
      omega
    | cons x rest =>
      have others : ∀ e ∈ entriesOf c.toCodec (framesOf rest), e.Encoded c.toCodec :=
        fun e he => new e (mem_cons_of_mem _ he)
      have reads := reads_fused encoded he (prefix_refl data) (c.nonempty f data he)
        (new _ mem_cons_self) others
      have len := miscounted reads content fun e he => (mem_append.mp he).elim
        (encoded e) (others e)
      simp only [framesOf,entriesOf,Spool.live,length_drop,length_append,length_map,
        length_cons] at len
      omega
  · have cut : (data++[newline]).take k = data++[newline] :=
      take_of_length_le (by rw [length_append]; exact longer)
    rw [cut] at content
    have all : ∀ e ∈ s.entries++entryOf c.toCodec f :: entriesOf c.toCodec (framesOf later),
        e.Encoded c.toCodec := by
      intro e he
      rcases mem_append.mp he with he | he
      · exact encoded e he
      · rcases mem_cons.mp he with rfl | he
        · exact frame
        · exact new e he
    have lines : unlines (linesOf c.toCodec s.entries)++(data++[newline]++
        unlines (linesOf c.toCodec (entriesOf c.toCodec (framesOf later)))) =
          unlines (linesOf c.toCodec
            (s.entries++entryOf c.toCodec f :: entriesOf c.toCodec (framesOf later)))++[] := by
      simp [linesOf,unlines,entryOf,he]
    have len := miscounted (reads_tail all (.inl rfl)) (content.trans lines) all
    simp only [framesOf,entriesOf,Spool.live,length_drop,length_append,length_map,
      length_cons] at len
    omega

end

/-! The claim on one call. -/

/-- An error says that the frame is not in the backlog, and then the earlier frames and later ones
are all that the next Open finds. -/
def Atomic (c : Codec F) (s : Spool F) (d : Disk) (f : F) (now : Int) (faults : List Fault)
    (later : List (F × Int × List Fault)) (cap₂ : Int) : Prop :=
  let out := (enqueue c s f now).run faulty (d,faults)
  (out.1.2 ≠ none ↔ ¬Entered s out.1.1) ∧
    (out.1.2 ≠ none → ∀ s₂ d₂, enqueueAll c later out.1.1 out.2.1 = some (s₂,d₂) →
      Yields c cap₂ d₂ (textsOf c s (framesOf later)))

/-- When that is so. -/
def AtomicWhen (c : Codec F) (s : Spool F) (f : F) (faults : List Fault)
    (later : List (F × Int × List Fault)) : Prop :=
  match c.encode f with
  | none => Reopens c s (framesOf later)
  | some data =>
      match next faults with
      -- the line is written: its queue must not be in need of a rewriting that fails
      | .fine => Room s data ∨ Spared (afterPersist faults.tail)
      | .refused => Reopens c s (framesOf later)
      | .after k =>
          k = 0 ∧ Reopens c s (framesOf later) ∨
            (0 < k ∧ k < data.length) ∧ k < maxLine ∧ later = [] ∧ ∀ e ∈ s.entries, e.n ≤ maxLine

section
variable {c : StrictCodec F} {s : Spool F} {d : Disk}

theorem unentered (s : Spool F) : ¬Entered s s := lt_irrefl _

theorem atomic_failed_iff {f : F} {now : Int} {faults rest : List Fault} {err : SpoolError}
    {later : List (F × Int × List Fault)} {cap₂ : Int} {d' d₂ : Disk} {s₂ : Spool F}
    (run : (enqueue c.toCodec s f now).run faulty (d,faults) = ((s,some err),d',rest))
    (ok : enqueueAll c.toCodec later s d' = some (s₂,d₂)) :
    Atomic c.toCodec s d f now faults later cap₂ ↔
      Yields c.toCodec cap₂ d₂ (textsOf c.toCodec s (framesOf later)) := by
  unfold Atomic
  simp only [run]
  constructor
  · exact fun atomic => atomic.2 nofun s₂ d₂ ok
  · intro yields
    refine ⟨⟨fun _ => unentered s,fun _ => nofun⟩,fun _ s₃ d₃ ok' => ?_⟩
    cases ok.symm.trans ok'
    exact yields

theorem InStep.untouched {c : Codec F} {s : Spool F} {d : Disk} (h : InStep c s d) {data : Bytes} :
    InStep c s (d.appended (data.take 0)) := by
  obtain ⟨e,stored⟩ := h
  refine ⟨e,stored.encoded,stored.head_le,stored.bytes_eq,?_,stored.marker,stored.stats⟩
  have queue := stored.queue
  rw [Holds] at queue
  rw [Holds,Disk.appended,Disk.set_same,getD_some,queue,take_zero,append_nil]

theorem InStep.atomic_iff (h : InStep c.toCodec s d) (f : F) (now : Int) (faults : List Fault)
    {later : List (F × Int × List Fault)} (cap₂ : Int) {s₂ : Spool F} {d₂ : Disk}
    (ok : enqueueAll c.toCodec later ((enqueue c.toCodec s f now).run faulty (d,faults)).1.1
      ((enqueue c.toCodec s f now).run faulty (d,faults)).2.1 = some (s₂,d₂)) :
    Atomic c.toCodec s d f now faults later cap₂ ↔ AtomicWhen c.toCodec s f faults later := by
  unfold AtomicWhen
  cases he : c.encode f with
  | none =>
    have run := @enqueue_unencodable F c.toCodec s d faults f he now
    rw [run] at ok
    rw [atomic_failed_iff run ok,h.reopens_iff ok]
  | some data =>
    simp only
    cases hx : next faults with
    | refused =>
      have run := enqueue_refused (s := s) (d := d) he now hx
      rw [run] at ok
      rw [atomic_failed_iff run ok,h.reopens_iff ok]
    | after k =>
      have run := enqueue_partly (s := s) (d := d) he now hx
      rw [run] at ok
      rw [atomic_failed_iff run ok]
      rcases Nat.eq_zero_or_pos k with rfl | some
      · rw [h.untouched.reopens_iff ok]
        simp
      · rcases lt_or_ge k data.length with part | whole
        · rw [h.torn_iff he some part ok]
          constructor
          · exact fun all => .inr ⟨⟨some,part⟩,all⟩
          · rintro (⟨rfl,-⟩ | all)
            · omega
            · exact all.2
        · refine ⟨fun yields => absurd yields (h.phantom he whole ok cap₂),?_⟩
          rintro (⟨rfl,-⟩ | all)
          · omega
          · omega
    | fine =>
      obtain ⟨roomy,evicting,failing,entered⟩ := (enqueue_whole h.inMemory h.stats he now hx).run
      have answered : ((enqueue c.toCodec s f now).run faulty (d,faults)).1.2 = none ↔
          Room s data ∨ Spared (afterPersist faults.tail) := by
        constructor
        · exact fun fine => by_contra fun bad => failing bad fine
        · rintro (room | spared)
          · rw [(roomy room).1]
          · by_cases room : Room s data
            · rw [(roomy room).1]
            · exact (evicting room spared).1
      rw [← answered]
      unfold Atomic
      constructor
      · exact fun atomic => by_contra fun err => atomic.1.mp err entered
      · exact fun fine => ⟨⟨fun err => absurd fine err,fun out => absurd entered out⟩,
          fun err => absurd fine err⟩

end

/-! Whole runs. -/

structure Site (F : Type) where
  disk : Disk
  spool : Option (Spool F)

inductive Event (F : Type) where
  | reopen (capBytes : Int)
  | enqueue (f : F) (now : Int) (faults : List Fault)
  | commitThrough (pos : Int)
  | recordDestroyed (f : F) (reason : String) (now : Int) (faults : List Fault)

inductive Step (c : Codec F) : Site F → Event F → Site F → Prop where
  | reopen {w : Site F} {r : Except SpoolError (Spool F)} {d : Disk} (capBytes : Int)
      (h : (openSpool c capBytes).run device w.disk = (r,d)) :
      Step c w (.reopen capBytes) ⟨d,r.toOption⟩
  | enqueue {w : Site F} {s s' : Spool F} {err : Option SpoolError} {d : Disk} {rest : List Fault}
      (f : F) (now : Int) (faults : List Fault) (open_ : w.spool = some s)
      (h : (enqueue c s f now).run faulty (w.disk,faults) = ((s',err),d,rest)) :
      Step c w (.enqueue f now faults) ⟨d,some s'⟩
  | commitThrough {w : Site F} {s s' : Spool F} {err : Option SpoolError} {d : Disk} (pos : Int)
      (open_ : w.spool = some s) (h : (commitThrough c s pos).run device w.disk = ((s',err),d)) :
      Step c w (.commitThrough pos) ⟨d,some s'⟩
  | recordDestroyed {w : Site F} {s s' : Spool F} {d : Disk} {rest : List Fault} (f : F)
      (reason : String) (now : Int) (faults : List Fault) (open_ : w.spool = some s)
      (h : (recordDestroyed c s f reason now).run faulty (w.disk,faults) = (s',d,rest)) :
      Step c w (.recordDestroyed f reason now faults) ⟨d,some s'⟩

/-- No byte of a line whose write fails is left in the queue, and no rewriting of it fails. -/
def Clean (c : Codec F) (w : Site F) : Event F → Prop
  | .enqueue f _ faults => ∀ s data, w.spool = some s → c.encode f = some data →
      match next faults with
      | .fine => Room s data ∨ Spared (afterPersist faults.tail)
      | .refused => True
      | .after k => k = 0
  | _ => True

def Unread (p : Spool F → SpoolProg (Spool F × Option SpoolError)) : Prop :=
  ∀ s e d, (p {s with evicted := e}).run device d =
    (({((p s).run device d).1.1 with evicted := e},((p s).run device d).1.2),((p s).run device d).2)

theorem compactLocked_unread (c : Codec F) : Unread (compactLocked c) := by
  intro s e d
  unfold compactLocked
  have live : ({s with evicted := e} : Spool F).live = s.live := rfl
  rw [live]
  cases encodeAll c s.live with
  | none => rfl
  | some lines =>
    by_cases absent : d .head = none
    · simp [attempt,removeHeadMarker,perform,Prog.run,device,absent]
    · simp [attempt,removeHeadMarker,perform,Prog.run,device,absent]

theorem commitThrough_unread (c : Codec F) (pos : Int) : Unread fun s => commitThrough c s pos := by
  intro s e d
  unfold commitThrough
  by_cases below : pos < s.origin
  · simp only [below,if_true]
    rfl
  · simp only [below,if_false]
    unfold commitLocked
    have live : ({s with evicted := e} : Spool F).live = s.live := rfl
    have consumed (n : Nat) : ({s with evicted := e} : Spool F).consume n =
        {s.consume n with evicted := e} := rfl
    simp only [live,consumed]
    generalize min (pos-s.origin+1).toNat s.live.length = n
    by_cases zero : n = 0
    · simp only [zero,if_true]
      rfl
    · simp only [zero,if_false]
      generalize s.consume n = t
      have passed : consumedBytesLocked {t with evicted := e} = consumedBytesLocked t := rfl
      rw [passed]
      by_cases long : t.head ≥ compactHeadThreshold ∨ consumedBytesLocked t > t.capBytes.tdiv 4
      · simp only [long,if_true]
        exact compactLocked_unread c t e d
      · simp only [long,if_false]
        rfl

theorem InStep.enqueue {c : Codec F} {s : Spool F} {d : Disk} (h : InStep c s d) {f : F} (now : Int)
    {faults : List Fault} (clean : ∀ data, c.encode f = some data →
      match next faults with
      | .fine => Room s data ∨ Spared (afterPersist faults.tail)
      | .refused => True
      | .after k => k = 0) :
    InStep c ((enqueue c s f now).run faulty (d,faults)).1.1
      ((enqueue c s f now).run faulty (d,faults)).2.1 := by
  cases he : c.encode f with
  | none =>
    rw [enqueue_unencodable he]
    exact h
  | some data =>
    have clean := clean data he
    cases hx : next faults with
    | refused =>
      rw [enqueue_refused he now hx]
      exact h
    | after k =>
      rw [enqueue_partly he now hx]
      rw [hx] at clean
      simp only at clean
      subst clean
      exact h.untouched
    | fine =>
      obtain ⟨roomy,evicting,-⟩ := (enqueue_whole h.inMemory h.stats he now hx).run
      rw [hx] at clean
      by_cases room : Room s data
      · obtain ⟨same,disk⟩ := roomy room
        rw [same,disk]
        exact h.push he
      · exact (evicting room (clean.resolve_left room)).2.1

theorem InStep.recordDestroyed {c : Codec F} {s : Spool F} {d : Disk} (h : InStep c s d) (f : F)
    (reason : String) (now : Int) (faults : List Fault) :
    InStep c ((recordDestroyed c s f reason now).run faulty (d,faults)).1
      ((recordDestroyed c s f reason now).run faulty (d,faults)).2.1 := by
  have kept : Ends (SpoolQueue.recordDestroyed c s f reason now) d faults fun s' w =>
      InStep c s' w.1 := by
    simp only [SpoolQueue.recordDestroyed,Prog.bind_eq,ends_bind]
    refine (persistEvictionsLocked_faulty h.stats).mono fun _ w hw => ?_
    obtain ⟨⟨e,stats⟩,queue,head,-⟩ := hw
    obtain ⟨e',stored⟩ := h
    exact ⟨e,stored.restat stats queue head⟩
  exact kept.run

theorem inStep_run {c : Codec F} {events : List (Event F)} {w : Site F}
    (run : Run (Guarded (Step c) (Clean c)) ⟨.empty,none⟩ events w) :
    ∃ s, InStep c s w.disk ∧ ∀ t, w.spool = some t → t = s := by
  refine run.invariant (I := fun w => ∃ s, InStep c s w.disk ∧ ∀ t, w.spool = some t → t = s) ?_
    ⟨⟨0,[],0,0,0,.empty⟩,⟨.empty,stored_empty c 0⟩,fun _ h => by cases h⟩
  intro w e w' h hs
  obtain ⟨s,step,here⟩ := h
  obtain ⟨clean,hs⟩ := hs
  cases hs with
  | reopen capBytes hr =>
    obtain ⟨e,stored⟩ := step
    by_cases short : ∀ e ∈ s.entries, e.n ≤ maxLine
    · obtain ⟨s',ok,stored',-⟩ := (reopen_ends stored short capBytes).run
      rw [hr] at ok stored'
      simp only at ok stored'
      subst ok
      exact ⟨s',⟨s'.evicted,stored'⟩,fun t ht => (some.inj ht).symm⟩
    · simp only [not_forall] at short
      obtain ⟨x,mem,long⟩ := short
      cases hr.symm.trans (reopen_fails stored mem (by omega) capBytes)
      exact ⟨s,⟨e,stored⟩,fun _ h => by cases h⟩
  | enqueue f now faults open_ hr =>
    cases here _ open_
    have step' := step.enqueue now fun data he => clean s data open_ he
    rw [hr] at step'
    exact ⟨_,step',fun t ht => (some.inj ht).symm⟩
  | commitThrough pos open_ hr =>
    cases here _ open_
    obtain ⟨e,stored⟩ := step
    obtain ⟨-,stored',-⟩ := (commitThrough_ends stored pos).run
    rw [commitThrough_unread c pos s e w.disk,hr] at stored'
    exact ⟨_,⟨e,stored'⟩,fun t ht => (some.inj ht).symm⟩
  | recordDestroyed f reason now faults open_ hr =>
    cases here _ open_
    have step' := step.recordDestroyed f reason now faults
    rw [hr] at step'
    exact ⟨_,step',fun t ht => (some.inj ht).symm⟩

/-- In every run of calls whose failing writes leave no byte behind and whose rewritings succeed:
the next Enqueue, whatever fails during it, is atomic if and only if its own fault is of these
kinds too, or no frame is to follow a part of its text. -/
theorem enqueue_atomic_iff {c : StrictCodec F} {events : List (Event F)} {w : Site F} {s : Spool F}
    (run : Run (Guarded (Step c.toCodec) (Clean c.toCodec)) ⟨.empty,none⟩ events w)
    (here : w.spool = some s) (f : F) (now : Int) (faults : List Fault)
    {later : List (F × Int × List Fault)} (cap₂ : Int) {s₂ : Spool F} {d₂ : Disk}
    (ok : enqueueAll c.toCodec later ((enqueue c.toCodec s f now).run faulty (w.disk,faults)).1.1
      ((enqueue c.toCodec s f now).run faulty (w.disk,faults)).2.1 = some (s₂,d₂)) :
    Atomic c.toCodec s w.disk f now faults later cap₂ ↔ AtomicWhen c.toCodec s f faults later := by
  obtain ⟨t,step,same⟩ := inStep_run run
  cases same s here
  exact step.atomic_iff f now faults cap₂ ok

theorem enqueue_atomic_refused : ∃ w s, Run (Guarded (Step logCodec) (Clean logCodec)) ⟨.empty,none⟩
    [.reopen 67108864,.enqueue 7 0 []] w ∧ w.spool = some s ∧
      Atomic logCodec s w.disk 8 1 [.refused] [(9,2,[])] 67108864 := by
  have opened : Run (Guarded (Step logCodec) (Clean logCodec)) ⟨.empty,none⟩ _ _ :=
    (Run.nil _).also (.reopen 67108864 rfl) trivial
  have first := opened.also (.enqueue 7 0 [] rfl rfl) (by
    intro s data hs _
    cases hs
    exact .inl (.inr rfl))
  have reopens : Reopens logCodec ((⟨67108864,[],0,0,0,.empty⟩ : Spool Nat).push 7 (logText 7))
      [(9,2)] := ⟨.inr (.inl (by decide)),by decide,by decide⟩
  exact ⟨_,_,first,rfl,
    (enqueue_atomic_iff (c := logStrict) first rfl 8 1 [.refused] 67108864 rfl).mpr reopens⟩

/-- The line is written whole and its sync fails: the caller is told of an error and counts the
frame as destroyed, and the next Open finds it in the backlog. -/
theorem failed_sync_delivers : ∃ w s s' d', Run (Step logCodec) ⟨.empty,none⟩ [.reopen 67108864] w ∧
    w.spool = some s ∧ s.live = [] ∧
      (enqueue logCodec s 7 0).run faulty (w.disk,[.after ((logText 7).length+1)]) =
        ((s',some (.io (.append .queue (logText 7++[newline])))),d',[]) ∧ s'.live = [] ∧
      Yields logCodec 67108864 d' [logCodec.encode 7] ∧
      ¬Atomic logCodec s w.disk 7 0 [.after ((logText 7).length+1)] [] 67108864 := by
  have opened : Run (Step logCodec) ⟨.empty,none⟩ _ _ := (Run.nil _).snoc (.reopen 67108864 rfl)
  have found : Yields logCodec 67108864 ((enqueue logCodec ⟨67108864,[],0,0,0,.empty⟩ 7 0).run faulty
      (.empty,[.after ((logText 7).length+1)])).2.1 [logCodec.encode 7] :=
    ⟨_,_,rfl,by decide⟩
  refine ⟨_,_,_,_,opened,rfl,rfl,rfl,rfl,found,fun atomic => ?_⟩
  obtain ⟨s₁,d₁,run₁,frames₁⟩ := atomic.2 nofun _ _ rfl
  obtain ⟨s₂,d₂,run₂,frames₂⟩ := found
  cases run₁.symm.trans run₂
  cases frames₁.symm.trans frames₂

end CircuitBreaker.EnqueueFaults
