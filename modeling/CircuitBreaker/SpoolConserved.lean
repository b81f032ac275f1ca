import Mathlib.Algebra.Order.BigOperators.Group.List
import CircuitBreaker.SpoolExact

/-! The life of a state directory on a disk that refuses nothing: every frame ever enqueued is
live, committed or evicted, and evicted.json counts the last kind. -/

namespace CircuitBreaker.SpoolConserved
open DiskProgram ByteLines StepRuns SpoolQueue List

variable {F : Type}

/-- A frame's timestamp is an instant of `encoding/json`, which is read back as it was written. -/
structure TimedCodec (F : Type) extends Codec F where
  ts_kept : ∀ f data f', encode f = some data → decode data = some f' → ts f' = ts f

inductive Fate where
  | committed
  | evicted
  deriving DecidableEq

/-- The directory and the spool open on it, none before the first Open or after one that failed.
`entered` holds the frames whose Enqueue returned no error, `fates` how the first of them left the
backlog, `destroyed` those told to RecordDestroyed; all three are kept for the statements and read
by nothing. -/
structure Life (F : Type) where
  disk : Disk
  spool : Option (Spool F)
  entered : List F
  fates : List Fate
  destroyed : List F

def Life.fresh : Life F := ⟨.empty,none,[],[],[]⟩

inductive Event (F : Type) where
  | reopen (capBytes : Int)
  | enqueue (f : F) (now : Int)
  | commitThrough (pos : Int)
  | recordDestroyed (f : F) (reason : String) (now : Int)

/-- One call. The fates follow what the spool itself counts: its record of losses for Enqueue,
its origin for CommitThrough. -/
inductive Step (c : Codec F) : Life F → Event F → Life F → Prop where
  | reopen {w : Life F} {r : Except SpoolError (Spool F)} {d : Disk} (capBytes : Int)
      (h : (openSpool c capBytes).run device w.disk = (r,d)) :
      Step c w (.reopen capBytes) {w with disk := d, spool := r.toOption}
  | enqueue {w : Life F} {s s' : Spool F} {err : Option SpoolError} {d : Disk} (f : F) (now : Int)
      (open_ : w.spool = some s) (h : (enqueue c s f now).run device w.disk = ((s',err),d)) :
      Step c w (.enqueue f now) {w with
        disk := d
        spool := some s'
        entered := w.entered++(if err = none then [f] else [])
        fates := w.fates++List.replicate (s'.evicted.frames-s.evicted.frames) .evicted}
  | commitThrough {w : Life F} {s s' : Spool F} {err : Option SpoolError} {d : Disk} (pos : Int)
      (open_ : w.spool = some s)
      (h : (commitThrough c s pos).run device w.disk = ((s',err),d)) :
      Step c w (.commitThrough pos) {w with
        disk := d
        spool := some s'
        fates := w.fates++List.replicate (s'.origin-s.origin) .committed}
  | recordDestroyed {w : Life F} {s s' : Spool F} {d : Disk} (f : F) (reason : String) (now : Int)
      (open_ : w.spool = some s)
      (h : (recordDestroyed c s f reason now).run device w.disk = (s',d)) :
      Step c w (.recordDestroyed f reason now) {w with
        disk := d
        spool := some s'
        destroyed := w.destroyed++[f]}

def Meets (w : Life F) : Event F → Prop
  | .reopen _ => ∀ s, w.spool = some s → ∀ e ∈ s.entries, e.n ≤ maxLine
  | _ => True

theorem stored_run {c : Codec F} {events : List (Event F)} {w : Life F}
    (run : Run (Step c) .fresh events w) :
    ∃ s, Stored c s w.disk ∧ ∀ t, w.spool = some t → t = s := by
  refine run.invariant (I := fun w => ∃ s, Stored c s w.disk ∧ ∀ t, w.spool = some t → t = s) ?_
    ⟨_,stored_empty c 0,fun _ h => by cases h⟩
  intro w e w' h hs
  obtain ⟨s,stored,here⟩ := h
  cases hs with
  | reopen capBytes hr =>
    by_cases short : ∀ e ∈ s.entries, e.n ≤ maxLine
    · obtain ⟨s',ok,stored',-⟩ := (reopen_ends stored short capBytes).run
      rw [hr] at ok stored'
      simp only at ok stored'
      subst ok
      exact ⟨s',stored',fun t ht => (Option.some.inj ht).symm⟩
    · simp only [not_forall] at short
      obtain ⟨x,mem,long⟩ := short
      cases hr.symm.trans (reopen_fails stored mem (by omega) capBytes)
      exact ⟨s,stored,fun _ h => by cases h⟩
  | enqueue f now open_ hr =>
    cases here _ open_
    cases he : c.encode f with
    | none =>
      have refused : (enqueue c s f now).run device w.disk = ((s,some .encode),w.disk) := by
        simp [enqueue,he,Prog.run]
      cases hr.symm.trans refused
      exact ⟨s,stored,fun t ht => (Option.some.inj ht).symm⟩
    | some data =>
      obtain ⟨-,stored',-⟩ := (enqueue_ends stored he now).run
      rw [hr] at stored'
      exact ⟨_,stored',fun t ht => (Option.some.inj ht).symm⟩
  | commitThrough pos open_ hr =>
    cases here _ open_
    obtain ⟨-,stored',-⟩ := (commitThrough_ends stored pos).run
    rw [hr] at stored'
    exact ⟨_,stored',fun t ht => (Option.some.inj ht).symm⟩
  | recordDestroyed f reason now open_ hr =>
    cases here _ open_
    obtain ⟨-,stored'⟩ := (recordDestroyed_ends stored f reason now).run
    rw [hr] at stored'
    exact ⟨_,stored',fun t ht => (Option.some.inj ht).symm⟩

/-! What the record of losses says. -/

def ofFate (fate : Fate) (entered : List F) (fates : List Fate) : List F :=
  ((entered.zip fates).filter (·.2 = fate)).map Prod.fst

def wire (c : Codec F) (f : F) : Option Bytes × Int := (c.encode f,c.ts f)

def lossOf : Option Bytes × Int → Int × Int
  | (some data,ts) => ((data.length : Int)+1,ts)
  | (none,ts) => (0,ts)

def loss (c : Codec F) (f : F) : Int × Int := lossOf (wire c f)

def Life.lost (w : Life F) : List F := ofFate .evicted w.entered w.fates++w.destroyed

def Bounds (times : List Int) (oldest newest : Int) : Prop :=
  ((∀ t ∈ times, t = 0) ∧ oldest = 0 ∧ newest = 0) ∨
    oldest ≠ 0 ∧ newest ≠ 0 ∧ oldest ∈ times ∧ newest ∈ times ∧
      ∀ t ∈ times, t ≠ 0 → oldest ≤ t ∧ t ≤ newest

structure StatsOf (losses : List (Int × Int)) (e : EvictionStats) : Prop where
  frames : e.frames = losses.length
  bytes : e.bytes = (losses.map Prod.fst).sum
  times : Bounds (losses.map Prod.snd) e.oldestDroppedTS e.newestDroppedTS

theorem statsOf_empty : StatsOf [] .empty := ⟨rfl,rfl,.inl ⟨nofun,rfl,rfl⟩⟩

theorem Bounds.congr {times times' : List Int} {oldest newest : Int} (h : Bounds times oldest newest)
    (same : ∀ t, t ∈ times' ↔ t ∈ times) : Bounds times' oldest newest := by
  unfold Bounds
  simp only [same]
  exact h

theorem StatsOf.perm {losses losses' : List (Int × Int)} {e : EvictionStats} (h : StatsOf losses e)
    (perm : losses'.Perm losses) : StatsOf losses' e := by
  refine ⟨h.frames.trans perm.length_eq.symm,?_,h.times.congr fun t => (perm.map _).mem_iff⟩
  rw [h.bytes]
  exact ((perm.map _).sum_eq).symm

theorem widen_bounds (e : EvictionStats) {ts : Int} (h : ts ≠ 0) :
    (e.widen ts).oldestDroppedTS =
      (if e.oldestDroppedTS = 0 ∨ ts < e.oldestDroppedTS then ts else e.oldestDroppedTS) ∧
    (e.widen ts).newestDroppedTS =
      (if e.newestDroppedTS = 0 ∨ ts > e.newestDroppedTS then ts else e.newestDroppedTS) := by
  unfold EvictionStats.widen
  rw [if_neg h]
  constructor <;> dsimp only <;> split <;> split <;> rfl

theorem Bounds.widen {times : List Int} {e : EvictionStats}
    (h : Bounds times e.oldestDroppedTS e.newestDroppedTS) (ts : Int) :
    Bounds (ts :: times) (e.widen ts).oldestDroppedTS (e.widen ts).newestDroppedTS := by
  by_cases zero : ts = 0
  · have same : e.widen ts = e := if_pos zero
    rw [same,zero]
    rcases h with ⟨all,oldest,newest⟩ | ⟨ho,hn,oldest,newest,within⟩
    · exact .inl ⟨by simpa using all,oldest,newest⟩
    · refine .inr ⟨ho,hn,mem_cons_of_mem _ oldest,mem_cons_of_mem _ newest,?_⟩
      intro t mem ht
      exact within t ((mem_cons.mp mem).resolve_left ht) ht
  · obtain ⟨oldest',newest'⟩ := widen_bounds e zero
    rw [oldest',newest']
    rcases h with ⟨all,oldest,newest⟩ | ⟨ho,hn,oldest,newest,within⟩
    · rw [if_pos (.inl oldest),if_pos (.inl newest)]
      refine .inr ⟨zero,zero,mem_cons_self,mem_cons_self,fun t mem ht => ?_⟩
      rcases mem_cons.mp mem with rfl | mem
      · exact ⟨Int.le_refl _,Int.le_refl _⟩
      · exact absurd (all t mem) ht
    · simp only [ho,hn,false_or]
      refine .inr ⟨?_,?_,?_,?_,fun t mem ht => ?_⟩
      · split <;> assumption
      · split <;> assumption
      · split
        · exact mem_cons_self
        · exact mem_cons_of_mem _ oldest
      · split
        · exact mem_cons_self
        · exact mem_cons_of_mem _ newest
      · rcases mem_cons.mp mem with rfl | mem
        · constructor <;> split <;> omega
        · have := within t mem ht
          constructor <;> split <;> omega

@[simp] theorem widen_bytes (e : EvictionStats) (ts : Int) : (e.widen ts).bytes = e.bytes := by
  unfold EvictionStats.widen
  split
  · rfl
  · dsimp only
    split <;> split <;> rfl

theorem StatsOf.add {losses : List (Int × Int)} {e : EvictionStats} (h : StatsOf losses e)
    (size ts : Int) :
    StatsOf (losses++[(size,ts)])
      ({e with frames := e.frames+1, bytes := e.bytes+size}.widen ts) := by
  refine ⟨?_,?_,?_⟩
  · rw [EvictionStats.widen_frames,length_append,h.frames]
    rfl
  · rw [widen_bytes,map_append,sum_append,h.bytes]
    simp
  · have wider := Bounds.widen (e := {e with frames := e.frames+1, bytes := e.bytes+size}) h.times ts
    refine wider.congr fun t => ?_
    simp [or_comm]

theorem Bounds.join {times batch : List Int} {o n oldest newest : Int}
    (h : Bounds (n :: o :: times) oldest newest) (hb : Bounds batch o n) :
    Bounds (times++batch) oldest newest := by
  rcases hb with ⟨zeros,rfl,rfl⟩ | ⟨ho,hn,first,last,inside⟩
  · rcases h with ⟨all,oldest,newest⟩ | ⟨ho,hn,oldest,newest,within⟩
    · refine .inl ⟨fun t mem => ?_,oldest,newest⟩
      rcases mem_append.mp mem with mem | mem
      · exact all t (by simp [mem])
      · exact zeros t mem
    · simp only [mem_cons,ho,hn,false_or] at oldest newest
      refine .inr ⟨ho,hn,by simp [oldest],by simp [newest],fun t mem ht => ?_⟩
      rcases mem_append.mp mem with mem | mem
      · exact within t (by simp [mem]) ht
      · exact absurd (zeros t mem) ht
  · rcases h with ⟨all,-,-⟩ | ⟨ho',hn',oldest,newest,within⟩
    · exact absurd (all o (by simp)) ho
    · have least := within o (by simp) ho
      have greatest := within n (by simp) hn
      refine .inr ⟨ho',hn',?_,?_,fun t mem ht => ?_⟩
      · rcases mem_cons.mp oldest with rfl | oldest
        · exact mem_append_right _ last
        rcases mem_cons.mp oldest with rfl | oldest
        · exact mem_append_right _ first
        · exact mem_append_left _ oldest
      · rcases mem_cons.mp newest with rfl | newest
        · exact mem_append_right _ last
        rcases mem_cons.mp newest with rfl | newest
        · exact mem_append_right _ first
        · exact mem_append_left _ newest
      · rcases mem_append.mp mem with mem | mem
        · exact within t (by simp [mem]) ht
        · have := inside t mem ht
          omega

theorem StatsOf.absorb {losses batch : List (Int × Int)} {e b : EvictionStats}
    (h : StatsOf losses e) (hb : StatsOf batch b) (now : Int) :
    StatsOf (losses++batch) (e.absorb b now) := by
  refine ⟨?_,?_,?_⟩
  · simp only [EvictionStats.absorb,EvictionStats.widen_frames,length_append,h.frames,hb.frames]
  · simp only [EvictionStats.absorb,widen_bytes,map_append,sum_append,h.bytes,hb.bytes]
  · have wider := ((Bounds.widen (e := {e with frames := e.frames+b.frames, bytes := e.bytes+b.bytes})
      h.times b.oldestDroppedTS).widen b.newestDroppedTS)
    rw [map_append]
    exact wider.join hb.times

section
variable {c : Codec F}

theorem loss_encoded {e : Entry F} (h : e.Encoded c) : loss c e.f = (e.n,c.ts e.f) := by
  obtain ⟨data,hd,hn⟩ := h
  simp [loss,lossOf,wire,hd,hn]

theorem evictLoop_stats (cap : Int) {es : List (Entry F)} (encoded : ∀ e ∈ es, e.Encoded c)
    {losses : List (Int × Int)} {bytes : Int} {batch : EvictionStats} (h : StatsOf losses batch) :
    StatsOf (losses++((es.take (evictLoop c cap es bytes batch).1).map fun e => loss c e.f))
      (evictLoop c cap es bytes batch).2.2 := by
  induction es generalizing losses bytes batch with
  | nil => simpa [evictLoop] using h
  | cons e es ih =>
    cases es with
    | nil => simpa [evictLoop] using h
    | cons e' es =>
      simp only [evictLoop]
      split
      · have rest := @ih (fun x hx => encoded x (mem_cons_of_mem e hx)) _ (bytes-e.n) _
          (h.add e.n (c.ts e.f))
        rw [take_succ_cons,map_cons,loss_encoded (encoded e mem_cons_self)]
        simpa using rest
      · simpa using h

theorem evictLoop_capped (cap : Int) (e : Entry F) (es : List (Entry F)) (bytes : Int)
    (batch : EvictionStats) :
    (evictLoop c cap (e :: es) bytes batch).2.1 ≤ cap ∨
      (evictLoop c cap (e :: es) bytes batch).1 = es.length := by
  induction es generalizing e bytes batch with
  | nil => exact .inr rfl
  | cons e' es ih =>
    simp only [evictLoop]
    split
    · rcases ih e' (bytes-e.n)
        ({batch with frames := batch.frames+1, bytes := batch.bytes+e.n}.widen (c.ts e.f))
        with under | last
      · exact .inl under
      · exact .inr (by simp [last])
    · exact .inl (by simp only; omega)

end

theorem evictions_capped {c : Codec F} {s : Spool F} (bytes : s.bytes = SpoolQueue.sizeOf s.live)
    (some : s.live ≠ []) : SpoolQueue.sizeOf (s.live.drop (s.evictions c).1) ≤ s.capBytes ∨
      (s.live.drop (s.evictions c).1).length = 1 := by
  have left := (evictLoop_spec c s.capBytes s.live s.bytes .empty).2.1
  have split := sizeOf_take_add_drop s.live (s.evictions c).1
  unfold Spool.evictions at *
  obtain ⟨e,es,live⟩ := exists_cons_of_ne_nil some
  rcases (live ▸ evictLoop_capped s.capBytes e es s.bytes .empty :
    (evictLoop c s.capBytes s.live s.bytes .empty).2.1 ≤ s.capBytes ∨
      (evictLoop c s.capBytes s.live s.bytes .empty).1 = es.length) with under | last
  · exact .inl (by omega)
  · refine .inr ?_
    rw [length_drop,last,live,length_cons]
    omega

/-! Frames and their fates. -/

theorem ofFate_replicate (fate next : Fate) (entered : List F) (k : Nat) :
    ofFate fate entered (List.replicate k next) = if next = fate then entered.take k else [] := by
  induction k generalizing entered with
  | zero => simp [ofFate]
  | succ k ih =>
    cases entered with
    | nil => simp [ofFate]
    | cons f entered =>
      have rest := ih entered
      unfold ofFate at rest ⊢
      rw [replicate_succ,zip_cons_cons]
      by_cases same : next = fate
      · rw [if_pos same] at rest ⊢
        rw [filter_cons_of_pos (by simpa using same),map_cons,rest,take_succ_cons]
      · rw [if_neg same] at rest ⊢
        rw [filter_cons_of_neg (by simpa using same),rest]

theorem ofFate_append (fate next : Fate) {fates : List Fate} {entered : List F} (more : List F)
    (k : Nat) (h : fates.length ≤ entered.length) :
    ofFate fate (entered++more) (fates++List.replicate k next) =
      ofFate fate entered fates++
        if next = fate then ((entered++more).drop fates.length).take k else [] := by
  induction fates generalizing entered with
  | nil => simpa [ofFate] using ofFate_replicate fate next (entered++more) k
  | cons first fates ih =>
    cases entered with
    | nil => simp at h
    | cons f entered =>
      have rest := ih (by simpa using h : fates.length ≤ entered.length)
      unfold ofFate at rest ⊢
      simp only [cons_append,zip_cons_cons,length_cons,drop_succ_cons]
      by_cases same : first = fate
      · rw [filter_cons_of_pos (by simpa using same),
          filter_cons_of_pos (by simpa using same),map_cons,map_cons,rest,
          cons_append]
      · rw [filter_cons_of_neg (by simpa using same),
          filter_cons_of_neg (by simpa using same),rest]

/-- The frames without a fate are live, and the record is that of the others' losses. -/
structure Accounts (c : Codec F) (w : Life F) (s : Spool F) : Prop where
  fates_le : w.fates.length ≤ w.entered.length
  live : s.frames.map (wire c) = (w.entered.drop w.fates.length).map (wire c)
  stats : StatsOf (w.lost.map (loss c)) s.evicted

/-- The directory is in step with the spool, which is open but at the very beginning. -/
def Sound (c : Codec F) (w : Life F) : Prop :=
  ∃ s, Stored c s w.disk ∧ Accounts c w s ∧
    (w.spool = some s ∨ w.spool = none ∧ s.entries = [])

theorem sound_fresh (c : Codec F) : Sound c (.fresh : Life F) :=
  ⟨_,stored_empty c 0,⟨le_rfl,rfl,statsOf_empty⟩,.inr ⟨rfl,rfl⟩⟩

/-! One call. -/

section
variable {c : Codec F} {w : Life F} {s : Spool F}

theorem map_loss {fs gs : List F} (h : fs.map (wire c) = gs.map (wire c)) :
    fs.map (loss c) = gs.map (loss c) := by
  have both := congrArg (List.map lossOf) h
  rwa [map_map,map_map] at both

theorem Accounts.length (h : Accounts c w s) :
    w.fates.length+s.live.length = w.entered.length := by
  have both := congrArg List.length h.live
  rw [length_map,length_map,Spool.length_frames,length_drop] at both
  have := h.fates_le
  omega

theorem record_frames (c : Codec F) (s : Spool F) (now : Int) :
    (s.record c now).frames = s.evicted.frames+(s.evictions c).1 := by
  have batch := (evictLoop_spec c s.capBytes s.live s.bytes .empty).2.2
  unfold Spool.record
  split
  · rename_i none
    rw [none,add_zero]
  · rw [Spool.evictions] at *
    simp only [EvictionStats.absorb,EvictionStats.widen_frames,batch]
    simp [EvictionStats.empty]

theorem record_stats {losses : List (Int × Int)} (h : StatsOf losses s.evicted)
    (encoded : ∀ e ∈ s.live, e.Encoded c) (now : Int) :
    StatsOf (losses++((s.frames.take (s.evictions c).1).map (loss c))) (s.record c now) := by
  unfold Spool.record
  split
  · rename_i none
    simpa [none] using h
  · have batch := @evictLoop_stats F c s.capBytes s.live encoded [] s.bytes _ statsOf_empty
    rw [nil_append] at batch
    have same : (s.live.take (s.evictions c).1).map (fun e => loss c e.f) =
        (s.frames.take (s.evictions c).1).map (loss c) := by
      rw [Spool.frames,← map_take,map_map]
      rfl
    rw [← same]
    exact h.absorb batch now

theorem Accounts.enqueued (h : Accounts c w s) (stored : Stored c s w.disk) {f : F} {data : Bytes}
    (he : c.encode f = some data) {s' : Spool F} {d : Disk} {now : Int}
    (live : s'.live = (s.push f data).live.drop ((s.push f data).evictions c).1)
    (evicted : s'.evicted = (s.push f data).record c now) :
    Accounts c {w with
      disk := d
      spool := some s'
      entered := w.entered++[f]
      fates := w.fates++List.replicate ((s.push f data).evictions c).1 .evicted} s' := by
  have length := h.length
  have pushed : (s.push f data).frames = s.frames++[f] := by
    rw [Spool.frames,Spool.live_push stored.head_le,map_append]
    rfl
  have few : ((s.push f data).evictions c).1 ≤ s.live.length := by
    have spec := (evictLoop_spec c (s.push f data).capBytes (s.push f data).live
      (s.push f data).bytes .empty).1
    have count : (s.push f data).live.length = s.live.length+1 := by
      simp [Spool.live_push stored.head_le]
    rw [count] at spec
    exact spec
  have encoded := (stored.push he).live_encoded
  have waiting : (s.push f data).frames.map (wire c) =
      ((w.entered++[f]).drop w.fates.length).map (wire c) := by
    rw [pushed,map_append,h.live,drop_append_of_le_length h.fates_le,map_append]
  have stats := record_stats (s := s.push f data) h.stats encoded now
  generalize ((s.push f data).evictions c).1 = k at *
  refine ⟨?_,?_,?_⟩
  · simp only [length_append,length_replicate,length_singleton]
    omega
  · simp only [length_append,length_replicate]
    rw [Spool.frames,live,map_drop,map_drop,← drop_drop,map_drop,← waiting]
    rfl
  · rw [evicted]
    refine stats.perm ?_
    have left : ((s.push f data).frames.take k).map (loss c) =
        (((w.entered++[f]).drop w.fates.length).take k).map (loss c) := by
      rw [map_take,map_take,map_loss waiting]
    simp only [Life.lost,ofFate_append .evicted .evicted [f] k h.fates_le,if_true,left,
      map_append,append_assoc]
    exact List.Perm.append_left _ perm_append_comm

theorem Accounts.committed (h : Accounts c w s) {n : Nat} (hn : n ≤ s.live.length)
    {s' : Spool F} {d : Disk} (live : s'.live = s.live.drop n) (evicted : s'.evicted = s.evicted) :
    Accounts c {w with
      disk := d
      spool := some s'
      fates := w.fates++List.replicate n .committed} s' := by
  have length := h.length
  refine ⟨?_,?_,?_⟩
  · simp only [length_append,length_replicate]
    omega
  · simp only [length_append,length_replicate]
    rw [Spool.frames,live,map_drop,map_drop,← drop_drop,map_drop,← h.live]
    rfl
  · have same := @ofFate_append F .evicted .committed w.fates w.entered [] n h.fates_le
    simp only [append_nil,reduceCtorEq,if_false] at same
    simp only [Life.lost,same,evicted]
    exact h.stats

theorem destroyed_stats {losses : List (Int × Int)} {e : EvictionStats} (h : StatsOf losses e)
    (f : F) (reason : String) (now : Int) :
    StatsOf (losses++[loss c f]) (e.destroyed c f reason now) := by
  cases he : c.encode f with
  | none =>
    have more := h.add 0 (c.ts f)
    simp only [loss,lossOf,wire,he,EvictionStats.destroyed]
    exact ⟨more.frames,more.bytes,more.times⟩
  | some data =>
    have more := h.add ((data.length : Int)+1) (c.ts f)
    simp only [loss,lossOf,wire,he,EvictionStats.destroyed]
    exact ⟨more.frames,more.bytes,more.times⟩

theorem Accounts.destroyed (h : Accounts c w s) (f : F) (reason : String) (now : Int) {d : Disk} :
    Accounts c {w with
      disk := d
      spool := some {s with evicted := s.evicted.destroyed c f reason now}
      destroyed := w.destroyed++[f]} {s with evicted := s.evicted.destroyed c f reason now} := by
  refine ⟨h.fates_le,h.live,?_⟩
  have more := destroyed_stats (c := c) h.stats f reason now
  simpa [Life.lost] using more

end

section
variable {c : TimedCodec F} {w w' : Life F}

theorem wire_reloaded {e : Entry F} (h : e.Encoded c.toCodec) :
    wire c.toCodec (e.reloaded c.toCodec).f = wire c.toCodec e.f := by
  obtain ⟨-,same,data,hd,decoded⟩ := h.reloaded
  simp [wire,same,c.ts_kept e.f data _ hd decoded]

structure Advances (c : TimedCodec F) (w : Life F) (e : Event F) (w' : Life F) (s' : Spool F) :
    Prop where
  spool : w'.spool = some s'
  grows : ∀ s, w.spool = some s →
    s.evicted.frames ≤ s'.evicted.frames ∧ s.evicted.bytes ≤ s'.evicted.bytes
  evicts : ∀ f now, e = .enqueue f now → c.encode f ≠ none → ∃ s k, w.spool = some s ∧
    w'.fates = w.fates++List.replicate k .evicted ∧ s'.frames = (s.frames++[f]).drop k ∧
      (s'.bytes ≤ s'.capBytes ∨ s'.live.length = 1)

theorem step_reopened (h : Sound c.toCodec w) {capBytes : Int} {r : Except SpoolError (Spool F)}
    {d : Disk} (short : Meets w (.reopen capBytes))
    (hr : (openSpool c.toCodec capBytes).run device w.disk = (r,d)) :
    ∃ s', Advances c w (.reopen capBytes) {w with disk := d, spool := r.toOption} s' ∧
      Stored c.toCodec s' d ∧ Accounts c.toCodec {w with disk := d, spool := r.toOption} s' := by
  obtain ⟨s,stored,accounts,here⟩ := h
  have lines : ∀ e ∈ s.entries, e.n ≤ maxLine := by
    rcases here with here | ⟨-,none⟩
    · exact short s here
    · simp [none]
  obtain ⟨s',ok,stored',live,evicted,-,-⟩ := (reopen_ends stored lines capBytes).run
  rw [hr] at ok stored'
  simp only at ok stored'
  subst ok
  have known (t : Spool F) (ht : w.spool = some t) : t = s := by
    rcases here with here | ⟨none,-⟩
    · exact Option.some.inj (ht.symm.trans here)
    · rw [ht] at none
      cases none
  have frames : s'.frames.map (wire c.toCodec) = s.frames.map (wire c.toCodec) := by
    rw [Spool.frames,live,Spool.frames,map_map,map_map,map_map]
    exact map_congr_left fun e he => wire_reloaded (stored.live_encoded e he)
  refine ⟨s',⟨rfl,?_,(by intros; contradiction)⟩,stored',accounts.fates_le,frames.trans accounts.live,?_⟩
  · intro t ht
    rw [known t ht,evicted]
    exact ⟨le_rfl,Int.le_refl _⟩
  · rw [evicted]
    exact accounts.stats

theorem StatsOf.le {losses losses' more : List (Int × Int)} {e e' : EvictionStats}
    (h : StatsOf losses e) (h' : StatsOf losses' e') (perm : losses'.Perm (losses++more))
    (nonneg : ∀ x ∈ more, 0 ≤ x.1) : e.frames ≤ e'.frames ∧ e.bytes ≤ e'.bytes := by
  have frames := (h'.perm perm.symm).frames
  have bytes := (h'.perm perm.symm).bytes
  rw [length_append] at frames
  rw [map_append,sum_append] at bytes
  have extra : 0 ≤ (more.map Prod.fst).sum := by
    refine sum_nonneg fun x hx => ?_
    obtain ⟨y,hy,rfl⟩ := mem_map.mp hx
    exact nonneg y hy
  have := h.frames
  have := h.bytes
  exact ⟨by omega,by omega⟩

theorem loss_nonneg (c : Codec F) (f : F) : 0 ≤ (loss c f).1 := by
  unfold loss wire
  cases c.encode f with
  | none => exact Int.le_refl _
  | some data =>
    simp only [lossOf]
    omega

theorem step_enqueued {s s' : Spool F} {err : Option SpoolError} {d : Disk} {f : F} {now : Int}
    (stored : Stored c.toCodec s w.disk) (accounts : Accounts c.toCodec w s)
    (here : w.spool = some s)
    (hr : (enqueue c.toCodec s f now).run device w.disk = ((s',err),d))
    (after : w' = {w with
      disk := d
      spool := some s'
      entered := w.entered++(if err = none then [f] else [])
      fates := w.fates++List.replicate (s'.evicted.frames-s.evicted.frames) .evicted}) :
    Advances c w (.enqueue f now) w' s' ∧ Stored c.toCodec s' d ∧ Accounts c.toCodec w' s' := by
  cases he : c.encode f with
  | none =>
    have refused : (enqueue c.toCodec s f now).run device w.disk = ((s,some .encode),w.disk) := by
      simp [enqueue,he,Prog.run]
    cases hr.symm.trans refused
    have same : w' = w := by
      rw [after]
      simp [here.symm]
    rw [same]
    refine ⟨⟨here,fun t ht => ?_,fun g now' hg some => ?_⟩,stored,accounts⟩
    · cases ht.symm.trans here
      exact ⟨le_rfl,Int.le_refl _⟩
    · cases hg
      exact absurd he some
  | some data =>
    obtain ⟨ok,stored',live,evicted,-,cap⟩ := (enqueue_ends stored he now).run
    rw [hr] at ok stored' live evicted cap
    simp only at ok stored' live evicted cap
    subst ok
    have count : s'.evicted.frames-s.evicted.frames = ((s.push f data).evictions c.toCodec).1 := by
      rw [evicted,record_frames]
      simp [Spool.push]
    rw [count] at after
    have accounts' : Accounts c.toCodec w' s' := by
      rw [after]
      exact accounts.enqueued stored he live evicted
    have pushed : (s.push f data).frames = s.frames++[f] := by
      rw [Spool.frames,Spool.live_push stored.head_le,map_append]
      rfl
    refine ⟨⟨by rw [after],fun t ht => ?_,fun g now' hg _ => ?_⟩,stored',accounts'⟩
    · cases ht.symm.trans here
      have stats := record_stats (s := s.push f data) accounts.stats (stored.push he).live_encoded now
      rw [← evicted] at stats
      refine accounts.stats.le stats (List.Perm.refl _) fun x hx => ?_
      obtain ⟨y,-,rfl⟩ := mem_map.mp hx
      exact loss_nonneg c.toCodec y
    · cases hg
      refine ⟨s,_,here,by rw [after],?_,?_⟩
      · rw [← pushed,Spool.frames,live,map_drop]
        rfl
      · have capped := @evictions_capped F c.toCodec (s.push f data) (stored.push he).bytes_eq
          (by simp [Spool.live_push stored.head_le])
        rw [stored'.bytes_eq,live,cap]
        exact capped

theorem Sound.up {c : Codec F} {w : Life F} {s : Spool F} (h : Sound c w) (here : w.spool = some s) :
    Stored c s w.disk ∧ Accounts c w s := by
  obtain ⟨t,stored,accounts,same | ⟨none,-⟩⟩ := h
  · cases here.symm.trans same
    exact ⟨stored,accounts⟩
  · rw [here] at none
    cases none

theorem kept_record {s s' : Spool F} {e : Event F} (here : w.spool = some s)
    (after : w'.spool = some s') (evicted : s'.evicted = s.evicted)
    (other : ∀ f now, e ≠ .enqueue f now) : Advances c w e w' s' := by
  refine ⟨after,fun t ht => ?_,fun f now he => absurd he (other f now)⟩
  cases ht.symm.trans here
  rw [evicted]
  exact ⟨le_rfl,Int.le_refl _⟩

theorem step_sound {e : Event F} (h : Sound c.toCodec w)
    (hs : Guarded (Step c.toCodec) Meets w e w') :
    (∃ s', Advances c w e w' s') ∧ Sound c.toCodec w' := by
  obtain ⟨meets,step⟩ := hs
  cases step with
  | reopen capBytes hr =>
    obtain ⟨s',advances,stored,accounts⟩ := step_reopened h meets hr
    exact ⟨⟨s',advances⟩,s',stored,accounts,.inl advances.spool⟩
  | enqueue f now here hr =>
    obtain ⟨stored,accounts⟩ := h.up here
    obtain ⟨advances,stored',accounts'⟩ := step_enqueued stored accounts here hr rfl
    exact ⟨⟨_,advances⟩,_,stored',accounts',.inl rfl⟩
  | @commitThrough s s' _ d pos here hr =>
    obtain ⟨stored,accounts⟩ := h.up here
    obtain ⟨-,stored',live,evicted,origin,-⟩ := (commitThrough_ends stored pos).run
    rw [hr] at stored' live evicted origin
    simp only at stored' live evicted origin
    have through : s'.origin-s.origin = s.through pos := by omega
    rw [through]
    have accounts' := accounts.committed (d := d) (min_le_right _ _) live evicted
    exact ⟨⟨s',kept_record here rfl evicted nofun⟩,s',stored',accounts',.inl rfl⟩
  | @recordDestroyed s s' d f reason now here hr =>
    obtain ⟨stored,accounts⟩ := h.up here
    obtain ⟨after,stored'⟩ := (recordDestroyed_ends stored f reason now).run
    rw [hr] at after stored'
    simp only at after stored'
    subst after
    have accounts' := accounts.destroyed f reason now (d := d)
    refine ⟨⟨_,rfl,fun t ht => ?_,nofun⟩,_,stored',accounts',.inl rfl⟩
    cases ht.symm.trans here
    have more := @destroyed_stats F c.toCodec _ _ accounts.stats f reason now
    refine accounts.stats.le more (List.Perm.refl _) fun x hx => ?_
    rw [mem_singleton.mp hx]
    exact loss_nonneg c.toCodec f

structure Conserved (c : TimedCodec F) (w : Life F) (s : Spool F) : Prop where
  live : s.frames.map c.encode = (w.entered.drop w.fates.length).map c.encode
  left : w.fates.length ≤ w.entered.length
  bytes : s.bytes = (s.frames.map fun f => (loss c.toCodec f).1).sum
  stats : StatsOf ((ofFate .evicted w.entered w.fates++w.destroyed).map (loss c.toCodec)) s.evicted

theorem Accounts.conserved {s : Spool F} (h : Accounts c.toCodec w s)
    (stored : Stored c.toCodec s w.disk) : Conserved c w s := by
  refine ⟨?_,h.fates_le,?_,h.stats⟩
  · have both := congrArg (List.map Prod.fst) h.live
    rw [map_map,map_map] at both
    exact both
  · rw [stored.bytes_eq,SpoolQueue.sizeOf,Spool.frames,map_map]
    refine congrArg List.sum (map_congr_left fun e he => ?_)
    exact (congrArg Prod.fst (loss_encoded (stored.live_encoded e he))).symm

/-- In every life of a state directory on a disk that refuses nothing, with every reopened queue's
lines below the scanner's limit: frames are conserved at every moment, and the next call, whatever
it is, loses no count, evicts only the oldest frames and ends under the cap or with one. -/
theorem spool_conserves {events : List (Event F)}
    (run : Run (Guarded (Step c.toCodec) Meets) .fresh events w) :
    (∀ s, w.spool = some s → Conserved c w s) ∧
      ∀ e w', Guarded (Step c.toCodec) Meets w e w' → ∃ s', Advances c w e w' s' := by
  have sound : Sound c.toCodec w := run.invariant (I := Sound c.toCodec)
    (fun _ _ _ h hs => (step_sound h hs).2) (sound_fresh c.toCodec)
  exact ⟨fun s here => (sound.up here).2.conserved (sound.up here).1,fun e w' hs => (step_sound sound hs).1⟩

end

def logTimed : TimedCodec Nat where
  toCodec := logCodec
  ts_kept := fun _ _ _ _ _ => rfl

theorem spool_conserves_evicting : ∃ w s, w.spool = some s ∧ s.frames = [8] ∧
    w.entered = [7,8] ∧ w.fates = [.evicted] ∧ Conserved logTimed w s := by
  have opened : Run (Guarded (Step logCodec) Meets) .fresh _ _ :=
    (Run.nil _).also (.reopen 100 rfl) fun _ h => by cases h
  have first := opened.also (.enqueue 7 4 rfl rfl) trivial
  have second := first.also (.enqueue 8 5 rfl rfl) trivial
  have again := second.also (.reopen 100 rfl) fun s hs => by
    cases hs
    decide
  exact ⟨_,_,rfl,by decide,by decide,by decide,
    (spool_conserves (c := logTimed) again).1 _ rfl⟩

/-! A frame longer than Open's scanner holds. -/

theorem long_line_closes {c : TimedCodec F} {f : F} {data : Bytes} (he : c.encode f = some data)
    (long : maxLine ≤ data.length) (capBytes : Int) :
    ∃ w, Run (Step c.toCodec) .fresh [.reopen capBytes,.enqueue f 0,.reopen capBytes] w ∧
      w.entered = [f] ∧ w.fates = [] ∧ w.spool = none := by
  have ends := (enqueue_ends (stored_empty c.toCodec capBytes) he 0).run
  have opened : Run (Step c.toCodec) .fresh [.reopen capBytes]
      ⟨.empty,some ⟨capBytes,[],0,0,0,.empty⟩,[],[],[]⟩ := (Run.nil _).snoc (.reopen capBytes rfl)
  have enqueued := opened.snoc (.enqueue f 0 rfl rfl)
  generalize (enqueue c.toCodec (⟨capBytes,[],0,0,0,.empty⟩ : Spool F) f 0).run device .empty = r
    at ends enqueued
  obtain ⟨⟨s,err⟩,d⟩ := r
  obtain ⟨ok,stored,live,evicted,-,-⟩ := ends
  simp only at ok stored live evicted
  subst ok
  have none : s.evicted.frames-EvictionStats.empty.frames = 0 := by
    rw [evicted,record_frames]
    rfl
  have mem : (⟨f,(data.length : Int)+1⟩ : Entry F) ∈ s.live := by
    rw [live]
    exact mem_singleton_self _
  have closed := reopen_fails stored (mem_of_mem_drop mem) (by simp only; omega) capBytes
  have reopened := enqueued.snoc (.reopen capBytes closed)
  exact ⟨_,reopened,rfl,congrArg (fun k => List.replicate k Fate.evicted) none,rfl⟩

def paddedOpening : Bytes :=
  asciiBytes "\x7b\"v\":1,\"type\":\"log\",\"seq\":0,\"ts\":\"2026-01-01T00:00:00Z\",\"payload\":\x7b\"message\":\""

def paddedClosing : Bytes := asciiBytes "\"\x7d\x7d"

def paddedText (n : Nat) : Bytes := paddedOpening++(List.replicate n 120++paddedClosing)

theorem length_paddedText (n : Nat) :
    (paddedText n).length = n+(paddedOpening.length+paddedClosing.length) := by
  simp only [paddedText,length_append,length_replicate]
  omega

def decodePadded (line : Bytes) : Option Nat :=
  let n := line.length-(paddedOpening.length+paddedClosing.length)
  if paddedText n = line then some n else none

theorem decodePadded_paddedText (n : Nat) : decodePadded (paddedText n) = some n := by
  rw [decodePadded,length_paddedText]
  simp

def paddedCodec : TimedCodec Nat where
  encode := fun n => some (paddedText n)
  decode := decodePadded
  ts := fun _ => 63902822400000000000
  encodeStats := logCodec.encodeStats
  decodeStats := logCodec.decodeStats
  decode_encode := by
    intro n data h
    cases h
    exact ⟨n,decodePadded_paddedText n,rfl⟩
  newline_free := by
    intro n data h
    cases h
    have first : newline ∉ paddedOpening := by
      rw [paddedOpening,asciiBytes,String.toList_ofList]
      decide
    have last : newline ∉ paddedClosing := by decide
    have pad : newline ∉ List.replicate n (120 : UInt8) :=
      fun mem => absurd (eq_of_mem_replicate mem) (by decide)
    refine ⟨by simp only [paddedText,mem_append,first,pad,last,or_self,not_false_iff],?_⟩
    have some : List.replicate n 120++paddedClosing ≠ [] := by
      simp [show paddedClosing ≠ [] by decide]
    rw [paddedText,getLast?_append_of_ne_nil _ some,
      getLast?_append_of_ne_nil _ (show paddedClosing ≠ [] by decide)]
    decide
  decodeStats_encodeStats := logCodec.decodeStats_encodeStats
  ts_kept := fun _ _ _ _ _ => rfl

/-- A log frame of more than a mebibyte is enqueued without an error; the next Open fails, and
the frame is in no backlog, not committed and not evicted. -/
theorem long_frame_closes_spool : ∃ w, Run (Step paddedCodec.toCodec) .fresh
    [.reopen 67108864,.enqueue 1048576 0,.reopen 67108864] w ∧
      w.entered = [1048576] ∧ w.fates = [] ∧ ¬∃ s, w.spool = some s ∧ Conserved paddedCodec w s := by
  have he : paddedCodec.encode 1048576 = some (paddedText 1048576) := rfl
  have long : maxLine ≤ (paddedText 1048576).length := by
    rw [length_paddedText]
    simp only [maxLine]
    omega
  obtain ⟨w,run,entered,fates,none⟩ := long_line_closes he long 67108864
  refine ⟨w,run,entered,fates,?_⟩
  rintro ⟨s,here,-⟩
  rw [none] at here
  cases here

end CircuitBreaker.SpoolConserved
