import CircuitBreaker.LogFrames
import CircuitBreaker.StepRuns

/-! Absolute positions name frames for as long as one `Spool` is open, whatever
Enqueue evicts, CommitThrough discards or the disk refuses in between. -/

namespace CircuitBreaker.SpoolQueue
open DiskProgram ByteLines StepRuns List

variable {F : Type} {c : Codec F} {P : Entry F → Prop}

/-- The recorded length is that of the frame's own line, newline included. -/
def Entry.Encoded (c : Codec F) (e : Entry F) : Prop :=
  ∃ data, c.encode e.f = some data ∧ e.n = (data.length : Int)+1

/-- The recorded length is that of a line holding the frame: its own encoding,
or the line it was loaded from (which another writer may have spaced differently). -/
def Entry.Sized (c : Codec F) (e : Entry F) : Prop :=
  e.Encoded c ∨ ∃ line, c.decode line = some e.f ∧ e.n = (line.length : Int)+1

def Spool.frames (s : Spool F) : List F := s.live.map Entry.f

/-- The counters of a spool agree, its live backlog is what is left of the stream
of all frames that ever entered it, and each live length is as `P` says. -/
structure Tracks (P : Entry F → Prop) (stream : List F) (s : Spool F) : Prop where
  head_le : s.head ≤ s.entries.length
  frames_eq : s.frames = stream.drop s.origin
  origin_le : s.origin ≤ stream.length
  bytes_eq : s.bytes = sizeOf s.live
  sized : ∀ e ∈ s.live, P e

theorem sizeOf_append (es fs : List (Entry F)) : sizeOf (es ++ fs) = sizeOf es + sizeOf fs := by
  simp [sizeOf]

theorem sizeOf_take_add_drop (es : List (Entry F)) (k : Nat) :
    sizeOf (es.take k) + sizeOf (es.drop k) = sizeOf es := by
  rw [← sizeOf_append,take_append_drop]

@[simp] theorem Spool.length_frames (s : Spool F) : s.frames.length = s.live.length := by
  simp [Spool.frames]

theorem Spool.live_length (s : Spool F) : s.live.length = s.entries.length-s.head := by
  simp [Spool.live]

variable {stream : List F} {s : Spool F}

theorem Tracks.total (h : Tracks P stream s) :
    s.origin+s.live.length = stream.length := by
  have hl : s.live.length = stream.length-s.origin := by
    rw [← s.length_frames,h.frames_eq,length_drop]
  have := h.origin_le
  omega

theorem encodeAll_spec {es kept : List (Entry F)} {lines : List Bytes}
    (h : encodeAll c es = some (lines,kept)) :
    kept.map Entry.f = es.map Entry.f ∧ (∀ e ∈ kept, e.Encoded c) := by
  induction es generalizing lines kept with
  | nil =>
    simp only [encodeAll,Option.some.injEq,Prod.mk.injEq] at h
    simp [← h.2]
  | cons e es ih =>
    simp only [encodeAll,Option.bind_eq_bind,Option.bind_eq_some_iff,Option.pure_def,
      Option.some.injEq,Prod.mk.injEq] at h
    obtain ⟨data,hd,⟨ls,ks⟩,hr,-,rfl⟩ := h
    obtain ⟨hf,hs⟩ := ih hr
    refine ⟨by simp [hf],?_⟩
    intro x hx
    rcases mem_cons.mp hx with rfl | hx
    · exact ⟨data,hd,rfl⟩
    · exact hs x hx

@[simp] theorem EvictionStats.widen_frames (e : EvictionStats) (ts : Int) :
    (e.widen ts).frames = e.frames := by
  unfold widen
  split
  · rfl
  · dsimp only
    split <;> split <;> rfl

theorem evictLoop_spec (c : Codec F) (cap : Int) (es : List (Entry F)) (bytes : Int)
    (batch : EvictionStats) :
    (evictLoop c cap es bytes batch).1 ≤ es.length-1 ∧
    (evictLoop c cap es bytes batch).2.1 = bytes-sizeOf (es.take (evictLoop c cap es bytes batch).1) ∧
    (evictLoop c cap es bytes batch).2.2.frames =
      batch.frames+(evictLoop c cap es bytes batch).1 := by
  induction es generalizing bytes batch with
  | nil => simp [evictLoop,sizeOf]
  | cons e es ih =>
    cases es with
    | nil => simp [evictLoop,sizeOf]
    | cons e' es =>
      simp only [evictLoop]
      split
      · obtain ⟨hl,hb,hf⟩ := ih (bytes-e.n)
          ({batch with frames := batch.frames+1, bytes := batch.bytes+e.n}.widen (c.ts e.f))
        refine ⟨?_,?_,?_⟩
        · simp only [length_cons] at hl ⊢
          omega
        · rw [hb]
          simp [sizeOf,take_succ_cons]
          omega
        · rw [hf]
          simp only [EvictionStats.widen_frames]
          omega
      · simp [sizeOf]

theorem dropOldest_frames (c : Codec F) (s : Spool F) (now : Int) :
    (s.dropOldest (evictLoop c s.capBytes s.live s.bytes .empty) now).evicted.frames =
      s.evicted.frames+(evictLoop c s.capBytes s.live s.bytes .empty).1 := by
  have := (evictLoop_spec c s.capBytes s.live s.bytes .empty).2.2
  simp only [Spool.dropOldest,EvictionStats.absorb,EvictionStats.widen_frames,this]
  simp [EvictionStats.empty]

theorem Tracks.push (hP : ∀ e, e.Encoded c → P e) {f : F}
    {data : Bytes} (h : Tracks P stream s) (he : c.encode f = some data) :
    Tracks P (stream ++ [f]) (s.push f data) := by
  have hl : (s.push f data).live = s.live ++ [⟨f,(data.length : Int)+1⟩] := by
    simp [Spool.push,Spool.live,drop_append_of_le_length h.head_le]
  constructor
  · have := h.head_le
    simp [Spool.push]; omega
  · rw [Spool.frames,hl,map_append,← Spool.frames,h.frames_eq]
    simp [Spool.push,drop_append_of_le_length h.origin_le]
  · have := h.origin_le
    simp [Spool.push]; omega
  · rw [hl,sizeOf_append,← h.bytes_eq]
    simp [Spool.push,sizeOf]
  · intro e hm
    rw [hl,mem_append,mem_singleton] at hm
    rcases hm with hm | rfl
    · exact h.sized e hm
    · exact hP _ ⟨data,he,rfl⟩

variable {t : Spool F}

theorem Tracks.advance {n : Nat} (h : Tracks P stream s)
    (hn : n ≤ s.live.length) (he : t.entries = s.entries) (hh : t.head = s.head+n)
    (ho : t.origin = s.origin+n) (hb : t.bytes = s.bytes-sizeOf (s.live.take n)) :
    Tracks P stream t := by
  have hl : t.live = s.live.drop n := by simp [Spool.live,he,hh]
  have hlen := s.live_length
  have htotal := h.total
  constructor
  · have := h.head_le
    rw [hh,he]; omega
  · rw [Spool.frames,hl,map_drop,← Spool.frames,h.frames_eq,drop_drop,ho]
  · omega
  · have := sizeOf_take_add_drop s.live n
    rw [hb,hl,h.bytes_eq]; omega
  · intro e hm
    rw [hl] at hm
    exact h.sized e (mem_of_mem_drop hm)

theorem Tracks.dropOldest (h : Tracks P stream s) (c : Codec F)
    (batch : EvictionStats) (now : Int) :
    Tracks P stream (s.dropOldest (evictLoop c s.capBytes s.live s.bytes batch) now) := by
  obtain ⟨hl,hb,-⟩ := evictLoop_spec c s.capBytes s.live s.bytes batch
  exact h.advance (Nat.le_trans hl (Nat.sub_le _ _)) rfl rfl rfl hb

theorem Tracks.consume (h : Tracks P stream s) {n : Nat}
    (hn : n ≤ s.live.length) : Tracks P stream (s.consume n) :=
  h.advance hn rfl rfl rfl rfl

theorem Tracks.rewrite (hP : ∀ e, e.Encoded c → P e)
    (h : Tracks P stream s) {lines : List Bytes} {kept : List (Entry F)} (he : encodeAll c s.live = some (lines,kept)) :
    Tracks P stream {s with entries := kept, head := 0, bytes := sizeOf kept} := by
  obtain ⟨hf,hs⟩ := encodeAll_spec he
  refine ⟨Nat.zero_le _,?_,h.origin_le,rfl,fun e he => hP e (hs e he)⟩
  exact Eq.trans hf h.frames_eq

@[simp] theorem always_attempt (a : Act) (Q : Option SpoolError → Prop) :
    (attempt a).Always Q ↔ Q none ∧ Q (some (.io a)) := by
  simp only [attempt,Prog.bind_eq,perform_bind,Prog.Always]
  constructor
  · exact fun h => ⟨h .ok,h .failed⟩
  · intro h r
    cases r
    · exact h.1
    · exact h.1
    · exact h.1
    · exact h.2

theorem compactLocked_tracks (hP : ∀ e, e.Encoded c → P e)
    (h : Tracks P stream s) :
    (compactLocked c s).Always fun r => Tracks P stream r.1 ∧ r.1.origin = s.origin := by
  unfold compactLocked
  cases he : encodeAll c s.live with
  | none =>
    simp only [Prog.bind_eq,Prog.always_bind,always_attempt]
    exact ⟨⟨h,rfl⟩,h,rfl⟩
  | some r =>
    obtain ⟨lines,kept⟩ := r
    have hk := h.rewrite hP he
    simp only [Prog.bind_eq,Prog.always_bind,always_attempt,removeHeadMarker]
    exact ⟨⟨⟨⟨hk,rfl⟩,hk,rfl⟩,h,rfl⟩,h,rfl⟩

theorem makeRoom_tracks (hP : ∀ e, e.Encoded c → P e)
    (h : Tracks P stream s) (now : Int) :
    (makeRoom c s now).Always fun r => Tracks P stream r.1 ∧ s.origin ≤ r.1.origin := by
  unfold makeRoom
  simp only
  split
  · exact ⟨h,Nat.le_refl _⟩
  · have hd := h.dropOldest c .empty now
    have hc := compactLocked_tracks hP hd
    have hle := Nat.le_add_right s.origin (evictLoop c s.capBytes s.live s.bytes .empty).1
    simp only [persistEvictionsLocked,Prog.bind_eq,Prog.always_bind,always_attempt]
    have hq := Prog.always_mono hc fun r hr =>
      (⟨hr.1,hr.2 ▸ hle⟩ : Tracks P stream r.1 ∧ s.origin ≤ r.1.origin)
    exact ⟨⟨hq,hq⟩,hq⟩

theorem commitLocked_tracks (hP : ∀ e, e.Encoded c → P e)
    (h : Tracks P stream s) (n : Int) :
    (commitLocked c s n).Always fun r =>
      Tracks P stream r.1 ∧ r.1.origin = s.origin+min n.toNat s.live.length := by
  unfold commitLocked
  simp only
  split
  · rename_i hz
    exact ⟨h,by simp only [hz,Nat.add_zero]⟩
  · have hc := h.consume (Nat.min_le_right n.toNat s.live.length)
    split
    · exact compactLocked_tracks hP hc
    · simp only [writeHeadMarker,Prog.bind_eq,Prog.always_bind,always_attempt]
      exact ⟨⟨⟨hc,rfl⟩,hc,rfl⟩,hc,rfl⟩

theorem commitThrough_tracks (hP : ∀ e, e.Encoded c → P e)
    (h : Tracks P stream s) (pos : Int) :
    (commitThrough c s pos).Always fun r =>
      Tracks P stream r.1 ∧ r.1.origin = s.origin+min (pos-s.origin+1).toNat s.live.length ∧
      (pos < s.origin → r.1 = s) := by
  unfold commitThrough
  split
  · rename_i hp
    have hz : (pos-s.origin+1).toNat = 0 := by omega
    exact ⟨h,by simp only [hz,Nat.zero_min,Nat.add_zero],fun _ => rfl⟩
  · rename_i hp
    exact Prog.always_mono (commitLocked_tracks hP h _) fun r hr => ⟨hr.1,hr.2,fun h => absurd h hp⟩

theorem compactLocked_record (c : Codec F) (s : Spool F) :
    (compactLocked c s).Always fun r => r.1.origin = s.origin ∧ r.1.evicted = s.evicted := by
  unfold compactLocked
  split
  · simp only [Prog.bind_eq,Prog.always_bind,always_attempt]
    exact ⟨⟨rfl,rfl⟩,rfl,rfl⟩
  · simp only [Prog.bind_eq,Prog.always_bind,always_attempt,removeHeadMarker]
    exact ⟨⟨⟨⟨rfl,rfl⟩,rfl,rfl⟩,rfl,rfl⟩,rfl,rfl⟩

theorem enqueue_counts (c : Codec F) (s : Spool F) (f : F) (now : Int) :
    (enqueue c s f now).Always fun r =>
      r.1.evicted.frames+s.origin = s.evicted.frames+r.1.origin := by
  have hroom (u : Spool F) (ho : u.origin = s.origin) (he : u.evicted = s.evicted) :
      (makeRoom c u now).Always fun r =>
        r.1.evicted.frames+s.origin = s.evicted.frames+r.1.origin := by
    unfold makeRoom
    dsimp only
    split
    · exact by simp only [Prog.pure_eq,Prog.Always,ho,he]
    · have hf := dropOldest_frames c u now
      have hc := Prog.always_mono (compactLocked_record c
        (u.dropOldest (evictLoop c u.capBytes u.live u.bytes .empty) now)) fun r hr =>
          (by rw [hr.1,hr.2,hf,← ho,← he]; simp only [Spool.dropOldest]; omega :
            r.1.evicted.frames+s.origin = s.evicted.frames+r.1.origin)
      simp only [persistEvictionsLocked,Prog.bind_eq,Prog.always_bind,always_attempt]
      exact ⟨⟨hc,hc⟩,hc⟩
  unfold enqueue
  split
  · exact rfl
  · simp only [Prog.bind_eq,Prog.always_bind,always_attempt]
    exact ⟨hroom _ rfl rfl,rfl⟩

theorem commitThrough_record (c : Codec F) (s : Spool F) (pos : Int) :
    (commitThrough c s pos).Always fun r => r.1.evicted = s.evicted := by
  unfold commitThrough
  split
  · exact rfl
  · unfold commitLocked
    dsimp only
    split
    · exact rfl
    · split
      · exact Prog.always_mono (compactLocked_record c _) fun r hr => hr.2
      · simp only [writeHeadMarker,Prog.bind_eq,Prog.always_bind,always_attempt]
        exact ⟨⟨rfl,rfl⟩,rfl⟩

theorem decodeLines_sized (hline : ∀ line f, c.decode line = some f → P ⟨f,(line.length : Int)+1⟩)
    (lines : List Bytes) : ∀ e ∈ (decodeLines c lines).1, P e := by
  induction lines with
  | nil => simp [decodeLines]
  | cons line rest ih =>
    simp only [decodeLines]
    split
    · exact ih
    · rename_i f hd
      intro e he
      rcases mem_cons.mp he with rfl | he
      · exact hline line f hd
      · exact ih e he

theorem orError_ok {err : Option SpoolError} (h : orError s err = .ok t) : s = t := by
  cases err <;> simp_all [orError]

theorem Tracks.fresh (h : Tracks P stream s) (ho : s.origin = 0) :
    Tracks P s.frames s ∧ s.origin = 0 := by
  have hf : s.frames = stream := by rw [h.frames_eq,ho,drop_zero]
  exact ⟨hf ▸ h,ho⟩

theorem tracks_loaded {entries : List (Entry F)} {head : Nat} (ho : s.origin = 0)
    (hh : head ≤ entries.length) (hs : ∀ e ∈ entries, P e) :
    Tracks P ((entries.drop head).map Entry.f)
      {s with entries := entries, head := head, bytes := sizeOf (entries.drop head)} := by
  refine ⟨hh,?_,?_,rfl,fun e he => hs e (mem_of_mem_drop he)⟩
  · simp [Spool.frames,Spool.live,ho]
  · simp [ho]

theorem readHeadMarker_always (Q : Nat × Bool → Prop) (h : ∀ r, Q r) :
    readHeadMarker.Always Q := by
  intro r
  cases r with
  | content data =>
    simp only [Prog.done_bind]
    split
    · exact h _
    · exact h _
  | _ => exact h _

theorem load_tracks (hP : ∀ e, e.Encoded c → P e)
    (hline : ∀ line f, c.decode line = some f → P ⟨f,(line.length : Int)+1⟩)
    (h : Tracks P [] s) (ho : s.origin = 0) :
    (load c s).Always fun r => ∀ t, r = .ok t → Tracks P t.frames t ∧ t.origin = 0 := by
  have same (err : Option SpoolError) (u : Spool F) (stream : List F) (hu : Tracks P stream u)
      (hz : u.origin = 0) (t : Spool F) (ht : orError u err = .ok t) :
      Tracks P t.frames t ∧ t.origin = 0 := by
    rw [← orError_ok ht]
    exact hu.fresh hz
  unfold load
  rw [Prog.bind_eq,Prog.always_bind]
  refine readHeadMarker_always _ fun marker => ?_
  simp only [Prog.bind_eq,perform_bind,Prog.Always]
  intro r
  cases r with
  | ok | failed => rintro t ⟨⟩
  | missing =>
    simp only
    split
    · simp only [removeHeadMarker,Prog.always_bind,always_attempt]
      exact ⟨same none s [] h ho,same _ s [] h ho⟩
    · exact same none s [] h ho
  | content data =>
    simp only
    split
    · rintro t ⟨⟩
    · rename_i lines _
      have hl := tracks_loaded (s := s) ho
        (Nat.min_le_right marker.1 (decodeLines c lines).1.length) (decodeLines_sized hline lines)
      split
      · rw [Prog.always_bind]
        refine Prog.always_mono (compactLocked_tracks hP hl) fun r hr => ?_
        exact same r.2 r.1 _ hr.1 (hr.2.trans ho)
      · split
        · simp only [removeHeadMarker,Prog.always_bind,always_attempt]
          exact ⟨same none _ _ hl ho,same _ _ _ hl ho⟩
        · exact same none _ _ hl ho

theorem openSpool_tracks (c : Codec F) (capBytes : Int) :
    (openSpool c capBytes).Always fun r =>
      ∀ s, r = .ok s → Tracks (Entry.Sized c) s.frames s ∧ s.origin = 0 := by
  have blank (evicted : EvictionStats) :
      Tracks (Entry.Sized c) [] (⟨capBytes,[],0,0,0,evicted⟩ : Spool F) :=
    ⟨Nat.le_refl _,rfl,Nat.le_refl _,rfl,by simp [Spool.live]⟩
  simp only [openSpool,loadEvictions,Prog.bind_eq,perform_bind,Prog.act_bind,Prog.Always]
  intro r
  cases r with
  | ok | failed => rintro s ⟨⟩
  | missing => exact load_tracks (fun _ => .inl) (fun line _ h => .inr ⟨line,h,rfl⟩) (blank _) rfl
  | content data =>
    simp only
    split
    · rintro s ⟨⟩
    · exact load_tracks (fun _ => .inl) (fun line _ h => .inr ⟨line,h,rfl⟩) (blank _) rfl

/-- The calls on one open spool, each with the answers the file system gives it. -/
inductive Op (F : Type) where
  | enqueue (f : F) (now : Int) (answers : List Answer)
  | peekAt (fromPos maxFrames maxBytes : Int)
  | commitThrough (pos : Int) (answers : List Answer)

/-- The frame a call enqueued: its line was appended, whatever became of the
eviction that may have followed. -/
def Op.entered : Op F → List F
  | .enqueue f _ (a :: _) => if a = .failed then [] else [f]
  | _ => []

def Step (c : Codec F) (s : Spool F) : Op F → Spool F → Prop
  | .enqueue f now answers, t => ∃ err, (enqueue c s f now).replay answers = some (t,err)
  | .peekAt _ _ _, t => t = s
  | .commitThrough pos answers, t => ∃ err, (commitThrough c s pos).replay answers = some (t,err)

def Spool.frameAt (s : Spool F) (p : Int) : Option F :=
  if p < s.origin then none else s.frames[(p-s.origin).toNat]?

theorem enqueue_tracks (hP : ∀ e, e.Encoded c → P e)
    (h : Tracks P stream s) {f : F} {now : Int} {answers : List Answer} {err : Option SpoolError}
    (hr : (enqueue c s f now).replay answers = some (t,err)) :
    Tracks P (stream ++ (Op.enqueue f now answers).entered) t ∧ s.origin ≤ t.origin := by
  unfold enqueue at hr
  cases he : c.encode f with
  | none =>
    cases answers with
    | nil =>
      simp only [he,Prog.pure_eq,Prog.replay,Option.some.injEq,Prod.mk.injEq] at hr
      obtain ⟨rfl,-⟩ := hr
      simpa [Op.entered] using h
    | cons a answers => simp [he,Prog.replay] at hr
  | some data =>
    cases answers with
    | nil => simp [he,attempt,Prog.replay] at hr
    | cons a answers =>
      simp only [he,attempt,Prog.bind_eq,perform_bind,Prog.act_bind,Prog.replay] at hr
      by_cases ha : a = .failed
      · subst ha
        cases answers with
        | nil =>
          simp only [Prog.pure_eq,Prog.done_bind,Prog.replay,Option.some.injEq,Prod.mk.injEq] at hr
          obtain ⟨rfl,-⟩ := hr
          simpa [Op.entered] using h
        | cons a answers => simp [Prog.replay] at hr
      · have hpush := makeRoom_tracks hP (h.push hP he) now
        simp only [Op.entered,if_neg ha]
        cases a with
        | failed => exact absurd rfl ha
        | _ => exact hpush.replay hr

theorem step_tracks (hP : ∀ e, e.Encoded c → P e) {op : Op F}
    (h : Tracks P stream s) (hs : Step c s op t) :
    Tracks P (stream ++ op.entered) t ∧ s.origin ≤ t.origin := by
  cases op with
  | enqueue f now answers =>
    obtain ⟨err,hr⟩ := hs
    exact enqueue_tracks hP h hr
  | peekAt fromPos maxFrames maxBytes =>
    obtain rfl : t = s := hs
    exact ⟨by simpa [Op.entered] using h,Nat.le_refl _⟩
  | commitThrough pos answers =>
    obtain ⟨err,hr⟩ := hs
    obtain ⟨ht,ho,-⟩ := (commitThrough_tracks hP h pos).replay hr
    simp only at ho
    exact ⟨by simpa [Op.entered] using ht,by omega⟩

theorem run_tracks (hP : ∀ e, e.Encoded c → P e)
    {ops : List (Op F)} (hr : Run (Step c) s ops t) (h : Tracks P stream s) :
    Tracks P (stream ++ ops.flatMap Op.entered) t ∧ s.origin ≤ t.origin := by
  induction hr with
  | nil => exact ⟨by simpa using h,Nat.le_refl _⟩
  | snoc _ hs ih =>
    obtain ⟨ht,ho⟩ := step_tracks hP ih.1 hs
    exact ⟨by simpa [append_assoc] using ht,Nat.le_trans ih.2 ho⟩

theorem Tracks.frameAt_eq (h : Tracks P stream s) (p : Int) :
    s.frameAt p = if p < s.origin then none else stream[p.toNat]? := by
  unfold Spool.frameAt
  split
  · rfl
  · rw [h.frames_eq,List.getElem?_drop]
    congr 1
    omega

theorem takeFrames_getElem? (maxFrames : Nat) (maxBytes total : Int) (taken : Nat)
    (es : List (Entry F)) {i : Nat} {f : F}
    (h : (takeFrames maxFrames maxBytes taken total es)[i]? = some f) :
    (es.map Entry.f)[i]? = some f := by
  induction es generalizing taken total i with
  | nil => simp [takeFrames] at h
  | cons e es ih =>
    simp only [takeFrames] at h
    split at h
    · simp at h
    · split at h
      · simp at h
      · cases i with
        | zero => simpa using h
        | succ i => simpa using ih _ _ (by simpa using h)

theorem peekAt_frameAt (s : Spool F) (fromPos maxFrames maxBytes : Int) {i : Nat} {f : F}
    (h : (peekAt s fromPos maxFrames maxBytes).frames[i]? = some f) :
    s.frameAt ((peekAt s fromPos maxFrames maxBytes).start+i) = some f := by
  simp only [peekAt,peekLocked] at h ⊢
  split at h
  · simp at h
  · have hm := takeFrames_getElem? _ _ _ _ _ h
    rw [map_drop,List.getElem?_drop] at hm
    rw [Spool.frameAt,if_neg (by omega),Spool.frames,← hm]
    congr 1
    omega

theorem peekAt_live (s : Spool F) {p maxFrames : Int} (maxBytes : Int) {f : F}
    (hp : s.frameAt p = some f) (hm : 0 < maxFrames) :
    (peekAt s p maxFrames maxBytes).start = p ∧
    (peekAt s p maxFrames maxBytes).frames.head? = some f := by
  unfold Spool.frameAt at hp
  split at hp
  · simp at hp
  · have hskip : (if p > s.origin then (p-s.origin).toNat else 0) = (p-s.origin).toNat := by
      split
      · rfl
      · omega
    simp only [peekAt,hskip,peekLocked,if_neg (Int.not_le.mpr hm)]
    refine ⟨by omega,?_⟩
    rw [Spool.frames,List.getElem?_map,Option.map_eq_some_iff] at hp
    obtain ⟨e,he,rfl⟩ := hp
    obtain ⟨hlt,hget⟩ := List.getElem?_eq_some_iff.mp he
    rw [drop_eq_getElem_cons hlt,takeFrames,if_neg (by omega),if_neg (by omega),hget,
      head?_cons]

theorem commitThrough_frameAt (h : Tracks P stream s)
    (hP : ∀ e, e.Encoded c → P e) {pos : Int} {answers : List Answer} {err : Option SpoolError}
    (hr : (commitThrough c s pos).replay answers = some (t,err)) (p : Int) :
    t.frameAt p = if p ≤ pos then none else s.frameAt p := by
  obtain ⟨ht,ho,-⟩ := (commitThrough_tracks hP h pos).replay hr
  simp only at ht ho
  have htotal := h.total
  rw [ht.frameAt_eq,h.frameAt_eq,ho]
  split
  · split
    · rfl
    · split
      · rfl
      · omega
  · split
    · rw [List.getElem?_eq_none]
      omega
    · rw [if_neg (by omega)]

/-- What absolute positions mean between two moments `s` and `t` of one open
spool, the first reached after `entered` further frames came in. -/
structure PositionsPermanent (c : Codec F) (loaded entered : Nat) (s t : Spool F) : Prop where
  total : s.origin+s.live.length = loaded+entered
  origin_mono : s.origin ≤ t.origin
  peeked : ∀ fromPos maxFrames maxBytes (i : Nat) f,
    (peekAt s fromPos maxFrames maxBytes).frames[i]? = some f →
    s.frameAt ((peekAt s fromPos maxFrames maxBytes).start+i) = some f
  peekable : ∀ p maxFrames maxBytes f, s.frameAt p = some f → 0 < maxFrames →
    (peekAt s p maxFrames maxBytes).start = p ∧
    (peekAt s p maxFrames maxBytes).frames.head? = some f
  permanent : ∀ p : Int, t.origin ≤ p → p < s.origin+s.live.length →
    t.frameAt p = s.frameAt p ∧ (s.frameAt p).isSome
  committed : ∀ pos answers u err, (commitThrough c s pos).replay answers = some (u,err) →
    (∀ p, u.frameAt p = if p ≤ pos then none else s.frameAt p) ∧ (pos < s.origin → u = s)
  bytes_eq : s.bytes = (s.live.map Entry.n).sum
  sized : ∀ e ∈ s.live, e.Sized c

theorem Tracks.positionsPermanent {loaded entered later : List F}
    (hs : Tracks (Entry.Sized c) (loaded ++ entered) s)
    (ht : Tracks (Entry.Sized c) (loaded ++ entered ++ later) t) (ho : s.origin ≤ t.origin) :
    PositionsPermanent c loaded.length entered.length s t := by
  constructor
  · simpa using hs.total
  · exact ho
  · exact fun fromPos maxFrames maxBytes i f h => peekAt_frameAt s fromPos maxFrames maxBytes h
  · exact fun p maxFrames maxBytes f hp hm => peekAt_live s maxBytes hp hm
  · intro p hlo hhi
    have htotal := hs.total
    have hlt : p.toNat < (loaded ++ entered).length := by omega
    rw [ht.frameAt_eq,hs.frameAt_eq,if_neg (by omega),if_neg (by omega),
      List.getElem?_append_left hlt]
    exact ⟨rfl,by simp only [List.getElem?_eq_getElem hlt,Option.isSome_some]⟩
  · intro pos answers u err hr
    exact ⟨commitThrough_frameAt hs (fun _ => .inl) hr,
      ((commitThrough_tracks (fun _ => .inl) hs pos).replay hr).2.2⟩
  · exact hs.bytes_eq
  · exact hs.sized

end CircuitBreaker.SpoolQueue
