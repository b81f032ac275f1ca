import CircuitBreaker.SpoolCrash

/-! What the spool's calls come to on a disk that refuses nothing: the memory and the state
directory they leave, exactly. -/

namespace CircuitBreaker.SpoolQueue
open DiskProgram ByteLines List

variable {F : Type} {c : Codec F}

def Ends {α : Type} (p : SpoolProg α) (d : Disk) (Q : α → Disk → Prop) : Prop :=
  p.wp device (fun _ _ => True) Q d

variable {d : Disk}

theorem Ends.run {α : Type} {p : SpoolProg α} {Q : α → Disk → Prop} (h : Ends p d Q) :
    Q (p.run device d).1 (p.run device d).2 := ((Prog.wp_iff ..).mp h).2

theorem Ends.mono {α : Type} {p : SpoolProg α} {Q Q' : α → Disk → Prop}
    (h : Ends p d Q) (hq : ∀ a d', Q a d' → Q' a d') : Ends p d Q' :=
  Prog.wp_mono h (fun _ _ h => h) hq

def causeWriteFailed : String := "write_failed"

def EvictionStats.destroyed (c : Codec F) (e : EvictionStats) (f : F) (reason : String) (now : Int) :
    EvictionStats :=
  let size : Int := match c.encode f with
    | some data => (data.length : Int)+1
    | none => 0
  let e := {e with frames := e.frames+1, bytes := e.bytes+size}.widen (c.ts f)
  { e with
    lastEvictedAt := now
    lastDestroyedCause := causeWriteFailed
    lastDestroyedReason := reason }

def recordDestroyed (c : Codec F) (s : Spool F) (f : F) (reason : String) (now : Int) :
    SpoolProg (Spool F) := do
  let s := {s with evicted := s.evicted.destroyed c f reason now}
  let _ ← persistEvictionsLocked c s
  pure s

/-! The directory in step with the memory. -/

def linesOf (c : Codec F) (es : List (Entry F)) : List Bytes :=
  es.map fun e => (c.encode e.f).getD []

/-- The record on disk is the one in memory; a directory without one has lost nothing. -/
def StatsStored (c : Codec F) (e : EvictionStats) (d : Disk) : Prop :=
  d .evicted = none ∧ e = .empty ∨ d .evicted = some (c.encodeStats e)

/-- Between two calls queue.jsonl holds the entries' own lines, queue.head the number of those
that are delivered, and evicted.json the record. -/
structure Stored (c : Codec F) (s : Spool F) (d : Disk) : Prop where
  encoded : ∀ e ∈ s.entries, e.Encoded c
  head_le : s.head ≤ s.entries.length
  bytes_eq : s.bytes = sizeOf s.live
  queue : Holds d (linesOf c s.entries)
  marker : Marker d s.head
  stats : StatsStored c s.evicted d

variable {s : Spool F}

theorem Stored.live_encoded (h : Stored c s d) :
    ∀ e ∈ s.live, e.Encoded c := fun e he => h.encoded e (mem_of_mem_drop he)

theorem stored_empty (c : Codec F) (capBytes : Int) :
    Stored c (⟨capBytes,[],0,0,0,.empty⟩ : Spool F) .empty where
  encoded := nofun
  head_le := Nat.le_refl _
  bytes_eq := rfl
  queue := rfl
  marker := ⟨Nat.two_pow_pos 63,.inl ⟨rfl,rfl⟩⟩
  stats := .inl ⟨rfl,rfl⟩

variable {es : List (Entry F)}

theorem encodeAll_encoded (h : ∀ e ∈ es, e.Encoded c) :
    encodeAll c es = some (linesOf c es,es) := by
  induction es with
  | nil => rfl
  | cons e es ih =>
    obtain ⟨data,hd,hn⟩ := h e mem_cons_self
    have rest := ih fun e' he => h e' (mem_cons_of_mem e he)
    have same : (⟨e.f,(data.length : Int)+1⟩ : Entry F) = e := by rw [← hn]
    simp [encodeAll,linesOf,hd,rest,same]

def Spool.compacted (s : Spool F) : Spool F :=
  {s with entries := s.live, head := 0, bytes := sizeOf s.live}

theorem compactLocked_ends (h : ∀ e ∈ s.live, e.Encoded c)
    (stats : StatsStored c s.evicted d) :
    Ends (compactLocked c s) d fun r d' =>
      r = (s.compacted,none) ∧ Stored c s.compacted d' ∧ d' .head = none := by
  unfold Ends
  rw [wp_compactLocked (encodeAll_encoded h)]
  refine ⟨trivial,trivial,trivial,rfl,⟨h,Nat.zero_le _,rfl,rfl,?_,stats⟩,rfl⟩
  exact ⟨Nat.two_pow_pos 63,.inl ⟨rfl,rfl⟩⟩

theorem persistEvictionsLocked_ends :
    Ends (persistEvictionsLocked c s) d fun _ d' => StatsStored c s.evicted d' ∧
      d' .queue = d .queue ∧ d' .head = d .head := by
  simp only [Ends,persistEvictionsLocked,Prog.bind_eq,Prog.wp_bind,wp_attempt]
  exact ⟨trivial,trivial,.inr rfl,rfl,rfl⟩

variable {e : EvictionStats}

theorem Stored.restat {d' : Disk} (h : Stored c s d)
    (stats : StatsStored c e d') (hq : d' .queue = d .queue) (hh : d' .head = d .head) :
    Stored c {s with evicted := e} d' := by
  refine ⟨h.encoded,h.head_le,h.bytes_eq,?_,?_,stats⟩
  · rw [Holds,hq]
    exact h.queue
  · have marker := h.marker
    rw [Marker] at marker ⊢
    rwa [hh]

theorem recordDestroyed_ends (h : Stored c s d) (f : F) (reason : String)
    (now : Int) :
    Ends (recordDestroyed c s f reason now) d fun s' d' =>
      s' = {s with evicted := s.evicted.destroyed c f reason now} ∧ Stored c s' d' := by
  simp only [Ends,recordDestroyed,Prog.bind_eq,Prog.wp_bind]
  refine Ends.mono persistEvictionsLocked_ends fun _ d' hd => ?_
  exact ⟨rfl,h.restat hd.1 hd.2.1 hd.2.2⟩

/-! Enqueue. -/

theorem Spool.live_push (h : s.head ≤ s.entries.length) (f : F) (data : Bytes) :
    (s.push f data).live = s.live++[⟨f,(data.length : Int)+1⟩] := by
  simp [Spool.push,Spool.live,drop_append_of_le_length h]

theorem Stored.push (h : Stored c s d) {f : F} {data : Bytes}
    (he : c.encode f = some data) :
    Stored c (s.push f data) (device (.append .queue (data++[newline])) d).2 := by
  refine ⟨?_,?_,?_,?_,h.marker,h.stats⟩
  · intro e mem
    rcases mem_append.mp mem with old | new
    · exact h.encoded e old
    · rw [mem_singleton.mp new]
      exact ⟨data,he,rfl⟩
  · have := h.head_le
    simp only [Spool.push,length_append]
    omega
  · rw [Spool.live_push h.head_le,sizeOf_append,← h.bytes_eq]
    simp [Spool.push,sizeOf]
  · have queue := h.queue
    rw [Holds] at queue
    have lines : linesOf c (s.push f data).entries = linesOf c s.entries++[data] := by
      simp [linesOf,Spool.push,he]
    rw [lines,Holds,unlines_append,unlines_singleton,← queue]
    simp [device]

def Spool.evictions (c : Codec F) (s : Spool F) : Nat × Int × EvictionStats :=
  evictLoop c s.capBytes s.live s.bytes .empty

def Spool.record (c : Codec F) (s : Spool F) (now : Int) : EvictionStats :=
  if (s.evictions c).1 = 0 then s.evicted else s.evicted.absorb (s.evictions c).2.2 now

theorem makeRoom_ends (h : Stored c s d) (now : Int) :
    Ends (makeRoom c s now) d fun r d' => r.2 = none ∧ Stored c r.1 d' ∧
      r.1.live = s.live.drop (s.evictions c).1 ∧ r.1.evicted = s.record c now ∧
      r.1.origin = s.origin+(s.evictions c).1 ∧ r.1.capBytes = s.capBytes := by
  unfold Ends makeRoom
  simp only
  split
  · rename_i none
    have none : (s.evictions c).1 = 0 := none
    exact ⟨rfl,h,by simp [none],by simp [Spool.record,none],by simp [none],rfl⟩
  · rename_i some
    have some : (s.evictions c).1 ≠ 0 := some
    have live : (s.dropOldest (s.evictions c) now).live = s.live.drop (s.evictions c).1 := by
      simp [Spool.dropOldest,Spool.live]
    have encoded : ∀ e ∈ (s.dropOldest (s.evictions c) now).live, e.Encoded c := by
      intro e mem
      rw [live] at mem
      exact h.live_encoded e (mem_of_mem_drop mem)
    simp only [Prog.bind_eq,Prog.wp_bind]
    refine Ends.mono persistEvictionsLocked_ends fun _ d' hd => ?_
    refine Ends.mono (compactLocked_ends encoded hd.1) fun r d'' hr => ?_
    obtain ⟨rfl,stored,cleared⟩ := hr
    refine ⟨rfl,stored,live,?_,rfl,rfl⟩
    rw [Spool.record,if_neg some]
    rfl

theorem enqueue_ends (h : Stored c s d) {f : F} {data : Bytes}
    (he : c.encode f = some data) (now : Int) :
    Ends (enqueue c s f now) d fun r d' => r.2 = none ∧ Stored c r.1 d' ∧
      r.1.live = (s.push f data).live.drop ((s.push f data).evictions c).1 ∧
      r.1.evicted = (s.push f data).record c now ∧
      r.1.origin = s.origin+((s.push f data).evictions c).1 ∧ r.1.capBytes = s.capBytes := by
  simp only [Ends,enqueue,he,Prog.bind_eq,Prog.wp_bind,wp_attempt]
  exact ⟨trivial,makeRoom_ends (h.push he) now⟩

/-! CommitThrough. -/

theorem Stored.consume (h : Stored c s d) {n : Nat}
    (hn : n ≤ s.live.length) : (∀ e ∈ (s.consume n).live, e.Encoded c) ∧
      (s.consume n).live = s.live.drop n ∧ (s.consume n).head ≤ s.entries.length ∧
      (s.consume n).bytes = sizeOf (s.live.drop n) := by
  have live : (s.consume n).live = s.live.drop n := by simp [Spool.consume,Spool.live]
  refine ⟨?_,live,?_,?_⟩
  · intro e mem
    rw [live] at mem
    exact h.live_encoded e (mem_of_mem_drop mem)
  · have := h.head_le
    have := s.live_length
    simp only [Spool.consume]
    omega
  · have := sizeOf_take_add_drop s.live n
    have := h.bytes_eq
    simp only [Spool.consume]
    omega

theorem commitThrough_ends (h : Stored c s d) (pos : Int) :
    Ends (commitThrough c s pos) d fun r d' => r.2 = none ∧ Stored c r.1 d' ∧
      r.1.live = s.live.drop (s.through pos) ∧ r.1.evicted = s.evicted ∧
      r.1.origin = s.origin+s.through pos ∧ r.1.capBytes = s.capBytes := by
  have idle (zero : s.through pos = 0) : ((s,none) : Spool F × Option SpoolError).2 = none ∧
      Stored c s d ∧ s.live = s.live.drop (s.through pos) ∧ s.evicted = s.evicted ∧
      s.origin = s.origin+s.through pos ∧ s.capBytes = s.capBytes := by
    rw [zero]
    exact ⟨rfl,h,rfl,rfl,rfl,rfl⟩
  unfold Ends commitThrough
  split
  · rename_i below
    refine idle ?_
    simp only [Spool.through]
    omega
  · have through : min (pos-s.origin+1).toNat s.live.length = s.through pos := rfl
    simp only [commitLocked,through]
    split
    · rename_i zero
      exact idle zero
    · obtain ⟨encoded,live,head,bytes⟩ := h.consume (Nat.min_le_right (pos-s.origin+1).toNat
        s.live.length)
      rw [through] at encoded live head bytes
      split
      · refine Ends.mono (compactLocked_ends encoded h.stats) fun r d' hr => ?_
        obtain ⟨rfl,stored,cleared⟩ := hr
        exact ⟨rfl,stored,live,rfl,rfl,rfl⟩
      · rename_i small
        simp only [writeHeadMarker,Prog.bind_eq,Prog.wp_bind,wp_attempt,Prog.pure_eq,Prog.wp]
        refine ⟨trivial,trivial,trivial,⟨h.encoded,head,by rw [live]; exact bytes,h.queue,?_,h.stats⟩,
          live,rfl,rfl,rfl⟩
        have few : (s.consume (s.through pos)).head < compactHeadThreshold :=
          Nat.lt_of_not_ge (not_or.mp small).1
        exact ⟨Nat.lt_trans few (by decide),.inr rfl⟩

/-! Open. -/

theorem loadEvictions_ends (h : StatsStored c e d) :
    Ends (loadEvictions c) d fun r d' => r = .ok e ∧ d' = d := by
  simp only [Ends,loadEvictions,Prog.bind_eq,perform_bind,Prog.wp,device]
  refine ⟨trivial,?_⟩
  rcases h with ⟨missing,rfl⟩ | stored
  · simp only [missing]
    exact ⟨rfl,rfl⟩
  · simp only [stored,c.decodeStats_encodeStats]
    exact ⟨rfl,rfl⟩

/-- What Open finds: the lines of queue.jsonl its scanner reads, whether the last of them ends
with the file, the count of delivered lines and the record. -/
structure Found (c : Codec F) (d : Disk) (lines : List Bytes) (m : Nat) (e : EvictionStats) :
    Prop where
  scanned : scanLines maxLine ((d .queue).getD []) = some lines
  marker : Marker d m
  stats : StatsStored c e d
  encoded : ∀ entry ∈ (decodeLines c lines).1, entry.Encoded c

def Found.spool (c : Codec F) (capBytes : Int) (lines : List Bytes) (m : Nat) (e : EvictionStats) :
    Spool F :=
  let entries := (decodeLines c lines).1
  ⟨capBytes,entries,min m entries.length,0,sizeOf (entries.drop (min m entries.length)),e⟩

def Found.Rewrites (c : Codec F) (lines : List Bytes) (m : Nat) : Prop :=
  min m (decodeLines c lines).1.length > 0 ∨ (decodeLines c lines).2 = true

/-- The spool and the directory Open leaves: a queue with anything to clear away is rewritten,
any other stays as it is. -/
structure Opened (c : Codec F) (capBytes : Int) (d : Disk) (lines : List Bytes) (m : Nat)
    (e : EvictionStats) (s : Spool F) (d' : Disk) : Prop where
  live : s.live = (Found.spool c capBytes lines m e).live
  origin : s.origin = 0
  evicted : s.evicted = e
  capBytes_eq : s.capBytes = capBytes
  cleared : d' .head = none
  stats : StatsStored c e d'
  stored : Found.Rewrites c lines m → Stored c s d'
  kept : ¬Found.Rewrites c lines m →
    s = Found.spool c capBytes lines m e ∧ d' .queue = d .queue

theorem scanLines_nil : scanLines maxLine [] = some [] := rfl

theorem openSpool_ends {lines : List Bytes} {m : Nat}
    (h : Found c d lines m e) (capBytes : Int) :
    Ends (openSpool c capBytes) d fun r d' =>
      ∃ s, r = .ok s ∧ Opened c capBytes d lines m e s d' := by
  simp only [Ends,openSpool,Prog.bind_eq,Prog.wp_bind]
  refine Ends.mono (loadEvictions_ends h.stats) fun r d₁ hr => ?_
  obtain ⟨rfl,rfl⟩ := hr
  simp only [load,Prog.bind_eq,Prog.wp_bind,wp_readHeadMarker h.marker]
  refine ⟨trivial,?_⟩
  simp only [perform,Prog.wp]
  refine ⟨trivial,?_⟩
  have unmarked (absent : ¬(d₁ .head).isSome = true) : d₁ .head = none := by simpa using absent
  cases hf : d₁ .queue with have scanned := h.scanned
  | none =>
    rw [hf,Option.getD_none,scanLines_nil] at scanned
    cases scanned
    have clean : ¬Found.Rewrites c [] m := by simp [Found.Rewrites,decodeLines]
    simp only [device,hf]
    split
    · simp only [removeHeadMarker,Prog.wp_bind,wp_attempt,Prog.pure_eq,Prog.wp]
      exact ⟨trivial,_,rfl,by simp [Spool.live,Found.spool,decodeLines],rfl,rfl,rfl,rfl,h.stats,
        (fun dirty => absurd dirty clean),fun _ => ⟨by simp [Found.spool,decodeLines,sizeOf],rfl⟩⟩
    · rename_i absent
      exact ⟨_,rfl,by simp [Spool.live,Found.spool,decodeLines],rfl,rfl,rfl,unmarked absent,h.stats,
        (fun dirty => absurd dirty clean),fun _ => ⟨by simp [Found.spool,decodeLines,sizeOf],rfl⟩⟩
  | some data =>
    rw [hf,Option.getD_some] at scanned
    simp only [device,hf,scanned]
    split
    · rename_i dirty
      have dirty : Found.Rewrites c lines m := dirty
      rw [Prog.wp_bind]
      have encoded : ∀ x ∈ (Found.spool c capBytes lines m e).live, x.Encoded c :=
        fun x mem => h.encoded x (mem_of_mem_drop mem)
      refine Ends.mono (compactLocked_ends encoded h.stats) fun r d' hr => ?_
      obtain ⟨rfl,stored,cleared⟩ := hr
      exact ⟨_,rfl,rfl,rfl,rfl,rfl,cleared,stored.stats,fun _ => stored,
        fun clean => absurd dirty clean⟩
    · rename_i clean
      have clean : ¬Found.Rewrites c lines m := clean
      split
      · simp only [removeHeadMarker,Prog.wp_bind,wp_attempt,Prog.pure_eq,Prog.wp]
        exact ⟨trivial,_,rfl,rfl,rfl,rfl,rfl,rfl,h.stats,(fun dirty => absurd dirty clean),
          fun _ => ⟨rfl,rfl⟩⟩
      · rename_i absent
        exact ⟨_,rfl,rfl,rfl,rfl,rfl,unmarked absent,h.stats,(fun dirty => absurd dirty clean),
          fun _ => ⟨rfl,rfl⟩⟩

theorem openSpool_tooLong {m : Nat} (marker : Marker d m)
    (stats : StatsStored c e d) (unread : scanLines maxLine ((d .queue).getD []) = none)
    (capBytes : Int) : (openSpool c capBytes).run device d = (.error .tooLong,d) := by
  have fails : Ends (openSpool c capBytes) d fun r d' => r = .error .tooLong ∧ d' = d := by
    simp only [Ends,openSpool,Prog.bind_eq,Prog.wp_bind]
    refine Ends.mono (loadEvictions_ends stats) fun r d' hr => ?_
    obtain ⟨rfl,rfl⟩ := hr
    cases hq : d' .queue with
    | none =>
      rw [hq,Option.getD_none,scanLines_nil] at unread
      cases unread
    | some data =>
      rw [hq,Option.getD_some] at unread
      simp only [load,Prog.bind_eq,Prog.wp_bind,wp_readHeadMarker marker,perform,Prog.wp,device,
        hq,unread]
      exact ⟨trivial,trivial,rfl,rfl⟩
  exact Prod.ext fails.run.1 fails.run.2

/-! Open on the directory of a spool. -/

def Entry.reloaded (c : Codec F) (e : Entry F) : Entry F :=
  ⟨((c.encode e.f).bind c.decode).getD e.f,e.n⟩

theorem Entry.Encoded.reloaded {e : Entry F} (h : e.Encoded c) :
    (e.reloaded c).Encoded c ∧ c.encode (e.reloaded c).f = c.encode e.f ∧
      ∃ data, c.encode e.f = some data ∧ c.decode data = some (e.reloaded c).f := by
  obtain ⟨data,hd,hn⟩ := h
  obtain ⟨f,hf,he⟩ := c.decode_encode e.f data hd
  have same : e.reloaded c = ⟨f,e.n⟩ := by simp [Entry.reloaded,hd,hf]
  rw [same]
  exact ⟨⟨data,he,hn⟩,he.trans hd.symm,data,hd,hf⟩

theorem linesOf_reloaded (h : ∀ e ∈ es, e.Encoded c) :
    linesOf c (es.map (Entry.reloaded c)) = linesOf c es := by
  rw [linesOf,map_map]
  exact map_congr_left fun e he => congrArg (·.getD []) (h e he).reloaded.2.1

theorem decodeLines_linesOf (h : ∀ e ∈ es, e.Encoded c) :
    decodeLines c (linesOf c es) = (es.map (Entry.reloaded c),false) := by
  induction es with
  | nil => rfl
  | cons e es ih =>
    have rest := ih fun e' he => h e' (mem_cons_of_mem e he)
    obtain ⟨data,hd,hn⟩ := h e mem_cons_self
    obtain ⟨f,hf,-⟩ := c.decode_encode e.f data hd
    rw [linesOf] at rest
    simp [linesOf,decodeLines,hd,hf,rest,Entry.reloaded,hn]

theorem linesOf_plain (h : ∀ e ∈ es, e.Encoded c)
    (short : ∀ e ∈ es, e.n ≤ maxLine) : ∀ line ∈ linesOf c es, Plain maxLine line := by
  intro line mem
  obtain ⟨e,he,rfl⟩ := mem_map.mp mem
  obtain ⟨data,hd,hn⟩ := h e he
  have := short e he
  rw [hd,Option.getD_some]
  exact ⟨(c.newline_free e.f data hd).1,(c.newline_free e.f data hd).2,by omega⟩

theorem reopen_ends (h : Stored c s d)
    (short : ∀ e ∈ s.entries, e.n ≤ maxLine) (capBytes : Int) :
    Ends (openSpool c capBytes) d fun r d' => ∃ s', r = .ok s' ∧ Stored c s' d' ∧
      s'.live = s.live.map (Entry.reloaded c) ∧ s'.evicted = s.evicted ∧
      s'.origin = 0 ∧ s'.capBytes = capBytes := by
  have decoded := decodeLines_linesOf h.encoded
  have encoded : ∀ e ∈ s.entries.map (Entry.reloaded c), e.Encoded c := by
    intro e mem
    obtain ⟨e,he,rfl⟩ := mem_map.mp mem
    exact (h.encoded e he).reloaded.1
  have found : Found c d (linesOf c s.entries) s.head s.evicted := by
    refine ⟨?_,h.marker,h.stats,by rw [decoded]; exact encoded⟩
    rw [h.queue]
    exact scanLines_unlines (linesOf_plain h.encoded short)
  have live : (Found.spool c capBytes (linesOf c s.entries) s.head s.evicted).live =
      s.live.map (Entry.reloaded c) := by
    simp only [Found.spool,Spool.live,decoded,length_map,map_drop]
    rw [Nat.min_eq_left h.head_le]
  refine Ends.mono (openSpool_ends found capBytes) fun r d' hr => ?_
  obtain ⟨s',rfl,opened⟩ := hr
  refine ⟨s',rfl,?_,opened.live.trans live,opened.evicted,opened.origin,opened.capBytes_eq⟩
  by_cases dirty : Found.Rewrites c (linesOf c s.entries) s.head
  · exact opened.stored dirty
  · obtain ⟨rfl,queue⟩ := opened.kept dirty
    have zero : min s.head (decodeLines c (linesOf c s.entries)).1.length = 0 := by
      have := (not_or.mp dirty).1
      omega
    refine ⟨?_,Nat.min_le_right _ _,rfl,?_,?_,opened.stats⟩
    · simp only [Found.spool,decoded]
      exact encoded
    · simp only [Found.spool,decoded,Holds,queue]
      rw [linesOf_reloaded h.encoded]
      exact h.queue
    · simp only [Found.spool,zero]
      exact ⟨Nat.two_pow_pos 63,.inl ⟨opened.cleared,rfl⟩⟩

theorem scanLines_long {lines : List Bytes} (plain : ∀ l ∈ lines, newline ∉ l) {l : Bytes}
    (mem : l ∈ lines) (long : maxLine ≤ l.length) : scanLines maxLine (unlines lines) = none := by
  have some : ¬(lines.all (·.length < maxLine)) = true := by
    intro all
    have := of_decide_eq_true (all_eq_true.mp all l mem)
    omega
  rw [scanLines,rawLines_unlines lines plain,if_neg some]

theorem reopen_fails (h : Stored c s d) {e : Entry F}
    (mem : e ∈ s.entries) (long : maxLine < e.n) (capBytes : Int) :
    (openSpool c capBytes).run device d = (.error .tooLong,d) := by
  obtain ⟨data,hd,hn⟩ := h.encoded e mem
  have plain : ∀ l ∈ linesOf c s.entries, newline ∉ l := by
    intro l hl
    obtain ⟨x,hx,rfl⟩ := mem_map.mp hl
    obtain ⟨text,ht,-⟩ := h.encoded x hx
    rw [ht]
    exact (c.newline_free x.f text ht).1
  have unread := scanLines_long plain (mem_map.mpr ⟨e,mem,by simp [hd]⟩ : data ∈ _) (by omega)
  refine openSpool_tooLong h.marker h.stats ?_ capBytes
  rw [h.queue]
  exact unread

end CircuitBreaker.SpoolQueue
