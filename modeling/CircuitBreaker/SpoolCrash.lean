import CircuitBreaker.SpoolPositions

/-! A process that dies between two file-system steps of the spool. What the
state directory then holds is compared with a ledger of every frame that reached
queue.jsonl: whether its Enqueue returned, and how many leading frames have been
committed or counted as evicted. -/

namespace CircuitBreaker.SpoolQueue
open DiskProgram ByteLines StepRuns List

variable {F : Type} {c : Codec F}

/-- Every frame appended to queue.jsonl, in order, with whether its Enqueue
returned success; the first `gone` of them were committed or evicted. -/
structure Ledger (F : Type) where
  log : List (F × Bool)
  gone : Nat

def Ledger.required (g : Ledger F) : List F := ((g.log.drop g.gone).filter (·.2)).map (·.1)

def Ledger.append (g : Ledger F) (f : F) (returned : Bool) : Ledger F :=
  {g with log := g.log++[(f,returned)]}

/-- The first `n` frames of the backlog of `s` leave it. -/
def Ledger.discard (g : Ledger F) (s : Spool F) (n : Nat) : Ledger F :=
  {g with gone := max g.gone (g.log.length-s.live.length+n)}

/-- How many live frames a commit through `pos` names. -/
def Spool.through (s : Spool F) (pos : Int) : Nat := min (pos-s.origin+1).toNat s.live.length

structure System (F : Type) where
  disk : Disk
  proc : Option (Spool F)
  ledger : Ledger F

def System.fresh : System F := ⟨.empty,none,⟨[],0⟩⟩

/-- A call that ran to its end, or one killed when it had left the disk as `d`
and was about to take the action `a`. -/
inductive Event (F : Type) where
  | start (capBytes : Int)
  | startKilled (capBytes : Int) (d : Disk) (a : Act)
  | enqueue (f : F) (now : Int)
  | enqueueKilled (f : F) (now : Int) (d : Disk) (a : Act)
  | commit (pos : Int)
  | commitKilled (pos : Int) (d : Disk) (a : Act)
  | kill

/-- The ledger after an Enqueue of which `evicted` counts the losses. -/
def Ledger.enqueued (g : Ledger F) (s : Spool F) (f : F) (returned : Bool) (evicted : Nat) : Ledger F :=
  (g.discard s evicted).append f returned

def Act.on : Act → File
  | .read f => f
  | .append f _ => f
  | .write f _ => f
  | .rename f _ => f
  | .remove f => f

/-- The ledger of an Enqueue killed before `a`: the frame is in once its line is
appended, the evicted are counted once their record is in place. -/
def Ledger.enqueueKilled (g : Ledger F) (s : Spool F) (f : F) (evicted : Nat) (a : Act) : Ledger F :=
  match a.on with
  | .queue => g
  | .evictedTmp => g.append f false
  | _ => g.enqueued s f false evicted

/-- A commit killed before `a` has discarded nothing until the queue is rewritten
and only the old marker is left to remove. -/
def Ledger.commitKilled (g : Ledger F) (s : Spool F) (pos : Int) (a : Act) : Ledger F :=
  if a.on = .head then g.discard s (s.through pos) else g

def evictedBy (c : Codec F) (s : Spool F) (f : F) (now : Int) (d : Disk) : Nat :=
  ((enqueue c s f now).run device d).1.1.evicted.frames-s.evicted.frames

inductive Moves (c : Codec F) : System F → Event F → System F → Prop where
  | start {d g} (capBytes : Int) : Moves c ⟨d,none,g⟩ (.start capBytes)
        ⟨((openSpool c capBytes).run device d).2,((openSpool c capBytes).run device d).1.toOption,g⟩
  | startKilled {d d' a g} (capBytes : Int) (h : (d',a) ∈ (openSpool c capBytes).points device d) :
      Moves c ⟨d,none,g⟩ (.startKilled capBytes d' a) ⟨d',none,g⟩
  | refused {d s g} (f : F) (now : Int) (h : c.encode f = none) :
      Moves c ⟨d,some s,g⟩ (.enqueue f now) ⟨d,some s,g⟩
  | enqueue {d s g} (f : F) (now : Int) (h : c.encode f ≠ none) :
      Moves c ⟨d,some s,g⟩ (.enqueue f now)
        ⟨((enqueue c s f now).run device d).2,some ((enqueue c s f now).run device d).1.1,
          g.enqueued s f (((enqueue c s f now).run device d).1.2 = none) (evictedBy c s f now d)⟩
  | enqueueKilled {d d' a s g} (f : F) (now : Int)
      (h : (d',a) ∈ (enqueue c s f now).points device d) :
      Moves c ⟨d,some s,g⟩ (.enqueueKilled f now d' a)
        ⟨d',none,g.enqueueKilled s f (evictedBy c s f now d) a⟩
  | commit {d s g} (pos : Int) : Moves c ⟨d,some s,g⟩ (.commit pos)
        ⟨((commitThrough c s pos).run device d).2,some ((commitThrough c s pos).run device d).1.1,
          g.discard s (s.through pos)⟩
  | commitKilled {d d' a s g} (pos : Int) (h : (d',a) ∈ (commitThrough c s pos).points device d) :
      Moves c ⟨d,some s,g⟩ (.commitKilled pos d' a) ⟨d',none,g.commitKilled s pos a⟩
  | kill {d s g} : Moves c ⟨d,some s,g⟩ .kill ⟨d,none,g⟩

/-- The process died inside a compaction, with the rewritten queue in place and
the line count of the old one still beside it. -/
def StaleMarker (d : Disk) (a : Act) : Prop :=
  a = .remove .head ∧ 0 < (readHeadMarker.run device d).1.1 ∧ (d .queue).getD [] ≠ []

def Readable (c : Codec F) (f : F) : Prop := ∀ data, c.encode f = some data → data.length < maxLine

def Meets (c : Codec F) (_ : System F) : Event F → Prop
  | .startKilled _ d a => ¬StaleMarker d a
  | .enqueue f _ => Readable c f
  | .enqueueKilled f _ d a => Readable c f ∧ ¬StaleMarker d a
  | .commitKilled _ d a => ¬StaleMarker d a
  | _ => True

def Holds (d : Disk) (lines : List Bytes) : Prop := (d .queue).getD [] = unlines lines

def Marker (d : Disk) (m : Nat) : Prop :=
  m < 2^63 ∧ (d .head = none ∧ m = 0 ∨ d .head = some (itoa m++[newline]))

def StatsReadable (c : Codec F) (d : Disk) : Prop :=
  d .evicted = none ∨ ∃ e, d .evicted = some (c.encodeStats e)

/-- `lines` is what the frames of the log encode to, and Open can read each. -/
structure Written (c : Codec F) (log : List (F × Bool)) (lines : List Bytes) : Prop where
  encodes : log.map (fun x => c.encode x.1) = lines.map some
  short : ∀ l ∈ lines, l.length < maxLine

/-- What Open makes of the directory misses nothing past the first `gone` lines. -/
def Recoverable (c : Codec F) (lines : List Bytes) (gone : Nat) (d : Disk) : Prop :=
  ∃ k m, k ≤ lines.length ∧ Holds d (lines.drop k) ∧ Marker d m ∧
    k+min m (lines.length-k) ≤ gone ∧ StatsReadable c d

/-- The memory of a spool, against the lines ever written: its entries are the
last of them, and none of its backlog is missing past the first `gone`. -/
structure Mirrors (c : Codec F) (lines : List Bytes) (gone : Nat) (s : Spool F) : Prop where
  entries_le : s.entries.length ≤ lines.length
  encodes : s.entries.map (fun e => c.encode e.f) =
    (lines.drop (lines.length-s.entries.length)).map some
  head_le : s.head ≤ s.entries.length
  live_ge : lines.length-s.live.length ≤ gone

structure Synced (c : Codec F) (lines : List Bytes) (gone : Nat) (s : Spool F) (d : Disk) : Prop
    extends Mirrors c lines gone s where
  queue : Holds d (lines.drop (lines.length-s.entries.length))
  marker : Marker d s.head
  stats : StatsReadable c d

/-- A directory with no process: Open owes the ledger nothing it cannot pay. -/
def SafeDown (c : Codec F) (g : Ledger F) (d : Disk) : Prop :=
  ∃ lines, Written c g.log lines ∧ Recoverable c lines g.gone d

def SafeUp (c : Codec F) (g : Ledger F) (s : Spool F) (d : Disk) : Prop :=
  ∃ lines, Written c g.log lines ∧ Synced c lines g.gone s d

def Safe (c : Codec F) (t : System F) : Prop :=
  match t.proc with
  | none => SafeDown c t.ledger t.disk
  | some s => SafeUp c t.ledger s t.disk

theorem device_not_failed (a : Act) (d : Disk) : (device a d).1 ≠ .failed := by
  cases a with
  | read f | remove f => simp only [device]; split <;> simp
  | _ => simp [device]

@[simp] theorem wp_attempt (C : Disk → Act → Prop) (Q : Option SpoolError → Disk → Prop)
    (a : Act) (d : Disk) :
    (attempt a).wp device C Q d ↔ C d a ∧ Q none (device a d).2 := by
  simp only [attempt,Prog.bind_eq,perform_bind,Prog.wp]
  have := device_not_failed a d
  split
  · contradiction
  · rfl

variable {d : Disk}

theorem wp_readHeadMarker {m : Nat} (h : Marker d m) (C : Disk → Act → Prop)
    (Q : Nat × Bool → Disk → Prop) :
    readHeadMarker.wp device C Q d ↔ C d (.read .head) ∧ Q (m,(d .head).isSome) d := by
  obtain ⟨hm,⟨hd,rfl⟩ | hd⟩ := h
  · simp [readHeadMarker,Prog.wp,device,hd]
  · have hn : ¬(m : Int) < 0 := by omega
    simp [readHeadMarker,Prog.wp,device,hd,trimSpace_itoa_newline,atoi_itoa hm,hn]

theorem readHeadMarker_run {m : Nat} (h : Marker d m) :
    (readHeadMarker.run device d).1 = (m,(d .head).isSome) := by
  have hw := (wp_readHeadMarker h (fun _ _ => True) fun r _ => r = (m,(d .head).isSome)).mpr
    ⟨trivial,rfl⟩
  exact ((Prog.wp_iff ..).mp hw).2

variable {lines : List Bytes}

theorem encodeAll_lines {es : List (Entry F)}
    (h : es.map (fun e => c.encode e.f) = lines.map some) :
    ∃ kept, encodeAll c es = some (lines,kept) ∧
      kept.map (fun e => c.encode e.f) = lines.map some := by
  induction es generalizing lines with
  | nil =>
    obtain rfl : lines = [] := by simpa using h.symm
    exact ⟨[],rfl,rfl⟩
  | cons e es ih =>
    cases lines with
    | nil => simp at h
    | cons l lines =>
      simp only [map_cons,List.cons.injEq] at h
      obtain ⟨kept,hk,hl⟩ := ih h.2
      exact ⟨⟨e.f,(l.length : Int)+1⟩::kept,by simp [encodeAll,h.1,hk],by simp [h.1,hl]⟩

def rewritten (d : Disk) (lines : List Bytes) : Disk :=
  (d.set .queue (some (unlines lines))).set .queueTmp none

variable {s : Spool F}

theorem wp_compactLocked {kept : List (Entry F)}
    (he : encodeAll c s.live = some (lines,kept)) (C : Disk → Act → Prop)
    (Q : Spool F × Option SpoolError → Disk → Prop) (d : Disk) :
    (compactLocked c s).wp device C Q d ↔ C d (.write .queueTmp (unlines lines)) ∧
      C (d.set .queueTmp (some (unlines lines))) (.rename .queueTmp .queue) ∧
      C (rewritten d lines) (.remove .head) ∧
      Q ({s with entries := kept, head := 0, bytes := sizeOf kept},none)
        ((rewritten d lines).set .head none) := by
  have hw : (device (.write .queueTmp (unlines lines)) d).2 =
      d.set .queueTmp (some (unlines lines)) := rfl
  have hd : (device (.rename .queueTmp .queue) (d.set .queueTmp (some (unlines lines)))).2 =
      rewritten d lines := by
    funext f
    cases f <;> simp [device,rewritten,Disk.set]
  simp only [compactLocked,he,Prog.bind_eq,Prog.wp_bind,wp_attempt,removeHeadMarker,Prog.pure_eq,
    Prog.wp,hw,hd]
  rfl

theorem unlines_eq_nil (h : unlines lines = []) : lines = [] := by
  cases lines with
  | nil => rfl
  | cons l lines => simp [unlines] at h

variable {gone : Nat}

variable {d' : Disk} {f : F} {data : Bytes}

theorem Recoverable.congr
    (h : Recoverable c lines gone d) (hq : d' .queue = d .queue) (hh : d' .head = d .head)
    (he : d' .evicted = d .evicted) : Recoverable c lines gone d' := by
  simpa only [Recoverable,Holds,Marker,StatsReadable,hq,hh,he] using h

theorem Recoverable.mono {gone' : Nat}
    (h : Recoverable c lines gone d) (hle : gone ≤ gone') : Recoverable c lines gone' d := by
  obtain ⟨k,m,hk,hq,hm,hg,hs⟩ := h
  exact ⟨k,m,hk,hq,hm,Nat.le_trans hg hle,hs⟩

theorem Mirrors.live_length_le
    (h : Mirrors c lines gone s) : s.live.length ≤ lines.length := by
  have := h.entries_le
  rw [s.live_length]; omega

theorem Mirrors.live_encodes (h : Mirrors c lines gone s) :
    s.live.map (fun e => c.encode e.f) = (lines.drop (lines.length-s.live.length)).map some := by
  have h1 := h.entries_le
  have h2 := h.head_le
  have hk : lines.length-s.entries.length+s.head = lines.length-s.live.length := by
    rw [s.live_length]; omega
  rw [Spool.live,map_drop,h.encodes,←map_drop,drop_drop,hk]
  rfl

theorem Mirrors.push (h : Mirrors c lines gone s) (he : c.encode f = some data) :
    Mirrors c (lines++[data]) gone (s.push f data) := by
  have h1 := h.entries_le
  have h2 := h.head_le
  have h3 := h.live_ge
  have hl : (s.push f data).live.length = s.live.length+1 := by
    rw [Spool.live_length,Spool.live_length]
    simp [Spool.push]; omega
  constructor
  · simpa [Spool.push] using h1
  · have hk : (lines++[data]).length-(s.push f data).entries.length =
        lines.length-s.entries.length := by simp [Spool.push]
    rw [hk,drop_append_of_le_length (by omega)]
    simp [Spool.push,h.encodes,he]
  · simp [Spool.push]; omega
  · simp only [hl,length_append,length_singleton]; omega

theorem Mirrors.advance {t : Spool F} {n : Nat}
    (h : Mirrors c lines gone s) (hn : n ≤ s.live.length) (he : t.entries = s.entries)
    (hh : t.head = s.head+n) :
    Mirrors c lines (max gone (lines.length-s.live.length+n)) t := by
  have h1 := h.head_le
  have h2 := h.entries_le
  have hl := s.live_length
  have hl' := t.live_length
  rw [he,hh] at hl'
  refine ⟨he ▸ h.entries_le,by rw [he]; exact h.encodes,by rw [he,hh]; omega,?_⟩
  omega

theorem Synced.recoverable
    (h : Synced c lines gone s d) : Recoverable c lines gone d := by
  have h1 := h.entries_le
  have h2 := h.head_le
  have h3 := h.live_ge
  rw [s.live_length] at h3
  exact ⟨lines.length-s.entries.length,s.head,Nat.sub_le _ _,h.queue,h.marker,by omega,h.stats⟩

theorem compactLocked_safe {before : Nat}
    (hm : Mirrors c lines gone s) (hd : Recoverable c lines before d) :
    (compactLocked c s).wp device (fun d' a => (¬StaleMarker d' a →
        Recoverable c lines (if a.on = .head then gone else before) d') ∧
        a.on ≠ .evictedTmp ∧ a.on ≠ .queue)
      (fun r d' => r.2 = none ∧ Synced c lines gone r.1 d' ∧ r.1.evicted = s.evicted) d := by
  have hlen := hm.live_length_le
  obtain ⟨kept,he,hk⟩ := encodeAll_lines hm.live_encodes
  have hkl : kept.length = s.live.length := by
    have := congrArg List.length hk
    simp only [length_map,length_drop] at this
    omega
  have hq (d' : Disk) (h : d' .queue = (rewritten d (lines.drop (lines.length-s.live.length))) .queue) :
      Holds d' (lines.drop (lines.length-s.live.length)) := by
    rw [Holds,h]; rfl
  obtain ⟨k,m,hk',hq',hmark,hg,hs⟩ := hd
  rw [wp_compactLocked he]
  refine ⟨?_,?_,?_,rfl,?_,rfl⟩
  · exact ⟨fun _ => ⟨k,m,hk',hq',hmark,hg,hs⟩,nofun,nofun⟩
  · exact ⟨fun _ => Recoverable.congr ⟨k,m,hk',hq',hmark,hg,hs⟩ rfl rfl rfl,nofun,nofun⟩
  · refine ⟨fun hstale => ?_,nofun,nofun⟩
    change Recoverable c lines gone _
    -- either no line of the old queue was counted, or the backlog is empty
    refine ⟨_,m,Nat.sub_le _ _,hq _ rfl,hmark,?_,hs⟩
    have hz : m = 0 ∨ s.live.length = 0 := by
      by_contra hne
      apply hstale
      refine ⟨rfl,?_,?_⟩
      · have hread := readHeadMarker_run
          (d := rewritten d (lines.drop (lines.length-s.live.length))) hmark
        simp only [hread]
        omega
      · intro hnil
        have := congrArg List.length (unlines_eq_nil hnil)
        simp only [length_drop,length_nil] at this
        omega
    have := hm.live_ge
    omega
  · refine ⟨⟨?_,?_,Nat.zero_le _,?_⟩,?_,⟨Nat.two_pow_pos 63,.inl ⟨rfl,rfl⟩⟩,hs⟩
    · simpa only [hkl] using hlen
    · simpa only [hkl] using hk
    · simpa [Spool.live,hkl] using hm.live_ge
    · simp only [hkl]
      exact hq _ rfl

variable {log : List (F × Bool)}

theorem Written.exists_frame (h : Written c log lines)
    {l : Bytes} (hl : l ∈ lines) : ∃ f, c.encode f = some l := by
  have hmem : some l ∈ log.map (fun x => c.encode x.1) := by
    rw [h.encodes]
    exact mem_map_of_mem hl
  obtain ⟨x,-,hx⟩ := mem_map.mp hmem
  exact ⟨x.1,hx⟩

theorem Written.plain (h : Written c log lines) :
    ∀ l ∈ lines, Plain maxLine l := by
  intro l hl
  obtain ⟨f,hf⟩ := h.exists_frame hl
  exact ⟨(c.newline_free f l hf).1,(c.newline_free f l hf).2,h.short l hl⟩

theorem decodeLines_encoded (h : ∀ l ∈ lines, ∃ f, c.encode f = some l) :
    (decodeLines c lines).2 = false ∧
    (decodeLines c lines).1.map (fun e => c.encode e.f) = lines.map some := by
  induction lines with
  | nil => simp [decodeLines]
  | cons l lines ih =>
    obtain ⟨f,hf⟩ := h l (by simp)
    obtain ⟨f',hd,he⟩ := c.decode_encode f l hf
    obtain ⟨ht,hm⟩ := ih fun l' hl => h l' (by simp [hl])
    simp [decodeLines,hd,he,ht,hm]

theorem wp_loadEvictions (h : StatsReadable c d) {C : Disk → Act → Prop}
    {Q : Except SpoolError EvictionStats → Disk → Prop} (hC : C d (.read .evicted))
    (hQ : ∀ e, Q (.ok e) d) : (loadEvictions c).wp device C Q d := by
  simp only [loadEvictions,Prog.bind_eq,perform_bind,Prog.wp,device]
  refine ⟨hC,?_⟩
  rcases h with h | ⟨e,h⟩
  · simp only [h]
    exact hQ _
  · simp only [h,c.decodeStats_encodeStats]
    exact hQ e

theorem load_safe (hw : Written c log lines) (hd : Recoverable c lines gone d) (hs : s.entries = [])
    (hh : s.head = 0) :
    (load c s).wp device (fun d' a => ¬StaleMarker d' a → Recoverable c lines gone d')
      (fun r d' => ∃ t, r = .ok t ∧ Synced c lines gone t d') d := by
  obtain ⟨k,m,hk,hq,hm,hg,hst⟩ := id hd
  have unmarked : Marker (d.set .head none) 0 := ⟨Nat.two_pow_pos 63,.inl ⟨rfl,rfl⟩⟩
  simp only [load,Prog.bind_eq,Prog.wp_bind,wp_readHeadMarker hm]
  refine ⟨fun _ => hd,?_⟩
  simp only [perform,Prog.wp]
  refine ⟨fun _ => hd,?_⟩
  cases hf : d .queue with
  | none =>
    have hnil : lines.drop k = [] := by
      rw [Holds,hf] at hq
      exact unlines_eq_nil hq.symm
    have hkl : k = lines.length := by
      have := congrArg List.length hnil
      simp only [length_drop,length_nil] at this
      omega
    have hmir : Mirrors c lines gone s := by
      refine ⟨by simp [hs],by simp [hs],by simp [hh],?_⟩
      simp only [Spool.live,hs,drop_nil,length_nil]
      omega
    have hhold (d' : Disk) (h : d' .queue = d .queue) :
        Holds d' (lines.drop (lines.length-s.entries.length)) := by
      simp only [Holds,h,hf,hs,length_nil,Nat.sub_zero,drop_length]
      rfl
    simp only [device,hf]
    split
    · simp only [removeHeadMarker,Prog.wp_bind,wp_attempt,Prog.pure_eq,Prog.wp]
      exact ⟨fun _ => hd,s,rfl,hmir,hhold _ rfl,hh ▸ unmarked,hst⟩
    · rename_i habs
      refine ⟨s,rfl,hmir,hhold _ rfl,?_,hst⟩
      refine ⟨by rw [hh]; exact Nat.two_pow_pos 63,.inl ⟨?_,hh⟩⟩
      simpa using habs
  | some data =>
    have hdata : data = unlines (lines.drop k) := by simpa [Holds,hf] using hq
    have hplain : ∀ l ∈ lines.drop k, Plain maxLine l :=
      fun l hl => hw.plain l (mem_of_mem_drop hl)
    have hframes : ∀ l ∈ lines.drop k, ∃ f, c.encode f = some l :=
      fun l hl => hw.exists_frame (mem_of_mem_drop hl)
    obtain ⟨htorn,henc⟩ := decodeLines_encoded hframes
    have hlen : (decodeLines c (lines.drop k)).1.length = lines.length-k := by
      simpa using congrArg List.length henc
    have hkk : lines.length-(lines.length-k) = k := by omega
    simp only [device,hf,hdata,scanLines_unlines hplain,htorn]
    generalize hes : (decodeLines c (lines.drop k)).1 = es at *
    have hmir : Mirrors c lines gone
        {s with entries := es, head := min m es.length, bytes := sizeOf (es.drop (min m es.length))} := by
      refine ⟨by simp only [hlen]; omega,by simp only [hlen,hkk,henc],Nat.min_le_right _ _,?_⟩
      simp only [Spool.live,length_drop,hlen]
      omega
    split
    · rw [Prog.wp_bind]
      refine Prog.wp_mono (compactLocked_safe hmir hd) ?_ ?_
      · intro d' a h
        simpa only [ite_self] using h.1
      · intro r d' hr
        exact ⟨r.1,by simp [hr.1,orError],hr.2.1⟩
    · rename_i hnot
      have hz : min m es.length = 0 := by
        have := not_or.mp hnot
        omega
      have hhold (d' : Disk) (h : d' .queue = d .queue) :
          Holds d' (lines.drop (lines.length-es.length)) := by
        rw [hlen,hkk,Holds,h]
        exact hq
      split
      · simp only [removeHeadMarker,Prog.wp_bind,wp_attempt,Prog.pure_eq,Prog.wp]
        exact ⟨fun _ => hd,_,rfl,hmir,hhold _ rfl,hz ▸ unmarked,hst⟩
      · rename_i habs
        refine ⟨_,rfl,hmir,hhold _ rfl,?_,hst⟩
        simp only [hz]
        exact ⟨Nat.two_pow_pos 63,.inl ⟨by simpa using habs,rfl⟩⟩

theorem openSpool_safe
    (hw : Written c log lines) (hd : Recoverable c lines gone d) (capBytes : Int) :
    (openSpool c capBytes).wp device (fun d' a => ¬StaleMarker d' a → Recoverable c lines gone d')
      (fun r d' => ∃ t, r = .ok t ∧ Synced c lines gone t d') d := by
  obtain ⟨k,m,hk,hq,hm,hg,hst⟩ := id hd
  simp only [openSpool,Prog.bind_eq,Prog.wp_bind]
  exact wp_loadEvictions hst (fun _ => hd) fun e => load_safe hw hd rfl rfl

theorem Recoverable.restat
    (h : Recoverable c lines gone d) (hq : d' .queue = d .queue) (hh : d' .head = d .head)
    (he : StatsReadable c d') : Recoverable c lines gone d' := by
  obtain ⟨k,m,hk,hd,hm,hg,-⟩ := h
  exact ⟨k,m,hk,by simpa only [Holds,hq] using hd,by simpa only [Marker,hh] using hm,hg,he⟩

theorem Synced.mono {gone' : Nat}
    (h : Synced c lines gone s d) (hle : gone ≤ gone') : Synced c lines gone' s d :=
  ⟨⟨h.entries_le,h.encodes,h.head_le,Nat.le_trans h.live_ge hle⟩,h.queue,h.marker,h.stats⟩

theorem makeRoom_safe {k after : Nat} (h : Synced c lines gone s d) (now : Int)
    (hk : k = (evictLoop c s.capBytes s.live s.bytes .empty).1)
    (hafter : after = max gone (lines.length-s.live.length+k)) :
    (makeRoom c s now).wp device (fun d' a => (¬StaleMarker d' a →
        Recoverable c lines (if a.on = .evictedTmp then gone else after) d') ∧ a.on ≠ .queue)
      (fun r d' => r.2 = none ∧ Synced c lines after r.1 d' ∧
        r.1.evicted.frames = s.evicted.frames+k) d := by
  have hle : gone ≤ after := by rw [hafter]; exact Nat.le_max_left _ _
  have hkl := (evictLoop_spec c s.capBytes s.live s.bytes .empty).1
  rw [←hk] at hkl
  unfold makeRoom
  simp only [←hk]
  split
  · rename_i hz
    exact ⟨rfl,h.mono hle,by simp [hz]⟩
  · have hfr := dropOldest_frames c s now
    rw [←hk] at hfr
    generalize hs' : s.dropOldest (evictLoop c s.capBytes s.live s.bytes .empty) now = s' at *
    have hmir : Mirrors c lines after s' := by
      rw [hafter]
      refine h.toMirrors.advance (by omega) ?_ ?_
      · rw [←hs']; rfl
      · rw [←hs',hk]; rfl
    have hrec := h.recoverable
    simp only [persistEvictionsLocked,Prog.bind_eq,Prog.wp_bind,wp_attempt]
    refine ⟨⟨fun _ => hrec,by simp [Act.on]⟩,⟨fun _ => hrec.congr rfl rfl rfl,by simp [Act.on]⟩,?_⟩
    have hrec' : Recoverable c lines after (device (.rename .evictedTmp .evicted)
          (device (.write .evictedTmp (c.encodeStats s'.evicted)) d).2).2 :=
      (hrec.mono hle).restat rfl rfl (.inr ⟨s'.evicted,rfl⟩)
    refine Prog.wp_mono (compactLocked_safe hmir hrec') ?_ ?_
    · rintro d' a ⟨hc,he,hq⟩
      refine ⟨fun hstale => ?_,hq⟩
      simpa only [ite_self,if_neg he] using hc hstale
    · intro r d' hr
      exact ⟨hr.1,hr.2.1,by rw [hr.2.2,hfr]⟩

theorem Written.length_eq (h : Written c log lines) :
    log.length = lines.length := by
  simpa using congrArg List.length h.encodes

theorem Written.append (h : Written c log lines) (he : c.encode f = some data) (hlen : data.length < maxLine)
    (returned : Bool) : Written c (log++[(f,returned)]) (lines++[data]) := by
  refine ⟨by simp [h.encodes,he],?_⟩
  intro l hl
  rcases mem_append.mp hl with hl | hl
  · exact h.short l hl
  · rw [mem_singleton.mp hl]
    exact hlen

theorem Synced.push (h : Synced c lines gone s d) (he : c.encode f = some data) :
    Synced c (lines++[data]) gone (s.push f data)
      (device (.append .queue (data++[newline])) d).2 := by
  refine ⟨h.toMirrors.push he,?_,h.marker,h.stats⟩
  have hk : (lines++[data]).length-(s.push f data).entries.length =
      lines.length-s.entries.length := by simp [Spool.push]
  have hq := h.queue
  rw [Holds] at hq
  rw [hk,drop_append_of_le_length (Nat.sub_le _ _),Holds,unlines_append,unlines_singleton, ← hq]
  simp [device]

variable {g : Ledger F}

theorem enqueue_safe
    (h : SafeUp c g s d) (he : c.encode f = some data) (hlen : data.length < maxLine) (now : Int) :
    (enqueue c s f now).wp device (fun d' a => ¬StaleMarker d' a →
        SafeDown c (g.enqueueKilled s f (evictedBy c s f now d) a) d')
      (fun r d' => ∀ returned, SafeUp c (g.enqueued s f returned (evictedBy c s f now d)) r.1 d') d := by
  obtain ⟨lines,hw,hs⟩ := h
  have hpush := hs.push he
  have hfirst : (lines++[data]).length-(s.push f data).live.length =
      g.log.length-s.live.length := by
    have hle := hs.head_le
    rw [hw.length_eq,Spool.live_length,Spool.live_length]
    simp only [Spool.push,length_append,length_singleton]
    omega
  have hroom := makeRoom_safe hpush now rfl rfl
  generalize hk : (evictLoop c (s.push f data).capBytes (s.push f data).live (s.push f data).bytes
    .empty).1 = k at hroom
  -- the calls that follow the append decide what this Enqueue counts as evicted
  have hev : evictedBy c s f now d = k := by
    obtain ⟨-,-,-,hf⟩ := (Prog.wp_iff ..).mp hroom
    have hrun : (enqueue c s f now).run device d = (makeRoom c (s.push f data) now).run device
        (device (.append .queue (data++[newline])) d).2 := by
      simp [enqueue,he,attempt,Prog.run,device]
    rw [evictedBy,hrun,hf]
    simp [Spool.push]
  rw [hev]
  rw [hfirst] at hroom
  simp only [enqueue,he,Prog.bind_eq,Prog.wp_bind,wp_attempt]
  refine ⟨fun _ => ⟨lines,hw,hs.recoverable⟩,?_⟩
  refine Prog.wp_mono hroom ?_ ?_
  · rintro d' a ⟨hc,hq⟩ hstale
    have hrec := hc hstale
    unfold Ledger.enqueueKilled
    split
    · contradiction
    · rename_i hon
      rw [if_pos hon] at hrec
      exact ⟨_,hw.append he hlen false,hrec⟩
    · rename_i hon
      rw [if_neg hon] at hrec
      exact ⟨_,hw.append he hlen false,hrec⟩
  · intro r d' hr returned
    exact ⟨_,hw.append he hlen returned,hr.2.1⟩

theorem commitThrough_safe (h : SafeUp c g s d) (pos : Int) : (commitThrough c s pos).wp device
      (fun d' a => ¬StaleMarker d' a → SafeDown c (g.commitKilled s pos a) d')
      (fun r d' => SafeUp c (g.discard s (s.through pos)) r.1 d') d := by
  obtain ⟨lines,hw,hs⟩ := h
  have hle : g.gone ≤ (g.discard s (s.through pos)).gone := Nat.le_max_left _ _
  unfold commitThrough
  split
  · exact ⟨lines,hw,hs.mono hle⟩
  · have hthrough : min (pos-s.origin+1).toNat s.live.length = s.through pos := rfl
    simp only [commitLocked,hthrough]
    split
    · exact ⟨lines,hw,hs.mono hle⟩
    · have hmir : Mirrors c lines (g.discard s (s.through pos)).gone (s.consume (s.through pos)) := by
        rw [Ledger.discard,hw.length_eq]
        exact hs.toMirrors.advance (Nat.min_le_right _ _) rfl rfl
      split
      · refine Prog.wp_mono (compactLocked_safe hmir hs.recoverable) ?_ ?_
        · intro d' a ⟨hc,_,_⟩ hstale
          have hrec := hc hstale
          unfold Ledger.commitKilled
          split
          · rename_i hon
            rw [if_pos hon] at hrec
            exact ⟨lines,hw,hrec⟩
          · rename_i hon
            rw [if_neg hon] at hrec
            exact ⟨lines,hw,hrec⟩
        · exact fun r d' hr => ⟨lines,hw,hr.2.1⟩
      · rename_i hsmall
        simp only [writeHeadMarker,Prog.bind_eq,Prog.wp_bind,wp_attempt,Prog.pure_eq,Prog.wp]
        refine ⟨fun _ => ⟨lines,hw,hs.recoverable⟩,
          fun _ => ⟨lines,hw,hs.recoverable.congr rfl rfl rfl⟩,lines,hw,hmir,hs.queue,?_,hs.stats⟩
        have hlt : (s.consume (s.through pos)).head < compactHeadThreshold :=
          Nat.lt_of_not_ge (not_or.mp hsmall).1
        exact ⟨Nat.lt_trans hlt (by decide),.inr rfl⟩

theorem moves_safe {t t' : System F} {e : Event F} (h : Safe c t) (hm : Meets c t e)
    (hs : Moves c t e t') : Safe c t' := by
  cases hs with
  | start capBytes =>
    obtain ⟨lines,hw,hd⟩ := h
    obtain ⟨-,s,hr,hsync⟩ := (Prog.wp_iff ..).mp (openSpool_safe hw hd capBytes)
    simp only [Safe,hr]
    exact ⟨lines,hw,hsync⟩
  | startKilled capBytes hp =>
    obtain ⟨lines,hw,hd⟩ := h
    exact ⟨lines,hw,((Prog.wp_iff ..).mp (openSpool_safe hw hd capBytes)).1 _ hp hm⟩
  | refused f now he => exact h
  | enqueue f now he =>
    obtain ⟨data,hd⟩ := Option.ne_none_iff_exists'.mp he
    exact ((Prog.wp_iff ..).mp (enqueue_safe h hd (hm data hd) now)).2 _
  | enqueueKilled f now hp =>
    cases hd : c.encode f with
    | none => simp [SpoolQueue.enqueue,hd,Prog.points] at hp
    | some data =>
      exact ((Prog.wp_iff ..).mp (enqueue_safe h hd (hm.1 data hd) now)).1 _ hp hm.2
  | commit pos => exact ((Prog.wp_iff ..).mp (commitThrough_safe h pos)).2
  | commitKilled pos hp => exact ((Prog.wp_iff ..).mp (commitThrough_safe h pos)).1 _ hp hm
  | kill =>
    obtain ⟨lines,hw,hs⟩ := h
    exact ⟨lines,hw,hs.recoverable⟩

theorem safe_fresh : Safe c (System.fresh : System F) := by
  refine ⟨[],⟨rfl,by simp⟩,0,0,Nat.le_refl _,rfl,⟨Nat.two_pow_pos 63,.inl ⟨rfl,rfl⟩⟩,?_,.inl rfl⟩
  exact Nat.le_refl _

theorem Synced.required_sublist (hw : Written c g.log lines) (hs : Synced c lines g.gone s d) :
    (g.required.map c.encode).Sublist (s.frames.map c.encode) := by
  have hlog : (g.log.drop g.gone).map (fun x => c.encode x.1) = (lines.drop g.gone).map some := by
    rw [map_drop,hw.encodes,map_drop]
  have hlive : s.frames.map c.encode = (lines.drop (lines.length-s.live.length)).map some := by
    rw [←hs.toMirrors.live_encodes,Spool.frames,map_map]
    rfl
  have hfilter : (g.required.map c.encode).Sublist ((lines.drop g.gone).map some) := by
    rw [←hlog,Ledger.required,map_map]
    exact (filter_sublist).map _
  have hsuffix : (lines.drop g.gone).Sublist (lines.drop (lines.length-s.live.length)) := by
    obtain ⟨n,hn⟩ := Nat.exists_eq_add_of_le hs.live_ge
    rw [hn,←drop_drop]
    exact drop_sublist _ _
  rw [hlive]
  exact hfilter.trans (hsuffix.map _)

/-- Where no process dies between the rename and the removal of a compaction over
a counted queue, and every frame is short enough to be read back, Open succeeds
after every run and misses no frame it owes. -/
theorem reopened_spool_owes_nothing {es : List (Event F)} {t : System F}
    (hrun : Run (Guarded (Moves c) (Meets c)) .fresh es t) (capBytes : Int) :
    ∃ s, ((openSpool c capBytes).run device t.disk).1 = .ok s ∧
      (t.ledger.required.map c.encode).Sublist (s.frames.map c.encode) := by
  have hsafe : Safe c t := hrun.invariant (I := Safe c) (fun _ _ _ h hs => moves_safe h hs.1 hs.2) safe_fresh
  obtain ⟨lines,hw,hrec⟩ : SafeDown c t.ledger t.disk := by
    unfold Safe at hsafe
    split at hsafe
    · exact hsafe
    · obtain ⟨lines,hw,hs⟩ := hsafe
      exact ⟨lines,hw,hs.recoverable⟩
  obtain ⟨-,s,hr,hs⟩ := (Prog.wp_iff ..).mp (openSpool_safe hw hrec capBytes)
  exact ⟨s,hr,hs.required_sublist hw⟩

theorem moves_enqueued {s' : Spool F} {now : Int}
    (he : c.encode f ≠ none) (hs : ((enqueue c s f now).run device d).1 = (s',none))
    (hd : ((enqueue c s f now).run device d).2 = d') :
    Moves c ⟨d,some s,g⟩ (.enqueue f now)
      ⟨d',some s',g.enqueued s f true (s'.evicted.frames-s.evicted.frames)⟩ := by
  have h : Moves c ⟨d,some s,g⟩ _ _ := .enqueue f now he
  simpa only [evictedBy,hs,hd,decide_true] using h

theorem moves_committed {s' : Spool F} {pos : Int}
    (hs : ((commitThrough c s pos).run device d).1 = (s',none))
    (hd : ((commitThrough c s pos).run device d).2 = d') :
    Moves c ⟨d,some s,g⟩ (.commit pos) ⟨d',some s',g.discard s (s.through pos)⟩ := by
  have h : Moves c ⟨d,some s,g⟩ _ _ := .commit pos
  simpa only [hs,hd] using h

def logDirectory (seqs : List Nat) (marker : Option Nat) : Disk :=
  (Disk.empty.set .queue (some (unlines (seqs.map logText)))).set .head
    (marker.map fun m => itoa m++[newline])

def logSpool (seqs : List Nat) (head : Nat) : Spool Nat :=
  ⟨400,seqs.map fun n => ⟨n,70⟩,head,head,70*seqs.length-70*head,.empty⟩

theorem reopened_spool_owes_nothing_marker_killed :
    ∃ es t s, Run (Guarded (Moves logCodec) (Meets logCodec)) .fresh es t ∧
      t.ledger.required = [1] ∧ ((openSpool logCodec 400).run device t.disk).1 = .ok s ∧
      (t.ledger.required.map logCodec.encode).Sublist (s.frames.map logCodec.encode) := by
  have h₀ : Moves logCodec .fresh (.start 400) ⟨.empty,some (logSpool [] 0),⟨[],0⟩⟩ := .start 400
  have h₁ : Moves logCodec ⟨.empty,some (logSpool [] 0),⟨[],0⟩⟩ (.enqueue 1 0)
      ⟨logDirectory [1] none,some (logSpool [1] 0),⟨[(1,true)],0⟩⟩ :=
    moves_enqueued (by decide) (by decide) (by decide)
  have hread : Readable logCodec 1 := by
    intro data hd
    obtain rfl : logText 1 = data := Option.some.inj hd
    decide
  let d := (logDirectory [1] none).set .headTmp (some [49,10])
  have h₂ : Moves logCodec ⟨logDirectory [1] none,some (logSpool [1] 0),⟨[(1,true)],0⟩⟩
      (.commitKilled 0 d (.rename .headTmp .head)) ⟨d,none,⟨[(1,true)],0⟩⟩ :=
    .commitKilled 0 (.tail _ (.head _))
  have m₀ (t : System Nat) : Meets logCodec t (.start 400) := trivial
  have m₁ (t : System Nat) : Meets logCodec t (.enqueue 1 0) := hread
  have m₂ (t : System Nat) : Meets logCodec t (.commitKilled 0 d (.rename .headTmp .head)) :=
    fun h => nomatch h.1
  have hrun : Run (Guarded (Moves logCodec) (Meets logCodec)) .fresh _ _ :=
    (((Run.nil _).snoc ⟨m₀ _,h₀⟩).snoc ⟨m₁ _,h₁⟩).snoc ⟨m₂ _,h₂⟩
  obtain ⟨s,hs⟩ := reopened_spool_owes_nothing hrun 400
  exact ⟨_,_,s,hrun,by decide,hs⟩

set_option maxRecDepth 8000 in
/-- Frames 1, 2 and 3 go in; the commit of 1 leaves the marker 1, the commit of 2
rewrites the queue and is killed before the marker is removed. Open then takes the
marker for a count of the new queue and drops frame 3, which nobody committed. -/
theorem killed_compaction_loses_frame :
    ∃ es t s, Run (Moves logCodec) .fresh es t ∧ t.ledger.required = [3] ∧
      ((openSpool logCodec 400).run device t.disk).1 = .ok s ∧
      ¬(t.ledger.required.map logCodec.encode).Sublist (s.frames.map logCodec.encode) := by
  have h₀ : Moves logCodec .fresh (.start 400) ⟨.empty,some (logSpool [] 0),⟨[],0⟩⟩ := .start 400
  have h₁ : Moves logCodec ⟨.empty,some (logSpool [] 0),⟨[],0⟩⟩ (.enqueue 1 0)
      ⟨logDirectory [1] none,some (logSpool [1] 0),⟨[(1,true)],0⟩⟩ :=
    moves_enqueued (by decide) (by decide) (by decide)
  have h₂ : Moves logCodec ⟨logDirectory [1] none,some (logSpool [1] 0),⟨[(1,true)],0⟩⟩
      (.enqueue 2 0) ⟨logDirectory [1,2] none,some (logSpool [1,2] 0),⟨[(1,true),(2,true)],0⟩⟩ :=
    moves_enqueued (by decide) (by decide) (by decide)
  have h₃ : Moves logCodec
      ⟨logDirectory [1,2] none,some (logSpool [1,2] 0),⟨[(1,true),(2,true)],0⟩⟩ (.enqueue 3 0)
      ⟨logDirectory [1,2,3] none,some (logSpool [1,2,3] 0),⟨[(1,true),(2,true),(3,true)],0⟩⟩ :=
    moves_enqueued (by decide) (by decide) (by decide)
  have h₄ : Moves logCodec
      ⟨logDirectory [1,2,3] none,some (logSpool [1,2,3] 0),⟨[(1,true),(2,true),(3,true)],0⟩⟩
      (.commit 0)
      ⟨logDirectory [1,2,3] (some 1),some (logSpool [1,2,3] 1),⟨[(1,true),(2,true),(3,true)],1⟩⟩ :=
    moves_committed (by decide) (by decide)
  have h₅ : Moves logCodec
      ⟨logDirectory [1,2,3] (some 1),some (logSpool [1,2,3] 1),⟨[(1,true),(2,true),(3,true)],1⟩⟩
      (.commitKilled 1 (logDirectory [3] (some 1)) (.remove .head))
      ⟨logDirectory [3] (some 1),none,⟨[(1,true),(2,true),(3,true)],2⟩⟩ := by
    exact .commitKilled 1 (mem_of_getElem? (i := 2) (by decide))
  have hrun := (Run.nil System.fresh).snoc h₀ |>.snoc h₁ |>.snoc h₂ |>.snoc h₃ |>.snoc h₄ |>.snoc h₅
  exact ⟨_,_,logSpool [] 0,hrun,by decide,by decide,by decide⟩

end CircuitBreaker.SpoolQueue
