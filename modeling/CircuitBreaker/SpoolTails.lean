import Mathlib.Algebra.Order.BigOperators.Group.List
import CircuitBreaker.SpoolExact

/-! queue.jsonl with something behind its last newline: what Open reads of it, and what the next
appended lines make of it. -/

namespace CircuitBreaker.SpoolQueue
open DiskProgram ByteLines List

/-- What a frame's JSON text is beyond a line: no control characters, and neither a proper part
of the text nor a text behind a part of another is the text of a frame. -/
structure StrictCodec (F : Type) extends Codec F where
  nonempty : ∀ f b, encode f = some b → b ≠ []
  return_free : ∀ f b, encode f = some b → carriageReturn ∉ b
  torn : ∀ f b p, encode f = some b → p <+: b → p ≠ b → decode p = none
  fused : ∀ f b p g b', encode f = some b → p <+: b → p ≠ [] → encode g = some b' →
    decode (p++b') = none

section
variable {F : Type} {c : Codec F}

/-! Pieces of a byte text. -/

theorem cut_append (piece l : Bytes) (h : newline ∉ l) :
    cut piece l = if piece.reverse++l = [] then [] else [piece.reverse++l] := by
  induction l generalizing piece with
  | nil => simp [cut]
  | cons b l ih =>
    have hb : b ≠ newline := fun e => h (by simp [e])
    have hl : newline ∉ l := fun m => h (by simp [m])
    simp [cut,hb,ih (b :: piece) hl]

theorem rawLines_tail (lines : List Bytes) (h : ∀ l ∈ lines, newline ∉ l) {t : Bytes}
    (ht : newline ∉ t) : rawLines (unlines lines++t) = lines++if t = [] then [] else [t] := by
  induction lines with
  | nil =>
    rw [rawLines,unlines_nil,nil_append,cut_append [] t ht]
    by_cases none : t = [] <;> simp [none]
  | cons l lines ih =>
    have rest := ih fun m hm => h m (mem_cons_of_mem l hm)
    have split : unlines (l :: lines)++t = l++newline :: (unlines lines++t) := by simp [unlines]
    rw [rawLines,split,cut_line [] l _ (h l mem_cons_self)]
    simpa [rawLines] using rest

theorem dropCarriageReturn_plain {l : Bytes} (h : carriageReturn ∉ l) : dropCarriageReturn l = l := by
  refine if_neg fun last => h ?_
  exact mem_of_getLast? last

theorem scanLines_raw {bs : Bytes} {lines : List Bytes} (raw : rawLines bs = lines)
    (plain : ∀ l ∈ lines, carriageReturn ∉ l) :
    scanLines maxLine bs = if ∀ l ∈ lines, l.length < maxLine then some lines else none := by
  have same : lines.map dropCarriageReturn = lines :=
    (map_congr_left fun l hl => dropCarriageReturn_plain (plain l hl)).trans (map_id lines)
  rw [scanLines,raw,same]
  simp

theorem decodeLines_append (c : Codec F) (lines more : List Bytes) :
    decodeLines c (lines++more) = ((decodeLines c lines).1++(decodeLines c more).1,
      (decodeLines c lines).2 || (decodeLines c more).2) := by
  induction lines with
  | nil => simp [decodeLines]
  | cons line lines ih =>
    simp only [cons_append,decodeLines,ih]
    cases c.decode line <;> simp

/-! Calls on a directory that need not be in step with the memory. -/

structure InMemory (c : Codec F) (s : Spool F) : Prop where
  encoded : ∀ e ∈ s.entries, e.Encoded c
  head_le : s.head ≤ s.entries.length
  bytes_eq : s.bytes = sizeOf s.live

variable {s : Spool F}

theorem Stored.inMemory {d : Disk} (h : Stored c s d) : InMemory c s :=
  ⟨h.encoded,h.head_le,h.bytes_eq⟩

theorem InMemory.push (h : InMemory c s) {f : F} {data : Bytes}
    (he : c.encode f = some data) : InMemory c (s.push f data) := by
  refine ⟨?_,?_,?_⟩
  · intro e mem
    rcases mem_append.mp mem with old | new
    · exact h.encoded e old
    · rw [mem_singleton.mp new]
      exact ⟨data,he,rfl⟩
  · have := h.head_le
    simp only [Spool.push,length_append]
    omega
  · rw [Spool.live_push h.head_le,sizeOf_append,← h.bytes_eq]
    simp [Spool.push,sizeOf]

def Disk.appended (d : Disk) (data : Bytes) : Disk :=
  d.set .queue (some ((d .queue).getD []++data))

theorem enqueue_any (h : InMemory c s) (d : Disk) {f : F} {data : Bytes}
    (he : c.encode f = some data) (now : Int) :
    Ends (enqueue c s f now) d fun r d' => r.2 = none ∧
      (((s.push f data).evictions c).1 = 0 → r.1 = s.push f data ∧
        d' = d.appended (data++[newline])) ∧
      (((s.push f data).evictions c).1 ≠ 0 → Stored c r.1 d' ∧
        r.1.live = (s.push f data).live.drop ((s.push f data).evictions c).1) := by
  simp only [Ends,enqueue,he,Prog.bind_eq,Prog.wp_bind,wp_attempt]
  refine ⟨trivial,?_⟩
  unfold makeRoom
  simp only
  split
  · rename_i none
    have none : ((s.push f data).evictions c).1 = 0 := none
    exact ⟨rfl,fun _ => ⟨rfl,rfl⟩,fun some => absurd none some⟩
  · rename_i some
    have some : ((s.push f data).evictions c).1 ≠ 0 := some
    have live : ((s.push f data).dropOldest ((s.push f data).evictions c) now).live =
        (s.push f data).live.drop ((s.push f data).evictions c).1 := by
      simp [Spool.dropOldest,Spool.live]
    have encoded : ∀ e ∈ ((s.push f data).dropOldest ((s.push f data).evictions c) now).live,
        e.Encoded c := by
      intro e mem
      rw [live] at mem
      exact (h.push he).encoded e (mem_of_mem_drop (mem_of_mem_drop mem))
    simp only [Prog.bind_eq,Prog.wp_bind]
    refine Ends.mono persistEvictionsLocked_ends fun _ d' hd => ?_
    refine Ends.mono (compactLocked_ends encoded hd.1) fun r d'' hr => ?_
    obtain ⟨rfl,stored,-⟩ := hr
    exact ⟨rfl,fun none => absurd none some,fun _ => ⟨stored,live⟩⟩

theorem evictions_eq_zero_iff :
    (s.evictions c).1 = 0 ↔ s.bytes ≤ s.capBytes ∨ s.live.length ≤ 1 := by
  unfold Spool.evictions
  cases s.live with
  | nil => simp [evictLoop]
  | cons e es =>
    cases es with
    | nil => simp [evictLoop]
    | cons e' es =>
      simp only [evictLoop]
      split
      · rename_i over_
        simp only [length_cons]
        omega
      · rename_i under
        simp only [true_iff]
        omega

def enqueueAll (c : Codec F) : List (F × Int) → Spool F → Disk → Option (Spool F × Disk)
  | [], s, d => some (s,d)
  | (f,now) :: rest, s, d =>
      let out := (enqueue c s f now).run device d
      if out.1.2 = none then enqueueAll c rest out.1.1 out.2 else none

def entryOf (c : Codec F) (f : F) : Entry F := ⟨f,(((c.encode f).getD []).length : Int)+1⟩

def entriesOf (c : Codec F) (more : List (F × Int)) : List (Entry F) :=
  more.map fun x => entryOf c x.1

theorem entryOf_encoded {f : F} {data : Bytes} (he : c.encode f = some data) :
    entryOf c f = ⟨f,(data.length : Int)+1⟩ := by
  simp [entryOf,he]

def Fits (c : Codec F) (s : Spool F) (more : List (F × Int)) : Prop :=
  more = [] ∨ s.bytes+sizeOf (entriesOf c more) ≤ s.capBytes ∨ s.live.length+more.length ≤ 1

structure Appended (c : Codec F) (more : List (F × Int)) (s : Spool F) (d : Disk) (s' : Spool F)
    (d' : Disk) : Prop where
  entries : s'.entries = s.entries++entriesOf c more
  head : s'.head = s.head
  evicted : s'.evicted = s.evicted
  memory : InMemory c s'
  queue : (d' .queue).getD [] = (d .queue).getD []++unlines (linesOf c (entriesOf c more))
  marker : d' .head = d .head
  stats : d' .evicted = d .evicted

theorem Appended.stored {more : List (F × Int)} {s s' : Spool F} {d d' : Disk} (h : Stored c s d)
    (appended : Appended c more s d s' d') : Stored c s' d' := by
  refine ⟨appended.memory.encoded,appended.memory.head_le,appended.memory.bytes_eq,?_,?_,?_⟩
  · have queue := h.queue
    rw [Holds] at queue
    rw [Holds,appended.queue,queue,appended.entries,linesOf,linesOf,linesOf,map_append,
      unlines_append]
  · have marker := h.marker
    rw [Marker] at marker ⊢
    rwa [appended.marker,appended.head]
  · have stats := h.stats
    rw [StatsStored] at stats ⊢
    rwa [appended.stats,appended.evicted]

theorem Appended.live {more : List (F × Int)} {s s' : Spool F} {d d' : Disk} (h : InMemory c s)
    (appended : Appended c more s d s' d') : s'.live = s.live++entriesOf c more := by
  rw [Spool.live,appended.entries,appended.head,drop_append_of_le_length h.head_le]
  rfl

theorem Appended.cons {f : F} {data : Bytes} {now : Int} {more : List (F × Int)} {s s' : Spool F}
    {d d' : Disk} (he : c.encode f = some data)
    (done : Appended c more (s.push f data) (d.appended (data++[newline])) s' d') :
    Appended c ((f,now) :: more) s d s' d' := by
  refine ⟨?_,done.head,done.evicted,done.memory,?_,done.marker,done.stats⟩
  · rw [done.entries]
    simp [Spool.push,entriesOf,entryOf_encoded he]
  · rw [done.queue]
    simp [Disk.appended,entriesOf,linesOf,unlines,entryOf,he]

theorem fits_cons (h : InMemory c s) {f : F} {data : Bytes}
    (he : c.encode f = some data) {now : Int} {rest : List (F × Int)} :
    Fits c s ((f,now) :: rest) ↔
      ((s.push f data).evictions c).1 = 0 ∧ Fits c (s.push f data) rest := by
  have live : (s.push f data).live.length = s.live.length+1 := by
    simp [Spool.live_push h.head_le]
  have size : sizeOf (entriesOf c ((f,now) :: rest)) =
      (data.length : Int)+1+sizeOf (entriesOf c rest) := by
    simp [entriesOf,entryOf_encoded he,sizeOf]
  have nonneg : 0 ≤ sizeOf (entriesOf c rest) := by
    refine sum_nonneg fun x hx => ?_
    obtain ⟨y,hy,rfl⟩ := mem_map.mp hx
    obtain ⟨z,-,rfl⟩ := mem_map.mp hy
    simp only [entryOf]
    omega
  have bytes : (s.push f data).bytes = s.bytes+((data.length : Int)+1) := rfl
  have cap : (s.push f data).capBytes = s.capBytes := rfl
  rw [evictions_eq_zero_iff,Fits,Fits,size,bytes,cap,live]
  simp only [reduceCtorEq,false_or,length_cons]
  cases rest with
  | nil =>
    simp only [entriesOf,map_nil,sizeOf,sum_nil,length_nil,true_or,and_true]
    omega
  | cons x rest =>
    simp only [reduceCtorEq,false_or,length_cons]
    omega

theorem enqueueAll_stored {more : List (F × Int)} {d : Disk} (h : Stored c s d)
    (encodable : ∀ x ∈ more, c.encode x.1 ≠ none) :
    ∃ s' d', enqueueAll c more s d = some (s',d') ∧ Stored c s' d' ∧
      s'.live.length ≤ s.live.length+more.length := by
  induction more generalizing s d with
  | nil => exact ⟨s,d,rfl,h,le_rfl⟩
  | cons x more ih =>
    obtain ⟨f,now⟩ := x
    obtain ⟨data,he⟩ := Option.ne_none_iff_exists'.mp (encodable (f,now) mem_cons_self)
    simp only at he
    obtain ⟨ok,stored,live,-⟩ := (enqueue_ends h he now).run
    obtain ⟨s',d',hr,stored',len⟩ := ih stored fun y hy => encodable y (mem_cons_of_mem _ hy)
    refine ⟨s',d',by simp only [enqueueAll,ok,if_true]; exact hr,stored',?_⟩
    have := congrArg List.length live
    rw [length_drop,Spool.live_push h.head_le,length_append,length_singleton] at this
    simp only [length_cons]
    omega

theorem enqueueAll_outcome {more : List (F × Int)} {s : Spool F} {d : Disk} (h : InMemory c s)
    (encodable : ∀ x ∈ more, c.encode x.1 ≠ none) :
    ∃ s' d', enqueueAll c more s d = some (s',d') ∧ (Fits c s more → Appended c more s d s' d') ∧
      (¬Fits c s more → Stored c s' d' ∧ s'.live.length < s.live.length+more.length) := by
  induction more generalizing s d with
  | nil =>
    refine ⟨s,d,rfl,fun _ => ?_,fun full => absurd (.inl rfl) full⟩
    exact ⟨by simp [entriesOf],rfl,rfl,h,by simp [entriesOf,linesOf],rfl,rfl⟩
  | cons x more ih =>
    obtain ⟨f,now⟩ := x
    obtain ⟨data,he⟩ := Option.ne_none_iff_exists'.mp (encodable (f,now) mem_cons_self)
    simp only at he
    have rest : ∀ y ∈ more, c.encode y.1 ≠ none :=
      fun y hy => encodable y (mem_cons_of_mem _ hy)
    obtain ⟨ok,fits,full⟩ := (enqueue_any h d he now).run
    have live : (s.push f data).live.length = s.live.length+1 := by
      simp [Spool.live_push h.head_le]
    by_cases none : ((s.push f data).evictions c).1 = 0
    · obtain ⟨hs,hd⟩ := fits none
      obtain ⟨s',d',hr,appended,evicting⟩ := @ih (s.push f data) (d.appended (data++[newline]))
        (h.push he) rest
      refine ⟨s',d',?_,fun all => ?_,fun some => ?_⟩
      · simp only [enqueueAll,ok,if_true,hs,hd]
        exact hr
      · exact (appended ((fits_cons h he).mp all).2).cons he
      · have some := evicting fun all => some ((fits_cons h he).mpr ⟨none,all⟩)
        refine ⟨some.1,?_⟩
        have := some.2
        simp only [length_cons]
        omega
    · obtain ⟨stored,dropped⟩ := full none
      obtain ⟨s',d',hr,stored',len⟩ := enqueueAll_stored stored rest
      refine ⟨s',d',?_,fun all => absurd ((fits_cons h he).mp all).1 none,fun _ => ⟨stored',?_⟩⟩
      · simp only [enqueueAll,ok,if_true]
        exact hr
      · have := congrArg List.length dropped
        rw [length_drop,live] at this
        simp only [length_cons]
        omega

end

section
variable {F : Type} {c : StrictCodec F}

/-! What Open reads. -/

def Torn (c : Codec F) (t : Bytes) : Prop :=
  ∃ f b, c.encode f = some b ∧ t <+: b ∧ t ≠ b ∧ t ≠ []

theorem text_plain {f : F} {b t : Bytes} (he : c.encode f = some b) (part : t <+: b) :
    newline ∉ t ∧ carriageReturn ∉ t :=
  ⟨fun mem => (c.newline_free f b he).1 (part.subset mem),
    fun mem => c.return_free f b he (part.subset mem)⟩

variable {es : List (Entry F)}

theorem linesOf_texts (h : ∀ e ∈ es, e.Encoded c.toCodec) :
    ∀ l ∈ linesOf c.toCodec es, newline ∉ l ∧ carriageReturn ∉ l := by
  intro l hl
  obtain ⟨e,he,rfl⟩ := mem_map.mp hl
  obtain ⟨data,hd,-⟩ := h e he
  rw [hd]
  exact text_plain hd (prefix_refl _)

/-- Open's view of a text: the lines its scanner reads, where they are short, with their frames. -/
structure Reads (c : Codec F) (content : Bytes) (es : List (Entry F)) (torn : Bool) : Prop where
  scanned : scanLines maxLine content =
    if ∀ l ∈ rawLines content, l.length < maxLine then some (rawLines content) else none
  decoded : decodeLines c (rawLines content) = (es.map (Entry.reloaded c),torn)
  lines : ∀ line ∈ linesOf c es, line ∈ rawLines content

theorem reads_tail (h : ∀ e ∈ es, e.Encoded c.toCodec) {t : Bytes}
    (ht : t = [] ∨ Torn c.toCodec t) :
    Reads c.toCodec (unlines (linesOf c.toCodec es)++t) es (decide (t ≠ [])) := by
  have texts := linesOf_texts h
  have tail : newline ∉ t ∧ carriageReturn ∉ t := by
    rcases ht with rfl | ⟨f,b,he,part,-,-⟩
    · exact ⟨nofun,nofun⟩
    · exact text_plain he part
  have raw := rawLines_tail (linesOf c.toCodec es) (fun l hl => (texts l hl).1) tail.1
  refine ⟨?_,?_,fun l hl => by rw [raw]; exact mem_append_left _ hl⟩
  · refine scanLines_raw rfl fun l hl => ?_
    rw [raw] at hl
    rcases mem_append.mp hl with hl | hl
    · exact (texts l hl).2
    · split at hl
      · cases hl
      · rw [mem_singleton.mp hl]
        exact tail.2
  · rw [raw,decodeLines_append,decodeLines_linesOf h]
    rcases ht with rfl | ⟨f,b,he,part,proper,some⟩
    · simp [decodeLines]
    · simp [some,decodeLines,c.torn f b t he part proper]

theorem reads_bare {front : List (Entry F)} {last : Entry F} {data : Bytes}
    (h : ∀ e ∈ front++[last], e.Encoded c.toCodec) (hd : c.encode last.f = some data) :
    Reads c.toCodec (unlines (linesOf c.toCodec front)++data) (front++[last]) false := by
  have texts := linesOf_texts h
  have lines : linesOf c.toCodec (front++[last]) = linesOf c.toCodec front++[data] := by
    simp [linesOf,hd]
  have raw : rawLines (unlines (linesOf c.toCodec front)++data) =
      linesOf c.toCodec (front++[last]) := by
    rw [rawLines_tail _ (fun l hl => (texts l (by rw [lines]; exact mem_append_left _ hl)).1)
      (text_plain hd (prefix_refl _)).1,if_neg (c.nonempty _ _ hd),lines]
  refine ⟨scanLines_raw rfl fun l hl => (texts l (raw ▸ hl)).2,?_,fun l hl => raw ▸ hl⟩
  rw [raw,decodeLines_linesOf h]

theorem reads_fused (h : ∀ e ∈ es, e.Encoded c.toCodec) {f : F} {b t : Bytes}
    (he : c.encode f = some b) (part : t <+: b) (some : t ≠ []) {e : Entry F}
    (hn : e.Encoded c.toCodec) {rest : List (Entry F)} (hr : ∀ e ∈ rest, e.Encoded c.toCodec) :
    Reads c.toCodec (unlines (linesOf c.toCodec es)++(t++unlines (linesOf c.toCodec (e :: rest))))
      (es++rest) true := by
  obtain ⟨data,hd,-⟩ := hn
  have texts := linesOf_texts h
  have later := linesOf_texts hr
  have tail := text_plain he part
  have line := text_plain hd (prefix_refl _)
  have fused : newline ∉ t++data ∧ carriageReturn ∉ t++data := by
    simp only [mem_append,not_or]
    exact ⟨⟨tail.1,line.1⟩,tail.2,line.2⟩
  have content : unlines (linesOf c.toCodec es)++(t++unlines (linesOf c.toCodec (e :: rest))) =
      unlines (linesOf c.toCodec es++[t++data]++linesOf c.toCodec rest) := by
    simp [linesOf,unlines,hd]
  have plain : ∀ l ∈ linesOf c.toCodec es++[t++data]++linesOf c.toCodec rest,
      newline ∉ l ∧ carriageReturn ∉ l := by
    intro l hl
    rcases mem_append.mp hl with hl | hl
    · rcases mem_append.mp hl with hl | hl
      · exact texts l hl
      · rw [mem_singleton.mp hl]
        exact fused
    · exact later l hl
  have raw : rawLines (unlines (linesOf c.toCodec es)++
      (t++unlines (linesOf c.toCodec (e :: rest)))) =
        linesOf c.toCodec es++[t++data]++linesOf c.toCodec rest := by
    rw [content]
    exact rawLines_unlines _ fun l hl => (plain l hl).1
  refine ⟨scanLines_raw rfl fun l hl => (plain l (raw ▸ hl)).2,?_,fun l hl => ?_⟩
  swap
  · rw [linesOf,map_append] at hl
    rw [raw,append_assoc]
    rcases mem_append.mp hl with hl | hl
    · exact mem_append_left _ hl
    · exact mem_append_right _ (mem_append_right _ hl)
  rw [raw,decodeLines_append,decodeLines_append,decodeLines_linesOf h,decodeLines_linesOf hr]
  simp [decodeLines,c.fused f b t e.f data he part some hd]

theorem open_reads {d : Disk} {content : Bytes} {torn : Bool} {m : Nat}
    {e : EvictionStats} (hq : (d .queue).getD [] = content) (reads : Reads c.toCodec content es torn)
    (encoded : ∀ e ∈ es, e.Encoded c.toCodec) (marker : Marker d m)
    (stats : StatsStored c.toCodec e d) (short : ∀ l ∈ rawLines content, l.length < maxLine)
    (capBytes : Int) :
    ∃ s d', (openSpool c.toCodec capBytes).run device d = (.ok s,d') ∧
      Opened c.toCodec capBytes d (rawLines content) m e s d' ∧
      s.live = (es.drop m).map (Entry.reloaded c.toCodec) := by
  have found : Found c.toCodec d (rawLines content) m e := by
    refine ⟨?_,marker,stats,?_⟩
    · rw [hq,reads.scanned,if_pos short]
    · rw [reads.decoded]
      intro x hx
      obtain ⟨y,hy,rfl⟩ := mem_map.mp hx
      exact (encoded y hy).reloaded.1
  obtain ⟨s,ok,opened⟩ := (openSpool_ends found capBytes).run
  refine ⟨s,_,Prod.ext ok rfl,opened,?_⟩
  rw [opened.live]
  simp only [Found.spool,Spool.live,reads.decoded,length_map,map_drop]
  rcases le_total m es.length with le | ge
  · rw [Nat.min_eq_left le]
  · rw [Nat.min_eq_right ge,drop_eq_nil_of_le (by simp),drop_eq_nil_of_le (by simpa using ge)]

theorem open_long {d : Disk} {content : Bytes} {torn : Bool} {m : Nat}
    {e : EvictionStats} (hq : (d .queue).getD [] = content) (reads : Reads c.toCodec content es torn)
    (marker : Marker d m) (stats : StatsStored c.toCodec e d)
    (long : ¬∀ l ∈ rawLines content, l.length < maxLine) (capBytes : Int) :
    (openSpool c.toCodec capBytes).run device d = (.error .tooLong,d) :=
  openSpool_tooLong marker stats (by rw [hq,reads.scanned,if_neg long]) capBytes

end

/-! The log frames. -/

theorem decodeLog_eq {line : Bytes} {seq : Nat} (h : decodeLog line = some seq) :
    line = logText seq := by
  obtain ⟨n,-,hn⟩ := Option.bind_eq_some_iff.mp h
  split at hn <;> cases hn
  rename_i same
  unfold encodeLog at same
  split at same
  · exact (Option.some.inj same).symm
  · cases same

theorem encodeLog_eq {seq : Nat} {data : Bytes} (h : encodeLog seq = some data) :
    data = logText seq := by
  unfold encodeLog at h
  split at h
  · exact (Option.some.inj h).symm
  · cases h

theorem logText_starts {n m : Nat} (h : logText n <+: logText m) : n = m := by
  have digits (k : Nat) (more : Bytes) :
      ((logText k++more).drop logOpening.length).takeWhile isDigitByte = itoa k := by
    have all : ∀ b ∈ itoa k, isDigitByte b = true := fun b hb => isDigitByte_of_mem_itoa hb
    have close : (logClosing++more).takeWhile isDigitByte = [] := by
      have first : logClosing = 44 :: logClosing.tail := by decide
      rw [first]
      rfl
    rw [logText,append_assoc,append_assoc,drop_left',
      takeWhile_append_of_pos all,close,append_nil]
    rfl
  obtain ⟨more,eq⟩ := h
  have same : itoa n = itoa m := by
    have := digits m []
    rw [append_nil,← eq,digits n more] at this
    exact this
  have := (parseDigits_itoa n).symm.trans (same ▸ parseDigits_itoa m)
  exact Option.some.inj this

theorem count_logText (n : Nat) : (logText n).count 123 = 2 := by
  have first : logOpening.count 123 = 1 := by decide
  have last : logClosing.count 123 = 1 := by decide
  have none : (itoa n).count 123 = 0 :=
    count_eq_zero.mpr fun mem => absurd (isDigitByte_of_mem_itoa mem) (by decide)
  rw [logText,count_append,count_append,first,last,none]

theorem log_nonempty (n : Nat) (b : Bytes) (h : logCodec.encode n = some b) : b ≠ [] := by
  rintro rfl
  have := congrArg (List.count 123) (encodeLog_eq h)
  rw [count_logText] at this
  cases this

theorem log_return_free (n : Nat) (data : Bytes) (h : logCodec.encode n = some data) :
    carriageReturn ∉ data := by
  rw [encodeLog_eq h]
  have first : carriageReturn ∉ logOpening := by decide
  have last : carriageReturn ∉ logClosing := by decide
  have digits : carriageReturn ∉ itoa n :=
    fun mem => absurd (isDigitByte_of_mem_itoa mem) (by decide)
  simp only [logText,mem_append,first,digits,last,or_self,not_false_iff]

theorem log_torn (n : Nat) (data p : Bytes) (h : logCodec.encode n = some data) (part : p <+: data)
    (proper : p ≠ data) : logCodec.decode p = none := by
  cases hp : logCodec.decode p with
  | none => rfl
  | some m =>
    have text := decodeLog_eq hp
    rw [text,encodeLog_eq h] at part proper
    exact absurd (congrArg logText (logText_starts part)) proper

theorem log_fused (n : Nat) (data p : Bytes) (m : Nat) (b : Bytes)
    (h : logCodec.encode n = some data) (part : p <+: data) (some_ : p ≠ [])
    (hb : logCodec.encode m = some b) : logCodec.decode (p++b) = none := by
  cases hp : logCodec.decode (p++b) with
  | none => rfl
  | some k =>
    have text := congrArg (List.count 123) (decodeLog_eq hp)
    rw [encodeLog_eq hb,count_append,count_logText,count_logText] at text
    obtain ⟨x,p,rfl⟩ := exists_cons_of_ne_nil some_
    obtain ⟨more,eq⟩ := part
    rw [encodeLog_eq h] at eq
    have first : x = 123 := by
      have opening : logOpening = 123 :: logOpening.tail := by decide
      rw [logText,opening] at eq
      exact (List.cons.inj eq).1
    rw [first,count_cons_self] at text
    omega

def logStrict : StrictCodec Nat where
  toCodec := logCodec
  nonempty := log_nonempty
  return_free := log_return_free
  torn := log_torn
  fused := log_fused

end CircuitBreaker.SpoolQueue
