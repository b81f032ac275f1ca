import CircuitBreaker.SpoolTails
import CircuitBreaker.SpoolConserved

/-! queue.jsonl cut off at some byte: Open, further frames, and Open again. -/

namespace CircuitBreaker.SpoolQueue
open DiskProgram ByteLines

variable {F : Type}

def Disk.truncated (d : Disk) (n : Nat) : Disk := d.set .queue ((d .queue).map (·.take n))

def lineLength (c : Codec F) (e : Entry F) : Nat := ((c.encode e.f).getD []).length

/-- The entries whose texts are whole in the first `n` bytes of their lines. -/
def presentIn (c : Codec F) : List (Entry F) → Nat → List (Entry F)
  | [], _ => []
  | e :: es, n => if n < lineLength c e then [] else e :: presentIn c es (n-(lineLength c e+1))

/-- The first `n` bytes end with a whole text that has lost its newline. -/
def NewlineLost (c : Codec F) : List (Entry F) → Nat → Prop
  | [], _ => False
  | e :: es, n => n = lineLength c e ∨ lineLength c e < n ∧ NewlineLost c es (n-(lineLength c e+1))

instance newlineLostDecidable (c : Codec F) :
    (es : List (Entry F)) → (n : Nat) → Decidable (NewlineLost c es n)
  | [], _ => inferInstanceAs (Decidable False)
  | e :: es, n =>
      have := newlineLostDecidable c es (n-(lineLength c e+1))
      inferInstanceAs (Decidable (_ ∨ _))

section
variable {c : StrictCodec F}

variable {es : List (Entry F)}

theorem presentIn_zero (h : ∀ e ∈ es, e.Encoded c.toCodec) :
    presentIn c.toCodec es 0 = [] := by
  cases es with
  | nil => rfl
  | cons e es =>
    obtain ⟨data,hd,-⟩ := h e List.mem_cons_self
    have some := List.length_pos_iff.mpr (c.nonempty e.f data hd)
    rw [presentIn,if_pos (by simpa [lineLength,hd] using some)]

theorem truncated_lines (h : ∀ e ∈ es, e.Encoded c.toCodec) (n : Nat) :
    (¬NewlineLost c.toCodec es n ∧ ∃ t, (unlines (linesOf c.toCodec es)).take n =
        unlines (linesOf c.toCodec (presentIn c.toCodec es n))++t ∧ (t = [] ∨ Torn c.toCodec t)) ∨
      NewlineLost c.toCodec es n ∧ ∃ front last data, presentIn c.toCodec es n = front++[last] ∧
        c.encode last.f = some data ∧
        (unlines (linesOf c.toCodec es)).take n = unlines (linesOf c.toCodec front)++data := by
  induction es generalizing n with
  | nil => exact .inl ⟨id,[],by simp [linesOf,presentIn],.inl rfl⟩
  | cons e es ih =>
    have others : ∀ e ∈ es, e.Encoded c.toCodec := fun x hx => h x (List.mem_cons_of_mem e hx)
    obtain ⟨data,hd,-⟩ := h e List.mem_cons_self
    have len : lineLength c.toCodec e = data.length := by simp [lineLength,hd]
    have text : unlines (linesOf c.toCodec (e :: es)) =
        data++newline :: unlines (linesOf c.toCodec es) := by simp [linesOf,unlines,hd]
    rw [text]
    simp only [presentIn,NewlineLost,len]
    rcases Nat.lt_trichotomy n data.length with before | rfl | behind
    · refine .inl ⟨by omega,data.take n,?_,?_⟩
      · rw [if_pos before,List.take_append_of_le_length (le_of_lt before)]
        rfl
      · by_cases none : data.take n = []
        · exact .inl none
        · refine .inr ⟨e.f,data,hd,List.take_prefix _ _,fun all => ?_,none⟩
          have := congrArg List.length all
          rw [List.length_take] at this
          omega
    · refine .inr ⟨.inl rfl,[],e,data,?_,hd,?_⟩
      · rw [if_neg (lt_irrefl _),Nat.sub_eq_zero_of_le (Nat.le_succ _),presentIn_zero others]
        rfl
      · simp [linesOf]
    · have cut : (data++newline :: unlines (linesOf c.toCodec es)).take n =
          data++newline :: (unlines (linesOf c.toCodec es)).take (n-(data.length+1)) := by
        rw [List.take_append,List.take_of_length_le (le_of_lt behind)]
        obtain ⟨k,rfl⟩ := Nat.exists_eq_add_of_lt behind
        have first : data.length+k+1-data.length = k+1 := by omega
        have rest : data.length+k+1-(data.length+1) = k := by omega
        rw [first,rest,List.take_succ_cons]
      rw [cut,if_neg (by omega)]
      rcases ih others (n-(data.length+1)) with ⟨kept,t,eq,tail⟩ | ⟨lost,front,last,b,eq,hb,cut'⟩
      · refine .inl ⟨fun lost => lost.elim (by omega) fun lost => kept lost.2,t,?_,tail⟩
        rw [eq]
        simp [linesOf,unlines,hd]
      · refine .inr ⟨.inr ⟨behind,lost⟩,e :: front,last,b,by rw [eq]; rfl,hb,?_⟩
        rw [cut']
        simp [linesOf,unlines,hd]

theorem presentIn_subset {c : Codec F} {n : Nat} {e : Entry F}
    (h : e ∈ presentIn c es n) : e ∈ es := by
  induction es generalizing n with
  | nil => exact h
  | cons x es ih =>
    unfold presentIn at h
    split at h
    · cases h
    · rcases List.mem_cons.mp h with rfl | h
      · exact List.mem_cons_self
      · exact List.mem_cons_of_mem x (ih h)

variable {s : Spool F} {d : Disk}

theorem truncated_content (stored : Stored c.toCodec s d) (n : Nat) :
    ((d.truncated n) .queue).getD [] = (unlines (linesOf c.toCodec s.entries)).take n := by
  have queue := stored.queue
  rw [Holds] at queue
  rw [← queue,Disk.truncated,Disk.set_same]
  cases d .queue <;> simp

theorem Stored.head_zero {c : Codec F} (h : Stored c s d)
    (cleared : d .head = none) : s.head = 0 := by
  rcases h.marker.2 with ⟨-,zero⟩ | marked
  · exact zero
  · rw [cleared] at marked
    cases marked

structure Reopened (c : Codec F) (s : Spool F) (n : Nat) (capBytes : Int) (s₁ : Spool F)
    (d₁ : Disk) : Prop where
  memory : InMemory c s₁
  capBytes_eq : s₁.capBytes = capBytes
  head : s₁.head = 0
  live : s₁.live = ((presentIn c s.entries n).drop s.head).map (Entry.reloaded c)
  stored : ¬(NewlineLost c s.entries n ∧ s.head = 0) → Stored c s₁ d₁
  bare : NewlineLost c s.entries n ∧ s.head = 0 → ∃ front last data,
    presentIn c s.entries n = front++[last] ∧ c.encode last.f = some data ∧
    (unlines (linesOf c s.entries)).take n = unlines (linesOf c front)++data ∧
    (d₁ .queue).getD [] = unlines (linesOf c front)++data ∧ Marker d₁ 0 ∧
    StatsStored c s₁.evicted d₁

theorem reopened (stored : Stored c.toCodec s d) {n : Nat}
    (short : ∀ l ∈ rawLines (((d.truncated n) .queue).getD []), l.length < maxLine)
    (capBytes : Int) :
    ∃ s₁ d₁, (openSpool c.toCodec capBytes).run device (d.truncated n) = (.ok s₁,d₁) ∧
      Reopened c.toCodec s n capBytes s₁ d₁ := by
  have encoded : ∀ e ∈ presentIn c.toCodec s.entries n, e.Encoded c.toCodec :=
    fun e he => stored.encoded e (presentIn_subset he)
  have reloaded : ∀ e ∈ (presentIn c.toCodec s.entries n).map (Entry.reloaded c.toCodec),
      e.Encoded c.toCodec := by
    intro x hx
    obtain ⟨y,hy,rfl⟩ := List.mem_map.mp hx
    exact (encoded y hy).reloaded.1
  have content := truncated_content stored n
  have marker : Marker (d.truncated n) s.head := stored.marker
  have stats : StatsStored c.toCodec s.evicted (d.truncated n) := stored.stats
  rw [content] at short
  rcases truncated_lines stored.encoded n with ⟨kept,t,cut,tail⟩ | ⟨lost,front,last,data,all,hd,cut⟩
  · have reads := reads_tail encoded tail
    rw [cut] at short content
    obtain ⟨s₁,d₁,run,opened,live⟩ := open_reads content reads encoded marker stats short capBytes
    have whole : Stored c.toCodec s₁ d₁ := by
      by_cases dirty : Found.Rewrites c.toCodec
          (rawLines (unlines (linesOf c.toCodec (presentIn c.toCodec s.entries n))++t)) s.head
      · exact opened.stored dirty
      · obtain ⟨same,queue⟩ := opened.kept dirty
        obtain ⟨none,clean⟩ := not_or.mp dirty
        rw [reads.decoded] at none clean
        have whole : t = [] := by simpa using clean
        have zero : min s.head ((presentIn c.toCodec s.entries n).map
            (Entry.reloaded c.toCodec)).length = 0 := by
          simp only at none
          omega
        rw [same,Found.spool,reads.decoded]
        simp only [zero]
        refine ⟨reloaded,Nat.zero_le _,rfl,?_,⟨Nat.two_pow_pos 63,.inl ⟨opened.cleared,rfl⟩⟩,
          opened.stats⟩
        rw [Holds,queue,content,whole,List.append_nil,linesOf_reloaded encoded]
    exact ⟨s₁,d₁,run,whole.inMemory,opened.capBytes_eq,whole.head_zero opened.cleared,live,
      fun _ => whole,fun bare => absurd bare.1 kept⟩
  · have reads := reads_bare (all ▸ encoded) hd
    rw [cut] at short content
    obtain ⟨s₁,d₁,run,opened,live⟩ := open_reads content reads (all ▸ encoded) marker stats short
      capBytes
    rw [← all] at live
    have dirty_iff : Found.Rewrites c.toCodec (rawLines (unlines (linesOf c.toCodec front)++data))
        s.head ↔ s.head ≠ 0 := by
      rw [Found.Rewrites,reads.decoded]
      simp only [List.length_map,List.length_append,List.length_singleton]
      simp
      omega
    by_cases zero : s.head = 0
    · obtain ⟨same,queue⟩ := opened.kept fun dirty => dirty_iff.mp dirty zero
      have memory : InMemory c.toCodec s₁ := by
        rw [same,Found.spool,reads.decoded,← all]
        exact ⟨reloaded,min_le_right _ _,rfl⟩
      have head : s₁.head = 0 := by
        rw [same,Found.spool,zero]
        exact Nat.zero_min _
      refine ⟨s₁,d₁,run,memory,opened.capBytes_eq,head,live,fun fine => absurd ⟨lost,zero⟩ fine,
        fun _ => ⟨front,last,data,all,hd,cut,?_,⟨Nat.two_pow_pos 63,.inl ⟨opened.cleared,rfl⟩⟩,?_⟩⟩
      · rw [queue]
        exact content
      · rw [opened.evicted]
        exact opened.stats
    · have whole := opened.stored (dirty_iff.mpr zero)
      exact ⟨s₁,d₁,run,whole.inMemory,opened.capBytes_eq,whole.head_zero opened.cleared,live,
        fun _ => whole,fun bare => absurd bare.2 zero⟩

/-! The second Open. -/

def Yields (c : Codec F) (capBytes : Int) (d : Disk) (texts : List (Option Bytes)) : Prop :=
  ∃ s d', (openSpool c capBytes).run device d = (.ok s,d') ∧ s.frames.map c.encode = texts

theorem encode_reloaded {c : Codec F} (h : ∀ e ∈ es, e.Encoded c) :
    (es.map (Entry.reloaded c)).map (fun e => c.encode e.f) = es.map (fun e => c.encode e.f) := by
  rw [List.map_map]
  exact List.map_congr_left fun e he => (h e he).reloaded.2.1

theorem frames_texts (c : Codec F) (s : Spool F) :
    s.frames.map c.encode = s.live.map (fun e => c.encode e.f) := by
  rw [Spool.frames,List.map_map]
  rfl

theorem Stored.yields_iff {c : Codec F} (h : Stored c s d) (capBytes : Int)
    (texts : List (Option Bytes)) : Yields c capBytes d texts ↔
      (∀ e ∈ s.entries, e.n ≤ maxLine) ∧ s.live.map (fun e => c.encode e.f) = texts := by
  by_cases short : ∀ e ∈ s.entries, e.n ≤ maxLine
  · obtain ⟨s',ok,-,live,-⟩ := (reopen_ends h short capBytes).run
    have frames : s'.frames.map c.encode = s.live.map (fun e => c.encode e.f) := by
      rw [frames_texts,live,encode_reloaded h.live_encoded]
    constructor
    · rintro ⟨s'',d',run,texts_eq⟩
      rw [run] at ok
      cases ok
      exact ⟨short,frames.symm.trans texts_eq⟩
    · intro same
      exact ⟨s',_,Prod.ext ok rfl,frames.trans same.2⟩
  · refine ⟨?_,fun some => absurd some.1 short⟩
    rintro ⟨s'',d',run,-⟩
    simp only [not_forall] at short
    obtain ⟨e,mem,long⟩ := short
    cases run.symm.trans (reopen_fails h mem (by omega) capBytes)

theorem Reads.yields_iff {content : Bytes} {torn : Bool}
    {m : Nat} {e : EvictionStats} (reads : Reads c.toCodec content es torn)
    (hq : (d .queue).getD [] = content) (encoded : ∀ e ∈ es, e.Encoded c.toCodec)
    (marker : Marker d m) (stats : StatsStored c.toCodec e d) (capBytes : Int)
    (texts : List (Option Bytes)) : Yields c.toCodec capBytes d texts ↔
      (∀ l ∈ rawLines content, l.length < maxLine) ∧
        (es.drop m).map (fun e => c.encode e.f) = texts := by
  by_cases short : ∀ l ∈ rawLines content, l.length < maxLine
  · obtain ⟨s,d',run,-,live⟩ := open_reads hq reads encoded marker stats short capBytes
    have frames : s.frames.map c.encode = (es.drop m).map (fun e => c.encode e.f) := by
      rw [frames_texts,live,encode_reloaded fun e he => encoded e (List.mem_of_mem_drop he)]
    constructor
    · rintro ⟨s'',d'',run',texts_eq⟩
      cases run.symm.trans run'
      exact ⟨short,frames.symm.trans texts_eq⟩
    · intro same
      exact ⟨s,d',run,frames.trans same.2⟩
  · refine ⟨?_,fun some => absurd some.1 short⟩
    rintro ⟨s,d',run,-⟩
    cases run.symm.trans (open_long hq reads marker stats short capBytes)

/-! The whole story. -/

/-- A cut, an Open, further frames and a second Open: it finds the frames whole in the file and
not delivered, and the further ones. -/
def Healed (c : Codec F) (s : Spool F) (d : Disk) (n : Nat) (cap₁ : Int) (more : List (F × Int))
    (cap₂ : Int) : Prop :=
  ∃ s₁ d₁, (openSpool c cap₁).run device (d.truncated n) = (.ok s₁,d₁) ∧
    ∃ s₂ d₂, enqueueAll c more s₁ d₁ = some (s₂,d₂) ∧ Yields c cap₂ d₂
      (((presentIn c s.entries n).drop s.head).map (fun e => c.encode e.f)++
        more.map fun x => c.encode x.1)

structure Heals (c : Codec F) (s : Spool F) (n : Nat) (cap₁ : Int) (more : List (F × Int)) :
    Prop where
  short : ∀ l ∈ rawLines ((unlines (linesOf c s.entries)).take n), l.length < maxLine
  room : more = [] ∨
    sizeOf ((presentIn c s.entries n).drop s.head)+sizeOf (entriesOf c more) ≤ cap₁ ∨
    ((presentIn c s.entries n).drop s.head).length+more.length ≤ 1
  lines : ∀ e ∈ entriesOf c more, e.n ≤ maxLine
  /-- no frame follows a last line that is whole but for its newline, unless a delivered line
  before it has the file rewritten -/
  ended : more = [] ∨ ¬(NewlineLost c s.entries n ∧ s.head = 0)

theorem truncated_reads (h : ∀ e ∈ es, e.Encoded c.toCodec) (n : Nat) :
    ∃ torn, Reads c.toCodec ((unlines (linesOf c.toCodec es)).take n) (presentIn c.toCodec es n)
      torn := by
  have encoded : ∀ e ∈ presentIn c.toCodec es n, e.Encoded c.toCodec :=
    fun e he => h e (presentIn_subset he)
  rcases truncated_lines h n with ⟨-,t,cut,tail⟩ | ⟨-,front,last,data,all,hd,cut⟩
  · rw [cut]
    exact ⟨_,reads_tail encoded tail⟩
  · rw [cut,all]
    exact ⟨_,reads_bare (all ▸ encoded) hd⟩

theorem sizeOf_reloaded (c : Codec F) (es : List (Entry F)) :
    sizeOf (es.map (Entry.reloaded c)) = sizeOf es := by
  rw [sizeOf,List.map_map]
  rfl

theorem Reopened.fits_iff {c : Codec F} {s₁ : Spool F} {n : Nat} {cap₁ : Int} {d₁ : Disk}
    (h : Reopened c s n cap₁ s₁ d₁) (more : List (F × Int)) : Fits c s₁ more ↔ more = [] ∨
      sizeOf ((presentIn c s.entries n).drop s.head)+sizeOf (entriesOf c more) ≤ cap₁ ∨
      ((presentIn c s.entries n).drop s.head).length+more.length ≤ 1 := by
  rw [Fits,h.memory.bytes_eq,h.live,sizeOf_reloaded,List.length_map,h.capBytes_eq]

theorem Reopened.entries_eq {c : Codec F} {s₁ : Spool F} {n : Nat} {cap₁ : Int} {d₁ : Disk}
    (h : Reopened c s n cap₁ s₁ d₁) : s₁.entries =
      ((presentIn c s.entries n).drop s.head).map (Entry.reloaded c) := by
  rw [← h.live,Spool.live,h.head]
  rfl

theorem entriesOf_texts (c : Codec F) (more : List (F × Int)) :
    (entriesOf c more).map (fun e => c.encode e.f) = more.map fun x => c.encode x.1 := by
  rw [entriesOf,List.map_map]
  rfl

theorem entriesOf_encoded {c : Codec F} {more : List (F × Int)}
    (encodable : ∀ x ∈ more, c.encode x.1 ≠ none) : ∀ e ∈ entriesOf c more, e.Encoded c := by
  intro e he
  obtain ⟨x,hx,rfl⟩ := List.mem_map.mp he
  obtain ⟨data,hd⟩ := Option.ne_none_iff_exists'.mp (encodable x hx)
  exact ⟨data,hd,by rw [entryOf_encoded hd]⟩

section
variable {s s₁ s₂ : Spool F} {n : Nat} {cap₁ : Int} {d₁ d₂ : Disk} {more : List (F × Int)}

theorem Reopened.evicting {c : Codec F} (h : Reopened c s n cap₁ s₁ d₁) (stored : Stored c s₂ d₂)
    (fewer : s₂.live.length < s₁.live.length+more.length) (cap₂ : Int) :
    ¬Yields c cap₂ d₂ (((presentIn c s.entries n).drop s.head).map (fun e => c.encode e.f)++
      more.map fun x => c.encode x.1) := by
  intro yields
  have same := congrArg List.length ((stored.yields_iff cap₂ _).mp yields).2
  have len := congrArg List.length h.live
  simp only [List.length_append,List.length_map] at same len
  omega

theorem Reopened.following (h : Reopened c.toCodec s n cap₁ s₁ d₁)
    (present : ∀ e ∈ (presentIn c.toCodec s.entries n).drop s.head, e.Encoded c.toCodec ∧ e.n ≤ maxLine)
    (stored : Stored c.toCodec s₁ d₁) (appended : Appended c.toCodec more s₁ d₁ s₂ d₂) (cap₂ : Int) :
    Yields c.toCodec cap₂ d₂ (((presentIn c.toCodec s.entries n).drop s.head).map
        (fun e => c.encode e.f)++more.map fun x => c.encode x.1) ↔
      ∀ e ∈ entriesOf c.toCodec more, e.n ≤ maxLine := by
  have texts : s₂.live.map (fun e => c.encode e.f) =
      ((presentIn c.toCodec s.entries n).drop s.head).map (fun e => c.encode e.f)++
        more.map fun x => c.encode x.1 := by
    rw [appended.live h.memory,h.live,List.map_append,encode_reloaded fun e he => (present e he).1,
      entriesOf_texts]
  rw [(appended.stored stored).yields_iff,and_iff_left texts,appended.entries,h.entries_eq]
  constructor
  · exact fun all e he => all e (List.mem_append_right _ he)
  · intro lines e he
    rcases List.mem_append.mp he with old | new
    · obtain ⟨x,hx,rfl⟩ := List.mem_map.mp old
      exact (present x hx).2
    · exact lines e new

theorem Reopened.fused (h : Reopened c.toCodec s n cap₁ s₁ d₁)
    (encoded : ∀ e ∈ presentIn c.toCodec s.entries n, e.Encoded c.toCodec)
    (bare : NewlineLost c.toCodec s.entries n ∧ s.head = 0)
    (encodable : ∀ x ∈ more, c.encode x.1 ≠ none)
    (appended : Appended c.toCodec more s₁ d₁ s₂ d₂) (cap₂ : Int)
    (short : ∀ l ∈ rawLines ((unlines (linesOf c.toCodec s.entries)).take n), l.length < maxLine) :
    Yields c.toCodec cap₂ d₂ (((presentIn c.toCodec s.entries n).drop s.head).map
        (fun e => c.encode e.f)++more.map fun x => c.encode x.1) ↔ more = [] := by
  obtain ⟨front,last,data,all,hd,cut,queue,marker,stats⟩ := h.bare bare
  have behind := appended.queue
  have marker₂ : Marker d₂ 0 := by
    rw [Marker] at marker ⊢
    rwa [appended.marker]
  have stats₂ : StatsStored c.toCodec s₁.evicted d₂ := by
    rw [StatsStored] at stats ⊢
    rwa [appended.stats]
  rw [queue] at behind
  rw [cut] at short
  rw [all] at encoded
  rw [bare.2,List.drop_zero,all]
  cases more with
  | nil =>
    simp only [entriesOf,linesOf,List.map_nil,unlines_nil,List.append_nil] at behind ⊢
    rw [(reads_bare encoded hd).yields_iff behind encoded marker₂ stats₂]
    exact ⟨fun _ => trivial,fun _ => ⟨short,rfl⟩⟩
  | cons x rest =>
    refine ⟨fun yields => ?_,by simp⟩
    have new := entriesOf_encoded encodable
    have others : ∀ e ∈ entriesOf c.toCodec rest, e.Encoded c.toCodec :=
      fun e he => new e (List.mem_cons_of_mem _ he)
    have firsts : ∀ e ∈ front, e.Encoded c.toCodec :=
      fun e he => encoded e (List.mem_append_left _ he)
    have reads := reads_fused firsts hd (List.prefix_refl _) (c.nonempty _ _ hd)
      (new _ List.mem_cons_self) others
    rw [List.append_assoc] at behind
    have found := ((reads.yields_iff behind (fun e he => (List.mem_append.mp he).elim
      (firsts e) (others e)) marker₂ stats₂ cap₂ _).mp yields).2
    have len := congrArg List.length found
    simp only [entriesOf,List.drop_zero,List.length_append,List.length_map,List.length_cons] at len
    omega

end

theorem present_short (h : ∀ e ∈ es, e.Encoded c.toCodec) {n : Nat}
    (short : ∀ l ∈ rawLines ((unlines (linesOf c.toCodec es)).take n), l.length < maxLine) :
    ∀ e ∈ presentIn c.toCodec es n, e.Encoded c.toCodec ∧ e.n ≤ maxLine := by
  intro e he
  obtain ⟨torn,reads⟩ := truncated_reads h n
  obtain ⟨data,hd,hn⟩ := h e (presentIn_subset he)
  have line := short _ (reads.lines ((c.encode e.f).getD []) (List.mem_map.mpr ⟨e,he,rfl⟩))
  rw [hd,Option.getD_some] at line
  exact ⟨⟨data,hd,hn⟩,by omega⟩

theorem Stored.healed_iff (stored : Stored c.toCodec s d) (n : Nat)
    (cap₁ : Int) {more : List (F × Int)} (encodable : ∀ x ∈ more, c.encode x.1 ≠ none)
    (cap₂ : Int) :
    Healed c.toCodec s d n cap₁ more cap₂ ↔ Heals c.toCodec s n cap₁ more := by
  have content := truncated_content stored n
  by_cases short : ∀ l ∈ rawLines ((unlines (linesOf c.toCodec s.entries)).take n),
      l.length < maxLine
  swap
  · refine ⟨?_,fun heals => absurd heals.short short⟩
    rintro ⟨s₁,d₁,run,-⟩
    obtain ⟨torn,reads⟩ := truncated_reads stored.encoded n
    have marker : Marker (d.truncated n) s.head := stored.marker
    have stats : StatsStored c.toCodec s.evicted (d.truncated n) := stored.stats
    cases run.symm.trans (open_long content reads marker stats short cap₁)
  · have present := present_short stored.encoded short
    obtain ⟨s₁,d₁,run₁,h⟩ := reopened stored (content ▸ short) cap₁
    obtain ⟨s₂,d₂,run₂,fits,full⟩ := enqueueAll_outcome (d := d₁) h.memory encodable
    have second : Healed c.toCodec s d n cap₁ more cap₂ ↔ Yields c.toCodec cap₂ d₂
        (((presentIn c.toCodec s.entries n).drop s.head).map (fun e => c.encode e.f)++
          more.map fun x => c.encode x.1) := by
      constructor
      · rintro ⟨s₁',d₁',run₁',s₂',d₂',run₂',yields⟩
        cases run₁.symm.trans run₁'
        cases run₂.symm.trans run₂'
        exact yields
      · exact fun yields => ⟨s₁,d₁,run₁,s₂,d₂,run₂,yields⟩
    rw [second]
    by_cases room : Fits c.toCodec s₁ more
    swap
    · refine ⟨fun yields => ?_,fun heals => absurd ((h.fits_iff more).mpr heals.room) room⟩
      exact absurd yields (h.evicting (full room).1 (full room).2 cap₂)
    · have roomy := (h.fits_iff more).mp room
      by_cases bare : NewlineLost c.toCodec s.entries n ∧ s.head = 0
      · rw [h.fused (fun e he => (present e he).1) bare encodable (fits room) cap₂ short]
        constructor
        · rintro rfl
          exact ⟨short,.inl rfl,nofun,.inl rfl⟩
        · exact fun heals => heals.ended.resolve_right fun kept => kept bare
      · rw [h.following (fun e he => present e (List.mem_of_mem_drop he)) (h.stored bare) (fits room)
          cap₂]
        exact ⟨fun lines => ⟨short,roomy,lines,.inr bare⟩,Heals.lines⟩

end

end CircuitBreaker.SpoolQueue

namespace CircuitBreaker.SpoolConserved
open DiskProgram ByteLines StepRuns SpoolQueue

/-- In every life of a state directory, with queue.jsonl cut off at any byte: Open succeeds, and
after further frames the next Open finds the whole ones and these, if and only if the scanner
holds the lines, nothing has to be evicted, and no frame follows a lost newline. -/
theorem torn_queue_heals_iff {F : Type} {c : StrictCodec F} {events : List (Event F)} {w : Life F}
    {s : Spool F} (run : Run (Step c.toCodec) .fresh events w) (here : w.spool = some s) (n : Nat)
    (cap₁ : Int) {more : List (F × Int)} (encodable : ∀ x ∈ more, c.encode x.1 ≠ none) (cap₂ : Int) :
    Healed c.toCodec s w.disk n cap₁ more cap₂ ↔ Heals c.toCodec s n cap₁ more := by
  obtain ⟨t,stored,same⟩ := stored_run run
  cases same s here
  exact stored.healed_iff n cap₁ encodable cap₂

theorem torn_queue_heals_third : ∃ w s, Run (Step logCodec) .fresh
    [.reopen 67108864,.enqueue 7 0,.enqueue 8 1] w ∧ w.spool = some s ∧
      presentIn logCodec s.entries 100 = [entryOf logCodec 7] ∧
      Healed logCodec s w.disk 100 67108864 [(9,2)] 67108864 := by
  have opened : Run (Step logCodec) .fresh _ _ := (Run.nil _).snoc (.reopen 67108864 rfl)
  have first := opened.snoc (.enqueue 7 0 rfl rfl)
  have second := first.snoc (.enqueue 8 1 rfl rfl)
  refine ⟨_,_,second,rfl,by decide,?_⟩
  refine (torn_queue_heals_iff (c := logStrict) second rfl 100 67108864 ?_ 67108864).mpr
    ⟨?_,.inr (.inl ?_),?_,.inr fun lost => ?_⟩
  · intro x hx
    cases List.mem_singleton.mp hx
    decide
  · decide
  · decide
  · decide
  · exact absurd lost.1 (by decide)

/-- Only the final newline is lost: Open reads the frame, the next one is written onto its line,
and the Open after that reads neither. -/
theorem newline_lost_fuses : ∃ w s s₁ d₁ s₂ d₂, Run (Step logCodec) .fresh
    [.reopen 67108864,.enqueue 7 0] w ∧ w.spool = some s ∧
      (openSpool logCodec 67108864).run device (w.disk.truncated (logText 7).length) = (.ok s₁,d₁) ∧
      s₁.frames = [7] ∧ enqueueAll logCodec [(8,1)] s₁ d₁ = some (s₂,d₂) ∧ s₂.frames = [7,8] ∧
      Yields logCodec 67108864 d₂ [] ∧
      ¬Healed logCodec s w.disk (logText 7).length 67108864 [(8,1)] 67108864 := by
  have opened : Run (Step logCodec) .fresh _ _ := (Run.nil _).snoc (.reopen 67108864 rfl)
  have first := opened.snoc (.enqueue 7 0 rfl rfl)
  refine ⟨_,_,_,_,_,_,first,rfl,rfl,by decide,rfl,by decide,⟨_,_,rfl,by decide⟩,?_⟩
  obtain ⟨t,stored,same⟩ := stored_run first
  cases same _ rfl
  intro healed
  have encodable : ∀ x ∈ [((8 : Nat),(1 : Int))], logStrict.encode x.1 ≠ none := by decide
  have heals := (Stored.healed_iff (c := logStrict) stored _ _ encodable _).mp healed
  exact heals.ended.elim nofun fun kept => kept ⟨.inl (by decide),rfl⟩

end CircuitBreaker.SpoolConserved
