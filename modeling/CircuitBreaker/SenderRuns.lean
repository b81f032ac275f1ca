import CircuitBreaker.SpoolPositions
import CircuitBreaker.SenderWindow

/-! One connection's window of data frames, step by step (internal/link/outbound.go): the
event loop drains and takes acknowledgements, and between any two uses it makes of the spool
the producer may enqueue, and with that evict, on its own goroutine. -/

namespace CircuitBreaker.SenderRuns
open DiskProgram StepRuns SpoolQueue AgentLink ByteLines List

variable {F : Type}

/-- `frame.Encode` of the frame a connection sends: it carries the protocol's version and the
connection's sequence number, of 64 bits. The envelope alone takes 65 bytes. -/
structure WireCodec (F : Type) extends Codec F where
  stamp : F → Nat → F
  stamp_encode : ∀ f data seq, encode f = some data → seq < 2^64 →
    ∃ sent, encode (stamp f seq) = some sent ∧ sent.length ≤ data.length+19
  envelope : ∀ f data, encode f = some data → 65 ≤ data.length

/-- Where the event loop stands between two uses of the spool or the socket. -/
inductive Phase (F : Type) where
  | idle
  | peeking (frames bytes : Int)
  | sending (frames : List F) (pos : Nat)
  | committing (watermark through : Nat)
  | ended

/-- The connection and the spool it drains. `stream` holds every frame that entered the spool,
`sent` the sequence number and position of every frame written to the socket; both are kept
for the statements and read by nothing. -/
structure Link (F : Type) where
  spool : Spool F
  sender : DataFrameSender
  seq : Nat
  phase : Phase F
  stream : List F
  sent : List (Nat × Nat)

def Link.opened (s : Spool F) (stream : List F) (seq : Nat) : Link F :=
  ⟨s,.idle,seq,.idle,stream,[]⟩

def Link.entry (l : Link F) (data : Bytes) (pos : Nat) : InflightFrame :=
  ⟨l.seq+1,data.length,pos⟩

inductive Event (F : Type) where
  | enqueue (f : F) (now : Int) (answers : List Answer)
  | control
  | drain (now : Int)
  | peek
  | send (now : Int)
  | sendFailed
  | ack (watermark : Nat) (now : Int)
  | commit (answers : List Answer)

/-- The event loop's own steps, and the producer's. A connection's counter stays in its 64
bits; an error of the socket or of a commit ends the connection. -/
inductive Step (c : WireCodec F) : Link F → Event F → Link F → Prop where
  | enqueue {l : Link F} {s' : Spool F} {err} (f : F) (now : Int) (answers : List Answer)
      (h : (enqueue c.toCodec l.spool f now).replay answers = some (s',err)) :
      Step c l (.enqueue f now answers)
        {l with spool := s', stream := l.stream++(Op.enqueue f now answers).entered}
  | control {l : Link F} (hp : l.phase = .idle) (bits : l.seq+1 < 2^64) :
      Step c l .control {l with seq := l.seq+1}
  | stalled {l : Link F} (now : Int) (hp : l.phase = .idle)
      (hd : (l.sender.dropEvicted l.spool.origin).ackStalled now = true) :
      Step c l (.drain now) {l with sender := l.sender.dropEvicted l.spool.origin, phase := .ended}
  | full {l : Link F} (now : Int) (hp : l.phase = .idle)
      (hd : (l.sender.dropEvicted l.spool.origin).ackStalled now = false)
      (hb : (l.sender.dropEvicted l.spool.origin).budgetFrames ≤ 0 ∨
        (l.sender.dropEvicted l.spool.origin).budgetBytes ≤ 0) :
      Step c l (.drain now) {l with sender := l.sender.dropEvicted l.spool.origin}
  | drain {l : Link F} (now : Int) (hp : l.phase = .idle)
      (hd : (l.sender.dropEvicted l.spool.origin).ackStalled now = false)
      (hf : 0 < (l.sender.dropEvicted l.spool.origin).budgetFrames)
      (hb : 0 < (l.sender.dropEvicted l.spool.origin).budgetBytes) :
      Step c l (.drain now) {l with
        sender := l.sender.dropEvicted l.spool.origin
        phase := .peeking (l.sender.dropEvicted l.spool.origin).budgetFrames
          (l.sender.dropEvicted l.spool.origin).budgetBytes}
  | peekNone {l : Link F} {frames bytes : Int} (hp : l.phase = .peeking frames bytes)
      (hn : (peekAt l.spool l.sender.nextSendPos frames bytes).frames = []) :
      Step c l .peek {l with phase := .idle}
  | peek {l : Link F} {frames bytes : Int} (hp : l.phase = .peeking frames bytes)
      (hn : (peekAt l.spool l.sender.nextSendPos frames bytes).frames ≠ []) :
      Step c l .peek {l with
        phase := .sending (peekAt l.spool l.sender.nextSendPos frames bytes).frames
          (peekAt l.spool l.sender.nextSendPos frames bytes).start}
  | send {l : Link F} {f : F} {rest : List F} {pos : Nat} {data : Bytes} (now : Int)
      (hp : l.phase = .sending (f :: rest) pos) (bits : l.seq+1 < 2^64)
      (he : c.encode (c.stamp f (l.seq+1)) = some data) :
      Step c l (.send now) {l with
        sender := l.sender.sent (l.entry data pos) now
        seq := l.seq+1
        phase := if rest = [] then .idle else .sending rest (pos+1)
        sent := l.sent++[(l.seq+1,pos)]}
  | sendFailed {l : Link F} {frames : List F} {pos : Nat} (hp : l.phase = .sending frames pos) :
      Step c l .sendFailed {l with seq := l.seq+1, phase := .ended}
  | ackNothing {l : Link F} (watermark : Nat) (now : Int) (hp : l.phase = .idle)
      (ht : l.sender.through watermark = none) : Step c l (.ack watermark now) l
  | ack {l : Link F} {through : Nat} (watermark : Nat) (now : Int) (hp : l.phase = .idle)
      (ht : l.sender.through watermark = some through) :
      Step c l (.ack watermark now) {l with
        sender := l.sender.release watermark now
        phase := .committing watermark through}
  | commit {l : Link F} {s' : Spool F} {watermark through : Nat} {err : Option SpoolError}
      (answers : List Answer) (hp : l.phase = .committing watermark through)
      (hc : (commitThrough c.toCodec l.spool through).replay answers = some (s',err)) :
      Step c l (.commit answers) {l with
        spool := s'
        phase := if err.isSome then .ended else .idle}

/-! What holds of a connection. -/

def lineSize (c : WireCodec F) (f : F) : Int := (((c.encode f).getD []).length : Int)+1

def linesSize (c : WireCodec F) (fs : List F) : Int := (fs.map (lineSize c)).sum

def PhaseOK (c : WireCodec F) (l : Link F) : Phase F → Prop
  | .peeking frames bytes =>
      frames ≤ 4 ∧ frames ≤ maxInflightFrames-l.sender.inflight.length ∧
      bytes ≤ maxInflightBytes-l.sender.inflightBytes ∧ 0 < bytes
  | .sending fs pos =>
      (∀ f ∈ fs, ∃ data, c.encode f = some data) ∧ pos+fs.length ≤ l.stream.length ∧
      fs.length ≤ 4 ∧ fs.length ≤ maxInflightFrames-l.sender.inflight.length ∧
      windowBytes l.sender.inflight ≤ maxInflightBytes ∧
      (2 ≤ fs.length → windowBytes l.sender.inflight+linesSize c fs ≤
        maxInflightBytes+18*(4-fs.length)) ∧
      (∀ x ∈ l.sent, x.2 < pos) ∧
      (∀ p, l.spool.origin ≤ p → p < pos → ∃ e ∈ l.sender.inflight, e.pos = p)
  | .committing watermark through =>
      through < l.stream.length ∧
      ∀ p, l.spool.origin ≤ p → p ≤ through → ∃ seq, seq ≤ watermark ∧ (seq,p) ∈ l.sent
  | _ => True

/-- Below it every live position has been sent: the head of the backlog, or behind what a
commit under way will discard. -/
def Link.floor (l : Link F) : Nat :=
  match l.phase with
  | .committing _ through => max l.spool.origin (through+1)
  | _ => l.spool.origin

structure Sound (c : WireCodec F) (l : Link F) : Prop where
  tracks : Tracks (Entry.Encoded c.toCodec) l.stream l.spool
  ascending : l.sender.Ascending
  bytes : l.sender.inflightBytes = windowBytes l.sender.inflight
  positive : ∀ e ∈ l.sender.inflight, 0 ≤ e.bytes
  frames : (l.sender.inflight.length : Int) ≤ maxInflightFrames
  overshoot : windowBytes l.sender.inflight.dropLast ≤ maxInflightBytes
  ordered : l.sent.Pairwise fun x y => x.1 < y.1 ∧ x.2 < y.2
  numbered : ∀ x ∈ l.sent, x.1 ≤ l.seq ∧ x.2 < l.stream.length
  window : ∀ e ∈ l.sender.inflight, (e.seq,e.pos) ∈ l.sent
  behind : ∀ x ∈ l.sent, x.2 < l.floor ∨ ∃ e ∈ l.sender.inflight, x.2 ≤ e.pos
  cover : ∀ e ∈ l.sender.inflight, ∀ p, l.floor ≤ p → p ≤ e.pos →
    ∃ e' ∈ l.sender.inflight, e'.pos = p
  phase : PhaseOK c l l.phase

theorem windowBytes_append (es fs : List InflightFrame) :
    windowBytes (es++fs) = windowBytes es+windowBytes fs := by
  simp [windowBytes]

theorem windowBytes_nonneg {es : List InflightFrame} (h : ∀ e ∈ es, 0 ≤ e.bytes) :
    0 ≤ windowBytes es := by
  induction es with
  | nil => simp [windowBytes]
  | cons e es ih =>
    have first := h e mem_cons_self
    have rest := ih fun e' he => h e' (mem_cons_of_mem e he)
    simp only [windowBytes,map_cons,sum_cons] at rest ⊢
    omega

theorem overshoot_drop {front rest : List InflightFrame} (h : ∀ e ∈ front, 0 ≤ e.bytes)
    (ho : windowBytes (front++rest).dropLast ≤ maxInflightBytes) :
    windowBytes rest.dropLast ≤ maxInflightBytes := by
  cases rest with
  | nil => decide
  | cons e rest =>
    rw [dropLast_append_of_ne_nil (cons_ne_nil e rest),windowBytes_append] at ho
    have := windowBytes_nonneg h
    omega

variable {c : WireCodec F} {l : Link F}

theorem Sound.trimmed (h : Sound c l) {front rest : List InflightFrame} {since : Option Int}
    {phase : Phase F} (split : front++rest = l.sender.inflight)
    (behind : ∀ x ∈ l.sent, x.2 < ({l with phase := phase} : Link F).floor ∨ ∃ e ∈ rest, x.2 ≤ e.pos)
    (cover : ∀ e ∈ rest, ∀ p, ({l with phase := phase} : Link F).floor ≤ p → p ≤ e.pos →
      ∃ e' ∈ rest, e'.pos = p)
    (ok : PhaseOK c {l with
      sender := ⟨rest,l.sender.inflightBytes-windowBytes front,since⟩, phase := phase} phase) :
    Sound c {l with
      sender := ⟨rest,l.sender.inflightBytes-windowBytes front,since⟩, phase := phase} := by
  have sub : rest.Sublist l.sender.inflight := split ▸ (suffix_append front rest).sublist
  have own (e : InflightFrame) (he : e ∈ rest) : e ∈ l.sender.inflight := sub.subset he
  refine ⟨h.tracks,h.ascending.sublist sub,?_,fun e he => h.positive e (own e he),?_,?_,h.ordered,
    h.numbered,fun e he => h.window e (own e he),behind,cover,ok⟩
  · have total := h.bytes
    rw [← split,windowBytes_append] at total
    simp only
    omega
  · have := sub.length_le
    have := h.frames
    simp only
    omega
  · have before : windowBytes (front++rest).dropLast ≤ maxInflightBytes := split ▸ h.overshoot
    refine overshoot_drop (fun e he => h.positive e ?_) before
    exact split ▸ mem_append_left rest he

theorem Sound.enqueue (h : Sound c l) {f : F} {now : Int} {answers : List Answer} {s' : Spool F}
    {err : Option SpoolError}
    (hr : (SpoolQueue.enqueue c.toCodec l.spool f now).replay answers = some (s',err)) :
    Sound c {l with spool := s', stream := l.stream++(Op.enqueue f now answers).entered} := by
  obtain ⟨tracks,moved⟩ := enqueue_tracks (fun _ h => h) h.tracks hr
  have longer : l.stream.length ≤ (l.stream++(Op.enqueue f now answers).entered).length := by
    rw [length_append]
    omega
  have floor : l.floor ≤
      ({l with spool := s', stream := l.stream++(Op.enqueue f now answers).entered} :
        Link F).floor := by
    unfold Link.floor
    cases l.phase <;> simp only <;> omega
  refine ⟨tracks,h.ascending,h.bytes,h.positive,h.frames,h.overshoot,h.ordered,?_,h.window,?_,?_,?_⟩
  · exact fun x hx => ⟨(h.numbered x hx).1,lt_of_lt_of_le (h.numbered x hx).2 longer⟩
  · exact fun x hx => (h.behind x hx).imp (fun low => lt_of_lt_of_le low floor) id
  · exact fun e he p low => h.cover e he p (le_trans floor low)
  · have ok := h.phase
    cases hp : l.phase with rw [hp] at ok
    | idle => trivial
    | ended => trivial
    | peeking frames bytes =>
      exact ok
    | sending fs pos =>
      obtain ⟨encoded,inStream,few,room,within,lines,past,done⟩ := ok
      exact ⟨encoded,le_trans inStream longer,few,room,within,lines,past,
        fun p low => done p (le_trans moved low)⟩
    | committing watermark through =>
      exact ⟨lt_of_lt_of_le ok.1 longer,fun p low => ok.2 p (le_trans moved low)⟩

theorem Sound.dropped (h : Sound c l) (hp : l.phase = .idle) {phase : Phase F}
    (still : ({l with phase := phase} : Link F).floor = l.spool.origin)
    (ok : PhaseOK c {l with
      sender := l.sender.dropEvicted l.spool.origin, phase := phase} phase) :
    Sound c {l with sender := l.sender.dropEvicted l.spool.origin, phase := phase} := by
  have floor : l.floor = l.spool.origin := by simp [Link.floor,hp]
  refine h.trimmed takeWhile_append_dropWhile (fun x hx => ?_) (fun e he p low le => ?_) ok
  · rw [still]
    by_cases low : x.2 < l.spool.origin
    · exact .inl low
    · obtain ⟨e,he,le⟩ := (h.behind x hx).resolve_left (floor ▸ low)
      exact .inr ⟨e,DataFrameSender.mem_dropEvicted he (by omega),le⟩
  · rw [still] at low
    have own : e ∈ l.sender.inflight := (dropWhile_suffix _).subset he
    obtain ⟨e',he',rfl⟩ := h.cover e own p (floor ▸ low) le
    exact ⟨e',DataFrameSender.mem_dropEvicted he' low,rfl⟩

/-! What PeekAt hands to the socket. -/

theorem takeFrames_rest (maxFrames : Nat) (maxBytes : Int) (es : List (Entry F)) :
    ∀ (taken : Nat) (total : Int), 0 < taken → taken ≤ maxFrames →
      ∃ k, k ≤ es.length ∧ takeFrames maxFrames maxBytes taken total es = (es.take k).map Entry.f ∧
        taken+k ≤ maxFrames ∧ (0 < k → total+SpoolQueue.sizeOf (es.take k) ≤ maxBytes) := by
  induction es with
  | nil => exact fun taken total _ room => ⟨0,le_rfl,rfl,room,nofun⟩
  | cons e es ih =>
    intro taken total some room
    unfold takeFrames
    split
    · exact ⟨0,Nat.zero_le _,rfl,room,nofun⟩
    · split
      · exact ⟨0,Nat.zero_le _,rfl,room,nofun⟩
      case isFalse fits =>
        have fits : total+e.n ≤ maxBytes := by omega
        obtain ⟨k,hk,eq,frames,bytes⟩ := ih (taken+1) (total+e.n) (by omega) (by omega)
        refine ⟨k+1,by simpa using hk,by simp [eq],by omega,fun _ => ?_⟩
        rw [take_succ_cons,show SpoolQueue.sizeOf (e :: es.take k) = e.n+SpoolQueue.sizeOf (es.take k) by
          simp [SpoolQueue.sizeOf]]
        cases k with
        | zero => simpa [SpoolQueue.sizeOf] using fits
        | succ k =>
          have := bytes (by omega)
          omega

theorem takeFrames_burst {maxFrames : Nat} (hm : 0 < maxFrames) (maxBytes : Int)
    (es : List (Entry F)) :
    ∃ k, k ≤ es.length ∧ takeFrames maxFrames maxBytes 0 0 es = (es.take k).map Entry.f ∧
      k ≤ maxFrames ∧ (2 ≤ k → SpoolQueue.sizeOf (es.take k) ≤ maxBytes) := by
  cases es with
  | nil => exact ⟨0,Nat.le_refl _,rfl,Nat.zero_le _,nofun⟩
  | cons e es =>
    obtain ⟨k,hk,eq,frames,bytes⟩ := takeFrames_rest maxFrames maxBytes es 1 e.n (by omega) hm
    refine ⟨k+1,by simpa using hk,?_,by omega,fun two => ?_⟩
    · rw [takeFrames,if_neg (by omega),if_neg (by omega)]
      simp [eq]
    · rw [take_succ_cons,show SpoolQueue.sizeOf (e :: es.take k) = e.n+SpoolQueue.sizeOf (es.take k) by
        simp [SpoolQueue.sizeOf]]
      exact bytes (by omega)

theorem linesSize_eq {es : List (Entry F)} (h : ∀ e ∈ es, e.Encoded c.toCodec) :
    linesSize c (es.map Entry.f) = SpoolQueue.sizeOf es := by
  unfold linesSize SpoolQueue.sizeOf
  rw [map_map]
  congr 1
  refine map_congr_left fun e he => ?_
  obtain ⟨data,hd,hn⟩ := h e he
  simp [lineSize,hd,hn]

theorem next_unsent {s : Spool F} {d : DataFrameSender} {sent : List (Nat × Nat)}
    (ascending : d.Ascending)
    (behind : ∀ x ∈ sent, x.2 < s.origin ∨ ∃ e ∈ d.inflight, x.2 ≤ e.pos)
    (cover : ∀ e ∈ d.inflight, ∀ p, s.origin ≤ p → p ≤ e.pos → ∃ e' ∈ d.inflight, e'.pos = p)
    (frames bytes : Int) :
    (∀ x ∈ sent, x.2 < (peekAt s d.nextSendPos frames bytes).start) ∧
      ∀ p, s.origin ≤ p → p < (peekAt s d.nextSendPos frames bytes).start →
        ∃ e ∈ d.inflight, e.pos = p := by
  cases hl : d.inflight.getLast? with
  | none =>
    have empty := getLast?_eq_none_iff.mp hl
    have next : d.nextSendPos = -1 := by simp [DataFrameSender.nextSendPos,hl]
    have start : (peekAt s d.nextSendPos frames bytes).start = s.origin := by
      simp only [peekAt,next,if_neg (show ¬(-1 : Int) > s.origin by omega),Nat.add_zero]
    rw [start]
    refine ⟨fun x hx => (behind x hx).resolve_right ?_,fun p low high => by omega⟩
    rintro ⟨e,he,-⟩
    rw [empty] at he
    cases he
  | some last =>
    have next : d.nextSendPos = (last.pos : Int)+1 := by simp [DataFrameSender.nextSendPos,hl]
    have start : (peekAt s d.nextSendPos frames bytes).start = max s.origin (last.pos+1) := by
      simp only [peekAt,next]
      split <;> omega
    rw [start]
    refine ⟨fun x hx => ?_,fun p low high => ?_⟩
    · rcases behind x hx with below | ⟨e,he,le⟩
      · omega
      · have := pos_le_getLast ascending hl he
        omega
    · exact cover last (mem_of_getLast? hl) p low (by omega)

theorem Sound.peeked (h : Sound c l) {frames bytes : Int} (hp : l.phase = .peeking frames bytes)
    (hn : (peekAt l.spool l.sender.nextSendPos frames bytes).frames ≠ []) :
    Sound c {l with
      phase := .sending (peekAt l.spool l.sender.nextSendPos frames bytes).frames
        (peekAt l.spool l.sender.nextSendPos frames bytes).start} := by
  have floor : l.floor = l.spool.origin := by simp [Link.floor,hp]
  have hf : 0 < frames := by
    by_contra none
    exact hn (by simp [peekAt,peekLocked,Int.not_lt.mp none])
  have ok := h.phase
  rw [hp] at ok
  obtain ⟨few,room,budget,positive⟩ := ok
  have behind : ∀ x ∈ l.sent, x.2 < l.spool.origin ∨ ∃ e ∈ l.sender.inflight, x.2 ≤ e.pos :=
    fun x hx => floor ▸ h.behind x hx
  have cover : ∀ e ∈ l.sender.inflight, ∀ p, l.spool.origin ≤ p → p ≤ e.pos →
      ∃ e' ∈ l.sender.inflight, e'.pos = p := fun e he p low => h.cover e he p (floor ▸ low)
  obtain ⟨past,done⟩ := next_unsent h.ascending behind cover frames bytes
  have start : (peekAt l.spool l.sender.nextSendPos frames bytes).start =
      l.spool.origin+(if l.sender.nextSendPos > l.spool.origin then
        (l.sender.nextSendPos-l.spool.origin).toNat else 0) := rfl
  have taken : (peekAt l.spool l.sender.nextSendPos frames bytes).frames =
      takeFrames frames.toNat bytes 0 0 (l.spool.live.drop
        (if l.sender.nextSendPos > l.spool.origin then
          (l.sender.nextSendPos-l.spool.origin).toNat else 0)) := by
    simp [peekAt,peekLocked,Int.not_le.mpr hf]
  generalize (if l.sender.nextSendPos > l.spool.origin then
    (l.sender.nextSendPos-l.spool.origin).toNat else 0) = skip at start taken
  generalize peekAt l.spool l.sender.nextSendPos frames bytes = r at hn start taken past done ⊢
  obtain ⟨k,hk,eq,within,lines⟩ := takeFrames_burst (by omega : 0 < frames.toNat) bytes
    (l.spool.live.drop skip)
  rw [eq] at taken
  have own : ∀ e ∈ (l.spool.live.drop skip).take k, e.Encoded c.toCodec := fun e he =>
    h.tracks.sized e (mem_of_mem_drop (mem_of_mem_take he))
  have count : r.frames.length = k := by
    rw [taken,length_map,length_take]
    omega
  have some : 0 < k := count ▸ length_pos_iff.mpr hn
  have total := h.tracks.total
  rw [length_drop] at hk
  refine ⟨h.tracks,h.ascending,h.bytes,h.positive,h.frames,h.overshoot,h.ordered,h.numbered,
    h.window,behind,cover,?_,?_,?_,?_,?_,?_,past,done⟩
  · intro f mem
    rw [taken] at mem
    obtain ⟨e,he,rfl⟩ := mem_map.mp mem
    obtain ⟨data,hd,-⟩ := own e he
    exact ⟨data,hd⟩
  · simp only
    omega
  · omega
  · simp only [maxInflightFrames] at room ⊢
    omega
  · have := h.bytes
    simp only
    omega
  · intro two
    have bound := lines (by omega)
    have := h.bytes
    rw [taken,linesSize_eq own,length_map,length_take,length_drop]
    simp only
    omega

theorem wire_le {f : F} {data sent : Bytes} {seq : Nat} (hf : c.encode f = some data)
    (bits : seq < 2^64) (hs : c.encode (c.stamp f seq) = some sent) :
    (sent.length : Int) ≤ lineSize c f+18 ∧ 66 ≤ lineSize c f := by
  obtain ⟨data',he,len⟩ := c.stamp_encode f data seq hf bits
  cases hs.symm.trans he
  have := c.envelope f data hf
  simp only [lineSize,hf,Option.getD_some]
  omega

theorem linesSize_cons (f : F) (fs : List F) :
    linesSize c (f :: fs) = lineSize c f+linesSize c fs := by
  simp [linesSize]

theorem linesSize_ge {fs : List F} (h : ∀ f ∈ fs, ∃ data, c.encode f = some data) :
    66*(fs.length : Int) ≤ linesSize c fs := by
  induction fs with
  | nil => simp [linesSize]
  | cons f fs ih =>
    have rest := ih fun g hg => h g (mem_cons_of_mem f hg)
    obtain ⟨data,hd⟩ := h f mem_cons_self
    have := c.envelope f data hd
    rw [linesSize_cons]
    simp only [lineSize,hd,Option.getD_some,length_cons]
    omega

theorem Sound.sent (h : Sound c l) {f : F} {rest : List F} {pos : Nat} {data : Bytes}
    (hp : l.phase = .sending (f :: rest) pos) (bits : l.seq+1 < 2^64)
    (he : c.encode (c.stamp f (l.seq+1)) = some data) (now : Int) :
    Sound c {l with
      sender := l.sender.sent (l.entry data pos) now
      seq := l.seq+1
      phase := if rest = [] then .idle else .sending rest (pos+1)
      sent := l.sent++[(l.seq+1,pos)]} := by
  have floor : l.floor = l.spool.origin := by simp [Link.floor,hp]
  have ok := h.phase
  rw [hp] at ok
  obtain ⟨encoded,inStream,few,room,within,lines,past,done⟩ := ok
  obtain ⟨line,hline⟩ := encoded f mem_cons_self
  obtain ⟨wire,-⟩ := wire_le hline bits he
  simp only [length_cons] at inStream few room lines
  have floor' : ({l with
      sender := l.sender.sent (l.entry data pos) now
      seq := l.seq+1
      phase := if rest = [] then .idle else .sending rest (pos+1)
      sent := l.sent++[(l.seq+1,pos)]} : Link F).floor = l.spool.origin := by
    unfold Link.floor
    by_cases last : rest = [] <;> simp [last]
  have inflight : (l.sender.sent (l.entry data pos) now).inflight =
      l.sender.inflight++[l.entry data pos] := rfl
  have bytes : windowBytes (l.sender.inflight++[l.entry data pos]) =
      windowBytes l.sender.inflight+data.length := by
    simp [windowBytes,Link.entry]
  have below (e : InflightFrame) (mem : e ∈ l.sender.inflight) : e.pos < pos :=
    past _ (h.window e mem)
  -- every live position up to the new frame's is in the window now
  have full (p : Nat) (low : l.spool.origin ≤ p) (high : p < pos+1) :
      ∃ e ∈ l.sender.inflight++[l.entry data pos], e.pos = p := by
    by_cases new : p = pos
    · exact ⟨l.entry data pos,by simp,new.symm⟩
    · obtain ⟨e,mem,rfl⟩ := done p low (by omega)
      exact ⟨e,mem_append_left _ mem,rfl⟩
  have upTo (e : InflightFrame) (mem : e ∈ l.sender.inflight++[l.entry data pos]) :
      e.pos < pos+1 := by
    rcases mem_append.mp mem with old | new
    · have := below e old
      omega
    · rw [mem_singleton.mp new]
      exact Nat.lt_succ_self pos
  refine ⟨h.tracks,?_,?_,?_,?_,?_,?_,?_,?_,?_,?_,?_⟩
  · refine pairwise_append.mpr ⟨h.ascending,pairwise_singleton _ _,fun e mem e' new => ?_⟩
    rw [mem_singleton.mp new]
    have := (h.numbered _ (h.window e mem)).1
    exact ⟨by simp only [Link.entry]; omega,below e mem⟩
  · rw [inflight,bytes]
    have := h.bytes
    simp only [DataFrameSender.sent,Link.entry]
    omega
  · intro e mem
    rcases mem_append.mp mem with old | new
    · exact h.positive e old
    · rw [mem_singleton.mp new]
      simp [Link.entry]
  · simp only [inflight,length_append,length_singleton,maxInflightFrames] at room ⊢
    omega
  · rw [inflight,dropLast_concat]
    exact within
  · refine pairwise_append.mpr ⟨h.ordered,pairwise_singleton _ _,fun x mem y new => ?_⟩
    rw [mem_singleton.mp new]
    have := (h.numbered x mem).1
    exact ⟨by simp only; omega,past x mem⟩
  · intro x mem
    rcases mem_append.mp mem with old | new
    · have := h.numbered x old
      exact ⟨by simp only; omega,this.2⟩
    · rw [mem_singleton.mp new]
      exact ⟨le_rfl,by simp only; omega⟩
  · intro e mem
    rcases mem_append.mp mem with old | new
    · exact mem_append_left _ (h.window e old)
    · rw [mem_singleton.mp new]
      exact mem_append_right _ (mem_singleton_self _)
  · intro x mem
    refine .inr ⟨l.entry data pos,by simp [inflight],?_⟩
    rcases mem_append.mp mem with old | new
    · have := past x old
      simp only [Link.entry]
      omega
    · rw [mem_singleton.mp new]
      exact le_rfl
  · intro e mem p low le
    rw [floor'] at low
    have := upTo e mem
    exact full p low (by omega)
  · by_cases last : rest = []
    · simp only [last,if_true]
      trivial
    · have more : 0 < rest.length := length_pos_iff.mpr last
      have others : ∀ g ∈ rest, ∃ data, c.encode g = some data :=
        fun g mem => encoded g (mem_cons_of_mem f mem)
      have longer := linesSize_ge others
      have bound := lines (by omega)
      rw [linesSize_cons] at bound
      simp only [if_neg last]
      refine ⟨others,by simp only; omega,by omega,?_,?_,fun two => ?_,fun x mem => ?_,
        fun p low high => full p low high⟩
      · simp only [inflight,length_append,length_singleton,maxInflightFrames] at room ⊢
        omega
      · rw [inflight,bytes]
        omega
      · rw [inflight,bytes]
        omega
      · rcases mem_append.mp mem with old | new
        · have := past x old
          omega
        · rw [mem_singleton.mp new]
          exact Nat.lt_succ_self pos

theorem mem_release {d : DataFrameSender} (watermark : Nat) (now : Int) {e : InflightFrame}
    (he : e ∈ d.inflight) (hn : e ∉ d.released watermark) :
    e ∈ (d.release watermark now).inflight := DataFrameSender.mem_release he hn

theorem Sound.acked (h : Sound c l) (hp : l.phase = .idle) {watermark through : Nat}
    (ht : l.sender.through watermark = some through) (now : Int) :
    Sound c {l with
      sender := l.sender.release watermark now
      phase := .committing watermark through} := by
  have floor : l.floor = l.spool.origin := by simp [Link.floor,hp]
  have behind : ∀ x ∈ l.sent, x.2 < l.spool.origin ∨ ∃ e ∈ l.sender.inflight, x.2 ≤ e.pos :=
    fun x hx => floor ▸ h.behind x hx
  obtain ⟨last,hlast,rfl⟩ := Option.map_eq_some_iff.mp ht
  have own : last ∈ l.sender.inflight :=
    ( takeWhile_prefix _).subset (mem_of_getLast? hlast)
  refine h.trimmed takeWhile_append_dropWhile (fun x hx => ?_) (fun e he p low le => ?_)
    ⟨(h.numbered _ (h.window last own)).2,fun p low le => ?_⟩
  · rcases behind x hx with below | ⟨e,he,le⟩
    · exact .inl (lt_of_lt_of_le below (le_max_left _ _))
    · by_cases gone : e ∈ l.sender.released watermark
      · have := DataFrameSender.pos_le_through h.ascending ht gone
        exact .inl (lt_of_lt_of_le (by omega) (le_max_right _ (last.pos+1)))
      · exact .inr ⟨e,mem_release watermark now he gone,le⟩
  · have low : max l.spool.origin (last.pos+1) ≤ p := low
    have mem : e ∈ l.sender.inflight := (dropWhile_suffix _).subset he
    obtain ⟨e',he',rfl⟩ := h.cover e mem p (by rw [floor]; omega) le
    refine ⟨e',mem_release watermark now he' fun gone => ?_,rfl⟩
    have := DataFrameSender.pos_le_through h.ascending ht gone
    omega
  · obtain ⟨e,he,rfl⟩ := h.cover last own p (by rw [floor]; exact low) le
    exact ⟨e.seq,DataFrameSender.seq_le_of_released
      (DataFrameSender.released_of_pos_le h.ascending ht he le),h.window e he⟩

theorem committed_origin (h : Sound c l) {watermark through : Nat}
    (hp : l.phase = .committing watermark through) {answers : List Answer} {s' : Spool F}
    {err : Option SpoolError}
    (hc : (commitThrough c.toCodec l.spool through).replay answers = some (s',err)) :
    Tracks (Entry.Encoded c.toCodec) l.stream s' ∧
      s'.origin = max l.spool.origin (through+1) := by
  obtain ⟨tracks,origin,-⟩ :=
    (commitThrough_tracks (fun _ h => h) h.tracks (through : Int)).replay hc
  simp only at tracks origin
  have ok := h.phase
  rw [hp] at ok
  have total := h.tracks.total
  have := ok.1
  exact ⟨tracks,by omega⟩

theorem Sound.committed (h : Sound c l) {watermark through : Nat}
    (hp : l.phase = .committing watermark through) {answers : List Answer} {s' : Spool F}
    {err : Option SpoolError}
    (hc : (commitThrough c.toCodec l.spool through).replay answers = some (s',err)) :
    Sound c {l with spool := s', phase := if err.isSome then .ended else .idle} := by
  obtain ⟨tracks,origin⟩ := committed_origin h hp hc
  have same : ({l with spool := s', phase := if err.isSome then .ended else .idle} :
      Link F).floor = l.floor := by
    unfold Link.floor
    rw [hp]
    cases err.isSome <;> exact origin
  refine ⟨tracks,h.ascending,h.bytes,h.positive,h.frames,h.overshoot,h.ordered,h.numbered,h.window,
    fun x hx => ?_,fun e he p low => ?_,?_⟩
  · rw [same]
    exact h.behind x hx
  · rw [same] at low
    exact h.cover e he p low
  · cases err <;> trivial

theorem step_sound (l : Link F) (e : Event F) (l' : Link F) (h : Sound c l) (hs : Step c l e l') :
    Sound c l' := by
  cases hs with
  | enqueue f now answers hr => exact h.enqueue hr
  | control hp bits =>
    exact ⟨h.tracks,h.ascending,h.bytes,h.positive,h.frames,h.overshoot,h.ordered,
      fun x hx => ⟨Nat.le_succ_of_le (h.numbered x hx).1,(h.numbered x hx).2⟩,h.window,h.behind,
      h.cover,by simp only [hp]; trivial⟩
  | stalled now hp hd => exact h.dropped hp rfl trivial
  | full now hp hd hb =>
    have idle : Sound c {l with
        sender := l.sender.dropEvicted l.spool.origin, phase := .idle} := h.dropped hp rfl trivial
    rwa [← hp] at idle
  | drain now hp hd hf hb =>
    refine h.dropped hp rfl ⟨Int.min_le_left _ _,Int.min_le_right _ _,Int.min_le_right _ _,hb⟩
  | peekNone hp hn =>
    have floor : l.floor = l.spool.origin := by simp [Link.floor,hp]
    exact ⟨h.tracks,h.ascending,h.bytes,h.positive,h.frames,h.overshoot,h.ordered,h.numbered,
      h.window,(fun x hx => by have := h.behind x hx; rwa [floor] at this),
      (fun e he p low => h.cover e he p (by rw [floor]; exact low)),trivial⟩
  | peek hp hn => exact h.peeked hp hn
  | send now hp bits he => exact h.sent hp bits he now
  | sendFailed hp =>
    have floor : l.floor = l.spool.origin := by simp [Link.floor,hp]
    exact ⟨h.tracks,h.ascending,h.bytes,h.positive,h.frames,h.overshoot,h.ordered,
      (fun x hx => ⟨Nat.le_succ_of_le (h.numbered x hx).1,(h.numbered x hx).2⟩),h.window,
      (fun x hx => by have := h.behind x hx; rwa [floor] at this),
      (fun e he p low => h.cover e he p (by rw [floor]; exact low)),trivial⟩
  | ackNothing watermark now hp ht => exact h
  | ack watermark now hp ht => exact h.acked hp ht now
  | commit answers hp hc => exact h.committed hp hc

structure WindowKept (c : WireCodec F) (l : Link F) : Prop where
  ascending : l.sender.Ascending
  bytes : l.sender.inflightBytes = windowBytes l.sender.inflight
  frames : (l.sender.inflight.length : Int) ≤ maxInflightFrames
  overshoot : windowBytes l.sender.inflight.dropLast ≤ maxInflightBytes
  once : (l.sent.map Prod.snd).Nodup
  unskipped : ∀ p : Nat, l.spool.origin ≤ p → (p : Int) < l.sender.nextSendPos →
    ∃ seq, (seq,p) ∈ l.sent
  acknowledged : ∀ watermark through answers l', l.phase = .committing watermark through →
    Step c l (.commit answers) l' → ∀ p, l.spool.origin ≤ p → p < l'.spool.origin →
      ∃ seq, seq ≤ watermark ∧ (seq,p) ∈ l.sent

theorem Sound.windowKept (h : Sound c l) : WindowKept c l := by
  refine ⟨h.ascending,h.bytes,h.frames,h.overshoot,?_,fun p low next => ?_,?_⟩
  · refine pairwise_map.mpr (h.ordered.imp fun lt => ?_)
    exact ne_of_lt lt.2
  · cases hl : l.sender.inflight.getLast? with simp only [DataFrameSender.nextSendPos,hl] at next
    | none =>
      omega
    | some last =>
      have own := mem_of_getLast? hl
      by_cases high : l.floor ≤ p
      · obtain ⟨e,he,rfl⟩ := h.cover last own p high (by omega)
        exact ⟨e.seq,h.window e he⟩
      · have ok := h.phase
        unfold Link.floor at high
        cases hp : l.phase with
        | committing watermark through =>
          rw [hp] at ok high
          obtain ⟨seq,-,mem⟩ := ok.2 p low (by simp only at high; omega)
          exact ⟨seq,mem⟩
        | _ =>
          rw [hp] at high
          exact absurd low high
  · intro watermark through answers l' hp hs p low high
    cases hs with
    | commit _ hp' hc =>
      obtain ⟨rfl,rfl⟩ : _ = watermark ∧ _ = through := by
        rw [hp'] at hp
        exact ⟨(Phase.committing.inj hp).1,(Phase.committing.inj hp).2⟩
      have origin := (committed_origin h hp' hc).2
      have ok := h.phase
      rw [hp'] at ok
      exact ok.2 p low (by simp only at high; omega)

theorem Sound.opened {s : Spool F} {stream : List F} (h : Tracks (Entry.Encoded c.toCodec) stream s)
    (seq : Nat) : Sound c (.opened s stream seq) := by
  refine ⟨h,.nil,rfl,?_,?_,?_,.nil,?_,?_,?_,?_,trivial⟩ <;>
    simp [Link.opened,DataFrameSender.idle,windowBytes,maxInflightFrames,maxInflightBytes]

/-- From any spool whose lines are the encoder's own, however it came about: the window is
kept at every moment of a connection, whatever the server acknowledges, the producer enqueues
and evicts and the disk refuses between any two steps of the event loop. -/
theorem window_kept_on_every_run {capBytes : Int} {answers : List Answer} {s₀ s : Spool F}
    {ops : List (Op F)} {seq : Nat} {events : List (Event F)} {l : Link F}
    (hopen : (openSpool c.toCodec capBytes).replay answers = some (.ok s₀))
    (own : ∀ e ∈ s₀.live, e.Encoded c.toCodec) (hspool : Run (SpoolQueue.Step c.toCodec) s₀ ops s)
    (run : Run (Step c) (.opened s (s₀.frames++ops.flatMap Op.entered) seq) events l) :
    WindowKept c l := by
  obtain ⟨loaded,-⟩ := (openSpool_tracks c.toCodec capBytes).replay hopen s₀ rfl
  have start : Tracks (Entry.Encoded c.toCodec) s₀.frames s₀ :=
    ⟨loaded.head_le,loaded.frames_eq,loaded.origin_le,loaded.bytes_eq,own⟩
  obtain ⟨tracks,-⟩ := run_tracks (fun _ h => h) hspool start
  exact (run.invariant step_sound (.opened tracks seq)).windowKept

/-! The simplest frames on the wire. -/

theorem length_itoa (n : Nat) (h : n < 2^64) : 1 ≤ (itoa n).length ∧ (itoa n).length ≤ 20 := by
  have few := (@Nat.length_toDigits_le_iff 10 n 20 (by decide) (by decide)).mpr
    (by omega)
  have some := length_pos_iff.mpr (itoa_ne_nil n)
  refine ⟨some,?_⟩
  rw [itoa,length_map]
  exact few

theorem length_logText (seq : Nat) :
    (logText seq).length = logOpening.length+(itoa seq).length+logClosing.length := by
  simp only [logText,length_append]
  omega

def logWire : WireCodec Nat where
  toCodec := logCodec
  stamp := fun _ seq => seq
  stamp_encode := by
    intro f data seq hf bits
    simp only [logCodec,encodeLog] at hf
    split at hf
    case isTrue hlt =>
      obtain rfl := Option.some.inj hf
      refine ⟨logText seq,if_pos bits,?_⟩
      have old := length_itoa f hlt
      have new := length_itoa seq bits
      rw [length_logText,length_logText]
      omega
    case isFalse => exact nomatch hf
  envelope := by
    intro f data hf
    simp only [logCodec,encodeLog] at hf
    split at hf
    case isTrue hlt =>
      obtain rfl := Option.some.inj hf
      have digits := (length_itoa f hlt).1
      have opening : logOpening.length = 26 := by decide
      have closing : logClosing.length = 42 := by decide
      rw [length_logText]
      omega
    case isFalse => exact nomatch hf

theorem window_kept_acknowledged : ∃ l : Link Nat, l.sent = [(1,0)] ∧ l.spool.origin = 1 ∧
    l.sender.inflight = [] ∧ WindowKept logWire l := by
  let s₀ : Spool Nat := ⟨100,[],0,0,0,.empty⟩
  have hopen : (openSpool logCodec 100).replay [.missing,.missing,.missing] = some (.ok s₀) := rfl
  have start : Run (Step logWire) (.opened s₀ [] 0) [] (.opened s₀ [] 0) := .nil _
  have enqueued := start.snoc (.enqueue 0 4 [.ok]
    (show _ = some ((⟨100,[⟨0,70⟩],0,0,70,.empty⟩ : Spool Nat),none) by decide))
  have drained := enqueued.snoc (.drain 5 rfl rfl (by decide) (by decide))
  have peeked := drained.snoc (.peek rfl (by decide))
  have sent := peeked.snoc (.send 6 rfl (by decide)
    (show _ = some (logText 1) by decide))
  have acked := sent.snoc (.ack 9 7 rfl (show _ = some 0 by decide))
  have committed := acked.snoc (.commit [.ok,.ok,.ok] rfl
    (show _ = some ((⟨100,[],0,1,0,.empty⟩ : Spool Nat),none) by decide))
  exact ⟨_,by decide,by decide,by decide,
    window_kept_on_every_run hopen nofun (.nil s₀) committed⟩

end CircuitBreaker.SenderRuns
