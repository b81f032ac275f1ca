import CircuitBreaker.SpoolPositions
import CircuitBreaker.AckWatermark
import CircuitBreaker.SenderWindow

/-! Data frames from the agent's spool to the server's database: the producer, the
sender of the current connection, one first-in first-out channel each way and the
server's receive loop, taking steps in any order. -/

namespace CircuitBreaker.Delivery
open DiskProgram StepRuns SpoolQueue AgentLink List

variable {F : Type} {c : Codec F}

/-- A data frame by its absolute position in the spool; none for control traffic. -/
abbrev Tag (F : Type) := Option (Nat × F)

/-- Where the agent's event loop stands between two uses of the spool or socket. -/
inductive Phase (F : Type) where
  | idle
  | peeking (frames bytes : Int)
  | sending (frames : List F) (pos : Nat)
  | committing (through : Nat)
  deriving DecidableEq

/-- What outlives the agent's end of a connection: the messages on the way and
the server's loop. -/
structure ServerSide (F : Type) where
  up : List (Item (Tag F))
  loop : Connection (Tag F)
  deriving DecidableEq

/-- `sent` is every message written to this connection's socket, in order. -/
structure Live (F : Type) where
  sender : DataFrameSender
  seq : Nat
  phase : Phase F
  server : ServerSide F
  down : List Int
  sent : List (Item (Tag F))
  deriving DecidableEq

/-- `stream` holds every frame that ever entered the spool, by position; `settled`
the data frames the server stored or refused for good; `evicted` the positions the
cap destroyed. -/
structure System (F : Type) where
  spool : Spool F
  conn : Option (Live F)
  strays : List (ServerSide F)
  stream : List F
  settled : List (Nat × F)
  evicted : List Nat
  deriving DecidableEq

def System.opened (s : Spool F) : System F := ⟨s,none,[],s.frames,[],[]⟩

def Live.opened (rekeyInterval now : Int) : Live F :=
  ⟨.idle,1,.idle,⟨[],.opened true rekeyInterval now⟩,[],[]⟩

def settled? : LoopEvent (Tag F) → Option (Nat × F)
  | .took item o => if o.terminal then item.tag else none
  | _ => none

def settledBy (es : List (LoopEvent (Tag F))) : List (Nat × F) := es.filterMap settled?

def took? {τ : Type} : LoopEvent τ → Option (Item τ)
  | .took item _ => some item
  | _ => none

def takenBy {τ : Type} (es : List (LoopEvent τ)) : List (Item τ) := es.filterMap took?

def ackedBy (es : List (LoopEvent (Tag F))) : List Int := es.filterMap LoopEvent.ack?

def ServerSide.serve (v : ServerSide F) (t : Tick (Tag F)) : ServerSide F :=
  ⟨v.up.drop (takenBy (iterate v.loop.link t).events).length,v.loop.iterate t⟩

def ServerSide.Offers (v : ServerSide F) (t : Tick (Tag F)) : Prop :=
  v.loop.running = true ∧
    match t.wake with
    | .message item _ _ => v.up.head? = some item
    | _ => True

def Live.write (l : Live F) (tag : Tag F) (body : Body) : Live F :=
  let item : Item (Tag F) := ⟨(l.seq : Int)+1,tag,body⟩
  { l with
    seq := l.seq+1
    server := {l.server with up := l.server.up ++ [item]}
    sent := l.sent ++ [item] }

def System.hangUp (t : System F) (l : Live F) : System F :=
  {t with conn := none, strays := l.server :: t.strays}

def Live.drain (l : Live F) (origin : Nat) (now : Int) : Option (Live F) :=
  let d := l.sender.dropEvicted origin
  if d.ackStalled now then none
  else if d.budgetFrames ≤ 0 ∨ d.budgetBytes ≤ 0 then some {l with sender := d}
  else some {l with sender := d, phase := .peeking d.budgetFrames d.budgetBytes}

def Live.peeked (l : Live F) (r : PeekResult F) : Live F :=
  {l with phase := if r.frames = [] then .idle else .sending r.frames r.start}

def Live.sentFrame (l : Live F) (f : F) (rest : List F) (pos : Nat) (body : Body) (size now : Int) :
    Live F :=
  let l' := l.write (some (pos,f)) body
  { l' with
    sender := l.sender.sent ⟨l.seq+1,size,pos⟩ now
    phase := if rest = [] then .idle else .sending rest (pos+1) }

def Live.acknowledged (l : Live F) (w now : Int) : Live F :=
  if w < 0 then l
  else
    match l.sender.through w.toNat with
    | none => l
    | some through => {l with sender := l.sender.release w.toNat now, phase := .committing through}

inductive Event (F : Type) where
  | enqueue (f : F) (now : Int) (answers : List Answer)
  | connect (rekeyInterval now : Int)
  | control (body : Body)
  | drain (now : Int)
  | peek
  | send (body : Body) (size now : Int)
  | sendFailed (body : Body)
  | ackArrives (now : Int)
  | ackLost
  | commit (answers : List Answer)
  | serve (t : Tick (Tag F))
  | hangUp
  | straggle (t : Tick (Tag F))

/-- One step of the producer, the agent's event loop, the network or a server
loop. Only Enqueue's drop-oldest policy moves the head of the spool in an
enqueue, so the positions it passes are the evicted ones. -/
inductive Step (c : Codec F) : System F → Event F → System F → Prop where
  | enqueue {t s' err} (f : F) (now : Int) (answers : List Answer)
      (h : (enqueue c t.spool f now).replay answers = some (s',err)) :
      Step c t (.enqueue f now answers)
        { t with
          spool := s'
          stream := t.stream ++ (Op.enqueue f now answers).entered
          evicted := t.evicted ++ List.range' t.spool.origin (s'.origin-t.spool.origin) }
  | connect {t} (rekeyInterval now : Int) (h : t.conn = none) :
      Step c t (.connect rekeyInterval now) {t with conn := some (.opened rekeyInterval now)}
  | control {t l} (body : Body) (h : t.conn = some l) (hp : l.phase = .idle) :
      Step c t (.control body) {t with conn := some (l.write none body)}
  | drain {t l l'} (now : Int) (h : t.conn = some l) (hp : l.phase = .idle)
      (hd : l.drain t.spool.origin now = some l') :
      Step c t (.drain now) {t with conn := some l'}
  | stalled {t l} (now : Int) (h : t.conn = some l) (hp : l.phase = .idle)
      (hd : l.drain t.spool.origin now = none) : Step c t (.drain now) (t.hangUp l)
  | peek {t l frames bytes} (h : t.conn = some l) (hp : l.phase = .peeking frames bytes) :
      Step c t .peek
        {t with conn := some (l.peeked (peekAt t.spool l.sender.nextSendPos frames bytes))}
  | send {t l f rest pos} (body : Body) (size now : Int) (h : t.conn = some l)
      (hp : l.phase = .sending (f :: rest) pos) :
      Step c t (.send body size now) {t with conn := some (l.sentFrame f rest pos body size now)}
  | sendFailed {t l f rest pos} (body : Body) (h : t.conn = some l)
      (hp : l.phase = .sending (f :: rest) pos) :
      Step c t (.sendFailed body) (t.hangUp (l.write (some (pos,f)) body))
  | ackArrives {t l w ws} (now : Int) (h : t.conn = some l) (hp : l.phase = .idle)
      (hw : l.down = w :: ws) :
      Step c t (.ackArrives now) {t with conn := some ({l with down := ws}.acknowledged w now)}
  | ackLost {t l w ws} (h : t.conn = some l) (hw : l.down = w :: ws) :
      Step c t .ackLost {t with conn := some {l with down := ws}}
  | commit {t l} {through : Nat} {s'} (answers : List Answer) (h : t.conn = some l)
      (hp : l.phase = .committing through)
      (hc : (commitThrough c t.spool through).replay answers = some (s',none)) :
      Step c t (.commit answers) {t with spool := s', conn := some {l with phase := .idle}}
  | commitFailed {t l} {through : Nat} {s' err} (answers : List Answer) (h : t.conn = some l)
      (hp : l.phase = .committing through)
      (hc : (commitThrough c t.spool through).replay answers = some (s',some err)) :
      Step c t (.commit answers) ({t with spool := s'}.hangUp l)
  | serve {t l} (tick : Tick (Tag F)) (h : t.conn = some l) (ho : l.server.Offers tick) :
      Step c t (.serve tick)
        { t with
          conn := some { l with
            server := l.server.serve tick
            down := l.down ++ ackedBy (iterate l.server.loop.link tick).events }
          settled := t.settled ++ settledBy (iterate l.server.loop.link tick).events }
  | hangUp {t l} (h : t.conn = some l) : Step c t .hangUp (t.hangUp l)
  | straggle {t v before after} (tick : Tick (Tag F)) (h : t.strays = before ++ v :: after)
      (ho : v.Offers tick) :
      Step c t (.straggle tick)
        { t with
          strays := before ++ v.serve tick :: after
          settled := t.settled ++ settledBy (iterate v.loop.link tick).events }

section loop
variable {τ : Type}

@[simp] theorem takenBy_append (es fs : List (LoopEvent τ)) :
    takenBy (es ++ fs) = takenBy es ++ takenBy fs := filterMap_append ..

theorem mem_takenBy {es : List (LoopEvent τ)} {item : Item τ} :
    item ∈ takenBy es ↔ ∃ o, .took item o ∈ es := by
  constructor
  · intro h
    obtain ⟨e,he,hi⟩ := mem_filterMap.mp h
    cases e with
    | took item' o =>
      obtain rfl : item' = item := Option.some.inj hi
      exact ⟨o,he⟩
    | _ => exact nomatch hi
  · exact fun ⟨o,h⟩ => mem_filterMap.mpr ⟨_,h,rfl⟩

theorem map_seq_takenBy (es : List (LoopEvent τ)) :
    (takenBy es).map Item.seq = es.filterMap LoopEvent.seq? := by
  induction es with
  | nil => rfl
  | cons e es ih =>
    cases e with
    | took item o => exact congrArg (item.seq :: ·) ih
    | _ => exact ih

/-- A stretch of the loop takes nothing, or exactly `items`. -/
def Takes (items : List (Item τ)) (p : Pass τ) : Prop :=
  takenBy p.events = [] ∨ takenBy p.events = items

theorem Takes.andThen {items : List (Item τ)} {p : Pass τ} {k : LinkState → Pass τ}
    (hp : takenBy p.events = []) (hk : ∀ s, Takes items (k s)) : Takes items (p.andThen k) := by
  unfold Pass.andThen
  split
  · simp only [Takes,takenBy_append,hp,nil_append]
    exact hk p.link
  · exact .inl hp

theorem flushDataAck_takes (s : LinkState) (force : Bool) (now : Int) (send : SendResult)
    (sentAt : Int) : takenBy (flushDataAck s force now send sentAt : Pass τ).events = [] := by
  unfold flushDataAck
  repeat' split
  all_goals rfl

theorem sendOther_takes (s after : LinkState) (type : String) (send : SendResult) :
    takenBy (sendOther s after type send : Pass τ).events = [] := by
  rcases send with _ | (_ | _) <;> rfl

theorem handleMessage_takes (s : LinkState) (item : Item τ) (w : World) (flush : SendResult) :
    Takes [item] (handleMessage s item w flush) := by
  unfold handleMessage
  split
  · exact .inr rfl
  · split
    · exact .inr rfl
    · exact Takes.andThen (flushDataAck_takes ..) fun _ => .inr rfl
    · dsimp only
      split
      · unfold handleRejected
        split
        · exact .inr rfl
        · split <;> exact .inr rfl
      · unfold handleAccepted
        dsimp only
        split
        · exact .inr rfl
        · split
          · split <;> exact .inr rfl
          · split <;> exact .inr rfl

def Wake.items : Wake τ → List (Item τ)
  | .message item _ _ => [item]
  | _ => []

theorem afterWait_takes (s : LinkState) (wake : Wake τ) : Takes (Wake.items wake) (afterWait s wake) := by
  cases wake with
  | timeout now status flush update =>
    simp only [afterWait]
    split
    · exact .inl rfl
    · cases status with
      | lookupRaised => exact .inl rfl
      | inactive => exact Takes.andThen (flushDataAck_takes ..) fun _ => .inl rfl
      | active =>
        cases update with
        | none => exact .inl rfl
        | some send => exact .inl (sendOther_takes ..)
  | controlOnly | closed => exact .inl rfl
  | message item w flush => exact handleMessage_takes s item w flush

theorem iterate_takes (s : LinkState) (t : Tick τ) : Takes (Wake.items t.wake) (iterate s t) := by
  have quiet {p : Pass τ} (h : Takes [] p) : takenBy p.events = [] := h.elim id id
  refine Takes.andThen (flushDataAck_takes ..) fun s => ?_
  refine Takes.andThen ?_ fun s => ?_
  · unfold rekeyIfDue
    split
    · exact sendOther_takes ..
    · rfl
  refine Takes.andThen ?_ fun s => ?_
  · unfold pingIfDue
    split
    · exact quiet (Takes.andThen (flushDataAck_takes ..) fun _ => .inl (sendOther_takes ..))
    · rfl
  refine Takes.andThen ?_ fun s => afterWait_takes s t.wake
  unfold deliverControl
  split
  · rfl
  · rfl
  · refine quiet (Takes.andThen (sendOther_takes ..) fun s => ?_)
    split <;> exact .inl rfl

end loop

/-- The positions still to be accounted for: a commit under way has been told
about everything up to its own. -/
def Live.floor (l : Live F) (origin : Nat) : Nat :=
  match l.phase with
  | .committing through => max origin (through+1)
  | _ => origin

def PhaseOK (stream : List F) (settled : List (Nat × F)) (origin : Nat)
    (inflight : List InflightFrame) : Phase F → Prop
  | .sending fs pos =>
      (∀ (i : Nat) f, fs[i]? = some f → stream[pos+i]? = some f) ∧
      (∀ e ∈ inflight, e.pos < pos) ∧
      (∀ p, origin ≤ p → p < pos → ∃ e ∈ inflight, e.pos = p)
  | .committing through =>
      through < stream.length ∧ ∀ p, origin ≤ p → p ≤ through → ∃ f, (p,f) ∈ settled ∧ stream[p]? = some f
  | _ => True

/-- The three numberings of one connection: the server has taken a prefix of what
was sent, in order; every entry of the window names a message sent, and every
live position below a window entry is in the window itself. -/
structure Linked (stream : List F) (settled : List (Nat × F)) (origin : Nat) (l : Live F) : Prop where
  fifo : takenBy l.server.loop.trace ++ l.server.up = l.sent
  ordered : l.sent.Pairwise fun i j => i.seq < j.seq
  numbered : ∀ i ∈ l.sent, i.seq ≤ l.seq
  named : ∀ i ∈ l.sent, ∀ p f, i.tag = some (p,f) → stream[p]? = some f
  good : l.server.loop.Good
  acks : ∀ w ∈ l.down, .ack w ∈ l.server.loop.trace
  settles : ∀ x ∈ settledBy l.server.loop.trace, x ∈ settled
  window : ∀ e ∈ l.sender.inflight, ∃ i ∈ l.sent, i.seq = e.seq ∧ ∃ f, i.tag = some (e.pos,f)
  ascending : l.sender.Ascending
  cover : ∀ e ∈ l.sender.inflight, ∀ p, l.floor origin ≤ p → p ≤ e.pos →
    ∃ e' ∈ l.sender.inflight, e'.pos = p
  phase : PhaseOK stream settled origin l.sender.inflight l.phase

/-- Every frame that has left the live spool was settled by the server, or was
evicted and is counted. -/
structure Accounted (c : Codec F) (base : Nat) (t : System F) : Prop where
  tracks : Tracks (Entry.Sized c) t.stream t.spool
  gone : ∀ p, p < t.spool.origin →
    (∃ f, (p,f) ∈ t.settled ∧ t.stream[p]? = some f) ∨ p ∈ t.evicted
  evicted_lt : ∀ p ∈ t.evicted, p < t.spool.origin
  evicted_nodup : t.evicted.Nodup
  counted : t.spool.evicted.frames = base+t.evicted.length
  linked : ∀ l, t.conn = some l → Linked t.stream t.settled t.spool.origin l

variable {stream : List F}

theorem getElem?_append_of_some {p : Nat} {f : F} (h : stream[p]? = some f)
    (fs : List F) : (stream ++ fs)[p]? = some f := by
  rw [List.getElem?_append_left (List.getElem?_eq_some_iff.mp h).1]
  exact h

variable {settled : List (Nat × F)} {origin : Nat}

theorem PhaseOK.mono {stream' : List F} {settled' : List (Nat × F)}
    {origin' : Nat} {inflight : List InflightFrame} {phase : Phase F}
    (h : PhaseOK stream settled origin inflight phase)
    (hst : ∀ (p : Nat) f, stream[p]? = some f → stream'[p]? = some f)
    (hs : ∀ x ∈ settled, x ∈ settled') (ho : origin ≤ origin') :
    PhaseOK stream' settled' origin' inflight phase := by
  cases phase with
  | idle | peeking frames bytes => trivial
  | sending fs pos =>
    obtain ⟨hf,hb,hd⟩ := h
    exact ⟨fun i f hi => hst _ _ (hf i f hi),hb,fun p hle => hd p (le_trans ho hle)⟩
  | committing through =>
    obtain ⟨ht,hd⟩ := h
    have hget := hst through _ (List.getElem?_eq_getElem ht)
    refine ⟨(List.getElem?_eq_some_iff.mp hget).1,fun p hle hpt => ?_⟩
    obtain ⟨f,hf,hp⟩ := hd p (le_trans ho hle) hpt
    exact ⟨f,hs _ hf,hst p f hp⟩

variable {l : Live F}

theorem Linked.mono {stream' : List F} {settled' : List (Nat × F)}
    {origin' : Nat} (h : Linked stream settled origin l)
    (hst : ∀ (p : Nat) f, stream[p]? = some f → stream'[p]? = some f)
    (hs : ∀ x ∈ settled, x ∈ settled') (ho : origin ≤ origin') :
    Linked stream' settled' origin' l := by
  have hfloor : l.floor origin ≤ l.floor origin' := by
    unfold Live.floor
    split <;> omega
  refine ⟨h.fifo,h.ordered,h.numbered,?_,h.good,h.acks,fun x hx => hs x (h.settles x hx),h.window,
    h.ascending,fun e he p hp => h.cover e he p (le_trans hfloor hp),h.phase.mono hst hs ho⟩
  exact fun i hi p f ht => hst p f (h.named i hi p f ht)

theorem Linked.settled_of_ack
    (h : Linked stream settled origin l) {w : Int} (hw : w ∈ l.down) {i : Item (Tag F)}
    (hi : i ∈ l.sent) (hle : i.seq ≤ w) {p : Nat} {f : F} (ht : i.tag = some (p,f)) :
    (p,f) ∈ settled := by
  have hsent := h.ordered
  rw [← h.fifo] at hi hsent
  have hord : Ordered l.server.loop.trace := by
    rw [Ordered,← map_seq_takenBy,pairwise_map]
    exact (pairwise_append.mp hsent).1
  obtain ⟨hh,-⟩ := h.good hord
  have hack := h.acks w hw
  have htaken : i ∈ takenBy l.server.loop.trace := by
    rcases mem_append.mp hi with hi | hi
    · exact hi
    · obtain ⟨prev,o,hp,hb⟩ := hh.bounded w hack
      have := (pairwise_append.mp hsent).2.2 prev (mem_takenBy.mpr ⟨o,hp⟩) i hi
      omega
  obtain ⟨o,ho⟩ := mem_takenBy.mp htaken
  have hterm := hh.covered w hack i o ho hle
  refine h.settles _ (mem_filterMap.mpr ⟨_,ho,?_⟩)
  simp [settled?,hterm,ht]

theorem Linked.write {stream : List F} {settled : List (Nat × F)} {origin : Nat} {l : Live F}
    (h : Linked stream settled origin l) (tag : Tag F) (body : Body)
    (ht : ∀ p f, tag = some (p,f) → stream[p]? = some f) :
    Linked stream settled origin (l.write tag body) := by
  have hlast (i : Item (Tag F)) (hi : i ∈ (l.write tag body).sent) :
      i ∈ l.sent ∨ i = ⟨(l.seq : Int)+1,tag,body⟩ := by
    simpa [Live.write] using hi
  refine ⟨?_,?_,?_,?_,h.good,h.acks,h.settles,?_,h.ascending,h.cover,h.phase⟩
  · simp [Live.write,← h.fifo]
  · simp only [Live.write,pairwise_append,pairwise_singleton,true_and]
    refine ⟨h.ordered,fun i hi j hj => ?_⟩
    have := h.numbered i hi
    rw [mem_singleton.mp hj]
    simp only
    omega
  · intro i hi
    simp only [Live.write]
    rcases hlast i hi with hi | rfl
    · have := h.numbered i hi
      omega
    · exact Int.le_refl _
  · intro i hi p f hif
    rcases hlast i hi with hi | rfl
    · exact h.named i hi p f hif
    · exact ht p f hif
  · intro e he
    obtain ⟨i,hi,hseq,f,hf⟩ := h.window e he
    exact ⟨i,mem_append_left _ hi,hseq,f,hf⟩

theorem linked_opened (stream : List F) (settled : List (Nat × F)) (origin : Nat)
    (rekeyInterval now : Int) : Linked stream settled origin (.opened rekeyInterval now) :=
  ⟨rfl,.nil,nofun,nofun,good_opened true rekeyInterval now,nofun,nofun,nofun,.nil,nofun,trivial⟩

theorem Linked.drain {l' : Live F}
    (h : Linked stream settled origin l) (hp : l.phase = .idle) {now : Int}
    (hd : l.drain origin now = some l') : Linked stream settled origin l' := by
  have hsub := l.sender.dropEvicted_sublist origin
  have hfloor : l.floor origin = origin := by simp [Live.floor,hp]
  have key (ph : Phase F) (hph : ph = .idle ∨ ∃ a b, ph = .peeking a b) :
      Linked stream settled origin {l with sender := l.sender.dropEvicted origin, phase := ph} := by
    refine ⟨h.fifo,h.ordered,h.numbered,h.named,h.good,h.acks,h.settles,?_,?_,?_,?_⟩
    · exact fun e he => h.window e (hsub.subset he)
    · exact h.ascending.sublist hsub
    · intro e he p hle hpe
      have hle' : origin ≤ p := by
        rcases hph with rfl | ⟨a,b,rfl⟩ <;> exact hle
      obtain ⟨e',he',rfl⟩ := h.cover e (hsub.subset he) p (by rw [hfloor]; exact hle') hpe
      exact ⟨e',DataFrameSender.mem_dropEvicted he' hle',rfl⟩
    · rcases hph with rfl | ⟨a,b,rfl⟩ <;> trivial
  unfold Live.drain at hd
  dsimp only at hd
  split at hd
  · exact nomatch hd
  · split at hd
    · obtain rfl := Option.some.inj hd
      have := key l.phase (.inl hp)
      exact this
    · obtain rfl := Option.some.inj hd
      exact key _ (.inr ⟨_,_,rfl⟩)

theorem Linked.peeked {s : Spool F}
    {P : Entry F → Prop} (h : Linked stream settled s.origin l) (hs : Tracks P stream s)
    {frames bytes : Int} (hp : l.phase = .peeking frames bytes) :
    Linked stream settled s.origin (l.peeked (peekAt s l.sender.nextSendPos frames bytes)) := by
  have hfloor : l.floor s.origin = s.origin := by simp [Live.floor,hp]
  have hcover (e : InflightFrame) (he : e ∈ l.sender.inflight) (p : Nat) (hle : s.origin ≤ p)
      (hpe : p ≤ e.pos) : ∃ e' ∈ l.sender.inflight, e'.pos = p :=
    h.cover e he p (by rw [hfloor]; exact hle) hpe
  generalize hr : peekAt s l.sender.nextSendPos frames bytes = r
  by_cases hnil : r.frames = []
  · have hl : l.peeked r = {l with phase := .idle} := by simp [Live.peeked,hnil]
    rw [hl]
    exact ⟨h.fifo,h.ordered,h.numbered,h.named,h.good,h.acks,h.settles,h.window,h.ascending,hcover,
      trivial⟩
  · have hl : l.peeked r = {l with phase := .sending r.frames r.start} := by
      simp [Live.peeked,hnil]
    rw [hl]
    refine ⟨h.fifo,h.ordered,h.numbered,h.named,h.good,h.acks,h.settles,h.window,h.ascending,hcover,
      ?_,?_,?_⟩
    · intro i f hf
      have hat := peekAt_frameAt s l.sender.nextSendPos frames bytes (by rw [hr]; exact hf)
      rw [hr,hs.frameAt_eq] at hat
      split at hat
      · exact nomatch hat
      · rw [← hat]
        congr 1
    · intro e he
      obtain ⟨e',hl'⟩ := Option.ne_none_iff_exists'.mp
        (mt getLast?_eq_none_iff.mp (ne_nil_of_mem he))
      have hle := pos_le_getLast h.ascending hl' he
      rw [← hr]
      simp only [peekAt,DataFrameSender.nextSendPos,hl']
      split <;> omega
    · intro p hle hlt
      rw [← hr] at hlt
      cases hgl : l.sender.inflight.getLast? with
      | none =>
        simp only [peekAt,DataFrameSender.nextSendPos,hgl] at hlt
        split at hlt <;> omega
      | some e' =>
        refine hcover e' (mem_of_getLast? hgl) p hle ?_
        simp only [peekAt,DataFrameSender.nextSendPos,hgl] at hlt
        split at hlt <;> omega

theorem Linked.sentFrame
    (h : Linked stream settled origin l) {f : F} {rest : List F} {pos : Nat}
    (hp : l.phase = .sending (f :: rest) pos) (body : Body) (size now : Int) :
    Linked stream settled origin (l.sentFrame f rest pos body size now) := by
  have hphase := h.phase
  rw [hp] at hphase
  obtain ⟨hframes,hbelow,hdone⟩ := hphase
  have hw := h.write (some (pos,f)) body (by
    rintro p g ⟨⟩
    exact hframes 0 f rfl)
  have hfloor : l.floor origin = origin := by simp [Live.floor,hp]
  have hinflight : (l.sentFrame f rest pos body size now).sender.inflight =
      l.sender.inflight ++ [⟨l.seq+1,size,pos⟩] := rfl
  have hmem (e : InflightFrame) (he : e ∈ (l.sentFrame f rest pos body size now).sender.inflight) :
      e ∈ l.sender.inflight ∨ e = ⟨l.seq+1,size,pos⟩ := by simpa [hinflight] using he
  -- every live position up to the new frame is in the window now
  have hfull (p : Nat) (hle : origin ≤ p) (hlt : p < pos+1) :
      ∃ e ∈ (l.sentFrame f rest pos body size now).sender.inflight, e.pos = p := by
    by_cases hpp : p = pos
    · exact ⟨⟨l.seq+1,size,pos⟩,by simp [hinflight],hpp.symm⟩
    · obtain ⟨e,he,rfl⟩ := hdone p hle (by omega)
      exact ⟨e,by simp [hinflight,he],rfl⟩
  have hbelow' (e : InflightFrame) (he : e ∈ (l.sentFrame f rest pos body size now).sender.inflight) :
      e.pos < pos+1 := by
    rcases hmem e he with he | rfl
    · have := hbelow e he
      omega
    · exact Nat.lt_succ_self _
  refine ⟨hw.fifo,hw.ordered,hw.numbered,hw.named,hw.good,hw.acks,hw.settles,?_,?_,?_,?_⟩
  · intro e he
    rcases hmem e he with he | rfl
    · exact hw.window e he
    · exact ⟨⟨(l.seq : Int)+1,some (pos,f),body⟩,by simp [Live.sentFrame,Live.write],
        by simp,f,rfl⟩
  · rw [DataFrameSender.Ascending,hinflight,pairwise_append]
    refine ⟨h.ascending,pairwise_singleton _ _,fun e he e' he' => ?_⟩
    rw [mem_singleton.mp he']
    obtain ⟨i,hi,hseq,-⟩ := h.window e he
    have := h.numbered i hi
    exact ⟨by simp only; omega,hbelow e he⟩
  · intro e he p hle hpe
    have hle' : origin ≤ p := by
      refine le_trans (le_of_eq ?_) hle
      simp only [Live.sentFrame,Live.floor]
      split
      · rename_i hcase
        split at hcase <;> cases hcase
      · rfl
    exact hfull p hle' (lt_of_le_of_lt hpe (hbelow' e he))
  · by_cases hrest : rest = []
    · simp [PhaseOK,Live.sentFrame,hrest]
    · have hnext : (l.sentFrame f rest pos body size now).phase = .sending rest (pos+1) := by
        simp [Live.sentFrame,hrest]
      rw [hnext]
      refine ⟨fun i g hg => ?_,hbelow',hfull⟩
      have := hframes (i+1) g (by simpa using hg)
      rw [← this]
      congr 1
      omega

theorem Linked.acknowledged
    (h : Linked stream settled origin l) (hp : l.phase = .idle) {w : Int} {ws : List Int}
    (hw : l.down = w :: ws) (now : Int) :
    Linked stream settled origin ({l with down := ws}.acknowledged w now) := by
  have hacks : ∀ v ∈ ws, .ack v ∈ l.server.loop.trace := fun v hv => h.acks v (by simp [hw,hv])
  have hfloor : l.floor origin = origin := by simp [Live.floor,hp]
  have hsame : Linked stream settled origin {l with down := ws} :=
    ⟨h.fifo,h.ordered,h.numbered,h.named,h.good,hacks,h.settles,h.window,h.ascending,h.cover,h.phase⟩
  unfold Live.acknowledged
  split
  · exact hsame
  · rename_i hneg
    split
    · exact hsame
    · rename_i through ht
      have hsub := l.sender.release_sublist w.toNat now
      obtain ⟨last,hlast,hpos⟩ := Option.map_eq_some_iff.mp ht
      have hlast' : last ∈ l.sender.inflight :=
        ( takeWhile_prefix _).subset (mem_of_getLast? hlast)
      -- a released entry is settled, and the frame it names is the stream's
      have hsettled (e : InflightFrame) (he : e ∈ l.sender.inflight)
          (hr : e ∈ l.sender.released w.toNat) :
          ∃ f, (e.pos,f) ∈ settled ∧ stream[e.pos]? = some f := by
        obtain ⟨i,hi,hseq,f,hf⟩ := h.window e he
        have hle := DataFrameSender.seq_le_of_released hr
        refine ⟨f,?_,h.named i hi _ _ hf⟩
        exact h.settled_of_ack (w := w) (by simp [hw]) hi (by omega) hf
      refine ⟨h.fifo,h.ordered,h.numbered,h.named,h.good,hacks,h.settles,?_,?_,?_,?_⟩
      · exact fun e he => h.window e (hsub.subset he)
      · exact h.ascending.sublist hsub
      · intro e he p hle hpe
        simp only [Live.floor] at hle
        obtain ⟨e',he',rfl⟩ := h.cover e (hsub.subset he) p (by rw [hfloor]; omega) hpe
        refine ⟨e',DataFrameSender.mem_release he' fun hr => ?_,rfl⟩
        have := DataFrameSender.pos_le_through h.ascending ht hr
        omega
      · refine ⟨?_,fun p hle hpt => ?_⟩
        · obtain ⟨f,-,hf⟩ := hsettled last hlast' (mem_of_getLast? hlast)
          rw [← hpos]
          exact (List.getElem?_eq_some_iff.mp hf).1
        · obtain ⟨e',he',rfl⟩ := h.cover last hlast' p (by rw [hfloor]; exact hle) (by omega)
          exact hsettled e' he' (DataFrameSender.released_of_pos_le h.ascending ht he' hpt)

theorem Linked.served
    (h : Linked stream settled origin l) {t : Tick (Tag F)} (ho : l.server.Offers t) :
    Linked stream (settled ++ settledBy (iterate l.server.loop.link t).events) origin
      { l with
        server := l.server.serve t
        down := l.down ++ ackedBy (iterate l.server.loop.link t).events } := by
  refine ⟨?_,h.ordered,h.numbered,h.named,good_iterate h.good ho.1 t,?_,?_,h.window,h.ascending,
    h.cover,?_⟩
  · rw [← h.fifo]
    simp only [ServerSide.serve,Connection.iterate,takenBy_append,append_assoc]
    congr 1
    rcases iterate_takes l.server.loop.link t with hnone | htaken
    · simp [hnone]
    · rw [htaken]
      cases hw : t.wake with
      | message item w flush =>
        have hhead : l.server.up.head? = some item := by simpa [hw] using ho.2
        obtain ⟨rest,hrest⟩ := head?_eq_some_iff.mp hhead
        simp [Wake.items,hrest]
      | _ => simp [Wake.items]
  · intro w hw
    rcases mem_append.mp hw with hw | hw
    · exact mem_append_left _ (h.acks w hw)
    · obtain ⟨e,he,hev⟩ := mem_filterMap.mp hw
      cases e with
      | ack v =>
        obtain rfl : v = w := Option.some.inj hev
        exact mem_append_right _ he
      | _ => exact nomatch hev
  · intro x hx
    have hsplit : settledBy (l.server.loop.iterate t).trace =
        settledBy l.server.loop.trace ++ settledBy (iterate l.server.loop.link t).events :=
      filterMap_append ..
    simp only [ServerSide.serve,hsplit] at hx
    rcases mem_append.mp hx with hx | hx
    · exact mem_append_left _ (h.settles x hx)
    · exact mem_append_right _ hx
  · exact PhaseOK.mono h.phase (fun _ _ => id) (fun _ hx => mem_append_left _ hx) le_rfl

theorem committed_origin {s s' : Spool F} {through : Nat} {answers : List Answer}
    {err : Option SpoolError} (hs : Tracks (Entry.Sized c) stream s) (ht : through < stream.length)
    (hc : (commitThrough c s through).replay answers = some (s',err)) :
    Tracks (Entry.Sized c) stream s' ∧ s'.origin = max s.origin (through+1) := by
  obtain ⟨ht',ho,-⟩ := (commitThrough_tracks (fun _ => .inl) hs through).replay hc
  have htotal := hs.total
  exact ⟨ht',by simp only at ho; omega⟩

theorem Linked.committed {stream : List F} {settled : List (Nat × F)} {origin : Nat} {l : Live F}
    (h : Linked stream settled origin l) {through : Nat} (hp : l.phase = .committing through) :
    Linked stream settled (max origin (through+1)) {l with phase := .idle} := by
  refine ⟨h.fifo,h.ordered,h.numbered,h.named,h.good,h.acks,h.settles,h.window,h.ascending,?_,trivial⟩
  intro e he p hle
  refine h.cover e he p ?_
  simpa [Live.floor,hp] using hle

section invariant
variable {base : Nat} {t : System F}

theorem Accounted.enqueue (h : Accounted c base t) {f : F} {now : Int} {answers : List Answer}
    {s' : Spool F} {err : Option SpoolError}
    (hr : (SpoolQueue.enqueue c t.spool f now).replay answers = some (s',err)) :
    Accounted c base
      { t with
        spool := s'
        stream := t.stream ++ (Op.enqueue f now answers).entered
        evicted := t.evicted ++ List.range' t.spool.origin (s'.origin-t.spool.origin) } := by
  obtain ⟨ht,ho⟩ := enqueue_tracks (fun _ => .inl) h.tracks hr
  have hcount : s'.evicted.frames+t.spool.origin = t.spool.evicted.frames+s'.origin :=
    (enqueue_counts c t.spool f now).replay hr
  refine ⟨ht,?_,?_,?_,?_,?_⟩
  · intro p hp
    by_cases hlt : p < t.spool.origin
    · rcases h.gone p hlt with ⟨g,hg,hst⟩ | he
      · exact .inl ⟨g,hg,getElem?_append_of_some hst _⟩
      · exact .inr (mem_append_left _ he)
    · refine .inr (mem_append_right _ (mem_range'_1.mpr ?_))
      simp only at hp
      omega
  · intro p hp
    rcases mem_append.mp hp with hp | hp
    · exact lt_of_lt_of_le (h.evicted_lt p hp) ho
    · have := mem_range'_1.mp hp
      simp only
      omega
  · refine nodup_append.mpr ⟨h.evicted_nodup,nodup_range',?_⟩
    intro p hp q hq
    have h1 := h.evicted_lt p hp
    have h2 := mem_range'_1.mp hq
    omega
  · have := h.counted
    simp only [length_append,length_range']
    omega
  · exact fun l hl => (h.linked l hl).mono (fun _ _ hg => getElem?_append_of_some hg _) (fun _ => id) ho

theorem Accounted.commit (h : Accounted c base t) {l : Live F} {through : Nat} {answers : List Answer}
    {s' : Spool F} {err : Option SpoolError} (hl : t.conn = some l) (hp : l.phase = .committing through)
    (hc : (commitThrough c t.spool through).replay answers = some (s',err)) :
    Accounted c base {t with spool := s', conn := some {l with phase := .idle}} := by
  have hlink := h.linked l hl
  have hphase := hlink.phase
  rw [hp] at hphase
  obtain ⟨ht,ho⟩ := committed_origin h.tracks hphase.1 hc
  have he : s'.evicted = t.spool.evicted := (commitThrough_record c t.spool through).replay hc
  refine ⟨ht,?_,?_,h.evicted_nodup,by simpa [he] using h.counted,?_⟩
  · intro p hlt
    by_cases hold : p < t.spool.origin
    · exact h.gone p hold
    · simp only [ho] at hlt
      exact .inl (hphase.2 p (by omega) (by omega))
  · intro p hm
    have := h.evicted_lt p hm
    simp only [ho]
    omega
  · rintro l' ⟨⟩
    simp only [ho]
    exact hlink.committed hp

theorem Accounted.hangUp (h : Accounted c base t) (l : Live F) : Accounted c base (t.hangUp l) := by
  refine ⟨h.tracks,h.gone,h.evicted_lt,h.evicted_nodup,h.counted,fun l' hl => ?_⟩
  simp [System.hangUp] at hl

theorem Accounted.connected (h : Accounted c base t) {l : Live F}
    (hl : Linked t.stream t.settled t.spool.origin l) : Accounted c base {t with conn := some l} :=
  ⟨h.tracks,h.gone,h.evicted_lt,h.evicted_nodup,h.counted,by rintro l' ⟨⟩; exact hl⟩

theorem gone_more {settled : List (Nat × F)} {stream : List F} {evicted : List Nat} {p : Nat}
    (h : (∃ f, (p,f) ∈ settled ∧ stream[p]? = some f) ∨ p ∈ evicted) (more : List (Nat × F)) :
    (∃ f, (p,f) ∈ settled ++ more ∧ stream[p]? = some f) ∨ p ∈ evicted := by
  rcases h with ⟨f,hf,hst⟩ | h
  · exact .inl ⟨f,mem_append_left _ hf,hst⟩
  · exact .inr h

theorem step_accounted {e : Event F} {t' : System F} (h : Accounted c base t) (hs : Step c t e t') :
    Accounted c base t' := by
  cases hs with
  | enqueue f now answers hr => exact h.enqueue hr
  | connect rekeyInterval now hn => exact h.connected (linked_opened ..)
  | control body hl hp => exact h.connected ((h.linked _ hl).write none body nofun)
  | drain now hl hp hd => exact h.connected ((h.linked _ hl).drain hp hd)
  | stalled now hl hp hd | sendFailed body hl hp | hangUp hl => exact h.hangUp _
  | peek hl hp => exact h.connected ((h.linked _ hl).peeked h.tracks hp)
  | send body size now hl hp => exact h.connected ((h.linked _ hl).sentFrame hp body size now)
  | ackArrives now hl hp hw => exact h.connected ((h.linked _ hl).acknowledged hp hw now)
  | ackLost hl hw =>
    have hk := h.linked _ hl
    refine h.connected ⟨hk.fifo,hk.ordered,hk.numbered,hk.named,hk.good,?_,hk.settles,hk.window,
      hk.ascending,hk.cover,hk.phase⟩
    exact fun v hv => hk.acks v (by simp [hw,hv])
  | commit answers hl hp hc => exact h.commit hl hp hc
  | commitFailed answers hl hp hc => exact (h.commit hl hp hc).hangUp _
  | serve tick hl ho =>
    refine ⟨h.tracks,fun p hp => gone_more (h.gone p hp) _,h.evicted_lt,h.evicted_nodup,h.counted,?_⟩
    rintro l' ⟨⟩
    exact (h.linked _ hl).served ho
  | straggle tick hv ho =>
    refine ⟨h.tracks,fun p hp => gone_more (h.gone p hp) _,h.evicted_lt,h.evicted_nodup,h.counted,?_⟩
    exact fun l hl => (h.linked l hl).mono (fun _ _ => id) (fun _ hx => mem_append_left _ hx)
      le_rfl

end invariant

/-- Whatever the producer, the network and both ends do, from any state directory:
a frame of the spool is still live, or the server settled that very frame, or it
was evicted and the record of losses counts it. -/
theorem delivered_at_least_once {capBytes : Int} {answers : List Answer} {s₀ : Spool F}
    {es : List (Event F)} {t : System F}
    (hopen : (openSpool c capBytes).replay answers = some (.ok s₀))
    (hrun : Run (Step c) (.opened s₀) es t) :
    (∀ (p : Nat) f, t.stream[p]? = some f →
      t.spool.frameAt p = some f ∨ (p,f) ∈ t.settled ∨ p ∈ t.evicted) ∧
    t.evicted.Nodup ∧ t.spool.evicted.frames = s₀.evicted.frames+t.evicted.length := by
  obtain ⟨h₀,hz⟩ := (openSpool_tracks c capBytes).replay hopen s₀ rfl
  have hinit : Accounted c s₀.evicted.frames (System.opened s₀) :=
    ⟨h₀,fun p hp => absurd hp (by simp [System.opened,hz]),by simp [System.opened],.nil,rfl,
      by simp [System.opened]⟩
  have h : Accounted c s₀.evicted.frames t :=
    hrun.invariant (I := Accounted c s₀.evicted.frames) (fun _ _ _ => step_accounted) hinit
  refine ⟨fun p f hf => ?_,h.evicted_nodup,h.counted⟩
  by_cases hlive : p < t.spool.origin
  · rcases h.gone p hlive with ⟨g,hg,hst⟩ | he
    · obtain rfl := Option.some.inj (hf.symm.trans hst)
      exact .inr (.inl hg)
    · exact .inr (.inr he)
  · refine .inl ?_
    rw [h.tracks.frameAt_eq,if_neg (by omega)]
    exact hf

theorem delivered_at_least_once_log :
    ∃ s₀ es, ∃ t : System Nat, Run (Step logCodec) (.opened s₀) es t ∧ t.stream = [7] ∧
      t.spool.frameAt 0 = none ∧
      (t.spool.frameAt 0 = some 7 ∨ (0,7) ∈ t.settled ∨ 0 ∈ t.evicted) := by
  let s₀ : Spool Nat := ⟨400,[],0,0,0,.empty⟩
  let s₁ : Spool Nat := ⟨400,[⟨7,70⟩],0,0,70,.empty⟩
  let s₂ : Spool Nat := ⟨400,[⟨7,70⟩],1,1,0,.empty⟩
  let item : Item (Tag Nat) := ⟨2,some (0,7),.envelope 1 "log"⟩
  let window : DataFrameSender := ⟨[⟨2,70,0⟩],70,some 0⟩
  let quiet : LinkState := .opened true 3600000000 0
  let stored : LinkState := {quiet with lastSeq := some 2, handledSeq := some 2, framesSinceAck := 1}
  let acked : LinkState :=
    {stored with ackedSeq := some 2, framesSinceAck := 0, lastAckAt := 2000000}
  have hopen : (openSpool logCodec 400).replay [.missing,.missing,.missing] = some (.ok s₀) := rfl
  have henq : (enqueue logCodec s₀ 7 0).replay [.ok] = some (s₁,none) := by decide
  have hcom : (commitThrough logCodec s₁ (0 : Nat)).replay [.ok,.ok] = some (s₂,none) := by
    decide
  have hopened := (Run.nil (System.opened s₀)).snoc (Step.enqueue 7 0 [.ok] henq)
    |>.snoc (.connect 3600000000 0 rfl) |>.snoc (.drain 0 rfl rfl rfl) |>.snoc (.peek rfl rfl)
    |>.snoc (.send (.envelope 1 "log") 70 0 rfl rfl)
  let waiting : Live Nat := ⟨window,2,.idle,⟨[item],quiet,[],true⟩,[],[item]⟩
  let handled : Live Nat := ⟨window,2,.idle,⟨[],stored,[.took item .committed],true⟩,[],[item]⟩
  let confirmed : Live Nat :=
    ⟨window,2,.idle,⟨[],acked,[.took item .committed,.ack 2],true⟩,[2],[item]⟩
  have hsent : Run (Step logCodec) (.opened s₀) _ ⟨s₁,some waiting,[],[7],[],[]⟩ := hopened
  have hstored : Step logCodec ⟨s₁,some waiting,[],[7],[],[]⟩
      (.serve (.smooth 0 (.message item (.willing 0) .ok)))
      ⟨s₁,some handled,[],[7],[(0,7)],[]⟩ := by
    have ho : waiting.server.Offers (.smooth 0 (.message item (.willing 0) .ok)) := ⟨rfl,rfl⟩
    have hc : (⟨s₁,some waiting,[],[7],[],[]⟩ : System Nat).conn = some waiting := rfl
    convert Step.serve _ hc ho using 1
    decide
  have hacked : Step logCodec ⟨s₁,some handled,[],[7],[(0,7)],[]⟩
      (.serve (.smooth 2000000 (.timeout 2000000 .active .ok none)))
      ⟨s₁,some confirmed,[],[7],[(0,7)],[]⟩ := by
    have ho : handled.server.Offers (.smooth 2000000 (.timeout 2000000 .active .ok none)) :=
      ⟨rfl,trivial⟩
    have hc : (⟨s₁,some handled,[],[7],[(0,7)],[]⟩ : System Nat).conn = some handled := rfl
    convert Step.serve _ hc ho using 1
    decide
  have hrun := ((hsent.snoc hstored).snoc hacked).snoc
    (.ackArrives 2000000 rfl rfl rfl) |>.snoc (.commit [.ok,.ok] rfl rfl hcom)
  exact ⟨_,_,_,hrun,rfl,rfl,(delivered_at_least_once hopen hrun).1 0 7 rfl⟩

end CircuitBreaker.Delivery
