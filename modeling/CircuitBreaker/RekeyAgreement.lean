import CircuitBreaker.AckWatermark

/-! Transport rekeys of one /link connection: link.go's sendRekey and reader
goroutine on the agent, ws_agents._send_transport_rekey and the receive arm of
link_stream on the server, each direction with ciphers of its own.

The Noise ciphers are modelled by what their documentation promises: a message
opens exactly under the key generation and the nonce it was sealed with, a failed
open leaves the cipher as it was, and a rekey keeps the nonce. Sequence numbers
and nonces are unbounded. -/

namespace CircuitBreaker.AgentLink
open StepRuns

inductive RekeyPayload where
  | other
  | rekey (direction : String) (generation : Nat)

structure LinkFrame where
  envelope : AgentFrame
  payload : RekeyPayload

/-- A frame on the wire, with the generation and nonce its sender encrypted it under. -/
structure Sealed where
  generation : Nat
  nonce : Nat
  frame : LinkFrame

structure CipherState where
  generation : Nat
  nonce : Nat

def CipherState.split : CipherState := ⟨0,0⟩
def CipherState.advance (c : CipherState) : CipherState := {c with nonce := c.nonce+1}
def CipherState.rekey (c : CipherState) : CipherState := {c with generation := c.generation+1}

def CipherState.encrypt (c : CipherState) (f : LinkFrame) : Sealed × CipherState :=
  (⟨c.generation,c.nonce,f⟩,c.advance)

def CipherState.decrypt (c : CipherState) (ct : Sealed) : Option (LinkFrame × CipherState) :=
  if ct.generation = c.generation ∧ ct.nonce = c.nonce then some (ct.frame,c.advance) else none

def rekeyDirectionOutbound : String := "outbound"

inductive RekeyFault where
  | malformed
  | direction (got : String)
  | generation (got want : Nat)

/-! ### Senders -/

/-- One send, and what encoding it and writing it came to. A frame kind of its own
is kept for `transport.rekey`; everything else the loops send has another type. -/
inductive SendOp where
  | data (type : String) (other : type ≠ typeTransportRekey) (encodes : Bool) (write : SendResult)
  | rekey (encodes : Bool) (write : SendResult)

structure AgentSender where
  seq : Nat
  outboundRekeyGen : Nat
  send : CipherState
  writing : Bool

def AgentSender.opened : AgentSender := ⟨0,0,CipherState.split.advance,true⟩

def reached (ct : Sealed) : SendResult → List Sealed
  | .ok => [ct]
  | .raised true => [ct]
  | .raised false => []

/-- sendHeartbeat, sendUpdateStatus, sendDataFrame and the control arm: a frame
that does not encode has used up its number; a websocket that failed one write
fails every later one. -/
def AgentSender.sendFrame (s : AgentSender) (type : String) (encodes : Bool) (write : SendResult) :
    AgentSender × List Sealed :=
  let seq := s.seq+1
  if encodes then
    let (ct,send) := s.send.encrypt ⟨⟨frameVersion,type,seq⟩,.other⟩
    ({s with seq := seq, send := send, writing := write = .ok},reached ct write)
  else ({s with seq := seq},[])

def AgentSender.sendRekey (s : AgentSender) (encodes : Bool) (write : SendResult) :
    AgentSender × List Sealed :=
  let gen := s.outboundRekeyGen+1
  let seq := s.seq+1
  if encodes then
    let (ct,send) := s.send.encrypt
      ⟨⟨frameVersion,typeTransportRekey,seq⟩,.rekey rekeyDirectionOutbound gen⟩
    match write with
    | .ok => ({s with outboundRekeyGen := gen, seq := seq, send := send.rekey},[ct])
    | .raised _ =>
        ({s with outboundRekeyGen := gen, seq := seq, send := send, writing := false},reached ct write)
  else ({s with outboundRekeyGen := gen, seq := seq, writing := false},[])

def AgentSender.put (s : AgentSender) (op : SendOp) : AgentSender × List Sealed :=
  if s.writing then
    match op with
    | .data type _ encodes write => s.sendFrame type encodes write
    | .rekey encodes write => s.sendRekey encodes write
  else (s,[])

structure ServerSender where
  nextSeq : Nat
  sendGeneration : Nat
  send : CipherState
  writing : Bool

def ServerSender.opened : ServerSender := ⟨0,0,.split,true⟩

/-- The capability, ack, ping, update and control frames; `encodes` is false for a
claimed control frame without a type, whose number is spent all the same. -/
def ServerSender.sendFrame (s : ServerSender) (type : String) (encodes : Bool) (write : SendResult) :
    ServerSender × List Sealed :=
  let seq := s.nextSeq
  if encodes then
    let (ct,send) := s.send.encrypt ⟨⟨frameVersion,type,seq⟩,.other⟩
    ({s with nextSeq := seq+1, send := send, writing := write = .ok},reached ct write)
  else ({s with nextSeq := seq+1},[])

def ServerSender.sendTransportRekey (s : ServerSender) (write : SendResult) :
    ServerSender × List Sealed :=
  let seq := s.nextSeq
  let (ct,send) := s.send.encrypt
    ⟨⟨frameVersion,typeTransportRekey,seq⟩,.rekey rekeyDirectionOutbound (s.sendGeneration+1)⟩
  match write with
  | .ok => ({s with nextSeq := seq+1, send := send.rekey, sendGeneration := s.sendGeneration+1},[ct])
  | .raised _ => ({s with nextSeq := seq+1, send := send, writing := false},reached ct write)

def ServerSender.put (s : ServerSender) (op : SendOp) : ServerSender × List Sealed :=
  if s.writing then
    match op with
    | .data type _ encodes write => s.sendFrame type encodes write
    | .rekey _ write => s.sendTransportRekey write
  else (s,[])

/-! ### Receivers -/

/-- What a receive loop's surroundings answer for one message; only the server asks. -/
structure Visit where
  active : Bool
  dispatched : Bool

structure InboundSeqGuard where
  hasSeen : Bool
  lastSeq : Int

inductive GuardFault where
  | version (got want : Int)
  | emptyType (seq : Int)
  | duplicate (seq : Int)
  | decreasing (seq last : Int)

def InboundSeqGuard.validate (g : InboundSeqGuard) (f : AgentFrame) :
    Except GuardFault InboundSeqGuard :=
  if f.v ≠ frameVersion then .error (.version f.v frameVersion)
  else if f.type = "" then .error (.emptyType f.seq)
  else if g.hasSeen ∧ f.seq = g.lastSeq then .error (.duplicate f.seq)
  else if g.hasSeen ∧ f.seq < g.lastSeq then .error (.decreasing f.seq g.lastSeq)
  else .ok ⟨true,f.seq⟩

def applyInboundRekey (recv : CipherState) (f : LinkFrame) (gen : Nat) :
    Except RekeyFault (CipherState × Nat) :=
  match f.payload with
  | .other => .error .malformed
  | .rekey direction generation =>
      if direction ≠ rekeyDirectionOutbound then .error (.direction direction)
      else if generation ≠ gen+1 then .error (.generation generation (gen+1))
      else .ok (recv.rekey,generation)

structure AgentReader where
  guard : InboundSeqGuard
  inboundRekeyGen : Nat
  recv : CipherState
  reading : Bool

def AgentReader.opened : AgentReader := ⟨⟨false,0⟩,0,.split,true⟩

def AgentReader.read (r : AgentReader) (_ : Visit) (ct : Sealed) : AgentReader :=
  match r.recv.decrypt ct with
  | none => {r with reading := false}
  | some (f,recv) =>
      match r.guard.validate f.envelope with
      | .error _ => {r with recv := recv}
      | .ok guard =>
          if f.envelope.type = typeTransportRekey then
            match applyInboundRekey recv f r.inboundRekeyGen with
            | .error _ => {r with recv := recv, guard := guard, reading := false}
            | .ok (recv,gen) => {r with recv := recv, guard := guard, inboundRekeyGen := gen}
          else {r with recv := recv, guard := guard}

structure ServerReader where
  lastSeq : Option Int
  recvGeneration : Nat
  recv : CipherState
  reading : Bool

def ServerReader.opened : ServerReader := ⟨none,0,CipherState.split.advance,true⟩

def rekeyRecv (recv : CipherState) (recvGeneration generation : Nat) :
    Except RekeyFault (CipherState × Nat) :=
  if generation ≠ recvGeneration+1 then .error (.generation generation (recvGeneration+1))
  else .ok (recv.rekey,generation)

def rekeyReceiveArm (recv : CipherState) (f : LinkFrame) (recvGeneration : Nat) :
    Except RekeyFault (CipherState × Nat) :=
  match f.payload with
  | .other => .error .malformed
  | .rekey direction generation =>
      if direction ≠ rekeyDirectionOutbound then .error (.direction direction)
      else rekeyRecv recv recvGeneration generation

/-- One message in link_stream: an undecryptable one is passed over, an agent no
longer active or a dispatch that raises ends the loop. -/
def ServerReader.read (r : ServerReader) (w : Visit) (ct : Sealed) : ServerReader :=
  match r.recv.decrypt ct with
  | none => r
  | some (f,recv) =>
      if ¬w.active then {r with recv := recv, reading := false}
      else
        let (receipt,lastSeq) := receiveFrameReceipt r.lastSeq (some f.envelope)
        match receipt.frame with
        | none => {r with recv := recv, lastSeq := lastSeq}
        | some got =>
            if got.type = typeTransportRekey then
              match rekeyReceiveArm recv f r.recvGeneration with
              | .error _ => {r with recv := recv, lastSeq := lastSeq, reading := false}
              | .ok (recv,gen) => {r with recv := recv, lastSeq := lastSeq, recvGeneration := gen}
            else {r with recv := recv, lastSeq := lastSeq, reading := w.dispatched}

/-! ### One direction, and the link -/

/-- A direction: its sender, the frames in flight in the order they were written,
the frames the reader has taken, and the reader. -/
structure Lane (S R : Type) where
  sender : S
  flight : List Sealed
  taken : List Sealed
  reader : R

inductive LaneEvent where
  | send (op : SendOp)
  | resend (f : LinkFrame) (write : SendResult)
  | deliver (w : Visit)
  | replay (ct : Sealed) (w : Visit)

/-- The functions a direction's two parties run, and what of their states the
cipher agreement depends on. -/
structure Endpoints (S R : Type) where
  put : S → SendOp → S × List Sealed
  resend : S → LinkFrame → SendResult → S × List Sealed
  read : R → Visit → Sealed → R
  writing : S → Bool
  reading : R → Bool
  send : S → CipherState
  recv : R → CipherState
  announced : S → Nat
  applied : R → Nat
  spent : S → Int
  last : R → Option Int
  well : AgentFrame → Bool

def AgentSender.resend (s : AgentSender) (f : LinkFrame) (write : SendResult) :
    AgentSender × List Sealed :=
  let (ct,send) := s.send.encrypt f
  ({s with send := send, writing := write = .ok},reached ct write)

def ServerSender.resend (s : ServerSender) (f : LinkFrame) (write : SendResult) :
    ServerSender × List Sealed :=
  let (ct,send) := s.send.encrypt f
  ({s with send := send, writing := write = .ok},reached ct write)

def agentToServer : Endpoints AgentSender ServerReader where
  put := AgentSender.put
  resend := AgentSender.resend
  read := ServerReader.read
  writing := AgentSender.writing
  reading := ServerReader.reading
  send := AgentSender.send
  recv := ServerReader.recv
  announced := AgentSender.outboundRekeyGen
  applied := ServerReader.recvGeneration
  spent s := s.seq
  last := ServerReader.lastSeq
  well f := f.v = frameVersion && !blank f.type && 0 ≤ f.seq

def serverToAgent : Endpoints ServerSender AgentReader where
  put := ServerSender.put
  resend := ServerSender.resend
  read := AgentReader.read
  writing := ServerSender.writing
  reading := AgentReader.reading
  send := ServerSender.send
  recv := AgentReader.recv
  announced := ServerSender.sendGeneration
  applied := AgentReader.inboundRekeyGen
  spent s := (s.nextSeq : Int)-1
  last r := if r.guard.hasSeen then some r.guard.lastSeq else none
  well f := f.v = frameVersion && f.type ≠ ""

variable {S R : Type}

/-- A send appends to the flight and a delivery takes its head. A duplicate is a
frame already written that is sealed and written once more; a replay is a message
already taken that arrives again. -/
inductive Lane.Step (p : Endpoints S R) : Lane S R → LaneEvent → Lane S R → Prop where
  | send (l : Lane S R) (op : SendOp) :
      Step p l (.send op)
        {l with sender := (p.put l.sender op).1, flight := l.flight ++ (p.put l.sender op).2}
  | resend (l : Lane S R) (ct : Sealed) (write : SendResult) :
      ct ∈ l.taken ++ l.flight → p.writing l.sender →
      Step p l (.resend ct.frame write)
        {l with sender := (p.resend l.sender ct.frame write).1,
                flight := l.flight ++ (p.resend l.sender ct.frame write).2}
  | deliver (l : Lane S R) (ct : Sealed) (rest : List Sealed) (w : Visit) :
      l.flight = ct::rest → p.reading l.reader →
      Step p l (.deliver w)
        {l with flight := rest, taken := l.taken ++ [ct], reader := p.read l.reader w ct}
  | replay (l : Lane S R) (ct : Sealed) (w : Visit) :
      ct ∈ l.taken → p.reading l.reader →
      Step p l (.replay ct w) {l with reader := p.read l.reader w ct}

structure Link where
  up : Lane AgentSender ServerReader
  down : Lane ServerSender AgentReader

def Link.opened : Link := ⟨⟨.opened,[],[],.opened⟩,⟨.opened,[],[],.opened⟩⟩

inductive LinkEvent where
  | up (e : LaneEvent)
  | down (e : LaneEvent)

inductive Link.Step : Link → LinkEvent → Link → Prop where
  | up {l : Link} {e : LaneEvent} {u : Lane AgentSender ServerReader} :
      Lane.Step agentToServer l.up e u → Step l (.up e) {l with up := u}
  | down {l : Link} {e : LaneEvent} {d : Lane ServerSender AgentReader} :
      Lane.Step serverToAgent l.down e d → Step l (.down e) {l with down := d}

/-! ### Agreement along a direction -/

/-- The part of a receiver that decides what the next message does to it. -/
structure ReaderView where
  recv : CipherState
  applied : Nat
  last : Option Int

def passes (well : AgentFrame → Bool) (last : Option Int) (f : AgentFrame) : Prop :=
  well f ∧ ¬last.any (f.seq ≤ ·)

instance (well : AgentFrame → Bool) (last : Option Int) (f : AgentFrame) :
    Decidable (passes well last f) :=
  inferInstanceAs (Decidable (_ ∧ _))

def ReaderView.after (well : AgentFrame → Bool) (v : ReaderView) (ct : Sealed) : ReaderView :=
  if passes well v.last ct.frame.envelope then
    if ct.frame.envelope.type = typeTransportRekey then
      ⟨v.recv.advance.rekey,v.applied+1,some ct.frame.envelope.seq⟩
    else ⟨v.recv.advance,v.applied,some ct.frame.envelope.seq⟩
  else {v with recv := v.recv.advance}

/-- The receiver's cipher is the one the message was sealed under, and a rekey
that passes the guard announces the generation that comes next. -/
structure ReaderView.Ready (well : AgentFrame → Bool) (v : ReaderView) (ct : Sealed) : Prop where
  generation : ct.generation = v.recv.generation
  nonce : ct.nonce = v.recv.nonce
  next : passes well v.last ct.frame.envelope → ct.frame.envelope.type = typeTransportRekey →
    ct.frame.payload = .rekey rekeyDirectionOutbound (v.applied+1)

def ReaderView.Carries (well : AgentFrame → Bool) : ReaderView → List Sealed → Prop
  | _,[] => True
  | v,ct::rest => v.Ready well ct ∧ (v.after well ct).Carries well rest

def ReaderView.through (well : AgentFrame → Bool) (v : ReaderView) (flight : List Sealed) :
    ReaderView :=
  flight.foldl (·.after well) v

def Endpoints.view (p : Endpoints S R) (r : R) : ReaderView := ⟨p.recv r,p.applied r,p.last r⟩

/-- What one send can do: put nothing on the wire, or one message sealed under the
cipher as it was, numbered above everything before it. A sender that goes on
writing has rekeyed exactly when the message announced it. -/
inductive Endpoints.Sent (p : Endpoints S R) (s : S) : S × List Sealed → Prop where
  | nothing {t : S} (number : p.spent s ≤ p.spent t)
      (same : p.writing t → p.writing s ∧ p.send t = p.send s ∧ p.announced t = p.announced s) :
      Sent p s (t,[])
  | data {t : S} {f : LinkFrame} {write : SendResult}
      (other : f.envelope.type ≠ typeTransportRekey) (open_ : p.writing s)
      (above : p.spent s < f.envelope.seq) (number : f.envelope.seq ≤ p.spent t)
      (went : p.writing t → write = .ok ∧ p.send t = (p.send s).advance ∧
        p.announced t = p.announced s) :
      Sent p s (t,reached ⟨(p.send s).generation,(p.send s).nonce,f⟩ write)
  | rekey {t : S} {f : LinkFrame} {write : SendResult}
      (announces : f.envelope.type = typeTransportRekey) (open_ : p.writing s)
      (payload : f.payload = .rekey rekeyDirectionOutbound (p.announced s+1))
      (well : p.well f.envelope)
      (above : p.spent s < f.envelope.seq) (number : f.envelope.seq ≤ p.spent t)
      (went : p.writing t → write = .ok ∧ p.send t = (p.send s).advance.rekey ∧
        p.announced t = p.announced s+1) :
      Sent p s (t,reached ⟨(p.send s).generation,(p.send s).nonce,f⟩ write)

structure Endpoints.Lawful (p : Endpoints S R) : Prop where
  put : ∀ s op, p.Sent s (p.put s op)
  resend : ∀ s f write, (p.resend s f write).2 =
      reached ⟨(p.send s).generation,(p.send s).nonce,f⟩ write ∧
    p.spent (p.resend s f write).1 = p.spent s ∧
    (p.writing (p.resend s f write).1 → write = .ok ∧
      p.send (p.resend s f write).1 = (p.send s).advance ∧
      p.announced (p.resend s f write).1 = p.announced s)
  ready : ∀ r w ct, p.reading r → (p.view r).Ready p.well ct → p.reading (p.read r w ct) →
    p.view (p.read r w ct) = (p.view r).after p.well ct
  live : ∀ r w ct, p.reading r → (p.view r).Ready p.well ct → w.active → w.dispatched →
    p.reading (p.read r w ct)
  shut : ∀ r w ct, (p.recv r).decrypt ct = none → p.reading (p.read r w ct) →
    p.view (p.read r w ct) = p.view r
  old : ∀ r w ct, ¬passes p.well (p.last r) ct.frame.envelope →
    (p.recv (p.read r w ct)).generation = (p.recv r).generation ∧
    p.applied (p.read r w ct) = p.applied r

theorem ReaderView.carries_append (well : AgentFrame → Bool) (v : ReaderView)
    (flight more : List Sealed) :
    v.Carries well (flight++more) ↔
      v.Carries well flight ∧ (v.through well flight).Carries well more := by
  induction flight generalizing v with
  | nil => simp [Carries,through]
  | cons ct rest ih =>
      simp only [List.cons_append,Carries]
      rw [ih,and_assoc]
      rfl

theorem ReaderView.through_append (well : AgentFrame → Bool) (v : ReaderView)
    (flight more : List Sealed) :
    v.through well (flight++more) = (v.through well flight).through well more := by
  simp [through]

variable {well : AgentFrame → Bool} {v : ReaderView} {ct : Sealed}

theorem ReaderView.after_old
    (old : ¬passes well v.last ct.frame.envelope) :
    v.after well ct = {v with recv := v.recv.advance} := by
  simp [after,old]

theorem ReaderView.after_rekey
    (hp : passes well v.last ct.frame.envelope)
    (ht : ct.frame.envelope.type = typeTransportRekey) :
    v.after well ct = ⟨v.recv.advance.rekey,v.applied+1,some ct.frame.envelope.seq⟩ := by
  simp [after,hp,ht]

theorem ReaderView.after_data
    (hp : passes well v.last ct.frame.envelope)
    (ht : ct.frame.envelope.type ≠ typeTransportRekey) :
    v.after well ct = ⟨v.recv.advance,v.applied,some ct.frame.envelope.seq⟩ := by
  simp [after,hp,ht]

theorem ReaderView.after_other (well : AgentFrame → Bool) (v : ReaderView) (ct : Sealed)
    (ht : ct.frame.envelope.type ≠ typeTransportRekey) :
    (v.after well ct).recv = v.recv.advance ∧ (v.after well ct).applied = v.applied := by
  by_cases hp : passes well v.last ct.frame.envelope
  · rw [after_data hp ht]
    exact ⟨rfl,rfl⟩
  · rw [after_old hp]
    exact ⟨rfl,rfl⟩

theorem ReaderView.after_last
    (hp : passes well v.last ct.frame.envelope) :
    (v.after well ct).last = some ct.frame.envelope.seq := by
  by_cases ht : ct.frame.envelope.type = typeTransportRekey
  · rw [after_rekey hp ht]
  · rw [after_data hp ht]

theorem ReaderView.after_refuses {f : AgentFrame}
    (ct : Sealed) (old : ¬passes well v.last f) : ¬passes well (v.after well ct).last f := by
  by_cases hp : passes well v.last ct.frame.envelope
  · rw [after_last hp]
    simp only [passes,not_and,not_not] at old ⊢
    intro hw
    have := old hw
    cases hl : v.last with
    | none => simp [hl] at this
    | some n =>
        have above := hp.2
        simp only [hl,Option.any_some,decide_eq_true_eq] at this above ⊢
        omega
  · rwa [after_old hp]

theorem ReaderView.after_self (well : AgentFrame → Bool) (v : ReaderView) (ct : Sealed) :
    ¬passes well (v.after well ct).last ct.frame.envelope := by
  by_cases hp : passes well v.last ct.frame.envelope
  · rw [after_last hp]
    simp [passes]
  · rwa [after_old hp]

theorem ReaderView.through_refuses {f : AgentFrame}
    (flight : List Sealed) (old : ¬passes well v.last f) :
    ¬passes well (v.through well flight).last f := by
  induction flight generalizing v with
  | nil => exact old
  | cons ct rest ih => exact ih (after_refuses ct old)

def Lane.arrived (p : Endpoints S R) (l : Lane S R) : ReaderView :=
  (p.view l.reader).through p.well l.flight

structure Lane.Inv (p : Endpoints S R) (l : Lane S R) : Prop where
  carries : (p.view l.reader).Carries p.well l.flight
  agree : p.writing l.sender → (l.arrived p).recv = p.send l.sender ∧
    (l.arrived p).applied = p.announced l.sender
  bounded : ∀ n, (l.arrived p).last = some n → n ≤ p.spent l.sender
  taken : ∀ ct ∈ l.taken, ¬passes p.well (p.last l.reader) ct.frame.envelope
  flight : ∀ ct ∈ l.flight, ¬passes p.well (l.arrived p).last ct.frame.envelope
  nonces : ∀ ct ∈ l.taken, ct.nonce < (p.recv l.reader).nonce

/-- A reader that has stopped reads nothing more, so the agreement is about the
ones that have not. -/
def Lane.Sound (p : Endpoints S R) (l : Lane S R) : Prop := p.reading l.reader → l.Inv p

/-- The head of the flight is sealed under the reader's generation, opens, and
leaves the reader running; whatever was taken before, sealed again in any way,
moves no generation. -/
def Lane.Agrees (p : Endpoints S R) (l : Lane S R) : Prop :=
  p.reading l.reader →
    (∀ ct rest, l.flight = ct::rest →
      ct.generation = (p.recv l.reader).generation ∧ ((p.recv l.reader).decrypt ct).isSome ∧
      ∀ w : Visit, w.active → w.dispatched → p.reading (p.read l.reader w ct)) ∧
    (∀ ct ∈ l.taken, ∀ (again : Sealed) (w : Visit), again.frame = ct.frame →
      (p.recv (p.read l.reader w again)).generation = (p.recv l.reader).generation ∧
      p.applied (p.read l.reader w again) = p.applied l.reader)

variable {p : Endpoints S R} {l : Lane S R}

theorem ReaderView.Ready.opens
    (h : v.Ready well ct) : v.recv.decrypt ct = some (ct.frame,v.recv.advance) := by
  simp [CipherState.decrypt,h.generation,h.nonce]

theorem Lane.Sound.agrees (lawful : p.Lawful) (h : l.Sound p) : l.Agrees p := by
  intro reading
  have inv := h reading
  refine ⟨?_,?_⟩
  · intro ct rest hf
    have carries := inv.carries
    rw [hf] at carries
    have ready := carries.1
    have opens := ready.opens
    refine ⟨ready.generation,?_,fun w ha hd => lawful.live _ _ _ reading ready ha hd⟩
    change ((p.view l.reader).recv.decrypt ct).isSome
    rw [opens]
    rfl
  · intro ct hct again w hf
    apply lawful.old
    rw [hf]
    exact inv.taken ct hct

theorem ReaderView.after_bounded {n m : Int}
    (bound : ∀ n, v.last = some n → n ≤ m)
    (numbered : passes well v.last ct.frame.envelope → ct.frame.envelope.seq ≤ m)
    (h : (v.after well ct).last = some n) : n ≤ m := by
  by_cases hp : passes well v.last ct.frame.envelope
  · rw [after_last hp] at h
    rw [←Option.some.inj h]
    exact numbered hp
  · rw [after_old hp] at h
    exact bound n h

theorem Lane.Inv.quiet (h : l.Inv p) {t : S} (number : p.spent l.sender ≤ p.spent t)
    (same : p.writing t → p.writing l.sender ∧ p.send t = p.send l.sender ∧
      p.announced t = p.announced l.sender) : ({l with sender := t} : Lane S R).Inv p where
  carries := h.carries
  agree := by
    intro hw
    obtain ⟨old,send,announced⟩ := same hw
    change (l.arrived p).recv = p.send t ∧ (l.arrived p).applied = p.announced t
    rw [send,announced]
    exact h.agree old
  bounded := fun n hn => Int.le_trans (h.bounded n hn) number
  taken := h.taken
  flight := h.flight
  nonces := h.nonces

theorem Lane.Inv.wrote (h : l.Inv p) {t : S} {ct : Sealed} {write : SendResult}
    (ready : (l.arrived p).Ready p.well ct) (number : p.spent l.sender ≤ p.spent t)
    (numbered : passes p.well (l.arrived p).last ct.frame.envelope →
      ct.frame.envelope.seq ≤ p.spent t)
    (went : p.writing t → write = .ok ∧ p.send t = ((l.arrived p).after p.well ct).recv ∧
      p.announced t = ((l.arrived p).after p.well ct).applied) :
    ({l with sender := t, flight := l.flight ++ reached ct write} : Lane S R).Inv p := by
  have lost : write ≠ .ok → ({l with sender := t} : Lane S R).Inv p := by
    intro hw
    exact h.quiet number fun ht => absurd (went ht).1 hw
  have sent : ({l with sender := t, flight := l.flight ++ [ct]} : Lane S R).Inv p := by
    have arrived : ({l with sender := t, flight := l.flight ++ [ct]} : Lane S R).arrived p =
        (l.arrived p).after p.well ct := by
      simp only [Lane.arrived,ReaderView.through_append]
      rfl
    constructor
    · change (p.view l.reader).Carries p.well (l.flight ++ [ct])
      rw [ReaderView.carries_append]
      exact ⟨h.carries,ready,trivial⟩
    · intro ht
      rw [arrived]
      obtain ⟨-,send,announced⟩ := went ht
      exact ⟨send.symm,announced.symm⟩
    · intro n hn
      rw [arrived] at hn
      exact ReaderView.after_bounded (fun n hn => Int.le_trans (h.bounded n hn) number) numbered hn
    · exact h.taken
    · intro other ho
      rw [arrived]
      rcases List.mem_append.mp ho with ho | ho
      · exact ReaderView.after_refuses ct (h.flight other ho)
      · rw [List.mem_singleton.mp ho]
        exact ReaderView.after_self _ _ _
    · exact h.nonces
  cases write with
  | ok => exact sent
  | raised got =>
      cases got with
      | true => exact sent
      | false =>
          simp only [reached,List.append_nil]
          exact lost (by simp)

theorem Lane.Inv.above_passes (h : l.Inv p) {f : AgentFrame} (well : p.well f)
    (above : p.spent l.sender < f.seq) : passes p.well (l.arrived p).last f := by
  refine ⟨well,?_⟩
  cases hl : (l.arrived p).last with
  | none => simp
  | some n =>
      have := h.bounded n hl
      simp only [Option.any_some,decide_eq_true_eq]
      omega

theorem Lane.Inv.put (h : l.Inv p) {out : S × List Sealed} (sent : p.Sent l.sender out) :
    ({l with sender := out.1, flight := l.flight ++ out.2} : Lane S R).Inv p := by
  cases sent with
  | nothing number same =>
      simp only [List.append_nil]
      exact h.quiet number same
  | @data t f write other writing above number went =>
      obtain ⟨recv,applied⟩ := h.agree writing
      have ready : (l.arrived p).Ready p.well
          ⟨(p.send l.sender).generation,(p.send l.sender).nonce,f⟩ := by
        refine ⟨?_,?_,fun _ ht => absurd ht other⟩ <;> rw [recv]
      refine h.wrote ready (Int.le_trans (Int.le_of_lt above) number) (fun _ => number) fun ht => ?_
      obtain ⟨ok,send,announced⟩ := went ht
      have after := (l.arrived p).after_other p.well
        ⟨(p.send l.sender).generation,(p.send l.sender).nonce,f⟩ other
      rw [after.1,after.2,recv,applied]
      exact ⟨ok,send,announced⟩
  | @rekey t f write announces writing payload well above number went =>
      obtain ⟨recv,applied⟩ := h.agree writing
      have passing := h.above_passes well above
      have ready : (l.arrived p).Ready p.well
          ⟨(p.send l.sender).generation,(p.send l.sender).nonce,f⟩ := by
        refine ⟨by rw [recv],by rw [recv],fun _ _ => ?_⟩
        rw [applied]
        exact payload
      refine h.wrote ready (Int.le_trans (Int.le_of_lt above) number) (fun _ => number) fun ht => ?_
      obtain ⟨ok,send,announced⟩ := went ht
      refine ⟨ok,?_,?_⟩
      · rw [send,←recv]
        simp [ReaderView.after,passing,announces]
      · rw [announced,←applied]
        simp [ReaderView.after,passing,announces]

theorem Lane.Inv.resend (lawful : p.Lawful) (h : l.Inv p) (write : SendResult)
    (hct : ct ∈ l.taken ++ l.flight) (writing : p.writing l.sender) :
    ({l with sender := (p.resend l.sender ct.frame write).1,
             flight := l.flight ++ (p.resend l.sender ct.frame write).2} : Lane S R).Inv p := by
  obtain ⟨out,number,went⟩ := lawful.resend l.sender ct.frame write
  obtain ⟨recv,applied⟩ := h.agree writing
  -- Taken or in flight, the frame has been refused by the time its copy arrives.
  have old : ¬passes p.well (l.arrived p).last ct.frame.envelope := by
    rcases List.mem_append.mp hct with taken | flight
    · exact ReaderView.through_refuses l.flight (h.taken ct taken)
    · exact h.flight ct flight
  rw [out]
  refine h.wrote ⟨by rw [recv],by rw [recv],fun hp => absurd hp old⟩ (by omega)
    (fun hp => absurd hp old) fun ht => ?_
  obtain ⟨ok,send,announced⟩ := went ht
  have gone : (l.arrived p).after p.well
      ⟨(p.send l.sender).generation,(p.send l.sender).nonce,ct.frame⟩ =
        {l.arrived p with recv := (l.arrived p).recv.advance} := ReaderView.after_old old
  rw [gone]
  exact ⟨ok,by rw [send,←recv],by rw [announced,←applied]⟩

theorem ReaderView.after_nonce (well : AgentFrame → Bool) (v : ReaderView) (ct : Sealed) :
    (v.after well ct).recv.nonce = v.recv.nonce+1 := by
  simp only [after]
  split
  · split <;> rfl
  · rfl

theorem Lane.Inv.deliver (lawful : p.Lawful) (h : l.Inv p) {rest : List Sealed}
    {w : Visit} (hf : l.flight = ct::rest) (reading : p.reading l.reader)
    (on : p.reading (p.read l.reader w ct)) :
    ({l with flight := rest, taken := l.taken ++ [ct], reader := p.read l.reader w ct} :
      Lane S R).Inv p := by
  have carries := h.carries
  rw [hf] at carries
  have view := lawful.ready _ w _ reading carries.1 on
  have last : p.last (p.read l.reader w ct) = ((p.view l.reader).after p.well ct).last :=
    congrArg ReaderView.last view
  have recv : p.recv (p.read l.reader w ct) = ((p.view l.reader).after p.well ct).recv :=
    congrArg ReaderView.recv view
  have arrived : ({l with flight := rest, taken := l.taken ++ [ct],
                          reader := p.read l.reader w ct} : Lane S R).arrived p = l.arrived p := by
    simp only [Lane.arrived,hf,view]
    rfl
  constructor
  · change (p.view (p.read l.reader w ct)).Carries p.well rest
    rw [view]
    exact carries.2
  · rw [arrived]
    exact h.agree
  · rw [arrived]
    exact h.bounded
  · intro other ho
    change ¬passes p.well (p.last (p.read l.reader w ct)) other.frame.envelope
    rw [last]
    rcases List.mem_append.mp ho with ho | ho
    · exact ReaderView.after_refuses (v := p.view l.reader) ct (h.taken other ho)
    · rw [List.mem_singleton.mp ho]
      exact ReaderView.after_self _ _ _
  · rw [arrived]
    intro other ho
    exact h.flight other (by rw [hf]; exact List.mem_cons_of_mem _ ho)
  · intro other ho
    change other.nonce < (p.recv (p.read l.reader w ct)).nonce
    rw [recv,ReaderView.after_nonce]
    rcases List.mem_append.mp ho with ho | ho
    · exact Nat.lt_succ_of_lt (h.nonces other ho)
    · rw [List.mem_singleton.mp ho,carries.1.nonce]
      exact Nat.lt_succ_self _

theorem Lane.Inv.replay (lawful : p.Lawful) (h : l.Inv p) {w : Visit}
    (taken : ct ∈ l.taken) (on : p.reading (p.read l.reader w ct)) :
    ({l with reader := p.read l.reader w ct} : Lane S R).Inv p := by
  have spent := h.nonces ct taken
  have view : p.view (p.read l.reader w ct) = p.view l.reader := by
    refine lawful.shut _ w _ ?_ on
    simp only [CipherState.decrypt]
    rw [if_neg]
    omega
  have arrived : ({l with reader := p.read l.reader w ct} : Lane S R).arrived p = l.arrived p := by
    simp only [Lane.arrived,view]
  constructor
  · change (p.view (p.read l.reader w ct)).Carries p.well l.flight
    rw [view]
    exact h.carries
  · rw [arrived]
    exact h.agree
  · rw [arrived]
    exact h.bounded
  · change ∀ other ∈ l.taken,
      ¬passes p.well (p.view (p.read l.reader w ct)).last other.frame.envelope
    rw [view]
    exact h.taken
  · rw [arrived]
    exact h.flight
  · change ∀ other ∈ l.taken, other.nonce < (p.view (p.read l.reader w ct)).recv.nonce
    rw [view]
    exact h.nonces

theorem Lane.Step.sound (lawful : p.Lawful) {e : LaneEvent} {k : Lane S R}
    (step : Lane.Step p l e k) (h : l.Sound p) : k.Sound p := by
  cases step with
  | send op => exact fun reading => (h reading).put (lawful.put l.sender op)
  | resend ct write hct writing => exact fun reading => (h reading).resend lawful write hct writing
  | deliver ct rest w hf reading => exact fun on => (h reading).deliver lawful hf reading on
  | replay ct w taken reading => exact fun on => (h reading).replay lawful taken on

/-! ### The two directions -/

theorem blank_rekey : blank typeTransportRekey = false := by decide

theorem AgentSender.put_sent (s : AgentSender) (op : SendOp) : agentToServer.Sent s (s.put op) := by
  have above : (s.seq : Int) < (s.seq+1 : Nat) := by omega
  unfold AgentSender.put
  split
  case isTrue writing =>
    cases op with
    | data type other encodes write =>
        cases encodes with
        | true =>
            change agentToServer.Sent s ({s with seq := s.seq+1, send := s.send.advance,
                                                 writing := write = .ok},
              reached ⟨s.send.generation,s.send.nonce,
                ⟨⟨frameVersion,type,(s.seq+1 : Nat)⟩,.other⟩⟩ write)
            refine .data other writing above (Int.le_refl _) fun ht => ?_
            exact ⟨of_decide_eq_true ht,rfl,rfl⟩
        | false => exact .nothing (Int.le_of_lt above) fun _ => ⟨writing,rfl,rfl⟩
    | rekey encodes write =>
        cases encodes with
        | true =>
            have well : agentToServer.well ⟨frameVersion,typeTransportRekey,(s.seq+1 : Nat)⟩ := by
              simp only [agentToServer,blank_rekey]
              simp
              omega
            cases write with
            | ok =>
                change agentToServer.Sent s (_,reached ⟨s.send.generation,s.send.nonce,
                  ⟨⟨frameVersion,typeTransportRekey,(s.seq+1 : Nat)⟩,
                    .rekey rekeyDirectionOutbound (s.outboundRekeyGen+1)⟩⟩ .ok)
                exact .rekey rfl writing rfl well above (Int.le_refl _) fun _ => ⟨rfl,rfl,rfl⟩
            | raised got =>
                exact .rekey rfl writing rfl well above (Int.le_refl _) fun h => nomatch h
        | false => exact .nothing (Int.le_of_lt above) fun h => nomatch h
  case isFalse writing =>
    exact .nothing (Int.le_refl _) fun h => absurd h writing

theorem ServerSender.put_sent (s : ServerSender) (op : SendOp) :
    serverToAgent.Sent s (s.put op) := by
  have above : (s.nextSeq : Int)-1 < (s.nextSeq : Nat) := by omega
  have next : (s.nextSeq : Int) ≤ (s.nextSeq+1 : Nat)-1 := by omega
  unfold ServerSender.put
  split
  case isTrue writing =>
    cases op with
    | data type other encodes write =>
        cases encodes with
        | true =>
            change serverToAgent.Sent s ({s with nextSeq := s.nextSeq+1, send := s.send.advance,
                                                 writing := write = .ok},
              reached ⟨s.send.generation,s.send.nonce,
                ⟨⟨frameVersion,type,(s.nextSeq : Nat)⟩,.other⟩⟩ write)
            refine .data other writing above next fun ht => ?_
            exact ⟨of_decide_eq_true ht,rfl,rfl⟩
        | false => exact .nothing (Int.le_trans (Int.le_of_lt above) next) fun _ => ⟨writing,rfl,rfl⟩
    | rekey encodes write =>
        have well : serverToAgent.well ⟨frameVersion,typeTransportRekey,(s.nextSeq : Nat)⟩ := by
          simp [serverToAgent,typeTransportRekey]
        cases write with
        | ok =>
            change serverToAgent.Sent s (_,reached ⟨s.send.generation,s.send.nonce,
              ⟨⟨frameVersion,typeTransportRekey,(s.nextSeq : Nat)⟩,
                .rekey rekeyDirectionOutbound (s.sendGeneration+1)⟩⟩ .ok)
            exact .rekey rfl writing rfl well above next fun _ => ⟨rfl,rfl,rfl⟩
        | raised got => exact .rekey rfl writing rfl well above next fun h => nomatch h
  case isFalse writing =>
    exact .nothing (Int.le_refl _) fun h => absurd h writing

theorem validate_passes (g : InboundSeqGuard) (f : AgentFrame) :
    g.validate f = .ok ⟨true,f.seq⟩ ∧
        passes serverToAgent.well (if g.hasSeen then some g.lastSeq else none) f ∨
      (∃ fault, g.validate f = .error fault) ∧
        ¬passes serverToAgent.well (if g.hasSeen then some g.lastSeq else none) f := by
  simp only [passes,serverToAgent,InboundSeqGuard.validate]
  by_cases hv : f.v = frameVersion
  · by_cases ht : f.type = ""
    · right
      simp [hv,ht]
    · cases hs : g.hasSeen with
      | false =>
          left
          simp [hv,ht]
      | true =>
          by_cases hd : f.seq = g.lastSeq
          · right
            simp [hv,ht,hd]
          · by_cases hl : f.seq < g.lastSeq
            · right
              simp [hv,ht,hd,hl,Int.le_of_lt hl]
            · left
              simp [hv,ht,hd,hl]
              omega
  · right
    simp [hv]

theorem receipt_passes (last : Option Int) (f : AgentFrame) :
    ((receiveFrameReceipt last (some f)).1.frame = some f ∧
        (receiveFrameReceipt last (some f)).2 = some f.seq ∧
        passes agentToServer.well last f) ∨
      ((receiveFrameReceipt last (some f)).1.frame = none ∧
        (receiveFrameReceipt last (some f)).2 = last ∧ ¬passes agentToServer.well last f) := by
  simp only [passes,agentToServer,receiveFrameReceipt]
  by_cases hv : f.v = frameVersion
  · cases hb : blank f.type with
    | true =>
        right
        simp [hv]
    | false =>
        by_cases hn : f.seq < 0
        · right
          have low : ¬0 ≤ f.seq := by omega
          simp [hv,hn,low]
        · by_cases ho : last.any (f.seq ≤ ·)
          · right
            simp [hv,hn,ho]
          · left
            have high : 0 ≤ f.seq := by omega
            simp [hv,hn,ho,high]
  · right
    simp [hv]

theorem AgentReader.read_ready (r : AgentReader) (w : Visit) (ct : Sealed) (reading : r.reading)
    (ready : (serverToAgent.view r).Ready serverToAgent.well ct) :
    serverToAgent.view (r.read w ct) = (serverToAgent.view r).after serverToAgent.well ct ∧
      (r.read w ct).reading := by
  have opens : r.recv.decrypt ct = some (ct.frame,r.recv.advance) := ready.opens
  unfold AgentReader.read
  simp only [opens]
  rcases validate_passes r.guard ct.frame.envelope with ⟨ok,hp⟩ | ⟨⟨fault,bad⟩,hp⟩
  · simp only [ok]
    by_cases ht : ct.frame.envelope.type = typeTransportRekey
    · have payload := ready.next hp ht
      have apply_ok : applyInboundRekey r.recv.advance ct.frame r.inboundRekeyGen =
          .ok (r.recv.advance.rekey,r.inboundRekeyGen+1) := by
        unfold applyInboundRekey
        rw [payload]
        simp [serverToAgent,Endpoints.view]
      simp only [if_pos ht,apply_ok]
      exact ⟨(ReaderView.after_rekey (v := serverToAgent.view r) hp ht).symm,reading⟩
    · simp only [if_neg ht]
      exact ⟨(ReaderView.after_data (v := serverToAgent.view r) hp ht).symm,reading⟩
  · simp only [bad]
    rw [ReaderView.after_old hp]
    exact ⟨rfl,reading⟩

theorem AgentReader.read_old (r : AgentReader) (w : Visit) (ct : Sealed)
    (old : ¬passes serverToAgent.well (serverToAgent.last r) ct.frame.envelope) :
    (r.read w ct).recv.generation = r.recv.generation ∧
      (r.read w ct).inboundRekeyGen = r.inboundRekeyGen := by
  unfold AgentReader.read
  by_cases hk : ct.generation = r.recv.generation ∧ ct.nonce = r.recv.nonce
  · simp only [CipherState.decrypt,if_pos hk]
    rcases validate_passes r.guard ct.frame.envelope with ⟨_,hp⟩ | ⟨⟨fault,bad⟩,_⟩
    · exact absurd hp old
    · simp only [bad]
      exact ⟨rfl,trivial⟩
  · simp only [CipherState.decrypt,if_neg hk]
    exact ⟨trivial,trivial⟩

theorem ServerReader.read_ready (r : ServerReader) (w : Visit) (ct : Sealed)
    (reading : r.reading) (ready : (agentToServer.view r).Ready agentToServer.well ct)
    (active : w.active) :
    agentToServer.view (r.read w ct) = (agentToServer.view r).after agentToServer.well ct ∧
      (w.dispatched → (r.read w ct).reading) := by
  have opens : r.recv.decrypt ct = some (ct.frame,r.recv.advance) := ready.opens
  unfold ServerReader.read
  simp only [opens,active,not_true,if_false]
  rcases receipt_passes r.lastSeq ct.frame.envelope with ⟨frame,last,hp⟩ | ⟨frame,last,hp⟩
  · simp only [frame,last]
    by_cases ht : ct.frame.envelope.type = typeTransportRekey
    · have payload := ready.next hp ht
      have apply_ok : rekeyReceiveArm r.recv.advance ct.frame r.recvGeneration =
          .ok (r.recv.advance.rekey,r.recvGeneration+1) := by
        unfold rekeyReceiveArm
        rw [payload]
        simp [agentToServer,Endpoints.view,rekeyRecv]
      simp only [if_pos ht,apply_ok]
      exact ⟨(ReaderView.after_rekey (v := agentToServer.view r) hp ht).symm,fun _ => reading⟩
    · simp only [if_neg ht]
      exact ⟨(ReaderView.after_data (v := agentToServer.view r) hp ht).symm,fun h => h⟩
  · simp only [frame,last]
    rw [ReaderView.after_old hp]
    exact ⟨rfl,fun _ => reading⟩

theorem ServerReader.read_inactive (r : ServerReader) (w : Visit) (ct : Sealed)
    (inactive : ¬w.active) (opens : (r.recv.decrypt ct).isSome) : (r.read w ct).reading = false := by
  obtain ⟨⟨f,recv⟩,opens⟩ := Option.isSome_iff_exists.mp opens
  simp [ServerReader.read,opens,inactive]

theorem ServerReader.read_old (r : ServerReader) (w : Visit) (ct : Sealed)
    (old : ¬passes agentToServer.well r.lastSeq ct.frame.envelope) :
    (r.read w ct).recv.generation = r.recv.generation ∧
      (r.read w ct).recvGeneration = r.recvGeneration := by
  unfold ServerReader.read
  by_cases hk : ct.generation = r.recv.generation ∧ ct.nonce = r.recv.nonce
  · simp only [CipherState.decrypt,if_pos hk]
    split
    · exact ⟨rfl,rfl⟩
    · rcases receipt_passes r.lastSeq ct.frame.envelope with ⟨_,_,hp⟩ | ⟨frame,last,_⟩
      · exact absurd hp old
      · simp only [frame]
        exact ⟨rfl,trivial⟩
  · simp only [CipherState.decrypt,if_neg hk]
    exact ⟨trivial,trivial⟩

theorem agentToServer_lawful : agentToServer.Lawful where
  put := AgentSender.put_sent
  resend := fun _ _ _ => ⟨rfl,rfl,fun ht => ⟨of_decide_eq_true ht,rfl,rfl⟩⟩
  ready := by
    intro r w ct reading ready on
    by_cases active : w.active
    · exact (r.read_ready w ct reading ready active).1
    · have opens : r.recv.decrypt ct = some (ct.frame,r.recv.advance) := ready.opens
      have off := r.read_inactive w ct active (by rw [opens]; rfl)
      exact absurd (off.symm.trans on) (by simp)
  live := fun r w ct reading ready active => (r.read_ready w ct reading ready active).2
  shut := by
    intro r w ct shut on
    change agentToServer.view (r.read w ct) = _
    have : r.recv.decrypt ct = none := shut
    simp [ServerReader.read,this]
  old := fun r w ct old => r.read_old w ct old

theorem serverToAgent_lawful : serverToAgent.Lawful where
  put := ServerSender.put_sent
  resend := fun _ _ _ => ⟨rfl,rfl,fun ht => ⟨of_decide_eq_true ht,rfl,rfl⟩⟩
  ready := fun r w ct reading ready _ => (r.read_ready w ct reading ready).1
  live := fun r w ct reading ready _ _ => (r.read_ready w ct reading ready).2
  shut := by
    intro r w ct shut on
    have closed : r.recv.decrypt ct = none := shut
    have off : (r.read w ct).reading = false := by simp [AgentReader.read,closed]
    exact absurd (off.symm.trans on) (by simp)
  old := fun r w ct old => r.read_old w ct old

theorem Link.sound {es : List LinkEvent} {s : Link} (run : Run Link.Step .opened es s) :
    s.up.Sound agentToServer ∧ s.down.Sound serverToAgent := by
  refine run.invariant (I := fun s => s.up.Sound agentToServer ∧ s.down.Sound serverToAgent)
    ?_ ⟨fun _ => ?_,fun _ => ?_⟩
  · intro l e k h step
    cases step with
    | up step => exact ⟨step.sound agentToServer_lawful h.1,h.2⟩
    | down step => exact ⟨h.1,step.sound serverToAgent_lawful h.2⟩
  · constructor <;> simp [Link.opened,Lane.arrived,ReaderView.Carries,ReaderView.through,
      Endpoints.view,agentToServer,AgentSender.opened,ServerReader.opened]
  · constructor <;> simp [Link.opened,Lane.arrived,ReaderView.Carries,ReaderView.through,
      Endpoints.view,serverToAgent,ServerSender.opened,AgentReader.opened]

/-- In every state of every run each party's receive cipher is at the generation
its next message was sealed under, and nothing already taken moves it. -/
theorem rekey_generations_agree {es : List LinkEvent} {s : Link}
    (run : Run Link.Step .opened es s) :
    s.up.Agrees agentToServer ∧ s.down.Agrees serverToAgent :=
  ⟨(Link.sound run).1.agrees agentToServer_lawful,(Link.sound run).2.agrees serverToAgent_lawful⟩

/-- The agent announces a rekey, a heartbeat follows under the new key, and the
server has taken the announcement. -/
def rekeyedLink : Link :=
  ⟨⟨⟨2,1,⟨1,3⟩,true⟩,[⟨1,2,⟨⟨1,typeHeartbeat,2⟩,.other⟩⟩],
    [⟨0,1,⟨⟨1,typeTransportRekey,1⟩,.rekey rekeyDirectionOutbound 1⟩⟩],⟨some 1,1,⟨1,2⟩,true⟩⟩,
    ⟨.opened,[],[],.opened⟩⟩

theorem rekeyedLink_run : Run Link.Step .opened
    [.up (.send (.rekey true .ok)),.up (.send (.data typeHeartbeat (by decide) true .ok)),
      .up (.deliver ⟨true,true⟩)] rekeyedLink := by
  have first : Run Link.Step .opened [] .opened := .nil _
  have second := first.snoc (.up (.send Link.opened.up (.rekey true .ok)))
  have third := second.snoc (.up (.send _ (.data typeHeartbeat (by decide) true .ok)))
  exact third.snoc (.up (.deliver _ _ _ ⟨true,true⟩ rfl rfl))

theorem rekey_generations_agree_rekeyed :
    rekeyedLink.up.reader.recv.generation = 1 ∧ rekeyedLink.up.Agrees agentToServer ∧
      rekeyedLink.down.Agrees serverToAgent :=
  ⟨rfl,rekey_generations_agree rekeyedLink_run⟩

end CircuitBreaker.AgentLink
