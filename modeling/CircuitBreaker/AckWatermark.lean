import CircuitBreaker.StepRuns
import Mathlib.Data.List.Pairwise

/-! The server's receive loop for one agent connection (ws_agents.link_stream over
agent_link.receive_frame_receipt and dispatch_frame), and the delivery watermark
it acknowledges with `data.ack`. Times are microseconds. -/

namespace CircuitBreaker.AgentLink
open StepRuns List

structure AgentFrame where
  v : Int
  type : String
  seq : Int

def frameVersion : Int := 1

def typeHeartbeat : String := "heartbeat"
def typeTransportRekey : String := "transport.rekey"

def capabilityForType : List (String × String) :=
  [("telemetry.host","host_telemetry"),("probe.result","remote_probe"),
    ("discovery.finding","local_discovery")]

def handlerTypes : List String :=
  ["heartbeat","log","uninstall","update.status","key.rotate","telemetry.host",
    "capability.readiness","probe.result","discovery.finding","capability.violation"]

/-- The characters `str.strip` removes. -/
def isSpace (c : Char) : Bool :=
  (9 ≤ c.toNat && c.toNat ≤ 13) || (28 ≤ c.toNat && c.toNat ≤ 32) ||
    [0x85,0xA0,0x1680,0x2028,0x2029,0x202F,0x205F,0x3000].contains c.toNat ||
    (0x2000 ≤ c.toNat && c.toNat ≤ 0x200A)

def blank (type : String) : Bool := type.toList.all isSpace

structure FrameReceipt where
  frame : Option AgentFrame
  terminalSeq : Option Int

/-- The receipt and the session's last accepted sequence number; `candidate` is
none for a body that does not parse. -/
def receiveFrameReceipt (lastSeq : Option Int) (candidate : Option AgentFrame) :
    FrameReceipt × Option Int :=
  match candidate with
  | none => (⟨none,none⟩,lastSeq)
  | some f =>
      if f.v ≠ frameVersion then (⟨none,if f.seq ≥ 0 then some f.seq else none⟩,lastSeq)
      else if blank f.type then (⟨none,none⟩,lastSeq)
      else if f.seq < 0 then (⟨none,none⟩,lastSeq)
      else if lastSeq.any (f.seq ≤ ·) then (⟨none,some f.seq⟩,lastSeq)
      else (⟨some f,none⟩,some f.seq)

inductive Outcome where
  | committed | refused | withheld | ignored | rejected | rekeyed
  | undecryptable | malformed | failed | unread
  deriving DecidableEq

def Outcome.terminal : Outcome → Bool
  | .committed | .refused | .withheld | .ignored | .rejected | .rekeyed => true
  | _ => false

inductive HandlerRun where
  | stored | refused | raised

inductive AgentStatus where
  | active | inactive | lookupRaised

/-- The answers of everything outside the loop for one message: the database, the
grants, the handler, the receive cipher. -/
structure World where
  status : AgentStatus
  auditRaises : Bool
  granted : Bool
  handler : HandlerRun
  heartbeatRaises : Bool
  rekeyApplies : Bool
  now : Int

def dispatchFrame (w : World) (f : AgentFrame) : Outcome :=
  if (capabilityForType.lookup f.type).isSome ∧ ¬w.granted then
    if w.auditRaises then .failed else .withheld
  else if handlerTypes.contains f.type then
    match w.handler with
    | .stored => .committed
    | .refused => .refused
    | .raised => .failed
  else .ignored

/-- One message as the agent numbered it, and what the server can make of it. A
tag names what it carries. -/
inductive Body where
  | undecryptable
  | malformed
  | envelope (v : Int) (type : String)
  deriving DecidableEq

structure Item (τ : Type) where
  seq : Int
  tag : τ
  body : Body
  deriving DecidableEq

structure LinkState where
  ackDataRequested : Bool
  rekeyInterval : Int
  lastSeq : Option Int
  handledSeq : Option Int
  ackedSeq : Option Int
  framesSinceAck : Nat
  ackFrozen : Bool
  lastAckAt : Int
  lastHeartbeatAt : Int
  lastRekeyAt : Int
  lastPingSentAt : Int
  deriving DecidableEq

def LinkState.opened (ackDataRequested : Bool) (rekeyInterval now : Int) : LinkState :=
  ⟨ackDataRequested,rekeyInterval,none,none,none,0,false,now,now,now,now⟩

inductive LoopEvent (τ : Type) where
  | ack (watermark : Int)
  | sent (type : String)
  | took (item : Item τ) (outcome : Outcome)
  deriving DecidableEq

/-- A stretch of the loop: where it leaves the link, what it did, and whether the
loop goes on. -/
structure Pass (τ : Type) where
  link : LinkState
  events : List (LoopEvent τ)
  running : Bool

variable {τ : Type}

def Pass.next (s : LinkState) : Pass τ := ⟨s,[],true⟩
def Pass.leave (s : LinkState) : Pass τ := ⟨s,[],false⟩

def Pass.andThen (p : Pass τ) (k : LinkState → Pass τ) : Pass τ :=
  if p.running then ⟨(k p.link).link,p.events ++ (k p.link).events,(k p.link).running⟩ else p

inductive SendResult where
  | ok
  | raised (reached : Bool)
  deriving DecidableEq

def ackCoalesceFrames : Nat := 4
def ackCoalesceMicros : Int := 1000000
def linkPingMicros : Int := 20000000
def linkDeadMicros : Int := 60000000

def LinkState.noteHandled (s : LinkState) (seq : Int) : LinkState :=
  if s.handledSeq.any (seq ≤ ·) then s
  else {s with handledSeq := some seq, framesSinceAck := s.framesSinceAck+1}

def LinkState.freeze (s : LinkState) : LinkState :=
  if s.ackDataRequested ∧ ¬s.ackFrozen then {s with ackFrozen := true} else s

def flushDataAck (s : LinkState) (force : Bool) (now : Int) (send : SendResult) (sentAt : Int) :
    Pass τ :=
  match s.handledSeq with
  | none => .next s
  | some handled =>
      if ¬s.ackDataRequested ∨ s.ackFrozen then .next s
      else if s.ackedSeq.any (handled ≤ ·) then .next s
      else if ¬force ∧ s.framesSinceAck < ackCoalesceFrames ∧ now-s.lastAckAt < ackCoalesceMicros then
        .next s
      else
        match send with
        | .ok =>
            ⟨{s with ackedSeq := some handled, framesSinceAck := 0, lastAckAt := sentAt},
              [.ack handled],true⟩
        | .raised reached => ⟨s,if reached then [.ack handled] else [],false⟩

def sendOther (s after : LinkState) (type : String) : SendResult → Pass τ
  | .ok => ⟨after,[.sent type],true⟩
  | .raised reached => ⟨s,if reached then [.sent type] else [],false⟩

inductive ControlFrame where
  | unencodable
  | frame (type : String) (send : SendResult)

def deliverControl (s : LinkState) : Option ControlFrame → Pass τ
  | none => .next s
  | some .unencodable => .next s
  | some (.frame type send) =>
      (sendOther s s type send).andThen fun s => if type = "disconnect" then .leave s else .next s

inductive Wake (τ : Type) where
  | timeout (now : Int) (status : AgentStatus) (flush : SendResult) (update : Option SendResult)
  | controlOnly
  | closed
  | message (item : Item τ) (w : World) (flush : SendResult)

structure Tick (τ : Type) where
  flushNow : Int
  flush : SendResult
  flushSentAt : Int
  rekeyNow : Int
  rekey : SendResult
  pingNow : Int
  forced : SendResult
  ping : SendResult
  control : Option ControlFrame
  wake : Wake τ

def rekeyIfDue (s : LinkState) (now : Int) (send : SendResult) : Pass τ :=
  if now-s.lastRekeyAt ≥ s.rekeyInterval then
    sendOther s {s with lastRekeyAt := now} typeTransportRekey send
  else .next s

def pingIfDue (s : LinkState) (now : Int) (forced send : SendResult) : Pass τ :=
  if now-s.lastPingSentAt ≥ linkPingMicros then
    (flushDataAck s true now forced now).andThen fun s =>
      sendOther s {s with lastPingSentAt := now} "ping" send
  else .next s

/-- A frame the receipt accepted: rekey announcements are applied here, the rest
is dispatched, and only then is the watermark advanced. -/
def handleAccepted (s : LinkState) (item : Item τ) (w : World) (f : AgentFrame) : Pass τ :=
  if f.type = typeHeartbeat ∧ w.heartbeatRaises then
    ⟨{s with lastHeartbeatAt := w.now},[.took item .failed],false⟩
  else
    let s := if f.type = typeHeartbeat then {s with lastHeartbeatAt := w.now} else s
    if f.type = typeTransportRekey then
      if w.rekeyApplies then ⟨s.noteHandled f.seq,[.took item .rekeyed],true⟩
      else ⟨s,[.took item .failed],false⟩
    else
      match dispatchFrame w f with
      | .failed => ⟨s,[.took item .failed],false⟩
      | outcome => ⟨s.noteHandled f.seq,[.took item outcome],true⟩

def handleRejected (s : LinkState) (item : Item τ) (w : World) (terminalSeq : Option Int) : Pass τ :=
  if w.auditRaises then ⟨s,[.took item .failed],false⟩
  else
    match terminalSeq with
    | some seq => ⟨s.noteHandled seq,[.took item .rejected],true⟩
    | none => ⟨s.freeze,[.took item .malformed],true⟩

def Item.candidate (item : Item τ) : Option AgentFrame :=
  match item.body with
  | .envelope v type => some ⟨v,type,item.seq⟩
  | _ => none

def handleMessage (s : LinkState) (item : Item τ) (w : World) (flush : SendResult) : Pass τ :=
  if item.body = .undecryptable then ⟨s.freeze,[.took item .undecryptable],true⟩
  else
    match w.status with
    | .lookupRaised => ⟨s,[.took item .unread],false⟩
    | .inactive =>
        (flushDataAck s true w.now flush w.now).andThen fun s => ⟨s,[.took item .unread],false⟩
    | .active =>
        let (receipt,lastSeq) := receiveFrameReceipt s.lastSeq item.candidate
        match receipt.frame with
        | none => handleRejected s item w receipt.terminalSeq
        | some f => handleAccepted {s with lastSeq := lastSeq} item w f

def afterWait (s : LinkState) : Wake τ → Pass τ
  | .timeout now status flush update =>
      if now-s.lastHeartbeatAt ≥ linkDeadMicros then .leave s
      else
        match status with
        | .lookupRaised => .leave s
        | .inactive => (flushDataAck s true now flush now).andThen fun s => .leave s
        | .active =>
            match update with
            | none => .next s
            | some send => sendOther s s "update" send
  | .controlOnly => .next s
  | .closed => .leave s
  | .message item w flush => handleMessage s item w flush

def iterate (s : LinkState) (t : Tick τ) : Pass τ :=
  (flushDataAck s false t.flushNow t.flush t.flushSentAt).andThen fun s =>
  (rekeyIfDue s t.rekeyNow t.rekey).andThen fun s =>
  (pingIfDue s t.pingNow t.forced t.ping).andThen fun s =>
  (deliverControl s t.control).andThen fun s => afterWait s t.wake

def LoopEvent.ack? : LoopEvent τ → Option Int
  | .ack w => some w
  | _ => none

def LoopEvent.seq? : LoopEvent τ → Option Int
  | .took item _ => some item.seq
  | _ => none

/-- The messages of a trace arrived with strictly increasing sequence numbers. -/
def Ordered (es : List (LoopEvent τ)) : Prop := (es.filterMap LoopEvent.seq?).Pairwise (· < ·)

instance (es : List (LoopEvent τ)) : Decidable (Ordered es) :=
  inferInstanceAs (Decidable (List.Pairwise _ _))

/-- Every acknowledgement of a trace covers only messages settled for good, at
least one of which it does not exceed, and later ones are larger. -/
structure Honest (es : List (LoopEvent τ)) : Prop where
  covered : ∀ w, .ack w ∈ es → ∀ item o, .took item o ∈ es → item.seq ≤ w → o.terminal = true
  bounded : ∀ w, .ack w ∈ es → ∃ item o, .took item o ∈ es ∧ w ≤ item.seq
  increasing : (es.filterMap LoopEvent.ack?).Pairwise (· < ·)

/-- The watermark variables of a running loop, against what it has done. -/
structure Sound (s : LinkState) (es : List (LoopEvent τ)) : Prop extends Honest es where
  acked : ∀ w, .ack w ∈ es → ∃ a, s.ackedSeq = some a ∧ w ≤ a
  handled : ∀ h, s.handledSeq = some h → ∃ item o, .took item o ∈ es ∧ h ≤ item.seq
  clean : s.ackDataRequested = true → s.ackFrozen = false →
    ∀ item o, .took item o ∈ es → o.terminal = true

/-- A stretch of the loop keeps the watermark sound, whatever came before it. -/
def Keeps (s : LinkState) (p : Pass τ) : Prop :=
  ∀ es, Ordered (es ++ p.events) → Sound s es →
    Honest (es ++ p.events) ∧ (p.running = true → Sound p.link (es ++ p.events))

variable {es : List (LoopEvent τ)}

theorem Ordered.left {fs : List (LoopEvent τ)} (h : Ordered (es ++ fs)) : Ordered es := by
  rw [Ordered,filterMap_append] at h
  exact (pairwise_append.mp h).1

variable {item : Item τ} {o : Outcome}

theorem Ordered.lt {item' : Item τ} {o' : Outcome}
    (h : Ordered (es ++ [.took item o])) (hm : .took item' o' ∈ es) : item'.seq < item.seq := by
  rw [Ordered,filterMap_append] at h
  exact (pairwise_append.mp h).2.2 _ (mem_filterMap.mpr ⟨_,hm,rfl⟩) _ (by simp [LoopEvent.seq?])

variable {s : LinkState}

theorem Keeps.andThen {p : Pass τ} {k : LinkState → Pass τ} (hp : Keeps s p)
    (hk : ∀ s', Keeps s' (k s')) : Keeps s (p.andThen k) := by
  intro es ho hs
  unfold Pass.andThen at ho ⊢
  split at ho
  · rename_i hr
    rw [if_pos hr]
    simp only [← append_assoc] at ho ⊢
    exact hk p.link _ ho ((hp es ho.left hs).2 hr)
  · rename_i hr
    rw [if_neg hr]
    exact hp es ho hs

theorem keeps_next (s : LinkState) : Keeps s (Pass.next s : Pass τ) := by
  intro es _ hs
  simp only [Pass.next,append_nil]
  exact ⟨hs.toHonest,fun _ => hs⟩

theorem keeps_leave (s : LinkState) : Keeps s (Pass.leave s : Pass τ) := by
  intro es _ hs
  simp only [Pass.leave,append_nil]
  exact ⟨hs.toHonest,nofun⟩

structure SameMark (s t : LinkState) : Prop where
  requested : t.ackDataRequested = s.ackDataRequested
  handled : t.handledSeq = s.handledSeq
  acked : t.ackedSeq = s.ackedSeq
  frozen : t.ackFrozen = s.ackFrozen

theorem SameMark.refl (s : LinkState) : SameMark s s := ⟨rfl,rfl,rfl,rfl⟩

theorem Honest.sent {es : List (LoopEvent τ)} (h : Honest es) (type : String) :
    Honest (es ++ [.sent type]) := by
  have hack (w : Int) (hm : .ack w ∈ es ++ [.sent type]) : .ack w ∈ es := by simpa using hm
  have htook (item : Item τ) (o : Outcome) (hm : .took item o ∈ es ++ [.sent type]) :
      .took item o ∈ es := by simpa using hm
  refine ⟨?_,?_,?_⟩
  · exact fun w hw item o hm => h.covered w (hack w hw) item o (htook item o hm)
  · intro w hw
    obtain ⟨item,o,hm,hle⟩ := h.bounded w (hack w hw)
    exact ⟨item,o,mem_append_left _ hm,hle⟩
  · have hnone : ([.sent type] : List (LoopEvent τ)).filterMap LoopEvent.ack? = [] := rfl
    rw [filterMap_append,hnone,append_nil]
    exact h.increasing

theorem Sound.sent {s t : LinkState} {es : List (LoopEvent τ)} (h : Sound s es) (hm : SameMark s t)
    (type : String) : Sound t (es ++ [.sent type]) := by
  refine ⟨h.toHonest.sent type,?_,?_,?_⟩
  · intro w hw
    rw [hm.acked]
    exact h.acked w (by simpa using hw)
  · intro w hw
    obtain ⟨item,o,ht,hle⟩ := h.handled w (hm.handled ▸ hw)
    exact ⟨item,o,mem_append_left _ ht,hle⟩
  · intro hr hf item o ht
    exact h.clean (hm.requested ▸ hr) (hm.frozen ▸ hf) item o (by simpa using ht)

theorem keeps_sendOther {after : LinkState} (hm : SameMark s after) (type : String)
    (send : SendResult) : Keeps s (sendOther s after type send : Pass τ) := by
  intro es _ hs
  cases send with
  | ok => exact ⟨hs.toHonest.sent type,fun _ => hs.sent hm type⟩
  | raised reached =>
    cases reached with
    | false => exact ⟨by simpa [sendOther] using hs.toHonest,nofun⟩
    | true => exact ⟨hs.toHonest.sent type,nofun⟩

theorem Sound.ack {s : LinkState} {es : List (LoopEvent τ)} {w : Int} (h : Sound s es)
    (hw : s.handledSeq = some w) (hr : s.ackDataRequested = true) (hf : s.ackFrozen = false)
    (hnew : ∀ a, s.ackedSeq = some a → a < w) : Honest (es ++ [.ack w]) := by
  have htook (item : Item τ) (o : Outcome) (hm : .took item o ∈ es ++ [.ack w]) :
      .took item o ∈ es := by simpa using hm
  have hold (v : Int) (hv : .ack v ∈ es) : v < w := by
    obtain ⟨a,ha,hle⟩ := h.acked v hv
    exact Int.lt_of_le_of_lt hle (hnew a ha)
  refine ⟨?_,?_,?_⟩
  · exact fun _ _ item o hm _ => h.clean hr hf item o (htook item o hm)
  · intro v hv
    have hb : ∃ item o, .took item o ∈ es ∧ v ≤ item.seq := by
      rcases mem_append.mp hv with hv | hv
      · exact h.bounded v hv
      · obtain rfl : v = w := by simpa using hv
        exact h.handled v hw
    obtain ⟨item,o,hm,hle⟩ := hb
    exact ⟨item,o,mem_append_left _ hm,hle⟩
  · rw [filterMap_append,pairwise_append]
    refine ⟨h.increasing,by simp [LoopEvent.ack?],?_⟩
    intro v hv u hu
    obtain ⟨e,he,hev⟩ := mem_filterMap.mp hv
    obtain rfl : u = w := by simpa [LoopEvent.ack?] using hu
    cases e with
    | ack v' =>
      obtain rfl : v' = v := by simpa [LoopEvent.ack?] using hev
      exact hold v' he
    | _ => simp [LoopEvent.ack?] at hev

theorem keeps_flushDataAck (s : LinkState) (force : Bool) (now : Int) (send : SendResult)
    (sentAt : Int) : Keeps s (flushDataAck s force now send sentAt : Pass τ) := by
  unfold flushDataAck
  split
  · exact keeps_next s
  · rename_i w hw
    split
    · exact keeps_next s
    · rename_i hopen
      split
      · exact keeps_next s
      · rename_i hnew
        split
        · exact keeps_next s
        · obtain ⟨hr,hf⟩ : s.ackDataRequested = true ∧ s.ackFrozen = false := by
            simpa using hopen
          have hlt : ∀ a, s.ackedSeq = some a → a < w := by
            intro a ha
            simpa [ha] using hnew
          intro es _ hs
          have hack := hs.ack hw hr hf hlt
          cases send with
          | ok =>
            refine ⟨hack,fun _ => ⟨hack,?_,?_,?_⟩⟩
            · intro v hv
              refine ⟨w,rfl,?_⟩
              rcases mem_append.mp hv with hv | hv
              · obtain ⟨a,ha,hle⟩ := hs.acked v hv
                exact Int.le_of_lt (Int.lt_of_le_of_lt hle (hlt a ha))
              · have : v = w := by simpa using hv
                omega
            · intro h hh
              obtain ⟨item,o,hm,hle⟩ := hs.handled h hh
              exact ⟨item,o,mem_append_left _ hm,hle⟩
            · exact fun hr hf item o hm => hs.clean hr hf item o (by simpa using hm)
          | raised reached =>
            cases reached with
            | false => exact ⟨by simpa using hs.toHonest,nofun⟩
            | true => exact ⟨hack,nofun⟩

theorem Honest.took (h : Honest es)
    (ho : Ordered (es ++ [.took item o])) : Honest (es ++ [.took item o]) := by
  have hack (w : Int) (hm : .ack w ∈ es ++ [.took item o]) : .ack w ∈ es := by simpa using hm
  refine ⟨?_,?_,?_⟩
  · intro w hw item' o' hm hle
    rcases mem_append.mp hm with hm | hm
    · exact h.covered w (hack w hw) item' o' hm hle
    · obtain ⟨rfl,rfl⟩ : item' = item ∧ o' = o := by simpa using hm
      obtain ⟨prev,p,hp,hb⟩ := h.bounded w (hack w hw)
      have := ho.lt hp
      omega
  · intro w hw
    obtain ⟨item',o',hm,hle⟩ := h.bounded w (hack w hw)
    exact ⟨item',o',mem_append_left _ hm,hle⟩
  · have hnone : ([.took item o] : List (LoopEvent τ)).filterMap LoopEvent.ack? = [] := rfl
    rw [filterMap_append,hnone,append_nil]
    exact h.increasing

/-- How a running loop may leave the link after taking `item`: it settled it for
good, or acknowledges nothing any more. -/
structure Settles (s t : LinkState) (item : Item τ) (o : Outcome) : Prop where
  requested : t.ackDataRequested = s.ackDataRequested
  acked : t.ackedSeq = s.ackedSeq
  handled : t.handledSeq = s.handledSeq ∨ t.handledSeq = some item.seq
  clean : t.ackDataRequested = true → t.ackFrozen = false →
    s.ackFrozen = false ∧ o.terminal = true

theorem Sound.took {t : LinkState}
    (h : Sound s es) (ho : Ordered (es ++ [.took item o])) (hs : Settles s t item o) :
    Sound t (es ++ [.took item o]) := by
  refine ⟨h.toHonest.took ho,?_,?_,?_⟩
  · intro w hw
    rw [hs.acked]
    exact h.acked w (by simpa using hw)
  · intro w hw
    rcases hs.handled with he | he
    · obtain ⟨item',o',hm,hle⟩ := h.handled w (he ▸ hw)
      exact ⟨item',o',mem_append_left _ hm,hle⟩
    · obtain rfl : item.seq = w := Option.some.inj (he.symm.trans hw)
      exact ⟨item,o,mem_append_right _ (mem_singleton.mpr rfl),Int.le_refl _⟩
  · intro hr hf item' o' hm
    obtain ⟨hfs,ht⟩ := hs.clean hr hf
    rcases mem_append.mp hm with hm | hm
    · exact h.clean (hs.requested ▸ hr) hfs item' o' hm
    · obtain ⟨rfl,rfl⟩ : item' = item ∧ o' = o := by simpa using hm
      exact ht

theorem keeps_took {t : LinkState} (hs : Settles s t item o) :
    Keeps s (⟨t,[.took item o],true⟩ : Pass τ) :=
  fun _ ho h => ⟨h.toHonest.took ho,fun _ => h.took ho hs⟩

theorem keeps_stopped (s t : LinkState) (item : Item τ) (o : Outcome) :
    Keeps s (⟨t,[.took item o],false⟩ : Pass τ) :=
  fun _ ho h => ⟨h.toHonest.took ho,nofun⟩

theorem settles_noteHandled {u : LinkState} (hu : SameMark s u)
    (ho : o.terminal = true) : Settles s (u.noteHandled item.seq) item o := by
  unfold LinkState.noteHandled
  split
  · exact ⟨hu.requested,hu.acked,.inl hu.handled,fun _ hf => ⟨hu.frozen ▸ hf,ho⟩⟩
  · exact ⟨hu.requested,hu.acked,.inr rfl,fun _ hf => ⟨hu.frozen ▸ hf,ho⟩⟩

theorem settles_freeze (s : LinkState) (item : Item τ) (o : Outcome) : Settles s s.freeze item o := by
  unfold LinkState.freeze
  split
  · exact ⟨rfl,rfl,.inl rfl,nofun⟩
  · rename_i hno
    exact ⟨rfl,rfl,.inl rfl,fun hr hf => absurd ⟨hr,by simp [hf]⟩ hno⟩

theorem receiveFrameReceipt_seq (lastSeq : Option Int) (item : Item τ) :
    (∀ f, (receiveFrameReceipt lastSeq item.candidate).1.frame = some f → f.seq = item.seq) ∧
    (∀ q, (receiveFrameReceipt lastSeq item.candidate).1.terminalSeq = some q → q = item.seq) := by
  cases hc : item.candidate with
  | none => simp [receiveFrameReceipt]
  | some f =>
    have hf : f.seq = item.seq := by
      unfold Item.candidate at hc
      split at hc
      · obtain rfl := Option.some.inj hc
        rfl
      · exact nomatch hc
    simp only [receiveFrameReceipt]
    split
    · refine ⟨nofun,fun q hq => ?_⟩
      split at hq
      · exact (Option.some.inj hq).symm.trans hf
      · exact nomatch hq
    · split
      · exact ⟨nofun,nofun⟩
      · split
        · exact ⟨nofun,nofun⟩
        · split
          · exact ⟨nofun,fun q hq => (Option.some.inj hq).symm.trans hf⟩
          · exact ⟨fun g hg => (congrArg AgentFrame.seq (Option.some.inj hg)).symm.trans hf,nofun⟩

theorem keeps_handleRejected (s : LinkState) (item : Item τ) (w : World) {terminalSeq : Option Int}
    (h : ∀ q, terminalSeq = some q → q = item.seq) : Keeps s (handleRejected s item w terminalSeq) := by
  unfold handleRejected
  split
  · exact keeps_stopped _ _ _ _
  · cases terminalSeq with
    | none => exact keeps_took (settles_freeze s item .malformed)
    | some q =>
      rw [h q rfl]
      exact keeps_took (settles_noteHandled (.refl s) rfl)

theorem dispatchFrame_terminal (w : World) (f : AgentFrame) :
    dispatchFrame w f = .failed ∨ (dispatchFrame w f).terminal = true := by
  unfold dispatchFrame
  split
  · split
    · exact .inl rfl
    · exact .inr rfl
  · split
    · cases w.handler with
      | raised => exact .inl rfl
      | _ => exact .inr rfl
    · exact .inr rfl

theorem keeps_handleAccepted {u : LinkState} (hu : SameMark s u) (item : Item τ) (w : World)
    {f : AgentFrame} (hf : f.seq = item.seq) : Keeps s (handleAccepted u item w f) := by
  have hbeat : SameMark s (if f.type = typeHeartbeat then {u with lastHeartbeatAt := w.now} else u) := by
    split
    · exact ⟨hu.requested,hu.handled,hu.acked,hu.frozen⟩
    · exact hu
  unfold handleAccepted
  simp only
  split
  · exact keeps_stopped _ _ _ _
  · split
    · split
      · rw [hf]
        exact keeps_took (settles_noteHandled hbeat rfl)
      · exact keeps_stopped _ _ _ _
    · split
      · exact keeps_stopped _ _ _ _
      · rename_i hne
        have ht := (dispatchFrame_terminal w f).resolve_left hne
        rw [hf]
        exact keeps_took (settles_noteHandled hbeat ht)

theorem keeps_handleMessage (s : LinkState) (item : Item τ) (w : World) (flush : SendResult) :
    Keeps s (handleMessage s item w flush) := by
  unfold handleMessage
  split
  · exact keeps_took (settles_freeze s item .undecryptable)
  · split
    · exact keeps_stopped _ _ _ _
    · exact Keeps.andThen (keeps_flushDataAck _ _ _ _ _) fun s' => keeps_stopped _ _ _ _
    · obtain ⟨hf,hq⟩ := receiveFrameReceipt_seq s.lastSeq item
      simp only
      split
      · exact keeps_handleRejected s item w hq
      · rename_i f hfr
        refine keeps_handleAccepted ?_ item w (hf f hfr)
        exact ⟨rfl,rfl,rfl,rfl⟩

theorem keeps_afterWait (s : LinkState) (wake : Wake τ) : Keeps s (afterWait s wake) := by
  cases wake with
  | timeout now status flush update =>
    simp only [afterWait]
    split
    · exact keeps_leave s
    · cases status with
      | lookupRaised => exact keeps_leave s
      | inactive => exact Keeps.andThen (keeps_flushDataAck _ _ _ _ _) keeps_leave
      | active =>
        cases update with
        | none => exact keeps_next s
        | some send => exact keeps_sendOther (.refl s) _ send
  | controlOnly => exact keeps_next s
  | closed => exact keeps_leave s
  | message item w flush => exact keeps_handleMessage s item w flush

theorem keeps_deliverControl (s : LinkState) (control : Option ControlFrame) :
    Keeps s (deliverControl s control : Pass τ) := by
  unfold deliverControl
  split
  · exact keeps_next s
  · exact keeps_next s
  · refine Keeps.andThen (keeps_sendOther (.refl s) _ _) fun s' => ?_
    split
    · exact keeps_leave s'
    · exact keeps_next s'

theorem keeps_rekeyIfDue (s : LinkState) (now : Int) (send : SendResult) :
    Keeps s (rekeyIfDue s now send : Pass τ) := by
  unfold rekeyIfDue
  split
  · refine keeps_sendOther ?_ _ send
    exact ⟨rfl,rfl,rfl,rfl⟩
  · exact keeps_next s

theorem keeps_pingIfDue (s : LinkState) (now : Int) (forced send : SendResult) :
    Keeps s (pingIfDue s now forced send : Pass τ) := by
  unfold pingIfDue
  split
  · refine Keeps.andThen (keeps_flushDataAck _ _ _ _ _) fun s' => keeps_sendOther ?_ _ send
    exact ⟨rfl,rfl,rfl,rfl⟩
  · exact keeps_next s

theorem keeps_iterate (s : LinkState) (t : Tick τ) : Keeps s (iterate s t) :=
  Keeps.andThen (keeps_flushDataAck _ _ _ _ _) fun _ =>
  Keeps.andThen (keeps_rekeyIfDue _ _ _) fun _ =>
  Keeps.andThen (keeps_pingIfDue _ _ _ _) fun _ =>
  Keeps.andThen (keeps_deliverControl _ _) fun s => keeps_afterWait s t.wake

/-- One connection: the link, everything its loop has done, and whether it runs. -/
structure Connection (τ : Type) where
  link : LinkState
  trace : List (LoopEvent τ)
  running : Bool
  deriving DecidableEq

def Connection.opened (ackDataRequested : Bool) (rekeyInterval now : Int) : Connection τ :=
  ⟨.opened ackDataRequested rekeyInterval now,[],true⟩

def Connection.iterate (c : Connection τ) (t : Tick τ) : Connection τ :=
  let p := AgentLink.iterate c.link t
  ⟨p.link,c.trace ++ p.events,p.running⟩

def LoopStep (c : Connection τ) (t : Tick τ) (c' : Connection τ) : Prop :=
  c.running = true ∧ c' = c.iterate t

/-- What every reachable connection satisfies as long as its messages are in order. -/
def Connection.Good (c : Connection τ) : Prop :=
  Ordered c.trace → Honest c.trace ∧ (c.running = true → Sound c.link c.trace)

theorem good_opened (ackDataRequested : Bool) (rekeyInterval now : Int) :
    (Connection.opened ackDataRequested rekeyInterval now : Connection τ).Good := by
  have h : Honest ([] : List (LoopEvent τ)) := ⟨by simp,by simp,.nil⟩
  exact fun _ => ⟨h,fun _ => ⟨h,by simp [Connection.opened],nofun,by simp [Connection.opened]⟩⟩

theorem good_iterate {c : Connection τ} (h : c.Good) (hr : c.running = true) (t : Tick τ) :
    (c.iterate t).Good :=
  fun ho => keeps_iterate c.link t c.trace ho ((h ho.left).2 hr)

def Tick.smooth (now : Int) (wake : Wake τ) : Tick τ :=
  ⟨now,.ok,now,now,.ok,now,.ok,.ok,none,wake⟩

def World.willing (now : Int) : World := ⟨.active,false,true,.stored,false,true,now⟩

end CircuitBreaker.AgentLink
