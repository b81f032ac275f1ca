import CircuitBreaker.StepRuns
import Mathlib.Data.List.Count
import Mathlib.Data.List.Nodup

/-! The publish buffer of the NATS client (core/nats_client.py): what is published while there is no
connection waits in a bounded deque, which is flushed after a reconnect. -/

namespace CircuitBreaker.PublishBuffer
open StepRuns List

structure Message where
  number : Nat
  subject : String
  data : List UInt8
  deriving DecidableEq

def maxlen : Nat := 200

structure Client where
  connected : Bool := false
  /-- `_nc` is not None -/
  nc : Bool := false
  buffer : List Message := []
  dropped : Nat := 0
  sending : List Message := []
  flushing : List Message := []
  /-- all that was published; this and the next two are kept for the statements and read by nothing -/
  published : List Message := []
  handed : List Message := []
  flushed : List Message := []

/-- `append` of a full deque discards at the other end. -/
def append (buffer : List Message) (m : Message) : List Message :=
  (if buffer.length = maxlen then buffer.tail else buffer)++[m]

namespace Client
variable (c : Client)

def live : Bool := c.connected && c.nc

def message (subject : String) (data : List UInt8) : Message := ⟨c.published.length,subject,data⟩

/-- `publish`, up to where it returns or awaits. -/
def publish (m : Message) : Client :=
  if c.live then
    { c with
      sending := c.sending++[m]
      published := c.published++[m] }
  else
    { c with
      dropped := if c.buffer.length = maxlen then c.dropped+1 else c.dropped
      buffer := append c.buffer m
      published := c.published++[m] }

def sent (m : Message) : Client :=
  { c with
    sending := c.sending.erase m
    handed := c.handed++[m] }

def sendFailed (m : Message) : Client :=
  { c with
    sending := c.sending.erase m
    buffer := append c.buffer m }

def flush : Client :=
  match c.buffer with
  | [] => c
  | m::rest =>
    if c.live then
      { c with
        buffer := rest
        flushing := c.flushing++[m]
        flushed := c.flushed++[m] }
    else c

def flushSent (m : Message) : Client :=
  { c with
    flushing := c.flushing.erase m
    handed := c.handed++[m] }.flush

def flushFailed (m : Message) : Client := { c with flushing := c.flushing.erase m }

end Client

inductive Act where
  | publish (subject : String) (data : List UInt8)
  | sent (m : Message)
  | sendFailed (m : Message)
  | onDisconnected
  | onReconnected
  | connect (succeeds : Bool)
  | disconnect
  | flush
  | flushSent (m : Message)
  | flushFailed (m : Message)

inductive Step : Client → Act → Client → Prop where
  | publish (c : Client) (subject : String) (data : List UInt8) :
      Step c (.publish subject data) (c.publish (c.message subject data))
  | sent {c : Client} {m : Message} : m ∈ c.sending → Step c (.sent m) (c.sent m)
  | sendFailed {c : Client} {m : Message} : m ∈ c.sending → Step c (.sendFailed m) (c.sendFailed m)
  | onDisconnected (c : Client) : Step c .onDisconnected { c with connected := false }
  | onReconnected (c : Client) : Step c .onReconnected { c with connected := true }
  | connect (c : Client) (succeeds : Bool) :
      Step c (.connect succeeds)
        { c with
          connected := succeeds
          nc := c.nc || succeeds }
  | disconnect (c : Client) :
      Step c .disconnect
        { c with
          connected := false
          nc := false }
  | flush (c : Client) : Step c .flush c.flush
  | flushSent {c : Client} {m : Message} : m ∈ c.flushing → Step c (.flushSent m) (c.flushSent m)
  | flushFailed {c : Client} {m : Message} :
      m ∈ c.flushing → Step c (.flushFailed m) (c.flushFailed m)

def Quiescent (c : Client) : Prop := c.sending = [] ∧ c.flushing = []

/-- A published message is handed to the connection, in the buffer, or counted as dropped, and of what
was flushed the earlier is handed over first. -/
structure Accounted (c : Client) : Prop where
  apart : ∀ m ∈ c.handed, m ∉ c.buffer
  counted : (c.published.countP fun m => m ∉ c.handed ∧ m ∉ c.buffer) = c.dropped
  order : (c.flushed.filter (· ∈ c.handed)).Pairwise fun m m' => m.number < m'.number

/-- No flush loses what it took; a send fails only where the buffer has room and holds, and has given
to a flush, nothing that was published later. -/
def Meets (c : Client) : Act → Prop
  | .sendFailed m => c.buffer.length < maxlen ∧
      ∀ k ∈ c.flushed++c.buffer, k.number < m.number
  | .flushFailed _ => False
  | _ => True

/-! What holds between the steps. -/

def Client.places (c : Client) : List Message := c.handed++c.buffer++c.sending++c.flushing

structure Sound (c : Client) : Prop where
  numbered : c.published.map (·.number) = List.range c.published.length
  inside : ∀ m ∈ c.places, m ∈ c.published
  nodup : c.places.Nodup
  total : c.published.length = c.places.length+c.dropped
  order : (c.flushed++c.buffer).Pairwise fun m m' => m.number < m'.number
  older : ∀ m ∈ c.flushed, m ∈ c.published

section
variable {c : Client}

theorem Sound.below (h : Sound c) {m : Message} (hm : m ∈ c.published) :
    m.number < c.published.length := by
  have mem : m.number ∈ c.published.map (·.number) := mem_map_of_mem hm
  rw [h.numbered] at mem
  exact mem_range.1 mem

theorem Sound.moved {d : Client} (h : Sound c) (published : d.published = c.published)
    (places : d.places.Perm c.places) (dropped : d.dropped = c.dropped)
    (order : (d.flushed++d.buffer).Pairwise fun m m' => m.number < m'.number)
    (older : ∀ m ∈ d.flushed, m ∈ c.published) : Sound d where
  numbered := published ▸ h.numbered
  inside m hm := published ▸ h.inside m (places.subset hm)
  nodup := places.nodup_iff.2 h.nodup
  total := by rw [published,places.length_eq,dropped,h.total]
  order := order
  older m hm := published ▸ older m hm

theorem places_perm {d : Client} (h : ∀ m, d.handed.count m+d.buffer.count m+d.sending.count m+
    d.flushing.count m = c.handed.count m+c.buffer.count m+c.sending.count m+c.flushing.count m) :
    d.places.Perm c.places := by
  refine perm_iff_count.2 fun m => ?_
  simp only [Client.places,count_append]
  exact h m

theorem count_head (m : Message) (l : List Message) (k : Message) :
    (m::l).count k = [m].count k+l.count k := by
  rw [←singleton_append,count_append]

theorem count_moved {l : List Message} {m : Message} (hm : m ∈ l) (k : Message) :
    l.count k = (l.erase m).count k+[m].count k := by
  rw [(perm_cons_erase hm).count_eq,count_head,Nat.add_comm]

theorem Sound.sent (h : Sound c) {m : Message} (hm : m ∈ c.sending) : Sound (c.sent m) := by
  refine h.moved rfl (places_perm fun k => ?_) rfl h.order h.older
  have moved := count_moved hm k
  simp only [Client.sent,count_append]
  omega

theorem Sound.buffered (h : Sound c) {m : Message} (hm : m ∈ c.buffer) : m ∈ c.published :=
  h.inside m (by simp [Client.places,hm])

theorem Sound.flush (h : Sound c) : Sound c.flush := by
  rw [Client.flush]
  cases hb : c.buffer with
  | nil => exact h
  | cons m rest =>
    show Sound (if c.live then _ else c)
    split
    · refine h.moved rfl (places_perm fun k => ?_) rfl ?_ fun k hk => ?_
      · rw [hb,count_head m rest]
        simp only [count_append]
        omega
      · have order := h.order
        rw [hb] at order
        simpa using order
      · rcases mem_append.1 hk with hk | hk
        · exact h.older k hk
        · rw [mem_singleton.1 hk]
          exact h.buffered (hb ▸ mem_cons_self)
    · exact h

theorem Sound.flushSent (h : Sound c) {m : Message} (hm : m ∈ c.flushing) :
    Sound (c.flushSent m) := by
  refine Sound.flush (h.moved rfl (places_perm fun k => ?_) rfl h.order h.older)
  have moved := count_moved hm k
  simp only [count_append]
  omega

theorem Sound.flags (h : Sound c) (connected nc : Bool) :
    Sound { c with
      connected := connected
      nc := nc } :=
  h.moved rfl (.refl _) rfl h.order h.older

theorem ordered_snoc {l : List Message} {m : Message}
    (order : l.Pairwise fun m m' => m.number < m'.number) (newest : ∀ k ∈ l, k.number < m.number) :
    (l++[m]).Pairwise fun m m' => m.number < m'.number := by
  refine pairwise_append.2 ⟨order,pairwise_singleton _ _,fun k hk m' hm => ?_⟩
  rw [mem_singleton.1 hm]
  exact newest k hk

theorem Sound.sendFailed (h : Sound c) {m : Message} (hm : m ∈ c.sending)
    (room : c.buffer.length < maxlen) (older : ∀ k ∈ c.flushed++c.buffer, k.number < m.number) :
    Sound (c.sendFailed m) := by
  have appended : append c.buffer m = c.buffer++[m] := by
    rw [append,if_neg (Nat.ne_of_lt room)]
  refine h.moved rfl (places_perm fun k => ?_) rfl ?_ h.older
  · have moved := count_moved hm k
    simp only [Client.sendFailed,appended,count_append]
    omega
  · rw [Client.sendFailed,appended,←append_assoc]
    exact ordered_snoc h.order older

theorem Sound.added {d : Client} (h : Sound c) {m : Message} (new : m.number = c.published.length)
    {lost : List Message} (published : d.published = c.published++[m])
    (places : (d.places++lost).Perm (m::c.places)) (dropped : d.dropped = c.dropped+lost.length)
    (order : (d.flushed++d.buffer).Pairwise fun m m' => m.number < m'.number)
    (older : d.flushed = c.flushed) : Sound d := by
  have fresh : m ∉ c.places := fun there => by
    have below := h.below (h.inside m there)
    omega
  have nodup := places.nodup_iff.2 (nodup_cons.2 ⟨fresh,h.nodup⟩)
  have count := places.length_eq
  have total := h.total
  rw [length_append,length_cons] at count
  refine ⟨?_,fun k hk => ?_,(nodup_append.1 nodup).1,?_,order,fun k hk => ?_⟩
  · rw [published,map_append,h.numbered,length_append,length_singleton,
      range_succ,map_singleton,new]
  · rw [published]
    rcases mem_cons.1 (places.subset (mem_append_left _ hk)) with rfl | hk
    · exact mem_append_right _ (mem_singleton_self k)
    · exact mem_append_left _ (h.inside k hk)
  · rw [published,length_append,length_singleton,dropped]
    omega
  · rw [published]
    exact mem_append_left _ (h.older k (older ▸ hk))

theorem Sound.publish (h : Sound c) {m : Message} (new : m.number = c.published.length) :
    Sound (c.publish m) := by
  have newest : ∀ k ∈ c.flushed++c.buffer, k.number < m.number := fun k hk => by
    rw [new]
    rcases mem_append.1 hk with hk | hk
    · exact h.below (h.older k hk)
    · exact h.below (h.buffered hk)
  rw [Client.publish]
  by_cases live : c.live = true
  · rw [if_pos live]
    refine @Sound.added c _ h m new [] rfl (perm_iff_count.2 fun k => ?_) rfl h.order rfl
    rw [count_head m c.places]
    simp only [Client.places,count_append,count_nil]
    omega
  rw [if_neg live]
  by_cases full : c.buffer.length = maxlen
  · cases hb : c.buffer with
    | nil =>
      rw [hb] at full
      cases full
    | cons oldest rest =>
      have appended : append c.buffer m = rest++[m] := by rw [append,if_pos full,hb]; rfl
      rw [hb] at appended full
      refine @Sound.added c _ h m new [oldest] rfl (perm_iff_count.2 fun k => ?_) ?_ ?_ rfl
      · rw [count_head m c.places]
        simp only [Client.places,appended,hb,count_append]
        rw [count_head oldest rest]
        omega
      · exact if_pos full
      · have order := h.order
        rw [hb] at order newest
        have fewer : (c.flushed++rest).Sublist (c.flushed++oldest::rest) :=
          (List.Sublist.refl _).append (sublist_cons_self _ _)
        rw [appended,←append_assoc]
        exact ordered_snoc (order.sublist fewer) fun k hk => newest k (fewer.subset hk)
  · have appended : append c.buffer m = c.buffer++[m] := by rw [append,if_neg full]
    refine @Sound.added c _ h m new [] rfl (perm_iff_count.2 fun k => ?_) (if_neg full) ?_ rfl
    · rw [count_head m c.places]
      simp only [Client.places,appended,count_append,count_nil]
      omega
    · rw [appended,←append_assoc]
      exact ordered_snoc h.order newest

theorem Sound.step {act : Act} {d : Client} (h : Sound c) (s : Guarded Step Meets c act d) :
    Sound d := by
  obtain ⟨meets,s⟩ := s
  cases s with
  | publish subject data => exact h.publish rfl
  | sent hm => exact h.sent hm
  | sendFailed hm => exact h.sendFailed hm meets.1 meets.2
  | onDisconnected => exact h.flags false c.nc
  | onReconnected => exact h.flags true c.nc
  | connect succeeds => exact h.flags succeeds (c.nc || succeeds)
  | disconnect => exact h.flags false false
  | flush => exact h.flush
  | flushSent hm => exact h.flushSent hm
  | flushFailed hm => exact meets.elim

theorem Sound.accounted (h : Sound c) (quiet : Quiescent c) : Accounted c := by
  have places : c.places = c.handed++c.buffer := by
    rw [Client.places,quiet.1,quiet.2,append_nil,append_nil]
  have nodup := h.nodup
  have total := h.total
  rw [places] at nodup total
  refine ⟨fun m hm hb => (nodup_append.1 nodup).2.2 m hm m hb rfl,?_,?_⟩
  · have distinct : c.published.Nodup := by
      refine List.Nodup.of_map (·.number) ?_
      rw [h.numbered]
      exact nodup_range
    have perm : (c.published.filter (· ∈ c.handed++c.buffer)).Perm (c.handed++c.buffer) := by
      refine (perm_ext_iff_of_nodup (distinct.filter _) nodup).2 fun m => ?_
      rw [mem_filter,decide_eq_true_eq]
      exact ⟨fun there => there.2,fun there => ⟨h.inside m (places ▸ there),there⟩⟩
    have found : c.published.countP (· ∈ c.handed++c.buffer) = (c.handed++c.buffer).length := by
      rw [countP_eq_length_filter,perm.length_eq]
    have whole := c.published.length_eq_countP_add_countP (· ∈ c.handed++c.buffer)
    have others : (c.published.countP fun m => m ∉ c.handed ∧ m ∉ c.buffer) =
        c.published.countP fun m => ¬decide (m ∈ c.handed++c.buffer) = true :=
      countP_congr fun m _ => by simp
    omega
  · exact (h.order.sublist (sublist_append_left _ _)).sublist filter_sublist

theorem initial_sound : Sound {} :=
  ⟨rfl,nofun,nodup_nil,rfl,.nil,nofun⟩

end

/-- In a run whose steps meet the condition, every message is accounted for whenever nothing is under
way. -/
theorem buffer_conserves {acts : List Act} {c : Client} (run : Run (Guarded Step Meets) {} acts c)
    (quiet : Quiescent c) : Accounted c :=
  (run.invariant (fun _ _ _ h s => h.step s) initial_sound).accounted quiet

def alert : Message := ⟨0,"alert.raised",[1]⟩

/-- The connection is lost, a message waits, the connection is back and the buffer flushed. -/
def outage : Client where
  connected := true
  nc := true
  flushing := [alert]
  published := [alert]
  flushed := [alert]

theorem outage_reached : ∃ acts, Run (Guarded Step Meets) {} acts outage := by
  have start : Run (Guarded Step Meets) {} [] {} := .nil _
  have connected := start.also (Step.connect _ true) trivial
  have lost := connected.also (Step.onDisconnected _) trivial
  have waiting := lost.also (Step.publish _ "alert.raised" [1]) trivial
  have back := waiting.also (Step.onReconnected _) trivial
  have flushing := back.also (Step.flush _) trivial
  exact ⟨_,flushing⟩

theorem outage_accounted : ∃ acts c, Run (Guarded Step Meets) {} acts c ∧ c.handed = [alert] ∧
    Accounted c := by
  obtain ⟨acts,run⟩ := outage_reached
  have sent := run.also (@Step.flushSent outage alert (by decide)) trivial
  exact ⟨_,_,sent,by decide,buffer_conserves sent ⟨by decide,by decide⟩⟩

/-- The flush's send fails: the message is nowhere. -/
theorem flush_loses : ∃ acts c, Run Step {} acts c ∧ Quiescent c ∧ ¬Accounted c := by
  obtain ⟨acts,run⟩ := outage_reached
  have failed := Run.snoc run.unguarded (@Step.flushFailed outage alert (by decide))
  refine ⟨_,_,failed,⟨by decide,by decide⟩,fun accounted => ?_⟩
  exact absurd accounted.counted (by decide)

end CircuitBreaker.PublishBuffer
