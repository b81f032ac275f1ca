import Mathlib.Data.List.Basic
import Mathlib.Data.List.TakeWhile
import Mathlib.Algebra.Ring.Int.Defs

/-! The agent's window of data frames on the wire (internal/link/outbound.go,
dataFrameSender with `data.ack` negotiated). Times are microseconds. -/

namespace CircuitBreaker.AgentLink
open List

/-- One data frame written and not yet acknowledged: the sequence number of this
connection, its size on the wire and its absolute position in the spool. -/
structure InflightFrame where
  seq : Nat
  bytes : Int
  pos : Nat
  deriving DecidableEq

/-- `unackedSince` is none when no unacknowledged stretch is running. -/
structure DataFrameSender where
  inflight : List InflightFrame
  inflightBytes : Int
  unackedSince : Option Int
  deriving DecidableEq

def DataFrameSender.idle : DataFrameSender := ⟨[],0,none⟩

def maxInflightFrames : Int := 64
def maxInflightBytes : Int := 4*1024*1024
def ackStallMicros : Int := 45000000
def drainFramesPerTick : Int := 4
def drainBytesPerTick : Int := 256*1024

def windowBytes (es : List InflightFrame) : Int := (es.map InflightFrame.bytes).sum

def DataFrameSender.dropEvicted (d : DataFrameSender) (origin : Nat) : DataFrameSender :=
  { d with
    inflight := d.inflight.dropWhile (·.pos < origin)
    inflightBytes := d.inflightBytes-windowBytes (d.inflight.takeWhile (·.pos < origin)) }

def DataFrameSender.ackStalled (d : DataFrameSender) (now : Int) : Bool :=
  d.unackedSince.any fun since => ackStallMicros ≤ now-since

def DataFrameSender.budgetFrames (d : DataFrameSender) : Int :=
  min drainFramesPerTick (maxInflightFrames-d.inflight.length)

def DataFrameSender.budgetBytes (d : DataFrameSender) : Int :=
  min drainBytesPerTick (maxInflightBytes-d.inflightBytes)

def DataFrameSender.nextSendPos (d : DataFrameSender) : Int :=
  match d.inflight.getLast? with
  | some e => (e.pos : Int)+1
  | none => -1

def DataFrameSender.sent (d : DataFrameSender) (e : InflightFrame) (now : Int) : DataFrameSender :=
  ⟨d.inflight ++ [e],d.inflightBytes+e.bytes,some (d.unackedSince.getD now)⟩

def DataFrameSender.released (d : DataFrameSender) (watermark : Nat) : List InflightFrame :=
  d.inflight.takeWhile (·.seq ≤ watermark)

def DataFrameSender.release (d : DataFrameSender) (watermark : Nat) (now : Int) : DataFrameSender :=
  let rest := d.inflight.dropWhile (·.seq ≤ watermark)
  ⟨rest,d.inflightBytes-windowBytes (d.released watermark),if rest = [] then none else some now⟩

def DataFrameSender.through (d : DataFrameSender) (watermark : Nat) : Option Nat :=
  (d.released watermark).getLast?.map InflightFrame.pos

def DataFrameSender.Ascending (d : DataFrameSender) : Prop :=
  d.inflight.Pairwise fun e e' => e.seq < e'.seq ∧ e.pos < e'.pos

variable {e : InflightFrame}

theorem pos_le_getLast {es : List InflightFrame} {l : InflightFrame}
    (ha : es.Pairwise fun e e' => e.seq < e'.seq ∧ e.pos < e'.pos) (hl : es.getLast? = some l)
    (he : e ∈ es) : e.pos ≤ l.pos := by
  obtain ⟨front,rfl⟩ := getLast?_eq_some_iff.mp hl
  rw [mem_append,mem_singleton] at he
  rcases he with he | rfl
  · exact le_of_lt ((pairwise_append.mp ha).2.2 e he l (by simp)).2
  · exact le_rfl

theorem DataFrameSender.dropEvicted_sublist (d : DataFrameSender) (origin : Nat) :
    (d.dropEvicted origin).inflight.Sublist d.inflight :=
  (dropWhile_suffix _).sublist

variable {d : DataFrameSender}

theorem DataFrameSender.mem_dropEvicted {origin : Nat}
    (he : e ∈ d.inflight) (hp : origin ≤ e.pos) : e ∈ (d.dropEvicted origin).inflight := by
  have hsplit := takeWhile_append_dropWhile (p := fun e : InflightFrame => decide (e.pos < origin))
    (l := d.inflight)
  rw [← hsplit,mem_append] at he
  rcases he with he | he
  · have := mem_takeWhile_imp he
    simp only [decide_eq_true_eq] at this
    omega
  · exact he

theorem DataFrameSender.release_sublist (d : DataFrameSender) (watermark : Nat) (now : Int) :
    (d.release watermark now).inflight.Sublist d.inflight :=
  (dropWhile_suffix _).sublist

variable {watermark : Nat}

theorem DataFrameSender.seq_le_of_released (he : e ∈ d.released watermark) : e.seq ≤ watermark := by
  simpa using mem_takeWhile_imp he

theorem DataFrameSender.released_of_pos_le (ha : d.Ascending) {through : Nat}
    (ht : d.through watermark = some through) (he : e ∈ d.inflight)
    (hle : e.pos ≤ through) : e ∈ d.released watermark := by
  obtain ⟨l,hl,rfl⟩ := Option.map_eq_some_iff.mp ht
  have hsplit : d.released watermark ++ d.inflight.dropWhile (·.seq ≤ watermark) = d.inflight :=
    takeWhile_append_dropWhile
  rw [← hsplit,mem_append] at he
  rcases he with he | he
  · exact he
  · rw [Ascending,← hsplit] at ha
    have := (pairwise_append.mp ha).2.2 l (mem_of_getLast? hl) e he
    omega

theorem DataFrameSender.pos_le_through (ha : d.Ascending) {through : Nat}
    (ht : d.through watermark = some through) (he : e ∈ d.released watermark) :
    e.pos ≤ through := by
  obtain ⟨l,hl,rfl⟩ := Option.map_eq_some_iff.mp ht
  exact pos_le_getLast (ha.sublist ( takeWhile_prefix _).sublist) hl he

theorem DataFrameSender.mem_release {now : Int} (he : e ∈ d.inflight) (hn : e ∉ d.released watermark) :
    e ∈ (d.release watermark now).inflight := by
  have hsplit : d.released watermark ++ d.inflight.dropWhile (·.seq ≤ watermark) = d.inflight :=
    takeWhile_append_dropWhile
  rw [← hsplit,mem_append] at he
  exact he.resolve_left hn

end CircuitBreaker.AgentLink
