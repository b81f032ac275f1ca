import CircuitBreaker.DiskProgram
import CircuitBreaker.ByteLines

/-! The agent's outbound spool (apps/agent/internal/spool): a bounded queue of data
frames persisted as newline-delimited JSON in `queue.jsonl`, with the number of
delivered leading lines in `queue.head`. -/

namespace CircuitBreaker.SpoolQueue
open DiskProgram ByteLines

/-- What the drop-oldest policy has destroyed. Times are nanoseconds since
Go's zero time, which itself stands for a missing timestamp. -/
structure EvictionStats where
  frames : Nat
  bytes : Int
  oldestDroppedTS : Int
  newestDroppedTS : Int
  lastEvictedAt : Int
  lastDestroyedCause : String
  lastDestroyedReason : String
  deriving DecidableEq

def EvictionStats.empty : EvictionStats := ⟨0,0,0,0,0,"",""⟩

def causeSizeCap : String := "size_cap"
def capEvictionReason : String := "the spool hit its size cap during an outage"

def EvictionStats.widen (e : EvictionStats) (ts : Int) : EvictionStats :=
  if ts = 0 then e else
    let e := if e.oldestDroppedTS = 0 ∨ ts < e.oldestDroppedTS then {e with oldestDroppedTS := ts} else e
    if e.newestDroppedTS = 0 ∨ ts > e.newestDroppedTS then {e with newestDroppedTS := ts} else e

/-- The wire encoding of frames and of the eviction record, as `encoding/json`
gives it: a frame that encodes decodes again, to one with the same encoding; an
encoding is one line of text. -/
structure Codec (F : Type) where
  encode : F → Option Bytes
  decode : Bytes → Option F
  ts : F → Int
  encodeStats : EvictionStats → Bytes
  decodeStats : Bytes → Option EvictionStats
  decode_encode : ∀ f b, encode f = some b → ∃ f', decode b = some f' ∧ encode f' = some b
  newline_free : ∀ f b, encode f = some b → newline ∉ b ∧ b.getLast? ≠ some carriageReturn
  decodeStats_encodeStats : ∀ e, decodeStats (encodeStats e) = some e

inductive File where
  | queue | queueTmp | head | headTmp | evicted | evictedTmp
  deriving DecidableEq

inductive Act where
  | read (f : File)
  | append (f : File) (data : Bytes)
  | write (f : File) (data : Bytes)
  | rename (source target : File)
  | remove (f : File)
  deriving DecidableEq

inductive Answer where
  | ok
  | missing
  | content (data : Bytes)
  | failed
  deriving DecidableEq

abbrev Disk := File → Option Bytes

def Disk.empty : Disk := fun _ => none

def Disk.set (d : Disk) (f : File) (c : Option Bytes) : Disk := fun g => if g = f then c else d g

@[simp] theorem Disk.set_same (d : Disk) (f : File) (c : Option Bytes) : d.set f c f = c := by
  simp [Disk.set]

@[simp] theorem Disk.set_other (d : Disk) {f g : File} (c : Option Bytes) (h : g ≠ f) :
    d.set f c g = d g := by simp [Disk.set,h]

def File.all : List File := [.queue,.queueTmp,.head,.headTmp,.evicted,.evictedTmp]

instance : DecidableEq Disk := fun d d' =>
  decidable_of_iff (∀ f ∈ File.all, d f = d' f)
    ⟨fun h => funext fun f => h f (by cases f <;> simp [File.all]),fun h f _ => congrFun h f⟩

def device : Act → Disk → Answer × Disk
  | .read f, d => (match d f with | none => .missing | some c => .content c, d)
  | .append f data, d => (.ok, d.set f (some ((d f).getD [] ++ data)))
  | .write f data, d => (.ok, d.set f (some data))
  | .rename source target, d => (.ok, (d.set target (d source)).set source none)
  | .remove f, d => (if d f = none then .missing else .ok, d.set f none)

inductive SpoolError where
  | encode
  | tooLong
  | badEvictions
  | io (a : Act)
  deriving DecidableEq

/-- One queued frame and the length of its line in queue.jsonl, newline included. -/
structure Entry (F : Type) where
  f : F
  n : Int
  deriving DecidableEq

/-- `entries.take head` is delivered and awaits compaction, the rest is the live
backlog; `origin` is the absolute position of the first live frame. -/
structure Spool (F : Type) where
  capBytes : Int
  entries : List (Entry F)
  head : Nat
  origin : Nat
  bytes : Int
  evicted : EvictionStats
  deriving DecidableEq

variable {F : Type}

abbrev SpoolProg (α : Type) := Prog Act Answer α

def Spool.live (s : Spool F) : List (Entry F) := s.entries.drop s.head

def sizeOf (es : List (Entry F)) : Int := (es.map Entry.n).sum

def maxLine : Nat := 1024*1024
def compactHeadThreshold : Nat := 512

def attempt (a : Act) : SpoolProg (Option SpoolError) := do
  match ← perform a with
  | .failed => pure (some (.io a))
  | _ => pure none

def readHeadMarker : SpoolProg (Nat × Bool) := do
  match ← perform (.read .head) with
  | .content data =>
      match atoi (trimSpace data) with
      | some n => pure (if n < 0 then (0,true) else (n.toNat,true))
      | none => pure (0,true)
  | _ => pure (0,false)

def writeHeadMarker (s : Spool F) : SpoolProg (Option SpoolError) := do
  match ← attempt (.write .headTmp (itoa s.head ++ [newline])) with
  | some e => pure (some e)
  | none => attempt (.rename .headTmp .head)

def removeHeadMarker : SpoolProg (Option SpoolError) := attempt (.remove .head)

/-- The lines of the frames, and the entries as rewritten; none when a frame does not encode. -/
def encodeAll (c : Codec F) : List (Entry F) → Option (List Bytes × List (Entry F))
  | [] => some ([],[])
  | e :: es => do
      let data ← c.encode e.f
      let (lines,kept) ← encodeAll c es
      pure (data :: lines,⟨e.f,(data.length : Int)+1⟩ :: kept)

def compactLocked (c : Codec F) (s : Spool F) : SpoolProg (Spool F × Option SpoolError) := do
  match encodeAll c s.live with
  | none =>
      match ← attempt (.write .queueTmp []) with
      | some e => pure (s,some e)
      | none => pure (s,some .encode)
  | some (lines,kept) =>
      match ← attempt (.write .queueTmp (unlines lines)) with
      | some e => pure (s,some e)
      | none =>
          match ← attempt (.rename .queueTmp .queue) with
          | some e => pure (s,some e)
          | none =>
              let err ← removeHeadMarker
              pure ({s with entries := kept, head := 0, bytes := sizeOf kept},err)

/-- The drop-oldest loop over the live backlog: how many frames it drops, the
bytes that stay and the losses of this one call. The newest frame always stays. -/
def evictLoop (c : Codec F) (cap : Int) :
    List (Entry F) → Int → EvictionStats → Nat × Int × EvictionStats
  | dropped :: next :: rest, bytes, batch =>
      if bytes > cap then
        let (k,bytes',batch') := evictLoop c cap (next :: rest) (bytes-dropped.n)
          ({batch with frames := batch.frames+1, bytes := batch.bytes+dropped.n}.widen (c.ts dropped.f))
        (k+1,bytes',batch')
      else (0,bytes,batch)
  | _, bytes, batch => (0,bytes,batch)

def EvictionStats.absorb (e batch : EvictionStats) (now : Int) : EvictionStats :=
  let e := {e with frames := e.frames+batch.frames, bytes := e.bytes+batch.bytes}
  let e := (e.widen batch.oldestDroppedTS).widen batch.newestDroppedTS
  { e with
    lastEvictedAt := now
    lastDestroyedCause := causeSizeCap
    lastDestroyedReason := capEvictionReason }

def persistEvictionsLocked (c : Codec F) (s : Spool F) : SpoolProg (Option SpoolError) := do
  match ← attempt (.write .evictedTmp (c.encodeStats s.evicted)) with
  | some e => pure (some e)
  | none => attempt (.rename .evictedTmp .evicted)

def Spool.push (s : Spool F) (f : F) (data : Bytes) : Spool F :=
  {s with entries := s.entries ++ [⟨f,(data.length : Int)+1⟩], bytes := s.bytes+((data.length : Int)+1)}

/-- The state after the eviction loop dropped `r.1` frames. -/
def Spool.dropOldest (s : Spool F) (r : Nat × Int × EvictionStats) (now : Int) : Spool F :=
  { s with
    head := s.head+r.1
    origin := s.origin+r.1
    bytes := r.2.1
    evicted := s.evicted.absorb r.2.2 now }

/-- What Enqueue does once the line is appended: nothing more under the cap; else
the losses are recorded and the queue rewritten. A record that cannot be written
is only logged. -/
def makeRoom (c : Codec F) (s : Spool F) (now : Int) : SpoolProg (Spool F × Option SpoolError) := do
  let r := evictLoop c s.capBytes s.live s.bytes .empty
  if r.1 = 0 then pure (s,none)
  else
    let s := s.dropOldest r now
    let _ ← persistEvictionsLocked c s
    compactLocked c s

def enqueue (c : Codec F) (s : Spool F) (f : F) (now : Int) : SpoolProg (Spool F × Option SpoolError) := do
  match c.encode f with
  | none => pure (s,some .encode)
  | some data =>
      match ← attempt (.append .queue (data ++ [newline])) with
      | some e => pure (s,some e)
      | none => makeRoom c (s.push f data) now

/-- Frames from the front of a backlog within both budgets; the first is taken
whatever its size. -/
def takeFrames (maxFrames : Nat) (maxBytes : Int) : Nat → Int → List (Entry F) → List F
  | _, _, [] => []
  | taken, total, e :: es =>
      if taken = maxFrames then []
      else if taken > 0 ∧ total+e.n > maxBytes then []
      else e.f :: takeFrames maxFrames maxBytes (taken+1) (total+e.n) es

def peekLocked (s : Spool F) (skip : Nat) (maxFrames maxBytes : Int) : List F :=
  if maxFrames ≤ 0 then []
  else takeFrames maxFrames.toNat maxBytes 0 0 (s.live.drop skip)

structure PeekResult (F : Type) where
  frames : List F
  start : Nat
  origin : Nat

def peekAt (s : Spool F) (fromPos maxFrames maxBytes : Int) : PeekResult F :=
  let skip := if fromPos > s.origin then (fromPos-s.origin).toNat else 0
  ⟨peekLocked s skip maxFrames maxBytes,s.origin+skip,s.origin⟩

/-- The state with the first `n` live frames discarded. -/
def Spool.consume (s : Spool F) (n : Nat) : Spool F :=
  {s with head := s.head+n, origin := s.origin+n, bytes := s.bytes-sizeOf (s.live.take n)}

def consumedBytesLocked (s : Spool F) : Int := sizeOf (s.entries.take s.head)

def commitLocked (c : Codec F) (s : Spool F) (n : Int) : SpoolProg (Spool F × Option SpoolError) := do
  let n := min n.toNat s.live.length
  if n = 0 then pure (s,none)
  else
    let s := s.consume n
    if s.head ≥ compactHeadThreshold ∨ consumedBytesLocked s > s.capBytes.tdiv 4 then
      compactLocked c s
    else
      let err ← writeHeadMarker s
      pure (s,err)

def commitThrough (c : Codec F) (s : Spool F) (pos : Int) : SpoolProg (Spool F × Option SpoolError) :=
  if pos < s.origin then pure (s,none) else commitLocked c s (pos-s.origin+1)

def decodeLines (c : Codec F) : List Bytes → List (Entry F) × Bool
  | [] => ([],false)
  | line :: rest =>
      let (es,torn) := decodeLines c rest
      match c.decode line with
      | none => (es,true)
      | some f => (⟨f,(line.length : Int)+1⟩ :: es,torn)

def loadEvictions (c : Codec F) : SpoolProg (Except SpoolError EvictionStats) := do
  match ← perform (.read .evicted) with
  | .missing => pure (.ok .empty)
  | .content data =>
      match c.decodeStats data with
      | none => pure (.error .badEvictions)
      | some e => pure (.ok e)
  | _ => pure (.error (.io (.read .evicted)))

/-- The state and error of a step, as the result of `load`. -/
def orError (s : Spool F) (err : Option SpoolError) : Except SpoolError (Spool F) :=
  match err with
  | some e => .error e
  | none => .ok s

def load (c : Codec F) (s : Spool F) : SpoolProg (Except SpoolError (Spool F)) := do
  let (persistedHead,markerPresent) ← readHeadMarker
  match ← perform (.read .queue) with
  | .missing =>
      if markerPresent then
        let err ← removeHeadMarker
        pure (orError s err)
      else pure (.ok s)
  | .content data =>
      match scanLines maxLine data with
      | none => pure (.error .tooLong)
      | some lines =>
          let (entries,torn) := decodeLines c lines
          let head := min persistedHead entries.length
          let s := {s with entries := entries, head := head, bytes := sizeOf (entries.drop head)}
          if head > 0 ∨ torn then
            let (s,err) ← compactLocked c s
            pure (orError s err)
          else if markerPresent then
            let err ← removeHeadMarker
            pure (orError s err)
          else pure (.ok s)
  | _ => pure (.error (.io (.read .queue)))

/-- `Open` on a state directory that exists. -/
def openSpool (c : Codec F) (capBytes : Int) : SpoolProg (Except SpoolError (Spool F)) := do
  match ← loadEvictions c with
  | .error e => pure (.error e)
  | .ok evicted => load c ⟨capBytes,[],0,0,0,evicted⟩

end CircuitBreaker.SpoolQueue
