import CircuitBreaker.StepRuns

/-! The staging of a release asset (packages/cli/src/release-download.js): the file, its partial file and
the record of what the partial file is, over every sequence of runs, each ended between any two file
operations. -/

namespace CircuitBreaker.ReleaseDownload
open StepRuns List Option

structure Asset where
  id : Nat
  size : Nat
  url : String
  deriving DecidableEq

def maxSafeInteger : Nat := 9007199254740991

def margin : Nat := 64*1024*1024

/-- A byte with the asset and the offset it was served for. `epoch`, how often a file had been discarded
before, and the two others are kept for the statements. -/
structure Served where
  value : UInt8
  asset : Asset
  offset : Nat
  epoch : Nat

inductive Record where
  | missing
  | unreadable
  | of (a : Asset)
  deriving DecidableEq

/-- `stagedPaths`. -/
structure Disk where
  final : Option (List Served) := none
  part : Option (List Served) := none
  sidecar : Record := .missing

/-- `sizeOf`: -1 also where `stat` fails for another reason. -/
def sizeOf (works : Bool) (file : Option (List Served)) : Int :=
  match file with
  | some f => if works then f.length else -1
  | none => -1

def identityMatches (works : Bool) (sidecar : Record) (a : Asset) : Bool :=
  works && decide (sidecar = .of a)

/-- `Content-Range: bytes first-last/total`, with `*` for an unknown total. -/
structure ContentRange where
  first : Nat
  last : Nat
  total : Option Nat

structure Answer where
  status : Nat
  range : Option ContentRange

def Answer.ok (r : Answer) : Bool := 200 ≤ r.status ∧ r.status < 300

def Answer.continues (r : Answer) (start size : Nat) : Bool :=
  r.range.any fun range => range.first = start ∧ range.total.all fun total => total = size

/-- The next file operation, request or look at the body of a `downloadAsset`. -/
inductive Phase where
  | identity
  | existing
  | dropPart
  | dropFinal
  | space
  | truncate
  | record
  | size
  | dropUnusable
  | request (start : Nat)
  | waiting (start : Nat)
  | dropPartial
  | opening (start : Nat) (appending : Bool)
  | body (written : Nat)
  | dropRefused
  | renaming

/-- A `downloadAsset` in progress. `requests` is kept for the statements. -/
structure Download where
  asset : Asset
  retries : Nat
  tryNo : Nat := 0
  requests : Nat := 0
  phase : Phase := .identity

/-- The next `rm` of a `discardAsset`. -/
inductive Discard where
  | final
  | part
  | sidecar

inductive Proc where
  | download (d : Download)
  | discard (d : Discard)

/-- What a `downloadAsset` has returned. -/
structure Returned where
  asset : Asset
  file : List Served
  epoch : Nat

/-- `epoch` and `returned` are kept for the statements. -/
structure State where
  disk : Disk := {}
  proc : Option Proc := none
  epoch : Nat := 0
  returned : List Returned := []

inductive Act where
  | download (a : Asset) (retries : Nat)
  | discard
  | kill
  | identify (works : Bool)
  | stat (works : Bool)
  | rm
  | space (free : Nat) (works : Bool)
  | write
  | send
  | unreachable
  | answer (r : Answer)
  | open_
  | chunk (bytes : List UInt8) (stored : Nat)
  | interrupt
  | end_
  | rename

def Download.at_ (d : Download) (phase : Phase) : Option Proc := some (.download { d with phase := phase })

def Download.retry (d : Download) : Option Proc :=
  if d.retries ≤ d.tryNo then none
  else some (.download { d with tryNo := d.tryNo+1, phase := .size })

/-- `same` of the run. -/
def Download.identified (d : Download) (same : Bool) : Option Proc :=
  if same then d.at_ .existing else d.at_ .dropPart

def Download.need (d : Download) (have_ : Int) : Int := d.asset.size-max have_ 0+margin

def Download.sized (d : Download) (start : Int) : Option Proc :=
  if start < 0 ∨ d.asset.size ≤ start then d.at_ .dropUnusable else d.at_ (.request start.toNat)

def Download.answered (d : Download) (start : Nat) (r : Answer) : Option Proc :=
  if r.ok then
    if 0 < start ∧ r.status = 206 then
      if r.continues start d.asset.size then d.at_ (.opening start true) else d.at_ .dropPartial
    else d.at_ (.opening start false)
  else if 500 ≤ r.status then d.retry
  else none

def Download.ended (d : Download) (written : Nat) : Option Proc :=
  if written = d.asset.size then d.at_ .renaming else d.at_ .dropRefused

def serve (a : Asset) (epoch : Nat) : Nat → List UInt8 → List Served
  | _,[] => []
  | k,b::bs => ⟨b,a,k,epoch⟩::serve a epoch (k+1) bs

def State.downloads (s : State) (d : Download) : Prop := s.proc = some (.download d)

inductive Step : State → Act → State → Prop where
  | began {s : State} {a : Asset} {retries : Nat} (idle : s.proc = none)
      (valid : 0 < a.size ∧ a.size ≤ maxSafeInteger) :
      Step s (.download a retries) { s with proc := some (.download { asset := a, retries := retries }) }
  | discarding {s : State} (idle : s.proc = none) :
      Step s .discard { s with proc := some (.discard .final) }
  -- the process is killed, or an operation throws an error that is not retried
  | killed {s : State} : Step s .kill { s with proc := none }
  | identified {s : State} {d : Download} {works : Bool} (here : s.downloads d)
      (phase : d.phase = .identity) :
      Step s (.identify works)
        { s with proc := d.identified (identityMatches works s.disk.sidecar d.asset) }
  | kept {s : State} {d : Download} {works : Bool} {f : List Served} (here : s.downloads d)
      (phase : d.phase = .existing) (final : s.disk.final = some f)
      (full : sizeOf works s.disk.final = d.asset.size) :
      Step s (.stat works)
        { s with
          proc := none
          returned := s.returned++[⟨d.asset,f,s.epoch⟩] }
  | stale {s : State} {d : Download} {works : Bool} (here : s.downloads d) (phase : d.phase = .existing)
      (other : sizeOf works s.disk.final ≠ d.asset.size) :
      Step s (.stat works) { s with proc := d.at_ .dropFinal }
  | partDropped {s : State} {d : Download} (here : s.downloads d) (phase : d.phase = .dropPart) :
      Step s .rm
        { s with
          disk := { s.disk with part := none }
          proc := d.at_ .dropFinal }
  | finalDropped {s : State} {d : Download} (here : s.downloads d) (phase : d.phase = .dropFinal) :
      Step s .rm
        { s with
          disk := { s.disk with final := none }
          proc := d.at_ .space }
  | spaceShort {s : State} {d : Download} {free : Nat} {works : Bool} (here : s.downloads d)
      (phase : d.phase = .space) (short : (free : Int) < d.need (sizeOf works s.disk.part)) :
      Step s (.space free works) { s with proc := none }
  | spaceFound {s : State} {d : Download} {free : Nat} {works : Bool} (here : s.downloads d)
      (phase : d.phase = .space) (room : d.need (sizeOf works s.disk.part) ≤ free) :
      Step s (.space free works) { s with proc := d.at_ .truncate }
  | truncated {s : State} {d : Download} (here : s.downloads d) (phase : d.phase = .truncate) :
      Step s .write
        { s with
          disk := { s.disk with sidecar := .unreadable }
          proc := d.at_ .record }
  | recorded {s : State} {d : Download} (here : s.downloads d) (phase : d.phase = .record) :
      Step s .write
        { s with
          disk := { s.disk with sidecar := .of d.asset }
          proc := d.at_ .size }
  | sized {s : State} {d : Download} {works : Bool} (here : s.downloads d) (phase : d.phase = .size) :
      Step s (.stat works) { s with proc := d.sized (sizeOf works s.disk.part) }
  | unusableDropped {s : State} {d : Download} (here : s.downloads d) (phase : d.phase = .dropUnusable) :
      Step s .rm
        { s with
          disk := { s.disk with part := none }
          proc := d.at_ (.request 0) }
  | sent {s : State} {d : Download} {start : Nat} (here : s.downloads d)
      (phase : d.phase = .request start) :
      Step s .send
        { s with
          proc := some (.download { d with requests := d.requests+1, phase := .waiting start }) }
  | unreachable {s : State} {d : Download} {start : Nat} (here : s.downloads d)
      (phase : d.phase = .waiting start) :
      Step s .unreachable { s with proc := d.retry }
  -- a server sends 206 only in answer to a Range header
  | answered {s : State} {d : Download} {start : Nat} {r : Answer} (here : s.downloads d)
      (phase : d.phase = .waiting start) (asked : r.status = 206 → 0 < start) :
      Step s (.answer r) { s with proc := d.answered start r }
  | partialDropped {s : State} {d : Download} (here : s.downloads d) (phase : d.phase = .dropPartial) :
      Step s .rm
        { s with
          disk := { s.disk with part := none }
          proc := d.at_ .dropRefused }
  | opened {s : State} {d : Download} {start : Nat} (here : s.downloads d)
      (phase : d.phase = .opening start false) :
      Step s .open_
        { s with
          disk := { s.disk with part := some [] }
          proc := d.at_ (.body 0) }
  | openedAppending {s : State} {d : Download} {start : Nat} (here : s.downloads d)
      (phase : d.phase = .opening start true) :
      Step s .open_
        { s with
          disk := { s.disk with part := some (s.disk.part.getD []) }
          proc := d.at_ (.body start) }
  | tooLong {s : State} {d : Download} {written stored : Nat} {bytes : List UInt8} (here : s.downloads d)
      (phase : d.phase = .body written) (long : d.asset.size < written+bytes.length) :
      Step s (.chunk bytes stored) { s with proc := d.at_ .dropRefused }
  -- `handle.write` may store fewer bytes than it was given
  | stored {s : State} {d : Download} {written stored : Nat} {bytes : List UInt8} {p : List Served}
      (here : s.downloads d) (phase : d.phase = .body written)
      (fits : written+bytes.length ≤ d.asset.size) (part : s.disk.part = some p)
      (some_ : stored ≤ bytes.length) :
      Step s (.chunk bytes stored)
        { s with
          disk := { s.disk with part := some (p++(serve d.asset s.epoch written bytes).take stored) }
          proc := d.at_ (.body (written+bytes.length)) }
  | interrupted {s : State} {d : Download} {written : Nat} (here : s.downloads d)
      (phase : d.phase = .body written) :
      Step s .interrupt { s with proc := d.retry }
  | ended {s : State} {d : Download} {written : Nat} (here : s.downloads d)
      (phase : d.phase = .body written) :
      Step s .end_ { s with proc := d.ended written }
  | refusedDropped {s : State} {d : Download} (here : s.downloads d) (phase : d.phase = .dropRefused) :
      Step s .rm
        { s with
          disk := { s.disk with part := none }
          proc := d.retry }
  | renamed {s : State} {d : Download} {p : List Served} (here : s.downloads d)
      (phase : d.phase = .renaming) (part : s.disk.part = some p) :
      Step s .rename
        { s with
          disk := { s.disk with final := some p, part := none }
          proc := none
          returned := s.returned++[⟨d.asset,p,s.epoch⟩] }
  | discardedFinal {s : State} (here : s.proc = some (.discard .final)) : Step s .rm
        { s with
          disk := { s.disk with final := none }
          proc := some (.discard .part)
          epoch := if s.disk.final.isSome then s.epoch+1 else s.epoch }
  | discardedPart {s : State} (here : s.proc = some (.discard .part)) : Step s .rm
        { s with
          disk := { s.disk with part := none }
          proc := some (.discard .sidecar) }
  | discardedSidecar {s : State} (here : s.proc = some (.discard .sidecar)) : Step s .rm
        { s with
          disk := { s.disk with sidecar := .missing }
          proc := none
          epoch := s.epoch+1 }

/-- Where another chunk is stored, or the end of the body is taken for the end of the file, the partial
file is as long as the progress that was counted. -/
def Counted (s : State) : Act → Prop
  | .chunk bytes _ => ∀ d written p, s.downloads d → d.phase = .body written → s.disk.part = some p →
      written+bytes.length ≤ d.asset.size → p.length = written
  | .end_ => ∀ d written p, s.downloads d → d.phase = .body written → s.disk.part = some p →
      written = d.asset.size → p.length = written
  | _ => True

def Genuine (a : Asset) (p : List Served) : Prop :=
  ∀ (k : Nat) (b : Served), p[k]? = some b → b.asset = a ∧ b.offset = k

structure Disk.Sound (epoch : Nat) (k : Disk) : Prop where
  apart : ∀ f, k.final = some f → k.part = none
  part : ∀ p, k.part = some p → (∀ b ∈ p, b.epoch = epoch) ∧ ∀ a, k.sidecar = .of a → Genuine a p
  final : ∀ f, k.final = some f → (∀ b ∈ f, b.epoch = epoch) ∧
    ∀ a, k.sidecar = .of a → Genuine a f ∧ f.length = a.size

def Disk.PartOf (k : Disk) (a : Asset) : Prop := ∀ p, k.part = some p → Genuine a p

def Phase.Fits (k : Disk) (a : Asset) : Phase → Prop
  | .identity => True
  | .existing => k.sidecar = .of a
  | .dropPart => True
  | .dropFinal => k.PartOf a
  | .space => k.final = none ∧ k.PartOf a
  | .truncate => k.final = none ∧ k.PartOf a
  | .record => k.final = none ∧ k.PartOf a
  | .request start => k.final = none ∧ k.sidecar = .of a ∧ (start = 0 ∨ ∃ p, k.part = some p ∧ p.length = start)
  | .waiting start => k.final = none ∧ k.sidecar = .of a ∧ (start = 0 ∨ ∃ p, k.part = some p ∧ p.length = start)
  | .opening start appending => k.final = none ∧ k.sidecar = .of a ∧
      (appending = true → ∃ p, k.part = some p ∧ p.length = start)
  | .body _ => k.final = none ∧ k.sidecar = .of a ∧ ∃ p, k.part = some p
  | .renaming => k.final = none ∧ k.sidecar = .of a ∧ ∃ p, k.part = some p ∧ p.length = a.size
  | _ => k.final = none ∧ k.sidecar = .of a

def Phase.sent : Phase → Nat
  | .waiting _ => 1
  | .dropPartial => 1
  | .opening _ _ => 1
  | .body _ => 1
  | .dropRefused => 1
  | .renaming => 1
  | _ => 0

structure Download.Fits (k : Disk) (d : Download) : Prop where
  phase : d.phase.Fits k d.asset
  tries : d.tryNo ≤ d.retries
  requests : d.requests ≤ d.tryNo+d.phase.sent

def Discard.Fits (k : Disk) : Discard → Prop
  | .final => True
  | .part => k.final = none
  | .sidecar => k.final = none ∧ k.part = none

def Proc.Fits (k : Disk) : Proc → Prop
  | .download d => d.Fits k
  | .discard d => d.Fits k

/-- The file that was returned is the asset, downloaded since the last discard. -/
def Returned.Exact (r : Returned) : Prop :=
  r.file.length = r.asset.size ∧ Genuine r.asset r.file ∧ ∀ b ∈ r.file, b.epoch = r.epoch

structure Sound (s : State) : Prop where
  disk : s.disk.Sound s.epoch
  proc : ∀ p, s.proc = some p → p.Fits s.disk
  returned : ∀ r ∈ s.returned, r.Exact

variable {epoch : Nat}

variable {a : Asset} {s : State} {d : Download} {phase : Phase} {disk : Disk}

theorem serve_get {bs : List UInt8} : ∀ {k j : Nat} {b : Served},
    (serve a epoch k bs)[j]? = some b → b.asset = a ∧ b.offset = k+j ∧ b.epoch = epoch := by
  induction bs with
  | nil => exact nofun
  | cons c cs ih =>
    intro k j b h
    cases j with
    | zero =>
      obtain rfl : _ = b := some.inj h
      exact ⟨rfl,rfl,rfl⟩
    | succ j =>
      obtain ⟨asset,offset,since⟩ := ih (k := k+1) h
      exact ⟨asset,by omega,since⟩

theorem mem_serve {k n : Nat} {bs : List UInt8} {b : Served}
    (h : b ∈ (serve a epoch k bs).take n) : b.epoch = epoch := by
  obtain ⟨j,hj⟩ := mem_iff_getElem?.1 (mem_of_mem_take h)
  exact (serve_get hj).2.2

theorem Genuine.nil (a : Asset) : Genuine a [] := fun _ _ h => nomatch h

theorem Genuine.chunk {p : List Served} (h : Genuine a p) (epoch n : Nat) (bs : List UInt8) :
    Genuine a (p++(serve a epoch p.length bs).take n) := by
  intro k b hk
  by_cases old : k < p.length
  · exact h k b (by rwa [getElem?_append_left old] at hk)
  · rw [getElem?_append_right (by omega),getElem?_take] at hk
    split at hk
    case isTrue =>
      obtain ⟨asset,offset,-⟩ := serve_get hk
      exact ⟨asset,by omega⟩
    case isFalse => exact nomatch hk

variable {k : Disk}

theorem Disk.Sound.partOf (h : k.Sound epoch) (sidecar : k.sidecar = .of a) : k.PartOf a :=
  fun p hp => (h.part p hp).2 a sidecar

theorem Disk.Sound.dropPart (h : k.Sound epoch) : Disk.Sound epoch { k with part := none } :=
  ⟨fun _ _ => rfl,nofun,h.final⟩

theorem Disk.Sound.dropFinal (h : k.Sound epoch) : Disk.Sound epoch { k with final := none } :=
  ⟨nofun,h.part,nofun⟩

theorem Disk.Sound.rewrite {sidecar : Record} (h : k.Sound epoch)
    (final : k.final = none) (part : ∀ a, sidecar = .of a → k.PartOf a) :
    Disk.Sound epoch { k with sidecar := sidecar } :=
  ⟨h.apart,fun p hp => ⟨(h.part p hp).1,fun a ha => part a ha p hp⟩,
    fun _ hf => (nomatch hf.symm.trans final)⟩

theorem Disk.Sound.write {epoch : Nat} {k : Disk} {a : Asset} {p : List Served} (final : k.final = none)
    (sidecar : k.sidecar = .of a) (since : ∀ b ∈ p, b.epoch = epoch) (genuine : Genuine a p) :
    Disk.Sound epoch { k with part := some p } := by
  refine ⟨fun f hf => (nomatch hf.symm.trans final),fun q hq => ?_,
    fun f hf => (nomatch hf.symm.trans final)⟩
  obtain rfl := some.inj hq
  refine ⟨since,fun b hb => ?_⟩
  obtain rfl := Record.of.inj (sidecar.symm.trans hb)
  exact genuine

theorem Disk.Sound.empty (final : k.final = none) (part : k.part = none) :
    k.Sound epoch :=
  ⟨fun _ _ => part,fun _ hp => (nomatch hp.symm.trans part),fun _ hf => (nomatch hf.symm.trans final)⟩

theorem Sound.stopped {proc : Option Proc} (h : Sound s)
    (fits : ∀ p, proc = some p → p.Fits s.disk) : Sound { s with proc := proc } :=
  ⟨h.disk,fits,h.returned⟩

theorem Download.Fits.at_ {l : Disk} {next : Phase} {p : Proc} (h : d.Fits k)
    (is : d.phase = phase) (hp : d.at_ next = some p) (fits : next.Fits l d.asset)
    (sent : phase.sent ≤ next.sent) : p.Fits l := by
  obtain rfl := some.inj hp
  have requests := h.requests
  rw [is] at requests
  exact ⟨fits,h.tries,by show d.requests ≤ d.tryNo+next.sent; omega⟩

theorem Phase.sent_le (phase : Phase) : phase.sent ≤ 1 := by
  cases phase <;> simp [Phase.sent]

theorem Download.Fits.retry {l : Disk} {p : Proc} (h : d.Fits k) (final : l.final = none)
    (sidecar : l.sidecar = .of d.asset) (hp : d.retry = some p) : p.Fits l := by
  unfold Download.retry at hp
  split at hp
  case isTrue => exact nomatch hp
  case isFalse more =>
    obtain rfl := some.inj hp
    have requests := h.requests
    have sent := d.phase.sent_le
    exact ⟨⟨final,sidecar⟩,by show d.tryNo+1 ≤ d.retries; omega,by show d.requests ≤ d.tryNo+1+0; omega⟩

theorem Download.Fits.phase_of (h : d.Fits k) (is : d.phase = phase) : phase.Fits k d.asset :=
  is ▸ h.phase

theorem Download.Fits.sized {k : Disk} {d : Download} {works : Bool} {p : Proc} (h : d.Fits k)
    (phase : d.phase = .size) (hp : d.sized (sizeOf works k.part) = some p) : p.Fits k := by
  have fits := h.phase_of phase
  unfold Download.sized at hp
  split at hp
  case isTrue => exact h.at_ phase hp fits (by simp [Phase.sent])
  case isFalse known =>
    refine h.at_ phase hp ⟨fits.1,fits.2,?_⟩ (by simp [Phase.sent])
    cases hk : k.part with
    | none => exact absurd (.inl (by simp [hk,sizeOf])) known
    | some q =>
      cases works with
      | false => exact absurd (.inl (by simp [hk,sizeOf])) known
      | true => exact .inr ⟨q,rfl,by simp [sizeOf]⟩

theorem Download.Fits.answered {k : Disk} {d : Download} {start : Nat} {r : Answer} {p : Proc}
    (h : d.Fits k) (phase : d.phase = .waiting start) (hp : d.answered start r = some p) : p.Fits k := by
  have fits := h.phase_of phase
  unfold Download.answered at hp
  split at hp
  case isTrue =>
    split at hp
    case isTrue asked =>
      split at hp
      case isTrue =>
        refine h.at_ phase hp ⟨fits.1,fits.2.1,fun _ => ?_⟩ (by simp [Phase.sent])
        obtain zero | part := fits.2.2
        · omega
        · exact part
      case isFalse => exact h.at_ phase hp ⟨fits.1,fits.2.1⟩ (by simp [Phase.sent])
    case isFalse =>
      exact h.at_ phase hp ⟨fits.1,fits.2.1,nofun⟩ (by simp [Phase.sent])
  case isFalse =>
    split at hp
    case isTrue => exact h.retry fits.1 fits.2.1 hp
    case isFalse => exact nomatch hp

theorem Sound.fits (h : Sound s) (here : s.downloads d)
    (is : d.phase = phase) : phase.Fits s.disk d.asset :=
  (show d.Fits s.disk from h.proc _ here).phase_of is

theorem Sound.goes {next : Phase} (h : Sound s)
    (here : s.downloads d) (is : d.phase = phase) (sound : disk.Sound s.epoch)
    (fits : next.Fits disk d.asset) (sent : phase.sent ≤ next.sent) :
    Sound { s with
      disk := disk
      proc := d.at_ next } :=
  ⟨sound,fun _ hp => (show d.Fits s.disk from h.proc _ here).at_ is hp fits sent,h.returned⟩

theorem Sound.retried (h : Sound s) (here : s.downloads d)
    (sound : disk.Sound s.epoch) (final : disk.final = none) (sidecar : disk.sidecar = .of d.asset) :
    Sound { s with
      disk := disk
      proc := d.retry } :=
  ⟨sound,fun _ hp => (show d.Fits s.disk from h.proc _ here).retry final sidecar hp,h.returned⟩

theorem Sound.returns {r : Returned} (h : Sound s) (sound : disk.Sound s.epoch) (exact_ : r.Exact) :
    Sound { s with
      disk := disk
      proc := none
      returned := s.returned++[r] } := by
  refine ⟨sound,nofun,fun r' hr => ?_⟩
  obtain hr | hr := mem_append.1 hr
  · exact h.returned r' hr
  · exact mem_singleton.1 hr ▸ exact_

theorem Sound.step {t : State} {a : Act} (h : Sound s) (step : Guarded Step Counted s a t) : Sound t := by
  obtain ⟨counted,step⟩ := step
  cases step with
  | began idle valid =>
    refine h.stopped fun p hp => ?_
    obtain rfl := some.inj hp
    exact ⟨trivial,Nat.zero_le _,Nat.zero_le _⟩
  | discarding idle =>
    refine h.stopped fun p hp => ?_
    obtain rfl := some.inj hp
    trivial
  | killed | spaceShort => exact h.stopped fun _ hp => nomatch hp
  | @identified d works here phase =>
    unfold Download.identified
    split
    case isTrue same =>
      have sidecar : s.disk.sidecar = .of d.asset := of_decide_eq_true (Bool.and_eq_true_iff.1 same).2
      exact h.goes here phase h.disk sidecar (Nat.le_refl _)
    case isFalse => exact h.goes here phase h.disk trivial (Nat.le_refl _)
  | @kept d works f here phase final full =>
    obtain ⟨since,genuine⟩ := h.disk.final f final
    obtain ⟨genuine,size⟩ := genuine d.asset (h.fits here phase)
    exact h.returns h.disk ⟨size,genuine,since⟩
  | stale here phase other =>
    exact h.goes here phase h.disk (h.disk.partOf (h.fits here phase)) (Nat.le_refl _)
  | partDropped here phase =>
    exact h.goes here phase h.disk.dropPart nofun (Nat.le_refl _)
  | finalDropped here phase =>
    exact h.goes here phase h.disk.dropFinal ⟨rfl,h.fits here phase⟩ (Nat.le_refl _)
  | spaceFound here phase room =>
    obtain ⟨final,part⟩ := h.fits here phase
    exact h.goes here phase h.disk ⟨final,part⟩ (Nat.le_refl _)
  | truncated here phase =>
    obtain ⟨final,part⟩ := h.fits here phase
    exact h.goes here phase (h.disk.rewrite final nofun) ⟨final,part⟩ (Nat.le_refl _)
  | recorded here phase =>
    obtain ⟨final,part⟩ := h.fits here phase
    exact h.goes here phase (h.disk.rewrite final fun a ha => Record.of.inj ha ▸ part) ⟨final,rfl⟩
      (Nat.le_refl _)
  | @sized d works here phase =>
    have fits : d.Fits s.disk := h.proc _ here
    exact h.stopped fun p hp => fits.sized phase hp
  | unusableDropped here phase =>
    obtain ⟨final,sidecar⟩ := h.fits here phase
    exact h.goes here phase h.disk.dropPart ⟨final,sidecar,.inl rfl⟩ (Nat.le_refl _)
  | @sent d start here phase =>
    have fits : d.Fits s.disk := h.proc _ here
    have before := fits.phase_of phase
    refine h.stopped fun p hp => ?_
    obtain rfl := some.inj hp
    have requests := fits.requests
    rw [phase] at requests
    exact ⟨before,fits.tries,Nat.succ_le_succ requests⟩
  | unreachable here phase | interrupted here phase =>
    obtain ⟨final,sidecar,-⟩ := h.fits here phase
    exact h.retried here h.disk final sidecar
  | @answered d start r here phase asked =>
    have fits : d.Fits s.disk := h.proc _ here
    exact h.stopped fun p hp => fits.answered phase hp
  | partialDropped here phase =>
    exact h.goes here phase h.disk.dropPart (h.fits here phase) (Nat.le_refl _)
  | opened here phase =>
    obtain ⟨final,sidecar,-⟩ := h.fits here phase
    exact h.goes here phase (.write final sidecar nofun (Genuine.nil _))
      ⟨final,sidecar,[],rfl⟩ (Nat.le_refl _)
  | openedAppending here phase =>
    obtain ⟨final,sidecar,there⟩ := h.fits here phase
    obtain ⟨q,part,-⟩ := there rfl
    rw [part]
    exact h.goes here phase (.write final sidecar (h.disk.part q part).1 (h.disk.partOf sidecar q part))
      ⟨final,sidecar,q,rfl⟩ (Nat.le_refl _)
  | tooLong here phase long =>
    obtain ⟨final,sidecar,-⟩ := h.fits here phase
    exact h.goes here phase h.disk ⟨final,sidecar⟩ (Nat.le_refl _)
  | @stored d written stored bytes q here phase room part some_ =>
    obtain ⟨final,sidecar,-⟩ := h.fits here phase
    have length : q.length = written := counted d written q here phase part room
    refine h.goes here phase (.write final sidecar (fun b hb => ?_) ?_) ⟨final,sidecar,_,rfl⟩
      (Nat.le_refl _)
    · obtain hb | hb := mem_append.1 hb
      · exact (h.disk.part q part).1 b hb
      · exact mem_serve hb
    · rw [←length]
      exact (h.disk.partOf sidecar q part).chunk _ _ _
  | @ended d written here phase =>
    obtain ⟨final,sidecar,q,part⟩ := h.fits here phase
    unfold Download.ended
    split
    case isTrue whole =>
      have length : q.length = written := counted d written q here phase part whole
      exact h.goes here phase h.disk ⟨final,sidecar,q,part,length.trans whole⟩ (Nat.le_refl _)
    case isFalse => exact h.goes here phase h.disk ⟨final,sidecar⟩ (Nat.le_refl _)
  | refusedDropped here phase =>
    obtain ⟨final,sidecar⟩ := h.fits here phase
    exact h.retried here h.disk.dropPart final sidecar
  | @renamed d q here phase part =>
    obtain ⟨final,sidecar,q',part',size⟩ := h.fits here phase
    obtain rfl := some.inj (part'.symm.trans part)
    have since := (h.disk.part q' part).1
    have genuine := h.disk.partOf sidecar q' part
    refine h.returns ⟨fun _ _ => rfl,nofun,fun f hf => ?_⟩ ⟨size,genuine,since⟩
    obtain rfl := some.inj hf
    refine ⟨since,fun a ha => ?_⟩
    obtain rfl := Record.of.inj (sidecar.symm.trans ha)
    exact ⟨genuine,size⟩
  | discardedFinal here =>
    refine ⟨?_,fun p hp => ?_,h.returned⟩
    · cases hf : s.disk.final with
      | none =>
        rw [←hf]
        simpa [hf] using h.disk.dropFinal
      | some f => exact .empty rfl (h.disk.apart f hf)
    · obtain rfl := some.inj hp
      exact rfl
  | discardedPart here =>
    have final : s.disk.final = none := h.proc _ here
    refine ⟨h.disk.dropPart,fun p hp => ?_,h.returned⟩
    obtain rfl := some.inj hp
    exact ⟨final,rfl⟩
  | discardedSidecar here =>
    obtain ⟨final,part⟩ : s.disk.final = none ∧ s.disk.part = none := h.proc _ here
    exact ⟨.empty final part,nofun,h.returned⟩

/-- Where no run goes on from a write that stored only part of its chunk: a file that is returned has the
size of the asset, and every byte of it was served for that asset at its offset since the file was last
discarded; and a run makes at most `retries + 1` requests. -/
theorem download_exact {as : List Act} {s : State} (run : Run (Guarded Step Counted) {} as s) :
    (∀ r ∈ s.returned, r.file.length = r.asset.size ∧
      ∀ (k : Nat) (b : Served), r.file[k]? = some b →
        b.asset = r.asset ∧ b.offset = k ∧ b.epoch = r.epoch) ∧
    ∀ d, s.proc = some (.download d) → d.requests ≤ d.retries+1 := by
  have start : Sound {} :=
    ⟨.empty rfl rfl,nofun,nofun⟩
  have sound : Sound s := run.invariant (fun _ _ _ h step => h.step step) start
  refine ⟨fun r hr => ?_,fun d hd => ?_⟩
  · obtain ⟨size,genuine,since⟩ := sound.returned r hr
    refine ⟨size,fun k b hb => ?_⟩
    obtain ⟨asset,offset⟩ := genuine k b hb
    exact ⟨asset,offset,since b (mem_iff_getElem?.2 ⟨k,hb⟩)⟩
  · have fits : d.Fits s.disk := sound.proc _ hd
    have requests := fits.requests
    have tries := fits.tries
    have sent := d.phase.sent_le
    omega

def smallAsset : Asset := ⟨7,2,"https://dl/bundle.tar.gz"⟩

theorem small_opened : ∃ as, Run (Guarded Step Counted) {} as {
    disk := { sidecar := .of smallAsset, part := some [] }
    proc := some (.download ⟨smallAsset,3,0,1,.body 0⟩) } := by
  have began : Run (Guarded Step Counted) {} _ _ :=
    (Run.nil _).also (@Step.began _ smallAsset 3 rfl (by decide)) trivial
  have identified := began.also (@Step.identified _ ⟨smallAsset,3,0,0,.identity⟩ true rfl rfl) trivial
  have part := identified.also (@Step.partDropped _ ⟨smallAsset,3,0,0,.dropPart⟩ rfl rfl) trivial
  have final := part.also (@Step.finalDropped _ ⟨smallAsset,3,0,0,.dropFinal⟩ rfl rfl) trivial
  have space := final.also
    (@Step.spaceFound _ ⟨smallAsset,3,0,0,.space⟩ 100000000 true rfl rfl (by decide)) trivial
  have truncated := space.also (@Step.truncated _ ⟨smallAsset,3,0,0,.truncate⟩ rfl rfl) trivial
  have recorded := truncated.also (@Step.recorded _ ⟨smallAsset,3,0,0,.record⟩ rfl rfl) trivial
  have sized := recorded.also (@Step.sized _ ⟨smallAsset,3,0,0,.size⟩ true rfl rfl) trivial
  have dropped := sized.also (@Step.unusableDropped _ ⟨smallAsset,3,0,0,.dropUnusable⟩ rfl rfl) trivial
  have sent := dropped.also (@Step.sent _ ⟨smallAsset,3,0,0,.request 0⟩ 0 rfl rfl) trivial
  have answered := sent.also
    (@Step.answered _ ⟨smallAsset,3,0,1,.waiting 0⟩ 0 ⟨200,none⟩ rfl rfl (by decide)) trivial
  have opened := answered.also (@Step.opened _ ⟨smallAsset,3,0,1,.opening 0 false⟩ 0 rfl rfl) trivial
  exact ⟨_,opened⟩

theorem download_exact_small : ∃ as s, Run (Guarded Step Counted) {} as s ∧
    ∃ r ∈ s.returned, r.file.length = r.asset.size := by
  obtain ⟨_,opened⟩ := small_opened
  have stored := opened.also
    (@Step.stored _ ⟨smallAsset,3,0,1,.body 0⟩ 0 2 [104,105] [] rfl rfl (by decide) rfl (by decide))
    fun d written p here phase part _ => by cases here; cases phase; cases part; rfl
  have ended := stored.also (@Step.ended _ ⟨smallAsset,3,0,1,.body 2⟩ 2 rfl rfl)
    fun d written p here phase part _ => by cases here; cases phase; cases part; rfl
  have run := ended.also (@Step.renamed _ ⟨smallAsset,3,0,1,.renaming⟩ _ rfl rfl rfl) trivial
  exact ⟨_,_,run,_,mem_singleton.2 rfl,((download_exact run).1 _ (mem_singleton.2 rfl)).1⟩

/-- Of the two bytes of the one chunk one is stored. -/
theorem short_write_returned : ¬∀ (as : List Act) (s : State), Run Step {} as s →
    ∀ r ∈ s.returned, r.file.length = r.asset.size := by
  intro all
  obtain ⟨_,opened⟩ := small_opened
  have stored := opened.unguarded.snoc
    (@Step.stored _ ⟨smallAsset,3,0,1,.body 0⟩ 0 1 [104,105] [] rfl rfl (by decide) rfl (by decide))
  have ended := stored.snoc (@Step.ended _ ⟨smallAsset,3,0,1,.body 2⟩ 2 rfl rfl)
  have run := ended.snoc (@Step.renamed _ ⟨smallAsset,3,0,1,.renaming⟩ _ rfl rfl rfl)
  exact absurd (all _ _ run _ (mem_singleton.2 rfl)) (by decide)

end CircuitBreaker.ReleaseDownload
