import CircuitBreaker.StepRuns

/-! The agent's self-update: the state directory with its version directories, the
`current` link and the three record files, and the process whose update worker,
rollback watch and link goroutine act on it one file operation at a time. -/

namespace CircuitBreaker.SelfUpdate

abbrev Text := List Char
abbrev Path := Text

/-- The configured state directory and rollback window, and the clock's text form. -/
structure Env where
  stateDir : Path
  oneLine : '\n' ∉ stateDir
  rollbackWindow : Nat
  format : Nat → Text
  parse : Text → Option Nat
  parse_format : ∀ t, parse (format t) = some t
  format_ne_nil : ∀ t, format t ≠ []

variable (env : Env)

def cut : Text → Text × Option Text
  | [] => ([],none)
  | c :: cs => if c = '\n' then ([],some cs) else (c :: (cut cs).1,(cut cs).2)

def phasePendingSwap : Text := "pending-swap".toList
def phasePendingConfirm : Text := "pending-confirm".toList

structure Marker where
  phase : Text
  version : Text
  prevVersionDir : Path
  deadline : Option Nat

def markerText (phase version : Text) (prevVersionDir : Path) (deadline : Option Nat) : Text :=
  phase ++ '\n' :: (version ++ '\n' :: (prevVersionDir ++ '\n' :: (deadline.map env.format).getD []))

/-- A marker without its first separator is malformed; a missing or unreadable deadline
is no deadline. -/
def readMarker (data : Text) : Option Marker :=
  match cut data with
  | (_,none) => none
  | (phase,some rest) =>
    let (version,rest) := cut rest
    let (prevVersionDir,rest) := cut (rest.getD [])
    let rest := rest.getD []
    some ⟨phase,version,prevVersionDir,if rest = [] then none else env.parse rest⟩

def outcomeText (version phase : Text) : Text := version ++ '\n' :: phase

def readPendingOutcome (data : Text) : Option (Text × Text) :=
  match cut data with
  | (_,none) => none
  | (version,some phase) => if version = [] ∨ phase = [] then none else some (version,phase)

def filepathBase (path : Path) : Path :=
  if path = [] then ['.']
  else
    let base := ((path.reverse.dropWhile (· = '/')).takeWhile (· ≠ '/')).reverse
    if base = [] then ['/'] else base

/-- The version strings `Swap` lets through. -/
def validVersion (version : Text) : Bool :=
  version ≠ [] ∧ version ≠ ['.'] ∧ version ≠ ['.','.'] ∧ version = filepathBase version

def urlParses (version : Text) : Bool := version.all fun c => 32 ≤ c.toNat ∧ c.toNat ≠ 127

def versionsRoot : Path := env.stateDir++"/versions".toList

/-- The joined and cleaned path of a version: a bare slash is no component of its own. -/
def versionDir (version : Text) : Path :=
  if version = ['/'] then versionsRoot env else versionsRoot env ++ '/' :: version

/-- A record file's text, and the update attempt it is about, which the text does not show. -/
structure Filed where
  text : Text
  attempt : Nat

/-- `binaries` holds what the file `cb-agent` of a directory contains, `current` the
directory whose `cb-agent` the link names. -/
structure Disk (Content : Type) where
  binaries : Path → Option Content
  current : Option Path
  marker : Option Filed
  outcome : Option Filed
  report : Option Filed

variable {Content : Type}

def Disk.resolve (disk : Disk Content) : Option Content := disk.current.bind disk.binaries

def Disk.readMarker (disk : Disk Content) : Option (Nat × Marker) :=
  disk.marker.bind fun file => (SelfUpdate.readMarker env file.text).map fun m => (file.attempt,m)

/-- One `update.status` frame sent from a record on disk. -/
structure Record where
  attempt : Nat
  version : Text
  phase : Text

def succeeded : Text := "succeeded".toList
def rolledBack : Text := "rolled_back".toList

def Disk.reportPendingUpdateOutcome (disk : Disk Content) : Option Record :=
  match disk.outcome.bind fun file => (readPendingOutcome file.text).map fun o => (file.attempt,o) with
  | some (attempt,version,phase) => some ⟨attempt,version,phase⟩
  | none => disk.report.map fun file => ⟨file.attempt,file.text,rolledBack⟩

/-- Whether pruning removes the binary kept under a path: every entry of the versions
directory goes, the live and the kept one apart. A binary placed directly in the
versions directory is the entry `cb-agent`. -/
def prunable (live keep path : Path) : Bool :=
  if path = versionsRoot env then
    let entry := versionsRoot env++"/cb-agent".toList
    entry ≠ live ∧ entry ≠ keep
  else (versionsRoot env++['/']).isPrefixOf path ∧ path ≠ live ∧ path ≠ keep

/-- `executeUpdate`, by the operation it is about to perform. -/
inductive Worker (Content : Type) where
  | idle
  | verified (attempt : Nat) (version : Text) (binary : Content)
  | marked (attempt : Nat) (version : Text) (binary : Content)
  | refused (attempt : Nat)
  | installed (attempt : Nat) (version : Text)
  | resolved (attempt : Nat) (version : Text) (prevVersionDir : Path)
  | swapped (attempt : Nat) (version : Text) (prevVersionDir : Path)
  | noted (attempt : Nat) (version : Text)
  | recorded (attempt : Nat) (version : Text)
  | reported (attempt : Nat)

/-- `RollbackIfExpired` before the daemon starts, then `watchForRollback`; both end in
the same sequence of operations. -/
inductive Guard where
  | booting
  | asleep (pendingVersion : Text) (wakeAt : Nat)
  | decided (attempt : Nat) (version : Text) (prevVersionDir : Path)
  | repointed (attempt : Nat) (version : Text)
  | told (attempt : Nat)
  | cleared (attempt : Nat)
  | execing (attempt : Nat)
  | abandoning
  | ended

/-- The link goroutine, by the operation it is about to perform on an accepted hello. -/
inductive Link where
  | offline
  | acked
  | confirming (prevVersionDir : Option Path)
  | pruning (prevVersionDir : Path)
  | removing (live prevVersionDir : Path)
  | reporting
  | sending (record : Record)
  | clearingOutcome
  | clearingReport
  | online

structure Process (Content : Type) where
  image : Content
  base : Nat
  started : Bool
  guard : Guard
  worker : Worker Content
  link : Link
  confirmOnce : Bool
  hasSwapped : Bool
  statuses : List Nat

/-- A process image as `runDaemon` starts it. -/
def Process.fresh (image : Content) (base : Nat) : Process Content :=
  ⟨image,base,false,.booting,.idle,.offline,false,false,[]⟩

/-- The machine. Besides disk, clock and process: the next attempt's number, the binary
that ran before each attempt's swap, the attempt not yet confirmed with the directory
it swapped away from, the attempts rolled back, and what was sent from records and live. -/
structure State (Content : Type) where
  disk : Disk Content
  now : Nat
  proc : Option (Process Content)
  next : Nat
  before : Nat → Option Content
  unconfirmed : Option (Nat × Path)
  undone : List Nat
  sent : List Record

def State.installed (version : Text) (binary : Content) : State Content where
  disk :=
    { binaries := fun path => if path = versionDir env version then some binary else none
      current := some (versionDir env version)
      marker := none
      outcome := none
      report := none }
  now := 0
  proc := none
  next := 0
  before _ := none
  unconfirmed := none
  undone := []
  sent := []

inductive Event (Content : Type) where
  | boot | tick | crash
  | startup | wake | rollback (attempt : Nat) | writeReport | clearOutcome | clearMarker
  | abandon | reExec (ok : Bool)
  | helloAck | readConfirm | clearConfirm | readLive | prune | pruned
  | readRecords | send (ok : Bool) | clearSentOutcome | clearSentReport | drop
  | sendLive (attempt : Nat)
  | update (version : Text) (binary : Content)
  | writeMarker | install | refuse | clearRefused | resolve | repoint | markSwapped
  | writePendingOutcome | reportSucceeded | exec (ok : Bool)

def Disk.mark (disk : Disk Content) (phase version : Text) (prevVersionDir : Path)
    (deadline : Option Nat) (attempt : Nat) : Disk Content :=
  {disk with marker := some ⟨markerText env phase version prevVersionDir deadline,attempt⟩}

def Disk.install (disk : Disk Content) (version : Text) (binary : Content) : Disk Content :=
  {disk with binaries := fun path =>
    if path = versionDir env version then some binary else disk.binaries path}

/-- The disk with some of the prunable binaries gone: pruning is best-effort, entry by entry. -/
def Disk.prune (disk : Disk Content) (live keep : Path) (gone : Path → Bool) : Disk Content :=
  {disk with binaries := fun path =>
    if prunable env live keep path && gone path then none else disk.binaries path}

/-- What the startup check makes of the marker: the rollback to perform, if its deadline passed. -/
def expired (now : Nat) (found : Option (Nat × Marker)) : Option (Nat × Marker) :=
  found.filter fun m => m.2.phase = phasePendingConfirm ∧ (m.2.deadline.any (· ≤ now))

def watchFor (now : Nat) (found : Option (Nat × Marker)) : Guard :=
  match found with
  | some (_,m) => .asleep m.version (now+env.rollbackWindow)
  | none => .ended

def watchDecides (pendingVersion : Text) (found : Option (Nat × Marker)) : Guard :=
  match found with
  | some (attempt,m) =>
    if m.version ≠ pendingVersion then .ended
    else if m.phase = phasePendingConfirm then .decided attempt m.version m.prevVersionDir
    else .abandoning
  | none => .ended

/-- One operation of the machine. The worker, the watch and the link interleave freely;
a crash ends all three. -/
inductive Step : State Content → Event Content → State Content → Prop where
  | tick (s : State Content) : Step s .tick {s with now := s.now+1}
  | crash (s : State Content) : Step s .crash {s with proc := none}
  | boot (s : State Content) (image : Content) : s.proc = none → s.disk.resolve = some image →
      Step s .boot {s with proc := some (.fresh image s.next)}
  -- RollbackIfExpired at the top of runDaemon
  | startupExpired (s : State Content) (p : Process Content) (attempt : Nat) (m : Marker) :
      s.proc = some p → p.guard = .booting →
      expired s.now (s.disk.readMarker env) = some (attempt,m) →
      Step s .startup
        {s with proc := some {p with guard := .decided attempt m.version m.prevVersionDir}}
  | startup (s : State Content) (p : Process Content) : s.proc = some p → p.guard = .booting →
      expired s.now (s.disk.readMarker env) = none →
      Step s .startup
        {s with proc := some {p with
          started := true, guard := watchFor env s.now (s.disk.readMarker env)}}
  -- watchForRollback
  | wake (s : State Content) (p : Process Content) (pendingVersion : Text) (wakeAt : Nat) :
      s.proc = some p → p.guard = .asleep pendingVersion wakeAt → wakeAt ≤ s.now →
      Step s .wake
        {s with proc := some {p with guard := watchDecides pendingVersion (s.disk.readMarker env)}}
  | rollback (s : State Content) (p : Process Content) (attempt : Nat) (version : Text)
      (prevVersionDir : Path) :
      s.proc = some p → p.guard = .decided attempt version prevVersionDir → prevVersionDir ≠ [] →
      Step s (.rollback attempt)
        {s with disk := {s.disk with current := some prevVersionDir}
                proc := some {p with guard := .repointed attempt version}
                unconfirmed := s.unconfirmed.filter (·.1 ≠ attempt)
                undone := attempt :: s.undone}
  | rollbackFails (s : State Content) (p : Process Content) (attempt : Nat) (version : Text) :
      s.proc = some p → p.guard = .decided attempt version [] →
      Step s .wake {s with proc := some {p with guard := .abandoning}}
  | writeReport (s : State Content) (p : Process Content) (attempt : Nat) (version : Text) :
      s.proc = some p → p.guard = .repointed attempt version →
      Step s .writeReport
        {s with disk := {s.disk with report := some ⟨version,attempt⟩}
                proc := some {p with guard := .told attempt}}
  | clearOutcome (s : State Content) (p : Process Content) (attempt : Nat) :
      s.proc = some p → p.guard = .told attempt →
      Step s .clearOutcome
        {s with disk := {s.disk with outcome := none}
                proc := some {p with guard := .cleared attempt}}
  | clearMarker (s : State Content) (p : Process Content) (attempt : Nat) :
      s.proc = some p → p.guard = .cleared attempt →
      Step s .clearMarker
        {s with disk := {s.disk with marker := none}
                proc := some {p with guard := .execing attempt}}
  | abandon (s : State Content) (p : Process Content) :
      s.proc = some p → p.guard = .abandoning →
      Step s .abandon
        {s with disk := {s.disk with marker := none}
                proc := some {p with guard := .ended, started := true}}
  | reExec (s : State Content) (p : Process Content) (attempt : Nat) (image : Content) :
      s.proc = some p → p.guard = .execing attempt → s.disk.resolve = some image →
      Step s (.reExec true) {s with proc := some (.fresh image s.next)}
  | reExecFails (s : State Content) (p : Process Content) (attempt : Nat) :
      s.proc = some p → p.guard = .execing attempt →
      Step s (.reExec false) {s with proc := some {p with guard := .ended, started := true}}
  -- an accepted hello: confirmation and pruning once per process, then the pending report
  | helloAckFirst (s : State Content) (p : Process Content) :
      s.proc = some p → p.started = true → p.link = .offline → p.confirmOnce = false →
      Step s .helloAck
        {s with proc := some {p with link := .acked, confirmOnce := true}
                unconfirmed := none}
  | helloAck (s : State Content) (p : Process Content) :
      s.proc = some p → p.started = true → p.link = .offline → p.confirmOnce = true →
      Step s .helloAck {s with proc := some {p with link := .reporting}}
  | readConfirm (s : State Content) (p : Process Content) : s.proc = some p → p.link = .acked →
      Step s .readConfirm
        {s with proc := some {p with
          link := .confirming ((s.disk.readMarker env).map (·.2.prevVersionDir))}}
  | clearConfirm (s : State Content) (p : Process Content) (prevVersionDir : Option Path) :
      s.proc = some p → p.link = .confirming prevVersionDir →
      Step s .clearConfirm
        {s with disk := {s.disk with marker := none}
                proc := some {p with
                  link := match prevVersionDir with
                    | some keep => .pruning keep
                    | none => .reporting}}
  | readLive (s : State Content) (p : Process Content) (keep : Path) :
      s.proc = some p → p.link = .pruning keep →
      Step s .readLive
        {s with proc := some {p with
          link := match s.disk.current with
            | some live => .removing live keep
            | none => .reporting}}
  | prune (s : State Content) (p : Process Content) (live keep : Path) (gone : Path → Bool) :
      s.proc = some p → p.link = .removing live keep →
      Step s .prune
        {s with disk := s.disk.prune env live keep gone}
  | pruned (s : State Content) (p : Process Content) (live keep : Path) :
      s.proc = some p → p.link = .removing live keep →
      Step s .pruned {s with proc := some {p with link := .reporting}}
  | readRecords (s : State Content) (p : Process Content) :
      s.proc = some p → p.link = .reporting →
      Step s .readRecords
        {s with proc := some {p with
          link := match s.disk.reportPendingUpdateOutcome with
            | some record => .sending record
            | none => .online}}
  | send (s : State Content) (p : Process Content) (record : Record) :
      s.proc = some p → p.link = .sending record →
      Step s (.send true)
        {s with proc := some {p with link := .clearingOutcome}, sent := record :: s.sent}
  | sendFails (s : State Content) (p : Process Content) (record : Record) :
      s.proc = some p → p.link = .sending record →
      Step s (.send false) {s with proc := some {p with link := .online}}
  | clearSentOutcome (s : State Content) (p : Process Content) :
      s.proc = some p → p.link = .clearingOutcome →
      Step s .clearSentOutcome
        {s with disk := {s.disk with outcome := none}
                proc := some {p with link := .clearingReport}}
  | clearSentReport (s : State Content) (p : Process Content) :
      s.proc = some p → p.link = .clearingReport →
      Step s .clearSentReport
        {s with disk := {s.disk with report := none}
                proc := some {p with link := .online}}
  | drop (s : State Content) (p : Process Content) : s.proc = some p → p.link = .online →
      Step s .drop {s with proc := some {p with link := .offline}}
  -- live statuses go out on any connection, acknowledged or not
  | sendLive (s : State Content) (p : Process Content) (attempt : Nat) (rest : List Nat) :
      s.proc = some p → p.statuses = attempt :: rest → p.link = .offline ∨ p.link = .online →
      Step s (.sendLive attempt) {s with proc := some {p with statuses := rest}}
  -- an instruction is taken on any connection too; executeUpdate from a downloaded and
  -- verified binary on
  | update (s : State Content) (p : Process Content) (version : Text) (binary : Content) :
      s.proc = some p → p.started = true → p.link = .offline ∨ p.link = .online →
      p.worker = .idle → urlParses version = true →
      Step s (.update version binary)
        {s with proc := some {p with worker := .verified s.next version binary}
                next := s.next+1}
  | writeMarker (s : State Content) (p : Process Content) (attempt : Nat) (version : Text)
      (binary : Content) :
      s.proc = some p → p.worker = .verified attempt version binary →
      Step s .writeMarker
        {s with disk := s.disk.mark env phasePendingSwap version [] none attempt
                proc := some {p with worker := .marked attempt version binary}}
  | install (s : State Content) (p : Process Content) (attempt : Nat) (version : Text)
      (binary : Content) :
      s.proc = some p → p.worker = .marked attempt version binary → validVersion version = true →
      Step s .install
        {s with disk := s.disk.install env version binary
                proc := some {p with worker := .installed attempt version}}
  | refuse (s : State Content) (p : Process Content) (attempt : Nat) (version : Text)
      (binary : Content) :
      s.proc = some p → p.worker = .marked attempt version binary → validVersion version = false →
      Step s .refuse {s with proc := some {p with worker := .refused attempt}}
  | clearRefused (s : State Content) (p : Process Content) (attempt : Nat) :
      s.proc = some p → p.worker = .refused attempt →
      Step s .clearRefused
        {s with disk := {s.disk with marker := none}
                proc := some {p with worker := .idle}}
  | resolve (s : State Content) (p : Process Content) (attempt : Nat) (version : Text) :
      s.proc = some p → p.worker = .installed attempt version →
      Step s .resolve
        {s with proc := some {p with
                  worker := .resolved attempt version (s.disk.current.getD [])}
                before := fun a => if a = attempt then some p.image else s.before a}
  | repoint (s : State Content) (p : Process Content) (attempt : Nat) (version : Text)
      (prevVersionDir : Path) :
      s.proc = some p → p.worker = .resolved attempt version prevVersionDir →
      Step s .repoint
        {s with disk := {s.disk with current := some (versionDir env version)}
                proc := some {p with worker := .swapped attempt version prevVersionDir}
                unconfirmed := some (attempt,prevVersionDir)}
  | markSwapped (s : State Content) (p : Process Content) (attempt : Nat) (version : Text)
      (prevVersionDir : Path) :
      s.proc = some p → p.worker = .swapped attempt version prevVersionDir →
      Step s .markSwapped
        {s with disk := s.disk.mark env phasePendingConfirm version prevVersionDir
                  (some (s.now+env.rollbackWindow)) attempt
                proc := some {p with worker := .noted attempt version, hasSwapped := true}}
  | writePendingOutcome (s : State Content) (p : Process Content) (attempt : Nat)
      (version : Text) :
      s.proc = some p → p.worker = .noted attempt version →
      Step s .writePendingOutcome
        {s with disk := {s.disk with outcome := some ⟨outcomeText version succeeded,attempt⟩}
                proc := some {p with worker := .recorded attempt version}}
  | reportSucceeded (s : State Content) (p : Process Content) (attempt : Nat) (version : Text) :
      s.proc = some p → p.worker = .recorded attempt version →
      Step s .reportSucceeded
        {s with proc := some {p with
          worker := .reported attempt, statuses := p.statuses++[attempt]}}
  | exec (s : State Content) (p : Process Content) (attempt : Nat) (image : Content) :
      s.proc = some p → p.worker = .reported attempt → s.disk.resolve = some image →
      Step s (.exec true) {s with proc := some (.fresh image s.next)}
  | execFails (s : State Content) (p : Process Content) (attempt : Nat) :
      s.proc = some p → p.worker = .reported attempt →
      Step s (.exec false) {s with proc := some {p with worker := .idle}}

theorem cut_append {a : Text} (b : Text) (h : '\n' ∉ a) : cut (a ++ '\n' :: b) = (a,some b) := by
  induction a with
  | nil => simp [cut]
  | cons c cs ih =>
    simp only [List.mem_cons,not_or] at h
    simp [cut,Ne.symm h.1,ih h.2]

theorem cut_oneLine (text : Text) : '\n' ∉ (cut text).1 := by
  induction text with
  | nil => simp [cut]
  | cons c cs ih =>
    simp only [cut]
    split
    · simp
    · rename_i hc
      simp [ih,Ne.symm hc]

theorem readMarker_oneLine {data : Text} {m : Marker} (h : readMarker env data = some m) :
    '\n' ∉ m.prevVersionDir := by
  unfold readMarker at h
  split at h
  · cases h
  · cases h
    exact cut_oneLine _

variable {version : Text}

theorem readMarker_markerText {phase : Text} {prevVersionDir : Path} {deadline : Option Nat}
    (hp : '\n' ∉ phase) (hv : '\n' ∉ version) (hd : '\n' ∉ prevVersionDir) :
    readMarker env (markerText env phase version prevVersionDir deadline) =
      some ⟨phase,version,prevVersionDir,deadline⟩ := by
  have hdeadline : (if (deadline.map env.format).getD [] = [] then none
      else env.parse ((deadline.map env.format).getD [])) = deadline := by
    cases deadline with
    | none => rfl
    | some t => simp [env.format_ne_nil,env.parse_format]
  simp [readMarker,markerText,cut_append _ hp,cut_append _ hv,cut_append _ hd,hdeadline]

theorem Disk.readMarker_mark {disk : Disk Content} {phase : Text} {prevVersionDir : Path}
    {deadline : Option Nat} {attempt : Nat}
    (hp : '\n' ∉ phase) (hv : '\n' ∉ version) (hd : '\n' ∉ prevVersionDir) :
    (disk.mark env phase version prevVersionDir deadline attempt).readMarker env =
      some (attempt,⟨phase,version,prevVersionDir,deadline⟩) := by
  simp [Disk.readMarker,Disk.mark,readMarker_markerText env hp hv hd]

theorem phases_oneLine : '\n' ∉ phasePendingSwap ∧ '\n' ∉ phasePendingConfirm := by decide

theorem phases_ne : phasePendingSwap ≠ phasePendingConfirm := by decide

theorem readPendingOutcome_outcomeText {phase : Text} (hv : '\n' ∉ version)
    (hn : version ≠ []) (hp : phase ≠ []) :
    readPendingOutcome (outcomeText version phase) = some (version,phase) := by
  simp [readPendingOutcome,outcomeText,cut_append _ hv,hn,hp]

theorem validVersion_ne_nil (h : validVersion version = true) : version ≠ [] := by
  simp only [validVersion,decide_eq_true_eq] at h
  exact h.1

theorem urlParses_oneLine (h : urlParses version = true) : '\n' ∉ version := by
  intro hm
  have := List.all_eq_true.1 h _ hm
  revert this
  decide

theorem versionDir_oneLine (h : '\n' ∉ version) :
    '\n' ∉ versionDir env version := by
  have hroot : '\n' ∉ versionsRoot env := by
    simp only [versionsRoot,List.mem_append,not_or]
    exact ⟨env.oneLine,by decide⟩
  unfold versionDir
  split
  · exact hroot
  · simp only [List.mem_append,List.mem_cons,not_or]
    exact ⟨hroot,by decide,h⟩

theorem versionDir_ne_root (h : version ≠ ['/']) :
    versionDir env version ≠ versionsRoot env := by
  simp [versionDir,h]

theorem versionDir_ne_nil : versionDir env version ≠ [] := by
  have hroot : versionsRoot env ≠ [] := by
    intro h
    have hv := (List.append_eq_nil_iff.1 h).2
    revert hv
    decide
  unfold versionDir
  split
  · exact hroot
  · simp

theorem prune_keeps {disk : Disk Content} {live keep path : Path} {gone : Path → Bool}
    (hroot : path ≠ versionsRoot env) (hkeep : path = live ∨ path = keep) :
    (disk.prune env live keep gone).binaries path = disk.binaries path := by
  have : prunable env live keep path = false := by
    rcases hkeep with rfl | rfl <;> simp [prunable,hroot]
  simp [Disk.prune,this]

theorem expired_some {now : Nat} {found : Option (Nat × Marker)} {attempt : Nat} {m : Marker}
    (h : expired now found = some (attempt,m)) :
    found = some (attempt,m) ∧ m.phase = phasePendingConfirm ∧ m.deadline.any (· ≤ now) = true := by
  obtain ⟨hf,hc⟩ := Option.filter_eq_some_iff.1 h
  simpa using And.intro hf (by simpa using hc)

theorem Step.startsExpired {s : State Content} {p : Process Content} {path : Path}
    {deadline attempt : Nat} (hp : s.proc = some p) (hg : p.guard = .booting)
    (hm : s.disk.marker =
      some ⟨markerText env phasePendingConfirm version path (some deadline),attempt⟩)
    (hv : '\n' ∉ version) (hpath : '\n' ∉ path) (hd : deadline ≤ s.now) :
    Step env s .startup {s with proc := some {p with guard := .decided attempt version path}} := by
  have hread : s.disk.readMarker env =
      some (attempt,⟨phasePendingConfirm,version,path,some deadline⟩) := by
    simp [Disk.readMarker,hm,readMarker_markerText env phases_oneLine.2 hv hpath]
  have hexpired : expired s.now (s.disk.readMarker env) =
      some (attempt,⟨phasePendingConfirm,version,path,some deadline⟩) := by
    simp [expired,hread,hd]
  exact .startupExpired s p attempt _ hp hg hexpired

def minuteText (t : Nat) : Text :=
  if t < 60 then
    "1970-01-01T00:".toList++[Nat.digitChar (t/10),Nat.digitChar (t%10)]++":00Z".toList
  else List.replicate t 'm'

def parseMinute (text : Text) : Option Nat :=
  if text.length = 20 then
    some (10*((text.getD 14 '0').toNat-48)+((text.getD 15 '0').toNat-48))
  else some text.length

theorem parseMinute_minuteText (t : Nat) : parseMinute (minuteText t) = some t := by
  by_cases ht : t < 60
  · revert t
    decide
  · have hlen : (minuteText t).length = t := by simp [minuteText,ht]
    have : t ≠ 20 := by omega
    simp [parseMinute,hlen,this]

def defaultEnv : Env where
  stateDir := "/var/lib/cb-agent".toList
  oneLine := by decide
  rollbackWindow := 2
  format := minuteText
  parse := parseMinute
  parse_format := parseMinute_minuteText
  format_ne_nil t := by
    intro h
    have : parseMinute [] = some t := h ▸ parseMinute_minuteText t
    have h0 : t = 0 := by simpa [parseMinute] using this.symm
    subst h0
    revert h
    decide

end CircuitBreaker.SelfUpdate
