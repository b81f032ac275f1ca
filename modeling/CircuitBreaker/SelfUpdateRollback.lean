import CircuitBreaker.SelfUpdate

/-! What a rollback restores. The previous binary of an update stays what it was for as
long as something may still point `current` back at it. -/

namespace CircuitBreaker.SelfUpdate
open StepRuns

variable (env : Env) {Content : Type}

/-- A rollback to this directory has been decided and not yet carried out. -/
def Guard.Decided (guard : Guard) (path : Path) : Prop :=
  ∃ attempt version, guard = .decided attempt version path

/-- The condition the steps of a run are to meet. A hello is confirmed only by a process
with no update and no decided rollback under way; no binary is moved into the versions
directory itself, into the directory an unconfirmed update came from, or into one a
decided rollback is about to restore; and when `Swap` reads the `current` link, the file
it names is the binary that is running. -/
def Restorable (s : State Content) : Event Content → Prop
  | .helloAck => ∀ p, s.proc = some p → p.confirmOnce = false →
      p.worker = .idle ∧ ∀ path, ¬p.guard.Decided path
  | .install => ∀ p attempt version binary, s.proc = some p →
      p.worker = .marked attempt version binary →
      version ≠ ['/'] ∧ (∀ other path, s.unconfirmed = some (other,path) → path ≠ versionDir env version) ∧
        ¬p.guard.Decided (versionDir env version)
  | .resolve => ∀ p, s.proc = some p → s.disk.resolve = some p.image
  | _ => True

/-- A version directory, as far as the marker's text and pruning are concerned. -/
def IsDir (path : Path) : Prop := path ≠ versionsRoot env ∧ path ≠ [] ∧ '\n' ∉ path

/-- The directory still holds the binary that ran before the attempt's swap. -/
def Holds (s : State Content) (attempt : Nat) (path : Path) : Prop :=
  IsDir env path ∧ ∃ binary, s.before attempt = some binary ∧ s.disk.binaries path = some binary

def Unswapped (s : State Content) : Prop :=
  ∀ attempt m, s.disk.readMarker env = some (attempt,m) → m.phase ≠ phasePendingConfirm

def Unbegun (s : State Content) (attempt : Nat) : Prop :=
  attempt < s.next ∧ s.before attempt = none

def Worker.Kept (s : State Content) : Worker Content → Prop
  | .verified attempt version _ => '\n' ∉ version ∧ Unbegun s attempt
  | .marked attempt version _ => '\n' ∉ version ∧ Unbegun s attempt ∧ Unswapped env s
  | .installed attempt version =>
    '\n' ∉ version ∧ version ≠ ['/'] ∧ Unbegun s attempt ∧ Unswapped env s
  | .resolved attempt version path =>
    '\n' ∉ version ∧ version ≠ ['/'] ∧ Holds env s attempt path ∧ Unswapped env s
  | .swapped attempt version path => '\n' ∉ version ∧ Holds env s attempt path
  | _ => True

/-- While a hello is being confirmed nothing else writes the marker, so the directory it
keeps is the one a rollback decided meanwhile restores. -/
def Link.Kept (s : State Content) (guard : Guard) (worker : Worker Content) : Link → Prop
  | .acked => worker = .idle ∧ s.unconfirmed = none ∧
      ∀ path, guard.Decided path → (s.disk.readMarker env).map (·.2.prevVersionDir) = some path
  | .confirming keep => worker = .idle ∧ s.unconfirmed = none ∧
      (∀ attempt m, s.disk.readMarker env = some (attempt,m) → keep = some m.prevVersionDir) ∧
      ∀ path, guard.Decided path → keep = some path
  | .pruning keep => worker = .idle ∧ s.unconfirmed = none ∧ s.disk.marker = none ∧
      ∀ path, guard.Decided path → path = keep
  | .removing _ keep => worker = .idle ∧ s.unconfirmed = none ∧ s.disk.marker = none ∧
      ∀ path, guard.Decided path → path = keep
  | _ => True

structure Process.Kept (s : State Content) (p : Process Content) : Prop where
  guard : ∀ attempt version path, p.guard = .decided attempt version path → Holds env s attempt path
  worker : p.worker.Kept env s
  link : p.link.Kept env s p.guard p.worker

structure State.Kept (s : State Content) : Prop where
  current : ∀ path, s.disk.current = some path → IsDir env path
  later : ∀ attempt, s.next ≤ attempt → s.before attempt = none
  marker : ∀ attempt m, s.disk.readMarker env = some (attempt,m) →
    m.phase = phasePendingConfirm → Holds env s attempt m.prevVersionDir
  unconfirmed : ∀ attempt path, s.unconfirmed = some (attempt,path) → Holds env s attempt path
  proc : ∀ p, s.proc = some p → p.Kept env s

variable {env} {s : State Content} {p : Process Content}

theorem Process.fresh_kept (image : Content) (base : Nat) : (Process.fresh image base).Kept env s :=
  ⟨nofun,trivial,trivial⟩

theorem Link.Kept.guard {link : Link} {guard guard' : Guard} {worker : Worker Content}
    (h : link.Kept env s guard worker) (hg : ∀ path, guard'.Decided path → guard.Decided path) :
    link.Kept env s guard' worker := by
  cases link with
  | acked => exact ⟨h.1,h.2.1,fun path hp => h.2.2 path (hg path hp)⟩
  | confirming keep | pruning keep | removing live keep =>
    exact ⟨h.1,h.2.1,h.2.2.1,fun path hp => h.2.2.2 path (hg path hp)⟩
  | offline | reporting | sending | clearingOutcome | clearingReport | online => trivial

variable {link : Link} {guard : Guard} {worker : Worker Content} {now attempt : Nat}
  {version : Text} {path : Path} {binary : Content}

theorem Link.Kept.busy (h : link.Kept env s guard worker) (hw : worker ≠ .idle) (t : State Content)
    (guard' : Guard) (worker' : Worker Content) : link.Kept env t guard' worker' := by
  cases link with
  | acked | confirming keep | pruning keep | removing live keep => exact absurd h.1 hw
  | offline | reporting | sending | clearingOutcome | clearingReport | online => trivial

def State.aside (s : State Content) (outcome report : Option Filed) (now : Nat) (undone : List Nat)
    (sent : List Record) (proc : Option (Process Content)) : State Content :=
  {s with disk := {s.disk with outcome := outcome, report := report}
          now := now, undone := undone, sent := sent, proc := proc}

theorem Process.Kept.aside (h : p.Kept env s) {outcome report : Option Filed}
    {undone : List Nat} {sent : List Record} {proc : Option (Process Content)} :
    p.Kept env (s.aside outcome report now undone sent proc) :=
  ⟨h.guard,h.worker,h.link⟩

theorem State.Kept.aside (h : s.Kept env) {outcome report : Option Filed}
    {undone : List Nat} {sent : List Record} {proc : Option (Process Content)}
    (hp : ∀ p, proc = some p → p.Kept env s) :
    (s.aside outcome report now undone sent proc).Kept env :=
  ⟨h.current,h.later,h.marker,h.unconfirmed,fun q hq => (hp q hq).aside⟩

theorem State.Kept.process (h : s.Kept env) (hp : p.Kept env s) :
    State.Kept env {s with proc := some p} :=
  h.aside fun q hq => by cases hq; exact hp

def State.unmark (s : State Content) : State Content := {s with disk := {s.disk with marker := none}}

theorem Worker.Kept.unmark (h : worker.Kept env s) :
    worker.Kept env s.unmark := by
  have none_left : Unswapped env s.unmark := nofun
  cases worker with
  | verified | swapped => exact h
  | marked => exact ⟨h.1,h.2.1,none_left⟩
  | installed | resolved => exact ⟨h.1,h.2.1,h.2.2.1,none_left⟩
  | idle | refused | noted | recorded | reported => trivial

theorem State.Kept.unmark (h : s.Kept env) (hp : p.Kept env s.unmark) :
    State.Kept env {s.unmark with proc := some p} :=
  ⟨h.current,h.later,nofun,h.unconfirmed,
    fun q hq => by cases hq; exact ⟨hp.guard,hp.worker,hp.link⟩⟩

theorem Link.Kept.unmark {guard' : Guard}
    (h : link.Kept env s guard worker) (hg : ∀ path, ¬guard'.Decided path) :
    link.Kept env s.unmark guard' worker := by
  cases link with
  | acked => exact ⟨h.1,h.2.1,fun path hp => absurd hp (hg path)⟩
  | confirming keep =>
    exact ⟨h.1,h.2.1,nofun,fun path hp => absurd hp (hg path)⟩
  | pruning keep | removing live keep => exact ⟨h.1,h.2.1,rfl,fun path hp => absurd hp (hg path)⟩
  | offline | reporting | sending | clearingOutcome | clearingReport | online => trivial

theorem Guard.not_decided (h : ∀ attempt version path, guard ≠ .decided attempt version path)
    (path : Path) : ¬guard.Decided path := by
  rintro ⟨attempt,version,hd⟩
  exact h _ _ _ hd

theorem watchDecides_decided {pendingVersion : Text} {found : Option (Nat × Marker)}
    (h : watchDecides pendingVersion found = .decided attempt version path) :
    ∃ m, found = some (attempt,m) ∧ m.phase = phasePendingConfirm ∧ m.version = version ∧
      m.prevVersionDir = path := by
  cases found with
  | none => cases h
  | some am =>
    obtain ⟨a,m⟩ := am
    simp only [watchDecides] at h
    split at h
    · cases h
    · split at h <;> cases h
      exact ⟨m,rfl,‹_›,rfl,rfl⟩

theorem watchFor_not_decided {found : Option (Nat × Marker)} (path : Path) :
    ¬(watchFor env now found).Decided path := by
  rintro ⟨attempt,version,h⟩
  unfold watchFor at h
  split at h <;> cases h

theorem Holds.install (h : Holds env s attempt path) (hne : path ≠ versionDir env version) :
    Holds env {s with disk := s.disk.install env version binary} attempt path := by
  obtain ⟨hdir,b,hb,hd⟩ := h
  exact ⟨hdir,b,hb,by simp [Disk.install,hne,hd]⟩

theorem Holds.prune {live keep : Path} {gone : Path → Bool} (h : Holds env s attempt keep) :
    Holds env {s with disk := s.disk.prune env live keep gone} attempt keep := by
  obtain ⟨hdir,b,hb,hd⟩ := h
  exact ⟨hdir,b,hb,(prune_keeps env hdir.1 (.inr rfl)).trans hd⟩

theorem Holds.resolve {other : Nat} {image : Content}
    (h : Holds env s attempt path) (hu : Unbegun s other) :
    Holds env {s with before := fun a => if a = other then some image else s.before a}
      attempt path := by
  obtain ⟨hdir,b,hb,hd⟩ := h
  refine ⟨hdir,b,?_,hd⟩
  have : attempt ≠ other := by
    rintro rfl
    rw [hu.2] at hb
    cases hb
  simpa [this] using hb

theorem Process.Kept.guardOver (h : p.Kept env s) (started : Bool) {guard : Guard}
    (hg : ∀ attempt version path, guard ≠ .decided attempt version path) :
    Process.Kept env s {p with guard := guard, started := started} :=
  ⟨fun _ _ _ hd => absurd hd (hg _ _ _),h.worker,
    h.link.guard fun path hp => absurd hp (Guard.not_decided hg path)⟩

theorem Process.Kept.linked (h : p.Kept env s)
    (hl : link.Kept env s p.guard p.worker) : Process.Kept env s {p with link := link} :=
  ⟨h.guard,h.worker,hl⟩

theorem install_kept (h : s.Kept env)
    (hp : s.proc = some p) (hw : p.worker = .marked attempt version binary)
    (hr : Restorable env s .install) :
    State.Kept env {s with disk := s.disk.install env version binary
                           proc := some {p with worker := .installed attempt version}} := by
  obtain ⟨hslash,hun,hguard⟩ := hr p attempt version binary hp hw
  have hk := h.proc p hp
  have hworker := hk.worker
  rw [hw] at hworker
  refine ⟨h.current,h.later,?_,?_,?_⟩
  · intro a m hm hc
    exact absurd hc (hworker.2.2 a m hm)
  · intro a path hu
    exact (h.unconfirmed a path hu).install (hun a path hu)
  · intro q hq
    cases hq
    refine ⟨?_,⟨hworker.1,hslash,hworker.2⟩,hk.link.busy (by simp [hw]) _ _ _⟩
    intro a v path hd
    refine (hk.guard a v path hd).install ?_
    rintro rfl
    exact hguard ⟨a,v,hd⟩

theorem prune_kept (h : s.Kept env) {live keep : Path} {gone : Path → Bool}
    (hp : s.proc = some p) (hl : p.link = .removing live keep) :
    State.Kept env {s with disk := s.disk.prune env live keep gone} := by
  have hk := h.proc p hp
  have hlink := hk.link
  rw [hl] at hlink
  obtain ⟨hidle,hnone,hmarker,hkeep⟩ := hlink
  refine ⟨h.current,h.later,?_,?_,?_⟩
  · intro a m hm
    simp [Disk.readMarker,Disk.prune,hmarker] at hm
  · intro a path hu
    rw [hnone] at hu
    cases hu
  · intro q hq
    cases hp.symm.trans hq
    refine ⟨?_,?_,?_⟩
    · intro a v path hd
      have hpath := hkeep path ⟨a,v,hd⟩
      subst hpath
      exact (hk.guard a v path hd).prune
    · rw [hidle]
      trivial
    · rw [hl]
      exact ⟨hidle,hnone,hmarker,hkeep⟩

theorem resolve_kept (h : s.Kept env)
    (hp : s.proc = some p) (hw : p.worker = .installed attempt version)
    (hr : Restorable env s .resolve) :
    State.Kept env
      {s with proc := some {p with worker := .resolved attempt version (s.disk.current.getD [])}
              before := fun a => if a = attempt then some p.image else s.before a} := by
  have hrun := hr p hp
  have hk := h.proc p hp
  have hworker := hk.worker
  rw [hw] at hworker
  obtain ⟨hline,hslash,hunbegun,hunswapped⟩ := hworker
  obtain ⟨path,hcurrent,hbinary⟩ := Option.bind_eq_some_iff.1 hrun
  have hdir := h.current path hcurrent
  refine ⟨h.current,?_,?_,?_,?_⟩
  · intro a ha
    have hne : a ≠ attempt := by
      rintro rfl
      exact absurd hunbegun.1 (Nat.not_lt.2 ha)
    simpa [hne] using h.later a ha
  · exact fun a m hm hc => (h.marker a m hm hc).resolve hunbegun
  · exact fun a path hu => (h.unconfirmed a path hu).resolve hunbegun
  · intro q hq
    cases hq
    refine ⟨fun a v path hd => (hk.guard a v path hd).resolve hunbegun,?_,
      hk.link.busy (by simp [hw]) _ _ _⟩
    refine ⟨hline,hslash,?_,hunswapped⟩
    simp only [hcurrent,Option.getD_some]
    exact ⟨hdir,p.image,by simp,hbinary⟩

theorem markSwapped_kept (h : s.Kept env)
    (hp : s.proc = some p) (hw : p.worker = .swapped attempt version path) (deadline : Nat) :
    State.Kept env
      {s with disk := s.disk.mark env phasePendingConfirm version path (some deadline) attempt
              proc := some {p with worker := .noted attempt version, hasSwapped := true}} := by
  have hk := h.proc p hp
  have hworker := hk.worker
  rw [hw] at hworker
  obtain ⟨hline,hholds⟩ := hworker
  refine ⟨h.current,h.later,?_,h.unconfirmed,?_⟩
  · intro a m hm _
    rw [Disk.readMarker_mark env phases_oneLine.2 hline hholds.1.2.2] at hm
    cases hm
    exact hholds
  · intro q hq
    cases hq
    exact ⟨hk.guard,trivial,hk.link.busy (by simp [hw]) _ _ _⟩

theorem writeMarker_kept (h : s.Kept env)
    (hp : s.proc = some p) (hw : p.worker = .verified attempt version binary) :
    State.Kept env
      {s with disk := s.disk.mark env phasePendingSwap version [] none attempt
              proc := some {p with worker := .marked attempt version binary}} := by
  have hk := h.proc p hp
  have hworker := hk.worker
  rw [hw] at hworker
  have unswapped : ∀ a m,
      (s.disk.mark env phasePendingSwap version [] none attempt).readMarker env = some (a,m) →
      m.phase ≠ phasePendingConfirm := by
    intro a m hm
    rw [Disk.readMarker_mark env phases_oneLine.1 hworker.1 (by simp)] at hm
    cases hm
    exact phases_ne
  refine ⟨h.current,h.later,fun a m hm hc => absurd hc (unswapped a m hm),h.unconfirmed,?_⟩
  intro q hq
  cases hq
  exact ⟨hk.guard,⟨hworker.1,hworker.2,unswapped⟩,hk.link.busy (by simp [hw]) _ _ _⟩

theorem Process.Kept.working (h : p.Kept env s) (hw : p.worker ≠ .idle)
    (hk : worker.Kept env s) : Process.Kept env s {p with worker := worker} :=
  ⟨h.guard,hk,h.link.busy hw _ _ _⟩

theorem decided_kept (h : s.Kept env) {m : Marker} (hp : s.proc = some p)
    (hfound : s.disk.readMarker env = some (attempt,m)) (hphase : m.phase = phasePendingConfirm) :
    State.Kept env
      {s with proc := some {p with guard := .decided attempt m.version m.prevVersionDir}} := by
  have hk := h.proc p hp
  refine h.process ⟨?_,hk.worker,?_⟩
  · rintro a v path ⟨⟩
    exact h.marker attempt m hfound hphase
  · have hlink := hk.link
    have only : ∀ path, (Guard.decided attempt m.version m.prevVersionDir).Decided path →
        path = m.prevVersionDir := by
      rintro path ⟨a,v,⟨⟩⟩
      rfl
    have unmarked : s.disk.marker ≠ none := by
      intro hm
      simp [Disk.readMarker,hm] at hfound
    cases hl : p.link with rw [hl] at hlink
    | acked =>
      exact ⟨hlink.1,hlink.2.1,fun path hd => by simp [hfound,only path hd]⟩
    | confirming keep =>
      refine ⟨hlink.1,hlink.2.1,hlink.2.2.1,fun path hd => ?_⟩
      rw [only path hd]
      exact hlink.2.2.1 attempt m hfound
    | pruning keep | removing live keep =>
      exact absurd hlink.2.2.1 unmarked
    | offline | reporting | sending | clearingOutcome | clearingReport | online => trivial

theorem rollback_kept (h : s.Kept env) {attempt : Nat} {version : Text} {path : Path}
    (hp : s.proc = some p) (hg : p.guard = .decided attempt version path) :
    State.Kept env
      {s with disk := {s.disk with current := some path}
              proc := some {p with guard := .repointed attempt version}
              unconfirmed := s.unconfirmed.filter (·.1 ≠ attempt)
              undone := attempt::s.undone} := by
  have hk := h.proc p hp
  have undecided : ∀ other, ¬(Guard.repointed attempt version).Decided other :=
    Guard.not_decided nofun
  refine ⟨?_,h.later,h.marker,?_,?_⟩
  · rintro _ ⟨⟩
    exact (hk.guard attempt version path hg).1
  · intro a other hu
    exact h.unconfirmed a other (Option.filter_eq_some_iff.1 hu).1
  · intro q hq
    cases hq
    refine ⟨nofun,hk.worker,?_⟩
    have hlink := hk.link.guard fun other hd => absurd hd (undecided other)
    cases hl : p.link with
    | acked | confirming keep | pruning keep | removing live keep =>
      rw [hl] at hlink
      exact ⟨hlink.1,by simp [hlink.2.1],hlink.2.2⟩
    | offline | reporting | sending | clearingOutcome | clearingReport | online => trivial

theorem repoint_kept (h : s.Kept env)
    (hp : s.proc = some p) (hw : p.worker = .resolved attempt version path) :
    State.Kept env
      {s with disk := {s.disk with current := some (versionDir env version)}
              proc := some {p with worker := .swapped attempt version path}
              unconfirmed := some (attempt,path)} := by
  have hk := h.proc p hp
  have hworker := hk.worker
  rw [hw] at hworker
  obtain ⟨hline,hslash,hholds,-⟩ := hworker
  refine ⟨?_,h.later,h.marker,?_,?_⟩
  · rintro _ ⟨⟩
    exact ⟨versionDir_ne_root env hslash,versionDir_ne_nil env,versionDir_oneLine env hline⟩
  · rintro _ _ ⟨⟩
    exact hholds
  · intro q hq
    cases hq
    exact ⟨hk.guard,⟨hline,hholds⟩,hk.link.busy (by simp [hw]) _ _ _⟩

theorem update_kept (h : s.Kept env) (hp : s.proc = some p)
    (hl : p.link = .offline ∨ p.link = .online) (hurl : urlParses version = true) :
    State.Kept env
      {s with proc := some {p with worker := .verified s.next version binary}
              next := s.next+1} := by
  have hk := h.proc p hp
  refine ⟨h.current,fun a ha => h.later a (Nat.le_of_succ_le ha),h.marker,h.unconfirmed,?_⟩
  intro q hq
  cases hq
  refine ⟨hk.guard,⟨urlParses_oneLine hurl,Nat.lt_succ_self _,h.later _ (Nat.le_refl _)⟩,?_⟩
  rcases hl with hl | hl <;> simp only [hl] <;> trivial

theorem step_kept (s : State Content) (e : Event Content) (t : State Content)
    (h : s.Kept env) (hs : Guarded (Step env) (Restorable env) s e t) : t.Kept env := by
  obtain ⟨hr,hs⟩ := hs
  have kept : ∀ p, s.proc = some p → p.Kept env s := h.proc
  cases hs with
  | tick => exact h.aside h.proc
  | crash => exact h.aside fun _ h => by cases h
  | boot image hp himage | reExec p attempt image hp hg himage
  | exec p attempt image hp hw himage => exact h.process (Process.fresh_kept image s.next)
  | startupExpired p attempt m hp hg he => exact decided_kept h hp (expired_some he).1 (expired_some he).2.1
  | startup p hp hg he =>
    exact h.process ((kept p hp).guardOver true fun a v path hd => watchFor_not_decided path ⟨a,v,hd⟩)
  | wake p pendingVersion wakeAt hp hg hw =>
    by_cases hd : ∃ path, (watchDecides pendingVersion (s.disk.readMarker env)).Decided path
    · obtain ⟨path,a,v,hd⟩ := hd
      obtain ⟨m,hfound,hphase,rfl,rfl⟩ := watchDecides_decided hd
      rw [hd]
      exact decided_kept h hp hfound hphase
    · exact h.process ((kept p hp).guardOver p.started fun a v path hg => hd ⟨path,a,v,hg⟩)
  | rollback p attempt version path hp hg hn => exact rollback_kept h hp hg
  | rollbackFails p attempt version hp hg =>
    exact h.process ((kept p hp).guardOver p.started nofun)
  | writeReport p attempt version hp hg | clearOutcome p attempt hp hg =>
    refine h.aside fun q hq => ?_
    cases hq
    exact (kept p hp).guardOver p.started nofun
  | clearMarker p attempt hp hg | abandon p hp hg =>
    have hk := kept p hp
    exact h.unmark ⟨nofun,hk.worker.unmark,
      hk.link.unmark (Guard.not_decided fun _ _ _ h => by cases h)⟩
  | reExecFails p attempt hp hg =>
    exact h.process ((kept p hp).guardOver true nofun)
  | helloAckFirst p hp hstarted hl hc =>
    obtain ⟨hidle,hguard⟩ := hr p hp hc
    have hk := kept p hp
    refine ⟨h.current,h.later,h.marker,nofun,fun q hq => ?_⟩
    cases hq
    refine ⟨hk.guard,?_,hidle,rfl,fun path hd => absurd hd (hguard path)⟩
    simp only [hidle]
    trivial
  | helloAck p hp hstarted hl hc | pruned p live keep hp hl | sendFails p record hp hl
  | drop p hp hl => exact h.process ((kept p hp).linked trivial)
  | readConfirm p hp hl =>
    have hk := kept p hp
    have hlink := hk.link
    rw [hl] at hlink
    obtain ⟨hidle,hnone,hd⟩ := hlink
    refine h.process (hk.linked ⟨hidle,hnone,?_,hd⟩)
    intro a m hm
    simp [hm]
  | clearConfirm p keep hp hl =>
    have hk := kept p hp
    have hlink := hk.link
    rw [hl] at hlink
    obtain ⟨hidle,hnone,-,hd⟩ := hlink
    refine h.unmark ⟨hk.guard,hk.worker.unmark,?_⟩
    cases keep with
    | none => trivial
    | some keep => exact ⟨hidle,hnone,rfl,fun path hp => (Option.some.inj (hd path hp)).symm⟩
  | readLive p keep hp hl =>
    have hk := kept p hp
    have hlink := hk.link
    rw [hl] at hlink
    refine h.process (hk.linked ?_)
    cases s.disk.current with
    | none => trivial
    | some live => exact hlink
  | prune p live keep gone hp hl => exact prune_kept h hp hl
  | readRecords p hp hl =>
    refine h.process ((kept p hp).linked ?_)
    cases s.disk.reportPendingUpdateOutcome <;> trivial
  | send p record hp hl | clearSentOutcome p hp hl | clearSentReport p hp hl =>
    refine h.aside fun q hq => ?_
    cases hq
    exact (kept p hp).linked trivial
  | sendLive p attempt rest hp hst hl =>
    have hk := kept p hp
    exact h.process ⟨hk.guard,hk.worker,hk.link⟩
  | update p version binary hp hstarted hl hw hurl => exact update_kept h hp hl hurl
  | writeMarker p attempt version binary hp hw => exact writeMarker_kept h hp hw
  | install p attempt version binary hp hw hv => exact install_kept h hp hw hr
  | refuse p attempt version binary hp hw hv | execFails p attempt hp hw =>
    exact h.process ((kept p hp).working (by simp [hw]) trivial)
  | clearRefused p attempt hp hw =>
    have hk := kept p hp
    exact h.unmark ⟨hk.guard,trivial,hk.link.busy (by simp [hw]) _ _ _⟩
  | resolve p attempt version hp hw => exact resolve_kept h hp hw hr
  | repoint p attempt version path hp hw => exact repoint_kept h hp hw
  | markSwapped p attempt version path hp hw => exact markSwapped_kept h hp hw _
  | writePendingOutcome p attempt version hp hw =>
    refine h.aside fun q hq => ?_
    cases hq
    exact (kept p hp).working (by simp [hw]) trivial
  | reportSucceeded p attempt version hp hw =>
    have hk := kept p hp
    exact h.process ⟨hk.guard,trivial,hk.link.busy (by simp [hw]) _ _ _⟩

theorem installed_kept (binary : Content) (hurl : urlParses version = true)
    (hslash : version ≠ ['/']) : (State.installed env version binary).Kept env := by
  refine ⟨?_,fun _ _ => rfl,(fun _ _ h => by cases h),(fun _ _ h => by cases h),(fun _ h => by cases h)⟩
  rintro _ ⟨⟩
  exact ⟨versionDir_ne_root env hslash,versionDir_ne_nil env,
    versionDir_oneLine env (urlParses_oneLine hurl)⟩

/-- In every run that meets the condition, whenever `current` is pointed back for an
update, it names the very binary that ran before that update's swap; and while an update
is unconfirmed, the binary it replaced is still there. -/
theorem rollback_restores_running {version : Text} {binary : Content}
    (hurl : urlParses version = true) (hslash : version ≠ ['/'])
    {s : State Content} {es : List (Event Content)}
    (run : Run (Guarded (Step env) (Restorable env)) (.installed env version binary) es s) :
    (∀ attempt t, Step env s (.rollback attempt) t →
      ∃ running, s.before attempt = some running ∧ t.disk.resolve = some running) ∧
    (∀ attempt path, s.unconfirmed = some (attempt,path) →
      ∃ running, s.before attempt = some running ∧ s.disk.binaries path = some running) := by
  have h := run.invariant step_kept (installed_kept binary hurl hslash)
  refine ⟨fun attempt t hs => ?_,fun attempt path hu => (h.unconfirmed attempt path hu).2⟩
  cases hs with
  | rollback p attempt version path hp hg hn =>
    obtain ⟨-,running,hb,hd⟩ := (h.proc p hp).guard attempt version path hg
    exact ⟨running,hb,by simpa [Disk.resolve] using hd⟩

theorem rollback_restores_running_first : let v : Text := "1.0".toList
    ∃ (es : List (Event Bool)) (s t : State Bool),
      Run (Guarded (Step defaultEnv) (Restorable defaultEnv)) (.installed defaultEnv v false) es s ∧
      Step defaultEnv s (.rollback 0) t ∧ s.disk.resolve = some true ∧
      ∃ running, s.before 0 = some running ∧ t.disk.resolve = some running := by
  intro v
  let w : Text := "2.0".toList
  have install : ∀ (s : State Bool) p, s.proc = some p → p.worker = .marked 0 w true →
      s.unconfirmed = none → (∀ path, ¬p.guard.Decided path) → Restorable defaultEnv s .install := by
    intro s p hp hw hu hg q a version binary hq hw'
    cases hp.symm.trans hq
    cases hw.symm.trans hw'
    exact ⟨by decide,fun _ _ hc => (by rw [hu] at hc; cases hc),hg _⟩
  have undecided : ∀ path, ¬Guard.ended.Decided path :=
    Guard.not_decided nofun
  have start : Run (Guarded (Step defaultEnv) (Restorable defaultEnv))
      (.installed defaultEnv v false) [] (.installed defaultEnv v false) := .nil _
  have run := ((((((((((((((((start.also (.boot _ false rfl rfl) trivial).also
    (.startup _ _ rfl rfl rfl) trivial).also
    (.helloAckFirst _ _ rfl rfl rfl rfl) fun _ hq _ => by cases hq; exact ⟨rfl,undecided⟩).also
    (.readConfirm _ _ rfl rfl) trivial).also (.clearConfirm _ _ none rfl rfl) trivial).also
    (.readRecords _ _ rfl rfl) trivial).also
    (.update _ _ w true rfl rfl (.inr rfl) rfl (by decide)) trivial).also
    (.writeMarker _ _ 0 w true rfl rfl) trivial).also
    (.install _ _ 0 w true rfl rfl (by decide)) (install _ _ rfl rfl rfl undecided)).also
    (.resolve _ _ 0 w rfl rfl) fun _ hq => by cases hq; decide).also
    (.repoint _ _ 0 w _ rfl rfl) trivial).also (.markSwapped _ _ 0 w _ rfl rfl) trivial).also
    (.writePendingOutcome _ _ 0 w rfl rfl) trivial).also
    (.reportSucceeded _ _ 0 w rfl rfl) trivial).also (.exec _ _ 0 true rfl rfl rfl) trivial).also
    (.tick _) trivial).also (.tick _) trivial
  have run := run.also
    (.startsExpired defaultEnv rfl rfl rfl (by decide) (by decide) (by decide)) trivial
  refine ⟨_,_,_,run,.rollback _ _ 0 w _ rfl rfl (by decide),by decide,?_⟩
  exact (rollback_restores_running (by decide) (by decide) run).1 0 _
    (.rollback _ _ 0 w _ rfl rfl (by decide))

/-- A run in which version 1.0 is delivered again with another binary: the running
binary is overwritten in place, and the expired window rolls back to the new one. -/
theorem rollback_keeps_redelivered : let v : Text := "1.0".toList
    ¬∀ (es : List (Event Bool)) (s : State Bool),
      Run (Step defaultEnv) (.installed defaultEnv v false) es s →
      ∀ attempt t, Step defaultEnv s (.rollback attempt) t →
        ∃ running, s.before attempt = some running ∧ t.disk.resolve = some running := by
  intro v claim
  have start : Run (Step defaultEnv) (.installed defaultEnv v false) []
      (.installed defaultEnv v false) := .nil _
  have run := ((((((((((((((((start.snoc
    (.boot _ false rfl rfl)).snoc (.startup _ _ rfl rfl rfl)).snoc
    (.helloAckFirst _ _ rfl rfl rfl rfl)).snoc (.readConfirm _ _ rfl rfl)).snoc
    (.clearConfirm _ _ none rfl rfl)).snoc (.readRecords _ _ rfl rfl)).snoc
    (.update _ _ v true rfl rfl (.inr rfl) rfl (by decide))).snoc
    (.writeMarker _ _ 0 v true rfl rfl)).snoc (.install _ _ 0 v true rfl rfl (by decide))).snoc
    (.resolve _ _ 0 v rfl rfl)).snoc (.repoint _ _ 0 v _ rfl rfl)).snoc
    (.markSwapped _ _ 0 v _ rfl rfl)).snoc (.writePendingOutcome _ _ 0 v rfl rfl)).snoc
    (.reportSucceeded _ _ 0 v rfl rfl)).snoc (.exec _ _ 0 true rfl rfl rfl)).snoc
    (.tick _)).snoc (.tick _)
  have run := run.snoc (.startsExpired defaultEnv rfl rfl rfl (by decide) (by decide) (by decide))
  obtain ⟨running,hb,hr⟩ := claim _ _ run 0 _ (.rollback _ _ 0 v _ rfl rfl (by decide))
  cases hb
  exact absurd hr (by decide)

end CircuitBreaker.SelfUpdate
