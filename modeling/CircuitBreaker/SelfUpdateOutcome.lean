import CircuitBreaker.SelfUpdate

/-! How an update's outcome is reported. A succeeded update leaves a pending outcome for
the process it starts, a rollback leaves a report for the process it returns to; each is
removed once it has been sent, and a rollback removes the outcome it supersedes. -/

namespace CircuitBreaker.SelfUpdate
open StepRuns List

variable (env : Env) {Content : Type}

def Guard.rolling : Guard → Option Nat
  | .decided attempt _ _ => some attempt
  | .repointed attempt _ => some attempt
  | .told attempt => some attempt
  | .cleared attempt => some attempt
  | _ => none

def Link.Settled (link : Link) : Prop := link = .offline ∨ link = .online

def Link.Sending : Link → Prop
  | .sending _ => True
  | .clearingOutcome => True
  | .clearingReport => True
  | _ => False

/-- The condition the steps of a run are to meet. No hello and no update is taken while a
rollback is under way in the process, and the watch decides on one only between hellos,
with no update running and none swapped by the process itself; the process that swapped an
update does not report records; and a swap is marked only once every record on disk has
been sent and cleared. -/
def Orderly (s : State Content) : Event Content → Prop
  | .helloAck => ∀ p, s.proc = some p → p.guard.rolling = none
  | .update _ _ => ∀ p, s.proc = some p → p.guard.rolling = none
  | .wake => ∀ p pendingVersion wakeAt attempt, s.proc = some p →
      p.guard = .asleep pendingVersion wakeAt →
      (watchDecides pendingVersion (s.disk.readMarker env)).rolling = some attempt →
      p.link.Settled ∧ p.worker = .idle ∧ p.hasSwapped = false
  | .readRecords => ∀ p, s.proc = some p → p.hasSwapped = false
  | .markSwapped => ∀ p, s.proc = some p →
      s.disk.outcome = none ∧ s.disk.report = none ∧ p.guard.rolling = none ∧ ¬p.link.Sending
  | _ => True

def Confirming (s : State Content) (attempt : Nat) (m : Marker) : Prop :=
  s.disk.readMarker env = some (attempt,m) ∧ m.phase = phasePendingConfirm

def Redoable (s : State Content) (attempt : Nat) : Prop :=
  ∃ m, Confirming env s attempt m ∧ m.deadline.any (· ≤ s.now) = true ∧ m.prevVersionDir ≠ []

def Guard.Fair (s : State Content) (hasSwapped : Bool) : Guard → Prop
  | .asleep _ wakeAt => hasSwapped = false →
      ∀ attempt m, Confirming env s attempt m → m.deadline.any (· ≤ wakeAt) = true
  | .decided attempt _ path =>
      ∃ m, Confirming env s attempt m ∧ m.deadline.any (· ≤ s.now) = true ∧ m.prevVersionDir = path
  | .repointed attempt _ => Redoable env s attempt ∧ attempt ∈ s.undone
  | .told attempt => Redoable env s attempt ∧ attempt ∈ s.undone
  | .cleared attempt => Redoable env s attempt ∧ s.disk.outcome = none
  | _ => True

def Worker.attempt : Worker Content → Option Nat
  | .idle => none
  | .verified attempt _ _ => some attempt
  | .marked attempt _ _ => some attempt
  | .refused attempt => some attempt
  | .installed attempt _ => some attempt
  | .resolved attempt _ _ => some attempt
  | .swapped attempt _ _ => some attempt
  | .noted attempt _ => some attempt
  | .recorded attempt _ => some attempt
  | .reported attempt => some attempt

def Worker.Fair (s : State Content) (hasSwapped : Bool) : Worker Content → Prop
  | .verified _ version _ => '\n' ∉ version
  | .marked _ version _ => '\n' ∉ version
  | .installed _ version => '\n' ∉ version ∧ version ≠ []
  | .resolved _ version path => ('\n' ∉ version ∧ version ≠ []) ∧ '\n' ∉ path
  | .swapped _ version path => ('\n' ∉ version ∧ version ≠ []) ∧ '\n' ∉ path
  | .noted attempt version => ('\n' ∉ version ∧ version ≠ []) ∧ hasSwapped = true ∧
      s.disk.outcome = none ∧ s.disk.report = none ∧ ∀ other m, Confirming env s other m → other = attempt
  | _ => True

def SentOutcome (s : State Content) (file : Filed) : Prop :=
  ∃ record ∈ s.sent, record.attempt = file.attempt ∧
    file.text = outcomeText record.version record.phase

def SentReport (s : State Content) (file : Filed) : Prop :=
  ⟨file.attempt,file.text,rolledBack⟩ ∈ s.sent

def Link.Fair (s : State Content) (base : Nat) : Link → Prop
  | .sending record =>
    record.phase = succeeded ∧ record.attempt ∉ s.undone ∧ record.attempt < base ∧
        s.disk.outcome = some ⟨outcomeText record.version succeeded,record.attempt⟩ ∧
        s.disk.report = none ∨
      record.phase = rolledBack ∧ record.attempt ∈ s.undone ∧ s.disk.outcome = none ∧
        s.disk.report = some ⟨record.version,record.attempt⟩
  | .clearingOutcome =>
    (∀ file, s.disk.outcome = some file → SentOutcome s file) ∧
      ∀ file, s.disk.report = some file → SentReport s file
  | .clearingReport => ∀ file, s.disk.report = some file → SentReport s file
  | _ => True

/-- The hello of this process has been confirmed, so no older marker is left. -/
def Process.Past (p : Process Content) : Prop :=
  p.confirmOnce = true ∧ p.link ≠ .acked ∧ ∀ keep, p.link ≠ .confirming keep

structure Process.Fair (s : State Content) (p : Process Content) : Prop where
  base : p.base ≤ s.next
  undone : ∀ attempt ∈ s.undone, attempt < p.base
  sent : ∀ record ∈ s.sent, record.phase = succeeded → record.attempt < p.base
  statuses : ∀ attempt ∈ p.statuses, p.base ≤ attempt
  attempt : ∀ attempt, p.worker.attempt = some attempt → p.base ≤ attempt ∧ attempt < s.next
  booting : p.guard = .booting →
    p.worker = .idle ∧ p.link = .offline ∧ p.hasSwapped = false ∧ p.started = false
  unstarted : p.started = false → p.worker = .idle ∧ p.link = .offline
  rolling : ∀ attempt, p.guard.rolling = some attempt →
    p.worker = .idle ∧ p.link.Settled ∧ attempt < p.base
  confirm : p.link ≠ .offline → p.confirmOnce = true
  past : p.Past → ∀ attempt m, s.disk.readMarker env = some (attempt,m) → p.base ≤ attempt
  older : p.hasSwapped = false →
    (∀ file, s.disk.outcome = some file → file.attempt < p.base) ∧
      ∀ attempt m, Confirming env s attempt m → attempt < p.base
  sending : p.link.Sending → p.hasSwapped = false
  redo : ∀ file, s.disk.outcome = some file → file.attempt ∈ s.undone →
    p.guard = .booting ∨ p.guard.rolling = some file.attempt
  guard : p.guard.Fair env s p.hasSwapped
  worker : p.worker.Fair env s p.hasSwapped
  link : p.link.Fair s p.base

structure State.Fair (s : State Content) : Prop where
  current : ∀ path, s.disk.current = some path → '\n' ∉ path
  markerLt : ∀ attempt m, s.disk.readMarker env = some (attempt,m) → attempt < s.next
  outcomeLt : ∀ file, s.disk.outcome = some file → file.attempt < s.next
  undoneLt : ∀ attempt ∈ s.undone, attempt < s.next
  outcomeText : ∀ file, s.disk.outcome = some file →
    ∃ version, '\n' ∉ version ∧ version ≠ [] ∧ file.text = outcomeText version succeeded
  report : ∀ file, s.disk.report = some file → file.attempt ∈ s.undone
  marker : ∀ attempt m, Confirming env s attempt m →
    (m.deadline.any (· ≤ s.now+env.rollbackWindow) = true) ∧
      (∀ file, s.disk.outcome = some file → file.attempt = attempt) ∧
      ∀ file, s.disk.report = some file → file.attempt = attempt
  both : ∀ file, s.disk.outcome = some file → s.disk.report ≠ none → file.attempt ∈ s.undone
  redoable : ∀ file, s.disk.outcome = some file → file.attempt ∈ s.undone →
    Redoable env s file.attempt
  sent : ∀ record ∈ s.sent,
    record.phase = succeeded ∧ record.attempt ∉ s.undone ∧ record.attempt < s.next ∧
        (∀ m, ¬Confirming env s record.attempt m) ∨
      record.phase = rolledBack ∧ record.attempt ∈ s.undone
  proc : ∀ p, s.proc = some p → p.Fair env s

variable {env} {s : State Content} {p : Process Content}

theorem Link.Settled.not_sending {link : Link} (h : link.Settled) : ¬link.Sending := by
  rcases h with rfl | rfl <;> exact id

theorem Link.fair_of_not_sending {link : Link} (h : ¬link.Sending) (s : State Content)
    (base : Nat) : link.Fair s base := by
  cases link with
  | sending | clearingOutcome | clearingReport => exact absurd trivial h
  | offline | acked | confirming | pruning | removing | reporting | online => trivial

variable {attempt : Nat}

theorem Disk.readMarker_oneLine {disk : Disk Content} {m : Marker}
    (h : disk.readMarker env = some (attempt,m)) : '\n' ∉ m.prevVersionDir := by
  obtain ⟨file,-,hf⟩ := Option.bind_eq_some_iff.1 h
  obtain ⟨m',hm,he⟩ := Option.map_eq_some_iff.1 hf
  cases he
  exact SelfUpdate.readMarker_oneLine env hm

def Superseded (s : State Content) : Prop :=
  ∀ file, s.disk.outcome = some file → file.attempt ∉ s.undone

theorem Process.Fair.superseded (h : p.Fair env s) (hb : p.guard ≠ .booting)
    (hr : p.guard.rolling = none) : Superseded s := by
  intro file hf hu
  rcases h.redo file hf hu with hg | hg
  · exact hb hg
  · rw [hr] at hg
    cases hg

theorem State.Fair.fresh (h : s.Fair env) (image : Content) :
    Process.Fair env s (.fresh image s.next) where
  base := Nat.le_refl _
  undone := h.undoneLt
  sent record hr hp := by
    rcases h.sent record hr with hs | hs
    · exact hs.2.2.1
    · exact h.undoneLt _ hs.2
  statuses _ ha := by cases ha
  attempt _ ha := by cases ha
  booting _ := ⟨rfl,rfl,rfl,rfl⟩
  unstarted _ := ⟨rfl,rfl⟩
  rolling _ ha := by cases ha
  confirm hl := absurd rfl hl
  past hp := by cases hp.1
  older _ := ⟨h.outcomeLt,fun attempt m hm => h.markerLt attempt m hm.1⟩
  sending hl := hl.elim
  redo _ _ _ := .inl rfl
  guard := trivial
  worker := trivial
  link := trivial

theorem State.Fair.process (h : s.Fair env) (hp : p.Fair env s) :
    State.Fair env {s with proc := some p} :=
  {h with proc := fun q hq => by cases hq; exact {hp with}}

theorem Process.Fair.guardOver (h : p.Fair env s) (guard : Guard) (started : Bool)
    (hr : guard.rolling = none) (hb : guard ≠ .booting) (hg : guard.Fair env s p.hasSwapped)
    (hs : Superseded s) (hstarted : started = false → p.started = false) :
    Process.Fair env s {p with guard := guard, started := started} :=
  {h with
    booting := fun hg => absurd hg hb
    unstarted := fun hst => h.unstarted (hstarted hst)
    rolling := fun attempt ha => by
      rw [hr] at ha
      cases ha
    redo := fun file hf hu => absurd hu (hs file hf)
    guard := hg}

theorem Process.Fair.linked (h : p.Fair env s) {link : Link}
    (hb : p.guard ≠ .booting) (hst : p.started = true) (hr : p.guard.rolling = none ∨ link.Settled)
    (hc : p.confirmOnce = true)
    (hpast : link ≠ .acked → (∀ keep, link ≠ .confirming keep) → p.Past)
    (hsend : link.Sending → p.hasSwapped = false) (hl : link.Fair s p.base) :
    Process.Fair env s {p with link := link} :=
  {h with
    booting := fun hg => absurd hg hb
    unstarted := fun hu => absurd (hst.symm.trans hu) (by decide)
    rolling := fun attempt ha => by
      rcases hr with hr | hr
      · exact absurd (hr.symm.trans ha) (by simp)
      · exact ⟨(h.rolling attempt ha).1,hr,(h.rolling attempt ha).2.2⟩
    confirm := fun _ => hc
    past := fun hp => h.past (hpast hp.2.1 hp.2.2)
    sending := hsend
    link := hl}

theorem not_confirming_of_none (h : s.disk.readMarker env = none) (attempt : Nat) (m : Marker) :
    ¬Confirming env s attempt m := by
  rintro ⟨hm,-⟩
  rw [h] at hm
  cases hm

theorem unmark_fair (h : s.Fair env) (hp : p.Fair env s) (hs : Superseded s)
    (hg : p.guard.rolling = none) :
    State.Fair env {s with disk := {s.disk with marker := none}, proc := some p} := by
  have gone : ∀ attempt m,
      ¬Confirming env {s with disk := {s.disk with marker := none}, proc := some p} attempt m :=
    not_confirming_of_none rfl
  exact {h with
    markerLt := nofun
    marker := fun attempt m hm => absurd hm (gone attempt m)
    redoable := fun file hf hu => absurd hu (hs file hf)
    sent := fun record hr => (h.sent record hr).imp
      (fun hl => ⟨hl.1,hl.2.1,hl.2.2.1,fun m => gone _ m⟩) id
    proc := fun q hq => by
      cases hq
      exact {hp with
        past := nofun
        older := fun hsw => ⟨(hp.older hsw).1,fun attempt m hm => absurd hm (gone attempt m)⟩
        guard := by
          have hguard := hp.guard
          cases hpg : p.guard with
          | asleep => exact fun _ attempt m hm => absurd hm (gone attempt m)
          | decided | repointed | told | cleared => rw [hpg] at hg; cases hg
          | booting | execing | abandoning | ended => trivial
        worker := by
          have hworker := hp.worker
          cases hpw : p.worker with rw [hpw] at hworker
          | noted attempt version =>
            exact ⟨hworker.1,hworker.2.1,hworker.2.2.1,hworker.2.2.2.1,
              fun other m hm => absurd hm (gone other m)⟩
          | verified | marked | installed | resolved | swapped =>
            exact hworker
          | idle | refused | recorded | reported => trivial}}

variable {version : Text}

theorem rollback_fair (h : s.Fair env) {path : Path}
    (hp : s.proc = some p) (hg : p.guard = .decided attempt version path) (hn : path ≠ [])
    (disk : Disk Content) (hdisk : disk = {s.disk with current := some path})
    (unconfirmed : Option (Nat × Path)) :
    State.Fair env
      {s with disk := disk, proc := some {p with guard := .repointed attempt version}
              unconfirmed := unconfirmed, undone := attempt :: s.undone} := by
  subst hdisk
  have hk := h.proc p hp
  have hguard := hk.guard
  rw [hg] at hguard
  obtain ⟨m,hm,hd,hpath⟩ := hguard
  have hroll := hk.rolling attempt (by rw [hg]; rfl)
  have redoable : Redoable env s attempt := ⟨m,hm,hd,by rw [hpath]; exact hn⟩
  have only : ∀ file, s.disk.outcome = some file → file.attempt = attempt :=
    (h.marker attempt m hm).2.1
  exact {h with
    current := fun other ho => by
      cases ho
      rw [←hpath]
      exact Disk.readMarker_oneLine hm.1
    undoneLt := fun a ha => by
      rcases mem_cons.1 ha with rfl | ha
      · exact h.markerLt _ _ hm.1
      · exact h.undoneLt a ha
    report := fun file hf => mem_cons_of_mem _ (h.report file hf)
    both := fun file hf hr => mem_cons_of_mem _ (h.both file hf hr)
    redoable := fun file hf _ => by
      rw [only file hf]
      exact redoable
    sent := fun record hr => by
      rcases h.sent record hr with ⟨hs,hu,hl,hc⟩ | ⟨hs,hu⟩
      · refine .inl ⟨hs,?_,hl,hc⟩
        rw [mem_cons,not_or]
        refine ⟨?_,hu⟩
        rintro rfl
        exact hc m hm
      · exact .inr ⟨hs,mem_cons_of_mem _ hu⟩
    proc := fun q hq => by
      cases hq
      exact {hk with
        undone := fun a ha => by
          rcases mem_cons.1 ha with rfl | ha
          · exact hroll.2.2
          · exact hk.undone a ha
        booting := nofun
        rolling := fun a ha => by
          cases ha
          exact hroll
        redo := fun file hf _ => by
          rw [only file hf]
          exact .inr rfl
        guard := ⟨redoable,mem_cons_self⟩
        worker := by
          simp only [hroll.1]
          trivial
        link := Link.fair_of_not_sending hroll.2.1.not_sending _ _}}

theorem writeReport_fair (h : s.Fair env)
    (hp : s.proc = some p) (hg : p.guard = .repointed attempt version) :
    State.Fair env
      {s with disk := {s.disk with report := some ⟨version,attempt⟩}
              proc := some {p with guard := .told attempt}} := by
  have hk := h.proc p hp
  have hguard := hk.guard
  rw [hg] at hguard
  obtain ⟨hredo,hundone⟩ := hguard
  obtain ⟨m,hm,-⟩ := id hredo
  have hroll := hk.rolling attempt (by rw [hg]; rfl)
  have only : ∀ file, s.disk.outcome = some file → file.attempt = attempt :=
    (h.marker attempt m hm).2.1
  exact {h with
    report := fun file hf => by
      cases hf
      exact hundone
    marker := fun a m' hm' => by
      have ha : a = attempt := by
        have := hm'.1.symm.trans hm.1
        cases this
        rfl
      refine ⟨(h.marker a m' hm').1,(h.marker a m' hm').2.1,fun file hf => ?_⟩
      cases hf
      exact ha.symm
    both := fun file hf _ => by
      rw [only file hf]
      exact hundone
    proc := fun q hq => by
      cases hq
      exact {hk with
        booting := nofun
        rolling := fun a ha => by
          cases ha
          exact hroll
        redo := fun file hf _ => by
          rw [only file hf]
          exact .inr rfl
        guard := ⟨hredo,hundone⟩
        worker := by
          simp only [hroll.1]
          trivial
        link := Link.fair_of_not_sending hroll.2.1.not_sending _ _}}

theorem clearOutcome_fair (h : s.Fair env) (hp : s.proc = some p)
    (hg : p.guard = .told attempt) :
    State.Fair env
      {s with disk := {s.disk with outcome := none}
              proc := some {p with guard := .cleared attempt}} := by
  have hk := h.proc p hp
  have hguard := hk.guard
  rw [hg] at hguard
  have hroll := hk.rolling attempt (by rw [hg]; rfl)
  exact {h with
    outcomeLt := nofun
    outcomeText := nofun
    marker := fun a m hm => ⟨(h.marker a m hm).1,nofun,(h.marker a m hm).2.2⟩
    both := nofun
    redoable := nofun
    proc := fun q hq => by
      cases hq
      exact {hk with
        booting := nofun
        rolling := fun a ha => by
          cases ha
          exact hroll
        older := fun hsw => ⟨nofun,(hk.older hsw).2⟩
        redo := nofun
        guard := ⟨hguard.1,rfl⟩
        worker := by
          simp only [hroll.1]
          trivial
        link := Link.fair_of_not_sending hroll.2.1.not_sending _ _}}

theorem Process.Fair.notRolling (h : p.Fair env s) (hl : ¬p.link.Settled) :
    p.guard.rolling = none ∧ p.guard ≠ .booting ∧ p.started = true := by
  refine ⟨?_,fun hb => hl (.inl (h.booting hb).2.1),?_⟩
  · cases hg : p.guard.rolling with
    | none => rfl
    | some attempt => exact absurd (h.rolling attempt hg).2.1 hl
  · cases hst : p.started with
    | true => rfl
    | false => exact absurd (.inl (h.unstarted hst).2) hl

theorem readRecords_fair (h : s.Fair env) (hp : s.proc = some p) (hl : p.link = .reporting)
    (hsw : p.hasSwapped = false) :
    State.Fair env
      {s with proc := some {p with
        link := match s.disk.reportPendingUpdateOutcome with
          | some record => .sending record
          | none => .online}} := by
  have hk := h.proc p hp
  obtain ⟨hroll,hboot,hstarted⟩ := hk.notRolling (by simp [Link.Settled,hl])
  have hsup := hk.superseded hboot hroll
  have hconfirm := hk.confirm (by simp [hl])
  have hpast : p.Past := ⟨hconfirm,by simp [hl],by simp [hl]⟩
  cases hout : s.disk.outcome with
  | some file =>
    obtain ⟨version,hline,hnil,htext⟩ := h.outcomeText file hout
    have hread : s.disk.reportPendingUpdateOutcome = some ⟨file.attempt,version,succeeded⟩ := by
      simp [Disk.reportPendingUpdateOutcome,hout,htext,
        readPendingOutcome_outcomeText hline hnil (show succeeded ≠ [] by decide)]
    have hreport : s.disk.report = none := by
      by_contra hne
      exact hsup file hout (h.both file hout hne)
    rw [hread]
    refine h.process (hk.linked hboot hstarted (.inl hroll) hconfirm (fun _ _ => hpast)
      (fun _ => hsw) (.inl ⟨rfl,hsup file hout,(hk.older hsw).1 file hout,?_,hreport⟩))
    rw [hout,←htext]
  | none =>
    cases hrep : s.disk.report with
    | none =>
      have hread : s.disk.reportPendingUpdateOutcome = none := by
        simp [Disk.reportPendingUpdateOutcome,hout,hrep]
      rw [hread]
      exact h.process (hk.linked hboot hstarted (.inl hroll) hconfirm (fun _ _ => hpast)
        (fun hs => hs.elim) trivial)
    | some file =>
      have hread : s.disk.reportPendingUpdateOutcome =
          some ⟨file.attempt,file.text,rolledBack⟩ := by
        simp [Disk.reportPendingUpdateOutcome,hout,hrep]
      rw [hread]
      exact h.process (hk.linked hboot hstarted (.inl hroll) hconfirm (fun _ _ => hpast)
        (fun _ => hsw) (.inr ⟨rfl,h.report file hrep,hout,hrep⟩))

theorem Process.Fair.reporting (h : p.Fair env s) (hl : p.link.Sending) :
    p.guard.rolling = none ∧ p.guard ≠ .booting ∧ p.started = true ∧ p.confirmOnce = true ∧
      p.Past ∧ p.hasSwapped = false := by
  have hne : ¬p.link.Settled := by
    rintro (hs | hs) <;> rw [hs] at hl <;> exact hl
  obtain ⟨hroll,hboot,hstarted⟩ := h.notRolling hne
  have hconfirm := h.confirm fun ho => hne (.inl ho)
  refine ⟨hroll,hboot,hstarted,hconfirm,⟨hconfirm,?_,?_⟩,h.sending hl⟩
  · rintro ha
    rw [ha] at hl
    exact hl
  · rintro keep ha
    rw [ha] at hl
    exact hl

theorem send_fair (h : s.Fair env) {record : Record} (hp : s.proc = some p)
    (hl : p.link = .sending record) :
    State.Fair env
      {s with proc := some {p with link := .clearingOutcome}, sent := record :: s.sent} := by
  have hk := h.proc p hp
  obtain ⟨hroll,hboot,hstarted,hconfirm,hpast,hsw⟩ := hk.reporting (by rw [hl]; trivial)
  have hlink := hk.link
  rw [hl] at hlink
  have hnew : Link.Fair {s with sent := record :: s.sent} p.base .clearingOutcome := by
    rcases hlink with ⟨hph,-,-,hout,hrep⟩ | ⟨hph,-,hout,hrep⟩
    · refine ⟨fun file hf => ?_,fun file hf => absurd (hrep.symm.trans hf) (by simp)⟩
      cases hout.symm.trans hf
      exact ⟨record,mem_cons_self,rfl,by rw [hph]⟩
    · refine ⟨fun file hf => absurd (hout.symm.trans hf) (by simp),fun file hf => ?_⟩
      cases hrep.symm.trans hf
      obtain ⟨attempt,version,phase⟩ := record
      cases hph
      exact mem_cons_self
  have hsent : record.phase = succeeded ∧ record.attempt ∉ s.undone ∧ record.attempt < s.next ∧
        (∀ m, ¬Confirming env s record.attempt m) ∨
      record.phase = rolledBack ∧ record.attempt ∈ s.undone := by
    rcases hlink with ⟨hph,hu,hb,-,-⟩ | ⟨hph,hu,-,-⟩
    · refine .inl ⟨hph,hu,Nat.lt_of_lt_of_le hb hk.base,fun m hm => ?_⟩
      exact absurd (hk.past hpast _ _ hm.1) (Nat.not_le.2 hb)
    · exact .inr ⟨hph,hu⟩
  have hbase : record.phase = succeeded → record.attempt < p.base := by
    intro hph
    rcases hlink with ⟨-,-,hb,-,-⟩ | ⟨hph',-⟩
    · exact hb
    · exact absurd (hph.symm.trans hph') (by decide)
  exact {h with
    sent := fun r hr => by
      rcases mem_cons.1 hr with rfl | hr
      · exact hsent
      · exact h.sent r hr
    proc := fun q hq => by
      cases hq
      exact {hk with
        sent := fun r hr => by
          rcases mem_cons.1 hr with rfl | hr
          · exact hbase
          · exact hk.sent r hr
        booting := fun hb => absurd hb hboot
        unstarted := fun hu => absurd (hstarted.symm.trans hu) (by decide)
        rolling := fun a ha => absurd (hroll.symm.trans ha) (by simp)
        confirm := fun _ => hconfirm
        past := fun _ => hk.past hpast
        sending := fun _ => hsw
        link := hnew}}

theorem clearSentOutcome_fair (h : s.Fair env) (hp : s.proc = some p)
    (hl : p.link = .clearingOutcome) :
    State.Fair env
      {s with disk := {s.disk with outcome := none}
              proc := some {p with link := .clearingReport}} := by
  have hk := h.proc p hp
  obtain ⟨hroll,hboot,hstarted,hconfirm,hpast,hsw⟩ := hk.reporting (by rw [hl]; trivial)
  have hlink := hk.link
  rw [hl] at hlink
  exact {h with
    outcomeLt := nofun
    outcomeText := nofun
    marker := fun a m hm => ⟨(h.marker a m hm).1,nofun,(h.marker a m hm).2.2⟩
    both := nofun
    redoable := nofun
    proc := fun q hq => by
      cases hq
      exact {hk.linked hboot hstarted (.inl hroll) hconfirm (fun _ _ => hpast) (fun _ => hsw)
          (show Link.Fair s p.base .clearingReport from hlink.2) with
        older := fun hs => ⟨nofun,(hk.older hs).2⟩
        redo := nofun
        guard := by
          have hguard := hk.guard
          cases hg : p.guard with
          | cleared => rw [hg] at hroll; cases hroll
          | asleep | decided | repointed | told =>
            rw [hg] at hguard
            exact hguard
          | booting | execing | abandoning | ended => trivial
        worker := by
          have hworker := hk.worker
          cases hw : p.worker with
          | noted => rw [hw] at hworker; exact ⟨hworker.1,hworker.2.1,rfl,hworker.2.2.2⟩
          | verified | marked | installed | resolved | swapped =>
            rw [hw] at hworker
            exact hworker
          | idle | refused | recorded | reported => trivial}}

theorem clearSentReport_fair (h : s.Fair env) (hp : s.proc = some p)
    (hl : p.link = .clearingReport) :
    State.Fair env
      {s with disk := {s.disk with report := none}
              proc := some {p with link := .online}} := by
  have hk := h.proc p hp
  obtain ⟨hroll,hboot,hstarted,hconfirm,hpast,hsw⟩ := hk.reporting (by rw [hl]; trivial)
  exact {h with
    report := nofun
    marker := fun a m hm => ⟨(h.marker a m hm).1,(h.marker a m hm).2.1,nofun⟩
    both := fun _ _ hr => absurd rfl hr
    proc := fun q hq => by
      cases hq
      exact {hk.linked hboot hstarted (.inl hroll) hconfirm (fun _ _ => hpast) False.elim
          (show Link.Fair s p.base .online from trivial) with
        worker := by
          have hworker := hk.worker
          cases hw : p.worker with
          | noted => rw [hw] at hworker; exact ⟨hworker.1,hworker.2.1,hworker.2.2.1,rfl,hworker.2.2.2.2⟩
          | verified | marked | installed | resolved | swapped =>
            rw [hw] at hworker
            exact hworker
          | idle | refused | recorded | reported => trivial}}

theorem Process.Fair.busy (h : p.Fair env s) (hw : p.worker ≠ .idle) :
    p.guard.rolling = none ∧ p.guard ≠ .booting ∧ p.started = true := by
  refine ⟨?_,fun hb => hw (h.booting hb).1,?_⟩
  · cases hg : p.guard.rolling with
    | none => rfl
    | some attempt => exact absurd (h.rolling attempt hg).1 hw
  · cases hst : p.started with
    | true => rfl
    | false => exact absurd (h.unstarted hst).1 hw

theorem Process.Fair.working (h : p.Fair env s) (hw : p.worker ≠ .idle) (worker : Worker Content)
    (ha : worker.attempt = p.worker.attempt ∨ worker.attempt = none)
    (hf : worker.Fair env s p.hasSwapped) : Process.Fair env s {p with worker := worker} := by
  obtain ⟨hroll,hboot,hstarted⟩ := h.busy hw
  exact {h with
    attempt := fun a hat => by
      rcases ha with ha | ha
      · exact h.attempt a (ha.symm.trans hat)
      · exact absurd (ha.symm.trans hat) (by simp)
    booting := fun hb => absurd hb hboot
    unstarted := fun hu => absurd (hstarted.symm.trans hu) (by decide)
    rolling := fun a hr => absurd (hroll.symm.trans hr) (by simp)
    worker := hf}

theorem Guard.Fair.carry {guard : Guard} {hasSwapped : Bool} (h : guard.Fair env s hasSwapped)
    (hr : guard.rolling = none) {t : State Content} {hasSwapped' : Bool}
    (ha : ∀ pendingVersion wakeAt, guard = .asleep pendingVersion wakeAt →
      guard.Fair env t hasSwapped') : guard.Fair env t hasSwapped' := by
  cases guard with
  | asleep pendingVersion wakeAt => exact ha _ _ rfl
  | decided | repointed | told | cleared => cases hr
  | booting | execing | abandoning | ended => trivial

theorem writeMarker_fair (h : s.Fair env) {binary : Content}
    (hp : s.proc = some p) (hw : p.worker = .verified attempt version binary) :
    State.Fair env
      {s with disk := s.disk.mark env phasePendingSwap version [] none attempt
              proc := some {p with worker := .marked attempt version binary}} := by
  have hk := h.proc p hp
  have hne : p.worker ≠ .idle := by simp [hw]
  obtain ⟨hroll,hboot,hstarted⟩ := hk.busy hne
  have hworker := hk.worker
  rw [hw] at hworker
  have hattempt := hk.attempt attempt (by rw [hw]; rfl)
  have read : (s.disk.mark env phasePendingSwap version [] none attempt).readMarker env =
      some (attempt,⟨phasePendingSwap,version,[],none⟩) :=
    Disk.readMarker_mark env phases_oneLine.1 hworker (by simp)
  have unswapped : ∀ a m, ¬((s.disk.mark env phasePendingSwap version [] none attempt).readMarker env =
      some (a,m) ∧ m.phase = phasePendingConfirm) := by
    rintro a m ⟨hm,hph⟩
    cases read.symm.trans hm
    exact phases_ne hph
  have hsup := hk.superseded hboot hroll
  exact {h with
    markerLt := fun a m hm => by
      cases read.symm.trans hm
      exact hattempt.2
    marker := fun a m hm => absurd hm (unswapped a m)
    redoable := fun file hf hu => absurd hu (hsup file hf)
    sent := fun record hr => (h.sent record hr).imp
      (fun hl => ⟨hl.1,hl.2.1,hl.2.2.1,fun m => unswapped _ m⟩) id
    proc := fun q hq => by
      cases hq
      exact {hk.working hne (.marked attempt version binary) (.inl (by rw [hw]; rfl)) hworker with
        past := fun _ a m hm => by
          cases read.symm.trans hm
          exact hattempt.1
        older := fun hsw => ⟨(hk.older hsw).1,fun a m hm => absurd hm (unswapped a m)⟩
        guard := hk.guard.carry hroll fun _ _ hg => by
          rw [hg]
          exact fun _ a m hm => absurd hm (unswapped a m)}}

theorem markSwapped_fair (h : s.Fair env) {path : Path}
    (hp : s.proc = some p) (hw : p.worker = .swapped attempt version path)
    (ho : Orderly env s .markSwapped) :
    State.Fair env
      {s with disk := s.disk.mark env phasePendingConfirm version path
                (some (s.now+env.rollbackWindow)) attempt
              proc := some {p with worker := .noted attempt version, hasSwapped := true}} := by
  obtain ⟨hout,hrep,hroll,hlink⟩ := ho p hp
  have hk := h.proc p hp
  have hne : p.worker ≠ .idle := by simp [hw]
  obtain ⟨-,hboot,hstarted⟩ := hk.busy hne
  have hworker := hk.worker
  rw [hw] at hworker
  have hattempt := hk.attempt attempt (by rw [hw]; rfl)
  have read : (s.disk.mark env phasePendingConfirm version path
      (some (s.now+env.rollbackWindow)) attempt).readMarker env =
      some (attempt,⟨phasePendingConfirm,version,path,some (s.now+env.rollbackWindow)⟩) :=
    Disk.readMarker_mark env phases_oneLine.2 hworker.1.1 hworker.2
  exact {h with
    markerLt := fun a m hm => by
      cases read.symm.trans hm
      exact hattempt.2
    marker := fun a m hm => by
      cases read.symm.trans hm.1
      refine ⟨by simp,fun file hf => ?_,fun file hf => ?_⟩
      · exact absurd (hout.symm.trans hf) (by simp)
      · exact absurd (hrep.symm.trans hf) (by simp)
    redoable := fun file hf => absurd (hout.symm.trans hf) (by simp)
    sent := fun record hr => by
      rcases h.sent record hr with ⟨hs,hu,hl,-⟩ | hs
      · refine .inl ⟨hs,hu,hl,fun m hm => ?_⟩
        have : record.attempt < p.base := hk.sent record hr hs
        have he : attempt = record.attempt := by
          cases read.symm.trans hm.1
          rfl
        exact absurd hattempt.1 (Nat.not_le.2 (he ▸ this))
      · exact .inr hs
    proc := fun q hq => by
      cases hq
      exact {hk with
        attempt := fun a ha => by
          cases ha
          exact hattempt
        booting := fun hb => absurd hb hboot
        unstarted := fun hu => absurd (hstarted.symm.trans hu) (by decide)
        rolling := fun a hr => absurd (hroll.symm.trans hr) (by simp)
        past := fun _ a m hm => by
          cases read.symm.trans hm
          exact hattempt.1
        older := nofun
        sending := fun hs => absurd hs hlink
        redo := fun file hf => absurd (hout.symm.trans hf) (by simp)
        guard := hk.guard.carry hroll fun _ _ hg => by
          rw [hg]
          exact nofun
        worker := by
          refine ⟨hworker.1,rfl,hout,hrep,fun other m hm => ?_⟩
          cases read.symm.trans hm.1
          rfl
        link := Link.fair_of_not_sending hlink _ _}}

theorem writePendingOutcome_fair (h : s.Fair env)
    (hp : s.proc = some p) (hw : p.worker = .noted attempt version) :
    State.Fair env
      {s with disk := {s.disk with outcome := some ⟨outcomeText version succeeded,attempt⟩}
              proc := some {p with worker := .recorded attempt version}} := by
  have hk := h.proc p hp
  have hne : p.worker ≠ .idle := by simp [hw]
  obtain ⟨hroll,hboot,hstarted⟩ := hk.busy hne
  have hworker := hk.worker
  rw [hw] at hworker
  obtain ⟨⟨hline,hnil⟩,hsw,-,hrep,honly⟩ := hworker
  have hattempt := hk.attempt attempt (by rw [hw]; rfl)
  have hfresh : attempt ∉ s.undone := fun hu => absurd (hk.undone attempt hu) (Nat.not_lt.2 hattempt.1)
  exact {h with
    outcomeLt := fun file hf => by
      cases hf
      exact hattempt.2
    outcomeText := fun file hf => by
      cases hf
      exact ⟨version,hline,hnil,rfl⟩
    marker := fun a m hm => ⟨(h.marker a m hm).1,fun file hf => by
      cases hf
      exact (honly a m hm).symm,(h.marker a m hm).2.2⟩
    both := fun _ _ hr => absurd hrep hr
    redoable := fun file hf hu => by
      cases hf
      exact absurd hu hfresh
    proc := fun q hq => by
      cases hq
      exact {hk.working hne (.recorded attempt version) (.inl (by rw [hw]; rfl)) trivial with
        older := fun hs => absurd (hsw.symm.trans hs) (by decide)
        redo := fun file hf hu => by
          cases hf
          exact absurd hu hfresh
        guard := hk.guard.carry hroll fun _ _ hg => by
          rw [hg]
          exact fun hs => absurd (hsw.symm.trans hs) (by decide)
        link := Link.fair_of_not_sending
          (fun hl => absurd (hsw.symm.trans (hk.sending hl)) (by decide)) _ _}}

theorem decided_fair (h : s.Fair env) {m : Marker} (hp : s.proc = some p)
    (hm : Confirming env s attempt m) (hd : m.deadline.any (· ≤ s.now) = true)
    (hw : p.worker = .idle) (hl : p.link.Settled) (hsw : p.hasSwapped = false)
    (hredo : ∀ file, s.disk.outcome = some file → file.attempt ∈ s.undone → file.attempt = attempt) :
    State.Fair env
      {s with proc := some {p with guard := .decided attempt m.version m.prevVersionDir}} := by
  have hk := h.proc p hp
  refine h.process {hk with booting := ?_, rolling := ?_, redo := ?_, guard := ?_}
  · exact nofun
  · intro a ha
    cases ha
    exact ⟨hw,hl,(hk.older hsw).2 attempt m hm⟩
  · intro file hf hu
    rw [hredo file hf hu]
    exact .inr rfl
  · exact ⟨m,hm,hd,rfl⟩

theorem startup_fair (h : s.Fair env) (hp : s.proc = some p)
    (he : expired s.now (s.disk.readMarker env) = none) :
    State.Fair env
      {s with proc := some {p with
        started := true, guard := watchFor env s.now (s.disk.readMarker env)}} := by
  have hk := h.proc p hp
  have hsup : Superseded s := by
    intro file hf hu
    obtain ⟨m,hm,hd,-⟩ := h.redoable file hf hu
    simp [expired,hm.1,hm.2,hd] at he
  have hwatch : (watchFor env s.now (s.disk.readMarker env)).rolling = none ∧
      watchFor env s.now (s.disk.readMarker env) ≠ .booting ∧
      (watchFor env s.now (s.disk.readMarker env)).Fair env s p.hasSwapped := by
    cases hr : s.disk.readMarker env with
    | none => exact ⟨rfl,by simp [watchFor],trivial⟩
    | some found => exact ⟨rfl,by simp [watchFor],fun _ a m hm => (h.marker a m hm).1⟩
  exact h.process (hk.guardOver _ true hwatch.1 hwatch.2.1 hwatch.2.2 hsup (by intros; contradiction))

theorem wake_fair (h : s.Fair env) {pendingVersion : Text} {wakeAt : Nat} (hp : s.proc = some p)
    (hg : p.guard = .asleep pendingVersion wakeAt) (hwake : wakeAt ≤ s.now)
    (ho : Orderly env s .wake) :
    State.Fair env
      {s with proc := some {p with
        guard := watchDecides pendingVersion (s.disk.readMarker env)}} := by
  have hk := h.proc p hp
  have hsup := hk.superseded (by simp [hg]) (by simp [hg,Guard.rolling])
  have undecided {guard : Guard} (hr : guard.rolling = none) (hb : guard ≠ .booting)
      (hf : guard.Fair env s p.hasSwapped) :
      State.Fair env {s with proc := some {p with guard := guard}} :=
    h.process (hk.guardOver guard p.started hr hb hf hsup id)
  have horderly := ho p pendingVersion wakeAt
  cases hread : s.disk.readMarker env with
  | none => exact undecided rfl (by simp [watchDecides]) trivial
  | some found =>
    obtain ⟨attempt,m⟩ := found
    rw [hread] at horderly
    simp only [watchDecides] at horderly ⊢
    split
    · exact undecided rfl (by simp) trivial
    · split
      · rename_i hv hph
        obtain ⟨hl,hw,hsw⟩ := horderly attempt hp hg (by simp [hv,hph,Guard.rolling])
        have hguard := hk.guard
        rw [hg] at hguard
        have hd := hguard hsw attempt m ⟨hread,hph⟩
        refine decided_fair h hp ⟨hread,hph⟩ ?_ hw hl hsw
          fun file hf hu => absurd hu (hsup file hf)
        cases hdl : m.deadline with
        | none => rw [hdl] at hd; cases hd
        | some deadline =>
          rw [hdl] at hd
          simp only [Option.any_some,decide_eq_true_eq] at hd ⊢
          exact Nat.le_trans hd hwake
      · exact undecided rfl (by simp) trivial

theorem update_fair (h : s.Fair env) {binary : Content} (hp : s.proc = some p)
    (hstarted : p.started = true) (hroll : p.guard.rolling = none) (hurl : urlParses version = true) :
    State.Fair env
      {s with proc := some {p with worker := .verified s.next version binary}
              next := s.next+1} := by
  have hk := h.proc p hp
  have hboot : p.guard ≠ .booting := by
    intro hb
    exact absurd (hstarted.symm.trans (hk.booting hb).2.2.2) (by decide)
  exact {h with
    markerLt := fun a m hm => Nat.lt_succ_of_lt (h.markerLt a m hm)
    outcomeLt := fun file hf => Nat.lt_succ_of_lt (h.outcomeLt file hf)
    undoneLt := fun a ha => Nat.lt_succ_of_lt (h.undoneLt a ha)
    sent := fun record hr => (h.sent record hr).imp
      (fun hl => ⟨hl.1,hl.2.1,Nat.lt_succ_of_lt hl.2.2.1,hl.2.2.2⟩) id
    proc := fun q hq => by
      cases hq
      exact {hk with
        base := Nat.le_succ_of_le hk.base
        attempt := fun a ha => by
          cases ha
          exact ⟨hk.base,Nat.lt_succ_self _⟩
        booting := fun hb => absurd hb hboot
        unstarted := fun hu => absurd (hstarted.symm.trans hu) (by decide)
        rolling := fun a ha => absurd (hroll.symm.trans ha) (by simp)
        worker := urlParses_oneLine hurl}}

theorem any_le_mono {deadline : Option Nat} {a b : Nat} (h : deadline.any (· ≤ a) = true)
    (hab : a ≤ b) : deadline.any (· ≤ b) = true := by
  cases deadline with
  | none => cases h
  | some d =>
    simp only [Option.any_some,decide_eq_true_eq] at h ⊢
    exact Nat.le_trans h hab

theorem tick_fair (h : s.Fair env) : State.Fair env {s with now := s.now+1} := by
  have redoable : ∀ attempt, Redoable env s attempt →
      Redoable env {s with now := s.now+1} attempt := by
    rintro attempt ⟨m,hm,hd,hn⟩
    exact ⟨m,hm,any_le_mono hd (Nat.le_succ _),hn⟩
  exact {h with
    marker := fun a m hm => by
      obtain ⟨hd,hrest⟩ := h.marker a m hm
      refine ⟨any_le_mono hd ?_,hrest⟩
      change s.now+env.rollbackWindow ≤ s.now+1+env.rollbackWindow
      omega
    redoable := fun file hf hu => redoable _ (h.redoable file hf hu)
    proc := fun q hq => by
      have hk := h.proc q hq
      exact {hk with
        guard := by
          have hguard := hk.guard
          cases hg : q.guard with
          | decided attempt version path =>
            rw [hg] at hguard
            obtain ⟨m,hm,hd,hpath⟩ := hguard
            exact ⟨m,hm,any_le_mono hd (Nat.le_succ _),hpath⟩
          | repointed | told | cleared => rw [hg] at hguard; exact ⟨redoable _ hguard.1,hguard.2⟩
          | asleep => rw [hg] at hguard; exact hguard
          | booting | execing | abandoning | ended => trivial}}

theorem State.Fair.elsewhere (h : s.Fair env) (binaries : Path → Option Content)
    (before : Nat → Option Content) (unconfirmed : Option (Nat × Path)) {current : Option Path}
    (hc : ∀ path, current = some path → '\n' ∉ path) (hp : p.Fair env s) :
    State.Fair env
      {s with disk := {s.disk with binaries := binaries, current := current}
              before := before, unconfirmed := unconfirmed, proc := some p} :=
  {h with
    current := hc
    proc := fun q hq => by
      cases hq
      exact {hp with}}

theorem step_fair (s : State Content) (e : Event Content) (t : State Content)
    (h : s.Fair env) (hs : Guarded (Step env) (Orderly env) s e t) : t.Fair env := by
  obtain ⟨ho,hs⟩ := hs
  have fair : ∀ p, s.proc = some p → p.Fair env s := h.proc
  cases hs with
  | tick => exact tick_fair h
  | crash => exact {h with proc := fun _ h => by cases h}
  | boot image hp himage | reExec p attempt image hp hg himage
  | exec p attempt image hp hw himage => exact h.process (h.fresh image)
  | startupExpired p attempt m hp hg he =>
    obtain ⟨hm,hph,hd⟩ := expired_some he
    obtain ⟨hw,hl,hsw,-⟩ := (fair p hp).booting hg
    refine decided_fair h hp ⟨hm,hph⟩ hd hw (.inl hl) hsw fun file hf hu => ?_
    exact (h.marker attempt m ⟨hm,hph⟩).2.1 file hf
  | startup p hp hg he => exact startup_fair h hp he
  | wake p pendingVersion wakeAt hp hg hw => exact wake_fair h hp hg hw ho
  | rollback p attempt version path hp hg hn => exact rollback_fair h hp hg hn _ rfl _
  | rollbackFails p attempt version hp hg =>
    have hk := fair p hp
    have hguard := hk.guard
    rw [hg] at hguard
    obtain ⟨m,hm,-,hnil⟩ := hguard
    refine h.process (hk.guardOver .abandoning p.started rfl (by simp) trivial ?_ id)
    intro file hf hu
    obtain ⟨m',hm',-,hne⟩ := h.redoable file hf hu
    cases hm.1.symm.trans hm'.1
    exact hne hnil
  | writeReport p attempt version hp hg => exact writeReport_fair h hp hg
  | clearOutcome p attempt hp hg => exact clearOutcome_fair h hp hg
  | clearMarker p attempt hp hg =>
    have hk := fair p hp
    have hguard := hk.guard
    rw [hg] at hguard
    have hsup : Superseded s := fun file hf => absurd (hguard.2.symm.trans hf) (by simp)
    exact unmark_fair h (hk.guardOver (.execing attempt) p.started rfl (by simp) trivial hsup id)
      hsup rfl
  | abandon p hp hg =>
    have hk := fair p hp
    have hsup := hk.superseded (by simp [hg]) (by simp [hg,Guard.rolling])
    exact unmark_fair h (hk.guardOver .ended true rfl (by simp) trivial hsup
      nofun) hsup rfl
  | reExecFails p attempt hp hg =>
    have hk := fair p hp
    have hsup := hk.superseded (by simp [hg]) (by simp [hg,Guard.rolling])
    exact h.process (hk.guardOver .ended true rfl (by simp) trivial hsup
      nofun)
  | helloAckFirst p hp hstarted hl hc =>
    have hk := fair p hp
    refine h.elsewhere _ _ _ h.current {hk with
      booting := fun hb => ?_, unstarted := fun hu => ?_, rolling := fun a ha => ?_,
      confirm := fun _ => rfl, past := fun hpast => absurd rfl hpast.2.1,
      sending := fun hs => hs.elim, link := trivial}
    · exact absurd (hstarted.symm.trans (hk.booting hb).2.2.2) (by decide)
    · exact absurd (hstarted.symm.trans hu) (by decide)
    · exact absurd ((ho p hp).symm.trans ha) (by simp)
  | helloAck p hp hstarted hl hc =>
    have hk := fair p hp
    refine h.process (hk.linked ?_ hstarted (.inl (ho p hp)) hc
      (fun _ _ => ⟨hc,by simp [hl],by simp [hl]⟩) (fun hs => hs.elim) trivial)
    exact fun hb => absurd (hstarted.symm.trans (hk.booting hb).2.2.2) (by decide)
  | readConfirm p hp hl =>
    have hk := fair p hp
    obtain ⟨hroll,hboot,hstarted⟩ := hk.notRolling (by simp [Link.Settled,hl])
    exact h.process (hk.linked hboot hstarted (.inl hroll) (hk.confirm (by simp [hl]))
      (fun _ hne => absurd rfl (hne _)) (fun hs => hs.elim) trivial)
  | clearConfirm p keep hp hl =>
    have hk := fair p hp
    obtain ⟨hroll,hboot,hstarted⟩ := hk.notRolling (by simp [Link.Settled,hl])
    have hclear := unmark_fair h hk (hk.superseded hboot hroll) hroll
    have hk' := hclear.proc p rfl
    refine hclear.process {hk' with
      booting := fun hb => absurd hb hboot,
      unstarted := fun hu => absurd (hstarted.symm.trans hu) (by decide),
      rolling := fun a ha => absurd (hroll.symm.trans ha) (by simp),
      confirm := fun _ => hk.confirm (by simp [hl]), past := nofun,
      sending := ?_, link := ?_}
    · cases keep <;> exact fun hs => hs.elim
    · cases keep <;> trivial
  | readLive p keep hp hl =>
    have hk := fair p hp
    obtain ⟨hroll,hboot,hstarted⟩ := hk.notRolling (by simp [Link.Settled,hl])
    have hconfirm := hk.confirm (by simp [hl])
    refine h.process (hk.linked hboot hstarted (.inl hroll) hconfirm
      (fun _ _ => ⟨hconfirm,by simp [hl],by simp [hl]⟩) ?_ ?_)
    · cases s.disk.current <;> exact fun hs => hs.elim
    · cases s.disk.current <;> trivial
  | prune p live keep gone hp hl =>
    have hkept := h.elsewhere (s.disk.prune env live keep gone).binaries s.before s.unconfirmed
      h.current (fair p hp)
    rw [←hp] at hkept
    exact hkept
  | pruned p live keep hp hl =>
    have hk := fair p hp
    obtain ⟨hroll,hboot,hstarted⟩ := hk.notRolling (by simp [Link.Settled,hl])
    have hconfirm := hk.confirm (by simp [hl])
    exact h.process (hk.linked hboot hstarted (.inl hroll) hconfirm
      (fun _ _ => ⟨hconfirm,by simp [hl],by simp [hl]⟩) (fun hs => hs.elim) trivial)
  | readRecords p hp hl => exact readRecords_fair h hp hl (ho p hp)
  | send p record hp hl => exact send_fair h hp hl
  | sendFails p record hp hl =>
    have hk := fair p hp
    obtain ⟨hroll,hboot,hstarted,hconfirm,hpast,-⟩ := hk.reporting (by rw [hl]; trivial)
    exact h.process (hk.linked hboot hstarted (.inl hroll) hconfirm (fun _ _ => hpast)
      (fun hs => hs.elim) trivial)
  | clearSentOutcome p hp hl => exact clearSentOutcome_fair h hp hl
  | clearSentReport p hp hl => exact clearSentReport_fair h hp hl
  | drop p hp hl =>
    have hk := fair p hp
    have hconfirm := hk.confirm (by simp [hl])
    refine h.process (hk.linked ?_ ?_ (.inr (.inl rfl)) hconfirm
      (fun _ _ => ⟨hconfirm,by simp [hl],by simp [hl]⟩) (fun hs => hs.elim) trivial)
    · exact fun hb => absurd (hl.symm.trans (hk.booting hb).2.1) (by simp)
    · cases hst : p.started with
      | true => rfl
      | false => exact absurd (hl.symm.trans (hk.unstarted hst).2) (by simp)
  | sendLive p attempt rest hp hst hl =>
    have hk := fair p hp
    exact h.process {hk with
      statuses := fun a ha => hk.statuses a (by rw [hst]; exact mem_cons_of_mem _ ha)}
  | update p version binary hp hstarted hl hw hurl =>
    exact update_fair h hp hstarted (ho p hp) hurl
  | writeMarker p attempt version binary hp hw => exact writeMarker_fair h hp hw
  | install p attempt version binary hp hw hv =>
    have hk := fair p hp
    have hworker := hk.worker
    rw [hw] at hworker
    exact h.elsewhere _ _ _ h.current (hk.working (by simp [hw]) _ (.inl (by rw [hw]; rfl))
      ⟨hworker,validVersion_ne_nil hv⟩)
  | refuse p attempt version binary hp hw hv =>
    exact h.process ((fair p hp).working (by simp [hw]) _ (.inl (by rw [hw]; rfl)) trivial)
  | clearRefused p attempt hp hw =>
    have hk := fair p hp
    obtain ⟨hroll,hboot,-⟩ := hk.busy (by simp [hw])
    exact unmark_fair h (hk.working (by simp [hw]) .idle (.inr rfl) trivial)
      (hk.superseded hboot hroll) hroll
  | resolve p attempt version hp hw =>
    have hk := fair p hp
    have hworker := hk.worker
    rw [hw] at hworker
    refine h.elsewhere _ _ _ h.current (hk.working (by simp [hw]) _ (.inl (by rw [hw]; rfl))
      ⟨hworker,?_⟩)
    cases hc : s.disk.current with
    | none => simp
    | some path => exact h.current path hc
  | repoint p attempt version path hp hw =>
    have hk := fair p hp
    have hworker := hk.worker
    rw [hw] at hworker
    refine h.elsewhere _ _ _ ?_ (hk.working (by simp [hw]) _ (.inl (by rw [hw]; rfl)) hworker)
    rintro _ ⟨⟩
    exact versionDir_oneLine env hworker.1.1
  | markSwapped p attempt version path hp hw => exact markSwapped_fair h hp hw ho
  | writePendingOutcome p attempt version hp hw => exact writePendingOutcome_fair h hp hw
  | reportSucceeded p attempt version hp hw =>
    have hk := fair p hp
    have hmoved := hk.working (by simp [hw]) (.reported attempt) (.inl (by rw [hw]; rfl))
      trivial
    refine h.process {hmoved with statuses := fun a ha => ?_}
    rcases mem_append.1 ha with ha | ha
    · exact hk.statuses a ha
    · cases mem_singleton.1 ha
      exact (hk.attempt attempt (by rw [hw]; rfl)).1
  | execFails p attempt hp hw =>
    exact h.process ((fair p hp).working (by simp [hw]) _ (.inr rfl) trivial)

theorem installed_fair (binary : Content) (hurl : urlParses version = true) :
    (State.installed env version binary).Fair env where
  current _ hp := by
    cases hp
    exact versionDir_oneLine env (urlParses_oneLine hurl)
  markerLt _ _ hm := by cases hm
  outcomeLt _ hf := by cases hf
  undoneLt _ ha := by cases ha
  outcomeText _ hf := by cases hf
  report _ hf := by cases hf
  marker _ _ hm := by cases hm.1
  both _ hf := by cases hf
  redoable _ hf := by cases hf
  sent _ hr := by cases hr
  proc _ hp := by cases hp

theorem outcome_removed (h : s.Fair env) {e : Event Content} {t : State Content}
    (hs : Step env s e t) {file : Filed} (hf : s.disk.outcome = some file)
    (ht : t.disk.outcome ≠ some file) : SentOutcome s file ∨ file.attempt ∈ s.undone := by
  cases hs with
  | clearOutcome p attempt hp hg =>
    have hguard := (h.proc p hp).guard
    rw [hg] at hguard
    obtain ⟨⟨m,hm,-⟩,hu⟩ := hguard
    rw [(h.marker attempt m hm).2.1 file hf]
    exact .inr hu
  | clearSentOutcome p hp hl =>
    have hlink := (h.proc p hp).link
    rw [hl] at hlink
    exact .inl (hlink.1 file hf)
  | writePendingOutcome p attempt version hp hw =>
    have hworker := (h.proc p hp).worker
    rw [hw] at hworker
    exact absurd (hworker.2.2.1.symm.trans hf) (by simp)
  | _ => exact absurd hf ht

theorem report_removed (h : s.Fair env) {e : Event Content} {t : State Content}
    (hs : Step env s e t) {file : Filed} (hf : s.disk.report = some file)
    (ht : t.disk.report.map (·.attempt) ≠ some file.attempt) : SentReport s file := by
  have same (he : t.disk.report = s.disk.report) : SentReport s file := by
    rw [he,hf] at ht
    exact absurd rfl ht
  cases hs with
  | writeReport p attempt version hp hg =>
    have hguard := (h.proc p hp).guard
    rw [hg] at hguard
    obtain ⟨⟨m,hm,-⟩,-⟩ := hguard
    rw [(h.marker attempt m hm).2.2 file hf] at ht
    exact absurd rfl ht
  | clearSentReport p hp hl =>
    have hlink := (h.proc p hp).link
    rw [hl] at hlink
    exact hlink file hf
  | _ => exact same rfl

/-- In every run that meets the condition: a record that was sent names the attempt's fate,
succeeded for one never rolled back and rolled back for one that was, so no attempt is
reported both ways; no live success goes out after the rollback; and a record leaves the
disk only after that very record was sent, or, a pending outcome, after its rollback. -/
theorem outcome_names_final_fate {version : Text} {binary : Content}
    (hurl : urlParses version = true) {s : State Content} {es : List (Event Content)}
    (run : Run (Guarded (Step env) (Orderly env)) (.installed env version binary) es s) :
    (∀ record ∈ s.sent, record.phase = succeeded ∧ record.attempt ∉ s.undone ∨
      record.phase = rolledBack ∧ record.attempt ∈ s.undone) ∧
    (∀ record ∈ s.sent, ∀ other ∈ s.sent, record.attempt = other.attempt →
      record.phase = other.phase) ∧
    (∀ attempt t, Step env s (.sendLive attempt) t → attempt ∉ s.undone) ∧
    ∀ e t, Guarded (Step env) (Orderly env) s e t →
      (∀ file, s.disk.outcome = some file → t.disk.outcome ≠ some file →
        SentOutcome s file ∨ file.attempt ∈ s.undone) ∧
      (∀ file, s.disk.report = some file → t.disk.report.map (·.attempt) ≠ some file.attempt →
        SentReport s file) := by
  have h := run.invariant step_fair (installed_fair binary hurl)
  have fate : ∀ record ∈ s.sent, record.phase = succeeded ∧ record.attempt ∉ s.undone ∨
      record.phase = rolledBack ∧ record.attempt ∈ s.undone := fun record hr =>
    (h.sent record hr).imp (fun hs => ⟨hs.1,hs.2.1⟩) id
  refine ⟨fate,fun record hr other ho he => ?_,fun attempt t hs => ?_,fun e t hs =>
    ⟨fun file => outcome_removed h hs.2,fun file => report_removed h hs.2⟩⟩
  · rcases fate record hr with ⟨hp,hu⟩ | ⟨hp,hu⟩ <;>
      rcases fate other ho with ⟨hp',hu'⟩ | ⟨hp',hu'⟩
    · rw [hp,hp']
    · exact absurd (he ▸ hu') hu
    · exact absurd (he ▸ hu) hu'
    · rw [hp,hp']
  · cases hs with
    | sendLive p attempt rest hp hst hl =>
      intro hu
      have hk := h.proc p hp
      have hbase := hk.statuses attempt (by rw [hst]; exact mem_cons_self)
      exact absurd (hk.undone attempt hu) (Nat.not_lt.2 hbase)

theorem outcome_names_final_fate_rolledBack :
    let v : Text := "1.0".toList
    let w : Text := "2.0".toList
    ∃ (es : List (Event Bool)) (s : State Bool),
      Run (Guarded (Step defaultEnv) (Orderly defaultEnv)) (.installed defaultEnv v false) es s ∧
      s.sent = [⟨0,w,rolledBack⟩] ∧ 0 ∈ s.undone ∧
      ∀ record ∈ s.sent, record.phase = succeeded ∧ record.attempt ∉ s.undone ∨
        record.phase = rolledBack ∧ record.attempt ∈ s.undone := by
  intro v w
  have start : Run (Guarded (Step defaultEnv) (Orderly defaultEnv))
      (.installed defaultEnv v false) [] (.installed defaultEnv v false) := .nil _
  have run := ((((((((((((((((start.also (.boot _ false rfl rfl) trivial).also
    (.startup _ _ rfl rfl rfl) trivial).also
    (.helloAckFirst _ _ rfl rfl rfl rfl) fun _ hq => by cases hq; rfl).also
    (.readConfirm _ _ rfl rfl) trivial).also (.clearConfirm _ _ none rfl rfl) trivial).also
    (.readRecords _ _ rfl rfl) fun _ hq => by cases hq; rfl).also
    (.update _ _ w true rfl rfl (.inr rfl) rfl (by decide)) fun _ hq => by cases hq; rfl).also
    (.writeMarker _ _ 0 w true rfl rfl) trivial).also
    (.install _ _ 0 w true rfl rfl (by decide)) trivial).also
    (.resolve _ _ 0 w rfl rfl) trivial).also (.repoint _ _ 0 w _ rfl rfl) trivial).also
    (.markSwapped _ _ 0 w _ rfl rfl) fun _ hq => by cases hq; exact ⟨rfl,rfl,rfl,id⟩).also
    (.writePendingOutcome _ _ 0 w rfl rfl) trivial).also
    (.reportSucceeded _ _ 0 w rfl rfl) trivial).also (.exec _ _ 0 true rfl rfl rfl) trivial).also
    (.tick _) trivial).also (.tick _) trivial
  have run := (((((((((((run.also
    (.startsExpired defaultEnv rfl rfl rfl (by decide) (by decide) (by decide)) trivial).also
    (.rollback _ _ 0 w _ rfl rfl (by decide)) trivial).also
    (.writeReport _ _ 0 w rfl rfl) trivial).also (.clearOutcome _ _ 0 rfl rfl) trivial).also
    (.clearMarker _ _ 0 rfl rfl) trivial).also (.reExec _ _ 0 false rfl rfl rfl) trivial).also
    (.startup _ _ rfl rfl rfl) trivial).also
    (.helloAckFirst _ _ rfl rfl rfl rfl) fun _ hq => by cases hq; rfl).also
    (.readConfirm _ _ rfl rfl) trivial).also (.clearConfirm _ _ none rfl rfl) trivial).also
    (.readRecords _ _ rfl rfl) fun _ hq => by cases hq; rfl).also
    (.send _ _ ⟨0,w,rolledBack⟩ rfl rfl) trivial
  exact ⟨_,_,run,rfl,mem_cons_self,(outcome_names_final_fate (by decide) run).1⟩

/-- The process that swaps 2.0 in reconnects between writing the pending outcome and its
exec, and reports the success itself; 2.0 then never connects and is rolled back, and
the same attempt is reported again, the other way. -/
theorem outcome_reported_both_ways :
    let v : Text := "1.0".toList
    ¬∀ (es : List (Event Bool)) (s : State Bool),
      Run (Step defaultEnv) (.installed defaultEnv v false) es s →
      ∀ record ∈ s.sent, ∀ other ∈ s.sent, record.attempt = other.attempt →
        record.phase = other.phase := by
  intro v claim
  let w : Text := "2.0".toList
  have start : Run (Step defaultEnv) (.installed defaultEnv v false) []
      (.installed defaultEnv v false) := .nil _
  have run := ((((((((((((start.snoc (.boot _ false rfl rfl)).snoc
    (.startup _ _ rfl rfl rfl)).snoc (.helloAckFirst _ _ rfl rfl rfl rfl)).snoc
    (.readConfirm _ _ rfl rfl)).snoc (.clearConfirm _ _ none rfl rfl)).snoc
    (.readRecords _ _ rfl rfl)).snoc
    (.update _ _ w true rfl rfl (.inr rfl) rfl (by decide))).snoc
    (.writeMarker _ _ 0 w true rfl rfl)).snoc (.install _ _ 0 w true rfl rfl (by decide))).snoc
    (.resolve _ _ 0 w rfl rfl)).snoc (.repoint _ _ 0 w _ rfl rfl)).snoc
    (.markSwapped _ _ 0 w _ rfl rfl)).snoc (.writePendingOutcome _ _ 0 w rfl rfl)
  have run := ((((((((run.snoc (.drop _ _ rfl rfl)).snoc (.helloAck _ _ rfl rfl rfl rfl)).snoc
    (.readRecords _ _ rfl rfl)).snoc (.send _ _ ⟨0,w,succeeded⟩ rfl rfl)).snoc
    (.clearSentOutcome _ _ rfl rfl)).snoc (.clearSentReport _ _ rfl rfl)).snoc
    (.reportSucceeded _ _ 0 w rfl rfl)).snoc (.exec _ _ 0 true rfl rfl rfl)).snoc (.tick _)
  have run := ((((((((((((run.snoc (.tick _)).snoc
    (.startsExpired defaultEnv rfl rfl rfl (by decide) (by decide) (by decide))).snoc
    (.rollback _ _ 0 w _ rfl rfl (by decide))).snoc (.writeReport _ _ 0 w rfl rfl)).snoc
    (.clearOutcome _ _ 0 rfl rfl)).snoc (.clearMarker _ _ 0 rfl rfl)).snoc
    (.reExec _ _ 0 false rfl rfl rfl)).snoc (.startup _ _ rfl rfl rfl)).snoc
    (.helloAckFirst _ _ rfl rfl rfl rfl)).snoc (.readConfirm _ _ rfl rfl)).snoc
    (.clearConfirm _ _ none rfl rfl)).snoc (.readRecords _ _ rfl rfl)).snoc
    (.send _ _ ⟨0,w,rolledBack⟩ rfl rfl)
  have same := claim _ _ run ⟨0,w,rolledBack⟩ mem_cons_self ⟨0,w,succeeded⟩
    (mem_cons_of_mem _ mem_cons_self) rfl
  exact absurd same (by decide)

end CircuitBreaker.SelfUpdate
