import CircuitBreaker.ProbeRuntime
import Mathlib.Data.List.Basic

/-! The results of the probe runtime: who has still to report a run, and who has still to take it
out of the map. -/

namespace CircuitBreaker.ProbeRuntime
open StepRuns List

variable {ι : Type}

inductive Duty where
  | report
  | forget
  deriving DecidableEq

def Caller.bears (d : Duty) (e : Nat) : Caller → Bool
  | .full i | .forget i _ _ => i = e
  | .refuse i | .finish i _ _ => d = .report && i = e
  | .push _ | .snapshot _ | .cancel _ _ => false

def Phase.bears (d : Duty) : Phase → Bool
  | .check | .judge _ | .report _ => true
  | .forget => d = .forget
  | .begin | .release => false

def Worker.bears (d : Duty) (e : Nat) (w : Worker) : Bool := w.entry = e && w.phase.bears d

def Entry.unclaimed (x : Entry ι) : Bool := x.state = .queued && !x.refused

def Runtime.unclaimed (s : Runtime ι) (e : Nat) : Bool := (s.entries[e]?).any Entry.unclaimed

/-- How many have the duty to a run: the run itself has, as long as it is unclaimed. -/
def Runtime.bearers (d : Duty) (s : Runtime ι) (e : Nat) : Nat :=
  s.callers.countP (Caller.bears d e)+s.workers.countP (Worker.bears d e)+(s.unclaimed e).toNat

def Frame.reports (e : Nat) : Frame → Bool
  | .result i _ => i = e
  | .capabilityViolation => false

def Runtime.resultsOf (s : Runtime ι) (e : Nat) : Nat := s.sent.countP (Frame.reports e)

def Runtime.openRun [DecidableEq ι] (s : Runtime ι) (id : ι) : Bool :=
  s.entries.any fun x => x.runId = id && x.isOpen && !x.refused

def Worker.executing (w : Worker) : Bool := w.phase = .check

def Runtime.executing (s : Runtime ι) : List Worker := s.workers.filter Worker.executing

def Act.internal : Act ι → Bool
  | .caller | .dispatcher | .worker | .pump => true
  | .assign _ _ | .cancel _ _ | .disable _ | .configure _ | .stop => false

def Runtime.Quiescent [DecidableEq ι] (s : Runtime ι) : Prop :=
  ∀ (act : Act ι) (t : Runtime ι), act.internal = true → ¬Step s act t

/-- The steps but for three: an assignment that was cancelled finds the channel full, one that is
refused for a full channel is cancelled, and one that is malformed or not enabled has the id of an
open run. -/
structure Orderly [DecidableEq ι] (s : Runtime ι) (act : Act ι) (t : Runtime ι) : Prop where
  step : Step s act t
  full : ∀ before after e x, s.callers = before++.push e::after →
    t.callers = before++.full e::after → s.entries[e]? = some x → x.cancelled = false
  cancel : ∀ before after e es reason x, s.callers = before++.cancel (e::es) reason::after →
    t.callers = before++.forget e es reason::after → s.entries[e]? = some x → x.refused = false
  refuse : ∀ id wellFormed, act = .assign id wellFormed →
    wellFormed = false ∨ s.enabled = false → s.openRun id = false

/-! Where the runs are that no one has claimed, and who reports those that execute. -/

variable {s : Runtime ι}

variable {x : Entry ι} {t : Runtime ι}

theorem unclaimed_put {e : Nat} {x' : Entry ι} (hx : s.entries[e]? = some x)
    (i : Nat) : (s.put e x').unclaimed i = if i = e then x'.unclaimed else s.unclaimed i := by
  simp only [Runtime.unclaimed,Runtime.put,get_set hx]
  by_cases h : i = e
  · simp [h]
  · simp [h]

structure Claims (s : Runtime ι) : Prop where
  refused : ∀ (e : Nat) x, s.entries[e]? = some x → x.refused = true →
    x.accepted = false ∧ e ∉ s.callers.flatMap Caller.pushing
  unclaimed : ∀ e, s.unclaimed e = true → e ∈ s.callers.flatMap Caller.pushing ∨ e ∈ s.queue ∨
    e ∈ s.dispatcher.held ∨ ∃ w ∈ s.workers, w.entry = e ∧ w.phase = .begin
  running : ∀ (e : Nat) x, s.entries[e]? = some x → x.state = .running → x.reported = false →
    ∃ w ∈ s.workers, w.entry = e ∧ w.phase.bears .report = true

theorem worker_kept {before after : List Worker} {w w' : Worker} {e : Nat} {P : Phase → Prop}
    (there : ∃ v ∈ before++w::after, v.entry = e ∧ P v.phase) (same : w'.entry = w.entry)
    (keep : w.entry = e → P w.phase → P w'.phase) :
    ∃ v ∈ before++w'::after, v.entry = e ∧ P v.phase := by
  obtain ⟨v,hv,he,hp⟩ := there
  rcases mem_append.1 hv with hv | hv
  · exact ⟨v,mem_append_left _ hv,he,hp⟩
  · rcases mem_cons.1 hv with rfl | hv
    · exact ⟨w',mem_append_right _ mem_cons_self,same.trans he,keep he hp⟩
    · exact ⟨v,mem_append_right _ (mem_cons_of_mem _ hv),he,hp⟩

theorem Claims.same (h : Claims s) (he : t.entries = s.entries)
    (hq : t.queue = s.queue) (hd : t.dispatcher.held = s.dispatcher.held)
    (hw : t.workers = s.workers)
    (hc : t.callers.flatMap Caller.pushing = s.callers.flatMap Caller.pushing) : Claims t where
  refused := by
    rw [he,hc]
    exact h.refused
  unclaimed := by
    rw [hc,hq,hd,hw]
    intro e hu
    rw [Runtime.unclaimed,he] at hu
    exact h.unclaimed e hu
  running := by
    rw [he,hw]
    exact h.running

theorem Claims.worker {s : Runtime ι} (h : Claims s) (he : t.entries = s.entries)
    (hq : t.queue = s.queue) (hd : t.dispatcher = s.dispatcher) (hc : t.callers = s.callers)
    {before after : List Worker} {w w' : Worker} (hw : s.workers = before++w::after)
    (ht : t.workers = before++w'::after) (same : w'.entry = w.entry)
    (begun : w.phase = .begin → s.unclaimed w.entry = false)
    (reports : w.phase.bears .report = true → w'.phase.bears .report = true ∨
      ∀ x, s.entries[w.entry]? = some x → x.reported = true) : Claims t where
  refused := by
    rw [he,hc]
    exact h.refused
  unclaimed := by
    intro e hu
    have hu : s.unclaimed e = true := by rwa [Runtime.unclaimed,he] at hu
    rw [hc,hq,hd,ht]
    refine (h.unclaimed e hu).imp_right (Or.imp_right (Or.imp_right fun there => ?_))
    rw [hw] at there
    refine @worker_kept before after w w' e (· = .begin) there same fun mine phase => ?_
    rw [←mine,begun phase] at hu
    cases hu
  running := by
    rw [he,ht]
    intro e x hx running unreported
    have there := h.running e x hx running unreported
    rw [hw] at there
    refine @worker_kept before after w w' e (·.bears .report = true) there same fun mine bears => ?_
    rcases reports bears with still | reported
    · exact still
    · rw [reported x (mine ▸ hx)] at unreported
      cases unreported

theorem Claims.put (h : Claims s) {e : Nat} {x' : Entry ι}
    (hx : s.entries[e]? = some x) (he : t.entries = s.entries.set e x') (hq : t.queue = s.queue)
    (hd : t.dispatcher = s.dispatcher) (hw : t.workers = s.workers)
    (hc : (t.callers.flatMap Caller.pushing).Sublist (s.callers.flatMap Caller.pushing))
    (others : ∀ i, i ≠ e → i ∈ s.callers.flatMap Caller.pushing → i ∈ t.callers.flatMap Caller.pushing)
    (refused : x'.refused = true → x'.accepted = false ∧ e ∉ t.callers.flatMap Caller.pushing)
    (claimed : x'.unclaimed = true → x.unclaimed = true ∧
      (e ∈ s.callers.flatMap Caller.pushing → e ∈ t.callers.flatMap Caller.pushing))
    (running : x'.state = .running → x'.reported = false →
      x.state = .running ∧ x.reported = false) : Claims t where
  refused := by
    intro i y hy
    rw [he,get_set hx] at hy
    split at hy
    case isTrue hie =>
      cases hy
      rw [hie]
      exact refused
    case isFalse =>
      exact fun hr => (h.refused i y hy hr).imp_right fun hn hin => hn (hc.subset hin)
  unclaimed := by
    intro i hu
    have hu : (s.put e x').unclaimed i = true := by rwa [Runtime.unclaimed,he] at hu
    rw [unclaimed_put hx] at hu
    rw [hq,hd,hw]
    split at hu
    case isTrue hie =>
      obtain ⟨was,stays⟩ := claimed hu
      have there := h.unclaimed e (by rw [Runtime.unclaimed,hx]; exact was)
      rw [hie]
      exact there.imp_left stays
    case isFalse hie =>
      exact (h.unclaimed i hu).imp_left (others i hie)
  running := by
    intro i y hy
    rw [he,get_set hx] at hy
    rw [hw]
    split at hy
    case isTrue hie =>
      cases hy
      intro hs hr
      obtain ⟨was,unreported⟩ := running hs hr
      rw [hie]
      exact h.running e x hx was unreported
    case isFalse =>
      exact h.running i y hy

theorem Claims.append (h : Claims s) (hs : Channel s)
    (he : t.entries = s.entries++[x]) (hq : t.queue = s.queue) (hd : t.dispatcher = s.dispatcher)
    (hw : t.workers = s.workers) (idle : x.state ≠ .running) (unaccepted : x.accepted = false)
    (hc : t.callers.flatMap Caller.pushing =
      s.callers.flatMap Caller.pushing++if x.refused then [] else [s.entries.length]) :
    Claims t where
  refused := by
    intro i y hy hr
    rw [he] at hy
    rw [hc,mem_append]
    rcases Nat.lt_trichotomy i s.entries.length with old | rfl | beyond
    · rw [List.getElem?_append_left old] at hy
      obtain ⟨ha,hn⟩ := h.refused i y hy hr
      refine ⟨ha,?_⟩
      rintro (hin | hin)
      · exact hn hin
      · by_cases hx : x.refused = true
        · simp [hx] at hin
        · simp only [hx,Bool.false_eq_true,if_false,mem_singleton] at hin
          omega
    · rw [List.getElem?_concat_length] at hy
      cases hy
      refine ⟨unaccepted,?_⟩
      rintro (hin | hin)
      · obtain ⟨z,hz,-⟩ := hs.unaccepted _ hin
        exact absurd (List.getElem?_eq_some_iff.1 hz).1 (Nat.lt_irrefl _)
      · simp [hr] at hin
    · rw [List.getElem?_eq_none (by simp; omega)] at hy
      cases hy
  unclaimed := by
    intro i hu
    rw [Runtime.unclaimed,he] at hu
    rw [hc,hq,hd,hw]
    rcases Nat.lt_trichotomy i s.entries.length with old | rfl | beyond
    · rw [List.getElem?_append_left old] at hu
      exact (h.unclaimed i hu).imp_left (mem_append_left _)
    · rw [List.getElem?_concat_length,Option.any_some] at hu
      have kept : x.refused = false := by
        simp only [Entry.unclaimed,Bool.and_eq_true,Bool.not_eq_true'] at hu
        exact hu.2
      exact .inl (by simp [kept])
    · rw [List.getElem?_eq_none (by simp; omega)] at hu
      cases hu
  running := by
    intro i y hy hr
    rw [he] at hy
    rw [hw]
    rcases Nat.lt_trichotomy i s.entries.length with old | rfl | beyond
    · rw [List.getElem?_append_left old] at hy
      exact h.running i y hy hr
    · rw [List.getElem?_concat_length] at hy
      cases hy
      exact absurd hr idle
    · rw [List.getElem?_eq_none (by simp; omega)] at hy
      cases hy

theorem Claims.pushed {s : Runtime ι} (h : Claims s) {before after : List Caller} {e : Nat}
    {x : Entry ι} (hc : s.callers = before++.push e::after)
    (hx : s.entries[e]? = some x) :
    Claims { s.put e { x with accepted := true } with
      queue := s.queue++[e]
      callers := before++after } := by
  have callers : s.callers.flatMap Caller.pushing =
      before.flatMap Caller.pushing++e::after.flatMap Caller.pushing := by
    simp [hc,Caller.pushing]
  have fewer : ((before++after).flatMap Caller.pushing).Sublist
      (s.callers.flatMap Caller.pushing) := by
    rw [callers,flatMap_append]
    exact List.Sublist.append_left (sublist_cons_self _ _) _
  have mine : e ∈ s.callers.flatMap Caller.pushing := by
    rw [callers]
    exact mem_append_right _ mem_cons_self
  constructor
  case refused =>
    intro i y hy hr
    rw [Runtime.put,get_set hx] at hy
    split at hy
    · cases hy
      exact absurd mine (h.refused e x hx hr).2
    · exact (h.refused i y hy hr).imp_right fun hn hin => hn (fewer.subset hin)
  case unclaimed =>
    intro i hu
    have hu : (s.put e { x with accepted := true }).unclaimed i = true := hu
    rw [unclaimed_put hx] at hu
    by_cases hie : i = e
    · exact .inr (.inl (by simp [hie]))
    · rw [if_neg hie] at hu
      rcases h.unclaimed i hu with hin | hin | hin
      · rw [callers] at hin
        refine .inl ?_
        rw [flatMap_append]
        rcases mem_append.1 hin with hin | hin
        · exact mem_append_left _ hin
        · exact mem_append_right _ ((mem_cons.1 hin).resolve_left hie)
      · exact .inr (.inl (mem_append_left _ hin))
      · exact .inr (.inr hin)
  case running =>
    intro i y hy hr hn
    rw [Runtime.put,get_set hx] at hy
    split at hy
    case isTrue hie =>
      cases hy
      rw [hie]
      exact h.running e x hx hr hn
    case isFalse =>
      exact h.running i y hy hr hn

theorem Claims.move (h : Claims s) (he : t.entries = s.entries) (hc : t.callers = s.callers)
    (queue : ∀ e, e ∈ s.queue → e ∈ t.queue ∨ e ∈ t.dispatcher.held)
    (held : ∀ e, e ∈ s.dispatcher.held → e ∈ t.dispatcher.held ∨
      ∃ w ∈ t.workers, w.entry = e ∧ w.phase = .begin)
    (workers : ∀ w ∈ s.workers, w.phase ≠ .release → ∃ v ∈ t.workers, v.entry = w.entry ∧
      v.phase = w.phase) : Claims t where
  refused := by
    rw [he,hc]
    exact h.refused
  unclaimed := by
    intro e hu
    have hu : s.unclaimed e = true := by rwa [Runtime.unclaimed,he] at hu
    rw [hc]
    rcases h.unclaimed e hu with hin | hin | hin | ⟨w,hin,hw,phase⟩
    · exact .inl hin
    · rcases queue e hin with hin | hin
      · exact .inr (.inl hin)
      · exact .inr (.inr (.inl hin))
    · exact .inr (.inr (held e hin))
    · obtain ⟨v,hv,same,as⟩ := workers w hin (by rw [phase]; nofun)
      exact .inr (.inr (.inr ⟨v,hv,same.trans hw,as.trans phase⟩))
  running := by
    rw [he]
    intro e x hx hr hn
    obtain ⟨w,hin,hw,bears⟩ := h.running e x hx hr hn
    obtain ⟨v,hv,same,as⟩ := workers w hin fun phase => by
      rw [phase] at bears
      cases bears
    exact ⟨v,hv,same.trans hw,as ▸ bears⟩

section
variable [DecidableEq ι]

variable {s t : Runtime ι} {act : Act ι}

theorem Claims.step (h : Claims s) (hs : Channel s)
    (step : Step s act t) : Claims t := by
  cases step with
  | refuse | register => exact h.append hs rfl rfl rfl rfl (by simp) rfl (by simp [Caller.pushing])
  | duplicate | cancelUnknown => exact h
  | pushed hc hx room => exact h.pushed hc hx
  | @overflow before after e x hc hx full =>
    have callers : s.callers.flatMap Caller.pushing =
        before.flatMap Caller.pushing++e::after.flatMap Caller.pushing := by
      simp [hc,Caller.pushing]
    have left : (before++.full e::after).flatMap Caller.pushing =
        before.flatMap Caller.pushing++after.flatMap Caller.pushing := by
      simp [Caller.pushing]
    have once := hs.pushing
    rw [callers] at once
    have gone : e ∉ before.flatMap Caller.pushing++after.flatMap Caller.pushing :=
      (nodup_cons.1 (perm_middle.nodup_iff.1 once)).1
    obtain ⟨y,hy,unaccepted,idle⟩ := hs.unaccepted e (by rw [callers]; simp)
    rw [hx] at hy
    cases hy
    refine h.put hx rfl rfl rfl rfl ?_ ?_ ?_ ?_ ?_
    · rw [left,callers]
      exact List.Sublist.append_left (sublist_cons_self _ _) _
    · intro i other hin
      rw [callers] at hin
      rw [left]
      rcases mem_append.1 hin with hin | hin
      · exact mem_append_left _ hin
      · exact mem_append_right _ ((mem_cons.1 hin).resolve_left other)
    · rw [left]
      exact fun _ => ⟨unaccepted,gone⟩
    · exact fun hu => absurd hu (by simp [Entry.unclaimed])
    · exact fun running => absurd running idle
  | fullForget hc hx | snapshot hc nodup all | cancelForget hc hx =>
    exact h.same rfl rfl rfl rfl (by rw [hc]; exact pushing_swap rfl)
  | @refused before after e hc =>
    have kept := emitted s (.result e .rejected)
    exact h.same kept.entries kept.queue (congrArg _ kept.dispatcher) kept.workers
      (by rw [hc]; exact pushing_remove rfl)
  | cancelFound | disable | stop => exact h.same rfl rfl rfl rfl (by simp [Caller.pushing])
  | configure =>
    refine h.move rfl rfl (fun e => .inl) (fun e => .inl) fun w hw _ => ?_
    exact ⟨_,mem_map.2 ⟨w,hw,rfl⟩,rfl,rfl⟩
  | @cancelQueued before after e es reason x hc hx queued =>
    have kept : (before++.forget e es reason::after).flatMap Caller.pushing =
        s.callers.flatMap Caller.pushing := by rw [hc]; exact pushing_swap rfl
    refine h.put hx rfl rfl rfl rfl (kept ▸ .refl _) (fun i _ hin => kept ▸ hin) ?_ (by intros; contradiction) (by intros; contradiction)
    rw [kept]
    exact h.refused e x hx
  | @cancelOther before after e es reason x hc hx other =>
    have kept : (before++.cancel es reason::after).flatMap Caller.pushing =
        s.callers.flatMap Caller.pushing := by rw [hc]; exact pushing_swap rfl
    refine h.put hx rfl rfl rfl rfl (kept ▸ .refl _) (fun i _ hin => kept ▸ hin) ?_
      (fun hu => ⟨hu,fun hin => kept ▸ hin⟩) fun hr hn => ⟨hr,hn⟩
    rw [kept]
    exact h.refused e x hx
  | cancelEnd hc => exact h.same rfl rfl rfl rfl (by rw [hc]; exact pushing_remove rfl)
  | @cancelFinish before after e es reason hc =>
    have kept := emitted s (.result e .cancelled)
    exact h.same kept.entries kept.queue (congrArg _ kept.dispatcher) kept.workers
      (by rw [hc]; exact pushing_swap rfl)
  | slot hd free => exact h.same rfl rfl (by rw [hd]; rfl) rfl rfl
  | @take e rest hd hq =>
    refine h.move rfl rfl (fun i hin => ?_) (fun i hin => ?_) fun w hw _ => ⟨w,hw,rfl,rfl⟩
    · rw [hq] at hin
      exact (mem_cons.1 hin).symm.imp_right fun here => mem_singleton.2 here
    · rw [hd] at hin
      cases hin
  | @spawn e hd =>
    refine h.move rfl rfl (fun i => .inl) (fun i hin => ?_) fun w hw _ =>
      ⟨w,mem_append_left _ hw,rfl,rfl⟩
    rw [hd] at hin
    exact .inr ⟨_,mem_append_right _ mem_cons_self,(mem_singleton.1 hin).symm,rfl⟩
  | halt stopped idle => exact h.same rfl rfl (by rw [idle]; rfl) rfl rfl
  | @begin before after w x hw phase hx queued =>
    have here : w.entry ∈ s.workers.map (·.entry) :=
      mem_map.2 ⟨w,hw ▸ mem_append_right _ mem_cons_self,rfl⟩
    constructor
    case refused =>
      intro i y hy hr
      rw [Runtime.put,get_set hx] at hy
      split at hy
      case isTrue hie =>
        cases hy
        rw [hie]
        exact h.refused _ x hx hr
      case isFalse =>
        exact h.refused i y hy hr
    case unclaimed =>
      intro i hu
      have hu : (s.put w.entry { x with state := .running }).unclaimed i = true := hu
      rw [unclaimed_put hx] at hu
      split at hu
      case isTrue =>
        cases hu
      case isFalse hie =>
        refine (h.unclaimed i hu).imp_right (Or.imp_right (Or.imp_right fun there => ?_))
        rw [hw] at there
        exact @worker_kept before after w _ i (· = .begin) there rfl fun mine =>
          absurd mine.symm hie
    case running =>
      intro i y hy hr hn
      rw [Runtime.put,get_set hx] at hy
      by_cases hie : i = w.entry
      · exact ⟨_,mem_append_right _ mem_cons_self,hie.symm,rfl⟩
      · rw [if_neg hie] at hy
        have there := h.running i y hy hr hn
        rw [hw] at there
        exact @worker_kept before after w _ i (·.bears .report = true) there rfl fun mine =>
          absurd mine.symm hie
  | @skip before after w x hw phase hx other =>
    refine h.worker rfl rfl rfl rfl hw rfl rfl (fun _ => ?_) fun bears => ?_
    · simp [Runtime.unclaimed,hx,Entry.unclaimed,other]
    · rw [phase] at bears
      cases bears
  | checked hw phase | judge hw phase hx =>
    exact h.worker rfl rfl rfl rfl hw rfl rfl (fun first => absurd (phase.symm.trans first) (by simp))
      fun _ => .inl rfl
  | @violation before after w hw phase =>
    have kept := emitted s .capabilityViolation
    exact h.worker kept.entries kept.queue kept.dispatcher kept.callers hw rfl rfl
      (fun first => absurd (phase.symm.trans first) (by simp)) fun _ => .inl rfl
  | @report before after w x outcome hw phase hx =>
    have told : Claims (s.put w.entry { x with reported := true }) :=
      h.put hx rfl rfl rfl rfl (.refl _) (fun _ _ hin => hin) (h.refused _ x hx)
        (fun hu => ⟨hu,id⟩) (by intros; contradiction)
    have kept := emitted (s.put w.entry { x with reported := true }) (.result w.entry outcome)
    refine told.worker kept.entries kept.queue kept.dispatcher kept.callers hw rfl rfl
      (fun first => absurd (phase.symm.trans first) (by simp)) fun _ => .inr fun y hy => ?_
    rw [Runtime.put,get_set hx,if_pos rfl] at hy
    cases hy
    rfl
  | forgetRun hw phase hx =>
    exact h.worker rfl rfl rfl rfl hw rfl rfl (fun first => absurd (phase.symm.trans first) (by simp))
      fun bears => absurd bears (by rw [phase]; simp [Phase.bears])
  | @release before after w hw phase =>
    refine h.move rfl rfl (fun i => .inl) (fun i => .inl) fun v hv other => ?_
    rw [hw] at hv
    rcases mem_append.1 hv with hv | hv
    · exact ⟨v,mem_append_left _ hv,rfl,rfl⟩
    · rcases mem_cons.1 hv with rfl | hv
      · exact absurd phase other
      · exact ⟨v,mem_append_right _ hv,rfl,rfl⟩
  | pump hr => exact h.same rfl rfl rfl rfl rfl

/-! The slots. -/

def Runtime.peaks (s : Runtime ι) : List Nat := s.workers.map (·.peak)

def Dispatcher.reserves : Dispatcher → Bool
  | .slot | .taken _ => true
  | .waiting | .stopped => false

structure Slots (s : Runtime ι) : Prop where
  capacity : 0 < s.maxConcurrent
  inFlight : s.inFlight = s.workers.length
  halted : s.dispatcher = .stopped → s.stopped = true
  current : ∀ p ∈ s.peaks, s.maxConcurrent ≤ p
  since : ∀ before p after, s.peaks = before++p::after → after.length+1 ≤ p
  reserved : s.dispatcher.reserves = true → ∀ p ∈ s.peaks, s.workers.length+1 ≤ p

omit [DecidableEq ι] in
theorem Slots.same (h : Slots s) (hp : t.peaks = s.peaks)
    (hm : t.maxConcurrent = s.maxConcurrent) (hi : t.inFlight = s.inFlight)
    (hd : t.dispatcher = s.dispatcher) (hs : s.stopped = true → t.stopped = true) : Slots t := by
  have length : t.workers.length = s.workers.length := by
    have := congrArg List.length hp
    simpa only [Runtime.peaks,length_map] using this
  constructor
  case capacity => exact hm ▸ h.capacity
  case inFlight => rw [hi,length,h.inFlight]
  case halted => exact fun halt => hs (h.halted (hd ▸ halt))
  case current => exact hp ▸ hm ▸ h.current
  case since => exact hp ▸ h.since
  case reserved =>
    rw [hd,hp,length]
    exact h.reserved

omit [DecidableEq ι] in
theorem Slots.phase (h : Slots s) {before after : List Worker} {w w' : Worker}
    (hw : s.workers = before++w::after) (ht : t.workers = before++w'::after)
    (same : w'.peak = w.peak) (hm : t.maxConcurrent = s.maxConcurrent)
    (hi : t.inFlight = s.inFlight) (hd : t.dispatcher = s.dispatcher)
    (hs : t.stopped = s.stopped) : Slots t := by
  refine h.same ?_ hm hi hd fun halt => hs.trans halt
  rw [Runtime.peaks,Runtime.peaks,hw,ht]
  simp only [map_append,map_cons,same]

theorem clampConcurrency_pos (n : Int) : 0 < clampConcurrency n := by
  rw [clampConcurrency]
  split
  · decide
  · omega

omit [DecidableEq ι] in
theorem Slots.configure (h : Slots s) {m : Nat} (pos : 0 < m)
    (hw : t.workers = s.workers.map fun w => { w with peak := max w.peak m })
    (hm : t.maxConcurrent = m) (hi : t.inFlight = s.inFlight) (hd : t.dispatcher = s.dispatcher)
    (hs : t.stopped = s.stopped) : Slots t := by
  have raised : t.peaks = s.peaks.map fun p => max p m := by
    simp only [Runtime.peaks,hw,map_map]
    rfl
  have length : t.workers.length = s.workers.length := by rw [hw,length_map]
  constructor
  case capacity => exact hm ▸ pos
  case inFlight => rw [hi,length,h.inFlight]
  case halted => exact fun halt => hs ▸ h.halted (hd ▸ halt)
  case current =>
    rw [raised,hm]
    intro p hp
    obtain ⟨q,-,rfl⟩ := mem_map.1 hp
    exact Nat.le_max_right _ _
  case since =>
    intro before p after hp
    rw [raised] at hp
    obtain ⟨l,r,hl,rfl,hr⟩ := map_eq_append_iff.1 hp
    obtain ⟨q,r',rfl,rfl,rfl⟩ := map_eq_cons_iff.1 hr
    have := h.since l q r' hl
    rw [length_map]
    omega
  case reserved =>
    rw [hd,raised,length]
    intro hr p hp
    obtain ⟨q,hq,rfl⟩ := mem_map.1 hp
    exact Nat.le_trans (h.reserved hr q hq) (Nat.le_max_left _ _)

omit [DecidableEq ι] in
theorem Slots.spawn {s t : Runtime ι} (h : Slots s) {e : Nat} (hd : s.dispatcher = .taken e)
    (hw : t.workers = s.workers++[⟨e,.begin,s.maxConcurrent⟩])
    (hm : t.maxConcurrent = s.maxConcurrent) (hi : t.inFlight = s.inFlight+1)
    (ht : t.dispatcher = .waiting) : Slots t := by
  have peaks : t.peaks = s.peaks++[s.maxConcurrent] := by
    simp only [Runtime.peaks,hw,map_append,map_cons,map_nil]
  constructor
  case capacity => exact hm ▸ h.capacity
  case inFlight => rw [hi,hw,length_append,h.inFlight,length_singleton]
  case halted =>
    rw [ht]
    nofun
  case current =>
    rw [peaks,hm]
    intro p hp
    rcases mem_append.1 hp with hp | hp
    · exact h.current p hp
    · exact Nat.le_of_eq (mem_singleton.1 hp).symm
  case since =>
    intro before p after hp
    rw [peaks] at hp
    rcases append_eq_append_iff.1 hp with ⟨l,rfl,hl⟩ | ⟨l,hl,hr⟩
    · have := h.capacity
      cases l with
      | nil =>
        cases hl
        exact this
      | cons q l => simp at hl
    · cases l with
      | nil =>
        cases hr
        exact h.capacity
      | cons q l =>
        simp only [cons_append,List.cons.injEq] at hr
        obtain ⟨rfl,rfl⟩ := hr
        have here : p ∈ s.peaks := by rw [hl]; exact mem_append_right _ mem_cons_self
        have room := h.reserved (by rw [hd]; rfl) p here
        have length := congrArg List.length hl
        simp only [Runtime.peaks,length_map,length_append,length_cons] at length
        rw [length_append,length_singleton]
        omega
  case reserved =>
    rw [ht]
    nofun

omit [DecidableEq ι] in
theorem Slots.release {s t : Runtime ι} (h : Slots s) {before after : List Worker} {w : Worker}
    (hw : s.workers = before++w::after) (ht : t.workers = before++after)
    (hm : t.maxConcurrent = s.maxConcurrent) (hi : t.inFlight = s.inFlight-1)
    (hd : t.dispatcher = s.dispatcher) (hs : t.stopped = s.stopped) : Slots t := by
  have old : s.peaks = before.map (·.peak)++w.peak::after.map (·.peak) := by
    simp only [Runtime.peaks,hw,map_append,map_cons]
  have new : t.peaks = before.map (·.peak)++after.map (·.peak) := by
    simp only [Runtime.peaks,ht,map_append]
  have sub : t.peaks.Sublist s.peaks := by
    rw [old,new]
    exact List.Sublist.append_left (sublist_cons_self _ _) _
  have length : t.workers.length+1 = s.workers.length := by simp [hw,ht]; omega
  constructor
  case capacity => exact hm ▸ h.capacity
  case inFlight =>
    have := h.inFlight
    omega
  case halted => exact fun halt => hs ▸ h.halted (hd ▸ halt)
  case current => exact fun p hp => hm ▸ h.current p (sub.subset hp)
  case since =>
    intro l p r hp
    rw [new] at hp
    rcases append_eq_append_iff.1 hp with ⟨m,rfl,hr⟩ | ⟨m,hl,hr⟩
    · exact h.since (before.map (·.peak)++w.peak::m) p r (by rw [old,hr]; simp)
    · cases m with
      | nil =>
        have rest : p::r = after.map (·.peak) := hr
        exact h.since (before.map (·.peak)++[w.peak]) p r (by rw [old,rest]; simp)
      | cons q m =>
        simp only [cons_append,List.cons.injEq] at hr
        obtain ⟨rfl,rfl⟩ := hr
        have := h.since l p (m++w.peak::after.map (·.peak)) (by rw [old,hl]; simp)
        simp only [length_append,length_cons] at this ⊢
        omega
  case reserved =>
    rw [hd]
    intro hr p hp
    have := h.reserved hr p (sub.subset hp)
    omega

theorem Slots.step (h : Slots s) (step : Step s act t) :
    Slots t := by
  have emits : ∀ f, Slots (s.emit f) := fun f => by
    rw [Runtime.emit]
    split
    · exact h.same rfl rfl rfl rfl id
    · exact h
  cases step with
  | refuse | duplicate | register | pushed | overflow | fullForget | cancelUnknown | cancelFound
  | disable | snapshot | cancelQueued | cancelOther | cancelEnd | cancelForget | pump =>
    exact h.same rfl rfl rfl rfl id
  | refused hc => exact (emits _).same rfl rfl rfl rfl id
  | cancelFinish hc => exact (emits _).same rfl rfl rfl rfl id
  | configure => exact h.configure (clampConcurrency_pos _) rfl rfl rfl rfl rfl
  | stop => exact h.same rfl rfl rfl rfl fun _ => rfl
  | slot hd free =>
    refine ⟨h.capacity,h.inFlight,(by intros; contradiction),h.current,h.since,fun _ p hp => ?_⟩
    have limit := h.current p hp
    have room := h.inFlight ▸ free
    show s.workers.length+1 ≤ p
    omega
  | take hd hq =>
    exact ⟨h.capacity,h.inFlight,(by intros; contradiction),h.current,h.since,fun _ => h.reserved (by rw [hd]; rfl)⟩
  | spawn hd => exact h.spawn hd rfl rfl rfl rfl
  | halt stopped idle =>
    exact ⟨h.capacity,h.inFlight,fun _ => stopped,h.current,h.since,(by intros; contradiction)⟩
  | begin hw _ _ _ => exact h.phase hw rfl rfl rfl rfl rfl rfl
  | skip hw _ _ _ => exact h.phase hw rfl rfl rfl rfl rfl rfl
  | checked hw _ => exact h.phase hw rfl rfl rfl rfl rfl rfl
  | violation hw _ =>
    exact (emits .capabilityViolation).phase ((emitted s _).workers.trans hw) rfl rfl rfl rfl rfl rfl
  | judge hw _ _ => exact h.phase hw rfl rfl rfl rfl rfl rfl
  | @report before after w x outcome hw _ _ =>
    have told : Slots (s.reportOf w.entry x outcome) := by
      rw [Runtime.reportOf,Runtime.emit]
      split
      · exact h.same rfl rfl rfl rfl id
      · exact h.same rfl rfl rfl rfl id
    have kept := emitted (s.put w.entry { x with reported := true }) (.result w.entry outcome)
    exact told.phase (kept.workers.trans hw) rfl rfl rfl rfl rfl rfl
  | forgetRun hw _ _ => exact h.phase hw rfl rfl rfl rfl rfl rfl
  | release hw _ => exact h.release hw rfl rfl rfl rfl rfl

/-! What a step does to the duties. -/

def Runtime.tell (s : Runtime ι) : Option Frame → Runtime ι
  | none => s
  | some f => s.emit f

/-- Nothing, but for a frame that is emitted and a run that is taken out of the map. -/
structure Effect (s t : Runtime ι) (told : Option Frame) (gone : Option Nat) : Prop where
  report : ∀ e, t.bearers .report e+(told.any (Frame.reports e)).toNat = s.bearers .report e
  forget : ∀ e, t.bearers .forget e+(decide (gone = some e)).toNat = s.bearers .forget e
  ids : t.entries.map (·.runId) = s.entries.map (·.runId)
  runs : ∀ id, t.runs id = s.runs id ∨
    (t.runs id = none ∧ ∃ e x, gone = some e ∧ s.entries[e]? = some x ∧ x.runId = id)
  sent : t.sent = (s.tell told).sent
  brimful : t.brimful = (s.tell told).brimful
  results : t.results.length ≤ (s.tell told).results.length

omit [DecidableEq ι] in
theorem Effect.quiet (bearers : ∀ d e, t.bearers d e = s.bearers d e)
    (ids : t.entries.map (·.runId) = s.entries.map (·.runId)) (runs : t.runs = s.runs)
    (sent : t.sent = s.sent) (brimful : t.brimful = s.brimful)
    (results : t.results.length ≤ s.results.length) : Effect s t none none where
  report e := by simp [bearers]
  forget e := by simp [bearers]
  ids := ids
  runs id := .inl (congrFun runs id)
  sent := sent
  brimful := brimful
  results := results

omit [DecidableEq ι] in
theorem emit_put (s : Runtime ι) (f : Frame) (e : Nat) (x : Entry ι) :
    (s.put e x).emit f = (s.emit f).put e x := by
  have results : (s.put e x).results = s.results := rfl
  rw [Runtime.emit,Runtime.emit,results]
  by_cases room : s.results.length < resultBufferSize
  · rw [if_pos room,if_pos room]
    rfl
  · rw [if_neg room,if_neg room]

theorem toNat_decide (p : Prop) [Decidable p] : (decide p).toNat = if p then 1 else 0 := by
  by_cases h : p <;> simp [h]

theorem countP_one {α : Type} (p : α → Bool) (a : α) : [a].countP p = (p a).toNat := by
  cases h : p a <;> simp [h]

variable {e : Nat} {x : Entry ι}

omit [DecidableEq ι] in
theorem put_ids {x' : Entry ι} (hx : s.entries[e]? = some x)
    (same : x'.runId = x.runId) : (s.put e x').entries.map (·.runId) = s.entries.map (·.runId) := by
  refine ext_getElem? fun i => ?_
  rw [Runtime.put,List.getElem?_map,List.getElem?_map,get_set hx]
  by_cases h : i = e
  · rw [if_pos h,h,hx,Option.map_some,Option.map_some,same]
  · rw [if_neg h]

theorem drop_runs (hx : s.entries[e]? = some x) (id : ι) : (s.drop x.runId).runs id = s.runs id ∨
      ((s.drop x.runId).runs id = none ∧
        ∃ i y, some e = some i ∧ s.entries[i]? = some y ∧ y.runId = id) := by
  by_cases h : id = x.runId
  · rw [h]
    exact .inr ⟨Function.update_self _ _ _,e,x,rfl,hx,rfl⟩
  · exact .inl (Function.update_of_ne h _ _)

/-- An assignment that is refused at once, or registered under an id the map lacks. -/
structure Entered (s t : Runtime ι) (x : Entry ι) : Prop where
  entries : t.entries = s.entries++[x]
  report : ∀ e, t.bearers .report e = s.bearers .report e+(decide (e = s.entries.length)).toNat
  forget : ∀ e, t.bearers .forget e =
    s.bearers .forget e+(decide (e = s.entries.length) && !x.refused).toNat
  runs : (x.refused = true ∧ t.runs = s.runs) ∨ (s.runs x.runId = none ∧
    t.runs = Function.update s.runs x.runId (some s.entries.length))
  sent : t.sent = s.sent
  brimful : t.brimful = s.brimful
  results : t.results = s.results

omit [DecidableEq ι] in
theorem unclaimed_append (h : t.entries = s.entries++[x]) (e : Nat) : (t.unclaimed e).toNat =
      (s.unclaimed e).toNat+(decide (e = s.entries.length) && x.unclaimed).toNat := by
  rw [Runtime.unclaimed,Runtime.unclaimed,h]
  rcases Nat.lt_trichotomy e s.entries.length with old | rfl | beyond
  · rw [List.getElem?_append_left old]
    simp [Nat.ne_of_lt old]
  · rw [List.getElem?_concat_length,List.getElem?_eq_none (Nat.le_refl _)]
    simp
  · rw [List.getElem?_eq_none (by simp; omega),List.getElem?_eq_none (Nat.le_of_lt beyond)]
    simp [Nat.ne_of_gt beyond]

theorem Entered.of {c : Caller}
    (entries : t.entries = s.entries++[x]) (hc : t.callers = s.callers++[c])
    (hw : t.workers = s.workers) (unclaimed : x.unclaimed = !x.refused)
    (bears : ∀ d e, c.bears d e = (decide (e = s.entries.length) && d = .report && x.refused))
    (runs : (x.refused = true ∧ t.runs = s.runs) ∨ (s.runs x.runId = none ∧
      t.runs = Function.update s.runs x.runId (some s.entries.length)))
    (sent : t.sent = s.sent) (brimful : t.brimful = s.brimful) (results : t.results = s.results) :
    Entered s t x := by
  have count : ∀ d e, t.bearers d e = s.bearers d e+(c.bears d e).toNat+
      (decide (e = s.entries.length) && x.unclaimed).toNat := by
    intro d e
    simp only [Runtime.bearers,hc,hw,unclaimed_append entries,countP_append,countP_cons, countP_nil]
    cases c.bears d e <;> simp <;> omega
  refine ⟨entries,fun e => ?_,fun e => ?_,runs,sent,brimful,results⟩
  · rw [count,bears,unclaimed]
    cases x.refused <;> simp
  · rw [count,bears,unclaimed]
    simp

omit [DecidableEq ι] in
theorem put_callers (s : Runtime ι) (e : Nat) (x : Entry ι) : (s.put e x).callers = s.callers := rfl

omit [DecidableEq ι] in
theorem put_workers (s : Runtime ι) (e : Nat) (x : Entry ι) : (s.put e x).workers = s.workers := rfl

omit [DecidableEq ι] in
theorem bearers (d : Duty) (s : Runtime ι) (e : Nat) : s.bearers d e =
    s.callers.countP (Caller.bears d e)+s.workers.countP (Worker.bears d e)+
      ((s.entries[e]?).any Entry.unclaimed).toNat := rfl

theorem Orderly.effect (h : Claims s) (hs : Channel s) (orderly : Orderly s act t) :
    (∃ told gone, Effect s t told gone) ∨ ∃ x, Entered s t x := by
  have at_ : ∀ {e : Nat} {x : Entry ι}, s.entries[e]? = some x →
      (s.entries[e]?).any Entry.unclaimed = x.unclaimed := fun hx => by rw [hx,Option.any_some]
  have kept : ∀ {e : Nat} {x x' : Entry ι}, s.entries[e]? = some x → x'.unclaimed = x.unclaimed →
      ∀ i : Nat, ((s.put e x').entries[i]?).any Entry.unclaimed = (s.entries[i]?).any Entry.unclaimed := by
    intro e x x' hx same i
    rw [Runtime.put,get_set hx]
    by_cases hi : i = e
    · rw [if_pos hi,hi,at_ hx,Option.any_some,same]
    · rw [if_neg hi]
  have taken : ∀ {e : Nat} {x x' : Entry ι}, s.entries[e]? = some x → x.unclaimed = true →
      x'.unclaimed = false → ∀ i : Nat,
      (((s.put e x').entries[i]?).any Entry.unclaimed).toNat+(if e = i then 1 else 0) =
        ((s.entries[i]?).any Entry.unclaimed).toNat := by
    intro e x x' hx was now i
    rw [Runtime.put,get_set hx]
    by_cases hi : i = e
    · rw [if_pos hi,hi,at_ hx,Option.any_some,was,now]
      simp
    · simp [hi,Ne.symm hi]
  have pushing_unrefused : ∀ {before after : List Caller} {e : Nat} {x : Entry ι},
      s.callers = before++.push e::after → s.entries[e]? = some x → x.refused = false := by
    intro before after e x hc hx
    refine Bool.eq_false_iff.2 fun refused => (h.refused e x hx refused).2 ?_
    rw [hc]
    simp [Caller.pushing]
  -- a step that tells nothing, and takes no run out of the map
  have quiet : (∀ d e, t.bearers d e = s.bearers d e) →
      t.entries.map (·.runId) = s.entries.map (·.runId) → t.runs = s.runs → t.sent = s.sent →
      t.brimful = s.brimful → t.results.length ≤ s.results.length →
      (∃ told gone, Effect s t told gone) ∨ ∃ x, Entered s t x :=
    fun bearers ids runs sent brimful results => .inl ⟨none,none,.quiet bearers ids runs sent brimful results⟩
  cases orderly.step with
  | @refuse id wellFormed why =>
    refine .inr ⟨{ runId := id, refused := true },.of rfl rfl rfl rfl (fun d e => ?_)
      (.inl ⟨rfl,rfl⟩) rfl rfl rfl⟩
    rcases eq_or_ne e s.entries.length with rfl | h
    · simp [Caller.bears]
    · simp [Caller.bears,h,h.symm]
  | duplicate | cancelUnknown | slot | take | halt =>
    exact quiet (fun _ _ => rfl) rfl rfl rfl rfl (Nat.le_refl _)
  | @register id on fresh =>
    exact .inr ⟨{ runId := id },.of rfl rfl rfl rfl (fun d e => by simp [Caller.bears])
      (.inr ⟨fresh,rfl⟩) rfl rfl rfl⟩
  | @pushed before after e x hc hx room =>
    refine quiet (fun d i => ?_) (put_ids hx rfl) rfl rfl rfl (Nat.le_refl _)
    simp [bearers,hc,Caller.bears,put_workers,@kept e x { x with accepted := true } hx rfl i]
  | @overflow before after e x hc hx full =>
    have uncancelled := orderly.full before after e x hc rfl hx
    have unrefused := pushing_unrefused hc hx
    obtain ⟨y,hy,-,idle⟩ := hs.unaccepted e (by rw [hc]; simp [Caller.pushing])
    rw [hx] at hy
    cases hy
    have queued : x.state = .queued := by
      cases state : x.state with
      | queued => rfl
      | running => exact absurd state idle
      | done =>
        rw [(hs.coherent x (mem_of_getElem? hx)).2 state] at uncancelled
        cases uncancelled
    refine quiet (fun d i => ?_) (put_ids hx rfl) rfl rfl rfl (Nat.le_refl _)
    have := @taken e x { x with refused := true } hx (by simp [Entry.unclaimed,queued,unrefused])
      (by simp [Entry.unclaimed]) i
    simp [bearers,hc,Caller.bears,countP_cons,put_workers] at this ⊢
    omega
  | @fullForget before after e x hc hx | @cancelForget before after e es reason x hc hx =>
    refine .inl ⟨none,some e,fun i => ?_,fun i => ?_,rfl,drop_runs hx,rfl,rfl,Nat.le_refl _⟩
    · simp [bearers,hc,Caller.bears,countP_cons,Runtime.drop]
    · simp [bearers,hc,Caller.bears,countP_cons,toNat_decide,Runtime.drop]
      omega
  | @refused before after e hc =>
    have told := emitted s (.result e .rejected)
    refine .inl ⟨some (.result e .rejected),none,fun i => ?_,fun i => ?_,congrArg _ told.entries,
      fun id => .inl (congrFun told.runs id),rfl,rfl,Nat.le_refl _⟩
    · simp [bearers,hc,Caller.bears,Frame.reports,countP_cons,toNat_decide,told.entries,told.workers]
      omega
    · simp [bearers,hc,Caller.bears,told.entries,told.workers]
  | cancelFound | disable | stop =>
    exact quiet (fun d i => by simp [bearers,Caller.bears]) rfl rfl rfl rfl (Nat.le_refl _)
  | configure =>
    refine quiet (fun d i => ?_) rfl rfl rfl rfl (Nat.le_refl _)
    simp only [Runtime.bearers,countP_map]
    rfl
  | @snapshot before after reason es hc nodup all | @cancelEnd before after reason hc =>
    exact quiet (fun d i => by simp [bearers,hc,Caller.bears]) rfl rfl rfl rfl (Nat.le_refl _)
  | @cancelQueued before after e es reason x hc hx queued =>
    have unrefused := orderly.cancel before after e es reason x hc rfl hx
    refine quiet (fun d i => ?_) (put_ids hx rfl) rfl rfl rfl (Nat.le_refl _)
    have := @taken e x { x with cancelled := true, cancelReason := reason, state := .done } hx
      (by simp [Entry.unclaimed,queued,unrefused]) rfl i
    simp [bearers,hc,Caller.bears,countP_cons,put_workers] at this ⊢
    omega
  | @cancelOther before after e es reason x hc hx other =>
    refine quiet (fun d i => ?_) (put_ids hx rfl) rfl rfl rfl (Nat.le_refl _)
    simp [bearers,hc,Caller.bears,put_workers,@kept e x { x with cancelled := true, cancelReason := reason } hx rfl i]
  | @cancelFinish before after e es reason hc =>
    have told := emitted s (.result e .cancelled)
    refine .inl ⟨some (.result e .cancelled),none,fun i => ?_,fun i => ?_,congrArg _ told.entries,
      fun id => .inl (congrFun told.runs id),rfl,rfl,Nat.le_refl _⟩
    · simp [bearers,hc,Caller.bears,Frame.reports,countP_cons,toNat_decide,told.entries,told.workers]
      omega
    · simp [bearers,hc,Caller.bears,told.entries,told.workers]
  | spawn hd =>
    exact quiet (fun d i => by simp [bearers,Worker.bears,Phase.bears]) rfl rfl rfl rfl (Nat.le_refl _)
  | @begin before after w x hw phase hx queued =>
    obtain ⟨y,hy,accepted⟩ := hs.accepted w.entry (mem_append_right _
      (mem_map.2 ⟨w,hw ▸ mem_append_right _ mem_cons_self,rfl⟩))
    rw [hx] at hy
    cases hy
    have unrefused : x.refused = false := by
      refine Bool.eq_false_iff.2 fun refused => ?_
      rw [(h.refused _ x hx refused).1] at accepted
      cases accepted
    refine quiet (fun d i => ?_) (put_ids hx rfl) rfl rfl rfl (Nat.le_refl _)
    have := @taken w.entry x { x with state := .running } hx
      (by simp [Entry.unclaimed,queued,unrefused]) rfl i
    simp [bearers,hw,Worker.bears,Phase.bears,phase,countP_cons,put_callers] at this ⊢
    omega
  | skip hw phase | checked hw phase | judge hw phase =>
    exact quiet (fun d i => by simp [bearers,hw,countP_cons,Worker.bears,Phase.bears,phase])
      rfl rfl rfl rfl (Nat.le_refl _)
  | @violation before after w hw phase =>
    have told := emitted s .capabilityViolation
    refine .inl ⟨some .capabilityViolation,none,fun i => ?_,fun i => ?_,congrArg _ told.entries,
      fun id => .inl (congrFun told.runs id),rfl,rfl,Nat.le_refl _⟩ <;>
    simp [bearers,hw,countP_cons,Worker.bears,Phase.bears,phase,Frame.reports,told.entries,told.callers]
  | @report before after w x outcome hw phase hx =>
    have told := emitted (s.put w.entry { x with reported := true }) (.result w.entry outcome)
    have buffer : s.reportOf w.entry x outcome =
        (s.emit (.result w.entry outcome)).put w.entry { x with reported := true } := emit_put ..
    have same := fun i => @kept w.entry x { x with reported := true } hx rfl i
    refine .inl ⟨some (.result w.entry outcome),none,fun i => ?_,fun i => ?_,
      (congrArg _ told.entries).trans (put_ids hx rfl),fun id => .inl (congrFun told.runs id),
      (congrArg Runtime.sent buffer :),(congrArg Runtime.brimful buffer :),
      Nat.le_of_eq (congrArg (·.results.length) buffer :)⟩
    · simp [bearers,hw,countP_cons,Worker.bears,Phase.bears,phase,Frame.reports,Runtime.reportOf,
        toNat_decide,put_callers,told.entries,told.callers,same]
      omega
    · simp [bearers,hw,countP_cons,Worker.bears,Phase.bears,phase,Runtime.reportOf,
        put_callers,told.entries,told.callers,same]
  | @forgetRun before after w x hw phase hx =>
    refine .inl ⟨none,some w.entry,fun i => ?_,fun i => ?_,rfl,drop_runs hx,rfl,rfl,Nat.le_refl _⟩
    · simp [bearers,hw,Worker.bears,Phase.bears,phase,Runtime.drop]
    · by_cases hi : w.entry = i <;> simp [bearers,hw,Worker.bears,Phase.bears,phase,Runtime.drop,hi]
      omega
  | release hw phase =>
    exact quiet (fun d i => by simp [bearers,hw,Worker.bears,Phase.bears,phase])
      rfl rfl rfl rfl (Nat.le_refl _)
  | pump hr => exact quiet (fun _ _ => rfl) rfl rfl rfl rfl (by rw [hr]; exact Nat.le_succ _)

/-! One bears each duty, until it is done. -/

omit [DecidableEq ι] in
theorem tell_spec (s : Runtime ι) (told : Option Frame) :
    ((s.tell told).sent = s.sent++told.toList ∧
      (s.tell told).results.length = s.results.length+told.toList.length ∧
      (s.tell told).brimful =
        (s.brimful || (told.isSome && decide (s.results.length+1 = resultBufferSize)))) ∨
    (¬s.results.length < resultBufferSize ∧ (s.tell told).sent = s.sent ∧
      (s.tell told).brimful = s.brimful) := by
  cases told with
  | none => simp [Runtime.tell]
  | some f =>
    simp only [Runtime.tell,Runtime.emit]
    split
    case isTrue =>
      simp
    case isFalse room =>
      exact .inr ⟨room,rfl,rfl⟩

/-- The results of a run are as many as have been freed of the duty to report it, but for those the
buffer was too full to take. -/
structure Arbitrated (s : Runtime ι) : Prop where
  fresh : ∀ e, s.entries.length ≤ e →
    s.resultsOf e = 0 ∧ s.bearers .report e = 0 ∧ s.bearers .forget e = 0
  once : ∀ e, s.resultsOf e+s.bearers .report e ≤ 1
  kept : s.brimful = false → ∀ e, e < s.entries.length → s.resultsOf e+s.bearers .report e = 1
  room : s.brimful = false → s.results.length < resultBufferSize
  held : ∀ e, s.bearers .forget e ≤ 1
  mapped : ∀ (e : Nat) x, s.entries[e]? = some x → 0 < s.bearers .forget e → s.runs x.runId = some e

variable {told : Option Frame} {gone : Option Nat}

omit [DecidableEq ι] in
theorem Effect.length
    (h : Effect s t told gone) : t.entries.length = s.entries.length := by
  have := congrArg List.length h.ids
  simpa only [length_map] using this

omit [DecidableEq ι] in
theorem Effect.entry (h : Effect s t told gone) {y : Entry ι} (hy : t.entries[e]? = some y) :
    ∃ x, s.entries[e]? = some x ∧ x.runId = y.runId := by
  have same := congrArg (·[e]?) h.ids
  simp only [List.getElem?_map,hy,Option.map_some] at same
  exact Option.map_eq_some_iff.1 same.symm

omit [DecidableEq ι] in
theorem Arbitrated.effect
    (h : Arbitrated s) (effect : Effect s t told gone) : Arbitrated t := by
  have count : ∀ e, (s.sent++told.toList).countP (Frame.reports e) =
      s.resultsOf e+(told.any (Frame.reports e)).toNat := by
    intro e
    rw [countP_append]
    cases told with
    | none => rfl
    | some f => exact congrArg _ (countP_one _ _)
  have fewer : ∀ e, t.resultsOf e ≤ s.resultsOf e+(told.any (Frame.reports e)).toNat := by
    intro e
    rw [Runtime.resultsOf,effect.sent]
    rcases tell_spec s told with ⟨sent,-,-⟩ | ⟨-,sent,-⟩
    · rw [sent]
      exact Nat.le_of_eq (count e)
    · rw [sent]
      exact Nat.le_add_right _ _
  have taken : t.brimful = false → s.brimful = false ∧ t.results.length < resultBufferSize ∧
      ∀ e, t.resultsOf e = s.resultsOf e+(told.any (Frame.reports e)).toNat := by
    intro low
    rw [effect.brimful] at low
    rcases tell_spec s told with ⟨sent,results,brimful⟩ | ⟨full,-,brimful⟩
    · rw [brimful,Bool.or_eq_false_iff] at low
      have room := h.room low.1
      refine ⟨low.1,Nat.lt_of_le_of_lt effect.results ?_,fun e => ?_⟩
      · cases told with
        | none => exact results ▸ room
        | some f =>
          have spare : s.results.length+1 ≠ resultBufferSize := by simpa using low.2
          rw [results]
          exact Nat.lt_of_le_of_ne room spare
      · rw [Runtime.resultsOf,effect.sent,sent,count]
    · rw [brimful] at low
      exact absurd (h.room low) full
  constructor
  case fresh =>
    intro e he
    rw [effect.length] at he
    obtain ⟨results,report,forget⟩ := h.fresh e he
    have := effect.report e
    have := effect.forget e
    have := fewer e
    omega
  case once =>
    intro e
    have := effect.report e
    have := fewer e
    have := h.once e
    omega
  case kept =>
    intro low e he
    rw [effect.length] at he
    obtain ⟨before,-,equal⟩ := taken low
    have := effect.report e
    have := equal e
    have := h.kept before e he
    omega
  case room => exact fun low => (taken low).2.1
  case held =>
    intro e
    have := effect.forget e
    have := h.held e
    omega
  case mapped =>
    intro e y hy bears
    obtain ⟨x,hx,same⟩ := effect.entry hy
    have forget := effect.forget e
    have mine := h.mapped e x hx (by omega)
    rw [←same]
    rcases effect.runs x.runId with kept | ⟨-,i,z,left,hz,other⟩
    · exact kept.trans mine
    · have gone := effect.forget i
      rw [left,decide_eq_true rfl] at gone
      have theirs := h.mapped i z hz (by simp only [Bool.toNat_true] at gone; omega)
      rw [other,mine] at theirs
      cases theirs
      have := h.held e
      simp only [Bool.toNat_true] at gone
      omega

theorem Arbitrated.entered {s t : Runtime ι} {x : Entry ι} (h : Arbitrated s)
    (entered : Entered s t x) : Arbitrated t := by
  have length : t.entries.length = s.entries.length+1 := by
    rw [entered.entries,length_append,length_singleton]
  have results : ∀ e, t.resultsOf e = s.resultsOf e := fun e => by
    rw [Runtime.resultsOf,entered.sent]
    rfl
  constructor
  case fresh =>
    intro e he
    have other : e ≠ s.entries.length := by omega
    obtain ⟨none,report,forget⟩ := h.fresh e (by omega)
    rw [results,entered.report,entered.forget]
    simp [none,report,forget,other]
  case once =>
    intro e
    rw [results,entered.report]
    by_cases he : e = s.entries.length
    · obtain ⟨none,report,-⟩ := h.fresh e (by omega)
      rw [none,report,Nat.zero_add,Nat.zero_add]
      exact Bool.toNat_le _
    · have := h.once e
      simpa [he] using this
  case kept =>
    intro low e he
    rw [results,entered.report]
    by_cases new : e = s.entries.length
    · obtain ⟨none,report,-⟩ := h.fresh e (by omega)
      rw [none,report,decide_eq_true new]
      rfl
    · have := h.kept (entered.brimful ▸ low) e (by omega)
      simpa [new] using this
  case room =>
    intro low
    rw [entered.results]
    exact h.room (entered.brimful ▸ low)
  case held =>
    intro e
    rw [entered.forget]
    by_cases new : e = s.entries.length
    · obtain ⟨-,-,forget⟩ := h.fresh e (by omega)
      rw [forget,Nat.zero_add]
      exact Bool.toNat_le _
    · have := h.held e
      simpa [new] using this
  case mapped =>
    intro e y hy bears
    rw [entered.entries] at hy
    rw [entered.forget] at bears
    rcases Nat.lt_trichotomy e s.entries.length with old | rfl | beyond
    · rw [List.getElem?_append_left old] at hy
      have mine := h.mapped e y hy (by simpa [Nat.ne_of_lt old] using bears)
      rcases entered.runs with ⟨-,runs⟩ | ⟨absent,runs⟩
      · rw [runs]
        exact mine
      · have other : y.runId ≠ x.runId := by
          intro same
          rw [same,absent] at mine
          cases mine
        rw [runs,Function.update_of_ne other]
        exact mine
    · rw [List.getElem?_concat_length] at hy
      cases hy
      obtain ⟨-,-,forget⟩ := h.fresh _ (Nat.le_refl _)
      rw [forget] at bears
      rcases entered.runs with ⟨refused,-⟩ | ⟨-,runs⟩
      · simp [refused] at bears
      · rw [runs,Function.update_self]
    · rw [List.getElem?_eq_none (by simp; omega)] at hy
      cases hy

/-! What a runtime that is quiescent has done. -/

def Caller.listed : Caller → List Nat
  | .cancel es _ | .forget _ es _ | .finish _ es _ => es
  | .push _ | .full _ | .refuse _ | .snapshot _ => []

structure Known (s : Runtime ι) : Prop where
  mapped : ∀ id e, s.runs id = some e → ∃ x, s.entries[e]? = some x ∧ x.runId = id
  listed : ∀ c ∈ s.callers, ∀ e ∈ c.listed, e < s.entries.length

theorem Known.lists (h : Known s) (step : Step s act t) :
    ∀ c ∈ t.callers, ∀ e ∈ c.listed, e < s.entries.length := by
  have there : ∀ {id : ι} {e : Nat}, s.runs id = some e → e < s.entries.length := fun hr => by
    obtain ⟨x,hx,-⟩ := h.mapped _ _ hr
    exact (List.getElem?_eq_some_iff.1 hx).1
  have added : ∀ c : Caller, (∀ e ∈ c.listed, e < s.entries.length) →
      ∀ d ∈ s.callers++[c], ∀ e ∈ d.listed, e < s.entries.length := by
    intro c hc d hd
    rcases mem_append.1 hd with hd | hd
    · exact h.listed d hd
    · rw [mem_singleton.1 hd]
      exact hc
  have swapped : ∀ {before after : List Caller} {c : Caller} (c' : Caller),
      s.callers = before++c::after → (∀ e ∈ c'.listed, e < s.entries.length) →
      ∀ d ∈ before++c'::after, ∀ e ∈ d.listed, e < s.entries.length := by
    intro before after c c' hc new d hd
    rcases mem_append.1 hd with hd | hd
    · exact h.listed d (hc ▸ mem_append_left _ hd)
    · rcases mem_cons.1 hd with rfl | hd
      · exact new
      · exact h.listed d (hc ▸ mem_append_right _ (mem_cons_of_mem _ hd))
  have removed : ∀ {before after : List Caller} {c : Caller}, s.callers = before++c::after →
      ∀ d ∈ before++after, ∀ e ∈ d.listed, e < s.entries.length := by
    intro before after c hc d hd
    refine h.listed d (hc ▸ mem_append.2 ((mem_append.1 hd).imp_right ?_))
    exact mem_cons_of_mem _
  have rest : ∀ {before after : List Caller} {c : Caller}, s.callers = before++c::after →
      ∀ e ∈ c.listed, e < s.entries.length := fun hc =>
    h.listed _ (hc ▸ mem_append_right _ mem_cons_self)
  cases step with
  | refuse | register => exact added _ nofun
  | duplicate | cancelUnknown | configure | slot | take | spawn | halt | begin | skip | checked
  | judge | forgetRun | release | pump => exact h.listed
  | violation =>
    intro c hc
    exact h.listed c ((emitted s .capabilityViolation).callers ▸ hc)
  | @report before after w x outcome =>
    intro c hc
    exact h.listed c ((emitted (s.put w.entry { x with reported := true })
      (.result w.entry outcome)).callers ▸ hc)
  | pushed hc _ _ => exact removed hc
  | overflow hc _ _ => exact swapped _ hc nofun
  | fullForget hc _ => exact swapped _ hc nofun
  | refused hc => exact removed hc
  | cancelFound found =>
    refine added _ fun i hi => ?_
    rw [mem_singleton.1 hi]
    exact there found
  | disable | stop => exact added _ nofun
  | snapshot hc _ all =>
    refine swapped _ hc fun i hi => ?_
    obtain ⟨id,hid⟩ := (all i).1 hi
    exact there hid
  | cancelQueued hc _ _ => exact swapped _ hc fun e he => rest hc e (mem_cons_of_mem _ he)
  | cancelOther hc _ _ => exact swapped _ hc fun e he => rest hc e (mem_cons_of_mem _ he)
  | cancelEnd hc => exact removed hc
  | cancelForget hc _ => exact swapped _ hc fun e he => rest hc e he
  | cancelFinish hc => exact swapped _ hc fun e he => rest hc e he

omit [DecidableEq ι] in
theorem Known.effect (h : Known s) (effect : Effect s t told gone)
    (listed : ∀ c ∈ t.callers, ∀ e ∈ c.listed, e < s.entries.length) : Known t where
  mapped := by
    intro id e hr
    rcases effect.runs id with kept | ⟨absent,-⟩
    · obtain ⟨x,hx,same⟩ := h.mapped id e (kept ▸ hr)
      have ids := congrArg (·[e]?) effect.ids
      simp only [List.getElem?_map,hx,Option.map_some] at ids
      obtain ⟨y,hy,hxy⟩ := Option.map_eq_some_iff.1 ids
      exact ⟨y,hy,hxy.trans same⟩
    · rw [absent] at hr
      cases hr
  listed := effect.length ▸ listed

theorem Known.entered {s t : Runtime ι} {x : Entry ι} (h : Known s) (entered : Entered s t x)
    (listed : ∀ c ∈ t.callers, ∀ e ∈ c.listed, e < s.entries.length) : Known t where
  mapped := by
    intro id e hr
    rw [entered.entries]
    have old : s.runs id = some e → ∃ y, (s.entries++[x])[e]? = some y ∧ y.runId = id := by
      intro hr
      obtain ⟨y,hy,same⟩ := h.mapped id e hr
      exact ⟨y,get_append hy,same⟩
    rcases entered.runs with ⟨-,runs⟩ | ⟨-,runs⟩
    · exact old (runs ▸ hr)
    · rw [runs] at hr
      by_cases same : id = x.runId
      · rw [same,Function.update_self] at hr
        cases hr
        exact ⟨x,List.getElem?_concat_length,same.symm⟩
      · rw [Function.update_of_ne same] at hr
        exact old hr
  listed := by
    intro c hc e he
    rw [entered.entries,length_append]
    exact Nat.lt_add_right _ (listed c hc e he)

structure Sound (s : Runtime ι) : Prop where
  channel : Channel s
  claims : Claims s
  slots : Slots s
  arbitrated : Arbitrated s
  known : Known s

theorem Sound.step (h : Sound s) (orderly : Orderly s act t) :
    Sound t := by
  have channel := h.channel.step orderly.step
  have claims := h.claims.step h.channel orderly.step
  have slots := h.slots.step orderly.step
  have listed := h.known.lists orderly.step
  rcases orderly.effect h.claims h.channel with ⟨told,gone,effect⟩ | ⟨x,entered⟩
  · exact ⟨channel,claims,slots,h.arbitrated.effect effect,h.known.effect effect listed⟩
  · exact ⟨channel,claims,slots,h.arbitrated.entered entered,h.known.entered entered listed⟩

theorem sound_start (n : Int) : Sound (start n : Runtime ι) where
  channel := channel_of_run (.nil _)
  claims := ⟨fun _ _ => nofun,fun _ => nofun,fun _ _ => nofun⟩
  slots := by
    refine ⟨clampConcurrency_pos n,rfl,nofun,fun _ => nofun,fun before p after h => ?_,fun _ _ => nofun⟩
    cases before <;> cases h
  arbitrated := by
    refine ⟨fun _ _ => ⟨rfl,rfl,rfl⟩,fun _ => Nat.zero_le _,fun _ _ => nofun,fun _ => ?_,
      fun _ => Nat.zero_le _,fun _ _ => nofun⟩
    show 0 < resultBufferSize
    decide
  known := ⟨fun _ _ => nofun,fun _ => nofun⟩

theorem sound_of_run {n : Int} {acts : List (Act ι)}
    (run : Run Orderly (start n) acts s) : Sound s :=
  run.invariant (fun _ _ _ h orderly => h.step orderly) (sound_start n)

omit [DecidableEq ι] in
theorem Sound.borne (h : Sound s) {c : Caller} (hc : c ∈ s.callers)
    (bears : c.bears .report e = true) : ∃ x, s.entries[e]? = some x := by
  by_cases inside : e < s.entries.length
  · exact ⟨_,List.getElem?_eq_getElem inside⟩
  · obtain ⟨-,none,-⟩ := h.arbitrated.fresh e (Nat.le_of_not_lt inside)
    have counted : 0 < s.callers.countP (Caller.bears .report e) :=
      countP_pos_iff.2 ⟨c,hc,bears⟩
    rw [Runtime.bearers] at none
    omega

omit [DecidableEq ι] in
theorem Known.values (h : Known s) :
    ∃ es : List Nat, es.Nodup ∧ ∀ e, e ∈ es ↔ ∃ id, s.runs id = some e := by
  refine ⟨(List.range s.entries.length).filter fun e => (s.entries[e]?).any fun x =>
    s.runs x.runId = some e,nodup_range.filter _,fun e => ?_⟩
  rw [mem_filter,mem_range,Option.any_eq_true]
  constructor
  · intro hin
    obtain ⟨x,-,hr⟩ := hin.2
    exact ⟨x.runId,of_decide_eq_true hr⟩
  · intro there
    obtain ⟨id,hr⟩ := there
    obtain ⟨x,hx,same⟩ := h.mapped id e hr
    exact ⟨(List.getElem?_eq_some_iff.1 hx).1,x,hx,decide_eq_true (same ▸ hr)⟩

theorem Sound.callers_done (h : Sound s) (quiet : s.Quiescent) : s.callers = [] := by
  cases hc : s.callers with
  | nil => rfl
  | cons c rest =>
    exfalso
    have mine : c ∈ s.callers := hc ▸ mem_cons_self
    have stuck := quiet .caller
    cases c with
    | push e =>
      obtain ⟨x,hx,-⟩ := h.channel.unaccepted e (by simp [hc,Caller.pushing])
      by_cases room : s.queue.length < queueCapacity
      · exact stuck _ rfl (@Step.pushed _ _ s [] rest e x hc hx room)
      · exact stuck _ rfl (@Step.overflow _ _ s [] rest e x hc hx room)
    | full e =>
      obtain ⟨x,hx⟩ := h.borne mine (decide_eq_true rfl)
      exact stuck _ rfl (@Step.fullForget _ _ s [] rest e x hc hx)
    | refuse e => exact stuck _ rfl (@Step.refused _ _ s [] rest e hc)
    | snapshot reason =>
      obtain ⟨es,nodup,all⟩ := h.known.values
      exact stuck _ rfl (@Step.snapshot _ _ s [] rest reason es hc nodup all)
    | cancel es reason =>
      cases es with
      | nil => exact stuck _ rfl (@Step.cancelEnd _ _ s [] rest reason hc)
      | cons e es =>
        have hx := List.getElem?_eq_getElem (h.known.listed _ mine e mem_cons_self)
        by_cases queued : (s.entries.get ⟨e,h.known.listed _ mine e mem_cons_self⟩).state = .queued
        · exact stuck _ rfl (@Step.cancelQueued _ _ s [] rest e es reason _ hc hx queued)
        · exact stuck _ rfl (@Step.cancelOther _ _ s [] rest e es reason _ hc hx queued)
    | forget e es reason =>
      obtain ⟨x,hx⟩ := h.borne mine (decide_eq_true rfl)
      exact stuck _ rfl (@Step.cancelForget _ _ s [] rest e es reason x hc hx)
    | finish e es reason => exact stuck _ rfl (@Step.cancelFinish _ _ s [] rest e es reason hc)

theorem Sound.workers_done (h : Sound s) (quiet : s.Quiescent) : s.workers = [] := by
  cases hw : s.workers with
  | nil => rfl
  | cons w rest =>
    exfalso
    have stuck := quiet .worker
    obtain ⟨x,hx,-⟩ := h.channel.accepted w.entry
      (mem_append_right _ (mem_map.2 ⟨w,hw ▸ mem_cons_self,rfl⟩))
    cases phase : w.phase with
    | begin =>
      by_cases queued : x.state = .queued
      · exact stuck _ rfl (@Step.begin _ _ s [] rest w x hw phase hx queued)
      · exact stuck _ rfl (@Step.skip _ _ s [] rest w x hw phase hx queued)
    | check => exact stuck _ rfl (@Step.checked _ _ s [] rest w .completed hw phase)
    | judge outcome => exact stuck _ rfl (@Step.judge _ _ s [] rest w x outcome hw phase hx)
    | report outcome => exact stuck _ rfl (@Step.report _ _ s [] rest w x outcome hw phase hx)
    | forget => exact stuck _ rfl (@Step.forgetRun _ _ s [] rest w x hw phase hx)
    | release => exact stuck _ rfl (@Step.release _ _ s [] rest w hw phase)

theorem Sound.dispatched (h : Sound s) (quiet : s.Quiescent)
    (running : s.stopped = false) : s.queue = [] ∧ s.dispatcher.held = [] := by
  have stuck := quiet .dispatcher
  cases hd : s.dispatcher with
  | waiting =>
    have idle := h.slots.inFlight
    rw [h.workers_done quiet,length_nil] at idle
    exact absurd (.slot hd (idle ▸ h.slots.capacity)) (stuck _ rfl)
  | slot =>
    refine ⟨?_,rfl⟩
    cases hq : s.queue with
    | nil => rfl
    | cons e rest => exact absurd (.take hd hq) (stuck _ rfl)
  | taken e => exact absurd (.spawn hd) (stuck _ rfl)
  | stopped =>
    rw [h.slots.halted hd] at running
    cases running

theorem Sound.reported (h : Sound s) (quiet : s.Quiescent)
    (running : s.stopped = false) (e : Nat) : s.bearers .report e = 0 := by
  have callers := h.callers_done quiet
  have workers := h.workers_done quiet
  obtain ⟨queue,held⟩ := h.dispatched quiet running
  have claimed : s.unclaimed e = false := by
    refine Bool.eq_false_iff.2 fun hu => ?_
    have := h.claims.unclaimed e hu
    simp [callers,workers,queue,held] at this
  rw [Runtime.bearers,callers,workers,claimed]
  rfl

theorem Sound.open_mapped (h : Sound s) {id : ι} (open_ : s.openRun id = true) :
    ∃ e, s.runs id = some e := by
  rw [Runtime.openRun,any_eq_true] at open_
  obtain ⟨x,hx,facts⟩ := open_
  simp only [Bool.and_eq_true,decide_eq_true_eq,Bool.not_eq_true'] at facts
  obtain ⟨⟨same,isOpen⟩,unrefused⟩ := facts
  obtain ⟨e,he⟩ := mem_iff_getElem?.1 hx
  have bears : 0 < s.bearers .forget e := by
    simp only [Entry.isOpen,Bool.or_eq_true,Bool.and_eq_true,decide_eq_true_eq,
      Bool.not_eq_true'] at isOpen
    rw [Runtime.bearers]
    rcases isOpen with ⟨queued,-⟩ | ⟨executing,unreported⟩
    · have unclaimed : s.unclaimed e = true := by
        simp [Runtime.unclaimed,he,Entry.unclaimed,queued,unrefused]
      rw [unclaimed]
      exact Nat.succ_pos _
    · obtain ⟨w,hw,mine,phase⟩ := h.claims.running e x he executing unreported
      have counted : 0 < s.workers.countP (Worker.bears .forget e) := by
        refine countP_pos_iff.2 ⟨w,hw,?_⟩
        rw [Worker.bears,decide_eq_true mine,Bool.true_and]
        cases hp : w.phase <;> simp_all [Phase.bears]
      omega
  exact ⟨e,same ▸ h.arbitrated.mapped e x he bears⟩

/-- Each assignment has at most one result, and one when the runtime is quiescent unless it was
stopped or its buffer was full; the checks that execute are no more than the largest limit since the
first of them; and a duplicate of an open run changes nothing. -/
structure Settled (s : Runtime ι) : Prop where
  once : ∀ e, s.resultsOf e ≤ 1
  each : s.Quiescent → s.stopped = false → s.brimful = false →
    ∀ e, e < s.entries.length → s.resultsOf e = 1
  limit : ∀ w, s.executing.head? = some w → s.executing.length ≤ w.peak
  duplicate : ∀ id wellFormed t, s.openRun id = true → Orderly s (.assign id wellFormed) t → t = s

theorem results_settled {n : Int} {acts : List (Act ι)} {s : Runtime ι}
    (run : Run Orderly (start n) acts s) : Settled s := by
  have h := sound_of_run run
  constructor
  case once =>
    intro e
    have := h.arbitrated.once e
    omega
  case each =>
    intro quiet running low e he
    have kept := h.arbitrated.kept low e he
    rwa [h.reported quiet running e,Nat.add_zero] at kept
  case limit =>
    intro w hw
    cases hx : s.executing with rw [hx] at hw
    | nil =>
      cases hw
    | cons v rest =>
      cases hw
      obtain ⟨before,after,workers,-,-,others⟩ := filter_eq_cons_iff.1 hx
      have since := h.slots.since (before.map (·.peak)) w.peak (after.map (·.peak))
        (by rw [Runtime.peaks,workers,map_append,map_cons])
      have fewer := length_filter_le Worker.executing after
      rw [others] at fewer
      rw [length_map] at since
      rw [length_cons]
      omega
  case duplicate =>
    intro id wellFormed t there orderly
    obtain ⟨e,mapped⟩ := h.open_mapped there
    cases orderly.step with
    | refuse why =>
      rw [orderly.refuse id wellFormed rfl why] at there
      cases there
    | duplicate => rfl
    | register on fresh =>
      rw [mapped] at fresh
      cases fresh

end

def reportedRefusal : Runtime Nat where
  entries := [{ runId := 0, refused := true }]
  maxConcurrent := 1
  results := [.result 0 .rejected]
  sent := [.result 0 .rejected]

theorem refusal_settled : Settled reportedRefusal ∧ reportedRefusal.resultsOf 0 = 1 := by
  refine ⟨?_,by decide⟩
  let refusing : Runtime Nat :=
    { entries := [{ runId := 0, refused := true }], maxConcurrent := 1, callers := [.refuse 0] }
  have refuse : Orderly (start 1) (.assign 0 false) refusing :=
    ⟨.refuse (.inl rfl),(fun before _ _ _ hc => by cases before <;> cases hc),
      (fun before _ _ _ _ _ hc => by cases before <;> cases hc),fun _ _ _ _ => rfl⟩
  have report : Orderly refusing .caller reportedRefusal := by
    refine ⟨@Step.refused _ _ refusing [] [] 0 rfl,fun before after e x hc => ?_,
      fun before after e es reason x hc => ?_,nofun⟩
    · cases before with
      | nil => cases hc
      | cons c before => cases before <;> cases hc
    · cases before with
      | nil => cases hc
      | cons c before => cases before <;> cases hc
  exact @results_settled Nat _ 1 [.assign 0 false,.caller] reportedRefusal
    (((Run.nil _).snoc refuse).snoc report)

def latecomer (x : Entry Nat) (runs : Nat → Option Nat) (callers : List Caller)
    (told : List Frame) : Runtime Nat :=
  { behind queueCapacity 0 with
    entries := (behind queueCapacity 0).entries++[x]
    runs := runs
    callers := callers
    results := told
    sent := told }

theorem latecomer_entry (x : Entry Nat) (runs : Nat → Option Nat) (callers : List Caller)
    (told : List Frame) : (latecomer x runs callers told).entries[queueCapacity+1]? = some x := by
  have here := List.getElem?_concat_length (l := (behind queueCapacity 0).entries) (a := x)
  rwa [entries_length] at here

theorem latecomer_put (x y : Entry Nat) (runs : Nat → Option Nat) (callers : List Caller)
    (told : List Frame) :
    (latecomer x runs callers told).put (queueCapacity+1) y = latecomer y runs callers told := by
  have length := entries_length queueCapacity 0
  rw [Runtime.put,latecomer,latecomer]
  simp only [set_append_right _ _ (Nat.le_of_eq length),length,Nat.sub_self,set_cons_zero]

/-- An assignment that waits for room in the channel is cancelled, finds the channel full, and is
reported as cancelled and as rejected. -/
theorem cancelled_and_rejected : ∃ (acts : List (Act Nat)) (s : Runtime Nat),
    Run Step (start 1) acts s ∧ s.resultsOf (queueCapacity+1) = 2 ∧ s.brimful = false := by
  obtain ⟨acts,run⟩ := run_assigning (Nat.zero_le _)
  let e := queueCapacity+1
  let fresh : Entry Nat := { runId := e }
  let closed : Entry Nat := { fresh with state := .done, cancelled := true }
  let refused : Entry Nat := { closed with refused := true }
  let mapped := (assigning queueCapacity 0).runs
  let forgotten := Function.update mapped e none
  have full : ¬(latecomer closed forgotten [] []).queue.length < queueCapacity := by
    decide
  have found : Step (assigning queueCapacity 0) (.cancel e "")
      (latecomer fresh mapped [.push e,.cancel [e] ""] []) := @Step.cancelFound Nat _ _ e e "" rfl
  have marked : Step (latecomer fresh mapped [.push e,.cancel [e] ""] []) .caller
      (latecomer closed mapped [.push e,.forget e [] ""] []) := by
    have step := @Step.cancelQueued Nat _ (latecomer fresh mapped [.push e,.cancel [e] ""] [])
      [.push e] [] e [] "" fresh rfl (latecomer_entry _ _ _ _) rfl
    rw [latecomer_put] at step
    exact step
  have left : Step (latecomer closed mapped [.push e,.forget e [] ""] []) .caller
      (latecomer closed forgotten [.push e,.finish e [] ""] []) :=
    @Step.cancelForget Nat _ _ [.push e] [] e [] "" closed rfl (latecomer_entry _ _ _ _)
  have told : Step (latecomer closed forgotten [.push e,.finish e [] ""] []) .caller
      (latecomer closed forgotten [.push e,.cancel [] ""] [.result e .cancelled]) :=
    @Step.cancelFinish Nat _ _ [.push e] [] e [] "" rfl
  have overflowed : Step
      (latecomer closed forgotten [.push e,.cancel [] ""] [.result e .cancelled]) .caller
      (latecomer refused forgotten [.full e,.cancel [] ""] [.result e .cancelled]) := by
    have step := @Step.overflow Nat _
      (latecomer closed forgotten [.push e,.cancel [] ""] [.result e .cancelled]) [] [.cancel [] ""] e
      closed rfl (latecomer_entry _ _ _ _) full
    rw [latecomer_put] at step
    exact step
  have twice : Function.update forgotten e none = forgotten := Function.update_idem _ _ _
  have dropped : Step (latecomer refused forgotten [.full e,.cancel [] ""] [.result e .cancelled]) .caller
      (latecomer refused forgotten [.refuse e,.cancel [] ""] [.result e .cancelled]) := by
    have step := @Step.fullForget Nat _
      (latecomer refused forgotten [.full e,.cancel [] ""] [.result e .cancelled]) [] [.cancel [] ""] e
      refused rfl (latecomer_entry _ _ _ _)
    have runs : (latecomer refused forgotten [.full e,.cancel [] ""] [.result e .cancelled]).drop e =
        latecomer refused forgotten [.full e,.cancel [] ""] [.result e .cancelled] := by
      rw [Runtime.drop,show Function.update (latecomer refused forgotten [.full e,.cancel [] ""]
        [.result e .cancelled]).runs e none = forgotten from twice]
      rfl
    rw [show refused.runId = e from rfl,runs] at step
    exact step
  have again : Step (latecomer refused forgotten [.refuse e,.cancel [] ""] [.result e .cancelled])
      .caller (latecomer refused forgotten [.cancel [] ""]
        [.result e .cancelled,.result e .rejected]) :=
    @Step.refused Nat _ _ [] [.cancel [] ""] e rfl
  exact ⟨_,_,((((((run.snoc found).snoc marked).snoc left).snoc told).snoc overflowed).snoc
    dropped).snoc again,rfl,rfl⟩

end CircuitBreaker.ProbeRuntime
